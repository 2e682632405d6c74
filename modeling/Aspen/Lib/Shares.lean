import Mathlib.Data.Finset.Card
import Mathlib.Tactic.Linarith

/-!
# One owner or many, in one number

Something is held by any number of parties for reading or by a single one for writing. A number says
which: `n` when there are `n` readers, -1 when there is a writer.
-/

namespace Aspen

open Function

inductive Access
  | read
  | write
  deriving DecidableEq

def Counted {θ : Type*} (mode : θ → Option Access) (n : ℤ) : Prop :=
  (∃ R : Finset θ, (∀ t, mode t = some .read ↔ t ∈ R) ∧ (∀ t, mode t ≠ some .write) ∧ n = R.card) ∨
    ∃ w, mode w = some .write ∧ (∀ t, t ≠ w → mode t = none) ∧ n = -1

namespace Counted

variable {θ : Type*} {mode : θ → Option Access} {n : ℤ}

lemma none : Counted (fun _ : θ => Option.none) 0 := .inl ⟨∅, by simp, by simp, by simp⟩

lemma readers (h : Counted mode n) (hn : 0 ≤ n) :
    ∃ R : Finset θ, (∀ t, mode t = some .read ↔ t ∈ R) ∧ (∀ t, mode t ≠ some .write) ∧
      n = R.card := by
  rcases h with h | ⟨w, -, -, rfl⟩
  · exact h
  · exact absurd hn (by decide)

lemma mode_eq_none (h : Counted mode 0) (t : θ) : mode t = .none := by
  obtain ⟨R, hR, hW, hn⟩ := h.readers le_rfl
  obtain rfl : R = ∅ := Finset.card_eq_zero.1 (by exact_mod_cast hn.symm)
  have hr : mode t ≠ some .read := by simp [hR]
  cases hm : mode t with
  | none => rfl
  | some a =>
    cases a with
    | read => exact absurd hm hr
    | write => exact absurd hm (hW t)

lemma neg_iff (h : Counted mode n) : n = -1 ↔ ∃ t, mode t = some .write := by
  rcases h with ⟨R, -, hW, rfl⟩ | ⟨w, hw, -, rfl⟩
  · exact ⟨fun h => by omega, fun ⟨t, ht⟩ => absurd ht (hW t)⟩
  · exact ⟨fun _ => ⟨w, hw⟩, fun _ => rfl⟩

lemma writer_unique (h : Counted mode n) {t u : θ} (ht : mode t = some .write)
    (hu : mode u ≠ .none) : u = t := by
  rcases h with ⟨R, -, hW, -⟩ | ⟨w, -, hn, -⟩
  · exact absurd ht (hW t)
  · have hw : ∀ v, mode v ≠ .none → v = w := fun v hv => by
      by_contra hne
      exact hv (hn v hne)
    rw [hw u hu, hw t (by simp [ht])]

variable [DecidableEq θ]

lemma share (h : Counted mode n) (hn : 0 ≤ n) {t : θ} (ht : mode t = .none) :
    Counted (update mode t (some .read)) (n + 1) := by
  obtain ⟨R, hR, hW, rfl⟩ := h.readers hn
  have htR : t ∉ R := by simp [← hR, ht]
  refine .inl ⟨insert t R, fun u => ?_, fun u => ?_, ?_⟩
  · by_cases hu : u = t
    · simp [hu]
    · simp [hu, hR]
  · by_cases hu : u = t
    · simp [hu]
    · simpa [hu] using hW u
  · rw [Finset.card_insert_of_notMem htR]
    push_cast
    rfl

lemma share_all (h : Counted mode 0) {ws : List θ} (hws : ws.Nodup) :
    Counted (fun t => if t ∈ ws then some .read else mode t) ws.length := by
  refine .inl ⟨ws.toFinset, fun t => ?_, fun t => ?_, ?_⟩
  · simp [h.mode_eq_none]
  · by_cases ht : t ∈ ws
    · simp [ht]
    · simp [ht, h.mode_eq_none]
  · rw [List.toFinset_card_of_nodup hws]

lemma exclude (h : Counted mode 0) (t : θ) : Counted (fun u => if u = t then some .write else mode u) (-1) :=
  .inr ⟨t, by simp, fun u hu => by simp [hu, h.mode_eq_none], rfl⟩

lemma drop_read (h : Counted mode n) {t : θ} (ht : mode t = some .read) :
    0 < n ∧ Counted (update mode t .none) (n - 1) := by
  rcases h with ⟨R, hR, hW, rfl⟩ | ⟨w, hw, hn, -⟩
  · have htR : t ∈ R := (hR t).1 ht
    have hpos : 0 < R.card := Finset.card_pos.2 ⟨t, htR⟩
    refine ⟨by exact_mod_cast hpos, .inl ⟨R.erase t, fun u => ?_, fun u => ?_, ?_⟩⟩
    · by_cases hu : u = t
      · simp [hu]
      · simp [hu, hR]
    · by_cases hu : u = t
      · simp [hu]
      · simpa [hu] using hW u
    · rw [Finset.card_erase_of_mem htR]
      omega
  · by_cases hu : t = w
    · rw [hu, hw] at ht
      cases ht
    · rw [hn t hu] at ht
      cases ht

lemma drop_write (h : Counted mode n) {t : θ} (ht : mode t = some .write) :
    n = -1 ∧ Counted (update mode t .none) 0 := by
  refine ⟨h.neg_iff.2 ⟨t, ht⟩, ?_⟩
  have hnone : update mode t .none = fun _ => .none := by
    funext u
    by_cases hu : u = t
    · simp [hu]
    · rw [update_of_ne hu]
      by_contra hne
      exact hu (h.writer_unique ht hne)
  rw [hnone]
  exact .none

end Counted

end Aspen
