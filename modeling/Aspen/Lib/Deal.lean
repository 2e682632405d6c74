import Mathlib.Data.Int.CardIntervalMod
import Mathlib.Data.List.GetD

/-!
# Dealing in turn

A loop over a table that leaves some entries alone and gives the other ones to the elements of a list in turn: no
element gets more than one entry more than another.
-/

namespace Aspen

open Function

variable {xs : List ℕ} {skip : ℕ → Bool} {t : ℕ → ℕ} {n i a b : ℕ}

/-- The table after `n` rounds, and how many entries were given away. -/
def deal (xs : List ℕ) (skip : ℕ → Bool) (t : ℕ → ℕ) : ℕ → (ℕ → ℕ) × ℕ
  | 0 => (t, 0)
  | n + 1 =>
    let (t, j) := deal xs skip t n
    if skip n then (t, j) else (update t n (xs.getD (j % xs.length) 0), j + 1)

lemma deal_eq : (deal xs skip t n).2 = n.count (skip · = false) ∧ ∀ i, (deal xs skip t n).1 i =
    if i < n ∧ skip i = false then xs.getD (i.count (skip · = false) % xs.length) 0 else t i := by
  induction n with
  | zero => exact ⟨rfl, fun i => (if_neg fun h => Nat.not_lt_zero i h.1).symm⟩
  | succ n ih =>
    obtain ⟨hj, ht⟩ := ih
    rw [deal, Nat.count_succ]
    cases hs : skip n with
    | true =>
      refine ⟨hj, fun i => (ht i).trans ?_⟩
      have hne : skip i = false → i ≠ n := by
        rintro hi rfl
        cases hs.symm.trans hi
      exact if_congr (and_congr_left fun hi => by have := hne hi; omega) rfl rfl
    | false =>
      refine ⟨congrArg (· + 1) hj, fun i => ?_⟩
      by_cases hi : i = n
      · subst hi
        rw [if_pos ⟨Nat.lt_succ_self i, hs⟩, ← hj]
        exact update_self ..
      · refine ((update_of_ne hi ..).trans (ht i)).trans (if_congr (and_congr_left fun _ => ?_) rfl rfl)
        omega

lemma deal_skip (hi : skip i) : (deal xs skip t n).1 i = t i := by
  rw [deal_eq.2, if_neg (by simp [hi])]

lemma deal_fresh (hxs : 0 < xs.length) (hin : i < n) (hi : skip i = false) :
    ∃ hk : i.count (skip · = false) % xs.length < xs.length,
      (deal xs skip t n).1 i = xs[i.count (skip · = false) % xs.length] := by
  refine ⟨Nat.mod_lt _ hxs, ?_⟩
  rw [deal_eq.2, if_pos ⟨hin, hi⟩, List.getD_eq_getElem]

lemma deal_mem (hxs : 0 < xs.length) (hin : i < n) (hi : skip i = false) : (deal xs skip t n).1 i ∈ xs := by
  obtain ⟨hk, he⟩ := deal_fresh (t := t) hxs hin hi
  exact he ▸ List.getElem_mem hk

lemma count_deal (hxs : xs.Nodup) {k : ℕ} (hk : k < xs.length) :
    n.count (fun i => skip i = false ∧ (deal xs skip t n).1 i = xs[k]) =
      (n.count (skip · = false)).count (· ≡ k [MOD xs.length]) := by
  have key : ∀ m ≤ n, m.count (fun i => skip i = false ∧ (deal xs skip t n).1 i = xs[k]) =
      (m.count (skip · = false)).count (· ≡ k [MOD xs.length]) := by
    intro m hm
    induction m with
    | zero => rfl
    | succ m ih =>
      rw [Nat.count_succ, Nat.count_succ, ih (by omega)]
      by_cases hs : skip m = false
      · obtain ⟨_, he⟩ := deal_fresh (t := t) (Nat.zero_lt_of_lt hk) hm hs
        rw [if_pos hs, Nat.count_succ]
        refine congrArg (_ + ·) (if_congr ?_ rfl rfl)
        rw [and_iff_right hs, he, hxs.getElem_inj_iff, Nat.ModEq, Nat.mod_eq_of_lt hk]
      · rw [if_neg hs, if_neg fun h => hs h.1, Nat.add_zero, Nat.add_zero]
  exact key n le_rfl

variable (skip t n) in
lemma deal_even (hxs : xs.Nodup) (ha : a ∈ xs) (hb : b ∈ xs) :
    n.count (fun i => skip i = false ∧ (deal xs skip t n).1 i = a) ≤
      n.count (fun i => skip i = false ∧ (deal xs skip t n).1 i = b) + 1 := by
  obtain ⟨k, hk, rfl⟩ := List.mem_iff_getElem.1 ha
  obtain ⟨l, hl, rfl⟩ := List.mem_iff_getElem.1 hb
  have hpos := Nat.zero_lt_of_lt hk
  rw [count_deal hxs hk, count_deal hxs hl, Nat.count_modEq_card _ hpos, Nat.count_modEq_card _ hpos]
  split_ifs <;> omega

end Aspen
