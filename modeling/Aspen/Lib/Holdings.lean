import Mathlib.Data.Fintype.Card
import Mathlib.Data.List.Nodup

/-!
# Holdings, marks and choices

Each of finitely many things has at most one owner. What somebody holds is a finite set; when a thing changes hands,
it is added to the set of its new owner and taken out of that of the old one.
-/

namespace Aspen

open Function

variable {C P : Type*} [Fintype C] [DecidableEq C] [DecidableEq P]

def holds (owner : C → Option P) (p : P) : Finset C := Finset.univ.filter fun c => owner c = some p

namespace Holds

variable {owner owner' : C → Option P} {p q : P} {c : C}

omit [DecidableEq C] in
@[simp] lemma mem_holds : c ∈ holds owner p ↔ owner c = some p := by
  rw [holds, Finset.mem_filter]
  exact and_iff_right (Finset.mem_univ c)

lemma card_update (owner : C → Option P) (c : C) (x : Option P) (p : P) : ((holds (update owner c x) p).card : ℤ) =
      (holds owner p).card - (if owner c = some p then 1 else 0) + if x = some p then 1 else 0 := by
  have hcard (S : Finset C) : (S.card : ℤ) = (S.erase c).card + if c ∈ S then 1 else 0 := by
    split
    · rename_i h
      rw [← Finset.card_erase_add_one h, Int.natCast_succ]
    · rename_i h
      rw [Finset.erase_eq_of_notMem h, Int.add_zero]
  have he : (holds (update owner c x) p).erase c = (holds owner p).erase c := by
    ext d
    rw [Finset.mem_erase, Finset.mem_erase, mem_holds, mem_holds]
    exact and_congr_right fun hd => by rw [update_of_ne hd]
  rw [hcard, hcard (holds owner p), he]
  simp only [mem_holds, update_self]
  omega

def drop (owner : C → Option P) (p : P) : C → Option P := fun c => if owner c = some p then none else owner c

omit [Fintype C] [DecidableEq C] in
lemma drop_eq_some : drop owner p c = some q ↔ q ≠ p ∧ owner c = some q := by
  unfold drop
  by_cases hc : owner c = some p
  · rw [if_pos hc, hc]
    exact ⟨nofun, fun h => absurd (Option.some.inj h.2).symm h.1⟩
  · rw [if_neg hc]
    refine ⟨fun h => ⟨?_, h⟩, And.right⟩
    rintro rfl
    exact hc h

omit [DecidableEq C] in
lemma holds_drop (h : q ≠ p) : holds (drop owner p) q = holds owner q := by
  ext c
  rw [mem_holds, mem_holds, drop_eq_some]
  exact and_iff_right h

end Holds

/-! ## Lists of what is marked

Each marked thing is on the list once. It is added when it is marked, at either end, and erased when the mark is removed.
-/

variable {α β : Type*}

structure Marked (l : List α) (S : α → Prop) : Prop where
  nodup : l.Nodup
  mem : ∀ a, a ∈ l ↔ S a

namespace Marked

variable {l : List α} {S S' : α → Prop} {a : α}

lemma nil (h : ∀ a, ¬S a) : Marked [] S :=
  ⟨List.nodup_nil, fun a => ⟨fun ha => (nomatch ha), fun ha => absurd ha (h a)⟩⟩

lemma congr (h : Marked l S) (hS : ∀ a, S' a ↔ S a) : Marked l S' := ⟨h.nodup, fun a => (h.mem a).trans (hS a).symm⟩

lemma cons (h : Marked l S) (ha : ¬S a) (hS : ∀ b, S' b ↔ b = a ∨ S b) : Marked (a :: l) S' where
  nodup := List.nodup_cons.2 ⟨fun hm => ha ((h.mem a).1 hm), h.nodup⟩
  mem b := by rw [List.mem_cons, h.mem b, hS b]

lemma concat (h : Marked l S) (ha : ¬S a) (hS : ∀ b, S' b ↔ b = a ∨ S b) : Marked (l ++ [a]) S' where
  nodup := by
    rw [List.nodup_append_comm]
    exact (h.cons ha hS).nodup
  mem b := by
    rw [List.mem_append, List.mem_singleton, h.mem b, hS b]
    exact or_comm

lemma erase [DecidableEq α] (h : Marked l S) (hS : ∀ b, S' b ↔ b ≠ a ∧ S b) : Marked (l.erase a) S' where
  nodup := h.nodup.erase a
  mem b := by rw [h.nodup.mem_erase_iff, h.mem b, hS b]

end Marked

/-! ## The best of a list

A loop that keeps the element with the highest score so far, the first one if there are several, and starts with a
score that has to be exceeded.
-/

/-- The element with the highest score, if that is more than `least`. -/
def best [LT β] [DecidableRel (α := β) (· < ·)] (score : α → β) (least : β) (l : List α) : Option α :=
  (l.foldl (fun acc a => if acc.1 < score a then (score a, some a) else acc) (least, none)).2

lemma best_eq_some [Preorder β] [DecidableRel (α := β) (· < ·)] {score : α → β} {least : β} {l : List α} {a : α}
    (h : best score least l = some a) : a ∈ l ∧ least < score a := by
  have key : ∀ (l' : List α) (acc : β × Option α), l' ⊆ l →
      least ≤ acc.1 → (∀ b, acc.2 = some b → b ∈ l ∧ least < score b) →
      ∀ b, (l'.foldl (fun acc a => if acc.1 < score a then (score a, some a) else acc) acc).2 = some b →
        b ∈ l ∧ least < score b := by
    intro l'
    induction l' with
    | nil => exact fun acc _ _ hacc b hb => hacc b hb
    | cons x l' ih =>
      intro acc hsub hle hacc b hb
      rw [List.foldl_cons] at hb
      split at hb
      · rename_i hlt
        refine ih _ (fun y hy => hsub (.tail _ hy)) (hle.trans hlt.le) ?_ b hb
        rintro y ⟨⟩
        exact ⟨hsub (.head _), lt_of_le_of_lt hle hlt⟩
      · exact ih _ (fun y hy => hsub (.tail _ hy)) hle hacc b hb
  exact key l (least, none) (fun _ hy => hy) (le_refl _) nofun a h

end Aspen
