import Mathlib.Logic.Function.Basic
import Mathlib.Order.Defs.LinearOrder
import Mathlib.Data.Nat.Notation

/-!
# Dense arrays

A set is kept in the first `count` places of an array, in no particular order, and every element knows its
place. An element is added at the end, and removed by moving the last one into its place. What is
beyond `count`, and what elements outside the set take their place to be, is left over from before.
-/

namespace Aspen

open Function List

structure Dense (α : Type*) where
  entries : ℕ → α
  count : ℕ
  place : α → ℕ

namespace Dense

variable {α : Type*}

structure Holds (d : Dense α) (S : α → Prop) : Prop where
  entry : ∀ i < d.count, S (d.entries i) ∧ d.place (d.entries i) = i
  elem : ∀ x, S x → d.place x < d.count ∧ d.entries (d.place x) = x

variable [DecidableEq α] {d : Dense α} {S : α → Prop} {x : α}

def push (d : Dense α) (x : α) : Dense α where
  entries := update d.entries d.count x
  count := d.count + 1
  place := update d.place x d.count

def remove (d : Dense α) (x : α) : Dense α where
  entries := update d.entries (d.place x) (d.entries (d.count - 1))
  count := d.count - 1
  place := update d.place (d.entries (d.count - 1)) (d.place x)

lemma Holds.push (h : d.Holds S) (hx : ¬ S x) : (d.push x).Holds fun y => y = x ∨ S y := by
  constructor
  · intro i hi
    dsimp only [Dense.push] at hi ⊢
    by_cases hic : i = d.count
    · rw [hic, update_self, update_self]
      exact ⟨.inl rfl, rfl⟩
    · obtain ⟨hS, hp⟩ := h.entry i (by omega)
      have hne : d.entries i ≠ x := fun he => hx (he ▸ hS)
      rw [update_of_ne hic, update_of_ne hne]
      exact ⟨.inr hS, hp⟩
  · intro y hy
    dsimp only [Dense.push]
    by_cases hyx : y = x
    · rw [hyx, update_self, update_self]
      exact ⟨Nat.lt_succ_self _, rfl⟩
    · obtain ⟨hlt, he⟩ := h.elem y (hy.resolve_left hyx)
      rw [update_of_ne hyx, update_of_ne (Nat.ne_of_lt hlt)]
      exact ⟨Nat.lt_succ_of_lt hlt, he⟩

lemma Holds.remove (h : d.Holds S) (hx : S x) : (d.remove x).Holds fun y => y ≠ x ∧ S y := by
  obtain ⟨hlt, hex⟩ := h.elem x hx
  obtain ⟨hSl, hpl⟩ := h.entry (d.count - 1) (by omega)
  constructor
  · intro i hi
    dsimp only [Dense.remove] at hi ⊢
    by_cases hip : i = d.place x
    · -- the last element has moved here, and it is not the one removed
      subst hip
      rw [update_self, update_self]
      refine ⟨⟨?_, hSl⟩, rfl⟩
      intro he
      rw [he] at hpl
      omega
    · obtain ⟨hS, hp⟩ := h.entry i (by omega)
      have hne : d.entries i ≠ d.entries (d.count - 1) := by
        intro he
        rw [he, hpl] at hp
        omega
      rw [update_of_ne hip, update_of_ne hne]
      refine ⟨⟨?_, hS⟩, hp⟩
      rintro he
      exact hip (by rw [← he, hp])
  · rintro y ⟨hyx, hy⟩
    obtain ⟨hylt, hey⟩ := h.elem y hy
    dsimp only [Dense.remove]
    by_cases hyl : y = d.entries (d.count - 1)
    · rw [← hyl, update_self, update_self]
      refine ⟨?_, rfl⟩
      have hne : d.place x ≠ d.count - 1 := by
        intro he
        exact hyx (by rw [hyl, ← he, hex])
      omega
    · rw [update_of_ne hyl]
      have hne : d.place y ≠ d.place x := by
        intro he
        exact hyx (by rw [← hey, he, hex])
      rw [update_of_ne hne]
      refine ⟨?_, hey⟩
      have hnl : d.place y ≠ d.count - 1 := by
        intro he
        exact hyl (by rw [← he, hey])
      omega

omit [DecidableEq α] in
lemma Holds.congr {T : α → Prop} (h : d.Holds S) (hST : ∀ x, T x ↔ S x) : d.Holds T :=
  ⟨fun i hi => ⟨(hST _).2 (h.entry i hi).1, (h.entry i hi).2⟩, fun x hx => h.elem x ((hST x).1 hx)⟩

end Dense

/-! ## Arrays without places

Where elements do not know their place, the array is searched for the one to be removed. -/

section SwapRemove

variable {α : Type*} [DecidableEq α]

/-- The last element moves into the place of `x`. -/
def swapRemove (l : List α) (x : α) : List α :=
  match l.getLast? with
  | none => []
  | some y => (l.set (l.idxOf x) y).dropLast

lemma swapRemove_perm {l : List α} {x : α} (h : x ∈ l) : (x :: swapRemove l x).Perm l := by
  obtain ⟨l1, l2, rfl, hx⟩ := eq_append_cons_of_mem h
  have hidx : (l1 ++ x :: l2).idxOf x = l1.length := by
    rw [idxOf_append, if_neg hx, idxOf_cons_self, Nat.zero_add]
  rcases eq_nil_or_concat l2 with rfl | ⟨l3, y, rfl⟩
  · have hrem : swapRemove (l1 ++ [x]) x = l1 := by
      simp only [swapRemove, getLast?_append, getLast?_singleton, Option.some_or, hidx,
        set_append_right _ _ (Nat.le_refl _), Nat.sub_self, set_cons_zero,
        dropLast_concat]
    rw [hrem]
    exact (perm_append_singleton x l1).symm
  · rw [concat_eq_append] at hidx ⊢
    have hrem : swapRemove (l1 ++ x :: (l3 ++ [y])) x = l1 ++ y :: l3 := by
      have hlast : (l1 ++ x :: (l3 ++ [y])).getLast? = some y := by
        rw [← cons_append, ← append_assoc, getLast?_concat]
      simp only [swapRemove, hlast, hidx, set_append_right _ _ (Nat.le_refl _), Nat.sub_self, set_cons_zero]
      rw [← cons_append, ← append_assoc, dropLast_concat]
    rw [hrem]
    refine ((perm_middle.trans ?_).cons x).trans perm_middle.symm
    rw [← append_assoc]
    exact (perm_append_singleton y (l1 ++ l3)).symm

lemma mem_swapRemove {l : List α} (hl : l.Nodup) {x : α} (h : x ∈ l) {y : α} :
    y ∈ swapRemove l x ↔ y ∈ l ∧ y ≠ x := by
  have hp := swapRemove_perm h
  have hnd := nodup_cons.1 (hp.nodup_iff.2 hl)
  rw [← hp.mem_iff, mem_cons]
  constructor
  · exact fun hy => ⟨.inr hy, fun he => hnd.1 (he ▸ hy)⟩
  · exact fun hy => hy.1.resolve_left hy.2

lemma nodup_swapRemove {l : List α} (hl : l.Nodup) {x : α} (h : x ∈ l) : (swapRemove l x).Nodup :=
  (nodup_cons.1 ((swapRemove_perm h).nodup_iff.2 hl)).2

end SwapRemove

end Aspen
