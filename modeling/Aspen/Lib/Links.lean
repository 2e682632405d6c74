import Mathlib.Data.List.Nodup

/-!
# Linked lists with owners

Cells have two links each: one to the next cell of a list, and one by which the first cell of a list leads to the
next list of a stack. Every cell has one owner. An owner has a list if it owns the cells of the list and nothing
else, and likewise for a stack of lists.
-/

namespace Aspen.Links

open Function List

variable {ι π : Type*}

structure Heap (ι π : Type*) where
  next : ι → Option ι
  link : ι → Option ι
  owner : ι → π

namespace Heap

variable {H H' : Heap ι π} {P Q R : π} {p : Option ι} {x h : ι} {l : List ι} {ls : List (List ι)} {n : ℕ}

def Chain (H : Heap ι π) : Option ι → List ι → Prop
  | p, [] => p = none
  | p, x :: l => p = some x ∧ H.Chain (H.next x) l

def Stack (H : Heap ι π) : Option ι → List (List ι) → Prop
  | p, [] => p = none
  | p, l :: ls => ∃ h, p = some h ∧ H.Chain (some h) l ∧ H.Stack (H.link h) ls

structure Owns (H : Heap ι π) (P : π) (l : List ι) : Prop where
  nodup : l.Nodup
  mem : ∀ x, x ∈ l ↔ H.owner x = P

variable (H P p)

def HasList (n : ℕ) : Prop := ∃ l, H.Chain p l ∧ l.length = n ∧ H.Owns P l

def HasStack (n : ℕ) : Prop := ∃ ls, H.Stack p ls ∧ (∀ l ∈ ls, l.length = n) ∧ H.Owns P ls.flatten

def Empty : Prop := ∀ x, H.owner x ≠ P

/-! ## What is left alone -/

def Same (R : π) (H' : Heap ι π) : Prop := ∀ x, (H'.owner x = R ↔ H.owner x = R) ∧
    (H.owner x = R → H'.next x = H.next x ∧ H'.link x = H.link x)

lemma Same.refl (R : π) : H.Same R H := fun _ => ⟨Iff.rfl, fun _ => ⟨rfl, rfl⟩⟩

variable {H P p}

lemma Same.trans {H'' : Heap ι π} (h : H.Same R H') (h' : H'.Same R H'') : H.Same R H'' := by
  refine fun x => ⟨(h' x).1.trans (h x).1, fun hx => ?_⟩
  obtain ⟨hn, hl⟩ := (h x).2 hx
  obtain ⟨hn', hl'⟩ := (h' x).2 ((h x).1.2 hx)
  exact ⟨hn'.trans hn, hl'.trans hl⟩

def Moved (H : Heap ι π) (P Q : π) (H' : Heap ι π) : Prop :=
  ∀ x, (H'.next x = H.next x ∧ H'.link x = H.link x ∧ H'.owner x = H.owner x) ∨ (H.owner x = P ∧ H'.owner x = Q)

lemma Moved.same (h : H.Moved P Q H') (hP : R ≠ P) (hQ : R ≠ Q) : H.Same R H' := by
  intro x
  rcases h x with ⟨hn, hl, ho⟩ | ⟨ho, ho'⟩
  · exact ⟨by rw [ho], fun _ => ⟨hn, hl⟩⟩
  · rw [ho, ho']
    exact ⟨⟨fun he => absurd he.symm hQ, fun he => absurd he.symm hP⟩, fun he => absurd he.symm hP⟩

lemma Moved.owner (h : H.Moved P Q H') (hQ : R ≠ Q) (hx : H'.owner x = R) : H.owner x = R := by
  rcases h x with ⟨-, -, ho⟩ | ⟨-, ho⟩
  · exact ho.symm.trans hx
  · exact absurd (hx.symm.trans ho) hQ

lemma Chain.congr (h : H.Chain p l) (he : ∀ x ∈ l, H'.next x = H.next x) : H'.Chain p l := by
  induction l generalizing p with
  | nil => exact h
  | cons x l ih =>
    refine ⟨h.1, ?_⟩
    rw [he x (.head _)]
    exact ih h.2 fun y hy => he y (.tail _ hy)

lemma Chain.mem_head (h : H.Chain (some x) l) : x ∈ l := by
  cases l with
  | nil => cases h
  | cons y l =>
    cases h.1
    exact .head _

lemma Stack.congr (h : H.Stack p ls)
    (he : ∀ x ∈ ls.flatten, H'.next x = H.next x ∧ H'.link x = H.link x) : H'.Stack p ls := by
  induction ls generalizing p with
  | nil => exact h
  | cons l ls ih =>
    obtain ⟨h, hp, hc, hs⟩ := h
    have hl : ∀ y ∈ l, y ∈ (l :: ls).flatten := fun y hy => mem_append_left _ hy
    refine ⟨h, hp, hc.congr fun y hy => (he y (hl y hy)).1, ?_⟩
    rw [(he h (hl h hc.mem_head)).2]
    exact ih hs fun y hy => he y (mem_append_right _ hy)

lemma Owns.same (ho : H.Owns R l) (h : H.Same R H') : H'.Owns R l :=
  ⟨ho.nodup, fun x => (ho.mem x).trans (h x).1.symm⟩

lemma Empty.same (he : H.Empty R) (h : H.Same R H') : H'.Empty R := fun x hx => he x ((h x).1.1 hx)

lemma HasList.same (hl : H.HasList R p n) (h : H.Same R H') : H'.HasList R p n := by
  obtain ⟨l, hc, hn, ho⟩ := hl
  exact ⟨l, hc.congr fun x hx => ((h x).2 ((ho.mem x).1 hx)).1, hn, ho.same h⟩

lemma HasStack.same (hs : H.HasStack R p n) (h : H.Same R H') : H'.HasStack R p n := by
  obtain ⟨ls, hc, hn, ho⟩ := hs
  exact ⟨ls, hc.congr fun x hx => (h x).2 ((ho.mem x).1 hx), hn, ho.same h⟩

/-! ## Empty lists -/

lemma Empty.owns (h : H.Empty P) : H.Owns P [] := ⟨nodup_nil, fun x => ⟨nofun, fun hx => absurd hx (h x)⟩⟩

lemma Empty.hasList (h : H.Empty P) : H.HasList P none 0 := ⟨[], rfl, rfl, h.owns⟩

lemma Empty.hasStack (h : H.Empty P) (n : ℕ) : H.HasStack P none n := ⟨[], rfl, nofun, h.owns⟩

lemma Owns.empty (h : H.Owns P []) : H.Empty P := fun x hx => nomatch (h.mem x).2 hx

lemma HasList.empty (h : H.HasList P p 0) : p = none ∧ H.Empty P := by
  obtain ⟨l, hc, hn, ho⟩ := h
  obtain rfl := eq_nil_of_length_eq_zero hn
  exact ⟨hc, ho.empty⟩

lemma HasList.of_none (h : H.HasList P none n) : n = 0 ∧ H.Empty P := by
  obtain ⟨l, hc, hn, ho⟩ := h
  cases l with
  | nil => exact ⟨hn.symm, ho.empty⟩
  | cons x l => exact nomatch hc.1

lemma HasStack.of_none (h : H.HasStack P none n) : H.Empty P := by
  obtain ⟨ls, hs, -, ho⟩ := h
  cases ls with
  | nil => exact ho.empty
  | cons l ls =>
    obtain ⟨h, hp, -⟩ := hs
    cases hp

lemma HasList.head (h : H.HasList P p (n + 1)) : ∃ x, p = some x ∧ H.owner x = P := by
  obtain ⟨l, hc, hn, ho⟩ := h
  cases l with
  | nil => cases hn
  | cons x l => exact ⟨x, hc.1, (ho.mem x).1 (.head _)⟩

lemma HasList.owner_head (h : H.HasList P (some x) n) : H.owner x = P := by
  obtain ⟨l, hc, -, ho⟩ := h
  exact (ho.mem x).1 hc.mem_head

/-! ## Passing cells on -/

section Give

variable {S : ι → Prop} [DecidablePred S] {l' : List ι}

def give (H : Heap ι π) (S : ι → Prop) [DecidablePred S] (Q : π) : Heap ι π :=
  { H with owner := fun x => if S x then Q else H.owner x }

lemma moved_give (hS : ∀ x, S x → H.owner x = P) : H.Moved P Q (H.give S Q) := by
  intro x
  by_cases hx : S x
  · exact .inr ⟨hS x hx, if_pos hx⟩
  · exact .inl ⟨rfl, rfl, if_neg hx⟩

lemma Owns.gain (ho : H.Owns Q l') (hl : l.Nodup) (hS : ∀ x, x ∈ l ↔ S x) (hQ : ∀ x ∈ l, H.owner x ≠ Q) :
    (H.give S Q).Owns Q (l ++ l') := by
  refine ⟨nodup_append.2 ⟨hl, ho.nodup, fun x hx y hy he => ?_⟩, fun x => ?_⟩
  · subst he
    exact hQ x hx ((ho.mem x).1 hy)
  · rw [mem_append, hS, ho.mem x]
    by_cases hx : S x
    · exact ⟨fun _ => if_pos hx, fun _ => .inl hx⟩
    · exact ⟨fun h => (if_neg hx).trans (h.resolve_left hx), fun h => .inr ((if_neg hx).symm.trans h)⟩

lemma Owns.lose (ho : H.Owns P l') (hl : l.Nodup) (hS : ∀ x, x ∈ l ↔ ¬ S x ∧ x ∈ l') (hPQ : Q ≠ P) :
    (H.give S Q).Owns P l := by
  refine ⟨hl, fun x => ?_⟩
  rw [hS, ho.mem x]
  by_cases hx : S x
  · exact ⟨fun h => absurd hx h.1, fun h => absurd ((if_pos hx).symm.trans h) hPQ⟩
  · exact ⟨fun h => (if_neg hx).trans h.2, fun h => ⟨hx, (if_neg hx).symm.trans h⟩⟩

end Give

section Relocate

variable [DecidableEq π]

def relocate (H : Heap ι π) (P Q : π) : Heap ι π := H.give (H.owner · = P) Q

lemma moved_relocate : H.Moved P Q (H.relocate P Q) := moved_give fun _ => id

lemma empty_relocate (h : Q ≠ P) : (H.relocate P Q).Empty P := by
  intro x hx
  by_cases ho : H.owner x = P
  · exact h ((if_pos ho).symm.trans hx)
  · exact ho ((if_neg ho).symm.trans hx)

lemma Owns.relocate (ho : H.Owns P l) (he : H.Empty Q) : (H.relocate P Q).Owns Q l :=
  append_nil l ▸ he.owns.gain ho.nodup ho.mem fun x _ => he x

lemma HasList.relocate (h : H.HasList P p n) (he : H.Empty Q) : (H.relocate P Q).HasList Q p n := by
  obtain ⟨l, hc, hn, ho⟩ := h
  exact ⟨l, hc.congr fun _ _ => rfl, hn, ho.relocate he⟩

lemma HasStack.relocate (h : H.HasStack P p n) (he : H.Empty Q) : (H.relocate P Q).HasStack Q p n := by
  obtain ⟨ls, hs, hn, ho⟩ := h
  exact ⟨ls, hs.congr fun _ _ => ⟨rfl, rfl⟩, hn, ho.relocate he⟩

end Relocate

/-! ## One cell -/

section Pass

variable [DecidableEq ι]

def pass (H : Heap ι π) (x : ι) (Q : π) : Heap ι π := H.give (· = x) Q

lemma moved_pass (hx : H.owner x = P) : H.Moved P Q (H.pass x Q) := by
  refine moved_give ?_
  rintro _ rfl
  exact hx

lemma HasList.pass (h : H.HasList P (some x) (n + 1)) (hPQ : Q ≠ P) : (H.pass x Q).HasList P (H.next x) n := by
  obtain ⟨l, hc, hn, ho⟩ := h
  cases l with
  | nil => cases hn
  | cons y l =>
    cases hc.1
    obtain ⟨hxl, hnd⟩ := nodup_cons.1 ho.nodup
    refine ⟨l, hc.2.congr fun _ _ => rfl, Nat.succ.inj hn, ho.lose hnd (fun y => ?_) hPQ⟩
    rw [mem_cons]
    exact ⟨fun hm => ⟨ne_of_mem_of_not_mem hm hxl, .inr hm⟩, fun h => h.2.resolve_left h.1⟩

lemma Owns.pass (ho : H.Owns Q l) (hx : H.owner x = P) (hPQ : Q ≠ P) : (H.pass x Q).Owns Q (x :: l) := by
  refine ho.gain (nodup_singleton x) (fun _ => mem_singleton) fun y hy he => ?_
  obtain rfl := mem_singleton.1 hy
  exact hPQ (he.symm.trans hx)

lemma Owns.erase (ho : H.Owns P l) (hPQ : Q ≠ P) : (H.pass x Q).Owns P (l.erase x) :=
  ho.lose (ho.nodup.erase x) (fun _ => ho.nodup.mem_erase_iff) hPQ

def write (H : Heap ι π) (x : ι) (a b : Option ι) : Heap ι π :=
  { H with next := update H.next x a, link := update H.link x b }

lemma moved_write (hx : H.owner x = P) {a b : Option ι} : H.Moved P P (H.write x a b) := by
  intro y
  by_cases hy : y = x
  · subst hy
    exact .inr ⟨hx, hx⟩
  · exact .inl ⟨update_of_ne hy .., update_of_ne hy .., rfl⟩

def push (H : Heap ι π) (x : ι) (p : Option ι) (Q : π) : Heap ι π := { H.pass x Q with next := update H.next x p }

lemma moved_push (hx : H.owner x = P) : H.Moved P Q (H.push x p Q) := by
  intro y
  by_cases hy : y = x
  · subst hy
    exact .inr ⟨hx, if_pos rfl⟩
  · exact .inl ⟨update_of_ne hy .., rfl, if_neg hy⟩

lemma HasList.push (h : H.HasList Q p n) (hx : H.owner x = P) (hPQ : Q ≠ P) :
    (H.push x p Q).HasList Q (some x) (n + 1) := by
  obtain ⟨l, hc, hn, ho⟩ := h
  have ho' := ho.pass hx hPQ
  have hxl : x ∉ l := (nodup_cons.1 ho'.nodup).1
  refine ⟨x :: l, ⟨rfl, ?_⟩, congrArg (· + 1) hn, ho'.nodup, ho'.mem⟩
  show (H.push x p Q).Chain (update H.next x p x) l
  rw [update_self]
  refine hc.congr fun y hy => ?_
  have hne : y ≠ x := fun he => hxl (he ▸ hy)
  exact update_of_ne hne ..

end Pass

/-! ## Stacks -/

section PassAll

variable [DecidableEq ι]

def passAll (H : Heap ι π) (l : List ι) (Q : π) : Heap ι π := H.give (· ∈ l) Q

lemma moved_passAll (hl : ∀ x ∈ l, H.owner x = P) : H.Moved P Q (H.passAll l Q) := moved_give hl

lemma Owns.passAll {l' : List ι} (ho : H.Owns Q l') (hl : l.Nodup) (hP : ∀ x ∈ l, H.owner x = P)
    (hPQ : Q ≠ P) : (H.passAll l Q).Owns Q (l ++ l') :=
  ho.gain hl (fun _ => Iff.rfl) fun x hx he => hPQ (he.symm.trans (hP x hx))

lemma HasStack.pop (h : H.HasStack P (some x) n) (hPQ : Q ≠ P) :
    ∃ l, H.Chain (some x) l ∧ l.length = n ∧ (∀ y ∈ l, H.owner y = P) ∧ l.Nodup ∧
      (H.passAll l Q).HasStack P (H.link x) n := by
  obtain ⟨ls, hs, hn, ho⟩ := h
  cases ls with
  | nil => cases hs
  | cons l ls =>
    obtain ⟨h, hp, hc, hs⟩ := hs
    cases hp
    obtain ⟨hnd, hnd', hdis⟩ := nodup_append.1 ho.nodup
    have hP : ∀ y ∈ l, H.owner y = P := fun y hy => (ho.mem y).1 (mem_append_left _ hy)
    refine ⟨l, hc, hn l (.head _), hP, hnd, ls, hs.congr fun _ _ => ⟨rfl, rfl⟩,
      fun l' hl' => hn l' (.tail _ hl'), ho.lose hnd' (fun y => ?_) hPQ⟩
    exact ⟨fun hm => ⟨fun hy => hdis y hy y hm rfl, mem_append_right _ hm⟩,
      fun h => (mem_append.1 h.2).resolve_left h.1⟩

lemma hasList_passAll (hc : H.Chain p l) (hnd : l.Nodup) (hQ : H.Empty Q) : (H.passAll l Q).HasList Q p l.length := by
  have ho := hQ.owns.gain (S := (· ∈ l)) hnd (fun _ => Iff.rfl) fun x _ => hQ x
  rw [append_nil] at ho
  exact ⟨l, hc.congr fun _ _ => rfl, rfl, ho⟩

end PassAll

section PushList

variable [DecidableEq ι] [DecidableEq π]

def pushList (H : Heap ι π) (h : ι) (p : Option ι) (P Q : π) : Heap ι π :=
  { H.relocate P Q with link := update H.link h p }

lemma moved_pushList (hx : H.owner h = P) : H.Moved P Q (H.pushList h p P Q) := by
  intro y
  by_cases hy : H.owner y = P
  · exact .inr ⟨hy, if_pos hy⟩
  · have hne : y ≠ h := fun he => hy (he ▸ hx)
    exact .inl ⟨rfl, update_of_ne hne .., if_neg hy⟩

lemma HasStack.pushList (hs : H.HasStack Q p n) (hl : H.HasList P (some h) n) (hPQ : Q ≠ P) :
    (H.pushList h p P Q).HasStack Q (some h) n := by
  obtain ⟨ls, hs, hn, ho⟩ := hs
  obtain ⟨l, hc, hln, hlo⟩ := hl
  have hown : (H.relocate P Q).Owns Q (l ++ ls.flatten) := ho.gain hlo.nodup hlo.mem fun x hx he =>
    hPQ (he.symm.trans ((hlo.mem x).1 hx))
  have hdis := (nodup_append.1 hown.nodup).2.2
  refine ⟨l :: ls, ⟨h, rfl, hc.congr fun _ _ => rfl, ?_⟩, ?_, hown.nodup, hown.mem⟩
  · show (H.pushList h p P Q).Stack (update H.link h p h) ls
    rw [update_self]
    refine hs.congr fun y hy => ⟨rfl, ?_⟩
    have hne : y ≠ h := (hdis h hc.mem_head y hy).symm
    exact update_of_ne hne ..
  · rintro l' (_ | ⟨_, hl'⟩)
    · exact hln
    · exact hn l' hl'

end PushList

end Heap

/-! ## Linking and collecting -/

/-- Link the cells of a list to each other, and the last one to none. -/
def linkAll [DecidableEq ι] : List ι → (ι → Option ι) → ι → Option ι
  | [], next => next
  | x :: l, next => linkAll l (update next x l.head?)

lemma linkAll_of_notMem [DecidableEq ι] {l : List ι} {next : ι → Option ι} {y : ι} (hy : y ∉ l) :
    linkAll l next y = next y := by
  induction l generalizing next with
  | nil => rfl
  | cons x l ih =>
    rw [mem_cons, not_or] at hy
    rw [linkAll, ih hy.2]
    exact update_of_ne hy.1 ..

lemma chain_linkAll [DecidableEq ι] {H : Heap ι π} {l : List ι} (hl : l.Nodup) {next : ι → Option ι}
    (he : H.next = linkAll l next) : H.Chain l.head? l := by
  induction l generalizing next with
  | nil => rfl
  | cons x l ih =>
    obtain ⟨hx, hnd⟩ := nodup_cons.1 hl
    refine ⟨rfl, ?_⟩
    have hnx : H.next x = l.head? := by
      rw [he, linkAll, linkAll_of_notMem hx]
      exact update_self ..
    rw [hnx]
    exact ih hnd he

def collect (next : ι → Option ι) : ℕ → Option ι → Option (List ι)
  | _, none => some []
  | 0, some _ => none
  | n + 1, some x => (collect next n (next x)).map (x :: ·)

lemma Heap.Chain.collect {H : Heap ι π} {p : Option ι} {l : List ι} (h : H.Chain p l) (n : ℕ) :
    Links.collect H.next n p = if l.length ≤ n then some l else none := by
  induction l generalizing p n with
  | nil =>
    cases h
    cases n <;> rfl
  | cons x l ih =>
    cases h.1
    cases n with
    | zero => rfl
    | succ n =>
      rw [Links.collect, ih h.2 n, length_cons]
      by_cases hn : l.length ≤ n
      · rw [if_pos hn, if_pos (Nat.succ_le_succ hn)]
        rfl
      · rw [if_neg hn, if_neg fun hs => hn (Nat.le_of_succ_le_succ hs)]
        rfl

end Aspen.Links
