import Aspen.Lib.Run
import Mathlib.Data.List.Nodup

/-!
# Memory pools (`mempool.c`, `mempool.h`)

A pool hands out the items of a region, none of which straddles a page. The array `free_items` is a stack: the first
`allocated` places are empty, and the others have the items that are free.
-/

namespace Aspen.Pools

open List Run

structure Mempool where
  freeItems : List ℕ
  allocated : ℕ
  capacity : ℕ
  deriving DecidableEq

inductive Fault
  | outOfBounds
  | overflow
  | misplaced
  deriving DecidableEq

inductive Ret
  | success | einval | enomem
  deriving DecidableEq

variable (m : Mempool)

def put (item : ℕ) : Except Fault Mempool :=
  if m.capacity < m.freeItems.length then
    .ok { m with freeItems := m.freeItems.set m.capacity item, capacity := m.capacity + 1 }
  else .error .outOfBounds

/-- The items in the order of the loops of `mempool_populate`. -/
def items (buf pgsize itemLen nrPages itemsPerPage : ℕ) : List ℕ :=
  (range nrPages).flatMap fun i => (range itemsPerPage).map fun j => buf + pgsize * i + itemLen * j

/-- Whether `calloc` succeeds is an input. -/
def mempoolPopulate (buf len pgsize itemLen : ℕ) (calloc : Bool) : Except Fault (Ret × Mempool) :=
  let itemsPerPage := pgsize / itemLen
  let nrPages := len / pgsize
  if !calloc then .ok (.enomem, { m with freeItems := [] })
  else if 2 ^ 31 ≤ nrPages ∨ 0 < nrPages ∧ 2 ^ 31 ≤ itemsPerPage then .error .overflow
  else do
    let m ← (items buf pgsize itemLen nrPages itemsPerPage).foldlM put
      { m with freeItems := replicate (nrPages * itemsPerPage) 0 }
    return (.success, m)

def Invalid (len pgsize itemLen : ℕ) : Prop :=
  itemLen = 0 ∨ ¬(pgsize ≠ 0 ∧ pgsize &&& (pgsize - 1) = 0) ∨ len % pgsize ≠ 0
  deriving Decidable

def mempoolCreate (buf len pgsize itemLen : ℕ) (calloc : Bool) : Except Fault (Ret × Mempool) :=
  if Invalid len pgsize itemLen then .ok (.einval, m)
  else mempoolPopulate { m with allocated := 0 } buf len pgsize itemLen calloc

def mempoolAlloc : Except Fault (Option ℕ × Mempool) := if m.allocated ≥ m.capacity then .ok (none, m)
  else match m.freeItems[m.allocated]? with
    | some item => .ok (some item, { m with allocated := m.allocated + 1 })
    | none => .error .outOfBounds

def mempoolFree (item : ℕ) : Except Fault Mempool :=
  if 0 < m.allocated ∧ m.allocated ≤ m.freeItems.length then
    .ok { m with freeItems := m.freeItems.set (m.allocated - 1) item, allocated := m.allocated - 1 }
  else .error .outOfBounds

structure Sys where
  pool : Mempool
  held : List ℕ

inductive Event
  | mempoolAlloc
  | mempoolFree (item : ℕ)

def step (s : Sys) : Event → Except Fault Sys
  | .mempoolAlloc => do
    let (item, pool) ← mempoolAlloc s.pool
    return ⟨pool, item.toList ++ s.held⟩
  | .mempoolFree item =>
    if item ∈ s.held then do
      let pool ← mempoolFree s.pool item
      return ⟨pool, s.held.erase item⟩
    else .error .misplaced

/-! ## Creation -/

lemma foldlM_put (l pre suf : List ℕ) (a : ℕ) (h : l.length = suf.length) :
    l.foldlM put ⟨pre ++ suf, a, pre.length⟩ = .ok ⟨pre ++ l, a, pre.length + l.length⟩ := by
  induction l generalizing pre suf with
  | nil =>
    obtain rfl := length_eq_zero_iff.1 h.symm
    rfl
  | cons x l ih =>
    obtain ⟨y, suf, rfl⟩ := exists_cons_of_length_eq_add_one h.symm
    have hput : put ⟨pre ++ y :: suf, a, pre.length⟩ x = .ok ⟨(pre ++ [x]) ++ suf, a, (pre ++ [x]).length⟩ := by
      simp [put]
    rw [foldlM_cons, hput]
    refine (ih (pre ++ [x]) suf (by simpa using h)).trans ?_
    simp [Nat.add_assoc, Nat.add_comm 1]

lemma capacity_foldlM_put {l : List ℕ} {m m' : Mempool} (h : l.foldlM put m = .ok m') :
    m'.capacity = m.capacity + l.length := by
  induction l generalizing m with
  | nil =>
    cases h
    rfl
  | cons x l ih =>
    obtain ⟨m1, hput, h⟩ := bind_eq_ok.1 ((foldlM_cons ..).symm.trans h)
    rw [ih h, length_cons]
    unfold put at hput
    split at hput
    · cases hput
      exact Nat.add_right_comm ..
    · cases hput

variable {buf len pgsize itemLen nrPages itemsPerPage : ℕ} {s s' : Sys} {l : List ℕ}

lemma item_le {j : ℕ} (hj : j < pgsize / itemLen) : itemLen * j + itemLen ≤ pgsize :=
  (Nat.mul_le_mul_left itemLen hj).trans (Nat.mul_div_le pgsize itemLen)

lemma pairwise_items : (items buf pgsize itemLen nrPages (pgsize / itemLen)).Pairwise (· + itemLen ≤ ·) := by
  refine pairwise_flatMap.2 ⟨fun i _ => pairwise_map.2 ?_, ?_⟩
  · refine pairwise_lt_range.imp fun {j j'} h => ?_
    have hle : itemLen * (j + 1) ≤ itemLen * j' := Nat.mul_le_mul_left itemLen h
    rw [Nat.mul_add_one] at hle
    omega
  · refine pairwise_lt_range.imp fun {i i'} h x hx y hy => ?_
    obtain ⟨j, hj, rfl⟩ := mem_map.1 hx
    obtain ⟨j', -, rfl⟩ := mem_map.1 hy
    have hin := item_le (mem_range.1 hj)
    have hle : pgsize * (i + 1) ≤ pgsize * i' := Nat.mul_le_mul_left pgsize h
    rw [Nat.mul_add_one] at hle
    omega

lemma page_items {a : ℕ} (h : a ∈ items buf pgsize itemLen nrPages (pgsize / itemLen)) :
    ∃ i < nrPages, buf + pgsize * i ≤ a ∧ a + itemLen ≤ buf + pgsize * (i + 1) := by
  obtain ⟨i, hi, h⟩ := mem_flatMap.1 h
  obtain ⟨j, hj, rfl⟩ := mem_map.1 h
  have hin := item_le (mem_range.1 hj)
  exact ⟨i, mem_range.1 hi, by omega, by rw [Nat.mul_add_one]; omega⟩

/-! ## Runs -/

structure Inv (l : List ℕ) (s : Sys) : Prop where
  length : s.pool.freeItems.length = l.length
  capacity : s.pool.capacity = l.length
  le : s.pool.allocated ≤ l.length
  perm : s.pool.freeItems.drop s.pool.allocated ++ s.held ~ l

lemma Inv.alloc (h : Inv l s) : (mempoolAlloc s.pool = .ok (none, s.pool) ∧ s.held ~ l) ∨
    ∃ item, mempoolAlloc s.pool = .ok (some item, { s.pool with allocated := s.pool.allocated + 1 }) ∧
      s.pool.allocated < l.length ∧ s.pool.freeItems.drop (s.pool.allocated + 1) ++ item :: s.held ~ l := by
  have hlen := h.length
  unfold mempoolAlloc
  split
  · rename_i hge
    refine .inl ⟨rfl, ?_⟩
    have hperm := h.perm
    rwa [drop_eq_nil_of_le (by rw [h.length, ← h.capacity]; exact hge)] at hperm
  · rename_i hlt
    rw [h.capacity] at hlt
    have ha : s.pool.allocated < s.pool.freeItems.length := by omega
    rw [getElem?_eq_getElem ha]
    refine .inr ⟨_, rfl, by omega, perm_middle.trans ?_⟩
    have hperm := h.perm
    rwa [drop_eq_getElem_cons ha] at hperm

lemma Inv.step (h : Inv l s) {e : Event} (hs : step s e = .ok s') : Inv l s' := by
  cases e with
  | mempoolAlloc =>
    rcases h.alloc with ⟨ha, -⟩ | ⟨item, ha, hlt, hperm⟩
    · rw [Pools.step, ha] at hs
      cases hs
      exact h
    · rw [Pools.step, ha] at hs
      cases hs
      exact ⟨h.length, h.capacity, hlt, hperm⟩
  | mempoolFree item =>
    simp only [Pools.step] at hs
    split at hs
    · rename_i hheld
      obtain ⟨pool, hfree, hs⟩ := bind_eq_ok.1 hs
      cases hs
      unfold mempoolFree at hfree
      split at hfree
      · rename_i ha
        cases hfree
        have hlen := h.length
        have hle := h.le
        refine ⟨(length_set ..).trans h.length, h.capacity, by dsimp only; omega, ?_⟩
        dsimp only
        rw [drop_eq_getElem_cons (by rw [length_set]; omega), getElem_set_self, drop_set_of_lt (by omega),
          Nat.sub_add_cancel ha.1]
        exact (perm_middle.symm.trans ((perm_cons_erase hheld).symm.append_left _)).trans h.perm
      · cases hfree
    · cases hs

lemma length_items : (items buf pgsize itemLen nrPages itemsPerPage).length = nrPages * itemsPerPage := by
  simp [items]

/-- The pool has the capacity that is asked for and disjoint items, each in one page; none is handed out twice, and one
is handed out unless all are held. This is so just if the capacity was zero and the counters of the loops are large
enough. -/
theorem mempool_disjoint (m : Mempool) (buf len pgsize itemLen : ℕ) (hvalid : ¬Invalid len pgsize itemLen) :
    (∃ m', mempoolCreate m buf len pgsize itemLen true = .ok (.success, m') ∧
      m'.capacity = len / pgsize * (pgsize / itemLen) ∧ m'.freeItems.Pairwise (· + itemLen ≤ ·) ∧
      (∀ a ∈ m'.freeItems, ∃ i < len / pgsize, buf + pgsize * i ≤ a ∧ a + itemLen ≤ buf + pgsize * (i + 1)) ∧
      ∀ s, Reaches step (fun _ _ => True) (· = ⟨m', []⟩) s → s.held.Nodup ∧ s.held ⊆ m'.freeItems ∧
        ∃ r m, mempoolAlloc s.pool = .ok (r, m) ∧ (r = none → m'.freeItems ⊆ s.held) ∧
          ∀ x, r = some x → x ∈ m'.freeItems ∧ x ∉ s.held) ↔
    m.capacity = 0 ∧ len / pgsize < 2 ^ 31 ∧ (len / pgsize = 0 ∨ pgsize / itemLen < 2 ^ 31) := by
  set l := items buf pgsize itemLen (len / pgsize) (pgsize / itemLen) with hl
  have hcount : l.length = len / pgsize * (pgsize / itemLen) := length_items
  have hcreate : mempoolCreate m buf len pgsize itemLen true =
      if 2 ^ 31 ≤ len / pgsize ∨ 0 < len / pgsize ∧ 2 ^ 31 ≤ pgsize / itemLen then .error .overflow
      else do return (.success, ← l.foldlM put ⟨replicate (len / pgsize * (pgsize / itemLen)) 0, 0, m.capacity⟩) := by
    rw [mempoolCreate, if_neg hvalid]
    rfl
  constructor
  · rintro ⟨m', hm', hcap, -⟩
    rw [hcreate] at hm'
    split at hm'
    · cases hm'
    · rename_i hint
      obtain ⟨m1, hfill, ⟨⟩⟩ := bind_eq_ok.1 hm'
      have hsum := capacity_foldlM_put hfill
      dsimp only at hsum
      push Not at hint
      exact ⟨by omega, hint.1, (Nat.eq_zero_or_pos _).imp_right hint.2⟩
  · rintro ⟨hcap, hpages, hitems⟩
    have hpair : l.Pairwise (· + itemLen ≤ ·) := pairwise_items
    have hnodup : l.Nodup := hpair.imp fun {a b} h he => by
      have hpos : itemLen ≠ 0 := fun h0 => hvalid (.inl h0)
      omega
    refine ⟨⟨l, 0, l.length⟩, ?_, hcount, hpair, fun a => page_items, fun s hs => ?_⟩
    · have hfill := foldlM_put l [] (replicate (len / pgsize * (pgsize / itemLen)) 0) 0 (by simp [hcount])
      rw [hcreate, if_neg (by omega), hcap]
      exact bind_eq_ok.2 ⟨_, hfill, by rw [nil_append, length_nil, Nat.zero_add]; rfl⟩
    · have hI : Inv l s := by
        refine hs.invariant (I := Inv l) ?_ fun _ _ _ h _ hstep => h.step hstep
        rintro _ rfl
        exact ⟨rfl, rfl, Nat.zero_le _, by simp⟩
      have hheld := (nodup_append.1 (hI.perm.nodup_iff.2 hnodup)).2.1
      refine ⟨hheld, fun x hx => hI.perm.subset (mem_append_right _ hx), ?_⟩
      rcases hI.alloc with ⟨ha, hall⟩ | ⟨item, ha, -, hperm⟩
      · exact ⟨_, _, ha, fun _ => hall.symm.subset, nofun⟩
      · refine ⟨_, _, ha, nofun, fun x hx => ?_⟩
        cases hx
        have hcons := (nodup_append.1 (hperm.nodup_iff.2 hnodup)).2.1
        exact ⟨hperm.subset (mem_append_right _ mem_cons_self), (nodup_cons.1 hcons).1⟩

theorem mempool_disjoint_four : ∃ m, mempoolCreate ⟨[], 3, 0⟩ 0 8192 4096 2048 true = .ok (.success, m) ∧
    m.capacity = 4 := by
  obtain ⟨m, hm, hcap, -⟩ := (mempool_disjoint ⟨[], 3, 0⟩ 0 8192 4096 2048 (by decide +kernel)).2
    ⟨rfl, by decide, .inr (by decide)⟩
  exact ⟨m, hm, hcap⟩

/-- The pool had a capacity of one. -/
theorem capacity_not_reset : ¬Invalid 64 64 64 ∧ mempoolCreate ⟨[], 0, 1⟩ 0 64 64 64 true = .error .outOfBounds := by
  decide

end Aspen.Pools
