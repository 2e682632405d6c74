import Mathlib.Algebra.BigOperators.Group.Finset.Basic

/-!
# Heaps of any arity whose elements know where they are

A heap lies in the first `n` slots of an array. Moving an element also writes its new position into a
field of the element, so that it can be removed from the middle.
-/

namespace Aspen

open Function Multiset

structure Slot (κ ε : Type*) where
  key : κ
  entry : ε
  deriving DecidableEq

/-- The slots of a heap, and the position that each entry has noted down. -/
structure DHeap (κ ε : Type*) where
  slots : ℕ → Slot κ ε
  idx : ε → ℕ

namespace DHeap

variable {κ ε : Type*}

def key (h : DHeap κ ε) (i : ℕ) : κ := (h.slots i).key

def put [DecidableEq ε] (h : DHeap κ ε) (i : ℕ) (x : Slot κ ε) : DHeap κ ε where
  slots := update h.slots i x
  idx := update h.idx x.entry i

def swap [DecidableEq ε] (h : DHeap κ ε) (i p : ℕ) : DHeap κ ε := (h.put i (h.slots p)).put p (h.slots i)

def parent (D i : ℕ) : ℕ := (i - 1) / D

/-- Move the element at `i` up as long as its key is below that of its parent, at most `fuel` times. -/
def siftUp [LinearOrder κ] [DecidableEq ε] (D : ℕ) : ℕ → DHeap κ ε → ℕ → DHeap κ ε
  | 0, h, _ => h
  | fuel + 1, h, i =>
    if i = 0 then h
    else if h.key (parent D i) ≤ h.key i then h
    else siftUp D fuel (h.swap i (parent D i)) (parent D i)

/-- The first child of `i` with the least key, if that key is below the one at `i`. -/
def minChild [LinearOrder κ] (D : ℕ) (h : DHeap κ ε) (i n : ℕ) : Option ℕ :=
  ((List.range D).foldl (fun (c : κ × Option ℕ) d =>
    let j := i * D + 1 + d
    if j < n ∧ h.key j < c.1 then (h.key j, some j) else c) (h.key i, none)).2

/-- Move the element at `i` down as long as some child has a key below its own, at most `fuel` times. -/
def siftDown [LinearOrder κ] [DecidableEq ε] (D : ℕ) : ℕ → DHeap κ ε → ℕ → ℕ → DHeap κ ε
  | 0, h, _, _ => h
  | fuel + 1, h, i, n =>
    match minChild D h i n with
    | none => h
    | some c => siftDown D fuel (h.swap i c) c n

/-! ## Parents and children -/

variable {D : ℕ} {h h' h'' : DHeap κ ε} {i j p c n : ℕ}

lemma parent_lt (hi : 0 < i) : parent D i < i := (Nat.div_le_self _ _).trans_lt (Nat.sub_lt hi one_pos)

lemma parent_eq_iff (hD : 0 < D) (hj : 0 < j) : parent D j = i ↔ ∃ d, d < D ∧ j = i * D + 1 + d := by
  constructor
  · rintro rfl
    refine ⟨(j - 1) % D, Nat.mod_lt _ hD, ?_⟩
    have hdiv := Nat.div_add_mod (j - 1) D
    rw [Nat.mul_comm] at hdiv
    unfold parent
    omega
  · rintro ⟨d, hd, rfl⟩
    have hsub : i * D + 1 + d - 1 = d + i * D := by omega
    rw [parent, hsub, Nat.add_mul_div_right _ _ hD, Nat.div_eq_of_lt hd, Nat.zero_add]

section Children

variable [LinearOrder κ]

lemma foldl_minChild (h : DHeap κ ε) (i n : ℕ) (l : List ℕ) (c : κ × Option ℕ) :
    let r := l.foldl (fun (c : κ × Option ℕ) d =>
      let j := i * D + 1 + d
      if j < n ∧ h.key j < c.1 then (h.key j, some j) else c) c
    r.1 ≤ c.1 ∧ (∀ d ∈ l, i * D + 1 + d < n → r.1 ≤ h.key (i * D + 1 + d)) ∧
      (r = c ∨ ∃ d ∈ l, i * D + 1 + d < n ∧ h.key (i * D + 1 + d) < c.1 ∧
        r = (h.key (i * D + 1 + d), some (i * D + 1 + d))) := by
  induction l generalizing c with
  | nil => exact ⟨le_rfl, by simp, .inl rfl⟩
  | cons d l ih =>
    rw [List.foldl_cons]
    by_cases hd : i * D + 1 + d < n ∧ h.key (i * D + 1 + d) < c.1
    · simp only [if_pos hd]
      obtain ⟨hle, hall, hres⟩ := ih (h.key (i * D + 1 + d), some (i * D + 1 + d))
      refine ⟨hle.trans hd.2.le, ?_, .inr ?_⟩
      · rintro d' (_ | ⟨_, hd'⟩) hn
        · exact hle
        · exact hall d' hd' hn
      · rcases hres with hres | ⟨d', hd', hn, hlt, hres⟩
        · exact ⟨d, by simp, hd.1, hd.2, hres⟩
        · exact ⟨d', by simp [hd'], hn, hlt.trans hd.2, hres⟩
    · simp only [if_neg hd]
      obtain ⟨hle, hall, hres⟩ := ih c
      refine ⟨hle, ?_, ?_⟩
      · rintro d' (_ | ⟨_, hd'⟩) hn
        · exact hle.trans (not_lt.1 fun hlt => hd ⟨hn, hlt⟩)
        · exact hall d' hd' hn
      · rcases hres with hres | ⟨d', hd', hrest⟩
        · exact .inl hres
        · exact .inr ⟨d', by simp [hd'], hrest⟩

lemma minChild_eq_none (hD : 0 < D) (hc : minChild D h i n = none) (hj : 0 < j) (hjn : j < n)
    (hp : parent D j = i) : h.key i ≤ h.key j := by
  obtain ⟨-, hall, hres⟩ := foldl_minChild (D := D) h i n (List.range D) (h.key i, none)
  obtain ⟨d, hd, rfl⟩ := (parent_eq_iff hD hj).1 hp
  rcases hres with hres | ⟨d', -, -, -, hres⟩
  · rw [hres] at hall
    exact hall d (List.mem_range.2 hd) hjn
  · rw [minChild, hres] at hc
    cases hc

lemma minChild_eq_some (hD : 0 < D) (hc : minChild D h i n = some c) :
    0 < c ∧ c < n ∧ parent D c = i ∧ h.key c < h.key i ∧
      ∀ j, 0 < j → j < n → parent D j = i → h.key c ≤ h.key j := by
  obtain ⟨-, hall, hres⟩ := foldl_minChild (D := D) h i n (List.range D) (h.key i, none)
  rcases hres with hres | ⟨d, hd, hn, hlt, hres⟩
  · rw [minChild, hres] at hc
    cases hc
  · rw [minChild, hres] at hc
    cases hc
    rw [hres] at hall
    have hpos : 0 < i * D + 1 + d := by omega
    refine ⟨hpos, hn, (parent_eq_iff hD hpos).2 ⟨d, List.mem_range.1 hd, rfl⟩, hlt, ?_⟩
    intro j hj hjn hp
    obtain ⟨d', hd', rfl⟩ := (parent_eq_iff hD hj).1 hp
    exact hall d' (List.mem_range.2 hd') hjn

end Children

/-! ## What is in the heap and where -/

variable (h n)

def Linked : Prop := ∀ j, j < n → h.idx (h.slots j).entry = j

def contents : Multiset (Slot κ ε) := ∑ j ∈ Finset.range n, {h.slots j}

lemma contents_succ : h.contents (n + 1) = h.contents n + {h.slots n} := Finset.sum_range_succ ..

variable {h n}

lemma contents_congr (hs : ∀ j, j < n → h'.slots j = h.slots j) : h'.contents n = h.contents n :=
  Finset.sum_congr rfl fun j hj => by rw [hs j (Finset.mem_range.1 hj)]

def Holds (h : DHeap κ ε) (n : ℕ) (e : ε) : Prop := ∃ j, j < n ∧ (h.slots j).entry = e

structure Rearranged (n : ℕ) (h h' : DHeap κ ε) : Prop where
  contents : h'.contents n = h.contents n
  linked : h.Linked n → h'.Linked n
  frame : ∀ e, ¬ h.Holds n e → h'.idx e = h.idx e

lemma mem_contents {x : Slot κ ε} : x ∈ h.contents n ↔ ∃ j, j < n ∧ h.slots j = x := by
  simp [contents, mem_sum, eq_comm]

lemma holds_iff {e : ε} : h.Holds n e ↔ ∃ x ∈ h.contents n, x.entry = e := by
  simp only [Holds, mem_contents]
  constructor
  · rintro ⟨j, hj, he⟩
    exact ⟨_, ⟨j, hj, rfl⟩, he⟩
  · rintro ⟨_, ⟨j, hj, rfl⟩, he⟩
    exact ⟨j, hj, he⟩

lemma Linked.entry_ne (hl : h.Linked n) (hi : i < n) (hj : j < n) (hij : i ≠ j) :
    (h.slots i).entry ≠ (h.slots j).entry := by
  intro he
  have := hl i hi
  rw [he, hl j hj] at this
  exact hij this.symm

lemma Linked.nodup (hl : h.Linked n) : ((h.contents n).map Slot.entry).Nodup := by
  have hmap : h.contents n = (Multiset.range n).map h.slots := by
    rw [← sum_map_singleton ((Multiset.range n).map h.slots), map_map]
    rfl
  rw [hmap, map_map]
  refine Multiset.Nodup.map_on (fun i hi j hj hij => ?_) (nodup_range n)
  by_contra hne
  exact hl.entry_ne (mem_range.1 hi) (mem_range.1 hj) hne hij

namespace Rearranged

lemma refl (h : DHeap κ ε) : Rearranged n h h := ⟨rfl, id, fun _ _ => rfl⟩

lemma holds (hr : Rearranged n h h') {e : ε} : h'.Holds n e ↔ h.Holds n e := by
  rw [holds_iff, holds_iff, hr.contents]

lemma trans (h1 : Rearranged n h h') (h2 : Rearranged n h' h'') : Rearranged n h h'' where
  contents := h2.contents.trans h1.contents
  linked hl := h2.linked (h1.linked hl)
  frame e he := (h2.frame e (mt h1.holds.1 he)).trans (h1.frame e he)

end Rearranged

section Put

variable [DecidableEq ε]

variable (h)

@[simp] lemma slots_put_self (i : ℕ) (x : Slot κ ε) : (h.put i x).slots i = x := update_self ..

lemma slots_put_of_ne (x : Slot κ ε) (hj : j ≠ i) : (h.put i x).slots j = h.slots j := update_of_ne hj ..

@[simp] lemma idx_put_self (i : ℕ) (x : Slot κ ε) : (h.put i x).idx x.entry = i := update_self ..

lemma idx_put_of_ne {x : Slot κ ε} {e : ε} (he : e ≠ x.entry) : (h.put i x).idx e = h.idx e := update_of_ne he ..

lemma slots_swap (i p : ℕ) : (h.swap i p).slots = h.slots ∘ Equiv.swap i p := by
  funext j
  simp only [swap, put, comp_apply, update_apply, Equiv.swap_apply_def]
  split
  · rename_i hj
    subst hj
    split
    · rename_i hi
      rw [hi]
    · rfl
  · split <;> rfl

lemma key_swap (i p j : ℕ) : (h.swap i p).key j = h.key (Equiv.swap i p j) := by
  rw [key, slots_swap]
  rfl

variable {h}

lemma Rearranged.swap (hi : i < n) (hp : p < n) (hip : i ≠ p) : Rearranged n h (h.swap i p) where
  contents := by
    unfold DHeap.contents
    rw [slots_swap]
    refine Finset.sum_equiv (Equiv.swap i p) (fun j => ?_) fun j _ => rfl
    grind
  linked hl := by
    have hne := hl.entry_ne hi hp hip
    intro j hj
    simp only [slots_swap, comp_apply, Equiv.swap_apply_def]
    simp only [DHeap.swap, put]
    split
    · rename_i hji
      rw [update_of_ne hne.symm, update_self, hji]
    · split
      · rename_i hjp
        rw [update_self, hjp]
      · rename_i hji hjp
        rw [update_of_ne (hl.entry_ne hj hi hji), update_of_ne (hl.entry_ne hj hp hjp)]
        exact hl j hj
  frame e he := by
    have hne : ∀ j, j < n → e ≠ (h.slots j).entry := fun j hj heq => he ⟨j, hj, heq.symm⟩
    simp only [DHeap.swap, put]
    rw [update_of_ne (hne i hi), update_of_ne (hne p hp)]

lemma contents_put (h : DHeap κ ε) (hi : i < n) (x : Slot κ ε) :
    (h.put i x).contents n + {h.slots i} = h.contents n + {x} := by
  have hmem := Finset.mem_range.2 hi
  unfold contents
  rw [← Finset.add_sum_erase _ _ hmem, ← Finset.add_sum_erase _ _ hmem]
  have hrest : ∑ j ∈ (Finset.range n).erase i, ({(h.put i x).slots j} : Multiset (Slot κ ε)) =
      ∑ j ∈ (Finset.range n).erase i, {h.slots j} :=
    Finset.sum_congr rfl fun j hj => by
      rw [slots_put_of_ne _ _ (Finset.ne_of_mem_erase hj)]
  rw [hrest, slots_put_self, add_right_comm, add_comm ({x} : Multiset (Slot κ ε)), add_right_comm]

end Put

/-! ## The order -/

variable [LinearOrder κ]

def Ordered (D : ℕ) (h : DHeap κ ε) (n : ℕ) : Prop := ∀ j, 0 < j → j < n → h.key (parent D j) ≤ h.key j

structure Around (D : ℕ) (h : DHeap κ ε) (n i : ℕ) : Prop where
  edge : ∀ j, 0 < j → j < n → j ≠ i → parent D j ≠ i → h.key (parent D j) ≤ h.key j
  across : ∀ j, 0 < j → j < n → parent D j = i → 0 < i → h.key (parent D i) ≤ h.key j

def UpFrom (D : ℕ) (h : DHeap κ ε) (n i : ℕ) : Prop :=
  Around D h n i ∧ ∀ j, 0 < j → j < n → parent D j = i → h.key i ≤ h.key j

def DownFrom (D : ℕ) (h : DHeap κ ε) (n i : ℕ) : Prop := Around D h n i ∧ (0 < i → h.key (parent D i) ≤ h.key i)

lemma Ordered.root_le (ho : Ordered D h n) (hj : j < n) : h.key 0 ≤ h.key j := by
  induction j using Nat.strong_induction_on with
  | _ j ih =>
    rcases Nat.eq_zero_or_pos j with rfl | hpos
    · exact le_rfl
    · have hlt := parent_lt (D := D) hpos
      exact (ih _ hlt (hlt.trans hj)).trans (ho j hpos hj)

lemma Ordered.downFrom (ho : Ordered D h n) (hi : i < n) : DownFrom D h n i := by
  refine ⟨⟨fun j hj hjn _ _ => ho j hj hjn, fun j hj hjn hp hpos => ?_⟩, fun hpos => ho i hpos hi⟩
  exact (ho i hpos hi).trans (hp ▸ ho j hj hjn)

lemma Around.ordered (ha : Around D h n i) (hup : 0 < i → h.key (parent D i) ≤ h.key i)
    (hdown : ∀ j, 0 < j → j < n → parent D j = i → h.key i ≤ h.key j) : Ordered D h n := by
  intro j hj hjn
  by_cases hji : j = i
  · subst hji
    exact hup hj
  · by_cases hp : parent D j = i
    · rw [hp]
      exact hdown j hj hjn hp
    · exact ha.edge j hj hjn hji hp

variable [DecidableEq ε]

lemma UpFrom.swap (hu : UpFrom D h n i) (hi : 0 < i) (hin : i < n) (hlt : h.key i < h.key (parent D i)) :
    UpFrom D (h.swap i (parent D i)) n (parent D i) := by
  have hpi := parent_lt (D := D) hi
  -- what is below the parent is not below its old key
  have hsib : ∀ j, 0 < j → j < n → parent D j = parent D i → h.key (parent D i) ≤ (h.swap i (parent D i)).key j := by
    intro j hj hjn hpj
    by_cases hji : j = i
    · rw [hji, key_swap, Equiv.swap_apply_left]
    · have hpj' := parent_lt (D := D) hj
      rw [key_swap, Equiv.swap_apply_of_ne_of_ne hji (hpj ▸ hpj'.ne')]
      exact hpj ▸ hu.1.edge j hj hjn hji (hpj.trans_ne hpi.ne)
  refine ⟨⟨fun j hj hjn hjp hpj => ?_, fun j hj hjn hpj hp => ?_⟩, fun j hj hjn hpj => ?_⟩
  · have hji : j ≠ i := fun hji => hpj (hji ▸ rfl)
    rw [key_swap, key_swap, Equiv.swap_apply_of_ne_of_ne hji hjp]
    by_cases hpi : parent D j = i
    · rw [hpi, Equiv.swap_apply_left]
      exact hu.1.across j hj hjn hpi hi
    · rw [Equiv.swap_apply_of_ne_of_ne hpi hpj]
      exact hu.1.edge j hj hjn hji hpi
  · have hgrand := parent_lt (D := D) hp
    rw [key_swap, Equiv.swap_apply_of_ne_of_ne (hgrand.trans hpi).ne hgrand.ne]
    exact (hu.1.edge _ hp (hpi.trans hin) hpi.ne (hgrand.trans hpi).ne).trans (hsib j hj hjn hpj)
  · rw [key_swap, Equiv.swap_apply_right]
    exact hlt.le.trans (hsib j hj hjn hpj)

lemma DownFrom.swap (hd : DownFrom D h n i) (hc : 0 < c) (hcn : c < n) (hp : parent D c = i)
    (hlt : h.key c < h.key i) (hmin : ∀ j, 0 < j → j < n → parent D j = i → h.key c ≤ h.key j) :
    DownFrom D (h.swap i c) n c := by
  have hic : i < c := hp ▸ parent_lt hc
  refine ⟨⟨fun j hj hjn hjc hpj => ?_, fun j hj hjn hpj _ => ?_⟩, fun _ => ?_⟩
  · rw [key_swap, key_swap]
    by_cases hpi : parent D j = i
    · have hij : i < j := hpi ▸ parent_lt hj
      rw [hpi, Equiv.swap_apply_left, Equiv.swap_apply_of_ne_of_ne hij.ne' hjc]
      exact hmin j hj hjn hpi
    · rw [Equiv.swap_apply_of_ne_of_ne hpi hpj]
      by_cases hji : j = i
      · subst hji
        rw [Equiv.swap_apply_left]
        exact hd.1.across c hc hcn hp hj
      · rw [Equiv.swap_apply_of_ne_of_ne hji hjc]
        exact hd.1.edge j hj hjn hji hpi
  · have hcj : c < j := hpj ▸ parent_lt hj
    rw [key_swap, key_swap, hp, Equiv.swap_apply_left, Equiv.swap_apply_of_ne_of_ne (hic.trans hcj).ne' hcj.ne']
    exact hpj ▸ hd.1.edge j hj hjn (hic.trans hcj).ne' (hpj.trans_ne hic.ne')
  · rw [key_swap, key_swap, hp, Equiv.swap_apply_left, Equiv.swap_apply_right]
    exact hlt.le

lemma Around.put {m : ℕ} (ho : Ordered D h m) (hn : ∀ j, j < n → j ≠ i → j < m) (x : Slot κ ε) :
    Around D (h.put i x) n i where
  edge j hj hjn hji hpj := by
    rw [key, key, slots_put_of_ne _ _ hji, slots_put_of_ne _ _ hpj]
    exact ho j hj (hn j hjn hji)
  across j hj hjn hp hi := by
    have hij : i < j := hp ▸ parent_lt hj
    have hjm := hn j hjn hij.ne'
    rw [key, key, slots_put_of_ne _ _ (parent_lt hi).ne, slots_put_of_ne _ _ hij.ne']
    exact (ho i hi (hij.trans hjm)).trans (hp ▸ ho j hj hjm)

/-! ## The sifts -/

lemma siftUp_rearranged {fuel : ℕ} (hi : i < n) : Rearranged n h (siftUp D fuel h i) := by
  induction fuel generalizing h i with
  | zero => exact .refl h
  | succ fuel ih =>
    rw [siftUp]
    split
    · exact .refl h
    · rename_i hz
      have hpi := parent_lt (D := D) (Nat.pos_of_ne_zero hz)
      split
      · exact .refl h
      · exact (Rearranged.swap hi (hpi.trans hi) hpi.ne').trans (ih (hpi.trans hi))

lemma siftUp_ordered {fuel : ℕ} (hf : i ≤ fuel) (hi : i < n) (hu : UpFrom D h n i) :
    Ordered D (siftUp D fuel h i) n := by
  induction fuel generalizing h i with
  | zero =>
    obtain rfl : i = 0 := Nat.le_zero.1 hf
    exact hu.1.ordered (fun h0 => h0.false.elim) hu.2
  | succ fuel ih =>
    rw [siftUp]
    split
    · rename_i hz
      exact hu.1.ordered (fun hpos => absurd hz hpos.ne') hu.2
    · rename_i hz
      have hpos : 0 < i := Nat.pos_of_ne_zero hz
      have hpi := parent_lt (D := D) hpos
      split
      · rename_i hle
        exact hu.1.ordered (fun _ => hle) hu.2
      · rename_i hle
        exact ih (by omega) (hpi.trans hi) (hu.swap hpos hi (not_le.1 hle))

lemma siftUp_eq {fuel : ℕ} (hle : 0 < i → h.key (parent D i) ≤ h.key i) : siftUp D fuel h i = h := by
  cases fuel with
  | zero => rfl
  | succ fuel =>
    rw [siftUp]
    split
    · rfl
    · rename_i hz
      rw [if_pos (hle (Nat.pos_of_ne_zero hz))]

lemma siftDown_rearranged {fuel : ℕ} (hD : 0 < D) (hi : i < n) : Rearranged n h (siftDown D fuel h i n) := by
  induction fuel generalizing h i with
  | zero => exact .refl h
  | succ fuel ih =>
    rw [siftDown]
    split
    · exact .refl h
    · rename_i c hc
      obtain ⟨hpos, hcn, hp, -⟩ := minChild_eq_some hD hc
      have hic : i < c := hp ▸ parent_lt hpos
      exact (Rearranged.swap hi hcn hic.ne).trans (ih hcn)

lemma siftDown_ordered {fuel : ℕ} (hD : 0 < D) (hf : n ≤ i + fuel) (hi : i < n)
    (hd : DownFrom D h n i) : Ordered D (siftDown D fuel h i n) n := by
  induction fuel generalizing h i with
  | zero => omega
  | succ fuel ih =>
    rw [siftDown]
    split
    · rename_i hc
      exact hd.1.ordered hd.2 fun j hj hjn hp => minChild_eq_none hD hc hj hjn hp
    · rename_i c hc
      obtain ⟨hpos, hcn, hp, hlt, hmin⟩ := minChild_eq_some hD hc
      have hic : i < c := hp ▸ parent_lt hpos
      exact ih (by omega) hcn (hd.swap hpos hcn hp hlt hmin)

/-! ## Adding and removing -/

lemma insert_spec (x : Slot κ ε) (ho : Ordered D h n) : Ordered D (siftUp D n (h.put n x) n) (n + 1) ∧
      (siftUp D n (h.put n x) n).contents (n + 1) = h.contents n + {x} ∧
      (h.Linked n → ¬ h.Holds n x.entry → (siftUp D n (h.put n x) n).Linked (n + 1)) ∧
      ∀ e, e ≠ x.entry → ¬ h.Holds n e → (siftUp D n (h.put n x) n).idx e = h.idx e := by
  have hslot : ∀ j, j < n → (h.put n x).slots j = h.slots j := fun j hj =>
    slots_put_of_ne _ _ hj.ne
  have hcont : (h.put n x).contents (n + 1) = h.contents n + {x} := by
    rw [contents_succ, contents_congr hslot, slots_put_self]
  have hup : UpFrom D (h.put n x) (n + 1) n := by
    refine ⟨.put ho (fun j hj hne => by omega) x, fun j hj hjn hp => ?_⟩
    have hlt := parent_lt (D := D) hj
    omega
  have hr : Rearranged (n + 1) (h.put n x) (siftUp D n (h.put n x) n) := siftUp_rearranged (Nat.lt_succ_self n)
  refine ⟨siftUp_ordered le_rfl (Nat.lt_succ_self n) hup, hr.contents.trans hcont,
    fun hl he => hr.linked fun j hj => ?_, fun e hne he => ?_⟩
  · rcases Nat.lt_succ_iff_lt_or_eq.1 hj with hj | rfl
    · have hne : (h.slots j).entry ≠ x.entry := fun heq => he ⟨j, hj, heq⟩
      rw [hslot j hj, idx_put_of_ne _ hne]
      exact hl j hj
    · simp
  · rw [hr.frame, idx_put_of_ne _ hne]
    rw [holds_iff, hcont]
    rintro ⟨y, hy, rfl⟩
    rcases mem_add.1 hy with hy | hy
    · exact he (holds_iff.2 ⟨y, hy, rfl⟩)
    · exact hne (by rw [mem_singleton.1 hy])

omit [LinearOrder κ] in
lemma not_holds_put {e : ε} (hi : i < n)
    (he : ¬ h.Holds (n + 1) e ∨ h.Linked (n + 1) ∧ e = (h.slots i).entry) :
    e ≠ (h.slots n).entry ∧ ¬ (h.put i (h.slots n)).Holds n e := by
  have hne : e ≠ (h.slots n).entry := by
    rintro rfl
    rcases he with he | ⟨hl, he⟩
    · exact he ⟨n, Nat.lt_succ_self n, rfl⟩
    · exact hl.entry_ne (by omega) (by omega) hi.ne' he
  refine ⟨hne, ?_⟩
  rintro ⟨j, hj, hje⟩
  by_cases hji : j = i
  · subst hji
    rw [slots_put_self] at hje
    exact hne hje.symm
  · rw [slots_put_of_ne _ _ hji] at hje
    rcases he with he | ⟨hl, he⟩
    · exact he ⟨j, by omega, hje⟩
    · exact hl.entry_ne (by omega) (by omega) hji (hje.trans he)

lemma downFrom_siftUp (ho : Ordered D h (n + 1)) (hi : i < n) :
    DownFrom D (siftUp D i (h.put i (h.slots n)) i) n i := by
  have ha : Around D (h.put i (h.slots n)) n i := .put ho (fun j hj _ => hj.trans n.lt_succ_self) _
  by_cases hle : 0 < i → (h.put i (h.slots n)).key (parent D i) ≤ (h.put i (h.slots n)).key i
  · rw [siftUp_eq hle]
    exact ⟨ha, hle⟩
  · rw [Classical.not_imp, not_le] at hle
    refine (siftUp_ordered le_rfl hi ⟨ha, fun j hj hjn hp => ?_⟩).downFrom hi
    exact hle.2.le.trans (ha.across j hj hjn hp hle.1)

/-- The heap `h'` of `n` elements is `h` without the one in slot `i`. -/
structure Removed (D n i : ℕ) (h h' : DHeap κ ε) : Prop where
  ordered : Ordered D h' n
  contents : h'.contents n + {h.slots i} = h.contents (n + 1)
  linked : h'.Linked n
  frame : ∀ e, ¬ h.Holds (n + 1) e → h'.idx e = h.idx e

omit [DecidableEq ε] in
lemma Removed.last (ho : Ordered D h (n + 1)) (hl : h.Linked (n + 1)) : Removed D n n h h where
  ordered j hj hjn := ho j hj (hjn.trans n.lt_succ_self)
  contents := (contents_succ h n).symm
  linked j hj := hl j (hj.trans n.lt_succ_self)
  frame _ _ := rfl

lemma Removed.sifted (hD : 0 < D) (ho : Ordered D h (n + 1)) (hl : h.Linked (n + 1)) (hi : i < n) :
    Removed D n i h (siftDown D n (siftUp D i (h.put i (h.slots n)) i) i n) := by
  have hr : Rearranged n (h.put i (h.slots n)) (siftDown D n (siftUp D i (h.put i (h.slots n)) i) i n) :=
    (siftUp_rearranged hi).trans (siftDown_rearranged hD hi)
  refine ⟨siftDown_ordered hD (Nat.le_add_left n i) hi (downFrom_siftUp ho hi), ?_,
    hr.linked fun j hj => ?_, fun e he => ?_⟩
  · rw [hr.contents, contents_put h hi, contents_succ]
  · by_cases hji : j = i
    · subst hji
      rw [slots_put_self, idx_put_self]
    · rw [slots_put_of_ne _ _ hji, idx_put_of_ne _ (hl.entry_ne (by omega) (by omega) hj.ne)]
      exact hl j (by omega)
  · obtain ⟨hne, hout⟩ := not_holds_put hi (.inl he)
    rw [hr.frame e hout, idx_put_of_ne _ hne]

end DHeap

end Aspen
