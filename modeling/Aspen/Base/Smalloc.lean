import Aspen.Base.Slab

/-!
# Size classes of `smalloc`

`smalloc` takes items from one of 15 caches, by their size, and `sfree` finds the cache from the item size of
its slab. The smallest sizes go wrong (`smalloc_small_sizes`): class 0 is never used, a size of 0 has no class,
and slabs round the size of items up to 64 bytes.
-/

namespace Aspen.Smalloc

open Slab

def smallocBits : ℕ := 15

def smallocMinSize : ℕ := 16

def classSize (idx : ℕ) : ℕ := smallocMinSize <<< idx

def smallocMaxSize : ℕ := classSize (smallocBits - 1)

def smallocSizeToIdx (size : BitVec 64) : ℕ :=
  64 - (BitVec.ofNat 32 smallocMinSize).ctz.toNat - ((size - 1) ||| BitVec.ofNat 64 smallocMinSize).clz.toNat

def smalloc (size : BitVec 64) : Option ℕ :=
  if size.toNat > smallocMaxSize then none else some (smallocSizeToIdx size)

def smallocSlab (idx : ℕ) : Option Layout := slabCreate (classSize idx) true false

/-- The cache that `sfree` returns an item of the slab to. -/
def sfree (n : Layout) : ℕ := smallocSizeToIdx (BitVec.ofNat 64 n.size)

variable {size : BitVec 64}

lemma classSize_eq (j : ℕ) : classSize j = 2 ^ (j + 4) := by
  rw [classSize, smallocMinSize, Nat.shiftLeft_eq, Nat.pow_add, Nat.mul_comm]

lemma idx_le_iff (h : 16 < size.toNat) (j : ℕ) : smallocSizeToIdx size ≤ j ↔ size.toNat ≤ classSize j := by
  set y := (size - 1) ||| 16#64
  have hy : y.toNat = (size.toNat - 1) ||| 16 := by
    rw [BitVec.toNat_or, BitVec.toNat_sub_of_le (BitVec.le_def.2 (by simp; omega))]
    rfl
  have hle : size.toNat - 1 ≤ y.toNat := hy ▸ Nat.left_le_or
  have hhi : y.toNat < 2 ^ (64 - y.clz.toNat) := BitVec.toNat_lt_two_pow_sub_clz
  have hne : y ≠ 0#64 := by
    intro h0
    rw [h0, BitVec.toNat_zero] at hle
    omega
  have hlo : 2 ^ (63 - y.clz.toNat) ≤ y.toNat := BitVec.two_pow_sub_clz_le_toNat_of_ne_zero (by decide : 0 < 64) hne
  have hctz : (BitVec.ofNat 32 smallocMinSize).ctz.toNat = 4 := by decide +kernel
  have hidx : smallocSizeToIdx size = 64 - 4 - y.clz.toNat := hctz ▸ rfl
  rw [hidx, classSize_eq]
  constructor
  · intro hj
    have hpow : 2 ^ (64 - y.clz.toNat) ≤ 2 ^ (j + 4) := Nat.pow_le_pow_right (by decide) (by omega)
    omega
  · intro hj
    have hlt : y.toNat < 2 ^ (j + 4) := hy ▸ Nat.or_lt_two_pow (by omega) (h.trans_le hj)
    have hexp := (Nat.pow_lt_pow_iff_right (by decide : 1 < 2)).1 (hlo.trans_lt hlt)
    omega

lemma sfree_smallocSlab : ∀ idx < smallocBits, 2 ≤ idx → (smallocSlab idx).map sfree = some idx := by
  decide +kernel

/-- Sizes up to 32 have class 1, or none at all if they are zero. -/
lemma idx_small : ∀ n ≤ 32, smallocSizeToIdx (BitVec.ofNat 64 n) = 1 ∨ smallocSizeToIdx (BitVec.ofNat 64 n) = 60 := by
  decide +kernel

lemma sfree_smallocSlab_one : (smallocSlab 1).map sfree = some 2 := by
  decide +kernel

/-- A size has the least class that is large enough, and items go back there, just if it is above 32. -/
theorem smalloc_classes (size : BitVec 64) (hhi : size.toNat ≤ smallocMaxSize) :
    (∃ idx, smalloc size = some idx ∧ idx < smallocBits ∧ size.toNat ≤ classSize idx ∧
      (∀ j, size.toNat ≤ classSize j → idx ≤ j) ∧ ∃ L, smallocSlab idx = some L ∧ sfree L = idx) ↔
    32 < size.toNat := by
  constructor
  · rintro ⟨idx, hidx, hbits, -, -, L, hL, hfree⟩
    obtain rfl : smallocSizeToIdx size = idx := Option.some.inj ((if_neg hhi.not_gt).symm.trans hidx)
    by_contra hlo
    have hsmall := idx_small size.toNat (by omega)
    rw [BitVec.ofNat_toNat, BitVec.setWidth_eq] at hsmall
    rcases hsmall with hone | hsixty
    · have hslab := sfree_smallocSlab_one
      rw [← hone, hL, Option.map_some, hfree, hone] at hslab
      cases hslab
    · exact absurd hbits (hsixty ▸ by decide)
  · intro hlo
    have hle := idx_le_iff (by omega : 16 < size.toNat)
    have hbits : smallocSizeToIdx size < smallocBits := Nat.lt_succ_of_le ((hle (smallocBits - 1)).2 hhi)
    have htwo : 2 ≤ smallocSizeToIdx size := by
      by_contra hlt
      have hsmall := (hle 1).1 (by omega)
      rw [classSize_eq] at hsmall
      omega
    have hslab := Option.map_eq_some_iff.1 (sfree_smallocSlab _ hbits htwo)
    exact ⟨_, if_neg hhi.not_gt, hbits, (hle _).1 le_rfl, fun j => (hle j).2, hslab⟩

theorem smalloc_classes_hundred : ∃ idx, smalloc 100#64 = some idx ∧ ∃ L, smallocSlab idx = some L ∧ sfree L = idx := by
  obtain ⟨idx, hidx, -, -, -, hslab⟩ := (smalloc_classes 100#64 (by decide)).2 (by decide)
  exact ⟨idx, hidx, hslab⟩

/-- 16 bytes fit into class 0 and go to class 1, items of class 1 go back to class 2, and a size of 0 has no class. -/
theorem smalloc_small_sizes : smalloc 16#64 = some 1 ∧ 16 ≤ classSize 0 ∧
    smalloc 32#64 = some 1 ∧ (smallocSlab 1).map sfree = some 2 ∧ smalloc 0#64 = some 60 := by
  decide +kernel

end Aspen.Smalloc
