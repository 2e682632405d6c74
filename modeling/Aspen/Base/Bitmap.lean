import Mathlib.Tactic.Ring

/-!
# Searching bitmaps (`bitmap.c`)

`bitmap_find_next` looks at one word after the other, at the first of them through a mask. The loops
`bitmap_for_each_set` and `bitmap_for_each_cleared` call it again behind each bit it has found.
-/

namespace Aspen.Bitmap

open List

/-- `bitmap_test`; there is nothing to read behind the words. -/
def test (bits : List (BitVec 64)) (i : ℕ) : Bool := (bits[i / 64]?.getD 0).getLsbD (i % 64)

def ffsl (val : BitVec 64) : ℕ := if val = 0 then 0 else val.ctz.toNat + 1

/-- The loop of `bitmap_find_next`. The word of an index that has wrapped around is outside of every bitmap. -/
def findFrom (bits : List (BitVec 64)) (nbits : ℕ) (invert : Bool) : ℕ → ℕ → BitVec 64 → Option ℕ
  | 0, _, _ => none
  | fuel + 1, idx, mask =>
    if idx ≥ 2 ^ 31 then none
    else if idx < nbits then do
      let val ← bits[idx / 64]?
      let val := (if invert then ~~~val else val) &&& mask
      if val = 0 then findFrom bits nbits invert fuel (idx + 64) (.allOnes 64)
      else return min (idx + ffsl val - 1) nbits
    else some nbits

/-- No search looks at more words than there are. -/
def bitmapFindNext (bits : List (BitVec 64)) (nbits pos : ℕ) (invert : Bool) : Option ℕ :=
  findFrom bits nbits invert (bits.length + 1) (pos / 64 * 64) (~~~(1#64 <<< (pos % 64) - 1))

/-- `bitmap_for_each_set` and `bitmap_for_each_cleared`, from the search at `pos` on. -/
def forEach (bits : List (BitVec 64)) (nbits : ℕ) (invert : Bool) : ℕ → ℕ → Option (List ℕ)
  | 0, _ => none
  | fuel + 1, pos => do
    let pos ← bitmapFindNext bits nbits pos invert
    if pos < nbits then return pos :: (← forEach bits nbits invert fuel (pos + 1)) else return []

/-! ## The first match -/

/-- `r` is the first number from `pos` on with `P`, or `n` if there is none below `n`. -/
structure Next (P : ℕ → Prop) (pos n r : ℕ) : Prop where
  le : r ≤ n
  found : r < n → pos ≤ r ∧ P r
  first : ∀ i, pos ≤ i → i < r → ¬P i

variable {bits : List (BitVec 64)} {nbits pos w : ℕ} {invert : Bool} {mask : BitVec 64}

lemma Next.none {P : ℕ → Prop} {n : ℕ} (h : ∀ i, pos ≤ i → i < n → ¬P i) : Next P pos n n :=
  ⟨le_rfl, fun hn => absurd hn (Nat.lt_irrefl _), h⟩

def From (pos w : ℕ) (mask : BitVec 64) : Prop := ∀ k < 64, mask.getLsbD k = decide (pos ≤ 64 * w + k)

lemma from_first (pos : ℕ) : From pos (pos / 64) (~~~(1#64 <<< (pos % 64) - 1)) := by
  intro k hk
  have hs : pos % 64 < 64 := Nat.mod_lt _ (by decide)
  have hone : (1#64 <<< (pos % 64) - 1).toNat = 2 ^ (pos % 64) - 1 := by
    have hshift : (1#64 <<< (pos % 64)).toNat = 2 ^ (pos % 64) := by
      rw [BitVec.toNat_shiftLeft, show (1#64).toNat = 1 from rfl, Nat.one_shiftLeft]
      exact Nat.mod_eq_of_lt (Nat.pow_lt_pow_right (by decide) hs)
    rw [BitVec.toNat_sub_of_le (BitVec.le_def.2 (hshift ▸ Nat.one_le_two_pow)), hshift]
    rfl
  rw [BitVec.getLsbD_not, ← BitVec.testBit_toNat, hone, Nat.testBit_two_pow_sub_one]
  rw [decide_eq_true hk, Bool.true_and, ← decide_not, decide_eq_decide]
  omega

lemma from_next (hpos : pos ≤ 64 * w + 63) : From pos (w + 1) (.allOnes 64) := by
  intro k hk
  rw [BitVec.getLsbD_allOnes, decide_eq_decide]
  omega

lemma getLsbD_word (invert : Bool) (hw : w < bits.length) (hm : From pos w mask) (k : ℕ) (hk : k < 64) :
    ((if invert then ~~~bits[w] else bits[w]) &&& mask).getLsbD k =
      decide (test bits (64 * w + k) = !invert ∧ pos ≤ 64 * w + k) := by
  have htest : test bits (64 * w + k) = bits[w].getLsbD k := by
    rw [test, show (64 * w + k) / 64 = w by omega, show (64 * w + k) % 64 = k by omega, getElem?_eq_getElem hw]
    rfl
  rw [BitVec.getLsbD_and, hm k hk, htest]
  cases invert <;> simp [hk]

section

variable (invert) (hlen : nbits ≤ 64 * bits.length) (hn : nbits < 2 ^ 31) {fuel : ℕ}

def Stops (bits : List (BitVec 64)) (nbits : ℕ) (invert : Bool) (pos : ℕ) : Prop :=
  nbits + 64 ≤ 2 ^ 31 ∨ ∃ i, pos ≤ i ∧ i < 2 ^ 31 ∧ test bits i = !invert

include hlen

lemma findFrom_spec (hstops : Stops bits nbits invert pos) (hfuel : bits.length ≤ w + fuel) (hw : 64 * w < 2 ^ 31)
    (hpos : pos ≤ 64 * w + 63) (hm : From pos w mask) (hno : ∀ i, pos ≤ i → i < 64 * w → ¬test bits i = !invert) :
    ∃ r, findFrom bits nbits invert (fuel + 1) (64 * w) mask = some r ∧
      Next (fun i => test bits i = !invert) pos nbits r := by
  induction fuel generalizing w mask with
  | zero =>
    have hend : ¬64 * w < nbits := by omega
    rw [findFrom, if_neg (Nat.not_le.2 hw), if_neg hend]
    exact ⟨nbits, rfl, .none fun i hi hlt => hno i hi (by omega)⟩
  | succ fuel ih =>
    rw [findFrom, if_neg (Nat.not_le.2 hw)]
    split
    · rename_i hlt
      have hwl : w < bits.length := by omega
      have hbit := getLsbD_word invert hwl hm
      rw [Nat.mul_div_cancel_left _ (by decide), getElem?_eq_getElem hwl]
      simp only [Option.bind_eq_bind, Option.bind_some]
      set val := (if invert then ~~~bits[w] else bits[w]) &&& mask
      -- below a bit of `val` that is the first there is no match
      have hnone : ∀ m ≤ 64, (∀ k < m, val.getLsbD k = false) →
          ∀ i, pos ≤ i → i < 64 * w + m → ¬test bits i = !invert := by
        intro m hm64 hclear i hi him ht
        by_cases hiw : i < 64 * w
        · exact hno i hi hiw ht
        · have hk := hbit (i - 64 * w) (by omega)
          rw [hclear _ (by omega), Nat.add_sub_cancel' (by omega)] at hk
          simp [ht, hi] at hk
      split
      · rename_i hzero
        have hno := hnone 64 le_rfl fun k _ => hzero ▸ BitVec.getLsbD_zero
        have hw1 : 64 * (w + 1) < 2 ^ 31 := by
          rcases hstops with hroom | ⟨i, hi, hlt, ht⟩
          · omega
          · by_contra hge
            exact hno i hi (by omega) ht
        exact ih (w := w + 1) (by omega) hw1 (by omega) (from_next hpos) hno
      · rename_i hne
        have hset : val.getLsbD val.ctz.toNat = true := BitVec.getLsbD_true_ctz_of_ne_zero hne
        have hk : val.ctz.toNat < 64 := BitVec.lt_of_getLsbD hset
        have hidx : 64 * w + ffsl val - 1 = 64 * w + val.ctz.toNat := by
          rw [ffsl, if_neg hne]
          rfl
        rw [hbit _ hk, decide_eq_true_iff] at hset
        rw [hidx]
        refine ⟨_, rfl, Nat.min_le_right .., fun h => ?_, fun i hi hlt => ?_⟩
        · rw [Nat.min_eq_left (by omega)]
          exact hset.symm
        · exact hnone _ hk.le (fun k => BitVec.getLsbD_false_of_lt_ctz) i hi (by omega)
    · exact ⟨nbits, rfl, .none fun i hi hlt => hno i hi (by omega)⟩

/-- Without a match, a search in one of the largest bitmaps goes on until the index wraps around. -/
lemma findFrom_none (hno : ¬ Stops bits nbits invert pos) (hpos : pos ≤ 64 * w + 63) (hm : From pos w mask) :
    findFrom bits nbits invert fuel (64 * w) mask = none := by
  obtain ⟨hlarge, hnone⟩ := not_or.1 hno
  induction fuel generalizing w mask with
  | zero => rfl
  | succ fuel ih =>
    rw [findFrom]
    split
    · rfl
    · have hwl : w < bits.length := by omega
      have hzero : (if invert then ~~~bits[w] else bits[w]) &&& mask = 0 := by
        refine BitVec.eq_of_getLsbD_eq fun k hk => ?_
        refine (getLsbD_word invert hwl hm k hk).trans ((decide_eq_false ?_).trans BitVec.getLsbD_zero.symm)
        exact fun ⟨ht, hi⟩ => hnone ⟨_, hi, by omega, ht⟩
      rw [if_pos (by omega), Nat.mul_div_cancel_left _ (by decide), getElem?_eq_getElem hwl]
      simp only [Option.bind_eq_bind, Option.bind_some, if_pos hzero]
      exact ih (w := w + 1) (by omega) (from_next hpos)

lemma findNext_spec (hstops : Stops bits nbits invert pos) (hpos : pos < 2 ^ 31) :
    ∃ r, bitmapFindNext bits nbits pos invert = some r ∧ Next (fun i => test bits i = !invert) pos nbits r := by
  rw [bitmapFindNext, Nat.mul_comm]
  exact findFrom_spec invert hlen hstops (by omega) (by omega) (by omega) (from_first pos) fun i hi hlt => by omega

lemma findNext_none (hno : ¬ Stops bits nbits invert pos) : bitmapFindNext bits nbits pos invert = none := by
  rw [bitmapFindNext, Nat.mul_comm]
  exact findFrom_none invert hlen hno (by omega) (from_first pos)

include hn

/-- The last search of a loop is one without a match below `nbits`. -/
lemma forEach_spec (hstops : Stops bits nbits invert nbits) (hpos : pos ≤ nbits) (hfuel : nbits < pos + fuel) :
    ∃ l, forEach bits nbits invert fuel pos = some l ∧ l.Pairwise (· < ·) ∧
      ∀ i, i ∈ l ↔ pos ≤ i ∧ i < nbits ∧ test bits i = !invert := by
  induction fuel generalizing pos with
  | zero => omega
  | succ fuel ih =>
    have hstops' : Stops bits nbits invert pos := hstops.imp_right fun ⟨i, hi, h⟩ => ⟨i, hpos.trans hi, h⟩
    obtain ⟨r, hr, hnext⟩ := findNext_spec invert hlen hstops' (by omega : pos < 2 ^ 31)
    rw [forEach, hr]
    simp only [Option.bind_eq_bind, Option.bind_some]
    split
    · rename_i hlt
      obtain ⟨hle, hP⟩ := hnext.found hlt
      obtain ⟨l, hl, hsorted, hmem⟩ := ih (Nat.succ_le_of_lt hlt) (by omega)
      refine ⟨r :: l, by rw [hl]; rfl, pairwise_cons.2 ⟨fun i hi => ((hmem i).1 hi).1, hsorted⟩, fun i => ?_⟩
      rw [mem_cons, hmem]
      constructor
      · rintro (rfl | ⟨hi, hin, ht⟩)
        · exact ⟨hle, hlt, hP⟩
        · exact ⟨by omega, hin, ht⟩
      · rintro ⟨hi, hin, ht⟩
        rcases Nat.lt_trichotomy i r with hir | rfl | hir
        · exact absurd ht (hnext.first i hi hir)
        · exact .inl rfl
        · exact .inr ⟨hir, hin, ht⟩
    · rename_i hge
      refine ⟨[], rfl, .nil, fun i => ⟨nofun, fun ⟨hi, hin, ht⟩ => ?_⟩⟩
      exact absurd ht (hnext.first i hi (by omega))

lemma forEach_none (hno : ¬ Stops bits nbits invert nbits) (hpos : pos ≤ nbits) :
    forEach bits nbits invert fuel pos = none := by
  induction fuel generalizing pos with
  | zero => rfl
  | succ fuel ih =>
    rw [forEach]
    by_cases hstops : Stops bits nbits invert pos
    · obtain ⟨r, hr, hnext⟩ := findNext_spec invert hlen hstops (by omega : pos < 2 ^ 31)
      obtain ⟨i, hi, hlt, ht⟩ := hstops.resolve_left fun hroom => hno (.inl hroom)
      have hin : i < nbits := not_le.1 fun hge => hno (.inr ⟨i, hge, hlt, ht⟩)
      have hri : r ≤ i := not_lt.1 fun hir => hnext.first i hi hir ht
      rw [hr, Option.bind_eq_bind, Option.bind_some, if_pos (by omega), ih (by omega)]
      rfl
    · rw [findNext_none invert hlen hstops]
      rfl

end

/-- A search returns the first bit from a position on that is set, or cleared, and a loop visits all of them, in order,
just if the index does not wrap around: because the bitmap is not one of the largest, or because there is a match from
the position on, and for a loop one in what is left of the last word. -/
theorem bitmap_search (bits : List (BitVec 64)) (nbits : ℕ) (invert : Bool) (hlen : nbits ≤ 64 * bits.length)
    (hn : nbits < 2 ^ 31) :
    (∀ pos < 2 ^ 31, ((∃ r, bitmapFindNext bits nbits pos invert = some r ∧
        Next (fun i => test bits i = !invert) pos nbits r) ↔
      nbits + 64 ≤ 2 ^ 31 ∨ ∃ i, pos ≤ i ∧ i < 2 ^ 31 ∧ test bits i = !invert)) ∧
    ((∃ l, forEach bits nbits invert (nbits + 1) 0 = some l ∧ l.Pairwise (· < ·) ∧
        ∀ i, i ∈ l ↔ i < nbits ∧ test bits i = !invert) ↔
      nbits + 64 ≤ 2 ^ 31 ∨ ∃ i, nbits ≤ i ∧ i < 2 ^ 31 ∧ test bits i = !invert) := by
  refine ⟨fun pos hpos => ⟨fun ⟨r, hr, _⟩ => ?_, fun hstops => findNext_spec invert hlen hstops hpos⟩,
    fun ⟨l, hl, _⟩ => ?_, fun hstops => ?_⟩
  · by_contra hno
    rw [findNext_none invert hlen hno] at hr
    cases hr
  · by_contra hno
    rw [forEach_none invert hlen hn hno (Nat.zero_le _)] at hl
    cases hl
  · simpa using forEach_spec invert hlen hn hstops (Nat.zero_le nbits) (by omega : nbits < 0 + (nbits + 1))

theorem bitmap_search_five : ∃ l, forEach [0xffe4#64] 5 false 6 0 = some l ∧ 2 ∈ l := by
  obtain ⟨l, hl, -, hmem⟩ := (bitmap_search [0xffe4#64] 5 false (by decide) (by decide)).2.2 (.inl (by decide))
  exact ⟨l, hl, (hmem 2).2 ⟨by decide, rfl⟩⟩

lemma findFrom_wrapped {fuel idx : ℕ} (h : 2 ^ 31 ≤ idx) : findFrom bits nbits invert fuel idx mask = none := by
  cases fuel with
  | zero => rfl
  | succ fuel => rw [findFrom, if_pos h]

/-- A search for the bits that are set leaves a bitmap of the largest size with none. -/
theorem find_next_leaves : bitmapFindNext (replicate (2 ^ 25) 0) (2 ^ 31 - 1) (2 ^ 31 - 64) false = none := by
  have hword : (replicate (2 ^ 25) (0 : BitVec 64))[(2 ^ 31 - 64) / 64 * 64 / 64]? = some 0 := by
    rw [getElem?_replicate]
    rfl
  rw [bitmapFindNext, length_replicate, findFrom, if_neg (by decide), if_pos (by decide), hword]
  exact findFrom_wrapped (by decide)

end Aspen.Bitmap
