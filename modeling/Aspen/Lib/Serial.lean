import Mathlib.Data.BitVec
import Mathlib.Tactic.Ring

/-!
# Serial numbers: signed distances between wrapping counters

A counter of width `w` that is allowed to wrap has no order, but any two of its values have a *signed distance*
`sdist a b`, the two's complement reading of `a - b`. As long as all the values in play stay within half the
number space of one reference point `c`, the map `a => sdist a c` is an order embedding into `ℤ`.
-/

namespace Aspen.Serial

open BitVec

variable {w : ℕ}

/-- The signed distance from `b` to `a`. -/
def sdist (a b : BitVec w) : ℤ := (a - b).toInt

@[simp] lemma sdist_self (a : BitVec w) : sdist a a = 0 := by simp [sdist]

lemma sdist_eq_bmod (a b c : BitVec w) : sdist a b = (sdist a c - sdist b c).bmod (2 ^ w) := by
  have hsplit : a - b = (a - c) - (b - c) := by ring
  rw [sdist, hsplit, toInt_sub, sdist, sdist]

variable {a b c base : BitVec w}

lemma sdist_eq_sub (hlo : -(2 ^ w : ℤ) ≤ 2 * (sdist a c - sdist b c))
    (hhi : 2 * (sdist a c - sdist b c) < 2 ^ w) : sdist a b = sdist a c - sdist b c := by
  rw [sdist_eq_bmod a b c]
  exact Int.bmod_eq_of_le_mul_two (by push_cast; omega) (by push_cast; omega)

lemma neg_le_two_mul_sdist (a b : BitVec w) : -(2 ^ w : ℤ) ≤ 2 * sdist a b := by
  have h := le_two_mul_toInt (x := a - b)
  simpa [sdist] using h

lemma two_mul_sdist_lt (a b : BitVec w) : 2 * sdist a b < 2 ^ w := by
  have h := two_mul_toInt_lt (x := a - b)
  simpa [sdist] using h

lemma eq_of_sdist_eq (h : sdist a c = sdist b c) : a = b := by
  have hsub : a - c = b - c := toInt_inj.1 h
  calc a = (a - c) + c := by ring
    _ = (b - c) + c := by rw [hsub]
    _ = b := by ring

lemma sdist_eq_zero_iff : sdist a b = 0 ↔ a = b := by
  constructor
  · intro h
    exact eq_of_sdist_eq (c := b) (by rw [h, sdist_self])
  · rintro rfl
    exact sdist_self a

lemma sdist_add {n : BitVec w}
    (h : 2 * (sdist a b + n.toNat) < 2 ^ w) (hlo : -(2 ^ w : ℤ) ≤ 2 * (sdist a b + n.toNat)) :
    sdist (a + n) b = sdist a b + n.toNat := by
  have hsplit : a + n - b = (a - b) + n := by ring
  rw [sdist, hsplit, toInt_add]
  have hmod : ((a - b).toInt + n.toInt).bmod (2 ^ w) = ((a - b).toInt + n.toNat).bmod (2 ^ w) := by
    rw [toInt_eq_toNat_bmod n, Int.add_bmod_bmod]
  rw [hmod]
  exact Int.bmod_eq_of_le_mul_two (by push_cast [sdist] at *; omega) (by push_cast [sdist] at *; omega)

lemma toNat_sub_of_nonneg (h : 0 ≤ sdist a b) : ((a - b).toNat : ℤ) = sdist a b := by
  have hlt : 2 * (a - b).toNat < 2 ^ w := by
    by_contra hge
    rw [not_lt] at hge
    have hneg : sdist a b = (a - b).toNat - (2 ^ w : ℕ) := by
      rw [sdist, toInt_eq_toNat_cond, if_neg (by omega)]
    omega
  rw [sdist, toInt_eq_toNat_of_lt hlt]

lemma sdist_add_left {n : BitVec w} (h : 2 * n.toNat < 2 ^ w) : sdist (b + n) b = n.toNat := by
  have hsub : b + n - b = n := by ring
  rw [sdist, hsub, toInt_eq_toNat_of_lt h]

/-- Two positions of one stream, numbered from the same base, are as far apart as their numbers if they are closer
than half the number space. -/
lemma sdist_ofNat {m n : ℕ} (hlo : -(2 ^ w : ℤ) ≤ 2 * ((m : ℤ) - n)) (hhi : 2 * ((m : ℤ) - n) < 2 ^ w) :
    sdist (base + BitVec.ofNat w m) (base + BitVec.ofNat w n) = m - n := by
  have hsub : base + BitVec.ofNat w m - (base + BitVec.ofNat w n) = BitVec.ofNat w m - BitVec.ofNat w n := by ring
  rw [sdist, hsub, toInt_sub, toInt_ofNat', toInt_ofNat', Int.bmod_sub_bmod, Int.sub_bmod_bmod]
  exact Int.bmod_eq_of_le_mul_two (by push_cast; omega) (by push_cast; omega)

lemma add_ofNat_sub (a b : BitVec w) : a + BitVec.ofNat w (b - a).toNat = b := by
  rw [ofNat_toNat, setWidth_eq]
  ring

lemma toNat_sub_ofNat {m n : ℕ} (hle : n ≤ m) (hlt : m - n < 2 ^ w) :
    (base + BitVec.ofNat w m - (base + BitVec.ofNat w n)).toNat = m - n := by
  have hsplit : m = n + (m - n) := by omega
  have hsub : base + BitVec.ofNat w m - (base + BitVec.ofNat w n) = BitVec.ofNat w (m - n) := by
    rw [hsplit, ofNat_add]
    have hcancel : n + (m - n) - n = m - n := by omega
    rw [hcancel]
    ring
  rw [hsub, toNat_ofNat, Nat.mod_eq_of_lt hlt]

lemma ofNat_offset_inj {m n : ℕ}
    (h : base + BitVec.ofNat w m = base + BitVec.ofNat w n) (hle : n ≤ m) (hlt : m - n < 2 ^ w) : m = n := by
  have hzero := @toNat_sub_ofNat w base m n hle hlt
  rw [h] at hzero
  simp at hzero
  omega

end Aspen.Serial
