import Aspen.Lib.Serial

/-!
# Wrap-around comparisons

`inc/base/stddef.h` compares 32-bit sequence numbers by the sign of their difference. The four
comparisons are stated literally here, and then read as statements about `Serial.sdist`, so that the
rest of the development can argue with integers.
-/

namespace Aspen

open Serial

abbrev Seq := BitVec 32

/-- `(int32_t)(a - b) < 0` -/
def wrapsLt (a b : Seq) : Bool := decide ((a - b).toInt < 0)

/-- `(int32_t)(a - b) <= 0` -/
def wrapsLte (a b : Seq) : Bool := decide ((a - b).toInt ≤ 0)

/-- `(int32_t)(b - a) < 0` -/
def wrapsGt (a b : Seq) : Bool := decide ((b - a).toInt < 0)

/-- `(int32_t)(b - a) <= 0` -/
def wrapsGte (a b : Seq) : Bool := decide ((b - a).toInt ≤ 0)

variable {a b n : Seq}

lemma wrapsLt_iff : wrapsLt a b ↔ sdist a b < 0 := by
  simp [wrapsLt, sdist]

lemma wrapsLte_iff : wrapsLte a b ↔ sdist a b ≤ 0 := by
  simp [wrapsLte, sdist]

lemma wrapsGt_iff : wrapsGt a b ↔ sdist b a < 0 := by
  simp [wrapsGt, sdist]

@[simp] lemma wrapsLte_refl (a : Seq) : wrapsLte a a = true := by simp [wrapsLte]

@[simp] lemma wrapsLt_irrefl (a : Seq) : wrapsLt a a = false := by simp [wrapsLt]

/-! ## Distances at width 32 -/

lemma sdist_lower (a b : Seq) : -2147483648 ≤ sdist a b := by
  have h := neg_le_two_mul_sdist a b
  omega

lemma sdist_upper (a b : Seq) : sdist a b < 2147483648 := by
  have h := two_mul_sdist_lt a b
  omega

lemma sdist_rebase (c : Seq) (hlo : -2147483648 ≤ sdist a c - sdist b c)
    (hhi : sdist a c - sdist b c < 2147483648) : sdist a b = sdist a c - sdist b c :=
  sdist_eq_sub (by omega) (by omega)

lemma sdist_swap (h : sdist a b ≠ -2147483648) : sdist b a = -sdist a b := by
  have hlo := sdist_lower a b
  have hhi := sdist_upper a b
  rw [sdist_rebase b (by rw [sdist_self]; omega) (by rw [sdist_self]; omega), sdist_self]
  omega

lemma wrapsLte_of_not_wrapsLte (h : wrapsLte a b = false) : wrapsLte b a = true := by
  rw [← Bool.not_eq_true, wrapsLte_iff] at h
  rw [wrapsLte_iff, sdist_swap (by omega)]
  omega

lemma wrapsLte_of_not_wrapsGte (h : ¬ wrapsGte a b) : wrapsLte a b = true := by
  have hlt : ¬ sdist b a ≤ 0 := by simpa [wrapsGte, sdist] using h
  rw [wrapsLte_iff, sdist_swap (by omega)]
  omega

lemma wrapsLte_of_not_wrapsGt (h : wrapsGt a b = false) : wrapsLte a b = true := by
  have hge : ¬ sdist b a < 0 := fun h' => by simp [wrapsGt_iff.2 h'] at h
  rw [wrapsLte_iff, sdist_swap (by omega)]
  omega

lemma sdist_forward (h : sdist a b + n.toNat < 2147483648) : sdist (a + n) b = sdist a b + n.toNat := by
  have hlo := sdist_lower a b
  exact sdist_add (by omega) (by omega)

lemma sdist_backward (hn : n.toNat < 2147483648)
    (h : -2147483648 ≤ sdist a b - n.toNat) : sdist (a - n) b = sdist a b - n.toNat := by
  have hn' : sdist a (a - n) = n.toNat := by
    have : a - (a - n) = n := by ring
    rw [sdist, this, BitVec.toInt_eq_toNat_of_lt (by omega)]
  have hback : sdist (a - n) a = -n.toNat := by rw [sdist_swap (by omega), hn']
  have hsplit : sdist b a = -sdist a b ∨ sdist a b = -2147483648 := by
    by_cases h0 : sdist a b = -2147483648
    · exact .inr h0
    · exact .inl (sdist_swap h0)
  have hup := sdist_upper a b
  rcases hsplit with hs | hs
  · rw [sdist_rebase a (by omega) (by omega), hback, hs]
    omega
  · have h0 : n.toNat = 0 := by omega
    have hz : n = 0 := BitVec.eq_of_toNat_eq (by simpa using h0)
    simp [hz]

lemma sdist_forward_self (h : n.toNat < 2147483648) : sdist (b + n) b = n.toNat := sdist_add_left (by omega)

/-- The test that a number lies between two others needs them to be apart: if they are equal, the number half the
number space away passes as well. -/
lemma wrapsLte_window {x : Seq} (hlo : wrapsLte a x) (hhi : wrapsLte x b)
    (hpos : 0 < (b - a).toNat) (hlt : (b - a).toNat < 2147483648) : (x - a).toNat ≤ (b - a).toNat := by
  rw [wrapsLte_iff, sdist, BitVec.toInt_eq_toNat_cond] at hlo hhi
  split at hlo
  · split at hhi
    · bv_omega
    · bv_omega
  · split at hhi
    · bv_omega
    · bv_omega

end Aspen
