import Mathlib.Data.Nat.ModEq

/-!
# The Internet checksum

`chksum_internet` of `inc/asm/chksum.h`, one definition for each group of instructions. All of them keep the
number that the bytes stand for modulo 65535, and whether it is zero: carries leave a register of 16, 32 or 64
bits at its top and enter it at its bottom. None is dropped, because a register that is full has no carry.
-/

namespace Aspen.Chksum

open List

variable (a n : ℕ) (bit : Bool) (r : ℕ × List UInt8) (buf bs : List UInt8)

/-- Bytes in little-endian order. -/
def value : ℕ := bs.foldr (fun b v => b.toNat + 256 * v) 0

/-- `adc` on a register of `w` bits, with the carry flag before and after it. -/
def adc (w a b c : ℕ) : ℕ × ℕ := ((a + b + c) % 2 ^ w, (a + b + c) / 2 ^ w)

/-- `add`, and `adc` of zero. -/
def addc (w a b : ℕ) : ℕ := (adc w (adc w a b 0).1 0 (adc w a b 0).2).1

def loop : ℕ → List UInt8 → ℕ × ℕ → ℕ × ℕ
  | 0, _, r => r
  | n + 1, bs, (sum, c) => loop n (bs.drop 8) (adc 64 sum (value (bs.take 8)) c)

/-- The next `n` bytes, if the bit of the length is set. -/
def tail : ℕ × List UInt8 := if bit then (addc 64 r.1 (value (r.2.take n)), r.2.drop n) else r

def fold (sum : ℕ) : ℕ := let sum := addc 32 (sum / 2 ^ 32) (sum % 2 ^ 32)
  addc 16 (sum / 2 ^ 16) (sum % 2 ^ 16)

def chksumInternet : ℕ := let len := buf.length
  let r := loop (len / 8) buf (0, 0)
  let sum := if len / 8 = 0 then 0 else (adc 64 r.1 0 r.2).1
  let r := tail 1 (len.testBit 0) (tail 2 (len.testBit 1) (tail 4 (len.testBit 2) (sum, buf.drop (8 * (len / 8)))))
  65535 - fold r.1

/-! ## The sum of RFC 1071 -/

def words : List UInt8 → List ℕ
  | b₀ :: b₁ :: bs => (b₀.toNat + 256 * b₁.toNat) :: words bs
  | [b] => [b.toNat]
  | [] => []

def ocAdd (x y : ℕ) : ℕ := if x + y < 65536 then x + y else x + y - 65535

def onesSum : ℕ := (words bs).foldl ocAdd 0

/-- A number modulo 65535; only zero becomes zero. -/
def oc : ℕ := if n = 0 then 0 else (n - 1) % 65535 + 1

lemma oc_congr {a b : ℕ} (h : a % 65535 = b % 65535) (h0 : a = 0 ↔ b = 0) : oc a = oc b := by
  unfold oc
  split_ifs <;> omega

lemma oc_add {a b : ℕ} (h : oc a = oc b) (x : ℕ) : oc (a + x) = oc (b + x) := by
  unfold oc at *
  split_ifs at * <;> omega

lemma oc_oc : oc (oc a) = oc a := by
  unfold oc
  split_ifs <;> omega

lemma oc_le : oc a ≤ 65535 := by
  unfold oc
  split_ifs <;> omega

lemma oc_of_le {a : ℕ} (h : a ≤ 65535) : oc a = a := by
  unfold oc
  split_ifs <;> omega

/-- What lies beyond a power of 65536 may be added below. -/
lemma oc_shift (k a b : ℕ) : oc (a + 65536 ^ k * b) = oc (a + b) := by
  refine oc_congr ?_ ?_
  · have h : 65536 ^ k * b ≡ 1 ^ k * b [MOD 65535] := ((show 65536 ≡ 1 [MOD 65535] from rfl).pow k).mul_right b
    rw [one_pow, one_mul] at h
    exact h.add_left a
  · simp

lemma oc_carry (k t : ℕ) : oc (t % 65536 ^ k + t / 65536 ^ k) = oc t := by
  rw [← oc_shift k, Nat.mod_add_div]

lemma foldl_ocAdd (l : List ℕ) (s : ℕ) (hs : s ≤ 65535) (hl : ∀ x ∈ l, x ≤ 65535) :
    l.foldl ocAdd s = oc (s + l.sum) := by
  induction l generalizing s with
  | nil => exact (oc_of_le hs).symm
  | cons x l ih =>
    have hx := hl x mem_cons_self
    have hadd : ocAdd s x = oc (s + x) := by
      unfold ocAdd oc
      split_ifs <;> omega
    rw [foldl_cons, hadd, ih _ (oc_le _) fun y hy => hl y (.tail _ hy), oc_add (oc_oc _), sum_cons, Nat.add_assoc]

lemma onesSum_eq : onesSum bs = oc (value bs) := by
  have hw : (∀ x ∈ words bs, x ≤ 65535) ∧ oc (words bs).sum = oc (value bs) := by
    induction bs using words.induct with
    | case1 b0 b1 bs ih =>
      have h0 := b0.toNat_lt
      have h1 := b1.toNat_lt
      refine ⟨fun x hx => (mem_cons.1 hx).elim (fun h => by omega) (ih.1 x), ?_⟩
      have hv : value (b0 :: b1 :: bs) = b0.toNat + 256 * b1.toNat + 65536 ^ 1 * value bs := by
        simp only [value, List.foldr]
        omega
      rw [words, sum_cons, hv, oc_shift, Nat.add_comm, Nat.add_comm _ (value bs), oc_add ih.2]
    | case2 b =>
      have h := b.toNat_lt
      exact ⟨fun x hx => by rw [mem_singleton.1 hx]; omega, rfl⟩
    | case3 => exact ⟨nofun, rfl⟩
  rw [onesSum, foldl_ocAdd _ 0 (by decide) hw.1, Nat.zero_add, hw.2]

/-! ## The instructions -/

lemma value_append (a b : List UInt8) : value (a ++ b) = value a + 256 ^ a.length * value b := by
  induction a with
  | nil => simp [value]
  | cons x a ih =>
    have hx : ∀ l, value (x :: l) = x.toNat + 256 * value l := fun _ => rfl
    rw [cons_append, hx, hx, ih, length_cons, pow_succ', Nat.mul_assoc, Nat.mul_add, Nat.add_assoc]

lemma value_lt : value bs < 256 ^ bs.length := by
  induction bs with
  | nil => exact Nat.one_pos
  | cons x bs ih =>
    have hx := x.toNat_lt
    change x.toNat + 256 * value bs < _
    rw [length_cons, pow_succ]
    omega

lemma oc_take {n : ℕ} {bs : List UInt8} (h : 2 ∣ n ∨ bs.length ≤ n) (s : ℕ) :
    oc (s + value (bs.take n) + value (bs.drop n)) = oc (s + value bs) := by
  rcases Nat.lt_or_ge n bs.length with hn | hn
  · obtain ⟨k, rfl⟩ := h.resolve_right (Nat.not_le.2 hn)
    nth_rewrite 3 [← take_append_drop (2 * k) bs]
    rw [value_append, length_take, Nat.min_eq_left hn.le, pow_mul, ← Nat.add_assoc]
    exact (oc_shift k _ _).symm
  · rw [take_of_length_le hn, drop_eq_nil_of_le hn]
    rfl

lemma carry_lt {M t : ℕ} (h : t + 2 ≤ 2 * M) : t % M + t / M < M := by
  rcases Nat.lt_or_ge t M with ht | ht
  · rwa [Nat.mod_eq_of_lt ht, Nat.div_eq_of_lt ht]
  · rw [Nat.mod_eq_sub_mod ht, Nat.mod_eq_of_lt (by omega), Nat.div_eq_of_lt_le (k := 1) (by omega) (by omega)]
    omega

lemma addc_spec {w k a b : ℕ} (hw : 2 ^ w = 65536 ^ k) (ha : a < 2 ^ w) (hb : b < 2 ^ w) :
    addc w a b < 2 ^ w ∧ oc (addc w a b) = oc (a + b) := by
  have hlt : (a + b) % 2 ^ w + (a + b) / 2 ^ w < 2 ^ w := carry_lt (by omega)
  have heq : addc w a b = (a + b) % 2 ^ w + (a + b) / 2 ^ w := Nat.mod_eq_of_lt hlt
  rw [heq, hw] at *
  exact ⟨hlt, oc_carry k _⟩

lemma value_take_lt {n : ℕ} (hn : n ≤ 8) (bs : List UInt8) : value (bs.take n) < 2 ^ 64 :=
  (value_lt _).trans_le ((Nat.pow_le_pow_right (by decide) ((length_take_le n bs).trans hn)).trans (by decide))

lemma loop_spec (r : ℕ × ℕ) (h : r.1 + r.2 < 2 ^ 64) : (loop n bs r).1 + (loop n bs r).2 < 2 ^ 64 ∧
      oc ((loop n bs r).1 + (loop n bs r).2 + value (bs.drop (8 * n))) = oc (r.1 + r.2 + value bs) := by
  induction n generalizing bs r with
  | zero => exact ⟨h, rfl⟩
  | succ n ih =>
    have hx := value_take_lt (Nat.le_refl 8) bs
    obtain ⟨hlt, heq⟩ := ih (bs.drop 8) (adc 64 r.1 (value (bs.take 8)) r.2) (carry_lt (by omega))
    refine ⟨hlt, ?_⟩
    rw [drop_drop, Nat.add_comm 8, ← Nat.mul_succ] at heq
    refine heq.trans ((oc_add (oc_carry 4 _) _).trans ?_)
    rw [Nat.add_right_comm r.1]
    exact oc_take (.inl (by decide)) _

lemma tail_spec (hn : n ≤ 8) (h : 2 ∣ n ∨ r.2.length ≤ n) (hr : r.1 < 2 ^ 64) : (tail n bit r).1 < 2 ^ 64 ∧
      oc ((tail n bit r).1 + value (tail n bit r).2) = oc (r.1 + value r.2) ∧
      (tail n bit r).2.length = r.2.length - if bit then n else 0 := by
  cases bit with
  | false => exact ⟨hr, rfl, rfl⟩
  | true =>
    obtain ⟨hlt, heq⟩ := addc_spec (k := 4) (by decide) hr (value_take_lt hn r.2)
    exact ⟨hlt, (oc_add heq _).trans (oc_take h _), length_drop⟩

lemma fold_eq {s : ℕ} (hs : s < 2 ^ 64) : fold s = oc s := by
  have hhi : s / 2 ^ 32 < 2 ^ 32 := by omega
  obtain ⟨hlt, heq⟩ := addc_spec (k := 2) (by decide) hhi (Nat.mod_lt s (by decide))
  have hhi' : addc 32 (s / 2 ^ 32) (s % 2 ^ 32) / 2 ^ 16 < 2 ^ 16 := by omega
  obtain ⟨hlt', heq'⟩ := addc_spec (k := 1) (by decide) hhi'
    (Nat.mod_lt (addc 32 (s / 2 ^ 32) (s % 2 ^ 32)) (by decide))
  have hfold : oc (fold s) = oc s := by
    refine heq'.trans ?_
    rw [Nat.add_comm]
    refine (oc_carry 1 _).trans (heq.trans ?_)
    rw [Nat.add_comm]
    exact oc_carry 2 s
  rw [← hfold, oc_of_le]
  exact Nat.le_of_lt_succ hlt'

lemma length_tails : n % 8 - (if n.testBit 2 then 4 else 0) - (if n.testBit 1 then 2 else 0) ≤ 1 ∧
    n % 8 - (if n.testBit 2 then 4 else 0) - (if n.testBit 1 then 2 else 0) - (if n.testBit 0 then 1 else 0) = 0 := by
  simp only [Nat.testBit_eq_decide_div_mod_eq, decide_eq_true_eq]
  split_ifs <;> omega

lemma chksumInternet_eq : chksumInternet buf = 65535 - oc (value buf) := by
  obtain ⟨hlt, heq⟩ := loop_spec (buf.length / 8) buf (0, 0) (by decide)
  have hlen : (buf.drop (8 * (buf.length / 8))).length = buf.length % 8 := by
    rw [length_drop]
    omega
  simp only [chksumInternet]
  generalize hr : loop (buf.length / 8) buf (0, 0) = r at *
  have hsum : (if buf.length / 8 = 0 then 0 else (adc 64 r.1 0 r.2).1) = r.1 + r.2 := by
    split
    · rename_i h
      rw [← hr, h]
      rfl
    · exact Nat.mod_eq_of_lt hlt
  rw [hsum]
  obtain ⟨h4, e4, l4⟩ := tail_spec 4 (buf.length.testBit 2) (r.1 + r.2, buf.drop (8 * (buf.length / 8))) (by decide)
    (.inl (by decide)) hlt
  obtain ⟨h2, e2, l2⟩ := tail_spec 2 (buf.length.testBit 1) _ (by decide) (.inl (by decide)) h4
  obtain ⟨hle, hnil⟩ := length_tails buf.length
  rw [l4, hlen] at l2
  obtain ⟨h1, e1, l1⟩ := tail_spec 1 (buf.length.testBit 0) _ (by decide) (.inr (l2.trans_le hle)) h2
  rw [l2, hnil, length_eq_zero_iff] at l1
  rw [l1, e2, e4, heq] at e1
  rw [fold_eq h1]
  exact congrArg (65535 - ·) (e1.trans (congrArg oc (Nat.zero_add _)))

lemma oc_field {front : List UInt8} (h : 2 ∣ front.length) (x y : UInt8) (back : List UInt8) :
    oc (value (front ++ x :: y :: back)) = oc (value front + value back + (x.toNat + 256 * y.toNat)) := by
  obtain ⟨k, hk⟩ := h
  have hv : value (x :: y :: back) = x.toNat + 256 * y.toNat + 65536 ^ 1 * value back := by
    simp only [value, List.foldr]
    omega
  rw [value_append, hk, pow_mul, hv]
  refine (oc_shift k _ _).trans ?_
  rw [← Nat.add_assoc, oc_shift, Nat.add_right_comm]

/-- The checksum is the complement of the sum of RFC 1071, and a buffer whose checksum was filled in at an even
offset has the checksum 0. -/
theorem chksum_rfc1071 {front back : List UInt8} (hfront : 2 ∣ front.length) :
    (∀ buf, chksumInternet buf = 65535 - onesSum buf) ∧
      ∀ c, c = chksumInternet (front ++ 0 :: 0 :: back) →
        chksumInternet (front ++ UInt8.ofNat c :: UInt8.ofNat (c / 256) :: back) = 0 := by
  refine ⟨fun buf => (chksumInternet_eq buf).trans (congrArg (65535 - ·) (onesSum_eq buf).symm), fun c hc => ?_⟩
  rw [chksumInternet_eq, oc_field hfront] at hc ⊢
  generalize value front + value back = v at hc ⊢
  have hle := oc_le v
  have hsum : (UInt8.ofNat c).toNat + 256 * (UInt8.ofNat (c / 256)).toNat = c := by
    rw [UInt8.toNat_ofNat', UInt8.toNat_ofNat']
    omega
  change c = 65535 - oc v at hc
  have hfull : oc v + c = 65535 := by omega
  rw [hsum, ← oc_add (oc_oc v), hfull]
  rfl

theorem chksum_rfc1071_echo : chksumInternet [0, 0, 0xfe, 0x38, 0, 1, 1, 0xc6, 0] = 0 :=
  (@chksum_rfc1071 [0, 0] [0, 1, 1, 0xc6, 0] (by decide)).2 0x38fe (by decide)

lemma oc_eq_iff {a b : ℕ} : oc a = oc b ↔ a % 65535 = b % 65535 ∧ (a = 0 ↔ b = 0) := by
  refine ⟨fun h => ?_, fun h => oc_congr h.1 h.2⟩
  unfold oc at h
  split_ifs at h with ha hb hb
  · simp [ha, hb]
  · omega

lemma oc_add_inj {v a b : ℕ} (ha : a ≤ 65535) (hb : b ≤ 65535) : oc (v + a) = oc (v + b) ↔
    a = b ∨ v ≠ 0 ∧ a % 65535 = 0 ∧ b % 65535 = 0 := by
  rw [oc_eq_iff]
  constructor
  · rintro ⟨hmod, hzero⟩
    omega
  · rintro (rfl | ⟨hv, ha0, hb0⟩)
    · exact ⟨rfl, Iff.rfl⟩
    · omega

/-- A word at an even offset can be replaced unnoticed only by the other representation of zero, and only if there is
something else in the buffer. -/
theorem chksum_detects {front : List UInt8} (hfront : 2 ∣ front.length) (back : List UInt8) (x y x' y' : UInt8) :
    chksumInternet (front ++ x :: y :: back) = chksumInternet (front ++ x' :: y' :: back) ↔
      x = x' ∧ y = y' ∨ value front + value back ≠ 0 ∧
        (x.toNat + 256 * y.toNat) % 65535 = 0 ∧ (x'.toNat + 256 * y'.toNat) % 65535 = 0 := by
  have hx := x.toNat_lt
  have hy := y.toNat_lt
  have hx' := x'.toNat_lt
  have hy' := y'.toNat_lt
  have hcancel : ∀ u v : ℕ, 65535 - oc u = 65535 - oc v ↔ oc u = oc v := by
    intro u v
    have hu := oc_le u
    have hv := oc_le v
    omega
  have hword : x.toNat + 256 * y.toNat = x'.toNat + 256 * y'.toNat ↔ x = x' ∧ y = y' := by
    rw [← UInt8.toNat_inj, ← UInt8.toNat_inj]
    omega
  rw [chksumInternet_eq, chksumInternet_eq, oc_field hfront, oc_field hfront, hcancel,
    oc_add_inj (by omega) (by omega), hword]

theorem chksum_detects_flip : chksumInternet [1, 2, 3, 4] ≠ chksumInternet [1, 2, 3, 5] := by
  intro h
  have := (@chksum_detects [1, 2] (by decide) [] 3 4 3 5).1 h
  revert this
  decide

end Aspen.Chksum
