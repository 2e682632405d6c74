import Mathlib.Data.BitVec

/-!
# Pointers into shared memory

A client describes its queues by offsets into the memory it shares with the iokernel, which turns them into
pointers with `shmptr_to_ptr`. That function is told how long the object is and is to refuse it unless it lies
in the region. Offsets and lengths are 64-bit words that the client has chosen, and the sum that is
compared with the length of the region may wrap around.
-/

namespace Aspen.Shm

/-- `struct shm_region`: memory that is mapped, and so does not wrap around. -/
structure Region where
  base : BitVec 64
  len : BitVec 64
  fits : base.toNat + len.toNat ≤ 2 ^ 64

def Region.Inside (r : Region) (p : BitVec 64) (n : ℕ) : Prop :=
  r.base.toNat ≤ p.toNat ∧ p.toNat + n ≤ r.base.toNat + r.len.toNat
deriving Decidable

/-- `shmptr_to_ptr`; zero is the null pointer -/
def shmptrToPtr (r : Region) (shmptr len : BitVec 64) : BitVec 64 :=
  if BitVec.allOnes 64 - shmptr < r.len ∨ r.len < shmptr + len then 0#64 else shmptr + r.base

/-- The end of the object is a 64-bit word. -/
def NoWrap (shmptr len : BitVec 64) : Prop := shmptr.toNat + len.toNat < 2 ^ 64
deriving Decidable

variable {r : Region} {shmptr len : BitVec 64}

lemma shmptrToPtr_accepts (h : shmptrToPtr r shmptr len ≠ 0#64) : shmptrToPtr r shmptr len = shmptr + r.base ∧
    shmptr.toNat + r.len.toNat < 2 ^ 64 ∧ (shmptr.toNat + len.toNat) % 2 ^ 64 ≤ r.len.toNat := by
  unfold shmptrToPtr at h ⊢
  split at h
  · exact absurd rfl h
  rename_i hc
  rw [if_neg hc]
  rw [not_or, BitVec.not_lt, BitVec.not_lt] at hc
  have hroom := BitVec.le_def.1 hc.1
  have hend := BitVec.le_def.1 hc.2
  rw [BitVec.toNat_sub, BitVec.toNat_allOnes] at hroom
  rw [BitVec.toNat_add] at hend
  exact ⟨rfl, by omega, hend⟩

/-- An offset from the start of the region that may have wrapped around is inside just if it is small. -/
lemma inside_iff {x : BitVec 64} {n : ℕ} (hn : 0 < n) : r.Inside (x + r.base) n ↔ x.toNat + n ≤ r.len.toNat := by
  have hfits := r.fits
  have hx := x.isLt
  unfold Region.Inside
  rw [BitVec.toNat_add]
  omega

def isPowerOfTwo (x : BitVec 32) : Bool := x != 0#32 && (x &&& (x - 1#32)) == 0#32

lemma ne_zero_of_isPowerOfTwo {x : BitVec 32} (h : isPowerOfTwo x) : 0 < x.toNat := by
  unfold isPowerOfTwo at h
  rw [Bool.and_eq_true, bne_iff_ne] at h
  exact Nat.pos_of_ne_zero fun hz => h.1 (BitVec.eq_of_toNat_eq hz)

lemma exists_pow_of_isPowerOfTwo {x : BitVec 32} (h : isPowerOfTwo x) : ∃ k, x.toNat = 2 ^ k := by
  have hpos := ne_zero_of_isPowerOfTwo h
  have hand : x.toNat &&& (x.toNat - 1) = 0 := by
    unfold isPowerOfTwo at h
    rw [Bool.and_eq_true, beq_iff_eq] at h
    have hand := congrArg BitVec.toNat h.2
    rwa [BitVec.toNat_and, BitVec.toNat_sub_of_le (show 1#32 ≤ x from BitVec.le_def.2 hpos)] at hand
  refine ⟨x.toNat.log2, ?_⟩
  have hle := Nat.log2_self_le hpos.ne'
  have hlt := Nat.lt_log2_self (n := x.toNat)
  have hone := Nat.one_le_two_pow (n := x.toNat.log2)
  by_contra hne
  -- otherwise the number before it has the same highest bit
  have hlog : (x.toNat - 1).log2 = x.toNat.log2 :=
    (Nat.log2_eq_iff (by omega)).2 ⟨by omega, by omega⟩
  have hbit := congrArg (Nat.testBit · x.toNat.log2) hand
  have hlast : (x.toNat - 1).testBit x.toNat.log2 = true := hlog ▸ Nat.testBit_log2 (by omega)
  simp [Nat.testBit_log2 hpos.ne', hlast] at hbit

/-! ## Message queues -/

structure QueueSpec where
  msgCount : BitVec 64
  msgBuf : BitVec 64
  wb : BitVec 64

/-- What `struct lrpc_chan_in` and `struct lrpc_chan_out` have in common. -/
structure Ring where
  tbl : BitVec 64
  recvHeadWb : BitVec 64
  size : BitVec 32

structure ChanIn extends Ring where
  recvHead : BitVec 32

structure ChanOut extends Ring where
  sendHead : BitVec 32
  sendTail : BitVec 32

/-- The size is a power of two, or the channel is refused. -/
def lrpcInit {χ : Type} (chan : Ring → χ) (tbl : BitVec 64) (size : BitVec 32)
    (recvHeadWb : BitVec 64) : Option χ :=
  if isPowerOfTwo size then some (chan ⟨tbl, recvHeadWb, size⟩) else none

def lrpcInitIn : BitVec 64 → BitVec 32 → BitVec 64 → Option ChanIn := lrpcInit (⟨·, 0#32⟩)

def lrpcInitOut : BitVec 64 → BitVec 32 → BitVec 64 → Option ChanOut := lrpcInit (⟨·, 0#32, 0#32⟩)

def msgSize : ℕ := 16

/-- The table and the word are looked up, and the channel made with a size that is an `unsigned int`. -/
def shmInitLrpc {χ : Type} (init : BitVec 64 → BitVec 32 → BitVec 64 → Option χ) (r : Region)
    (q : QueueSpec) : Option χ :=
  let tbl := shmptrToPtr r q.msgBuf (BitVec.ofNat 64 msgSize * q.msgCount)
  if tbl = 0#64 then none
  else
    let wb := shmptrToPtr r q.wb 4#64
    if wb = 0#64 then none else init tbl (q.msgCount.setWidth 32) wb

def shmInitLrpcIn : Region → QueueSpec → Option ChanIn := shmInitLrpc lrpcInitIn

def shmInitLrpcOut : Region → QueueSpec → Option ChanOut := shmInitLrpc lrpcInitOut

def Ring.Inside (c : Ring) (r : Region) : Prop :=
  (∀ i < c.size.toNat, r.Inside (c.tbl + BitVec.ofNat 64 (msgSize * i)) msgSize) ∧ r.Inside c.recvHeadWb 4

/-- Neither the table nor the word runs over the end of the 64-bit offsets; or the table does, and what is used of it is
in the region all the same. -/
def QueueSpec.Sound (q : QueueSpec) (r : Region) : Prop :=
  (NoWrap q.msgBuf (BitVec.ofNat 64 msgSize * q.msgCount) ∨
    q.msgBuf.toNat + msgSize * (q.msgCount.setWidth 32).toNat ≤ r.len.toNat) ∧ NoWrap q.wb 4#64
deriving Decidable

/-- The length that is checked may have wrapped around, but it still covers the size that is used: 60 bits are left of
the client's count, and 32. -/
lemma size_le_length (n : BitVec 64) : msgSize * (n.setWidth 32).toNat ≤ (BitVec.ofNat 64 msgSize * n).toNat := by
  have hlen : (BitVec.ofNat 64 msgSize * n).toNat = 16 * (n.toNat % 2 ^ 60) := by
    rw [BitVec.toNat_mul, show (BitVec.ofNat 64 msgSize).toNat = 2 ^ 4 from rfl,
      show (2 : ℕ) ^ 64 = 2 ^ 4 * 2 ^ 60 from rfl, Nat.mul_mod_mul_left]
    rfl
  rw [hlen, BitVec.toNat_setWidth, show msgSize = 16 from rfl]
  have hle : n.toNat % 2 ^ 32 ≤ n.toNat % 2 ^ 60 := by
    rw [← Nat.mod_mod_of_dvd n.toNat (show 2 ^ 32 ∣ 2 ^ 60 by decide)]
    exact Nat.mod_le _ _
  exact Nat.mul_le_mul_left 16 hle

lemma slots_inside_iff {x : BitVec 64} {n : ℕ} (hn : 0 < n) (hn' : n < 2 ^ 32) (hx : x.toNat + r.len.toNat < 2 ^ 64) :
    (∀ i < n, r.Inside (x + r.base + BitVec.ofNat 64 (msgSize * i)) msgSize) ↔ x.toNat + msgSize * n ≤ r.len.toNat := by
  have hslot (i : ℕ) : r.Inside (x + r.base + BitVec.ofNat 64 (msgSize * i)) msgSize ↔
      (x.toNat + 16 * i) % 2 ^ 64 + 16 ≤ r.len.toNat := by
    rw [add_right_comm, inside_iff (by decide), BitVec.toNat_add, BitVec.toNat_ofNat, Nat.add_mod_mod]
    rfl
  rw [forall₂_congr fun i _ => hslot i, show msgSize = 16 from rfl]
  refine ⟨fun h => ?_, fun h i hi => ?_⟩
  · have hfirst := h 0 hn
    have hlast := h (n - 1) (by omega)
    omega
  · omega

/-- A channel that is accepted lies in the region just if its description is sound. -/
lemma ring_inside_iff {q : QueueSpec} {χ : Type} {chan : Ring → χ} {c : χ}
    (h : shmInitLrpc (lrpcInit chan) r q = some c) : ∃ ring : Ring, c = chan ring ∧ (ring.Inside r ↔ q.Sound r) := by
  unfold shmInitLrpc at h
  dsimp only at h
  split at h
  · cases h
  rename_i htbl
  split at h
  · cases h
  rename_i hwb
  unfold lrpcInit at h
  split at h
  · rename_i hpow
    cases h
    obtain ⟨htbl, hroom, hend⟩ := shmptrToPtr_accepts htbl
    obtain ⟨hwb, -, hend'⟩ := shmptrToPtr_accepts hwb
    have hsize := size_le_length q.msgCount
    refine ⟨_, rfl, and_congr ?_ ?_⟩
    · rw [htbl, slots_inside_iff (ne_zero_of_isPowerOfTwo hpow) (BitVec.isLt _) hroom, NoWrap]
      omega
    · rw [hwb, inside_iff (by decide), NoWrap, show (4#64).toNat = 4 from rfl] at *
      omega
  · cases h

end Aspen.Shm
