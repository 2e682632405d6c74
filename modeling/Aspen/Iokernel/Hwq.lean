import Aspen.Iokernel.Shm

/-!
# Hardware queues

A client may let the iokernel watch a completion queue of a device. It says where the descriptors are, how large
(as a logarithm) and how many, and at which byte the device flips a bit from one lap to the next.
`control_init_hwq` checks the description, `hwq_busy` reads the byte.
-/

namespace Aspen.Shm

structure HwqSpec where
  descriptorTable : BitVec 64
  consumerIdx : BitVec 64
  descriptorLogSize : BitVec 32
  nrDescriptors : BitVec 32
  parityByteOffset : BitVec 32
  parityBitMask : BitVec 32
  hwqType : BitVec 32

structure Hwq where
  enabled : Bool
  descriptorTable : BitVec 64
  consumerIdx : BitVec 64
  descriptorLogSize : BitVec 32
  nrDescriptors : BitVec 32
  parityByteOffset : BitVec 32
  parityBitMask : BitVec 32
  hwqType : BitVec 32
  lastTail : BitVec 32
  lastHead : BitVec 32
  busySince : BitVec 64

def hwqInvalid : BitVec 32 := 0#32

/-- A shift of a 32-bit word. From 32 on the count is undefined in C; the processor takes it modulo 32. -/
def shl (x n : BitVec 32) : BitVec 32 := x <<< (n.toNat % 32)

/-- The length of the table that is checked: a product of 32-bit words. -/
def HwqSpec.tableLen (hs : HwqSpec) : BitVec 64 := (shl 1#32 hs.descriptorLogSize * hs.nrDescriptors).setWidth 64

def controlInitHwq (r : Region) (hs : HwqSpec) : Option Hwq :=
  if hs.hwqType = hwqInvalid then
    some ⟨false, 0#64, 0#64, 0#32, 0#32, 0#32, 0#32, 0#32, 0#32, 0#32, BitVec.allOnes 64⟩
  else
    let descriptorTable := shmptrToPtr r hs.descriptorTable hs.tableLen
    let consumerIdx := shmptrToPtr r hs.consumerIdx 4#64
    if descriptorTable = 0#64 ∨ consumerIdx = 0#64 then none
    else if !isPowerOfTwo hs.nrDescriptors then none
    else if shl 1#32 hs.descriptorLogSize < hs.parityByteOffset then none
    else some
      { enabled := true
        descriptorTable := descriptorTable
        consumerIdx := consumerIdx
        descriptorLogSize := hs.descriptorLogSize
        nrDescriptors := hs.nrDescriptors
        parityByteOffset := hs.parityByteOffset
        parityBitMask := hs.parityBitMask
        hwqType := hs.hwqType
        lastTail := 0#32
        lastHead := 0#32
        busySince := BitVec.allOnes 64 }

namespace Hwq

def addr (h : Hwq) (cqIdx : BitVec 32) : BitVec 64 :=
  let idx := cqIdx &&& (h.nrDescriptors - 1#32)
  h.descriptorTable + (shl idx h.descriptorLogSize).setWidth 64 + h.parityByteOffset.setWidth 64

end Hwq

/-- The offset of the last descriptor that a 32-bit index reaches. -/
def HwqSpec.reach (hs : HwqSpec) : ℕ :=
  min (hs.nrDescriptors.toNat * 2 ^ (hs.descriptorLogSize.toNat % 32)) (2 ^ 32) -
    2 ^ (hs.descriptorLogSize.toNat % 32)

section Reach

variable {hs : HwqSpec}

lemma toNat_shl (x n : BitVec 32) : (shl x n).toNat = x.toNat * 2 ^ (n.toNat % 32) % 2 ^ 32 := by
  rw [shl, BitVec.toNat_shiftLeft, Nat.shiftLeft_eq]

lemma shl_le_reach {idx : BitVec 32} (h : idx.toNat < hs.nrDescriptors.toNat) :
    (shl idx hs.descriptorLogSize).toNat ≤ hs.reach := by
  rw [toNat_shl, HwqSpec.reach]
  obtain ⟨q, hq⟩ : 2 ^ (hs.descriptorLogSize.toNat % 32) ∣ 2 ^ 32 := Nat.pow_dvd_pow 2 (by omega)
  generalize 2 ^ (hs.descriptorLogSize.toNat % 32) = size at hq ⊢
  have hnext : (idx.toNat + 1) * size ≤ hs.nrDescriptors.toNat * size := Nat.mul_le_mul_right _ h
  rw [Nat.succ_mul] at hnext
  rcases Nat.lt_or_ge (idx.toNat * size) (2 ^ 32) with hlt | hge
  · -- a multiple of the size that is below `2 ^ 32`
    rw [Nat.mod_eq_of_lt hlt]
    have hle : (idx.toNat + 1) * size ≤ q * size :=
      Nat.mul_le_mul_right _ (Nat.lt_of_mul_lt_mul_right (a := size) (by rw [Nat.mul_comm q]; omega))
    rw [Nat.succ_mul, Nat.mul_comm q] at hle
    omega
  · have hmod : idx.toNat * size % 2 ^ 32 = idx.toNat % q * size := by
      rw [hq, Nat.mul_comm, Nat.mul_mod_mul_left, Nat.mul_comm]
    have hq0 : 0 < q := Nat.pos_of_ne_zero (by rintro rfl; omega)
    have hle : (idx.toNat % q + 1) * size ≤ q * size := Nat.mul_le_mul_right _ (Nat.mod_lt _ hq0)
    rw [Nat.succ_mul, Nat.mul_comm q] at hle
    omega

/-- The last descriptor is that of the largest index. -/
lemma shl_last (h : isPowerOfTwo hs.nrDescriptors) :
    (shl (hs.nrDescriptors - 1#32) hs.descriptorLogSize).toNat = hs.reach := by
  have hpos := ne_zero_of_isPowerOfTwo h
  obtain ⟨k, hk⟩ := exists_pow_of_isPowerOfTwo h
  rw [toNat_shl, HwqSpec.reach, BitVec.toNat_sub_of_le (show 1#32 ≤ _ from BitVec.le_def.2 hpos),
    show (1#32).toNat = 1 from rfl,
    Nat.sub_mul, Nat.one_mul, hk, ← Nat.pow_add]
  have hsize : 2 ^ (hs.descriptorLogSize.toNat % 32) < 2 ^ 32 := Nat.pow_lt_pow_right (by decide) (by omega)
  have hsize' := Nat.two_pow_pos (hs.descriptorLogSize.toNat % 32)
  rcases Nat.lt_or_ge (k + hs.descriptorLogSize.toNat % 32) 32 with hlt | hge
  · have hle := Nat.pow_lt_pow_right (a := 2) (by decide) hlt
    rw [Nat.mod_eq_of_lt (by omega), min_eq_left (by omega)]
  · obtain ⟨q, hq⟩ := Nat.pow_dvd_pow 2 hge
    have hq0 : q ≠ 0 := by
      rintro rfl
      exact absurd hq (Nat.two_pow_pos _).ne'
    obtain ⟨q, rfl⟩ := Nat.exists_eq_succ_of_ne_zero hq0
    rw [min_eq_right (Nat.pow_le_pow_right (by decide) hge), hq, Nat.mul_succ, Nat.add_sub_assoc hsize.le,
      Nat.mul_add_mod, Nat.mod_eq_of_lt (by omega)]

lemma idx_lt (cqIdx : BitVec 32) {nr : BitVec 32} (hnr : 0 < nr.toNat) :
    (cqIdx &&& (nr - 1#32)).toNat < nr.toNat := by
  have hsub : (nr - 1#32).toNat = nr.toNat - 1 := by
    rw [BitVec.toNat_sub_of_le]
    · rfl
    · exact BitVec.le_def.2 hnr
  rw [BitVec.toNat_and, hsub]
  exact Nat.lt_of_le_of_lt Nat.and_le_right (Nat.sub_lt hnr Nat.one_pos)

end Reach

lemma controlInitHwq_eq_some {r : Region} {hs : HwqSpec} {h : Hwq}
    (hacc : controlInitHwq r hs = some h) (hen : h.enabled) :
    h.descriptorTable = shmptrToPtr r hs.descriptorTable hs.tableLen ∧ h.descriptorTable ≠ 0#64 ∧
      h.descriptorLogSize = hs.descriptorLogSize ∧ h.nrDescriptors = hs.nrDescriptors ∧
      h.parityByteOffset = hs.parityByteOffset ∧ isPowerOfTwo hs.nrDescriptors := by
  unfold controlInitHwq at hacc
  split at hacc
  · cases hacc
    cases hen
  dsimp only at hacc
  split at hacc
  · cases hacc
  rename_i hptr
  split at hacc
  · cases hacc
  rename_i hpow
  split at hacc
  · cases hacc
  cases hacc
  rw [not_or] at hptr
  rw [Bool.not_eq_true, Bool.not_eq_false'] at hpow
  exact ⟨rfl, hptr.1, rfl, rfl, rfl, hpow⟩

/-- The bytes that `hwq_busy` reads for the consumer indices lie in the region just if that for the last descriptor
does. -/
theorem hwq_reads_inside {r : Region} {hs : HwqSpec} {h : Hwq} (hacc : controlInitHwq r hs = some h)
    (hen : h.enabled = true) : (∀ cqIdx, r.Inside (h.addr cqIdx) 1) ↔
      (hs.descriptorTable + hs.parityByteOffset.setWidth 64).toNat + hs.reach < r.len.toNat := by
  obtain ⟨htbl, hne, hls, hn, hpo, hpow⟩ := controlInitHwq_eq_some hacc hen
  rw [htbl] at hne
  obtain ⟨hp, hroom, -⟩ := shmptrToPtr_accepts hne
  have hread (cqIdx : BitVec 32) : r.Inside (h.addr cqIdx) 1 ↔
      ((hs.descriptorTable + hs.parityByteOffset.setWidth 64).toNat +
        (shl (cqIdx &&& (hs.nrDescriptors - 1#32)) hs.descriptorLogSize).toNat) % 2 ^ 64 < r.len.toNat := by
    unfold Hwq.addr
    dsimp only
    have hsum (x y : BitVec 64) : hs.descriptorTable + r.base + x + y = hs.descriptorTable + y + x + r.base := by ac_rfl
    rw [htbl, hls, hn, hpo, hp, hsum, inside_iff (by decide), BitVec.toNat_add _ (BitVec.setWidth 64 (shl _ _)),
      BitVec.toNat_setWidth_of_le (w := 32) (by decide)]
    exact Nat.succ_le_iff
  have hpar : (hs.parityByteOffset.setWidth 64).toNat < 2 ^ 32 := by
    rw [BitVec.toNat_setWidth_of_le (by decide)]
    exact BitVec.isLt _
  have hreach : hs.reach < 2 ^ 32 := shl_last hpow ▸ BitVec.isLt _
  constructor
  · intro h
    have hfirst := (hread 0#32).1 (h _)
    have hlast := (hread (hs.nrDescriptors - 1#32)).1 (h _)
    rw [BitVec.zero_and, toNat_shl, show (0#32).toNat = 0 from rfl, Nat.zero_mul, Nat.zero_mod, Nat.add_zero] at hfirst
    rw [BitVec.and_self, shl_last hpow] at hlast
    rw [BitVec.toNat_add] at hfirst hlast ⊢
    omega
  · intro h cqIdx
    have hle : _ ≤ hs.reach := shl_le_reach (idx_lt cqIdx (ne_zero_of_isPowerOfTwo hpow))
    rw [hread, Nat.mod_eq_of_lt (by have := r.len.isLt; omega)]
    omega

def region2M : Region := ⟨0x10000000#64, 0x200000#64, by decide⟩

def fullTable : HwqSpec :=
  { descriptorTable := 0#64, consumerIdx := 0#64, descriptorLogSize := 6#32,
    nrDescriptors := 0x8000#32, parityByteOffset := 63#32, parityBitMask := 1#32, hwqType := 1#32 }

theorem hwq_reads_inside_full : ∃ h, controlInitHwq region2M fullTable = some h ∧ h.enabled = true ∧
    ∀ cqIdx, region2M.Inside (h.addr cqIdx) 1 := by
  have hacc : controlInitHwq region2M fullTable = some _ := rfl
  exact ⟨_, hacc, rfl, (hwq_reads_inside hacc rfl).2 (by decide)⟩

/-- Two descriptions that are accepted and let `hwq_busy` read outside the region: the byte offset may be the size of
a descriptor, and the 32-bit length of a table of 4 GB is zero. -/
theorem hwq_reads_outside :
    (∃ h, controlInitHwq region2M { fullTable with parityByteOffset := 64#32 } = some h ∧
      h.enabled = true ∧ ¬ region2M.Inside (h.addr 0x7fff#32) 1) ∧ ∃ h, controlInitHwq region2M
        { fullTable with descriptorLogSize := 16#32, nrDescriptors := 0x10000#32 } = some h ∧
      h.enabled = true ∧ ¬ region2M.Inside (h.addr 0xffff#32) 1 :=
  ⟨⟨_, rfl, rfl, by decide⟩, ⟨_, rfl, rfl, by decide⟩⟩

end Aspen.Shm
