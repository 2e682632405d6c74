import Mathlib.Tactic.Ring

/-!
# Storage requests

`storage_read` and `storage_write` of `runtime/storage.c`. A request is sized by a product of 32 bits, which
also says where its buffer is from and goes back to. The thread parks until `seq_complete` wakes it up, which
does not look at the completion: `rc` is what the driver returned when it took the command.
-/

namespace Aspen.Storage

/-- Where a buffer is from: `storage_buf_pt`, or `spdk_zmalloc`. -/
inductive Pool
  | tcache
  | spdk
deriving DecidableEq

structure Env where
  enabled : Bool
  blockSize : BitVec 32
  alloc : Bool
  /-- what `spdk_nvme_ns_cmd_read` or `spdk_nvme_ns_cmd_write` returns -/
  submit : ℤ
  /-- the status that the driver passes to `seq_complete` is that of a success -/
  success : Bool

structure Outcome where
  rc : ℤ
  /-- the buffer that the driver was called with, and its size -/
  buffer : Option (Pool × ℕ)
  freed : Option Pool
  /-- the bytes that were copied between the caller and the buffer -/
  copied : ℕ
deriving DecidableEq

def requestBufSz : ℕ := 16384

variable (isWrite : Bool) (env : Env) (lbaCount : BitVec 32)

/-- `req_size`: the product wraps around before it is converted to `size_t`. -/
def reqSize : ℕ := (lbaCount * env.blockSize).toNat

/-- The choice of `use_thread_cache`, and the size of the buffer. -/
def allocated (size : ℕ) : Pool × ℕ := if size ≤ requestBufSz then (.tcache, requestBufSz) else (.spdk, size)

/-- A write copies before it calls the driver, a read when it has been woken up. -/
def request : Outcome := if !env.enabled then ⟨-19, none, none, 0⟩  -- `ENODEV`
  else if !env.alloc then ⟨-12, none, none, 0⟩  -- `ENOMEM`
  else
    let size := reqSize env lbaCount
    let buf := allocated size
    if env.submit ≠ 0 then ⟨-5, some buf, some buf.1, if isWrite then size else 0⟩  -- `EIO`
    else ⟨env.submit, some buf, some buf.1, size⟩

def storageWrite : Env → BitVec 32 → Outcome := request true

def storageRead : Env → BitVec 32 → Outcome := request false

variable {env : Env} {lbaCount : BitVec 32}

lemma le_allocated (size : ℕ) : size ≤ (allocated size).2 := by
  unfold allocated
  split
  · assumption
  · exact Nat.le_refl _

lemma request_cases (env : Env) (lbaCount : BitVec 32) (o : Outcome) (h : request isWrite env lbaCount = o) :
    (env.enabled = false ∨ env.alloc = false) ∧ (o.rc = -19 ∨ o.rc = -12) ∧ o.buffer = none ∧ o.freed = none ∨
      (env.enabled = true ∧ env.alloc = true) ∧
      (env.submit ≠ 0 ∧ o.rc = -5 ∨ env.submit = 0 ∧ o.rc = 0 ∧ o.copied = reqSize env lbaCount) ∧
        o.buffer = some (allocated (reqSize env lbaCount)) ∧ o.freed = o.buffer.map Prod.fst := by
  subst h
  unfold request
  split
  · rename_i hoff
    exact .inl ⟨.inl (Bool.not_eq_true' _ ▸ hoff), .inl rfl, rfl, rfl⟩
  split
  · rename_i hoff
    exact .inl ⟨.inr (Bool.not_eq_true' _ ▸ hoff), .inr rfl, rfl, rfl⟩
  rename_i hon halloc
  have hready : env.enabled = true ∧ env.alloc = true := by simpa using And.intro hon halloc
  by_cases hs : env.submit = 0
  · rw [if_neg (not_not.2 hs)]
    exact .inr ⟨hready, .inr ⟨hs, hs, rfl⟩, rfl, rfl⟩
  · rw [if_pos hs]
    exact .inr ⟨hready, .inl ⟨hs, rfl⟩, rfl, rfl⟩

lemma reqSize_eq (h : lbaCount.toNat * env.blockSize.toNat < 2 ^ 32) :
    reqSize env lbaCount = lbaCount.toNat * env.blockSize.toNat := by
  rw [reqSize, BitVec.toNat_mul, Nat.mod_eq_of_lt h]

/-- The buffer for a size that has wrapped around is too small. -/
lemma le_allocated_iff : lbaCount.toNat * env.blockSize.toNat ≤ (allocated (reqSize env lbaCount)).2 ↔
    lbaCount.toNat * env.blockSize.toNat < 2 ^ 32 := by
  constructor
  · intro hle
    have hlt := (lbaCount * env.blockSize).isLt
    refine hle.trans_lt ?_
    unfold allocated reqSize
    split
    · decide
    · exact hlt
  · intro hlt
    rw [← reqSize_eq hlt]
    exact le_allocated _

/-- A request gets a buffer of its size, succeeds only if all of it was transferred, fails with a negative value, and
returns the buffer to where it is from, just if it finds no device or no memory, or its size fits in 32 bits and the
driver does not fail it once it has taken it. -/
theorem requests_sized {o : Outcome} (ho : o = storageRead env lbaCount ∨ o = storageWrite env lbaCount) :
    ((∀ pool n, o.buffer = some (pool, n) → lbaCount.toNat * env.blockSize.toNat ≤ n) ∧
      (o.rc = 0 → env.submit = 0 ∧ env.success = true ∧ o.copied = lbaCount.toNat * env.blockSize.toNat) ∧
      o.rc ≤ 0 ∧ o.freed = o.buffer.map Prod.fst) ↔
    env.enabled = false ∨ env.alloc = false ∨
      lbaCount.toNat * env.blockSize.toNat < 2 ^ 32 ∧ (env.submit = 0 → env.success = true) := by
  obtain ⟨isWrite, hw⟩ : ∃ isWrite, request isWrite env lbaCount = o :=
    ho.elim (fun h => ⟨false, h.symm⟩) (fun h => ⟨true, h.symm⟩)
  rcases request_cases isWrite env lbaCount o hw with ⟨hoff, hrc, hb, hf⟩ | ⟨⟨hon, halloc⟩, hrc, hb, hf⟩
  · refine iff_of_true ⟨fun pool n hn => ?_, fun h0 => ?_, by omega, by rw [hf, hb]; rfl⟩ (or_assoc.1 (.inl hoff))
    · rw [hb] at hn
      cases hn
    · omega
  · rw [hon, halloc, or_iff_right nofun, or_iff_right nofun]
    constructor
    · rintro ⟨hbuf, hzero, -⟩
      refine ⟨le_allocated_iff.1 (hbuf _ _ hb), fun hs => ?_⟩
      exact (hzero ((hrc.resolve_left fun h => h.1 hs).2.1)).2.1
    · rintro ⟨hsize, hdone⟩
      refine ⟨fun pool n hn => ?_, fun h0 => ?_, by omega, hf⟩
      · obtain rfl := congrArg Prod.snd (Option.some.inj (hb.symm.trans hn))
        exact le_allocated_iff.2 hsize
      · rcases hrc with ⟨_, hrc⟩ | ⟨hs, _, hc⟩
        · omega
        · exact ⟨hs, hdone hs, hc.trans (reqSize_eq hsize)⟩

theorem requests_sized_eight : ∃ o, o = storageWrite ⟨true, 512, true, 0, true⟩ 8 ∧ o.rc = 0 ∧ o.copied = 4096 ∧
    o.freed = o.buffer.map Prod.fst :=
  ⟨_, rfl, rfl, rfl, ((requests_sized (.inr rfl)).2 (.inr (.inr ⟨by decide, fun _ => rfl⟩))).2.2.2⟩

/-- A write of 2³² bytes gets a buffer of 16 KB and copies nothing; a read that fails returns 0. -/
theorem requests_wrap : storageWrite ⟨true, 512, true, 0, true⟩ 0x800000 = ⟨0, some (.tcache, 16384), some .tcache, 0⟩ ∧
    (storageRead ⟨true, 512, true, 0, false⟩ 1).rc = 0 := by
  decide

end Aspen.Storage
