import Aspen.Iokernel.Hwq

/-!
# Attaching a process

`control_create_proc` reads a client's header and the descriptions of its threads out of the shared memory,
checks them, and makes the process, with a queue for the completions that the client's own queues have no room
for.
-/

namespace Aspen.Shm

/-- `struct control_hdr`, without the scheduler's settings -/
structure ControlHdr where
  versionNo : BitVec 32
  magic : BitVec 32
  threadCount : BitVec 32
  requestDirectpathQueues : BitVec 32
  egressBufCount : BitVec 64
  runtimeInfo : BitVec 64
  ipAddr : BitVec 32
  threadSpecs : BitVec 64

structure ThreadSpec where
  rxq : QueueSpec
  txpktq : QueueSpec
  txcmdq : QueueSpec
  qPtrs : BitVec 64
  tid : BitVec 32
  directRxq : HwqSpec
  storageHwq : HwqSpec

structure Thread where
  rxq : ChanOut
  txpktq : ChanIn
  txcmdq : ChanIn
  tid : BitVec 32
  qPtrs : BitVec 64
  directpathHwq : Hwq
  storageHwq : Hwq

structure Proc where
  threadCount : BitVec 32
  ipAddr : BitVec 32
  runtimeInfo : BitVec 64
  hasVfioDirectpath : Bool
  vfioDirectpathRmp : Bool
  hasDirectpath : Bool
  threads : List Thread
  maxOverflows : BitVec 64
  nrOverflows : BitVec 64
  /-- the size of the block that `overflow_queue` points to -/
  overflowBytes : BitVec 64

structure CreateEnv where
  mapped : Bool
  copied : Bool
  allocated : Bool
  pages : Bool
  overflow : Bool

def controlHdrSize : BitVec 64 := 88#64

def threadSpecSize : BitVec 64 := 168#64

def runtimeInfoSize : BitVec 64 := 32#64

def qPtrsSize : BitVec 64 := 128#64

def completionSize : BitVec 64 := 8#64

def nonNull (p : BitVec 64) : Option (BitVec 64) := if p = 0#64 then none else some p

def initThread (r : Region) (s : ThreadSpec) : Option Thread := do
  let rxq ← shmInitLrpcOut r s.rxq
  let txpktq ← shmInitLrpcIn r s.txpktq
  let txcmdq ← shmInitLrpcIn r s.txcmdq
  let qPtrs ← nonNull (shmptrToPtr r s.qPtrs qPtrsSize)
  let directpathHwq ← controlInitHwq r s.directRxq
  let storageHwq ← controlInitHwq r s.storageHwq
  return ⟨rxq, txpktq, txcmdq, s.tid, qPtrs, directpathHwq, storageHwq⟩

/-- The checks of the header; the version is 10, and there are at most `NCPU` threads. -/
def headerOk (r : Region) (hdr : ControlHdr) : Bool :=
  !(r.len < controlHdrSize) && hdr.magic == 0x696f6b3a#32 && hdr.versionNo == 10#32 &&
    !(256#32 < hdr.threadCount || hdr.threadCount == 0#32) && hdr.ipAddr != 0#32

/-- `control_create_proc`; `specs` is what the client has stored from `thread_specs` on -/
def controlCreateProc (r : Region) (hdr : ControlHdr) (specs : ℕ → ThreadSpec) (env : CreateEnv) :
    Option Proc := do
  guard env.mapped
  guard (headerOk r hdr)
  let _ ← nonNull (shmptrToPtr r hdr.threadSpecs (hdr.threadCount.setWidth 64 * threadSpecSize))
  guard (env.copied && env.allocated)
  let runtimeInfo ← nonNull (shmptrToPtr r hdr.runtimeInfo runtimeInfoSize)
  let threads ← ((List.range hdr.threadCount.toNat).map specs).mapM (initThread r)
  guard env.pages
  guard env.overflow
  let vfio := hdr.requestDirectpathQueues != 0#32
  return {
    threadCount := hdr.threadCount
    ipAddr := hdr.ipAddr
    runtimeInfo := runtimeInfo
    hasVfioDirectpath := vfio
    vfioDirectpathRmp := hdr.requestDirectpathQueues == 2#32
    hasDirectpath := vfio || threads.any (·.directpathHwq.enabled)
    threads := threads
    maxOverflows := hdr.egressBufCount
    nrOverflows := 0#64
    overflowBytes := completionSize * hdr.egressBufCount }

/-! ## What was accepted -/

variable {r : Region} {hdr : ControlHdr} {specs : ℕ → ThreadSpec} {env : CreateEnv} {p : Proc}

structure ThreadSpec.Sound (s : ThreadSpec) (r : Region) : Prop where
  rxq : s.rxq.Sound r
  txpktq : s.txpktq.Sound r
  txcmdq : s.txcmdq.Sound r

structure Thread.Inside (t : Thread) (r : Region) : Prop where
  rxq : t.rxq.toRing.Inside r
  txpktq : t.txpktq.toRing.Inside r
  txcmdq : t.txcmdq.toRing.Inside r

lemma shmInitLrpcIn_inside_iff {q : QueueSpec} {c : ChanIn} (h : shmInitLrpcIn r q = some c) :
    c.toRing.Inside r ↔ q.Sound r := by
  obtain ⟨ring, rfl, hin⟩ := ring_inside_iff h
  exact hin

lemma shmInitLrpcOut_inside_iff {q : QueueSpec} {c : ChanOut} (h : shmInitLrpcOut r q = some c) :
    c.toRing.Inside r ↔ q.Sound r := by
  obtain ⟨ring, rfl, hin⟩ := ring_inside_iff h
  exact hin

lemma initThread_inside_iff {s : ThreadSpec} {t : Thread} (h : initThread r s = some t) : t.Inside r ↔ s.Sound r := by
  simp only [initThread, bind, pure, Option.bind_eq_some_iff] at h
  obtain ⟨rxq, hrx, txpktq, hpkt, txcmdq, hcmd, _, -, _, -, _, -, ⟨⟩⟩ := h
  have hrx := shmInitLrpcOut_inside_iff hrx
  have hpkt := shmInitLrpcIn_inside_iff hpkt
  have hcmd := shmInitLrpcIn_inside_iff hcmd
  exact ⟨fun ⟨h1, h2, h3⟩ => ⟨hrx.1 h1, hpkt.1 h2, hcmd.1 h3⟩, fun ⟨h1, h2, h3⟩ => ⟨hrx.2 h1, hpkt.2 h2, hcmd.2 h3⟩⟩

lemma forall_mem_mapM {α β : Type} {f : α → Option β} {P : α → Prop} {Q : β → Prop}
    (hf : ∀ a b, f a = some b → (Q b ↔ P a)) {l : List α} {l' : List β} (h : l.mapM f = some l') :
    (∀ b ∈ l', Q b) ↔ ∀ a ∈ l, P a := by
  induction l generalizing l' with
  | nil =>
    cases h
    exact iff_of_true nofun nofun
  | cons a l ih =>
    rw [List.mapM_cons] at h
    simp only [bind, pure, Option.bind_eq_some_iff] at h
    obtain ⟨b, hb, bs, hbs, ⟨⟩⟩ := h
    rw [List.forall_mem_cons, List.forall_mem_cons, hf a b hb, ih hbs]

lemma controlCreateProc_eq_some (h : controlCreateProc r hdr specs env = some p) :
    ((List.range hdr.threadCount.toNat).map specs).mapM (initThread r) = some p.threads ∧
      p.maxOverflows = hdr.egressBufCount ∧ p.overflowBytes = completionSize * hdr.egressBufCount ∧
      p.threadCount = hdr.threadCount := by
  simp only [controlCreateProc, bind, pure, Option.bind_eq_some_iff] at h
  obtain ⟨_, -, _, -, _, -, _, -, _, -, threads, hth, _, -, _, -, he⟩ := h
  cases he
  exact ⟨hth, rfl, rfl, rfl⟩

/-- The queue for completions has the size that is asked for. -/
def CompletionsFit (hdr : ControlHdr) : Prop := completionSize.toNat * hdr.egressBufCount.toNat < 2 ^ 64

/-- Queues that are accepted lie in the region just if their descriptions are sound, and the queue for completions
holds as many as it is said to just if its size is a 64-bit word. -/
theorem queues_inside (r : Region) :
    (∀ q c, shmInitLrpcIn r q = some c → (c.toRing.Inside r ↔ q.Sound r)) ∧
      (∀ q c, shmInitLrpcOut r q = some c → (c.toRing.Inside r ↔ q.Sound r)) ∧
      ∀ hdr specs env p, controlCreateProc r hdr specs env = some p →
        ((∀ t ∈ p.threads, t.Inside r) ↔ ∀ i < hdr.threadCount.toNat, (specs i).Sound r) ∧
        (completionSize.toNat * p.maxOverflows.toNat ≤ p.overflowBytes.toNat ↔ CompletionsFit hdr) := by
  refine ⟨fun q c h => shmInitLrpcIn_inside_iff h, fun q c h => shmInitLrpcOut_inside_iff h, ?_⟩
  intro hdr specs env p h
  obtain ⟨hth, hmax, hbytes, -⟩ := controlCreateProc_eq_some h
  constructor
  · rw [forall_mem_mapM (fun s t => initThread_inside_iff) hth, List.forall_mem_map]
    simp only [List.mem_range]
  · rw [hmax, hbytes, BitVec.toNat_mul, CompletionsFit]
    omega

def smallQueue : QueueSpec := ⟨16#64, 0#64, 0x1000#64⟩

def smallThread : ThreadSpec :=
  { rxq := smallQueue, txpktq := smallQueue, txcmdq := smallQueue, qPtrs := 0x2000#64, tid := 1#32,
    directRxq := ⟨0#64, 0#64, 0#32, 0#32, 0#32, 0#32, hwqInvalid⟩
    storageHwq := ⟨0#64, 0#64, 0#32, 0#32, 0#32, 0#32, hwqInvalid⟩ }

def smallHdr : ControlHdr :=
  { versionNo := 10#32, magic := 0x696f6b3a#32, threadCount := 1#32,
    requestDirectpathQueues := 0#32, egressBufCount := 64#64, runtimeInfo := 0x3000#64,
    ipAddr := 0xa000001#32, threadSpecs := 0x4000#64 }

def CreateEnv.success : CreateEnv := ⟨true, true, true, true, true⟩

theorem queues_inside_small :
    ∃ p, controlCreateProc region2M smallHdr (fun _ => smallThread) .success = some p ∧
      (∀ t ∈ p.threads, t.Inside region2M) ∧ CompletionsFit smallHdr ∧
      completionSize.toNat * p.maxOverflows.toNat ≤ p.overflowBytes.toNat := by
  have hq : smallQueue.Sound region2M := by decide
  have hfit : CompletionsFit smallHdr := by unfold CompletionsFit; decide
  obtain ⟨p, hp⟩ : ∃ p, controlCreateProc region2M smallHdr (fun _ => smallThread) .success = some p :=
    ⟨_, rfl⟩
  obtain ⟨hth, hov⟩ := (queues_inside region2M).2.2 _ _ _ p hp
  exact ⟨p, hp, hth.2 fun _ _ => ⟨hq, hq, hq⟩, hfit, hov.2 hfit⟩

/-- A table whose end wraps around to the start of the region is accepted, 64 GB beyond it: the length checked is
`2^64 - (2^36 - 16)` bytes, and the count one. A queue for `2^61` completions is made of no bytes. -/
theorem queues_outside :
    (∃ c, shmInitLrpcIn region2M ⟨0x0fffffff00000001#64, 0xffffffff0#64, 0#64⟩ = some c ∧
      c.size = 1#32 ∧ ¬ region2M.Inside c.tbl msgSize) ∧
    ∃ p, controlCreateProc region2M { smallHdr with egressBufCount := 0x2000000000000000#64 }
        (fun _ => smallThread) .success = some p ∧
      p.maxOverflows = 0x2000000000000000#64 ∧ p.overflowBytes = 0#64 :=
  ⟨⟨_, rfl, rfl, by decide⟩, ⟨_, rfl, rfl, rfl⟩⟩

end Aspen.Shm
