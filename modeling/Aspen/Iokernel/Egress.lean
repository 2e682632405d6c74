import Mathlib.Data.List.Range
import Aspen.Iokernel.Shm
import Aspen.Lib.Dense
import Aspen.Lib.Run

/-!
# The egress path

`tx_burst` takes headers of packets from the transmit queues of the threads that are polled, gets an mbuf for
each from a pool, prepares the mbufs, and hands them to the NIC. The NIC may take a part of them only; the rest
is kept for the next call.

Three things survive a call, as static variables: how many packets the batch has, how many of them have an mbuf,
and the mbufs. The arrays of headers and of threads are local to the call; what they contain when it starts is
an input, as are the headers, which are the client's memory, and the number of packets that the NIC takes.
-/

namespace Aspen.Egress

open Function

structure Msg where
  cmd : BitVec 64
  payload : BitVec 64

structure Proc where
  addr : BitVec 64
  region : Shm.Region
  pagePaddrs : ℕ → BitVec 64
  hasVfioDirectpath : Bool

/-- `struct tx_net_hdr`, without the payload -/
structure NetHdr where
  completionData : BitVec 64
  len : BitVec 32
  olflags : BitVec 32

/-- The fields of `struct rte_mbuf` and of its private data that are set here. -/
structure Mbuf where
  bufAddr : BitVec 64
  bufIova : BitVec 64
  dataOff : BitVec 16
  refcnt : BitVec 16
  bufLen : BitVec 16
  pktLen : BitVec 32
  dataLen : BitVec 16
  olFlags : BitVec 64
  l4Len : ℕ
  l3Len : ℕ
  l2Len : ℕ
  /-- the private data: process, thread and tag of the completion -/
  p : BitVec 64
  th : ℕ
  completionData : BitVec 64

inductive Fault
  | bug
  | disabled

def txBurstSize : ℕ := 64

def txpktNetXmit : BitVec 64 := 0#64

/-- `sizeof(struct tx_net_hdr)`, where the payload starts -/
def netHdrSize : BitVec 64 := 18#64

/-- The flag of the NIC for each flag of the header. -/
def olFlag (olflags : BitVec 32) (bit : ℕ) (flag : BitVec 64) : BitVec 64 :=
  if olflags.getLsbD bit then flag else 0#64

/-- `tx_prepare_tx_mbuf`, without the reference to the process; `hdr` is the address of the header -/
def txPrepareTxMbuf (p : Proc) (buf : Mbuf) (hdr : BitVec 64) (netHdr : NetHdr) (th : ℕ) : Mbuf :=
  let bufAddr := hdr + netHdrSize
  let pageNumber : BitVec 32 := ((bufAddr - p.region.base) >>> 21).setWidth 32
  let offload := netHdr.olflags != 0#32
  { bufAddr := bufAddr
    bufIova := p.pagePaddrs pageNumber.toNat + (bufAddr &&& 0x1fffff#64)
    dataOff := 0#16
    refcnt := 1#16
    bufLen := netHdr.len.setWidth 16
    pktLen := netHdr.len
    dataLen := netHdr.len.setWidth 16
    olFlags := olFlag netHdr.olflags 0 (1#64 <<< 54) ||| olFlag netHdr.olflags 1 (1#64 <<< 52) |||
      olFlag netHdr.olflags 2 (1#64 <<< 55) ||| olFlag netHdr.olflags 3 (1#64 <<< 56)
    l4Len := if offload then 20 else buf.l4Len
    l3Len := if offload then 20 else buf.l3Len
    l2Len := if offload then 14 else buf.l2Len
    p := p.addr
    th := th
    completionData := netHdr.completionData }

variable (P : ℕ → Proc)

/-! ## Queues -/

/-- The queues of the threads, and the threads that are polled. -/
structure Polling where
  active : ℕ → Bool
  txpktq : ℕ → List Msg
  /-- `ts`; a thread's `ts_idx` is its place here -/
  ts : List ℕ
  pos : BitVec 32
  queued : ℕ → List Msg
  /-- every header received, with the thread whose queue it came from -/
  pulled : List (ℕ × BitVec 64)

variable (f : Polling) (t : ℕ)

/-- The header that a thread's message is about, or the null pointer. -/
def hdrOf (m : Msg) : BitVec 64 := Shm.shmptrToPtr (P t).region m.payload netHdrSize

namespace Polling

def pollThread : Polling := if t ∈ f.ts then f else { f with ts := f.ts ++ [t] }

def unpollThread : Polling :=
  if t ∈ f.ts then { f with ts := swapRemove f.ts t } else f

def receive (q : List Msg) (hdr : BitVec 64) : Polling :=
  { f with txpktq := update f.txpktq t q, pulled := f.pulled ++ [(t, hdr)] }

/-- `tx_drain_queue`: the headers of at most `n` packets -/
def txDrainQueue (t : ℕ) : ℕ → Polling → Except Fault (List (BitVec 64) × Polling)
  | 0, f => .ok ([], f)
  | n + 1, f =>
    match f.txpktq t with
    | [] => .ok ([], if f.active t then f else f.unpollThread t)
    | m :: q =>
      if m.cmd = txpktNetXmit ∧ hdrOf P t m ≠ 0#64 then
        match txDrainQueue t n (f.receive t q (hdrOf P t m)) with
        | .ok (hdrs, f') => .ok (hdrOf P t m :: hdrs, f')
        | .error d => .error d
      else .error .bug

def enqueue (m : Msg) : Polling :=
  { f with txpktq := update f.txpktq t (f.txpktq t ++ [m]),
           queued := update f.queued t (f.queued t ++ [m]) }

def enable : Polling :=
  let f := { f with active := update f.active t true }
  if (P t).hasVfioDirectpath then f else f.pollThread t

def disable : Polling :=
  let f := { f with active := update f.active t false }
  if (P t).hasVfioDirectpath = false ∧ f.txpktq t = [] then f.unpollThread t else f

end Polling

/-- The local arrays of `tx_burst`, the number of packets and the queues, while packets are pulled. -/
structure Batch where
  hdrs : ℕ → BitVec 64
  threads : ℕ → ℕ
  nPkts : ℕ
  polling : Polling

def writeAt {α : Type} (a : ℕ → α) (i : ℕ) (xs : List α) : ℕ → α :=
  fun k => if i ≤ k then xs[k - i]?.getD (a k) else a k

namespace Batch

def poll (b : Batch) (t : ℕ) : Except Fault Batch :=
  match b.polling.txDrainQueue P t (txBurstSize - b.nPkts) with
  | .ok (hdrs, f) => .ok
      { hdrs := writeAt b.hdrs b.nPkts hdrs
        threads := writeAt b.threads b.nPkts (hdrs.map fun _ => t)
        nPkts := b.nPkts + hdrs.length
        polling := f }
  | .error d => .error d

/-- The loop over the polled threads, whose number may shrink under way; the answer says if the batch is full. -/
def pollAll : ℕ → ℕ → Batch → Except Fault (Bool × Batch)
  | 0, _, b => .ok (false, b)
  | n + 1, i, b =>
    if h : i < b.polling.ts.length then
      let idx := (b.polling.pos + BitVec.ofNat 32 i).toNat % b.polling.ts.length
      match b.poll P (b.polling.ts.get ⟨idx, Nat.mod_lt _ (Nat.zero_lt_of_lt h)⟩) with
      | .ok b' => if txBurstSize ≤ b'.nPkts then .ok (true, b') else pollAll n (i + 1) b'
      | .error d => .error d
    else .ok (false, b)

end Batch

/-! ## Buffers -/

/-- A call of `tx_prepare_tx_mbuf`: its arguments, and what the mbuf and the header contained. -/
structure Call where
  buf : ℕ
  old : Mbuf
  hdr : BitVec 64
  netHdr : NetHdr
  th : ℕ

namespace Call

def out (c : Call) : Mbuf := txPrepareTxMbuf (P c.th) c.old c.hdr c.netHdr c.th

def src (c : Call) : ℕ × BitVec 64 := (c.th, c.hdr)

end Call

/-- The mbufs. Those of `bufs` are the ones that `n_bufs` counts. -/
structure Buffers where
  bufs : List ℕ
  mbuf : ℕ → Mbuf
  pool : List ℕ
  nic : List ℕ
  prepared : List Call
  /-- the mbufs that the NIC has taken, as they were then -/
  handed : List Mbuf

namespace Buffers

variable (B : Buffers)

def nBufs : ℕ := B.bufs.length

/-- `completion_dequeue`, which `rte_mempool_get_bulk` calls -/
def completionDequeue (n : ℕ) : Option (List ℕ × Buffers) :=
  if B.pool.length < n then none
  else some (B.pool.drop (B.pool.length - n), { B with pool := B.pool.take (B.pool.length - n) })

def prepare (mem : BitVec 64 → NetHdr) (buf : ℕ) (hdr : BitVec 64) (th : ℕ) (B : Buffers) : Buffers :=
  let c : Call := ⟨buf, B.mbuf buf, hdr, mem hdr, th⟩
  { B with mbuf := update B.mbuf buf (c.out P), prepared := B.prepared ++ [c] }

/-- The loop that fills in the metadata of the packets from an index on. -/
def prepareAll (mem : BitVec 64 → NetHdr) (b : Batch) : ℕ → List ℕ → Buffers → Buffers
  | _, [], B => B
  | i, buf :: bufs, B => prepareAll mem b (i + 1) bufs (B.prepare P mem buf (b.hdrs i) (b.threads i))

/-- The NIC takes the first mbufs, and the others move to the front. -/
def transmit (ret : ℕ) : Buffers :=
  { B with bufs := B.bufs.drop ret
           nic := B.nic ++ B.bufs.take ret
           handed := B.handed ++ (B.bufs.take ret).map B.mbuf }

/-- The NIC frees an mbuf: the part of `completion_enqueue` that concerns the pool. -/
def complete (buf : ℕ) : Buffers := { B with nic := B.nic.erase buf, pool := B.pool ++ [buf] }

end Buffers

/-! ## The system -/

structure Sys where
  polling : Polling
  nPkts : ℕ
  buffers : Buffers

/-- What a call of `tx_burst` finds in its uninitialised arrays and in the clients' memory, and how many packets the
NIC takes. -/
structure BurstEnv where
  hdrs : ℕ → BitVec 64
  threads : ℕ → ℕ
  mem : BitVec 64 → NetHdr
  accepted : ℕ

namespace Sys

/-- The first part of `tx_burst`: packets are pulled. -/
def pull (s : Sys) (env : BurstEnv) : Except Fault (Bool × Batch) :=
  Batch.pollAll P s.polling.ts.length 0 ⟨env.hdrs, env.threads, s.nPkts, s.polling⟩

/-- The second part: mbufs are prepared and handed to the NIC. -/
def send (B : Buffers) (b : Batch) (f : Polling) (env : BurstEnv) : Sys :=
  -- a call with nothing to ask for is no call
  match B.completionDequeue (b.nPkts - B.nBufs) with
  | none => ⟨f, b.nPkts, B⟩
  | some (got, B₁) =>
    let B₂ := B₁.prepareAll P env.mem b B₁.nBufs got
    let ret := min env.accepted b.nPkts
    ⟨f, b.nPkts - ret, { B₂ with bufs := B₂.bufs ++ got }.transmit ret⟩

def txBurst (s : Sys) (env : BurstEnv) : Except Fault (Bool × Sys) :=
  match s.pull P env with
  | .ok (full, b) =>
    if full then .ok (true, send P s.buffers b b.polling env)
    else if b.nPkts = 0 then .ok (false, ⟨b.polling, 0, s.buffers⟩)
    else .ok (true, send P s.buffers b { b.polling with pos := b.polling.pos + 1#32 } env)
  | .error d => .error d

end Sys

inductive Event
  | enqueue (t : ℕ) (m : Msg)
  | enable (t : ℕ)
  | disable (t : ℕ)
  | burst (env : BurstEnv)
  | complete (buf : ℕ)

def step (s : Sys) : Event → Except Fault Sys
  | .enqueue t m => .ok { s with polling := s.polling.enqueue t m }
  | .enable t => .ok { s with polling := s.polling.enable P t }
  | .disable t => .ok { s with polling := s.polling.disable P t }
  | .burst env => (s.txBurst P env).map Prod.snd
  | .complete buf =>
    if buf ∈ s.buffers.nic then .ok { s with buffers := s.buffers.complete buf } else .error .disabled

structure Init (s : Sys) : Prop where
  queued : s.polling.queued = s.polling.txpktq
  pulled : s.polling.pulled = []
  nPkts : s.nPkts = 0
  bufs : s.buffers.bufs = []
  pool : s.buffers.pool.Nodup
  nic : s.buffers.nic = []
  prepared : s.buffers.prepared = []
  handed : s.buffers.handed = []

end Aspen.Egress
