import Mathlib.Data.List.FinRange
import Aspen.Lib.Run

/-!
# Transmit completions

When the NIC has sent a packet, its mbuf goes back to the pool, and the runtime whose packet it was is told so:
`tx_send_completion` puts the tag of the packet into the receive queue of one of the runtime's threads. If there
is no room it goes to the overflow queue of the process, from where `tx_drain_completions` sends it later. Each
mbuf that is prepared for a packet has a reference on the process, which its completion gives back.
-/

namespace Aspen.Completions

/-- What sending a message reads of the scheduler's state of a process with `n` threads. -/
structure Sched (n : ℕ) where
  active : Fin n → Bool
  flowTbl : Fin n → Fin n
  idleTop : Fin n

def Sched.threadsActive {n : ℕ} (c : Sched n) : Bool := (List.finRange n).any c.active

structure Proc where
  threadCount : ℕ
  pos : 0 < threadCount
  sched : Sched threadCount
  kill : Bool
  ref : ℕ
  maxOverflows : ℕ
  /-- the first `nr_overflows` entries of `overflow_queue`, the last one first -/
  overflowQueue : List (BitVec 64)
  nextThreadRr : BitVec 32
  /-- the references that are neither the client's nor those of mbufs -/
  others : ℕ
  /-- the tags of the packets that were sent while the client was there -/
  completed : List (BitVec 64)
  /-- the tags that were put into receive queues, and of which threads -/
  delivered : List (Fin threadCount × BitVec 64)

structure Priv where
  p : ℕ
  th : ℕ
  completionData : BitVec 64

inductive Fault
  /-- a process that was freed, or a thread that it does not have, is used -/
  | wild
  | noBufs
  | disabled

structure Try where
  room : Bool
  addCore : (n : ℕ) → Sched n → Sched n

def overflowBatchDrain : ℕ := 64

namespace Proc

def lrpcSend (P : Proc) (th : Fin P.threadCount) (room : Bool) (payload : BitVec 64) : Bool × Proc :=
  if room then (true, { P with delivered := P.delivered ++ [(th, payload)] }) else (false, P)

def rxSendToRuntime (P : Proc) (hash : BitVec 32) (t : Try) (payload : BitVec 64) : Bool × Proc :=
  let i : Fin P.threadCount := ⟨hash.toNat % P.threadCount, Nat.mod_lt _ P.pos⟩
  if P.sched.threadsActive then P.lrpcSend (P.sched.flowTbl i) t.room payload
  else
    let c := t.addCore P.threadCount P.sched
    lrpcSend { P with sched := c } (if c.threadsActive then c.flowTbl i else c.idleTop) t.room payload

def sendRr (P : Proc) (t : Try) (payload : BitVec 64) : Bool × Proc :=
  rxSendToRuntime { P with nextThreadRr := P.nextThreadRr + 1#32 } P.nextThreadRr t payload

/-- `proc_put`; a process without references is freed -/
def put (P : Proc) : Option Proc := if P.ref ≤ 1 then none else some { P with ref := P.ref - 1 }

/-- `drain_overflow_queue`; the attempts it has not made are left for the next process -/
def drainOverflowQueue : ℕ → (ℕ → Try) → Proc → ℕ × (ℕ → Try) × Proc
  | 0, ts, P => (0, ts, P)
  | n + 1, ts, P =>
    match P.overflowQueue with
    | [] => (0, ts, P)
    | d :: q =>
      match sendRr { P with overflowQueue := q } (ts 0) d with
      | (true, P') =>
        let x := drainOverflowQueue n (ts ∘ Nat.succ) P'
        (x.1 + 1, x.2)
      | (false, P') => (0, ts ∘ Nat.succ, { P' with overflowQueue := d :: q })

end Proc

structure Sys where
  procs : ℕ → Option Proc
  overflowProcs : List ℕ
  /-- the private data of each mbuf; none is the null pointer for a process -/
  priv : ℕ → Option Priv
  out : List ℕ
  pool : List ℕ
  size : ℕ

namespace Sys

variable (s : Sys)

def store (p : ℕ) (P : Option Proc) : Sys := { s with procs := Function.update s.procs p P }

/-- The first part of `tx_send_completion`: one attempt. -/
def offer (P : Proc) (th : Fin P.threadCount) (t : Try) (payload : BitVec 64) : Bool × Proc :=
  if P.sched.active th then P.lrpcSend th t.room payload else P.sendRr t payload

/-- `tx_send_completion`, for an mbuf that has a process -/
def txSendCompletion (v : Priv) (t : Try) : Except Fault (Bool × Sys) :=
  match s.procs v.p with
  | none => .error .wild
  | some P =>
    if P.kill then .ok (true, s.store v.p P.put)
    else if h : v.th < P.threadCount then
      match offer { P with completed := P.completed ++ [v.completionData] } ⟨v.th, h⟩ t
          v.completionData with
      | (true, P') => .ok (true, s.store v.p P'.put)
      | (false, P') =>
        if P'.overflowQueue.length = P'.maxOverflows then .ok (false, s.store v.p (some P'))
        else
          let s' := if P'.overflowQueue = [] then { s with overflowProcs := v.p :: s.overflowProcs }
            else s
          let P'' := { P' with overflowQueue := v.completionData :: P'.overflowQueue }
          .ok (true, s'.store v.p P''.put)
    else .error .wild

/-- `completion_enqueue`, of one mbuf; the answer of `tx_send_completion` is not looked at -/
def completionEnqueue (buf : ℕ) (t : Try) : Except Fault Sys := if s.size < s.pool.length + 1 then .error .noBufs
  else
    match s.priv buf with
    | none => .ok { s with out := s.out.erase buf, pool := s.pool ++ [buf] }
    | some v =>
      match s.txSendCompletion v t with
      | .ok (_, s') => .ok { s' with out := s'.out.erase buf, pool := s'.pool ++ [buf] }
      | .error d => .error d

/-- The loop of `tx_drain_completions`: the list, which loses its first process in each round, the processes that are
done with, the completions sent, the processes, and the attempts that are left. -/
def drainAll : List ℕ → List ℕ → ℕ → (ℕ → Try) → (ℕ → Option Proc) → Except Fault (List ℕ × (ℕ → Option Proc))
  | [], done, _, _, procs => .ok (done, procs)
  | p :: l, done, drained, ts, procs =>
    match procs p with
    | none => .error .wild
    | some P =>
      let x := P.drainOverflowQueue (overflowBatchDrain - drained) ts
      let done' := if x.2.2.overflowQueue = [] then done else done ++ [p]
      let procs' := Function.update procs p (some x.2.2)
      if overflowBatchDrain ≤ drained + x.1 then .ok (l ++ done', procs')
      else drainAll l done' (drained + x.1) x.2.1 procs'

def txDrainCompletions (ts : ℕ → Try) : Except Fault Sys :=
  match drainAll s.overflowProcs [] 0 ts s.procs with
  | .ok (l, procs) => .ok { s with overflowProcs := l, procs := procs }
  | .error d => .error d

/-- The part of `dp_clients_remove_client` that concerns completions. -/
def removeClient (p : ℕ) : Sys :=
  match s.procs p with
  | none => s
  | some P =>
    if P.kill then s
    else
      let s' := if P.overflowQueue = [] then s else { s with overflowProcs := s.overflowProcs.erase p }
      s'.store p { P with kill := true }.put

end Sys

inductive Event
  /-- a client is added, in memory that is not in use -/
  | add (p threadCount : ℕ) (pos : 0 < threadCount) (sched : Sched threadCount) (maxOverflows : ℕ)
  | remove (p : ℕ)
  | prepare (buf : ℕ) (v : Priv)
  | complete (buf : ℕ) (t : Try)
  | drain (ts : ℕ → Try)
  | get (p : ℕ)
  | put (p : ℕ)
  | schedule (p : ℕ) (f : (n : ℕ) → Sched n → Sched n)

def onProc (s : Sys) (p : ℕ) (f : Proc → Except Fault Sys) : Except Fault Sys :=
  match s.procs p with
  | none => .error .disabled
  | some P => f P

open Sys in
def step (s : Sys) : Event → Except Fault Sys
  | .add p n pos sched maxOverflows =>
    if s.procs p = none then
      .ok (s.store p (some ⟨n, pos, sched, false, 1, maxOverflows, [], 0#32, 0, [], []⟩))
    else .error .disabled
  | .remove p => .ok (s.removeClient p)
  | .prepare buf v =>
    onProc s v.p fun P =>
      if buf ∈ s.pool ∧ v.th < P.threadCount then
        .ok { s.store v.p (some { P with ref := P.ref + 1 }) with
          priv := Function.update s.priv buf (some v), out := s.out ++ [buf], pool := s.pool.erase buf }
      else .error .disabled
  | .complete buf t => if buf ∈ s.out then s.completionEnqueue buf t else .error .disabled
  | .drain ts => s.txDrainCompletions ts
  | .get p => onProc s p fun P => .ok (s.store p (some { P with ref := P.ref + 1, others := P.others + 1 }))
  | .put p =>
    onProc s p fun P =>
      if 0 < P.others then .ok (s.store p { P with others := P.others - 1 }.put) else .error .disabled
  | .schedule p f => onProc s p fun P => .ok (s.store p (some { P with sched := f _ P.sched }))

structure Init (s : Sys) : Prop where
  procs : ∀ p, s.procs p = none
  overflowProcs : s.overflowProcs = []
  priv : ∀ buf, s.priv buf = none
  out : s.out.Nodup
  pool : s.pool = []
  size : s.out.length = s.size

end Aspen.Completions
