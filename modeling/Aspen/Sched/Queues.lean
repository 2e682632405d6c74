import Aspen.Lib.Deques
import Aspen.Lib.Run
import Aspen.Sched.RunQueue

/-!
# Kthreads and their run queues

Any number of kthreads work on their own run queues and steal from each other's. What a kthread does under its
lock is one step. Two things are not: `thread_ready` appends to the ring without the lock, and a thief that
drains a queue reads the ring while its owner may be appending to it. Both are cut into the loads and stores
that the other side can see.
-/

namespace Aspen.Sched

open Run Function

/-- The lock of a kthread: held by the kthread itself, or by a thief, with the locals of its
`drain_threads` once that has loaded the indices. -/
inductive Lock (K θ : Type*)
  | free
  | own
  | thief (l : K) (d : Option (Drain θ))

inductive Pc (K θ : Type*)
  | idle
  /-- `thread_ready` has found room in the ring -/
  | pushing (th : θ)
  /-- `thread_ready` has found none, and waits for the lock -/
  | spilling (th : θ)
  /-- `thread_ready_head` waits for the lock -/
  | heading (th : θ)
  /-- the thread is in the queue, and `q_ptrs->rq_head` is to be incremented -/
  | counting
  /-- `merge_runqueues` holds the lock of `r` and drains it -/
  | stealing (r : K) (lsize nr : BitVec 32)
  /-- `merge_runqueues` has dropped the lock of its victim -/
  | merging (stolen : List θ) (lsize : BitVec 32)
  /-- the scheduler has popped a thread and will run it -/
  | popped (th : θ)
deriving DecidableEq

structure Kthread (K θ : Type*) where
  q : RunQueue θ
  lock : Lock K θ
  pc : Pc K θ

structure Sys (K θ : Type*) where
  ks : K → Kthread K θ
  ready : θ → Bool
  /-- `ready_tsc` of every thread -/
  tsc : θ → BitVec 64

inductive Event (K θ : Type*)
  /-- a kthread takes its own lock (`enter_schedule`, `schedule`, `softirq_run`) -/
  | lock (k : K)
  | unlock (k : K)
  /-- `thread_ready` up to its test -/
  | ready (k : K) (th : θ) (now : BitVec 64)
  /-- the store to the ring and the store to `rq_head` -/
  | publish (k : K)
  /-- the critical section of `thread_ready` -/
  | spill (k : K)
  | count (k : K)
  /-- `thread_ready_head` in front of the lock -/
  | readyHead (k : K) (th : θ) (now : BitVec 64)
  | head (k : K)
  | readyLocked (k : K) (th : θ) (now : BitVec 64)
  | readyHeadLocked (k : K) (th : θ) (now : BitVec 64)
  | drainOverflow (k : K)
  /-- `schedule` or `enter_schedule` pops a thread and drops the lock -/
  | pop (k : K)
  | run (k : K)
  /-- `steal_work` locks its victim and compares the sizes -/
  | steal (l r : K)
  /-- `drain_threads` loads the indices of the victim -/
  | load (l : K)
  /-- a round of its loop, or the stores behind it -/
  | take (l : K)
  | merge (l : K)

inductive Stop
  | disabled
  | readyTwice
  /-- a slot of the ring was overwritten -/
  | overrun

variable {K θ : Type*}

/-! ## One kthread -/

namespace Kthread

variable (k : Kthread K θ)

def queue : List θ :=
  match k.lock with
  | .thief _ (some d) => d.view k.q
  | _ => k.q.toList

def hand : List θ :=
  match k.pc with
  | .merging stolen _ => stolen
  | _ => []

def pending : Multiset θ :=
  match k.pc with
  | .pushing th | .spilling th | .heading th | .popped th => {th}
  | _ => 0

end Kthread

/-- What `thread_ready` finds: room in the ring behind an empty overflow list, or none. -/
def RunQueue.test {θ : Type*} (K : Type*) (q : RunQueue θ) (th : θ) : Pc K θ :=
  if q.rq.length < rqSize ∧ q.overflow.isEmpty then .pushing th else .spilling th

def numToSteal (lsize rsize : BitVec 32) : BitVec 32 :=
  if lsize < rsize then
    let half := (rsize - lsize + 2 - 1) / 2
    if half < 32 then half else 32
  else 0

/-- The next round of a thief that wants `nr` threads; `none` when its loop has ended. -/
def Drain.round {θ : Type*} (d : Drain θ) (nr : BitVec 32) (q : RunQueue θ) : Option (Drain θ × RunQueue θ) :=
  if d.l.length < nr.toNat then d.next q else none

variable [DecidableEq K] [DecidableEq θ]

/-! ## Steps -/

variable (s : Sys K θ)

def Sys.set (k : K) (v : Kthread K θ) : Sys K θ := { s with ks := update s.ks k v }

def threadReadyPrepare (th : θ) (now : BitVec 64) : Except Stop (Sys K θ) := if s.ready th then .error .readyTwice
  else .ok { s with ready := update s.ready th true, tsc := update s.tsc th now }

/-- A thread at the head is as old as the one it overtakes. -/
def headTsc (q : RunQueue θ) (th : θ) : θ → BitVec 64 :=
  if q.rq.length = 0 then s.tsc else update s.tsc th (s.tsc q.rq.front)

def step : Event K θ → Except Stop (Sys K θ)
  | .lock k =>
    match (s.ks k).lock, (s.ks k).pc with
    | .free, .idle => .ok (s.set k { s.ks k with lock := .own })
    | _, _ => .error .disabled
  | .unlock k =>
    match (s.ks k).lock, (s.ks k).pc with
    | .own, .idle => .ok (s.set k { s.ks k with lock := .free })
    | _, _ => .error .disabled
  | .ready k th now =>
    match (s.ks k).lock, (s.ks k).pc with
    | .own, _ => .error .disabled
    | _, .idle => do
        let s ← threadReadyPrepare s th now
        return s.set k { s.ks k with pc := (s.ks k).q.test K th }
    | _, _ => .error .disabled
  | .publish k =>
    match (s.ks k).pc with
    | .pushing th =>
      let q := (s.ks k).q
      if h : q.rq.length < rqSize then
        .ok (s.set k { s.ks k with q := { q with rq := q.rq.push th h }, pc := .counting })
      else .error .overrun
    | _ => .error .disabled
  | .spill k =>
    match (s.ks k).lock, (s.ks k).pc with
    | .free, .spilling th =>
      .ok (s.set k { s.ks k with q := (s.ks k).q.threadReadyOverflow th, pc := .counting })
    | _, _ => .error .disabled
  | .count k =>
    match (s.ks k).pc with
    | .counting =>
      let q := (s.ks k).q
      .ok (s.set k { s.ks k with q := { q with qHead := q.qHead + 1 }, pc := .idle })
    | _ => .error .disabled
  | .readyHead k th now =>
    match (s.ks k).lock, (s.ks k).pc with
    | .own, _ => .error .disabled
    | _, .idle => do
        let s ← threadReadyPrepare s th now
        return s.set k { s.ks k with pc := .heading th }
    | _, _ => .error .disabled
  | .head k =>
    match (s.ks k).lock, (s.ks k).pc with
    | .free, .heading th =>
      let q := (s.ks k).q
      .ok ({ s with tsc := headTsc s q th }.set k
        { s.ks k with q := q.threadReadyHead th, pc := .counting })
    | _, _ => .error .disabled
  | .readyLocked k th now =>
    match (s.ks k).lock, (s.ks k).pc with
    | .own, .idle => do
        let s ← threadReadyPrepare s th now
        return s.set k { s.ks k with q := (s.ks k).q.threadReadyLocked th }
    | _, _ => .error .disabled
  | .readyHeadLocked k th now =>
    match (s.ks k).lock, (s.ks k).pc with
    | .own, .idle => do
        let s ← threadReadyPrepare s th now
        let q := (s.ks k).q
        return { s with tsc := headTsc s q th }.set k
          { s.ks k with q := q.threadReadyHeadLocked th }
    | _, _ => .error .disabled
  | .drainOverflow k =>
    match (s.ks k).lock, (s.ks k).pc with
    | .own, .idle => .ok (s.set k { s.ks k with q := (s.ks k).q.drainOverflow })
    | _, _ => .error .disabled
  | .pop k =>
    match (s.ks k).lock, (s.ks k).pc with
    | .own, .idle =>
      if h : (s.ks k).q.rq.length ≠ 0 then
        let (th, q) := (s.ks k).q.pop h
        .ok (s.set k { q := q, lock := .free, pc := .popped th })
      else .error .disabled
    | _, _ => .error .disabled
  | .run k =>
    match (s.ks k).pc with
    | .popped th =>
      .ok ({ s with ready := update s.ready th false }.set k { s.ks k with pc := .idle })
    | _ => .error .disabled
  | .steal l r =>
    match (s.ks l).lock, (s.ks l).pc, (s.ks r).lock with
    | .own, .idle, .free =>
      let lsize := (s.ks l).q.count
      let nr := numToSteal lsize (s.ks r).q.count
      if nr = 0 then .ok s
      else
        .ok ((s.set r { s.ks r with lock := .thief l none }).set l
          { s.ks l with pc := .stealing r lsize nr })
    | _, _, _ => .error .disabled
  | .load l =>
    match (s.ks l).pc with
    | .stealing r _ _ =>
      match (s.ks r).lock with
      | .thief l' none =>
        if l' = l then
          .ok (s.set r { s.ks r with lock := .thief l (some (s.ks r).q.drain) })
        else .error .disabled
      | _ => .error .disabled
    | _ => .error .disabled
  | .take l =>
    match (s.ks l).pc with
    | .stealing r lsize nr =>
      match (s.ks r).lock with
      | .thief l' (some d) =>
        if l' = l then
          match d.round nr (s.ks r).q with
          | some (d, q) => .ok (s.set r { s.ks r with q := q, lock := .thief l (some d) })
          | none =>
            let q := (s.ks r).q
            if h : (q.rq.head - d.tail).toNat ≤ rqSize then
              let q := { q with
                rq := { q.rq with tail := d.tail, len_le := h }
                qTail := q.qTail + BitVec.ofNat 32 d.l.length }
              .ok ((s.set r { s.ks r with q := q, lock := .free }).set l
                { s.ks l with pc := .merging d.l lsize })
            else .error .overrun
        else .error .disabled
      | _ => .error .disabled
    | _ => .error .disabled
  | .merge l =>
    match (s.ks l).pc with
    | .merging stolen lsize =>
      .ok (s.set l { s.ks l with
        q := (s.ks l).q.mergeRunqueues s.tsc stolen lsize.toNat, pc := .idle })
    | _ => .error .disabled

structure Initial (s : Sys K θ) : Prop where
  lock : ∀ k, (s.ks k).lock = .free
  pc : ∀ k, (s.ks k).pc = .idle
  rq : ∀ k, (s.ks k).q.rq.head = (s.ks k).q.rq.tail
  overflow : ∀ k, (s.ks k).q.overflow = []
  ptrs : ∀ k, (s.ks k).q.qHead = (s.ks k).q.qTail
  ready : ∀ th, s.ready th = false

/-! ## What the queues stand for -/

def Sys.abs : Deques K θ where
  queue k := (s.ks k).queue
  hand k := (s.ks k).hand

def Sys.op : Event K θ → DequeOp K θ
  | .publish k | .spill k =>
    match (s.ks k).pc with
    | .pushing th | .spilling th => .append k th
    | _ => .idle
  | .head k =>
    match (s.ks k).pc with
    | .heading th => .prepend k th
    | _ => .idle
  | .readyLocked k th _ => .append k th
  | .readyHeadLocked k th _ => .prepend k th
  | .pop k => .pop k (s.ks k).q.rq.front
  | .take l =>
    match (s.ks l).pc with
    | .stealing r _ nr =>
      match (s.ks r).lock with
      | .thief _ (some d) =>
        match d.round nr (s.ks r).q with
        | some _ => .idle
        | none => .steal l r d.l.length
      | _ => .idle
    | _ => .idle
  | .merge l => .merge l
  | _ => .idle

end Aspen.Sched
