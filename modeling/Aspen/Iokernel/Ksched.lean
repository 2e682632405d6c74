import Aspen.Lib.Run

/-!
# The ksched mailbox

The iokernel places kthreads on a core through a page it shares with the ksched kernel module. `ksched_run`
stores a thread id and then a new generation; the core's idle loop or `ksched_park` finds the generation, starts
the thread and stores the generation back in `last_gen`. `ksched_enqueue_intr` stores a signal number and the
generation the signal is meant for, which `ksched_ipi` compares with the generation it serves.

This is the protocol of one core. An event is one access to a shared word; `ksched_idle` runs with interrupts
disabled, `ksched_park` does not, so that `ksched_ipi` may run between its accesses. Which task
`ksched_next_tid` wakes, whether a signal is pending and whether a task exits are inputs.
-/

namespace Aspen.Ksched

/-- A request: its generation and the thread it names, zero to idle the core. -/
abbrev Entry := BitVec 32 × ℕ

/-- `struct ksched_shm_cpu`, without the performance counter and the hint of the wait. -/
structure Shm where
  gen : BitVec 32
  tid : ℕ
  sig : BitVec 32
  signum : ℕ
  busy : Bool
  lastGen : BitVec 32

/-- `struct ksched_percpu`; the running task is known by its thread id. -/
structure Percpu where
  lastGen : BitVec 32
  busy : Bool
  runningTask : Option ℕ

inductive Intr
  | cede
  | yield

def Intr.signum : Intr → ℕ
  | .cede => 10
  | .yield => 12

inductive IokPc
  | out
  /-- in `ksched_run`, before the store to `gen` -/
  | storeGen
  /-- in `ksched_enqueue_intr`, before the store to `sig` -/
  | storeSig
  deriving DecidableEq

inductive Path
  | idle
  | park (current : ℕ)
  /-- `ksched_park`, once it has found that the request names its caller -/
  | self
  deriving DecidableEq

/-- Where the kernel is, outside interrupts. The generation of a request is an `unsigned long`. -/
inductive Pc
  | out
  /-- `ksched_idle`, before it marks the core idle -/
  | idleMark
  /-- `ksched_mwait_on_addr`, before its load number `n` -/
  | idleWait (n : ℕ)
  /-- `ksched_park`, before `signal_pending` -/
  | parkSignal (current : ℕ)
  /-- `ksched_park`, before it loads the generation -/
  | parkLoad (current : ℕ)
  /-- `ksched_park`, before it marks the core idle -/
  | parkIdle
  /-- `ksched_park`, before it releases its caller -/
  | parkRelease
  | readTid (gen : BitVec 64) (path : Path)
  | setLastGen (gen : BitVec 64) (tid : ℕ) (path : Path)
  /-- `ksched_next_tid`, before it releases the previous task -/
  | nextTid (gen : BitVec 64) (tid : ℕ) (path : Path)
  /-- `ksched_next_tid`, before it looks up and wakes the task -/
  | wakeUp (gen : BitVec 64) (tid : ℕ) (path : Path)
  | setShmBusy (gen : BitVec 64) (path : Path)
  | setBusy (gen : BitVec 64) (path : Path)
  | report (gen : BitVec 64) (path : Path)
  deriving DecidableEq

inductive IpiPc
  | out
  /-- the signal is for the generation served -/
  | deliver
  | clear
  deriving DecidableEq

/-! ## The history

Generations repeat, so that a request is told from another by the list of requests up to it, newest first.
-/

structure Delivery where
  signum : ℕ
  task : ℕ
  /-- the requests up to the one that `signum` was stored for -/
  signumFor : List Entry
  /-- the requests up to the one that `sig` was stored for -/
  sigFor : List Entry
  /-- the requests up to the one that the task was started for -/
  startedFor : List Entry
  deriving DecidableEq

def Delivery.Right (d : Delivery) : Prop :=
  d.signumFor = d.startedFor ∧ d.sigFor = d.startedFor ∧
    ∃ g, d.startedFor.head? = some (g, d.task)

structure Hist where
  issued : List Entry
  /-- requests found by the kernel, with the thread id it read -/
  taken : List Entry
  /-- requests whose thread was passed to `ksched_next_tid` or recognised as the current one -/
  handed : List Entry
  reported : List (BitVec 32)
  signumFor : List Entry
  sigFor : List Entry
  startedFor : List Entry
  delivered : List Delivery

structure Sys where
  gens : BitVec 32
  iok : IokPc
  shm : Shm
  kp : Percpu
  pc : Pc
  ipi : IpiPc
  hist : Hist

inductive Event
  | run (tid : ℕ)
  | enqueueIntr (type : Intr)
  | store
  /-- the core enters `ksched_idle`; the flag says whether the running task is exiting -/
  | idle (exiting : Bool)
  | park (current : ℕ)
  /-- the kernel's next access; the flag is the input, if it needs one -/
  | kernel (flag : Bool)
  /-- an interrupt calls `ksched_ipi` -/
  | ipi
  | handler

inductive Stop
  | blocked

namespace Sys

variable (s : Sys)

/-! ## The iokernel -/

def pollRunDone : Bool := s.shm.lastGen == s.gens

variable (gen : BitVec 64) (current tid : ℕ) (path : Path)

/-- `ksched_run`, up to the store to `tid` -/
def run : Sys :=
  { s with
    gens := s.gens + 1#32
    shm.tid := tid
    iok := .storeGen
    hist.issued := (s.gens + 1#32, tid) :: s.hist.issued }

/-- `ksched_enqueue_intr`, up to the store to `signum` -/
def enqueueIntr (type : Intr) : Sys :=
  { s with
    shm.signum := type.signum
    iok := .storeSig
    hist.signumFor := s.hist.issued }

/-- The releasing store that ends `ksched_run` and `ksched_enqueue_intr`. -/
def store : Except Stop Sys :=
  match s.iok with
  | .out => .error .blocked
  | .storeGen => .ok { s with shm.gen := s.gens, iok := .out }
  | .storeSig => .ok { s with shm.sig := s.gens, iok := .out, hist.sigFor := s.hist.issued }

/-! ## The idle loop -/

/-- `ksched_idle`, up to its first access. With a live task it only waits, and returns. -/
def idle (exiting : Bool) : Sys :=
  if s.kp.runningTask.isSome && !exiting then s
  else { s with kp.runningTask := none, kp.busy := false, pc := .idleMark }

/-- `ksched_idle` once the wait has returned. The `int` of `ksched_mwait_on_addr` is extended with its sign to an
`unsigned long`. -/
def idleFound (cur : BitVec 32) : Pc :=
  let gen := cur.signExtend 64
  if gen = s.kp.lastGen.setWidth 64 then .out else .readTid gen .idle

/-- A load of `ksched_mwait_on_addr`: the first two return only a value other than the given one. -/
def mwaitOnAddr (n : ℕ) : Pc :=
  if s.shm.gen = s.kp.lastGen ∧ n < 2 then .idleWait (n + 1) else s.idleFound s.shm.gen

/-! ## Parking -/

def park : Sys := { s with kp.busy := false, pc := .parkSignal current }

def parkFound : Pc :=
  let gen := s.shm.gen.setWidth 64
  if gen = s.kp.lastGen.setWidth 64 then .parkIdle else .readTid gen (.park current)

/-! ## Serving a request -/

/-- The request is taken: `p->last_gen` is set and, in `ksched_park`, the thread compared with the
caller. -/
def take : Sys :=
  let e : Entry := (gen.setWidth 32, tid)
  let s := { s with kp.lastGen := e.1, hist.taken := e :: s.hist.taken }
  if path = .park tid then
    { s with
      pc := .setShmBusy gen .self
      hist.handed := e :: s.hist.handed
      hist.startedFor :=
        if s.kp.runningTask = some tid then e :: s.hist.handed else s.hist.startedFor }
  else { s with pc := .nextTid gen tid path }

def nextTid : Sys :=
  { s with
    kp.runningTask := none
    pc := if tid = 0 then .setShmBusy gen path else .wakeUp gen tid path
    hist.handed := (gen.setWidth 32, tid) :: s.hist.handed }

/-- The rest of `ksched_next_tid`; the flag says whether the task is found, parked and can be moved. -/
def wakeUp (flag : Bool) : Sys :=
  { s with
    kp.runningTask := if flag then some tid else none
    pc := .setShmBusy gen path
    hist.startedFor := if flag then s.hist.handed else s.hist.startedFor }

def shmBusy : Path → Bool
  | .self => true
  | _ => s.kp.runningTask.isSome

def busy : Path → Bool
  | .park _ => s.kp.runningTask.isSome
  | _ => true

def kernel (flag : Bool) : Except Stop Sys :=
  match s.pc with
  | .out => .error .blocked
  | .idleMark =>
    .ok { s with
      shm.busy := if s.shm.busy ∧ s.shm.gen = s.kp.lastGen then false else s.shm.busy
      pc := .idleWait 0 }
  | .idleWait n => .ok { s with pc := s.mwaitOnAddr n }
  | .parkSignal current =>
    if flag then .ok { s with kp.busy := true, pc := .out }
    else .ok { s with pc := .parkLoad current }
  | .parkLoad current => .ok { s with pc := s.parkFound current }
  | .parkIdle => .ok { s with shm.busy := false, pc := .parkRelease }
  | .parkRelease => .ok { s with kp.runningTask := none, pc := .out }
  | .readTid gen path => .ok { s with pc := .setLastGen gen s.shm.tid path }
  | .setLastGen gen tid path => .ok (s.take gen tid path)
  | .nextTid gen tid path => .ok (s.nextTid gen tid path)
  | .wakeUp gen tid path => .ok (s.wakeUp gen tid path flag)
  | .setShmBusy gen path => .ok { s with shm.busy := s.shmBusy path, pc := .setBusy gen path }
  | .setBusy gen path => .ok { s with kp.busy := s.busy path, pc := .report gen path }
  | .report gen _ =>
    .ok { s with
      shm.lastGen := gen.setWidth 32
      pc := .out
      hist.reported := gen.setWidth 32 :: s.hist.reported }

/-! ## The interrupt -/

/-- `ksched_idle` runs with interrupts disabled. -/
def irqsOff : Bool :=
  match s.pc with
  | .idleMark | .idleWait _ | .readTid _ .idle | .setLastGen _ _ .idle | .nextTid _ _ .idle
  | .wakeUp _ _ .idle | .setShmBusy _ .idle | .setBusy _ .idle | .report _ .idle => true
  | _ => false

/-- `ksched_deliver_signal`: the signals sent, with the new one -/
def deliverSignal (signum : ℕ) : List Delivery :=
  match s.kp.busy, s.kp.runningTask with
  | true, some task =>
    ⟨signum, task, s.hist.signumFor, s.hist.sigFor, s.hist.startedFor⟩ :: s.hist.delivered
  | _, _ => s.hist.delivered

/-- `ksched_ipi`, up to the comparison -/
def interrupt : Sys := { s with ipi := if s.shm.sig = s.kp.lastGen then .deliver else .out }

def handler : Except Stop Sys :=
  match s.ipi with
  | .out => .error .blocked
  | .deliver => .ok { s with hist.delivered := s.deliverSignal s.shm.signum, ipi := .clear }
  | .clear => .ok { s with shm.sig := 0#32, ipi := .out }

end Sys

/-! ## The system -/

/-- `ksched_run` is called only when the previous run was reported. An interrupt handler runs to its end
before the code below it goes on. -/
def step (s : Sys) : Event → Except Stop Sys
  | .run tid => if s.iok = .out ∧ s.pollRunDone then .ok (s.run tid) else .error .blocked
  | .enqueueIntr type => if s.iok = .out then .ok (s.enqueueIntr type) else .error .blocked
  | .store => s.store
  | .idle exiting =>
    if s.pc = .out ∧ s.ipi = .out then .ok (s.idle exiting) else .error .blocked
  | .park current =>
    if s.pc = .out ∧ s.ipi = .out then .ok (s.park current) else .error .blocked
  | .kernel flag => if s.ipi = .out then s.kernel flag else .error .blocked
  | .ipi => if s.ipi = .out ∧ !s.irqsOff then .ok s.interrupt else .error .blocked
  | .handler => s.handler

def Hist.empty : Hist := ⟨[], [], [], [], [], [], [], []⟩

/-- The core is idle and the generation is `g`, which `ksched_init` takes from `last_gen`. -/
def Sys.init (g : BitVec 32) : Sys :=
  { gens := g
    iok := .out
    shm := ⟨g, 0, 0#32, 0, false, g⟩
    kp := ⟨g, false, none⟩
    pc := .out
    ipi := .out
    hist := .empty }

def Initial (s : Sys) : Prop := ∃ g, s = .init g

end Aspen.Ksched
