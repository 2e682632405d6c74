import Aspen.Sched.Preempt

/-!
# Thread creation

`__thread_create` takes a thread and a stack from the caches of the kthread with preemption disabled, and
gives the thread back if there is no stack for it. `thread_create_with_buf` disables preemption once more
around that call, and returns without enabling it if the call fails.
-/

namespace Aspen.Sched.Create

open Preempt

abbrev Addr := BitVec 64

structure ThreadTf where
  rsp : Addr
  rdi : Addr
  rbp : Addr
  rip : Addr

structure Thread where
  addr : Addr
  tf : ThreadTf
  stack : Addr
  mainThread : Bool
  threadReady : Bool
  threadRunning : Bool
  lastCpu : ℕ
  tlsvar : Addr

structure Sys where
  counts : Counts
  heldThreads : List Addr
  heldStacks : List Addr
  ready : List Thread

/-- What `tcache_alloc` returns, a thread with whatever was left in it. -/
structure Env where
  thread : Option Thread
  stack : Option Addr
  currCpu : ℕ

variable (env : Env) (s : Sys)

def preemptDisable : Sys := { s with counts := s.counts.incr }

def preemptEnable : Sys := { s with counts := s.counts.decr }

def stackPtrSize : ℕ := 256 * 1024 / 8

def stackInitToRsp (s : Addr) : Addr := s + BitVec.ofNat 64 (8 * (stackPtrSize - 1))

/-- The stack pointer and the buffer above it. -/
def stackInitToRspWithBuf (s bufLen : Addr) : Addr × Addr :=
  let pos := BitVec.ofNat 64 stackPtrSize - (bufLen + 7) / 8
  let pos := pos &&& ~~~1
  (s + 8 * (pos - 1), s + 8 * pos)

def threadCreate' : Option Thread × Sys := let s := preemptDisable s
  match env.thread with
  | none => (none, preemptEnable s)
  | some th =>
    let s := { s with heldThreads := th.addr :: s.heldThreads }
    match env.stack with
    | none => (none, preemptEnable { s with heldThreads := s.heldThreads.erase th.addr })
    | some stk =>
      let th := { th with lastCpu := env.currCpu }
      (some { th with stack := stk, mainThread := false, threadReady := false, threadRunning := false, tlsvar := 0 },
        preemptEnable { s with heldStacks := stk :: s.heldStacks })

def threadCreate (fn arg : Addr) (env : Env) (s : Sys) : Option Thread × Sys :=
  match threadCreate' env s with
  | (none, s) => (none, s)
  | (some th, s) => (some { th with tf := ⟨stackInitToRsp th.stack, arg, 0, fn⟩ }, s)

def threadCreateWithBuf (fn bufLen : Addr) (env : Env) (s : Sys) : Option (Thread × Addr) × Sys :=
  match threadCreate' env (preemptDisable s) with
  | (none, s) => (none, s)
  | (some th, s) =>
    let (rsp, buf) := stackInitToRspWithBuf th.stack bufLen
    (some ({ th with tf := ⟨rsp, buf, 0, fn⟩ }, buf), preemptEnable s)

/-- `thread_ready`, which is in `Sched/Queues`; here only that it holds the kthread meanwhile -/
def threadReady (th : Thread) (s : Sys) : Sys := let s := preemptDisable s
  preemptEnable { s with ready := s.ready ++ [{ th with threadReady := true }] }

/-- `thread_spawn`; `false` is -ENOMEM. -/
def threadSpawn (fn arg : Addr) (env : Env) (s : Sys) : Bool × Sys :=
  match threadCreate fn arg env s with
  | (none, s) => (false, s)
  | (some th, s) => (true, threadReady th s)

inductive Call where
  | threadCreate (fn arg : Addr)
  | threadCreateWithBuf (fn bufLen : Addr)
  | threadSpawn (fn arg : Addr)

def Call.run : Call → Bool × Sys
  | .threadCreate fn arg => ((Create.threadCreate fn arg env s).1.isSome, (Create.threadCreate fn arg env s).2)
  | .threadCreateWithBuf fn len =>
    ((Create.threadCreateWithBuf fn len env s).1.isSome, (Create.threadCreateWithBuf fn len env s).2)
  | .threadSpawn fn arg => Create.threadSpawn fn arg env s

@[simp] lemma decr_incr (c : Counts) : c.incr.decr = c := by
  rw [Counts.incr, Counts.decr, BitVec.add_sub_cancel]

/-- Both allocations succeed, or nothing is left of the call. -/
lemma threadCreate'_cases : threadCreate' env s = (none, s) ∧ (env.thread = none ∨ env.stack = none) ∨
    (env.thread ≠ none ∧ env.stack ≠ none) ∧ ∃ th, threadCreate' env s =
      (some th, { s with heldThreads := th.addr :: s.heldThreads, heldStacks := th.stack :: s.heldStacks }) := by
  unfold threadCreate'
  cases hth : env.thread with
  | none => exact .inl ⟨by simp [preemptEnable, preemptDisable], .inl rfl⟩
  | some th =>
    cases hstk : env.stack with
    | none => exact .inl ⟨by simp [preemptEnable, preemptDisable], .inr rfl⟩
    | some stk => exact .inr ⟨⟨nofun, nofun⟩, _, Prod.ext rfl (by simp [preemptEnable, preemptDisable])⟩

lemma depth_incr_ne (c : Counts) : c.incr.depth ≠ c.depth := by
  simp only [Counts.depth, Counts.incr, depth_eq, BitVec.toNat_add, BitVec.toNat_ofNat]
  omega

/-- A creation that fails leaves no thread and no stack behind. One leaves the preemption depth as it was just if it is
not one with a buffer that fails. -/
theorem creation_balanced (call : Call) (env : Env) (s : Sys) :
    ((call.run env s).1 = false →
      (call.run env s).2.heldThreads = s.heldThreads ∧ (call.run env s).2.heldStacks = s.heldStacks) ∧
    ((call.run env s).2.counts.depth = s.counts.depth ↔
      ∀ fn len, call = .threadCreateWithBuf fn len → env.thread ≠ none ∧ env.stack ≠ none) := by
  cases call with
  | threadCreate fn arg =>
    obtain ⟨he, -⟩ | ⟨-, th, he⟩ := threadCreate'_cases env s <;> simp [Call.run, Create.threadCreate, he]
  | threadCreateWithBuf fn len =>
    obtain ⟨he, hnone⟩ | ⟨hsome, th, he⟩ := threadCreate'_cases env (preemptDisable s)
    · simp only [Call.run, Create.threadCreateWithBuf, he]
      refine ⟨fun _ => ⟨rfl, rfl⟩, fun hd => absurd hd (depth_incr_ne _), fun h => ?_⟩
      exact (hnone.elim (h fn len rfl).1 (h fn len rfl).2).elim
    · simp only [Call.run, Create.threadCreateWithBuf, he]
      simp [preemptEnable, preemptDisable, hsome]
  | threadSpawn fn arg =>
    obtain ⟨he, -⟩ | ⟨-, th, he⟩ := threadCreate'_cases env s <;>
      simp [Call.run, Create.threadSpawn, Create.threadCreate, he, threadReady, preemptEnable, preemptDisable]

def idle : Sys := ⟨⟨notPending, notPending⟩, [], [], []⟩

/-- Without memory `thread_create_with_buf` leaves preemption disabled. -/
theorem creation_unbalanced :
    (Call.run ⟨none, none, 0⟩ idle (.threadCreateWithBuf 1 8)).1 = false ∧
      idle.counts.depth = 0 ∧
      (Call.run ⟨none, none, 0⟩ idle (.threadCreateWithBuf 1 8)).2.counts.depth = 1 := by
  decide

end Aspen.Sched.Create
