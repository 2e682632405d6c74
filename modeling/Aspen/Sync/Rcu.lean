import Aspen.Lib.Run
import Mathlib.Data.Fin.Basic

/-!
# Read-copy-update

`rcu.c` frees an object once every read-side section that could still see it has ended. Readers only disable
preemption. What the worker looks at is the generation counter of each kthread, which is odd while the kthread
runs a uthread; `schedule` adds one on the way in and one on the way out, `enter_schedule` adds two when it
switches directly from one uthread to another.

The worker takes the list, samples the counters one after the other, sleeps, and reads them again: a kthread
holds the batch back if its counter is odd and equal to its sample. Between any two of these loads all other
parties may move.
-/

namespace Aspen.Rcu

open Run Function

/-! ## Kthreads -/

inductive Mode
  /-- in `schedule_start`, before it has been attached -/
  | attaching
  /-- on its way into `schedule`, from `schedule_start` or from `thread_finish_cede` -/
  | entering
  | scheduler
  | thread
  | ceded
  deriving DecidableEq

def Mode.odd : Mode → Bool
  | entering | thread => true
  | attaching | scheduler | ceded => false

structure Kthread where
  rcuGen : BitVec 32
  mode : Mode
  /-- how deep the read-side sections of the running uthread are nested -/
  depth : ℕ
  /-- the (outermost) read-side sections begun so far -/
  sections : ℕ

inductive Stop
  | bug
  | misplaced
  | blocked

inductive KthreadEvent
  | scheduleStart
  | schedule
  /-- the end of `schedule`, which jumps into a uthread -/
  | run
  /-- the fast path of `enter_schedule`, into another uthread or back into the same one -/
  | enterSchedule
  /-- `thread_finish_cede` up to `kthread_park_now` -/
  | cede
  /-- `thread_finish_cede` after `kthread_park_now` -/
  | unpark
  | rcuReadLock
  | rcuReadUnlock

namespace Kthread

def reading (k : Kthread) : Option ℕ := if k.depth = 0 then none else some k.sections

/-- One step of a kthread. `schedule` and `enter_schedule` check that preemption is disabled exactly once; a kthread
is ceded with preemption enabled. -/
def step (k : Kthread) : KthreadEvent → Except Stop Kthread
  | .scheduleStart =>
    if k.mode = .attaching then .ok { k with rcuGen := 1#32, mode := .entering } else .error .misplaced
  | .schedule =>
    if k.mode.odd then
      if k.depth = 0 then .ok { k with rcuGen := k.rcuGen + 1#32, mode := .scheduler }
      else .error .bug
    else .error .misplaced
  | .run =>
    if k.mode = .scheduler then .ok { k with rcuGen := k.rcuGen + 1#32, mode := .thread }
    else .error .misplaced
  | .enterSchedule =>
    if k.mode = .thread then
      if k.depth = 0 then .ok { k with rcuGen := k.rcuGen + 2#32 } else .error .bug
    else .error .misplaced
  | .cede =>
    if k.mode = .thread ∧ k.depth = 0 then
      .ok { k with rcuGen := k.rcuGen + 1#32, mode := .ceded }
    else .error .misplaced
  | .unpark =>
    if k.mode = .ceded then .ok { k with rcuGen := k.rcuGen + 1#32, mode := .entering }
    else .error .misplaced
  | .rcuReadLock =>
    if k.mode = .thread then
      .ok { k with
        depth := k.depth + 1
        sections := if k.depth = 0 then k.sections + 1 else k.sections }
    else .error .misplaced
  | .rcuReadUnlock =>
    if k.mode = .thread ∧ k.depth ≠ 0 then .ok { k with depth := k.depth - 1 }
    else .error .misplaced

end Kthread

/-! ## The worker and its callers -/

/-- Where `rcu_worker` is; `head` is its batch, `i` the index of its loop over the kthreads. -/
inductive Worker (α : Type*)
  | top
  | parked
  | sample (head : List α) (i : ℕ)
  | sleep (head : List α)
  | check (head : List α) (i : ℕ)
  | free (head : List α)

def Worker.batch {α : Type*} : Worker α → List α
  | top | parked => []
  | sample head _ | sleep head | check head _ | free head => head

inductive Caller (α : Type*)
  | out
  /-- in `rcu_free`, about to make the worker ready -/
  | waking
  /-- parked in `synchronize_rcu` -/
  | blocked (c : α)
  deriving DecidableEq

structure Sys (maxks : ℕ) (θ α : Type*) where
  ks : Fin maxks → Kthread
  rcuHead : List α
  /-- `rcu_worker_th` is not `NULL` -/
  rcuWorkerTh : Bool
  /-- the worker has been made ready since it parked -/
  ready : Bool
  worker : Worker α
  lastRcuGen : Fin maxks → BitVec 32
  callers : θ → Caller α
  freed : List α
  ran : List α
  /-- the section in progress on each kthread when the callback was passed in -/
  readers : α → Fin maxks → Option ℕ

inductive Event (maxks : ℕ) (θ α : Type*)
  | kthread (k : Fin maxks) (e : KthreadEvent)
  | rcuFree (t : θ) (c : α)
  | synchronizeRcu (t : θ) (c : α)
  | next (t : θ)
  /-- the next step of the worker, on the kthread `k` -/
  | worker (k : Fin maxks)

section Model

variable {maxks : ℕ} {θ α : Type*} [DecidableEq θ] [DecidableEq α]

variable (s : Sys maxks θ α) (t : θ) (c : α)

def isOdd (gen : BitVec 32) : Bool := gen &&& 1#32 == 1#32

def Sys.push : Sys maxks θ α :=
  { s with
    rcuHead := c :: s.rcuHead
    freed := c :: s.freed
    readers := update s.readers c fun k => (s.ks k).reading }

def call (s' : Sys maxks θ α) : Except Stop (Sys maxks θ α) :=
  if s.callers t = .out ∧ c ∉ s.freed then .ok s' else .error .misplaced

def rcuFree : Except Stop (Sys maxks θ α) :=
  call s t c { s.push c with
    rcuWorkerTh := false
    callers := update s.callers t (if s.rcuWorkerTh then .waking else .out) }

def synchronizeRcu : Except Stop (Sys maxks θ α) :=
  call s t c { s.push c with
    rcuWorkerTh := false
    ready := s.ready || s.rcuWorkerTh
    callers := update s.callers t (.blocked c) }

/-- `rcu_free` wakes the worker; `synchronize_rcu` returns once its callback has made it ready. -/
def next : Except Stop (Sys maxks θ α) :=
  match s.callers t with
  | .out => .error .misplaced
  | .waking => .ok { s with ready := true, callers := update s.callers t .out }
  | .blocked c =>
    if c ∈ s.ran then .ok { s with callers := update s.callers t .out }
    else .error .blocked

def rcuWorker : Except Stop (Sys maxks θ α) :=
  match s.worker with
  | .top =>
    if s.rcuHead = [] then .ok { s with rcuWorkerTh := true, worker := .parked }
    else .ok { s with worker := .sample s.rcuHead 0, rcuHead := [] }
  | .parked => if s.ready then .ok { s with worker := .top, ready := false } else .error .blocked
  | .sample head i =>
    if h : i < maxks then .ok { s with
      lastRcuGen := update s.lastRcuGen ⟨i, h⟩ (s.ks ⟨i, h⟩).rcuGen
      worker := .sample head (i + 1) }
    else .ok { s with worker := .sleep head }
  | .sleep head => .ok { s with worker := .check head 0 }
  | .check head i =>
    if h : i < maxks then
      if isOdd (s.ks ⟨i, h⟩).rcuGen ∧ (s.ks ⟨i, h⟩).rcuGen = s.lastRcuGen ⟨i, h⟩ then
        .ok { s with worker := .sleep head }
      else .ok { s with worker := .check head (i + 1) }
    else .ok { s with worker := .free head }
  | .free [] => .ok { s with worker := .top }
  | .free (c :: head) => .ok { s with worker := .free head, ran := c :: s.ran }

def step : Event maxks θ α → Except Stop (Sys maxks θ α)
  | .kthread k e =>
    match (s.ks k).step e with
    | .ok k' => .ok { s with ks := update s.ks k k' }
    | .error d => .error d
  | .rcuFree t c => rcuFree s t c
  | .synchronizeRcu t c => synchronizeRcu s t c
  | .next t => next s t
  | .worker k => if (s.ks k).mode = .thread then rcuWorker s else .error .misplaced

structure Initial (s : Sys maxks θ α) : Prop where
  ks : ∀ k, s.ks k = ⟨0, .attaching, 0, 0⟩
  rcuHead : s.rcuHead = []
  rcuWorkerTh : s.rcuWorkerTh = false
  ready : s.ready = false
  worker : s.worker = .top
  callers : ∀ t, s.callers t = .out
  freed : s.freed = []
  ran : s.ran = []

end Model

/-! ## What a kthread does to its counter and its sections -/

lemma isOdd_iff (gen : BitVec 32) : isOdd gen ↔ gen.toNat % 2 = 1 := by
  rw [isOdd, beq_iff_eq, ← BitVec.toNat_inj, BitVec.toNat_and]
  exact Nat.and_one_is_mod _ ▸ Iff.rfl

lemma isOdd_add_one (gen : BitVec 32) : isOdd (gen + 1#32) = !isOdd gen := by
  rw [Bool.eq_iff_iff, isOdd_iff, Bool.not_eq_true', ← Bool.not_eq_true, isOdd_iff]
  simp only [BitVec.toNat_add, BitVec.toNat_ofNat]
  omega

lemma isOdd_add_two (gen : BitVec 32) : isOdd (gen + 2#32) = isOdd gen := by
  rw [show gen + 2#32 = gen + 1#32 + 1#32 by rw [BitVec.add_assoc]; rfl, isOdd_add_one, isOdd_add_one, Bool.not_not]

variable {k k' : Kthread}

namespace Kthread

structure Wf (k : Kthread) : Prop where
  parity : isOdd k.rcuGen = k.mode.odd
  depth : k.mode ≠ .thread → k.depth = 0

/-- What a step does: the counter moves only between sections, or the sections of one uthread move and
the counter stays. -/
inductive Moves (k k' : Kthread) : Prop
  | quiet (hdepth : k'.depth = 0) (hsections : k'.sections = k.sections)
  | lock (hgen : k'.rcuGen = k.rcuGen)
      (hsections : k'.sections = if k.depth = 0 then k.sections + 1 else k.sections)
  | unlock (hgen : k'.rcuGen = k.rcuGen) (hdepth : k.depth ≠ 0)
      (hsections : k'.sections = k.sections)

lemma step_moves {e : KthreadEvent} (hk : k.Wf) (h : k.step e = .ok k') : k'.Wf ∧ Moves k k' := by
  have hp := hk.parity
  cases e with
  | scheduleStart =>
    obtain ⟨hm, h⟩ := guard_eq_ok.1 h
    cases h
    have hd := hk.depth (by rw [hm]; nofun)
    exact ⟨⟨show isOdd 1#32 = true by decide, fun _ => hd⟩, .quiet hd rfl⟩
  | schedule =>
    obtain ⟨hm, h⟩ := guard_eq_ok.1 h
    obtain ⟨hd, h⟩ := guard_eq_ok.1 h
    cases h
    exact ⟨⟨by rw [isOdd_add_one, hp, hm]; rfl, fun _ => hd⟩, .quiet hd rfl⟩
  | run | unpark =>
    obtain ⟨hm, h⟩ := guard_eq_ok.1 h
    cases h
    have hd := hk.depth (by rw [hm]; nofun)
    exact ⟨⟨by rw [isOdd_add_one, hp, hm]; rfl, fun _ => hd⟩, .quiet hd rfl⟩
  | enterSchedule =>
    obtain ⟨hm, h⟩ := guard_eq_ok.1 h
    obtain ⟨hd, h⟩ := guard_eq_ok.1 h
    cases h
    exact ⟨⟨by rw [isOdd_add_two, hp], fun _ => hd⟩, .quiet hd rfl⟩
  | cede =>
    obtain ⟨⟨hm, hd⟩, h⟩ := guard_eq_ok.1 h
    cases h
    exact ⟨⟨by rw [isOdd_add_one, hp, hm]; rfl, fun _ => hd⟩, .quiet hd rfl⟩
  | rcuReadLock =>
    obtain ⟨hm, h⟩ := guard_eq_ok.1 h
    cases h
    exact ⟨⟨hp, fun hn => absurd hm hn⟩, .lock rfl rfl⟩
  | rcuReadUnlock =>
    obtain ⟨⟨hm, hd⟩, h⟩ := guard_eq_ok.1 h
    cases h
    exact ⟨⟨hp, fun hn => absurd hm hn⟩, .unlock rfl hd rfl⟩

lemma reading_eq_some {m : ℕ} : k.reading = some m ↔ k.depth ≠ 0 ∧ k.sections = m := by
  unfold reading
  split
  · rename_i hd
    exact ⟨nofun, fun h => absurd hd h.1⟩
  · rename_i hd
    exact ⟨fun h => ⟨hd, Option.some.inj h⟩, fun h => congrArg some h.2⟩

lemma Moves.sections_le (h : Moves k k') : k.sections ≤ k'.sections := by
  cases h with
  | quiet _ hs | unlock _ _ hs => exact hs.ge
  | lock _ hs =>
    rw [hs]
    split
    · exact Nat.le_succ _
    · exact Nat.le_refl _

/-- A section that had begun before the step and is still in progress after it was in progress before
it, and the counter has not moved. -/
lemma Moves.reading {m : ℕ} (h : Moves k k') (hm : m ≤ k.sections)
    (hr : k'.reading = some m) : k.reading = some m ∧ k'.rcuGen = k.rcuGen := by
  obtain ⟨hd, hs⟩ := reading_eq_some.1 hr
  cases h with
  | quiet hd' => exact absurd hd' hd
  | lock hgen hs' =>
    split at hs'
    · omega
    · rename_i hd0
      exact ⟨reading_eq_some.2 ⟨hd0, hs'.symm.trans hs⟩, hgen⟩
  | unlock hgen hd0 hs' => exact ⟨reading_eq_some.2 ⟨hd0, hs'.symm.trans hs⟩, hgen⟩

lemma Wf.isOdd_of_reading {m : ℕ} (hk : k.Wf) (hr : k.reading = some m) : isOdd k.rcuGen = true := by
  have hm : k.mode = .thread := by
    by_contra hn
    exact (reading_eq_some.1 hr).1 (hk.depth hn)
  rw [hk.parity, hm]
  rfl

end Kthread

end Aspen.Rcu
