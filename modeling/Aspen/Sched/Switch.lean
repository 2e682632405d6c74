import Aspen.Lib.Deques
import Aspen.Lib.Run

/-!
# Switching stacks

How a kthread leaves one thread and enters another: `enter_schedule`, `schedule`, `jmp_thread`,
`jmp_thread_direct`, `__jmp_thread_direct`, `thread_finish_cede` and `thread_finish_exit`, each cut where
another kthread can see a difference.

A parked thread is woken up by whoever finds it on the list it waits on, from the moment the lock of that list
is released; a thread that parks without a lock (`thread_park_and_preempt_enable`) releases nothing and can be
woken up at once. These threads are in `waiting`, with those that have not been made ready yet. The fields
`saved`, `clock`, `parkedAt` and `readyAt` are history.
-/

namespace Aspen.Sched.Switch

open Function

inductive Pc (θ : Type*)
  | run
  /-- it has put itself on a list, and holds the lock of the list -/
  | enqueued
  /-- it can be woken up or is ready again, and goes into `enter_schedule` on its own stack -/
  | entering
  /-- `thread_finish_cede`, on the runtime stack -/
  | finishing
  /-- `thread_finish_cede`, about to make the thread ready -/
  | ceding (th : θ)
  /-- `schedule`, on the runtime stack, at its entry -/
  | leaving
  /-- `schedule` behind its entry -/
  | sched
  /-- a thread has been popped; `out` is the thread whose stack the kthread is on -/
  | chosen (out : Option θ) (th : θ)
  /-- `jmp_thread` or `jmp_thread_direct` waits for the stack of `th` -/
  | spinning (out : Option θ) (th : θ)
  /-- it has found the stack of `th` idle -/
  | polled (out : Option θ) (th : θ)
  /-- it has marked the stack of `th` busy -/
  | owning (out : Option θ) (th : θ)
  /-- `__jmp_thread_direct` has saved the frame of `o` -/
  | left (o th : θ)
  /-- and has loaded the stack pointer of `th` -/
  | switched (o th : θ)
  /-- the registers of `th` are left to be loaded -/
  | restoring (th : θ)
deriving DecidableEq

/-- Threads are woken up by the thread that runs, up to where it pops the next one, or from
`schedule`. -/
def Pc.wakes {θ : Type*} : Pc θ → Bool
  | .run | .enqueued | .entering | .sched => true
  | _ => false

structure Kthread (θ : Type*) where
  self : Option θ
  pc : Pc θ

structure Sys (K θ : Type*) where
  dq : Deques K θ
  ks : K → Kthread θ
  ready : θ → Bool
  running : θ → Bool
  /-- the trap frame of the thread holds what the thread will go on with -/
  saved : θ → Bool
  /-- threads that nobody runs and that anybody may wake up -/
  waiting : Multiset θ
  free : Multiset θ
  clock : ℕ
  parkedAt : θ → ℕ
  readyAt : θ → ℕ

inductive Event (K θ : Type*)
  /-- `thread_ready` or `thread_ready_locked` for a thread that waits -/
  | ready (k : K) (th : θ)
  /-- `thread_ready_head` or `thread_ready_head_locked` -/
  | readyHead (k : K) (th : θ)
  /-- the running thread puts itself on a list -/
  | enqueue (k : K)
  /-- `thread_park_and_unlock_np` releases the lock of the list -/
  | park (k : K)
  /-- `thread_yield` up to `enter_schedule` -/
  | yield (k : K)
  /-- `enter_schedule` takes its slow path, `jmp_runtime(schedule)` -/
  | schedule (k : K)
  /-- `enter_schedule` pops a thread -/
  | pick (k : K) (th : θ)
  /-- `thread_cede`: `jmp_runtime(thread_finish_cede)` -/
  | cede (k : K)
  /-- `thread_finish_cede` up to `thread_ready_head` -/
  | finishCede (k : K)
  /-- `thread_ready_head` and what follows, up to `schedule` -/
  | cedeReady (k : K)
  /-- `thread_exit` and `thread_finish_exit` -/
  | exit (k : K)
  | create (th : θ)
  /-- `schedule` unmarks the stack of the last thread -/
  | enter (k : K)
  | pop (k : K) (th : θ)
  | steal (l r : K) (n : ℕ)
  | merge (l : K) (le : θ → θ → Bool)
  /-- `jmp_thread` or `jmp_thread_direct` in front of its loop -/
  | jump (k : K)
  /-- a load of `thread_running` -/
  | poll (k : K)
  /-- the store to `thread_running` behind the loop -/
  | mark (k : K)
  /-- `__jmp_thread_direct` saves the old frame -/
  | save (k : K)
  /-- `__jmp_thread` or `__jmp_thread_direct` loads the stack pointer -/
  | load (k : K)
  /-- `__jmp_thread_direct` clears the flag of the old thread -/
  | clear (k : K)
  /-- the rest of the frame is loaded, and the thread goes on -/
  | resume (k : K)

inductive Stop
  | disabled
  | readyTwice

variable {K θ : Type*}

/-- The order in which threads are merged; only one event uses it. -/
def Event.le : Event K θ → θ → θ → Bool
  | .merge _ le => le
  | _ => fun _ _ => true

def Sys.op (s : Sys K θ) : Event K θ → DequeOp K θ
  | .ready k th => .append k th
  | .readyHead k th => .prepend k th
  | .yield k =>
    match (s.ks k).self with
    | some th => .append k th
    | none => .idle
  | .cedeReady k =>
    match (s.ks k).pc with
    | .ceding th => .prepend k th
    | _ => .idle
  | .pick k th | .pop k th => .pop k th
  | .steal l r n => .steal l r n
  | .merge l _ => .merge l
  | _ => .idle

variable [DecidableEq K] [DecidableEq θ]

variable (s : Sys K θ) (k : K) (th : θ)

def Sys.set (v : Kthread θ) : Sys K θ := { s with ks := update s.ks k v }

def Sys.goto (pc : Pc θ) : Sys K θ := s.set k { s.ks k with pc := pc }

abbrev Sys.readied : Sys K θ :=
  { s with
    ready := update s.ready th true
    readyAt := update s.readyAt th s.clock }

def threadReadyPrepare : Except Stop (Sys K θ) := if s.ready th then .error .readyTwice
  else .ok { s with
    ready := update s.ready th true
    readyAt := update s.readyAt th s.clock }

def wake : Except Stop (Sys K θ) :=
  if (s.ks k).pc.wakes ∧ th ∈ s.waiting then
    threadReadyPrepare { s with waiting := s.waiting.erase th } th
  else .error .disabled

def move : Event K θ → Except Stop (Sys K θ)
  | .ready k th => wake s k th
  | .readyHead k th => wake s k th
  | .enqueue k =>
    match (s.ks k).pc, (s.ks k).self with
    | .run, some th =>
      .ok ({ s with parkedAt := update s.parkedAt th s.clock }.goto k .enqueued)
    | _, _ => .error .disabled
  | .park k =>
    match (s.ks k).pc, (s.ks k).self with
    | .enqueued, some th => .ok ({ s with waiting := th ::ₘ s.waiting }.goto k .entering)
    | _, _ => .error .disabled
  | .yield k =>
    match (s.ks k).pc, (s.ks k).self with
    | .run, some th => do
        let s ← threadReadyPrepare { s with
          ready := update s.ready th false
          parkedAt := update s.parkedAt th s.clock } th
        return s.goto k .entering
    | _, _ => .error .disabled
  | .schedule k =>
    match (s.ks k).pc, (s.ks k).self with
    | .entering, some th =>
      .ok ({ s with saved := update s.saved th true }.goto k .leaving)
    | _, _ => .error .disabled
  | .pick k th =>
    match (s.ks k).pc, (s.ks k).self with
    | .entering, some curth =>
      -- switching into the same thread as before
      if th = curth then .ok ({ s with ready := update s.ready th false }.goto k .run)
      else .ok (s.goto k (.chosen (some curth) th))
    | _, _ => .error .disabled
  | .cede k =>
    match (s.ks k).pc, (s.ks k).self with
    | .run, some th =>
      .ok ({ s with saved := update s.saved th true }.goto k .finishing)
    | _, _ => .error .disabled
  | .finishCede k =>
    match (s.ks k).pc, (s.ks k).self with
    | .finishing, some th =>
      .ok ({ s with running := update s.running th false }.set k
        { self := none, pc := .ceding th })
    | _, _ => .error .disabled
  | .cedeReady k =>
    match (s.ks k).pc with
    | .ceding th => do
        let s ← threadReadyPrepare s th
        return s.goto k .leaving
    | _ => .error .disabled
  | .exit k =>
    match (s.ks k).pc, (s.ks k).self with
    | .run, some th =>
      .ok ({ s with free := th ::ₘ s.free }.set k { self := none, pc := .leaving })
    | _, _ => .error .disabled
  | .create th =>
    if th ∈ s.free then
      .ok { s with
        free := s.free.erase th
        waiting := th ::ₘ s.waiting
        ready := update s.ready th false
        running := update s.running th false
        saved := update s.saved th true }
    else .error .disabled
  | .enter k =>
    match (s.ks k).pc, (s.ks k).self with
    | .leaving, some th =>
      .ok ({ s with running := update s.running th false }.set k
        { self := none, pc := .sched })
    | .leaving, none => .ok (s.goto k .sched)
    | _, _ => .error .disabled
  | .pop k th =>
    match (s.ks k).pc with
    | .sched => .ok (s.goto k (.chosen none th))
    | _ => .error .disabled
  | .steal l _ _ | .merge l _ =>
    match (s.ks l).pc with
    | .sched => .ok s
    | _ => .error .disabled
  | .jump k =>
    match (s.ks k).pc with
    | .chosen out th =>
      .ok ({ s with ready := update s.ready th false }.set k
        { self := some th, pc := .spinning out th })
    | _ => .error .disabled
  | .poll k =>
    match (s.ks k).pc with
    | .spinning out th => .ok (if s.running th then s else s.goto k (.polled out th))
    | _ => .error .disabled
  | .mark k =>
    match (s.ks k).pc with
    | .polled out th =>
      .ok ({ s with running := update s.running th true }.goto k (.owning out th))
    | _ => .error .disabled
  | .save k =>
    match (s.ks k).pc with
    | .owning (some o) th =>
      .ok ({ s with saved := update s.saved o true }.goto k (.left o th))
    | _ => .error .disabled
  | .load k =>
    match (s.ks k).pc with
    | .owning none th => .ok (s.goto k (.restoring th))
    | .left o th => .ok (s.goto k (.switched o th))
    | _ => .error .disabled
  | .clear k =>
    match (s.ks k).pc with
    | .switched o th =>
      .ok ({ s with running := update s.running o false }.goto k (.restoring th))
    | _ => .error .disabled
  | .resume k =>
    match (s.ks k).pc with
    | .restoring th => .ok ({ s with saved := update s.saved th false }.goto k .run)
    | _ => .error .disabled

/-! ## What the events do -/

section

variable {s s' : Sys K θ} {e : Event K θ} {k : K} {th : θ}

omit [DecidableEq K] in
lemma threadReadyPrepare_eq (h : threadReadyPrepare s th = .ok s') : s' = s.readied th := by
  obtain ⟨-, h⟩ := Run.guard_not_eq_ok.1 h
  cases h
  rfl

omit [DecidableEq K] in
lemma wake_eq (h : wake s k th = .ok s') : (s.ks k).pc.wakes ∧ th ∈ s.waiting ∧
    s' = { s with waiting := s.waiting.erase th }.readied th := by
  obtain ⟨⟨hpc, hmem⟩, h⟩ := Run.guard_eq_ok.1 h
  exact ⟨hpc, hmem, threadReadyPrepare_eq h⟩

inductive Moved (s : Sys K θ) : Event K θ → Sys K θ → Prop
  | ready (k : K) (th : θ) (hpc : (s.ks k).pc.wakes = true) (hmem : th ∈ s.waiting) :
      Moved s (.ready k th) ({ s with waiting := s.waiting.erase th }.readied th)
  | readyHead (k : K) (th : θ) (hpc : (s.ks k).pc.wakes = true) (hmem : th ∈ s.waiting) :
      Moved s (.readyHead k th) ({ s with waiting := s.waiting.erase th }.readied th)
  | enqueue (k : K) {th : θ} (hpc : (s.ks k).pc = .run) (hself : (s.ks k).self = some th) :
      Moved s (.enqueue k) ({ s with parkedAt := update s.parkedAt th s.clock }.goto k .enqueued)
  | park (k : K) {th : θ} (hpc : (s.ks k).pc = .enqueued) (hself : (s.ks k).self = some th) :
      Moved s (.park k) ({ s with waiting := th ::ₘ s.waiting }.goto k .entering)
  | yield (k : K) {th : θ} (hpc : (s.ks k).pc = .run) (hself : (s.ks k).self = some th) :
      Moved s (.yield k) (({ s with
        ready := update s.ready th false
        parkedAt := update s.parkedAt th s.clock }.readied th).goto k .entering)
  | schedule (k : K) {th : θ} (hpc : (s.ks k).pc = .entering) (hself : (s.ks k).self = some th) :
      Moved s (.schedule k) ({ s with saved := update s.saved th true }.goto k .leaving)
  | again (k : K) {th : θ} (hpc : (s.ks k).pc = .entering) (hself : (s.ks k).self = some th) :
      Moved s (.pick k th) ({ s with ready := update s.ready th false }.goto k .run)
  | pick (k : K) {th o : θ} (hpc : (s.ks k).pc = .entering) (hself : (s.ks k).self = some o) (hne : th ≠ o) :
      Moved s (.pick k th) (s.goto k (.chosen (some o) th))
  | cede (k : K) {th : θ} (hpc : (s.ks k).pc = .run) (hself : (s.ks k).self = some th) :
      Moved s (.cede k) ({ s with saved := update s.saved th true }.goto k .finishing)
  | finishCede (k : K) {th : θ} (hpc : (s.ks k).pc = .finishing) (hself : (s.ks k).self = some th) :
      Moved s (.finishCede k) ({ s with running := update s.running th false }.set k
        { self := none, pc := .ceding th })
  | cedeReady (k : K) {th : θ} (hpc : (s.ks k).pc = .ceding th) :
      Moved s (.cedeReady k) ((s.readied th).goto k .leaving)
  | exit (k : K) {th : θ} (hpc : (s.ks k).pc = .run) (hself : (s.ks k).self = some th) :
      Moved s (.exit k) ({ s with free := th ::ₘ s.free }.set k { self := none, pc := .leaving })
  | create (th : θ) (hmem : th ∈ s.free) :
      Moved s (.create th) { s with
        free := s.free.erase th
        waiting := th ::ₘ s.waiting
        ready := update s.ready th false
        running := update s.running th false
        saved := update s.saved th true }
  | enter (k : K) {th : θ} (hpc : (s.ks k).pc = .leaving) (hself : (s.ks k).self = some th) :
      Moved s (.enter k) ({ s with running := update s.running th false }.set k
        { self := none, pc := .sched })
  | enterIdle (k : K) (hpc : (s.ks k).pc = .leaving) (hself : (s.ks k).self = none) :
      Moved s (.enter k) (s.goto k .sched)
  | pop (k : K) {th : θ} (hpc : (s.ks k).pc = .sched) : Moved s (.pop k th) (s.goto k (.chosen none th))
  | steal (l : K) {r : K} {n : ℕ} (hpc : (s.ks l).pc = .sched) : Moved s (.steal l r n) s
  | merge (l : K) {le : θ → θ → Bool} (hpc : (s.ks l).pc = .sched) : Moved s (.merge l le) s
  | jump (k : K) {out : Option θ} {th : θ} (hpc : (s.ks k).pc = .chosen out th) :
      Moved s (.jump k) ({ s with ready := update s.ready th false }.set k
        { self := some th, pc := .spinning out th })
  | spin (k : K) {out : Option θ} {th : θ} (hpc : (s.ks k).pc = .spinning out th) : Moved s (.poll k) s
  | poll (k : K) {out : Option θ} {th : θ} (hpc : (s.ks k).pc = .spinning out th) (hidle : s.running th = false) :
      Moved s (.poll k) (s.goto k (.polled out th))
  | mark (k : K) {out : Option θ} {th : θ} (hpc : (s.ks k).pc = .polled out th) :
      Moved s (.mark k) ({ s with running := update s.running th true }.goto k (.owning out th))
  | save (k : K) {o th : θ} (hpc : (s.ks k).pc = .owning (some o) th) :
      Moved s (.save k) ({ s with saved := update s.saved o true }.goto k (.left o th))
  | loadIdle (k : K) {th : θ} (hpc : (s.ks k).pc = .owning none th) : Moved s (.load k) (s.goto k (.restoring th))
  | load (k : K) {o th : θ} (hpc : (s.ks k).pc = .left o th) : Moved s (.load k) (s.goto k (.switched o th))
  | clear (k : K) {o th : θ} (hpc : (s.ks k).pc = .switched o th) :
      Moved s (.clear k) ({ s with running := update s.running o false }.goto k (.restoring th))
  | resume (k : K) {th : θ} (hpc : (s.ks k).pc = .restoring th) :
      Moved s (.resume k) ({ s with saved := update s.saved th false }.goto k .run)

lemma moved (h : move s e = .ok s') : Moved s e s' := by
  cases e with
  | ready k th =>
    obtain ⟨hpc, hmem, rfl⟩ := wake_eq h
    exact .ready k th hpc hmem
  | readyHead k th =>
    obtain ⟨hpc, hmem, rfl⟩ := wake_eq h
    exact .readyHead k th hpc hmem
  | yield k =>
    simp only [move] at h
    split at h
    · rename_i hpc hself
      obtain ⟨s1, h1, h⟩ := Run.bind_eq_ok.1 h
      cases h
      rw [threadReadyPrepare_eq h1]
      exact .yield k hpc hself
    · cases h
  | cedeReady k =>
    simp only [move] at h
    split at h
    · rename_i hpc
      obtain ⟨s1, h1, h⟩ := Run.bind_eq_ok.1 h
      cases h
      rw [threadReadyPrepare_eq h1]
      exact .cedeReady k hpc
    · cases h
  | pick k th =>
    simp only [move] at h
    split at h
    · rename_i hpc hself
      split at h
      · rename_i heq
        subst heq
        cases h
        exact .again k hpc hself
      · rename_i hne
        cases h
        exact .pick k hpc hself hne
    · cases h
  | poll k =>
    simp only [move] at h
    split at h
    · rename_i hpc
      cases h
      split
      · exact .spin k hpc
      · rename_i hidle
        exact .poll k hpc (by simpa using hidle)
    · cases h
  | create th =>
    obtain ⟨hmem, h⟩ := Run.guard_eq_ok.1 h
    cases h
    exact .create th hmem
  | _ =>
    simp only [move] at h
    repeat' split at h
    all_goals cases h
    all_goals
      constructor
      all_goals assumption

end

/-- One event: its queue operation, and everything else. -/
def step (e : Event K θ) : Except Stop (Sys K θ) :=
  match s.dq.act e.le (s.op e) with
  | none => .error .disabled
  | some dq => do
      let s' ← move s e
      return { s' with dq := dq, clock := s.clock + 1 }

lemma step_eq_ok {s s' : Sys K θ} {e : Event K θ} (h : step s e = .ok s') :
    ∃ dq s1, s.dq.act e.le (s.op e) = some dq ∧ move s e = .ok s1 ∧
      s' = { s1 with dq := dq, clock := s.clock + 1 } := by
  unfold step at h
  split at h
  · cases h
  · rename_i dq hdq
    obtain ⟨s1, hm, h⟩ := Run.bind_eq_ok.1 h
    cases h
    exact ⟨dq, s1, hdq, hm, rfl⟩

structure Initial (s : Sys K θ) : Prop where
  queue : ∀ k, s.dq.queue k = []
  hand : ∀ k, s.dq.hand k = []
  self : ∀ k, (s.ks k).self = none
  pc : ∀ k, (s.ks k).pc = .leaving
  waiting : s.waiting = 0
  free : s.free.Nodup
  mem_free : ∀ th, th ∈ s.free
  clock : ∀ th, s.parkedAt th < s.clock ∧ s.readyAt th < s.clock

end Aspen.Sched.Switch
