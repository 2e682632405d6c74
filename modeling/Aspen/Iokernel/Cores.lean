import Aspen.Iokernel.Procs
import Aspen.Lib.Run
import Aspen.Lib.Seats
import Mathlib.Data.Fintype.Prod

/-!
# The iokernel's cores

Every core has up to three threads: the one being preempted (`last_th`), the one that runs (`cur_th`) and the
one to run next (`pending_th`). A request to a core that is still busy with the last one replaces what is
pending. `sched_poll` looks at each core: a finished context switch frees `last_th` and starts what is pending,
and a core that went idle either gets its thread back at once (`sched_try_fast_rewake`) or frees it.
-/

namespace Aspen.Iokernel

open Run Function Seats

structure Thread (P : Type*) where
  p : P
  idx : ℕ
  deriving DecidableEq

structure CoreState (P : Type*) where
  lastTh : Option (Thread P)
  pendingTh : Option (Thread P)
  curTh : Option (Thread P)
  idle : Bool
  pending : Bool
  wait : Bool

inductive Slot
  | last
  | pending
  | cur
  deriving DecidableEq

instance : Fintype Slot := ⟨{.last, .pending, .cur}, fun k => by cases k <;> decide⟩

def CoreState.slot {P : Type*} (cs : CoreState P) : Slot → Option (Thread P)
  | .last => cs.lastTh
  | .pending => cs.pendingTh
  | .cur => cs.curTh

structure Sys (C P : Type*) where
  cores : C → CoreState P
  procs : P → Proc C

structure Config (C : Type*) where
  allowed : C → Bool
  sibling : C → C
  noht : Bool
  coresTbl : List C

structure Found (C P : Type*) where
  done : C → Bool
  idle : C → Bool
  /-- the thread was not asked to cede and has packets or completions waiting -/
  busy : Thread P → Bool
  drained : Thread P → Bool

inductive Event (C P : Type*)
  | schedRunOnCore (p : P) (core : C) (drained : Thread P → Bool)
  | schedIdleOnCore (core : C) (drained : Thread P → Bool)
  | schedPoll (found : Found C P)
  | attach (p : P) (n : ℕ) (vfio : Bool)
  | detach (p : P)
  /-- the dataplane finds the packet queue of a thread empty -/
  | unpoll (th : Thread P)
  /-- a packet or a command takes a reference -/
  | procGet (p : P)
  | procPut (p : P)

inductive Stop
  /-- the process has no references, its memory has been freed -/
  | freed
  | misplaced

section Model

variable {C P : Type*}

namespace Sys

def active (s : Sys C P) (th : Thread P) : Bool := ((s.procs th.p).threads th.idx).active

def coreOf (s : Sys C P) (th : Thread P) : Option C := ((s.procs th.p).threads th.idx).core

def seat (s : Sys C P) (core : C) (k : Slot) : Option (Thread P) := (s.cores core).slot k

variable [DecidableEq C] [DecidableEq P]

variable (s : Sys C P)

def setCore (core : C) (cs : CoreState P) : Sys C P := { s with cores := update s.cores core cs }

def setProc (p : P) (pr : Proc C) : Sys C P := { s with procs := update s.procs p pr }

def start (th : Thread P) (core : C) : Sys C P := s.setProc th.p ((s.procs th.p).start th.idx core)

def stop (th : Thread P) (drained : Thread P → Bool) : Sys C P :=
  s.setProc th.p ((s.procs th.p).stop th.idx (drained th))

def stopIn (th : Option (Thread P)) (drained : Thread P → Bool) : Sys C P :=
  match th with
  | some th => s.stop th drained
  | none => s

end Sys

def schedPickKthread [DecidableEq C] (cfg : Config C) (p : Proc C) (core : C) : Option ℕ :=
  (p.idleThreads.find? fun j => (p.threads j).core = some core).or
    ((if cfg.noht then none
      else p.idleThreads.find? fun j => (p.threads j).core = some (cfg.sibling core)).or
    p.idleThreads.getLast?)

variable [DecidableEq C] [DecidableEq P]

variable (cfg : Config C) (s : Sys C P) (core : C) (found : Found C P)

def schedRun (th : Option (Thread P)) (core : C) (drained : Thread P → Bool) : Sys C P := let cs := s.cores core
  if cs.wait then
    (s.stopIn cs.pendingTh drained).setCore core { cs with pendingTh := th, pending := true }
  else
    s.setCore core { cs with lastTh := cs.curTh, curTh := th, wait := true, idle := false }

def schedRunOnCore (p : P) (core : C) (drained : Thread P → Bool) : Sys C P :=
  if (s.procs p).idleThreads = [] ∨ ¬ cfg.allowed core then s
  else match schedPickKthread cfg (s.procs p) core with
    | some j => schedRun (s.start ⟨p, j⟩ core) (some ⟨p, j⟩) core drained
    | none => s

def schedIdleOnCore (drained : Thread P → Bool) : Sys C P :=
  if ¬ cfg.allowed core then s else schedRun s none core drained

/-- `sched_poll` checks whether a pending context switch finished. -/
def pollRunDone : Sys C P := let cs := s.cores core
  if cs.wait ∧ found.done core then
    (s.stopIn cs.lastTh found.drained).setCore core
      (if cs.pending then
        { cs with lastTh := cs.curTh, curTh := cs.pendingTh, pendingTh := none, pending := false }
      else { cs with lastTh := none, wait := false })
  else s

/-- `sched_try_fast_rewake`; its second effect is on the core the thread was enabled on. -/
def schedTryFastRewake (th : Thread P) (found : Found C P) : Option (Sys C P) :=
  if (s.procs th.p).kill ∨ ¬ found.busy th then none
  else match s.coreOf th with
    | some core => some (s.setCore core { s.cores core with wait := true })
    | none => some s

/-- `sched_poll` checks whether a core went idle. -/
def pollIdle : Sys C P := let cs := s.cores core
  if ¬ cs.wait ∧ ¬ cs.idle ∧ found.idle core then
    match cs.curTh with
    | some th =>
      match schedTryFastRewake s th found with
      | some s' => s'
      | none => (s.stop th found.drained).setCore core { cs with curTh := none, idle := true }
    | none => s.setCore core { cs with idle := true }
  else s

def schedPoll : Sys C P := cfg.coresTbl.foldl (fun s core => pollIdle (pollRunDone s core found) core found) s

def step : Event C P → Except Stop (Sys C P)
  | .schedRunOnCore p core drained =>
    if (s.procs p).ref ≠ 0 then .ok (schedRunOnCore cfg s p core drained) else .error .freed
  | .schedIdleOnCore core drained => .ok (schedIdleOnCore cfg s core drained)
  | .schedPoll found => .ok (schedPoll cfg s found)
  | .attach p n vfio =>
    if (s.procs p).ref = 0 then .ok (s.setProc p ((s.procs p).attach n vfio))
    else .error .misplaced
  | .detach p =>
    if (s.procs p).attached then .ok (s.setProc p
      { s.procs p with ref := (s.procs p).ref - 1, attached := false, kill := true })
    else .error .misplaced
  | .unpoll th =>
    if s.active th then .ok s
    else .ok (s.setProc th.p ((s.procs th.p).unpollThread th.idx))
  | .procGet p =>
    if (s.procs p).ref ≠ 0 then .ok (s.setProc p
      { s.procs p with ref := (s.procs p).ref + 1, inFlight := (s.procs p).inFlight + 1 })
    else .error .freed
  | .procPut p =>
    if (s.procs p).inFlight ≠ 0 then .ok (s.setProc p
      { s.procs p with ref := (s.procs p).ref - 1, inFlight := (s.procs p).inFlight - 1 })
    else .error .misplaced

structure Initial (s : Sys C P) : Prop where
  cores : ∀ c, s.cores c = ⟨none, none, none, false, false, false⟩
  active : ∀ p j, ((s.procs p).threads j).active = false
  polled : ∀ p j, ((s.procs p).threads j).polled = false
  threadCount : ∀ p, (s.procs p).threadCount = 0
  activeThreadCount : ∀ p, (s.procs p).activeThreadCount = 0
  idleThreads : ∀ p, (s.procs p).idleThreads = []
  ref : ∀ p, (s.procs p).ref = 0
  attached : ∀ p, (s.procs p).attached = false
  inFlight : ∀ p, (s.procs p).inFlight = 0

end Model

/-! ## The invariant -/

section Invariant

variable {C P : Type*}

def Sys.Seated (s : Sys C P) (hand : Option (Thread P)) : Prop := Seats s.seat s.active s.coreOf hand

/-- A core that is not waiting has nothing to wait for, and what is pending is marked as such. -/
structure CoreState.Settled (cs : CoreState P) : Prop where
  quiet : cs.wait = false → cs.lastTh = none ∧ cs.pendingTh = none
  marked : cs.pending = false → cs.pendingTh = none

structure Inv (s : Sys C P) (hand : Option (Thread P)) : Prop where
  procs : ∀ p, (s.procs p).Wf
  seated : s.Seated hand
  cores : ∀ c, (s.cores c).Settled

lemma Inv.of_initial {s : Sys C P} (h : Initial s) : Inv s none where
  procs p := {
    books := {
      dense := ⟨fun i hi => by
        rw [show (s.procs p).dense.count = 0 from h.activeThreadCount p] at hi
        exact absurd hi (Nat.not_lt_zero i), fun j hj => by
        rw [h.active p j] at hj
        cases hj⟩
      active_lt := fun {j} hj => by
        rw [h.active p j] at hj
        cases hj
      idle := fun {j} => by
        rw [h.idleThreads p, h.threadCount p]
        exact ⟨nofun, fun hj => absurd hj.1 (Nat.not_lt_zero j)⟩
      nodup := h.idleThreads p ▸ List.nodup_nil }
    refs := {
      polled_lt := fun {j} hj => by
        rw [h.polled p j] at hj
        cases hj
      ref := by
        have hnone : (s.procs p).polledSet = ∅ := by
          ext j
          rw [Proc.mem_polledSet, h.polled p j]
          exact ⟨fun hj => (nomatch hj.2), nofun⟩
        rw [h.ref p, h.attached p, h.inFlight p, h.activeThreadCount p, hnone]
        rfl } }
  seated := by
    have hnone (c : C) (k : Slot) : s.seat c k = none := by
      unfold Sys.seat
      rw [h.cores c]
      cases k <;> rfl
    refine ⟨fun {c k x} hx => ?_, fun {c k k' x} hx => ?_, fun x => ?_, nofun⟩
    · rw [hnone c k] at hx
      cases hx
    · rw [hnone c k] at hx
      cases hx
    · rw [show s.active x = false from h.active x.p x.idx]
      refine ⟨nofun, ?_⟩
      rintro (⟨c, k, hx⟩ | hx)
      · rw [hnone c k] at hx
        cases hx
      · cases hx
  cores c := by
    rw [h.cores c]
    exact ⟨fun _ => ⟨rfl, rfl⟩, fun _ => rfl⟩

lemma Inv.active_of_seat {s : Sys C P} {hand : Option (Thread P)} (h : Inv s hand) {c : C} {k : Slot}
    {th : Thread P} (hth : s.seat c k = some th) : s.active th :=
  (h.seated.active th).2 (.inl ⟨c, k, hth⟩)

variable [DecidableEq P]

/-! ### Threads start and stop -/

section

variable (s : Sys C P)

variable (th : Thread P) (core : C) (drained : Thread P → Bool) (u : Thread P)

lemma Sys.procs_setProc (p : P) (pr : Proc C) : (s.setProc p pr).procs p = pr := update_self ..

lemma Sys.procs_setProc_of_ne {p q : P} (pr : Proc C) (h : q ≠ p) :
    (s.setProc p pr).procs q = s.procs q := update_of_ne h ..

lemma Sys.forall_setProc {p : P} {pr : Proc C} {φ : Thread P → ThreadState C → Prop}
    (hself : ∀ j, φ ⟨p, j⟩ (pr.threads j)) (hother : ∀ u, u.p ≠ p → φ u ((s.procs u.p).threads u.idx))
    (u : Thread P) : φ u (((s.setProc p pr).procs u.p).threads u.idx) := by
  by_cases hp : u.p = p
  · obtain ⟨q, i⟩ := u
    cases hp
    rw [procs_setProc]
    exact hself i
  · rw [procs_setProc_of_ne _ _ hp]
    exact hother u hp

lemma Sys.active_start : (s.start th core).active u ↔ u = th ∨ s.active u = true := by
  obtain ⟨p, j⟩ := th
  refine s.forall_setProc (φ := fun u t => t.active = true ↔ u = ⟨p, j⟩ ∨ s.active u = true) (fun i => ?_)
    (fun u hp => ?_) u
  · rw [Proc.start_active, Thread.mk.injEq, eq_self_iff_true, true_and]
    rfl
  · exact ⟨.inr, fun h => h.resolve_left fun he => hp (he ▸ rfl)⟩

lemma Sys.coreOf_start_self : (s.start th core).coreOf th = some core := by
  unfold Sys.start Sys.coreOf
  rw [Sys.procs_setProc, Proc.start_core_self]

lemma Sys.coreOf_start_of_ne {th u : Thread P} (core : C) (hu : u ≠ th) :
    (s.start th core).coreOf u = s.coreOf u := by
  obtain ⟨p, j⟩ := th
  refine s.forall_setProc (φ := fun u t => u ≠ ⟨p, j⟩ → t.core = s.coreOf u) (fun i hi => ?_) (fun _ _ _ => rfl) u hu
  rw [Proc.start_core_of_ne]
  · rfl
  · rintro rfl
    exact hi rfl

lemma Sys.active_stop : (s.stop th drained).active u ↔ u ≠ th ∧ s.active u = true := by
  obtain ⟨p, j⟩ := th
  refine s.forall_setProc (φ := fun u t => t.active = true ↔ u ≠ ⟨p, j⟩ ∧ s.active u = true) (fun i => ?_)
    (fun u hp => ?_) u
  · rw [Proc.stop_active, ne_eq, ne_eq, Thread.mk.injEq, eq_self_iff_true, true_and]
    rfl
  · exact ⟨fun h => ⟨fun he => hp (he ▸ rfl), h⟩, And.right⟩

lemma Sys.coreOf_stop : (s.stop th drained).coreOf u = s.coreOf u :=
  s.forall_setProc (φ := fun u t => t.core = s.coreOf u) (Proc.stop_core _ _ _) (fun _ _ => rfl) u

end

variable {s : Sys C P} {hand : Option (Thread P)}

lemma Inv.procs_setProc (h : Inv s hand) {p : P} {pr : Proc C} (hpr : pr.Wf) (q : P) :
    ((s.setProc p pr).procs q).Wf :=
  (forall_update_iff s.procs fun _ pr => pr.Wf).2 ⟨hpr, fun q _ => h.procs q⟩ q

lemma Inv.start (h : Inv s none) {p : P} {j : ℕ} (core : C) (hj : j ∈ (s.procs p).idleThreads) :
    Inv (s.start ⟨p, j⟩ core) (some ⟨p, j⟩) where
  procs := h.procs_setProc ((h.procs p).start core hj)
  seated := h.seated.take ((h.procs p).books.idle.1 hj).2 (s.active_start ⟨p, j⟩ core)
    fun _ hu => s.coreOf_start_of_ne core hu
  cores := h.cores

lemma Inv.procs_stopIn (h : Inv s hand) (c : C) (k : Slot) (drained : Thread P → Bool) (q : P) :
    ((s.stopIn (s.seat c k) drained).procs q).Wf := by
  cases hth : s.seat c k with
  | none => exact h.procs q
  | some th => exact h.procs_setProc ((h.procs th.p).stop _ (h.active_of_seat hth)) q

lemma Sys.cores_stopIn (s : Sys C P) (x : Option (Thread P)) (drained : Thread P → Bool) :
    (s.stopIn x drained).cores = s.cores := by
  cases x with
  | none | some th => rfl

lemma Sys.coreOf_stopIn (s : Sys C P) (x : Option (Thread P)) (drained : Thread P → Bool)
    (u : Thread P) : (s.stopIn x drained).coreOf u = s.coreOf u := by
  cases x with
  | none => rfl
  | some th => exact s.coreOf_stop th drained u

def Placed (s : Sys C P) (seat : C → Slot → Option (Thread P)) (hand : Option (Thread P)) : Prop :=
  Seats seat s.active s.coreOf hand

variable [DecidableEq C]

lemma Inv.placed_stopIn (h : Inv s hand) (c : C) (k : Slot) (drained : Thread P → Bool) :
    Placed (s.stopIn (s.seat c k) drained) (put s.seat c k none) hand := by
  cases hth : s.seat c k with
  | none =>
    rw [← hth, put_eq_self]
    rw [hth]
    exact h.seated
  | some th =>
    exact (h.seated.leave hth (s.active_stop th drained)).congr (fun _ => rfl)
      fun _ _ u _ => s.coreOf_stop th drained u

omit [DecidableEq P] in
lemma Inv.of_core {s' : Sys C P} (h : Inv s hand) {c : C} {cs : CoreState P}
    {row : Slot → Option (Thread P)} {hand' : Option (Thread P)}
    (hseats : Placed s' (update s.seat c row) hand') (hrow : ∀ k, cs.slot k = row k)
    (hcores : s'.cores = s.cores) (hprocs : ∀ p, (s'.procs p).Wf) (hcs : cs.Settled) : Inv (s'.setCore c cs) hand' where
  procs := hprocs
  seated := by
    have hseat : (s'.setCore c cs).seat = update s.seat c row := by
      rw [← funext hrow]
      funext c' k
      unfold Sys.seat Sys.setCore
      dsimp only
      rw [hcores]
      by_cases hc : c' = c
      · subst hc
        rw [update_self, update_self]
      · rw [update_of_ne hc, update_of_ne hc]
    unfold Sys.Seated
    rw [hseat]
    exact hseats
  cores := by
    unfold Sys.setCore
    rw [hcores]
    exact (forall_update_iff s.cores fun _ cs => cs.Settled).2 ⟨hcs, fun c _ => h.cores c⟩

omit [DecidableEq P] in
lemma Placed.fill {seat : C → Slot → Option (Thread P)} {c : C} {k : Slot} (h : Placed s seat hand)
    (hc : ∀ th, hand = some th → s.coreOf th = some c) (hk : seat c k = none) :
    Placed s (put seat c k hand) none := by
  cases hh : hand with
  | none =>
    have hput : put seat c k none = seat := hk ▸ put_eq_self c k
    rw [hput, ← hh]
    exact h
  | some th =>
    rw [hh] at h
    exact h.sit (hc th hh) hk

/-! ### Requests -/

lemma Inv.schedRun (h : Inv s hand) {c : C} (hc : ∀ th, hand = some th → s.coreOf th = some c)
    (drained : Thread P → Bool) : Inv (schedRun s hand c drained) none := by
  unfold Iokernel.schedRun
  dsimp only
  split
  · -- the thread in hand replaces what is pending
    rename_i hw
    have hp := (h.placed_stopIn c .pending drained).fill
      (fun th hth => (s.coreOf_stopIn _ drained th).trans (hc th hth)) (put_self ..)
    simp only [put, update_self, update_idem] at hp
    refine h.of_core hp (fun k => by cases k <;> rfl) (s.cores_stopIn _ drained)
      (h.procs_stopIn c .pending drained) ⟨fun hw' => ?_, (by simp)⟩
    exact absurd hw (by rw [hw']; simp)
  · -- the running thread becomes the one to be preempted
    rename_i hw
    obtain ⟨hlast, hpend⟩ := (h.cores c).quiet (Bool.not_eq_true _ ▸ hw)
    have hm : Placed s (put (put s.seat c .cur none) c .last (s.seat c .cur)) hand := move h.seated .cur .last hlast
    simp only [put, update_self, update_idem] at hm
    have hp := hm.fill (k := .cur) hc (by rw [update_self]; rfl)
    simp only [put, update_self, update_idem] at hp
    exact h.of_core hp (fun k => by cases k <;> rfl) rfl h.procs ⟨(by simp), fun _ => hpend⟩

lemma schedPickKthread_mem {cfg : Config C} {p : Proc C} {core : C} {j : ℕ}
    (h : schedPickKthread cfg p core = some j) : j ∈ p.idleThreads := by
  rcases Option.or_eq_some_iff.1 h with h | ⟨-, h⟩
  · exact List.mem_of_find?_eq_some h
  · rcases Option.or_eq_some_iff.1 h with h | ⟨-, h⟩
    · split at h
      · cases h
      · exact List.mem_of_find?_eq_some h
    · exact List.mem_of_getLast? h

lemma Inv.schedRunOnCore (h : Inv s none) (cfg : Config C) (p : P) (core : C)
    (drained : Thread P → Bool) : Inv (schedRunOnCore cfg s p core drained) none := by
  unfold Iokernel.schedRunOnCore
  split
  · exact h
  · split
    · rename_i j hj
      refine (h.start core (schedPickKthread_mem hj)).schedRun ?_ drained
      rintro th ⟨⟩
      exact s.coreOf_start_self ⟨p, j⟩ core
    · exact h

lemma Inv.schedIdleOnCore (h : Inv s none) (cfg : Config C) (core : C)
    (drained : Thread P → Bool) : Inv (schedIdleOnCore cfg s core drained) none := by
  unfold Iokernel.schedIdleOnCore
  split
  · exact h
  · exact h.schedRun nofun drained

/-! ### Polling -/

lemma Inv.pollRunDone (h : Inv s none) (c : C) (found : Found C P) : Inv (pollRunDone s c found) none := by
  unfold Iokernel.pollRunDone
  dsimp only
  split
  · rename_i hw
    have hprocs := h.procs_stopIn c .last found.drained
    have hp := h.placed_stopIn c .last found.drained
    simp only [put] at hp
    split
    · -- the running thread is preempted, and what is pending runs
      have h1 := hp.move .cur .last (by rw [update_self]; rfl)
      simp only [put, update_self, update_idem] at h1
      have h2 := h1.move .pending .cur (by rw [update_self]; rfl)
      simp only [put, update_self, update_idem] at h2
      refine h.of_core h2 (fun k => by cases k <;> rfl) (s.cores_stopIn _ _) hprocs ⟨fun hw' => ?_, fun _ => rfl⟩
      exact absurd hw.1 (by rw [hw']; simp)
    · rename_i hpend
      exact h.of_core hp (fun k => by cases k <;> rfl) (s.cores_stopIn _ _) hprocs
        ⟨fun _ => ⟨rfl, (h.cores c).marked (Bool.not_eq_true _ ▸ hpend)⟩, (h.cores c).marked⟩
  · exact h

omit [DecidableEq P] in
lemma Inv.of_marks (h : Inv s none) {c : C} {cs : CoreState P} (hrow : ∀ k, cs.slot k = s.seat c k)
    (hcs : cs.Settled) : Inv (s.setCore c cs) none := by
  have hp : Placed s (update s.seat c (s.seat c)) none := by
    rw [update_eq_self]
    exact h.seated
  exact h.of_core hp hrow rfl h.procs hcs

omit [DecidableEq P] in
lemma Inv.schedTryFastRewake (h : Inv s none) {th : Thread P} {found : Found C P} {s' : Sys C P}
    (hs : schedTryFastRewake s th found = some s') : Inv s' none := by
  unfold Iokernel.schedTryFastRewake at hs
  split at hs
  · cases hs
  · split at hs
    · rename_i core _
      cases hs
      exact h.of_marks (fun k => by cases k <;> rfl) ⟨nofun, (h.cores core).marked⟩
    · cases hs
      exact h

lemma Inv.pollIdle (h : Inv s none) (c : C) (found : Found C P) : Inv (pollIdle s c found) none := by
  unfold Iokernel.pollIdle
  dsimp only
  split
  · rename_i hw
    have hquiet := (h.cores c).quiet (Bool.not_eq_true _ ▸ hw.1)
    split
    · rename_i th hth
      split
      · rename_i s' hs'
        exact h.schedTryFastRewake hs'
      · have hp := h.placed_stopIn c .cur found.drained
        have hprocs := h.procs_stopIn c .cur found.drained
        rw [show s.seat c .cur = some th from hth] at hp hprocs
        rw [put] at hp
        exact h.of_core hp (fun k => by cases k <;> rfl) rfl hprocs ⟨fun _ => hquiet, (h.cores c).marked⟩
    · exact h.of_marks (fun k => by cases k <;> rfl) ⟨fun _ => hquiet, (h.cores c).marked⟩
  · exact h

lemma Inv.schedPoll (h : Inv s none) (cfg : Config C) (found : Found C P) : Inv (schedPoll cfg s found) none := by
  unfold Iokernel.schedPoll
  generalize cfg.coresTbl = cores
  induction cores generalizing s with
  | nil => exact h
  | cons c cores ih => exact ih ((h.pollRunDone c found).pollIdle c found)

/-! ### Everything else -/

omit [DecidableEq C] in
lemma Inv.of_same (h : Inv s none) {p : P} {pr : Proc C} (hwf : pr.Wf)
    (hsame : Proc.Same (s.procs p) pr) : Inv (s.setProc p pr) none where
  procs := h.procs_setProc hwf
  seated := by
    have hkeep := s.forall_setProc (φ := fun u t => t.active = s.active u ∧ t.core = s.coreOf u)
      (fun j => ⟨hsame.active j, hsame.core j⟩) fun _ _ => ⟨rfl, rfl⟩
    exact h.seated.congr (fun th => (hkeep th).1) fun _ _ th _ => (hkeep th).2
  cores := h.cores

omit [DecidableEq C] in
lemma Inv.attach (h : Inv s none) {p : P} (hp : (s.procs p).ref = 0) (n : ℕ) (vfio : Bool) :
    Inv (s.setProc p ((s.procs p).attach n vfio)) none where
  procs := h.procs_setProc (Proc.attach_wf _ n vfio)
  seated := by
    have hinactive := (h.procs p).inactive hp
    refine h.seated.congr (s.forall_setProc (φ := fun u t => t.active = s.active u) (fun j => (hinactive j).symm)
      fun _ _ => rfl) fun c k th hseat => ?_
    refine s.forall_setProc (φ := fun u t => s.active u = true → t.core = s.coreOf u) (fun j hj => ?_)
      (fun _ _ _ => rfl) th (h.active_of_seat hseat)
    cases (hinactive j).symm.trans hj
  cores := h.cores

/-- An event leaves every thread in one place. -/
lemma Inv.of_step (h : Inv s none) {cfg : Config C} {e : Event C P} {s' : Sys C P}
    (hs : step cfg s e = .ok s') : Inv s' none := by
  cases e with
  | schedRunOnCore p core drained =>
    obtain ⟨-, hs⟩ := guard_eq_ok.1 hs
    cases hs
    exact h.schedRunOnCore cfg p core drained
  | schedIdleOnCore core drained =>
    cases hs
    exact h.schedIdleOnCore cfg core drained
  | schedPoll found =>
    cases hs
    exact h.schedPoll cfg found
  | attach p n vfio =>
    obtain ⟨hp, hs⟩ := guard_eq_ok.1 hs
    cases hs
    exact h.attach hp n vfio
  | detach p =>
    obtain ⟨hp, hs⟩ := guard_eq_ok.1 hs
    cases hs
    exact h.of_same ((h.procs p).detach hp) { Proc.Same.rfl (p := s.procs p) with }
  | unpoll th =>
    simp only [step] at hs
    split at hs
    · cases hs
      exact h
    · cases hs
      exact h.of_same ((h.procs th.p).unpollThread th.idx) (.unpollThread _ th.idx)
  | procGet p =>
    obtain ⟨-, hs⟩ := guard_eq_ok.1 hs
    cases hs
    exact h.of_same (h.procs p).get_inFlight { Proc.Same.rfl (p := s.procs p) with }
  | procPut p =>
    obtain ⟨hp, hs⟩ := guard_eq_ok.1 hs
    cases hs
    exact h.of_same ((h.procs p).put_inFlight hp) { Proc.Same.rfl (p := s.procs p) with }

lemma reaches_inv {cfg : Config C}
    (h : Reaches (step cfg) (fun _ _ => True) Initial s) : Inv s none :=
  h.invariant (fun _ => Inv.of_initial) fun _ _ _ hi _ he => hi.of_step he

/-! ## Cores, threads and references -/

def Sys.slotsOf [Fintype C] (s : Sys C P) (p : P) : Finset (C × Slot) :=
  Finset.univ.filter fun x => (s.seat x.1 x.2).any fun th => th.p = p

omit [DecidableEq C] in
lemma Sys.mem_slotsOf [Fintype C] {p : P} {c : C} {k : Slot} :
    (c, k) ∈ s.slotsOf p ↔ ∃ j, s.seat c k = some ⟨p, j⟩ := by
  rw [Sys.slotsOf, Finset.mem_filter]
  constructor
  · rintro ⟨-, h⟩
    obtain ⟨⟨q, j⟩, hth, hq⟩ := Option.any_eq_true _ _ |>.mp h
    obtain rfl : q = p := of_decide_eq_true hq
    exact ⟨j, hth⟩
  · rintro ⟨j, hj⟩
    refine ⟨Finset.mem_univ _, ?_⟩
    rw [hj]
    exact decide_eq_true rfl

omit [DecidableEq C] in
lemma Inv.card_slotsOf [Fintype C] (h : Inv s none) (p : P) : (s.slotsOf p).card = (s.procs p).activeThreadCount := by
  have hdense := (h.procs p).books.dense
  -- a slot is counted by the place of its thread in the array
  let place (x : C × Slot) : ℕ :=
    match s.seat x.1 x.2 with
    | some th => ((s.procs p).threads th.idx).atIdx
    | none => 0
  have hplace {c k j} (hj : s.seat c k = some ⟨p, j⟩) : place (c, k) = ((s.procs p).threads j).atIdx := by
    simp only [place, hj]
  rw [← Finset.card_range (s.procs p).activeThreadCount]
  refine Finset.card_bij (fun x _ => place x) ?_ ?_ ?_
  · rintro ⟨c, k⟩ hx
    obtain ⟨j, hj⟩ := Sys.mem_slotsOf.1 hx
    rw [Finset.mem_range, hplace hj]
    exact (hdense.elem j (h.active_of_seat hj)).1
  · rintro ⟨c, k⟩ hx ⟨c', k'⟩ hx' heq
    obtain ⟨j, hj⟩ := Sys.mem_slotsOf.1 hx
    obtain ⟨j', hj'⟩ := Sys.mem_slotsOf.1 hx'
    rw [hplace hj, hplace hj'] at heq
    have he := (hdense.elem j (h.active_of_seat hj)).2
    have he' := (hdense.elem j' (h.active_of_seat hj')).2
    obtain rfl : j = j' := by
      rw [← he, ← he']
      exact congrArg _ heq
    obtain ⟨rfl, rfl⟩ := h.seated.unique hj hj'
    rfl
  · intro i hi
    obtain ⟨hact, hi'⟩ := hdense.entry i (Finset.mem_range.1 hi)
    rcases (h.seated.active ⟨p, (s.procs p).activeThreads i⟩).1 hact with ⟨c, k, hck⟩ | hn
    · exact ⟨(c, k), Sys.mem_slotsOf.2 ⟨_, hck⟩, (hplace hck).trans hi'⟩
    · cases hn

/-- In every run: a thread is active if and only if it takes a slot of a core, and then it takes one; `active_threads`
has the active threads of the process, each once and at its `at_idx`, and `idle_threads` the other ones, each once;
and the process has one reference for each slot that its threads take, besides those held elsewhere. -/
theorem core_slots [Fintype C] {cfg : Config C} (h : Reaches (step cfg) (fun _ _ => True) Initial s) :
    (∀ th, s.active th = true ↔ ∃! x : C × Slot, s.seat x.1 x.2 = some th) ∧
    (∀ th, s.active th = false → ∀ c k, s.seat c k ≠ some th) ∧
    ∀ p, (∀ i < (s.procs p).activeThreadCount,
        s.active ⟨p, (s.procs p).activeThreads i⟩ = true ∧
          ((s.procs p).threads ((s.procs p).activeThreads i)).atIdx = i) ∧
      (∀ j, s.active ⟨p, j⟩ = true →
        ∃ i < (s.procs p).activeThreadCount, (s.procs p).activeThreads i = j) ∧
      (∀ j, j ∈ (s.procs p).idleThreads ↔ j < (s.procs p).threadCount ∧ s.active ⟨p, j⟩ = false) ∧
      (s.procs p).idleThreads.Nodup ∧
      (s.procs p).ref = (s.procs p).attached.toNat + (s.procs p).inFlight +
        (s.procs p).polledSet.card + (s.slotsOf p).card := by
  have hs := reaches_inv h
  refine ⟨fun th => ?_, fun th hth c k hck => ?_, fun p => ?_⟩
  · rw [hs.seated.active]
    constructor
    · rintro (⟨c, k, hck⟩ | hn)
      · refine ⟨(c, k), hck, ?_⟩
        rintro ⟨c', k'⟩ hck'
        obtain ⟨rfl, rfl⟩ := hs.seated.unique hck hck'
        rfl
      · cases hn
    · rintro ⟨⟨c, k⟩, hck, -⟩
      exact .inl ⟨c, k, hck⟩
  · rw [hs.active_of_seat hck] at hth
    cases hth
  · have hbooks := (hs.procs p).books
    refine ⟨hbooks.dense.entry, fun j hj => ?_, fun _ => hbooks.idle, hbooks.nodup, ?_⟩
    · exact ⟨_, (hbooks.dense.elem j hj).1, (hbooks.dense.elem j hj).2⟩
    · rw [hs.card_slotsOf]
      exact (hs.procs p).refs.ref

end Invariant

def initSys : Sys (Fin 2) (Fin 1) where
  cores _ := ⟨none, none, none, false, false, false⟩
  procs _ := ⟨0, 0, fun _ => ⟨false, none, 0, false⟩, fun _ => 0, [], 0, false, false, false, 0⟩

lemma initSys_initial : Initial initSys :=
  ⟨fun _ => rfl, fun _ _ => rfl, fun _ _ => rfl, fun _ => rfl, fun _ => rfl, fun _ => rfl, fun _ => rfl,
    fun _ => rfl, fun _ => rfl⟩

def config : Config (Fin 2) := ⟨fun _ => true, fun c => c, true, [0, 1]⟩

def switched : Found (Fin 2) (Fin 1) := ⟨fun c => c = 0, fun _ => false, fun _ => false, fun _ => true⟩

theorem core_slots_full : ∃ s : Sys (Fin 2) (Fin 1),
    Reaches (step config) (fun _ _ => True) Initial s ∧
      (s.seat 0 .last = some ⟨0, 0⟩ ∧ s.seat 0 .cur = some ⟨0, 2⟩ ∧ s.seat 0 .pending = some ⟨0, 1⟩) ∧
      (s.procs 0).ref = 1 + 0 + (s.procs 0).polledSet.card + (s.slotsOf 0).card := by
  obtain ⟨s, hs, hseats, hattached, hflight⟩ := reached (step config) Initial (s := initSys) (P := fun s =>
      (s.seat 0 .last = some ⟨0, 0⟩ ∧ s.seat 0 .cur = some ⟨0, 2⟩ ∧ s.seat 0 .pending = some ⟨0, 1⟩) ∧
        (s.procs 0).attached ∧ (s.procs 0).inFlight = 0)
      [.attach 0 4 false, .schedRunOnCore 0 0 fun _ => true, .schedRunOnCore 0 0 fun _ => true,
        .schedRunOnCore 0 0 fun _ => true, .schedPoll switched, .schedRunOnCore 0 0 fun _ => true]
      initSys_initial (by decide)
  refine ⟨s, hs, hseats, ?_⟩
  rw [((core_slots hs).2.2 0).2.2.2.2, hattached, hflight]
  rfl

end Aspen.Iokernel
