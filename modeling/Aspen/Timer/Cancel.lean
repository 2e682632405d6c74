import Aspen.Lib.Threads
import Aspen.Timer.Heap

/-!
# Firing and cancelling a timer (`timer.c`, `timer.h`)

`timer_cancel` decides from the flags `armed` and `executing` of the entry, which it first reads without a lock,
and `timer_softirq_one` writes them in a certain order around a handler that it calls without a lock. Every load
and store of the flags and of `localk` is an action of its own here; what a thread does to a heap under its
timer lock is one action.
-/

namespace Aspen.Timer.Cancel

open Function (update update_self update_of_ne update_apply)
open scoped Run

variable {θ K ε : Type*}

/-- How far an entry is, and which thread or kthread has it. No code reads it. -/
inductive Phase (θ K : Type*)
  | free
  /-- `timer_start` has been called -/
  | starting (t : θ)
  /-- in the heap of `k`, not armed yet -/
  | entered (t : θ) (k : K)
  | armed (k : K)
  /-- taken out of the heap by `timer_softirq_one` -/
  | popped (t : θ) (k : K)
  | flagged (t : θ) (k : K)
  | firing (t : θ)
  /-- the handler has been called -/
  | running (t : θ)
  /-- disarmed by `__timer_cancel`, still in the heap of `k` -/
  | disarmed (t : θ) (k : K)
  | removed (t : θ)

namespace Phase

def thread : Phase θ K → Option θ
  | free | armed _ => none
  | starting t | entered t _ | popped t _ | flagged t _ | firing t | running t | disarmed t _
  | removed t => some t

def on : Phase θ K → Option K
  | entered _ k | armed k | disarmed _ k => some k
  | _ => none

def armedFlag : Phase θ K → Bool
  | armed _ | popped .. | flagged .. => true
  | _ => false

def executingFlag : Phase θ K → Bool
  | flagged .. | firing _ | running _ => true
  | _ => false

def locked : Phase θ K → Option (θ × K)
  | entered t k | popped t k | flagged t k | disarmed t k => some (t, k)
  | _ => none

def caller : Phase θ K → Option θ
  | starting t | entered t _ | disarmed t _ | removed t => some t
  | _ => none

def begun : Phase θ K → Bool
  | starting _ | entered .. => false
  | _ => true

def pending : Phase θ K → Bool
  | armed _ | popped .. | flagged .. | firing _ | disarmed .. | removed _ => true
  | _ => false

end Phase

inductive Outcome
  | ran
  | cancelled

/-- The timers and their locks, and a history: the phases, who is in a call of `timer_start` or `timer_cancel` for an
entry, and its armings and their ends. -/
structure Shared (θ K ε : Type*) where
  core : Timers K ε
  lock : K → Option θ
  phase : ε → Phase θ K
  callers : ε → Finset θ
  starts : ε → ℕ
  ends : ε → List Outcome

inductive Pc (K ε : Type*)
  | idle
  /-- `timer_start`, before it has the timer lock -/
  | startLock (k : K) (e : ε) (deadline : ℕ)
  /-- before "can't insert a timer twice!" -/
  | startCheck (k : K) (e : ε) (deadline : ℕ)
  | startEnter (k : K) (e : ε) (deadline : ℕ)
  /-- before `armed = true` -/
  | startArm (k : K) (e : ε)
  /-- before `executing = false` -/
  | startExec (k : K) (e : ε)
  | startUnlock (k : K) (e : ε)
  /-- `timer_cancel`, before it reads `armed` -/
  | cancelLoad (e : ε)
  /-- `__timer_cancel`, before it reads `localk` -/
  | cancelLocal (e : ε)
  | cancelLock (e : ε) (k : K)
  /-- before it reads `armed` again -/
  | cancelCheck (e : ε) (k : K)
  /-- before `armed = false` -/
  | cancelDisarm (e : ε) (k : K)
  | cancelLeave (e : ε) (k : K)
  | cancelUnlock (e : ε) (k : K)
  /-- not armed any more; before the lock is released -/
  | cancelMiss (e : ε) (k : K)
  /-- the loop on `executing`, after which it returns false -/
  | cancelWait (e : ε)
  /-- `timer_softirq_one`, before it has the timer lock -/
  | softirqLock (k : K)
  /-- before the condition of the loop -/
  | softirqLoop (k : K)
  /-- before `executing = true` -/
  | softirqExec (k : K) (e : ε)
  /-- before `armed = false` -/
  | softirqDisarm (k : K) (e : ε)
  | softirqUnlock (k : K) (e : ε)
  | softirqCall (k : K) (e : ε)
  | softirqRun (k : K) (e : ε)
  /-- before `executing = false` -/
  | softirqDone (k : K) (e : ε)
  deriving DecidableEq

inductive Event (K ε : Type*)
  | timerStart (k : K) (e : ε) (deadline : ℕ)
  | timerCancel (e : ε)
  | timerSoftirqOne (k : K)
  /-- the condition of the loop, with what `microtime` and `preempt_needed` return -/
  | test (now : ℕ) (preemptNeeded : Bool)
  | next

inductive Stop
  | blocked
  | armedTwice
  | tooMany
  | misplaced

section

variable [DecidableEq θ] [DecidableEq K] [DecidableEq ε]

namespace Shared

variable (m : Shared θ K ε) (t : θ) (e : ε)

def setLock (k : K) (l : Option θ) : Shared θ K ε := { m with lock := update m.lock k l }

def setPhase (p : Phase θ K) : Shared θ K ε := { m with phase := update m.phase e p }

def hangUp : Shared θ K ε := { m with callers := update m.callers e ((m.callers e).erase t) }

def call : Shared θ K ε := { m with callers := update m.callers e (insert t (m.callers e)) }

def armAgain : Shared θ K ε := { m with starts := update m.starts e (m.starts e + 1) }

def endWith (o : Outcome) : Shared θ K ε := { m with ends := update m.ends e (m.ends e ++ [o]) }

end Shared

variable (t : θ) (m : Shared θ K ε)

def spinLock (k : K) (pc : Pc K ε) : Except Stop (Shared θ K ε × Pc K ε) :=
  if m.lock k = none then .ok (m.setLock k (some t), pc) else .error .blocked

def next : Pc K ε → Except Stop (Shared θ K ε × Pc K ε)
  | .startLock k e d => spinLock t m k (.startCheck k e d)
  | .startCheck k e d =>
    if m.core.armed e then .error .armedTwice else .ok (m, .startEnter k e d)
  | .startEnter k e d =>
    if maxTimers ≤ m.core.timern k + 1 then .error .tooMany
    else .ok ({ m with core := m.core.enter k e d }.setPhase e (.entered t k), .startArm k e)
  | .startArm k e =>
    .ok (({ m with core := m.core.setArmed e true }.setPhase e (.armed k)).armAgain e, .startExec k e)
  | .startExec k e => .ok ({ m with core := m.core.setExecuting e false }, .startUnlock k e)
  | .startUnlock k e => .ok ((m.setLock k none).hangUp t e, .idle)
  | .cancelLoad e => if m.core.armed e then .ok (m, .cancelLocal e) else .ok (m, .cancelWait e)
  | .cancelLocal e => .ok (m, .cancelLock e (m.core.localk e))
  | .cancelLock e k => spinLock t m k (.cancelCheck e k)
  | .cancelCheck e k =>
    if m.core.armed e then .ok (m, .cancelDisarm e k) else .ok (m, .cancelMiss e k)
  | .cancelDisarm e k =>
    .ok ({ m with core := m.core.setArmed e false }.setPhase e (.disarmed t k), .cancelLeave e k)
  | .cancelLeave e k =>
    .ok ({ m with core := m.core.leave k e }.setPhase e (.removed t), .cancelUnlock e k)
  | .cancelUnlock e k =>
    .ok ((((m.setLock k none).setPhase e .free).endWith e .cancelled).hangUp t e, .idle)
  | .cancelMiss e k => .ok (m.setLock k none, .cancelWait e)
  | .cancelWait e => if m.core.executing e then .error .blocked else .ok (m.hangUp t e, .idle)
  | .softirqLock k => spinLock t m k (.softirqLoop k)
  | .softirqExec k e =>
    .ok ({ m with core := m.core.setExecuting e true }.setPhase e (.flagged t k), .softirqDisarm k e)
  | .softirqDisarm k e =>
    .ok ({ m with core := m.core.setArmed e false }.setPhase e (.firing t), .softirqUnlock k e)
  | .softirqUnlock k e => .ok (m.setLock k none, .softirqCall k e)
  | .softirqCall k e => .ok ((m.setPhase e (.running t)).endWith e .ran, .softirqRun k e)
  | .softirqRun k e => .ok (m, .softirqDone k e)
  | .softirqDone k e =>
    .ok ({ m with core := m.core.setExecuting e false }.setPhase e .free, .softirqLock k)
  | .idle | .softirqLoop _ => .error .misplaced

def act : Event K ε → Shared θ K ε → Pc K ε → Except Stop (Shared θ K ε × Pc K ε)
  | .timerStart k e d, m, .idle => .ok ((m.call t e).setPhase e (.starting t), .startLock k e d)
  | .timerCancel e, m, .idle => .ok (m.call t e, .cancelLoad e)
  | .timerSoftirqOne k, m, .idle => .ok (m, .softirqLock k)
  | .test now preemptNeeded, m, .softirqLoop k =>
    if preemptNeeded = false ∧ m.core.due k now = true then
      let e := m.core.first k
      .ok ({ m with core := m.core.pop k }.setPhase e (.popped t k), .softirqExec k e)
    else .ok (m.setLock k none, .idle)
  | .next, m, pc => next t m pc
  | _, _, _ => .error .misplaced

abbrev Sys (θ K ε : Type*) := Threads.Sys θ (Shared θ K ε) (Pc K ε)

def step : Sys θ K ε → θ × Event K ε → Except Stop (Sys θ K ε) := Threads.step act

def Initial (s : Sys θ K ε) : Prop := Timer.Initial s.shared.core ∧ (∀ e, s.shared.core.executing e = false) ∧
    (∀ k, s.shared.lock k = none) ∧
    (∀ e, s.shared.phase e = .free ∧ s.shared.callers e = ∅ ∧ s.shared.starts e = 0 ∧ s.shared.ends e = []) ∧
    ∀ t, s.own t = .idle

/-- `timer_start` is called for an entry that is not busy (`timer_busy`) and for which no call of
`timer_start` or `timer_cancel` is in progress. -/
def StartsIdle (_ : θ) (ev : Event K ε) (m : Shared θ K ε) (_ : Pc K ε) : Prop :=
  match ev with
  | .timerStart _ e _ => m.core.armed e = false ∧ m.core.executing e = false ∧ m.callers e = ∅
  | _ => True

end

/-! ## The proof outline -/

namespace Pc

def lock : Pc K ε → Option K
  | startCheck k .. | startEnter k .. | startArm k _ | startExec k _ | startUnlock k _
  | cancelCheck _ k | cancelDisarm _ k | cancelLeave _ k | cancelUnlock _ k | cancelMiss _ k
  | softirqLoop k | softirqExec k _ | softirqDisarm k _ | softirqUnlock k _ => some k
  | _ => none

def call : Pc K ε → Option ε
  | startLock _ e _ | startCheck _ e _ | startEnter _ e _ | startArm _ e | startExec _ e
  | startUnlock _ e | cancelLoad e | cancelLocal e | cancelLock e _ | cancelCheck e _
  | cancelDisarm e _ | cancelLeave e _ | cancelUnlock e _ | cancelMiss e _ | cancelWait e => some e
  | _ => none

def claim (t : θ) : Pc K ε → Option (ε × Phase θ K)
  | startLock _ e _ | startCheck _ e _ | startEnter _ e _ => some (e, .starting t)
  | startArm k e => some (e, .entered t k)
  | cancelLeave e k => some (e, .disarmed t k)
  | cancelUnlock e _ => some (e, .removed t)
  | softirqExec k e => some (e, .popped t k)
  | softirqDisarm k e => some (e, .flagged t k)
  | softirqUnlock _ e | softirqCall _ e => some (e, .firing t)
  | softirqRun _ e | softirqDone _ e => some (e, .running t)
  | _ => none

def tracks : Pc K ε → Option ε
  | cancelLocal e | cancelLock e _ | cancelCheck e _ | cancelDisarm e _ => some e
  | _ => none

def target : Pc K ε → Option (ε × K)
  | cancelLock e k | cancelCheck e k => some (e, k)
  | _ => none

def keeps : Pc K ε → Option (ε × K)
  | startExec k e | cancelDisarm e k => some (e, k)
  | _ => none

end Pc

structure EntryOk (m : Shared θ K ε) (e : ε) (p : Phase θ K) : Prop where
  armed : m.core.armed e = p.armedFlag
  executing : m.core.executing e = p.executingFlag
  on : ∀ k, m.core.On k e ↔ p.on = some k
  localk : ∀ t k, p.locked = some (t, k) → m.core.localk e = k
  count : m.starts e = (m.ends e).length + p.pending.toNat

structure Good (m : Shared θ K ε) : Prop where
  wf : m.core.Wf
  entry : ∀ e, EntryOk m e (m.phase e)
  locked : ∀ e t k, (m.phase e).locked = some (t, k) → m.lock k = some t
  caller : ∀ e t, (m.phase e).caller = some t → t ∈ m.callers e

structure At (t : θ) (m : Shared θ K ε) (pc : Pc K ε) : Prop where
  locks : ∀ k, m.lock k = some t ↔ pc.lock = some k
  calls : ∀ e, t ∈ m.callers e ↔ pc.call = some e
  claim : ∀ e p, pc.claim t = some (e, p) → m.phase e = p
  claimed : ∀ e, (m.phase e).thread = some t → pc.claim t = some (e, m.phase e)
  tracks : ∀ e, pc.tracks = some e → (m.phase e).begun = true
  target : ∀ e k, pc.target = some (e, k) → m.core.localk e = k
  keeps : ∀ e k, pc.keeps = some (e, k) → m.phase e = .armed k

/-- How the action `ev` of thread `t`, which takes it from `p` to `q`, moves the entry `e` from one phase
to the next. -/
inductive Advance (t : θ) (m : Shared θ K ε) (ev : Event K ε) (p q : Pc K ε) (e : ε) : Phase θ K → Phase θ K → Prop
  | start {k : K} {d : ℕ} (hidle : m.callers e = ∅)
      (h : (ev, p, q) = (.timerStart k e d, .idle, .startLock k e d)) : Advance t m ev p q e .free (.starting t)
  | enter {k : K} {d : ℕ} (h : (ev, p, q) = (.next, .startEnter k e d, .startArm k e)) :
      Advance t m ev p q e (.starting t) (.entered t k)
  | arm {k : K} (h : (ev, p, q) = (.next, .startArm k e, .startExec k e)) :
      Advance t m ev p q e (.entered t k) (.armed k)
  | pop {k : K} {now : ℕ} {b : Bool} (h : (ev, p, q) = (.test now b, .softirqLoop k, .softirqExec k e)) :
      Advance t m ev p q e (.armed k) (.popped t k)
  | flag {k : K} (h : (ev, p, q) = (.next, .softirqExec k e, .softirqDisarm k e)) :
      Advance t m ev p q e (.popped t k) (.flagged t k)
  | fire {k : K} (h : (ev, p, q) = (.next, .softirqDisarm k e, .softirqUnlock k e)) :
      Advance t m ev p q e (.flagged t k) (.firing t)
  | run {k : K} (h : (ev, p, q) = (.next, .softirqCall k e, .softirqRun k e)) :
      Advance t m ev p q e (.firing t) (.running t)
  | done {k : K} (h : (ev, p, q) = (.next, .softirqDone k e, .softirqLock k)) :
      Advance t m ev p q e (.running t) .free
  | disarm {k : K} (h : (ev, p, q) = (.next, .cancelDisarm e k, .cancelLeave e k)) :
      Advance t m ev p q e (.armed k) (.disarmed t k)
  | remove {k : K} (h : (ev, p, q) = (.next, .cancelLeave e k, .cancelUnlock e k)) :
      Advance t m ev p q e (.disarmed t k) (.removed t)
  | cancel {k : K} (h : (ev, p, q) = (.next, .cancelUnlock e k, .idle)) : Advance t m ev p q e (.removed t) .free

structure Keeps (t : θ) (ev : Event K ε) (p : Pc K ε) (m m' : Shared θ K ε) (q : Pc K ε) : Prop where
  good : Good m'
  own : At t m' q
  other : ∀ {u r}, u ≠ t → At u m r → At u m' r
  callers : ∀ {u}, u ≠ t → ∀ e, u ∈ m'.callers e ↔ u ∈ m.callers e
  phase : ∀ e, m'.phase e = m.phase e ∨ Advance t m ev p q e (m.phase e) (m'.phase e)

structure Same (m m' : Shared θ K ε) (e : ε) : Prop where
  phase : m'.phase e = m.phase e
  armed : m'.core.armed e = m.core.armed e
  executing : m'.core.executing e = m.core.executing e
  on : ∀ k, m'.core.On k e ↔ m.core.On k e
  localk : m'.core.localk e = m.core.localk e
  starts : m'.starts e = m.starts e
  ends : m'.ends e = m.ends e

lemma Same.entryOk {m m' : Shared θ K ε} {e : ε} (h : Same m m' e) (hG : Good m) : EntryOk m' e (m'.phase e) := by
  obtain ⟨harmed, hexec, hon, hlocal, hcount⟩ := hG.entry e
  rw [h.phase]
  exact ⟨h.armed.trans harmed, h.executing.trans hexec, fun k => (h.on k).trans (hon k),
    fun t k hl => h.localk.trans (hlocal t k hl), by rw [h.starts, h.ends, hcount]⟩

namespace Phase

variable {p : Phase θ K}

lemma thread_of_locked {t : θ} {k : K} (h : p.locked = some (t, k)) : p.thread = some t := by
  cases p with
  | entered u k' | popped u k' | flagged u k' | disarmed u k' =>
    cases h
    rfl
  | _ => cases h

lemma thread_of_caller {t : θ} (h : p.caller = some t) : p.thread = some t := by
  cases p with
  | starting u | entered u k | disarmed u k | removed u => exact h
  | _ => cases h

lemma pending_of_armedFlag (h : p.armedFlag) : p.pending = true := by
  cases p with
  | armed k | popped u k | flagged u k => rfl
  | _ => cases h

lemma begun_of_armedFlag (h : p.armedFlag) : p.begun = true := by
  cases p with
  | armed k | popped u k | flagged u k => rfl
  | _ => cases h

end Phase

namespace Pc

variable {pc : Pc K ε} {t u : θ} {e : ε} {k : K} {p : Phase θ K}

lemma lock_of_claim (h : pc.claim t = some (e, p)) (hp : p.locked = some (u, k)) : pc.lock = some k := by
  cases pc with
  | startArm k' e' | cancelLeave e' k' | softirqExec k' e' | softirqDisarm k' e' =>
    cases h
    cases hp
    rfl
  | _ => cases h <;> cases hp

lemma thread_of_claim (h : pc.claim t = some (e, p)) : p.thread = some t := by
  cases pc <;> cases h <;> rfl

lemma call_of_claim (h : pc.claim t = some (e, p)) (hp : p.caller = some u) : pc.call = some e := by
  cases pc <;> cases h <;> first | rfl | cases hp

lemma of_claim_firing (h : pc.claim t = some (e, .firing u)) :
    ∃ k, pc = .softirqUnlock k e ∨ pc = .softirqCall k e := by
  cases pc with
  | softirqUnlock k e' =>
    cases h
    exact ⟨k, .inl rfl⟩
  | softirqCall k e' =>
    cases h
    exact ⟨k, .inr rfl⟩
  | _ => cases h

lemma of_claim_disarmed (h : pc.claim t = some (e, .disarmed u k)) : pc = .cancelLeave e k := by
  cases pc with
  | cancelLeave e' k' =>
    cases h
    rfl
  | _ => cases h

lemma of_claim_removed (h : pc.claim t = some (e, .removed u)) : ∃ k, pc = .cancelUnlock e k := by
  cases pc with
  | cancelUnlock e' k =>
    cases h
    exact ⟨k, rfl⟩
  | _ => cases h

lemma call_of_tracks (h : pc.tracks = some e) : pc.call = some e := by
  cases pc <;> cases h <;> rfl

lemma tracks_of_target (h : pc.target = some (e, k)) : pc.tracks = some e := by
  cases pc <;> cases h <;> rfl

lemma lock_of_keeps (h : pc.keeps = some (e, k)) : pc.lock = some k := by
  cases pc <;> cases h <;> rfl

end Pc

section

variable {t u : θ} {m m' : Shared θ K ε} {p q : Pc K ε} {e : ε} {k : K} {ev : Event K ε} {x y : Phase θ K}

/-! ### Threads that move an entry -/

namespace Advance

lemma before (h : Advance t m ev p q e x y) (hx : x.thread = some u) : u = t := by
  cases h <;> cases hx <;> rfl

lemma after (h : Advance t m ev p q e x y) (hy : y.thread = some u) : u = t := by
  cases h <;> cases hy <;> rfl

lemma guarded (h : Advance t m ev p q e (.armed k) y) : p.lock = some k := by
  cases h with
  | pop h | disarm h =>
    cases h
    rfl

section

variable (h : Advance t m ev p q e x y)
include h

lemma begun (hu : u ∈ m.callers e) (hx : x.begun) : y.begun = true := by
  cases h with
  | start hidle =>
    rw [hidle] at hu
    exact absurd hu (Finset.notMem_empty u)
  | enter => cases hx
  | _ => rfl

lemma of_claim {e' : ε} {z : Phase θ K} (hp : p.claim t = some (e', z)) : e' = e := by
  cases h <;> rename_i h <;> cases h <;> cases hp <;> rfl

lemma claim : q.claim t = y.thread.map fun _ => (e, y) := by
  cases h <;> rename_i h <;> cases h <;> rfl

lemma tracks : q.tracks = none ∧ q.target = none := by
  cases h <;> rename_i h <;> cases h <;> exact ⟨rfl, rfl⟩

lemma keeps {e' : ε} (hq : q.keeps = some (e', k)) : e' = e ∧ y = .armed k := by
  cases h <;> rename_i h <;> cases h <;> cases hq
  exact ⟨rfl, rfl⟩

end

end Advance

structure Moves (t : θ) (ev : Event K ε) (p q : Pc K ε) (m m' : Shared θ K ε) (e : ε) : Prop where
  advance : Advance t m ev p q e (m.phase e) (m'.phase e)
  localk : (m.phase e).begun = true → m'.core.localk e = m.core.localk e
  entry : EntryOk m' e (m'.phase e)

lemma At.other {r : Pc K ε} (hu : u ≠ t) (hA : At t m p) (hB : At u m r)
    (hlock : ∀ k, m'.lock k = some u ↔ m.lock k = some u) (hcallers : ∀ e, u ∈ m'.callers e ↔ u ∈ m.callers e)
    (h : ∀ e, Same m m' e ∨ Moves t ev p q m m' e) : At u m' r where
  locks k := (hlock k).trans (hB.locks k)
  calls e := (hcallers e).trans (hB.calls e)
  claim e x hc := by
    rcases h e with h | h
    · rw [h.phase, hB.claim e x hc]
    · have hthread := Pc.thread_of_claim hc
      rw [← hB.claim e x hc] at hthread
      exact absurd (h.advance.before hthread) hu
  claimed e ht := by
    rcases h e with h | h
    · rw [h.phase] at ht ⊢
      exact hB.claimed e ht
    · exact absurd (h.advance.after ht) hu
  tracks e ht := by
    rcases h e with h | h
    · rw [h.phase]
      exact hB.tracks e ht
    · exact h.advance.begun ((hB.calls e).2 (Pc.call_of_tracks ht)) (hB.tracks e ht)
  target e k ht := by
    have hlocal : m'.core.localk e = m.core.localk e :=
      (h e).elim Same.localk fun h => h.localk (hB.tracks e (Pc.tracks_of_target ht))
    exact hlocal.trans (hB.target e k ht)
  keeps e k hk := by
    have harmed := hB.keeps e k hk
    rcases h e with h | h
    · rw [h.phase, harmed]
    · have hadv := h.advance
      rw [harmed] at hadv
      have hmine := (hA.locks k).2 hadv.guarded
      rw [(hB.locks k).2 (Pc.lock_of_keeps hk)] at hmine
      exact absurd (Option.some.inj hmine) hu

/-- Thread `t` holds the lock `held`, and nothing changes for the other threads. -/
structure Locks (t : θ) (l l' : K → Option θ) (held : Option K) : Prop where
  own : ∀ k, l' k = some t ↔ held = some k
  other : ∀ {u}, u ≠ t → ∀ k, l' k = some u ↔ l k = some u

/-- Thread `t` is in a call for `e`, and nothing changes for the other threads. -/
structure Calls (t : θ) (c c' : ε → Finset θ) (e : Option ε) : Prop where
  own : ∀ e', t ∈ c' e' ↔ e = some e'
  other : ∀ {u}, u ≠ t → ∀ e', u ∈ c' e' ↔ u ∈ c e'

lemma Keeps.of_moves (hG : Good m) (hA : At t m p) (hwf : m'.core.Wf) (hown : At t m' q)
    (hlock : Locks t m.lock m'.lock q.lock) (hcallers : Calls t m.callers m'.callers q.call)
    (h : ∀ e, Same m m' e ∨ Moves t ev p q m m' e) : Keeps t ev p m m' q where
  own := hown
  other hu hB := hA.other hu hB (hlock.other hu) (hcallers.other hu) h
  callers := hcallers.other
  phase e := (h e).imp Same.phase Moves.advance
  good := by
    -- the phase of an entry that another thread has to itself is the old one
    have hother {u : θ} {e : ε} (hu : u ≠ t) (ht : (m'.phase e).thread = some u) : m'.phase e = m.phase e :=
      (h e).elim Same.phase fun h => absurd (h.advance.after ht) hu
    refine ⟨hwf, fun e => (h e).elim (·.entryOk hG) Moves.entry, fun e u k hl => ?_, fun e u hc => ?_⟩
    · have ht := Phase.thread_of_locked hl
      by_cases hu : u = t
      · subst hu
        exact (hown.locks k).2 (Pc.lock_of_claim (hown.claimed e ht) hl)
      · rw [hother hu ht] at hl
        exact (hlock.other hu k).2 (hG.locked e u k hl)
    · have ht := Phase.thread_of_caller hc
      by_cases hu : u = t
      · subst hu
        exact (hown.calls e).2 (Pc.call_of_claim (hown.claimed e ht) hc)
      · rw [hother hu ht] at hc
        exact (hcallers.other hu e).2 (hG.caller e u hc)

/-! ## The actions -/

lemma At.lock_same (hA : At t m p) : Locks t m.lock m.lock p.lock := ⟨hA.locks, fun _ _ => Iff.rfl⟩

lemma At.call_same (hA : At t m p) : Calls t m.callers m.callers p.call := ⟨hA.calls, fun _ _ => Iff.rfl⟩

lemma Keeps.quiet {l : K → Option θ} {c : ε → Finset θ} (hG : Good m) (hA : At t m p)
    (hlocks : Locks t m.lock l q.lock) (hcalls : Calls t m.callers c q.call) (hclaim : q.claim t = p.claim t)
    (htracks : ∀ e, q.tracks = some e → (m.phase e).begun)
    (htarget : ∀ e k, q.target = some (e, k) → m.core.localk e = k)
    (hkeeps : ∀ e k, q.keeps = some (e, k) → m.phase e = .armed k) :
    Keeps t ev p m { m with lock := l, callers := c } q := by
  refine .of_moves hG hA hG.wf ⟨hlocks.own, hcalls.own, ?_, ?_, htracks, htarget, hkeeps⟩ hlocks hcalls
    fun e => .inl ⟨rfl, rfl, rfl, fun k => Iff.rfl, rfl, rfl, rfl⟩
  · rw [hclaim]
    exact hA.claim
  · rw [hclaim]
    exact hA.claimed

lemma Keeps.advance [DecidableEq ε] (hG : Good m) (hA : At t m p) (h : Advance t m ev p q e x y)
    (hx : m.phase e = x) (hphase : m'.phase = update m.phase e y) (hwf : m'.core.Wf)
    (hlocks : Locks t m.lock m'.lock q.lock) (hcalls : Calls t m.callers m'.callers q.call)
    (hsame : ∀ e', e' ≠ e → m'.phase e' = m.phase e' → Same m m' e')
    (hlocal : x.begun → m'.core.localk e = m.core.localk e) (hentry : EntryOk m' e y) :
    Keeps t ev p m m' q := by
  have hy : m'.phase e = y := by
    rw [hphase]
    exact update_self ..
  have hrest (e' : ε) (he : e' ≠ e) : m'.phase e' = m.phase e' := by
    rw [hphase]
    exact update_of_ne he ..
  subst hx hy
  refine .of_moves hG hA hwf ⟨hlocks.own, hcalls.own, ?_, ?_, ?_, ?_, ?_⟩ hlocks hcalls fun e' => ?_
  · intro e' z hz
    rw [h.claim, Option.map_eq_some_iff] at hz
    obtain ⟨-, -, ⟨⟩⟩ := hz
    rfl
  · intro e' ht
    by_cases he : e' = e
    · subst he
      rw [h.claim, ht]
      rfl
    · rw [hrest e' he] at ht
      exact absurd (h.of_claim (hA.claimed e' ht)) he
  · rw [h.tracks.1]
    rintro _ ⟨⟩
  · rw [h.tracks.2]
    rintro _ _ ⟨⟩
  · intro e' k hk
    obtain ⟨rfl, hphase⟩ := h.keeps hk
    exact hphase
  · by_cases he : e' = e
    · rw [he]
      exact .inr ⟨h, hlocal, hentry⟩
    · exact .inl (hsame e' he (hrest e' he))

lemma cancelLoad_keeps (hG : Good m) (hA : At t m (.cancelLoad e)) (ha : m.core.armed e) :
    Keeps t .next (.cancelLoad e) m m (.cancelLocal e) := by
  refine .quiet hG hA hA.lock_same hA.call_same rfl ?_ nofun nofun
  rintro _ ⟨⟩
  rw [(hG.entry e).armed] at ha
  exact Phase.begun_of_armedFlag ha

lemma At.not_locked (hG : Good m) (hA : At t m p) (hlock : p.lock = some k) (hclaim : p.claim t = none)
    (hl : (m.phase e).locked = some (u, k)) : False := by
  have hu := hG.locked e u k hl
  rw [(hA.locks k).2 hlock] at hu
  cases hu
  cases hclaim.symm.trans (hA.claimed e (Phase.thread_of_locked hl))

lemma cancelCheck_keeps (hG : Good m) (hA : At t m (.cancelCheck e k))
    (ha : m.core.armed e) : Keeps t .next (.cancelCheck e k) m m (.cancelDisarm e k) := by
  refine .quiet hG hA hA.lock_same hA.call_same rfl hA.tracks nofun ?_
  rintro _ _ ⟨⟩
  have hlocal := hA.target e k rfl
  have hmine : ∀ {u k'}, (m.phase e).locked = some (u, k') → False := fun {u k'} hl => by
    have hk := (hG.entry e).localk u k' hl
    rw [← hk, hlocal] at hl
    exact hA.not_locked hG rfl rfl hl
  rw [(hG.entry e).armed] at ha
  cases hphase : m.phase e with
  | armed k' =>
    have hon := ((hG.entry e).on k').2 (by rw [hphase]; rfl)
    rw [← hG.wf.localk hon, hlocal]
  | popped u k' | flagged u k' => exact (hmine (by rw [hphase]; rfl)).elim
  | _ => simp [hphase, Phase.armedFlag] at ha

lemma At.lock_acquire [DecidableEq K] (hA : At t m p) (hp : p.lock = none)
    (hl : m.lock k = none) : Locks t m.lock (m.setLock k (some t)).lock (some k) := by
  constructor
  · intro k'
    have hown := hA.locks k'
    simp only [Shared.setLock, update_apply]
    grind
  · intro u hu k'
    simp only [Shared.setLock, update_apply]
    grind

lemma At.lock_release [DecidableEq K] (hA : At t m p) (hp : p.lock = some k) :
    Locks t m.lock (m.setLock k none).lock none := by
  have hheld := (hA.locks k).2 hp
  constructor
  · intro k'
    have hown := hA.locks k'
    simp only [Shared.setLock, update_apply]
    grind
  · intro u hu k'
    simp only [Shared.setLock, update_apply]
    grind

variable [DecidableEq θ] [DecidableEq ε]

lemma At.call_enter (hA : At t m p) (hp : p.call = none) (e : ε) :
    Calls t m.callers (m.call t e).callers (some e) := by
  constructor
  · intro e'
    have hown := hA.calls e'
    simp only [Shared.call, update_apply]
    grind
  · intro u hu e'
    simp only [Shared.call, update_apply]
    grind

lemma At.call_leave (hA : At t m p) (hp : p.call = some e) : Calls t m.callers (m.hangUp t e).callers none := by
  constructor
  · intro e'
    have hown := hA.calls e'
    simp only [Shared.hangUp, update_apply]
    grind
  · intro u hu e'
    simp only [Shared.hangUp, update_apply]
    grind

end

variable {t : θ} {m : Shared θ K ε} {k : K} {e : ε}

lemma wf_set (hwf : m.core.Wf) (a x : ε → Bool) :
    Timers.Wf { m.core with armed := a, executing := x } := ⟨hwf.ordered, hwf.linked, hwf.localk⟩

lemma softirqLoop_armed (hG : Good m) (hA : At t m (.softirqLoop k)) (hon : m.core.On k e) :
    m.phase e = .armed k := by
  have hk := ((hG.entry e).on k).1 hon
  have hmine : ∀ {u}, (m.phase e).locked = some (u, k) → False := fun hl => hA.not_locked hG rfl rfl hl
  revert hk hmine
  cases m.phase e with
  | armed k' =>
    intro hk _
    exact congrArg _ (Option.some.inj hk)
  | entered u k' | disarmed u k' =>
    intro hk hmine
    cases hk
    exact (hmine rfl).elim
  | _ =>
    intro hk _
    cases hk

variable {now d : ℕ}

lemma first_on (hdue : m.core.due k now) : m.core.On k (m.core.first k) := by
  simp only [Timers.due, Bool.decide_and, Bool.and_eq_true, decide_eq_true_eq] at hdue
  exact ⟨0, hdue.1, rfl⟩

lemma EntryOk.free (h : EntryOk m e (m.phase e)) (harmed : m.core.armed e = false)
    (hexec : m.core.executing e = false) (hnone : ∀ u, (m.phase e).caller ≠ some u) : m.phase e = .free := by
  rw [h.armed] at harmed
  rw [h.executing] at hexec
  revert harmed hexec hnone
  cases m.phase e with
  | free => exact fun _ _ _ => rfl
  | starting u | entered u k | disarmed u k | removed u => exact fun _ _ hnone => absurd rfl (hnone u)
  | armed k | popped u k | flagged u k | firing u | running u => nofun

lemma StartsIdle.free {p : Pc K ε} (hG : Good m)
    (hok : StartsIdle t (.timerStart k e d) m p) : m.phase e = .free := by
  obtain ⟨harmed, hexec, hcallers⟩ := hok
  refine (hG.entry e).free harmed hexec fun u hu => ?_
  have hmem := hG.caller e u hu
  rw [hcallers] at hmem
  exact absurd hmem (Finset.notMem_empty u)

lemma endWith_count [DecidableEq ε] {o : Outcome} {n : ℕ} (h : n = (m.ends e).length + 1) :
    n = (update m.ends e (m.ends e ++ [o]) e).length + 0 := by
  rw [update_self, List.length_append]
  exact h

variable [DecidableEq θ] [DecidableEq K] [DecidableEq ε] {r : Shared θ K ε × Pc K ε}

def NextKeeps (t : θ) (m : Shared θ K ε) (p : Pc K ε) : Prop :=
  Good m → At t m p → ∀ r, next t m p = .ok r → Keeps t .next p m r.1 r.2

lemma startArm_keeps : NextKeeps t m (.startArm k e) := by
  rintro hG hA _ ⟨⟩
  have hphase : m.phase e = .entered t k := hA.claim e _ rfl
  obtain ⟨-, hexec, hon, -, hcount⟩ := hphase ▸ hG.entry e
  refine .advance hG hA (.arm rfl) hphase rfl (wf_set hG.wf _ _) hA.lock_same hA.call_same
    (fun e' he hp => ?_) nofun ?_
  · exact ⟨hp, update_of_ne he .., rfl, fun _ => Iff.rfl, rfl, update_of_ne he .., rfl⟩
  · exact ⟨update_self .., hexec, hon, nofun, (update_self ..).trans (congrArg (· + 1) hcount)⟩

lemma startExec_keeps : NextKeeps t m (.startExec k e) := by
  rintro hG hA _ ⟨⟩
  have hexec := (hG.entry e).executing
  rw [hA.keeps e k rfl] at hexec
  have hsame : m.core.setExecuting e false = m.core := by
    unfold Timers.setExecuting
    rw [show false = m.core.executing e from hexec.symm, Function.update_eq_self]
  simp only [hsame]
  exact .quiet hG hA hA.lock_same hA.call_same rfl nofun nofun nofun

lemma cancelDisarm_keeps : NextKeeps t m (.cancelDisarm e k) := by
  rintro hG hA _ ⟨⟩
  have hphase : m.phase e = .armed k := hA.keeps e k rfl
  obtain ⟨-, hexec, hon, -, hcount⟩ := hphase ▸ hG.entry e
  refine .advance hG hA (.disarm rfl) hphase rfl (wf_set hG.wf _ _) hA.lock_same hA.call_same
    (fun e' he hp => ?_) (fun _ => rfl) ⟨update_self .., hexec, hon, ?_, hcount⟩
  · exact ⟨hp, update_of_ne he .., rfl, fun _ => Iff.rfl, rfl, rfl, rfl⟩
  · rintro _ _ ⟨⟩
    exact hG.wf.localk ((hon k).2 rfl)

lemma softirqExec_keeps : NextKeeps t m (.softirqExec k e) := by
  rintro hG hA _ ⟨⟩
  have hphase : m.phase e = .popped t k := hA.claim e _ rfl
  obtain ⟨harmed, -, hon, hlocal, hcount⟩ := hphase ▸ hG.entry e
  refine .advance hG hA (.flag rfl) hphase rfl (wf_set hG.wf _ _) hA.lock_same hA.call_same
    (fun e' he hp => ?_) (fun _ => rfl) ⟨harmed, update_self .., hon, hlocal, hcount⟩
  exact ⟨hp, rfl, update_of_ne he .., fun _ => Iff.rfl, rfl, rfl, rfl⟩

lemma softirqDisarm_keeps : NextKeeps t m (.softirqDisarm k e) := by
  rintro hG hA _ ⟨⟩
  have hphase : m.phase e = .flagged t k := hA.claim e _ rfl
  obtain ⟨-, hexec, hon, -, hcount⟩ := hphase ▸ hG.entry e
  refine .advance hG hA (.fire rfl) hphase rfl (wf_set hG.wf _ _) hA.lock_same hA.call_same
    (fun e' he hp => ?_) (fun _ => rfl) ⟨update_self .., hexec, hon, nofun, hcount⟩
  exact ⟨hp, update_of_ne he .., rfl, fun _ => Iff.rfl, rfl, rfl, rfl⟩

lemma softirqCall_keeps : NextKeeps t m (.softirqCall k e) := by
  rintro hG hA _ ⟨⟩
  have hphase : m.phase e = .firing t := hA.claim e _ rfl
  obtain ⟨harmed, hexec, hon, -, hcount⟩ := hphase ▸ hG.entry e
  refine .advance hG hA (.run rfl) hphase rfl hG.wf hA.lock_same hA.call_same
    (fun e' he hp => ?_) (fun _ => rfl) ⟨harmed, hexec, hon, nofun, endWith_count hcount⟩
  exact ⟨hp, rfl, rfl, fun _ => Iff.rfl, rfl, rfl, update_of_ne he ..⟩

lemma softirqDone_keeps : NextKeeps t m (.softirqDone k e) := by
  rintro hG hA _ ⟨⟩
  have hphase : m.phase e = .running t := hA.claim e _ rfl
  obtain ⟨harmed, -, hon, -, hcount⟩ := hphase ▸ hG.entry e
  refine .advance hG hA (.done rfl) hphase rfl (wf_set hG.wf _ _) hA.lock_same hA.call_same
    (fun e' he hp => ?_) (fun _ => rfl) ⟨harmed, update_self .., hon, nofun, hcount⟩
  exact ⟨hp, rfl, update_of_ne he .., fun _ => Iff.rfl, rfl, rfl, rfl⟩

lemma startEnter_keeps : NextKeeps t m (.startEnter k e d) := by
  intro hG hA r h
  simp only [next] at h
  split at h <;> cases h
  have hphase : m.phase e = .starting t := hA.claim e _ rfl
  obtain ⟨harmed, hexec, hon, -, hcount⟩ := hphase ▸ hG.entry e
  obtain ⟨hwf, hpairs⟩ := hG.wf.enter (fun k' hk' => nomatch (hon k').1 hk') k d
  refine .advance hG hA (.enter rfl) hphase rfl hwf hA.lock_same hA.call_same
    (fun e' he hp => ?_) nofun ⟨harmed, hexec, fun k' => ?_, ?_, hcount⟩
  · refine ⟨hp, rfl, rfl, fun k' => ?_, update_of_ne he .., rfl, rfl⟩
    exact (Timers.on_of_enter hpairs).trans (or_iff_left fun h => he h.2)
  · refine (Timers.on_of_enter hpairs).trans ⟨?_, ?_⟩
    · rintro (hk | ⟨rfl, -⟩)
      · exact nomatch (hon k').1 hk
      · rfl
    · rintro ⟨⟩
      exact .inr ⟨rfl, rfl⟩
  · rintro _ _ ⟨⟩
    exact update_self ..

lemma cancelLeave_keeps : NextKeeps t m (.cancelLeave e k) := by
  rintro hG hA _ ⟨⟩
  have hphase : m.phase e = .disarmed t k := hA.claim e _ rfl
  obtain ⟨harmed, hexec, hon, -, hcount⟩ := hphase ▸ hG.entry e
  obtain ⟨hwf, x, pairs, rfl, hx, hpairs⟩ := hG.wf.leave ((hon k).2 rfl)
  have hon' : ∀ {k' e'}, _ ↔ m.core.On k' e' ∧ e' ≠ _ := hG.wf.on_of_remove hx hpairs
  obtain ⟨ha, hb, hl⟩ := Timers.leave_fields (s := m.core) (k := k) (e := x.entry)
  refine .advance hG hA (.remove rfl) hphase rfl hwf hA.lock_same hA.call_same (fun e' he hp => ?_)
    (fun _ => congrFun hl _) ⟨(congrFun ha _).trans harmed, (congrFun hb _).trans hexec, fun k' => ?_, nofun, hcount⟩
  · refine ⟨hp, congrFun ha e', congrFun hb e', fun k' => ?_, congrFun hl e', rfl, rfl⟩
    exact hon'.trans (and_iff_left he)
  · exact hon'.trans ⟨fun h => absurd rfl h.2, nofun⟩

omit [DecidableEq θ] in
lemma softirqPop_keeps {b : Bool} (hG : Good m) (hA : At t m (.softirqLoop k))
    (hdue : m.core.due k now) : Keeps t (.test now b) (.softirqLoop k) m
      ({ m with core := m.core.pop k }.setPhase (m.core.first k) (.popped t k))
      (.softirqExec k (m.core.first k)) := by
  have hfirst := first_on hdue
  have hpos : 0 < m.core.timern k := (Nat.zero_le _).trans_lt hfirst.choose_spec.1
  obtain ⟨hwf, -, pairs, hx, hpairs⟩ := hG.wf.pop hpos
  have hphase : m.phase (m.core.first k) = .armed k := softirqLoop_armed hG hA hfirst
  obtain ⟨harmed, hexec, hon, -, hcount⟩ := hphase ▸ hG.entry (m.core.first k)
  have hon' : ∀ {k' e'}, _ ↔ m.core.On k' e' ∧ e' ≠ m.core.first k := hG.wf.on_of_remove hx hpairs
  obtain ⟨ha, hb, hl⟩ := Timers.pop_fields (s := m.core) (k := k)
  refine .advance hG hA (.pop rfl) hphase rfl hwf hA.lock_same hA.call_same (fun e' he hp => ?_)
    (fun _ => congrFun hl _) ⟨(congrFun ha _).trans harmed, (congrFun hb _).trans hexec, fun k' => ?_, ?_, hcount⟩
  · refine ⟨hp, congrFun ha e', congrFun hb e', fun k' => ?_, congrFun hl e', rfl, rfl⟩
    exact hon'.trans (and_iff_left he)
  · exact hon'.trans ⟨fun h => absurd rfl h.2, nofun⟩
  · rintro _ _ ⟨⟩
    exact (congrFun hl _).trans (hG.wf.localk hfirst)

omit [DecidableEq K] in
lemma timerStart_keeps (hG : Good m) (hA : At t m .idle) (hok : StartsIdle t (.timerStart k e d) m .idle) :
    Keeps t (.timerStart k e d) .idle m ((m.call t e).setPhase e (.starting t)) (.startLock k e d) := by
  have hphase := hok.free hG
  obtain ⟨harmed, hexec, hcallers⟩ := hok
  obtain ⟨-, -, hon, -, hcount⟩ := hphase ▸ hG.entry e
  refine .advance hG hA (.start hcallers rfl) hphase rfl hG.wf hA.lock_same (hA.call_enter rfl e)
    (fun e' he hp => ?_) (fun _ => rfl) ⟨harmed, hexec, hon, nofun, hcount⟩
  exact ⟨hp, rfl, rfl, fun _ => Iff.rfl, rfl, rfl, rfl⟩

lemma cancelUnlock_keeps : NextKeeps t m (.cancelUnlock e k) := by
  rintro hG hA _ ⟨⟩
  have hphase : m.phase e = .removed t := hA.claim e _ rfl
  obtain ⟨harmed, hexec, hon, -, hcount⟩ := hphase ▸ hG.entry e
  refine .advance hG hA (.cancel rfl) hphase rfl hG.wf (hA.lock_release rfl) (hA.call_leave rfl)
    (fun e' he hp => ?_) (fun _ => rfl) ⟨harmed, hexec, hon, nofun, endWith_count hcount⟩
  exact ⟨hp, rfl, rfl, fun _ => Iff.rfl, rfl, rfl, update_of_ne he ..⟩

omit [DecidableEq θ] [DecidableEq ε] in
lemma Keeps.spinLock {p q : Pc K ε} (hG : Good m) (hA : At t m p)
    (hp : p.lock = none) (hq : q.lock = some k) (hcall : q.call = p.call)
    (hclaim : q.claim t = p.claim t) (htracks : q.tracks = p.tracks) (htarget : q.target = p.target)
    (hkeeps : q.keeps = p.keeps) (h : spinLock t m k q = .ok r) : Keeps t .next p m r.1 r.2 := by
  unfold Cancel.spinLock at h
  split at h
  · next hl =>
      cases h
      exact .quiet hG hA (hq ▸ hA.lock_acquire hp hl) (hcall ▸ hA.call_same) hclaim
        (htracks ▸ hA.tracks) (htarget ▸ hA.target) (hkeeps ▸ hA.keeps)
  · cases h

lemma next_keeps {p : Pc K ε} (hG : Good m) (hA : At t m p)
    (h : next t m p = .ok r) : Keeps t .next p m r.1 r.2 := by
  cases p with
  | idle | softirqLoop k => cases h
  | startLock k e d =>
    exact .spinLock (q := .startCheck k e d) hG hA rfl rfl rfl rfl rfl rfl rfl h
  | cancelLock e k => exact .spinLock (q := .cancelCheck e k) hG hA rfl rfl rfl rfl rfl rfl rfl h
  | softirqLock k => exact .spinLock (q := .softirqLoop k) hG hA rfl rfl rfl rfl rfl rfl rfl h
  | startCheck k e d =>
    simp only [next] at h
    split at h
    · cases h
    · cases h
      exact .quiet hG hA hA.lock_same hA.call_same rfl nofun nofun nofun
  | startEnter k e d => exact startEnter_keeps hG hA _ h
  | startArm k e => exact startArm_keeps hG hA _ h
  | startExec k e => exact startExec_keeps hG hA _ h
  | startUnlock k e =>
    cases h
    exact .quiet hG hA (hA.lock_release rfl) (hA.call_leave rfl) rfl nofun nofun nofun
  | cancelLoad e =>
    simp only [next] at h
    split at h
    · next ha =>
        cases h
        exact cancelLoad_keeps hG hA ha
    · cases h
      exact .quiet hG hA hA.lock_same hA.call_same rfl nofun nofun nofun
  | cancelLocal e =>
    cases h
    refine .quiet hG hA hA.lock_same hA.call_same rfl hA.tracks ?_ nofun
    rintro _ _ ⟨⟩
    rfl
  | cancelCheck e k =>
    simp only [next] at h
    split at h
    · next ha =>
        cases h
        exact cancelCheck_keeps hG hA ha
    · cases h
      exact .quiet hG hA hA.lock_same hA.call_same rfl nofun nofun nofun
  | cancelDisarm e k => exact cancelDisarm_keeps hG hA _ h
  | cancelLeave e k => exact cancelLeave_keeps hG hA _ h
  | cancelUnlock e k => exact cancelUnlock_keeps hG hA _ h
  | cancelMiss e k | softirqUnlock k e =>
    cases h
    exact .quiet hG hA (hA.lock_release rfl) hA.call_same rfl nofun nofun nofun
  | cancelWait e =>
    simp only [next] at h
    split at h
    · cases h
    · cases h
      exact .quiet hG hA hA.lock_same (hA.call_leave rfl) rfl nofun nofun nofun
  | softirqExec k e => exact softirqExec_keeps hG hA _ h
  | softirqDisarm k e => exact softirqDisarm_keeps hG hA _ h
  | softirqCall k e => exact softirqCall_keeps hG hA _ h
  | softirqRun k e =>
    cases h
    exact .quiet hG hA hA.lock_same hA.call_same rfl nofun nofun nofun
  | softirqDone k e => exact softirqDone_keeps hG hA _ h

/-- An action moves an entry to its next phase or leaves it alone. -/
lemma act_keeps {ev : Event K ε} {p : Pc K ε} (hG : Good m)
    (hA : At t m p) (hok : StartsIdle t ev m p) (h : act t ev m p = .ok r) : Keeps t ev p m r.1 r.2 := by
  cases ev with
  | timerStart k e d =>
    cases p <;> cases h
    exact timerStart_keeps hG hA hok
  | timerCancel e =>
    cases p <;> cases h
    exact .quiet hG hA hA.lock_same (hA.call_enter rfl e) rfl nofun nofun nofun
  | timerSoftirqOne k =>
    cases p <;> cases h
    exact .quiet hG hA hA.lock_same hA.call_same rfl nofun nofun nofun
  | next => exact next_keeps hG hA h
  | test now preemptNeeded =>
    cases p with
    | softirqLoop k =>
      simp only [act] at h
      split at h
      · next hdue =>
          cases h
          exact softirqPop_keeps hG hA hdue.2
      · cases h
        exact .quiet hG hA (hA.lock_release rfl) hA.call_same rfl nofun nofun nofun
    | _ => cases h

lemma outline : Threads.Outline (act (θ := θ) (K := K) (ε := ε)) StartsIdle Good At where
  own hG hA hok h := ⟨(act_keeps hG hA hok h).good, (act_keeps hG hA hok h).own⟩
  other hu hG hA hB hok h := (act_keeps hG hA hok h).other hu hB

variable {s : Sys θ K ε}

omit [DecidableEq θ] [DecidableEq K] [DecidableEq ε] in
lemma initial_outline (hs : Initial s) : Good s.shared ∧ ∀ t, At t s.shared (s.own t) := by
  obtain ⟨hcore, hexec, hlock, hentry, hown⟩ := hs
  obtain ⟨hwf, hnot⟩ := initial_wf hcore
  refine ⟨⟨hwf, fun e => ?_, fun e => ?_, fun e => ?_⟩, fun t => ?_⟩
  · obtain ⟨hphase, -, hstarts, hends⟩ := hentry e
    rw [hphase]
    refine ⟨hcore.2 e, hexec e, fun k => ⟨fun hon => absurd hon (hnot k e), nofun⟩, nofun, ?_⟩
    rw [hstarts, hends]
    rfl
  · rw [(hentry e).1]
    nofun
  · rw [(hentry e).1]
    nofun
  · rw [hown]
    refine ⟨fun k => ?_, fun e => ?_, nofun, fun e => ?_, nofun, nofun, nofun⟩
    · rw [hlock]
      exact ⟨nofun, nofun⟩
    · rw [(hentry e).2.1]
      exact ⟨fun h => absurd h (Finset.notMem_empty t), nofun⟩
    · rw [(hentry e).1]
      nofun

lemma reaches_outline (hs : Run.Reaches step (fun s e => StartsIdle e.1 e.2 s.shared (s.own e.1)) Initial s) :
    Good s.shared ∧ ∀ t, At t s.shared (s.own t) :=
  outline.reaches (fun _ => initial_outline) hs

/-! ## The exclusion of firing and cancelling -/

def Running (s : Sys θ K ε) (e : ε) : Prop := ∃ t k, s.own t = .softirqRun k e

/-- An arming of `e` has not ended: `e` is armed, or taken by a softirq that has not called the handler yet, or by a
`timer_cancel` that has not returned. -/
def Pending (s : Sys θ K ε) (e : ε) : Prop := s.shared.core.armed e = true ∨
    (∃ t k, s.own t = .softirqUnlock k e ∨ s.own t = .softirqCall k e) ∨
    ∃ t k, s.own t = .cancelLeave e k ∨ s.own t = .cancelUnlock e k

def Pc.cancels : Pc K ε → Option ε
  | cancelLoad e | cancelLocal e | cancelLock e _ | cancelCheck e _ | cancelDisarm e _
  | cancelLeave e _ | cancelUnlock e _ | cancelMiss e _ | cancelWait e => some e
  | _ => none

section

omit [DecidableEq θ] [DecidableEq K] [DecidableEq ε]

lemma pending_iff (hG : Good s.shared) (hA : ∀ t, At t s.shared (s.own t)) (e : ε) :
    Pending s e ↔ (s.shared.phase e).pending = true := by
  constructor
  · rintro (ha | ⟨t, k, h⟩ | ⟨t, k, h⟩)
    · rw [(hG.entry e).armed] at ha
      exact Phase.pending_of_armedFlag ha
    · have hphase : s.shared.phase e = .firing t := (hA t).claim e _ (by rcases h with h | h <;> rw [h] <;> rfl)
      rw [hphase]
      rfl
    · rcases h with h | h
      · rw [(hA t).claim e (.disarmed t k) (by rw [h]; rfl)]
        rfl
      · rw [(hA t).claim e (.removed t) (by rw [h]; rfl)]
        rfl
  · intro hp
    have harmed := (hG.entry e).armed
    have hclaimed := fun t => (hA t).claimed e
    cases hphase : s.shared.phase e with
    | armed k | popped t k | flagged t k => exact .inl (by rw [harmed, hphase]; rfl)
    | firing t =>
      have hc := hclaimed t (by rw [hphase]; rfl)
      rw [hphase] at hc
      exact .inr (.inl ⟨t, Pc.of_claim_firing hc⟩)
    | disarmed t k =>
      have hc := hclaimed t (by rw [hphase]; rfl)
      rw [hphase] at hc
      exact .inr (.inr ⟨t, k, .inl (Pc.of_claim_disarmed hc)⟩)
    | removed t =>
      have hc := hclaimed t (by rw [hphase]; rfl)
      rw [hphase] at hc
      obtain ⟨k, hk⟩ := Pc.of_claim_removed hc
      exact .inr (.inr ⟨t, k, .inr hk⟩)
    | _ =>
      rw [hphase] at hp
      cases hp

lemma Running.executing {e : ε} (hG : Good s.shared)
    (hA : ∀ t, At t s.shared (s.own t)) (h : Running s e) : s.shared.core.executing e = true := by
  obtain ⟨t, k, ht⟩ := h
  rw [(hG.entry e).executing, (hA t).claim e (.running t) (by rw [ht]; rfl)]
  rfl

end

lemma executing_of_return {m' : Shared θ K ε} {p : Pc K ε} (hG : Good m) (hA : At t m p)
    (hp : p.cancels = some e) (h : next t m p = .ok (m', .idle)) : m'.core.executing e = false := by
  cases p with
  | cancelUnlock e' k' =>
    cases hp
    cases h
    show m.core.executing e = false
    rw [(hG.entry e).executing, hA.claim e (.removed t) rfl]
    rfl
  | cancelWait e' =>
    cases hp
    simp only [next] at h
    split at h
    · cases h
    · next hexec =>
        cases h
        exact Bool.eq_false_iff.2 hexec
  | cancelLoad e' | cancelCheck e' k' =>
    simp only [next] at h
    split at h <;> cases h
  | cancelLock e' k' =>
    simp only [next, Cancel.spinLock] at h
    split at h <;> cases h
  | cancelLocal e' | cancelDisarm e' k' | cancelLeave e' k' | cancelMiss e' k' => cases h
  | _ => cases hp

/-- As long as `timer_start` is only called for idle entries, the armings of an entry take turns with their ends,
calls of the handler or `timer_cancel` returning true; and no handler of an entry is running when a `timer_cancel` of
it returns. -/
theorem timer_exclusion {s : Sys θ K ε}
    (hs : Run.Reaches step (fun s e => StartsIdle e.1 e.2 s.shared (s.own e.1)) Initial s) :
    (∀ e, (Pending s e → s.shared.starts e = (s.shared.ends e).length + 1) ∧
      (¬ Pending s e → s.shared.starts e = (s.shared.ends e).length)) ∧
    ∀ t e s', step s (t, .next) = .ok s' → (s.own t).cancels = some e → s'.own t = .idle →
      ¬ Running s' e := by
  obtain ⟨hG, hA⟩ := reaches_outline hs
  refine ⟨fun e => ?_, fun t e s' h hc hidle hrun => ?_⟩
  · have hcount := (hG.entry e).count
    rw [pending_iff hG hA e]
    constructor
    · intro hp
      rwa [hp] at hcount
    · intro hp
      rwa [Bool.eq_false_iff.2 hp] at hcount
  · obtain ⟨hG', hA'⟩ := reaches_outline (hs.snoc (e := (t, .next)) trivial h)
    have hact := (Threads.step_eq_ok h).1
    rw [hidle] at hact
    have hexec := executing_of_return hG (hA t) hc hact
    rw [hrun.executing hG' hA'] at hexec
    cases hexec

instance (t : θ) (ev : Event K ε) (m : Shared θ K ε) (p : Pc K ε) :
    Decidable (StartsIdle t ev m p) := by
  cases ev <;> dsimp only [StartsIdle] <;> infer_instance

def initSys : Sys (Fin 3) (Fin 2) (Fin 2) where
  shared := {
    core := ⟨fun _ => 0, fun _ _ => ⟨0, 0⟩, fun _ => 0, fun _ => 0, fun _ => false, fun _ => false⟩
    lock _ := none
    phase _ := .free
    callers _ := ∅
    starts _ := 0
    ends _ := [] }
  own _ := .idle

lemma initial_initSys : Initial initSys :=
  ⟨⟨fun _ => rfl, fun _ => rfl⟩, fun _ => rfl, fun _ => rfl, fun _ => ⟨rfl, rfl, rfl, rfl⟩, fun _ => rfl⟩

theorem timer_exclusion_cancelled : ∃ s s' : Sys (Fin 3) (Fin 2) (Fin 2),
    Run.Reaches step (fun s e => StartsIdle e.1 e.2 s.shared (s.own e.1)) Initial s ∧
      step s (2, .next) = .ok s' ∧ s.shared.starts 0 = (s.shared.ends 0).length + 1 ∧
      ¬ Running s' 0 := by
  obtain ⟨s, hs, hpc, s', h, hidle⟩ : ∃ s : Sys (Fin 3) (Fin 2) (Fin 2),
      Run.Reaches step (fun s e => StartsIdle e.1 e.2 s.shared (s.own e.1)) Initial s ∧
        s.own 2 = .cancelUnlock 0 0 ∧ Run.Ends (step s (2, .next)) fun s' => s'.own 2 = .idle :=
    Run.Reaches.of_exec (s := initSys)
      [(0, .timerStart 0 0 5), (0, .next), (0, .next), (0, .next), (0, .next), (0, .next), (0, .next),
        (2, .timerCancel 0), (2, .next), (2, .next), (2, .next), (2, .next), (2, .next), (2, .next)]
      initial_initSys (by decide) (by decide)
  obtain ⟨hcount, hret⟩ := timer_exclusion hs
  exact ⟨s, s', hs, h, (hcount 0).1 (.inr (.inr ⟨2, 0, .inr hpc⟩)), hret 2 0 s' h (by rw [hpc]; rfl) hidle⟩

/-- The handler is running on kthread 0 when thread 1 starts the timer again on kthread 1, which clears `executing`;
then `timer_cancel` returns while the handler is still running. -/
theorem cancel_returns_while_running : ∃ s s' : Sys (Fin 3) (Fin 2) (Fin 2),
    Run.Reaches step (fun _ _ => True) Initial s ∧ step s (2, .next) = .ok s' ∧
      (s.own 2).cancels = some 0 ∧ s'.own 2 = .idle ∧ Running s' 0 := by
  obtain ⟨s, hs, hpc, s', h, hidle, hrun⟩ := Run.reached step Initial (s := initSys) (P := fun s =>
      (s.own 2).cancels = some 0 ∧
        Run.Ends (step s (2, .next)) fun s' => s'.own 2 = .idle ∧ s'.own 0 = .softirqRun 0 0)
      [(0, .timerStart 0 0 5), (0, .next), (0, .next), (0, .next), (0, .next), (0, .next), (0, .next),
        (0, .timerSoftirqOne 0), (0, .next), (0, .test 6 false), (0, .next), (0, .next), (0, .next),
        (0, .next),
        (1, .timerStart 1 0 9), (1, .next), (1, .next), (1, .next), (1, .next), (1, .next), (1, .next),
        (2, .timerCancel 0), (2, .next), (2, .next), (2, .next), (2, .next), (2, .next), (2, .next)]
      initial_initSys (by decide)
  exact ⟨s, s', hs, h, hpc, hidle, 0, 0, hrun⟩

end Aspen.Timer.Cancel
