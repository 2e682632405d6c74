import Aspen.Timer.Cancel

/-!
# Waiting with a timeout (`sync.c`, `timer.c`)

`__timer_sleep` and `condvar_wait_timed` have a timer entry on their stack, start it and park; the handler of
the timer wakes the thread up. The timer functions are those of `Aspen.Timer.Cancel`, and a thread here has a
place in them and, around that, a frame: what it is doing to a condition variable, or the handler that
`timer_softirq_one` has called.
-/

namespace Aspen.TimedWait

open Timer Function

/-- `fn` of an entry, with the condition variable that is in its argument. -/
inductive Handler (C : Type*)
  | condvarTimeout (cv : C)
  | timerFinishSleep
  deriving DecidableEq

inductive Waker
  | timer
  | signal

/-- Whether a thread may run. Who wakes it up is a history that no code reads. -/
inductive Wake (θ : Type*)
  /-- it runs; the last one that woke it up -/
  | awake (last : Option Waker)
  /-- it has parked, or it is going to -/
  | waiting
  /-- taken off a list of waiters by `u`, which will wake it up -/
  | taken (w : Waker) (u : θ)
  /-- `thread_ready` has been called -/
  | ready (w : Waker)

/-- Whether the call that has an entry on its stack has begun, and whether it has returned. -/
inductive Life
  | unused
  | live
  | dead
  deriving DecidableEq

/-- The timers and the condition variables. The argument of a handler is `th` and, for `condvar_wait_timed`,
`timedOut`. `life`, `listed` (the thread is on the list), `handled` (the handler has looked for it) and `returned` are
a history. -/
structure Shared (θ K ε C : Type*) where
  timer : Cancel.Shared θ K ε
  handler : ε → Handler C
  th : ε → θ
  timedOut : ε → Bool
  waiterLock : C → Option θ
  waiters : C → List θ
  wake : θ → Wake θ
  life : ε → Life
  listed : ε → Bool
  handled : ε → Bool
  returned : ε → Option Bool

inductive Frame (θ K ε C : Type*)
  | out
  /-- `condvar_wait_timed`, before `timer_start` -/
  | waitInit (cv : C) (e : ε) (k : K) (deadline : ℕ)
  | waitStart (cv : C) (e : ε)
  | waitLock (cv : C) (e : ε)
  /-- before it reads `timed_out` under the lock -/
  | waitCheck (cv : C) (e : ε)
  /-- before `list_add_tail` -/
  | waitAdd (cv : C) (e : ε)
  | waitPark (cv : C) (e : ε)
  | waitParked (cv : C) (e : ε)
  /-- before it reads `timed_out` again -/
  | waitWoken (cv : C) (e : ε)
  | waitCancel (cv : C) (e : ε)
  /-- in `mutex_lock`, after which it returns -/
  | waitReturn (cv : C) (e : ε)
  /-- `__timer_sleep`, before `timer_start_locked` -/
  | sleepInit (e : ε) (k : K) (deadline : ℕ)
  /-- until it has parked and the timer lock is released -/
  | sleepStart (e : ε)
  | sleepParked (e : ε)
  | sleepReturn (e : ε)
  /-- `condvar_wait` -/
  | plainLock (cv : C)
  | plainAdd (cv : C)
  | plainPark (cv : C)
  | plainParked (cv : C)
  | signalLock (cv : C)
  | signalPop (cv : C)
  | signalUnlock (cv : C) (waketh : Option θ)
  | signalReady (waketh : θ)
  | broadcastLock (cv : C)
  | broadcastTake (cv : C)
  | broadcastUnlock (cv : C) (tmp : List θ)
  | broadcastReady (tmp : List θ)
  /-- in `timer_softirq_one` -/
  | softirq
  /-- `condvar_timeout` -/
  | timeoutLock (cv : C) (e : ε)
  | timeoutSearch (cv : C) (e : ε)
  | timeoutUnlock (cv : C) (e : ε) (found : Bool)
  | timeoutReady (e : ε)
  /-- `timer_finish_sleep` -/
  | finishSleep (e : ε)
  /-- about to return to `timer_softirq_one` -/
  | handlerDone (e : ε)
  deriving DecidableEq

structure Own (θ K ε C : Type*) where
  timer : Cancel.Pc K ε
  frame : Frame θ K ε C

inductive Event (K ε C : Type*)
  | condvarWaitTimed (cv : C) (e : ε) (k : K) (deadline : ℕ)
  | timerSleep (e : ε) (k : K) (deadline : ℕ)
  | condvarWait (cv : C)
  | condvarSignal (cv : C)
  | condvarBroadcast (cv : C)
  | timerSoftirqOne (k : K)
  /-- the condition of the loop of `timer_softirq_one` -/
  | test (now : ℕ) (preemptNeeded : Bool)
  | next

inductive Stop
  | timer (d : Cancel.Stop)
  | blocked
  /-- the entry belongs to another call -/
  | reused
  | misplaced

variable {θ K ε C : Type*}

def Handler.frame (e : ε) : Handler C → Frame θ K ε C
  | condvarTimeout cv => .timeoutLock cv e
  | timerFinishSleep => .finishSleep e

/-- What comes after a step of a timer function: `f` if it has returned. -/
def Frame.after (f g : Frame θ K ε C) : Cancel.Pc K ε → Frame θ K ε C
  | .idle => f
  | _ => g

variable [DecidableEq θ] [DecidableEq K] [DecidableEq ε] [DecidableEq C]

namespace Shared

variable (m : Shared θ K ε C) (e : ε)

def setLock (cv : C) (l : Option θ) : Shared θ K ε C := { m with waiterLock := update m.waiterLock cv l }

def setWaiters (cv : C) (l : List θ) : Shared θ K ε C := { m with waiters := update m.waiters cv l }

def setWake (t : θ) (w : Wake θ) : Shared θ K ε C := { m with wake := update m.wake t w }

def takeAll (ws : List θ) (t : θ) : Shared θ K ε C :=
  { m with wake := fun w => if w ∈ ws then .taken .signal t else m.wake w }

/-- The entry and the argument of the handler are initialised. -/
def create (t : θ) (h : Handler C) : Shared θ K ε C :=
  { m with
    handler := update m.handler e h
    th := update m.th e t
    timedOut := update m.timedOut e false
    life := update m.life e .live }

def discard (b : Option Bool) : Shared θ K ε C :=
  { m with
    life := update m.life e .dead
    returned := update m.returned e b }

def setTimedOut : Shared θ K ε C := { m with timedOut := update m.timedOut e true }

def setListed : Shared θ K ε C := { m with listed := update m.listed e true }

def setHandled : Shared θ K ε C := { m with handled := update m.handled e true }

end Shared

variable (t : θ) (m : Shared θ K ε C)

def timerAct (ev : Cancel.Event K ε) (m : Shared θ K ε C) (pc : Cancel.Pc K ε)
    (f : Cancel.Pc K ε → Frame θ K ε C) : Except Stop (Shared θ K ε C × Own θ K ε C) :=
  match Cancel.act t ev m.timer pc with
  | .ok (n, pc') => .ok ({ m with timer := n }, ⟨pc', f pc'⟩)
  | .error d => .error (.timer d)

def spinLock (cv : C) (r : Own θ K ε C) : Except Stop (Shared θ K ε C × Own θ K ε C) :=
  if m.waiterLock cv = none then .ok (m.setLock cv (some t), r) else .error .blocked

def resume (r : Own θ K ε C) : Except Stop (Shared θ K ε C × Own θ K ε C) :=
  match m.wake t with
  | .ready w => .ok (m.setWake t (.awake (some w)), r)
  | _ => .error .blocked

def next (pc : Cancel.Pc K ε) : Frame θ K ε C → Except Stop (Shared θ K ε C × Own θ K ε C)
  | .out => .error .misplaced
  | .waitInit cv e k d => timerAct t (.timerStart k e d) m pc fun _ => .waitStart cv e
  | .waitStart cv e => timerAct t .next m pc (.after (.waitLock cv e) (.waitStart cv e))
  | .waitLock cv e => spinLock t m cv ⟨pc, .waitCheck cv e⟩
  | .waitCheck cv e =>
    if m.timedOut e then .ok ((m.setLock cv none).discard e (some false), ⟨pc, .out⟩)
    else .ok (m, ⟨pc, .waitAdd cv e⟩)
  | .waitAdd cv e =>
    .ok (((m.setWaiters cv (m.waiters cv ++ [t])).setWake t .waiting).setListed e, ⟨pc, .waitPark cv e⟩)
  | .waitPark cv e => .ok (m.setLock cv none, ⟨pc, .waitParked cv e⟩)
  | .waitParked cv e => resume t m ⟨pc, .waitWoken cv e⟩
  | .waitWoken cv e =>
    if m.timedOut e then .ok (m, ⟨pc, .waitReturn cv e⟩)
    else timerAct t (.timerCancel e) m pc fun _ => .waitCancel cv e
  | .waitCancel cv e => timerAct t .next m pc (.after (.waitReturn cv e) (.waitCancel cv e))
  | .waitReturn _ e => .ok (m.discard e (some (!m.timedOut e)), ⟨pc, .out⟩)
  | .sleepInit e k d => timerAct t (.timerStart k e d) m pc fun _ => .sleepStart e
  | .sleepStart e => timerAct t .next m pc (.after (.sleepParked e) (.sleepStart e))
  | .sleepParked e => resume t m ⟨pc, .sleepReturn e⟩
  | .sleepReturn e => .ok (m.discard e none, ⟨pc, .out⟩)
  | .plainLock cv => spinLock t m cv ⟨pc, .plainAdd cv⟩
  | .plainAdd cv =>
    .ok ((m.setWaiters cv (m.waiters cv ++ [t])).setWake t .waiting, ⟨pc, .plainPark cv⟩)
  | .plainPark cv => .ok (m.setLock cv none, ⟨pc, .plainParked cv⟩)
  | .plainParked _ => resume t m ⟨pc, .out⟩
  | .signalLock cv => spinLock t m cv ⟨pc, .signalPop cv⟩
  | .signalPop cv =>
    match m.waiters cv with
    | [] => .ok (m, ⟨pc, .signalUnlock cv none⟩)
    | w :: ws =>
      .ok ((m.setWaiters cv ws).setWake w (.taken .signal t), ⟨pc, .signalUnlock cv (some w)⟩)
  | .signalUnlock cv none => .ok (m.setLock cv none, ⟨pc, .out⟩)
  | .signalUnlock cv (some w) => .ok (m.setLock cv none, ⟨pc, .signalReady w⟩)
  | .signalReady w => .ok (m.setWake w (.ready .signal), ⟨pc, .out⟩)
  | .broadcastLock cv => spinLock t m cv ⟨pc, .broadcastTake cv⟩
  | .broadcastTake cv =>
    .ok ((m.setWaiters cv []).takeAll (m.waiters cv) t, ⟨pc, .broadcastUnlock cv (m.waiters cv)⟩)
  | .broadcastUnlock cv ws => .ok (m.setLock cv none, ⟨pc, .broadcastReady ws⟩)
  | .broadcastReady [] => .ok (m, ⟨pc, .out⟩)
  | .broadcastReady (w :: ws) => .ok (m.setWake w (.ready .signal), ⟨pc, .broadcastReady ws⟩)
  | .softirq =>
    match pc with
    | .softirqCall _ e => timerAct t .next m pc fun _ => (m.handler e).frame e
    | _ => timerAct t .next m pc fun _ => .softirq
  | .timeoutLock cv e => spinLock t m cv ⟨pc, .timeoutSearch cv e⟩
  | .timeoutSearch cv e =>
    if m.th e ∈ m.waiters cv then
      .ok ((((m.setWaiters cv ((m.waiters cv).erase (m.th e))).setWake (m.th e)
        (.taken .timer t)).setTimedOut e).setHandled e, ⟨pc, .timeoutUnlock cv e true⟩)
    else .ok (m.setHandled e, ⟨pc, .timeoutUnlock cv e false⟩)
  | .timeoutUnlock cv e true => .ok (m.setLock cv none, ⟨pc, .timeoutReady e⟩)
  | .timeoutUnlock cv e false => .ok (m.setLock cv none, ⟨pc, .handlerDone e⟩)
  | .timeoutReady e => .ok (m.setWake (m.th e) (.ready .timer), ⟨pc, .handlerDone e⟩)
  | .finishSleep e =>
    .ok ((m.setWake (m.th e) (.ready .timer)).setHandled e, ⟨pc, .handlerDone e⟩)
  | .handlerDone _ => timerAct t .next m pc fun _ => .softirq

def act : Event K ε C → Shared θ K ε C → Own θ K ε C → Except Stop (Shared θ K ε C × Own θ K ε C)
  | .condvarWaitTimed cv e k d, m, ⟨pc, .out⟩ =>
    if m.life e = .unused then .ok (m.create e t (.condvarTimeout cv), ⟨pc, .waitInit cv e k d⟩)
    else .error .reused
  | .timerSleep e k d, m, ⟨pc, .out⟩ =>
    if m.life e = .unused then
      .ok ((m.create e t .timerFinishSleep).setWake t .waiting, ⟨pc, .sleepInit e k d⟩)
    else .error .reused
  | .condvarWait cv, m, ⟨pc, .out⟩ => .ok (m, ⟨pc, .plainLock cv⟩)
  | .condvarSignal cv, m, ⟨pc, .out⟩ => .ok (m, ⟨pc, .signalLock cv⟩)
  | .condvarBroadcast cv, m, ⟨pc, .out⟩ => .ok (m, ⟨pc, .broadcastLock cv⟩)
  | .timerSoftirqOne k, m, ⟨pc, .out⟩ => timerAct t (.timerSoftirqOne k) m pc fun _ => .softirq
  | .test now preemptNeeded, m, ⟨pc, .softirq⟩ =>
    timerAct t (.test now preemptNeeded) m pc (.after .out .softirq)
  | .next, m, ⟨pc, f⟩ => next t m pc f
  | _, _, _ => .error .misplaced

abbrev Sys (θ K ε C : Type*) := Threads.Sys θ (Shared θ K ε C) (Own θ K ε C)

def step : Sys θ K ε C → θ × Event K ε C → Except Stop (Sys θ K ε C) := Threads.step act

def Initial (s : Sys θ K ε C) : Prop := Cancel.Initial ⟨s.shared.timer, fun t => (s.own t).timer⟩ ∧
    (∀ c, s.shared.waiterLock c = none ∧ s.shared.waiters c = []) ∧
    (∀ e, s.shared.life e = .unused ∧ s.shared.listed e = false ∧ s.shared.handled e = false ∧
      s.shared.returned e = none) ∧
    ∀ t, s.shared.wake t = .awake none ∧ (s.own t).frame = .out

end Aspen.TimedWait
