import Aspen.Sync.TimedWait

/-!
# A proof outline for waiting with a timeout

The outline of the timer functions (`Cancel.Good`, `Cancel.At`) carries over, because an entry is only
started by the call that has it on its stack and before anybody else knows it. What is added is about the
handler of an entry and the thread it is for.
-/

namespace Aspen.Timer.Cancel

variable {θ K ε : Type*}

namespace Pc

def starts : Pc K ε → Option ε
  | startLock _ e _ | startCheck _ e _ | startEnter _ e _ | startArm _ e | startExec _ e
  | startUnlock _ e => some e
  | _ => none

def softirq : Pc K ε → Bool
  | softirqLock _ | softirqLoop _ | softirqExec .. | softirqDisarm .. | softirqUnlock ..
  | softirqCall .. | softirqDone .. => true
  | _ => false

def runs : Pc K ε → Option ε
  | softirqRun _ e => some e
  | _ => none

def missed : Pc K ε → Option ε
  | cancelMiss e _ | cancelWait e => some e
  | _ => none

variable {pc : Pc K ε} {e : ε}

lemma call_of_starts (h : pc.starts = some e) : pc.call = some e := by
  cases pc <;> first | exact h | cases h

lemma call_of_cancels (h : pc.cancels = some e) : pc.call = some e := by
  cases pc <;> first | exact h | cases h

lemma call_of_missed (h : pc.missed = some e) : pc.call = some e := by
  cases pc <;> first | exact h | cases h

lemma missed_of_starts (h : pc.starts = some e) : pc.missed = none := by
  cases pc <;> first | rfl | cases h

lemma missed_of_softirq (h : pc.softirq) : pc.missed = none := by
  cases pc <;> first | rfl | cases h

lemma call_of_softirq (h : pc.softirq) : pc.call = none := by
  cases pc <;> first | rfl | cases h

lemma call_of_runs (h : pc.runs = some e) : pc.call = none := by
  cases pc <;> first | rfl | cases h

end Pc

variable [DecidableEq θ] [DecidableEq K] [DecidableEq ε]
variable {t : θ} {m n : Shared θ K ε} {p q : Pc K ε} {e : ε}

lemma next_starts (h : next t m p = .ok (n, q)) (hp : p.starts = some e) : q.starts = some e ∨ q = .idle := by
  cases p <;> simp only [next, spinLock] at h <;> (try split at h) <;> cases h <;>
    first | exact .inl hp | exact .inr rfl

lemma next_cancels (h : next t m p = .ok (n, q)) (hp : p.cancels = some e) : q.cancels = some e ∨ q = .idle := by
  cases p <;> simp only [next, spinLock] at h <;> (try split at h) <;> cases h <;>
    first | exact .inl hp | exact .inr rfl

lemma next_softirq (h : next t m p = .ok (n, q)) (hp : p.softirq)
    (hcall : ∀ k e, p ≠ .softirqCall k e) : q.softirq ∧ ∀ k e, q ≠ .softirqDone k e := by
  cases p <;> simp only [next, spinLock] at h <;> (try split at h) <;> cases h <;>
    first | exact absurd rfl (hcall _ _) | (cases hp; done) | exact ⟨rfl, fun _ _ h => by cases h⟩

lemma test_softirq {now : ℕ} {b : Bool} (h : act t (.test now b) m p = .ok (n, q)) :
    (∃ k e, q = .softirqExec k e) ∨ q = .idle := by
  cases p <;> simp only [act] at h <;> (try split at h) <;> cases h <;>
    first | exact .inl ⟨_, _, rfl⟩ | exact .inr rfl

lemma next_missed (hG : Good m) (h : next t m p = .ok (n, q)) (hq : q.missed = some e) :
    n.phase e = m.phase e ∧ (p.missed = some e ∨ (m.phase e).armedFlag = false) := by
  cases p <;> simp only [next, spinLock] at h <;> (try split at h) <;> cases h <;>
    try cases hq
  · next ha => exact ⟨rfl, .inr (by simpa [(hG.entry _).armed] using ha)⟩
  · next ha => exact ⟨rfl, .inr (by simpa [(hG.entry _).armed] using ha)⟩
  · exact ⟨rfl, .inl rfl⟩

lemma next_returns (h : next t m p = .ok (n, .idle)) (hp : p.cancels = some e) :
    n.phase e = .free ∨ n.phase = m.phase ∧ p.missed = some e := by
  cases p with
  | cancelUnlock e' k =>
    cases hp
    cases h
    exact .inl (Function.update_self ..)
  | cancelWait e' =>
    cases hp
    simp only [next] at h
    split at h <;> cases h
    exact .inr ⟨rfl, rfl⟩
  | cancelLoad e' | cancelCheck e' k =>
    simp only [next] at h
    split at h <;> cases h
  | cancelLock e' k =>
    simp only [next, spinLock] at h
    split at h <;> cases h
  | cancelLocal e' | cancelDisarm e' k | cancelLeave e' k | cancelMiss e' k => cases h
  | _ => cases hp

end Aspen.Timer.Cancel

namespace Aspen.TimedWait

open Timer

variable {θ K ε C : Type*}

structure Stage where
  asleep : Bool := false
  early : Bool := false
  late : Bool := false
  fresh : Bool := false
  watched : Bool := false
  returning : Bool := false

structure Role (θ ε C : Type*) where
  entry : Option ε := none
  handler : Option (ε × Handler C) := none
  waits : Option C := none
  hand : List θ := []
  parks : Bool := false
  stage : Stage := {}
  handling : Option ε := none
  handled : Option ε := none
  taken : Option ε := none

namespace Frame

def role : Frame θ K ε C → Role θ ε C
  | waitInit cv e .. =>
    { entry := some e, handler := some (e, .condvarTimeout cv), stage := { early := true, fresh := true } }
  | waitStart cv e | waitLock cv e | waitCheck cv e | waitAdd cv e =>
    { entry := some e, handler := some (e, .condvarTimeout cv), stage := { early := true, watched := true } }
  | waitPark cv e | waitParked cv e =>
    { entry := some e, handler := some (e, .condvarTimeout cv), waits := some cv, parks := true,
      stage := { late := true, watched := true } }
  | waitWoken cv e =>
    { entry := some e, handler := some (e, .condvarTimeout cv), stage := { late := true, watched := true } }
  | waitCancel cv e => { entry := some e, handler := some (e, .condvarTimeout cv), stage := { late := true } }
  | waitReturn cv e =>
    { entry := some e, handler := some (e, .condvarTimeout cv), stage := { late := true, returning := true } }
  | sleepInit e .. =>
    { entry := some e, handler := some (e, .timerFinishSleep), parks := true,
      stage := { asleep := true, fresh := true } }
  | sleepStart e | sleepParked e =>
    { entry := some e, handler := some (e, .timerFinishSleep), parks := true, stage := { asleep := true } }
  | sleepReturn e =>
    { entry := some e, handler := some (e, .timerFinishSleep), handled := some e }
  | plainPark cv | plainParked cv => { waits := some cv, parks := true }
  | signalUnlock _ w => { hand := w.toList }
  | signalReady w => { hand := [w] }
  | broadcastUnlock _ ws | broadcastReady ws => { hand := ws }
  | timeoutLock cv e | timeoutSearch cv e =>
    { handler := some (e, .condvarTimeout cv), handling := some e }
  | finishSleep e => { handler := some (e, .timerFinishSleep), handling := some e }
  | timeoutUnlock _ e found => { handled := some e, taken := bif found then some e else none }
  | timeoutReady e => { handled := some e, taken := some e }
  | handlerDone e => { handled := some e }
  | out | plainLock _ | plainAdd _ | signalLock _ | signalPop _ | broadcastLock _ | broadcastTake _
  | softirq => {}

def lock : Frame θ K ε C → Option C
  | waitCheck cv _ | waitAdd cv _ | waitPark cv _ | plainAdd cv | plainPark cv | signalPop cv
  | signalUnlock cv _ | broadcastTake cv | broadcastUnlock cv _ | timeoutSearch cv _
  | timeoutUnlock cv .. => some cv
  | _ => none

def Fits : Frame θ K ε C → Cancel.Pc K ε → Prop
  | waitStart _ e, pc | sleepStart e, pc => pc.starts = some e
  | waitCancel _ e, pc => pc.cancels = some e
  | softirq, pc => pc.softirq = true
  | timeoutLock _ e, pc | timeoutSearch _ e, pc | timeoutUnlock _ e _, pc | timeoutReady e, pc
  | finishSleep e, pc | handlerDone e, pc => pc.runs = some e
  | _, pc => pc = .idle

end Frame

structure Good (m : Shared θ K ε C) : Prop where
  timer : Cancel.Good m.timer
  unused : ∀ e, m.life e = .unused → m.timer.phase e = .free ∧ m.handled e = false
  unlisted : ∀ e, m.life e = .unused → m.listed e = false
  callers : ∀ e t, t ∈ m.timer.callers e → m.life e = .live ∧ m.th e = t
  handled : ∀ e, m.handled e = true → m.timer.phase e = .free ∨ ∃ u, m.timer.phase e = .running u
  dead : ∀ e, m.life e = .dead → m.timer.phase e = .free ∨ m.handled e = true
  timedOut : ∀ e, m.life e ≠ .unused → m.timedOut e = true → m.handled e = true
  waiting : ∀ c, ∀ t ∈ m.waiters c, m.wake t = .waiting
  nodup : ∀ c, (m.waiters c).Nodup
  once : ∀ {c c' t}, t ∈ m.waiters c → t ∈ m.waiters c' → c = c'
  /-- a sleeping thread is on no list -/
  sleeper : ∀ e, m.life e = .live → m.handler e = .timerFinishSleep →
    (∀ c, m.th e ∉ m.waiters c) ∧ ∀ w u, m.wake (m.th e) ≠ .taken w u

def Wake.waker : Wake θ → Option Waker
  | awake w => w
  | waiting => none
  | taken w _ | ready w => some w

structure Stack (r : Stage) (wake : Wake θ) (timedOut listed handled : Bool) (phase : Cancel.Phase θ K) : Prop where
  asleep : r.asleep = true → ∀ w, wake = .ready w → handled = true
  early : r.early = true → timedOut = false ∧ listed = false
  late : r.late = true → (timedOut = true ↔ wake.waker = some .timer)
  fresh : r.fresh = true → phase = .free ∧ handled = false
  watched : r.watched = true → phase = .free → handled = true
  returning : r.returning = true → timedOut = false → phase = .free

/-- What a thread knows about the shared state when it is at `pc` in the timer functions, in a frame with
the role `r`. -/
structure Knows (t : θ) (m : Shared θ K ε C) (pc : Cancel.Pc K ε) (r : Role θ ε C) : Prop where
  timer : Cancel.At t m.timer pc
  entry : ∀ e, (m.life e = .live ∧ m.th e = t) ↔ r.entry = some e
  handler : ∀ e h, r.handler = some (e, h) → m.handler e = h
  waits : ∀ c, t ∈ m.waiters c → r.waits = some c
  hand : ∀ w ∈ r.hand, m.wake w = .taken .signal t
  nodup : r.hand.Nodup
  awake : (∃ w, m.wake t = .awake w) ↔ r.parks = false
  stack : ∀ e, r.entry = some e → Stack r.stage (m.wake t) (m.timedOut e) (m.listed e) (m.handled e) (m.timer.phase e)
  missed : ∀ e, pc.missed = some e → (m.timer.phase e).armedFlag = false
  handling : ∀ e, r.handling = some e → m.handled e = false
  handled : ∀ e, r.handled = some e → m.handled e = true
  done : ∀ k e, pc = .softirqDone k e → m.handled e = true
  taken : ∀ e, r.taken = some e → m.wake (m.th e) = .taken .timer t

structure At (t : θ) (m : Shared θ K ε C) (r : Own θ K ε C) : Prop where
  knows : Knows t m r.timer r.frame.role
  fits : r.frame.Fits r.timer
  locks : ∀ c, m.waiterLock c = some t ↔ r.frame.lock = some c

structure Keeps (t : θ) (m m' : Shared θ K ε C) (r : Own θ K ε C) : Prop where
  good : Good m'
  own : At t m' r
  other : ∀ {u q}, u ≠ t → At u m q → At u m' q

/-! ## The timer functions -/

namespace Frame

variable {f : Frame θ K ε C} {pc : Cancel.Pc K ε} {e : ε}

lemma fits_of_fresh (h : f.role.stage.fresh) : f.Fits = (· = .idle) := by
  cases f <;> first | rfl | cases h

lemma entry_of_call (hf : f.Fits pc) (h : pc.call = some e) : f.role.entry = some e := by
  cases f <;> first
    | exact (Cancel.Pc.call_of_starts hf).symm.trans h
    | exact (Cancel.Pc.call_of_cancels hf).symm.trans h
    | cases (Cancel.Pc.call_of_softirq hf).symm.trans h
    | cases (Cancel.Pc.call_of_runs hf).symm.trans h
    | cases hf; cases h

end Frame

variable {t : θ} {m : Shared θ K ε C} {r : Own θ K ε C}

section

variable {pc pc' : Cancel.Pc K ε} {ρ : Role θ ε C} (hk : Knows t m pc ρ)
include hk

lemma Knows.forget : Knows t m pc { entry := ρ.entry, waits := ρ.waits, parks := ρ.parks } := { hk with
  handler := nofun
  hand := nofun
  nodup := List.nodup_nil
  stack _ _ := ⟨nofun, nofun, nofun, nofun, nofun, nofun⟩
  handling := nofun
  handled := nofun
  taken := nofun }

lemma Knows.setTimer {n : Cancel.Shared θ K ε} (ht : Cancel.At t n pc')
    (hmissed : ∀ e, pc'.missed = some e → (n.phase e).armedFlag = false)
    (hdone : ∀ k e, pc' = .softirqDone k e → m.handled e) : Knows t { m with timer := n } pc'
      { ρ with stage := { ρ.stage with fresh := false, watched := false, returning := false } } :=
  { hk with
    timer := ht
    stack := fun e he => { hk.stack e he with fresh := nofun, watched := nofun, returning := nofun }
    missed := hmissed
    done := hdone }

end

/-- The entry on the stack of a call is only started once, and before anybody else knows it. -/
lemma At.startsIdle (hG : Good m) (hA : At t m r) {k : K} {e : ε} {d : ℕ}
    (h : r.frame.role.entry = some e ∧ r.frame.role.stage.fresh) :
    Cancel.StartsIdle t (.timerStart k e d) m.timer r.timer := by
  obtain ⟨hentry, hfresh⟩ := h
  have hphase := ((hA.knows.stack e hentry).fresh hfresh).1
  refine ⟨?_, ?_, Finset.eq_empty_of_forall_notMem fun u hu => ?_⟩
  · rw [(hG.timer.entry e).armed, hphase]
    rfl
  · rw [(hG.timer.entry e).executing, hphase]
    rfl
  · obtain rfl : t = u := ((hA.knows.entry e).2 hentry).2.symm.trans (hG.callers e u hu).2
    have hcall := (hA.knows.timer.calls e).1 hu
    have hidle : r.timer = .idle := by
      have hf := hA.fits
      rwa [Frame.fits_of_fresh hfresh] at hf
    rw [hidle] at hcall
    cases hcall

variable [DecidableEq θ] [DecidableEq K] [DecidableEq ε]

/-- An action of a timer function, which starts an entry only if it is fresh. -/
structure TimerAct (t : θ) (m : Shared θ K ε C) (r : Own θ K ε C) (ev : Cancel.Event K ε)
    (n : Cancel.Shared θ K ε) (pc : Cancel.Pc K ε) : Prop where
  act : Cancel.act t ev m.timer r.timer = .ok (n, pc)
  start : ∀ k e d, ev = .timerStart k e d → r.frame.role.entry = some e ∧ r.frame.role.stage.fresh = true

namespace TimerAct

variable {ev : Cancel.Event K ε} {n : Cancel.Shared θ K ε} {pc : Cancel.Pc K ε} {e : ε}

section

variable (h : TimerAct t m r ev n pc)
include h

lemma startsIdle (hG : Good m) (hA : At t m r) : Cancel.StartsIdle t ev m.timer r.timer := by
  cases ev with
  | timerStart k e d => exact hA.startsIdle hG (h.start k e d rfl)
  | _ => trivial

lemma keeps (hG : Good m) (hA : At t m r) : Cancel.Keeps t ev r.timer m.timer n pc :=
  Cancel.act_keeps hG.timer hA.knows.timer (h.startsIdle hG hA) h.act

lemma free (hG : Good m) (hA : At t m r)
    (hfree : m.timer.phase e = .free) (he : ¬ (r.frame.role.entry = some e ∧ r.frame.role.stage.fresh)) :
    n.phase e = .free := by
  rcases (h.keeps hG hA).phase e with hp | hp
  · rw [hp, hfree]
  · rw [hfree] at hp
    generalize n.phase e = x at hp
    cases hp with
    | start _ hev => exact absurd (h.start _ _ _ (congrArg (·.1) hev)) he

lemma of_free (hG : Good m) (hA : At t m r) (hfree : n.phase e = .free) :
    m.timer.phase e = .free ∨ m.handled e ∨ ∃ k, r.timer = .cancelUnlock e k := by
  rcases (h.keeps hG hA).phase e with hp | hp
  · exact .inl (hp.symm.trans hfree)
  · rw [hfree] at hp
    generalize m.timer.phase e = x at hp
    cases hp with
    | done hpc => exact .inr (.inl (hA.knows.done _ e (congrArg (·.2.1) hpc)))
    | cancel hpc => exact .inr (.inr ⟨_, congrArg (·.2.1) hpc⟩)

lemma armedFlag (hG : Good m) (hA : At t m r)
    (hflag : (m.timer.phase e).armedFlag = false) (ht : r.timer.call ≠ some e) :
    (n.phase e).armedFlag = false := by
  rcases (h.keeps hG hA).phase e with hp | hp
  · rw [hp, hflag]
  · have hcaller := hG.timer.caller e t
    generalize n.phase e = x at hp
    generalize m.timer.phase e = y at hp hflag hcaller
    cases hp with
    | arm => exact absurd ((hA.knows.timer.calls e).1 (hcaller rfl)) ht
    | _ => first | rfl | cases hflag

end

end TimerAct

lemma Keeps.timer {ev : Cancel.Event K ε} {n : Cancel.Shared θ K ε} {pc : Cancel.Pc K ε}
    {f : Frame θ K ε C} (hG : Good m) (hA : At t m r) (h : TimerAct t m r ev n pc)
    (hown : At t { m with timer := n } ⟨pc, f⟩) : Keeps t m { m with timer := n } ⟨pc, f⟩ where
  own := hown
  good := by
    have hkeeps := h.keeps hG hA
    have hlive : ∀ e, r.frame.role.entry = some e → m.life e = .live := fun e he =>
      ((hA.knows.entry e).2 he).1
    exact { hG with
      timer := hkeeps.good
      unused := fun e he => by
        obtain ⟨hfree, hnot⟩ := hG.unused e he
        refine ⟨h.free hG hA hfree fun hf => ?_, hnot⟩
        rw [hlive e hf.1] at he
        cases he
      callers := fun e u hu => by
        by_cases hut : u = t
        · subst hut
          exact (hown.knows.entry e).2 (Frame.entry_of_call hown.fits ((hown.knows.timer.calls e).1 hu))
        · exact hG.callers e u ((hkeeps.callers hut e).1 hu)
      handled := fun e he => by
        rcases hG.handled e he with hp | ⟨u, hp⟩
        · refine .inl (h.free hG hA hp fun hf => ?_)
          rw [((hA.knows.stack e hf.1).fresh hf.2).2] at he
          cases he
        · rcases (h.keeps hG hA).phase e with hq | hq
          · exact .inr ⟨u, hq.trans hp⟩
          · rw [hp] at hq
            generalize n.phase e = x at hq
            cases hq with
            | done => exact .inl rfl
      dead := fun e he => by
        rcases hG.dead e he with hp | hp
        · refine .inl (h.free hG hA hp fun hf => ?_)
          rw [hlive e hf.1] at he
          cases he
        · exact .inr hp }
  other {u q} hu hB := by
    have hnot : ∀ e, q.frame.role.entry = some e → r.frame.role.entry ≠ some e := fun e hq hr =>
      hu (((hB.knows.entry e).2 hq).2.symm.trans ((hA.knows.entry e).2 hr).2)
    have hcall : ∀ e, q.frame.role.entry = some e → r.timer.call ≠ some e := fun e hq hr =>
      hnot e hq (Frame.entry_of_call hA.fits hr)
    have hfree : ∀ e, q.frame.role.entry = some e → m.timer.phase e = .free → n.phase e = .free :=
      fun e hq hp => h.free hG hA hp fun hr => hnot e hq hr.1
    refine ⟨?_, hB.fits, hB.locks⟩
    exact { hB.knows with
      timer := (h.keeps hG hA).other hu hB.knows.timer
      stack := fun e he => { hB.knows.stack e he with
        fresh := fun hf => ((hB.knows.stack e he).fresh hf).imp_left (hfree e he)
        watched := fun hw hfree => by
          rcases h.of_free hG hA hfree with hp | hp | ⟨k, hp⟩
          · exact (hB.knows.stack e he).watched hw hp
          · exact hp
          · exact absurd (by rw [hp]; rfl) (hcall e he)
        returning := fun hr hto => hfree e he ((hB.knows.stack e he).returning hr hto) }
      missed := fun e he => h.armedFlag hG hA (hB.knows.missed e he)
        (hcall e (Frame.entry_of_call hB.fits (Cancel.Pc.call_of_missed he))) }

section

variable {pc : Cancel.Pc K ε} {cv : C} {e : ε} {n : Cancel.Shared θ K ε} {pc' : Cancel.Pc K ε}

section

variable (hG : Good m)
include hG

lemma waitInit_own {k : K} {d : ℕ} (hA : At t m ⟨pc, .waitInit cv e k d⟩)
    (h : TimerAct t m ⟨pc, .waitInit cv e k d⟩ (.timerStart k e d) n pc') :
    At t { m with timer := n } ⟨pc', .waitStart cv e⟩ := by
  have hpc : pc = .idle := hA.fits
  have hkeeps := h.keeps hG hA
  have hact := h.act
  subst hpc
  cases hact
  have hk := hA.knows.setTimer hkeeps.own nofun nofun
  refine ⟨{ hk with stack := ?_ }, rfl, hA.locks⟩
  rintro _ ⟨⟩
  exact { hk.stack e rfl with watched := by simp [Cancel.Shared.setPhase] }

lemma sleepInit_own {k : K} {d : ℕ} (hA : At t m ⟨pc, .sleepInit e k d⟩)
    (h : TimerAct t m ⟨pc, .sleepInit e k d⟩ (.timerStart k e d) n pc') :
    At t { m with timer := n } ⟨pc', .sleepStart e⟩ := by
  have hpc : pc = .idle := hA.fits
  have hkeeps := h.keeps hG hA
  have hact := h.act
  subst hpc
  cases hact
  exact ⟨hA.knows.setTimer hkeeps.own nofun nofun, rfl, hA.locks⟩

lemma start_own {f g : Frame θ K ε C} (hA : At t m ⟨pc, g⟩)
    (hpc : pc.starts = some e) (hg : g.Fits = fun pc => pc.starts = some e)
    (hf : f.Fits = fun pc => pc = .idle) (hrole : f.role = g.role) (hlock : f.lock = g.lock)
    (hfresh : g.role.stage.fresh = false) (hret : g.role.stage.returning = false) (h : TimerAct t m ⟨pc, g⟩ .next n pc') :
    At t { m with timer := n } ⟨pc', f.after g pc'⟩ := by
  have hknows : Knows t { m with timer := n } pc' g.role := { hA.knows with
    timer := (h.keeps hG hA).own
    stack := fun e' he => { hA.knows.stack e' he with
      fresh := by simp [hfresh]
      returning := by simp [hret]
      watched := fun hw hfree => by
        rcases h.of_free hG hA hfree with hp | hp | ⟨k, rfl⟩
        · exact (hA.knows.stack e' he).watched hw hp
        · exact hp
        · cases hpc }
    missed := fun e' he => by
      rcases Cancel.next_starts h.act hpc with hq | rfl
      · cases (Cancel.Pc.missed_of_starts hq).symm.trans he
      · cases he
    done := fun k e' he => by
      subst he
      rcases Cancel.next_starts h.act hpc with hq | hq <;> cases hq }
  rcases Cancel.next_starts h.act hpc with hq | rfl
  · have hafter : f.after g pc' = g := by cases pc' <;> first | rfl | cases hq
    rw [hafter]
    exact ⟨hknows, hg ▸ hq, hA.locks⟩
  · refine ⟨hrole ▸ hknows, hf ▸ rfl, fun c => ?_⟩
    rw [show (f.after g .idle).lock = g.lock from hlock]
    exact hA.locks c

lemma waitWoken_own (hA : At t m ⟨pc, .waitWoken cv e⟩)
    (h : TimerAct t m ⟨pc, .waitWoken cv e⟩ (.timerCancel e) n pc') :
    At t { m with timer := n } ⟨pc', .waitCancel cv e⟩ := by
  have hpc : pc = .idle := hA.fits
  have hkeeps := h.keeps hG hA
  have hact := h.act
  subst hpc
  cases hact
  exact ⟨hA.knows.setTimer hkeeps.own nofun nofun, rfl, hA.locks⟩

lemma waitCancel_free (hA : At t m ⟨pc, .waitCancel cv e⟩)
    (h : TimerAct t m ⟨pc, .waitCancel cv e⟩ .next n .idle) : n.phase e = .free := by
  have hkeeps := h.keeps hG hA
  have hexec := Cancel.executing_of_return hG.timer hA.knows.timer hA.fits h.act
  rcases Cancel.next_returns h.act hA.fits with hfree | ⟨hphase, hmissed⟩
  · exact hfree
  · have hentry := hkeeps.good.entry e
    refine hentry.free ?_ hexec fun u hu => ?_
    · rw [hentry.armed, hphase]
      exact hA.knows.missed e hmissed
    · -- nobody but the thread itself could be starting or cancelling the entry
      have hmem := hkeeps.good.caller e u hu
      by_cases hut : u = t
      · subst hut
        cases (hkeeps.own.calls e).1 hmem
      · have howner := (hG.callers e u ((hkeeps.callers hut e).1 hmem)).2
        exact hut (howner.symm.trans ((hA.knows.entry e).2 rfl).2)

lemma waitCancel_own (hA : At t m ⟨pc, .waitCancel cv e⟩)
    (h : TimerAct t m ⟨pc, .waitCancel cv e⟩ .next n pc') :
    At t { m with timer := n } ⟨pc', Frame.after (.waitReturn cv e) (.waitCancel cv e) pc'⟩ := by
  rcases Cancel.next_cancels h.act hA.fits with hq | rfl
  · have hafter : Frame.after (.waitReturn cv e) (.waitCancel cv e) pc' = (.waitCancel cv e : Frame θ K ε C) := by
      cases pc' <;> first | rfl | cases hq
    rw [hafter]
    refine ⟨hA.knows.setTimer (h.keeps hG hA).own (fun e' he => ?_) fun k e' he => ?_, hq, hA.locks⟩
    · obtain ⟨hphase, hp | hp⟩ := Cancel.next_missed hG.timer h.act he
      · rw [hphase]
        exact hA.knows.missed e' hp
      · rw [hphase, hp]
    · subst he
      cases hq
  · have hk := hA.knows.setTimer (h.keeps hG hA).own nofun nofun
    refine ⟨{ hk with stack := ?_ }, rfl, hA.locks⟩
    rintro _ ⟨⟩
    exact { hk.stack e rfl with returning := fun _ _ => waitCancel_free hG hA h }

lemma softirq_own {f g : Frame θ K ε C} {ev : Cancel.Event K ε}
    (hA : At t m ⟨pc, f⟩) (h : TimerAct t m ⟨pc, f⟩ ev n pc') (hf : f.role = {}) (hg : g.role = {})
    (hlock : g.lock = f.lock) (hfits : g.Fits pc') (hmissed : pc'.missed = none)
    (hdone : ∀ k e, pc' ≠ .softirqDone k e) : At t { m with timer := n } ⟨pc', g⟩ := by
  have hknows := hA.knows
  simp only [hf] at hknows
  refine ⟨?_, hfits, fun c => ?_⟩
  · rw [hg]
    exact hknows.setTimer (h.keeps hG hA).own (fun e he => nomatch hmissed.symm.trans he)
      fun k e he => absurd he (hdone k e)
  · rw [hlock]
    exact hA.locks c

lemma softirqCall_own {k : K} (hA : At t m ⟨.softirqCall k e, .softirq⟩)
    (h : TimerAct t m ⟨.softirqCall k e, .softirq⟩ .next n pc') :
    At t { m with timer := n } ⟨pc', (m.handler e).frame e⟩ := by
  have hkeeps := h.keeps hG hA
  have hact := h.act
  cases hact
  have hphase : m.timer.phase e = .firing t := hA.knows.timer.claim e _ rfl
  have hnot : m.handled e = false := by
    by_contra hne
    rcases hG.handled e (Bool.eq_true_of_not_eq_false hne) with hp | ⟨u, hp⟩ <;>
      cases hphase.symm.trans hp
  cases hh : m.handler e with
  | condvarTimeout cv | timerFinishSleep =>
    refine ⟨{ hA.knows.setTimer hkeeps.own nofun nofun with
      handler := ?_
      handling := ?_ }, rfl, hA.locks⟩
    · rintro _ _ ⟨⟩
      exact hh
    · rintro _ ⟨⟩
      exact hnot

lemma handlerDone_own (hA : At t m ⟨pc, .handlerDone e⟩)
    (h : TimerAct t m ⟨pc, .handlerDone e⟩ .next n pc') : At t { m with timer := n } ⟨pc', .softirq⟩ := by
  have hkeeps := h.keeps hG hA
  have hact := h.act
  obtain ⟨k, rfl⟩ : ∃ k, pc = .softirqRun k e := by
    have hf : pc.runs = some e := hA.fits
    cases pc <;> cases hf
    exact ⟨_, rfl⟩
  cases hact
  refine ⟨(hA.knows.setTimer hkeeps.own nofun ?_).forget, rfl, hA.locks⟩
  rintro _ _ ⟨⟩
  exact hA.knows.handled e rfl

end

end

end Aspen.TimedWait
