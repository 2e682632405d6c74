import Aspen.Sync.TimedWakes

/-!
# What a timeout does to its thread

Two things can go wrong between `condvar_wait_timed` or `__timer_sleep` and the handler of their timer. If the
handler looks for its thread before that has put itself on the list of the condition variable, nothing will ever
time out (`timed_wait_times_out`, `parked_without_timer`). And it wakes the thread up before `timer_softirq_one`
has done its last store to the timer entry, which is on the stack of that thread (`entry_live`,
`entry_touched_after_return`).
-/

namespace Aspen.TimedWait

open Run Timer Function

variable {θ K ε C : Type*} [DecidableEq θ] [DecidableEq K] [DecidableEq ε] [DecidableEq C]

/-! ## What an action changes -/

def Frame.returns : Frame θ K ε C → Option ε
  | waitReturn _ e | sleepReturn e => some e
  | _ => none

structure Changes (t : θ) (m : Shared θ K ε C) (r : Own θ K ε C) (m' : Shared θ K ε C) : Prop where
  timer : m'.timer = m.timer ∨ ∃ ev n pc, TimerAct t m r ev n pc ∧ m'.timer = n
  dead : ∀ e, m'.life e = .dead → m.life e = .dead ∨ r.frame.returns = some e ∧ m'.timer = m.timer
  live : ∀ e, m'.life e = .live → m.life e = .unused ∧ m'.handled e = m.handled e ∨
      m.life e = .live ∧ m'.th e = m.th e ∧ m'.handler e = m.handler e
  listed : ∀ e, m.listed e = true → m'.listed e = true
  handled : ∀ e, m'.handled e = true → m.handled e = true ∨ r.frame = .finishSleep e ∨
    ∃ cv, r.frame = .timeoutSearch cv e ∧ m.th e ∉ m'.waiters cv
  waiters : ∀ c u, u ∈ m'.waiters c → u ∈ m.waiters c ∨ u = t ∧ (r.frame = .plainAdd c ∨ ∃ e, r.frame = .waitAdd c e)
  returned : ∀ e b, m'.returned e = some b → m.returned e = some b ∨
    ∃ cv, r.frame = .waitReturn cv e ∧ b = !m.timedOut e

variable {t : θ} {m m' : Shared θ K ε C} {r : Own θ K ε C}

variable {l : C → Option θ} {w : C → List θ} {k : θ → Wake θ} {b : ε → Bool}

section

omit [DecidableEq C]

lemma Changes.refl (t : θ) (m : Shared θ K ε C) (r : Own θ K ε C) : Changes t m r m where
  timer := .inl rfl
  dead _ he := .inl he
  live _ he := .inr ⟨he, rfl, rfl⟩
  listed _ he := he
  handled _ he := .inl he
  waiters _ _ hu := .inl hu
  returned _ _ hb := .inl hb

lemma Changes.of_waiters (hw : ∀ c u, u ∈ w c → u ∈ m.waiters c) :
    Changes t m r { m with waiterLock := l, waiters := w, wake := k, timedOut := b } :=
  { Changes.refl t m r with
    handled := fun _ he => .inl he
    waiters := fun c u hu => .inl (hw c u hu) }

lemma Changes.of_wake : Changes t m r { m with waiterLock := l, wake := k } := .of_waiters fun _ _ hu => hu

end

variable {x : Shared θ K ε C × Own θ K ε C}

omit [DecidableEq C] in
lemma Changes.of_timerAct {pc : Cancel.Pc K ε} {f : Frame θ K ε C} {ev : Cancel.Event K ε}
    {F : Cancel.Pc K ε → Frame θ K ε C} (h : timerAct t ev m pc F = .ok x)
    (hstart : ∀ k e d, ev = .timerStart k e d → f.role.entry = some e ∧ f.role.stage.fresh) :
    Changes t m ⟨pc, f⟩ x.1 := by
  unfold timerAct at h
  split at h
  · next n pc' hact =>
      cases h
      exact { Changes.refl t m ⟨pc, f⟩ with
        timer := .inr ⟨ev, n, pc', ⟨hact, hstart⟩, rfl⟩
        dead := fun _ he => .inl he }
  · cases h

lemma Changes.of_spinLock {cv : C} {q : Own θ K ε C} (h : spinLock t m cv q = .ok x) : Changes t m r x.1 := by
  unfold spinLock at h
  split at h <;> cases h
  exact .of_wake

omit [DecidableEq C] in
lemma Changes.of_resume {q : Own θ K ε C} (h : resume t m q = .ok x) : Changes t m r x.1 := by
  unfold resume at h
  split at h <;> cases h
  exact .of_wake

lemma Changes.add {n : ε → Bool} (cv : C) (hlisted : ∀ e, m.listed e → n e)
    (hframe : r.frame = .plainAdd cv ∨ ∃ e, r.frame = .waitAdd cv e) :
    Changes t m r { m.setWaiters cv (m.waiters cv ++ [t]) with wake := k, listed := n } := by
  refine { Changes.refl t m r with
    listed := hlisted
    handled := fun _ he => .inl he
    waiters := fun c u hu => ?_ }
  rcases mem_setWaiters hu with ⟨rfl, hu⟩ | ⟨-, hu⟩
  · rw [List.mem_append, List.mem_singleton] at hu
    exact hu.imp_right fun h => ⟨h, hframe⟩
  · exact .inl hu

variable {e : ε}

section

omit [DecidableEq C]

lemma Changes.create {h : Handler C} (he : m.life e = .unused) : Changes t m r { m.create e t h with wake := k } := by
  refine { Changes.refl t m r with
    dead := fun e' hd => ?_
    live := fun e' hl => ?_ }
  · have hne : e' ≠ e := by
      rintro rfl
      cases hd.symm.trans (update_self ..)
    exact .inl ((update_of_ne hne ..).symm.trans hd)
  · by_cases hne : e' = e
    · subst hne
      exact .inl ⟨he, rfl⟩
    · exact .inr ⟨(update_of_ne hne ..).symm.trans hl, update_of_ne hne .., update_of_ne hne ..⟩

lemma Changes.discard {b : Option Bool} (he : r.frame.returns = some e)
    (hb : ∀ b', b = some b' → ∃ cv, r.frame = .waitReturn cv e ∧ b' = !m.timedOut e) :
    Changes t m r (m.discard e b) := by
  refine { Changes.refl t m r with
    dead := fun e' hd => ?_
    live := fun e' hl => ?_
    returned := fun e' b' hr => ?_ }
  · by_cases hne : e' = e
    · rw [hne]
      exact .inr ⟨he, rfl⟩
    · exact .inl ((update_of_ne hne ..).symm.trans hd)
  · have hne : e' ≠ e := by
      rintro rfl
      rw [show (m.discard e' b).life e' = .dead from update_self ..] at hl
      cases hl
    exact .inr ⟨(update_of_ne hne ..).symm.trans hl, rfl, rfl⟩
  · by_cases hne : e' = e
    · subst hne
      rw [show (m.discard e' b).returned e' = b from update_self ..] at hr
      exact .inr (hb b' hr)
    · exact .inl ((update_of_ne hne ..).symm.trans hr)

lemma Changes.handle (hw : ∀ c u, u ∈ w c → u ∈ m.waiters c)
    (hframe : r.frame = .finishSleep e ∨ ∃ cv, r.frame = .timeoutSearch cv e ∧ m.th e ∉ w cv) :
    Changes t m r ({ m with waiters := w, wake := k, timedOut := b }.setHandled e) := by
  refine { Changes.refl t m r with
    live := fun _ he => .inr ⟨he, rfl, rfl⟩
    waiters := fun c u hu => .inl (hw c u hu)
    handled := fun e' he => ?_ }
  by_cases hne : e' = e
  · rw [hne]
    exact .inr hframe
  · exact .inl ((update_of_ne hne ..).symm.trans he)

end

lemma next_changes {pc : Cancel.Pc K ε} {f : Frame θ K ε C}
    (hG : Good m) (hA : At t m ⟨pc, f⟩) (h : next t m pc f = .ok x) : Changes t m ⟨pc, f⟩ x.1 := by
  cases f with
  | out => cases h
  | waitInit cv e k d | sleepInit e k d => exact .of_timerAct h (by rintro _ _ _ ⟨⟩; exact ⟨rfl, rfl⟩)
  | waitStart cv e | waitCancel cv e | sleepStart e | handlerDone e => exact .of_timerAct h (by simp)
  | waitLock cv e | plainLock cv | signalLock cv | broadcastLock cv | timeoutLock cv e => exact .of_spinLock h
  | waitParked cv e | sleepParked e | plainParked cv => exact .of_resume h
  | waitCheck cv e =>
    simp only [next] at h
    split at h
    · next hto => cases ((hA.knows.stack e rfl).early rfl).1.symm.trans hto
    · cases h
      exact .of_wake
  | waitAdd cv e =>
    cases h
    exact .add cv (fun _ => update_true) (.inr ⟨e, rfl⟩)
  | plainAdd cv =>
    cases h
    exact .add cv (fun _ he => he) (.inl rfl)
  | waitWoken cv e =>
    simp only [next] at h
    split at h
    · cases h
      exact .of_wake
    · exact .of_timerAct h (by simp)
  | waitReturn cv e =>
    cases h
    exact .discard rfl fun b' hb => ⟨cv, rfl, (Option.some.inj hb).symm⟩
  | sleepReturn e =>
    cases h
    exact .discard rfl (by simp)
  | signalPop cv =>
    simp only [next] at h
    split at h
    · cases h
      exact .of_wake
    · next w ws hl =>
        cases h
        refine .of_waiters fun c u hu => ?_
        rcases mem_setWaiters hu with ⟨rfl, hw⟩ | ⟨-, hw⟩
        · exact hl ▸ List.mem_cons_of_mem w hw
        · exact hw
  | broadcastTake cv =>
    cases h
    refine .of_waiters fun c u hu => ?_
    rcases mem_setWaiters hu with ⟨-, hu⟩ | ⟨-, hu⟩
    · cases hu
    · exact hu
  | broadcastReady ws =>
    cases ws with
    | nil =>
      cases h
      exact .of_wake
    | cons w ws =>
      cases h
      exact .of_wake
  | softirq =>
    simp only [next] at h
    split at h
    · exact .of_timerAct h (by simp)
    · exact .of_timerAct h (by simp)
  | timeoutSearch cv e =>
    simp only [next] at h
    split at h
    · cases h
      refine .handle (fun c u hu => ?_) (.inr ⟨cv, rfl, fun hu => ?_⟩)
      · rcases mem_setWaiters hu with ⟨rfl, hw⟩ | ⟨-, hw⟩
        · exact List.mem_of_mem_erase hw
        · exact hw
      · rcases mem_setWaiters hu with ⟨-, hu⟩ | ⟨hne, -⟩
        · exact (hG.nodup cv).not_mem_erase hu
        · exact hne rfl
    · next hmem =>
        cases h
        exact .handle (fun _ _ hu => hu) (.inr ⟨cv, rfl, hmem⟩)
  | finishSleep e =>
    cases h
    exact .handle (fun _ _ hu => hu) (.inl rfl)
  | signalUnlock cv w =>
    cases w <;> cases h <;> exact .of_wake
  | timeoutUnlock cv e found =>
    cases found <;> cases h <;> exact .of_wake
  | _ => cases h; exact .of_wake

lemma act_changes {ev : Event K ε C} (hG : Good m)
    (hA : At t m r) (h : act t ev m r = .ok x) : Changes t m r x.1 := by
  obtain ⟨pc, f⟩ := r
  cases ev with
  | next => exact next_changes hG hA h
  | test now b | timerSoftirqOne k =>
    cases f <;> try cases h
    exact .of_timerAct h nofun
  | condvarWaitTimed cv e k d | timerSleep e k d =>
    cases f <;> try cases h
    simp only [act] at h
    split at h
    · next he =>
        cases h
        exact .create he
    · cases h
  | condvarWait cv | condvarSignal cv | condvarBroadcast cv =>
    cases f <;> cases h
    exact .of_wake

lemma next_of_act {ev : Event K ε C}
    (h : act t ev m r = .ok x) (hout : r.frame ≠ .out) (hsoftirq : r.frame ≠ .softirq) : ev = .next := by
  unfold act at h
  split at h <;> first | rfl | exact absurd rfl hout | exact absurd rfl hsoftirq | cases h

/-! ## Runs -/

def initSys : Sys (Fin 2) (Fin 1) (Fin 1) (Fin 1) where
  shared := {
    timer := {
      core := ⟨fun _ => 0, fun _ _ => ⟨0, 0⟩, fun _ => 0, fun _ => 0, fun _ => false, fun _ => false⟩
      lock _ := none
      phase _ := .free
      callers _ := ∅
      starts _ := 0
      ends _ := [] }
    handler _ := .timerFinishSleep
    th _ := 0
    timedOut _ := false
    waiterLock _ := none
    waiters _ := []
    wake _ := .awake none
    life _ := .unused
    listed _ := false
    handled _ := false
    returned _ := none }
  own _ := ⟨.idle, .out⟩

lemma initial_initSys : Initial initSys :=
  ⟨⟨⟨fun _ => rfl, fun _ => rfl⟩, fun _ => rfl, fun _ => rfl, fun _ => ⟨rfl, rfl, rfl, rfl⟩, fun _ => rfl⟩,
    fun _ => ⟨rfl, rfl⟩, fun _ => ⟨rfl, rfl, rfl, rfl⟩, fun _ => ⟨rfl, rfl⟩⟩

def acts (t : Fin 2) (n : ℕ) : List (Fin 2 × Event (Fin 1) (Fin 1) (Fin 1)) := List.replicate n (t, .next)

/-- Thread 0 is in `condvar_wait_timed` with a timer that expires at once, up to the lock. -/
def waitStarted : List (Fin 2 × Event (Fin 1) (Fin 1) (Fin 1)) := (0, .condvarWaitTimed 0 0 0 0) :: acts 0 7

def sleepStarted : List (Fin 2 × Event (Fin 1) (Fin 1) (Fin 1)) := (0, .timerSleep 0 0 0) :: acts 0 7

def fires : List (Fin 2 × Event (Fin 1) (Fin 1) (Fin 1)) :=
  [(1, .timerSoftirqOne 0), (1, .next), (1, .test 0 false)] ++ acts 1 4

/-! ## Timing out -/

/-- `condvar_timeout` looks for its thread only after the thread has put itself on the list. -/
def SearchesLate (s : Sys θ K ε C) (a : θ × Event K ε C) : Bool :=
  match a.2, (s.own a.1).frame with
  | .next, .timeoutSearch _ e => s.shared.listed e
  | _, _ => true

/-- The timer is armed, or a softirq has taken it and its handler has not looked for the thread yet. -/
def Watched (s : Sys θ K ε C) (e : ε) : Prop := s.shared.timer.core.armed e = true ∨
    ∃ u k, (s.own u).timer = .softirqUnlock k e ∨ (s.own u).timer = .softirqCall k e ∨
      (s.own u).timer = .softirqRun k e ∧
        ∃ cv, (s.own u).frame = .timeoutLock cv e ∨ (s.own u).frame = .timeoutSearch cv e

def Found (m : Shared θ K ε C) : Prop :=
  ∀ e cv, m.life e = .live → m.handler e = .condvarTimeout cv → m.handled e = true →
    m.listed e = true ∧ m.th e ∉ m.waiters cv

variable {s s' : Sys θ K ε C}

lemma step_found {a : θ × Event K ε C} (hG : Good s.shared)
    (hA : ∀ t, At t s.shared (s.own t)) (hF : Found s.shared) (hok : SearchesLate s a)
    (h : step s a = .ok s') : Found s'.shared := by
  obtain ⟨t, ev⟩ := a
  have hact := (Threads.step_eq_ok h).1
  have hch := act_changes hG (hA t) hact
  intro e cv hlive hh hhandled
  rcases hch.live e hlive with ⟨hunused, hsame⟩ | ⟨hl, hth, hhandler⟩
  · rw [hsame, (hG.unused e hunused).2] at hhandled
    cases hhandled
  rw [hhandler] at hh
  rw [hth]
  have hadd : s.shared.th e ∈ s'.shared.waiters cv → s.shared.listed e → s.shared.th e ∈ s.shared.waiters cv := by
    -- a thread that puts itself on the list has not done so before
    intro hmem hlisted
    rcases hch.waiters cv _ hmem with hmem | ⟨ht, hplain | ⟨e', hwait⟩⟩
    · exact hmem
    · have hentry := ((hA t).knows.entry e).1 ⟨hl, ht⟩
      rw [hplain] at hentry
      cases hentry
    · have hentry := ((hA t).knows.entry e).1 ⟨hl, ht⟩
      rw [hwait] at hentry
      cases hentry
      have hearly := ((hA t).knows.stack e (by rw [hwait]; rfl)).early (by rw [hwait]; rfl)
      cases hearly.2.symm.trans hlisted
  rcases hch.handled e hhandled with hold | hsleep | ⟨cv', hsearch, hgone⟩
  · obtain ⟨hlisted, hnot⟩ := hF e cv hl hh hold
    exact ⟨hch.listed e hlisted, fun hmem => hnot (hadd hmem hlisted)⟩
  · have hwrong := (hA t).knows.handler e .timerFinishSleep (by rw [hsleep]; rfl)
    cases hh.symm.trans hwrong
  · have hcv := (hA t).knows.handler e (.condvarTimeout cv') (by rw [hsearch]; rfl)
    cases hh.symm.trans hcv
    obtain rfl : ev = .next := next_of_act hact (by rw [hsearch]; nofun) (by rw [hsearch]; nofun)
    have hlisted : s.shared.listed e := by
      simpa [SearchesLate, hsearch] using hok
    exact ⟨hch.listed e hlisted, hgone⟩

lemma reaches_found
    (hs : Reaches step (fun s a => SearchesLate s a = true) Initial s) : Found s.shared := by
  induction hs with
  | start hinit =>
    intro e cv hlive
    cases (hinit.2.2.1 e).1.symm.trans hlive
  | snoc hs hok h ih =>
    obtain ⟨hG, hA⟩ := reaches_outline hs
    exact step_found hG hA ih hok h

omit [DecidableEq θ] [DecidableEq K] [DecidableEq ε] [DecidableEq C] in
lemma watched_of_phase {t : θ} {cv : C} (hG : Good s.shared)
    (hA : ∀ t, At t s.shared (s.own t)) (hframe : (s.own t).frame = .waitParked cv e)
    (hnot : s.shared.handled e = false) : Watched s e := by
  have hAt := hA t
  have hentry := (hAt.knows.entry e).2 (by rw [hframe]; rfl)
  have hh := hAt.knows.handler e (.condvarTimeout cv) (by rw [hframe]; rfl)
  have hidle : (s.own t).timer = .idle := by
    have hf := hAt.fits
    rwa [hframe] at hf
  have harmed := (hG.timer.entry e).armed
  have hclaimed := fun u => (hA u).knows.timer.claimed e
  have hcaller : ∀ u, (s.shared.timer.phase e).caller ≠ some u := by
    intro u hu
    have hmem := hG.timer.caller e u hu
    obtain rfl : t = u := hentry.2.symm.trans (hG.callers e u hmem).2
    have hcall := (hAt.knows.timer.calls e).1 hmem
    rw [hidle] at hcall
    cases hcall
  cases hphase : s.shared.timer.phase e with
  | free =>
    have hdone := (hAt.knows.stack e (by rw [hframe]; rfl)).watched (by rw [hframe]; rfl) hphase
    cases hnot.symm.trans hdone
  | armed k | popped u k | flagged u k => exact .inl (by rw [harmed, hphase]; rfl)
  | starting u | entered u k | disarmed u k | removed u => exact absurd (by rw [hphase]; rfl) (hcaller u)
  | firing u =>
    have hc := hclaimed u (by rw [hphase]; rfl)
    rw [hphase] at hc
    refine .inr ⟨u, ?_⟩
    cases hpc : (s.own u).timer <;> rw [hpc] at hc <;> cases hc
    · exact ⟨_, .inl rfl⟩
    · exact ⟨_, .inr (.inl rfl)⟩
  | running u =>
    have hc := hclaimed u (by rw [hphase]; rfl)
    rw [hphase] at hc
    have hB := hA u
    cases hpc : (s.own u).timer <;> rw [hpc] at hc <;> cases hc
    · next k =>
        refine .inr ⟨u, k, .inr (.inr ⟨hpc, ?_⟩)⟩
        have hfits := hB.fits
        rw [hpc] at hfits
        -- of the frames in a handler, the others are past the search or belong to a sleeping thread
        cases hf : (s.own u).frame <;> rw [hf] at hfits <;> cases hfits
        · exact ⟨_, .inl rfl⟩
        · exact ⟨_, .inr rfl⟩
        · cases hnot.symm.trans (hB.knows.handled e (by rw [hf]; rfl))
        · cases hnot.symm.trans (hB.knows.handled e (by rw [hf]; rfl))
        · cases hh.symm.trans (hB.knows.handler e .timerFinishSleep (by rw [hf]; rfl))
        · cases hnot.symm.trans (hB.knows.handled e (by rw [hf]; rfl))
    · cases hnot.symm.trans (hB.knows.done _ e hpc)

/-- As long as `condvar_timeout` looks for its thread only after the thread has put itself on the list, a thread
parked by `condvar_wait_timed` has a timer that will look for it; and the call returns false if and only if the timer
woke the thread up. -/
theorem timed_wait_times_out {s : Sys θ K ε C}
    (hs : Reaches step (fun s a => SearchesLate s a = true) Initial s) :
    (∀ t cv e, (s.own t).frame = .waitParked cv e → t ∈ s.shared.waiters cv → Watched s e) ∧
    ∀ t e b s', step s (t, .next) = .ok s' → s.shared.returned e = none →
      s'.shared.returned e = some b → (b = false ↔ s.shared.wake t = .awake (some .timer)) := by
  obtain ⟨hG, hA⟩ := reaches_outline hs
  refine ⟨fun t cv e hframe hmem => ?_, fun t e b s' h hnone hsome => ?_⟩
  · obtain ⟨hlive, hth⟩ := ((hA t).knows.entry e).2 (by rw [hframe]; rfl)
    have hh := (hA t).knows.handler e (.condvarTimeout cv) (by rw [hframe]; rfl)
    refine watched_of_phase hG hA hframe (Bool.eq_false_iff.2 fun hhandled => ?_)
    exact (reaches_found hs e cv hlive hh hhandled).2 (hth.symm ▸ hmem)
  · have hch := act_changes hG (hA t) (Threads.step_eq_ok h).1
    rcases hch.returned e b hsome with hold | ⟨cv, hframe, rfl⟩
    · cases hnone.symm.trans hold
    · have hlate := ((hA t).knows.stack e (by rw [hframe]; rfl)).late (by rw [hframe]; rfl)
      obtain ⟨w, hw⟩ := (hA t).knows.awake.2 (by rw [hframe]; rfl)
      rw [hw] at hlate ⊢
      simpa [Wake.waker] using hlate

theorem timed_wait_times_out_expired :
    (∃ s : Sys (Fin 2) (Fin 1) (Fin 1) (Fin 1),
      Reaches step (fun s a => SearchesLate s a = true) Initial s ∧
        (s.own 0).frame = .waitParked 0 0 ∧ Watched s 0) ∧
    ∃ s s' : Sys (Fin 2) (Fin 1) (Fin 1) (Fin 1),
      Reaches step (fun s a => SearchesLate s a = true) Initial s ∧
        step s (0, .next) = .ok s' ∧ s'.shared.returned 0 = some false ∧
        s.shared.wake 0 = .awake (some .timer) := by
  constructor
  · obtain ⟨s, hs, hframe, hmem⟩ : ∃ s : Sys (Fin 2) (Fin 1) (Fin 1) (Fin 1),
        Reaches step (fun s a => SearchesLate s a = true) Initial s ∧
          (s.own 0).frame = .waitParked 0 0 ∧ 0 ∈ s.shared.waiters 0 :=
      Reaches.of_exec (s := initSys) (waitStarted ++ acts 0 4) initial_initSys (by decide) (by decide)
    exact ⟨s, hs, hframe, (timed_wait_times_out hs).1 0 0 0 hframe hmem⟩
  · obtain ⟨s, hs, hnone, s', h, hsome⟩ : ∃ s : Sys (Fin 2) (Fin 1) (Fin 1) (Fin 1),
        Reaches step (fun s a => SearchesLate s a = true) Initial s ∧ s.shared.returned 0 = none ∧
          Ends (step s (0, .next)) fun s' => s'.shared.returned 0 = some false :=
      Reaches.of_exec (s := initSys) (waitStarted ++ acts 0 4 ++ fires ++ acts 1 4 ++ acts 0 2)
        initial_initSys (by decide) (by decide)
    exact ⟨s, s', hs, h, hsome, ((timed_wait_times_out hs).2 0 0 false s' h hnone hsome).1 rfl⟩

/-- The handler looks for the thread while that is still on its way to the list. -/
theorem parked_without_timer : ∃ s : Sys (Fin 2) (Fin 1) (Fin 1) (Fin 1),
    Reaches step (fun _ _ => True) Initial s ∧
      (s.own 0).frame = .waitParked 0 0 ∧ 0 ∈ s.shared.waiters 0 ∧ ¬ Watched s 0 := by
  obtain ⟨s, hs, hframe, hmem, harmed, h0, h1⟩ := reached step Initial (s := initSys) (P := fun s =>
      (s.own 0).frame = .waitParked 0 0 ∧
        0 ∈ s.shared.waiters 0 ∧ s.shared.timer.core.armed 0 = false ∧ (s.own 0).timer = .idle ∧
        (s.own 1).timer = .idle)
      (waitStarted ++ fires ++ acts 1 6 ++ [(1, .test 0 false)] ++ acts 0 4)
      initial_initSys (by decide)
  refine ⟨s, hs, hframe, hmem, ?_⟩
  rintro (ha | ⟨u, k, h⟩)
  · cases harmed.symm.trans ha
  · have hidle : ∀ u, (s.own u).timer = .idle := Fin.forall_fin_two.2 ⟨h0, h1⟩
    rw [hidle u] at h
    rcases h with h | h | ⟨h, -⟩ <;> cases h

/-! ## Entries on the stack -/

/-- A call that has been woken up by its timer returns only after the softirq has cleared `executing`. -/
def ReturnsLate (s : Sys θ K ε C) (a : θ × Event K ε C) : Bool :=
  match a.2, (s.own a.1).frame with
  | .next, .sleepReturn e => !s.shared.timer.core.executing e
  | .next, .waitReturn _ e => !s.shared.timedOut e || !s.shared.timer.core.executing e
  | _, _ => true

/-- `timer_softirq_one` accesses `e`: it has taken `e` off a heap and not done its last store to it, or may move `e`
in a heap. -/
def Touches (s : Sys θ K ε C) (t : θ) (e : ε) : Prop :=
  ∃ k, (s.own t).timer ∈ [.softirqExec k e, .softirqDisarm k e, .softirqUnlock k e,
      .softirqCall k e, .softirqRun k e, .softirqDone k e] ∨
    (s.own t).timer = .softirqLoop k ∧ s.shared.timer.core.On k e

def Buried (m : Shared θ K ε C) : Prop := ∀ e, m.life e = .dead → m.timer.phase e = .free

lemma step_buried {a : θ × Event K ε C} (hG : Good s.shared)
    (hA : ∀ t, At t s.shared (s.own t)) (hB : Buried s.shared) (hok : ReturnsLate s a)
    (h : step s a = .ok s') : Buried s'.shared := by
  obtain ⟨t, ev⟩ := a
  have hact := (Threads.step_eq_ok h).1
  have hch := act_changes hG (hA t) hact
  intro e hdead
  rcases hch.dead e hdead with hold | ⟨hret, hsame⟩
  · rcases hch.timer with hsame | ⟨ev', n, pc, hT, rfl⟩
    · rw [hsame]
      exact hB e hold
    · refine hT.free hG (hA t) (hB e hold) fun hfresh => ?_
      have hlive := ((hA t).knows.entry e).2 hfresh.1
      cases hold.symm.trans hlive.1
  · rw [hsame]
    have hfree : s.shared.handled e → s.shared.timer.core.executing e = false → s.shared.timer.phase e = .free := by
      intro hhandled hexec
      rcases hG.handled e hhandled with hp | ⟨u, hp⟩
      · exact hp
      · rw [(hG.timer.entry e).executing, hp] at hexec
        cases hexec
    cases hf : (s.own t).frame <;> rw [hf] at hret <;> cases hret
    · obtain rfl : ev = .next := next_of_act hact (by rw [hf]; nofun) (by rw [hf]; nofun)
      cases hto : s.shared.timedOut e with
      | false => exact ((hA t).knows.stack e (by rw [hf]; rfl)).returning (by rw [hf]; rfl) hto
      | true =>
        have hlive := ((hA t).knows.entry e).2 (by rw [hf]; rfl)
        refine hfree (hG.timedOut e (by rw [hlive.1]; nofun) hto) ?_
        simpa [ReturnsLate, hf, hto] using hok
    · obtain rfl : ev = .next := next_of_act hact (by rw [hf]; nofun) (by rw [hf]; nofun)
      refine hfree ((hA t).knows.handled e (by rw [hf]; rfl)) ?_
      simpa [ReturnsLate, hf] using hok

lemma reaches_buried
    (hs : Reaches step (fun s a => ReturnsLate s a = true) Initial s) : Buried s.shared := by
  induction hs with
  | start hinit =>
    intro e hdead
    cases (hinit.2.2.1 e).1.symm.trans hdead
  | snoc hs hok h ih =>
    obtain ⟨hG, hA⟩ := reaches_outline hs
    exact step_buried hG hA ih hok h

omit [DecidableEq θ] [DecidableEq K] [DecidableEq ε] [DecidableEq C] in
lemma Touches.not_free {t : θ} (hG : Good s.shared)
    (hA : ∀ t, At t s.shared (s.own t)) (h : Touches s t e) : s.shared.timer.phase e ≠ .free := by
  intro hfree
  obtain ⟨k, h | ⟨-, hon⟩⟩ := h
  · have hclaim := (hA t).knows.timer.claim e
    simp only [List.mem_cons, List.not_mem_nil, or_false] at h
    rcases h with h | h | h | h | h | h <;> rw [h] at hclaim <;>
      cases (hclaim _ rfl).symm.trans hfree
  · have hp := ((hG.timer.entry e).on k).1 hon
    rw [hfree] at hp
    cases hp

/-- As long as a call woken up by its timer does not return before the softirq has cleared `executing`, the softirq
accesses only entries of calls that have not returned. -/
theorem entry_live {s : Sys θ K ε C}
    (hs : Reaches step (fun s a => ReturnsLate s a = true) Initial s) {t : θ} {e : ε}
    (h : Touches s t e) : s.shared.life e = .live := by
  obtain ⟨hG, hA⟩ := reaches_outline hs
  have hp := h.not_free hG hA
  cases hl : s.shared.life e with
  | unused => exact absurd (hG.unused e hl).1 hp
  | live => rfl
  | dead => exact absurd (reaches_buried hs e hl) hp

theorem entry_live_woken : ∃ s : Sys (Fin 2) (Fin 1) (Fin 1) (Fin 1),
    Reaches step (fun s a => ReturnsLate s a = true) Initial s ∧
      (s.own 0).frame = .sleepReturn 0 ∧ Touches s 1 0 ∧ s.shared.life 0 = .live := by
  refine Reaches.of_exec_imp (s := initSys) (P := fun s =>
      (s.own 0).frame = .sleepReturn 0 ∧ (s.own 1).timer = .softirqDone 0 0)
    (sleepStarted ++ fires ++ acts 1 2 ++ acts 0 1) initial_initSys (by decide) (by decide) ?_
  rintro s hs ⟨hframe, hpc⟩
  have htouch : Touches s 1 0 := ⟨0, .inl (by simp [hpc])⟩
  exact ⟨hframe, htouch, entry_live hs htouch⟩

/-- Nothing keeps the thread from returning before that store, in `__timer_sleep` or in `condvar_wait_timed`. -/
theorem entry_touched_after_return :
    (∃ s : Sys (Fin 2) (Fin 1) (Fin 1) (Fin 1), Reaches step (fun _ _ => True) Initial s ∧
      s.shared.handler 0 = .timerFinishSleep ∧ s.shared.life 0 = .dead ∧ Touches s 1 0) ∧
    ∃ s : Sys (Fin 2) (Fin 1) (Fin 1) (Fin 1), Reaches step (fun _ _ => True) Initial s ∧
      s.shared.handler 0 = .condvarTimeout 0 ∧ s.shared.life 0 = .dead ∧ Touches s 1 0 := by
  constructor
  · obtain ⟨s, hs, hh, hlife, hpc⟩ := reached step Initial (s := initSys) (P := fun s =>
        s.shared.handler 0 = .timerFinishSleep ∧
          s.shared.life 0 = .dead ∧ (s.own 1).timer = .softirqDone 0 0) (sleepStarted ++ fires ++ acts 1 2 ++ acts 0 2)
        initial_initSys (by decide)
    exact ⟨s, hs, hh, hlife, 0, .inl (by simp [hpc])⟩
  · obtain ⟨s, hs, hh, hlife, hpc⟩ := reached step Initial (s := initSys) (P := fun s =>
        s.shared.handler 0 = .condvarTimeout 0 ∧ s.shared.life 0 = .dead ∧ (s.own 1).timer = .softirqDone 0 0)
        (waitStarted ++ acts 0 4 ++ fires ++ acts 1 5 ++ acts 0 3)
        initial_initSys (by decide)
    exact ⟨s, hs, hh, hlife, 0, .inl (by simp [hpc])⟩

end Aspen.TimedWait
