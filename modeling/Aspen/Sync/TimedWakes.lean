import Aspen.Sync.TimedOutline

/-!
# Parking and waking up

The actions on the condition variables and the handlers keep the proof outline. An action changes the state
`wake` of at most one thread that is not its own, or takes a whole list.
-/

namespace Aspen.TimedWait

open Timer Function List

variable {θ K ε C : Type*}

namespace Frame

variable {f : Frame θ K ε C} {e : ε} {h : Handler C} {cv : C}

lemma handler_of_asleep (hf : f.role.stage.asleep) (he : f.role.entry = some e) :
    f.role.handler = some (e, .timerFinishSleep) := by
  cases f <;> cases hf <;> cases he <;> rfl

lemma runs_of_handling {pc : Cancel.Pc K ε} (hfits : f.Fits pc) (hf : f.role.handling = some e) :
    pc.runs = some e := by
  cases f <;> cases hf <;> exact hfits

lemma handled_of_taken (hf : f.role.taken = some e) : f.role.handled = some e := by
  cases f <;> first | exact hf | cases hf | skip
  next found => cases found <;> first | exact hf | cases hf

lemma entry_or_handling (hf : f.role.handler = some (e, h)) : f.role.entry = some e ∨ f.role.handling = some e := by
  cases f <;> first | cases hf; exact .inl rfl | cases hf; exact .inr rfl | cases hf

lemma late_of_waits (hw : f.role.waits = some cv) (hf : f.role.entry = some e) :
    f.role.stage = { late := true, watched := true } := by
  cases f <;> first | rfl | (cases hw; done) | cases hf

lemma asleep_of_handler (hf : f.role.entry = some e)
    (hh : ∀ h, f.role.handler = some (e, h) → h = .timerFinishSleep) :
    f.role.handled = some e ∨ f.role.parks ∧ f.role.stage.late = false := by
  cases f <;> first
    | exact .inr ⟨rfl, rfl⟩
    | exact .inl hf
    | (cases hf; cases hh _ rfl)
    | cases hf

end Frame

variable {t u : θ} {m : Shared θ K ε C} {r q : Own θ K ε C} {e : ε} {cv : C}

lemma At.handling (hA : At t m r) (h : r.frame.role.handling = some e) :
    m.timer.phase e = .running t ∧ m.handled e = false := by
  refine ⟨?_, hA.knows.handling e h⟩
  have hruns := Frame.runs_of_handling hA.fits h
  refine hA.knows.timer.claim e _ ?_
  cases hpc : r.timer <;> rw [hpc] at hruns <;> cases hruns
  rfl

lemma At.live_of_handling (hG : Good m) (hA : At t m r) (h : r.frame.role.handling = some e) : m.life e = .live := by
  obtain ⟨hphase, hnot⟩ := hA.handling h
  cases hl : m.life e with
  | unused => cases hphase.symm.trans (hG.unused e hl).1
  | live => rfl
  | dead =>
    rcases hG.dead e hl with hp | hp
    · cases hphase.symm.trans hp
    · cases hnot.symm.trans hp

lemma At.used (hG : Good m) (hB : At u m q) {h : Handler C}
    (hh : q.frame.role.handler = some (e, h)) : m.life e = .live := by
  rcases Frame.entry_or_handling hh with he | he
  · exact ((hB.knows.entry e).2 he).1
  · exact hB.live_of_handling hG he

/-! ## Locks -/

section

variable [DecidableEq C] {pc : Cancel.Pc K ε} {f g : Frame θ K ε C}

lemma Keeps.setLock {l : Option θ} (hG : Good m) (hA : At t m ⟨pc, f⟩) (hrole : g.role = f.role)
    (hfits : g.Fits pc) (hown : ∀ c, update m.waiterLock cv l c = some t ↔ g.lock = some c)
    (hother : ∀ u, u ≠ t → (l = some u ↔ m.waiterLock cv = some u)) : Keeps t m (m.setLock cv l) ⟨pc, g⟩ := by
  refine ⟨{ hG with }, ⟨?_, hfits, hown⟩, fun {u q} hu hB => ⟨{ hB.knows with }, hB.fits, fun c => ?_⟩⟩
  · rw [hrole]
    exact { hA.knows with }
  · rw [← hB.locks c]
    by_cases hc : c = cv
    · subst hc
      simpa [Shared.setLock] using hother u hu
    · simp [Shared.setLock, hc]

lemma Keeps.acquire (hG : Good m) (hA : At t m ⟨pc, f⟩) (hl : m.waiterLock cv = none)
    (hf : f.lock = none) (hg : g.lock = some cv) (hrole : g.role = f.role) (hfits : g.Fits pc) :
    Keeps t m (m.setLock cv (some t)) ⟨pc, g⟩ := by
  refine .setLock hG hA hrole hfits (fun c => ?_) fun u hu => by simp [hl, hu.symm]
  have hlocks := hA.locks c
  grind

lemma Keeps.release (hG : Good m) (hA : At t m ⟨pc, f⟩) (hf : f.lock = some cv)
    (hg : g.lock = none) (hrole : g.role = f.role) (hfits : g.Fits pc) :
    Keeps t m (m.setLock cv none) ⟨pc, g⟩ := by
  have hheld := (hA.locks cv).2 hf
  refine .setLock hG hA hrole hfits (fun c => ?_) fun u hu => by simp [hheld, hu.symm]
  have hlocks := hA.locks c
  grind

end

lemma Keeps.same (hG : Good m) (hown : At t m r) : Keeps t m m r := ⟨hG, hown, fun _ hB => hB⟩

/-! ## The states of the threads -/

lemma At.rewake {k : θ → Wake θ} (hB : At u m q) (htaken : ∀ v w, m.wake v = .taken w u → k v = .taken w u)
    (hawake : (∃ w, k u = .awake w) ↔ ∃ w, m.wake u = .awake w)
    (hasleep : ∀ e w, q.frame.role.entry = some e → q.frame.role.stage.asleep → k u = .ready w → m.handled e)
    (hlate : q.frame.role.stage.late →
      ((k u).waker = some .timer ↔ (m.wake u).waker = some .timer)) : At u { m with wake := k } q := by
  refine ⟨{ hB.knows with
    hand := fun v hv => htaken v _ (hB.knows.hand v hv)
    awake := hawake.trans hB.knows.awake
    stack := fun e he => { hB.knows.stack e he with
      asleep := fun ha w => hasleep e w he ha
      late := fun hl => ((hB.knows.stack e he).late hl).trans (hlate hl).symm }
    taken := fun e he => htaken _ _ (hB.knows.taken e he) }, hB.fits, hB.locks⟩

section

variable [DecidableEq θ] {v : θ} {x : Wake θ}

lemma Knows.setWake {pc : Cancel.Pc K ε} {ρ : Role θ ε C} (hk : Knows u m pc ρ) (hv : u ≠ v)
    (hhand : v ∉ ρ.hand) (htaken : ∀ e, ρ.taken = some e → m.th e ≠ v) : Knows u (m.setWake v x) pc ρ := by
  have hself : (m.setWake v x).wake u = m.wake u := update_of_ne hv ..
  exact { hk with
    hand := fun w hw => (update_of_ne (ne_of_mem_of_not_mem hw hhand) ..).trans (hk.hand w hw)
    awake := by
      rw [hself]
      exact hk.awake
    stack := by
      rw [hself]
      exact hk.stack
    taken := fun e he => (update_of_ne (htaken e he) ..).trans (hk.taken e he) }

lemma At.setWake (hB : At u m q) (hv : u ≠ v) (hx : ∀ w, m.wake v ≠ .taken w u) : At u (m.setWake v x) q := by
  refine ⟨hB.knows.setWake hv (fun hmem => hx _ (hB.knows.hand v hmem)) fun e he h => ?_, hB.fits, hB.locks⟩
  exact hx _ (h ▸ hB.knows.taken e he)

lemma Good.setWake (hG : Good m) (hv : ∀ c, v ∈ m.waiters c → x = .waiting)
    (hx : ∀ e, m.life e = .live → m.handler e = .timerFinishSleep → m.th e = v →
      ∀ w u, x ≠ .taken w u) : Good (m.setWake v x) := by
  refine { hG with
    waiting := fun c w hw => ?_
    sleeper := fun e he hh => ⟨(hG.sleeper e he hh).1, fun w u => ?_⟩ }
  · by_cases hwv : w = v
    · subst hwv
      exact (update_self ..).trans (hv c hw)
    · exact (update_of_ne hwv ..).trans (hG.waiting c w hw)
  · show update m.wake v x (m.th e) ≠ _
    by_cases hwv : m.th e = v
    · rw [hwv, update_self]
      exact hx e he hh hwv w u
    · rw [update_of_ne hwv]
      exact (hG.sleeper e he hh).2 w u

lemma ready_keeps {w : Waker} (hG : Good m) (hv : m.wake v = .taken w t)
    (hown : At t (m.setWake v (.ready w)) r) : Keeps t m (m.setWake v (.ready w)) r where
  own := hown
  good := hG.setWake (fun c hc => by cases hv.symm.trans (hG.waiting c v hc)) (by simp)
  other {u q} hu hB := by
    have htaken : ∀ y, m.wake v ≠ .taken y u := by
      rintro y hy
      rw [hv] at hy
      cases hy
      exact hu rfl
    by_cases huv : u = v
    · subst huv
      have hself : update m.wake u (.ready w) u = .ready w := update_self ..
      refine hB.rewake (fun y z hy => ?_) ?_ (fun e _ he ha _ => ?_) fun _ => ?_
      · have hne : y ≠ u := by
          rintro rfl
          exact htaken z hy
        exact (update_of_ne hne ..).trans hy
      · rw [hself, hv]
        simp
      · -- a sleeping thread is not on a list
        have hlive := (hB.knows.entry e).2 he
        have hh := hB.knows.handler e _ (Frame.handler_of_asleep ha he)
        exact absurd hv (hlive.2 ▸ (hG.sleeper e hlive.1 hh).2 w t)
      · rw [hself, hv]
        rfl
    · exact hB.setWake huv htaken

end

/-! ## The lists -/

variable {ws : List θ}

section

variable [DecidableEq C] {l : List θ}

lemma mem_setWaiters {c : C} {w : θ} (hw : w ∈ (m.setWaiters cv l).waiters c) :
    c = cv ∧ w ∈ l ∨ c ≠ cv ∧ w ∈ m.waiters c := by
  by_cases hc : c = cv
  · subst hc
    exact .inl ⟨rfl, by simpa [Shared.setWaiters] using hw⟩
  · exact .inr ⟨hc, by simpa [Shared.setWaiters, hc] using hw⟩

lemma nodup_setWaiters (hG : Good m) (hl : l.Nodup) (c : C) : ((m.setWaiters cv l).waiters c).Nodup := by
  by_cases hc : c = cv
  · subst hc
    simpa [Shared.setWaiters] using hl
  · simpa [Shared.setWaiters, hc] using hG.nodup c

lemma Good.remove (hG : Good m) (hl : l.Nodup) (hsub : ∀ w ∈ l, w ∈ m.waiters cv) : Good (m.setWaiters cv l) := by
  have hmem : ∀ {c w}, w ∈ (m.setWaiters cv l).waiters c → w ∈ m.waiters c := by
    intro c w hw
    rcases mem_setWaiters hw with ⟨rfl, hl⟩ | ⟨-, hl⟩
    · exact hsub w hl
    · exact hl
  exact { hG with
    waiting := fun c w hw => hG.waiting c w (hmem hw)
    nodup := nodup_setWaiters hG hl
    once := fun hw hw' => hG.once (hmem hw) (hmem hw')
    sleeper := fun e he hh =>
      ⟨fun c hc => (hG.sleeper e he hh).1 c (hmem hc), (hG.sleeper e he hh).2⟩ }

lemma At.remove (hB : At u m q) (hsub : ∀ w ∈ l, w ∈ m.waiters cv) : At u (m.setWaiters cv l) q := by
  refine ⟨{ hB.knows with waits := fun c hc => hB.knows.waits c ?_ }, hB.fits, hB.locks⟩
  rcases mem_setWaiters hc with ⟨rfl, hw⟩ | ⟨-, hw⟩
  · exact hsub u hw
  · exact hw

lemma Good.append (hG : Good m) (hw : m.wake t = .waiting) (hnot : ∀ c, t ∉ m.waiters c)
    (hsleep : ∀ e, m.life e = .live → m.handler e = .timerFinishSleep → m.th e ≠ t) :
    Good (m.setWaiters cv (m.waiters cv ++ [t])) := by
  have hmem : ∀ {c w}, w ∈ (m.setWaiters cv (m.waiters cv ++ [t])).waiters c → w ∈ m.waiters c ∨ w = t ∧ c = cv := by
    intro c w hw
    rcases mem_setWaiters hw with ⟨rfl, hw⟩ | ⟨-, hw⟩
    · rcases mem_append.1 hw with hw | hw
      · exact .inl hw
      · exact .inr ⟨mem_singleton.1 hw, rfl⟩
    · exact .inl hw
  refine { hG with
    waiting := fun c w h => ?_
    nodup := nodup_setWaiters hG
      ((hG.nodup cv).append (nodup_singleton t) (by simpa using hnot cv))
    once := fun {c c' w} h h' => ?_
    sleeper := fun e he hh => ⟨fun c hc => ?_, (hG.sleeper e he hh).2⟩ }
  · rcases hmem h with h | ⟨rfl, -⟩
    · exact hG.waiting c w h
    · exact hw
  · rcases hmem h with hc | ⟨rfl, rfl⟩ <;> rcases hmem h' with hc' | ⟨ht, rfl⟩
    · exact hG.once hc hc'
    · exact absurd (ht ▸ hc) (hnot c)
    · exact absurd hc' (hnot c')
    · rfl
  · rcases hmem hc with hc | ⟨hc, -⟩
    · exact (hG.sleeper e he hh).1 c hc
    · exact hsleep e he hh hc

lemma At.append (hB : At u m q) (hu : u ≠ t) : At u (m.setWaiters cv (m.waiters cv ++ [t])) q := by
  refine ⟨{ hB.knows with waits := fun c hc => hB.knows.waits c ?_ }, hB.fits, hB.locks⟩
  rcases mem_setWaiters hc with ⟨rfl, hw⟩ | ⟨-, hw⟩
  · rcases mem_append.1 hw with hw | hw
    · exact hw
    · exact absurd (mem_singleton.1 hw) hu
  · exact hw

end

section

variable [DecidableEq θ] {pc : Cancel.Pc K ε} {w : Waker} {f g : Frame θ K ε C}

/-! ## Parking -/

lemma resume_keeps (hG : Good m) (hA : At t m ⟨pc, f⟩) (hw : m.wake t = .ready w)
    (hg : g.role = {
      entry := f.role.entry, handler := f.role.handler, handled := g.role.handled
      stage := { late := f.role.stage.late, watched := f.role.stage.watched } })
    (hhandled : ∀ e, g.role.handled = some e → m.handled e) (hfits : g.Fits pc)
    (hlock : g.lock = f.lock) : Keeps t m (m.setWake t (.awake (some w))) ⟨pc, g⟩ := by
  have hself : (m.setWake t (.awake (some w))).wake t = .awake (some w) := update_self ..
  have hnot : ∀ c, t ∉ m.waiters c := fun c hc => by cases hw.symm.trans (hG.waiting c t hc)
  refine ⟨hG.setWake (fun c hc => absurd hc (hnot c)) (by simp), ⟨?_, hfits, hlock ▸ hA.locks⟩,
    fun hu hB => hB.setWake hu (by simp [hw])⟩
  rw [hg]
  exact { hA.knows with
    waits := fun c hc => absurd hc (hnot c)
    hand := nofun
    nodup := nodup_nil
    awake := by simp [hself]
    stack := fun e he => { hA.knows.stack e he with
      asleep := nofun
      early := nofun
      late := fun hl => by
        have hlate := (hA.knows.stack e he).late hl
        rw [hw] at hlate
        rw [hself]
        exact hlate
      fresh := nofun
      returning := nofun }
    handling := nofun
    handled := hhandled
    taken := nofun }

lemma At.takeAll (hB : At u m q) (hws : ∀ w ∈ ws, m.wake w = .waiting) : At u (m.takeAll ws t) q := by
  refine hB.rewake (fun v w hv => ?_) ?_ (fun e w he ha h => ?_) fun _ => ?_
  · rw [if_neg fun hmem => by cases hv.symm.trans (hws v hmem)]
    exact hv
  · by_cases hu : u ∈ ws
    · simp [hu, hws u hu]
    · simp [hu]
  · by_cases hu : u ∈ ws
    · simp [hu] at h
    · exact (hB.knows.stack e he).asleep ha w (by simpa [hu] using h)
  · by_cases hu : u ∈ ws
    · simp [hu, hws u hu, Wake.waker]
    · simp [hu]

lemma Good.takeAll (hG : Good m) (hws : ∀ w ∈ ws, ∀ c, w ∉ m.waiters c)
    (hsleep : ∀ e, m.life e = .live → m.handler e = .timerFinishSleep → m.th e ∉ ws) :
    Good (m.takeAll ws t) := by
  refine { hG with
    waiting := fun c w hw => ?_
    sleeper := fun e he hh => ⟨(hG.sleeper e he hh).1, fun w u => ?_⟩ }
  · exact (if_neg fun hmem => hws w hmem c hw).trans (hG.waiting c w hw)
  · show (if m.th e ∈ ws then _ else _) ≠ _
    rw [if_neg (hsleep e he hh)]
    exact (hG.sleeper e he hh).2 w u

variable [DecidableEq C]

lemma add_keeps (hG : Good m) (hA : At t m ⟨pc, f⟩) (hf : f.role.parks = false) (hwaits : f.role.waits = none)
    (hentry : ∀ e, f.role.entry = some e → m.handler e ≠ .timerFinishSleep)
    (hown : At t ((m.setWaiters cv (m.waiters cv ++ [t])).setWake t .waiting) ⟨pc, g⟩) :
    Keeps t m ((m.setWaiters cv (m.waiters cv ++ [t])).setWake t .waiting) ⟨pc, g⟩ where
  own := hown
  good := by
    have hG' : Good (m.setWake t .waiting) := hG.setWake (fun _ _ => rfl) (by simp)
    refine hG'.append (update_self ..) (fun c hc => ?_) fun e he hh ht => ?_
    · cases hwaits.symm.trans (hA.knows.waits c hc)
    · exact hentry e ((hA.knows.entry e).1 ⟨he, ht⟩) hh
  other {u q} hu hB := by
    obtain ⟨w, hw⟩ := hA.knows.awake.2 hf
    exact (hB.setWake hu (x := .waiting) (by simp [hw])).append hu

omit [DecidableEq θ] [DecidableEq C] in
lemma Keeps.setListed [DecidableEq ε] {m' : Shared θ K ε C} (h : Keeps t m m' r)
    (he : r.frame.role.entry = some e) (hearly : r.frame.role.stage.early = false) :
    Keeps t m (m'.setListed e) r := by
  obtain ⟨hlive, hth⟩ := (h.own.knows.entry e).2 he
  refine ⟨{ h.good with unlisted := fun e' hu => ?_ }, ⟨{ h.own.knows with
    stack := fun e' he' => { h.own.knows.stack e' he' with early := by simp [hearly] } },
    h.own.fits, h.own.locks⟩, fun {u q} hu hB => ?_⟩
  · have hne : e' ≠ e := by
      rintro rfl
      cases hlive.symm.trans hu
    exact (update_of_ne hne ..).trans (h.good.unlisted e' hu)
  · have hB := h.other hu hB
    refine ⟨{ hB.knows with stack := fun e' hq => ?_ }, hB.fits, hB.locks⟩
    have hne : e' ≠ e := by
      rintro rfl
      exact hu (((hB.knows.entry e').2 hq).2.symm.trans hth)
    rw [show (m'.setListed e).listed e' = m'.listed e' from update_of_ne hne ..]
    exact hB.knows.stack e' hq

/-! ## Taking threads off a list -/

lemma take_keeps {l : List θ} (hG : Good m) (hA : At t m ⟨pc, f⟩) (hf : f.role = {})
    (hl : m.waiters cv = ws ++ l) (hg : g.role = { hand := ws }) (hfits : g.Fits pc)
    (hlock : g.lock = f.lock) : Keeps t m ((m.setWaiters cv l).takeAll ws t) ⟨pc, g⟩ := by
  have hnodup := hG.nodup cv
  rw [hl] at hnodup
  have hsub : ∀ w ∈ l, w ∈ m.waiters cv := fun w hw => hl ▸ mem_append_right ws hw
  have hmem : ∀ w ∈ ws, w ∈ m.waiters cv := fun w hw => hl ▸ mem_append_left l hw
  have hall : ∀ {u q}, At u m q → At u ((m.setWaiters cv l).takeAll ws t) q := fun hB =>
    (hB.remove hsub).takeAll fun w hw => hG.waiting cv w (hmem w hw)
  refine ⟨(hG.remove (List.Nodup.of_append_right hnodup) hsub).takeAll (fun w hw c hc => ?_)
    (fun e he hh hw => ?_), ⟨?_, hfits, hlock ▸ hA.locks⟩, fun _ hB => hall hB⟩
  · rcases mem_setWaiters hc with ⟨rfl, hlw⟩ | ⟨hne, hlw⟩
    · exact disjoint_of_nodup_append hnodup hw hlw
    · exact hne (hG.once hlw (hmem w hw))
  · exact (hG.sleeper e he hh).1 cv (hmem _ hw)
  · have hknows := (hall hA).knows
    simp only [hf] at hknows
    rw [hg]
    exact { hknows with
      hand := fun w hw => if_pos hw
      nodup := hnodup.of_append_left }

omit [DecidableEq C] in
lemma setWake_taken (m : Shared θ K ε C) (v t : θ) : m.setWake v (.taken .signal t) = m.takeAll [v] t := by
  unfold Shared.setWake Shared.takeAll
  congr 1
  funext w
  simp [update_apply]

end

/-! ## The handlers -/

section

variable [DecidableEq ε]

lemma update_true {f : ε → Bool} {e' : ε} (he : f e') : update f e true e' = true := by
  by_cases h : e' = e
  · subst h
    exact update_self ..
  · exact (update_of_ne h ..).trans he

lemma Good.setHandled (hG : Good m) (hp : m.timer.phase e = .running t) : Good (m.setHandled e) := by
  refine { hG with
    unused := fun e' he => ⟨(hG.unused e' he).1, ?_⟩
    handled := fun e' he => ?_
    dead := fun e' he => (hG.dead e' he).imp_right update_true
    timedOut := fun e' he ht => update_true (hG.timedOut e' he ht) }
  · have hne : e' ≠ e := by
      rintro rfl
      cases hp.symm.trans (hG.unused e' he).1
    exact (update_of_ne hne ..).trans (hG.unused e' he).2
  · by_cases h : e' = e
    · subst h
      exact .inr ⟨t, hp⟩
    · exact hG.handled e' ((update_of_ne h ..).symm.trans he)

section

variable {pc : Cancel.Pc K ε} {ρ : Role θ ε C} (hk : Knows u m pc ρ)
include hk

lemma Knows.setHandled (hfresh : ∀ e', ρ.entry = some e' → ρ.stage.fresh → e' ≠ e)
    (hhandling : ∀ e', ρ.handling = some e' → e' ≠ e) : Knows u (m.setHandled e) pc ρ :=
  { hk with
    stack := fun e' he => { hk.stack e' he with
      asleep := fun ha w hw => update_true ((hk.stack e' he).asleep ha w hw)
      fresh := fun hf => ((hk.stack e' he).fresh hf).imp_right (update_of_ne (hfresh e' he hf) ..).trans
      watched := fun hw hf => update_true ((hk.stack e' he).watched hw hf) }
    handling := fun e' he => (update_of_ne (hhandling e' he) ..).trans (hk.handling e' he)
    handled := fun e' he => update_true (hk.handled e' he)
    done := fun k e' he => update_true (hk.done k e' he) }

lemma Knows.setTimedOut (hentry : ∀ e', ρ.entry = some e' → e' ≠ e) : Knows u (m.setTimedOut e) pc ρ := by
  refine { hk with stack := fun e' he => ?_ }
  rw [show (m.setTimedOut e).timedOut e' = m.timedOut e' from update_of_ne (hentry e' he) ..]
  exact hk.stack e' he

end

lemma At.setHandled (hB : At u m q) (hu : u ≠ t) (hp : m.timer.phase e = .running t) : At u (m.setHandled e) q := by
  refine ⟨hB.knows.setHandled ?_ ?_, hB.fits, hB.locks⟩
  · rintro e' he hf rfl
    cases hp.symm.trans ((hB.knows.stack e' he).fresh hf).1
  · rintro e' he rfl
    cases hp.symm.trans (hB.handling he).1
    exact hu rfl

lemma At.expire [DecidableEq θ] (hB : At u m q) (hlive : m.life e = .live)
    (hwait : m.wake (m.th e) = .waiting)
    (howner : m.th e = u → q.frame.role.entry = some e ∧ q.frame.role.stage = { late := true, watched := true }) :
    At u ((m.setWake (m.th e) (.taken .timer t)).setTimedOut e) q := by
  by_cases hu : m.th e = u
  · obtain ⟨hentry, hstage⟩ := howner hu
    have hkeep : ∀ {w y}, m.wake w = .taken y u → update m.wake (m.th e) (.taken .timer t) w = .taken y u := by
      intro w y hw
      have hne : w ≠ m.th e := by
        rintro rfl
        cases hwait.symm.trans hw
      exact (update_of_ne hne ..).trans hw
    have hself : update m.wake (m.th e) (.taken .timer t) u = .taken .timer t := by
      rw [hu, update_self]
    refine ⟨{ hB.knows with
      hand := fun w hw => hkeep (hB.knows.hand w hw)
      awake := ?_
      stack := fun e' he => ?_
      taken := fun e' he => hkeep (hB.knows.taken e' he) }, hB.fits, hB.locks⟩
    · rw [← hB.knows.awake, ← hu, hwait]
      simp [Shared.setTimedOut, Shared.setWake]
    · cases hentry.symm.trans he
      have hstack := hB.knows.stack e he
      rw [hstage] at hstack ⊢
      exact ⟨nofun, nofun, fun _ => by simp [Shared.setTimedOut, Shared.setWake, hself, Wake.waker], nofun,
        hstack.watched, nofun⟩
  · have hA := hB.setWake (x := .taken .timer t) (Ne.symm hu) (by simp [hwait])
    refine ⟨hA.knows.setTimedOut ?_, hA.fits, hA.locks⟩
    rintro e' he rfl
    exact hu ((hB.knows.entry e').2 he).2

lemma Good.setTimedOut (hG : Good m) (he : m.handled e) : Good (m.setTimedOut e) := by
  refine { hG with timedOut := fun e' hl ht => ?_ }
  by_cases h : e' = e
  · rw [h]
    exact he
  · exact hG.timedOut e' hl ((update_of_ne h ..).symm.trans ht)

variable {pc : Cancel.Pc K ε}

lemma timeoutSearch_missed_keeps (hG : Good m) (hA : At t m ⟨pc, .timeoutSearch cv e⟩) :
    Keeps t m (m.setHandled e) ⟨pc, .timeoutUnlock cv e false⟩ := by
  have hphase := (hA.handling (e := e) rfl).1
  refine ⟨hG.setHandled hphase, ⟨{ hA.knows.forget.setHandled nofun nofun with handled := ?_ },
    hA.fits, hA.locks⟩, fun hu hB => hB.setHandled hu hphase⟩
  rintro _ ⟨⟩
  exact update_self ..

variable [DecidableEq θ]

omit [DecidableEq ε] in
lemma timeoutReady_keeps (hG : Good m) (hA : At t m ⟨pc, .timeoutReady e⟩) :
    Keeps t m (m.setWake (m.th e) (.ready .timer)) ⟨pc, .handlerDone e⟩ := by
  have htaken := hA.knows.taken e rfl
  have hself : m.th e ≠ t := by
    rintro rfl
    obtain ⟨w, hw⟩ := hA.knows.awake.2 rfl
    cases hw.symm.trans htaken
  have hknows : Knows t m pc (Frame.handlerDone e : Frame θ K ε C).role := { hA.knows with taken := nofun }
  exact ready_keeps hG htaken ⟨hknows.setWake hself.symm nofun nofun, hA.fits, hA.locks⟩

lemma finishSleep_keeps (hG : Good m) (hA : At t m ⟨pc, .finishSleep e⟩) :
    Keeps t m ((m.setWake (m.th e) (.ready .timer)).setHandled e) ⟨pc, .handlerDone e⟩ := by
  obtain ⟨hphase, hnot⟩ := hA.handling (e := e) rfl
  have hlive := hA.live_of_handling hG (e := e) rfl
  have hh := hA.knows.handler e _ rfl
  obtain ⟨hout, hfree⟩ := hG.sleeper e hlive hh
  have hself : m.th e ≠ t := fun ht => by cases (hA.knows.entry e).1 ⟨hlive, ht⟩
  have hknows := (hA.knows.forget.setWake (x := .ready .timer) hself.symm nofun nofun).setHandled
    (e := e) nofun nofun
  refine ⟨?_, ⟨{ hknows with handled := ?_ }, hA.fits, hA.locks⟩, fun {u q} hu hB => ?_⟩
  · exact (hG.setWake (fun c hc => absurd hc (hout c)) (by simp)).setHandled hphase
  · rintro _ ⟨⟩
    exact update_self ..
  · have hB' := hB.setHandled (e := e) hu hphase
    by_cases hown : m.th e = u
    · have hentry := (hB.knows.entry e).1 ⟨hlive, hown⟩
      have hkeep : (m.setWake (m.th e) (.ready .timer)).wake u = .ready .timer := by
        rw [hown]
        exact update_self ..
      obtain hdone | ⟨hparks, hlate⟩ := Frame.asleep_of_handler hentry fun h hf =>
        (hB.knows.handler e h hf).symm.trans hh
      · cases hnot.symm.trans (hB.knows.handled e hdone)
      · refine hB'.rewake (fun v w hv => ?_) ?_ (fun e' w he _ _ => ?_) (by simp [hlate])
        · have hne : v ≠ m.th e := by
            rintro rfl
            exact hfree w u hv
          exact (update_of_ne hne ..).trans hv
        · have hawake := hB.knows.awake
          rw [hparks] at hawake
          rw [hkeep]
          show (∃ w, Wake.ready Waker.timer = .awake w) ↔ ∃ w, m.wake u = .awake w
          rw [hawake]
          simp
        · cases hentry.symm.trans he
          exact update_self ..
    · exact hB'.setWake (v := m.th e) (Ne.symm hown) (fun w => hfree w u)

variable [DecidableEq C]

lemma timeoutSearch_found_keeps (hG : Good m) (hA : At t m ⟨pc, .timeoutSearch cv e⟩)
    (hmem : m.th e ∈ m.waiters cv) :
    Keeps t m ((((m.setWaiters cv ((m.waiters cv).erase (m.th e))).setWake (m.th e)
      (.taken .timer t)).setTimedOut e).setHandled e) ⟨pc, .timeoutUnlock cv e true⟩ := by
  obtain ⟨hphase, hnot⟩ := hA.handling (e := e) rfl
  have hlive := hA.live_of_handling hG (e := e) rfl
  have hwait := hG.waiting cv _ hmem
  have hsub : ∀ w ∈ (m.waiters cv).erase (m.th e), w ∈ m.waiters cv := fun w => mem_of_mem_erase
  have hgone : ∀ c, m.th e ∉ (m.setWaiters cv ((m.waiters cv).erase (m.th e))).waiters c := by
    intro c hc
    rcases mem_setWaiters hc with ⟨rfl, hw⟩ | ⟨hne, hw⟩
    · exact (hG.nodup c).not_mem_erase hw
    · exact hne (hG.once hw hmem)
  have hself : m.th e ≠ t := by
    rintro rfl
    obtain ⟨w, hw⟩ := hA.knows.awake.2 rfl
    cases hw.symm.trans hwait
  have hknows := (((hA.remove hsub).knows.forget.setWake (x := .taken .timer t) hself.symm nofun
    nofun).setTimedOut (e := e) nofun).setHandled (e := e) nofun nofun
  refine ⟨?_, ⟨{ hknows with handled := ?_, taken := ?_ }, hA.fits, hA.locks⟩, fun {u q} hu hB => ?_⟩
  · have hG1 := (hG.remove ((hG.nodup cv).erase _) hsub).setWake (v := m.th e) (x := .taken .timer t)
      (fun c hc => absurd hc (hgone c)) fun e' he hh ht => absurd (ht ▸ hmem) ((hG.sleeper e' he hh).1 cv)
    exact (hG1.setHandled hphase).setTimedOut (update_self ..)
  · rintro _ ⟨⟩
    exact update_self ..
  · rintro _ ⟨⟩
    exact update_self ..
  · refine At.setHandled (t := t) (At.expire (hB.remove hsub) hlive hwait fun ht => ?_) hu hphase
    subst ht
    have hentry := (hB.knows.entry e).1 ⟨hlive, rfl⟩
    exact ⟨hentry, Frame.late_of_waits (hB.knows.waits cv hmem) hentry⟩

end

/-! ## The calls -/

section

variable [DecidableEq ε] {pc : Cancel.Pc K ε} {f : Frame θ K ε C} {h : Handler C}

lemma Good.setLife {x : Life} {th : ε → θ} {hd : ε → Handler C} {o : ε → Bool} {b : ε → Option Bool} (hG : Good m)
    (hx : x ≠ .unused) (hother : ∀ e' ≠ e, th e' = m.th e' ∧ hd e' = m.handler e' ∧ o e' = m.timedOut e')
    (hcallers : ∀ u, u ∉ m.timer.callers e) (hdead : x = .dead → m.timer.phase e = .free ∨ m.handled e)
    (hto : o e → m.handled e) (hsleep : x = .live → hd e = .timerFinishSleep →
      (∀ c, th e ∉ m.waiters c) ∧ ∀ w u, m.wake (th e) ≠ .taken w u) :
    Good { m with life := update m.life e x, th := th, handler := hd, timedOut := o, returned := b } := { hG with
  unused := (forall_update_iff m.life fun e' l => l = .unused → m.timer.phase e' = .free ∧ m.handled e' = false).2
    ⟨fun h => absurd h hx, fun e' _ => hG.unused e'⟩
  unlisted := (forall_update_iff m.life fun e' l => l = .unused → m.listed e' = false).2
    ⟨fun h => absurd h hx, fun e' _ => hG.unlisted e'⟩
  callers := (forall_update_iff m.life fun e' l => ∀ u, u ∈ m.timer.callers e' → l = .live ∧ th e' = u).2
    ⟨fun u hu => absurd hu (hcallers u), fun e' he => (hother e' he).1 ▸ hG.callers e'⟩
  dead := (forall_update_iff m.life fun e' l => l = .dead → m.timer.phase e' = .free ∨ m.handled e' = true).2
    ⟨hdead, fun e' _ => hG.dead e'⟩
  timedOut := (forall_update_iff m.life fun e' l => l ≠ .unused → o e' = true → m.handled e' = true).2
    ⟨fun _ => hto, fun e' he => (hother e' he).2.2 ▸ hG.timedOut e'⟩
  sleeper := (forall_update_iff m.life fun e' l => l = .live → hd e' = .timerFinishSleep →
      (∀ c, th e' ∉ m.waiters c) ∧ ∀ w u, m.wake (th e') ≠ .taken w u).2
    ⟨hsleep, fun e' he => by
      rw [(hother e' he).1, (hother e' he).2.1]
      exact hG.sleeper e'⟩ }

lemma Good.create (hG : Good m) (he : m.life e = .unused)
    (ht : h = .timerFinishSleep → (∀ c, t ∉ m.waiters c) ∧ ∀ w u, m.wake t ≠ .taken w u) :
    Good (m.create e t h) := by
  refine hG.setLife nofun (fun e' hne => ⟨update_of_ne hne .., update_of_ne hne .., update_of_ne hne ..⟩)
    (fun u hu => ?_) nofun (by simp) (by simpa using ht)
  cases he.symm.trans (hG.callers e u hu).1

lemma At.create (hG : Good m) (hB : At u m q) (hu : u ≠ t) (he : m.life e = .unused) : At u (m.create e t h) q := by
  have hne : ∀ e', q.frame.role.entry = some e' → e' ≠ e := by
    rintro e' hq rfl
    cases he.symm.trans ((hB.knows.entry e').2 hq).1
  refine ⟨{ hB.knows with
    entry := fun e' => ?_
    handler := fun e' h' hh => ?_
    stack := fun e' hq => ?_
    taken := fun e' hq => ?_ }, hB.fits, hB.locks⟩
  · by_cases he' : e' = e
    · subst he'
      simp [Shared.create, mt (hne e'), Ne.symm hu]
    · simp only [Shared.create, update_of_ne he']
      exact hB.knows.entry e'
  · have hne : e' ≠ e := by
      rintro rfl
      cases he.symm.trans (hB.used hG hh)
    exact (update_of_ne hne ..).trans (hB.knows.handler e' h' hh)
  · rw [show (m.create e t h).timedOut e' = m.timedOut e' from update_of_ne (hne e' hq) ..]
    exact hB.knows.stack e' hq
  · have hne : e' ≠ e := by
      rintro rfl
      cases (hG.unused e' he).2.symm.trans (hB.knows.handled e' (Frame.handled_of_taken hq))
    rw [show (m.create e t h).th e' = m.th e' from update_of_ne hne ..]
    exact hB.knows.taken e' hq

lemma create_entry (hA : At t m ⟨pc, .out⟩) (he : m.life e = .unused) (e' : ε) :
    ((m.create e t h).life e' = .live ∧ (m.create e t h).th e' = t) ↔ some e = some e' := by
  by_cases hne : e' = e
  · subst hne
    simp [Shared.create]
  · simp only [Shared.create, update_of_ne hne, Option.some.injEq, Ne.symm hne, iff_false]
    intro hl
    cases (hA.knows.entry e').1 hl

lemma condvarWaitTimed_keeps {k : K} {d : ℕ} (hG : Good m) (hA : At t m ⟨pc, .out⟩)
    (he : m.life e = .unused) : Keeps t m (m.create e t (.condvarTimeout cv)) ⟨pc, .waitInit cv e k d⟩ := by
  refine ⟨hG.create he nofun, ⟨{ hA.knows with
    entry := create_entry hA he
    handler := ?_
    stack := ?_
    taken := nofun }, hA.fits, hA.locks⟩, fun hu hB => hB.create hG hu he⟩
  · rintro _ _ ⟨⟩
    exact update_self ..
  · rintro _ ⟨⟩
    exact ⟨nofun, fun _ => ⟨update_self .., hG.unlisted e he⟩, nofun, fun _ => hG.unused e he, nofun, nofun⟩

lemma timerSleep_keeps [DecidableEq θ] {k : K} {d : ℕ} (hG : Good m) (hA : At t m ⟨pc, .out⟩)
    (he : m.life e = .unused) :
    Keeps t m ((m.create e t .timerFinishSleep).setWake t .waiting) ⟨pc, .sleepInit e k d⟩ := by
  obtain ⟨w, hw⟩ := hA.knows.awake.2 rfl
  have hself : ((m.create e t .timerFinishSleep).setWake t .waiting).wake t = .waiting := update_self ..
  have hout : ∀ c, t ∉ m.waiters c := fun c hc => by cases hA.knows.waits c hc
  refine ⟨?_, ⟨{ hA.knows with
    entry := create_entry (h := .timerFinishSleep) hA he
    handler := ?_
    hand := nofun
    awake := ?_
    stack := ?_
    taken := nofun }, hA.fits, hA.locks⟩, fun hu hB => ?_⟩
  · exact (hG.create he fun _ => ⟨hout, by simp [hw]⟩).setWake (fun _ _ => rfl) (by simp)
  · rintro _ _ ⟨⟩
    exact update_self ..
  · rw [hself]
    simp [Frame.role]
  · rintro _ ⟨⟩
    refine ⟨?_, nofun, nofun, fun _ => hG.unused e he, nofun, nofun⟩
    rw [hself]
    nofun
  · exact (hB.create hG hu he).setWake hu fun y hy => by cases hw.symm.trans hy

lemma discard_keeps {b : Option Bool} (hG : Good m) (hA : At t m ⟨.idle, f⟩)
    (he : f.role.entry = some e) (hf : f.role.parks = false) (hlock : f.lock = none)
    (hwaits : f.role.waits = none) (hdead : m.timer.phase e = .free ∨ m.handled e) :
    Keeps t m (m.discard e b) ⟨.idle, .out⟩ := by
  obtain ⟨hlive, hth⟩ := (hA.knows.entry e).2 he
  have hlife : ∀ {e'}, e' ≠ e → (m.discard e b).life e' = m.life e' := fun hne =>
    update_of_ne hne ..
  have hnew : (m.discard e b).life e = .dead := update_self ..
  refine ⟨hG.setLife nofun (fun _ _ => ⟨rfl, rfl, rfl⟩) (fun u hu => ?_) (fun _ => hdead)
      (hG.timedOut e (by rw [hlive]; nofun)) nofun,
    ⟨{ hA.knows.forget with
      entry := fun e' => ?_
      waits := fun c hc => ?_
      stack := nofun
      awake := ?_ }, rfl, fun c => ?_⟩, fun {u q} hu hB => ⟨{ hB.knows with entry := fun e' => ?_ }, hB.fits, hB.locks⟩⟩
  · obtain rfl := hth.symm.trans (hG.callers e u hu).2
    cases (hA.knows.timer.calls e).1 hu
  · constructor
    · rintro ⟨hl, ht⟩
      have hne : e' ≠ e := by
        rintro rfl
        cases hnew.symm.trans hl
      rw [hlife hne] at hl
      exact absurd (Option.some.inj (((hA.knows.entry e').1 ⟨hl, ht⟩).symm.trans he)) hne
    · nofun
  · cases hwaits.symm.trans (hA.knows.waits c hc)
  · exact hA.knows.awake.trans ⟨fun _ => rfl, fun _ => hf⟩
  · exact (hA.locks c).trans ⟨fun h => (nomatch hlock.symm.trans h), nofun⟩
  · by_cases hne : e' = e
    · subst hne
      rw [hnew]
      have hnot : q.frame.role.entry ≠ some e' := fun hq =>
        hu (((hB.knows.entry e').2 hq).2.symm.trans hth)
      simp [hnot]
    · rw [hlife hne]
      exact hB.knows.entry e'

end

/-! ## Every action -/

section

variable [DecidableEq θ] [DecidableEq K] [DecidableEq ε] [DecidableEq C]
variable {pc : Cancel.Pc K ε} {f g : Frame θ K ε C} {x : Shared θ K ε C × Own θ K ε C}

omit [DecidableEq C] in
lemma Keeps.of_timerAct {ev : Cancel.Event K ε} {F : Cancel.Pc K ε → Frame θ K ε C} (hG : Good m)
    (hA : At t m ⟨pc, f⟩) (h : timerAct t ev m pc F = .ok x)
    (hstart : ∀ k e d, ev = .timerStart k e d → f.role.entry = some e ∧ f.role.stage.fresh)
    (hown : ∀ n pc', TimerAct t m ⟨pc, f⟩ ev n pc' → At t { m with timer := n } ⟨pc', F pc'⟩) :
    Keeps t m x.1 x.2 := by
  unfold timerAct at h
  split at h
  · next n pc' hact =>
      cases h
      have hT : TimerAct t m ⟨pc, f⟩ ev n pc' := ⟨hact, hstart⟩
      exact .timer hG hA hT (hown n pc' hT)
  · cases h

omit [DecidableEq θ] [DecidableEq K] [DecidableEq ε] in
lemma Keeps.spinLock (hG : Good m) (hA : At t m ⟨pc, f⟩) (hf : f.lock = none)
    (hg : g.lock = some cv) (hrole : g.role = f.role) (hfits : g.Fits pc)
    (h : spinLock t m cv ⟨pc, g⟩ = .ok x) : Keeps t m x.1 x.2 := by
  unfold TimedWait.spinLock at h
  split at h
  · next hl =>
      cases h
      exact .acquire hG hA hl hf hg hrole hfits
  · cases h

omit [DecidableEq K] [DecidableEq ε] [DecidableEq C] in
lemma resume_ok (h : resume t m ⟨pc, g⟩ = .ok x) :
    ∃ w, m.wake t = .ready w ∧ x = (m.setWake t (.awake (some w)), ⟨pc, g⟩) := by
  unfold resume at h
  split at h
  · next w hw =>
      cases h
      exact ⟨w, hw, rfl⟩
  · cases h

lemma softirq_next_keeps (hG : Good m) (hA : At t m ⟨pc, .softirq⟩)
    (h : next t m pc .softirq = .ok x) : Keeps t m x.1 x.2 := by
  by_cases hcall : ∃ k e, pc = .softirqCall k e
  · obtain ⟨k, e, rfl⟩ := hcall
    have h : timerAct t .next m (.softirqCall k e) (fun _ => (m.handler e).frame e) = .ok x := h
    exact .of_timerAct hG hA h nofun fun n pc' hT => softirqCall_own hG hA hT
  · have hnot : ∀ k e, pc ≠ .softirqCall k e := fun k e he => hcall ⟨k, e, he⟩
    have hnext : next t m pc .softirq = timerAct t .next m pc fun _ => .softirq := by
      simp only [next]
    rw [hnext] at h
    refine .of_timerAct hG hA h nofun fun n pc' hT => ?_
    obtain ⟨hsoft, hdone⟩ := Cancel.next_softirq hT.act hA.fits hnot
    exact softirq_own hG hA hT rfl rfl rfl hsoft (Cancel.Pc.missed_of_softirq hsoft) hdone

omit [DecidableEq K] [DecidableEq ε] in
lemma add_own (hA : At t m ⟨pc, f⟩) (hwaits : f.role.waits = none)
    (hlate : ∀ e, f.role.entry = some e → m.timedOut e = false) (hg : g.role = { f.role with
      waits := some cv, hand := [], parks := true, taken := none
      stage := { f.role.stage with asleep := false, early := false, late := g.role.stage.late } })
    (hfits : g.Fits pc) (hlock : g.lock = f.lock) :
    At t ((m.setWaiters cv (m.waiters cv ++ [t])).setWake t .waiting) ⟨pc, g⟩ := by
  have hself : ((m.setWaiters cv (m.waiters cv ++ [t])).setWake t .waiting).wake t = .waiting := update_self ..
  refine ⟨?_, hfits, hlock ▸ hA.locks⟩
  rw [hg]
  refine { hA.knows with
    waits := fun c hc => ?_
    hand := nofun
    nodup := nodup_nil
    awake := ?_
    stack := fun e he => { hA.knows.stack e he with
      asleep := nofun
      early := nofun
      late := fun _ => ?_ }
    taken := nofun }
  · rcases mem_setWaiters hc with ⟨rfl, -⟩ | ⟨-, hc⟩
    · rfl
    · cases hwaits.symm.trans (hA.knows.waits c hc)
  · rw [hself]
    simp
  · rw [hself]
    show m.timedOut e ↔ _
    rw [hlate e he]
    simp [Wake.waker]

omit [DecidableEq K] [DecidableEq ε] [DecidableEq C] in
lemma ready_own {w : θ} (hA : At t m ⟨pc, f⟩) (hf : f.role = { hand := w :: ws })
    (hg : g.role = { hand := ws }) (hfits : g.Fits pc) (hlock : g.lock = f.lock) :
    At t (m.setWake w (.ready .signal)) ⟨pc, g⟩ := by
  have hknows := hA.knows
  simp only [hf] at hknows
  have htaken := hknows.hand w mem_cons_self
  have hself : t ≠ w := by
    rintro rfl
    obtain ⟨y, hy⟩ := hknows.awake.2 rfl
    cases hy.symm.trans htaken
  obtain ⟨hnot, hnodup⟩ := nodup_cons.1 hknows.nodup
  have hrest : Knows t m pc g.role := by
    rw [hg]
    exact { hknows with
      hand := fun v hv => hknows.hand v (mem_cons_of_mem w hv)
      nodup := hnodup }
  exact ⟨hrest.setWake hself (hg ▸ hnot) (by simp [hg]), hfits, hlock ▸ hA.locks⟩

lemma next_keeps (hG : Good m) (hA : At t m ⟨pc, f⟩) (h : next t m pc f = .ok x) : Keeps t m x.1 x.2 := by
  cases f with
  | out => cases h
  | waitInit cv e k d =>
    exact .of_timerAct hG hA h (by rintro _ _ _ ⟨⟩; exact ⟨rfl, rfl⟩) fun n pc' hT => waitInit_own hG hA hT
  | waitStart cv e | sleepStart e =>
    exact .of_timerAct hG hA h nofun fun n pc' hT =>
      start_own hG hA hA.fits rfl rfl rfl rfl rfl rfl hT
  | waitLock cv e => exact .spinLock (g := .waitCheck cv e) hG hA rfl rfl rfl hA.fits h
  | waitCheck cv e =>
    simp only [next] at h
    split at h
    · next hto => cases ((hA.knows.stack e rfl).early rfl).1.symm.trans hto
    · cases h
      exact .same hG ⟨hA.knows, hA.fits, hA.locks⟩
  | waitAdd cv e =>
    cases h
    refine (add_keeps hG hA rfl rfl ?_ (add_own (g := .waitPark cv e) hA rfl ?_ rfl hA.fits rfl)).setListed rfl rfl
    · rintro _ ⟨⟩
      rw [hA.knows.handler e _ rfl]
      nofun
    · rintro _ ⟨⟩
      exact ((hA.knows.stack e rfl).early rfl).1
  | waitPark cv e | plainPark cv | broadcastUnlock cv ws =>
    cases h
    exact .release hG hA rfl rfl rfl hA.fits
  | waitParked cv e =>
    obtain ⟨w, hw, rfl⟩ := resume_ok (g := .waitWoken cv e) h
    exact resume_keeps hG hA hw rfl nofun hA.fits rfl
  | waitWoken cv e =>
    simp only [next] at h
    split at h
    · next hto =>
        cases h
        refine .same hG ⟨{ hA.knows with stack := ?_ }, hA.fits, hA.locks⟩
        rintro _ ⟨⟩
        exact { hA.knows.stack e rfl with watched := nofun, returning := by simp [hto] }
    · exact .of_timerAct hG hA h nofun fun n pc' hT => waitWoken_own hG hA hT
  | waitCancel cv e => exact .of_timerAct hG hA h nofun fun n pc' hT => waitCancel_own hG hA hT
  | waitReturn cv e =>
    cases h
    obtain rfl : pc = .idle := hA.fits
    refine discard_keeps hG hA rfl rfl rfl rfl ?_
    cases hto : m.timedOut e with
    | false => exact .inl ((hA.knows.stack e rfl).returning rfl hto)
    | true =>
      have hlive := ((hA.knows.entry e).2 rfl).1
      exact .inr (hG.timedOut e (by rw [hlive]; nofun) hto)
  | sleepInit e k d =>
    exact .of_timerAct hG hA h (by rintro _ _ _ ⟨⟩; exact ⟨rfl, rfl⟩) fun n pc' hT => sleepInit_own hG hA hT
  | sleepParked e =>
    obtain ⟨w, hw, rfl⟩ := resume_ok (g := .sleepReturn e) h
    refine resume_keeps hG hA hw rfl ?_ hA.fits rfl
    rintro _ ⟨⟩
    exact (hA.knows.stack e rfl).asleep rfl w hw
  | sleepReturn e =>
    cases h
    obtain rfl : pc = .idle := hA.fits
    exact discard_keeps hG hA rfl rfl rfl rfl (.inr (hA.knows.handled e rfl))
  | plainLock cv => exact .spinLock (g := .plainAdd cv) hG hA rfl rfl rfl hA.fits h
  | plainAdd cv =>
    cases h
    exact add_keeps hG hA rfl rfl nofun (add_own hA rfl nofun rfl hA.fits rfl)
  | plainParked cv =>
    obtain ⟨w, hw, rfl⟩ := resume_ok (g := .out) h
    exact resume_keeps hG hA hw rfl nofun hA.fits rfl
  | signalLock cv => exact .spinLock (g := .signalPop cv) hG hA rfl rfl rfl hA.fits h
  | signalPop cv =>
    simp only [next] at h
    split at h
    · cases h
      exact .same hG ⟨hA.knows, hA.fits, hA.locks⟩
    · next w ws hl =>
        cases h
        rw [setWake_taken]
        have hl' : m.waiters cv = [w] ++ ws := hl
        exact take_keeps hG hA rfl hl' rfl hA.fits rfl
  | signalUnlock cv w =>
    cases w <;> cases h <;> exact .release hG hA rfl rfl rfl hA.fits
  | signalReady w =>
    cases h
    exact ready_keeps hG (hA.knows.hand w mem_cons_self) (ready_own hA rfl rfl hA.fits rfl)
  | broadcastLock cv => exact .spinLock (g := .broadcastTake cv) hG hA rfl rfl rfl hA.fits h
  | broadcastTake cv =>
    cases h
    have hl : m.waiters cv = m.waiters cv ++ [] := (append_nil _).symm
    exact take_keeps hG hA rfl hl rfl hA.fits rfl
  | broadcastReady ws =>
    cases ws with
    | nil =>
      cases h
      exact .same hG ⟨hA.knows, hA.fits, hA.locks⟩
    | cons w ws =>
      cases h
      exact ready_keeps hG (hA.knows.hand w mem_cons_self) (ready_own hA rfl rfl hA.fits rfl)
  | softirq => exact softirq_next_keeps hG hA h
  | timeoutLock cv e => exact .spinLock (g := .timeoutSearch cv e) hG hA rfl rfl rfl hA.fits h
  | timeoutSearch cv e =>
    simp only [next] at h
    split at h
    · next hmem =>
        cases h
        exact timeoutSearch_found_keeps hG hA hmem
    · cases h
      exact timeoutSearch_missed_keeps hG hA
  | timeoutUnlock cv e found =>
    cases found <;> cases h <;> exact .release hG hA rfl rfl rfl hA.fits
  | timeoutReady e =>
    cases h
    exact timeoutReady_keeps hG hA
  | finishSleep e =>
    cases h
    exact finishSleep_keeps hG hA
  | handlerDone e => exact .of_timerAct hG hA h nofun fun n pc' hT => handlerDone_own hG hA hT

/-- Every action keeps the outline. -/
lemma act_keeps {ev : Event K ε C} (hG : Good m) (hA : At t m r) (h : act t ev m r = .ok x) : Keeps t m x.1 x.2 := by
  obtain ⟨pc, f⟩ := r
  cases ev with
  | next => exact next_keeps hG hA h
  | test now b =>
    cases f <;> try cases h
    refine .of_timerAct hG hA h nofun fun n pc' hT => ?_
    rcases Cancel.test_softirq hT.act with ⟨k, e, rfl⟩ | rfl <;>
      exact softirq_own hG hA hT rfl rfl rfl rfl rfl nofun
  | timerSoftirqOne k =>
    cases f <;> try cases h
    refine .of_timerAct hG hA h nofun fun n pc' hT => ?_
    have hact := hT.act
    obtain rfl : pc = .idle := hA.fits
    cases hact
    exact softirq_own hG hA hT rfl rfl rfl rfl rfl nofun
  | condvarWaitTimed cv e k d =>
    cases f <;> try cases h
    simp only [act] at h
    split at h
    · next he =>
        cases h
        exact condvarWaitTimed_keeps hG hA he
    · cases h
  | timerSleep e k d =>
    cases f <;> try cases h
    simp only [act] at h
    split at h
    · next he =>
        cases h
        exact timerSleep_keeps hG hA he
    · cases h
  | condvarWait cv | condvarSignal cv | condvarBroadcast cv =>
    cases f <;> cases h
    exact .same hG ⟨hA.knows, hA.fits, hA.locks⟩

lemma outline : Threads.Outline (act (θ := θ) (K := K) (ε := ε) (C := C)) (fun _ _ _ _ => True) Good At where
  own hG hA _ h := ⟨(act_keeps hG hA h).good, (act_keeps hG hA h).own⟩
  other hu hG hA hB _ h := (act_keeps hG hA h).other hu hB

end

lemma initial_outline {s : Sys θ K ε C} (hs : Initial s) : Good s.shared ∧ ∀ t, At t s.shared (s.own t) := by
  obtain ⟨htimer, hcv, hentry, hown⟩ := hs
  obtain ⟨hG, hA⟩ := Cancel.initial_outline htimer
  dsimp only at hA
  have hfree : ∀ e, s.shared.timer.phase e = .free := fun e => (htimer.2.2.2.1 e).1
  have hidle : ∀ t, (s.own t).timer = .idle := htimer.2.2.2.2
  have hnot : ∀ c t, t ∉ s.shared.waiters c := fun c t => by simp [(hcv c).2]
  refine ⟨⟨hG, fun e _ => ⟨hfree e, (hentry e).2.2.1⟩, fun e _ => (hentry e).2.1, fun e t ht => ?_, fun e _ => .inl (hfree e),
    fun e _ => .inl (hfree e), fun e he => absurd (hentry e).1 he, fun c t ht => absurd ht (hnot c t),
    fun c => ?_, fun ht => absurd ht (hnot _ _), fun e he => ?_⟩, fun t => ?_⟩
  · have hcall := ((hA t).calls e).1 ht
    rw [hidle t] at hcall
    cases hcall
  · rw [(hcv c).2]
    exact nodup_nil
  · cases (hentry e).1.symm.trans he
  · have hA := hA t
    have hframe := (hown t).2
    have hpc := hidle t
    generalize s.own t = r at hA hframe hpc
    obtain ⟨pc, f⟩ := r
    obtain rfl : f = .out := hframe
    obtain rfl : pc = .idle := hpc
    refine ⟨⟨hA, fun e => ?_, nofun, fun c hc => absurd hc (hnot c t), nofun, nodup_nil, ?_, nofun,
      nofun, nofun, nofun, nofun, nofun⟩, rfl, fun c => ?_⟩
    · simp [(hentry e).1, Frame.role]
    · simp [(hown t).1, Frame.role]
    · simp [(hcv c).1, Frame.lock]

lemma reaches_outline [DecidableEq θ] [DecidableEq K] [DecidableEq ε] [DecidableEq C]
    {ok : Sys θ K ε C → θ × Event K ε C → Prop} {s : Sys θ K ε C}
    (hs : Run.Reaches step ok Initial s) : Good s.shared ∧ ∀ t, At t s.shared (s.own t) :=
  outline.reaches (fun _ => initial_outline) (hs.mono fun _ _ _ => trivial)

end Aspen.TimedWait
