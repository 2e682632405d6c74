import Aspen.Sched.Preempt

/-!
# Who takes a deferred preemption request

As long as no request is pending at a stack switch, a request is taken by the uthread it interrupted: the
invariant is that a uthread with preemption enabled on a kthread with a pending request is inside the
runtime, at a point from which it does not get back to ordinary code without looking at the counter
(`Fits`). The stack switch is the exception, since it does not look at `upreempt_cnt`, and looks at
`preempt_cnt` for another uthread.
-/

namespace Aspen.Preempt

open Run Function List

/-! ## Frames look at the counters -/

def Frame.past : Frame → Bool
  | .test | .clear => true
  | _ => false

/-- What is pending while preemption is enabled will be seen. -/
structure Fits (c : Counts) (fs : List Frame) : Prop where
  signal : c.depth = 0 → c.pending .signal = true → ∃ f rest, fs = f :: rest ∧ f.past = false
  uintr : c.depth = 0 → c.pending .uintr = true → fs ≠ []

variable {c : Counts} {fs rest : List Frame}

lemma Fits.of_depth (h : c.depth ≠ 0) : Fits c fs := ⟨fun h0 => absurd h0 h, fun h0 => absurd h0 h⟩

lemma Fits.cons {f : Frame} (h : f.past = false) : Fits c (f :: fs) :=
  ⟨fun _ _ => ⟨f, fs, rfl, h⟩, fun _ _ => cons_ne_nil f fs⟩

lemma Fits.of_quiet (h : ∀ kd, c.pending kd = false) : Fits c fs :=
  ⟨fun _ hp => absurd hp (by rw [h]; nofun), fun _ hp => absurd hp (by rw [h]; nofun)⟩

structure Move.Keeps (c : Counts) (rest : List Frame) (m : Move) : Prop where
  wf : m.counts.Wf
  fits : m.leaves = false → Fits m.counts (m.frames ++ rest)
  depth : m.leaves = true → m.counts.depth = 1
  pending : ∀ kd, m.counts.pending kd = true ↔ c.pending kd = true ∧ m.takes ≠ some kd

lemma preemptDisable_keeps {m : Move} (hc : c.Wf) (h : preemptDisable c fs = .ok m) : m.Keeps c rest := by
  obtain ⟨hd, h⟩ := guard_eq_ok.1 h
  cases h
  refine ⟨hc, fun _ => .of_depth ?_, nofun, fun kd => ?_⟩
  · rw [Counts.depth_incr hd]
    exact Nat.succ_ne_zero _
  · rw [Counts.pending_incr hd]
    exact ⟨fun h => ⟨h, nofun⟩, And.left⟩

lemma Move.Keeps.same (hc : c.Wf) (h : Fits c (fs ++ rest)) : Move.Keeps c rest ⟨c, fs, none, false⟩ :=
  ⟨hc, fun _ => h, nofun, fun _ => ⟨fun h => ⟨h, nofun⟩, And.left⟩⟩

lemma Move.Keeps.leaves (hc : c.Wf) (hd : c.depth = 1) : Move.Keeps c rest ⟨c, [], none, true⟩ :=
  ⟨hc, nofun, fun _ => hd, fun _ => ⟨fun h => ⟨h, nofun⟩, And.left⟩⟩

lemma Move.Keeps.takes {kd : Kind} (hc : c.Wf) (h : Fits (c.clear kd) (fs ++ rest)) :
    Move.Keeps c rest ⟨c.clear kd, fs, some kd, false⟩ := by
  refine ⟨hc.clear kd, fun _ => h, nofun, fun kd' => ?_⟩
  rw [Counts.pending_clear, Bool.and_eq_true, decide_eq_true_iff, ne_eq, ne_eq, Option.some.injEq, eq_comm (a := kd)]

lemma Frame.step_keeps {env : Env} {f : Frame} {m : Move}
    (hc : c.Wf) (hf : Fits c (f :: rest)) (h : f.step env c = .ok m) : m.Keeps c rest := by
  cases f with
  | disable | preempt | softirqRun | yield | cede | exit => exact preemptDisable_keeps hc h
  | enable =>
    obtain ⟨hd, h⟩ := guard_eq_ok.1 h
    cases h
    refine ⟨hc, fun _ => ?_, nofun, fun kd => ?_⟩
    · split
      · exact .cons rfl
      · rename_i hz
        refine ⟨fun hd0 hp => ?_, fun _ _ => cons_ne_nil _ _⟩
        exact absurd (Counts.preemptCnt_eq_zero.2 ⟨hd0, hp⟩) hz
    · rw [Counts.pending_decr hd]
      exact ⟨fun h => ⟨h, nofun⟩, And.left⟩
  | test =>
    cases h
    -- past the look at `preempt_cnt`, no signal is pending while preemption is enabled
    have hsig (hd : c.depth = 0) : ¬ c.pending .signal := by
      intro hp
      obtain ⟨f, _, he, hf⟩ := hf.signal hd hp
      cases he
      cases hf
    refine .same hc ⟨fun hd hp => absurd hp (hsig hd), fun hd hp => ?_⟩
    rw [if_pos ⟨c.enabled_iff.2 hd, hc.upreemptCnt_eq_zero.2 hp⟩]
    exact cons_ne_nil _ _
  | clear =>
    cases h
    exact .takes hc (.cons rfl)
  | check =>
    simp only [Frame.step] at h
    split at h
    · cases h
      exact .takes hc (.cons rfl)
    · cases h
      exact .same hc (.cons rfl)
  | decide =>
    cases h
    refine .same hc ?_
    split
    · exact .cons rfl
    · split
      · exact .cons rfl
      · exact .cons rfl
  | enterSchedule =>
    obtain ⟨hd, h⟩ := guard_eq_ok.1 h
    split at h
    · cases h
      exact .same hc (.cons rfl)
    · cases h
      exact .leaves hc hd
  | leave =>
    obtain ⟨hd, h⟩ := guard_eq_ok.1 h
    cases h
    exact .leaves hc hd

/-! ## The invariant -/

section Invariant

variable {K θ : Type*}

structure Kthread.Ok (s : Sys K θ) (k : K) (x : Kthread θ) : Prop where
  wf : x.counts.Wf
  running : ∀ t, x.self = some t → s.running t = true
  idle : x.self = none → x.counts.depth = 1
  fits : ∀ t, x.self = some t → Fits x.counts (s.frames t)
  flag : ∀ kd, x.counts.pending kd = true ↔ ∃ r ∈ s.pending, r.On k kd
  owner : ∀ r ∈ s.pending, r.kthread = k → ∀ t, x.self = some t → r.owner = some t

structure Inv (s : Sys K θ) : Prop where
  ks : ∀ k, (s.ks k).Ok s k
  /-- a uthread runs on one kthread -/
  self_inj : ∀ j k t, (s.ks j).self = some t → (s.ks k).self = some t → j = k
  taken : ∀ x ∈ s.taken, x.1.owner = some x.2
  once : ((s.pending ++ s.taken.map Prod.fst).map Request.id).Perm (List.range s.deferred)

lemma Inv.of_initial {s : Sys K θ} (h : Initial s) : Inv s where
  ks k := by
    have hp : ∀ r, r ∉ s.pending := by
      rw [h.pending]
      exact fun _ => not_mem_nil
    have hq : ∀ kd, Counts.pending ⟨0x80000001#32, 0x80000000#32⟩ kd = false := by
      intro kd
      cases kd with
      | signal | uintr => decide
    rw [h.ks]
    refine ⟨show depth 0x80000000#32 = 0 by decide, nofun, fun _ => show depth 0x80000001#32 = 1 by decide, nofun,
      fun kd => ?_, fun r hr => absurd hr (hp r)⟩
    rw [hq]
    exact ⟨nofun, fun ⟨r, hr, _⟩ => absurd hr (hp r)⟩
  self_inj j k t hj := by
    rw [h.ks] at hj
    nomatch hj
  taken x hx := by
    rw [h.taken] at hx
    nomatch hx
  once := by
    rw [h.pending, h.taken, h.deferred]
    rfl

variable {s s' : Sys K θ} {k : K} {t : θ}

lemma Kthread.Ok.other {x : Kthread θ} (h : x.Ok s k)
    (hf : ∀ u, x.self = some u → s'.frames u = s.frames u ∧ s'.running u = s.running u)
    (hp : ∀ r, r.kthread = k → (r ∈ s'.pending ↔ r ∈ s.pending)) : x.Ok s' k := by
  refine ⟨h.wf, fun u hu => ?_, h.idle, fun u hu => ?_, fun kd => ?_, fun r hr hk => h.owner r ((hp r hk).1 hr) hk⟩
  · rw [(hf u hu).2]
    exact h.running u hu
  · rw [(hf u hu).1]
    exact h.fits u hu
  · rw [h.flag]
    exact exists_congr fun r => and_congr_left fun hon => (hp r hon.1).symm

variable [DecidableEq K]

lemma Inv.self_inj_update (hs : Inv s) {v : Kthread θ}
    (hv : ∀ t j, v.self = some t → (s.ks j).self = some t → j = k) (i j : K) (t : θ)
    (hi : (update s.ks k v i).self = some t) (hj : (update s.ks k v j).self = some t) : i = j := by
  by_cases hik : i = k
  · by_cases hjk : j = k
    · rw [hik, hjk]
    · rw [hik, update_self] at hi
      rw [update_of_ne hjk] at hj
      exact absurd (hv t j hi hj) hjk
  · rw [update_of_ne hik] at hi
    by_cases hjk : j = k
    · rw [hjk, update_self] at hj
      exact absurd (hv t i hj hi) hik
    · rw [update_of_ne hjk] at hj
      exact hs.self_inj i j t hi hj

lemma Inv.defer (hs : Inv s) (hd : (s.ks k).counts.depth ≠ 0) (kd : Kind) : Inv (s.defer k kd) where
  ks := by
    refine (forall_update_iff s.ks fun j x => x.Ok (s.defer k kd) j).2 ⟨?_, fun j hj => ?_⟩
    · have hk := hs.ks k
      refine ⟨hk.wf.set kd, hk.running, fun hn => (Counts.depth_set kd).trans (hk.idle hn), fun _ _ => .of_depth ?_,
        fun kd' => ?_, fun r hr hrk t ht => ?_⟩
      · rwa [Counts.depth_set]
      · rw [Counts.pending_set, Bool.or_eq_true, decide_eq_true_iff, hk.flag]
        simp [Sys.defer, Request.On, or_comm, eq_comm]
      · rcases mem_cons.1 hr with rfl | hr
        · exact ht
        · exact hk.owner r hr hrk t ht
    · refine (hs.ks j).other (fun _ _ => ⟨rfl, rfl⟩) fun r hr => mem_cons.trans (or_iff_right ?_)
      rintro rfl
      exact hj hr.symm
  self_inj := hs.self_inj_update fun t j ht hj => hs.self_inj j k t hj ht
  taken := hs.taken
  once := by
    show (List.map Request.id (⟨s.deferred, k, kd, (s.ks k).self⟩ :: s.pending ++
      s.taken.map Prod.fst)).Perm (List.range (s.deferred + 1))
    rw [range_succ, cons_append, map_cons]
    exact (hs.once.cons s.deferred).trans (perm_append_singleton _ _).symm

lemma Inv.take_once (hs : Inv s) (takes : Option Kind) :
    (((s.take k t takes).pending ++ (s.take k t takes).taken.map Prod.fst).map Request.id).Perm
      (List.range (s.take k t takes).deferred) := by
  cases takes with
  | none => exact hs.once
  | some kd =>
    refine List.Perm.trans (List.Perm.map _ ?_) hs.once
    have hsplit := filter_append_perm (fun r : Request K θ => decide (r.On k kd)) s.pending
    simp only [Sys.take, map_append, map_map]
    rw [← append_assoc]
    refine List.Perm.append ?_ (.refl _)
    rw [show (Prod.fst ∘ fun r : Request K θ => (r, t)) = id from rfl, map_id]
    refine perm_append_comm.trans (.trans ?_ hsplit)
    simp only [decide_not]
    exact .refl _

lemma Inv.take_taken (hs : Inv s) (ht : (s.ks k).self = some t) (takes : Option Kind) :
    ∀ x ∈ (s.take k t takes).taken, x.1.owner = some x.2 := by
  cases takes with
  | none => exact hs.taken
  | some kd =>
    intro x hx
    rcases mem_append.1 hx with hx | hx
    · obtain ⟨r, hr, rfl⟩ := mem_map.1 hx
      obtain ⟨hr, hon⟩ := mem_filter.1 hr
      exact (hs.ks k).owner r hr (of_decide_eq_true hon).1 t ht
    · exact hs.taken x hx

lemma Sys.mem_take {takes : Option Kind} {r : Request K θ} :
    r ∈ (s.take k t takes).pending ↔ r ∈ s.pending ∧ ∀ kd, takes = some kd → ¬ r.On k kd := by
  cases takes with
  | none => exact ⟨fun h => ⟨h, nofun⟩, And.left⟩
  | some kd =>
    simp only [Sys.take, mem_filter, decide_eq_true_iff, Option.some.injEq, forall_eq']

variable [DecidableEq θ]

omit [DecidableEq K] in
lemma Inv.of_frames (hs : Inv s) (ht : (s.ks k).self = some t)
    (hf : Fits (s.ks k).counts fs) : Inv { s with frames := update s.frames t fs } :=
  { hs with
    ks := fun j => { hs.ks j with
      fits := by
        intro u hj
        dsimp only
        by_cases hu : u = t
        · subst hu
          rw [update_self, hs.self_inj j k u hj ht]
          exact hf
        · rw [update_of_ne hu]
          exact (hs.ks j).fits u hj } }

omit [DecidableEq K] in
lemma Inv.of_call (hs : Inv s) {c : Call} (h : call s k c = .ok s') : Inv s' := by
  unfold call at h
  split at h
  · rename_i t ht
    obtain ⟨hnil, h⟩ := guard_eq_ok.1 h
    cases h
    refine hs.of_frames ht (.cons ?_)
    cases c with
    | preemptDisable | preemptEnable | threadYield | threadPark | threadExit => rfl
  · cases h

lemma Inv.of_arrive (hs : Inv s) {kd : Kind}
    (hfs : fs = [] ∨ ∃ f, fs = [f] ∧ f.past = false) (h : arrive s k kd fs = .ok s') : Inv s' := by
  unfold arrive at h
  split at h
  · split at h
    · rename_i t ht
      cases h
      refine hs.of_frames ht ?_
      rcases hfs with rfl | ⟨f, rfl, hf⟩
      · exact (hs.ks k).fits t ht
      · exact .cons hf
    · cases h
  · rename_i hen
    cases h
    exact hs.defer (fun hd => hen ((s.ks k).counts.enabled_iff.2 hd)) kd

lemma Inv.of_moved (hs : Inv s) {m : Move}
    (ht : (s.ks k).self = some t) (hm : m.Keeps (s.ks k).counts rest) : Inv (s.moved k t rest m) where
  ks := by
    refine (forall_update_iff s.ks fun j x => x.Ok (s.moved k t rest m) j).2 ⟨?_, fun j hj => ?_⟩
    · have hk := hs.ks k
      have hself {u : θ} (hu : (if m.leaves then none else some t) = some u) : m.leaves = false ∧ t = u := by
        split at hu
        · cases hu
        · rename_i hl
          exact ⟨Bool.eq_false_iff.2 hl, Option.some.inj hu⟩
      refine ⟨hm.wf, fun u hu => ?_, fun hn => hm.depth ?_, fun u hu => ?_, fun kd => ?_, fun r hr hrk u hu => ?_⟩
      · obtain ⟨hl, rfl⟩ := hself hu
        exact (update_self ..).trans (by rw [hl]; rfl)
      · by_contra hl
        rw [if_neg hl] at hn
        cases hn
      · obtain ⟨hl, rfl⟩ := hself hu
        rw [show (s.moved k t rest m).frames t = m.frames ++ rest from update_self ..]
        exact hm.fits hl
      · rw [hm.pending, hk.flag]
        constructor
        · rintro ⟨⟨r, hr, hon⟩, hne⟩
          refine ⟨r, Sys.mem_take.2 ⟨hr, fun kd' htk hon' => hne ?_⟩, hon⟩
          rw [htk, ← hon'.2, hon.2]
        · rintro ⟨r, hr, hon⟩
          obtain ⟨hr, hne⟩ := Sys.mem_take.1 hr
          exact ⟨⟨r, hr, hon⟩, fun htk => hne kd htk hon⟩
      · obtain ⟨-, rfl⟩ := hself hu
        exact hk.owner r (Sys.mem_take.1 hr).1 hrk t ht
    · refine (hs.ks j).other (fun u hu => ?_) fun r hr => Sys.mem_take.trans (and_iff_left ?_)
      · have hne : u ≠ t := by
          rintro rfl
          exact hj (hs.self_inj j k u hu ht)
        exact ⟨update_of_ne hne .., update_of_ne hne ..⟩
      · exact fun _ _ hon => hj (hr.symm.trans hon.1)
  self_inj := by
    refine hs.self_inj_update fun u j hu hj => hs.self_inj j k u hj ?_
    split at hu
    · cases hu
    · exact ht.trans hu
  taken := hs.take_taken ht m.takes
  once := hs.take_once m.takes

lemma Inv.of_next (hs : Inv s) {env : Env} (h : next s k env = .ok s') : Inv s' := by
  unfold next at h
  split at h
  · rename_i t ht
    split at h
    · rename_i f rest hf
      split at h
      · rename_i m hm
        cases h
        refine hs.of_moved ht (Frame.step_keeps (hs.ks k).wf ?_ hm)
        rw [← hf]
        exact (hs.ks k).fits t ht
      · cases h
    · cases h
  · cases h

lemma Inv.of_jmpThread (hs : Inv s) (hq : ∀ kd, (s.ks k).counts.pending kd = false)
    (h : jmpThread s k t = .ok s') : Inv s' := by
  obtain ⟨hnone, h⟩ := guard_eq_ok.1 h
  obtain ⟨hrun, h⟩ := guard_eq_ok.1 h
  cases h
  have hk := hs.ks k
  have hd : (s.ks k).counts.depth ≠ 0 := by
    rw [hk.idle (Option.isNone_iff_eq_none.1 hnone)]
    exact Nat.one_ne_zero
  have hpend (kd : Kind) : (s.ks k).counts.decr.pending kd = (s.ks k).counts.pending kd := Counts.pending_decr hd kd
  have hnot {j : K} : (s.ks j).self ≠ some t := by
    intro hj
    rw [(hs.ks j).running t hj] at hrun
    cases hrun
  refine ⟨(forall_update_iff s.ks fun j x => x.Ok _ j).2 ⟨?_, fun j hj => ?_⟩, hs.self_inj_update ?_, hs.taken, hs.once⟩
  · refine ⟨hk.wf, ?_, nofun, fun _ _ => .of_quiet fun kd => (hpend kd).trans (hq kd), fun kd => ?_, fun r hr hrk => ?_⟩
    · rintro u ⟨⟩
      exact update_self ..
    · rw [hpend]
      exact hk.flag kd
    · have hp := (hk.flag r.kind).2 ⟨r, hr, hrk, rfl⟩
      rw [hq] at hp
      cases hp
  · refine (hs.ks j).other (fun u hu => ?_) fun _ _ => Iff.rfl
    have hne : u ≠ t := by
      rintro rfl
      exact hnot hu
    exact ⟨update_of_ne hne .., update_of_ne hne ..⟩
  · rintro u j ⟨⟩ hj
    exact absurd hj hnot

/-! ## Runs -/

/-- No request is pending when a stack switch re-enables preemption, and no signal when a kthread parks. -/
def SwitchesQuiet (s : Sys K θ) : Event K θ → Bool
  | .jmpThread k _ => !(s.ks k).counts.pending .signal && !(s.ks k).counts.pending .uintr
  | .park k => !(s.ks k).counts.pending .signal
  | _ => true

/-- No step loses a request that is pending. -/
lemma Inv.of_step (hs : Inv s) {e : Event K θ} (hok : SwitchesQuiet s e) (h : step s e = .ok s') : Inv s' := by
  cases e with
  | call k c => exact hs.of_call h
  | next k env => exact hs.of_next h
  | jmpThread k t =>
    refine hs.of_jmpThread (fun kd => ?_) h
    simp only [SwitchesQuiet, Bool.and_eq_true, Bool.not_eq_true'] at hok
    cases kd with
    | signal => exact hok.1
    | uintr => exact hok.2
  | park k =>
    rw [SwitchesQuiet, Bool.not_eq_true'] at hok
    simp only [step, kthreadYieldToIokernel, Counts.clear_of_not_pending hok, update_eq_self] at h
    split at h
    · cases h
      exact hs
    · cases h
  | sigusr1 k | uintr k => exact hs.of_arrive (.inr ⟨_, rfl, rfl⟩) h
  | sigusr2 k yieldNeeded =>
    refine hs.of_arrive ?_ h
    split
    · exact .inr ⟨_, rfl, rfl⟩
    · exact .inl rfl

lemma reaches_inv
    (h : Reaches step (fun s e => SwitchesQuiet s e = true) Initial s) : Inv s :=
  h.invariant (fun _ => Inv.of_initial) fun _ _ _ hi hok he => hi.of_step hok he

/-- In every run in which no request is pending at a stack switch and no signal when a kthread parks: when a uthread is in ordinary code with preemption
enabled, no request is recorded on its kthread; each request that arrived while it was disabled is recorded by the
counter of its kthread, or was taken once, by the uthread that was running when it arrived. -/
theorem requests_taken (h : Reaches step (fun s e => SwitchesQuiet s e = true) Initial s) :
    (∀ k t, (s.ks k).self = some t → s.frames t = [] → preemptEnabled (s.ks k).counts.preemptCnt →
      needed (s.ks k).counts.preemptCnt = false ∧ needed (s.ks k).counts.upreemptCnt = false) ∧
    (∀ r t, (r, t) ∈ s.taken → r.owner = some t) ∧
    (∀ r ∈ s.pending, ∀ t, (s.ks r.kthread).self = some t → r.owner = some t) ∧
    ((s.pending ++ s.taken.map Prod.fst).map Request.id).Perm (List.range s.deferred) ∧
    ∀ k kd, (s.ks k).counts.pending kd = true ↔ ∃ r ∈ s.pending, r.On k kd := by
  have hs := reaches_inv h
  refine ⟨?_, fun r t hr => hs.taken (r, t) hr, fun r hr => (hs.ks _).owner r hr rfl, hs.once, fun k => (hs.ks k).flag⟩
  intro k t ht hnil hen
  have hfits := (hs.ks k).fits t ht
  have hd := (preemptEnabled_iff _).1 hen
  rw [hnil] at hfits
  constructor
  · by_contra hp
    obtain ⟨f, rest, he, -⟩ := hfits.signal hd ((Bool.not_eq_false _).mp hp)
    cases he
  · by_contra hp
    exact hfits.uintr hd ((Bool.not_eq_false _).mp hp) rfl

end Invariant

def initSys : Sys (Fin 1) (Fin 2) where
  ks _ := ⟨⟨0x80000001#32, 0x80000000#32⟩, none⟩
  frames _ := []
  running _ := false
  deferred := 0
  pending := []
  taken := []

lemma initSys_initial : Initial initSys := ⟨fun _ => rfl, fun _ => rfl, fun _ => rfl, rfl, rfl, rfl⟩

def other : Env := ⟨false, false, false⟩

def same : Env := ⟨false, false, true⟩

theorem requests_taken_section : ∃ s : Sys (Fin 1) (Fin 2),
    Reaches step (fun s e => SwitchesQuiet s e = true) Initial s ∧
      s.taken = [(⟨0, 0, .uintr, some 1⟩, 1)] ∧ (s.ks 0).self = some 1 ∧ s.frames 1 = [] ∧
      needed (s.ks 0).counts.upreemptCnt = false := by
  refine Reaches.of_exec_imp (s := initSys) (P := fun s =>
      s.taken = [(⟨0, 0, .uintr, some 1⟩, 1)] ∧ (s.ks 0).self = some 1 ∧ s.frames 1 = [] ∧
      preemptEnabled (s.ks 0).counts.preemptCnt)
    [.jmpThread 0 1, .call 0 .preemptDisable, .next 0 same, .uintr 0, .call 0 .preemptEnable,
        .next 0 same, .next 0 same, .next 0 same, .next 0 same, .next 0 same, .next 0 same,
        .next 0 same, .next 0 same, .next 0 same, .next 0 same]
      initSys_initial (by decide) (by decide) ?_
  rintro s hs ⟨htaken, hself, hnil, hen⟩
  exact ⟨htaken, hself, hnil, ((requests_taken hs).1 0 1 hself hnil hen).2⟩

/-- A user interrupt that arrives while a uthread parks stays pending over the stack switch: the next uthread runs
ordinary code with the request pending, and takes it at the end of its next section. -/
theorem uintr_over_switch :
    (∃ s : Sys (Fin 1) (Fin 2), Reaches step (fun _ _ => True) Initial s ∧
      (s.ks 0).self = some 1 ∧ s.frames 1 = [] ∧
      preemptEnabled (s.ks 0).counts.preemptCnt = true ∧
      needed (s.ks 0).counts.upreemptCnt = true) ∧
    ∃ s : Sys (Fin 1) (Fin 2), Reaches step (fun _ _ => True) Initial s ∧
      s.taken = [(⟨0, 0, .uintr, some 0⟩, 1)] := by
  constructor
  · exact Reaches.of_exec (s := initSys)
      [.jmpThread 0 0, .call 0 .preemptDisable, .next 0 other, .call 0 .threadPark, .uintr 0,
        .next 0 other, .jmpThread 0 1]
      initSys_initial (allowed_true _ _) (by decide)
  · exact Reaches.of_exec (s := initSys)
      [.jmpThread 0 0, .call 0 .preemptDisable, .next 0 other, .call 0 .threadPark, .uintr 0,
        .next 0 other, .jmpThread 0 1, .call 0 .preemptDisable, .next 0 other,
        .call 0 .preemptEnable, .next 0 other, .next 0 other, .next 0 other]
      initSys_initial (allowed_true _ _) (by decide)

end Aspen.Preempt
