import Aspen.Iokernel.IasMoves

/-!
# The calls of the interference-aware policy

Each call does what `Did` says, and the assertion in `ias_choose_kthread` holds; so that the invariant of the tables is
kept by every event. That a process whose bandwidth is throttled is not latency-critical comes from the samples: a
sample counts only if the core has not changed hands since it was requested, and it is requested for best-effort
processes only.
-/

namespace Aspen.Ias

open Tables Function List

variable {σ : Type*} {n : ℕ} {P : Type*} [DecidableEq P]
variable {cfg : Config n} {L : Layer σ n P} {s : Sys σ n P} {p sd : P} {core : Fin n}

/-! ## Running and idling -/

variable (L s p)

lemma runKthreadOnCore_cases (core : Fin n) : runKthreadOnCore L s p core = (false, s) ∨
      ∃ low, runKthreadOnCore L s p core = (true, ⟨low, s.tab.grant p core⟩) := by
  unfold runKthreadOnCore
  split
  · exact .inl rfl
  · split
    · exact .inl rfl
    · exact .inr ⟨_, rfl⟩

lemma idleOnCore_tab (core : Fin n) :
    (idleOnCore L s core).tab = s.tab ∨ (idleOnCore L s core).tab = s.tab.vacate core := by
  unfold idleOnCore
  split
  · exact .inl rfl
  · exact .inr rfl

variable {L s p}

lemma moves_relax {s : Sys σ n P} (h : core ∈ s.tab.punishedCores) :
    Moves cfg s.tab (idleOnCore L { s with tab := s.tab.relaxCore core } core).tab ∧
      core ∉ (idleOnCore L { s with tab := s.tab.relaxCore core } core).tab.punishedCores := by
  have hnot : core ∉ (s.tab.relaxCore core).punishedCores := Finset.notMem_erase core _
  have hmove : Moves cfg s.tab (s.tab.relaxCore core) := .single (.relax h)
  rcases idleOnCore_tab L { s with tab := s.tab.relaxCore core } core with he | he
  · rw [he]
    exact ⟨hmove, hnot⟩
  · rw [he]
    refine ⟨hmove.tail (.vacate fun hp => absurd hp hnot), ?_⟩
    show core ∉ ((s.tab.relaxCore core).cleanupCore core).punishedCores
    rw [cleanupCore_punishedCores]
    exact hnot

/-! ## Adding a thread -/

def Added (cfg : Config n) (s : Tables n P) (sd : P) (r : Bool × Sys σ n P) : Prop := ∃ s₁, Moves cfg s s₁ ∧
    (r.1 = false ∧ r.2.tab = s₁ ∨ ∃ core, r.1 = true ∧ r.2.tab = s₁.grant sd core ∧ s₁.Takeable core)

lemma added_run {s0 : Tables n P} (hm : Moves cfg s0 s.tab) (ht : s.tab.Takeable core) :
    Added cfg s0 sd (runKthreadOnCore L s sd core) := by
  refine ⟨s.tab, hm, ?_⟩
  rcases runKthreadOnCore_cases L s sd core with he | ⟨low, he⟩
  · rw [he]
    exact .inl ⟨rfl, rfl⟩
  · rw [he]
    exact .inr ⟨core, rfl, rfl, ht⟩

lemma takeable_of_canPreemptCore {s : Tables n P} (h : canPreemptCore s sd core) : s.Takeable core := by
  intro _
  unfold canPreemptCore at h
  split at h
  · rename_i hc
    exact .inl hc
  · rename_i cur hc
    simp only [Bool.and_eq_true, decide_eq_true_eq] at h
    exact .inr ⟨cur, hc, .inl h.1.1.2⟩

variable (cfg L s)

lemma added_addRelinquished (sd : P) : Added cfg s.tab sd (addRelinquished cfg L s sd) := by
  have hnone : Added cfg s.tab sd (false, s) := ⟨s.tab, .refl, .inl ⟨rfl, rfl⟩⟩
  unfold addRelinquished htRelinquishCore
  split
  · exact hnone
  · cases hr : relinquishable cfg s.tab sd with
    | none => exact hnone
    | some core =>
      have hp : core ∈ s.tab.punishedCores := by
        unfold relinquishable at hr
        split at hr
        · cases hr
        · have hmem := mem_filter.1 (best_eq_some hr).1
          exact (of_decide_eq_true hmem.2).2
      obtain ⟨hm, hnot⟩ : Moves cfg s.tab _ ∧ _ := moves_relax (L := L) hp
      exact added_run hm fun hp => absurd hp hnot

lemma added_addKthread (sd : P) : Added cfg s.tab sd (addKthread cfg L s sd) := by
  unfold addKthread
  split
  · exact added_addRelinquished cfg L s sd
  · split
    · rename_i core hcore
      have hmem := mem_filter.1 (best_eq_some hcore).1
      exact added_run .refl (takeable_of_canPreemptCore hmem.2)
    · exact added_addRelinquished cfg L s sd

variable {cfg L s}

lemma Added.did {s0 s1 : Tables n P} {r : Bool × Sys σ n P} (h : Added cfg s1 sd r) (hm : Moves cfg s0 s1)
    (hp : sd ∈ s0.allProcs) : Did cfg s0 r.2.tab := by
  obtain ⟨s2, hm', h⟩ := h
  have hall := hm.trans hm'
  rcases h with ⟨-, he⟩ | ⟨core, -, he, ht⟩
  · exact ⟨s2, s2, hall, .none, .inl he⟩
  · refine ⟨s2, _, hall, .grant ?_ ht, .inl he⟩
    rw [(static_of_moves hall).allProcs]
    exact hp

lemma did_addOrMark (hp : sd ∈ s.tab.allProcs) : Did cfg s.tab (addOrMark cfg L s sd).tab := by
  have hmark : Did cfg s.tab (s.tab.markCongested sd) := ⟨s.tab, _, .refl, .mark hp, .inl rfl⟩
  have hadd := added_addKthread cfg L s sd
  unfold addOrMark
  split
  · split
    · rename_i s' he
      rw [he] at hadd
      exact hadd.did .refl hp
    · rename_i s' he
      rw [he] at hadd
      obtain ⟨s1, hm, ⟨-, h1⟩ | ⟨core, hf, -⟩⟩ := hadd
      · refine ⟨s1, _, hm, .mark ?_, .inl (congrArg (Tables.markCongested · sd) h1)⟩
        rw [(static_of_moves hm).allProcs]
        exact hp
      · cases hf
  · exact hmark

lemma did_notifyCongested (hp : p ∈ s.tab.allProcs) (delay : Policy.Delay) :
    Did cfg s.tab (notifyCongested cfg L s p delay).tab := by
  unfold notifyCongested
  split
  · exact .of_moves (.single (.unmark p))
  · split
    · exact .of_moves .refl
    · exact did_addOrMark hp

/-! ## The choice of a process -/

lemma chooseKthread_ok {s : Tables n P} (h : s.Inv cfg) (core : Fin n) :
    ∃ o, chooseKthread s core = .ok o ∧ ∀ sd, o = some sd → sd ∈ s.allProcs := by
  unfold chooseKthread
  split
  · rename_i sd sds hs
    have hmem := (h.listed.starved.mem sd).1 (hs ▸ .head _)
    rw [if_pos (h.hungry sd hmem.1 hmem.2).2.2]
    refine ⟨some sd, rfl, ?_⟩
    rintro q ⟨⟩
    exact hmem.1
  · refine ⟨_, rfl, fun sd hsd => ?_⟩
    have hmem := mem_filter.1 (best_eq_some hsd).1
    exact ((h.listed.congested.mem sd).1 hmem.1).1

lemma addKthreadOnCore_ok (h : s.tab.Inv cfg) (core : Fin n) : addKthreadOnCore L s core = .ok (false, s) ∨
      ∃ low sd, sd ∈ s.tab.allProcs ∧ addKthreadOnCore L s core = .ok (true, ⟨low, s.tab.grant sd core⟩) := by
  obtain ⟨o, ho, hmem⟩ := chooseKthread_ok h core
  unfold addKthreadOnCore
  rw [ho]
  cases o with
  | none => exact .inl rfl
  | some sd =>
    rcases runKthreadOnCore_cases L s sd core with he | ⟨low, he⟩
    · exact .inl (congrArg Except.ok he)
    · exact .inr ⟨low, sd, hmem sd rfl, congrArg Except.ok he⟩

lemma leaveCore_cores (s : Tables n P) (core : Fin n) : (leaveCore s core).cores core = none := by
  have hfree (s : Tables n P) : (s.cleanupCore core).cores core = none := by
    obtain ⟨loc, he⟩ := cleanupCore_eq s core
    rw [he]
    exact update_self ..
  unfold leaveCore
  split
  · exact hfree s
  · exact hfree _

lemma moves_leaveCore {s : Tables n P} (hp : core ∉ s.punishedCores) : Moves cfg s (leaveCore s core) := by
  unfold leaveCore
  split
  · rename_i hc
    refine .single (.leave hp fun p hp' => ?_)
    rw [hc] at hp'
    cases hp'
  · rename_i p hc
    refine (Relation.ReflTransGen.single (.unmark p)).tail ?_
    obtain ⟨l, l', he, -⟩ := Marking.unmarkCongested s p
    rw [he]
    refine .leave hp fun q (hq : s.cores core = some q) => ?_
    cases hc.symm.trans hq
    exact if_pos rfl

lemma did_allocate (h : s.tab.Inv cfg) (core : Fin n) : ∃ s', allocate L s core = .ok s' ∧ Did cfg s.tab s'.tab := by
  unfold allocate
  split
  · exact ⟨s, rfl, .of_moves .refl⟩
  · rename_i hc
    have hp : core ∉ s.tab.punishedCores := fun hp => hc (.inr hp)
    have hm : Moves cfg s.tab (leaveCore s.tab core) := moves_leaveCore hp
    have hl : (leaveCore s.tab core).Inv cfg := h.moves hm
    rcases addKthreadOnCore_ok (L := L) (s := { s with tab := leaveCore s.tab core }) hl core with
      he | ⟨low, sd, hsd, he⟩
    · rw [he]
      exact ⟨_, rfl, .of_moves hm⟩
    · rw [he]
      exact ⟨_, rfl, _, _, hm, .grant hsd fun _ => .inl (leaveCore_cores _ _), .inl rfl⟩

/-! ## Hyperthreads -/

lemma did_htRelax (cfg : Config n) (L : Layer σ n P) (s : Sys σ n P) (core : Fin n) :
    Did cfg s.tab (htRelax cfg L s core).tab := by
  unfold htRelax
  dsimp only
  split
  · exact .of_moves .refl
  · rename_i hp
    exact .of_moves (moves_relax (not_not.1 hp)).1

lemma did_htPunish (h : s.tab.Inv cfg) (hnoht : cfg.noht = false) (hc : s.tab.cores core = some sd)
    (hb : (s.tab.data sd).htPunishUs > 0) : Did cfg s.tab (htPunish cfg L s sd core).tab := by
  have hsd : sd ∈ s.tab.allProcs := h.books.owner hc
  unfold htPunish
  split
  · exact .of_moves .refl
  · rename_i hcan
    rw [not_not] at hcan
    unfold canPunish at hcan
    simp only [Bool.and_eq_true, decide_eq_true_eq] at hcan
    obtain ⟨⟨⟨hres, -⟩, hnot⟩, -⟩ := hcan
    cases hp : idlePlaceholderOnCore L s sd (cfg.sibling core) with
    | none => exact .of_moves .refl
    | some s' =>
      obtain ⟨low, -, rfl⟩ := Option.map_eq_some_iff.1 hp
      have hm : Moves cfg s.tab ((s.tab.placehold sd (cfg.sibling core)).punishCore (cfg.sibling core)) :=
        .single (.punish hnoht hc (h.budget sd hsd hb) hres hnot)
      dsimp only
      split
      · exact .of_moves hm
      · rename_i sib hsib
        split
        · exact (added_addKthread cfg L _ sib).did hm (h.books.owner hsib)
        · exact .of_moves hm

lemma did_htAdjust (h : s.tab.Inv cfg) (hnoht : cfg.noht = false) (core : Fin n) :
    Did cfg s.tab (htAdjust cfg L s core).tab := by
  unfold htAdjust
  split
  · rename_i sd hc
    split
    · rename_i hb
      exact did_htPunish h hnoht hc hb.1
    · exact did_htRelax cfg L s core
  · exact did_htRelax cfg L s core

/-! ## Bandwidth -/

omit [DecidableEq P] in
lemma sampled_request (s : Tables n P) (a : Fin n → ℤ) : s.Sampled cfg (bwRequestPmc cfg s a) := by
  intro c hc
  unfold bwRequestPmc
  rw [if_pos hc]
  cases ho : s.cores c with
  | none => exact ⟨Int.sub_le_self _ (by decide), nofun⟩
  | some sd =>
    dsimp only
    split
    · refine ⟨Int.sub_le_self _ (by decide), fun _ _ _ he => ?_⟩
      omega
    · rename_i hbe
      refine ⟨le_refl _, ?_⟩
      rintro q ⟨⟩ hlc
      exact absurd (.inl hlc) hbe

omit [DecidableEq P] in
lemma sampled_gather {s : Tables n P} {a : Fin n → ℤ} (h : s.Sampled cfg a) (failed : Fin n → Bool) :
    s.Sampled cfg (bwGatherPmc cfg s a failed) := by
  intro c hc
  unfold bwGatherPmc
  split
  · refine ⟨Int.sub_le_self _ (by decide), fun _ _ _ he => ?_⟩
    omega
  · exact h c hc

lemma bwChooseVictim_spec {s : Tables n P} {start stop : Fin n → ℤ} {estimate : Fin n → ℚ}
    (hs : s.Sampled cfg start) (h : bwChooseVictim cfg s start stop estimate = some (sd, core)) :
    s.cores core = some sd ∧ (s.data sd).isLc = false := by
  unfold bwChooseVictim at h
  dsimp only at h
  split at h
  · cases h
  · rename_i victim hv
    obtain ⟨c, hc, he⟩ := Option.map_eq_some_iff.1 h
    cases he
    have hcore := (mem_filter.1 (best_eq_some hc).1).2
    refine ⟨of_decide_eq_true hcore, ?_⟩
    rw [← Bool.not_eq_true]
    intro hlc
    -- its rate is positive, so that some sample of it counts
    have hpos := (best_eq_some hv).2
    unfold missRate at hpos
    cases hl : cfg.coresTbl.filter fun core => s.cores core = some sd && sampled s start stop core with
    | nil =>
      rw [hl] at hpos
      exact absurd hpos (lt_irrefl 0)
    | cons c' l =>
      have hmem : c' ∈ cfg.coresTbl.filter fun core => s.cores core = some sd && sampled s start stop core :=
        hl ▸ .head _
      obtain ⟨hc', ht⟩ := mem_filter.1 hmem
      unfold sampled at ht
      simp only [Bool.and_eq_true, decide_eq_true_eq] at ht
      exact (hs c' hc').2 sd ht.1 hlc ht.2.2

lemma move_setLimit (s : Tables n P) (p : P) (b : Bool) (lim : ℤ) :
    Move cfg s (s.setData p { s.data p with isBwlimited := b, threadsLimit := lim }) := by
  have he : s.setData p { s.data p with isBwlimited := b, threadsLimit := lim } =
      s.tuned s.nowUs ∅ s.budgetUsed (update (fun q => (s.data q).isBwlimited) p b)
        (update (fun q => (s.data q).threadsLimit) p lim) := by
    unfold Tables.setData tuned
    rw [Finset.union_empty]
    congr
    exact update_eq_iff.2 ⟨by simp, fun q hq => by simp [hq]⟩
  rw [he]
  exact .tune ..

lemma throttled (h : s.tab.Inv cfg) (hc : s.tab.cores core = some sd) (hbe : (s.tab.data sd).isLc = false) :
    ∃ s' s1, bwThrottleCore L s sd core = .ok s' ∧ Moves cfg s.tab s1 ∧ Last s1 s'.tab := by
  unfold bwThrottleCore
  dsimp only
  have hm : Move cfg s.tab _ := move_setLimit s.tab sd (s.tab.data sd).isBwlimited
    (max 0 (min ((s.tab.data sd).threadsLimit - 1) ((s.tab.data sd).threadsActive - 1)))
  have hbe' := (hm.static.isLc sd).trans hbe
  rcases addKthreadOnCore_ok (L := L) (s := ⟨s.low, s.tab.setData sd _⟩) (h.move hm) core with he | ⟨low, q, hq, he⟩
  · rw [he]
    refine ⟨_, _, rfl, ?_, .none⟩
    rcases idleOnCore_tab L ⟨s.low, s.tab.setData sd _⟩ core with hi | hi
    · rw [hi]
      exact .single hm
    · rw [hi]
      exact (Relation.ReflTransGen.single hm).tail (.vacate fun _ => ⟨sd, hc, hbe'⟩)
  · rw [he]
    exact ⟨_, _, rfl, .single hm, .grant hq fun _ => .inr ⟨sd, hc, .inr hbe'⟩⟩

lemma punished_bw (h : s.tab.Inv cfg) {start : Fin n → ℤ} (hs : s.tab.Sampled cfg start) (stop : Fin n → ℤ)
    (estimate : Fin n → ℚ) :
    ∃ s' s1, bwPunish cfg L s start stop estimate = .ok s' ∧ Moves cfg s.tab s1 ∧ Last s1 s'.tab := by
  unfold bwPunish
  cases hv : bwChooseVictim cfg s.tab start stop estimate with
  | none => exact ⟨s, s.tab, rfl, .refl, .none⟩
  | some x =>
    obtain ⟨sd, core⟩ := x
    obtain ⟨hc, hbe⟩ := bwChooseVictim_spec hs hv
    have hm : Move cfg s.tab _ := move_setLimit s.tab sd true (s.tab.data sd).threadsLimit
    obtain ⟨s', s1, he, hm', hl⟩ := throttled (L := L) (s := { s with tab := s.tab.setData sd _ }) (h.move hm) hc
      ((hm.static.isLc sd).trans hbe)
    exact ⟨s', s1, he, hm'.head hm, hl⟩

lemma moves_bwRelax (s : Tables n P) : Moves cfg s (bwRelax s) := by
  unfold bwRelax
  dsimp only
  split
  · exact .refl
  · exact .single (move_setLimit ..)

lemma did_bwPoll (h : s.tab.Inv cfg) (found : BwFound n) :
    ∃ s', bwPoll cfg L s found = .ok s' ∧ Did cfg s.tab s'.tab := by
  unfold bwPoll
  dsimp only
  cases s.tab.bw.state with
  | relax =>
    dsimp only
    split
    · have hm : Move cfg s.tab (s.tab.setBw { s.tab.bw with
          state := .sample, start := bwRequestPmc cfg s.tab s.tab.bw.start }) :=
        .sample (sampled_request s.tab _) h.stop
      exact ⟨_, rfl, .of_moves (.single hm)⟩
    · exact ⟨_, rfl, .of_moves (moves_bwRelax s.tab)⟩
  | sample =>
    exact ⟨_, rfl, .of_moves (.single (.sample (sampled_gather h.start _) (sampled_request s.tab _)))⟩
  | punish =>
    dsimp only
    have hstop := sampled_gather h.stop found.failed
    split
    · have hm : Move cfg s.tab (s.tab.setBw { s.tab.bw with
          state := .relax, stop := bwGatherPmc cfg s.tab s.tab.bw.stop found.failed }) := .sample h.start hstop
      exact ⟨_, rfl, .of_moves (.single hm)⟩
    · obtain ⟨s', s1, he, hm, hl⟩ := punished_bw (L := L) h h.start _ found.estimate
      rw [he]
      exact ⟨_, rfl, s1, s'.tab, hm, hl, .inr ⟨_, rfl, (hstop.moves hm).last hl, sampled_request s'.tab _⟩⟩

/-! ## Attaching and detaching -/

lemma attach_cases (cfg : Config n) (s : Tables n P) (p : P) (spec : Spec) (mem : Bool) :
    attach cfg s p spec mem = (false, s) ∨
    (∃ mine all, attach cfg s p spec mem = (false, { s with reservedCores := symmDiff all mine }) ∧
      reserve cfg (iterations cfg spec.guaranteedCores.toInt) ∅ s.reservedCores = (false, mine, all)) ∨
    ∃ d mine all, attach cfg s p spec mem =
        (true, { s.setData p d with allProcs := p :: s.allProcs, reservedCores := all }) ∧
      reserve cfg (iterations cfg spec.guaranteedCores.toInt) ∅ s.reservedCores = (true, mine, all) ∧
      d.isCongested = false ∧ d.isStarved = false ∧ d.threadsActive = 0 ∧ d.reservedCores = mine ∧
      (d.htPunishUs > 0 → d.isLc) := by
  unfold attach
  split
  · exact .inl rfl
  · split
    · exact .inl rfl
    · generalize hr : reserve cfg (iterations cfg spec.guaranteedCores.toInt) ∅ s.reservedCores = r
      obtain ⟨ok, mine, all⟩ := r
      cases ok with
      | false => exact .inr (.inl ⟨mine, all, rfl, rfl⟩)
      | true =>
        refine .inr (.inr ⟨_, mine, all, rfl, rfl, rfl, rfl, rfl, rfl, ?_⟩)
        cases spec.isLc with
        | false => exact fun h => absurd h (lt_irrefl 0)
        | true => exact fun _ => rfl

lemma Tables.Inv.setReserved {s : Tables n P} (h : s.Inv cfg) (all : Finset (Fin n)) :
    Tables.Inv cfg { s with reservedCores := all } :=
  ⟨⟨⟨h.books.nodup, h.books.owner, h.books.counted⟩, ⟨h.listed.starved, h.listed.congested⟩, h.budget, h.punished,
    h.start, h.stop⟩, h.hungry⟩

lemma Tables.Inv.attached {s : Tables n P} (h : s.Inv cfg) (hp : p ∉ s.allProcs) {d : Data n}
    (hc : d.isCongested = false) (hs : d.isStarved = false) (ha : d.threadsActive = 0)
    (hb : d.htPunishUs > 0 → d.isLc) (all : Finset (Fin n)) :
    Tables.Inv cfg { s.setData p d with allProcs := p :: s.allProcs, reservedCores := all } := by
  have hself : update s.data p d p = d := update_self ..
  have hother {q} (hq : q ≠ p) : update s.data p d q = s.data q := update_of_ne hq ..
  have hne {q} (hq : q ∈ s.allProcs) : q ≠ p := fun he => hp (he ▸ hq)
  -- a mark is on the same processes as before
  have hmarks {l : List P} (f : Data n → Bool) (hf : f d = false)
      (hl : Marked l fun q => q ∈ s.allProcs ∧ f (s.data q) = true) :
      Marked l fun q => q ∈ p :: s.allProcs ∧ f (update s.data p d q) := by
    refine hl.congr fun q => ?_
    by_cases hq : q = p
    · rw [hq, hself, hf]
      exact ⟨fun hm => (nomatch hm.2), fun hm => absurd hm.1 hp⟩
    · rw [hother hq, mem_cons, or_iff_right hq]
  have hsampled {a : Fin n → ℤ} (hl : s.Sampled cfg a) :
      Tables.Sampled cfg { s.setData p d with allProcs := p :: s.allProcs, reservedCores := all } a := by
    refine fun c hc => ⟨(hl c hc).1, fun q hq hlc => (hl c hc).2 q hq ?_⟩
    have hlc' : (update s.data p d q).isLc := hlc
    rwa [hother (hne (h.books.owner hq))] at hlc'
  refine ⟨⟨⟨nodup_cons.2 ⟨hp, h.books.nodup⟩, fun hq => .tail _ (h.books.owner hq), fun q hq => ?_⟩,
    ⟨hmarks Data.isStarved hs h.listed.starved, hmarks Data.isCongested hc h.listed.congested⟩, fun q hq hq' => ?_,
    h.punished,
    hsampled h.start, hsampled h.stop⟩, fun q hq hq' => ?_⟩
  · show (update s.data p d q).threadsActive = (holds s.cores q).card
    by_cases he : q = p
    · have hnone : holds s.cores q = ∅ :=
        Finset.eq_empty_of_forall_notMem fun c hc => hp (he ▸ h.books.owner (Holds.mem_holds.1 hc))
      rw [hnone, he, hself, ha]
      rfl
    · rw [hother he]
      exact h.books.counted q (mem_of_ne_of_mem he hq)
  · show (update s.data p d q).isLc
    have hq'' : (update s.data p d q).htPunishUs > 0 := hq'
    by_cases he : q = p
    · rw [he, hself] at hq'' ⊢
      exact hb hq''
    · rw [hother he] at hq'' ⊢
      exact h.budget q (mem_of_ne_of_mem he hq) hq''
  · have hq'' : (update s.data p d q).isStarved := hq'
    show (update s.data p d q).isLc ∧ (update s.data p d q).isCongested ∧ (update s.data p d q).threadsActive = 0
    by_cases he : q = p
    · rw [he, hself, hs] at hq''
      cases hq''
    · rw [hother he] at hq'' ⊢
      exact h.hungry q (mem_of_ne_of_mem he hq) hq''

lemma inv_attach {s : Tables n P} (h : s.Inv cfg) (hp : p ∉ s.allProcs) (spec : Spec) (mem : Bool) :
    (attach cfg s p spec mem).2.Inv cfg := by
  rcases attach_cases cfg s p spec mem with he | ⟨mine, all, he, -⟩ | ⟨d, mine, all, he, -, hc, hs, ha, -, hb⟩
  · rw [he]
    exact h
  · rw [he]
    exact h.setReserved _
  · rw [he]
    exact h.attached hp hc hs ha hb all

lemma unmarkCongested_setProcs (s : Tables n P) (all : List P) (reserved : Finset (Fin n))
    (cores : Fin n → Option P) :
    (s.setProcs all reserved cores).unmarkCongested p = (s.unmarkCongested p).setProcs all reserved cores := by
  by_cases hs : (s.data p).isStarved = true <;> by_cases hc : (s.data p).isCongested = true <;>
    simp [Tables.unmarkCongested, Tables.unmarkStarved, setProcs, setStarved, setCongested, hs, hc]

lemma detach_eq (s : Tables n P) (p : P) : ∃ l l', detach s p =
    (s.withMarks (fun q => if q = p then false else (s.data q).isStarved)
      (fun q => if q = p then false else (s.data q).isCongested) l l').setProcs (s.allProcs.erase p)
        (symmDiff s.reservedCores (s.data p).reservedCores) (Holds.drop s.cores p) ∧
    (s.Listed → Marked l (fun q => q ∈ s.allProcs ∧ (if q = p then false else (s.data q).isStarved) = true) ∧
      Marked l' fun q => q ∈ s.allProcs ∧ (if q = p then false else (s.data q).isCongested) = true) := by
  obtain ⟨l, l', he, hl⟩ := Marking.unmarkCongested s p
  refine ⟨l, l', ?_, fun h => ?_⟩
  · rw [← he]
    exact unmarkCongested_setProcs ..
  · have hl := hl h
    rw [he] at hl
    exact ⟨hl.starved, hl.congested⟩

lemma inv_detach {s : Tables n P} (h : s.Inv cfg) : (detach s p).Inv cfg := by
  obtain ⟨l, l', he, hl⟩ := detach_eq s p
  have hmem {q} : q ∈ s.allProcs.erase p ↔ q ≠ p ∧ q ∈ s.allProcs := h.books.nodup.mem_erase_iff
  have hsampled {a : Fin n → ℤ} (hs : s.Sampled cfg a) : (detach s p).Sampled cfg a := by
    rw [he]
    exact fun c hc => ⟨(hs c hc).1, fun q hq hlc => (hs c hc).2 q (Holds.drop_eq_some.1 hq).2 hlc⟩
  have hstart := hsampled h.start
  have hstop := hsampled h.stop
  rw [he] at hstart hstop ⊢
  refine ⟨⟨⟨h.books.nodup.erase p, fun hq => ?_, fun q hq => ?_⟩, ⟨(hl h.listed).1.congr fun q => ?_,
    (hl h.listed).2.congr fun q => ?_⟩, fun q hq => h.budget q (hmem.1 hq).2, h.punished, hstart, hstop⟩,
    fun q hq (hst : (if q = p then false else (s.data q).isStarved) = true) => ?_⟩
  · obtain ⟨hne, hc⟩ := Holds.drop_eq_some.1 hq
    exact hmem.2 ⟨hne, h.books.owner hc⟩
  · show (s.data q).threadsActive = (holds (Holds.drop s.cores p) q).card
    rw [Holds.holds_drop (hmem.1 hq).1]
    exact h.books.counted q (hmem.1 hq).2
  · show q ∈ s.allProcs.erase p ∧ _ ↔ _
    rw [hmem]
    grind [withMarks, setProcs]
  · show q ∈ s.allProcs.erase p ∧ _ ↔ _
    rw [hmem]
    grind [withMarks, setProcs]
  · obtain ⟨hne, hq⟩ := hmem.1 hq
    rw [if_neg hne] at hst
    obtain ⟨hlc, hco, ha⟩ := h.hungry q hq hst
    exact ⟨hlc, (if_neg hne).trans hco, ha⟩

/-! ## Events -/

variable {e : Event σ n P}

def Done (cfg : Config n) (s : Tables n P) (e : Event σ n P) (s' : Sys σ n P) : Prop :=
  (∃ p spec mem, e = .attach p spec mem ∧ p ∉ s.allProcs ∧ s'.tab = (attach cfg s p spec mem).2) ∨
  (∃ p, e = .detach p ∧ p ∈ s.allProcs ∧ s'.tab = detach s p) ∨ Did cfg s s'.tab

/-- Every event is moves of the tables; none fails the assertion. -/
lemma step_comes (h : s.tab.Inv cfg) (e : Event σ n P) :
    Run.Comes (· = .misplaced) (Done cfg s.tab e) (step cfg L s e) := by
  have hdone {x : Except Stop (Sys σ n P)} (hx : ∃ s', x = .ok s' ∧ Did cfg s.tab s'.tab) :
      Run.Comes (· = .misplaced) (Done cfg s.tab e) x := by
    obtain ⟨s', rfl, hd⟩ := hx
    exact .ok (.inr (.inr hd))
  cases e with
  | attach p spec mem => exact .guard rfl fun hp => .ok (.inl ⟨p, spec, mem, rfl, hp, rfl⟩)
  | detach p => exact .guard rfl fun hp => .ok (.inr (.inl ⟨p, rfl, hp, rfl⟩))
  | notifyCoreNeeded p => exact .guard rfl fun hp => hdone ⟨_, rfl, did_addOrMark hp⟩
  | notifyCongested p delay => exact .guard rfl fun hp => hdone ⟨_, rfl, did_notifyCongested hp delay⟩
  | reportIdle now idle =>
    exact hdone ⟨_, rfl, .of_moves (.single (.tune now idle s.tab.budgetUsed (fun p => (s.tab.data p).isBwlimited)
      fun p => (s.tab.data p).threadsLimit))⟩
  | allocate core => exact hdone (did_allocate h core)
  | bwPoll found => exact hdone (did_bwPoll h found)
  | htMeasure measured =>
    have hm : Move cfg s.tab (htMeasure cfg s.tab measured) := by
      have ht : Move cfg s.tab _ := .tune s.tab.nowUs ∅ (htMeasure cfg s.tab measured).budgetUsed
        (fun p => (s.tab.data p).isBwlimited) fun p => (s.tab.data p).threadsLimit
      unfold tuned at ht
      rwa [Finset.union_empty] at ht
    exact hdone ⟨_, rfl, .of_moves (.single hm)⟩
  | htAdjust core =>
    simp only [step]
    split
    · exact .stop rfl
    · rename_i hnoht
      exact hdone ⟨_, rfl, did_htAdjust h (Bool.not_eq_true _ ▸ hnoht) core⟩
  | feedStarved =>
    simp only [step]
    split
    · exact hdone ⟨_, rfl, .of_moves .refl⟩
    · rename_i sd sds hs
      have hmem := (h.listed.starved.mem sd).1 (hs ▸ .head _)
      exact hdone ⟨_, rfl, (added_addKthread cfg L s sd).did .refl hmem.1⟩
  | below low => exact hdone ⟨_, rfl, .of_moves .refl⟩

/-! ## Runs -/

lemma inv_of_step (h : s.tab.Inv cfg) {s' : Sys σ n P} (hs : step cfg L s e = .ok s') : s'.tab.Inv cfg := by
  rcases (step_comes h e).of_ok hs with ⟨p, spec, mem, -, hp, he⟩ | ⟨p, -, -, he⟩ | hdid
  · rw [he]
    exact inv_attach h hp spec mem
  · rw [he]
    exact inv_detach h
  · exact h.did hdid

lemma Initial.inv {s : Tables n P} (h : Initial cfg s) : s.Inv cfg := by
  have hnot (p : P) : p ∉ s.allProcs := by
    rw [h.allProcs]
    exact not_mem_nil
  have hsampled : s.Sampled cfg fun _ => 0 := by
    refine fun c _ => ⟨(h.gen c).ge, fun p hp => ?_⟩
    rw [h.cores c] at hp
    cases hp
  refine ⟨⟨⟨h.allProcs ▸ nodup_nil, fun {c p} hc => ?_, fun p hp => absurd hp (hnot p)⟩,
    ⟨h.starvedProcs ▸ .nil fun p hp => hnot p hp.1, h.congestedProcs ▸ .nil fun p hp => hnot p hp.1⟩,
    fun p hp => absurd hp (hnot p), ?_, h.bw ▸ hsampled, h.bw ▸ hsampled⟩, fun p hp => absurd hp (hnot p)⟩
  · rw [h.cores c] at hc
    cases hc
  · unfold Tallied
    rw [h.punishCount, h.relaxCount, h.punishedCores, Finset.card_empty]
    decide

lemma reaches_inv {ok : Sys σ n P → Event σ n P → Prop}
    (h : Run.Reaches (step cfg L) ok (fun s => Initial cfg s.tab) s) : s.tab.Inv cfg :=
  h.invariant (I := fun s => s.tab.Inv cfg) (fun _ hi => hi.inv) fun _ _ _ hs _ he => inv_of_step hs he

end Aspen.Ias
