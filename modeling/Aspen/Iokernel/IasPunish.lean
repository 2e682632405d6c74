import Aspen.Iokernel.IasReserve

/-!
# Punished cores

A core that is punished is idle and belongs, as a placeholder, to a latency-critical process that has reserved it, so that
nobody takes it. But when that process is detached the core is left without an owner, and is still marked as punished:
then it looks free to others.
-/

namespace Aspen.Ias

open Run Tables Function Finset

variable {σ : Type*} {n : ℕ} {P : Type*} [DecidableEq P] {cfg : Config n} {L : Layer σ n P}
variable {s s' : Tables n P} {p : P}

/-! ## Siblings are reserved together -/

def Twin (cfg : Config n) (c : Fin n) : Prop := cfg.sibling (cfg.sibling c) = c
deriving Decidable

lemma Twin.sibling {c : Fin n} (h : Twin cfg c) : Twin cfg (cfg.sibling c) := congrArg cfg.sibling h

def Pairs (cfg : Config n) (S : Finset (Fin n)) : Prop := ∀ c ∈ S, Twin cfg c ∧ cfg.sibling c ∈ S

variable {core : Fin n}

lemma Pairs.insert {S : Finset (Fin n)} (h : Pairs cfg S) (hc : Twin cfg core) :
    Pairs cfg (Insert.insert (cfg.sibling core) (Insert.insert core S)) := by
  intro c hmem
  rcases mem_insert.1 hmem with rfl | hmem
  · refine ⟨hc.sibling, mem_insert_of_mem ?_⟩
    rw [show cfg.sibling (cfg.sibling core) = core from hc]
    exact mem_insert_self ..
  · rcases mem_insert.1 hmem with rfl | hmem
    · exact ⟨hc, mem_insert_self ..⟩
    · exact ⟨(h c hmem).1, mem_insert_of_mem (mem_insert_of_mem (h c hmem).2)⟩

lemma Pairs.reserve (hnoht : cfg.noht = false) (i : ℕ) {mine all : Finset (Fin n)} (h : Pairs cfg mine)
    (hfree : ∀ c ∉ all, Twin cfg c) :
    Pairs cfg (reserve cfg i mine all).2.1 ∧ ∀ c ∉ (reserve cfg i mine all).2.2, Twin cfg c := by
  induction i generalizing mine all with
  | zero => exact ⟨h, hfree⟩
  | succ i ih =>
    unfold Ias.reserve
    split
    · exact ⟨h, hfree⟩
    · rename_i core hf
      have hcore : Twin cfg core := by
        have ht := List.find?_some hf
        exact hfree core (of_decide_eq_true ht)
      rw [if_neg (by rw [hnoht]; nofun)]
      refine ih (h.insert hcore) fun c hc => hfree c fun hmem => hc ?_
      exact mem_insert_of_mem (mem_insert_of_mem hmem)

/-- Every process has reserved pairs, and what is not reserved is in pairs as well. -/
structure Twinned (cfg : Config n) (s : Tables n P) : Prop where
  free : ∀ c ∉ s.reservedCores, Twin cfg c
  mine : ∀ p ∈ s.allProcs, Pairs cfg (s.data p).reservedCores

omit [DecidableEq P] in
lemma Twinned.of_static (h : Twinned cfg s) (hs : s.Static s') : Twinned cfg s' where
  free c hc := h.free c (hs.reserved ▸ hc)
  mine p hp := by
    rw [hs.allProcs] at hp
    rw [hs.mine]
    exact h.mine p hp

lemma twin_of_symmDiff {mine all : Finset (Fin n)} (h : Pairs cfg mine) (hfree : ∀ c ∉ all, Twin cfg c) (c : Fin n)
    (hc : c ∉ symmDiff all mine) : Twin cfg c := by
  by_cases hm : c ∈ mine
  · exact (h c hm).1
  · exact hfree c fun ha => hc (mem_symmDiff.2 (.inl ⟨ha, hm⟩))

lemma Twinned.attach (hnoht : cfg.noht = false) (h : Twinned cfg s) (spec : Spec) (mem : Bool) :
    Twinned cfg (attach cfg s p spec mem).2 := by
  have hnone : Pairs cfg ∅ := fun c hc => absurd hc (notMem_empty c)
  have hr := hnone.reserve hnoht (iterations cfg spec.guaranteedCores.toInt) h.free
  rcases attach_cases cfg s p spec mem with he | ⟨mine, all, he, hr'⟩ | ⟨d, mine, all, he, hr', -, -, -, hm, -⟩
  · rw [he]
    exact h
  · rw [hr'] at hr
    rw [he]
    exact ⟨twin_of_symmDiff hr.1 hr.2, h.mine⟩
  · rw [hr'] at hr
    rw [he]
    refine ⟨hr.2, fun q hq => ?_⟩
    show Pairs cfg (update s.data p d q).reservedCores
    by_cases hqp : q = p
    · rw [hqp, update_self, hm]
      exact hr.1
    · rw [update_of_ne hqp]
      exact h.mine q (List.mem_of_ne_of_mem hqp hq)

lemma Twinned.detach (h : Twinned cfg s) (hp : p ∈ s.allProcs) : Twinned cfg (detach s p) := by
  obtain ⟨l, l', he, -⟩ := detach_eq s p
  rw [he]
  exact ⟨twin_of_symmDiff (h.mine p hp) h.free, fun q hq => h.mine q (List.mem_of_mem_erase hq)⟩

/-! ## Placeholders -/

namespace Tables

def Held (s : Tables n P) (c : Fin n) : Prop :=
  c ∈ s.idleCores ∧ ∃ p, s.cores c = some p ∧ (s.data p).isLc = true ∧ c ∈ (s.data p).reservedCores

def Covered (s : Tables n P) : Prop := ∀ c ∈ s.punishedCores, s.Held c

omit [DecidableEq P] in
lemma Covered.marking {st co : P → Bool} (h : s.Covered) (hm : Marking s s' st co) : s'.Covered := by
  obtain ⟨_, _, rfl, -⟩ := hm
  exact h

lemma Covered.moved (h : s.Covered) {o : Option P} (hm : Moved s s' core o)
    (hcore : core ∉ s.punishedCores) (hp : s'.punishedCores = s.punishedCores)
    (hi : ∀ c, c ≠ core → c ∈ s.idleCores → c ∈ s'.idleCores) : s'.Covered := by
  intro c hc
  have hc : c ∈ s.punishedCores := hp ▸ hc
  have hne : c ≠ core := ne_of_mem_of_not_mem hc hcore
  obtain ⟨hidle, p, howner, hlc, hres⟩ := h c hc
  refine ⟨hi c hne hidle, p, ?_⟩
  obtain ⟨_, _, _, _, _, _, rfl, -⟩ := hm
  exact ⟨(update_of_ne hne ..).trans howner, hlc, hres⟩

lemma Covered.punish (h : s.Covered) {sd : P} (hlc : (s.data sd).isLc)
    (hres : core ∈ (s.data sd).reservedCores) : ((s.placehold sd core).punishCore core).Covered := by
  intro c (hc : c ∈ insert core (s.cleanupCore core).punishedCores)
  have hidle {c} (hc : c ∈ insert core s.idleCores) : c ∈ ((s.placehold sd core).punishCore core).idleCores := by
    rw [← cleanupCore_idleCores s core] at hc
    exact hc
  rw [cleanupCore_punishedCores] at hc
  obtain ⟨gen, idle, act, loc, pun, cnt, he, -⟩ := Moved.punish s sd core
  rw [he] at hidle ⊢
  by_cases hne : c = core
  · subst hne
    exact ⟨hidle (mem_insert_self ..), sd, update_self .., hlc, hres⟩
  · obtain ⟨hi, q, hq, hlc', hres'⟩ := h c (mem_of_mem_insert_of_ne hc hne)
    exact ⟨hidle (mem_insert_of_mem hi), q, (update_of_ne hne ..).trans hq, hlc', hres'⟩

lemma Covered.move (ht : cfg.noht = false → Twinned cfg s) (hb : s.Books) (h : s.Covered) (hm : Move cfg s s') :
    s'.Covered := by
  cases hm with
  | tune => exact fun c hc => ⟨mem_union_left _ (h c hc).1, (h c hc).2⟩
  | sample => exact h
  | unmark p => exact h.marking (Marking.unmarkCongested s p)
  | @leave core hcore =>
    refine h.moved (Moved.cleanupCore s core) hcore (cleanupCore_punishedCores s core) fun c _ hi => ?_
    rw [cleanupCore_idleCores]
    exact hi
  | @punish sd core hnoht hc hlc hres => exact h.punish hlc (((ht hnoht).mine sd (hb.owner hc) core hres).2)
  | relax => exact fun c hc => h c (mem_of_mem_erase hc)
  | @vacate core hbe =>
    have hcore : core ∉ s.punishedCores := by
      intro hp
      obtain ⟨-, p, hc, hlc, -⟩ := h core hp
      obtain ⟨q, hc', hbe⟩ := hbe hp
      cases hc.symm.trans hc'
      rw [hlc] at hbe
      cases hbe
    refine h.moved (Moved.vacate s core) hcore (cleanupCore_punishedCores s core) fun c _ hi => ?_
    rw [← cleanupCore_idleCores s core] at hi
    exact mem_insert_of_mem hi

lemma Covered.moves (ht : cfg.noht = false → Twinned cfg s) (hi : s.Inv cfg) (h : s.Covered)
    (hm : Moves cfg s s') : s'.Covered := by
  induction hm with
  | refl => exact h
  | tail hm hstep ih =>
    exact ih.move (fun hnoht => (ht hnoht).of_static (static_of_moves hm)) (hi.moves hm).books hstep

omit [DecidableEq P] in
lemma Covered.not_takeable (h : s.Covered) (ht : s.Takeable core) : core ∉ s.punishedCores := by
  intro hp
  obtain ⟨-, p, hc, hlc, hres⟩ := h core hp
  rcases ht hp with hn | ⟨q, hq, hn⟩
  · rw [hc] at hn
    cases hn
  · cases hc.symm.trans hq
    rcases hn with hn | hn
    · exact hn hres
    · rw [hlc] at hn
      cases hn

lemma Covered.last (h : s.Covered) (hl : Last s s') : s'.Covered := by
  cases hl with
  | none => exact h
  | @grant p core _ ht =>
    have hrun : (s.run p core).Covered := by
      refine h.moved (Moved.run s p core) (h.not_takeable ht) (cleanupCore_punishedCores s core) fun c hne hi => ?_
      rw [← cleanupCore_idleCores s core] at hi
      exact mem_erase_of_ne_of_mem hne hi
    exact hrun.marking (Marking.unmarkStarved _ _)
  | mark hp => exact h.marking (Marking.markCongested hp)

lemma Covered.did (ht : cfg.noht = false → Twinned cfg s) (hi : s.Inv cfg) (h : s.Covered) (hd : Did cfg s s') :
    s'.Covered := by
  obtain ⟨s1, s2, hm, hl, he⟩ := hd
  have h2 := (h.moves ht hi hm).last hl
  rcases he with rfl | ⟨bw, rfl, -, -⟩
  · exact h2
  · exact h2

lemma Covered.attach (hb : s.Books) (h : s.Covered) (hp : p ∉ s.allProcs) (spec : Spec) (mem : Bool) :
    (attach cfg s p spec mem).2.Covered := by
  rcases attach_cases cfg s p spec mem with he | ⟨mine, all, he, -⟩ | ⟨d, mine, all, he, -⟩
  · rw [he]
    exact h
  · rw [he]
    exact h
  · rw [he]
    intro c hc
    obtain ⟨hi, q, hq, hlc, hres⟩ := h c hc
    have hne : q ≠ p := ne_of_mem_of_not_mem (hb.owner hq) hp
    have hdata : update s.data p d q = s.data q := update_of_ne hne ..
    refine ⟨hi, q, hq, ?_, ?_⟩
    · show (update s.data p d q).isLc
      rw [hdata, hlc]
    · show c ∈ (update s.data p d q).reservedCores
      rw [hdata]
      exact hres

lemma Covered.detach (h : s.Covered) (hp : ∀ c ∈ s.punishedCores, s.cores c ≠ some p) : (detach s p).Covered := by
  obtain ⟨l, l', he, -⟩ := detach_eq s p
  rw [he]
  intro c hc
  obtain ⟨hi, q, hq, hlc, hres⟩ := h c hc
  exact ⟨hi, q, Holds.drop_eq_some.2 ⟨fun he => hp c hc (he ▸ hq), hq⟩, hlc, hres⟩

end Tables

/-! ## Runs -/

/-- The condition on a step: a process that is detached has no punished core. -/
def Relaxed (s : Sys σ n P) : Event σ n P → Prop
  | .detach p => ∀ c ∈ s.tab.punishedCores, s.tab.cores c ≠ some p
  | _ => True

instance (s : Sys σ n P) (e : Event σ n P) : Decidable (Relaxed s e) := by
  cases e <;> dsimp only [Relaxed] <;> infer_instance

lemma Twinned.of_step (hnoht : cfg.noht = false) {s s' : Sys σ n P} (hi : s.tab.Inv cfg) (h : Twinned cfg s.tab)
    {e : Event σ n P} (hs : step cfg L s e = .ok s') : Twinned cfg s'.tab := by
  rcases (step_comes hi e).of_ok hs with ⟨p, spec, mem, -, -, he⟩ | ⟨p, -, hp, he⟩ | hdid
  · rw [he]
    exact h.attach hnoht spec mem
  · rw [he]
    exact h.detach hp
  · exact h.of_static hdid.static

lemma Tables.Covered.of_step {s s' : Sys σ n P} (ht : cfg.noht = false → Twinned cfg s.tab) (hi : s.tab.Inv cfg)
    (h : s.tab.Covered) {e : Event σ n P} (hok : Relaxed s e) (hs : step cfg L s e = .ok s') : s'.tab.Covered := by
  rcases (step_comes hi e).of_ok hs with ⟨p, spec, mem, -, hp, he⟩ | ⟨p, rfl, -, he⟩ | hdid
  · rw [he]
    exact h.attach hi.books hp spec mem
  · rw [he]
    exact h.detach hok
  · exact h.did ht hi hdid

omit [DecidableEq P] in
lemma Initial.twinned (htwin : cfg.noht = false → ∀ c, cfg.allowed c → Twin cfg c) (h : Initial cfg s)
    (hnoht : cfg.noht = false) : Twinned cfg s where
  free c hc := by
    rw [h.reservedCores, Bool.not_eq_false] at hc
    exact htwin hnoht c hc
  mine p hp := by
    rw [h.allProcs] at hp
    exact absurd hp List.not_mem_nil

/-- In every run the two counters differ by the number of punished cores. If no process is detached while it has a
punished core, such a core is idle, and a placeholder of a latency-critical process that has reserved it; with
hyperthreads an allowed core is the sibling of its sibling. -/
theorem punished_cores_idle (cfg : Config n) (L : Layer σ n P) (s : Sys σ n P) :
    (Reaches (step cfg L) (fun _ _ => True) (fun s => Initial cfg s.tab) s →
      s.tab.punishCount - s.tab.relaxCount = BitVec.ofNat 64 s.tab.punishedCores.card) ∧
    ((cfg.noht = false → ∀ c, cfg.allowed c = true → Twin cfg c) →
      Reaches (step cfg L) Relaxed (fun s => Initial cfg s.tab) s →
      ∀ c ∈ s.tab.punishedCores, c ∈ s.tab.idleCores ∧
        ∃ p, s.tab.cores c = some p ∧ (s.tab.data p).isLc = true ∧ c ∈ (s.tab.data p).reservedCores) := by
  refine ⟨fun h => ?_, fun htwin h => ?_⟩
  · have hi : s.tab.Inv cfg := reaches_inv h
    exact hi.punished
  · have hall := h.invariant
      (I := fun s => s.tab.Inv cfg ∧ (cfg.noht = false → Twinned cfg s.tab) ∧ s.tab.Covered)
      (fun s hi => ⟨hi.inv, hi.twinned htwin, fun c hc => absurd hc (by rw [hi.punishedCores]; exact notMem_empty c)⟩)
      fun s e s' hs hok he => ⟨inv_of_step hs.1 he, fun hnoht => (hs.2.1 hnoht).of_step hnoht hs.1 he,
        hs.2.2.of_step hs.2.1 hs.1 hok he⟩
    exact hall.2.2

/-- A process that has reserved two cores runs on one and uses up its budget: the other core is punished, and stays
idle. -/
theorem punished_cores_idle_pair : ∃ s,
    Reaches (step secondPair (obliging 4)) Relaxed (fun s => Initial secondPair s.tab) s ∧
    3 ∈ s.tab.punishedCores ∧ 3 ∈ s.tab.idleCores ∧ s.tab.cores 2 = some false ∧ 2 ∉ s.tab.idleCores := by
  refine Reaches.of_exec_imp (s := ⟨(), nobody secondPair⟩) (P := fun s =>
      3 ∈ s.tab.punishedCores ∧ s.tab.cores 2 = some false ∧ 2 ∉ s.tab.idleCores)
    ([.attach false ⟨true, 2, 2, 0, 1⟩ true, .notifyCoreNeeded false, .htMeasure fun _ => 1, .htAdjust 2,
        .htAdjust 3] ++ pollEvents 5 {3})
      (nobody_initial secondPair) (by decide +kernel) (by decide +kernel) ?_
  rintro s hr ⟨hp, hc, hi⟩
  have htwin : ∀ c, secondPair.allowed c → Twin secondPair c := by decide
  exact ⟨hp, ((punished_cores_idle secondPair (obliging 4) s).2 (fun _ => htwin) hr 3 hp).1, hc, hi⟩

/-- The same, but then the process is detached, and another one that asks for two cores gets the punished one too. -/
theorem punished_core_runs : ∃ s,
    Reaches (step secondPair (obliging 4)) (fun _ _ => True) (fun s => Initial secondPair s.tab) s ∧
    Ends (exec (step secondPair (obliging 4)) s (htPollEvents secondPair s.tab (fun _ => 1) [2, 3])) fun s₁ =>
      3 ∈ s₁.tab.punishedCores ∧ 3 ∈ s₁.tab.idleCores ∧
      Ends (exec (step secondPair (obliging 4)) s₁ [.detach false, .attach true ⟨true, 2, 0, 0, 0⟩ true,
          .notifyCoreNeeded true, .notifyCoreNeeded true]) fun s₂ =>
        3 ∈ s₂.tab.punishedCores ∧ 3 ∉ s₂.tab.idleCores ∧ s₂.tab.cores 3 = some true :=
  Reaches.of_exec (s := ⟨(), nobody secondPair⟩)
    [.attach false ⟨true, 2, 2, 0, 1⟩ true, .notifyCoreNeeded false]
    (nobody_initial secondPair) (allowed_true _ _) (by decide +kernel)

end Aspen.Ias
