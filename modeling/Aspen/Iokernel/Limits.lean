import Aspen.Iokernel.Attach
import Aspen.Iokernel.Numa
import Aspen.Iokernel.Rounds
import Aspen.Iokernel.Simple

/-!
# Core limits

The two policies over the layer that runs threads. A process may have at most `max_cores` cores, but the limit
is only looked at when a core is added for a request. A core that goes idle is given to any congested process
that has a thread to run, so that the limit holds if no process has more threads than that.
-/

namespace Aspen.Policy.Limits

open Run Function
open Simple (twoCores)

variable {n : ℕ} {P X : Type*} [DecidableEq P]

section
variable {C : Type*} [DecidableEq C]

/-- The layer that runs threads. Its calls may find the packet queue of a preempted thread empty. -/
def layer (cfg : Iokernel.Config C) (drained : Iokernel.Thread P → Bool) : Layer (Iokernel.Sys C P) C P where
  threadsAvail s p := (s.procs p).threadCount - (s.procs p).activeThreadCount
  idleThreads s p := (s.procs p).idleThreads.map fun j => ((s.procs p).threads j).core
  runOnCore s p core := if (s.procs p).idleThreads = [] ∨ ¬cfg.allowed core then .error .einval
    else match Iokernel.schedPickKthread cfg (s.procs p) core with
      | none => .error .enoent
      | some _ => .ok (Iokernel.schedRunOnCore cfg s p core drained)

lemma runOnCore_eq_ok {cfg : Iokernel.Config C} {drained : Iokernel.Thread P → Bool}
    {s s' : Iokernel.Sys C P} {p : P} {core : C} (h : (layer cfg drained).runOnCore s p core = .ok s') :
    s' = Iokernel.schedRunOnCore cfg s p core drained ∧ ¬((s.procs p).idleThreads = [] ∨ ¬cfg.allowed core) ∧
      ∃ j, Iokernel.schedPickKthread cfg (s.procs p) core = some j := by
  simp only [layer] at h
  split at h
  · cases h
  · rename_i hp
    split at h
    · cases h
    · rename_i j hj
      cases h
      exact ⟨rfl, hp, j, hj⟩

end

structure State (n : ℕ) (P X : Type*) where
  sys : Sys (Iokernel.Sys (Fin n) P) (Fin n) P X
  /-- the settings in the headers of the processes -/
  schedCfg : P → Spec
  nrGuaranteed : BitVec 32

inductive Event (n : ℕ) (P : Type*)
  /-- a client's header was accepted; `spec` is in the header, and is not checked -/
  | attach (p : P) (r : Shm.Region) (hdr : Shm.ControlHdr) (specs : ℕ → Shm.ThreadSpec) (env : Shm.CreateEnv)
      (spec : Spec)
  | detach (p : P)
  | notifyCoreNeeded (p : P) (drained : Iokernel.Thread P → Bool)
  | notifyCongested (p : P) (delay : Delay) (drained : Iokernel.Thread P → Bool)
  /-- the fast and the final pass of `sched_poll` -/
  | schedPoll (found : Iokernel.Found (Fin n) P)
  | unpoll (th : Iokernel.Thread P)
  | procGet (p : P)
  | procPut (p : P)

abbrev Choices (n : ℕ) (P X : Type*) :=
  Layer (Iokernel.Sys (Fin n) P) (Fin n) P → Rules (Iokernel.Sys (Fin n) P) (Fin n) P X

variable (cfg : Iokernel.Config (Fin n)) (R : Choices n P X)

def below (s : State n P X) (e : Iokernel.Event (Fin n) P) : Except Iokernel.Stop (State n P X) :=
  match Iokernel.step cfg s.sys.low e with
  | .ok low => .ok { s with sys := { s.sys with low := low } }
  | .error d => .error d

def answer (s : State n P X) (p : P) (sys : Sys (Iokernel.Sys (Fin n) P) (Fin n) P X) :
    Except Iokernel.Stop (State n P X) :=
  if (s.sys.low.procs p).attached = true then .ok { s with sys := sys } else .error .misplaced

def step (s : State n P X) : Event n P → Except Iokernel.Stop (State n P X)
  | .attach p r hdr specs env spec =>
    match Shm.controlCreateProc r hdr specs env with
    | none => .error .misplaced
    | some pr =>
      -- the check of `sched_attach_proc`
      if (s.sys.low.procs p).ref = 0 ∧
          spec.guaranteedCores + s.nrGuaranteed ≤ BitVec.ofNat 32 cfg.coresTbl.length then
        .ok {
          sys := {
            low := s.sys.low.setProc p
              ((s.sys.low.procs p).attach pr.threadCount.toNat pr.hasVfioDirectpath)
            tab := s.sys.tab.attach (R (layer cfg fun _ => true)) p spec }
          schedCfg := update s.schedCfg p spec
          nrGuaranteed := s.nrGuaranteed + spec.guaranteedCores }
      else .error .misplaced
  | .detach p =>
    if (s.sys.low.procs p).attached = true then
      .ok { s with
        sys := {
          low := s.sys.low.setProc p { s.sys.low.procs p with
            ref := (s.sys.low.procs p).ref - 1, attached := false, kill := true }
          tab := s.sys.tab.detach p }
        nrGuaranteed := s.nrGuaranteed - (s.schedCfg p).guaranteedCores }
    else .error .misplaced
  | .notifyCoreNeeded p drained =>
    answer s p (notifyCoreNeeded (layer cfg drained) (R (layer cfg drained)) s.sys p)
  | .notifyCongested p delay drained =>
    answer s p (notifyCongested (layer cfg drained) (R (layer cfg drained)) s.sys p delay)
  | .schedPoll found =>
    let x := Iokernel.pollPass cfg s.sys.low found
    let L := layer cfg found.drained
    .ok { s with sys := schedPoll L (R L) { s.sys with low := x.1 } ((List.finRange n).filter x.2) }
  | .unpoll th => below cfg s (.unpoll th)
  | .procGet p => below cfg s (.procGet p)
  | .procPut p => below cfg s (.procPut p)

structure Initial (init : Tables (Fin n) P X → Prop) (s : State n P X) : Prop where
  low : Iokernel.Initial s.sys.low
  tab : init s.sys.tab
  nrGuaranteed : s.nrGuaranteed = 0

/-! ## The tables and the cores -/

section
variable {cfg} {drained : Iokernel.Thread P → Bool} {Ru : Rules (Iokernel.Sys (Fin n) P) (Fin n) P X}
variable {s s' : Sys (Iokernel.Sys (Fin n) P) (Fin n) P X} {idle : List (Fin n)} {p : P} {core : Fin n}

/-- The tables agree with the layer below, but for the owners of the cores in `idle`. -/
structure Agree (idle : List (Fin n)) (s : Sys (Iokernel.Sys (Fin n) P) (Fin n) P X) : Prop where
  low : Iokernel.Inv s.low none
  armed : ∀ c, (s.low.cores c).Armed
  tab : s.tab.Inv
  /-- a core of `p` has a thread of `p` -/
  backed : ∀ c p, s.tab.cores c = some p → c ∉ idle → ∃ j, s.low.onCore c = some ⟨p, j⟩
  /-- a process has no more threads than it may have cores -/
  procs : ∀ p, (s.low.procs p).attached = s.tab.attached p ∧
    (s.tab.attached p = true → ((s.low.procs p).threadCount : ℤ) ≤ (s.tab.data p).threadsMax)

lemma Agree.upkeep {S : Fin n → Prop} {idle' : List (Fin n)} (h : Agree idle s) {low : Iokernel.Sys (Fin n) P}
    (hinv : Iokernel.Inv low none) (hup : Iokernel.Upkeep S s.low low) (hS : ∀ c, S c → c ∈ idle')
    (hidle : idle ⊆ idle') : Agree idle' { s with low := low } where
  low := hinv
  armed c := hup.armed c (h.armed c)
  tab := h.tab
  backed c q hc hi := by
    rw [(hup.onCore c).resolve_left fun hc => hi (hS c hc)]
    exact h.backed c q hc fun hi' => hi (hidle hi')
  procs q := by
    rw [hup.attached, hup.threadCount]
    exact h.procs q

lemma Agree.marking {t : Tables (Fin n) P X} {o : Option P} (h : Agree idle s) (hm : s.tab.Marking t o)
    (ho : ∀ p, o = some p → s.tab.attached p) : Agree idle { s with tab := t } := by
  have htab := h.tab.marking hm ho
  obtain ⟨_, _, _, rfl, -⟩ := hm
  exact ⟨h.low, h.armed, htab, h.backed, h.procs⟩

lemma Agree.left {t : Tables (Fin n) P X} (h : Agree (core :: idle) s) (hl : Left s.tab t core) :
    Agree idle { s with tab := t } := by
  have htab := hl.inv h.tab
  obtain ⟨m, ⟨_, _, _, rfl, -⟩, _, _, _, _, _, rfl, -⟩ := hl
  refine ⟨h.low, h.armed, htab, fun c q hc hi => ?_, h.procs⟩
  replace hc : update s.tab.cores core none c = some q := hc
  have hne : c ≠ core := by
    rintro rfl
    rw [update_self] at hc
    cases hc
  rw [update_of_ne hne] at hc
  exact h.backed c q hc (List.not_mem_cons_of_ne_of_not_mem hne hi)

lemma Agree.granted (h : Agree idle s) (hp : ∀ q, some p = some q → s.tab.attached q)
    (hg : Granted (layer cfg drained) s p core s') : Agree idle s' := by
  obtain ⟨low, t⟩ := s'
  obtain ⟨hrun, hm⟩ := hg
  obtain ⟨rfl, hok, j, hj⟩ := runOnCore_eq_ok hrun
  have hup := Iokernel.Upkeep.schedRunOnCore s.low cfg p core drained
  have htab := h.tab.moved hm hp
  obtain ⟨_, _, _, _, _, rfl, -⟩ := hm
  refine ⟨h.low.schedRunOnCore cfg p core drained, fun c => hup.armed c (h.armed c), htab, fun c q hc hi => ?_,
    fun q => ?_⟩
  · replace hc : update s.tab.cores core (some p) c = some q := hc
    by_cases he : c = core
    · subst he
      rw [update_self] at hc
      cases hc
      exact ⟨j, Iokernel.schedRunOnCore_onCore (h.armed c) hok hj⟩
    · rw [update_of_ne he] at hc
      rw [(hup.onCore c).resolve_left he]
      exact h.backed c q hc hi
  · rw [hup.attached, hup.threadCount]
    exact h.procs q

lemma Agree.asked (h : Agree idle s) (hp : s.tab.attached p) (ha : Asked (layer cfg drained) Ru s p s') :
    Agree idle s' := by
  have ho (q : P) (hq : some p = some q) : s.tab.attached q := Option.some.inj hq ▸ hp
  cases ha with
  | granted _ _ hg => exact h.granted ho hg
  | marked hm => exact h.marking hm ho

lemma Agree.polled (hR : Ru.Sane) (h : Agree (core :: idle) s) (hp : Polled (layer cfg drained) Ru s core s') :
    Agree idle s' := by
  cases hp with
  | granted hl hk hg => exact (h.left hl).granted (hR.attached (hl.inv h.tab) hk) hg
  | idle hl => exact h.left hl
  | refused hl hk hm =>
    have ha := hR.attached (hl.inv h.tab) hk
    exact (h.left hl.setIdle).marking hm ha

lemma Agree.schedPoll (hR : Ru.Sane) (h : Agree idle s) : Agree [] (schedPoll (layer cfg drained) Ru s idle) := by
  induction idle generalizing s with
  | nil => exact h
  | cons core idle ih => exact ih (h.polled hR (polled_pollCore _ _ _ core))

lemma Agree.pollPass (h : Agree [] s) (found : Iokernel.Found (Fin n) P) :
    Agree ((List.finRange n).filter (Iokernel.pollPass cfg s.low found).2)
      { s with low := (Iokernel.pollPass cfg s.low found).1 } := by
  refine h.upkeep ?_ (.pollPass s.low cfg found) (fun c hc => List.mem_filter.2 ⟨List.mem_finRange c, hc⟩)
    (List.nil_subset _)
  rw [Iokernel.pollPass_fst]
  exact h.low.schedPoll cfg found

lemma Agree.attach (h : Agree [] s) (hp : (s.low.procs p).ref = 0) {m : ℕ} {vfio : Bool} {spec : Spec}
    (hm : (m : ℤ) ≤ spec.maxCores.toInt) :
    Agree [] { low := s.low.setProc p ((s.low.procs p).attach m vfio), tab := s.tab.attach Ru p spec } := by
  have hnot : s.tab.attached p = false := by
    rw [← (h.procs p).1]
    exact (h.low.procs p).refs.not_attached hp
  refine ⟨h.low.attach hp m vfio, h.armed, h.tab.attach hnot, h.backed, fun q => ?_⟩
  show _ = update s.tab.attached p true q ∧ (update s.tab.attached p true q →
    _ ≤ (update s.tab.data p _ q).threadsMax)
  by_cases hq : q = p
  · rw [hq, Iokernel.Sys.procs_setProc, update_self, update_self]
    exact ⟨rfl, fun _ => hm⟩
  · rw [Iokernel.Sys.procs_setProc_of_ne _ _ hq, update_of_ne hq, update_of_ne hq]
    exact h.procs q

lemma Agree.detach (h : Agree [] s) (hp : (s.low.procs p).attached) :
    Agree [] { low := s.low.setProc p { s.low.procs p with
      ref := (s.low.procs p).ref - 1, attached := false, kill := true }, tab := s.tab.detach p } := by
  have hu : Agree [] { s with tab := s.tab.unmarkCongested p } :=
    h.marking (o := none) (.unmarkCongested s.tab p) nofun
  refine ⟨h.low.of_same ((h.low.procs p).detach hp) { Iokernel.Proc.Same.rfl (p := s.low.procs p) with }, h.armed,
    h.tab.detach, fun c q hc hi => hu.backed c q (Holds.drop_eq_some.1 hc).2 hi, fun q => ?_⟩
  show _ = update (s.tab.unmarkCongested p).attached p false q ∧
    (update (s.tab.unmarkCongested p).attached p false q → _)
  by_cases hq : q = p
  · rw [hq, Iokernel.Sys.procs_setProc, update_self]
    exact ⟨rfl, nofun⟩
  · rw [Iokernel.Sys.procs_setProc_of_ne _ _ hq, update_of_ne hq]
    exact hu.procs q

lemma Agree.active_le (h : Agree [] s) (hp : s.tab.attached p) :
    (s.tab.data p).threadsActive ≤ (s.tab.data p).threadsMax := by
  have hcard : (holds s.tab.cores p).card ≤ (s.low.procs p).threadCount :=
    h.low.card_le fun c hc => h.backed c p (Holds.mem_holds.1 hc) List.not_mem_nil
  calc
    (s.tab.data p).threadsActive = (holds s.tab.cores p).card := h.tab.counted p hp
    _ ≤ (s.low.procs p).threadCount := Int.ofNat_le.2 hcard
    _ ≤ (s.tab.data p).threadsMax := (h.procs p).2 hp

end

/-! ## Runs -/

def FewThreads (e : Event n P) : Prop :=
  match e with
  | .attach _ _ hdr _ _ spec => (hdr.threadCount.toNat : ℤ) ≤ spec.maxCores.toInt
  | _ => True

instance (e : Event n P) : Decidable (FewThreads e) := by
  cases e <;> dsimp only [FewThreads] <;> infer_instance

variable {init : Tables (Fin n) P X → Prop}

section
variable {cfg} {R}

variable {s s' : State n P X}

lemma Agree.below (h : Agree [] s.sys) {e : Iokernel.Event (Fin n) P}
    (hs : below cfg s e = .ok s') (hup : ∀ low, Iokernel.step cfg s.sys.low e = .ok low →
      Iokernel.Upkeep (fun _ => False) s.sys.low low) : Agree [] s'.sys := by
  unfold Limits.below at hs
  split at hs
  · rename_i low hlow
    cases hs
    exact h.upkeep (h.low.of_step hlow) (hup low hlow) nofun fun _ => id
  · cases hs

lemma agree_of_step (hR : ∀ L, (R L).Sane) (h : Agree [] s.sys) {e : Event n P}
    (he : FewThreads e) (hs : step cfg R s e = .ok s') : Agree [] s'.sys := by
  cases e with
  | attach p r hdr specs env spec =>
    simp only [step] at hs
    split at hs
    · cases hs
    · rename_i pr hpr
      obtain ⟨⟨hp, -⟩, hs⟩ := guard_eq_ok.1 hs
      cases hs
      refine h.attach hp ?_
      rw [(Shm.controlCreateProc_eq_some hpr).2.2.2]
      exact he
  | detach p =>
    obtain ⟨hp, hs⟩ := guard_eq_ok.1 hs
    cases hs
    exact h.detach hp
  | notifyCoreNeeded p drained =>
    obtain ⟨hp, hs⟩ := guard_eq_ok.1 hs
    cases hs
    exact h.asked ((h.procs p).1.symm.trans hp) (asked_notifyCoreNeeded _ _ s.sys p)
  | notifyCongested p delay drained =>
    obtain ⟨hp, hs⟩ := guard_eq_ok.1 hs
    cases hs
    exact h.asked ((h.procs p).1.symm.trans hp) (asked_notifyCongested _ _ s.sys p delay)
  | schedPoll found =>
    cases hs
    exact (h.pollPass found).schedPoll (hR _)
  | unpoll th =>
    refine h.below hs fun low hlow => ?_
    simp only [Iokernel.step] at hlow
    split at hlow
    · cases hlow
      exact .refl _
    · cases hlow
      exact .setProc (Iokernel.Proc.Same.unpollThread _ _).threadCount (Iokernel.Upkeep.attached_unpollThread _ _)
  | procGet p | procPut p =>
    refine h.below hs fun low hlow => ?_
    obtain ⟨-, hlow⟩ := guard_eq_ok.1 hlow
    cases hlow
    exact .setProc rfl rfl

lemma Initial.agree (hinit : ∀ t, init t → t.Initial) (h : Initial init s) : Agree [] s.sys := by
  have ht := hinit _ h.tab
  refine ⟨.of_initial h.low, fun c hc => ?_, ht.inv, fun c p hc => ?_, fun p => ?_⟩
  · rw [h.low.cores c] at hc
    cases hc
  · rw [ht.cores c] at hc
    cases hc
  · rw [h.low.attached p, ht.attached p]
    exact ⟨rfl, nofun⟩

lemma active_le_of_reaches (hR : ∀ L, (R L).Sane) (hinit : ∀ t, init t → t.Initial)
    (h : Reaches (step cfg R) (fun _ e => FewThreads e) (Initial init) s) {p : P}
    (hp : s.sys.tab.attached p) :
    (s.sys.tab.data p).threadsActive ≤ (s.sys.tab.data p).threadsMax :=
  (h.invariant (I := fun s => Agree [] s.sys) (fun _ hi => hi.agree hinit)
    fun _ _ _ hs he h' => agree_of_step hR hs he h').active_le hp

end

def simple (cfg : Iokernel.Config (Fin n)) : Choices n P Unit := fun L => Simple.rules L cfg (List.finRange n)

def numa (cfg : Iokernel.Config (Fin n)) (nodes : Numa.Nodes (Fin n)) : Choices n P (Numa.Extra (Fin n)) :=
  fun _ => Numa.rules cfg nodes (List.finRange n)

/-- In every run in which each process has at most `max_cores` threads when it is attached, under either policy, no
process has more than `max_cores` cores. -/
theorem core_limits (cfg : Iokernel.Config (Fin n)) (nodes : Numa.Nodes (Fin n)) :
    (∀ s : State n P Unit,
      Reaches (step cfg (simple cfg)) (fun _ e => FewThreads e) (Initial (Simple.Initial cfg)) s →
      ∀ p, s.sys.tab.attached p = true → (s.sys.tab.data p).threadsActive ≤ (s.sys.tab.data p).threadsMax) ∧
    ∀ s : State n P (Numa.Extra (Fin n)),
      Reaches (step cfg (numa cfg nodes)) (fun _ e => FewThreads e) (Initial (Numa.Initial cfg)) s →
      ∀ p, s.sys.tab.attached p = true → (s.sys.tab.data p).threadsActive ≤ (s.sys.tab.data p).threadsMax :=
  ⟨fun _ h _ hp => active_le_of_reaches (fun _ => Simple.sane_rules) (fun _ ht => ht.tables) h hp,
    fun _ h _ hp => active_le_of_reaches (fun _ => Numa.sane_rules) (fun _ ht => ht.tables) h hp⟩

def oneSocket : Numa.Nodes (Fin 2) where
  sockets _ _ := true
  numaCount := 1
  first := 0

def empty (x : X) : State 2 Unit X where
  sys := {
    low := {
      cores _ := ⟨none, none, none, false, false, false⟩
      procs _ := ⟨0, 0, fun _ => ⟨false, none, 0, false⟩, fun _ => 0, [], 0, false, false, false, 0⟩ }
    tab := {
      cores _ := none
      hist _ := List.replicate nhist none
      idleCores _ := true
      congestedProcs := []
      data _ := ⟨false, false, 0, 0, 0, 0, x⟩
      attached _ := false } }
  schedCfg _ := ⟨0, 0, 0, 0⟩
  nrGuaranteed := 0

lemma initial_empty {x : X} {init : Tables (Fin 2) Unit X → Prop} (h : init (empty x).sys.tab) :
    Initial init (empty x) :=
  ⟨⟨fun _ => rfl, fun _ _ => rfl, fun _ _ => rfl, fun _ => rfl, fun _ => rfl, fun _ => rfl, fun _ => rfl, fun _ => rfl,
    fun _ => rfl⟩, h, rfl⟩

def attachTwo (maxCores : BitVec 32) : Event 2 Unit :=
  .attach () Shm.region2M { Shm.smallHdr with threadCount := 2#32 } (fun _ => Shm.smallThread) .success
    ⟨maxCores, 0, 0, 0⟩

def congested : Event 2 Unit := .notifyCongested () ⟨true, false, 0⟩ fun _ => true

def secondIdle : Event 2 Unit := .schedPoll ⟨fun _ => false, fun c => c = 1, fun _ => false, fun _ => true⟩

theorem core_limits_two :
    ∃ s, Reaches (step twoCores (simple twoCores)) (fun _ e => FewThreads e)
        (Initial (Simple.Initial twoCores)) s ∧
      (s.sys.tab.data ()).threadsActive = 2 ∧
      (s.sys.tab.data ()).threadsActive ≤ (s.sys.tab.data ()).threadsMax := by
  refine Reaches.of_exec_imp (s := empty ()) (P := fun s =>
      (s.sys.tab.data ()).threadsActive = 2 ∧ s.sys.tab.attached ())
    [attachTwo 2, congested, congested, congested]
      (initial_empty ⟨⟨fun _ => rfl, fun _ => rfl, rfl, fun _ => rfl⟩, rfl⟩) (by decide +kernel) (by decide +kernel) ?_
  rintro s hr ⟨hact, hatt⟩
  exact ⟨hact, (core_limits twoCores oneSocket).1 s hr () hatt⟩

/-- A process of two threads that may have one core is refused a second one, and gets it when that core goes idle,
under either policy. -/
theorem core_limit_exceeded :
    (∃ s : State 2 Unit Unit, Reaches (step twoCores (simple twoCores)) (fun _ _ => True)
        (Initial (Simple.Initial twoCores)) s ∧
      s.sys.tab.attached () = true ∧ (s.sys.tab.data ()).threadsMax = 1 ∧ (s.sys.tab.data ()).threadsActive = 2) ∧
    ∃ s : State 2 Unit (Numa.Extra (Fin 2)),
      Reaches (step twoCores (numa twoCores oneSocket)) (fun _ _ => True)
        (Initial (Numa.Initial twoCores)) s ∧
      s.sys.tab.attached () = true ∧ (s.sys.tab.data ()).threadsMax = 1 ∧ (s.sys.tab.data ()).threadsActive = 2 := by
  refine ⟨?_, ?_⟩
  · exact Reaches.of_exec (s := empty ()) [attachTwo 1, congested, congested, congested, secondIdle]
      (initial_empty ⟨⟨fun _ => rfl, fun _ => rfl, rfl, fun _ => rfl⟩, rfl⟩) (allowed_true _ _) (by decide +kernel)
  · exact Reaches.of_exec (s := empty ⟨0, []⟩) [attachTwo 1, congested, congested, secondIdle]
      (initial_empty ⟨⟨fun _ => rfl, fun _ => rfl, rfl, fun _ => rfl⟩, rfl⟩) (allowed_true _ _) (by decide +kernel)

end Aspen.Policy.Limits
