import Aspen.Iokernel.Policy

/-!
# The simple policy

The rules of `simple.c`: the choice of a core has four stages, and each of them has its own test for the process that
has the core now. Whatever stage chooses the core, it is free or may be taken; from that alone follows that the cores
guaranteed to a process are never taken from it.
-/

namespace Aspen.Policy.Simple

open Run Function

variable {σ C P : Type*} [DecidableEq C] [DecidableEq P]
variable (L : Layer σ C P) (cfg : Iokernel.Config C) (cpus : List C)

/-! ## The choice of a core -/

variable (low : σ) (s : Tables C P Unit) (p : P)

/-- The first stage of `simple_choose_core`, a matching active hyperthread. -/
def chooseSibling : Option C := if cfg.noht then none
  else (cfg.coresTbl.find? fun core => s.cores core = some p && s.canTake p (cfg.sibling core) &&
    cfg.allowed (cfg.sibling core)).map cfg.sibling

/-- The second stage, a core that was used before. The loop ends at a thread that has not run. -/
def chooseUsed (s : Tables C P Unit) (p : P) : List (Option C) → Option C
  | [] => none
  | none :: _ => none
  | some core :: ths =>
    if s.canTake p core then some core
    else if cfg.noht then chooseUsed s p ths
    else if s.canTake p (cfg.sibling core) && cfg.allowed (cfg.sibling core) then some (cfg.sibling core)
    else chooseUsed s p ths

def choosePreemptible : Option C := cfg.coresTbl.find? fun core => (s.cores core).isSome && s.canTake p core

/-- `simple_choose_core`; `cpus` has the cores in their order, for the third stage, any idle core -/
def chooseCore : Option C :=
  chooseSibling cfg s p <|> chooseUsed cfg s p (L.idleThreads low p) <|> cpus.find? s.idleCores <|>
    choosePreemptible cfg s p

/-! ## The choice of a process -/

def ready : Bool := (s.data p).isCongested && L.threadsAvail low p ≠ 0

def chooseKthread (core : C) : Option P :=
  chooseLocal cfg s (ready L low s) core <|> s.congestedProcs.find? fun p => L.threadsAvail low p ≠ 0

def rules : Rules σ C P Unit where
  chooseCore := chooseCore L cfg cpus
  chooseKthread := chooseKthread L cfg
  setsWaking := true
  leave _ _ := ()
  init _ := ()

structure Initial (s : Tables C P Unit) : Prop where
  tables : s.Initial
  idle : s.idleCores = cfg.allowed

/-! ## What is chosen -/

section
variable {L} {cfg} {cpus} {low : σ} {s : Tables C P Unit} {p : P} {core : C}

section

omit [DecidableEq C]

lemma canTake_of_chooseSibling (h : chooseSibling cfg s p = some core) : s.canTake p core = true := by
  unfold chooseSibling at h
  split at h
  · cases h
  · obtain ⟨c, hc, rfl⟩ := Option.map_eq_some_iff.1 h
    have ht := List.find?_some hc
    simp only [Bool.and_eq_true] at ht
    exact ht.1.2

lemma canTake_of_chooseUsed {ths : List (Option C)} (h : chooseUsed cfg s p ths = some core) :
    s.canTake p core = true := by
  induction ths with
  | nil => cases h
  | cons th ths ih =>
    cases th with
    | none => cases h
    | some c =>
      unfold chooseUsed at h
      split at h
      · rename_i hc
        cases h
        exact hc
      · split at h
        · exact ih h
        · split at h
          · rename_i hc
            cases h
            exact (Bool.and_eq_true_iff.1 hc).1
          · exact ih h

lemma canTake_of_choosePreemptible (h : choosePreemptible cfg s p = some core) : s.canTake p core = true := by
  have ht := List.find?_some h
  exact (Bool.and_eq_true_iff.1 ht).2

lemma canTake_of_chooseCore (hs : s.Known) (h : chooseCore L cfg cpus low s p = some core) :
    s.canTake p core = true := by
  rcases (Option.orElse_eq_some _ _ _).1 h with h | ⟨-, h⟩
  · exact canTake_of_chooseSibling h
  · rcases (Option.orElse_eq_some _ _ _).1 h with h | ⟨-, h⟩
    · exact canTake_of_chooseUsed h
    · rcases (Option.orElse_eq_some _ _ _).1 h with h | ⟨-, h⟩
      · have hfree : s.cores core = none := hs.idle (List.find?_some h)
        unfold Tables.canTake
        rw [hfree]
      · exact canTake_of_choosePreemptible h

lemma sane_rules : (rules L cfg cpus).Sane where
  kthread {low s core p} h := by
    have hh : chooseKthread L cfg low s core = some p := h
    rcases (Option.orElse_eq_some _ _ _).1 hh with h | ⟨-, h⟩
    · exact (known_of_chooseLocal h).imp_right .inl
    · exact .inr (.inr (List.mem_of_find?_eq_some h))

end

end

/-! ## What is taken -/

section
variable {L} {cfg} {cpus}

def Requests (e : Event σ C P) (q : P) : Prop := e = .notifyCoreNeeded q ∨ ∃ delay, e = .notifyCongested q delay

variable [Fintype C] {s s' : Sys σ C P Unit} {p q : P} {core c : C}

/-- A core that is granted to `q` is taken from a process that has more than its guaranteed cores, and still has
these. -/
lemma taken_of_asked (hs : s.tab.Inv) (hq : s.tab.attached q) (ha : Asked L (rules L cfg cpus) s q s')
    (hc : s.tab.cores c = some p) (hc' : s'.tab.cores c ≠ some p) :
    q ≠ p ∧ s'.tab.cores c = some q ∧ (s.tab.data p).threadsGuaranteed < (holds s.tab.cores p).card ∧
      (holds s.tab.cores q).card < (s.tab.data q).threadsGuaranteed ∧
      (s'.tab.data p).threadsGuaranteed ≤ (holds s'.tab.cores p).card := by
  cases ha with
  | marked hm =>
    obtain ⟨_, _, _, rfl, -⟩ := hm
    exact absurd hc hc'
  | @granted core _ _ hcore hg =>
    obtain ⟨low, t⟩ := s'
    obtain ⟨-, _, _, _, _, _, ht, -⟩ := hg
    cases ht
    replace hc' : update s.tab.cores core (some q) c ≠ some p := hc'
    have he : c = core := by
      by_contra hne
      rw [update_of_ne hne] at hc'
      exact hc' hc
    subst he
    rw [update_self] at hc'
    have htake := canTake_of_chooseCore hs.known hcore
    unfold Tables.canTake Tables.procIsPreemptible at htake
    rw [hc] at htake
    simp only [Bool.and_eq_true, decide_eq_true_eq] at htake
    obtain ⟨hne, hmore, hless⟩ := htake
    rw [hs.counted p (hs.known.owner hc)] at hmore
    rw [hs.counted q hq] at hless
    refine ⟨hne.symm, update_self .., hmore, hless, ?_⟩
    have hcard := Holds.card_update s.tab.cores c (some q) p
    rw [if_pos hc, if_neg hc'] at hcard
    show (s.tab.data p).threadsGuaranteed ≤ (holds (update s.tab.cores c (some q)) p).card
    omega

/-- What a step takes from a process that is not leaving: a core that was reported as idle, or one for a request. -/
lemma taken_of_step (hs : s.tab.Inv) {e : Event σ C P} (h : step L (rules L cfg cpus) s e = .ok s')
    (hc : s.tab.cores c = some p) (hc' : s'.tab.cores c ≠ some p) :
    e = .detach p ∨ (∃ idle, e = .schedPoll idle ∧ c ∈ idle) ∨ ∃ q, Requests e q ∧ q ≠ p ∧ s'.tab.cores c = some q ∧
        (s.tab.data p).threadsGuaranteed < (holds s.tab.cores p).card ∧
        (holds s.tab.cores q).card < (s.tab.data q).threadsGuaranteed ∧
        (s'.tab.data p).threadsGuaranteed ≤ (holds s'.tab.cores p).card := by
  cases e with
  | attach q spec =>
    obtain ⟨-, he⟩ := guard_eq_ok.1 h
    cases he
    exact absurd hc hc'
  | detach q =>
    obtain ⟨-, he⟩ := guard_eq_ok.1 h
    cases he
    by_cases hqp : q = p
    · exact .inl (congrArg Event.detach hqp)
    · refine absurd ?_ hc'
      obtain ⟨_, _, _, he, -⟩ := Tables.Marking.unmarkCongested (o := none) s.tab q
      refine Holds.drop_eq_some.2 ⟨Ne.symm hqp, ?_⟩
      rw [he]
      exact hc
  | notifyCoreNeeded q =>
    obtain ⟨hq, he⟩ := guard_eq_ok.1 h
    cases he
    exact .inr (.inr ⟨q, .inl rfl, taken_of_asked hs hq (asked_notifyCoreNeeded ..) hc hc'⟩)
  | notifyCongested q delay =>
    obtain ⟨hq, he⟩ := guard_eq_ok.1 h
    cases he
    exact .inr (.inr ⟨q, .inr ⟨delay, rfl⟩, taken_of_asked hs hq (asked_notifyCongested ..) hc hc'⟩)
  | schedPoll idle =>
    cases h
    refine .inr (.inl ⟨idle, rfl, ?_⟩)
    by_contra hidle
    rw [schedPoll_cores idle hidle] at hc'
    exact hc' hc
  | below low =>
    cases h
    exact absurd hc hc'

end

/-- In every run, whatever the layer below does: the counter of a process is the number of its cores, an idle core has
no owner, and a core that a process loses without leaving, and that was not reported as idle, goes to a process with
fewer than its guaranteed cores, from one with more. -/
theorem guaranteed_cores_protected [Fintype C] {s : Sys σ C P Unit}
    (h : Reaches (step L (rules L cfg cpus)) (fun _ _ => True) (fun s => Initial cfg s.tab) s) :
    (∀ p, s.tab.attached p = true → (s.tab.data p).threadsActive = (holds s.tab.cores p).card) ∧
    (∀ c, s.tab.idleCores c = true → s.tab.cores c = none) ∧
    ∀ e s' c p, step L (rules L cfg cpus) s e = .ok s' → s.tab.cores c = some p → s'.tab.cores c ≠ some p →
      e = .detach p ∨ (∃ idle, e = .schedPoll idle ∧ c ∈ idle) ∨
      ∃ q, Requests e q ∧ q ≠ p ∧ s'.tab.cores c = some q ∧
        (s.tab.data p).threadsGuaranteed < (holds s.tab.cores p).card ∧
        (holds s.tab.cores q).card < (s.tab.data q).threadsGuaranteed ∧
        (s'.tab.data p).threadsGuaranteed ≤ (holds s'.tab.cores p).card := by
  have hs : s.tab.Inv := reaches_inv sane_rules (fun _ hi => hi.tables) h
  exact ⟨hs.counted, fun _ hc => hs.known.idle hc, fun _ _ _ _ he hc hc' => taken_of_step hs he hc hc'⟩

def alwaysRuns : Layer Unit (Fin 2) Bool where
  threadsAvail _ _ := 1
  idleThreads _ _ := []
  runOnCore low _ _ := .ok low

def twoCores : Iokernel.Config (Fin 2) where
  allowed _ := true
  sibling c := 1 - c
  noht := false
  coresTbl := [0, 1]

def nobody : Tables (Fin 2) Bool Unit where
  cores _ := none
  hist _ := List.replicate nhist none
  idleCores _ := true
  congestedProcs := []
  data _ := ⟨false, false, 0, 0, 0, 0, ()⟩
  attached _ := false

theorem guaranteed_cores_protected_two : ∃ s,
    Reaches (step alwaysRuns (rules alwaysRuns twoCores [0, 1])) (fun _ _ => True)
      (fun s => Initial twoCores s.tab) s ∧
    (s.tab.data false).threadsActive = 1 ∧ s.tab.cores 0 = some true ∧ s.tab.cores 1 = some false ∧
    (holds s.tab.cores false).card = 1 := by
  refine Reaches.of_exec_imp (s := ⟨(), nobody⟩) (P := fun s =>
      (s.tab.cores 0 = some true ∧ s.tab.cores 1 = some false) ∧ s.tab.attached false ∧
      (s.tab.data false).threadsActive = 1)
    [.attach false ⟨2, 0, 0, 0⟩, .attach true ⟨2, 1, 0, 0⟩, .notifyCoreNeeded false, .notifyCoreNeeded false,
        .notifyCoreNeeded true] ⟨⟨fun _ => rfl, fun _ => rfl, rfl, fun _ => rfl⟩, rfl⟩ (allowed_true _ _)
      (by decide) ?_
  rintro s hr ⟨hcores, hatt, hact⟩
  refine ⟨hact, hcores.1, hcores.2, ?_⟩
  have hcount := (guaranteed_cores_protected alwaysRuns twoCores [0, 1] hr).1 false hatt
  rw [hact] at hcount
  exact (Int.ofNat.inj hcount).symm

end Aspen.Policy.Simple
