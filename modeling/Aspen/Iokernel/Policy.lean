import Aspen.Iokernel.Cores
import Aspen.Lib.Holdings

/-!
# Core allocation policies

The simple policy and the one that knows about NUMA nodes differ in the core that a process gets, the process
that gets an idle core, and what is remembered for these choices. That is in `Rules`, and the rest is written
over it.

Below a policy is the layer that runs threads on cores. A policy asks it for the number of threads of a process
that could run, for the cores that these ran on last, and to run one on a core. Whatever it answers is in a
`Layer`; between two calls of the policy its state may change.
-/

namespace Aspen.Policy

open Function

/-- What the policies use of `struct sched_spec`. -/
structure Spec where
  maxCores : BitVec 32
  guaranteedCores : BitVec 32
  preferredSocket : BitVec 32
  qdelayUs : ℕ

/-- What the policies use of `struct delay_info`; the delay is rounded down. -/
structure Delay where
  standingQueue : Bool
  parkedThreadBusy : Bool
  maxDelayUs : ℕ

inductive Errno
  | ebusy
  | enoent
  | einval

/-- `struct simple_data` and `struct numa_data`; `extra` is what only one of them has -/
structure Data (X : Type*) where
  isCongested : Bool
  waking : Bool
  qdelayUs : ℕ
  threadsGuaranteed : ℤ
  threadsMax : ℤ
  threadsActive : ℤ
  extra : X

def nhist : ℕ := 4

structure Tables (C P X : Type*) where
  cores : C → Option P
  /-- the processes that had it before, the last one first -/
  hist : C → List (Option P)
  idleCores : C → Bool
  congestedProcs : List P
  data : P → Data X
  attached : P → Bool

structure Layer (σ C P : Type*) where
  threadsAvail : σ → P → ℤ
  /-- the cores that the threads in `idle_threads` ran on last; none for `UINT_MAX` -/
  idleThreads : σ → P → List (Option C)
  runOnCore : σ → P → C → Except Errno σ

structure Rules (σ C P X : Type*) where
  chooseCore : σ → Tables C P X → P → Option C
  chooseKthread : σ → Tables C P X → C → Option P
  /-- a process that gets a core is marked as waking -/
  setsWaking : Bool
  /-- what is noted when a process leaves a core -/
  leave : X → C → X
  /-- what is noted first -/
  init : Spec → X

structure Sys (σ C P X : Type*) where
  low : σ
  tab : Tables C P X

variable {σ C P X : Type*} [DecidableEq C] [DecidableEq P]

namespace Tables

variable (R : Rules σ C P X) (s : Tables C P X) (p : P) (core : C)

def setData (d : Data X) : Tables C P X := { s with data := update s.data p d }

def procIsPreemptible (cur next : P) : Bool := (s.data cur).threadsActive > (s.data cur).threadsGuaranteed &&
    (s.data next).threadsActive < (s.data next).threadsGuaranteed

def canTake : Bool :=
  match s.cores core with
  | none => true
  | some q => q ≠ p && s.procIsPreemptible q p

def cleanupCore : Tables C P X :=
  match s.cores core with
  | none => s
  | some p =>
    { s with
      data := update s.data p { s.data p with
        threadsActive := (s.data p).threadsActive - 1, extra := R.leave (s.data p).extra core }
      cores := update s.cores core none
      hist := update s.hist core (some p :: (s.hist core).take (nhist - 1)) }

def markCongested : Tables C P X := if (s.data p).isCongested then s
  else { s.setData p { s.data p with isCongested := true } with congestedProcs := p :: s.congestedProcs }

def unmarkCongested : Tables C P X := if ¬(s.data p).isCongested then s
  else { s.setData p { s.data p with isCongested := false } with
    congestedProcs := s.congestedProcs.erase p }

/-- `simple_attach` and `numa_attach`, if there is memory -/
def attach (spec : Spec) : Tables C P X :=
  { s.setData p ⟨false, false, spec.qdelayUs, spec.guaranteedCores.toInt, spec.maxCores.toInt, 0,
      R.init spec⟩ with attached := update s.attached p true }

def detach : Tables C P X := let s := s.unmarkCongested p
  { s with
    cores := Holds.drop s.cores p
    hist := fun c => (s.hist c).map fun q => if q = some p then none else q
    attached := update s.attached p false }

/-- The second half of `simple_run_kthread_on_core` and `numa_run_kthread_on_core`. -/
def grant : Tables C P X := let s := s.cleanupCore R core
  { s with
    cores := update s.cores core (some p)
    idleCores := update s.idleCores core false
    data := update s.data p { s.data p with
      threadsActive := (s.data p).threadsActive + 1, waking := R.setsWaking || (s.data p).waking } }

def setIdle : Tables C P X := { s with idleCores := update s.idleCores core true }

end Tables

variable (L : Layer σ C P) (R : Rules σ C P X)

variable (s : Sys σ C P X) (p : P)

def runKthreadOnCore (core : C) : Except Errno (Sys σ C P X) := if L.threadsAvail s.low p = 0 then .error .ebusy
  else match L.runOnCore s.low p core with
    | .error e => .error e
    | .ok low => .ok ⟨low, s.tab.grant R p core⟩

def addKthread : Except Errno (Sys σ C P X) :=
  if (s.tab.data p).threadsActive ≥ (s.tab.data p).threadsMax then .error .enoent
  else match R.chooseCore s.low s.tab p with
    | none => .error .enoent
    | some core => runKthreadOnCore L R s p core

/-- `simple_notify_core_needed` and `numa_notify_core_needed`; an error changes nothing -/
def notifyCoreNeeded : Sys σ C P X :=
  match addKthread L R s p with
  | .ok s => s
  | .error _ => s

/-- The congestion that `simple_notify_congested` and `numa_notify_congested` detect first. -/
def Delay.congested (delay : Delay) (d : Data X) : Bool :=
  (if d.qdelayUs = 0 then delay.standingQueue else delay.maxDelayUs ≥ d.qdelayUs) || delay.parkedThreadBusy

def notifyCongested (delay : Delay) : Sys σ C P X :=
  if (s.tab.data p).waking then
    { s with tab := s.tab.setData p { s.tab.data p with waking := false } }
  else if ¬delay.congested (s.tab.data p) then { s with tab := s.tab.unmarkCongested p }
  else if (s.tab.data p).isCongested then s
  else match addKthread L R s p with
    | .ok s => s
    | .error _ => { s with tab := s.tab.markCongested p }

def leaveCore (s : Tables C P X) (core : C) : Tables C P X :=
  match s.cores core with
  | none => s.cleanupCore R core
  | some q => (s.unmarkCongested q).cleanupCore R core

def pollCore (core : C) : Sys σ C P X := let s := { s with tab := leaveCore R s.tab core }
  match R.chooseKthread s.low s.tab core with
  | none => { s with tab := s.tab.setIdle core }
  | some p =>
    match runKthreadOnCore L R s p core with
    | .ok s => s
    | .error _ => { s with tab := (s.tab.setIdle core).markCongested p }

def schedPoll (idle : List C) : Sys σ C P X := idle.foldl (pollCore L R) s

inductive Event (σ C P : Type*)
  | attach (p : P) (spec : Spec)
  | detach (p : P)
  | notifyCoreNeeded (p : P)
  | notifyCongested (p : P) (delay : Delay)
  | schedPoll (idle : List C)
  /-- anything that happens in the layer below -/
  | below (low : σ)

inductive Stop
  | misplaced

def step : Event σ C P → Except Stop (Sys σ C P X)
  | .attach p spec =>
    if s.tab.attached p = false then .ok { s with tab := s.tab.attach R p spec } else .error .misplaced
  | .detach p =>
    if s.tab.attached p = true then .ok { s with tab := s.tab.detach p } else .error .misplaced
  | .notifyCoreNeeded p =>
    if s.tab.attached p = true then .ok (notifyCoreNeeded L R s p) else .error .misplaced
  | .notifyCongested p delay =>
    if s.tab.attached p = true then .ok (notifyCongested L R s p delay) else .error .misplaced
  | .schedPoll idle => .ok (schedPoll L R s idle)
  | .below low => .ok { s with low := low }

structure Tables.Initial (s : Tables C P X) : Prop where
  cores : ∀ c, s.cores c = none
  hist : ∀ c, s.hist c = List.replicate nhist none
  congestedProcs : s.congestedProcs = []
  attached : ∀ p, s.attached p = false

/-! ## The choices -/

/-- Common to `simple_choose_kthread` and `numa_choose_kthread`: a process, of those in `ok`, that runs on the sibling
or ran on one of the two cores. -/
def chooseLocal (cfg : Iokernel.Config C) (s : Tables C P X) (ok : P → Bool) (core : C) : Option P :=
  (if cfg.noht then none else (s.cores (cfg.sibling core)).filter ok) <|>
  (List.range nhist).findSome? fun i =>
    ((s.hist core).getD i none).filter ok <|>
      if cfg.noht then none else ((s.hist (cfg.sibling core)).getD i none).filter ok

omit [DecidableEq C] [DecidableEq P] in
lemma mem_hist_of_getD {s : Tables C P X} {core : C} {i : ℕ} {p : P}
    (h : (s.hist core).getD i none = some p) : some p ∈ s.hist core := by
  rw [List.getD_eq_getElem?_getD] at h
  cases hi : (s.hist core)[i]? with
  | none =>
    rw [hi] at h
    cases h
  | some o =>
    rw [hi] at h
    exact List.mem_of_getElem? (hi.trans (congrArg some h))

omit [DecidableEq C] [DecidableEq P] in
lemma known_of_chooseLocal {cfg : Iokernel.Config C} {s : Tables C P X} {ok : P → Bool} {core : C} {p : P}
    (h : chooseLocal cfg s ok core = some p) : (∃ c, s.cores c = some p) ∨ ∃ c, some p ∈ s.hist c := by
  rcases (Option.orElse_eq_some _ _ _).1 h with h | ⟨-, h⟩
  · split at h
    · cases h
    · exact .inl ⟨_, (Option.filter_eq_some_iff.1 h).1⟩
  · obtain ⟨i, -, hi⟩ := List.exists_of_findSome?_eq_some h
    rcases (Option.orElse_eq_some _ _ _).1 hi with hi | ⟨-, hi⟩
    · exact .inr ⟨_, mem_hist_of_getD (Option.filter_eq_some_iff.1 hi).1⟩
    · split at hi
      · cases hi
      · exact .inr ⟨_, mem_hist_of_getD (Option.filter_eq_some_iff.1 hi).1⟩

/-- A process that gets an idle core is one that is known. -/
structure Rules.Sane (R : Rules σ C P X) : Prop where
  kthread : ∀ {low s c p}, R.chooseKthread low s c = some p →
    (∃ c', s.cores c' = some p) ∨ (∃ c', some p ∈ s.hist c') ∨ p ∈ s.congestedProcs

/-! ## The invariant -/

namespace Tables

variable {R : Rules σ C P X} {s s' : Tables C P X} {p q : P} {c core : C} {o : Option P}

/-- The processes that a policy knows are attached, and an idle core has no owner. -/
structure Known (s : Tables C P X) : Prop where
  owner : ∀ {c p}, s.cores c = some p → s.attached p = true
  hist : ∀ {c p}, some p ∈ s.hist c → s.attached p = true
  idle : ∀ {c}, s.idleCores c = true → s.cores c = none

def Listed (s : Tables C P X) : Prop :=
  Marked s.congestedProcs fun p => s.attached p = true ∧ (s.data p).isCongested = true

def Counted [Fintype C] (s : Tables C P X) : Prop :=
  ∀ p, s.attached p = true → (s.data p).threadsActive = (holds s.cores p).card

structure Inv [Fintype C] (s : Tables C P X) : Prop where
  known : s.Known
  listed : s.Listed
  counted : s.Counted

/-! ### Marks -/

def withMarks (s : Tables C P X) (con wak : P → Bool) (l : List P) : Tables C P X :=
  { s with
    data := fun p => { s.data p with isCongested := con p, waking := wak p }
    congestedProcs := l }

def Marking (s s' : Tables C P X) (x : Option P) : Prop :=
  ∃ con wak l, s' = s.withMarks con wak l ∧ ((∀ p, x = some p → s.attached p = true) → s.Listed → s'.Listed)

section

variable (s : Tables C P X)

omit [DecidableEq C] [DecidableEq P] in
lemma Marking.refl : Marking s s o := ⟨_, _, _, rfl, fun _ => id⟩

section

omit [DecidableEq C]

lemma setMarks_eq (p : P) (con wak : Bool) (l : List P) :
    { s.setData p { s.data p with isCongested := con, waking := wak } with congestedProcs := l } =
      s.withMarks (fun q => if q = p then con else (s.data q).isCongested)
        (fun q => if q = p then wak else (s.data q).waking) l := by
  dsimp only [setData, withMarks]
  congr
  exact update_eq_iff.2 ⟨by simp, fun q hq => by simp [hq]⟩

lemma Marking.setWaking (p : P) (w : Bool) : Marking s (s.setData p { s.data p with waking := w }) o := by
  refine ⟨_, _, _, setMarks_eq s p _ w s.congestedProcs, fun _ h => h.congr fun q => ?_⟩
  by_cases hq : q = p <;> simp [setData, hq]

lemma Marking.markCongested (p : P) : Marking s (s.markCongested p) (some p) := by
  unfold Tables.markCongested
  split
  · exact .refl s
  · rename_i hc
    refine ⟨_, _, _, setMarks_eq s p true _ (p :: s.congestedProcs),
      fun hp h => h.cons (fun hm => hc hm.2) fun q => ?_⟩
    by_cases hq : q = p
    · simp [setData, hq, hp p rfl]
    · simp [setData, hq]

lemma Marking.unmarkCongested (p : P) : Marking s (s.unmarkCongested p) o := by
  unfold Tables.unmarkCongested
  split
  · exact .refl s
  · refine ⟨_, _, _, setMarks_eq s p false _ (s.congestedProcs.erase p), fun _ h => h.erase fun q => ?_⟩
    by_cases hq : q = p <;> simp [setData, hq]

lemma unmarkCongested_isCongested (p : P) : ((s.unmarkCongested p).data p).isCongested = false := by
  unfold Tables.unmarkCongested
  split
  · rename_i h
    exact Bool.not_eq_true _ ▸ h
  · simp [setData]

end

end

omit [DecidableEq C] in
lemma Inv.marking [Fintype C] (h : s.Inv) (hm : Marking s s' o) (ho : ∀ p, o = some p → s.attached p) : s'.Inv := by
  obtain ⟨con, wak, l, rfl, hl⟩ := hm
  exact ⟨⟨h.known.owner, h.known.hist, h.known.idle⟩, hl ho h.listed, h.counted⟩

/-! ### Cores that change hands -/

def withCores (s : Tables C P X) (cores : C → Option P) (hist : C → List (Option P)) (idle : C → Bool)
    (wak : P → Bool) (act : P → ℤ) (extra : P → X) : Tables C P X :=
  { s with
    cores := cores
    hist := hist
    idleCores := idle
    data := fun p => { s.data p with waking := wak p, threadsActive := act p, extra := extra p } }

def Moved (s s' : Tables C P X) (core : C) (o : Option P) : Prop :=
  ∃ hist idle wak act extra, s' = s.withCores (update s.cores core o) hist idle wak act extra ∧
    (∀ c p, some p ∈ hist c → some p ∈ s.hist c ∨ s.cores core = some p) ∧
    (∀ c, idle c = true → if c = core then o = none else s.idleCores c = true) ∧
    ∀ p, act p = (s.data p).threadsActive - (if s.cores core = some p then 1 else 0) + if o = some p then 1 else 0

lemma Moved.cleanupCore (R : Rules σ C P X) (s : Tables C P X) (core : C) :
    Moved s (s.cleanupCore R core) core none := by
  unfold Tables.cleanupCore
  split
  · rename_i hc
    refine ⟨s.hist, s.idleCores, fun p => (s.data p).waking, fun p => (s.data p).threadsActive,
      fun p => (s.data p).extra, ?_, fun c p h => .inl h, fun c hi => by simp [hi], fun p => by simp [hc]⟩
    rw [← hc, update_eq_self]
    rfl
  · rename_i p hc
    refine ⟨update s.hist core (some p :: (s.hist core).take (nhist - 1)), s.idleCores,
      fun q => (s.data q).waking, update (fun q => (s.data q).threadsActive) p ((s.data p).threadsActive - 1),
      update (fun q => (s.data q).extra) p (R.leave (s.data p).extra core), ?_, fun c q hq => ?_,
      fun c hi => by simp [hi], fun q => ?_⟩
    · congr 1
      exact update_eq_iff.2 ⟨by simp, fun q hq => by simp [hq]⟩
    · by_cases he : c = core
      · rw [he, update_self] at hq
        rcases List.mem_cons.1 hq with hq | hq
        · exact .inr (hc.trans hq.symm)
        · exact .inl (he ▸ List.mem_of_mem_take hq)
      · rw [update_of_ne he] at hq
        exact .inl hq
    · by_cases hq : q = p
      · simp [hq, hc]
      · simp [hq, hc, Ne.symm hq]

lemma Moved.setIdle (h : Moved s s' core none) : Moved s (s'.setIdle core) core none := by
  obtain ⟨hist, idle, wak, act, extra, rfl, hhist, hidle, hact⟩ := h
  refine ⟨hist, update idle core true, wak, act, extra, rfl, hhist, fun c hc => ?_, hact⟩
  split
  · rfl
  · rename_i hne
    rw [update_of_ne hne] at hc
    have hc := hidle c hc
    rwa [if_neg hne] at hc

lemma Moved.grant (R : Rules σ C P X) (s : Tables C P X) (p : P) (core : C) :
    Moved s (s.grant R p core) core (some p) := by
  obtain ⟨hist, idle, wak, act, extra, he, hhist, hidle, hact⟩ := Moved.cleanupCore R s core
  unfold Tables.grant
  rw [he]
  dsimp only [withCores]
  refine ⟨hist, update idle core false, update wak p (R.setsWaking || wak p),
    update act p (act p + 1), extra, ?_, hhist, fun c hc => ?_, fun q => ?_⟩
  · congr 1
    · exact update_idem ..
    · exact update_eq_iff.2 ⟨by simp, fun q hq => by simp [hq]⟩
  · have hne : c ≠ core := by
      rintro rfl
      rw [update_self] at hc
      cases hc
    rw [update_of_ne hne] at hc
    have hc := hidle c hc
    rw [if_neg hne] at hc ⊢
    exact hc
  · by_cases hq : q = p
    · simp [hq, hact]
    · simp [hq, hact, Ne.symm hq]

lemma Inv.moved [Fintype C] (h : s.Inv) (hm : Moved s s' core o) (ho : ∀ p, o = some p → s.attached p) : s'.Inv := by
  obtain ⟨hist, idle, wak, act, extra, rfl, hhist, hidle, hact⟩ := hm
  refine ⟨⟨fun {c p} (hc : update s.cores core o c = some p) => ?_, fun {c p} hp => ?_,
    fun {c} hc => (?_ : update s.cores core o c = none)⟩, h.listed, fun p hp => ?_⟩
  · by_cases he : c = core
    · rw [he, update_self] at hc
      exact ho p hc
    · rw [update_of_ne he] at hc
      exact h.known.owner hc
  · exact (hhist c p hp).elim h.known.hist h.known.owner
  · have hi := hidle c hc
    by_cases he : c = core
    · rw [if_pos he] at hi
      rw [he, update_self, hi]
    · rw [if_neg he] at hi
      rw [update_of_ne he]
      exact h.known.idle hi
  · exact ((hact p).trans (by rw [h.counted p hp])).trans (Holds.card_update ..).symm

/-! ### Attaching and detaching -/

section
variable [Fintype C]

section

omit [DecidableEq C]

lemma Initial.inv (h : s.Initial) : s.Inv := by
  refine ⟨⟨fun {c p} hc => ?_, fun {c p} hp => ?_, fun {c} _ => h.cores c⟩, ?_, fun p hp => ?_⟩
  · rw [h.cores c] at hc
    cases hc
  · rw [h.hist c] at hp
    cases List.eq_of_mem_replicate hp
  · unfold Listed
    rw [h.congestedProcs]
    refine .nil fun p hp => ?_
    rw [h.attached p] at hp
    cases hp.1
  · rw [h.attached p] at hp
    cases hp

lemma Inv.attach (h : s.Inv) (hp : s.attached p = false) {spec : Spec} : (s.attach R p spec).Inv := by
  have hne {q : P} (hq : s.attached q) : q ≠ p := by
    rintro rfl
    cases hp.symm.trans hq
  have hatt {q : P} (hq : s.attached q) : (s.attach R p spec).attached q := (update_of_ne (hne hq) ..).trans hq
  refine ⟨⟨fun hc => hatt (h.known.owner hc), fun hc => hatt (h.known.hist hc), h.known.idle⟩,
    h.listed.congr fun q => ?_, fun q hq => ?_⟩
  · by_cases hq : q = p <;> simp [Tables.attach, setData, hq, hp]
  · show (update s.data p _ q).threadsActive = (holds s.cores q).card
    by_cases he : q = p
    · have hnone : holds s.cores q = ∅ := by
        refine Finset.eq_empty_of_forall_notMem fun c hc => ?_
        exact hne (h.known.owner (Holds.mem_holds.1 hc)) he
      rw [he, update_self, ← he, hnone]
      rfl
    · have hq' : update s.attached p true q := hq
      rw [update_of_ne he] at hq' ⊢
      exact h.counted q hq'

lemma Inv.detach (h : s.Inv) : (s.detach p).Inv := by
  have hu : (s.unmarkCongested p).Inv := h.marking (o := none) (.unmarkCongested s p) nofun
  have hatt {q : P} : (s.detach p).attached q ↔ q ≠ p ∧ (s.unmarkCongested p).attached q := by
    show update (s.unmarkCongested p).attached p false q ↔ _
    by_cases hq : q = p <;> simp [hq]
  refine ⟨⟨fun {c q} hc => ?_, fun {c q} hc => ?_, fun {c} hc => ?_⟩, hu.listed.congr fun q => ?_, fun q hq => ?_⟩
  · obtain ⟨hq, hc⟩ := Holds.drop_eq_some.1 hc
    exact hatt.2 ⟨hq, hu.known.owner hc⟩
  · obtain ⟨o, ho, he⟩ := List.mem_map.1 hc
    split at he
    · cases he
    · rename_i hne
      subst he
      exact hatt.2 ⟨fun hqp => hne (congrArg some hqp), hu.known.hist ho⟩
  · show Holds.drop (s.unmarkCongested p).cores p c = none
    unfold Holds.drop
    rw [hu.known.idle hc]
    rfl
  · rw [hatt]
    refine ⟨fun hq => ⟨hq.1.2, hq.2⟩, fun hq => ⟨⟨?_, hq.1⟩, hq.2⟩⟩
    rintro rfl
    cases (unmarkCongested_isCongested s q).symm.trans hq.2
  · obtain ⟨hne, hq⟩ := hatt.1 hq
    exact (hu.counted q hq).trans (congrArg _ (congrArg _ (Holds.holds_drop hne).symm))

end

end

end Tables

/-! ## What each call does -/

section
variable {L : Layer σ C P} {R : Rules σ C P X} {s s' : Sys σ C P X} {p : P} {core : C}

/-- `p` gets `core`, and the layer below runs a thread there. -/
structure Granted (L : Layer σ C P) (s : Sys σ C P X) (p : P) (core : C) (s' : Sys σ C P X) : Prop where
  run : L.runOnCore s.low p core = .ok s'.low
  moved : s.tab.Moved s'.tab core (some p)

lemma runKthreadOnCore_eq_ok (h : runKthreadOnCore L R s p core = .ok s') : Granted L s p core s' := by
  unfold runKthreadOnCore at h
  split at h
  · cases h
  · split at h
    · cases h
    · rename_i low hlow
      cases h
      exact ⟨hlow, .grant R s.tab p core⟩

inductive Asked (L : Layer σ C P) (R : Rules σ C P X) (s : Sys σ C P X) (p : P) : Sys σ C P X → Prop
  | granted {core : C} {s' : Sys σ C P X} : (s.tab.data p).threadsActive < (s.tab.data p).threadsMax →
      R.chooseCore s.low s.tab p = some core → Granted L s p core s' → Asked L R s p s'
  | marked {t : Tables C P X} : s.tab.Marking t (some p) → Asked L R s p { s with tab := t }

lemma Asked.of_ok (h : addKthread L R s p = .ok s') : Asked L R s p s' := by
  unfold addKthread at h
  split at h
  · cases h
  · rename_i hmax
    split at h
    · cases h
    · rename_i core hcore
      exact .granted (Int.not_le.1 hmax) hcore (runKthreadOnCore_eq_ok h)

variable (L R s)

lemma asked_notifyCoreNeeded (p : P) : Asked L R s p (notifyCoreNeeded L R s p) := by
  unfold notifyCoreNeeded
  split
  · rename_i h
    exact .of_ok h
  · exact .marked (.refl _)

lemma asked_notifyCongested (p : P) (delay : Delay) : Asked L R s p (notifyCongested L R s p delay) := by
  unfold notifyCongested
  split
  · exact .marked (.setWaking _ _ _)
  · split
    · exact .marked (.unmarkCongested _ _)
    · split
      · exact .marked (.refl _)
      · split
        · rename_i h
          exact .of_ok h
        · exact .marked (.markCongested _ p)

variable {L R s}

lemma Asked.inv [Fintype C] (h : Asked L R s p s') (hs : s.tab.Inv) (hp : s.tab.attached p) : s'.tab.Inv := by
  have ho (q : P) (hq : some p = some q) : s.tab.attached q := Option.some.inj hq ▸ hp
  cases h with
  | granted _ _ hg => exact hs.moved hg.moved ho
  | marked hm => exact hs.marking hm ho

/-! ### Idle cores -/

def Left (s t : Tables C P X) (core : C) : Prop := ∃ m, s.Marking m none ∧ m.Moved t core none

lemma left_leaveCore (R : Rules σ C P X) (s : Tables C P X) (core : C) : Left s (leaveCore R s core) core := by
  unfold leaveCore
  split
  · exact ⟨s, .refl s, .cleanupCore R s core⟩
  · exact ⟨_, .unmarkCongested s _, .cleanupCore R _ core⟩

lemma Left.inv [Fintype C] {s t : Tables C P X} (h : Left s t core) (hs : s.Inv) : t.Inv := by
  obtain ⟨m, hm, ht⟩ := h
  exact (hs.marking hm nofun).moved ht nofun

lemma Left.setIdle {s t : Tables C P X} (h : Left s t core) : Left s (t.setIdle core) core := by
  obtain ⟨m, hm, ht⟩ := h
  exact ⟨m, hm, ht.setIdle⟩

/-- An idle core leaves its process, and then it is given to another one or is marked as idle. -/
inductive Polled (L : Layer σ C P) (R : Rules σ C P X) (s : Sys σ C P X) (core : C) : Sys σ C P X → Prop
  | granted {t : Tables C P X} {p : P} {s' : Sys σ C P X} : Left s.tab t core →
      R.chooseKthread s.low t core = some p → Granted L { s with tab := t } p core s' → Polled L R s core s'
  | idle {t : Tables C P X} : Left s.tab t core → Polled L R s core { s with tab := t }
  | refused {t t' : Tables C P X} {p : P} : Left s.tab t core → R.chooseKthread s.low t core = some p →
      (t.setIdle core).Marking t' (some p) → Polled L R s core { s with tab := t' }

lemma polled_pollCore (L : Layer σ C P) (R : Rules σ C P X) (s : Sys σ C P X) (core : C) :
    Polled L R s core (pollCore L R s core) := by
  have hleft := left_leaveCore R s.tab core
  simp only [pollCore]
  split
  · exact .idle hleft.setIdle
  · rename_i p hp
    split
    · rename_i h
      exact .granted hleft hp (runKthreadOnCore_eq_ok h)
    · exact .refused hleft hp (.markCongested _ p)

lemma Polled.cores (h : Polled L R s core s') {c : C} (hc : c ≠ core) : s'.tab.cores c = s.tab.cores c := by
  have hother {o : Option P} {f : C → Option P} : update f core o c = f c := update_of_ne hc ..
  cases h with
  | granted hl _ hg =>
    obtain ⟨low, t⟩ := s'
    obtain ⟨m, ⟨_, _, _, rfl, -⟩, _, _, _, _, _, rfl, -⟩ := hl
    obtain ⟨-, _, _, _, _, _, ht, -⟩ := hg
    cases ht
    exact hother.trans hother
  | idle hl =>
    obtain ⟨m, ⟨_, _, _, rfl, -⟩, _, _, _, _, _, rfl, -⟩ := hl
    exact hother
  | refused hl _ hm =>
    obtain ⟨_, _, _, rfl, -⟩ := hm
    obtain ⟨m, ⟨_, _, _, rfl, -⟩, _, _, _, _, _, rfl, -⟩ := hl
    exact hother

omit [DecidableEq C] in
lemma Rules.Sane.attached [Fintype C] (hR : R.Sane) {low : σ} {s : Tables C P X} (h : s.Inv)
    (hp : R.chooseKthread low s core = some p) (q : P) (hq : some p = some q) : s.attached q = true := by
  cases hq
  rcases hR.kthread hp with ⟨c, hc⟩ | ⟨c, hc⟩ | hc
  · exact h.known.owner hc
  · exact h.known.hist hc
  · exact ((h.listed.mem p).1 hc).1

lemma Polled.inv [Fintype C] (h : Polled L R s core s') (hR : R.Sane) (hs : s.tab.Inv) : s'.tab.Inv := by
  cases h with
  | granted hl hp hg => exact (hl.inv hs).moved hg.moved (hR.attached (hl.inv hs) hp)
  | idle hl => exact hl.inv hs
  | refused hl hp hm =>
    have ha := hR.attached (hl.inv hs) hp
    exact (hl.setIdle.inv hs).marking hm ha

lemma schedPoll_inv [Fintype C] (hR : R.Sane) (idle : List C) :
    ∀ {s : Sys σ C P X}, s.tab.Inv → (schedPoll L R s idle).tab.Inv := by
  induction idle with
  | nil => exact id
  | cons core idle ih =>
    intro s hs
    exact ih ((polled_pollCore L R s core).inv hR hs)

lemma schedPoll_cores (idle : List C) {c : C} :
    ∀ {s : Sys σ C P X}, c ∉ idle → (schedPoll L R s idle).tab.cores c = s.tab.cores c := by
  induction idle with
  | nil => exact fun _ => rfl
  | cons core idle ih =>
    intro s hc
    rw [List.mem_cons, not_or] at hc
    exact (ih hc.2).trans ((polled_pollCore L R s core).cores hc.1)

/-! ### Whole runs -/

lemma inv_of_step [Fintype C] (hR : R.Sane) {e : Event σ C P} (hs : s.tab.Inv)
    (h : step L R s e = .ok s') : s'.tab.Inv := by
  cases e with
  | attach p spec =>
    obtain ⟨hp, he⟩ := Run.guard_eq_ok.1 h
    cases he
    exact hs.attach hp
  | detach p =>
    obtain ⟨hp, he⟩ := Run.guard_eq_ok.1 h
    cases he
    exact hs.detach
  | notifyCoreNeeded p =>
    obtain ⟨hp, he⟩ := Run.guard_eq_ok.1 h
    cases he
    exact (asked_notifyCoreNeeded L R s p).inv hs hp
  | notifyCongested p delay =>
    obtain ⟨hp, he⟩ := Run.guard_eq_ok.1 h
    cases he
    exact (asked_notifyCongested L R s p delay).inv hs hp
  | schedPoll idle =>
    cases h
    exact schedPoll_inv hR idle hs
  | below low =>
    cases h
    exact hs

lemma reaches_inv [Fintype C] (hR : R.Sane) {init : Sys σ C P X → Prop}
    (hinit : ∀ s, init s → s.tab.Initial) (h : Run.Reaches (step L R) (fun _ _ => True) init s) : s.tab.Inv :=
  h.invariant (I := fun s => s.tab.Inv) (fun s hi => (hinit s hi).inv) fun _ _ _ hs _ he => inv_of_step hR hs he

end

end Aspen.Policy
