import Aspen.Iokernel.Policy
import Mathlib.Data.Fintype.Pi
import Mathlib.Algebra.Order.Field.Rat

/-!
# The interference-aware policy

`ias.c` with its controllers for hyperthreads (`ias_ht.c`) and for memory bandwidth (`ias_bw.c`). A process is
latency-critical or best-effort. It may reserve cores, which nobody can take from it, and a core that disturbs
its sibling is punished: it is left idle, but counts for the process that it disturbed.
-/

namespace Aspen.Ias

open Function

structure Spec where
  isLc : Bool
  maxCores : BitVec 32
  guaranteedCores : BitVec 32
  qdelayUs : ℕ
  htPunishUs : ℕ

/-- `struct ias_data`; there are `n` cores -/
structure Data (n : ℕ) where
  isCongested : Bool
  isBwlimited : Bool
  isLc : Bool
  isStarved : Bool
  qdelayUs : ℕ
  reservedCores : Finset (Fin n)
  threadsGuaranteed : ℤ
  threadsMax : ℤ
  threadsLimit : ℤ
  threadsActive : ℤ
  locLastUs : Fin n → ℕ
  htPunishUs : ℕ

inductive BwState
  | relax
  | sample
  | punish

/-- The bandwidth controller; of the samples only the generations are kept. -/
structure Bw (n : ℕ) where
  state : BwState
  start : Fin n → ℤ
  stop : Fin n → ℤ

structure Tables (n : ℕ) (P : Type*) where
  allProcs : List P
  idleCores : Finset (Fin n)
  reservedCores : Finset (Fin n)
  cores : Fin n → Option P
  gen : Fin n → ℤ
  nowUs : ℕ
  starvedProcs : List P
  congestedProcs : List P
  punishedCores : Finset (Fin n)
  punishCount : BitVec 64
  relaxCount : BitVec 64
  budgetUsed : Fin n → ℚ
  bw : Bw n
  data : P → Data n

structure Layer (σ : Type*) (n : ℕ) (P : Type*) where
  threadsAvail : σ → P → ℤ
  runOnCore : σ → P → Fin n → Except Policy.Errno σ
  idleOnCore : σ → Fin n → Except Policy.Errno σ

structure Config (n : ℕ) extends Iokernel.Config (Fin n) where
  preferSelfpair : Bool
  bwThresh : ℚ

structure Sys (σ : Type*) (n : ℕ) (P : Type*) where
  low : σ
  tab : Tables n P

inductive Stop
  | misplaced
  /-- the assertion in `ias_choose_kthread` fails -/
  | assertion

variable {σ : Type*} {n : ℕ} {P : Type*} [DecidableEq P]

namespace Tables

variable (s : Tables n P) (p : P) (core : Fin n)

def setData (d : Data n) : Tables n P := { s with data := update s.data p d }

def setStarved (mark : Bool) (l : List P) : Tables n P :=
  { s with data := update s.data p { s.data p with isStarved := mark }, starvedProcs := l }

def setCongested (mark : Bool) (l : List P) : Tables n P :=
  { s with data := update s.data p { s.data p with isCongested := mark }, congestedProcs := l }

def markStarved : Tables n P := if (s.data p).isStarved then s else s.setStarved p true (s.starvedProcs ++ [p])

def unmarkStarved : Tables n P := if ¬(s.data p).isStarved then s else s.setStarved p false (s.starvedProcs.erase p)

/-- The first half of `ias_mark_congested`. -/
def markIfStarved : Tables n P := if (s.data p).isLc ∧ (s.data p).threadsActive = 0 then s.markStarved p else s

def markCongested : Tables n P := let s := s.markIfStarved p
  if (s.data p).isCongested then s else s.setCongested p true (p :: s.congestedProcs)

def unmarkCongested : Tables n P := let s := s.unmarkStarved p
  if ¬(s.data p).isCongested then s else s.setCongested p false (s.congestedProcs.erase p)

def cleanupCore : Tables n P :=
  match s.cores core with
  | none => s
  | some p =>
    { s with
      data := update s.data p { s.data p with
        locLastUs := update (s.data p).locLastUs core s.nowUs
        threadsActive := (s.data p).threadsActive - 1 }
      cores := update s.cores core none }

def own : Tables n P :=
  { s with
    data := update s.data p { s.data p with threadsActive := (s.data p).threadsActive + 1 }
    cores := update s.cores core (some p)
    gen := update s.gen core (s.gen core + 1) }

/-- The second half of `ias_run_kthread_on_core`. -/
def grant : Tables n P := let s := (s.cleanupCore core).own p core
  { s with idleCores := s.idleCores.erase core }.unmarkStarved p

/-- The second half of `ias_idle_placeholder_on_core`. -/
def placehold : Tables n P := let s := (s.cleanupCore core).own p core
  { s with idleCores := insert core s.idleCores }

/-- The second half of `ias_idle_on_core`. -/
def vacate : Tables n P := let s := s.cleanupCore core
  { s with
    gen := update s.gen core (s.gen core + 1)
    idleCores := insert core s.idleCores }

end Tables

variable (cfg : Config n) (L : Layer σ n P)

/-! ## Attaching and detaching -/

/-- The loop of `ias_attach` that reserves cores: those of the process and those of all. It ends early if there is
none left. -/
def reserve : ℕ → Finset (Fin n) → Finset (Fin n) → Bool × Finset (Fin n) × Finset (Fin n)
  | 0, mine, all => (true, mine, all)
  | i + 1, mine, all =>
    match (List.finRange n).find? (· ∉ all) with
    | none => (false, mine, all)
    | some core =>
      if cfg.noht then reserve i (insert core mine) (insert core all)
      else reserve i (insert (cfg.sibling core) (insert core mine))
        (insert (cfg.sibling core) (insert core all))

variable (s : Tables n P) (samples : Fin n → ℤ) (measured : Fin n → ℚ) (sd : P) (core : Fin n)

/-- The iterations of the loop: each takes one core, or two with the sibling. -/
def iterations (guaranteed : ℤ) : ℕ := if cfg.noht then guaranteed.toNat else (guaranteed.toNat + 1) / 2

/-- `ias_attach`, and whether it succeeds; `mem` says that there is memory -/
def attach (p : P) (spec : Spec) (mem : Bool) : Bool × Tables n P :=
  if ¬cfg.noht ∧ spec.guaranteedCores.toNat % 2 ≠ 0 then (false, s)
  else if ¬mem then (false, s)
  else
    let r := reserve cfg (iterations cfg spec.guaranteedCores.toInt) ∅ s.reservedCores
    if r.1 then
      (true, { s.setData p {
          isCongested := false
          isBwlimited := false
          isLc := spec.isLc
          isStarved := false
          qdelayUs := spec.qdelayUs
          reservedCores := r.2.1
          threadsGuaranteed := spec.guaranteedCores.toInt
          threadsMax := spec.maxCores.toInt
          threadsLimit := spec.maxCores.toInt
          threadsActive := 0
          locLastUs := fun _ => 0
          htPunishUs := if spec.isLc then spec.htPunishUs else 0 } with
        allProcs := p :: s.allProcs
        reservedCores := r.2.2 })
    else (false, { s with reservedCores := symmDiff r.2.2 r.2.1 })

/-- The processes, and the cores that are reserved and owned. -/
def Tables.setProcs (all : List P) (reserved : Finset (Fin n)) (cores : Fin n → Option P) : Tables n P :=
  { s with allProcs := all, reservedCores := reserved, cores := cores }

def detach (p : P) : Tables n P :=
  (s.setProcs (s.allProcs.erase p) (symmDiff s.reservedCores (s.data p).reservedCores)
    (Holds.drop s.cores p)).unmarkCongested p

/-! ## Running and idling -/

def runKthreadOnCore (s : Sys σ n P) (p : P) (core : Fin n) : Bool × Sys σ n P :=
  if L.threadsAvail s.low p = 0 then (false, s)
  else match L.runOnCore s.low p core with
    | .error _ => (false, s)
    | .ok low => (true, ⟨low, s.tab.grant p core⟩)

/-- The first half of `ias_idle_placeholder_on_core` and `ias_idle_on_core`. -/
def idleBelow (s : Sys σ n P) (core : Fin n) : Option σ := if core ∈ s.tab.idleCores then some s.low
  else match L.idleOnCore s.low core with
    | .error _ => none
    | .ok low => some low

def idlePlaceholderOnCore (s : Sys σ n P) (p : P) (core : Fin n) : Option (Sys σ n P) :=
  (idleBelow L s core).map fun low => ⟨low, s.tab.placehold p core⟩

/-- `ias_idle_on_core`; a failure changes nothing -/
def idleOnCore (s : Sys σ n P) (core : Fin n) : Sys σ n P :=
  match idleBelow L s core with
  | none => s
  | some low => ⟨low, s.tab.vacate core⟩

/-! ## The choice of a core -/

def canPreemptCore : Bool :=
  match s.cores core with
  | none => true
  | some cur =>
    sd ≠ cur && core ∉ (s.data cur).reservedCores && !((s.data cur).isLc && !(s.data sd).isLc) &&
      !((s.data cur).isLc == (s.data sd).isLc && (s.data cur).threadsActive - (s.data cur).threadsGuaranteed ≤
          (s.data sd).threadsActive - (s.data sd).threadsGuaranteed + 1)

def locEvictedUs : ℕ := 100

def localityScore : ℚ := let sib := cfg.sibling core
  if ¬cfg.noht ∧ s.cores sib = some sd then 1
  else
    let delta := s.nowUs - max ((s.data sd).locLastUs core) (if cfg.noht then 0 else (s.data sd).locLastUs sib)
    if delta ≥ locEvictedUs then 0 else (locEvictedUs - delta : ℕ) / locEvictedUs

def coreScore : ℚ := let sib := cfg.sibling core
  let score := localityScore cfg s sd core + if core ∈ (s.data sd).reservedCores then 7 else 0
  if cfg.noht then score
  else
    let apart := if ¬cfg.preferSelfpair ∧ s.cores sib ≠ some sd then
      3 + (if s.cores sib = none ∧ s.cores core = none then 2 else 0) else 0
    score + apart + (1 - min 1 (s.budgetUsed sib))

def chooseCore : Option (Fin n) := best (coreScore cfg s sd) (-1) (cfg.coresTbl.filter (canPreemptCore s sd ·))

def canAddKthread (ignoreHtPunishCores : Bool) : Bool := cfg.coresTbl.any fun core => canPreemptCore s sd core &&
    !(!cfg.noht && ignoreHtPunishCores && s.budgetUsed (cfg.sibling core) ≥ 1)

def fltMax : ℚ := (2 ^ 24 - 1) * 2 ^ 104

def Tables.relaxCore : Tables n P :=
  { s with relaxCount := s.relaxCount + 1, punishedCores := s.punishedCores.erase core }

def relinquishable : Option (Fin n) := if (s.data sd).htPunishUs = 0 then none
  else best (fun core => -s.budgetUsed (cfg.sibling core)) (-fltMax)
    (cfg.coresTbl.filter fun core => s.cores core = some sd ∧ core ∈ s.punishedCores)

def htRelinquishCore (s : Sys σ n P) (sd : P) : Option (Fin n) × Sys σ n P :=
  match relinquishable cfg s.tab sd with
  | none => (none, s)
  | some core => (some core, idleOnCore L { s with tab := s.tab.relaxCore core } core)

/-- The last resort of `ias_add_kthread`. -/
def addRelinquished (s : Sys σ n P) (sd : P) : Bool × Sys σ n P := if cfg.noht then (false, s)
  else match htRelinquishCore cfg L s sd with
    | (none, s) => (false, s)
    | (some core, s) => runKthreadOnCore L s sd core

def addKthread (s : Sys σ n P) (sd : P) : Bool × Sys σ n P :=
  if (s.tab.data sd).threadsActive ≥ (s.tab.data sd).threadsLimit then addRelinquished cfg L s sd
  else match chooseCore cfg s.tab sd with
    | some core => runKthreadOnCore L s sd core
    | none => addRelinquished cfg L s sd

/-! ## Notifications -/

/-- `ias_mark_congested` at the end of the notifications. -/
def addOrMark (s : Sys σ n P) (sd : P) : Sys σ n P :=
  if s.tab.starvedProcs = [] then
    match addKthread cfg L s sd with
    | (true, s) => s
    | (false, s) => { s with tab := s.tab.markCongested sd }
  else { s with tab := s.tab.markCongested sd }

def notifyCoreNeeded (s : Sys σ n P) (p : P) : Sys σ n P := addOrMark cfg L s p

def congested (delay : Policy.Delay) (d : Data n) : Bool :=
  (if d.qdelayUs = 0 then delay.standingQueue else delay.maxDelayUs ≥ d.qdelayUs) || delay.parkedThreadBusy

def notifyCongested (s : Sys σ n P) (p : P) (delay : Policy.Delay) : Sys σ n P :=
  if ¬congested delay (s.tab.data p) then { s with tab := s.tab.unmarkCongested p }
  else if (s.tab.data p).isCongested then s
  else addOrMark cfg L s p

/-! ## The choice of a process -/

def kthreadScore (sd : P) : ℤ := let burst := n - max ((s.data sd).threadsActive - (s.data sd).threadsGuaranteed) 0
  (if core ∈ (s.data sd).reservedCores then n * 4 else 0) + (if (s.data sd).isLc then n * 2 else 0) + burst

def chooseKthread : Except Stop (Option P) :=
  match s.starvedProcs with
  | sd :: _ => if (s.data sd).threadsActive = 0 then .ok (some sd) else .error .assertion
  | [] => .ok (best (kthreadScore s core) (-1)
      (s.congestedProcs.filter fun sd => (s.data sd).threadsActive < (s.data sd).threadsLimit))

def addKthreadOnCore (s : Sys σ n P) (core : Fin n) : Except Stop (Bool × Sys σ n P) :=
  match chooseKthread s.tab core with
  | .error d => .error d
  | .ok none => .ok (false, s)
  | .ok (some sd) => .ok (runKthreadOnCore L s sd core)

def leaveCore : Tables n P :=
  match s.cores core with
  | none => s.cleanupCore core
  | some p => (s.unmarkCongested p).cleanupCore core

/-- The loop body of `ias_sched_poll` that allocates an idle core. -/
def allocate (s : Sys σ n P) (core : Fin n) : Except Stop (Sys σ n P) :=
  if core ∉ s.tab.idleCores ∨ core ∈ s.tab.punishedCores then .ok s
  else (addKthreadOnCore L { s with tab := leaveCore s.tab core } core).map Prod.snd

/-! ## Hyperthreads -/

def htPunishSelfpair (sib : Fin n) : Bool := !(s.budgetUsed sib ≥ 1) && canAddKthread cfg s sd true

def canPunish : Bool :=
  core ∈ (s.data sd).reservedCores && core ∉ s.punishedCores && cfg.sibling core ∉ s.punishedCores &&
    match s.cores (cfg.sibling core) with
    | none => true
    | some sib =>
      if sib = sd then
        -- the second test is reached also if the pair may be broken up
        htPunishSelfpair cfg s sd (cfg.sibling core) && (!(s.data sib).isLc || canAddKthread cfg s sd false)
      else !(s.data sib).isLc || canAddKthread cfg s sd false

def Tables.punishCore : Tables n P :=
  { s with punishCount := s.punishCount + 1, punishedCores := insert core s.punishedCores }

def htPunish (s : Sys σ n P) (sd : P) (core : Fin n) : Sys σ n P := if ¬canPunish cfg s.tab sd core then s
  else match idlePlaceholderOnCore L s sd (cfg.sibling core) with
    | none => s
    | some s' =>
      let s' := { s' with tab := s'.tab.punishCore (cfg.sibling core) }
      match s.tab.cores (cfg.sibling core) with
      | none => s'
      | some sib => if (s.tab.data sib).isLc then (addKthread cfg L s' sib).2 else s'

def htRelax (s : Sys σ n P) (core : Fin n) : Sys σ n P := let sib := cfg.sibling core
  if sib ∉ s.tab.punishedCores then s else idleOnCore L { s with tab := s.tab.relaxCore sib } sib

/-- The first loop of `ias_ht_poll`, for what `ias_ht_poll_one` measures. -/
def htMeasure : Tables n P :=
  { s with budgetUsed := fun core =>
      if core ∈ cfg.coresTbl then
        match s.cores core with
        | some sd => if (s.data sd).htPunishUs > 0 then measured core else 0
        | none => 0
      else s.budgetUsed core }

def htAdjust (s : Sys σ n P) (core : Fin n) : Sys σ n P :=
  match s.tab.cores core with
  | some sd =>
    if (s.tab.data sd).htPunishUs > 0 ∧ s.tab.budgetUsed core ≥ 1 then htPunish cfg L s sd core
    else htRelax cfg L s core
  | none => htRelax cfg L s core

/-! ## Bandwidth -/

def bwRequestPmc : Fin n → ℤ := fun core =>
  if core ∈ cfg.coresTbl then
    match s.cores core with
    | some sd => if (s.data sd).isLc ∨ core ∈ s.punishedCores then s.gen core - 1 else s.gen core
    | none => s.gen core - 1
  else samples core

/-- `ias_bw_gather_pmc`; `failed` are the cores that `ksched_poll_pmc` has nothing for -/
def bwGatherPmc (failed : Fin n → Bool) : Fin n → ℤ := fun core =>
  if core ∈ cfg.coresTbl ∧ samples core = s.gen core ∧ failed core then s.gen core - 1 else samples core

def sampled (start stop : Fin n → ℤ) (core : Fin n) : Bool := start core = stop core && start core = s.gen core

def missRate (start stop : Fin n → ℤ) (estimate : Fin n → ℚ) (sd : P) : ℚ :=
  ((cfg.coresTbl.filter fun core => s.cores core = some sd && sampled s start stop core).map estimate).sum

/-- `ias_bw_choose_victim`: the process and its worst core -/
def bwChooseVictim (start stop : Fin n → ℤ) (estimate : Fin n → ℚ) : Option (P × Fin n) :=
  let rate := missRate cfg s start stop estimate
  match best rate 0 (s.allProcs.filter fun sd =>
      !((s.data sd).threadsLimit = 0 || (s.data sd).threadsLimit ≤ (s.data sd).threadsGuaranteed) &&
        !(rate sd * cfg.coresTbl.length < cfg.bwThresh)) with
  | none => none
  | some victim =>
    (best estimate 0 (cfg.coresTbl.filter fun core => s.cores core = some victim)).map fun core => (victim, core)

/-- `ias_bw_throttle_core`, for the owner of the core -/
def bwThrottleCore (s : Sys σ n P) (sd : P) (core : Fin n) : Except Stop (Sys σ n P) := let d := s.tab.data sd
  let s := { s with tab := s.tab.setData sd { d with
    threadsLimit := max 0 (min (d.threadsLimit - 1) (d.threadsActive - 1)) } }
  match addKthreadOnCore L s core with
  | .error e => .error e
  | .ok (true, s) => .ok s
  | .ok (false, s) => .ok (idleOnCore L s core)

def bwPunish (s : Sys σ n P) (start stop : Fin n → ℤ) (estimate : Fin n → ℚ) : Except Stop (Sys σ n P) :=
  match bwChooseVictim cfg s.tab start stop estimate with
  | none => .ok s
  | some (sd, core) =>
    bwThrottleCore L { s with tab := s.tab.setData sd { s.tab.data sd with isBwlimited := true } } sd core

def bwRelax : Tables n P :=
  let candidates := s.allProcs.filter fun sd => (s.data sd).isBwlimited && (s.data sd).isCongested
  match candidates with
  | [] => s
  | sd :: sds =>
    let sd := sds.foldl (fun acc sd =>
      if (s.data sd).threadsLimit ≤ (s.data acc).threadsLimit then acc else sd) sd
    let d := s.data sd
    s.setData sd { d with
      threadsLimit := d.threadsLimit + 1
      isBwlimited := if d.threadsLimit + 1 ≥ d.threadsMax then false else d.isBwlimited }

def Tables.setBw (bw : Bw n) : Tables n P := { s with bw := bw }

structure BwFound (n : ℕ) where
  throttle : Bool
  failed : Fin n → Bool
  estimate : Fin n → ℚ

def bwPoll (s : Sys σ n P) (found : BwFound n) : Except Stop (Sys σ n P) := let bw := s.tab.bw
  match bw.state with
  | .relax =>
    if found.throttle then
      .ok { s with tab := s.tab.setBw { bw with state := .sample, start := bwRequestPmc cfg s.tab bw.start } }
    else .ok { s with tab := bwRelax s.tab }
  | .sample =>
    .ok { s with tab := s.tab.setBw {
      state := .punish
      start := bwGatherPmc cfg s.tab bw.start found.failed
      stop := bwRequestPmc cfg s.tab bw.stop } }
  | .punish =>
    let stop := bwGatherPmc cfg s.tab bw.stop found.failed
    if ¬found.throttle then .ok { s with tab := s.tab.setBw { bw with state := .relax, stop := stop } }
    else (bwPunish cfg L s bw.start stop found.estimate).map fun s' =>
      -- the two arrays are exchanged; what is left of `start` is overwritten
      { s' with tab := s'.tab.setBw {
          state := .punish, start := stop, stop := bwRequestPmc cfg s'.tab bw.start } }

/-! ## Events -/

inductive Event (σ : Type*) (n : ℕ) (P : Type*)
  | attach (p : P) (spec : Spec) (mem : Bool)
  | detach (p : P)
  | notifyCoreNeeded (p : P)
  | notifyCongested (p : P) (delay : Policy.Delay)
  /-- `ias_sched_poll` learns the time and the cores that went idle -/
  | reportIdle (now : ℕ) (idle : Finset (Fin n))
  | allocate (core : Fin n)
  | bwPoll (found : BwFound n)
  | htMeasure (measured : Fin n → ℚ)
  | htAdjust (core : Fin n)
  /-- `ias_sched_poll` tries to add a core for the first starved process -/
  | feedStarved
  /-- anything that happens in the layer below -/
  | below (low : σ)

def step (s : Sys σ n P) : Event σ n P → Except Stop (Sys σ n P)
  | .attach p spec mem =>
    if p ∉ s.tab.allProcs then .ok { s with tab := (attach cfg s.tab p spec mem).2 } else .error .misplaced
  | .detach p => if p ∈ s.tab.allProcs then .ok { s with tab := detach s.tab p } else .error .misplaced
  | .notifyCoreNeeded p =>
    if p ∈ s.tab.allProcs then .ok (notifyCoreNeeded cfg L s p) else .error .misplaced
  | .notifyCongested p delay =>
    if p ∈ s.tab.allProcs then .ok (notifyCongested cfg L s p delay) else .error .misplaced
  | .reportIdle now idle =>
    .ok { s with tab := { s.tab with nowUs := now, idleCores := s.tab.idleCores ∪ idle } }
  | .allocate core => allocate L s core
  | .bwPoll found => bwPoll cfg L s found
  | .htMeasure measured => .ok { s with tab := htMeasure cfg s.tab measured }
  | .htAdjust core => if cfg.noht then .error .misplaced else .ok (htAdjust cfg L s core)
  | .feedStarved =>
    match s.tab.starvedProcs with
    | [] => .ok s
    | sd :: _ => .ok (addKthread cfg L s sd).2
  | .below low => .ok { s with low := low }

/-- The events of `ias_ht_poll`, if `measured` are the budgets and `order` has the allowed cores sorted by these. -/
def htPollEvents (order : List (Fin n)) : List (Event σ n P) := let s' := htMeasure cfg s measured
  .htMeasure measured ::
    if (cfg.coresTbl.all fun core => s'.budgetUsed core = 0) && s.punishCount = s.relaxCount then []
    else order.map .htAdjust

/-- The events of the first part of `ias_sched_poll`. -/
def pollEvents (now : ℕ) (idle : Finset (Fin n)) : List (Event σ n P) :=
  .reportIdle now idle :: (List.finRange n).map .allocate

structure Initial (s : Tables n P) : Prop where
  allProcs : s.allProcs = []
  idleCores : s.idleCores = ∅
  reservedCores : ∀ c, c ∈ s.reservedCores ↔ cfg.allowed c = false
  cores : ∀ c, s.cores c = none
  starvedProcs : s.starvedProcs = []
  congestedProcs : s.congestedProcs = []
  punishedCores : s.punishedCores = ∅
  punishCount : s.punishCount = 0
  relaxCount : s.relaxCount = 0
  gen : ∀ c, s.gen c = 0
  bw : s.bw = ⟨.relax, fun _ => 0, fun _ => 0⟩

end Aspen.Ias
