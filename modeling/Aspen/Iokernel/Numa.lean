import Aspen.Iokernel.Policy

/-!
# The policy for several NUMA nodes

The rules of `numa.c`. A process has a preferred socket and remembers the cores it left last; the choice of a core looks
for an active hyperthread, then on the preferred socket, then anywhere. Unlike the simple policy it does not ask
whether the sibling of a core is allowed, nor whether a process has a thread to run.
-/

namespace Aspen.Policy.Numa

open Option
open scoped Run

variable {σ C P : Type*} [DecidableEq C] [DecidableEq P]

def nrecent : ℕ := 4

structure Extra (C : Type*) where
  preferredSocket : ℤ
  recentCores : List C

structure Nodes (C : Type*) where
  /-- `socket_state`; the index is not checked -/
  sockets : ℤ → C → Bool
  numaCount : ℕ
  /-- the first entry of `sched_cores_tbl` -/
  first : C

variable (cfg : Iokernel.Config C) (nodes : Nodes C) (cpus : List C)

def chooseRecent (s : Tables C P (Extra C)) (p : P) (subset : C → Bool) : List C → Option C
  | [] => none
  | core :: rest =>
    if ¬subset core then chooseRecent s p subset rest
    else if s.canTake p core then some core
    else if cfg.noht then chooseRecent s p subset rest
    else if ¬subset (cfg.sibling core) then chooseRecent s p subset rest
    else if s.canTake p (cfg.sibling core) then some (cfg.sibling core)
    else chooseRecent s p subset rest

variable (s : Tables C P (Extra C))

def chooseCoreInSubset (p : P) (subset : C → Bool) : Option C :=
  chooseRecent cfg s p subset (s.data p).extra.recentCores <|>
    (cpus.find? fun core => s.idleCores core && subset core) <|>
    cpus.find? fun core => subset core && (s.cores core).isSome && s.canTake p core

/-- The first stage of `numa_choose_core`, a matching active hyperthread. -/
def chooseSibling (p : P) : Option C := if cfg.noht then none
  else (cfg.coresTbl.find? fun core => s.cores core = some p && s.canTake p (cfg.sibling core)).map cfg.sibling

def chooseCore (p : P) : Option C := chooseSibling cfg s p <|>
    chooseCoreInSubset cfg cpus s p
      (fun core => cfg.allowed core && nodes.sockets (s.data p).extra.preferredSocket core) <|>
    if nodes.numaCount > 1 then chooseCoreInSubset cfg cpus s p cfg.allowed else none

def chooseKthread (core : C) : Option P :=
  chooseLocal cfg s (fun p => (s.data p).isCongested) core <|> s.congestedProcs.head?

def rules : Rules σ C P (Extra C) where
  chooseCore _ := chooseCore cfg nodes cpus
  chooseKthread _ := chooseKthread cfg
  setsWaking := false
  leave x core := { x with recentCores := core :: x.recentCores.take (nrecent - 1) }
  init spec := ⟨spec.preferredSocket.toInt, List.replicate nrecent nodes.first⟩

structure Initial (s : Tables C P (Extra C)) : Prop where
  tables : s.Initial
  idle : s.idleCores = cfg.allowed

variable {cfg} {nodes} {cpus}

omit [DecidableEq C] in
lemma sane_rules : (rules (σ := σ) cfg nodes cpus : Rules σ C P (Extra C)).Sane where
  kthread {low s core p} h := by
    have hh : chooseKthread cfg s core = some p := h
    rcases (orElse_eq_some _ _ _).1 hh with h | ⟨-, h⟩
    · exact (known_of_chooseLocal h).imp_right .inl
    · exact .inr (.inr (List.mem_of_head? h))

/-! ## Cores that are allowed -/

variable {s : Tables C P (Extra C)} {p : P}

section

variable {subset : C → Bool} {core : C}

omit [DecidableEq C] in
lemma of_chooseRecent {l : List C} (h : chooseRecent cfg s p subset l = some core) :
    subset core ∧ s.canTake p core = true := by
  induction l with
  | nil => cases h
  | cons c l ih =>
    unfold chooseRecent at h
    split_ifs at h with hc ht _ hc' ht'
    · cases h
      exact ⟨hc, ht⟩
    · exact ih h
    · cases h
      exact ⟨hc', ht'⟩
    all_goals exact ih h

omit [DecidableEq C] in
lemma of_chooseCoreInSubset (hidle : ∀ c, s.idleCores c → s.cores c = none)
    (h : chooseCoreInSubset cfg cpus s p subset = some core) : subset core ∧ s.canTake p core = true := by
  rcases (orElse_eq_some _ _ _).1 h with h | ⟨-, h⟩
  · exact of_chooseRecent h
  rcases (orElse_eq_some _ _ _).1 h with h | ⟨-, h⟩
  · have hc := List.find?_some h
    simp only [Bool.and_eq_true] at hc
    exact ⟨hc.2, by rw [Tables.canTake, hidle core hc.1]⟩
  · have hc := List.find?_some h
    simp only [Bool.and_eq_true] at hc
    exact ⟨hc.1.1, hc.2⟩

/-- A core that is marked idle, or that the process may take from another. -/
def Free (s : Tables C P (Extra C)) (p : P) (core : C) : Prop :=
  s.idleCores core = true ∨ s.cores core ≠ none ∧ s.canTake p core = true

/-- One of the recent cores, or its sibling, can be taken. -/
def Recent (cfg : Iokernel.Config C) (s : Tables C P (Extra C)) (p : P) (subset : C → Bool) (l : List C) : Prop :=
  ∃ core ∈ l, subset core = true ∧ (s.canTake p core = true ∨
    cfg.noht = false ∧ subset (cfg.sibling core) = true ∧ s.canTake p (cfg.sibling core) = true)

omit [DecidableEq C] in
lemma chooseRecent_eq_none {l : List C} : chooseRecent cfg s p subset l = none ↔ ¬ Recent cfg s p subset l := by
  induction l with
  | nil => exact iff_of_true rfl nofun
  | cons c l ih =>
    unfold chooseRecent
    have hcons : Recent cfg s p subset (c :: l) ↔ (subset c = true ∧ (s.canTake p c = true ∨
        cfg.noht = false ∧ subset (cfg.sibling c) = true ∧ s.canTake p (cfg.sibling c) = true)) ∨
        Recent cfg s p subset l := by simp only [Recent, List.mem_cons, exists_eq_or_imp]
    split_ifs with hc ht hht hc' ht' <;> simp_all

omit [DecidableEq C] in
lemma chooseCoreInSubset_eq_none : chooseCoreInSubset cfg cpus s p subset = none ↔
    ¬ Recent cfg s p subset (s.data p).extra.recentCores ∧ ∀ core ∈ cpus, subset core = true → ¬ Free s p core := by
  unfold chooseCoreInSubset Free
  rw [orElse_eq_none, orElse_eq_none, chooseRecent_eq_none, List.find?_eq_none, List.find?_eq_none,
    ← forall₂_and]
  refine and_congr_right fun _ => forall₂_congr fun core _ => ?_
  cases hs : subset core <;> simp [isSome_iff_ne_none]

end

/-- The sibling that the first stage chooses is allowed. -/
def Paired (cfg : Iokernel.Config C) (s : Tables C P (Extra C)) (p : P) : Prop :=
  cfg.noht = true ∨ ∀ c, cfg.coresTbl.find? (fun core => s.cores core = some p && s.canTake p (cfg.sibling core)) =
    some c → cfg.allowed (cfg.sibling c) = true

/-- There are several sockets, or an earlier stage chooses a core, or there is none to choose. -/
def Searched (cfg : Iokernel.Config C) (nodes : Nodes C) (s : Tables C P (Extra C)) (p : P) : Prop :=
  let preferred core := cfg.allowed core && nodes.sockets (s.data p).extra.preferredSocket core
  1 < nodes.numaCount ∨
    (cfg.noht = false ∧ ∃ c ∈ cfg.coresTbl, s.cores c = some p ∧ s.canTake p (cfg.sibling c) = true) ∨
    Recent cfg s p preferred (s.data p).extra.recentCores ∨ (∃ core, preferred core = true ∧ Free s p core) ∨
    ∀ core, cfg.allowed core = true → ¬ Free s p core

omit [DecidableEq C] in
lemma chooseSibling_eq_none : chooseSibling cfg s p = none ↔
    ¬ (cfg.noht = false ∧ ∃ c ∈ cfg.coresTbl, s.cores c = some p ∧ s.canTake p (cfg.sibling c) = true) := by
  unfold chooseSibling
  split_ifs with hht <;> simp [hht]

/-- A process gets a core that is allowed and that it may take, or there is none, just if the sibling that may be chosen
first is allowed and the search does not end with the preferred socket too early. -/
theorem chooseCore_allowed {n : ℕ} (cfg : Iokernel.Config (Fin n)) (nodes : Nodes (Fin n))
    (s : Tables (Fin n) P (Extra (Fin n))) (p : P) (hidle : ∀ c, s.idleCores c = true → s.cores c = none) :
    (match chooseCore cfg nodes (List.finRange n) s p with
    | some core => cfg.allowed core = true ∧ s.canTake p core = true
    | none => ∀ core, cfg.allowed core = true → ¬ Free s p core) ↔ Paired cfg s p ∧ Searched cfg nodes s p := by
  cases hsib : chooseSibling cfg s p with
  | some core =>
    -- the first stage chooses, and the core is allowed or not
    have hsearched : Searched cfg nodes s p :=
      .inr (.inl (not_not.1 fun hno => absurd (chooseSibling_eq_none.2 hno) (by simp [hsib])))
    rw [chooseCore, hsib, and_iff_left hsearched]
    unfold chooseSibling at hsib
    split at hsib
    · cases hsib
    · rename_i hht
      obtain ⟨c, hf, rfl⟩ := map_eq_some_iff.1 hsib
      have hp := List.find?_some hf
      simp only [Bool.and_eq_true, decide_eq_true_eq] at hp
      simp [Paired, hht, hf, hp.2]
  | none =>
    have hno := chooseSibling_eq_none.1 hsib
    have hpaired : Paired cfg s p := by
      rw [chooseSibling] at hsib
      split at hsib
      · exact .inl ‹_›
      · exact .inr fun c hf => by simp [hf] at hsib
    rw [and_iff_right hpaired, chooseCore, hsib, Option.orElse_eq_orElse, Option.orElse_eq_or, none_or]
    cases hpref : chooseCoreInSubset cfg (List.finRange n) s p
        fun core => cfg.allowed core && nodes.sockets (s.data p).extra.preferredSocket core with
    | some core =>
      obtain ⟨ha, ht⟩ := of_chooseCoreInSubset hidle hpref
      refine iff_of_true ⟨(Bool.and_eq_true_iff.1 ha).1, ht⟩ ?_
      by_contra hs
      simp only [Searched, not_or, not_exists, not_and] at hs
      rw [chooseCoreInSubset_eq_none.2 ⟨hs.2.2.1, fun core _ => hs.2.2.2.1 core⟩] at hpref
      cases hpref
    | none =>
      obtain ⟨hrecent, hfree⟩ := chooseCoreInSubset_eq_none.1 hpref
      rw [Option.orElse_eq_or, none_or]
      split_ifs with hn
      · refine iff_of_true ?_ (.inl hn)
        cases hall : chooseCoreInSubset cfg (List.finRange n) s p cfg.allowed with
        | some core => exact of_chooseCoreInSubset hidle hall
        | none => exact fun core => (chooseCoreInSubset_eq_none.1 hall).2 core (List.mem_finRange core)
      · refine ⟨fun hnone => .inr (.inr (.inr (.inr hnone))), ?_⟩
        rintro (h | h | h | ⟨core, hcore, h⟩ | h)
        · exact absurd h hn
        · exact absurd h hno
        · exact absurd h hrecent
        · exact absurd h (hfree core (List.mem_finRange core) hcore)
        · exact h

def siblings (snd noht : Bool) : Iokernel.Config (Fin 2) := ⟨fun c => c = 0 || snd, fun c => 1 - c, noht, [0]⟩

def oneNode : Nodes (Fin 2) := ⟨fun i _ => i = 0, 1, 0⟩

def firstCore (socket : ℤ) (idle : Bool) : Tables (Fin 2) Unit (Extra (Fin 2)) where
  cores c := if c = 0 then some () else none
  hist _ := List.replicate nhist none
  idleCores c := c = 1 && idle
  congestedProcs := []
  data _ := ⟨false, false, 0, 0, 2, 1, ⟨socket, List.replicate nrecent 0⟩⟩
  attached _ := true

theorem chooseCore_allowed_sibling :
    chooseCore (siblings true false) oneNode (List.finRange 2) (firstCore 0 true) () = some 1 ∧
    (siblings true false).allowed 1 = true := by
  have hc : chooseCore (siblings true false) oneNode (List.finRange 2) (firstCore 0 true) () = some 1 := by decide
  have h := (chooseCore_allowed (siblings true false) oneNode (firstCore 0 true) () (by decide)).2
    ⟨.inr (by decide), .inr (.inl ⟨rfl, 0, by decide, rfl, by decide⟩)⟩
  rw [hc] at h
  exact ⟨hc, h.1⟩

/-- The process gets the second core although it is not allowed; and with one socket, a process that prefers another one
finds no core although one is idle. -/
theorem chooseCore_disallowed :
    (chooseCore (siblings false false) oneNode (List.finRange 2) (firstCore 0 false) () = some 1 ∧
      (siblings false false).allowed 1 = false) ∧
    chooseCore (siblings true true) oneNode (List.finRange 2) (firstCore 1 true) () = none ∧
      (siblings true true).allowed 1 = true ∧ (firstCore 1 true).idleCores 1 = true := by
  decide

end Aspen.Policy.Numa
