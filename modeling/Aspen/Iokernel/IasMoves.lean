import Aspen.Iokernel.Ias

/-!
# What the interference-aware policy does to its tables

Whatever the policy does, its tables change by a few moves. An event makes some moves that give nothing to a
process that has nothing, and at most one more: it gives a core to a process, or marks one as congested. Each
move is written so that what it leaves alone is left alone by definition: `withMarks` changes the marks,
`withCores` the owners of the cores, `tuned` what nothing here depends on.
-/

namespace Aspen.Ias

open Function

variable {σ : Type*} {n : ℕ} {P : Type*} [DecidableEq P]

namespace Tables

variable {s s' s'' : Tables n P} {p q : P} {c core : Fin n} {o : Option P} {st co st' co' : P → Bool}

structure Static (s s' : Tables n P) : Prop where
  allProcs : s'.allProcs = s.allProcs
  reserved : s'.reservedCores = s.reservedCores
  isLc : ∀ p, (s'.data p).isLc = (s.data p).isLc
  mine : ∀ p, (s'.data p).reservedCores = (s.data p).reservedCores
  htPunishUs : ∀ p, (s'.data p).htPunishUs = (s.data p).htPunishUs

omit [DecidableEq P] in
lemma Static.refl (s : Tables n P) : Static s s := ⟨rfl, rfl, fun _ => rfl, fun _ => rfl, fun _ => rfl⟩

omit [DecidableEq P] in
lemma Static.trans (h : Static s s') (h' : Static s' s'') : Static s s'' where
  allProcs := h'.allProcs.trans h.allProcs
  reserved := h'.reserved.trans h.reserved
  isLc p := (h'.isLc p).trans (h.isLc p)
  mine p := (h'.mine p).trans (h.mine p)
  htPunishUs p := (h'.htPunishUs p).trans (h.htPunishUs p)

/-! ## Marks -/

def withMarks (s : Tables n P) (st co : P → Bool) (l l' : List P) : Tables n P :=
  { s with
    data := fun p => { s.data p with isStarved := st p, isCongested := co p }
    starvedProcs := l
    congestedProcs := l' }

structure Listed (s : Tables n P) : Prop where
  starved : Marked s.starvedProcs fun p => p ∈ s.allProcs ∧ (s.data p).isStarved = true
  congested : Marked s.congestedProcs fun p => p ∈ s.allProcs ∧ (s.data p).isCongested = true

def Marking (s s' : Tables n P) (st co : P → Bool) : Prop :=
  ∃ l l', s' = s.withMarks st co l l' ∧ (s.Listed → s'.Listed)

section

omit [DecidableEq P]

lemma Marking.refl (s : Tables n P) :
    Marking s s (fun q => (s.data q).isStarved) fun q => (s.data q).isCongested := ⟨_, _, rfl, id⟩

lemma Marking.congr (h : Marking s s' st co) (hst : ∀ q, st q = st' q) (hco : ∀ q, co q = co' q) :
    Marking s s' st' co' := by
  obtain rfl := funext hst
  obtain rfl := funext hco
  exact h

lemma Marking.trans (h : Marking s s' st co) (h' : Marking s' s'' st' co') : Marking s s'' st' co' := by
  obtain ⟨_, _, rfl, hl⟩ := h
  obtain ⟨_, _, rfl, hl'⟩ := h'
  exact ⟨_, _, rfl, fun h => hl' (hl h)⟩

lemma Marking.static (h : Marking s s' st co) : Static s s' := by
  obtain ⟨_, _, rfl, -⟩ := h
  exact ⟨rfl, rfl, fun _ => rfl, fun _ => rfl, fun _ => rfl⟩

end

lemma setStarved_eq (s : Tables n P) (p : P) (mark : Bool) (l : List P) :
    s.setStarved p mark l = s.withMarks (fun q => if q = p then mark else (s.data q).isStarved)
      (fun q => (s.data q).isCongested) l s.congestedProcs := by
  unfold setStarved withMarks
  congr
  exact update_eq_iff.2 ⟨by simp, fun q hq => by simp [hq]⟩

lemma setCongested_eq (s : Tables n P) (p : P) (mark : Bool) (l : List P) :
    s.setCongested p mark l = s.withMarks (fun q => (s.data q).isStarved)
      (fun q => if q = p then mark else (s.data q).isCongested) s.starvedProcs l := by
  unfold setCongested withMarks
  congr
  exact update_eq_iff.2 ⟨by simp, fun q hq => by simp [hq]⟩

lemma Marking.markStarved (hp : p ∈ s.allProcs) : Marking s (s.markStarved p)
    (fun q => if q = p then true else (s.data q).isStarved) fun q => (s.data q).isCongested := by
  unfold Tables.markStarved
  split
  · exact (Marking.refl s).congr (by grind) fun _ => rfl
  · rw [setStarved_eq]
    exact ⟨_, _, rfl, fun h => ⟨h.starved.concat (a := p) (by grind) (by grind [withMarks]), h.congested⟩⟩

lemma Marking.unmarkStarved (s : Tables n P) (p : P) : Marking s (s.unmarkStarved p)
    (fun q => if q = p then false else (s.data q).isStarved) fun q => (s.data q).isCongested := by
  unfold Tables.unmarkStarved
  split
  · exact (Marking.refl s).congr (by grind) fun _ => rfl
  · rw [setStarved_eq]
    exact ⟨_, _, rfl, fun h => ⟨h.starved.erase (by grind [withMarks]), h.congested⟩⟩

lemma Marking.markIfStarved (hp : p ∈ s.allProcs) : Marking s (s.markIfStarved p)
    (fun q => if q = p ∧ (s.data p).isLc = true ∧ (s.data p).threadsActive = 0 then true else (s.data q).isStarved)
    fun q => (s.data q).isCongested := by
  unfold Tables.markIfStarved
  split
  · exact (Marking.markStarved hp).congr (by grind) fun _ => rfl
  · exact (Marking.refl s).congr (by grind) fun _ => rfl

lemma Marking.markCongested (hp : p ∈ s.allProcs) : Marking s (s.markCongested p)
    (fun q => if q = p ∧ (s.data p).isLc = true ∧ (s.data p).threadsActive = 0 then true else (s.data q).isStarved)
    fun q => if q = p then true else (s.data q).isCongested := by
  have h := Marking.markIfStarved hp
  refine h.trans ?_
  obtain ⟨l, l', he, -⟩ := h
  unfold Tables.markCongested
  rw [he]
  dsimp only
  split
  · exact (Marking.refl _).congr (fun _ => rfl) (by grind [withMarks])
  · rw [setCongested_eq]
    exact ⟨_, _, rfl, fun h => ⟨h.starved, h.congested.cons (a := p) (by grind) (by grind [withMarks])⟩⟩

lemma Marking.unmarkCongested (s : Tables n P) (p : P) : Marking s (s.unmarkCongested p)
    (fun q => if q = p then false else (s.data q).isStarved)
    fun q => if q = p then false else (s.data q).isCongested := by
  have h := Marking.unmarkStarved s p
  refine h.trans ?_
  obtain ⟨l, l', he, -⟩ := h
  unfold Tables.unmarkCongested
  rw [he]
  dsimp only
  split
  · exact (Marking.refl _).congr (fun _ => rfl) (by grind [withMarks])
  · rw [setCongested_eq]
    exact ⟨_, _, rfl, fun h => ⟨h.starved, h.congested.erase (by grind [withMarks])⟩⟩

/-! ## Cores -/

def withCores (s : Tables n P) (cores : Fin n → Option P) (gen : Fin n → ℤ) (idle : Finset (Fin n)) (act : P → ℤ)
    (loc : P → Fin n → ℕ) : Tables n P :=
  { s with
    cores := cores
    gen := gen
    idleCores := idle
    data := fun p => { s.data p with threadsActive := act p, locLastUs := loc p } }

variable (s s' core o)

def Moved : Prop := ∃ gen idle act loc pun cnt,
    s' = { s.withCores (update s.cores core o) gen idle act loc with
      punishedCores := pun
      punishCount := cnt } ∧
    (∀ q, act q = (s.data q).threadsActive - (if s.cores core = some q then 1 else 0) + if o = some q then 1 else 0) ∧
    (∀ c, s.gen c ≤ gen c) ∧ (o ≠ none → s.gen core < gen core)

lemma cleanupCore_eq : ∃ loc, s.cleanupCore core = s.withCores (update s.cores core none) s.gen s.idleCores
      (fun q => (s.data q).threadsActive - if s.cores core = some q then 1 else 0) loc := by
  unfold Tables.cleanupCore withCores
  cases hc : s.cores core with
  | none =>
    have hu : update s.cores core none = s.cores := by rw [← hc, update_eq_self]
    exact ⟨fun q => (s.data q).locLastUs, by simp [hu]⟩
  | some p =>
    refine ⟨fun q => if q = p then update (s.data p).locLastUs core s.nowUs else (s.data q).locLastUs, ?_⟩
    dsimp only
    congr
    exact update_eq_iff.2 ⟨by simp, fun q hq => by simp [hq, Ne.symm hq]⟩

lemma Moved.cleanupCore : Moved s (s.cleanupCore core) core none := by
  obtain ⟨loc, he⟩ := cleanupCore_eq s core
  exact ⟨_, _, _, loc, _, _, he, fun _ => (Int.add_zero _).symm, fun _ => le_refl _, fun hn => absurd rfl hn⟩

variable {s s' core o}

lemma Moved.own (h : Moved s s' core none) (p : P) : Moved s (s'.own p core) core (some p) := by
  obtain ⟨gen, idle, act, loc, pun, cnt, rfl, hact, hle, -⟩ := h
  refine ⟨update gen core (gen core + 1), idle, update act p (act p + 1), loc, pun, cnt, ?_,
    fun q => ?_, fun c => ?_, fun _ => ?_⟩
  · unfold Tables.own withCores
    simp only [update_idem]
    congr
    exact update_eq_iff.2 ⟨by simp, fun q hq => by simp [hq]⟩
  · grind [update_apply]
  · grind [update_apply]
  · grind [update_apply]

lemma Moved.setIdle (h : Moved s s' core o) (idle pun : Finset (Fin n)) (cnt : BitVec 64) :
    Moved s { s' with idleCores := idle, punishedCores := pun, punishCount := cnt } core o := by
  obtain ⟨gen, _, act, loc, _, _, rfl, h⟩ := h
  exact ⟨gen, idle, act, loc, pun, cnt, rfl, h⟩

lemma Moved.vacate (s : Tables n P) (core : Fin n) : Moved s (s.vacate core) core none := by
  obtain ⟨gen, idle, act, loc, pun, cnt, he, hact, hle, -⟩ := Moved.cleanupCore s core
  refine ⟨update gen core (gen core + 1), insert core idle, act, loc, pun, cnt, ?_, hact, fun c => ?_,
    fun hn => absurd rfl hn⟩
  · unfold Tables.vacate
    rw [he]
    rfl
  · grind [update_apply]

variable (s p core)

lemma Moved.placehold : Moved s (s.placehold p core) core (some p) := ((Moved.cleanupCore s core).own p).setIdle _ _ _

lemma Moved.punish :
    Moved s ((s.placehold p core).punishCore core) core (some p) := (Moved.placehold s p core).setIdle _ _ _

/-- Before the process that gets the core is taken off the list of starved ones. -/
def run : Tables n P :=
  { (s.cleanupCore core).own p core with
    idleCores := ((s.cleanupCore core).own p core).idleCores.erase core }

lemma Moved.run : Moved s (s.run p core) core (some p) := ((Moved.cleanupCore s core).own p).setIdle _ _ _

variable {s p core}

lemma Moved.static (h : Moved s s' core o) : Static s s' := by
  obtain ⟨_, _, _, _, _, _, rfl, -⟩ := h
  exact ⟨rfl, rfl, fun _ => rfl, fun _ => rfl, fun _ => rfl⟩

variable (s core)

lemma cleanupCore_idleCores : (s.cleanupCore core).idleCores = s.idleCores := by
  obtain ⟨loc, he⟩ := cleanupCore_eq s core
  rw [he]
  rfl

lemma cleanupCore_punishedCores : (s.cleanupCore core).punishedCores = s.punishedCores := by
  obtain ⟨loc, he⟩ := cleanupCore_eq s core
  rw [he]
  rfl

variable {s core}

/-! ## The invariant -/

structure Books (s : Tables n P) : Prop where
  nodup : s.allProcs.Nodup
  owner : ∀ {c p}, s.cores c = some p → p ∈ s.allProcs
  counted : ∀ p ∈ s.allProcs, (s.data p).threadsActive = (holds s.cores p).card

def Sampled (cfg : Config n) (s : Tables n P) (a : Fin n → ℤ) : Prop :=
  ∀ c ∈ cfg.coresTbl, a c ≤ s.gen c ∧ ∀ p, s.cores c = some p → (s.data p).isLc = true → a c ≠ s.gen c

def Hungry (s : Tables n P) : Prop := ∀ p ∈ s.allProcs, (s.data p).isStarved = true →
    (s.data p).isLc = true ∧ (s.data p).isCongested = true ∧ (s.data p).threadsActive = 0

def Tallied (s : Tables n P) : Prop := s.punishCount - s.relaxCount = BitVec.ofNat 64 s.punishedCores.card

structure Sound (cfg : Config n) (s : Tables n P) : Prop where
  books : s.Books
  listed : s.Listed
  /-- only latency-critical processes have a budget -/
  budget : ∀ p ∈ s.allProcs, (s.data p).htPunishUs > 0 → (s.data p).isLc = true
  punished : s.Tallied
  start : s.Sampled cfg s.bw.start
  stop : s.Sampled cfg s.bw.stop

structure Inv (cfg : Config n) (s : Tables n P) : Prop extends Sound cfg s where
  hungry : s.Hungry

variable {cfg : Config n} {a : Fin n → ℤ}

lemma Books.active_pos (h : s.Books) (hc : s.cores c = some p) : 0 < (s.data p).threadsActive := by
  rw [h.counted p (h.owner hc)]
  exact Int.ofNat_lt.2 (Finset.card_pos.2 ⟨c, Holds.mem_holds.2 hc⟩)

lemma Books.moved (h : s.Books) (hm : Moved s s' core o) (ho : ∀ p, o = some p → p ∈ s.allProcs) : s'.Books := by
  obtain ⟨gen, idle, act, loc, pun, cnt, rfl, hact, -⟩ := hm
  refine ⟨h.nodup, fun {c p} (hc : update s.cores core o c = some p) => ?_, fun p hp => ?_⟩
  · by_cases he : c = core
    · rw [he, update_self] at hc
      exact ho p hc
    · rw [update_of_ne he] at hc
      exact h.owner hc
  · show act p = (holds (update s.cores core o) p).card
    rw [hact, h.counted p hp, Holds.card_update]

lemma Sampled.moved (h : s.Sampled cfg a) (hm : Moved s s' core o) : s'.Sampled cfg a := by
  obtain ⟨gen, idle, act, loc, pun, cnt, rfl, -, hle, hlt⟩ := hm
  intro c hc
  have hac := (h c hc).1
  refine ⟨hac.trans (hle c), fun p (hp : update s.cores core o c = some p) hlc (heq : a c = gen c) => ?_⟩
  have := hle c
  by_cases he : c = core
  · subst he
    rw [update_self] at hp
    have := hlt (by rw [hp]; nofun)
    omega
  · rw [update_of_ne he] at hp
    have := (h c hc).2 p hp hlc
    omega

lemma Tallied.cleanupCore (h : s.Tallied) : (s.cleanupCore core).Tallied := by
  obtain ⟨loc, he⟩ := cleanupCore_eq s core
  rw [he]
  exact h

lemma Sound.moved (h : s.Sound cfg) (hm : Moved s s' core o) (ho : ∀ p, o = some p → p ∈ s.allProcs)
    (hp : s'.Tallied) : s'.Sound cfg := by
  have hb := h.books.moved hm ho
  have hstart := h.start.moved hm
  have hstop := h.stop.moved hm
  obtain ⟨_, _, _, _, _, _, rfl, -⟩ := hm
  exact ⟨hb, ⟨h.listed.starved, h.listed.congested⟩, h.budget, hp, hstart, hstop⟩

omit [DecidableEq P] in
lemma Sampled.marking (h : s.Sampled cfg a) (hm : Marking s s' st co) : s'.Sampled cfg a := by
  obtain ⟨_, _, rfl, -⟩ := hm
  exact h

lemma Sound.marking (h : s.Sound cfg) (hm : Marking s s' st co) : s'.Sound cfg := by
  obtain ⟨_, _, rfl, hl⟩ := hm
  exact ⟨⟨h.books.nodup, h.books.owner, h.books.counted⟩, hl h.listed, h.budget, h.punished, h.start, h.stop⟩

lemma Inv.not_starved (h : s.Inv cfg) (hc : s.cores c = some p) : (s.data p).isStarved = false := by
  rw [← Bool.not_eq_true]
  intro hs
  exact (h.books.active_pos hc).ne' (h.hungry p (h.books.owner hc) hs).2.2

lemma Inv.moved (h : s.Inv cfg) (hm : Moved s s' core o)
    (ho : ∀ p, o = some p → p ∈ s.allProcs ∧ (s.data p).isStarved = false) (hp : s'.Tallied) : s'.Inv cfg := by
  refine ⟨h.toSound.moved hm (fun p he => (ho p he).1) hp, ?_⟩
  obtain ⟨gen, idle, act, loc, pun, cnt, rfl, hact, -⟩ := hm
  intro p hp (hst : (s.data p).isStarved)
  obtain ⟨hlc, hco, hzero⟩ := h.hungry p hp hst
  have hold : s.cores core ≠ some p := fun hc => by simp [h.not_starved hc] at hst
  have hnew : o ≠ some p := fun he => by simp [(ho p he).2] at hst
  refine ⟨hlc, hco, (hact p).trans ?_⟩
  rw [if_neg hold, if_neg hnew, hzero]
  rfl

lemma Sound.inv (h : s.Sound cfg) (hm : Marking s s' st co) (hst : ∀ q ∈ s.allProcs, st q →
    (s.data q).isLc ∧ co q ∧ (s.data q).threadsActive = 0) : s'.Inv cfg := by
  refine ⟨h.marking hm, ?_⟩
  obtain ⟨l, l', rfl, -⟩ := hm
  exact hst

lemma Inv.unmarkCongested (h : s.Inv cfg) : (s.unmarkCongested p).Inv cfg :=
  h.toSound.inv (.unmarkCongested s p) fun q hq _ => by grind [h.hungry q hq]

lemma Inv.markCongested (h : s.Inv cfg) (hp : p ∈ s.allProcs) : (s.markCongested p).Inv cfg :=
  h.toSound.inv (.markCongested hp) fun q hq _ => by grind [h.hungry q hq]

lemma Inv.grant (h : s.Inv cfg) (hp : p ∈ s.allProcs) : (s.grant p core).Inv cfg := by
  have hrun := Moved.run s p core
  refine (h.toSound.moved hrun ?_ h.punished.cleanupCore).inv (.unmarkStarved _ p) fun q hq hst => ?_
  · rintro q ⟨⟩
    exact hp
  · -- whoever is still marked had no core, so that the core was not taken from it
    obtain ⟨gen, idle, act, loc, pun, cnt, he, hact, -⟩ := hrun
    rw [he] at hq hst ⊢
    have hold : s.cores core = some q → (s.data q).isStarved = false := h.not_starved
    grind [withCores, h.hungry q hq]

/-! ## Moves -/

def tuned (s : Tables n P) (now : ℕ) (idle : Finset (Fin n)) (budget : Fin n → ℚ) (bwl : P → Bool) (lim : P → ℤ) :
    Tables n P :=
  { s with
    nowUs := now
    idleCores := s.idleCores ∪ idle
    budgetUsed := budget
    data := fun p => { s.data p with isBwlimited := bwl p, threadsLimit := lim p } }

/-- What an event does before anybody gets a core. Only a process that has a core gets a placeholder. -/
inductive Move (cfg : Config n) : Tables n P → Tables n P → Prop
  | tune {s : Tables n P} (now : ℕ) (idle : Finset (Fin n)) (budget : Fin n → ℚ) (bwl : P → Bool) (lim : P → ℤ) :
      Move cfg s (s.tuned now idle budget bwl lim)
  | sample {s : Tables n P} {bw : Bw n} : s.Sampled cfg bw.start → s.Sampled cfg bw.stop → Move cfg s (s.setBw bw)
  | unmark {s : Tables n P} (p : P) : Move cfg s (s.unmarkCongested p)
  | leave {s : Tables n P} {core : Fin n} : core ∉ s.punishedCores →
      (∀ p, s.cores core = some p → (s.data p).isCongested = false) → Move cfg s (s.cleanupCore core)
  | punish {s : Tables n P} {sd : P} {core : Fin n} : cfg.noht = false → s.cores core = some sd →
      (s.data sd).isLc = true → core ∈ (s.data sd).reservedCores → cfg.sibling core ∉ s.punishedCores →
      Move cfg s ((s.placehold sd (cfg.sibling core)).punishCore (cfg.sibling core))
  | relax {s : Tables n P} {core : Fin n} : core ∈ s.punishedCores → Move cfg s (s.relaxCore core)
  | vacate {s : Tables n P} {core : Fin n} :
      (core ∈ s.punishedCores → ∃ p, s.cores core = some p ∧ (s.data p).isLc = false) →
      Move cfg s (s.vacate core)

abbrev Moves (cfg : Config n) : Tables n P → Tables n P → Prop := Relation.ReflTransGen (Move cfg)

def Takeable (s : Tables n P) (core : Fin n) : Prop := core ∈ s.punishedCores → s.cores core = none ∨
    ∃ q, s.cores core = some q ∧ (core ∉ (s.data q).reservedCores ∨ (s.data q).isLc = false)

inductive Last (s : Tables n P) : Tables n P → Prop
  | none : Last s s
  | grant {p : P} {core : Fin n} : p ∈ s.allProcs → s.Takeable core → Last s (s.grant p core)
  | mark {p : P} : p ∈ s.allProcs → Last s (s.markCongested p)

def Did (cfg : Config n) (s s' : Tables n P) : Prop := ∃ s₁ s₂, Moves cfg s s₁ ∧ Last s₁ s₂ ∧
    (s' = s₂ ∨ ∃ bw, s' = s₂.setBw bw ∧ s₂.Sampled cfg bw.start ∧ s₂.Sampled cfg bw.stop)

lemma Did.of_moves (h : Moves cfg s s') : Did cfg s s' := ⟨s', s', h, .none, .inl rfl⟩

lemma Move.static (h : Move cfg s s') : Static s s' := by
  cases h with
  | tune | sample | relax => exact ⟨rfl, rfl, fun _ => rfl, fun _ => rfl, fun _ => rfl⟩
  | unmark p => exact (Marking.unmarkCongested s p).static
  | leave => exact (Moved.cleanupCore s _).static
  | punish => exact (Moved.punish s _ _).static
  | vacate => exact (Moved.vacate s _).static

lemma static_of_moves (h : Moves cfg s s') : Static s s' := by
  induction h with
  | refl => exact .refl s
  | tail _ hstep ih => exact ih.trans hstep.static

lemma Last.static (h : Last s s') : Static s s' := by
  cases h with
  | none => exact .refl s
  | grant => exact (Moved.run s _ _).static.trans (Marking.unmarkStarved _ _).static
  | mark hp => exact (Marking.markCongested hp).static

lemma Did.static (h : Did cfg s s') : Static s s' := by
  obtain ⟨s1, s2, hm, hl, he⟩ := h
  have h2 := (static_of_moves hm).trans hl.static
  rcases he with rfl | ⟨bw, rfl, -, -⟩
  · exact h2
  · exact h2.trans ⟨rfl, rfl, fun _ => rfl, fun _ => rfl, fun _ => rfl⟩

/-! ### The invariant is kept -/

lemma Inv.sample (h : s.Inv cfg) {bw : Bw n} (hs : s.Sampled cfg bw.start) (ht : s.Sampled cfg bw.stop) :
    (s.setBw bw).Inv cfg :=
  ⟨⟨⟨h.books.nodup, h.books.owner, h.books.counted⟩, ⟨h.listed.starved, h.listed.congested⟩, h.budget, h.punished,
    hs, ht⟩, h.hungry⟩

lemma Inv.move (h : s.Inv cfg) (hm : Move cfg s s') : s'.Inv cfg := by
  cases hm with
  | tune =>
    exact ⟨⟨⟨h.books.nodup, h.books.owner, h.books.counted⟩, ⟨h.listed.starved, h.listed.congested⟩, h.budget,
      h.punished, h.start, h.stop⟩, h.hungry⟩
  | sample hs ht => exact h.sample hs ht
  | unmark p => exact h.unmarkCongested
  | leave => exact h.moved (.cleanupCore s _) nofun h.punished.cleanupCore
  | @punish sd core _ hc _ _ hp =>
    refine h.moved (.punish s sd (cfg.sibling core)) ?_ ?_
    · rintro q ⟨⟩
      exact ⟨h.books.owner hc, h.not_starved hc⟩
    · have hsame : (s.cleanupCore (cfg.sibling core)).Tallied := h.punished.cleanupCore
      have hcard := Finset.card_insert_of_notMem ((cleanupCore_punishedCores s (cfg.sibling core)).symm ▸ hp)
      show (s.cleanupCore (cfg.sibling core)).punishCount + 1 - (s.cleanupCore (cfg.sibling core)).relaxCount =
        BitVec.ofNat 64 (insert (cfg.sibling core) (s.cleanupCore (cfg.sibling core)).punishedCores).card
      rw [hcard, BitVec.ofNat_add, ← show _ = _ from hsame]
      bv_omega
  | @relax core hc =>
    refine ⟨⟨⟨h.books.nodup, h.books.owner, h.books.counted⟩, ⟨h.listed.starved, h.listed.congested⟩, h.budget,
      ?_, h.start, h.stop⟩, h.hungry⟩
    have hcard := congrArg (BitVec.ofNat 64) (Finset.card_erase_add_one hc)
    rw [BitVec.ofNat_add, ← show _ = _ from h.punished] at hcard
    show s.punishCount - (s.relaxCount + 1) = BitVec.ofNat 64 (s.punishedCores.erase core).card
    bv_omega
  | vacate => exact h.moved (.vacate s _) nofun h.punished.cleanupCore

lemma Inv.moves (h : s.Inv cfg) (hm : Moves cfg s s') : s'.Inv cfg := by
  induction hm with
  | refl => exact h
  | tail _ hstep ih => exact ih.move hstep

lemma Inv.last (h : s.Inv cfg) (hl : Last s s') : s'.Inv cfg := by
  cases hl with
  | none => exact h
  | grant hp _ => exact h.grant hp
  | mark hp => exact h.markCongested hp

lemma Inv.did (h : s.Inv cfg) (hd : Did cfg s s') : s'.Inv cfg := by
  obtain ⟨s1, s2, hm, hl, he⟩ := hd
  have h2 := (h.moves hm).last hl
  rcases he with rfl | ⟨bw, rfl, hs, ht⟩
  · exact h2
  · exact h2.sample hs ht

lemma Sampled.move (h : s.Sampled cfg a) (hm : Move cfg s s') : s'.Sampled cfg a := by
  cases hm with
  | tune | sample | relax => exact h
  | unmark p => exact h.marking (.unmarkCongested s p)
  | leave => exact h.moved (.cleanupCore s _)
  | punish => exact h.moved (.punish s _ _)
  | vacate => exact h.moved (.vacate s _)

lemma Sampled.moves (h : s.Sampled cfg a) (hm : Moves cfg s s') : s'.Sampled cfg a := by
  induction hm with
  | refl => exact h
  | tail _ hstep ih => exact ih.move hstep

lemma Sampled.last (h : s.Sampled cfg a) (hl : Last s s') : s'.Sampled cfg a := by
  cases hl with
  | none => exact h
  | grant => exact (h.moved (.run s _ _)).marking (.unmarkStarved _ _)
  | mark hp => exact h.marking (.markCongested hp)

end Tables

end Aspen.Ias
