import Aspen.Iokernel.Cores

/-!
# What a policy sees of the cores

A policy gives a core to a process by asking for one of its threads to be run there, and learns from `sched_poll` which
cores went idle. In between it goes by its own table. Here is what that table can rely on: the thread on a core, in
the sense of `sched_get_thread_on_core`, stays there until another one is asked for or the core is reported as idle.
-/

namespace Aspen.Iokernel

open Function Finset

variable {C P : Type*}

def CoreState.thread (cs : CoreState P) : Option (Thread P) := if cs.pending then cs.pendingTh else cs.curTh

def Sys.onCore (s : Sys C P) (core : C) : Option (Thread P) := (s.cores core).thread

variable [DecidableEq C] [DecidableEq P]

variable (cfg : Config C) (s : Sys C P) (found : Found C P)

/-- The loop body of the fast pass of `sched_poll`, with the bitmap of the cores that went idle. -/
def pollCore (x : Sys C P × (C → Bool)) (core : C) : Sys C P × (C → Bool) := let s := pollRunDone x.1 core found
  let s' := pollIdle s core found
  (s', if !(s.cores core).idle && (s'.cores core).idle then update x.2 core true else x.2)

def pollPass : Sys C P × (C → Bool) := cfg.coresTbl.foldl (pollCore found) (s, fun _ => false)

lemma pollPass_fst : (pollPass cfg s found).1 = schedPoll cfg s found := by
  unfold pollPass schedPoll
  generalize (fun _ : C => false) = idle
  induction cfg.coresTbl generalizing s idle with
  | nil => rfl
  | cons core cores ih => exact ih _ _

/-! ## What stays -/

def CoreState.Armed (cs : CoreState P) : Prop := cs.pending = true → cs.wait = true

/-- What a process was attached with stays, and so does the thread on a core, but for the cores in `S`. -/
structure Upkeep (S : C → Prop) (s s' : Sys C P) : Prop where
  threadCount : ∀ q, (s'.procs q).threadCount = (s.procs q).threadCount
  attached : ∀ q, (s'.procs q).attached = (s.procs q).attached
  armed : ∀ c, (s.cores c).Armed → (s'.cores c).Armed
  onCore : ∀ c, S c ∨ s'.onCore c = s.onCore c

namespace Upkeep

variable {S S' S'' : C → Prop} {s s' s'' : Sys C P} {c core : C} {found : Found C P}

omit [DecidableEq C] [DecidableEq P] in
lemma refl (s : Sys C P) : Upkeep S s s := ⟨fun _ => rfl, fun _ => rfl, fun _ => id, fun _ => .inr rfl⟩

omit [DecidableEq C] [DecidableEq P] in
lemma trans (h : Upkeep S s s') (h' : Upkeep S' s' s'') (hS : ∀ c, S c ∨ S' c → S'' c) : Upkeep S'' s s'' where
  threadCount q := (h'.threadCount q).trans (h.threadCount q)
  attached q := (h'.attached q).trans (h.attached q)
  armed c hc := h'.armed c (h.armed c hc)
  onCore c := by
    rcases h.onCore c with hc | hc
    · exact .inl (hS c (.inl hc))
    · exact (h'.onCore c).imp (fun hc' => hS c (.inr hc')) fun hc' => hc'.trans hc

omit [DecidableEq P] in
lemma setCore (h : Upkeep S s s') {cs : CoreState P} (ha : (s.cores core).Armed → cs.Armed)
    (hth : S core ∨ cs.thread = s.onCore core) : Upkeep S s (s'.setCore core cs) := by
  have hcores (c : C) : (s'.setCore core cs).cores c = if c = core then cs else s'.cores c := update_apply ..
  refine ⟨h.threadCount, h.attached, fun c hc => ?_, fun c => ?_⟩
  · rw [hcores]
    split
    · rename_i he
      exact ha (he ▸ hc)
    · exact h.armed c hc
  · unfold Sys.onCore
    rw [hcores]
    split
    · rename_i he
      rw [he]
      exact hth
    · exact h.onCore c

omit [DecidableEq C] in
lemma setProc {p : P} {pr : Proc C} (hn : pr.threadCount = (s.procs p).threadCount)
    (ha : pr.attached = (s.procs p).attached) : Upkeep S s (s.setProc p pr) := by
  refine ⟨fun q => ?_, fun q => ?_, fun _ => id, fun _ => .inr rfl⟩ <;> by_cases hq : q = p
  · rw [hq, Sys.procs_setProc, hn]
  · rw [Sys.procs_setProc_of_ne _ _ hq]
  · rw [hq, Sys.procs_setProc, ha]
  · rw [Sys.procs_setProc_of_ne _ _ hq]

omit [DecidableEq C] in
lemma attached_unpollThread (p : Proc C) (j : ℕ) : (p.unpollThread j).attached = p.attached := by
  unfold Proc.unpollThread
  split <;> rfl

omit [DecidableEq C] in
lemma start (s : Sys C P) (th : Thread P) (core : C) : Upkeep S s (s.start th core) := by
  refine setProc (Proc.start_same _ _ _).threadCount ?_
  unfold Proc.start Proc.schedEnableKthread Proc.pollThread
  split
  · rfl
  · split <;> rfl

omit [DecidableEq C] in
lemma stop (s : Sys C P) (th : Thread P) (drained : Thread P → Bool) : Upkeep S s (s.stop th drained) := by
  refine setProc (Proc.stop_same _ _ _).threadCount ?_
  unfold Proc.stop Proc.schedDisableKthread
  split
  · exact attached_unpollThread _ _
  · rfl

omit [DecidableEq C] in
lemma stopIn (s : Sys C P) (x : Option (Thread P)) (drained : Thread P → Bool) : Upkeep S s (s.stopIn x drained) := by
  cases x with
  | none => exact refl s
  | some th => exact stop s th drained

/-! ## Requests -/

lemma schedRun (s : Sys C P) (th : Option (Thread P)) (core : C) (drained : Thread P → Bool) :
    Upkeep (· = core) s (schedRun s th core drained) := by
  unfold Iokernel.schedRun
  dsimp only
  split
  · rename_i hw
    exact (stopIn s _ drained).setCore (fun _ _ => hw) (.inl rfl)
  · exact (refl s).setCore (fun _ _ => rfl) (.inl rfl)

lemma schedRunOnCore (s : Sys C P) (cfg : Config C) (p : P) (core : C) (drained : Thread P → Bool) :
    Upkeep (· = core) s (schedRunOnCore cfg s p core drained) := by
  unfold Iokernel.schedRunOnCore
  split
  · exact refl s
  · split
    · exact (start s _ core).trans (schedRun _ _ core drained) fun c => or_self_iff.1
    · exact refl s

/-! ## Polling -/

lemma pollRunDone (s : Sys C P) (core : C) (found : Found C P) : Upkeep S s (pollRunDone s core found) := by
  unfold Iokernel.pollRunDone
  dsimp only
  split
  · refine (stopIn s _ found.drained).setCore (fun _ => ?_) (.inr ?_)
    · split
      · exact nofun
      · rename_i hp
        exact fun hp' => absurd hp' hp
    · split
      · rename_i hp
        exact (if_pos hp).symm
      · rfl
  · exact refl s

omit [DecidableEq P] in
lemma schedTryFastRewake {th : Thread P} (h : schedTryFastRewake s th found = some s') : Upkeep S s s' := by
  unfold Iokernel.schedTryFastRewake at h
  split at h
  · cases h
  · split at h
    · cases h
      exact (refl s).setCore (fun _ _ => rfl) (.inr rfl)
    · cases h
      exact refl s

lemma pollIdle (s : Sys C P) (core : C) (found : Found C P) :
    Upkeep (fun c => c = core ∧ (s.cores core).idle = false ∧ ((pollIdle s core found).cores core).idle = true) s
      (pollIdle s core found) := by
  unfold Iokernel.pollIdle
  dsimp only
  split
  · rename_i hw
    have hidle : (s.cores core).idle = false := Bool.not_eq_true _ ▸ hw.2.1
    have hset (s : Sys C P) {cs : CoreState P} : ((s.setCore core cs).cores core) = cs := update_self ..
    split
    · split
      · rename_i s' hs'
        exact schedTryFastRewake hs'
      · exact (stop s _ found.drained).setCore id (.inl ⟨rfl, hidle, by rw [hset]⟩)
    · exact (refl s).setCore id (.inl ⟨rfl, hidle, by rw [hset]⟩)
  · exact refl s

lemma pollPass (s : Sys C P) (cfg : Config C) (found : Found C P) :
    Upkeep (fun c => (pollPass cfg s found).2 c = true) s (pollPass cfg s found).1 := by
  have key (cores : List C) : ∀ (s : Sys C P) (idle : C → Bool),
      (∀ c, idle c → (cores.foldl (pollCore found) (s, idle)).2 c) ∧
        Upkeep (fun c => (cores.foldl (pollCore found) (s, idle)).2 c = true) s
          (cores.foldl (pollCore found) (s, idle)).1 := by
    induction cores with
    | nil => exact fun s idle => ⟨fun _ => id, refl s⟩
    | cons core cores ih =>
      intro s idle
      obtain ⟨hmono, hup⟩ := ih (pollCore found (s, idle) core).1 (pollCore found (s, idle) core).2
      refine ⟨fun c hc => hmono c ?_, (pollRunDone s core found (S := fun _ => False)).trans
        ((pollIdle _ core found).trans hup fun c hc => hc.elim (fun hc => hmono c ?_) id) fun c => or_iff_right id |>.mp⟩
      · unfold Iokernel.pollCore
        dsimp only
        split
        · rw [update_apply, hc, ite_self]
        · exact hc
      · -- the core is reported here
        obtain ⟨rfl, hbefore, hafter⟩ := hc
        unfold Iokernel.pollCore
        dsimp only
        rw [hbefore, hafter]
        exact update_self ..
  exact (key cfg.coresTbl s _).2

end Upkeep

lemma schedRunOnCore_onCore {s : Sys C P} {core : C} (h : (s.cores core).Armed) {cfg : Config C} {p : P}
    {drained : Thread P → Bool} (hp : ¬((s.procs p).idleThreads = [] ∨ ¬cfg.allowed core)) {j : ℕ}
    (hj : schedPickKthread cfg (s.procs p) core = some j) :
    (schedRunOnCore cfg s p core drained).onCore core = some ⟨p, j⟩ := by
  have hset (s : Sys C P) {cs : CoreState P} : (s.setCore core cs).onCore core = cs.thread :=
    congrArg CoreState.thread (update_self ..)
  unfold schedRunOnCore schedRun
  rw [if_neg hp, hj]
  dsimp only
  split
  · rw [hset]
    rfl
  · rename_i hw
    rw [hset]
    exact if_neg fun hpend => hw (h hpend)

omit [DecidableEq C] in
lemma Proc.Refs.not_attached {p : Proc C} {n : ℕ} (h : p.Refs n) (hp : p.ref = 0) : p.attached = false := by
  have href := h.ref
  rw [hp] at href
  cases ha : p.attached with
  | false => rfl
  | true =>
    rw [ha, Bool.toNat_true] at href
    omega

/-! ## Counting -/

omit [DecidableEq C] in
lemma Proc.Books.activeThreadCount_le {p : Proc C} (h : p.Books) : p.activeThreadCount ≤ p.threadCount := by
  have hinj : Set.InjOn p.activeThreads (Finset.range p.activeThreadCount) := by
    intro i hi i' hi' he
    rw [← (h.dense.entry i (mem_range.1 hi)).2, ← (h.dense.entry i' (mem_range.1 hi')).2]
    exact congrArg (fun j => (p.threads j).atIdx) he
  have hmaps : Set.MapsTo p.activeThreads (Finset.range p.activeThreadCount) (Finset.range p.threadCount) := by
    intro i hi
    exact mem_range.2 (h.active_lt (h.dense.entry i (mem_range.1 hi)).1)
  have hcard := card_le_card_of_injOn _ hmaps hinj
  rwa [card_range, card_range] at hcard

omit [DecidableEq C] in
lemma Inv.card_le [Fintype C] {s : Sys C P} (h : Inv s none) {p : P} {cores : Finset C}
    (hon : ∀ c ∈ cores, ∃ j, s.onCore c = some ⟨p, j⟩) : cores.card ≤ (s.procs p).threadCount := by
  let place (c : C) : C × Slot := (c, if (s.cores c).pending then .pending else .cur)
  have hmaps : Set.MapsTo place cores (s.slotsOf p) := by
    intro c hc
    obtain ⟨j, hj⟩ := hon c hc
    refine Sys.mem_slotsOf.2 ⟨j, ?_⟩
    rw [← hj]
    unfold Sys.onCore CoreState.thread Sys.seat
    split <;> rfl
  have hinj : Set.InjOn place cores := fun _ _ _ _ he => congrArg Prod.fst he
  calc
    cores.card ≤ (s.slotsOf p).card := card_le_card_of_injOn _ hmaps hinj
    _ = (s.procs p).activeThreadCount := h.card_slotsOf p
    _ ≤ (s.procs p).threadCount := (h.procs p).books.activeThreadCount_le

end Aspen.Iokernel
