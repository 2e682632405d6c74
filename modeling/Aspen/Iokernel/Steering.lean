import Aspen.Iokernel.Procs
import Aspen.Lib.Deal
import Aspen.Lib.Run

/-!
# The flow table of a process (`sched_steer_flows`)

A process that does not use directpath gets its packets from the iokernel, which looks up in `flow_tbl` the thread for
the hash of a packet. Whenever a thread is enabled or disabled the table is filled anew from the array of active
threads: these get their own entries, and the other entries in turn.
-/

namespace Aspen.Iokernel.Steering

open Function List

variable {C : Type*}

def uintMax : ℕ := 2 ^ 32 - 1

variable (p : Proc C) (tbl : ℕ → ℕ)

def actives : List ℕ := (List.range p.activeThreadCount).map p.activeThreads

def identity : ℕ → ℕ :=
  (actives p).foldl (fun t idx => update t idx idx) fun i => if i < p.threadCount then uintMax else tbl i

/-- `sched_steer_flows`; the second loop reads each entry before it writes it -/
def schedSteerFlows : ℕ → ℕ := if p.activeThreadCount = 0 then tbl
  else (deal (actives p) (fun i => identity p tbl i ≠ uintMax) (identity p tbl) p.threadCount).1

structure State (C : Type*) where
  proc : Proc C
  flowTbl : ℕ → ℕ

inductive Event (C : Type*)
  | enable (j : ℕ) (core : C)
  | disable (j : ℕ) (drained : Bool)

inductive Stop
  | misplaced

/-- A thread is enabled when it is idle, and disabled when it is active. -/
def step (s : State C) : Event C → Except Stop (State C)
  | .enable j core =>
    if j ∈ s.proc.idleThreads then
      .ok ⟨s.proc.schedEnableKthread j core, schedSteerFlows (s.proc.activate j core) s.flowTbl⟩
    else .error .misplaced
  | .disable j drained =>
    if (s.proc.threads j).active = true then
      .ok ⟨s.proc.schedDisableKthread j drained, schedSteerFlows (s.proc.deactivate j) s.flowTbl⟩
    else .error .misplaced

/-- A new process of at most `NCPU` threads, without directpath. -/
def Initial (s : State C) : Prop := ∃ q n, n ≤ 256 ∧ s.proc = Proc.attach q n false

/-- Every entry is an active thread, which has its own, and the other entries are spread evenly. -/
structure Steered (p : Proc C) (tbl : ℕ → ℕ) : Prop where
  active : ∀ i < p.threadCount, (p.threads (tbl i)).active = true
  self : ∀ i, (p.threads i).active = true → tbl i = i
  even : ∀ j k, (p.threads j).active = true → (p.threads k).active = true →
    p.threadCount.count (fun i => (p.threads i).active = false ∧ tbl i = j) ≤
      p.threadCount.count (fun i => (p.threads i).active = false ∧ tbl i = k) + 1

variable {p q : Proc C} {tbl : ℕ → ℕ} {i : ℕ}

lemma Steered.congr (h : Steered p tbl) (hq : Proc.Same p q) : Steered q tbl := by
  constructor <;> simp only [hq.threadCount, hq.active]
  exacts [h.active, h.self, h.even]

lemma mem_actives (h : p.Books) : i ∈ actives p ↔ (p.threads i).active = true := by
  rw [actives, mem_map]
  constructor
  · rintro ⟨k, hk, rfl⟩
    exact (h.dense.entry k (mem_range.1 hk)).1
  · exact fun hi => ⟨_, mem_range.2 (h.dense.elem i hi).1, (h.dense.elem i hi).2⟩

lemma nodup_actives (h : p.Books) : (actives p).Nodup := by
  refine List.Nodup.map_on (fun k hk l hl he => ?_) nodup_range
  rw [← (h.dense.entry k (mem_range.1 hk)).2, ← (h.dense.entry l (mem_range.1 hl)).2]
  exact congrArg p.dense.place he

lemma foldl_update_self (l : List ℕ) (t : ℕ → ℕ) :
    l.foldl (fun t j => update t j j) t i = if i ∈ l then i else t i := by
  induction l generalizing t with
  | nil => rfl
  | cons j l ih =>
    rw [foldl_cons, ih, update_apply]
    grind

lemma identity_eq (h : p.Books) (hi : i < p.threadCount) :
    identity p tbl i = if (p.threads i).active = true then i else uintMax := by
  rw [identity, foldl_update_self, if_pos hi]
  exact if_congr (mem_actives h) rfl rfl

lemma steered (h : p.Books) (hn : p.threadCount ≤ 256) (hp : p.activeThreadCount ≠ 0) :
    Steered p (schedSteerFlows p tbl) := by
  rw [schedSteerFlows, if_neg hp]
  have hskip : ∀ i < p.threadCount, decide (identity p tbl i ≠ uintMax) = (p.threads i).active := by
    intro i hi
    rw [identity_eq h hi]
    have : i ≠ uintMax := by unfold uintMax; omega
    cases (p.threads i).active <;> simp [this]
  have hself : ∀ i, (p.threads i).active →
      (deal (actives p) (fun i => identity p tbl i ≠ uintMax) (identity p tbl) p.threadCount).1 i = i := by
    intro i hi
    rw [deal_skip ((hskip i (h.active_lt hi)).trans hi), identity_eq h (h.active_lt hi), if_pos hi]
  refine ⟨fun i hi => ?_, hself, fun j k hj hk => ?_⟩
  · cases ha : (p.threads i).active with
    | true => rwa [hself i ha]
    | false =>
      refine (mem_actives h).1 (deal_mem ?_ hi ((hskip i hi).trans ha))
      rw [actives, length_map, length_range]
      exact Nat.pos_of_ne_zero hp
  · have heven := deal_even (fun i => identity p tbl i ≠ uintMax) (identity p tbl) p.threadCount
      (nodup_actives h) ((mem_actives h).2 hj) ((mem_actives h).2 hk)
    have hcount : ∀ t : ℕ → Prop, [DecidablePred t] →
        p.threadCount.count (fun i => (p.threads i).active = false ∧ t i) =
          p.threadCount.count (fun i => decide (identity p tbl i ≠ uintMax) = false ∧ t i) := by
      intro t _
      simp only [Nat.count_eq_card_filter_range]
      exact congrArg _ (Finset.filter_congr fun i hi => by rw [hskip i (Finset.mem_range.1 hi)])
    rw [hcount, hcount]
    exact heven

structure Inv (s : State C) : Prop where
  books : s.proc.Books
  threads : s.proc.threadCount ≤ 256
  steered : s.proc.activeThreadCount ≠ 0 → Steered s.proc s.flowTbl

lemma Inv.of_same {s : State C} (h : p.Books) (hn : p.threadCount ≤ 256) (hs : Proc.Same p s.proc)
    (ht : s.flowTbl = schedSteerFlows p tbl) : Inv s where
  books := h.congr hs
  threads := hs.threadCount ▸ hn
  steered hp := ht ▸ (Steering.steered h hn (hs.activeThreadCount ▸ hp)).congr hs

lemma step_inv {s s' : State C} {e : Event C} (hI : Inv s) (h : step s e = .ok s') : Inv s' := by
  cases e with
  | enable j core =>
    obtain ⟨hj, h⟩ := Run.guard_eq_ok.1 h
    cases h
    exact .of_same (hI.books.activate core hj) hI.threads (Proc.schedEnableKthread_same _ j core) rfl
  | disable j drained =>
    obtain ⟨hj, h⟩ := Run.guard_eq_ok.1 h
    cases h
    exact .of_same (hI.books.deactivate hj) hI.threads (Proc.schedDisableKthread_same _ j drained) rfl

/-- After every change that leaves an active thread, the table is right. -/
theorem flows_steered {s : State C} (hs : Run.Reaches step (fun _ _ => True) Initial s)
    (hp : 0 < s.proc.activeThreadCount) : Steered s.proc s.flowTbl := by
  have hI : Inv s := by
    refine hs.invariant (fun s hi => ?_) fun _ _ _ hI _ h => step_inv hI h
    obtain ⟨q, n, hn, he⟩ := hi
    exact ⟨he ▸ (Proc.attach_wf q n false).books, he ▸ hn, fun hp => absurd (he ▸ rfl) hp⟩
  exact hI.steered hp.ne'

def five : State Unit where
  proc := Proc.attach ⟨0, 0, fun _ => ⟨false, none, 0, false⟩, fun _ => 0, [], 0, false, false, false, 0⟩ 5 false
  flowTbl _ := 0

theorem flows_steered_five : ∃ s : State Unit, Run.Reaches step (fun _ _ => True) Initial s ∧
    (List.range 5).map s.flowTbl = [3, 1, 1, 3, 3] ∧ Steered s.proc s.flowTbl := by
  obtain ⟨s, hs, ht, hp⟩ := Run.reached step Initial (s := five)
    (P := fun s => (List.range 5).map s.flowTbl = [3, 1, 1, 3, 3] ∧ 0 < s.proc.activeThreadCount)
    [.enable 2 (), .enable 1 (), .enable 3 (), .disable 2 true] ⟨_, 5, by decide, rfl⟩ (by decide)
  exact ⟨s, hs, ht, flows_steered hs hp⟩

end Aspen.Iokernel.Steering
