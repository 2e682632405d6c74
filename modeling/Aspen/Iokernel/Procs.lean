import Aspen.Lib.Dense
import Mathlib.Data.Finset.Card

/-!
# Processes and their threads in the iokernel

The part of `struct proc` that the core scheduler works on: the threads (kthreads of the runtime), which of them
are active, the array of the active ones, the list of the idle ones, and the reference count. A pointer to a
thread of the process is its index in `threads`.
-/

namespace Aspen.Iokernel

open Function

structure ThreadState (C : Type*) where
  active : Bool
  /-- the core it was last enabled on; none for `UINT_MAX` -/
  core : Option C
  atIdx : ℕ
  /-- it is in the array of polled threads, that is, `ts_idx` is not `UINT_MAX` -/
  polled : Bool

structure Proc (C : Type*) where
  threadCount : ℕ
  activeThreadCount : ℕ
  threads : ℕ → ThreadState C
  activeThreads : ℕ → ℕ
  idleThreads : List ℕ
  ref : ℕ
  kill : Bool
  hasVfioDirectpath : Bool
  attached : Bool
  /-- the references of packets and commands in flight -/
  inFlight : ℕ

namespace Proc

variable {C : Type*} {p q : Proc C} {j n i : ℕ}

def get (p : Proc C) : Proc C := { p with ref := p.ref + 1 }

def put (p : Proc C) : Proc C := { p with ref := p.ref - 1 }

variable (p j)

def setThread (t : ThreadState C) : Proc C := { p with threads := update p.threads j t }

def pollThread : Proc C := if (p.threads j).polled then p
  else (p.setThread j { p.threads j with polled := true }).get

def unpollThread : Proc C :=
  if (p.threads j).polled then (p.setThread j { p.threads j with polled := false }).put else p

/-- `sched_enable_kthread` up to `sched_steer_flows` -/
def activate (core : C) : Proc C :=
  { p with
    threads := update p.threads j
      { p.threads j with active := true, core := some core, atIdx := p.activeThreadCount }
    idleThreads := p.idleThreads.erase j
    activeThreads := update p.activeThreads p.activeThreadCount j
    activeThreadCount := p.activeThreadCount + 1 }

def schedEnableKthread (core : C) : Proc C :=
  if p.hasVfioDirectpath then p.activate j core else (p.activate j core).pollThread j

/-- `sched_disable_kthread` up to `sched_steer_flows` -/
def deactivate : Proc C := let i := (p.threads j).atIdx
  let last := p.activeThreads (p.activeThreadCount - 1)
  let threads := update p.threads j { p.threads j with active := false }
  { p with
    activeThreadCount := p.activeThreadCount - 1
    activeThreads := update p.activeThreads i last
    threads := update threads last { threads last with atIdx := i }
    idleThreads := j :: p.idleThreads }

/-- `sched_disable_kthread`; `drained` says that the packet queue of the thread is empty. -/
def schedDisableKthread (drained : Bool) : Proc C :=
  if !p.hasVfioDirectpath && drained then (p.deactivate j).unpollThread j else p.deactivate j

/-- `sched_run_on_core` takes a reference for the core and enables the thread. -/
def start (core : C) : Proc C := p.get.schedEnableKthread j core

/-- Wherever a thread is disabled, the reference of its core is given back. -/
def stop (drained : Bool) : Proc C := (p.schedDisableKthread j drained).put

variable {p j}

/-- A new process of `n` threads, in the memory of an old one, after `sched_attach_proc`. -/
def attach (p : Proc C) (n : ℕ) (vfio : Bool) : Proc C where
  threadCount := n
  activeThreadCount := 0
  threads j := { p.threads j with active := false, core := none, polled := false }
  activeThreads := update p.activeThreads 0 0
  idleThreads := (List.range n).reverse
  ref := 1
  kill := false
  hasVfioDirectpath := vfio
  attached := true
  inFlight := 0

def dense (p : Proc C) : Dense ℕ where
  entries := p.activeThreads
  count := p.activeThreadCount
  place j := (p.threads j).atIdx

def polledSet (p : Proc C) : Finset ℕ := (Finset.range p.threadCount).filter fun j => (p.threads j).polled

lemma mem_polledSet : j ∈ p.polledSet ↔ j < p.threadCount ∧ (p.threads j).polled = true := by
  rw [polledSet, Finset.mem_filter, Finset.mem_range]

/-! ## What holds of a process -/

structure Books (p : Proc C) : Prop where
  dense : p.dense.Holds fun j => (p.threads j).active = true
  active_lt : ∀ {j}, (p.threads j).active = true → j < p.threadCount
  idle : ∀ {j}, j ∈ p.idleThreads ↔ j < p.threadCount ∧ (p.threads j).active = false
  nodup : p.idleThreads.Nodup

/-- The references of a process, `n` of them held by cores. -/
structure Refs (p : Proc C) (n : ℕ) : Prop where
  polled_lt : ∀ {j}, (p.threads j).polled = true → j < p.threadCount
  ref : p.ref = p.attached.toNat + p.inFlight + p.polledSet.card + n

structure Wf (p : Proc C) : Prop where
  books : p.Books
  refs : p.Refs p.activeThreadCount

/-! ### References -/

lemma Refs.get (h : p.Refs n) : p.get.Refs (n + 1) where
  polled_lt := h.polled_lt
  ref := by
    show p.ref + 1 = p.attached.toNat + p.inFlight + p.polledSet.card + (n + 1)
    rw [h.ref, Nat.add_assoc]

lemma Refs.put (h : p.Refs (n + 1)) : p.put.Refs n where
  polled_lt := h.polled_lt
  ref := by
    show p.ref - 1 = p.attached.toNat + p.inFlight + p.polledSet.card + n
    rw [h.ref, ← Nat.add_assoc]
    rfl

lemma Refs.congr (h : p.Refs n) (hcount : q.threadCount = p.threadCount)
    (hpolled : ∀ j, (q.threads j).polled = (p.threads j).polled) (href : q.ref = p.ref)
    (hattached : q.attached = p.attached) (hflight : q.inFlight = p.inFlight) : q.Refs n where
  polled_lt {j} hj := by
    rw [hcount]
    exact h.polled_lt (hpolled j ▸ hj)
  ref := by
    have hp : q.polledSet = p.polledSet := by
      ext j
      rw [mem_polledSet, mem_polledSet, hcount, hpolled]
    rw [href, hattached, hflight, hp, h.ref]

lemma polledSet_poll (hj : j < p.threadCount) :
    (p.setThread j { p.threads j with polled := true }).polledSet = insert j p.polledSet := by
  ext i
  rw [Finset.mem_insert, mem_polledSet, mem_polledSet]
  by_cases hi : i = j
  · subst hi
    simp [setThread, hj]
  · simp [setThread, hi]

lemma polledSet_unpoll : (p.setThread j { p.threads j with polled := false }).polledSet = p.polledSet.erase j := by
  ext i
  rw [Finset.mem_erase, mem_polledSet, mem_polledSet]
  by_cases hi : i = j
  · subst hi
    simp [setThread]
  · simp [setThread, hi]

lemma Refs.pollThread (h : p.Refs n) (hj : j < p.threadCount) : (p.pollThread j).Refs n := by
  unfold Proc.pollThread
  split
  · exact h
  · rename_i hp
    constructor
    · intro i hi
      by_cases hij : i = j
      · exact hij ▸ hj
      · refine h.polled_lt ?_
        simpa [Proc.get, setThread, hij] using hi
    · show p.ref + 1 = p.attached.toNat + p.inFlight +
        (p.setThread j { p.threads j with polled := true }).polledSet.card + n
      rw [polledSet_poll hj, Finset.card_insert_of_notMem fun hm => hp (mem_polledSet.1 hm).2, h.ref]
      omega

lemma Refs.unpollThread (h : p.Refs n) : (p.unpollThread j).Refs n := by
  unfold Proc.unpollThread
  split
  · rename_i hp
    have hm : j ∈ p.polledSet := mem_polledSet.2 ⟨h.polled_lt hp, hp⟩
    constructor
    · intro i hi
      by_cases hij : i = j
      · rw [hij]
        exact h.polled_lt hp
      · refine h.polled_lt ?_
        simpa [Proc.put, setThread, hij] using hi
    · show p.ref - 1 = p.attached.toNat + p.inFlight +
        (p.setThread j { p.threads j with polled := false }).polledSet.card + n
      have hcard := Finset.card_erase_add_one hm
      rw [polledSet_unpoll, h.ref]
      omega
  · exact h

/-! ### Polling and references leave the books alone -/

structure Same (p q : Proc C) : Prop where
  threadCount : q.threadCount = p.threadCount
  activeThreadCount : q.activeThreadCount = p.activeThreadCount
  activeThreads : q.activeThreads = p.activeThreads
  idleThreads : q.idleThreads = p.idleThreads
  active : ∀ j, (q.threads j).active = (p.threads j).active
  core : ∀ j, (q.threads j).core = (p.threads j).core
  atIdx : ∀ j, (q.threads j).atIdx = (p.threads j).atIdx

lemma Same.rfl : Same p p := ⟨.refl _, .refl _, .refl _, .refl _, fun _ => .refl _,
  fun _ => .refl _, fun _ => .refl _⟩

lemma Same.get (h : Same p q) : Same p q.get := { h with }

lemma Same.put (h : Same p q) : Same p q.put := { h with }

lemma Same.polled (p : Proc C) (j : ℕ) (b : Bool) : Same p (p.setThread j { p.threads j with polled := b }) := by
  refine ⟨.refl _, .refl _, .refl _, .refl _, fun i => ?_, fun i => ?_, fun i => ?_⟩ <;>
  · unfold setThread
    by_cases hi : i = j
    · subst hi
      simp
    · simp [hi]

lemma Same.pollThread (p : Proc C) (j : ℕ) : Same p (p.pollThread j) := by
  unfold Proc.pollThread
  split
  · exact .rfl
  · exact (Same.polled p j true).get

lemma Same.unpollThread (p : Proc C) (j : ℕ) : Same p (p.unpollThread j) := by
  unfold Proc.unpollThread
  split
  · exact (Same.polled p j false).put
  · exact .rfl

lemma Books.congr (h : p.Books) (hq : Same p q) : q.Books where
  dense := by
    have hd : q.dense = p.dense := by
      simp only [Proc.dense, hq.activeThreads, hq.activeThreadCount, hq.atIdx]
    rw [hd]
    exact h.dense.congr fun j => by rw [hq.active]
  active_lt {j} hj := by
    rw [hq.threadCount]
    exact h.active_lt (hq.active j ▸ hj)
  idle {j} := by
    rw [hq.idleThreads, hq.threadCount, hq.active]
    exact h.idle
  nodup := hq.idleThreads ▸ h.nodup

/-! ### Enabling and disabling a thread -/

lemma activate_active (p : Proc C) (j : ℕ) (core : C) (i : ℕ) :
    ((p.activate j core).threads i).active ↔ i = j ∨ (p.threads i).active = true := by
  unfold activate
  by_cases hi : i = j
  · subst hi
    simp
  · simp [hi]

lemma Books.activate (core : C) (h : p.Books) (hj : j ∈ p.idleThreads) : (p.activate j core).Books := by
  obtain ⟨hlt, hact⟩ := h.idle.1 hj
  refine ⟨?_, fun {i} hi => ?_, fun {i} => ?_, h.nodup.erase j⟩
  · have hd : (p.activate j core).dense = p.dense.push j := by
      simp only [Proc.dense, Proc.activate, Dense.push, Dense.mk.injEq, true_and]
      funext i
      by_cases hi : i = j
      · subst hi
        simp only [update_self]
      · simp only [update_of_ne hi]
    rw [hd]
    exact (h.dense.push (by rw [hact]; nofun)).congr fun i => activate_active p j core i
  · rcases (activate_active p j core i).1 hi with rfl | hi
    · exact hlt
    · exact h.active_lt hi
  · show i ∈ p.idleThreads.erase j ↔ i < p.threadCount ∧ _
    rw [h.nodup.mem_erase_iff, h.idle, ← Bool.not_eq_true (_ : Bool), ← Bool.not_eq_true (_ : Bool),
      activate_active, not_or, and_left_comm]

lemma deactivate_thread (p : Proc C) (j i : ℕ) :
    (p.deactivate j).threads i = { p.threads i with
      active := (p.threads i).active && i ≠ j
      atIdx := if i = p.activeThreads (p.activeThreadCount - 1) then (p.threads j).atIdx
        else (p.threads i).atIdx } := by
  unfold deactivate
  dsimp only
  by_cases hl : i = p.activeThreads (p.activeThreadCount - 1)
  · rw [← hl, update_self, if_pos rfl]
    by_cases hi : i = j
    · subst hi
      simp
    · simp [hi]
  · rw [update_of_ne hl, if_neg hl]
    by_cases hi : i = j
    · subst hi
      simp
    · simp [hi]

lemma deactivate_active (p : Proc C) (j i : ℕ) :
    ((p.deactivate j).threads i).active ↔ i ≠ j ∧ (p.threads i).active = true := by
  rw [deactivate_thread, Bool.and_eq_true, decide_eq_true_iff, and_comm]

lemma Books.deactivate (h : p.Books) (hj : (p.threads j).active) : (p.deactivate j).Books := by
  refine ⟨?_, fun {i} hi => ?_, fun {i} => ?_, List.nodup_cons.2 ⟨fun hm => ?_, h.nodup⟩⟩
  · have hd : (p.deactivate j).dense = p.dense.remove j := by
      simp only [Proc.dense, Dense.remove, Dense.mk.injEq]
      refine ⟨rfl, rfl, ?_⟩
      funext i
      rw [deactivate_thread, update_apply]
    rw [hd]
    exact (h.dense.remove hj).congr fun i => deactivate_active p j i
  · exact h.active_lt ((deactivate_active p j i).1 hi).2
  · show i ∈ j :: p.idleThreads ↔ i < p.threadCount ∧ _
    rw [List.mem_cons, h.idle, ← Bool.not_eq_true (_ : Bool), ← Bool.not_eq_true (_ : Bool), deactivate_active]
    by_cases hi : i = j
    · subst hi
      exact ⟨fun _ => ⟨h.active_lt hj, fun hn => hn.1 rfl⟩, fun _ => .inl rfl⟩
    · simp only [hi, false_or, ne_eq, not_false_eq_true, true_and]
  · rw [(h.idle.1 hm).2] at hj
    cases hj

variable (p j)

variable (core : C) (drained : Bool)

lemma schedEnableKthread_same : Same (p.activate j core) (p.schedEnableKthread j core) := by
  unfold schedEnableKthread
  split
  · exact .rfl
  · exact .pollThread _ j

lemma schedDisableKthread_same : Same (p.deactivate j) (p.schedDisableKthread j drained) := by
  unfold schedDisableKthread
  split
  · exact .unpollThread _ j
  · exact .rfl

lemma start_same : Same (p.activate j core) (p.start j core) := { schedEnableKthread_same p.get j core with }

lemma stop_same : Same (p.deactivate j) (p.stop j drained) := (schedDisableKthread_same p j drained).put

variable {p j}

lemma Wf.start (h : p.Wf) (hj : j ∈ p.idleThreads) : (p.start j core).Wf where
  books := (h.books.activate core hj).congr (start_same p j core)
  refs := by
    have hr : (p.get.activate j core).Refs (p.activeThreadCount + 1) := by
      refine h.refs.get.congr rfl (fun i => ?_) rfl rfl rfl
      by_cases hi : i = j
      · subst hi
        simp [Proc.activate, Proc.get]
      · simp [Proc.activate, Proc.get, hi]
    rw [(start_same p j core).activeThreadCount]
    unfold Proc.start schedEnableKthread
    split
    · exact hr
    · exact hr.pollThread (h.books.idle.1 hj).1

lemma Wf.stop (h : p.Wf) (hj : (p.threads j).active) : (p.stop j drained).Wf where
  books := (h.books.deactivate hj).congr (stop_same p j drained)
  refs := by
    have hpos : p.activeThreadCount - 1 + 1 = p.activeThreadCount :=
      Nat.sub_add_cancel (Nat.one_le_of_lt (h.books.dense.elem j hj).1)
    have hr : (p.deactivate j).Refs (p.activeThreadCount - 1 + 1) := by
      rw [hpos]
      exact h.refs.congr rfl (fun i => by rw [deactivate_thread]) rfl rfl rfl
    rw [(stop_same p j drained).activeThreadCount]
    refine Refs.put ?_
    unfold schedDisableKthread
    split
    · exact hr.unpollThread
    · exact hr

variable (p)

lemma start_active (j : ℕ) (core : C) (i : ℕ) :
    ((p.start j core).threads i).active ↔ i = j ∨ (p.threads i).active = true := by
  rw [(start_same p j core).active]
  exact activate_active p j core i

lemma start_core_self (j : ℕ) (core : C) : ((p.start j core).threads j).core = some core := by
  rw [(start_same p j core).core]
  simp only [activate, update_self]

lemma start_core_of_ne (core : C) (hi : i ≠ j) : ((p.start j core).threads i).core = (p.threads i).core := by
  rw [(start_same p j core).core]
  simp only [activate, update_of_ne hi]

lemma stop_active (j : ℕ) (drained : Bool) (i : ℕ) :
    ((p.stop j drained).threads i).active ↔ i ≠ j ∧ (p.threads i).active = true := by
  rw [(stop_same p j drained).active]
  exact deactivate_active p j i

lemma stop_core (j : ℕ) (drained : Bool) (i : ℕ) : ((p.stop j drained).threads i).core = (p.threads i).core := by
  rw [(stop_same p j drained).core, deactivate_thread]

variable {p}

/-! ### The other holders of references -/

lemma Wf.get_inFlight (h : p.Wf) : Wf { p with ref := p.ref + 1, inFlight := p.inFlight + 1 } where
  books := h.books.congr { Same.rfl (p := p) with }
  refs := ⟨h.refs.polled_lt, by
    show p.ref + 1 = p.attached.toNat + (p.inFlight + 1) + p.polledSet.card + p.activeThreadCount
    rw [h.refs.ref]
    omega⟩

lemma Wf.put_inFlight (h : p.Wf) (hp : p.inFlight ≠ 0) :
    Wf { p with ref := p.ref - 1, inFlight := p.inFlight - 1 } where
  books := h.books.congr { Same.rfl (p := p) with }
  refs := ⟨h.refs.polled_lt, by
    show p.ref - 1 = p.attached.toNat + (p.inFlight - 1) + p.polledSet.card + p.activeThreadCount
    rw [h.refs.ref]
    omega⟩

lemma Wf.unpollThread (h : p.Wf) (j : ℕ) : (p.unpollThread j).Wf where
  books := h.books.congr (.unpollThread p j)
  refs := by
    rw [(Same.unpollThread p j).activeThreadCount]
    exact h.refs.unpollThread

lemma Wf.detach (h : p.Wf) (hp : p.attached) :
    Wf { p with ref := p.ref - 1, attached := false, kill := true } where
  books := h.books.congr { Same.rfl (p := p) with }
  refs := ⟨h.refs.polled_lt, by
    show p.ref - 1 = 0 + p.inFlight + p.polledSet.card + p.activeThreadCount
    rw [h.refs.ref, hp, Bool.toNat_true]
    omega⟩

lemma Wf.inactive (h : p.Wf) (hp : p.ref = 0) (j : ℕ) : (p.threads j).active = false := by
  rw [← Bool.not_eq_true]
  intro hj
  have hlt := (h.books.dense.elem j hj).1
  have href := h.refs.ref
  have : p.dense.count = p.activeThreadCount := rfl
  omega

lemma attach_wf (p : Proc C) (n : ℕ) (vfio : Bool) : (p.attach n vfio).Wf where
  books := {
    dense := ⟨fun i hi => absurd hi (Nat.not_lt_zero i), nofun⟩
    active_lt := nofun
    idle := by
      intro j
      show j ∈ (List.range n).reverse ↔ j < n ∧ false = false
      rw [List.mem_reverse, List.mem_range, eq_self_iff_true, and_true]
    nodup := List.nodup_reverse.2 List.nodup_range }
  refs := ⟨nofun, by
    have hnone : (p.attach n vfio).polledSet = ∅ := by
      ext j
      rw [mem_polledSet]
      exact ⟨fun h => (nomatch h.2), nofun⟩
    rw [hnone]
    rfl⟩

end Proc

end Aspen.Iokernel
