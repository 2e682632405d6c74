import Aspen.Sync.Rcu
import Mathlib.Data.Fintype.Basic

/-!
# The grace period of `rcu_free`

Everything turns on one observation about a kthread (`Kthread.Moves.reading`): while a section that began
before stays in progress, the counter does not move. So a section that a batch waits for keeps the
counter at its sampled value, and keeps it odd, and the check cannot pass.
-/

namespace Aspen.Rcu

open Run Function List

/-! ## The invariant -/

section Invariant

variable {maxks : ℕ} {θ α : Type*} {s s' : Sys maxks θ α} {c : α} {k : Fin maxks} {head : List α}

def Sys.Open (s : Sys maxks θ α) (c : α) (k : Fin maxks) : Prop :=
  ∃ m, s.readers c k = some m ∧ (s.ks k).reading = some m

def Worker.Sampled (k : ℕ) : Worker α → Prop
  | .sample _ i => k < i
  | _ => True

def Worker.Checked (k : ℕ) : Worker α → Prop
  | .check _ i => k < i
  | .free _ => True
  | _ => False

def Sys.Seen (s : Sys maxks θ α) (w : Worker α) : Prop :=
  ∀ c ∈ w.batch, ∀ k : Fin maxks, s.Open c k → ¬ w.Checked k ∧ (w.Sampled k → (s.ks k).rcuGen = s.lastRcuGen k)

lemma Sys.Seen.mono {w : Worker α} (hs : s.Seen w)
    (hopen : ∀ c ∈ w.batch, ∀ k, s'.Open c k → s.Open c k ∧ (s'.ks k).rcuGen = (s.ks k).rcuGen)
    (hlast : s'.lastRcuGen = s.lastRcuGen) : s'.Seen w := by
  intro c hc k ho
  obtain ⟨ho', hg⟩ := hopen c hc k ho
  rw [hg, hlast]
  exact hs c hc k ho'

structure Inv (s : Sys maxks θ α) : Prop where
  ks : ∀ k, (s.ks k).Wf
  perm : s.freed.Perm (s.rcuHead ++ s.worker.batch ++ s.ran)
  nodup : s.freed.Nodup
  readers : ∀ c ∈ s.freed, ∀ k m, s.readers c k = some m → m ≤ (s.ks k).sections
  seen : s.Seen s.worker
  ran : ∀ c ∈ s.ran, ∀ k, ¬ s.Open c k
  /-- a parked worker is woken for the callbacks in the list -/
  woken : s.worker = .parked → s.rcuWorkerTh = true ∧ s.rcuHead = [] ∨ s.ready = true ∨ ∃ t, s.callers t = .waking

lemma Inv.of_initial (h : Initial s) : Inv s where
  ks k := by
    rw [h.ks]
    exact ⟨rfl, fun _ => rfl⟩
  perm := by
    rw [h.freed, h.rcuHead, h.worker, h.ran]
    rfl
  nodup := h.freed ▸ nodup_nil
  readers c hc := by
    rw [h.freed] at hc
    nomatch hc
  seen := by
    rw [h.worker]
    nofun
  ran c hc := by
    rw [h.ran] at hc
    nomatch hc
  woken hw := by
    rw [h.worker] at hw
    nomatch hw

lemma Inv.mem_freed (hs : Inv s) : c ∈ s.freed ↔ c ∈ s.rcuHead ∨ c ∈ s.worker.batch ∨ c ∈ s.ran := by
  rw [hs.perm.mem_iff, mem_append, mem_append, or_assoc]

lemma Inv.open_of_kthread (hs : Inv s) {k' : Kthread} (hk : (s.ks k).Moves k') (hc : c ∈ s.freed) (j : Fin maxks)
    (ho : Sys.Open { s with ks := update s.ks k k' } c j) :
    s.Open c j ∧ (update s.ks k k' j).rcuGen = (s.ks j).rcuGen := by
  obtain ⟨m, hm, hr⟩ := ho
  by_cases hj : j = k
  · subst hj
    dsimp only at hr
    rw [update_self] at hr ⊢
    obtain ⟨hr', hg⟩ := hk.reading (hs.readers c hc j m hm) hr
    exact ⟨⟨m, hm, hr'⟩, hg⟩
  · dsimp only at hr
    rw [update_of_ne hj] at hr ⊢
    exact ⟨⟨m, hm, hr⟩, rfl⟩

lemma Inv.of_kthread (hs : Inv s) {k' : Kthread} {e : KthreadEvent}
    (h : (s.ks k).step e = .ok k') : Inv { s with ks := update s.ks k k' } := by
  obtain ⟨hwf, hk⟩ := Kthread.step_moves (hs.ks k) h
  exact {
    ks := (forall_update_iff s.ks fun _ k => k.Wf).2 ⟨hwf, fun j _ => hs.ks j⟩
    perm := hs.perm
    nodup := hs.nodup
    readers := fun c hc => (forall_update_iff s.ks fun j k => ∀ m, s.readers c j = some m → m ≤ k.sections).2
      ⟨fun m hm => (hs.readers c hc k m hm).trans hk.sections_le, fun j _ => hs.readers c hc j⟩
    seen := hs.seen.mono
      (fun c hc j ho => hs.open_of_kthread hk (hs.mem_freed.2 (.inr (.inl hc))) j ho) rfl
    ran := fun c hc j ho =>
      hs.ran c hc j (hs.open_of_kthread hk (hs.mem_freed.2 (.inr (.inr hc))) j ho).1
    woken := hs.woken }

lemma Inv.not_open_of_check (hs : Inv s) (hseen : s.Seen (.check head k.val))
    (hpass : ¬ (isOdd (s.ks k).rcuGen ∧ (s.ks k).rcuGen = s.lastRcuGen k))
    (hc : c ∈ head) : ¬ s.Open c k := by
  intro ho
  obtain ⟨m, -, hr⟩ := id ho
  exact hpass ⟨(hs.ks k).isOdd_of_reading hr, (hseen c hc k ho).2 trivial⟩

lemma Inv.of_rcuWorker (hs : Inv s) (h : rcuWorker s = .ok s') : Inv s' := by
  have hseen := hs.seen
  have hperm := hs.perm
  unfold rcuWorker at h
  split at h
  · rename_i hw
    rw [hw] at hperm
    split at h
    · rename_i hh
      cases h
      exact { hs with perm := hperm, seen := nofun, woken := fun _ => .inl ⟨rfl, hh⟩ }
    · cases h
      refine { hs with perm := ?_, seen := ?_, woken := nofun }
      · simpa [Worker.batch] using hperm
      · exact fun _ _ k _ => ⟨id, fun hk => absurd hk (Nat.not_lt_zero _)⟩
  · rename_i hw
    rw [hw] at hperm
    obtain ⟨-, h⟩ := guard_eq_ok.1 h
    cases h
    exact { hs with perm := hperm, seen := nofun, woken := nofun }
  · rename_i head i hw
    rw [hw] at hperm hseen
    split at h
    · rename_i hi
      cases h
      refine { hs with perm := hperm, seen := fun c hc k ho => ⟨id, fun hk => ?_⟩, woken := nofun }
      dsimp only
      by_cases hki : k = ⟨i, hi⟩
      · rw [hki, update_self]
      · rw [update_of_ne hki]
        refine (hseen c hc k ho).2 (lt_of_le_of_ne (Nat.le_of_lt_succ hk) ?_)
        exact fun he => hki (Fin.ext he)
    · rename_i hi
      cases h
      refine { hs with perm := hperm, seen := fun c hc k ho => ⟨id, fun _ => ?_⟩, woken := nofun }
      exact (hseen c hc k ho).2 (k.isLt.trans_le (not_lt.1 hi))
  · rename_i head hw
    rw [hw] at hperm hseen
    cases h
    refine { hs with perm := hperm, seen := fun c hc k ho => ?_, woken := nofun }
    exact ⟨Nat.not_lt_zero _, (hseen c hc k ho).2⟩
  · rename_i head i hw
    rw [hw] at hperm hseen
    split at h
    · split at h
      · cases h
        exact { hs with perm := hperm, seen := fun c hc k ho => ⟨id, (hseen c hc k ho).2⟩, woken := nofun }
      · rename_i hpass
        cases h
        refine { hs with perm := hperm, seen := fun c hc k ho => ⟨fun hk => ?_, (hseen c hc k ho).2⟩, woken := nofun }
        refine (hseen c hc k ho).1 (lt_of_le_of_ne (Nat.le_of_lt_succ hk) ?_)
        rintro rfl
        exact hs.not_open_of_check hseen hpass hc ho
    · rename_i hi
      cases h
      refine { hs with perm := hperm, seen := fun c hc k ho => ?_, woken := nofun }
      exact absurd (k.isLt.trans_le (not_lt.1 hi)) (hseen c hc k ho).1
  · rename_i hw
    rw [hw] at hperm
    cases h
    exact { hs with perm := hperm, seen := nofun, woken := nofun }
  · rename_i c head hw
    rw [hw] at hperm hseen
    cases h
    refine { hs with perm := ?_, seen := ?_, ran := ?_, woken := nofun }
    · refine hperm.trans ?_
      simp only [Worker.batch, append_assoc]
      refine List.Perm.append_left _ ?_
      exact perm_middle.symm
    · intro d hd
      exact hseen d (mem_cons_of_mem c hd)
    · intro d hd
      rcases mem_cons.1 hd with rfl | hd
      · exact fun k ho => (hseen d mem_cons_self k ho).1 trivial
      · exact hs.ran d hd

variable [DecidableEq α]

lemma Sys.open_push {d : α} (hd : d ∈ s.freed) (hc : c ∉ s.freed) (k : Fin maxks) :
    (s.push c).Open d k ↔ s.Open d k := by
  have hne : d ≠ c := fun he => hc (he ▸ hd)
  unfold Sys.Open Sys.push
  simp only [update_of_ne hne]

lemma Inv.push (hs : Inv s) (hc : c ∉ s.freed) {r : Bool} {callers : θ → Caller α}
    (hwoken : s.worker = .parked → r ∨ ∃ t, callers t = .waking) :
    Inv { s.push c with rcuWorkerTh := false, ready := r, callers := callers } where
  ks := hs.ks
  perm := hs.perm.cons c
  nodup := nodup_cons.2 ⟨hc, hs.nodup⟩
  readers := by
    intro d hd k m hm
    rcases mem_cons.1 hd with rfl | hd
    · replace hm : (s.ks k).reading = some m := by
        simpa [Sys.push] using hm
      exact (Kthread.reading_eq_some.1 hm).2.ge
    · have hne : d ≠ c := fun he => hc (he ▸ hd)
      refine hs.readers d hd k m ?_
      simpa [Sys.push, hne] using hm
  seen := hs.seen.mono (fun d hd k ho =>
    ⟨(Sys.open_push (hs.mem_freed.2 (.inr (.inl hd))) hc k).1 ho, rfl⟩) rfl
  ran d hd k ho := hs.ran d hd k ((Sys.open_push (hs.mem_freed.2 (.inr (.inr hd))) hc k).1 ho)
  woken hw := .inr (hwoken hw)

variable [DecidableEq θ]

lemma Inv.of_rcuFree (hs : Inv s) {t : θ} (h : rcuFree s t c = .ok s') : Inv s' := by
  obtain ⟨⟨ht, hc⟩, h⟩ := guard_eq_ok.1 h
  cases h
  refine hs.push hc fun hw => ?_
  rcases hs.woken hw with ⟨hth, -⟩ | hr | ⟨u, hu⟩
  · refine .inr ⟨t, ?_⟩
    rw [update_self, hth]
    rfl
  · exact .inl hr
  · refine .inr ⟨u, ?_⟩
    rw [update_of_ne (by rintro rfl; rw [ht] at hu; cases hu), hu]

lemma Inv.of_synchronizeRcu (hs : Inv s) {t : θ} (h : synchronizeRcu s t c = .ok s') : Inv s' := by
  obtain ⟨⟨ht, hc⟩, h⟩ := guard_eq_ok.1 h
  cases h
  refine hs.push hc fun hw => ?_
  rcases hs.woken hw with ⟨hth, -⟩ | hr | ⟨u, hu⟩
  · exact .inl (by rw [hth, Bool.or_true])
  · exact .inl (by rw [hr, Bool.true_or])
  · refine .inr ⟨u, ?_⟩
    rw [update_of_ne (by rintro rfl; rw [ht] at hu; cases hu), hu]

lemma Inv.of_next (hs : Inv s) {t : θ} (h : next s t = .ok s') : Inv s' := by
  unfold next at h
  split at h
  · cases h
  · cases h
    exact { hs with woken := fun _ => .inr (.inl rfl) }
  · rename_i c ht
    obtain ⟨-, h⟩ := guard_eq_ok.1 h
    cases h
    refine { hs with woken := fun hw => (hs.woken hw).imp_right (.imp_right ?_) }
    rintro ⟨u, hu⟩
    refine ⟨u, ?_⟩
    dsimp only
    rw [update_of_ne (by rintro rfl; rw [ht] at hu; cases hu), hu]

/-- Kthreads, callers and the worker keep the invariant. -/
lemma Inv.of_step (hs : Inv s) {e : Event maxks θ α} (h : step s e = .ok s') : Inv s' := by
  cases e with
  | kthread k e =>
    unfold step at h
    dsimp only at h
    split at h
    · rename_i k' hk
      cases h
      exact hs.of_kthread hk
    · cases h
  | rcuFree t c => exact hs.of_rcuFree h
  | synchronizeRcu t c => exact hs.of_synchronizeRcu h
  | next t => exact hs.of_next h
  | worker k => exact hs.of_rcuWorker (guard_eq_ok.1 h).2

lemma reaches_inv (h : Reaches step (fun _ _ => True) Initial s) : Inv s :=
  h.invariant (fun _ => Inv.of_initial) fun _ _ _ hi _ he => hi.of_step he

end Invariant

/-! ## Every callback can still be run

The worker may have to wait for a reader for ever, but whatever has happened so far, once the readers
leave their sections it runs everything it has been given. -/

namespace Kthread

lemma leads_unlocked {k : Kthread} (hm : k.mode = .thread) :
    ∃ k', Leads step k k' ∧ k'.mode = .thread ∧ k'.depth = 0 := by
  obtain ⟨d, hd⟩ : ∃ d, k.depth = d := ⟨_, rfl⟩
  induction d generalizing k with
  | zero => exact ⟨k, .refl k, hm, hd⟩
  | succ d ih =>
    obtain ⟨k', hk', h'⟩ := ih (k := { k with depth := k.depth - 1 }) hm (by rw [hd]; rfl)
    refine ⟨k', .head .rcuReadUnlock ?_ hk', h'⟩
    exact guard_eq_ok.2 ⟨⟨hm, by rw [hd]; nofun⟩, rfl⟩

lemma leads_of_scheduler {k : Kthread} (hm : k.mode = .scheduler) (hd : k.depth = 0) :
    ∃ k', Leads step k k' ∧ k'.mode = .thread ∧ k'.depth = 0 :=
  ⟨_, .head .run (guard_eq_ok.2 ⟨hm, rfl⟩) (.refl _), rfl, hd⟩

lemma leads_of_entering {k : Kthread} (hm : k.mode = .entering) (hd : k.depth = 0) :
    ∃ k', Leads step k k' ∧ k'.mode = .thread ∧ k'.depth = 0 := by
  obtain ⟨k', hk', h'⟩ := leads_of_scheduler
    (k := { k with rcuGen := k.rcuGen + 1#32, mode := .scheduler }) rfl hd
  refine ⟨k', .head .schedule ?_ hk', h'⟩
  exact guard_eq_ok.2 ⟨by rw [hm]; rfl, guard_eq_ok.2 ⟨hd, rfl⟩⟩

lemma Wf.leads_thread {k : Kthread} (hk : k.Wf) : ∃ k', Leads step k k' ∧ k'.mode = .thread ∧ k'.depth = 0 := by
  cases hm : k.mode with
  | attaching =>
    have hd := hk.depth (by rw [hm]; nofun)
    obtain ⟨k', hk', h'⟩ := leads_of_entering
      (k := { k with rcuGen := 1#32, mode := .entering }) rfl hd
    exact ⟨k', .head .scheduleStart (guard_eq_ok.2 ⟨hm, rfl⟩) hk', h'⟩
  | entering => exact leads_of_entering hm (hk.depth (by rw [hm]; nofun))
  | scheduler => exact leads_of_scheduler hm (hk.depth (by rw [hm]; nofun))
  | thread => exact leads_unlocked hm
  | ceded =>
    have hd := hk.depth (by rw [hm]; nofun)
    obtain ⟨k', hk', h'⟩ := leads_of_entering
      (k := { k with rcuGen := k.rcuGen + 1#32, mode := .entering }) rfl hd
    exact ⟨k', .head .unpark (guard_eq_ok.2 ⟨hm, rfl⟩) hk', h'⟩

lemma Wf.leads_turned {k : Kthread} (hk : k.Wf) (gen : BitVec 32) :
    ∃ k', Leads step k k' ∧ k'.mode = .thread ∧ k'.rcuGen ≠ gen := by
  obtain ⟨k', hk', hm, hd⟩ := hk.leads_thread
  by_cases hg : k'.rcuGen = gen
  · refine ⟨{ k' with rcuGen := k'.rcuGen + 2#32 }, hk'.trans (.head .enterSchedule ?_ (.refl _)), hm, ?_⟩
    · exact guard_eq_ok.2 ⟨hm, guard_eq_ok.2 ⟨hd, rfl⟩⟩
    · intro he
      rw [← hg] at he
      have h2 := congrArg BitVec.toNat he
      rw [BitVec.toNat_add, BitVec.toNat_ofNat] at h2
      omega
  · exact ⟨k', hk', hm, hg⟩

end Kthread

section Progress

variable {maxks : ℕ} {θ α : Type*} [DecidableEq θ] [DecidableEq α] {s s' s₁ : Sys maxks θ α}
  {k : Fin maxks} {l : List α} {i : ℕ}

lemma Inv.leads (hs : Inv s) (h : Leads step s s') : Inv s' := by
  obtain ⟨es, he⟩ := h
  induction es generalizing s with
  | nil =>
    cases he
    exact hs
  | cons e es ih =>
    simp only [exec] at he
    split at he
    · rename_i s₁ hs1
      exact ih (hs.of_step hs1) he
    · cases he

lemma leads_kthread {k' : Kthread} (h : Leads Kthread.step (s.ks k) k') :
    Leads step s { s with ks := update s.ks k k' } := by
  obtain ⟨es, he⟩ := h
  induction es generalizing s with
  | nil =>
    cases he
    rw [update_eq_self]
    exact .refl s
  | cons e es ih =>
    simp only [exec] at he
    split at he
    · rename_i k1 hk1
      have hl := ih (s := { s with ks := update s.ks k k1 })
        (show exec _ (update s.ks k k1 k) es = _ by rw [update_self]; exact he)
      rw [update_idem] at hl
      refine .head (.kthread k e) ?_ hl
      unfold step
      dsimp only
      rw [hk1]
    · cases he

lemma Inv.leads_turned (hs : Inv s) (gen : Fin maxks → BitVec 32) : ∃ ks, Leads step s { s with ks := ks } ∧
      ∀ k, (ks k).mode = .thread ∧ (ks k).rcuGen ≠ gen k := by
  suffices h : ∀ S : Finset (Fin maxks), ∃ ks, Leads step s { s with ks := ks } ∧
      (∀ k ∈ S, (ks k).mode = .thread ∧ (ks k).rcuGen ≠ gen k) ∧ ∀ k ∉ S, ks k = s.ks k by
    obtain ⟨ks, hl, hk, -⟩ := h Finset.univ
    exact ⟨ks, hl, fun k => hk k (Finset.mem_univ k)⟩
  intro S
  induction S using Finset.induction_on with
  | empty => exact ⟨s.ks, .refl s, nofun, fun _ _ => rfl⟩
  | insert k S hk ih =>
    obtain ⟨ks, hl, hin, hout⟩ := ih
    obtain ⟨k', hk', hm, hg⟩ := (hs.ks k).leads_turned (gen k)
    rw [← hout k hk] at hk'
    refine ⟨update ks k k', hl.trans (leads_kthread hk'), ?_, ?_⟩
    · intro j hj
      by_cases hjk : j = k
      · subst hjk
        rw [update_self]
        exact ⟨hm, hg⟩
      · rw [update_of_ne hjk]
        exact hin j ((Finset.mem_insert.1 hj).resolve_left hjk)
    · intro j hj
      rw [Finset.mem_insert, not_or] at hj
      rw [update_of_ne hj.1]
      exact hout j hj.2

section

variable (hk : (s.ks k).mode = .thread)
include hk

lemma leads_worker
    (h : rcuWorker s = .ok s₁) (hl : Leads step s₁ s') : Leads step s s' :=
  .head (.worker k) (guard_eq_ok.2 ⟨hk, h⟩) hl

lemma leads_sleep (hw : s.worker = .sample l i) :
    ∃ gen, Leads step s { s with worker := .sleep l, lastRcuGen := gen } := by
  obtain ⟨d, hd⟩ : ∃ d, maxks - i = d := ⟨_, rfl⟩
  induction d generalizing s i with
  | zero =>
    refine ⟨s.lastRcuGen, leads_worker hk ?_ (.refl _)⟩
    have hi : ¬ i < maxks := by omega
    simp only [rcuWorker, hw, hi, dite_false]
  | succ d ih =>
    have hi : i < maxks := by omega
    obtain ⟨gen, hl⟩ := ih
      (s := { s with
        lastRcuGen := update s.lastRcuGen ⟨i, hi⟩ (s.ks ⟨i, hi⟩).rcuGen
        worker := .sample l (i + 1) }) hk rfl (by omega)
    refine ⟨gen, leads_worker hk ?_ hl⟩
    simp only [rcuWorker, hw, hi, dite_true]

lemma leads_free (hgen : ∀ j, (s.ks j).rcuGen ≠ s.lastRcuGen j)
    (hw : s.worker = .check l i) : Leads step s { s with worker := .free l } := by
  obtain ⟨d, hd⟩ : ∃ d, maxks - i = d := ⟨_, rfl⟩
  induction d generalizing s i with
  | zero =>
    refine leads_worker hk ?_ (.refl _)
    have hi : ¬ i < maxks := by omega
    simp only [rcuWorker, hw, hi, dite_false]
  | succ d ih =>
    have hi : i < maxks := by omega
    have hl := ih (s := { s with worker := .check l (i + 1) }) hk hgen rfl (by omega)
    refine leads_worker hk ?_ hl
    simp only [rcuWorker, hw, hi, dite_true, hgen, and_false, if_false]

lemma leads_top (hw : s.worker = .free l) : Leads step s { s with worker := .top, ran := l.reverse ++ s.ran } := by
  induction l generalizing s with
  | nil =>
    refine leads_worker hk ?_ (.refl _)
    simp only [rcuWorker, hw, reverse_nil, nil_append]
  | cons c l ih =>
    have hl := ih (s := { s with worker := .free l, ran := c :: s.ran }) hk rfl
    simp only [reverse_cons, append_assoc, singleton_append]
    refine leads_worker hk ?_ hl
    simp only [rcuWorker, hw]

end

def Settles (s : Sys maxks θ α) : Prop :=
  ∃ s', Leads step s s' ∧ s'.worker = .top ∧ s'.rcuHead = s.rcuHead ∧ s'.freed = s.freed

lemma Settles.head (hl : Leads step s s₁) (hh : s₁.rcuHead = s.rcuHead)
    (hf : s₁.freed = s.freed) (h : Settles s₁) : Settles s := by
  obtain ⟨s', hl', hw, hh', hf'⟩ := h
  exact ⟨s', hl.trans hl', hw, hh'.trans hh, hf'.trans hf⟩

def CanRun (s : Sys maxks θ α) : Prop := ∃ s', Leads step s s' ∧ ∀ c ∈ s.freed, c ∈ s'.ran

lemma CanRun.head (hl : Leads step s s₁) (hf : s₁.freed = s.freed) (h : CanRun s₁) : CanRun s := by
  obtain ⟨s', hl', hran⟩ := h
  exact ⟨s', hl.trans hl', hf ▸ hran⟩

lemma Inv.canRun_of_nil (hs : Inv s) (hw : s.worker.batch = []) (hh : s.rcuHead = []) : CanRun s := by
  refine ⟨s, .refl s, fun c hc => ?_⟩
  have hperm := hs.perm
  rw [hh, hw] at hperm
  exact hperm.mem_iff.1 hc

variable [NeZero maxks]

section

variable (hs : Inv s)
include hs

lemma Inv.settles_of_free (hw : s.worker = .free l) : Settles s := by
  obtain ⟨ks, hl, hk⟩ := hs.leads_turned s.lastRcuGen
  exact ⟨_, hl.trans (leads_top (s := { s with ks := ks }) (hk 0).1 hw), rfl, rfl, rfl⟩

lemma Inv.settles_of_check (hw : s.worker = .check l i) : Settles s := by
  obtain ⟨ks, hl, hk⟩ := hs.leads_turned s.lastRcuGen
  have hf := hl.trans (leads_free (s := { s with ks := ks }) (hk 0).1 (fun j => (hk j).2) hw)
  exact .head hf rfl rfl ((hs.leads hf).settles_of_free rfl)

lemma Inv.settles_of_sleep (hw : s.worker = .sleep l) : Settles s := by
  obtain ⟨ks, hl, hk⟩ := hs.leads_turned s.lastRcuGen
  have hc : Leads step s { s with ks := ks, worker := .check l 0 } := by
    refine hl.trans (leads_worker (s := { s with ks := ks }) (hk 0).1 ?_ (.refl _))
    simp only [rcuWorker, hw]
  exact .head hc rfl rfl ((hs.leads hc).settles_of_check rfl)

lemma Inv.settles_of_sample (hw : s.worker = .sample l i) : Settles s := by
  obtain ⟨ks, hl, hk⟩ := hs.leads_turned s.lastRcuGen
  obtain ⟨gen, hl'⟩ := leads_sleep (s := { s with ks := ks }) (hk 0).1 hw
  exact .head (hl.trans hl') rfl rfl ((hs.leads (hl.trans hl')).settles_of_sleep rfl)

lemma Inv.canRun_of_top (hw : s.worker = .top) : CanRun s := by
  by_cases hh : s.rcuHead = []
  · exact hs.canRun_of_nil (by rw [hw]; rfl) hh
  · obtain ⟨ks, hl, hk⟩ := hs.leads_turned s.lastRcuGen
    have hc : Leads step s { s with ks := ks, worker := .sample s.rcuHead 0, rcuHead := [] } := by
      refine hl.trans (leads_worker (s := { s with ks := ks }) (hk 0).1 ?_ (.refl _))
      simp only [rcuWorker, hw, hh, if_false]
    obtain ⟨s', hl', hw', hh', hf⟩ := (hs.leads hc).settles_of_sample rfl
    exact .head (hc.trans hl') hf ((hs.leads (hc.trans hl')).canRun_of_nil (by rw [hw']; rfl) hh')

lemma Settles.canRun (h : Settles s) : CanRun s := by
  obtain ⟨s', hl, hw, -, hf⟩ := h
  exact .head hl hf ((hs.leads hl).canRun_of_top hw)

lemma Inv.canRun_of_parked (hw : s.worker = .parked) : CanRun s := by
  -- once it is ready it goes back to the top of its loop
  have hready {s : Sys maxks θ α} (hs : Inv s) (hw : s.worker = .parked) (hr : s.ready) : CanRun s := by
    obtain ⟨ks, hl, hk⟩ := hs.leads_turned s.lastRcuGen
    have ht : Leads step s { s with ks := ks, worker := .top, ready := false } := by
      refine hl.trans (leads_worker (s := { s with ks := ks }) (hk 0).1 ?_ (.refl _))
      simp only [rcuWorker, hw, hr, if_true]
    exact .head ht rfl ((hs.leads ht).canRun_of_top rfl)
  rcases hs.woken hw with ⟨-, hh⟩ | hr | ⟨t, ht⟩
  · exact hs.canRun_of_nil (by rw [hw]; rfl) hh
  · exact hready hs hw hr
  · have hl : Leads step s { s with ready := true, callers := update s.callers t .out } := by
      refine .head (.next t) ?_ (.refl _)
      simp only [step, next, ht]
    exact .head hl rfl (hready (hs.leads hl) hw rfl)

/-- From every state, some continuation runs all callbacks passed in so far. -/
lemma Inv.canRun : CanRun s := by
  cases hw : s.worker with
  | top => exact hs.canRun_of_top hw
  | parked => exact hs.canRun_of_parked hw
  | sample head i => exact (hs.settles_of_sample hw).canRun hs
  | sleep head => exact (hs.settles_of_sleep hw).canRun hs
  | check head i => exact (hs.settles_of_check hw).canRun hs
  | free head => exact (hs.settles_of_free hw).canRun hs

end

end Progress

/-! ## Grace periods -/

section Grace

variable {maxks : ℕ} [NeZero maxks] {θ α : Type*} [DecidableEq θ] [DecidableEq α]

/-- In every run, a callback is in the list, in the worker's batch, or has been run, once; it has been run, and
`synchronize_rcu` has returned, only after every section that was in progress when it was passed in has ended. A
worker that has parked over callbacks is about to be woken. And the callbacks can still all be run. -/
theorem grace_period {s : Sys maxks θ α} (h : Reaches step (fun _ _ => True) Initial s) :
    (s.freed.Nodup ∧ s.freed.Perm (s.rcuHead ++ s.worker.batch ++ s.ran)) ∧
    (∀ c ∈ s.ran, ∀ k m, s.readers c k = some m → (s.ks k).reading ≠ some m) ∧
    (∀ t c s', s.callers t = .blocked c → step s (.next t) = .ok s' →
      ∀ k m, s.readers c k = some m → (s.ks k).reading ≠ some m) ∧
    (s.worker = .parked → s.rcuHead ≠ [] → s.ready = true ∨ ∃ t, s.callers t = .waking) ∧
    ∃ s', Leads step s s' ∧ ∀ c ∈ s.freed, c ∈ s'.ran := by
  have hs := reaches_inv h
  refine ⟨⟨hs.nodup, hs.perm⟩, ?_, ?_, ?_, hs.canRun⟩
  · intro c hc k m hm hr
    exact hs.ran c hc k ⟨m, hm, hr⟩
  · intro t c s' ht he k m hm hr
    simp only [step, next, ht] at he
    exact hs.ran c (guard_eq_ok.1 he).1 k ⟨m, hm, hr⟩
  · intro hw hne
    exact (hs.woken hw).resolve_left fun hh => hne hh.2

end Grace

def initSys : Sys 2 (Fin 1) ℕ where
  ks _ := ⟨0, .attaching, 0, 0⟩
  rcuHead := []
  rcuWorkerTh := false
  ready := false
  worker := .top
  lastRcuGen _ := 0
  callers _ := .out
  freed := []
  ran := []
  readers _ _ := none

lemma initSys_initial : Initial initSys := ⟨fun _ => rfl, rfl, rfl, rfl, rfl, fun _ => rfl, rfl, rfl⟩

theorem grace_period_reader : ∃ s : Sys 2 (Fin 1) ℕ,
    Reaches step (fun _ _ => True) Initial s ∧ s.ran = [7] ∧ s.readers 7 1 = some 1 ∧
      (s.ks 1).reading ≠ some 1 := by
  obtain ⟨s, hs, hran, hread⟩ := reached step Initial (s := initSys) (P := fun s =>
      s.ran = [7] ∧ s.readers 7 1 = some 1)
      [.kthread 0 .scheduleStart, .kthread 0 .schedule, .kthread 0 .run,
        .kthread 1 .scheduleStart, .kthread 1 .schedule, .kthread 1 .run, .kthread 1 .rcuReadLock,
        .worker 0, .rcuFree 0 7, .next 0, .worker 0,
        .worker 0, .worker 0, .worker 0, .worker 0, .kthread 0 .enterSchedule,
        .worker 0, .worker 0, .worker 0, .kthread 1 .rcuReadUnlock, .kthread 1 .schedule,
        .worker 0, .worker 0, .worker 0, .worker 0, .worker 0]
      initSys_initial (by decide)
  exact ⟨s, hs, hran, hread, (grace_period hs).2.1 7 (by rw [hran]; exact mem_singleton_self 7) 1 1 hread⟩

end Aspen.Rcu
