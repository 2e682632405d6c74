import Aspen.Sched.Refinement

/-!
# Every ready thread has one place

A thread that is ready is in a queue, in the hands of a thief, or in the registers of a kthread that is about to
queue it or to run it. A step takes a thread from one of these places to another, or marks it ready and finds it
a place, or begins to run it (`step_places`). So no thread is lost or duplicated, and a queue is never longer
than there are threads, which `q_ptrs`, counting modulo `2 ^ 32`, relies on.
-/

namespace Aspen.Sched

open Ledger Run Function Multiset

variable {K θ : Type*} [DecidableEq K] [DecidableEq θ] [Fintype K] {s s' : Sys K θ} {e : Event K θ}
  {k : K}

def Sys.places (s : Sys K θ) : Multiset θ := s.abs.contents + total Kthread.pending s.ks

lemma step_places (hwf : ∀ k, (s.ks k).Wf) (hbound : ∀ k, (s.ks k).queue.length < 2 ^ 32)
    (h : step s e = .ok s') : ∃ x y, Passes s s' x y ∧ s'.places + y = s.places + x := by
  obtain ⟨-, hact, x, y, hpass, hflow⟩ := step_refines hwf hbound h
  have hcontents := Deques.act_contents hact
  refine ⟨x, y, hpass, add_right_cancel (b := (s.op e).removed + (s.op e).added) ?_⟩
  calc s'.abs.contents + total Kthread.pending s'.ks + y + ((s.op e).removed + (s.op e).added)
      = (s'.abs.contents + (s.op e).removed) + (total Kthread.pending s'.ks + ((s.op e).added + y)) := by abel
    _ = (s.abs.contents + (s.op e).added)
          + (total Kthread.pending s.ks + ((s.op e).removed + x)) := by rw [hcontents, hflow]
    _ = s.abs.contents + total Kthread.pending s.ks + x + ((s.op e).removed + (s.op e).added) := by abel

structure Inv (s : Sys K θ) : Prop where
  wf : ∀ k, (s.ks k).Wf
  nodup : s.places.Nodup
  mem : ∀ th, th ∈ s.places ↔ s.ready th = true

omit [DecidableEq θ] in
lemma queue_le_places (s : Sys K θ) (k : K) : ((s.ks k).queue : Multiset θ) ≤ s.places :=
  calc ((s.ks k).queue : Multiset θ)
      ≤ total (fun l : List θ => (l : Multiset θ)) s.abs.queue :=
        held_le_total (fun l : List θ => (l : Multiset θ)) s.abs.queue k
    _ ≤ s.abs.contents := Multiset.le_add_right _ _
    _ ≤ s.places := Multiset.le_add_right _ _

omit [DecidableEq θ] in
lemma Inv.queue_length_lt [Fintype θ] (hcard : Fintype.card θ < 2 ^ 32) (hs : Inv s) (k : K) :
    (s.ks k).queue.length < 2 ^ 32 := by
  have hnodup : (s.ks k).queue.Nodup := coe_nodup.1 (nodup_of_le (queue_le_places s k) hs.nodup)
  exact hnodup.length_le_card.trans_lt hcard

omit [DecidableEq K] [DecidableEq θ] in
lemma inv_initial (hs : Initial s) : Inv s := by
  have hrest : ∀ k, (s.ks k).Rest := fun k => ⟨.inl (hs.lock k), .inl (hs.pc k)⟩
  have hlist : ∀ k, (s.ks k).q.toList = [] := by
    intro k
    have hring : (s.ks k).q.rq.length = 0 := (Ring.length_eq_zero_iff _).2 (hs.rq k)
    rw [RunQueue.toList, hs.overflow k, List.append_nil, Ring.toList, hring]
    rfl
  have hplaces : s.places = 0 := by
    unfold Sys.places Deques.contents
    rw [total_eq_zero fun k => ?_, total_eq_zero fun k => ?_, total_eq_zero fun k => ?_]
    · rfl
    · rw [Kthread.pending, hs.pc k]
    · show ((s.ks k).hand : Multiset θ) = 0
      rw [(hrest k).hand, coe_nil]
    · show ((s.ks k).queue : Multiset θ) = 0
      rw [(hrest k).queue, hlist k, coe_nil]
  refine ⟨fun k => (hrest k).wf_iff.2 ?_, hplaces ▸ nodup_zero, fun th => ?_⟩
  · rw [hlist k, RunQueue.count, hs.ptrs k, sub_self]
    rfl
  · simp [hplaces, hs.ready th]

lemma step_inv [Fintype θ] (hcard : Fintype.card θ < 2 ^ 32) (hs : Inv s)
    (h : step s e = .ok s') : Inv s' := by
  have hbound := hs.queue_length_lt hcard
  obtain ⟨x, y, hpass, hplaces⟩ := step_places hs.wf hbound h
  have hwf := (step_refines hs.wf hbound h).wf
  cases hpass with
  | stay hready =>
    rw [add_zero, add_zero] at hplaces
    exact ⟨hwf, hplaces ▸ hs.nodup, fun th => by rw [hplaces, hready, hs.mem]⟩
  | enter th hnew hready =>
    rw [add_zero, add_comm, singleton_add] at hplaces
    have hth : th ∉ s.places := by simp [hs.mem, hnew]
    refine ⟨hwf, ?_, fun t => ?_⟩
    · rw [hplaces]
      exact nodup_cons.2 ⟨hth, hs.nodup⟩
    · rw [hplaces, hready, mem_cons, hs.mem, update_apply]
      split_ifs with ht
      · simp [ht]
      · simp [ht]
  | leave th hready =>
    rw [add_zero, add_comm, singleton_add] at hplaces
    obtain ⟨hth, hnodup⟩ := nodup_cons.1 (hplaces ▸ hs.nodup)
    refine ⟨hwf, hnodup, fun t => ?_⟩
    rw [hready, update_apply]
    split_ifs with ht
    · simp [ht, hth]
    · rw [← hs.mem, ← hplaces, mem_cons]
      simp [ht]

/-- In every interleaving each step acts on the queues as the operation it stands for, a thread that is ready has one
place and no other thread has any, and `q_ptrs` shows the length of every queue but for a thread that is being
counted. -/
theorem runqueue_refines [Fintype θ] (hcard : Fintype.card θ < 2 ^ 32)
    (hs : Reaches step (fun _ _ => True) Initial s) :
    (∀ e, step s e ≠ .error .overrun ∧ ∀ s', step s e = .ok s' →
      s.abs.act (RunQueue.readyLe s.tsc) (s.op e) = some s'.abs) ∧
    s.places.Nodup ∧ (∀ th, th ∈ s.places ↔ s.ready th = true) ∧
    ∀ k, ((∀ l d, (s.ks k).lock ≠ .thief l (some d)) →
        (s.ks k).queue = (s.ks k).q.rq.toList ++ (s.ks k).q.overflow) ∧
      ((s.ks k).pc ≠ .counting → (s.ks k).q.count.toNat = (s.ks k).queue.length) := by
  have hinv : Inv s := hs.invariant (fun _ => inv_initial) fun _ _ _ hs _ => step_inv hcard hs
  have hbound := hinv.queue_length_lt hcard
  refine ⟨fun e => ⟨fun h => ?_, fun s' h => (step_refines hinv.wf hbound h).act⟩, hinv.nodup, hinv.mem,
    fun k => ⟨?_, ?_⟩⟩
  · exact (step_outcome hinv.wf hbound e).of_error h rfl
  · intro hlock
    unfold Kthread.queue
    split
    · rename_i l d hthief
      exact absurd hthief (hlock l d)
    · rfl
  · intro hpc
    rw [(hinv.wf k).count_eq hpc, BitVec.toNat_ofNat, Nat.mod_eq_of_lt (hbound k)]

def wrapping : Sys (Fin 2) (Fin 3) where
  ks _ := {
    q := {
      rq := { head := -1, tail := -1, buf := fun _ => 0, len_le := by decide }
      overflow := [], qHead := 0, qTail := 0 }
    lock := .free
    pc := .idle }
  ready _ := false
  tsc _ := 0

theorem runqueue_refines_wrapping : ∃ s : Sys (Fin 2) (Fin 3),
    (s.ks 0).queue = [1] ∧ (s.ks 1).queue = [0] ∧
    s.places.Nodup ∧ (∀ th, th ∈ s.places ↔ s.ready th = true) ∧
    (s.ks 0).q.count.toNat = 1 ∧ (s.ks 1).q.count.toNat = 1 := by
  obtain ⟨s, hs, hpc0, hpc1, hq0, hq1⟩ := reached step Initial (s := wrapping) (P := fun s =>
      (s.ks 0).pc = .idle ∧ (s.ks 1).pc = .idle ∧ (s.ks 0).queue = [1] ∧ (s.ks 1).queue = [0])
      [.ready 0 0 5, .publish 0, .count 0, .ready 0 1 7, .publish 0, .count 0,
        .lock 1, .steal 1 0, .load 1, .take 1, .take 1, .merge 1]
      ⟨fun _ => rfl, fun _ => rfl, fun _ => rfl, fun _ => rfl, fun _ => rfl, fun _ => rfl⟩ (by decide)
  obtain ⟨-, hnodup, hmem, hcount⟩ := runqueue_refines (by decide) hs
  refine ⟨s, hq0, hq1, hnodup, hmem, ?_, ?_⟩
  · rw [(hcount 0).2 (by simp [hpc0]), hq0]
    rfl
  · rw [(hcount 1).2 (by simp [hpc1]), hq1]
    rfl

end Aspen.Sched
