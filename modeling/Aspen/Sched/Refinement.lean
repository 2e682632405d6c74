import Aspen.Sched.Queues

/-!
# Run queues are double-ended queues

What a kthread and its queue rely on is local to them (`Kthread.Wf`): the owner that has found room in
the ring keeps it, since only the owner fills it; a thief's view of the ring stays valid, since the owner
only appends; and `q_ptrs` shows every thread of the queue but the one that is being counted.
-/

namespace Aspen.Sched

open Ledger Run Function

variable {K θ : Type*}

lemma Drain.next_of_round {d d' : Drain θ} {nr : BitVec 32} {q q' : RunQueue θ}
    (h : d.round nr q = some (d', q')) : d.next q = some (d', q') := by
  unfold Drain.round at h
  split at h
  · exact h
  · cases h

namespace Kthread

variable {k : Kthread K θ} {l : K} {th : θ}

/-! ## One kthread -/

def lsize (k : Kthread K θ) : Option (BitVec 32) :=
  match k.pc with
  | .stealing _ lsize _ | .merging _ lsize => some lsize
  | _ => none

def uncounted (k : Kthread K θ) : BitVec 32 :=
  match k.pc with
  | .counting => 1
  | _ => 0

structure Wf (k : Kthread K θ) : Prop where
  count : k.q.count + k.uncounted = BitVec.ofNat 32 k.queue.length
  pushing : ∀ th, k.pc = .pushing th → k.q.overflow = [] ∧ k.q.rq.length < rqSize
  sized : ∀ n ∈ k.lsize, k.lock = .own ∧ n = k.q.count
  draining : ∀ l d, k.lock = .thief l (some d) → d.Valid k.q

lemma queue_free (h : k.lock = .free) : k.queue = k.q.toList := by
  rw [queue, h]

lemma queue_own (h : k.lock = .own) : k.queue = k.q.toList := by
  rw [queue, h]

def Rest (k : Kthread K θ) : Prop := (k.lock = .free ∨ k.lock = .own) ∧ (k.pc = .idle ∨ ∃ th, k.pc = .popped th)

lemma Rest.queue (hk : k.Rest) : k.queue = k.q.toList := by
  rcases hk.1 with hlock | hlock
  · exact queue_free hlock
  · exact queue_own hlock

lemma Rest.hand (hk : k.Rest) : k.hand = [] := by
  unfold Kthread.hand
  rcases hk.2 with hpc | ⟨th, hpc⟩
  · rw [hpc]
  · rw [hpc]

lemma Rest.wf_iff (hk : k.Rest) : k.Wf ↔ k.q.count = BitVec.ofNat 32 k.q.toList.length := by
  have hcount : k.q.count + k.uncounted = BitVec.ofNat 32 k.queue.length ↔
      k.q.count = BitVec.ofNat 32 k.q.toList.length := by
    rw [hk.queue]
    rcases hk.2 with hpc | ⟨th, hpc⟩
    all_goals simp [uncounted, hpc]
  refine ⟨fun h => hcount.1 h.count, fun h => ⟨hcount.2 h, ?_, ?_, ?_⟩⟩
  · rcases hk.2 with hpc | ⟨th, hpc⟩
    all_goals simp [hpc]
  · rcases hk.2 with hpc | ⟨th, hpc⟩
    all_goals simp [lsize, hpc]
  · rcases hk.1 with hlock | hlock
    all_goals simp [hlock]

lemma uncounted_eq_zero (h : k.pc ≠ .counting) : k.uncounted = 0 := by
  unfold uncounted
  split
  · rename_i hpc
    exact absurd hpc h
  · rfl

lemma Wf.count_eq (hk : k.Wf) (hpc : k.pc ≠ .counting) : k.q.count = BitVec.ofNat 32 k.queue.length := by
  have hcount := hk.count
  rwa [uncounted_eq_zero hpc, add_zero] at hcount

lemma Wf.with_pc (hk : k.Wf) (hpc : k.pc ≠ .counting) {pc : Pc K θ}
    (hnew : pc = .idle ∨ ∃ th, pc = .spilling th ∨ pc = .heading th) : Wf { k with pc := pc } := by
  have hcount : k.q.count + 0 = BitVec.ofNat 32 k.queue.length := (add_zero _).trans (hk.count_eq hpc)
  rcases hnew with rfl | ⟨th, rfl | rfl⟩
  all_goals exact ⟨hcount, nofun, nofun, hk.draining⟩

lemma Wf.tested (hk : k.Wf) (hpc : k.pc ≠ .counting) (th : θ) : Wf { k with pc := k.q.test K th } := by
  unfold RunQueue.test
  split
  · rename_i hroom
    refine ⟨(add_zero _).trans (hk.count_eq hpc), fun _ _ => ?_, nofun, hk.draining⟩
    exact ⟨by simpa using hroom.2, hroom.1⟩
  · exact hk.with_pc hpc (.inr ⟨th, .inl rfl⟩)

@[simp] lemma hand_test {q : RunQueue θ} {lock : Lock K θ} :
    hand { q := q, lock := lock, pc := q.test K th } = [] := by
  unfold hand RunQueue.test
  split_ifs
  · rfl
  · rfl

@[simp] lemma pending_test {q : RunQueue θ} {lock : Lock K θ} :
    pending { q := q, lock := lock, pc := q.test K th } = {th} := by
  unfold pending RunQueue.test
  split_ifs
  · rfl
  · rfl

lemma count_succ {n : ℕ} {c : BitVec 32} (h : c = BitVec.ofNat 32 n) : c + 1 = BitVec.ofNat 32 (n + 1) := by
  rw [h, BitVec.ofNat_add]
  rfl

section

variable (hk : k.Wf)
include hk

lemma Wf.grown (hlock : k.lock = .free) (hpc : k.pc ≠ .counting) {q : RunQueue θ}
    (hcount : q.count = k.q.count) (hlen : q.toList.length = k.q.toList.length + 1) :
    Wf { k with q := q, pc := .counting } := by
  refine ⟨?_, nofun, nofun, by simp [hlock]⟩
  have hold := hk.count_eq hpc
  rw [queue_free hlock] at hold
  rw [queue_free (k := { k with q := q, pc := .counting }) hlock]
  rw [hcount, hlen]
  exact count_succ hold

lemma Wf.counted (hpc : k.pc = .counting) : Wf { k with q := { k.q with qHead := k.q.qHead + 1 }, pc := .idle } := by
  refine ⟨?_, nofun, nofun, fun l d hlock => ?_⟩
  · have hcount := hk.count
    rw [uncounted, hpc] at hcount
    show k.q.qHead + 1 - k.q.qTail + 0 = BitVec.ofNat 32 k.queue.length
    rw [← hcount, RunQueue.count]
    ring
  · obtain ⟨h1, h2, h3⟩ := hk.draining l d hlock
    exact ⟨h1, h2, h3⟩

lemma Wf.push (hpc : k.pc = .pushing th) (h : k.q.rq.length < rqSize) :
    Wf { k with q := { k.q with rq := k.q.rq.push th h }, pc := .counting } ∧
    queue { k with q := { k.q with rq := k.q.rq.push th h }, pc := .counting } = k.queue ++ [th] := by
  obtain ⟨hover, -⟩ := hk.pushing th hpc
  have hqueue : queue { k with q := { k.q with rq := k.q.rq.push th h }, pc := .counting } = k.queue ++ [th] := by
    have hplain := RunQueue.toList_push hover th h
    cases hlock : k.lock with
    | free | own => simpa only [queue, hlock] using hplain
    | thief l d =>
      cases d with
      | none => simpa only [queue, hlock] using hplain
      | some d => simpa only [queue, hlock] using ((hk.draining l d hlock).push hover th h).2
  refine ⟨⟨?_, by simp, by rintro _ ⟨⟩, ?_⟩, hqueue⟩
  · rw [hqueue, List.length_append]
    exact count_succ (hk.count_eq (by simp [hpc]))
  · intro l d hlock
    exact ((hk.draining l d hlock).push hover th h).1

/-! ### Thieves -/

lemma Wf.lsize_eq_none (hlock : k.lock ≠ .own) : k.lsize = none :=
  Option.eq_none_iff_forall_not_mem.2 fun n hn => hlock (hk.sized n hn).1

lemma Wf.locked (hlock : k.lock = .free) (l : K) : Wf { k with lock := .thief l none } := by
  have hcount := hk.count
  rw [queue_free hlock] at hcount
  have hnone : lsize { k with lock := .thief l none } = none := hk.lsize_eq_none (by simp [hlock])
  exact ⟨hcount, hk.pushing, by simp [hnone], by simp⟩

lemma Wf.thief (hlock : k.lock = .own) (hpc : k.pc ≠ .counting) {pc : Pc K θ}
    (hnew : (∃ r nr, pc = .stealing r k.q.count nr) ∨ ∃ stolen, pc = .merging stolen k.q.count) :
    Wf { k with pc := pc } := by
  have hcount : k.q.count + 0 = BitVec.ofNat 32 k.queue.length := (add_zero _).trans (hk.count_eq hpc)
  rcases hnew with ⟨r, nr, rfl⟩ | ⟨stolen, rfl⟩
  all_goals
    refine ⟨hcount, nofun, ?_, hk.draining⟩
    rintro _ ⟨⟩
    exact ⟨hlock, rfl⟩

lemma Wf.drained {l0 : K} {d0 : Option (Drain θ)} (hlock : k.lock = .thief l0 d0)
    {d : Drain θ} {q : RunQueue θ} (hrq : q.rq = k.q.rq) (hcount : q.count = k.q.count)
    (hover : k.q.overflow = [] → q.overflow = []) (hvalid : d.Valid q) (hview : d.view q = k.queue) :
    Wf { k with q := q, lock := .thief l (some d) } := by
  have hnone : lsize { k with q := q, lock := .thief l (some d) } = none := hk.lsize_eq_none (by simp [hlock])
  refine ⟨?_, fun th hpc => ?_, by simp [hnone], fun l' d' hd => ?_⟩
  · show q.count + k.uncounted = BitVec.ofNat 32 (d.view q).length
    rw [hcount, hview]
    exact hk.count
  · obtain ⟨hempty, hroom⟩ := hk.pushing th hpc
    exact ⟨hover hempty, hrq ▸ hroom⟩
  · cases hd
    exact hvalid

lemma Wf.robbed {d : Drain θ} (hlock : k.lock = .thief l (some d))
    (h : (k.q.rq.head - d.tail).toNat ≤ rqSize) : Wf { k with
      q := { k.q with
        rq := { k.q.rq with tail := d.tail, len_le := h }
        qTail := k.q.qTail + BitVec.ofNat 32 d.l.length }
      lock := .free } := by
  have hnone : k.lsize = none := hk.lsize_eq_none (by simp [hlock])
  have hvalid := hk.draining l d hlock
  refine ⟨?_, fun th hpc => ?_, fun n hn => absurd (hnone.symm.trans hn) nofun, by simp⟩
  · have hcount := hk.count
    have hqueue : k.queue = d.view k.q := by rw [queue, hlock]
    rw [hqueue, Drain.view, List.length_append, BitVec.ofNat_add] at hcount
    show k.q.qHead - (k.q.qTail + BitVec.ofNat 32 d.l.length) + k.uncounted
      = BitVec.ofNat 32 (contents k.q.rq.buf d.tail (k.q.rq.head - d.tail).toNat ++ k.q.overflow).length
    rw [← add_right_inj (BitVec.ofNat 32 d.l.length), ← hcount, RunQueue.count]
    ring
  · obtain ⟨hempty, hroom⟩ := hk.pushing th hpc
    exact ⟨hempty, hvalid.tail_le.trans_lt hroom⟩

end

lemma Wf.merged (hk : k.Wf) (tsc : θ → BitVec 64) {stolen : List θ} {lsize : BitVec 32}
    (hpc : k.pc = .merging stolen lsize) (hbound : k.queue.length < 2 ^ 32) :
    Wf { k with q := k.q.mergeRunqueues tsc stolen lsize.toNat, pc := .idle } ∧
    queue { k with q := k.q.mergeRunqueues tsc stolen lsize.toNat, pc := .idle }
      = k.queue.merge stolen (RunQueue.readyLe tsc) := by
  obtain ⟨hlock, rfl⟩ := hk.sized lsize (by rw [Kthread.lsize, hpc]; rfl)
  have hcount := hk.count_eq (by simp [hpc])
  rw [queue_own hlock] at hbound hcount
  have hsize : k.q.count.toNat = k.q.toList.length := by
    rw [hcount, BitVec.toNat_ofNat, Nat.mod_eq_of_lt hbound]
  have hlist : (k.q.mergeRunqueues tsc stolen k.q.count.toNat).toList = _ := RunQueue.toList_mergeRunqueues tsc hsize
  have hrest : Rest { k with q := k.q.mergeRunqueues tsc stolen k.q.count.toNat, pc := .idle } :=
    ⟨.inr hlock, .inl rfl⟩
  constructor
  · refine hrest.wf_iff.2 ?_
    rw [RunQueue.count_mergeRunqueues, hlist, hcount, List.length_merge, BitVec.ofNat_add]
  · rw [queue_own hlock, ← hlist]
    exact hrest.queue

end Kthread

/-! ## Steps -/

open Kthread (pending hand queue)

variable [DecidableEq K] [DecidableEq θ] [Fintype K] {s s' : Sys K θ} {e : Event K θ} {k l r : K}
  {v w : Kthread K θ} {th : θ} {op : DequeOp K θ} {x y : Multiset θ}

inductive Passes (s s' : Sys K θ) : Multiset θ → Multiset θ → Prop
  | stay : s'.ready = s.ready → Passes s s' 0 0
  | enter (th : θ) : s.ready th = false → s'.ready = update s.ready th true → Passes s s' {th} 0
  | leave (th : θ) : s'.ready = update s.ready th false → Passes s s' 0 {th}

def Flows (s s' : Sys K θ) (op : DequeOp K θ) : Prop := ∃ x y, Passes s s' x y ∧ total pending s'.ks + (op.added + y)
    = total pending s.ks + (op.removed + x)

/-- The kthreads are well-formed, their queues have done what the operation says, and no thread is lost on
its way. -/
structure Refines (s s' : Sys K θ) (op : DequeOp K θ) : Prop where
  wf : ∀ k, (s'.ks k).Wf
  act : s.abs.act (RunQueue.readyLe s.tsc) op = some s'.abs
  flows : Flows s s' op

abbrev Outcome (s : Sys K θ) (op : DequeOp K θ) : Except Stop (Sys K θ) → Prop :=
  Run.Comes (· ≠ .overrun) (Refines s · op)

section

omit [DecidableEq θ] [Fintype K]

lemma abs_of_update (hks : s'.ks = update s.ks k v) : s'.abs =
    { queue := update s.abs.queue k v.queue, hand := update s.abs.hand k v.hand } := by
  have hq : s'.abs.queue = update s.abs.queue k v.queue := by
    funext j
    rw [Sys.abs, hks]
    exact apply_update (fun _ => queue) s.ks k v j
  have hh : s'.abs.hand = update s.abs.hand k v.hand := by
    funext j
    rw [Sys.abs, hks]
    exact apply_update (fun _ => hand) s.ks k v j
  rw [← hq, ← hh]

lemma abs_set : (s.set k v).abs = { queue := update s.abs.queue k v.queue, hand := update s.abs.hand k v.hand } :=
  abs_of_update rfl

lemma wf_of_update (hwf : ∀ k, (s.ks k).Wf) (hks : s'.ks = update s.ks k v) (hv : v.Wf) (j : K) : (s'.ks j).Wf := by
  rw [hks, update_apply]
  split_ifs
  · exact hv
  · exact hwf j

end

variable (hwf : ∀ k, (s.ks k).Wf)
include hwf

namespace Refines

lemma of_update (hks : s'.ks = update s.ks k v) (hv : v.Wf)
    (hact : s.abs.act (RunQueue.readyLe s.tsc) op =
      some { queue := update s.abs.queue k v.queue, hand := update s.abs.hand k v.hand })
    (hpass : Passes s s' x y) (hp : v.pending + (op.added + y) = (s.ks k).pending + (op.removed + x)) :
    Refines s s' op := by
  refine ⟨wf_of_update hwf hks hv, ?_, x, y, hpass, ?_⟩
  · rw [hact, abs_of_update hks]
  · rw [hks]
    exact total_exchange _ hp

lemma changed {f : List θ → List θ} (hf : ∀ D : Deques K θ, D.act (RunQueue.readyLe s.tsc) op =
      some { D with queue := update D.queue k (f (D.queue k)) }) (hks : s'.ks = update s.ks k v) (hv : v.Wf)
    (hq : v.queue = f (s.ks k).queue) (hh : v.hand = (s.ks k).hand) (hpass : Passes s s' x y)
    (hp : v.pending + (op.added + y) = (s.ks k).pending + (op.removed + x)) : Refines s s' op := by
  refine .of_update hwf hks hv ?_ hpass hp
  rw [hf, hq, hh]
  exact congrArg some (congrArg (Deques.mk _) (update_eq_self k s.abs.hand).symm)

lemma steal (hv : v.Wf) (hw : w.Wf) (hne : l ≠ r) {f : List θ} (hq : (s.ks r).queue = f ++ v.queue)
    (hh : v.hand = (s.ks r).hand) (hlq : w.queue = (s.ks l).queue) (hlh : w.hand = (s.ks l).hand ++ f)
    (hp : v.pending = (s.ks r).pending) (hlp : w.pending = (s.ks l).pending) :
    Refines s ((s.set r v).set l w) (.steal l r f.length) := by
  refine ⟨wf_of_update (wf_of_update hwf rfl hv) rfl hw, ?_, 0, 0, .stay rfl, ?_⟩
  · have hqueue : update (update s.abs.queue r v.queue) l w.queue = update s.abs.queue r v.queue := by
      rw [hlq, update_comm hne.symm]
      congr 1
      exact update_eq_self l s.abs.queue
    have hhand : update s.abs.hand r v.hand = s.abs.hand := by
      rw [hh]
      exact update_eq_self r s.abs.hand
    rw [abs_set, abs_set, hqueue, hhand, hlh]
    simp [Deques.act, Sys.abs, hq]
  · have hlp : pending w = ((s.set r v).ks l).pending := by simp [hlp, Sys.set, update_of_ne hne]
    rw [Sys.set, total_update_of_eq hlp, Sys.set, total_update_of_eq hp]
    rfl

omit hwf in
lemma of_steal (h : Refines s s' (.steal l r ([] : List θ).length)) : Refines s s' .idle := by
  refine ⟨h.wf, ?_, h.flows⟩
  rw [← h.act]
  simp [Deques.act]

end Refines

variable {now : BitVec 64}

omit hwf in
lemma prepare_outcome {f : Sys K θ → Except Stop (Sys K θ)}
    (h : s.ready th = false → Outcome s op
      (f { s with ready := update s.ready th true, tsc := update s.tsc th now })) :
    Outcome s op ((threadReadyPrepare s th now).bind f) := by
  unfold threadReadyPrepare
  split
  · exact .stop nofun
  · rename_i hready
    exact h (by simpa using hready)

/-! ### Without the lock -/

lemma ready_outcome : Outcome s .idle (step s (.ready k th now)) := by
  simp only [step]
  split
  · exact .stop nofun
  · rename_i hpc _
    refine prepare_outcome fun hready => .ok (.changed (f := id) hwf (Deques.act_idle _) rfl
      ((hwf k).tested (by simp [hpc]) th) (by rfl) ?_ (.enter th hready rfl) ?_)
    · rw [Kthread.hand_test, hand, hpc]
    · rw [Kthread.pending_test, pending, hpc]
      rfl
  · exact .stop nofun

lemma readyHead_outcome : Outcome s .idle (step s (.readyHead k th now)) := by
  simp only [step]
  split
  · exact .stop nofun
  · rename_i hpc _
    refine prepare_outcome fun hready => .ok (.changed (f := id) hwf (Deques.act_idle _) rfl
      ((hwf k).with_pc (by simp [hpc]) ?_) (by rfl) ?_ (.enter th hready rfl) ?_)
    · exact .inr ⟨th, .inr rfl⟩
    · simp [hand, hpc]
    · simp [pending, hpc]
  · exact .stop nofun

lemma publish_outcome : Outcome s (s.op (.publish k)) (step s (.publish k)) := by
  simp only [step]
  split
  · rename_i th hpc
    have hroom := ((hwf k).pushing th hpc).2
    have hop : s.op (.publish k) = .append k th := by simp [Sys.op, hpc]
    obtain ⟨hv, hq⟩ := (hwf k).push hpc hroom
    rw [dif_pos hroom, hop]
    exact .ok (.changed (f := (· ++ [th])) hwf (fun _ => rfl) rfl hv hq (by simp [hand, hpc]) (.stay rfl)
      (by simp [pending, hpc]))
  · exact .stop (by simp)

lemma spill_outcome : Outcome s (s.op (.spill k)) (step s (.spill k)) := by
  simp only [step]
  split
  · rename_i th hlock hpc
    have hop : s.op (.spill k) = .append k th := by simp [Sys.op, hpc]
    rw [hop]
    refine .ok (.changed (f := (· ++ [th])) hwf (fun _ => rfl) rfl ((hwf k).grown hlock (by simp [hpc]) rfl (by simp)) ?_
      (by simp [hand, hpc]) (.stay rfl) (by simp [pending, hpc]))
    rw [Kthread.queue_free hlock, ← RunQueue.toList_threadReadyOverflow]
    exact Kthread.queue_free (k := { s.ks k with q := _, pc := .counting }) hlock
  · exact .stop nofun

lemma head_outcome : Outcome s (s.op (.head k)) (step s (.head k)) := by
  simp only [step]
  split
  · rename_i th hlock hpc
    have hop : s.op (.head k) = .prepend k th := by simp [Sys.op, hpc]
    rw [hop]
    refine .ok (.changed (f := (th :: ·)) hwf (fun _ => rfl) rfl ((hwf k).grown hlock (by simp [hpc]) rfl (by simp)) ?_
      (by simp [hand, hpc]) (.stay rfl) (by simp [pending, hpc]))
    rw [Kthread.queue_free hlock, ← RunQueue.toList_threadReadyHead]
    exact Kthread.queue_free (k := { s.ks k with q := _, pc := .counting }) hlock
  · exact .stop nofun

/-! ### Under the lock of the kthread -/

lemma rest_outcome (hk : (s.ks k).Rest) (hv : v.Rest)
    (hcount : v.q.count = (s.ks k).q.count) (hlist : v.q.toList = (s.ks k).q.toList)
    (hp : v.pending = (s.ks k).pending) : Outcome s .idle (.ok (s.set k v)) := by
  refine .ok (.changed (f := id) hwf (Deques.act_idle _) rfl (hv.wf_iff.2 ?_) ?_ ?_ (.stay rfl) (congrArg (· + _) hp))
  · rw [hcount, hlist]
    exact hk.wf_iff.1 (hwf k)
  · exact (hv.queue.trans hlist).trans hk.queue.symm
  · rw [hk.hand, hv.hand]

lemma readyLocked_outcome : Outcome s (.append k th) (step s (.readyLocked k th now)) := by
  simp only [step]
  split
  · rename_i hlock hpc
    have hk : (s.ks k).Rest := ⟨.inr hlock, .inl hpc⟩
    have hv : Kthread.Rest { s.ks k with q := (s.ks k).q.threadReadyLocked th } := ⟨.inr hlock, .inl hpc⟩
    refine prepare_outcome fun hready => .ok (.changed (f := (· ++ [th])) hwf (fun _ => rfl) rfl (hv.wf_iff.2 ?_) ?_
      (by rfl) (.enter th hready rfl) (by simp [pending, hpc]))
    · rw [RunQueue.count_threadReadyLocked, RunQueue.toList_threadReadyLocked, List.length_append]
      exact Kthread.count_succ (hk.wf_iff.1 (hwf k))
    · rw [hk.queue, hv.queue, RunQueue.toList_threadReadyLocked]
  · exact .stop nofun

lemma readyHeadLocked_outcome : Outcome s (.prepend k th) (step s (.readyHeadLocked k th now)) := by
  simp only [step]
  split
  · rename_i hlock hpc
    have hk : (s.ks k).Rest := ⟨.inr hlock, .inl hpc⟩
    have hv : Kthread.Rest { s.ks k with q := (s.ks k).q.threadReadyHeadLocked th } := ⟨.inr hlock, .inl hpc⟩
    refine prepare_outcome fun hready => .ok (.changed (f := (th :: ·)) hwf (fun _ => rfl) rfl (hv.wf_iff.2 ?_) ?_
      (by rfl) (.enter th hready rfl) (by simp [pending, hpc]))
    · rw [RunQueue.count_threadReadyHeadLocked, RunQueue.toList_threadReadyHeadLocked]
      exact Kthread.count_succ (hk.wf_iff.1 (hwf k))
    · rw [hk.queue, hv.queue, RunQueue.toList_threadReadyHeadLocked]
  · exact .stop nofun

lemma pop_outcome : Outcome s (.pop k (s.ks k).q.rq.front) (step s (.pop k)) := by
  simp only [step]
  split
  · rename_i hlock hpc
    split
    · rename_i hne
      have hk : (s.ks k).Rest := ⟨.inr hlock, .inl hpc⟩
      have hv : Kthread.Rest (K := K) ⟨((s.ks k).q.pop hne).2, .free, .popped ((s.ks k).q.pop hne).1⟩ :=
        ⟨.inl rfl, .inr ⟨_, rfl⟩⟩
      have hcount := hk.wf_iff.1 (hwf k)
      have hlist := (s.ks k).q.toList_pop hne
      have hq : (s.ks k).queue = (s.ks k).q.rq.front :: _ := hk.queue.trans (hlist.trans (by rw [← hv.queue]; rfl))
      refine .ok (.of_update hwf rfl (hv.wf_iff.2 ?_) ?_ (.stay rfl) ?_)
      · rw [← (s.ks k).q.count_pop hne, hlist, List.length_cons, BitVec.ofNat_add] at hcount
        exact add_right_cancel hcount
      · rw [hv.hand, ← hk.hand]
        simp [Deques.act, Sys.abs, hq]
      · simp [pending, hpc, RunQueue.pop]
    · exact .stop (by simp)
  · exact .stop (by simp)

/-! ### Thieves -/

lemma steal_outcome : Outcome s .idle (step s (.steal l r)) := by
  simp only [step]
  split
  · rename_i hown hpc hfree
    split
    · exact .ok ⟨hwf, rfl, 0, 0, .stay rfl, rfl⟩
    · have hne : l ≠ r := by
        rintro rfl
        simp [hown] at hfree
      refine .ok (.of_steal (.steal (f := []) hwf ((hwf r).locked hfree l)
        ((hwf l).thief hown (by simp [hpc]) (.inl ⟨r, _, rfl⟩)) hne (Kthread.queue_free hfree) rfl rfl ?_ rfl ?_))
      · simp [hand, hpc]
      · simp [pending, hpc]
  · exact .stop nofun

lemma load_outcome : Outcome s .idle (step s (.load l)) := by
  simp only [step]
  split
  · rename_i r lsize nr hpc
    split
    · rename_i l' hlock
      split
      · have hqueue : (s.ks r).queue = (s.ks r).q.toList := by rw [queue, hlock]
        exact .ok (.changed (f := id) hwf (Deques.act_idle _) rfl
          ((hwf r).drained hlock rfl rfl id (s.ks r).q.valid_drain hqueue.symm) hqueue.symm rfl (.stay rfl) rfl)
      · exact .stop nofun
    · exact .stop nofun
  · exact .stop nofun

lemma take_outcome : Outcome s (s.op (.take l)) (step s (.take l)) := by
  simp only [step]
  split
  · rename_i r lsize nr hpc
    split
    · rename_i l' d hlock
      have hvalid := (hwf r).draining _ _ hlock
      have hle := hvalid.tail_le.trans (s.ks r).q.rq.len_le
      split
      · split
        · rename_i d' q' hround
          have hop : s.op (.take l) = .idle := by simp [Sys.op, hpc, hlock, hround]
          have hnext := Drain.next_of_round hround
          obtain ⟨hvalid, hview, -⟩ := hvalid.next hnext
          obtain ⟨hrq, hhead, htail, -⟩ := Drain.next_rq hnext
          have hqueue : d'.view q' = (s.ks r).queue := by rw [hview, queue, hlock]
          rw [hop]
          refine .ok (.changed (f := id) hwf (Deques.act_idle _) rfl
            ((hwf r).drained hlock hrq ?_ (Drain.next_overflow hnext) hvalid hqueue) hqueue rfl (.stay rfl) rfl)
          rw [RunQueue.count, RunQueue.count, hhead, htail]
        · rename_i hround
          have hop : s.op (.take l) = .steal l r d.l.length := by simp [Sys.op, hpc, hlock, hround]
          obtain ⟨hown, rfl⟩ := (hwf l).sized lsize (by rw [Kthread.lsize, hpc]; rfl)
          have hne : l ≠ r := by
            rintro rfl
            simp [hown] at hlock
          rw [hop]
          exact .ok (.steal hwf ((hwf r).robbed hlock hle) ((hwf l).thief hown (by simp [hpc]) (.inr ⟨_, rfl⟩)) hne
            (by rw [queue, hlock]; rfl) rfl rfl (by simp [hand, hpc]) rfl (by simp [pending, hpc]))
      · exact .stop (by simp)
    · exact .stop (by simp)
  · exact .stop (by simp)

lemma merge_outcome (hbound : (s.ks l).queue.length < 2 ^ 32) : Outcome s (.merge l) (step s (.merge l)) := by
  simp only [step]
  split
  · rename_i stolen lsize hpc
    obtain ⟨hv, hq⟩ := (hwf l).merged s.tsc hpc hbound
    refine .ok (.of_update hwf rfl hv ?_ (.stay rfl) (by simp [pending, hpc]))
    rw [hq]
    simp [Deques.act, Sys.abs, hand, hpc]
  · exact .stop (by simp)

/-- A step is the queue operation it stands for. -/
lemma step_outcome (hbound : ∀ k, (s.ks k).queue.length < 2 ^ 32)
    (e : Event K θ) : Outcome s (s.op e) (step s e) := by
  cases e with
  | lock k =>
    simp only [step]
    split
    · rename_i hlock hpc
      exact rest_outcome hwf ⟨.inl hlock, .inl hpc⟩ ⟨.inr rfl, .inl hpc⟩ rfl rfl rfl
    · exact .stop nofun
  | unlock k =>
    simp only [step]
    split
    · rename_i hlock hpc
      exact rest_outcome hwf ⟨.inr hlock, .inl hpc⟩ ⟨.inl rfl, .inl hpc⟩ rfl rfl rfl
    · exact .stop nofun
  | drainOverflow k =>
    simp only [step]
    split
    · rename_i hlock hpc
      exact rest_outcome hwf ⟨.inr hlock, .inl hpc⟩ ⟨.inr hlock, .inl hpc⟩ rfl (by simp) rfl
    · exact .stop nofun
  | count k =>
    simp only [step]
    split
    · rename_i hpc
      exact .ok (.changed (f := id) hwf (Deques.act_idle _) rfl ((hwf k).counted hpc) rfl
        (by simp [hand, hpc]) (.stay rfl) (by simp [Sys.op, pending, hpc]))
    · exact .stop nofun
  | run k =>
    simp only [step]
    split
    · rename_i th hpc
      exact .ok (.changed (f := id) hwf (Deques.act_idle _) rfl ((hwf k).with_pc (by simp [hpc]) (.inl rfl)) rfl
        (by simp [hand, hpc]) (.leave th rfl) (by simp [Sys.op, pending, hpc]))
    · exact .stop nofun
  | ready k th now => exact ready_outcome hwf
  | publish k => exact publish_outcome hwf
  | spill k => exact spill_outcome hwf
  | readyHead k th now => exact readyHead_outcome hwf
  | head k => exact head_outcome hwf
  | readyLocked k th now => exact readyLocked_outcome hwf
  | readyHeadLocked k th now => exact readyHeadLocked_outcome hwf
  | pop k => exact pop_outcome hwf
  | steal l r => exact steal_outcome hwf
  | load l => exact load_outcome hwf
  | take l => exact take_outcome hwf
  | merge l => exact merge_outcome hwf (hbound l)

lemma step_refines (hbound : ∀ k, (s.ks k).queue.length < 2 ^ 32)
    (h : step s e = .ok s') : Refines s s' (s.op e) :=
  (step_outcome hwf hbound e).of_ok h

end Aspen.Sched
