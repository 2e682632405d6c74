import Aspen.Base.Wraps
import Aspen.Lib.Ring

/-!
# The run queue of a kthread

The run queue of `struct kthread`, the counters of its `struct q_ptrs`, and the functions of `runtime/sched.c`
that work on them, each as it runs under the lock of the kthread. What `thread_ready` does without the lock is
in `Queues`.
-/

namespace Aspen.Sched

open List

def rqSize : ℕ := 32

instance : RingSize 32 rqSize := ⟨by decide, by decide, by decide⟩

structure RunQueue (θ : Type*) where
  rq : Ring θ 32 rqSize
  overflow : List θ
  qHead : BitVec 32
  qTail : BitVec 32

namespace RunQueue

variable {θ : Type*} {q q' : RunQueue θ}

variable (q)

def toList : List θ := q.rq.toList ++ q.overflow

def count : BitVec 32 := q.qHead - q.qTail

def Packed : Prop := q.overflow = [] ∨ q.rq.length = rqSize

/-! ## Overflow -/

def drainInto (rq : Ring θ 32 rqSize) : List θ → Ring θ 32 rqSize × List θ
  | [] => (rq, [])
  | th :: l => if h : rq.length < rqSize then drainInto (rq.push th h) l else (rq, th :: l)

/-- Move overflow tasks into the ring. The callers test the list first, which makes no difference. -/
def drainOverflow : RunQueue θ :=
  { q with rq := (drainInto q.rq q.overflow).1, overflow := (drainInto q.rq q.overflow).2 }

lemma drainInto_toList (rq : Ring θ 32 rqSize) (l : List θ) :
    (drainInto rq l).1.toList ++ (drainInto rq l).2 = rq.toList ++ l := by
  induction l generalizing rq with
  | nil => rfl
  | cons th l ih =>
    unfold drainInto
    split
    · rw [ih, rq.toList_push, append_assoc]
      rfl
    · rfl

lemma drainInto_packed (rq : Ring θ 32 rqSize) (l : List θ) :
    (drainInto rq l).2 = [] ∨ (drainInto rq l).1.length = rqSize := by
  induction l generalizing rq with
  | nil => exact .inl rfl
  | cons th l ih =>
    unfold drainInto
    split
    · exact ih _
    · rename_i h
      exact .inr (le_antisymm rq.len_le (not_lt.1 h))

@[simp] lemma toList_drainOverflow : q.drainOverflow.toList = q.toList := drainInto_toList q.rq q.overflow

/-! ## Entering the queue -/

/-- Append to the ring, or to the overflow list if the ring is full. -/
def enqueue (th : θ) : RunQueue θ := if h : q.rq.length < rqSize then { q with rq := q.rq.push th h }
  else { q with overflow := q.overflow ++ [th] }

variable {q}

lemma toList_push (hover : q.overflow = []) (th : θ) (h : q.rq.length < rqSize) :
    ({ q with rq := q.rq.push th h } : RunQueue θ).toList = q.toList ++ [th] := by
  show (q.rq.push th h).toList ++ q.overflow = q.rq.toList ++ q.overflow ++ [th]
  rw [q.rq.toList_push, hover, append_nil, append_nil]

lemma toList_enqueue (hq : q.Packed) (th : θ) : (q.enqueue th).toList = q.toList ++ [th] := by
  unfold enqueue
  split
  · rename_i h
    exact toList_push (hq.resolve_right h.ne) th h
  · show q.rq.toList ++ (q.overflow ++ [th]) = q.rq.toList ++ q.overflow ++ [th]
    rw [append_assoc]

lemma packed_enqueue (hq : q.Packed) (th : θ) : (q.enqueue th).Packed := by
  unfold enqueue
  split
  · rename_i h
    exact .inl (hq.resolve_right h.ne)
  · rename_i h
    exact .inr (le_antisymm q.rq.len_le (not_lt.1 h))

variable (q)

variable (th : θ)

lemma enqueue_counters : (q.enqueue th).qHead = q.qHead ∧ (q.enqueue th).qTail = q.qTail := by
  unfold enqueue
  split
  · exact ⟨rfl, rfl⟩
  · exact ⟨rfl, rfl⟩

/-- `thread_ready_locked` behind `thread_ready_prepare`. -/
def threadReadyLocked : RunQueue θ :=
  -- ensure new thread lands after older threads
  let q := q.drainOverflow.enqueue th
  { q with qHead := q.qHead + 1 }

@[simp] lemma toList_threadReadyLocked : (q.threadReadyLocked th).toList = q.toList ++ [th] := by
  show (q.drainOverflow.enqueue th).toList = _
  rw [toList_enqueue (q := q.drainOverflow) (drainInto_packed ..), toList_drainOverflow]

@[simp] lemma count_threadReadyLocked : (q.threadReadyLocked th).count = q.count + 1 := by
  obtain ⟨hhead, htail⟩ := enqueue_counters q.drainOverflow th
  show (q.drainOverflow.enqueue th).qHead + 1 - (q.drainOverflow.enqueue th).qTail = _
  rw [hhead, htail]
  show q.qHead + 1 - q.qTail = q.qHead - q.qTail + 1
  ring

/-- The critical section of `thread_ready` when the ring had no room. -/
def threadReadyOverflow : RunQueue θ := { q with overflow := q.overflow ++ [th] }.drainOverflow

@[simp] lemma toList_threadReadyOverflow : (q.threadReadyOverflow th).toList = q.toList ++ [th] := by
  rw [threadReadyOverflow, toList_drainOverflow]
  exact (append_assoc ..).symm

/-- The critical section of `thread_ready_head`: the newest entry of a full ring makes room. -/
def threadReadyHead : RunQueue θ := { q with rq := q.rq.pushFront th, overflow := q.rq.evicted.toList ++ q.overflow }

@[simp] lemma toList_threadReadyHead : (q.threadReadyHead th).toList = th :: q.toList := by
  show (q.rq.pushFront th).toList ++ (q.rq.evicted.toList ++ q.overflow) = _
  rw [← append_assoc, q.rq.toList_pushFront]
  rfl

/-- `thread_ready_head_locked` behind `thread_ready_prepare`. -/
def threadReadyHeadLocked : RunQueue θ := { q.threadReadyHead th with qHead := q.qHead + 1 }

@[simp] lemma toList_threadReadyHeadLocked :
    (q.threadReadyHeadLocked th).toList = th :: q.toList := toList_threadReadyHead q th

@[simp] lemma count_threadReadyHeadLocked : (q.threadReadyHeadLocked th).count = q.count + 1 := by
  show q.qHead + 1 - q.qTail = q.qHead - q.qTail + 1
  ring

/-! ## Leaving the queue -/

def pop (h : q.rq.length ≠ 0) : θ × RunQueue θ :=
  (q.rq.front, { q with rq := q.rq.pop h, qTail := q.qTail + 1 }.drainOverflow)

lemma toList_pop (h : q.rq.length ≠ 0) : q.toList = (q.pop h).1 :: (q.pop h).2.toList := by
  show _ = q.rq.front :: ({ q with rq := q.rq.pop h, qTail := q.qTail + 1 } : RunQueue θ).drainOverflow.toList
  rw [toList_drainOverflow]
  show q.rq.toList ++ q.overflow = q.rq.front :: ((q.rq.pop h).toList ++ q.overflow)
  rw [q.rq.toList_pop h]
  rfl

lemma count_pop (h : q.rq.length ≠ 0) : (q.pop h).2.count + 1 = q.count := by
  show q.qHead - (q.qTail + 1) + 1 = q.qHead - q.qTail
  ring

variable {q}

end RunQueue

/-! ## Stealing -/

/-- The locals of `drain_threads`: both indices as they were loaded, the second one moving, and the list
that takes the threads. -/
structure Drain (θ : Type*) where
  head : BitVec 32
  tail : BitVec 32
  l : List θ

namespace Drain

variable {θ : Type*} {d d' : Drain θ}

/-- One round of the loop of `drain_threads` over a queue; `none` if the queue is empty. -/
def next (d : Drain θ) (q : RunQueue θ) : Option (Drain θ × RunQueue θ) :=
  if wrapsLt d.tail d.head then
    some ({ d with tail := d.tail + 1, l := d.l ++ [q.rq.buf (slot rqSize d.tail)] }, q)
  else
    match q.overflow with
    | [] => none
    | th :: overflow => some ({ d with l := d.l ++ [th] }, { q with overflow := overflow })

def view (d : Drain θ) (q : RunQueue θ) : List θ :=
  d.l ++ (contents q.rq.buf d.tail (q.rq.head - d.tail).toNat ++ q.overflow)

/-- The loaded indices lie between those of the queue, and whoever appended since found the overflow
list empty. -/
structure Valid (d : Drain θ) (q : RunQueue θ) : Prop where
  tail_le : (q.rq.head - d.tail).toNat ≤ q.rq.length
  head_le : (d.head - d.tail).toNat ≤ (q.rq.head - d.tail).toNat
  overflow : q.rq.head = d.head ∨ q.overflow = []

lemma wrapsLt_iff_ne (h : (d.head - d.tail).toNat ≤ rqSize) : wrapsLt d.tail d.head ↔ d.tail ≠ d.head := by
  have hsize : rqSize = 32 := rfl
  simp only [wrapsLt, decide_eq_true_eq, BitVec.toInt_eq_toNat_cond]
  bv_omega

lemma Valid.head_sub_le (hv : d.Valid q) :
    (d.head - d.tail).toNat ≤ rqSize := hv.head_le.trans (hv.tail_le.trans q.rq.len_le)

lemma toNat_sub_add_one {a b : BitVec 32} (h : (a - b).toNat ≠ 0) : (a - (b + 1)).toNat + 1 = (a - b).toNat := by
  rw [← sub_sub, toNat_sub_one h]

def rest {d : Drain θ} {q : RunQueue θ} (hv : d.Valid q) : Ring θ 32 rqSize :=
  { q.rq with tail := d.tail, len_le := hv.tail_le.trans q.rq.len_le }

lemma Valid.push (hv : d.Valid q) (hover : q.overflow = []) (th : θ) (h : q.rq.length < rqSize) :
    d.Valid { q with rq := q.rq.push th h } ∧ d.view { q with rq := q.rq.push th h } = d.view q ++ [th] := by
  have hlen : (rest hv).length ≤ q.rq.length := hv.tail_le
  have hroom : (rest hv).length < rqSize := hlen.trans_lt h
  have hnext : (q.rq.head + 1 - d.tail).toNat = (q.rq.head - d.tail).toNat + 1 := (rest hv).length_push th hroom
  refine ⟨⟨?_, ?_, .inr hover⟩, ?_⟩
  · show (q.rq.head + 1 - d.tail).toNat ≤ (q.rq.push th h).length
    rw [hnext, q.rq.length_push]
    exact Nat.succ_le_succ hv.tail_le
  · show (d.head - d.tail).toNat ≤ (q.rq.head + 1 - d.tail).toNat
    rw [hnext]
    exact hv.head_le.trans (Nat.le_succ _)
  · show d.l ++ (((rest hv).push th hroom).toList ++ q.overflow) = d.l ++ ((rest hv).toList ++ q.overflow) ++ [th]
    rw [Ring.toList_push, hover]
    simp

lemma Valid.next (hv : d.Valid q) (h : d.next q = some (d', q')) :
    d'.Valid q' ∧ d'.view q' = d.view q ∧ d'.l.length = d.l.length + 1 := by
  unfold Drain.next at h
  split at h
  · rename_i hlt
    cases h
    have hne : (d.head - d.tail).toNat ≠ 0 := by
      intro hzero
      refine (wrapsLt_iff_ne hv.head_sub_le).1 hlt (sub_eq_zero.1 ?_).symm
      exact BitVec.eq_of_toNat_eq hzero
    have hhead := toNat_sub_add_one hne
    have hq := toNat_sub_add_one (a := q.rq.head) (b := d.tail) (by have := hv.head_le; omega)
    refine ⟨⟨?_, ?_, hv.overflow⟩, ?_, by simp⟩
    · have := hv.tail_le
      show (q.rq.head - (d.tail + 1)).toNat ≤ _
      omega
    · have := hv.head_le
      show (d.head - (d.tail + 1)).toNat ≤ (q.rq.head - (d.tail + 1)).toNat
      omega
    · show d.l ++ [_] ++ (contents q.rq.buf (d.tail + 1) (q.rq.head - (d.tail + 1)).toNat ++ _) = _
      rw [view, ← hq, contents_succ]
      simp
  · rename_i hge
    split at h
    · cases h
    · rename_i th overflow hover
      cases h
      -- the ring is empty: nobody has appended behind an overflow list in use
      have htail : d.tail = d.head := by
        by_contra hne
        exact hge ((wrapsLt_iff_ne hv.head_sub_le).2 hne)
      have hhead : q.rq.head = d.head := hv.overflow.resolve_right (by simp [hover])
      refine ⟨⟨hv.tail_le, hv.head_le, .inl hhead⟩, ?_, by simp⟩
      simp [view, hover, hhead, htail]

lemma Valid.view_of_next_eq_none (hv : d.Valid q)
    (hhead : q.rq.head = d.head) (h : d.next q = none) : d.view q = d.l := by
  unfold Drain.next at h
  split at h
  · cases h
  · rename_i hge
    split at h
    · rename_i hover
      have htail : d.tail = d.head := by
        by_contra hne
        exact hge ((wrapsLt_iff_ne hv.head_sub_le).2 hne)
      simp [view, hover, hhead, htail]
    · cases h

def loop : ℕ → Drain θ → RunQueue θ → Drain θ × RunQueue θ
  | 0, d, q => (d, q)
  | nr + 1, d, q => match d.next q with
    | none => (d, q)
    | some (d, q) => loop nr d q

lemma next_rq (h : d.next q = some (d', q')) :
    q'.rq = q.rq ∧ q'.qHead = q.qHead ∧ q'.qTail = q.qTail ∧ d'.head = d.head := by
  unfold Drain.next at h
  repeat' split at h
  all_goals cases h
  · exact ⟨rfl, rfl, rfl, rfl⟩
  · exact ⟨rfl, rfl, rfl, rfl⟩

lemma next_overflow (h : d.next q = some (d', q')) (hover : q.overflow = []) : q'.overflow = [] := by
  unfold Drain.next at h
  rw [hover] at h
  split at h
  · cases h
    exact hover
  · cases h

lemma loop_spec (nr : ℕ) (hv : d.Valid q) (hhead : q.rq.head = d.head) :
    (loop nr d q).1.view (loop nr d q).2 = d.view q ∧
    ((loop nr d q).1.l.length = d.l.length + nr ∨ (loop nr d q).1.l = d.view q) ∧
    (loop nr d q).2.rq = q.rq ∧ (loop nr d q).2.qHead = q.qHead ∧ (loop nr d q).2.qTail = q.qTail := by
  induction nr generalizing d q with
  | zero => exact ⟨rfl, .inl rfl, rfl, rfl, rfl⟩
  | succ nr ih =>
    unfold loop
    split
    · rename_i hnone
      exact ⟨rfl, .inr (hv.view_of_next_eq_none hhead hnone).symm, rfl, rfl, rfl⟩
    · rename_i d' q' hsome
      obtain ⟨hv', hview, hlen⟩ := hv.next hsome
      obtain ⟨hrq, hqh, hqt, hd⟩ := next_rq hsome
      obtain ⟨h1, h2, h3, h4, h5⟩ := ih hv' (by rw [hrq, hhead, hd])
      refine ⟨h1.trans hview, ?_, h3.trans hrq, h4.trans hqh, h5.trans hqt⟩
      rw [hview, hlen] at h2
      rcases h2 with h2 | h2
      · left
        omega
      · exact .inr h2

end Drain

namespace RunQueue

variable {θ : Type*} {q q' : RunQueue θ}

variable (tsc : θ → BitVec 64)

variable (q)

def drain : Drain θ := { head := q.rq.head, tail := q.rq.tail, l := [] }

lemma valid_drain : q.drain.Valid q := ⟨le_rfl, le_rfl, .inl rfl⟩

@[simp] lemma view_drain : q.drain.view q = q.toList := rfl

lemma loop_drain :
    (q.drain.loop q.toList.length q).1.l = q.toList ∧ (q.drain.loop q.toList.length q).2.overflow = [] := by
  obtain ⟨hview, hlen, -⟩ := Drain.loop_spec q.toList.length q.valid_drain rfl
  rw [view_drain] at hview hlen
  generalize q.drain.loop q.toList.length q = x at hview hlen ⊢
  have hsub := congrArg List.length hview
  rw [Drain.view, length_append, length_append] at hsub
  have hl : x.1.l.length = q.toList.length := by
    rcases hlen with hlen | hlen
    · simpa [drain] using hlen
    · rw [hlen]
  have hrest : contents x.2.rq.buf x.1.tail (x.2.rq.head - x.1.tail).toNat ++ x.2.overflow = [] := by
    apply eq_nil_of_length_eq_zero
    rw [length_append]
    omega
  refine ⟨?_, (append_eq_nil_iff.1 hrest).2⟩
  rw [← hview, Drain.view, hrest, append_nil]

variable {q}

def readyLe (a b : θ) : Bool := !(tsc b < tsc a)

/-- The loop of `merge_runqueues` over what was stolen and what was there. -/
def mergeLoop (tsc : θ → BitVec 64) : ℕ → List θ → List θ → RunQueue θ → RunQueue θ
  | 0, _, _, q => q
  | n + 1, r :: rs, l :: ls, q =>
    if tsc r < tsc l then mergeLoop tsc n rs (l :: ls) (q.enqueue r)
    else mergeLoop tsc n (r :: rs) ls (q.enqueue l)
  | n + 1, r :: rs, [], q => mergeLoop tsc n rs [] (q.enqueue r)
  | n + 1, [], l :: ls, q => mergeLoop tsc n [] ls (q.enqueue l)
  -- `assert(th)`
  | _ + 1, [], [], q => q

lemma toList_mergeLoop {n : ℕ} {rs ls : List θ} (hq : q.Packed) (hn : n = ls.length + rs.length) :
    (mergeLoop tsc n rs ls q).toList = q.toList ++ ls.merge rs (readyLe tsc) := by
  induction n generalizing rs ls q with
  | zero =>
    obtain ⟨hl, hr⟩ : ls.length = 0 ∧ rs.length = 0 := by omega
    rw [eq_nil_of_length_eq_zero hl, eq_nil_of_length_eq_zero hr]
    simp [mergeLoop]
  | succ n ih =>
    have hput : ∀ {th : θ} {rs ls : List θ}, n = ls.length + rs.length →
        (mergeLoop tsc n rs ls (q.enqueue th)).toList = q.toList ++ th :: ls.merge rs (readyLe tsc) := by
      intro th rs ls hn
      rw [ih (packed_enqueue hq th) hn, toList_enqueue hq, append_assoc]
      rfl
    match rs, ls with
    | [], [] => simp at hn
    | [], l :: ls =>
      rw [mergeLoop, hput (by simpa using hn)]
      simp
    | r :: rs, [] =>
      rw [mergeLoop, hput (by simpa using hn)]
      simp
    | r :: rs, l :: ls =>
      rw [mergeLoop, cons_merge_cons, readyLe]
      simp only [length_cons] at hn
      split
      · rename_i hlt
        rw [hput (by rw [length_cons]; omega), if_neg (by simpa using hlt)]
      · rename_i hge
        rw [hput (by rw [length_cons]; omega), if_pos (by simpa using hge)]

lemma mergeLoop_counters (n : ℕ) (rs ls : List θ) (q : RunQueue θ) :
    (mergeLoop tsc n rs ls q).qHead = q.qHead ∧ (mergeLoop tsc n rs ls q).qTail = q.qTail := by
  have hput : ∀ {q1 : RunQueue θ} (q : RunQueue θ) (th : θ),
      q1.qHead = (q.enqueue th).qHead ∧ q1.qTail = (q.enqueue th).qTail →
        q1.qHead = q.qHead ∧ q1.qTail = q.qTail := by
    intro q1 q th h
    rwa [(enqueue_counters q th).1, (enqueue_counters q th).2] at h
  fun_induction mergeLoop with
  | case1 => exact ⟨rfl, rfl⟩
  | case2 n r rs l ls q hlt ih => exact hput q r ih
  | case3 n r rs l ls q hge ih => exact hput q l ih
  | case4 n r rs q ih => exact hput q r ih
  | case5 n l ls q ih => exact hput q l ih
  | case6 => exact ⟨rfl, rfl⟩

/-- `merge_runqueues` from where the lock of the victim is dropped. -/
def mergeRunqueues (q : RunQueue θ) (stolen : List θ) (lsize : ℕ) : RunQueue θ := let (d, q) := q.drain.loop lsize q
  let q := mergeLoop tsc (d.l.length + stolen.length) stolen d.l { q with rq := q.rq.reset }
  { q with qHead := q.qHead + BitVec.ofNat 32 stolen.length }

lemma toList_mergeRunqueues {stolen : List θ} {lsize : ℕ} (hsize : lsize = q.toList.length) :
    (q.mergeRunqueues tsc stolen lsize).toList = q.toList.merge stolen (readyLe tsc) := by
  obtain ⟨hl, hover⟩ := loop_drain q
  subst hsize
  generalize hx : q.drain.loop q.toList.length q = x at hl hover
  have hpacked : ({ x.2 with rq := x.2.rq.reset } : RunQueue θ).Packed := .inl hover
  have hempty : ({ x.2 with rq := x.2.rq.reset } : RunQueue θ).toList = [] := by
    simp [toList, hover]
  show (mergeLoop tsc _ stolen _ { (q.drain.loop q.toList.length q).2 with rq := _ }).toList = _
  rw [hx, toList_mergeLoop tsc hpacked rfl, hempty, hl, nil_append]

lemma count_mergeRunqueues (q : RunQueue θ) (stolen : List θ) (lsize : ℕ) :
    (q.mergeRunqueues tsc stolen lsize).count = q.count + BitVec.ofNat 32 stolen.length := by
  obtain ⟨-, -, -, hhead, htail⟩ := Drain.loop_spec lsize q.valid_drain rfl
  obtain ⟨hhead', htail'⟩ := mergeLoop_counters tsc
    ((q.drain.loop lsize q).1.l.length + stolen.length) stolen (q.drain.loop lsize q).1.l
    { (q.drain.loop lsize q).2 with rq := (q.drain.loop lsize q).2.rq.reset }
  show RunQueue.qHead (mergeLoop tsc _ stolen _ _) + _ - RunQueue.qTail (mergeLoop tsc _ stolen _ _) = _
  rw [hhead', htail', hhead, htail, count]
  ring

end RunQueue

end Aspen.Sched
