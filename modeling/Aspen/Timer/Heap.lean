import Aspen.Lib.DHeap
import Aspen.Lib.Run

/-!
# The timer heaps (`timer.c`)

Every kthread has a 4-ary heap of the timers that have been started on it. A timer entry notes its
position in the heap and the kthread, so that it can be cancelled.
-/

namespace Aspen.Timer

open Function Multiset DHeap
open scoped Run

variable {K ε : Type*} [DecidableEq K] [DecidableEq ε]

def maxTimers : ℕ := 4096

def arity : ℕ := 4

/-- `timers` and `timern` of every kthread, and the fields of every `struct timer_entry`. -/
structure Timers (K ε : Type*) where
  timern : K → ℕ
  timers : K → ℕ → Slot ℕ ε
  idx : ε → ℕ
  localk : ε → K
  armed : ε → Bool
  executing : ε → Bool

variable {h : DHeap ℕ ε}

namespace Timers

variable (s : Timers K ε) (k : K) (e : ε)

def heap : DHeap ℕ ε := ⟨s.timers k, s.idx⟩

def setHeap (n : ℕ) (h : DHeap ℕ ε) : Timers K ε :=
  { s with
    timern := update s.timern k n
    timers := update s.timers k h.slots
    idx := h.idx }

def enter (deadline : ℕ) : Timers K ε := let i := s.timern k
  { s.setHeap k (i + 1) (siftUp arity i ((s.heap k).put i ⟨deadline, e⟩) i) with
    localk := update s.localk e k }

/-- What `__timer_cancel` does to the heap: the last element takes the place of `e`. -/
def leave : Timers K ε := let last := s.timern k - 1
  let h := s.heap k
  if h.idx e = last then s.setHeap k last h
  else
    let h := h.put (h.idx e) (h.slots last)
    let h := siftUp arity (h.idx e) h (h.idx e)
    s.setHeap k last (siftDown arity last h (h.idx e) last)

/-- What `timer_softirq_one` does to the heap: the last element takes the first place. -/
def pop : Timers K ε := let i := s.timern k - 1
  let h := s.heap k
  if 0 < i then s.setHeap k i (siftDown arity i (h.put 0 (h.slots i)) 0 i)
  else s.setHeap k i h

def setArmed (b : Bool) : Timers K ε := { s with armed := update s.armed e b }

def setExecuting (b : Bool) : Timers K ε := { s with executing := update s.executing e b }

def first : ε := (s.timers k 0).entry

def due (now : ℕ) : Bool := 0 < s.timern k ∧ (s.timers k 0).key ≤ now

def pairs : Multiset (Slot ℕ ε) := (s.heap k).contents (s.timern k)

def On : Prop := (s.heap k).Holds (s.timern k) e

structure Wf (s : Timers K ε) : Prop where
  ordered : ∀ k, Ordered arity (s.heap k) (s.timern k)
  linked : ∀ k, (s.heap k).Linked (s.timern k)
  localk : ∀ {k e}, s.On k e → s.localk e = k

/-! ## The operations on one heap -/

variable {s : Timers K ε} {k : K} {e : ε}

lemma leave_setArmed {e' : ε} {b : Bool} : (s.setArmed e' b).leave k e = (s.leave k e).setArmed e' b := by
  unfold leave setArmed
  dsimp only [heap]
  split <;> rfl

@[simp] lemma leave_fields : (s.leave k e).armed = s.armed ∧ (s.leave k e).executing = s.executing ∧
    (s.leave k e).localk = s.localk := by
  unfold leave
  dsimp only
  split <;> exact ⟨rfl, rfl, rfl⟩

@[simp] lemma pop_fields : (s.pop k).armed = s.armed ∧ (s.pop k).executing = s.executing ∧
    (s.pop k).localk = s.localk := by
  unfold pop
  dsimp only
  split <;> exact ⟨rfl, rfl, rfl⟩

omit [DecidableEq K] [DecidableEq ε] in
lemma on_iff : s.On k e ↔ ∃ x ∈ s.pairs k, x.entry = e := holds_iff

omit [DecidableEq ε] in
lemma pairs_setHeap (s : Timers K ε) (k : K) (n : ℕ) (h : DHeap ℕ ε) :
    (s.setHeap k n h).pairs = update s.pairs k (h.contents n) := by
  funext k'
  by_cases hk : k' = k
  · subst hk
    simp [pairs, setHeap, heap]
  · simp only [pairs, setHeap, update_of_ne hk, heap]
    exact contents_congr fun _ _ => rfl

omit [DecidableEq ε] in
lemma Wf.setHeap {n : ℕ} (hwf : s.Wf) (ho : Ordered arity h n)
    (hl : h.Linked n) (hframe : ∀ k' e, k' ≠ k → s.On k' e → h.idx e = s.idx e) :
    (∀ k', Ordered arity ((s.setHeap k n h).heap k') ((s.setHeap k n h).timern k')) ∧
      ∀ k', ((s.setHeap k n h).heap k').Linked ((s.setHeap k n h).timern k') := by
  constructor
  · intro k'
    by_cases hk : k' = k
    · subst hk
      simpa [Timers.setHeap, heap] using ho
    · simp only [Timers.setHeap, update_of_ne hk, heap]
      exact hwf.ordered k'
  · intro k'
    by_cases hk : k' = k
    · subst hk
      simpa [Timers.setHeap, heap] using hl
    · simp only [Timers.setHeap, update_of_ne hk, heap]
      intro j hj
      exact (hframe k' _ hk ⟨j, hj, rfl⟩).trans (hwf.linked k' j hj)

lemma Wf.enter (hwf : s.Wf) (he : ∀ k, ¬ s.On k e) (k : K) (deadline : ℕ) : (s.enter k e deadline).Wf ∧
      (s.enter k e deadline).pairs = update s.pairs k (s.pairs k + {⟨deadline, e⟩}) := by
  obtain ⟨ho, hc, hl, hframe⟩ := insert_spec ⟨deadline, e⟩ (hwf.ordered k)
  have hpairs : (s.enter k e deadline).pairs = update s.pairs k (s.pairs k + {⟨deadline, e⟩}) := by
    refine (pairs_setHeap s k _ _).trans ?_
    rw [hc]
    rfl
  obtain ⟨ho', hl'⟩ := hwf.setHeap ho (hl (hwf.linked k) (he k)) fun k' e' hk hon =>
    hframe e' (by rintro rfl; exact he k' hon) fun hon' =>
      hk ((hwf.localk hon).symm.trans (hwf.localk hon'))
  refine ⟨⟨ho', hl', fun {k' e'} hon => ?_⟩, hpairs⟩
  rw [on_iff, hpairs] at hon
  obtain ⟨x, hx, rfl⟩ := hon
  show update s.localk e k x.entry = k'
  by_cases hk : k' = k
  · subst hk
    rw [update_self, mem_add, mem_singleton] at hx
    rcases hx with hx | rfl
    · rw [update_apply, hwf.localk (on_iff.2 ⟨x, hx, rfl⟩), ite_self]
    · exact update_self ..
  · rw [update_of_ne hk] at hx
    have hon := on_iff.2 ⟨x, hx, rfl⟩
    have hne : x.entry ≠ e := by
      rintro rfl
      exact he k' hon
    rw [update_of_ne hne, hwf.localk hon]

omit [DecidableEq ε] in
lemma Wf.remove {n i : ℕ} (hwf : s.Wf) (hn : s.timern k = n + 1)
    (hr : Removed arity n i (s.heap k) h) : (s.setHeap k n h).Wf ∧
      ∃ p, s.pairs k = p + {s.timers k i} ∧ (s.setHeap k n h).pairs = update s.pairs k p := by
  have hpairs : s.pairs k = h.contents n + {s.timers k i} := by
    rw [pairs, hn, ← hr.contents]
    rfl
  obtain ⟨ho', hl'⟩ := hwf.setHeap (k := k) hr.ordered hr.linked fun k' e' hk hon => hr.frame e' fun hon' =>
    hk ((hwf.localk hon).symm.trans (hwf.localk (k := k) (by rw [On, hn]; exact hon')))
  refine ⟨⟨ho', hl', fun {k' e'} hon => ?_⟩, _, hpairs, pairs_setHeap s k n h⟩
  refine hwf.localk (k := k') (e := e') ?_
  rw [on_iff, pairs_setHeap] at hon
  obtain ⟨x, hx, he⟩ := hon
  refine on_iff.2 ⟨x, ?_, he⟩
  by_cases hk : k' = k
  · subst hk
    rw [update_self] at hx
    exact hpairs ▸ mem_add.2 (.inl hx)
  · rwa [update_of_ne hk] at hx

lemma Wf.leave (hwf : s.Wf) (hon : s.On k e) : (s.leave k e).Wf ∧ ∃ x p, x.entry = e ∧ s.pairs k = p + {x} ∧
      (s.leave k e).pairs = update s.pairs k p := by
  obtain ⟨i, hi, he⟩ := hon
  obtain ⟨n, hn⟩ : ∃ n, s.timern k = n + 1 := Nat.exists_eq_add_one.2 (by omega)
  have ho := hwf.ordered k
  have hl := hwf.linked k
  have hidx : (s.heap k).idx e = i := he ▸ hl i hi
  rw [hn] at ho hl hi
  suffices h : ∃ h, s.leave k e = s.setHeap k n h ∧ Removed arity n i (s.heap k) h by
    obtain ⟨h, hleave, hr⟩ := h
    obtain ⟨hwf', p, hp, hpairs⟩ := hwf.remove hn hr
    rw [hleave]
    exact ⟨hwf', _, p, he, hp, hpairs⟩
  by_cases hlast : i = n
  · subst hlast
    refine ⟨_, ?_, .last ho hl⟩
    simp only [Timers.leave, hn, Nat.add_sub_cancel, hidx, if_pos]
  · have hin : i < n := by omega
    refine ⟨_, ?_, .sifted (by decide) ho hl hin⟩
    -- `e` is not in the heap any more, and the sifts leave its position alone
    obtain ⟨hne, hout⟩ := not_holds_put hin (.inr ⟨hl, he.symm⟩)
    have hput : ((s.heap k).put i ((s.heap k).slots n)).idx e = i := by
      rw [idx_put_of_ne _ hne, hidx]
    have hsift : (siftUp arity i ((s.heap k).put i ((s.heap k).slots n)) i).idx e = i := by
      rw [(siftUp_rearranged hin).frame e hout, hput]
    simp only [Timers.leave, hn, Nat.add_sub_cancel, hidx, if_neg hlast, hput, hsift]

lemma Wf.pop (hwf : s.Wf) (hn : 0 < s.timern k) : (s.pop k).Wf ∧ (∀ y ∈ s.pairs k, (s.timers k 0).key ≤ y.key) ∧
      ∃ p, s.pairs k = p + {s.timers k 0} ∧ (s.pop k).pairs = update s.pairs k p := by
  obtain ⟨n, hn⟩ : ∃ n, s.timern k = n + 1 := Nat.exists_eq_add_one.2 hn
  have ho := hwf.ordered k
  have hl := hwf.linked k
  have hmin : ∀ y ∈ s.pairs k, (s.timers k 0).key ≤ y.key := by
    intro y hy
    obtain ⟨j, hj, rfl⟩ := mem_contents.1 hy
    exact ho.root_le hj
  rw [hn] at ho hl
  suffices h : ∃ h, s.pop k = s.setHeap k n h ∧ Removed arity n 0 (s.heap k) h by
    obtain ⟨h, hpop, hr⟩ := h
    obtain ⟨hwf', p, hp, hpairs⟩ := hwf.remove hn hr
    rw [hpop]
    exact ⟨hwf', hmin, p, hp, hpairs⟩
  by_cases hpos : 0 < n
  · refine ⟨_, ?_, .sifted (by decide) ho hl hpos⟩
    simp only [Timers.pop, hn, Nat.add_sub_cancel, if_pos hpos]
    rfl
  · obtain rfl : n = 0 := by omega
    refine ⟨_, ?_, .last ho hl⟩
    simp only [Timers.pop, hn, Nat.add_sub_cancel, if_neg hpos]

omit [DecidableEq ε] in
lemma on_of_enter {s' : Timers K ε} {deadline : ℕ}
    (hpairs : s'.pairs = update s.pairs k (s.pairs k + {⟨deadline, e⟩})) {k' : K} {e' : ε} :
    s'.On k' e' ↔ s.On k' e' ∨ k' = k ∧ e' = e := by
  rw [on_iff, on_iff, hpairs]
  by_cases hk : k' = k
  · subst hk
    simp only [update_self, mem_add, mem_singleton]
    constructor
    · rintro ⟨x, hx | rfl, he⟩
      · exact .inl ⟨x, hx, he⟩
      · exact .inr ⟨trivial, he.symm⟩
    · rintro (⟨x, hx, he⟩ | ⟨-, rfl⟩)
      · exact ⟨x, .inl hx, he⟩
      · exact ⟨_, .inr rfl, rfl⟩
  · simp [hk]

omit [DecidableEq ε] in
lemma Wf.on_of_remove {s' : Timers K ε} {x : Slot ℕ ε} {p : Multiset (Slot ℕ ε)} (hwf : s.Wf)
    (hx : s.pairs k = p + {x}) (hpairs : s'.pairs = update s.pairs k p) {k' : K} {e' : ε} :
    s'.On k' e' ↔ s.On k' e' ∧ e' ≠ x.entry := by
  have hnodup := (hwf.linked k).nodup
  rw [show (s.heap k).contents (s.timern k) = p + {x} from hx, Multiset.map_add, map_singleton, nodup_add] at hnodup
  have hout : ∀ y ∈ p, y.entry ≠ x.entry := fun y hy heq =>
    (disjoint_right.1 hnodup.2.2 (mem_singleton_self _)) (heq ▸ mem_map_of_mem _ hy)
  have hxon : s.On k x.entry := on_iff.2 ⟨x, by simp [hx], rfl⟩
  by_cases hk : k' = k
  · subst hk
    rw [on_iff, on_iff, hpairs, update_self, hx]
    constructor
    · rintro ⟨y, hy, rfl⟩
      exact ⟨⟨y, mem_add.2 (.inl hy), rfl⟩, hout y hy⟩
    · rintro ⟨⟨y, hy, rfl⟩, hne⟩
      refine ⟨y, (mem_add.1 hy).resolve_right fun h => hne ?_, rfl⟩
      rw [mem_singleton.1 h]
  · rw [on_iff, on_iff, hpairs, update_of_ne hk, ← on_iff]
    refine ⟨fun hon => ⟨hon, ?_⟩, And.left⟩
    rintro rfl
    exact hk ((hwf.localk hon).symm.trans (hwf.localk hxon))

omit [DecidableEq K] [DecidableEq ε] in
lemma Wf.slot_unique (hwf : s.Wf) {p q : K × ℕ} (hp : p.2 < s.timern p.1 ∧ (s.timers p.1 p.2).entry = e)
    (hq : q.2 < s.timern q.1 ∧ (s.timers q.1 q.2).entry = e) : p = q := by
  have hk : p.1 = q.1 := (hwf.localk ⟨p.2, hp.1, hp.2⟩).symm.trans (hwf.localk ⟨q.2, hq.1, hq.2⟩)
  refine Prod.ext hk ?_
  have hpi : s.idx e = p.2 := hp.2 ▸ hwf.linked p.1 p.2 hp.1
  have hqi : s.idx e = q.2 := hq.2 ▸ hwf.linked q.1 q.2 hq.1
  exact hpi.symm.trans hqi

end Timers

/-! ## Runs of critical sections -/

inductive Event (K ε : Type*)
  | timerStart (k : K) (e : ε) (deadline : ℕ)
  | timerCancel (e : ε)
  | fire (k : K) (now : ℕ)
  | finish (e : ε)

inductive Stop
  | armedTwice
  | tooMany
  | spinning

variable {s s' : Timers K ε}

def step (s : Timers K ε) : Event K ε → Except Stop (Timers K ε)
  | .timerStart k e deadline =>
    if s.armed e then .error .armedTwice
    else if maxTimers ≤ s.timern k + 1 then .error .tooMany
    else .ok (((s.enter k e deadline).setArmed e true).setExecuting e false)
  | .timerCancel e =>
    if s.armed e then .ok ((s.setArmed e false).leave (s.localk e) e)
    else if s.executing e then .error .spinning
    else .ok s
  | .fire k now =>
    if s.due k now then
      .ok (((s.pop k).setExecuting (s.first k) true).setArmed (s.first k) false)
    else .ok s
  | .finish e => .ok (s.setExecuting e false)

def Initial (s : Timers K ε) : Prop := (∀ k, s.timern k = 0) ∧ ∀ e, s.armed e = false

structure Inv (s : Timers K ε) : Prop where
  wf : s.Wf
  armed : ∀ e, s.armed e = true ↔ ∃ k, s.On k e

/-- What a step may change of the timers in the heaps: one that is started comes in, one that is cancelled or fires,
with the least deadline, goes out. -/
def Changes (s s' : Timers K ε) : Event K ε → Prop
  | .timerStart k e deadline =>
    s'.pairs = update s.pairs k (s.pairs k + {⟨deadline, e⟩})
  | .timerCancel e =>
    s.armed e = false ∧ s'.pairs = s.pairs ∨ s.armed e = true ∧ ∃ x p, x.entry = e ∧ s.pairs (s.localk e) = p + {x} ∧
        s'.pairs = update s.pairs (s.localk e) p
  | .fire k now =>
    s'.pairs = s.pairs ∧ (∀ x ∈ s.pairs k, now < x.key) ∨
      ∃ x p, x.key ≤ now ∧ (∀ y ∈ s.pairs k, x.key ≤ y.key) ∧ s.pairs k = p + {x} ∧ s'.pairs = update s.pairs k p
  | .finish _ => s'.pairs = s.pairs

lemma timerStart_inv {k : K} {e : ε} {deadline : ℕ} (hI : Inv s)
    (h : step s (.timerStart k e deadline) = .ok s') : Inv s' ∧ Changes s s' (.timerStart k e deadline) := by
  simp only [step] at h
  split at h
  · cases h
  rename_i harmed
  split at h
  · cases h
  cases h
  have he : ∀ k, ¬ s.On k e := fun k hon => harmed ((hI.armed e).2 ⟨k, hon⟩)
  obtain ⟨hwf, hpairs⟩ := hI.wf.enter he k deadline
  refine ⟨⟨⟨hwf.ordered, hwf.linked, hwf.localk⟩, fun e' => ?_⟩, hpairs⟩
  have hon : ∀ k', (s.enter k e deadline).On k' e' ↔ s.On k' e' ∨ k' = k ∧ e' = e := fun _ =>
    Timers.on_of_enter hpairs
  show update s.armed e true e' ↔ ∃ k', (s.enter k e deadline).On k' e'
  simp only [hon]
  by_cases hee : e' = e
  · simp [hee]
  · simp [hee, hI.armed]

lemma Inv.remove {k : K} {x : Slot ℕ ε} {p : Multiset (Slot ℕ ε)} (hI : Inv s) (hwf : s'.Wf)
    (hx : s.pairs k = p + {x}) (hpairs : s'.pairs = update s.pairs k p)
    (harmed : s'.armed = update s.armed x.entry false) : Inv s' := by
  refine ⟨hwf, fun e => ?_⟩
  simp only [harmed, hI.wf.on_of_remove hx hpairs]
  by_cases he : e = x.entry
  · simp [he]
  · simp [he, hI.armed]

lemma timerCancel_inv {e : ε} (hI : Inv s) (h : step s (.timerCancel e) = .ok s') :
    Inv s' ∧ Changes s s' (.timerCancel e) := by
  simp only [step] at h
  split at h
  · rename_i harmed
    cases h
    obtain ⟨k, hk⟩ := (hI.armed e).1 harmed
    obtain rfl := hI.wf.localk hk
    obtain ⟨hwf, x, p, rfl, hx, hpairs⟩ := hI.wf.leave hk
    rw [Timers.leave_setArmed]
    refine ⟨hI.remove ⟨hwf.ordered, hwf.linked, hwf.localk⟩ hx hpairs ?_, .inr ⟨harmed, x, p, rfl, hx, hpairs⟩⟩
    simp [Timers.setArmed]
  · rename_i harmed
    split at h
    · cases h
    · cases h
      exact ⟨hI, .inl ⟨by simpa using harmed, rfl⟩⟩

lemma fire_inv {k : K} {now : ℕ} (hI : Inv s) (h : step s (.fire k now) = .ok s') :
    Inv s' ∧ Changes s s' (.fire k now) := by
  simp only [step] at h
  split at h
  · rename_i hdue
    cases h
    simp only [Timers.due, decide_eq_true_iff] at hdue
    obtain ⟨hwf, hmin, p, hx, hpairs⟩ := hI.wf.pop hdue.1
    refine ⟨hI.remove ⟨hwf.ordered, hwf.linked, hwf.localk⟩ hx hpairs ?_, .inr ⟨_, p, hdue.2, hmin, hx, hpairs⟩⟩
    simp [Timers.setArmed, Timers.setExecuting, Timers.first]
  · rename_i hdue
    cases h
    refine ⟨hI, .inl ⟨rfl, fun x hx => ?_⟩⟩
    obtain ⟨j, hj, rfl⟩ := mem_contents.1 hx
    simp only [Timers.due, decide_eq_true_iff, not_and, not_le] at hdue
    exact (hdue (Nat.zero_lt_of_lt hj)).trans_le ((hI.wf.ordered k).root_le hj)

/-- The heaps stay in order, and only one timer comes or goes. -/
lemma step_inv {ev : Event K ε} (hI : Inv s) (h : step s ev = .ok s') : Inv s' ∧ Changes s s' ev := by
  cases ev with
  | timerStart k e deadline => exact timerStart_inv hI h
  | timerCancel e => exact timerCancel_inv hI h
  | fire k now => exact fire_inv hI h
  | finish e =>
    cases h
    exact ⟨⟨⟨hI.wf.ordered, hI.wf.linked, hI.wf.localk⟩, hI.armed⟩, rfl⟩

omit [DecidableEq K] [DecidableEq ε] in
lemma initial_wf (hs : Initial s) : s.Wf ∧ ∀ k e, ¬ s.On k e := by
  have hnot : ∀ k e, ¬ s.On k e := by
    rintro k e ⟨j, hj, -⟩
    rw [hs.1] at hj
    exact absurd hj (Nat.not_lt_zero j)
  refine ⟨⟨fun k j hj hjn => ?_, fun k j hj => ?_, fun hon => absurd hon (hnot _ _)⟩, hnot⟩
  · rw [hs.1] at hjn
    exact absurd hjn (Nat.not_lt_zero j)
  · rw [hs.1] at hj
    exact absurd hj (Nat.not_lt_zero j)

lemma reaches_inv (hs : Run.Reaches step (fun _ _ => True) Initial s) : Inv s := by
  refine hs.invariant (fun s hs => ?_) fun s e s' hI _ h => (step_inv hI h).1
  obtain ⟨hwf, hnot⟩ := initial_wf hs
  refine ⟨hwf, fun e => ?_⟩
  simp [hs.2, hnot]

/-- The first `timern` slots of every kthread are a 4-ary heap whose entries know their slots; an entry is in one slot
if it is armed, and else in none. A step changes the timers in the heaps only by the one it starts, cancels or fires,
and the one that fires has the least deadline. -/
theorem timer_heap_valid (hs : Run.Reaches step (fun _ _ => True) Initial s) :
    (∀ k j, 0 < j → j < s.timern k → (s.timers k ((j - 1) / 4)).key ≤ (s.timers k j).key) ∧
    (∀ k j, j < s.timern k → s.idx (s.timers k j).entry = j) ∧
    (∀ e, s.armed e = true →
      ∃! p : K × ℕ, p.2 < s.timern p.1 ∧ (s.timers p.1 p.2).entry = e) ∧
    (∀ e, s.armed e = false → ∀ k j, j < s.timern k → (s.timers k j).entry ≠ e) ∧
    ∀ ev s', step s ev = .ok s' → Changes s s' ev := by
  have hI := reaches_inv hs
  refine ⟨hI.wf.ordered, hI.wf.linked, fun e he => ?_, fun e he k j hj heq => ?_, fun ev s' h => (step_inv hI h).2⟩
  · obtain ⟨k, j, hj, hje⟩ := (hI.armed e).1 he
    exact ⟨(k, j), ⟨hj, hje⟩, fun q hq => hI.wf.slot_unique hq ⟨hj, hje⟩⟩
  · rw [(hI.armed e).2 ⟨k, j, hj, heq⟩] at he
    cases he

def initTimers : Timers (Fin 2) (Fin 4) where
  timern _ := 0
  timers _ _ := ⟨0, 0⟩
  idx _ := 0
  localk _ := 0
  armed _ := false
  executing _ := false

theorem timer_heap_valid_cancelled : ∃ s : Timers (Fin 2) (Fin 4),
    Run.Reaches step (fun _ _ => True) Initial s ∧
      (s.timern 1 = 2 ∧ s.armed 0 = false ∧ s.timers 1 1 = ⟨7, 1⟩) ∧ s.idx 1 = 1 := by
  obtain ⟨s, hs, hP⟩ := Run.reached step Initial (s := initTimers) (P := fun s =>
      s.timern 1 = 2 ∧ s.armed 0 = false ∧ s.timers 1 1 = ⟨7, 1⟩)
      [.timerStart 1 0 9, .timerStart 1 1 7, .timerStart 1 2 5, .timerCancel 0]
      ⟨fun _ => rfl, fun _ => rfl⟩ (by decide)
  refine ⟨s, hs, hP, ?_⟩
  have h := (timer_heap_valid hs).2.1 1 1 (by rw [hP.1]; decide)
  rwa [hP.2.2] at h

/-! ## The published deadline -/

/-- The heaps, and the `next_timer_tsc` of every kthread that the iokernel polls. -/
structure Published (K ε : Type*) where
  timers : Timers K ε
  nextTimerTsc : K → BitVec 64

variable (cyclesPerUs startTsc : BitVec 64)

def tscOf (deadline : ℕ) : BitVec 64 := BitVec.ofNat 64 deadline * cyclesPerUs + startTsc

def updateQPtrs (p : Published K ε) (k : K) : Published K ε :=
  { p with
    nextTimerTsc := update p.nextTimerTsc k
      (if 0 < p.timers.timern k then tscOf cyclesPerUs startTsc (p.timers.timers k 0).key else BitVec.allOnes 64) }

/-- The kthread whose heap a critical section changes, and for which it calls `update_q_ptrs`. -/
def touched (s : Timers K ε) : Event K ε → Option K
  | .timerStart k _ _ => some k
  | .timerCancel e => if s.armed e then some (s.localk e) else none
  | .fire k now => if s.due k now then some k else none
  | .finish _ => none

def publish (p : Published K ε) (ev : Event K ε) : Except Stop (Published K ε) :=
  step p.timers ev >>= fun s => .ok (match touched p.timers ev with
    | some k => updateQPtrs cyclesPerUs startTsc { p with timers := s } k
    | none => { p with timers := s })

/-- Is `tsc` what should be published for these timers? -/
def Earliest (ps : Multiset (Slot ℕ ε)) (tsc : BitVec 64) : Prop :=
  ps = 0 ∧ tsc = BitVec.allOnes 64 ∨
    ∃ x ∈ ps, (∀ y ∈ ps, x.key ≤ y.key) ∧ tsc = tscOf cyclesPerUs startTsc x.key

variable {cyclesPerUs startTsc} {s s' : Timers K ε} {p p' : Published K ε} {ev : Event K ε}

lemma pairs_untouched (hI : Inv s) (h : step s ev = .ok s') {k : K} (hk : touched s ev ≠ some k) :
    s'.pairs k = s.pairs k := by
  have hch := (step_inv hI h).2
  cases ev with
  | timerStart k' e deadline =>
    rw [hch, update_of_ne]
    rintro rfl
    exact hk rfl
  | timerCancel e =>
    obtain ⟨-, hsame⟩ | ⟨harmed, x, q, -, -, hleft⟩ := hch
    · rw [hsame]
    · rw [hleft, update_of_ne]
      rintro rfl
      exact hk (if_pos harmed)
  | fire k' now =>
    by_cases hdue : s.due k' now
    · obtain ⟨hsame, -⟩ | ⟨x, q, -, -, -, hleft⟩ := hch
      · rw [hsame]
      · rw [hleft, update_of_ne]
        rintro rfl
        exact hk (if_pos hdue)
    · rw [step, if_neg hdue] at h
      cases h
      rfl
  | finish e => rw [hch]

omit [DecidableEq K] [DecidableEq ε] in
lemma earliest_root (hI : Inv s) (k : K) : Earliest cyclesPerUs startTsc (s.pairs k)
    (if 0 < s.timern k then tscOf cyclesPerUs startTsc (s.timers k 0).key else BitVec.allOnes 64) := by
  split_ifs with hn
  · refine .inr ⟨_, mem_contents.2 ⟨0, hn, rfl⟩, fun y hy => ?_, rfl⟩
    obtain ⟨j, hj, rfl⟩ := mem_contents.1 hy
    exact (hI.wf.ordered k).root_le hj
  · refine .inl ⟨?_, rfl⟩
    rw [Timers.pairs, Nat.eq_zero_of_not_pos hn]
    rfl

lemma publish_inv (hI : Inv p.timers) (hp : ∀ k, Earliest cyclesPerUs startTsc (p.timers.pairs k) (p.nextTimerTsc k))
    (h : publish cyclesPerUs startTsc p ev = .ok p') : Inv p'.timers ∧
      ∀ k, Earliest cyclesPerUs startTsc (p'.timers.pairs k) (p'.nextTimerTsc k) := by
  obtain ⟨s, hs, ⟨⟩⟩ := Run.bind_eq_ok.1 h
  have hI' := (step_inv hI hs).1
  cases ht : touched p.timers ev with
  | none =>
    refine ⟨hI', fun k => ?_⟩
    dsimp only
    rw [pairs_untouched hI hs (by simp [ht])]
    exact hp k
  | some k' =>
    refine ⟨hI', fun k => ?_⟩
    by_cases hk : k = k'
    · subst hk
      simp only [updateQPtrs, update_self]
      exact earliest_root hI' k
    · simp only [updateQPtrs, update_of_ne hk]
      rw [pairs_untouched hI hs (by simpa [ht] using Ne.symm hk)]
      exact hp k

/-- `timer_init_thread` publishes no deadline. -/
def Unpublished (p : Published K ε) : Prop := Initial p.timers ∧ ∀ k, p.nextTimerTsc k = BitVec.allOnes 64

/-- The iokernel never sees anything but the least deadline of the timers that are armed on a kthread. -/
theorem next_timer_earliest (hs : Run.Reaches (publish cyclesPerUs startTsc) (fun _ _ => True) Unpublished p) (k : K) :
    Earliest cyclesPerUs startTsc (p.timers.pairs k) (p.nextTimerTsc k) := by
  refine (hs.invariant (I := fun p => Inv p.timers ∧
    ∀ k, Earliest cyclesPerUs startTsc (p.timers.pairs k) (p.nextTimerTsc k)) ?_ ?_).2 k
  · rintro p ⟨hinit, hnone⟩
    refine ⟨reaches_inv (.start hinit), fun k => .inl ⟨?_, hnone k⟩⟩
    rw [Timers.pairs, hinit.1 k]
    rfl
  · intro p ev p' hI _ h
    exact publish_inv hI.1 hI.2 h

theorem next_timer_earliest_cancelled : ∃ p : Published (Fin 2) (Fin 4),
    p.nextTimerTsc 1 = 107 ∧ Earliest 10 37 (p.timers.pairs 1) (p.nextTimerTsc 1) := by
  obtain ⟨p, hp, htsc⟩ := Run.reached (publish 10 37) Unpublished (s := ⟨initTimers, fun _ => BitVec.allOnes 64⟩)
    (P := fun p => p.nextTimerTsc 1 = 107)
    [.timerStart 1 0 9, .timerStart 1 1 7, .timerStart 1 2 5, .timerCancel 2]
    ⟨⟨fun _ => rfl, fun _ => rfl⟩, fun _ => rfl⟩ (by decide)
  exact ⟨p, htsc, next_timer_earliest hp 1⟩

/-! ## The check of the order -/

omit [DecidableEq K] [DecidableEq ε]

/-- The loop of `is_valid_heap`, which ends before slot 1. -/
def validFrom (h : DHeap ℕ ε) : ℕ → Bool
  | 0 | 1 => true
  | i + 2 => if h.key (parent arity (i + 2)) > h.key (i + 2) then false else validFrom h (i + 1)

def isValidHeap (h : DHeap ℕ ε) (n : ℕ) : Bool := validFrom h (n - 1)

def Below : ℕ → ℕ → Prop := Relation.TransGen fun i j => 0 < j ∧ parent arity j = i

lemma validFrom_iff (i : ℕ) : validFrom h i ↔ ∀ j, 1 < j → j ≤ i → h.key (parent arity j) ≤ h.key j := by
  induction i using validFrom.induct h with
  | case1 | case2 => exact ⟨fun _ j hj hi => absurd hj (by omega), fun _ => rfl⟩
  | case3 i hgt =>
    rw [validFrom, if_pos hgt]
    exact ⟨nofun, fun hle => absurd (hle _ (by omega) le_rfl) hgt.not_ge⟩
  | case4 i hle ih =>
    rw [validFrom, if_neg hle, ih]
    refine ⟨fun hall j hj hi => ?_, fun hall j hj hi => hall j hj (by omega)⟩
    obtain rfl | hi := hi.eq_or_lt
    · exact not_lt.1 hle
    · exact hall j hj (by omega)

lemma ordered_iff_below {n : ℕ} : Ordered arity h n ↔ ∀ i j, j < n → Below i j → h.key i ≤ h.key j := by
  refine ⟨fun ho i j hj hb => ?_, fun hall j hpos hj => hall _ j hj (.single ⟨hpos, rfl⟩)⟩
  induction hb with
  | single hp => exact hp.2 ▸ ho _ hp.1 hj
  | tail _ hp ih =>
    obtain ⟨hpos, rfl⟩ := hp
    exact (ih ((parent_lt hpos).trans hj)).trans (ho _ hpos hj)

/-- A slot behind the first two that is due before the one above it, which the loop finds. -/
def Late (h : DHeap ℕ ε) (n : ℕ) : Prop := ∃ j, 1 < j ∧ j < n ∧ h.key j < h.key (parent arity j)

/-- The loop misses slot 1 and nothing else. -/
lemma isValidHeap_iff {n : ℕ} : isValidHeap h n = true ↔ ¬ Late h n := by
  rw [isValidHeap, validFrom_iff]
  refine ⟨fun hall ⟨j, hj, hn, hlt⟩ => absurd (hall j hj (by omega)) hlt.not_ge, fun hno j hj hi => ?_⟩
  by_contra hgt
  exact hno ⟨j, hj, by omega, not_le.1 hgt⟩

lemma ordered_iff_late {n : ℕ} : Ordered arity h n ↔ (1 < n → h.key 0 ≤ h.key 1) ∧ ¬ Late h n := by
  constructor
  · intro ho
    exact ⟨fun hn => ho 1 one_pos hn, fun ⟨j, hj, hn, hlt⟩ => absurd (ho j (by omega) hn) hlt.not_ge⟩
  · rintro ⟨hroot, hno⟩ j hpos hj
    obtain rfl | hone := Nat.eq_or_lt_of_le hpos
    · exact hroot hj
    · by_contra hgt
      exact hno ⟨j, hone, hj, not_le.1 hgt⟩

/-- `is_valid_heap` decides whether no timer is due before one above it just if slots 0 and 1 are in order, or another
slot is not. -/
theorem is_valid_heap_decides {n : ℕ} :
    (isValidHeap h n = true ↔ ∀ i j, j < n → Below i j → h.key i ≤ h.key j) ∧
      (isValidHeap h n = true → ∀ j < n, h.key 0 ≤ h.key j) ↔
    n ≤ 1 ∨ h.key 0 ≤ h.key 1 ∨ ∃ j, 1 < j ∧ j < n ∧ h.key j < h.key (parent arity j) := by
  rw [← ordered_iff_below, isValidHeap_iff, ordered_iff_late]
  constructor
  · rintro ⟨hiff, -⟩
    by_cases hlate : Late h n
    · exact .inr (.inr hlate)
    · by_cases hn : 1 < n
      · exact .inr (.inl ((hiff.1 hlate).1 hn))
      · exact .inl (by omega)
  · intro hcond
    have hroot : ¬ Late h n → 1 < n → h.key 0 ≤ h.key 1 := by
      intro hno hn
      rcases hcond with h1 | h01 | hlate
      · omega
      · exact h01
      · exact absurd hlate hno
    refine ⟨⟨fun hno => ⟨hroot hno, hno⟩, And.right⟩, fun hno j hj => ?_⟩
    exact (ordered_iff_late.2 ⟨hroot hno, hno⟩).root_le hj

/-- The check does not look at slot 1. -/
theorem is_valid_heap_accepts : ∃ h : DHeap ℕ Unit, isValidHeap h 2 = true ∧ Below 0 1 ∧ h.key 1 < h.key 0 :=
  ⟨⟨fun i => ⟨1 - i, ()⟩, fun _ => 0⟩, rfl, .single ⟨one_pos, rfl⟩, one_pos⟩

end Aspen.Timer
