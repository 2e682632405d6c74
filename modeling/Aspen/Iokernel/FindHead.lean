import Aspen.Base.Lrpc
import Aspen.Base.Wraps

/-!
# The head of a hardware queue (`hwq_find_head`)

The iokernel looks for the newest completion in the ring of a device. The device flips a bit of a descriptor from one
lap to the next, and the consumer publishes a 32-bit index; a search begins where the last one ended, unless the
consumer has got beyond. Here the device and the consumer count without end.
-/

namespace Aspen.FindHead

open Function Lrpc

variable (k : Fin 32)

/-- `hwq_busy`, for `size k` descriptors; `hdParity` is the bit of each. -/
def busy (hdParity : BitVec 32 → Bool) (cqIdx : BitVec 32) : Bool :=
  decide (cqIdx &&& size k ≠ 0) == hdParity (index k cqIdx)

/-- The loop of `hwq_find_head`, from the index `x` on. -/
def scan (busy : BitVec 32 → Bool) (x : BitVec 32) : ℕ → BitVec 32
  | 0 => x
  | m + 1 => if busy x then scan busy (x + 1) m else x

def hwqFindHead (hdParity : BitVec 32 → Bool) (curTail lastHead : BitVec 32) : BitVec 32 :=
  let startIdx := if wrapsLt curTail lastHead then lastHead else curTail
  scan (busy k hdParity) startIdx (size k - (startIdx - curTail)).toNat

structure Queue where
  hdParity : BitVec 32 → Bool
  /-- what the device has completed, and what the consumer has read -/
  head : ℕ
  tail : ℕ
  lastHead : BitVec 32
  searched : ℕ

inductive Event
  | complete
  | advance
  | findHead
  deriving DecidableEq

inductive Stop
  | misplaced

def Queue.find (q : Queue) : BitVec 32 := hwqFindHead k q.hdParity (word q.tail) q.lastHead

def step (q : Queue) : Event → Except Stop Queue
  | .complete =>
    let cqIdx := word q.head
    if q.head < q.tail + 2 ^ k.val then
      .ok { q with
        hdParity := update q.hdParity (index k cqIdx) (cqIdx &&& size k ≠ 0)
        head := q.head + 1 }
    else .error .misplaced
  | .advance => if q.tail < q.head then .ok { q with tail := q.tail + 1 } else .error .misplaced
  | .findHead => .ok { q with lastHead := q.find k, searched := q.tail }

def init : Queue := ⟨fun _ => true, 0, 0, 0, 0⟩

abbrev Queue.Recent (q : Queue) : Prop := q.tail < q.searched + 2 ^ 31

abbrev Searched (k : Fin 32) : Queue → Prop := Run.Reaches (step k) (fun q e => e = .findHead → q.Recent) (· = init)

variable {k} {q q' : Queue} {i j : ℕ}

lemma parity_eq : decide (word i &&& size k ≠ 0) = i.testBit k := Bool.eq_iff_iff.2 (by simp [← and_size_iff])

/-! ## The invariant -/

structure Inv (k : Fin 32) (q : Queue) : Prop where
  tail_le : q.tail ≤ q.head
  head_le : q.head ≤ q.tail + 2 ^ k.val
  busy : ∀ i, q.head ≤ i + 2 ^ k.val → i < q.head + 2 ^ k.val →
    FindHead.busy k q.hdParity (word i) = decide (i < q.head)
  last : ∃ h, q.lastHead = word h ∧ q.searched ≤ h ∧ h ≤ q.head

lemma Inv.scan (hI : Inv k q) (m : ℕ) (hi : q.tail ≤ i) (hh : i ≤ q.head) (hm : q.head ≤ i + m) :
    scan (FindHead.busy k q.hdParity) (word i) m = word q.head := by
  induction m generalizing i with
  | zero => rw [FindHead.scan, Nat.le_antisymm hh hm]
  | succ m ih =>
    have hhead := hI.head_le
    have hpos := Nat.two_pow_pos k.val
    rw [FindHead.scan, hI.busy i (by omega) (by omega)]
    by_cases hlt : i < q.head
    · rw [if_pos (decide_eq_true hlt)]
      rw [word_add_one]
      exact ih (by omega) hlt (by omega)
    · rw [if_neg (by simpa using hlt), Nat.le_antisymm hh (Nat.le_of_not_lt hlt)]

lemma wrapsLt_ofNat (h : i < j + 2 ^ 31) (h' : j ≤ i + 2 ^ 31) : wrapsLt (word i) (word j) = decide (i < j) := by
  rw [wrapsLt]
  refine decide_eq_decide.2 ?_
  rw [BitVec.toInt_eq_toNat_cond]
  simp only [BitVec.toNat_sub, BitVec.toNat_ofNat]
  omega

lemma two_pow_le (k : Fin 32) : 2 ^ k.val ≤ 2 ^ 31 := Nat.pow_le_pow_right (by decide) (Nat.le_of_lt_succ k.isLt)

lemma Inv.hwqFindHead (hI : Inv k q) (hj : j ≤ q.head) (ht : q.tail < j + 2 ^ 31) :
    hwqFindHead k q.hdParity (word q.tail) (word j) = word q.head := by
  have hhead := hI.head_le
  have hk := two_pow_le k
  rw [FindHead.hwqFindHead, wrapsLt_ofNat ht (by omega)]
  by_cases hlt : q.tail < j
  · have hnr : (size k - (word j - word q.tail)).toNat = 2 ^ k.val - (j - q.tail) := by
      rw [BitVec.toNat_sub, sub_toNat hlt.le (hj.trans hhead), size_toNat]
      omega
    rw [if_pos (decide_eq_true hlt), hnr]
    exact hI.scan _ hlt.le hj (by omega)
  · rw [if_neg (by simpa using hlt), BitVec.sub_self, BitVec.sub_zero, size_toNat]
    exact hI.scan _ le_rfl hI.tail_le hhead

lemma Inv.find (hI : Inv k q) (hr : q.Recent) : q.find k = word q.head := by
  obtain ⟨l, hl, hle, hlh⟩ := hI.last
  rw [Queue.find, hl]
  exact hI.hwqFindHead hlh (hr.trans_le (Nat.add_le_add_right hle _))

/-- Between the laps before and after the head, only the index of the head itself has its descriptor. -/
lemma Inv.complete (hI : Inv k q) (h : step k q .complete = .ok q') : Inv k q' := by
  obtain ⟨hlt, h⟩ := Run.guard_eq_ok.1 h
  cases h
  obtain ⟨l, hl, hle, hlh⟩ := hI.last
  refine ⟨Nat.le_succ_of_le hI.tail_le, hlt, fun i hlo hhi => ?_, l, hl, hle, Nat.le_succ_of_le hlh⟩
  dsimp only at hlo hhi ⊢
  have hpos := Nat.two_pow_pos k.val
  by_cases hi : i = q.head
  · rw [FindHead.busy, hi, update_self]
    simp
  by_cases hi' : i = 2 ^ k.val + q.head
  · rw [FindHead.busy, hi', Nat.add_comm, index_add_size, update_self, parity_eq, parity_eq, Nat.add_comm,
      Nat.testBit_two_pow_add_eq, decide_eq_false (by omega)]
    exact Bool.not_beq_self _
  · have hne : index k (word i) ≠ index k (word q.head) := by
      rcases Nat.lt_or_gt_of_ne hi with hlt' | hgt
      · exact index_ne hlt' (by omega)
      · exact (index_ne hgt (by omega)).symm
    rw [FindHead.busy, update_of_ne hne]
    exact (hI.busy i (by omega) (by omega)).trans (decide_eq_decide.2 (by omega))

lemma step_inv {e : Event} (hI : Inv k q) (hr : e = .findHead → q.Recent) (h : step k q e = .ok q') : Inv k q' := by
  obtain ⟨l, hl, hle, hlh⟩ := hI.last
  cases e with
  | complete => exact hI.complete h
  | advance =>
    obtain ⟨hlt, h⟩ := Run.guard_eq_ok.1 h
    cases h
    exact ⟨hlt, hI.head_le.trans (Nat.add_le_add_right (Nat.le_succ _) _), hI.busy, l, hl, hle, hlh⟩
  | findHead =>
    cases h
    exact ⟨hI.tail_le, hI.head_le, hI.busy, q.head, hI.find (hr rfl), hI.tail_le, le_rfl⟩

lemma init_inv : Inv k init where
  tail_le := le_rfl
  head_le := Nat.zero_le _
  busy i _ hi := by
    rw [FindHead.busy, parity_eq, Nat.testBit_lt_two_pow (by simpa [init] using hi)]
    rfl
  last := ⟨0, rfl, le_rfl, le_rfl⟩

lemma Inv.of_searched (hq : Searched k q) : Inv k q :=
  hq.invariant (fun _ h => h ▸ init_inv) fun _ _ _ hI hr h => step_inv hI hr h

/-- Until the consumer has gone halfway round, a search finds the first descriptor from the tail on that is not busy.
-/
theorem findHead_exact (k : Fin 32) {q : Queue} (hq : Searched k q) (hr : q.Recent) :
    q.find k = hwqFindHead k q.hdParity (word q.tail) (word q.tail) ∧
    q.find k = word q.head ∧ q.tail ≤ q.head ∧ q.head ≤ q.tail + 2 ^ k.val ∧
    (∀ i, q.tail ≤ i → i < q.head → busy k q.hdParity (word i) = true) ∧
    (q.head < q.tail + 2 ^ k.val → busy k q.hdParity (word q.head) = false) := by
  have hI := Inv.of_searched hq
  have hhead := hI.head_le
  have hpos := Nat.two_pow_pos k.val
  refine ⟨(hI.find hr).trans (hI.hwqFindHead hI.tail_le (by omega)).symm, hI.find hr, hI.tail_le, hhead,
    fun i hi hlt => ?_, fun _ => ?_⟩
  · exact (hI.busy i (by omega) (by omega)).trans (decide_eq_true hlt)
  · exact (hI.busy _ (by omega) (by omega)).trans (decide_eq_false (lt_irrefl _))

theorem findHead_exact_two : ∃ q, Searched 1 q ∧ q.find 1 = 3#32 := by
  obtain ⟨q, hq, hh, hr⟩ : ∃ q, Searched 1 q ∧ q.head = 3 ∧ q.Recent :=
    Run.Reaches.of_exec (s := init) [.complete, .findHead, .complete, .advance, .complete] rfl (by decide) (by decide)
  exact ⟨q, hq, hh ▸ (findHead_exact 1 hq hr).2.1⟩

lemma searched_turns (k : Fin 32) (m : ℕ) : ∃ b, Searched k ⟨b, m, m, 0, 0⟩ := by
  induction m with
  | zero => exact ⟨_, .start rfl⟩
  | succ m ih =>
    obtain ⟨b, hb⟩ := ih
    exact ⟨_, (hb.snoc (e := .complete) nofun (if_pos (Nat.lt_add_of_pos_right (Nat.two_pow_pos k.val)))).snoc
      (e := .advance) nofun (if_pos (Nat.lt_succ_self m))⟩

/-- After `2 ^ 31` completions, all of them consumed, the first search begins at zero and ends there. -/
theorem findHead_stale : ∃ q, Run.Reaches (step 7) (fun _ _ => True) (· = init) q ∧
    q.tail = 2 ^ 31 ∧ q.head = 2 ^ 31 ∧ q.find 7 = 0#32 ∧
    hwqFindHead 7 q.hdParity (word q.tail) (word q.tail) = word (2 ^ 31) := by
  obtain ⟨b, hb⟩ := searched_turns 7 (2 ^ 31)
  have hI := Inv.of_searched hb
  have hfree : busy 7 b 0#32 = false :=
    (hI.busy (2 ^ 31) (Nat.le_add_right ..) (Nat.lt_add_of_pos_right (by decide))).trans (decide_eq_false (lt_irrefl _))
  refine ⟨_, hb.mono fun _ _ _ => trivial, rfl, rfl, ?_, hI.hwqFindHead le_rfl (Nat.lt_add_of_pos_right (by decide))⟩
  show hwqFindHead 7 b (word (2 ^ 31)) 0#32 = 0#32
  rw [hwqFindHead, if_pos (by decide)]
  cases (size 7 - (0#32 - word (2 ^ 31))).toNat with
  | zero => rfl
  | succ m =>
    rw [scan, hfree]
    rfl

end Aspen.FindHead
