import Mathlib.Data.BitVec
import Mathlib.Tactic.Ring

/-!
# Ring buffers with free-running indices

The two indices of a ring are never reduced to its size: they count on and wrap around at `2 ^ w`, and
the slot of an index is its remainder. When the size divides `2 ^ w` the wrap-around does not show, and
the ring is the list of what lies between its indices (`Ring.toList`).
-/

namespace Aspen

open Function BitVec

/-- The sizes for which free-running indices of `w` bits work. -/
class RingSize (w size : ℕ) : Prop where
  pos : 0 < size
  dvd : size ∣ 2 ^ w
  lt : size < 2 ^ w

variable {α : Type*} {w size : ℕ} [RingSize w size]

/-! ## Indices -/

lemma toNat_add_one {x : BitVec w} (h : x.toNat + 1 < 2 ^ w) : (x + 1).toNat = x.toNat + 1 := by
  have hone : (1#w).toNat = 1 := by
    rw [toNat_ofNat]
    exact Nat.mod_eq_of_lt (by omega)
  show (x + 1#w).toNat = _
  rw [toNat_add_of_lt (by omega), hone]

lemma toNat_sub_one {x : BitVec w} (h : x.toNat ≠ 0) : (x - 1).toNat + 1 = x.toNat := by
  have hone : (1#w).toNat = 1 := by
    rw [toNat_ofNat]
    exact Nat.mod_eq_of_lt (by omega)
  show (x - 1#w).toNat + 1 = _
  rw [toNat_sub_of_le (by rw [le_def]; omega), hone]
  omega

variable (buf : Fin size → α) (t : BitVec w) (n : ℕ)

def slot (size : ℕ) [RingSize w size] (i : BitVec w) : Fin size := ⟨i.toNat % size, Nat.mod_lt _ (RingSize.pos w)⟩

lemma slot_add (i : ℕ) : (slot size (t + BitVec.ofNat w i)).val = (t.toNat + i) % size := by
  have hdvd : size ∣ 2 ^ w := RingSize.dvd
  show (t + BitVec.ofNat w i).toNat % size = _
  rw [toNat_add, toNat_ofNat, Nat.mod_mod_of_dvd _ hdvd, Nat.add_mod, Nat.mod_mod_of_dvd _ hdvd, ← Nat.add_mod]

lemma slot_ne {t : BitVec w} {i j : ℕ} (hij : i < j) (hj : j < size) :
    slot size (t + BitVec.ofNat w i) ≠ slot size (t + BitVec.ofNat w j) := by
  intro h
  have hval : (t.toNat + i) % size = (t.toNat + j) % size := by
    rw [← slot_add, ← slot_add, h]
  have hmod : i % size = j % size := Nat.ModEq.add_left_cancel' t.toNat hval
  rw [Nat.mod_eq_of_lt (hij.trans hj), Nat.mod_eq_of_lt hj] at hmod
  exact hij.ne hmod

lemma slot_sub_one : slot size (t - 1) = slot size (t + BitVec.ofNat w (size - 1)) := by
  have hpos : 0 < size := RingSize.pos w
  have hsum : t + BitVec.ofNat w (size - 1) = t - 1 + BitVec.ofNat w size := by
    have hone := ofNat_add (n := w) 1 (size - 1)
    rw [Nat.add_sub_cancel' hpos] at hone
    rw [hone]
    show _ = t - 1 + (1 + BitVec.ofNat w (size - 1))
    ring
  apply Fin.ext
  rw [hsum, slot_add, Nat.add_mod_right]
  rfl

/-! ## Contents -/

def contents : List α := (List.range n).map fun i => buf (slot size (t + BitVec.ofNat w i))

@[simp] lemma contents_zero : contents buf t 0 = [] := rfl

lemma contents_succ : contents buf t (n + 1) = buf (slot size t) :: contents buf (t + 1) n := by
  rw [contents, List.range_succ_eq_map, List.map_cons, List.map_map, BitVec.add_zero]
  congr 1
  apply List.map_congr_left
  intro i _
  have hnext : t + BitVec.ofNat w (i + 1) = t + 1 + BitVec.ofNat w i := by
    rw [Nat.add_comm, ofNat_add, BitVec.add_assoc]
    rfl
  exact congrArg (fun j => buf (slot size j)) hnext

lemma contents_succ_last : contents buf t (n + 1) = contents buf t n ++ [buf (slot size (t + BitVec.ofNat w n))] := by
  simp [contents, List.range_succ]

lemma contents_update [DecidableEq (Fin size)] (buf : Fin size → α) (t : BitVec w) {m n : ℕ} (x : α)
    (hnm : n ≤ m) (hm : m < size) :
    contents (update buf (slot size (t + BitVec.ofNat w m)) x) t n = contents buf t n := by
  apply List.map_congr_left
  intro i hi
  rw [update_of_ne]
  exact slot_ne ((List.mem_range.1 hi).trans_le hnm) hm

/-! ## Rings -/

/-- A ring of `size` slots: elements enter at `head` and leave at `tail`. -/
structure Ring (α : Type*) (w size : ℕ) where
  head : BitVec w
  tail : BitVec w
  buf : Fin size → α
  len_le : (head - tail).toNat ≤ size

namespace Ring

variable (r : Ring α w size) (x : α)

def length : ℕ := (r.head - r.tail).toNat

omit [RingSize w size] in
lemma head_eq : r.head = r.tail + BitVec.ofNat w r.length := by
  rw [length, ofNat_toNat, setWidth_eq, BitVec.add_comm, BitVec.sub_add_cancel]

omit [RingSize w size] in
lemma length_eq_zero_iff : r.length = 0 ↔ r.head = r.tail := by
  constructor
  · intro h
    exact sub_eq_zero.1 (eq_of_toNat_eq (h.trans toNat_zero.symm))
  · intro h
    rw [length, h, sub_self]
    exact toNat_zero

def toList : List α := contents r.buf r.tail r.length

/-- The ring with its indices at zero, whatever is left in its slots. -/
def reset : Ring α w size where
  head := 0
  tail := 0
  buf := r.buf
  len_le := by simp

@[simp] lemma toList_reset : r.reset.toList = [] := by
  simp [toList, reset, length]

/-! ### Entering at the head -/

lemma length_add_one_lt {r : Ring α w size} (h : r.length < size) : r.length + 1 < 2 ^ w := by
  have hlt : size < 2 ^ w := RingSize.lt
  omega

def push (h : r.length < size) : Ring α w size where
  head := r.head + 1
  tail := r.tail
  buf := update r.buf (slot size r.head) x
  len_le := by
    have hnext : r.head + 1 - r.tail = r.head - r.tail + 1 := by ring
    rw [hnext, toNat_add_one (length_add_one_lt h)]
    exact h

lemma length_push (h : r.length < size) : (r.push x h).length = r.length + 1 := by
  have hnext : r.head + 1 - r.tail = r.head - r.tail + 1 := by ring
  show (r.head + 1 - r.tail).toNat = _
  rw [hnext, toNat_add_one (length_add_one_lt h)]
  rfl

lemma toList_push (h : r.length < size) : (r.push x h).toList = r.toList ++ [x] := by
  rw [toList, length_push, contents_succ_last]
  show contents (update r.buf (slot size r.head) x) r.tail r.length ++
    [update r.buf (slot size r.head) x (slot size (r.tail + BitVec.ofNat w r.length))] = _
  rw [← head_eq, update_self, r.head_eq, contents_update _ _ _ le_rfl h]
  rfl

/-! ### Leaving at the tail -/

def front : α := r.buf (slot size r.tail)

omit [RingSize w size] in
lemma toNat_sub_tail {r : Ring α w size} (h : r.length ≠ 0) : (r.head - (r.tail + 1)).toNat + 1 = r.length := by
  have hnext : r.head - (r.tail + 1) = r.head - r.tail - 1 := by ring
  rw [hnext, toNat_sub_one h]
  rfl

def pop (h : r.length ≠ 0) : Ring α w size where
  head := r.head
  tail := r.tail + 1
  buf := r.buf
  len_le := by
    have hlen := toNat_sub_tail h
    have hle : r.length ≤ size := r.len_le
    omega

omit [RingSize w size] in
lemma length_pop (h : r.length ≠ 0) : (r.pop h).length + 1 = r.length := toNat_sub_tail h

lemma toList_pop (h : r.length ≠ 0) : r.toList = r.front :: (r.pop h).toList := by
  rw [toList, ← length_pop r h, contents_succ]
  rfl

/-! ### Entering at the tail -/

/-- The ring with one more element at its tail. If it was full, the newest element has to go. -/
def pushFront : Ring α w size where
  head := if r.length < size then r.head else r.head - 1
  tail := r.tail - 1
  buf := update r.buf (slot size (r.tail - 1)) x
  len_le := by
    split
    · rename_i h
      have hnext : r.head - (r.tail - 1) = r.head - r.tail + 1 := by ring
      rw [hnext, toNat_add_one (length_add_one_lt h)]
      exact h
    · have hsame : r.head - 1 - (r.tail - 1) = r.head - r.tail := by ring
      rw [hsame]
      exact r.len_le

def evicted : Option α := if r.length < size then none else some (r.buf (slot size (r.tail - 1)))

lemma contents_pushFront {n : ℕ} (hn : n < size) :
    contents (r.pushFront x).buf (r.tail - 1) (n + 1) = x :: contents r.buf r.tail n := by
  show contents (update r.buf (slot size (r.tail - 1)) x) (r.tail - 1) (n + 1) = _
  rw [contents_succ, update_self, slot_sub_one, sub_add_cancel,
    contents_update _ _ _ (Nat.le_sub_one_of_lt hn) (Nat.sub_lt (RingSize.pos w) one_pos)]

lemma toList_pushFront : (r.pushFront x).toList ++ r.evicted.toList = x :: r.toList := by
  by_cases h : r.length < size
  · have hlen : (r.pushFront x).length = r.length + 1 := by
      have hnext : r.head - (r.tail - 1) = r.head - r.tail + 1 := by ring
      show ((if r.length < size then r.head else r.head - 1) - (r.tail - 1)).toNat = _
      rw [if_pos h, hnext, toNat_add_one (length_add_one_lt h)]
      rfl
    rw [toList, hlen, evicted, if_pos h, Option.toList_none, List.append_nil]
    exact contents_pushFront r x h
  · have hfull : r.length = size := le_antisymm r.len_le (not_lt.1 h)
    have hlen : (r.pushFront x).length = size := by
      have hsame : r.head - 1 - (r.tail - 1) = r.head - r.tail := by ring
      show ((if r.length < size then r.head else r.head - 1) - (r.tail - 1)).toNat = _
      rw [if_neg h, hsame]
      exact hfull
    have hpos : 0 < size := RingSize.pos w
    have hfront := contents_pushFront r x (Nat.sub_lt hpos one_pos)
    have hlast := contents_succ_last r.buf r.tail (size - 1)
    have hsize : size - 1 + 1 = size := Nat.sub_add_cancel hpos
    rw [hsize] at hfront hlast
    rw [toList, hlen, evicted, if_neg h, toList, hfull, hlast, ← slot_sub_one]
    show contents (r.pushFront x).buf (r.tail - 1) size ++ [r.buf (slot size (r.tail - 1))] = _
    rw [hfront]
    rfl

end Ring

end Aspen
