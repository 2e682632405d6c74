import Aspen.Lib.Ledger

/-!
# Double-ended queues that steal from each other

Every one of a number of parties has a queue, and a hand in which it carries what it has taken out of
another party's queue and not merged into its own yet. These are all the things that can happen to the
queues; none of them loses or duplicates anything (`act_contents`).
-/

namespace Aspen

open Function Multiset

structure Deques (K α : Type*) where
  queue : K → List α
  hand : K → List α

inductive DequeOp (K α : Type*)
  | idle
  | append (k : K) (x : α)
  | prepend (k : K) (x : α)
  | pop (k : K) (x : α)
  /-- the first `n` of the queue of `r` go into the hand of `l` -/
  | steal (l r : K) (n : ℕ)
  | merge (l : K)

namespace DequeOp

variable {K α : Type*}

@[simp] def added : DequeOp K α → Multiset α
  | append _ x | prepend _ x => {x}
  | _ => 0

@[simp] def removed : DequeOp K α → Multiset α
  | pop _ x => {x}
  | _ => 0

end DequeOp

namespace Deques

variable {K α : Type*} [DecidableEq K] {le : α → α → Bool} {d d' : Deques K α}

/-- Operations merge in the order `le`, and a queue gives up its first element only. -/
def act [DecidableEq α] (le : α → α → Bool) (d : Deques K α) : DequeOp K α → Option (Deques K α)
  | .idle => some d
  | .append k x => some { d with queue := update d.queue k (d.queue k ++ [x]) }
  | .prepend k x => some { d with queue := update d.queue k (x :: d.queue k) }
  | .pop k x =>
    if (d.queue k).head? = some x then
      some { d with queue := update d.queue k (d.queue k).tail }
    else none
  | .steal l r n => some {
      queue := update d.queue r ((d.queue r).drop n)
      hand := update d.hand l (d.hand l ++ (d.queue r).take n) }
  | .merge l => some {
      queue := update d.queue l ((d.queue l).merge (d.hand l) le)
      hand := update d.hand l [] }

lemma act_idle [DecidableEq α] (k : K) (d : Deques K α) :
    d.act le .idle = some { d with queue := update d.queue k (id (d.queue k)) } := by
  simp [act]

lemma mem_update {q : K → List α} {j k : K} {l : List α} {x : α}
    (hx : x ∈ update q j l k) : x ∈ q k ∨ j = k ∧ x ∈ l := by
  by_cases hk : k = j
  · subst hk
    exact .inr ⟨rfl, by simpa using hx⟩
  · exact .inl (by simpa [hk] using hx)

lemma mem_queue_of_act [DecidableEq α] {op : DequeOp K α}
    {k : K} {x : α} (h : d.act le op = some d') (hx : x ∈ d'.queue k) :
    x ∈ d.queue k ∨ (op = .append k x ∨ op = .prepend k x) ∨ op = .merge k := by
  cases op with
  | idle =>
    cases h
    exact .inl hx
  | append j y =>
    cases h
    rcases mem_update hx with hx | ⟨rfl, hl⟩
    · exact .inl hx
    · rcases List.mem_append.1 hl with hl | hl
      · exact .inl hl
      · exact .inr (.inl (.inl (by rw [List.mem_singleton.1 hl])))
  | prepend j y =>
    cases h
    rcases mem_update hx with hx | ⟨rfl, hl⟩
    · exact .inl hx
    · rcases List.mem_cons.1 hl with hl | hl
      · exact .inr (.inl (.inr (by rw [hl])))
      · exact .inl hl
  | pop j y =>
    simp only [act] at h
    split at h
    · cases h
      rcases mem_update hx with hx | ⟨rfl, hl⟩
      · exact .inl hx
      · exact .inl (List.mem_of_mem_tail hl)
    · cases h
  | steal l r n =>
    cases h
    rcases mem_update hx with hx | ⟨rfl, hl⟩
    · exact .inl hx
    · exact .inl (List.mem_of_mem_drop hl)
  | merge l =>
    cases h
    rcases mem_update hx with hx | ⟨rfl, -⟩
    · exact .inl hx
    · exact .inr (.inr rfl)

lemma mem_queue_of_pop [DecidableEq α] {k : K} {x : α}
    (h : d.act le (.pop k x) = some d') : x ∈ d.queue k := by
  simp only [act] at h
  split at h
  · rename_i hx
    exact List.mem_of_mem_head? hx
  · cases h

variable [Fintype K]

variable (d)

def contents : Multiset α := Ledger.total (fun l : List α => (l : Multiset α)) d.queue +
    Ledger.total (fun l : List α => (l : Multiset α)) d.hand

lemma contents_queue {k : K} {l : List α} {x y : Multiset α} (h : (l : Multiset α) + x = d.queue k + y) :
    contents { d with queue := update d.queue k l } + x = d.contents + y := by
  have hq := Ledger.total_exchange (fun l : List α => (l : Multiset α)) h
  unfold contents
  rw [add_right_comm, hq, add_right_comm]

lemma contents_hand {k : K} {l : List α} {x y : Multiset α} (h : (l : Multiset α) + x = d.hand k + y) :
    contents { d with hand := update d.hand k l } + x = d.contents + y := by
  have hh := Ledger.total_exchange (fun l : List α => (l : Multiset α)) h
  unfold contents
  rw [add_assoc, hh, add_assoc]

variable {d}

lemma act_contents [DecidableEq α] {op : DequeOp K α}
    (h : d.act le op = some d') : d'.contents + op.removed = d.contents + op.added := by
  cases op with
  | idle =>
    cases h
    rfl
  | append k x =>
    cases h
    refine d.contents_queue ?_
    show ((d.queue k ++ [x] : List α) : Multiset α) + 0 = d.queue k + {x}
    rw [add_zero, ← coe_add]
    rfl
  | prepend k x =>
    cases h
    refine d.contents_queue ?_
    show ((x :: d.queue k : List α) : Multiset α) + 0 = d.queue k + {x}
    rw [add_zero, ← cons_coe, ← singleton_add, add_comm]
  | pop k x =>
    simp only [act] at h
    split at h
    · rename_i hx
      cases h
      obtain ⟨l, hl⟩ := List.head?_eq_some_iff.1 hx
      refine d.contents_queue ?_
      show ((d.queue k).tail : Multiset α) + {x} = d.queue k + 0
      rw [hl, add_zero, List.tail_cons, ← cons_coe, ← singleton_add, add_comm]
    · cases h
  | steal l r n =>
    cases h
    have hq := d.contents_queue (k := r) (l := (d.queue r).drop n)
      (x := ((d.queue r).take n : Multiset α)) (y := 0) (by
        rw [coe_add, add_zero]
        exact coe_eq_coe.2 (List.perm_append_comm.trans (List.take_append_drop n _ ▸ .refl _)))
    have hh := contents_hand { d with queue := update d.queue r ((d.queue r).drop n) }
      (k := l) (l := d.hand l ++ (d.queue r).take n) (x := 0)
      (y := ((d.queue r).take n : Multiset α)) (by rw [← coe_add, add_zero])
    exact hh.trans hq
  | merge l =>
    cases h
    have hh := d.contents_hand (k := l) (l := []) (x := (d.hand l : Multiset α)) (y := 0) (by
      rw [coe_nil, add_comm])
    have hq := contents_queue { d with hand := update d.hand l [] } (k := l)
      (l := (d.queue l).merge (d.hand l) le) (x := 0) (y := (d.hand l : Multiset α)) (by
        rw [coe_add, add_zero]
        exact coe_eq_coe.2 (List.merge_perm_append ..))
    exact hq.trans hh

end Deques

end Aspen
