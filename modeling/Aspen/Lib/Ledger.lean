import Mathlib.Algebra.Order.BigOperators.Group.Finset
import Mathlib.Tactic.Abel

/-!
# Ledgers

A finite number of parties hold things, and what all of them hold together is a multiset (`total`). A
party that changes its holdings changes the total by the difference, so the total is computed one party
at a time (`total_exchange`). When the total has no duplicates, everything has one holder.
-/

namespace Aspen.Ledger

open Function Finset

variable {K ρ α : Type*} [Fintype K]

def total (held : ρ → Multiset α) (s : K → ρ) : Multiset α := ∑ k, held (s k)

variable {held : ρ → Multiset α} {s : K → ρ} {a : α} {i j k : K} {v : ρ}

lemma mem_total : a ∈ total held s ↔ ∃ k, a ∈ held (s k) := by
  simp [total, Multiset.mem_sum]

lemma total_eq_zero (h : ∀ k, held (s k) = 0) : total held s = 0 := sum_eq_zero fun k _ => h k

lemma total_mono {held' : ρ → Multiset α} (h : ∀ r, held r ≤ held' r) : total held s ≤ total held' s :=
  sum_le_sum fun k _ => h (s k)

variable [DecidableEq K]

lemma total_eq_add_erase (k : K) : total held s = held (s k) + ∑ j ∈ Finset.univ.erase k, held (s j) :=
  (add_sum_erase _ (fun j => held (s j)) (mem_univ k)).symm

lemma held_le_total (held : ρ → Multiset α) (s : K → ρ) (k : K) : held (s k) ≤ total held s := by
  rw [total_eq_add_erase k]
  exact Multiset.le_add_right _ _

lemma total_update (held : ρ → Multiset α) (k : K) (v : ρ) :
    total held (update s k v) + held (s k) = total held s + held v := by
  have hothers : ∑ j ∈ Finset.univ.erase k, held (update s k v j) = ∑ j ∈ Finset.univ.erase k, held (s j) := by
    refine sum_congr rfl fun j hj => ?_
    rw [update_of_ne (ne_of_mem_erase hj)]
  rw [total_eq_add_erase k, total_eq_add_erase k, update_self, hothers]
  abel

lemma total_update_of_eq (h : held v = held (s k)) : total held (update s k v) = total held s := by
  have hsum : total held (update s k v) + held (s k) = total held s + held v := total_update held k v
  rw [h] at hsum
  exact add_right_cancel hsum

lemma total_exchange (held : ρ → Multiset α) {x y : Multiset α} (h : held v + x = held (s k) + y) :
    total held (update s k v) + x = total held s + y := by
  have hsum : total held (update s k v) + held (s k) = total held s + held v := total_update held k v
  apply add_right_cancel (b := held (s k))
  calc total held (update s k v) + x + held (s k)
      = total held s + (held v + x) := by rw [add_right_comm, hsum, add_assoc]
    _ = total held s + y + held (s k) := by rw [h, add_comm (held (s k)), add_assoc]

lemma total_update_of_gain {x : Multiset α} (h : held v = x + held (s k)) :
    total held (update s k v) = x + total held s := by
  have hsum := total_exchange (s := s) (k := k) (v := v) held (x := 0) (y := x) (by rw [h, add_zero, add_comm])
  rwa [add_zero, add_comm _ x] at hsum

lemma total_update_of_loss {x : Multiset α} (h : x + held v = held (s k)) :
    x + total held (update s k v) = total held s := by
  have hsum := total_exchange (s := s) (k := k) (v := v) held (x := x) (y := 0) (by rw [← h, add_zero, add_comm])
  rwa [add_zero, add_comm _ x] at hsum

lemma holder_unique (hn : (total held s).Nodup) (hi : a ∈ held (s i)) (hj : a ∈ held (s j)) : i = j := by
  by_contra hne
  rw [total_eq_add_erase i, Multiset.nodup_add] at hn
  refine Multiset.disjoint_left.1 hn.2.2 hi (Multiset.mem_sum.2 ⟨j, ?_, hj⟩)
  exact mem_erase.2 ⟨Ne.symm hne, mem_univ j⟩

end Aspen.Ledger
