import Mathlib.Logic.Function.Basic

/-!
# Seats

Every one of a number of rows has some seats, in each of which one may sit. Those who are active are those
who sit somewhere, each in one seat, and in the row that is their home; one more may be in hand, already
active and about to be seated. The rules say what taking someone in hand, seating them, changing seats
and leaving do.
-/

namespace Aspen

open Function

/-- Who sits where, who is active, where they belong and who is in hand. -/
structure Seats {C K α : Type*} (seat : C → K → Option α) (active : α → Bool) (home : α → Option C)
    (hand : Option α) : Prop where
  home : ∀ {c k x}, seat c k = some x → home x = some c
  inj : ∀ {c k k' x}, seat c k = some x → seat c k' = some x → k = k'
  active : ∀ x, active x = true ↔ (∃ c k, seat c k = some x) ∨ hand = some x
  hand : ∀ {c k x}, hand = some x → seat c k ≠ some x

namespace Seats

variable {C K α : Type*} {seat : C → K → Option α} {active active' : α → Bool}
  {home home' : α → Option C} {hand : Option α}

lemma unique (h : Seats seat active home hand) {c c' : C} {k k' : K} {x : α}
    (hx : seat c k = some x) (hx' : seat c' k' = some x) : c = c' ∧ k = k' := by
  obtain rfl : c = c' := Option.some.inj ((h.home hx).symm.trans (h.home hx'))
  exact ⟨rfl, h.inj hx hx'⟩

lemma take (h : Seats seat active home none) {x : α} (hx : active x = false)
    (hactive : ∀ y, active' y ↔ y = x ∨ active y)
    (hhome : ∀ y, y ≠ x → home' y = home y) : Seats seat active' home' (some x) := by
  have hnot {c k} : seat c k ≠ some x := by
    intro hs
    have := (h.active x).2 (.inl ⟨c, k, hs⟩)
    rw [hx] at this
    cases this
  refine ⟨fun {c k y} hy => ?_, h.inj, fun y => ?_, ?_⟩
  · rw [hhome y fun he => hnot (he ▸ hy)]
    exact h.home hy
  · rw [hactive, h.active]
    constructor
    · rintro (rfl | hs | hn)
      · exact .inr rfl
      · exact .inl hs
      · cases hn
    · rintro (hs | hn)
      · exact .inr (.inl hs)
      · exact .inl (Option.some.inj hn).symm
  · intro c k y hy
    cases hy
    exact hnot

lemma congr (h : Seats seat active home hand) (hactive : ∀ x, active' x = active x)
    (hhome : ∀ c k x, seat c k = some x → home' x = home x) : Seats seat active' home' hand where
  home {c k x} hx := (hhome c k x hx).trans (h.home hx)
  inj := h.inj
  active x := by
    rw [hactive]
    exact h.active x
  hand := h.hand

variable [DecidableEq C] [DecidableEq K]

def put (seat : C → K → Option α) (c : C) (k : K) (x : Option α) : C → K → Option α :=
  update seat c (update (seat c) k x)

lemma put_self (c : C) (k : K) (x : Option α) : put seat c k x c k = x := by
  rw [put, update_self, update_self]

lemma put_of_ne {c c' : C} {k k' : K} (h : (c', k') ≠ (c, k)) (x : Option α) : put seat c k x c' k' = seat c' k' := by
  unfold put
  by_cases hc : c' = c
  · subst hc
    rw [update_self, update_of_ne]
    rintro rfl
    exact h rfl
  · rw [update_of_ne hc]

lemma put_eq_some {c c' : C} {k k' : K} {x : Option α} {y : α} : put seat c k x c' k' = some y ↔
      ((c', k') = (c, k) ∧ x = some y) ∨ ((c', k') ≠ (c, k) ∧ seat c' k' = some y) := by
  by_cases h : (c', k') = (c, k)
  · cases h
    rw [put_self]
    exact ⟨fun hx => .inl ⟨rfl, hx⟩, fun hx => hx.elim And.right fun hn => absurd rfl hn.1⟩
  · rw [put_of_ne h]
    exact ⟨fun hx => .inr ⟨h, hx⟩, fun hx => hx.elim (fun he => absurd he.1 h) And.right⟩

lemma sit {x : α} (h : Seats seat active home (some x)) {c : C} {k : K} (hc : home x = some c)
    (hk : seat c k = none) : Seats (put seat c k (some x)) active home none := by
  refine ⟨fun {c' k' y} hy => ?_, fun {c' k1 k2 y} h1 h2 => ?_, fun y => ?_, nofun⟩
  · rcases put_eq_some.1 hy with ⟨he, hxy⟩ | ⟨-, hy⟩
    · cases he
      cases hxy
      exact hc
    · exact h.home hy
  · rcases put_eq_some.1 h1 with ⟨he1, hx1⟩ | ⟨hn1, h1⟩
    · rcases put_eq_some.1 h2 with ⟨he2, -⟩ | ⟨-, h2⟩
      · cases he1
        cases he2
        rfl
      · exact absurd h2 (h.hand hx1)
    · rcases put_eq_some.1 h2 with ⟨-, hx2⟩ | ⟨-, h2⟩
      · exact absurd h1 (h.hand hx2)
      · exact h.inj h1 h2
  · rw [h.active]
    constructor
    · rintro (⟨c', k', hy⟩ | hxy)
      · refine .inl ⟨c', k', put_eq_some.2 (.inr ⟨?_, hy⟩)⟩
        intro he
        cases he
        rw [hk] at hy
        cases hy
      · exact .inl ⟨c, k, put_eq_some.2 (.inl ⟨rfl, hxy⟩)⟩
    · rintro (⟨c', k', hy⟩ | hn)
      · rcases put_eq_some.1 hy with ⟨-, hxy⟩ | ⟨-, hy⟩
        · exact .inr hxy
        · exact .inl ⟨c', k', hy⟩
      · cases hn

lemma leave (h : Seats seat active home hand) {c : C} {k : K} {x : α} (hx : seat c k = some x)
    (hactive : ∀ y, active' y ↔ y ≠ x ∧ active y) :
    Seats (put seat c k none) active' home hand := by
  refine ⟨fun {c' k' y} hy => ?_, fun {c' k1 k2 y} h1 h2 => ?_, fun y => ?_, fun {c' k' y} hy hs => ?_⟩
  · rcases put_eq_some.1 hy with ⟨-, hn⟩ | ⟨-, hy⟩
    · cases hn
    · exact h.home hy
  · rcases put_eq_some.1 h1 with ⟨-, hn⟩ | ⟨-, h1⟩
    · cases hn
    · rcases put_eq_some.1 h2 with ⟨-, hn⟩ | ⟨-, h2⟩
      · cases hn
      · exact h.inj h1 h2
  · rw [hactive, h.active]
    constructor
    · rintro ⟨hne, ⟨c', k', hy⟩ | hh⟩
      · refine .inl ⟨c', k', put_eq_some.2 (.inr ⟨?_, hy⟩)⟩
        intro he
        cases he
        exact hne (Option.some.inj (hy.symm.trans hx))
      · exact .inr hh
    · rintro (⟨c', k', hy⟩ | hh)
      · rcases put_eq_some.1 hy with ⟨-, hn⟩ | ⟨hne, hy⟩
        · cases hn
        · refine ⟨?_, .inl ⟨c', k', hy⟩⟩
          rintro rfl
          obtain ⟨rfl, rfl⟩ := h.unique hy hx
          exact hne rfl
      · refine ⟨?_, .inr hh⟩
        rintro rfl
        exact h.hand hh hx
  · rcases put_eq_some.1 hs with ⟨-, hn⟩ | ⟨-, hs⟩
    · cases hn
    · exact h.hand hy hs

lemma put_eq_self (c : C) (k : K) : put seat c k (seat c k) = seat := by
  rw [put, update_eq_self, update_eq_self]

lemma move (h : Seats seat active home hand) {c : C} (k k' : K) (hk' : seat c k' = none) :
    Seats (put (put seat c k none) c k' (seat c k)) active home hand := by
  -- where someone sits now, and where they sat before
  have hmoved {c1 k1 y} : put (put seat c k none) c k' (seat c k) c1 k1 = some y ↔
      ((c1, k1) = (c, k') ∧ seat c k = some y) ∨ ((c1, k1) ≠ (c, k') ∧ (c1, k1) ≠ (c, k) ∧ seat c1 k1 = some y) := by
    rw [put_eq_some, put_eq_some]
    constructor
    · rintro (hy | ⟨hn', ⟨-, hy⟩ | ⟨hn, hy⟩⟩)
      · exact .inl hy
      · cases hy
      · exact .inr ⟨hn', hn, hy⟩
    · rintro (hy | ⟨hn', hn, hy⟩)
      · exact .inl hy
      · exact .inr ⟨hn', .inr ⟨hn, hy⟩⟩
  refine ⟨fun {c1 k1 y} hy => ?_, fun {c1 k1 k2 y} h1 h2 => ?_, fun y => ?_, fun {c1 k1 y} hy hs => ?_⟩
  · rcases hmoved.1 hy with ⟨he, hy'⟩ | ⟨-, -, hy'⟩
    · cases he
      exact h.home hy'
    · exact h.home hy'
  · rcases hmoved.1 h1 with ⟨he1, h1'⟩ | ⟨-, hn1, h1'⟩
    · rcases hmoved.1 h2 with ⟨he2, -⟩ | ⟨-, hn2, h2'⟩
      · cases he1
        cases he2
        rfl
      · cases he1
        exact absurd (by rw [h.inj h1' h2']) hn2
    · rcases hmoved.1 h2 with ⟨he2, h2'⟩ | ⟨-, -, h2'⟩
      · cases he2
        exact absurd (by rw [h.inj h1' h2']) hn1
      · exact h.inj h1' h2'
  · rw [h.active]
    refine or_congr_left ⟨?_, ?_⟩
    · rintro ⟨c1, k1, hy⟩
      by_cases he : (c1, k1) = (c, k)
      · cases he
        exact ⟨c, k', hmoved.2 (.inl ⟨rfl, hy⟩)⟩
      · refine ⟨c1, k1, hmoved.2 (.inr ⟨?_, he, hy⟩)⟩
        intro he'
        cases he'
        rw [hk'] at hy
        cases hy
    · rintro ⟨c1, k1, hy⟩
      rcases hmoved.1 hy with ⟨-, hy⟩ | ⟨-, -, hy⟩
      · exact ⟨c, k, hy⟩
      · exact ⟨c1, k1, hy⟩
  · rcases hmoved.1 hs with ⟨-, hs⟩ | ⟨-, -, hs⟩
    · exact h.hand hy hs
    · exact h.hand hy hs

end Seats

end Aspen
