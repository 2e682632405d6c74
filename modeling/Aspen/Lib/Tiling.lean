import Mathlib.Data.List.Chain
import Mathlib.Order.Lattice

/-!
# Tiling an interval from the left

A queue of spans covers everything between a mark `u` and its end `y`. The mark moves to the right and
releases what it passes: spans that end at or below it may be dropped, and a span that it cuts may be cut
down to what lies behind it. So the spans follow each other without a gap, except that a gap may have
been opened below the mark.
-/

namespace Aspen.Tiling

variable {α : Type*} [LinearOrder α]

/-- The spans `l` go on from `x` to `y`; a gap between two of them ends at or below `u`. -/
inductive Follows (u : α) : α → List (α × α) → α → Prop
  | nil (x : α) : Follows u x [] x
  | cons {x a b y : α} {l : List (α × α)} (hgap : x = a ∨ x ≤ a ∧ a ≤ u) (hab : a ≤ b)
      (h : Follows u b l y) : Follows u x ((a, b) :: l) y

/-- The spans `l` cover what lies between `u` and `y`. -/
inductive Tiles (u : α) : List (α × α) → α → Prop
  | nil {y : α} (h : y ≤ u) : Tiles u [] y
  | cons {a b y : α} {l : List (α × α)} (ha : a ≤ u) (hab : a ≤ b) (h : Follows u b l y) : Tiles u ((a, b) :: l) y

variable {u v x y z a b : α} {l r : List (α × α)}

/-! ## Moving the mark -/

lemma Follows.mono (h : Follows u x l y) (huv : u ≤ v) : Follows v x l y := by
  induction h with
  | nil x => exact .nil x
  | cons hgap hab _ ih => exact .cons (hgap.imp_right fun hgap => ⟨hgap.1, hgap.2.trans huv⟩) hab ih

lemma Tiles.mono (h : Tiles u l y) (huv : u ≤ v) : Tiles v l y := by
  cases h with
  | nil h => exact .nil (h.trans huv)
  | cons ha hab h => exact .cons (ha.trans huv) hab (h.mono huv)

lemma Tiles.tail (h : Tiles u ((a, b) :: l) y) (hb : b ≤ u) : Tiles u l y := by
  cases h with
  | cons ha hab h =>
    cases h with
    | nil => exact .nil hb
    | cons hgap hab' h =>
      rcases hgap with rfl | ⟨-, hgap⟩
      · exact .cons hb hab' h
      · exact .cons hgap hab' h

lemma Tiles.dropWhile (h : Tiles u (l ++ r) y) : Tiles u (l.dropWhile (fun s => decide (s.2 ≤ u)) ++ r) y := by
  induction l with
  | nil => exact h
  | cons s l ih =>
    by_cases hs : s.2 ≤ u
    · rw [List.dropWhile_cons_of_pos (by simpa using hs)]
      exact ih (h.tail hs)
    · rw [List.dropWhile_cons_of_neg (by simpa using hs)]
      exact h

/-! ## The right end -/

lemma Follows.snoc (h : Follows u x l y) (hyz : y ≤ z) : Follows u x (l ++ [(y, z)]) z := by
  induction h with
  | nil x => exact .cons (.inl rfl) hyz (.nil z)
  | cons hgap hab _ ih => exact .cons hgap hab (ih hyz)

lemma Tiles.snoc (h : Tiles u l y) (hyz : y ≤ z) : Tiles u (l ++ [(y, z)]) z := by
  cases h with
  | nil h => exact .cons h hyz (.nil z)
  | cons ha hab h => exact .cons ha hab (h.snoc hyz)

lemma Follows.last (h : Follows u x (l ++ [(a, b)]) y) : b = y := by
  induction l generalizing x with
  | nil =>
    cases h with
    | cons _ _ h =>
      cases h
      rfl
  | cons s l ih =>
    cases h with
    | cons _ _ h => exact ih h

lemma Tiles.last (h : Tiles u (l ++ [(a, b)]) y) : b = y := by
  cases l with
  | nil =>
    cases h with
    | cons _ _ h =>
      cases h
      rfl
  | cons s l =>
    cases h with
    | cons _ _ h => exact h.last

lemma Follows.grow (h : Follows u x (l ++ [(a, y)]) y) (hyz : y ≤ z) : Follows u x (l ++ [(a, z)]) z := by
  induction l generalizing x with
  | nil =>
    cases h with
    | cons hgap hab _ => exact .cons hgap (hab.trans hyz) (.nil z)
  | cons s l ih =>
    cases h with
    | cons hgap hab h => exact .cons hgap hab (ih h)

lemma Tiles.grow (h : Tiles u (l ++ [(a, y)]) y) (hyz : y ≤ z) : Tiles u (l ++ [(a, z)]) z := by
  cases l with
  | nil =>
    cases h with
    | cons ha hab _ => exact .cons ha (hab.trans hyz) (.nil z)
  | cons s l =>
    cases h with
    | cons ha hab h => exact .cons ha hab (h.grow hyz)

/-! ## Cutting a span -/

lemma Follows.trim {i : ℕ} (h : Follows u x l y) (hi : l[i]? = some (a, b)) (ha : a ≤ u)
    (hb : u ≤ b) : Follows u x (l.set i (u, b)) y := by
  induction h generalizing i with
  | nil x => simp at hi
  | cons hgap hab h ih =>
    cases i with
    | zero =>
      cases hi
      refine .cons (.inr ⟨?_, le_rfl⟩) hb h
      rcases hgap with rfl | ⟨hgap, -⟩
      · exact ha
      · exact hgap.trans ha
    | succ i => exact .cons hgap hab (ih hi)

lemma Tiles.trim {i : ℕ} (h : Tiles u l y) (hi : l[i]? = some (a, b)) (ha : a ≤ u) (hb : u ≤ b) :
    Tiles u (l.set i (u, b)) y := by
  cases h with
  | nil h => simp at hi
  | cons ha' hab h =>
    cases i with
    | zero =>
      cases hi
      exact .cons le_rfl hb h
    | succ i => exact .cons ha' hab (h.trim hi ha hb)

/-! ## What the spans cover -/

lemma Follows.bounds (h : Follows u x l y) : x ≤ y ∧ ∀ s ∈ l, x ≤ s.1 ∧ s.1 ≤ s.2 ∧ s.2 ≤ y := by
  induction h with
  | nil x => exact ⟨le_rfl, by simp⟩
  | @cons x a b l y hgap hab _ ih =>
    have hxa : x ≤ a := by
      rcases hgap with rfl | ⟨hgap, -⟩
      · exact le_rfl
      · exact hgap
    refine ⟨hxa.trans (hab.trans ih.1), ?_⟩
    intro s hs
    cases hs with
    | head => exact ⟨hxa, hab, ih.1⟩
    | tail _ hs =>
      obtain ⟨h1, h2, h3⟩ := ih.2 s hs
      exact ⟨hxa.trans (hab.trans h1), h2, h3⟩

lemma Tiles.bounds (h : Tiles u l y) {s : α × α} (hs : s ∈ l) : s.1 ≤ s.2 ∧ s.2 ≤ y := by
  cases h with
  | nil h => cases hs
  | cons ha hab h =>
    obtain ⟨h1, h2⟩ := h.bounds
    cases hs with
    | head => exact ⟨hab, h1⟩
    | tail _ hs => exact (h2 s hs).2

lemma Tiles.head_le (h : Tiles u ((a, b) :: l) y) {s : α × α} (hs : s ∈ (a, b) :: l) : a ≤ s.1 := by
  cases h with
  | cons ha hab h =>
    cases hs with
    | head => exact le_rfl
    | tail _ hs => exact hab.trans (h.bounds.2 s hs).1

lemma Follows.before {s t : α × α} (h : Follows u x (l ++ t :: r) y) (hs : s ∈ l) : s.2 ≤ t.1 := by
  induction l generalizing x with
  | nil => cases hs
  | cons s' l ih =>
    cases h with
    | cons _ _ h =>
      cases hs with
      | head => exact (h.bounds.2 t (by simp)).1
      | tail _ hs => exact ih h hs

lemma Tiles.before {s t : α × α} (h : Tiles u (l ++ t :: r) y) (hs : s ∈ l) : s.2 ≤ t.1 := by
  cases l with
  | nil => cases hs
  | cons s' l =>
    cases h with
    | cons ha hab h =>
      cases hs with
      | head => exact (h.bounds.2 t (by simp)).1
      | tail _ hs => exact h.before hs

lemma Follows.covers (h : Follows u x l y) (hu : u ≤ z) (hx : x ≤ z) (hz : z < y) : ∃ s ∈ l, s.1 ≤ z ∧ z < s.2 := by
  induction h with
  | nil x => exact absurd hz (not_lt.2 hx)
  | @cons x a b l y hgap hab _ ih =>
    rcases lt_or_ge z b with hzb | hbz
    · refine ⟨(a, b), by simp, ?_, hzb⟩
      rcases hgap with rfl | ⟨-, hgap⟩
      · exact hx
      · exact hgap.trans hu
    · obtain ⟨s, hs, hcov⟩ := ih hbz hz
      exact ⟨s, by simp [hs], hcov⟩

lemma Tiles.covers (h : Tiles u l y) (hu : u ≤ z) (hz : z < y) : ∃ s ∈ l, s.1 ≤ z ∧ z < s.2 := by
  cases h with
  | nil h => exact absurd (hu.trans_lt hz) (not_lt.2 h)
  | @cons a b _ l ha hab h =>
    rcases lt_or_ge z b with hzb | hbz
    · exact ⟨(a, b), by simp, ha.trans hu, hzb⟩
    · obtain ⟨s, hs, hcov⟩ := h.covers hu hbz hz
      exact ⟨s, by simp [hs], hcov⟩

/-! ## Without gaps -/

def Contiguous (l : List (α × α)) : Prop := l.IsChain fun s t => s.2 = t.1

lemma Follows.contiguous (h : Follows u b l y) (hu : u < b) : Contiguous ((a, b) :: l) := by
  induction h generalizing a with
  | nil x => exact .singleton _
  | cons hgap hab _ ih =>
    rcases hgap with rfl | ⟨hle, hgap⟩
    · exact .cons_cons rfl (ih (hu.trans_le hab))
    · exact absurd (hu.trans_le (hle.trans hgap)) (lt_irrefl _)

/-- Once the first span ends behind the mark there is no gap. -/
lemma Tiles.contiguous (h : Tiles u ((a, b) :: l) y) (hu : u < b) : Contiguous ((a, b) :: l) := by
  cases h with
  | cons ha hab h => exact h.contiguous hu

omit [LinearOrder α] in
lemma Contiguous.snoc (h : Contiguous l) (hlast : ∀ s ∈ l.getLast?, s.2 = y) : Contiguous (l ++ [(y, z)]) := by
  refine List.IsChain.append h (.singleton _) ?_
  intro s hs t ht
  cases ht
  exact hlast s hs

end Aspen.Tiling
