import Aspen.Lib.Run

/-!
# Threads over a shared state

Any number of threads, each with a state of its own (its place in the code and its local variables), take turns
at atomic actions. An action reads and writes the shared state and the state of the thread that takes it, and
nothing else.

A proof outline (Owicki and Gries) is a property of the shared state and an assertion for every thread: an
action keeps the property and the assertion of its own thread, and does not interfere with the others.
`Outline.reaches` turns an outline into an invariant of all interleavings.
-/

namespace Aspen.Threads

/-- The shared state, and what each thread has to itself. -/
structure Sys (θ σ ρ : Type*) where
  shared : σ
  own : θ → ρ

variable {θ σ ρ ε δ : Type*} [DecidableEq θ]

def step (act : θ → ε → σ → ρ → Except δ (σ × ρ)) (s : Sys θ σ ρ) (e : θ × ε) : Except δ (Sys θ σ ρ) :=
  match act e.1 e.2 s.shared (s.own e.1) with
  | .ok (m, r) => .ok ⟨m, Function.update s.own e.1 r⟩
  | .error d => .error d

variable {act : θ → ε → σ → ρ → Except δ (σ × ρ)}

lemma step_eq_ok {s s' : Sys θ σ ρ} {e : θ × ε} (h : step act s e = .ok s') :
    act e.1 e.2 s.shared (s.own e.1) = .ok (s'.shared, s'.own e.1) ∧
      ∀ t, t ≠ e.1 → s'.own t = s.own t := by
  unfold step at h
  split at h
  · rename_i m r hact
    cases h
    refine ⟨?_, fun t ht => Function.update_of_ne ht ..⟩
    rw [hact]
    simp
  · cases h

/-- A property `G` of the shared state and assertions `A` that hold as long as all actions meet the condition `ok`
where they are taken. -/
structure Outline (act : θ → ε → σ → ρ → Except δ (σ × ρ)) (ok : θ → ε → σ → ρ → Prop)
    (G : σ → Prop) (A : θ → σ → ρ → Prop) : Prop where
  own : ∀ {t e m r m' r'}, G m → A t m r → ok t e m r → act t e m r = .ok (m', r') → G m' ∧ A t m' r'
  other : ∀ {t e m r m' r' u q}, u ≠ t → G m → A t m r → A u m q → ok t e m r → act t e m r = .ok (m', r') → A u m' q

lemma Outline.reaches {ok : θ → ε → σ → ρ → Prop} {G : σ → Prop} {A : θ → σ → ρ → Prop}
    {init : Sys θ σ ρ → Prop} (o : Outline act ok G A)
    (hinit : ∀ s, init s → G s.shared ∧ ∀ t, A t s.shared (s.own t)) {s : Sys θ σ ρ}
    (hs : Run.Reaches (step act) (fun s e => ok e.1 e.2 s.shared (s.own e.1)) init s) :
    G s.shared ∧ ∀ t, A t s.shared (s.own t) := by
  refine hs.invariant (I := fun s => G s.shared ∧ ∀ t, A t s.shared (s.own t)) hinit ?_
  rintro s e s' ⟨hG, hA⟩ hok h
  obtain ⟨hact, hother⟩ := step_eq_ok h
  obtain ⟨hG', hA'⟩ := o.own hG (hA e.1) hok hact
  refine ⟨hG', fun t => ?_⟩
  by_cases ht : t = e.1
  · rw [ht]
    exact hA'
  · rw [hother t ht]
    exact o.other ht hG (hA e.1) (hA t) hok hact

end Aspen.Threads
