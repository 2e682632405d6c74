import Mathlib.Tactic.Ring

/-!
# Runs of a step function

A system is a partial, possibly failing step function `σ → ε → Except δ σ`: a state takes an event
and either moves on or stops with a reason. Interleavings of several threads are runs in which each
event is one thread's next atomic section.

`Reaches step ok init s` says that some run from an initial state ends in `s`, every one of its steps
having satisfied the side condition `ok` *in the state it was taken from*. Invariants are proved once
per step and lifted with `Reaches.invariant`.
-/

namespace Aspen.Run

variable {σ ε δ : Type*}

/-- The states reached by runs all of whose steps satisfy `ok`. -/
inductive Reaches (step : σ → ε → Except δ σ) (ok : σ → ε → Prop) (init : σ → Prop) : σ → Prop
  | start {s : σ} : init s → Reaches step ok init s
  | snoc {s s' : σ} {e : ε} : Reaches step ok init s → ok s e → step s e = .ok s' → Reaches step ok init s'

variable {step : σ → ε → Except δ σ} {ok ok' : σ → ε → Prop} {init : σ → Prop}

/-- The invariant rule. -/
theorem Reaches.invariant {I : σ → Prop} (hinit : ∀ s, init s → I s)
    (hstep : ∀ s e s', I s → ok s e → step s e = .ok s' → I s') {s : σ} (h : Reaches step ok init s) : I s := by
  induction h with
  | start h0 => exact hinit _ h0
  | snoc _ hok hs ih => exact hstep _ _ _ ih hok hs

variable (x : Except δ σ) (P : σ → Prop)

/-- A weaker side condition reaches more states. -/
theorem Reaches.mono (hok : ∀ s e, ok s e → ok' s e) {s : σ}
    (h : Reaches step ok init s) : Reaches step ok' init s := by
  induction h with
  | start h0 => exact .start h0
  | snoc _ ho hs ih => exact .snoc ih (hok _ _ ho) hs

def exec (step : σ → ε → Except δ σ) : σ → List ε → Except δ σ
  | s, [] => .ok s
  | s, e :: es => match step s e with
    | .ok s' => exec step s' es
    | .error d => .error d

/-- Every prefix of a list of events satisfies the side condition where it is taken. -/
def Allowed (step : σ → ε → Except δ σ) (ok : σ → ε → Prop) : σ → List ε → Prop
  | _, [] => True
  | s, e :: es => ok s e ∧ ∀ s', step s e = .ok s' → Allowed step ok s' es

theorem Allowed.mono (hok : ∀ s e, ok s e → ok' s e) {s : σ} {es : List ε}
    (h : Allowed step ok s es) : Allowed step ok' s es := by
  induction es generalizing s with
  | nil => trivial
  | cons e es ih => exact ⟨hok s e h.1, fun s' hs => ih (h.2 s' hs)⟩

instance Allowed.decidable [∀ s e, Decidable (ok s e)] : (s : σ) → (es : List ε) → Decidable (Allowed step ok s es)
  | _, [] => isTrue trivial
  | s, e :: es =>
    match h : step s e with
    | .ok s' =>
      have := Allowed.decidable s' es
      decidable_of_iff (ok s e ∧ Allowed step ok s' es)
        ⟨fun ⟨h₁, h₂⟩ => ⟨h₁, fun s'' h' => by cases h.symm.trans h'; exact h₂⟩, fun ⟨h₁, h₂⟩ => ⟨h₁, h₂ s' h⟩⟩
    | .error _ =>
      decidable_of_iff (ok s e)
        ⟨fun h₁ => ⟨h₁, fun s'' h' => by cases h.symm.trans h'⟩, And.left⟩

/-- An executed list of allowed events extends a run. -/
theorem Reaches.exec {s s' : σ} {es : List ε} (h : Reaches step ok init s)
    (ha : Allowed step ok s es) (he : exec step s es = .ok s') : Reaches step ok init s' := by
  induction es generalizing s with
  | nil =>
    cases he
    exact h
  | cons e es ih =>
    simp only [Run.exec] at he
    split at he
    · rename_i s1 hs
      exact ih (.snoc h ha.1 hs) (ha.2 s1 hs) he
    · cases he

/-- The computation ends, in a state with the property `P`. -/
def Ends : Prop := ∃ s, x = .ok s ∧ P s

instance {x : Except δ σ} {P : σ → Prop} [DecidablePred P] : Decidable (Ends x P) :=
  match x with
  | .ok s => decidable_of_iff (P s) ⟨fun h => ⟨s, rfl, h⟩, fun ⟨_, he, h⟩ => by cases he; exact h⟩
  | .error _ => isFalse fun ⟨_, he, _⟩ => nomatch he

/-- The computation ends in a state with the property `P`, or stops for a reason with the property `Q`. -/
inductive Comes (Q : δ → Prop) (P : σ → Prop) : Except δ σ → Prop
  | stop {d : δ} : Q d → Comes Q P (.error d)
  | ok {s : σ} : P s → Comes Q P (.ok s)

namespace Comes

variable {τ : Type*} {Q : δ → Prop} {P : σ → Prop} {P' : τ → Prop} {x : Except δ σ}

theorem of_ok {s : σ} (h : Comes Q P x) (hx : x = .ok s) : P s := by
  cases hx ▸ h with
  | ok h => exact h

theorem of_error {d : δ} (h : Comes Q P x) (hx : x = .error d) : Q d := by
  cases hx ▸ h with
  | stop h => exact h

theorem map {f : σ → τ} (h : Comes Q P x) (hP : ∀ s, P s → P' (f s)) : Comes Q P' (x.map f) := by
  cases h with
  | stop h => exact .stop h
  | ok h => exact .ok (hP _ h)

theorem imp {Q' : δ → Prop} {P' : σ → Prop} (h : Comes Q P x) (hQ : ∀ d, Q d → Q' d) (hP : ∀ s, P s → P' s) :
    Comes Q' P' x := by
  cases h with
  | stop h => exact .stop (hQ _ h)
  | ok h => exact .ok (hP _ h)

theorem guard {p : Prop} [Decidable p] {d : δ} (hd : Q d) (h : p → Comes Q P x) :
    Comes Q P (if p then x else .error d) := by
  split
  · exact h (by assumption)
  · exact .stop hd

end Comes

instance decidableError [DecidableEq δ] {x : Except δ σ} {d : δ} : Decidable (x = .error d) :=
  match x with
  | .ok _ => isFalse nofun
  | .error d' => decidable_of_iff (d' = d) ⟨congrArg _, Except.error.inj⟩

/-- A list of events that executes without stopping leads to a reachable state. -/
theorem Reaches.of_exec {P : σ → Prop} {s : σ} (es : List ε) (hs : init s)
    (ha : Allowed step ok s es) (h : Ends (Run.exec step s es) P) : ∃ s', Reaches step ok init s' ∧ P s' := by
  obtain ⟨s', he, hP⟩ := h
  exact ⟨s', .exec (.start hs) ha he, hP⟩

theorem Reaches.of_exec_imp {P Q : σ → Prop} {s : σ} (es : List ε) (hs : init s) (ha : Allowed step ok s es)
    (h : Ends (Run.exec step s es) P) (himp : ∀ s', Reaches step ok init s' → P s' → Q s') :
    ∃ s', Reaches step ok init s' ∧ Q s' := by
  obtain ⟨s', hr, hP⟩ := of_exec es hs ha h
  exact ⟨s', hr, himp s' hr hP⟩

/-- Without a side condition every list of events is allowed. -/
theorem allowed_true (s : σ) (es : List ε) : Allowed step (fun _ _ => True) s es := by
  induction es generalizing s with
  | nil => trivial
  | cons e es ih => exact ⟨trivial, fun s' _ => ih s'⟩

theorem reached {P : σ → Prop} {s : σ} (step : σ → ε → Except δ σ) (init : σ → Prop) (es : List ε)
    (hs : init s) (h : Ends (Run.exec step s es) P) : ∃ s', Reaches step (fun _ _ => True) init s' ∧ P s' :=
  Reaches.of_exec es hs (allowed_true s es) h

theorem bind_eq_ok.{u} {α β : Type u} {x : Except δ α} {f : α → Except δ β} {b : β} :
    x >>= f = .ok b ↔ ∃ a, x = .ok a ∧ f a = .ok b := by
  cases x <;> simp [bind, Except.bind]

/-- A guarded step is taken when its guard holds. -/
theorem guard_eq_ok {p : Prop} [Decidable p] {x : Except δ σ} {d : δ} {s : σ} :
    (if p then x else .error d) = .ok s ↔ p ∧ x = .ok s := by
  split
  · rename_i hp
    exact ⟨fun h => ⟨hp, h⟩, And.right⟩
  · rename_i hp
    exact ⟨nofun, fun h => absurd h.1 hp⟩

theorem guard_not_eq_ok {p : Prop} [Decidable p] {x : Except δ σ} {d : δ} {s : σ} :
    (if p then .error d else x) = .ok s ↔ ¬p ∧ x = .ok s := by
  rw [← ite_not]
  exact guard_eq_ok

/-! ## Continuations -/

/-- Some list of events leads from one state to another. -/
def Leads (step : σ → ε → Except δ σ) (s s' : σ) : Prop := ∃ es, Run.exec step s es = .ok s'

theorem Leads.refl (s : σ) : Leads step s s := ⟨[], rfl⟩

theorem Leads.head {s s1 s' : σ} (e : ε) (he : step s e = .ok s1) (h : Leads step s1 s') : Leads step s s' := by
  obtain ⟨es, hes⟩ := h
  exact ⟨e :: es, by simp only [Run.exec, he, hes]⟩

theorem Leads.trans {s s1 s' : σ} (h₁ : Leads step s s1) (h₂ : Leads step s1 s') : Leads step s s' := by
  obtain ⟨es, hes⟩ := h₁
  induction es generalizing s with
  | nil =>
    cases hes
    exact h₂
  | cons e es ih =>
    simp only [Run.exec] at hes
    split at hes
    · rename_i s2 hs
      exact .head e hs (ih hes)
    · cases hes

/-! ## Adding up along a run -/

variable {α : Type*} [Add α]

/-- The step function of a run that also adds up what its steps contribute. -/
def tally (step : σ → ε → Except δ σ) (f : σ → ε → α) (x : σ × α) (e : ε) : Except δ (σ × α) :=
  match step x.1 e with
  | .ok s => .ok (s, x.2 + f x.1 e)
  | .error d => .error d

theorem tally_eq_ok {f : σ → ε → α} {x y : σ × α} {e : ε} :
    tally step f x e = .ok y ↔ step x.1 e = .ok y.1 ∧ y.2 = x.2 + f x.1 e := by
  unfold tally
  constructor
  · intro h
    split at h
    · rename_i s hs
      cases h
      exact ⟨hs, rfl⟩
    · cases h
  · rintro ⟨hs, hn⟩
    rw [hs]
    rw [← hn]

/-! ## Small numbers of parties -/

scoped instance neZeroOne : NeZero 1 := inferInstance

scoped instance neZeroTwo : NeZero 2 := inferInstance

scoped instance neZeroThree : NeZero 3 := inferInstance

scoped instance neZeroFour : NeZero 4 := inferInstance

scoped instance neZeroSix : NeZero 6 := inferInstance

end Aspen.Run
