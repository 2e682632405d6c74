import Aspen.Sched.Preempt

/-!
# Wrapped library calls

The wrappers of `shim/mem.c` around the allocator, in the build with `UNSAFE_PREEMPT_CLUI`: there `ui_handler`
yields whenever a user interrupt arrives while the user-interrupt flag is set. A wrapper clears the flag and
sets it again afterwards. That of `malloc` sets it twice instead (`malloc_preempted`), and `preempt_enable`
sets it whenever it ends the outermost section, also in a wrapped call.
-/

namespace Aspen.Shim

open Preempt

inductive Wrapper
  | malloc | free | calloc | realloc | posixMemalign | alignedAlloc
deriving DecidableEq

/-- What a thread executes. At every point of it an interrupt may arrive. -/
inductive Code
  | other
  | seq (a b : Code)
  /-- `preempt_disable` and `preempt_enable`, with the code between them -/
  | guarded (a : Code)
  /-- a wrapper, with what the real function executes; `active` is the result of `shim_active` -/
  | wrapped (w : Wrapper) (active : Bool) (a : Code)

structure Cpu where
  uif : Bool
  preemptCnt : BitVec 32

/-- What can be seen: the flag in a real function, and the flag before and after a wrapper. -/
inductive Seen
  | inside (uif : Bool)
  | call (before after : Bool)
deriving DecidableEq

def Seen.Right : Seen → Prop
  | .inside uif => uif = false
  | .call before after => after = before

namespace Cpu

variable (s : Cpu)

def preemptDisable : Cpu := ⟨if preemptEnabled s.preemptCnt then false else s.uif, s.preemptCnt + 1⟩

def preemptEnable : Cpu := ⟨if preemptEnabled (s.preemptCnt - 1) then true else s.uif, s.preemptCnt - 1⟩

/-- A wrapper in front of the real call: `_clui`, or `_stui` in `__wrap_malloc`. -/
def enter (w : Wrapper) (active : Bool) : Cpu := if active && s.uif then { s with uif := w == .malloc } else s

/-- A wrapper behind the real call, if it has found the flag at `uif`. -/
def leave (active uif : Bool) : Cpu := if active && uif then { s with uif := true } else s

def seen (real : Bool) : List Seen := if real then [.inside s.uif] else []

end Cpu

/-- The processor after the code, and what could be seen; `real` says that the code is that of a real function. -/
def exec : Bool → Code → Cpu → Cpu × List Seen
  | real, .other, s => (s, s.seen real)
  | real, .seq a b, s =>
    let r := exec real a s
    let r' := exec real b r.1
    (r'.1, r.2 ++ r'.2)
  | real, .guarded a, s =>
    let r := exec real a s.preemptDisable
    (r.1.preemptEnable, r.2 ++ r.1.preemptEnable.seen real)
  | real, .wrapped w active a, s =>
    let r := exec true a (s.enter w active)
    let s' := r.1.leave active s.uif
    (s', (s.enter w active).seen true ++ r.2 ++ [.call s.uif s'.uif] ++ s'.seen real)

/-- A wrapper that finds the flag set is active and not that of `malloc`, and no section begins in a real
function while preemption is enabled. -/
def Masked : Bool → Code → Cpu → Prop
  | _, .other, _ => True
  | real, .seq a b, s => Masked real a s ∧ Masked real b (exec real a s).1
  | real, .guarded a, s => (real = true → preemptEnabled s.preemptCnt = false) ∧ Masked real a s.preemptDisable
  | _, .wrapped w active a, s => (s.uif = true → active = true ∧ w ≠ .malloc) ∧ Masked true a (s.enter w active)

structure Keeps (real : Bool) (s : Cpu) (r : Cpu × List Seen) : Prop where
  right : ∀ o ∈ r.2, o.Right
  preemptCnt : r.1.preemptCnt = s.preemptCnt
  clear : real = true → r.1.uif = false

lemma right_seen {s : Cpu} {real : Bool} (h : real → s.uif = false) : ∀ o ∈ s.seen real, o.Right := by
  cases real with
  | false => exact fun o ho => absurd ho List.not_mem_nil
  | true => exact fun o ho => List.mem_singleton.1 ho ▸ h rfl

lemma enter_clear {s : Cpu} {w : Wrapper} {active : Bool} (h : s.uif → active ∧ w ≠ .malloc) :
    (s.enter w active).uif = false ∧ (s.enter w active).preemptCnt = s.preemptCnt := by
  unfold Cpu.enter
  cases hu : s.uif with
  | false => simp [hu]
  | true => simp [h hu]

/-- The flag is that of the caller again, because an active wrapper that found it set sets it. -/
lemma leave_eq {s r : Cpu} {active : Bool} (h : s.uif → active) (hr : r.uif = false)
    (hcnt : r.preemptCnt = s.preemptCnt) : r.leave active s.uif = s := by
  obtain ⟨uif, n⟩ := s
  obtain ⟨uif', n'⟩ := r
  cases hr
  cases hcnt
  cases uif with
  | false => simp [Cpu.leave]
  | true => simp [Cpu.leave, h rfl]

lemma preemptCnt_preemptEnable {s r : Cpu} (h : r.preemptCnt = s.preemptDisable.preemptCnt) :
    r.preemptCnt - 1 = s.preemptCnt := by
  rw [h, Cpu.preemptDisable]
  exact BitVec.add_sub_cancel ..

/-- In code that meets the condition everything seen is right. -/
lemma keeps_exec (c : Code) : ∀ (real : Bool) (s : Cpu), Masked real c s → (real → s.uif = false) →
    Keeps real s (exec real c s) := by
  induction c with
  | other => exact fun real s _ hs => ⟨right_seen hs, rfl, hs⟩
  | seq a b iha ihb =>
    intro real s h hs
    have ha := iha real s h.1 hs
    have hb := ihb real _ h.2 ha.clear
    refine ⟨fun o ho => ?_, hb.preemptCnt.trans ha.preemptCnt, hb.clear⟩
    exact (List.mem_append.1 ho).elim (ha.right o) (hb.right o)
  | guarded a ih =>
    intro real s h hs
    have hdis : real → s.preemptDisable.uif = false := fun hr => by
      rw [Cpu.preemptDisable, h.1 hr]
      exact hs hr
    have ha := ih real _ h.2 hdis
    have hcnt := preemptCnt_preemptEnable ha.preemptCnt
    have hen : real → (exec real a s.preemptDisable).1.preemptEnable.uif = false := fun hr => by
      rw [Cpu.preemptEnable, hcnt, h.1 hr]
      exact ha.clear hr
    refine ⟨fun o ho => ?_, hcnt, hen⟩
    exact (List.mem_append.1 ho).elim (ha.right o) (right_seen hen o)
  | wrapped w active a ih =>
    intro real s h hs
    obtain ⟨huif, hcnt⟩ := enter_clear h.1
    have ha := ih true _ h.2 fun _ => huif
    have hback : (exec true a (s.enter w active)).1.leave active s.uif = s :=
      leave_eq (fun hu => (h.1 hu).1) (ha.clear rfl) (ha.preemptCnt.trans hcnt)
    simp only [exec, hback]
    refine ⟨fun o ho => ?_, rfl, hs⟩
    rcases List.mem_append.1 ho with ho | ho
    · rcases List.mem_append.1 ho with ho | ho
      · exact (List.mem_append.1 ho).elim (right_seen (fun _ => huif) o) (ha.right o)
      · exact List.mem_singleton.1 ho ▸ rfl
    · exact right_seen hs o ho

/-- The first step outside of the condition shows the flag set in a real function. -/
lemma masked_of_right (c : Code) : ∀ (real : Bool) (s : Cpu), (real → s.uif = false) →
    (∀ o ∈ (exec real c s).2, o.Right) → Masked real c s := by
  induction c with
  | other => exact fun _ _ _ _ => trivial
  | seq a b iha ihb =>
    intro real s hs hright
    have ha := iha real s hs fun o ho => hright o (List.mem_append_left _ ho)
    exact ⟨ha, ihb real _ (keeps_exec a real s ha hs).clear fun o ho => hright o (List.mem_append_right _ ho)⟩
  | guarded a ih =>
    intro real s hs hright
    have hdis : real → s.preemptDisable.uif = false := fun hr => by
      rw [Cpu.preemptDisable, hs hr]
      exact ite_self _
    have ha := ih real _ hdis fun o ho => hright o (List.mem_append_left _ ho)
    refine ⟨fun hr => ?_, ha⟩
    subst hr
    have hend := hright _ (List.mem_append_right _ (List.mem_singleton_self _))
    rw [Seen.Right, Cpu.preemptEnable, preemptCnt_preemptEnable (keeps_exec a true _ ha hdis).preemptCnt] at hend
    cases hen : preemptEnabled s.preemptCnt with
    | false => rfl
    | true =>
      rw [hen] at hend
      cases hend
  | wrapped w active a ih =>
    intro real s hs hright
    have henter : (s.enter w active).uif = false :=
      hright _ (List.mem_append_left _ (List.mem_append_left _ (List.mem_append_left _ (List.mem_singleton_self _))))
    refine ⟨fun hu => ?_, ih true _ (fun _ => henter) fun o ho => hright o
      (List.mem_append_left _ (List.mem_append_left _ (List.mem_append_right _ ho)))⟩
    unfold Cpu.enter at henter
    cases active with
    | false => cases hu.symm.trans henter
    | true =>
      rw [hu] at henter
      exact ⟨rfl, ne_of_beq_false henter⟩

/-- The flag is clear in every wrapped function and every wrapper leaves it as it was, just in the code that meets the
condition. -/
theorem wrapped_masked (c : Code) (s : Cpu) : (∀ o ∈ (exec false c s).2, o.Right) ↔ Masked false c s :=
  ⟨masked_of_right c false s nofun, fun h => (keeps_exec c false s h nofun).right⟩

theorem wrapped_masked_nested : ∀ o ∈ (exec false (.guarded (.wrapped .realloc true (.seq (.wrapped .malloc true .other)
    (.guarded (.wrapped .free false .other))))) ⟨true, notPending⟩).2, o.Right :=
  (wrapped_masked _ _).2 ⟨nofun, nofun, ⟨nofun, trivial⟩, fun _ => by decide, nofun, trivial⟩

/-- The flag is set in `malloc`, and in `free` once a section in it has ended. -/
theorem malloc_preempted : .inside true ∈ (exec false (.wrapped .malloc true .other) ⟨true, notPending⟩).2 ∧
    .inside true ∈ (exec false (.wrapped .free true (.guarded .other)) ⟨true, notPending⟩).2 := by
  decide

end Aspen.Shim
