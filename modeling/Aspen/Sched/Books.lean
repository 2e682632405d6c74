import Aspen.Sched.Switch

/-!
# What kthreads hold

Three books are kept.
-/

namespace Aspen.Sched.Switch

open Function Ledger Multiset

variable {K θ : Type*}

/-! ## What a kthread holds -/

def held : Option θ → Multiset θ
  | none => 0
  | some th => {th}

namespace Kthread

variable (k : Kthread θ)

def token : Multiset θ :=
  match k.pc with
  | .run | .enqueued | .finishing => held k.self
  | .ceding th | .chosen _ th | .spinning _ th | .polled _ th | .owning _ th | .left _ th
  | .switched _ th | .restoring th => {th}
  | .entering | .leaving | .sched => 0

def flags : Multiset θ :=
  match k.pc with
  | .run | .enqueued | .entering | .finishing | .leaving => held k.self
  | .chosen out _ | .spinning out _ | .polled out _ => held out
  | .owning out th => th ::ₘ held out
  | .left o th | .switched o th => th ::ₘ {o}
  | .restoring th => {th}
  | .ceding _ | .sched => 0

def stack : Multiset θ :=
  match k.pc with
  | .run | .enqueued | .entering => held k.self
  | .chosen out _ | .spinning out _ | .polled out _ | .owning out _ => held out
  | .left o _ => {o}
  | .switched _ th | .restoring th => {th}
  | .finishing | .ceding _ | .leaving | .sched => 0

def unsaved : Multiset θ :=
  match k.pc with
  | .run | .enqueued | .entering => held k.self
  | .chosen out _ | .spinning out _ | .polled out _ | .owning out _ => held out
  | _ => 0

def polled : Multiset θ :=
  match k.pc with
  | .polled _ th => {th}
  | _ => 0

/-- A kthread switches to another thread; from `jmp_thread` on, that is `__self`. A thread that has been
ceded is not. -/
def Wf : Prop :=
  match k.pc with
  | .ceding _ => k.self = none
  | .chosen out th => out ≠ some th
  | .spinning out th | .polled out th | .owning out th => out ≠ some th ∧ k.self = some th
  | .left _ th | .switched _ th | .restoring th => k.self = some th
  | _ => True

lemma stack_le_flags : k.stack ≤ k.flags := by
  unfold stack flags
  cases k.pc <;> simp [le_cons_self]

lemma unsaved_le_stack : k.unsaved ≤ k.stack := by
  unfold unsaved stack
  cases k.pc <;> simp

lemma polled_le_token : k.polled ≤ k.token := by
  unfold polled token
  cases k.pc <;> simp

end Kthread

open Switch.Kthread (token)

namespace Sys

variable [Fintype K]

variable (s : Sys K θ)

def tokens : Multiset θ := s.waiting + s.free + s.dq.contents + total token s.ks

def flags : Multiset θ := total Kthread.flags s.ks

def unsaved : Multiset θ := total Kthread.unsaved s.ks

def polled : Multiset θ := total Kthread.polled s.ks

end Sys

variable [DecidableEq K] [DecidableEq θ] [Fintype K] {s s' s₁ : Sys K θ} {e : Event K θ} {k : K}
  {v : Kthread θ} {th : θ}

/-! ## `__self` -/

omit [DecidableEq θ] [Fintype K] in
lemma wf_set (hwf : ∀ k, (s.ks k).Wf) (hv : v.Wf) (j : K) : ((s.set k v).ks j).Wf := by
  by_cases hj : j = k
  · subst hj
    simpa [Sys.set] using hv
  · simpa [Sys.set, hj] using hwf j

omit [Fintype K] in
lemma move_wf (hwf : ∀ k, (s.ks k).Wf) (h : move s e = .ok s') (j : K) : (s'.ks j).Wf := by
  cases moved h with
  | ready | readyHead | create | steal | merge | spin => exact hwf j
  | pick _ _ _ hne =>
    refine wf_set hwf ?_ j
    exact fun heq => hne (Option.some_inj.1 heq).symm
  | pop =>
    refine wf_set hwf ?_ j
    exact nofun
  | save k hpc =>
    have hk := hwf k
    rw [Kthread.Wf, hpc] at hk
    refine wf_set hwf ?_ j
    exact hk.2
  | jump k hpc | poll k hpc | mark k hpc | loadIdle k hpc | load k hpc | clear k hpc =>
    refine wf_set hwf ?_ j
    simpa [Kthread.Wf, hpc] using hwf k
  | _ => exact wf_set hwf (by trivial) j

/-! ## Tokens -/

def TokenMove (s s' : Sys K θ) (op : DequeOp K θ) : Prop := s'.waiting + s'.free + total token s'.ks + op.added
    = s.waiting + s.free + total token s.ks + op.removed

omit [DecidableEq θ] in
lemma tokenMove_of_update {op : DequeOp K θ} (hks : s'.ks = update s.ks k v)
    (h : s'.waiting + s'.free + v.token + op.added
      = s.waiting + s.free + (s.ks k).token + op.removed) : TokenMove s s' op := by
  have htotal : total token s'.ks + (s.ks k).token = _ := hks ▸ total_update token k v
  apply add_right_cancel (b := (s.ks k).token)
  calc s'.waiting + s'.free + total token s'.ks + op.added + (s.ks k).token
      = s'.waiting + s'.free + op.added + (total token s'.ks + (s.ks k).token) := by abel
    _ = s'.waiting + s'.free + v.token + op.added + total token s.ks := by
        rw [htotal]
        abel
    _ = s.waiting + s.free + total token s.ks + op.removed + (s.ks k).token := by
        rw [h]
        abel

lemma erase_add_singleton {m : Multiset θ} (h : th ∈ m) : m.erase th + {th} = m := by
  rw [add_comm, singleton_add, cons_erase h]

lemma move_tokens (hwf : ∀ k, (s.ks k).Wf) (h : move s e = .ok s') : TokenMove s s' (s.op e) := by
  cases moved h with
  | ready k th _ hmem | readyHead k th _ hmem =>
    show s.waiting.erase th + s.free + total token s.ks + {th}
      = s.waiting + s.free + total token s.ks + 0
    rw [add_right_comm, add_right_comm _ s.free, erase_add_singleton hmem, add_zero]
  | create th hmem =>
    calc th ::ₘ s.waiting + s.free.erase th + total token s.ks + 0
        = s.waiting + (s.free.erase th + {th}) + total token s.ks + 0 := by
          rw [← singleton_add]
          abel
      _ = s.waiting + s.free + total token s.ks + 0 := by
          rw [erase_add_singleton hmem]
  | steal | merge | spin => rfl
  | park k hpc hself | exit k hpc hself =>
    refine tokenMove_of_update rfl ?_
    simp only [token, hpc, hself, held, Sys.op, DequeOp.added, DequeOp.removed, Sys.goto, Sys.set, ← singleton_add]
    abel
  | resume k hpc =>
    refine tokenMove_of_update rfl ?_
    have hself := hwf k
    rw [Kthread.Wf, hpc] at hself
    simp [token, hpc, hself, held, Sys.op, DequeOp.added, DequeOp.removed, Sys.goto, Sys.set]
  | enqueue k hpc hself | yield k hpc hself | schedule k hpc hself | again k hpc hself | pick k hpc hself
  | cede k hpc hself | finishCede k hpc hself | enter k hpc hself | enterIdle k hpc hself =>
    refine tokenMove_of_update rfl ?_
    simp [token, hpc, hself, held, Sys.op, DequeOp.added, DequeOp.removed, Sys.goto, Sys.set]
  | cedeReady k hpc | pop k hpc | jump k hpc | poll k hpc | mark k hpc | save k hpc | loadIdle k hpc | load k hpc
  | clear k hpc =>
    refine tokenMove_of_update rfl ?_
    simp [token, hpc, Sys.op, DequeOp.added, DequeOp.removed, Sys.goto, Sys.set]

/-- Steps only pass tokens on. -/
lemma step_tokens (hwf : ∀ k, (s.ks k).Wf) (h : step s e = .ok s') : s'.tokens = s.tokens := by
  obtain ⟨dq, s₁, hact, hmove, rfl⟩ := step_eq_ok h
  have hcontents := Deques.act_contents hact
  have htokens : TokenMove s s₁ (s.op e) := move_tokens hwf hmove
  apply add_right_cancel (b := (s.op e).added + (s.op e).removed)
  calc s₁.waiting + s₁.free + dq.contents + total token s₁.ks + ((s.op e).added + (s.op e).removed)
      = (s₁.waiting + s₁.free + total token s₁.ks + (s.op e).added)
          + (dq.contents + (s.op e).removed) := by abel
    _ = s.waiting + s.free + s.dq.contents + total token s.ks
          + ((s.op e).added + (s.op e).removed) := by
        rw [htokens, hcontents]
        abel

/-! ## Flags -/

@[ext]
structure Book (θ : Type*) where
  flags : Multiset θ
  unsaved : Multiset θ
  polled : Multiset θ
  running : θ → Bool
  saved : θ → Bool
  free : Multiset θ

def Sys.book (s : Sys K θ) : Book θ := ⟨s.flags, s.unsaved, s.polled, s.running, s.saved, s.free⟩

inductive FlagMove (b b' : Book θ) : Prop
  | keep (h : b' = b)
  | poll (th : θ) (hidle : b.running th = false) (h : b' = { b with polled := {th} + b.polled })
  | mark (th : θ) (hp : {th} + b'.polled = b.polled)
      (h : b' = { b with
        flags := {th} + b.flags, polled := b'.polled, running := update b.running th true })
  | save (th : θ) (hu : {th} + b'.unsaved = b.unsaved)
      (h : b' = { b with unsaved := b'.unsaved, saved := update b.saved th true })
  | clear (th : θ) (hf : {th} + b'.flags = b.flags)
      (h : b' = { b with flags := b'.flags, running := update b.running th false })
  | resume (th : θ) (h : b' = { b with unsaved := {th} + b.unsaved, saved := update b.saved th false })
  | exit (th : θ) (hf : {th} + b'.flags = b.flags) (hu : {th} + b'.unsaved = b.unsaved)
      (h : b' = { b with flags := b'.flags, unsaved := b'.unsaved, free := {th} + b.free })
  | create (th : θ) (hfree : {th} + b'.free = b.free)
      (h : b' = { b with
        running := update b.running th false, saved := update b.saved th true, free := b'.free })

attribute [local simp] Kthread.flags Kthread.unsaved Kthread.polled held in
lemma move_flags (hwf : ∀ k, (s.ks k).Wf) (h : move s e = .ok s') : FlagMove s.book s'.book := by
  cases moved h with
  | ready | readyHead | steal | merge | spin => exact .keep rfl
  | create th hmem => exact .create th ((singleton_add ..).trans (cons_erase hmem)) rfl
  | enqueue k hpc hself | park k hpc hself | yield k hpc hself | again k hpc hself | pick k hpc hself
  | enterIdle k hpc hself =>
    refine .keep (Book.ext (total_update_of_eq ?_) (total_update_of_eq ?_) (total_update_of_eq ?_) rfl rfl rfl)
    all_goals simp [hpc, hself]
  | pop k hpc | jump k hpc | loadIdle k hpc | load k hpc =>
    refine .keep (Book.ext (total_update_of_eq ?_) (total_update_of_eq ?_) (total_update_of_eq ?_) rfl rfl rfl)
    all_goals simp [hpc]
  | cedeReady k hpc =>
    have hself := hwf k
    rw [Kthread.Wf, hpc] at hself
    refine .keep (Book.ext (total_update_of_eq ?_) (total_update_of_eq ?_) (total_update_of_eq ?_) rfl rfl rfl)
    all_goals simp [hpc, hself]
  | @schedule k th hpc hself | @cede k th hpc hself =>
    refine .save th (total_update_of_loss ?_) (Book.ext (total_update_of_eq ?_) rfl
      (total_update_of_eq ?_) rfl rfl rfl)
    all_goals simp [hpc, hself]
  | @finishCede k th hpc hself | @enter k th hpc hself =>
    refine .clear th (total_update_of_loss ?_) (Book.ext rfl (total_update_of_eq ?_)
      (total_update_of_eq ?_) rfl rfl rfl)
    all_goals simp [hpc, hself]
  | @exit k th hpc hself =>
    refine .exit th (total_update_of_loss ?_) (total_update_of_loss ?_)
      (Book.ext rfl rfl (total_update_of_eq ?_) rfl rfl rfl)
    all_goals simp [hpc, hself]
  | @poll k out th hpc hidle =>
    refine .poll th hidle (Book.ext (total_update_of_eq ?_) (total_update_of_eq ?_)
      (total_update_of_gain ?_) rfl rfl rfl)
    all_goals simp [hpc]
  | @mark k out th hpc =>
    refine .mark th (total_update_of_loss ?_) (Book.ext (total_update_of_gain ?_)
      (total_update_of_eq ?_) rfl rfl rfl rfl)
    all_goals simp [hpc]
  | @save k o th hpc =>
    refine .save o (total_update_of_loss ?_) (Book.ext (total_update_of_eq ?_) rfl
      (total_update_of_eq ?_) rfl rfl rfl)
    all_goals simp [hpc]
  | @clear k o th hpc =>
    refine .clear o (total_update_of_loss ?_) (Book.ext rfl (total_update_of_eq ?_)
      (total_update_of_eq ?_) rfl rfl rfl)
    · simp only [Kthread.flags, hpc]
      exact add_comm ({o} : Multiset θ) {th}
    all_goals simp [hpc]
  | @resume k th hpc =>
    have hself := hwf k
    rw [Kthread.Wf, hpc] at hself
    refine .resume th (Book.ext (total_update_of_eq ?_) (total_update_of_gain ?_)
      (total_update_of_eq ?_) rfl rfl rfl)
    all_goals simp [hpc, hself]

end Aspen.Sched.Switch
