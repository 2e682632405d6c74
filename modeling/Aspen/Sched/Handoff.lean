import Aspen.Sched.Books

/-!
# A thread runs on one kthread

A kthread that loads a frame holds the flag of the thread, so the frame is saved and nobody is on the
stack. The flag is held by one kthread at a time, because a stack is marked only by the kthread that has
the token of the thread, and only after it has found the stack idle.
-/

namespace Aspen.Sched.Switch

open Run Function Ledger Multiset

variable {K θ : Type*} [DecidableEq K] [DecidableEq θ] [Fintype K] {s s' : Sys K θ} {e : Event K θ}
  {k : K} {th : θ}

/-! ## Runs -/

structure Book.Ok (b : Book θ) : Prop where
  flags : b.flags.Nodup
  busy : ∀ th ∈ b.flags, b.running th = true
  alive : ∀ th ∈ b.flags, th ∉ b.free
  idle : ∀ th ∈ b.polled, b.running th = false
  saved : ∀ th, b.saved th = true ∨ th ∈ b.unsaved ∨ th ∈ b.free

structure Inv (s : Sys K θ) : Prop extends s.book.Ok where
  wf : ∀ k, (s.ks k).Wf
  tokens : s.tokens.Nodup

section

omit [DecidableEq K] [DecidableEq θ]

lemma Inv.token_nodup (hs : Inv s) : (total Kthread.token s.ks).Nodup := (nodup_add.1 hs.tokens).2.1

lemma Inv.of_token (hs : Inv s) (h : th ∈ total Kthread.token s.ks) :
    th ∉ s.waiting ∧ th ∉ s.free ∧ th ∉ s.dq.contents := by
  have hdisj := (nodup_add.1 hs.tokens).2.2
  have hout : th ∉ s.waiting + s.free + s.dq.contents := disjoint_right.1 hdisj h
  simpa [not_or, and_assoc] using hout

lemma polled_le_tokens (s : Sys K θ) : s.polled ≤ total Kthread.token s.ks := total_mono Kthread.polled_le_token

lemma unsaved_le_flags (s : Sys K θ) : s.unsaved ≤ s.flags :=
  total_mono fun k => k.unsaved_le_stack.trans k.stack_le_flags

end

omit [DecidableEq θ] in
lemma Book.Ok.less {b : Book θ} {f : Multiset θ} (hb : b.Ok) (hf : {th} + f = b.flags) :
    (th ∉ f ∧ f.Nodup) ∧ ∀ t ∈ f, t ∈ b.flags := by
  refine ⟨nodup_cons.1 ?_, fun t ht => hf ▸ mem_add.2 (.inr ht)⟩
  rw [← singleton_add, hf]
  exact hb.flags

omit [DecidableEq K] in
lemma FlagMove.ok {b : Book θ} (hs : Inv s) (h : FlagMove s.book b) : b.Ok := by
  have hb := hs.toOk
  obtain ⟨f, u, p, r, sv, fr⟩ := b
  cases h with
  | keep h =>
    cases h
    exact hb
  | poll th hidle h =>
    cases h
    refine { hb with idle := fun t ht => ?_ }
    rcases mem_add.1 ht with ht | ht
    · exact mem_singleton.1 ht ▸ hidle
    · exact hb.idle t ht
  | mark th hp h =>
    cases h
    have hmem : th ∈ s.book.polled := hp ▸ mem_add.2 (.inl (mem_singleton_self th))
    have hidle := hb.idle th hmem
    have hnew : th ∉ s.flags := fun hth => by simp [hb.busy th hth] at hidle
    have hpolled : ({th} + p).Nodup := hp ▸ nodup_of_le (polled_le_tokens s) hs.token_nodup
    refine { hb with flags := ?_, busy := fun t ht => ?_, alive := fun t ht => ?_, idle := fun t ht => ?_ }
    · rw [singleton_add]
      exact nodup_cons.2 ⟨hnew, hb.flags⟩
    · simp only [update_apply]
      split_ifs with hth
      · rfl
      · exact hb.busy t (by simpa [hth] using ht)
    · rcases mem_add.1 ht with ht | ht
      · rw [mem_singleton.1 ht]
        exact (hs.of_token (mem_of_le (polled_le_tokens s) hmem)).2.1
      · exact hb.alive t ht
    · have hne : t ≠ th := by
        rintro rfl
        exact (nodup_cons.1 (singleton_add _ _ ▸ hpolled)).1 ht
      simp only [update_of_ne hne]
      exact hb.idle t (hp ▸ mem_add.2 (.inr ht))
  | save th hu h =>
    cases h
    refine { hb with saved := fun t => ?_ }
    simp only [update_apply]
    split_ifs with hth
    · exact .inl rfl
    · simpa [← hu, hth] using hb.saved t
  | clear th hf h =>
    cases h
    obtain ⟨⟨hth, hnodup⟩, hsub⟩ := hb.less hf
    refine { hb with flags := hnodup, busy := fun t ht => ?_, alive := fun t ht => hb.alive t (hsub t ht),
                     idle := fun t ht => ?_ }
    · simp only [update_of_ne (ne_of_mem_of_not_mem ht hth)]
      exact hb.busy t (hsub t ht)
    · simp only [update_apply]
      split_ifs
      · rfl
      · exact hb.idle t ht
  | resume th h =>
    cases h
    refine { hb with saved := fun t => ?_ }
    simp only [update_apply]
    split_ifs with hth
    · simp [hth]
    · simpa [hth] using hb.saved t
  | exit th hf hu h =>
    cases h
    obtain ⟨⟨hth, hnodup⟩, hsub⟩ := hb.less hf
    refine { hb with flags := hnodup, busy := fun t ht => hb.busy t (hsub t ht), alive := fun t ht => ?_,
                     saved := fun t => ?_ }
    · simpa [ne_of_mem_of_not_mem ht hth] using hb.alive t (hsub t ht)
    · have hsaved := hb.saved t
      rw [← hu] at hsaved
      simp only [mem_add] at hsaved ⊢
      tauto
  | create th hfree h =>
    cases h
    have hmem : th ∈ s.book.free := hfree ▸ mem_add.2 (.inl (mem_singleton_self th))
    refine { hb with busy := fun t ht => ?_, alive := fun t ht hfr => ?_, idle := fun t ht => ?_,
                     saved := fun t => ?_ }
    · have hne : t ≠ th := by
        rintro rfl
        exact hb.alive t ht hmem
      simp only [update_of_ne hne]
      exact hb.busy t ht
    · exact hb.alive t ht (hfree ▸ mem_add.2 (.inr hfr))
    · simp only [update_apply]
      split_ifs
      · rfl
      · exact hb.idle t ht
    · simp only [update_apply]
      split_ifs with hth
      · exact .inl rfl
      · simpa [← hfree, hth] using hb.saved t

/-- No step lets two kthreads on one stack. -/
lemma step_inv (hs : Inv s) (h : step s e = .ok s') : Inv s' := by
  have htokens := step_tokens hs.wf h
  obtain ⟨dq, s1, -, hmove, rfl⟩ := step_eq_ok h
  exact ⟨(move_flags hs.wf hmove).ok hs, fun k => move_wf hs.wf hmove k, htokens ▸ hs.tokens⟩

omit [DecidableEq K] [DecidableEq θ] in
lemma inv_initial (hs : Initial s) : Inv s := by
  have hzero : ∀ {f : Kthread θ → Multiset θ}, (∀ k, f (s.ks k) = 0) → total f s.ks = 0 := fun h => total_eq_zero h
  have hflags : s.flags = 0 := hzero fun k => by simp [Kthread.flags, hs.pc k, hs.self k, held]
  have hpolled : s.polled = 0 := hzero fun k => by simp [Kthread.polled, hs.pc k]
  have hcontents : s.dq.contents = 0 := by
    unfold Deques.contents
    rw [total_eq_zero fun k => ?_, total_eq_zero fun k => ?_, add_zero]
    · rw [hs.hand k, coe_nil]
    · rw [hs.queue k, coe_nil]
  refine ⟨⟨?_, ?_, ?_, ?_, fun th => .inr (.inr (hs.mem_free th))⟩, fun k => ?_, ?_⟩
  · exact (congrArg Multiset.Nodup hflags).mpr nodup_zero
  · show ∀ th ∈ s.flags, _
    simp [hflags]
  · show ∀ th ∈ s.flags, _
    simp [hflags]
  · show ∀ th ∈ s.polled, _
    simp [hpolled]
  · simp [Kthread.Wf, hs.pc k]
  · rw [Sys.tokens, hs.waiting, hcontents, hzero fun k => by simp [Kthread.token, hs.pc k]]
    simpa using hs.free

/-! ## Frames and stacks -/

def Kthread.Loads (k : Kthread θ) (th : θ) : Prop := k.pc = .owning none th ∨ ∃ o, k.pc = .left o th

def Kthread.Restores (k : Kthread θ) (th : θ) : Prop := (∃ o, k.pc = .switched o th) ∨ k.pc = .restoring th

def Kthread.Runs (k : Kthread θ) (th : θ) : Prop := (k.pc = .run ∨ k.pc = .enqueued) ∧ k.self = some th

omit [DecidableEq θ] in
lemma Inv.stack_unique (hs : Inv s) {i j : K} (hi : th ∈ (s.ks i).flags)
    (hj : th ∈ (s.ks j).stack) : j = i :=
  holder_unique hs.flags (mem_of_le (s.ks j).stack_le_flags hj) hi

omit [DecidableEq θ] in
/-- The frame of a thread whose flag is held by a kthread that has yet to enter it. -/
lemma Inv.saved_of_flags (hs : Inv s) (hk : th ∈ (s.ks k).flags) (hout : th ∉ (s.ks k).unsaved) :
    s.saved th = true := by
  rcases hs.saved th with hsaved | hunsaved | hfree
  · exact hsaved
  · obtain ⟨j, hj⟩ := mem_total.1 hunsaved
    have hjk : j = k := hs.stack_unique hk (mem_of_le (s.ks j).unsaved_le_stack hj)
    exact absurd (hjk ▸ hj) hout
  · exact absurd hfree (hs.alive th (mem_total.2 ⟨k, hk⟩))

omit [DecidableEq K] [DecidableEq θ] in
lemma Inv.of_polled (hs : Inv s) {out : Option θ} (hpc : (s.ks k).pc = .polled out th) :
    s.running th = false ∧ s.saved th = true ∧ ∀ j, th ∉ (s.ks j).stack := by
  have hpolled : th ∈ s.polled := mem_total.2 ⟨k, by simp [Kthread.polled, hpc]⟩
  have hidle := hs.idle th hpolled
  have hflags : th ∉ s.flags := fun hth => by simp [hs.busy th hth] at hidle
  refine ⟨hidle, ?_, fun j hj => hflags ?_⟩
  · rcases hs.saved th with hsaved | hunsaved | hfree
    · exact hsaved
    · exact absurd (mem_of_le (unsaved_le_flags s) hunsaved) hflags
    · exact absurd hfree (hs.of_token (mem_of_le (polled_le_tokens s) hpolled)).2.1
  · exact mem_total.2 ⟨j, mem_of_le (s.ks j).stack_le_flags hj⟩

omit [DecidableEq θ] in
lemma Inv.of_loads (hs : Inv s) (hk : (s.ks k).Loads th) : s.saved th = true ∧ ∀ j, th ∉ (s.ks j).stack := by
  have hnodup : (s.ks k).flags.Nodup := nodup_of_le (held_le_total Kthread.flags s.ks k) hs.flags
  have hk' : th ∈ (s.ks k).flags ∧ th ∉ (s.ks k).stack := by
    rcases hk with hpc | ⟨o, hpc⟩
    · simp [Kthread.flags, Kthread.stack, hpc, held]
    · simp only [Kthread.flags, hpc, nodup_cons, mem_singleton] at hnodup
      simp [Kthread.flags, Kthread.stack, hpc, hnodup.1]
  obtain ⟨hflag, hout⟩ := hk'
  refine ⟨hs.saved_of_flags hflag fun h => ?_, fun j hj => ?_⟩
  · exact hout (mem_of_le (s.ks k).unsaved_le_stack h)
  · exact hout (hs.stack_unique hflag hj ▸ hj)

omit [DecidableEq θ] in
lemma Inv.of_restores (hs : Inv s) (hk : (s.ks k).Restores th) :
    s.saved th = true ∧ ∀ j, th ∈ (s.ks j).stack → j = k := by
  have hk' : th ∈ (s.ks k).flags ∧ th ∉ (s.ks k).unsaved := by
    rcases hk with ⟨o, hpc⟩ | hpc
    · simp [Kthread.flags, Kthread.unsaved, hpc]
    · simp [Kthread.flags, Kthread.unsaved, hpc]
  exact ⟨hs.saved_of_flags hk'.1 hk'.2, fun j hj => hs.stack_unique hk'.1 hj⟩

/-- A kthread gets past the loop of `jmp_thread` only when the flag of the thread has been cleared; then its frame is
saved and nobody is on its stack, and this is still so when the frame is loaded. No stack is used by two kthreads, no
thread is in the queues twice, and a thread that runs is in none. -/
theorem handoff_safe (hs : Reaches step (fun _ _ => True) Initial s) :
    (∀ k out th, (s.ks k).pc = .polled out th →
      s.running th = false ∧ s.saved th = true ∧ ∀ j, th ∉ (s.ks j).stack) ∧
    (∀ k th, (s.ks k).Loads th → s.saved th = true ∧ ∀ j, th ∉ (s.ks j).stack) ∧
    (∀ k th, (s.ks k).Restores th → s.saved th = true ∧ ∀ j, th ∈ (s.ks j).stack → j = k) ∧
    (∀ th i j, th ∈ (s.ks i).stack → th ∈ (s.ks j).stack → i = j) ∧
    s.dq.contents.Nodup ∧ ∀ k th, (s.ks k).Runs th → th ∉ s.dq.contents := by
  have hinv : Inv s := hs.invariant (fun _ => inv_initial) fun _ _ _ hs _ => step_inv hs
  refine ⟨fun _ _ _ => hinv.of_polled, fun _ _ => hinv.of_loads, fun _ _ => hinv.of_restores,
    fun th i j hi hj => ?_, (nodup_add.1 (nodup_add.1 hinv.tokens).1).2.1, fun k th hk => ?_⟩
  · exact hinv.stack_unique (mem_of_le (s.ks j).stack_le_flags hj) hi
  · refine (hinv.of_token (mem_total.2 ⟨k, ?_⟩)).2.2
    obtain ⟨hpc | hpc, hself⟩ := hk
    · simp [Kthread.token, hpc, hself, held]
    · simp [Kthread.token, hpc, hself, held]

def idleSys : Sys (Fin 2) (Fin 2) where
  dq := { queue := fun _ => [], hand := fun _ => [] }
  ks _ := { self := none, pc := .leaving }
  ready _ := false
  running _ := false
  saved _ := false
  waiting := 0
  free := {0, 1}
  clock := 1
  parkedAt _ := 0
  readyAt _ := 0

lemma initial_idleSys : Initial idleSys :=
  ⟨fun _ => rfl, fun _ => rfl, fun _ => rfl, fun _ => rfl, rfl, by decide, by decide, by decide⟩

/-- The first kthread runs a thread, which parks; the second kthread wakes it up at once and pops it. -/
def wokenEarly : List (Event (Fin 2) (Fin 2)) :=
  [.create 0, .create 1, .enter 0, .enter 1, .ready 0 0, .pop 0 0, .jump 0, .poll 0, .mark 0, .load 0,
    .resume 0, .ready 0 1, .enqueue 0, .park 0, .ready 1 0, .pop 1 0, .jump 1, .poll 1, .pick 0 1,
    .jump 0]

theorem handoff_safe_woken : ∃ s : Sys (Fin 2) (Fin 2),
    (s.ks 1).pc = .owning none 0 ∧ s.saved 0 = true ∧ ∀ j, 0 ∉ (s.ks j).stack := by
  obtain ⟨s, hs, hpc⟩ : ∃ s, Reaches step (fun _ _ => True) Initial s ∧ (s.ks 1).pc = .owning none 0 :=
    Reaches.of_exec (wokenEarly ++ [.poll 0, .mark 0, .save 0, .load 0, .clear 0, .poll 1, .mark 1])
      initial_idleSys (allowed_true _ _) (by decide)
  exact ⟨s, hpc, (handoff_safe hs).2.1 1 0 (.inl hpc)⟩

end Aspen.Sched.Switch
