import Aspen.Sched.Handoff

/-!
# Kthreads do not wait in a circle

A kthread that switches directly waits for the stack of the next thread while it is on the stack of the
last one. What it waits for was in its own queue when its thread began to park, provided that a parking
thread wakes nobody up any more (`WakesFirst`). So the next thread had been made ready before then, and
had itself begun to park before it was made ready. The time at which the outgoing thread began to park
falls from every kthread to the one it waits for.
-/

namespace Aspen.Sched.Switch

open Ledger Run Function Multiset

variable {K θ : Type*}

/-! ## Outgoing and incoming threads -/

namespace Kthread

def outgoing (k : Kthread θ) : Option θ :=
  match k.pc with
  | .enqueued | .entering => k.self
  | .chosen out _ | .spinning out _ | .polled out _ | .owning out _ => out
  | .left o _ | .switched o _ => some o
  | _ => none

def incoming (k : Kthread θ) : Option θ :=
  match k.pc with
  | .chosen _ th | .spinning _ th | .polled _ th | .owning _ th | .left _ th | .switched _ th
  | .restoring th => some th
  | _ => none

lemma outgoing_mem_flags {k : Kthread θ} {o : θ} (h : k.outgoing = some o) : o ∈ k.flags := by
  unfold outgoing at h
  unfold flags
  cases hpc : k.pc <;> simp_all [held]

lemma incoming_mem_token {k : Kthread θ} {th : θ} (h : k.incoming = some th) : th ∈ k.token := by
  unfold incoming at h
  unfold token
  cases hpc : k.pc <;> simp_all

end Kthread

open Switch.Kthread (outgoing incoming)

def Sys.Near (s : Sys K θ) (k : K) (th : θ) : Prop := th ∈ s.dq.queue k ∨ (s.ks k).incoming = some th

section Queued

variable [Fintype K]

def Sys.Queued (s : Sys K θ) (th : θ) : Prop := th ∈ s.dq.contents ∨ ∃ k, (s.ks k).incoming = some th

lemma Sys.Near.queued {s : Sys K θ} {k : K} {th : θ} (h : s.Near k th) : s.Queued th := by
  rcases h with h | h
  · exact .inl (mem_add.2 (.inl (mem_total.2 ⟨k, mem_coe.2 h⟩)))
  · exact .inr ⟨k, h⟩

end Queued

/-- A thread that has put itself on a list wakes nobody up. -/
def WakesFirst (s : Sys K θ) : Event K θ → Prop
  | .ready k _ | .readyHead k _ => (s.ks k).pc ≠ .enqueued ∧ (s.ks k).pc ≠ .entering
  | _ => True

variable [DecidableEq K] [DecidableEq θ]

instance (s : Sys K θ) (e : Event K θ) : Decidable (WakesFirst s e) := by
  cases e <;> dsimp only [WakesFirst] <;> infer_instance

variable [Fintype K] {s s' : Sys K θ} {e : Event K θ} {k : K} {v : Kthread θ} {th : θ}
  {op : DequeOp K θ}

/-! ## Times -/

/-- What a step that takes `op` with it does to the times, and to the threads that the kthreads leave and enter. -/
structure StampMove (s s' : Sys K θ) (op : DequeOp K θ) : Prop where
  parked : ∀ th, s'.parkedAt th = s.parkedAt th ∨
    s'.parkedAt th = s.clock ∧ ¬s.Queued th ∧ ∀ k, (s.ks k).outgoing ≠ some th
  ready : ∀ th, s'.readyAt th = s.readyAt th ∨ s'.readyAt th = s.clock ∧ ¬s.Queued th
  outgoing : ∀ k o, (s'.ks k).outgoing = some o → ((s.ks k).outgoing = some o ∨ s'.parkedAt o = s.clock) ∧
    (∀ th, op = .append k th ∨ op = .prepend k th → th = o) ∧ op ≠ .merge k
  incoming : ∀ k th, (s'.ks k).incoming = some th → (s.ks k).incoming = some th ∨ op = .pop k th
  added : ∀ th ∈ op.added, s'.readyAt th = s.clock

omit [DecidableEq K] [DecidableEq θ] in
lemma StampMove.of_times (hp : s'.parkedAt = s.parkedAt) (hr : s'.readyAt = s.readyAt) (hop : op.added = 0)
    (hout : ∀ k o, (s'.ks k).outgoing = some o → (s.ks k).outgoing = some o ∧ op ≠ .merge k)
    (hin : ∀ k th, (s'.ks k).incoming = some th → (s.ks k).incoming = some th ∨ op = .pop k th) :
    StampMove s s' op := by
  refine ⟨fun th => .inl (by rw [hp]), fun th => .inl (by rw [hr]), fun k o h => ?_, hin, ?_⟩
  · obtain ⟨hold, hmerge⟩ := hout k o h
    refine ⟨.inl hold, ?_, hmerge⟩
    rintro th (rfl | rfl)
    · simp at hop
    · simp at hop
  · rw [hop]
    simp

omit [DecidableEq θ] in
lemma StampMove.of_update (hks : s'.ks = update s.ks k v) (hp : s'.parkedAt = s.parkedAt)
    (hr : s'.readyAt = s.readyAt) (hop : op = .idle ∨ ∃ th, op = .pop k th)
    (hout : ∀ o, v.outgoing = some o → (s.ks k).outgoing = some o)
    (hin : ∀ th, v.incoming = some th → (s.ks k).incoming = some th ∨ op = .pop k th) : StampMove s s' op := by
  refine .of_times hp hr ?_ (fun j o h => ⟨?_, ?_⟩) fun j th h => ?_
  · rcases hop with rfl | ⟨th, rfl⟩
    · rfl
    · rfl
  · rw [hks, update_apply] at h
    split_ifs at h with hj
    · exact hj ▸ hout o h
    · exact h
  · rcases hop with rfl | ⟨th, rfl⟩
    · nofun
    · nofun
  · rw [hks, update_apply] at h
    split_ifs at h with hj
    · exact hj ▸ hin th h
    · exact .inl h

omit [DecidableEq θ] in
lemma Inv.not_queued_of_token (hs : Inv s) (htoken : th ∈ (s.ks k).token)
    (hin : (s.ks k).incoming = none) : ¬s.Queued th := by
  rintro (hth | ⟨j, hj⟩)
  · exact (hs.of_token (mem_total.2 ⟨k, htoken⟩)).2.2 hth
  · have hjk : j = k := holder_unique hs.token_nodup (Kthread.incoming_mem_token hj) htoken
    rw [hjk, hin] at hj
    cases hj

omit [DecidableEq K] [DecidableEq θ] in
lemma Inv.not_queued_of_waiting (hs : Inv s) (hth : th ∈ s.waiting) : ¬s.Queued th := by
  have htokens : (s.waiting + (s.free + s.dq.contents + total Kthread.token s.ks)).Nodup := by
    simpa only [Sys.tokens, add_assoc] using hs.tokens
  have hout := disjoint_left.1 (nodup_add.1 htokens).2.2 hth
  rintro (hq | ⟨j, hj⟩)
  · exact hout (by simp [hq])
  · refine hout (mem_add.2 (.inr (mem_total.2 ⟨j, ?_⟩)))
    exact Kthread.incoming_mem_token hj

omit [DecidableEq θ] in
lemma Inv.of_run (hs : Inv s) (hpc : (s.ks k).pc = .run) (hself : (s.ks k).self = some th) :
    ¬s.Queued th ∧ ∀ j, (s.ks j).outgoing ≠ some th := by
  refine ⟨hs.not_queued_of_token (k := k) ?_ ?_, fun j hj => ?_⟩
  · simp [Kthread.token, hpc, hself, held]
  · simp [incoming, hpc]
  · have hk : th ∈ (s.ks k).flags := by simp [Kthread.flags, hpc, hself, held]
    have hjk : j = k := holder_unique hs.flags (Kthread.outgoing_mem_flags hj) hk
    rw [hjk] at hj
    simp [outgoing, hpc] at hj

lemma update_time {f : θ → ℕ} {n : ℕ} {p : θ → Prop} (hth : p th) (t : θ) :
    update f th n t = f t ∨ update f th n t = n ∧ p t := by
  rw [update_apply]
  split_ifs with ht
  · exact .inr ⟨rfl, ht ▸ hth⟩
  · exact .inl rfl

omit [DecidableEq θ] [Fintype K] in
lemma update_kthread (f : Kthread θ → Option θ) {j : K} {o : θ} (h : f (update s.ks k v j) = some o) :
    j = k ∧ f v = some o ∨ j ≠ k ∧ f (s.ks j) = some o := by
  rw [update_apply] at h
  split_ifs at h with hj
  · exact .inl ⟨hj, h⟩
  · exact .inr ⟨hj, h⟩

omit [DecidableEq K] in
lemma wake_stamps (hs : Inv s) (hk : (s.ks k).pc ≠ .enqueued ∧ (s.ks k).pc ≠ .entering)
    (hop : op = .append k th ∨ op = .prepend k th) (hwakes : (s.ks k).pc.wakes) (hmem : th ∈ s.waiting) :
    StampMove s { s with
      waiting := s.waiting.erase th
      ready := update s.ready th true
      readyAt := update s.readyAt th s.clock } op := by
  have hnone : (s.ks k).outgoing = none := by
    unfold outgoing
    cases hpc : (s.ks k).pc <;> simp_all [Pc.wakes]
  refine ⟨fun t => .inl rfl, update_time (hs.not_queued_of_waiting hmem),
    fun j o hj => ⟨.inl hj, fun t ht => ?_, ?_⟩, fun j t => .inl, ?_⟩
  · have hjk : j = k := by
      rcases hop with rfl | rfl
      · simp at ht
        exact ht.1.symm
      · simp at ht
        exact ht.1.symm
    have hj' : (s.ks j).outgoing = some o := hj
    rw [hjk, hnone] at hj'
    cases hj'
  · rcases hop with rfl | rfl
    · nofun
    · nofun
  · intro t ht
    have hth : t = th := by
      rcases hop with rfl | rfl
      · simpa [DequeOp.added] using ht
      · simpa [DequeOp.added] using ht
    subst hth
    exact update_self ..

lemma cedeReady_stamps (hs : Inv s) (hpc : (s.ks k).pc = .ceding th) :
    StampMove s ({ s with
      ready := update s.ready th true
      readyAt := update s.readyAt th s.clock }.goto k .leaving) (s.op (.cedeReady k)) := by
  have hop : s.op (.cedeReady k) = .prepend k th := by simp [Sys.op, hpc]
  rw [hop]
  have hqueued : ¬s.Queued th := hs.not_queued_of_token (k := k) (by simp [Kthread.token, hpc])
    (by simp [incoming, hpc])
  refine ⟨fun t => .inl rfl, update_time hqueued, fun j o hj => ?_, fun j t hj => ?_, fun t ht => ?_⟩
  · rcases update_kthread outgoing hj with ⟨-, hv⟩ | ⟨hne, hj⟩
    · cases hv
    · refine ⟨.inl hj, fun t ht => ?_, (by simp)⟩
      simp [Ne.symm hne] at ht
  · rcases update_kthread incoming hj with ⟨-, hv⟩ | ⟨-, hj⟩
    · cases hv
    · exact .inl hj
  · have hth : t = th := by simpa [DequeOp.added] using ht
    subst hth
    exact update_self ..

lemma enqueue_stamps (hs : Inv s) (hpc : (s.ks k).pc = .run) (hself : (s.ks k).self = some th) :
    StampMove s ({ s with parkedAt := update s.parkedAt th s.clock }.goto k .enqueued) .idle := by
  refine ⟨update_time (hs.of_run hpc hself), fun t => .inl rfl, fun j o hj => ⟨?_, by simp, nofun⟩,
    fun j t hj => ?_, nofun⟩
  · rcases update_kthread outgoing hj with ⟨-, hv⟩ | ⟨-, hj⟩
    · have hth : th = o := Option.some_inj.1 (hself.symm.trans hv)
      subst hth
      exact .inr (update_self ..)
    · exact .inl hj
  · rcases update_kthread incoming hj with ⟨-, hv⟩ | ⟨-, hj⟩
    · cases hv
    · exact .inl hj

lemma yield_stamps (hs : Inv s) (hpc : (s.ks k).pc = .run) (hself : (s.ks k).self = some th) :
    StampMove s ({ s with
      ready := update (update s.ready th false) th true
      parkedAt := update s.parkedAt th s.clock
      readyAt := update s.readyAt th s.clock }.goto k .entering) (s.op (.yield k)) := by
  have hop : s.op (.yield k) = .append k th := by simp [Sys.op, hself]
  rw [hop]
  refine ⟨update_time (hs.of_run hpc hself), update_time (hs.of_run hpc hself).1, fun j o hj => ?_,
    fun j t hj => ?_, fun t ht => ?_⟩
  · rcases update_kthread outgoing hj with ⟨-, hv⟩ | ⟨hne, hj⟩
    · have hth : th = o := Option.some_inj.1 (hself.symm.trans hv)
      subst hth
      refine ⟨.inr (update_self ..), fun t ht => ?_, (by simp)⟩
      simp at ht
      exact ht.2.symm
    · refine ⟨.inl hj, fun t ht => ?_, (by simp)⟩
      simp [Ne.symm hne] at ht
  · rcases update_kthread incoming hj with ⟨-, hv⟩ | ⟨-, hj⟩
    · cases hv
    · exact .inl hj
  · have hth : t = th := by simpa [DequeOp.added] using ht
    subst hth
    exact update_self ..

lemma move_stamps (hs : Inv s) (hok : WakesFirst s e) (h : move s e = .ok s') : StampMove s s' (s.op e) := by
  cases moved h with
  | ready k th hpc hmem => exact wake_stamps hs hok (.inl rfl) hpc hmem
  | readyHead k th hpc hmem => exact wake_stamps hs hok (.inr rfl) hpc hmem
  | cedeReady k hpc => exact cedeReady_stamps hs hpc
  | enqueue k hpc hself => exact enqueue_stamps hs hpc hself
  | yield k hpc hself => exact yield_stamps hs hpc hself
  | create | steal | spin => exact .of_times rfl rfl rfl (fun _ _ hout => ⟨hout, nofun⟩) fun _ _ => .inl
  | merge l hpc =>
    refine .of_times rfl rfl rfl (fun k o hout => ⟨hout, ?_⟩) fun _ _ => .inl
    rintro ⟨⟩
    simp [outgoing, hpc] at hout
  | again k | pop k =>
    refine .of_update rfl rfl rfl (.inr ⟨_, rfl⟩) ?_ ?_
    all_goals simp [outgoing, incoming, Sys.op]
  | pick k hpc hself =>
    refine .of_update rfl rfl rfl (.inr ⟨_, rfl⟩) ?_ ?_
    all_goals simp [outgoing, incoming, hpc, hself, Sys.op]
  | poll k hpc | park k hpc | schedule k hpc | cede k hpc | finishCede k hpc | exit k hpc | enter k hpc
  | enterIdle k hpc | jump k hpc | mark k hpc | save k hpc | loadIdle k hpc | load k hpc | clear k hpc
  | resume k hpc =>
    refine .of_update rfl rfl rfl (.inl rfl) ?_ ?_
    all_goals simp [outgoing, incoming, hpc]

/-! ## Runs -/

/-- Along a run, what a kthread may switch to was made ready before its outgoing thread began to park,
and had begun to park before it was made ready. -/
structure TimeInv (s : Sys K θ) : Prop where
  clock : ∀ th, s.parkedAt th < s.clock ∧ s.readyAt th < s.clock
  near : ∀ k o, (s.ks k).outgoing = some o → ∀ th, s.Near k th → th ≠ o → s.readyAt th < s.parkedAt o
  queued : ∀ th, s.Queued th → s.parkedAt th ≤ s.readyAt th

omit [DecidableEq K] [DecidableEq θ] in
lemma timeInv_initial (hs : Initial s) : TimeInv s := by
  refine ⟨hs.clock, fun k o hout => ?_, fun th hth => ?_⟩
  · simp [outgoing, hs.pc k] at hout
  · rcases hth with hth | ⟨k, hk⟩
    · rcases mem_add.1 hth with hth | hth
      · obtain ⟨k, hk⟩ := mem_total.1 hth
        simp [hs.queue k] at hk
      · obtain ⟨k, hk⟩ := mem_total.1 hth
        simp [hs.hand k] at hk
    · simp [incoming, hs.pc k] at hk

lemma step_timeInv (hs : Inv s) (htime : TimeInv s) (hok : WakesFirst s e)
    (h : step s e = .ok s') : TimeInv s' := by
  obtain ⟨dq, s1, hact, hmove, rfl⟩ := step_eq_ok h
  have hm := move_stamps hs hok hmove
  have hparked : ∀ th, s.Queued th → s1.parkedAt th = s.parkedAt th := fun th hth =>
    (hm.parked th).resolve_right fun hnew => hnew.2.1 hth
  have hready : ∀ th, s.Queued th → s1.readyAt th = s.readyAt th := fun th hth =>
    (hm.ready th).resolve_right fun hnew => hnew.2 hth
  have hincoming : ∀ k th, (s1.ks k).incoming = some th → s.Near k th := by
    intro k th hk
    rcases hm.incoming k th hk with hk | hpop
    · exact .inr hk
    · rw [hpop] at hact
      exact .inl (Deques.mem_queue_of_pop hact)
  refine ⟨fun th => ?_, fun k o hout th hnear hne => ?_, fun th hth => ?_⟩
  · have hclock := htime.clock th
    have h1 := hm.parked th
    have h2 := hm.ready th
    show s1.parkedAt th < s.clock + 1 ∧ s1.readyAt th < s.clock + 1
    omega
  · obtain ⟨hold, hadd, hmerge⟩ := hm.outgoing k o hout
    -- it was near before the step, as nothing is queued on a kthread that leaves its thread
    have hbefore : s.Near k th := by
      rcases hnear with hq | hk
      · rcases Deques.mem_queue_of_act hact hq with hq | hop | hop
        · exact .inl hq
        · exact absurd (hadd th hop) hne
        · exact absurd hop hmerge
      · exact hincoming k th hk
    rw [hready th hbefore.queued]
    rcases hold with hold | hnow
    · rw [(hm.parked o).resolve_right fun hnew => hnew.2.2 k hold]
      exact htime.near k o hold th hbefore hne
    · rw [hnow]
      exact (htime.clock th).2
  · show s1.parkedAt th ≤ s1.readyAt th
    by_cases hbefore : s.Queued th
    · rw [hparked th hbefore, hready th hbefore]
      exact htime.queued th hbefore
    · have hnow : s1.readyAt th = s.clock := by
        rcases hth with hth | ⟨k, hk⟩
        · have hcontents := mem_of_le (Multiset.le_add_right _ (s.op e).removed) hth
          rw [Deques.act_contents hact] at hcontents
          rcases mem_add.1 hcontents with hc | hadd
          · exact absurd (.inl hc) hbefore
          · exact hm.added th hadd
        · exact absurd (hincoming k th hk).queued hbefore
      have hclock := htime.clock th
      have h1 := hm.parked th
      omega

/-! ## Circles -/

/-- A kthread spins in `jmp_thread_direct` for the thread that another one is leaving. -/
def Waits (s : Sys K θ) (k j : K) : Prop := ∃ o th, (s.ks k).pc = .spinning (some o) th ∧ (s.ks j).outgoing = some th

def Sys.leftAt (s : Sys K θ) (k : K) : ℕ := ((s.ks k).outgoing.map s.parkedAt).getD 0

omit [DecidableEq K] [DecidableEq θ] in
lemma leftAt_lt_of_waits (hs : Inv s) (htime : TimeInv s) {k j : K} (h : Waits s k j) : s.leftAt j < s.leftAt k := by
  obtain ⟨o, th, hpc, hj⟩ := h
  have hk : (s.ks k).outgoing = some o := by simp [outgoing, hpc]
  have hnear : s.Near k th := .inr (by simp [incoming, hpc])
  have hne : th ≠ o := by
    have hwf := hs.wf k
    simp only [Kthread.Wf, hpc] at hwf
    exact fun heq => hwf.1 (congrArg some heq.symm)
  calc s.leftAt j = s.parkedAt th := by simp [Sys.leftAt, hj]
    _ ≤ s.readyAt th := htime.queued th hnear.queued
    _ < s.parkedAt o := htime.near k o hk th hnear hne
    _ = s.leftAt k := by simp [Sys.leftAt, hk]

/-- Kthreads on the direct path never wait in a circle, if a thread wakes up everybody it has to before it puts itself
on the list it parks on. -/
theorem no_wait_cycle (hs : Reaches step WakesFirst Initial s) (k : K) : ¬Relation.TransGen (Waits s) k k := by
  have hinv : Inv s ∧ TimeInv s :=
    hs.invariant (I := fun s => Inv s ∧ TimeInv s) (fun _ h => ⟨inv_initial h, timeInv_initial h⟩)
      fun _ _ _ h hok hstep => ⟨step_inv h.1 hstep, step_timeInv h.1 h.2 hok hstep⟩
  have hfall : ∀ j, Relation.TransGen (Waits s) k j → s.leftAt j < s.leftAt k := by
    intro j h
    induction h with
    | single h => exact leftAt_lt_of_waits hinv.1 hinv.2 h
    | tail _ h ih => exact (leftAt_lt_of_waits hinv.1 hinv.2 h).trans ih
  exact fun h => lt_irrefl _ (hfall k h)

def bothRun : List (Event (Fin 2) (Fin 2)) :=
  [.create 0, .create 1, .enter 0, .ready 0 0, .pop 0 0, .jump 0, .poll 0, .mark 0, .load 0, .resume 0,
    .enter 1, .ready 1 1, .pop 1 1, .jump 1, .poll 1, .mark 1, .load 1, .resume 1]

theorem no_wait_cycle_one_waits : ∃ s : Sys (Fin 2) (Fin 2), Reaches step WakesFirst Initial s ∧
    Waits s 0 1 ∧ ∀ k, ¬Relation.TransGen (Waits s) k k := by
  obtain ⟨s, hs, hpc, hout⟩ : ∃ s, Reaches step WakesFirst Initial s ∧
      (s.ks 0).pc = .spinning (some 0) 1 ∧ (s.ks 1).outgoing = some 1 :=
    Reaches.of_exec (bothRun ++ [.enqueue 1, .park 1, .ready 0 1, .enqueue 0, .park 0, .pick 0 1,
      .jump 0, .poll 0]) initial_idleSys (by decide) (by decide)
  exact ⟨s, hs, ⟨0, 1, hpc, hout⟩, no_wait_cycle hs⟩

-- Two threads that wake each other up when both can be woken up already do end in a circle.
example : ∃ s : Sys (Fin 2) (Fin 2), Reaches step (fun _ _ => True) Initial s ∧
    Waits s 0 1 ∧ Waits s 1 0 := by
  refine Reaches.of_exec_imp
    (P := fun s => (s.ks 0).pc = .spinning (some 0) 1 ∧ (s.ks 1).pc = .spinning (some 1) 0)
    (bothRun ++ [.enqueue 0, .park 0, .enqueue 1, .park 1, .ready 0 1, .ready 1 0,
      .pick 0 1, .jump 0, .pick 1 0, .jump 1]) initial_idleSys (allowed_true _ _) (by decide) ?_
  rintro s - ⟨hpc0, hpc1⟩
  exact ⟨⟨0, 1, hpc0, by simp [outgoing, hpc1]⟩, ⟨1, 0, hpc1, by simp [outgoing, hpc0]⟩⟩

end Aspen.Sched.Switch
