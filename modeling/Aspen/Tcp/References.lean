import Aspen.Tcp.Closing
import Aspen.Tcp.Tiling

/-!
# The references to a connection

A connection is held by its owner, by each retransmit thread, and by the state machine from the moment it leaves
its initial CLOSED state until it is CLOSED again (or until the timeout worker, which drops that reference
behind the lock, has done so). `holders` counts them, and if the sections meet `RefOk` it is `ref`: the
connection is destroyed when the last holder lets go.
-/

namespace Aspen.Tcp

open Run Option

variable {dbg : Bool} {s s' : Sys} {e : Event}

/-! ## Holders -/

def Owner.held : Owner → ℕ
  | .released => 0
  | _ => 1

def Writer.threads : Writer → ℕ
  | .send _ => 0
  | .retransmit _ _ => 1

def Sys.threads (s : Sys) : ℕ := s.rtWait + s.rtPut + (s.writer.map Writer.threads).getD 0

def Sys.smHeld (s : Sys) : ℕ := (if s.c.state = .closed then 0 else 1) + s.workerPut

def Sys.holders (s : Sys) : ℕ := s.owner.held + s.threads + s.smHeld

def RefOk (s : Sys) : Event → Prop
  -- a network error hits a connection whose state machine runs
  | .connErr _ _ => s.c.state ≠ .closed
  -- `tcp_close` sends its FIN, unless it may fail the connection
  | .close env => s.c.state = .closed → env.alloc = true ∧ env.tx = none
  | .closeResume i env =>
    s.closers[i]? = some .close → s.c.state = .closed → env.alloc = true ∧ env.tx = none
  -- `thread_spawn` succeeds
  | .timeout _ spawn => spawn = true
  -- nobody else holds a connection that is destroyed outright
  | .dialResume => s.c.tx.closed = true → s.c.ref = 1
  | .qclose => s.c.ref = 1
  | _ => True

instance (s : Sys) (e : Event) : Decidable (RefOk s e) := by
  induction e using Event.casesOn <;> dsimp only [RefOk] <;> infer_instance

/-! ## What a section does to the count -/

structure RefSame (c c' : Conn) : Prop where
  ref : c'.ref = c.ref
  destroys : c'.destroys = c.destroys
  smGets : c'.smGets = c.smGets
  smDrops : c'.smDrops = c.smDrops
  state : c'.state = .closed ↔ c.state = .closed

structure Put (c c' : Conn) : Prop where
  ref : c'.ref = c.ref - 1
  destroys : c'.destroys = c.destroys + if c.ref - 1 = 0 then 1 else 0
  smGets : c'.smGets = c.smGets

structure Dropped (c c' : Conn) : Prop extends Put c c' where
  smDrops : c'.smDrops = c.smDrops + 1
  state : c'.state = .closed

lemma dropped_tcpConnFail (now : Time) (err : Errno) (c : Conn) : Dropped c (tcpConnFail now err c) := by
  rw [tcpConnFail_eq]
  exact ⟨⟨rfl, rfl, rfl⟩, rfl, rfl⟩

variable {c c' : Conn}

lemma RxMove.refs {env : Env} {r : RxSeg} (h : RxMove dbg env c r c') :
    RefSame c c' ∨ c.state ≠ .closed ∧ Dropped c c' := by
  cases h.frame with
  | quiet => exact .inl ⟨rfl, rfl, rfl, rfl, Iff.rfl⟩
  | failed hst => exact .inr ⟨hst, ⟨rfl, rfl, rfl⟩, rfl, rfl⟩
  | syn hst hst' =>
    refine .inl ⟨rfl, rfl, rfl, rfl, ?_⟩
    obtain rfl | rfl | rfl := hst'
    all_goals simp [hst]
  | lastAcked hst => exact .inr ⟨by simp [hst], ⟨rfl, rfl, rfl⟩, rfl, rfl⟩
  | text hst => exact .inl ⟨rfl, rfl, rfl, rfl, by simp [(textState_ne hst _ _).1, hst.1]⟩

lemma held_of_fresh {o : Owner} (h : o.fresh) : o.held = 1 := by
  cases o <;> simp [Owner.fresh] at h <;> rfl

lemma tcpConnShutdownTx_state {env : Env} {ret : Option Errno}
    (h : tcpConnShutdownTx env c = (c', ret)) : c'.state = .closed ↔ c.state = .closed := by
  obtain ⟨-, rfl, -⟩ | ⟨-, -, m, t, -, -, -, rfl⟩ := tcpConnShutdownTx_cases h
  · rfl
  · split
    · cases c.state <;> simp [finSent]
    · rfl

/-! ### Callers of `tcp_close` -/

def CloseOk (s : Sys) : Prop := s.closers.count .close = if s.owner = .closing then 1 else 0

lemma CloseOk.count_of_ne (hi : CloseOk s) (ho : s.owner ≠ .closing) : s.closers.count .close = 0 :=
  hi.trans (if_neg ho)

section
variable {k : Closer} {o : Owner} {closers : List Closer} {env : Env}

lemma Closes.held (hk : Closes s e .close o closers) (hi : CloseOk s) : s.owner.held = 1 := by
  cases hk with
  | close ho => rw [ho]; rfl
  | resume hk =>
    have hpos := List.count_pos_iff.2 (List.mem_of_getElem? hk)
    rw [hi] at hpos
    split at hpos
    · rename_i ho
      rw [ho]
      rfl
    · cases hpos

lemma Closes.count (hk : Closes s e k o closers) (hi : CloseOk s) :
    closers.count .close = if k = .close then 0 else if s.owner = .closing then 1 else 0 := by
  cases hk with
  | shutdown => exact hi
  | close ho => exact hi.count_of_ne (by simp [ho])
  | @resume i _ k hk =>
    obtain ⟨hlt, hget⟩ := List.getElem?_eq_some_iff.1 hk
    have hperm := (List.getElem_cons_eraseIdx_perm hlt).count_eq .close
    have hle : s.closers.count .close ≤ 1 := by
      rw [hi]
      split <;> omega
    rw [hget, List.count_cons, hi] at hperm
    cases k with
    | shutdown rx => simpa using hperm
    | close =>
      rw [hi] at hle
      simp only [BEq.rfl, if_true] at hperm ⊢
      omega

lemma Closes.ne_closed {err : Errno} (hk : Closes s e .close o closers) (he : finEnv s e = some env)
    (hok : RefOk s e) (htx : tcpConnShutdownTx env s.c = (c', some err)) : s.c.state ≠ .closed := by
  intro hst
  obtain ⟨halloc, hnone⟩ : env.alloc ∧ env.tx = none := by
    cases hk with
    | close => exact Option.some.inj (ite_none_right_eq_some.1 he).2 ▸ hok hst
    | resume hk => exact Option.some.inj (ite_none_right_eq_some.1 he).2 ▸ hok hk hst
  obtain ⟨hno, -, -⟩ | ⟨-, hret, -⟩ := tcpConnShutdownTx_cases htx
  · simp [halloc] at hno
  · simp [hnone] at hret

end

lemma CloseOk.step (hi : CloseOk s) (h : step dbg s e = .ok s') : CloseOk s' := by
  have hmove {o : Owner} (ho : s.owner ≠ .closing) (ho' : o ≠ .closing) :
      s.closers.count .close = if o = .closing then 1 else 0 := by
    rw [if_neg ho']
    exact hi.count_of_ne ho
  cases stepped h with
  | sleeping happ _ ho =>
    show (s.closers ++ [_]).count Closer.close = _
    obtain ⟨hk, ho⟩ | ⟨rfl, rfl⟩ := ho
    · rw [ho, List.count_append, hi]
      simp [hk]
    · rw [List.count_append, hi.count_of_ne (by simp [happ])]
      rfl
  | shutdown hk | close hk | closeFailed hk => exact hk.count hi
  | closed ho | released ho => exact hmove (by simp [ho]) nofun
  | opened ho =>
    cases ho with
    | @dial nonblocking _ ho => exact hmove (by simp [ho]) (by cases nonblocking <;> nofun)
    | listen ho => exact hmove (by simp [ho]) nofun
  | openFailed ho => exact hmove (by cases ho with | dial ho | listen ho => simp [ho]) nofun
  | discarded ho => exact hmove (by cases ho with | dial ho | queue ho => simp [ho]) nofun
  | owned ho => exact hmove (by rcases ho with ho | ho <;> simp [ho]) nofun
  | _ => exact hi

lemma smHeld_of_ne_closed (h : s.c.state ≠ .closed) : s.smHeld = 1 + s.workerPut := by
  simp [Sys.smHeld, h]

lemma smHeld_congr (hst : s'.c.state = .closed ↔ s.c.state = .closed)
    (hp : s'.workerPut = s.workerPut) : s'.smHeld = s.smHeld := by
  simp only [Sys.smHeld, hst, hp]

def Counted (c : Conn) (n : ℕ) : Prop := c.destroys = 0 ∧ 0 < n ∧ c.ref = n ∨ c.destroys = 1 ∧ n = 0

lemma Counted.same {n n' : ℕ} (h : Counted c n) (hn : n' = n) (hr : c'.ref = c.ref)
    (hd : c'.destroys = c.destroys) : Counted c' n' := by
  rw [Counted, hr, hd, hn]
  exact h

lemma Counted.get {n n' : ℕ} (h : Counted c n) (hn : 0 < n) (hn' : n' = n + 1) (hr : c'.ref = c.ref + 1)
    (hd : c'.destroys = c.destroys) : Counted c' n' := by
  obtain ⟨h1, -, h3⟩ | ⟨-, h2⟩ := h
  · exact .inl ⟨hd.trans h1, by omega, by rw [hr, h3, hn']; rfl⟩
  · omega

lemma Counted.put {n : ℕ} (h : Counted c (n + 1)) (hp : Put c c') : Counted c' n := by
  obtain ⟨h1, -, h3⟩ | ⟨-, h2⟩ := h
  · have href : c'.ref = n := by
      rw [hp.ref, h3]
      omega
    have hdestroys := hp.destroys
    rw [h1, h3] at hdestroys
    rcases Nat.eq_zero_or_pos n with rfl | hpos
    · exact .inr ⟨by simpa using hdestroys, rfl⟩
    · exact .inl ⟨by rw [hdestroys, if_neg (by omega)], hpos, href⟩
  · omega

structure RefInv (s : Sys) : Prop where
  exclusive : s.c.tx.exclusive = s.writer.isSome
  close : CloseOk s
  fresh : s.owner.fresh = true → s.c.state = .closed ∧ s.c.smGets = 0 ∧ s.threads = 0
  once : s.c.smGets ≤ 1
  sm : s.c.smGets = s.c.smDrops + s.smHeld
  count : Counted s.c s.holders

structure RefStep (s s' : Sys) : Prop where
  gets : s'.c.smGets = s.c.smGets ∨ s.owner.fresh = true ∧ s'.c.smGets = s.c.smGets + 1
  sm : s'.c.smGets + s.c.smDrops + s.smHeld = s.c.smGets + s'.c.smDrops + s'.smHeld
  fresh : s'.owner.fresh = true → s'.c.smGets = s.c.smGets ∧ s'.threads ≤ s.threads
  count : Counted s'.c s'.holders

lemma RefStep.keep (h : Counted s.c s.holders) (hc : RefSame s.c s'.c) (ho : s'.owner.held = s.owner.held)
    (ht : s'.threads = s.threads) (hp : s'.workerPut = s.workerPut) : RefStep s s' := by
  have hheld := smHeld_congr hc.state hp
  refine ⟨.inl hc.smGets, by rw [hc.smGets, hc.smDrops, hheld], fun _ => ⟨hc.smGets, ht.le⟩,
    h.same ?_ hc.ref hc.destroys⟩
  rw [Sys.holders, ho, ht, hheld, Sys.holders]

lemma RefStep.put (h : Counted s.c s.holders) (hc : Put s.c s'.c) (ht : s'.threads ≤ s.threads)
    (hsm : s'.c.smDrops + s'.smHeld = s.c.smDrops + s.smHeld) (hh : s.holders = s'.holders + 1) :
    RefStep s s' :=
  ⟨.inl hc.smGets, by rw [hc.smGets]; omega, fun _ => ⟨hc.smGets, ht⟩, .put (hh ▸ h) hc⟩

lemma RefStep.dropped (h : Counted s.c s.holders) (hst : s.c.state ≠ .closed) (hc : Dropped s.c s'.c)
    (ho : s'.owner.held = s.owner.held) (ht : s'.threads = s.threads) (hp : s'.workerPut = s.workerPut) :
    RefStep s s' := by
  have hheld := smHeld_of_ne_closed hst
  have hheld' : s'.smHeld = s'.workerPut := by simp [Sys.smHeld, hc.state]
  refine .put h hc.toPut ht.le (by rw [hc.smDrops]; omega) ?_
  simp only [Sys.holders]
  omega

lemma RefInv.destroyed (hi : RefInv s) (hone : s.owner.fresh ∨ s.c.ref = 1) (ho : s.owner.held = 1)
    (ho' : s'.owner = .released) (hc : RefSame { s.c with destroys := s.c.destroys + 1 } s'.c)
    (ht : s'.threads = s.threads) (hp : s'.workerPut = s.workerPut) : RefStep s s' := by
  have hheld : s'.smHeld = s.smHeld := smHeld_congr hc.state hp
  have hpos : s.holders = 1 + s.threads + s.smHeld := by rw [Sys.holders, ho]
  obtain ⟨hd, -, hr⟩ | ⟨-, hzero⟩ := hi.count
  · have hlast : s.holders = 1 := by
      rcases hone with hf | hone
      · obtain ⟨hcl, hgets, hthreads⟩ := hi.fresh hf
        have := hi.sm
        omega
      · rw [hone] at hr
        omega
    refine ⟨.inl hc.smGets, by rw [hc.smGets, hc.smDrops, hheld], ?_, .inr ⟨?_, ?_⟩⟩
    · rw [ho']
      nofun
    · rw [hc.destroys, hd]
    · rw [Sys.holders, ho', ht, hheld]
      show 0 + _ + _ = 0
      omega
  · omega

/-- A step moves references between their holders. -/
lemma step_refs (h : step dbg s e = .ok s') (hok : RefOk s e) (hi : RefInv s) : RefStep s s' := by
  have hidle (hfree : s.c.tx.exclusive = false) : s.writer = none := by
    have hx := hi.exclusive
    rw [hfree] at hx
    simpa using hx.symm
  cases stepped h with
  | idle | load | acked | probed | readClosed | reading | readDone | armed | writeClosed | closedRx =>
    exact .keep hi.count ⟨rfl, rfl, rfl, rfl, Iff.rfl⟩ rfl rfl rfl
  | ingress _ ho =>
    rcases (tcpRxConnLocked_move ho).refs with hc | ⟨hst, hc⟩
    · exact .keep hi.count hc rfl rfl rfl
    · exact .dropped hi.count hst hc rfl rfl rfl
  | writing _ hopen hblock =>
    have hnone := hidle (tcpWriteBlocks_eq_false hblock hopen).2.1
    exact .keep hi.count ⟨rfl, rfl, rfl, rfl, Iff.rfl⟩ rfl (by simp [Sys.threads, hnone, Writer.threads]) rfl
  | sent hw | resent hw =>
    exact .keep hi.count ⟨rfl, rfl, rfl, rfl, Iff.rfl⟩ rfl (by simp [Sys.threads, hw, Writer.threads]) rfl
  | finished hw =>
    refine .keep hi.count ⟨rfl, rfl, rfl, rfl, Iff.rfl⟩ rfl ?_ rfl
    obtain ⟨hw, rfl⟩ | ⟨⟨t, hw⟩, rfl⟩ := hw
    · simp [Sys.threads, hw, Writer.threads]
    · simp only [Sys.threads, hw, map_some, map_none, getD_some, getD_none, Writer.threads]
      omega
  | closed ho => exact .keep hi.count ⟨rfl, rfl, rfl, rfl, Iff.rfl⟩ (by rw [ho]; rfl) rfl rfl
  | sleeping happ _ ho =>
    refine .keep hi.count ⟨rfl, rfl, rfl, rfl, Iff.rfl⟩ ?_ rfl rfl
    obtain ⟨-, rfl⟩ | ⟨-, rfl⟩ := ho
    · rfl
    · rw [happ]
      rfl
  | shutdown _ _ htx =>
    have hst := tcpConnShutdownTx_state htx
    exact .keep hi.count ⟨rfl, rfl, rfl, rfl, hst⟩ rfl rfl rfl
  | close hk _ htx =>
    have hst := tcpConnShutdownTx_state htx
    exact .keep hi.count ⟨rfl, rfl, rfl, rfl, hst⟩ (hk.held hi.close).symm rfl rfl
  | closeFailed hk he htx =>
    refine .dropped hi.count (hk.ne_closed he hok htx) ?_ (hk.held hi.close).symm rfl rfl
    rw [tcpConnFail_eq]
    exact ⟨⟨rfl, rfl, rfl⟩, rfl, rfl⟩
  | released ho =>
    refine .put hi.count ⟨rfl, rfl, rfl⟩ le_rfl rfl ?_
    simp only [Sys.holders, ho, Owner.held, Sys.threads, Sys.smHeld]
    omega
  | failed he =>
    have hst : s.c.state ≠ .closed := by
      rcases he with hst | rfl
      · exact hst
      · exact hok
    exact .dropped hi.count hst (dropped_tcpConnFail ..) rfl rfl rfl
  | expired hst =>
    refine ⟨.inl rfl, ?_, fun _ => ⟨rfl, le_rfl⟩, ?_⟩
    · simp [Sys.smHeld, hst, Nat.add_comm]
    · refine hi.count.same ?_ rfl rfl
      simp only [Sys.holders, Sys.threads, Sys.smHeld, hst, reduceCtorEq, if_true, if_false]
      omega
  | @timed _ spawn _ _ doRetransmit _ hst =>
    obtain rfl : spawn := hok
    cases doRetransmit with
    | false => exact .keep hi.count ⟨rfl, rfl, rfl, rfl, Iff.rfl⟩ rfl rfl rfl
    | true =>
      have hheld := smHeld_of_ne_closed hst
      refine ⟨.inl rfl, rfl, fun hf => absurd (hi.fresh hf).1 hst, hi.count.get ?_ ?_ rfl rfl⟩
      · simp only [Sys.holders]
        omega
      · simp only [Sys.holders, Sys.threads, Sys.smHeld, Bool.and_self, Bool.toNat_true]
        omega
  | workerPut hput =>
    refine .put hi.count ⟨rfl, rfl, rfl⟩ le_rfl ?_ ?_
    all_goals
      simp only [Sys.holders, Sys.smHeld, Sys.threads]
      omega
  | rtClosed hwait => exact .keep hi.count ⟨rfl, rfl, rfl, rfl, Iff.rfl⟩ rfl (by simp only [Sys.threads]; omega) rfl
  | resending hwait _ hfree =>
    refine .keep hi.count ⟨rfl, rfl, rfl, rfl, Iff.rfl⟩ rfl ?_ rfl
    simp only [Sys.threads, hidle hfree, map_some, getD_some, Writer.threads, map_none, getD_none]
    omega
  | rtPut hput =>
    refine .put hi.count ⟨rfl, rfl, rfl⟩ ?_ rfl ?_
    all_goals
      simp only [Sys.holders, Sys.smHeld, Sys.threads]
      omega
  | @opened _ _ _ _ st o _ _ _ _ _ _ ho =>
    have hst : st ≠ .closed := by cases ho <;> nofun
    have hcl := (hi.fresh ho.spec.1).1
    have hone := held_of_fresh ho.spec.1
    have hheld : o.held = 1 := by
      cases ho with
      | @dial nonblocking => cases nonblocking <;> rfl
      | listen => rfl
    refine ⟨.inr ⟨ho.spec.1, rfl⟩, ?_, fun hf => ?_, hi.count.get ?_ ?_ rfl rfl⟩
    · simp only [Conn.ctl, Sys.smHeld, hcl, hst, if_true, if_false]
      omega
    · cases ho.spec.2.1.symm.trans hf
    · simp only [Sys.holders]
      omega
    · simp only [Sys.holders, Sys.threads, Sys.smHeld, hheld, hone, hcl, hst, if_true, if_false]
      omega
  | openFailed ho =>
    exact hi.destroyed (.inl ho.spec.1) (held_of_fresh ho.spec.1) rfl ⟨rfl, rfl, rfl, rfl, Iff.rfl⟩ rfl rfl
  | discarded ho =>
    cases ho with
    | dial ho hclosed =>
      exact hi.destroyed (.inr (hok hclosed)) (by rw [ho]; rfl) rfl ⟨rfl, rfl, rfl, rfl, Iff.rfl⟩ rfl rfl
    | queue ho => exact hi.destroyed (.inr hok) (by rw [ho]; rfl) rfl ⟨rfl, rfl, rfl, rfl, Iff.rfl⟩ rfl rfl
  | owned ho =>
    exact .keep hi.count ⟨rfl, rfl, rfl, rfl, Iff.rfl⟩ (by rcases ho with ho | ho <;> rw [ho] <;> rfl) rfl rfl

/-! ## Whole runs -/

lemma RefInv.step (hi : RefInv s) (hok : RefOk s e) (h : step dbg s e = .ok s') : RefInv s' := by
  obtain ⟨hgets, hsm, hfresh, hcount⟩ := step_refs h hok hi
  have hsm0 := hi.sm
  refine ⟨exclusive_step h hi.exclusive, hi.close.step h, fun hf => ?_, ?_, by omega, hcount⟩
  · obtain ⟨-, hzero, hthreads⟩ := hi.fresh (step_fresh h hf ▸ hf)
    obtain ⟨hsame, hle⟩ := hfresh hf
    exact ⟨fresh_closed_step h (fun hf => (hi.fresh hf).1) hf, hsame.trans hzero, by omega⟩
  · rcases hgets with hsame | ⟨hf, hone⟩
    · exact hsame ▸ hi.once
    · rw [hone, (hi.fresh hf).2.1]

lemma refInv_initial (h : Initial s) : RefInv s := by
  obtain ⟨_, _, _, _, _, _, _, _, o, ho, -, -, rfl⟩ := initial_eq h
  cases o with
  | dialing | listening => exact ⟨rfl, rfl, fun _ => ⟨rfl, rfl, rfl⟩, Nat.zero_le _, rfl, .inl ⟨rfl, Nat.one_pos, rfl⟩⟩
  | _ => cases ho

/-- In every run that meets the condition, the state machine takes at most one reference and drops it once, and the
connection has been destroyed exactly if nobody holds it. -/
theorem references_sound (h : Reaches (step dbg) RefOk Initial s) :
    s.c.smGets ≤ 1 ∧ s.c.smGets = s.c.smDrops + s.smHeld ∧ s.c.destroys = if s.holders = 0 then 1 else 0 := by
  have hi : RefInv s := h.invariant (fun _ => refInv_initial) fun _ _ _ hi hok hs => hi.step hok hs
  refine ⟨hi.once, hi.sm, ?_⟩
  obtain ⟨hd, hpos, -⟩ | ⟨hd, hzero⟩ := hi.count
  · rw [hd, if_neg (by omega)]
  · rw [hd, if_pos hzero]

theorem references_sound_closed : ∃ s, Reaches (step false) RefOk Initial s ∧ s.c.smGets = 1 ∧
    s.holders = 0 ∧ s.c.smDrops = 1 ∧ s.c.destroys = 1 := by
  refine Reaches.of_exec_imp (P := fun s => s.c.smGets = 1 ∧ s.holders = 0 ∧ s.smHeld = 0)
    (handshake 1000 ++ [.abort 0, .close {}, .closePut]) (initial_dialed 1500) (by decide) (by decide) ?_
  rintro s hs ⟨hgets, hholders, hheld⟩
  obtain ⟨-, hsm, hdestroys⟩ := references_sound hs
  exact ⟨hgets, hholders, by omega, by rw [hdestroys, if_pos hholders]⟩

/-- A network error reaches a dial that has not sent its SYN: the connection is destroyed while `__tcp_dial` holds it.
-/
theorem connErr_destroys_dialing : ∃ s, Reaches (step false) (fun _ _ => True) Initial s ∧
    s.owner = .dialing false ∧ s.holders = 1 ∧ s.c.destroys = 1 ∧ s.c.smGets = 0 ∧ s.c.smDrops = 1 := by
  refine Reaches.of_exec [.connErr 0 .econnreset] (initial_dialed 1500) (allowed_true _ _) ?_
  decide

end Aspen.Tcp
