import Aspen.Tcp.Receiving

/-!
# Closing

Two properties of the states behind our FIN.
-/

namespace Aspen.Tcp

open Run

/-! ## Acknowledgement of the FIN -/

/-- The transitions that wait for an acknowledgement of our FIN: into FIN_WAIT2 (and on into TIME_WAIT, if the segment
carries a FIN), from CLOSING into TIME_WAIT, and from LAST_ACK into CLOSED. -/
def FinAcked (c c' : Conn) : Prop := (c.state ≠ .finWait2 ∧ c'.state = .finWait2) ∨
  ((c.state = .finWait1 ∨ c.state = .closing) ∧ c'.state = .timeWait) ∨
  (c.state = .lastAck ∧ c'.state = .closed ∧ c'.err = none)

variable {c c' : Conn}

lemma FinAcked.state_ne (h : FinAcked c c') : c'.state ≠ c.state := by
  intro heq
  unfold FinAcked at h
  rw [heq] at h
  cases hst : c.state <;> simp [hst] at h

/-- While our FIN is unacknowledged, a segment is processed against the current `snd_nxt`, or neither
its acknowledgement nor `snd_una` is the `snd_nxt` that was loaded. -/
def LoadCurrent (s : Sys) (e : Event) : Prop :=
  ∀ r ∈ s.turn e, s.c.state = .finWait1 ∨ s.c.state = .closing ∨ s.c.state = .lastAck →
    r.sndNxt = s.c.snd.nxt ∨ r.ack ≠ r.sndNxt ∧ s.c.snd.una ≠ r.sndNxt

variable {r : RxSeg}

lemma ackedUna_eq_nxt (h : r.sndNxt = c.snd.nxt ∨ r.ack ≠ r.sndNxt ∧ c.snd.una ≠ r.sndNxt)
    (hacked : ackedUna c r = r.sndNxt) : ackedUna c r = c.snd.nxt := by
  obtain hcur | ⟨hack, huna⟩ := h
  · rw [hacked, hcur]
  · unfold ackedUna at hacked
    split at hacked
    · exact absurd hacked hack
    · exact absurd hacked huna

lemma not_finAcked_text {fin acked : Bool}
    (hst' : c'.state = if fin then finState (finAckedState (entered c r).state acked)
      else finAckedState (entered c r).state acked) (hmove : FinAcked c c') :
    acked ∧ (c.state = .finWait1 ∨ c.state = .closing) := by
  unfold FinAcked at hmove
  rw [hst'] at hmove
  unfold entered at hmove
  cases hst : c.state <;> cases fin <;> cases acked <;>
    simp [hst, finState, finAckedState] at hmove ⊢

variable {env : Env}

/-- A segment that makes one of the transitions has moved `snd_una` to the `snd_nxt` that was loaded
for it. -/
lemma RxMove.una_of_finAcked {dbg : Bool} (hm : RxMove dbg env c r c') (hmove : FinAcked c c') :
    (c.state = .finWait1 ∨ c.state = .closing ∨ c.state = .lastAck) ∧
      ackedUna c r = r.sndNxt ∧ c'.snd.una = ackedUna c r ∧ c'.snd.nxt = c.snd.nxt := by
  cases hm with
  | quiet => exact absurd rfl hmove.state_ne
  | failed hst => simp [FinAcked, tcpConnFail_eq] at hmove
  | synAcked hst hack huna => simp [FinAcked] at hmove
  | @synCrossed _ _ _ ret _ hst hack huna hctl => cases ret <;> simp [FinAcked] at hmove
  | lastAcked hst hacc hack huna =>
    cases hack with
    | mk hwnd hq =>
      rw [tcpConnPutSm_eq]
      exact ⟨.inr (.inr hst), huna, rfl, rfl⟩
  | text hst hacc hack hlast htext =>
    obtain ⟨rcv, rx, rfl⟩ := htext.frame
    obtain ⟨hacked, hst'⟩ := not_finAcked_text rfl hmove
    have hentered : entered c r = c := by
      unfold entered
      rw [if_neg]
      obtain h | h := hst' <;> simp [h]
    rw [hentered] at hack
    cases hack with
    | mk hwnd hq =>
      exact ⟨hst'.imp_right .inl, by simpa using hacked, rfl, rfl⟩

/-- If every segment is processed against a current `snd_nxt`, the peer has acknowledged everything, our FIN included,
when one of the transitions is made. -/
theorem finAck_acknowledged {dbg : Bool} {s s' : Sys} {e : Event} (hok : LoadCurrent s e)
    (hs : step dbg s e = .ok s') (hmove : FinAcked s.c s'.c) : s'.c.snd.una = s'.c.snd.nxt := by
  cases step_state hs with
  | same hst => exact absurd hst hmove.state_ne
  | failed hst herr => simp [FinAcked, hst, herr] at hmove
  | ingress hr hm =>
    obtain ⟨hst, hacked, huna, hnxt⟩ := hm.una_of_finAcked hmove
    rw [huna, hnxt]
    exact ackedUna_eq_nxt (hok _ hr hst) hacked
  | fin hst =>
    unfold FinAcked at hmove
    rw [hst] at hmove
    cases hst' : s.c.state <;> simp [hst', finSent] at hmove
  | opened ho ho' hst hdial =>
    unfold FinAcked at hmove
    cases hst' : s'.c.state <;> simp [hst', State.opening, State.num] at hst hmove
  | expired hst hst' => simp [FinAcked, hst, hst'] at hmove

instance (c c' : Conn) : Decidable (FinAcked c c') := inferInstanceAs (Decidable (_ ∨ _))

instance (s : Sys) (e : Event) : Decidable (LoadCurrent s e) := inferInstanceAs (Decidable (∀ r ∈ s.turn e, _ → _))

theorem finAck_acknowledged_shutdown : ∃ s, Reaches (step false) (fun _ _ => True) Initial s ∧
    LoadCurrent s (.rxLocked 0 {}) ∧ Ends (step false s (.rxLocked 0 {})) fun s' =>
      FinAcked s.c s'.c ∧ s'.c.snd.una = s'.c.snd.nxt := by
  refine Reaches.of_exec_imp (P := fun s =>
      LoadCurrent s (.rxLocked 0 {}) ∧ Ends (step false s (.rxLocked 0 {})) fun s' => FinAcked s.c s'.c)
    (handshake 1000 ++
    [.shutdown true false {}, .rxLoad (.plain 5001 1002 tcpAck 1000 [] (by decide))])
    (initial_dialed 1500) (allowed_true _ _) ?_ ?_
  · decide
  rintro s hs ⟨hok, s', hstep, hmove⟩
  exact ⟨hok, s', hstep, hmove, finAck_acknowledged hok hstep hmove⟩

/-- An acknowledgement of everything but the FIN is loaded before `tcp_shutdown` and processed after it: in FIN_WAIT2
the FIN is not acknowledged. -/
theorem finAck_stale_load : ∃ s, Reaches (step false) (fun _ _ => True) Initial s ∧
    Ends (step false s (.rxLocked 0 {})) fun s' =>
      FinAcked s.c s'.c ∧ s'.c.snd.una ≠ s'.c.snd.nxt := by
  refine Reaches.of_exec (handshake 1000 ++
    [.rxLoad (.plain 5001 1001 tcpAck 1000 [] (by decide)), .shutdown true false {}])
    (initial_dialed 1500) (allowed_true _ _) ?_
  decide

/-! ## Half-closed states -/

def State.halfClosed : State → Bool
  | .finWait1 | .finWait2 | .closing | .lastAck | .timeWait | .closed => true
  | _ => false

def finCount (c : Conn) : ℕ := c.tx.ctlLog.countP fun flags => hasFlag flags tcpFin

/-- A FIN may be sent on a connection without error: none has been sent, the handshake is over, and the network takes
it. -/
def HalfOk (s : Sys) (e : Event) : Prop := ∀ env ∈ finEnv s e, s.c.err = none →
    s.c.tx.closed = false ∧ (s.c.state = .established ∨ s.c.state = .closeWait) ∧
    (env.alloc = true → env.tx = none)
deriving Decidable

structure Paired (c : Conn) : Prop where
  count : finCount c = if c.tx.closed then 1 else 0
  state : c.tx.closed = c.state.halfClosed

structure HalfInv (s : Sys) : Prop where
  closers : s.owner.fresh = true → s.closers = []
  fresh : s.owner.fresh = true → s.c.state = .closed
  unused : s.owner.fresh = true → s.c.smGets = 0 ∧ (s.c.err = none → s.c.tx.closed = false ∧ finCount s.c = 0)
  paired : s.c.smGets ≠ 0 → s.c.err = none → Paired s.c
  dropped : s.c.smGets ≠ 0 → s.c.state = .closed → 1 ≤ s.c.smDrops + s.workerPut

lemma textState_halfClosed (c : Conn) (r : RxSeg) (acked fin : Bool) :
    (textState c r acked fin).halfClosed = c.state.halfClosed := by
  unfold textState entered
  cases hs : c.state <;> cases acked <;> cases fin <;> simp [hs] <;> rfl

lemma RxMove.half {dbg : Bool} (h : RxMove dbg env c r c')
    (herr : c'.err = none) : finCount c' = finCount c ∧ c'.tx.closed = c.tx.closed ∧
      c'.state.halfClosed = c.state.halfClosed := by
  cases h.frame with
  | quiet => exact ⟨rfl, rfl, rfl⟩
  | failed => cases herr
  | syn hst hst' _ hlog =>
    refine ⟨?_, rfl, ?_⟩
    · obtain rfl | rfl := hlog
      · rfl
      · simp only [finCount, List.countP_append]
        rfl
    · rw [hst]
      obtain rfl | rfl | rfl := hst' <;> rfl
  | lastAcked hst =>
    rw [hst]
    exact ⟨rfl, rfl, rfl⟩
  | text => exact ⟨rfl, rfl, textState_halfClosed ..⟩

lemma RxMove.txClosed {dbg : Bool}
    (h : RxMove dbg env c r c') (hcl : c.tx.closed) : c'.tx.closed = true := by
  cases h.frame with
  | failed _ htx => rw [htx]
  | _ => exact hcl

lemma RxMove.drops {dbg : Bool} (h : RxMove dbg env c r c')
    (hst' : c'.state = .closed) : c.state = .closed ∨ 1 ≤ c'.smDrops := by
  cases h.frame with
  | quiet => exact .inl hst'
  | failed | lastAcked => exact .inr (Nat.le_add_left _ _)
  | syn _ hst => obtain rfl | rfl | rfl := hst <;> cases hst'
  | text hst => exact absurd hst' (textState_ne hst _ _).1

section Step

variable {dbg : Bool} {s s' : Sys} {e : Event}

lemma HalfInv.still (hi : HalfInv s) (h : step dbg s e = .ok s') (hgets : s'.c.smGets = s.c.smGets)
    (hhalf : s'.c.err = none → finCount s'.c = finCount s.c ∧ s'.c.tx.closed = s.c.tx.closed ∧
      s'.c.state.halfClosed = s.c.state.halfClosed)
    (hdrop : s'.c.state = .closed → s.c.state = .closed ∨ 1 ≤ s'.c.smDrops + s'.workerPut)
    (hmono : s.c.smDrops + s.workerPut ≤ s'.c.smDrops + s'.workerPut) : HalfInv s' := by
  refine ⟨fresh_closers_step h hi.closers, fresh_closed_step h hi.fresh, ?_, ?_, ?_⟩
  · intro hfresh
    obtain ⟨hzero, hclosed⟩ := hi.unused (step_fresh h hfresh ▸ hfresh)
    refine ⟨hgets.trans hzero, ?_⟩
    intro herr
    obtain ⟨hcount, hcl, -⟩ := hhalf herr
    rw [hcount, hcl]
    exact hclosed (step_err h herr)
  · intro hne herr
    obtain ⟨hcount, hcl, hst⟩ := hhalf herr
    obtain ⟨h1, h2⟩ := hi.paired (hgets ▸ hne) (step_err h herr)
    exact ⟨by rw [hcount, hcl, h1], by rw [hcl, hst, h2]⟩
  · intro hne hst
    rcases hdrop hst with hst | hdrop
    · exact (hi.dropped (hgets ▸ hne) hst).trans hmono
    · exact hdrop

lemma Paired.fin {st : State} (h : Paired c) (hcl : c.tx.closed = false)
    (hst : c.state = .established ∨ c.state = .closeWait) (hst' : st = finSent c.state)
    (hs : c'.state = st) (hlog : c'.tx.ctlLog = c.tx.ctlLog ++ [tcpFin ||| tcpAck])
    (hcl' : c'.tx.closed) : Paired c' := by
  have hcount := h.count
  rw [hcl] at hcount
  refine ⟨?_, ?_⟩
  · rw [finCount] at hcount ⊢
    rw [hlog, List.countP_append, hcount, hcl']
    rfl
  · rw [hcl', hs, hst']
    rcases hst with hst | hst
    · rw [hst]
      rfl
    · rw [hst]
      rfl

lemma HalfInv.fin {c1 : Conn} {ret : Option Errno} (hi : HalfInv s)
    (hok : HalfOk s e) (h : step dbg s e = .ok s') (he : finEnv s e = some env)
    (htx : tcpConnShutdownTx env s.c = (c1, ret)) (hst' : s'.c.state = c1.state) (htx' : s'.c.tx = c1.tx)
    (hgets : s'.c.smGets = s.c.smGets) (hmono : s.c.smDrops + s.workerPut ≤ s'.c.smDrops + s'.workerPut) :
    HalfInv s' := by
  obtain ⟨-, rfl, -⟩ | ⟨halloc, hret, m, t, -, -, -, rfl⟩ := tcpConnShutdownTx_cases htx
  · exact hi.still h hgets (fun _ => by rw [finCount, htx', hst']; exact ⟨rfl, rfl, rfl⟩)
      (fun hst => .inl (hst' ▸ hst)) hmono
  have hfresh : s'.owner.fresh → False := by
    intro hfresh
    have hs := step_fresh h hfresh ▸ hfresh
    rw [finEnv_fresh hs (hi.closers hs)] at he
    cases he
  refine ⟨fresh_closers_step h hi.closers, fresh_closed_step h hi.fresh, fun hf => (hfresh hf).elim, ?_, ?_⟩
  · intro hne herr
    have herr0 := step_err h herr
    obtain ⟨hcl, hst, htx⟩ := hok env he herr0
    obtain rfl : ret = none := hret.trans (htx halloc)
    refine (hi.paired (hgets ▸ hne) herr0).fin hcl hst rfl hst' ?_ ?_
    · rw [htx']
    · rw [htx']
      simp
  · intro hne hst
    rw [hst'] at hst
    refine (hi.dropped (hgets ▸ hne) ?_).trans hmono
    split at hst
    · cases hs : s.c.state <;> simp [hs, finSent] at hst ⊢
    · exact hst

lemma finCount_ctl {flags : Flags} {opts : Option TcpOptions}
    {ret : Option Errno} (hflags : hasFlag flags tcpFin = false) (h : tcpTxCtl env c flags opts = (c', ret)) :
    finCount c' = finCount c ∧ c'.tx.closed = c.tx.closed ∧ c'.smGets = c.smGets := by
  obtain ⟨-, rfl, -⟩ | ⟨-, -, m, -, -, -, rfl⟩ := tcpTxCtl_cases h
  · exact ⟨rfl, rfl, rfl⟩
  · refine ⟨?_, rfl, rfl⟩
    simp only [finCount, List.countP_append]
    simp [hflags]

lemma State.not_halfClosed_of_opening {st : State} (h : st.opening) : st.halfClosed = false := by
  cases st <;> simp [State.opening, State.num] at h <;> rfl

lemma HalfInv.step (hi : HalfInv s) (hok : HalfOk s e) (h : step dbg s e = .ok s') : HalfInv s' := by
  cases stepped h with
  | ingress hr ho =>
    have hm := tcpRxConnLocked_move ho
    refine hi.still h hm.smGets hm.half (fun hst => (hm.drops hst).imp_right ?_) (Nat.add_le_add_right hm.smDrops _)
    exact fun hdrop => hdrop.trans (Nat.le_add_right _ _)
  | failed | closeFailed =>
    rw [tcpConnFail_eq] at h ⊢
    refine hi.still h rfl nofun (fun _ => .inr ?_) (Nat.add_le_add_right (Nat.le_succ _) _)
    exact Nat.le_add_right_of_le (Nat.le_add_left _ _)
  | shutdown _ he htx | close _ he htx => exact hi.fin hok h he htx rfl rfl rfl le_rfl
  | opened ho hctl =>
    obtain ⟨hfresh, ho', hflags, hst, -⟩ := ho.spec
    obtain ⟨-, hclosed⟩ := hi.unused hfresh
    obtain ⟨hcount, -, -⟩ := finCount_ctl hflags.1 hctl
    refine ⟨by simp [ho'], by simp [ho'], by simp [ho'], ?_, ?_⟩
    · intro _ herr
      obtain ⟨hcl0, hcount0⟩ := hclosed herr
      have hone : (if s.c.tx.closed = true then 1 else 0) = 0 := if_neg (Bool.eq_false_iff.1 hcl0)
      exact ⟨(hcount.trans hcount0).trans hone.symm, hcl0.trans (State.not_halfClosed_of_opening hst).symm⟩
    · rintro _ rfl
      cases hst
  | openFailed ho =>
    refine ⟨nofun, nofun, nofun, ?_, ?_⟩
    · intro hne
      exact absurd (hi.unused ho.spec.1).1 hne
    · intro hne
      exact absurd (hi.unused ho.spec.1).1 hne
  | expired hst =>
    refine hi.still h rfl (fun _ => ⟨rfl, rfl, ?_⟩) (fun _ => .inr (Nat.le_add_left _ _)) (Nat.le_succ _)
    rw [hst]
    rfl
  | workerPut hput =>
    refine hi.still h rfl (fun _ => ⟨rfl, rfl, rfl⟩) .inl ?_
    dsimp only
    omega
  | _ => exact hi.still h rfl (fun _ => ⟨rfl, rfl, rfl⟩) .inl le_rfl

lemma txClosed_step (h : step dbg s e = .ok s') (hcl : s.c.tx.closed) : s'.c.tx.closed = true := by
  cases stepped h with
  | ingress _ ho => exact (tcpRxConnLocked_move ho).txClosed hcl
  | shutdown _ _ htx | close _ _ htx =>
    obtain ⟨-, heq, -⟩ | ⟨-, -, m, t, -, -, -, heq⟩ := tcpConnShutdownTx_cases htx
    · exact (congrArg (·.tx.closed) heq).trans hcl
    · refine (congrArg (·.tx.closed) heq).trans ?_
      simp [hcl]
  | closeFailed | failed => rw [tcpConnFail_eq]
  | _ => exact hcl

lemma tcpConnShutdownTx_closed (h : tcpConnShutdownTx env c = (c', none)) : c'.tx.closed = true := by
  obtain ⟨-, -, herr⟩ | ⟨-, -, m, t, -, -, -, rfl⟩ := tcpConnShutdownTx_cases h
  · cases herr
  · simp

lemma closePut_step (h : step dbg s e = .ok s') (ho : s'.owner = .closePut) :
    s.owner = .closePut ∨ s'.c.tx.closed = true := by
  cases stepped h with
  | closed _ hclosed => exact .inr hclosed
  | close _ _ htx =>
    have hclosed := tcpConnShutdownTx_closed htx
    exact .inr hclosed
  | closeFailed => exact .inr (by rw [tcpConnFail_eq])
  | sleeping happ _ hk =>
    obtain ⟨-, rfl⟩ | ⟨-, rfl⟩ := hk
    · exact .inl ho
    · cases ho
  | opened hopen =>
    cases hopen with
    | @dial nonblocking => cases nonblocking <;> cases ho
    | listen => cases ho
  | released | openFailed | discarded | owned => cases ho
  | _ => exact .inl ho

def Event.wire : Event → Bool
  | .rxLoad _ | .rxLocked _ _ | .timeout _ _ | .workerPut => true
  | _ => false

def resets (c : Conn) : Packet := .plain c.rcv.nxt 0 tcpRst 0 [] nil_fits

lemma tcpRxConnLoad_resets (c : Conn) : ∃ r, tcpRxConnLoad c (resets c) = some r ∧
    r.m.segSeq = c.rcv.nxt ∧ r.m.flags = tcpRst ∧ segLen r.m = 0 := by
  unfold tcpRxConnLoad resets Packet.plain
  dsimp only
  rw [dif_neg (by decide), dif_neg]
  · refine ⟨_, rfl, rfl, rfl, ?_⟩
    dsimp only [segLen]
    rw [show hasFlag tcpRst tcpFin = false from rfl]
    simp
  · simp

lemma isAcceptable_nxt (hwnd : c.rcv.wnd.toNat ≤ 131071) : isAcceptable c 0 c.rcv.nxt = true := by
  unfold isAcceptable
  by_cases hzero : c.rcv.wnd = 0
  · simp [hzero]
  · have hpos : 0 < c.rcv.wnd.toNat := by
      rcases Nat.eq_zero_or_pos c.rcv.wnd.toNat with h | h
      · exact absurd (BitVec.eq_of_toNat_eq h) hzero
      · exact h
    rw [if_neg fun h => hzero h.2, if_pos ⟨rfl, by simpa [BitVec.lt_def] using hpos⟩, wrapsLte_refl,
      Bool.true_and, wrapsLt_iff]
    have hfwd := Aspen.sdist_forward_self (b := c.rcv.nxt) (n := c.rcv.wnd) (by omega)
    rw [Aspen.sdist_swap (by omega), hfwd]
    omega

lemma tcpRxConnLocked_resets (dbg : Bool) (env : Env) (hseq : r.m.segSeq = c.rcv.nxt)
    (hflags : r.m.flags = tcpRst) (hlen : segLen r.m = 0) (hwnd : c.rcv.wnd.toNat ≤ 131071)
    (hcl : c.state ≠ .closed) (hss : c.state ≠ .synSent) :
    ∃ o, tcpRxConnLocked dbg env c r = .ok o ∧ o.c.state = .closed ∧ 1 ≤ o.c.smDrops := by
  have hslow : slowPath c r := by
    simp only [slowPath, hflags]
    rw [show hasFlag tcpRst tcpSlowpathFlags = true from rfl]
    rfl
  have hsync : rxSynchronized dbg env.now c r = .ok { c := tcpConnFail env.now .econnreset c } := by
    unfold rxSynchronized
    dsimp only
    rw [hlen, hseq, isAcceptable_nxt hwnd, hflags]
    rfl
  unfold tcpRxConnLocked tcpRxConnSlow
  rw [if_pos hslow]
  rw [if_neg hcl, if_neg hss, hsync]
  refine ⟨_, rfl, ?_⟩
  obtain ⟨t, ht⟩ := rxDone_spec env.now { c := tcpConnFail env.now .econnreset c }
  rw [ht, tcpConnFail_eq]
  exact ⟨rfl, Nat.le_add_left _ _⟩

/-- In any state behind the FIN, events from the network and the runtime alone can close the connection. -/
lemma HalfInv.releases (hi : HalfInv s) (hr : RecvInv s) (hgets : s.c.smGets ≠ 0)
    (herr : s.c.err = none) (hcl : s.c.tx.closed) :
    ∃ es, (∀ e ∈ es, Event.wire e) ∧
      Ends (Run.exec (Tcp.step dbg) s es) fun s' => s'.c.state = .closed ∧ 1 ≤ s'.c.smDrops := by
  have hhalf := (hi.paired hgets herr).state
  rw [hcl] at hhalf
  by_cases hst : s.c.state = .closed
  · have hdropped := hi.dropped hgets hst
    by_cases hdrops : 1 ≤ s.c.smDrops
    · exact ⟨[], by simp, s, rfl, hst, hdrops⟩
    · refine ⟨[.workerPut], by simp [Event.wire], { s with
        c := tcpConnPutSm s.c, workerPut := s.workerPut - 1 }, ?_, ?_⟩
      · simp only [Run.exec, Tcp.step]
        rw [if_neg (by omega)]
      · rw [tcpConnPutSm_eq]
        exact ⟨hst, Nat.le_add_left _ _⟩
  · obtain ⟨r, hload, hseq, hflags, hlen⟩ := tcpRxConnLoad_resets s.c
    have hss : s.c.state ≠ .synSent := by
      intro hss
      rw [hss] at hhalf
      cases hhalf
    obtain ⟨o, ho, hclosed, hdrops⟩ := tcpRxConnLocked_resets dbg {} hseq hflags
      hlen hr.ok.queue.reach.wnd_le hst hss
    refine ⟨[.rxLoad (resets s.c), .rxLocked s.inflight.length {}], by simp [Event.wire],
      { s with c := o.c, inflight := (s.inflight ++ [r]).eraseIdx s.inflight.length }.defer o.doAck
        o.retransmit.isSome, ?_, hclosed, hdrops⟩
    simp only [Run.exec, Tcp.step, hload, List.getElem?_concat_length, ho]

lemma halfInv_initial (h : Initial s) : HalfInv s := by
  obtain ⟨_, _, _, _, _, _, _, _, _, -, -, -, rfl⟩ := initial_eq h
  exact ⟨fun _ => rfl, fun _ => rfl, fun _ => ⟨rfl, fun _ => ⟨rfl, rfl⟩⟩, fun hne => absurd rfl hne,
    fun hne => absurd rfl hne⟩

lemma halfInv_of_reaches (h : Reaches (step dbg) HalfOk Initial s) : HalfInv s :=
  h.invariant (fun _ => halfInv_initial) fun _ _ _ hi hok hs => hi.step hok hs

lemma closePut_of_reaches {ok : Sys → Event → Prop} (h : Reaches (step dbg) ok Initial s) :
    s.owner = .closePut → s.c.tx.closed = true := by
  refine h.invariant (I := fun s => s.owner = .closePut → s.c.tx.closed = true) ?_ ?_
  · intro s h0 ho
    cases h0 <;> cases ho
  · intro s e s' hi _ hs ho
    rcases closePut_step hs ho with ho | hcl
    · exact txClosed_step hs (hi ho)
    · exact hcl

end Step

variable {dbg : Bool} {s : Sys}

/-- In every run that meets the condition, a connection that has left its initial state and has no error has queued
one FIN in the half-closed states, and none in the others. Once its owner has called `tcp_close` it can still be
closed. -/
theorem half_closed (h : Reaches (step dbg) HalfOk Initial s) (hgets : s.c.smGets ≠ 0) (herr : s.c.err = none) :
    finCount s.c ≤ 1 ∧ (finCount s.c = 1 ↔ s.c.tx.closed = true) ∧
    (s.c.tx.closed = true ↔ s.c.state.halfClosed = true) ∧
    (s.owner = .closePut → s.c.tx.closed = true) ∧
    (s.c.tx.closed = true → ∃ es, (∀ e ∈ es, Event.wire e = true) ∧
      Ends (Run.exec (step dbg) s es) fun s' => s'.c.state = .closed ∧ 1 ≤ s'.c.smDrops) := by
  have hi := halfInv_of_reaches h
  obtain ⟨hcount, hstate⟩ := hi.paired hgets herr
  refine ⟨?_, ?_, by rw [hstate], closePut_of_reaches h, hi.releases (recvInv_of_reaches h) hgets herr⟩
  · rw [hcount]
    split
    · exact le_rfl
    · exact Nat.zero_le _
  · rw [hcount]
    cases s.c.tx.closed <;> simp

theorem half_closed_close : ∃ s, Reaches (step false) HalfOk Initial s ∧ s.c.smGets ≠ 0 ∧
    s.c.err = none ∧ s.owner = .closePut ∧ s.c.state = .finWait1 ∧ finCount s.c = 1 ∧
    ∃ es, (∀ e ∈ es, Event.wire e = true) ∧
      Ends (Run.exec (step false) s es) fun s' => s'.c.state = .closed ∧ 1 ≤ s'.c.smDrops := by
  refine Reaches.of_exec_imp (P := fun s =>
      s.c.smGets ≠ 0 ∧ s.c.err = none ∧ s.owner = .closePut ∧ s.c.state = .finWait1)
    (handshake 1000 ++ [.close {}]) (initial_dialed 1500) (by decide) (by decide) ?_
  rintro s hs ⟨hgets, herr, ho, hst⟩
  obtain ⟨-, hcount, -, hput, hcloses⟩ := half_closed hs hgets herr
  exact ⟨hgets, herr, ho, hst, hcount.2 (hput ho), hcloses (hput ho)⟩

/-- A nonblocking dial returns in SYN_SENT, and `tcp_shutdown` queues the FIN there: after the handshake the
connection is ESTABLISHED. -/
theorem fin_in_synSent : ∃ s, Reaches (step false) (fun _ _ => True) Initial s ∧ s.c.smGets ≠ 0 ∧
    s.c.err = none ∧ s.c.state = .established ∧ finCount s.c = 1 ∧
    ¬ (s.c.tx.closed = true ↔ s.c.state.halfClosed = true) := by
  refine Reaches.of_exec [.dialSyn {}, .shutdown true false {},
    .rxLoad (.plain 5000 1002 (tcpSyn ||| tcpAck) 1000 [] (by decide)), .rxLocked 0 {}]
    (Initial.dial 1000 1500 0 true) (allowed_true _ _) ?_
  decide

end Aspen.Tcp
