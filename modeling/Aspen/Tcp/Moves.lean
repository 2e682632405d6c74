import Aspen.Tcp.Steps

/-!
# What a step can do

An event has many outcomes, but each group of invariants looks at a few fields only, and most events leave
them alone. A segment writes the fields that `RxFrame` names; `step_state` says once what can happen to the
connection state.
-/

namespace Aspen.Tcp

def Rx.failed (rx : Rx) : Rx := { rx with closed := true, q := if rx.exclusive then rx.q else [], ooo := [] }

/-! ## Segments -/

section

variable {dbg : Bool} {env : Env} {c c' : Conn} {r : RxSeg}

def Conn.dropped (c : Conn) : Conn :=
  { c with
    state := .closed
    ref := c.ref - 1
    smDrops := c.smDrops + 1
    destroys := c.destroys + if c.ref - 1 = 0 then 1 else 0 }

def textState (c : Conn) (r : RxSeg) (acked fin : Bool) : State := let st := finAckedState (entered c r).state acked
  if fin then finState st else st

lemma textState_ne (hst : c.state ≠ .closed ∧ c.state ≠ .synSent) (acked fin : Bool) :
    textState c r acked fin ≠ .closed ∧ textState c r acked fin ≠ .synSent := by
  unfold textState entered
  cases hs : c.state <;> cases acked <;> cases fin <;> simp [hs, finAckedState, finState] at hst ⊢

inductive RxFrame (c : Conn) (r : RxSeg) : Conn → Prop
  | quiet {t : Timers} : RxFrame c r { c with tmr := t }
  | failed {tx : Tx} {t : Timers} (hst : c.state ≠ .closed)
      (htx : tx = { c.tx with
        closed := true
        q := if c.tx.exclusive then c.tx.q else []
        pending := if c.tx.exclusive then c.tx.pending else none }) :
      RxFrame c r { c.dropped with err := some .econnreset, rx := c.rx.failed, tx := tx, tmr := t }
  | syn {st : State} {una nxt wnd wl1 wl2 wscale mss winmax a w : Seq} {rcv : Rcv} {q : List Mbuf} {log : List Flags}
      {t : Timers} (hst : c.state = .synSent) (hst' : st = .synSent ∨ st = .synReceived ∨ st = .established)
      (hmss : mss.toNat ≤ 65535) (hlog : log = c.tx.ctlLog ∨ log = c.tx.ctlLog ++ [tcpSyn ||| tcpAck]) :
      RxFrame c r { c with
        state := st
        snd := { c.snd with una := una, nxt := nxt, wnd := wnd, wl1 := wl1, wl2 := wl2, wscale := wscale, mss := mss }
        rcv := rcv
        winmax := winmax
        tx := { c.tx with q := q, lastAck := a, lastWin := w, ctlLog := log }
        tmr := t }
  | lastAcked {una wnd wl1 wl2 a : Seq} {q : List Mbuf} {dfr : Bool} {t : Timers} (hst : c.state = .lastAck) :
      RxFrame c r { c.dropped with
        snd := { c.snd with una := una, wnd := wnd, wl1 := wl1, wl2 := wl2 }
        tx := { c.tx with q := q, doFastRetransmit := dfr, fastRetransmitLastAck := a }
        tmr := t }
  | text {acked fin dfr : Bool} {una wnd wl1 wl2 a : Seq} {rcv : Rcv} {rx : Rx} {q : List Mbuf} {t : Timers}
      (hst : c.state ≠ .closed ∧ c.state ≠ .synSent) :
      RxFrame c r { c with
        state := textState c r acked fin
        snd := { c.snd with una := una, wnd := wnd, wl1 := wl1, wl2 := wl2 }
        rcv := rcv
        rx := rx
        tx := { c.tx with q := q, doFastRetransmit := dfr, fastRetransmitLastAck := a }
        tmr := t }

lemma toNat_mss_le {a b : Seq} (h : a.toNat ≤ 65535) : (minSeq a b).toNat ≤ 65535 := by
  unfold minSeq
  split
  · exact h
  · rename_i hlt
    rw [BitVec.lt_def] at hlt
    omega

lemma applyOptions_mss_le (c : Conn) (o : ParsedOptions) : (applyOptions c o).snd.mss.toNat ≤ 65535 := by
  rw [applyOptions_eq]
  dsimp only
  split
  · refine toNat_mss_le ?_
    unfold maxSeq
    split
    · decide
    · rw [BitVec.toNat_setWidth]
      omega
  · decide

lemma synConn_frame (c : Conn) (r : RxSeg) (o : ParsedOptions) : ∃ una wscale mss rcv winmax q,
    synConn c r o = { c with
      snd := { c.snd with una := una, wscale := wscale, mss := mss }, rcv := rcv, winmax := winmax, tx.q := q } ∧
    mss.toNat ≤ 65535 := by
  have hmss := applyOptions_mss_le { c with rcv.nxt := r.m.segSeq + 1, rcv.irs := r.m.segSeq } o
  rw [applyOptions_eq] at hmss
  rw [synConn_eq, applyOptions_eq]
  exact ⟨_, _, _, _, _, _, rfl, hmss⟩

section

variable (h : RxMove dbg env c r c')
include h

lemma RxMove.frame : RxFrame c r c' := by
  cases h with
  | quiet => exact .quiet
  | failed hst =>
    rw [tcpConnFail_eq]
    exact .failed hst rfl
  | @synAcked o t hst =>
    obtain ⟨una, wscale, mss, rcv, winmax, q, heq, hmss⟩ := synConn_frame c r o
    rw [heq]
    exact .syn (a := c.tx.lastAck) (w := c.tx.lastWin) hst (.inr (.inr rfl)) hmss (.inl rfl)
  | @synCrossed o opts c1 ret t hst _ _ hctl =>
    obtain ⟨una, wscale, mss, rcv, winmax, q, heq, hmss⟩ := synConn_frame c r o
    rw [heq] at hctl
    have hst' : (if ret.isSome = true then State.synSent else .synReceived) = .synSent ∨
        (if ret.isSome = true then State.synSent else .synReceived) = .synReceived ∨
        (if ret.isSome = true then State.synSent else .synReceived) = .established := by
      cases ret <;> simp
    obtain ⟨-, rfl, -⟩ | ⟨-, -, m, -, -, -, rfl⟩ := tcpTxCtl_cases hctl
    · exact .syn (a := c.tx.lastAck) (w := c.tx.lastWin) hst hst' hmss (.inl rfl)
    · exact .syn (a := rcv.nxt) (w := rcv.wnd) hst hst' hmss (.inr rfl)
  | lastAcked hst _ hack =>
    cases hack
    rw [tcpConnPutSm_eq]
    exact .lastAcked hst
  | @text _ _ fin _ hst _ hack _ htext =>
    obtain ⟨rcv, rx, rfl⟩ := htext.frame
    obtain ⟨wnd, wl1, wl2, st, hent⟩ : ∃ wnd wl1 wl2 st, entered c r =
        { c with state := st, snd := { c.snd with wnd := wnd, wl1 := wl1, wl2 := wl2 } } := by
      unfold entered
      split <;> exact ⟨_, _, _, _, rfl⟩
    cases hack with
    | @mk _ _ _ _ q =>
      rw [show (if fin = true then _ else _) = textState c r (ackedUna (entered c r) r == r.sndNxt) fin from rfl]
      rw [hent]
      exact .text hst

lemma RxMove.smDrops : c.smDrops ≤ c'.smDrops := by
  cases h.frame with
  | failed | lastAcked => exact Nat.le_succ _
  | _ => exact le_rfl

lemma RxMove.smGets : c'.smGets = c.smGets := by
  cases h.frame with
  | _ => rfl

lemma RxMove.err (herr : c'.err = none) : c.err = none := by
  cases h.frame with
  | failed => cases herr
  | _ => exact herr

end

end

/-! ## The sending side -/

def Sys.turn (s : Sys) : Event → Option RxSeg
  | .rxLocked i _ => s.inflight[i]?
  | _ => none

lemma tcpWritevNext_spec {iov : List (List UInt8)} {winlen total : ℕ} {snd : Send}
    (h : tcpWritevNext iov winlen total = some snd) :
    snd.sent = 0 ∧ snd.winlen = winlen ∧ snd.rest.length ≤ winlen := by
  unfold tcpWritevNext at h
  split at h
  · cases h
  · split at h
    · cases h
    · cases h
      exact ⟨rfl, rfl, List.length_take_le _ _⟩

variable {e : Event}

lemma Starts.spec {winlen : ℕ} {next : Option Send} (h : Starts winlen e next) {snd : Send}
    (hsnd : next = some snd) : snd.sent = 0 ∧ snd.winlen = winlen ∧ snd.rest.length ≤ snd.winlen := by
  cases h with
  | write buf =>
    cases hsnd
    exact ⟨rfl, rfl, List.length_take_le _ _⟩
  | writev iov =>
    obtain ⟨h1, h2, h3⟩ := tcpWritevNext_spec hsnd
    exact ⟨h1, h2, h2.symm ▸ h3⟩

variable {s s' : Sys}

lemma Opens.spec {env : Env} {flags : Flags} {opts : TcpOptions} {st : State} {o : Owner}
    (h : Opens s e env flags opts st o) : s.owner.fresh ∧ o.fresh = false ∧
      (hasFlag flags tcpFin = false ∧ hasFlag flags tcpSyn) ∧ st.opening ∧
      ∀ nonblocking, s.owner = .dialing nonblocking → st = .synSent := by
  cases h with
  | @dial nonblocking _ ho => exact ⟨by rw [ho]; rfl, by cases nonblocking <;> rfl, by decide, rfl, fun _ _ => rfl⟩
  | listen ho => exact ⟨by rw [ho]; rfl, rfl, by decide, rfl, by simp [ho]⟩

inductive StateMove (dbg : Bool) (s s' : Sys) : Event → Prop
  | same {e : Event} (hst : s'.c.state = s.c.state) : StateMove dbg s s' e
  | failed {e : Event} (hst : s'.c.state = .closed) (herr : s'.c.err ≠ none) : StateMove dbg s s' e
  | ingress {i : ℕ} {env : Env} {r : RxSeg} (hr : s.inflight[i]? = some r)
      (hm : RxMove dbg env s.c r s'.c) : StateMove dbg s s' (.rxLocked i env)
  | fin {e : Event} (hst : s'.c.state = finSent s.c.state) : StateMove dbg s s' e
  | opened {e : Event} (ho : s.owner.fresh = true) (ho' : s'.owner.fresh = false)
      (hst : s'.c.state.opening = true)
      (hdial : ∀ nonblocking, s.owner = .dialing nonblocking → s'.c.state = .synSent) :
      StateMove dbg s s' e
  | expired {e : Event} (hst : s.c.state = .timeWait) (hst' : s'.c.state = .closed) : StateMove dbg s s' e

lemma tcpConnShutdownTx_finSent {env : Env} {c c' : Conn} {ret : Option Errno}
    (h : tcpConnShutdownTx env c = (c', ret)) : c'.state = c.state ∨ c'.state = finSent c.state := by
  obtain ⟨-, rfl, -⟩ | ⟨-, -, m, t, -, -, -, rfl⟩ := tcpConnShutdownTx_cases h
  · exact .inl rfl
  · split
    · exact .inr rfl
    · exact .inl rfl

/-- Where a step may take the state machine. -/
lemma step_state {dbg : Bool} (h : step dbg s e = .ok s') : StateMove dbg s s' e := by
  cases stepped h with
  | ingress hr ho => exact .ingress hr (tcpRxConnLocked_move ho)
  | shutdown _ _ htx | close _ _ htx =>
    rcases tcpConnShutdownTx_finSent htx with hst | hst
    · exact .same hst
    · exact .fin hst
  | closeFailed | failed => exact .failed (by rw [tcpConnFail_eq]) (by simp [tcpConnFail_eq])
  | expired hst => exact .expired hst rfl
  | opened ho =>
    obtain ⟨hfresh, ho', -, hst, hdial⟩ := ho.spec
    exact .opened hfresh ho' hst hdial
  | _ => exact .same rfl

lemma step_fresh {dbg : Bool} (h : step dbg s e = .ok s')
    (hfresh : s'.owner.fresh) : s'.owner = s.owner := by
  cases stepped h with
  | closed | close | closeFailed | released | openFailed | discarded | owned => cases hfresh
  | sleeping _ _ ho =>
    obtain ⟨-, ho⟩ | ⟨-, rfl⟩ := ho
    · exact ho
    · cases hfresh
  | opened ho => cases ho.spec.2.1.symm.trans hfresh
  | _ => rfl

lemma step_err {dbg : Bool} (h : step dbg s e = .ok s') (herr : s'.c.err = none) : s.c.err = none := by
  cases stepped h with
  | ingress _ ho => exact (tcpRxConnLocked_move ho).err herr
  | closeFailed | failed => simp [tcpConnFail_eq] at herr
  | _ => exact herr

/-! ## The receiving side -/

def RcvSame (c c' : Conn) : Prop := c'.rcv = c.rcv ∧ c'.rx = c.rx

lemma tcpConnFail_recv (now : Time) (err : Errno) (c : Conn) :
    (tcpConnFail now err c).rcv = c.rcv ∧ (tcpConnFail now err c).rx = c.rx.failed ∧
      (tcpConnFail now err c).err ≠ none := by
  simp [tcpConnFail_eq, Rx.failed]

lemma Closes.closesRx {k : Closer} {o : Owner} {closers : List Closer}
    (h : Closes s e k o closers) : closesRx s e = match k with | .shutdown rx => rx | .close => true := by
  cases h with
  | shutdown | close => rfl
  | @resume i env k hk =>
    simp only [Tcp.closesRx, hk]
    cases k <;> rfl

/-! ## Before the peer's SYN -/

variable {dbg : Bool} {env : Env} {c c' : Conn} {r : RxSeg}

/-- A connection that has not seen the peer's SYN on the way to ESTABLISHED, or is about to send the
SYN/ACK. -/
def Unsynced (s : Sys) : Prop := s.owner.fresh = true ∨ s.c.state = .synSent

lemma RxMove.synSent (h : RxMove dbg env c r c') (hst' : c'.state = .synSent) : c.state = .synSent := by
  cases h.frame with
  | quiet => exact hst'
  | failed | lastAcked => cases hst'
  | syn hst => exact hst
  | text hst => exact absurd hst' (textState_ne hst _ _).2

lemma RxMove.of_closed (h : RxMove dbg env c r c') (hst : c.state = .closed) : ∃ t, c' = { c with tmr := t } := by
  cases h.frame with
  | quiet => exact ⟨_, rfl⟩
  | failed hst' => exact absurd hst hst'
  | syn hst' | lastAcked hst' => cases hst.symm.trans hst'
  | text hst' => exact absurd hst hst'.1

lemma RxMove.closed (h : RxMove dbg env c r c') (hst : c.state = .closed) : c'.state = .closed ∧ RcvSame c c' := by
  obtain ⟨t, rfl⟩ := h.of_closed hst
  exact ⟨hst, rfl, rfl⟩

lemma unsynced_of_step (h : step dbg s e = .ok s') (hu : Unsynced s') : Unsynced s := by
  rcases hu with hfresh | hst
  · exact .inl (step_fresh h hfresh ▸ hfresh)
  · cases step_state h with
    | same hsame => exact .inr (hsame ▸ hst)
    | failed hst' herr => simp [hst] at hst'
    | ingress hr hm => exact .inr (hm.synSent hst)
    | fin hst' =>
      right
      rw [hst] at hst'
      cases hs : s.c.state <;> simp [hs, finSent] at hst' ⊢
    | opened ho ho' hst' hdial => exact .inl ho
    | expired hst' hst'' => simp [hst] at hst''

lemma fresh_closed_step (h : step dbg s e = .ok s')
    (hi : s.owner.fresh → s.c.state = .closed) (hfresh : s'.owner.fresh) :
    s'.c.state = .closed := by
  have hst := hi (step_fresh h hfresh ▸ hfresh)
  cases step_state h with
  | same hsame => exact hsame.trans hst
  | failed hst' herr => exact hst'
  | ingress hr hm => exact (hm.closed hst).1
  | fin hst' => simp [hst', hst, finSent]
  | opened ho ho' hst' hdial => simp [hfresh] at ho'
  | expired hst' hst'' => exact hst''

lemma finishCloser_closers (env : Env) (s : Sys) (k : Closer) : (finishCloser env s k).closers = s.closers := by
  cases k with
  | shutdown rx | close => rfl

lemma step_closers (h : step dbg s e = .ok s') :
    s'.closers = s.closers ∨ s.owner = .app ∨ ∃ i, s'.closers = s.closers.eraseIdx i := by
  cases e with
  | shutdown tx rx env | close env =>
    simp only [step] at h
    split at h
    · cases h
    · rename_i happ
      exact .inr (.inl (not_not.1 happ))
  | closeResume i env =>
    simp only [step] at h
    split at h
    · cases h
    split at h
    · cases h
    · cases h
      exact .inr (.inr ⟨i, finishCloser_closers ..⟩)
  | _ =>
    -- the other sections do not touch them
    left
    simp only [step, stepRead, stepReadFinish, stepWrite, Sys.defer] at h
    repeat' split at h
    all_goals cases h
    all_goals rfl

lemma finEnv_fresh (hfresh : s.owner.fresh) (hnil : s.closers = []) : finEnv s e = none := by
  have happ : s.owner ≠ .app := by
    rintro ho
    simp [ho, Owner.fresh] at hfresh
  cases e with
  | shutdown tx rx env | close env => simp [finEnv, happ]
  | closeResume i env => simp [finEnv, hnil]
  | _ => rfl

lemma fresh_closers_step (h : step dbg s e = .ok s')
    (hi : s.owner.fresh → s.closers = []) (hfresh : s'.owner.fresh) : s'.closers = [] := by
  have hown := step_fresh h hfresh
  rw [hown] at hfresh
  have hnil := hi hfresh
  rcases step_closers h with hsame | happ | ⟨i, herase⟩
  · rw [hsame, hnil]
  · simp [happ, Owner.fresh] at hfresh
  · rw [herase, hnil, List.eraseIdx_nil]

end Aspen.Tcp
