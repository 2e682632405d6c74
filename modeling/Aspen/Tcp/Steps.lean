import Aspen.Tcp.Ingress
import Aspen.Tcp.System

/-!
# The steps, one by one

`step` computes the state behind an event. `Stepped` has its outcomes, with what the critical sections do to the
connection written out, but for ingress, the rounds of a writer and the end of write exclusion.
-/

namespace Aspen.Tcp

open Run

/-! ## The sections in closed form -/

variable (now : Time) (c : Conn)

lemma tcpWriteFinishQueue_spec : ∃ q dfr, (tcpWriteFinishQueue now c).1 = { c with
        tx := { c.tx with
          q := q
          pending := if c.state = .closed then none else c.tx.pending
          doFastRetransmit := dfr } } ∧
      q.map span = (if c.state = .closed then [] else c.tx.q).map span := by
  unfold tcpWriteFinishQueue
  split
  · exact ⟨[], _, rfl, rfl⟩
  split
  · dsimp only
    split
    · obtain ⟨q, hq, hspan⟩ := tcpTxFastRetransmitStart_spec now { c with tx.doFastRetransmit := false }
      exact ⟨q, _, by rw [hq], hspan⟩
    · exact ⟨_, _, rfl, rfl⟩
  · exact ⟨_, _, rfl, rfl⟩

def Conn.finished (q : List Mbuf) (dfr : Bool) (t : Timers) : Conn :=
  { c with
    tx := { c.tx with
      exclusive := false
      q := q
      pending := if c.state = .closed then none else c.tx.pending
      doFastRetransmit := dfr }
    tmr := t }

/-- The end of write exclusion: what was acknowledged meanwhile leaves the queue, and everything leaves
it if the connection was closed meanwhile. -/
lemma tcpWriteFinish_spec : ∃ q dfr tmr, (tcpWriteFinish now c).1 = c.finished q dfr tmr ∧
      q.map span = (if c.state = .closed then []
        else c.tx.q.dropWhile fun m => !wrapsGt m.segEnd c.snd.una).map span := by
  unfold tcpWriteFinish
  simp only [tcpConnAck_eq, Bool.false_eq_true, if_false]
  have hrace : ∀ c1 : Conn, ∃ t, (if c1.rcv.nxt = c1.tx.lastAck
      then { c1 with tmr.ackDelayed := false } else { c1 with tmr.ackTs := now })
      = { c1 with tmr := t } := by
    intro c1
    split
    · exact ⟨_, rfl⟩
    · exact ⟨_, rfl⟩
  obtain ⟨t, ht⟩ := hrace { c with
    tx := { c.tx with
      exclusive := false
      q := c.tx.q.dropWhile fun m => !wrapsGt m.segEnd c.snd.una } }
  obtain ⟨q, dfr, hq, hspan⟩ := tcpWriteFinishQueue_spec now { c with
    tx := { c.tx with
      exclusive := false
      q := c.tx.q.dropWhile fun m => !wrapsGt m.segEnd c.snd.una }
    tmr := t }
  exact ⟨q, dfr, _, by rw [ht, hq]; rfl, hspan⟩

def finSent : State → State
  | .established => .finWait1
  | .closeWait => .lastAck
  | st => st

variable {env : Env} {c c' : Conn} {ret : Option Errno}

lemma tcpConnShutdownTx_cases (h : tcpConnShutdownTx env c = (c', ret)) :
    (env.alloc = false ∧ c' = c ∧ ret = some .enomem) ∨
    (env.alloc ∧ ret = env.tx ∧ ∃ (m : Mbuf) (t : Timers),
      m.segSeq = c.snd.nxt ∧ m.segEnd = c.snd.nxt + 1 ∧ m.flags = tcpFin ||| tcpAck ∧
      c' = { c with
        state := if ret.isNone then finSent c.state else c.state
        snd.nxt := c.snd.nxt + 1
        tx := { c.tx with
          lastAck := c.rcv.nxt
          lastWin := c.rcv.wnd
          closed := c.tx.closed || ret.isNone
          q := c.tx.q ++ [m]
          ctlLog := c.tx.ctlLog ++ [tcpFin ||| tcpAck] }
        tmr := t }) := by
  unfold tcpConnShutdownTx at h
  split at h
  · rename_i c1 err hctl
    cases h
    obtain ⟨ha, rfl, hret⟩ | ⟨ha, hret, m, h1, h2, h3, rfl⟩ := tcpTxCtl_cases hctl
    · exact .inl ⟨ha, rfl, hret⟩
    · exact .inr ⟨ha, hret, m, c.tmr, h1, h2, h3, by simp [tcpPushTcphdr]⟩
  · rename_i c1 hctl
    obtain ⟨-, -, hret⟩ | ⟨ha, hret, m, h1, h2, h3, rfl⟩ := tcpTxCtl_cases hctl
    · cases hret
    · cases h
      by_cases he : c.state = .established
      · exact .inr ⟨ha, hret, m, _, h1, h2, h3, by
          simp [tcpPushTcphdr, tcpConnSetState, tcpTimerUpdate, finSent, he]; rfl⟩
      · by_cases hw : c.state = .closeWait
        · exact .inr ⟨ha, hret, m, _, h1, h2, h3, by
            simp [tcpPushTcphdr, tcpConnSetState, tcpTimerUpdate, finSent, hw]; rfl⟩
        · have hst : finSent c.state = c.state := by
            cases hs : c.state <;> simp_all [finSent]
          exact .inr ⟨ha, hret, m, c.tmr, h1, h2, h3, by simp [tcpPushTcphdr, he, hw, hst]⟩

def Tx.put (tx : Tx) (q : List Mbuf) (pending : Option Mbuf) (a w : Seq) : Tx :=
  { tx with q := q, pending := pending, lastAck := a, lastWin := w }

def Conn.ctl (c : Conn) (nxt : Seq) (q : List Mbuf) (a w : Seq) (log : List Flags) : Conn :=
  { c with snd.nxt := nxt, tx := { c.tx.put q c.tx.pending a w with ctlLog := log } }

variable {flags : Flags}

lemma tcpTxCtl_eq {opts : Option TcpOptions}
    (h : tcpTxCtl env c flags opts = (c', ret)) : ∃ nxt q a w log, c' = c.ctl nxt q a w log := by
  obtain ⟨-, rfl, -⟩ | ⟨-, -, m, -, -, -, rfl⟩ := tcpTxCtl_cases h
  · exact ⟨_, _, _, _, _, rfl⟩
  · exact ⟨c.snd.nxt + 1, c.tx.q ++ [m], c.rcv.nxt, c.rcv.wnd, c.tx.ctlLog ++ [flags], rfl⟩

def Conn.fin (c : Conn) (st : State) (closed : Bool) (nxt : Seq) (q : List Mbuf) (a w : Seq) (log : List Flags)
    (t : Timers) : Conn :=
  { c.ctl nxt q a w log with
    state := st, tx := { c.tx.put q c.tx.pending a w with ctlLog := log, closed := closed }, tmr := t }

lemma tcpConnShutdownTx_eq (h : tcpConnShutdownTx env c = (c', ret)) :
    ∃ st closed nxt q a w log t, c' = c.fin st closed nxt q a w log t := by
  obtain ⟨-, rfl, -⟩ | ⟨-, -, m, t, -, -, -, rfl⟩ := tcpConnShutdownTx_cases h
  · exact ⟨_, _, _, _, _, _, _, _, rfl⟩
  · exact ⟨_, _, _, _, c.rcv.nxt, c.rcv.wnd, _, _, rfl⟩

def Numbered (env : Env) (flags : Flags) (c c' : Conn) : Prop := c'.snd = c.snd ∧ c'.tx.ctlLog = c.tx.ctlLog ∨
    env.alloc = true ∧ c'.snd = { c.snd with nxt := c.snd.nxt + 1 } ∧ c'.tx.ctlLog = c.tx.ctlLog ++ [flags]

lemma numbered_tcpTxCtl {opts : Option TcpOptions}
    (h : tcpTxCtl env c flags opts = (c', ret)) : Numbered env flags c c' := by
  obtain ⟨-, rfl, -⟩ | ⟨halloc, -, m, -, -, -, rfl⟩ := tcpTxCtl_cases h
  · exact .inl ⟨rfl, rfl⟩
  · exact .inr ⟨halloc, rfl, rfl⟩

lemma numbered_tcpConnShutdownTx
    (h : tcpConnShutdownTx env c = (c', ret)) : Numbered env (tcpFin ||| tcpAck) c c' := by
  obtain ⟨-, rfl, -⟩ | ⟨halloc, -, m, t, -, -, -, rfl⟩ := tcpConnShutdownTx_cases h
  · exact .inl ⟨rfl, rfl⟩
  · exact .inr ⟨halloc, rfl, rfl⟩

lemma Numbered.failed (h : Numbered env flags c c') (now : Time)
    (err : Errno) : Numbered env flags c (tcpConnFail now err c') := by
  rw [tcpConnFail_eq]
  exact h

lemma tcpTxSendRound_eq (env : Env) (c : Conn) (rest : List UInt8) (push : Bool) : ∃ nxt q pending a w,
    (tcpTxSendRound env c rest push).1 = { c with snd.nxt := nxt, tx := c.tx.put q pending a w } := by
  obtain ⟨h, -, -⟩ | ⟨m, n, -, -, -, ⟨-, -, h⟩ | ⟨-, _, _, h⟩⟩ :=
    tcpTxSendRound_cases (Eq.refl (tcpTxSendRound env c rest push))
  all_goals exact ⟨_, _, _, _, _, h⟩

lemma tcpWriteBlocks_eq_false (h : tcpWriteBlocks c = false) (hclosed : c.tx.closed = false) :
    c.state.opening = false ∧ c.tx.exclusive = false ∧ tcpIsSndFull c = false := by
  simp only [tcpWriteBlocks, hclosed, Bool.not_false, Bool.true_and, Bool.or_eq_false_iff] at h
  exact ⟨h.1.1, h.1.2, h.2⟩

/-! ## Outcomes -/

lemma minSeq_le (a b : Seq) : (minSeq a b).toNat ≤ b.toNat := by
  unfold minSeq
  split <;> bv_omega

lemma wscale_toNat_le (o : ParsedOptions) : (o.wscale.setWidth 32 : Seq).toNat ≤ 14 := by
  have := o.wscale_le
  rw [BitVec.toNat_setWidth]
  exact (Nat.mod_le _ _).trans this

def Owner.fresh : Owner → Bool
  | .dialing _ => true
  | .listening _ => true
  | _ => false

/-- A connection on which nothing has been sent, nor received but a SYN. -/
def freshConn (iss mtu : Seq) (attachTs : Time) (mss wscale : Seq) (rcv : Rcv) (winmax : Seq) (nonblocking : Bool) :
    Conn :=
  { tcpConnAlloc iss mtu attachTs with
    snd := { (tcpConnAlloc iss mtu attachTs).snd with mss := mss, wscale := wscale }
    rcv := rcv, winmax := winmax, nonblocking := nonblocking }

lemma initial_eq {s : Sys} (h : Initial s) : ∃ iss mtu attachTs mss wscale rcv winmax nonblocking o,
    Owner.fresh o ∧ wscale.toNat ≤ 14 ∧ rcv.wnd.toNat ≤ 131071 ∧
    s = { c := freshConn iss mtu attachTs mss wscale rcv winmax nonblocking, owner := o } := by
  cases h with
  | dial iss mtu attachTs nonblocking => exact ⟨iss, mtu, attachTs, _, _, _, _, _, _, rfl, Nat.zero_le _, le_rfl, rfl⟩
  | @listen iss mtu attachTs p c opts hl =>
    obtain ⟨o, rfl⟩ := tcpRxListener_attached hl
    rw [applyOptions_eq]
    refine ⟨iss, mtu, attachTs, _, _, _, _, _, _, rfl, wscale_toNat_le o, ?_, rfl⟩
    split
    · exact le_rfl
    · exact (minSeq_le _ _).trans (by decide)

/-- The environment of the section that sends a FIN, if the event is one: `tcp_conn_shutdown_tx` behind
its wait. -/
def finEnv (s : Sys) : Event → Option Env
  | .shutdown tx _ env =>
    if s.owner = .app ∧ tx = true ∧ s.c.tx.closed = false ∧ s.c.tx.exclusive = false then some env
    else none
  | .close env =>
    if s.owner = .app ∧ s.c.tx.closed = false ∧ s.c.tx.exclusive = false then some env else none
  | .closeResume i env =>
    if s.closers[i]?.isSome = true ∧ s.c.tx.exclusive = false then some env else none
  | _ => none

def closesRx (s : Sys) : Event → Bool
  | .shutdown _ rx _ => rx
  | .close _ => true
  | .closeResume i _ => match s.closers[i]? with
    | some (.shutdown rx) => rx
    | _ => true
  | _ => false

def Conn.winlen (c : Conn) : ℕ := (c.snd.una + c.snd.wnd - c.snd.nxt).toNat

inductive Starts (winlen : ℕ) : Event → Option Send → Prop
  | write (buf : List UInt8) : Starts winlen (.write buf) (some (tcpWriteStart buf winlen))
  | writev (iov : List (List UInt8)) : Starts winlen (.writev iov) (tcpWritevNext iov winlen 0)

/-- A caller of `tcp_conn_shutdown_tx`: an event, who waits, and the owner and the other waiting callers when it goes
on. -/
inductive Closes (s : Sys) : Event → Closer → Owner → List Closer → Prop
  | shutdown {rx : Bool} {env : Env} (ho : s.owner = .app) (hopen : s.c.tx.closed = false) :
      Closes s (.shutdown true rx env) (.shutdown rx) s.owner s.closers
  | close {env : Env} (ho : s.owner = .app) (hopen : s.c.tx.closed = false) :
      Closes s (.close env) .close .closing s.closers
  | resume {i : ℕ} {env : Env} {k : Closer} (hk : s.closers[i]? = some k) :
      Closes s (.closeResume i env) k s.owner (s.closers.eraseIdx i)

inductive Opens (s : Sys) : Event → Env → Flags → TcpOptions → State → Owner → Prop
  | dial {nonblocking : Bool} {env : Env} (ho : s.owner = .dialing nonblocking) :
      Opens s (.dialSyn env) env tcpSyn (dialOptions s.c) .synSent (if nonblocking then .app else .dialWait)
  | listen {opts : TcpOptions} {env : Env} (ho : s.owner = .listening opts) :
      Opens s (.listenSyn env) env (tcpSyn ||| tcpAck) opts .synReceived .queued

/-- A connection that does without its reference count. -/
inductive Discards (s : Sys) : Event → Prop
  | dial (ho : s.owner = .dialWait) (hclosed : s.c.tx.closed = true) : Discards s .dialResume
  | queue (ho : s.owner = .queued) : Discards s .qclose

inductive Stepped (dbg : Bool) (s : Sys) : Event → Sys → Prop
  | idle {e : Event} : Stepped dbg s e s
  | load {p : Packet} {r : RxSeg} (hr : tcpRxConnLoad s.c p = some r) :
      Stepped dbg s (.rxLoad p) { s with inflight := s.inflight ++ [r] }
  | ingress {i : ℕ} {env : Env} {r : RxSeg} {o : RxOut} (hr : s.inflight[i]? = some r)
      (ho : tcpRxConnLocked dbg env s.c r = .ok o) :
      Stepped dbg s (.rxLocked i env)
        ({ s with c := o.c, inflight := s.inflight.eraseIdx i }.defer o.doAck o.retransmit.isSome)
  | acked {env : Env} {a w : Seq}
      (hc : tcpTxAck env s.c = { s.c with tx.lastAck := a, tx.lastWin := w }) :
      Stepped dbg s (.txAck env)
        { s with c := { s.c with tx.lastAck := a, tx.lastWin := w }, acks := s.acks - 1 }
  | probed {env : Env} {a w : Seq}
      (hc : tcpTxAck env s.c = { s.c with tx.lastAck := a, tx.lastWin := w }) :
      Stepped dbg s (.txResend env)
        { s with c := { s.c with tx.lastAck := a, tx.lastWin := w }, resends := s.resends - 1 }
  | readClosed {e : Event} {ret : ReadRet} (hidle : s.reader = none) (hclosed : s.c.rx.closed = true)
      (hret : ret = .zero ∨ s.c.err ≠ none) (hdata : ∀ bytes, ret ≠ .bytes bytes) :
      Stepped dbg s e { s with reads := s.reads ++ [ret] }
  | reading {e : Event} {len : ℕ} {iov : Option (List ℕ)} {p : Popped} {doAck : Bool} {reader : Option ReadCall}
      {reads : List ReadRet}
      (he : e = .read len ∧ iov = none ∨ ∃ lens, e = .readv lens ∧ len = lens.sum ∧ iov = some lens)
      (hidle : s.reader = none) (hopen : s.c.rx.closed = false)
      (hready : s.c.rx.exclusive = false ∧ s.c.rx.q ≠ []) (hp : popRead len s.c.rx.q 0 = p)
      (hrest : p.readlen = 0 ∧ reader = none ∧ reads = s.reads ++ [.zero] ∨ p.readlen ≠ 0 ∧ reads = s.reads ∧
          reader = some { len := len, iov := iov, q := p.q, part := p.part }) :
      Stepped dbg s e { s with
        c := { s.c with
          rcv := { s.c.rcv with wnd := s.c.rcv.wnd + BitVec.ofNat 32 p.readlen }
          rx := { s.c.rx with closed := p.fin, q := p.rxq, exclusive := p.part } }
        acks := s.acks + doAck.toNat
        reader := reader
        reads := reads }
  | readDone {r : ReadCall} {bytes : List UInt8} {n : ℕ} {q : List Mbuf} {x : Bool} (hr : s.reader = some r)
      (hcopy : (bytes, n) = match r.iov with
        | none => tcpReadCopy r.len r.q (if r.part then s.c.rx.q.head? else none)
        | some lens => tcpReadvCopy lens r.q (if r.part then s.c.rx.q.head? else none))
      (hc : tcpReadFinish s.c r.part n = { s.c with rx.q := q, rx.exclusive := x }) :
      Stepped dbg s .readFinish { s with
        c := { s.c with rx.q := q, rx.exclusive := x }
        reader := none
        reads := s.reads ++ [.bytes bytes] }
  | armed {now : Time} {t : Timers} (hack : t.ackDelayed = s.c.tmr.ackDelayed)
      (hnext : t = s.c.tmr ∨ t.nextTimeout = nextTimeout now { s.c with tmr := t }) :
      Stepped dbg s (.writeBlock now) { s with c := { s.c with tmr := t } }
  | writeClosed {e : Event} : Stepped dbg s e { s with c := { s.c with tmr.zeroWnd := false } }
  | writing {e : Event} {next : Option Send} (ho : s.owner = .app) (hopen : s.c.tx.closed = false)
      (hblock : tcpWriteBlocks s.c = false) (hnext : Starts s.c.winlen e next) :
      Stepped dbg s e { s with
        c := { s.c with
          tx := { s.c.tx with exclusive := true }
          tmr := { s.c.tmr with zeroWnd := false, acksDelayedCnt := 0, ackDelayed := false } }
        writer := some (.send next) }
  | sent {env : Env} {snd : Send} {rest : List UInt8} {r : SendRound} {nxt a w : Seq} {q : List Mbuf}
      {pending : Option Mbuf} (hw : s.writer = some (.send (some snd)))
      (hr : tcpTxSendRound env s.c snd.rest snd.push =
        ({ s.c with snd.nxt := nxt, tx := s.c.tx.put q pending a w }, rest, r)) :
      Stepped dbg s (.sendRound env) { s with
        c := { s.c with snd.nxt := nxt, tx := s.c.tx.put q pending a w }
        writer := some (.send (sendNext snd rest r)) }
  | finished {now : Time} {rtPut resends : ℕ} {q : List Mbuf} {dfr : Bool} {t : Timers}
      (hw : s.writer = some (.send none) ∧ rtPut = s.rtPut ∨
        (∃ t, s.writer = some (.retransmit none t)) ∧ rtPut = s.rtPut + 1)
      (hc : (tcpWriteFinish now s.c).1 = s.c.finished q dfr t)
      (hq : q.map span = (if s.c.state = .closed then []
        else s.c.tx.q.dropWhile fun m => !wrapsGt m.segEnd s.c.snd.una).map span) :
      Stepped dbg s (.writeFinish now)
        { s with c := s.c.finished q dfr t, writer := none, rtPut := rtPut, resends := resends }
  | closedRx {tx rx : Bool} {env : Env} : Stepped dbg s (.shutdown tx rx env)
        { s with c := { s.c with rx.closed := s.c.rx.closed || rx } }
  | closed {env : Env} (ho : s.owner = .app) (hclosed : s.c.tx.closed = true) :
      Stepped dbg s (.close env) { s with c := { s.c with rx.closed := true }, owner := .closePut }
  | sleeping {e : Event} {k : Closer} {o : Owner} (happ : s.owner = .app) (hbusy : s.c.tx.exclusive = true)
      (ho : k ≠ .close ∧ o = s.owner ∨ k = .close ∧ o = .closing) :
      Stepped dbg s e { s with owner := o, closers := s.closers ++ [k] }
  | shutdown {e : Event} {env : Env} {rx closed : Bool} {o : Owner} {closers : List Closer} {ret : Option Errno}
      {st : State} {nxt a w : Seq} {q : List Mbuf} {log : List Flags} {t : Timers}
      (hk : Closes s e (.shutdown rx) o closers) (he : finEnv s e = some env)
      (htx : tcpConnShutdownTx env s.c = (s.c.fin st closed nxt q a w log t, ret)) :
      Stepped dbg s e { s with
        c := { s.c.fin st closed nxt q a w log t with rx.closed := s.c.rx.closed || ret.isNone && rx }
        closers := closers }
  | close {e : Event} {env : Env} {closed : Bool} {o : Owner} {closers : List Closer} {st : State} {nxt a w : Seq}
      {q : List Mbuf} {log : List Flags} {t : Timers} (hk : Closes s e .close o closers) (he : finEnv s e = some env)
      (htx : tcpConnShutdownTx env s.c = (s.c.fin st closed nxt q a w log t, none)) :
      Stepped dbg s e { s with
        c := { s.c.fin st closed nxt q a w log t with rx.closed := true }
        owner := .closePut
        closers := closers }
  | closeFailed {e : Event} {env : Env} {closed : Bool} {o : Owner} {closers : List Closer} {err : Errno} {st : State}
      {nxt a w : Seq} {q : List Mbuf} {log : List Flags} {t : Timers} (hk : Closes s e .close o closers)
      (he : finEnv s e = some env)
      (htx : tcpConnShutdownTx env s.c = (s.c.fin st closed nxt q a w log t, some err)) :
      Stepped dbg s e { s with
        c := tcpConnFail env.now err (s.c.fin st closed nxt q a w log t)
        owner := .closePut
        closers := closers }
  | released (ho : s.owner = .closePut) :
      Stepped dbg s .closePut { s with
        c := { s.c with ref := s.c.ref - 1, destroys := s.c.destroys + if s.c.ref - 1 = 0 then 1 else 0 }
        owner := .released }
  | failed {e : Event} {now : Time} {err : Errno} (he : s.c.state ≠ .closed ∨ e = .connErr now err) :
      Stepped dbg s e { s with c := tcpConnFail now err s.c }
  | expired {now next : Time} {spawn : Bool} (hst : s.c.state = .timeWait) : Stepped dbg s (.timeout now spawn)
        { s with c := { s.c with state := .closed, tmr.nextTimeout := next }, workerPut := s.workerPut + 1 }
  | timed {now : Time} {spawn doAck doProbe doRetransmit : Bool} {t : Timers} (hst : s.c.state ≠ .closed)
      (hnext : t.nextTimeout = nextTimeout now { s.c with tmr := t })
      (hack : t.ackDelayed = s.c.tmr.ackDelayed ∨ doAck = true) :
      Stepped dbg s (.timeout now spawn) { s with
        c := { s.c with tmr := t, ref := if doRetransmit then s.c.ref + 1 else s.c.ref }
        acks := s.acks + doAck.toNat
        resends := s.resends + doProbe.toNat
        rtWait := s.rtWait + (doRetransmit && spawn).toNat }
  | workerPut (hput : s.workerPut ≠ 0) :
      Stepped dbg s .workerPut { s with
        c := { s.c with
          ref := s.c.ref - 1
          smDrops := s.c.smDrops + 1
          destroys := s.c.destroys + if s.c.ref - 1 = 0 then 1 else 0 }
        workerPut := s.workerPut - 1 }
  | rtClosed {now : Time} (hwait : s.rtWait ≠ 0) :
      Stepped dbg s (.rtStart now) { s with rtWait := s.rtWait - 1, rtPut := s.rtPut + 1 }
  | resending {now : Time} (hwait : s.rtWait ≠ 0) (hst : s.c.state ≠ .closed) (hfree : s.c.tx.exclusive = false) :
      Stepped dbg s (.rtStart now) { s with
        c := { s.c with tx := { s.c.tx with exclusive := true } }
        writer := some (.retransmit (some (0, 0)) now)
        rtWait := s.rtWait - 1 }
  | resent {env : Env} {busy : Bool} {i count : ℕ} {now : Time} {r : RetransmitRound} {pos : Option (ℕ × ℕ)} {a w : Seq}
      {q : List Mbuf} (hw : s.writer = some (.retransmit (some (i, count)) now))
      (hr : tcpTxRetransmitRound now env busy s.c i = .ok ({ s.c with tx := s.c.tx.put q s.c.tx.pending a w }, r)) :
      Stepped dbg s (.rtRound env busy) { s with
        c := { s.c with tx := s.c.tx.put q s.c.tx.pending a w }
        writer := some (.retransmit pos now) }
  | rtPut (hput : s.rtPut ≠ 0) :
      Stepped dbg s .rtPut { s with
        c := { s.c with ref := s.c.ref - 1, destroys := s.c.destroys + if s.c.ref - 1 = 0 then 1 else 0 }
        rtPut := s.rtPut - 1 }
  | opened {e : Event} {env : Env} {flags : Flags} {opts : TcpOptions} {st : State} {o : Owner} {nxt a w : Seq}
      {q : List Mbuf} {log : List Flags} {t : Timers} (ho : Opens s e env flags opts st o)
      (hctl : tcpTxCtl env s.c flags (some opts) = (s.c.ctl nxt q a w log, none))
      (hnext : t.nextTimeout = nextTimeout env.now { s.c.ctl nxt q a w log with state := st, tmr := t }) :
      Stepped dbg s e { s with
        c := { s.c.ctl nxt q a w log with
          state := st, tmr := t, smGets := s.c.smGets + 1, ref := s.c.ref + 1 }
        owner := o }
  | openFailed {e : Event} {env : Env} {flags : Flags} {opts : TcpOptions} {st : State} {o : Owner} {nxt a w : Seq}
      {q : List Mbuf} {log : List Flags} {err : Errno} (ho : Opens s e env flags opts st o)
      (hctl : tcpTxCtl env s.c flags (some opts) = (s.c.ctl nxt q a w log, some err)) :
      Stepped dbg s e { s with
        c := { s.c.ctl nxt q a w log with destroys := s.c.destroys + 1 }
        owner := .released }
  | discarded {e : Event} (ho : Discards s e) :
      Stepped dbg s e { s with c := { s.c with destroys := s.c.destroys + 1 }, owner := .released }
  | owned {e : Event} (ho : s.owner = .dialWait ∨ s.owner = .queued) : Stepped dbg s e { s with owner := .app }

/-! ## The calls -/

section
variable {dbg : Bool} {s s' : Sys} {e : Event}

lemma tcpTxAck_eq (env : Env) (c : Conn) : ∃ a w, tcpTxAck env c = { c with tx.lastAck := a, tx.lastWin := w } := by
  unfold tcpTxAck tcpPushTcphdr
  split
  · exact ⟨_, _, rfl⟩
  · exact ⟨_, _, rfl⟩

lemma tcpReadFinish_eq (c : Conn) (part : Bool) (n : ℕ) :
    ∃ q x, tcpReadFinish c part n = { c with rx.q := q, rx.exclusive := x } := by
  unfold tcpReadFinish
  split
  · exact ⟨_, _, rfl⟩
  · exact ⟨_, _, rfl⟩

lemma tcpShutdownRest_eq (rx : Bool) (c : Conn) (ret : Option Errno) :
    tcpShutdownRest rx c ret = { c with rx.closed := c.rx.closed || ret.isNone && rx } := by
  unfold tcpShutdownRest tcpConnShutdownRx
  split
  · rename_i hrx
    rw [hrx, Bool.or_true]
  · rename_i hrx
    rw [Bool.eq_false_iff.2 hrx, Bool.or_false]

lemma tcpWriteArm_eq (c : Conn) : ∃ t, tcpWriteArm now c = { c with tmr := t } ∧
    t.ackDelayed = c.tmr.ackDelayed ∧ (t = c.tmr ∨ t.nextTimeout = nextTimeout now { c with tmr := t }) := by
  unfold tcpWriteArm tcpTimerUpdate
  split
  · exact ⟨_, rfl, rfl, .inr rfl⟩
  · exact ⟨_, rfl, rfl, .inl rfl⟩

lemma tcpReadWait_eq (c : Conn) (len : ℕ) (hopen : c.rx.closed = false) (hfree : c.rx.exclusive = false) :
    (tcpReadWait c len).1 = { c with
      rcv := { c.rcv with wnd := c.rcv.wnd + BitVec.ofNat 32 (popRead len c.rx.q 0).readlen }
      rx := { c.rx with
        closed := (popRead len c.rx.q 0).fin
        q := (popRead len c.rx.q 0).rxq
        exclusive := (popRead len c.rx.q 0).part } } := by
  unfold tcpReadWait tcpConnShutdownRx
  dsimp only
  split
  · rename_i hfin
    simp [hfin, hfree]
  · rename_i hfin
    simp [hfin, hfree, hopen]

lemma stepped_stepRead {len : ℕ} {iov : Option (List ℕ)}
    (he : e = .read len ∧ iov = none ∨ ∃ lens, e = .readv lens ∧ len = lens.sum ∧ iov = some lens)
    (h : stepRead s len iov = .ok s') : Stepped dbg s e s' := by
  unfold stepRead at h
  split at h
  · cases h
  rename_i hgo
  simp only [ne_eq, not_or, not_not, Bool.not_eq_true, Option.isSome_eq_false_iff, Option.isNone_iff_eq_none] at hgo
  obtain ⟨-, hidle, hblock⟩ := hgo
  split at h
  · rename_i hclosed
    cases h
    refine .readClosed hidle hclosed ?_ ?_ <;> cases hs : s.c.err <;> simp
  rename_i hclosed
  have hopen : s.c.rx.closed = false := by simpa using hclosed
  have hready : s.c.rx.exclusive = false ∧ s.c.rx.q ≠ [] := by
    simpa [tcpReadBlocks, hopen] using hblock
  have hc := tcpReadWait_eq s.c len hopen hready.1
  dsimp only [Sys.defer] at h
  rw [hc] at h
  split at h
  · rename_i hzero
    cases h
    exact .reading he hidle hopen hready rfl (.inl ⟨hzero, hidle, rfl⟩)
  · rename_i hzero
    cases h
    exact .reading he hidle hopen hready rfl (.inr ⟨hzero, rfl, rfl⟩)

lemma stepped_stepWrite {start : ℕ → Option Send} (hstart : ∀ winlen, Starts winlen e (start winlen))
    (h : stepWrite s start = .ok s') : Stepped dbg s e s' := by
  unfold stepWrite tcpWriteWait at h
  split at h
  · cases h
  rename_i hgo
  simp only [ne_eq, not_or, not_not, Bool.not_eq_true] at hgo
  by_cases hclosed : s.c.tx.closed
  · rw [if_pos hclosed] at h
    cases h
    exact .writeClosed
  · rw [if_neg hclosed] at h
    cases h
    exact .writing hgo.1 (by simpa using hclosed) hgo.2 (hstart _)

lemma stepped_finishCloser {k : Closer} {o : Owner} {closers : List Closer}
    (hk : Closes s e k o closers) (he : finEnv s e = some env) (ho : k = .close ∨ o = s.owner) :
    Stepped dbg s e (finishCloser env { s with owner := o, closers := closers } k) := by
  cases htx : tcpConnShutdownTx env s.c with
  | mk c1 ret =>
    obtain ⟨st, closed, nxt, q, a, w, log, t, rfl⟩ := tcpConnShutdownTx_eq htx
    cases k with
    | shutdown rx =>
      cases ho.resolve_left nofun
      simp only [finishCloser, htx, tcpShutdownRest_eq]
      exact .shutdown hk he htx
    | close =>
      simp only [finishCloser, htx]
      cases ret with
      | none => exact .close hk he htx
      | some err =>
        have hrest (c : Conn) : tcpCloseRest env.now c (some err) = tcpConnFail env.now err c := by
          simp [tcpCloseRest, tcpConnShutdownRx, tcpConnFail_eq]
        rw [hrest]
        exact .closeFailed hk he htx

lemma stepped_startCloser {k : Closer} {o : Owner} (hk : Closes s e k o s.closers) (happ : s.owner = .app)
    (he : s.c.tx.exclusive = false → finEnv s e = some env)
    (ho : k ≠ .close ∧ o = s.owner ∨ k = .close ∧ o = .closing) :
    Stepped dbg s e (startCloser env { s with owner := o } k) := by
  unfold startCloser
  split
  · rename_i hbusy
    exact .sleeping happ hbusy ho
  · rename_i hfree
    exact stepped_finishCloser hk (he (by simpa using hfree)) (ho.symm.imp And.left And.right)

lemma stepped_openConn {opts : TcpOptions} {st : State} {o : Owner} {c1 : Conn} (ho : Opens s e env flags opts st o) (h : openConn env s.c flags opts st = (c1, ret)) :
    Stepped dbg s e { s with c := c1, owner := if ret.isSome then .released else o } := by
  unfold openConn at h
  split at h
  · rename_i hctl
    cases h
    obtain ⟨nxt, q, a, w, log, rfl⟩ := tcpTxCtl_eq hctl
    exact .openFailed ho hctl
  · rename_i hctl
    cases h
    obtain ⟨nxt, q, a, w, log, rfl⟩ := tcpTxCtl_eq hctl
    exact .opened ho hctl rfl

lemma stepped_timeout (spawn : Bool) : Stepped dbg s (.timeout now spawn) ({ s with
      c := (tcpHandleTimeouts now s.c).c
      workerPut := s.workerPut + (tcpHandleTimeouts now s.c).put.toNat
      rtWait := s.rtWait + ((tcpHandleTimeouts now s.c).doRetransmit && spawn).toNat }.defer
        (tcpHandleTimeouts now s.c).doAck (tcpHandleTimeouts now s.c).doProbe) := by
  unfold tcpHandleTimeouts
  split
  · exact .idle
  rename_i hst
  split
  · exact .failed (.inl hst)
  split
  · rename_i hexp
    exact .expired hexp.1
  · let t (a b : Bool) : Timers :=
      { s.c.tmr with ackDelayed := !a && s.c.tmr.ackDelayed, zeroWndTs := if b then now else s.c.tmr.zeroWndTs }
    have hc (a b d : Bool) : tcpTimerUpdate now (let c1 := if a then { s.c with tmr.ackDelayed := false } else s.c
         let c2 := if b then { c1 with tmr.zeroWndTs := now } else c1
         if d then tcpConnGet c2 else c2) = { s.c with
          tmr := { t a b with nextTimeout := nextTimeout now { s.c with tmr := t a b } }
          ref := if d then s.c.ref + 1 else s.c.ref } := by
      cases a <;> cases b <;> cases d <;> rfl
    dsimp only
    rw [hc]
    refine .timed hst rfl ?_
    cases s.c.tmr.ackDelayed && decide (tcpAckTimeout ≤ now - s.c.tmr.ackTs)
    · exact .inl rfl
    · exact .inr rfl

/-- What each atomic section does to the connection. -/
lemma stepped (h : step dbg s e = .ok s') : Stepped dbg s e s' := by
  cases e with
  | rxLoad p =>
    simp only [step] at h
    split at h <;> cases h
    · exact .idle
    · rename_i hr
      exact .load hr
  | rxLocked i env =>
    simp only [step] at h
    split at h
    · cases h
    rename_i hr
    split at h
    · cases h
    rename_i ho
    cases h
    exact .ingress hr ho
  | txAck env =>
    obtain ⟨-, h⟩ := guard_not_eq_ok.1 h
    cases h
    obtain ⟨a, w, hc⟩ := tcpTxAck_eq env s.c
    rw [hc]
    exact .acked hc
  | txResend env =>
    obtain ⟨-, h⟩ := guard_not_eq_ok.1 h
    cases h
    obtain ⟨a, w, hc⟩ := tcpTxAck_eq env s.c
    rw [hc]
    exact .probed hc
  | read len => exact stepped_stepRead (.inl ⟨rfl, rfl⟩) h
  | readv iov => exact stepped_stepRead (.inr ⟨iov, rfl, rfl, rfl⟩) h
  | readFinish =>
    simp only [step, stepReadFinish] at h
    split at h <;> cases h
    rename_i hr
    obtain ⟨q, x, hc⟩ := tcpReadFinish_eq s.c _ _
    rw [hc]
    exact .readDone hr rfl hc
  | writeBlock now =>
    obtain ⟨-, h⟩ := guard_eq_ok.1 h
    cases h
    obtain ⟨t, hc, hack, hnext⟩ := tcpWriteArm_eq now s.c
    rw [hc]
    exact .armed hack hnext
  | write buf => exact stepped_stepWrite (fun _ => .write buf) h
  | writev iov => exact stepped_stepWrite (fun _ => .writev iov) h
  | sendRound env =>
    simp only [step] at h
    split at h <;> cases h
    rename_i snd hw
    obtain ⟨nxt, q, pending, a, w, hc⟩ := tcpTxSendRound_eq env s.c snd.rest snd.push
    rw [hc]
    exact .sent hw (Prod.ext hc rfl)
  | writeFinish now =>
    obtain ⟨q, dfr, t, hc, hq⟩ := tcpWriteFinish_spec now s.c
    simp only [step, hc] at h
    split at h <;> cases h
    · rename_i hw
      exact .finished (.inl ⟨hw, rfl⟩) hc hq
    · rename_i hw
      exact .finished (.inr ⟨⟨_, hw⟩, rfl⟩) hc hq
  | shutdown tx rx env =>
    obtain ⟨happ, h⟩ := guard_not_eq_ok.1 h
    rw [not_not] at happ
    split at h <;> cases h
    · rename_i hgo
      simp only [Bool.and_eq_true, Bool.not_eq_true'] at hgo
      obtain ⟨rfl, hopen⟩ := hgo
      exact stepped_startCloser (.shutdown happ hopen) happ (fun hx => by simp [finEnv, happ, hopen, hx])
        (.inl ⟨nofun, rfl⟩)
    · rw [tcpShutdownRest_eq]
      exact .closedRx
  | close env =>
    obtain ⟨happ, h⟩ := guard_not_eq_ok.1 h
    rw [not_not] at happ
    split at h <;> cases h
    · rename_i hclosed
      exact .closed happ hclosed
    · rename_i hopen
      rw [Bool.not_eq_true] at hopen
      exact stepped_startCloser (.close happ hopen) happ (fun hx => by simp [finEnv, happ, hopen, hx])
        (.inr ⟨rfl, rfl⟩)
  | closeResume i env =>
    simp only [step] at h
    split at h
    · cases h
    rename_i hk
    split at h <;> cases h
    rename_i hfree
    exact stepped_finishCloser (.resume hk) (by simpa [finEnv, hk] using hfree) (.inr rfl)
  | closePut =>
    obtain ⟨ho, h⟩ := guard_eq_ok.1 h
    cases h
    rw [tcpConnPut_eq]
    exact .released ho
  | abort now =>
    obtain ⟨-, h⟩ := guard_not_eq_ok.1 h
    split at h <;> cases h
    · exact .idle
    · rename_i hst
      exact .failed (.inl hst)
  | timeout now spawn =>
    cases h
    exact stepped_timeout now spawn
  | workerPut =>
    obtain ⟨hput, h⟩ := guard_not_eq_ok.1 h
    cases h
    rw [tcpConnPutSm_eq]
    exact .workerPut hput
  | rtStart now =>
    obtain ⟨hwait, h⟩ := guard_not_eq_ok.1 h
    split at h
    · cases h
      exact .rtClosed hwait
    · rename_i hst
      obtain ⟨hfree, h⟩ := guard_not_eq_ok.1 h
      cases h
      exact .resending hwait hst (by simpa using hfree)
  | rtRound env busy =>
    simp only [step] at h
    split at h
    · rename_i hw
      split at h <;> cases h
      rename_i hr
      obtain rfl | ⟨m, m', _, _, -, -, -, -, rfl⟩ := tcpTxRetransmitRound_cases hr
      · exact .resent hw hr
      · exact .resent hw hr
    · cases h
  | rtPut =>
    obtain ⟨hput, h⟩ := guard_not_eq_ok.1 h
    cases h
    rw [tcpConnPut_eq]
    exact .rtPut hput
  | connErr now err =>
    cases h
    exact .failed (.inr rfl)
  | dialSyn env =>
    simp only [step] at h
    split at h
    · rename_i ho
      split at h <;> cases h
      all_goals
        rename_i hopen
        exact stepped_openConn (.dial ho) hopen
    · cases h
  | dialResume =>
    obtain ⟨hgo, h⟩ := guard_eq_ok.1 h
    split at h <;> cases h
    · rename_i hclosed
      exact .discarded (.dial hgo.1 hclosed)
    · exact .owned (.inl hgo.1)
  | listenSyn env =>
    simp only [step] at h
    split at h
    · rename_i ho
      split at h <;> cases h
      all_goals
        rename_i hopen
        exact stepped_openConn (.listen ho) hopen
    · cases h
  | accept =>
    obtain ⟨ho, h⟩ := guard_eq_ok.1 h
    cases h
    exact .owned (.inr ho)
  | qclose =>
    obtain ⟨ho, h⟩ := guard_eq_ok.1 h
    cases h
    exact .discarded (.queue ho)

end

end Aspen.Tcp
