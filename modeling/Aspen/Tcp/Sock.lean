import Aspen.Tcp.In

/-!
# The socket calls

The critical sections of `runtime/net/tcp.c` behind `tcp_read`, `tcp_write`, `tcp_shutdown`, `tcp_close`
and the timeout worker.
-/

namespace Aspen.Tcp

/-! ## Reading -/

/-- What the loop of `tcp_read_wait` takes off the RX queue. -/
structure Popped where
  rxq : List Mbuf
  q : List Mbuf
  /-- is the head of `rxq` read in part (`*mout`)? -/
  part : Bool
  readlen : ℕ
  fin : Bool

def popRead (len : ℕ) : List Mbuf → ℕ → Popped
  | [], readlen => { rxq := [], q := [], part := false, readlen := readlen, fin := false }
  | m :: rxq, readlen =>
    let fin := hasFlag m.flags tcpFin
    if len ≤ readlen then
      { rxq := m :: rxq, q := [], part := false, readlen := readlen, fin := false }
    else if fin && mbufLength m == 0 then
      { rxq := m :: rxq, q := [], part := false, readlen := readlen, fin := true }
    else if len - readlen < mbufLength m then
      { rxq := m :: rxq, q := [], part := true, readlen := len, fin := fin }
    else
      let p := popRead len rxq (readlen + mbufLength m)
      { p with q := m :: p.q, fin := fin || p.fin }

variable (now : Time) (c : Conn)

/-- Would `tcp_read_wait` sleep (or return `-EAGAIN`)? -/
def tcpReadBlocks : Bool := !c.rx.closed && (c.rx.exclusive || c.rx.q.isEmpty)

/-- The critical section of `tcp_read_wait` once it neither sleeps nor finds the socket closed. -/
def tcpReadWait (len : ℕ) : Conn × Popped := let p := popRead len c.rx.q 0
  let c := if p.fin then tcpConnShutdownRx c else c
  ({ c with
      rx.q := p.rxq
      rx.exclusive := c.rx.exclusive || p.part
      rcv.wnd := c.rcv.wnd + BitVec.ofNat 32 p.readlen }, p)

def tcpReadAcks : Bool := wrapsGte (c.rcv.nxt + c.rcv.wnd) (c.tx.lastAck + c.tx.lastWin + c.winmax / 4)

/-- Take `n` bytes off the head of the RX queue without the lock. -/
def pullHead (n : ℕ) : List Mbuf → List Mbuf
  | [] => []
  | m :: rxq =>
    { m with data := m.data.drop n, segSeq := m.segSeq + BitVec.ofNat 32 n } :: rxq

/-- The bytes `tcp_read` copies out, and how many of them come from the head of the RX queue. -/
def tcpReadCopy (len : ℕ) (q : List Mbuf) (part : Option Mbuf) : List UInt8 × ℕ := let bytes := q.flatMap Mbuf.data
  match part with
  | none => (bytes, 0)
  | some m =>
    let cpylen := len - bytes.length
    (bytes ++ m.data.take cpylen, cpylen)

/-- The cursor of `tcp_readv`: the vectors from `iov[i]` on, and the offset into the first. -/
structure IovCursor where
  lens : List ℕ
  offset : ℕ

/-- Copy one buffer completely: the `do` loop of `tcp_readv` over `cur`. -/
def copyCur : List ℕ → ℕ → List UInt8 → List UInt8 × IovCursor
  | [], offset, _ => ([], ⟨[], offset⟩)
  | l :: lens, offset, data =>
    let cpylen := min (l - offset) data.length
    let rest := data.drop cpylen
    if offset + cpylen = l then
      if rest.isEmpty then (data.take cpylen, ⟨lens, 0⟩)
      else
        let r := copyCur lens 0 rest
        (data.take cpylen ++ r.1, r.2)
    else (data.take cpylen, ⟨l :: lens, offset + cpylen⟩)

def copyCurs : IovCursor → List Mbuf → List UInt8 × IovCursor
  | cur, [] => ([], cur)
  | cur, m :: q =>
    let r := copyCur cur.lens cur.offset m.data
    let r' := copyCurs r.2 q
    (r.1 ++ r'.1, r'.2)

/-- Fill the vectors that are left from one buffer: the `do` loop of `tcp_readv` over `m`. -/
def copyPart : List ℕ → ℕ → List UInt8 → List UInt8
  | [], _, _ => []
  | l :: lens, offset, data =>
    let cpylen := min (l - offset) data.length
    if offset + cpylen = l then data.take cpylen ++ copyPart lens 0 (data.drop cpylen)
    else data.take cpylen

/-- The bytes `tcp_readv` copies out, in the order of the vectors. -/
def tcpReadvCopy (lens : List ℕ) (q : List Mbuf) (part : Option Mbuf) : List UInt8 × ℕ :=
  let r := copyCurs ⟨lens, 0⟩ q
  match part with
  | none => (r.1, 0)
  | some m =>
    let tail := copyPart r.2.lens r.2.offset m.data
    (r.1 ++ tail, tail.length)

/-- `tcp_read_finish`, together with the pull of the partly read buffer in front of it. -/
def tcpReadFinish (part : Bool) (n : ℕ) : Conn :=
  if part then { c with rx.q := pullHead n c.rx.q, rx.exclusive := false } else c

/-! ## Writing -/

/-- Would `tcp_write_wait` sleep (or return `-EAGAIN`)? -/
def tcpWriteBlocks : Bool := !c.tx.closed && (c.state.opening || c.tx.exclusive || tcpIsSndFull c)

/-- One round of the loop of `tcp_write_wait`: arm window probing if needed. -/
def tcpWriteArm : Conn :=
  if !c.tmr.zeroWnd && tcpIsSndFull c then
    tcpTimerUpdate now { c with tmr.zeroWnd := true, tmr.zeroWndTs := now }
  else c

/-- The rest of `tcp_write_wait`; `none` for the window if the socket is closed. -/
def tcpWriteWait : Conn × Option ℕ := let c := { c with tmr.zeroWnd := false }
  if c.tx.closed then (c, none)
  else
    -- drop the lock to allow concurrent RX processing
    ({ c with tx.exclusive := true, tmr.acksDelayedCnt := 0, tmr.ackDelayed := false },
      some (c.snd.una + c.snd.wnd - c.snd.nxt).toNat)

/-- What `tcp_write_finish` does with the TX queue: free it if the connection was closed meanwhile,
or start the fast retransmit that came up. -/
def tcpWriteFinishQueue : Conn × Option Mbuf :=
  if c.state = .closed then ({ c with tx.q := [], tx.pending := none }, none)
  else if c.tx.doFastRetransmit then
    let c := { c with tx.doFastRetransmit := false }
    if c.tx.fastRetransmitLastAck = c.snd.una then tcpTxFastRetransmitStart now c else (c, none)
  else (c, none)

def tcpWriteFinish : Conn × Option Mbuf := let c := { c with tx.exclusive := false }
  let c := tcpConnAck c
  -- race condition check
  let c := if c.rcv.nxt = c.tx.lastAck then { c with tmr.ackDelayed := false }
    else { c with tmr.ackTs := now }
  let (c, retransmit) := tcpWriteFinishQueue now c
  (tcpTimerUpdate now c, retransmit)

/-- The locals of `tcp_write` or `tcp_writev` while it holds write exclusion. -/
structure Send where
  /-- the bytes of the current `tcp_tx_send` that lie between `pos` and `end` -/
  rest : List UInt8
  push : Bool
  /-- `pos - buf` of the current `tcp_tx_send` -/
  sent : ℕ
  /-- the buffers behind the current one -/
  iov : List (List UInt8)
  winlen : ℕ
  /-- the bytes sent by earlier calls of `tcp_tx_send` -/
  total : ℕ

/-- The first call of `tcp_tx_send` that `tcp_write` makes. -/
def tcpWriteStart (buf : List UInt8) (winlen : ℕ) : Send :=
  { rest := buf.take winlen, push := true, sent := 0, iov := [], winlen := winlen, total := 0 }

/-- The next call of `tcp_tx_send` in the loop of `tcp_writev`; `none` ends the loop. -/
def tcpWritevNext (iov : List (List UInt8)) (winlen total : ℕ) : Option Send :=
  match iov with
  | [] => none
  | buf :: iov =>
    if winlen = 0 then none
    else some
      { rest := buf.take winlen, push := iov.isEmpty && buf.length ≤ winlen, sent := 0,
        iov := iov, winlen := winlen, total := total }

/-- What a writer does after a round of the segmenter loop; `none` when nothing is left to send. -/
def sendNext (s : Send) (rest : List UInt8) (r : SendRound) : Option Send :=
  let sent := s.sent + (s.rest.length - rest.length)
  let again := match r with
    | .sent _ => !rest.isEmpty
    | .deferred => false
    | .nobufs => false
  if again then some { s with rest := rest, sent := sent }
  -- `tcp_tx_send` returned; an error or zero ends `tcp_writev` too
  else if sent = 0 then none
  else tcpWritevNext s.iov (s.winlen - sent) (s.total + sent)

/-! ## Closing -/

/-- `tcp_conn_shutdown_tx` behind its wait for the writer. -/
def tcpConnShutdownTx (env : Env) (c : Conn) : Conn × Option Errno :=
  match tcpTxCtl env c (tcpFin ||| tcpAck) none with
  | (c, some e) => (c, some e)
  | (c, none) =>
    let c := if c.state = .established then tcpConnSetState env.now .finWait1 c
      else if c.state = .closeWait then tcpConnSetState env.now .lastAck c
      else c
    ({ c with tx.closed := true }, none)

/-- What is left of `tcp_shutdown` behind `tcp_conn_shutdown_tx`. -/
def tcpShutdownRest (rx : Bool) (c : Conn) (ret : Option Errno) : Conn :=
  if ret.isNone && rx then tcpConnShutdownRx c else c

/-- What is left of `tcp_close` behind `tcp_conn_shutdown_tx`, up to the unlock. -/
def tcpCloseRest (ret : Option Errno) : Conn :=
  tcpConnShutdownRx (match ret with
    | some e => tcpConnFail now e c
    | none => c)

/-! ## Timeouts -/

/-- What `tcp_handle_timeouts` does once it has dropped the lock. -/
structure TimeoutOut where
  c : Conn
  /-- drop the state machine's reference -/
  put : Bool := false
  doAck : Bool := false
  doProbe : Bool := false
  doRetransmit : Bool := false

def tcpHandleTimeouts : TimeoutOut := if c.state = .closed then { c := c }
  else if c.state.opening ∧ tcpConnectTimeout ≤ now - c.tmr.timeWaitTs then
    { c := tcpConnFail now .etimedout c }
  else if c.state = .timeWait ∧ tcpTimeWaitTimeout ≤ now - c.tmr.timeWaitTs then
    { c := tcpConnSetState now .closed c, put := true }
  else
    let ackDue := c.tmr.ackDelayed && tcpAckTimeout ≤ now - c.tmr.ackTs
    let c := if ackDue then { c with tmr.ackDelayed := false } else c
    let doProbe := c.tmr.zeroWnd && tcpZeroWndTimeout ≤ now - c.tmr.zeroWndTs
    let c := if doProbe then { c with tmr.zeroWndTs := now } else c
    let doRetransmit := match c.tx.q with
      | [] => false
      | m :: _ => !c.tx.exclusive && tcpRetransmitTimeout ≤ now - m.timestamp
    -- it is safe to take a reference, since state != closed
    let c := if doRetransmit then tcpConnGet c else c
    { c := tcpTimerUpdate now c
      doAck := ackDue || !c.rx.ooo.isEmpty
      doProbe := doProbe
      doRetransmit := doRetransmit }

end Aspen.Tcp
