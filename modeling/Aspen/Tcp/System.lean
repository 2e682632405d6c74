import Aspen.Lib.Run
import Aspen.Tcp.Sock

/-!
# One connection and everybody who works on it

The state is a connection together with the threads that are in the middle of something: packets whose
`tcp_rx_conn` has loaded `snd_nxt` but not taken the lock, the reader, the holder of write exclusion, callers
asleep in `tcp_conn_shutdown_tx`, spawned retransmit threads, and the owner of the handle. An event is the next
atomic section of one of them. A section that is not enabled (a thread that would sleep) is `Stop.disabled`.
-/

namespace Aspen.Tcp

/-! ## Threads -/

/-- Who holds the reference that `tcp_conn_alloc` creates. -/
inductive Owner where
  /-- `__tcp_dial`, attached but not yet locked -/
  | dialing (nonblocking : Bool)
  /-- `__tcp_dial`, asleep until the connection is established or failed -/
  | dialWait
  /-- `tcp_rx_listener`, attached but not yet locked -/
  | listening (opts : TcpOptions)
  | queued
  | app
  /-- `tcp_close`, asleep until the writer is done -/
  | closing
  /-- `tcp_close`, past the unlock -/
  | closePut
  /-- nobody: the reference was dropped, or the connection destroyed by its owner -/
  | released
deriving DecidableEq

/-- A call of `tcp_read` (or of `tcp_readv`, with the lengths of its vectors) that has data to copy. -/
structure ReadCall where
  len : ℕ
  iov : Option (List ℕ)
  q : List Mbuf
  part : Bool

inductive Writer where
  /-- `tcp_write` or `tcp_writev`; `none` when it is about to finish -/
  | send (s : Option Send)
  /-- `tcp_retransmit` at the `i`-th buffer, having resent `count`; `none` when about to finish -/
  | retransmit (pos : Option (ℕ × ℕ)) (now : Time)

inductive Closer where
  | shutdown (rx : Bool)
  | close
deriving DecidableEq

inductive ReadRet where
  | bytes (bs : List UInt8)
  | zero
  | failed (e : Errno)
deriving DecidableEq

structure Sys where
  c : Conn
  owner : Owner
  /-- packets between the load of `snd_nxt` and the lock -/
  inflight : List RxSeg := []
  /-- deferred calls of `tcp_tx_ack` -/
  acks : ℕ := 0
  /-- deferred calls of `tcp_tx_probe_window` and `tcp_tx_fast_retransmit_finish` -/
  resends : ℕ := 0
  reader : Option ReadCall := none
  writer : Option Writer := none
  closers : List Closer := []
  /-- retransmit threads in front of their critical section -/
  rtWait : ℕ := 0
  /-- retransmit threads about to drop their reference -/
  rtPut : ℕ := 0
  /-- timeout workers about to drop the state machine's reference -/
  workerPut : ℕ := 0
  /-- history: what the calls of `tcp_read` returned -/
  reads : List ReadRet := []

/-! ## Events -/

inductive Event where
  /-- a packet arrives: `tcp_rx_conn` in front of the lock -/
  | rxLoad (p : Packet)
  /-- the critical section of `tcp_rx_conn` for the `i`-th packet in flight -/
  | rxLocked (i : ℕ) (env : Env)
  /-- a deferred `tcp_tx_ack` -/
  | txAck (env : Env)
  /-- a deferred probe or fast retransmit, which sends a packet with a fresh header as well -/
  | txResend (env : Env)
  /-- `tcp_read_wait` on behalf of `tcp_read` -/
  | read (len : ℕ)
  /-- `tcp_read_wait` on behalf of `tcp_readv` -/
  | readv (iov : List ℕ)
  | readFinish
  /-- a writer goes to sleep in `tcp_write_wait` -/
  | writeBlock (now : Time)
  /-- `tcp_write_wait` on behalf of `tcp_write` -/
  | write (buf : List UInt8)
  /-- `tcp_write_wait` on behalf of `tcp_writev` -/
  | writev (iov : List (List UInt8))
  /-- a round of the loop of `tcp_tx_send` -/
  | sendRound (env : Env)
  | writeFinish (now : Time)
  | shutdown (tx rx : Bool) (env : Env)
  | close (env : Env)
  /-- the `i`-th sleeping caller of `tcp_conn_shutdown_tx` goes on -/
  | closeResume (i : ℕ) (env : Env)
  | closePut
  | abort (now : Time)
  /-- `tcp_handle_timeouts`; `spawn` is whether `thread_spawn` succeeds -/
  | timeout (now : Time) (spawn : Bool)
  | workerPut
  /-- `tcp_retransmit` takes write exclusion, or finds the connection closed -/
  | rtStart (now : Time)
  /-- a round of the loop of `tcp_tx_retransmit`; `busy` if the buffer is still being transmitted -/
  | rtRound (env : Env) (busy : Bool)
  | rtPut
  | connErr (now : Time) (err : Errno)
  /-- `__tcp_dial` takes the lock and sends the SYN -/
  | dialSyn (env : Env)
  | dialResume
  /-- `tcp_rx_listener` takes the lock and sends the SYN/ACK; `tcp_queue_recv` queues the connection -/
  | listenSyn (env : Env)
  | accept
  /-- `tcp_qclose` frees a queued connection -/
  | qclose

inductive Stop where
  | disabled
  | fault (f : Fault)

/-! ## Steps -/

variable (env : Env) (s : Sys)

def Sys.defer (doAck resend : Bool) : Sys :=
  { s with acks := s.acks + doAck.toNat, resends := s.resends + resend.toNat }

/-- `tcp_read_wait` for a buffer of `len` bytes. -/
def stepRead (len : ℕ) (iov : Option (List ℕ)) : Except Stop Sys :=
  if s.owner ≠ .app ∨ s.reader.isSome ∨ tcpReadBlocks s.c then .error .disabled
  else if s.c.rx.closed then
    .ok { s with reads := s.reads ++ [match s.c.err with
      | some e => .failed e
      | none => .zero] }
  else
    let (c, p) := tcpReadWait s.c len
    let s := { s with c := c }.defer (tcpReadAcks c) false
    if p.readlen = 0 then .ok { s with reads := s.reads ++ [.zero] }
    else .ok { s with reader := some { len := len, iov := iov, q := p.q, part := p.part } }

/-- The copy of `tcp_read` or `tcp_readv` and `tcp_read_finish`. -/
def stepReadFinish : Except Stop Sys :=
  match s.reader with
  | none => .error .disabled
  | some r =>
    let m := if r.part then s.c.rx.q.head? else none
    let (bytes, n) := match r.iov with
      | none => tcpReadCopy r.len r.q m
      | some lens => tcpReadvCopy lens r.q m
    .ok { s with
      c := tcpReadFinish s.c r.part n
      reader := none
      reads := s.reads ++ [.bytes bytes] }

/-- `tcp_write_wait`, and the first call of `tcp_tx_send` it leads to. -/
def stepWrite (start : ℕ → Option Send) : Except Stop Sys :=
  if s.owner ≠ .app ∨ tcpWriteBlocks s.c then .error .disabled
  else
    match tcpWriteWait s.c with
    | (c, none) => .ok { s with c := c }
    | (c, some winlen) => .ok { s with c := c, writer := some (.send (start winlen)) }

/-- A caller of `tcp_conn_shutdown_tx` behind its wait. -/
def finishCloser : Closer → Sys
  | .shutdown rx =>
    let (c, ret) := tcpConnShutdownTx env s.c
    { s with c := tcpShutdownRest rx c ret }
  | .close =>
    let (c, ret) := tcpConnShutdownTx env s.c
    { s with c := tcpCloseRest env.now c ret, owner := .closePut }

/-- A caller of `tcp_conn_shutdown_tx` that finds the egress side open. -/
def startCloser (k : Closer) : Sys :=
  if s.c.tx.exclusive then { s with closers := s.closers ++ [k] } else finishCloser env s k

/-- Take the SYN (or SYN/ACK) out of a fresh connection. -/
def openConn (c : Conn) (flags : Flags) (opts : TcpOptions) (st : State) : Conn × Option Errno :=
  match tcpTxCtl env c flags (some opts) with
  | (c, some e) => (tcpConnDestroy c, some e)
  -- take a ref for the state machine
  | (c, none) => (tcpConnSetState env.now st (tcpConnGetSm c), none)

def dialOptions (c : Conn) : TcpOptions :=
  { enMss := true, enWscale := true, mss := c.rcv.mss.setWidth 16,
    wscale := c.rcv.wscale.setWidth 8 }

def step (dbg : Bool) (s : Sys) : Event → Except Stop Sys
  | .rxLoad p =>
    match tcpRxConnLoad s.c p with
    | none => .ok s
    | some r => .ok { s with inflight := s.inflight ++ [r] }
  | .rxLocked i env =>
    match s.inflight[i]? with
    | none => .error .disabled
    | some r =>
      match tcpRxConnLocked dbg env s.c r with
      | .error f => .error (.fault f)
      | .ok o =>
        .ok ({ s with c := o.c, inflight := s.inflight.eraseIdx i }.defer o.doAck
          o.retransmit.isSome)
  | .txAck env =>
    if s.acks = 0 then .error .disabled
    else .ok { s with c := tcpTxAck env s.c, acks := s.acks - 1 }
  | .txResend env =>
    if s.resends = 0 then .error .disabled
    else .ok { s with c := tcpTxAck env s.c, resends := s.resends - 1 }
  | .read len => stepRead s len none
  | .readv iov => stepRead s iov.sum (some iov)
  | .readFinish => stepReadFinish s
  | .writeBlock now =>
    if s.owner = .app ∧ tcpWriteBlocks s.c then .ok { s with c := tcpWriteArm now s.c }
    else .error .disabled
  | .write buf => stepWrite s fun winlen => some (tcpWriteStart buf winlen)
  | .writev iov => stepWrite s fun winlen => tcpWritevNext iov winlen 0
  | .sendRound env =>
    match s.writer with
    | some (.send (some snd)) =>
      let (c, rest, r) := tcpTxSendRound env s.c snd.rest snd.push
      .ok { s with c := c, writer := some (.send (sendNext snd rest r)) }
    | _ => .error .disabled
  | .writeFinish now =>
    match s.writer with
    | some (.send none) =>
      let (c, retransmit) := tcpWriteFinish now s.c
      .ok ({ s with c := c, writer := none }.defer false retransmit.isSome)
    | some (.retransmit none _) =>
      let (c, retransmit) := tcpWriteFinish now s.c
      .ok ({ s with c := c, writer := none, rtPut := s.rtPut + 1 }.defer false
        retransmit.isSome)
    | _ => .error .disabled
  | .shutdown tx rx env =>
    if s.owner ≠ .app then .error .disabled
    else if tx && !s.c.tx.closed then .ok (startCloser env s (.shutdown rx))
    else .ok { s with c := tcpShutdownRest rx s.c none }
  | .close env =>
    if s.owner ≠ .app then .error .disabled
    else if s.c.tx.closed then
      .ok { s with c := tcpCloseRest env.now s.c none, owner := .closePut }
    else .ok (startCloser env { s with owner := .closing } .close)
  | .closeResume i env =>
    match s.closers[i]? with
    | none => .error .disabled
    | some k =>
      if s.c.tx.exclusive then .error .disabled
      else .ok (finishCloser env { s with closers := s.closers.eraseIdx i } k)
  | .closePut =>
    if s.owner = .closePut then .ok { s with c := tcpConnPut s.c, owner := .released }
    else .error .disabled
  | .abort now =>
    if s.owner ≠ .app then .error .disabled
    else if s.c.state = .closed then .ok s
    else .ok { s with c := tcpConnFail now .econnaborted s.c }
  | .timeout now spawn =>
    let o := tcpHandleTimeouts now s.c
    .ok ({ s with
      c := o.c
      workerPut := s.workerPut + o.put.toNat
      rtWait := s.rtWait + (o.doRetransmit && spawn).toNat }.defer o.doAck o.doProbe)
  | .workerPut =>
    if s.workerPut = 0 then .error .disabled
    else .ok { s with c := tcpConnPutSm s.c, workerPut := s.workerPut - 1 }
  | .rtStart now =>
    if s.rtWait = 0 then .error .disabled
    else if s.c.state = .closed then
      .ok { s with rtWait := s.rtWait - 1, rtPut := s.rtPut + 1 }
    else if s.c.tx.exclusive then .error .disabled
    else .ok { s with
      c := { s.c with tx.exclusive := true }
      writer := some (.retransmit (some (0, 0)) now)
      rtWait := s.rtWait - 1 }
  | .rtRound env busy =>
    match s.writer with
    | some (.retransmit (some (i, count)) now) =>
      match tcpTxRetransmitRound now env busy s.c i with
      | .error f => .error (.fault f)
      | .ok (c, r) =>
        let count := if r = .resent then count + 1 else count
        let pos := if r = .stop ∨ (r = .resent ∧ tcpRetransmitBatch ≤ count) then none
          else some (i + 1, count)
        .ok { s with c := c, writer := some (.retransmit pos now) }
    | _ => .error .disabled
  | .rtPut =>
    if s.rtPut = 0 then .error .disabled
    else .ok { s with c := tcpConnPut s.c, rtPut := s.rtPut - 1 }
  | .connErr now err => .ok { s with c := tcpConnFail now err s.c }
  | .dialSyn env =>
    match s.owner with
    | .dialing nonblocking =>
      match openConn env s.c tcpSyn (dialOptions s.c) .synSent with
      | (c, some _) => .ok { s with c := c, owner := .released }
      | (c, none) => .ok { s with c := c, owner := if nonblocking then .app else .dialWait }
    | _ => .error .disabled
  | .dialResume =>
    if s.owner = .dialWait ∧ (s.c.tx.closed ∨ !s.c.state.opening) then
      if s.c.tx.closed then .ok { s with c := tcpConnDestroy s.c, owner := .released }
      else .ok { s with owner := .app }
    else .error .disabled
  | .listenSyn env =>
    match s.owner with
    | .listening opts =>
      match openConn env s.c (tcpSyn ||| tcpAck) opts .synReceived with
      | (c, some _) => .ok { s with c := c, owner := .released }
      | (c, none) => .ok { s with c := c, owner := .queued }
    | _ => .error .disabled
  | .accept => if s.owner = .queued then .ok { s with owner := .app } else .error .disabled
  | .qclose =>
    if s.owner = .queued then .ok { s with c := tcpConnDestroy s.c, owner := .released }
    else .error .disabled

inductive Initial : Sys → Prop
  | dial (iss mtu : Seq) (attachTs : Time) (nonblocking : Bool) :
      Initial { c := { tcpConnAlloc iss mtu attachTs with nonblocking := nonblocking },
                owner := .dialing nonblocking }
  | listen {iss mtu : Seq} {attachTs : Time} {p : Packet} {c : Conn} {opts : TcpOptions} :
      tcpRxListener iss mtu attachTs p = .ok (.attached c opts) →
      Initial { c := c, owner := .listening opts }

/-! ## A connection to run -/

def Packet.plain (seq ack : Seq) (flags : Flags) (win : BitVec 16) (data : List UInt8)
    (h : data.length + 40 < 65536) : Packet where
  seq := seq
  ack := ack
  off := 5
  flags := flags
  win := win
  ipLen := BitVec.ofNat 16 (data.length + 40)
  body := data
  slack := []
  framed := by rw [BitVec.toNat_ofNat, Nat.mod_eq_of_lt h]

lemma nil_fits : ([] : List UInt8).length + 40 < 65536 := by decide

/-- A blocking `tcp_dial` from sequence number 1000, just attached. -/
def dialed (mtu : Seq) : Sys := { c := tcpConnAlloc 1000 mtu 0, owner := .dialing false }

lemma initial_dialed (mtu : Seq) : Initial (dialed mtu) := .dial 1000 mtu 0 false

/-- The handshake of that call with a peer that starts at 5000 and does not scale its window. -/
def handshake (win : BitVec 16) : List Event :=
  [.dialSyn {}, .rxLoad (.plain 5000 1001 (tcpSyn ||| tcpAck) win [] (by decide)), .rxLocked 0 {},
    .dialResume]

def arrives (p : Packet) : List Event := [.rxLoad p, .rxLocked 0 {}]

end Aspen.Tcp
