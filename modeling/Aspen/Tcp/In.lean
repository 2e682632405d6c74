import Aspen.Tcp.Out

/-!
# The ingress datapath

`runtime/net/tcp_in.c`. `tcp_rx_conn` does its work in two atomic steps: it loads `snd_nxt` and parses
the header without the lock (`tcpRxConnLoad`), and then takes the lock and runs either the fast path or
`__tcp_rx_conn` (`tcpRxConnLocked`). The slow path is cut at the steps its comments name.
-/

namespace Aspen.Tcp

/-! ## Text -/

variable (mem : ℕ → UInt8) (dbg : Bool) (env : Env) (now : Time) (c : Conn) (m : Mbuf)

/-- The four cases of the acceptability test for an incoming segment. -/
def isAcceptable (len seq : Seq) : Bool :=
  if len = 0 ∧ c.rcv.wnd = 0 then seq == c.rcv.nxt
  else if len = 0 ∧ 0 < c.rcv.wnd then
    wrapsLte c.rcv.nxt seq && wrapsLt seq (c.rcv.nxt + c.rcv.wnd)
  else if 0 < len ∧ c.rcv.wnd = 0 then false
  else
    (wrapsLte c.rcv.nxt seq && wrapsLt seq (c.rcv.nxt + c.rcv.wnd)) ||
    (wrapsLte c.rcv.nxt (seq + len - 1) && wrapsLt (seq + len - 1) (c.rcv.nxt + c.rcv.wnd))

def clipHead : Except Fault Mbuf :=
  if wrapsLt m.segSeq c.rcv.nxt then
    let len := c.rcv.nxt - m.segSeq
    match mbufPull m len.toNat with
    | .error f => .error f
    | .ok m => .ok { m with segSeq := m.segSeq + len }
  else .ok m

def clipTail : Except Fault Mbuf :=
  if wrapsLt (c.rcv.nxt + c.rcv.wnd) m.segEnd then
    let len := m.segEnd - (c.rcv.nxt + c.rcv.wnd)
    match mbufTrim m len.toNat with
    | .error f => .error f
    | .ok m => .ok { m with segEnd := c.rcv.nxt + c.rcv.wnd }
  else .ok m

/-- Enqueue a clipped segment and move the receive window over it. -/
def enqueueText : Conn :=
  { c with
    rcv.nxt := m.segEnd
    rcv.wnd := c.rcv.wnd - (m.segEnd - m.segSeq)
    rx.q := c.rx.q ++ [m]
    rx.log := c.rx.log ++ [m] }

def tcpRxAppendText : Except Fault Conn := do
  assertThat dbg (wrapsLte m.segSeq c.rcv.nxt) .assertSegSeq
  assertThat dbg (wrapsGt m.segEnd c.rcv.nxt) .assertSegEnd
  let m ← clipHead c m
  let m ← clipTail c m
  assertThat dbg (m.segEnd - m.segSeq ≤ c.rcv.wnd) .assertRcvWnd
  return enqueueText c m

/-- Where `tcp_rx_text` puts an out-of-order segment. The queue is scanned from its tail, so the
argument is the reversed queue; `none` drops the segment. -/
def oooInsert (m : Mbuf) : List Mbuf → Option (List Mbuf)
  | [] => some [m]
  | pos :: q =>
    if wrapsGt m.segEnd pos.segEnd then some (m :: pos :: q)
    else if wrapsGte m.segSeq pos.segSeq then none
    else (oooInsert m q).map (pos :: ·)

structure TextFlags where
  wake : Bool := false
  fin : Bool := false
deriving DecidableEq

/-- Attempt to drain the out-of-order RX queue, whose elements are the list argument. -/
def drainOoo (dbg : Bool) : List Mbuf → Conn → TextFlags → Except Fault (Conn × TextFlags)
  | [], c, fl => .ok ({ c with rx.ooo := [] }, fl)
  | pos :: q, c, fl =>
    -- has the segment been fully received already?
    if wrapsLte pos.segEnd c.rcv.nxt then
      drainOoo dbg q { c with rx.oooLen := c.rx.oooLen - 1 } fl
    -- is the segment still out-of-order?
    else if wrapsGt pos.segSeq c.rcv.nxt then .ok ({ c with rx.ooo := pos :: q }, fl)
    -- we got the next in-order segment
    else
      match tcpRxAppendText dbg { c with rx.oooLen := c.rx.oooLen - 1 } pos with
      | .error f => .error f
      | .ok c => drainOoo dbg q c { wake := true, fin := fl.fin || hasFlag pos.flags tcpFin }

def drainText (fl : TextFlags) : Except Fault (Conn × TextFlags) :=
  match drainOoo dbg c.rx.ooo c fl with
  | .error f => .error f
  | .ok (c, fl) => .ok (c, { fl with wake := fl.wake || c.rcv.wnd == 0 })

/-- Process RX text segments; `none` if the segment is not used for text. -/
def tcpRxText : Except Fault (Option (Conn × TextFlags)) :=
  -- don't accept any text if the receive window is zero
  if c.rcv.wnd = 0 then .ok none
  else if wrapsLte m.segSeq c.rcv.nxt then
    -- we got the next in-order segment
    let fl : TextFlags :=
      if hasFlag m.flags (tcpPush ||| tcpFin) || !c.rx.q.isEmpty then
        { wake := true, fin := hasFlag m.flags tcpFin }
      else {}
    match tcpRxAppendText dbg c m with
    | .error f => .error f
    | .ok c => (drainText dbg c fl).map some
  else if tcpOooMaxSize ≤ c.rx.oooLen then .ok none
  else
    match oooInsert m c.rx.ooo.reverse with
    | none => .ok none
    | some q =>
      (drainText dbg { c with rx.ooo := q.reverse, rx.oooLen := c.rx.oooLen + 1 } {}).map some

/-! ## Options -/

/-- What the option loop has collected; the window scale is cut down to the largest one that is allowed. -/
structure ParsedOptions where
  enMss : Bool := false
  enWscale : Bool := false
  mss : BitVec 16 := 0
  wscale : BitVec 8 := 0
  wscale_le : wscale.toNat ≤ 14 := by decide

def load16 (i : ℕ) : BitVec 16 := BitVec.ofNat 16 ((mem i).toNat * 256 + (mem (i + 1)).toNat)

def parseOption (ptr opcode opsize : ℕ) (acc : ParsedOptions) : ParsedOptions :=
  if opcode = tcpOptMss ∧ opsize = tcpOlenMss then
    { acc with mss := load16 mem (ptr + 2), enMss := true }
  else if opcode = tcpOptWscale ∧ opsize = tcpOlenWscale then
    { acc with
      wscale := BitVec.ofNat 8 (min (mem (ptr + 2)).toNat 14)
      enWscale := true
      wscale_le := by
        rw [BitVec.toNat_ofNat]
        omega }
  else acc

/-- The loop of `tcp_parse_options` over the memory at `ptr`. Every round but one with `opsize == 0`, which is `none`,
takes at least one byte off `len`. -/
def parseLoop (mem : ℕ → UInt8) : ℕ → ℕ → ℕ → ParsedOptions → Option ParsedOptions
  | 0, _, _, acc => some acc
  | n + 1, ptr, len, acc =>
    if len = 0 then some acc
    else
      let opcode := (mem ptr).toNat
      if opcode = tcpOptEol then some acc
      else if opcode = tcpOptNop then parseLoop mem n (ptr + 1) (len - 1) acc
      else
        let opsize := (mem (ptr + 1)).toNat
        if opsize = 0 then none
        else parseLoop mem n (ptr + opsize) (len - opsize) (parseOption mem ptr opcode opsize acc)

def minSeq (a b : Seq) : Seq := if a < b then a else b
def maxSeq (a b : Seq) : Seq := if a < b then b else a

def applyOptions (o : ParsedOptions) : Conn :=
  let c := { c with
    snd.mss := minSeq (maxSeq (o.mss.setWidth 32) tcpMinMss) c.rcv.mss
    snd.wscale := o.wscale.setWidth 32 }
  let c := if o.enWscale then c
    else
      let win := minSeq c.winmax 65535
      { c with rcv.wnd := win, winmax := win, rcv.wscale := 0 }
  if o.enMss then c else { c with snd.mss := tcpCalculateMss ethDefaultMtu }

/-- Parse the option area; returns the options to offer in turn. -/
def tcpParseOptions (optp : List UInt8) (optlen : ℕ) : Except Fault (Conn × TcpOptions) :=
  match parseLoop (fun i => optp.getD i 0) optlen 0 optlen {} with
  | none => .error .hang
  | some o =>
    let c := applyOptions c o
    .ok (c, { enMss := o.enMss, enWscale := o.enWscale, mss := c.rcv.mss.setWidth 16,
              wscale := c.rcv.wscale.setWidth 8 })

/-! ## Packets -/

/-- A TCP packet as the transport layer gets it: the fields of the headers, and the bytes behind the fixed part of the
TCP header. `net_rx_one` drops packets that are shorter than the IP header says and trims longer ones (`framed`). -/
structure Packet where
  seq : Seq
  ack : Seq
  off : BitVec 4
  flags : Flags
  win : BitVec 16
  ipLen : BitVec 16
  body : List UInt8
  /-- the bytes of the receive buffer behind the packet -/
  slack : List UInt8
  framed : body.length + 40 = ipLen.toNat

/-- The payload of a packet is as long as its headers say. If they claim more than the packet holds, `len` wraps
around. -/
lemma length_drop_options {p : Packet} (hdr : ¬ (p.off.setWidth 32 * 4 : Seq) < 20)
    (hlen : ¬ p.body.length < (p.ipLen.setWidth 32 - 20 - p.off.setWidth 32 * 4 : Seq).toNat) :
    (p.body.drop (p.off.setWidth 32 * 4 - 20 : Seq).toNat).length
      = (p.ipLen.setWidth 32 - 20 - p.off.setWidth 32 * 4 : Seq).toNat := by
  have hframed := p.framed
  rw [List.length_drop]
  bv_omega

/-- The locals of `tcp_rx_conn` when it takes the lock. The last three fields say that the buffer
holds exactly the payload the header announced. -/
structure RxSeg where
  m : Mbuf
  ack : Seq
  /-- `snd_nxt` as it was before the lock was taken -/
  sndNxt : Seq
  win : Seq
  len : Seq
  optp : List UInt8
  optlen : ℕ
  segEnd_eq : m.segEnd = m.segSeq + len
  length_data : m.data.length = len.toNat
  len_le : len.toNat ≤ 65535

variable (r : RxSeg)

/-- The part of `tcp_rx_conn` in front of the lock; `none` if the packet is freed there. -/
def tcpRxConnLoad (p : Packet) : Option RxSeg :=
  let hdrLen : Seq := p.off.setWidth 32 * 4
  let len : Seq := p.ipLen.setWidth 32 - 20 - hdrLen
  if hdr : hdrLen < 20 then none
  else if hlen : p.body.length < len.toNat ∨ c.rcv.mss < len then none
  else
    let optlen := (hdrLen - 20).toNat
    some
      { m := { data := p.body.drop optlen, segSeq := p.seq, segEnd := p.seq + len,
               flags := p.flags }
        ack := p.ack
        sndNxt := c.snd.nxt
        win := p.win.setWidth 32 <<< c.snd.wscale
        len := len
        optp := p.body ++ p.slack
        optlen := optlen
        segEnd_eq := rfl
        length_data := length_drop_options hdr fun h => hlen (.inl h)
        len_le := by have := p.framed; have := p.ipLen.isLt; omega }

/-! ## The slow path -/

/-- What the critical section of `__tcp_rx_conn` leaves to be done when the lock is dropped. -/
structure RxOut where
  c : Conn
  doAck : Bool := false
  doDrop : Bool := true
  rst : Option Rst := none
  retransmit : Option Mbuf := none
deriving DecidableEq

/-- See reset generation (RFC 793). -/
def sendRst (acked : Bool) (seq ack len : Seq) : Rst :=
  if acked then tcpTxRawRst ack else tcpTxRawRstAck 0 (seq + len)

/-- The segment length in sequence numbers: a FIN counts as one. -/
def segLen : Seq := m.segEnd - m.segSeq + if hasFlag m.flags tcpFin then 1 else 0

/-- `wraps_lte(snd_una, ack) && wraps_lte(ack, snd_nxt)` -/
def inSndWindow : Bool := wrapsLte c.snd.una r.ack && wrapsLte r.ack r.sndNxt

/-- The acknowledgement a SYN in SYN_SENT may carry. -/
def rxSynAck : Conn :=
  if hasFlag r.m.flags tcpAck then tcpConnAck { c with snd.una := r.ack } else c

/-- Answer a SYN in SYN_SENT: our own SYN was acknowledged, or the two SYNs crossed. -/
def rxSynOpen (opts : TcpOptions) : RxOut :=
  if wrapsGt c.snd.una c.snd.iss then
    let c := { c with snd.wnd := r.win, snd.wl1 := r.m.segSeq, snd.wl2 := r.ack }
    { c := tcpConnSetState env.now .established c, doAck := true }
  else
    match tcpTxCtl env c (tcpSyn ||| tcpAck) (some opts) with
    -- feign packet loss
    | (c, some _) => { c := c }
    | (c, none) => { c := tcpConnSetState env.now .synReceived c }

def rxSynSent : Except Fault RxOut :=
  let seq := r.m.segSeq
  let ackSet := hasFlag r.m.flags tcpAck
  let rstSet := hasFlag r.m.flags tcpRst
  if ackSet && (wrapsLte r.ack c.snd.iss || wrapsGt r.ack r.sndNxt) then
    .ok { c := c, rst := some (sendRst false seq r.ack (segLen r.m)) }
  -- check if the ack is valid
  else if ackSet && rstSet && inSndWindow c r then
    .ok { c := tcpConnFail env.now .econnreset c }
  else if !ackSet && rstSet then .ok { c := c }
  else if !hasFlag r.m.flags tcpSyn then .ok { c := c }
  else
    match tcpParseOptions { c with rcv.nxt := seq + 1, rcv.irs := seq } r.optp r.optlen with
    | .error f => .error f
    | .ok (c, opts) => .ok (rxSynOpen env (rxSynAck c r) r opts)

def sndWndStale (seq ack : Seq) : Bool := wrapsLt c.snd.wl1 seq || (c.snd.wl1 == seq && wrapsLte c.snd.wl2 ack)

/-- An acknowledgement, with what the duplicate-ACK test needs to know about it. -/
structure AckOut where
  c : Conn
  ackSame : Bool := false
  wndUpdated : Bool := false

/-- Process an ack with `snd_una <= ack <= snd_nxt` and the window update it carries. -/
def rxAckInWindow (seq ack win : Seq) : AckOut :=
  let ackSame := c.snd.una == ack
  -- did sent segments get acked?
  let c := if ackSame then c else tcpConnAck { c with snd.una := ack }
  if sndWndStale c seq ack && (!ackSame || c.snd.wnd ≤ win) then
    { c := { c with snd.wnd := win, snd.wl1 := seq, snd.wl2 := ack }
      ackSame := ackSame
      wndUpdated := c.snd.wnd != win || c.snd.wl2 != ack }
  else { c := c, ackSame := ackSame }

def rxFastRetransmit (a : AckOut) (ack len : Seq) : Conn × Option Mbuf :=
  let c := a.c
  if a.ackSame && c.snd.una != c.snd.nxt && len == 0 && !a.wndUpdated then
    let c := { c with tmr.repAcks := c.tmr.repAcks + 1 }
    if tcpFastRetransmitThresh ≤ c.tmr.repAcks then
      let (c, retransmit) :=
        if c.tx.exclusive then
          ({ c with tx.doFastRetransmit := true, tx.fastRetransmitLastAck := ack }, none)
        else tcpTxFastRetransmitStart now c
      ({ c with tmr.repAcks := 0 }, retransmit)
    else (c, none)
  else if c.snd.una == ack then ({ c with tmr.repAcks := 0 }, none)
  else (c, none)

/-- The transitions that wait for our FIN to be acknowledged. The flag says that the connection was
closed and released. -/
def rxFinAcked (sndNxt : Seq) : Conn × Bool :=
  if c.state = .finWait1 ∧ c.snd.una = sndNxt then (tcpConnSetState now .finWait2 c, false)
  else if c.state = .closing ∧ c.snd.una = sndNxt then
    (tcpConnSetState now .timeWait { c with tmr.timeWaitTs := now }, false)
  else if c.state = .lastAck ∧ c.snd.una = sndNxt then
    (tcpConnPutSm (tcpConnSetState now .closed c), true)
  else (c, false)

def State.acceptsText (st : State) : Bool := st = .established ∨ st = .finWait1 ∨ st = .finWait2

def rxFin (o : RxOut) : RxOut :=
  let c := o.c
  if c.state = .established then { o with c := tcpConnSetState now .closeWait c }
  else if c.state = .finWait1 then { o with c := tcpConnSetState now .closing c }
  else if c.state = .finWait2 then
    { o with c := tcpConnSetState now .timeWait { c with tmr.timeWaitTs := now }, doAck := true }
  else o

/-- The delayed-ack bookkeeping of step 7; the flag asks for an immediate ack. -/
def rxDelayAck : Conn × Bool :=
  let c := { c with tmr.acksDelayedCnt := c.tmr.acksDelayedCnt + 1 }
  let (c, doAck) :=
    if 2 ≤ c.tmr.acksDelayedCnt then (c, true)
    else if !c.tmr.ackDelayed then
      ({ c with tmr.ackDelayed := true, tmr.ackTs := now }, false)
    else (c, false)
  (c, doAck || !c.rx.ooo.isEmpty)

/-- Step 7 - segment text, and step 8 - FIN. -/
def rxTextFin (retransmit : Option Mbuf) : Except Fault RxOut :=
  let len := segLen m
  if 0 < len ∧ c.state.acceptsText then
    match tcpRxText dbg c { m with segEnd := m.segSeq + len } with
    | .error f => .error f
    | .ok none =>
      let (c, doAck) := rxDelayAck now c
      .ok { c := c, doAck := doAck, retransmit := retransmit }
    | .ok (some (c, fl)) =>
      let (c, doAck) := rxDelayAck now c
      let o : RxOut := { c := c, doAck := doAck, doDrop := false, retransmit := retransmit }
      .ok (if fl.fin then rxFin now o else o)
  else .ok { c := c, retransmit := retransmit }

/-- Process the ack and the window update, and look for duplicate acks. -/
def rxAck : Conn × Option Mbuf :=
  rxFastRetransmit now
    (if inSndWindow c r then rxAckInWindow c r.m.segSeq r.ack r.win else { c := c })
    r.ack (segLen r.m)

/-- Step 5 - ACK, from the processing of the ack on, and everything behind it. -/
def rxAcked : Except Fault RxOut :=
  if !inSndWindow c r && wrapsGt r.ack r.sndNxt then .ok { c := c, doAck := true }
  else
    let (c, retransmit) := rxAck now c r
    let (c, closed) := rxFinAcked now c r.sndNxt
    if closed then .ok { c := c, retransmit := retransmit }
    else rxTextFin dbg now c r.m retransmit

/-- Steps 1 to 5, for every state but CLOSED and SYN_SENT. -/
def rxSynchronized : Except Fault RxOut :=
  let seq := r.m.segSeq
  let len := segLen r.m
  -- step 1 - acceptability testing
  if !isAcceptable c len seq then .ok { c := c, doAck := !hasFlag r.m.flags tcpRst }
  -- step 2 - RST
  else if hasFlag r.m.flags tcpRst then .ok { c := tcpConnFail now .econnreset c }
  -- step 4 - SYN
  else if hasFlag r.m.flags tcpSyn then
    .ok { c := tcpConnFail now .econnreset c
          rst := some (sendRst (hasFlag r.m.flags tcpAck) seq r.ack len) }
  -- step 5 - ACK
  else if !hasFlag r.m.flags tcpAck then .ok { c := c }
  else if c.state = .synReceived then
    if inSndWindow c r then
      let c := { c with snd.wnd := r.win, snd.wl1 := seq, snd.wl2 := r.ack }
      rxAcked dbg now (tcpConnSetState now .established c) r
    else .ok { c := c, rst := some (sendRst true seq r.ack len) }
  else rxAcked dbg now c r

def rxDone (o : RxOut) : RxOut :=
  let c := tcpTimerUpdate now o.c
  { o with c := if o.doAck then { c with tmr.ackDelayed := false, tmr.acksDelayedCnt := 0 } else c }

/-- `__tcp_rx_conn` up to the unlock. -/
def tcpRxConnSlow : Except Fault RxOut :=
  let body :=
    if c.state = .closed then
      .ok { c := c
            rst := if hasFlag r.m.flags tcpRst then none
              else some (sendRst false r.m.segSeq r.ack (segLen r.m)) }
    else if c.state = .synSent then rxSynSent env c r
    else rxSynchronized dbg env.now c r
  body.map (rxDone env.now)

/-! ## The fast path -/

def tcpSlowpathFlags : Flags := tcpFin ||| tcpRst ||| tcpUrg

/-- Use slow path if not regular flags and the next segment. -/
def slowPath : Bool :=
  hasFlag r.m.flags tcpSlowpathFlags || r.len == 0 || wrapsGt r.ack r.sndNxt ||
  c.state != .established ||
  -- might we need to unblock waiting senders?
  tcpIsSndFull c ||
  -- is the packet on the next in-order boundary?
  r.m.segSeq != c.rcv.nxt || !c.rx.ooo.isEmpty ||
  -- does it fit perfectly in the receive window?
  c.rcv.wnd < r.len ||
  -- does the ack land outside snd_nxt?
  wrapsGt r.ack r.sndNxt

/-- Process acks and update the send window on the fast path. -/
def fastAck (seq ack win : Seq) : Conn :=
  if wrapsLte c.snd.una ack then
    -- did sent segments get acked?
    let c := if c.snd.una != ack then
        tcpConnAck { c with tmr.repAcks := 0, snd.una := ack }
      else c
    -- should we update the send window?
    if sndWndStale c seq ack then
      { c with snd.wnd := win, snd.wl1 := seq, snd.wl2 := ack, tmr.repAcks := 0 }
    else c
  else c

def fastDelayAck : Conn × Bool :=
  let c := { c with tmr.acksDelayedCnt := c.tmr.acksDelayedCnt + 1 }
  if 2 ≤ c.tmr.acksDelayedCnt then
    ({ c with tmr.ackDelayed := false, tmr.acksDelayedCnt := 0 }, true)
  else if !c.tmr.ackDelayed then
    ({ c with
        tmr.ackTs := now
        tmr.ackDelayed := true
        tmr.nextTimeout := minTime c.tmr.nextTimeout (now + tcpAckTimeout) }, false)
  else (c, false)

/-- The critical section of `tcp_rx_conn` when it does not divert to the slow path. -/
def tcpRxConnFast : RxOut :=
  let c := fastAck c r.m.segSeq r.ack r.win
  let c := { c with rcv.nxt := r.m.segEnd, rcv.wnd := c.rcv.wnd - r.len }
  let (c, doAck) := fastDelayAck now c
  { c := { c with rx.q := c.rx.q ++ [r.m], rx.log := c.rx.log ++ [r.m] }
    doAck := doAck
    doDrop := false }

def tcpRxConnLocked : Except Fault RxOut :=
  if slowPath c r then tcpRxConnSlow dbg env c r else .ok (tcpRxConnFast env.now c r)

/-! ## Listeners -/

inductive ListenerOut where
  | dropped
  | reset (r : Rst)
  | attached (c : Conn) (opts : TcpOptions)

/-- `tcp_rx_listener` up to `tcp_conn_attach`, when memory and the port are available. -/
def tcpRxListener (iss mtu : Seq) (attachTs : Time) (p : Packet) : Except Fault ListenerOut :=
  -- do exactly what RFC 793 says
  if hasFlag p.flags tcpRst then .ok .dropped
  else if hasFlag p.flags tcpAck then .ok (.reset (tcpTxRawRst p.ack))
  else if !hasFlag p.flags tcpSyn then .ok .dropped
  else
    let hdrLen : Seq := p.off.setWidth 32 * 4
    if p.ipLen.setWidth 32 - 20 ≠ hdrLen then .ok .dropped
    else
      let optlen := hdrLen - 20
      if p.body.length < optlen.toNat then .ok .dropped
      else
        -- we have a valid SYN packet, initialize a new connection
        let c := tcpConnAlloc iss mtu attachTs
        let c := { c with rcv.irs := p.seq, rcv.nxt := p.seq + 1 }
        match tcpParseOptions c (p.body ++ p.slack) optlen.toNat with
        | .error f => .error f
        | .ok (c, opts) => .ok (.attached c opts)

/-! ## Closed ports -/

def tcpRxClosed (p : Packet) : Option Rst :=
  if hasFlag p.flags tcpRst then none
  else if hasFlag p.flags tcpAck then some (tcpTxRawRst p.ack)
  else
    let len : Seq := p.ipLen.setWidth 32 - 20 - p.off.setWidth 32 * 4
    some (tcpTxRawRstAck 0 (p.seq + len))

end Aspen.Tcp
