import Aspen.Net.Mbuf

/-!
# The TCP connection

`struct tcpconn` and `struct tcp_pcb` of `runtime/net/tcp.h`. The fields are kept in the groups the header has,
one structure each, so that a function that leaves a group alone says so in one equation.

Left out are the transport entry, the list links, the lock (every function below is one critical section, or
says that it is not) and the two wait queues: a thread that sleeps in `waitq_wait` may go on whenever the
condition it waits for holds.

`Rx.log`, `Tx.ctlLog` and the three counters at the end of `Conn` are history, which the source does not have.
-/

namespace Aspen.Tcp

/-! ## Constants -/

def tcpMinMss : Seq := 88
def tcpWin : Seq := 0x1FFFF
def oneMs : Time := 1000
def oneSecond : Time := 1000000
def tcpAckTimeout : Time := 10 * oneMs
def tcpConnectTimeout : Time := 5 * oneSecond
def tcpOoqAckTimeout : Time := 300 * oneMs
def tcpTimeWaitTimeout : Time := 1 * oneSecond
def tcpZeroWndTimeout : Time := 300 * oneMs
def tcpRetransmitTimeout : Time := 300 * oneMs
def tcpFastRetransmitThresh : ℕ := 3
def tcpOooMaxSize : ℕ := 2048
def tcpRetransmitBatch : ℕ := 16
def ethDefaultMtu : Seq := 1500

def tcpCalculateMss (mtu : Seq) : Seq := mtu - 20 - 20

/-! ## States and errors -/

inductive State where
  | synSent | synReceived | established | finWait1 | finWait2
  | closeWait | closing | lastAck | timeWait | closed
deriving DecidableEq

/-- The value of the enumerator; the source compares states with `<`. -/
def State.num : State → ℕ
  | .synSent => 0
  | .synReceived => 1
  | .established => 2
  | .finWait1 => 3
  | .finWait2 => 4
  | .closeWait => 5
  | .closing => 6
  | .lastAck => 7
  | .timeWait => 8
  | .closed => 9

def State.opening (st : State) : Bool := st.num < State.established.num

inductive Errno where
  | enomem | enobufs | econnreset | etimedout | econnaborted | ehostunreach
deriving DecidableEq

/-! ## Protocol control block -/

structure Snd where
  una : Seq
  nxt : Seq
  wnd : Seq
  wl1 : Seq
  wl2 : Seq
  iss : Seq
  wscale : Seq
  mss : Seq
deriving DecidableEq

structure Rcv where
  nxt : Seq
  wnd : Seq
  irs : Seq
  wscale : Seq
  mss : Seq
deriving DecidableEq

structure Rx where
  closed : Bool
  exclusive : Bool
  oooLen : ℕ
  ooo : List Mbuf
  q : List Mbuf
  /-- history: every buffer ever added to the tail of `rxq`, as it was added -/
  log : List Mbuf
deriving DecidableEq

structure Tx where
  closed : Bool
  exclusive : Bool
  lastAck : Seq
  lastWin : Seq
  pending : Option Mbuf
  q : List Mbuf
  doFastRetransmit : Bool
  fastRetransmitLastAck : Seq
  /-- history: the flags of every control segment ever queued by `tcp_tx_ctl` -/
  ctlLog : List Flags
deriving DecidableEq

/-- The timeouts. `timeWaitTs` shares its storage with `attach_ts`. -/
structure Timers where
  nextTimeout : Time
  ackTs : Time
  zeroWndTs : Time
  timeWaitTs : Time
  zeroWnd : Bool
  ackDelayed : Bool
  repAcks : ℕ
  acksDelayedCnt : ℕ
deriving DecidableEq

structure Conn where
  state : State
  snd : Snd
  rcv : Rcv
  nonblocking : Bool
  ref : ℤ
  err : Option Errno
  winmax : Seq
  rx : Rx
  tx : Tx
  tmr : Timers
  /-- history: how often a reference was taken on behalf of the state machine -/
  smGets : ℕ
  /-- history: how often a reference was dropped on behalf of the state machine -/
  smDrops : ℕ
  /-- history: how often `tcp_conn_destroy` ran -/
  destroys : ℕ
deriving DecidableEq

def tcpIsSndFull (c : Conn) : Bool := wrapsLte (c.snd.una + c.snd.wnd) c.snd.nxt

structure Env where
  now : Time := 0
  /-- does `net_tx_alloc_mbuf` succeed? -/
  alloc : Bool := true
  /-- the result of `net_tx_ip` (`none` is 0) -/
  tx : Option Errno := none
  /-- the `rcv_nxt` and `rcv_wnd` that a header built without the lock has loaded, if they have changed since -/
  loaded : Option (Seq × Seq) := none

/-! ## Allocation -/

/-- The loop of `tcp_scale_window`, which ends after at most 14 rounds. -/
def tcpScaleWindowLoop : ℕ → Seq → Seq → Seq
  | 0, _, wscale => wscale
  | n + 1, maxwin, wscale =>
    if 65535 < maxwin then tcpScaleWindowLoop n (maxwin >>> 1) (wscale + 1) else wscale

def tcpScaleWindow (maxwin : Seq) : Seq := tcpScaleWindowLoop 14 maxwin 0

/-- A fresh connection; `iss` is the random initial sequence number and `attachTs` the time
`tcp_conn_attach` stores. -/
def tcpConnAlloc (iss mtu : Seq) (attachTs : Time) : Conn where
  state := .closed
  snd := { una := iss, nxt := iss, wnd := 0, wl1 := 0, wl2 := 0, iss := iss, wscale := 0, mss := 0 }
  rcv := { nxt := 0, wnd := tcpWin, irs := 0, wscale := tcpScaleWindow tcpWin, mss := tcpCalculateMss mtu }
  nonblocking := false
  ref := 1
  err := none
  winmax := tcpWin
  rx := { closed := false, exclusive := false, oooLen := 0, ooo := [], q := [], log := [] }
  tx := { closed := false, exclusive := false, lastAck := 0, lastWin := 0, pending := none, q := [],
          doFastRetransmit := false, fastRetransmitLastAck := 0, ctlLog := [] }
  tmr := { nextTimeout := BitVec.allOnes 64, ackTs := 0, zeroWndTs := 0, timeWaitTs := attachTs,
           zeroWnd := false, ackDelayed := false, repAcks := 0, acksDelayedCnt := 0 }
  smGets := 0
  smDrops := 0
  destroys := 0

end Aspen.Tcp
