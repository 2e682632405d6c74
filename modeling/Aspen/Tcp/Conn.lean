import Aspen.Tcp.Defs

/-!
# Connection upkeep

The helpers of `runtime/net/tcp.c` that every path shares: timers, acknowledged buffers, the state
change, the reference count and failure.
-/

namespace Aspen.Tcp

variable (now : Time) (err : Errno) (c : Conn)

def minTime (a b : Time) : Time := if a < b then a else b

def nextTimeout : Time := let t : Time := BitVec.allOnes 64
  let t := if c.state = .timeWait then c.tmr.timeWaitTs + tcpTimeWaitTimeout else t
  let t := if c.state.opening then c.tmr.timeWaitTs + tcpConnectTimeout else t
  let t := if c.tmr.ackDelayed then minTime t (c.tmr.ackTs + tcpAckTimeout) else t
  let t := if c.tmr.zeroWnd then minTime t (c.tmr.zeroWndTs + tcpZeroWndTimeout) else t
  let t := if !c.tx.exclusive then
      match c.tx.q with
      | [] => t
      | m :: _ => minTime t (m.timestamp + tcpRetransmitTimeout)
    else t
  if c.rx.ooo.isEmpty then t else minTime t (now + tcpOoqAckTimeout)

def tcpTimerUpdate : Conn := { c with tmr.nextTimeout := nextTimeout now c }

/-- Remove fully acknowledged packets from the TX queue; they are freed once the lock is dropped. -/
def tcpConnAck : Conn :=
  -- the writer that holds the queue frees them later
  if c.tx.exclusive then c
  else { c with tx.q := c.tx.q.dropWhile fun m => !wrapsGt m.segEnd c.snd.una }

def tcpConnSetState (st : State) (c : Conn) : Conn := tcpTimerUpdate now { c with state := st }

def tcpConnDestroy : Conn := { c with destroys := c.destroys + 1 }

def tcpConnGet : Conn := { c with ref := c.ref + 1 }

def tcpConnGetSm : Conn := tcpConnGet { c with smGets := c.smGets + 1 }

/-- `kref_put` with `tcp_conn_release_ref` as the release function. -/
def tcpConnPut : Conn := let c := { c with ref := c.ref - 1 }
  if c.ref = 0 then tcpConnDestroy c else c

def tcpConnPutSm : Conn := tcpConnPut { c with smDrops := c.smDrops + 1 }

def tcpConnShutdownRx : Conn := { c with rx.closed := true }

def tcpConnFail : Conn := let c := { c with err := some err }
  let c := tcpConnSetState now .closed c
  let c := tcpConnShutdownRx c
  let c := { c with tx.closed := true }
  -- the egress buffers will be freed by the writer if one is busy
  let c := if c.tx.exclusive then c else { c with tx.q := [], tx.pending := none }
  let c := if c.rx.exclusive then c else { c with rx.q := [] }
  let c := { c with rx.ooo := [] }
  tcpConnPutSm c

/-! ## The helpers in closed form -/

lemma tcpConnAck_eq : tcpConnAck c = { c with
    tx.q := if c.tx.exclusive then c.tx.q
      else c.tx.q.dropWhile (fun m => !wrapsGt m.segEnd c.snd.una) } := by
  unfold tcpConnAck
  split <;> rfl

lemma tcpConnPut_eq : tcpConnPut c = { c with
    ref := c.ref - 1
    destroys := c.destroys + if c.ref - 1 = 0 then 1 else 0 } := by
  unfold tcpConnPut
  dsimp only
  split <;> rfl

lemma tcpConnPutSm_eq : tcpConnPutSm c = { c with
    ref := c.ref - 1
    smDrops := c.smDrops + 1
    destroys := c.destroys + if c.ref - 1 = 0 then 1 else 0 } := by
  rw [tcpConnPutSm, tcpConnPut_eq]

/-- A failed connection is closed on both sides and has dropped the state machine's reference. Only the buffers of a
reader or a writer survive. -/
lemma tcpConnFail_eq : tcpConnFail now err c = { c with
    state := .closed
    err := some err
    rx := { c.rx with closed := true, q := if c.rx.exclusive then c.rx.q else [], ooo := [] }
    tx := { c.tx with
      closed := true
      q := if c.tx.exclusive then c.tx.q else []
      pending := if c.tx.exclusive then c.tx.pending else none }
    tmr.nextTimeout := nextTimeout now { c with err := some err, state := .closed }
    ref := c.ref - 1
    smDrops := c.smDrops + 1
    destroys := c.destroys + if c.ref - 1 = 0 then 1 else 0 } := by
  by_cases ht : c.tx.exclusive = true <;> by_cases hr : c.rx.exclusive = true <;>
    simp [tcpConnFail, tcpConnSetState, tcpTimerUpdate, tcpConnShutdownRx, tcpConnPutSm_eq, ht, hr]

end Aspen.Tcp
