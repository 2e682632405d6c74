import Aspen.Tcp.Conn

/-!
# The egress datapath

`runtime/net/tcp_out.c`. What the network does with a packet is an input (`Env`): whether a buffer can
be allocated, and what `net_tx_ip` returns.

`tcp_tx_send` runs without the connection lock, under write exclusion, and publishes `snd_nxt` once per
segment; its loop is therefore modelled one round at a time (`tcpTxSendRound`), and ingress processing
may come between any two rounds.
-/

namespace Aspen.Tcp

/-- A control segment sent outside of any connection's TX queue. -/
structure Rst where
  seq : Seq
  ack : Seq
  flags : Flags
deriving DecidableEq

variable (now : Time) (env : Env) (busy : Bool) (c : Conn)

def tcpTxRawRst (seq : Seq) : Rst := { seq := seq, ack := 0, flags := tcpRst }

def tcpTxRawRstAck (seq ack : Seq) : Rst := { seq := seq, ack := ack, flags := tcpRst ||| tcpAck }

/-- Write the TCP header, remembering the acknowledgement and window it carries. Without the lock these may be older than
the ones of the connection, and than the ones of the header before. -/
def tcpPushTcphdr (loaded : Option (Seq × Seq)) : Conn :=
  { c with
    tx.lastAck := (loaded.map Prod.fst).getD c.rcv.nxt
    tx.lastWin := (loaded.map Prod.snd).getD c.rcv.wnd }

def tcpTxAck : Conn := if env.alloc then tcpPushTcphdr c env.loaded else c

/-! ## Options -/

structure TcpOptions where
  enMss : Bool
  enWscale : Bool
  mss : BitVec 16
  wscale : BitVec 8
deriving DecidableEq

def tcpOptEol : ℕ := 0
def tcpOptNop : ℕ := 1
def tcpOptMss : ℕ := 2
def tcpOptWscale : ℕ := 3
def tcpOlenMss : ℕ := 4
def tcpOlenWscale : ℕ := 3

/-- The option bytes in wire order: the window scale is pushed first, so it comes last. -/
def tcpPushOptions (opts : TcpOptions) : List UInt8 :=
  (if opts.enMss then
    [UInt8.ofNat tcpOptMss, UInt8.ofNat tcpOlenMss, UInt8.ofNat (opts.mss.toNat / 256),
      UInt8.ofNat (opts.mss.toNat % 256)] else []) ++
  (if opts.enWscale then
    [UInt8.ofNat tcpOptNop, UInt8.ofNat tcpOptWscale, UInt8.ofNat tcpOlenWscale,
      UInt8.ofNat opts.wscale.toNat] else [])

/-! ## Control segments -/

/-- Send a control message without data. When `net_tx_ip` fails the packet is pretended to have been
sent, but the error is returned all the same. -/
def tcpTxCtl (flags : Flags) (opts : Option TcpOptions) : Conn × Option Errno :=
  if env.alloc then
    let m : Mbuf :=
      { data := []
        segSeq := c.snd.nxt
        segEnd := c.snd.nxt + 1
        flags := flags
        opts := (opts.map tcpPushOptions).getD []
        timestamp := env.now }
    let c := tcpPushTcphdr c none
    ({ c with
        snd.nxt := c.snd.nxt + 1
        tx.q := c.tx.q ++ [m]
        tx.ctlLog := c.tx.ctlLog ++ [flags] }, env.tx)
  else (c, some .enomem)

lemma tcpTxCtl_cases {env : Env} {c c' : Conn} {flags : Flags} {opts : Option TcpOptions}
    {ret : Option Errno} (h : tcpTxCtl env c flags opts = (c', ret)) :
    (env.alloc = false ∧ c' = c ∧ ret = some .enomem) ∨
    (env.alloc ∧ ret = env.tx ∧ ∃ m : Mbuf,
      m.segSeq = c.snd.nxt ∧ m.segEnd = c.snd.nxt + 1 ∧ m.flags = flags ∧
      c' = { tcpPushTcphdr c none with
        snd.nxt := c.snd.nxt + 1
        tx.q := c.tx.q ++ [m]
        tx.ctlLog := c.tx.ctlLog ++ [flags] }) := by
  unfold tcpTxCtl at h
  split at h
  · rename_i ha
    cases h
    exact .inr ⟨ha, rfl, _, rfl, rfl, rfl, rfl⟩
  · rename_i ha
    cases h
    exact .inl ⟨by simpa using ha, rfl, rfl⟩

/-! ## Data segments -/

inductive SendRound where
  /-- a segment was handed to the network, with this result of `net_tx_ip` -/
  | sent (ret : Option Errno)
  /-- `break`: the last buffer is kept for later -/
  | deferred
  /-- `break`: no buffer could be allocated -/
  | nobufs

/-- `mbuf_length(m) - sizeof(struct tcp_hdr) < mss`, a 64-bit comparison whose left side wraps. -/
def tcpTxDefers (m : Mbuf) (mss : Seq) : Bool := BitVec.ofNat 64 (mbufLength m) - 20#64 < mss.setWidth 64

/-- The buffer a round fills, with the number of bytes it takes: `tx_pending`, or a fresh one. -/
def tcpTxSendBuf (len : ℕ) : Option (Mbuf × ℕ) :=
  match c.tx.pending with
  | some m =>
    let seglen := min len (c.snd.mss - BitVec.ofNat 32 (mbufLength m)).toNat
    some ({ m with segEnd := m.segEnd + BitVec.ofNat 32 seglen }, seglen)
  | none =>
    let seglen := min len c.snd.mss.toNat
    if env.alloc then
      some ({ data := [], segSeq := c.snd.nxt, segEnd := c.snd.nxt + BitVec.ofNat 32 seglen,
              flags := tcpAck }, seglen)
    else none

/-- One round of the main TCP segmenter loop of `tcp_tx_send`; `rest` is what lies between `pos` and
`end`. Returns the connection, what is left to send and how the round ended. -/
def tcpTxSendRound (rest : List UInt8) (push : Bool) : Conn × List UInt8 × SendRound :=
  match tcpTxSendBuf env c rest.length with
  | none => (c, rest, .nobufs)
  | some (m, seglen) =>
    let m := { m with data := m.data ++ rest.take seglen }
    let c := { c with tx.pending := none, snd.nxt := c.snd.nxt + BitVec.ofNat 32 seglen }
    let rest := rest.drop seglen
    -- if not pushing, keep the last buffer for later
    if !push && rest.isEmpty && tcpTxDefers m c.snd.mss then
      ({ c with tx.pending := some m }, rest, .deferred)
    else
      let m := if push && rest.isEmpty then { m with flags := m.flags ||| tcpPush } else m
      let m := { m with timestamp := env.now }
      let c := tcpPushTcphdr c env.loaded
      ({ c with tx.q := c.tx.q ++ [m] }, rest, .sent env.tx)

/-- A buffer that was filled with `n` more bytes of `rest`. -/
inductive Filled (c : Conn) (rest : List UInt8) (n : ℕ) : Mbuf → Prop
  | pending {m m' : Mbuf} (hp : c.tx.pending = some m)
      (hn : n ≤ (c.snd.mss - BitVec.ofNat 32 m.data.length).toNat)
      (hseq : m'.segSeq = m.segSeq) (hend : m'.segEnd = m.segEnd + BitVec.ofNat 32 n)
      (hdata : m'.data = m.data ++ rest.take n) : Filled c rest n m'
  | fresh {m' : Mbuf} (hp : c.tx.pending = none) (hn : n ≤ c.snd.mss.toNat)
      (hseq : m'.segSeq = c.snd.nxt) (hend : m'.segEnd = c.snd.nxt + BitVec.ofNat 32 n)
      (hdata : m'.data = rest.take n) : Filled c rest n m'

lemma tcpTxSendRound_cases {env : Env} {c c' : Conn} {rest rest' : List UInt8} {push : Bool}
    {r : SendRound} (h : tcpTxSendRound env c rest push = (c', rest', r)) :
    (c' = c ∧ rest' = rest ∧ r = .nobufs) ∨
    ∃ m n, n ≤ rest.length ∧ rest' = rest.drop n ∧ Filled c rest n m ∧
      ((r = .deferred ∧ (push = false ∧ rest.length ≤ n ∧ tcpTxDefers m c.snd.mss) ∧
        c' = { c with snd.nxt := c.snd.nxt + BitVec.ofNat 32 n, tx.pending := some m }) ∨
       (∃ ret, r = .sent ret) ∧ ∃ lastAck lastWin,
        c' = { c with
          snd.nxt := c.snd.nxt + BitVec.ofNat 32 n
          tx := { c.tx with
            pending := none, q := c.tx.q ++ [m], lastAck := lastAck, lastWin := lastWin } }) := by
  unfold tcpTxSendRound at h
  split at h
  · cases h
    exact .inl ⟨rfl, rfl, rfl⟩
  rename_i m n hbuf
  have hn : n ≤ rest.length := by
    unfold tcpTxSendBuf at hbuf
    split at hbuf
    · cases hbuf
      exact min_le_left _ _
    · split at hbuf
      · cases hbuf
        exact min_le_left _ _
      · cases hbuf
  have hfill : ∀ flags timestamp, Filled c rest n
      { m with data := m.data ++ rest.take n, flags := flags, timestamp := timestamp } := by
    intro flags timestamp
    unfold tcpTxSendBuf at hbuf
    split at hbuf
    · rename_i hp
      cases hbuf
      exact .pending hp (min_le_right _ _) rfl rfl rfl
    · rename_i hp
      split at hbuf
      · cases hbuf
        exact .fresh hp (min_le_right _ _) rfl rfl rfl
      · cases hbuf
  dsimp only at h
  split at h
  · rename_i hdefer
    simp only [Bool.and_eq_true, Bool.not_eq_true', List.isEmpty_iff, List.drop_eq_nil_iff] at hdefer
    obtain ⟨⟨hpush, hrest⟩, hdefer⟩ := hdefer
    cases h
    exact .inr ⟨_, n, hn, rfl, hfill m.flags m.timestamp, .inl ⟨rfl, ⟨hpush, hrest, hdefer⟩, rfl⟩⟩
  · cases h
    split
    · exact .inr ⟨_, n, hn, rfl, hfill _ _, .inr ⟨⟨_, rfl⟩, _, _, rfl⟩⟩
    · exact .inr ⟨_, n, hn, rfl, hfill m.flags _, .inr ⟨⟨_, rfl⟩, _, _, rfl⟩⟩

/-! ## Retransmission -/

/-- Mark the first pending egress packet for a fast retransmit. -/
def tcpTxFastRetransmitStart : Conn × Option Mbuf :=
  if c.tx.exclusive then (c, none)
  else match c.tx.q with
    | [] => (c, none)
    | m :: q =>
      let m := { m with timestamp := now }
      ({ c with tx.q := m :: q }, some m)

/-- What `tcp_tx_retransmit_one` leaves of a queued buffer. If it is still being transmitted (`busy`) a copy is sent;
otherwise it loses what was acknowledged. -/
def tcpTxRetransmitOne (una : Seq) (m : Mbuf) : Except Fault Mbuf :=
  if busy then .ok m
  else if wrapsLte m.segEnd una then .ok m
  else if wrapsLt m.segSeq una then
    match mbufPull m (una - m.segSeq).toNat with
    | .error f => .error f
    | .ok m => .ok { m with segSeq := una }
  else .ok m

inductive RetransmitRound where
  | stop
  | skipped
  | resent
deriving DecidableEq

/-- One round of the loop of `tcp_tx_retransmit`, at the `i`-th buffer of the TX queue; `now` was read
before the loop. -/
def tcpTxRetransmitRound (i : ℕ) : Except Fault (Conn × RetransmitRound) :=
  match c.tx.q[i]? with
  | none => .ok (c, .stop)
  | some m =>
    if now - m.timestamp < tcpRetransmitTimeout then .ok (c, .stop)
    else if wrapsGte c.snd.una m.segEnd then .ok (c, .skipped)
    else if busy && !env.alloc then
      .ok ({ c with tx.q := c.tx.q.set i { m with timestamp := now } }, .stop)
    else
      match tcpTxRetransmitOne busy c.snd.una { m with timestamp := now } with
      | .error f => .error f
      | .ok m =>
        let c := tcpPushTcphdr { c with tx.q := c.tx.q.set i m } env.loaded
        .ok (c, if env.tx.isSome then .stop else .resent)

lemma tcpTxRetransmitRound_cases {now : Time} {env : Env} {busy : Bool} {c c' : Conn} {i : ℕ}
    {r : RetransmitRound} (h : tcpTxRetransmitRound now env busy c i = .ok (c', r)) :
    c' = c ∨ ∃ m m' lastAck lastWin, c.tx.q[i]? = some m ∧
      m'.segEnd = m.segEnd ∧ m'.flags = m.flags ∧
      (m'.segSeq = m.segSeq ∨ wrapsLt m.segSeq c.snd.una ∧
        wrapsLte m.segEnd c.snd.una = false ∧ m'.segSeq = c.snd.una) ∧
      c' = { c with
        tx := { c.tx with q := c.tx.q.set i m', lastAck := lastAck, lastWin := lastWin } } := by
  unfold tcpTxRetransmitRound at h
  split at h
  · cases h
    exact .inl rfl
  rename_i m hm
  split at h
  · cases h
    exact .inl rfl
  split at h
  · cases h
    exact .inl rfl
  split at h
  · cases h
    exact .inr ⟨m, { m with timestamp := now }, c.tx.lastAck, c.tx.lastWin, hm, rfl, rfl, .inl rfl, rfl⟩
  split at h
  · cases h
  rename_i m' hone
  cases h
  refine .inr ⟨m, m', (env.loaded.map Prod.fst).getD c.rcv.nxt, (env.loaded.map Prod.snd).getD c.rcv.wnd, hm, ?_⟩
  unfold tcpTxRetransmitOne at hone
  split at hone
  · cases hone
    exact ⟨rfl, rfl, .inl rfl, rfl⟩
  split at hone
  · cases hone
    exact ⟨rfl, rfl, .inl rfl, rfl⟩
  rename_i hend
  split at hone
  · rename_i hseq
    split at hone
    · cases hone
    · rename_i m1 hpull
      cases hone
      obtain ⟨-, rfl⟩ := mbufPull_eq_ok.1 hpull
      exact ⟨rfl, rfl, .inr ⟨hseq, by simpa using hend, rfl⟩, rfl⟩
  · cases hone
    exact ⟨rfl, rfl, .inl rfl, rfl⟩

end Aspen.Tcp
