import Aspen.Base.Wraps

/-!
# Packet buffers

The part of `struct mbuf` (`inc/net/mbuf.h`) that TCP reads and writes. `data` is the byte range
`[m->data, m->data + m->len)`, so `mbuf_length` is `data.length`; headers that are pushed in front of
an egress buffer are not part of it.
-/

namespace Aspen

abbrev Time := BitVec 64

abbrev Flags := BitVec 8

def tcpFin : Flags := 0x01#8
def tcpSyn : Flags := 0x02#8
def tcpRst : Flags := 0x04#8
def tcpPush : Flags := 0x08#8
def tcpAck : Flags := 0x10#8
def tcpUrg : Flags := 0x20#8

/-- `(flags & mask) > 0` -/
def hasFlag (flags mask : Flags) : Bool := flags &&& mask != 0#8

lemma hasFlag_or (flags a b : Flags) : hasFlag flags (a ||| b) = (hasFlag flags a || hasFlag flags b) := by
  have h : flags &&& (a ||| b) = 0#8 ↔ flags &&& a = 0#8 ∧ flags &&& b = 0#8 := by
    rw [BitVec.and_or_distrib_left, BitVec.or_eq_zero_iff]
  rw [Bool.eq_iff_iff]
  simp only [hasFlag, Bool.or_eq_true, bne_iff_ne, ne_eq, h]
  tauto

/-- Why a critical section never completes. A failed `BUG_ON` is fatal in every build, a failed
`assert` only in a `DEBUG` one. -/
inductive Fault where
  | bugPull
  | bugTrim
  /-- `assert(wraps_lte(m->seg_seq, c->pcb.rcv_nxt))` in `tcp_rx_append_text` -/
  | assertSegSeq
  /-- `assert(wraps_gt(m->seg_end, c->pcb.rcv_nxt))` in `tcp_rx_append_text` -/
  | assertSegEnd
  /-- `assert(c->pcb.rcv_wnd >= m->seg_end - m->seg_seq)` in `tcp_rx_append_text` -/
  | assertRcvWnd
  /-- the option loop of `tcp_parse_options` makes no progress -/
  | hang
deriving DecidableEq

/-- `assert(cond)`, which is compiled out unless `dbg`. -/
def assertThat (dbg cond : Bool) (f : Fault) : Except Fault Unit := if dbg && !cond then .error f else .ok ()

structure Mbuf where
  data : List UInt8
  segSeq : Seq
  /-- the last sequence number (noninclusive) -/
  segEnd : Seq
  flags : Flags
  /-- the TCP options of a control segment -/
  opts : List UInt8 := []
  /-- the time the packet was last sent -/
  timestamp : Time := 0
deriving DecidableEq

def mbufLength (m : Mbuf) : ℕ := m.data.length

def mbufPull (m : Mbuf) (len : ℕ) : Except Fault Mbuf :=
  if mbufLength m < len then .error .bugPull else .ok { m with data := m.data.drop len }

def mbufTrim (m : Mbuf) (len : ℕ) : Except Fault Mbuf := if mbufLength m < len then .error .bugTrim
  else .ok { m with data := m.data.take (m.data.length - len) }

lemma mbufPull_eq_ok {m m' : Mbuf} {len : ℕ} :
    mbufPull m len = .ok m' ↔ len ≤ m.data.length ∧ m' = { m with data := m.data.drop len } := by
  unfold mbufPull mbufLength
  split
  · simp; omega
  · rename_i h
    rw [not_lt] at h
    simp [h, eq_comm]

lemma mbufTrim_eq_ok {m m' : Mbuf} {len : ℕ} : mbufTrim m len = .ok m' ↔
      len ≤ m.data.length ∧ m' = { m with data := m.data.take (m.data.length - len) } := by
  unfold mbufTrim mbufLength
  split
  · simp; omega
  · rename_i h
    rw [not_lt] at h
    simp [h, eq_comm]

@[simp] lemma assertThat_true (dbg : Bool) (f : Fault) : assertThat dbg true f = .ok () := by
  simp [assertThat]

end Aspen
