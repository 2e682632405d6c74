import Aspen.Tcp.FastPath
import Aspen.Tcp.Moves
import Aspen.Tcp.Reading

/-!
# The receiving side over whole runs

`RecvInv` holds in every state of every run. Its heart is `room`: the window we offer and the bytes we
hold add up to no more than the window we started with, counting the bytes that a reader has announced
but not taken out yet. So the window never exceeds `0x1FFFF`, the comparisons of `tcp_in.c` are about
integers (`Aspen.Tcp.Text`), and the out-of-order queue is always as `tcp_rx_text` expects it.
-/

namespace Aspen.Tcp

open Serial Run List

variable {dbg : Bool} {env : Env} {c c' : Conn} {m : Mbuf} {r : RxSeg} {fin : Bool}

/-! ## What text adds -/

def received (q : List Mbuf) : ℕ := (q.map fun m => (m.segEnd - m.segSeq).toNat).sum

@[simp] lemma received_nil : received [] = 0 := rfl

@[simp] lemma received_append (q q' : List Mbuf) : received (q ++ q') = received q + received q' := by
  simp [received]

@[simp] lemma received_singleton (m : Mbuf) : received [m] = (m.segEnd - m.segSeq).toNat := by
  simp [received]

structure Appends (c c' : Conn) (l : List Mbuf) : Prop where
  q : c'.rx.q = c.rx.q ++ l
  log : c'.rx.log = c.rx.log ++ l
  closed : c'.rx.closed = c.rx.closed
  exclusive : c'.rx.exclusive = c.rx.exclusive
  irs : c'.rcv.irs = c.rcv.irs
  room : c'.rcv.wnd.toNat + (payload l).length ≤ c.rcv.wnd.toNat

lemma Appends.refl (c : Conn) : Appends c c [] := ⟨by simp, by simp, rfl, rfl, rfl, by simp⟩

lemma Appends.trans {c'' : Conn} {l l' : List Mbuf} (h : Appends c c' l) (h' : Appends c' c'' l') :
    Appends c c'' (l ++ l') where
  q := by rw [h'.q, h.q, append_assoc]
  log := by rw [h'.log, h.log, append_assoc]
  closed := h'.closed.trans h.closed
  exclusive := h'.exclusive.trans h.exclusive
  irs := h'.irs.trans h.irs
  room := by
    have h1 := h.room
    have h2 := h'.room
    rw [payload_append, length_append]
    omega

lemma appends_clipped (c : Conn) (m : Mbuf) : Appends c (enqueueText c (clipped c m)) [clipped c m] := by
  refine ⟨rfl, rfl, rfl, rfl, rfl, ?_⟩
  have hlen : (clipped c m).data.length ≤ taken c m := by
    simp only [clipped, length_take]
    omega
  have hle := taken_le c m
  rw [enqueueText_clipped_wnd]
  simp only [payload_cons, payload_nil, append_nil]
  omega

lemma Drains.appends {a b : Draining} (h : Drains a b) : ∃ l, Appends a.c b.c l := by
  induction h with
  | refl => exact ⟨[], .refl _⟩
  | tail _ hs ih =>
    obtain ⟨l, hl⟩ := ih
    cases hs with
    | skip h => exact ⟨l, hl.q, hl.log, hl.closed, hl.exclusive, hl.irs, hl.room⟩
    | @append pos _ c1 _ h hfin =>
      have happ := hl.trans (appends_clipped c1 pos)
      exact ⟨_, happ.q, happ.log, happ.closed, happ.exclusive, happ.irs, happ.room⟩

lemma TextMove.appends (h : TextMove c m c' fin) : ∃ l, Appends c c' l := by
  cases h with
  | queued =>
    have h := Appends.refl c
    exact ⟨[], h.q, h.log, h.closed, h.exclusive, h.irs, h.room⟩
  | drained hs hd hw =>
    obtain ⟨l, hl⟩ := hd.appends
    have happ := (appends_clipped c m).trans hl
    exact ⟨_, happ.q, happ.log, happ.closed, happ.exclusive, happ.irs, happ.room⟩

/-! ## What a segment does -/

def FinMove (st st' : State) : Prop := (st = .synReceived ∨ st = .established ∨ st = .finWait1 ∨ st = .finWait2) ∧
  (st' = .closeWait ∨ st' = .closing ∨ st' = .timeWait)
deriving Decidable

inductive RxRecv (c : Conn) (r : RxSeg) (c' : Conn) : Prop
  | keep (h : RcvSame c c') (hfin : ¬ FinMove c.state c'.state)
  | failed (herr : c'.err ≠ none) (hst' : c'.state = .closed) (hrcv : c'.rcv = c.rcv)
      (hrx : c'.rx = c.rx.failed)
  | syn (hst : c.state = .synSent) (hst' : ¬ FinMove c.state c'.state)
      (hnxt : c'.rcv.nxt = r.m.segSeq + 1) (hirs : c'.rcv.irs = r.m.segSeq)
      (hwnd : c'.rcv.wnd = c.rcv.wnd ∨ c'.rcv.wnd.toNat ≤ 65535) (hrx : c'.rx = c.rx)
  | text {c₁ c₂ : Conn} {fin : Bool} (hst : c.state ≠ .closed ∧ c.state ≠ .synSent)
      (hacc : isAcceptable c (segLen r.m) r.m.segSeq = true)
      (h₁ : RcvSame c c₁) (hst₁ : c₁.state.acceptsText = true) (hm : Acceptable c₁ (textSeg r.m))
      (htext : TextMove c₁ (textSeg r.m) c₂ fin) (h₂ : RcvSame c₂ c')
      (hfin : FinMove c.state c'.state ↔ fin = true)
      (hst' : fin = true → c'.state.acceptsText = false)

lemma synConn_recv (c : Conn) (r : RxSeg) (o : ParsedOptions) :
    (synConn c r o).rx = c.rx ∧ (synConn c r o).rcv.nxt = r.m.segSeq + 1 ∧ (synConn c r o).rcv.irs = r.m.segSeq ∧
      ((synConn c r o).rcv.wnd = c.rcv.wnd ∨ (synConn c r o).rcv.wnd.toNat ≤ 65535) := by
  rw [synConn_eq, applyOptions_eq]
  refine ⟨rfl, rfl, rfl, ?_⟩
  dsimp only
  split
  · exact .inl rfl
  · exact .inr (minSeq_le c.winmax 65535)

lemma Expected.isAcceptable_eq (h : Expected c r) (hwnd : c.rcv.wnd.toNat ≤ 131071) :
    isAcceptable c r.len r.m.segSeq = true := by
  have hpos := h.len_pos
  have hfits := h.fits
  refine isAcceptable_of_start (by bv_omega) hwnd ?_ ?_
  · rw [h.next, sdist_self]
  · rw [h.next, sdist_self]
    bv_omega

lemma TextPhase.textMove {c2 : Conn} (h : TextPhase dbg c r c2 fin) (hq : QueueOk c c.rx.ooo) :
    (c2 = c ∧ fin = false) ∨ (isAcceptable c (segLen r.m) r.m.segSeq ∧
      c.state.acceptsText ∧ Acceptable c (textSeg r.m) ∧
      TextMove c (textSeg r.m) c2 fin) := by
  have hwnd := hq.reach.wnd_le
  cases h with
  | unused => exact .inl ⟨rfl, rfl⟩
  | used hlen hst hacc htext =>
    have hm := acceptable_textSeg hwnd hlen hacc
    exact .inr ⟨hacc, hst, hm, tcpRxText_move hq hm htext⟩
  | fast hst hlen hfin hseq hooo hfits =>
    have hx : Expected c r := ⟨hst, hlen, hfin, hseq, hooo, hfits⟩
    have hacc := hx.isAcceptable_eq hwnd
    obtain ⟨wake, htext⟩ := hx.tcpRxText_eq dbg hacc
    rw [← hx.segLen_eq] at hacc hlen
    have hm := acceptable_textSeg hwnd hlen hacc
    rw [← hx.textSeg_eq] at htext
    have hmove := tcpRxText_move hq hm htext
    rw [hx.textSeg_eq] at hmove ⊢
    exact .inr ⟨hacc, by rw [hst]; rfl, hx.textSeg_eq ▸ hm, hmove⟩

lemma not_finMove_self (st : State) : ¬ FinMove st st := by
  rintro ⟨h, h'⟩
  rcases h with rfl | rfl | rfl | rfl <;> simp at h'

lemma not_finMove_acked (c : Conn) (r : RxSeg) (acked : Bool) :
    ¬ FinMove c.state (finAckedState (entered c r).state acked) := by
  rintro ⟨h, h'⟩
  unfold entered at h'
  rcases h with h | h | h | h <;> cases acked <;> simp [h, finAckedState] at h'

lemma finMove_text_iff {c : Conn} {r : RxSeg} {acked : Bool} {st : State}
    (hst : st = finAckedState (entered c r).state acked) (htext : st.acceptsText) :
    FinMove c.state (if fin then finState st else st) ↔ fin = true := by
  cases fin with
  | false => simpa [hst] using not_finMove_acked c r acked
  | true =>
    unfold entered at hst
    cases hc : c.state <;> cases acked <;>
      simp_all [finAckedState, finState, FinMove, State.acceptsText]

lemma AckPhase.recv {c1 : Conn} (h : AckPhase (entered c r) r c1) : RcvSame c c1 := by
  cases h with
  | mk hwnd hq =>
    unfold entered
    split
    · exact ⟨rfl, rfl⟩
    · exact ⟨rfl, rfl⟩

lemma RxMove.recv (h : RxMove dbg env c r c') (hq : QueueOk c c.rx.ooo) : RxRecv c r c' := by
  cases h with
  | quiet => exact .keep ⟨rfl, rfl⟩ (not_finMove_self _)
  | failed hst =>
    obtain ⟨hrcv, hrx, herr⟩ := tcpConnFail_recv env.now .econnreset c
    exact .failed herr (by simp [tcpConnFail_eq]) hrcv hrx
  | @synAcked o t hst hack huna =>
    obtain ⟨hrx, hnxt, hirs, hwnd⟩ := synConn_recv c r o
    exact .syn hst (by simp [FinMove, hst]) hnxt hirs hwnd hrx
  | @synCrossed o opts c1 ret t hst hack huna hctl =>
    obtain ⟨hrx, hnxt, hirs, hwnd⟩ := synConn_recv c r o
    obtain ⟨hrcv', hrx'⟩ : RcvSame (synConn c r o) c1 := by
      obtain ⟨-, rfl, -⟩ | ⟨-, -, m, -, -, -, rfl⟩ := tcpTxCtl_cases hctl
      · exact ⟨rfl, rfl⟩
      · exact ⟨rfl, rfl⟩
    rw [← hrcv'] at hnxt hirs hwnd
    exact .syn hst (by simp [FinMove, hst]) hnxt hirs hwnd (hrx'.trans hrx)
  | lastAcked hst hacc hack huna =>
    have hentered : entered c r = c := by simp [entered, hst]
    have hsame := (hentered.symm ▸ hack : AckPhase (entered c r) r _).recv
    rw [tcpConnPutSm_eq]
    exact .keep hsame (by simp [FinMove, hst])
  | @text c1 c2 fin t hst hacc hack hlast htext =>
    have hsame := hack.recv
    obtain ⟨rcv, rx, hframe⟩ := htext.frame
    have hq1 : QueueOk { c1 with
        state := finAckedState (entered c r).state (c1.snd.una == r.sndNxt) } c1.rx.ooo := by
      rw [hsame.2]
      exact hq.of_rcv hsame.1
    rcases htext.textMove hq1 with ⟨hc2, hfin⟩ | ⟨hacc1, haccepts, hm, hmove⟩
    · rw [hc2, hfin]
      exact .keep hsame (not_finMove_acked c r _)
    · have hst2 : c2.state = finAckedState (entered c r).state (c1.snd.una == r.sndNxt) := by
        rw [hframe]
      have hsame' : RcvSame c { c1 with
        state := finAckedState (entered c r).state (c1.snd.una == r.sndNxt) } := hsame
      rw [isAcceptable, hsame'.1] at hacc1
      refine .text hst hacc1 hsame' haccepts hm hmove ⟨rfl, rfl⟩ ?_ ?_
      · exact finMove_text_iff hst2 (by rw [hst2]; exact haccepts)
      · rintro rfl
        cases c2.state <;> rfl

/-! ## The invariant -/

/-- The bytes a reader has announced, but not taken out of the head of the RX queue yet. -/
def owed : Option ReadCall → ℕ
  | some r => if r.part then r.len - (payload r.q).length else 0
  | none => 0

structure ReadOk (rx : Rx) (r : ReadCall) : Prop where
  iov : ∀ lens ∈ r.iov, lens.sum = r.len
  fits : (payload r.q).length ≤ r.len
  part : r.part = true → rx.exclusive = true ∧ ∃ m ∈ rx.q.head?, r.len - (payload r.q).length ≤ m.data.length

structure RecvOk (c : Conn) (reader : Option ReadCall) : Prop where
  reading : ∀ r ∈ reader, ReadOk c.rx r
  room : c.rcv.wnd.toNat + (payload c.rx.q).length ≤ 131071 + owed reader
  queue : QueueOk c c.rx.ooo

variable {reader : Option ReadCall}

lemma QueueOk.nil (hwnd : c.rcv.wnd.toNat ≤ 131071) : QueueOk c [] :=
  ⟨⟨hwnd, by simp, by simp, by simp⟩, .nil, by simp⟩

lemma RecvOk.owed_le (h : RecvOk c reader) : owed reader ≤ (payload c.rx.q).length := by
  cases reader with
  | none => exact Nat.zero_le _
  | some r =>
    simp only [owed]
    split
    · rename_i hpart
      obtain ⟨-, m, hm, hle⟩ := (h.reading r rfl).part hpart
      obtain ⟨q, hq⟩ := head?_eq_some_iff.1 hm
      rw [hq, payload_cons, length_append]
      omega
    · exact Nat.zero_le _

lemma RecvOk.wnd_le (h : RecvOk c reader) : c.rcv.wnd.toNat ≤ 131071 := h.queue.reach.wnd_le

lemma ReadOk.mono {rx rx' : Rx} {r : ReadCall} (h : ReadOk rx r) (hexcl : rx'.exclusive = rx.exclusive)
    (hq : rx.exclusive → ∃ l, rx'.q = rx.q ++ l) : ReadOk rx' r := by
  refine ⟨h.iov, h.fits, fun hpart => ?_⟩
  obtain ⟨hx, m, hm, hle⟩ := h.part hpart
  obtain ⟨l, hl⟩ := hq hx
  refine ⟨hexcl.trans hx, m, ?_, hle⟩
  obtain ⟨q, hq'⟩ := head?_eq_some_iff.1 hm
  rw [hl, hq']
  rfl

lemma RecvOk.of_same (h : RecvOk c reader) (hsame : RcvSame c c') : RecvOk c' reader := by
  obtain ⟨hrcv, hrx⟩ := hsame
  refine ⟨?_, ?_, ?_⟩
  · rw [hrx]
    exact h.reading
  · rw [hrcv, hrx]
    exact h.room
  · rw [hrx]
    exact h.queue.of_rcv hrcv

lemma RecvOk.close (h : RecvOk c reader) (hrcv : c'.rcv = c.rcv)
    {b : Bool} (hrx : c'.rx = { c.rx with closed := b }) : RecvOk c' reader := by
  refine ⟨?_, ?_, ?_⟩
  · intro r hr
    rw [hrx]
    exact (h.reading r hr).mono rfl fun _ => ⟨[], (append_nil _).symm⟩
  · rw [hrcv, hrx]
    exact h.room
  · rw [hrx]
    exact h.queue.of_rcv hrcv

lemma RecvOk.fail (h : RecvOk c reader) (hrcv : c'.rcv = c.rcv) (hrx : c'.rx = c.rx.failed) : RecvOk c' reader := by
  have hroom := h.room
  refine ⟨?_, ?_, ?_⟩
  · intro r hr
    rw [hrx]
    refine (h.reading r hr).mono rfl fun hx => ⟨[], ?_⟩
    simp [Rx.failed, hx]
  · rw [hrcv, hrx]
    simp only [Rx.failed]
    split
    · exact hroom
    · rw [payload_nil, length_nil]
      omega
  · rw [hrx]
    exact QueueOk.nil (by rw [hrcv]; exact h.wnd_le)

lemma RecvOk.syn (h : RecvOk c none) (hq : c.rx.q = []) (hooo : c.rx.ooo = [])
    (hwnd : c'.rcv.wnd = c.rcv.wnd ∨ c'.rcv.wnd.toNat ≤ 65535) (hrx : c'.rx = c.rx) : RecvOk c' none := by
  have hle : c'.rcv.wnd.toNat ≤ 131071 := by
    rcases hwnd with hwnd | hwnd
    · rw [hwnd]
      exact h.wnd_le
    · omega
  refine ⟨by simp, ?_, ?_⟩
  · rw [hrx, hq]
    simpa [owed] using hle
  · rw [hrx, hooo]
    exact QueueOk.nil hle

lemma RecvOk.text (h : RecvOk c reader) (hm : Acceptable c m) (htext : TextMove c m c' fin) : RecvOk c' reader := by
  obtain ⟨l, happ⟩ := htext.appends
  refine ⟨?_, ?_, htext.queueOk h.queue hm⟩
  · intro r hr
    exact (h.reading r hr).mono happ.exclusive fun _ => ⟨l, happ.q⟩
  · have hroom := h.room
    have hpaid := happ.room
    rw [happ.q, payload_append, length_append]
    omega

lemma RecvOk.ingress (h : RecvOk c reader) (hm : RxRecv c r c')
    (hsyn : c.state = .synSent → c.rx.q = [] ∧ c.rx.ooo = [] ∧ c.rx.log = [] ∧ reader = none) :
    RecvOk c' reader := by
  cases hm with
  | keep hsame hfin => exact h.of_same hsame
  | failed herr hst' hrcv hrx => exact h.fail hrcv hrx
  | syn hst hst' hnxt hirs hwnd hrx =>
    obtain ⟨hq, hooo, -, rfl⟩ := hsyn hst
    exact h.syn hq hooo hwnd hrx
  | text hst hacc h1 hst1 hm htext h2 hfin hst' => exact ((h.of_same h1).text hm htext).of_same h2

lemma QueueOk.open {q : List Mbuf} (h : QueueOk c q) (hnxt : c'.rcv.nxt = c.rcv.nxt)
    (hle : c.rcv.wnd.toNat ≤ c'.rcv.wnd.toNat) (hwnd : c'.rcv.wnd.toNat ≤ 131071) : QueueOk c' q := by
  refine ⟨⟨hwnd, h.reach.wf, ?_, ?_⟩, ?_, ?_⟩
  · intro m hm
    have := h.ends_ahead hm
    rw [hnxt]
    omega
  · intro m hm
    have := h.reach.upper m hm
    rw [hnxt]
    omega
  · rw [hnxt]
    exact h.sorted
  · rw [hnxt]
    exact h.waits

lemma RecvOk.read {len : ℕ} {iov : Option (List ℕ)} {p : Popped} (h : RecvOk c none)
    (hiov : ∀ lens ∈ iov, lens.sum = len) (hp : popRead len c.rx.q 0 = p)
    (hrcv : c'.rcv = { c.rcv with wnd := c.rcv.wnd + BitVec.ofNat 32 p.readlen })
    (hrx : c'.rx = { c.rx with closed := p.fin, q := p.rxq, exclusive := p.part })
    (hreader : p.readlen = 0 ∧ reader = none ∨
      reader = some { len := len, iov := iov, q := p.q, part := p.part }) : RecvOk c' reader := by
  have hcut := hp ▸ popRead_cut len c.rx.q 0
  have hroom := h.room
  have hread := hcut.readlen_eq
  have hle := hcut.readlen_le (Nat.zero_le _)
  have hq : (payload c.rx.q).length = (payload p.q).length + (payload p.rxq).length := by
    rw [hcut.split, payload_append, length_append]
  have hpart : p.part → ∃ m ∈ p.rxq.head?, (payload p.q).length < len ∧
      len - (payload p.q).length < m.data.length := by
    intro hpart
    obtain ⟨-, m, hm, h1, h2⟩ := hcut.part hpart
    exact ⟨m, hm, by omega, by omega⟩
  have hrest : (if p.part then len - (payload p.q).length else 0) ≤ (payload p.rxq).length := by
    split
    · rename_i hp'
      obtain ⟨m, hm, -, h2⟩ := hpart hp'
      obtain ⟨q, hq'⟩ := head?_eq_some_iff.1 hm
      rw [hq', payload_cons, length_append]
      omega
    · exact Nat.zero_le _
  simp only [owed, Nat.add_zero] at hroom
  have hwnd : c'.rcv.wnd.toNat = c.rcv.wnd.toNat + p.readlen := by
    rw [hrcv]
    rw [BitVec.toNat_add, BitVec.toNat_ofNat]
    omega
  have howed : owed reader = if p.part then len - (payload p.q).length else 0 := by
    rcases hreader with ⟨hzero, rfl⟩ | rfl
    · simp only [owed]
      omega
    · rfl
  refine ⟨?_, ?_, ?_⟩
  · intro r hr
    rcases hreader with ⟨-, rfl⟩ | rfl
    · cases hr
    · cases hr
      refine ⟨hiov, ?_, ?_⟩
      · dsimp only
        omega
      · intro hp'
        obtain ⟨m, hm, h1, h2⟩ := hpart hp'
        rw [hrx]
        exact ⟨hp', m, hm, h2.le⟩
  · rw [hwnd, hrx, howed]
    dsimp only
    omega
  · rw [hrx]
    exact h.queue.open (by rw [hrcv]) (by omega) (by omega)

lemma ReadOk.copy_eq {rx : Rx} {r : ReadCall} {bytes : List UInt8} {n : ℕ} (h : ReadOk rx r)
    (hcopy : (bytes, n) = match r.iov with
      | none => tcpReadCopy r.len r.q (if r.part then rx.q.head? else none)
      | some lens => tcpReadvCopy lens r.q (if r.part then rx.q.head? else none)) :
    bytes = payload r.q ++ (payload rx.q).take (owed (some r)) ∧ n = owed (some r) := by
  have hone : (bytes, n) = tcpReadCopy r.len r.q (if r.part then rx.q.head? else none) := by
    cases hiov : r.iov with
    | none => simpa [hiov] using hcopy
    | some lens =>
      have hsum := h.iov lens hiov
      simp only [hiov] at hcopy
      rw [hcopy, ← hsum]
      refine tcpReadvCopy_eq (by rw [hsum]; exact h.fits) ?_
      intro m hm
      rw [hsum]
      cases hpart : r.part with
      | false => simp [hpart] at hm
      | true =>
        obtain ⟨-, m', hm', hle⟩ := h.part hpart
        rw [hpart, if_pos rfl] at hm
        cases hm.symm.trans hm'
        exact hle
  cases hpart : r.part with
  | false =>
    simp only [hpart, tcpReadCopy, Bool.false_eq_true, if_false, Prod.mk.injEq] at hone
    simp only [owed, hpart, Bool.false_eq_true, if_false, take_zero, append_nil]
    exact hone
  | true =>
    obtain ⟨-, m, hm, hle⟩ := h.part hpart
    obtain ⟨q, hq⟩ := head?_eq_some_iff.1 hm
    simp only [hpart, if_true, hq, head?_cons, tcpReadCopy, Prod.mk.injEq] at hone
    simp only [owed, hpart, if_true, hq, payload_cons, take_append_of_le_length hle]
    exact hone

lemma payload_pullHead {q : List Mbuf} {n : ℕ} (h : ∀ m ∈ q.head?, n ≤ m.data.length) :
    payload (pullHead n q) = (payload q).drop n := by
  cases q with
  | nil => simp [pullHead]
  | cons m q =>
    simp only [pullHead, payload_cons]
    rw [drop_append_of_le_length (h m (by simp))]

lemma RecvOk.payload_finish {r : ReadCall} (h : RecvOk c (some r)) :
    payload (tcpReadFinish c r.part (owed (some r))).rx.q = (payload c.rx.q).drop (owed (some r)) := by
  unfold tcpReadFinish
  cases hpart : r.part with
  | false => simp [owed, hpart]
  | true =>
    obtain ⟨-, m, hm, hle⟩ := (h.reading r rfl).part hpart
    refine payload_pullHead ?_
    intro m' hm'
    cases hm'.symm.trans hm
    simpa [owed, hpart] using hle

lemma RecvOk.finish {r : ReadCall} (h : RecvOk c (some r)) :
    RecvOk (tcpReadFinish c r.part (owed (some r))) none := by
  obtain ⟨q, x, hc⟩ := tcpReadFinish_eq c r.part (owed (some r))
  have hroom := h.room
  have howed := h.owed_le
  have hlen := congrArg List.length h.payload_finish
  rw [hc] at hlen ⊢
  rw [length_drop] at hlen
  refine ⟨by simp, ?_, h.queue.of_rcv rfl⟩
  dsimp only at hlen ⊢
  omega

structure RecvInv (s : Sys) : Prop where
  fresh : s.owner.fresh = true → s.c.state = .closed
  unsynced : Unsynced s → s.c.rx.q = [] ∧ s.c.rx.ooo = [] ∧ s.c.rx.log = [] ∧ s.reader = none
  ok : RecvOk s.c s.reader

variable {s s' : Sys}

lemma RecvInv.synSent (h : RecvInv s) (hst : s.c.state = .synSent) :
    s.c.rx.q = [] ∧ s.c.rx.ooo = [] ∧ s.c.rx.log = [] ∧ s.reader = none :=
  h.unsynced (.inr hst)

lemma RecvInv.unsynced_step {e : Event} (hi : RecvInv s) (h : step dbg s e = .ok s')
    (hu : Unsynced s') : s'.c.rx.q = [] ∧ s'.c.rx.ooo = [] ∧ s'.c.rx.log = [] ∧ s'.reader = none := by
  have hu0 := unsynced_of_step h hu
  obtain ⟨hq, hooo, hlog, hreader⟩ := hi.unsynced hu0
  cases stepped h with
  | @ingress _ _ _ o _ ho =>
    have hrx : o.c.rx = s.c.rx ∨ o.c.rx = s.c.rx.failed := by
      cases (tcpRxConnLocked_move ho).recv hi.ok.queue with
      | keep hsame hfin => exact .inl hsame.2
      | failed herr hst' hrcv hrx => exact .inr hrx
      | syn hst hst' hnxt hirs hwnd hrx => exact .inl hrx
      | text hst hacc h1 hst1 hm htext h2 hfin hst' =>
        rcases hu0 with hfresh | hst0
        · exact absurd (hi.fresh hfresh) hst.1
        · exact absurd hst0 hst.2
    show o.c.rx.q = [] ∧ o.c.rx.ooo = [] ∧ o.c.rx.log = [] ∧ s.reader = none
    rcases hrx with hrx | hrx
    · rw [hrx]
      exact ⟨hq, hooo, hlog, hreader⟩
    · rw [hrx]
      exact ⟨by simp [Rx.failed, hq], rfl, hlog, hreader⟩
  | reading _ _ _ hready => exact absurd hq hready.2
  | readDone hr => cases hreader.symm.trans hr
  | closeFailed | failed =>
    rw [tcpConnFail_eq]
    exact ⟨by simp [hq, Conn.fin, Conn.ctl], rfl, hlog, hreader⟩
  | _ => exact ⟨hq, hooo, hlog, hreader⟩

lemma RecvInv.step {e : Event} (hi : RecvInv s) (h : step dbg s e = .ok s') : RecvInv s' := by
  refine ⟨fresh_closed_step h hi.fresh, hi.unsynced_step h, ?_⟩
  cases stepped h with
  | ingress _ ho => exact hi.ok.ingress ((tcpRxConnLocked_move ho).recv hi.ok.queue) hi.synSent
  | @reading _ len iov _ _ _ _ he hidle _ _ hp hrest =>
    have hiov : ∀ lens ∈ iov, lens.sum = len := by
      intro lens hlens
      rcases he with ⟨-, rfl⟩ | ⟨lens', -, rfl, rfl⟩
      · cases hlens
      · cases hlens
        rfl
    refine RecvOk.read (hidle ▸ hi.ok) hiov hp rfl rfl ?_
    rcases hrest with ⟨hzero, hreader, -⟩ | ⟨-, -, hreader⟩
    · exact .inl ⟨hzero, hreader⟩
    · exact .inr hreader
  | @readDone r _ _ _ _ hr hcopy hc =>
    have hok := hr ▸ hi.ok
    obtain ⟨-, rfl⟩ := (hok.reading r rfl).copy_eq hcopy
    exact hc ▸ hok.finish
  | closedRx | closed | shutdown | close => exact hi.ok.close rfl rfl
  | closeFailed | failed =>
    obtain ⟨hrcv, hrx, -⟩ := tcpConnFail_recv _ _ _
    exact hi.ok.fail hrcv hrx
  | _ => exact hi.ok.of_same ⟨rfl, rfl⟩

lemma recvInv_initial (h : Initial s) : RecvInv s := by
  obtain ⟨_, _, _, _, _, _, _, _, _, -, -, hwnd, rfl⟩ := initial_eq h
  exact ⟨fun _ => rfl, fun _ => ⟨rfl, rfl, rfl, rfl⟩, by simp, hwnd, QueueOk.nil hwnd⟩

lemma recvInv_of_reaches {ok : Sys → Event → Prop} (h : Reaches (step dbg) ok Initial s) : RecvInv s :=
  h.invariant (fun _ => recvInv_initial) fun _ _ _ hi _ hs => hi.step hs

end Aspen.Tcp
