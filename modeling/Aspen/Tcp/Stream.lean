import Aspen.Tcp.Clipping

/-!
# The received stream

Let all the segments of the peer be slices of one byte stream `S`, the FIN at its end. Then what was ever
appended to the RX queue is the part of `S` in front of `rcv_nxt` (`stream_intact`), and the connection moves on
for the peer's FIN exactly when the number of the FIN has been received (`fin_received_iff`).
-/

namespace Aspen.Tcp

open Serial Run List

variable {dbg : Bool} {S : List UInt8} {c c' : Conn} {m : Mbuf} {fin : Bool}

/-! ## Slices -/

/-- The segment carries the bytes of `S` from `a` on, and a FIN only at the end of `S`. -/
structure SliceAt (S : List UInt8) (a : ℕ) (m : Mbuf) : Prop where
  data : m.data = (S.drop a).take m.data.length
  le : a + m.data.length ≤ S.length
  fin : hasFlag m.flags tcpFin = true → a + m.data.length = S.length

instance SliceAt.decidable (S : List UInt8) (a : ℕ) (m : Mbuf) : Decidable (SliceAt S a m) :=
  decidable_of_iff (m.data = (S.drop a).take m.data.length ∧ a + m.data.length ≤ S.length ∧
      (hasFlag m.flags tcpFin = true → a + m.data.length = S.length))
    ⟨fun h => ⟨h.1, h.2.1, h.2.2⟩, fun h => ⟨h.data, h.le, h.fin⟩⟩

lemma finLen_eq_one_iff : finLen m = 1 ↔ hasFlag m.flags tcpFin = true := by
  unfold finLen
  split <;> simp [*]

variable {a n : ℕ}

lemma SliceAt.stop_le (h : SliceAt S a m) : a + width m ≤ S.length + finLen m := by
  have := h.le
  unfold width
  omega

lemma SliceAt.stop_fin (h : SliceAt S a m) (hfin : finLen m = 1) : a + width m = S.length + 1 := by
  have := h.fin (finLen_eq_one_iff.1 hfin)
  unfold width
  omega

def Waits (S : List UInt8) (c : Conn) (m : Mbuf) : Prop :=
  ∃ a, SliceAt S a m ∧ sdist m.segEnd c.rcv.nxt = (a + width m : ℕ) - (received c.rx.log : ℤ)

structure StreamAt (S : List UInt8) (c : Conn) : Prop where
  nxt : c.rcv.nxt = c.rcv.irs + 1 + BitVec.ofNat 32 (received c.rx.log)
  data : payload c.rx.log = S.take (received c.rx.log)
  le : received c.rx.log ≤ S.length + 1

lemma StreamAt.of_eq (h : StreamAt S c) (hnxt : c'.rcv.nxt = c.rcv.nxt)
    (hirs : c'.rcv.irs = c.rcv.irs) (hlog : c'.rx.log = c.rx.log) : StreamAt S c' := by
  obtain ⟨h1, h2, h3⟩ := h
  constructor
  · rw [hnxt, hirs, hlog, h1]
  · rw [hlog, h2]
  · rwa [hlog]

lemma Waits.of_eq (h : Waits S c m) (hnxt : c'.rcv.nxt = c.rcv.nxt)
    (hlog : c'.rx.log = c.rx.log) : Waits S c' m := by
  obtain ⟨a, ha, hend⟩ := h
  exact ⟨a, ha, by rw [hnxt, hlog, hend]⟩

lemma StreamAt.of_same (h : StreamAt S c) (hs : RcvSame c c') : StreamAt S c' := by
  obtain ⟨hrcv, hrx⟩ := hs
  exact h.of_eq (by rw [hrcv]) (by rw [hrcv]) (by rw [hrx])

lemma Waits.of_same (h : ∀ p ∈ c.rx.ooo, Waits S c p) (hs : RcvSame c c') : ∀ p ∈ c'.rx.ooo, Waits S c' p := by
  obtain ⟨hrcv, hrx⟩ := hs
  rw [hrx]
  exact fun p hp => (h p hp).of_eq (by rw [hrcv]) (by rw [hrx])

/-! ## Appending -/

lemma received_enqueueText (hs : Straddles c m) :
    received (enqueueText c (clipped c m)).rx.log = received c.rx.log + taken c m := by
  have hle := hs.wf.width_le
  have hsum := hs.behind_add_ahead
  have htaken : taken c m ≤ ahead c m := min_le_left _ _
  change received (c.rx.log ++ [clipped c m]) = _
  rw [received_append, received_singleton, clipped_span, BitVec.toNat_ofNat]
  omega

/-- The numbers of a segment, counted along `S`: it starts `behind` numbers before what has been
received, and ends `ahead` of it. -/
lemma Straddles.place (hs : Straddles c m)
    (hend : sdist m.segEnd c.rcv.nxt = (a + width m : ℕ) - (received c.rx.log : ℤ)) :
    a + behind c m = received c.rx.log ∧ received c.rx.log + ahead c m = a + width m := by
  have hahead := hs.ahead_eq
  have hsum := hs.behind_add_ahead
  omega

lemma Straddles.ahead_le (hs : Straddles c m)
    (h : sdist m.segEnd c.rcv.nxt ≤ c.rcv.wnd.toNat) : ahead c m ≤ c.rcv.wnd.toNat := by
  have hahead := hs.ahead_eq
  omega

/-- Clipping to the window keeps the payload and the numbers in step, unless a FIN is clipped. -/
lemma StreamAt.append (h : StreamAt S c) (hs : Straddles c m) (hw : Waits S c m)
    (hfit : finLen m = 1 → ahead c m ≤ c.rcv.wnd.toNat) : StreamAt S (enqueueText c (clipped c m)) := by
  obtain ⟨a, ha, hend⟩ := hw
  obtain ⟨hbehind, hahead⟩ := hs.place hend
  have hstop := ha.stop_le
  have hlen : width m = m.data.length + finLen m := rfl
  have hfin := finLen_le_one m
  have hahead_le : taken c m ≤ ahead c m := min_le_left _ _
  have hreceived := received_enqueueText hs
  refine ⟨?_, ?_, by omega⟩
  · rw [hreceived, enqueueText_clipped_nxt, h.nxt, BitVec.ofNat_add]
    change c.rcv.irs + 1 + _ + _ = c.rcv.irs + 1 + _
    ring
  · have hdata : (clipped c m).data
        = (S.drop (received c.rx.log)).take (min (taken c m - finLen m) (m.data.length - behind c m)) := by
      change (m.data.drop (behind c m)).take (taken c m - finLen m) = _
      rw [ha.data, drop_take, take_take, drop_drop, hbehind]
      congr 2
      simp only [length_take, length_drop]
      omega
    rw [hreceived]
    change payload (c.rx.log ++ [clipped c m]) = _
    rw [payload_append, h.data, payload_cons, payload_nil, append_nil, hdata, ← take_add]
    -- a FIN that fits ends the stream, and no byte stands for its number
    rcases Nat.le_one_iff_eq_zero_or_eq_one.1 hfin with h0 | h1
    · congr 1
      omega
    · have hall := ha.stop_fin h1
      have htaken : taken c m = ahead c m := min_eq_left (hfit h1)
      rw [take_of_length_le (by omega), take_of_length_le (by omega)]

/-- All of `S` and the number of the FIN have been received once a segment with a FIN was appended, and
not before. -/
lemma StreamAt.append_done (hs : Straddles c m) (hw : Waits S c m)
    (hfit : finLen m = 1 → ahead c m ≤ c.rcv.wnd.toNat) :
    received c.rx.log ≠ S.length + 1 ∧
    (hasFlag m.flags tcpFin ↔
      received (enqueueText c (clipped c m)).rx.log = S.length + 1) := by
  obtain ⟨a, ha, hend⟩ := hw
  obtain ⟨hbehind, hahead⟩ := hs.place hend
  have hstop := ha.stop_le
  have hpos' := hs.stop
  have hfin := finLen_le_one m
  have hahead_le : taken c m ≤ ahead c m := min_le_left _ _
  rw [received_enqueueText hs, ← finLen_eq_one_iff]
  refine ⟨by omega, ?_, ?_⟩
  · intro h1
    have hall := ha.stop_fin h1
    have htaken : taken c m = ahead c m := min_eq_left (hfit h1)
    omega
  · intro hall
    omega

lemma Waits.append {p : Mbuf} (h : Waits S c p) (hs : Straddles c m)
    (hwnd : c.rcv.wnd.toNat ≤ 131071) (hp : -2147000000 ≤ sdist p.segEnd c.rcv.nxt) :
    Waits S (enqueueText c (clipped c m)) p := by
  obtain ⟨a, ha, hend⟩ := h
  refine ⟨a, ha, ?_⟩
  rw [sdist_nxt_enqueueText hwnd hp, received_enqueueText hs, hend]
  push_cast
  ring

/-! ## The loop -/

/-- The FIN flag of the loop says whether the number of the FIN has been received. -/
structure DrainsStream (S : List UInt8) (d : Draining) : Prop where
  ok : DrainOk d.c d.q
  stream : StreamAt S d.c
  waits : ∀ m ∈ d.q, Waits S d.c m
  fin : d.fin = true ↔ received d.c.rx.log = S.length + 1

lemma DrainStep.stream {d d' : Draining} (h : DrainStep d d') (hi : DrainsStream S d)
    (hfit : ∀ p ∈ d.q.head?, finLen p = 1 → sdist p.segEnd d.c.rcv.nxt ≤ d.c.rcv.wnd.toNat) :
    DrainsStream S d' := by
  refine ⟨h.drainOk hi.ok, ?_, ?_, ?_⟩
  · cases h with
    | skip hend => exact hi.stream.of_eq rfl rfl rfl
    | @append pos q c fin hs hfin =>
      have hw := hi.waits pos (.head _)
      exact (hi.stream.append hs hw fun h1 => hs.ahead_le (hfit pos rfl h1)).of_eq rfl rfl rfl
  · cases h with
    | skip hend =>
      intro m hm
      exact (hi.waits m (.tail _ hm)).of_eq rfl rfl
    | @append pos q c fin hs hfin =>
      intro m hm
      have hlower := hi.ok.lower m (.tail _ hm)
      have hwnd := hi.ok.wnd_le
      dsimp only at hlower hwnd
      exact (Waits.append (hi.waits m (.tail _ hm)) hs hwnd (by dsimp only; omega)).of_eq rfl rfl
  · cases h with
    | skip hend => exact hi.fin
    | @append pos q c fin hs hfin =>
      obtain ⟨hbefore, hafter⟩ := StreamAt.append_done hs (hi.waits pos (.head _))
        fun h1 => hs.ahead_le (hfit pos rfl h1)
      have hfalse : fin = false := by
        rw [← Bool.not_eq_true]
        exact fun hfin => hbefore (hi.fin.1 hfin)
      rw [hfalse, Bool.false_or]
      exact hafter

/-- As long as no FIN that it takes out of the queue ends beyond the window, the loop goes on in the
stream. -/
lemma Drains.stream {a b : Draining} (h : Drains a b) {l : List Mbuf} (hq : a.q = l ++ b.q)
    (hi : DrainsStream S a) (hfit : ∀ p ∈ l, finLen p = 1 → sdist p.segEnd a.c.rcv.nxt ≤ a.c.rcv.wnd.toNat) :
    DrainsStream S b := by
  induction h using Relation.ReflTransGen.head_induction_on generalizing l with
  | refl => exact hi
  | @head a a' hs hd ih =>
    obtain ⟨pos, hpos⟩ := hs.head
    obtain ⟨l', -, hl', -⟩ := Drains.progress hd
    have hl : l = pos :: l' := by
      apply (append_left_inj b.q).1
      rw [← hq, hpos, hl', cons_append]
    subst hl
    refine ih hl' (hs.stream hi ?_) ?_
    · intro p hp
      rw [hpos, head?_cons] at hp
      cases hp
      exact hfit pos (.head _)
    · intro p hp h1
      have hle := hfit p (.tail _ hp) h1
      have hmem : p ∈ a.q := by
        rw [hpos, hl']
        simp [hp]
      have hlower := hi.ok.lower p hmem
      have hwnd := hi.ok.wnd_le
      cases hs with
      | skip hend => exact hle
      | @append pos q c fin hstr hfin =>
        dsimp only at hle hlower hwnd ⊢
        have hwnd' := enqueueText_clipped_wnd c pos
        have hmoved := sdist_nxt_enqueueText (m := pos) hwnd (by omega : _ ≤ sdist p.segEnd _)
        omega

/-! ## Segments -/

/-- An in-order segment brings no FIN into the receive queue that ends beyond the window: neither its own, nor that of
a segment out of order. -/
def FinClear (c : Conn) (m : Mbuf) : Prop :=
  (hasFlag m.flags tcpFin = true → sdist (textSeg m).segEnd c.rcv.nxt ≤ c.rcv.wnd.toNat) ∧
  ∀ l p l', c.rx.ooo = l ++ p :: l' → hasFlag p.flags tcpFin = true →
    c.rcv.wnd.toNat < sdist p.segEnd c.rcv.nxt → Blocks c m (l ++ [p])

variable {r : RxSeg}

lemma TextMove.stream (h : TextMove c (textSeg r.m) c' fin) (hq : QueueOk c c.rx.ooo)
    (hm : Acceptable c (textSeg r.m)) (hi : StreamAt S c) (hwaits : ∀ p ∈ c.rx.ooo, Waits S c p)
    (hw : Waits S c (textSeg r.m)) (hclear : wrapsLte r.m.segSeq c.rcv.nxt → FinClear c r.m) :
    StreamAt S c' ∧ (∀ p ∈ c'.rx.ooo, Waits S c' p) ∧
      received c.rx.log ≠ S.length + 1 ∧ (fin ↔ received c'.rx.log = S.length + 1) := by
  have hbefore : received c.rx.log ≠ S.length + 1 := by
    obtain ⟨a, ha, hend⟩ := hw
    have hstop := ha.stop_le
    have hpos := hm.stop
    have := finLen_le_one (textSeg r.m)
    omega
  cases h with
  | @queued q hstart hroom hins =>
    refine ⟨hi.of_eq rfl rfl rfl, ?_, hbefore, by simpa using hbefore⟩
    intro p hp
    rcases oooInsert_mem hins p hp with rfl | hp
    · exact hw.of_eq rfl rfl
    · exact (hwaits p hp).of_eq rfl rfl
  | @drained d hs hd hlast =>
    obtain ⟨hown, hqueued⟩ := hclear (wrapsLte_iff.2 hs.start)
    have hfit : finLen (textSeg r.m) = 1 → ahead c (textSeg r.m) ≤ c.rcv.wnd.toNat :=
      fun h1 => hs.ahead_le (hown (finLen_eq_one_iff.1 h1))
    have hstart : DrainsStream S ⟨c.rx.ooo, enqueueText c (clipped c (textSeg r.m)),
        hasFlag (textSeg r.m).flags tcpFin⟩ := by
      refine ⟨hm.drainOk_append hs hq.reach, hi.append hs hw hfit, ?_, (StreamAt.append_done hs hw hfit).2⟩
      intro p hp
      have hlower := hq.reach.lower p hp
      have hwnd := hq.reach.wnd_le
      exact (hwaits p hp).append hs hwnd (by omega)
    obtain ⟨l, n, hl, -⟩ := hs.progress hd
    have hloop : DrainsStream S d := by
      refine Drains.stream hd hl hstart ?_
      intro p hp h1
      dsimp only
      have hmem : p ∈ c.rx.ooo := by
        rw [hl]
        simp [hp]
      have hlower := hq.reach.lower p hmem
      have hwnd := hq.reach.wnd_le
      have hwnd' := enqueueText_clipped_wnd c (textSeg r.m)
      have hmoved := sdist_nxt_enqueueText (m := textSeg r.m) hwnd (by omega : _ ≤ sdist p.segEnd _)
      by_contra hbeyond
      -- the loop has come past this FIN, so nothing held it up
      obtain ⟨l1, l2, rfl⟩ := append_of_mem hp
      have hblocks := hqueued l1 p (l2 ++ d.q) (by rw [hl]; simp) (finLen_eq_one_iff.1 h1) (by omega)
      refine hs.not_blocks hq.reach hd hl ?_
      obtain ⟨k1, x, k2, hk, hx⟩ := hblocks
      refine ⟨k1, x, k2 ++ l2, ?_, hx⟩
      rw [← singleton_append, ← append_assoc, hk]
      simp
    exact ⟨hloop.stream.of_eq rfl rfl rfl, fun p hp => (hloop.waits p hp).of_eq rfl rfl, hbefore, hloop.fin⟩

/-! ## Runs -/

/-- The segment whose turn it is, once the connection is synchronised, is a slice of `S` and starts
within half the number space of what has been received. -/
def Slices (S : List UInt8) (s : Sys) (e : Event) : Prop :=
  ∀ r ∈ s.turn e, s.c.state ≠ .closed → s.c.state ≠ .synSent → 0 < segLen r.m →
    ∃ a ≤ S.length, SliceAt S a r.m ∧ r.m.segSeq = s.c.rcv.irs + 1 + BitVec.ofNat 32 a ∧
      -2147483648 ≤ (a : ℤ) - received s.c.rx.log ∧ (a : ℤ) - received s.c.rx.log < 2147483648
deriving Decidable

/-- No acceptable segment brings a FIN into the receive queue that ends beyond the window. -/
def FinFits (s : Sys) (e : Event) : Prop := ∀ r ∈ s.turn e, isAcceptable s.c (segLen r.m) r.m.segSeq = true →
    wrapsLte r.m.segSeq s.c.rcv.nxt = true → FinClear s.c r.m

lemma Acceptable.waits (hm : Acceptable c (textSeg r.m)) (hi : StreamAt S c)
    (ha : SliceAt S a r.m) (hseq : r.m.segSeq = c.rcv.irs + 1 + BitVec.ofNat 32 a)
    (hlo : -2147483648 ≤ (a : ℤ) - received c.rx.log)
    (hhi : (a : ℤ) - received c.rx.log < 2147483648) : Waits S c (textSeg r.m) := by
  refine ⟨a, ⟨ha.data, ha.le, ha.fin⟩, ?_⟩
  have hstop := hm.stop
  have hwidth := hm.wf.width_le
  have hend := hm.wf.sdist_segSeq (x := c.rcv.nxt) (by omega)
  have hstart : sdist (textSeg r.m).segSeq c.rcv.nxt = a - received c.rx.log := by
    change sdist r.m.segSeq c.rcv.nxt = _
    rw [hseq, hi.nxt, sdist_ofNat (by omega) (by omega)]
  push_cast
  omega

structure NotSynced (s : Sys) : Prop where
  log : s.c.rx.log = []
  state : s.c.state = .closed ∨ s.c.state = .synSent
  owner : s.owner.fresh = true → ∃ nonblocking, s.owner = .dialing nonblocking

lemma RxMove.waiting {env : Env} (h : RxMove dbg env c r c')
    (hst : c.state = .closed ∨ c.state = .synSent) : c'.rx.log = c.rx.log ∧
      ((c'.state = .closed ∨ c'.state = .synSent) ∨
        c'.rcv.nxt = r.m.segSeq + 1 ∧ c'.rcv.irs = r.m.segSeq) := by
  cases h with
  | quiet => exact ⟨rfl, .inl hst⟩
  | failed hst' => simp [tcpConnFail_eq]
  | @synAcked o t hst' hack huna =>
    obtain ⟨hrx, hnxt, hirs, -⟩ := synConn_recv c r o
    exact ⟨congrArg Rx.log hrx, .inr ⟨hnxt, hirs⟩⟩
  | @synCrossed o opts c1 ret t hst' hack huna hctl =>
    obtain ⟨hrx, hnxt, hirs, -⟩ := synConn_recv c r o
    obtain ⟨-, rfl, -⟩ | ⟨-, -, m, -, -, -, rfl⟩ := tcpTxCtl_cases hctl
    · exact ⟨congrArg Rx.log hrx, .inr ⟨hnxt, hirs⟩⟩
    · exact ⟨congrArg Rx.log hrx, .inr ⟨hnxt, hirs⟩⟩
  | lastAcked hst' hacc hack huna => simp [hst'] at hst
  | text hst' hacc hack hlast htext => simp [hst'.1, hst'.2] at hst

lemma StreamAt.syn {x : Seq} (hnxt : c.rcv.nxt = x + 1) (hirs : c.rcv.irs = x)
    (hlog : c.rx.log = []) : StreamAt S c := by
  constructor
  · rw [hnxt, hirs, hlog]
    simp
  · simp [hlog]
  · simp [hlog]

variable {s s' : Sys} {e : Event}

lemma still_or (h : step dbg s e = .ok s') :
    (∃ i env r, e = .rxLocked i env ∧ s.inflight[i]? = some r ∧ RxMove dbg env s.c r s'.c) ∨
    (s'.c.rcv.nxt = s.c.rcv.nxt ∧ s'.c.rcv.irs = s.c.rcv.irs ∧ s'.c.rx.log = s.c.rx.log ∧
      ∀ p ∈ s'.c.rx.ooo, p ∈ s.c.rx.ooo) := by
  cases stepped h with
  | ingress hr ho => exact .inl ⟨_, _, _, rfl, hr, tcpRxConnLocked_move ho⟩
  | closeFailed | failed =>
    obtain ⟨hrcv, hrx, -⟩ := tcpConnFail_recv _ _ _
    rw [hrcv, hrx]
    exact .inr ⟨rfl, rfl, rfl, by simp [Rx.failed]⟩
  | _ => exact .inr ⟨rfl, rfl, rfl, fun _ => id⟩

lemma NotSynced.step (hi : NotSynced s) (h : step dbg s e = .ok s') : StreamAt S s'.c ∨ NotSynced s' := by
  have hlog : s'.c.rx.log = [] := by
    rcases still_or h with ⟨i, env, r, rfl, hr, hm⟩ | ⟨-, -, hlog, -⟩
    · exact (hm.waiting hi.state).1.trans hi.log
    · exact hlog.trans hi.log
  have howner : s'.owner.fresh → ∃ nonblocking, s'.owner = .dialing nonblocking := by
    intro hfresh
    have hsame := step_fresh h hfresh
    rw [hsame] at hfresh ⊢
    exact hi.owner hfresh
  cases step_state h with
  | same hst => exact .inr ⟨hlog, hst ▸ hi.state, howner⟩
  | failed hst herr => exact .inr ⟨hlog, .inl hst, howner⟩
  | ingress hr hm =>
    rcases (hm.waiting hi.state).2 with hst | ⟨hnxt, hirs⟩
    · exact .inr ⟨hlog, hst, howner⟩
    · exact .inl (.syn hnxt hirs hlog)
  | fin hst =>
    have hsent : finSent s.c.state = s.c.state := by
      rcases hi.state with h0 | h0
      · rw [h0]
        rfl
      · rw [h0]
        rfl
    exact .inr ⟨hlog, (hst.trans hsent) ▸ hi.state, howner⟩
  | opened ho ho' hst hdial =>
    obtain ⟨nonblocking, hnb⟩ := hi.owner ho
    exact .inr ⟨hlog, .inr (hdial nonblocking hnb), howner⟩
  | expired hst hst' => exact .inr ⟨hlog, .inl hst', howner⟩

/-- What holds in every state of a run in which the peer sends slices of `S`, and no FIN is clipped. -/
structure StreamInv (S : List UInt8) (s : Sys) : Prop where
  recv : RecvInv s
  stream : StreamAt S s.c ∨ NotSynced s
  waits : ∀ p ∈ s.c.rx.ooo, Waits S s.c p

def FinReceived (S : List UInt8) (c c' : Conn) : Prop :=
  received c'.rx.log = S.length + 1 ∧ received c.rx.log ≠ S.length + 1

lemma not_finReceived_of_log (h : c'.rx.log = c.rx.log) : ¬ FinReceived S c c' := by
  rintro ⟨h1, h2⟩
  rw [h] at h1
  exact h2 h1

lemma StreamInv.ingress {i : ℕ} {env : Env} (hi : StreamInv S s)
    (hr : s.inflight[i]? = some r) (hslice : Slices S s (.rxLocked i env))
    (hfits : FinFits s (.rxLocked i env)) (hm : RxRecv s.c r c') :
    (StreamAt S s.c → StreamAt S c') ∧ (∀ p ∈ c'.rx.ooo, Waits S c' p) ∧
      (FinMove s.c.state c'.state ↔ FinReceived S s.c c') := by
  cases hm with
  | keep hsame hfin =>
    exact ⟨fun h => h.of_same hsame, .of_same hi.waits hsame,
      iff_of_false hfin (not_finReceived_of_log (by rw [hsame.2]))⟩
  | failed herr hst' hrcv hrx =>
    refine ⟨fun h => h.of_eq (by rw [hrcv]) (by rw [hrcv]) (by rw [hrx]; rfl), ?_, ?_⟩
    · intro p hp
      simp [hrx, Rx.failed] at hp
    · exact iff_of_false (by simp [FinMove, hst']) (not_finReceived_of_log (by rw [hrx]; rfl))
  | syn hst hst' hnxt hirs hwnd hrx =>
    obtain ⟨-, hooo, hlog, -⟩ := hi.recv.synSent hst
    refine ⟨fun _ => .syn hnxt hirs (by rw [hrx, hlog]), ?_, ?_⟩
    · intro p hp
      simp [hrx, hooo] at hp
    · exact iff_of_false hst' (not_finReceived_of_log (by rw [hrx]))
  | @text c1 c2 fin hst hacc h1 hst1 hm htext h2 hfin hst' =>
    obtain ⟨hrcv1, hrx1⟩ := id h1
    have hstream : StreamAt S s.c := by
      rcases hi.stream with h | h
      · exact h
      · rcases h.state with h0 | h0
        · exact absurd h0 hst.1
        · exact absurd h0 hst.2
    have hstream1 := hstream.of_same h1
    have hq1 : QueueOk c1 c1.rx.ooo := by
      rw [hrx1]
      exact hi.recv.ok.queue.of_rcv hrcv1
    have hlen : 0 < segLen r.m := by
      have hpos : 0 < width r.m := hm.wf.width_pos
      rwa [← segLen_toNat r] at hpos
    obtain ⟨a, -, ha, hseq, hlo, hhi⟩ := hslice r hr hst.1 hst.2 hlen
    rw [← hrx1] at hlo hhi
    rw [← hrcv1] at hseq
    have hclear : wrapsLte r.m.segSeq c1.rcv.nxt → FinClear c1 r.m := by
      unfold FinClear Blocks
      rw [hrcv1, hrx1]
      exact hfits r hr hacc
    obtain ⟨hs2, hw2, hbefore, hafter⟩ := htext.stream hq1 hm hstream1 (.of_same hi.waits h1)
      (hm.waits hstream1 ha hseq hlo hhi) hclear
    refine ⟨fun _ => hs2.of_same h2, .of_same hw2 h2, ?_⟩
    rw [hfin, hafter, FinReceived, h2.2]
    rw [hrx1] at hbefore
    exact (and_iff_left hbefore).symm

lemma StreamInv.finMove_iff (hi : StreamInv S s)
    (h : step dbg s e = .ok s') (hslice : Slices S s e) (hfits : FinFits s e) :
    FinMove s.c.state s'.c.state ↔ FinReceived S s.c s'.c := by
  rcases still_or h with ⟨i, env, r, rfl, hr, hm⟩ | ⟨-, -, hlog, -⟩
  · exact (hi.ingress hr hslice hfits (hm.recv hi.recv.ok.queue)).2.2
  refine iff_of_false ?_ (not_finReceived_of_log hlog)
  cases step_state h with
  | same hst =>
    rw [hst]
    exact not_finMove_self _
  | failed hst herr => simp [FinMove, hst]
  | ingress hr hm =>
    rw [(hi.ingress hr hslice hfits (hm.recv hi.recv.ok.queue)).2.2]
    exact not_finReceived_of_log hlog
  | fin hst =>
    rintro ⟨h1, h2⟩
    rw [hst] at h2
    rcases h1 with h1 | h1 | h1 | h1 <;> simp [h1, finSent] at h2
  | opened ho ho' hst hdial =>
    rintro ⟨-, h2⟩
    rcases h2 with h2 | h2 | h2 <;> simp [h2, State.opening, State.num] at hst
  | expired hst hst' => simp [FinMove, hst']

lemma StreamInv.step (hi : StreamInv S s) (h : step dbg s e = .ok s')
    (hslice : Slices S s e) (hfits : FinFits s e) : StreamInv S s' := by
  rcases still_or h with ⟨i, env, r, rfl, hr, hm⟩ | ⟨hnxt, hirs, hlog, hooo⟩
  · obtain ⟨hstream, hwaits, -⟩ := hi.ingress hr hslice hfits (hm.recv hi.recv.ok.queue)
    refine ⟨hi.recv.step h, ?_, hwaits⟩
    rcases hi.stream with h0 | h0
    · exact .inl (hstream h0)
    · exact h0.step h
  · refine ⟨hi.recv.step h, ?_, ?_⟩
    · rcases hi.stream with h0 | h0
      · exact .inl (h0.of_eq hnxt hirs hlog)
      · exact h0.step h
    · intro p hp
      exact (hi.waits p (hooo p hp)).of_eq hnxt hlog

lemma streamInv_initial (h : Initial s) : StreamInv S s := by
  have hrecv := recvInv_initial h
  cases h with
  | dial iss mtu attachTs nonblocking =>
    refine ⟨hrecv, .inr ⟨rfl, .inl rfl, fun _ => ⟨nonblocking, rfl⟩⟩, ?_⟩
    intro p hp
    cases hp
  | @listen iss mtu attachTs p c opts hl =>
    obtain ⟨o, rfl⟩ := tcpRxListener_attached hl
    refine ⟨hrecv, .inl ?_, ?_⟩
    · rw [applyOptions_eq]
      exact .syn rfl rfl rfl
    · rw [applyOptions_eq]
      intro p hp
      cases hp

lemma streamInv_of_reaches
    (h : Reaches (step dbg) (fun s e => Slices S s e ∧ FinFits s e) Initial s) : StreamInv S s :=
  h.invariant (fun _ => streamInv_initial) fun _ _ _ hi hok hs => hi.step hs hok.1 hok.2

/-- If the peer sends slices of `S` in any order and no FIN is clipped, the bytes appended to the RX queue are a
prefix of `S`, as long as the numbers received. -/
theorem stream_intact {s : Sys} (h : Reaches (step dbg) (fun s e => Slices S s e ∧ FinFits s e) Initial s) :
    payload s.c.rx.log = S.take (received s.c.rx.log) ∧ received s.c.rx.log ≤ S.length + 1 ∧
      (s.c.rcv.nxt = s.c.rcv.irs + 1 + BitVec.ofNat 32 (received s.c.rx.log) ∨
        s.c.rx.log = [] ∧ (s.c.state = .closed ∨ s.c.state = .synSent)) := by
  rcases (streamInv_of_reaches h).stream with hstream | hnone
  · exact ⟨hstream.data, hstream.le, .inl hstream.nxt⟩
  · have hlog := hnone.log
    exact ⟨by simp [hlog], by simp [hlog], .inr ⟨hlog, hnone.state⟩⟩

lemma slices_finFits (h : Slices S s e ∧ ∀ r ∈ s.turn e,
    ∀ p ∈ textSeg r.m :: s.c.rx.ooo, sdist p.segEnd s.c.rcv.nxt ≤ s.c.rcv.wnd.toNat) :
    Slices S s e ∧ FinFits s e := by
  refine ⟨h.1, fun r hr hacc hstart => ⟨fun _ => h.2 r hr _ (.head _), ?_⟩⟩
  intro l p l' hq hfin hbeyond
  have hle := h.2 r hr p (by simp [hq])
  omega

theorem stream_intact_reordered : ∃ s,
    Reaches (step false) (fun s e => Slices [7, 8] s e ∧ FinFits s e) Initial s ∧
    received s.c.rx.log = 3 ∧ payload s.c.rx.log = [7, 8] ∧
    s.c.rcv.nxt = s.c.rcv.irs + 1 + BitVec.ofNat 32 3 := by
  obtain ⟨s, hs, hlen, hst⟩ : ∃ s, Reaches (step false) (fun s e => Slices [7, 8] s e ∧ FinFits s e) Initial s ∧
      received s.c.rx.log = 3 ∧ s.c.state = .closeWait := by
    refine Reaches.of_exec (handshake 1000 ++ arrives (.plain 5002 1001 (tcpFin ||| tcpAck) 1000 [8] (by decide)) ++
      arrives (.plain 5001 1001 tcpAck 1000 [7] (by decide)))
      (initial_dialed 1500) (Allowed.mono (fun _ _ => slices_finFits) ?_) ?_
    · decide
    · decide
  obtain ⟨hdata, -, hnxt⟩ := stream_intact hs
  simp only [hlen, hst, reduceCtorEq, or_self, and_false, or_false] at hdata hnxt
  exact ⟨s, hs, hlen, hdata, hnxt⟩

/-- In such a run the connection moves on for the peer's FIN exactly when `rcv_nxt` comes to stand behind
the number of the FIN. -/
theorem fin_received_iff {s s' : Sys} {e : Event}
    (h : Reaches (step dbg) (fun s e => Slices S s e ∧ FinFits s e) Initial s)
    (hslice : Slices S s e) (hfits : FinFits s e) (hs : step dbg s e = .ok s') :
    (FinMove s.c.state s'.c.state ↔
      received s'.c.rx.log = S.length + 1 ∧ received s.c.rx.log ≠ S.length + 1) ∧
    (FinMove s.c.state s'.c.state →
      s'.c.rcv.nxt = s'.c.rcv.irs + 1 + BitVec.ofNat 32 (S.length + 1)) := by
  have hi := streamInv_of_reaches h
  have hiff := hi.finMove_iff hs hslice hfits
  refine ⟨hiff, fun hmove => ?_⟩
  obtain ⟨hdone, -⟩ := hiff.1 hmove
  rcases (hi.step hs hslice hfits).stream with hstream | hnone
  · rw [hstream.nxt, hdone]
  · simp [hnone.log] at hdone

theorem fin_received_reordered : ∃ s s',
    Reaches (step false) (fun s e => Slices [7, 8] s e ∧ FinFits s e) Initial s ∧
    step false s (.rxLocked 0 {}) = .ok s' ∧ FinMove s.c.state s'.c.state ∧
    s'.c.rcv.nxt = s'.c.rcv.irs + 1 + BitVec.ofNat 32 3 := by
  obtain ⟨s, hs, hok, s', hstep, hmove⟩ : ∃ s,
      Reaches (step false) (fun s e => Slices [7, 8] s e ∧ FinFits s e) Initial s ∧
      (Slices [7, 8] s (.rxLocked 0 {}) ∧ ∀ r ∈ s.turn (.rxLocked 0 {}),
        ∀ p ∈ textSeg r.m :: s.c.rx.ooo, sdist p.segEnd s.c.rcv.nxt ≤ s.c.rcv.wnd.toNat) ∧
      Ends (step false s (.rxLocked 0 {})) fun s' => FinMove s.c.state s'.c.state := by
    refine Reaches.of_exec (handshake 1000 ++ arrives (.plain 5002 1001 (tcpFin ||| tcpAck) 1000 [8] (by decide)) ++
      [.rxLoad (.plain 5001 1001 tcpAck 1000 [7] (by decide))])
      (initial_dialed 1500) (Allowed.mono (fun _ _ => slices_finFits) ?_) ?_
    · decide
    · decide
  obtain ⟨hslice, hfits⟩ := slices_finFits hok
  exact ⟨s, s', hs, hstep, hmove, (fin_received_iff hs hslice hfits hstep).2 hmove⟩

/-! ## A FIN behind the window -/

lemma Streaming.finClipped {data : List UInt8} (hs : Streaming s n [])
    (dbg : Bool) (hr : Loaded r s.c.rcv.nxt (tcpFin ||| tcpAck) data) (hpos : 0 < data.length)
    (hfull : n + data.length = 65535) :
    ∃ s', step dbg { s with inflight := [r] } (.rxLocked 0 {}) = .ok s' ∧
      s'.c.state = .closeWait ∧ s'.c.rcv.irs = 5000 ∧ s'.c.rcv.nxt = 5001 + BitVec.ofNat 32 65535 ∧
      received s'.c.rx.log = 65535 ∧ (payload s'.c.rx.log).length = 65534 := by
  have hflags : hasFlag (tcpFin ||| tcpAck) tcpFin := by decide
  have hslow : slowPath s.c r := by
    have hflags : hasFlag (tcpFin ||| tcpAck) tcpSlowpathFlags := by decide
    simp [slowPath, hr.m, hflags]
  obtain ⟨c1, ⟨hrcv, hrx⟩, hst, hm, -, hbehind, htaken, hwnd, hlen, hlocked⟩ :=
    hs.inOrder dbg hr hslow hpos hfull (by decide) (by decide) (by decide)
  obtain ⟨wake, htext⟩ := tcpRxText_inOrder dbg hm (by omega) (by omega) (by rw [hrx, hs.ooo])
  obtain ⟨o, t, ho, hoc⟩ := rxTextFin_used 0 none hlen (by rw [hst]; rfl) htext
  obtain ⟨t', ht'⟩ := rxDone_spec 0 o
  rw [ho] at hlocked
  have hstep : step dbg { s with inflight := [r] } (.rxLocked 0 {})
      = .ok (({ s with c := (rxDone 0 o).c, inflight := [] } : Sys).defer (rxDone 0 o).doAck
        (rxDone 0 o).retransmit.isSome) := by
    simp only [step, getElem?_cons_zero, hlocked, Except.map]
    rfl
  have hfin : hasFlag (textSeg r.m).flags tcpFin := by
    rw [hr.m]
    exact hflags
  refine ⟨_, hstep, ?_, ?_, ?_, ?_, ?_⟩
  all_goals simp only [Sys.defer, ht', hoc, hfin, if_true]
  · change finState c1.state = _
    rw [hst]
    rfl
  · change c1.rcv.irs = _
    rw [hrcv, hs.irs]
  · rw [enqueueText_clipped_nxt, htaken, hrcv, hs.nxt, add_assoc, ← BitVec.ofNat_add, hfull]
  · rw [received_enqueueText hm, htaken, hrx, hs.numbers, hfull]
  · change (payload (c1.rx.log ++ [clipped c1 (textSeg r.m)])).length = _
    have hone := finLen_eq_one_iff.2 hfin
    have hdata : (textSeg r.m).data = data := by
      change r.m.data = _
      rw [hr.m]
    rw [payload_append, length_append, hrx, hs.length, payload_cons, payload_nil, append_nil]
    simp only [clipped, hbehind, htaken, hone, hdata, drop_zero, length_take]
    omega

lemma Streaming.slices {k len : ℕ} {flags : Flags} (hs : Streaming s n [])
    (hr : Loaded r s.c.rcv.nxt flags (List.replicate k 0)) (hle : n + k ≤ len)
    (hfin : hasFlag flags tcpFin → n + k = len) :
    Slices (List.replicate len 0) { s with inflight := [r] } (.rxLocked 0 {}) := by
  rintro r' hr' - - -
  cases hr'
  refine ⟨n, by simp; omega, ⟨?_, ?_, ?_⟩, ?_, ?_, ?_⟩
  · rw [hr.m]
    simp only [length_replicate, drop_replicate, take_replicate]
    congr 1
    omega
  · simpa [hr.m] using hle
  · simpa [hr.m] using hfin
  · rw [hr.m]
    rw [hs.nxt, hs.irs]
    rfl
  · rw [hs.numbers]
    omega
  · rw [hs.numbers]
    omega

lemma streaming_finClipped : ∃ s s', Reaches (step false) (Slices (List.replicate 65535 0)) Initial s ∧
    Slices (List.replicate 65535 0) s (.rxLocked 0 {}) ∧ step false s (.rxLocked 0 {}) = .ok s' ∧
    s.c.state = .established ∧ s'.c.state = .closeWait ∧ s'.c.rcv.irs = 5000 ∧
    s'.c.rcv.nxt = 5001 + BitVec.ofNat 32 65535 ∧ received s'.c.rx.log = 65535 ∧
    (payload s'.c.rx.log).length = 65534 := by
  have hshake : Allowed (step false) (Slices (List.replicate 65535 0)) (dialed 1500) (handshake 1000) := by
    -- the segments of the handshake have no text
    have hempty : Allowed (step false) (fun (s : Sys) e => ∀ r ∈ s.turn e, segLen r.m = 0)
        (dialed 1500) (handshake 1000) := by decide
    refine hempty.mono ?_
    rintro s e h r hr - - hlen
    simp [h r hr] at hlen
  obtain ⟨s, hreach, hs⟩ := streaming_fill (@length_replicate UInt8 1460 0) hshake (fun s p r hr => by cases hr)
    (fun s n r hs hn hr => hs.slices hr hn fun hfin => absurd hfin (by decide)) 44 (by omega)
  have hlen := @length_replicate UInt8 1295 0
  obtain ⟨p, r, hload, hr⟩ := hs.load false s.c.rcv.nxt (tcpFin ||| tcpAck) (List.replicate 1295 0)
    (by rw [hlen]; omega)
  obtain ⟨s', hstep, hst, hirs, hnxt, hnumbers, hbytes⟩ := hs.finClipped false hr (by rw [hlen]; omega)
    (by rw [hlen])
  exact ⟨_, s', .snoc hreach (fun r hr => by cases hr) hload,
    hs.slices hr (by omega) (fun _ => by omega), hstep, hs.state, hst, hirs, hnxt, hnumbers,
    hbytes⟩

/-- The last byte of the stream is lost: `rcv_nxt` stands behind all 65535 bytes, and 65534 of them were
appended. -/
theorem stream_fin_truncates : ∃ s,
    Reaches (step false) (Slices (List.replicate 65535 0)) Initial s ∧
    s.c.rcv.nxt = s.c.rcv.irs + 1 + BitVec.ofNat 32 65535 ∧ received s.c.rx.log = 65535 ∧
    payload s.c.rx.log ≠ (List.replicate 65535 0).take 65535 := by
  obtain ⟨s, s', hs, hslice, hstep, -, -, hirs, hnxt, hnumbers, hbytes⟩ := streaming_finClipped
  refine ⟨s', .snoc hs hslice hstep, ?_, hnumbers, ?_⟩
  · rw [hnxt, hirs]
    rfl
  · intro heq
    rw [heq, length_take, length_replicate] at hbytes
    omega

/-- The connection moves to CLOSE_WAIT while the number of the FIN, the 65536th, lies behind the window
and has not been received. -/
theorem fin_clipped_closes : ∃ s s',
    Reaches (step false) (Slices (List.replicate 65535 0)) Initial s ∧
    Slices (List.replicate 65535 0) s (.rxLocked 0 {}) ∧ step false s (.rxLocked 0 {}) = .ok s' ∧
    FinMove s.c.state s'.c.state ∧ received s'.c.rx.log = 65535 ∧
    s'.c.rcv.nxt ≠ s'.c.rcv.irs + 1 + BitVec.ofNat 32 (65535 + 1) := by
  obtain ⟨s, s', hs, hslice, hstep, hst, hst', hirs, hnxt, hnumbers, -⟩ := streaming_finClipped
  refine ⟨s, s', hs, hslice, hstep, ⟨.inr (.inl hst), .inl hst'⟩, hnumbers, ?_⟩
  rw [hnxt, hirs]
  decide

end Aspen.Tcp
