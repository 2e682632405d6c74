import Aspen.Tcp.Receiving

/-!
# The end of the stream

What do the calls of a reader return, taken together? The bytes of the buffers that were appended to the RX
queue, in order and without a gap; and 0 only behind a FIN all of whose bytes have been returned
(`reads_sound`).
-/

namespace Aspen.Tcp

open Run List

variable {dbg : Bool} {log : List Mbuf} {bs bs' : List UInt8}

/-! ## What was returned -/

def ReadRet.data : ReadRet → List UInt8
  | .bytes bs => bs
  | .zero => []
  | .failed _ => []

def returned (reads : List ReadRet) : List UInt8 := reads.flatMap ReadRet.data

@[simp] lemma returned_append (rs rs' : List ReadRet) :
    returned (rs ++ rs') = returned rs ++ returned rs' := flatMap_append

@[simp] lemma returned_singleton (r : ReadRet) : returned [r] = r.data := by simp [returned]

def held : Option ReadCall → List UInt8
  | some r => payload r.q
  | none => []

def PastFin (log : List Mbuf) (bs : List UInt8) : Prop :=
  ∃ l m l', log = l ++ m :: l' ∧ hasFlag m.flags tcpFin = true ∧ payload (l ++ [m]) <+: bs

lemma PastFin.append (h : PastFin log bs) (l : List Mbuf) : PastFin (log ++ l) bs := by
  obtain ⟨l1, m, l2, hlog, hfin, hbs⟩ := h
  exact ⟨l1, m, l2 ++ l, by simp [hlog], hfin, hbs⟩

lemma PastFin.mono (h : PastFin log bs) (hle : bs <+: bs') : PastFin log bs' := by
  obtain ⟨l1, m, l2, hlog, hfin, hbs⟩ := h
  exact ⟨l1, m, l2, hlog, hfin, hbs.trans hle⟩

def readLen : Event → Option ℕ
  | .read len => some len
  | .readv iov => some iov.sum
  | _ => none

/-- A reader that asks for something, on a connection that is not shut down for reading. -/
def ReaderCalls (s : Sys) (e : Event) : Prop := closesRx s e = false ∧ ∀ len ∈ readLen e, 1 ≤ len
deriving Decidable

/-- The queue has something to read, and the bytes the call asks for do not end inside a buffer with a
FIN. -/
def ReadsClean (s : Sys) (e : Event) : Prop := ∀ len ∈ readLen e, s.c.rx.closed = false →
    (∃ m ∈ s.c.rx.q, m.data ≠ [] ∨ hasFlag m.flags tcpFin = true) ∧
    ∀ l m l', s.c.rx.q = l ++ m :: l' → hasFlag m.flags tcpFin = true →
      len ≤ (payload l).length ∨ (payload (l ++ [m])).length ≤ len

/-! ## The invariant -/

structure EndOk (s : Sys) : Prop where
  data : payload s.c.rx.log = returned s.reads ++ held s.reader ++ payload s.c.rx.q
  /-- a FIN of the queue is one of the history, with the same buffers behind it -/
  fins : ∀ l m l', s.c.rx.q = l ++ m :: l' → hasFlag m.flags tcpFin = true →
    ∃ k m', s.c.rx.log = k ++ m' :: l' ∧ hasFlag m'.flags tcpFin = true
  closed : s.c.rx.closed = true → PastFin s.c.rx.log (returned s.reads ++ held s.reader)
  zeros : ∀ rs rs', s.reads = rs ++ .zero :: rs' → PastFin s.c.rx.log (returned rs)

variable {s s' : Sys} {l l' q : List Mbuf}

lemma EndOk.pastFin (h : EndOk s) {m : Mbuf}
    (hq : s.c.rx.q = l ++ m :: l') (hfin : hasFlag m.flags tcpFin) :
    PastFin s.c.rx.log (returned s.reads ++ held s.reader ++ payload (l ++ [m])) := by
  obtain ⟨k, m', hlog, hfin'⟩ := h.fins l m l' hq hfin
  refine ⟨k, m', l', hlog, hfin', ?_⟩
  have hdata := h.data
  have hlog' : payload s.c.rx.log = payload (k ++ [m']) ++ payload l' := by simp [hlog]
  have hq' : payload s.c.rx.q = payload (l ++ [m]) ++ payload l' := by simp [hq]
  rw [hlog', hq', ← append_assoc, append_left_inj] at hdata
  rw [hdata]

lemma zeros_snoc {reads : List ReadRet} {ret : ReadRet}
    (h : ∀ rs rs', reads = rs ++ .zero :: rs' → PastFin log (returned rs))
    (hret : ret = .zero → PastFin log (returned reads)) :
    ∀ rs rs', reads ++ [ret] = rs ++ .zero :: rs' → PastFin log (returned rs) := by
  intro rs rs' heq
  rcases eq_nil_or_concat rs' with rfl | ⟨rs1, last, rfl⟩
  · obtain ⟨rfl, hlast⟩ := append_inj' heq rfl
    cases hlast
    exact hret rfl
  · rw [concat_eq_append, ← cons_append, ← append_assoc] at heq
    obtain ⟨hrs, -⟩ := append_inj' heq rfl
    exact h rs rs1 hrs

lemma EndOk.of_same (h : EndOk s) (hq : s'.c.rx.q = s.c.rx.q)
    (hlog : s'.c.rx.log = s.c.rx.log) (hclosed : s'.c.rx.closed = s.c.rx.closed)
    (hreader : s'.reader = s.reader) (hreads : s'.reads = s.reads) : EndOk s' := by
  constructor
  · rw [hlog, hreads, hreader, hq]
    exact h.data
  · rw [hlog, hq]
    exact h.fins
  · rw [hlog, hreads, hreader, hclosed]
    exact h.closed
  · rw [hlog, hreads]
    exact h.zeros

lemma EndOk.appends (h : EndOk s) (happ : Appends s.c s'.c l)
    (hreader : s'.reader = s.reader) (hreads : s'.reads = s.reads) : EndOk s' := by
  constructor
  · rw [happ.log, happ.q, hreads, hreader, payload_append, payload_append, h.data]
    simp only [append_assoc]
  · intro l1 m l2 hq hfin
    rw [happ.q] at hq
    rw [happ.log]
    rcases append_eq_append_iff.1 hq with ⟨l3, rfl, hl⟩ | ⟨l3, hold, hl⟩
    · -- a new buffer
      exact ⟨s.c.rx.log ++ l3, m, by simp [hl], hfin⟩
    · cases l3 with
      | nil => exact ⟨s.c.rx.log, m, by simpa using hl.symm, hfin⟩
      | cons m0 l3 =>
        cases hl
        obtain ⟨k, m', hlog, hfin'⟩ := h.fins l1 m l3 hold hfin
        exact ⟨k, m', by simp [hlog], hfin'⟩
  · rw [happ.log, hreads, hreader, happ.closed]
    exact fun hc => (h.closed hc).append l
  · intro rs rs' hrs
    rw [happ.log]
    exact (h.zeros rs rs' (hreads ▸ hrs)).append l

variable {len n : ℕ}

lemma EndOk.cut {p : Popped} (h : EndOk s) (hidle : s.reader = none) (hcut : Cut len 0 s.c.rx.q p)
    (hclean : ∀ l m l', s.c.rx.q = l ++ m :: l' → hasFlag m.flags tcpFin →
      len ≤ (payload l).length ∨ (payload (l ++ [m])).length ≤ len) (hfin : p.fin) :
    PastFin s.c.rx.log (returned s.reads ++ payload p.q) := by
  have hpast : ∀ {l l' m}, s.c.rx.q = l ++ m :: l' → hasFlag m.flags tcpFin →
      PastFin s.c.rx.log (returned s.reads ++ payload (l ++ [m])) := by
    intro l l' m hq hfin
    have := h.pastFin hq hfin
    rwa [hidle, held, append_nil] at this
  rcases hcut.fin.1 hfin with ⟨m, hm, hmfin⟩ | ⟨m, hm, hmfin, hwhy⟩
  · obtain ⟨l, l', hp⟩ := append_of_mem hm
    have hq : s.c.rx.q = l ++ m :: (l' ++ p.rxq) := by rw [hcut.split, hp]; simp
    refine (hpast hq hmfin).mono ((prefix_append_right_inj _).2 ?_)
    rw [hp]
    simp
  · obtain ⟨rest, hrest⟩ := head?_eq_some_iff.1 hm
    have hq : s.c.rx.q = p.q ++ m :: rest := by rw [hcut.split, hrest]
    rcases hwhy with hpart | ⟨hempty, -⟩
    · -- the call would end inside the buffer
      exfalso
      obtain ⟨-, m', hm', hlt, hlt'⟩ := hcut.part hpart
      cases hm.symm.trans hm'
      have hends := hclean _ _ _ hq hmfin
      rw [payload_append, length_append, payload_cons, payload_nil, append_nil] at hends
      omega
    · have hlast := hpast hq hmfin
      rwa [payload_append, payload_cons, hempty, payload_nil, append_nil, append_nil] at hlast

lemma Cut.fin_of_zero {p : Popped} (h : Cut len 0 q p) (hlen : 1 ≤ len)
    (hsome : ∃ m ∈ q, m.data ≠ [] ∨ hasFlag m.flags tcpFin) (hzero : p.readlen = 0) : p.fin = true := by
  have hread := h.readlen_eq
  rcases h.stop with hpart | hrest | hfull | ⟨m, hm, hfin, hempty⟩
  · have := (h.part hpart).1
    omega
  · obtain ⟨m, hm, hwhy⟩ := hsome
    rw [h.split, hrest, append_nil] at hm
    have hnone : payload p.q = [] := by
      rw [← length_eq_zero_iff]
      omega
    rcases hwhy with hdata | hfin
    · exact absurd (flatMap_eq_nil_iff.1 hnone m hm) hdata
    · exact h.fin.2 (.inl ⟨m, hm, hfin⟩)
  · omega
  · exact h.fin.2 (.inr ⟨m, hm, hfin, .inr ⟨hempty, by omega⟩⟩)

lemma EndOk.read {iov : Option (List ℕ)} {p : Popped} (h : EndOk s) (hidle : s.reader = none) (hlen : 1 ≤ len)
    (hsome : ∃ m ∈ s.c.rx.q, m.data ≠ [] ∨ hasFlag m.flags tcpFin)
    (hclean : ∀ l m l', s.c.rx.q = l ++ m :: l' → hasFlag m.flags tcpFin →
      len ≤ (payload l).length ∨ (payload (l ++ [m])).length ≤ len) (hp : popRead len s.c.rx.q 0 = p)
    (hrx : s'.c.rx = { s.c.rx with closed := p.fin, q := p.rxq, exclusive := p.part })
    (hrest : p.readlen = 0 ∧ s'.reader = none ∧ s'.reads = s.reads ++ [.zero] ∨ p.readlen ≠ 0 ∧ s'.reads = s.reads ∧
        s'.reader = some { len := len, iov := iov, q := p.q, part := p.part }) : EndOk s' := by
  have hcut := hp ▸ popRead_cut len s.c.rx.q 0
  have hread := hcut.readlen_eq
  have hheld : held s'.reader = payload p.q := by
    rcases hrest with ⟨hzero, hr, -⟩ | ⟨-, -, hr⟩
    · have hnone : payload p.q = [] := by
        rw [← length_eq_zero_iff]
        omega
      rw [hr, hnone]
      rfl
    · rw [hr]
      rfl
  have hreturned : returned s'.reads = returned s.reads := by
    rcases hrest with ⟨-, -, hr⟩ | ⟨-, hr, -⟩
    · rw [hr, returned_append, returned_singleton]
      exact append_nil _
    · rw [hr]
  constructor
  · rw [hrx, hreturned, hheld, h.data, hcut.split, payload_append, hidle]
    simp [held]
  · rw [hrx]
    intro l m l' hq hfin
    dsimp only at hq ⊢
    exact h.fins (p.q ++ l) m l' (by rw [hcut.split, hq, append_assoc]) hfin
  · rw [hrx, hreturned, hheld]
    exact h.cut hidle hcut hclean
  · rw [hrx]
    rcases hrest with ⟨hzero, -, hr⟩ | ⟨-, hr, -⟩
    · rw [hr]
      refine zeros_snoc h.zeros fun _ => ?_
      have hpast := h.cut hidle hcut hclean (hcut.fin_of_zero hlen hsome hzero)
      have hnone : payload p.q = [] := by
        rw [← length_eq_zero_iff]
        omega
      rwa [hnone, append_nil] at hpast
    · rw [hr]
      exact h.zeros

lemma pullHead_split {m : Mbuf} (h : pullHead n q = l ++ m :: l') :
    ∃ k m', q = k ++ m' :: l' ∧ m'.flags = m.flags := by
  cases q with
  | nil => simp [pullHead] at h
  | cons m0 q =>
    cases l with
    | nil =>
      cases h
      exact ⟨[], m0, rfl, rfl⟩
    | cons m1 l =>
      cases h
      exact ⟨m0 :: l, m, rfl, rfl⟩

lemma EndOk.finish {r : ReadCall} {bytes : List UInt8} (h : EndOk s)
    (hok : RecvOk s.c s.reader) (hr : s.reader = some r)
    (hcopy : (bytes, n) = match r.iov with
      | none => tcpReadCopy r.len r.q (if r.part then s.c.rx.q.head? else none)
      | some lens => tcpReadvCopy lens r.q (if r.part then s.c.rx.q.head? else none))
    (hs : s' = { s with
      c := tcpReadFinish s.c r.part n
      reader := none
      reads := s.reads ++ [.bytes bytes] }) : EndOk s' := by
  rw [hr] at hok
  obtain ⟨hbytes, rfl⟩ := (hok.reading r rfl).copy_eq hcopy
  obtain ⟨hlog, hclosed⟩ : (tcpReadFinish s.c r.part (owed (some r))).rx.log = s.c.rx.log ∧
      (tcpReadFinish s.c r.part (owed (some r))).rx.closed = s.c.rx.closed := by
    obtain ⟨q, x, hc⟩ := tcpReadFinish_eq s.c r.part (owed (some r))
    rw [hc]
    exact ⟨rfl, rfl⟩
  have hheld : held s.reader = payload r.q := by rw [hr]; rfl
  have hreturned : returned (s.reads ++ [.bytes bytes]) = returned s.reads ++ bytes := by
    rw [returned_append, returned_singleton]
    rfl
  subst hs
  constructor
  · rw [hlog, hreturned, hok.payload_finish, h.data, hheld, hbytes]
    simp [held]
  · rw [hlog]
    intro l m l' hq hfin
    unfold tcpReadFinish at hq
    split at hq
    · obtain ⟨k, m', hq', hflags⟩ := pullHead_split hq
      exact h.fins k m' l' hq' (hflags ▸ hfin)
    · exact h.fins l m l' hq hfin
  · rw [hlog, hclosed, hreturned]
    intro hc
    refine (h.closed hc).mono ?_
    rw [hheld, hbytes]
    simp [held]
  · rw [hlog]
    exact zeros_snoc h.zeros (by simp)

structure EndInv (s : Sys) : Prop where
  recv : RecvInv s
  ok : s.c.err = none → EndOk s

lemma EndInv.step {e : Event} (hi : EndInv s) (h : step dbg s e = .ok s')
    (hcalls : ReaderCalls s e) (hclean : ReadsClean s e) : EndInv s' := by
  refine ⟨hi.recv.step h, fun herr => ?_⟩
  have hok := hi.ok (step_err h herr)
  cases stepped h with
  | ingress _ ho =>
    cases (tcpRxConnLocked_move ho).recv hi.recv.ok.queue with
    | keep hsame hfin =>
      exact hok.of_same (congrArg Rx.q hsame.2) (congrArg Rx.log hsame.2) (congrArg Rx.closed hsame.2) rfl rfl
    | failed herr' hst' hrcv hrx => exact absurd herr herr'
    | syn hst hst' hnxt hirs hwnd hrx =>
      exact hok.of_same (congrArg Rx.q hrx) (congrArg Rx.log hrx) (congrArg Rx.closed hrx) rfl rfl
    | text hst hacc h1 hst1 hm htext h2 hfin hst' =>
      obtain ⟨l, happ⟩ := htext.appends
      refine hok.appends (l := l) ⟨?_, ?_, ?_, ?_, ?_, ?_⟩ rfl rfl
      · exact (congrArg Rx.q h2.2).trans (happ.q.trans (by rw [h1.2]))
      · exact (congrArg Rx.log h2.2).trans (happ.log.trans (by rw [h1.2]))
      · exact (congrArg Rx.closed h2.2).trans (happ.closed.trans (by rw [h1.2]))
      · exact (congrArg Rx.exclusive h2.2).trans (happ.exclusive.trans (by rw [h1.2]))
      · exact (congrArg Rcv.irs h2.1).trans (happ.irs.trans (by rw [h1.1]))
      · have hroom := happ.room
        rw [h1.1, ← h2.1] at hroom
        exact hroom
  | readClosed hidle hclosed hret =>
    have hpast := hok.closed hclosed
    rw [hidle, held, append_nil] at hpast
    obtain rfl := hret.resolve_right fun hne => hne herr
    have hreturned : returned (s.reads ++ [.zero]) = returned s.reads := by
      rw [returned_append, returned_singleton]
      exact append_nil _
    refine ⟨?_, hok.fins, ?_, zeros_snoc hok.zeros fun _ => hpast⟩
    · rw [hreturned]
      exact hok.data
    · rw [hreturned]
      exact hok.closed
  | @reading _ len _ _ _ _ _ he hidle hopen _ hp hrest =>
    have hlen : readLen e = some len := by
      rcases he with ⟨rfl, -⟩ | ⟨lens, rfl, rfl, -⟩
      · rfl
      · rfl
    obtain ⟨hsome, hends⟩ := hclean len hlen hopen
    exact hok.read hidle (hcalls.2 len hlen) hsome hends hp rfl hrest
  | readDone hr hcopy hc => exact hok.finish hi.recv.ok hr hcopy (by rw [hc])
  | @closedRx _ rx =>
    obtain rfl : rx = false := hcalls.1
    exact hok.of_same rfl rfl (Bool.or_false _) rfl rfl
  | @shutdown _ _ rx _ _ _ _ _ _ _ _ _ _ _ hk =>
    obtain rfl : rx = false := hk.closesRx.symm.trans hcalls.1
    exact hok.of_same rfl rfl (by dsimp only; rw [Bool.and_false, Bool.or_false]) rfl rfl
  | closed => cases hcalls.1
  | close hk => cases hk.closesRx.symm.trans hcalls.1
  | closeFailed | failed => simp [tcpConnFail_eq] at herr
  | _ => exact hok.of_same rfl rfl rfl rfl rfl

lemma endInv_initial (h : Initial s) : EndInv s := by
  refine ⟨recvInv_initial h, fun _ => ?_⟩
  obtain ⟨_, _, _, _, _, _, _, _, _, -, -, -, rfl⟩ := initial_eq h
  refine ⟨rfl, ?_, by simp [freshConn, tcpConnAlloc], by simp⟩
  intro l m l' hq
  simp [freshConn, tcpConnAlloc] at hq

/-- In every run in which no read ends inside a buffer with a FIN, or finds nothing but empty buffers: the calls
return the bytes appended to the RX queue, in order, and 0 only if all the bytes up to a FIN have been returned. -/
theorem reads_sound {s : Sys} (h : Reaches (step dbg) (fun s e => ReaderCalls s e ∧ ReadsClean s e) Initial s)
    (herr : s.c.err = none) :
    (s.reader = none → payload s.c.rx.log = returned s.reads ++ payload s.c.rx.q) ∧
    returned s.reads <+: payload s.c.rx.log ∧
    ∀ rs rs', s.reads = rs ++ .zero :: rs' → ∃ l m l', s.c.rx.log = l ++ m :: l' ∧
      hasFlag m.flags tcpFin = true ∧ payload (l ++ [m]) <+: returned rs := by
  have hinv : EndInv s :=
    h.invariant (fun _ => endInv_initial) fun _ _ _ hi hok hs => hi.step hs hok.1 hok.2
  have hok := hinv.ok herr
  refine ⟨?_, ?_, hok.zeros⟩
  · intro hidle
    rw [hok.data, hidle, held, append_nil]
  · rw [hok.data, append_assoc]
    exact prefix_append _ _

lemma readerCalls_clean {e : Event} (h : ReaderCalls s e ∧ ∀ len ∈ readLen e,
    s.c.rx.closed = false → (∃ m ∈ s.c.rx.q, m.data ≠ [] ∨ hasFlag m.flags tcpFin) ∧
      ∀ m ∈ s.c.rx.q, hasFlag m.flags tcpFin → m.data.length ≤ 1) :
    ReaderCalls s e ∧ ReadsClean s e := by
  refine ⟨h.1, fun len hlen hopen => ?_⟩
  obtain ⟨hsome, hshort⟩ := h.2 len hlen hopen
  refine ⟨hsome, fun l m l' hq hfin => ?_⟩
  have hle := hshort m (by simp [hq]) hfin
  rw [payload_append, length_append, payload_cons, payload_nil, append_nil]
  omega

theorem reads_sound_bytes : ∃ s,
    Reaches (step false) (fun s e => ReaderCalls s e ∧ ReadsClean s e) Initial s ∧ s.c.err = none ∧
    s.reads = [.bytes [7], .bytes [8], .zero] ∧ returned s.reads <+: payload s.c.rx.log := by
  obtain ⟨s, hs, herr, hreads⟩ : ∃ s, Reaches (step false) (fun s e => ReaderCalls s e ∧ ReadsClean s e) Initial s ∧
      s.c.err = none ∧ s.reads = [.bytes [7], .bytes [8], .zero] := by
    refine Reaches.of_exec (handshake 1000 ++ arrives (.plain 5001 1001 tcpAck 1000 [7] (by decide)) ++
      arrives (.plain 5002 1001 (tcpFin ||| tcpAck) 1000 [8] (by decide)) ++
      [.read 1, .readFinish, .readv [0, 1], .readFinish, .read 1])
      (initial_dialed 1500) (Allowed.mono (fun _ _ => readerCalls_clean) ?_) ?_
    · decide
    · decide
  exact ⟨s, hs, herr, hreads, (reads_sound hs herr).2.1⟩

/-- Two bytes arrive with the FIN. A call for one of them returns it, the next call returns 0, and the other byte is
lost. -/
theorem reads_fin_cut : ∃ s, Reaches (step false) ReaderCalls Initial s ∧ s.c.err = none ∧
    s.reads = [.bytes [7], .zero] ∧
    s.c.rx.log.map (fun m => (m.data, hasFlag m.flags tcpFin)) = [([7, 8], true)] := by
  refine Reaches.of_exec (handshake 1000 ++ arrives (.plain 5001 1001 (tcpFin ||| tcpAck) 1000 [7, 8] (by decide)) ++
    [.read 1, .readFinish, .read 1]) (initial_dialed 1500) ?_ ?_
  · decide
  · decide

end Aspen.Tcp
