import Aspen.Tcp.EndOfStream

/-!
# The receive window

Ingress takes the window down by as many numbers as it moves `rcv_nxt` up. A read opens the window by the bytes
it promises to the caller. So from the handshake on the window, plus the numbers accepted, minus the bytes read
is `winmax` (`window_conserved`). No more bytes are ever read than numbers were accepted, hence the window stays
within `winmax`, and it does not wrap around.
-/

namespace Aspen.Tcp

open Run

variable {dbg : Bool} {env : Env} {c c' : Conn} {m : Mbuf} {r : RxSeg} {fin : Bool} {s s' : Sys}
  {e : Event}

/-! ## Text pays with window -/

structure Paid (c c' : Conn) (n : ℕ) : Prop where
  nxt : c'.rcv.nxt = c.rcv.nxt + BitVec.ofNat 32 n
  wnd : c'.rcv.wnd.toNat + n = c.rcv.wnd.toNat
  irs : c'.rcv.irs = c.rcv.irs
  bytes : (payload c'.rx.q).length ≤ (payload c.rx.q).length + n

lemma Paid.refl (c : Conn) : Paid c c 0 := ⟨by simp, rfl, rfl, le_rfl⟩

variable {n k : ℕ}

lemma Paid.trans {c'' : Conn} {n' : ℕ} (h : Paid c c' n) (h' : Paid c' c'' n') : Paid c c'' (n + n') where
  nxt := by rw [h'.nxt, h.nxt, BitVec.ofNat_add, add_assoc]
  wnd := by
    have hw := h.wnd
    have hw' := h'.wnd
    omega
  irs := h'.irs.trans h.irs
  bytes := by
    have hb := h.bytes
    have hb' := h'.bytes
    omega

lemma paid_clipped (c : Conn) (m : Mbuf) : Paid c (enqueueText c (clipped c m)) (taken c m) := by
  have hle := taken_le c m
  refine ⟨rfl, ?_, rfl, ?_⟩
  · rw [enqueueText_clipped_wnd]
    omega
  · show (payload (c.rx.q ++ [clipped c m])).length ≤ _
    have hlen : (clipped c m).data.length ≤ taken c m := by
      simp only [clipped, List.length_take]
      omega
    rw [payload_append, List.length_append]
    simp only [payload_cons, payload_nil, List.append_nil]
    omega

lemma Drains.paid {a b : Draining} (h : Drains a b) : ∃ n, Paid a.c b.c n := by
  induction h with
  | refl => exact ⟨0, .refl _⟩
  | tail _ hs ih =>
    obtain ⟨n, hn⟩ := ih
    cases hs with
    | skip h => exact ⟨n, hn.nxt, hn.wnd, hn.irs, hn.bytes⟩
    | @append pos _ c1 _ h hfin =>
      have hpaid := hn.trans (paid_clipped c1 pos)
      exact ⟨_, hpaid.nxt, hpaid.wnd, hpaid.irs, hpaid.bytes⟩

lemma TextMove.paid (h : TextMove c m c' fin) : ∃ n, Paid c c' n := by
  cases h with
  | queued =>
    have hpaid := Paid.refl c
    exact ⟨0, hpaid.nxt, hpaid.wnd, hpaid.irs, hpaid.bytes⟩
  | drained hs hd hw =>
    obtain ⟨n, hn⟩ := hd.paid
    have hpaid := (paid_clipped c m).trans hn
    exact ⟨_, hpaid.nxt, hpaid.wnd, hpaid.irs, hpaid.bytes⟩

/-! ## What a step does to the window -/

inductive RxWindow (c c' : Conn) : Prop
  | keep (hrcv : c'.rcv = c.rcv) (hmax : c'.winmax = c.winmax)
      (hq : (payload c'.rx.q).length ≤ (payload c.rx.q).length)
      (hst : c'.state = .closed ∨ c'.state = c.state ∨ c.state ≠ .closed ∧ c.state ≠ .synSent)
  | syn (hst : c.state = .synSent) (hnxt : c'.rcv.nxt = c'.rcv.irs + 1)
      (hwnd : c.rcv.wnd = c.winmax → c'.rcv.wnd = c'.winmax) (hrx : c'.rx = c.rx)
  | text {n : ℕ} (hpaid : Paid c c' n) (hmax : c'.winmax = c.winmax)
      (hst : c.state ≠ .closed ∧ c.state ≠ .synSent)

lemma length_payload_failed (rx : Rx) : (payload rx.failed.q).length ≤ (payload rx.q).length := by
  simp only [Rx.failed]
  split
  · exact le_rfl
  · simp

lemma synConn_window (c : Conn) (r : RxSeg) (o : ParsedOptions) :
    c.rcv.wnd = c.winmax → (synConn c r o).rcv.wnd = (synConn c r o).winmax := by
  intro hwnd
  rw [synConn_eq, applyOptions_eq]
  dsimp only
  split
  · exact hwnd
  · rfl

lemma AckPhase.winmax {c1 : Conn} (h : AckPhase (entered c r) r c1) : c1.winmax = c.winmax := by
  have hentered : (entered c r).winmax = c.winmax := by
    unfold entered
    split <;> rfl
  cases h
  exact hentered

lemma RxMove.window (h : RxMove dbg env c r c') (hq : QueueOk c c.rx.ooo) : RxWindow c c' := by
  have hrecv := h.recv hq
  cases h with
  | quiet => exact .keep rfl rfl le_rfl (.inr (.inl rfl))
  | failed hst =>
    rw [tcpConnFail_eq]
    exact .keep rfl rfl (length_payload_failed c.rx) (.inl rfl)
  | @synAcked o t hst hack huna =>
    obtain ⟨hrx, hnxt, hirs, -⟩ := synConn_recv c r o
    exact .syn hst (by rw [hnxt, hirs]) (synConn_window c r o) hrx
  | @synCrossed o opts c1 ret t hst hack huna hctl hsyn hrst =>
    obtain ⟨hrx, hnxt, hirs, -⟩ := synConn_recv c r o
    have hwnd := synConn_window c r o
    obtain ⟨-, rfl, -⟩ | ⟨-, -, m, -, -, -, rfl⟩ := tcpTxCtl_cases hctl
    · exact .syn hst (by rw [hnxt, hirs]) hwnd hrx
    · exact .syn hst (by rw [tcpPushTcphdr]; simp [hnxt, hirs]) hwnd hrx
  | lastAcked hst hacc hack huna =>
    rw [tcpConnPutSm_eq]
    cases hack
    exact .keep rfl rfl le_rfl (.inl rfl)
  | text hst hacc hack hlast htext =>
    have hmax := hack.winmax
    obtain ⟨rcv, rx, rfl⟩ := htext.frame
    cases hrecv with
    | keep hsame hfin => exact .keep hsame.1 hmax (by rw [hsame.2]) (.inr (.inr hst))
    | failed herr hst' hrcv hrx =>
      refine .keep hrcv hmax ?_ (.inr (.inr hst))
      rw [hrx]
      exact length_payload_failed c.rx
    | syn hst' => exact absurd hst' hst.2
    | text hst hacc h1 hst1 hm htext' h2 hfin hst' =>
      obtain ⟨n, hn⟩ := htext'.paid
      refine .text (n := n) ⟨?_, ?_, ?_, ?_⟩ hmax hst
      · rw [h2.1, hn.nxt, h1.1]
      · rw [h2.1, hn.wnd, h1.1]
      · rw [h2.1, hn.irs, h1.1]
      · rw [h2.2, ← h1.2]
        exact hn.bytes

/-! ## Reads give it back -/

def promised : Option ReadCall → ℕ
  | some r => (payload r.q).length + owed (some r)
  | none => 0

def Sys.bytesRead (s : Sys) : ℕ := (returned s.reads).length + promised s.reader

structure Accepted (s : Sys) (n : ℕ) : Prop where
  nxt : s.c.rcv.nxt = s.c.rcv.irs + 1 + BitVec.ofNat 32 n
  wnd : s.c.rcv.wnd.toNat + n = s.c.winmax.toNat + s.bytesRead
  bytes : s.bytesRead + (payload s.c.rx.q).length ≤ n + owed s.reader

lemma Accepted.keep (h : Accepted s n) (hrcv : s'.c.rcv = s.c.rcv)
    (hmax : s'.c.winmax = s.c.winmax) (hq : (payload s'.c.rx.q).length ≤ (payload s.c.rx.q).length)
    (hreader : s'.reader = s.reader) (hreads : returned s'.reads = returned s.reads) : Accepted s' n := by
  have hread : s'.bytesRead = s.bytesRead := by
    rw [Sys.bytesRead, Sys.bytesRead, hreader, hreads]
  have hbytes := h.bytes
  refine ⟨?_, ?_, ?_⟩
  · rw [hrcv]
    exact h.nxt
  · rw [hrcv, hmax, hread]
    exact h.wnd
  · rw [hread, hreader]
    omega

lemma Accepted.text (h : Accepted s n) (hpaid : Paid s.c s'.c k)
    (hmax : s'.c.winmax = s.c.winmax) (hreader : s'.reader = s.reader)
    (hreads : s'.reads = s.reads) : Accepted s' (n + k) := by
  have hread : s'.bytesRead = s.bytesRead := by
    rw [Sys.bytesRead, Sys.bytesRead, hreader, hreads]
  have hwnd := h.wnd
  have hbytes := h.bytes
  have hpaid' := hpaid.wnd
  have hbytes' := hpaid.bytes
  refine ⟨?_, ?_, ?_⟩
  · rw [hpaid.nxt, hpaid.irs, h.nxt, BitVec.ofNat_add, add_assoc]
  · rw [hmax, hread]
    omega
  · rw [hread, hreader]
    omega

lemma Accepted.read {len : ℕ} {iov : Option (List ℕ)} {p : Popped} (h : Accepted s n)
    (hok : RecvOk s.c none) (hidle : s.reader = none) (hp : popRead len s.c.rx.q 0 = p)
    (hrcv : s'.c.rcv = { s.c.rcv with wnd := s.c.rcv.wnd + BitVec.ofNat 32 p.readlen })
    (hmax : s'.c.winmax = s.c.winmax) (hq : s'.c.rx.q = p.rxq)
    (hrest : p.readlen = 0 ∧ s'.reader = none ∧ s'.reads = s.reads ++ [.zero] ∨ p.readlen ≠ 0 ∧ s'.reads = s.reads ∧
        s'.reader = some { len := len, iov := iov, q := p.q, part := p.part }) : Accepted s' n := by
  have hcut := hp ▸ popRead_cut len s.c.rx.q 0
  have hread := hcut.readlen_eq
  have hle := hcut.readlen_le_payload
  have hsplit : (payload s.c.rx.q).length = (payload p.q).length + (payload p.rxq).length := by
    rw [hcut.split, payload_append, List.length_append]
  have hroom : s.c.rcv.wnd.toNat + (payload s.c.rx.q).length ≤ 131071 := hok.room
  have hwnd : s'.c.rcv.wnd.toNat = s.c.rcv.wnd.toNat + p.readlen := by
    rw [hrcv]
    rw [BitVec.toNat_add, BitVec.toNat_ofNat]
    omega
  have howed : owed s'.reader = if p.part then len - (payload p.q).length else 0 := by
    rcases hrest with ⟨hzero, hreader, -⟩ | ⟨-, -, hreader⟩
    · rw [hreader]
      show 0 = _
      omega
    · rw [hreader]
      rfl
  have hbytes' : s'.bytesRead = s.bytesRead + p.readlen := by
    unfold Sys.bytesRead
    rw [hidle]
    rcases hrest with ⟨hzero, hreader, hreads⟩ | ⟨-, hreads, hreader⟩
    · rw [hreader, hreads, returned_append, returned_singleton, hzero]
      simp [ReadRet.data, promised]
    · rw [hreader, hreads, hread]
      rfl
  have hold := h.wnd
  have hbytes := h.bytes
  rw [hidle] at hbytes
  simp only [owed] at hbytes
  refine ⟨?_, ?_, ?_⟩
  · rw [hrcv]
    exact h.nxt
  · rw [hwnd, hmax, hbytes']
    omega
  · rw [hbytes', howed, hq]
    omega

lemma Accepted.finish {call : ReadCall} {bytes : List UInt8} (h : Accepted s n)
    (hok : RecvOk s.c (some call)) (hr : s.reader = some call)
    (hcopy : (bytes, k) = match call.iov with
      | none => tcpReadCopy call.len call.q (if call.part then s.c.rx.q.head? else none)
      | some lens => tcpReadvCopy lens call.q (if call.part then s.c.rx.q.head? else none))
    (hs : s' = { s with
      c := tcpReadFinish s.c call.part k, reader := none, reads := s.reads ++ [.bytes bytes] }) :
    Accepted s' n := by
  obtain ⟨hdata, rfl⟩ := (hok.reading call rfl).copy_eq hcopy
  have hfinish := hok.payload_finish
  have howed := hok.owed_le
  obtain ⟨hrcv, hwinmax⟩ : (tcpReadFinish s.c call.part (owed (some call))).rcv = s.c.rcv ∧
      (tcpReadFinish s.c call.part (owed (some call))).winmax = s.c.winmax := by
    obtain ⟨q, x, hc⟩ := tcpReadFinish_eq s.c call.part (owed (some call))
    rw [hc]
    exact ⟨rfl, rfl⟩
  have hlen : bytes.length = promised (some call) := by
    rw [hdata, List.length_append, List.length_take, Nat.min_eq_left howed]
    rfl
  have hread : s'.bytesRead = s.bytesRead := by
    rw [hs]
    simp only [Sys.bytesRead, returned_append, returned_singleton, ReadRet.data, List.length_append, hlen, hr]
    rfl
  have hbytes := h.bytes
  rw [hr] at hbytes
  refine ⟨?_, ?_, ?_⟩
  · rw [hs, hrcv]
    exact h.nxt
  · rw [hread, hs, hrcv, hwinmax]
    exact h.wnd
  · rw [hread, hs]
    rw [hfinish, List.length_drop]
    omega

lemma returned_snoc {ret : ReadRet} (h : ∀ bytes, ret ≠ .bytes bytes) (l : List ReadRet) :
    returned (l ++ [ret]) = returned l := by
  rw [returned_append, returned_singleton]
  cases ret with
  | bytes bs => exact absurd rfl (h bs)
  | zero | failed => exact List.append_nil _

/-! ## Whole runs -/

/-- The options of the peer are known: the handshake is past SYN_SENT, or a listener has begun it. -/
def Sys.negotiated (s : Sys) : Bool :=
  (s.c.state != .closed && s.c.state != .synSent) || match s.owner with
    | .listening _ => true
    | _ => false

structure WindowInv (s : Sys) (n : ℕ) : Prop where
  recv : RecvInv s
  unsynced : Unsynced s → s.c.rcv.wnd = s.c.winmax ∧ returned s.reads = []
  accepted : n ≠ 0 ∨ s.negotiated = true → ∃ k, Accepted s k

lemma negotiated_of_state {s : Sys} (h : s.c.state ≠ .closed ∧ s.c.state ≠ .synSent) : s.negotiated = true := by
  simp [Sys.negotiated, h.1, h.2]

lemma negotiated_step (h : step dbg s e = .ok s') (hs : s.negotiated = false)
    (hs' : s'.negotiated) : s'.c.state ≠ .closed ∧ s'.c.state ≠ s.c.state ∧
      ∃ i env r, e = .rxLocked i env ∧ RxMove dbg env s.c r s'.c := by
  have hst : s.c.state = .closed ∨ s.c.state = .synSent := by
    by_contra hst
    rw [not_or] at hst
    rw [negotiated_of_state hst] at hs
    cases hs
  have hlisten : ∀ opts, s.owner ≠ .listening opts := by
    intro opts ho
    simp [Sys.negotiated, ho] at hs
  have hst' : s'.c.state ≠ .closed ∧ s'.c.state ≠ .synSent := by
    unfold Sys.negotiated at hs'
    split at hs'
    · -- a listener that is there now was there before
      rename_i opts ho
      exact absurd (step_fresh h (by rw [ho]; rfl) ▸ ho) (hlisten opts)
    · simpa using hs'
  refine ⟨hst'.1, ?_, ?_⟩
  · rcases hst with hst | hst
    · rw [hst]
      exact hst'.1
    · rw [hst]
      exact hst'.2
  · cases step_state h with
    | same hsame => rw [hsame] at hst'; exact absurd hst (by simp [hst'])
    | failed hclosed herr | expired hwait hclosed => exact absurd hclosed hst'.1
    | ingress hr hm => exact ⟨_, _, _, rfl, hm⟩
    | fin hfin =>
      rcases hst with hst | hst
      · exact absurd (by rw [hfin, hst]; rfl) hst'.1
      · exact absurd (by rw [hfin, hst]; rfl) hst'.2
    | opened ho ho' hopen hdial =>
      cases hown : s.owner with
      | dialing nonblocking => exact absurd (hdial nonblocking hown) hst'.2
      | listening opts => exact absurd hown (hlisten opts)
      | _ => simp [hown, Owner.fresh] at ho

lemma WindowInv.syn (hi : WindowInv s n) (hst : s.c.state = .synSent)
    (hnxt : s'.c.rcv.nxt = s'.c.rcv.irs + 1) (hwnd : s.c.rcv.wnd = s.c.winmax →
      s'.c.rcv.wnd = s'.c.winmax) (hrx : s'.c.rx = s.c.rx) (hreader : s'.reader = s.reader)
    (hreads : s'.reads = s.reads) : Accepted s' 0 := by
  obtain ⟨hq, -, -, hidle⟩ := hi.recv.synSent hst
  obtain ⟨hmax, hret⟩ := hi.unsynced (.inr hst)
  have hread : s'.bytesRead = 0 := by
    rw [Sys.bytesRead, hreader, hreads, hret, hidle]
    rfl
  refine ⟨?_, ?_, ?_⟩
  · rw [hnxt]
    simp
  · rw [hwnd hmax, hread]
  · rw [hread, hreader, hidle, hrx, hq]
    simp

lemma WindowInv.unsynced_step (hi : WindowInv s n) (h : step dbg s e = .ok s')
    (hu' : Unsynced s') : s'.c.rcv.wnd = s'.c.winmax ∧ returned s'.reads = [] := by
  have hu := unsynced_of_step h hu'
  obtain ⟨hwnd, hret⟩ := hi.unsynced hu
  obtain ⟨hnil, -, -, hidle⟩ := hi.recv.unsynced hu
  cases stepped h with
  | ingress _ ho =>
    refine ⟨?_, hret⟩
    cases (tcpRxConnLocked_move ho).window hi.recv.ok.queue with
    | keep hrcv hmax hq hst => exact (congrArg Rcv.wnd hrcv).trans (hwnd.trans hmax.symm)
    | syn hst hnxt hwnd' hrx => exact hwnd' hwnd
    | text hpaid hmax hst =>
      rcases hu with hfresh | hst'
      · exact absurd (hi.recv.fresh hfresh) hst.1
      · exact absurd hst' hst.2
  | readClosed _ _ _ hdata => exact ⟨hwnd, (returned_snoc hdata _).trans hret⟩
  | reading _ _ _ hready => exact absurd hnil hready.2
  | readDone hr => cases hidle.symm.trans hr
  | closeFailed | failed =>
    rw [tcpConnFail_eq]
    exact ⟨hwnd, hret⟩
  | _ => exact ⟨hwnd, hret⟩

lemma WindowInv.accepted_step (hi : WindowInv s n) (ha : Accepted s k)
    (h : step dbg s e = .ok s') : ∃ k, Accepted s' k := by
  cases stepped h with
  | ingress _ ho =>
    cases (tcpRxConnLocked_move ho).window hi.recv.ok.queue with
    | keep hrcv hmax hq hst => exact ⟨k, ha.keep hrcv hmax hq rfl rfl⟩
    | syn hst hnxt hwnd hrx => exact ⟨0, hi.syn hst hnxt hwnd hrx rfl rfl⟩
    | text hpaid hmax hst => exact ⟨_, ha.text hpaid hmax rfl rfl⟩
  | readClosed _ _ _ hdata => exact ⟨k, ha.keep rfl rfl le_rfl rfl (returned_snoc hdata _)⟩
  | reading _ hidle _ _ hp hrest => exact ⟨k, ha.read (hidle ▸ hi.recv.ok) hidle hp rfl rfl rfl hrest⟩
  | readDone hr hcopy hc => exact ⟨k, ha.finish (hr ▸ hi.recv.ok) hr hcopy (by rw [hc])⟩
  | closeFailed | failed =>
    rw [tcpConnFail_eq]
    exact ⟨k, ha.keep rfl rfl (length_payload_failed _) rfl rfl⟩
  | _ => exact ⟨k, ha.keep rfl rfl le_rfl rfl rfl⟩

lemma rxLocked_reads {i : ℕ} (h : step dbg s (.rxLocked i env) = .ok s') :
    s'.reader = s.reader ∧ s'.reads = s.reads := by
  simp only [step, Sys.defer] at h
  repeat' split at h
  all_goals cases h
  exact ⟨rfl, rfl⟩

lemma WindowInv.negotiates (hi : WindowInv s n) (hs : s.negotiated = false)
    (h : step dbg s e = .ok s') (hs' : s'.negotiated) : ∃ k, Accepted s' k := by
  obtain ⟨hclosed, hmoved, i, env, r, rfl, hm⟩ := negotiated_step h hs hs'
  obtain ⟨hreader, hreads⟩ := rxLocked_reads h
  cases hm.window hi.recv.ok.queue with
  | keep hrcv hmax hq hst =>
    rcases hst with hst | hst | hst
    · exact absurd hst hclosed
    · exact absurd hst hmoved
    · simp [negotiated_of_state hst] at hs
  | syn hst hnxt hwnd hrx => exact ⟨0, hi.syn hst hnxt hwnd hrx hreader hreads⟩
  | text hpaid hmax hst => simp [negotiated_of_state hst] at hs

lemma WindowInv.step (hi : WindowInv s n) (h : step dbg s e = .ok s') : WindowInv s' (n + s.negotiated.toNat) := by
  refine ⟨hi.recv.step h, hi.unsynced_step h, ?_⟩
  intro hneg
  by_cases hold : n ≠ 0 ∨ s.negotiated
  · obtain ⟨k, ha⟩ := hi.accepted hold
    exact hi.accepted_step ha h
  · simp only [not_or, ne_eq, not_not, Bool.not_eq_true] at hold
    refine hi.negotiates hold.2 h (hneg.resolve_left ?_)
    simp [hold.1, hold.2]

lemma windowInv_initial (h : Initial s) : WindowInv s 0 := by
  refine ⟨recvInv_initial h, ?_, ?_⟩
  · intro _
    cases h with
    | dial iss mtu attachTs nonblocking => exact ⟨rfl, rfl⟩
    | @listen iss mtu attachTs p c opts hl =>
      obtain ⟨o, rfl⟩ := tcpRxListener_attached hl
      rw [applyOptions_eq]
      split <;> exact ⟨rfl, rfl⟩
  · intro hneg
    cases h with
    | dial iss mtu attachTs nonblocking => simp [Sys.negotiated, tcpConnAlloc] at hneg
    | @listen iss mtu attachTs p c opts hl =>
      obtain ⟨o, rfl⟩ := tcpRxListener_attached hl
      rw [applyOptions_eq]
      refine ⟨0, ?_, ?_, ?_⟩
      · simp
      · split <;> rfl
      · exact le_rfl

/-- Once the options are negotiated, the window, plus the numbers accepted, minus the bytes read is `winmax`, also
between natural numbers: the window neither exceeds `winmax` nor wraps around. -/
theorem window_conserved {k : ℕ} (h : Reaches (tally (step dbg) fun s _ => s.negotiated.toNat)
      (fun _ _ => True) (fun x => Initial x.1 ∧ x.2 = 0) (s, k)) (hneg : k ≠ 0 ∨ s.negotiated = true) :
    s.c.rcv.wnd + (s.c.rcv.nxt - s.c.rcv.irs - 1) - BitVec.ofNat 32 s.bytesRead = s.c.winmax ∧
    ∃ n, s.c.rcv.nxt = s.c.rcv.irs + 1 + BitVec.ofNat 32 n ∧ s.bytesRead ≤ n ∧
      s.c.rcv.wnd.toNat + n = s.c.winmax.toNat + s.bytesRead ∧
      s.c.rcv.wnd.toNat ≤ s.c.winmax.toNat := by
  have hi : WindowInv s k := by
    refine h.invariant (I := fun x => WindowInv x.1 x.2) ?_ ?_
    · rintro ⟨s, k⟩ ⟨h0, rfl⟩
      exact windowInv_initial h0
    · rintro ⟨s, k⟩ e ⟨s', k'⟩ hi - hs
      obtain ⟨hs, rfl⟩ := tally_eq_ok.1 hs
      exact hi.step hs
  obtain ⟨n, ha⟩ := hi.accepted hneg
  have hwnd := ha.wnd
  have hbytes := ha.bytes
  have howed := hi.recv.ok.owed_le
  refine ⟨?_, n, ha.nxt, by omega, hwnd, by omega⟩
  have hwnd' : s.c.rcv.wnd + BitVec.ofNat 32 n = s.c.winmax + BitVec.ofNat 32 s.bytesRead := by
    have hcast := congrArg (BitVec.ofNat 32) hwnd
    rwa [BitVec.ofNat_add, BitVec.ofNat_add, BitVec.ofNat_toNat, BitVec.ofNat_toNat,
      BitVec.setWidth_eq, BitVec.setWidth_eq] at hcast
  rw [ha.nxt, sub_eq_iff_eq_add, ← hwnd']
  ring

theorem window_conserved_read : ∃ x : Sys × ℕ,
    Reaches (tally (step false) fun s _ => s.negotiated.toNat) (fun _ _ => True)
      (fun x => Initial x.1 ∧ x.2 = 0) x ∧ x.1.negotiated = true ∧
    x.1.bytesRead = 1 ∧ x.1.c.rcv.nxt - x.1.c.rcv.irs - 1 = 2 ∧
    x.1.c.rcv.wnd + (x.1.c.rcv.nxt - x.1.c.rcv.irs - 1) - BitVec.ofNat 32 x.1.bytesRead
      = x.1.c.winmax := by
  obtain ⟨⟨s, k⟩, hs, hneg, hread, hnxt⟩ : ∃ x : Sys × ℕ,
      Reaches (tally (step false) fun s _ => s.negotiated.toNat) (fun _ _ => True)
        (fun x => Initial x.1 ∧ x.2 = 0) x ∧ x.1.negotiated = true ∧ x.1.bytesRead = 1 ∧
        x.1.c.rcv.nxt - x.1.c.rcv.irs - 1 = 2 := by
    refine Reaches.of_exec (s := (dialed 1500, 0)) (handshake 1000 ++
      arrives (.plain 5001 1001 tcpAck 1000 [7, 8] (by decide)) ++ [.read 1, .readFinish])
      ⟨initial_dialed 1500, rfl⟩ (allowed_true _ _) ?_
    decide
  exact ⟨(s, k), hs, hneg, hread, hnxt, (window_conserved hs (.inr hneg)).1⟩

end Aspen.Tcp
