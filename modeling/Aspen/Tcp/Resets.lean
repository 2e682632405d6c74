import Aspen.Tcp.Sending

/-!
# Resets

Who sends a reset, and what a connection in SYN_SENT makes of one.
-/

namespace Aspen.Tcp

open Run Serial

variable {dbg : Bool} {s s' : Sys} {e : Event} {env : Env} {c : Conn} {r : RxSeg} {p : Packet}

/-! ## Packets on the wire -/

def Rst.packet (rst : Rst) : Packet := .plain rst.seq rst.ack rst.flags 0 [] nil_fits

lemma length_tcpPushOptions (opts : TcpOptions) :
    (tcpPushOptions opts).length = 4 * (opts.enMss.toNat + opts.enWscale.toNat) := by
  cases opts with
  | mk enMss enWscale mss wscale => cases enMss <;> cases enWscale <;> rfl

/-- The packet that `tcp_tx_ctl` sends with options. -/
def tcpTxCtlPacket (c : Conn) (flags : Flags) (opts : TcpOptions) : Packet where
  seq := c.snd.nxt
  ack := c.rcv.nxt
  off := BitVec.ofNat 4 (5 + (tcpPushOptions opts).length / 4)
  flags := flags
  win := (c.rcv.wnd >>> c.rcv.wscale).setWidth 16
  ipLen := BitVec.ofNat 16 ((tcpPushOptions opts).length + 40)
  body := tcpPushOptions opts
  slack := []
  framed := by
    rw [BitVec.toNat_ofNat, length_tcpPushOptions]
    have hmss := opts.enMss.toNat_le
    have hwscale := opts.enWscale.toNat_le
    omega

def Packet.WellFormed (p : Packet) : Prop := 5 ≤ p.off.toNat ∧ p.off.toNat * 4 ≤ p.body.length + 20

instance (p : Packet) : Decidable p.WellFormed := inferInstanceAs (Decidable (_ ∧ _))

def Packet.text (p : Packet) : List UInt8 := p.body.drop (p.off.toNat * 4 - 20)

lemma Packet.WellFormed.len (h : p.WellFormed) :
    (p.ipLen.setWidth 32 - 20 - p.off.setWidth 32 * 4 : Seq) = BitVec.ofNat 32 p.text.length := by
  obtain ⟨hlo, hhi⟩ := h
  have hframed := p.framed
  rw [Packet.text, List.length_drop]
  bv_omega

/-- A control segment is well formed and has no payload. -/
lemma tcpTxCtlPacket_text (c : Conn) (flags : Flags) (opts : TcpOptions) :
    (tcpTxCtlPacket c flags opts).WellFormed ∧ (tcpTxCtlPacket c flags opts).text = [] := by
  have hlen := length_tcpPushOptions opts
  have hmss := opts.enMss.toNat_le
  have hwscale := opts.enWscale.toNat_le
  have hoff : (tcpTxCtlPacket c flags opts).off.toNat = 5 + (tcpPushOptions opts).length / 4 := by
    rw [tcpTxCtlPacket, BitVec.toNat_ofNat, Nat.mod_eq_of_lt (by omega)]
  have hbody : (tcpTxCtlPacket c flags opts).body = tcpPushOptions opts := rfl
  rw [Packet.WellFormed, Packet.text, hoff, hbody]
  exact ⟨⟨by omega, by omega⟩, List.drop_eq_nil_of_le (by omega)⟩

/-! ## Segments with RST -/

def Silent (c : Conn) (o : RxOut) : Prop :=
  o.rst = none ∧ o.doAck = false ∧ o.retransmit = none ∧ o.c.tx.ctlLog = c.tx.ctlLog

/-- SYN_SENT looks at the acknowledgement before it looks at RST. -/
def AckFirst (c : Conn) (r : RxSeg) : Prop := c.state = .synSent ∧ hasFlag r.m.flags tcpAck = true ∧
    (wrapsLte r.ack c.snd.iss = true ∨ wrapsGt r.ack r.sndNxt = true ∨
      hasFlag r.m.flags tcpSyn = true ∧ wrapsLte c.snd.una r.ack = false)
deriving Decidable

lemma slowPath_of_rst (h : hasFlag r.m.flags tcpRst) : slowPath c r = true := by
  simp [slowPath, tcpSlowpathFlags, hasFlag_or, h]

variable {o : RxOut}

lemma silent_rxDone {now : Time} : Silent c (rxDone now o) ↔ Silent c o := by
  obtain ⟨t, ht⟩ := rxDone_spec now o
  unfold Silent
  rw [ht]
  rfl

lemma silent_fail {now : Time} {err : Errno} : Silent c { c := tcpConnFail now err c } := by
  refine ⟨rfl, rfl, rfl, ?_⟩
  rw [tcpConnFail_eq]

lemma rxSynSent_silent_iff (hst : c.state = .synSent)
    (hrst : hasFlag r.m.flags tcpRst) (h : rxSynSent env c r = .ok o) : Silent c o ↔ ¬ AckFirst c r := by
  unfold rxSynSent at h
  dsimp only at h
  split at h
  · rename_i hbad
    simp only [Bool.and_eq_true, Bool.or_eq_true] at hbad
    cases h
    refine iff_of_false (fun hs => nomatch hs.1) (not_not_intro ⟨hst, hbad.1, ?_⟩)
    exact hbad.2.imp_right .inl
  rename_i hgood
  rw [Bool.not_eq_true, Bool.and_eq_false_imp] at hgood
  split at h
  · rename_i hwnd
    simp only [Bool.and_eq_true, inSndWindow] at hwnd
    obtain ⟨⟨hack, -⟩, huna, -⟩ := hwnd
    have hgood := hgood hack
    rw [Bool.or_eq_false_iff] at hgood
    cases h
    refine iff_of_true silent_fail ?_
    rintro ⟨-, -, hiss | hnxt | ⟨-, hlt⟩⟩
    · simp [hgood.1] at hiss
    · simp [hgood.2] at hnxt
    · simp [huna] at hlt
  rename_i hwnd
  split at h
  · rename_i hack
    rw [Bool.and_eq_true, Bool.not_eq_true'] at hack
    cases h
    refine iff_of_true ⟨rfl, rfl, rfl, rfl⟩ ?_
    rintro ⟨-, hack', -⟩
    simp [hack.1] at hack'
  rename_i hack
  have hack : hasFlag r.m.flags tcpAck := by simpa [hrst] using hack
  have hgood := hgood hack
  rw [Bool.or_eq_false_iff] at hgood
  split at h
  · rename_i hsyn
    rw [Bool.not_eq_true'] at hsyn
    cases h
    refine iff_of_true ⟨rfl, rfl, rfl, rfl⟩ ?_
    rintro ⟨-, -, hiss | hnxt | ⟨hsyn', -⟩⟩
    · simp [hgood.1] at hiss
    · simp [hgood.2] at hnxt
    · simp [hsyn] at hsyn'
  -- the segment is taken for a SYN/ACK: `una` was overtaken by `snd_una`
  rename_i hsyn
  split at h
  · cases h
  rename_i c1 opts hparse
  cases h
  have huna : wrapsLte c.snd.una r.ack = false := by
    have hle := wrapsLte_of_not_wrapsGt hgood.2
    simpa [hack, hrst, inSndWindow, hle] using hwnd
  refine iff_of_false ?_ (not_not_intro ⟨hst, hack, .inr (.inr ⟨by simpa using hsyn, huna⟩)⟩)
  obtain ⟨po, rfl⟩ := tcpParseOptions_comes.of_ok hparse
  have hiss : (synConn c r po).snd.iss = c.snd.iss := by rw [synConn_eq, applyOptions_eq]
  have hopen : wrapsGt (synConn c r po).snd.una (synConn c r po).snd.iss := by
    by_contra hlt
    rw [Bool.not_eq_true, hiss] at hlt
    have hflag := RxMove.crossed_flag (fun _ => hgood) hlt
    simp [hack] at hflag
  change ¬ Silent c (rxSynOpen env (synConn c r po) r opts)
  unfold rxSynOpen
  rw [if_pos hopen]
  rintro ⟨-, hdo, -⟩
  cases hdo

lemma rxSynchronized_silent {now : Time} (hrst : hasFlag r.m.flags tcpRst)
    (h : rxSynchronized dbg now c r = .ok o) : Silent c o := by
  unfold rxSynchronized at h
  dsimp only at h
  split at h
  · cases h
    exact ⟨rfl, by simp [hrst], rfl, rfl⟩
  · cases h
    exact silent_fail

lemma tcpRxConnLocked_silent_iff (hrst : hasFlag r.m.flags tcpRst)
    (h : tcpRxConnLocked dbg env c r = .ok o) : Silent c o ↔ ¬ AckFirst c r := by
  rw [tcpRxConnLocked, if_pos (slowPath_of_rst hrst), tcpRxConnSlow] at h
  obtain ⟨o', hbody, rfl⟩ := map_eq_ok h
  rw [silent_rxDone]
  split at hbody
  · rename_i hst
    cases hbody
    refine iff_of_true ⟨by simp, rfl, rfl, rfl⟩ ?_
    rintro ⟨hst', -⟩
    simp [hst] at hst'
  split at hbody
  · rename_i hst
    exact rxSynSent_silent_iff hst hrst hbody
  · rename_i hst
    exact iff_of_true (rxSynchronized_silent hrst hbody) fun hfirst => hst hfirst.1

/-! ## Resets are answered in SYN_SENT -/

/-- A segment with RST is answered exactly when it comes to SYN_SENT with an acknowledgement that is not
believed. Listeners and closed ports never answer one. -/
theorem reset_answered_iff (dbg : Bool) :
    (∀ (env : Env) (c : Conn) (r : RxSeg) (o : RxOut), hasFlag r.m.flags tcpRst = true →
      tcpRxConnLocked dbg env c r = .ok o → (Silent c o ↔ ¬ AckFirst c r)) ∧
    (∀ (iss mtu : Seq) (attachTs : Time) (p : Packet), hasFlag p.flags tcpRst = true →
      tcpRxListener iss mtu attachTs p = .ok .dropped) ∧
    ∀ p : Packet, hasFlag p.flags tcpRst = true → tcpRxClosed p = none := by
  refine ⟨fun env c r o => tcpRxConnLocked_silent_iff, ?_, ?_⟩
  · intro iss mtu attachTs p hrst
    rw [tcpRxListener, if_pos hrst]
  · intro p hrst
    rw [tcpRxClosed, if_pos hrst]

variable (dbg env)

/-- `tcp_rx_conn` when nothing happens between its load of `snd_nxt` and its lock. -/
def tcpRxConn (c : Conn) (p : Packet) : Except Fault (Option RxOut) :=
  match tcpRxConnLoad c p with
  | none => .ok none
  | some r => (tcpRxConnLocked dbg env c r).map some

lemma tcpRxConnLoad_rst (c : Conn) (rst : Rst) : ∃ r, tcpRxConnLoad c rst.packet = some r ∧
    r.ack = rst.ack ∧ r.sndNxt = c.snd.nxt ∧ r.m.segSeq = rst.seq ∧ r.m.segEnd = rst.seq ∧
    r.m.flags = rst.flags := by
  have hhdr : ¬ (rst.packet.off.setWidth 32 * 4 : Seq) < 20 := by
    show ¬ ((5 : BitVec 4).setWidth 32 * 4 : Seq) < 20
    decide
  have hlen : (rst.packet.ipLen.setWidth 32 - 20 - rst.packet.off.setWidth 32 * 4 : Seq) = 0 := by
    show ((40 : BitVec 16).setWidth 32 - 20 - (5 : BitVec 4).setWidth 32 * 4 : Seq) = 0
    decide
  have hmss : ¬ (rst.packet.body.length <
      (rst.packet.ipLen.setWidth 32 - 20 - rst.packet.off.setWidth 32 * 4 : Seq).toNat ∨
      c.rcv.mss < rst.packet.ipLen.setWidth 32 - 20 - rst.packet.off.setWidth 32 * 4) := by
    rw [hlen]
    simp
  unfold tcpRxConnLoad
  rw [dif_neg hhdr, dif_neg hmss]
  refine ⟨_, rfl, rfl, rfl, rfl, ?_, rfl⟩
  show rst.packet.seq + _ = _
  rw [hlen, add_zero]
  rfl

lemma tcpRxConn_rstAck (hst : c.state = .synSent) (huna : c.snd.una = c.snd.iss) (seq ack : Seq) :
    ∃ o, tcpRxConn dbg env c (tcpTxRawRstAck seq ack).packet = .ok (some o) ∧
      (wrapsLte ack c.snd.iss ∨ wrapsGt ack c.snd.nxt →
        o.rst = some (tcpTxRawRstAck 0 seq) ∧ ∃ t, o.c = { c with tmr := t }) ∧
      (wrapsLte ack c.snd.iss = false → wrapsGt ack c.snd.nxt = false →
        o.c.state = .closed ∧ o.c.err = some .econnreset) := by
  obtain ⟨r, hr, hack, hnxt, hseq, hend, hflags⟩ := tcpRxConnLoad_rst c (tcpTxRawRstAck seq ack)
  obtain ⟨hrst, hackSet, hfin⟩ : hasFlag r.m.flags tcpRst ∧
      hasFlag r.m.flags tcpAck ∧ hasFlag r.m.flags tcpFin = false := by
    rw [hflags]
    show hasFlag (tcpRst ||| tcpAck) tcpRst ∧ hasFlag (tcpRst ||| tcpAck) tcpAck ∧
      hasFlag (tcpRst ||| tcpAck) tcpFin = false
    decide
  have hack : r.ack = ack := hack
  have hlen : segLen r.m = 0 := by
    rw [segLen, hfin, hend, hseq]
    simp
  have hlocked : tcpRxConnLocked dbg env c r = (rxSynSent env c r).map (rxDone env.now) := by
    rw [tcpRxConnLocked, if_pos (slowPath_of_rst hrst), tcpRxConnSlow, if_neg (by simp [hst]), if_pos hst]
  have hconn : ∀ o, rxSynSent env c r = .ok o →
      tcpRxConn dbg env c (tcpTxRawRstAck seq ack).packet = .ok (some (rxDone env.now o)) := by
    intro o ho
    rw [tcpRxConn, hr]
    dsimp only
    rw [hlocked, ho]
    rfl
  by_cases hbad : wrapsLte ack c.snd.iss ∨ wrapsGt ack c.snd.nxt
  · refine ⟨_, hconn { c := c, rst := some (tcpTxRawRstAck 0 seq) } ?_, fun _ => ⟨rfl, ?_⟩, ?_⟩
    · rw [rxSynSent, if_pos (by simpa [hackSet, hack, hnxt] using hbad), hlen, hseq]
      simp [sendRst, tcpTxRawRstAck]
    · exact rxDone_spec env.now _
    · intro hiss hnxt
      simp [hiss, hnxt] at hbad
  · simp only [not_or, Bool.not_eq_true] at hbad
    refine ⟨_, hconn { c := tcpConnFail env.now .econnreset c } ?_, ?_, fun _ _ => ?_⟩
    · have hwnd : inSndWindow c r := by
        rw [inSndWindow, hack, hnxt, huna, wrapsLte_of_not_wrapsLte hbad.1, wrapsLte_of_not_wrapsGt hbad.2]
        rfl
      rw [rxSynSent, if_neg (by simp [hack, hnxt, hbad.1, hbad.2]), if_pos (by simp [hackSet, hrst, hwnd])]
    · rintro (hiss | hnxt)
      · simp [hbad.1] at hiss
      · simp [hbad.2] at hnxt
    · obtain ⟨t, ht⟩ := rxDone_spec env.now { c := tcpConnFail env.now .econnreset c }
      rw [ht, tcpConnFail_eq]
      exact ⟨rfl, rfl⟩

lemma reset_returned (hst : c.state = .synSent) (huna : c.snd.una = c.snd.iss) (hiss : wrapsLte 0 c.snd.iss) :
    ∃ o, tcpRxConn dbg env c (tcpTxRawRstAck 0 0).packet = .ok (some o) ∧
      o.rst = some (tcpTxRawRstAck 0 0) ∧ ∃ t, o.c = { c with tmr := t } := by
  obtain ⟨o, ho, hbad, -⟩ := tcpRxConn_rstAck dbg env hst huna 0 0
  exact ⟨o, ho, hbad (.inl hiss)⟩

variable {dbg env}

theorem reset_answered_iff_closed : ∃ (c : Conn) (r : RxSeg) (o : RxOut),
    c.state = .established ∧ hasFlag r.m.flags tcpRst = true ∧ tcpRxConnLocked false {} c r = .ok o ∧
      o.c.state = .closed ∧ Silent c o := by
  let c : Conn := { tcpConnAlloc 1000 1500 0 with
    state := .established, snd.una := 1001, snd.nxt := 1001, rcv.nxt := 5000 }
  let r : RxSeg :=
    { m := { data := [], segSeq := 5000, segEnd := 5000, flags := tcpRst ||| tcpAck }, ack := 1001,
      sndNxt := 1001, win := 0, len := 0, optp := [], optlen := 0, segEnd_eq := by decide,
      length_data := rfl, len_le := by decide }
  have hstate : (tcpRxConnLocked false {} c r).map (·.c.state) = .ok .closed := by decide
  cases ho : tcpRxConnLocked false {} c r with
  | error f =>
    rw [ho] at hstate
    cases hstate
  | ok o =>
    rw [ho] at hstate
    refine ⟨c, r, o, rfl, by decide, ho, Except.ok.inj hstate, ?_⟩
    exact ((reset_answered_iff false).1 {} c r o (by decide) ho).2 (by decide)

/-- A dialer gets the reset that answers one of its own, and sends it back. -/
theorem reset_exchanged : ∃ s, Reaches (step false) (fun _ _ => True) Initial s ∧
    ∃ o, tcpRxConn false {} s.c (tcpTxRawRstAck 0 0).packet = .ok (some o) ∧
      o.rst = some (tcpTxRawRstAck 0 0) ∧ ¬ Silent s.c o ∧ ∃ t, o.c = { s.c with tmr := t } := by
  refine Reaches.of_exec_imp (P := fun s =>
      s.c.state = .synSent ∧ s.c.snd.una = s.c.snd.iss ∧ wrapsLte 0 s.c.snd.iss)
    [.dialSyn {}] (initial_dialed 1500) (allowed_true _ _) (by decide) ?_
  rintro s hs ⟨hst, huna, hiss⟩
  obtain ⟨o, ho, hrst, ht⟩ := reset_returned false {} hst huna hiss
  refine ⟨o, ho, hrst, ?_, ht⟩
  rintro ⟨hnone, -⟩
  rw [hrst] at hnone
  cases hnone

/-! ## The dialer is not refused -/

lemma step_una (h : step dbg s e = .ok s') : s'.c.snd.una = s.c.snd.una ∧ s'.c.snd.iss = s.c.snd.iss ∨
      ∃ env r, RxMove dbg env s.c r s'.c := by
  cases stepped h with
  | ingress _ ho => exact .inr ⟨_, _, tcpRxConnLocked_move ho⟩
  | closeFailed | failed =>
    left
    rw [tcpConnFail_eq]
    exact ⟨rfl, rfl⟩
  | _ => exact .inl ⟨rfl, rfl⟩

lemma RxMove.una_of_synSent {c' : Conn} (h : RxMove dbg env c r c') (hst' : c'.state = .synSent) :
    c'.snd.una = c.snd.una ∧ c'.snd.iss = c.snd.iss := by
  cases h with
  | quiet => exact ⟨rfl, rfl⟩
  | failed hst => simp [tcpConnFail_eq] at hst'
  | synAcked hst hack huna => simp at hst'
  | synCrossed hst hack huna hctl hsyn hrst =>
    have hflag := RxMove.crossed_flag hack huna
    rw [synConn_eq, applyOptions_eq] at hctl
    obtain ⟨-, rfl, -⟩ | ⟨-, -, m, -, -, -, rfl⟩ := tcpTxCtl_cases hctl
    · exact ⟨by simp [hflag], rfl⟩
    · exact ⟨by simp [tcpPushTcphdr, hflag], rfl⟩
  | lastAcked hst hacc hack huna => simp [tcpConnPutSm_eq] at hst'
  | text hst hacc hack hlast htext =>
    have hmove : RxMove dbg env c r _ := .text (t := c.tmr) hst hacc hack hlast htext
    exact absurd (hmove.synSent hst') hst.2

structure Opening (s : Sys) : Prop where
  closed : s.owner.fresh = true → s.c.state = .closed
  una : Unsynced s → s.c.snd.una = s.c.snd.iss

lemma Opening.step (hi : Opening s) (h : step dbg s e = .ok s') : Opening s' := by
  refine ⟨fresh_closed_step h hi.closed, ?_⟩
  intro hu'
  have huna := hi.una (unsynced_of_step h hu')
  rcases step_una h with ⟨huna', hiss⟩ | ⟨env, r, hm⟩
  · rw [huna', hiss, huna]
  · rcases hu' with hfresh | hst'
    · obtain ⟨t, ht⟩ := hm.of_closed (hi.closed (step_fresh h hfresh ▸ hfresh))
      rw [ht]
      exact huna
    · obtain ⟨huna', hiss⟩ := hm.una_of_synSent hst'
      rw [huna', hiss, huna]

lemma opening_initial (h : Initial s) : Opening s := by
  obtain ⟨_, _, _, _, _, _, _, _, _, -, -, -, rfl⟩ := initial_eq h
  exact ⟨fun _ => rfl, fun _ => rfl⟩

lemma wrapsLte_add_ofNat {a : Seq} {n : ℕ} (h : n ≤ 65535) : wrapsLte (a + BitVec.ofNat 32 n) a ↔ n = 0 := by
  have hn : (BitVec.ofNat 32 n).toNat = n := by
    rw [BitVec.toNat_ofNat]
    omega
  rw [wrapsLte_iff, sdist_forward_self (by omega), hn]
  omega

lemma Packet.length_text_le (p : Packet) : p.text.length ≤ 65535 := by
  have hframed := p.framed
  rw [Packet.text, List.length_drop]
  omega

/-- A closed port refuses a segment with the number of our SYN. The dialer notices if the segment has a
payload, as much as was sent of it; so it never notices if the segment is the SYN of `__tcp_dial`, which has none
(`tcpTxCtlPacket_text`). -/
theorem refused_iff (h : Reaches (step dbg) (fun _ _ => True) Initial s) (hst : s.c.state = .synSent)
    (env : Env) (p : Packet) (hwf : p.WellFormed) (hseq : p.seq = s.c.snd.iss)
    (hrst : hasFlag p.flags tcpRst = false) (hack : hasFlag p.flags tcpAck = false) :
    ∃ rst o, tcpRxClosed p = some rst ∧ tcpRxConn dbg env s.c rst.packet = .ok (some o) ∧
      (o.c.state = .closed ∧ o.c.err = some .econnreset ↔
        p.text ≠ [] ∧ wrapsGt (p.seq + BitVec.ofNat 32 p.text.length) s.c.snd.nxt = false) ∧
      ∀ c opts, p = tcpTxCtlPacket c tcpSyn opts → ¬ (o.c.state = .closed ∧ o.c.err = some .econnreset) := by
  have hopen : Opening s := h.invariant (fun _ => opening_initial) fun _ _ _ hi _ => hi.step
  have hclosed : tcpRxClosed p = some (tcpTxRawRstAck 0 (p.seq + BitVec.ofNat 32 p.text.length)) := by
    rw [tcpRxClosed, if_neg (by simp [hrst]), if_neg (by simp [hack]), hwf.len]
  obtain ⟨o, ho, hbad, hgood⟩ := tcpRxConn_rstAck dbg env hst (hopen.una (.inr hst)) 0
    (p.seq + BitVec.ofNat 32 p.text.length)
  have hlte : wrapsLte (p.seq + BitVec.ofNat 32 p.text.length) s.c.snd.iss ↔ p.text = [] := by
    rw [hseq, wrapsLte_add_ofNat p.length_text_le, List.length_eq_zero_iff]
  have hnotices : o.c.state = .closed ∧ o.c.err = some .econnreset →
      p.text ≠ [] ∧ wrapsGt (p.seq + BitVec.ofNat 32 p.text.length) s.c.snd.nxt = false := by
    rintro ⟨hst', -⟩
    by_contra hnot
    have hcase : wrapsLte (p.seq + BitVec.ofNat 32 p.text.length) s.c.snd.iss ∨
        wrapsGt (p.seq + BitVec.ofNat 32 p.text.length) s.c.snd.nxt := by
      by_cases htext : p.text = []
      · exact .inl (hlte.2 htext)
      · exact .inr (Bool.eq_true_of_not_eq_false fun hnxt => hnot ⟨htext, hnxt⟩)
    obtain ⟨-, t, ht⟩ := hbad hcase
    rw [ht, hst] at hst'
    cases hst'
  refine ⟨_, o, hclosed, ho, ⟨hnotices, ?_⟩, ?_⟩
  · rintro ⟨htext, hnxt⟩
    exact hgood (Bool.eq_false_iff.2 fun hle => htext (hlte.1 hle)) hnxt
  · rintro c opts rfl hrefused
    exact (hnotices hrefused).1 (tcpTxCtlPacket_text c tcpSyn opts).2

theorem refused_iff_one : ∃ s, Reaches (step false) (fun _ _ => True) Initial s ∧
    s.c.state = .synSent ∧ ∃ rst o,
      tcpRxClosed (.plain 1000 0 tcpSyn 0 [7] (by decide)) = some rst ∧
      tcpRxConn false {} s.c rst.packet = .ok (some o) ∧
      o.c.state = .closed ∧ o.c.err = some .econnreset := by
  refine Reaches.of_exec_imp (P := fun s => s.c.state = .synSent ∧ s.c.snd.iss = 1000 ∧ s.c.snd.nxt = 1001)
    [.dialSyn {}] (initial_dialed 1500) (allowed_true _ _) (by decide) ?_
  rintro s hs ⟨hst, hiss, hnxt⟩
  obtain ⟨rst, o, hclosed, ho, hiff, -⟩ := refused_iff hs hst {}
    (.plain 1000 0 tcpSyn 0 [7] (by decide)) (by decide) hiss.symm (by decide) (by decide)
  refine ⟨hst, rst, o, hclosed, ho, hiff.2 ⟨by decide, ?_⟩⟩
  rw [hnxt]
  decide

/-- `__tcp_dial` from sequence number 1000: the reset acknowledges 1000, and the dialer answers it and
goes on waiting. -/
theorem dial_not_refused : ∃ s, Reaches (step false) (fun _ _ => True) Initial s ∧
    s.c.state = .synSent ∧ ∃ rst o,
      tcpRxClosed (tcpTxCtlPacket (dialed 1500).c tcpSyn (dialOptions (dialed 1500).c)) = some rst ∧
      tcpRxConn false {} s.c rst.packet = .ok (some o) ∧
      o.c.state = .synSent ∧ o.c.err = none ∧ o.rst = some (tcpTxRawRstAck 0 0) := by
  refine Reaches.of_exec_imp (P := fun s =>
      s.c.state = .synSent ∧ s.c.snd.una = s.c.snd.iss ∧ s.c.snd.iss = 1000 ∧ s.c.err = none)
    [.dialSyn {}] (initial_dialed 1500) (allowed_true _ _) (by decide) ?_
  rintro s hs ⟨hst, huna, hiss, herr⟩
  obtain ⟨o, ho, hbad, -⟩ := tcpRxConn_rstAck false {} hst huna 0 1000
  obtain ⟨hrst, t, ht⟩ := hbad (.inl (by rw [hiss]; decide))
  refine ⟨hst, _, o, rfl, ho, ?_⟩
  rw [ht]
  exact ⟨hst, herr, hrst⟩

end Aspen.Tcp
