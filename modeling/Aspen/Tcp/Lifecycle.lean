import Aspen.Tcp.Closing
import Aspen.Tcp.Resets
import Aspen.Tcp.Tiling
import Mathlib.Logic.Relation

/-!
# The life of a connection

A connection that has been opened moves along the arrows of the state diagram and never back (`state_leads`), and a
write in progress has the TX queue to itself (`writer_owns_queue`). The rest is about two endpoints of this stack:
what `tcp_push_options` writes is what `tcp_parse_options` finds (`options_round_trip`), and three packets take both
ends to ESTABLISHED with the same numbers, scales and segment size (`handshake_agrees`).
-/

namespace Aspen.Tcp

open Run

/-! ## The state diagram -/

/-- The arrows of the state diagram. Every state can fail. -/
def State.next : State → List State
  | .synSent => [.synReceived, .established, .closed]
  | .synReceived => [.established, .closed]
  | .established => [.finWait1, .closeWait, .closed]
  | .finWait1 => [.finWait2, .closing, .closed]
  | .finWait2 | .closing => [.timeWait, .closed]
  | .closeWait => [.lastAck, .closed]
  | .lastAck | .timeWait => [.closed]
  | .closed => []

def State.Leads : State → State → Prop := Relation.ReflTransGen fun a b => b ∈ a.next

lemma State.Leads.closed (st : State) : st.Leads .closed := by
  cases st <;> first | exact .refl | exact .single (by decide)

lemma finAckedState_leads (st : State) (acked : Bool) : st.Leads (finAckedState st acked) := by
  cases st <;> cases acked <;> first | exact .refl | exact .single (by decide)

lemma finState_leads (st : State) : st.Leads (finState st) := by
  cases st <;> first | exact .refl | exact .single (by decide)

lemma finSent_leads (st : State) : st.Leads (finSent st) := by
  cases st <;> first | exact .refl | exact .single (by decide)

lemma entered_leads (c : Conn) (r : RxSeg) : c.state.Leads (entered c r).state := by
  unfold entered
  split_ifs with h
  · exact .single (by simp [h, State.next])
  · exact .refl

/-- One segment can take three arrows: out of SYN_RECEIVED, over the acknowledgement of our FIN, and over the peer's. -/
lemma textState_leads (c : Conn) (r : RxSeg) (acked fin : Bool) : c.state.Leads (textState c r acked fin) := by
  have h := (entered_leads c r).trans (finAckedState_leads _ acked)
  unfold textState
  split_ifs
  · exact h.trans (finState_leads _)
  · exact h

lemma RxFrame.leads {c c' : Conn} {r : RxSeg} (h : RxFrame c r c') : c.state.Leads c'.state := by
  cases h with
  | quiet => exact .refl
  | failed | lastAcked => exact .closed _
  | syn hst hst' =>
    rw [hst]
    rcases hst' with rfl | rfl | rfl
    · exact .refl
    · exact .single (by simp [State.next])
    · exact .single (by simp [State.next])
  | text => exact textState_leads c r _ _

lemma step_leads {dbg : Bool} {s s' : Sys} {e : Event} (hfresh : s.owner.fresh = false)
    (h : step dbg s e = .ok s') : s.c.state.Leads s'.c.state := by
  cases step_state h with
  | same hst =>
    rw [hst]
    exact .refl
  | failed hst =>
    rw [hst]
    exact .closed _
  | ingress _ hm => exact hm.frame.leads
  | fin hst =>
    rw [hst]
    exact finSent_leads _
  | opened ho => cases hfresh.symm.trans ho
  | expired _ hst' =>
    rw [hst']
    exact .closed _

/-- Once a connection has left its creator, every run follows the diagram. -/
theorem state_leads {dbg : Bool} {s s' : Sys} (hfresh : s.owner.fresh = false)
    (h : Reaches (step dbg) (fun _ _ => True) (· = s) s') : s.c.state.Leads s'.c.state := by
  refine (h.invariant (I := fun t => t.owner.fresh = false ∧ s.c.state.Leads t.c.state) ?_ ?_).2
  · rintro _ rfl
    exact ⟨hfresh, .refl⟩
  · rintro t e t' ⟨ht, hl⟩ - hstep
    refine ⟨?_, hl.trans (step_leads ht hstep)⟩
    rw [← Bool.not_eq_true] at ht ⊢
    intro ht'
    exact ht (step_fresh hstep ht' ▸ ht')

theorem state_leads_lastAck : ∃ s s' : Sys, Reaches (step false) (fun _ _ => True) (· = s) s' ∧
    s.c.state = .established ∧ s'.c.state = .lastAck ∧ s.c.state.Leads s'.c.state := by
  have h : Ends (Run.exec (step false) (dialed 1500) (handshake 1000)) fun s =>
      (s.owner.fresh = false ∧ s.c.state = .established) ∧ Ends (Run.exec (step false) s
        (arrives (.plain 5001 1001 (tcpFin ||| tcpAck) 1000 [] (by decide)) ++ [.shutdown true true {}]))
        fun s' => s'.c.state = .lastAck := by
    decide
  obtain ⟨s, -, ⟨hfresh, hst⟩, hrun⟩ := h
  obtain ⟨s', hs', hst'⟩ : ∃ s', Reaches (step false) (fun _ _ => True) (· = s) s' ∧ s'.c.state = .lastAck :=
    Reaches.of_exec _ rfl (allowed_true _ _) hrun
  exact ⟨s, s', hs', hst, hst', state_leads hfresh hs'⟩

/-! ## The writer -/

/-- The sections of a call that writes, behind its wait: a round of `tcp_tx_send`, and `tcp_write_finish`. -/
def Event.ofWriter : Event → Bool
  | .sendRound _ | .writeFinish _ => true
  | _ => false

/-- What a writer works on outside the lock: the next number, the queue and the deferred segment. -/
def Conn.egressed (c : Conn) : Seq × List (Seq × Seq × Flags) × Option Mbuf :=
  (c.snd.nxt, c.tx.q.map span, c.tx.pending)

lemma tcpConnFail_egressed {now : Time} {err : Errno} {c : Conn} (hx : c.tx.exclusive = true) :
    (tcpConnFail now err c).egressed = c.egressed := by
  simp [tcpConnFail_eq, Conn.egressed, hx]

lemma AckPhase.egressed {c c' : Conn} {r : RxSeg} (h : AckPhase c r c') (hx : c.tx.exclusive = true) :
    c'.egressed = c.egressed := by
  cases h with
  | mk _ hq =>
    rw [ackedQueue, if_pos (.inl hx)] at hq
    simp only [Conn.egressed, hq]

lemma entered_egressed (c : Conn) (r : RxSeg) : (entered c r).egressed = c.egressed := by
  unfold entered
  split <;> rfl

lemma RxMove.egressed {dbg : Bool} {env : Env} {c c' : Conn} {r : RxSeg} (h : RxMove dbg env c r c')
    (hx : c.tx.exclusive = true) (hst : c.state ≠ .synSent) : c'.egressed = c.egressed := by
  cases h with
  | quiet => rfl
  | failed => exact tcpConnFail_egressed hx
  | synAcked hst' | synCrossed hst' => exact absurd hst' hst
  | lastAcked _ _ hack =>
    rw [tcpConnPutSm_eq]
    exact hack.egressed hx
  | text _ _ hack _ htext =>
    obtain ⟨rcv, rx, rfl⟩ := htext.frame
    exact (hack.egressed (by rw [entered_tx, hx])).trans (entered_egressed c r)

lemma finEnv_busy {s : Sys} (hx : s.c.tx.exclusive = true) (e : Event) : finEnv s e = none := by
  cases e <;> simp [finEnv, hx]

section

variable {dbg : Bool} {s s' : Sys} {e : Event} {snd : Option Send}

lemma writer_owns_step (hx : s.c.tx.exclusive = s.writer.isSome) (hsync : ¬ Unsynced s)
    (hw : s.writer = some (.send snd)) (he : e.ofWriter = false) (h : step dbg s e = .ok s') :
    s'.writer = s.writer ∧ s'.c.egressed = s.c.egressed := by
  replace hx : s.c.tx.exclusive = true := by rw [hx, hw]; rfl
  cases stepped h with
  | ingress _ ho => exact ⟨rfl, (tcpRxConnLocked_move ho).egressed hx fun hst => hsync (.inr hst)⟩
  | writing _ hopen hblock => cases hx.symm.trans (tcpWriteBlocks_eq_false hblock hopen).2.1
  | sent | finished => cases he
  | shutdown _ hfin | close _ hfin | closeFailed _ hfin => cases (finEnv_busy hx e).symm.trans hfin
  | failed => exact ⟨rfl, tcpConnFail_egressed hx⟩
  | resending _ _ hfree => cases hx.symm.trans hfree
  | resent hw' => cases hw.symm.trans hw'
  | opened ho | openFailed ho => exact absurd (.inl ho.spec.1) hsync
  | _ => exact ⟨rfl, rfl⟩

/-- From the wait of a write to its end, no other thread, packet or timeout moves what it works on. -/
theorem writer_owns_queue (hr : Reaches (step dbg) (fun _ _ => True) Initial s) (hw : s.writer = some (.send snd))
    (h : Reaches (step dbg) (fun _ e => e.ofWriter = false) (· = s) s') :
    s'.writer = s.writer ∧ s'.c.egressed = s.c.egressed := by
  have hinit := hr.invariant (I := fun t => t.c.tx.exclusive = t.writer.isSome ∧
      (Unsynced t → t.c.tx.pending = none ∧ ∀ snd, t.writer ≠ some (.send snd)))
    (fun _ h0 => ⟨(tidy_initial h0).exclusive, (tidy_initial h0).unsynced⟩)
    (fun _ _ _ hi _ hs => ⟨exclusive_step hs hi.1, unsynced_queue_step hs hi.2⟩)
  refine (h.invariant (I := fun t => (t.c.tx.exclusive = t.writer.isSome ∧ ¬ Unsynced t) ∧
    t.writer = s.writer ∧ t.c.egressed = s.c.egressed) ?_ ?_).2
  · rintro _ rfl
    exact ⟨⟨hinit.1, fun hu => (hinit.2 hu).2 snd hw⟩, rfl, rfl⟩
  · rintro t e t' ⟨⟨hx, hsync⟩, hwr, heq⟩ he hs
    obtain ⟨hwr', heq'⟩ := writer_owns_step hx hsync (hwr.trans hw) he hs
    exact ⟨⟨exclusive_step hs hx, fun hu => hsync (unsynced_of_step hs hu)⟩, hwr'.trans hwr, heq'.trans heq⟩

theorem writer_owns_queue_acked : ∃ s s' : Sys, Reaches (step false) (fun _ _ => True) Initial s ∧
    Reaches (step false) (fun _ e => e.ofWriter = false) (· = s) s' ∧ s.c.tx.q.length ≠ 0 ∧
    s'.c.snd.una = s'.c.snd.nxt ∧ s'.c.egressed = s.c.egressed := by
  have h : Ends (Run.exec (step false) (dialed 1500)
      (handshake 1000 ++ [.write [1, 2, 3, 4], .sendRound {}, .writeFinish 0, .write [5]]))
      fun s => (budget s.writer ≠ 0 ∧ s.c.tx.q.length ≠ 0) ∧
        Ends (Run.exec (step false) s (arrives (.plain 5001 1005 tcpAck 1000 [] (by decide))))
          fun s' => s'.c.snd.una = s'.c.snd.nxt := by
    decide
  obtain ⟨s, hs, ⟨hw, hq⟩, hrun⟩ := h
  obtain ⟨snd, hw⟩ : ∃ snd, s.writer = some (.send snd) := by
    rcases hwr : s.writer with _ | snd | pos
    · exact absurd (by rw [hwr]; rfl) hw
    · exact ⟨snd, rfl⟩
    · exact absurd (by rw [hwr]; rfl) hw
  obtain ⟨s', hs', hack⟩ : ∃ s', Reaches (step false) (fun _ e => e.ofWriter = false) (· = s) s' ∧
      s'.c.snd.una = s'.c.snd.nxt :=
    Reaches.of_exec (arrives (.plain 5001 1005 tcpAck 1000 [] (by decide))) rfl
      ⟨rfl, fun _ _ => ⟨rfl, fun _ _ => trivial⟩⟩ hrun
  have hr : Reaches (step false) (fun _ _ => True) Initial s := .exec (.start (initial_dialed 1500)) (allowed_true _ _) hs
  exact ⟨s, s', hr, hs', hq, hack, (writer_owns_queue hr hw hs').2⟩

end

/-! ## Options -/

lemma load16_bytes (mss : BitVec 16) : BitVec.ofNat 16 (mss.toNat / 256 % 256 * 256 + mss.toNat % 256) = mss := by
  apply BitVec.eq_of_toNat_eq
  rw [BitVec.toNat_ofNat]
  omega

/-- The loop finds what was pushed, whatever comes behind it. -/
lemma parseLoop_pushed (opts : TcpOptions) (behind : List UInt8) :
    ∃ o : ParsedOptions, parseLoop (fun i => (tcpPushOptions opts ++ behind).getD i 0)
        (tcpPushOptions opts).length 0 (tcpPushOptions opts).length {} = some o ∧
      o.enMss = opts.enMss ∧ o.enWscale = opts.enWscale ∧ (opts.enMss = true → o.mss = opts.mss) ∧
      o.wscale.toNat = if opts.enWscale then min opts.wscale.toNat 14 else 0 := by
  obtain ⟨enMss, enWscale, mss, wscale⟩ := opts
  have hw := wscale.isLt
  cases enMss <;> cases enWscale <;>
    simp [tcpPushOptions, parseLoop, parseOption, load16, tcpOptEol, tcpOptNop, tcpOptMss, tcpOptWscale, tcpOlenMss,
      tcpOlenWscale, load16_bytes]

/-- The connection behind an option area written by `tcp_push_options`. -/
theorem options_round_trip (c : Conn) (opts : TcpOptions) (behind : List UInt8) : ∃ c' o,
    tcpParseOptions c (tcpPushOptions opts ++ behind) (tcpPushOptions opts).length = .ok (c', o) ∧
      o.enMss = opts.enMss ∧ o.enWscale = opts.enWscale ∧
      c'.snd.mss = (if opts.enMss then minSeq (maxSeq (opts.mss.setWidth 32) tcpMinMss) c.rcv.mss
        else tcpCalculateMss ethDefaultMtu) ∧
      c'.snd.wscale.toNat = (if opts.enWscale then min opts.wscale.toNat 14 else 0) ∧
      (opts.enWscale = false → c'.rcv.wscale = 0 ∧ c'.rcv.wnd = minSeq c.winmax 65535) := by
  obtain ⟨po, hpo, hmss, hwscale, hsize, hscale⟩ := parseLoop_pushed opts behind
  rw [tcpParseOptions, hpo]
  refine ⟨_, _, rfl, hmss, hwscale, ?_⟩
  rw [applyOptions_eq, hmss, hwscale]
  dsimp only
  refine ⟨?_, ?_, ?_⟩
  · split_ifs with h
    · rw [hsize h]
    · rfl
  · have hlt := po.wscale_le
    rw [← hscale, BitVec.toNat_setWidth]
    exact Nat.mod_eq_of_lt (by omega)
  · intro h
    simp [h]

/-! ## The handshake -/

def tcpTxAckPacket (c : Conn) : Packet :=
  .plain c.snd.nxt c.rcv.nxt tcpAck ((c.rcv.wnd >>> c.rcv.wscale).setWidth 16) [] nil_fits

/-- Both ends have established the connection and agree on it. -/
structure Agree (c c' : Conn) : Prop where
  state : c.state = .established ∧ c'.state = .established
  nxt : c.rcv.nxt = c'.snd.nxt ∧ c'.rcv.nxt = c.snd.nxt
  una : c.snd.una = c.snd.nxt ∧ c'.snd.una = c'.snd.nxt
  wscale : c.snd.wscale = c'.rcv.wscale ∧ c'.snd.wscale = c.rcv.wscale
  mss : c.snd.mss = c'.snd.mss

variable {mtu mss : Seq} {dbg : Bool} {env : Env} {c : Conn} {r : RxSeg}

lemma wraps_succ (a : Seq) : wrapsLte (a + 1) a = false ∧ wrapsGt (a + 1) a = true ∧ wrapsLte a (a + 1) = true := by
  have h : a + 1 - a = 1 := by bv_omega
  have h' : a - (a + 1) = -1 := by bv_omega
  simp only [wrapsLte, wrapsGt, h, h']
  decide

lemma wraps_self (a : Seq) : wrapsLte a a = true ∧ wrapsGt a a = false := by
  simp [wrapsLte, wrapsGt]

/-- The options that two such endpoints exchange. -/
lemma tcpParseOptions_both (c : Conn) (hmss : mss.toNat < 65536) :
    tcpParseOptions c (tcpPushOptions ⟨true, true, mss.setWidth 16, 1⟩ ++ []) 8 = .ok
      ({ c with snd.mss := minSeq (maxSeq mss tcpMinMss) c.rcv.mss, snd.wscale := 1 },
        ⟨true, true, c.rcv.mss.setWidth 16, c.rcv.wscale.setWidth 8⟩) := by
  obtain ⟨o, ho, hm, hw, hsize, hscale⟩ := parseLoop_pushed ⟨true, true, mss.setWidth 16, 1⟩ []
  have hone : o.wscale = 1 := BitVec.eq_of_toNat_eq hscale
  have hwide : (mss.setWidth 16).setWidth 32 = mss := by
    apply BitVec.eq_of_toNat_eq
    simp only [BitVec.toNat_setWidth]
    omega
  change parseLoop _ 8 0 8 {} = some o at ho
  rw [tcpParseOptions, ho]
  simp [applyOptions, hm, hw, hone, hsize rfl, hwide]

/-- The SYN creates the connection of the listener. -/
lemma tcpRxListener_syn (iss iss' mtu' : Seq) (ts ts' : Time) (hmss : (tcpCalculateMss mtu).toNat < 65536) :
    tcpRxListener iss' mtu' ts' (tcpTxCtlPacket (tcpConnAlloc iss mtu ts) tcpSyn
        (dialOptions (tcpConnAlloc iss mtu ts))) =
      .ok (.attached { tcpConnAlloc iss' mtu' ts' with
            rcv.irs := iss
            rcv.nxt := iss + 1
            snd.mss := minSeq (maxSeq (tcpCalculateMss mtu) tcpMinMss) (tcpCalculateMss mtu')
            snd.wscale := 1 }
          ⟨true, true, (tcpCalculateMss mtu').setWidth 16, 1⟩) := by
  have hopts : dialOptions (tcpConnAlloc iss mtu ts) = ⟨true, true, (tcpCalculateMss mtu).setWidth 16, 1⟩ := rfl
  have h8 : (tcpPushOptions ⟨true, true, (tcpCalculateMss mtu).setWidth 16, 1⟩).length = 8 := rfl
  have hflags : hasFlag tcpSyn tcpRst = false ∧ hasFlag tcpSyn tcpAck = false ∧ hasFlag tcpSyn tcpSyn = true := by decide
  have hlen : (BitVec.ofNat 16 48).setWidth 32 - 20 = ((BitVec.ofNat 4 7).setWidth 32 * 4 : Seq) := by decide
  have hopt : ((BitVec.ofNat 4 7).setWidth 32 * 4 - 20 : Seq).toNat = 8 := by decide
  simp only [hopts, tcpRxListener, tcpTxCtlPacket, h8, hflags, hlen, hopt, Nat.reduceDiv, Nat.reduceAdd,
    tcpParseOptions_both _ hmss]
  rfl

lemma tcpRxConnLoad_bare (c : Conn) {p : Packet} {n : ℕ} (hoff : p.off.toNat = n + 5)
    (hbody : p.body.length = n * 4) :
    ∃ r, tcpRxConnLoad c p = some r ∧ r.m.segSeq = p.seq ∧ r.m.flags = p.flags ∧ r.ack = p.ack ∧
      r.sndNxt = c.snd.nxt ∧ r.len = 0 ∧ r.optp = p.body ++ p.slack ∧ r.optlen = n * 4 := by
  have hwf : p.WellFormed := ⟨by omega, by omega⟩
  have htext : p.text = [] := List.drop_eq_nil_of_le (by omega)
  have hlen : (p.ipLen.setWidth 32 - 20 - p.off.setWidth 32 * 4 : Seq) = 0 := by
    rw [hwf.len, htext]
    rfl
  have hlt := p.off.isLt
  unfold tcpRxConnLoad
  dsimp only
  rw [dif_neg, dif_neg]
  · refine ⟨_, rfl, rfl, rfl, rfl, rfl, hlen, rfl, ?_⟩
    bv_omega
  · rw [hlen]
    simp
  · bv_omega

lemma off_tcpTxCtlPacket (b : Conn) (flags : Flags) (mss : BitVec 16) :
    (tcpTxCtlPacket b flags ⟨true, true, mss, 1⟩).off.toNat = 2 + 5 := by
  change (BitVec.ofNat 4 (5 + (tcpPushOptions ⟨true, true, mss, 1⟩).length / 4)).toNat = 2 + 5
  rw [length_tcpPushOptions]
  simp

/-- Without text there is no fast path. -/
lemma tcpRxConn_bare {p : Packet} {o : RxOut} (hr : tcpRxConnLoad c p = some r) (hlen : r.len = 0)
    (hcl : c.state ≠ .closed)
    (ho : (if c.state = .synSent then rxSynSent env c r else rxSynchronized dbg env.now c r) = .ok o) :
    tcpRxConn dbg env c p = .ok (some (rxDone env.now o)) := by
  have hslow : slowPath c r = true := by simp [slowPath, hlen]
  rw [tcpRxConn, hr]
  dsimp only
  rw [tcpRxConnLocked, if_pos hslow, tcpRxConnSlow, if_neg hcl, ho]
  rfl

lemma rxSynOpen_acked (env : Env) (opts : TcpOptions) (hack : hasFlag r.m.flags tcpAck = true)
    (h : wrapsGt r.ack c.snd.iss = true) :
    (rxSynOpen env (rxSynAck c r) r opts).doAck = true ∧ ∃ tx t, (rxSynOpen env (rxSynAck c r) r opts).c = { c with
      state := .established
      snd := { c.snd with una := r.ack, wnd := r.win, wl1 := r.m.segSeq, wl2 := r.ack }
      tx := tx
      tmr := t } := by
  rw [rxSynAck, if_pos hack, tcpConnAck_eq, rxSynOpen, if_pos h]
  exact ⟨rfl, _, _, rfl⟩

lemma tcpRxConn_synAck (dbg : Bool) (env : Env) (b : Conn) (hst : c.state = .synSent)
    (hnxt : c.snd.nxt = c.snd.iss + 1) (hack : b.rcv.nxt = c.snd.nxt) (hmss : mss.toNat < 65536) :
    ∃ o, tcpRxConn dbg env c (tcpTxCtlPacket b (tcpSyn ||| tcpAck) ⟨true, true, mss.setWidth 16, 1⟩) = .ok (some o) ∧
      o.doAck = true ∧ o.c.state = .established ∧ o.c.rcv = { c.rcv with nxt := b.snd.nxt + 1, irs := b.snd.nxt } ∧
      o.c.snd.una = c.snd.nxt ∧ o.c.snd.nxt = c.snd.nxt ∧ o.c.snd.wscale = 1 ∧
      o.c.snd.mss = minSeq (maxSeq mss tcpMinMss) c.rcv.mss := by
  obtain ⟨r, hr, hseq, hflags, hra, hsn, hlen, hoptp, hoptlen⟩ := tcpRxConnLoad_bare c
    (off_tcpTxCtlPacket b (tcpSyn ||| tcpAck) (mss.setWidth 16)) rfl
  obtain ⟨hf, hrst, hsyn⟩ : hasFlag r.m.flags tcpAck = true ∧ hasFlag r.m.flags tcpRst = false ∧
      hasFlag r.m.flags tcpSyn = true := by
    rw [hflags]
    change hasFlag (tcpSyn ||| tcpAck) tcpAck = true ∧ hasFlag (tcpSyn ||| tcpAck) tcpRst = false ∧
      hasFlag (tcpSyn ||| tcpAck) tcpSyn = true
    decide
  replace hra : r.ack = c.snd.iss + 1 := hra.trans (hack.trans hnxt)
  replace hseq : r.m.segSeq = b.snd.nxt := hseq
  replace hoptp : r.optp = tcpPushOptions ⟨true, true, mss.setWidth 16, 1⟩ ++ [] := hoptp
  rw [hnxt] at hsn
  -- the connection with the options applied, before it looks at the acknowledgement
  obtain ⟨c', opts, hc', hbody⟩ : ∃ c' opts, c' = { c with
      snd.mss := minSeq (maxSeq mss tcpMinMss) c.rcv.mss, snd.wscale := 1
      rcv.nxt := b.snd.nxt + 1, rcv.irs := b.snd.nxt } ∧
      rxSynSent env c r = .ok (rxSynOpen env (rxSynAck c' r) r opts) := by
    refine ⟨_, ⟨true, true, c.rcv.mss.setWidth 16, c.rcv.wscale.setWidth 8⟩, rfl, ?_⟩
    simp only [rxSynSent, hf, hrst, hsyn, hra, hsn, hseq, wraps_succ, wraps_self, hoptp, hoptlen,
      tcpParseOptions_both _ hmss]
    rfl
  obtain ⟨hdo, tx, t', hopen⟩ := rxSynOpen_acked (c := c') env opts hf
    (by rw [hra, hc']; exact (wraps_succ _).2.1)
  obtain ⟨t, ht⟩ := rxDone_spec env.now (rxSynOpen env (rxSynAck c' r) r opts)
  refine ⟨_, tcpRxConn_bare hr hlen (by simp [hst]) ((if_pos hst).trans hbody), hdo, ?_⟩
  rw [ht, hopen, hc']
  exact ⟨rfl, rfl, hra.trans hnxt.symm, rfl, rfl, rfl⟩

lemma rxAck_acked (now : Time) (hw : inSndWindow c r = true) :
    ∃ wnd wl1 wl2 tx t, (rxAck now c r).1 = { c with
      snd := { c.snd with una := r.ack, wnd := wnd, wl1 := wl1, wl2 := wl2 }, tx := tx, tmr := t } := by
  obtain ⟨wnd, wl1, wl2, hacked, -⟩ := rxAckInWindow_spec c r.m.segSeq r.ack r.win
  obtain ⟨q, dfr, last, t, hfast, -⟩ :=
    rxFastRetransmit_spec now (rxAckInWindow c r.m.segSeq r.ack r.win) r.ack (segLen r.m)
  rw [rxAck, if_pos hw, hfast, hacked]
  exact ⟨_, _, _, _, _, rfl⟩

/-- The acknowledgement of the SYN/ACK at the connection of the listener. -/
lemma tcpRxConn_ack (dbg : Bool) (env : Env) {b : Conn} (hst : c.state = .synReceived)
    (hnxt : c.snd.nxt = c.snd.una + 1) (hack : b.rcv.nxt = c.snd.nxt) (hseq : b.snd.nxt = c.rcv.nxt)
    (hwnd : c.rcv.wnd.toNat ≤ 131071) :
    ∃ o, tcpRxConn dbg env c (tcpTxAckPacket b) = .ok (some o) ∧ o.c.state = .established ∧ o.c.rcv = c.rcv ∧
      o.c.snd.una = c.snd.nxt ∧ o.c.snd.nxt = c.snd.nxt ∧ o.c.snd.wscale = c.snd.wscale ∧
      o.c.snd.mss = c.snd.mss := by
  obtain ⟨r, hr, hrs, hflags, hra, hsn, hlen, -, -⟩ := tcpRxConnLoad_bare c (p := tcpTxAckPacket b) (n := 0) rfl rfl
  obtain ⟨hf, hrst, hsyn, hfin⟩ : hasFlag r.m.flags tcpAck = true ∧ hasFlag r.m.flags tcpRst = false ∧
      hasFlag r.m.flags tcpSyn = false ∧ hasFlag r.m.flags tcpFin = false := by
    rw [hflags]
    change hasFlag tcpAck tcpAck = true ∧ hasFlag tcpAck tcpRst = false ∧ hasFlag tcpAck tcpSyn = false ∧
      hasFlag tcpAck tcpFin = false
    decide
  have hseg : segLen r.m = 0 := by simp [segLen, hfin, r.segEnd_eq, hlen]
  replace hra : r.ack = c.snd.una + 1 := hra.trans (hack.trans hnxt)
  replace hrs : r.m.segSeq = c.rcv.nxt := hrs.trans hseq
  rw [hnxt] at hsn
  have hin : ∀ c' : Conn, c'.snd.una = c.snd.una → inSndWindow c' r = true := by
    intro c' hc'
    rw [inSndWindow, hra, hsn, hc', (wraps_succ _).2.2, (wraps_self _).1]
    rfl
  have hsync : rxSynchronized dbg env.now c r = rxAcked dbg env.now (tcpConnSetState env.now .established
      { c with snd.wnd := r.win, snd.wl1 := c.rcv.nxt, snd.wl2 := r.ack }) r := by
    simp only [rxSynchronized, hseg, hrs, isAcceptable_nxt hwnd, hf, hrst, hsyn, if_pos hst, hin c rfl]
    rfl
  generalize hc' : tcpConnSetState env.now .established
      { c with snd.wnd := r.win, snd.wl1 := c.rcv.nxt, snd.wl2 := r.ack } = c' at hsync
  obtain ⟨wnd, wl1, wl2, tx, t, hacked⟩ := rxAck_acked env.now (hin c' (by rw [← hc']; rfl))
  obtain ⟨o, ho, hoc⟩ : ∃ o, rxAcked dbg env.now c' r = .ok o ∧ o.c = (rxAck env.now c' r).1 := by
    have hst' : c'.state = .established := by rw [← hc']; rfl
    rw [rxAcked, hin c' (by rw [← hc']; rfl)]
    simp [rxFinAcked, rxTextFin, hseg, hacked, hst']
  obtain ⟨t', ht⟩ := rxDone_spec env.now o
  refine ⟨_, tcpRxConn_bare hr hlen (by simp [hst]) ((if_neg (by simp [hst])).trans (hsync.trans ho)), ?_⟩
  rw [ht, hoc, hacked, ← hc']
  exact ⟨rfl, rfl, hra.trans hnxt.symm, rfl, rfl, rfl⟩

lemma openConn_sent (c : Conn) (flags : Flags) (opts : TcpOptions) (st : State) (halloc : env.alloc = true)
    (htx : env.tx = none) : ∃ c', openConn env c flags opts st = (c', none) ∧ c'.state = st ∧ c'.rcv = c.rcv ∧
      c'.snd = { c.snd with nxt := c.snd.nxt + 1 } := by
  simp only [openConn, tcpTxCtl, if_pos halloc, htx]
  exact ⟨_, rfl, rfl, rfl, rfl⟩

lemma minSeq_maxSeq {a b : Seq} (ha : tcpMinMss ≤ a) (hb : tcpMinMss ≤ b) :
    minSeq (maxSeq a tcpMinMss) b = minSeq (maxSeq b tcpMinMss) a := by
  unfold minSeq maxSeq
  rw [if_neg (BitVec.not_lt.2 ha), if_neg (BitVec.not_lt.2 hb)]
  split_ifs <;> bv_omega

/-- The SYN of `__tcp_dial`, the SYN/ACK of the listener's connection and the acknowledgement of it establish both
ends, with the same view of the connection. -/
theorem handshake_agrees (dbg : Bool) (iss iss' mtu mtu' : Seq) (ts ts' : Time) (env rx rx' : Env)
    (hmss : tcpMinMss ≤ tcpCalculateMss mtu ∧ tcpCalculateMss mtu ≤ 65535)
    (hmss' : tcpMinMss ≤ tcpCalculateMss mtu' ∧ tcpCalculateMss mtu' ≤ 65535)
    (halloc : env.alloc = true) (htx : env.tx = none) :
    ∃ a b b' opts o o',
      openConn env (tcpConnAlloc iss mtu ts) tcpSyn (dialOptions (tcpConnAlloc iss mtu ts)) .synSent = (a, none) ∧
      tcpRxListener iss' mtu' ts' (tcpTxCtlPacket (tcpConnAlloc iss mtu ts) tcpSyn
        (dialOptions (tcpConnAlloc iss mtu ts))) = .ok (.attached b opts) ∧
      openConn env b (tcpSyn ||| tcpAck) opts .synReceived = (b', none) ∧
      tcpRxConn dbg rx a (tcpTxCtlPacket b (tcpSyn ||| tcpAck) opts) = .ok (some o) ∧ o.doAck = true ∧
      tcpRxConn dbg rx' b' (tcpTxAckPacket o.c) = .ok (some o') ∧ Agree o.c o'.c := by
  have hlt : (tcpCalculateMss mtu).toNat < 65536 := by have := hmss.2; bv_omega
  have hlt' : (tcpCalculateMss mtu').toNat < 65536 := by have := hmss'.2; bv_omega
  obtain ⟨a, ha, hast, harcv, hasnd⟩ := openConn_sent (tcpConnAlloc iss mtu ts) tcpSyn
    (dialOptions (tcpConnAlloc iss mtu ts)) .synSent halloc htx
  have hb := tcpRxListener_syn iss iss' mtu' ts ts' hlt
  generalize hb0 : ({ tcpConnAlloc iss' mtu' ts' with
    rcv.irs := iss, rcv.nxt := iss + 1
    snd.mss := minSeq (maxSeq (tcpCalculateMss mtu) tcpMinMss) (tcpCalculateMss mtu'), snd.wscale := 1 } : Conn) = b
    at hb
  obtain ⟨b', hb', hbst, hbrcv, hbsnd⟩ := openConn_sent b (tcpSyn ||| tcpAck)
    ⟨true, true, (tcpCalculateMss mtu').setWidth 16, 1⟩ .synReceived halloc htx
  obtain ⟨hbnxt, hbrn, hbuna⟩ : b.snd.nxt = iss' ∧ b.rcv.nxt = iss + 1 ∧ b.snd.una = iss' := by
    rw [← hb0]
    exact ⟨rfl, rfl, rfl⟩
  obtain ⟨o, ho, hodo, host, horcv, houna, honxt, hoscale, homss⟩ := tcpRxConn_synAck dbg rx b hast
    (by rw [hasnd]; rfl) (by rw [hbrn, hasnd]; rfl) hlt'
  obtain ⟨o', ho', host', horcv', houna', honxt', hoscale', homss'⟩ := tcpRxConn_ack dbg rx' (b := o.c) hbst
    (by rw [hbsnd, hbuna, ← hbnxt]) (by rw [horcv, hbsnd]) (by rw [honxt, hbrcv, hbrn, hasnd]; rfl)
    (by rw [hbrcv, ← hb0]; exact (by decide : tcpWin.toNat ≤ 131071))
  refine ⟨a, b, b', _, o, o', ha, hb, hb', ho, hodo, ho', ⟨host, host'⟩, ⟨?_, ?_⟩, ⟨?_, ?_⟩, ⟨?_, ?_⟩, ?_⟩
  · rw [horcv, honxt', hbsnd]
  · rw [horcv', hbrcv, hbrn, honxt, hasnd]
    rfl
  · rw [houna, honxt]
  · rw [houna', honxt']
  · rw [hoscale, horcv', hbrcv, ← hb0]
    rfl
  · rw [hoscale', horcv, harcv, hbsnd, ← hb0]
    rfl
  · rw [homss, homss', hbsnd, harcv, ← hb0]
    exact minSeq_maxSeq hmss'.1 hmss.1

theorem handshake_agrees_ethernet : ∃ a b b' opts o o',
    openConn {} (tcpConnAlloc 1000 1500 0) tcpSyn (dialOptions (tcpConnAlloc 1000 1500 0)) .synSent = (a, none) ∧
    tcpRxListener 5000 9000 0 (tcpTxCtlPacket (tcpConnAlloc 1000 1500 0) tcpSyn
      (dialOptions (tcpConnAlloc 1000 1500 0))) = .ok (.attached b opts) ∧
    openConn {} b (tcpSyn ||| tcpAck) opts .synReceived = (b', none) ∧
    tcpRxConn false {} a (tcpTxCtlPacket b (tcpSyn ||| tcpAck) opts) = .ok (some o) ∧ o.doAck = true ∧
    tcpRxConn false {} b' (tcpTxAckPacket o.c) = .ok (some o') ∧ Agree o.c o'.c :=
  handshake_agrees false 1000 5000 1500 9000 0 0 {} {} {} (by decide) (by decide) rfl rfl

end Aspen.Tcp
