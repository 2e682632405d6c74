import Aspen.Tcp.System
import Aspen.Tcp.Text

/-!
# The fast path

`tcp_rx_conn` handles the next in-order segment of an established connection itself, and leaves the rest
to `__tcp_rx_conn`. `fastPath_agrees_iff` says for which of these segments the two leave the same
connection. They differ on a SYN, on a segment without an ACK, and on an acknowledgement of nothing new
that takes back some of the window.
-/

namespace Aspen.Tcp

open Serial Run

variable {dbg : Bool} {env : Env} {now : Time} {c : Conn} {r : RxSeg}

/-! ## Text -/

lemma Expected.segLen_eq (h : Expected c r) : segLen r.m = r.len := by
  rw [segLen, h.not_fin, r.segEnd_eq]
  simp only [Bool.false_eq_true, if_false]
  ring

lemma Expected.textSeg_eq (h : Expected c r) : textSeg r.m = r.m := by
  rw [textSeg, h.segLen_eq, ← r.segEnd_eq]

/-- A window that makes the segment acceptable is not so large that its edge lies behind `rcv_nxt`. -/
lemma Expected.not_clipped (h : Expected c r) (hacc : isAcceptable c r.len r.m.segSeq) :
    wrapsLt (c.rcv.nxt + c.rcv.wnd) r.m.segEnd = false := by
  have hpos := h.len_pos
  have hfits := h.fits
  have hedge : c.rcv.nxt + c.rcv.wnd - r.m.segEnd = c.rcv.wnd - r.len := by
    rw [r.segEnd_eq, h.next]
    ring
  have hwnd : (c.rcv.wnd - r.len).toNat < 2147483648 := by
    have hne : ¬ r.len = 0 := by bv_omega
    have hne' : ¬ c.rcv.wnd = 0 := by bv_omega
    have hlast : c.rcv.nxt + r.len - 1 - (c.rcv.nxt + c.rcv.wnd) = r.len - 1 - c.rcv.wnd := by ring
    have hfirst : c.rcv.nxt - (c.rcv.nxt + c.rcv.wnd) = -c.rcv.wnd := by ring
    simp only [isAcceptable, hne, hne', h.next, false_and, and_false, if_false, Bool.or_eq_true,
      Bool.and_eq_true, wrapsLt, hlast, hfirst, decide_eq_true_eq] at hacc
    obtain ⟨-, hlt⟩ | ⟨-, hlt⟩ := hacc
    · rw [BitVec.toInt_eq_toNat_cond] at hlt
      split at hlt <;> bv_omega
    · rw [BitVec.toInt_eq_toNat_cond] at hlt
      split at hlt <;> bv_omega
  rw [wrapsLt, hedge, BitVec.toInt_eq_toNat_of_lt (by omega), decide_eq_false_iff_not]
  omega

lemma Expected.tcpRxText_eq (dbg : Bool) (h : Expected c r) (hacc : isAcceptable c r.len r.m.segSeq) :
    ∃ wake, tcpRxText dbg c r.m = .ok (some (enqueueText c r.m, { wake := wake })) := by
  have hlen := r.len_le
  have hpos := h.len_pos
  have hfits := h.fits
  have hspan : r.m.segEnd - r.m.segSeq = r.len := by
    rw [r.segEnd_eq]
    ring
  have hstart : wrapsLte r.m.segSeq c.rcv.nxt := by rw [h.next, wrapsLte_refl]
  have hstop : wrapsGt r.m.segEnd c.rcv.nxt := by
    rw [wrapsGt_iff, r.segEnd_eq, h.next, sdist_swap (by rw [sdist_forward_self (by omega)]; omega),
      sdist_forward_self (by omega)]
    bv_omega
  have hhead : clipHead c r.m = .ok r.m := by simp [clipHead, h.next]
  have htail : clipTail c r.m = .ok r.m := by simp [clipTail, h.not_clipped hacc]
  have happ : tcpRxAppendText dbg c r.m = .ok (enqueueText c r.m) := by
    simp [tcpRxAppendText, bind, Except.bind, pure, Except.pure, hstart, hstop, hhead, htail, hspan, hfits]
  have hdrain : ∀ fl, drainOoo dbg (enqueueText c r.m).rx.ooo (enqueueText c r.m) fl
      = .ok (enqueueText c r.m, fl) := by
    intro fl
    have hooo : (enqueueText c r.m).rx.ooo = [] := h.ooo
    rw [hooo, drainOoo, ← hooo]
  have hfin := h.not_fin
  unfold tcpRxText
  simp only [if_neg (by bv_omega : ¬ c.rcv.wnd = 0), if_pos hstart, happ, drainText, hdrain, Except.map]
  split
  · exact ⟨true, by simp [hfin]⟩
  · exact ⟨_, rfl⟩

/-! ## Acknowledgement -/

variable (c r)

def acked (update : Bool) : Conn :=
  { c with
    snd := { c.snd with
      una := ackedUna c r
      wnd := if update then r.win else c.snd.wnd
      wl1 := if update then r.m.segSeq else c.snd.wl1
      wl2 := if update then r.ack else c.snd.wl2 }
    tx.q := ackedQueue c (ackedUna c r) }

def fastUpdates : Bool := inSndWindow c r && sndWndStale c r.m.segSeq r.ack

def slowUpdates : Bool :=
  inSndWindow c r && sndWndStale c r.m.segSeq r.ack && (r.ack != c.snd.una || c.snd.wnd ≤ r.win)

variable {c r}

lemma inSndWindow_of_not_slowPath (h : slowPath c r = false) : inSndWindow c r = wrapsLte c.snd.una r.ack := by
  simp only [slowPath, Bool.or_eq_false_iff] at h
  simp [inSndWindow, wrapsLte_of_not_wrapsGt h.2]

lemma fastAck_eq (h : slowPath c r = false) :
    ∃ t, fastAck c r.m.segSeq r.ack r.win = { acked c r (fastUpdates c r) with tmr := t } := by
  have hwin := inSndWindow_of_not_slowPath h
  unfold fastAck acked fastUpdates ackedUna
  rw [hwin]
  by_cases hlte : wrapsLte c.snd.una r.ack
  · have hacked : ∃ t, (if c.snd.una != r.ack then
        tcpConnAck { c with tmr.repAcks := 0, snd.una := r.ack } else c)
        = { c with snd.una := r.ack, tx.q := ackedQueue c r.ack, tmr := t } := by
      by_cases hsame : c.snd.una = r.ack
      · exact ⟨c.tmr, by simp [← hsame, ackedQueue]⟩
      · exact ⟨{ c.tmr with repAcks := 0 }, by
          simp [hsame, Ne.symm hsame, ackedQueue, tcpConnAck_eq]⟩
    obtain ⟨t, ht⟩ := hacked
    simp only [hlte, if_true, ht, Bool.true_and]
    by_cases hst : sndWndStale c r.m.segSeq r.ack
    · refine ⟨{ t with repAcks := 0 }, ?_⟩
      rw [if_pos (by exact hst)]
      simp only [hst, if_true]
    · refine ⟨t, ?_⟩
      rw [if_neg (by exact hst)]
      simp only [hst, Bool.false_eq_true, if_false]
  · exact ⟨c.tmr, by simp [hlte, ackedQueue]⟩

lemma rxAckInWindow_eq (hwin : inSndWindow c r) :
    (rxAckInWindow c r.m.segSeq r.ack r.win).c = acked c r (slowUpdates c r) := by
  unfold rxAckInWindow acked slowUpdates ackedUna
  dsimp only
  rw [ackConn_spec, hwin]
  simp only [Bool.true_and, if_true]
  have hsame : (!(c.snd.una == r.ack)) = (r.ack != c.snd.una) := by rw [bne, Bool.beq_comm]
  rw [hsame]
  by_cases hst : (sndWndStale c r.m.segSeq r.ack && (r.ack != c.snd.una || decide (c.snd.wnd ≤ r.win))) = true
  · rw [if_pos (by exact hst)]
    simp only [hst, if_true]
  · rw [if_neg (by exact hst)]
    simp only [hst, Bool.false_eq_true, if_false]

lemma rxFastRetransmit_text (now : Time) (a : AckOut) (ack : Seq) {len : Seq} (hlen : len ≠ 0) :
    ∃ t, rxFastRetransmit now a ack len = ({ a.c with tmr := t }, none) := by
  unfold rxFastRetransmit
  simp only [beq_eq_false_iff_ne.2 hlen, Bool.and_false, Bool.false_and, Bool.false_eq_true, if_false]
  split
  · exact ⟨_, rfl⟩
  · exact ⟨_, rfl⟩

lemma rxAck_eq (now : Time) (c : Conn) (hlen : segLen r.m ≠ 0) :
    ∃ t, rxAck now c r = ({ acked c r (slowUpdates c r) with tmr := t }, none) := by
  obtain ⟨t, ht⟩ := rxFastRetransmit_text now
    (if inSndWindow c r then rxAckInWindow c r.m.segSeq r.ack r.win else { c := c }) r.ack hlen
  refine ⟨t, ?_⟩
  rw [rxAck, ht]
  split
  · rename_i hwin
    rw [rxAckInWindow_eq hwin]
  · rename_i hwin
    simp [acked, slowUpdates, ackedUna, hwin, ackedQueue]

/-! ## Agreement -/

structure Outcome where
  una : Seq
  sndWnd : Seq
  wl1 : Seq
  wl2 : Seq
  rcvNxt : Seq
  rcvWnd : Seq
  rxq : List Mbuf
  txq : List Mbuf
  state : State
  accepted : Bool
deriving DecidableEq

def outcome (o : RxOut) : Outcome where
  una := o.c.snd.una
  sndWnd := o.c.snd.wnd
  wl1 := o.c.snd.wl1
  wl2 := o.c.snd.wl2
  rcvNxt := o.c.rcv.nxt
  rcvWnd := o.c.rcv.wnd
  rxq := o.c.rx.q
  txq := o.c.tx.q
  state := o.c.state
  accepted := !o.doDrop

variable (dbg env)

/-- The slow path, had it been given the segment, would have come to the same outcome. -/
def FastPathAgrees (c : Conn) (r : RxSeg) : Prop :=
  Ends (tcpRxConnSlow dbg env c r) fun o => outcome (tcpRxConnFast env.now c r) = outcome o

/-- An acceptable segment with ACK and without SYN, that does not shrink the window without acknowledging anything. -/
def FastPathOk (c : Conn) (r : RxSeg) : Prop :=
  isAcceptable c r.len r.m.segSeq = true ∧ hasFlag r.m.flags tcpAck = true ∧
  hasFlag r.m.flags tcpSyn = false ∧
  ¬ (sndWndStale c r.m.segSeq r.ack = true ∧ r.ack = c.snd.una ∧ r.win < c.snd.wnd)

lemma tcpRxConnFast_eq (now : Time) (h : slowPath c r = false) : ∃ t, (tcpRxConnFast now c r).c
    = { enqueueText (acked c r (fastUpdates c r)) r.m with tmr := t } := by
  obtain ⟨t, hack⟩ := fastAck_eq h
  obtain ⟨t', hdelay⟩ := fastDelayAck_spec now { acked c r (fastUpdates c r) with
    rcv := { c.rcv with nxt := r.m.segEnd, wnd := c.rcv.wnd - r.len }, tmr := t }
  have hspan : r.m.segEnd - r.m.segSeq = r.len := by
    rw [r.segEnd_eq]
    ring
  refine ⟨t', ?_⟩
  unfold tcpRxConnFast
  rw [hack]
  dsimp only [acked] at hdelay ⊢
  rw [hdelay]
  simp only [enqueueText, hspan]

lemma outcome_fast (h : slowPath c r = false) : outcome (tcpRxConnFast now c r)
    = outcome { c := enqueueText (acked c r (fastUpdates c r)) r.m, doDrop := false } := by
  obtain ⟨t, ht⟩ := tcpRxConnFast_eq now h
  have hdrop : (tcpRxConnFast now c r).doDrop = false := rfl
  simp only [outcome, ht, hdrop]

lemma tcpRxConnSlow_established (hst : c.state = .established)
    (hlen : segLen r.m ≠ 0) (hacc : isAcceptable c (segLen r.m) r.m.segSeq)
    (hrst : hasFlag r.m.flags tcpRst = false) (hsyn : hasFlag r.m.flags tcpSyn = false)
    (hack : hasFlag r.m.flags tcpAck) (hnxt : wrapsGt r.ack r.sndNxt = false) :
    ∃ t, tcpRxConnSlow dbg env c r = (rxTextFin dbg env.now
      { acked c r (slowUpdates c r) with tmr := t } r.m none).map (rxDone env.now) := by
  obtain ⟨t, hrx⟩ := rxAck_eq env.now c hlen
  have hfin : rxFinAcked env.now { acked c r (slowUpdates c r) with tmr := t } r.sndNxt
      = ({ acked c r (slowUpdates c r) with tmr := t }, false) := by
    have hst' : (acked c r (slowUpdates c r)).state = .established := hst
    simp [rxFinAcked, hst']
  refine ⟨t, ?_⟩
  unfold tcpRxConnSlow rxSynchronized rxAcked
  simp [hst, hacc, hrst, hsyn, hack, hnxt, hrx, hfin]

lemma Expected.rxTextFin_eq (now : Time) (rt : Option Mbuf) (h : Expected c r)
    (hacc : isAcceptable c r.len r.m.segSeq) :
    ∃ o, rxTextFin dbg now c r.m rt = .ok o ∧
      outcome o = outcome { c := enqueueText c r.m, doDrop := false } := by
  obtain ⟨wake, htext⟩ := h.tcpRxText_eq dbg hacc
  have hseg : { r.m with segEnd := r.m.segSeq + segLen r.m } = r.m := h.textSeg_eq
  have hgo : 0 < segLen r.m ∧ c.state.acceptsText := by
    rw [h.segLen_eq, h.established]
    exact ⟨h.len_pos, by decide⟩
  obtain ⟨t, ht⟩ := rxDelayAck_spec now (enqueueText c r.m)
  unfold rxTextFin
  simp only [if_pos hgo, hseg, htext]
  exact ⟨_, rfl, by simp [outcome, ht]⟩

lemma outcome_slow (h : slowPath c r = false)
    (hacc : isAcceptable c r.len r.m.segSeq) (hack : hasFlag r.m.flags tcpAck)
    (hsyn : hasFlag r.m.flags tcpSyn = false) : ∃ o, tcpRxConnSlow dbg env c r = .ok o ∧ outcome o
      = outcome { c := enqueueText (acked c r (slowUpdates c r)) r.m, doDrop := false } := by
  have hx := expected_of_not_slowPath h
  have hlen : segLen r.m ≠ 0 := by
    have := hx.len_pos
    rw [hx.segLen_eq]
    bv_omega
  obtain ⟨hrst, hnxt⟩ : hasFlag r.m.flags tcpRst = false ∧ wrapsGt r.ack r.sndNxt = false := by
    simp only [slowPath, tcpSlowpathFlags, hasFlag_or, Bool.or_eq_false_iff] at h
    exact ⟨h.1.1.1.1.1.1.1.1.1.2, h.2⟩
  obtain ⟨t, hslow⟩ := tcpRxConnSlow_established dbg env hx.established hlen
    (by rwa [hx.segLen_eq]) hrst hsyn hack hnxt
  obtain ⟨o, ho, hout⟩ := Expected.rxTextFin_eq dbg env.now none
    (c := { acked c r (slowUpdates c r) with tmr := t })
    ⟨hx.established, hx.len_pos, hx.not_fin, hx.next, hx.ooo, hx.fits⟩ hacc
  obtain ⟨t', ht'⟩ := rxDone_spec env.now o
  have hdrop : (rxDone env.now o).doDrop = o.doDrop := rfl
  refine ⟨rxDone env.now o, ?_, ?_⟩
  · rw [hslow, ho]
    rfl
  · simp only [outcome, ht', hdrop] at hout ⊢
    exact hout

variable {dbg env}

/-- The two paths update the window alike unless an acknowledgement of nothing new shrinks it. -/
lemma updates_eq_iff (h : slowPath c r = false) : slowUpdates c r = fastUpdates c r ↔
    ¬ (sndWndStale c r.m.segSeq r.ack ∧ r.ack = c.snd.una ∧ r.win < c.snd.wnd) := by
  have hwin := inSndWindow_of_not_slowPath h
  unfold slowUpdates fastUpdates
  rw [hwin]
  by_cases hsame : r.ack = c.snd.una
  · cases sndWndStale c r.m.segSeq r.ack <;> simp [hsame]
  · simp [hsame]

lemma rxSynchronized_rejects {o : RxOut}
    (hbad : ¬ (isAcceptable c (segLen r.m) r.m.segSeq ∧ hasFlag r.m.flags tcpAck ∧
      hasFlag r.m.flags tcpSyn = false)) (ho : rxSynchronized dbg now c r = .ok o) : o.doDrop = true := by
  unfold rxSynchronized at ho
  dsimp only at ho
  split at ho
  · cases ho
    rfl
  rename_i hacc
  split at ho
  · cases ho
    rfl
  split at ho
  · cases ho
    rfl
  rename_i hsyn
  split at ho
  · cases ho
    rfl
  rename_i hack
  exact absurd ⟨by simpa using hacc, by simpa using hack, by simpa using hsyn⟩ hbad

/-- The fast path leaves what the slow path would have left, and accepts what it would have accepted,
exactly for the segments of `FastPathOk`. -/
theorem fastPath_agrees_iff (h : slowPath c r = false) : FastPathAgrees dbg env c r ↔ FastPathOk c r := by
  have hx := expected_of_not_slowPath h
  constructor
  · rintro ⟨o, ho, heq⟩
    by_cases hgood : isAcceptable c r.len r.m.segSeq ∧ hasFlag r.m.flags tcpAck ∧ hasFlag r.m.flags tcpSyn = false
    · obtain ⟨hacc, hack, hsyn⟩ := hgood
      refine ⟨hacc, hack, hsyn, fun hshrink => ?_⟩
      obtain ⟨o', ho', hout⟩ := outcome_slow dbg env h hacc hack hsyn
      cases ho.symm.trans ho'
      -- only the fast path takes the smaller window
      have hfast : fastUpdates c r := by
        rw [fastUpdates, inSndWindow_of_not_slowPath h, hshrink.1, hshrink.2.1, wrapsLte_refl]
        rfl
      have hslow : slowUpdates c r = false := by
        have hne : ¬ slowUpdates c r = fastUpdates c r := fun heq' => (updates_eq_iff h).1 heq' hshrink
        simpa [hfast] using hne
      rw [outcome_fast h, hout, hfast, hslow] at heq
      have hwnd : r.win = c.snd.wnd := congrArg Outcome.sndWnd heq
      have hlt := hshrink.2.2
      rw [hwnd] at hlt
      exact absurd hlt (BitVec.lt_irrefl _)
    · have hst := hx.established
      unfold tcpRxConnSlow at ho
      simp only [hst] at ho
      cases hs : rxSynchronized dbg env.now c r with
      | error f => simp [hs, Except.map] at ho
      | ok o' =>
        have hdrop := rxSynchronized_rejects (by rwa [hx.segLen_eq]) hs
        simp only [hs, Except.map, reduceCtorEq, if_false, Except.ok.injEq] at ho
        subst ho
        have hdrop' : (rxDone env.now o').doDrop := hdrop
        have hfast : true = !(rxDone env.now o').doDrop := congrArg Outcome.accepted heq
        simp [hdrop'] at hfast
  · rintro ⟨hacc, hack, hsyn, hshrink⟩
    obtain ⟨o, ho, hout⟩ := outcome_slow dbg env h hacc hack hsyn
    refine ⟨o, ho, ?_⟩
    change outcome (tcpRxConnFast env.now c r) = outcome o
    rw [outcome_fast h, hout, (updates_eq_iff h).2 hshrink]

instance (c : Conn) (r : RxSeg) : Decidable (FastPathOk c r) := inferInstanceAs (Decidable (_ ∧ _))

instance (dbg : Bool) (env : Env) (c : Conn) (r : RxSeg) : Decidable (FastPathAgrees dbg env c r) :=
  inferInstanceAs (Decidable (Ends _ _))

theorem fastPath_agrees_data : ∃ s, Reaches (step false) (fun _ _ => True) Initial s ∧
    ∃ r ∈ s.inflight[0]?, slowPath s.c r = false ∧ FastPathOk s.c r ∧
      FastPathAgrees false {} s.c r := by
  refine Reaches.of_exec_imp (P := fun s => ∃ r ∈ s.inflight[0]?, slowPath s.c r = false ∧ FastPathOk s.c r)
    (handshake 1000 ++ [.rxLoad (.plain 5001 1001 tcpAck 1000 [7] (by decide))])
    (initial_dialed 1500) (allowed_true _ _) ?_ ?_
  · decide
  rintro s hs ⟨r, hr, hfast, hok⟩
  exact ⟨r, hr, hfast, hok, (fastPath_agrees_iff hfast).2 hok⟩

/-- Three segments that the fast path takes: one without ACK, which the slow path drops, one with SYN, at which it
resets the connection, and one whose smaller window it ignores. -/
theorem fastPath_disagrees : ∃ s, Reaches (step false) (fun _ _ => True) Initial s ∧
    s.inflight.length = 3 ∧ ∀ r ∈ s.inflight, slowPath s.c r = false ∧
      ¬ FastPathAgrees false {} s.c r := by
  refine Reaches.of_exec (handshake 1000 ++ [.rxLoad (.plain 5001 1001 0 1000 [7] (by decide)),
      .rxLoad (.plain 5001 1001 (tcpSyn ||| tcpAck) 1000 [7] (by decide)),
      .rxLoad (.plain 5001 1001 tcpAck 500 [7] (by decide))])
    (initial_dialed 1500) (allowed_true _ _) ?_
  decide

end Aspen.Tcp
