import Aspen.Lib.Run
import Aspen.Tcp.In

/-!
# What a segment can do to a connection

The critical section of `tcp_rx_conn` is long, but its effect is one of six moves (`RxMove`): nothing, a
failure, the two outcomes of a SYN in SYN_SENT, the last acknowledgement, and the regular case, which is an
acknowledgement (`AckPhase`) followed by text (`TextPhase`). Every invariant about ingress is proved from these.
-/

namespace Aspen.Tcp

/-! ## Acknowledgement -/

variable (now : Time) (c : Conn)

def span (m : Mbuf) : Seq × Seq × Flags := (m.segSeq, m.segEnd, m.flags)

def ackedUna (r : RxSeg) : Seq := if inSndWindow c r then r.ack else c.snd.una

def ackedQueue (una : Seq) : List Mbuf := if c.tx.exclusive = true ∨ una = c.snd.una then c.tx.q
  else c.tx.q.dropWhile fun m => !wrapsGt m.segEnd una

/-- The processing of an acknowledgement, with the window update and the duplicate-ACK test. -/
inductive AckPhase (c : Conn) (r : RxSeg) : Conn → Prop
  | mk {wnd wl1 wl2 lastAck : Seq} {q : List Mbuf} {pending : Bool} {tmr : Timers}
      (hwnd : wnd = c.snd.wnd ∨ wnd = r.win)
      (hq : q.map span = (ackedQueue c (ackedUna c r)).map span) :
      AckPhase c r { c with
        snd := { c.snd with una := ackedUna c r, wnd := wnd, wl1 := wl1, wl2 := wl2 }
        tx := { c.tx with
          q := q, doFastRetransmit := pending, fastRetransmitLastAck := lastAck }
        tmr := tmr }

lemma tcpTxFastRetransmitStart_spec : ∃ q, (tcpTxFastRetransmitStart now c).1 = { c with tx.q := q } ∧
      q.map span = c.tx.q.map span := by
  unfold tcpTxFastRetransmitStart
  split
  · exact ⟨c.tx.q, rfl, rfl⟩
  · split
    · rename_i h
      exact ⟨[], by rw [← h], by rw [h]⟩
    · rename_i m q h
      exact ⟨{ m with timestamp := now } :: q, rfl, by simp [h, span]⟩

lemma rxFastRetransmit_spec (a : AckOut) (ack len : Seq) :
    ∃ q dfr frla tmr, (rxFastRetransmit now a ack len).1 = { a.c with
        tx := { a.c.tx with q := q, doFastRetransmit := dfr, fastRetransmitLastAck := frla }
        tmr := tmr } ∧
      q.map span = a.c.tx.q.map span := by
  unfold rxFastRetransmit
  dsimp only
  split
  · split
    · split
      · exact ⟨_, _, _, _, rfl, rfl⟩
      · obtain ⟨q, hq, hspan⟩ := tcpTxFastRetransmitStart_spec now { a.c with tmr.repAcks := a.c.tmr.repAcks + 1 }
        exact ⟨q, _, _, _, by rw [hq], hspan⟩
    · exact ⟨_, _, _, _, rfl, rfl⟩
  · split
    · exact ⟨_, _, _, _, rfl, rfl⟩
    · exact ⟨_, _, _, _, rfl, rfl⟩

lemma ackConn_spec (ack : Seq) : (if c.snd.una == ack then c else tcpConnAck { c with snd.una := ack })
      = { c with snd.una := ack, tx.q := ackedQueue c ack } := by
  by_cases h : c.snd.una = ack
  · subst h
    simp [ackedQueue]
  · have h' : ¬ ack = c.snd.una := fun h' => h h'.symm
    simp [ackedQueue, tcpConnAck_eq, h, h']

lemma rxAckInWindow_spec (seq ack win : Seq) : ∃ wnd wl1 wl2, (rxAckInWindow c seq ack win).c = { c with
        snd := { c.snd with una := ack, wnd := wnd, wl1 := wl1, wl2 := wl2 }
        tx.q := ackedQueue c ack } ∧
      (wnd = c.snd.wnd ∨ wnd = win) := by
  unfold rxAckInWindow
  dsimp only
  rw [ackConn_spec]
  split
  · exact ⟨win, seq, ack, rfl, .inr rfl⟩
  · exact ⟨c.snd.wnd, c.snd.wl1, c.snd.wl2, rfl, .inl rfl⟩

lemma AckPhase.slow (r : RxSeg) : AckPhase c r (rxAck now c r).1 := by
  obtain ⟨q, dfr, frla, tmr, heq, hspan⟩ := rxFastRetransmit_spec now
    (if inSndWindow c r then rxAckInWindow c r.m.segSeq r.ack r.win else { c := c })
    r.ack (segLen r.m)
  rw [rxAck, heq]
  by_cases hw : inSndWindow c r
  · obtain ⟨wnd, wl1, wl2, hack, hwnd⟩ := rxAckInWindow_spec c r.m.segSeq r.ack r.win
    have huna : ackedUna c r = r.ack := by simp [ackedUna, hw]
    rw [if_pos hw, hack] at hspan ⊢
    rw [← huna] at hspan ⊢
    exact .mk hwnd hspan
  · have huna : ackedUna c r = c.snd.una := by simp [ackedUna, hw]
    rw [if_neg hw] at hspan ⊢
    have hq : q.map span = (ackedQueue c (ackedUna c r)).map span := by
      rw [hspan, huna, ackedQueue, if_pos (.inr rfl)]
    have h := @AckPhase.mk c r c.snd.wnd c.snd.wl1 c.snd.wl2 frla q dfr tmr (.inl rfl) hq
    rwa [huna] at h

variable {c c' : Conn} {r : RxSeg}

lemma AckPhase.fast (h : slowPath c r = false) : AckPhase c r (fastAck c r.m.segSeq r.ack r.win) := by
  have hnxt : wrapsLte r.ack r.sndNxt := by
    simp only [slowPath, Bool.or_eq_false_iff] at h
    exact wrapsLte_of_not_wrapsGt h.2
  have hw : inSndWindow c r = wrapsLte c.snd.una r.ack := by simp [inSndWindow, hnxt]
  unfold fastAck
  dsimp only
  by_cases hlte : wrapsLte c.snd.una r.ack
  · have huna : ackedUna c r = r.ack := by simp [ackedUna, hw, hlte]
    have hack : ∃ tmr, (if c.snd.una != r.ack then
        tcpConnAck { c with tmr.repAcks := 0, snd.una := r.ack } else c)
        = { c with snd.una := r.ack, tx.q := ackedQueue c r.ack, tmr := tmr } := by
      by_cases hsame : c.snd.una = r.ack
      · exact ⟨c.tmr, by simp [← hsame, ackedQueue]⟩
      · have hsame' : ¬ r.ack = c.snd.una := fun h' => hsame h'.symm
        exact ⟨{ c.tmr with repAcks := 0 }, by simp [hsame, hsame', ackedQueue, tcpConnAck_eq]⟩
    obtain ⟨tmr, hack⟩ := hack
    rw [if_pos hlte, hack, ← huna]
    split
    · exact .mk (.inr rfl) rfl
    · exact .mk (.inl rfl) rfl
  · have huna : ackedUna c r = c.snd.una := by simp [ackedUna, hw, hlte]
    have hq : c.tx.q.map span = (ackedQueue c (ackedUna c r)).map span := by
      rw [huna, ackedQueue, if_pos (.inr rfl)]
    rw [if_neg hlte]
    have h := @AckPhase.mk c r c.snd.wnd c.snd.wl1 c.snd.wl2 c.tx.fastRetransmitLastAck c.tx.q
      c.tx.doFastRetransmit c.tmr (.inl rfl) hq
    rwa [huna] at h

lemma AckPhase.of_tmr {t : Timers} (h : AckPhase { c with tmr := t } r c') : AckPhase c r c' := by
  cases h with
  | mk hwnd hq => exact .mk hwnd hq

lemma AckPhase.with_tmr (h : AckPhase c r c') (t : Timers) : AckPhase c r { c' with tmr := t } := by
  cases h with
  | mk hwnd hq => exact .mk hwnd hq

/-! ## Text -/

def finAckedState (st : State) (acked : Bool) : State := if st = .finWait1 ∧ acked = true then .finWait2
  else if st = .closing ∧ acked = true then .timeWait
  else st

def finState : State → State
  | .established => .closeWait
  | .finWait1 => .closing
  | .finWait2 => .timeWait
  | st => st

/-- The segment as the slow path hands it to `tcp_rx_text`, its end counting the FIN. -/
def textSeg (m : Mbuf) : Mbuf := { m with segEnd := m.segSeq + segLen m }

/-- The processing of text; the flag says that a FIN was taken from it. -/
inductive TextPhase (dbg : Bool) (c : Conn) (r : RxSeg) : Conn → Bool → Prop
  | unused : TextPhase dbg c r c false
  | used {c' : Conn} {fl : TextFlags} (hlen : 0 < segLen r.m) (hst : c.state.acceptsText = true)
      (hacc : isAcceptable c (segLen r.m) r.m.segSeq = true)
      (htext : tcpRxText dbg c (textSeg r.m) = .ok (some (c', fl))) :
      TextPhase dbg c r c' fl.fin
  | fast (hst : c.state = .established) (hlen : 0 < r.len)
      (hfin : hasFlag r.m.flags tcpFin = false)
      (hseq : r.m.segSeq = c.rcv.nxt) (hooo : c.rx.ooo = []) (hwnd : r.len ≤ c.rcv.wnd) :
      TextPhase dbg c r (enqueueText c r.m) false

/-! Text touches nothing but the receiving side. -/

variable {dbg : Bool}

lemma tcpRxAppendText_frame {m : Mbuf}
    (h : tcpRxAppendText dbg c m = .ok c') : ∃ m', c' = enqueueText c m' := by
  unfold tcpRxAppendText at h
  simp only [bind, Except.bind, pure, Except.pure] at h
  repeat' split at h
  all_goals first
    | cases h
      exact ⟨_, rfl⟩
    | cases h

variable {fl fl' : TextFlags}

lemma drainOoo_frame {q : List Mbuf} (h : drainOoo dbg q c fl = .ok (c', fl')) :
    ∃ rcv rx, c' = { c with rcv := rcv, rx := rx } := by
  induction q generalizing c fl with
  | nil =>
    cases h
    exact ⟨_, _, rfl⟩
  | cons pos q ih =>
    simp only [drainOoo] at h
    split at h
    · obtain ⟨rcv, rx, rfl⟩ := ih h
      exact ⟨rcv, rx, rfl⟩
    split at h
    · cases h
      exact ⟨_, _, rfl⟩
    split at h
    · cases h
    · rename_i c1 happ
      obtain ⟨m', rfl⟩ := tcpRxAppendText_frame happ
      obtain ⟨rcv, rx, rfl⟩ := ih h
      exact ⟨rcv, rx, rfl⟩

lemma drainText_frame
    (h : drainText dbg c fl = .ok (c', fl')) : ∃ rcv rx, c' = { c with rcv := rcv, rx := rx } := by
  unfold drainText at h
  split at h
  · cases h
  · rename_i hdrain
    cases h
    exact drainOoo_frame hdrain

lemma map_some_eq_ok {α β : Type} {x : Except α β} {y : β} : x.map some = .ok (some y) ↔ x = .ok y := by
  cases x <;> simp [Except.map]

lemma map_eq_ok {α β γ : Type} {x : Except α β} {g : β → γ} {y : γ} (h : x.map g = .ok y) :
    ∃ z, x = .ok z ∧ g z = y := by
  cases x with
  | error => cases h
  | ok z => exact ⟨z, rfl, Except.ok.inj h⟩

lemma tcpRxText_frame {m : Mbuf} (h : tcpRxText dbg c m = .ok (some (c', fl))) :
    ∃ rcv rx, c' = { c with rcv := rcv, rx := rx } := by
  unfold tcpRxText at h
  dsimp only at h
  split at h
  · cases h
  split at h
  · split at h
    · cases h
    · rename_i c1 happ
      obtain ⟨m', rfl⟩ := tcpRxAppendText_frame happ
      obtain ⟨rcv, rx, rfl⟩ := drainText_frame (map_some_eq_ok.1 h)
      exact ⟨rcv, rx, rfl⟩
  split at h
  · cases h
  split at h
  · cases h
  · obtain ⟨rcv, rx, rfl⟩ := drainText_frame (map_some_eq_ok.1 h)
    exact ⟨rcv, rx, rfl⟩

lemma TextPhase.frame {fin : Bool}
    (h : TextPhase dbg c r c' fin) : ∃ rcv rx, c' = { c with rcv := rcv, rx := rx } := by
  cases h with
  | unused => exact ⟨c.rcv, c.rx, rfl⟩
  | used _ _ _ htext => exact tcpRxText_frame htext
  | fast => exact ⟨_, _, rfl⟩

/-! ## The moves -/

variable (c r)

def entered : Conn :=
  if c.state = .synReceived then
    { c with
      snd := { c.snd with wnd := r.win, wl1 := r.m.segSeq, wl2 := r.ack }
      state := .established }
  else c

def synConn (o : ParsedOptions) : Conn :=
  rxSynAck (applyOptions { c with rcv.nxt := r.m.segSeq + 1, rcv.irs := r.m.segSeq } o) r

lemma applyOptions_eq (o : ParsedOptions) : applyOptions c o = { c with
    snd := { c.snd with
      mss := if o.enMss then minSeq (maxSeq (o.mss.setWidth 32) tcpMinMss) c.rcv.mss
        else tcpCalculateMss ethDefaultMtu
      wscale := o.wscale.setWidth 32 }
    rcv := { c.rcv with
      wnd := if o.enWscale then c.rcv.wnd else minSeq c.winmax 65535
      wscale := if o.enWscale then c.rcv.wscale else 0 }
    winmax := if o.enWscale then c.winmax else minSeq c.winmax 65535 } := by
  by_cases hw : o.enWscale = true <;> by_cases hm : o.enMss = true <;>
    simp [applyOptions, hw, hm]

lemma synConn_eq (o : ParsedOptions) : synConn c r o =
    let c' := applyOptions { c with rcv.nxt := r.m.segSeq + 1, rcv.irs := r.m.segSeq } o
    { c with
      snd := { c'.snd with una := if hasFlag r.m.flags tcpAck then r.ack else c.snd.una }
      rcv := c'.rcv
      winmax := c'.winmax
      tx.q := if hasFlag r.m.flags tcpAck && !c.tx.exclusive then
          c.tx.q.dropWhile fun m => !wrapsGt m.segEnd r.ack
        else c.tx.q } := by
  unfold synConn rxSynAck
  rw [applyOptions_eq]
  by_cases ha : hasFlag r.m.flags tcpAck
  · by_cases he : c.tx.exclusive = true <;> simp [ha, he, tcpConnAck_eq]
  · simp only [ha, Bool.false_and, if_false, Bool.false_eq_true]

variable {c r}

inductive RxMove (dbg : Bool) (env : Env) (c : Conn) (r : RxSeg) : Conn → Prop
  | quiet {t : Timers} : RxMove dbg env c r { c with tmr := t }
  | failed {t : Timers} (hst : c.state ≠ .closed) :
      RxMove dbg env c r { tcpConnFail env.now .econnreset c with tmr := t }
  | synAcked {o : ParsedOptions} {t : Timers} (hst : c.state = .synSent)
      (hack : hasFlag r.m.flags tcpAck = true → wrapsLte r.ack c.snd.iss = false ∧ wrapsGt r.ack r.sndNxt = false)
      (huna : wrapsGt (synConn c r o).snd.una c.snd.iss = true) :
      RxMove dbg env c r { synConn c r o with
        snd := { (synConn c r o).snd with wnd := r.win, wl1 := r.m.segSeq, wl2 := r.ack }
        state := .established
        tmr := t }
  | synCrossed {o : ParsedOptions} {opts : TcpOptions} {c' : Conn} {ret : Option Errno} {t : Timers}
      (hst : c.state = .synSent)
      (hack : hasFlag r.m.flags tcpAck = true → wrapsLte r.ack c.snd.iss = false ∧ wrapsGt r.ack r.sndNxt = false)
      (huna : wrapsGt (synConn c r o).snd.una c.snd.iss = false)
      (hctl : tcpTxCtl env (synConn c r o) (tcpSyn ||| tcpAck) (some opts) = (c', ret))
      (hsyn : hasFlag r.m.flags tcpSyn = true)
      (hrst : hasFlag r.m.flags tcpAck = false → hasFlag r.m.flags tcpRst = false) :
      RxMove dbg env c r { c' with
        state := if ret.isSome then .synSent else .synReceived
        tmr := t }
  | lastAcked {c' : Conn} {t : Timers} (hst : c.state = .lastAck)
      (hacc : isAcceptable c (segLen r.m) r.m.segSeq = true)
      (hack : AckPhase c r c') (huna : c'.snd.una = r.sndNxt) :
      RxMove dbg env c r { tcpConnPutSm { c' with state := .closed } with tmr := t }
  | text {c₁ c₂ : Conn} {fin : Bool} {t : Timers}
      (hst : c.state ≠ .closed ∧ c.state ≠ .synSent)
      (hacc : slowPath c r = true → isAcceptable c (segLen r.m) r.m.segSeq = true)
      (hack : AckPhase (entered c r) r c₁)
      (hlast : ¬ (c.state = .lastAck ∧ c₁.snd.una = r.sndNxt))
      (htext : TextPhase dbg
        { c₁ with state := finAckedState (entered c r).state (c₁.snd.una == r.sndNxt) } r c₂ fin) :
      RxMove dbg env c r { c₂ with state := if fin then finState c₂.state else c₂.state, tmr := t }

lemma rxDone_spec (o : RxOut) : ∃ t, (rxDone now o).c = { o.c with tmr := t } := by
  unfold rxDone
  split
  · exact ⟨_, rfl⟩
  · exact ⟨_, rfl⟩

variable {env : Env}

lemma RxMove.of_tmr (h : RxMove dbg env c r c') (t : Timers) : RxMove dbg env c r { c' with tmr := t } := by
  cases h with
  | quiet => exact .quiet
  | failed hst => exact .failed hst
  | synAcked hst hack huna => exact .synAcked hst hack huna
  | @synCrossed o opts c1 ret _ hst hack huna hctl hsyn hrst =>
    exact @RxMove.synCrossed dbg env c r o opts c1 ret t hst hack huna hctl hsyn hrst
  | lastAcked hst hacc hack huna => exact .lastAcked hst hacc hack huna
  | text hst hacc hack hlast htext => exact .text hst hacc hack hlast htext

lemma tcpParseOptions_comes {optp : List UInt8} {optlen : ℕ} : Run.Comes (· = .hang)
    (fun x => ∃ o, x.1 = applyOptions c o) (tcpParseOptions c optp optlen) := by
  unfold tcpParseOptions
  split
  · exact .stop rfl
  · exact .ok ⟨_, rfl⟩

variable {o : RxOut}

/-- A critical section does not complete when the options of a SYN make it loop, or `tcp_rx_text` fails on an
acceptable segment, with the same receiving side. -/
inductive RxFault (dbg : Bool) (c : Conn) (r : RxSeg) : Fault → Prop
  | hang : RxFault dbg c r .hang
  | text {c₁ : Conn} {f : Fault} (htext : tcpRxText dbg c₁ (textSeg r.m) = .error f)
      (hacc : isAcceptable c (segLen r.m) r.m.segSeq = true) (hlen : 0 < segLen r.m)
      (hrcv : c₁.rcv = c.rcv) (hrx : c₁.rx = c.rx) : RxFault dbg c r f

abbrev RxComes (dbg : Bool) (env : Env) (c : Conn) (r : RxSeg) : Except Fault RxOut → Prop :=
  Run.Comes (RxFault dbg c r) fun o => RxMove dbg env c r o.c

lemma rxSynSent_comes (hst : c.state = .synSent) : RxComes dbg env c r (rxSynSent env c r) := by
  unfold rxSynSent
  dsimp only
  split
  · exact .ok .quiet
  rename_i hrange
  split
  · exact .ok (.failed (by simp [hst]))
  split
  · exact .ok .quiet
  rename_i hnrst
  split
  · exact .ok .quiet
  rename_i hsyn
  split
  · rename_i hparse
    cases tcpParseOptions_comes.of_error hparse
    exact .stop .hang
  rename_i c1 opts hparse
  have hsyn' : hasFlag r.m.flags tcpSyn := by simpa using hsyn
  have hrst : hasFlag r.m.flags tcpAck = false → hasFlag r.m.flags tcpRst = false := by
    intro hno
    simpa [hno] using hnrst
  obtain ⟨po, rfl⟩ := tcpParseOptions_comes.of_ok hparse
  have hack : hasFlag r.m.flags tcpAck → wrapsLte r.ack c.snd.iss = false ∧ wrapsGt r.ack r.sndNxt = false := by
    intro ha
    simpa [ha] using hrange
  have hiss : (synConn c r po).snd.iss = c.snd.iss := by rw [synConn_eq, applyOptions_eq]
  have hst1 : (synConn c r po).state = .synSent := by rw [synConn_eq, ← hst]
  refine .ok ?_
  show RxMove dbg env c r (rxSynOpen env (synConn c r po) r opts).c
  unfold rxSynOpen
  split
  · rename_i huna
    exact .synAcked hst hack (by rwa [hiss] at huna)
  · rename_i huna
    rw [Bool.not_eq_true, hiss] at huna
    split
    · rename_i c2 e hctl
      have hst2 : c2.state = .synSent := by
        obtain ⟨-, rfl, -⟩ | ⟨-, -, m, -, -, -, rfl⟩ := tcpTxCtl_cases hctl
        · exact hst1
        · exact hst1
      have hm := @RxMove.synCrossed dbg env c r po opts c2 (some e) c2.tmr hst hack huna hctl hsyn' hrst
      simpa [← hst2] using hm
    · rename_i c2 hctl
      exact .synCrossed hst hack huna hctl hsyn' hrst

lemma rxDelayAck_spec (c : Conn) : ∃ t, (rxDelayAck now c).1 = { c with tmr := t } := by
  unfold rxDelayAck
  dsimp only
  split
  · exact ⟨_, rfl⟩
  · split
    · exact ⟨_, rfl⟩
    · exact ⟨_, rfl⟩

lemma rxFin_spec (o : RxOut) : ∃ t, (rxFin now o).c = { o.c with state := finState o.c.state, tmr := t } := by
  unfold rxFin
  dsimp only
  split
  · rename_i h
    exact ⟨_, by rw [h]; rfl⟩
  split
  · rename_i h
    exact ⟨_, by rw [h]; rfl⟩
  split
  · rename_i h
    exact ⟨_, by rw [h]; rfl⟩
  · have hst : finState o.c.state = o.c.state := by
      cases hs : o.c.state <;> simp_all [finState]
    exact ⟨o.c.tmr, by rw [hst]⟩

lemma rxTextFin_comes {now : Time} {rt : Option Mbuf} (hacc : isAcceptable c (segLen r.m) r.m.segSeq) :
    Run.Comes (fun f => 0 < segLen r.m ∧ tcpRxText dbg c (textSeg r.m) = .error f)
      (fun o => ∃ c' fin t, TextPhase dbg c r c' fin ∧
        o.c = { c' with state := if fin then finState c'.state else c'.state, tmr := t })
      (rxTextFin dbg now c r.m rt) := by
  unfold rxTextFin
  dsimp only
  split
  · rename_i htext
    split
    · rename_i hrx
      exact .stop ⟨htext.1, hrx⟩
    · obtain ⟨t, ht⟩ := rxDelayAck_spec now c
      exact .ok ⟨c, false, t, .unused, ht⟩
    · rename_i c' fl hrx
      obtain ⟨t, ht⟩ := rxDelayAck_spec now c'
      refine .ok ⟨c', fl.fin, ?_⟩
      have hphase : TextPhase dbg c r c' fl.fin := .used htext.1 htext.2 hacc hrx
      split
      · obtain ⟨t', ht'⟩ := rxFin_spec now
          { c := (rxDelayAck now c').1, doAck := (rxDelayAck now c').2, doDrop := false, retransmit := rt }
        refine ⟨t', hphase, ?_⟩
        rw [ht', ht]
      · exact ⟨t, hphase, ht⟩
  · exact .ok ⟨c, false, c.tmr, .unused, rfl⟩

lemma rxFinAcked_spec (c : Conn) (sndNxt : Seq) :
    (c.state = .lastAck ∧ c.snd.una = sndNxt ∧ ∃ t, rxFinAcked now c sndNxt
      = (tcpConnPutSm { c with state := .closed, tmr := t }, true)) ∨
    (¬ (c.state = .lastAck ∧ c.snd.una = sndNxt) ∧ ∃ t, rxFinAcked now c sndNxt
      = ({ c with state := finAckedState c.state (c.snd.una == sndNxt), tmr := t }, false)) := by
  unfold rxFinAcked
  split
  · rename_i h
    exact .inr ⟨by simp [h.1], _, by rw [finAckedState, if_pos (by simp [h])]; rfl⟩
  split
  · rename_i h
    exact .inr ⟨by simp [h.1], _, by
      rw [finAckedState, if_neg (by simp [h.1]), if_pos (by simp [h])]; rfl⟩
  split
  · rename_i h
    exact .inl ⟨h.1, h.2, _, rfl⟩
  · rename_i h1 h2 h3
    have hst : finAckedState c.state (c.snd.una == sndNxt) = c.state := by
      simp only [finAckedState, beq_iff_eq, if_neg h1, if_neg h2]
    exact .inr ⟨h3, c.tmr, by rw [hst]⟩

lemma rxAcked_comes {c0 : Conn} (hst : c.state ≠ .closed ∧ c.state ≠ .synSent)
    (hacc : isAcceptable c (segLen r.m) r.m.segSeq) (hentry : ∃ t, c0 = { entered c r with tmr := t })
    (hwin : c.state = .synReceived → inSndWindow c0 r) :
    RxComes dbg env c r (rxAcked dbg env.now c0 r) := by
  obtain ⟨t0, ht0⟩ := hentry
  have hrcv : c0.rcv = c.rcv ∧ c0.rx = c.rx := by
    rw [ht0, entered]
    split <;> exact ⟨rfl, rfl⟩
  have hphase : AckPhase (entered c r) r (rxAck env.now c0 r).1 := by
    have h1 := AckPhase.slow env.now c0 r
    rw [ht0] at h1 ⊢
    exact h1.of_tmr
  unfold rxAcked
  split
  · -- an ack beyond `snd_nxt`, which SYN_RECEIVED has ruled out already
    rename_i hbeyond
    refine .ok ?_
    have hsr : c.state ≠ .synReceived := fun hs => by simp [hwin hs] at hbeyond
    simp only [ht0, entered, if_neg hsr]
    exact .quiet
  · generalize rxAck env.now c0 r = a at hphase
    obtain ⟨c1, rt⟩ := a
    dsimp only at hphase ⊢
    have hst1 : c1.state = (entered c r).state ∧ c1.rcv = c.rcv ∧ c1.rx = c.rx := by
      rw [← hrcv.1, ← hrcv.2, ht0]
      cases hphase with
      | mk hwnd hq => exact ⟨rfl, rfl, rfl⟩
    have hlast : ∀ {p : Prop}, c1.state = .lastAck ∧ p ↔ c.state = .lastAck ∧ p := by
      intro p
      rw [hst1.1, entered]
      split
      · rename_i hs
        simp [hs]
      · rfl
    obtain ⟨hla, huna, t, heq⟩ | ⟨hla, t, heq⟩ := rxFinAcked_spec env.now c1 r.sndNxt
    · rw [heq]
      refine .ok ?_
      have hla' : c.state = .lastAck := (hlast.1 ⟨hla, trivial⟩).1
      have hphase' : AckPhase c r c1 := by simpa [entered, hla'] using hphase
      have hm := @RxMove.lastAcked dbg env c r c1 t hla' hacc hphase' huna
      simpa [tcpConnPutSm_eq] using hm
    · rw [heq, if_neg (by simp)]
      have hacc' : isAcceptable { c1 with
          state := finAckedState c1.state (c1.snd.una == r.sndNxt), tmr := t }
          (segLen r.m) r.m.segSeq := by
        simpa [isAcceptable, hst1.2.1] using hacc
      refine (rxTextFin_comes hacc').imp (fun f hf => .text hf.2 hacc hf.1 hst1.2.1 hst1.2.2)
        fun o ⟨c2, fin, t', htext, ho⟩ => ?_
      rw [ho]
      rw [hst1.1] at htext
      exact .text hst (fun _ => hacc) (hphase.with_tmr t) (fun h' => hla (hlast.2 h')) htext

lemma rxSynchronized_comes (hst : c.state ≠ .closed ∧ c.state ≠ .synSent) :
    RxComes dbg env c r (rxSynchronized dbg env.now c r) := by
  unfold rxSynchronized
  dsimp only
  split
  · exact .ok .quiet
  rename_i hacc
  have hacc : isAcceptable c (segLen r.m) r.m.segSeq := by simpa using hacc
  split
  · exact .ok (.failed hst.1)
  split
  · exact .ok (.failed hst.1)
  split
  · exact .ok .quiet
  split
  · rename_i hsr
    split
    · rename_i hwin
      have hentry : ∃ t, tcpConnSetState env.now .established
          { c with snd.wnd := r.win, snd.wl1 := r.m.segSeq, snd.wl2 := r.ack }
          = { entered c r with tmr := t } := by
        rw [entered, if_pos hsr]
        exact ⟨_, rfl⟩
      exact rxAcked_comes hst hacc hentry fun _ => hwin
    · exact .ok .quiet
  · rename_i hsr
    exact rxAcked_comes hst hacc ⟨c.tmr, by rw [entered, if_neg hsr]⟩ fun hs => absurd hs hsr

lemma tcpRxConnSlow_comes : RxComes dbg env c r (tcpRxConnSlow dbg env c r) := by
  refine Run.Comes.map (P := fun o => RxMove dbg env c r o.c) ?_ fun o ho => ?_
  · split
    · exact .ok .quiet
    · split
      · rename_i hst
        exact rxSynSent_comes hst
      · rename_i hcl hst
        exact rxSynchronized_comes ⟨hcl, hst⟩
  · obtain ⟨t, ht⟩ := rxDone_spec env.now o
    rw [ht]
    exact ho.of_tmr t

lemma fastDelayAck_spec (c : Conn) : ∃ t, (fastDelayAck now c).1 = { c with tmr := t } := by
  unfold fastDelayAck
  dsimp only
  split
  · exact ⟨_, rfl⟩
  · split
    · exact ⟨_, rfl⟩
    · exact ⟨_, rfl⟩

/-- What the tests in front of the fast path have established. -/
structure Expected (c : Conn) (r : RxSeg) : Prop where
  established : c.state = .established
  len_pos : 0 < r.len
  not_fin : hasFlag r.m.flags tcpFin = false
  next : r.m.segSeq = c.rcv.nxt
  ooo : c.rx.ooo = []
  fits : r.len ≤ c.rcv.wnd

lemma expected_of_not_slowPath (h : slowPath c r = false) : Expected c r := by
  simp only [slowPath, Bool.or_eq_false_iff, bne_eq_false_iff_eq, beq_eq_false_iff_ne,
    decide_eq_false_iff_not, Bool.not_eq_false', List.isEmpty_iff] at h
  obtain ⟨⟨⟨⟨⟨⟨⟨⟨hflags, hlen⟩, -⟩, hst⟩, -⟩, hseq⟩, hooo⟩, hwnd⟩, -⟩ := h
  refine ⟨hst, ?_, ?_, hseq, hooo, ?_⟩
  · bv_omega
  · simp only [tcpSlowpathFlags, hasFlag_or, Bool.or_eq_false_iff] at hflags
    exact hflags.1.1
  · bv_omega

lemma tcpRxConnFast_move (h : slowPath c r = false) : RxMove dbg env c r (tcpRxConnFast env.now c r).c := by
  have hx := expected_of_not_slowPath h
  have hphase := AckPhase.fast h
  generalize hc1 : fastAck c r.m.segSeq r.ack r.win = c1 at hphase
  have hc1_keep : c1.state = c.state ∧ c1.rcv = c.rcv ∧ c1.rx = c.rx := by
    cases hphase with
    | mk hwnd hq => exact ⟨rfl, rfl, rfl⟩
  obtain ⟨hst1, hrcv1, hrx1⟩ := hc1_keep
  have hconn : ∃ t, (tcpRxConnFast env.now c r).c = { enqueueText c1 r.m with tmr := t } := by
    unfold tcpRxConnFast
    rw [hc1]
    obtain ⟨t, ht⟩ := fastDelayAck_spec env.now { c1 with rcv.nxt := r.m.segEnd, rcv.wnd := c1.rcv.wnd - r.len }
    have hlen : r.m.segEnd - r.m.segSeq = r.len := by
      rw [r.segEnd_eq]
      ring
    refine ⟨t, ?_⟩
    dsimp only
    rw [ht, enqueueText, hlen]
  obtain ⟨t, ht⟩ := hconn
  have hentered : entered c r = c := by simp [entered, hx.established]
  rw [ht]
  have htext : TextPhase dbg { c1 with state := finAckedState (entered c r).state (c1.snd.una == r.sndNxt) } r
      (enqueueText c1 r.m) false := by
    have hst : finAckedState (entered c r).state (c1.snd.una == r.sndNxt) = c1.state := by
      rw [hentered, hst1, hx.established]
      simp [finAckedState]
    rw [hst]
    exact .fast (hst1.trans hx.established) hx.len_pos hx.not_fin (hrcv1 ▸ hx.next) (hrx1 ▸ hx.ooo) (hrcv1 ▸ hx.fits)
  refine .text ?_ (fun hs => ?_) (hentered.symm ▸ hphase) ?_ htext
  · simp [hx.established]
  · simp [h] at hs
  · simp [hx.established]

lemma tcpRxConnLocked_comes : RxComes dbg env c r (tcpRxConnLocked dbg env c r) := by
  unfold tcpRxConnLocked
  split
  · exact tcpRxConnSlow_comes
  · rename_i hslow
    exact .ok (tcpRxConnFast_move (by simpa using hslow))

/-- Both paths of ingress are moves. -/
lemma tcpRxConnLocked_move (h : tcpRxConnLocked dbg env c r = .ok o) : RxMove dbg env c r o.c :=
  tcpRxConnLocked_comes.of_ok h

lemma tcpRxListener_attached {iss mtu : Seq} {attachTs : Time} {p : Packet} {opts : TcpOptions}
    (h : tcpRxListener iss mtu attachTs p = .ok (.attached c opts)) : ∃ o, c = applyOptions
      { tcpConnAlloc iss mtu attachTs with rcv.irs := p.seq, rcv.nxt := p.seq + 1 } o := by
  unfold tcpRxListener at h
  dsimp only at h
  repeat' split at h
  all_goals first
    | cases h
      rename_i hparse
      exact tcpParseOptions_comes.of_ok hparse
    | cases h

end Aspen.Tcp
