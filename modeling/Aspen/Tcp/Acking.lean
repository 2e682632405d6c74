import Aspen.Tcp.Pushing

/-!
# Owed acknowledgements

A connection that has accepted text owes the peer an acknowledgement, unless its last header covers `rcv_nxt` or
a delayed ack is armed (`Kept`). Every critical section but those of ingress, the timeout worker and writers
keeps it that way (`Upkeep`). Ingress that accepts text asks for an ack or arms the delayed one, and the timeout
worker sends what it disarms. A writer disarms the delayed ack when it starts, and nothing takes that back when
it sends no segment (`failed_write_loses_ack`): `tcp_write_finish` only looks for a delayed ack that was armed
meanwhile.
-/

namespace Aspen.Tcp

open Run

variable {dbg : Bool} {env : Env} {c c' : Conn} {r : RxSeg} {o : RxOut} {s s' : Sys} {e : Event}

/-! ## What acknowledges -/

def Reported (c : Conn) : Prop := c.tx.lastAck = c.rcv.nxt
deriving Decidable

def Kept (c : Conn) : Prop := Reported c ∨ c.tmr.ackDelayed = true
deriving Decidable

def Live (st : State) : Prop := st = .synReceived ∨ st = .established

structure Upkeep (c c' : Conn) : Prop where
  live : Live c'.state → Live c.state
  kept : Kept c → Kept c'

lemma Upkeep.refl (c : Conn) : Upkeep c c := ⟨id, id⟩

lemma Upkeep.trans {c'' : Conn} (h : Upkeep c c') (h' : Upkeep c' c'') : Upkeep c c'' :=
  ⟨h.live ∘ h'.live, h'.kept ∘ h.kept⟩

lemma not_live_closed : ¬ Live .closed := by simp [Live]

/-! ## Functions -/

lemma upkeep_tcpTxAck (c : Conn) (hcur : env.loaded = none) : Upkeep c (tcpTxAck env c) := by
  rw [tcpTxAck, hcur]
  split
  · exact ⟨id, fun _ => .inl rfl⟩
  · exact .refl c

lemma reported_tcpTxCtl {flags : Flags} {opts : Option TcpOptions} {ret : Option Errno}
    (h : tcpTxCtl env c flags opts = (c', ret)) : c' = c ∧ ret ≠ none ∨
      Reported c' := by
  obtain ⟨-, rfl, rfl⟩ | ⟨-, -, m, -, -, -, rfl⟩ := tcpTxCtl_cases h
  · exact .inl ⟨rfl, by simp⟩
  · exact .inr rfl

lemma upkeep_tcpConnFail (now : Time) (err : Errno) (c : Conn) : Upkeep c (tcpConnFail now err c) := by
  rw [tcpConnFail_eq]
  exact ⟨fun h => absurd h not_live_closed, id⟩

lemma upkeep_tcpConnShutdownTx (env : Env) (c : Conn) : Upkeep c (tcpConnShutdownTx env c).1 := by
  cases htx : tcpConnShutdownTx env c with
  | mk c' ret =>
    obtain ⟨-, rfl, -⟩ | ⟨-, -, m, t, -, -, -, rfl⟩ := tcpConnShutdownTx_cases htx
    · exact .refl _
    · refine ⟨?_, fun _ => .inl rfl⟩
      split
      · cases c.state <;> simp [Live, finSent]
      · exact id

lemma tcpTxFastRetransmitStart_tmr (now : Time) (c : Conn) : (tcpTxFastRetransmitStart now c).1.tmr = c.tmr := by
  unfold tcpTxFastRetransmitStart
  repeat' split
  all_goals rfl

lemma tcpWriteFinishQueue_tmr (now : Time) (c : Conn) : (tcpWriteFinishQueue now c).1.tmr = c.tmr := by
  unfold tcpWriteFinishQueue
  split
  · rfl
  split
  · dsimp only
    split
    · exact tcpTxFastRetransmitStart_tmr now _
    · rfl
  · rfl

lemma tcpWriteFinish_ackDelayed (now : Time) (c : Conn) :
    (tcpWriteFinish now c).1.tmr.ackDelayed = (c.tmr.ackDelayed && !decide (Reported c)) := by
  simp only [tcpWriteFinish, tcpTimerUpdate, tcpWriteFinishQueue_tmr, tcpConnAck_eq]
  by_cases hreported : c.rcv.nxt = c.tx.lastAck
  · simp [hreported, Reported]
  · simp [hreported, Reported, Ne.symm hreported]

lemma upkeep_tcpWriteFinish (now : Time) (c : Conn) : Upkeep c (tcpWriteFinish now c).1 := by
  have hdelayed := tcpWriteFinish_ackDelayed now c
  obtain ⟨q, dfr, t, heq, -⟩ := tcpWriteFinish_spec now c
  rw [heq] at hdelayed ⊢
  refine ⟨id, ?_⟩
  by_cases hreported : Reported c
  · exact fun _ => .inl hreported
  · rintro (h | h)
    · exact .inl h
    · right
      rw [hdelayed, h, decide_eq_false hreported]
      rfl

variable {now : Time}

lemma upkeep_tcpTxRetransmitRound {busy : Bool} {i : ℕ} {rd : RetransmitRound} (hcur : env.loaded = none)
    (h : tcpTxRetransmitRound now env busy c i = .ok (c', rd)) : Upkeep c c' := by
  unfold tcpTxRetransmitRound at h
  rw [hcur] at h
  repeat' split at h
  all_goals cases h
  · exact .refl c
  · exact .refl c
  · exact .refl c
  · exact ⟨id, id⟩
  · exact ⟨id, fun _ => .inl rfl⟩
  · exact ⟨id, fun _ => .inl rfl⟩

/-! ## Ingress -/

def Answered (c : Conn) (o : RxOut) : Prop :=
  Live o.c.state → o.doAck = true ∨ Kept o.c ∨ Live c.state ∧ (Kept c → Kept o.c)

lemma Upkeep.answered (h : Upkeep c o.c) : Answered c o := fun hlive => .inr (.inr ⟨h.live hlive, h.kept⟩)

lemma Upkeep.trans_answered (h : Upkeep c c') (h' : Answered c' o) : Answered c o := by
  intro hlive
  obtain hack | hkept | ⟨hlive', hkept⟩ := h' hlive
  · exact .inl hack
  · exact .inr (.inl hkept)
  · exact .inr (.inr ⟨h.live hlive', hkept ∘ h.kept⟩)

lemma Answered.done (h : Answered c o) (now : Time) : Answered c (rxDone now o) := by
  unfold rxDone
  by_cases hack : o.doAck
  · exact fun _ => .inl hack
  · simp only [if_neg hack]
    exact fun hlive => .inr ((h hlive).resolve_left hack)

lemma upkeep_tcpTxFastRetransmitStart (now : Time) (c : Conn) : Upkeep c (tcpTxFastRetransmitStart now c).1 := by
  obtain ⟨q, hc, -⟩ := tcpTxFastRetransmitStart_spec now c
  rw [hc]
  exact ⟨id, id⟩

lemma upkeep_rxAckInWindow (c : Conn) (seq ack win : Seq) : Upkeep c (rxAckInWindow c seq ack win).c := by
  unfold rxAckInWindow
  simp only [tcpConnAck_eq]
  repeat' split
  all_goals exact ⟨id, id⟩

lemma upkeep_rxFastRetransmit (now : Time) (a : AckOut) (ack len : Seq) :
    Upkeep a.c (rxFastRetransmit now a ack len).1 := by
  unfold rxFastRetransmit
  dsimp only
  split
  · split
    · split
      · exact ⟨id, id⟩
      · have h := upkeep_tcpTxFastRetransmitStart now { a.c with tmr.repAcks := a.c.tmr.repAcks + 1 }
        exact ⟨h.live, h.kept⟩
    · exact ⟨id, id⟩
  split
  · exact ⟨id, id⟩
  · exact .refl a.c

lemma upkeep_rxAck (now : Time) (c : Conn) (r : RxSeg) : Upkeep c (rxAck now c r).1 := by
  refine .trans ?_ (upkeep_rxFastRetransmit ..)
  split
  · exact upkeep_rxAckInWindow ..
  · exact .refl c

lemma upkeep_rxFinAcked (now : Time) (c : Conn) (sndNxt : Seq) : Upkeep c (rxFinAcked now c sndNxt).1 := by
  unfold rxFinAcked
  split
  · exact ⟨by simp [Live, tcpConnSetState, tcpTimerUpdate], id⟩
  split
  · exact ⟨by simp [Live, tcpConnSetState, tcpTimerUpdate], id⟩
  split
  · rw [tcpConnPutSm_eq]
    exact ⟨by simp [Live, tcpConnSetState, tcpTimerUpdate], id⟩
  · exact .refl c

lemma rxDelayAck_answers (now : Time) (c : Conn) :
    (rxDelayAck now c).2 ∨ (rxDelayAck now c).1.tmr.ackDelayed = true := by
  unfold rxDelayAck
  dsimp only
  split
  · exact .inl rfl
  split
  · exact .inr rfl
  · rename_i harmed
    right
    simpa using harmed

lemma rxFin_answers (now : Time) {o : RxOut} (h : o.doAck ∨ o.c.tmr.ackDelayed) :
    (rxFin now o).doAck ∨ (rxFin now o).c.tmr.ackDelayed = true := by
  unfold rxFin
  dsimp only
  split
  · exact h
  split
  · exact h
  split
  · exact .inl rfl
  · exact h

lemma answered_of_delayed (h : o.doAck ∨ o.c.tmr.ackDelayed) : Answered c o :=
  fun _ => h.imp_right fun harmed => .inl (.inr harmed)

lemma rxTextFin_answered {m : Mbuf} {rt : Option Mbuf}
    (h : rxTextFin dbg now c m rt = .ok o) : Answered c o := by
  unfold rxTextFin at h
  dsimp only at h
  split at h
  · split at h
    · cases h
    · cases h
      exact answered_of_delayed (rxDelayAck_answers now c)
    · rename_i c1 fl _
      cases h
      apply answered_of_delayed
      split
      · exact rxFin_answers now (rxDelayAck_answers now c1)
      · exact rxDelayAck_answers now c1
  · cases h
    exact Upkeep.answered (.refl c)

lemma rxAcked_answered (h : rxAcked dbg now c r = .ok o) : Answered c o := by
  have hkeep := (upkeep_rxAck now c r).trans (upkeep_rxFinAcked now _ r.sndNxt)
  unfold rxAcked at h
  split at h
  · cases h
    exact fun _ => .inl rfl
  · dsimp only at h
    split at h
    · cases h
      exact hkeep.answered
    · exact hkeep.trans_answered (rxTextFin_answered h)

lemma rxSynchronized_answered (h : rxSynchronized dbg now c r = .ok o) : Answered c o := by
  have hfail := upkeep_tcpConnFail now .econnreset c
  unfold rxSynchronized at h
  dsimp only at h
  split at h
  · cases h
    exact Upkeep.answered (.refl c)
  split at h
  · cases h
    exact hfail.answered
  split at h
  · cases h
    exact hfail.answered
  split at h
  · cases h
    exact Upkeep.answered (.refl c)
  split at h
  · rename_i hst
    split at h
    · have hopen : Upkeep c (tcpConnSetState now .established
          { c with snd.wnd := r.win, snd.wl1 := r.m.segSeq, snd.wl2 := r.ack }) :=
        ⟨fun _ => .inl hst, id⟩
      exact hopen.trans_answered (rxAcked_answered h)
    · cases h
      exact Upkeep.answered (.refl c)
  · exact rxAcked_answered h

lemma rxSynOpen_answers {opts : TcpOptions} (hst : c.state = .synSent) : Live (rxSynOpen env c r opts).c.state →
      (rxSynOpen env c r opts).doAck ∨ Kept (rxSynOpen env c r opts).c := by
  unfold rxSynOpen
  split
  · exact fun _ => .inl rfl
  · cases htx : tcpTxCtl env c (tcpSyn ||| tcpAck) (some opts) with
    | mk c1 ret =>
      intro hlive
      right
      rcases reported_tcpTxCtl htx with ⟨rfl, hret⟩ | hreported
      · obtain ⟨err, rfl⟩ := Option.ne_none_iff_exists'.1 hret
        simp [Live, hst] at hlive
      · cases ret with
        | none => exact .inl hreported
        | some err => exact .inl hreported

lemma rxSynAck_state (c : Conn) (r : RxSeg) : (rxSynAck c r).state = c.state := by
  unfold rxSynAck
  split
  · rw [tcpConnAck_eq]
  · rfl

lemma rxSynSent_answered (hst : c.state = .synSent) (h : rxSynSent env c r = .ok o) : Answered c o := by
  unfold rxSynSent at h
  dsimp only at h
  split at h
  · cases h
    exact Upkeep.answered (.refl c)
  split at h
  · cases h
    exact (upkeep_tcpConnFail env.now .econnreset c).answered
  split at h
  · cases h
    exact Upkeep.answered (.refl c)
  split at h
  · cases h
    exact Upkeep.answered (.refl c)
  split at h
  · cases h
  · rename_i c1 opts hopts
    cases h
    obtain ⟨p, rfl⟩ := tcpParseOptions_comes.of_ok hopts
    intro hlive
    refine (rxSynOpen_answers ?_ hlive).imp_right .inl
    rw [rxSynAck_state, applyOptions_eq]
    exact hst

lemma tcpRxConnSlow_answered (h : tcpRxConnSlow dbg env c r = .ok o) : Answered c o := by
  unfold tcpRxConnSlow at h
  split at h
  · cases h
    exact Answered.done (Upkeep.answered (.refl c)) env.now
  split at h
  · rename_i hst
    obtain ⟨o', hs, rfl⟩ := map_eq_ok h
    exact (rxSynSent_answered hst hs).done env.now
  · obtain ⟨o', hs, rfl⟩ := map_eq_ok h
    exact (rxSynchronized_answered hs).done env.now

lemma fastDelayAck_answers (now : Time) (c : Conn) :
    (fastDelayAck now c).2 ∨ (fastDelayAck now c).1.tmr.ackDelayed = true := by
  unfold fastDelayAck
  dsimp only
  split
  · exact .inl rfl
  split
  · exact .inr rfl
  · rename_i harmed
    right
    simpa using harmed

lemma tcpRxConnLocked_answered (h : tcpRxConnLocked dbg env c r = .ok o) : Answered c o := by
  unfold tcpRxConnLocked at h
  split at h
  · exact tcpRxConnSlow_answered h
  · cases h
    exact answered_of_delayed (fastDelayAck_answers env.now _)

/-! ## Writers -/

lemma kept_tcpTxSendRound {rest : List UInt8} {push : Bool} (hcur : env.loaded = none) (h : Kept c) :
    Kept (tcpTxSendRound env c rest push).1 := by
  unfold tcpTxSendRound
  rw [hcur]
  split
  · exact h
  · dsimp only
    split
    · exact h
    · exact .inl rfl

lemma reported_tcpTxSendRound {rest : List UInt8} {push : Bool} (hcur : env.loaded = none) (halloc : env.alloc)
    (hp : (tcpTxSendRound env c rest push).1.tx.pending = none) :
    Reported (tcpTxSendRound env c rest push).1 := by
  have hfound := tcpTxSendRound_alloc (c := c) halloc (Eq.refl (tcpTxSendRound env c rest push))
  unfold tcpTxSendRound at hp hfound ⊢
  rw [hcur]
  split
  · rename_i hbuf
    simp [hbuf] at hfound
  · rename_i m n hbuf
    simp only [hbuf] at hp
    split at hp
    · simp at hp
    · rename_i hsent
      rw [if_neg hsent]
      rfl

/-! ## Runs -/

/-- There are buffers for whoever has to carry the acknowledgement, a vector whose beginning may be deferred reaches its
end, and nothing is received between the load of `rcv_nxt_wnd` and the store of `tx_last_ack` for a header. -/
def CarryOk (s : Sys) : Event → Prop
  | .txAck env => env.loaded = none ∧ env.alloc = true
  | .txResend env | .rtRound env _ => env.loaded = none
  | .writev iov => s.c.tx.closed = true ∨ Reported s.c ∨ Fits iov s.c.winlen
  | .sendRound env => env.loaded = none ∧ (env.alloc = true ∨ Kept s.c)
  | _ => True

instance (s : Sys) (e : Event) : Decidable (CarryOk s e) := by
  induction e using Event.casesOn <;> dsimp only [CarryOk] <;> infer_instance

/-- The places where the obligation can be: with the timer, with a thread that is about to call
`tcp_tx_ack`, or with a writer that will send. -/
def Owed (s : Sys) : Prop := Kept s.c ∨ 0 < s.acks ∨ ∃ snd, s.writer = some (.send (some snd)) ∧ WillPush snd

structure Acking (s : Sys) : Prop where
  exclusive : s.c.tx.exclusive = s.writer.isSome
  fresh : s.owner.fresh = true → s.c.state = .closed
  owed : Live s.c.state → Owed s

lemma Owed.upkeep (h : Owed s) (hkept : Kept s.c → Kept s'.c) (hacks : s.acks ≤ s'.acks)
    (hw : s'.writer = s.writer) : Owed s' := by
  obtain hk | ha | hsnd := h
  · exact .inl (hkept hk)
  · exact .inr (.inl (ha.trans_le hacks))
  · exact .inr (.inr (hw ▸ hsnd))

lemma Owed.sending {snd : Send} (h : Owed s) (hcur : env.loaded = none) (hok : env.alloc ∨ Kept s.c)
    (hw : s.writer = some (.send (some snd))) : Owed { s with
      c := (tcpTxSendRound env s.c snd.rest snd.push).1
      writer := some (.send (sendNext snd (tcpTxSendRound env s.c snd.rest snd.push).2.1
        (tcpTxSendRound env s.c snd.rest snd.push).2.2)) } := by
  rcases hok with halloc | hkept
  · obtain hkept | hacks | ⟨snd', hw', hwill⟩ := h
    · exact .inl (kept_tcpTxSendRound hcur hkept)
    · exact .inr (.inl hacks)
    · rw [hw] at hw'
      cases hw'
      rcases hwill.round halloc (Eq.refl (tcpTxSendRound env s.c snd.rest snd.push)) with
        ⟨-, hp⟩ | ⟨snd', hnext, hwill'⟩
      · exact .inl (.inl (reported_tcpTxSendRound hcur halloc hp))
      · exact .inr (.inr ⟨snd', congrArg (fun n => some (Writer.send n)) hnext, hwill'⟩)
  · exact .inl (kept_tcpTxSendRound hcur hkept)

/-- What is owed stays with somebody who will send it. -/
lemma Acking.owed_step (hi : Acking s) (hok : CarryOk s e) (h : step dbg s e = .ok s')
    (hlive : Live s'.c.state) : Owed s' := by
  have hidle : s.c.tx.exclusive = false → s.writer = none := by
    intro hexcl
    rwa [hi.exclusive, Option.isSome_eq_false_iff, Option.isNone_iff_eq_none] at hexcl
  have hupkeep : Upkeep s.c s'.c → s.acks ≤ s'.acks → s'.writer = s.writer → Owed s' :=
    fun hc hacks hw => (hi.owed (hc.live hlive)).upkeep hc.kept hacks hw
  have hquiet : Upkeep s.c s'.c → s'.acks = s.acks → (∀ snd, s.writer ≠ some (.send (some snd))) → Owed s' := by
    intro hc hacks hno
    obtain hk | ha | ⟨snd, hsnd, -⟩ := hi.owed (hc.live hlive)
    · exact .inl (hc.kept hk)
    · exact .inr (.inl (hacks ▸ ha))
    · exact absurd hsnd (hno snd)
  cases stepped h with
  | ingress _ ho =>
    obtain hack | hkept | ⟨hlive', hkept⟩ := tcpRxConnLocked_answered ho hlive
    · right
      left
      simp [Sys.defer, hack]
    · exact .inl hkept
    · exact (hi.owed hlive').upkeep hkept (Nat.le_add_right _ _) rfl
  | @acked env _ _ hc =>
    have hreported : Reported (tcpTxAck env s.c) := by
      rw [tcpTxAck, if_pos hok.2, hok.1]
      rfl
    rw [hc] at hreported
    exact .inl (.inl hreported)
  | @probed env _ _ hc => exact hupkeep (hc ▸ upkeep_tcpTxAck s.c hok) le_rfl rfl
  | reading => exact hupkeep ⟨id, id⟩ (Nat.le_add_right _ _) rfl
  | armed hack => exact hupkeep ⟨id, .imp_right hack.trans⟩ le_rfl rfl
  | writing _ hopen _ hnext =>
    cases hnext with
    | write buf => exact .inr (.inr ⟨_, rfl, .now rfl rfl⟩)
    | writev iov =>
      rcases hok with hclosed | hc | hfits
      · simp [hopen] at hclosed
      · exact .inl (.inl hc)
      · obtain ⟨snd, hnext, hwill⟩ := hfits.next 0
        exact .inr (.inr ⟨snd, by rw [hnext], hwill⟩)
  | sent hw hr =>
    have howed := (hi.owed hlive).sending hok.1 hok.2 hw
    rwa [hr] at howed
  | @finished now _ _ _ _ _ hw hc =>
    refine hquiet (hc ▸ upkeep_tcpWriteFinish now s.c) rfl ?_
    obtain ⟨hw, -⟩ | ⟨⟨t, hw⟩, -⟩ := hw
    · simp [hw]
    · simp [hw]
  | @shutdown _ env _ _ _ _ _ _ _ _ _ _ _ _ _ _ htx | @close _ env _ _ _ _ _ _ _ _ _ _ _ _ htx =>
    have hc := upkeep_tcpConnShutdownTx env s.c
    rw [htx] at hc
    exact hupkeep ⟨hc.live, hc.kept⟩ le_rfl rfl
  | closeFailed | failed => exact absurd (by rwa [tcpConnFail_eq] at hlive) not_live_closed
  | expired => exact absurd hlive not_live_closed
  | timed _ _ hack =>
    rcases hi.owed hlive with (hk | hk) | ha | hsnd
    · exact .inl (.inl hk)
    · rcases hack with hack | hack
      · exact .inl (.inr (hack.trans hk))
      · right
        left
        simp [hack]
    · exact .inr (.inl (Nat.lt_add_right _ ha))
    · exact .inr (.inr hsnd)
  | resending _ _ hfree => exact hquiet ⟨id, id⟩ rfl (by simp [hidle hfree])
  | resent hw hr => exact hquiet (upkeep_tcpTxRetransmitRound hok hr) rfl (by simp [hw])
  | opened ho hctl =>
    rcases reported_tcpTxCtl hctl with ⟨-, hret⟩ | hreported
    · exact absurd rfl hret
    · exact .inl (.inl hreported)
  | openFailed ho => exact absurd (hi.fresh ho.spec.1 ▸ hlive) not_live_closed
  | _ => exact hupkeep ⟨id, id⟩ le_rfl rfl

lemma acking_initial (h : Initial s) : Acking s := by
  obtain ⟨_, _, _, _, _, _, _, _, _, -, -, -, rfl⟩ := initial_eq h
  exact ⟨rfl, fun _ => rfl, fun hlive => absurd hlive not_live_closed⟩

/-- In every run in which buffers are found for acks and for the segments of a write, and headers store the
acknowledgement they have loaded before more is received, what was received is acknowledged, or will be by the timer. -/
theorem ack_owed (h : Reaches (step dbg) CarryOk Initial s) (hst : s.c.state = .established)
    (hexcl : s.c.tx.exclusive = false) (hacks : s.acks = 0) :
    s.c.tx.lastAck = s.c.rcv.nxt ∨ s.c.tmr.ackDelayed = true := by
  have hi : Acking s := h.invariant (fun _ => acking_initial) fun _ _ _ hi hok hstep =>
    ⟨exclusive_step hstep hi.exclusive, fresh_closed_step hstep hi.fresh, hi.owed_step hok hstep⟩
  obtain hkept | hpos | ⟨snd, hw, -⟩ := hi.owed (.inr hst)
  · exact hkept
  · exact absurd hacks hpos.ne'
  · rw [hi.exclusive, hw] at hexcl
    cases hexcl

theorem ack_owed_written : ∃ s, Reaches (step false) CarryOk Initial s ∧ s.c.state = .established ∧
    s.c.tx.exclusive = false ∧ s.acks = 0 ∧ s.c.rcv.nxt = 5003 ∧
    (s.c.tx.lastAck = s.c.rcv.nxt ∨ s.c.tmr.ackDelayed = true) := by
  refine Reaches.of_exec_imp (P := fun s =>
      s.c.state = .established ∧ s.c.tx.exclusive = false ∧ s.acks = 0 ∧ s.c.rcv.nxt = 5003)
    (handshake 1000 ++ [.txAck {}] ++
    arrives (.plain 5001 1001 tcpAck 1000 [7, 8] (by decide)) ++
    [.write [1], .sendRound {}, .writeFinish 0]) (initial_dialed 1500) ?_ ?_ ?_
  · decide
  · decide
  rintro s hs ⟨hst, hexcl, hacks, hnxt⟩
  exact ⟨hst, hexcl, hacks, hnxt, ack_owed hs hst hexcl hacks⟩

/-- Text arrives and arms the delayed ack; a write disarms it and finds no buffer. -/
theorem failed_write_loses_ack : ∃ s, Reaches (step false) (fun _ _ => True) Initial s ∧
    s.c.state = .established ∧ s.c.tx.exclusive = false ∧ s.acks = 0 ∧
    s.c.tx.lastAck ≠ s.c.rcv.nxt ∧ s.c.tmr.ackDelayed = false := by
  refine Reaches.of_exec (handshake 1000 ++ [.txAck {}] ++
    arrives (.plain 5001 1001 tcpAck 1000 [7, 8] (by decide)) ++
    [.write [1], .sendRound { alloc := false }, .writeFinish 0])
    (initial_dialed 1500) (allowed_true _ _) ?_
  decide

end Aspen.Tcp
