import Aspen.Tcp.Tiling

/-!
# Deadlines

The worker skips a connection whose `next_timeout` lies in the future, so that must not be later than anything
that is armed. Two paths change what is armed and do not call `tcp_timer_update`:

* `tcp_conn_shutdown_tx` queues the FIN and returns early if the packet could not be handed to the link
  (`fin_without_timer`), or finds the connection in neither of the two states it knows;
* the fast path frees acknowledged buffers, which brings another one to the head of the queue that may have been
  sent earlier.

Whenever neither changes the earliest deadline, the cached minimum covers everything (`timer_covers`).
-/

namespace Aspen.Tcp

open Run

variable {dbg : Bool} {env : Env} {c c' : Conn} {r : RxSeg} {o : RxOut} {s s' : Sys} {e : Event}

inductive Armed (c : Conn) : Time → Prop
  | ack (harmed : c.tmr.ackDelayed = true) : Armed c (c.tmr.ackTs + tcpAckTimeout)
  | probe (harmed : c.tmr.zeroWnd = true) : Armed c (c.tmr.zeroWndTs + tcpZeroWndTimeout)
  | retransmit {m : Mbuf} (hexcl : c.tx.exclusive = false) (hq : c.tx.q.head? = some m) :
      Armed c (m.timestamp + tcpRetransmitTimeout)
  | connect (hst : c.state.opening = true) : Armed c (c.tmr.timeWaitTs + tcpConnectTimeout)
  | timeWait (hst : c.state = .timeWait) : Armed c (c.tmr.timeWaitTs + tcpTimeWaitTimeout)

variable (now : Time)

def Timely (c : Conn) : Prop := c.state ≠ .closed → ∀ d, Armed c d → c.tmr.nextTimeout ≤ d

/-! ## Keeping the minimum -/

lemma minTime_le_left (a b : Time) : minTime a b ≤ a := by
  unfold minTime
  split
  · exact BitVec.le_refl a
  · rename_i h
    exact BitVec.not_lt.1 h

lemma minTime_le_right (a b : Time) : minTime a b ≤ b := by
  unfold minTime
  split
  · rename_i h
    exact BitVec.le_of_lt h
  · exact BitVec.le_refl b

lemma if_minTime_le {p : Prop} [Decidable p] {t a d : Time} (h : t ≤ d ∨ p ∧ a ≤ d) :
    (if p then minTime t a else t) ≤ d := by
  split
  · obtain h | ⟨-, h⟩ := h
    · exact BitVec.le_trans (minTime_le_left t a) h
    · exact BitVec.le_trans (minTime_le_right t a) h
  · rename_i hp
    exact h.resolve_right fun h => hp h.1

lemma queueTimeout_le {now t d : Time} (c : Conn) (h : t ≤ d ∨ ∃ m, c.tx.exclusive = false ∧
      c.tx.q.head? = some m ∧ m.timestamp + tcpRetransmitTimeout ≤ d) :
    (let t := if !c.tx.exclusive then
        match c.tx.q with
        | [] => t
        | m :: _ => minTime t (m.timestamp + tcpRetransmitTimeout)
      else t
    if c.rx.ooo.isEmpty then t else minTime t (now + tcpOoqAckTimeout)) ≤ d := by
  have hq : (if !c.tx.exclusive then
        match c.tx.q with
        | [] => t
        | m :: _ => minTime t (m.timestamp + tcpRetransmitTimeout)
      else t) ≤ d := by
    obtain h | ⟨m, hexcl, hq, hm⟩ := h
    · split
      · split
        · exact h
        · exact BitVec.le_trans (minTime_le_left ..) h
      · exact h
    · obtain ⟨q, hq⟩ := List.head?_eq_some_iff.1 hq
      simp only [hexcl, hq, Bool.not_false, if_true]
      exact BitVec.le_trans (minTime_le_right ..) hm
  dsimp only
  split
  · exact hq
  · exact BitVec.le_trans (minTime_le_left ..) hq

lemma nextTimeout_le {d : Time} (h : Armed c d) : nextTimeout now c ≤ d := by
  apply queueTimeout_le c
  cases h with
  | ack harmed => exact .inl (if_minTime_le (.inl (if_minTime_le (.inr ⟨harmed, BitVec.le_refl _⟩))))
  | probe harmed => exact .inl (if_minTime_le (.inr ⟨harmed, BitVec.le_refl _⟩))
  | @retransmit m hexcl hq => exact .inr ⟨m, hexcl, hq, BitVec.le_refl _⟩
  | connect hst =>
    refine .inl (if_minTime_le (.inl (if_minTime_le (.inl ?_))))
    rw [if_pos hst]
    exact BitVec.le_refl _
  | timeWait hst =>
    refine .inl (if_minTime_le (.inl (if_minTime_le (.inl ?_))))
    rw [if_neg (by rw [hst]; decide), if_pos hst]
    exact BitVec.le_refl _

lemma Timely.updated (h : c.tmr.nextTimeout = nextTimeout now c) : Timely c := by
  intro _ d hd
  rw [h]
  exact nextTimeout_le now hd

lemma timely_tcpTimerUpdate (c : Conn) : Timely (tcpTimerUpdate now c) := .updated now rfl

lemma Timely.closed (h : c.state = .closed) : Timely c := fun hclosed => absurd h hclosed

structure Disarms (c c' : Conn) : Prop where
  state : c'.state = c.state
  next : c'.tmr.nextTimeout ≤ c.tmr.nextTimeout
  ack : c'.tmr.ackDelayed = true → c.tmr.ackDelayed = true ∧ c'.tmr.ackTs = c.tmr.ackTs
  probe : c'.tmr.zeroWnd = true → c.tmr.zeroWnd = true ∧ c'.tmr.zeroWndTs = c.tmr.zeroWndTs
  wait : c'.tmr.timeWaitTs = c.tmr.timeWaitTs
  queue : c'.tx.exclusive = false → c.tx.exclusive = false ∧ c'.tx.q.head? = c.tx.q.head?

lemma Disarms.armed (h : Disarms c c') {d : Time} (hd : Armed c' d) : Armed c d := by
  cases hd with
  | ack harmed =>
    rw [(h.ack harmed).2]
    exact .ack (h.ack harmed).1
  | probe harmed =>
    rw [(h.probe harmed).2]
    exact .probe (h.probe harmed).1
  | retransmit hexcl hq => exact .retransmit (h.queue hexcl).1 ((h.queue hexcl).2 ▸ hq)
  | connect hst =>
    rw [h.wait]
    exact .connect (h.state ▸ hst)
  | timeWait hst =>
    rw [h.wait]
    exact .timeWait (h.state ▸ hst)

lemma Timely.disarm (h : Timely c) (h' : Disarms c c') : Timely c' := fun hclosed d hd =>
  BitVec.le_trans h'.next (h (h'.state ▸ hclosed) d (h'.armed hd))

lemma Timely.congr (h : Timely c) (hst : c'.state = c.state) (htmr : c'.tmr = c.tmr)
    (hq : c'.tx.exclusive ∨ c'.tx.exclusive = c.tx.exclusive ∧ c'.tx.q = c.tx.q) : Timely c' := by
  refine h.disarm ⟨hst, htmr ▸ BitVec.le_refl _, htmr ▸ fun h => ⟨h, rfl⟩, htmr ▸ fun h => ⟨h, rfl⟩,
    htmr ▸ rfl, fun hexcl => ?_⟩
  obtain hexcl' | ⟨hexcl', hq⟩ := hq
  · simp [hexcl] at hexcl'
  · exact ⟨hexcl' ▸ hexcl, hq ▸ rfl⟩

/-! ## Ingress -/

lemma timely_rxDone (o : RxOut) : Timely (rxDone now o).c := by
  have hupd := timely_tcpTimerUpdate now o.c
  unfold rxDone
  split
  · exact hupd.disarm ⟨rfl, BitVec.le_refl _, by simp, fun h => ⟨h, rfl⟩, rfl, fun h => ⟨h, rfl⟩⟩
  · exact hupd

lemma timely_tcpRxConnSlow (h : tcpRxConnSlow dbg env c r = .ok o) : Timely o.c := by
  obtain ⟨o', -, rfl⟩ := map_eq_ok h
  exact timely_rxDone env.now o'

def HeadFirst (q : List Mbuf) : Prop :=
  ∀ head ∈ q.head?, ∀ m ∈ q, head.timestamp + tcpRetransmitTimeout ≤ m.timestamp + tcpRetransmitTimeout
deriving Decidable

lemma timely_tcpConnAck (h : Timely c) (hq : c.tx.exclusive ∨ HeadFirst c.tx.q) : Timely (tcpConnAck c) := by
  unfold tcpConnAck
  split
  · exact h
  rename_i hexcl
  have hq := hq.resolve_left hexcl
  intro hclosed d hd
  cases hd with
  | ack harmed => exact h hclosed _ (.ack harmed)
  | probe harmed => exact h hclosed _ (.probe harmed)
  | @retransmit m hexcl hhead =>
    -- the new head was in the queue before
    have hm : m ∈ c.tx.q := (List.dropWhile_sublist _).mem (List.mem_of_head? hhead)
    obtain ⟨head, hhead'⟩ := Option.isSome_iff_exists.1 (List.isSome_head?.mpr (List.ne_nil_of_mem hm))
    exact BitVec.le_trans (h hclosed _ (.retransmit hexcl hhead')) (hq head hhead' m hm)
  | connect hst => exact h hclosed _ (.connect hst)
  | timeWait hst => exact h hclosed _ (.timeWait hst)

lemma timely_fastAck (seq ack win : Seq) (h : Timely c)
    (hq : c.tx.exclusive ∨ HeadFirst c.tx.q) : Timely (fastAck c seq ack win) := by
  have hacked : Timely (tcpConnAck { c with tmr.repAcks := 0, snd.una := ack }) := by
    refine timely_tcpConnAck (h.disarm ?_) hq
    exact ⟨rfl, BitVec.le_refl _, fun h => ⟨h, rfl⟩, fun h => ⟨h, rfl⟩, rfl, fun h => ⟨h, rfl⟩⟩
  unfold fastAck
  split
  · have h1 : Timely (if c.snd.una != ack then
        tcpConnAck { c with tmr.repAcks := 0, snd.una := ack } else c) := by
      split
      · exact hacked
      · exact h
    dsimp only
    generalize (if c.snd.una != ack then
      tcpConnAck { c with tmr.repAcks := 0, snd.una := ack } else c) = c1 at h1 ⊢
    split
    · refine h1.disarm ?_
      exact ⟨rfl, BitVec.le_refl _, fun h => ⟨h, rfl⟩, fun h => ⟨h, rfl⟩, rfl, fun h => ⟨h, rfl⟩⟩
    · exact h1
  · exact h

lemma timely_fastDelayAck (h : Timely c) : Timely (fastDelayAck now c).1 := by
  unfold fastDelayAck
  dsimp only
  split
  · exact h.disarm ⟨rfl, BitVec.le_refl _, by simp, fun h => ⟨h, rfl⟩, rfl, fun h => ⟨h, rfl⟩⟩
  split
  · have hleft := minTime_le_left c.tmr.nextTimeout (now + tcpAckTimeout)
    have hright := minTime_le_right c.tmr.nextTimeout (now + tcpAckTimeout)
    intro hclosed d hd
    dsimp only at hclosed ⊢
    cases hd with
    | ack harmed => exact hright
    | probe harmed => exact BitVec.le_trans hleft (h hclosed _ (.probe harmed))
    | retransmit hexcl hq => exact BitVec.le_trans hleft (h hclosed _ (.retransmit hexcl hq))
    | connect hst => exact BitVec.le_trans hleft (h hclosed _ (.connect hst))
    | timeWait hst => exact BitVec.le_trans hleft (h hclosed _ (.timeWait hst))
  · exact h.disarm ⟨rfl, BitVec.le_refl _, fun h => ⟨h, rfl⟩, fun h => ⟨h, rfl⟩, rfl, fun h => ⟨h, rfl⟩⟩

lemma timely_tcpRxConnFast (r : RxSeg) (h : Timely c)
    (hq : c.tx.exclusive ∨ HeadFirst c.tx.q) : Timely (tcpRxConnFast now c r).c := by
  have h1 := timely_fastAck r.m.segSeq r.ack r.win h hq
  have h2 : Timely { fastAck c r.m.segSeq r.ack r.win with
      rcv.nxt := r.m.segEnd, rcv.wnd := (fastAck c r.m.segSeq r.ack r.win).rcv.wnd - r.len } :=
    h1.congr rfl rfl (.inr ⟨rfl, rfl⟩)
  have h3 := timely_fastDelayAck now h2
  unfold tcpRxConnFast
  dsimp only
  generalize fastDelayAck now _ = x at h3 ⊢
  exact h3.congr rfl rfl (.inr ⟨rfl, rfl⟩)

lemma timely_tcpRxConnLocked (h : Timely c) (hq : slowPath c r ∨ c.tx.exclusive ∨
    HeadFirst c.tx.q) (ho : tcpRxConnLocked dbg env c r = .ok o) : Timely o.c := by
  unfold tcpRxConnLocked at ho
  split at ho
  · exact timely_tcpRxConnSlow ho
  · rename_i hslow
    cases ho
    exact timely_tcpRxConnFast env.now r h (hq.resolve_left hslow)

/-! ## Closing -/

/-- The FIN is queued behind something else, or the timer is updated for it. -/
def FinTimed (env : Env) (c : Conn) : Prop := env.alloc = false ∨ c.state = .closed ∨ c.tx.q ≠ [] ∨
    env.tx = none ∧ (c.state = .established ∨ c.state = .closeWait)
deriving Decidable

lemma timely_tcpTxCtl {flags : Flags} {opts : Option TcpOptions} (h : Timely c)
    (hq : env.alloc = false ∨ c.state = .closed ∨ c.tx.q ≠ []) : Timely (tcpTxCtl env c flags opts).1 := by
  unfold tcpTxCtl
  split
  · rename_i halloc
    rcases hq with hno | hclosed | hq
    · simp [halloc] at hno
    · exact .closed hclosed
    · refine h.disarm ⟨rfl, BitVec.le_refl _, fun h => ⟨h, rfl⟩, fun h => ⟨h, rfl⟩, rfl, fun h => ⟨h, ?_⟩⟩
      exact List.head?_append_of_ne_nil _ hq
  · exact h

lemma timely_tcpConnSetState (st : State) (c : Conn) :
    Timely (tcpConnSetState now st c) := timely_tcpTimerUpdate now _

lemma timely_tcpConnShutdownTx (h : Timely c) (hfin : FinTimed env c) : Timely (tcpConnShutdownTx env c).1 := by
  have hst : (tcpTxCtl env c (tcpFin ||| tcpAck) none).1.state = c.state := by
    unfold tcpTxCtl
    split <;> rfl
  have hctl : Timely (tcpTxCtl env c (tcpFin ||| tcpAck) none).1 ∨ env.alloc ∧ env.tx = none ∧
      (c.state = .established ∨ c.state = .closeWait) := by
    by_cases halloc : env.alloc = false
    · exact .inl (timely_tcpTxCtl h (.inl halloc))
    · rcases hfin.resolve_left halloc with hclosed | hq | hnone
      · exact .inl (timely_tcpTxCtl h (.inr (.inl hclosed)))
      · exact .inl (timely_tcpTxCtl h (.inr (.inr hq)))
      · exact .inr ⟨by simpa using halloc, hnone⟩
  unfold tcpConnShutdownTx
  generalize hret : tcpTxCtl env c (tcpFin ||| tcpAck) none = x at hst hctl
  obtain ⟨c1, ret⟩ := x
  have hretry : ret ≠ none → Timely c1 := by
    intro hne
    obtain hctl | ⟨halloc, htx, -⟩ := hctl
    · exact hctl
    · simp only [tcpTxCtl, halloc, if_true, htx] at hret
      cases hret
      exact absurd rfl hne
  cases ret with
  | some err => exact hretry (by simp)
  | none =>
    have hset : Timely (if c1.state = .established then tcpConnSetState env.now .finWait1 c1
        else if c1.state = .closeWait then tcpConnSetState env.now .lastAck c1 else c1) := by
      split
      · exact timely_tcpConnSetState env.now .finWait1 c1
      split
      · exact timely_tcpConnSetState env.now .lastAck c1
      · rename_i hest hcw
        obtain hctl | ⟨-, -, hst'⟩ := hctl
        · exact hctl
        · rw [← hst] at hst'
          exact absurd hst' (not_or.2 ⟨hest, hcw⟩)
    exact hset.congr rfl rfl (.inr ⟨rfl, rfl⟩)

/-! ## Runs -/

def TimerOk (s : Sys) (e : Event) : Prop := (∀ env ∈ finEnv s e, FinTimed env s.c) ∧
  ∀ r ∈ s.turn e, slowPath s.c r = true ∨ s.c.tx.exclusive = true ∨ HeadFirst s.c.tx.q
deriving Decidable

/-- A step leaves `next_timeout` below what is armed. -/
lemma timely_step (hi : Timely s.c) (hexcl : s.c.tx.exclusive = s.writer.isSome)
    (hfresh : s.owner.fresh → s.c.state = .closed) (hok : TimerOk s e)
    (h : step dbg s e = .ok s') : Timely s'.c := by
  obtain ⟨hfin, hseg⟩ := hok
  cases stepped h with
  | idle | load | readClosed | sleeping | rtClosed | owned => exact hi
  | acked | probed | reading | readDone | closedRx | closed | released | workerPut | rtPut | discarded =>
    exact hi.congr rfl rfl (.inr ⟨rfl, rfl⟩)
  | ingress hr ho => exact timely_tcpRxConnLocked hi (hseg _ hr) ho
  | armed _ hnext =>
    rcases hnext with rfl | hnext
    · exact hi
    · exact .updated _ hnext
  | writeClosed => exact hi.disarm ⟨rfl, BitVec.le_refl _, fun h => ⟨h, rfl⟩, nofun, rfl, fun h => ⟨h, rfl⟩⟩
  | writing => exact hi.disarm ⟨rfl, BitVec.le_refl _, nofun, nofun, rfl, nofun⟩
  | sent hw | resent hw =>
    -- the queue belongs to the writer
    have hbusy : s.c.tx.exclusive := by rw [hexcl, hw]; rfl
    exact hi.congr rfl rfl (.inl hbusy)
  | @finished now _ _ _ _ _ _ hc =>
    have hfinish : Timely (tcpWriteFinish now s.c).1 := timely_tcpTimerUpdate now _
    rwa [hc] at hfinish
  | shutdown _ he htx | close _ he htx =>
    have hshut := timely_tcpConnShutdownTx hi (hfin _ he)
    rw [htx] at hshut
    exact hshut.congr rfl rfl (.inr ⟨rfl, rfl⟩)
  | closeFailed | failed => exact .closed (by rw [tcpConnFail_eq])
  | expired => exact .closed rfl
  | timed _ hnext | opened _ _ hnext => exact .updated _ hnext
  | resending => exact hi.congr rfl rfl (.inl rfl)
  | openFailed ho => exact .closed (hfresh ho.spec.1)

/-- The test with which `tcp_worker` picks the connections it looks at. -/
def tcpWorkerDue (c : Conn) : Bool := c.tmr.nextTimeout ≤ now

structure Timed (s : Sys) : Prop where
  exclusive : s.c.tx.exclusive = s.writer.isSome
  fresh : s.owner.fresh = true → s.c.state = .closed
  timely : Timely s.c

lemma timed_initial (h : Initial s) : Timed s := by
  obtain ⟨_, _, _, _, _, _, _, _, _, -, -, -, rfl⟩ := initial_eq h
  exact ⟨rfl, fun _ => rfl, .closed rfl⟩

lemma Timed.step (hi : Timed s) (hok : TimerOk s e) (h : step dbg s e = .ok s') : Timed s' :=
  ⟨exclusive_step h hi.exclusive, fresh_closed_step h hi.fresh, timely_step hi.timely hi.exclusive hi.fresh hok h⟩

/-- If the two paths without an update leave the earliest deadline alone, `next_timeout` is no later than anything
that is armed, and the worker looks at every connection on which something is due. -/
theorem timer_covers (h : Reaches (step dbg) TimerOk Initial s) (hst : s.c.state ≠ .closed) {d : Time}
    (hd : Armed s.c d) : s.c.tmr.nextTimeout ≤ d ∧ ∀ now, d ≤ now → tcpWorkerDue now s.c = true := by
  have hi : Timed s := h.invariant (fun _ => timed_initial) fun _ _ _ hi hok => hi.step hok
  have hle := hi.timely hst d hd
  exact ⟨hle, fun now hnow => decide_eq_true (BitVec.le_trans hle hnow)⟩

theorem timer_covers_fin : ∃ s d, Reaches (step false) TimerOk Initial s ∧ s.c.state ≠ .closed ∧
    Armed s.c d ∧ s.c.tmr.nextTimeout ≤ d ∧ ∀ now, d ≤ now → tcpWorkerDue now s.c = true := by
  obtain ⟨s, hs, hst, hexcl, m, hm⟩ : ∃ s, Reaches (step false) TimerOk Initial s ∧
      s.c.state ≠ .closed ∧ s.c.tx.exclusive = false ∧ ∃ m, s.c.tx.q.head? = some m := by
    obtain ⟨s, hs, hst, hexcl, hq⟩ : ∃ s, Reaches (step false) TimerOk Initial s ∧
        s.c.state ≠ .closed ∧ s.c.tx.exclusive = false ∧ s.c.tx.q.head?.isSome := by
      refine Reaches.of_exec (handshake 1000 ++ [.shutdown true false {}]) (initial_dialed 1500) ?_ ?_
      · decide
      · decide
    exact ⟨s, hs, hst, hexcl, Option.isSome_iff_exists.1 hq⟩
  have hd : Armed s.c (m.timestamp + tcpRetransmitTimeout) := .retransmit hexcl hm
  exact ⟨s, _, hs, hst, hd, timer_covers hs hst hd⟩

/-- An idle connection is shut down while the link is out of memory: the FIN waits for a retransmission
that nobody will start. -/
theorem fin_without_timer : ∃ s d, Reaches (step false) (fun _ _ => True) Initial s ∧
    s.c.state = .established ∧ Armed s.c d ∧ d < s.c.tmr.nextTimeout ∧
    s.c.tmr.nextTimeout = BitVec.allOnes 64 := by
  obtain ⟨s, hs, hst, hnext, hexcl, hq⟩ : ∃ s, Reaches (step false) (fun _ _ => True) Initial s ∧
      s.c.state = .established ∧ s.c.tmr.nextTimeout = BitVec.allOnes 64 ∧
      s.c.tx.exclusive = false ∧ s.c.tx.q.head?.map Mbuf.timestamp = some 0 := by
    refine Reaches.of_exec (handshake 1000 ++ [.shutdown true false { tx := some .enomem }])
      (initial_dialed 1500) (allowed_true _ _) ?_
    decide
  obtain ⟨m, hm, hzero⟩ := Option.map_eq_some_iff.1 hq
  refine ⟨s, _, hs, hst, .retransmit hexcl hm, ?_, hnext⟩
  rw [hzero, hnext]
  decide

end Aspen.Tcp
