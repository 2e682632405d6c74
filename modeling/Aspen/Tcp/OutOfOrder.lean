import Aspen.Tcp.Receiving

/-!
# The out-of-order queue

`tcp_rx_text` keeps the queue sorted by `seg_end`, and its loop stops at the first segment that starts
beyond `rcv_nxt`. So nothing is left behind as long as the starts are in the same order as the ends
(`outOfOrder_queue`). A segment that reaches over one that is queued already goes in behind it and breaks
this (`outOfOrder_left_behind`).
-/

namespace Aspen.Tcp

open Serial Run

variable {dbg : Bool} {c c' : Conn} {m : Mbuf} {fin : Bool} {s s' : Sys} {e : Event} {n : ℕ} {q : List Mbuf}

structure Ordered (n : ℕ) (q : List Mbuf) : Prop where
  len : n = q.length
  le : n ≤ tcpOooMaxSize
  starts : q.Pairwise fun a b => wrapsLte a.segSeq b.segSeq = true

lemma Ordered.tail {pos : Mbuf} (h : Ordered n (pos :: q)) : Ordered (n - 1) q :=
  ⟨by simp [h.len], (Nat.sub_le n 1).trans h.le, h.starts.of_cons⟩

lemma Drains.ordered {a b : Draining} (h : Drains a b) (ho : Ordered a.c.rx.oooLen a.q) :
    Ordered b.c.rx.oooLen b.q := by
  induction h with
  | refl => exact ho
  | tail _ hs ih =>
    cases hs with
    | skip | append => exact ih.tail

/-- The segment is in order, or it starts behind every queued one that ends before it. -/
def Aligned (c : Conn) (m : Mbuf) : Prop := wrapsLte m.segSeq c.rcv.nxt = true ∨
    ∀ p ∈ c.rx.ooo, wrapsGt m.segEnd p.segEnd = true → wrapsLte p.segSeq m.segSeq = true
deriving Decidable

lemma TextMove.ordered (h : TextMove c m c' fin) (hq : QueueOk c c.rx.ooo) (hm : Acceptable c m)
    (ho : Ordered c.rx.oooLen c.rx.ooo) (halign : Aligned c m) : Ordered c'.rx.oooLen c'.rx.ooo := by
  cases h with
  | drained hs hd hw => exact Drains.ordered hd ho
  | queued hstart hroom hins =>
    obtain ⟨front, back, hooo, hl, hlast, hback⟩ := oooInsert_split hins
    obtain ⟨hlen, -, hstarts⟩ := ho
    have hfront := halign.resolve_left (by rw [wrapsLte_iff]; omega)
    rw [hooo] at hq hlen hstarts hfront
    rw [hl]
    refine ⟨by simp [hlen, Nat.add_assoc], hroom, pairwise_insert hstarts (fun x hx => ?_) fun x hx => ?_⟩
    · have hmem := List.mem_append_left back hx
      exact hfront x hmem ((hq.reach.wrapsGt_iff hmem hm.stop hm.stop_le).2
        (hq.front_ends hm.stop hm.stop_le hlast hx))
    · exact wrapsLte_of_not_wrapsGte (hback x hx).2

/-- What a turn of the receiver asks of a segment that is acceptable. -/
def TextAligned (s : Sys) (e : Event) : Prop := ∀ r ∈ s.turn e, isAcceptable s.c (segLen r.m) r.m.segSeq = true →
    Aligned s.c (textSeg r.m)
deriving Decidable

lemma ordered_step (hi : RecvInv s) (ho : s.c.err = none → Ordered s.c.rx.oooLen s.c.rx.ooo)
    (halign : TextAligned s e) (h : step dbg s e = .ok s') (herr : s'.c.err = none) :
    Ordered s'.c.rx.oooLen s'.c.rx.ooo := by
  have ho := ho (step_err h herr)
  cases stepped h with
  | @ingress _ _ r o hr hout =>
    show Ordered o.c.rx.oooLen o.c.rx.ooo
    cases (tcpRxConnLocked_move hout).recv hi.ok.queue with
    | keep hsame => exact hsame.2 ▸ ho
    | failed herr' => exact absurd herr herr'
    | syn _ _ _ _ _ hrx => exact hrx ▸ ho
    | @text c1 _ _ _ hacc h1 _ hm htext h2 =>
      have hq : QueueOk c1 c1.rx.ooo := h1.2 ▸ hi.ok.queue.of_rcv h1.1
      have hr' : Aligned c1 (textSeg r.m) := by
        unfold Aligned
        rw [h1.1, h1.2]
        exact halign r hr hacc
      rw [h2.2]
      exact htext.ordered hq hm (h1.2 ▸ ho) hr'
  | closeFailed | failed => exact absurd herr (tcpConnFail_recv _ _ _).2.2
  | _ => exact ho

lemma ordered_initial (h : Initial s) : Ordered s.c.rx.oooLen s.c.rx.ooo := by
  obtain ⟨_, _, _, _, _, _, _, _, _, -, -, -, rfl⟩ := initial_eq h
  exact ⟨rfl, Nat.zero_le _, .nil⟩

/-- In every run in which no segment that is queued reaches over another one, unless the connection has failed: the
counter is the length of the queue, it is sorted by `seg_end`, and everything in it starts beyond `rcv_nxt`. -/
theorem outOfOrder_queue (h : Reaches (step dbg) TextAligned Initial s) (herr : s.c.err = none) :
    s.c.rx.oooLen = s.c.rx.ooo.length ∧ s.c.rx.oooLen ≤ tcpOooMaxSize ∧
    (s.c.rx.ooo.Pairwise fun a b => wrapsLte a.segEnd b.segEnd = true) ∧
    ∀ m ∈ s.c.rx.ooo, wrapsGt m.segSeq s.c.rcv.nxt = true := by
  obtain ⟨hrecv, ho⟩ :=
    h.invariant (I := fun s => RecvInv s ∧ (s.c.err = none → Ordered s.c.rx.oooLen s.c.rx.ooo))
      (fun _ hs => ⟨recvInv_initial hs, fun _ => ordered_initial hs⟩)
      fun _ _ _ hi hok hs => ⟨hi.1.step hs, ordered_step hi.1 hi.2 hok hs⟩
  obtain ⟨hlen, hle, hstarts⟩ := ho herr
  have hq := hrecv.ok.queue
  have hwnd := hq.reach.wnd_le
  have hreach : ∀ m ∈ s.c.rx.ooo, 0 < sdist m.segEnd s.c.rcv.nxt ∧ sdist m.segEnd s.c.rcv.nxt ≤ 196607 :=
    fun m hm => ⟨hq.ends_ahead hm, by have := hq.reach.upper m hm; omega⟩
  refine ⟨hlen, hle, hq.sorted.imp_of_mem fun {a b} ha hb hab => ?_, fun m hm => ?_⟩
  · have ha := hreach a ha
    have hb := hreach b hb
    rw [wrapsLte_iff, sdist_rebase s.c.rcv.nxt (by omega) (by omega)]
    omega
  · have hstart : ∀ m ∈ s.c.rx.ooo, -65536 ≤ sdist m.segSeq s.c.rcv.nxt ∧ sdist m.segSeq s.c.rcv.nxt ≤ 196607 := by
      intro m hm
      have hend := hreach m hm
      have hwidth := (hq.reach.wf m hm).width_le
      rw [(hq.reach.wf m hm).sdist_segSeq (by omega)]
      omega
    have hpos : 0 < sdist m.segSeq s.c.rcv.nxt := by
      -- the head is beyond the next number, and all the others start no earlier
      cases hooo : s.c.rx.ooo with
      | nil => simp [hooo] at hm
      | cons a q =>
        have ha := hq.waits a (by simp [hooo])
        rw [hooo] at hm hstarts hstart
        cases hm with
        | head => exact ha
        | tail _ hm' =>
          have hle := wrapsLte_iff.1 (List.rel_of_pairwise_cons hstarts hm')
          have h1 := hstart a (.head _)
          have h2 := hstart m (.tail _ hm')
          rw [sdist_rebase s.c.rcv.nxt (by omega) (by omega)] at hle
          omega
    rw [wrapsGt_iff, sdist_swap (by omega)]
    omega

theorem outOfOrder_queue_two : ∃ s, Reaches (step false) TextAligned Initial s ∧ s.c.rx.ooo.length = 2 ∧
    s.c.rx.oooLen = 2 ∧ ∀ m ∈ s.c.rx.ooo, wrapsGt m.segSeq s.c.rcv.nxt = true := by
  refine Reaches.of_exec_imp (P := fun s => s.c.err = none ∧ s.c.rx.ooo.length = 2)
    (handshake 1000 ++ arrives (.plain 5004 1001 tcpAck 1000 [7] (by decide)) ++
    arrives (.plain 5002 1001 tcpAck 1000 [7, 7] (by decide))) (initial_dialed 1500) ?_ ?_ ?_
  · decide
  · decide
  rintro s hs ⟨herr, htwo⟩
  obtain ⟨hlen, -, -, hahead⟩ := outOfOrder_queue hs herr
  exact ⟨htwo, hlen.trans htwo, hahead⟩

/-- Number 5004 is queued, then 5003 to 5005, which goes in behind it. When 5001 and 5002 arrive the loop stops at
5004, and 5003 stays in the queue. -/
theorem outOfOrder_left_behind : ∃ s, Reaches (step false) (fun _ _ => True) Initial s ∧ s.c.err = none ∧
    s.c.rx.ooo.length = 2 ∧ ∃ m ∈ s.c.rx.ooo, m.segSeq = s.c.rcv.nxt ∧ m.segEnd = s.c.rcv.nxt + 3 := by
  refine Reaches.of_exec (handshake 1000 ++ arrives (.plain 5004 1001 tcpAck 1000 [7] (by decide)) ++
    arrives (.plain 5003 1001 tcpAck 1000 [7, 7, 7] (by decide)) ++
    arrives (.plain 5001 1001 tcpAck 1000 [7, 7] (by decide))) (initial_dialed 1500) (allowed_true _ _) ?_
  decide

end Aspen.Tcp
