import Aspen.Tcp.Receiving

/-!
# Clipping

Can a segment make `mbuf_pull` or `mbuf_trim` ask for more bytes than there are? The head of a segment is always
clipped safely, and so is the tail, with one exception: a FIN that waits in the out-of-order queue and reaches
beyond the window is trimmed by one byte too many, and if the segments in front of it have filled the window it
has no byte left to give (`clip_fin_faults`). Otherwise the checks hold in every run (`clip_safe`).
-/

namespace Aspen.Tcp

open Serial Run List

variable {dbg : Bool} {env : Env} {c : Conn} {m : Mbuf} {r : RxSeg} {f : Fault}

/-! ## Which numbers were received -/

def Covers (m : Mbuf) (x : Seq) : Prop := (x - m.segSeq).toNat < width m

lemma Straddles.covers (h : Straddles c m) {k : ℕ} (hk : k < ahead c m) :
    Covers m (c.rcv.nxt + BitVec.ofNat 32 k) := by
  have hsum := h.behind_add_ahead
  have hsub : c.rcv.nxt + BitVec.ofNat 32 k - m.segSeq = (c.rcv.nxt - m.segSeq) + BitVec.ofNat 32 k := by ring
  have hbehind : (c.rcv.nxt - m.segSeq).toNat = behind c m := rfl
  rw [Covers, hsub, BitVec.toNat_add, hbehind, BitVec.toNat_ofNat]
  omega

variable {a b d : Draining}

/-- Rounds of the loop take numbers off the window, and every one of them belongs to a segment that has
left the queue. -/
lemma Drains.progress (h : Drains a b) : ∃ l n, a.q = l ++ b.q ∧ b.c.rcv.nxt = a.c.rcv.nxt + BitVec.ofNat 32 n ∧
    b.c.rcv.wnd.toNat + n = a.c.rcv.wnd.toNat ∧
    ∀ k < n, ∃ p ∈ l, Covers p (a.c.rcv.nxt + BitVec.ofNat 32 k) := by
  induction h with
  | refl => exact ⟨[], 0, rfl, by simp, rfl, by simp⟩
  | tail _ hs ih =>
    obtain ⟨l, n, hq, hnxt, hwnd, hcov⟩ := ih
    cases hs with
    | @skip pos q _ _ hend =>
      refine ⟨l ++ [pos], n, by simp [hq], hnxt, hwnd, ?_⟩
      intro k hk
      obtain ⟨p, hp, hx⟩ := hcov k hk
      exact ⟨p, by simp [hp], hx⟩
    | @append pos q c1 _ hstr hfin =>
      dsimp only at hq hnxt hwnd
      have hle := taken_le c1 pos
      refine ⟨l ++ [pos], n + taken c1 pos, by simp [hq], ?_, ?_, ?_⟩
      · rw [enqueueText_clipped_nxt, hnxt, BitVec.ofNat_add, add_assoc]
      · rw [enqueueText_clipped_wnd]
        omega
      · intro k hk
        by_cases hk' : k < n
        · obtain ⟨p, hp, hx⟩ := hcov k hk'
          exact ⟨p, by simp [hp], hx⟩
        · refine ⟨pos, by simp, ?_⟩
          have hahead : taken c1 pos ≤ ahead c1 pos := min_le_left _ _
          have hx := hstr.covers (k := k - n) (by omega)
          rw [hnxt, add_assoc, ← BitVec.ofNat_add] at hx
          rwa [Nat.add_sub_cancel' (by omega)] at hx

lemma Straddles.progress {fin : Bool} {q : List Mbuf} (hs : Straddles c m)
    (hd : Drains ⟨q, enqueueText c (clipped c m), fin⟩ d) : ∃ l n, q = l ++ d.q ∧
    d.c.rcv.nxt = c.rcv.nxt + BitVec.ofNat 32 n ∧ d.c.rcv.wnd.toNat + n = c.rcv.wnd.toNat ∧
    ∀ k < n, Covers m (c.rcv.nxt + BitVec.ofNat 32 k) ∨
      ∃ p ∈ l, Covers p (c.rcv.nxt + BitVec.ofNat 32 k) := by
  obtain ⟨l, n, hq, hnxt, hwnd, hcov⟩ := hd.progress
  have hle := taken_le c m
  have hahead : taken c m ≤ ahead c m := min_le_left _ _
  rw [enqueueText_clipped_wnd] at hwnd
  refine ⟨l, taken c m + n, hq, ?_, by omega, ?_⟩
  · rw [hnxt, enqueueText_clipped_nxt, BitVec.ofNat_add, add_assoc]
  · intro k hk
    by_cases hk' : k < taken c m
    · exact .inl (hs.covers (by omega))
    · obtain ⟨p, hp, hx⟩ := hcov (k - taken c m) (by omega)
      rw [enqueueText_clipped_nxt, add_assoc, ← BitVec.ofNat_add] at hx
      rw [Nat.add_sub_cancel' (by omega)] at hx
      exact .inr ⟨p, hp, hx⟩

lemma DrainStep.head {d' : Draining} (h : DrainStep d d') : ∃ pos, d.q = pos :: d'.q := by
  cases h with
  | @skip pos _ _ _ hend | @append pos _ _ _ hstr hfin => exact ⟨pos, rfl⟩

lemma Drains.passed (h : Drains a b) {l1 l2 : List Mbuf} {p : Mbuf} (hq : a.q = l1 ++ p :: (l2 ++ b.q)) :
    ∃ d d', Drains a d ∧ DrainStep d d' ∧ d.q = p :: (l2 ++ b.q) := by
  induction h generalizing l2 with
  | refl => exact absurd (congrArg List.length hq) (by simp; omega)
  | @tail d d' hd hs ih =>
    obtain ⟨pos, hpos⟩ := hs.head
    -- `p` is the head the last round removed, or it was removed before
    obtain ⟨l, n, hl, -⟩ := Drains.progress hd
    have hcut : l ++ [pos] = l1 ++ p :: l2 := by
      apply (append_left_inj d'.q).1
      rw [append_assoc, append_assoc, singleton_append, ← hpos, ← hl, hq, cons_append]
    rcases eq_nil_or_concat l2 with rfl | ⟨l3, pos', rfl⟩
    · obtain ⟨-, heq⟩ := append_inj' hcut rfl
      cases heq
      exact ⟨d, d', hd, hs, hpos⟩
    · rw [concat_eq_append, ← cons_append, ← append_assoc] at hcut
      obtain ⟨hpre, heq⟩ := append_inj' hcut rfl
      cases heq
      have hrest : l3.concat pos ++ d'.q = l3 ++ d.q := by simp [hpos]
      rw [hrest]
      exact ih (by rw [hl, hpre]; simp)

/-- Behind `m` the loop does not get past the segments `l`: in front of one of them there is a number that belongs
neither to `m` nor to the ones before it. -/
def Blocks (c : Conn) (m : Mbuf) (l : List Mbuf) : Prop :=
  ∃ l₁ p l₂, l = l₁ ++ p :: l₂ ∧ ∃ k : ℕ, (k : ℤ) < sdist p.segSeq c.rcv.nxt ∧
    ¬ Covers m (c.rcv.nxt + BitVec.ofNat 32 k) ∧
    ∀ q ∈ l₁, ¬ Covers q (c.rcv.nxt + BitVec.ofNat 32 k)

lemma Straddles.not_blocks {fin : Bool} {q l : List Mbuf} (hs : Straddles c m)
    (hok : DrainOk c q) (hd : Drains ⟨q, enqueueText c (clipped c m), fin⟩ d) (hq : q = l ++ d.q) :
    ¬ Blocks c m l := by
  rintro ⟨l1, p, l2, rfl, k, hk, hm, hl1⟩
  rw [append_assoc, cons_append] at hq
  obtain ⟨d1, d2, hd1, hstep, hhead⟩ := hd.passed hq
  obtain ⟨l, n, hl, hnxt, hwnd, hcov⟩ := hs.progress hd1
  have hwnd_le := hok.wnd_le
  have hp : p ∈ q := by simp [hq]
  have hlower := hok.lower p hp
  have hstart : sdist p.segSeq c.rcv.nxt = sdist p.segEnd c.rcv.nxt - width p := by
    have := (hok.wf p hp).width_le
    exact (hok.wf p hp).sdist_segSeq (by omega)
  -- the round that removed `p` found it starting at or before the next expected number
  have hreached : sdist p.segSeq d1.c.rcv.nxt ≤ 0 := by
    cases hstep with
    | @skip pos _ c1 _ hend =>
      cases hhead
      dsimp only at hnxt hwnd ⊢
      have hmoved := sdist_moved (x := p.segEnd) (n := n) (by omega) (by omega : _ ≤ sdist _ c.rcv.nxt)
      have hmoved' := sdist_moved (x := p.segSeq) (n := n) (by omega) (by omega : _ ≤ sdist _ c.rcv.nxt)
      rw [← hnxt] at hmoved hmoved'
      omega
    | append hstr hfin =>
      cases hhead
      exact hstr.start
  rw [hnxt, sdist_moved (by omega) (by omega)] at hreached
  have hpre : l = l1 := by
    apply (append_left_inj d1.q).1
    rw [← hl, hhead, hq]
  subst hpre
  rcases hcov k (by omega) with hx | ⟨p', hp', hx⟩
  · exact hm hx
  · exact hl1 p' hp' hx

/-! ## Faults -/

/-- If a FIN that ends beyond the window waits behind the segments `l`, an in-order segment does not bring the loop to
it with the window closed: the loop ends within `l`, or not all the numbers of the window are there. -/
def ClipOk (s : Sys) (e : Event) : Prop := ∀ r ∈ s.turn e, isAcceptable s.c (segLen r.m) r.m.segSeq = true →
    wrapsLte r.m.segSeq s.c.rcv.nxt = true → ∀ l p l', s.c.rx.ooo = l ++ p :: l' →
      hasFlag p.flags tcpFin = true → s.c.rcv.wnd.toNat < (p.segEnd - s.c.rcv.nxt).toNat →
      Blocks s.c r.m l ∨ ∃ k < s.c.rcv.wnd.toNat, ¬ Covers r.m (s.c.rcv.nxt + BitVec.ofNat 32 k) ∧
        ∀ q ∈ l, ¬ Covers q (s.c.rcv.nxt + BitVec.ofNat 32 k)

lemma Straddles.no_hole {pos : Mbuf} {fin : Bool} {q : List Mbuf} (hs : Straddles c m) (hok : DrainOk c q)
    (hd : Drains ⟨q, enqueueText c (clipped c m), fin⟩ ⟨pos :: d.q, d.c, d.fin⟩)
    (hpos : Straddles d.c pos) (hclosed : d.c.rcv.wnd.toNat = 0) :
    ∃ l, q = l ++ pos :: d.q ∧ c.rcv.wnd.toNat < (pos.segEnd - c.rcv.nxt).toNat ∧
      ∀ k < c.rcv.wnd.toNat, Covers m (c.rcv.nxt + BitVec.ofNat 32 k) ∨
        ∃ p ∈ l, Covers p (c.rcv.nxt + BitVec.ofNat 32 k) := by
  obtain ⟨l, n, hq, hnxt, hwnd, hcov⟩ := hs.progress hd
  dsimp only at hq hnxt hwnd
  have hn : n = c.rcv.wnd.toNat := by omega
  subst hn
  refine ⟨l, hq, ?_, hcov⟩
  have hwnd_le := hok.wnd_le
  have hlower := hok.lower pos (by rw [hq]; simp)
  have hstop := hpos.stop
  rw [hnxt, sdist_moved hwnd_le (by omega)] at hstop
  have htoNat := toNat_sub_of_nonneg (by omega : 0 ≤ sdist pos.segEnd c.rcv.nxt)
  omega

/-- The checks of `tcp_rx_append_text`, and those of `mbuf_pull` and `mbuf_trim`. -/
def clipFaults : List Fault := [.bugPull, .bugTrim, .assertSegSeq, .assertSegEnd, .assertRcvWnd]

/-- In no run does a segment fail one of the checks while it does not bring the loop to a FIN that waits
beyond the closed window. -/
theorem clip_safe {s : Sys} {i : ℕ} (h : Reaches (step dbg) (fun _ _ => True) Initial s)
    (hok : ClipOk s (.rxLocked i env)) :
    ∀ f ∈ clipFaults, step dbg s (.rxLocked i env) ≠ .error (.fault f) := by
  intro f hmem hf
  have hinv := recvInv_of_reaches h
  simp only [step] at hf
  split at hf
  · cases hf
  rename_i r hr
  split at hf
  · rename_i f' hlocked
    cases hf
    obtain - | @⟨c1, _, htext, hacc, hlen, hrcv, hrx⟩ := tcpRxConnLocked_comes.of_error hlocked
    · exact absurd hmem (by decide)
    have hq1 : QueueOk c1 c1.rx.ooo := by
      rw [hrx]
      exact hinv.ok.queue.of_rcv hrcv
    have hm0 := acceptable_textSeg hinv.ok.wnd_le hlen hacc
    have hm : Acceptable c1 (textSeg r.m) := ⟨hm0.wf, hrcv ▸ hm0.wnd_pos, hrcv ▸ hm0.stop, hrcv ▸ hm0.stop_le⟩
    -- the loop has come to a FIN at a closed window, so it has taken all the numbers up to the edge
    have hout := htext ▸ tcpRxText_outcome dbg hq1 hm
    obtain - | - | @⟨pos, d, hs, hd, hpos, hfin, hclosed⟩ := hout
    obtain ⟨l, hq, hbeyond, hcov⟩ := hs.no_hole hq1.reach hd hpos hclosed
    rw [hrcv] at hbeyond hcov
    rw [hrx] at hq
    have hstart : wrapsLte r.m.segSeq s.c.rcv.nxt := by
      rw [wrapsLte_iff, ← hrcv]
      exact hs.start
    have hfin' : hasFlag pos.flags tcpFin := by
      unfold finLen at hfin
      split at hfin
      · assumption
      · cases hfin
    rcases hok r hr hacc hstart l pos d.q hq hfin' hbeyond with hblocks | ⟨k, hk, hhole, hholes⟩
    · have hsame : Blocks c1 (textSeg r.m) l := by
        unfold Blocks
        rw [hrcv]
        exact hblocks
      exact hs.not_blocks hq1.reach hd (by rw [hrx, hq]) hsame
    · rcases hcov k hk with hx | ⟨p, hp, hx⟩
      · exact hhole hx
      · exact hholes p hp hx
  · cases hf

theorem clip_safe_queued : ∃ s, Reaches (step true) (fun _ _ => True) Initial s ∧
    s.c.rx.ooo.length = 1 ∧ ClipOk s (.rxLocked 0 {}) ∧
    ∀ f ∈ clipFaults, step true s (.rxLocked 0 {}) ≠ .error (.fault f) := by
  refine Reaches.of_exec_imp (P := fun s =>
      s.c.rx.ooo.length = 1 ∧ ∀ p ∈ s.c.rx.ooo, (p.segEnd - s.c.rcv.nxt).toNat ≤ s.c.rcv.wnd.toNat)
    (handshake 1000 ++ arrives (.plain 5002 1001 (tcpFin ||| tcpAck) 1000 [7] (by decide)) ++
    [.rxLoad (.plain 5001 1001 tcpAck 1000 [7] (by decide))])
    (initial_dialed 1500) (allowed_true _ _) ?_ ?_
  · decide
  rintro s hs ⟨hlen, hin⟩
  have hok : ClipOk s (.rxLocked 0 {}) := by
    intro r hr hacc hstart l p l' hq hfin hbeyond
    have hle := hin p (by rw [hq]; simp)
    omega
  exact ⟨hlen, hok, clip_safe hs hok⟩

/-! ## A run that fills the window -/

lemma tcpRxConnLoad_plain (seq ack : Seq) (flags : Flags) (win : BitVec 16) {data : List UInt8}
    (h : data.length + 40 < 65536) (hmss : data.length ≤ c.rcv.mss.toNat) :
    ∃ r, tcpRxConnLoad c (.plain seq ack flags win data h) = some r ∧
      r.m = { data := data, segSeq := seq, segEnd := seq + BitVec.ofNat 32 data.length, flags := flags } ∧
      r.ack = ack ∧ r.sndNxt = c.snd.nxt ∧ r.win = win.setWidth 32 <<< c.snd.wscale ∧
      r.len = BitVec.ofNat 32 data.length := by
  have hhdr : (BitVec.setWidth 32 (5 : BitVec 4) * 4 : Seq) = 20 := rfl
  have hlen : (BitVec.ofNat 16 (data.length + 40)).setWidth 32 - 20 - 20 = BitVec.ofNat 32 data.length := by bv_omega
  cases hload : tcpRxConnLoad c (.plain seq ack flags win data h) with
  | none =>
    exfalso
    simp only [tcpRxConnLoad, Packet.plain, hhdr, hlen] at hload
    split at hload
    · rename_i hlt
      simp at hlt
    split at hload
    · bv_omega
    · cases hload
  | some r =>
    refine ⟨r, rfl, ?_⟩
    simp only [tcpRxConnLoad, Packet.plain, hhdr, hlen] at hload
    split at hload
    · cases hload
    split at hload
    · cases hload
    · cases hload
      simp

/-- The connection of `handshake 1000`, after `n` bytes that nobody has read and with the segments `q`
waiting out of order. -/
structure Streaming (s : Sys) (n : ℕ) (q : List Mbuf) : Prop where
  state : s.c.state = .established
  una : s.c.snd.una = 1001
  sndNxt : s.c.snd.nxt = 1001
  sndWnd : s.c.snd.wnd = 1000
  wscale : s.c.snd.wscale = 0
  mss : s.c.rcv.mss = 1460
  irs : s.c.rcv.irs = 5000
  nxt : s.c.rcv.nxt = 5001 + BitVec.ofNat 32 n
  wnd : s.c.rcv.wnd = BitVec.ofNat 32 (65535 - n)
  ooo : s.c.rx.ooo = q
  oooLen : s.c.rx.oooLen = q.length
  inflight : s.inflight = []
  length : (payload s.c.rx.log).length = n
  numbers : received s.c.rx.log = n

structure Loaded (r : RxSeg) (seq : Seq) (flags : Flags) (data : List UInt8) : Prop where
  m : r.m = { data := data, segSeq := seq, segEnd := seq + BitVec.ofNat 32 data.length, flags := flags }
  ack : r.ack = 1001
  sndNxt : r.sndNxt = 1001
  win : r.win = 1000
  len : r.len = BitVec.ofNat 32 data.length

variable {s : Sys} {n : ℕ} {q : List Mbuf} {data : List UInt8} {flags : Flags}

lemma Streaming.load (hs : Streaming s n q) (dbg : Bool) (seq : Seq) (flags : Flags)
    (data : List UInt8) (hlen : data.length ≤ 1460) :
    ∃ p r, step dbg s (.rxLoad p) = .ok { s with inflight := [r] } ∧ Loaded r seq flags data := by
  have hsmall : data.length + 40 < 65536 := by omega
  obtain ⟨r, hload, hm, hack, hnxt, hwin, hrlen⟩ := tcpRxConnLoad_plain (c := s.c) seq 1001 flags 1000
    hsmall (by rw [hs.mss]; exact hlen)
  refine ⟨.plain seq 1001 flags 1000 data hsmall, r, ?_, hm, hack, by rw [hnxt, hs.sndNxt], ?_, hrlen⟩
  · simp only [step, hload, hs.inflight, nil_append]
  · rw [hwin, hs.wscale]
    rfl

lemma Streaming.acked_eq (hs : Streaming s n q) {seq : Seq} {r : RxSeg} (hr : Loaded r seq flags data)
    (u : Bool) : (acked s.c r u).snd.una = 1001 ∧ (acked s.c r u).snd.wnd = 1000 := by
  have hwin : inSndWindow s.c r := by
    simp [inSndWindow, hs.una, hr.ack, hr.sndNxt]
  simp [acked, ackedUna, hwin, hr.ack, hr.win, hs.sndWnd]

lemma Streaming.arrive (hs : Streaming s n []) (dbg : Bool) {r : RxSeg}
    (hr : Loaded r s.c.rcv.nxt tcpAck data) (hpos : 0 < data.length) (hlen : data.length ≤ 1460)
    (hfit : n + data.length ≤ 65535) :
    ∃ s', step dbg { s with inflight := [r] } (.rxLocked 0 {}) = .ok s' ∧
      Streaming s' (n + data.length) [] ∧ s'.c.rx.log = s.c.rx.log ++ [r.m] := by
  have hwnd := hs.wnd
  have hfast : slowPath s.c r = false := by
    have hflags : hasFlag tcpAck tcpSlowpathFlags = false := by decide
    have hne : ¬ BitVec.ofNat 32 data.length = 0#32 := by bv_omega
    have hle : ¬ s.c.rcv.wnd < BitVec.ofNat 32 data.length := by bv_omega
    have hfull : tcpIsSndFull s.c = false := by
      rw [tcpIsSndFull, hs.una, hs.sndNxt, hs.sndWnd]
      decide
    have hgt : wrapsGt 1001#32 1001#32 = false := by decide
    simp [slowPath, hr.m, hr.len, hr.ack, hr.sndNxt, hs.state, hs.ooo, hfull, hflags, hne, hle, hgt]
  obtain ⟨t, ht⟩ := tcpRxConnFast_eq 0 hfast
  obtain ⟨huna, hsnd⟩ := hs.acked_eq hr (fastUpdates s.c r)
  have hstep : step dbg { s with inflight := [r] } (.rxLocked 0 {})
      = .ok (({ s with c := (tcpRxConnFast 0 s.c r).c, inflight := [] } : Sys).defer
        (tcpRxConnFast 0 s.c r).doAck (tcpRxConnFast 0 s.c r).retransmit.isSome) := by
    simp only [step, getElem?_cons_zero, tcpRxConnLocked, hfast, Bool.false_eq_true, if_false]
    rfl
  refine ⟨_, hstep, ?_, ?_⟩
  · have hspan : r.m.segEnd - r.m.segSeq = BitVec.ofNat 32 data.length := by
      rw [hr.m]
      ring
    refine ⟨?_, ?_, ?_, ?_, ?_, ?_, ?_, ?_, ?_, ?_, ?_, rfl, ?_, ?_⟩
    all_goals simp only [Sys.defer, ht, enqueueText, huna, hsnd]
    · exact hs.state
    · exact hs.sndNxt
    · exact hs.wscale
    · exact hs.mss
    · exact hs.irs
    · rw [hr.m, hs.nxt, BitVec.ofNat_add, add_assoc]
    · rw [hspan]
      change s.c.rcv.wnd - _ = _
      bv_omega
    · exact hs.ooo
    · exact hs.oooLen
    · change (payload (s.c.rx.log ++ [r.m])).length = _
      simp [hs.length, hr.m]
    · change received (s.c.rx.log ++ [r.m]) = _
      rw [received_append, hs.numbers, received_singleton, hspan, BitVec.toNat_ofNat]
      omega
  · simp only [Sys.defer, ht, enqueueText]
    rfl

lemma streaming_start {ok : Sys → Event → Prop}
    (ha : Allowed (step false) ok (dialed 1500) (handshake 1000)) :
    ∃ s, Reaches (step false) ok Initial s ∧ Streaming s 0 [] := by
  obtain ⟨s, hs, h1, h2, h3, h4, h5, h6, h7, h8, h9, h10, h11, h12⟩ :
      ∃ s, Reaches (step false) ok Initial s ∧ s.c.state = .established ∧ s.c.snd.una = 1001 ∧
        s.c.snd.nxt = 1001 ∧ s.c.snd.wnd = 1000 ∧ s.c.snd.wscale = 0 ∧ s.c.rcv.mss = 1460 ∧
        s.c.rcv.irs = 5000 ∧ s.c.rcv.nxt = 5001 ∧ s.c.rcv.wnd = 65535 ∧ s.inflight = [] ∧
        s.c.rx.ooo = [] ∧ s.c.rx.oooLen = 0 ∧ s.c.rx.log = [] := by
    refine Reaches.of_exec (handshake 1000) (initial_dialed 1500) ha ?_
    decide
  exact ⟨s, hs, h1, h2, h3, h4, h5, h6, h7, h8, h9, h11, h12.1, h10, by rw [h12.2]; rfl, by rw [h12.2]; rfl⟩

lemma streaming_fill {ok : Sys → Event → Prop} (hlen : data.length = 1460)
    (ha : Allowed (step false) ok (dialed 1500) (handshake 1000)) (hload : ∀ s p, ok s (.rxLoad p))
    (hok : ∀ s n r, Streaming s n [] → n + 1460 ≤ 65535 → Loaded r s.c.rcv.nxt tcpAck data →
      ok { s with inflight := [r] } (.rxLocked 0 {})) (k : ℕ) (hk : k * 1460 ≤ 65535) :
    ∃ s, Reaches (step false) ok Initial s ∧ Streaming s (k * 1460) [] := by
  induction k with
  | zero =>
    rw [Nat.zero_mul]
    exact streaming_start ha
  | succ k ih =>
    rw [Nat.succ_mul] at hk ⊢
    obtain ⟨s, hreach, hs⟩ := ih (le_trans (Nat.le_add_right _ _) hk)
    obtain ⟨p, r, hstep, hr⟩ := hs.load false s.c.rcv.nxt tcpAck data hlen.le
    obtain ⟨s', hstep', hs', -⟩ := hs.arrive false hr (by omega) hlen.le (by rw [hlen]; exact hk)
    rw [hlen] at hs'
    exact ⟨s', .snoc (.snoc hreach (hload s p) hstep) (hok s _ r hs hk hr) hstep', hs'⟩

lemma rxTextFin_used {c' : Conn} {fl : TextFlags} (now : Time) (rt : Option Mbuf)
    (hlen : 0 < segLen m) (hst : c.state.acceptsText)
    (htext : tcpRxText dbg c (textSeg m) = .ok (some (c', fl))) :
    ∃ o t, rxTextFin dbg now c m rt = .ok o ∧
      o.c = { c' with state := if fl.fin then finState c'.state else c'.state, tmr := t } := by
  obtain ⟨t, ht⟩ := rxDelayAck_spec now c'
  have htext' : tcpRxText dbg c { m with segEnd := m.segSeq + segLen m } = .ok (some (c', fl)) := htext
  unfold rxTextFin
  simp only [if_pos (And.intro hlen hst), htext']
  cases hfin : fl.fin with
  | false => exact ⟨_, t, rfl, by simp [ht]⟩
  | true =>
    obtain ⟨t', ht'⟩ := rxFin_spec now
      { c := (rxDelayAck now c').1, doAck := (rxDelayAck now c').2, doDrop := false, retransmit := rt }
    refine ⟨_, t', rfl, ?_⟩
    rw [if_pos rfl, ht', ht]
    rfl

lemma Streaming.slow (hs : Streaming s n q) (dbg : Bool) {seq : Seq} {r : RxSeg}
    (hr : Loaded r seq flags data) (hslow : slowPath s.c r) (hlen : segLen r.m ≠ 0)
    (hacc : isAcceptable s.c (segLen r.m) r.m.segSeq) (hrst : hasFlag flags tcpRst = false)
    (hsyn : hasFlag flags tcpSyn = false) (hack : hasFlag flags tcpAck) :
    ∃ c1, RcvSame s.c c1 ∧ c1.state = .established ∧ c1.snd.una = 1001 ∧ c1.snd.wnd = 1000 ∧
      c1.snd.nxt = 1001 ∧ c1.snd.wscale = 0 ∧
      tcpRxConnLocked dbg {} s.c r = (rxTextFin dbg 0 c1 r.m none).map (rxDone 0) := by
  obtain ⟨huna, hwnd⟩ := hs.acked_eq hr (slowUpdates s.c r)
  obtain ⟨t, ht⟩ := tcpRxConnSlow_established dbg {} hs.state hlen hacc
    (by rw [hr.m]; exact hrst) (by rw [hr.m]; exact hsyn) (by rw [hr.m]; exact hack)
    (by rw [hr.ack, hr.sndNxt]; decide)
  refine ⟨{ acked s.c r (slowUpdates s.c r) with tmr := t }, ⟨rfl, rfl⟩, hs.state, huna, hwnd,
    hs.sndNxt, hs.wscale, ?_⟩
  rw [tcpRxConnLocked, if_pos hslow, ht]

lemma Streaming.queue (hs : Streaming s n []) (dbg : Bool) {seq : Seq} {r : RxSeg}
    (hr : Loaded r seq (tcpFin ||| tcpAck) data) (hn : n ≤ 65535)
    (hlo : 0 < sdist seq s.c.rcv.nxt) (hhi : sdist seq s.c.rcv.nxt < (65535 - n : ℕ)) :
    ∃ s', step dbg { s with inflight := [r] } (.rxLocked 0 {}) = .ok s' ∧
      Streaming s' n [textSeg r.m] := by
  have hwnd : s.c.rcv.wnd.toNat = 65535 - n := by
    rw [hs.wnd, BitVec.toNat_ofNat]
    omega
  have hwidth : (segLen r.m).toNat = width r.m := segLen_toNat r
  have hfin : finLen r.m = 1 := by
    have hflags : hasFlag (tcpFin ||| tcpAck) tcpFin := by decide
    simp [finLen, hr.m, hflags]
  have hlen : 0 < segLen r.m := by
    unfold width at hwidth
    bv_omega
  have hseq : r.m.segSeq = seq := by rw [hr.m]
  have hacc : isAcceptable s.c (segLen r.m) r.m.segSeq := by
    rw [hseq]
    exact isAcceptable_of_start (by bv_omega) (by omega) hlo.le (by omega)
  have hslow : slowPath s.c r := by
    have hflags : hasFlag (tcpFin ||| tcpAck) tcpSlowpathFlags := by decide
    simp [slowPath, hr.m, hflags]
  obtain ⟨c1, ⟨hrcv, hrx⟩, hst, huna, hsnd, hnxt, hscale, hlocked⟩ :=
    hs.slow dbg hr hslow (by bv_omega) hacc (by decide) (by decide) (by decide)
  have hm0 := acceptable_textSeg (c := s.c) (by omega) hlen hacc
  have hm : Acceptable c1 (textSeg r.m) := ⟨hm0.wf, hrcv ▸ hm0.wnd_pos, hrcv ▸ hm0.stop, hrcv ▸ hm0.stop_le⟩
  obtain ⟨wake, htext⟩ := tcpRxText_outOfOrder dbg hm
    (by rw [hrcv]; change 0 < sdist r.m.segSeq _; rw [hseq]; exact hlo)
    (by rw [hrcv]; omega) (by rw [hrx, hs.ooo]) (by rw [hrx, hs.oooLen]; rfl)
  obtain ⟨o, t, ho, hoc⟩ := rxTextFin_used 0 none hlen (by rw [hst]; rfl) htext
  obtain ⟨t', ht'⟩ := rxDone_spec 0 o
  rw [ho] at hlocked
  have hstep : step dbg { s with inflight := [r] } (.rxLocked 0 {})
      = .ok (({ s with c := (rxDone 0 o).c, inflight := [] } : Sys).defer (rxDone 0 o).doAck
        (rxDone 0 o).retransmit.isSome) := by
    simp only [step, getElem?_cons_zero, hlocked, Except.map]
    rfl
  refine ⟨_, hstep, ?_⟩
  refine ⟨?_, ?_, ?_, ?_, ?_, ?_, ?_, ?_, ?_, ?_, ?_, rfl, ?_, ?_⟩
  all_goals simp only [Sys.defer, ht', hoc, hrcv, hrx, hst, huna, hsnd, hnxt, hscale]
  · rfl
  · exact hs.mss
  · exact hs.irs
  · exact hs.nxt
  · exact hs.wnd
  · rfl
  · exact hs.length
  · exact hs.numbers

lemma Streaming.inOrder (hs : Streaming s n q) (dbg : Bool) {r : RxSeg}
    (hr : Loaded r s.c.rcv.nxt flags data) (hslow : slowPath s.c r) (hpos : 0 < data.length)
    (hfull : n + data.length = 65535) (hrst : hasFlag flags tcpRst = false)
    (hsyn : hasFlag flags tcpSyn = false) (hack : hasFlag flags tcpAck) :
    ∃ c1, RcvSame s.c c1 ∧ c1.state = .established ∧ Straddles c1 (textSeg r.m) ∧
      ahead c1 (textSeg r.m) = width r.m ∧ behind c1 (textSeg r.m) = 0 ∧
      taken c1 (textSeg r.m) = data.length ∧ c1.rcv.wnd.toNat = data.length ∧ 0 < segLen r.m ∧
      tcpRxConnLocked dbg {} s.c r = (rxTextFin dbg 0 c1 r.m none).map (rxDone 0) := by
  have hwnd : s.c.rcv.wnd.toNat = data.length := by
    rw [hs.wnd, BitVec.toNat_ofNat]
    omega
  have hwidth : width r.m = data.length + finLen r.m := by simp [width, hr.m]
  have hlen : 0 < segLen r.m := by
    have := segLen_toNat r
    bv_omega
  have hrseq : r.m.segSeq = s.c.rcv.nxt := by rw [hr.m]
  have hacc : isAcceptable s.c (segLen r.m) r.m.segSeq := by
    rw [hrseq]
    exact isAcceptable_of_start (by bv_omega) (by omega) (by simp) (by simp; omega)
  obtain ⟨c1, ⟨hrcv, hrx⟩, hst, -, -, -, -, hlocked⟩ := hs.slow dbg hr hslow (by bv_omega) hacc hrst hsyn hack
  have hm0 := acceptable_textSeg (c := s.c) (by omega) hlen hacc
  have hstart : sdist (textSeg r.m).segSeq c1.rcv.nxt = 0 := by
    change sdist r.m.segSeq c1.rcv.nxt = 0
    rw [hrseq, hrcv, sdist_self]
  have hm : Straddles c1 (textSeg r.m) := ⟨hm0.wf, hstart.le, hrcv ▸ hm0.stop⟩
  have hsum := hm.behind_add_ahead
  have hbehind := hm.behind_eq
  have hwidth' : width (textSeg r.m) = width r.m := rfl
  refine ⟨c1, ⟨hrcv, hrx⟩, hst, hm, by omega, by omega, ?_, by rw [hrcv, hwnd], hlen, hlocked⟩
  rw [taken, hrcv, hwnd]
  omega

/-- The last bytes of the window arrive while a FIN waits that ends behind it. -/
lemma Streaming.crash {p : Mbuf} (hs : Streaming s n [p]) (dbg : Bool) {r : RxSeg}
    (hr : Loaded r s.c.rcv.nxt tcpAck data) (hpos : 0 < data.length) (hfull : n + data.length = 65535)
    (hp : SegWf p) (hfin : finLen p = 1) (hseq : p.segSeq = 5001 + BitVec.ofNat 32 65530)
    (hend : p.segEnd = 5001 + BitVec.ofNat 32 65536) :
    step dbg { s with inflight := [r] } (.rxLocked 0 {}) = .error (.fault .bugTrim) := by
  have hslow : slowPath s.c r := by simp [slowPath, hs.ooo]
  obtain ⟨c1, ⟨hrcv, hrx⟩, hst, hm, hahead, -, htaken, hwnd, hlen, hlocked⟩ :=
    hs.inOrder dbg hr hslow hpos hfull (by decide) (by decide) (by decide)
  have hwidth : width r.m = data.length := by
    have hflags : hasFlag tcpAck tcpFin = false := by decide
    simp [width, finLen, hr.m, hflags]
  have hnxt : (enqueueText c1 (clipped c1 (textSeg r.m))).rcv.nxt = 5001 + BitVec.ofNat 32 65535 := by
    rw [enqueueText_clipped_nxt, htaken, hrcv, hs.nxt, add_assoc, ← BitVec.ofNat_add, hfull]
  have hp' : Straddles (enqueueText c1 (clipped c1 (textSeg r.m))) p := by
    refine ⟨hp, ?_, ?_⟩
    · rw [hnxt, hseq, sdist_ofNat (by omega) (by omega)]
      omega
    · rw [hnxt, hend, sdist_ofNat (by omega) (by omega)]
      omega
  have htext := tcpRxText_closes dbg hm (by omega) (by omega) (by omega) (by rw [hrx, hs.ooo]) hp' hfin
  have htext' : rxTextFin dbg 0 c1 r.m none = .error .bugTrim := by
    have hgo : 0 < segLen r.m ∧ c1.state.acceptsText := ⟨hlen, by rw [hst]; rfl⟩
    have htext1 : tcpRxText dbg c1 { r.m with segEnd := r.m.segSeq + segLen r.m } = .error .bugTrim := htext
    simp only [rxTextFin, if_pos hgo, htext1]
  simp only [step, getElem?_cons_zero, hlocked, htext', Except.map]

/-- The run to a crash: all of the window but 1295 bytes, a FIN that ends one number behind the window, and the
missing bytes. -/
theorem clip_fin_faults : ∃ s, Reaches (step false) (fun _ _ => True) Initial s ∧
    step false s (.rxLocked 0 {}) = .error (.fault .bugTrim) := by
  obtain ⟨s, hreach, hs⟩ := streaming_fill (@length_replicate UInt8 1460 0) (allowed_true _ _)
    (fun _ _ => trivial) (fun _ _ _ _ _ _ => trivial) 44 (by omega)
  obtain ⟨p, r, hload, hr⟩ := hs.load false (5001 + BitVec.ofNat 32 65530) (tcpFin ||| tcpAck)
    [0, 0, 0, 0, 0] (by decide)
  have hdist : sdist (5001 + BitVec.ofNat 32 65530) s.c.rcv.nxt = 1290 := by
    rw [hs.nxt, sdist_ofNat (by omega) (by omega)]
    omega
  obtain ⟨s1, hqueue, hs1⟩ := hs.queue false hr (by omega) (by rw [hdist]; omega) (by rw [hdist]; omega)
  have hlen := @length_replicate UInt8 1295 0
  obtain ⟨p', r', hload', hr'⟩ := hs1.load false s1.c.rcv.nxt tcpAck (List.replicate 1295 0) (by rw [hlen]; omega)
  have hwf : SegWf (textSeg r.m) := textSeg_wf r (by rw [hr.m]; decide)
  refine ⟨_, .snoc (.snoc (.snoc hreach trivial hload) trivial hqueue) trivial hload',
    hs1.crash false hr' (by rw [hlen]; omega) (by rw [hlen]) hwf ?_ ?_ ?_⟩
  · rw [hr.m]
    decide
  · rw [hr.m]
    rfl
  · rw [hr.m]
    decide

end Aspen.Tcp
