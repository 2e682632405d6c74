import Aspen.Tcp.Ingress

/-!
# Reassembly

What `tcp_rx_text` does, in terms of integers. A segment reaches from its `segSeq` to its `segEnd`, which counts
a FIN as one number behind the payload; the receive window reaches from `rcv_nxt` to `rcv_nxt + rcv_wnd`. Adding
a segment that starts at or before `rcv_nxt` takes as many numbers from it as it has behind `rcv_nxt`, or as the
window has, and `rcv_nxt + rcv_wnd` stays where it is.
-/

namespace Aspen.Tcp

open Serial List

/-! ## Segments -/

variable (c : Conn) (m : Mbuf)

def finLen : ℕ := if hasFlag m.flags tcpFin then 1 else 0

lemma finLen_le_one : finLen m ≤ 1 := by
  unfold finLen
  split <;> omega

def width : ℕ := m.data.length + finLen m

structure SegWf (m : Mbuf) : Prop where
  span_eq : (m.segEnd - m.segSeq).toNat = width m
  width_pos : 0 < width m
  width_le : width m ≤ 65536

lemma segLen_toNat (r : RxSeg) : (segLen r.m).toNat = width r.m := by
  have hlen : r.m.segEnd - r.m.segSeq = r.len := by
    rw [r.segEnd_eq]
    ring
  have hle := r.len_le
  unfold segLen width finLen
  rw [hlen, r.length_data]
  split <;> bv_omega

lemma textSeg_wf (r : RxSeg) (h : 0 < segLen r.m) : SegWf (textSeg r.m) := by
  have hwidth : width (textSeg r.m) = width r.m := rfl
  have hlen := segLen_toNat r
  refine ⟨?_, ?_, ?_⟩
  · have hspan : (textSeg r.m).segEnd - (textSeg r.m).segSeq = segLen r.m := by
      simp only [textSeg]
      ring
    rw [hspan, hlen, hwidth]
  · rw [hwidth, ← hlen]
    exact h
  · rw [hwidth, width, r.length_data]
    have := r.len_le
    have := finLen_le_one r.m
    omega

variable {x nxt : Seq}

lemma SegWf.sdist_segSeq {m : Mbuf} (hm : SegWf m) (h : -2147483648 ≤ sdist m.segEnd x - width m) :
    sdist m.segSeq x = sdist m.segEnd x - width m := by
  have hle := hm.width_le
  have hspan := hm.span_eq
  have hseq : m.segSeq = m.segEnd - (m.segEnd - m.segSeq) := by ring
  rw [hseq, sdist_backward (by omega) (by omega), hspan]

/-! ## Acceptability -/

lemma mem_window_iff {wnd : Seq} (hpos : 0 < wnd.toNat) (hwnd : wnd.toNat ≤ 131071) :
    (wrapsLte nxt x && wrapsLt x (nxt + wnd)) ↔
      0 ≤ sdist x nxt ∧ sdist x nxt < wnd.toNat := by
  have hfwd : sdist (nxt + wnd) nxt = wnd.toNat := sdist_forward_self (by omega)
  have hback : sdist nxt (nxt + wnd) = -wnd.toNat := by rw [sdist_swap (by omega), hfwd]
  rw [Bool.and_eq_true, wrapsLte_iff, wrapsLt_iff]
  constructor
  · rintro ⟨hle, hlt⟩
    have hlo' := sdist_lower x (nxt + wnd)
    -- the second comparison alone keeps `x` away from the antipode of `nxt`
    have hx : sdist x nxt = sdist x (nxt + wnd) + wnd.toNat := by
      rw [sdist_rebase (nxt + wnd) (by omega) (by omega), hback]
      omega
    rw [sdist_swap (by omega)] at hle
    omega
  · rintro ⟨hle, hlt⟩
    refine ⟨?_, ?_⟩
    · rw [sdist_swap (by omega)]
      omega
    · rw [sdist_rebase nxt (by omega) (by omega), hfwd]
      omega

lemma isAcceptable_of_start {c : Conn} {len seq : Seq} (hlen : len ≠ 0)
    (hwnd : c.rcv.wnd.toNat ≤ 131071) (hlo : 0 ≤ sdist seq c.rcv.nxt)
    (hhi : sdist seq c.rcv.nxt < c.rcv.wnd.toNat) : isAcceptable c len seq = true := by
  have hpos : 0 < c.rcv.wnd.toNat := by omega
  have hzero : ¬ c.rcv.wnd = 0 := by bv_omega
  simp only [isAcceptable, hlen, hzero, false_and, and_false, if_false, Bool.or_eq_true]
  exact .inl ((mem_window_iff hpos hwnd).2 ⟨hlo, hhi⟩)

lemma isAcceptable_spec {c : Conn} {m : Mbuf} (hm : SegWf m) (hwnd : c.rcv.wnd.toNat ≤ 131071)
    (hacc : isAcceptable c (m.segEnd - m.segSeq) m.segSeq) :
    0 < c.rcv.wnd.toNat ∧ 0 < sdist m.segEnd c.rcv.nxt ∧
      sdist m.segEnd c.rcv.nxt ≤ c.rcv.wnd.toNat + 65536 := by
  have hpos := hm.width_pos
  have hle := hm.width_le
  have hspan := hm.span_eq
  have hlen : ¬ m.segEnd - m.segSeq = 0 := by
    intro h
    simp [h] at hspan
    omega
  have hlen' : 0 < m.segEnd - m.segSeq := by bv_omega
  by_cases hzero : c.rcv.wnd = 0
  · simp only [isAcceptable, hlen, hzero, hlen', false_and, and_true, if_false, if_true, Bool.false_eq_true] at hacc
  have hwpos : 0 < c.rcv.wnd.toNat := by bv_omega
  simp only [isAcceptable, hlen, hzero, false_and, and_false, if_false, Bool.or_eq_true,
    mem_window_iff hwpos hwnd] at hacc
  obtain ⟨hlo, hhi⟩ | ⟨hlo, hhi⟩ := hacc
  · have hend : m.segEnd = m.segSeq + (m.segEnd - m.segSeq) := by ring
    rw [hend, sdist_forward (by omega)]
    omega
  · have hlast : m.segSeq + (m.segEnd - m.segSeq) - 1 = m.segEnd - 1 := by ring
    have hend : m.segEnd = m.segEnd - 1 + 1 := by ring
    have hone : (1 : Seq).toNat = 1 := rfl
    rw [hlast] at hlo hhi
    rw [hend, sdist_forward (by omega), hone]
    omega

/-! ## Appending -/

def behind : ℕ := (c.rcv.nxt - m.segSeq).toNat

def ahead : ℕ := (m.segEnd - c.rcv.nxt).toNat

def taken : ℕ := min (ahead c m) c.rcv.wnd.toNat

/-- What clipping leaves of a segment. As many bytes are dropped from the end as sequence numbers lie
beyond the window, the FIN among them or not. -/
def clipped : Mbuf :=
  { m with
    data := (m.data.drop (behind c m)).take (taken c m - finLen m)
    segSeq := c.rcv.nxt
    segEnd := c.rcv.nxt + BitVec.ofNat 32 (taken c m) }

lemma clipped_span : (clipped c m).segEnd - (clipped c m).segSeq = BitVec.ofNat 32 (taken c m) := by
  simp only [clipped]
  ring

/-- `tcp_rx_append_text` may be called with the segment: it starts at or before `rcv_nxt` and ends behind it. -/
structure Straddles (c : Conn) (m : Mbuf) : Prop where
  wf : SegWf m
  start : sdist m.segSeq c.rcv.nxt ≤ 0
  stop : 0 < sdist m.segEnd c.rcv.nxt

variable {c : Conn} {m : Mbuf}

section

variable (h : Straddles c m)
include h

lemma Straddles.of_oooLen (n : ℕ) : Straddles { c with rx.oooLen := n } m := ⟨h.wf, h.start, h.stop⟩

lemma Straddles.ahead_eq : (ahead c m : ℤ) = sdist m.segEnd c.rcv.nxt := toNat_sub_of_nonneg h.stop.le

lemma Straddles.sdist_start : sdist m.segSeq c.rcv.nxt = sdist m.segEnd c.rcv.nxt - width m := by
  have := h.wf.width_le
  have := h.stop
  exact h.wf.sdist_segSeq (by omega)

lemma Straddles.behind_eq : (behind c m : ℤ) = -sdist m.segSeq c.rcv.nxt := by
  have hstart := h.start
  have := h.sdist_start
  have := h.wf.width_le
  have := h.stop
  have hswap : sdist c.rcv.nxt m.segSeq = -sdist m.segSeq c.rcv.nxt := sdist_swap (by omega)
  rw [behind, toNat_sub_of_nonneg (by omega), hswap]

lemma Straddles.behind_add_ahead : behind c m + ahead c m = width m := by
  have := h.ahead_eq
  have := h.behind_eq
  have := h.sdist_start
  omega

/-- The head is clipped without fail: what lies in front of `rcv_nxt` is payload. -/
lemma clipHead_eq : clipHead c m = .ok { m with data := m.data.drop (behind c m), segSeq := c.rcv.nxt } := by
  have hsum := h.behind_add_ahead
  have hahead := h.ahead_eq
  have hstop := h.stop
  have hfin := finLen_le_one m
  have hle : behind c m ≤ m.data.length := by
    unfold width at hsum
    omega
  unfold clipHead
  split
  · have hpull : mbufPull m (c.rcv.nxt - m.segSeq).toNat
        = .ok { m with data := m.data.drop (behind c m) } := mbufPull_eq_ok.2 ⟨hle, rfl⟩
    have hseq : m.segSeq + (c.rcv.nxt - m.segSeq) = c.rcv.nxt := by ring
    simp only [hpull, hseq]
  · rename_i hlt
    rw [Bool.not_eq_true, ← Bool.not_eq_true, wrapsLt_iff] at hlt
    have hstart := h.start
    have hzero : sdist m.segSeq c.rcv.nxt = 0 := by omega
    have hbehind := h.behind_eq
    have hb : behind c m = 0 := by omega
    rw [hb, drop_zero, ← sdist_eq_zero_iff.1 hzero]

/-- The tail is clipped without fail unless the window is closed and the segment carries a FIN. -/
lemma clipTail_eq (hwnd : c.rcv.wnd.toNat ≤ 131071) :
    clipTail c { m with data := m.data.drop (behind c m), segSeq := c.rcv.nxt }
      = if finLen m ≤ c.rcv.wnd.toNat then .ok (clipped c m) else .error .bugTrim := by
  have hsum := h.behind_add_ahead
  have hahead := h.ahead_eq
  have hstop := h.stop
  have hfin := finLen_le_one m
  have hwidth := h.wf.width_le
  have hedge : sdist (c.rcv.nxt + c.rcv.wnd) c.rcv.nxt = c.rcv.wnd.toNat := sdist_forward_self (by omega)
  have hdist : sdist (c.rcv.nxt + c.rcv.wnd) m.segEnd = c.rcv.wnd.toNat - ahead c m := by
    rw [sdist_rebase c.rcv.nxt (by omega) (by omega), hedge, hahead]
  have hlen : (m.data.drop (behind c m)).length = ahead c m - finLen m := by
    rw [length_drop]
    unfold width at hsum
    omega
  have hend : m.segEnd = c.rcv.nxt + BitVec.ofNat 32 (ahead c m) := by
    rw [ahead, BitVec.ofNat_toNat, BitVec.setWidth_eq]
    ring
  unfold clipTail
  split
  · rename_i hlt
    rw [wrapsLt_iff, hdist] at hlt
    have hover : (m.segEnd - (c.rcv.nxt + c.rcv.wnd)).toNat = ahead c m - c.rcv.wnd.toNat := by
      have hswap : sdist m.segEnd (c.rcv.nxt + c.rcv.wnd) = ahead c m - c.rcv.wnd.toNat := by
        rw [sdist_swap (by omega), hdist]
        omega
      have := toNat_sub_of_nonneg (hswap ▸ (by omega) : 0 ≤ sdist m.segEnd (c.rcv.nxt + c.rcv.wnd))
      omega
    have htaken : taken c m = c.rcv.wnd.toNat := by
      unfold taken
      omega
    dsimp only
    rw [hover]
    by_cases hf : finLen m ≤ c.rcv.wnd.toNat
    · have htrim : mbufTrim { m with data := m.data.drop (behind c m), segSeq := c.rcv.nxt }
          (ahead c m - c.rcv.wnd.toNat) = .ok { m with
            data := (m.data.drop (behind c m)).take (taken c m - finLen m), segSeq := c.rcv.nxt } := by
        refine mbufTrim_eq_ok.2 ⟨by dsimp only; omega, ?_⟩
        have hkeep : (m.data.drop (behind c m)).length - (ahead c m - c.rcv.wnd.toNat)
            = taken c m - finLen m := by omega
        rw [hkeep]
      rw [htrim, if_pos hf, clipped, htaken, BitVec.ofNat_toNat, BitVec.setWidth_eq]
    · rw [if_neg hf, mbufTrim, if_pos (by dsimp only [mbufLength]; omega)]
  · rename_i hlt
    rw [Bool.not_eq_true, ← Bool.not_eq_true, wrapsLt_iff, hdist] at hlt
    have htaken : taken c m = ahead c m := by
      unfold taken
      omega
    rw [if_pos (by omega)]
    unfold clipped
    rw [htaken, ← hend, ← hlen, take_length]

end

/-- Appending a segment takes `taken` sequence numbers from it. It fails in one case only, in every
build: the segment carries a FIN and the window is closed. -/
lemma tcpRxAppendText_eq (dbg : Bool) (h : Straddles c m) (hwnd : c.rcv.wnd.toNat ≤ 131071) :
    tcpRxAppendText dbg c m = if finLen m ≤ c.rcv.wnd.toNat then .ok (enqueueText c (clipped c m))
      else .error .bugTrim := by
  have hstart : wrapsLte m.segSeq c.rcv.nxt := wrapsLte_iff.2 h.start
  have hstop : wrapsGt m.segEnd c.rcv.nxt := by
    have := h.stop
    rw [wrapsGt_iff, sdist_swap (by omega)]
    omega
  unfold tcpRxAppendText
  rw [hstart, hstop, clipHead_eq h]
  simp only [assertThat_true, bind, Except.bind, clipTail_eq h hwnd]
  split
  · rename_i f hf
    split at hf
    · cases hf
    · rename_i hfin
      cases hf
      rw [if_neg hfin]
  · rename_i m' hm
    split at hm
    · rename_i hfin
      cases hm
      have hfits : (clipped c m).segEnd - (clipped c m).segSeq ≤ c.rcv.wnd := by
        have : taken c m ≤ c.rcv.wnd.toNat := min_le_right _ _
        rw [clipped_span, BitVec.le_def, BitVec.toNat_ofNat]
        omega
      simp only [hfits, decide_true, assertThat_true, if_pos hfin]
      rfl
    · cases hm

/-! ## Draining

The loop at the end of `tcp_rx_text` as a sequence of small steps on the queue, the connection and the
FIN flag. An in-order segment goes through the same steps, in front of the queue. -/

structure Draining where
  q : List Mbuf
  c : Conn
  fin : Bool

inductive DrainStep : Draining → Draining → Prop
  /-- the segment has been fully received already -/
  | skip {pos : Mbuf} {q : List Mbuf} {c : Conn} {fin : Bool}
      (h : sdist pos.segEnd c.rcv.nxt ≤ 0) :
      DrainStep ⟨pos :: q, c, fin⟩ ⟨q, { c with rx.oooLen := c.rx.oooLen - 1 }, fin⟩
  | append {pos : Mbuf} {q : List Mbuf} {c : Conn} {fin : Bool} (h : Straddles c pos)
      (hfin : finLen pos ≤ c.rcv.wnd.toNat) :
      DrainStep ⟨pos :: q, c, fin⟩
        ⟨q, { enqueueText c (clipped c pos) with rx.oooLen := c.rx.oooLen - 1 }, fin || hasFlag pos.flags tcpFin⟩

abbrev Drains := Relation.ReflTransGen DrainStep

/-- Segments that a window may have let in, now or earlier: none of them is far away. -/
structure DrainOk (c : Conn) (q : List Mbuf) : Prop where
  wnd_le : c.rcv.wnd.toNat ≤ 131071
  wf : ∀ m ∈ q, SegWf m
  lower : ∀ m ∈ q, (c.rcv.wnd.toNat : ℤ) - 131071 ≤ sdist m.segEnd c.rcv.nxt
  upper : ∀ m ∈ q, sdist m.segEnd c.rcv.nxt ≤ c.rcv.wnd.toNat + 65536

lemma DrainOk.tail {c : Conn} {pos : Mbuf} {q : List Mbuf} (h : DrainOk c (pos :: q)) : DrainOk c q :=
  ⟨h.wnd_le, fun m hm => h.wf m (.tail _ hm), fun m hm => h.lower m (.tail _ hm), fun m hm => h.upper m (.tail _ hm)⟩

variable (c m)

lemma taken_le : taken c m ≤ c.rcv.wnd.toNat := min_le_right _ _

lemma enqueueText_clipped_nxt : (enqueueText c (clipped c m)).rcv.nxt = c.rcv.nxt + BitVec.ofNat 32 (taken c m) := rfl

lemma enqueueText_clipped_wnd : (enqueueText c (clipped c m)).rcv.wnd.toNat = c.rcv.wnd.toNat - taken c m := by
  have hle := taken_le c m
  simp only [enqueueText, clipped_span]
  bv_omega

variable {c m}

lemma sdist_moved {n : ℕ} (hn : n ≤ 131071) (hx : -2147000000 ≤ sdist x nxt) :
    sdist x (nxt + BitVec.ofNat 32 n) = sdist x nxt - n := by
  have hhi := sdist_upper x nxt
  have htoNat : (BitVec.ofNat 32 n : Seq).toNat = n := by
    rw [BitVec.toNat_ofNat]
    omega
  have hfwd : sdist (nxt + BitVec.ofNat 32 n) nxt = n := by
    rw [sdist_forward_self (by omega), htoNat]
  rw [sdist_rebase nxt (by omega) (by omega), hfwd]

lemma sdist_nxt_enqueueText {c : Conn} {m : Mbuf} (hwnd : c.rcv.wnd.toNat ≤ 131071)
    (hx : -2147000000 ≤ sdist x c.rcv.nxt) :
    sdist x (enqueueText c (clipped c m)).rcv.nxt = sdist x c.rcv.nxt - taken c m := by
  have hle := taken_le c m
  exact sdist_moved (by omega) hx

variable {a b : Draining}

lemma DrainStep.drainOk (h : DrainStep a b) (hok : DrainOk a.c a.q) : DrainOk b.c b.q := by
  cases h with
  | skip h => exact ⟨hok.wnd_le, hok.tail.wf, hok.tail.lower, hok.tail.upper⟩
  | @append pos q c fin h hfin =>
    have hwnd := hok.wnd_le
    have hle := taken_le c pos
    have hw := enqueueText_clipped_wnd c pos
    have hd : ∀ m ∈ q, sdist m.segEnd (enqueueText c (clipped c pos)).rcv.nxt
        = sdist m.segEnd c.rcv.nxt - taken c pos := fun m hm =>
      sdist_nxt_enqueueText hwnd (by have := hok.tail.lower m hm; dsimp only at this; omega)
    dsimp only at hwnd
    refine ⟨?_, hok.tail.wf, fun m hm => ?_, fun m hm => ?_⟩
    · dsimp only
      omega
    · have := hok.tail.lower m hm
      have := hd m hm
      dsimp only at *
      omega
    · have := hok.tail.upper m hm
      have := hd m hm
      dsimp only at *
      omega

lemma Drains.drainOk (h : Drains a b) (hok : DrainOk a.c a.q) : DrainOk b.c b.q := by
  induction h with
  | refl => exact hok
  | tail _ hs ih => exact hs.drainOk ih

variable {dbg : Bool} {q : List Mbuf} {c' : Conn} {fl fl' : TextFlags}

lemma DrainOk.head_cases {pos : Mbuf} (hok : DrainOk c (pos :: q)) :
    (wrapsLte pos.segEnd c.rcv.nxt ∧ sdist pos.segEnd c.rcv.nxt ≤ 0) ∨
    (wrapsLte pos.segEnd c.rcv.nxt = false ∧ wrapsGt pos.segSeq c.rcv.nxt ∧ 0 < sdist pos.segSeq c.rcv.nxt) ∨
    (wrapsLte pos.segEnd c.rcv.nxt = false ∧ wrapsGt pos.segSeq c.rcv.nxt = false ∧
      Straddles c pos) := by
  have hwf := hok.wf pos (.head _)
  have hwidth := hwf.width_le
  have hlower := hok.lower pos (.head _)
  have hseq := hwf.sdist_segSeq (x := c.rcv.nxt) (by omega)
  have hswap : sdist c.rcv.nxt pos.segSeq = -sdist pos.segSeq c.rcv.nxt := sdist_swap (by omega)
  by_cases hend : sdist pos.segEnd c.rcv.nxt ≤ 0
  · exact .inl ⟨wrapsLte_iff.2 hend, hend⟩
  · have hend' : wrapsLte pos.segEnd c.rcv.nxt = false := by
      rw [← Bool.not_eq_true, wrapsLte_iff]
      exact hend
    by_cases hstart : 0 < sdist pos.segSeq c.rcv.nxt
    · exact .inr (.inl ⟨hend', wrapsGt_iff.2 (by omega), hstart⟩)
    · refine .inr (.inr ⟨hend', ?_, hwf, by omega, by omega⟩)
      rw [← Bool.not_eq_true, wrapsGt_iff]
      omega

/-- How the loop ends: at a head that is still out of order, or with a FIN at a closed window. -/
inductive Drained : Draining → Except Fault (Conn × TextFlags) → Prop
  | done {d : Draining} {fl : TextFlags} (hfl : fl.fin = d.fin)
      (hw : ∀ m ∈ d.q.head?, 0 < sdist m.segSeq d.c.rcv.nxt) : Drained d (.ok ({ d.c with rx.ooo := d.q }, fl))
  | crash {pos : Mbuf} {d : Draining} (hs : Straddles d.c pos) (hfin : finLen pos = 1)
      (hwnd : d.c.rcv.wnd.toNat = 0) : Drained ⟨pos :: d.q, d.c, d.fin⟩ (.error .bugTrim)

variable (dbg fl)

lemma drainOoo_drains (hok : DrainOk c q) :
    ∃ d : Draining, Drains ⟨q, c, fl.fin⟩ d ∧ Drained d (drainOoo dbg q c fl) := by
  induction q generalizing c fl with
  | nil => exact ⟨⟨[], c, fl.fin⟩, .refl, .done rfl (by simp)⟩
  | cons pos q ih =>
    simp only [drainOoo]
    obtain ⟨h1, hend⟩ | ⟨h1, h2, hstart⟩ | ⟨h1, h2, hs⟩ := hok.head_cases
    · rw [if_pos h1]
      have hstep : DrainStep ⟨pos :: q, c, fl.fin⟩ _ := .skip hend
      obtain ⟨d, hd, hrest⟩ := ih fl (hstep.drainOk hok)
      exact ⟨d, .head hstep hd, hrest⟩
    · rw [if_neg (by simp [h1]), if_pos h2]
      refine ⟨⟨pos :: q, c, fl.fin⟩, .refl, .done rfl ?_⟩
      simpa using hstart
    · rw [if_neg (by simp [h1]), if_neg (by simp [h2]),
        tcpRxAppendText_eq dbg (hs.of_oooLen (c.rx.oooLen - 1)) hok.wnd_le]
      by_cases hfin : finLen pos ≤ c.rcv.wnd.toNat
      · rw [if_pos hfin]
        have hstep : DrainStep ⟨pos :: q, c, fl.fin⟩ _ := .append hs hfin
        obtain ⟨d, hd, hrest⟩ := ih ⟨true, fl.fin || hasFlag pos.flags tcpFin⟩ (hstep.drainOk hok)
        exact ⟨d, .head hstep hd, hrest⟩
      · rw [if_neg hfin]
        have := finLen_le_one pos
        exact ⟨_, .refl, .crash (d := ⟨q, c, fl.fin⟩) hs (by omega) (by dsimp only; omega)⟩

/-! ## The out-of-order queue -/

/-- The out-of-order queue between two segments: within reach, sorted by `segEnd`, and not yet next. -/
structure QueueOk (c : Conn) (q : List Mbuf) : Prop where
  reach : DrainOk c q
  sorted : q.Pairwise fun a b => sdist a.segEnd c.rcv.nxt ≤ sdist b.segEnd c.rcv.nxt
  waits : ∀ m ∈ q.head?, 0 < sdist m.segSeq c.rcv.nxt

lemma QueueOk.ends_ahead (h : QueueOk c q) {m : Mbuf} (hm : m ∈ q) : 0 < sdist m.segEnd c.rcv.nxt := by
  cases q with
  | nil => cases hm
  | cons a q =>
    have ha := h.reach.wf a (.head _)
    have hlower := h.reach.lower a (.head _)
    have hwidth := ha.width_le
    have hstart := h.waits a (by simp)
    rw [ha.sdist_segSeq (by omega)] at hstart
    cases hm with
    | head => omega
    | tail _ hm =>
      have hsorted := rel_of_pairwise_cons h.sorted hm
      omega

lemma oooInsert_split {l : List Mbuf} (h : oooInsert m q.reverse = some l) :
    ∃ front back, q = front ++ back ∧ l.reverse = front ++ m :: back ∧
      (∀ pos ∈ front.getLast?, wrapsGt m.segEnd pos.segEnd) ∧
      ∀ pos ∈ back, ¬ wrapsGt m.segEnd pos.segEnd ∧ ¬ wrapsGte m.segSeq pos.segSeq = true := by
  induction q using List.reverseRecOn generalizing l with
  | nil =>
    cases h
    exact ⟨[], [], rfl, rfl, nofun, nofun⟩
  | append_singleton q pos ih =>
    rw [reverse_concat] at h
    simp only [oooInsert] at h
    split at h
    · rename_i hm
      cases h
      exact ⟨q ++ [pos], [], by simp, by simp, by simpa using hm, nofun⟩
    split at h
    · cases h
    · rename_i hgt hgte
      obtain ⟨l', hins, rfl⟩ := Option.map_eq_some_iff.1 h
      obtain ⟨front, back, rfl, hl, hfront, hback⟩ := ih hins
      refine ⟨front, back ++ [pos], by simp, by simp [hl], hfront, fun x hx => ?_⟩
      rcases mem_append.1 hx with hx | hx
      · exact hback x hx
      · cases mem_singleton.1 hx
        exact ⟨hgt, hgte⟩

lemma oooInsert_mem {l : List Mbuf} (h : oooInsert m q.reverse = some l) : ∀ x ∈ l.reverse, x = m ∨ x ∈ q := by
  obtain ⟨front, back, rfl, hl, -⟩ := oooInsert_split h
  intro x hx
  rw [hl] at hx
  simpa [or_left_comm] using hx

lemma pairwise_insert {R : Mbuf → Mbuf → Prop} {front back : List Mbuf} (h : (front ++ back).Pairwise R)
    (hfront : ∀ x ∈ front, R x m) (hback : ∀ x ∈ back, R m x) : (front ++ m :: back).Pairwise R := by
  obtain ⟨h1, h2, h3⟩ := pairwise_append.1 h
  refine pairwise_append.2 ⟨h1, pairwise_cons.2 ⟨hback, h2⟩, fun x hx y hy => ?_⟩
  cases hy with
  | head => exact hfront x hx
  | tail _ hy => exact h3 x hx y hy

lemma DrainOk.wrapsGt_iff {pos : Mbuf} (h : DrainOk c q) (hpos : pos ∈ q) (hend : 0 < sdist m.segEnd c.rcv.nxt)
    (hup : sdist m.segEnd c.rcv.nxt ≤ c.rcv.wnd.toNat + 65536) :
    wrapsGt m.segEnd pos.segEnd ↔ sdist pos.segEnd c.rcv.nxt < sdist m.segEnd c.rcv.nxt := by
  have hwnd := h.wnd_le
  have hlo := h.lower pos hpos
  have hhi := h.upper pos hpos
  rw [Aspen.wrapsGt_iff, sdist_rebase c.rcv.nxt (by omega) (by omega)]
  omega

lemma QueueOk.front_ends {front back : List Mbuf} (h : QueueOk c (front ++ back))
    (hend : 0 < sdist m.segEnd c.rcv.nxt) (hup : sdist m.segEnd c.rcv.nxt ≤ c.rcv.wnd.toNat + 65536)
    (hlast : ∀ pos ∈ front.getLast?, wrapsGt m.segEnd pos.segEnd) {x : Mbuf} (hx : x ∈ front) :
    sdist x.segEnd c.rcv.nxt < sdist m.segEnd c.rcv.nxt := by
  rcases eq_nil_or_concat' front with rfl | ⟨f, last, rfl⟩
  · cases hx
  · have hlt := (h.reach.wrapsGt_iff (by simp) hend hup).1 (hlast last (by simp))
    rcases mem_append.1 hx with hx | hx
    · have hle := (pairwise_append.1 (pairwise_append.1 h.sorted).1).2.2 x hx last (by simp)
      omega
    · cases mem_singleton.1 hx
      exact hlt

lemma QueueOk.insert {l : List Mbuf} (h : QueueOk c q) (hm : SegWf m)
    (hstart : 0 < sdist m.segSeq c.rcv.nxt) (hend : 0 < sdist m.segEnd c.rcv.nxt)
    (hup : sdist m.segEnd c.rcv.nxt ≤ c.rcv.wnd.toNat + 65536)
    (hins : oooInsert m q.reverse = some l) : QueueOk c l.reverse := by
  have hwnd := h.reach.wnd_le
  have hmem := oooInsert_mem hins
  obtain ⟨front, back, rfl, hl, hlast, hback⟩ := oooInsert_split hins
  refine ⟨⟨hwnd, ?_, ?_, ?_⟩, ?_, ?_⟩
  · intro x hx
    obtain rfl | hx := hmem x hx
    · exact hm
    · exact h.reach.wf x hx
  · intro x hx
    obtain rfl | hx := hmem x hx
    · omega
    · exact h.reach.lower x hx
  · intro x hx
    obtain rfl | hx := hmem x hx
    · exact hup
    · exact h.reach.upper x hx
  · rw [hl]
    refine pairwise_insert h.sorted (fun x hx => (h.front_ends hend hup hlast hx).le) fun x hx => ?_
    exact not_lt.1 ((h.reach.wrapsGt_iff (mem_append.2 (.inr hx)) hend hup).not.1 (hback x hx).1)
  · rw [hl]
    cases front with
    | nil =>
      rintro _ ⟨⟩
      exact hstart
    | cons a front => exact h.waits

lemma DrainOk.sorted_enqueueText (hok : DrainOk c q)
    (hs : q.Pairwise fun a b => sdist a.segEnd c.rcv.nxt ≤ sdist b.segEnd c.rcv.nxt) :
    q.Pairwise fun a b => sdist a.segEnd (enqueueText c (clipped c m)).rcv.nxt
      ≤ sdist b.segEnd (enqueueText c (clipped c m)).rcv.nxt := by
  have hd : ∀ x ∈ q, sdist x.segEnd (enqueueText c (clipped c m)).rcv.nxt
      = sdist x.segEnd c.rcv.nxt - taken c m := fun x hx =>
    sdist_nxt_enqueueText hok.wnd_le (by have := hok.lower x hx; omega)
  refine hs.imp_of_mem fun hx hy hxy => ?_
  rw [hd _ hx, hd _ hy]
  omega

lemma DrainStep.sorted (h : DrainStep a b) (hok : DrainOk a.c a.q)
    (hs : a.q.Pairwise fun x y => sdist x.segEnd a.c.rcv.nxt ≤ sdist y.segEnd a.c.rcv.nxt) :
    b.q.Pairwise fun x y => sdist x.segEnd b.c.rcv.nxt ≤ sdist y.segEnd b.c.rcv.nxt := by
  cases h with
  | skip h => exact hs.of_cons
  | append h hfin => exact hok.tail.sorted_enqueueText hs.of_cons

lemma Drains.queueOk (h : Drains a b) (hok : DrainOk a.c a.q)
    (hs : a.q.Pairwise fun x y => sdist x.segEnd a.c.rcv.nxt ≤ sdist y.segEnd a.c.rcv.nxt)
    (hw : ∀ m ∈ b.q.head?, 0 < sdist m.segSeq b.c.rcv.nxt) : QueueOk b.c b.q := by
  refine ⟨h.drainOk hok, ?_, hw⟩
  clear hw
  induction h with
  | refl => exact hs
  | tail hd hstep ih => exact hstep.sorted (Drains.drainOk hd hok) ih

/-! ## Text -/

/-- What `tcp_rx_text` does with a segment it uses: it puts it in its place in the queue, or appends it
and then drains the queue. -/
inductive TextMove (c : Conn) (m : Mbuf) : Conn → Bool → Prop
  | queued {q : List Mbuf} (hstart : 0 < sdist m.segSeq c.rcv.nxt) (hroom : c.rx.oooLen < tcpOooMaxSize)
      (hins : oooInsert m c.rx.ooo.reverse = some q) :
      TextMove c m { c with rx.ooo := q.reverse, rx.oooLen := c.rx.oooLen + 1 } false
  | drained {d : Draining} (hs : Straddles c m)
      (hd : Drains ⟨c.rx.ooo, enqueueText c (clipped c m), hasFlag m.flags tcpFin⟩ d)
      (hw : ∀ m ∈ d.q.head?, 0 < sdist m.segSeq d.c.rcv.nxt) :
      TextMove c m { d.c with rx.ooo := d.q } d.fin

structure Acceptable (c : Conn) (m : Mbuf) : Prop where
  wf : SegWf m
  wnd_pos : 0 < c.rcv.wnd.toNat
  stop : 0 < sdist m.segEnd c.rcv.nxt
  stop_le : sdist m.segEnd c.rcv.nxt ≤ c.rcv.wnd.toNat + 65536

lemma acceptable_textSeg {r : RxSeg} (hwnd : c.rcv.wnd.toNat ≤ 131071) (hlen : 0 < segLen r.m)
    (hacc : isAcceptable c (segLen r.m) r.m.segSeq) : Acceptable c (textSeg r.m) := by
  have hwf := textSeg_wf r hlen
  have hspan : (textSeg r.m).segEnd - (textSeg r.m).segSeq = segLen r.m := by
    simp only [textSeg]
    ring
  obtain ⟨h1, h2, h3⟩ := isAcceptable_spec (c := c) hwf hwnd (by rw [hspan]; exact hacc)
  exact ⟨hwf, h1, h2, h3⟩

lemma Acceptable.drainOk (h : Acceptable c m) (hok : DrainOk c q) : DrainOk c (m :: q) := by
  have hwnd := hok.wnd_le
  have hstop := h.stop
  refine ⟨hwnd, ?_, ?_, ?_⟩
  · exact forall_mem_cons.2 ⟨h.wf, hok.wf⟩
  · exact forall_mem_cons.2 ⟨by omega, hok.lower⟩
  · exact forall_mem_cons.2 ⟨h.stop_le, hok.upper⟩

lemma Acceptable.drainOk_append (h : Acceptable c m) (hs : Straddles c m) (hok : DrainOk c q) :
    DrainOk (enqueueText c (clipped c m)) q := by
  have hfin := finLen_le_one m
  have hpos := h.wnd_pos
  have hstep : DrainStep ⟨m :: q, c, false⟩ _ := .append hs (by omega)
  have hrest := hstep.drainOk (h.drainOk hok)
  exact ⟨hrest.wnd_le, hrest.wf, hrest.lower, hrest.upper⟩

lemma inOrderFlags_fin (m : Mbuf) (b : Bool) :
    (if (hasFlag m.flags (tcpPush ||| tcpFin) || b) = true then
      ({ wake := true, fin := hasFlag m.flags tcpFin } : TextFlags) else {}).fin
      = hasFlag m.flags tcpFin := by
  rw [hasFlag_or]
  split
  · rfl
  · rename_i h
    simp only [Bool.or_eq_true, not_or, Bool.not_eq_true] at h
    exact h.1.2.symm

lemma drainText_drains (hok : DrainOk c c.rx.ooo) :
    ∃ d : Draining, Drains ⟨c.rx.ooo, c, fl.fin⟩ d ∧ Drained d (drainText dbg c fl) := by
  obtain ⟨d, hd, hend⟩ := drainOoo_drains dbg fl hok
  refine ⟨d, hd, ?_⟩
  unfold drainText
  generalize drainOoo dbg c.rx.ooo c fl = res at hend ⊢
  cases hend with
  | done hfl hw => exact .done hfl hw
  | crash hs hfin hwnd => exact .crash hs hfin hwnd

lemma drainText_waits (hok : QueueOk c c.rx.ooo) :
    ∃ wake, drainText dbg c fl = .ok (c, { fl with wake := wake }) := by
  have hdrain : drainOoo dbg c.rx.ooo c fl = .ok (c, fl) := by
    cases hq : c.rx.ooo with
    | nil => rw [drainOoo, ← hq]
    | cons pos q =>
      rw [hq] at hok
      have hstart := hok.waits pos (by simp)
      have hend := hok.ends_ahead (m := pos) (.head _)
      obtain ⟨-, h⟩ | ⟨h1, h2, -⟩ | ⟨-, -, hs⟩ := hok.reach.head_cases
      · omega
      · rw [drainOoo, if_neg (by simp [h1]), if_pos h2, ← hq]
      · have := hs.start
        omega
  rw [drainText, hdrain]
  exact ⟨_, rfl⟩

variable {dbg fl}

lemma QueueOk.of_rcv (h : QueueOk c q) (hrcv : c'.rcv = c.rcv) : QueueOk c' q := by
  obtain ⟨⟨h1, h2, h3, h4⟩, h5, h6⟩ := h
  rw [← hrcv] at h1 h3 h4 h5 h6
  exact ⟨⟨h1, h2, h3, h4⟩, h5, h6⟩

lemma Acceptable.queueOk_insert {q : List Mbuf} {n : ℕ} (hm : Acceptable c m)
    (hq : QueueOk c c.rx.ooo) (hstart : 0 < sdist m.segSeq c.rcv.nxt)
    (hins : oooInsert m c.rx.ooo.reverse = some q) :
    QueueOk { c with rx.ooo := q.reverse, rx.oooLen := n } q.reverse :=
  (hq.insert hm.wf hstart hm.stop hm.stop_le hins).of_rcv rfl

/-- A segment is left alone, it is used, or it fills the window, and a queued FIN behind it is drained at the closed
window. -/
inductive TextOutcome (c : Conn) (m : Mbuf) : Except Fault (Option (Conn × TextFlags)) → Prop
  | unused : TextOutcome c m (.ok none)
  | used {c' : Conn} {fl : TextFlags} (h : TextMove c m c' fl.fin) : TextOutcome c m (.ok (some (c', fl)))
  | crash {pos : Mbuf} {d : Draining} (hs : Straddles c m)
      (hd : Drains ⟨c.rx.ooo, enqueueText c (clipped c m), hasFlag m.flags tcpFin⟩ ⟨pos :: d.q, d.c, d.fin⟩)
      (hpos : Straddles d.c pos) (hfin : finLen pos = 1) (hwnd : d.c.rcv.wnd.toNat = 0) :
      TextOutcome c m (.error .bugTrim)

lemma tcpRxText_outcome (dbg : Bool) (hq : QueueOk c c.rx.ooo) (hm : Acceptable c m) :
    TextOutcome c m (tcpRxText dbg c m) := by
  have hwnd := hq.reach.wnd_le
  have hpos := hm.wnd_pos
  have hfin := finLen_le_one m
  unfold tcpRxText
  dsimp only
  rw [if_neg (by bv_omega : ¬ c.rcv.wnd = 0)]
  split
  · rename_i hlte
    have hs : Straddles c m := ⟨hm.wf, wrapsLte_iff.1 hlte, hm.stop⟩
    rw [tcpRxAppendText_eq dbg hs hwnd, if_pos (by omega)]
    dsimp only
    obtain ⟨d, hd, hend⟩ := drainText_drains dbg _ (hm.drainOk_append hs hq.reach)
    rw [inOrderFlags_fin] at hd
    generalize drainText dbg _ _ = res at hend ⊢
    cases hend with
    | done hfl hw =>
      refine .used ?_
      rw [hfl]
      exact .drained hs hd hw
    | crash hp hpfin hclosed => exact .crash hs hd hp hpfin hclosed
  · rename_i hlte
    have hstart : 0 < sdist m.segSeq c.rcv.nxt := by
      rw [wrapsLte_iff] at hlte
      omega
    split
    · exact .unused
    split
    · exact .unused
    · rename_i hroom _ q hins
      obtain ⟨wake, hdrain⟩ := drainText_waits dbg {} (hm.queueOk_insert hq hstart hins)
      rw [hdrain]
      exact .used (.queued hstart (not_le.1 hroom) hins)

lemma tcpRxText_move (hq : QueueOk c c.rx.ooo) (hm : Acceptable c m)
    (h : tcpRxText dbg c m = .ok (some (c', fl))) : TextMove c m c' fl.fin := by
  cases h ▸ tcpRxText_outcome dbg hq hm with
  | used h => exact h

lemma tcpRxText_outOfOrder (dbg : Bool) (hm : Acceptable c m) (hstart : 0 < sdist m.segSeq c.rcv.nxt)
    (hwnd : c.rcv.wnd.toNat ≤ 131071) (hooo : c.rx.ooo = []) (hlen : c.rx.oooLen = 0) :
    ∃ wake, tcpRxText dbg c m
      = .ok (some ({ c with rx.ooo := [m], rx.oooLen := 1 }, { wake := wake })) := by
  have hpos := hm.wnd_pos
  have hstart' : ¬ wrapsLte m.segSeq c.rcv.nxt := by
    rw [wrapsLte_iff]
    omega
  have hq : QueueOk c c.rx.ooo := by
    rw [hooo]
    exact ⟨⟨hwnd, by simp, by simp, by simp⟩, .nil, by simp⟩
  have hins : oooInsert m c.rx.ooo.reverse = some [m] := by
    rw [hooo]
    rfl
  have hok := hm.queueOk_insert (n := 1) hq hstart hins
  obtain ⟨wake, hdrain⟩ := drainText_waits dbg {} hok
  refine ⟨wake, ?_⟩
  unfold tcpRxText
  rw [if_neg (by bv_omega : ¬ c.rcv.wnd = 0), if_neg hstart',
    if_neg (by rw [hlen]; decide : ¬ tcpOooMaxSize ≤ c.rx.oooLen), hins, hlen]
  dsimp only
  rw [Nat.zero_add, hdrain]
  rfl

lemma tcpRxText_inOrder (dbg : Bool) (hs : Straddles c m) (hpos : 0 < c.rcv.wnd.toNat)
    (hwnd : c.rcv.wnd.toNat ≤ 131071) (hooo : c.rx.ooo = []) :
    ∃ wake, tcpRxText dbg c m = .ok (some (enqueueText c (clipped c m),
      { wake := wake, fin := hasFlag m.flags tcpFin })) := by
  have hfin := finLen_le_one m
  have hok : QueueOk (enqueueText c (clipped c m)) (enqueueText c (clipped c m)).rx.ooo := by
    have hle := enqueueText_clipped_wnd c m
    have hooo' : (enqueueText c (clipped c m)).rx.ooo = [] := hooo
    rw [hooo']
    exact ⟨⟨by omega, by simp, by simp, by simp⟩, .nil, by simp⟩
  unfold tcpRxText
  dsimp only
  rw [if_neg (by bv_omega : ¬ c.rcv.wnd = 0), if_pos (wrapsLte_iff.2 hs.start),
    tcpRxAppendText_eq dbg hs hwnd, if_pos (by omega)]
  obtain ⟨wake, hdrain⟩ := drainText_waits dbg (if hasFlag m.flags (tcpPush ||| tcpFin) ||
    !c.rx.q.isEmpty then { wake := true, fin := hasFlag m.flags tcpFin } else {}) hok
  refine ⟨wake, ?_⟩
  dsimp only
  rw [hdrain, inOrderFlags_fin]
  rfl

lemma tcpRxText_closes {p : Mbuf} (dbg : Bool) (hs : Straddles c m) (hpos : 0 < c.rcv.wnd.toNat)
    (hwnd : c.rcv.wnd.toNat ≤ 131071) (hfull : c.rcv.wnd.toNat ≤ ahead c m)
    (hooo : c.rx.ooo = p :: q) (hp : Straddles (enqueueText c (clipped c m)) p)
    (hfin : finLen p = 1) : tcpRxText dbg c m = .error .bugTrim := by
  have hle := finLen_le_one m
  have htaken : taken c m = c.rcv.wnd.toNat := min_eq_right hfull
  have hclosed := enqueueText_clipped_wnd c m
  have hooo' : (enqueueText c (clipped c m)).rx.ooo = p :: q := hooo
  have hstop := hp.stop
  have hstart := hp.start
  have hdist := hp.sdist_start
  have hwidth := hp.wf.width_le
  have hend : ¬ wrapsLte p.segEnd (enqueueText c (clipped c m)).rcv.nxt := by
    rw [wrapsLte_iff]
    omega
  have hseq : ¬ wrapsGt p.segSeq (enqueueText c (clipped c m)).rcv.nxt := by
    rw [wrapsGt_iff, sdist_swap (by omega)]
    omega
  unfold tcpRxText
  dsimp only
  rw [if_neg (by bv_omega : ¬ c.rcv.wnd = 0), if_pos (wrapsLte_iff.2 hs.start),
    tcpRxAppendText_eq dbg hs hwnd, if_pos (by omega)]
  dsimp only
  rw [drainText, hooo', drainOoo, if_neg hend, if_neg hseq,
    tcpRxAppendText_eq dbg (hp.of_oooLen _) (by dsimp only; omega), if_neg (by dsimp only; omega)]
  rfl

lemma TextMove.queueOk {fin : Bool} (h : TextMove c m c' fin) (hq : QueueOk c c.rx.ooo)
    (hm : Acceptable c m) : QueueOk c' c'.rx.ooo := by
  cases h with
  | queued hstart hroom hins => exact hm.queueOk_insert hq hstart hins
  | drained hs hd hw =>
    have hsorted := hq.reach.sorted_enqueueText (m := m) hq.sorted
    exact (Drains.queueOk hd (hm.drainOk_append hs hq.reach) hsorted hw).of_rcv rfl

end Aspen.Tcp
