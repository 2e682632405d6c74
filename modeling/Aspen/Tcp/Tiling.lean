import Aspen.Lib.Tiling
import Aspen.Tcp.Sending

/-!
# The TX queue tiles what is outstanding

The segments of `txq`, followed by `tx_pending`, are read as spans of positions, counted from the initial
sequence number as in `Sent`. They tile what lies between `snd_una` and `snd_nxt` in the sense of
`Aspen.Tiling`: while a writer holds the queue, segments that are acknowledged stay on it and one of them
may be cut, so there can be gaps below `snd_una`; once it is done there are none.
-/

namespace Aspen.Tcp

open Serial Run Tiling List BitVec

variable {dbg : Bool} {s s' : Sys} {e : Event} {U N U' N' R R' S S' : ℕ} {iss : Seq}
variable {lq : List (ℕ × ℕ)} {lp : Option (ℕ × ℕ)}

/-! ## The queue as positions -/

/-- The spans of `txq` and of `tx_pending`; what is used and promised reaches to `R`, no more than `S`
from the start of any of them. -/
structure Layout (U N R S : ℕ) (lq : List (ℕ × ℕ)) (lp : Option (ℕ × ℕ)) : Prop where
  tiles : Tiles U (lq ++ lp.toList) N
  near : ∀ x ∈ lq ++ lp.toList, x.2 ≤ x.1 + 65535 ∧ R ≤ x.1 + S
  order : ∀ y ∈ lp, ∀ x ∈ lq, x.1 < y.1

def Idle (U : ℕ) (l : List (ℕ × ℕ)) : Prop := Contiguous l ∧ ∀ x ∈ l.head?, U ≤ x.2

lemma Layout.mono (h : Layout U N R S lq lp) (hU : U ≤ U') (hR : R' + S ≤ R + S') : Layout U' N R' S' lq lp := by
  refine ⟨h.tiles.mono hU, ?_, h.order⟩
  intro x hx
  have := h.near x hx
  omega

lemma Layout.release (h : Layout U N R S lq lp) : Layout U N R S (lq.dropWhile fun x => decide (x.2 ≤ U)) lp := by
  have hsub : ∀ x ∈ (lq.dropWhile fun x => decide (x.2 ≤ U)) ++ lp.toList, x ∈ lq ++ lp.toList := by
    intro x hx
    rcases mem_append.1 hx with hx | hx
    · exact mem_append_left _ ((dropWhile_sublist _).subset hx)
    · exact mem_append_right _ hx
  exact ⟨h.tiles.dropWhile, fun x hx => h.near x (hsub x hx),
    fun y hy x hx => h.order y hy x ((dropWhile_sublist _).subset hx)⟩

lemma Layout.idle_release (h : Layout U N R S lq lp) (hle : U ≤ N) :
    Idle U ((lq.dropWhile fun x => decide (x.2 ≤ U)) ++ lp.toList) := by
  have htiles := h.release.tiles
  cases hdrop : lq.dropWhile fun x => decide (x.2 ≤ U) with
  | nil =>
    rw [hdrop] at htiles
    cases lp with
    | none => exact ⟨.nil, by simp⟩
    | some y =>
      refine ⟨.singleton _, ?_⟩
      intro x hx
      cases hx
      exact hle.trans (Tiles.last (l := []) htiles).ge
  | cons x l =>
    rw [hdrop] at htiles
    have hx : U < x.2 := by
      have hhead := head_dropWhile_not (fun x : ℕ × ℕ => decide (x.2 ≤ U)) (l := lq) (by simp [hdrop])
      simpa [hdrop] using hhead
    refine ⟨htiles.contiguous hx, ?_⟩
    intro x' hx'
    cases hx'
    exact hx.le

lemma Layout.enqueue (h : Layout U N R S lq none) (hN : N ≤ N') (hwidth : N' ≤ N + 65535)
    (hnear : R ≤ N + S) : Layout U N' R S (lq ++ [(N, N')]) none := by
  have htiles := h.tiles
  refine ⟨by simpa using htiles.snoc hN, ?_, by simp⟩
  intro x hx
  simp only [Option.toList_none, append_nil, mem_append, mem_singleton] at hx
  rcases hx with hx | rfl
  · exact h.near x (by simpa using hx)
  · exact ⟨hwidth, hnear⟩

lemma Layout.idle_enqueue (h : Layout U N R S lq none) (hi : Idle U (lq ++ (none : Option (ℕ × ℕ)).toList))
    (hU : U ≤ N) (hN : N ≤ N') : Idle U ((lq ++ [(N, N')]) ++ (none : Option (ℕ × ℕ)).toList) := by
  have htiles := h.tiles
  simp only [Option.toList_none, append_nil] at htiles hi ⊢
  refine ⟨hi.1.snoc ?_, ?_⟩
  · intro x hx
    obtain ⟨l, rfl⟩ := getLast?_eq_some_iff.1 hx
    exact htiles.last
  · intro x hx
    cases lq with
    | nil =>
      cases hx
      exact hU.trans hN
    | cons y l => exact hi.2 x hx

variable {a i b n : ℕ}

lemma Layout.grow (h : Layout U N R S lq (some (a, N))) (hN : N ≤ N')
    (hwidth : N' ≤ a + 65535) : Layout U N' R S lq (some (a, N')) := by
  have hmem : ∀ x ∈ lq ++ (some (a, N')).toList, x ∈ lq ∨ x = (a, N') := by simp
  refine ⟨h.tiles.grow hN, ?_, ?_⟩
  · intro x hx
    rcases hmem x hx with hx | rfl
    · exact h.near x (by simp [hx])
    · exact ⟨hwidth, (h.near (a, N) (by simp)).2⟩
  · intro y hy x hx
    cases hy
    exact h.order (a, N) rfl x hx

variable {y x : ℕ × ℕ}

lemma Layout.flush (h : Layout U N R S lq (some y)) : Layout U N R S (lq ++ [y]) none :=
  ⟨by simpa using h.tiles, by simpa using h.near, by simp⟩

lemma Layout.defer (h : Layout U N R S (lq ++ [y]) none) (hlt : ∀ x ∈ lq, x.1 < y.1) :
    Layout U N R S lq (some y) := by
  refine ⟨by simpa using h.tiles, by simpa using h.near, ?_⟩
  intro y' hy x hx
  cases hy
  exact hlt x hx

lemma Layout.trim (h : Layout U N R S lq lp) (hi : lq[i]? = some (a, b)) (ha : a ≤ U)
    (hb : U < b) : Layout U N R S (lq.set i (U, b)) lp := by
  have hlt : i < lq.length := (List.getElem?_eq_some_iff.1 hi).1
  have hmem : (a, b) ∈ lq := mem_of_getElem? hi
  have hset : lq.set i (U, b) ++ lp.toList = (lq ++ lp.toList).set i (U, b) := by
    rw [set_append_left i (U, b) hlt]
  have hold : ∀ x ∈ lq.set i (U, b), x ∈ lq ∨ x = (U, b) := fun x hx => mem_or_eq_of_mem_set hx
  refine ⟨?_, ?_, ?_⟩
  · rw [hset]
    exact h.tiles.trim (by rw [getElem?_append_left hlt]; exact hi) ha hb.le
  · intro x hx
    rcases mem_append.1 hx with hx | hx
    · rcases hold x hx with hx | rfl
      · exact h.near x (mem_append_left _ hx)
      · have := h.near (a, b) (mem_append_left _ hmem)
        omega
    · exact h.near x (mem_append_right _ hx)
  · intro y hy x hx
    rcases hold x hx with hx | rfl
    · exact h.order y hy x hx
    · cases hy
      exact hb.trans_le (Tiles.before (r := []) h.tiles hmem)

lemma Layout.idle_near (h : Layout U N R S lq lp) (hi : Idle U (lq ++ lp.toList))
    (hx : x ∈ lq ++ lp.toList) : U ≤ x.1 + 65535 := by
  have htiles := h.tiles
  have hnear := h.near
  cases hl : lq ++ lp.toList with
  | nil => simp [hl] at hx
  | cons y l =>
    rw [hl] at htiles hx hnear hi
    have hy := hi.2 y rfl
    have hyw := hnear y (by simp)
    have hle := htiles.head_le hx
    omega

/-! ## Positions and sequence numbers -/

def ends (m : Mbuf) : Seq × Seq := (m.segSeq, m.segEnd)

def place (iss : Seq) (x : ℕ × ℕ) : Seq × Seq := (iss + BitVec.ofNat 32 x.1, iss + BitVec.ofNat 32 x.2)

lemma ends_eq_place {m : Mbuf} {x : ℕ × ℕ} (h : ends m = place iss x) :
    m.segSeq = iss + BitVec.ofNat 32 x.1 ∧ m.segEnd = iss + BitVec.ofNat 32 x.2 :=
  Prod.ext_iff.1 h

lemma map_ends_of_span {q q' : List Mbuf} (h : q'.map span = q.map span) : q'.map ends = q.map ends := by
  have hends : ends = (fun x : Seq × Seq × Flags => (x.1, x.2.1)) ∘ span := rfl
  rw [hends, ← map_map, h, map_map]

lemma wrapsGt_ofNat (hlo : b ≤ a + 2147483647) (hhi : a ≤ b + 2147483647) :
    wrapsGt (iss + BitVec.ofNat 32 a) (iss + BitVec.ofNat 32 b) ↔ b < a := by
  rw [wrapsGt_iff, sdist_ofNat (by omega) (by omega)]
  omega

lemma wrapsLt_ofNat (hlo : b ≤ a + 2147483647) (hhi : a ≤ b + 2147483647) :
    wrapsLt (iss + BitVec.ofNat 32 a) (iss + BitVec.ofNat 32 b) ↔ a < b := by
  rw [wrapsLt_iff, sdist_ofNat (by omega) (by omega)]
  omega

lemma wrapsLte_ofNat (hlo : b ≤ a + 2147483647) (hhi : a ≤ b + 2147483647) :
    wrapsLte (iss + BitVec.ofNat 32 a) (iss + BitVec.ofNat 32 b) ↔ a ≤ b := by
  rw [wrapsLte_iff, sdist_ofNat (by omega) (by omega)]
  omega

lemma map_ends_dropWhile {q : List Mbuf} (hq : q.map ends = lq.map (place iss))
    (hnear : ∀ x ∈ lq, U ≤ x.2 + 2147483647 ∧ x.2 ≤ U + 2147483647) :
    (q.dropWhile fun m => !wrapsGt m.segEnd (iss + BitVec.ofNat 32 U)).map ends
      = (lq.dropWhile fun x => decide (x.2 ≤ U)).map (place iss) := by
  induction lq generalizing q with
  | nil =>
    rw [map_nil, map_eq_nil_iff] at hq
    simp [hq]
  | cons x lq ih =>
    cases q with
    | nil => simp at hq
    | cons m q =>
      simp only [map_cons, List.cons.injEq] at hq
      obtain ⟨hm, hq⟩ := hq
      have hend := (ends_eq_place hm).2
      have hgt : wrapsGt (iss + BitVec.ofNat 32 x.2) (iss + BitVec.ofNat 32 U) ↔ U < x.2 :=
        wrapsGt_ofNat (hnear x (by simp)).1 (hnear x (by simp)).2
      by_cases hx : x.2 ≤ U
      · rw [dropWhile_cons_of_pos, dropWhile_cons_of_pos]
        · exact ih hq fun y hy => hnear y (by simp [hy])
        · simpa using hx
        · rw [hend, Bool.not_eq_true', ← Bool.not_eq_true, hgt]
          omega
      · rw [dropWhile_cons_of_neg, dropWhile_cons_of_neg]
        · simp [hm, hq]
        · simpa using hx
        · rw [hend, Bool.not_eq_true', ← Bool.not_eq_true, hgt]
          omega

structure Laid (s : Sys) (U N : ℕ) (lq : List (ℕ × ℕ)) (lp : Option (ℕ × ℕ)) : Prop where
  q : s.c.tx.q.map ends = lq.map (place s.c.snd.iss)
  pending : s.c.tx.pending.map ends = lp.map (place s.c.snd.iss)
  layout : Layout U N (N + budget s.writer) (1073807360 + s.c.tx.ctlLog.length) lq lp
  filled : ∀ p ∈ s.c.tx.pending, ∀ y ∈ lp, y.2 = y.1 + p.data.length ∧ p.data.length ≤ s.c.snd.mss.toNat
  idle : s.writer = none → Idle U (lq ++ lp.toList)

structure Keeps (s s' : Sys) : Prop where
  iss : s'.c.snd.iss = s.c.snd.iss
  pending : s'.c.tx.pending = s.c.tx.pending
  ctlLog : s'.c.tx.ctlLog = s.c.tx.ctlLog
  mss : s.c.tx.pending = none ∨ s'.c.snd.mss = s.c.snd.mss

lemma Laid.filled_of (h : Laid s U N lq lp) (hk : Keeps s s') : ∀ p ∈ s'.c.tx.pending, ∀ y ∈ lp,
      y.2 = y.1 + p.data.length ∧ p.data.length ≤ s'.c.snd.mss.toNat := by
  rw [hk.pending]
  intro p hp'
  rcases hk.mss with hnone | hmss
  · simp [hnone] at hp'
  · rw [hmss]
    exact h.filled p hp'

lemma Laid.bounds (h : Laid s U N lq lp) (hS : Sent s U N) (hx : x ∈ lq ++ lp.toList) :
    x.1 ≤ x.2 ∧ x.2 ≤ N ∧ N ≤ x.1 + 1610678272 ∧ N ≤ U + 1610612736 := by
  obtain ⟨h1, h2⟩ := h.layout.tiles.bounds hx
  have hnear := h.layout.near x hx
  have hroom := hS.room
  have hfew := hS.few
  omega

/-! ## What a step does to the queue -/

lemma Laid.still (h : Laid s U N lq lp) (hU : U ≤ U') (hk : Keeps s s')
    (hq : s'.c.tx.q.map ends = s.c.tx.q.map ends) (hbudget : budget s'.writer ≤ budget s.writer)
    (hidle : s'.writer = none → s.writer = none ∧ U' = U) : Laid s' U' N lq lp := by
  refine ⟨by rw [hq, hk.iss, h.q], by rw [hk.pending, hk.iss, h.pending], ?_, h.filled_of hk, ?_⟩
  · rw [hk.ctlLog]
    exact h.layout.mono hU (by omega)
  · intro hw
    obtain ⟨hw', rfl⟩ := hidle hw
    exact h.idle hw'

lemma Laid.release (h : Laid s U N lq lp) (hS : Sent s U N) (hS' : Sent s' U' N) (hU : U ≤ U') (hk : Keeps s s')
    (hq : s'.c.tx.q.map ends
      = (s.c.tx.q.dropWhile fun m => !wrapsGt m.segEnd s'.c.snd.una).map ends)
    (hbudget : budget s'.writer ≤ budget s.writer) : ∃ lq', Laid s' U' N lq' lp := by
  have hnear : ∀ x ∈ lq, U' ≤ x.2 + 2147483647 ∧ x.2 ≤ U' + 2147483647 := by
    intro x hx
    have hb := h.bounds hS (mem_append_left _ hx)
    have hle := hS'.le
    omega
  have hlayout : Layout U' N (N + budget s'.writer) (1073807360 + s'.c.tx.ctlLog.length) lq lp :=
    h.layout.mono hU (by rw [hk.ctlLog]; omega)
  refine ⟨_, ?_, by rw [hk.pending, hk.iss, h.pending], hlayout.release, h.filled_of hk,
    fun _ => hlayout.idle_release hS'.le⟩
  rw [hq, hS'.una, hk.iss]
  exact map_ends_dropWhile h.q hnear

variable {m : Mbuf}

lemma Laid.enqueue (h : Laid s U N lq lp) (hS : Sent s U N)
    (hiss : s'.c.snd.iss = s.c.snd.iss) (hp : s.c.tx.pending = none) (hp' : s'.c.tx.pending = none)
    (hm : ends m = (s.c.snd.nxt, s.c.snd.nxt + 1)) (hq : s'.c.tx.q = s.c.tx.q ++ [m])
    (hctl : s'.c.tx.ctlLog.length = s.c.tx.ctlLog.length + 1) (hw : s'.writer = s.writer) :
    ∃ lq', Laid s' U (N + 1) lq' none := by
  have hlp : lp = none := by
    have hnone := h.pending
    rw [hp, Option.map_none, eq_comm, Option.map_eq_none_iff] at hnone
    exact hnone
  subst hlp
  have hroom := hS.room
  have hle := hS.le
  refine ⟨lq ++ [(N, N + 1)], ?_, by rw [hp']; rfl, ?_, by simp [hp'], ?_⟩
  · rw [hq, map_append, map_append, h.q, hiss]
    simp [hm, place, hS.nxt, ofNat_add, add_assoc]
  · exact (h.layout.enqueue (by omega) (by omega) (by omega)).mono le_rfl (by rw [hctl, hw]; omega)
  · intro hnone
    exact h.layout.idle_enqueue (h.idle (hw ▸ hnone)) hS.le (by omega)

lemma Laid.writing (h : Laid s U N lq lp) (hk : Keeps s s') (hq : s'.c.tx.q = s.c.tx.q)
    (hw : s.writer = none) (hw' : s'.writer ≠ none)
    (hbudget : N + budget s'.writer ≤ U + 1073741824) : Laid s' U N lq lp := by
  refine ⟨by rw [hq, hk.iss, h.q], by rw [hk.pending, hk.iss, h.pending],
    ⟨h.layout.tiles, ?_, h.layout.order⟩, h.filled_of hk, fun hnone => absurd hnone hw'⟩
  intro x hx
  have hnear := h.layout.idle_near (h.idle hw) hx
  rw [hk.ctlLog]
  exact ⟨(h.layout.near x hx).1, by omega⟩

lemma Laid.trim {m' : Mbuf} (h : Laid s U N lq lp) (hS : Sent s U N) (hk : Keeps s s')
    (hi : s.c.tx.q[i]? = some m) (hend : m'.segEnd = m.segEnd)
    (hseq : m'.segSeq = m.segSeq ∨ wrapsLt m.segSeq s.c.snd.una ∧
      wrapsLte m.segEnd s.c.snd.una = false ∧ m'.segSeq = s.c.snd.una)
    (hq : s'.c.tx.q = s.c.tx.q.set i m') (hw : budget s'.writer ≤ budget s.writer) (hw' : s'.writer ≠ none) :
    ∃ lq', Laid s' U N lq' lp := by
  have hset : s'.c.tx.q.map ends = (s.c.tx.q.map ends).set i (ends m') := by
    rw [hq, map_set]
  have hmi : (s.c.tx.q.map ends)[i]? = some (ends m) := by
    rw [getElem?_map, hi]
    rfl
  rcases hseq with hseq | ⟨hlt, hnle, hseq⟩
  · have hsame : ends m' = ends m := by rw [ends, hseq, hend, ends]
    refine ⟨lq, h.still le_rfl hk ?_ hw fun hnone => absurd hnone hw'⟩
    obtain ⟨hlt, hget⟩ := List.getElem?_eq_some_iff.1 hmi
    rw [hset, hsame, ← hget, set_getElem_self]
  · rw [h.q, getElem?_map, Option.map_eq_some_iff] at hmi
    obtain ⟨x, hx, hplace⟩ := hmi
    have hb := h.bounds hS (mem_append_left _ (mem_of_getElem? hx))
    obtain ⟨hx1, hx2⟩ := ends_eq_place hplace.symm
    have hle := hS.le
    have ha : x.1 < U := by
      rw [hx1, hS.una] at hlt
      exact (wrapsLt_ofNat (by omega) (by omega)).1 hlt
    have hb' : U < x.2 := by
      rw [hx2, hS.una, ← Bool.not_eq_true, wrapsLte_ofNat (by omega) (by omega)] at hnle
      omega
    refine ⟨lq.set i (U, x.2), ?_, by rw [hk.pending, hk.iss, h.pending], ?_, h.filled_of hk,
      fun hnone => absurd hnone hw'⟩
    · rw [hset, h.q, hk.iss, map_set]
      congr 1
      rw [ends, hseq, hend, hS.una, hx2]
      rfl
    · exact (h.layout.trim hx ha.le hb').mono le_rfl (by rw [hk.ctlLog]; omega)

lemma Laid.fill {rest : List UInt8} (h : Laid s U N lq lp) (hS : Sent s U N)
    (hmss : s.c.snd.mss.toNat ≤ 65535) (hf : Filled s.c rest n m) (hn : n ≤ rest.length) :
    ∃ y : ℕ × ℕ, ends m = place s.c.snd.iss y ∧ (y.2 = y.1 + m.data.length ∧ m.data.length ≤ s.c.snd.mss.toNat) ∧
      Layout U (N + n) (N + budget s.writer) (1073807360 + s.c.tx.ctlLog.length) (lq ++ [y]) none ∧
      (y.1 = N ∧ s.c.tx.pending = none ∧ m.data.length = n ∨ ∀ x ∈ lq, x.1 < y.1) := by
  have hroom := hS.room
  have hle := hS.le
  have htake : (rest.take n).length = n := by rw [length_take, min_eq_left hn]
  have hnxt : s.c.snd.nxt + BitVec.ofNat 32 n = s.c.snd.iss + BitVec.ofNat 32 (N + n) := by
    rw [hS.nxt, ofNat_add, add_assoc]
  have hpos := h.pending
  cases hf with
  | @pending p _ hp hn' hseq hend hdata =>
    rw [hp, Option.map_some, eq_comm, Option.map_eq_some_iff] at hpos
    obtain ⟨y, rfl, hy⟩ := hpos
    obtain ⟨a, b⟩ := y
    obtain ⟨hfill, hlen⟩ := h.filled p hp (a, b) rfl
    obtain rfl : b = N := h.layout.tiles.last
    have hroom' : n ≤ s.c.snd.mss.toNat - p.data.length := by
      rwa [toNat_sub_of_le, toNat_ofNat, Nat.mod_eq_of_lt] at hn'
      · omega
      · rw [le_def, toNat_ofNat, Nat.mod_eq_of_lt (by omega)]
        exact hlen
    have hdlen : m.data.length = p.data.length + n := by
      rw [hdata, length_append, htake]
    refine ⟨(a, b + n), ?_, ⟨?_, ?_⟩, ?_, .inr (h.layout.order (a, b) rfl)⟩
    · obtain ⟨h1, h2⟩ := ends_eq_place hy.symm
      rw [ends, hseq, hend, h1, h2, place, ofNat_add, add_assoc]
    · omega
    · omega
    · exact (h.layout.grow (by omega) (by omega)).flush
  | fresh hp hn' hseq hend hdata =>
    rw [hp, Option.map_none, eq_comm, Option.map_eq_none_iff] at hpos
    subst hpos
    have hdlen : m.data.length = n := by rw [hdata, htake]
    refine ⟨(N, N + n), ?_, ⟨?_, ?_⟩, ?_, .inl ⟨rfl, hp, hdlen⟩⟩
    · rw [ends, hseq, hend, hnxt, hS.nxt]
      rfl
    · rw [hdlen]
    · omega
    · exact h.layout.enqueue (by omega) (by omega) (by omega)

lemma tcpTxDefers_length {mss : Seq} (h : tcpTxDefers m mss) : 20 ≤ m.data.length := by
  simp only [tcpTxDefers, decide_eq_true_eq, lt_def, mbufLength, toNat_sub, toNat_ofNat, toNat_setWidth] at h
  omega

def Sys.sending (s : Sys) : Event → Option Send
  | .sendRound _ => match s.writer with
    | some (.send snd) => snd
    | _ => none
  | _ => none

/-- A FIN is queued only if nothing is deferred, and nothing is deferred behind a segment that starts at `snd_nxt`. -/
def TileOk (s : Sys) (e : Event) : Prop := (∀ env ∈ finEnv s e, env.alloc = true → s.c.tx.pending = none) ∧
  ∀ snd ∈ s.sending e, s.c.tx.pending = none → (∃ m ∈ s.c.tx.q, m.segSeq = s.c.snd.nxt) →
    snd.push = true ∨ snd.rest.length < 20 ∨ s.c.snd.mss.toNat < snd.rest.length
deriving Decidable

variable {env : Env} {c₁ c c' : Conn}

lemma Laid.send {snd : Send} {rest : List UInt8} {rd : SendRound}
    (h : Laid s U N lq lp) (hS : Sent s U N) (hmss : s.c.snd.mss.toNat ≤ 65535)
    (hok : s.c.tx.pending = none → (∃ m ∈ s.c.tx.q, m.segSeq = s.c.snd.nxt) →
      snd.push ∨ snd.rest.length < 20 ∨ s.c.snd.mss.toNat < snd.rest.length)
    (hw : s.writer = some (.send (some snd))) (hr : tcpTxSendRound env s.c snd.rest snd.push = (c₁, rest, rd))
    (hs' : s' = { s with c := c₁, writer := some (.send (sendNext snd rest rd)) }) :
    ∃ n lq' lp', s'.c.snd.nxt = s.c.snd.nxt + BitVec.ofNat 32 n ∧ n ≤ 65535 ∧
      Laid s' U (N + n) lq' lp' := by
  have hsnd := hS.writing snd hw
  have hbudget : budget s.writer = snd.winlen - snd.sent := by rw [hw]; rfl
  have hnext : ∀ n, n ≤ snd.rest.length → rest = snd.rest.drop n → n + budget s'.writer ≤ budget s.writer := by
    intro n hn hrest
    rw [hs', hbudget, hrest]
    exact sendNext_budget hsnd hn
  subst hs'
  obtain ⟨rfl, hrest, -⟩ | ⟨m, n, hn, hrest, hf, hcase⟩ := tcpTxSendRound_cases hr
  · have hb := hnext 0 (Nat.zero_le _) (by rw [hrest, drop_zero])
    exact ⟨0, lq, lp, by simp, by omega, h.still le_rfl ⟨rfl, rfl, rfl, .inr rfl⟩ rfl (by omega) (by simp)⟩
  obtain ⟨y, hy, hfilled, hlayout, hstart⟩ := h.fill hS hmss hf hn
  have hb := hnext n hn hrest
  have hn' : n ≤ 65535 := by
    cases hf with
    | @pending p _ hp hn' hseq hend hdata =>
      have : m.data.length = p.data.length + n := by
        rw [hdata, length_append, length_take, min_eq_left hn]
      omega
    | fresh hp hn' hseq hend hdata => omega
  obtain ⟨-, ⟨hpush, hrest', hdefer⟩, rfl⟩ | ⟨-, _, _, rfl⟩ := hcase
  · -- a buffer that starts at `snd_nxt` is kept only if no segment does
    have hlt : ∀ x ∈ lq, x.1 < y.1 := by
      rcases hstart with ⟨hy1, hp, hdlen⟩ | hlt
      · intro x hx
        have hbx := h.bounds hS (mem_append_left _ hx)
        rw [hy1]
        by_contra hge
        obtain ⟨m0, hm0, hends⟩ : ∃ m0 ∈ s.c.tx.q, ends m0 = place s.c.snd.iss x := by
          have hmem : place s.c.snd.iss x ∈ s.c.tx.q.map ends := by
            rw [h.q]
            exact mem_map_of_mem hx
          exact mem_map.1 hmem
        have hseq : m0.segSeq = s.c.snd.nxt := by
          have hxN : x.1 = N := by omega
          rw [(ends_eq_place hends).1, hxN, hS.nxt]
        have hdlen' := tcpTxDefers_length hdefer
        rcases hok hp ⟨m0, hm0, hseq⟩ with hok | hok | hok
        · simp [hpush] at hok
        · omega
        · omega
      · exact hlt
    refine ⟨n, lq, some y, rfl, hn', h.q, ?_, ?_, ?_, by simp⟩
    · rw [Option.map_some, Option.map_some, hy]
    · exact (hlayout.defer hlt).mono le_rfl (by dsimp only at hb ⊢; omega)
    · rintro p hp y' hy'
      cases hp
      cases hy'
      exact hfilled
  · refine ⟨n, lq ++ [y], none, rfl, hn', ?_, rfl, ?_, by simp, by simp⟩
    · rw [map_append, map_append, h.q]
      simp [hy]
    · exact hlayout.mono le_rfl (by dsimp only at hb ⊢; omega)

/-! ## Segments and the queue -/

inductive RxQueue (c c' : Conn) : Prop
  | closed (hst : c'.state = .closed)
  | released (hnxt : c'.snd.nxt = c.snd.nxt) (hp : c'.tx.pending = c.tx.pending)
      (hctl : c'.tx.ctlLog = c.tx.ctlLog)
      (hq : c'.tx.q.map ends = c.tx.q.map ends ∧ (c.tx.exclusive = false → c'.snd.una = c.snd.una) ∨
        c'.tx.q.map ends = (c.tx.q.dropWhile fun m => !wrapsGt m.segEnd c'.snd.una).map ends)
  | answered {m : Mbuf} (hst : c.state = .synSent) (hm : ends m = (c.snd.nxt, c.snd.nxt + 1))
      (huna : c'.snd.una = c.snd.una) (hnxt : c'.snd.nxt = c.snd.nxt + 1)
      (hp : c'.tx.pending = c.tx.pending) (hq : c'.tx.q = c.tx.q ++ [m])
      (hctl : c'.tx.ctlLog.length = c.tx.ctlLog.length + 1)

lemma entered_tx (c : Conn) (r : RxSeg) : (entered c r).tx = c.tx := by
  unfold entered
  split
  · rfl
  · rfl

lemma entered_una (c : Conn) (r : RxSeg) : (entered c r).snd.una = c.snd.una := by
  unfold entered
  split
  · rfl
  · rfl

variable {r : RxSeg}

lemma AckPhase.queue (h : AckPhase (entered c r) r c₁) :
    c₁.tx.pending = c.tx.pending ∧ c₁.tx.exclusive = c.tx.exclusive ∧
      (c₁.tx.q.map ends = c.tx.q.map ends ∧ (c.tx.exclusive = false → c₁.snd.una = c.snd.una) ∨
        c₁.tx.q.map ends = (c.tx.q.dropWhile fun m => !wrapsGt m.segEnd c₁.snd.una).map ends) := by
  have htx := entered_tx c r
  have huna := entered_una c r
  cases h with
  | mk hwnd hq =>
    have hq := map_ends_of_span hq
    rw [htx]
    refine ⟨rfl, rfl, ?_⟩
    rw [hq, ackedQueue, htx, huna]
    split
    · rename_i hkeep
      refine .inl ⟨rfl, ?_⟩
      intro hexcl
      rcases hkeep with hkeep | hkeep
      · simp [hexcl] at hkeep
      · exact hkeep
    · exact .inr rfl

section

variable (h : RxMove dbg env c r c')
include h

lemma RxMove.queue : RxQueue c c' := by
  cases h with
  | quiet => exact .released rfl rfl rfl (.inl ⟨rfl, fun _ => rfl⟩)
  | failed hst => exact .closed (by rw [tcpConnFail_eq])
  | @synAcked o t hst hack huna =>
    rw [synConn_eq, applyOptions_eq]
    refine .released rfl rfl rfl ?_
    by_cases hflag : hasFlag r.m.flags tcpAck
    · by_cases hexcl : c.tx.exclusive
      · exact .inl ⟨by simp [hexcl], fun hx => by simp [hexcl] at hx⟩
      · right
        simp [hflag, hexcl]
    · exact .inl ⟨by simp [hflag], fun _ => by simp [hflag]⟩
  | @synCrossed o opts c₁ ret t hst hack huna hctl =>
    have hflag := RxMove.crossed_flag hack huna
    rw [synConn_eq, applyOptions_eq] at hctl
    simp only [hflag, Bool.false_eq_true, if_false, Bool.false_and] at hctl
    obtain ⟨-, rfl, -⟩ | ⟨-, -, m, h1, h2, -, rfl⟩ := tcpTxCtl_cases hctl
    · exact .released rfl rfl rfl (.inl ⟨rfl, fun _ => rfl⟩)
    · refine .answered hst ?_ rfl rfl rfl rfl (by simp)
      rw [ends, h1, h2]
  | lastAcked hst hacc hack huna => exact .closed (by rw [tcpConnPutSm_eq])
  | text hst hacc hack hlast htext =>
    obtain ⟨-, -, hnxt, -, -, hctl⟩ := hack.sent
    obtain ⟨hp, -, hq⟩ := hack.queue
    obtain ⟨rcv, rx, rfl⟩ := htext.frame
    exact .released hnxt hp hctl hq

lemma RxMove.mss_of_left (hst : c.state = .synSent) (hcl : c'.state ≠ .closed) (hss : c'.state ≠ .synSent) :
    c'.snd.mss.toNat ≤ 65535 := by
  cases h.frame with
  | quiet => exact absurd hst hss
  | failed | lastAcked => exact absurd rfl hcl
  | syn _ _ hmss => exact hmss
  | text hst' => exact absurd hst hst'.2

lemma RxMove.pending (hp : c.tx.pending = none) : c'.tx.pending = none := by
  cases h.frame with
  | failed _ htx => simp [htx, hp]
  | _ => exact hp

lemma RxMove.exclusive : c'.tx.exclusive = c.tx.exclusive ∧
      (c'.snd.mss = c.snd.mss ∨ c.state = .synSent ∧ c'.snd.mss.toNat ≤ 65535) := by
  cases h.frame with
  | failed _ htx => exact ⟨by rw [htx], .inl rfl⟩
  | syn hst _ hmss => exact ⟨rfl, .inr ⟨hst, hmss⟩⟩
  | _ => exact ⟨rfl, .inl rfl⟩

end

/-! ## Who works on the queue -/

section

variable (h : step dbg s e = .ok s')
include h

lemma exclusive_step (hi : s.c.tx.exclusive = s.writer.isSome) : s'.c.tx.exclusive = s'.writer.isSome := by
  cases stepped h with
  | ingress _ ho => exact (tcpRxConnLocked_move ho).exclusive.1.trans hi
  | closeFailed | failed =>
    rw [tcpConnFail_eq]
    exact hi
  | sent hw | resent hw =>
    rw [hw] at hi
    exact hi
  | writing | resending | finished => rfl
  | _ => exact hi

lemma unsynced_queue_step (hi : Unsynced s → s.c.tx.pending = none ∧ ∀ snd, s.writer ≠ some (.send snd))
    (hu : Unsynced s') : s'.c.tx.pending = none ∧ ∀ snd, s'.writer ≠ some (.send snd) := by
  obtain ⟨hp, hsend⟩ := hi (unsynced_of_step h hu)
  cases stepped h with
  | ingress _ ho => exact ⟨(tcpRxConnLocked_move ho).pending hp, hsend⟩
  | closeFailed | failed =>
    refine ⟨?_, hsend⟩
    rw [tcpConnFail_eq]
    exact ite_eq_right_iff.2 fun _ => hp
  | writing ho hopen hblock =>
    -- a write waits for the handshake
    exfalso
    rcases hu with hfresh | hst
    · rw [show _ = Owner.app from ho] at hfresh
      cases hfresh
    · have hopen := (tcpWriteBlocks_eq_false hblock hopen).1
      rw [show s.c.state = .synSent from hst] at hopen
      cases hopen
  | sent hw => exact absurd hw (hsend _)
  | resending | resent => exact ⟨hp, nofun⟩
  | finished => exact ⟨ite_eq_left_iff.2 fun _ => hp, nofun⟩
  | _ => exact ⟨hp, hsend⟩

lemma fresh_queue_step (hclosers : s.owner.fresh → s.closers = [])
    (hst : s.owner.fresh → s.c.state = .closed)
    (hi : s.owner.fresh → s.c.tx.q = [] ∧ s.c.snd.nxt = s.c.snd.una ∧ s.writer = none)
    (hfresh : s'.owner.fresh) : s'.c.tx.q = [] ∧ s'.c.snd.nxt = s'.c.snd.una ∧ s'.writer = none := by
  have hold : s.owner.fresh := step_fresh h hfresh ▸ hfresh
  obtain ⟨hq, hnxt, hw⟩ := hi hold
  have hclosed := hst hold
  cases stepped h with
  | ingress _ ho =>
    obtain ⟨t, ht⟩ := (tcpRxConnLocked_move ho).of_closed hclosed
    rw [ht]
    exact ⟨hq, hnxt, hw⟩
  | shutdown _ he | close _ he | closeFailed _ he => cases (finEnv_fresh hold (hclosers hold)).symm.trans he
  | failed =>
    rw [tcpConnFail_eq]
    exact ⟨by simp [hq], hnxt, hw⟩
  | opened ho => cases ho.spec.2.1.symm.trans hfresh
  | openFailed => cases hfresh
  | expired hst' => cases hclosed.symm.trans hst'
  | writing ho =>
    rw [ho] at hold
    cases hold
  | resending _ hst' => exact absurd hclosed hst'
  | sent hw' | resent hw' => cases hw.symm.trans hw'
  | finished hw' => simp [hw] at hw'
  | _ => exact ⟨hq, hnxt, hw⟩

lemma mss_changed : s'.c.snd.mss = s.c.snd.mss ∨ s.c.state = .synSent ∧ s'.c.snd.mss.toNat ≤ 65535 := by
  cases stepped h with
  | ingress _ ho => exact (tcpRxConnLocked_move ho).exclusive.2
  | failed => exact .inl (by rw [tcpConnFail_eq])
  | closeFailed =>
    left
    rw [tcpConnFail_eq]
    rfl
  | _ => exact .inl rfl

end

structure Tidy (s : Sys) : Prop where
  exclusive : s.c.tx.exclusive = s.writer.isSome
  closers : s.owner.fresh = true → s.closers = []
  fresh : s.owner.fresh = true → s.c.tx.q = [] ∧ s.c.snd.nxt = s.c.snd.una ∧ s.writer = none
  unsynced : Unsynced s → s.c.tx.pending = none ∧ ∀ snd, s.writer ≠ some (.send snd)
  mss : s.c.state = .closed ∨ s.c.state = .synSent ∨ s.c.snd.mss.toNat ≤ 65535
  listening : ∀ opts, s.owner = .listening opts → s.c.snd.mss.toNat ≤ 65535

lemma Tidy.mss_step (hi : Tidy s) (h : step dbg s e = .ok s') :
    s'.c.state = .closed ∨ s'.c.state = .synSent ∨ s'.c.snd.mss.toNat ≤ 65535 := by
  rcases mss_changed h with hmss | ⟨-, hmss⟩
  · rw [hmss]
    cases step_state h with
    | same hst =>
      rw [hst]
      exact hi.mss
    | failed hst herr => exact .inl hst
    | ingress hr hm =>
      rcases hi.mss with hst | hst | hle
      · exact .inl (hm.closed hst).1
      · -- a SYN that leaves SYN_SENT has set the size
        by_cases hst' : s'.c.state = .closed ∨ s'.c.state = .synSent
        · exact hst'.elim .inl fun hst' => .inr (.inl hst')
        · refine .inr (.inr ?_)
          rw [← hmss]
          exact hm.mss_of_left hst (fun hcl => hst' (.inl hcl)) fun hss => hst' (.inr hss)
      · exact .inr (.inr hle)
    | fin hst =>
      rw [hst]
      rcases hi.mss with hst | hst | hle
      · exact .inl (by rw [hst]; rfl)
      · exact .inr (.inl (by rw [hst]; rfl))
      · exact .inr (.inr hle)
    | opened ho ho' hst hdial =>
      cases howner : s.owner with
      | dialing nonblocking => exact .inr (.inl (hdial nonblocking howner))
      | listening opts => exact .inr (.inr (hi.listening opts howner))
      | _ => simp [howner, Owner.fresh] at ho
    | expired hst hst' => exact .inl hst'
  · exact .inr (.inr hmss)

lemma Tidy.step (hi : Tidy s) (hst : s.owner.fresh → s.c.state = .closed)
    (h : step dbg s e = .ok s') : Tidy s' := by
  refine ⟨exclusive_step h hi.exclusive, fresh_closers_step h hi.closers,
    fresh_queue_step h hi.closers hst hi.fresh, unsynced_queue_step h hi.unsynced, hi.mss_step h, ?_⟩
  intro opts ho
  have hown := step_fresh h (by rw [ho]; rfl)
  rcases mss_changed h with hmss | ⟨-, hmss⟩
  · rw [hmss]
    exact hi.listening opts (hown ▸ ho)
  · exact hmss

lemma tidy_initial (h : Initial s) : Tidy s := by
  cases h with
  | dial iss mtu attachTs nonblocking =>
    exact ⟨rfl, fun _ => rfl, fun _ => ⟨rfl, rfl, rfl⟩, fun _ => ⟨rfl, by simp⟩, .inl rfl, by simp⟩
  | @listen iss mtu attachTs p c opts hl =>
    obtain ⟨o, rfl⟩ := tcpRxListener_attached hl
    have hmss := fun c => applyOptions_mss_le c o
    refine ⟨?_, fun _ => rfl, fun _ => ?_, fun _ => ⟨?_, by simp⟩, ?_, fun _ _ => hmss _⟩
    · rw [applyOptions_eq]
      rfl
    · rw [applyOptions_eq]
      exact ⟨rfl, rfl, rfl⟩
    · rw [applyOptions_eq]
      rfl
    · rw [applyOptions_eq]
      exact .inl rfl

/-! ## Whole runs -/

def LaidOut (s : Sys) (U N : ℕ) : Prop := s.c.state ≠ .closed → ∃ lq lp, Laid s U N lq lp

structure Onward (s s' : Sys) (U N U' N' : ℕ) : Prop where
  old : Sent s U N
  new : Sent s' U' N'
  iss : s'.c.snd.iss = s.c.snd.iss
  una : U ≤ U'
  nxt : U' ≤ N

section

variable (h : Onward s s' U N U' N')
include h

lemma Onward.nxt_eq (hn : n ≤ 65535) (hnxt : s'.c.snd.nxt = s.c.snd.nxt + BitVec.ofNat 32 n) : N' = N + n := by
  obtain ⟨hS, hS', hiss, hU, hUN⟩ := h
  have hroom := hS.room
  have hroom' := hS'.room
  have hfew := hS.few
  have hfew' := hS'.few
  have hle := hS'.le
  rw [hS'.nxt, hS.nxt, hiss, add_assoc, ← ofNat_add] at hnxt
  rcases Nat.le_total N' (N + n) with hle' | hle'
  · exact (ofNat_offset_inj hnxt.symm hle' (by omega)).symm
  · exact ofNat_offset_inj hnxt hle' (by omega)

lemma Onward.una_eq (huna : s'.c.snd.una = s.c.snd.una) : U' = U := by
  obtain ⟨hS, hS', hiss, hU, hUN⟩ := h
  have hroom := hS.room
  have hfew := hS.few
  rw [hS'.una, hS.una, hiss] at huna
  exact ofNat_offset_inj huna hU (by omega)

lemma Onward.same (huna : s'.c.snd.una = s.c.snd.una) (hnxt : s'.c.snd.nxt = s.c.snd.nxt) : U' = U ∧ N' = N :=
  ⟨h.una_eq huna, h.nxt_eq (n := 0) (by omega) (by simpa using hnxt)⟩

lemma LaidOut.enqueue (hl : ∃ lq lp, Laid s U N lq lp) (hp : s.c.tx.pending = none) (hp' : s'.c.tx.pending = none)
    (hm : ends m = (s.c.snd.nxt, s.c.snd.nxt + 1)) (hq : s'.c.tx.q = s.c.tx.q ++ [m])
    (hctl : s'.c.tx.ctlLog.length = s.c.tx.ctlLog.length + 1) (hw : s'.writer = s.writer)
    (huna : s'.c.snd.una = s.c.snd.una) (hnxt : s'.c.snd.nxt = s.c.snd.nxt + 1) :
    ∃ lq lp, Laid s' U' N' lq lp := by
  obtain rfl := h.una_eq huna
  obtain rfl := h.nxt_eq (n := 1) (by omega) hnxt
  obtain ⟨lq, lp, hl⟩ := hl
  obtain ⟨lq', hl'⟩ := hl.enqueue h.old h.iss hp hp' hm hq hctl hw
  exact ⟨lq', none, hl'⟩

lemma LaidOut.ingress (hl : LaidOut s U N) (ht : Tidy s) (hst : s.c.state ≠ .closed) (hw : s'.writer = s.writer)
    (hmss : s'.c.snd.mss = s.c.snd.mss ∨ s.c.state = .synSent ∧ s'.c.snd.mss.toNat ≤ 65535)
    (hc' : s'.c = c') (hst' : c'.state ≠ .closed) (hm : RxQueue s.c c') : ∃ lq lp, Laid s' U' N' lq lp := by
  subst hc'
  have hpend : s.c.tx.pending = none ∨ s'.c.snd.mss = s.c.snd.mss := by
    rcases hmss with hmss | ⟨hss, -⟩
    · exact .inr hmss
    · exact .inl (ht.unsynced (.inr hss)).1
  cases hm with
  | closed hcl => exact absurd hcl hst'
  | released hnxt hp hctl hq =>
    obtain rfl := h.nxt_eq (n := 0) (by omega) (by simpa using hnxt)
    obtain ⟨lq, lp, hl⟩ := hl hst
    have hk : Keeps s s' := ⟨h.iss, hp, hctl, hpend⟩
    rcases hq with ⟨hq, huna⟩ | hq
    · refine ⟨lq, lp, hl.still h.una hk hq (by rw [hw]) ?_⟩
      intro hnone
      rw [hw] at hnone
      exact ⟨hnone, h.una_eq (huna (by rw [ht.exclusive, hnone]; rfl))⟩
    · obtain ⟨lq', hl'⟩ := hl.release h.old h.new h.una hk hq (by rw [hw])
      exact ⟨lq', lp, hl'⟩
  | answered hss hm huna hnxt hp hq hctl =>
    have hnone := (ht.unsynced (.inr hss)).1
    exact LaidOut.enqueue h (hl hst) hnone (hp.trans hnone) hm hq hctl hw huna hnxt

end

lemma LaidOut.step (hl : LaidOut s U N) (ht : Tidy s) (hS : Sent s U N) (hack : AckOk s e)
    (hok : TileOk s e) (h : step dbg s e = .ok s') : ∃ U' N', Sent s' U' N' ∧ LaidOut s' U' N' := by
  obtain ⟨U', N', hS', hiss, hU, hUN, hN⟩ := hS.step hack h
  refine ⟨U', N', hS', ?_⟩
  intro hst'
  have hon : Onward s s' U N U' N' := ⟨hS, hS', hiss, hU, hUN⟩
  -- most steps leave the queue and the numbers alone
  have hstill : s.c.state ≠ .closed → s'.c.snd = s.c.snd → s'.c.tx.q = s.c.tx.q →
      s'.c.tx.pending = s.c.tx.pending → s'.c.tx.ctlLog = s.c.tx.ctlLog →
      budget s'.writer ≤ budget s.writer → (s'.writer = none → s.writer = none) →
      ∃ lq lp, Laid s' U' N' lq lp := by
    intro hst hsnd hq hp hctl hbudget hidle
    obtain ⟨rfl, rfl⟩ := hon.same (by rw [hsnd]) (by rw [hsnd])
    obtain ⟨lq, lp, hl⟩ := hl hst
    exact ⟨lq, lp, hl.still le_rfl ⟨hiss, hp, hctl, .inr (by rw [hsnd])⟩ (by rw [hq]) hbudget
      fun hnone => ⟨hidle hnone, rfl⟩⟩
  cases stepped h with
  | closeFailed | failed => exact absurd (by rw [tcpConnFail_eq]) hst'
  | openFailed ho => exact absurd (hS.fresh ho.spec.1) hst'
  | expired => exact absurd rfl hst'
  | ingress hr ho =>
    have hm := tcpRxConnLocked_move ho
    have hst : s.c.state ≠ .closed := fun hst => hst' (hm.closed hst).1
    exact LaidOut.ingress hon hl ht hst rfl hm.exclusive.2 rfl hst' hm.queue
  | shutdown _ he htx | close _ he htx =>
    obtain ⟨-, heq, -⟩ | ⟨halloc, -, m, t, h1, h2, -, heq⟩ := tcpConnShutdownTx_cases htx
    · have hst := congrArg Conn.state heq
      have hsnd := congrArg Conn.snd heq
      exact hstill (hst ▸ hst') hsnd (congrArg (·.tx.q) heq) rfl (congrArg (·.tx.ctlLog) heq) le_rfl id
    · have hnone := hok.1 _ he halloc
      have hst : s.c.state ≠ .closed := by
        intro hst
        refine hst' ((congrArg Conn.state heq).trans ?_)
        split
        · rw [hst]
          rfl
        · exact hst
      refine LaidOut.enqueue hon (hl hst) hnone hnone (by rw [ends, h1, h2])
        (congrArg (·.tx.q) heq) ?_ rfl rfl (congrArg (·.snd.nxt) heq)
      refine (congrArg (·.tx.ctlLog.length) heq).trans ?_
      simp
  | opened ho hctl =>
    have hfresh := ho.spec.1
    obtain ⟨hq0, hnxt0, hw0⟩ := ht.fresh hfresh
    have hnone := (ht.unsynced (.inl hfresh)).1
    obtain ⟨-, -, herr⟩ | ⟨-, -, m, h1, h2, -, heq⟩ := tcpTxCtl_cases hctl
    · cases herr
    -- the queue of a fresh connection is empty, and so is what it tiles
    have hUN0 : N = U := by
      have hroom := hS.room
      have hfew := hS.few
      rw [hS.nxt, hS.una] at hnxt0
      exact ofNat_offset_inj hnxt0 hS.le (by omega)
    have hempty : Laid s U N [] none := by
      refine ⟨by rw [hq0]; rfl, by rw [hnone]; rfl, ⟨.nil (by simp [hUN0]), by simp, by simp⟩,
        by simp [hnone], fun _ => ⟨.nil, by simp⟩⟩
    refine LaidOut.enqueue hon ⟨[], none, hempty⟩ hnone hnone (by rw [ends, h1, h2]) (congrArg (·.tx.q) heq)
      ?_ rfl rfl (congrArg (·.snd.nxt) heq)
    refine (congrArg (·.tx.ctlLog.length) heq).trans ?_
    simp
  | @writing _ next ho hopen hblock hnext =>
    obtain ⟨-, hexcl, hfull⟩ := tcpWriteBlocks_eq_false hblock hopen
    have hnone : s.writer = none := by
      rw [ht.exclusive] at hexcl
      simpa using hexcl
    obtain ⟨rfl, rfl⟩ := hon.same rfl rfl
    obtain ⟨lq, lp, hl⟩ := hl hst'
    refine ⟨lq, lp, hl.writing ⟨rfl, rfl, rfl, .inr rfl⟩ rfl hnone (by simp) ?_⟩
    have hwindow : _ + s.c.winlen ≤ _ := hS.window hfull
    cases next with
    | none => exact (Nat.le_add_right _ _).trans hwindow
    | some snd =>
      obtain ⟨h1, h2, -⟩ := hnext.spec rfl
      simp only [budget]
      omega
  | resending _ hst => exact hstill hst rfl rfl rfl rfl (Nat.zero_le _) (by simp)
  | @sent env snd rest r _ _ _ _ _ hw hr =>
    have hmss : s.c.snd.mss.toNat ≤ 65535 := by
      rcases ht.mss with hcl | hss | hle
      · exact absurd hcl hst'
      · exact absurd hw ((ht.unsynced (.inr hss)).2 _)
      · exact hle
    obtain ⟨lq, lp, hl⟩ := hl hst'
    obtain ⟨n, lq', lp', hnxt, hn, hl'⟩ := hl.send hS hmss (hok.2 snd (by simp [Sys.sending, hw])) hw hr rfl
    obtain rfl := hon.nxt_eq hn hnxt
    obtain rfl := hon.una_eq rfl
    exact ⟨lq', lp', hl'⟩
  | resent hw hr =>
    obtain heq | ⟨m, m', _, _, hi, hend, -, hseq, heq⟩ := tcpTxRetransmitRound_cases hr
    · exact hstill hst' rfl (congrArg (·.tx.q) heq) rfl rfl (Nat.zero_le _) (by simp)
    · obtain ⟨rfl, rfl⟩ := hon.same rfl rfl
      obtain ⟨lq, lp, hl⟩ := hl hst'
      obtain ⟨lq', hl'⟩ := hl.trim hS ⟨hiss, rfl, rfl, .inr rfl⟩ hi hend hseq (congrArg (·.tx.q) heq)
        (Nat.zero_le _) (by simp)
      exact ⟨lq', lp, hl'⟩
  | finished _ _ hq =>
    have hst : s.c.state ≠ .closed := hst'
    rw [if_neg hst] at hq
    obtain ⟨rfl, rfl⟩ := hon.same rfl rfl
    obtain ⟨lq, lp, hl⟩ := hl hst
    obtain ⟨lq', hl'⟩ := hl.release hS hS' le_rfl ⟨rfl, if_neg hst, rfl, .inr rfl⟩ (map_ends_of_span hq)
      (Nat.zero_le _)
    exact ⟨lq', lp, hl'⟩
  | _ => exact hstill hst' rfl rfl rfl rfl le_rfl id

def SendOk (s : Sys) (e : Event) : Prop := AckOk s e ∧ TileOk s e
deriving Decidable

lemma laidOut_of_reaches (h : Reaches (step dbg) SendOk Initial s) : Tidy s ∧ ∃ U N, Sent s U N ∧ LaidOut s U N := by
  refine h.invariant (I := fun s => Tidy s ∧ ∃ U N, Sent s U N ∧ LaidOut s U N) ?_ ?_
  · intro s h0
    have hS := sent_initial h0
    refine ⟨tidy_initial h0, 0, 0, hS, fun hst => absurd (hS.fresh ?_) hst⟩
    cases h0 <;> rfl
  · rintro s e s' ⟨ht, U, N, hS, hl⟩ ⟨hack, hok⟩ hs
    exact ⟨ht.step hS.fresh hs, hl.step ht hS hack hok hs⟩

def Conn.egress (c : Conn) : List Mbuf := c.tx.q ++ c.tx.pending.toList

/-- The queue of an idle connection: without gaps up to `snd_nxt`, what is deferred behind everything
that is queued, and all that is outstanding in it. -/
structure Tiled (c : Conn) : Prop where
  contiguous : c.egress.IsChain fun m m' => m.segEnd = m'.segSeq
  last : ∀ m ∈ c.egress.getLast?, m.segEnd = c.snd.nxt
  order : ∀ p ∈ c.tx.pending, ∀ m ∈ c.tx.q, wrapsLt m.segSeq p.segSeq = true
  covered : ∀ k < (c.snd.nxt - c.snd.una).toNat, ∃ m ∈ c.egress,
    (c.snd.una + BitVec.ofNat 32 k - m.segSeq).toNat < (m.segEnd - m.segSeq).toNat

lemma Laid.egress (h : Laid s U N lq lp) : s.c.egress.map ends = (lq ++ lp.toList).map (place s.c.snd.iss) := by
  rw [Conn.egress, map_append, map_append, h.q, ← Option.toList_map, ← Option.toList_map, h.pending]

lemma Laid.tiled (h : Laid s U N lq lp) (hS : Sent s U N) (hw : s.writer = none) : Tiled s.c := by
  have hegress := h.egress
  have hchain := (h.idle hw).1
  refine ⟨?_, ?_, ?_, ?_⟩
  · have hplaced : ((lq ++ lp.toList).map (place s.c.snd.iss)).IsChain fun x y => x.2 = y.1 := by
      rw [isChain_map]
      refine hchain.imp ?_
      intro x y hxy
      simp only [place, hxy]
    rw [← hegress, isChain_map] at hplaced
    exact hplaced
  · intro m hm
    obtain ⟨l, hl⟩ := getLast?_eq_some_iff.1 hm
    rw [hl, map_append, map_singleton, eq_comm, map_eq_append_iff] at hegress
    obtain ⟨l1, l2, hsplit, -, hlast⟩ := hegress
    obtain ⟨x, rfl, hx⟩ := map_eq_singleton_iff.1 hlast
    have htiles := h.layout.tiles
    rw [hsplit] at htiles
    rw [(ends_eq_place hx.symm).2, hS.nxt, htiles.last]
  · intro p hp m hm
    have hpos := h.pending
    rw [hp, Option.map_some, eq_comm, Option.map_eq_some_iff] at hpos
    obtain ⟨y, rfl, hy⟩ := hpos
    have hmem : ends m ∈ lq.map (place s.c.snd.iss) := by
      rw [← h.q]
      exact mem_map_of_mem hm
    obtain ⟨x, hx, hxm⟩ := mem_map.1 hmem
    have hbx := h.bounds hS (mem_append_left _ hx)
    have hby := h.bounds hS (x := y) (by simp)
    rw [(ends_eq_place hxm.symm).1, (ends_eq_place hy.symm).1, wrapsLt_ofNat (by omega) (by omega)]
    exact h.layout.order y rfl x hx
  · intro k hk
    rw [hS.outstanding] at hk
    obtain ⟨x, hx, hlo, hhi⟩ := h.layout.tiles.covers (z := U + k) (by omega) (by omega)
    have hmem : place s.c.snd.iss x ∈ s.c.egress.map ends := by
      rw [hegress]
      exact mem_map_of_mem hx
    obtain ⟨m, hm, hmx⟩ := mem_map.1 hmem
    obtain ⟨h1, h2⟩ := ends_eq_place hmx
    have hb := h.bounds hS hx
    refine ⟨m, hm, ?_⟩
    rw [h1, h2, hS.una, add_assoc, ← ofNat_add, toNat_sub_ofNat hlo (by omega), toNat_sub_ofNat hb.1 (by omega)]
    omega

/-- In every run that meets the condition, the queue tiles what is outstanding whenever no writer is
active. -/
theorem txq_tiled (h : Reaches (step dbg) SendOk Initial s) (hst : s.c.state ≠ .closed)
    (hexcl : s.c.tx.exclusive = false) : Tiled s.c := by
  obtain ⟨ht, U, N, hS, hl⟩ := laidOut_of_reaches h
  obtain ⟨lq, lp, hl⟩ := hl hst
  refine hl.tiled hS ?_
  rw [ht.exclusive] at hexcl
  simpa using hexcl

theorem txq_tiled_deferred : ∃ s, Reaches (step false) SendOk Initial s ∧ s.c.state ≠ .closed ∧
    s.c.tx.exclusive = false ∧ s.c.egress.map ends = [(1001, 1005), (1005, 1031)] ∧
    s.c.tx.pending.isSome = true ∧ Tiled s.c := by
  refine Reaches.of_exec_imp (P := fun s =>
      s.c.state ≠ .closed ∧ s.c.tx.exclusive = false ∧ s.c.egress.map ends = [(1001, 1005), (1005, 1031)] ∧
      s.c.tx.pending.isSome)
    (handshake 30 ++ [.write [1, 2, 3, 4], .sendRound {}, .writeFinish 0,
      .writev [List.replicate 27 0], .sendRound {}, .writeFinish 0])
    (initial_dialed 1500) (by decide) (by decide) ?_
  rintro s hs ⟨hst, hexcl, hq, hp⟩
  exact ⟨hst, hexcl, hq, hp, txq_tiled hs hst hexcl⟩

/-- The window takes 30 of 31 bytes, which are deferred; the FIN then goes in front of them. -/
theorem fin_before_pending : ∃ s, Reaches (step false) (fun _ _ => True) Initial s ∧
    s.c.state ≠ .closed ∧ s.c.tx.exclusive = false ∧
    s.c.egress.map ends = [(1031, 1032), (1001, 1031)] ∧ ¬ Tiled s.c := by
  refine Reaches.of_exec_imp (P := fun s =>
      s.c.state ≠ .closed ∧ s.c.tx.exclusive = false ∧ s.c.egress.map ends = [(1031, 1032), (1001, 1031)] ∧
      ∃ p ∈ s.c.tx.pending, ∃ m ∈ s.c.tx.q, wrapsLt m.segSeq p.segSeq = false)
    (handshake 30 ++
    [.writev [List.replicate 31 0], .sendRound {}, .writeFinish 0, .shutdown true false {}])
    (initial_dialed 1500) (allowed_true _ _) (by decide) ?_
  rintro s hs ⟨hst, hexcl, hq, hback⟩
  refine ⟨hst, hexcl, hq, ?_⟩
  intro htiled
  obtain ⟨p, hp, m, hm, hback⟩ := hback
  rw [htiled.order p hp m hm] at hback
  cases hback

end Aspen.Tcp
