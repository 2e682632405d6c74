import Aspen.Tcp.Sock

/-!
# Reading

What `tcp_read_wait` takes off the RX queue, and what `tcp_read` and `tcp_readv` copy out of it.
-/

namespace Aspen.Tcp

open List

def payload (q : List Mbuf) : List UInt8 := q.flatMap Mbuf.data

@[simp] lemma payload_nil : payload [] = [] := rfl

@[simp] lemma payload_cons (m : Mbuf) (q : List Mbuf) : payload (m :: q) = m.data ++ payload q := flatMap_cons

@[simp] lemma payload_append (q q' : List Mbuf) : payload (q ++ q') = payload q ++ payload q' := flatMap_append

/-! ## Popping -/

/-- The cut that `popRead` makes, when `k` bytes of `len` have been found already. -/
structure Cut (len k : ℕ) (q : List Mbuf) (p : Popped) : Prop where
  split : q = p.q ++ p.rxq
  whole : p.part = false → p.readlen = k + (payload p.q).length
  part : p.part = true → p.readlen = len ∧ ∃ m ∈ p.rxq.head?,
    k + (payload p.q).length < len ∧ len - (k + (payload p.q).length) < m.data.length
  readlen_le : k ≤ len → p.readlen ≤ len
  /-- why nothing more is read -/
  stop : p.part = true ∨ p.rxq = [] ∨ len ≤ p.readlen ∨ ∃ m ∈ p.rxq.head?, hasFlag m.flags tcpFin = true ∧ m.data = []
  /-- the FIN flags that were seen -/
  fin : p.fin = true ↔ (∃ m ∈ p.q, hasFlag m.flags tcpFin = true) ∨ ∃ m ∈ p.rxq.head?, hasFlag m.flags tcpFin = true ∧
      (p.part = true ∨ m.data = [] ∧ p.readlen < len)

lemma popRead_cut (len : ℕ) (q : List Mbuf) (k : ℕ) : Cut len k q (popRead len q k) := by
  induction q generalizing k with
  | nil => exact ⟨rfl, fun _ => rfl, by simp [popRead], fun h => h, .inr (.inl rfl), by simp [popRead]⟩
  | cons m q ih =>
    have hm : mbufLength m = m.data.length := rfl
    simp only [popRead]
    by_cases hlen : len ≤ k
    · rw [if_pos hlen]
      refine ⟨rfl, fun _ => rfl, by simp, fun h => h, .inr (.inr (.inl hlen)), ?_⟩
      simp only [not_mem_nil, false_and, exists_false, false_or, Bool.false_eq_true,
        head?_cons, Option.mem_def, Option.some.injEq, exists_eq_left', false_iff]
      omega
    rw [if_neg hlen]
    by_cases hfin : hasFlag m.flags tcpFin ∧ m.data = []
    · rw [if_pos (by simp [hm, hfin])]
      refine ⟨rfl, fun _ => rfl, by simp, fun h => h, .inr (.inr (.inr ⟨m, by simp, hfin⟩)), ?_⟩
      simp only [true_iff]
      exact .inr ⟨m, by simp, hfin.1, .inr ⟨hfin.2, by omega⟩⟩
    rw [if_neg (by simpa [hm] using hfin)]
    by_cases hfit : len - k < mbufLength m
    · rw [if_pos hfit]
      refine ⟨rfl, by simp, fun _ => ⟨rfl, m, by simp, ?_, ?_⟩, fun _ => le_rfl, .inl rfl, ?_⟩
      · simp only [payload_nil, length_nil]
        omega
      · simpa [hm] using hfit
      · simp
    · rw [if_neg hfit, hm]
      rw [hm] at hfit
      have hk := ih (k + m.data.length)
      generalize popRead len q (k + m.data.length) = p at hk
      have hlength : (payload (m :: p.q)).length = m.data.length + (payload p.q).length := by simp
      refine ⟨?_, ?_, ?_, ?_, hk.stop, ?_⟩
      · rw [hk.split]
        rfl
      · intro hpart
        rw [hk.whole hpart, hlength]
        omega
      · intro hpart
        obtain ⟨hread, m', hm', hlt, hrest⟩ := hk.part hpart
        refine ⟨hread, m', hm', ?_, ?_⟩
        · rw [hlength]
          omega
        · rw [hlength]
          omega
      · intro hk'
        exact hk.readlen_le (by omega)
      · simp only [Bool.or_eq_true, hk.fin, exists_mem_cons_iff, or_assoc]

variable {len offset : ℕ} {q : List Mbuf}

lemma Cut.readlen_eq {p : Popped} (h : Cut len 0 q p) :
    p.readlen = (payload p.q).length + if p.part then len - (payload p.q).length else 0 := by
  cases hpart : p.part with
  | false => simpa using h.whole hpart
  | true =>
    obtain ⟨hread, m, -, hlt, -⟩ := h.part hpart
    simp only [if_true]
    omega

lemma Cut.readlen_le_payload {p : Popped} (h : Cut len 0 q p) : p.readlen ≤ (payload q).length := by
  have hsplit : (payload q).length = (payload p.q).length + (payload p.rxq).length := by
    rw [h.split, payload_append, length_append]
  rw [h.readlen_eq]
  split
  · rename_i hpart
    obtain ⟨-, m, hm, -, hlt⟩ := h.part hpart
    obtain ⟨q', hq'⟩ := head?_eq_some_iff.1 hm
    rw [hq', payload_cons, length_append] at hsplit
    omega
  · omega

/-! ## Copying -/

def IovCursor.room (cur : IovCursor) : ℕ := cur.lens.sum - cur.offset

open IovCursor (room)

def IovCursor.Valid (cur : IovCursor) : Prop := cur.offset ≤ cur.lens.headD 0

variable {lens : List ℕ}

lemma copyCur_eq {data : List UInt8}
    (hvalid : IovCursor.Valid ⟨lens, offset⟩) (hfits : data.length ≤ room ⟨lens, offset⟩) :
    (copyCur lens offset data).1 = data ∧ (copyCur lens offset data).2.Valid ∧
      (copyCur lens offset data).2.room + data.length = room ⟨lens, offset⟩ := by
  induction lens generalizing offset data with
  | nil =>
    simp only [room, sum_nil, Nat.zero_sub, Nat.le_zero_eq, length_eq_zero_iff] at hfits
    subst hfits
    exact ⟨rfl, hvalid, rfl⟩
  | cons l lens ih =>
    simp only [IovCursor.Valid, headD_cons] at hvalid
    simp only [room, sum_cons] at hfits
    simp only [copyCur]
    by_cases hfull : l - offset ≤ data.length
    · -- the vector is filled
      rw [Nat.min_eq_left hfull, if_pos (by omega)]
      by_cases hrest : (data.drop (l - offset)).isEmpty
      · rw [if_pos hrest]
        simp only [List.isEmpty_iff, drop_eq_nil_iff] at hrest
        refine ⟨take_of_length_le hrest, Nat.zero_le _, ?_⟩
        simp only [room, sum_cons]
        omega
      · rw [if_neg hrest]
        have hlen : (data.drop (l - offset)).length = data.length - (l - offset) := length_drop
        have hroom : (data.drop (l - offset)).length ≤ room ⟨lens, 0⟩ := by
          simp only [room]
          omega
        obtain ⟨h1, h2, h3⟩ := ih (Nat.zero_le _) hroom
        refine ⟨?_, h2, ?_⟩
        · simp only [h1, take_append_drop]
        · simp only [room, sum_cons] at h3 ⊢
          omega
    · -- the buffer ends inside the vector
      rw [Nat.min_eq_right (by omega), if_neg (by omega)]
      refine ⟨take_length, ?_, ?_⟩
      · simp only [IovCursor.Valid, headD_cons]
        omega
      · simp only [room, sum_cons]
        omega

lemma copyCurs_eq (cur : IovCursor) (hvalid : cur.Valid) (hfits : (payload q).length ≤ cur.room) :
    (copyCurs cur q).1 = payload q ∧ (copyCurs cur q).2.Valid ∧
      (copyCurs cur q).2.room + (payload q).length = cur.room := by
  induction q generalizing cur with
  | nil => exact ⟨rfl, hvalid, rfl⟩
  | cons m q ih =>
    rw [payload_cons, length_append] at hfits
    have hm : m.data.length ≤ room ⟨cur.lens, cur.offset⟩ := by
      change _ ≤ cur.room
      omega
    obtain ⟨h1, h2, h3⟩ := copyCur_eq hvalid hm
    change _ + _ = cur.room at h3
    obtain ⟨h1', h2', h3'⟩ := ih _ h2 (by omega)
    simp only [copyCurs, payload_cons, length_append]
    exact ⟨by rw [h1, h1'], h2', by omega⟩

lemma copyPart_eq {data : List UInt8}
    (hvalid : IovCursor.Valid ⟨lens, offset⟩) (hlen : room ⟨lens, offset⟩ ≤ data.length) :
    copyPart lens offset data = data.take (room ⟨lens, offset⟩) := by
  induction lens generalizing offset data with
  | nil => simp [copyPart, room]
  | cons l lens ih =>
    simp only [IovCursor.Valid, headD_cons] at hvalid
    simp only [room, sum_cons] at hlen
    rw [copyPart]
    simp only [Nat.min_eq_left (by omega : l - offset ≤ data.length)]
    rw [if_pos (by omega), ih (Nat.zero_le _) (by
      simp only [room, length_drop]
      omega)]
    have hroom : room ⟨l :: lens, offset⟩ = (l - offset) + room ⟨lens, 0⟩ := by
      simp only [room, sum_cons]
      omega
    rw [hroom, take_add]

/-- `tcp_readv` copies what `tcp_read` would have copied into one buffer. -/
lemma tcpReadvCopy_eq {part : Option Mbuf} (hfits : (payload q).length ≤ lens.sum)
    (hpart : ∀ m ∈ part, lens.sum - (payload q).length ≤ m.data.length) :
    tcpReadvCopy lens q part = tcpReadCopy lens.sum q part := by
  obtain ⟨h1, h2, h3⟩ := copyCurs_eq ⟨lens, 0⟩ (Nat.zero_le _) hfits
  have hroom : room ⟨lens, 0⟩ = lens.sum := rfl
  cases part with
  | none => simp only [tcpReadvCopy, tcpReadCopy, h1, payload]
  | some m =>
    have hm := hpart m rfl
    have hleft : (copyCurs ⟨lens, 0⟩ q).2.room = lens.sum - (payload q).length := by omega
    have htail : copyPart (copyCurs ⟨lens, 0⟩ q).2.lens (copyCurs ⟨lens, 0⟩ q).2.offset m.data
        = m.data.take (lens.sum - (payload q).length) := by
      rw [← hleft]
      exact copyPart_eq h2 (by change (copyCurs ⟨lens, 0⟩ q).2.room ≤ _; omega)
    simp only [tcpReadvCopy, tcpReadCopy, h1, htail, length_take, Nat.min_eq_left hm]
    rfl

end Aspen.Tcp
