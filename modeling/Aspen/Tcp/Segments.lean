import Aspen.Tcp.Sock

/-!
# What the egress functions hand to the network

`tcp_tx_send` and `tcp_writev` as a whole, control segments that could not be sent, and the packets that
`tcp_tx_retransmit_one` makes (`runtime/net/tcp_out.c`, `runtime/net/tcp.c`). A writer has these to itself, so
nothing comes between the rounds of its loops.
-/

namespace Aspen.Tcp

open List

variable {c c' c'' : Conn} {m : Mbuf} {env : Env} {envs envs' : List Env} {push : Bool}
  {bytes rest rest' buf : List UInt8} {segs : List Mbuf}

/-! ## Data -/

/-- `tcp_tx_send`, given what the network does in each round of its loop. Returns the connection, the bytes not
accepted and the rounds not needed; `none` if it needs more. -/
def tcpTxSend (push : Bool) : List Env → Conn → List UInt8 → Option (Conn × List UInt8 × List Env)
  | [], _, _ => none
  | env :: envs, c, rest =>
    match tcpTxSendRound env c rest push with
    | (c, rest, .sent _) => if rest = [] then some (c, rest, envs) else tcpTxSend push envs c rest
    | (c, rest, _) => some (c, rest, envs)

def pendingData (c : Conn) : List UInt8 := (c.tx.pending.map Mbuf.data).getD []

structure DataSeg (mss : Seq) (m : Mbuf) : Prop where
  length_le : m.data.length ≤ mss.toNat
  span : m.segEnd - m.segSeq = BitVec.ofNat 32 m.data.length
  flags : hasFlag m.flags (tcpSyn ||| tcpFin) = false
  opts : m.opts = []

def PendingOk (c : Conn) : Prop := ∀ m ∈ c.tx.pending, DataSeg c.snd.mss m ∧ hasFlag m.flags tcpPush = false

/-- The bytes that are accepted go into new segments and a new deferred buffer. -/
structure Segmented (c : Conn) (bytes : List UInt8) (c' : Conn) (segs : List Mbuf) : Prop where
  q : c'.tx.q = c.tx.q ++ segs
  data : segs.flatMap Mbuf.data ++ pendingData c' = pendingData c ++ bytes
  seg : ∀ m ∈ segs, DataSeg c.snd.mss m
  nxt : c'.snd.nxt = c.snd.nxt + BitVec.ofNat 32 bytes.length
  mss : c'.snd.mss = c.snd.mss
  pending : PendingOk c'

lemma Segmented.refl (h : PendingOk c) : Segmented c [] c [] :=
  ⟨(append_nil _).symm, (append_nil _).symm, nofun, (BitVec.add_zero _).symm, rfl, h⟩

lemma Segmented.trans {bytes' : List UInt8} {segs' : List Mbuf} (h : Segmented c bytes c' segs)
    (h' : Segmented c' bytes' c'' segs') : Segmented c (bytes ++ bytes') c'' (segs ++ segs') where
  q := by rw [h'.q, h.q, append_assoc]
  data := by
    rw [flatMap_append, append_assoc, h'.data, ← append_assoc, h.data, append_assoc]
  seg m hm := by
    rcases mem_append.1 hm with hm | hm
    · exact h.seg m hm
    · exact h.mss ▸ h'.seg m hm
  nxt := by rw [h'.nxt, h.nxt, length_append, BitVec.ofNat_add, BitVec.add_assoc]
  mss := h'.mss.trans h.mss
  pending := h'.pending

lemma hasFlag_push : ∀ flags : Flags, hasFlag (flags ||| tcpPush) (tcpSyn ||| tcpFin) =
    hasFlag flags (tcpSyn ||| tcpFin) := by decide

inductive RoundEnd (env : Env) (c : Conn) (rest : List UInt8) (push : Bool) (n : ℕ) (c' : Conn) :
    SendRound → List Mbuf → Prop
  | nobufs (halloc : env.alloc = false) (hp : c.tx.pending = none) (hc : c' = c) (hn : n = 0) :
      RoundEnd env c rest push n c' .nobufs []
  | deferred (hpush : push = false) (hn : rest.length ≤ n) (hdata : pendingData c' = pendingData c ++ rest)
      (hlen : 20 ≤ (pendingData c').length ∧ (pendingData c').length ≤ c.snd.mss.toNat) :
      RoundEnd env c rest push n c' .deferred []
  | sent {ret : Option Errno} {m : Mbuf} (hp : c'.tx.pending = none)
      (hpush : hasFlag m.flags tcpPush = true → push = true ∧ rest.length ≤ n)
      (hgo : n = 0 → c.snd.mss ≠ 0 → rest = [] ∨ c.tx.pending ≠ none)
      (hdata : m.data = pendingData c ++ rest.take n)
      (hfull : push = false → if rest.length ≤ n then m.data.length < 20 else m.data.length = c.snd.mss.toNat) :
      RoundEnd env c rest push n c' (.sent ret) [m]

lemma tcpTxSendBuf_spec {n : ℕ} (hp : PendingOk c) (h : tcpTxSendBuf env c rest.length = some (m, n)) :
    n ≤ rest.length ∧ DataSeg c.snd.mss { m with data := m.data ++ rest.take n } ∧
      m.data = pendingData c ∧ hasFlag m.flags tcpPush = false ∧
      (n = 0 → c.snd.mss ≠ 0 → rest = [] ∨ c.tx.pending ≠ none) ∧
      (n < rest.length → (pendingData c).length + n = c.snd.mss.toNat) := by
  have htake {k : ℕ} : (rest.take (min rest.length k)).length = min rest.length k :=
    length_take_of_le (min_le_left _ _)
  unfold tcpTxSendBuf at h
  unfold pendingData
  split at h
  · rename_i m0 hm0
    obtain ⟨⟨hle, hspan, hctl, hopts⟩, hflag⟩ := hp m0 hm0
    cases h
    rw [hm0]
    have hroom : (c.snd.mss - BitVec.ofNat 32 m0.data.length).toNat = c.snd.mss.toNat - m0.data.length := by
      bv_omega
    refine ⟨min_le_left _ _, ⟨?_, ?_, hctl, hopts⟩, rfl, hflag, fun _ _ => .inr nofun, fun hmore => ?_⟩
    · simp only [length_append, htake, mbufLength, hroom]
      omega
    · simp only [length_append, htake, BitVec.ofNat_add, ← hspan]
      bv_omega
    · simp only [mbufLength, hroom] at hmore ⊢
      change m0.data.length + _ = _
      omega
  · rename_i hnone
    split at h
    · cases h
      rw [hnone]
      refine ⟨min_le_left _ _, ⟨?_, ?_, by simp [hasFlag, tcpAck, tcpSyn, tcpFin], rfl⟩, rfl, by simp [hasFlag, tcpAck, tcpPush],
        fun hn hmss => .inl ?_, fun hmore => ?_⟩
      · simp only [nil_append, htake]
        exact min_le_right _ _
      · simp only [nil_append, htake]
        bv_omega
      · have hpos : c.snd.mss.toNat ≠ 0 := fun hz => hmss (BitVec.eq_of_toNat_eq hz)
        exact eq_nil_of_length_eq_zero (by omega)
      · exact (Nat.zero_add _).trans (min_eq_right (by omega))
    · cases h

/-- The test is meant for full segments. It has the header in it, which is not there yet, and so is for short ones. -/
lemma tcpTxDefers_iff {mss : Seq} (h : m.data.length ≤ mss.toNat) : tcpTxDefers m mss ↔ 20 ≤ m.data.length := by
  rw [tcpTxDefers, decide_eq_true_iff, BitVec.lt_def, BitVec.toNat_setWidth, mbufLength]
  bv_omega

lemma tcpTxSendRound_segmented {r : SendRound} (hp : PendingOk c)
    (h : tcpTxSendRound env c rest push = (c', rest', r)) :
    ∃ n segs, n ≤ rest.length ∧ rest' = rest.drop n ∧ Segmented c (rest.take n) c' segs ∧
      RoundEnd env c rest push n c' r segs := by
  unfold tcpTxSendRound at h
  split at h
  · rename_i hbuf
    cases h
    refine ⟨0, [], Nat.zero_le _, rfl, .refl hp, ?_⟩
    unfold tcpTxSendBuf at hbuf
    split at hbuf
    · cases hbuf
    · rename_i hnone
      split at hbuf
      · cases hbuf
      · exact .nobufs (by simp_all) hnone rfl rfl
  · rename_i m n hbuf
    obtain ⟨hn, hseg, hdata, hflag, hgo, hmore⟩ := tcpTxSendBuf_spec hp hbuf
    have hlen : (rest.take n).length = n := length_take_of_le hn
    have hdefers := tcpTxDefers_iff hseg.length_le
    have hlen' : (m.data ++ rest.take n).length = (pendingData c).length + n := by rw [length_append, hlen, hdata]
    dsimp only at h hdefers
    split at h
    · rename_i hdefer
      simp only [Bool.and_eq_true, Bool.not_eq_true', List.isEmpty_iff, drop_eq_nil_iff] at hdefer
      cases h
      refine ⟨n, [], hn, rfl, ⟨(append_nil _).symm, ?_, nofun, by rw [hlen], rfl, ?_⟩,
        .deferred hdefer.1.1 hdefer.1.2 ?_ ⟨hdefers.1 hdefer.2, hseg.length_le⟩⟩
      · exact congrArg (· ++ rest.take n) hdata
      · rintro _ ⟨⟩
        exact ⟨hseg, hflag⟩
      · exact congrArg₂ (· ++ ·) hdata (take_of_length_le hdefer.1.2)
    · rename_i hdefer
      cases h
      refine ⟨n, _, hn, rfl, ⟨rfl, ?_, ?_, ?_, rfl, nofun⟩, .sent rfl ?_ hgo ?_ fun hpush => ?_⟩
      · split <;> simp [pendingData, tcpPushTcphdr, hdata]
      · rintro _ ⟨⟩
        · split
          · exact ⟨hseg.length_le, hseg.span, (hasFlag_push _).trans hseg.flags, hseg.opts⟩
          · exact ⟨hseg.length_le, hseg.span, hseg.flags, hseg.opts⟩
        · contradiction
      · rw [hlen]
        rfl
      · intro hpush
        split at hpush
        · rename_i hlast
          simpa [List.isEmpty_iff] using hlast
        · simp [hflag] at hpush
      · split <;> exact congrArg (· ++ rest.take n) hdata
      · simp only [hpush, Bool.false_and, Bool.false_eq_true, if_false]
        split
        · rename_i hall
          rw [← not_le, ← hdefers]
          intro hlong
          simp [hpush, hall, hlong] at hdefer
        · rename_i hpart
          rw [hlen']
          exact hmore (not_le.1 hpart)

structure SendSpec (push : Bool) (c : Conn) (buf : List UInt8) (c' : Conn) (rest : List UInt8)
    (segs : List Mbuf) : Prop where
  le : rest.length ≤ buf.length
  rest_eq : rest = buf.drop (buf.length - rest.length)
  segmented : Segmented c (buf.take (buf.length - rest.length)) c' segs
  /-- a segment with PUSH is the last one, and holds the last byte if there is any -/
  push_last : ∀ m ∈ segs, hasFlag m.flags tcpPush = true → push = true ∧ rest = [] ∧
    segs.getLast? = some m ∧ (m.data = [] → pendingData c ++ buf = [])
  pending : push = true → c'.tx.pending = none

lemma RoundEnd.spec {n : ℕ} {r : SendRound} (h : RoundEnd env c rest push n c' r segs)
    (hn : n ≤ rest.length) (hs : Segmented c (rest.take n) c' segs) :
    SendSpec push c rest c' (rest.drop n) segs := by
  have hlen : rest.length - (rest.drop n).length = n := by
    rw [length_drop]
    omega
  refine ⟨by simp, by rw [hlen], by rwa [hlen], ?_, ?_⟩
  · cases h with
    | nobufs | deferred => nofun
    | sent hp hpush hgo hdata =>
      rintro _ (_ | ⟨_, ⟨⟩⟩) hflag
      obtain ⟨hpush, hall⟩ := hpush hflag
      refine ⟨hpush, drop_eq_nil_iff.2 hall, rfl, fun hnil => ?_⟩
      rw [← hnil, hdata, take_of_length_le hall]
  · intro hpush
    cases h with
    | nobufs _ hp hc => rw [hc, hp]
    | deferred hno => cases hpush.symm.trans hno
    | sent hp => exact hp

/-- The first round of a call, and the rest of the call if bytes are left. -/
lemma tcpTxSend_cons (hp : PendingOk c) (h : tcpTxSend push (env :: envs) c buf = some (c', rest, envs')) :
    ∃ n c1 segs r, n ≤ buf.length ∧ Segmented c (buf.take n) c1 segs ∧ RoundEnd env c buf push n c1 r segs ∧
      ((∃ ret, r = .sent ret) ∧ buf.drop n ≠ [] ∧ tcpTxSend push envs c1 (buf.drop n) = some (c', rest, envs') ∨
        c1 = c' ∧ buf.drop n = rest ∧ ∀ ret, r = .sent ret → rest = []) := by
  rw [tcpTxSend] at h
  split at h
  · rename_i c1 rest1 ret hround
    obtain ⟨n, segs, hn, rfl, hs, hend⟩ := tcpTxSendRound_segmented hp hround
    refine ⟨n, c1, segs, _, hn, hs, hend, ?_⟩
    split at h
    · rename_i hall
      cases h
      exact .inr ⟨rfl, rfl, fun _ _ => hall⟩
    · rename_i hmore
      exact .inl ⟨⟨_, rfl⟩, hmore, h⟩
  · rename_i c1 rest1 r hno hround
    obtain ⟨n, segs, hn, rfl, hs, hend⟩ := tcpTxSendRound_segmented hp hround
    cases h
    exact ⟨n, _, segs, r, hn, hs, hend, .inr ⟨rfl, rfl, fun ret hr => (hno ret hr).elim⟩⟩

lemma tcpTxSend_spec (hp : PendingOk c) (h : tcpTxSend push envs c buf = some (c', rest, envs')) :
    ∃ segs, SendSpec push c buf c' rest segs := by
  induction envs generalizing c buf with
  | nil => cases h
  | cons env envs ih =>
    obtain ⟨n, c1, segs, r, hn, hs, hend, ⟨-, hmore, h⟩ | ⟨rfl, rfl, -⟩⟩ := tcpTxSend_cons hp h
    · obtain ⟨segs', hrec⟩ := ih hs.pending h
      -- the bytes of the first round and those of the others
      have hle := hrec.le
      have hsplit : n + ((buf.drop n).length - rest.length) = buf.length - rest.length := by
        rw [length_drop] at hle ⊢
        omega
      refine ⟨segs ++ segs', by simp at hle; omega, ?_, ?_, ?_, hrec.pending⟩
      · rw [← hsplit, ← drop_drop]
        exact hrec.rest_eq
      · have htake : buf.take (buf.length - rest.length) =
            buf.take n ++ (buf.drop n).take ((buf.drop n).length - rest.length) := by
          rw [← hsplit, take_add]
        rw [htake]
        exact hs.trans hrec.segmented
      · intro m hm hflag
        rcases mem_append.1 hm with hm | hm
        · have hlast := ((hend.spec hn hs).push_last m hm hflag).2.1
          exact absurd hlast hmore
        · obtain ⟨hpush, hrest, hlast, hdata⟩ := hrec.push_last m hm hflag
          refine ⟨hpush, hrest, getLast?_append_of_ne_nil _ (ne_nil_of_mem hm) ▸ hlast, fun hnil => ?_⟩
          exact absurd (append_eq_nil_iff.1 (hdata hnil)).2 hmore
    · exact ⟨segs, hend.spec hn hs⟩

lemma tcpTxSend_returns (push : Bool) (hp : PendingOk c) (hmss : c.snd.mss ≠ 0)
    (hlen : buf.length + c.tx.pending.toList.length < envs.length) :
    ∃ c' rest envs', tcpTxSend push envs c buf = some (c', rest, envs') ∧ envs' <:+ envs ∧
      envs.length ≤ envs'.length + (buf.length + c.tx.pending.toList.length + 1) := by
  induction envs generalizing c buf with
  | nil => cases hlen
  | cons env envs ih =>
    rw [tcpTxSend]
    rw [length_cons] at hlen ⊢
    split
    · rename_i c1 rest1 ret hround
      obtain ⟨n, segs, hn, rfl, hs, hend⟩ := tcpTxSendRound_segmented hp hround
      split
      · exact ⟨_, _, _, rfl, suffix_cons .., by omega⟩
      · rename_i hmore
        have hnil : buf ≠ [] := by
          rintro rfl
          exact hmore drop_nil
        cases hend with
        | sent hp1 hpush hgo =>
          have hless : (buf.drop n).length + c1.tx.pending.toList.length
              < buf.length + c.tx.pending.toList.length := by
            rw [hp1, length_drop, Option.toList_none, length_nil]
            rcases Nat.eq_zero_or_pos n with rfl | hn
            · obtain ⟨m, hm⟩ := Option.ne_none_iff_exists'.1 ((hgo rfl hmss).resolve_left hnil)
              rw [hm, Option.toList_some, length_singleton]
              omega
            · omega
          have hlen1 : (buf.drop n).length + c1.tx.pending.toList.length < envs.length := by omega
          obtain ⟨c', rest, envs', h, hsuf, hle⟩ := ih hs.pending (hs.mss ▸ hmss) hlen1
          exact ⟨c', rest, envs', h, hsuf.trans (suffix_cons ..), by omega⟩
    · exact ⟨_, _, _, rfl, suffix_cons .., by omega⟩

lemma tcpTxSend_alloc (hp : PendingOk c) (halloc : ∀ env ∈ envs, env.alloc)
    (h : tcpTxSend push envs c buf = some (c', rest, envs')) : rest = [] := by
  induction envs generalizing c buf with
  | nil => cases h
  | cons env envs ih =>
    obtain ⟨n, c1, segs, r, -, hs, hend, ⟨-, -, h⟩ | ⟨-, hrest, hsent⟩⟩ := tcpTxSend_cons hp h
    · exact ih hs.pending (fun env' henv => halloc env' (.tail _ henv)) h
    · cases hend with
      | nobufs hfail => cases hfail.symm.trans (halloc env (.head _))
      | deferred _ hn => exact hrest.symm.trans (drop_eq_nil_iff.2 hn)
      | sent => exact hsent _ rfl

/-- A call of `tcp_tx_send` on a connection that can send returns, whatever fails. The bytes it accepts follow those
that were deferred, in segments of up to `snd_mss`; `snd_nxt` moves over them; a PUSH is on the last segment, when
everything is accepted; and with `push` nothing is deferred. -/
theorem segments_exact (hp : PendingOk c) :
    (c.snd.mss ≠ 0 → buf.length + 1 < envs.length → (tcpTxSend push envs c buf).isSome) ∧
    ∀ c' rest envs', tcpTxSend push envs c buf = some (c', rest, envs') →
      ((∀ env ∈ envs, env.alloc = true) → rest = []) ∧ ∃ segs, SendSpec push c buf c' rest segs := by
  refine ⟨fun hmss hlen => ?_, fun c' rest envs' h => ⟨fun halloc => tcpTxSend_alloc hp halloc h,
    tcpTxSend_spec hp h⟩⟩
  have hone : c.tx.pending.toList.length ≤ 1 := by cases c.tx.pending <;> simp
  have hrounds : buf.length + c.tx.pending.toList.length < envs.length := by omega
  obtain ⟨c', rest, envs', h, -⟩ := tcpTxSend_returns push hp hmss hrounds
  rw [h]
  rfl

def writable (mss : Seq) : Conn :=
  { tcpConnAlloc 0 1500 0 with state := .established, snd.wnd := 1000, snd.mss := mss }

/-- Twenty bytes are deferred, and go out with the next two. -/
theorem segments_exact_five : ∃ c c' segs, tcpTxSend false [{}, {}] (writable 22) (List.replicate 20 7) = some (c, [], [{}]) ∧
    pendingData c = List.replicate 20 7 ∧
    tcpTxSend true (List.replicate 9 {}) c [1, 2, 3, 4, 5] = some (c', [], List.replicate 7 {}) ∧
    SendSpec true c [1, 2, 3, 4, 5] c' [] segs := by
  obtain ⟨c, h, hpend, c', h'⟩ : ∃ c, tcpTxSend false [{}, {}] (writable 22) (List.replicate 20 7) = some (c, [], [{}]) ∧
      pendingData c = List.replicate 20 7 ∧ ∃ c', tcpTxSend true (List.replicate 9 {}) c [1, 2, 3, 4, 5] =
        some (c', [], List.replicate 7 {}) := ⟨_, rfl, rfl, _, rfl⟩
  have hp : PendingOk (writable 22) := nofun
  obtain ⟨-, _, hs⟩ := (segments_exact hp).2 _ _ _ h
  obtain ⟨-, segs, hs'⟩ := (segments_exact hs.segmented.pending).2 _ _ _ h'
  exact ⟨c, c', segs, h, hpend, h', hs'⟩

/-! ## Vectors -/

def tcpWritevLoop : List (List UInt8) → ℕ → List Env → Conn → Option Conn
  | [], _, _, c => some c
  | buf :: iov, winlen, envs, c =>
    if winlen = 0 then some c
    else
      match tcpTxSend (iov.isEmpty && buf.length ≤ winlen) envs c (buf.take winlen) with
      | none => none
      | some (c, rest, envs) =>
        let ret := (buf.take winlen).length - rest.length
        if ret = 0 then some c else tcpWritevLoop iov (winlen - ret) envs c

def tcpWritev (envs : List Env) (c : Conn) (iov : List (List UInt8)) : Option Conn :=
  match tcpWriteWait c with
  | (c, none) => some c
  | (c, some winlen) => tcpWritevLoop iov winlen envs c

/-- The bytes before the first empty buffer. -/
def beforeEmpty : List (List UInt8) → List UInt8
  | [] => []
  | buf :: iov => if buf = [] then [] else buf ++ beforeEmpty iov

/-- How many of `n` bytes that are sent without push stay in `tx_pending`, with `p` bytes there before: those of the
last segment, unless it is short. -/
def leftover (mss p n : ℕ) : ℕ := let last := (p + n - 1) % mss + 1
  if last < 20 then 0 else last

/-- What stays of the buffers before the first empty one. -/
def leftovers (mss : ℕ) : ℕ → List (List UInt8) → ℕ
  | p, [] => p
  | p, buf :: iov => if buf = [] then p else leftovers mss (leftover mss p buf.length) iov

lemma leftover_short (mss p n : ℕ) : leftover mss p n = 0 ∨ 20 ≤ leftover mss p n := by
  unfold leftover
  dsimp only
  split <;> omega

lemma pendingData_none (h : c.tx.pending = none) : pendingData c = [] := by
  rw [pendingData, h]
  rfl

/-- Without push, full segments are sent and the last one is deferred unless it is short. -/
lemma tcpTxSend_leftover (hp : PendingOk c) (hmss : c.snd.mss ≠ 0) (halloc : ∀ env ∈ envs, env.alloc) (hbuf : buf ≠ [])
    (h : tcpTxSend false envs c buf = some (c', rest, envs')) :
    (pendingData c').length = leftover c.snd.mss.toNat (pendingData c).length buf.length := by
  induction envs generalizing c buf with
  | nil => cases h
  | cons env envs ih =>
    have hpos := length_pos_iff.2 hbuf
    have hpos' : c.snd.mss.toNat ≠ 0 := fun hz => hmss (BitVec.eq_of_toNat_eq hz)
    obtain ⟨n, c1, segs, r, hn, hs, hend, hnext⟩ := tcpTxSend_cons hp h
    cases hend with
    | nobufs hfail => cases hfail.symm.trans (halloc env (.head _))
    | deferred _ _ hdata hlen =>
      obtain ⟨⟨_, hr⟩, -⟩ | ⟨rfl, -⟩ := hnext
      · cases hr
      · rw [hdata, length_append] at hlen ⊢
        rw [leftover, Nat.mod_eq_of_lt (by omega), if_neg (by omega)]
        omega
    | sent hp1 hpush hgo hdata hfull =>
      have hfull := hfull rfl
      rw [hdata, length_append, length_take_of_le hn] at hfull
      obtain ⟨-, hmore, h⟩ | ⟨rfl, hrest, hall⟩ := hnext
      · rw [if_neg (fun hle => hmore (drop_eq_nil_iff.2 hle))] at hfull
        have hlt : n < buf.length := not_le.1 fun hle => hmore (drop_eq_nil_iff.2 hle)
        rw [ih hs.pending (hs.mss ▸ hmss) (fun env henv => halloc env (.tail _ henv)) hmore h, hs.mss,
          pendingData_none hp1, leftover, leftover, length_drop, length_nil,
          show (pendingData c).length + buf.length - 1 = 0 + (buf.length - n) - 1 + c.snd.mss.toNat by omega,
          Nat.add_mod_right]
      · have hle := drop_eq_nil_iff.1 (hrest.trans (hall _ rfl))
        rw [if_pos hle] at hfull
        have hmod := Nat.mod_le ((pendingData c).length + buf.length - 1) c.snd.mss.toNat
        rw [pendingData_none hp1, leftover, if_pos (by omega), length_nil]

lemma tcpTxSend_nil (hp : PendingOk c) (hlong : (pendingData c).length = 0 ∨ 20 ≤ (pendingData c).length)
    (h : tcpTxSend false envs c [] = some (c', rest, envs')) : pendingData c' = pendingData c := by
  cases envs with
  | nil => cases h
  | cons env envs =>
    obtain ⟨n, c1, segs, r, -, -, hend, ⟨-, hmore, -⟩ | ⟨rfl, -⟩⟩ := tcpTxSend_cons hp h
    · exact absurd drop_nil hmore
    · cases hend with
      | nobufs _ _ hc => rw [hc]
      | deferred _ _ hdata => rw [hdata, append_nil]
      | sent hp1 hpush hgo hdata hfull =>
        have hfull := hfull rfl
        rw [if_pos (by simp), hdata, take_nil, append_nil] at hfull
        rw [pendingData_none hp1, eq_nil_of_length_eq_zero (hlong.resolve_right hfull.not_ge)]

/-- The loop sends what is before the first empty buffer and fits in the window. If that is all, something stays deferred
just if the last call is without push and leaves it. -/
lemma tcpWritevLoop_segmented {iov : List (List UInt8)} (winlen : ℕ) (hp : PendingOk c)
    (hmss : c.snd.mss ≠ 0) (halloc : ∀ env ∈ envs, env.alloc)
    (henvs : (iov.map (·.length + 2)).sum ≤ envs.length)
    (hstart : iov.flatten ≠ [] ∨ (pendingData c).length = 0 ∨ 20 ≤ (pendingData c).length) :
    ∃ c' segs, tcpWritevLoop iov winlen envs c = some c' ∧ Segmented c ((beforeEmpty iov).take winlen) c' segs ∧
      (iov ≠ [] → iov.flatten.length ≤ winlen → iov.flatten.length ≤ (beforeEmpty iov).length →
        (pendingData c' = [] ↔ ([] ∈ iov.dropLast ∨ [] ∈ iov ∧ iov.flatten.length = winlen →
          leftovers c.snd.mss.toNat (pendingData c).length iov = 0))) := by
  induction iov generalizing winlen envs c with
  | nil =>
    refine ⟨c, [], rfl, ?_, fun h => absurd rfl h⟩
    rw [beforeEmpty, take_nil]
    exact .refl hp
  | cons buf iov ih =>
    rw [tcpWritevLoop, beforeEmpty, leftovers]
    split
    · rename_i hzero
      refine ⟨c, [], rfl, ?_, fun _ htotal _ => ?_⟩
      · rw [hzero, take_zero]
        exact .refl hp
      · rw [hzero, Nat.le_zero, length_eq_zero_iff] at htotal
        obtain ⟨rfl, -⟩ := append_eq_nil_iff.1 (flatten_cons ▸ htotal)
        simp [htotal, hzero]
    rename_i hzero
    have hlen : (buf.take winlen).length = min winlen buf.length := length_take
    have hone : c.tx.pending.toList.length ≤ 1 := by cases c.tx.pending <;> simp
    rw [map_cons, sum_cons] at henvs
    have hrounds : (buf.take winlen).length + c.tx.pending.toList.length < envs.length := by omega
    obtain ⟨c1, rest, envs1, h, hsuf, hle⟩ :=
      tcpTxSend_returns (iov.isEmpty && decide (buf.length ≤ winlen)) hp hmss hrounds
    cases tcpTxSend_alloc hp halloc h
    obtain ⟨segs, hs⟩ := tcpTxSend_spec hp h
    have hseg := hs.segmented
    rw [length_nil, Nat.sub_zero, take_length] at hseg
    simp only [h, length_nil, Nat.sub_zero]
    by_cases hbuf : buf = []
    · -- `tcp_tx_send` returns 0, and the loop ends
      subst hbuf
      simp only [take_nil, length_nil, if_true] at h hseg ⊢
      refine ⟨c1, segs, rfl, hseg, fun _ htotal hall => ?_⟩
      rw [Nat.le_zero, length_eq_zero_iff] at hall
      cases iov with
      | nil => simp [pendingData_none (hs.pending (by simp)), hall, Ne.symm hzero]
      | cons buf' iov =>
        rw [tcpTxSend_nil hp (hstart.resolve_left (absurd hall)) h]
        simp
    · have hpos := length_pos_iff.2 hbuf
      have henvs1 : (iov.map (·.length + 2)).sum ≤ envs1.length := by omega
      simp only [if_neg hbuf, if_neg (show (buf.take winlen).length ≠ 0 by omega)]
      have hlong : (pendingData c1).length = 0 ∨ 20 ≤ (pendingData c1).length := by
        cases hpush : iov.isEmpty && decide (buf.length ≤ winlen) with
        | false =>
          rw [tcpTxSend_leftover hp hmss halloc (ne_nil_of_length_pos (by omega)) (hpush ▸ h)]
          exact leftover_short ..
        | true => exact .inl (by rw [pendingData_none (hs.pending hpush), length_nil])
      obtain ⟨c', segs', hloop, hseg', hpend⟩ := ih (winlen - (buf.take winlen).length) hseg.pending
        (hseg.mss ▸ hmss) (fun env henv => halloc env (hsuf.mem henv)) henvs1 (.inr hlong)
      refine ⟨c', segs ++ segs', hloop, ?_, fun _ htotal hall => ?_⟩
      · have htake : winlen - (buf.take winlen).length = winlen - buf.length := by omega
        rw [htake] at hseg'
        rw [take_append]
        exact hseg.trans hseg'
      · rw [flatten_cons, length_append] at htotal ⊢
        rw [flatten_cons, length_append, length_append] at hall
        rw [take_of_length_le (show buf.length ≤ winlen by omega)] at h hpend
        cases iov with
        | nil =>
          cases hloop
          simp [pendingData_none (hs.pending (by simpa using htotal)), Ne.symm hbuf]
        | cons buf' iov =>
          have hmem {l : List (List UInt8)} : [] ∈ buf :: l ↔ [] ∈ l := by simp [Ne.symm hbuf]
          rw [hpend nofun (by omega) (by omega), hseg.mss, tcpTxSend_leftover hp hmss halloc hbuf h,
            dropLast_cons_of_ne_nil (cons_ne_nil _ _), hmem, hmem, show (buf' :: iov).flatten.length =
              winlen - buf.length ↔ buf.length + (buf' :: iov).flatten.length = winlen by omega]

lemma beforeEmpty_append (iov : List (List UInt8)) : ∃ behind, iov.flatten = beforeEmpty iov ++ behind := by
  induction iov with
  | nil => exact ⟨[], rfl⟩
  | cons buf iov ih =>
    rw [beforeEmpty, flatten_cons]
    split
    · exact ⟨_, rfl⟩
    · obtain ⟨behind, h⟩ := ih
      exact ⟨behind, by rw [h, append_assoc]⟩

lemma window_left (edge nxt : Seq) (n : ℕ) :
    (edge - (nxt + BitVec.ofNat 32 (min (edge - nxt).toNat n))).toNat = (edge - nxt).toNat - n := by
  bv_omega

/-- On a connection that can send, with buffers to allocate, `tcp_writev` accepts exactly the bytes that fit in the
window, moves `snd_nxt` over these, and leaves no byte in `tx_pending` if it has accepted all of them, just under two
conditions. The bytes that fit in the window are before the first empty buffer. And if all bytes fit and there is an empty
buffer before the last one, or the last one finds the window full, the call without push before it leaves nothing. -/
theorem writev_complete {iov : List (List UInt8)} (hopen : c.tx.closed = false) (hp : PendingOk c)
    (hmss : c.snd.mss ≠ 0) (htotal : 1 ≤ iov.flatten.length) (halloc : ∀ env ∈ envs, env.alloc = true)
    (henvs : (iov.map (·.length + 2)).sum ≤ envs.length) :
    (∃ c' segs, tcpWritev envs c iov = some c' ∧
      Segmented c (iov.flatten.take (c.snd.una + c.snd.wnd - c.snd.nxt).toNat) c' segs ∧
      (c.snd.una + c.snd.wnd - c'.snd.nxt).toNat =
        (c.snd.una + c.snd.wnd - c.snd.nxt).toNat - iov.flatten.length ∧
      (iov.flatten.length ≤ (c.snd.una + c.snd.wnd - c.snd.nxt).toNat → pendingData c' = [])) ↔
    min (c.snd.una + c.snd.wnd - c.snd.nxt).toNat iov.flatten.length ≤ (beforeEmpty iov).length ∧
    (iov.flatten.length ≤ (c.snd.una + c.snd.wnd - c.snd.nxt).toNat →
      [] ∈ iov.dropLast ∨ [] ∈ iov ∧ iov.flatten.length = (c.snd.una + c.snd.wnd - c.snd.nxt).toNat →
        leftovers c.snd.mss.toNat (pendingData c).length iov = 0) := by
  have hwait : tcpWriteWait c = ({ c with
      tx.exclusive := true, tmr.zeroWnd := false, tmr.acksDelayedCnt := 0, tmr.ackDelayed := false },
      some (c.snd.una + c.snd.wnd - c.snd.nxt).toNat) := by
    simp [tcpWriteWait, hopen]
  have hwin := (c.snd.una + c.snd.wnd - c.snd.nxt).isLt
  obtain ⟨c', segs, hloop, hseg, hpend⟩ := tcpWritevLoop_segmented (c := (tcpWriteWait c).1)
    (c.snd.una + c.snd.wnd - c.snd.nxt).toNat (by rw [hwait]; exact hp) (by rw [hwait]; exact hmss) halloc
    henvs (.inl (ne_nil_of_length_pos htotal))
  rw [hwait] at hloop hseg hpend
  have hpend := hpend (by rintro rfl; cases htotal)
  have hcall : tcpWritev envs c iov = some c' := by
    rw [tcpWritev, hwait]
    exact hloop
  have hnxt : c'.snd.nxt = c.snd.nxt + BitVec.ofNat 32
      (min (c.snd.una + c.snd.wnd - c.snd.nxt).toNat (beforeEmpty iov).length) := by
    rw [hseg.nxt, length_take]
  constructor
  · rintro ⟨c'', segs'', hcall'', hseg'', -, hpend''⟩
    obtain rfl : c' = c'' := Option.some.inj (hcall.symm.trans hcall'')
    have hcut : min (c.snd.una + c.snd.wnd - c.snd.nxt).toNat iov.flatten.length ≤ (beforeEmpty iov).length := by
      have hsame := congrArg BitVec.toNat ((BitVec.add_right_inj _).1 (hnxt.symm.trans hseg''.nxt))
      rw [length_take, BitVec.toNat_ofNat, BitVec.toNat_ofNat, Nat.mod_eq_of_lt (by omega),
        Nat.mod_eq_of_lt (by omega)] at hsame
      omega
    exact ⟨hcut, fun hle => (hpend hle (by omega)).1 (hpend'' hle)⟩
  · rintro ⟨hcut, hlast⟩
    obtain ⟨behind, hbehind⟩ := beforeEmpty_append iov
    have htake : iov.flatten.take (c.snd.una + c.snd.wnd - c.snd.nxt).toNat =
        (beforeEmpty iov).take (c.snd.una + c.snd.wnd - c.snd.nxt).toNat := by
      have hlen := congrArg length hbehind
      rw [length_append] at hlen
      rw [hbehind, take_append, append_right_eq_self, take_eq_nil_iff]
      by_cases hle : (c.snd.una + c.snd.wnd - c.snd.nxt).toNat ≤ (beforeEmpty iov).length
      · exact .inl (Nat.sub_eq_zero_of_le hle)
      · exact .inr (eq_nil_of_length_eq_zero (by omega))
    refine ⟨c', segs, hcall, ?_, ?_, fun hle => (hpend hle (by omega)).2 (hlast hle)⟩
    · rw [htake]
      exact ⟨hseg.q, hseg.data, hseg.seg, hseg.nxt, hseg.mss, hseg.pending⟩
    · have hmin : min (c.snd.una + c.snd.wnd - c.snd.nxt).toNat (beforeEmpty iov).length =
          min (c.snd.una + c.snd.wnd - c.snd.nxt).toNat iov.flatten.length := by
        rw [← length_take, ← htake, length_take]
      rw [hnxt, hmin]
      exact window_left ..

theorem writev_complete_trailing : ∃ c' segs,
    tcpWritev (List.replicate 9 {}) (writable 88) [[1, 2], [3], []] = some c' ∧
      Segmented (writable 88) [1, 2, 3] c' segs ∧ pendingData c' = [] := by
  have halloc : ∀ env ∈ List.replicate 9 ({} : Env), env.alloc := by decide
  have htotal : 0 < ([[1, 2], [3], []] : List (List UInt8)).flatten.length := by decide
  obtain ⟨c', segs, h, hseg, -, hpend⟩ := (writev_complete (c := writable 88) rfl nofun (by decide) htotal halloc
    (by decide)).2 (by decide)
  exact ⟨c', segs, h, hseg, hpend (by decide)⟩

/-- An empty buffer ends the call: none of the bytes behind it is accepted. Behind a buffer that fills the window it
is not reached, and what was deferred for it stays in `tx_pending`. -/
theorem writev_empty_buffer :
    (∃ c', tcpWritev (List.replicate 9 {}) (writable 88) [[], [7]] = some c' ∧
      c'.snd.nxt = (writable 88).snd.nxt ∧ pendingData c' = []) ∧
    ∃ c', tcpWritev (List.replicate 9 {}) { writable 88 with snd.wnd := 20 } [List.replicate 20 7, []]
      = some c' ∧ pendingData c' = List.replicate 20 7 := by
  refine ⟨⟨_, rfl, ?_, ?_⟩, _, rfl, ?_⟩ <;> rfl

/-! ## Control segments -/

lemma tcpTxCtl_harmless (c : Conn) (flags : Flags) (opts : Option TcpOptions) :
    ((tcpTxCtl env c flags opts).2 ≠ none → (tcpTxCtl env c flags opts).1 = c) ↔ env.alloc = false ∨ env.tx = none := by
  cases h : tcpTxCtl env c flags opts with
  | mk c' ret =>
    obtain ⟨halloc, rfl, rfl⟩ | ⟨halloc, rfl, m, -, -, -, rfl⟩ := tcpTxCtl_cases h
    · exact iff_of_true (fun _ => rfl) (.inl halloc)
    · refine ⟨fun hsame => ?_, fun hok herr => (hok.elim (by simp [halloc]) herr).elim⟩
      by_contra hfail
      have hq := congrArg (·.tx.q.length) (hsame fun htx => hfail (.inr htx))
      simp at hq

/-- When they return an error, `tcp_tx_ctl` and `tcp_shutdown` leave the connection as it was just if there was no
buffer or `net_tx_ip` did not fail. -/
theorem ctl_failure_harmless (c : Conn) (rx : Bool) (flags : Flags) (opts : Option TcpOptions) :
    (((tcpTxCtl env c flags opts).2 ≠ none → (tcpTxCtl env c flags opts).1 = c) ↔
      env.alloc = false ∨ env.tx = none) ∧
    (((tcpConnShutdownTx env c).2 ≠ none →
      tcpShutdownRest rx (tcpConnShutdownTx env c).1 (tcpConnShutdownTx env c).2 = c) ↔
      env.alloc = false ∨ env.tx = none) := by
  refine ⟨tcpTxCtl_harmless c flags opts, ?_⟩
  rw [← tcpTxCtl_harmless c (tcpFin ||| tcpAck) none, tcpConnShutdownTx]
  cases tcpTxCtl env c (tcpFin ||| tcpAck) none with
  | mk c' ret =>
    cases ret with
    | none => exact iff_of_true (absurd rfl) (absurd rfl)
    | some err => exact .rfl

/-- When `net_tx_ip` fails, `tcp_shutdown` returns the error with the FIN on the TX queue and its number
taken, in the state as before. -/
theorem ctl_failure_queued : ∃ m, tcpConnShutdownTx { tx := some .enomem } (writable 88) =
    ({ writable 88 with snd.nxt := 1, tx.q := [m], tx.lastWin := tcpWin, tx.ctlLog := [tcpFin ||| tcpAck] },
      some .enomem) ∧ m.flags = tcpFin ||| tcpAck :=
  ⟨_, rfl, rfl⟩

/-! ## Retransmission -/

/-- What `tcp_tx_retransmit_one` hands to `net_tx_ip`: the header fields it writes, what follows the header
and the length it passes to the checksum. -/
structure Resent where
  seq : Seq
  flags : Flags
  off : ℕ
  body : List UInt8
  l4len : BitVec 16

structure ResendOut where
  sent : Option Resent
  ref : ℕ
  ret : Option Errno

def l4len (m : Mbuf) : BitVec 16 := let n := (m.segEnd - m.segSeq).setWidth 16
  if hasFlag m.flags (tcpSyn ||| tcpFin) then n - 1 else n

/-- `tcp_tx_retransmit_one` for a queued buffer with `ref` references. If somebody else has one, what is behind the
header is copied. -/
def tcpTxResend (env : Env) (ref : ℕ) (una : Seq) (m : Mbuf) : Except Fault ResendOut :=
  let optsLen := m.opts.length / 4
  let body := if ref ≠ 1 then (m.opts ++ m.data).take (4 * optsLen + (l4len m).toNat) else m.opts ++ m.data
  if ref ≠ 1 ∧ env.alloc = false then .ok { sent := none, ref := ref, ret := some .enomem }
  else if wrapsLte m.segEnd una then .ok { sent := none, ref := ref, ret := none }
  else
    let skip := if wrapsLt m.segSeq una then (una - m.segSeq).toNat else 0
    if body.length < skip then .error .bugPull
    else
      -- the network has the buffer itself, unless it was copied or refused
      let ref := if ref = 1 ∧ env.tx = none then 2 else ref
      .ok {
        sent := some {
          seq := if wrapsLt m.segSeq una then una else m.segSeq
          flags := m.flags
          off := 5 + optsLen
          body := body.drop skip
          l4len := l4len m }
        ref := ref
        ret := env.tx }

inductive TxSeg (m : Mbuf) : Prop
  | data (hflags : hasFlag m.flags (tcpSyn ||| tcpFin) = false) (hopts : m.opts = [])
      (hspan : m.segEnd - m.segSeq = BitVec.ofNat 32 m.data.length) (hlen : m.data.length < 65536)
  | ctl (hflags : hasFlag m.flags (tcpSyn ||| tcpFin) = true) (hdata : m.data = [])
      (hspan : m.segEnd - m.segSeq = 1) (hopts : 4 ∣ m.opts.length)

lemma TxSeg.l4len_eq (h : TxSeg m) : (l4len m).toNat = m.data.length := by
  unfold l4len
  cases h with
  | data hflags _ hspan hlen =>
    rw [hflags, hspan]
    simp only [Bool.false_eq_true, if_false, BitVec.toNat_setWidth, BitVec.toNat_ofNat]
    omega
  | ctl hflags hdata hspan =>
    rw [hflags, hspan, hdata]
    rfl

lemma TxSeg.optsLen_eq (h : TxSeg m) : 4 * (m.opts.length / 4) = m.opts.length := by
  cases h with
  | data _ hopts => simp [hopts]
  | ctl _ _ _ hopts => exact Nat.mul_div_cancel' hopts

lemma between_ends {una : Seq} (hlen : (m.segEnd - m.segSeq).toNat < 65536)
    (hend : wrapsLte m.segEnd una = false) (hseq : wrapsLt m.segSeq una) :
    0 < (una - m.segSeq).toNat ∧ (una - m.segSeq).toNat < (m.segEnd - m.segSeq).toNat := by
  simp only [wrapsLte, wrapsLt, decide_eq_true_eq, decide_eq_false_iff_not, BitVec.toInt_eq_toNat_cond] at hend hseq
  split at hend <;> split at hseq <;> bv_omega

lemma TxSeg.partly {una : Seq} (h : TxSeg m) (hend : wrapsLte m.segEnd una = false)
    (hseq : wrapsLt m.segSeq una) : m.opts = [] ∧
      0 < (una - m.segSeq).toNat ∧ (una - m.segSeq).toNat < m.data.length := by
  cases h with
  | data _ hopts hspan hlen =>
    have hlt : (m.segEnd - m.segSeq).toNat = m.data.length := by
      rw [hspan, BitVec.toNat_ofNat]
      omega
    exact ⟨hopts, hlt ▸ between_ends (by omega) hend hseq⟩
  | ctl _ _ hspan =>
    have hbetween := between_ends (by rw [hspan]; decide) hend hseq
    rw [hspan] at hbetween
    have hone : (1 : Seq).toNat = 1 := rfl
    omega

/-- A segment of the TX queue is resent from `snd_una` on, with its flags and options; the length for the checksum is
that of the payload just if no part is acknowledged. If all of it is, nothing is sent. -/
theorem resent_well_formed (env : Env) (ref : ℕ) (una : Seq) (h : TxSeg m) : ∃ o, tcpTxResend env ref una m = .ok o ∧
    (wrapsLte m.segEnd una = true → o.sent = none ∧ o.ref = ref) ∧
    (wrapsLte m.segEnd una = false → ref = 1 ∨ env.alloc = true → o.sent.isSome) ∧
    ∀ p ∈ o.sent, wrapsLte m.segEnd una = false ∧
      p.seq = (if wrapsLt m.segSeq una then una else m.segSeq) ∧
      p.body = m.opts ++ m.data.drop (p.seq - m.segSeq).toNat ∧ p.flags = m.flags ∧
      4 * p.off = 20 + m.opts.length ∧
      (p.l4len.toNat = (m.data.drop (p.seq - m.segSeq).toNat).length ↔ wrapsLt m.segSeq una = false) := by
  have hopts := h.optsLen_eq
  have hbody : (if ref ≠ 1 then (m.opts ++ m.data).take (4 * (m.opts.length / 4) + (l4len m).toNat)
      else m.opts ++ m.data) = m.opts ++ m.data := by
    rw [hopts, h.l4len_eq, ← length_append, take_length, ite_self]
  unfold tcpTxResend
  dsimp only
  rw [hbody]
  split
  · rename_i hfail
    exact ⟨_, rfl, fun _ => ⟨rfl, rfl⟩, fun _ hor => absurd hor (by simp [hfail]), nofun⟩
  split
  · rename_i hend
    exact ⟨_, rfl, fun _ => ⟨rfl, rfl⟩, fun hno => absurd hend (by simp [hno]), nofun⟩
  · rename_i hend
    have hend' : wrapsLte m.segEnd una = false := by simpa using hend
    by_cases hseq : wrapsLt m.segSeq una
    · obtain ⟨hnil, hpos, hlt⟩ := h.partly hend' hseq
      simp only [hseq, if_true, hnil, nil_append, if_neg hlt.le.not_gt]
      refine ⟨_, rfl, fun hyes => absurd hyes hend, fun _ _ => rfl, ?_⟩
      rintro _ ⟨⟩
      refine ⟨hend', rfl, rfl, rfl, rfl, iff_of_false ?_ nofun⟩
      dsimp only
      rw [length_drop, h.l4len_eq]
      omega
    · have hseq' : wrapsLt m.segSeq una = false := by simpa using hseq
      simp only [hseq', Bool.false_eq_true, if_false, Nat.not_lt_zero, drop_zero]
      refine ⟨_, rfl, fun hyes => absurd hyes hend, fun _ _ => rfl, ?_⟩
      rintro _ ⟨⟩
      have hzero : (m.segSeq - m.segSeq).toNat = 0 := by simp
      refine ⟨hend', rfl, ?_, rfl, ?_, iff_of_true ?_ trivial⟩
      · rw [hzero, drop_zero]
      · show 4 * (5 + m.opts.length / 4) = 20 + m.opts.length
        omega
      · rw [hzero, drop_zero]
        exact h.l4len_eq

theorem resent_well_formed_syn : ∃ o, tcpTxResend {} 1 7
      { data := [], segSeq := 7, segEnd := 8, flags := tcpSyn, opts := [2, 4, 5, 180] } = .ok o ∧
    ∃ p ∈ o.sent, p.seq = 7 ∧ p.body = [2, 4, 5, 180] ∧ p.l4len.toNat = 0 := by
  obtain ⟨o, ho, -, hsome, hp⟩ := resent_well_formed {} 1 7 (.ctl rfl rfl rfl ⟨1, rfl⟩ : TxSeg
    { data := [], segSeq := 7, segEnd := 8, flags := tcpSyn, opts := [2, 4, 5, 180] })
  obtain ⟨p, hsent⟩ := Option.isSome_iff_exists.1 (hsome rfl (.inl rfl))
  obtain ⟨-, hseq, hbody, -, -, hlen⟩ := hp p hsent
  exact ⟨o, ho, p, hsent, hseq, by simpa using hbody, by simpa using hlen.2 rfl⟩

/-- Of four bytes two are acknowledged: the packet has two, and the checksum is made for four. -/
theorem resent_partly_acked : ∃ m, TxSeg m ∧ ∃ o p, tcpTxResend {} 1 2 m = .ok o ∧ o.sent = some p ∧
    p.seq = 2 ∧ p.body = [3, 4] ∧ p.l4len = 4 := by
  refine ⟨{ data := [1, 2, 3, 4], segSeq := 0, segEnd := 4, flags := tcpAck },
    .data rfl rfl rfl (by decide), _, _, rfl, rfl, rfl, rfl, rfl⟩

end Aspen.Tcp
