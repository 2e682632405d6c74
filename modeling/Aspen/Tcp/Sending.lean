import Aspen.Tcp.Moves

/-!
# The sending side over whole runs

`snd_una` and `snd_nxt` are counted from the initial sequence number: `Sent s U N` says that `U` numbers
have been acknowledged and `N` have been used, with `U ≤ N`, and that no more than `2 ^ 30` of them are
outstanding, apart from those of control segments. The bytes that a writer may still send count as used.
-/

namespace Aspen.Tcp

open Serial Run BitVec

variable {dbg : Bool} {s s' : Sys} {e : Event} {r : RxSeg} {U N : ℕ}

/-! ## Positions -/

def budget : Option Writer → ℕ
  | some (.send (some snd)) => snd.winlen - snd.sent
  | _ => 0

structure Sent (s : Sys) (U N : ℕ) : Prop where
  una : s.c.snd.una = s.c.snd.iss + BitVec.ofNat 32 U
  nxt : s.c.snd.nxt = s.c.snd.iss + BitVec.ofNat 32 N
  le : U ≤ N
  room : N + budget s.writer ≤ U + 1073741824 + s.c.tx.ctlLog.length
  few : s.c.tx.ctlLog.length ≤ 536870912
  wscale : s.c.snd.wscale.toNat ≤ 14
  wnd : s.c.snd.wnd.toNat ≤ 1073725440
  wins : ∀ r ∈ s.inflight, r.win.toNat ≤ 1073725440
  loaded : ∀ r ∈ s.inflight, ∃ P ≤ N, r.sndNxt = s.c.snd.iss + BitVec.ofNat 32 P
  fresh : s.owner.fresh = true → s.c.state = .closed
  unsynced : Unsynced s → U = 0
  writing : ∀ snd, s.writer = some (.send (some snd)) → snd.sent + snd.rest.length ≤ snd.winlen

lemma Sent.outstanding (h : Sent s U N) : (s.c.snd.nxt - s.c.snd.una).toNat = N - U := by
  have hroom := h.room
  have hfew := h.few
  rw [h.una, h.nxt, toNat_sub_ofNat h.le (by omega)]

lemma Sent.moved {U' N' : ℕ} (h : Sent s U N) (hs : step dbg s e = .ok s') (hiss : s'.c.snd.iss = s.c.snd.iss)
    (huna : s'.c.snd.una = s.c.snd.iss + BitVec.ofNat 32 U')
    (hnxt : s'.c.snd.nxt = s.c.snd.iss + BitVec.ofNat 32 N') (hle : U' ≤ N') (hN : N ≤ N')
    (hroom : N' + budget s'.writer ≤ U' + 1073741824 + s'.c.tx.ctlLog.length)
    (hfew : s'.c.tx.ctlLog.length ≤ 536870912) (hwscale : s'.c.snd.wscale.toNat ≤ 14)
    (hwnd : s'.c.snd.wnd.toNat ≤ 1073725440) (hin : ∀ r ∈ s'.inflight, r ∈ s.inflight)
    (hunsynced : Unsynced s' → U' = 0)
    (hwriting : ∀ snd, s'.writer = some (.send (some snd)) →
      snd.sent + snd.rest.length ≤ snd.winlen) : Sent s' U' N' := by
  refine ⟨by rw [hiss, huna], by rw [hiss, hnxt], hle, hroom, hfew, hwscale, hwnd,
    fun r hr => h.wins r (hin r hr), ?_, fresh_closed_step hs h.fresh, hunsynced, hwriting⟩
  intro r hr
  obtain ⟨P, hP, heq⟩ := h.loaded r (hin r hr)
  exact ⟨P, hP.trans hN, by rw [hiss, heq]⟩

/-- Control segments have not used up the number space, and unless the acknowledgement is dropped or repeats
`snd_una`, the `snd_nxt` it is compared with lies behind `snd_una` and not behind the present `snd_nxt`. -/
def AckOk (s : Sys) (e : Event) : Prop := s.c.tx.ctlLog.length < 536870912 ∧
  ∀ r ∈ s.turn e, s.c.state ≠ .closed → s.c.state ≠ .synSent → inSndWindow s.c r = true →
    r.ack ≠ s.c.snd.una → 0 < (r.sndNxt - s.c.snd.una).toNat ∧
      (r.sndNxt - s.c.snd.una).toNat ≤ (s.c.snd.nxt - s.c.snd.una).toNat
deriving Decidable

lemma Sent.ackedUna_eq (h : Sent s U N) (hok : inSndWindow s.c r → r.ack ≠ s.c.snd.una →
      0 < (r.sndNxt - s.c.snd.una).toNat ∧
      (r.sndNxt - s.c.snd.una).toNat ≤ (s.c.snd.nxt - s.c.snd.una).toNat) :
    ∃ U', ackedUna s.c r = s.c.snd.iss + BitVec.ofNat 32 U' ∧ U ≤ U' ∧ U' ≤ N := by
  have hroom := h.room
  have hfew := h.few
  unfold ackedUna
  split
  · rename_i hwin
    by_cases hsame : r.ack = s.c.snd.una
    · exact ⟨U, by rw [hsame, h.una], le_rfl, h.le⟩
    obtain ⟨hpos, hle⟩ := hok hwin hsame
    have hout := h.outstanding
    simp only [inSndWindow, Bool.and_eq_true] at hwin
    have hack := wrapsLte_window hwin.1 hwin.2 hpos (by omega)
    refine ⟨U + (r.ack - s.c.snd.una).toNat, ?_, by omega, by omega⟩
    rw [ofNat_add, ← add_assoc, ← h.una, add_ofNat_sub]
  · exact ⟨U, h.una, le_rfl, h.le⟩

lemma Sent.synAck (h : Sent s U N) (hst : s.c.state = .synSent) (hr : r ∈ s.inflight)
    (hiss : wrapsLte r.ack s.c.snd.iss = false) (hgt : wrapsGt r.ack r.sndNxt = false) :
    ∃ U', r.ack = s.c.snd.iss + BitVec.ofNat 32 U' ∧ U' ≤ N := by
  have hroom := h.room
  have hfew := h.few
  have hU := h.unsynced (.inr hst)
  obtain ⟨P, hP, hsnd⟩ := h.loaded r hr
  have hpos : 0 < sdist r.ack s.c.snd.iss := by
    by_contra hle
    simp [wrapsLte_iff.2 (by omega : sdist r.ack s.c.snd.iss ≤ 0)] at hiss
  have hge : ¬ sdist r.sndNxt r.ack < 0 := fun hlt => by simp [wrapsGt_iff.2 hlt] at hgt
  have htoNat := toNat_sub_of_nonneg hpos.le
  have hup := sdist_upper r.ack s.c.snd.iss
  have hack := (add_ofNat_sub s.c.snd.iss r.ack).symm
  refine ⟨(r.ack - s.c.snd.iss).toNat, hack, ?_⟩
  rw [hack, hsnd, sdist_ofNat (by omega) (by omega)] at hge
  omega

/-! ## Steps -/

lemma ackedUna_entered (c : Conn) (r : RxSeg) : ackedUna (entered c r) r = ackedUna c r := by
  unfold entered
  split
  · rfl
  · rfl

variable {c c₁ : Conn}

lemma AckPhase.sent (h : AckPhase (entered c r) r c₁) :
    c₁.snd.iss = c.snd.iss ∧ c₁.snd.una = ackedUna c r ∧ c₁.snd.nxt = c.snd.nxt ∧
      c₁.snd.wscale = c.snd.wscale ∧ (c₁.snd.wnd = c.snd.wnd ∨ c₁.snd.wnd = r.win) ∧
      c₁.tx.ctlLog = c.tx.ctlLog := by
  rw [← ackedUna_entered]
  cases h with
  | mk hwnd hq =>
    unfold entered at hwnd ⊢
    split at hwnd
    · rename_i hst
      rw [if_pos hst]
      exact ⟨rfl, rfl, rfl, rfl, .inr (hwnd.elim id id), rfl⟩
    · rename_i hst
      rw [if_neg hst]
      exact ⟨rfl, rfl, rfl, rfl, hwnd, rfl⟩

structure RxSent (c : Conn) (r : RxSeg) (c' : Conn) (v : Seq) (n : ℕ) : Prop where
  una : c'.snd.una = v
  nxt : c'.snd.nxt = c.snd.nxt + BitVec.ofNat 32 n
  iss : c'.snd.iss = c.snd.iss
  wscale : c'.snd.wscale = c.snd.wscale ∨ c'.snd.wscale.toNat ≤ 14
  wnd : c'.snd.wnd = c.snd.wnd ∨ c'.snd.wnd = r.win
  few : n ≤ 1
  ctl : c'.tx.ctlLog.length = c.tx.ctlLog.length + n
  moved : v = c.snd.una ∨
    (c.state = .synSent ∧ c'.state = .established ∧ v = r.ack ∧ wrapsLte r.ack c.snd.iss = false ∧
      wrapsGt r.ack r.sndNxt = false) ∨
    ((c.state ≠ .closed ∧ c.state ≠ .synSent) ∧ v = ackedUna c r)

lemma RxMove.crossed_flag {o : ParsedOptions}
    (hack : hasFlag r.m.flags tcpAck → wrapsLte r.ack c.snd.iss = false ∧ wrapsGt r.ack r.sndNxt = false)
    (huna : wrapsGt (synConn c r o).snd.una c.snd.iss = false) : hasFlag r.m.flags tcpAck = false := by
  rw [Bool.eq_false_iff]
  intro hflag
  rw [synConn_eq, applyOptions_eq] at huna
  rw [if_pos hflag] at huna
  have hlte := wrapsLte_of_not_wrapsGt huna
  simp [(hack hflag).1] at hlte

variable {env : Env}

lemma RxMove.sent {c' : Conn} (h : RxMove dbg env c r c') : ∃ v n, RxSent c r c' v n := by
  cases h with
  | quiet => exact ⟨_, 0, rfl, by simp, rfl, .inl rfl, .inl rfl, by omega, rfl, .inl rfl⟩
  | failed hst =>
    rw [tcpConnFail_eq]
    exact ⟨_, 0, rfl, by simp, rfl, .inl rfl, .inl rfl, by omega, rfl, .inl rfl⟩
  | @synAcked o t hst hack huna =>
    rw [synConn_eq, applyOptions_eq]
    refine ⟨_, 0, rfl, by simp, rfl, .inr (wscale_toNat_le o), .inr rfl, by omega, rfl, ?_⟩
    dsimp only
    split
    · rename_i hflag
      exact .inr (.inl ⟨hst, rfl, rfl, hack hflag⟩)
    · exact .inl rfl
  | @synCrossed o opts c₁ ret t hst hack huna hctl =>
    have hflag := RxMove.crossed_flag hack huna
    rw [synConn_eq, applyOptions_eq] at hctl
    simp only [hflag, Bool.false_eq_true, if_false, Bool.false_and] at hctl
    obtain ⟨-, rfl, -⟩ | ⟨-, -, m, -, -, -, rfl⟩ := tcpTxCtl_cases hctl
    · exact ⟨_, 0, rfl, by simp, rfl, .inr (wscale_toNat_le o), .inl rfl, by omega, rfl, .inl rfl⟩
    · exact ⟨_, 1, rfl, rfl, rfl, .inr (wscale_toNat_le o), .inl rfl, le_rfl, by simp, .inl rfl⟩
  | lastAcked hst hacc hack huna =>
    have hentered : entered c r = c := by simp [entered, hst]
    obtain ⟨h1, h2, h3, h4, h5, h6⟩ := (hentered.symm ▸ hack : AckPhase (entered c r) r _).sent
    rw [tcpConnPutSm_eq]
    exact ⟨_, 0, h2, by simpa using h3, h1, .inl h4, h5, by omega, congrArg _ h6, .inr (.inr ⟨by simp [hst], rfl⟩)⟩
  | text hst hacc hack hlast htext =>
    obtain ⟨h1, h2, h3, h4, h5, h6⟩ := hack.sent
    obtain ⟨rcv, rx, rfl⟩ := htext.frame
    exact ⟨_, 0, h2, by simpa using h3, h1, .inl h4, h5, by omega, congrArg _ h6, .inr (.inr ⟨hst, rfl⟩)⟩

def SentNext (s s' : Sys) (U N : ℕ) : Prop :=
  ∃ U' N', Sent s' U' N' ∧ s'.c.snd.iss = s.c.snd.iss ∧ U ≤ U' ∧ U' ≤ N ∧ N ≤ N'

lemma Sent.advance {n k : ℕ} (h : Sent s U N) (hs : step dbg s e = .ok s')
    (hsnd : s'.c.snd = { s.c.snd with nxt := s.c.snd.nxt + BitVec.ofNat 32 n })
    (hctl : s'.c.tx.ctlLog.length = s.c.tx.ctlLog.length + k)
    (hfew : s'.c.tx.ctlLog.length ≤ 536870912) (hin : ∀ r ∈ s'.inflight, r ∈ s.inflight)
    (hbudget : n + budget s'.writer ≤ budget s.writer + k)
    (hwriting : ∀ snd, s'.writer = some (.send (some snd)) →
      snd.sent + snd.rest.length ≤ snd.winlen) : SentNext s s' U N := by
  have hroom := h.room
  refine ⟨U, N + n, h.moved hs (by rw [hsnd]) (by rw [hsnd]; exact h.una) ?_ (by have := h.le; omega)
    (Nat.le_add_right _ _) ?_ hfew (by rw [hsnd]; exact h.wscale) (by rw [hsnd]; exact h.wnd) hin
    (fun hu => h.unsynced (unsynced_of_step hs hu)) hwriting, by rw [hsnd], le_rfl, h.le,
    Nat.le_add_right _ _⟩
  · rw [hsnd]
    rw [h.nxt, ofNat_add, add_assoc]
  · omega

lemma Sent.still (h : Sent s U N) (hs : step dbg s e = .ok s') (hsnd : s'.c.snd = s.c.snd)
    (hctl : s'.c.tx.ctlLog = s.c.tx.ctlLog) (hin : ∀ r ∈ s'.inflight, r ∈ s.inflight)
    (hbudget : budget s'.writer ≤ budget s.writer)
    (hwriting : ∀ snd, s'.writer = some (.send (some snd)) →
      snd.sent + snd.rest.length ≤ snd.winlen) : SentNext s s' U N := by
  have hnxt : s.c.snd.nxt + BitVec.ofNat 32 0 = s.c.snd.nxt := by simp
  exact h.advance (n := 0) (k := 0) hs (by rw [hsnd, hnxt]) (by rw [hctl, Nat.add_zero]) (by rw [hctl]; exact h.few)
    hin (by omega) hwriting

lemma Sent.ingress {i : ℕ} (h : Sent s U N)
    (hs : step dbg s (.rxLocked i env) = .ok s') (hok : AckOk s (.rxLocked i env))
    (hr : s.inflight[i]? = some r) (hw : s'.writer = s.writer)
    (hin : ∀ r ∈ s'.inflight, r ∈ s.inflight) (hm : RxMove dbg env s.c r s'.c) : SentNext s s' U N := by
  have hmem : r ∈ s.inflight := List.mem_of_getElem? hr
  have hroom := h.room
  obtain ⟨una, n, huna, hnxt, hiss, hwscale, hwnd, hn, hctl, hmoved⟩ := hm.sent
  obtain ⟨U', hU', hlo, hhi, hunsynced⟩ : ∃ U', una = s.c.snd.iss + BitVec.ofNat 32 U' ∧ U ≤ U' ∧ U' ≤ N ∧
      (Unsynced s' → U' = 0) := by
    rcases hmoved with rfl | ⟨hst, hst', rfl, hack, hgt⟩ | ⟨hst, rfl⟩
    · exact ⟨U, h.una, le_rfl, h.le, fun hu => h.unsynced (unsynced_of_step hs hu)⟩
    · have hU := h.unsynced (.inr hst)
      obtain ⟨U', hU', hle⟩ := h.synAck hst hmem hack hgt
      refine ⟨U', hU', by omega, hle, ?_⟩
      rintro (hfresh | hsent)
      · rw [step_fresh hs hfresh] at hfresh
        simp [h.fresh hfresh] at hst
      · simp [hst'] at hsent
    · obtain ⟨U', hU', hlo, hhi⟩ := h.ackedUna_eq (r := r) (hok.2 r hr hst.1 hst.2)
      refine ⟨U', hU', hlo, hhi, ?_⟩
      rintro (hfresh | hsent)
      · rw [step_fresh hs hfresh] at hfresh
        exact absurd (h.fresh hfresh) hst.1
      · exact absurd (hm.synSent hsent) hst.2
  have hlt := hok.1
  refine ⟨U', N + n, h.moved hs hiss (by rw [huna, hU']) ?_ (by omega) (Nat.le_add_right _ _) ?_ (by omega) ?_ ?_
    hin hunsynced ?_, hiss, hlo, hhi, Nat.le_add_right _ _⟩
  · rw [hnxt, h.nxt, ofNat_add, add_assoc]
  · rw [hw]
    omega
  · rcases hwscale with hwscale | hwscale
    · rw [hwscale]
      exact h.wscale
    · exact hwscale
  · rcases hwnd with hwnd | hwnd
    · rw [hwnd]
      exact h.wnd
    · rw [hwnd]
      exact h.wins r hmem
  · rw [hw]
    exact h.writing

lemma tcpRxConnLoad_spec {p : Packet} (h : tcpRxConnLoad c p = some r) :
    r.sndNxt = c.snd.nxt ∧ r.win = p.win.setWidth 32 <<< c.snd.wscale := by
  unfold tcpRxConnLoad at h
  dsimp only at h
  split at h
  · cases h
  split at h
  · cases h
  · cases h
    exact ⟨rfl, rfl⟩

lemma toNat_scaled_le (win : BitVec 16) {wscale : Seq} (h : wscale.toNat ≤ 14) :
    (win.setWidth 32 <<< wscale : Seq).toNat ≤ 1073725440 := by
  have hpow : 2 ^ wscale.toNat ≤ 2 ^ 14 := Nat.pow_le_pow_right (by omega) h
  calc (win.setWidth 32 <<< wscale : Seq).toNat ≤ win.toNat * 2 ^ wscale.toNat := by
        rw [shiftLeft_eq', toNat_shiftLeft, Nat.shiftLeft_eq, toNat_setWidth]
        refine (Nat.mod_le _ _).trans (Nat.mul_le_mul_right _ (Nat.mod_le _ _))
    _ ≤ 65535 * 2 ^ 14 := Nat.mul_le_mul (by omega) hpow

lemma Sent.load {p : Packet} (h : Sent s U N) (hr : tcpRxConnLoad s.c p = some r)
    (hs : s' = { s with inflight := s.inflight ++ [r] }) : SentNext s s' U N := by
  obtain ⟨hnxt, hwin⟩ := tcpRxConnLoad_spec hr
  subst hs
  refine ⟨U, N, ⟨h.una, h.nxt, h.le, h.room, h.few, h.wscale, h.wnd, ?_, ?_, h.fresh, h.unsynced,
    h.writing⟩, rfl, le_rfl, h.le, le_rfl⟩
  · intro r' hr'
    rcases List.mem_append.1 hr' with hr' | hr'
    · exact h.wins r' hr'
    · obtain rfl := List.mem_singleton.1 hr'
      rw [hwin]
      exact toNat_scaled_le p.win h.wscale
  · intro r' hr'
    rcases List.mem_append.1 hr' with hr' | hr'
    · exact h.loaded r' hr'
    · obtain rfl := List.mem_singleton.1 hr'
      exact ⟨N, le_rfl, by rw [hnxt, h.nxt]⟩

lemma Sent.window (h : Sent s U N) (hfull : tcpIsSndFull s.c = false) :
    N + (s.c.snd.una + s.c.snd.wnd - s.c.snd.nxt).toNat ≤ U + 1073741824 := by
  have hroom := h.room
  have hfew := h.few
  have hwnd := h.wnd
  have hle := h.le
  have hend : s.c.snd.una + s.c.snd.wnd = s.c.snd.iss + BitVec.ofNat 32 (U + s.c.snd.wnd.toNat) := by
    rw [h.una, ofNat_add, ofNat_toNat, setWidth_eq, add_assoc]
  have hlt : N < U + s.c.snd.wnd.toNat := by
    by_contra hge
    rw [tcpIsSndFull, ← Bool.not_eq_true, wrapsLte_iff, hend, h.nxt, sdist_ofNat (by omega) (by omega)] at hfull
    omega
  rw [hend, h.nxt, toNat_sub_ofNat hlt.le (by omega)]
  omega

variable {rd : SendRound}

lemma sendNext_spec {snd snd' : Send} {n : ℕ}
    (hsnd : snd.sent + snd.rest.length ≤ snd.winlen) (hn : n ≤ snd.rest.length)
    (h : sendNext snd (snd.rest.drop n) rd = some snd') :
    snd'.sent + snd'.rest.length ≤ snd'.winlen ∧
      n + (snd'.winlen - snd'.sent) ≤ snd.winlen - snd.sent := by
  have hlen : (snd.rest.drop n).length = snd.rest.length - n := List.length_drop
  have hvector : ∀ {sent : ℕ}, sent = snd.sent + n →
      (if sent = 0 then none else tcpWritevNext snd.iov (snd.winlen - sent) (snd.total + sent))
        = some snd' → snd'.sent + snd'.rest.length ≤ snd'.winlen ∧
        n + (snd'.winlen - snd'.sent) ≤ snd.winlen - snd.sent := by
    intro sent hsent h
    split at h
    · cases h
    · obtain ⟨h1, h2, h3⟩ := tcpWritevNext_spec h
      omega
  have hsent : snd.sent + (snd.rest.length - (snd.rest.drop n).length) = snd.sent + n := by omega
  cases rd with
  | sent ret =>
    simp only [sendNext] at h
    split at h
    · cases h
      dsimp only
      omega
    · exact hvector hsent h
  | deferred | nobufs => exact hvector hsent h

lemma sendNext_budget {snd : Send} {n : ℕ}
    (hsnd : snd.sent + snd.rest.length ≤ snd.winlen) (hn : n ≤ snd.rest.length) :
    n + budget (some (.send (sendNext snd (snd.rest.drop n) rd))) ≤ snd.winlen - snd.sent := by
  cases hnext : sendNext snd (snd.rest.drop n) rd with
  | none =>
    change n + 0 ≤ _
    omega
  | some snd' => exact (sendNext_spec hsnd hn hnext).2

lemma Sent.send {snd : Send} {rest : List UInt8}
    (h : Sent s U N) (hs : step dbg s e = .ok s') (hw : s.writer = some (.send (some snd)))
    (hr : tcpTxSendRound env s.c snd.rest snd.push = (c₁, rest, rd))
    (hs' : s' = { s with c := c₁, writer := some (.send (sendNext snd rest rd)) }) : SentNext s s' U N := by
  have hsnd := h.writing snd hw
  have hbudget : budget s.writer = snd.winlen - snd.sent := by rw [hw]; rfl
  have hnext : ∀ n, n ≤ snd.rest.length → rest = snd.rest.drop n →
      n + budget (some (.send (sendNext snd rest rd))) ≤ budget s.writer + 0 ∧
      ∀ snd', some (Writer.send (sendNext snd rest rd)) = some (.send (some snd')) →
        snd'.sent + snd'.rest.length ≤ snd'.winlen := by
    intro n hn hrest
    rw [hbudget, hrest]
    refine ⟨sendNext_budget hsnd hn, ?_⟩
    intro snd' heq
    simp only [Option.some.injEq, Writer.send.injEq] at heq
    exact (sendNext_spec hsnd hn heq).1
  obtain ⟨rfl, hrest, -⟩ | ⟨m, n, hn, hrest, -, ⟨-, -, rfl⟩ | ⟨-, _, _, rfl⟩⟩ := tcpTxSendRound_cases hr
  · obtain ⟨h1, h2⟩ := hnext 0 (Nat.zero_le _) (by rw [hrest, List.drop_zero])
    subst hs'
    exact h.still hs rfl rfl (fun _ hr => hr) (by simpa using h1) h2
  · obtain ⟨h1, h2⟩ := hnext n hn hrest
    subst hs'
    exact h.advance hs rfl rfl h.few (fun _ hr => hr) h1 h2
  · obtain ⟨h1, h2⟩ := hnext n hn hrest
    subst hs'
    exact h.advance hs rfl rfl h.few (fun _ hr => hr) h1 h2

lemma Sent.control {flags : Flags} (h : Sent s U N) (hs : step dbg s e = .ok s')
    (hlt : s.c.tx.ctlLog.length < 536870912) (hn : Numbered env flags s.c s'.c) (hw : s'.writer = s.writer)
    (hin : ∀ r ∈ s'.inflight, r ∈ s.inflight) : SentNext s s' U N := by
  obtain ⟨hsnd, hlog⟩ | ⟨-, hsnd, hlog⟩ := hn
  · exact h.still hs hsnd hlog hin (by rw [hw]) (hw ▸ h.writing)
  · have hlen : s'.c.tx.ctlLog.length = s.c.tx.ctlLog.length + 1 := by
      rw [hlog]
      simp
    refine h.advance (n := 1) (k := 1) hs hsnd hlen (by omega) hin ?_ (hw ▸ h.writing)
    rw [hw]
    omega

lemma Sent.step (h : Sent s U N) (hok : AckOk s e) (hs : step dbg s e = .ok s') : SentNext s s' U N := by
  cases stepped hs with
  | load hr => exact h.load hr rfl
  | ingress hr ho =>
    exact h.ingress hs hok hr rfl (fun _ => List.mem_of_mem_eraseIdx) (tcpRxConnLocked_move ho)
  | shutdown _ _ htx | close _ _ htx =>
    have hn := numbered_tcpConnShutdownTx htx
    exact h.control hs hok.1 hn rfl fun _ => id
  | closeFailed _ _ htx =>
    exact h.control hs hok.1 ((numbered_tcpConnShutdownTx htx).failed _ _) rfl fun _ => id
  | opened _ hctl | openFailed _ hctl =>
    have hn := numbered_tcpTxCtl hctl
    exact h.control hs hok.1 hn rfl fun _ => id
  | failed => exact h.still hs (by rw [tcpConnFail_eq]) (by rw [tcpConnFail_eq]) (fun _ => id) le_rfl h.writing
  | @writing _ next ho hopen hblock hnext =>
    have hwindow : N + s.c.winlen ≤ U + 1073741824 := h.window (tcpWriteBlocks_eq_false hblock hopen).2.2
    have hbudget : budget (some (.send next)) ≤ s.c.winlen := by
      cases next with
      | none => exact Nat.zero_le _
      | some snd =>
        obtain ⟨h1, h2, -⟩ := hnext.spec rfl
        simp only [budget]
        omega
    have hwriting : ∀ snd, some (Writer.send next) = some (.send (some snd)) →
        snd.sent + snd.rest.length ≤ snd.winlen := by
      intro snd heq
      cases heq
      obtain ⟨h1, -, h3⟩ := hnext.spec rfl
      omega
    refine ⟨U, N, h.moved hs rfl h.una h.nxt h.le le_rfl ?_ h.few h.wscale h.wnd (fun _ => id)
      (fun hu => h.unsynced (unsynced_of_step hs hu)) hwriting, rfl, le_rfl, h.le, le_rfl⟩
    dsimp only
    omega
  | sent hw hr => exact h.send hs hw hr rfl
  | resending | resent | finished => exact h.still hs rfl rfl (fun _ => id) (Nat.zero_le _) nofun
  | _ => exact h.still hs rfl rfl (fun _ => id) le_rfl h.writing

lemma sent_initial (h : Initial s) : Sent s 0 0 := by
  obtain ⟨_, _, _, _, _, _, _, _, _, -, hscale, -, rfl⟩ := initial_eq h
  exact ⟨by simp [freshConn, tcpConnAlloc], by simp [freshConn, tcpConnAlloc], le_rfl, Nat.zero_le _,
    Nat.zero_le _, hscale, Nat.zero_le _, by simp, by simp, fun _ => rfl, fun _ => rfl, by simp⟩

lemma sent_of_reaches (h : Reaches (step dbg) AckOk Initial s) : ∃ U N, Sent s U N :=
  h.invariant (I := fun s => ∃ U N, Sent s U N) (fun _ h0 => ⟨0, 0, sent_initial h0⟩)
    fun _ _ _ ⟨_, _, hi⟩ hok hs => by
      obtain ⟨U', N', hi', -⟩ := hi.step hok hs
      exact ⟨U', N', hi'⟩

/-- In every run that meets the condition, every step moves `snd_una` forward by no more than what is outstanding, and
besides those of control segments no more than `2 ^ 30` numbers are. -/
theorem una_sound (h : Reaches (step dbg) AckOk Initial s) (hok : AckOk s e) (hs : step dbg s e = .ok s') :
    (s'.c.snd.nxt - s'.c.snd.una).toNat ≤ 2 ^ 30 + s'.c.tx.ctlLog.length ∧
    (s'.c.snd.una - s.c.snd.una).toNat ≤ (s.c.snd.nxt - s.c.snd.una).toNat := by
  obtain ⟨U, N, hi⟩ := sent_of_reaches h
  obtain ⟨U', N', hi', hiss, hU, hle, hN⟩ := hi.step hok hs
  have hroom := hi.room
  have hroom' := hi'.room
  have hfew := hi.few
  refine ⟨?_, ?_⟩
  · rw [hi'.outstanding]
    omega
  · rw [hi.outstanding, hi'.una, hi.una, hiss, toNat_sub_ofNat hU (by omega)]
    omega

theorem una_sound_acked : ∃ s s', Reaches (step false) AckOk Initial s ∧
    AckOk s (.rxLocked 0 {}) ∧ step false s (.rxLocked 0 {}) = .ok s' ∧
    s'.c.snd.una = s.c.snd.una + 3 ∧
    (s'.c.snd.nxt - s'.c.snd.una).toNat ≤ 2 ^ 30 + s'.c.tx.ctlLog.length ∧
    (s'.c.snd.una - s.c.snd.una).toNat ≤ (s.c.snd.nxt - s.c.snd.una).toNat := by
  obtain ⟨s, hs, hok, s', hstep, huna⟩ : ∃ s, Reaches (step false) AckOk Initial s ∧
      AckOk s (.rxLocked 0 {}) ∧ Ends (step false s (.rxLocked 0 {})) fun s' =>
        s'.c.snd.una = s.c.snd.una + 3 := by
    refine Reaches.of_exec (handshake 1000 ++ [.write [1, 2, 3, 4], .sendRound {}, .writeFinish 0,
        .rxLoad (.plain 5001 1004 tcpAck 1000 [] (by decide))])
      (initial_dialed 1500) ?_ ?_
    · decide
    · decide
  exact ⟨s, s', hs, hok, hstep, huna, una_sound hs hok hstep⟩

/-- Nothing is outstanding, and a segment acknowledges the number half the number space away. -/
theorem una_passes_nxt : ∃ s, Reaches (step false) (fun _ _ => True) Initial s ∧
    Ends (step false s (.rxLocked 0 {})) fun s' =>
      (s.c.snd.nxt - s.c.snd.una).toNat = 0 ∧ (s'.c.snd.una - s.c.snd.una).toNat = 2 ^ 31 ∧
      2 ^ 30 + s'.c.tx.ctlLog.length < (s'.c.snd.nxt - s'.c.snd.una).toNat := by
  refine Reaches.of_exec (handshake 1000 ++ [.rxLoad (.plain 5001 (1001 + 0x80000000) tcpAck 1000 [] (by decide))])
    (initial_dialed 1500) (allowed_true _ _) ?_
  decide

end Aspen.Tcp
