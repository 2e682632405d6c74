import Aspen.Tcp.Tiling

/-!
# Deferred bytes

`tcp_writev` lets `tcp_tx_send` keep a short buffer in `tx_pending` when more of the vector is to come. The last
call pushes everything out, provided that there is one: when the window cuts the vector, the loop ends behind a
call that did not push, the rest stays in `tx_pending`, and with the window full nothing that the peer could
acknowledge is on its way (`cut_vector_unsent`).
-/

namespace Aspen.Tcp

open Run

variable {dbg : Bool} {s s' : Sys} {e : Event}

/-! ## Vectors that fit -/

def iovLength (iov : List (List UInt8)) : ℕ := (iov.map List.length).sum

/-- The vector fits, with room for the call on its last element, and no other element ends the loop. -/
def Fits (iov : List (List UInt8)) (winlen : ℕ) : Prop :=
  iov ≠ [] ∧ (∀ buf ∈ iov.dropLast, buf ≠ []) ∧ iovLength iov.dropLast < winlen ∧ iovLength iov ≤ winlen

lemma iovLength_cons (buf : List UInt8) (iov : List (List UInt8)) :
    iovLength (buf :: iov) = buf.length + iovLength iov := by
  simp [iovLength]

instance (iov : List (List UInt8)) (winlen : ℕ) : Decidable (Fits iov winlen) := inferInstanceAs (Decidable (_ ∧ _))

/-- What is left of the call pushes, or is followed by more of its vector. -/
inductive WillPush (snd : Send) : Prop
  | now (hpush : snd.push = true) (hiov : snd.iov = [])
  | later (hpush : snd.push = false) (hpos : snd.sent + snd.rest.length ≠ 0)
      (hfits : Fits snd.iov (snd.winlen - (snd.sent + snd.rest.length)))

lemma Fits.next {iov : List (List UInt8)} {winlen : ℕ} (h : Fits iov winlen) (total : ℕ) :
    ∃ snd, tcpWritevNext iov winlen total = some snd ∧ WillPush snd := by
  obtain ⟨hne, hmid, hroom, hlen⟩ := h
  have hwin : winlen ≠ 0 := by omega
  match iov with
  | [] => exact absurd rfl hne
  | [buf] =>
    refine ⟨_, if_neg hwin, .now ?_ rfl⟩
    simpa [iovLength] using hlen
  | buf :: buf' :: iov =>
    rw [List.dropLast_cons_cons, iovLength_cons] at hroom
    rw [iovLength_cons] at hlen
    have hbuf : buf ≠ [] := hmid buf (by simp)
    have htake : buf.take winlen = buf := List.take_of_length_le (by omega)
    refine ⟨_, if_neg hwin, .later rfl ?_ ⟨List.cons_ne_nil _ _, ?_, ?_, ?_⟩⟩
    · rw [htake]
      simpa using hbuf
    · intro b hb
      exact hmid b (by simp [hb])
    · show iovLength (buf' :: iov).dropLast < winlen - (0 + (buf.take winlen).length)
      rw [htake]
      omega
    · show iovLength (buf' :: iov) ≤ winlen - (0 + (buf.take winlen).length)
      rw [htake]
      omega

lemma tcpTxSendRound_alloc {env : Env} {c c' : Conn} {rest rest' : List UInt8} {push : Bool}
    {r : SendRound} (halloc : env.alloc)
    (h : tcpTxSendRound env c rest push = (c', rest', r)) : r ≠ .nobufs := by
  unfold tcpTxSendRound at h
  split at h
  · rename_i hbuf
    unfold tcpTxSendBuf at hbuf
    simp only [halloc, if_true] at hbuf
    split at hbuf <;> cases hbuf
  · dsimp only at h
    split at h
    all_goals
      cases h
      simp

lemma WillPush.next {snd : Send} (h : WillPush snd) :
    snd.push ∧ (∀ sent total, tcpWritevNext snd.iov (snd.winlen - sent) total = none) ∨
    snd.sent + snd.rest.length ≠ 0 ∧ ∀ total, ∃ snd',
      tcpWritevNext snd.iov (snd.winlen - (snd.sent + snd.rest.length)) total = some snd' ∧
        WillPush snd' := by
  cases h with
  | now hpush hiov =>
    left
    refine ⟨hpush, fun sent total => ?_⟩
    rw [hiov]
    rfl
  | later hpush hpos hfits => exact .inr ⟨hpos, hfits.next⟩

lemma WillPush.round {env : Env} {c c' : Conn} {snd : Send} {rest : List UInt8} {r : SendRound}
    (h : WillPush snd) (halloc : env.alloc)
    (hr : tcpTxSendRound env c snd.rest snd.push = (c', rest, r)) :
    sendNext snd rest r = none ∧ c'.tx.pending = none ∨
      ∃ snd', sendNext snd rest r = some snd' ∧ WillPush snd' := by
  obtain ⟨-, -, hno⟩ | ⟨m, n, hn, hrest, -, hround⟩ := tcpTxSendRound_cases hr
  · exact absurd hno (tcpTxSendRound_alloc halloc hr)
  have hsent : snd.sent + (snd.rest.length - rest.length) + rest.length = snd.sent + snd.rest.length := by
    rw [hrest, List.length_drop]
    omega
  have hdone : rest = [] → snd.sent + (snd.rest.length - rest.length) = snd.sent + snd.rest.length := by
    rintro rfl
    rfl
  rcases hround with ⟨rfl, ⟨hpush, hall, -⟩, -⟩ | ⟨⟨ret, rfl⟩, _, _, rfl⟩
  · have hnil : rest = [] := by rw [hrest, List.drop_eq_nil_iff.2 hall]
    rcases h.next with ⟨hpush', -⟩ | ⟨hpos, hnext⟩
    · simp [hpush] at hpush'
    · right
      obtain ⟨snd', hsnd', hwill⟩ := hnext (snd.total + (snd.sent + snd.rest.length))
      refine ⟨snd', ?_, hwill⟩
      simp only [sendNext, hdone hnil, Bool.false_eq_true, if_false, if_neg hpos]
      exact hsnd'
  · by_cases hnil : rest = []
    · rcases h.next with ⟨hpush, hnone⟩ | ⟨hpos, hnext⟩
      · left
        refine ⟨?_, rfl⟩
        simp [sendNext, hnil, hnone]
      · right
        obtain ⟨snd', hsnd', hwill⟩ := hnext (snd.total + (snd.sent + snd.rest.length))
        refine ⟨snd', ?_, hwill⟩
        simp only [sendNext, hdone hnil, if_neg hpos]
        simpa [hnil] using hsnd'
    · right
      refine ⟨{ snd with rest := rest, sent := snd.sent + (snd.rest.length - rest.length) }, ?_, ?_⟩
      · simp [sendNext, hnil]
      · cases h with
        | now hpush hiov => exact .now hpush hiov
        | later hpush hpos hfits =>
          refine .later hpush ?_ ?_
          · rwa [hsent]
          · rwa [hsent]

/-! ## Runs -/

def Event.allocates : Event → Bool
  | .sendRound env => env.alloc
  | _ => true

/-- Vectors fit into the window, and buffers can be allocated. -/
def PushOk (s : Sys) : Event → Prop
  | .writev iov => s.c.tx.closed = true ∨ Fits iov s.c.winlen
  | .sendRound env => env.alloc = true
  | _ => True

instance (s : Sys) (e : Event) : Decidable (PushOk s e) := by
  cases e <;> dsimp only [PushOk] <;> infer_instance

structure Pushed (s : Sys) : Prop where
  exclusive : s.c.tx.exclusive = s.writer.isSome
  sending : ∀ snd, s.writer = some (.send (some snd)) → WillPush snd
  pending : (∀ snd, s.writer ≠ some (.send (some snd))) → s.c.tx.pending = none

lemma Pushed.step (hi : Pushed s) (hok : PushOk s e) (h : step dbg s e = .ok s') : Pushed s' := by
  -- everybody but the writer leaves the writer alone
  have hother : s'.writer = s.writer → (s.c.tx.pending = none → s'.c.tx.pending = none) → Pushed s' := by
    intro hw hp
    refine ⟨exclusive_step h hi.exclusive, ?_, ?_⟩
    · rw [hw]
      exact hi.sending
    · rw [hw]
      exact fun hno => hp (hi.pending hno)
  have hidle : s.c.tx.exclusive = false → s.writer = none := by
    intro hexcl
    rwa [hi.exclusive, Option.isSome_eq_false_iff, Option.isNone_iff_eq_none] at hexcl
  cases stepped h with
  | ingress _ ho => exact hother rfl (tcpRxConnLocked_move ho).pending
  | closeFailed | failed =>
    refine hother rfl fun hp => ?_
    rw [tcpConnFail_eq]
    exact ite_eq_right_iff.2 fun _ => hp
  | writing ho hopen hblock hnext =>
    have hnone := hidle (tcpWriteBlocks_eq_false hblock hopen).2.1
    refine ⟨rfl, ?_, fun _ => hi.pending (by simp [hnone])⟩
    intro snd hsnd
    cases hnext with
    | write buf =>
      cases hsnd
      exact .now rfl rfl
    | writev iov =>
      have hfits : Fits iov s.c.winlen := hok.resolve_left (by simp [hopen])
      obtain ⟨snd', hsnd', hwill⟩ := hfits.next 0
      rw [hsnd'] at hsnd
      cases hsnd
      exact hwill
  | resending _ _ hfree => exact ⟨rfl, nofun, fun _ => hi.pending (by simp [hidle hfree])⟩
  | @sent _ snd _ _ _ _ _ _ _ hw hr =>
    refine ⟨exclusive_step h hi.exclusive, ?_, ?_⟩
    all_goals rcases (hi.sending snd hw).round hok hr with ⟨hnone, hp⟩ | ⟨snd', hsnd', hwill⟩
    · simp [hnone]
    · intro snd2 hsnd2
      simp only [hsnd', Option.some.injEq, Writer.send.injEq] at hsnd2
      exact hsnd2 ▸ hwill
    · exact fun _ => hp
    · intro hno
      exact absurd rfl (hsnd' ▸ hno snd')
  | resent hw => exact ⟨exclusive_step h hi.exclusive, nofun, fun _ => hi.pending (by simp [hw])⟩
  | finished hw =>
    refine ⟨rfl, nofun, fun _ => ?_⟩
    have hp := hi.pending (by obtain ⟨hw, -⟩ | ⟨⟨t, hw⟩, -⟩ := hw <;> simp [hw])
    simp [Conn.finished, hp]
  | _ => exact hother rfl id

lemma pushed_initial (h : Initial s) : Pushed s := by
  obtain ⟨_, _, _, _, _, _, _, _, _, -, -, -, rfl⟩ := initial_eq h
  exact ⟨rfl, by simp, fun _ => rfl⟩

/-- In every run whose vectors fit into the window, nothing is deferred while nobody writes; so a writer
that finds the window full has sent everything. -/
theorem nothing_unsent (h : Reaches (step dbg) PushOk Initial s) (hexcl : s.c.tx.exclusive = false)
    (_ : s.c.state ≠ .closed) (_ : tcpIsSndFull s.c = true) : s.c.tx.pending = none := by
  have hi : Pushed s := h.invariant (fun _ => pushed_initial) fun _ _ _ hi hok => hi.step hok
  apply hi.pending
  intro snd hw
  rw [hi.exclusive, hw] at hexcl
  cases hexcl

theorem nothing_unsent_full : ∃ s, Reaches (step false) PushOk Initial s ∧
    s.c.tx.exclusive = false ∧ s.c.state ≠ .closed ∧ tcpIsSndFull s.c = true ∧ s.c.tx.pending = none := by
  refine Reaches.of_exec_imp (P := fun s => s.c.tx.exclusive = false ∧ s.c.state ≠ .closed ∧ tcpIsSndFull s.c)
    (handshake 30 ++ [.writev [List.replicate 25 0, List.replicate 5 1],
    .sendRound {}, .sendRound {}, .writeFinish 0]) (initial_dialed 1500) (by decide) (by decide) ?_
  rintro s hs ⟨hexcl, hst, hfull⟩
  exact ⟨hexcl, hst, hfull, nothing_unsent hs hexcl hst hfull⟩

/-- The peer offers thirty bytes, and the application writes one vector of thirty-one: the window is full, and nothing
is on its way. -/
theorem cut_vector_unsent : ∃ s, Reaches (step false) (fun _ e => e.allocates = true) Initial s ∧
    s.c.tx.exclusive = false ∧ s.c.state ≠ .closed ∧ tcpIsSndFull s.c = true ∧
    s.c.tx.pending ≠ none ∧ s.c.tx.q = [] := by
  refine Reaches.of_exec (handshake 30 ++ [.writev [List.replicate 31 0],
    .sendRound {}, .writeFinish 0]) (initial_dialed 1500) ?_ ?_
  · decide
  · decide

end Aspen.Tcp
