import Aspen.Tcp.Closing
import Aspen.Tcp.Sending

/-!
# Where the sequence numbers go

`snd_nxt` is the initial sequence number plus one for each control segment plus one for each byte that
the segmenter took from a writer; this holds in every run (`Ledger`). A SYN and a FIN therefore use one
number each as long as each of them is queued once. They are queued again when a SYN crosses ours, since
the SYN/ACK that answers it takes a fresh number (`syn_counts_twice`), and when `tcp_shutdown` or
`tcp_close` tries again behind a FIN that the network did not take.
-/

namespace Aspen.Tcp

open Run

variable {dbg : Bool} {s s' : Sys} {e : Event} {n : ℕ}

/-! ## What is counted -/

/-- The bytes a step takes from the buffer of `tcp_write` or `tcp_writev`; the calls return their sum. -/
def accepted (s : Sys) : Event → ℕ
  | .sendRound env => match s.writer with
    | some (.send (some snd)) =>
      snd.rest.length - (tcpTxSendRound env s.c snd.rest snd.push).2.1.length
    | _ => 0
  | _ => 0

def ctlSent (c : Conn) (flag : Flags) : Bool := c.tx.ctlLog.any fun flags => hasFlag flags flag

def Sys.crosses (s : Sys) : Event → Bool
  | .rxLocked i env => match s.inflight[i]? with
    | some r => s.c.state = .synSent ∧ hasFlag r.m.flags tcpSyn = true ∧
        hasFlag r.m.flags tcpAck = false ∧ hasFlag r.m.flags tcpRst = false ∧ env.alloc = true
    | none => false
  | _ => false

def CtlOk (s : Sys) (e : Event) : Prop :=
  s.crosses e = false ∧ ∀ env ∈ finEnv s e, env.alloc = true → ctlSent s.c tcpFin = false
deriving Decidable

/-! ## Steps -/

inductive NumMove (s s' : Sys) (e : Event) : Prop
  | bytes (hnxt : s'.c.snd.nxt = s.c.snd.nxt + BitVec.ofNat 32 (accepted s e))
      (hlog : s'.c.tx.ctlLog = s.c.tx.ctlLog)
  | control {flags : Flags} (hacc : accepted s e = 0) (hnxt : s'.c.snd.nxt = s.c.snd.nxt + 1)
      (hlog : s'.c.tx.ctlLog = s.c.tx.ctlLog ++ [flags])
      (hwhy : (hasFlag flags tcpFin = true ∧ hasFlag flags tcpSyn = false ∧
          ∃ env, finEnv s e = some env ∧ env.alloc = true) ∨
        (hasFlag flags tcpFin = false ∧ hasFlag flags tcpSyn = true ∧
          (s.owner.fresh = true ∧ s'.owner.fresh = false ∨ s.crosses e = true)))

lemma RxMove.numbers {env : Env} {c c' : Conn} {r : RxSeg} (h : RxMove dbg env c r c') :
    c'.snd.iss = c.snd.iss ∧ (c'.snd.nxt = c.snd.nxt ∧ c'.tx.ctlLog = c.tx.ctlLog ∨
      (c.state = .synSent ∧ hasFlag r.m.flags tcpSyn ∧ hasFlag r.m.flags tcpAck = false ∧
        hasFlag r.m.flags tcpRst = false ∧ env.alloc) ∧ c'.snd.nxt = c.snd.nxt + 1 ∧
        c'.tx.ctlLog = c.tx.ctlLog ++ [tcpSyn ||| tcpAck]) := by
  cases h with
  | quiet => exact ⟨rfl, .inl ⟨rfl, rfl⟩⟩
  | failed hst =>
    rw [tcpConnFail_eq]
    exact ⟨rfl, .inl ⟨rfl, rfl⟩⟩
  | synAcked hst hack huna =>
    rw [synConn_eq, applyOptions_eq]
    exact ⟨rfl, .inl ⟨rfl, rfl⟩⟩
  | synCrossed hst hack huna hctl hsyn hrst =>
    have hflag := RxMove.crossed_flag hack huna
    rw [synConn_eq, applyOptions_eq] at hctl
    obtain ⟨-, rfl, -⟩ | ⟨halloc, -, m, -, -, -, rfl⟩ := tcpTxCtl_cases hctl
    · exact ⟨rfl, .inl ⟨rfl, rfl⟩⟩
    · exact ⟨rfl, .inr ⟨⟨hst, hsyn, hflag, hrst hflag, halloc⟩, rfl, rfl⟩⟩
  | lastAcked hst hacc hack huna =>
    rw [tcpConnPutSm_eq]
    cases hack
    exact ⟨rfl, .inl ⟨rfl, rfl⟩⟩
  | text hst hacc hack hlast htext =>
    obtain ⟨hiss, -, hnxt, -, -, hlog⟩ := hack.sent
    obtain ⟨rcv, rx, rfl⟩ := htext.frame
    exact ⟨hiss, .inl ⟨hnxt, hlog⟩⟩

lemma sendRound_numbers {env : Env} (h : step dbg s (.sendRound env) = .ok s') :
    s'.c.snd.iss = s.c.snd.iss ∧ NumMove s s' (.sendRound env) := by
  simp only [step] at h
  split at h
  · rename_i snd hw
    cases h
    cases hr : tcpTxSendRound env s.c snd.rest snd.push with
    | mk c1 out =>
      have hacc : accepted s (.sendRound env) = snd.rest.length - out.1.length := by
        simp only [accepted, hw, hr]
      obtain ⟨rfl, hrest, -⟩ | ⟨m, k, hk, hrest, -, hcase⟩ := tcpTxSendRound_cases hr
      · refine ⟨rfl, .bytes ?_ rfl⟩
        rw [hacc, hrest]
        simp
      · have hk' : snd.rest.length - out.1.length = k := by
          rw [hrest, List.length_drop]
          omega
        rw [hk'] at hacc
        obtain ⟨-, -, rfl⟩ | ⟨-, _, _, rfl⟩ := hcase
        · exact ⟨rfl, .bytes (by rw [hacc]) rfl⟩
        · exact ⟨rfl, .bytes (by rw [hacc]) rfl⟩
  · cases h

lemma step_numbers (h : step dbg s e = .ok s') : s'.c.snd.iss = s.c.snd.iss ∧ NumMove s s' e := by
  by_cases hround : ∃ env, e = .sendRound env
  · obtain ⟨env, rfl⟩ := hround
    exact sendRound_numbers h
  have hacc : accepted s e = 0 := by
    cases e with
    | sendRound env => exact absurd ⟨env, rfl⟩ hround
    | _ => rfl
  have hquiet : s'.c.snd = s.c.snd → s'.c.tx.ctlLog = s.c.tx.ctlLog →
      s'.c.snd.iss = s.c.snd.iss ∧ NumMove s s' e := by
    intro hsnd hlog
    exact ⟨by rw [hsnd], .bytes (by rw [hsnd, hacc]; simp) hlog⟩
  have hcontrol : ∀ {env : Env} {flags : Flags}, Numbered env flags s.c s'.c →
      (env.alloc → (hasFlag flags tcpFin ∧ hasFlag flags tcpSyn = false ∧ ∃ env, finEnv s e = some env ∧ env.alloc) ∨
        (hasFlag flags tcpFin = false ∧ hasFlag flags tcpSyn ∧
          (s.owner.fresh ∧ s'.owner.fresh = false ∨ s.crosses e))) →
      s'.c.snd.iss = s.c.snd.iss ∧ NumMove s s' e := by
    rintro env flags (⟨hsnd, hlog⟩ | ⟨halloc, hsnd, hlog⟩) hwhy
    · exact hquiet hsnd hlog
    · exact ⟨by rw [hsnd], .control hacc (by rw [hsnd]) hlog (hwhy halloc)⟩
  cases stepped h with
  | ingress hr ho =>
    obtain ⟨hiss, ⟨hnxt, hlog⟩ | ⟨⟨hst, hsyn, hack, hrst, halloc⟩, hnxt, hlog⟩⟩ := (tcpRxConnLocked_move ho).numbers
    · refine ⟨hiss, .bytes (hnxt.trans ?_) hlog⟩
      rw [hacc]
      simp
    · refine ⟨hiss, .control hacc hnxt hlog (.inr ⟨rfl, rfl, .inr ?_⟩)⟩
      simp [Sys.crosses, hr, hst, hsyn, hack, hrst, halloc]
  | shutdown _ he htx | close _ he htx =>
    have hn := numbered_tcpConnShutdownTx htx
    exact hcontrol hn fun halloc => .inl ⟨rfl, rfl, _, he, halloc⟩
  | closeFailed _ he htx =>
    exact hcontrol ((numbered_tcpConnShutdownTx htx).failed _ _) fun halloc => .inl ⟨rfl, rfl, _, he, halloc⟩
  | opened ho hctl =>
    obtain ⟨hfresh, ho', hflags, -⟩ := ho.spec
    have hn := numbered_tcpTxCtl hctl
    exact hcontrol hn fun _ => .inr ⟨hflags.1, hflags.2, .inl ⟨hfresh, ho'⟩⟩
  | openFailed ho hctl =>
    obtain ⟨hfresh, -, hflags, -⟩ := ho.spec
    have hn := numbered_tcpTxCtl hctl
    exact hcontrol hn fun _ => .inr ⟨hflags.1, hflags.2, .inl ⟨hfresh, rfl⟩⟩
  | failed => exact hquiet (by rw [tcpConnFail_eq]) (by rw [tcpConnFail_eq])
  | sent => exact absurd ⟨_, rfl⟩ hround
  | _ => exact hquiet rfl rfl

/-! ## Whole runs -/

def Ledger (c : Conn) (n : ℕ) : Prop := c.snd.nxt = c.snd.iss + BitVec.ofNat 32 (c.tx.ctlLog.length + n)

lemma Ledger.step (hi : Ledger s.c n) (h : step dbg s e = .ok s') : Ledger s'.c (n + accepted s e) := by
  obtain ⟨hiss, hmove⟩ := step_numbers h
  unfold Ledger at hi ⊢
  cases hmove with
  | bytes hnxt hlog => rw [hnxt, hi, hiss, hlog, add_assoc, ← BitVec.ofNat_add, Nat.add_assoc]
  | control hacc hnxt hlog hwhy =>
    have hlen : s'.c.tx.ctlLog.length + (n + accepted s e) = s.c.tx.ctlLog.length + n + 1 := by
      rw [hlog, hacc, List.length_append, List.length_singleton]
      omega
    rw [hnxt, hi, hiss, hlen, BitVec.ofNat_add (s.c.tx.ctlLog.length + n), add_assoc]
    rfl

structure CtlInv (s : Sys) : Prop where
  closers : s.owner.fresh = true → s.closers = []
  fresh : s.owner.fresh = true → s.c.tx.ctlLog = []
  length : s.c.tx.ctlLog.length
    = (if ctlSent s.c tcpSyn then 1 else 0) + if ctlSent s.c tcpFin then 1 else 0

lemma CtlInv.step (hi : CtlInv s) (hok : CtlOk s e) (h : step dbg s e = .ok s') : CtlInv s' := by
  obtain ⟨hiss, hmove⟩ := step_numbers h
  cases hmove with
  | bytes hnxt hlog =>
    refine ⟨fresh_closers_step h hi.closers, ?_, ?_⟩
    · intro hfresh
      rw [hlog]
      exact hi.fresh (step_fresh h hfresh ▸ hfresh)
    · simp only [ctlSent, hlog]
      exact hi.length
  | @control flags hacc hnxt hlog hwhy =>
    have hsent : ∀ flag, ctlSent s'.c flag = (ctlSent s.c flag || hasFlag flags flag) := by
      intro flag
      simp [ctlSent, hlog]
    have hlen := hi.length
    rcases hwhy with ⟨hfin, hsyn, env, he, halloc⟩ | ⟨hfin, hsyn, ⟨hfresh, hfresh'⟩ | hcross⟩
    · refine ⟨fresh_closers_step h hi.closers, ?_, ?_⟩
      · intro hfresh
        have hs := step_fresh h hfresh ▸ hfresh
        rw [finEnv_fresh hs (hi.closers hs)] at he
        cases he
      · rw [hsent, hsent, hok.2 env he halloc, hfin, hsyn, Bool.or_false, Bool.or_true, hlog,
          List.length_append, hlen, hok.2 env he halloc]
        rfl
    · have hnil := hi.fresh hfresh
      refine ⟨by simp [hfresh'], by simp [hfresh'], ?_⟩
      rw [hsent, hsent, hfin, hsyn, hlog]
      simp [ctlSent, hnil]
    · rw [hok.1] at hcross
      cases hcross

lemma ctlInv_initial (h : Initial s) : CtlInv s ∧ Ledger s.c 0 := by
  obtain ⟨_, _, _, _, _, _, _, _, _, -, -, -, rfl⟩ := initial_eq h
  exact ⟨⟨fun _ => rfl, fun _ => rfl, rfl⟩, by simp [Ledger, freshConn, tcpConnAlloc]⟩

/-- In every run that meets the condition, `snd_nxt` is the initial sequence number plus one for the SYN, for each
byte of the writers, and for the FIN. -/
theorem numbers_accounted (h : Reaches (tally (step dbg) accepted) (fun x e => CtlOk x.1 e)
      (fun x => Initial x.1 ∧ x.2 = 0) (s, n)) :
    s.c.snd.nxt = s.c.snd.iss + (if ctlSent s.c tcpSyn then 1 else 0) + BitVec.ofNat 32 n +
      if ctlSent s.c tcpFin then 1 else 0 := by
  have hi : CtlInv s ∧ Ledger s.c n := by
    refine h.invariant (I := fun x => CtlInv x.1 ∧ Ledger x.1.c x.2) ?_ ?_
    · rintro ⟨s, n⟩ ⟨h0, rfl⟩
      exact ctlInv_initial h0
    · rintro ⟨s, n⟩ e ⟨s', n'⟩ ⟨hctl, hledger⟩ hok hs
      obtain ⟨hs, rfl⟩ := tally_eq_ok.1 hs
      exact ⟨hctl.step hok hs, hledger.step hs⟩
  obtain ⟨hctl, hledger⟩ := hi
  rw [Ledger, hctl.length] at hledger
  rw [hledger]
  have hone : ∀ b : Bool, BitVec.ofNat 32 (if b then 1 else 0) = if b then 1 else 0 := by decide
  rw [BitVec.ofNat_add, BitVec.ofNat_add, hone, hone]
  ring

theorem numbers_accounted_shutdown : ∃ x : Sys × ℕ,
    Reaches (tally (step false) accepted) (fun x e => CtlOk x.1 e)
      (fun x => Initial x.1 ∧ x.2 = 0) x ∧ x.2 = 4 ∧ x.1.c.snd.nxt = x.1.c.snd.iss + 1 + 4 + 1 := by
  obtain ⟨⟨s, n⟩, hs, hn, hsyn, hfin⟩ : ∃ x : Sys × ℕ, Reaches (tally (step false) accepted) (fun x e => CtlOk x.1 e)
        (fun x => Initial x.1 ∧ x.2 = 0) x ∧ x.2 = 4 ∧ ctlSent x.1.c tcpSyn = true ∧
        ctlSent x.1.c tcpFin := by
    refine Reaches.of_exec (s := (dialed 1500, 0)) (handshake 1000 ++
      [.write [1, 2, 3, 4], .sendRound {}, .writeFinish 0, .shutdown true false {}])
      ⟨initial_dialed 1500, rfl⟩ ?_ ?_
    · decide
    · decide
  refine ⟨(s, n), hs, hn, ?_⟩
  have hnum := numbers_accounted hs
  rw [hsyn, hfin, show n = 4 from hn] at hnum
  exact hnum

/-- A SYN crosses ours: behind the handshake our SYN has used two numbers. -/
theorem syn_counts_twice : ∃ x : Sys × ℕ,
    Reaches (tally (step false) accepted) (fun _ _ => True) (fun x => Initial x.1 ∧ x.2 = 0) x ∧
    x.2 = 0 ∧ x.1.c.snd.nxt = x.1.c.snd.iss + 2 ∧
    x.1.c.snd.nxt ≠ x.1.c.snd.iss + (if ctlSent x.1.c tcpSyn then 1 else 0) + BitVec.ofNat 32 x.2 +
      if ctlSent x.1.c tcpFin then 1 else 0 := by
  refine Reaches.of_exec (s := (dialed 1500, 0)) ([.dialSyn {}] ++
    arrives (.plain 5000 0 tcpSyn 1000 [] (by decide)))
    ⟨initial_dialed 1500, rfl⟩ (allowed_true _ _) ?_
  decide

end Aspen.Tcp
