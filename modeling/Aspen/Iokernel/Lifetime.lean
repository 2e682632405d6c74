import Aspen.Iokernel.Stages

/-!
# The lifetime of a process

Each process is freed once, and no message names a process that was freed. That is how it should be. But a
process that the dataplane fails to add is handed back at once, while the control plane may ask for it at
any time: the two messages cross, and the command to remove the process is still in the channel when the
process is freed.
-/

namespace Aspen.Clients

open Run Function List

variable {s s' : Sys} {a : ℕ} {g : Stage} {P P' : Proc}

/-! ## Who is who -/

/-- Who is who: the messages name the processes that live at their addresses, and every process ever created
lives once or was freed once. -/
structure Named (s : Sys) : Prop where
  toData : ∀ x ∈ s.toData, ∀ P, s.dp.procs x.2.addr = some P → P.id = x.2.proc
  toControl : ∀ m ∈ s.dp.toControl, ∀ P, s.dp.procs m.addr = some P → P.id = m.proc
  nodup : s.freed.Nodup
  live : ∀ a P, s.dp.procs a = some P → P.id < s.nextProc ∧ P.id ∉ s.freed
  alone : ∀ a b P Q, s.dp.procs a = some P → s.dp.procs b = some Q → P.id = Q.id → a = b
  freed : ∀ i ∈ s.freed, i < s.nextProc
  all : ∀ i < s.nextProc, i ∈ s.freed ∨ ∃ a P, s.dp.procs a = some P ∧ P.id = i
  dropped : ∀ x ∈ s.dropped, x.1 = x.2

lemma Named.passes (h : Named s) (hp : Passes s s') : Named s' := by
  constructor
  · intro x hx P hP
    obtain ⟨Q, hQ, he⟩ := hp.keeps.of_some' hP
    rcases hp.toData x hx with hx | ⟨Q', hQ', hid⟩
    · exact he.symm.trans (h.toData x hx Q hQ)
    · cases hQ.symm.trans hQ'
      exact he.symm.trans hid
  · intro m hm P hP
    obtain ⟨Q, hQ, he⟩ := hp.keeps.of_some' hP
    rcases hp.toControl m hm with hm | ⟨Q', hQ', hid⟩
    · exact he.symm.trans (h.toControl m hm Q hQ)
    · cases hQ.symm.trans hQ'
      exact he.symm.trans hid
  · exact hp.freed ▸ h.nodup
  · intro a P hP
    obtain ⟨Q, hQ, he⟩ := hp.keeps.of_some' hP
    rw [hp.freed, hp.nextProc, ← he]
    exact h.live a Q hQ
  · intro a b P R hP hR hid
    obtain ⟨Q, hQ, he⟩ := hp.keeps.of_some' hP
    obtain ⟨T, hT, he'⟩ := hp.keeps.of_some' hR
    exact h.alone a b Q T hQ hT (he.trans (hid.trans he'.symm))
  · rw [hp.freed, hp.nextProc]
    exact h.freed
  · rw [hp.freed, hp.nextProc]
    intro i hi
    refine (h.all i hi).imp_right ?_
    rintro ⟨a, P, hP, hid⟩
    obtain ⟨Q, hQ, he⟩ := hp.keeps.of_some hP
    exact ⟨a, Q, hQ, he.trans hid⟩
  · intro x hx
    rcases hp.dropped x hx with hx | ⟨m, P, hm, hP, rfl⟩
    · exact h.dropped x hx
    · exact (h.toData _ hm P hP).symm

lemma Named.recv (h : Named s) {m : Msg} {rest : List Msg} (hback : s.dp.toControl = m :: rest)
    (hP : s.dp.procs m.addr = some P) {l : List Watch} :
    Named (Sys.destroyed { s with dp.toControl := rest, epoll := l } m.addr P) := by
  have hold : ∀ b Q, update s.dp.procs m.addr none b = some Q → b ≠ m.addr ∧ s.dp.procs b = some Q := by
    intro b Q hQ
    by_cases hb : b = m.addr
    · subst hb
      cases (update_self ..).symm.trans hQ
    · exact ⟨hb, (update_of_ne hb ..).symm.trans hQ⟩
  constructor
  · exact fun x hx Q hQ => h.toData x hx Q (hold _ Q hQ).2
  · exact fun m' hm Q hQ => h.toControl m' (by rw [hback]; exact .tail _ hm) Q (hold _ Q hQ).2
  · exact nodup_cons.2 ⟨(h.live _ P hP).2, h.nodup⟩
  · intro b Q hQ
    obtain ⟨hb, hQ⟩ := hold b Q hQ
    refine ⟨(h.live b Q hQ).1, fun hm => ?_⟩
    rcases mem_cons.1 hm with hid | hm
    · exact hb (h.alone b m.addr Q P hQ hP hid)
    · exact (h.live b Q hQ).2 hm
  · exact fun b c Q R hQ hR => h.alone b c Q R (hold b Q hQ).2 (hold c R hR).2
  · intro i hi
    rcases mem_cons.1 hi with rfl | hi
    · exact (h.live _ P hP).1
    · exact h.freed i hi
  · intro i hi
    rcases h.all i hi with hi | ⟨b, Q, hQ, hid⟩
    · exact .inl (.tail _ hi)
    · by_cases hb : b = m.addr
      · subst hb
        cases hP.symm.trans hQ
        exact .inl (hid ▸ .head _)
      · exact .inr ⟨b, Q, (update_of_ne hb ..).trans hQ, hid⟩
  · exact h.dropped

lemma Named.join (h : Named s) (hst : Staged s) {r : Request}
    (hfree : s.dp.procs r.addr = none) : Named (s.join r) := by
  have hself : (s.join r).dp.procs r.addr = some _ := update_self ..
  have hother : ∀ b ≠ r.addr, (s.join r).dp.procs b = s.dp.procs b := fun b hb =>
    update_of_ne hb ..
  -- nothing in the channels is about the new address
  have hf := hst.free hfree
  have hdata : ∀ x ∈ s.toData, x.2.addr ≠ r.addr := fun x hx he => cmdsFor_ne_nil hx (he ▸ hf.cmds)
  have hback : ∀ m ∈ s.dp.toControl, m.addr ≠ r.addr := by
    intro m hm he
    have hpos := handbacks_pos hm
    rw [he, hf.backs] at hpos
    cases hpos
  constructor
  · intro x hx P hP
    rcases mem_append.1 hx with hx | hx
    · exact h.toData x hx P ((hother _ (hdata x hx)).symm.trans hP)
    · cases mem_singleton.1 hx
      cases hself.symm.trans hP
      rfl
  · exact fun m hm P hP => h.toControl m hm P ((hother _ (hback m hm)).symm.trans hP)
  · exact h.nodup
  · intro b P hP
    by_cases hb : b = r.addr
    · subst hb
      cases hself.symm.trans hP
      exact ⟨Nat.lt_succ_self _, fun hm => Nat.lt_irrefl _ (h.freed _ hm)⟩
    · obtain ⟨hlt, hnot⟩ := h.live b P ((hother b hb).symm.trans hP)
      exact ⟨Nat.lt_succ_of_lt hlt, hnot⟩
  · intro b c P Q hP hQ hid
    by_cases hb : b = r.addr <;> by_cases hc : c = r.addr
    · rw [hb, hc]
    · subst hb
      cases hself.symm.trans hP
      have hlt := (h.live c Q ((hother c hc).symm.trans hQ)).1
      exact absurd hid.symm (Nat.ne_of_lt hlt)
    · subst hc
      cases hself.symm.trans hQ
      have hlt := (h.live b P ((hother b hb).symm.trans hP)).1
      exact absurd hid (Nat.ne_of_lt hlt)
    · exact h.alone b c P Q ((hother b hb).symm.trans hP) ((hother c hc).symm.trans hQ) hid
  · exact fun i hi => Nat.lt_succ_of_lt (h.freed i hi)
  · intro i hi
    rcases Nat.lt_succ_iff_lt_or_eq.1 hi with hi | rfl
    · rcases h.all i hi with hf | ⟨b, P, hP, hid⟩
      · exact .inl hf
      · have hb : b ≠ r.addr := by
          rintro rfl
          cases hfree.symm.trans hP
        exact .inr ⟨b, P, (hother b hb).trans hP, hid⟩
    · exact .inr ⟨r.addr, _, hself, rfl⟩
  · exact h.dropped

lemma Named.abandon (h : Named s) (ha : s.Abandons s') : Named s' := by
  constructor
  · rw [ha.toData, ha.dp]; exact h.toData
  · rw [ha.dp]; exact h.toControl
  · rw [ha.freed]
    exact nodup_cons.2 ⟨fun hm => Nat.lt_irrefl _ (h.freed _ hm), h.nodup⟩
  · rw [ha.dp, ha.nextProc, ha.freed]
    intro a P hP
    obtain ⟨hlt, hnot⟩ := h.live a P hP
    refine ⟨Nat.lt_succ_of_lt hlt, fun hm => ?_⟩
    rcases mem_cons.1 hm with hid | hm
    · exact Nat.ne_of_lt hlt hid
    · exact hnot hm
  · rw [ha.dp]; exact h.alone
  · rw [ha.freed, ha.nextProc]
    intro i hi
    rcases mem_cons.1 hi with rfl | hi
    · exact Nat.lt_succ_self _
    · exact Nat.lt_succ_of_lt (h.freed i hi)
  · rw [ha.freed, ha.nextProc, ha.dp]
    intro i hi
    rcases Nat.lt_succ_iff_lt_or_eq.1 hi with hi | rfl
    · exact (h.all i hi).imp_left (.tail _)
    · exact .inl (.head _)
  · rw [ha.dropped]; exact h.dropped

lemma Staged.step_comes (h : Staged s) (hn : Named s) (e : Event) (hok : Orderly s e) :
    Comes (· ≠ .useAfterFree) (fun s' => Staged s' ∧ Named s') (step s e) := by
  have hstays : ∀ {x}, Stays s x → Comes (· ≠ .useAfterFree) (fun s' => Staged s' ∧ Named s') x :=
    fun hx => hx.imp (fun _ => id) fun _ hs => ⟨hs.1, hn.passes hs.2⟩
  cases e with
  | connect r =>
    refine Sys.addClient_comes.imp (fun d hd => ?_) ?_
    · rw [hd]
      exact nofun
    · rintro s' (rfl | ⟨⟨-, -, hfree, hfd⟩, ⟨-, ha⟩ | ⟨-, rfl⟩⟩)
      · exact ⟨h, hn⟩
      · exact ⟨h.abandon ha, hn.abandon ha⟩
      · exact ⟨h.join hfree hfd, hn.join h hfree⟩
  | hangup w => exact .guard nofun fun hw => hstays (h.hangup hw hok)
  | recv =>
    refine Sys.recv_comes.imp (fun d hd he => ?_) ?_
    · obtain ⟨m, hm, hnone⟩ := hd he
      obtain ⟨P, hg⟩ := h.living_of_back hm
      cases hg.proc.symm.trans hnone
    · rintro s' ⟨m, rest, P, hback, hP, rfl⟩
      exact ⟨h.recv hback hP, hn.recv hback hP⟩
  | handle env => exact hstays (h.handle hok)
  | get a => exact hstays h.get
  | put a => exact hstays (h.put hok)

/-! ## Runs -/

lemma Free.init (a : ℕ) : Free .init a := ⟨rfl, rfl, nofun, nofun, rfl, nofun⟩

lemma staged_of_reaches (h : Reaches step Orderly (· = Sys.init) s) : Staged s ∧ Named s := by
  refine h.invariant (I := fun s => Staged s ∧ Named s) ?_ ?_
  · rintro s rfl
    refine ⟨⟨fun a => .inl (.init a), nodup_nil, nofun⟩, ?_⟩
    exact {
      toData := fun _ h => nomatch h
      toControl := fun _ h => nomatch h
      nodup := nodup_nil
      live := fun _ _ h => nomatch h
      alone := fun _ _ _ _ h => nomatch h
      freed := fun _ h => nomatch h
      all := fun i h => absurd h (Nat.not_lt_zero i)
      dropped := fun _ h => nomatch h }
  · rintro s e s' ⟨hst, hn⟩ hok hs
    exact (hst.step_comes hn e hok).of_ok hs

/-- The process at `a` is accounted for: its reference count is the number of those who hold it (the announcement or
the table of clients, and the holders), and it has been handed back, once, if that is zero. -/
def Sys.Accounted (s : Sys) (a : ℕ) (P : Proc) : Prop :=
  P.ref = (if .add ∈ cmdsFor a s.toData ∨ a ∈ s.dp.clients then 1 else 0) + s.dp.holders.count a ∧
    handbacks a s.dp.toControl = if P.ref = 0 then 1 else 0

lemma Living.accounted (h : Living s a g P) : s.Accounted a P := by
  have hpos := count_pos_iff (a := a) (l := s.dp.holders)
  have hown : (Cmd.add ∈ g.cmds ∨ a ∈ s.dp.clients) ↔ g.own = 1 := by
    rw [h.client]
    rcases g with b | b | - | -
    · cases b <;> simp [Stage.cmds, Stage.own]
    · simp [Stage.isClient, Stage.own]
    all_goals simp [Stage.cmds, Stage.isClient, Stage.own]
  have hone : g.own = if g.own = 1 then 1 else 0 := by cases g <;> rfl
  have hzero : P.ref = 0 ↔ g = .released := by
    rw [h.ref]
    constructor
    · intro hz
      cases g with
      | queued | client => simp [Stage.own] at hz
      | detached => exact absurd (hpos.2 (h.detached rfl)) (by omega)
      | released => rfl
    · rintro rfl
      have hnot : a ∉ s.dp.holders := fun hm => by rcases h.holders hm with he | he <;> cases he
      rw [count_eq_zero.2 hnot]
      rfl
  refine ⟨?_, ?_⟩
  · simp only [h.cmds, hown, ← hone]
    exact h.ref
  · simp only [hzero]
    exact h.backs

/-- In every run in which the two sides' messages do not cross and the control thread's channel has room: each process
ever created lives, or was freed, once; one that lives is accounted for, and handed back once; every message names the
process that lives at its address; a removal removes the client it was meant for; and no process is read after it was
freed. -/
theorem lifetime_once (h : Reaches step Orderly (· = Sys.init) s) :
    s.freed.Nodup ∧
      (∀ i < s.nextProc, i ∈ s.freed ∧ (∀ a P, s.dp.procs a = some P → P.id ≠ i) ∨
        i ∉ s.freed ∧ ∃ a P, s.dp.procs a = some P ∧ P.id = i ∧ s.Accounted a P) ∧
      (∀ x ∈ s.toData, ∃ P, s.dp.procs x.2.addr = some P ∧ P.id = x.2.proc) ∧
      (∀ m ∈ s.dp.toControl, ∃ P, s.dp.procs m.addr = some P ∧ P.id = m.proc) ∧
      (∀ x ∈ s.dropped, x.1 = x.2) ∧
      ∀ e, Orderly s e → step s e ≠ .error .useAfterFree := by
  obtain ⟨hst, hn⟩ := staged_of_reaches h
  refine ⟨hn.nodup, fun i hi => ?_, fun x hx => ?_, fun m hm => ?_, hn.dropped,
    fun e hok he => (hst.step_comes hn e hok).of_error he rfl⟩
  · rcases hn.all i hi with hf | ⟨a, P, hP, rfl⟩
    · exact .inl ⟨hf, fun a P hP he => (hn.live a P hP).2 (he ▸ hf)⟩
    · obtain ⟨g, hg⟩ := hst.living hP
      exact .inr ⟨(hn.live a P hP).2, a, P, hP, rfl, hg.accounted⟩
  · obtain ⟨g, P, hg⟩ := hst.living_of_cmd hx
    exact ⟨P, hg.proc, hn.toData x hx P hg.proc⟩
  · obtain ⟨P, hg⟩ := hst.living_of_back hm
    exact ⟨P, hg.proc, hn.toControl m hm P hg.proc⟩

def Request.plain (fd addr : ℕ) (ip : BitVec 32) : Request :=
  { fd := fd, ip := ip, hasDirectpath := false, hasVfioDirectpath := false, created := true,
    addr := addr, setup := .done, watched := true }

theorem lifetime_once_reused :
    ∃ s, Reaches step Orderly (· = Sys.init) s ∧ s.nextProc = 2 ∧ s.freed = [1, 0] ∧
      s.dropped = [(0, 0)] ∧ s.freed.Nodup := by
  refine Reaches.of_exec_imp (s := .init) (P := fun s => s.nextProc = 2 ∧ s.freed = [1, 0] ∧ s.dropped = [(0, 0)])
    [.connect (.plain 7 1 0xa000001#32), .handle .success, .get 1, .hangup ⟨7, 1⟩, .handle .success,
        .put 1, .recv, .connect (.plain 7 1 0xa000002#32), .handle { AddEnv.success with attach := false },
        .recv] rfl (by decide) (by decide) ?_
  rintro s h ⟨hn, hf, hd⟩
  exact ⟨hn, hf, hd, (lifetime_once h).1⟩

/-- The dataplane cannot add a client that hangs up in the meantime: the control thread sends the command to remove
it, then frees it on the message that hands it back, and the command is still in the channel. -/
theorem removal_crosses :
    ∃ s, Reaches step (fun _ _ => True) (· = Sys.init) s ∧ s.freed = [0] ∧
      s.toData = [(.remove, ⟨1, 0⟩)] ∧ s.dp.procs 1 = none :=
  Reaches.of_exec (s := .init)
    [.connect (.plain 7 1 0xa000001#32), .handle { AddEnv.success with attach := false }, .hangup ⟨7, 1⟩,
      .recv] rfl (allowed_true _ _) (by decide)

end Aspen.Clients
