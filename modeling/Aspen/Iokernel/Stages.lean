import Aspen.Iokernel.Control
import Aspen.Iokernel.Handback

/-!
# The stages of a process

A process is made by the control plane, announced to the dataplane, and lives until the dataplane has dropped
its last reference and said so to the control plane, which frees it. Between these it is *queued* (the command
to add it is in the channel), a *client*, or *detached* (removed, but still referenced); when the last reference
is gone it is *released*. A queued process or a client may have been *asked* for: the command to remove it is in
the channel as well.
-/

namespace Aspen.Clients

open Function List

/-! ## The channels, seen from one process -/

variable (a : ℕ) (l : List (Cmd × Msg))

def cmdsFor : List Cmd := (l.filter (·.2.addr = a)).map Prod.fst

lemma cmdsFor_append_self (c : Cmd) (m : Msg) : cmdsFor m.addr (l ++ [(c, m)]) = cmdsFor m.addr l ++ [c] := by
  simp [cmdsFor]

variable {m : Msg}

lemma cmdsFor_append_of_ne {a : ℕ} (l : List (Cmd × Msg)) (c : Cmd) (h : a ≠ m.addr) :
    cmdsFor a (l ++ [(c, m)]) = cmdsFor a l := by
  simp [cmdsFor, Ne.symm h]

lemma cmdsFor_cons_self (c : Cmd) (m : Msg) : cmdsFor m.addr ((c, m) :: l) = c :: cmdsFor m.addr l := by
  simp [cmdsFor]

variable {l rest : List (Cmd × Msg)}

lemma cmdsFor_ne_nil {x : Cmd × Msg} (h : x ∈ l) : cmdsFor x.2.addr l ≠ [] := by
  intro he
  rw [cmdsFor, map_eq_nil_iff, filter_eq_nil_iff] at he
  exact he x h (decide_eq_true rfl)

def handbacks (a : ℕ) (l : List Msg) : ℕ := l.countP (·.addr = a)

lemma handbacks_append_self (l : List Msg) (m : Msg) : handbacks m.addr (l ++ [m]) = handbacks m.addr l + 1 := by
  simp [handbacks]

lemma handbacks_append_of_ne {a : ℕ} (l : List Msg) (h : a ≠ m.addr) : handbacks a (l ++ [m]) = handbacks a l := by
  simp [handbacks, Ne.symm h]

lemma handbacks_cons_self (l : List Msg) (m : Msg) : handbacks m.addr (m :: l) = handbacks m.addr l + 1 := by
  simp [handbacks]

lemma handbacks_cons_of_ne {a : ℕ} (l : List Msg) (h : a ≠ m.addr) : handbacks a (m :: l) = handbacks a l := by
  simp [handbacks, Ne.symm h]

lemma handbacks_pos {l : List Msg} (h : m ∈ l) : 0 < handbacks m.addr l := countP_pos_iff.2 ⟨m, h, decide_eq_true rfl⟩

/-! ## The condition -/

/-- The control thread does not ask for a process that could not be added, and no process that was asked for cannot be
added. The channel to the control thread has room for what is handed back. -/
def Orderly (s : Sys) : Event → Prop
  | .hangup w => ∀ P ∈ s.dp.procs w.addr, P.attachFail = false
  | .handle env => s.dp.toControl.length < queueSize ∧
      match s.toData with
      | (.add, m) :: _ => ∀ P ∈ s.dp.procs m.addr, s.dp.addFails P env = true → P.removed = false
      | _ => True
  | .put _ => s.dp.toControl.length < queueSize
  | _ => True

instance (s : Sys) (e : Event) : Decidable (Orderly s e) := by
  induction e using Event.casesOn <;> dsimp only [Orderly] <;> try split
  all_goals infer_instance

/-! ## Stages -/

inductive Stage
  /-- the command to add it is in the channel -/
  | queued (asked : Bool)
  | client (asked : Bool)
  /-- removed, but still referenced -/
  | detached
  | released
  deriving DecidableEq

namespace Stage

def cmds : Stage → List Cmd
  | .queued false => [.add]
  | .queued true => [.add, .remove]
  | .client true => [.remove]
  | _ => []

def own : Stage → ℕ
  | .queued _ | .client _ => 1
  | _ => 0

def isClient : Stage → Bool
  | .client _ => true
  | _ => false

def isGone : Stage → Bool
  | .detached | .released => true
  | _ => false

def asked : Stage → Bool
  | .queued b | .client b => b
  | _ => false

def Watched (P : Proc) : Stage → Prop
  | .queued b | .client b => b = false
  | .detached | .released => P.removed = false

/-- What follows when the command to remove it is sent. -/
def ask : Stage → Stage
  | .queued _ => .queued true
  | .client _ => .client true
  | g => g

end Stage

/-- The process `P` lives at the address `a`, and is at stage `g`. -/
structure Living (s : Sys) (a : ℕ) (g : Stage) (P : Proc) : Prop where
  proc : s.dp.procs a = some P
  cmds : cmdsFor a s.toData = g.cmds
  client : a ∈ s.dp.clients ↔ g.isClient = true
  ref : P.ref = g.own + s.dp.holders.count a
  holders : a ∈ s.dp.holders → g.isClient = true ∨ g = .detached
  detached : g = .detached → a ∈ s.dp.holders
  backs : handbacks a s.dp.toControl = if g = .released then 1 else 0
  watch : ∀ fd, ⟨fd, a⟩ ∈ s.epoll → P.controlFd = fd ∧ g.Watched P
  asked : g.asked = true → P.removed = true
  failed : P.attachFail = true → g.isGone = true
  gone : g.isGone = true → P.removed = true ∨ P.attachFail = true

structure Free (s : Sys) (a : ℕ) : Prop where
  proc : s.dp.procs a = none
  cmds : cmdsFor a s.toData = []
  client : a ∉ s.dp.clients
  holders : a ∉ s.dp.holders
  backs : handbacks a s.dp.toControl = 0
  watch : ∀ fd, ⟨fd, a⟩ ∉ s.epoll

structure Staged (s : Sys) : Prop where
  at_ : ∀ a, Free s a ∨ ∃ g P, Living s a g P
  nodup : s.dp.clients.Nodup
  fds : ∀ w ∈ s.epoll, ∀ w' ∈ s.epoll, w.fd = w'.fd → w = w'

variable {s s' : Sys} {a : ℕ} {g : Stage} {P P' : Proc}

lemma Staged.living (h : Staged s) (hP : s.dp.procs a = some P) : ∃ g, Living s a g P := by
  rcases h.at_ a with hf | ⟨g, Q, hl⟩
  · cases hf.proc.symm.trans hP
  · cases hl.proc.symm.trans hP
    exact ⟨g, hl⟩

lemma Staged.free (h : Staged s) (hP : s.dp.procs a = none) : Free s a :=
  (h.at_ a).resolve_right fun ⟨_, _, hl⟩ => nomatch hP.symm.trans hl.proc

lemma Staged.living_of_cmd (h : Staged s) {x : Cmd × Msg} (hx : x ∈ s.toData) : ∃ g P, Living s x.2.addr g P :=
  (h.at_ x.2.addr).resolve_left fun hf => cmdsFor_ne_nil hx hf.cmds

lemma Staged.living_of_back (h : Staged s) (hm : m ∈ s.dp.toControl) : ∃ P, Living s m.addr .released P := by
  have hpos := handbacks_pos hm
  rcases h.at_ m.addr with hf | ⟨g, P, hl⟩
  · rw [hf.backs] at hpos
    cases hpos
  · rw [hl.backs] at hpos
    by_cases hg : g = .released
    · exact ⟨P, hg ▸ hl⟩
    · rw [if_neg hg] at hpos
      cases hpos

/-! ## Steps about one address -/

structure Passes (s s' : Sys) : Prop where
  keeps : Dp.Keeps Proc.id s.dp s'.dp
  toData : ∀ x ∈ s'.toData, x ∈ s.toData ∨ ∃ P, s.dp.procs x.2.addr = some P ∧ P.id = x.2.proc
  toControl : Dp.Reports s.dp s'.dp
  freed : s'.freed = s.freed
  nextProc : s'.nextProc = s.nextProc
  dropped : ∀ x ∈ s'.dropped, x ∈ s.dropped ∨
    ∃ m P, (Cmd.remove, m) ∈ s.toData ∧ s.dp.procs m.addr = some P ∧ x = (m.proc, P.id)

abbrev Stays (s : Sys) : Except Stop Sys → Prop := Run.Comes (· ≠ .useAfterFree) fun s' => Staged s' ∧ Passes s s'

/-- Nothing has changed about the address `b`, except that its connection may be watched no longer. -/
structure Apart (s s' : Sys) (b : ℕ) : Prop where
  procs : s'.dp.procs b = s.dp.procs b
  cmds : cmdsFor b s'.toData = cmdsFor b s.toData
  clients : b ∈ s'.dp.clients ↔ b ∈ s.dp.clients
  holders : s'.dp.holders.count b = s.dp.holders.count b
  backs : handbacks b s'.dp.toControl = handbacks b s.dp.toControl
  epoll : ∀ fd, ⟨fd, b⟩ ∈ s'.epoll → ⟨fd, b⟩ ∈ s.epoll

lemma Apart.mem_holders {b : ℕ} (hs : Apart s s' b) : b ∈ s'.dp.holders ↔ b ∈ s.dp.holders := by
  rw [← count_pos_iff, hs.holders, count_pos_iff]

lemma Living.apart {b : ℕ} (h : Living s b g P) (hs : Apart s s' b) : Living s' b g P where
  proc := hs.procs.trans h.proc
  cmds := hs.cmds.trans h.cmds
  client := hs.clients.trans h.client
  ref := by rw [hs.holders]; exact h.ref
  holders := fun hb => h.holders (hs.mem_holders.1 hb)
  detached := fun hg => hs.mem_holders.2 (h.detached hg)
  backs := hs.backs.trans h.backs
  watch := fun fd hfd => h.watch fd (hs.epoll fd hfd)
  asked := h.asked
  failed := h.failed
  gone := h.gone

lemma Free.apart {b : ℕ} (h : Free s b) (hs : Apart s s' b) : Free s' b where
  proc := hs.procs.trans h.proc
  cmds := hs.cmds.trans h.cmds
  client := fun hb => h.client (hs.clients.1 hb)
  holders := fun hb => h.holders (hs.mem_holders.1 hb)
  backs := hs.backs.trans h.backs
  watch := fun fd hfd => h.watch fd (hs.epoll fd hfd)

lemma Staged.apart (h : Staged s) {b : ℕ} (hs : Apart s s' b) : Free s' b ∨ ∃ g P, Living s' b g P :=
  (h.at_ b).imp (·.apart hs) fun ⟨g, P, hl⟩ => ⟨g, P, hl.apart hs⟩

lemma Staged.of_at (h : Staged s) (ha : Free s' a ∨ ∃ g P, Living s' a g P)
    (hb : ∀ b ≠ a, Apart s s' b) (hnodup : s'.dp.clients.Nodup)
    (hfds : ∀ w ∈ s'.epoll, ∀ w' ∈ s'.epoll, w.fd = w'.fd → w = w') : Staged s' := by
  refine ⟨fun b => ?_, hnodup, hfds⟩
  by_cases hba : b = a
  · exact hba ▸ ha
  · exact h.apart (hb b hba)

/-! ## The dataplane gives a process up -/

lemma Living.of_gone (hg : g = .detached ∨ g = .released) (hproc : s.dp.procs a = some P)
    (hcmds : cmdsFor a s.toData = []) (hclient : a ∉ s.dp.clients) (href : P.ref = s.dp.holders.count a)
    (hheld : a ∈ s.dp.holders ↔ g = .detached)
    (hbacks : handbacks a s.dp.toControl = if g = .released then 1 else 0)
    (hgone : P.removed ∨ P.attachFail)
    (hwatch : ∀ fd, ⟨fd, a⟩ ∈ s.epoll → P.controlFd = fd ∧ P.removed = false) : Living s a g P := by
  rcases hg with rfl | rfl
  all_goals
    exact ⟨hproc, hcmds, ⟨fun ha => absurd ha hclient, nofun⟩, href.trans (Nat.zero_add _).symm,
      fun ha => .inr (hheld.1 ha), hheld.2, hbacks, hwatch, nofun, fun _ => rfl, fun _ => hgone⟩

lemma Living.leave (h : handbacks a s.dp.toControl = 0) (hproc : s'.dp.procs a = some P')
    (hcmds : cmdsFor a s'.toData = []) (hclient : a ∉ s'.dp.clients) (href : P'.ref = s'.dp.holders.count a)
    (hback : s'.dp.toControl = if P'.ref = 0 then s.dp.toControl ++ [⟨a, P.id⟩] else s.dp.toControl)
    (hgone : P'.removed ∨ P'.attachFail)
    (hwatch : ∀ fd, ⟨fd, a⟩ ∈ s'.epoll → P'.controlFd = fd ∧ P'.removed = false) : ∃ g P, Living s' a g P := by
  have hmem : a ∈ s'.dp.holders ↔ P'.ref ≠ 0 := by rw [href, ← count_pos_iff, Nat.pos_iff_ne_zero]
  by_cases hz : P'.ref = 0
  · rw [if_pos hz] at hback
    refine ⟨.released, P', .of_gone (.inr rfl) hproc hcmds hclient href ?_ ?_ hgone hwatch⟩
    · exact ⟨fun ha => absurd hz (hmem.1 ha), nofun⟩
    · rw [hback, if_pos rfl]
      exact (handbacks_append_self s.dp.toControl ⟨a, P.id⟩).trans (congrArg (· + 1) h)
  · rw [if_neg hz] at hback
    refine ⟨.detached, P', .of_gone (.inl rfl) hproc hcmds hclient href ?_ ?_ hgone hwatch⟩
    · exact ⟨fun _ => rfl, fun _ => hmem.2 hz⟩
    · rw [hback, if_neg nofun, h]

lemma cmdsFor_rest {c : Cmd}
    (hl : l = (c, m) :: rest) {b : ℕ} (hb : b ≠ m.addr) : cmdsFor b rest = cmdsFor b l := by
  simp [hl, cmdsFor, hb.symm]

section

variable (h : Staged s)
include h

lemma Staged.left {c : Cmd} (hdata : s.toData = (c, m) :: rest) (hg : Living s m.addr g P) (hown : g.own = 1)
    (hrest : cmdsFor m.addr rest = []) {d' : Dp}
    (hl : Dp.Left s.dp d' m.addr P P') (hgone : P'.removed ∨ P'.attachFail)
    (hwatch : ∀ fd, ⟨fd, m.addr⟩ ∈ s.epoll → P.removed = false) {dropped : List (ℕ × ℕ)} :
    Staged { s with toData := rest, dp := d', dropped := dropped } := by
  have hnone : handbacks m.addr s.dp.toControl = 0 := by
    rw [hg.backs, if_neg]
    rintro rfl
    cases hown
  have href := hg.ref
  have hcount := hl.ref
  obtain ⟨hrem, hfd⟩ := Prod.ext_iff.1 (Prod.ext_iff.1 hl.same).2
  refine h.of_at (a := m.addr) (.inr (Living.leave hnone hl.get_self hrest ?_ ?_ hl.toControl hgone ?_)) ?_
    hl.nodup h.fds
  · exact fun hm => ((hl.clients _).1 hm).2 rfl
  · dsimp only
    omega
  · exact fun fd hm => ⟨hfd.trans (hg.watch fd hm).1, hrem.trans (hwatch fd hm)⟩
  · intro b hb
    refine ⟨?_, cmdsFor_rest hdata hb, ?_, hl.holders b hb, ?_, fun _ => id⟩
    · rw [hl.procs, update_of_ne hb]
    · rw [hl.clients, and_iff_left hb]
    · rw [hl.toControl]
      split
      · exact handbacks_append_of_ne _ hb
      · rfl

/-! ## The dataplane's events -/

lemma Staged.add {asked : Bool}
    (hdata : s.toData = (.add, m) :: rest) (hg : Living s m.addr (.queued asked) P)
    (hrest : cmdsFor m.addr rest = (Stage.client asked).cmds)
    {d' : Dp} (hb : Dp.Balanced s.dp d' m.addr P P') (hclients : d'.clients = s.dp.clients ++ [m.addr])
    (hfail : P'.attachFail = P.attachFail) : Staged { s with toData := rest, dp := d' } := by
  have hnot : m.addr ∉ s.dp.clients := fun hm => nomatch hg.client.1 hm
  obtain ⟨hrem, hfd⟩ := Prod.ext_iff.1 (Prod.ext_iff.1 hb.same).2
  have href : P.ref = 1 + s.dp.holders.count m.addr := hg.ref
  have hcount := hb.ref
  have hnodup : d'.clients.Nodup := by
    rw [hclients]
    exact (perm_append_singleton _ _).nodup_iff.2 (nodup_cons.2 ⟨hnot, h.nodup⟩)
  refine h.of_at (a := m.addr) (.inr ⟨.client asked, P', ?_⟩) ?_ hnodup h.fds
  · exact {
      proc := hb.get_self
      cmds := hrest
      client := by
        rw [hclients]
        exact ⟨fun _ => rfl, fun _ => mem_append_right _ (.head _)⟩
      ref := by
        show P'.ref = 1 + d'.holders.count m.addr
        omega
      holders := fun _ => .inl rfl
      detached := nofun
      backs := by
        rw [hb.toControl]
        exact hg.backs
      watch := fun fd hm => ⟨hfd.trans (hg.watch fd hm).1, (hg.watch fd hm).2⟩
      asked := fun ha => hrem.trans (hg.asked ha)
      failed := fun hf => nomatch hg.failed (hfail.symm.trans hf)
      gone := nofun }
  · intro b hne
    refine ⟨?_, cmdsFor_rest hdata hne, ?_, hb.holders b hne, ?_, fun _ => id⟩
    · rw [hb.procs, update_of_ne hne]
    · rw [hclients, mem_append, mem_singleton, or_iff_left hne]
    · rw [hb.toControl]

lemma Staged.head_add (hdata : s.toData = (.add, m) :: rest) :
    ∃ asked P, Living s m.addr (.queued asked) P ∧ cmdsFor m.addr rest = (Stage.client asked).cmds ∧
      m.addr ∉ s.dp.clients ∧ P.ref = s.dp.holders.count m.addr + 1 := by
  obtain ⟨g, P, hg⟩ := h.living_of_cmd (x := (.add, m)) (by rw [hdata]; exact .head _)
  have hcmds := hg.cmds
  rw [hdata, cmdsFor_cons_self] at hcmds
  obtain ⟨b, rfl, hrest⟩ : ∃ b, g = .queued b ∧ cmdsFor m.addr rest = (Stage.client b).cmds := by
    rcases g with b | b | - | -
    · cases b <;> exact ⟨_, rfl, (List.cons.inj hcmds).2⟩
    · cases b <;> cases hcmds
    · cases hcmds
    · cases hcmds
  exact ⟨b, P, hg, hrest, fun hm => (nomatch hg.client.1 hm), hg.ref.trans (Nat.add_comm ..)⟩

lemma Staged.head_remove (hdata : s.toData = (.remove, m) :: rest) :
    ∃ P, Living s m.addr (.client true) P ∧ cmdsFor m.addr rest = [] ∧
      m.addr ∈ s.dp.clients ∧ P.ref = s.dp.holders.count m.addr + 1 := by
  obtain ⟨g, P, hg⟩ := h.living_of_cmd (x := (.remove, m)) (by rw [hdata]; exact .head _)
  have hcmds := hg.cmds
  rw [hdata, cmdsFor_cons_self] at hcmds
  obtain ⟨rfl, hrest⟩ : g = .client true ∧ cmdsFor m.addr rest = [] := by
    rcases g with b | b | - | -
    · cases b <;> cases hcmds
    · cases b
      · cases hcmds
      · exact ⟨rfl, (List.cons.inj hcmds).2⟩
    · cases hcmds
    · cases hcmds
  exact ⟨P, hg, hrest, hg.client.2 rfl, hg.ref.trans (Nat.add_comm ..)⟩

lemma Staged.handle {env : AddEnv} (hok : Orderly s (.handle env)) : Stays s (s.handle env) := by
  obtain ⟨hroom, hok⟩ := hok
  unfold Sys.handle
  split
  · exact .stop nofun
  · rename_i m rest hdata
    obtain ⟨b, P, hg, hrest, hnot, href⟩ := h.head_add hdata
    obtain ⟨d', P', hadd, hout⟩ := Dp.addClient_outcome hnot hg.proc h.nodup href hroom env
    rw [hadd]
    obtain ⟨hk, hr⟩ : Dp.Keeps Proc.id s.dp d' ∧ Dp.Reports s.dp d' :=
      hout.elim (·.2.1.named hg.proc) (·.2.1.named hg.proc)
    refine .ok ⟨?_, hk, fun x hx => .inl (hdata ▸ .tail _ hx), hr, rfl, rfl, fun _ => .inl⟩
    rcases hout with ⟨hf, hl, hfail⟩ | ⟨-, hb, hfail, hclients⟩
    · -- the call fails, and the process was not asked for
      rw [hdata] at hok
      have hrem : P.removed = false := hok P hg.proc hf
      have hb : b = false := by
        cases b with
        | false => rfl
        | true => cases (hg.asked rfl).symm.trans hrem
      subst hb
      exact h.left hdata hg rfl hrest hl (.inr hfail) fun _ _ => hrem
    · exact h.add hdata hg hrest hb hclients hfail
  · rename_i m rest hdata
    obtain ⟨P, hg, hrest, hmem, href⟩ := h.head_remove hdata
    obtain ⟨d', P', hr, hl, -⟩ := Dp.left_removeClient hmem hg.proc h.nodup href hroom env.queued
    rw [hr, if_pos hmem, hg.proc]
    obtain ⟨hk, hreport⟩ := hl.named hg.proc
    have hrem := (Prod.ext_iff.1 (Prod.ext_iff.1 hl.same).2).1
    have hgone : P'.removed := hrem.trans (hg.asked rfl)
    refine .ok ⟨h.left hdata hg rfl hrest hl (.inl hgone) fun fd hm => (nomatch (hg.watch fd hm).2), hk,
      fun x hx => .inl (hdata ▸ .tail _ hx), hreport, rfl, rfl, fun x hx => ?_⟩
    rcases mem_cons.1 hx with rfl | hx
    · exact .inr ⟨m, P, hdata ▸ .head _, hg.proc, rfl⟩
    · exact .inl hx

lemma Staged.held (hmem : a ∈ s.dp.clients ∨ a ∈ s.dp.holders) :
    ∃ g P, Living s a g P ∧ (g.isClient ∨ g = .detached) := by
  obtain ⟨g, P, hg⟩ := (h.at_ a).resolve_left fun hf => hmem.elim hf.client hf.holders
  exact ⟨g, P, hg, hmem.elim (fun hc => .inl (hg.client.1 hc)) hg.holders⟩

lemma Staged.get : Stays s (s.get a) := by
  refine Run.Comes.guard nofun fun hmem => .ok ⟨?_, Dp.keeps_get Dp.stable_id, fun _ => .inl, .of_eq rfl, rfl, rfl,
    fun _ => .inl⟩
  obtain ⟨g, P, hg, hheld⟩ := h.held hmem
  have hb := Dp.balanced_get hg.proc
  refine h.of_at (a := a) (.inr ⟨g, { P with ref := P.ref + 1 }, ?_⟩) ?_ h.nodup h.fds
  · refine { hg with
      proc := hb.get_self, ref := ?_, holders := fun _ => hheld, detached := fun _ => .head _
      watch := fun fd hm => ⟨(hg.watch fd hm).1, ?_⟩ }
    · show P.ref + 1 = g.own + (a :: s.dp.holders).count a
      rw [count_cons_self, hg.ref, Nat.add_assoc]
    · cases g <;> exact (hg.watch fd hm).2
  · intro b hne
    refine ⟨?_, rfl, .rfl, hb.holders b hne, rfl, fun _ => id⟩
    rw [hb.procs, update_of_ne hne]

lemma Staged.put (hroom : s.dp.toControl.length < queueSize) : Stays s (s.put a) := by
  refine Run.Comes.guard nofun fun hmem => .ok ⟨?_, fun b => Dp.keeps_put Dp.stable_id b, fun _ => .inl,
    Dp.reports_put (d := { s.dp with holders := s.dp.holders.erase a }), rfl, rfl, fun _ => .inl⟩
  obtain ⟨g, P, hg, hheld⟩ := h.held (.inr hmem)
  have href := hg.ref
  have hpos := count_pos_iff.2 hmem
  have hcount : (s.dp.holders.erase a).count a = s.dp.holders.count a - 1 := count_erase_self
  rw [Dp.put_eq (d := { s.dp with holders := s.dp.holders.erase a }) hg.proc (by omega) hroom]
  refine h.of_at (a := a) (.inr ?_) (fun b hne => ?_) h.nodup h.fds
  · rcases hheld with hc | rfl
    · -- a client keeps the dataplane's own reference
      have hown : g.own = 1 := by
        cases g <;> first | rfl | cases hc
      refine ⟨g, { P with ref := P.ref - 1 }, { hg with
        proc := update_self .., ref := ?_, holders := fun _ => .inl hc, detached := ?_, backs := ?_
        watch := fun fd hm => ⟨(hg.watch fd hm).1, ?_⟩ }⟩
      · show P.ref - 1 = g.own + (s.dp.holders.erase a).count a
        omega
      · rintro rfl
        cases hc
      · rw [if_neg (by omega)]
        exact hg.backs
      · cases g <;> exact (hg.watch fd hm).2
    · refine Living.leave (hg.backs.trans (if_neg nofun)) (update_self ..) hg.cmds
        (fun hm => nomatch hg.client.1 hm) ?_ rfl (hg.gone rfl) hg.watch
      rw [hcount, href]
      exact congrArg (· - 1) (Nat.zero_add _)
  · refine ⟨update_of_ne hne .., rfl, .rfl, count_erase_of_ne hne, ?_, fun _ => id⟩
    split
    · exact handbacks_append_of_ne _ hne
    · rfl

end

/-! ## The control thread's events -/

lemma mem_unwatch {fd fd' : ℕ} : ⟨fd', a⟩ ∈ (s.unwatch fd).epoll ↔ ⟨fd', a⟩ ∈ s.epoll ∧ fd' ≠ fd := by
  unfold Sys.unwatch
  rw [mem_filter, decide_eq_true_iff]

lemma Staged.hangup (h : Staged s) {w : Watch} (hw : w ∈ s.epoll)
    (hok : ∀ P ∈ s.dp.procs w.addr, P.attachFail = false) : Stays s (s.instructRemove w) := by
  obtain ⟨g, P, hg⟩ := (h.at_ w.addr).resolve_left fun hf => hf.watch w.fd hw
  obtain ⟨hfd, hwatch⟩ := hg.watch w.fd hw
  have hmod := Dp.modify_eq hg.proc fun P => { P with removed := true }
  have hself := (congrFun hmod w.addr).trans (update_self ..)
  have hother : ∀ b ≠ w.addr, (s.dp.modify w.addr fun P => { P with removed := true }).procs b = s.dp.procs b :=
    fun b hb => (congrFun hmod b).trans (update_of_ne hb ..)
  -- it is queued or a client, and not asked for yet
  have hstage : g = .queued false ∨ g = .client false := by
    cases g with
    | queued b => exact .inl (congrArg _ hwatch)
    | client b => exact .inr (congrArg _ hwatch)
    | detached | released =>
      rcases hg.gone rfl with hr | hf
      · cases hr.symm.trans hwatch
      · cases hf.symm.trans (hok P hg.proc)
  have hnofail : P.attachFail ≠ true := by simp [hok P hg.proc]
  refine Sys.instructRemove_comes.imp (fun _ hnone => nomatch hg.proc.symm.trans hnone) ?_
  rintro s' ⟨Q, hQ, d, rfl, rfl | rfl⟩
  · cases hg.proc.symm.trans hQ
    refine ⟨?_, Dp.keeps_modify fun _ => rfl, fun x hx => (mem_append.1 hx).imp_right fun hx => ?_, .of_eq rfl,
      rfl, rfl, fun _ => .inl⟩
    case refine_2 =>
      cases mem_singleton.1 hx
      exact ⟨P, hg.proc, rfl⟩
    refine h.of_at (a := w.addr) (.inr ⟨g.ask, { P with removed := true }, ?_⟩) (fun b hb => ?_) h.nodup ?_
    · have hcmds := (cmdsFor_append_self s.toData .remove ⟨w.addr, P.id⟩).trans (congrArg (· ++ [.remove]) hg.cmds)
      have hepoll : ∀ fd, ⟨fd, w.addr⟩ ∉ (s.unwatch P.controlFd).epoll := by
        intro fd hm
        obtain ⟨hm, hne⟩ := mem_unwatch.1 hm
        exact hne (hg.watch fd hm).1.symm
      rcases hstage with rfl | rfl
      all_goals
        exact ⟨hself, hcmds, hg.client, hg.ref, fun hm => .inl ((hg.holders hm).resolve_right nofun), nofun, hg.backs,
          fun fd hm => absurd hm (hepoll fd), fun _ => rfl, fun hf => absurd hf hnofail, nofun⟩
    · refine ⟨hother b hb, cmdsFor_append_of_ne _ _ hb, .rfl, rfl, rfl, fun fd hm => ?_⟩
      exact (mem_unwatch.1 hm).1
    · intro w1 h1 w2 h2
      exact h.fds w1 (mem_unwatch.1 h1).1 w2 (mem_unwatch.1 h2).1
  · refine ⟨?_, Dp.keeps_modify fun _ => rfl, fun _ => .inl, .of_eq rfl, rfl, rfl, fun _ => .inl⟩
    refine h.of_at (a := w.addr) (.inr ⟨g, { P with removed := true }, ?_⟩)
      (fun b hb => ⟨hother b hb, rfl, .rfl, rfl, rfl, fun _ => id⟩) h.nodup h.fds
    refine { hg with proc := hself, watch := ?_, asked := fun _ => rfl, gone := fun _ => .inl rfl }
    rcases hstage with rfl | rfl <;> exact hg.watch

lemma Staged.recv (h : Staged s) {rest : List Msg} (hback : s.dp.toControl = m :: rest)
    (hP : s.dp.procs m.addr = some P) : Staged (Sys.destroyed { s with
      dp.toControl := rest
      epoll := if P.removed then s.epoll else (s.unwatch P.controlFd).epoll } m.addr P) := by
  obtain ⟨Q, hg⟩ := h.living_of_back (m := m) (by rw [hback]; exact .head _)
  cases hP.symm.trans hg.proc
  have hsub : ∀ w, w ∈ (if P.removed then s.epoll else (s.unwatch P.controlFd).epoll) → w ∈ s.epoll := by
    intro w hw
    split at hw
    · exact hw
    · exact (mem_unwatch.1 hw).1
  refine h.of_at (a := m.addr) (.inl ?_) ?_ h.nodup ?_
  · exact {
      proc := update_self ..
      cmds := hg.cmds
      client := fun hm => nomatch hg.client.1 hm
      holders := fun hm => by rcases hg.holders hm with h | h <;> cases h
      backs := by
        have hb := hg.backs
        rw [hback, handbacks_cons_self] at hb
        exact Nat.succ.inj hb
      watch := by
        intro fd hm
        obtain ⟨hctl, hw⟩ := hg.watch fd (hsub _ hm)
        rw [show P.removed = false from hw, if_neg Bool.false_ne_true] at hm
        exact (mem_unwatch.1 hm).2 hctl.symm }
  · intro b hb
    refine ⟨update_of_ne hb .., rfl, .rfl, rfl, ?_, fun fd hfd => hsub _ hfd⟩
    rw [hback, handbacks_cons_of_ne _ hb]
    rfl
  · exact fun w hw w' hw' => h.fds w (hsub w hw) w' (hsub w' hw')

lemma Staged.join (h : Staged s) {r : Request} (hfree : s.dp.procs r.addr = none)
    (hfd : ∀ w ∈ s.epoll, w.fd ≠ r.fd) : Staged (s.join r) := by
  have hf := h.free hfree
  have hself : (s.join r).dp.procs r.addr = some _ := update_self ..
  refine h.of_at (a := r.addr) (.inr ⟨.queued false, _, hself, ?_, ⟨fun hm => absurd hm hf.client, nofun⟩, ?_,
    fun hm => absurd hm hf.holders, nofun, hf.backs, ?_, nofun, nofun, nofun⟩) ?_ h.nodup ?_
  · exact (cmdsFor_append_self s.toData .add ⟨r.addr, s.nextProc⟩).trans (by rw [hf.cmds]; rfl)
  · show 1 = 1 + s.dp.holders.count r.addr
    rw [count_eq_zero.2 hf.holders]
  · intro fd hm
    rcases mem_cons.1 hm with he | hm
    · cases he
      exact ⟨rfl, rfl⟩
    · exact absurd hm (hf.watch fd)
  · intro b hb
    refine ⟨update_of_ne hb .., cmdsFor_append_of_ne _ _ hb, .rfl, rfl, rfl, fun fd hm => ?_⟩
    rcases mem_cons.1 hm with he | hm
    · cases he
      exact absurd rfl hb
    · exact hm
  · intro w hw w' hw' he
    rcases mem_cons.1 hw with rfl | hw <;> rcases mem_cons.1 hw' with rfl | hw'
    · rfl
    · exact absurd he.symm (hfd w' hw')
    · exact absurd he (hfd w hw)
    · exact h.fds w hw w' hw' he

lemma Staged.abandon (h : Staged s) (ha : s.Abandons s') : Staged s' := by
  refine ⟨fun b => h.apart ⟨?_, ?_, ?_, ?_, ?_, ?_⟩, ha.dp ▸ h.nodup, ha.epoll ▸ h.fds⟩ <;>
    first | rw [ha.dp] | rw [ha.toData] | rw [ha.epoll]; exact fun _ => id

end Aspen.Clients
