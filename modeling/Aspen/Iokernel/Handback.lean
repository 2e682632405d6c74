import Aspen.Iokernel.Dataplane

/-!
# References to a process

What adding and removing a client, taking and dropping a reference do to the process: its reference count
against the list of holders, and the message to the control plane when the last reference is dropped. The
memory registration and the routes are of no interest here.
-/

namespace Aspen.Clients

open Function List

namespace Dp

variable {d d' : Dp} {a : ℕ} {P P' : Proc}

def identity (P : Proc) : ℕ × Bool × ℕ := (P.id, P.removed, P.controlFd)

/-- References to the process at `a` are taken, but no process is handed back. -/
structure Balanced (d d' : Dp) (a : ℕ) (P P' : Proc) : Prop where
  procs : d'.procs = update d.procs a (some P')
  holders : ∀ b ≠ a, d'.holders.count b = d.holders.count b
  ref : P'.ref + d.holders.count a = P.ref + d'.holders.count a
  toControl : d'.toControl = d.toControl
  same : identity P' = identity P

namespace Balanced

lemma refl (hP : d.procs a = some P) : Balanced d d a P P :=
  ⟨by rw [← hP, update_eq_self], fun _ _ => rfl, rfl, rfl, rfl⟩

lemma trans {d1 d2 d3 : Dp} {P1 P2 P3 : Proc} (h : Balanced d1 d2 a P1 P2)
    (h' : Balanced d2 d3 a P2 P3) : Balanced d1 d3 a P1 P3 where
  procs := by rw [h'.procs, h.procs, update_idem]
  holders := fun b hb => (h'.holders b hb).trans (h.holders b hb)
  ref := by
    have := h.ref
    have := h'.ref
    omega
  toControl := h'.toControl.trans h.toControl
  same := h'.same.trans h.same

lemma get_self (h : Balanced d d' a P P') : d'.procs a = some P' := by
  rw [h.procs, update_self]

end Balanced

section

variable (hP : d.procs a = some P)
include hP

lemma modify_eq (f : Proc → Proc) : (d.modify a f).procs = update d.procs a (some (f P)) := by
  rw [modify, hP]
  rfl

lemma balanced_kill (kill : Bool) :
    Balanced d (d.modify a fun P => { P with kill := kill }) a P { P with kill := kill } :=
  ⟨modify_eq hP _, fun _ _ => rfl, rfl, rfl, rfl⟩

lemma balanced_get : Balanced d (d.get a) a P { P with ref := P.ref + 1 } where
  procs := modify_eq hP _
  holders := fun b hb => count_cons_of_ne (Ne.symm hb)
  ref := by
    show P.ref + 1 + _ = P.ref + (a :: d.holders).count a
    rw [count_cons_self]
    omega
  toControl := rfl
  same := rfl

lemma balanced_runCommands (queued : Bool) :
    ∃ P', Balanced d (d.runCommands a queued) a P P' ∧ P'.attachFail = P.attachFail := by
  unfold runCommands
  split
  · exact ⟨P, .refl hP, rfl⟩
  · exact ⟨_, balanced_get hP, rfl⟩

lemma balanced_notifyKill (Q : Proc) (queued : Bool) :
    ∃ P', Balanced d (d.notifyKill a Q queued) a P P' ∧ P'.attachFail = P.attachFail := by
  have hk := balanced_kill hP true
  unfold notifyKill
  split
  · obtain ⟨P', hr, hf⟩ := balanced_runCommands hk.get_self queued
    exact ⟨P', hk.trans hr, hf⟩
  · exact ⟨_, hk, rfl⟩

end

/-! ## Handing back -/

/-- The dataplane gives up its own reference to the process at `a`, and tells the control plane if it was the
last. -/
structure Left (d d' : Dp) (a : ℕ) (P P' : Proc) : Prop where
  procs : d'.procs = update d.procs a (some P')
  clients : ∀ b, b ∈ d'.clients ↔ b ∈ d.clients ∧ b ≠ a
  nodup : d'.clients.Nodup
  holders : ∀ b ≠ a, d'.holders.count b = d.holders.count b
  ref : P'.ref + d.holders.count a + 1 = P.ref + d'.holders.count a
  toControl : d'.toControl = if P'.ref = 0 then d.toControl ++ [⟨a, P.id⟩] else d.toControl
  same : identity P' = identity P

lemma Left.get_self (h : Left d d' a P P') : d'.procs a = some P' := by
  rw [h.procs, update_self]

lemma put_eq (hP : d.procs a = some P) (href : P.ref ≠ 0) (hroom : d.toControl.length < queueSize) :
    d.put a = { d with
      procs := update d.procs a (some { P with ref := P.ref - 1 })
      toControl := if P.ref - 1 = 0 then d.toControl ++ [⟨a, P.id⟩] else d.toControl } := by
  unfold put
  rw [hP]
  dsimp only [modify]
  rw [hP]
  by_cases h : P.ref = 1
  · rw [if_pos h, if_pos (by omega), release, if_pos hroom]
    rfl
  · rw [if_neg h, if_neg (by omega)]
    rfl

lemma Balanced.put {d1 : Dp} (h : Balanced d d1 a P P')
    (hclients : ∀ b, b ∈ d1.clients ↔ b ∈ d.clients ∧ b ≠ a) (hnodup : d1.clients.Nodup)
    (href : P.ref = d.holders.count a + 1) (hroom : d.toControl.length < queueSize) :
    Left d (d1.put a) a P { P' with ref := P'.ref - 1 } := by
  have hbal := h.ref
  rw [put_eq h.get_self (by omega) (h.toControl ▸ hroom)]
  have hid : P'.id = P.id := congrArg Prod.fst h.same
  exact {
    procs := by rw [h.procs, update_idem]
    clients := hclients
    nodup := hnodup
    holders := h.holders
    ref := by
      show P'.ref - 1 + _ + 1 = _ + d1.holders.count a
      omega
    toControl := by rw [h.toControl, hid]
    same := h.same }

lemma left_removeClient (ha : a ∈ d.clients) (hP : d.procs a = some P) (hnodup : d.clients.Nodup)
    (href : P.ref = d.holders.count a + 1) (hroom : d.toControl.length < queueSize) (queued : Bool) :
    ∃ d' P', d.removeClient a queued = .ok d' ∧ Left d d' a P P' ∧
      P'.attachFail = P.attachFail := by
  have hbal : ∃ P', Balanced d (((d.unlink a P).unregister a P).notifyKill a P queued) a P P' ∧
      P'.attachFail = P.attachFail := by
    have hun : ((d.unlink a P).unregister a P).procs a = some P ∧ ((d.unlink a P).unregister a P).procs = d.procs ∧
        ((d.unlink a P).unregister a P).holders = d.holders ∧
        ((d.unlink a P).unregister a P).toControl = d.toControl := by
      unfold unregister
      split <;> exact ⟨hP, rfl, rfl, rfl⟩
    obtain ⟨P', h, hf⟩ := balanced_notifyKill hun.1 P queued
    exact ⟨P', ⟨by rw [h.procs, hun.2.1], fun b hb => (h.holders b hb).trans (by rw [hun.2.2.1]),
      hun.2.2.1 ▸ h.ref, h.toControl.trans hun.2.2.2, h.same⟩, hf⟩
  obtain ⟨P', hbal, hf⟩ := hbal
  have hclients : (((d.unlink a P).unregister a P).notifyKill a P queued).clients = swapRemove d.clients a := by
    unfold notifyKill runCommands unregister
    split <;> (try split) <;> (try split) <;> rfl
  refine ⟨_, _, ?_, hbal.put ?_ ?_ href hroom, hf⟩
  · unfold removeClient
    rw [if_neg (not_not_intro ha), hP]
  · intro b
    rw [hclients]
    exact mem_swapRemove hnodup ha
  · rw [hclients]
    exact nodup_swapRemove hnodup ha

/-! ## Adding -/

def addFails (d : Dp) (P : Proc) (env : AddEnv) : Bool := !env.attach || (d.ipToProc P.ip).isSome || !env.insert ||
    !P.hasDirectpath && (!env.register || !env.map)

lemma left_failAdd (ha : a ∈ d.clients) (hP : d.procs a = some P) (hnodup : d.clients.Nodup)
    (href : P.ref = d.holders.count a + 1) (hroom : d.toControl.length < queueSize) (queued : Bool) :
    ∃ d' P', d.failAdd a queued = .ok d' ∧ Left d d' a P P' ∧ P'.attachFail = true := by
  have hmark := modify_eq hP fun P => { P with attachFail := true }
  have hself : (d.markFailed a).procs a = some { P with attachFail := true } :=
    (congrFun hmark a).trans (update_self ..)
  obtain ⟨d', P', hs, hl, hf⟩ := left_removeClient (d := d.markFailed a) ha hself hnodup href hroom queued
  refine ⟨d', P', hs, { hl with procs := ?_ }, hf⟩
  rw [hl.procs]
  show update (d.modify a _).procs a _ = _
  rw [hmark, update_idem]

lemma Balanced.left {d1 : Dp} {P1 : Proc} (h : Balanced d d1 a P P1)
    (hclients : d1.clients = d.clients ++ [a]) (hl : Left d1 d' a P1 P') : Left d d' a P P' where
  procs := by rw [hl.procs, h.procs, update_idem]
  clients := fun b => by
    rw [hl.clients, hclients, mem_append, mem_singleton]
    exact ⟨fun hb => ⟨hb.1.resolve_right hb.2, hb.2⟩, fun hb => ⟨.inl hb.1, hb.2⟩⟩
  nodup := hl.nodup
  holders := fun b hb => (hl.holders b hb).trans (h.holders b hb)
  ref := by
    have := h.ref
    have := hl.ref
    omega
  toControl := by rw [hl.toControl, h.toControl, show P1.id = P.id from congrArg Prod.fst h.same]
  same := hl.same.trans h.same

lemma addClient_outcome (ha : a ∉ d.clients) (hP : d.procs a = some P) (hnodup : d.clients.Nodup)
    (href : P.ref = d.holders.count a + 1) (hroom : d.toControl.length < queueSize) (env : AddEnv) :
    ∃ d' P', d.addClient a env = .ok d' ∧ (d.addFails P env ∧ Left d d' a P P' ∧ P'.attachFail ∨
        d.addFails P env = false ∧ Balanced d d' a P P' ∧ P'.attachFail = P.attachFail ∧
          d'.clients = d.clients ++ [a]) := by
  -- every failure after the scheduler's falls back on the removal
  have hfail : ∀ d1 P1, Balanced d d1 a P P1 → d1.clients = d.clients ++ [a] →
      ∃ d' P', d1.failAdd a env.queued = .ok d' ∧ Left d d' a P P' ∧ P'.attachFail := by
    intro d1 P1 hb hc
    have href1 := hb.ref
    obtain ⟨d', P', hs, hl, hf⟩ := left_failAdd (d := d1)
      (by rw [hc]; exact mem_append_right _ (.head _)) hb.get_self
      (by
        rw [hc]
        exact (perm_append_singleton a d.clients).nodup_iff.2 (nodup_cons.2 ⟨ha, hnodup⟩))
      (by omega) (hb.toControl ▸ hroom) env.queued
    exact ⟨d', P', hs, hb.left hc hl, hf⟩
  unfold addClient addFails
  rw [hP]
  cases env.attach with
  | false =>
    have hb : Balanced d (d.markFailed a) a P { P with attachFail := true } :=
      ⟨modify_eq hP _, fun _ _ => rfl, rfl, rfl, rfl⟩
    refine ⟨_, _, rfl, .inl ⟨rfl, hb.put ?_ hnodup href hroom, rfl⟩⟩
    exact fun b => ⟨fun hb => ⟨hb, fun he => ha (he ▸ hb)⟩, And.left⟩
  | true =>
    have hk := balanced_kill hP false
    have hb : ∀ r x, Balanced d { d.attach a with ipToProc := r, extmem := x } a P { P with kill := false } :=
      fun _ _ => ⟨hk.procs, hk.holders, hk.ref, hk.toControl, hk.same⟩
    have hr : ∀ r, Balanced d (register { d.attach a with ipToProc := r } a P) a P { P with kill := false } ∧
        (register { d.attach a with ipToProc := r } a P).clients = d.clients ++ [a] := by
      intro r
      unfold register
      split <;> exact ⟨⟨hk.procs, hk.holders, hk.ref, hk.toControl, hk.same⟩, rfl⟩
    simp only [Bool.not_true, Bool.false_eq_true, if_false, Bool.false_or,
      show (d.attach a).ipToProc = d.ipToProc from rfl]
    split
    · rename_i hdup
      obtain ⟨d', P', hs, hl, hf⟩ := hfail (d.attach a) _ (hb _ _) rfl
      exact ⟨d', P', hs, .inl ⟨by rw [hdup]; rfl, hl, hf⟩⟩
    rename_i hdup
    rw [(Bool.not_eq_true _).mp hdup, Bool.false_or]
    split
    · rename_i hins
      obtain ⟨d', P', hs, hl, hf⟩ := hfail (d.attach a) _ (hb _ _) rfl
      exact ⟨d', P', hs, .inl ⟨by rw [hins]; rfl, hl, hf⟩⟩
    rename_i hins
    rw [(Bool.not_eq_true _).mp hins, Bool.false_or]
    split
    · rename_i hreg
      obtain ⟨d', P', hs, hl, hf⟩ := hfail _ _ (hb (update d.ipToProc P.ip (some a)) _) rfl
      refine ⟨d', P', hs, .inl ⟨?_, hl, hf⟩⟩
      rw [Bool.and_or_distrib_left, hreg]
      rfl
    rename_i hreg
    rw [Bool.and_or_distrib_left, (Bool.not_eq_true _).mp hreg, Bool.false_or]
    split
    · rename_i hmap
      obtain ⟨d', P', hs, hl, hf⟩ := hfail _ _ (hb (update d.ipToProc P.ip (some a)) ((a :: d.extmem).erase a)) rfl
      exact ⟨d', P', hs, .inl ⟨hmap, hl, hf⟩⟩
    rename_i hmap
    rw [(Bool.not_eq_true _).mp hmap]
    obtain ⟨hr, hclients⟩ := hr (update d.ipToProc P.ip (some a))
    split
    · obtain ⟨P', hc, hf⟩ := balanced_runCommands hr.get_self env.queued
      refine ⟨_, P', rfl, .inr ⟨rfl, hr.trans hc, hf, ?_⟩⟩
      unfold runCommands
      split <;> exact hclients
    · exact ⟨_, _, rfl, .inr ⟨rfl, hr, rfl, hclients⟩⟩

/-! ## What a message names -/

lemma stable_id : Stable Proc.id := fun _ _ _ _ => rfl

def Reports (d d' : Dp) : Prop := ∀ m ∈ d'.toControl, m ∈ d.toControl ∨ ∃ P, d.procs m.addr = some P ∧ P.id = m.proc

lemma Reports.of_eq (h : d'.toControl = d.toControl) : Reports d d' := fun _ hm => .inl (h ▸ hm)

lemma reports_put : Reports d (d.put a) := by
  unfold put release
  split
  · exact .of_eq rfl
  · rename_i P hP
    dsimp only
    split
    · split
      · intro m hm
        rcases mem_append.1 hm with hm | hm
        · exact .inl hm
        · cases mem_singleton.1 hm
          exact .inr ⟨P, hP, rfl⟩
      · exact .of_eq rfl
    · exact .of_eq rfl

lemma keeps_of_update (hP : d.procs a = some P) (hp : d'.procs = update d.procs a (some P'))
    (hs : identity P' = identity P) : Keeps Proc.id d d' := by
  intro b
  rw [hp]
  by_cases hb : b = a
  · subst hb
    rw [update_self, hP]
    exact congrArg (some ·.1) hs
  · rw [update_of_ne hb]

lemma Balanced.named (h : Balanced d d' a P P') (hP : d.procs a = some P) : Keeps Proc.id d d' ∧ Reports d d' :=
  ⟨keeps_of_update hP h.procs h.same, .of_eq h.toControl⟩

lemma Left.named (h : Left d d' a P P') (hP : d.procs a = some P) : Keeps Proc.id d d' ∧ Reports d d' := by
  refine ⟨keeps_of_update hP h.procs h.same, fun m hm => ?_⟩
  rw [h.toControl] at hm
  split at hm
  · rcases mem_append.1 hm with hm | hm
    · exact .inl hm
    · cases mem_singleton.1 hm
      exact .inr ⟨P, hP, rfl⟩
  · exact .inl hm

end Dp

end Aspen.Clients
