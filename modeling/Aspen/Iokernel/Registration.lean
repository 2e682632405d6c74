import Aspen.Iokernel.Control

/-!
# Counting clients and contexts

`nr_clients` is to be the number of processes that live, and every directpath context that is allocated is
to be released once. `control_destroy_proc` counts down and releases the context of its process; it serves the
removal of a client and the failure paths of `control_add_client` alike. On the latter the client has not
been counted yet, and the context is released already, or was never allocated.
-/

namespace Aspen.Clients

open Run Function List

/-- A registration that gets as far as a process succeeds. -/
def Registers (s : Sys) : Event → Prop
  | .connect r => r.created = true → (r.hasVfioDirectpath = true → r.setup = .done) ∧ r.watched = true ∧
        s.toData.length < queueSize
  | _ => True

instance (s : Sys) (e : Event) : Decidable (Registers s e) := by
  cases e <;> dsimp only [Registers] <;> infer_instance

namespace Sys

def Counted (s : Sys) : Prop := ∃ live : List ℕ, live.Nodup ∧ (∀ a, a ∈ live ↔ (s.dp.procs a).isSome = true) ∧
    s.nrClients.toNat = live.length ∧ live.length ≤ maxProc

def Owns (s : Sys) (a c : ℕ) : Prop :=
  ∃ P, s.dp.procs a = some P ∧ P.hasVfioDirectpath = true ∧ P.directpathData = some c

/-- Each context that was allocated is with one live process, or was released once and is with none; and
nothing else was released. -/
structure Contexts (s : Sys) : Prop where
  nodup : s.released.Nodup
  known : ∀ x ∈ s.released, ∃ c < s.nextCtx, x = some c
  gone : ∀ c, some c ∈ s.released → ∀ a, ¬ s.Owns a c
  kept : ∀ c < s.nextCtx, some c ∉ s.released → ∃ a, s.Owns a c
  alone : ∀ a b c, s.Owns a c → s.Owns b c → a = b
  owns : ∀ a P, s.dp.procs a = some P → P.hasVfioDirectpath = true → ∃ c < s.nextCtx, s.Owns a c

variable {s s' : Sys}

/-! ## The dataplane does not take part -/

def context (P : Proc) : Bool × Option ℕ := (P.hasVfioDirectpath, P.directpathData)

lemma stable_context : Dp.Stable context := fun _ _ _ _ => rfl

structure SameBooks (s s' : Sys) : Prop where
  procs : Dp.Keeps context s.dp s'.dp
  nrClients : s'.nrClients = s.nrClients
  nextCtx : s'.nextCtx = s.nextCtx
  released : s'.released = s.released

lemma SameBooks.owns (h : SameBooks s s') (a c : ℕ) : s'.Owns a c ↔ s.Owns a c := by
  constructor
  · rintro ⟨P, hP, hv, hc⟩
    obtain ⟨P', hP', he⟩ := h.procs.of_some' hP
    cases (Prod.ext_iff.1 he)
    rename_i h1 h2
    exact ⟨P', hP', h1.trans hv, h2.trans hc⟩
  · rintro ⟨P, hP, hv, hc⟩
    obtain ⟨P', hP', he⟩ := h.procs.of_some hP
    cases (Prod.ext_iff.1 he)
    rename_i h1 h2
    exact ⟨P', hP', h1.trans hv, h2.trans hc⟩

lemma Counted.congr (h : s.Counted) (hs : SameBooks s s') : s'.Counted := by
  obtain ⟨live, hnd, hmem, hn, hle⟩ := h
  exact ⟨live, hnd, fun a => by rw [hmem a, hs.procs.isSome a], by rw [hs.nrClients, hn], hle⟩

lemma Contexts.congr (h : s.Contexts) (hs : SameBooks s s') : s'.Contexts where
  nodup := hs.released ▸ h.nodup
  known := fun x => by rw [hs.released, hs.nextCtx]; exact h.known x
  gone := fun c hc a => by
    rw [hs.released] at hc
    rw [hs.owns]
    exact h.gone c hc a
  kept := fun c hc hr => by
    rw [hs.nextCtx] at hc
    rw [hs.released] at hr
    obtain ⟨a, ha⟩ := h.kept c hc hr
    exact ⟨a, (hs.owns a c).2 ha⟩
  alone := fun a b c ha hb => h.alone a b c ((hs.owns a c).1 ha) ((hs.owns b c).1 hb)
  owns := fun a P hP hv => by
    obtain ⟨P', hP', he⟩ := hs.procs.of_some' hP
    obtain ⟨c, hc, ho⟩ := h.owns a P' hP' ((congrArg Prod.fst he).trans hv)
    exact ⟨c, hs.nextCtx ▸ hc, (hs.owns a c).2 ho⟩

/-! ## A process is freed -/

lemma Counted.destroyed (h : s.Counted) {a : ℕ} {P : Proc} (hP : s.dp.procs a = some P) :
    (s.destroyed a P).Counted := by
  obtain ⟨live, hnd, hmem, hn, hle⟩ := h
  have ha : a ∈ live := (hmem a).2 (by rw [hP]; rfl)
  have hlen := length_erase_of_mem ha
  have hpos := length_pos_of_mem ha
  refine ⟨live.erase a, hnd.erase a, fun b => ?_, ?_, ?_⟩
  · show b ∈ live.erase a ↔ (update s.dp.procs a none b).isSome
    rw [hnd.mem_erase_iff, hmem b]
    by_cases hb : b = a
    · subst hb
      rw [update_self]
      exact ⟨fun h => absurd rfl h.1, nofun⟩
    · rw [update_of_ne hb]
      exact ⟨And.right, fun h => ⟨hb, h⟩⟩
  · show (s.nrClients - 1#32).toNat = _
    rw [BitVec.toNat_sub, hlen, hn]
    have := s.nrClients.isLt
    rw [hn] at this
    simp only [BitVec.toNat_ofNat]
    omega
  · omega

lemma owns_update_none {a b c : ℕ} :
    Owns { s with dp.procs := update s.dp.procs a none } b c ↔ b ≠ a ∧ s.Owns b c := by
  unfold Owns
  dsimp only
  by_cases hb : b = a
  · subst hb
    rw [update_self]
    exact ⟨fun ⟨_, h, _⟩ => (nomatch h), fun h => absurd rfl h.1⟩
  · rw [update_of_ne hb]
    exact ⟨fun h => ⟨hb, h⟩, And.right⟩

lemma Contexts.destroyed (h : s.Contexts) {a : ℕ} {P : Proc} (hP : s.dp.procs a = some P) :
    (s.destroyed a P).Contexts := by
  have howns : ∀ b c, (s.destroyed a P).Owns b c ↔ b ≠ a ∧ s.Owns b c := fun b c => owns_update_none
  have halone : ∀ b b' c, (s.destroyed a P).Owns b c → (s.destroyed a P).Owns b' c → b = b' :=
    fun b b' c hb hb' => h.alone b b' c ((howns b c).1 hb).2 ((howns b' c).1 hb').2
  have howned : ∀ b Q, update s.dp.procs a none b = some Q → Q.hasVfioDirectpath = true →
      ∃ c < s.nextCtx, (s.destroyed a P).Owns b c := by
    intro b Q hQ hvQ
    by_cases hb : b = a
    · subst hb
      rw [update_self] at hQ
      cases hQ
    · rw [update_of_ne hb] at hQ
      obtain ⟨c, hc, ho⟩ := h.owns b Q hQ hvQ
      exact ⟨c, hc, (howns b c).2 ⟨hb, ho⟩⟩
  unfold Sys.destroyed at howns halone howned ⊢
  cases hv : P.hasVfioDirectpath with
  | false =>
    have hnot : ∀ c, ¬ s.Owns a c := by
      rintro c ⟨P', hP', hv', -⟩
      cases hP.symm.trans hP'
      rw [hv] at hv'
      cases hv'
    have hiff : ∀ b c, b ≠ a ∧ s.Owns b c ↔ s.Owns b c := fun b c =>
      ⟨And.right, fun ho => ⟨fun he => hnot c (he ▸ ho), ho⟩⟩
    exact {
      nodup := h.nodup
      known := h.known
      gone := fun c hc b hb => h.gone c hc b ((howns b c).1 hb).2
      kept := fun c hc hr => by
        obtain ⟨b, hb⟩ := h.kept c hc hr
        exact ⟨b, (howns b c).2 ((hiff b c).2 hb)⟩
      alone := halone
      owns := howned }
  | true =>
    obtain ⟨c0, hc0, P', hP', -, hdata⟩ := h.owns a P hP hv
    cases hP.symm.trans hP'
    have hown : s.Owns a c0 := ⟨P, hP, hv, hdata⟩
    have hfresh : some c0 ∉ s.released := fun hr => h.gone c0 hr a hown
    simp only [hv, if_true, hdata] at howns halone howned ⊢
    exact {
      nodup := nodup_cons.2 ⟨hfresh, h.nodup⟩
      known := fun x hx => by
        rcases mem_cons.1 hx with rfl | hx
        · exact ⟨c0, hc0, rfl⟩
        · exact h.known x hx
      gone := fun c hc b hb => by
        obtain ⟨hne, hb⟩ := (howns b c).1 hb
        rcases mem_cons.1 hc with hc | hc
        · cases hc
          exact hne (h.alone b a c0 hb hown)
        · exact h.gone c hc b hb
      kept := fun c hc hr => by
        rw [mem_cons, not_or] at hr
        obtain ⟨b, hb⟩ := h.kept c hc hr.2
        refine ⟨b, (howns b c).2 ⟨fun he => hr.1 ?_, hb⟩⟩
        subst he
        obtain ⟨P', hP', -, hc'⟩ := hb
        cases hP.symm.trans hP'
        exact hc'.symm.trans hdata
      alone := halone
      owns := howned }

/-! ## A process joins -/

lemma Counted.join (h : s.Counted) {r : Request} (hlt : s.nrClients.toNat < maxProc)
    (hfree : s.dp.procs r.addr = none) : (s.join r).Counted := by
  obtain ⟨live, hnd, hmem, hn, hle⟩ := h
  have ha : r.addr ∉ live := by
    rw [hmem, hfree]
    exact nofun
  refine ⟨r.addr :: live, nodup_cons.2 ⟨ha, hnd⟩, fun b => ?_, ?_, ?_⟩
  · show _ ↔ (update s.dp.procs r.addr _ b).isSome
    rw [mem_cons, hmem b]
    by_cases hb : b = r.addr
    · subst hb
      rw [update_self]
      exact ⟨fun _ => rfl, fun _ => .inl rfl⟩
    · rw [update_of_ne hb, or_iff_right hb]
  · show (s.nrClients + 1#32).toNat = live.length + 1
    rw [BitVec.toNat_add, hn]
    have hmax : maxProc < 2 ^ 32 - 1 := by decide
    simp only [BitVec.toNat_ofNat]
    omega
  · rw [hn] at hlt
    exact hlt

lemma owns_join {r : Request} (hfree : s.dp.procs r.addr = none) {b c : ℕ} : (s.join r).Owns b c ↔
      s.Owns b c ∨ b = r.addr ∧ r.hasVfioDirectpath ∧ c = s.nextCtx := by
  show (∃ P, update s.dp.procs r.addr _ b = some P ∧ _) ↔ _
  by_cases hb : b = r.addr
  · subst hb
    rw [update_self]
    have hnot : ¬ s.Owns r.addr c := fun ⟨_, hP, _⟩ => nomatch hfree.symm.trans hP
    constructor
    · rintro ⟨P, ⟨⟩, hv, hc⟩
      rw [if_pos hv] at hc
      exact .inr ⟨rfl, hv, (Option.some.inj hc).symm⟩
    · rintro (ho | ⟨-, hv, rfl⟩)
      · exact absurd ho hnot
      · exact ⟨_, rfl, hv, if_pos hv⟩
  · rw [update_of_ne hb, or_iff_left fun h => hb h.1]
    rfl

lemma Contexts.join (h : s.Contexts) {r : Request} (hfree : s.dp.procs r.addr = none) : (s.join r).Contexts := by
  have hlt : ∀ b c, s.Owns b c → c < s.nextCtx := by
    rintro b c ⟨P, hP, hv, hc⟩
    obtain ⟨c', hc', P', hP', -, hd⟩ := h.owns b P hP hv
    cases hP.symm.trans hP'
    cases hc.symm.trans hd
    exact hc'
  have hle : s.nextCtx ≤ (s.join r).nextCtx := by
    show _ ≤ if _ then _ else _
    split
    · exact Nat.le_succ _
    · exact Nat.le_refl _
  constructor
  · exact h.nodup
  · intro x hx
    obtain ⟨c, hc, he⟩ := h.known x hx
    exact ⟨c, Nat.lt_of_lt_of_le hc hle, he⟩
  · intro c hc b hb
    rcases (owns_join hfree).1 hb with hb | ⟨-, -, rfl⟩
    · exact h.gone c hc b hb
    · obtain ⟨c', hc', he⟩ := h.known _ hc
      cases he
      exact absurd hc' (Nat.lt_irrefl _)
  · intro c hc hr
    by_cases hold : c < s.nextCtx
    · obtain ⟨b, hb⟩ := h.kept c hold hr
      exact ⟨b, (owns_join hfree).2 (.inl hb)⟩
    · refine ⟨r.addr, (owns_join hfree).2 (.inr ⟨rfl, ?_⟩)⟩
      change c < if r.hasVfioDirectpath = true then _ else _ at hc
      split at hc
      · rename_i hv
        exact ⟨hv, Nat.le_antisymm (Nat.le_of_lt_succ hc) (Nat.not_lt.1 hold)⟩
      · exact absurd hc hold
  · intro b b' c hb hb'
    rcases (owns_join hfree).1 hb with hb | ⟨rfl, -, rfl⟩ <;>
      rcases (owns_join hfree).1 hb' with hb' | ⟨rfl, -, hc'⟩
    · exact h.alone b b' c hb hb'
    · subst hc'
      exact absurd (hlt _ _ hb) (Nat.lt_irrefl _)
    · exact absurd (hlt _ _ hb') (Nat.lt_irrefl _)
    · rfl
  · intro b P hP hv
    change update s.dp.procs r.addr _ b = some P at hP
    by_cases hb : b = r.addr
    · subst hb
      rw [update_self] at hP
      cases hP
      refine ⟨s.nextCtx, ?_, (owns_join hfree).2 (.inr ⟨rfl, hv, rfl⟩)⟩
      show s.nextCtx < if _ then _ else _
      rw [if_pos hv]
      exact Nat.lt_succ_self _
    · rw [update_of_ne hb] at hP
      obtain ⟨c, hc, ho⟩ := h.owns b P hP hv
      exact ⟨c, Nat.lt_of_lt_of_le hc hle, (owns_join hfree).2 (.inl ho)⟩

/-! ## Runs -/

lemma sameBooks_step {e : Event} (hc : ∀ r, e ≠ .connect r) (hr : e ≠ .recv)
    (hs : step s e = .ok s') : SameBooks s s' := by
  cases e with
  | connect r => exact absurd rfl (hc r)
  | recv => exact absurd rfl hr
  | hangup w =>
    obtain ⟨-, hs⟩ := guard_eq_ok.1 hs
    obtain ⟨P, -, _, rfl, rfl | rfl⟩ := instructRemove_comes.of_ok hs
    all_goals exact ⟨Dp.keeps_modify fun _ => rfl, rfl, rfl, rfl⟩
  | handle env =>
    change s.handle env = .ok s' at hs
    unfold Sys.handle at hs
    split at hs
    · cases hs
    · split at hs
      · rename_i hadd
        cases hs
        exact ⟨Dp.keeps_addClient stable_context hadd, rfl, rfl, rfl⟩
      · cases hs
    · split at hs
      · rename_i hrem
        cases hs
        exact ⟨Dp.keeps_removeClient stable_context hrem, rfl, rfl, rfl⟩
      · cases hs
  | get a =>
    obtain ⟨-, he⟩ := guard_eq_ok.1 hs
    cases he
    exact ⟨Dp.keeps_get stable_context, rfl, rfl, rfl⟩
  | put a =>
    obtain ⟨-, he⟩ := guard_eq_ok.1 hs
    cases he
    exact ⟨fun b => Dp.keeps_put stable_context b, rfl, rfl, rfl⟩

lemma books_step {e : Event} (h : s.Counted ∧ s.Contexts) (hok : Registers s e)
    (hs : step s e = .ok s') : s'.Counted ∧ s'.Contexts := by
  by_cases hr : e = .recv
  · subst hr
    obtain ⟨m, rest, P, -, hP, rfl⟩ := recv_comes.of_ok hs
    have hsame : SameBooks s { s with
        dp.toControl := rest
        epoll := if P.removed then s.epoll else (s.unwatch P.controlFd).epoll } :=
      ⟨.refl _, rfl, rfl, rfl⟩
    exact ⟨(h.1.congr hsame).destroyed hP, (h.2.congr hsame).destroyed hP⟩
  · cases e with
    | connect r =>
      rcases addClient_comes.of_ok hs with rfl | ⟨⟨hc, hlt, hfree, -⟩, ⟨hn, -⟩ | ⟨-, rfl⟩⟩
      · exact h
      · exact absurd (hok hc) hn
      · exact ⟨h.1.join hlt hfree, h.2.join hfree⟩
    | recv => exact absurd rfl hr
    | hangup _ | handle _ | get _ | put _ =>
      have hsame : SameBooks s s' := by
        refine sameBooks_step ?_ ?_ hs <;> exact nofun
      exact ⟨h.1.congr hsame, h.2.congr hsame⟩

end Sys

lemma books_of_reaches {s : Sys} (h : Reaches step Registers (· = Sys.init) s) : s.Counted ∧ s.Contexts := by
  refine h.invariant (I := fun s => s.Counted ∧ s.Contexts) ?_ fun s e s' h hok hs =>
    Sys.books_step h hok hs
  rintro s rfl
  refine ⟨⟨[], nodup_nil, fun a => ⟨nofun, nofun⟩, rfl, Nat.zero_le _⟩, ?_⟩
  exact ⟨nodup_nil, nofun, nofun, nofun, fun _ _ _ ⟨_, h, _⟩ => (nomatch h), nofun⟩

/-- In every run in which a registration fails only before the process is made: `nr_clients` is the number of live
processes, and each directpath context is with a live process or was released once; a further registration changes
nothing or ends with the client announced. -/
theorem registrations_counted {s : Sys} (h : Reaches step Registers (· = Sys.init) s) :
    s.Counted ∧ s.Contexts ∧
      ∀ r s', Registers s (.connect r) → step s (.connect r) = .ok s' → s' = s ∨ s' = s.join r := by
  obtain ⟨hn, hc⟩ := books_of_reaches h
  refine ⟨hn, hc, fun r s' hok hs => ?_⟩
  rcases Sys.addClient_comes.of_ok hs with rfl | ⟨⟨hcr, -⟩, ⟨hf, -⟩ | ⟨-, rfl⟩⟩
  · exact .inl rfl
  · exact absurd (hok hcr) hf
  · exact .inr rfl

def vfioRequest : Request :=
  { fd := 7, ip := 0xa000001#32, hasDirectpath := true, hasVfioDirectpath := true, created := true,
    addr := 1, setup := .done, watched := true }

theorem registrations_counted_hangup :
    ∃ s, Reaches step Registers (· = Sys.init) s ∧ s.freed = [0] ∧ s.released = [some 0] ∧
      s.Counted ∧ s.Contexts := by
  refine Reaches.of_exec_imp (s := .init) (P := fun s => s.freed = [0] ∧ s.released = [some 0])
    [.connect vfioRequest, .handle ⟨true, true, true, true, true⟩, .hangup ⟨7, 1⟩,
        .handle ⟨true, true, true, true, true⟩, .recv] rfl (by decide) (by decide) ?_
  rintro s h ⟨hf, hr⟩
  exact ⟨hf, hr, (registrations_counted h).1, (registrations_counted h).2.1⟩

/-- A client whose descriptors cannot be passed makes `nr_clients` wrap and has its context released twice; every
later client is turned away. One for which no context can be allocated has none released all the same. -/
theorem failed_registration_counted :
    (∃ s, Reaches step (fun _ _ => True) (· = Sys.init) s ∧ s.nrClients = 0xffffffff#32 ∧
      s.released = [some 0, some 0] ∧ s.freed = [0] ∧ s.nextProc = 1 ∧
      ∀ r, step s (.connect r) = .ok s) ∧
    ∃ s, Reaches step (fun _ _ => True) (· = Sys.init) s ∧ s.nextCtx = 0 ∧
      s.released = [none, none] := by
  constructor
  · obtain ⟨s, h, hn, hrest⟩ := reached step (· = Sys.init) (s := .init) (P := fun s =>
        s.nrClients = 0xffffffff#32 ∧ s.released = [some 0, some 0] ∧ s.freed = [0] ∧
        s.nextProc = 1) [.connect { vfioRequest with setup := .notPassed }] rfl (by decide)
    refine ⟨s, h, hn, hrest.1, hrest.2.1, hrest.2.2, fun r => if_pos (.inl ?_)⟩
    rw [hn]
    decide
  · exact Reaches.of_exec (s := .init) [.connect { vfioRequest with setup := .noContext }] rfl
      (allowed_true _ _) (by decide)

end Aspen.Clients
