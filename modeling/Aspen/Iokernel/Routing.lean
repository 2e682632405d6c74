import Aspen.Iokernel.Dataplane

/-!
# Routing by IP address

The hash table `dp.ip_to_proc` is to map the address of each client to that client, and nothing else. A failed
`dp_clients_add_client` is undone by `dp_clients_remove_client`, which deletes the key of the process it
removes whether or not the failed call had entered it. That is harmless unless the key is another
client's, which is so when the call failed *because* of that.
-/

namespace Aspen.Clients

open Run Function

namespace Dp

variable {d d' : Dp} {a : ℕ}

def ipOf (d : Dp) (a : ℕ) : Option (BitVec 32) := (d.procs a).map Proc.ip

structure Routed (d : Dp) : Prop where
  nodup : d.clients.Nodup
  exact : ∀ ip b, d.ipToProc ip = some b ↔ b ∈ d.clients ∧ d.ipOf b = some ip

structure RoutedBut (d : Dp) (a : ℕ) : Prop where
  nodup : d.clients.Nodup
  exact : ∀ ip b, b ≠ a → (d.ipToProc ip = some b ↔ b ∈ d.clients ∧ d.ipOf b = some ip)
  own : ∀ ip, d.ipToProc ip = some a → d.ipOf a = some ip
  alone : ∀ ip b, d.ipOf a = some ip → d.ipToProc ip = some b → b = a

lemma Routed.but (h : d.Routed) (ha : a ∈ d.clients) : d.RoutedBut a where
  nodup := h.nodup
  exact := fun ip b _ => h.exact ip b
  own := fun ip he => ((h.exact ip a).1 he).2
  alone := fun ip b hip he => by
    have := (h.exact ip a).2 ⟨ha, hip⟩
    rw [he] at this
    exact Option.some.inj this

/-! ## What does not touch the table -/

structure SameRoutes (d d' : Dp) : Prop where
  clients : d'.clients = d.clients
  ipToProc : d'.ipToProc = d.ipToProc
  ipOf : Keeps Proc.ip d d'

lemma SameRoutes.refl (d : Dp) : SameRoutes d d := ⟨rfl, rfl, fun _ => rfl⟩

lemma SameRoutes.trans {d1 d2 d3 : Dp} (h : SameRoutes d1 d2) (h' : SameRoutes d2 d3) : SameRoutes d1 d3 :=
  ⟨h'.clients.trans h.clients, h'.ipToProc.trans h.ipToProc, fun b => (h'.ipOf b).trans (h.ipOf b)⟩

lemma Routed.congr (h : d.Routed) (hs : SameRoutes d d') : d'.Routed where
  nodup := hs.clients ▸ h.nodup
  exact := fun ip b => by rw [hs.clients, hs.ipToProc, ipOf, hs.ipOf]; exact h.exact ip b

lemma RoutedBut.congr (h : d.RoutedBut a) (hs : SameRoutes d d') : d'.RoutedBut a where
  nodup := hs.clients ▸ h.nodup
  exact := fun ip b hb => by rw [hs.clients, hs.ipToProc, ipOf, hs.ipOf]; exact h.exact ip b hb
  own := fun ip => by rw [hs.ipToProc, ipOf, hs.ipOf]; exact h.own ip
  alone := fun ip b => by rw [hs.ipToProc, ipOf, hs.ipOf]; exact h.alone ip b

lemma stable_ip : Stable Proc.ip := fun _ _ _ _ => rfl

lemma sameRoutes_modify {f : Proc → Proc} (hf : ∀ P, (f P).ip = P.ip) :
    SameRoutes d (d.modify a f) := ⟨rfl, rfl, keeps_modify hf⟩

lemma sameRoutes_markFailed : SameRoutes d (d.markFailed a) := sameRoutes_modify fun _ => rfl

lemma sameRoutes_runCommands (queued : Bool) : SameRoutes d (d.runCommands a queued) := by
  unfold runCommands
  split
  · exact .refl d
  · exact ⟨rfl, rfl, keeps_get stable_ip⟩

lemma sameRoutes_release (P : Proc) : SameRoutes d (d.release a P) := by
  unfold release
  split
  · exact ⟨rfl, rfl, fun _ => rfl⟩
  · exact .refl d

lemma sameRoutes_put : SameRoutes d (d.put a) := by
  unfold put
  split
  · exact .refl d
  · rename_i P hP
    have hm : SameRoutes d (d.modify a fun P => { P with ref := P.ref - 1 }) := sameRoutes_modify fun _ => rfl
    split
    · exact hm.trans (sameRoutes_release P)
    · exact hm

lemma sameRoutes_unregister (P : Proc) : SameRoutes d (d.unregister a P) := by
  unfold unregister
  split
  · exact ⟨rfl, rfl, fun _ => rfl⟩
  · exact .refl d

lemma sameRoutes_notifyKill (P : Proc) (queued : Bool) : SameRoutes d (d.notifyKill a P queued) := by
  have hm : SameRoutes d (d.modify a fun P => { P with kill := true }) := sameRoutes_modify fun _ => rfl
  unfold notifyKill
  split
  · exact hm.trans (sameRoutes_runCommands queued)
  · exact hm

lemma sameRoutes_register (P : Proc) : SameRoutes d (d.register a P) := by
  unfold register
  split
  · exact .refl d
  · exact ⟨rfl, rfl, fun _ => rfl⟩

/-! ## Removing and adding -/

lemma RoutedBut.unlink (h : d.RoutedBut a) (ha : a ∈ d.clients) {P : Proc}
    (hP : d.procs a = some P) : (d.unlink a P).Routed where
  nodup := nodup_swapRemove h.nodup ha
  exact := fun ip b => by
    have hip : d.ipOf a = some P.ip := by rw [ipOf, hP]; rfl
    show update d.ipToProc P.ip none ip = some b ↔ b ∈ swapRemove d.clients a ∧ d.ipOf b = some ip
    rw [mem_swapRemove h.nodup ha]
    by_cases hi : ip = P.ip
    · subst hi
      rw [update_self]
      constructor
      · exact nofun
      · rintro ⟨⟨hb, hne⟩, hipb⟩
        exact absurd (h.alone _ b hip ((h.exact _ b hne).2 ⟨hb, hipb⟩)) hne
    · rw [update_of_ne hi]
      by_cases hb : b = a
      · subst hb
        constructor
        · intro he
          exact absurd (Option.some.inj ((h.own _ he).symm.trans hip)) hi
        · exact fun hb => absurd rfl hb.1.2
      · rw [h.exact ip b hb]
        exact ⟨fun hm => ⟨⟨hm.1, hb⟩, hm.2⟩, fun hm => ⟨hm.1.1, hm.2⟩⟩

lemma RoutedBut.removeClient (h : d.RoutedBut a) (ha : a ∈ d.clients) {queued : Bool}
    (hs : d.removeClient a queued = .ok d') : d'.Routed := by
  unfold Dp.removeClient at hs
  rw [if_neg (not_not_intro ha)] at hs
  cases hP : d.procs a with
  | none =>
    rw [hP] at hs
    cases hs
  | some P =>
    rw [hP] at hs
    cases hs
    exact (((h.unlink ha hP).congr (sameRoutes_unregister P)).congr
      (sameRoutes_notifyKill P queued)).congr sameRoutes_put

lemma Routed.removeClient (h : d.Routed) {queued : Bool}
    (hs : d.removeClient a queued = .ok d') : d'.Routed := by
  by_cases ha : a ∈ d.clients
  · exact (h.but ha).removeClient ha hs
  · rw [Dp.removeClient, if_pos ha] at hs
    cases hs
    exact h

lemma RoutedBut.failAdd (h : d.RoutedBut a) (ha : a ∈ d.clients) {queued : Bool}
    (hs : d.failAdd a queued = .ok d') : d'.Routed :=
  (h.congr sameRoutes_markFailed).removeClient ha hs

def FreshIp (d : Dp) (a : ℕ) : Prop := ∀ b ∈ d.clients, d.ipOf b ≠ d.ipOf a
deriving Decidable

lemma Routed.attach (h : d.Routed) (hf : d.FreshIp a) :
    (d.attach a).RoutedBut a ∧ ∀ ip, d.ipOf a = some ip → d.ipToProc ip = none := by
  have hnone : ∀ ip, d.ipOf a = some ip → d.ipToProc ip = none := by
    intro ip hip
    cases he : d.ipToProc ip with
    | none => rfl
    | some b =>
      obtain ⟨hb, hipb⟩ := (h.exact ip b).1 he
      exact absurd (hipb.trans hip.symm) (hf b hb)
  have ha : a ∉ d.clients := fun hm => hf a hm rfl
  have hip : ∀ b, (d.attach a).ipOf b = d.ipOf b := keeps_attach stable_ip
  refine ⟨⟨?_, ?_, ?_, ?_⟩, hnone⟩
  · exact (List.perm_append_singleton a d.clients).nodup_iff.2 (List.nodup_cons.2 ⟨ha, h.nodup⟩)
  · intro ip b hb
    rw [hip b]
    show d.ipToProc ip = some b ↔ b ∈ d.clients ++ [a] ∧ _
    rw [h.exact ip b, List.mem_append, List.mem_singleton, or_iff_left hb]
  · intro ip he
    exact absurd ((h.exact ip a).1 he).1 ha
  · intro ip b hipa he
    rw [hip a] at hipa
    exact absurd he (by rw [show (d.attach a).ipToProc = d.ipToProc from rfl, hnone ip hipa]; nofun)

lemma RoutedBut.insert (h : d.RoutedBut a) (ha : a ∈ d.clients) {P : Proc}
    (hP : d.procs a = some P) (hnone : d.ipToProc P.ip = none) :
    { d with ipToProc := update d.ipToProc P.ip (some a) }.Routed where
  nodup := h.nodup
  exact := fun ip b => by
    have hip : d.ipOf a = some P.ip := by rw [ipOf, hP]; rfl
    show update d.ipToProc P.ip (some a) ip = some b ↔ b ∈ d.clients ∧ d.ipOf b = some ip
    by_cases hi : ip = P.ip
    · subst hi
      rw [update_self]
      constructor
      · rintro ⟨⟩
        exact ⟨ha, hip⟩
      · rintro ⟨hb, hipb⟩
        by_cases hba : b = a
        · rw [hba]
        · have he := (h.exact _ b hba).2 ⟨hb, hipb⟩
          rw [hnone] at he
          cases he
    · rw [update_of_ne hi]
      by_cases hb : b = a
      · subst hb
        constructor
        · intro he
          exact ⟨ha, h.own _ he⟩
        · rintro ⟨-, hipb⟩
          exact absurd (Option.some.inj (hipb.symm.trans hip)) hi
      · exact h.exact ip b hb

lemma Routed.addClient (h : d.Routed) (hf : d.FreshIp a) {env : AddEnv}
    (hs : d.addClient a env = .ok d') : d'.Routed := by
  unfold Dp.addClient at hs
  cases hP : d.procs a with
  | none =>
    rw [hP] at hs
    cases hs
  | some P =>
    rw [hP] at hs
    dsimp only at hs
    split at hs
    · cases hs
      exact (h.congr sameRoutes_markFailed).congr sameRoutes_put
    obtain ⟨hbut, hnone⟩ := h.attach hf
    have hmem : a ∈ (d.attach a).clients := List.mem_append_right _ (.head _)
    have hP' : (d.attach a).procs a = some { P with kill := false } := by
      show update d.procs a _ a = _
      rw [update_self, hP]
      rfl
    have hfree : (d.attach a).ipToProc P.ip = none := hnone _ (by rw [ipOf, hP]; rfl)
    rw [hfree, if_neg (by decide)] at hs
    split at hs
    · exact hbut.failAdd hmem hs
    have hrouted := hbut.insert hmem hP' hfree
    split at hs
    · exact (hrouted.but hmem).failAdd hmem hs
    split at hs
    · have hbut' : RoutedBut { d.attach a with
          ipToProc := update (d.attach a).ipToProc P.ip (some a)
          extmem := (a :: (d.attach a).extmem).erase a } a :=
        (hrouted.but hmem).congr ⟨rfl, rfl, fun _ => rfl⟩
      exact hbut'.failAdd hmem hs
    cases hs
    split
    · exact (hrouted.congr (sameRoutes_register P)).congr (sameRoutes_runCommands _)
    · exact hrouted.congr (sameRoutes_register P)

end Dp

/-! ## Sequences of commands -/

inductive Command
  | add (a : ℕ) (env : AddEnv)
  | remove (a : ℕ) (queued : Bool)
  /-- the control plane makes a process, where no client lives -/
  | create (a : ℕ) (P : Proc)

def Dp.command (d : Dp) : Command → Except Stop Dp
  | .add a env => d.addClient a env
  | .remove a queued => d.removeClient a queued
  | .create a P =>
    if a ∉ d.clients then .ok { d with procs := update d.procs a (some P) }
    else .error .blocked

def Dp.init : Dp := ⟨fun _ => none, [], fun _ => none, [], [], [], []⟩

def AddsFresh (d : Dp) : Command → Prop
  | .add a _ => d.FreshIp a
  | _ => True

instance (d : Dp) (c : Command) : Decidable (AddsFresh d c) := by
  cases c <;> dsimp only [AddsFresh] <;> infer_instance

lemma Dp.Routed.command {d d' : Dp} (h : d.Routed) (c : Command) (hok : AddsFresh d c)
    (hs : d.command c = .ok d') : d'.Routed := by
  cases c with
  | add a env => exact h.addClient hok hs
  | remove a queued => exact h.removeClient hs
  | create a P =>
    obtain ⟨ha, he⟩ := guard_eq_ok.1 hs
    cases he
    refine ⟨h.nodup, fun ip b => ?_⟩
    refine (h.exact ip b).trans (and_congr_right fun hb => ?_)
    have hne : b ≠ a := fun he => ha (he ▸ hb)
    show (d.procs b).map Proc.ip = _ ↔ (update d.procs a (some P) b).map Proc.ip = _
    rw [update_of_ne hne]

/-- In every sequence of commands that adds no process with an address of a client, whatever fails, the table
maps the address of each client to that client and nothing else. -/
theorem routes_exact {d : Dp} (h : Reaches Dp.command AddsFresh (· = Dp.init) d) :
    ∀ ip a, d.ipToProc ip = some a ↔ a ∈ d.clients ∧ ∃ P, d.procs a = some P ∧ P.ip = ip := by
  have hr : d.Routed := h.invariant (fun d hd => hd ▸ ⟨List.nodup_nil, fun _ _ => ⟨nofun, fun h => nomatch h.1⟩⟩)
    fun _ c _ h hok hs => h.command c hok hs
  intro ip a
  rw [hr.exact ip a, Dp.ipOf, Option.map_eq_some_iff]

def Proc.fresh (ip : BitVec 32) : Proc :=
  { ip := ip, hasDirectpath := false, hasVfioDirectpath := false, kill := false, attachFail := false,
    removed := false, ref := 1, controlFd := 0, directpathData := none, id := 0 }

theorem routes_exact_unmapped :
    ∃ d, Reaches Dp.command AddsFresh (· = Dp.init) d ∧ d.clients = [1] ∧
      d.ipToProc 0xa000001#32 = some 1 ∧ ∀ a, d.ipToProc 0xa000002#32 ≠ some a := by
  obtain ⟨d, h, hc, h1⟩ : ∃ d : Dp, Reaches Dp.command AddsFresh (· = Dp.init) d ∧
      d.clients = [1] ∧ (d.ipToProc 0xa000001#32 = some 1 ∧ d.procs 1 = some (.fresh 0xa000001#32)) :=
    Reaches.of_exec (s := .init)
      [.create 1 (.fresh 0xa000001#32), .add 1 .success, .create 2 (.fresh 0xa000002#32),
        .add 2 { AddEnv.success with map := false }] rfl (by decide) (by decide)
  refine ⟨d, h, hc, h1.1, fun a ha => ?_⟩
  obtain ⟨hm, P, hP, hip⟩ := (routes_exact h _ a).1 ha
  rw [hc, List.mem_singleton] at hm
  subst hm
  rw [h1.2] at hP
  cases hP
  cases hip

/-- A second process with the address of a client is turned away, and takes the client's route with it. -/
theorem duplicate_unroutes :
    ∃ d, Reaches Dp.command (fun _ _ => True) (· = Dp.init) d ∧ d.clients = [1] ∧
      d.procs 1 = some (.fresh 0xa000001#32) ∧ d.ipToProc 0xa000001#32 = none :=
  Reaches.of_exec (s := .init)
    [.create 1 (.fresh 0xa000001#32), .add 1 .success, .create 2 (.fresh 0xa000001#32),
      .add 2 .success] rfl (allowed_true _ _) (by decide)

end Aspen.Clients
