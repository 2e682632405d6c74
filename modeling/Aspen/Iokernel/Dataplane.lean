import Aspen.Lib.Dense
import Aspen.Lib.Run

/-!
# The clients of the dataplane

The dataplane thread of the iokernel serves the processes the control plane tells it about. Adding a client
attaches it to the scheduler, enters its IP address in the hash table by which incoming packets are routed, and
registers its memory with the network card; each of these can fail, and falls back on
`dp_clients_remove_client`. `proc_release` hands a process back when its last reference is dropped.
-/

namespace Aspen.Clients

open Function

/-- The part of `struct proc` that the two planes use. -/
structure Proc where
  ip : BitVec 32
  hasDirectpath : Bool
  hasVfioDirectpath : Bool
  kill : Bool
  attachFail : Bool
  removed : Bool
  ref : ℕ
  controlFd : ℕ
  directpathData : Option ℕ
  /-- which of the processes ever created this is -/
  id : ℕ
  deriving DecidableEq

/-- A message names a process by its address. -/
structure Msg where
  addr : ℕ
  /-- the process that lived there when the message was sent -/
  proc : ℕ
  deriving DecidableEq

def queueSize : ℕ := 2048

inductive Stop
  | blocked
  /-- a process is read after it was freed -/
  | useAfterFree

structure Dp where
  procs : ℕ → Option Proc
  /-- `dp.clients`, up to `dp.nr_clients` -/
  clients : List ℕ
  ipToProc : BitVec 32 → Option ℕ
  /-- regions known to `rte_extmem_register` -/
  extmem : List ℕ
  /-- regions mapped by `rte_dev_dma_map` -/
  dma : List ℕ
  /-- references held by cores, polled threads, packets and directpath commands -/
  holders : List ℕ
  toControl : List Msg

structure AddEnv where
  attach : Bool
  insert : Bool
  register : Bool
  map : Bool
  /-- the directpath context is queued for a command already -/
  queued : Bool
  deriving DecidableEq

def AddEnv.success : AddEnv := ⟨true, true, true, true, false⟩

namespace Dp

variable (d : Dp) (a : ℕ)

variable (P : Proc) (queued : Bool)

def modify (f : Proc → Proc) : Dp := { d with procs := update d.procs a ((d.procs a).map f) }

def get : Dp := { d.modify a fun P => { P with ref := P.ref + 1 } with holders := a :: d.holders }

/-- `proc_release`: the message is dropped, with a line in the log, when the channel is full -/
def release : Dp := if d.toControl.length < queueSize then { d with toControl := d.toControl ++ [⟨a, P.id⟩] } else d

def put : Dp :=
  match d.procs a with
  | none => d
  | some P =>
    let d := d.modify a fun P => { P with ref := P.ref - 1 }
    if P.ref = 1 then d.release a P else d

/-- `directpath_run_commands`; a context that is queued already has its reference -/
def runCommands : Dp := if queued then d else d.get a

/-- `dp_clients_remove_client`: the array and the hash table -/
def unlink : Dp :=
  { d with
    clients := swapRemove d.clients a
    ipToProc := update d.ipToProc P.ip none }

/-- `dp_clients_remove_client`: the memory; a failed add has left none registered -/
def unregister : Dp :=
  if !P.hasDirectpath && !P.attachFail then
    { d with dma := d.dma.erase a, extmem := d.extmem.erase a }
  else d

/-- `dp_clients_remove_client`: the process is marked, and directpath told -/
def notifyKill : Dp := let d := d.modify a fun P => { P with kill := true }
  if P.hasVfioDirectpath then d.runCommands a queued else d

/-- `dp_clients_remove_client`; what is searched for is a pointer, and only a client is looked at -/
def removeClient : Except Stop Dp := if a ∉ d.clients then .ok d
  else match d.procs a with
  | none => .error .useAfterFree
  | some P => .ok ((((d.unlink a P).unregister a P).notifyKill a P queued).put a)

def markFailed : Dp := d.modify a fun P => { P with attachFail := true }

/-- The label `fail` of `dp_clients_add_client`. -/
def failAdd : Except Stop Dp := (d.markFailed a).removeClient a queued

/-- `dp_clients_add_client`: the client is attached -/
def attach : Dp := { d.modify a fun P => { P with kill := false } with clients := d.clients ++ [a] }

/-- `dp_clients_add_client`: memory is registered unless the process drives the card itself -/
def register : Dp := if P.hasDirectpath then d else { d with extmem := a :: d.extmem, dma := a :: d.dma }

def addClient (env : AddEnv) : Except Stop Dp :=
  match d.procs a with
  | none => .error .useAfterFree
  | some P =>
    if !env.attach then .ok ((d.markFailed a).put a)
    else
      let d := d.attach a
      if (d.ipToProc P.ip).isSome then d.failAdd a env.queued
      else if !env.insert then d.failAdd a env.queued
      else
        let d := { d with ipToProc := update d.ipToProc P.ip (some a) }
        if !P.hasDirectpath && !env.register then d.failAdd a env.queued
        else if !P.hasDirectpath && !env.map then
          -- `fail_extmem` takes back the registration that has just been made
          { d with extmem := (a :: d.extmem).erase a }.failAdd a env.queued
        else
          let d := d.register a P
          .ok (if P.hasVfioDirectpath then d.runCommands a env.queued else d)

/-! ## What the dataplane does not write

Of a process the dataplane writes `kill`, `attachFail` and `ref` only. -/

def Stable {β : Type} (v : Proc → β) : Prop :=
  ∀ P kill attachFail ref, v { P with kill := kill, attachFail := attachFail, ref := ref } = v P

def Keeps {β : Type} (v : Proc → β) (d d' : Dp) : Prop := ∀ b, (d'.procs b).map v = (d.procs b).map v

section Keeps

variable {β : Type} {v : Proc → β} {d d' : Dp} {a : ℕ}

lemma Keeps.refl (d : Dp) : Keeps v d d := fun _ => rfl

lemma Keeps.trans {d1 d2 d3 : Dp} (h : Keeps v d1 d2) (h' : Keeps v d2 d3) : Keeps v d1 d3 :=
  fun b => (h' b).trans (h b)

lemma Keeps.of_some (h : Keeps v d d') {P : Proc} (hP : d.procs a = some P) :
    ∃ P', d'.procs a = some P' ∧ v P' = v P :=
  Option.map_eq_some_iff.1 ((h a).trans (by rw [hP]; rfl))

lemma Keeps.of_some' (h : Keeps v d d') {P : Proc} (hP : d'.procs a = some P) :
    ∃ P', d.procs a = some P' ∧ v P' = v P :=
  Option.map_eq_some_iff.1 ((h a).symm.trans (by rw [hP]; rfl))

lemma Keeps.isSome (h : Keeps v d d') (b : ℕ) : (d'.procs b).isSome = (d.procs b).isSome := by
  rw [← Option.isSome_map (f := v), h b, Option.isSome_map]

lemma keeps_modify {f : Proc → Proc} (hf : ∀ P, v (f P) = v P) : Keeps v d (d.modify a f) := by
  intro b
  unfold modify
  by_cases hb : b = a
  · subst hb
    simp only [update_self, Option.map_map]
    congr 1
    funext P
    exact hf P
  · simp only [update_of_ne hb]

variable (hv : Stable v)
include hv

lemma keeps_get : Keeps v d (d.get a) := keeps_modify fun _ => hv _ _ _ _

lemma keeps_markFailed : Keeps v d (d.markFailed a) := keeps_modify fun _ => hv _ _ _ _

lemma keeps_attach : Keeps v d (d.attach a) := keeps_modify fun _ => hv _ _ _ _

lemma keeps_runCommands (queued : Bool) : Keeps v d (d.runCommands a queued) := by
  unfold runCommands
  split
  · exact .refl d
  · exact keeps_get hv

lemma keeps_put : Keeps v d (d.put a) := by
  have hm : Keeps v d (d.modify a fun P => { P with ref := P.ref - 1 }) := keeps_modify fun _ => hv _ _ _ _
  unfold put release
  split
  · exact .refl d
  · dsimp only
    split
    · split
      · exact hm
      · exact hm
    · exact hm

lemma keeps_notifyKill (P : Proc) (queued : Bool) : Keeps v d (d.notifyKill a P queued) := by
  have hm : Keeps v d (d.modify a fun P => { P with kill := true }) := keeps_modify fun _ => hv _ _ _ _
  unfold notifyKill
  split
  · exact hm.trans (keeps_runCommands hv queued)
  · exact hm

lemma keeps_removeClient {queued : Bool} (hs : d.removeClient a queued = .ok d') : Keeps v d d' := by
  unfold removeClient at hs
  split at hs
  · cases hs
    exact .refl d
  · split at hs
    · cases hs
    · rename_i P hP
      cases hs
      have hu : Keeps v d ((d.unlink a P).unregister a P) := by
        unfold unregister
        split <;> exact fun _ => rfl
      exact (hu.trans (keeps_notifyKill hv P queued)).trans (keeps_put hv)

lemma keeps_failAdd {queued : Bool} (hs : d.failAdd a queued = .ok d') : Keeps v d d' :=
  (keeps_markFailed hv).trans (keeps_removeClient hv hs)

lemma keeps_addClient {env : AddEnv} (hs : d.addClient a env = .ok d') : Keeps v d d' := by
  unfold addClient at hs
  split at hs
  · cases hs
  · rename_i P hP
    dsimp only at hs
    split at hs
    · cases hs
      exact (keeps_markFailed hv).trans (keeps_put hv)
    iterate 4
      split at hs
      · exact fun b => (keeps_failAdd hv hs b).trans (keeps_attach hv b)
    cases hs
    have hr : Keeps v d (register { d.attach a with
        ipToProc := update (d.attach a).ipToProc P.ip (some a) } a P) := by
      unfold register
      split <;> exact keeps_attach hv
    split
    · exact hr.trans (keeps_runCommands hv _)
    · exact hr

end Keeps

end Dp

end Aspen.Clients
