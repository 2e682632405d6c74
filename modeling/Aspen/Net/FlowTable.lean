import Aspen.Lib.Run
import Mathlib.Data.Fintype.Prod

/-!
# Hardware flows of listening sockets (`directpath/common.c`, `mlx5_flow_steering.c`)

A socket that listens on a port registers a flow, and deregisters it when it is closed. The calls put the flow
on one of two stacks, and a worker does the rest: it registers flows with the device as long as there are any,
and only then deregisters some. A bitmap of ports keeps two rules from being made for one port.
-/

namespace Aspen.Flow

open Run Function

inductive Proto
  | tcp
  | udp
  deriving DecidableEq

/-- A port with its protocol: a place in `tcp_listen_ports` or `udp_listen_ports`. -/
abbrev Port := Proto × BitVec 16

inductive Worker (φ : Type*)
  | running
  /-- about to call `net_ops.register_flow` -/
  | registering (f : φ)
  | deregistering (f : φ)
  | parked
  deriving DecidableEq

structure Sys (φ η : Type*) where
  flowToRegister : List φ
  flowToDeregister : List φ
  worker : Worker φ
  listenPorts : Port → Bool
  rules : η → Option Port
  hwFlowHandle : φ → η
  /-- how often `register_flow` and `deregister_flow` have been called, and the reference for the flow table released
  -/
  registered : φ → ℕ
  deregistered : φ → ℕ
  released : φ → ℕ

inductive Event (φ η : Type*)
  | registerFlow (f : φ)
  | deregisterFlow (f : φ)
  /-- the next action of the worker; a new rule has the handle `h` -/
  | worker (h : η)

inductive Stop
  | misplaced

variable {φ η : Type*}

def Worker.wake : Worker φ → Worker φ
  | .parked => .running
  | w => w

@[simp] lemma wake_eq_registering {w : Worker φ} {f : φ} : w.wake = .registering f ↔ w = .registering f := by
  cases w <;> simp [Worker.wake]

@[simp] lemma wake_eq_deregistering {w : Worker φ} {f : φ} : w.wake = .deregistering f ↔ w = .deregistering f := by
  cases w <;> simp [Worker.wake]

variable [DecidableEq φ] [DecidableEq η]

namespace Sys

variable (s : Sys φ η) (f : φ)

def registerFlow : Sys φ η :=
  { s with
    flowToRegister := f :: s.flowToRegister
    registered := update s.registered f 1
    worker := s.worker.wake }

def deregisterFlow : Sys φ η :=
  { s with
    flowToDeregister := f :: s.flowToDeregister
    deregistered := update s.deregistered f 1
    worker := s.worker.wake }

def next : Sys φ η :=
  match s.flowToRegister, s.flowToDeregister with
  | f :: l, _ => { s with flowToRegister := l, worker := .registering f }
  | [], f :: l => { s with flowToDeregister := l, worker := .deregistering f }
  | [], [] => { s with worker := .parked }

/-- `mlx5_register_flow`, which fails if the port is taken -/
def mlx5RegisterFlow (p : Port) (h : η) : Sys φ η := if s.listenPorts p then s
  else { s with
    listenPorts := update s.listenPorts p true
    rules := update s.rules h (some p)
    hwFlowHandle := update s.hwFlowHandle f h }

def mlx5DeregisterFlow (p : Port) : Sys φ η :=
  { s with listenPorts := update s.listenPorts p false, rules := update s.rules (s.hwFlowHandle f) none }

def krefPut : Sys φ η := { s with released := update s.released f (s.released f + 1) }

end Sys

def step (port : φ → Port) (s : Sys φ η) : Event φ η → Except Stop (Sys φ η)
  | .registerFlow f =>
    if s.registered f = 0 then .ok (s.registerFlow f) else .error .misplaced
  | .deregisterFlow f =>
    if s.deregistered f < s.registered f then .ok (s.deregisterFlow f) else .error .misplaced
  | .worker h =>
    match s.worker with
    | .parked => .error .misplaced
    | .running => .ok s.next
    | .registering f =>
      if s.rules h = none then .ok { s.mlx5RegisterFlow f (port f) h with worker := .running }
      else .error .misplaced
    | .deregistering f => .ok { (s.mlx5DeregisterFlow f (port f)).krefPut f with worker := .running }

structure Initial (s : Sys φ η) : Prop where
  lists : s.flowToRegister = [] ∧ s.flowToDeregister = []
  worker : s.worker = .running
  listenPorts : ∀ p, s.listenPorts p = false
  rules : ∀ h, s.rules h = none
  flows : ∀ f, s.registered f = 0 ∧ s.deregistered f = 0 ∧ s.released f = 0

/-- The worker is done with all flows of a port before it is used again. -/
def Vacant (port : φ → Port) (s : Sys φ η) : Event φ η → Prop
  | .registerFlow f => ∀ g, port g = port f → s.released g = s.registered g
  | _ => True

/-! ## The table -/

variable {port : φ → Port} {s s' : Sys φ η} {e : Event φ η} {f : φ} {h : η} {I J : φ → Prop}

structure Table (port : φ → Port) (I : φ → Prop) (s : Sys φ η) : Prop where
  listenPorts : ∀ p, s.listenPorts p = true ↔ ∃ f, I f ∧ port f = p
  rules : ∀ h p, s.rules h = some p ↔ ∃ f, I f ∧ s.hwFlowHandle f = h ∧ port f = p

namespace Table

omit [DecidableEq φ] [DecidableEq η] in
lemma congr (ht : Table port I s) (hp : s'.listenPorts = s.listenPorts) (hr : s'.rules = s.rules)
    (hh : s'.hwFlowHandle = s.hwFlowHandle) (h : ∀ f, J f ↔ I f) : Table port J s' := by
  refine ⟨fun p => ?_, fun h' p => ?_⟩
  · simp only [hp, h, ht.listenPorts]
  · simp only [hr, hh, h, ht.rules]

omit [DecidableEq φ] [DecidableEq η] in
lemma free (ht : Table port I s) (hport : ∀ g, I g → port g ≠ port f) : ¬s.listenPorts (port f) = true := by
  rw [ht.listenPorts]
  exact fun ⟨g, hg, he⟩ => hport g hg he

lemma register (ht : Table port I s) (hport : ∀ g, I g → port g ≠ port f) (hh : s.rules h = none) :
    Table port (fun g => I g ∨ g = f) (s.mlx5RegisterFlow f (port f) h) := by
  have hnew : ∀ g, I g → s.hwFlowHandle g ≠ h := fun g hg he =>
    nomatch hh.symm.trans ((ht.rules h _).2 ⟨g, hg, he, rfl⟩)
  rw [Sys.mlx5RegisterFlow, if_neg (ht.free hport)]
  constructor
  · refine (forall_update_iff s.listenPorts fun p b => b = true ↔ ∃ g, (I g ∨ g = f) ∧ port g = p).2
      ⟨iff_of_true rfl ⟨f, .inr rfl, rfl⟩, fun p hp => (ht.listenPorts p).trans ?_⟩
    grind
  · refine (forall_update_iff s.rules fun h' r => ∀ p, r = some p ↔
      ∃ g, (I g ∨ g = f) ∧ update s.hwFlowHandle f h g = h' ∧ port g = p).2
      ⟨fun p => ?_, fun h' hh' p => (ht.rules h' p).trans ?_⟩
    · grind
    · grind

omit [DecidableEq φ] in
lemma deregister (ht : Table port I s) (hf : I f) (hport : ∀ g, I g → port g = port f → g = f) :
    Table port (fun g => I g ∧ g ≠ f) (s.mlx5DeregisterFlow f (port f)) := by
  have hrule := (ht.rules _ _).2 ⟨f, hf, rfl, rfl⟩
  have hhandle : ∀ g, I g → s.hwFlowHandle g = s.hwFlowHandle f → g = f := fun g hg he =>
    hport g hg (Option.some.inj (((ht.rules _ _).2 ⟨g, hg, he, rfl⟩).symm.trans hrule))
  constructor
  · refine (forall_update_iff s.listenPorts fun p b => b = true ↔ ∃ g, (I g ∧ g ≠ f) ∧ port g = p).2
      ⟨?_, fun p hp => (ht.listenPorts p).trans ?_⟩
    · grind
    · grind
  · refine (forall_update_iff s.rules fun h r => ∀ p, r = some p ↔
      ∃ g, (I g ∧ g ≠ f) ∧ s.hwFlowHandle g = h ∧ port g = p).2 ⟨?_, fun h hh p => (ht.rules h p).trans ?_⟩
    · grind
    · grind

end Table

/-! ## The worker -/

variable (s f)

def Sys.waits : ℕ := s.flowToRegister.count f + if s.worker = .registering f then 1 else 0

def Sys.leaves : ℕ := s.flowToDeregister.count f + if s.worker = .deregistering f then 1 else 0

def Sys.Installed : Prop := s.waits f + s.released f < s.registered f

variable {s f}

structure Inv (port : φ → Port) (s : Sys φ η) : Prop where
  waits : ∀ f, s.waits f + s.released f ≤ s.registered f ∧ s.registered f ≤ 1
  leaves : ∀ f, s.leaves f + s.released f = s.deregistered f ∧ s.deregistered f ≤ s.registered f
  /-- the worker has nothing to register when it begins to deregister a flow -/
  ordered : ∀ f, s.worker = .deregistering f → s.waits f = 0
  ports : ∀ f g, s.released f < s.registered f → s.released g < s.registered g → port f = port g → f = g
  table : Table port s.Installed s

namespace Inv

section

omit [DecidableEq η]

lemma deregistering (hI : Inv port s) (hs : s.worker = .deregistering f) : s.Installed f := by
  have hl := hI.leaves f
  have hw := hI.ordered f hs
  simp only [Sys.leaves, hs, if_true] at hl
  unfold Sys.Installed
  omega

lemma registerFlow (hI : Inv port s) (hf : s.registered f = 0)
    (hv : ∀ g, port g = port f → s.released g = s.registered g) : Inv port (s.registerFlow f) := by
  have hwf := hI.waits f
  have hlf := hI.leaves f
  refine ⟨fun g => ?_, fun g => ?_, fun g hg => ?_, fun g g' => ?_, hI.table.congr rfl rfl rfl fun g => ?_⟩
  · have hg := hI.waits g
    simp only [Sys.registerFlow, Sys.waits, wake_eq_registering, List.count_cons, update_apply] at hwf hg ⊢
    grind
  · have hg := hI.leaves g
    simp only [Sys.registerFlow, Sys.leaves, wake_eq_deregistering, update_apply] at hlf hg ⊢
    grind
  · have hd := hI.deregistering (wake_eq_deregistering.1 hg)
    have hw := hI.ordered g (wake_eq_deregistering.1 hg)
    simp only [Sys.registerFlow, Sys.Installed, Sys.waits, wake_eq_registering, List.count_cons] at hw hd ⊢
    grind
  · have hg := hI.ports g g'
    simp only [Sys.registerFlow, update_apply]
    grind
  · simp only [Sys.registerFlow, Sys.Installed, Sys.waits, wake_eq_registering, List.count_cons, update_apply] at hwf ⊢
    grind

lemma deregisterFlow (hI : Inv port s) (hf : s.deregistered f < s.registered f) : Inv port (s.deregisterFlow f) := by
  have hwf := hI.waits f
  refine ⟨fun g => ?_, fun g => ?_, fun g hg => ?_, hI.ports, hI.table.congr rfl rfl rfl fun g => ?_⟩
  · have hg := hI.waits g
    simp only [Sys.deregisterFlow, Sys.waits, wake_eq_registering] at hg ⊢
    exact hg
  · have hg := hI.leaves g
    simp only [Sys.deregisterFlow, Sys.leaves, wake_eq_deregistering, List.count_cons, update_apply] at hg ⊢
    grind
  · have hg := hI.ordered g (wake_eq_deregistering.1 hg)
    simp only [Sys.deregisterFlow, Sys.waits, wake_eq_registering] at hg ⊢
    exact hg
  · simp only [Sys.deregisterFlow, Sys.Installed, Sys.waits, wake_eq_registering]

lemma next (hI : Inv port s) (hs : s.worker = .running) : Inv port s.next := by
  have hw : s.next.waits = s.waits := by
    funext g
    grind [Sys.waits, Sys.next]
  have hl : s.next.leaves = s.leaves := by
    funext g
    grind [Sys.leaves, Sys.next]
  obtain ⟨hr, hd, hx, ht⟩ : s.next.registered = s.registered ∧ s.next.deregistered = s.deregistered ∧
      s.next.released = s.released ∧ Table port s.Installed s.next := by
    unfold Sys.next
    split <;> exact ⟨rfl, rfl, rfl, hI.table.congr rfl rfl rfl fun _ => .rfl⟩
  refine ⟨?_, ?_, fun g hg => ?_, ?_, ht.congr rfl rfl rfl fun g => ?_⟩
  · rw [hw, hr, hx]
    exact hI.waits
  · rw [hl, hr, hd, hx]
    exact hI.leaves
  · rw [hw]
    grind [Sys.waits, Sys.next]
  · rw [hr, hx]
    exact hI.ports
  · rw [Sys.Installed, Sys.Installed, hw, hr, hx]

end

lemma registering (hI : Inv port s) (hs : s.worker = .registering f) (hh : s.rules h = none) :
    Inv port { s.mlx5RegisterFlow f (port f) h with worker := .running } := by
  have hwf := hI.waits f
  have hport : ∀ g, s.Installed g → port g ≠ port f := by
    intro g hg he
    have := hI.ports g f
    grind [Sys.Installed, Sys.waits]
  have ht := hI.table.register hport hh
  rw [Sys.mlx5RegisterFlow, if_neg (hI.table.free hport)] at ht ⊢
  refine ⟨fun g => ?_, fun g => ?_, nofun, hI.ports, ht.congr rfl rfl rfl fun g => ?_⟩
  · have hg := hI.waits g
    simp only [Sys.waits] at hg ⊢
    grind
  · have hg := hI.leaves g
    simp only [Sys.leaves, hs] at hg ⊢
    grind
  · have hg := hI.waits g
    simp only [Sys.Installed, Sys.waits] at hg ⊢
    grind

lemma deregister (hI : Inv port s) (hs : s.worker = .deregistering f) :
    Inv port { (s.mlx5DeregisterFlow f (port f)).krefPut f with worker := .running } := by
  have hf := hI.deregistering hs
  have ht := hI.table.deregister hf fun g hg he => hI.ports g f (by grind [Sys.Installed]) (by grind [Sys.Installed]) he
  refine ⟨fun g => ?_, fun g => ?_, nofun, fun g g' => ?_, ht.congr rfl rfl rfl fun g => ?_⟩
  · have hg := hI.waits g
    have ho := hI.ordered f hs
    simp only [Sys.waits, Sys.Installed, update_apply, Sys.mlx5DeregisterFlow, Sys.krefPut, hs] at hg ho hf ⊢
    grind
  · have hg := hI.leaves g
    simp only [Sys.leaves, update_apply, Sys.mlx5DeregisterFlow, Sys.krefPut] at hg ⊢
    grind
  · have hg := hI.ports g g'
    simp only [update_apply, Sys.mlx5DeregisterFlow, Sys.krefPut]
    grind
  · have hw := hI.waits f
    simp only [Sys.Installed, Sys.waits, update_apply, Sys.mlx5DeregisterFlow, Sys.krefPut] at hw ⊢
    grind

end Inv

lemma step_inv (hI : Inv port s) (he : Vacant port s e) (h : step port s e = .ok s') : Inv port s' := by
  cases e with
  | registerFlow f =>
    obtain ⟨hf, h⟩ := guard_eq_ok.1 h
    cases h
    exact hI.registerFlow hf he
  | deregisterFlow f =>
    obtain ⟨hf, h⟩ := guard_eq_ok.1 h
    cases h
    exact hI.deregisterFlow hf
  | worker h' =>
    simp only [step] at h
    split at h
    · cases h
    · cases h
      exact hI.next (by assumption)
    · obtain ⟨hh, h⟩ := guard_eq_ok.1 h
      cases h
      exact hI.registering (by assumption) hh
    · cases h
      exact hI.deregister (by assumption)

omit [DecidableEq η] in
lemma Initial.inv (h : Initial s) : Inv port s := by
  have hw : ∀ f, s.waits f = 0 ∧ s.leaves f = 0 := by
    intro f
    simp [Sys.waits, Sys.leaves, h.lists, h.worker]
  have hi : ∀ f, ¬s.Installed f := fun f => by simp [Sys.Installed, h.flows]
  refine ⟨fun f => ?_, fun f => ?_, fun f _ => (hw f).1, fun f g hf => ?_, fun p => ?_, fun h' p => ?_⟩
  · simp [hw, h.flows]
  · simp [hw, h.flows]
  · simp [h.flows] at hf
  · simp [h.listenPorts, hi]
  · simp [h.rules, hi]

/-- If no port is used again before the worker is done with its last flow, the worker deregisters flows with the rules
made for them, and releases each reference once. When it has nothing to do, the bitmaps and the rules are those of the
flows still registered. -/
theorem flows_installed (port : φ → Port) {s : Sys φ η} (hs : Reaches (step port) (Vacant port) Initial s) :
    (∀ f, s.worker = .deregistering f → s.rules (s.hwFlowHandle f) = some (port f)) ∧
    (∀ f, s.released f ≤ 1) ∧
    (s.flowToRegister = [] → s.flowToDeregister = [] → s.worker = .parked →
      Table port (fun f => s.deregistered f < s.registered f) s ∧ ∀ f, s.released f = s.deregistered f) := by
  have hI : Inv port s := hs.invariant (fun _ h => h.inv) fun _ _ _ hI he h => step_inv hI he h
  refine ⟨fun f hf => ?_, fun f => ?_, fun hR hD hw => ?_⟩
  · exact (hI.table.rules _ _).2 ⟨f, hI.deregistering hf, rfl, rfl⟩
  · have hf := hI.waits f
    omega
  · have hrel : ∀ f, s.released f = s.deregistered f := fun f => by
      rw [← (hI.leaves f).1]
      simp [Sys.leaves, hD, hw]
    refine ⟨hI.table.congr rfl rfl rfl fun f => ?_, hrel⟩
    rw [Sys.Installed, hrel]
    simp [Sys.waits, hR, hw]

def init : Sys Bool ℕ :=
  ⟨[], [], .running, fun _ => false, fun _ => none, fun _ => 0, fun _ => 0, fun _ => 0, fun _ => 0⟩

lemma init_initial : Initial init := ⟨⟨rfl, rfl⟩, rfl, fun _ => rfl, fun _ => rfl, fun _ => ⟨rfl, rfl, rfl⟩⟩

def http : Bool → Port := fun _ => (.tcp, 80)

instance : DecidableRel (Vacant http (η := ℕ))
  | _, .registerFlow _ => inferInstanceAs (Decidable (∀ _, _))
  | _, .deregisterFlow _ => isTrue trivial
  | _, .worker _ => isTrue trivial

theorem flows_installed_twice : ∃ s, Reaches (step http) (Vacant http) Initial s ∧
    s.rules 1 = none ∧ s.rules 2 = some (.tcp, 80) ∧
    Table http (fun f => s.deregistered f < s.registered f) s := by
  refine Reaches.of_exec_imp (P := fun s =>
      (s.flowToRegister = [] ∧ s.flowToDeregister = [] ∧ s.worker = .parked ∧ s.rules 1 = none ∧
      s.rules 2 = some (.tcp, 80)))
    [.registerFlow false, .worker 0, .worker 1, .deregisterFlow false, .worker 0, .worker 0,
      .registerFlow true, .worker 0, .worker 2, .worker 0] init_initial (by decide) (by decide) ?_
  rintro s hs h
  exact ⟨h.2.2.2.1, h.2.2.2.2, ((flows_installed http hs).2.2 h.1 h.2.1 h.2.2.1).1⟩

/-- If a port is used again before, the flow of the new socket is not registered, and is deregistered in the end with a
handle that no rule has ever had. -/
theorem flows_lost : (∃ s, Reaches (step http) (fun _ _ => True) Initial s ∧
      (s.flowToRegister = [] ∧ s.flowToDeregister = [] ∧ s.worker = .parked) ∧
      (s.registered true = 1 ∧ s.deregistered true = 0) ∧ s.listenPorts (.tcp, 80) = false ∧ s.rules 1 = none) ∧
    ∃ s, Reaches (step http) (fun _ _ => True) Initial s ∧
      s.worker = .deregistering true ∧ s.hwFlowHandle true = 0 ∧ s.hwFlowHandle false = 1 := by
  refine ⟨?_, ?_⟩
  · exact Reaches.of_exec [.registerFlow false, .worker 0, .worker 1, .worker 0, .deregisterFlow false,
      .registerFlow true, .worker 0, .worker 2, .worker 0, .worker 0, .worker 0] init_initial
      (allowed_true _ _) (by decide)
  · exact Reaches.of_exec [.registerFlow false, .worker 0, .worker 1, .worker 0, .deregisterFlow false,
      .registerFlow true, .worker 0, .worker 2, .worker 0, .worker 0, .worker 0, .deregisterFlow true, .worker 0]
      init_initial (allowed_true _ _) (by decide)

end Aspen.Flow
