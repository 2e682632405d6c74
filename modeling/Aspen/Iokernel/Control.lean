import Aspen.Iokernel.Dataplane

/-!
# The control plane

The control thread accepts clients, maps their memory into a `struct proc`, and tells the dataplane; when a
client hangs up it asks the dataplane to remove it, and frees the process when the dataplane hands it back. The
two threads talk over two bounded channels.
-/

namespace Aspen.Clients

open Function

def maxProc : ℕ := 2048

inductive Cmd
  | add
  | remove
  deriving DecidableEq

/-- An entry of the epoll set: a connection, and the pointer registered with it. -/
structure Watch where
  fd : ℕ
  addr : ℕ
  deriving DecidableEq

inductive Setup
  | noSpec
  | noContext
  /-- the context is allocated but `directpath_steering_attach` fails -/
  | noSteering
  /-- the context is set up but the descriptors cannot be passed to the client -/
  | notPassed
  | done
  deriving DecidableEq

structure Request where
  fd : ℕ
  ip : BitVec 32
  hasDirectpath : Bool
  hasVfioDirectpath : Bool
  /-- credentials, key and length are read and `control_create_proc` succeeds -/
  created : Bool
  addr : ℕ
  setup : Setup
  watched : Bool
  deriving DecidableEq

structure Sys where
  dp : Dp
  nrClients : BitVec 32
  epoll : List Watch
  toData : List (Cmd × Msg)
  nextProc : ℕ
  freed : List ℕ
  nextCtx : ℕ
  /-- what `release_directpath_ctx` was called with -/
  released : List (Option ℕ)
  /-- the process a removal named and the process it removed -/
  dropped : List (ℕ × ℕ)

namespace Sys

variable (s : Sys)

/-! ## Processes and contexts -/

variable (r : Request) (a : ℕ)

def create : Sys :=
  { s with
    dp.procs := update s.dp.procs r.addr (some
      { ip := r.ip, hasDirectpath := r.hasDirectpath, hasVfioDirectpath := r.hasVfioDirectpath,
        kill := false, attachFail := false, removed := false, ref := 1, controlFd := 0,
        directpathData := none, id := s.nextProc })
    nextProc := s.nextProc + 1 }

/-- `release_directpath_ctx`; the pointer to the context is not reset -/
def releaseCtx : Sys := { s with released := ((s.dp.procs a).bind Proc.directpathData) :: s.released }

def allocCtx : Sys :=
  { s with
    dp := s.dp.modify a fun P => { P with directpathData := some s.nextCtx }
    nextCtx := s.nextCtx + 1 }

/-- `control_setup_directpath`; the label `err` releases the context whatever has failed -/
def setupDirectpath : Setup → Sys
  | .noSpec => s
  | .noContext => s.releaseCtx a
  | .noSteering | .notPassed => (s.allocCtx a).releaseCtx a
  | .done => s.allocCtx a

def destroyProc : Except Stop Sys :=
  match s.dp.procs a with
  | none => .error .useAfterFree
  | some P =>
    let s := if P.hasVfioDirectpath then s.releaseCtx a else s
    .ok { s with
      nrClients := s.nrClients - 1#32
      dp.procs := update s.dp.procs a none
      freed := P.id :: s.freed }

/-! ## The control loop -/

def unwatch (fd : ℕ) : Sys := { s with epoll := s.epoll.filter (·.fd ≠ fd) }

/-- `control_add_client`, from `epoll_ctl_add` on -/
def announce : Except Stop Sys := if !r.watched then s.destroyProc r.addr
  else if s.toData.length < queueSize then
    .ok { s with
      dp := s.dp.modify r.addr fun P => { P with controlFd := r.fd }
      epoll := ⟨r.fd, r.addr⟩ :: s.epoll
      -- the process was the last one created
      toData := s.toData ++ [(.add, ⟨r.addr, s.nextProc - 1⟩)]
      nrClients := s.nrClients + 1#32 }
  else s.destroyProc r.addr

/-- `control_add_client`. Neither `malloc` nor `accept` returns what is in use. -/
def addClient : Except Stop Sys := if maxProc ≤ s.nrClients.toNat ∨ !r.created then .ok s
  else if (s.dp.procs r.addr).isSome ∨ ∃ w ∈ s.epoll, w.fd = r.fd then .error .blocked
  else if r.hasVfioDirectpath then
    let s := (s.create r).setupDirectpath r.addr r.setup
    if r.setup = .done then s.announce r else s.destroyProc r.addr
  else (s.create r).announce r

/-- `control_instruct_dataplane_to_remove_client`; if the channel is full the connection stays watched -/
def instructRemove (w : Watch) : Except Stop Sys :=
  match s.dp.procs w.addr with
  | none => .error .useAfterFree
  | some P =>
    let s := { s with dp := s.dp.modify w.addr fun P => { P with removed := true } }
    if s.toData.length < queueSize then
      .ok (Sys.unwatch { s with toData := s.toData ++ [(.remove, ⟨w.addr, P.id⟩)] } P.controlFd)
    else .ok s

def removeClient : Except Stop Sys :=
  match s.dp.procs a with
  | none => .error .useAfterFree
  | some P => (if P.removed then s else s.unwatch P.controlFd).destroyProc a

def recv : Except Stop Sys :=
  match s.dp.toControl with
  | [] => .error .blocked
  | m :: rest => { s with dp.toControl := rest }.removeClient m.addr

/-! ## The dataplane's turn -/

/-- `dp_clients_rx_control_lrpcs`, one message -/
def handle (env : AddEnv) : Except Stop Sys :=
  match s.toData with
  | [] => .error .blocked
  | (.add, m) :: rest =>
    match s.dp.addClient m.addr env with
    | .ok d => .ok { s with toData := rest, dp := d }
    | .error e => .error e
  | (.remove, m) :: rest =>
    match s.dp.removeClient m.addr env.queued with
    | .ok d => .ok { s with
        toData := rest
        dp := d
        dropped := if m.addr ∈ s.dp.clients then
          ((s.dp.procs m.addr).map fun P => (m.proc, P.id)).toList ++ s.dropped else s.dropped }
    | .error e => .error e

/-- A reference of a core, a packet or a command, taken by the dataplane. -/
def get : Except Stop Sys :=
  if a ∈ s.dp.clients ∨ a ∈ s.dp.holders then .ok { s with dp := s.dp.get a } else .error .blocked

def put : Except Stop Sys :=
  if a ∈ s.dp.holders then
    .ok { s with dp := { s.dp with holders := s.dp.holders.erase a }.put a }
  else .error .blocked

end Sys

inductive Event
  | connect (r : Request)
  | hangup (w : Watch)
  | recv
  | handle (env : AddEnv)
  | get (a : ℕ)
  | put (a : ℕ)
  deriving DecidableEq

def step (s : Sys) : Event → Except Stop Sys
  | .connect r => s.addClient r
  | .hangup w => if w ∈ s.epoll then s.instructRemove w else .error .blocked
  | .recv => s.recv
  | .handle env => s.handle env
  | .get a => s.get a
  | .put a => s.put a

def Sys.init : Sys where
  dp := ⟨fun _ => none, [], fun _ => none, [], [], [], []⟩
  nrClients := 0#32
  epoll := []
  toData := []
  nextProc := 0
  freed := []
  nextCtx := 0
  released := []
  dropped := []

/-! ## What the calls of the control plane do -/

namespace Sys

variable {s s' : Sys} {a : ℕ} {r : Request}

def destroyed (s : Sys) (a : ℕ) (P : Proc) : Sys :=
  { s with
    nrClients := s.nrClients - 1#32
    dp.procs := update s.dp.procs a none
    freed := P.id :: s.freed
    released := if P.hasVfioDirectpath then P.directpathData :: s.released else s.released }

lemma destroyProc_eq {P : Proc} (hP : s.dp.procs a = some P) : s.destroyProc a = .ok (s.destroyed a P) := by
  unfold destroyProc destroyed
  rw [hP]
  dsimp only
  cases P.hasVfioDirectpath <;> simp [releaseCtx, hP]

/-- A process that was handed back is freed, and its connection closed unless it was before. -/
lemma recv_comes : Run.Comes (fun e => e = .useAfterFree → ∃ m ∈ s.dp.toControl, s.dp.procs m.addr = none)
    (fun s' => ∃ m rest P, s.dp.toControl = m :: rest ∧ s.dp.procs m.addr = some P ∧
      s' = destroyed { s with
        dp.toControl := rest
        epoll := if P.removed then s.epoll else (s.unwatch P.controlFd).epoll } m.addr P) s.recv := by
  unfold recv
  split
  · exact .stop nofun
  rename_i m rest hback
  unfold removeClient
  split
  · rename_i hP
    exact .stop fun _ => ⟨m, hback ▸ .head _, hP⟩
  · rename_i P hP
    rw [destroyProc_eq (P := P) (by split <;> exact hP)]
    refine .ok ⟨m, rest, P, hback, hP, ?_⟩
    cases P.removed <;> rfl

lemma instructRemove_comes {w : Watch} : Run.Comes (fun _ => s.dp.procs w.addr = none)
    (fun s' => ∃ P, s.dp.procs w.addr = some P ∧ ∃ d, d = s.dp.modify w.addr (fun P => { P with removed := true }) ∧
      (s' = unwatch { s with dp := d, toData := s.toData ++ [(.remove, ⟨w.addr, P.id⟩)] } P.controlFd ∨
        s' = { s with dp := d })) (s.instructRemove w) := by
  unfold instructRemove
  split
  · exact .stop (by assumption)
  · rename_i P hP
    dsimp only
    split
    · exact .ok ⟨P, hP, _, rfl, .inl rfl⟩
    · exact .ok ⟨P, hP, _, rfl, .inr rfl⟩

variable (s r)

def Succeeds : Prop := (r.hasVfioDirectpath = true → r.setup = .done) ∧ r.watched = true ∧ s.toData.length < queueSize

def join : Sys :=
  { s with
    dp.procs := update s.dp.procs r.addr (some
      { ip := r.ip, hasDirectpath := r.hasDirectpath, hasVfioDirectpath := r.hasVfioDirectpath,
        kill := false, attachFail := false, removed := false, ref := 1, controlFd := r.fd,
        directpathData := if r.hasVfioDirectpath then some s.nextCtx else none, id := s.nextProc })
    epoll := ⟨r.fd, r.addr⟩ :: s.epoll
    toData := s.toData ++ [(.add, ⟨r.addr, s.nextProc⟩)]
    nrClients := s.nrClients + 1#32
    nextProc := s.nextProc + 1
    nextCtx := if r.hasVfioDirectpath then s.nextCtx + 1 else s.nextCtx }

def made (ctx : Option ℕ) (n : ℕ) (l : List (Option ℕ)) : Sys :=
  { s with
    dp.procs := update s.dp.procs r.addr (some
      { ip := r.ip, hasDirectpath := r.hasDirectpath, hasVfioDirectpath := r.hasVfioDirectpath,
        kill := false, attachFail := false, removed := false, ref := 1, controlFd := 0,
        directpathData := ctx, id := s.nextProc })
    nextProc := s.nextProc + 1
    nextCtx := n
    released := l }

variable {s r}

structure Abandons (s s' : Sys) : Prop where
  dp : s'.dp = s.dp
  nrClients : s'.nrClients = s.nrClients - 1#32
  epoll : s'.epoll = s.epoll
  toData : s'.toData = s.toData
  nextProc : s'.nextProc = s.nextProc + 1
  freed : s'.freed = s.nextProc :: s.freed
  dropped : s'.dropped = s.dropped

lemma destroyProc_comes (hfree : s.dp.procs r.addr = none) {ctx : Option ℕ} {n : ℕ} {l : List (Option ℕ)} :
    Run.Comes (· = .blocked) s.Abandons ((s.made r ctx n l).destroyProc r.addr) := by
  have hprocs : update (s.made r ctx n l).dp.procs r.addr none = s.dp.procs := by
    simp only [made, update_idem]
    rw [← hfree, update_eq_self]
  rw [destroyProc_eq (update_self ..)]
  exact .ok ⟨by simp only [destroyed, hprocs]; rfl, rfl, rfl, rfl, rfl, rfl, rfl⟩

lemma announce_comes (hfree : s.dp.procs r.addr = none) {ctx : Option ℕ} {n : ℕ} {l : List (Option ℕ)} :
    Run.Comes (· = .blocked) (fun s' => ¬ (r.watched = true ∧ s.toData.length < queueSize) ∧ s.Abandons s' ∨
      (r.watched ∧ s.toData.length < queueSize) ∧
        s' = { s.made r ctx n l with
          dp := (s.made r ctx n l).dp.modify r.addr fun P => { P with controlFd := r.fd }
          epoll := ⟨r.fd, r.addr⟩ :: s.epoll
          toData := s.toData ++ [(.add, ⟨r.addr, s.nextProc⟩)]
          nrClients := s.nrClients + 1#32 }) ((s.made r ctx n l).announce r) := by
  unfold announce
  split
  · rename_i hw
    refine (destroyProc_comes hfree).imp (fun _ => id) fun s' h => .inl ⟨fun hg => ?_, h⟩
    rw [hg.1] at hw
    cases hw
  · rename_i hw
    rw [Bool.not_eq_true', Bool.not_eq_false] at hw
    split
    · rename_i hroom
      exact .ok (.inr ⟨⟨hw, hroom⟩, rfl⟩)
    · rename_i hroom
      exact (destroyProc_comes hfree).imp (fun _ => id) fun s' h => .inl ⟨fun hg => hroom hg.2, h⟩

lemma setupDirectpath_create (s : Sys) (r : Request) (st : Setup) :
    ∃ ctx n l, (s.create r).setupDirectpath r.addr st = s.made r ctx n l ∧
      (st = .done → ctx = some s.nextCtx ∧ n = s.nextCtx + 1 ∧ l = s.released) := by
  have halloc : (s.create r).allocCtx r.addr = s.made r (some s.nextCtx) (s.nextCtx + 1) s.released := by
    simp only [allocCtx, create, made, Dp.modify, update_self, update_idem, Option.map_some]
  cases st with
  | noSpec | noContext => exact ⟨_, _, _, rfl, nofun⟩
  | noSteering | notPassed => exact ⟨_, _, _, congrArg (releaseCtx · r.addr) halloc, nofun⟩
  | done => exact ⟨_, _, _, halloc, fun _ => ⟨rfl, rfl, rfl⟩⟩

lemma addClient_comes : Run.Comes (· = .blocked) (fun s' => s' = s ∨
    (r.created ∧ s.nrClients.toNat < maxProc ∧ s.dp.procs r.addr = none ∧ (∀ w ∈ s.epoll, w.fd ≠ r.fd)) ∧
      (¬ s.Succeeds r ∧ s.Abandons s' ∨ s.Succeeds r ∧ s' = s.join r)) (s.addClient r) := by
  unfold addClient
  split
  · exact .ok (.inl rfl)
  rename_i hc
  rw [not_or, Bool.not_eq_true', Bool.not_eq_false, Nat.not_le] at hc
  split
  · exact .stop rfl
  rename_i hfree
  rw [not_or, Bool.not_eq_true, Option.isSome_eq_false_iff, Option.isNone_iff_eq_none] at hfree
  refine Run.Comes.imp (Q := (· = .blocked)) ?_ (fun _ => id) fun s' h =>
    .inr ⟨⟨hc.2, hc.1, hfree.1, fun w hw he => hfree.2 ⟨w, hw, he⟩⟩, h⟩
  split
  · rename_i hv
    obtain ⟨ctx, n, l, hmade, hdone⟩ := setupDirectpath_create s r r.setup
    rw [hmade]
    split
    · rename_i hset
      obtain ⟨rfl, rfl, rfl⟩ := hdone hset
      refine (announce_comes hfree.1).imp (fun _ => id) ?_
      rintro s' (⟨hn, ha⟩ | ⟨hg, rfl⟩)
      · exact .inl ⟨fun hs => hn hs.2, ha⟩
      · refine .inr ⟨⟨fun _ => hset, hg⟩, ?_⟩
        simp only [join, made, Dp.modify, update_self, update_idem, Option.map_some, hv, if_true]
    · rename_i hset
      exact (destroyProc_comes hfree.1).imp (fun _ => id) fun s' h => .inl ⟨fun hs => hset (hs.1 hv), h⟩
  · rename_i hv
    refine (announce_comes hfree.1).imp (fun _ => id) ?_
    rintro s' (⟨hn, ha⟩ | ⟨hg, rfl⟩)
    · exact .inl ⟨fun hs => hn hs.2, ha⟩
    · refine .inr ⟨⟨fun hv' => absurd hv' hv, hg⟩, ?_⟩
      simp only [join, made, Dp.modify, update_self, update_idem, Option.map_some, hv]
      rfl

end Sys

end Aspen.Clients
