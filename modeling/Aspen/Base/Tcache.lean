import Aspen.Lib.Links
import Aspen.Lib.Run

/-!
# The thread-local cache

Every thread has a handle with up to two magazines: lists of items that are linked through the items themselves.
`tcache_alloc` and `tcache_free` work on the one that is loaded; when it is empty, or full, it is exchanged with
the previous one, and that one with the magazines that all threads share, a stack whose link is in the first
item of each magazine.
-/

namespace Aspen.Tcache

open Function

def maxMagSize : ℕ := 64

structure Handle (ι : Type*) where
  rounds : ℕ
  capacity : ℕ
  loaded : Option ι
  previous : Option ι

inductive Pc (ι : Type*)
  | idle
  /-- in `__tcache_alloc`, before the critical section -/
  | poolAlloc
  /-- in `tcache_alloc_mag`, before the call of the backing allocator -/
  | magAlloc
  /-- in `tcache_alloc_mag`, with the items it has got -/
  | linking (items : List ι)
  /-- in `__tcache_free`, before the critical section -/
  | poolFree (item : ι)
  /-- in the loop of `tcache_reclaim` -/
  | reclaiming (hdr : ι)
  /-- in `tcache_free_mag`, before the counter is changed -/
  | releasing (next : Option ι)

inductive Fault
  /-- a null pointer or an uninitialised one is used, an array overflows, or an `assert` fails -/
  | crash
  | disabled

structure Sys (τ ι : Type*) where
  magSize : ℕ
  nextItem : ι → Option ι
  nextMag : ι → Option ι
  sharedMags : Option ι
  magsAllocated : ℤ
  handles : τ → Handle ι
  pc : τ → Pc ι
  callers : List ι
  /-- the items that were obtained from the backing allocator and not returned -/
  obtained : List ι

namespace Sys

variable {τ ι : Type*} [DecidableEq τ] [DecidableEq ι]

variable (s : Sys τ ι) (t : τ) (item : ι)

def withHandle (h : Handle ι) : Sys τ ι := { s with handles := update s.handles t h }

def goto (pc : Pc ι) : Sys τ ι := { s with pc := update s.pc t pc }

def give : Sys τ ι := { s with callers := item :: s.callers }

/-! ## Allocation -/

/-- The end of `__tcache_alloc`, from its label on. -/
def reload : Except Fault (Sys τ ι) := let h := s.handles t
  match h.loaded with
  | none => .error .crash
  | some item =>
    .ok (((s.withHandle t { h with rounds := h.capacity - 1, loaded := s.nextItem item }).give
      item).goto t .idle)

/-- `__tcache_alloc`, up to the critical section -/
def tcacheAllocSlow : Except Fault (Sys τ ι) := let h := s.handles t
  if h.rounds = 0 ∧ h.loaded.isNone then
    match h.previous with
    | some m => (s.withHandle t { h with loaded := some m, previous := none }).reload t
    | none => .ok (s.goto t .poolAlloc)
  else .error .crash

/-- The critical section of `__tcache_alloc`, and what follows up to the call of the backing allocator. -/
def poolAlloc : Except Fault (Sys τ ι) := let h := s.handles t
  match s.sharedMags with
  | some m => ({ s with sharedMags := s.nextMag m }.withHandle t { h with loaded := some m }).reload t
  | none => .ok ((s.withHandle t { h with loaded := none }).goto t .magAlloc)

/-- The call of the backing allocator in `tcache_alloc_mag`, with its answer: items that it had. -/
def magAlloc : Option (List ι) → Except Fault (Sys τ ι)
  | none => .ok ((s.withHandle t { s.handles t with loaded := none }).goto t .idle)
  | some items =>
    if items.length = s.magSize ∧ items.Nodup ∧ ∀ x ∈ items, x ∉ s.obtained then
      if maxMagSize < s.magSize then .error .crash
      else .ok ({ s with obtained := items ++ s.obtained }.goto t (.linking items))
    else .error .disabled

/-- The rest of `tcache_alloc_mag` and of `__tcache_alloc`. -/
def linkMag (items : List ι) : Except Fault (Sys τ ι) :=
  match items with
  | [] => .error .crash
  | head :: _ =>
    ({ s with nextItem := Links.linkAll items s.nextItem
              magsAllocated := s.magsAllocated + 1 }.withHandle t
      { s.handles t with loaded := some head }).reload t

def tcacheAlloc : Except Fault (Sys τ ι) := let h := s.handles t
  if h.rounds = 0 then s.tcacheAllocSlow t
  else
    match h.loaded with
    | none => .error .crash
    | some item =>
      .ok ((s.withHandle t { h with rounds := h.rounds - 1, loaded := s.nextItem item }).give item)

/-! ## Freeing -/

/-- The end of `__tcache_free`, from its label on. -/
def startMag : Sys τ ι := ({ s with nextItem := update s.nextItem item none }.withHandle t
    { s.handles t with rounds := 1, loaded := some item }).goto t .idle

/-- `__tcache_free`, up to the critical section -/
def tcacheFreeSlow : Except Fault (Sys τ ι) := let h := s.handles t
  if h.rounds = h.capacity ∧ h.loaded.isSome then
    match h.previous with
    | none => .ok ((s.withHandle t { h with previous := h.loaded }).startMag t item)
    | some _ => .ok (s.goto t (.poolFree item))
  else .error .crash

/-- The critical section of `__tcache_free`, and what follows. -/
def poolFree : Except Fault (Sys τ ι) := let h := s.handles t
  match h.previous with
  | none => .error .crash
  | some m =>
    .ok (({ s with nextMag := update s.nextMag m s.sharedMags
                   sharedMags := some m }.withHandle t { h with previous := h.loaded }).startMag t item)

/-- `tcache_free`; the caller gives the item away -/
def tcacheFree : Except Fault (Sys τ ι) := let h := s.handles t
  let s := { s with callers := s.callers.erase item }
  if h.capacity ≤ h.rounds then s.tcacheFreeSlow t item
  else
    .ok ({ s with nextItem := update s.nextItem item h.loaded }.withHandle t
      { h with rounds := h.rounds + 1, loaded := some item })

/-! ## Reclaiming -/

def reclaimLoop : Option ι → Pc ι
  | none => .idle
  | some hdr => .reclaiming hdr

def tcacheReclaim : Sys τ ι := { s with sharedMags := none }.goto t (reclaimLoop s.sharedMags)

/-- A round of the loop of `tcache_reclaim`: `tcache_free_mag` returns the items of a magazine. -/
def tcacheFreeMag (hdr : ι) : Except Fault (Sys τ ι) :=
  match Links.collect s.nextItem maxMagSize (some hdr) with
  | none => .error .crash
  | some items =>
    if items.length = s.magSize then
      .ok ({ s with obtained := s.obtained.filter (· ∉ items) }.goto t (.releasing (s.nextMag hdr)))
    else .error .crash

def released (next : Option ι) : Sys τ ι := { s with magsAllocated := s.magsAllocated - 1 }.goto t (reclaimLoop next)

end Sys

inductive Event (τ ι : Type*)
  | alloc (t : τ)
  | free (t : τ) (item : ι)
  | reclaim (t : τ)
  /-- a thread goes on; the backing allocator's answer, if it is asked -/
  | run (t : τ) (answer : Option (List ι))
  | write (item : ι) (nextItem nextMag : Option ι)

variable {τ ι : Type*} [DecidableEq τ] [DecidableEq ι]

def step (s : Sys τ ι) : Event τ ι → Except Fault (Sys τ ι)
  | .alloc t =>
    match s.pc t with
    | .idle => s.tcacheAlloc t
    | _ => .error .disabled
  | .free t item =>
    match s.pc t with
    | .idle => if item ∈ s.callers then s.tcacheFree t item else .error .disabled
    | _ => .error .disabled
  | .reclaim t =>
    match s.pc t with
    | .idle => .ok (s.tcacheReclaim t)
    | _ => .error .disabled
  | .run t answer =>
    match s.pc t with
    | .idle => .error .disabled
    | .poolAlloc => s.poolAlloc t
    | .magAlloc => s.magAlloc t answer
    | .linking items => s.linkMag t items
    | .poolFree item => s.poolFree t item
    | .reclaiming hdr => s.tcacheFreeMag t hdr
    | .releasing next => .ok (s.released t next)
  | .write item nextItem nextMag =>
    if item ∈ s.callers ∨ item ∉ s.obtained then
      .ok { s with nextItem := update s.nextItem item nextItem
                   nextMag := update s.nextMag item nextMag }
    else .error .disabled

structure Init (s : Sys τ ι) : Prop where
  sharedMags : s.sharedMags = none
  magsAllocated : s.magsAllocated = 0
  handles : ∀ t, s.handles t = ⟨0, s.magSize, none, none⟩
  pc : ∀ t, s.pc t = .idle
  callers : s.callers = []
  obtained : s.obtained = []

end Aspen.Tcache
