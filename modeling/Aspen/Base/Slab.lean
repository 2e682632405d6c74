import Mathlib.Data.Fintype.Basic
import Aspen.Lib.Links
import Aspen.Lib.Run

/-!
# The slab allocator

A slab has a node for each NUMA node, with one page that items are taken from, and lists of pages that are full,
or partly free again. The items of a new page are carved one after the other, up to an offset that is kept in
the node; those that are freed form a list, which is used first.
-/

namespace Aspen.Slab

open Function

/-- The constants of a slab: the size of a page and of an item, where the items start, and their number. -/
structure Layout where
  pgsize : ℕ
  size : ℕ
  offset : ℕ
  nrElems : ℕ
  deriving DecidableEq

def partialThresh : ℕ := 4

def alignUp (x align : ℕ) : ℕ := (x + align - 1) / align * align

/-- `__WORD_SIZE`, which is in bits -/
def wordSize : ℕ := 64

def cacheLineSize : ℕ := 64

/-- `slab_create`; the flags are `SLAB_FLAG_FALSE_OKAY` and `SLAB_FLAG_LGPAGE` -/
def slabCreate (size : ℕ) (falseOkay lgpage : Bool) : Option Layout :=
  let size := if falseOkay then alignUp size wordSize else alignUp size cacheLineSize
  -- `SLAB_2MB_LIMIT` and `SLAB_4KB_LIMIT`
  if size > 262144 then none
  else
    let pgsize := if lgpage || size > 512 then 2097152 else 4096
    some ⟨pgsize, size, 0, pgsize / size⟩

/-- The slab of small pages, after the `SMPAGE_META_LEN` bytes for their `struct page`s. -/
def smpageSlab : Layout := ⟨2097152, 4096, 32768, (2097152 - 32768) / 4096⟩

/-- The slab of slab nodes. The number of items is that of nodes of 88 bytes, their size is rounded up. -/
def nodeSlab : Layout := ⟨4096, alignUp 88 16, 0, 4096 / 88⟩

def Layout.item (L : Layout) (pg i : ℕ) : ℕ := pg * L.pgsize + (L.offset + i * L.size)

/-- The items are in the page, and there are enough for a page to be neither full nor free. -/
structure Layout.Fits (L : Layout) : Prop where
  pos : 0 < L.size
  inside : L.offset + L.nrElems * L.size ≤ L.pgsize
  thresh : partialThresh < L.nrElems

/-- The slabs that are created on request fit. -/
lemma slabCreate_fits {size : ℕ} (hs : 0 < size) {falseOkay lgpage : Bool} {L : Layout}
    (h : slabCreate size falseOkay lgpage = some L) : L.Fits := by
  have hpos : 0 < alignUp size 64 := by unfold alignUp; omega
  have hsize : (if falseOkay then alignUp size wordSize else alignUp size cacheLineSize) = alignUp size 64 :=
    ite_self _
  simp only [slabCreate, hsize] at h
  split at h
  · cases h
  · cases h
    have hbig : 8 * alignUp size 64 ≤ if lgpage || alignUp size 64 > 512 then 2097152 else 4096 := by
      split
      · omega
      · rename_i hlg
        simp only [Bool.or_eq_true, decide_eq_true_eq, not_or, not_lt] at hlg
        omega
    refine ⟨hpos, ?_, ?_⟩
    · rw [Nat.zero_add]
      exact Nat.div_mul_le_self _ _
    · exact lt_of_lt_of_le (by decide) ((Nat.le_div_iff_mul_le hpos).2 hbig)

lemma smpageSlab_fits : smpageSlab.Fits := ⟨by decide, by decide, by decide⟩

lemma not_nodeSlab_fits : ¬nodeSlab.Fits := fun h => absurd h.inside (by decide)

namespace Layout.Fits

variable {L : Layout} {pg pg' i j : ℕ}

lemma item_div (h : L.Fits) (hi : i < L.nrElems) : L.item pg i / L.pgsize = pg := by
  have hm : (i + 1) * L.size ≤ L.nrElems * L.size := Nat.mul_le_mul_right _ hi
  have hlt : L.offset + i * L.size < L.pgsize := by
    rw [Nat.add_one_mul] at hm
    have hp := h.pos
    have hin := h.inside
    omega
  have hpos : 0 < L.pgsize := lt_of_le_of_lt (Nat.zero_le _) hlt
  rw [item, Nat.mul_comm, Nat.mul_add_div hpos, Nat.div_eq_of_lt hlt, Nat.add_zero]

lemma item_inj (h : L.Fits) (he : L.item pg i = L.item pg j) : i = j :=
  Nat.eq_of_mul_eq_mul_right h.pos (Nat.add_left_cancel (Nat.add_left_cancel he))

end Layout.Fits

structure Page where
  next : Option ℕ
  itemCount : ℕ

structure Node where
  curPg : Option ℕ
  pgOff : ℕ
  fullList : List ℕ
  partialList : List ℕ
  nrPages : ℤ

inductive Fault
  /-- a page that is on no list is taken from its list -/
  | corrupt
  | disabled
  deriving DecidableEq

variable {k : ℕ}

structure Sys (k : ℕ) where
  nodes : Fin k → Node
  pages : ℕ → Page
  nextHdr : ℕ → Option ℕ
  held : List ℕ
  /-- the items that have been handed out and not freed -/
  handed : List ℕ

namespace Sys

def withNode (s : Sys k) (n : Fin k) (N : Node) : Sys k := { s with nodes := update s.nodes n N }

def withPage (s : Sys k) (pg : ℕ) (p : Page) : Sys k := { s with pages := update s.pages pg p }

variable (L : Layout) (nodeOf : ℕ → Fin k)

/-! ## Allocation -/

variable (s : Sys k) (n : Fin k) (answer : Option ℕ) (pg item : ℕ)

def slabNodeGetPage : Except Fault (Option ℕ × Sys k) :=
  match (s.nodes n).partialList with
  | pg :: l => .ok (some pg, s.withNode n { s.nodes n with partialList := l })
  | [] =>
    match answer with
    | none => .ok (none, s)
    | some pg =>
      if pg ∉ s.held ∧ nodeOf pg = n then
        .ok (some pg, { (s.withNode n { s.nodes n with pgOff := L.offset }).withPage pg
          ⟨none, L.nrElems⟩ with held := pg :: s.held })
      else .error .disabled

/-- The second half of `__slab_node_alloc`: an item of the current page. -/
def slabNodeTake : ℕ × Sys k := let p := s.pages pg
  match p.next with
  | some hdr => (hdr, { s.withPage pg ⟨s.nextHdr hdr, p.itemCount - 1⟩ with handed := hdr :: s.handed })
  | none =>
    let hdr := pg * L.pgsize + (s.nodes n).pgOff
    (hdr, { (s.withNode n { s.nodes n with pgOff := (s.nodes n).pgOff + L.size }).withPage pg
      ⟨none, p.itemCount - 1⟩ with handed := hdr :: s.handed })

def usable : Option ℕ := (s.nodes n).curPg.filter fun pg => (s.pages pg).itemCount ≠ 0

def retire : Sys k :=
  match (s.nodes n).curPg with
  | none => s
  | some pg => s.withNode n { s.nodes n with fullList := pg :: (s.nodes n).fullList }

def makeCurrent : Sys k := s.withNode n { s.nodes n with curPg := some pg, nrPages := (s.nodes n).nrPages + 1 }

def slabNodeAlloc : Except Fault (Option ℕ × Sys k) :=
  match s.usable n with
  | some pg =>
    let x := s.slabNodeTake L n pg
    .ok (some x.1, x.2)
  | none =>
    match (s.retire n).slabNodeGetPage L nodeOf n answer with
    | .error d => .error d
    | .ok (none, s') => .ok (none, s'.withNode n { s'.nodes n with curPg := none })
    | .ok (some pg, s') =>
      let x := (s'.makeCurrent n pg).slabNodeTake L n pg
      .ok (some x.1, x.2)

/-! ## Freeing -/

def listDel : Except Fault (Sys k) :=
  if ∃ n, pg ∈ (s.nodes n).fullList ∨ pg ∈ (s.nodes n).partialList then
    .ok { s with nodes := fun n => { s.nodes n with
      fullList := (s.nodes n).fullList.erase pg, partialList := (s.nodes n).partialList.erase pg } }
  else .error .corrupt

/-- The first half of `slab_node_free`: the item goes to the free ones of its page. -/
def slabNodePut : Sys k :=
  { s.withPage pg ⟨some item, (s.pages pg).itemCount + 1⟩ with
    nextHdr := update s.nextHdr item (s.pages pg).next, handed := s.handed.erase item }

def slabNodeFree : Except Fault (Sys k) := let pg := item / L.pgsize
  let s := s.slabNodePut pg item
  if (s.nodes n).curPg = some pg then .ok s
  else if (s.pages pg).itemCount = partialThresh then
    match s.listDel pg with
    | .error d => .error d
    | .ok s => .ok (s.withNode n { s.nodes n with partialList := pg :: (s.nodes n).partialList })
  else if (s.pages pg).itemCount = L.nrElems then
    match s.listDel pg with
    | .error d => .error d
    | .ok s => .ok { s.withNode n { s.nodes n with nrPages := (s.nodes n).nrPages - 1 } with
        held := s.held.erase pg }
  else .ok s

def slabFree : Except Fault (Sys k) := s.slabNodeFree L (nodeOf (item / L.pgsize)) item

/-! ## The operations of a thread-local cache

`slab_tcache_alloc` and `slab_tcache_free` work on the node of the thread, `slab_free` on that of the item. -/

/-- The loop of `slab_tcache_free`. -/
def slabTcacheFree (n : Fin k) : List ℕ → Sys k → Except Fault (Sys k)
  | [], s => .ok s
  | item :: items, s =>
    match s.slabNodeFree L n item with
    | .error d => .error d
    | .ok s => slabTcacheFree n items s

/-- `slab_tcache_alloc`; the items it has got so far are freed if it fails, the last one first -/
def slabTcacheAlloc (n : Fin k) : ℕ → (ℕ → Option ℕ) → List ℕ → Sys k → Except Fault (Sys k)
  | 0, _, _, s => .ok s
  | nr + 1, answers, got, s =>
    match s.slabNodeAlloc L nodeOf n (answers 0) with
    | .error d => .error d
    | .ok (some item, s) => slabTcacheAlloc n nr (answers ∘ Nat.succ) (item :: got) s
    | .ok (none, s) => slabTcacheFree L n got s

end Sys

/-- What is done with a slab; `n` is the node of the thread that does it, or the one that is asked for. -/
inductive Event (k : ℕ)
  | alloc (n : Fin k) (answer : Option ℕ)
  | free (item : ℕ)
  | tcacheAlloc (n : Fin k) (nr : ℕ) (answers : ℕ → Option ℕ)
  | tcacheFree (n : Fin k) (items : List ℕ)
  | write (item : ℕ) (v : Option ℕ)

def step (L : Layout) (nodeOf : ℕ → Fin k) (s : Sys k) : Event k → Except Fault (Sys k)
  | .alloc n answer => (s.slabNodeAlloc L nodeOf n answer).map Prod.snd
  | .free item => if item ∈ s.handed then s.slabFree L nodeOf item else .error .disabled
  | .tcacheAlloc n nr answers => Sys.slabTcacheAlloc L nodeOf n nr answers [] s
  | .tcacheFree n items =>
    if items.Nodup ∧ ∀ x ∈ items, x ∈ s.handed then Sys.slabTcacheFree L n items s else .error .disabled
  | .write item v =>
    if item ∈ s.handed then .ok { s with nextHdr := update s.nextHdr item v }
    else .error .disabled

/-- What `__slab_create_node` leaves. -/
structure Init (s : Sys k) : Prop where
  nodes : ∀ n, s.nodes n = ⟨none, 0, [], [], 0⟩
  held : s.held = []
  handed : s.handed = []

end Aspen.Slab
