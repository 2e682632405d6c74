import Aspen.Base.SlabPages

/-!
# Accounting of slab pages

Whatever is done with a slab, its pages are accounted for as long as the thread-local caches free each item on the
node of its page. The page counters of the nodes are right if, besides, no allocation takes a page from a partial list.
-/

namespace Aspen.Slab

open Run Links Function List

variable {k : ℕ} {L : Layout} {nodeOf : ℕ → Fin k} {s s' : Sys k} {n : Fin k} {pg nr : ℕ} {items : List ℕ}

/-! ## The page counters -/

def Sys.slack (s : Sys k) (n : Fin k) : ℕ :=
  match (s.nodes n).curPg with
  | none => 0
  | some pg => (s.pages pg).itemCount

def Sys.NoRefill (s : Sys k) (n : Fin k) (nr : ℕ) : Prop := (s.nodes n).partialList = [] ∨ nr ≤ s.slack n
deriving Decidable

namespace Sys

lemma slack_of_usable (hu : s.usable n = none) : s.slack n = 0 := by
  unfold slack
  split
  · rfl
  · rename_i pg hc
    by_contra hne
    rw [usable, hc, Option.filter_some, if_pos (decide_eq_true hne)] at hu
    cases hu

variable (s n pg)

lemma slabNodeTake_nodes :
    ∃ off, (s.slabNodeTake L n pg).2.nodes = (s.withNode n { s.nodes n with pgOff := off }).nodes := by
  unfold slabNodeTake
  dsimp only
  split
  · exact ⟨(s.nodes n).pgOff, (update_eq_self ..).symm⟩
  · exact ⟨_, rfl⟩

lemma slabNodeTake_count : ((s.slabNodeTake L n pg).2.pages pg).itemCount = (s.pages pg).itemCount - 1 := by
  unfold slabNodeTake
  dsimp only
  split
  · exact congrArg Page.itemCount (update_self pg _ s.pages)
  · exact congrArg Page.itemCount (update_self pg _ s.pages)

lemma slabNodeTake_excess : (s.slabNodeTake L n pg).2.excess = s.excess := by
  obtain ⟨off, hnodes⟩ := slabNodeTake_nodes (L := L) s n pg
  have hex : (s.withNode n { s.nodes n with pgOff := off }).excess = s.excess := excess_withNode rfl
  rw [← hex]
  funext m
  rw [excess, hnodes, excess]

lemma slabNodeTake_partialList : ((s.slabNodeTake L n pg).2.nodes n).partialList = (s.nodes n).partialList := by
  obtain ⟨off, hnodes⟩ := slabNodeTake_nodes (L := L) s n pg
  rw [hnodes, withNode_nodes]

variable {s n pg}

lemma slabNodeTake_slack (hc : (s.nodes n).curPg = some pg) : (s.slabNodeTake L n pg).2.slack n = s.slack n - 1 := by
  obtain ⟨off, hnodes⟩ := slabNodeTake_nodes (L := L) s n pg
  have hc' : ((s.slabNodeTake L n pg).2.nodes n).curPg = some pg := by
    rw [hnodes, withNode_nodes]
    exact hc
  simp only [slack, hc, hc', slabNodeTake_count]

lemma cleared_excess (s : Sys k) (n : Fin k) : (s.cleared n).excess = s.excess := excess_withNode rfl

lemma renew_excess (hc : (s.nodes n).curPg = none) : (s.renew L n pg).excess = s.excess := by
  have hex : (s.withNode n { s.nodes n with
      curPg := some pg, pgOff := L.offset, nrPages := (s.nodes n).nrPages + 1 }).excess = s.excess := by
    refine excess_withNode ?_
    show (s.nodes n).nrPages + 1 - ((pg :: ((s.nodes n).fullList ++ (s.nodes n).partialList)).length : ℤ) =
      (s.nodes n).nrPages - ((s.nodes n).pages.length : ℤ)
    rw [Node.pages, hc, length_cons]
    show _ = (s.nodes n).nrPages - (((s.nodes n).fullList ++ (s.nodes n).partialList).length : ℤ)
    omega
  exact hex

lemma Allocates.excess {r : Option ℕ} (ha : s.Allocates L nodeOf n r s') (hr : s.NoRefill n (nr + 1)) :
    s'.excess = s.excess ∧ (r ≠ none → s'.NoRefill n nr) := by
  cases ha with
  | here hu =>
    rename_i pg
    have hc := (Option.filter_eq_some_iff.1 hu).1
    refine ⟨slabNodeTake_excess s n pg, fun _ => ?_⟩
    rw [NoRefill, slabNodeTake_partialList, slabNodeTake_slack hc]
    exact hr.imp_right Nat.le_sub_one_of_lt
  | fail hu hp => exact ⟨cleared_excess s n, fun hne => absurd rfl hne⟩
  | again hu hp =>
    rw [NoRefill, slack_of_usable hu, hp] at hr
    rcases hr with hr | hr
    · cases hr
    · cases hr
  | fresh hu hp hpg hn =>
    refine ⟨?_, fun _ => .inl ?_⟩
    · rw [slabNodeTake_excess, renew_excess (Inv.cleared_curPg s n), cleared_excess]
    · rw [slabNodeTake_partialList]
      show Node.partialList (update (s.cleared n).nodes n _ n) = []
      rw [update_self, cleared, withNode_nodes]
      exact hp

end Sys

/-! ## The operations -/

abbrev Fine (L : Layout) (nodeOf : ℕ → Fin k) (s : Sys k) (counted : Prop) : Except Fault (Sys k) → Prop :=
  Comes (· = .disabled) fun s' => Sound L nodeOf s' ∧ (counted → s'.excess = s.excess)

namespace Sound

lemma slabTcacheFree (h : Sound L nodeOf s) (hL : L.Fits) (hnd : items.Nodup)
    (hsub : ∀ x ∈ items, x ∈ s.handed ∧ nodeOf (x / L.pgsize) = n) :
    ∃ s', Sys.slabTcacheFree L n items s = .ok s' ∧ Sound L nodeOf s' ∧ s'.excess = s.excess := by
  induction items generalizing s with
  | nil => exact ⟨s, rfl, h, rfl⟩
  | cons x items ih =>
    obtain ⟨hx, hnd⟩ := nodup_cons.1 hnd
    obtain ⟨H, carved, hI⟩ := h
    obtain ⟨hmem, hn⟩ := hsub x (.head _)
    obtain ⟨t, ht, hf⟩ := hI.slabNodeFree hL hmem rfl hn
    have hrest : ∀ y ∈ items, y ∈ t.handed ∧ nodeOf (y / L.pgsize) = n := by
      intro y hy
      obtain ⟨hym, hyn⟩ := hsub y (.tail _ hy)
      have hne : y ≠ x := fun he => hx (he ▸ hy)
      rw [hf.handed]
      exact ⟨(mem_erase_of_ne hne).2 hym, hyn⟩
    obtain ⟨s', hs', hS, hex'⟩ := ih hf.sound hnd hrest
    refine ⟨s', ?_, hS, hex'.trans hf.excess⟩
    rw [Sys.slabTcacheFree, ht]
    exact hs'

/-- If there are not enough items for a cache, those it has got are freed to where they are from. -/
lemma slabTcacheAlloc (h : Sound L nodeOf s) (hL : L.Fits) {got : List ℕ} (hnd : got.Nodup)
    (hgot : ∀ x ∈ got, x ∈ s.handed ∧ nodeOf (x / L.pgsize) = n) (answers : ℕ → Option ℕ) :
    Fine L nodeOf s (s.NoRefill n nr) (Sys.slabTcacheAlloc L nodeOf n nr answers got s) := by
  induction nr generalizing s got answers with
  | zero => exact .ok ⟨h, fun _ => rfl⟩
  | succ nr ih =>
    rw [Sys.slabTcacheAlloc]
    obtain ⟨x, hx, ha⟩ : ∃ x, s.slabNodeAlloc L nodeOf n (answers 0) = x ∧ Comes _ _ x :=
      ⟨_, rfl, Sys.slabNodeAlloc_comes s n (answers 0)⟩
    rw [hx]
    obtain hd | @⟨⟨r, t⟩, hall⟩ := ha
    · exact .stop hd
    · obtain ⟨H, carved, hI⟩ := h
      obtain ⟨hS, ⟨x, rfl, hh⟩ | ⟨rfl, hh⟩⟩ := hI.allocates hL hall
      · obtain ⟨H', carved', hI'⟩ := hS
        have hx : x ∉ got := by
          have hndt := hI'.items.caller.nodup
          rw [hh.handed] at hndt
          exact fun hm => (nodup_cons.1 hndt).1 (hgot x hm).1
        have hgot' : ∀ y ∈ x :: got, y ∈ t.handed ∧ nodeOf (y / L.pgsize) = n := by
          intro y hy
          rw [hh.handed]
          rcases mem_cons.1 hy with rfl | hy
          · exact ⟨.head _, hh.node⟩
          · exact ⟨.tail _ (hgot y hy).1, (hgot y hy).2⟩
        refine (ih ⟨H', carved', hI'⟩ (nodup_cons.2 ⟨hx, hnd⟩) hgot' (answers ∘ Nat.succ)).imp
          (fun _ => id) fun s' ⟨hS', hex'⟩ => ⟨hS', fun hr => ?_⟩
        obtain ⟨hex, hr'⟩ := hall.excess hr
        exact (hex' (hr' nofun)).trans hex
      · obtain ⟨s', hs', hS', hex'⟩ := slabTcacheFree hS hL hnd fun y hy => by
          rw [hh]
          exact hgot y hy
        dsimp only
        rw [hs']
        exact .ok ⟨hS', fun hr => hex'.trans (hall.excess hr).1⟩

end Sound

/-- The items that a thread-local cache frees are on pages of the node it frees them on. -/
def Local (L : Layout) (nodeOf : ℕ → Fin k) : Event k → Prop
  | .tcacheFree n items => ∀ x ∈ items, nodeOf (x / L.pgsize) = n
  | _ => True

instance : DecidablePred (Local L nodeOf) := fun e => by cases e <;> dsimp only [Local] <;> infer_instance

def Counted (s : Sys k) : Event k → Prop
  | .alloc n _ => s.NoRefill n 1
  | .tcacheAlloc n nr _ => s.NoRefill n nr
  | _ => True

instance : DecidablePred (Counted s) := fun e => by cases e <;> dsimp only [Counted] <;> infer_instance

lemma Sound.step_fine (h : Sound L nodeOf s) (hL : L.Fits) {e : Event k} (he : Local L nodeOf e) :
    Fine L nodeOf s (Counted s e) (step L nodeOf s e) := by
  obtain ⟨H, carved, hI⟩ := h
  cases e with
  | alloc n answer =>
    rw [step]
    exact (Sys.slabNodeAlloc_comes s n answer).map fun x hall =>
      ⟨(hI.allocates hL hall).1, fun hr => (hall.excess hr).1⟩
  | free item =>
    rw [step]
    split
    · rename_i hx
      obtain ⟨s', hs', hf⟩ := hI.slabNodeFree hL hx rfl rfl
      rw [Sys.slabFree, hs']
      exact .ok ⟨hf.sound, fun _ => hf.excess⟩
    · exact .stop rfl
  | tcacheAlloc n nr answers =>
    exact Sound.slabTcacheAlloc ⟨H, carved, hI⟩ hL nodup_nil nofun answers
  | tcacheFree n items =>
    rw [step]
    split
    · rename_i hg
      obtain ⟨s', hs', hS, hex⟩ := Sound.slabTcacheFree ⟨H, carved, hI⟩ hL hg.1 fun x hx => ⟨hg.2 x hx, he x hx⟩
      rw [hs']
      exact .ok ⟨hS, fun _ => hex⟩
    · exact .stop rfl
  | write item v =>
    rw [step]
    split
    · rename_i hx
      exact .ok ⟨⟨_, carved, hI.items.write hx v, ⟨hI.spots.nodup, hI.spots.perm⟩, hI.sorted⟩, fun _ => rfl⟩
    · exact .stop rfl

lemma Init.sound (h : Init s) : Sound L nodeOf s := by
  refine ⟨_, _, h.items, ⟨?_, fun n => ?_⟩, fun n => ?_⟩
  · rw [h.held]
    exact nodup_nil
  · rw [h.nodes n, h.held]
    exact .refl _
  · rw [h.nodes n]
    exact fun _ => ⟨nofun, nofun, nofun⟩

lemma Init.excess (h : Init s) (n : Fin k) : s.excess n = 0 := by
  rw [Sys.excess, h.nodes n]
  rfl

/-! ## Accounting -/

structure Accounted (L : Layout) (nodeOf : ℕ → Fin k) (s : Sys k) : Prop where
  /-- a page that is held is current or on a list of its own node, and nowhere else -/
  placed : ∀ n pg, (s.nodes n).pages.count pg = if pg ∈ s.held ∧ nodeOf pg = n then 1 else 0
  /-- the counter of a page is the number of its items that are not handed out -/
  count : ∀ pg ∈ s.held, (s.pages pg).itemCount + (s.handed.filter (· / L.pgsize = pg)).length = L.nrElems
  /-- these are the ones on its list, which have been freed, and those after the first `c`, which are carved only
  while the page is current -/
  free : ∀ pg ∈ s.held, ∃ l c, collect s.nextHdr L.nrElems (s.pages pg).next = some l ∧ l.Nodup ∧
    c ≤ L.nrElems ∧ (s.pages pg).itemCount = l.length + (L.nrElems - c) ∧
    (∀ x, (x ∈ l ∨ x ∈ s.handed ∧ x / L.pgsize = pg) ↔ ∃ i < c, x = L.item pg i) ∧
    (∀ x ∈ l, x ∉ s.handed) ∧
    (c ≠ L.nrElems → (s.nodes (nodeOf pg)).curPg = some pg ∧ (s.nodes (nodeOf pg)).pgOff = L.offset + c * L.size)
  /-- a page is held as long as it is current or an item of it is handed out -/
  returned : ∀ pg, pg ∈ s.held ↔ (s.nodes (nodeOf pg)).curPg = some pg ∨ ∃ x ∈ s.handed, x / L.pgsize = pg
  handed : s.handed.Nodup

lemma Spots.count_pages (h : Spots nodeOf s) (n : Fin k) (pg : ℕ) :
    (s.nodes n).pages.count pg = if pg ∈ s.held ∧ nodeOf pg = n then 1 else 0 := by
  split
  · rename_i hp
    exact count_eq_one_of_mem (h.pages_nodup n) (h.mem_pages.2 hp)
  · rename_i hp
    exact count_eq_zero_of_not_mem fun hm => hp (h.mem_pages.1 hm)

namespace Inv

variable {H : Heap ℕ Place} {carved : ℕ → ℕ}

lemma current (h : Inv L nodeOf s H carved) (hpg : pg ∈ s.held) (hc : carved pg ≠ L.nrElems) :
    (s.nodes (nodeOf pg)).curPg = some pg ∧
      (s.nodes (nodeOf pg)).pgOff = L.offset + carved pg * L.size := by
  have hS := h.sorted (nodeOf pg)
  have hcur : (s.nodes (nodeOf pg)).curPg = some pg := by
    by_contra hne
    rcases h.spots.listed hpg rfl hne with hf | hp
    · exact hc ((hS pg).full hf).2
    · exact hc ((hS pg).part hp).2.2
  exact ⟨hcur, (hS pg).off hcur (lt_of_le_of_ne (h.items.carved_le pg) hc)⟩

lemma held_iff (h : Inv L nodeOf s H carved) (hL : L.Fits) (pg : ℕ) :
    pg ∈ s.held ↔ (s.nodes (nodeOf pg)).curPg = some pg ∨ ∃ x ∈ s.handed, x / L.pgsize = pg := by
  constructor
  · intro hpg
    by_cases hc : (s.nodes (nodeOf pg)).curPg = some pg
    · exact .inl hc
    · refine .inr ((h.items.handed_iff hL hpg).2 fun hall => ?_)
      have hthr := hL.thresh
      rcases h.spots.listed hpg rfl hc with hf | hp
      · have hlt := ((h.sorted _ pg).full hf).1
        omega
      · have hlt := ((h.sorted _ pg).part hp).2.1
        omega
  · rintro (hc | ⟨x, hx, rfl⟩)
    · exact (h.cur_held hc).1
    · exact h.items.page_held hL (h.items.owner_of_handed hx)

lemma accounted (h : Inv L nodeOf s H carved) (hL : L.Fits) : Accounted L nodeOf s := by
  refine ⟨h.spots.count_pages, fun pg hpg => h.items.count hL hpg, fun pg hpg => ?_, h.held_iff hL,
    h.items.caller.nodup⟩
  obtain ⟨m, ⟨l, hch, hm, hl⟩, hcnt⟩ := h.items.free pg hpg
  have hle := h.items.carved_le pg
  have hperm := h.items.perm hL hl
  have hlen : l.length ≤ L.nrElems := by
    have := hperm.length_eq
    rw [length_append, length_map, length_range] at this
    omega
  refine ⟨l, carved pg, ?_, hl.nodup, hle, by omega, fun x => ?_, fun x hx hh => ?_, h.current hpg⟩
  · rw [← h.items.next, hch.collect, if_pos hlen]
  · have hmem := hperm.mem_iff (a := x)
    rw [mem_append, mem_filter, decide_eq_true_eq, mem_map] at hmem
    rw [hmem]
    exact exists_congr fun i => and_congr mem_range eq_comm
  · have ho := (hl.mem x).1 hx
    rw [(h.items.caller.mem x).1 hh] at ho
    cases ho

end Inv

lemma Sound.of_reaches {ok : Sys k → Event k → Prop} (hL : L.Fits) (hok : ∀ s e, ok s e → Local L nodeOf e)
    (h : Reaches (step L nodeOf) ok Init s) : Sound L nodeOf s :=
  h.invariant (fun _ hi => hi.sound) fun s e _ hs he hst => ((hs.step_fine hL (hok s e he)).of_ok hst).1

def Sys.empty (k : ℕ) : Sys k := ⟨fun _ => ⟨none, 0, [], [], 0⟩, fun _ => ⟨none, 0⟩, fun _ => none, [], []⟩

lemma init_empty : Init (Sys.empty k) := ⟨fun _ => rfl, rfl, rfl⟩

def eightSlab : Layout := ⟨4096, 512, 0, 8⟩

example : slabCreate 512 false false = some eightSlab := by decide

def parity (pg : ℕ) : Fin 2 := Fin.ofNat 2 pg

/-- With every item freed to the node of its page, the pages and items of a slab are accounted for and no list is
corrupted. If besides no allocation takes a page from a partial list, the page counters are right. -/
theorem pages_accounted (L : Layout) (hL : L.Fits) (nodeOf : ℕ → Fin k) :
    (∀ s, Reaches (step L nodeOf) (fun _ e => Local L nodeOf e) Init s → Accounted L nodeOf s ∧
      ∀ e, Local L nodeOf e → step L nodeOf s e ≠ .error .corrupt) ∧
    ∀ s, Reaches (step L nodeOf) (fun s e => Local L nodeOf e ∧ Counted s e) Init s →
      ∀ n, (s.nodes n).nrPages = (s.held.filter (nodeOf · = n)).length := by
  constructor
  · intro s h
    have hS := Sound.of_reaches hL (fun _ _ he => he) h
    obtain ⟨H, carved, hI⟩ := id hS
    exact ⟨hI.accounted hL, fun e he hst => nomatch (hS.step_fine hL he).of_error hst⟩
  · intro s h
    obtain ⟨H, carved, hI⟩ := Sound.of_reaches hL (fun _ _ he => he.1) h
    have hex : Sound L nodeOf s ∧ ∀ n, s.excess n = 0 := by
      refine h.invariant (I := fun s => Sound L nodeOf s ∧ ∀ n, s.excess n = 0)
        (fun s hi => ⟨hi.sound, hi.excess⟩) fun s e s' hs he hst => ?_
      obtain ⟨hS, hex⟩ := (hs.1.step_fine hL he.1).of_ok hst
      refine ⟨hS, fun n => ?_⟩
      rw [hex he.2]
      exact hs.2 n
    intro n
    have h0 := hex.2 n
    rw [Sys.excess, (hI.spots.perm n).length_eq] at h0
    exact Int.sub_eq_zero.1 h0

theorem pages_accounted_two_nodes :
    ∃ s, Reaches (step eightSlab parity) (fun s e => Local eightSlab parity e ∧ Counted s e) Init s ∧
      s.held = [2, 3] ∧ s.handed = [8192, 12288] ∧ Accounted eightSlab parity s ∧
      ∀ n, (s.nodes n).nrPages = (s.held.filter (parity · = n)).length := by
  refine Reaches.of_exec_imp (s := .empty 2) (P := fun s => (s.held = [2, 3] ∧ s.handed = [8192, 12288]))
    [.tcacheAlloc 1 9 fun i => some (if i < 8 then 1 else 3), .alloc 0 (some 2), .write 4096 (some 7),
        .tcacheFree 1 [4096, 4608, 5120, 5632], .free 6144, .free 6656, .free 7168, .free 7680]
      init_empty (by decide +kernel) (by decide +kernel) ?_
  rintro s hr hh
  have hacc := pages_accounted eightSlab ⟨by decide, by decide, by decide⟩ parity
  exact ⟨hh.1, hh.2, (hacc.1 s (hr.mono fun _ _ he => he.1)).1, hacc.2 s hr⟩

/-- A cache that frees four items of a page on another node puts it on the partial list of that node; a current page
is taken from a list that it is not on. A page taken from the partial list is counted again. And the last items of the
slab of slab nodes are not on their page: freeing one changes the counter of another page. -/
theorem pages_misplaced :
    (∃ s : Sys 2, Reaches (step eightSlab parity) Counted Init s ∧
      1 ∈ s.held ∧ parity 1 = 1 ∧ (s.nodes 0).partialList = [1]) ∧
    (∃ s : Sys 2, Reaches (step eightSlab parity) Counted Init s ∧
      step eightSlab parity s (.tcacheFree 0 [4096, 4608, 5120, 5632]) = .error .corrupt) ∧
    (∃ s : Sys 1, Reaches (step eightSlab fun _ => 0) (fun _ e => Local eightSlab (fun _ => 0) e) Init s ∧
      s.held = [1, 0] ∧ (s.nodes 0).nrPages = 3) ∧ ∃ s : Sys 1, Reaches (step nodeSlab fun _ => 0)
        (fun s e => Local nodeSlab (fun _ => 0) e ∧ Counted s e) Init s ∧
      s.held = [0] ∧ (s.pages 0).itemCount = 2 ∧
      (s.handed.filter (· / nodeSlab.pgsize = 0)).length = 43 ∧ nodeSlab.nrElems = 46 ∧
      (s.pages 1).itemCount = 1 := by
  refine ⟨?_, ?_, ?_, ?_⟩
  · exact Reaches.of_exec (s := .empty 2)
      [.tcacheAlloc 1 9 fun i => some (if i < 8 then 1 else 3), .tcacheFree 0 [4096, 4608, 5120, 5632]]
      init_empty (by decide +kernel) (by decide +kernel)
  · exact Reaches.of_exec (s := .empty 2) [.tcacheAlloc 1 8 fun _ => some 1] init_empty (by decide +kernel)
      (by decide +kernel)
  · exact Reaches.of_exec (s := .empty 1)
      [.tcacheAlloc 0 9 fun i => some (if i < 8 then 0 else 1), .tcacheFree 0 [0, 512, 1024, 1536],
        .tcacheAlloc 0 8 fun _ => none] init_empty (by decide +kernel) (by decide +kernel)
  · exact Reaches.of_exec (s := .empty 1) [.tcacheAlloc 0 44 fun _ => some 0, .free (43 * 96)] init_empty
      (by decide +kernel) (by decide +kernel)

end Aspen.Slab
