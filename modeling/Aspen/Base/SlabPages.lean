import Aspen.Base.SlabItems

/-!
# The pages of a slab

Each page that a slab holds is the current page of its node, or on one list of it: on the full list with few
free items, or on the partial list with more. A page is returned when all its items are free, unless it is
current. Pages are carved only while they are current, which is why the offset can be kept in the node.
-/

namespace Aspen.Slab

open Links Function List

def Node.pages (N : Node) : List ℕ := N.curPg.toList ++ N.fullList ++ N.partialList

def Node.unlist (N : Node) (pg : ℕ) : Node :=
  { N with fullList := N.fullList.erase pg, partialList := N.partialList.erase pg }

variable {k : ℕ} {L : Layout} {nodeOf : ℕ → Fin k} {s s' : Sys k} {n : Fin k} {N : Node}
  {H : Heap ℕ Place} {carved carved' : ℕ → ℕ} {pages : ℕ → Page} {pg item c : ℕ} {p : Page}

/-! ## Where pages are -/

lemma Node.mem_pages : pg ∈ N.pages ↔ N.curPg = some pg ∨ pg ∈ N.fullList ∨ pg ∈ N.partialList := by
  rw [Node.pages, mem_append, mem_append, Option.mem_toList, or_assoc]

structure Spots (nodeOf : ℕ → Fin k) (s : Sys k) : Prop where
  nodup : s.held.Nodup
  perm : ∀ n, (s.nodes n).pages.Perm (s.held.filter (nodeOf · = n))

lemma filter_node_self (hn : nodeOf pg = n) (l : List ℕ) :
    (pg :: l).filter (nodeOf · = n) = pg :: l.filter (nodeOf · = n) :=
  filter_cons_of_pos (p := (decide <| nodeOf · = n)) (decide_eq_true hn)

lemma filter_node_of_ne (hn : nodeOf pg ≠ n) (l : List ℕ) :
    (pg :: l).filter (nodeOf · = n) = l.filter (nodeOf · = n) :=
  filter_cons_of_neg (p := (decide <| nodeOf · = n)) fun he => hn (of_decide_eq_true he)

namespace Spots

section

variable (h : Spots nodeOf s)
include h

lemma mem_pages : pg ∈ (s.nodes n).pages ↔ pg ∈ s.held ∧ nodeOf pg = n := by
  rw [(h.perm n).mem_iff, mem_filter, decide_eq_true_eq]

lemma pages_nodup (n : Fin k) : (s.nodes n).pages.Nodup := (h.perm n).nodup_iff.2 (h.nodup.filter _)

lemma not_mem_of_ne {m : Fin k} (hpg : nodeOf pg = n) (hm : m ≠ n) : pg ∉ (s.nodes m).pages :=
  fun hp => hm ((h.mem_pages.1 hp).2.symm.trans hpg)

lemma withNode (hN : N.pages.Perm (s.nodes n).pages) : Spots nodeOf (s.withNode n N) := by
  refine ⟨h.nodup, (forall_update_iff s.nodes fun m N => N.pages.Perm (s.held.filter (nodeOf · = m))).2 ?_⟩
  exact ⟨hN.trans (h.perm n), fun m _ => h.perm m⟩

lemma fresh (hpg : pg ∉ s.held) (hn : nodeOf pg = n) (hN : N.pages.Perm (pg :: (s.nodes n).pages)) :
    Spots nodeOf { s.withNode n N with held := pg :: s.held } := by
  refine ⟨nodup_cons.2 ⟨hpg, h.nodup⟩, (forall_update_iff s.nodes fun m N =>
    N.pages.Perm ((pg :: s.held).filter (nodeOf · = m))).2 ⟨?_, fun m hm => ?_⟩⟩
  · rw [filter_node_self hn]
    exact hN.trans ((h.perm n).cons pg)
  · rw [filter_node_of_ne fun he => hm (he.symm.trans hn)]
    exact h.perm m

lemma release (hn : nodeOf pg = n) (hN : (s.nodes n).pages.Perm (pg :: N.pages)) :
    Spots nodeOf { s.withNode n N with held := s.held.erase pg } := by
  have hpg : pg ∈ s.held := (h.mem_pages.1 (hN.mem_iff.2 (.head _))).1
  have hp := fun m => (h.perm m).trans ((perm_cons_erase hpg).filter _)
  refine ⟨h.nodup.erase pg, (forall_update_iff s.nodes fun m N =>
    N.pages.Perm ((s.held.erase pg).filter (nodeOf · = m))).2 ⟨?_, fun m hm => ?_⟩⟩
  · rw [← perm_cons pg, ← filter_node_self hn]
    exact hN.symm.trans (hp n)
  · rw [← filter_node_of_ne fun he => hm (he.symm.trans hn)]
    exact hp m

lemma slabNodePut (pg item : ℕ) : Spots nodeOf (s.slabNodePut pg item) := ⟨h.nodup, h.perm⟩

lemma listed (hpg : pg ∈ s.held) (hn : nodeOf pg = n)
    (hc : (s.nodes n).curPg ≠ some pg) : pg ∈ (s.nodes n).fullList ∨ pg ∈ (s.nodes n).partialList := by
  exact (Node.mem_pages.1 (h.mem_pages.2 ⟨hpg, hn⟩)).resolve_left hc

lemma listDel (hn : nodeOf pg = n) (hpg : pg ∈ (s.nodes n).fullList ∨ pg ∈ (s.nodes n).partialList) :
    s.listDel pg = .ok (s.withNode n ((s.nodes n).unlist pg)) := by
  rw [Sys.listDel, if_pos ⟨n, hpg⟩]
  refine congrArg (fun nodes => Except.ok { s with nodes := nodes }) (funext fun m => ?_)
  by_cases hm : m = n
  · subst hm
    rw [update_self]
    rfl
  · have hnot := h.not_mem_of_ne hn hm
    rw [Node.mem_pages, not_or, not_or] at hnot
    rw [update_of_ne hm, erase_of_not_mem hnot.2.1, erase_of_not_mem hnot.2.2]

end

end Spots

/-! ## What the lists say about pages -/

/-- A page is where the number of its free items says, and is only carved while it is current, at the offset that is
kept. -/
structure Node.Placed (L : Layout) (N : Node) (pg : ℕ) (p : Page) (c : ℕ) : Prop where
  full : pg ∈ N.fullList → p.itemCount < partialThresh ∧ c = L.nrElems
  part : pg ∈ N.partialList → partialThresh ≤ p.itemCount ∧ p.itemCount < L.nrElems ∧ c = L.nrElems
  off : N.curPg = some pg → c < L.nrElems → N.pgOff = L.offset + c * L.size

def Node.Sorted (L : Layout) (pages : ℕ → Page) (carved : ℕ → ℕ) (N : Node) : Prop :=
  ∀ pg, N.Placed L pg (pages pg) (carved pg)

lemma Node.Placed.of_not_mem (hpg : pg ∉ N.pages) (p : Page) (c : ℕ) : N.Placed L pg p c := by
  rw [Node.mem_pages, not_or, not_or] at hpg
  exact ⟨fun hf => absurd hf hpg.2.1, fun hp => absurd hp hpg.2.2, fun hc => absurd hc hpg.1⟩

namespace Node

lemma not_listed (hnd : N.pages.Nodup) (hc : N.curPg = some pg) : pg ∉ N.fullList ∧ pg ∉ N.partialList := by
  have hd := nodup_append.1 hnd
  have hd' := nodup_append.1 hd.1
  have hcm : pg ∈ N.curPg.toList := Option.mem_toList.2 hc
  exact ⟨fun hp => hd'.2.2 pg hcm pg hp rfl, fun hp => hd.2.2 pg (mem_append_left _ hcm) pg hp rfl⟩

lemma Placed.of_cur (hnd : N.pages.Nodup) (hc : N.curPg = some pg)
    (hoff : c < L.nrElems → N.pgOff = L.offset + c * L.size) : N.Placed L pg p c := by
  obtain ⟨hf, hpt⟩ := not_listed hnd hc
  exact ⟨fun hm => absurd hm hf, fun hm => absurd hm hpt, fun _ => hoff⟩

lemma Sorted.change (h : ∀ pg' ≠ pg, N.Placed L pg' (pages pg') (carved pg')) (hpg : N.Placed L pg p c) :
    N.Sorted L (update pages pg p) (update carved pg c) := by
  intro pg'
  by_cases he : pg' = pg
  · subst he
    rw [update_self, update_self]
    exact hpg
  · rw [update_of_ne he, update_of_ne he]
    exact h pg' he

lemma unlist_pages (hnd : N.pages.Nodup) (hpg : pg ∈ N.fullList ∨ pg ∈ N.partialList) :
    (N.unlist pg).pages = N.pages.erase pg := by
  obtain ⟨hnd', -, hdis⟩ := nodup_append.1 hnd
  obtain ⟨-, -, hdis'⟩ := nodup_append.1 hnd'
  show N.curPg.toList ++ N.fullList.erase pg ++ N.partialList.erase pg =
    (N.curPg.toList ++ N.fullList ++ N.partialList).erase pg
  rcases hpg with hf | hp
  · have hc : pg ∉ N.curPg.toList := fun hc => hdis' pg hc pg hf rfl
    have hp : pg ∉ N.partialList := fun hp => hdis pg (mem_append_right _ hf) pg hp rfl
    rw [erase_append_left _ (mem_append_right _ hf), erase_append_right _ hc, erase_of_not_mem hp]
  · have hcf : pg ∉ N.curPg.toList ++ N.fullList := fun hm => hdis pg hm pg hp rfl
    have hf : pg ∉ N.fullList := fun hf => hcf (mem_append_right _ hf)
    rw [erase_append_right _ hcf, erase_of_not_mem hf]

lemma unlist_perm (hnd : N.pages.Nodup) (hpg : pg ∈ N.fullList ∨ pg ∈ N.partialList) :
    N.pages.Perm (pg :: (N.unlist pg).pages) := by
  rw [unlist_pages hnd hpg]
  exact perm_cons_erase (mem_pages.2 (.inr hpg))

lemma unlist_not_mem (hnd : N.pages.Nodup) (hpg : pg ∈ N.fullList ∨ pg ∈ N.partialList) : pg ∉ (N.unlist pg).pages :=
  (nodup_cons.1 ((unlist_perm hnd hpg).nodup_iff.1 hnd)).1

lemma Placed.unlist {pg' : ℕ} (h : N.Placed L pg' p c) (pg : ℕ) : (N.unlist pg).Placed L pg' p c :=
  ⟨fun hm => h.full (mem_of_mem_erase hm), fun hm => h.part (mem_of_mem_erase hm), h.off⟩

end Node

/-- What holds of a slab: the items of its pages, where the pages are, and the order of its nodes. -/
structure Inv (L : Layout) (nodeOf : ℕ → Fin k) (s : Sys k) (H : Heap ℕ Place) (carved : ℕ → ℕ) : Prop where
  items : Items L s H carved
  spots : Spots nodeOf s
  sorted : ∀ n, (s.nodes n).Sorted L s.pages carved

def Sound (L : Layout) (nodeOf : ℕ → Fin k) (s : Sys k) : Prop := ∃ H carved, Inv L nodeOf s H carved

lemma Inv.replace {H' : Heap ℕ Place} (h : Inv L nodeOf s H carved) (hn : nodeOf pg = n)
    (hi : Items L s' H' carved') (hsp : Spots nodeOf s') (hnodes : s'.nodes = update s.nodes n N)
    (hpages : s'.pages = update s.pages pg p) (hcv : carved' = update carved pg c)
    (hN : ∀ pg' ≠ pg, N.Placed L pg' (s.pages pg') (carved pg')) (hpg : N.Placed L pg p c) : Sound L nodeOf s' := by
  subst hcv
  refine ⟨_, _, hi, hsp, ?_⟩
  rw [hnodes, hpages]
  exact (forall_update_iff s.nodes fun _ N => N.Sorted L _ _).2 ⟨.change hN hpg, fun m hm =>
    .change (fun pg' _ => h.sorted m pg') (.of_not_mem (h.spots.not_mem_of_ne hn hm) _ _)⟩

/-- By how much the counter of a node exceeds the number of its pages. -/
def Sys.excess (s : Sys k) (n : Fin k) : ℤ := (s.nodes n).nrPages - (s.nodes n).pages.length

/-! ## Allocation -/

variable {answer r : Option ℕ}

namespace Sys

def cleared (s : Sys k) (n : Fin k) : Sys k :=
  s.withNode n { s.nodes n with
    curPg := none, fullList := (s.nodes n).curPg.toList ++ (s.nodes n).fullList }

def refill (s : Sys k) (n : Fin k) (pg : ℕ) (l : List ℕ) : Sys k :=
  s.withNode n { s.nodes n with curPg := some pg, partialList := l, nrPages := (s.nodes n).nrPages + 1 }

def renew (L : Layout) (s : Sys k) (n : Fin k) (pg : ℕ) : Sys k :=
  { (s.withNode n { s.nodes n with
      curPg := some pg, pgOff := L.offset, nrPages := (s.nodes n).nrPages + 1 }).withPage pg
      ⟨none, L.nrElems⟩ with held := pg :: s.held }

inductive Allocates (L : Layout) (nodeOf : ℕ → Fin k) (s : Sys k) (n : Fin k) : Option ℕ → Sys k → Prop
  | here {pg : ℕ} : s.usable n = some pg →
      Allocates L nodeOf s n (some (s.slabNodeTake L n pg).1) (s.slabNodeTake L n pg).2
  | fail : s.usable n = none → (s.nodes n).partialList = [] → Allocates L nodeOf s n none (s.cleared n)
  | again {pg : ℕ} {l : List ℕ} : s.usable n = none → (s.nodes n).partialList = pg :: l →
      Allocates L nodeOf s n (some (((s.cleared n).refill n pg l).slabNodeTake L n pg).1)
        (((s.cleared n).refill n pg l).slabNodeTake L n pg).2
  | fresh {pg : ℕ} : s.usable n = none → (s.nodes n).partialList = [] → pg ∉ s.held → nodeOf pg = n →
      Allocates L nodeOf s n (some (((s.cleared n).renew L n pg).slabNodeTake L n pg).1)
        (((s.cleared n).renew L n pg).slabNodeTake L n pg).2

variable (s n)

@[simp] lemma withNode_nodes (N : Node) : (s.withNode n N).nodes n = N := update_self ..

@[simp] lemma withNode_withNode (N N' : Node) : (s.withNode n N).withNode n N' = s.withNode n N' := by
  unfold withNode
  rw [update_idem]

lemma retire_eq : s.retire n = s.withNode n { s.nodes n with
      fullList := (s.nodes n).curPg.toList ++ (s.nodes n).fullList } := by
  unfold retire
  cases hc : (s.nodes n).curPg with
  | none =>
    have he : { s.nodes n with fullList := [] ++ (s.nodes n).fullList } = s.nodes n := rfl
    rw [withNode, Option.toList, he, update_eq_self]
  | some pg => rfl

lemma slabNodeAlloc_comes (answer : Option ℕ) : Run.Comes (· = .disabled)
    (fun x => Allocates L nodeOf s n x.1 x.2) (s.slabNodeAlloc L nodeOf n answer) := by
  unfold slabNodeAlloc
  split
  · exact .ok (.here (by assumption))
  · rename_i hu
    rw [retire_eq]
    simp only [slabNodeGetPage, withNode_nodes]
    cases hp : (s.nodes n).partialList with
    | cons pg l =>
      refine .ok ?_
      simpa only [makeCurrent, refill, cleared, withNode_nodes, withNode_withNode] using Allocates.again hu hp
    | nil =>
      cases answer with
      | none =>
        refine .ok ?_
        simpa only [cleared, hp, withNode_nodes, withNode_withNode] using Allocates.fail hu hp
      | some pg =>
        by_cases hg : pg ∉ s.held ∧ nodeOf pg = n
        · have ha := Allocates.fresh (L := L) hu hp hg.1 hg.2
          simp only [renew, cleared, hp, withNode, withPage, update_self, update_idem] at ha
          simp only [withNode, withPage, makeCurrent, update_self, update_idem, if_pos hg]
          exact .ok ha
        · simp only [withNode, hg, ↓reduceIte]
          exact .stop rfl

variable {s n}

end Sys

structure Sys.Hands (L : Layout) (nodeOf : ℕ → Fin k) (s : Sys k) (n : Fin k) (x : ℕ) (s' : Sys k) : Prop where
  handed : s'.handed = x :: s.handed
  node : nodeOf (x / L.pgsize) = n

namespace Inv

section

variable (h : Inv L nodeOf s H carved)
include h

lemma cur_held (hc : (s.nodes n).curPg = some pg) : pg ∈ s.held ∧ nodeOf pg = n :=
  h.spots.mem_pages.1 (Node.mem_pages.2 (.inl hc))

lemma take (hL : L.Fits) (hc : (s.nodes n).curPg = some pg) (h0 : (s.pages pg).itemCount ≠ 0) :
    Sound L nodeOf (s.slabNodeTake L n pg).2 ∧
      s.Hands L nodeOf n (s.slabNodeTake L n pg).1 (s.slabNodeTake L n pg).2 := by
  obtain ⟨hpg, hn⟩ := h.cur_held hc
  have hnd := h.spots.pages_nodup n
  unfold Sys.slabNodeTake
  dsimp only
  split
  · rename_i hdr hnext
    refine ⟨h.replace hn (h.items.pop hpg hnext) ⟨h.spots.nodup, h.spots.perm⟩ (update_eq_self n s.nodes).symm rfl
      (update_eq_self pg carved).symm (fun pg' _ => h.sorted n pg') (.of_cur hnd hc ((h.sorted n pg).off hc)), rfl, ?_⟩
    obtain ⟨m, hl, -⟩ := h.items.free pg hpg
    rw [hnext] at hl
    rw [h.items.home hdr pg hl.owner_head, hn]
  · rename_i hnext
    obtain ⟨hlt, hi⟩ := h.items.carve hL hpg hnext h0
    have hoff := (h.sorted n pg).off hc hlt
    have hx : pg * L.pgsize + (s.nodes n).pgOff = L.item pg (carved pg) := by
      rw [hoff, Layout.item]
    rw [hx]
    have hsp : Spots nodeOf (s.withNode n { s.nodes n with pgOff := (s.nodes n).pgOff + L.size }) :=
      h.spots.withNode (.refl _)
    refine ⟨h.replace hn (hi.withNode n _) ⟨hsp.nodup, hsp.perm⟩ rfl rfl rfl (fun pg' hne => ?_)
      (.of_cur hnd hc fun _ => ?_), rfl, ?_⟩
    · exact ⟨(h.sorted n pg').full, (h.sorted n pg').part,
        fun hc' => absurd (Option.some.inj (hc'.symm.trans hc)) hne⟩
    · rw [hoff, Nat.add_one_mul, Nat.add_assoc]
    · rw [hL.item_div hlt, hn]

lemma withNode (hN : N.pages.Perm (s.nodes n).pages)
    (hS : N.Sorted L s.pages carved) : Inv L nodeOf (s.withNode n N) H carved :=
  ⟨h.items.withNode n N, h.spots.withNode hN,
    (forall_update_iff s.nodes fun _ N => N.Sorted L s.pages carved).2 ⟨hS, fun m _ => h.sorted m⟩⟩

lemma cleared (hu : s.usable n = none) : Inv L nodeOf (s.cleared n) H carved := by
  refine h.withNode (.refl _) fun pg => ⟨fun hpg => ?_, (h.sorted n pg).part, nofun⟩
  rcases mem_append.1 hpg with hpg | hpg
  · have hc := Option.mem_toList.1 hpg
    have h0 : (s.pages pg).itemCount = 0 := by
      by_contra hne
      rw [Sys.usable, hc, Option.filter_some, if_pos (decide_eq_true hne)] at hu
      cases hu
    rw [h0]
    exact ⟨by decide, h.items.carved_of_full (h.cur_held hc).1 h0⟩
  · exact (h.sorted n pg).full hpg

/-- A page of the partial list becomes current. It has been carved to its end. -/
lemma refill {l : List ℕ} (hc : (s.nodes n).curPg = none)
    (hp : (s.nodes n).partialList = pg :: l) : Inv L nodeOf (s.refill n pg l) H carved := by
  refine h.withNode ?_ fun pg' => ⟨(h.sorted n pg').full, fun hpg' => (h.sorted n pg').part ?_, fun he hlt => ?_⟩
  · rw [Node.pages, Node.pages, hc, hp]
    exact perm_middle.symm
  · rw [hp]
    exact .tail _ hpg'
  · cases he
    have hcv := ((h.sorted n pg).part (hp ▸ .head _)).2.2
    exact absurd hcv (Nat.ne_of_lt hlt)

lemma renew (hL : L.Fits) (hc : (s.nodes n).curPg = none)
    (hpg : pg ∉ s.held) (hn : nodeOf pg = n) : Sound L nodeOf (s.renew L n pg) := by
  obtain ⟨h0, hi⟩ := h.items.fresh hL hpg
  have hnot : pg ∉ (s.nodes n).pages := fun hp => hpg (h.spots.mem_pages.1 hp).1
  have hsp := h.spots.fresh (N := { s.nodes n with
    curPg := some pg, pgOff := L.offset, nrPages := (s.nodes n).nrPages + 1 }) hpg hn (by
      rw [Node.pages, Node.pages, hc]
      rfl)
  have hP := Node.Placed.of_not_mem (L := L) hnot ⟨none, L.nrElems⟩ (carved pg)
  refine h.replace hn (hi.withNode n _) ⟨hsp.nodup, hsp.perm⟩ rfl rfl (update_eq_self pg carved).symm
    (fun pg' hne => ⟨(h.sorted n pg').full, (h.sorted n pg').part, fun he => absurd (Option.some.inj he).symm hne⟩)
    ⟨hP.full, hP.part, fun _ _ => ?_⟩
  rw [h0, Nat.zero_mul, Nat.add_zero]

end

lemma cleared_curPg (s : Sys k) (n : Fin k) : ((s.cleared n).nodes n).curPg = none := by
  rw [Sys.cleared, Sys.withNode_nodes]

lemma allocates (h : Inv L nodeOf s H carved) (hL : L.Fits) (ha : s.Allocates L nodeOf n r s') : Sound L nodeOf s' ∧
      ((∃ x, r = some x ∧ s.Hands L nodeOf n x s') ∨ (r = none ∧ s'.handed = s.handed)) := by
  cases ha with
  | here hu =>
    obtain ⟨hc, h0⟩ := Option.filter_eq_some_iff.1 hu
    obtain ⟨hI, hh⟩ := h.take hL hc (of_decide_eq_true h0)
    exact ⟨hI, .inl ⟨_, rfl, hh⟩⟩
  | fail hu hp => exact ⟨⟨H, carved, h.cleared hu⟩, .inr ⟨rfl, rfl⟩⟩
  | again hu hp =>
    rename_i pg l
    have hp' : ((s.cleared n).nodes n).partialList = pg :: l := by
      rw [Sys.cleared, Sys.withNode_nodes]
      exact hp
    have hr := (h.cleared hu).refill (cleared_curPg s n) hp'
    have hcnt : (((s.cleared n).refill n pg l).pages pg).itemCount ≠ 0 := by
      have hle := ((h.sorted n pg).part (hp ▸ .head _)).1
      exact Nat.ne_of_gt (lt_of_lt_of_le (by decide) hle)
    obtain ⟨hI, hh⟩ := hr.take hL (by rw [Sys.refill, Sys.withNode_nodes]) hcnt
    exact ⟨hI, .inl ⟨_, rfl, hh.handed, hh.node⟩⟩
  | fresh hu hp hpg hn =>
    rename_i pg
    obtain ⟨H', carved', hr⟩ := (h.cleared hu).renew hL (cleared_curPg s n) hpg hn
    have hcnt : (((s.cleared n).renew L n pg).pages pg).itemCount ≠ 0 := by
      show Page.itemCount (update (s.cleared n).pages pg _ pg) ≠ 0
      rw [update_self]
      exact Nat.ne_of_gt (lt_of_le_of_lt (Nat.zero_le _) hL.thresh)
    have hcur : (((s.cleared n).renew L n pg).nodes n).curPg = some pg := by
      show Node.curPg (update (s.cleared n).nodes n _ n) = some pg
      rw [update_self]
    obtain ⟨hI, hh⟩ := hr.take hL hcur hcnt
    exact ⟨hI, .inl ⟨_, rfl, hh.handed, hh.node⟩⟩

/-! ## Freeing -/

end Inv

lemma Sys.slabNodePut_count : ((s.slabNodePut pg item).pages pg).itemCount = (s.pages pg).itemCount + 1 :=
  congrArg Page.itemCount (update_self pg _ s.pages)

lemma Sys.excess_withNode (hN : N.nrPages - N.pages.length = s.excess n) : (s.withNode n N).excess = s.excess := by
  funext m
  exact (forall_update_iff s.nodes fun m N => N.nrPages - N.pages.length = s.excess m).2 ⟨hN, fun m _ => rfl⟩ m

structure Sys.Frees (L : Layout) (nodeOf : ℕ → Fin k) (s : Sys k) (item : ℕ) (s' : Sys k) : Prop where
  sound : Sound L nodeOf s'
  handed : s'.handed = s.handed.erase item
  excess : s'.excess = s.excess

namespace Inv

section

variable (h : Inv L nodeOf s H carved) (hL : L.Fits) (hx : item ∈ s.handed) (hp : item / L.pgsize = pg)
  (hn : nodeOf pg = n)
include h hL hx hp

lemma held_of_handed : pg ∈ s.held := hp ▸ h.items.page_held hL (h.items.owner_of_handed hx)

include hn

lemma promote (hc : (s.nodes n).curPg ≠ some pg) (h4 : (s.pages pg).itemCount + 1 = partialThresh) :
    s.Frees L nodeOf item ((s.slabNodePut pg item).withNode n { (s.nodes n).unlist pg with
      partialList := pg :: ((s.nodes n).unlist pg).partialList }) := by
  have hS := h.sorted n
  have hlisted := h.spots.listed (h.held_of_handed hL hx hp) hn hc
  have hcv : carved pg = L.nrElems := hlisted.elim (fun hf => ((hS pg).full hf).2) fun hpt => ((hS pg).part hpt).2.2
  have hmoved : Node.pages { (s.nodes n).unlist pg with
      partialList := pg :: ((s.nodes n).unlist pg).partialList } |>.Perm (s.nodes n).pages :=
    perm_middle.trans (Node.unlist_perm (h.spots.pages_nodup n) hlisted).symm
  have hP := Node.Placed.of_not_mem (L := L) (Node.unlist_not_mem (h.spots.pages_nodup n) hlisted)
    ⟨some item, (s.pages pg).itemCount + 1⟩ (carved pg)
  refine ⟨h.replace hn ((h.items.put hL hx hp).withNode n _) ((h.spots.slabNodePut _ _).withNode hmoved) rfl rfl
    (update_eq_self pg carved).symm (fun pg' hne => ?_) ⟨hP.full, fun _ => ?_, hP.off⟩, rfl, Sys.excess_withNode ?_⟩
  · have hN := (hS pg').unlist pg
    exact ⟨hN.full, fun hm => hN.part ((mem_cons.1 hm).resolve_left hne), hN.off⟩
  · exact ⟨h4.ge, h4.trans_lt hL.thresh, hcv⟩
  · rw [hmoved.length_eq]
    rfl

lemma giveBack (hc : (s.nodes n).curPg ≠ some pg) (hall : (s.pages pg).itemCount + 1 = L.nrElems) :
    s.Frees L nodeOf item { (s.slabNodePut pg item).withNode n { (s.nodes n).unlist pg with
      nrPages := (s.nodes n).nrPages - 1 } with held := s.held.erase pg } := by
  have hpg := h.held_of_handed hL hx hp
  have hlisted := h.spots.listed hpg hn hc
  have hperm := Node.unlist_perm (h.spots.pages_nodup n) hlisted
  have hrel := (h.items.put hL hx hp).release hL h.spots.nodup hpg (Sys.slabNodePut_count.trans hall)
  have hP := Node.Placed.of_not_mem (L := L) (Node.unlist_not_mem (h.spots.pages_nodup n) hlisted)
    ⟨some item, (s.pages pg).itemCount + 1⟩ 0
  refine ⟨h.replace hn (hrel.withNode n _) ((h.spots.slabNodePut _ _).release hn hperm) rfl rfl rfl (fun pg' _ => ?_)
    ⟨hP.full, hP.part, hP.off⟩, rfl, ?_⟩
  · have hN := (h.sorted n pg').unlist pg
    exact ⟨hN.full, hN.part, hN.off⟩
  · refine Sys.excess_withNode (s := s.slabNodePut pg item) (N := { (s.nodes n).unlist pg with
      nrPages := (s.nodes n).nrPages - 1 }) ?_
    show (s.nodes n).nrPages - 1 - (((s.nodes n).unlist pg).pages.length : ℤ) =
      (s.nodes n).nrPages - ((s.nodes n).pages.length : ℤ)
    rw [hperm.length_eq, length_cons]
    omega

lemma stay (hc : (s.nodes n).curPg = some pg ∨
      ((s.pages pg).itemCount + 1 ≠ partialThresh ∧ (s.pages pg).itemCount + 1 ≠ L.nrElems)) :
    s.Frees L nodeOf item (s.slabNodePut pg item) := by
  have hS := h.sorted n
  have hlists (hcur : (s.nodes n).curPg = some pg) := Node.not_listed (h.spots.pages_nodup n) hcur
  refine ⟨h.replace hn (h.items.put hL hx hp) (h.spots.slabNodePut _ _) (update_eq_self n s.nodes).symm rfl
    (update_eq_self pg carved).symm (fun pg' _ => hS pg') ⟨fun hf => ?_, fun hpt => ?_, (hS pg).off⟩, rfl, rfl⟩
  · obtain ⟨hlt, hcv⟩ := (hS pg).full hf
    obtain ⟨h4, -⟩ := hc.resolve_left fun hcur => (hlists hcur).1 hf
    dsimp only
    omega
  · obtain ⟨hle, hlt, hcv⟩ := (hS pg).part hpt
    obtain ⟨-, hall⟩ := hc.resolve_left fun hcur => (hlists hcur).2 hpt
    dsimp only
    omega

lemma slabNodeFree : ∃ s', s.slabNodeFree L n item = .ok s' ∧ s.Frees L nodeOf item s' := by
  rw [Sys.slabNodeFree, hp]
  by_cases hc : (s.nodes n).curPg = some pg
  · rw [if_pos (show ((s.slabNodePut pg item).nodes n).curPg = some pg from hc)]
    exact ⟨_, rfl, h.stay hL hx hp hn (.inl hc)⟩
  · rw [if_neg (show ((s.slabNodePut pg item).nodes n).curPg ≠ some pg from hc), Sys.slabNodePut_count]
    have hdel := (h.spots.slabNodePut pg item).listDel hn (h.spots.listed (h.held_of_handed hL hx hp) hn hc)
    by_cases h4 : (s.pages pg).itemCount + 1 = partialThresh
    · rw [if_pos h4, hdel]
      dsimp only
      rw [Sys.withNode_nodes, Sys.withNode_withNode]
      exact ⟨_, rfl, h.promote hL hx hp hn hc h4⟩
    · rw [if_neg h4]
      by_cases hall : (s.pages pg).itemCount + 1 = L.nrElems
      · rw [if_pos hall, hdel]
        dsimp only
        rw [Sys.withNode_nodes, Sys.withNode_withNode]
        exact ⟨_, rfl, h.giveBack hL hx hp hn hc hall⟩
      · rw [if_neg hall]
        exact ⟨_, rfl, h.stay hL hx hp hn (.inr ⟨h4, hall⟩)⟩

end

end Inv

end Aspen.Slab
