import Mathlib.Algebra.BigOperators.Group.Finset.Piecewise
import Aspen.Base.Tcache

/-!
# The magazines

Every item is in one place: with the backing allocator, with a caller, in one of the two magazines of a handle, in a
shared magazine, or in the hands of a thread that is inside the slow paths. What an operation does is a sequence of
moves, each of which passes items from one place to another, and leaves what is linked in the other places alone.
-/

namespace Aspen.Tcache

open Links Function Finset

variable {τ ι : Type*}

inductive Place (τ : Type*)
  | backing
  | caller
  | loaded (t : τ)
  | previous (t : τ)
  | shared
  | transit (t : τ)
  deriving DecidableEq

def Foreign (t : τ) : Place τ → Prop
  | .loaded t' | .previous t' | .transit t' => t' ≠ t
  | .backing | .caller | .shared => False

variable {H H' H'' : Heap ι (Place τ)} {P Q : Place τ} {n : ℕ} {t : τ} {h : Handle ι} {pc : Pc ι}
  {shared : Option ι} {callers obtained : List ι} {item m : ι}

def InTransit (n : ℕ) (H : Heap ι (Place τ)) (t : τ) : Pc ι → Prop
  | .idle | .poolAlloc | .magAlloc => H.Empty (.transit t)
  | .linking items => H.Owns (.transit t) items ∧ items.length = n
  | .poolFree item => H.Owns (.transit t) [item]
  | .reclaiming hdr => H.HasStack (.transit t) (some hdr) n
  | .releasing next => H.HasStack (.transit t) next n

def HasFull (n : ℕ) (H : Heap ι (Place τ)) (P : Place τ) (p : Option ι) : Prop :=
  ∃ k, (k ≠ 0 → k = n) ∧ H.HasList P p k

/-- A handle and the hands of its thread are in order, for magazines of size `n`. -/
structure Tidy (n : ℕ) (H : Heap ι (Place τ)) (t : τ) (h : Handle ι) (pc : Pc ι) : Prop where
  loaded : H.HasList (.loaded t) h.loaded h.rounds
  previous : HasFull n H (.previous t) h.previous
  transit : InTransit n H t pc
  capacity : h.capacity = n
  rounds : h.rounds ≤ n

structure Pooled (n : ℕ) (H : Heap ι (Place τ)) (shared : Option ι) (callers obtained : List ι) :
    Prop where
  shared : H.HasStack .shared shared n
  callers : H.Owns .caller callers
  nodup : obtained.Nodup
  obtained : ∀ x, x ∈ obtained ↔ H.owner x ≠ .backing

lemma InTransit.same (hi : InTransit n H t pc) (hs : H.Same (.transit t) H') : InTransit n H' t pc := by
  cases pc with
  | idle | poolAlloc | magAlloc => exact Heap.Empty.same hi hs
  | linking items => exact ⟨hi.1.same hs, hi.2⟩
  | poolFree item => exact Heap.Owns.same hi hs
  | reclaiming hdr | releasing next => exact Heap.HasStack.same hi hs

lemma HasFull.same {p : Option ι} (hf : HasFull n H P p) (hs : H.Same P H') : HasFull n H' P p := by
  obtain ⟨k, hk, hl⟩ := hf
  exact ⟨k, hk, hl.same hs⟩

lemma HasFull.of_empty (he : H.Empty P) : HasFull n H P none := ⟨0, absurd rfl, he.hasList⟩

lemma HasFull.of_some (hf : HasFull n H P (some m)) : H.HasList P (some m) n := by
  obtain ⟨k, hk, hl⟩ := hf
  have hne : k ≠ 0 := by
    rintro rfl
    exact nomatch hl.empty.1
  exact hk hne ▸ hl

lemma HasFull.of_none (hf : HasFull n H P none) : H.Empty P := by
  obtain ⟨k, -, hl⟩ := hf
  exact hl.of_none.2

def Around (t : τ) (H H' : Heap ι (Place τ)) : Prop := ∀ R, Foreign t R → H.Same R H'

lemma Around.trans (h : Around t H H') (h' : Around t H' H'') : Around t H H'' := fun R hR => (h R hR).trans (h' R hR)

lemma Tidy.around {t' : τ} (ht : Tidy n H t' h pc) (ha : Around t H H') (hne : t' ≠ t) : Tidy n H' t' h pc :=
  ⟨ht.loaded.same (ha _ hne), ht.previous.same (ha _ hne), ht.transit.same (ha _ hne), ht.capacity, ht.rounds⟩

lemma Pooled.owner (hp : Pooled n H shared callers obtained) (hm : H.Moved P Q H') (hP : P ≠ .backing)
    (hQ : Q ≠ .backing) (x : ι) : x ∈ obtained ↔ H'.owner x ≠ .backing :=
  (hp.obtained x).trans (not_congr (hm.same hP.symm hQ.symm x).1.symm)

/-! ## Moves -/

structure View (ι : Type*) where
  handle : Handle ι
  pc : Pc ι
  shared : Option ι
  callers : List ι
  obtained : List ι

variable {v v' : View ι} {next link next' link' : ι → Option ι}

structure Local (n : ℕ) (H : Heap ι (Place τ)) (t : τ) (v : View ι) : Prop where
  tidy : Tidy n H t v.handle v.pc
  pooled : Pooled n H v.shared v.callers v.obtained

def Leads (n : ℕ) (t : τ) (H : Heap ι (Place τ)) (next link : ι → Option ι) (v : View ι) : Prop :=
  ∃ owner, Around t H ⟨next, link, owner⟩ ∧ Local n ⟨next, link, owner⟩ t v

lemma Local.leads (hv : Local n H t v) : Leads n t H H.next H.link v := ⟨H.owner, fun R _ => .refl H R, hv⟩

lemma Leads.trans (hl : Leads n t H next link v)
    (h : ∀ owner, Local n ⟨next, link, owner⟩ t v → Leads n t ⟨next, link, owner⟩ next' link' v') :
    Leads n t H next' link' v' := by
  obtain ⟨owner, ha, hv⟩ := hl
  obtain ⟨owner', ha', hv'⟩ := h owner hv
  exact ⟨owner', ha.trans ha', hv'⟩

lemma Leads.of_moved (hm : H.Moved P Q H') (hP : ¬ Foreign t P) (hQ : ¬ Foreign t Q)
    (hn : H'.next = next) (hl : H'.link = link) (ht : Tidy n H' t v.handle v.pc)
    (hp : Pooled n H' v.shared v.callers v.obtained) : Leads n t H next link v := by
  subst hn hl
  exact ⟨H'.owner, fun _ hR => hm.same (fun he => hP (he ▸ hR)) fun he => hQ (he ▸ hR), ht, hp⟩

lemma Local.settle (hv : Local n H t v) (pc : Pc ι) (hi : InTransit n H t pc) : Local n H t { v with pc := pc } :=
  ⟨⟨hv.tidy.loaded, hv.tidy.previous, hi, hv.tidy.capacity, hv.tidy.rounds⟩, hv.pooled⟩

lemma InTransit.of_stack {p : Option ι} (hs : H.HasStack (.transit t) p n) : InTransit n H t (Sys.reclaimLoop p) := by
  cases p with
  | none => exact hs.of_none
  | some m => exact hs

variable {items : List ι}

section Items

variable [DecidableEq ι]

section

variable (hv : Local n H t v)
include hv

lemma Local.take {k : ℕ} (hl : v.handle.loaded = some item)
    (hk : v.handle.rounds = k + 1) : Leads n t H H.next H.link
      { v with handle := { v.handle with rounds := k, loaded := H.next item }, callers := item :: v.callers } := by
  obtain ⟨ht, hp⟩ := hv
  have hlist : H.HasList (.loaded t) (some item) (k + 1) := hl ▸ hk ▸ ht.loaded
  have howner : H.owner item = .loaded t := hlist.owner_head
  have hm : H.Moved (.loaded t) .caller (H.pass item .caller) := Heap.moved_pass howner
  exact .of_moved hm (absurd rfl) id rfl rfl
    ⟨hlist.pass nofun, ht.previous.same (hm.same nofun nofun), ht.transit.same (hm.same nofun nofun),
      ht.capacity, Nat.le_of_succ_le (hk.symm.trans_le ht.rounds)⟩
    ⟨hp.shared.same (hm.same nofun nofun), hp.callers.pass howner nofun, hp.nodup, hp.owner hm nofun nofun⟩

lemma Local.accept (hpc : v.pc = .idle) (hitem : item ∈ v.callers) :
    Leads n t H H.next H.link { v with pc := .poolFree item, callers := v.callers.erase item } := by
  obtain ⟨ht, hp⟩ := hv
  have hempty : InTransit n H t .idle := hpc ▸ ht.transit
  have howner : H.owner item = .caller := (hp.callers.mem item).1 hitem
  have hm : H.Moved .caller (.transit t) (H.pass item (.transit t)) := Heap.moved_pass howner
  exact .of_moved hm id (absurd rfl) rfl rfl
    ⟨ht.loaded.same (hm.same nofun nofun), ht.previous.same (hm.same nofun nofun),
      (Heap.Empty.owns hempty).pass howner nofun, ht.capacity, ht.rounds⟩
    ⟨hp.shared.same (hm.same nofun nofun), hp.callers.erase nofun, hp.nodup, hp.owner hm nofun nofun⟩

lemma Local.put (hpc : v.pc = .poolFree item) (hr : v.handle.rounds < n) :
    Leads n t H (update H.next item v.handle.loaded) H.link
      { v with handle := { v.handle with rounds := v.handle.rounds + 1, loaded := some item }, pc := .idle } := by
  obtain ⟨ht, hp⟩ := hv
  have hown : InTransit n H t (.poolFree item) := hpc ▸ ht.transit
  have howner : H.owner item = .transit t := (hown.mem item).1 (.head _)
  have hm : H.Moved (.transit t) (.loaded t) (H.push item v.handle.loaded (.loaded t)) := Heap.moved_push howner
  have hempty : (H.push item v.handle.loaded (.loaded t)).Empty (.transit t) := by
    have he := hown.erase (x := item) (Q := .loaded t) nofun
    rw [List.erase_cons_head] at he
    exact he.empty
  exact .of_moved hm (absurd rfl) (absurd rfl) rfl rfl
    ⟨ht.loaded.push howner nofun, ht.previous.same (hm.same nofun nofun), hempty, ht.capacity, hr⟩
    ⟨hp.shared.same (hm.same nofun nofun), hp.callers.same (hm.same nofun nofun), hp.nodup, hp.owner hm nofun nofun⟩

lemma Local.pop (hm : v.shared = some m) (hr : v.handle.rounds = 0) : Leads n t H H.next H.link
      { v with handle := { v.handle with rounds := n, loaded := some m }, shared := H.link m } := by
  obtain ⟨ht, hp⟩ := hv
  have hempty : H.Empty (.loaded t) := (hr ▸ ht.loaded).empty.2
  have hshared : H.HasStack .shared (some m) n := hm ▸ hp.shared
  obtain ⟨l, hc, hlen, howner, hnd, hstack⟩ := hshared.pop (Q := .loaded t) nofun
  have hmv : H.Moved .shared (.loaded t) (H.passAll l (.loaded t)) := Heap.moved_passAll howner
  subst hlen
  exact .of_moved hmv id (absurd rfl) rfl rfl
    ⟨Heap.hasList_passAll hc hnd hempty, ht.previous.same (hmv.same nofun nofun),
      ht.transit.same (hmv.same nofun nofun), ht.capacity, Nat.le_refl _⟩
    ⟨hstack, hp.callers.same (hmv.same nofun nofun), hp.nodup, hp.owner hmv nofun nofun⟩

lemma Local.grab (hpc : v.pc = .magAlloc) (hlen : items.length = n)
    (hnd : items.Nodup) (hnew : ∀ x ∈ items, x ∉ v.obtained) :
    Leads n t H H.next H.link { v with pc := .linking items, obtained := items ++ v.obtained } := by
  obtain ⟨ht, hp⟩ := hv
  have hempty : InTransit n H t .magAlloc := hpc ▸ ht.transit
  have howner : ∀ x ∈ items, H.owner x = .backing := fun x hx =>
    Classical.not_not.1 fun hne => hnew x hx ((hp.obtained x).2 hne)
  have hmv : H.Moved .backing (.transit t) (H.passAll items (.transit t)) := Heap.moved_passAll howner
  have htransit := (Heap.Empty.owns hempty).passAll hnd howner nofun
  rw [List.append_nil] at htransit
  refine .of_moved hmv id (absurd rfl) rfl rfl
    ⟨ht.loaded.same (hmv.same nofun nofun), ht.previous.same (hmv.same nofun nofun), ⟨htransit, hlen⟩,
      ht.capacity, ht.rounds⟩
    ⟨hp.shared.same (hmv.same nofun nofun), hp.callers.same (hmv.same nofun nofun), ?_, fun x => ?_⟩
  · exact List.nodup_append.2 ⟨hnd, hp.nodup, fun x hx y hy he => hnew x hx (he ▸ hy)⟩
  · show x ∈ items ++ v.obtained ↔ (if x ∈ items then Place.transit t else H.owner x) ≠ .backing
    rw [List.mem_append]
    by_cases hx : x ∈ items
    · rw [if_pos hx]
      exact ⟨fun _ => nofun, fun _ => .inl hx⟩
    · rw [if_neg hx, ← hp.obtained x]
      exact ⟨fun hm => hm.resolve_left hx, .inr⟩

lemma Local.release {hdr : ι} (hpc : v.pc = .reclaiming hdr) :
    ∃ items, H.Chain (some hdr) items ∧ items.length = n ∧ (∀ x ∈ items, x ∈ v.obtained) ∧ items.Nodup ∧
      Leads n t H H.next H.link
        { v with pc := .releasing (H.link hdr), obtained := v.obtained.filter (· ∉ items) } := by
  obtain ⟨ht, hp⟩ := hv
  have hstack : InTransit n H t (.reclaiming hdr) := hpc ▸ ht.transit
  obtain ⟨items, hc, hlen, howner, hnd, hrest⟩ := hstack.pop (Q := .backing) nofun
  have hmv : H.Moved (.transit t) .backing (H.passAll items .backing) := Heap.moved_passAll howner
  have hin : ∀ x ∈ items, x ∈ v.obtained := fun x hx => (hp.obtained x).2 fun he =>
    nomatch (howner x hx).symm.trans he
  refine ⟨items, hc, hlen, hin, hnd, .of_moved hmv (absurd rfl) id rfl rfl
    ⟨ht.loaded.same (hmv.same nofun nofun), ht.previous.same (hmv.same nofun nofun), hrest, ht.capacity, ht.rounds⟩
    ⟨hp.shared.same (hmv.same nofun nofun), hp.callers.same (hmv.same nofun nofun), hp.nodup.filter _, fun x => ?_⟩⟩
  show x ∈ v.obtained.filter (· ∉ items) ↔ (if x ∈ items then Place.backing else H.owner x) ≠ .backing
  rw [List.mem_filter, hp.obtained x, decide_eq_true_eq]
  by_cases hx : x ∈ items
  · rw [if_pos hx]
    exact ⟨fun hm => absurd hx hm.2, fun hne => absurd rfl hne⟩
  · rw [if_neg hx]
    exact and_iff_left hx

end

end Items

section Magazines

variable [DecidableEq τ]

lemma Local.swapIn (hv : Local n H t v) (hr : v.handle.rounds = 0) (hm : v.handle.previous = some m) :
    Leads n t H H.next H.link
      { v with handle := { v.handle with rounds := n, loaded := some m, previous := none } } := by
  obtain ⟨ht, hp⟩ := hv
  have hempty : H.Empty (.loaded t) := (hr ▸ ht.loaded).empty.2
  have hmv : H.Moved (.previous t) (.loaded t) (H.relocate (.previous t) (.loaded t)) := Heap.moved_relocate
  exact .of_moved hmv (absurd rfl) (absurd rfl) rfl rfl
    ⟨(hm ▸ ht.previous).of_some.relocate hempty, .of_empty (Heap.empty_relocate nofun),
      ht.transit.same (hmv.same nofun nofun), ht.capacity, Nat.le_refl _⟩
    ⟨hp.shared.same (hmv.same nofun nofun), hp.callers.same (hmv.same nofun nofun), hp.nodup,
      hp.owner hmv nofun nofun⟩

lemma Local.swapOut (hv : Local n H t v) (hr : v.handle.rounds = n) (hm : v.handle.previous = none) :
    Leads n t H H.next H.link
      { v with handle := { v.handle with rounds := 0, loaded := none, previous := v.handle.loaded } } := by
  obtain ⟨ht, hp⟩ := hv
  have hmv : H.Moved (.loaded t) (.previous t) (H.relocate (.loaded t) (.previous t)) := Heap.moved_relocate
  have hempty : (H.relocate (.loaded t) (.previous t)).Empty (.loaded t) := Heap.empty_relocate nofun
  exact .of_moved hmv (absurd rfl) (absurd rfl) rfl rfl
    ⟨hempty.hasList, ⟨_, fun _ => hr, ht.loaded.relocate (hm ▸ ht.previous).of_none⟩,
      ht.transit.same (hmv.same nofun nofun), ht.capacity, Nat.zero_le _⟩
    ⟨hp.shared.same (hmv.same nofun nofun), hp.callers.same (hmv.same nofun nofun), hp.nodup,
      hp.owner hmv nofun nofun⟩

lemma Local.seize (hv : Local n H t v) (hpc : v.pc = .idle) :
    Leads n t H H.next H.link { v with pc := Sys.reclaimLoop v.shared, shared := none } := by
  obtain ⟨ht, hp⟩ := hv
  have hempty : InTransit n H t .idle := hpc ▸ ht.transit
  have hmv : H.Moved .shared (.transit t) (H.relocate .shared (.transit t)) := Heap.moved_relocate
  have hgone : (H.relocate .shared (.transit t)).Empty .shared := Heap.empty_relocate nofun
  exact .of_moved hmv id (absurd rfl) rfl rfl
    ⟨ht.loaded.same (hmv.same nofun nofun), ht.previous.same (hmv.same nofun nofun),
      .of_stack (hp.shared.relocate hempty), ht.capacity, ht.rounds⟩
    ⟨hgone.hasStack n, hp.callers.same (hmv.same nofun nofun), hp.nodup, hp.owner hmv nofun nofun⟩

variable [DecidableEq ι]

lemma Local.push (hv : Local n H t v) (hm : v.handle.previous = some m) :
    Leads n t H H.next (update H.link m v.shared)
      { v with handle := { v.handle with previous := none }, shared := some m } := by
  obtain ⟨ht, hp⟩ := hv
  have hprev := (hm ▸ ht.previous).of_some
  have hmv : H.Moved (.previous t) .shared (H.pushList m v.shared (.previous t) .shared) :=
    Heap.moved_pushList hprev.owner_head
  have hempty : (H.pushList m v.shared (.previous t) .shared).Empty (.previous t) :=
    Heap.empty_relocate (H := H) nofun
  exact .of_moved hmv (absurd rfl) id rfl rfl
    ⟨ht.loaded.same (hmv.same nofun nofun), .of_empty hempty, ht.transit.same (hmv.same nofun nofun),
      ht.capacity, ht.rounds⟩
    ⟨hp.shared.pushList hprev nofun, hp.callers.same (hmv.same nofun nofun), hp.nodup, hp.owner hmv nofun nofun⟩

lemma Local.mint (hv : Local n H t v) (hpc : v.pc = .linking items) (hr : v.handle.rounds = 0) :
    Leads n t H (linkAll items H.next) H.link
      { v with handle := { v.handle with rounds := n, loaded := items.head? }, pc := .idle } := by
  obtain ⟨ht, hp⟩ := hv
  have htransit : InTransit n H t (.linking items) := hpc ▸ ht.transit
  obtain ⟨hown, hlen⟩ := htransit
  let H' : Heap ι (Place τ) := { H.relocate (.transit t) (.loaded t) with next := linkAll items H.next }
  have hmv : H.Moved (.transit t) (.loaded t) H' := by
    intro x
    by_cases hx : H.owner x = .transit t
    · exact .inr ⟨hx, if_pos hx⟩
    · exact .inl ⟨linkAll_of_notMem fun hm => hx ((hown.mem x).1 hm), rfl, if_neg hx⟩
  have hrelocated := hown.relocate (hr ▸ ht.loaded).empty.2
  have hempty : H'.Empty (.transit t) := Heap.empty_relocate (H := H) nofun
  exact .of_moved hmv (absurd rfl) (absurd rfl) rfl rfl
    ⟨⟨items, chain_linkAll hown.nodup rfl, hlen, hrelocated.nodup, hrelocated.mem⟩,
      ht.previous.same (hmv.same nofun nofun), hempty, ht.capacity, Nat.le_refl _⟩
    ⟨hp.shared.same (hmv.same nofun nofun), hp.callers.same (hmv.same nofun nofun), hp.nodup,
      hp.owner hmv nofun nofun⟩

end Magazines

/-! ## Counting -/

namespace Pc

def minting : Pc ι → Bool
  | .linking _ => true
  | .idle | .poolAlloc | .magAlloc | .poolFree _ | .reclaiming _ | .releasing _ => false

def returning : Pc ι → Bool
  | .releasing _ => true
  | .idle | .poolAlloc | .magAlloc | .linking _ | .poolFree _ | .reclaiming _ => false

def owing (pc : Pc ι) : ℤ := pc.minting.toInt - pc.returning.toInt

@[simp]
lemma owing_reclaimLoop (p : Option ι) : (Sys.reclaimLoop p).owing = 0 := by
  cases p <;> rfl

end Pc

variable {pcs : τ → Pc ι} {mags mags' : ℤ} {k k' : ℕ}

def Counted (n : ℕ) (pcs : τ → Pc ι) (mags : ℤ) (k : ℕ) : Prop :=
  ∃ F : Finset τ, (∀ t ∉ F, (pcs t).owing = 0) ∧ (k : ℤ) = n * (mags + ∑ t ∈ F, (pcs t).owing)

lemma Counted.eq (hc : Counted n pcs mags k)
    (h : ∀ t, (pcs t).minting = false ∧ (pcs t).returning = false) : mags * n = k := by
  obtain ⟨F, -, hk⟩ := hc
  have hzero : ∑ t ∈ F, (pcs t).owing = 0 := by
    refine sum_eq_zero fun t _ => ?_
    rw [Pc.owing, (h t).1, (h t).2, sub_self]
  rw [hk, hzero, add_zero, mul_comm]

lemma Counted.goto [DecidableEq τ] (hc : Counted n pcs mags k)
    (he : (k' : ℤ) = k + n * (mags' + pc.owing - (mags + (pcs t).owing))) :
    Counted n (update pcs t pc) mags' k' := by
  obtain ⟨F, hF, hk⟩ := hc
  refine ⟨insert t F, fun t' ht' => ?_, ?_⟩
  · rw [mem_insert, not_or] at ht'
    rw [update_of_ne ht'.1]
    exact hF t' ht'.2
  · have hold : ∑ t' ∈ F, (pcs t').owing = (pcs t).owing + ∑ t' ∈ insert t F \ {t}, (pcs t').owing := by
      rw [← sum_insert_of_eq_zero_if_notMem (hF t)]
      exact sum_eq_add_sum_sdiff_singleton_of_mem (mem_insert_self t F) _
    have hnew : ∑ t' ∈ insert t F, (update pcs t pc t').owing
        = pc.owing + ∑ t' ∈ insert t F \ {t}, (pcs t').owing := by
      simp only [apply_update fun _ => Pc.owing]
      exact sum_update_of_mem (mem_insert_self t F) ..
    rw [hnew, he, hk, hold]
    ring

end Aspen.Tcache
