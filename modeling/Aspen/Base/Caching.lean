import Aspen.Base.Magazines

/-!
# Runs of the thread-local cache

Each of the functions, up to its next access to something shared, is a sequence of moves of the thread that
calls it, which leave the other threads' magazines alone. The counter of magazines is changed with the items
that it counts, or while the thread is on its way to doing so.
-/

namespace Aspen.Tcache

open Links Function

variable {τ ι : Type*} {s s' s₁ : Sys τ ι} {owner : ι → Place τ} {t : τ} {h : Handle ι} {item : ι} {pc : Pc ι}

namespace Sys

def heap (s : Sys τ ι) (owner : ι → Place τ) : Heap ι (Place τ) := ⟨s.nextItem, s.nextMag, owner⟩

def view (s : Sys τ ι) (h : Handle ι) (pc : Pc ι) : View ι := ⟨h, pc, s.sharedMags, s.callers, s.obtained⟩

end Sys

structure Placed (s : Sys τ ι) (owner : ι → Place τ) : Prop where
  tidy : ∀ t, Tidy s.magSize (s.heap owner) t (s.handles t) (s.pc t)
  pooled : Pooled s.magSize (s.heap owner) s.sharedMags s.callers s.obtained

def Primed (h : Handle ι) : Pc ι → Prop
  | .poolAlloc | .magAlloc | .linking _ => h.rounds = 0
  | .poolFree _ => h.rounds = h.capacity ∧ h.previous.isSome
  | .idle | .reclaiming _ | .releasing _ => True

lemma primed_reclaimLoop (h : Handle ι) (p : Option ι) : Primed h (Sys.reclaimLoop p) := by
  cases p <;> trivial

structure Inv (s : Sys τ ι) : Prop where
  placed : ∃ owner, Placed s owner
  primed : ∀ t, Primed (s.handles t) (s.pc t)
  counted : Counted s.magSize s.pc s.magsAllocated s.obtained.length

lemma Placed.local (hp : Placed s owner) (hpc : s.pc t = pc) :
    Local s.magSize (s.heap owner) t (s.view (s.handles t) pc) :=
  ⟨hpc ▸ hp.tidy t, hp.pooled⟩

lemma Inv.primed_at (hi : Inv s) (hpc : s.pc t = pc) : Primed (s.handles t) pc := hpc ▸ hi.primed t

lemma Placed.unload (hp : Placed s owner) (hpc : s.pc t = pc) (hr : (s.handles t).rounds = 0) :
    Local s.magSize (s.heap owner) t (s.view { s.handles t with loaded := none } pc) := by
  have hv := hp.local hpc
  have hlist := hv.tidy.loaded
  rw [show (s.view (s.handles t) pc).handle.rounds = 0 from hr] at hlist
  exact ⟨{ hv.tidy with loaded := hr ▸ hlist.empty.1 ▸ hlist }, hv.pooled⟩

abbrev Fine (s : Sys τ ι) : Except Fault (Sys τ ι) → Prop :=
  Run.Comes (fun f => f = .crash → ¬ (0 < s.magSize ∧ s.magSize ≤ maxMagSize)) Inv

variable [DecidableEq τ]

lemma Inv.commit (hi : Inv s) (hp : Placed s owner)
    (hsize : s'.magSize = s.magSize) (hh : s'.handles = update s.handles t h) (hpc : s'.pc = update s.pc t pc)
    (hl : Leads s.magSize t (s.heap owner) s'.nextItem s'.nextMag (s'.view h pc)) (hprimed : Primed h pc)
    (hc : Counted s.magSize (update s.pc t pc) s'.magsAllocated s'.obtained.length) : Inv s' := by
  obtain ⟨owner', ha, hv⟩ := hl
  have hboth : ∀ t', Tidy s.magSize (s'.heap owner') t' (s'.handles t') (s'.pc t') ∧
      Primed (s'.handles t') (s'.pc t') := by
    intro t'
    rw [hh, hpc]
    by_cases he : t' = t
    · subst he
      rw [update_self, update_self]
      exact ⟨hv.tidy, hprimed⟩
    · rw [update_of_ne he, update_of_ne he]
      exact ⟨(hp.tidy t').around ha he, hi.primed t'⟩
  rw [← hsize, ← hpc] at hc
  rw [← hsize] at hboth hv
  exact ⟨⟨owner', fun t' => (hboth t').1, hv.pooled⟩, fun t' => (hboth t').2, hc⟩

lemma Inv.counted_goto (hi : Inv s) (hpc : (s.pc t).owing = 0) (hpc' : pc.owing = 0) :
    Counted s.magSize (update s.pc t pc) s.magsAllocated s.obtained.length :=
  hi.counted.goto (by rw [hpc, hpc', sub_self, mul_zero, add_zero])

lemma Inv.tcacheReclaim (hi : Inv s) (hpc : s.pc t = .idle) : Inv (s.tcacheReclaim t) := by
  obtain ⟨owner, hp⟩ := hi.placed
  exact hi.commit hp rfl (update_eq_self t s.handles).symm rfl ((hp.local hpc).seize rfl)
    (primed_reclaimLoop ..) (hi.counted_goto (hpc ▸ rfl) (Pc.owing_reclaimLoop _))

lemma Inv.released (hi : Inv s) {next : Option ι} (hpc : s.pc t = .releasing next) : Inv (s.released t next) := by
  obtain ⟨owner, hp⟩ := hi.placed
  have hv := hp.local hpc
  refine hi.commit hp rfl (update_eq_self t s.handles).symm rfl
    (hv.settle _ (.of_stack hv.tidy.transit)).leads (primed_reclaimLoop ..) (hi.counted.goto ?_)
  rw [hpc, Pc.owing_reclaimLoop]
  show (s.obtained.length : ℤ) = _ + _ * (s.magsAllocated - 1 + 0 - (s.magsAllocated + -1))
  ring

section Functions

variable [DecidableEq ι]

section

variable (hi : Inv s)
include hi

lemma Inv.reload (hp : Placed s owner) {m : ι} (hsize : s₁.magSize = s.magSize)
    (hh : s₁.handles = update s.handles t h) (hpc : s₁.pc = s.pc) (hm : h.loaded = some m)
    (hl : Leads s.magSize t (s.heap owner) s₁.nextItem s₁.nextMag
      (s₁.view { h with rounds := s.magSize } .idle))
    (hc : Counted s.magSize (update s.pc t .idle) s₁.magsAllocated s₁.obtained.length) :
    Fine s (s₁.reload t) := by
  have hhandle : s₁.handles t = h := hh ▸ update_self ..
  obtain ⟨owner1, ha, hv⟩ := hl
  have hcap : h.capacity = s.magSize := hv.tidy.capacity
  -- a magazine that there is has at least one round
  obtain ⟨k, hk⟩ : ∃ k, s.magSize = k + 1 := by
    have hlist : Heap.HasList _ _ h.loaded s.magSize := hv.tidy.loaded
    refine Nat.exists_eq_succ_of_ne_zero fun hz => ?_
    rw [hz] at hlist
    exact nomatch hm.symm.trans hlist.empty.1
  have he : s₁.reload t = .ok (((s₁.withHandle t { h with rounds := k, loaded := s₁.nextItem m }).give
      m).goto t .idle) := by
    unfold Sys.reload
    dsimp only
    rw [hhandle, hm, hcap, hk]
    rfl
  rw [he]
  obtain ⟨owner2, ha2, hv2⟩ := hv.take hm hk
  refine .ok (hi.commit hp hsize ?_ ?_ ⟨owner2, ha.trans ha2, hv2⟩ trivial hc)
  · show update s₁.handles t _ = _
    rw [hh, update_idem]
    rfl
  · exact congrArg (update · t .idle) hpc

lemma Inv.tcacheAllocSlow (hpc : s.pc t = .idle) (hr : (s.handles t).rounds = 0) : Fine s (s.tcacheAllocSlow t) := by
  obtain ⟨owner, hp⟩ := hi.placed
  have hv := hp.local hpc
  have hlist := hv.tidy.loaded
  rw [show (s.view (s.handles t) .idle).handle.rounds = 0 from hr] at hlist
  unfold Sys.tcacheAllocSlow
  rw [if_pos ⟨hr, Option.isNone_iff_eq_none.2 hlist.empty.1⟩]
  split
  · rename_i m hm
    exact hi.reload hp rfl rfl rfl rfl (hv.swapIn hr hm) (hi.counted_goto (hpc ▸ rfl) rfl)
  · exact .ok (hi.commit hp rfl (update_eq_self t s.handles).symm rfl
      (hv.settle .poolAlloc hv.tidy.transit).leads hr (hi.counted_goto (hpc ▸ rfl) rfl))

lemma Inv.poolAlloc (hpc : s.pc t = .poolAlloc) : Fine s (s.poolAlloc t) := by
  obtain ⟨owner, hp⟩ := hi.placed
  have hv := hp.local hpc
  have hr : (s.handles t).rounds = 0 := hi.primed_at hpc
  unfold Sys.poolAlloc
  split
  · rename_i m hm
    exact hi.reload hp rfl rfl rfl rfl ((hv.settle .idle hv.tidy.transit).pop hm hr)
      (hi.counted_goto (hpc ▸ rfl) rfl)
  · exact .ok (hi.commit hp rfl rfl rfl ((hp.unload hpc hr).settle .magAlloc hv.tidy.transit).leads hr
      (hi.counted_goto (hpc ▸ rfl) rfl))

lemma Inv.magAlloc (hpc : s.pc t = .magAlloc) (answer : Option (List ι)) : Fine s (s.magAlloc t answer) := by
  obtain ⟨owner, hp⟩ := hi.placed
  have hv := hp.local hpc
  have hr : (s.handles t).rounds = 0 := hi.primed_at hpc
  cases answer with
  | none =>
    exact .ok (hi.commit hp rfl rfl rfl ((hp.unload hpc hr).settle .idle hv.tidy.transit).leads trivial
      (hi.counted_goto (hpc ▸ rfl) rfl))
  | some items =>
    unfold Sys.magAlloc
    dsimp only
    split
    · rename_i hitems
      obtain ⟨hlen, hnd, hnew⟩ := hitems
      split
      · rename_i hbig
        exact .stop fun _ h => absurd h.2 (Nat.not_le.2 hbig)
      · refine .ok (hi.commit hp rfl (update_eq_self t s.handles).symm rfl (hv.grab rfl hlen hnd hnew) hr
          (hi.counted.goto ?_))
        rw [hpc]
        show ((items ++ s.obtained).length : ℤ) = _ + _ * (s.magsAllocated + 1 - (s.magsAllocated + 0))
        rw [List.length_append, hlen, Nat.cast_add]
        ring
    · exact .stop nofun

lemma Inv.linkMag {items : List ι} (hpc : s.pc t = .linking items) : Fine s (s.linkMag t items) := by
  obtain ⟨owner, hp⟩ := hi.placed
  have hv := hp.local hpc
  unfold Sys.linkMag
  split
  · have hz : 0 = s.magSize := hv.tidy.transit.2
    exact .stop fun _ h => absurd h.1 (hz ▸ Nat.lt_irrefl 0)
  · refine hi.reload hp rfl rfl rfl rfl (hv.mint rfl (hi.primed_at hpc)) (hi.counted.goto ?_)
    rw [hpc]
    show (s.obtained.length : ℤ) = _ + _ * (s.magsAllocated + 1 + 0 - (s.magsAllocated + 1))
    ring

lemma Inv.tcacheAlloc (hpc : s.pc t = .idle) : Fine s (s.tcacheAlloc t) := by
  unfold Sys.tcacheAlloc
  dsimp only
  split
  · rename_i hr
    exact hi.tcacheAllocSlow hpc hr
  rename_i hr
  obtain ⟨owner, hp⟩ := hi.placed
  have hv := hp.local hpc
  obtain ⟨k, hk⟩ := Nat.exists_eq_succ_of_ne_zero hr
  split
  · rename_i hnone
    have hlist : Heap.HasList _ _ (s.handles t).loaded _ := hv.tidy.loaded
    rw [hnone] at hlist
    exact absurd hlist.of_none.1 hr
  · rename_i m hm
    rw [hk]
    refine .ok (hi.commit hp rfl rfl ?_ (hv.take hm hk) trivial (hi.counted_goto (hpc ▸ rfl) rfl))
    rw [← hpc]
    exact (update_eq_self t s.pc).symm

lemma Inv.startMag (hp : Placed s owner) (hpos : 0 < s.magSize)
    (hsize : s₁.magSize = s.magSize) (hh : s₁.handles = update s.handles t h) (hpc : s₁.pc = s.pc)
    (hl : Leads s.magSize t (s.heap owner) s₁.nextItem s₁.nextMag
      (s₁.view { h with rounds := 0, loaded := none } (.poolFree item)))
    (hc : Counted s.magSize (update s.pc t .idle) s₁.magsAllocated s₁.obtained.length) :
    Fine s (.ok (s₁.startMag t item)) := by
  have hhandle : s₁.handles t = h := hh ▸ update_self ..
  refine .ok (hi.commit hp hsize ?_ ?_ (hl.trans fun _ hv => hv.put rfl hpos) trivial hc)
  · show update s₁.handles t { s₁.handles t with rounds := 1, loaded := some item } = _
    rw [hhandle, hh, update_idem]
    rfl
  · exact congrArg (update · t .idle) hpc

lemma Inv.tcacheFree (hpc : s.pc t = .idle) (hitem : item ∈ s.callers) : Fine s (s.tcacheFree t item) := by
  obtain ⟨owner, hp⟩ := hi.placed
  have ht := (hp.local hpc).tidy
  have hcap : (s.handles t).capacity = s.magSize := ht.capacity
  have hl := (hp.local hpc).accept rfl hitem
  unfold Sys.tcacheFree
  dsimp only
  split
  · rename_i hle
    have hr : (s.handles t).rounds = s.magSize := Nat.le_antisymm ht.rounds (hcap ▸ hle)
    have hlist : Heap.HasList _ _ (s.handles t).loaded (s.handles t).rounds := ht.loaded
    rw [hr] at hlist
    unfold Sys.tcacheFreeSlow
    dsimp only
    split
    · rename_i hfull
      -- a magazine that there is has at least one round
      have hpos : 0 < s.magSize := by
        refine Nat.pos_of_ne_zero fun hz => ?_
        rw [hz] at hlist
        rw [hlist.empty.1] at hfull
        exact nomatch hfull.2
      split
      · rename_i hnone
        exact hi.startMag hp hpos rfl rfl rfl (hl.trans fun _ hv => hv.swapOut hr hnone)
          (hi.counted_goto (hpc ▸ rfl) rfl)
      · rename_i m hm
        exact .ok (hi.commit hp rfl (update_eq_self t s.handles).symm rfl hl
          ⟨hr.trans hcap.symm, by rw [hm]; rfl⟩ (hi.counted_goto (hpc ▸ rfl) rfl))
    · rename_i hfull
      refine .stop fun _ hsize => hfull ⟨hr.trans hcap.symm, ?_⟩
      rw [← Nat.succ_pred_eq_of_pos hsize.1] at hlist
      obtain ⟨m, hm, -⟩ := hlist.head
      rw [hm]
      rfl
  · rename_i hlt
    have hlt : (s.handles t).rounds < s.magSize := Nat.lt_of_not_le (hcap ▸ hlt)
    refine .ok (hi.commit hp rfl rfl ?_ (hl.trans fun _ hv => hv.put rfl hlt) trivial
      (hi.counted_goto (hpc ▸ rfl) rfl))
    rw [← hpc]
    exact (update_eq_self t s.pc).symm

lemma Inv.poolFree (hpc : s.pc t = .poolFree item) : Fine s (s.poolFree t item) := by
  obtain ⟨owner, hp⟩ := hi.placed
  have hv := hp.local hpc
  obtain ⟨hr, hprev⟩ := hi.primed_at hpc
  unfold Sys.poolFree
  dsimp only
  split
  · rename_i hnone
    rw [hnone] at hprev
    cases hprev
  · rename_i m hm
    have hpos : 0 < s.magSize := by
      refine Nat.pos_of_ne_zero fun hz => ?_
      have hfull : HasFull _ _ _ (s.handles t).previous := hv.tidy.previous
      rw [hm, hz] at hfull
      exact nomatch hfull.of_some.empty.1
    have hl := (hv.push hm).trans fun _ hv => hv.swapOut (hr.trans (hp.tidy t).capacity) rfl
    exact hi.startMag hp hpos rfl rfl rfl hl (hi.counted_goto (hpc ▸ rfl) rfl)

end

lemma length_filter_notMem {l items : List ι} (hl : l.Nodup) (hitems : items.Nodup)
    (hsub : ∀ x ∈ items, x ∈ l) : items.length + (l.filter (· ∉ items)).length = l.length := by
  rw [← List.length_append]
  refine List.Perm.length_eq ((List.perm_ext_iff_of_nodup ?_ hl).2 fun x => ?_)
  · refine List.nodup_append.2 ⟨hitems, hl.filter _, fun x hx y hy he => ?_⟩
    subst he
    exact of_decide_eq_true (List.mem_filter.1 hy).2 hx
  · rw [List.mem_append, List.mem_filter, decide_eq_true_eq]
    constructor
    · rintro (hx | ⟨hx, -⟩)
      · exact hsub x hx
      · exact hx
    · intro hx
      by_cases hi : x ∈ items
      · exact .inl hi
      · exact .inr ⟨hx, hi⟩

lemma Inv.tcacheFreeMag (hi : Inv s) {hdr : ι} (hpc : s.pc t = .reclaiming hdr) : Fine s (s.tcacheFreeMag t hdr) := by
  obtain ⟨owner, hp⟩ := hi.placed
  obtain ⟨items, hc, hlen, hin, hnd, hl⟩ := (hp.local hpc).release rfl
  have hcollect : collect s.nextItem _ _ = _ := hc.collect maxMagSize
  rw [hlen] at hcollect
  unfold Sys.tcacheFreeMag
  by_cases hsize : s.magSize ≤ maxMagSize
  · rw [hcollect, if_pos hsize]
    dsimp only
    rw [if_pos hlen]
    refine .ok (hi.commit hp rfl (update_eq_self t s.handles).symm rfl hl trivial (hi.counted.goto ?_))
    have hlength := length_filter_notMem hp.pooled.nodup hnd hin
    rw [hpc, ← hlength, hlen, Nat.cast_add]
    show ((s.obtained.filter (· ∉ items)).length : ℤ) = _ + _ * (s.magsAllocated + -1 - (s.magsAllocated + 0))
    ring
  · rw [hcollect, if_neg hsize]
    exact .stop fun _ h => hsize h.2

omit [DecidableEq τ] in
lemma Inv.write (hi : Inv s) (hitem : item ∈ s.callers ∨ item ∉ s.obtained) (a b : Option ι) :
    Inv { s with nextItem := update s.nextItem item a
                 nextMag := update s.nextMag item b } := by
  obtain ⟨owner, hp⟩ := hi.placed
  obtain ⟨P, hP, howner⟩ : ∃ P : Place τ, (P = .caller ∨ P = .backing) ∧ owner item = P := by
    rcases hitem with hc | ho
    · exact ⟨.caller, .inl rfl, (hp.pooled.callers.mem item).1 hc⟩
    · refine ⟨.backing, .inr rfl, Classical.not_not.1 fun hne => ho ?_⟩
      exact (hp.pooled.obtained item).2 hne
  have hmv : (s.heap owner).Moved P P ((s.heap owner).write item a b) := Heap.moved_write howner
  have hsame : ∀ R, R ≠ .caller → R ≠ .backing → (s.heap owner).Same R ((s.heap owner).write item a b) := by
    intro R hc hb
    rcases hP with rfl | rfl
    · exact hmv.same hc hc
    · exact hmv.same hb hb
  refine ⟨⟨owner, fun t => ?_, ?_⟩, hi.primed, hi.counted⟩
  · have ht := hp.tidy t
    exact ⟨ht.loaded.same (hsame _ nofun nofun), ht.previous.same (hsame _ nofun nofun),
      ht.transit.same (hsame _ nofun nofun), ht.capacity, ht.rounds⟩
  · exact ⟨hp.pooled.shared.same (hsame _ nofun nofun),
      ⟨hp.pooled.callers.nodup, hp.pooled.callers.mem⟩, hp.pooled.nodup, hp.pooled.obtained⟩

/-- No event takes a cache out of order. -/
lemma Inv.step_fine (hi : Inv s) (e : Event τ ι) : Fine s (step s e) := by
  cases e with
  | alloc t =>
    unfold step
    dsimp only
    split
    · rename_i hpc
      exact hi.tcacheAlloc hpc
    · exact .stop nofun
  | free t item =>
    unfold step
    dsimp only
    split
    · rename_i hpc
      split
      · rename_i hitem
        exact hi.tcacheFree hpc hitem
      · exact .stop nofun
    · exact .stop nofun
  | reclaim t =>
    unfold step
    dsimp only
    split
    · rename_i hpc
      exact .ok (hi.tcacheReclaim hpc)
    · exact .stop nofun
  | run t answer =>
    unfold step
    dsimp only
    cases hpc : s.pc t with
    | idle => exact .stop nofun
    | poolAlloc => exact hi.poolAlloc hpc
    | magAlloc => exact hi.magAlloc hpc answer
    | linking items => exact hi.linkMag hpc
    | poolFree item => exact hi.poolFree hpc
    | reclaiming hdr => exact hi.tcacheFreeMag hpc
    | releasing next => exact .ok (hi.released hpc)
  | write item a b =>
    unfold step
    dsimp only
    split
    · rename_i hitem
      exact .ok (hi.write hitem a b)
    · exact .stop nofun

end Functions

omit [DecidableEq τ] in
lemma Init.inv (h : Init s) : Inv s := by
  have hempty : ∀ P : Place τ, P ≠ .backing → (s.heap fun _ => .backing).Empty P := fun P hP x hx => hP hx.symm
  refine ⟨⟨fun _ => .backing, fun t => ?_, ?_⟩, fun t => ?_, ∅, fun t _ => ?_, ?_⟩
  · rw [h.handles t, h.pc t]
    exact ⟨(hempty (.loaded t) nofun).hasList, .of_empty (hempty (.previous t) nofun),
      hempty (.transit t) nofun, rfl, Nat.zero_le _⟩
  · rw [h.sharedMags, h.callers, h.obtained]
    exact ⟨(hempty .shared nofun).hasStack _, (hempty .caller nofun).owns, List.nodup_nil,
      fun x => ⟨nofun, fun hne => absurd rfl hne⟩⟩
  · rw [h.pc t]
    trivial
  · rw [h.pc t]
    rfl
  · rw [h.magsAllocated, h.obtained, Finset.sum_empty, add_zero, mul_zero]
    rfl

/-- In every run, whatever is written to items by those who hold them: every item is in one place; loaded magazines
have as many items as their rounds say, the others are full; the counter of magazines agrees with the items from the
backing allocator, unless a thread is about to change it; and with an allowed magazine size nothing crashes. -/
theorem magazines_sound [DecidableEq ι] {s : Sys τ ι} (h : Run.Reaches step (fun _ _ => True) Init s) :
    ∃ H : Heap ι (Place τ), H.next = s.nextItem ∧ H.link = s.nextMag ∧
      (∀ t, H.HasList (.loaded t) (s.handles t).loaded (s.handles t).rounds) ∧
      (∀ t m, (s.handles t).previous = some m → H.HasList (.previous t) (some m) s.magSize) ∧
      (∀ t, (s.handles t).previous = none → H.Empty (.previous t)) ∧
      H.HasStack .shared s.sharedMags s.magSize ∧
      H.Owns .caller s.callers ∧
      (s.obtained.Nodup ∧ ∀ x, x ∈ s.obtained ↔ H.owner x ≠ .backing) ∧
      ((∀ t, (s.pc t).minting = false ∧ (s.pc t).returning = false) →
        s.magsAllocated * s.magSize = s.obtained.length) ∧
      (0 < s.magSize → s.magSize ≤ maxMagSize → ∀ e, step s e ≠ .error .crash) := by
  have hi : Inv s := h.invariant (fun _ => Init.inv) fun s e s' hi _ hs => (hi.step_fine e).of_ok hs
  obtain ⟨owner, hp⟩ := hi.placed
  exact ⟨s.heap owner, rfl, rfl, fun t => (hp.tidy t).loaded,
    fun t m hm => (hm ▸ (hp.tidy t).previous).of_some, fun t hm => (hm ▸ (hp.tidy t).previous).of_none,
    hp.pooled.shared, hp.pooled.callers, ⟨hp.pooled.nodup, hp.pooled.obtained⟩, hi.counted.eq,
    fun hpos hmax e he => (hi.step_fine e).of_error he rfl ⟨hpos, hmax⟩⟩

def fresh (magSize : ℕ) : Sys ℕ ℕ :=
  { magSize := magSize, nextItem := fun _ => none, nextMag := fun _ => none, sharedMags := none,
    magsAllocated := 0, handles := fun _ => ⟨0, magSize, none, none⟩, pc := fun _ => .idle, callers := [],
    obtained := [] }

def newMag (t : ℕ) (items : List ℕ) : List (Event ℕ ℕ) := [.alloc t, .run t none, .run t (some items), .run t none]

theorem magazines_sound_shared :
    ∃ (s : Sys ℕ ℕ) (H : Heap ℕ (Place ℕ)), Run.Reaches step (fun _ _ => True) Init s ∧
      H.HasStack .shared (some 11) 2 ∧ H.HasList (.previous 1) (some 13) 2 ∧
      H.HasList (.loaded 1) (some 14) 1 ∧ H.HasList (.loaded 2) (some 15) 1 := by
  obtain ⟨s, h, hs, hh1, hh2⟩ := Run.reached step Init (s := fresh 2) (P := fun s =>
      (s.sharedMags = some 11 ∧ s.magSize = 2) ∧
      ((s.handles 1).previous = some 13 ∧ (s.handles 1).loaded = some 14 ∧ (s.handles 1).rounds = 1) ∧
      ((s.handles 2).loaded = some 15 ∧ (s.handles 2).rounds = 1))
      (newMag 1 [10, 11] ++ [.alloc 1] ++ newMag 1 [12, 13] ++ [.alloc 1, .write 11 (some 7) (some 7)] ++
        newMag 2 [14, 15] ++ [.free 1 10, .free 1 11, .free 1 12, .free 1 13, .free 1 14, .run 1 none])
      ⟨rfl, rfl, fun _ => rfl, fun _ => rfl, rfl, rfl⟩ (by decide)
  obtain ⟨H, -, -, hloaded, hprev, -, hshared, -⟩ := magazines_sound h
  have hl1 := hloaded 1
  have hl2 := hloaded 2
  rw [hh1.2.1, hh1.2.2] at hl1
  rw [hh2.1, hh2.2] at hl2
  rw [hs.1, hs.2] at hshared
  exact ⟨s, H, h, hshared, hs.2 ▸ hprev 1 13 hh1.1, hl1, hl2⟩

end Aspen.Tcache
