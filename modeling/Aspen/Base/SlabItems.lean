import Aspen.Base.Slab

/-!
# The items of slab pages

Every address has one owner: the page that it is a free item of, the callers, or nobody. A page has been carved
up to some item; each item before that is either on the list of the page or handed out, and the counter of the
page is the length of the list and the number of the other items.
-/

namespace Aspen.Slab

open Links Links.Heap Function List

inductive Place
  | free (pg : ℕ)
  | caller
  | outside
  deriving DecidableEq

variable {k : ℕ} {L : Layout} {s : Sys k} {H : Heap ℕ Place} {carved : ℕ → ℕ} {pg x : ℕ}

/-- The items of the pages that are held, which have been carved up to `carved`. -/
structure Items (L : Layout) (s : Sys k) (H : Heap ℕ Place) (carved : ℕ → ℕ) : Prop where
  next : H.next = s.nextHdr
  free : ∀ pg ∈ s.held, ∃ m, H.HasList (.free pg) (s.pages pg).next m ∧
    (s.pages pg).itemCount + carved pg = m + L.nrElems
  caller : H.Owns .caller s.handed
  slots : ∀ x, H.owner x ≠ .outside ↔ ∃ pg, ∃ i < carved pg, x = L.item pg i
  home : ∀ x pg, H.owner x = .free pg → x / L.pgsize = pg
  carved_le : ∀ pg, carved pg ≤ L.nrElems
  held : ∀ pg, carved pg ≠ 0 → pg ∈ s.held

namespace Items

section

variable (h : Items L s H carved)
include h

lemma of_nodes (nodes : Fin k → Node) : Items L { s with nodes := nodes } H carved :=
  ⟨h.next, h.free, h.caller, h.slots, h.home, h.carved_le, h.held⟩

lemma withNode (n : Fin k) (N : Node) : Items L (s.withNode n N) H carved := h.of_nodes _

/-! ## Where items are -/

lemma slot (hL : L.Fits) (hx : H.owner x ≠ .outside) : ∃ i < carved (x / L.pgsize), x = L.item (x / L.pgsize) i := by
  obtain ⟨pg, i, hi, rfl⟩ := (h.slots x).1 hx
  rw [hL.item_div (hi.trans_le (h.carved_le pg))]
  exact ⟨i, hi, rfl⟩

lemma page_held (hL : L.Fits) (hx : H.owner x ≠ .outside) : x / L.pgsize ∈ s.held := by
  obtain ⟨i, hi, -⟩ := h.slot hL hx
  exact h.held _ (Nat.ne_zero_of_lt hi)

lemma owner_of_handed (hx : x ∈ s.handed) : H.owner x ≠ .outside := by
  rw [(h.caller.mem x).1 hx]
  nofun

lemma owner_item (hL : L.Fits) (hlt : carved pg < L.nrElems) : H.owner (L.item pg (carved pg)) = .outside := by
  by_contra hx
  obtain ⟨i, hi, he⟩ := h.slot hL hx
  rw [hL.item_div hlt] at hi he
  exact absurd (hL.item_inj he) (Nat.ne_of_gt hi)

lemma owner_slot (hL : L.Fits) {i : ℕ} (hi : i < carved pg) :
    H.owner (L.item pg i) = .free pg ∨ H.owner (L.item pg i) = .caller := by
  cases ho : H.owner (L.item pg i) with
  | free pg' =>
    have hp := h.home _ _ ho
    rw [hL.item_div (hi.trans_le (h.carved_le pg))] at hp
    exact .inl (congrArg _ hp.symm)
  | caller => exact .inr rfl
  | outside => exact absurd ho ((h.slots _).2 ⟨pg, i, hi, rfl⟩)

lemma empty_of_not_held (hL : L.Fits) (hpg : pg ∉ s.held) : H.Empty (.free pg) := by
  intro x hx
  have ho : H.owner x ≠ .outside := by
    rw [hx]
    nofun
  have hd := h.page_held hL ho
  rw [h.home x pg hx] at hd
  exact hpg hd

lemma perm (hL : L.Fits) {l : List ℕ} (hl : H.Owns (.free pg) l) :
    List.Perm (l ++ s.handed.filter (· / L.pgsize = pg)) ((List.range (carved pg)).map (L.item pg)) := by
  have hinj : ((List.range (carved pg)).map (L.item pg)).Nodup := nodup_range.map fun _ _ he => hL.item_inj he
  have hnd : (l ++ s.handed.filter (· / L.pgsize = pg)).Nodup := by
    refine nodup_append.2 ⟨hl.nodup, h.caller.nodup.filter _, fun x hx y hy he => ?_⟩
    subst he
    have hf := (hl.mem x).1 hx
    rw [(h.caller.mem x).1 (mem_of_mem_filter hy)] at hf
    cases hf
  refine (perm_ext_iff_of_nodup hnd hinj).2 fun x => ?_
  rw [mem_append, mem_filter, decide_eq_true_eq, hl.mem x, h.caller.mem x, mem_map]
  constructor
  · intro hx
    have ho : H.owner x ≠ .outside ∧ x / L.pgsize = pg := by
      rcases hx with hx | ⟨hx, hp⟩
      · refine ⟨?_, h.home x pg hx⟩
        rw [hx]
        nofun
      · refine ⟨?_, hp⟩
        rw [hx]
        nofun
    obtain ⟨i, hi, he⟩ := h.slot hL ho.1
    rw [ho.2] at hi he
    exact ⟨i, mem_range.2 hi, he.symm⟩
  · rintro ⟨i, hi, rfl⟩
    have hlt := mem_range.1 hi
    have hp : L.item pg i / L.pgsize = pg := hL.item_div (hlt.trans_le (h.carved_le pg))
    exact (h.owner_slot hL hlt).imp_right fun hcl => ⟨hcl, hp⟩

lemma count (hL : L.Fits) (hpg : pg ∈ s.held) :
    (s.pages pg).itemCount + (s.handed.filter (· / L.pgsize = pg)).length = L.nrElems := by
  obtain ⟨m, ⟨l, -, hm, hl⟩, hc⟩ := h.free pg hpg
  have hlen := (h.perm hL hl).length_eq
  rw [length_append, length_map, length_range] at hlen
  omega

lemma carved_of_full (hpg : pg ∈ s.held) (h0 : (s.pages pg).itemCount = 0) : carved pg = L.nrElems := by
  obtain ⟨m, -, hc⟩ := h.free pg hpg
  have hle := h.carved_le pg
  omega

lemma handed_iff (hL : L.Fits) (hpg : pg ∈ s.held) :
    (∃ x ∈ s.handed, x / L.pgsize = pg) ↔ (s.pages pg).itemCount ≠ L.nrElems := by
  have hc := h.count hL hpg
  constructor
  · rintro ⟨x, hx, hp⟩ he
    have hm : x ∈ s.handed.filter (· / L.pgsize = pg) := mem_filter.2 ⟨hx, decide_eq_true hp⟩
    have := length_pos_of_mem hm
    omega
  · intro hne
    have hpos : 0 < (s.handed.filter (· / L.pgsize = pg)).length := by omega
    obtain ⟨x, hx⟩ := exists_mem_of_length_pos hpos
    exact ⟨x, mem_of_mem_filter hx, of_decide_eq_true (mem_filter.1 hx).2⟩

/-! ## Handing out -/

lemma free_withPage {H' : Heap ℕ Place} {carved' : ℕ → ℕ} {p : Page}
    (hH : ∀ pg' ≠ pg, H.Same (.free pg') H') (hcv : ∀ pg' ≠ pg, carved' pg' = carved pg')
    (hp : ∃ m, H'.HasList (.free pg) p.next m ∧ p.itemCount + carved' pg = m + L.nrElems) :
    ∀ pg' ∈ pg :: s.held, ∃ m, H'.HasList (.free pg') ((s.withPage pg p).pages pg').next m ∧
      ((s.withPage pg p).pages pg').itemCount + carved' pg' = m + L.nrElems := by
  refine (forall_update_iff s.pages fun pg' p => pg' ∈ pg :: s.held → ∃ m, H'.HasList (.free pg') p.next m ∧
    p.itemCount + carved' pg' = m + L.nrElems).2 ⟨fun _ => hp, fun pg' he hpg' => ?_⟩
  obtain ⟨m, hl, hc⟩ := h.free pg' ((mem_cons.1 hpg').resolve_left he)
  exact ⟨m, hl.same (hH pg' he), (hcv pg' he).symm ▸ hc⟩

lemma pop (hpg : pg ∈ s.held) (hn : (s.pages pg).next = some x) :
    Items L { s.withPage pg ⟨s.nextHdr x, (s.pages pg).itemCount - 1⟩ with handed := x :: s.handed }
      (H.pass x .caller) carved := by
  obtain ⟨m, hl, hc⟩ := h.free pg hpg
  rw [hn] at hl
  have hx : H.owner x = .free pg := hl.owner_head
  have hm : H.Moved (.free pg) .caller (H.pass x .caller) := moved_pass hx
  have hlist : ∃ m, (H.pass x .caller).HasList (.free pg) (s.nextHdr x) m ∧
      (s.pages pg).itemCount - 1 + carved pg = m + L.nrElems := by
    cases m with
    | zero => cases hl.empty.1
    | succ m =>
      have hle := h.carved_le pg
      refine ⟨m, ?_, by omega⟩
      rw [← h.next]
      exact hl.pass nofun
  refine ⟨h.next, fun pg' hpg' => ?_, h.caller.pass hx nofun, fun y => ?_, fun y pg' hy => ?_, h.carved_le, h.held⟩
  · exact h.free_withPage (fun pg' hne => hm.same (fun he => hne (Place.free.inj he)) nofun) (fun _ _ => rfl)
      hlist pg' (.tail _ hpg')
  · rw [← h.slots y]
    exact not_congr (hm.same (R := .outside) nofun nofun y).1
  · exact h.home y pg' (hm.owner nofun hy)

lemma carve (hL : L.Fits) (hpg : pg ∈ s.held) (hn : (s.pages pg).next = none)
    (h0 : (s.pages pg).itemCount ≠ 0) :
    carved pg < L.nrElems ∧
      Items L { s.withPage pg ⟨none, (s.pages pg).itemCount - 1⟩ with
          handed := L.item pg (carved pg) :: s.handed }
        (H.pass (L.item pg (carved pg)) .caller) (update carved pg (carved pg + 1)) := by
  obtain ⟨m, hl, hc⟩ := h.free pg hpg
  rw [hn] at hl
  obtain ⟨rfl, he⟩ := hl.of_none
  have hlt : carved pg < L.nrElems := by
    omega
  have hx := h.owner_item hL hlt
  have hm : H.Moved .outside .caller (H.pass (L.item pg (carved pg)) .caller) := moved_pass hx
  refine ⟨hlt, h.next, fun pg' hpg' => ?_, h.caller.pass hx nofun, fun y => ?_,
    fun y pg' hy => h.home y pg' (hm.owner nofun hy),
    (forall_update_iff carved fun _ c => c ≤ L.nrElems).2 ⟨hlt, fun pg' _ => h.carved_le pg'⟩,
    (forall_update_iff carved fun pg' c => c ≠ 0 → pg' ∈ s.held).2 ⟨fun _ => hpg, fun pg' _ => h.held pg'⟩⟩
  · refine h.free_withPage (fun pg' _ => hm.same nofun nofun) (fun pg' hne => update_of_ne hne ..)
      ⟨0, (he.same (hm.same nofun nofun)).hasList, ?_⟩ pg' (.tail _ hpg')
    rw [update_self]
    dsimp only
    omega
  · by_cases hy : y = L.item pg (carved pg)
    · subst hy
      refine iff_of_true ?_ ⟨pg, carved pg, ?_, rfl⟩
      · intro ho
        have hcl : Place.caller = .outside := (if_pos rfl).symm.trans ho
        cases hcl
      · rw [update_self]
        exact Nat.lt_succ_self _
    · have ho : (H.pass (L.item pg (carved pg)) .caller).owner y = H.owner y := if_neg hy
      rw [ho, h.slots y]
      refine exists_congr fun pg' => exists_congr fun i => and_congr_left fun hyi => ?_
      by_cases hp : pg' = pg
      · subst hp
        have hne : i ≠ carved pg' := fun he => hy (he ▸ hyi)
        rw [update_self]
        omega
      · rw [update_of_ne hp]

/-! ## Freeing -/

lemma put (hL : L.Fits) (hx : x ∈ s.handed) (hp : x / L.pgsize = pg) :
    Items L (s.slabNodePut pg x) (H.push x (s.pages pg).next (.free pg)) carved := by
  have ho : H.owner x = .caller := (h.caller.mem x).1 hx
  have hpg : pg ∈ s.held := hp ▸ h.page_held hL (h.owner_of_handed hx)
  have hm : H.Moved .caller (.free pg) (H.push x (s.pages pg).next (.free pg)) := moved_push ho
  obtain ⟨m, hl, hc⟩ := h.free pg hpg
  have hcl : (H.pass x (.free pg)).Owns .caller (s.handed.erase x) := h.caller.erase nofun
  refine ⟨?_, fun pg' hpg' => ?_, ⟨hcl.nodup, hcl.mem⟩, fun y => ?_, fun y pg' hy => ?_, h.carved_le, h.held⟩
  · show update H.next x _ = update s.nextHdr x _
    rw [h.next]
  · refine h.free_withPage (fun pg' hne => hm.same nofun fun he => hne (Place.free.inj he)) (fun _ _ => rfl)
      ⟨m + 1, hl.push ho nofun, ?_⟩ pg' (.tail _ hpg')
    dsimp only
    omega
  · rw [← h.slots y]
    exact not_congr (hm.same (R := .outside) nofun nofun y).1
  · by_cases he : pg' = pg
    · subst he
      by_cases hyx : y = x
      · exact hyx ▸ hp
      · exact h.home y pg' ((if_neg hyx).symm.trans hy)
    · exact h.home y pg' (hm.owner (fun hf => he (Place.free.inj hf)) hy)

lemma write (hx : x ∈ s.handed) (v : Option ℕ) :
    Items L { s with nextHdr := update s.nextHdr x v } (H.write x v none) carved := by
  have hm : H.Moved .caller .caller (H.write x v none) := moved_write ((h.caller.mem x).1 hx)
  refine ⟨?_, fun pg hpg => ?_, ⟨h.caller.nodup, h.caller.mem⟩, h.slots, h.home, h.carved_le, h.held⟩
  · show update H.next x v = update s.nextHdr x v
    rw [h.next]
  · obtain ⟨m, hl, hc⟩ := h.free pg hpg
    exact ⟨m, hl.same (hm.same nofun nofun), hc⟩

/-! ## Pages come and go -/

lemma fresh (hL : L.Fits) (hpg : pg ∉ s.held) :
    carved pg = 0 ∧ Items L { s.withPage pg ⟨none, L.nrElems⟩ with held := pg :: s.held } H carved := by
  have h0 : carved pg = 0 := by
    by_contra hne
    exact hpg (h.held pg hne)
  refine ⟨h0, h.next, ?_, h.caller, h.slots, h.home, h.carved_le, fun pg' hne => .tail _ (h.held pg' hne)⟩
  refine h.free_withPage (fun pg' _ => .refl H _) (fun _ _ => rfl) ⟨0, ?_, ?_⟩
  · exact (h.empty_of_not_held hL hpg).hasList
  · rw [h0, Nat.zero_add, Nat.add_zero]

lemma release (hL : L.Fits) (hnd : s.held.Nodup) (hpg : pg ∈ s.held)
    (hall : (s.pages pg).itemCount = L.nrElems) :
    Items L { s with held := s.held.erase pg } (H.relocate (.free pg) .outside)
      (update carved pg 0) := by
  have hm : H.Moved (.free pg) .outside (H.relocate (.free pg) .outside) := moved_relocate
  have hnone : ∀ x ∈ s.handed, x / L.pgsize ≠ pg := by
    intro x hx hp
    exact (h.handed_iff hL hpg).1 ⟨x, hx, hp⟩ hall
  refine ⟨h.next, fun pg' hpg' => ?_, h.caller.same (hm.same nofun nofun), fun y => ?_,
    fun y pg' hy => h.home y pg' (hm.owner nofun hy),
    (forall_update_iff carved fun _ c => c ≤ L.nrElems).2 ⟨Nat.zero_le _, fun pg' _ => h.carved_le pg'⟩,
    (forall_update_iff carved fun pg' c => c ≠ 0 → pg' ∈ s.held.erase pg).2
      ⟨fun hne => absurd rfl hne, fun pg' he hne => (mem_erase_of_ne he).2 (h.held pg' hne)⟩⟩
  · obtain ⟨hne, hpg'⟩ := hnd.mem_erase_iff.1 hpg'
    obtain ⟨m, hl, hc⟩ := h.free pg' hpg'
    rw [update_of_ne hne]
    exact ⟨m, hl.same (hm.same (fun he => hne (Place.free.inj he)) nofun), hc⟩
  · -- the addresses that somebody has on the page are just the free items
    have hown : H.owner y = .free pg ∨ H.owner y = .outside ↔
        (H.relocate (.free pg) .outside).owner y = .outside := by
      show _ ↔ (if H.owner y = .free pg then Place.outside else H.owner y) = .outside
      by_cases hy : H.owner y = .free pg
      · rw [if_pos hy]
        exact iff_of_true (.inl hy) rfl
      · rw [if_neg hy]
        exact or_iff_right hy
    rw [Ne, ← hown, not_or, ← Ne, ← Ne, h.slots y]
    constructor
    · rintro ⟨hf, pg', i, hi, rfl⟩
      have hp : L.item pg' i / L.pgsize = pg' := hL.item_div (hi.trans_le (h.carved_le pg'))
      have hne : pg' ≠ pg := by
        rintro rfl
        have hcl := (h.owner_slot hL hi).resolve_left hf
        exact hnone _ ((h.caller.mem _).2 hcl) hp
      refine ⟨pg', i, ?_, rfl⟩
      rw [update_of_ne hne]
      exact hi
    · rintro ⟨pg', i, hi, rfl⟩
      have hne : pg' ≠ pg := by
        rintro rfl
        rw [update_self] at hi
        cases hi
      rw [update_of_ne hne] at hi
      have hp : L.item pg' i / L.pgsize = pg' := hL.item_div (hi.trans_le (h.carved_le pg'))
      exact ⟨fun hf => hne (hp.symm.trans (h.home _ _ hf)), pg', i, hi, rfl⟩

end

end Items

lemma Init.items (h : Init s) : Items L s ⟨s.nextHdr, fun _ => none, fun _ => .outside⟩ fun _ => 0 := by
  refine ⟨rfl, ?_, ?_, fun x => ?_, nofun, fun _ => Nat.zero_le _, fun _ hne => absurd rfl hne⟩
  · rw [h.held]
    nofun
  · rw [h.handed]
    exact ⟨nodup_nil, fun x => ⟨nofun, nofun⟩⟩
  · exact iff_of_false (fun hx => hx rfl) fun ⟨_, _, hi, _⟩ => nomatch hi

end Aspen.Slab
