import Aspen.Iokernel.IasSteps

/-!
# Reserved cores

`ias_attach` reserves the first cores that are free, each with its sibling, and does not look whether the sibling is
free too; `ias_detach`, and `ias_attach` itself if there are not enough, take them back with an exclusive or. That is an
inverse if the cores come in pairs of which either both are allowed or none is.
-/

namespace Aspen.Ias

open Run Function Finset

variable {σ : Type*} {n : ℕ} {P : Type*} [DecidableEq P] {cfg : Config n}

def Paired (cfg : Config n) : Prop := cfg.noht = true ∨
    ∀ c, cfg.allowed c = true → cfg.allowed (cfg.sibling c) = true ∧ cfg.sibling (cfg.sibling c) = c

def Closed (cfg : Config n) (S : Finset (Fin n)) : Prop :=
  cfg.noht = false → ∀ c, cfg.allowed c = true → (c ∈ S ↔ cfg.sibling c ∈ S)

/-! ## The loop -/

structure Taking (cfg : Config n) (before mine all : Finset (Fin n)) : Prop where
  all_eq : all = before ∪ mine
  fresh : Disjoint before mine
  allowed : ∀ c ∈ mine, cfg.allowed c = true
  closed : Closed cfg mine

variable {before mine all : Finset (Fin n)} {core : Fin n}

lemma Taking.insert (h : Taking cfg before mine all) (hnoht : cfg.noht) (hcore : core ∉ all)
    (hallowed : cfg.allowed core) : Taking cfg before (insert core mine) (insert core all) where
  all_eq := by rw [h.all_eq, union_insert]
  fresh := by
    rw [disjoint_insert_right]
    refine ⟨fun hb => hcore ?_, h.fresh⟩
    rw [h.all_eq]
    exact mem_union_left _ hb
  allowed c hc := by
    rcases mem_insert.1 hc with rfl | hc
    · exact hallowed
    · exact h.allowed c hc
  closed hht := by
    rw [hnoht] at hht
    cases hht

lemma Taking.insert_pair (hpair : Paired cfg) (hbefore : Closed cfg before) (h : Taking cfg before mine all)
    (hnoht : cfg.noht = false) (hcore : core ∉ all) (hallowed : cfg.allowed core) :
    Taking cfg before (Insert.insert (cfg.sibling core) (Insert.insert core mine))
      (Insert.insert (cfg.sibling core) (Insert.insert core all)) := by
  have hp : ∀ c, cfg.allowed c → cfg.allowed (cfg.sibling c) ∧ cfg.sibling (cfg.sibling c) = c := by
    rcases hpair with ht | hp
    · rw [hnoht] at ht
      cases ht
    · exact hp
  rw [h.all_eq, mem_union, not_or] at hcore
  have hsib : cfg.sibling core ∉ before := fun hs => hcore.1 ((hbefore hnoht core hallowed).2 hs)
  refine ⟨?_, ?_, fun c hc => ?_, fun _ c hc => ?_⟩
  · rw [h.all_eq, union_insert, union_insert]
  · rw [disjoint_insert_right, disjoint_insert_right]
    exact ⟨hsib, hcore.1, h.fresh⟩
  · rw [mem_insert, mem_insert] at hc
    rcases hc with rfl | rfl | hc
    · exact (hp core hallowed).1
    · exact hallowed
    · exact h.allowed c hc
  · rw [mem_insert, mem_insert, mem_insert, mem_insert, ← h.closed hnoht c hc]
    constructor
    · rintro (rfl | rfl | hm)
      · exact .inr (.inl (hp core hallowed).2)
      · exact .inl rfl
      · exact .inr (.inr hm)
    · rintro (hs | hs | hm)
      · refine .inr (.inl ?_)
        rw [← (hp c hc).2, hs, (hp core hallowed).2]
      · refine .inl ?_
        rw [← hs, (hp c hc).2]
      · exact .inr (.inr hm)

lemma Taking.reserve (hpair : Paired cfg) (hclosed : Closed cfg before)
    (hbefore : ∀ c, cfg.allowed c = false → c ∈ before) :
    ∀ (i : ℕ) (mine all : Finset (Fin n)), Taking cfg before mine all →
      Taking cfg before (reserve cfg i mine all).2.1 (reserve cfg i mine all).2.2 := by
  intro i
  induction i with
  | zero => exact fun _ _ h => h
  | succ i ih =>
    intro mine all h
    unfold Ias.reserve
    cases hf : (List.finRange n).find? (· ∉ all) with
    | none => exact h
    | some core =>
      have hcore : core ∉ all := by
        have ht := List.find?_some hf
        exact of_decide_eq_true ht
      have hallowed : cfg.allowed core := by
        rw [← Bool.not_eq_false]
        intro hn
        refine hcore ?_
        rw [h.all_eq]
        exact mem_union_left _ (hbefore core hn)
      cases hnoht : cfg.noht with
      | true => exact ih _ _ (h.insert hnoht hcore hallowed)
      | false => exact ih _ _ (h.insert_pair hpair hclosed hnoht hcore hallowed)

lemma Taking.symmDiff (h : Taking cfg before mine all) : symmDiff all mine = before := by
  have hfresh := disjoint_left.1 h.fresh
  ext c
  rw [h.all_eq, mem_symmDiff, mem_union]
  constructor
  · rintro (⟨hb | hm, hn⟩ | ⟨hm, hn⟩)
    · exact hb
    · exact absurd hm hn
    · exact absurd (.inr hm) hn
  · exact fun hb => .inl ⟨.inl hb, hfresh hb⟩

/-! ## The invariant -/

/-- The reserved cores are those that are not allowed and those of the processes. -/
structure Reserved (cfg : Config n) (s : Tables n P) : Prop where
  mem : ∀ c, c ∈ s.reservedCores ↔ cfg.allowed c = false ∨ ∃ p ∈ s.allProcs, c ∈ (s.data p).reservedCores
  disjoint : ∀ p ∈ s.allProcs, ∀ q ∈ s.allProcs, p ≠ q → Disjoint (s.data p).reservedCores (s.data q).reservedCores
  allowed : ∀ p ∈ s.allProcs, ∀ c ∈ (s.data p).reservedCores, cfg.allowed c = true
  closed : ∀ p ∈ s.allProcs, Closed cfg (s.data p).reservedCores

variable {s s' : Tables n P} {p : P}

section

omit [DecidableEq P]

lemma Reserved.of_static (h : Reserved cfg s) (hs : s.Static s') : Reserved cfg s' where
  mem c := by
    rw [hs.reserved, hs.allProcs, h.mem c]
    simp only [hs.mine]
  disjoint p hp q hq hne := by
    rw [hs.allProcs] at hp hq
    rw [hs.mine, hs.mine]
    exact h.disjoint p hp q hq hne
  allowed p hp c hc := by
    rw [hs.allProcs] at hp
    rw [hs.mine] at hc
    exact h.allowed p hp c hc
  closed p hp := by
    rw [hs.allProcs] at hp
    rw [hs.mine]
    exact h.closed p hp

lemma Reserved.closed_all (hpair : Paired cfg) (h : Reserved cfg s) : Closed cfg s.reservedCores := by
  intro hnoht c hc
  have hsib : cfg.allowed (cfg.sibling c) := by
    rcases hpair with ht | hp
    · rw [hnoht] at ht
      cases ht
    · exact (hp c hc).1
  rw [h.mem, h.mem, hc, hsib]
  refine or_congr Iff.rfl (exists_congr fun p => and_congr_right fun hp => ?_)
  exact h.closed p hp hnoht c hc

lemma Reserved.taking (hpair : Paired cfg) (h : Reserved cfg s) (i : ℕ) :
    Taking cfg s.reservedCores (reserve cfg i ∅ s.reservedCores).2.1 (reserve cfg i ∅ s.reservedCores).2.2 :=
  Taking.reserve hpair (h.closed_all hpair) (fun c hc => (h.mem c).2 (.inl hc)) i _ _
    ⟨(union_empty _).symm, disjoint_empty_right _, fun _ hc => absurd hc (notMem_empty _),
      fun _ _ _ => ⟨fun hc => absurd hc (notMem_empty _), fun hc => absurd hc (notMem_empty _)⟩⟩

end

lemma Reserved.attached (h : Reserved cfg s) (hp : p ∉ s.allProcs) {d : Data n}
    (ht : Taking cfg s.reservedCores d.reservedCores all) :
    Reserved cfg { s.setData p d with allProcs := p :: s.allProcs, reservedCores := all } := by
  have hself : update s.data p d p = d := update_self ..
  have hother {q} (hq : q ∈ s.allProcs) : update s.data p d q = s.data q :=
    update_of_ne (ne_of_mem_of_not_mem hq hp) ..
  have hfresh {q} (hq : q ∈ s.allProcs) : Disjoint (s.data q).reservedCores d.reservedCores := by
    refine disjoint_left.2 fun c hc => disjoint_left.1 ht.fresh ?_
    exact (h.mem c).2 (.inr ⟨q, hq, hc⟩)
  refine ⟨fun c => ?_, fun q hq q' hq' hne => ?_, fun q hq c hc => ?_, fun q hq => ?_⟩
  · show c ∈ all ↔ _ ∨ ∃ q ∈ p :: s.allProcs, c ∈ (update s.data p d q).reservedCores
    rw [ht.all_eq, mem_union, h.mem c, List.exists_mem_cons_iff, hself, or_assoc]
    refine or_congr Iff.rfl ((or_congr (exists_congr fun q => and_congr_right fun hq => ?_) Iff.rfl).trans or_comm)
    rw [hother hq]
  · show Disjoint (update s.data p d q).reservedCores (update s.data p d q').reservedCores
    rcases List.mem_cons.1 hq with rfl | hq
    · rcases List.mem_cons.1 hq' with rfl | hq'
      · exact absurd rfl hne
      · rw [hself, hother hq']
        exact (hfresh hq').symm
    · rcases List.mem_cons.1 hq' with he | hq'
      · rw [he, hself, hother hq]
        exact hfresh hq
      · rw [hother hq, hother hq']
        exact h.disjoint q hq q' hq' hne
  · have hc' : c ∈ (update s.data p d q).reservedCores := hc
    rcases List.mem_cons.1 hq with rfl | hq
    · rw [hself] at hc'
      exact ht.allowed c hc'
    · rw [hother hq] at hc'
      exact h.allowed q hq c hc'
  · show Closed cfg (update s.data p d q).reservedCores
    rcases List.mem_cons.1 hq with rfl | hq
    · rw [hself]
      exact ht.closed
    · rw [hother hq]
      exact h.closed q hq

lemma attach_failed (hpair : Paired cfg) (h : Reserved cfg s) {spec : Spec} {mem : Bool}
    (hf : (attach cfg s p spec mem).1 = false) :
    (attach cfg s p spec mem).2.reservedCores = s.reservedCores := by
  rcases attach_cases cfg s p spec mem with he | ⟨mine, all, he, hr⟩ | ⟨d, mine, all, he, -⟩
  · rw [he]
  · have ht := h.taking hpair (iterations cfg spec.guaranteedCores.toInt)
    rw [hr] at ht
    rw [he]
    exact ht.symmDiff
  · rw [he] at hf
    cases hf

lemma attach_succeeded {spec : Spec} {mem : Bool} (hs : (attach cfg s p spec mem).1) :
    ∃ d all, (attach cfg s p spec mem).2 = { s.setData p d with allProcs := p :: s.allProcs, reservedCores := all } ∧
      reserve cfg (iterations cfg spec.guaranteedCores.toInt) ∅ s.reservedCores = (true, d.reservedCores, all) := by
  rcases attach_cases cfg s p spec mem with he | ⟨mine, all, he, hr⟩ | ⟨d, mine, all, he, hr, -, -, -, hm, -⟩
  · rw [he] at hs
    cases hs
  · rw [he] at hs
    cases hs
  · rw [he]
    exact ⟨d, all, rfl, hm ▸ hr⟩

lemma Reserved.attach (hpair : Paired cfg) (h : Reserved cfg s) (hp : p ∉ s.allProcs) (spec : Spec) (mem : Bool) :
    Reserved cfg (attach cfg s p spec mem).2 := by
  rcases attach_cases cfg s p spec mem with he | ⟨mine, all, he, hr⟩ | ⟨d, mine, all, he, hr, -, -, -, hm, -⟩
  · rw [he]
    exact h
  · have hf := attach_failed (p := p) hpair h (congrArg Prod.fst he)
    rw [he] at hf ⊢
    exact h.of_static ⟨rfl, hf, fun _ => rfl, fun _ => rfl, fun _ => rfl⟩
  · have ht := h.taking hpair (iterations cfg spec.guaranteedCores.toInt)
    rw [hr, ← hm] at ht
    rw [he]
    exact h.attached hp ht

lemma Reserved.detach (h : Reserved cfg s) (hb : s.Books) (hp : p ∈ s.allProcs) : Reserved cfg (detach s p) := by
  obtain ⟨l, l', he, -⟩ := detach_eq s p
  rw [he]
  have hmem {q} : q ∈ s.allProcs.erase p ↔ q ≠ p ∧ q ∈ s.allProcs := hb.nodup.mem_erase_iff
  refine ⟨fun c => ?_, fun q hq q' hq' => h.disjoint q (hmem.1 hq).2 q' (hmem.1 hq').2,
    fun q hq => h.allowed q (hmem.1 hq).2, fun q hq => h.closed q (hmem.1 hq).2⟩
  show c ∈ symmDiff s.reservedCores (s.data p).reservedCores ↔
    cfg.allowed c = false ∨ ∃ q ∈ s.allProcs.erase p, c ∈ (s.data q).reservedCores
  rw [mem_symmDiff, h.mem c]
  constructor
  · rintro (⟨hn | ⟨q, hq, hc⟩, hmine⟩ | ⟨hmine, hn⟩)
    · exact .inl hn
    · exact .inr ⟨q, hmem.2 ⟨fun he => hmine (he ▸ hc), hq⟩, hc⟩
    · exact absurd (.inr ⟨p, hp, hmine⟩) hn
  · rintro (hn | ⟨q, hq, hc⟩)
    · refine .inl ⟨.inl hn, fun hc => ?_⟩
      rw [h.allowed p hp c hc] at hn
      cases hn
    · obtain ⟨hne, hq⟩ := hmem.1 hq
      exact .inl ⟨.inr ⟨q, hq, hc⟩, disjoint_left.1 (h.disjoint q hq p hp hne) hc⟩

/-! ## Runs -/

def Between : Event σ n P → Prop
  | .attach .. => False
  | .detach _ => False
  | _ => True

variable {L : Layer σ n P}

lemma static_of_step {s s' : Sys σ n P} (h : s.tab.Inv cfg) {e : Event σ n P} (he : Between e)
    (hs : step cfg L s e = .ok s') : s.tab.Static s'.tab := by
  rcases (step_comes h e).of_ok hs with ⟨p, spec, mem, rfl, -, -⟩ | ⟨p, rfl, -, -⟩ | hdid
  · exact he.elim
  · exact he.elim
  · exact hdid.static

lemma static_of_exec {s s' : Sys σ n P} {es : List (Event σ n P)} (h : s.tab.Inv cfg)
    (hes : ∀ e ∈ es, Between e) (hs : exec (step cfg L) s es = .ok s') : s.tab.Static s'.tab := by
  induction es generalizing s with
  | nil =>
    cases hs
    exact .refl _
  | cons e es ih =>
    unfold exec at hs
    split at hs
    · rename_i s1 he
      have h1 := static_of_step h (hes e (.head _)) he
      exact h1.trans (ih (inv_of_step h he) (fun e' he' => hes e' (.tail _ he')) hs)
    · cases hs

lemma Reserved.of_step (hpair : Paired cfg) {s s' : Sys σ n P} (hi : s.tab.Inv cfg)
    (h : Reserved cfg s.tab) {e : Event σ n P} (hs : step cfg L s e = .ok s') : Reserved cfg s'.tab := by
  rcases (step_comes hi e).of_ok hs with ⟨p, spec, mem, -, hp, he⟩ | ⟨p, -, hp, he⟩ | hdid
  · rw [he]
    exact h.attach hpair hp spec mem
  · rw [he]
    exact h.detach hi.books hp
  · exact h.of_static hdid.static

omit [DecidableEq P] in
lemma Initial.reserved (h : Initial cfg s) : Reserved cfg s := by
  have hnot {p : P} : p ∉ s.allProcs := by
    rw [h.allProcs]
    exact List.not_mem_nil
  refine ⟨fun c => ?_, fun p hp => absurd hp hnot, fun p hp => absurd hp hnot, fun p hp => absurd hp hnot⟩
  rw [h.reservedCores c]
  exact ⟨.inl, fun hc => hc.resolve_right fun ⟨p, hp, _⟩ => hnot hp⟩

/-- If the allowed cores come in pairs or hyperthreads are off, in every run: the reserved cores are those that are
not allowed and those of the processes, which are disjoint and allowed; a failed attempt to attach a process leaves
them as they were, and so does one that succeeds with the matching detach. -/
theorem reserved_cores (hpair : Paired cfg) (L : Layer σ n P) {s : Sys σ n P}
    (h : Reaches (step cfg L) (fun _ _ => True) (fun s => Initial cfg s.tab) s) :
    (∀ c, c ∈ s.tab.reservedCores ↔
      cfg.allowed c = false ∨ ∃ p ∈ s.tab.allProcs, c ∈ (s.tab.data p).reservedCores) ∧
    (∀ p ∈ s.tab.allProcs, ∀ q ∈ s.tab.allProcs, p ≠ q →
      Disjoint (s.tab.data p).reservedCores (s.tab.data q).reservedCores) ∧
    (∀ p ∈ s.tab.allProcs, ∀ c ∈ (s.tab.data p).reservedCores, cfg.allowed c = true) ∧
    ∀ p spec mem, p ∉ s.tab.allProcs →
      ((attach cfg s.tab p spec mem).1 = false →
        (attach cfg s.tab p spec mem).2.reservedCores = s.tab.reservedCores) ∧
      ((attach cfg s.tab p spec mem).1 = true → ∀ es s', (∀ e ∈ es, Between e) →
        exec (step cfg L) { s with tab := (attach cfg s.tab p spec mem).2 } es = .ok s' →
        (detach s'.tab p).reservedCores = s.tab.reservedCores) := by
  have hi : s.tab.Inv cfg := reaches_inv h
  have hr : Reserved cfg s.tab :=
    (h.invariant (I := fun s => s.tab.Inv cfg ∧ Reserved cfg s.tab) (fun _ hi => ⟨hi.inv, hi.reserved⟩)
      fun _ _ _ hs _ he => ⟨inv_of_step hs.1 he, hs.2.of_step hpair hs.1 he⟩).2
  refine ⟨hr.mem, hr.disjoint, hr.allowed, fun p spec mem hp => ⟨attach_failed hpair hr, fun hs es s' hes hex => ?_⟩⟩
  have hst := static_of_exec (inv_attach hi hp spec mem) hes hex
  obtain ⟨d, all, he, hres⟩ := attach_succeeded hs
  have ht := (hr.taking hpair (iterations cfg spec.guaranteedCores.toInt)).symmDiff
  rw [hres] at ht
  obtain ⟨l, l', he', -⟩ := detach_eq s'.tab p
  rw [he']
  rw [hst.reserved, hst.mine, he, ← ht]
  show symmDiff all (update s.tab.data p d p).reservedCores = symmDiff all d.reservedCores
  rw [update_self]

def obliging (n : ℕ) : Layer Unit n Bool where
  threadsAvail _ _ := 1
  runOnCore low _ _ := .ok low
  idleOnCore low _ := .ok low

/-- Cores 2i and 2i + 1 are siblings. -/
def pairs (n : ℕ) [NeZero n] (allowed : Fin n → Bool) : Config n where
  allowed := allowed
  sibling c := if c.val % 2 = 0 then c + 1 else c - 1
  noht := false
  coresTbl := (List.finRange n).filter fun c => allowed c
  preferSelfpair := false
  bwThresh := 1

def nobody {n : ℕ} (cfg : Config n) : Tables n Bool where
  allProcs := []
  idleCores := ∅
  reservedCores := Finset.univ.filter fun c => cfg.allowed c = false
  cores _ := none
  gen _ := 0
  nowUs := 0
  starvedProcs := []
  congestedProcs := []
  punishedCores := ∅
  punishCount := 0
  relaxCount := 0
  budgetUsed _ := 0
  bw := ⟨.relax, fun _ => 0, fun _ => 0⟩
  data _ := ⟨false, false, false, false, 0, ∅, 0, 0, 0, 0, fun _ => 0, 0⟩

lemma nobody_initial {n : ℕ} (cfg : Config n) : Initial cfg (nobody cfg) :=
  ⟨rfl, rfl, fun c => by simp [nobody], fun _ => rfl, rfl, rfl, rfl, rfl, rfl, fun _ => rfl, rfl⟩

def secondPair : Config 4 := pairs 4 fun c => c.val ≥ 2

theorem reserved_cores_pair : ∃ s,
    Reaches (step secondPair (obliging 4)) (fun _ _ => True) (fun s => Initial secondPair s.tab) s ∧
    (s.tab.data false).reservedCores = {2, 3} ∧
    (attach secondPair s.tab true ⟨true, 2, 2, 0, 0⟩ true).1 = false ∧
    (attach secondPair s.tab true ⟨true, 2, 2, 0, 0⟩ true).2.reservedCores = s.tab.reservedCores := by
  refine Reaches.of_exec_imp (s := ⟨(), nobody secondPair⟩) (P := fun s =>
      (s.tab.data false).reservedCores = {2, 3} ∧ true ∉ s.tab.allProcs ∧
      (attach secondPair s.tab true ⟨true, 2, 2, 0, 0⟩ true).1 = false)
    [.attach false ⟨true, 2, 2, 0, 0⟩ true]
      (nobody_initial secondPair) (allowed_true _ _) (by decide +kernel) ?_
  rintro s hr ⟨hmine, hp, hf⟩
  have hpair : Paired secondPair := .inr (by decide)
  exact ⟨hmine, hf, ((reserved_cores hpair (obliging 4) hr).2.2.2 true _ true hp).1 hf⟩

/-- The list 0-2,4 of cores, of which the first two are those of the iokernel. -/
def halfPairs : Config 6 := pairs 6 fun c => c.val = 2 || c.val = 4

/-- A process reserves a core that is not allowed, which is free when it leaves. -/
theorem reserved_core_lost : ∃ s s' s'',
    Reaches (step halfPairs (obliging 6)) (fun _ _ => True) (fun s => Initial halfPairs s.tab) s ∧
    exec (step halfPairs (obliging 6)) s [.attach false ⟨true, 2, 2, 0, 0⟩ true] = .ok s' ∧
    exec (step halfPairs (obliging 6)) s' [.detach false] = .ok s'' ∧
    halfPairs.allowed 3 = false ∧ 3 ∈ s.tab.reservedCores ∧ 3 ∈ (s'.tab.data false).reservedCores ∧
    s''.tab.allProcs = [] ∧ 3 ∉ s''.tab.reservedCores :=
  ⟨⟨(), nobody halfPairs⟩, _, _, .start (nobody_initial halfPairs), rfl, rfl, by decide +kernel⟩

end Aspen.Ias
