import Aspen.Iokernel.Ksched

/-!
# Each request is served once

At most one request is outstanding: `ksched_run` waits for the report of the previous one. The invariant splits
the history at that request, into the requests that are over (`base`) and the outstanding one, and follows it
through the stages *waiting*, *found*, *read*, *taken* and *handed* of the kernel's code.
-/

namespace Aspen.Ksched

open Run

lemma setWidth_signExtend (x : BitVec 32) : (x.signExtend 64).setWidth 32 = x := by
  ext i hi
  rw [BitVec.getElem_setWidth, BitVec.getLsbD_signExtend]
  simp only [hi, show i < 64 by omega, decide_true, Bool.true_and, if_true]
  rfl

lemma setWidth_setWidth (x : BitVec 32) : (x.setWidth 64).setWidth 32 = x := by
  rw [BitVec.setWidth_setWidth_of_le _ (by decide), BitVec.setWidth_eq]

lemma setWidth_inj {x y : BitVec 32} : x.setWidth 64 = y.setWidth 64 ↔ x = y :=
  ⟨fun h => by rw [← setWidth_setWidth x, h, setWidth_setWidth], fun h => h ▸ rfl⟩

lemma signExtend_ne {x y : BitVec 32} (h : x ≠ y) : x.signExtend 64 ≠ y.setWidth 64 := by
  intro he
  apply h
  rw [← setWidth_signExtend x, he, setWidth_setWidth]

lemma add_one_ne (x : BitVec 32) : x + 1#32 ≠ x := by
  intro h
  have h' := congrArg BitVec.toNat h
  rw [BitVec.toNat_add] at h'
  simp only [BitVec.toNat_ofNat] at h'
  omega

def newest (g₀ : BitVec 32) : List Entry → BitVec 32
  | [] => g₀
  | e :: _ => e.1

/-! ## The condition -/

def Ok (s : Sys) : Event → Prop
  -- the new generation is not zero, and no unanswered signal names it
  | .run _ => s.gens + 1#32 ≠ 0#32 ∧ s.shm.sig ≠ s.gens + 1#32
  -- the run the signal is meant for was reported
  | .enqueueIntr _ => s.pollRunDone = true
  | .kernel _ => match s.pc with
    -- the idle loop finds nothing new only below `2^31`
    | .idleWait _ => s.shm.gen = s.kp.lastGen → s.shm.gen.msb = false
    -- a caller of `ksched_park` that is asked for is the running task, if there is one
    | .setLastGen _ tid path => path = .park tid → ∀ t ∈ s.kp.runningTask, t = tid
    | _ => True
  | _ => True

instance (s : Sys) (e : Event) : Decidable (Ok s e) := by
  cases e <;> dsimp only [Ok] <;> try split
  all_goals infer_instance

/-! ## The invariant -/

/-- What the kernel has done for the outstanding request, and what it has read of it. -/
structure Stage where
  taken : Bool := false
  handed : Bool := false
  gen : Option (BitVec 64) := none
  tid : Option ℕ := none

def Pc.stage : Pc → Stage
  | .out | .idleMark | .idleWait _ | .parkSignal _ | .parkLoad _ | .parkIdle | .parkRelease => {}
  | .readTid g _ => { gen := g }
  | .setLastGen g tid _ => { gen := g, tid := tid }
  | .nextTid g tid _ => { taken := true, gen := g, tid := tid }
  | .wakeUp g tid _ => { taken := true, handed := true, gen := g, tid := tid }
  | .setShmBusy g _ | .setBusy g _ | .report g _ => { taken := true, handed := true, gen := g }

/-- The stages against the history; `x` is the outstanding request. -/
structure Stage.Facts (taken handed : List Entry) (iok : IokPc) (base : List Entry) (x : Option Entry)
    (st : Stage) : Prop where
  taken : taken = (if st.taken then x.toList else []) ++ base
  handed : handed = (if st.handed then x.toList else []) ++ base
  held : ∀ g ∈ st.gen, iok ≠ .storeGen ∧ ∃ e, x = some e ∧ e.1 = g.setWidth 32 ∧ ∀ t ∈ st.tid, e.2 = t

lemma Stage.Facts.iok {taken handed : List Entry} {iok iok' : IokPc} {base : List Entry} {x : Option Entry}
    {st : Stage} (h : st.Facts taken handed iok base x) (hiok : iok' ≠ .storeGen) :
    st.Facts taken handed iok' base x :=
  ⟨h.taken, h.handed, fun g hg => ⟨hiok, (h.held g hg).2⟩⟩

def Pc.quiet : Pc → Bool
  | .out | .report _ _ => false
  | _ => true

def Hist.Current (h : Hist) : Prop := h.signumFor = h.taken ∧ h.sigFor = h.taken

def Hist.StartedFor (h : Hist) (task : ℕ) : Prop := h.startedFor = h.taken ∧ ∃ g, h.taken.head? = some (g, task)

structure Inv (g₀ : BitVec 32) (s : Sys) (base : List Entry) (x : Option Entry) : Prop where
  issued : s.hist.issued = x.toList ++ base
  reported : s.hist.reported = base.map Prod.fst
  stage : s.pc.stage.Facts s.hist.taken s.hist.handed s.iok base x
  gens : s.gens = newest g₀ s.hist.issued
  lastGen : s.shm.lastGen = newest g₀ base
  kpLastGen : s.kp.lastGen = newest g₀ s.hist.taken
  /-- the outstanding request has the next generation, and no signal names it yet -/
  fresh : ∀ e ∈ x, e.1 = newest g₀ base + 1#32 ∧ e.1 ≠ 0#32 ∧ s.shm.sig ≠ e.1
  tid : ∀ e ∈ x, s.shm.tid = e.2
  gen : s.iok ≠ .storeGen → s.shm.gen = s.gens
  storeGen : s.iok = .storeGen → s.shm.gen = newest g₀ base ∧ x.isSome
  storeSig : s.iok = .storeSig → x = none ∧ s.hist.signumFor = s.hist.issued
  current : s.shm.sig = s.kp.lastGen → s.hist.Current
  ipi : s.ipi ≠ .out → s.hist.Current
  quiet : s.pc.quiet = true → s.kp.busy = false
  started : (∀ g tid p, s.pc ≠ .nextTid g tid p) → ∀ t ∈ s.kp.runningTask, s.hist.StartedFor t
  delivered : ∀ d ∈ s.hist.delivered, d.Right

lemma Inv.init (g : BitVec 32) : Inv g (.init g) [] none where
  issued := rfl
  reported := rfl
  stage := ⟨rfl, rfl, nofun⟩
  gens := rfl
  lastGen := rfl
  kpLastGen := rfl
  fresh := nofun
  tid := nofun
  gen := fun _ => rfl
  storeGen := nofun
  storeSig := nofun
  current := fun _ => ⟨rfl, rfl⟩
  ipi := fun h => absurd rfl h
  quiet := nofun
  started := fun _ _ ht => nomatch ht
  delivered := nofun

variable {g₀ : BitVec 32} {s s' : Sys} {base : List Entry} {x : Option Entry}

variable {g : BitVec 64} {n t tid : ℕ} {p : Path}

namespace Inv

section

variable (h : Inv g₀ s base x)
include h

lemma eq_none (hd : s.pollRunDone) : x = none := by
  cases x with
  | none => rfl
  | some e =>
    have hgens : s.gens = e.1 := by rw [h.gens, h.issued]; rfl
    have hlast : s.shm.lastGen = s.gens := beq_iff_eq.1 hd
    rw [h.lastGen, hgens, (h.fresh e rfl).1] at hlast
    exact absurd hlast.symm (add_one_ne _)

lemma stage_of_none (hx : x = none) : s.pc.stage = {} := by
  have hheld := h.stage.held
  cases hpc : s.pc with
  | out | idleMark | idleWait | parkSignal | parkLoad | parkIdle | parkRelease => rfl
  | _ =>
    rw [hpc] at hheld
    obtain ⟨-, e, he, -⟩ := hheld _ rfl
    cases hx.symm.trans he

lemma issued_of_none (hx : x = none) : s.hist.issued = s.hist.taken := by
  rw [h.issued, h.stage.taken, h.stage_of_none hx, hx]
  rfl

/-! ## The iokernel's steps -/

lemma run (hiok : s.iok = .out) (hd : s.pollRunDone) (tid : ℕ)
    (hok : Ok s (.run tid)) : Inv g₀ (s.run tid) base (some (s.gens + 1#32, tid)) := by
  have hst := h.stage
  rw [h.stage_of_none (h.eq_none hd)] at hst
  cases h.eq_none hd
  have hissued : s.hist.issued = base := h.issued
  have hgens : s.gens = newest g₀ base := by rw [h.gens, hissued]
  refine { h with
    issued := congrArg _ hissued, gens := rfl, stage := ?_, fresh := ?_, tid := ?_, gen := ?_,
    storeGen := ?_, storeSig := nofun }
  · show Stage.Facts _ _ _ _ _ s.pc.stage
    rw [h.stage_of_none rfl]
    exact ⟨hst.taken, hst.handed, nofun⟩
  · rintro e ⟨⟩
    exact ⟨congrArg (· + 1#32) hgens, hok.1, hok.2⟩
  · rintro e ⟨⟩
    rfl
  · exact fun hne => absurd rfl hne
  · intro _
    exact ⟨(h.gen (by rw [hiok]; nofun)).trans hgens, rfl⟩

lemma enqueueIntr (hiok : s.iok = .out) (type : Intr)
    (hd : s.pollRunDone) : Inv g₀ (s.enqueueIntr type) base x := by
  have hx := h.eq_none hd
  have hissued := h.issued_of_none hx
  refine { h with
    stage := h.stage.iok nofun, gen := ?_, storeGen := nofun, storeSig := fun _ => ⟨hx, rfl⟩, current := ?_,
    ipi := ?_ }
  · exact fun _ => h.gen (by rw [hiok]; nofun)
  · exact fun hs => ⟨hissued, (h.current hs).2⟩
  · exact fun hs => ⟨hissued, (h.ipi hs).2⟩

lemma store (hs : s.store = .ok s') : Inv g₀ s' base x := by
  unfold Sys.store at hs
  cases hiok : s.iok with
  | out =>
    rw [hiok] at hs
    cases hs
  | storeGen =>
    rw [hiok] at hs
    cases hs
    exact { h with
      stage := h.stage.iok nofun
      gen := fun _ => rfl
      storeGen := nofun
      storeSig := nofun }
  | storeSig =>
    rw [hiok] at hs
    cases hs
    obtain ⟨rfl, hfor⟩ := h.storeSig hiok
    have hissued := h.issued_of_none rfl
    exact { h with
      stage := h.stage.iok nofun
      fresh := nofun
      gen := fun _ => h.gen (by rw [hiok]; nofun)
      storeGen := nofun
      storeSig := nofun
      current := fun _ => ⟨hfor.trans hissued, hissued⟩
      ipi := fun _ => ⟨hfor.trans hissued, hissued⟩ }

/-! ## The interrupt's steps -/

lemma interrupt : Inv g₀ s.interrupt base x := by
  refine { h with ipi := ?_ }
  intro hne
  by_cases hsig : s.shm.sig = s.kp.lastGen
  · exact h.current hsig
  · exact absurd (if_neg hsig) hne

lemma deliverSignal (hc : s.hist.Current) (signum : ℕ) : ∀ d ∈ s.deliverSignal signum, d.Right := by
  intro d hd
  unfold Sys.deliverSignal at hd
  split at hd
  · rename_i task hbusy hrun
    rcases List.mem_cons.1 hd with rfl | hd
    · obtain ⟨hfor, g, hg⟩ := h.started (fun g tid p hpc => by
        have hq := h.quiet (by rw [hpc]; rfl)
        rw [hq] at hbusy
        cases hbusy) task hrun
      exact ⟨hc.1.trans hfor.symm, hc.2.trans hfor.symm, g, by rw [hfor, hg]⟩
    · exact h.delivered d hd
  · exact h.delivered d hd

lemma handler (hs : s.handler = .ok s') : Inv g₀ s' base x := by
  unfold Sys.handler at hs
  cases hipi : s.ipi with
  | out =>
    rw [hipi] at hs
    cases hs
  | deliver =>
    rw [hipi] at hs
    cases hs
    have hc := h.ipi (by rw [hipi]; nofun)
    exact { h with
      ipi := fun _ => hc
      delivered := h.deliverSignal hc _ }
  | clear =>
    rw [hipi] at hs
    cases hs
    have hc := h.ipi (by rw [hipi]; nofun)
    exact { h with
      fresh := fun e he => ⟨(h.fresh e he).1, (h.fresh e he).2.1, (h.fresh e he).2.1.symm⟩
      current := fun _ => hc
      ipi := fun hne => absurd rfl hne }

/-! ## The kernel's steps -/

lemma move {pc0 pc : Pc} {shmBusy busy : Bool} (hpc : s.pc = pc0)
    (hst : pc0.stage.Facts s.hist.taken s.hist.handed s.iok base x →
      pc.stage.Facts s.hist.taken s.hist.handed s.iok base x)
    (hbusy : (pc0.quiet → s.kp.busy = false) → pc.quiet → busy = false)
    (hne : ∀ g tid p, pc0 ≠ .nextTid g tid p) :
    Inv g₀ { s with shm.busy := shmBusy, kp.busy := busy, pc := pc } base x := by
  subst hpc
  exact { h with
    stage := hst h.stage
    quiet := hbusy h.quiet
    started := fun _ => h.started hne }

lemma found {pc0 : Pc} (hpc : s.pc = pc0) (hst : pc0.stage = {}) (hq : pc0.quiet)
    (hg : g.setWidth 32 = s.shm.gen) (hne : s.shm.gen ≠ s.kp.lastGen) (p : Path) :
    Inv g₀ { s with pc := .readTid g p } base x := by
  refine h.move hpc ?_ (fun hbusy _ => hbusy hq) fun g tid p he => ?_
  · rw [hst]
    intro hs
    have ht : s.hist.taken = base := hs.taken
    have hk := h.kpLastGen
    rw [ht] at hk
    have hiok : s.iok ≠ .storeGen := fun hiok => hne ((h.storeGen hiok).1.trans hk.symm)
    have hgen := h.gen hiok
    refine ⟨ht, hs.handed, ?_⟩
    rintro _ ⟨⟩
    cases x with
    | none => exact absurd (hgen.trans (h.gens.trans (h.issued ▸ hk.symm))) hne
    | some e => exact ⟨hiok, e, rfl, by rw [hg, hgen, h.gens, h.issued]; rfl, nofun⟩
  · rw [he] at hst
    cases hst

lemma idle (hpc : s.pc = .out) (exiting : Bool) : Inv g₀ (s.idle exiting) base x := by
  unfold Sys.idle
  split
  · exact h
  · have hs := h.stage
    rw [hpc] at hs
    exact { h with
      stage := hs
      quiet := fun _ => rfl
      started := fun _ _ ht => nomatch ht }

lemma park (hpc : s.pc = .out) (current : ℕ) : Inv g₀ (s.park current) base x := h.move hpc id (fun _ _ => rfl) nofun

lemma idleWait (hpc : s.pc = .idleWait n) (hok : s.shm.gen = s.kp.lastGen → s.shm.gen.msb = false) :
    Inv g₀ { s with pc := s.mwaitOnAddr n } base x := by
  unfold Sys.mwaitOnAddr Sys.idleFound
  by_cases hgen : s.shm.gen = s.kp.lastGen
  · have hext : s.shm.gen.signExtend 64 = s.kp.lastGen.setWidth 64 := by
      rw [BitVec.signExtend_eq_setWidth_of_msb_false (hok hgen), hgen]
    simp only [hext, if_true]
    split
    · exact h.move hpc id (fun hq _ => hq rfl) nofun
    · exact h.move hpc id (fun hq _ => hq rfl) nofun
  · simp only [hgen, false_and, if_false, signExtend_ne hgen]
    exact h.found hpc rfl rfl (setWidth_signExtend _) hgen _

lemma parkLoad (hpc : s.pc = .parkLoad t) : Inv g₀ { s with pc := s.parkFound t } base x := by
  unfold Sys.parkFound
  simp only [setWidth_inj]
  split
  · exact h.move hpc id (fun hq _ => hq rfl) nofun
  · rename_i hne
    exact h.found hpc rfl rfl (setWidth_setWidth _) hne _

lemma readTid (hpc : s.pc = .readTid g p) : Inv g₀ { s with pc := .setLastGen g s.shm.tid p } base x := by
  refine h.move hpc (fun hs => ⟨hs.taken, hs.handed, ?_⟩) (fun hq _ => hq rfl) nofun
  rintro _ ⟨⟩
  obtain ⟨hiok, e, rfl, he, -⟩ := hs.held g rfl
  refine ⟨hiok, e, rfl, he, ?_⟩
  rintro _ ⟨⟩
  exact (h.tid e rfl).symm

lemma held (hg : s.pc.stage.gen = some g) (ht : s.pc.stage.tid = some tid) :
    s.iok ≠ .storeGen ∧ x = some (g.setWidth 32, tid) := by
  obtain ⟨hiok, e, rfl, hgen, htid⟩ := h.stage.held g hg
  exact ⟨hiok, congrArg some (Prod.ext hgen (htid tid ht))⟩

lemma take (hpc : s.pc = .setLastGen g tid p) (hipi : s.ipi = .out)
    (hok : p = .park tid → ∀ t ∈ s.kp.runningTask, t = tid) : Inv g₀ (s.take g tid p) base x := by
  have hs := h.stage
  obtain ⟨hiok, rfl⟩ := h.held (by rw [hpc]; rfl) (by rw [hpc]; rfl)
  rw [hpc] at hs
  have ht : s.hist.taken = base := hs.taken
  have hh : s.hist.handed = base := hs.handed
  have hq : s.kp.busy = false := h.quiet (by rw [hpc]; rfl)
  unfold Sys.take
  split
  · rename_i hp
    exact { h with
      stage := ⟨congrArg _ ht, congrArg _ hh, by rintro _ ⟨⟩; exact ⟨hiok, _, rfl, rfl, nofun⟩⟩
      kpLastGen := rfl
      current := fun he => absurd he (h.fresh _ rfl).2.2
      ipi := fun hne => absurd hipi hne
      quiet := fun _ => hq
      started := fun _ t hrun => by
        cases hok hp t hrun
        refine ⟨(if_pos hrun).trans ?_, _, rfl⟩
        rw [ht, hh] }
  · exact { h with
      stage := ⟨congrArg _ ht, hh, hs.held⟩
      kpLastGen := rfl
      current := fun he => absurd he (h.fresh _ rfl).2.2
      ipi := fun hne => absurd hipi hne
      quiet := fun _ => hq
      started := fun hne => absurd rfl (hne _ _ _) }

lemma nextTid (hpc : s.pc = .nextTid g tid p) : Inv g₀ (s.nextTid g tid p) base x := by
  have hs := h.stage
  obtain ⟨hiok, rfl⟩ := h.held (by rw [hpc]; rfl) (by rw [hpc]; rfl)
  rw [hpc] at hs
  have hh : s.hist.handed = base := hs.handed
  refine { h with
    stage := ?_
    quiet := fun _ => ?_
    started := fun _ _ hrun => nomatch hrun }
  · show Stage.Facts _ _ _ _ _ (Pc.stage (if tid = 0 then _ else _))
    split
    · exact ⟨hs.taken, congrArg _ hh, by rintro _ ⟨⟩; exact ⟨hiok, _, rfl, rfl, nofun⟩⟩
    · exact ⟨hs.taken, congrArg _ hh, hs.held⟩
  · exact h.quiet (by rw [hpc]; rfl)

lemma wakeUp (hpc : s.pc = .wakeUp g tid p) (flag : Bool) : Inv g₀ (s.wakeUp g tid p flag) base x := by
  have hs := h.stage
  obtain ⟨hiok, rfl⟩ := h.held (by rw [hpc]; rfl) (by rw [hpc]; rfl)
  rw [hpc] at hs
  refine { h with
    stage := ⟨hs.taken, hs.handed, by rintro _ ⟨⟩; exact ⟨hiok, _, rfl, rfl, nofun⟩⟩
    quiet := fun _ => h.quiet (by rw [hpc]; rfl)
    started := ?_ }
  intro _ t hrun
  cases flag with
  | false => cases hrun
  | true =>
    cases hrun
    exact ⟨hs.handed.trans hs.taken.symm, _, congrArg List.head? hs.taken⟩

lemma report (hpc : s.pc = .report g p) :
    ∃ base', Inv g₀ { s with
      shm.lastGen := g.setWidth 32
      pc := .out
      hist.reported := g.setWidth 32 :: s.hist.reported } base' none := by
  have hs := h.stage
  rw [hpc] at hs
  obtain ⟨hiok, e, rfl, he, -⟩ := hs.held g rfl
  refine ⟨e :: base, { h with
    reported := ?_
    stage := ⟨hs.taken, hs.handed, nofun⟩
    lastGen := he.symm
    fresh := nofun
    tid := nofun
    storeGen := fun hne => absurd hne hiok
    storeSig := fun hs => nomatch (h.storeSig hs).1
    quiet := nofun
    started := fun _ => h.started (by rw [hpc]; nofun) }⟩
  rw [h.reported, ← he]
  rfl

lemma kernel (hipi : s.ipi = .out) (flag : Bool) (hok : Ok s (.kernel flag))
    (hs : s.kernel flag = .ok s') : ∃ base' x', Inv g₀ s' base' x' := by
  unfold Sys.kernel at hs
  unfold Ok at hok
  cases hpc : s.pc with
  | out =>
    rw [hpc] at hs
    cases hs
  | idleMark | parkIdle =>
    simp only [hpc] at hs
    cases hs
    exact ⟨_, _, h.move hpc id (fun hq _ => hq rfl) nofun⟩
  | idleWait n =>
    simp only [hpc] at hs hok
    cases hs
    exact ⟨_, _, h.idleWait hpc hok⟩
  | parkSignal t =>
    simp only [hpc] at hs
    split at hs
    · cases hs
      exact ⟨_, _, h.move hpc id nofun nofun⟩
    · cases hs
      exact ⟨_, _, h.move hpc id (fun hq _ => hq rfl) nofun⟩
  | parkLoad t =>
    simp only [hpc] at hs
    cases hs
    exact ⟨_, _, h.parkLoad hpc⟩
  | parkRelease =>
    have hst := h.stage
    simp only [hpc] at hs
    rw [hpc] at hst
    cases hs
    exact ⟨base, x, { h with
      stage := hst
      quiet := nofun
      started := fun _ _ ht => nomatch ht }⟩
  | readTid g p =>
    simp only [hpc] at hs
    cases hs
    exact ⟨_, _, h.readTid hpc⟩
  | setLastGen g tid p =>
    simp only [hpc] at hs hok
    cases hs
    exact ⟨_, _, h.take hpc hipi hok⟩
  | nextTid g tid p =>
    simp only [hpc] at hs
    cases hs
    exact ⟨_, _, h.nextTid hpc⟩
  | wakeUp g tid p =>
    simp only [hpc] at hs
    cases hs
    exact ⟨_, _, h.wakeUp hpc flag⟩
  | setShmBusy g p =>
    simp only [hpc] at hs
    cases hs
    exact ⟨_, _, h.move hpc id (fun hq _ => hq rfl) nofun⟩
  | setBusy g p =>
    simp only [hpc] at hs
    cases hs
    exact ⟨_, _, h.move hpc id nofun nofun⟩
  | report g p =>
    simp only [hpc] at hs
    cases hs
    obtain ⟨base', h'⟩ := h.report hpc
    exact ⟨base', none, h'⟩

/-- Whoever moves, the outstanding request goes through its stages. -/
lemma of_step (e : Event) (hok : Ok s e) (hs : step s e = .ok s') : ∃ base' x', Inv g₀ s' base' x' := by
  cases e with
  | run tid =>
    obtain ⟨⟨hiok, hd⟩, he⟩ := guard_eq_ok.1 hs
    cases he
    exact ⟨_, _, h.run hiok hd tid hok⟩
  | enqueueIntr type =>
    obtain ⟨hiok, he⟩ := guard_eq_ok.1 hs
    cases he
    exact ⟨_, _, h.enqueueIntr hiok type hok⟩
  | store => exact ⟨_, _, h.store hs⟩
  | idle exiting =>
    obtain ⟨⟨hpc, -⟩, he⟩ := guard_eq_ok.1 hs
    cases he
    exact ⟨_, _, h.idle hpc exiting⟩
  | park t =>
    obtain ⟨⟨hpc, -⟩, he⟩ := guard_eq_ok.1 hs
    cases he
    exact ⟨_, _, h.park hpc t⟩
  | kernel flag =>
    obtain ⟨hipi, he⟩ := guard_eq_ok.1 hs
    exact h.kernel hipi flag hok he
  | ipi =>
    obtain ⟨-, he⟩ := guard_eq_ok.1 hs
    cases he
    exact ⟨_, _, h.interrupt⟩
  | handler => exact ⟨_, _, h.handler hs⟩

end

end Inv

lemma inv_of_reaches (h : Reaches step Ok Initial s) : ∃ g₀ base x, Inv g₀ s base x := by
  refine h.invariant (I := fun s => ∃ g₀ base x, Inv g₀ s base x) ?_ ?_
  · rintro s ⟨g, rfl⟩
    exact ⟨g, [], none, .init g⟩
  · rintro s e s' ⟨g₀, base, x, h⟩ hok hs
    exact ⟨g₀, h.of_step e hok hs⟩

/-! ## The outstanding request can be taken -/

def Sys.Served (s : Sys) : Prop :=
  ∃ s', Leads step s s' ∧ s'.hist.taken = s'.hist.issued ∧ s'.hist.issued = s.hist.issued

namespace Sys.Served

lemma head {s1 : Sys} (e : Event) (h : s1.Served) (he : step s e = .ok s1)
    (hi : s1.hist.issued = s.hist.issued) : s.Served := by
  obtain ⟨s', hl, ht, hi'⟩ := h
  exact ⟨s', .head e he hl, ht, hi'.trans hi⟩

lemma of_taken (h : s.hist.taken = s.hist.issued) : s.Served := ⟨s, .refl s, h, rfl⟩

lemma kernel {s1 : Sys} (h : s1.Served) (hipi : s.ipi = .out)
    (he : s.kernel false = .ok s1) (hi : s1.hist.issued = s.hist.issued) : s.Served :=
  .head (.kernel false) h (guard_eq_ok.2 ⟨hipi, he⟩) hi

lemma of_read (h : Inv g₀ s base x) (hipi : s.ipi = .out) (hpc : s.pc = .setLastGen g tid p) : s.Served := by
  obtain ⟨-, rfl⟩ := h.held (by rw [hpc]; rfl) (by rw [hpc]; rfl)
  have hs := h.stage
  rw [hpc] at hs
  have ht : s.hist.taken = base := hs.taken
  have htake : (s.take g tid p).hist.taken = s.hist.issued ∧ (s.take g tid p).hist.issued = s.hist.issued := by
    rw [h.issued, ← ht]
    unfold Sys.take
    split
    · exact ⟨rfl, h.issued.trans (ht ▸ rfl)⟩
    · exact ⟨rfl, h.issued.trans (ht ▸ rfl)⟩
  exact .kernel (.of_taken (htake.1.trans htake.2.symm)) hipi (by simp only [Sys.kernel, hpc]) htake.2

variable (h : Inv g₀ s base x) (hipi : s.ipi = .out)
include h hipi

lemma next {r : Sys} (he : s.kernel false = .ok r) (hi : r.hist.issued = s.hist.issued)
    (hs : ∀ {base x}, Inv g₀ r base x → r.Served) (hok : Ok s (.kernel false)) : s.Served := by
  obtain ⟨base', x', h'⟩ := h.kernel hipi false hok he
  exact .kernel (hs h') hipi he hi

lemma of_found (hpc : s.pc = .readTid g p) : s.Served :=
  next (r := { s with pc := .setLastGen g s.shm.tid p }) h hipi (by simp only [Sys.kernel, hpc]) rfl
    (fun h' => of_read h' hipi rfl) (by simp only [Ok, hpc])

variable (hne : s.shm.gen ≠ s.kp.lastGen)
include hne

lemma of_idleWait (hpc : s.pc = .idleWait n) : s.Served := by
  have hto : s.mwaitOnAddr n = .readTid (s.shm.gen.signExtend 64) .idle := by
    simp only [Sys.mwaitOnAddr, Sys.idleFound, hne, false_and, if_false, signExtend_ne hne]
  refine next (r := { s with pc := s.mwaitOnAddr n }) h hipi (by simp only [Sys.kernel, hpc]) rfl
    (fun h' => of_found h' hipi hto) ?_
  simp only [Ok, hpc, hne, false_implies]

lemma of_parkLoad (hpc : s.pc = .parkLoad t) : s.Served := by
  have hto : s.parkFound t = .readTid (s.shm.gen.setWidth 64) (.park t) := by
    simp only [Sys.parkFound, setWidth_inj, hne, if_false]
  exact next (r := { s with pc := s.parkFound t }) h hipi (by simp only [Sys.kernel, hpc]) rfl
    (fun h' => of_found h' hipi hto) (by simp only [Ok, hpc])

lemma of_parkSignal (hpc : s.pc = .parkSignal t) : s.Served :=
  next (r := { s with pc := .parkLoad t }) h hipi (by simp only [Sys.kernel, hpc]; rfl) rfl
    (fun h' => of_parkLoad h' hipi hne rfl) (by simp only [Ok, hpc])

lemma of_out (hpc : s.pc = .out) : s.Served := .head (.park 0) (of_parkSignal (h.park hpc 0) hipi hne rfl)
    (guard_eq_ok.2 ⟨⟨hpc, hipi⟩, rfl⟩) rfl

lemma of_parkRelease (hpc : s.pc = .parkRelease) : s.Served :=
  next (r := { s with kp.runningTask := none, pc := .out }) h hipi (by simp only [Sys.kernel, hpc]) rfl
    (fun h' => of_out h' hipi hne rfl) (by simp only [Ok, hpc])

omit hne

lemma of_published (hiok : s.iok ≠ .storeGen) : s.Served := by
  by_cases hdone : s.hist.taken = s.hist.issued
  · exact .of_taken hdone
  have hst := h.stage
  have hne : s.pc.stage.taken = false → s.shm.gen ≠ s.kp.lastGen := by
    intro hno he
    have ht : s.hist.taken = base := by rw [hst.taken, hno]; rfl
    cases x with
    | none => exact hdone (ht.trans h.issued.symm)
    | some e =>
      rw [h.gen hiok, h.gens, h.issued, h.kpLastGen, ht] at he
      exact add_one_ne _ ((h.fresh e rfl).1.symm.trans he)
  cases hpc : s.pc with
  | out => exact of_out h hipi (hne (by rw [hpc]; rfl)) hpc
  | idleMark =>
    exact next (r := { s with
        shm.busy := if s.shm.busy ∧ s.shm.gen = s.kp.lastGen then false else s.shm.busy
        pc := .idleWait 0 }) h hipi (by simp only [Sys.kernel, hpc]) rfl
      (fun h' => of_idleWait h' hipi (hne (by rw [hpc]; rfl)) rfl) (by simp only [Ok, hpc])
  | idleWait n => exact of_idleWait h hipi (hne (by rw [hpc]; rfl)) hpc
  | parkSignal t => exact of_parkSignal h hipi (hne (by rw [hpc]; rfl)) hpc
  | parkLoad t => exact of_parkLoad h hipi (hne (by rw [hpc]; rfl)) hpc
  | parkIdle =>
    exact next (r := { s with shm.busy := false, pc := .parkRelease }) h hipi (by simp only [Sys.kernel, hpc]) rfl
      (fun h' => of_parkRelease h' hipi (hne (by rw [hpc]; rfl)) rfl) (by simp only [Ok, hpc])
  | parkRelease => exact of_parkRelease h hipi (hne (by rw [hpc]; rfl)) hpc
  | readTid g p => exact of_found h hipi hpc
  | setLastGen g tid p => exact of_read h hipi hpc
  | nextTid | wakeUp | setShmBusy | setBusy | report =>
    rw [hpc] at hst
    exact absurd (hst.taken.trans h.issued.symm) hdone

omit h hipi

lemma of_ipi (h : Inv g₀ s base x) (hiok : s.iok ≠ .storeGen) : s.Served := by
  have hclear : ∀ {s : Sys}, Inv g₀ s base x → s.iok ≠ .storeGen → s.ipi = .clear → s.Served := by
    intro s h hiok hipi
    have hs : s.handler = .ok { s with shm.sig := 0#32, ipi := .out } := by
      simp only [Sys.handler, hipi]
    exact .head .handler (of_published (h.handler hs) rfl hiok) hs rfl
  cases hipi : s.ipi with
  | out => exact of_published h hipi hiok
  | clear => exact hclear h hiok hipi
  | deliver =>
    have hs : s.handler = .ok { s with
        hist.delivered := s.deliverSignal s.shm.signum, ipi := .clear } := by
      simp only [Sys.handler, hipi]
    exact .head .handler (hclear (h.handler hs) hiok rfl) hs rfl

end Sys.Served

lemma Inv.served (h : Inv g₀ s base x) : s.Served := by
  by_cases hiok : s.iok = .storeGen
  · have hs : s.store = .ok { s with shm.gen := s.gens, iok := .out } := by
      simp only [Sys.store, hiok]
    exact .head .store (.of_ipi (h.store hs) nofun) hs rfl
  · exact .of_ipi h hiok

/-! ## The protocol -/

def Follows {α : Type} (xs ys : List α) : Prop := ys = xs ∨ ∃ y, ys = y :: xs

lemma Pc.taken_of_handed {pc : Pc} (h : pc.stage.handed) : pc.stage.taken = true := by
  cases pc <;> first | rfl | cases h

lemma Inv.follows (h : Inv g₀ s base x) : Follows s.hist.taken s.hist.issued ∧ Follows s.hist.handed s.hist.taken ∧
      Follows s.hist.reported (s.hist.handed.map Prod.fst) := by
  have hbase : Follows base (x.toList ++ base) := by
    cases x with
    | none => exact .inl rfl
    | some e => exact .inr ⟨e, rfl⟩
  have hmap : Follows (base.map Prod.fst) ((x.toList ++ base).map Prod.fst) := by
    cases x with
    | none => exact .inl rfl
    | some e => exact .inr ⟨e.1, rfl⟩
  rw [h.reported, h.issued, h.stage.taken, h.stage.handed]
  cases hh : s.pc.stage.handed with
  | true =>
    rw [Pc.taken_of_handed hh]
    exact ⟨.inl rfl, .inl rfl, hmap⟩
  | false =>
    cases s.pc.stage.taken with
    | true => exact ⟨.inl rfl, hbase, .inl rfl⟩
    | false => exact ⟨hbase, .inl rfl, .inl rfl⟩

/-- In every run whose steps meet `Ok`, from any value of the counter: the kernel takes each request once, in the
order in which they were issued, and can always go on to take the last one; `last_gen` reports a generation after its
own thread was handed over; and a signal reaches only the task that was started for the request it was meant for. -/
theorem mailbox_served (h : Reaches step Ok Initial s) :
    Follows s.hist.taken s.hist.issued ∧ s.Served ∧
      Follows s.hist.handed s.hist.taken ∧
      Follows s.hist.reported (s.hist.handed.map Prod.fst) ∧
      (∀ g ∈ s.hist.reported.head?, s.shm.lastGen = g) ∧
      ∀ d ∈ s.hist.delivered, d.Right := by
  obtain ⟨g₀, base, x, hinv⟩ := inv_of_reaches h
  obtain ⟨htaken, hhanded, hreported⟩ := hinv.follows
  refine ⟨htaken, hinv.served, hhanded, hreported, ?_, hinv.delivered⟩
  rw [hinv.lastGen, hinv.reported]
  cases base with
  | nil => exact nofun
  | cons e base =>
    rintro g ⟨⟩
    rfl

def idleServes : List Event :=
  [.idle true, .kernel true, .kernel true, .kernel true, .kernel true, .kernel true, .kernel true,
    .kernel true, .kernel true, .kernel true]

theorem mailbox_served_cede :
    ∃ s, Reaches step Ok Initial s ∧ s.hist.issued = [(1#32, 5)] ∧
      s.hist.taken = [(1#32, 5)] ∧ (s.hist.delivered.map fun d => (d.signum, d.task)) = [(10, 5)] ∧
      ∀ d ∈ s.hist.delivered, d.Right := by
  refine Reaches.of_exec_imp (s := .init 0#32) (P := fun s =>
      s.hist.issued = [(1#32, 5)] ∧ s.hist.taken = [(1#32, 5)] ∧
      (s.hist.delivered.map fun d => (d.signum, d.task)) = [(10, 5)])
    ([.run 5, .store] ++ idleServes ++ [.enqueueIntr .cede, .store, .ipi, .handler, .handler])
      ⟨_, rfl⟩ (by decide) (by decide) ?_
  rintro s h ⟨hi, ht, hd⟩
  exact ⟨hi, ht, hd, (mailbox_served h).2.2.2.2.2⟩

/-- At generation `2^31` the core parks its only task, and the idle loop takes the same request for a new one. At
generation 1 the iokernel asks task 5 to cede, runs task 6 and asks that to yield before the interrupt arrives: the
signal is sent to task 5. -/
theorem mailbox_broken :
    (∃ s, Reaches step (fun _ _ => True) Initial s ∧ s.hist.issued = [(0x80000000#32, 5)] ∧
      s.hist.taken = [(0x80000000#32, 5), (0x80000000#32, 5)] ∧
      s.kp.runningTask = some 5 ∧ ¬ Follows s.hist.taken s.hist.issued) ∧
    ∃ s, Reaches step (fun _ _ => True) Initial s ∧
      s.hist.delivered = [⟨12, 5, [(2#32, 6), (1#32, 5)], [(1#32, 5)], [(1#32, 5)]⟩] ∧
      ∃ d ∈ s.hist.delivered, ¬ d.Right := by
  constructor
  · obtain ⟨s, h, hi, ht, hr⟩ := reached step Initial (s := .init 0x7fffffff#32) (P := fun s =>
        s.hist.issued = [(0x80000000#32, 5)] ∧
        s.hist.taken = [(0x80000000#32, 5), (0x80000000#32, 5)] ∧ s.kp.runningTask = some 5)
        ([.run 5, .store] ++ idleServes ++ [.park 5, .kernel false, .kernel false, .kernel false,
          .kernel false] ++ idleServes ++ [.kernel true, .kernel true])
        ⟨_, rfl⟩ (by decide)
    refine ⟨s, h, hi, ht, hr, ?_⟩
    rw [hi, ht]
    rintro (h | ⟨y, h⟩) <;> cases h
  · obtain ⟨s, h, hd⟩ := reached step Initial (s := .init 0#32) (P := fun s =>
        s.hist.delivered = [⟨12, 5, [(2#32, 6), (1#32, 5)], [(1#32, 5)], [(1#32, 5)]⟩])
        ([.run 5, .store] ++ idleServes ++ [.enqueueIntr .cede, .store, .run 6, .store,
          .enqueueIntr .yield, .ipi, .handler])
        ⟨_, rfl⟩ (by decide)
    refine ⟨s, h, hd, _, by rw [hd]; exact .head _, fun hr => ?_⟩
    exact absurd hr.1 (by decide)

end Aspen.Ksched
