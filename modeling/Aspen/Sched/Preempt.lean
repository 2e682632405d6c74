import Aspen.Lib.Run
import Mathlib.Data.List.Perm.Basic

/-!
# Deferred preemption

A kthread has two preemption counters. The low 31 bits of `preempt_cnt` count how often preemption has been
disabled; the top bit of `preempt_cnt` is *cleared* while a kernel signal is pending, that of `upreempt_cnt`
while a user interrupt is. A request that arrives while preemption is enabled is served at once, by a handler;
otherwise it only clears the bit.
-/

namespace Aspen.Preempt

open Function BitVec

/-! ## The counters -/

def notPending : BitVec 32 := 1#32 <<< 31

variable (cnt : BitVec 32)

def preemptEnabled : Bool := cnt &&& ~~~notPending == 0#32

/-- `preempt_needed` and `upreempt_needed` -/
def needed : Bool := cnt &&& notPending == 0#32

/-- `set_preempt_needed` and `set_upreempt_needed` -/
def setNeeded : BitVec 32 := cnt &&& 0x7fffffff#32

def clearNeeded : BitVec 32 := cnt ||| 0x80000000#32

def depth : ℕ := (cnt &&& ~~~notPending).toNat

lemma depth_eq : depth cnt = cnt.toNat % 2 ^ 31 := by
  rw [depth, toNat_and]
  exact Nat.and_two_pow_sub_one_eq_mod _ 31

lemma preemptEnabled_iff : preemptEnabled cnt ↔ depth cnt = 0 := by
  rw [preemptEnabled, beq_iff_eq, ← toNat_inj]
  rfl

lemma needed_iff : needed cnt ↔ cnt.toNat < 2 ^ 31 := by
  have hmsb := msb_eq_decide cnt
  rw [needed, beq_iff_eq, show notPending = BitVec.twoPow 32 31 by decide, and_twoPow]
  rw [msb_eq_getLsbD_last] at hmsb
  rw [show cnt.getLsbD 31 = decide (2 ^ 31 ≤ cnt.toNat) from hmsb]
  by_cases h : 2 ^ 31 ≤ cnt.toNat
  · simp only [h, decide_true, if_true]
    exact ⟨fun he => absurd he (by decide), fun hlt => absurd hlt (Nat.not_lt.2 h)⟩
  · simp only [h, decide_false, Bool.false_eq_true, if_false, true_iff]
    exact Nat.not_le.1 h

lemma toNat_setNeeded : (setNeeded cnt).toNat = cnt.toNat % 2 ^ 31 := by
  rw [setNeeded, toNat_and]
  exact Nat.and_two_pow_sub_one_eq_mod _ 31

lemma toNat_clearNeeded : (clearNeeded cnt).toNat = cnt.toNat % 2 ^ 31 + 2 ^ 31 := by
  have hbit : ∀ i : Fin 32, (0x7fffffff#32)[i.val] = !(0x80000000#32)[i.val] := by decide
  have hor : setNeeded cnt ||| 0x80000000#32 = clearNeeded cnt := by
    ext i hi
    rw [setNeeded, clearNeeded, getElem_or, getElem_or, getElem_and, hbit ⟨i, hi⟩]
    generalize (0x80000000#32)[i] = b
    cases b <;> simp
  have hand : setNeeded cnt &&& 0x80000000#32 = 0#32 := by
    rw [setNeeded, BitVec.and_assoc, show 0x7fffffff#32 &&& 0x80000000#32 = 0#32 by decide, and_zero]
  rw [← hor, ← add_eq_or_of_and_eq_zero _ _ hand, toNat_add, toNat_setNeeded, toNat_ofNat]
  omega

variable {cnt} in
lemma clearNeeded_of_not_needed (h : needed cnt = false) : clearNeeded cnt = cnt := by
  have hge : ¬ cnt.toNat < 2 ^ 31 := fun hlt => by
    rw [(needed_iff cnt).2 hlt] at h
    cases h
  have hlt := cnt.isLt
  exact BitVec.eq_of_toNat_eq (by rw [toNat_clearNeeded]; omega)

inductive Kind
  /-- a kernel signal (`handle_sigusr1`, `handle_sigusr2`), pending in `preempt_cnt` -/
  | signal
  /-- a user interrupt (`ui_handler`) or what stands for it in other builds (`signal_handler`,
  `concord_func`), pending in `upreempt_cnt` -/
  | uintr
  deriving DecidableEq

structure Counts where
  preemptCnt : BitVec 32
  upreemptCnt : BitVec 32

namespace Counts

variable (c : Counts)

def enabled : Bool := preemptEnabled c.preemptCnt

def depth : ℕ := Preempt.depth c.preemptCnt

def pending : Kind → Bool
  | .signal => needed c.preemptCnt
  | .uintr => needed c.upreemptCnt

def set : Kind → Counts
  | .signal => { c with preemptCnt := setNeeded c.preemptCnt }
  | .uintr => { c with upreemptCnt := setNeeded c.upreemptCnt }

def clear : Kind → Counts
  | .signal => { c with preemptCnt := clearNeeded c.preemptCnt }
  | .uintr => { c with upreemptCnt := clearNeeded c.upreemptCnt }

def incr : Counts := { c with preemptCnt := c.preemptCnt + 1#32 }

def decr : Counts := { c with preemptCnt := c.preemptCnt - 1#32 }

def Wf : Prop := Preempt.depth c.upreemptCnt = 0

lemma enabled_iff : c.enabled ↔ c.depth = 0 := preemptEnabled_iff _

variable {c : Counts}

lemma depth_set (kd : Kind) : (c.set kd).depth = c.depth := by
  cases kd with
  | signal =>
    simp only [depth, set, depth_eq, toNat_setNeeded]
    omega
  | uintr => rfl

lemma depth_incr (h : c.depth + 1 < 2 ^ 31) : c.incr.depth = c.depth + 1 := by
  simp only [depth, incr, depth_eq, toNat_add, toNat_ofNat] at h ⊢
  omega

lemma pending_set (kd kd' : Kind) : (c.set kd).pending kd' = (c.pending kd' || kd' = kd) := by
  have hset (cnt : BitVec 32) : needed (setNeeded cnt) := by
    rw [needed_iff, toNat_setNeeded]
    exact Nat.mod_lt _ (by decide)
  cases kd <;> cases kd' <;> simp [set, pending, hset]

lemma pending_clear (kd kd' : Kind) : (c.clear kd).pending kd' = (c.pending kd' && kd' ≠ kd) := by
  have hclear (cnt : BitVec 32) : needed (clearNeeded cnt) = false := by
    rw [← Bool.not_eq_true, needed_iff, toNat_clearNeeded]
    omega
  cases kd <;> cases kd' <;> simp [clear, pending, hclear]

lemma pending_incr (h : c.depth + 1 < 2 ^ 31) (kd : Kind) : c.incr.pending kd = c.pending kd := by
  cases kd with
  | signal =>
    rw [Bool.eq_iff_iff]
    simp only [pending, needed_iff]
    simp only [depth, incr, depth_eq, toNat_add, toNat_ofNat] at h ⊢
    omega
  | uintr => rfl

lemma pending_decr (h : c.depth ≠ 0) (kd : Kind) : c.decr.pending kd = c.pending kd := by
  cases kd with
  | signal =>
    rw [Bool.eq_iff_iff]
    simp only [pending, needed_iff]
    simp only [depth, decr, depth_eq, toNat_sub, toNat_ofNat] at h ⊢
    omega
  | uintr => rfl

lemma preemptCnt_eq_zero : c.preemptCnt = 0#32 ↔ c.depth = 0 ∧ c.pending .signal = true := by
  rw [← toNat_inj]
  simp only [pending, needed_iff, depth, depth_eq, toNat_ofNat]
  omega

lemma Wf.upreemptCnt_eq_zero (h : c.Wf) : c.upreemptCnt = 0#32 ↔ c.pending .uintr = true := by
  rw [← toNat_inj]
  simp only [Wf, pending, needed_iff, depth_eq, toNat_ofNat] at h ⊢
  omega

lemma clear_of_not_pending {kd : Kind} (h : c.pending kd = false) : c.clear kd = c := by
  cases kd with
  | signal => rw [clear, clearNeeded_of_not_needed h]
  | uintr => rw [clear, clearNeeded_of_not_needed h]

lemma Wf.set (h : c.Wf) (kd : Kind) : (c.set kd).Wf := by
  cases kd with
  | signal => exact h
  | uintr =>
    simp only [Wf, Counts.set, depth_eq, toNat_setNeeded] at h ⊢
    omega

lemma Wf.clear (h : c.Wf) (kd : Kind) : (c.clear kd).Wf := by
  cases kd with
  | signal => exact h
  | uintr =>
    simp only [Wf, Counts.clear, depth_eq, toNat_clearNeeded] at h ⊢
    omega

end Counts

/-! ## Uthreads -/

inductive Frame
  /-- in `preempt_disable` of a section of ordinary code -/
  | disable
  /-- at the `subl` of `preempt_enable` -/
  | enable
  /-- in `preempt_enable`, the difference is not zero: at the test of `upreempt_cnt` -/
  | test
  /-- in `preempt_enable`: at `clear_upreempt_needed` -/
  | clear
  /-- at `getk` of `preempt` -/
  | preempt
  /-- in `preempt`: at the test of `preempt_needed` -/
  | check
  /-- in `preempt`, after `clear_preempt_needed` -/
  | decide
  /-- in `thread_yield`: at `getk` of `softirq_run` -/
  | softirqRun
  /-- in `thread_yield`: at `preempt_disable` -/
  | yield
  | enterSchedule
  /-- in `handle_sigusr1`: at `preempt_disable` -/
  | cede
  /-- in `thread_exit`: at `preempt_disable` -/
  | exit
  /-- at the jump to the runtime stack, in `thread_cede` or `thread_exit` -/
  | leave

structure Env where
  cede : Bool
  yield : Bool
  /-- the next uthread in the queue is the one that enters the scheduler -/
  same : Bool

inductive Stop
  | bug
  /-- `preempt_enable` without `preempt_disable` -/
  | misuse
  /-- `preempt_disable` nested 2³¹ times -/
  | overflow
  | misplaced
  /-- the stack of the uthread to switch to is still busy -/
  | blocked

structure Move where
  counts : Counts
  frames : List Frame
  takes : Option Kind := none
  leaves : Bool := false

/-- `preempt_disable`, and then the frames given. -/
def preemptDisable (c : Counts) (frames : List Frame) : Except Stop Move :=
  if c.depth + 1 < 2 ^ 31 then .ok ⟨c.incr, frames, none, false⟩ else .error .overflow

/-- `schedule` and `enter_schedule` check that preemption is disabled exactly once. -/
def Frame.step (env : Env) (c : Counts) : Frame → Except Stop Move
  | .disable => preemptDisable c []
  | .enable =>
    if c.depth ≠ 0 then
      .ok ⟨c.decr, if c.decr.preemptCnt = 0#32 then [.preempt] else [.test], none, false⟩
    else .error .misuse
  | .test =>
    .ok ⟨c, if c.enabled ∧ c.upreemptCnt = 0#32 then [.clear] else [], none, false⟩
  | .clear => .ok ⟨c.clear .uintr, [.softirqRun], some .uintr, false⟩
  | .preempt => preemptDisable c [.check]
  | .check =>
    if c.pending .signal then .ok ⟨c.clear .signal, [.decide], some .signal, false⟩
    else .ok ⟨c, [.enable], none, false⟩
  | .decide =>
    .ok ⟨c, if env.cede then [.leave]
      else if env.yield then [.enable, .softirqRun]
      else [.enable], none, false⟩
  | .softirqRun => preemptDisable c [.enable, .yield]
  | .yield => preemptDisable c [.enterSchedule]
  | .enterSchedule =>
    if c.depth = 1 then
      if env.same then .ok ⟨c, [.enable], none, false⟩ else .ok ⟨c, [], none, true⟩
    else .error .bug
  | .cede | .exit => preemptDisable c [.leave]
  | .leave => if c.depth = 1 then .ok ⟨c, [], none, true⟩ else .error .bug

inductive Call
  | preemptDisable
  | preemptEnable
  | threadYield
  /-- `thread_park_and_unlock_np` or `thread_park_and_preempt_enable` -/
  | threadPark
  | threadExit

def Call.frame : Call → Frame
  | preemptDisable => .disable
  | preemptEnable => .enable
  | threadYield => .softirqRun
  | threadPark => .enterSchedule
  | threadExit => .exit

/-! ## The system -/

/-- A request that arrived while preemption was disabled. -/
structure Request (K θ : Type*) where
  id : ℕ
  kthread : K
  kind : Kind
  /-- the uthread that was running when the request arrived -/
  owner : Option θ
  deriving DecidableEq

structure Kthread (θ : Type*) where
  counts : Counts
  self : Option θ

structure Sys (K θ : Type*) where
  ks : K → Kthread θ
  frames : θ → List Frame
  running : θ → Bool
  /-- how many requests have been deferred (history) -/
  deferred : ℕ
  /-- the deferred requests that no one has taken yet (history) -/
  pending : List (Request K θ)
  /-- the requests taken, and by whom (history) -/
  taken : List (Request K θ × θ)

inductive Event (K θ : Type*)
  | call (k : K) (c : Call)
  | next (k : K) (env : Env)
  | jmpThread (k : K) (t : θ)
  | sigusr1 (k : K)
  /-- the request may have been overtaken by a switch already -/
  | sigusr2 (k : K) (yieldNeeded : Bool)
  | uintr (k : K)
  /-- `kthread_yield_to_iokernel` -/
  | park (k : K)

section Model

variable {K θ : Type*} [DecidableEq K]

def Request.On (r : Request K θ) (k : K) (kd : Kind) : Prop := r.kthread = k ∧ r.kind = kd

instance (r : Request K θ) (k : K) (kd : Kind) : Decidable (r.On k kd) := inferInstanceAs (Decidable (_ ∧ _))

def Sys.defer (s : Sys K θ) (k : K) (kd : Kind) : Sys K θ :=
  { s with
    ks := update s.ks k { s.ks k with counts := (s.ks k).counts.set kd }
    deferred := s.deferred + 1
    pending := ⟨s.deferred, k, kd, (s.ks k).self⟩ :: s.pending }

/-- The uthread `t` takes what is pending on its kthread. -/
def Sys.take (s : Sys K θ) (k : K) (t : θ) : Option Kind → Sys K θ
  | none => s
  | some kd => { s with
      pending := s.pending.filter fun r => ¬ r.On k kd
      taken := (s.pending.filter fun r => r.On k kd).map (·, t) ++ s.taken }

variable [DecidableEq θ]

variable (s : Sys K θ) (k : K)

/-- A request arrives; if preemption is enabled its handler runs the frames `fs`. -/
def arrive (kd : Kind) (fs : List Frame) : Except Stop (Sys K θ) :=
  if (s.ks k).counts.enabled then
    match (s.ks k).self with
    | some t => .ok { s with frames := update s.frames t (fs ++ s.frames t) }
    | none => .error .misplaced
  else .ok (s.defer k kd)

def call (c : Call) : Except Stop (Sys K θ) :=
  match (s.ks k).self with
  | some t =>
    if s.frames t = [] then .ok { s with frames := update s.frames t [c.frame] }
    else .error .misplaced
  | none => .error .misplaced

def Sys.moved (t : θ) (rest : List Frame) (m : Move) : Sys K θ :=
  { s.take k t m.takes with
    ks := update s.ks k ⟨m.counts, if m.leaves then none else some t⟩
    frames := update s.frames t (m.frames ++ rest)
    running := update s.running t !m.leaves }

def next (env : Env) : Except Stop (Sys K θ) :=
  match (s.ks k).self with
  | some t =>
    match s.frames t with
    | f :: rest =>
      match f.step env (s.ks k).counts with
      | .ok m => .ok (s.moved k t rest m)
      | .error d => .error d
    | [] => .error .misplaced
  | none => .error .misplaced

/-- `__jmp_thread` and `__jmp_thread_direct`, from the scheduler -/
def jmpThread (t : θ) : Except Stop (Sys K θ) :=
  if (s.ks k).self.isNone then
    if s.running t = false then .ok { s with
      ks := update s.ks k ⟨(s.ks k).counts.decr, some t⟩
      frames := update s.frames t
        (if (s.ks k).counts.decr.preemptCnt = 0#32 then .preempt :: s.frames t else s.frames t)
      running := update s.running t true }
    else .error .blocked
  else .error .misplaced

/-- `kthread_yield_to_iokernel`, from the scheduler: a signal that is pending is dropped -/
def kthreadYieldToIokernel : Except Stop (Sys K θ) :=
  if (s.ks k).self.isNone then
    .ok { s with ks := update s.ks k { s.ks k with counts := (s.ks k).counts.clear .signal } }
  else .error .misplaced

def step : Event K θ → Except Stop (Sys K θ)
  | .call k c => call s k c
  | .next k env => next s k env
  | .jmpThread k t => jmpThread s k t
  | .sigusr1 k => arrive s k .signal [.cede]
  | .sigusr2 k yieldNeeded => arrive s k .signal (if yieldNeeded then [.softirqRun] else [])
  | .uintr k => arrive s k .uintr [.softirqRun]
  | .park k => kthreadYieldToIokernel s k

/-- After `preempt_init_thread`, in the scheduler with preemption disabled once. -/
structure Initial (s : Sys K θ) : Prop where
  ks : ∀ k, s.ks k = ⟨⟨0x80000001#32, 0x80000000#32⟩, none⟩
  frames : ∀ t, s.frames t = []
  running : ∀ t, s.running t = false
  deferred : s.deferred = 0
  pending : s.pending = []
  taken : s.taken = []

end Model

end Aspen.Preempt
