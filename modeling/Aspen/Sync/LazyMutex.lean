import Aspen.Sync.Mutex

/-!
# Mutexes that are initialised at their first use

`pthread_mutex_lock` and `pthread_mutex_trylock` of `shim/sync.c` initialise a mutex whose magic number is not
set. Between the check and the stores of the initialisation other threads may come as far as holding the mutex,
which the stores then make free (`second_init_unlocks`). While nobody is in a function of the mutex or holds it
they change nothing, and what the threads do to the mutex is a run of `Aspen.Mutex`.
-/

namespace Aspen.LazyMutex

open Function Run
open Mutex (Pc Stop Owns)

variable {θ : Type*} [DecidableEq θ]

/-- `struct mutex_with_attr`; of the magic number, whether it is set. -/
structure Shared (θ : Type*) where
  mutex : Mutex.Shared θ
  magic : Bool

/-- Where a thread is in front of the functions of the mutex, and which of them it is going to call. -/
inductive Front
  | none
  /-- it has found the number unset, and has done `n` stores of `pthread_mutex_init` -/
  | init (n : ℕ) (call : Mutex.Event)
  | checked (call : Mutex.Event)

structure Own (θ : Type*) where
  front : Front
  pc : Pc θ

inductive Event
  | pthreadMutexLock | pthreadMutexTrylock | pthreadMutexUnlock | next

def mutexIntializedCheck (s : Shared θ) (call : Mutex.Event) : Front :=
  if s.magic then .checked call else .init 0 call

def pthreadMutexInit (s : Shared θ) : ℕ → Shared θ
  | 0 => { s with mutex := { s.mutex with held := 0 } }
  | 1 => { s with mutex := { s.mutex with waiterLock := none } }
  | 2 => { s with mutex := { s.mutex with waiters := [] } }
  | _ => { s with magic := true }

def lift (s : Shared θ) : Except Stop (Mutex.Shared θ × Pc θ) → Except Stop (Shared θ × Own θ)
  | .ok (m, pc) => .ok (⟨m, s.magic⟩, ⟨.none, pc⟩)
  | .error d => .error d

def act (t : θ) (e : Event) (s : Shared θ) (own : Own θ) : Except Stop (Shared θ × Own θ) :=
  match e, own.front with
  | .pthreadMutexLock, .none => .ok (s, ⟨mutexIntializedCheck s .mutexLock, own.pc⟩)
  | .pthreadMutexTrylock, .none => .ok (s, ⟨mutexIntializedCheck s .mutexTryLock, own.pc⟩)
  | .next, .init n call => .ok (pthreadMutexInit s n, ⟨if n < 3 then .init (n + 1) call else .checked call, own.pc⟩)
  | .next, .checked call => lift s (Mutex.act t call s.mutex own.pc)
  | .next, .none => lift s (Mutex.act t .next s.mutex own.pc)
  | .pthreadMutexUnlock, .none => lift s (Mutex.act t .mutexUnlock s.mutex own.pc)
  | _, _ => .error .misplaced

abbrev Sys (θ : Type*) := Threads.Sys θ (Shared θ) (Own θ)

def step : Sys θ → θ × Event → Except Stop (Sys θ) := Threads.step act

def Initial (s : Sys θ) : Prop := s.shared = ⟨⟨0, none, [], [], .free, [], []⟩, false⟩ ∧ ∀ t, s.own t = ⟨.none, .out⟩

def low (s : Sys θ) : Mutex.Sys θ := ⟨s.shared.mutex, fun t => (s.own t).pc⟩

def Front.isInit : Front → Bool
  | init .. => true
  | _ => false

/-- A thread initialises the mutex only while nobody is in a function of it or holds it. -/
def InitFirst (s : Sys θ) (e : θ × Event) : Prop := (s.own e.1).front.isInit = true → ∀ t, (s.own t).pc = .out

variable {s s' : Sys θ} {e : θ × Event} {t : θ}

lemma init_mutex (hs : Reaches Mutex.step (fun _ _ => True) Mutex.Initial (low s))
    (hout : ∀ t, (s.own t).pc = .out) (n : ℕ) : (pthreadMutexInit s.shared n).mutex = s.shared.mutex := by
  obtain ⟨hG, hA⟩ := Mutex.reaches_outline hs
  have hheld : s.shared.mutex.held = 0 := by
    refine (Mutex.holder_eq_none hG).1 (Option.eq_none_iff_forall_ne_some.2 fun t ht => ?_)
    have howns := (Mutex.owns_iff hG (hA t)).2 ht
    simp [Owns, low, hout, Pc.owns] at howns
  have hlock : s.shared.mutex.waiterLock = none := Option.eq_none_iff_forall_ne_some.2 fun t ht => by
    have hl := (hA t).locks.1 ht
    simp [low, hout, Pc.locks] at hl
  have hwait : s.shared.mutex.waiters = [] := (Mutex.Good.of_held_zero hG hheld).2
  rcases n with _ | _ | _ | n
  · rw [pthreadMutexInit, ← hheld]
  · rw [pthreadMutexInit, ← hlock]
  · rw [pthreadMutexInit, ← hwait]
  · rfl

lemma low_own (h : step s e = .ok s') : low s' = ⟨s'.shared.mutex, update (low s).own e.1 (s'.own e.1).pc⟩ := by
  refine congrArg (Threads.Sys.mk _) (funext fun t => ?_)
  by_cases ht : t = e.1
  · rw [ht, update_self]
  · rw [update_of_ne ht, (Threads.step_eq_ok h).2 t ht]
    rfl

lemma low_eq (h : step s e = .ok s') {sh : Shared θ} {front : Front}
    (hact : (.ok (sh, ⟨front, (s.own e.1).pc⟩) : Except Stop _) = .ok (s'.shared, s'.own e.1))
    (hm : sh.mutex = s.shared.mutex) : low s = low s' := by
  obtain ⟨hsh, how⟩ := Prod.mk.inj (Except.ok.inj hact)
  rw [low_own h, ← hsh, ← how, hm]
  exact congrArg (Threads.Sys.mk _) (update_eq_self _ _).symm

lemma low_step (h : step s e = .ok s') {ev : Mutex.Event}
    (hact : lift s.shared (Mutex.act e.1 ev s.shared.mutex (s.own e.1).pc) = .ok (s'.shared, s'.own e.1)) :
    Mutex.step (low s) (e.1, ev) = .ok (low s') := by
  cases hm : Mutex.act e.1 ev s.shared.mutex (s.own e.1).pc with
  | error d =>
    rw [hm] at hact
    cases hact
  | ok r =>
    rw [hm] at hact
    obtain ⟨hsh, how⟩ := Prod.mk.inj (Except.ok.inj hact)
    have hstep : Mutex.step (low s) (e.1, ev) = .ok ⟨r.1, update (low s).own e.1 r.2⟩ := by
      rw [Mutex.step, Threads.step, show Mutex.act _ _ (low s).shared ((low s).own e.1) = .ok r from hm]
    rw [hstep, low_own h, ← hsh, ← how]

lemma low_reaches (hs : Reaches step InitFirst Initial s) :
    Reaches Mutex.step (fun _ _ => True) Mutex.Initial (low s) := by
  refine hs.invariant (I := fun s => Reaches Mutex.step (fun _ _ => True) Mutex.Initial (low s)) ?_ ?_
  · intro s ⟨hsh, how⟩
    exact .start ⟨congrArg Shared.mutex hsh, fun t => congrArg Own.pc (how t)⟩
  · intro s e s' hlow hok h
    have hact := (Threads.step_eq_ok h).1
    unfold act at hact
    split at hact
    case h_3 n _ _ hfront =>
      have hout := hok (by rw [hfront]; rfl)
      exact low_eq h hact (init_mutex hlow hout n) ▸ hlow
    case h_7 => cases hact
    iterate 2 exact low_eq h hact rfl ▸ hlow
    iterate 3 exact hlow.snoc trivial (low_step h hact)

/-- If the initialisation is over before the mutex is used, at most one thread has it, and every thread that was
enqueued is on the list, has been made runnable or is about to be. -/
theorem lazy_mutex_correct (hs : Reaches step InitFirst Initial s) :
    (∀ t u, Owns (low s) t → Owns (low s) u → t = u) ∧
    (∀ t, (s.own t).pc = .parked → t ∈ s.shared.mutex.waiters ∨ t ∈ s.shared.mutex.ready ∨
      ∃ u, (s.own u).pc = .handing t ∨ (s.own u).pc = .waking t) ∧
    s.shared.mutex.queued = s.shared.mutex.granted ++ s.shared.mutex.waiters := by
  obtain ⟨hG, hA⟩ := Mutex.reaches_outline (low_reaches hs)
  refine ⟨fun t u ht hu => ?_, fun t => Mutex.parked_cases hG hA, hG.order⟩
  exact Option.some.inj (((Mutex.owns_iff hG (hA t)).1 ht).symm.trans ((Mutex.owns_iff hG (hA u)).1 hu))

instance (s : Sys (Fin 2)) (e : Fin 2 × Event) : Decidable (InitFirst s e) := inferInstanceAs (Decidable (_ → _))

def initSys : Sys (Fin 2) := ⟨⟨⟨0, none, [], [], .free, [], []⟩, false⟩, fun _ => ⟨.none, .out⟩⟩

theorem lazy_mutex_correct_held : ∃ s : Sys (Fin 2), Reaches step InitFirst Initial s ∧
    (s.own 0).pc = .owner ∧ ∀ t, Owns (low s) t → t = 0 := by
  refine Reaches.of_exec_imp (s := initSys) (P := fun s => (s.own 0).pc = .owner)
    ((0, .pthreadMutexLock) :: .replicate 5 (0, .next) ++ [(1, .pthreadMutexTrylock), (1, .next)])
      ⟨rfl, fun _ => rfl⟩ (by decide) (by decide) ?_
  rintro s hs hpc
  exact ⟨hpc, fun t ht => (lazy_mutex_correct hs).1 t 0 ht (.inl (by simp only [low, hpc]; rfl))⟩

/-- Both threads find the number unset. The second one initialises the mutex when the first one has it. -/
theorem second_init_unlocks : ∃ s : Sys (Fin 2), Reaches step (fun _ _ => True) Initial s ∧
    (s.own 0).pc = .owner ∧ (s.own 1).pc = .owner :=
  reached step Initial (s := initSys) (P := fun s => (s.own 0).pc = .owner ∧ (s.own 1).pc = .owner)
    ((0, .pthreadMutexLock) :: (1, .pthreadMutexLock) :: .replicate 5 (0, .next) ++ .replicate 5 (1, .next))
    ⟨rfl, fun _ => rfl⟩ (by decide)

end Aspen.LazyMutex
