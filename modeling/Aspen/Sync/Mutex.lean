import Aspen.Lib.Threads
import Mathlib.Data.List.Nodup

/-!
# Mutexes (`sync.h`, `sync.c`)

The word `held` is 0 when the mutex is free, 1 when it is owned, and has the waiter flag on top when
threads may be waiting. The fast paths are one compare-and-swap each. The slow paths run under the
waiter lock, and `__mutex_unlock` passes the mutex on to the first waiter without touching `held`.
-/

namespace Aspen.Mutex

variable {θ : Type*} [DecidableEq θ]

def waiterFlag : BitVec 32 := 1#32 <<< 31

/-- Who has the mutex. No code reads it: the actions that pass the mutex on keep it up to date. -/
inductive Tenure (θ : Type*)
  | free
  /-- `t` has set the flag on a free mutex and not written 1 yet -/
  | claiming (t : θ)
  | running (t : θ)
  /-- `u` has taken `t` off the list and not called `thread_ready` yet -/
  | passing (u t : θ)
  /-- `t` has been made runnable and not resumed yet -/
  | woken (t : θ)

/-- `struct mutex`, the threads made runnable, and a history: who has the mutex, who has been put on the list and who
has been taken off it. -/
structure Shared (θ : Type*) where
  held : BitVec 32
  waiterLock : Option θ
  waiters : List θ
  ready : List θ
  tenure : Tenure θ
  queued : List θ
  granted : List θ

def Tenure.holder : Tenure θ → Option θ
  | free => none
  | claiming t | running t | passing _ t | woken t => some t

inductive Pc (θ : Type*)
  | out
  /-- `__mutex_lock`, before it has the waiter lock -/
  | locking
  /-- before the fetch-and-or -/
  | slow
  /-- before the write of 1 -/
  | claiming
  | claimed
  /-- before `list_add_tail` -/
  | enqueueing
  | parking
  | parked
  /-- it owns the mutex, and is not in a function of the mutex -/
  | owner
  /-- `__mutex_unlock`, before it has the waiter lock -/
  | unlocking
  /-- before `list_pop` -/
  | popping
  /-- before the write of 0 -/
  | releasing
  | released
  /-- `list_pop` gave a thread; before the waiter lock is released -/
  | handing (th : θ)
  /-- before `thread_ready` -/
  | waking (th : θ)
  deriving DecidableEq

def Pc.locks : Pc θ → Bool
  | slow | claiming | claimed | enqueueing | parking | popping | releasing | released
  | handing _ => true
  | _ => false

def Pc.owns : Pc θ → Bool
  | claimed | owner | unlocking | popping | releasing => true
  | _ => false

inductive Event
  | mutexTryLock
  | mutexLock
  | mutexUnlock
  | next

inductive Stop
  | blocked
  | misplaced

variable (t : θ) (m : Shared θ) (q pc : Pc θ)

def spinLock : Except Stop (Shared θ × Pc θ) :=
  if m.waiterLock = none then .ok ({ m with waiterLock := some t }, pc) else .error .blocked

def spinUnlock : Except Stop (Shared θ × Pc θ) := .ok ({ m with waiterLock := none }, pc)

def next : Pc θ → Except Stop (Shared θ × Pc θ)
  | .locking => spinLock t m .slow
  | .slow =>
    if m.held = 0 then
      .ok ({ m with held := m.held ||| waiterFlag, tenure := .claiming t }, .claiming)
    else .ok ({ m with held := m.held ||| waiterFlag }, .enqueueing)
  | .claiming => .ok ({ m with held := 1, tenure := .running t }, .claimed)
  | .claimed => spinUnlock m .owner
  | .enqueueing => .ok ({ m with waiters := m.waiters ++ [t], queued := m.queued ++ [t] }, .parking)
  | .parking => spinUnlock m .parked
  | .parked =>
    if t ∈ m.ready then .ok ({ m with ready := m.ready.erase t, tenure := .running t }, .owner)
    else .error .blocked
  | .unlocking => spinLock t m .popping
  | .popping =>
    match m.waiters with
    | [] => .ok (m, .releasing)
    | th :: ws =>
      .ok ({ m with waiters := ws, tenure := .passing t th, granted := m.granted ++ [th] }, .handing th)
  | .releasing => .ok ({ m with held := 0, tenure := .free }, .released)
  | .released => spinUnlock m .out
  | .handing th => spinUnlock m (.waking th)
  | .waking th => .ok ({ m with ready := m.ready ++ [th], tenure := .woken th }, .out)
  | .out | .owner => .error .misplaced

def act : Event → Shared θ → Pc θ → Except Stop (Shared θ × Pc θ)
  | .mutexTryLock, m, .out =>
    if m.held = 0 then .ok ({ m with held := 1, tenure := .running t }, .owner) else .ok (m, .out)
  | .mutexLock, m, .out =>
    if m.held = 0 then .ok ({ m with held := 1, tenure := .running t }, .owner)
    else .ok (m, .locking)
  | .mutexUnlock, m, .owner =>
    if m.held = 1 then .ok ({ m with held := 0, tenure := .free }, .out)
    else .ok (m, .unlocking)
  | .next, m, pc => next t m pc
  | _, _, _ => .error .misplaced

abbrev Sys (θ : Type*) := Threads.Sys θ (Shared θ) (Pc θ)

def step : Sys θ → θ × Event → Except Stop (Sys θ) := Threads.step act

def Initial (s : Sys θ) : Prop := s.shared = ⟨0, none, [], [], .free, [], []⟩ ∧ ∀ t, s.own t = .out

/-- A thread owns the mutex from the action by which it gets it to the one by which it gives it up. A
parked thread that is off the list has been handed the mutex. -/
def Owns (s : Sys θ) (t : θ) : Prop :=
  (s.own t).owns = true ∨ s.own t = .claiming ∨ s.own t = .parked ∧ t ∉ s.shared.waiters

/-! ## The proof outline -/

inductive Role (θ : Type*)
  | none
  | claiming
  | running
  | passing (th : θ)
  | passed

def Tenure.role : Tenure θ → θ → Role θ
  | free, _ => .none
  | claiming u, t => if t = u then .claiming else .none
  | running u, t => if t = u then .running else .none
  | passing u v, t => if t = u then .passing v else if t = v then .passed else .none
  | woken v, t => if t = v then .passed else .none

def Pc.role : Pc θ → Role θ
  | claiming => .claiming
  | claimed | owner | unlocking | popping | releasing => .running
  | handing th | waking th => .passing th
  | _ => .none

namespace Tenure

variable {x : Tenure θ} {t u v : θ}

lemma role_eq_claiming : x.role t = .claiming ↔ x = .claiming t := by
  cases x <;> simp only [role] <;> grind

lemma role_eq_running : x.role t = .running ↔ x = .running t := by
  cases x <;> simp only [role] <;> grind

lemma role_eq_passing : x.role t = .passing v ↔ x = .passing t v := by
  cases x <;> simp only [role] <;> grind

lemma role_eq_passed (h : x.role t = .passed) : (∃ u, u ≠ t ∧ x = .passing u t) ∨ x = .woken t := by
  cases x with
  | passing u v =>
    simp only [role] at h
    split at h
    · cases h
    · rename_i hu
      split at h
      · rename_i hv
        exact .inl ⟨u, Ne.symm hu, by rw [hv]⟩
      · cases h
  | woken v =>
    simp only [role] at h
    split at h
    · rename_i hv
      exact .inr (by rw [hv])
    · cases h
  | _ =>
    simp only [role] at h
    grind

end Tenure

def WordOk : Prop :=
  match m.tenure with
  | .free => m.held = 0 ∧ m.waiters = []
  | .claiming _ => m.held = waiterFlag ∧ m.waiters = []
  | _ => m.held = 1 ∧ m.waiters = [] ∨ m.held = 1 ||| waiterFlag

def Tenure.ready : Tenure θ → List θ
  | woken t => [t]
  | _ => []

open Tenure (role ready)

structure Good (m : Shared θ) : Prop where
  word : WordOk m
  claimer : ∀ t, m.tenure = .claiming t → m.waiterLock = some t
  distinct : ∀ u t, m.tenure = .passing u t → u ≠ t
  ready : m.ready = m.tenure.ready
  nodup : m.waiters.Nodup
  order : m.queued = m.granted ++ m.waiters

structure At (t : θ) (m : Shared θ) (pc : Pc θ) : Prop where
  locks : m.waiterLock = some t ↔ pc.locks = true
  place : m.tenure.role t = pc.role ∧ (t ∈ m.waiters ↔ pc = .parking ∨ pc = .parked) ∨
    pc = .parked ∧ m.tenure.role t = .passed ∧ t ∉ m.waiters
  enqueueing : pc = .enqueueing → m.held = 1 ||| waiterFlag
  releasing : pc = .releasing → m.waiters = []

lemma At.of_not_parked {t : θ} {m : Shared θ} {pc : Pc θ} (hA : At t m pc) (hpc : pc ≠ .parked) :
    m.tenure.role t = pc.role ∧ (t ∈ m.waiters ↔ pc = .parking ∨ pc = .parked) :=
  hA.place.resolve_right fun h => hpc h.1

lemma At.not_locks {t u : θ} {m : Shared θ} {q : Pc θ} (hA : At u m q) (hu : u ≠ t)
    (ht : m.waiterLock = some t) : q.locks = false := by
  rw [← Bool.not_eq_true, ← hA.locks, ht]
  simpa using hu.symm

/-- The holder of the waiter lock leaves the other threads' assertions alone if their roles stay and they stay on the
list or off it. -/
lemma At.frame {t u : θ} {m m' : Shared θ} {q : Pc θ} (hA : At u m q) (hu : u ≠ t)
    (ht : m.waiterLock = some t) (hl : m'.waiterLock = m.waiterLock)
    (hr : m'.tenure.role u = m.tenure.role u) (hw : u ∈ m'.waiters ↔ u ∈ m.waiters) : At u m' q := by
  have hq := hA.not_locks hu ht
  refine ⟨by rw [hl, hA.locks], by rw [hr, hw]; exact hA.place, ?_, ?_⟩
  · rintro rfl
    cases hq
  · rintro rfl
    cases hq

/-- What a thread does without the waiter lock: the list stays, and so does a word with the flag. -/
lemma At.frame_fast {u : θ} {m m' : Shared θ} {q : Pc θ} (hA : At u m q)
    (hl : m'.waiterLock = m.waiterLock) (hr : m'.tenure.role u = m.tenure.role u)
    (hw : m'.waiters = m.waiters) (hh : m.held = 1 ||| waiterFlag → m'.held = m.held) : At u m' q := by
  refine ⟨by rw [hl, hA.locks], by rw [hr, hw]; exact hA.place, fun h => ?_, fun h => ?_⟩
  · rw [hh (hA.enqueueing h), hA.enqueueing h]
  · rw [hw, hA.releasing h]

/-- An action of `t` keeps the outline, and it gives the mutex to nobody but the first waiter as long
as there are waiters. -/
structure Keeps (t : θ) (m m' : Shared θ) (pc : Pc θ) : Prop where
  good : Good m'
  own : At t m' pc
  other : ∀ {u q}, u ≠ t → At u m q → At u m' q
  turn : ∀ u, m'.tenure.holder = some u → m.tenure.holder = some u ∨ m.waiters = [] ∨ m.waiters = u :: m'.waiters

def Pc.Plain : Prop := q ≠ .enqueueing ∧ q ≠ .releasing

def Pc.Like : Prop := pc ≠ .parked ∧ (q.role = pc.role ∧ q.role ≠ .claiming) ∧
    ((q = .parking ∨ q = .parked) ↔ (pc = .parking ∨ pc = .parked)) ∧ q.Plain

section Actions

variable {t : θ} {m m' : Shared θ} {pc pc' q : Pc θ} (hG : Good m)
include hG

lemma spin_keeps {l : Option θ} (hA : At t m pc) (hl : l = some t ↔ q.locks)
    (hother : ∀ u, u ≠ t → (l = some u ↔ m.waiterLock = some u)) (hq : q.Like pc) :
    Keeps t m { m with waiterLock := l } q := by
  obtain ⟨hpark, ⟨hrole, hnot⟩, hw, hq⟩ := hq
  obtain ⟨hr, hm⟩ := hA.of_not_parked hpark
  refine ⟨⟨hG.word, fun u hu => ?_, hG.distinct, hG.ready, hG.nodup, hG.order⟩,
    ⟨hl, .inl ⟨?_, ?_⟩, ?_, ?_⟩, fun hu hA => ?_, fun u h => .inl h⟩
  · by_cases ht : u = t
    · rw [ht] at hu
      exact absurd (hrole.trans (hr.symm.trans (Tenure.role_eq_claiming.2 hu))) hnot
    · exact (hother u ht).2 (hG.claimer u hu)
  · exact hr.trans hrole.symm
  · exact hm.trans hw.symm
  · exact fun h => absurd h hq.1
  · exact fun h => absurd h hq.2
  · exact ⟨(hother _ hu).trans hA.locks, hA.place, hA.enqueueing, hA.releasing⟩

lemma spinLock_keeps (hA : At t m pc) (h : spinLock t m q = .ok (m', pc')) (hl : q.locks)
    (hq : q.Like pc) : Keeps t m m' pc' := by
  unfold spinLock at h
  split at h
  · rename_i hnone
    cases h
    refine spin_keeps hG hA (by simp [hl]) (fun u hu => ?_) hq
    simp [hnone, hu.symm]
  · cases h

lemma spinUnlock_keeps (hA : At t m pc) (h : spinUnlock m q = .ok (m', pc')) (hpl : pc.locks)
    (hl : q.locks = false) (hq : q.Like pc) : Keeps t m m' pc' := by
  cases h
  have ht : m.waiterLock = some t := hA.locks.2 hpl
  refine spin_keeps hG hA (by simp [hl]) (fun u hu => ?_) hq
  simp [ht, hu.symm]

omit [DecidableEq θ] in
lemma Good.of_held_zero (h : m.held = 0) : m.tenure = .free ∧ m.waiters = [] := by
  have hw := hG.word
  unfold WordOk at hw
  split at hw
  · exact ⟨by assumption, hw.2⟩
  · exact absurd (hw.1.symm.trans h) (by decide)
  · rcases hw with hw | hw
    · exact absurd (hw.1.symm.trans h) (by decide)
    · exact absurd (hw.symm.trans h) (by decide)

def Tenure.Taken (x : Tenure θ) : Prop := x ≠ .free ∧ ∀ u, x ≠ .claiming u

omit [DecidableEq θ] hG in
lemma wordOk_iff (hx : m.tenure.Taken) : WordOk m ↔ m.held = 1 ∧ m.waiters = [] ∨ m.held = 1 ||| waiterFlag := by
  unfold WordOk
  split
  · exact absurd (by assumption) hx.1
  · exact absurd (by assumption) (hx.2 _)
  · rfl

omit [DecidableEq θ] in
lemma Good.taken (h : m.held = 1 ||| waiterFlag) : m.tenure.Taken := by
  have hw := hG.word
  constructor
  · intro hx
    simp only [WordOk, hx] at hw
    exact absurd (hw.1.symm.trans h) (by decide)
  · intro u hx
    simp only [WordOk, hx] at hw
    exact absurd (hw.1.symm.trans h) (by decide)

lemma alone_keeps {h : BitVec 32} {x : Tenure θ} (hA : At t m pc) (hw : m.waiters = [])
    (hrole : ∀ u, u ≠ t → x.role u = m.tenure.role u) (hx : x.ready = m.tenure.ready ∧ ∀ u v, x ≠ .passing u v)
    (hclaim : ∀ u, x = .claiming u → m.waiterLock = some u) (hword : WordOk { m with held := h, tenure := x })
    (hheld : pc.locks ∨ m.held ≠ 1 ||| waiterFlag)
    (hq : q.locks = pc.locks ∧ x.role t = q.role ∧ (q ≠ .parking ∧ q ≠ .parked) ∧ q.Plain) :
    Keeps t m { m with held := h, tenure := x } q := by
  refine ⟨⟨hword, hclaim, fun u v h => absurd h (hx.2 u v), hG.ready.trans hx.1.symm, hG.nodup, hG.order⟩,
    ⟨?_, .inl ⟨hq.2.1, by simp [hw, hq.2.2.1]⟩, fun h => absurd h hq.2.2.2.1, fun _ => hw⟩, fun hu hr => ?_,
    fun u _ => .inr (.inl hw)⟩
  · rw [hq.1]
    exact hA.locks
  · rcases hheld with hl | hne
    · exact hr.frame hu (hA.locks.2 hl) rfl (hrole _ hu) Iff.rfl
    · exact hr.frame_fast rfl (hrole _ hu) rfl fun h => absurd h hne

lemma take_keeps (hA : At t m .out) (hh : m.held = 0) :
    Keeps t m { m with held := 1, tenure := .running t } .owner := by
  obtain ⟨hx, hw⟩ := hG.of_held_zero hh
  refine alone_keeps hG hA hw (fun u hu => ?_) ?_ nofun (.inl ⟨rfl, hw⟩) (.inr ?_) ?_
  · simp [hx, role, hu]
  · simp [hx, ready]
  · rw [hh]
    decide
  · simp [role, Pc.role, Pc.locks, Pc.Plain]

lemma release_keeps (hA : At t m pc) (hpc : pc.role = .running ∧ pc ≠ .parked) (hw : m.waiters = [])
    (hheld : pc.locks ∨ m.held ≠ 1 ||| waiterFlag)
    (hq : q.locks = pc.locks ∧ q.role = .none ∧ (q ≠ .parking ∧ q ≠ .parked) ∧ q.Plain) :
    Keeps t m { m with held := 0, tenure := .free } q := by
  have hx := Tenure.role_eq_running.1 ((hA.of_not_parked hpc.2).1.trans hpc.1)
  refine alone_keeps hG hA hw (fun u hu => ?_) ?_ nofun ⟨rfl, hw⟩ hheld ⟨hq.1, hq.2.1.symm, hq.2.2⟩
  · simp [hx, role, hu]
  · simp [hx, ready]

lemma slow_keeps (hA : At t m .slow) (h : next t m .slow = .ok (m', pc')) : Keeps t m m' pc' := by
  obtain ⟨hr, ht⟩ := hA.of_not_parked (by simp)
  have hl : m.waiterLock = some t := hA.locks.2 rfl
  simp only [next] at h
  split at h
  · rename_i hh
    obtain ⟨hx, hw⟩ := hG.of_held_zero hh
    cases h
    refine alone_keeps hG hA hw (fun u hu => ?_) ?_ ?_ ⟨by simp [hh], hw⟩ (.inl rfl) ?_
    · simp [hx, role, hu]
    · simp [hx, ready]
    · simpa using hl
    · simp [role, Pc.role, Pc.locks, Pc.Plain]
  · rename_i hh
    cases h
    -- a claimer would hold the waiter lock
    have hx : m.tenure.Taken := by
      constructor
      · intro hx
        have hw := hG.word
        simp only [WordOk, hx] at hw
        exact hh hw.1
      · intro u hx
        obtain rfl : t = u := Option.some.inj (hl.symm.trans (hG.claimer u hx))
        simp [hx, role, Pc.role] at hr
    have hheld : m.held ||| waiterFlag = 1 ||| waiterFlag := by
      rcases (wordOk_iff hx).1 hG.word with ⟨hw, -⟩ | hw
      · rw [hw]
      · rw [hw]
        decide
    refine ⟨⟨(wordOk_iff ?_).2 (.inr ?_), hG.claimer, hG.distinct, hG.ready, hG.nodup,
      hG.order⟩, ⟨hA.locks, .inl ⟨hr, ?_⟩, fun _ => hheld, by simp⟩, fun hu hq => ?_,
      fun u h => .inl h⟩
    · exact hx
    · exact hheld
    · simpa using ht
    · exact hq.frame hu hl rfl rfl Iff.rfl

lemma claiming_keeps (hA : At t m .claiming) : Keeps t m { m with held := 1, tenure := .running t } .claimed := by
  have hx := Tenure.role_eq_claiming.1 (hA.of_not_parked (by simp)).1
  have hw : m.waiters = [] := by
    have hw := hG.word
    simp only [WordOk, hx] at hw
    exact hw.2
  refine alone_keeps hG hA hw (fun u hu => ?_) ?_ nofun (.inl ⟨rfl, hw⟩) (.inl rfl) ?_
  · simp [hx, role, hu]
  · simp [hx, ready]
  · simp [role, Pc.role, Pc.locks, Pc.Plain]

lemma enqueueing_keeps (hA : At t m .enqueueing) :
    Keeps t m { m with waiters := m.waiters ++ [t], queued := m.queued ++ [t] } .parking := by
  obtain ⟨hr, ht⟩ := hA.of_not_parked (by simp)
  have hl : m.waiterLock = some t := hA.locks.2 rfl
  have hheld := hA.enqueueing rfl
  have ht' : t ∉ m.waiters := by simp [ht]
  refine ⟨⟨(wordOk_iff ?_).2 (.inr ?_), hG.claimer, hG.distinct, hG.ready, ?_, ?_⟩,
    ⟨hA.locks, .inl ⟨hr, by simp⟩, by simp, by simp⟩, fun hu hq => ?_, fun u h => .inl h⟩
  · exact hG.taken hheld
  · exact hheld
  · exact List.Nodup.append hG.nodup (List.nodup_singleton t) (by simpa using ht')
  · simp [hG.order]
  · exact hq.frame hu hl rfl rfl (by simp [hu])

lemma parked_keeps (hA : At t m .parked) (h : t ∈ m.ready) :
    Keeps t m { m with ready := m.ready.erase t, tenure := .running t } .owner := by
  have hx : m.tenure = .woken t := by
    rw [hG.ready] at h
    cases hm : m.tenure <;> simp_all [ready]
  have ht : t ∉ m.waiters := by
    rcases hA.place with ⟨hr, -⟩ | ⟨-, -, ht⟩
    · simp [hx, role, Pc.role] at hr
    · exact ht
  have hword := (wordOk_iff (m := m) (by simp [Tenure.Taken, hx])).1 hG.word
  refine ⟨⟨(wordOk_iff (by simp [Tenure.Taken])).2 ?_, by simp, by simp,
    by simp [hG.ready, hx, ready], hG.nodup, hG.order⟩,
    ⟨hA.locks, .inl ⟨by simp [role, Pc.role], by simpa using ht⟩, by simp, by simp⟩,
    fun hu hq => ?_, fun u h => .inl (hx ▸ h)⟩
  · exact hword
  · exact hq.frame_fast rfl (by simp [hx, role, hu]) rfl fun _ => rfl

lemma popping_nil_keeps (hA : At t m .popping) (hw : m.waiters = []) : Keeps t m m .releasing := by
  obtain ⟨hr, ht⟩ := hA.of_not_parked (by simp)
  exact ⟨hG, ⟨hA.locks, .inl ⟨hr, by simp [hw]⟩, by simp, fun _ => hw⟩, fun _ hq => hq, fun u h => .inl h⟩

lemma popping_cons_keeps {th : θ} {ws : List θ} (hA : At t m .popping) (hw : m.waiters = th :: ws) :
    Keeps t m { m with waiters := ws, tenure := .passing t th, granted := m.granted ++ [th] }
      (.handing th) := by
  obtain ⟨hr, ht⟩ := hA.of_not_parked (by simp)
  have hl : m.waiterLock = some t := hA.locks.2 rfl
  have hx := Tenure.role_eq_running.1 hr
  have hnodup := hG.nodup
  rw [hw] at ht hnodup
  have hne : t ≠ th := by
    rintro rfl
    simp at ht
  have hword := (wordOk_iff (m := m) (by simp [Tenure.Taken, hx])).1 hG.word
  refine ⟨⟨(wordOk_iff (by simp [Tenure.Taken])).2 (.inr ?_), by simp, ?_,
    by simpa [hx, ready] using hG.ready, hnodup.of_cons, by simp [hG.order, hw]⟩,
    ⟨hA.locks, .inl ⟨by simp [role, Pc.role], ?_⟩, by simp, by simp⟩, fun {u q} hu hq => ?_,
    fun u h => .inr (.inr (Option.some.inj h ▸ hw))⟩
  · rcases hword with ⟨-, h⟩ | h
    · rw [hw] at h
      cases h
    · exact h
  · rintro u v ⟨⟩
    exact hne
  · simp at ht
    simp [ht]
  · by_cases huth : u = th
    · subst huth
      -- the first waiter does not hold the waiter lock, so it has parked
      have hq' := hq.not_locks hu hl
      have hpc : q = .parked := by
        rcases hq.place with ⟨-, hp⟩ | hp
        · rcases hp.1 (by simp [hw]) with rfl | rfl
          · cases hq'
          · rfl
        · exact hp.1
      subst hpc
      refine ⟨hq.locks, .inr ⟨rfl, by simp [role, hu], ?_⟩, by simp, by simp⟩
      exact (List.nodup_cons.1 hnodup).1
    · exact hq.frame hu hl rfl (by simp [hx, role, hu, huth]) (by simp [hw, huth])

lemma waking_keeps {th : θ} (hA : At t m (.waking th)) :
    Keeps t m { m with ready := m.ready ++ [th], tenure := .woken th } .out := by
  obtain ⟨hr, ht⟩ := hA.of_not_parked (by simp)
  have hx := Tenure.role_eq_passing.1 hr
  have hne := hG.distinct t th hx
  have hword := (wordOk_iff (m := m) (by simp [Tenure.Taken, hx])).1 hG.word
  refine ⟨⟨(wordOk_iff (by simp [Tenure.Taken])).2 ?_, by simp, by simp,
    by simp [hG.ready, hx, ready], hG.nodup, hG.order⟩,
    ⟨hA.locks, .inl ⟨by simp [role, Pc.role, hne], by simpa using ht⟩, by simp, by simp⟩,
    fun hu hq => ?_, fun u h => .inl (hx ▸ h)⟩
  · exact hword
  · exact hq.frame_fast rfl (by simp [hx, role, hu]) rfl fun _ => rfl

/-- One case for each place in the code. -/
lemma next_keeps (hA : At t m pc) (h : next t m pc = .ok (m', pc')) : Keeps t m m' pc' := by
  cases pc with
  | locking | unlocking => exact spinLock_keeps hG hA h rfl (by simp [Pc.Like, Pc.Plain, Pc.role])
  | slow => exact slow_keeps hG hA h
  | claiming =>
    cases h
    exact claiming_keeps hG hA
  | enqueueing =>
    cases h
    exact enqueueing_keeps hG hA
  | parked =>
    simp only [next] at h
    split at h
    · cases h
      exact parked_keeps hG hA (by assumption)
    · cases h
  | popping =>
    simp only [next] at h
    split at h
    · cases h
      exact popping_nil_keeps hG hA (by assumption)
    · cases h
      exact popping_cons_keeps hG hA (by assumption)
  | releasing =>
    cases h
    exact release_keeps hG hA (by simp [Pc.role]) (hA.releasing rfl) (.inl rfl) (by simp [Pc.role, Pc.locks, Pc.Plain])
  | waking th =>
    cases h
    exact waking_keeps hG hA
  | claimed | parking | released | handing th =>
    exact spinUnlock_keeps hG hA h rfl rfl (by simp [Pc.Like, Pc.Plain, Pc.role])
  | out | owner => cases h

lemma act_keeps {e : Event} (hA : At t m pc) (h : act t e m pc = .ok (m', pc')) : Keeps t m m' pc' := by
  unfold act at h
  split at h
  · split at h
    · cases h
      exact take_keeps hG hA (by assumption)
    · cases h
      exact ⟨hG, hA, fun _ hq => hq, fun _ h => .inl h⟩
  · split at h
    · cases h
      exact take_keeps hG hA (by assumption)
    · cases h
      exact spin_keeps hG hA hA.locks (fun _ _ => Iff.rfl) (by simp [Pc.Like, Pc.Plain, Pc.role])
  · split at h
    · cases h
      rename_i hh
      have hx := Tenure.role_eq_running.1 (hA.of_not_parked (by simp)).1
      have hne : m.held ≠ 1 ||| waiterFlag := by
        rw [hh]
        decide
      have hw := ((wordOk_iff (by simp [hx, Tenure.Taken])).1 hG.word).resolve_right hne
      exact release_keeps hG hA (by simp [Pc.role]) hw.2 (.inr hne) (by simp [Pc.role, Pc.locks, Pc.Plain])
    · cases h
      exact spin_keeps hG hA hA.locks (fun _ _ => Iff.rfl) (by simp [Pc.Like, Pc.Plain, Pc.role])
  · exact next_keeps hG hA h
  · cases h

end Actions

lemma outline : Threads.Outline (θ := θ) act (fun _ _ _ _ => True) Good At where
  own hG hA _ h := ⟨(act_keeps hG hA h).good, (act_keeps hG hA h).own⟩
  other hu hG hA hq _ h := (act_keeps hG hA h).other hu hq

variable {s : Sys θ}

lemma reaches_outline (hs : Run.Reaches step (fun _ _ => True) Initial s) :
    Good s.shared ∧ ∀ t, At t s.shared (s.own t) := by
  refine outline.reaches ?_ hs
  rintro s ⟨hm, hpc⟩
  rw [hm]
  refine ⟨⟨⟨rfl, rfl⟩, by simp, by simp, rfl, List.nodup_nil, rfl⟩, fun t => ?_⟩
  rw [hpc t]
  exact ⟨by simp [Pc.locks], .inl ⟨rfl, by simp⟩, by simp, by simp⟩

/-! ## Ownership -/

section

omit [DecidableEq θ]

lemma Pc.role_of_owns {pc : Pc θ} : pc.owns ↔ pc.role = .running := by
  cases pc <;> simp [Pc.owns, Pc.role]

lemma Pc.role_eq_claiming {pc : Pc θ} : pc.role = .claiming ↔ pc = .claiming := by
  cases pc <;> simp [Pc.role]

lemma Pc.role_eq_passing {pc : Pc θ} {th : θ} : pc.role = .passing th ↔ pc = .handing th ∨ pc = .waking th := by
  cases pc <;> simp [Pc.role]

end

lemma parked_cases {t : θ} (hG : Good s.shared) (hA : ∀ t, At t s.shared (s.own t)) (h : s.own t = .parked) :
    t ∈ s.shared.waiters ∨ t ∈ s.shared.ready ∨ ∃ u, s.own u = .handing t ∨ s.own u = .waking t := by
  rcases (hA t).place with ⟨-, hw⟩ | ⟨-, hr, -⟩
  · exact .inl (hw.2 (.inr h))
  · rcases Tenure.role_eq_passed hr with ⟨u, -, hx⟩ | hx
    · refine .inr (.inr ⟨u, ?_⟩)
      have hu := Tenure.role_eq_passing.2 hx
      rcases (hA u).place with ⟨hru, -⟩ | ⟨-, hru, -⟩
      · exact Pc.role_eq_passing.1 (hru.symm.trans hu)
      · cases hu.symm.trans hru
    · exact .inr (.inl (by simp [hG.ready, hx, ready]))

lemma not_owns_of_mem {t : θ} (hA : At t s.shared (s.own t)) (ht : t ∈ s.shared.waiters) : ¬ Owns s t := by
  have hpc : s.own t = .parking ∨ s.own t = .parked := by
    rcases hA.place with ⟨-, hw⟩ | ⟨-, -, hw⟩
    · exact hw.1 ht
    · exact absurd ht hw
  rintro (h | h | ⟨-, h⟩)
  · rcases hpc with hpc | hpc <;> simp [hpc, Pc.owns] at h
  · rcases hpc with hpc | hpc <;> simp [hpc] at h
  · exact h ht

lemma owns_iff {t : θ} (hG : Good s.shared) (hA : At t s.shared (s.own t)) :
    Owns s t ↔ s.shared.tenure.holder = some t := by
  constructor
  · rintro (h | h | ⟨hpc, hw⟩)
    · have hr := (hA.of_not_parked (by rintro hpc; simp [hpc, Pc.owns] at h)).1
      rw [Tenure.role_eq_running.1 (hr.trans (Pc.role_of_owns.1 h))]
      rfl
    · have hr := (hA.of_not_parked (by simp [h])).1
      rw [Tenure.role_eq_claiming.1 (hr.trans (Pc.role_eq_claiming.2 h))]
      rfl
    · rcases hA.place with ⟨-, h⟩ | ⟨-, hr, -⟩
      · exact absurd (h.2 (.inr hpc)) hw
      · rcases Tenure.role_eq_passed hr with ⟨u, -, hx⟩ | hx
        · rw [hx]
          rfl
        · rw [hx]
          rfl
  · intro h
    have hrole : s.shared.tenure.role t = .claiming ∨ s.shared.tenure.role t = .running ∨
        s.shared.tenure.role t = .passed := by
      cases hx : s.shared.tenure with
      | free => simp [hx, Tenure.holder] at h
      | passing u v =>
        have hne := hG.distinct u v hx
        simp only [hx, Tenure.holder, Option.some.injEq] at h
        simp [role, ← h, hne.symm]
      | _ => simp_all [Tenure.holder, role]
    rcases hA.place with ⟨hr, -⟩ | ⟨hpc, -, hw⟩
    · rw [hr] at hrole
      rcases hrole with h | h | h
      · exact .inr (.inl (Pc.role_eq_claiming.1 h))
      · exact .inl (Pc.role_of_owns.2 h)
      · cases hpc : s.own t <;> simp [hpc, Pc.role] at h
    · exact .inr (.inr ⟨hpc, hw⟩)

omit [DecidableEq θ] in
lemma holder_eq_none {m : Shared θ} (hG : Good m) : m.tenure.holder = none ↔ m.held = 0 := by
  constructor
  · intro h
    have hw := hG.word
    cases hx : m.tenure <;> simp [hx, Tenure.holder] at h
    simp only [WordOk, hx] at hw
    exact hw.1
  · intro h
    rw [(hG.of_held_zero h).1]
    rfl

/-- A mutex has at most one owner, and is free exactly when `held` is 0. As long as somebody is on the list somebody
else has it, and a parked thread that is off the list has been made runnable or is about to be. The waiters, and
nobody else while there are any, get it in the order in which they have been enqueued. -/
theorem mutex_correct {s : Sys θ} (hs : Run.Reaches step (fun _ _ => True) Initial s) :
    (∀ t u, Owns s t → Owns s u → t = u) ∧
    (s.shared.held = 0 ↔ ∀ t, ¬ Owns s t) ∧
    (∀ t, t ∈ s.shared.waiters → ∃ u, u ≠ t ∧ Owns s u) ∧
    (∀ t, s.own t = .parked → t ∈ s.shared.waiters ∨ t ∈ s.shared.ready ∨
      ∃ u, s.own u = .handing t ∨ s.own u = .waking t) ∧
    s.shared.queued = s.shared.granted ++ s.shared.waiters ∧
    ∀ e s', step s e = .ok s' → ∀ u, Owns s' u →
      Owns s u ∨ s.shared.waiters = [] ∨ s.shared.waiters = u :: s'.shared.waiters := by
  obtain ⟨hG, hA⟩ := reaches_outline hs
  have howns := fun t => owns_iff hG (hA t)
  refine ⟨fun t u ht hu => ?_, ?_, fun t ht => ?_, fun t => parked_cases hG hA, hG.order, fun e s' h u hu => ?_⟩
  · exact Option.some.inj (((howns t).1 ht).symm.trans ((howns u).1 hu))
  · rw [← holder_eq_none hG, Option.eq_none_iff_forall_ne_some]
    exact forall_congr' fun t => not_congr (howns t).symm
  · have hne : s.shared.tenure.holder ≠ none := by
      rw [Ne, holder_eq_none hG]
      intro h
      simp [(hG.of_held_zero h).2] at ht
    obtain ⟨u, hu⟩ := Option.ne_none_iff_exists'.1 hne
    refine ⟨u, ?_, (howns u).2 hu⟩
    rintro rfl
    exact not_owns_of_mem (hA u) ht ((howns u).2 hu)
  · obtain ⟨hG', hA'⟩ := reaches_outline (hs.snoc trivial h)
    rw [howns u]
    exact (act_keeps hG (hA e.1) (Threads.step_eq_ok h).1).turn u ((owns_iff hG' (hA' u)).1 hu)

def initSys : Sys (Fin 2) := ⟨⟨0, none, [], [], .free, [], []⟩, fun _ => .out⟩

theorem mutex_correct_handoff : ∃ s : Sys (Fin 2),
    Run.Reaches step (fun _ _ => True) Initial s ∧
      (s.own 1 = .parked ∧ s.own 0 = .handing 1 ∧ s.shared.held = 1 ||| waiterFlag) ∧
      ∀ t, Owns s t → t = 1 := by
  obtain ⟨s, hs, hP⟩ := Run.reached step Initial (s := initSys) (P := fun s =>
      (s.own 1 = .parked ∧ s.own 0 = .handing 1 ∧ s.shared.held = 1 ||| waiterFlag) ∧ 1 ∉ s.shared.waiters)
      [(0, .mutexLock), (1, .mutexLock), (1, .next), (1, .next), (1, .next), (1, .next),
        (0, .mutexUnlock), (0, .next), (0, .next)]
      ⟨rfl, fun _ => rfl⟩ (by decide)
  exact ⟨s, hs, hP.1, fun t ht => (mutex_correct hs).1 t 1 ht (.inr (.inr ⟨hP.1.1, hP.2⟩))⟩

end Aspen.Mutex
