import Aspen.Lib.Shares
import Aspen.Lib.Threads

/-!
# Read-write mutexes (`sync.c`)

`count` is the number of readers, or -1 when there is a writer. All of it happens under the waiter lock,
except that the threads to which `rwmutex_unlock` gives the lock are made runnable afterwards: they are
counted as owners before they run.
-/

namespace Aspen.RwMutex

open Function List

variable {θ : Type*}

/-- What a thread has of the lock. No code reads it. -/
inductive Role (θ : Type*)
  | none
  | owner (k : Access)
  /-- `u` has given it the lock and not called `thread_ready` yet -/
  | passed (u : θ) (k : Access)
  /-- made runnable, not resumed yet -/
  | woken (k : Access)

@[simp] def Role.mode : Role θ → Option Access
  | none => .none
  | owner k | passed _ k | woken k => some k

/-- `struct rwmutex`, the threads made runnable, and a history: what each thread has of the lock, and who has been put
on the lists and taken off them. -/
structure Shared (θ : Type*) where
  count : ℤ
  readWaiterCount : ℤ
  waiterLock : Option θ
  /-- `read_waiters` and `write_waiters` -/
  waiters : Access → List θ
  ready : List θ
  roles : θ → Role θ
  queued : Access → List θ
  granted : Access → List θ

inductive Pc (θ : Type*)
  | out
  /-- a locking function (one that only tries, or not) before it has the waiter lock -/
  | entering (k : Access) (try_ : Bool)
  /-- before the test of `count` -/
  | deciding (k : Access) (try_ : Bool)
  /-- it has been counted; before the waiter lock is released -/
  | counted (k : Access)
  /-- the try has failed; before the waiter lock is released -/
  | refused
  | parking (k : Access)
  | parked (k : Access)
  /-- it owns the lock, and is not in a function of the lock -/
  | owner (k : Access)
  /-- `rwmutex_unlock` before it has the waiter lock -/
  | leaving (k : Access)
  /-- before `count` is updated -/
  | giving (k : Access)
  /-- before the tests for waiters -/
  | granting
  /-- the waiters in `tmp` have the lock; before the waiter lock is released -/
  | handing (tmp : List θ)
  | waking (tmp : List θ)
  deriving DecidableEq

namespace Pc

def locks : Pc θ → Bool
  | deciding .. | counted _ | refused | parking _ | giving _ | granting | handing _ => true
  | _ => false

/-- What a thread has of the lock by its place in the code; a parked one may also have been given it. -/
@[simp] def role : Pc θ → Role θ
  | counted k | owner k | leaving k | giving k => .owner k
  | _ => .none

@[simp] def tmp : Pc θ → List θ
  | handing tmp | waking tmp => tmp
  | _ => []

end Pc

inductive Event
  | rwmutexRdlock
  | rwmutexTryRdlock
  | rwmutexWrlock
  | rwmutexTryWrlock
  | rwmutexUnlock
  | next

inductive Stop
  | blocked
  | misplaced

section

variable [DecidableEq θ]

namespace Shared

variable (t : θ) (k : Access)

@[simp] def take (count : ℤ) (m : Shared θ) : Shared θ := { m with count, roles := update m.roles t (.owner k) }

@[simp] def enqueue (m : Shared θ) : Shared θ :=
  { m with
    waiters := update m.waiters k (m.waiters k ++ [t])
    queued := update m.queued k (m.queued k ++ [t]) }

/-- `t` gives the lock to the waiters `ws`; the others stay on the list. -/
@[simp] def pass (ws rest : List θ) (count readWaiterCount : ℤ) (m : Shared θ) : Shared θ :=
  { m with
    count, readWaiterCount
    waiters := update m.waiters k rest
    roles := fun u => if u ∈ ws then .passed t k else m.roles u
    granted := update m.granted k (m.granted k ++ ws) }

end Shared

variable (t : θ) (m : Shared θ)

def spinLock (pc : Pc θ) : Except Stop (Shared θ × Pc θ) :=
  if m.waiterLock = none then .ok ({ m with waiterLock := some t }, pc) else .error .blocked

def spinUnlock (pc : Pc θ) : Except Stop (Shared θ × Pc θ) := .ok ({ m with waiterLock := none }, pc)

def next : Pc θ → Except Stop (Shared θ × Pc θ)
  | .entering k try_ => spinLock t m (.deciding k try_)
  | .deciding .read try_ =>
    if 0 ≤ m.count then .ok (m.take t .read (m.count + 1), .counted .read)
    else if try_ then .ok (m, .refused)
    else .ok ({ m.enqueue t .read with readWaiterCount := m.readWaiterCount + 1 }, .parking .read)
  | .deciding .write try_ =>
    if m.count = 0 then .ok (m.take t .write (-1), .counted .write)
    else if try_ then .ok (m, .refused)
    else .ok (m.enqueue t .write, .parking .write)
  | .counted k => spinUnlock m (.owner k)
  | .refused => spinUnlock m .out
  | .parking k => spinUnlock m (.parked k)
  | .parked k =>
    if t ∈ m.ready then
      .ok ({ m with ready := m.ready.erase t, roles := update m.roles t (.owner k) }, .owner k)
    else .error .blocked
  | .leaving k => spinLock t m (.giving k)
  | .giving _ =>
    .ok ({ m with
      count := if m.count < 0 then 0 else m.count - 1
      roles := update m.roles t .none }, .granting)
  | .granting =>
    if m.count = 0 ∧ 0 < m.readWaiterCount then
      .ok (m.pass t .read (m.waiters .read) [] m.readWaiterCount 0, .handing (m.waiters .read))
    else if m.count = 0 then
      match m.waiters .write with
      | [] => .ok (m, .handing [])
      | th :: ws => .ok (m.pass t .write [th] ws (-1) m.readWaiterCount, .handing [th])
    else .ok (m, .handing [])
  | .handing tmp => spinUnlock m (.waking tmp)
  | .waking [] => .ok (m, .out)
  | .waking (th :: tmp) =>
    .ok ({ m with
      ready := m.ready ++ [th]
      roles := update m.roles th
        (match m.roles th with | .passed _ k => .woken k | r => r) }, .waking tmp)
  | .out | .owner _ => .error .misplaced

def act : Event → Shared θ → Pc θ → Except Stop (Shared θ × Pc θ)
  | .rwmutexRdlock, m, .out => .ok (m, .entering .read false)
  | .rwmutexTryRdlock, m, .out => .ok (m, .entering .read true)
  | .rwmutexWrlock, m, .out => .ok (m, .entering .write false)
  | .rwmutexTryWrlock, m, .out => .ok (m, .entering .write true)
  | .rwmutexUnlock, m, .owner k => .ok (m, .leaving k)
  | .next, m, pc => next t m pc
  | _, _, _ => .error .misplaced

abbrev Sys (θ : Type*) := Threads.Sys θ (Shared θ) (Pc θ)

def step : Sys θ → θ × Event → Except Stop (Sys θ) := Threads.step act

end

def Initial (s : Sys θ) : Prop := s.shared = ⟨0, 0, none, fun _ => [], [], fun _ => .none, fun _ => [], fun _ => []⟩ ∧
    ∀ t, s.own t = .out

/-- A thread owns the lock as long as it is counted. A parked thread that is off its list has been given the lock. -/
def Owns (s : Sys θ) (t : θ) (k : Access) : Prop :=
  (s.own t).role = .owner k ∨ s.own t = .parked k ∧ t ∉ s.shared.waiters k

/-! ## The proof outline -/

def Settled (m : Shared θ) : Prop := (0 ≤ m.count → m.waiters .read = []) ∧ (m.count = 0 → m.waiters .write = [])

structure Good (m : Shared θ) : Prop where
  counted : Counted (fun t => (m.roles t).mode) m.count
  waiterCount : m.readWaiterCount = (m.waiters .read).length
  settled : m.waiterLock = none → Settled m
  nodup : ∀ k, (m.waiters k).Nodup
  ready : ∀ t, t ∈ m.ready ↔ ∃ k, m.roles t = .woken k
  readyNodup : m.ready.Nodup
  order : ∀ k, m.queued k = m.granted k ++ m.waiters k

/-- A thread has what its place in the code says, and is on the list on which it parks, or it has been
given the lock. -/
def Placed (t : θ) (m : Shared θ) (pc : Pc θ) : Prop :=
  m.roles t = pc.role ∧ (∀ k, t ∈ m.waiters k ↔ pc = .parking k ∨ pc = .parked k) ∨
    ∃ k, pc = .parked k ∧ (m.roles t = .woken k ∨ ∃ u, m.roles t = .passed u k) ∧ ∀ k, t ∉ m.waiters k

def Pc.Like (pc q : Pc θ) : Prop := (∀ k, pc ≠ .parked k) ∧ q.role = pc.role ∧ q.tmp = pc.tmp ∧
    ∀ k, (q = .parking k ∨ q = .parked k) ↔ (pc = .parking k ∨ pc = .parked k)

structure At (t : θ) (m : Shared θ) (pc : Pc θ) : Prop where
  locks : m.waiterLock = some t ↔ pc.locks = true
  place : Placed t m pc
  passes : ∀ th, (∃ k, m.roles th = .passed t k) ↔ th ∈ pc.tmp
  nodup : pc.tmp.Nodup
  settled : pc.locks = true → pc ≠ .granting → Settled m
  granting : pc = .granting → 0 ≤ m.count ∧ (m.count ≠ 0 → m.waiters .read = [])

variable {t u : θ} {m m' : Shared θ} {pc pc' q : Pc θ} {r : Role θ} {k : Access}

lemma At.of_not_parked (hA : At t m pc) (hpc : ∀ k, pc ≠ .parked k) :
    m.roles t = pc.role ∧ ∀ k, t ∈ m.waiters k ↔ pc = .parking k ∨ pc = .parked k :=
  hA.place.resolve_right fun ⟨k, h, _⟩ => hpc k h

lemma At.not_locks (hA : At u m q) (hu : u ≠ t) (ht : m.waiterLock = some t) : q.locks ≠ true := by
  rw [Ne, ← hA.locks, ht]
  simpa using hu.symm

/-- What an action of one thread does to another; if that holds the waiter lock, this does less. -/
lemma At.frame (hA : At u m q) (hl : m'.waiterLock = m.waiterLock)
    (hm : q.locks → m'.count = m.count ∧ m'.waiters = m.waiters) (hplace : Placed u m' q)
    (hpass : ∀ th k, m'.roles th = .passed u k ↔ m.roles th = .passed u k) : At u m' q := by
  refine ⟨by rw [hl, hA.locks], hplace, fun th => ?_, hA.nodup, fun h => ?_, ?_⟩
  · rw [← hA.passes th]
    exact exists_congr fun k => hpass th k
  · obtain ⟨hc, hw⟩ := hm h
    unfold Settled
    rw [hc, hw]
    exact hA.settled h
  · rintro rfl
    obtain ⟨hc, hw⟩ := hm rfl
    rw [hc, hw]
    exact hA.granting rfl

structure Keeps (t : θ) (m m' : Shared θ) (pc : Pc θ) : Prop where
  good : Good m'
  own : At t m' pc
  other : ∀ {u q}, u ≠ t → At u m q → At u m' q

lemma spin_keeps {l : Option θ} (hG : Good m) (hA : At t m pc) (hl : l = some t ↔ q.locks)
    (hother : ∀ u, u ≠ t → (l = some u ↔ m.waiterLock = some u))
    (hpc : pc.Like q) (hq : q ≠ .granting) (hset : l = none ∨ q.locks → Settled m) :
    Keeps t m { m with waiterLock := l } q := by
  obtain ⟨hpark, hrole, htmp, hw⟩ := hpc
  obtain ⟨hr, hm⟩ := hA.of_not_parked hpark
  refine ⟨⟨hG.counted, hG.waiterCount, fun h => hset (.inl h), hG.nodup, hG.ready, hG.readyNodup,
    hG.order⟩, ⟨hl, .inl ⟨?_, fun k => ?_⟩, fun th => ?_, ?_, fun h _ => hset (.inr h), ?_⟩,
    fun hu hA => ?_⟩
  · exact hr.trans hrole.symm
  · exact (hm k).trans (hw k).symm
  · rw [htmp]
    exact hA.passes th
  · rw [htmp]
    exact hA.nodup
  · exact fun h => absurd h hq
  · exact ⟨(hother _ hu).trans hA.locks, hA.place, hA.passes, hA.nodup, hA.settled, hA.granting⟩

lemma spinLock_keeps (hG : Good m) (hA : At t m pc) (h : spinLock t m q = .ok (m', pc'))
    (hl : q.locks) (hpc : pc.Like q) (hq : q ≠ .granting) : Keeps t m m' pc' := by
  unfold spinLock at h
  split at h
  · rename_i hnone
    cases h
    refine spin_keeps hG hA (by simp [hl]) (fun u hu => ?_) hpc hq fun _ => hG.settled hnone
    simp [hnone, hu.symm]
  · cases h

lemma spinUnlock_keeps (hG : Good m) (hA : At t m pc) (h : spinUnlock m q = .ok (m', pc'))
    (hpl : pc.locks ∧ pc ≠ .granting) (hl : q.locks = false) (hpc : pc.Like q)
    (hq : q ≠ .granting) : Keeps t m m' pc' := by
  cases h
  have ht : m.waiterLock = some t := hA.locks.2 hpl.1
  refine spin_keeps hG hA (by simp [hl]) (fun u hu => ?_) hpc hq fun _ => hA.settled hpl.1 hpl.2
  simp [ht, hu.symm]

lemma Role.mode_eq_none : r.mode = .none ↔ r = .none := by
  cases r <;> simp

lemma Good.roles_eq_none (hG : Good m) (hc : m.count = 0) (u : θ) : m.roles u = .none :=
  Role.mode_eq_none.1 ((hc ▸ hG.counted).mode_eq_none u)

lemma enter_keeps (hG : Good m) (hA : At t m pc) (hpc : pc.locks = false) (hl : q.locks = false)
    (hq : pc.Like q) : Keeps t m m q := by
  refine spin_keeps hG hA (hA.locks.trans (by rw [hpc, hl])) (fun _ _ => Iff.rfl) hq ?_ fun h => ?_
  · rintro rfl
    cases hl
  · exact hG.settled (h.resolve_right (by simp [hl]))

lemma owns_iff {s : Sys θ} (hA : At t s.shared (s.own t)) : Owns s t k ↔ (s.shared.roles t).mode = some k := by
  constructor
  · rintro (h | ⟨hpc, hw⟩)
    · rw [(hA.of_not_parked (by rintro k' hpc; simp [hpc] at h)).1, h]
      rfl
    · rcases hA.place with ⟨-, hm⟩ | ⟨k', hpc', hr, -⟩
      · exact absurd ((hm k).2 (.inr hpc)) hw
      · rw [hpc] at hpc'
        cases hpc'
        rcases hr with hr | ⟨u, hr⟩ <;> rw [hr] <;> rfl
  · intro h
    rcases hA.place with ⟨hr, -⟩ | ⟨k', hpc, hr, hw⟩
    · rw [hr] at h
      refine .inl ?_
      cases hpc : s.own t <;> simp_all
    · obtain rfl : k' = k := by
        rcases hr with hr | ⟨u, hr⟩ <;> rw [hr] at h <;> exact Option.some.inj h
      exact .inr ⟨hpc, hw k'⟩

/-- A parked thread is on its list, or it has been given the lock and is in one place, from which it
will be made runnable or resumed. -/
lemma parked_cases {s : Sys θ} (hG : Good s.shared)
    (hA : ∀ t, At t s.shared (s.own t)) (h : s.own t = .parked k) :
    t ∈ s.shared.waiters k ∧ t ∉ s.shared.ready ∧ (∀ u, t ∉ (s.own u).tmp) ∨
      t ∉ s.shared.waiters k ∧ (t ∈ s.shared.ready ∧ (∀ u, t ∉ (s.own u).tmp) ∨
        t ∉ s.shared.ready ∧ ∃ u, t ∈ (s.own u).tmp ∧ ∀ v, t ∈ (s.own v).tmp → v = u) := by
  have htmp : ∀ u, t ∈ (s.own u).tmp ↔ ∃ k, s.shared.roles t = .passed u k := fun u =>
    ((hA u).passes t).symm
  rcases (hA t).place with ⟨hr, hm⟩ | ⟨k', hpc, hr, hw⟩
  · rw [h] at hr hm
    refine .inl ⟨(hm k).2 (.inr rfl), ?_, fun u => ?_⟩
    · simp [hG.ready, hr]
    · rw [htmp, hr]
      simp
  · refine .inr ⟨hw k, ?_⟩
    rcases hr with hr | ⟨u, hr⟩
    · exact .inl ⟨(hG.ready t).2 ⟨k', hr⟩, fun u => by rw [htmp, hr]; simp⟩
    · refine .inr ⟨by simp [hG.ready, hr], u, (htmp u).2 ⟨k', hr⟩, fun v hv => ?_⟩
      obtain ⟨k'', hv⟩ := (htmp v).1 hv
      rw [hr] at hv
      cases hv
      rfl

variable [DecidableEq θ]

lemma Placed.update (h : Placed u m q) (hu : u ≠ t)
    (hr : m'.roles = update m.roles t r) (hw : ∀ k, u ∈ m'.waiters k ↔ u ∈ m.waiters k) : Placed u m' q := by
  unfold Placed
  simp only [hw, hr, update_of_ne hu]
  exact h

lemma passed_update (hold : ∀ k, m.roles t ≠ .passed u k)
    (hnew : ∀ k, r ≠ .passed u k) (th : θ) (k : Access) :
    update m.roles t r th = .passed u k ↔ m.roles th = .passed u k := by
  by_cases hth : th = t
  · subst hth
    simp [hold, hnew]
  · rw [update_of_ne hth]

lemma mode_update : (fun u => (update m.roles t r u).mode) = update (fun u => (m.roles u).mode) t r.mode := by
  funext u
  by_cases hu : u = t
  · simp [hu]
  · simp [hu]

lemma own_keeps {c : ℤ} {l : List θ} (hG : Good m) (hA : At t m pc) (hold : ∀ u k, m.roles t ≠ .passed u k)
    (hw : ∀ k, t ∉ m.waiters k) (hc : pc.locks ∨ c = m.count)
    (hcount : Counted (update (fun u => (m.roles u).mode) t q.role.mode) c) (hl : l = m.ready.erase t)
    (hq : q.locks = pc.locks ∧ pc.tmp = [] ∧ q.tmp = [] ∧ ∀ k, q ≠ .parking k ∧ q ≠ .parked k)
    (hset : q.locks → q ≠ .granting → (0 ≤ c → m.waiters .read = []) ∧ (c = 0 → m.waiters .write = []))
    (hgrant : q = .granting → 0 ≤ c ∧ (c ≠ 0 → m.waiters .read = [])) :
    Keeps t m { m with count := c, ready := l, roles := update m.roles t q.role } q := by
  obtain ⟨hlocks, hpt, hqt, hpark⟩ := hq
  have hnew : ∀ u k, q.role ≠ .woken k ∧ q.role ≠ .passed u k := by
    cases q <;> simp
  have hpass : ∀ u th k, update m.roles t q.role th = .passed u k ↔ m.roles th = .passed u k :=
    fun u => passed_update (hold u) fun k => (hnew u k).2
  refine ⟨⟨?_, hG.waiterCount, fun h => ?_, hG.nodup, fun u => ?_, hl ▸ hG.readyNodup.erase t, hG.order⟩,
    ⟨?_, .inl ⟨update_self .., fun k => ?_⟩, fun th => ?_, ?_, hset, hgrant⟩, fun hu hA' => ?_⟩
  · rw [mode_update]
    exact hcount
  · rcases hc with hc | rfl
    · cases (hA.locks.2 hc).symm.trans h
    · exact hG.settled h
  · rw [hl, hG.readyNodup.mem_erase_iff, hG.ready u]
    by_cases hu : u = t
    · simpa [hu, -Pc.role] using fun k => (hnew t k).1
    · simp [hu]
  · rw [hlocks]
    exact hA.locks
  · exact iff_of_false (hw k) (by simp [hpark])
  · rw [exists_congr fun k => hpass t th k, hA.passes th, hpt, hqt]
  · rw [hqt]
    exact nodup_nil
  · refine hA'.frame rfl (fun hq => ?_) (hA'.place.update hu rfl fun _ => Iff.rfl) (hpass _)
    exact ⟨hc.resolve_left fun hp => hA'.not_locks hu (hA.locks.2 hp) hq, rfl⟩

lemma take_keeps {try_ : Bool} {c : ℤ} (hG : Good m) (hA : At t m (.deciding k try_))
    (hcount : Counted (update (fun u => (m.roles u).mode) t (some k)) c)
    (hset : (0 ≤ c → m.waiters .read = []) ∧ (c = 0 → m.waiters .write = [])) :
    Keeps t m (m.take t k c) (.counted k) := by
  obtain ⟨hr, hm⟩ := hA.of_not_parked (by simp)
  have ht : t ∉ m.ready := by simp [hG.ready, hr]
  exact own_keeps (q := .counted k) hG hA (by simp [hr]) (by simpa using hm) (.inl rfl) hcount
    (erase_of_not_mem ht).symm (by simp [Pc.locks]) (fun _ _ => hset) (by simp)

lemma enqueue_keeps {try_ : Bool} {c : ℤ} (hG : Good m) (hA : At t m (.deciding k try_))
    (hc : c = ((m.enqueue t k).waiters .read).length) (hset : Settled (m.enqueue t k)) :
    Keeps t m { m.enqueue t k with readWaiterCount := c } (.parking k) := by
  obtain ⟨hr, hm⟩ := hA.of_not_parked (by simp)
  have hl : m.waiterLock = some t := hA.locks.2 rfl
  have ht : ∀ k, t ∉ m.waiters k := by simpa using hm
  have hmem : ∀ {u}, u ≠ t → ∀ k', u ∈ (m.enqueue t k).waiters k' ↔ u ∈ m.waiters k' := by
    intro u hu k'
    by_cases hk : k' = k
    · subst hk
      simp [hu]
    · simp [hk]
  refine ⟨⟨hG.counted, hc, by simp [hl], fun k' => ?_, hG.ready, hG.readyNodup,
    fun k' => ?_⟩, ⟨hA.locks, .inl ⟨hr, fun k' => ?_⟩, hA.passes, nodup_nil, fun _ _ => hset,
    by simp⟩, fun {u q} hu hq => ?_⟩
  · by_cases hk : k' = k
    · subst hk
      simp only [Shared.enqueue, update_self]
      exact List.Nodup.append (hG.nodup k') (nodup_singleton t) (by simpa using ht k')
    · simpa [hk] using hG.nodup k'
  · by_cases hk : k' = k
    · subst hk
      simp [hG.order]
    · simp [hk, hG.order]
  · by_cases hk : k' = k
    · subst hk
      simp
    · simp [hk, ht, Ne.symm hk]
  · exact hq.frame rfl (fun h => absurd h (hq.not_locks hu hl))
      (hq.place.update (t := t) (r := m.roles t) hu (by simp) (hmem hu)) fun _ _ => Iff.rfl

lemma deciding_keeps {try_ : Bool} (hG : Good m) (hA : At t m (.deciding k try_))
    (h : next t m (.deciding k try_) = .ok (m', pc')) : Keeps t m m' pc' := by
  have hset := hA.settled rfl (by simp)
  have hnone : (m.roles t).mode = none := by
    rw [(hA.of_not_parked (by simp)).1]
    rfl
  have hrefuse : Keeps t m m .refused :=
    spin_keeps hG hA hA.locks (fun _ _ => Iff.rfl) (by simp [Pc.Like]) (by simp) fun _ => hset
  cases k with
  | read =>
    simp only [next] at h
    split at h
    · rename_i hc
      cases h
      refine take_keeps hG hA (hG.counted.share hc hnone) ⟨?_, ?_⟩
      · exact fun _ => hset.1 hc
      · intro h
        omega
    · rename_i hc
      split at h
      · cases h
        exact hrefuse
      · cases h
        refine enqueue_keeps hG hA ?_ ⟨fun h => absurd h hc, fun h => absurd h.ge hc⟩
        simp [hG.waiterCount]
  | write =>
    simp only [next] at h
    split at h
    · rename_i hc
      cases h
      refine take_keeps hG hA ?_ (by simp)
      have hx := Counted.exclude (hc ▸ hG.counted) t
      convert hx using 1
      funext u
      by_cases hu : u = t
      · simp [hu]
      · simp [hu]
    · rename_i hc
      split at h
      · cases h
        exact hrefuse
      · cases h
        refine enqueue_keeps hG hA ?_ ⟨?_, fun h => absurd h hc⟩
        · simp [hG.waiterCount]
        · simpa using hset.1

lemma parked_keeps (hG : Good m) (hA : At t m (.parked k)) (h : t ∈ m.ready) :
    Keeps t m { m with
      ready := m.ready.erase t, roles := update m.roles t (.owner k) } (.owner k) := by
  obtain ⟨k', hk⟩ := (hG.ready t).1 h
  obtain ⟨hr, hw⟩ : m.roles t = .woken k ∧ ∀ k, t ∉ m.waiters k := by
    rcases hA.place with ⟨hr, -⟩ | ⟨k, hpc, hr, hw⟩
    · rw [hk] at hr
      cases hr
    · cases hpc
      rcases hr with hr | ⟨u, hr⟩
      · exact ⟨hr, hw⟩
      · rw [hk] at hr
        cases hr
  refine own_keeps (q := .owner k) hG hA (by simp [hr]) hw (.inr rfl) ?_ rfl (by simp [Pc.locks])
    (by simp [Pc.locks]) (by simp)
  rw [update_eq_self_iff.2]
  · exact hG.counted
  · simp [hr]

lemma giving_keeps (hG : Good m) (hA : At t m (.giving k)) :
    Keeps t m { m with
      count := if m.count < 0 then 0 else m.count - 1
      roles := update m.roles t .none } .granting := by
  obtain ⟨hr, hm⟩ := hA.of_not_parked (by simp)
  have hset := hA.settled rfl (by simp)
  have hmode : (m.roles t).mode = some k := by
    rw [hr]
    rfl
  have hcount : Counted (update (fun u => (m.roles u).mode) t none) (if m.count < 0 then 0 else m.count - 1) ∧
      (0 ≤ m.count ∨ m.count = -1) ∧ m.count ≠ 0 := by
    cases k with
    | read =>
      obtain ⟨hpos, hc⟩ := hG.counted.drop_read hmode
      rw [if_neg (by omega)]
      exact ⟨hc, .inl hpos.le, hpos.ne'⟩
    | write =>
      obtain ⟨hneg, hc⟩ := hG.counted.drop_write hmode
      rw [if_pos (by omega)]
      exact ⟨hc, .inr hneg, by omega⟩
  obtain ⟨hcount, hsign, hnz⟩ := hcount
  have ht : t ∉ m.ready := by simp [hG.ready, hr]
  refine own_keeps (q := .granting) hG hA (by simp [hr]) (by simpa using hm) (.inl rfl) hcount
    (erase_of_not_mem ht).symm (by simp [Pc.locks]) (by simp) fun _ => ⟨?_, fun hne => ?_⟩
  · split <;> omega
  · split at hne
    · omega
    · exact hset.1 (by omega)

lemma pass_keeps {ws rest : List θ} {c n : ℤ} (hG : Good m) (hA : At t m .granting)
    (hw : m.waiters k = ws ++ rest) (hc : m.count = 0)
    (hcount : Counted (fun u => if u ∈ ws then some k else (m.roles u).mode) c)
    (hn : n = ((update m.waiters k rest) .read).length) (hset : Settled (m.pass t k ws rest c n)) :
    Keeps t m (m.pass t k ws rest c n) (.handing ws) := by
  obtain ⟨hr, hm⟩ := hA.of_not_parked (by simp)
  have hl : m.waiterLock = some t := hA.locks.2 rfl
  have hnone := hG.roles_eq_none hc
  have hnodup := hG.nodup k
  rw [hw] at hnodup
  have ht : ∀ k, t ∉ m.waiters k := by simpa using hm
  have htw : t ∉ ws ++ rest := hw ▸ ht k
  have hrest : ∀ u k', u ∈ update m.waiters k rest k' → u ∈ m.waiters k' := by
    intro u k' h
    by_cases hk : k' = k
    · subst hk
      rw [update_self] at h
      simp [hw, h]
    · rwa [update_of_ne hk] at h
  refine ⟨⟨?_, hn, by simp [hl], fun k' => ?_, fun u => ?_, hG.readyNodup, fun k' => ?_⟩,
    ⟨hA.locks, .inl ⟨?_, fun k' => ?_⟩, fun th => ?_, hnodup.of_append_left, fun _ _ => hset, by simp⟩,
    fun {u q} hu hq => ?_⟩
  · show Counted (fun u => (if u ∈ ws then Role.passed t k else m.roles u).mode) c
    convert hcount using 2 with u
    split <;> rfl
  · by_cases hk : k' = k
    · subst hk
      simpa using hnodup.of_append_right
    · simpa [hk] using hG.nodup k'
  · have hready := hG.ready u
    simp only [hnone, reduceCtorEq, exists_false, iff_false] at hready
    simp only [Shared.pass, hready, hnone, false_iff, not_exists]
    intro k'
    split <;> simp
  · by_cases hk : k' = k
    · subst hk
      simp [hG.order, hw]
    · simp [hk, hG.order]
  · simp only [mem_append, not_or] at htw
    simp [htw.1, hnone]
  · simpa using fun h => ht k' (hrest t k' h)
  · simp only [Shared.pass, hnone, Pc.tmp]
    by_cases hth : th ∈ ws
    · simp [hth]
    · simp [hth]
  · refine hq.frame rfl (fun h => absurd h (hq.not_locks hu hl)) ?_ fun th k' => ?_
    · obtain ⟨-, hqm⟩ := hq.place.resolve_right (by simp [hnone])
      by_cases huw : u ∈ ws
      · -- a waiter that does not hold the waiter lock has parked
        have hpc : q = .parked k := by
          rcases (hqm k).1 (by simp [hw, huw]) with rfl | rfl
          · exact absurd rfl (hq.not_locks hu hl)
          · rfl
        subst hpc
        refine .inr ⟨k, rfl, .inr ⟨t, by simp [huw]⟩, fun k' h => ?_⟩
        by_cases hk : k' = k
        · subst hk
          simp only [Shared.pass, update_self] at h
          exact (nodup_append.1 hnodup).2.2 u huw u h rfl
        · have := (hqm k').1 (hrest u k' h)
          simp [Ne.symm hk] at this
      · unfold Placed
        have hmem : ∀ k', u ∈ (m.pass t k ws rest c n).waiters k' ↔ u ∈ m.waiters k' := by
          intro k'
          by_cases hk : k' = k
          · subst hk
            simp [hw, huw]
          · simp [hk]
        simp only [hmem, show (m.pass t k ws rest c n).roles u = m.roles u by simp [huw]]
        exact hq.place
    · simp only [Shared.pass, hnone]
      split
      · simp [hu.symm]
      · simp

lemma granting_keeps (hG : Good m) (hA : At t m .granting)
    (h : next t m .granting = .ok (m', pc')) : Keeps t m m' pc' := by
  obtain ⟨hnn, hread⟩ := hA.granting rfl
  simp only [next] at h
  split at h
  · rename_i hc
    cases h
    refine pass_keeps hG hA (by simp) hc.1 ?_ (by simp) ⟨?_, ?_⟩
    · rw [hG.waiterCount]
      exact (hc.1 ▸ hG.counted).share_all (hG.nodup .read)
    · simp
    · exact fun h => absurd h hc.2.ne'
  · rename_i hc
    -- nobody waits to read any more
    have hr : m.waiters .read = [] := by
      by_cases h0 : m.count = 0
      · have hle : ¬ 0 < m.readWaiterCount := fun h => hc ⟨h0, h⟩
        rw [hG.waiterCount] at hle
        exact eq_nil_of_length_eq_zero (by omega)
      · exact hread h0
    have hdone : (m.count = 0 → m.waiters .write = []) → Keeps t m m (.handing []) := fun hw =>
      spin_keeps hG hA hA.locks (fun _ _ => Iff.rfl) (by simp [Pc.Like]) (by simp) fun _ => ⟨fun _ => hr, hw⟩
    split at h
    · rename_i h0
      split at h
      · rename_i hw
        cases h
        exact hdone fun _ => hw
      · rename_i th ws hw
        cases h
        refine pass_keeps hG hA (by simp [hw]) h0 ?_ ?_ ⟨?_, ?_⟩
        · simpa using (h0 ▸ hG.counted).exclude th
        · simp [hG.waiterCount]
        · simp
        · simp
    · rename_i h0
      cases h
      exact hdone fun h => absurd h h0

lemma waking_keeps {th : θ} {tmp : List θ} (hG : Good m) (hA : At t m (.waking (th :: tmp)))
    (h : next t m (.waking (th :: tmp)) = .ok (m', pc')) : Keeps t m m' pc' := by
  obtain ⟨hr, hm⟩ := hA.of_not_parked (by simp)
  obtain ⟨k, hk⟩ := (hA.passes th).2 (by simp)
  have hne : t ≠ th := by
    rintro rfl
    rw [hk] at hr
    cases hr
  have hth : th ∉ m.ready := by simp [hG.ready, hk]
  simp only [next, hk] at h
  cases h
  refine ⟨⟨?_, hG.waiterCount, hG.settled, hG.nodup, fun u => ?_, ?_, hG.order⟩,
    ⟨hA.locks, .inl ⟨?_, by simpa using hm⟩, fun u => ?_, hA.nodup.of_cons, by simp [Pc.locks],
    by simp⟩, fun {u q} hu hq => ?_⟩
  · rw [mode_update, update_eq_self_iff.2]
    · exact hG.counted
    · simp [hk]
  · rw [mem_append, hG.ready u]
    by_cases hu : u = th
    · simp [hu]
    · simp [hu]
  · exact List.Nodup.append hG.readyNodup (nodup_singleton th) (by simpa using hth)
  · simp [update_of_ne hne, hr]
  · have hu := hA.passes u
    by_cases huth : u = th
    · subst huth
      simpa using (nodup_cons.1 hA.nodup).1
    · simpa [huth] using hu
  · refine hq.frame rfl (fun _ => ⟨rfl, rfl⟩) ?_ (passed_update (by simp [hk, hu.symm]) (by simp))
    by_cases huth : u = th
    · subst huth
      rcases hq.place with ⟨hqr, -⟩ | ⟨k', hpc, hqr, hqw⟩
      · rw [hk] at hqr
        cases q <;> cases hqr
      · refine .inr ⟨k', hpc, .inl ?_, hqw⟩
        rw [hk] at hqr
        rcases hqr with hqr | ⟨u', hqr⟩
        · cases hqr
        · cases hqr
          simp
    · exact hq.place.update huth rfl fun _ => Iff.rfl

lemma next_keeps (hG : Good m) (hA : At t m pc) (h : next t m pc = .ok (m', pc')) : Keeps t m m' pc' := by
  cases pc with
  | entering k try_ =>
    exact spinLock_keeps hG hA h rfl (by simp [Pc.Like]) (by simp)
  | deciding k try_ => exact deciding_keeps hG hA h
  | parked k =>
    simp only [next] at h
    split at h
    · cases h
      exact parked_keeps hG hA (by assumption)
    · cases h
  | leaving k => exact spinLock_keeps hG hA h rfl (by simp [Pc.Like]) (by simp)
  | giving k =>
    cases h
    exact giving_keeps hG hA
  | granting => exact granting_keeps hG hA h
  | waking tmp =>
    cases tmp with
    | nil =>
      cases h
      exact spin_keeps hG hA hA.locks (fun _ _ => Iff.rfl) (by simp [Pc.Like]) (by simp)
        fun h => hG.settled (h.resolve_right (by simp [Pc.locks]))
    | cons th tmp => exact waking_keeps hG hA h
  | counted k | refused | parking k | handing tmp =>
    exact spinUnlock_keeps hG hA h (by simp [Pc.locks]) rfl (by simp [Pc.Like]) (by simp)
  | out | owner k => cases h

lemma act_keeps {e : Event} (hG : Good m) (hA : At t m pc) (h : act t e m pc = .ok (m', pc')) : Keeps t m m' pc' := by
  unfold act at h
  split at h
  case h_6 => exact next_keeps hG hA h
  case h_7 => cases h
  all_goals
    cases h
    exact enter_keeps hG hA rfl rfl (by simp [Pc.Like])

lemma outline : Threads.Outline (θ := θ) act (fun _ _ _ _ => True) Good At where
  own hG hA _ h := ⟨(act_keeps hG hA h).good, (act_keeps hG hA h).own⟩
  other hu hG hA hq _ h := (act_keeps hG hA h).other hu hq

lemma reaches_outline {s : Sys θ} (hs : Run.Reaches step (fun _ _ => True) Initial s) :
    Good s.shared ∧ ∀ t, At t s.shared (s.own t) := by
  refine outline.reaches ?_ hs
  rintro s ⟨hm, hpc⟩
  rw [hm]
  refine ⟨⟨.none, rfl, fun _ => ⟨fun _ => rfl, fun _ => rfl⟩, fun _ => nodup_nil, by simp,
    nodup_nil, fun _ => rfl⟩, fun t => ?_⟩
  rw [hpc t]
  exact ⟨by simp [Pc.locks], .inl ⟨rfl, by simp⟩, by simp, nodup_nil, by simp [Pc.locks], by simp⟩

/-! ## Ownership -/

/-- `count` is -1 exactly when a writer owns the lock, alone, and a positive `n` exactly when `n` readers own it.
`read_waiter_count` is the length of its list, and both lists are empty when `count` is 0 and the waiter lock is free.
Who has been put on a list is on it or has been taken off it once, in order. -/
theorem rwmutex_correct {s : Sys θ} (hs : Run.Reaches step (fun _ _ => True) Initial s) :
    (s.shared.count = -1 ↔ ∃ t, Owns s t .write) ∧
    (∀ t, Owns s t .write → ∀ u k, Owns s u k → u = t ∧ k = .write) ∧
    (∀ n : ℕ, 0 < n → (s.shared.count = n ↔
      ∃ R : Finset θ, (∀ t, t ∈ R ↔ Owns s t .read) ∧ R.card = n)) ∧
    s.shared.readWaiterCount = (s.shared.waiters .read).length ∧
    (s.shared.count = 0 → s.shared.waiterLock = none → ∀ k, s.shared.waiters k = []) ∧
    (∀ k, s.shared.queued k = s.shared.granted k ++ s.shared.waiters k) ∧
    ∀ t k, s.own t = .parked k →
      t ∈ s.shared.waiters k ∧ t ∉ s.shared.ready ∧ (∀ u, t ∉ (s.own u).tmp) ∨
      t ∉ s.shared.waiters k ∧ (t ∈ s.shared.ready ∧ (∀ u, t ∉ (s.own u).tmp) ∨
        t ∉ s.shared.ready ∧ ∃ u, t ∈ (s.own u).tmp ∧ ∀ v, t ∈ (s.own v).tmp → v = u) := by
  obtain ⟨hG, hA⟩ := reaches_outline hs
  have howns := fun t k => owns_iff (k := k) (hA t)
  refine ⟨?_, fun t ht u k hu => ?_, fun n hn => ⟨fun h => ?_, ?_⟩, hG.waiterCount, ?_, hG.order,
    fun t k => parked_cases hG hA⟩
  · rw [hG.counted.neg_iff]
    exact exists_congr fun t => (howns t .write).symm
  · rw [howns] at ht hu
    obtain rfl := hG.counted.writer_unique ht (u := u) (by rw [hu]; simp)
    exact ⟨rfl, Option.some.inj (hu.symm.trans ht)⟩
  · obtain ⟨R, hR, -, hc⟩ := hG.counted.readers (by omega)
    exact ⟨R, fun t => by rw [howns, hR], by omega⟩
  · rintro ⟨R, hR, rfl⟩
    rcases hG.counted with ⟨R', hR', -, hc⟩ | ⟨w, hw, hnone, -⟩
    · rw [hc]
      congr 2
      ext t
      rw [hR, howns, hR']
    · obtain ⟨t, ht⟩ := Finset.card_pos.1 hn
      rw [hR, howns] at ht
      by_cases h : t = w
      · subst h
        cases ht.symm.trans hw
      · cases ht.symm.trans (hnone t h)
  · rintro hc hl (_ | _)
    · exact (hG.settled hl).1 hc.ge
    · exact (hG.settled hl).2 hc

def initSys : Sys (Fin 3) := ⟨⟨0, 0, none, fun _ => [], [], fun _ => .none, fun _ => [], fun _ => []⟩, fun _ => .out⟩

theorem rwmutex_correct_two_readers : ∃ s : Sys (Fin 3),
    Run.Reaches step (fun _ _ => True) Initial s ∧
      (s.own 0 = .handing [1, 2] ∧ s.own 1 = .parked .read ∧ s.own 2 = .parked .read) ∧
      ∃ R : Finset (Fin 3), (∀ t, t ∈ R ↔ Owns s t .read) ∧ R.card = 2 := by
  obtain ⟨s, hs, hP, hc⟩ := Run.reached step Initial (s := initSys) (P := fun s =>
      (s.own 0 = .handing [1, 2] ∧ s.own 1 = .parked .read ∧ s.own 2 = .parked .read) ∧ s.shared.count = 2)
      [(0, .rwmutexWrlock), (0, .next), (0, .next), (0, .next),
        (1, .rwmutexRdlock), (1, .next), (1, .next), (1, .next),
        (2, .rwmutexRdlock), (2, .next), (2, .next), (2, .next),
        (0, .rwmutexUnlock), (0, .next), (0, .next), (0, .next)]
      ⟨rfl, fun _ => rfl⟩ (by decide)
  exact ⟨s, hs, hP, ((rwmutex_correct hs).2.2.1 2 (by decide)).1 hc⟩

end Aspen.RwMutex
