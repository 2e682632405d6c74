import Aspen.Lib.Run
import Aspen.Tcp.Defs

/-!
# Accepting and dialling

A listener hands out its backlog: `tcp_queue_recv` takes a slot before it drops the lock to build the connection,
and the slot is returned when that fails or when the connection is accepted (`backlog_conserved`).
-/

namespace Aspen.Tcp

open List

/-! ## Listeners -/

/-- `struct tcpqueue`, with the packets for which a call of `tcp_queue_recv` is in `tcp_rx_listener`. -/
structure Tcpqueue (μ κ θ : Type*) where
  conns : List κ
  backlog : ℤ
  shutdown : Bool
  nonblocking : Bool
  wq : List θ
  creating : List μ

namespace Tcpqueue

variable {μ κ θ : Type*}

inductive Event (μ κ θ : Type*) where
  /-- `tcp_queue_recv` up to the call of `tcp_rx_listener` -/
  | recv (m : μ)
  /-- the rest of it; `tcp_rx_listener` has returned `c` -/
  | created (m : μ) (c : Option κ)
  /-- one round of the loop of `tcp_accept` -/
  | accept (t : θ)
  | setNonblocking (b : Bool)
  | qshutdown
  | release

inductive Stop where
  | noCall
  | waiting
  | bug

def tcpListen (backlog : ℤ) : Option (Tcpqueue μ κ θ) :=
  if backlog < 1 then none else some ⟨[], backlog, false, false, [], []⟩

variable [DecidableEq μ] [DecidableEq θ]

def step (q : Tcpqueue μ κ θ) : Event μ κ θ → Except Stop (Tcpqueue μ κ θ)
  | .recv m =>
    if q.backlog = 0 ∨ q.shutdown then .ok q
    else .ok { q with backlog := q.backlog - 1, creating := m :: q.creating }
  | .created m c =>
    if m ∉ q.creating then .error .noCall
    else match c with
      | none => .ok { q with backlog := q.backlog + 1, creating := q.creating.erase m }
      | some c => .ok { q with conns := q.conns ++ [c], wq := q.wq.tail, creating := q.creating.erase m }
  | .accept t =>
    if t ∈ q.wq then .error .waiting
    else match q.conns with
      -- `-EPIPE`, `-EAGAIN`, or the thread waits
      | [] => if q.shutdown ∨ q.nonblocking then .ok q else .ok { q with wq := q.wq ++ [t] }
      | _ :: cs => .ok { q with backlog := q.backlog + 1, conns := cs }
  | .setNonblocking b => .ok { q with nonblocking := b }
  | .qshutdown => if q.shutdown then .error .bug else .ok { q with shutdown := true }
  | .release => .ok { q with wq := [] }

def Conserved (n : ℤ) (q : Tcpqueue μ κ θ) : Prop :=
  q.backlog + q.conns.length + q.creating.length = n ∧ 0 ≤ q.backlog

variable {n : ℤ} {q q' : Tcpqueue μ κ θ} {ev : Event μ κ θ}

lemma Conserved.step (hq : Conserved n q) (h : step q ev = .ok q') : Conserved n q' := by
  obtain ⟨hsum, hpos⟩ := hq
  cases ev with
  | recv m =>
    simp only [Tcpqueue.step] at h
    split at h <;> cases h
    · exact ⟨hsum, hpos⟩
    · simp only [Conserved, length_cons]
      omega
  | created m c =>
    obtain ⟨hm, h⟩ := Run.guard_not_eq_ok.1 h
    have hlen := length_erase_add_one (not_not.1 hm)
    cases c <;> cases h <;> simp only [Conserved, length_append, length_singleton] <;> omega
  | accept t =>
    obtain ⟨-, h⟩ := Run.guard_not_eq_ok.1 h
    split at h
    · split at h <;> cases h <;> exact ⟨hsum, hpos⟩
    · rename_i c cs hc
      cases h
      rw [hc, length_cons] at hsum
      simp only [Conserved]
      omega
  | setNonblocking b | release =>
    cases h
    exact ⟨hsum, hpos⟩
  | qshutdown =>
    obtain ⟨-, h⟩ := Run.guard_not_eq_ok.1 h
    cases h
    exact ⟨hsum, hpos⟩

/-- The backlog that is left, which is never negative, the connections that wait and those being created are as many
as the backlog of the listener. -/
theorem backlog_conserved {q₀ : Tcpqueue μ κ θ} (hlisten : tcpListen n = some q₀)
    (hq : Run.Reaches step (fun _ _ => True) (· = q₀) q) :
    q.backlog + q.conns.length + q.creating.length = n ∧ 0 ≤ q.backlog := by
  refine hq.invariant (I := Conserved n) ?_ fun _ _ _ hq _ h => hq.step h
  rintro _ rfl
  unfold tcpListen at hlisten
  split at hlisten <;> cases hlisten
  simp only [Conserved, length_nil]
  omega

theorem backlog_conserved_two : ∃ q : Tcpqueue ℕ ℕ ℕ,
    Run.Reaches step (fun _ _ => True) (· = ⟨[], 2, false, false, [], []⟩) q ∧ (q.conns = [5] ∧ q.creating = []) ∧
      q.backlog + 1 + 0 = 2 := by
  obtain ⟨q, hq, hc, hm⟩ := Run.reached step (· = ⟨[], 2, false, false, [], []⟩)
    (s := (⟨[], 2, false, false, [], []⟩ : Tcpqueue ℕ ℕ ℕ)) (P := fun q => q.conns = [5] ∧ q.creating = [])
    [.recv 1, .recv 2, .created 2 none, .accept 0, .created 1 (some 5)] rfl (by decide)
  refine ⟨q, hq, ⟨hc, hm⟩, ?_⟩
  have h := (backlog_conserved (n := 2) rfl hq).1
  rwa [hc, hm] at h

end Tcpqueue

/-! ## Dialling -/

abbrev Port := BitVec 16

structure Dialer where
  /-- `get_flow_affinity` of the port and the remote address -/
  affinity : Port → BitVec 32
  alloc : Port → Bool
  inUse : Port → Bool
  /-- how the handshake fails, if it does -/
  connect : Port → Option Errno

inductive Dialled where
  | connected | eagain | eaddrinuse
  | failed (err : Errno)

def tcpDial (d : Dialer) (port : Port) : Dialled := if d.alloc port = false then .failed .enomem
  else if d.inUse port then .eaddrinuse
  else match d.connect port with
    | none => .connected
    | some err => .failed err

/-- The loops of `tcp_dial_affinity` from `base` on, with the ports that are tried. -/
def dialFrom (d : Dialer) (inAff : BitVec 32) (start base : Port) : Dialled × List Port :=
  if base + 1 = start then (.eagain, [])
  else if d.affinity (base + 1) ≠ inAff ∨ base + 1 = 0 then dialFrom d inAff start (base + 1)
  else match tcpDial d (base + 1) with
    | .eaddrinuse =>
      let r := dialFrom d inAff start (base + 1)
      (r.1, (base + 1) :: r.2)
    | ret => (ret, [base + 1])
termination_by (start - base - 1).toNat
decreasing_by all_goals bv_omega

/-- `start` is a random number. -/
def tcpDialAffinity (d : Dialer) (inAff : BitVec 32) (start : Port) : Dialled × List Port :=
  dialFrom d inAff start start

variable {d : Dialer} {inAff : BitVec 32} {start base : Port}

lemma tcpDial_ne_eagain (port : Port) : tcpDial d port ≠ .eagain := by
  unfold tcpDial
  split_ifs
  · nofun
  · nofun
  · split <;> nofun

lemma dialFrom_eagain : (dialFrom d inAff start base).1 = .eagain ↔
    ∀ p, p ≠ start → (start - p).toNat ≤ (start - base - 1).toNat → d.affinity p = inAff → p ≠ 0 →
      tcpDial d p = .eaddrinuse := by
  fun_induction dialFrom d inAff start base with
  | case1 base hend =>
    refine iff_of_true rfl fun p hp hle => absurd ?_ hp
    bv_omega
  | case2 base hend hskip ih =>
    rw [ih]
    refine forall_congr' fun p => imp_congr_right fun hp => ⟨fun h hle ha h0 => ?_, fun h hle => h (by bv_omega)⟩
    have hne : p ≠ base + 1 := by
      rintro rfl
      exact hskip.elim (absurd ha) h0
    exact h (by bv_omega) ha h0
  | case3 base hend hskip huse r ih =>
    rw [ih]
    refine forall_congr' fun p => imp_congr_right fun hp => ⟨fun h hle ha h0 => ?_, fun h hle => h (by bv_omega)⟩
    by_cases hne : p = base + 1
    · rw [hne]
      exact huse
    · exact h (by bv_omega) ha h0
  | case4 base hend hskip huse =>
    rw [not_or, not_not] at hskip
    refine iff_of_false (tcpDial_ne_eagain _) fun h => huse ?_
    exact h (base + 1) hend (by bv_omega) hskip.1 hskip.2

lemma dialFrom_nodup : (dialFrom d inAff start base).2.Nodup ∧
    ∀ p ∈ (dialFrom d inAff start base).2, (start - p).toNat ≤ (start - base - 1).toNat := by
  fun_induction dialFrom d inAff start base with
  | case1 base hend => exact ⟨nodup_nil, nofun⟩
  | case2 base hend hskip ih => exact ⟨ih.1, fun p hp => (ih.2 p hp).trans (by bv_omega)⟩
  | case3 base hend hskip huse r ih =>
    refine ⟨nodup_cons.2 ⟨fun hmem => ?_, ih.1⟩, fun p hp => ?_⟩
    · have hle := ih.2 _ hmem
      bv_omega
    · rcases mem_cons.1 hp with rfl | hp
      · bv_omega
      · have hle := ih.2 p hp
        bv_omega
  | case4 base hend hskip huse =>
    refine ⟨nodup_singleton _, fun p hp => ?_⟩
    rw [mem_singleton.1 hp]
    bv_omega

lemma tcpDial_eq_eaddrinuse {port : Port} : tcpDial d port = .eaddrinuse ↔ d.alloc port = true ∧ d.inUse port = true := by
  unfold tcpDial
  split_ifs with halloc huse
  · simp [halloc]
  · simp [halloc, huse]
  · refine iff_of_false ?_ fun h => huse h.2
    split <;> nofun

/-- The search fails only if all ports with the affinity are in use, just if the port at which it starts is not one that
it could use, or if there is another port with the affinity at which it does not go on. It tries no port twice. -/
theorem port_search_exhaustive (d : Dialer) (inAff : BitVec 32) (start : Port) :
    (((tcpDialAffinity d inAff start).1 = .eagain → ∀ p, p ≠ 0 → d.affinity p = inAff → d.inUse p = true) ↔
      start = 0 ∨ d.affinity start ≠ inAff ∨ d.inUse start = true ∨
        ∃ p, p ≠ start ∧ p ≠ 0 ∧ d.affinity p = inAff ∧ (d.alloc p = false ∨ d.inUse p = false)) ∧
    (tcpDialAffinity d inAff start).2.Nodup := by
  refine ⟨⟨fun h => ?_, fun hstart h p h0 ha => ?_⟩, dialFrom_nodup.1⟩
  · by_contra hcon
    push Not at hcon
    obtain ⟨h0, ha, huse, hall⟩ := hcon
    refine huse (h (dialFrom_eagain.2 fun p hp _ hpa hp0 => ?_) start h0 ha)
    have hp := hall p hp hp0 hpa
    exact tcpDial_eq_eaddrinuse.2 ⟨eq_true_of_ne_false hp.1, eq_true_of_ne_false hp.2⟩
  · have huse {q : Port} (hq : q ≠ start) (h0 : q ≠ 0) (ha : d.affinity q = inAff) :=
      tcpDial_eq_eaddrinuse.1 (dialFrom_eagain.1 h q hq (by bv_omega) ha h0)
    by_cases hp : p = start
    · subst hp
      rcases hstart with hz | hne | hin | ⟨q, hq, hq0, hqa, hfail⟩
      · exact absurd hz h0
      · exact absurd ha hne
      · exact hin
      · rw [(huse hq hq0 hqa).1, (huse hq hq0 hqa).2] at hfail
        exact absurd hfail (by decide)
    · exact (huse hp h0 ha).2

/-- Port 7 has affinity 1 and no other has, and every attempt would succeed. -/
def onlySeven : Dialer := ⟨fun p => if p = 7 then 1 else 0, fun _ => true, fun _ => false, fun _ => none⟩

theorem port_search_exhaustive_seven : (tcpDialAffinity onlySeven 1 3).1 ≠ .eagain := fun h =>
  absurd ((port_search_exhaustive onlySeven 1 3).1.2 (.inr (.inl (by decide))) h 7 (by decide) (by decide)) (by decide)

/-- A search for it that starts there fails. -/
theorem port_search_skips_start : (tcpDialAffinity onlySeven 1 7).1 = .eagain ∧
    onlySeven.affinity 7 = 1 ∧ onlySeven.inUse 7 = false := by
  refine ⟨dialFrom_eagain.2 fun p hp _ ha => absurd ?_ hp, rfl, rfl⟩
  simpa [onlySeven] using ha

end Aspen.Tcp
