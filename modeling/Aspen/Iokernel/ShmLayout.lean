import Aspen.Base.Slab
import Aspen.Iokernel.Attach

/-!
# The shared memory of a runtime

`ioqueues_init` of `runtime/ioqueues.c` allocates what a runtime shares with the iokernel from one region, whose
length `estimate_shm_space` computes beforehand; in the default configuration, without directpath. Up to the
egress buffers, what has been allocated and then rounded up to a cache line is at most the estimate.
-/

namespace Aspen.ShmLayout

open Slab (alignUp)
open Shm (controlHdrSize threadSpecSize runtimeInfoSize qPtrsSize)

def pgsize2MB : ℕ := 2097152

structure Block where
  start : ℕ
  size : ℕ

variable (allocated alignment maxks guaranteedks a : ℕ) (reqs : List (ℕ × ℕ))

def next : ℕ := if alignment = 0 then allocated else alignUp allocated alignment

/-- `iok_shm_alloc`, and what is allocated then; none if its `BUG_ON` fires. -/
def iokShmAlloc (len allocated size alignment : ℕ) : Option (Block × ℕ) := let a := next allocated alignment
  if 2 ^ 64 - 1 - a < len ∨ len < a + size then none else some (⟨a, size⟩, a + size)

def allocAll (len : ℕ) : ℕ → List (ℕ × ℕ) → Option (List Block)
  | _, [] => some []
  | allocated, (size, alignment) :: reqs => do
    let (b, allocated) ← iokShmAlloc len allocated size alignment
    let bs ← allocAll len allocated reqs
    return b :: bs

/-- The size of a table of `PACKET_QUEUE_MCOUNT` messages. -/
def lrpcBytes : ℕ := 16 * 4096

def calculateEgressPoolSize : ℕ := alignUp (4096 * 2048 * max 1 guaranteedks * 8) pgsize2MB

def estimateShmSpace : ℕ := let ret := alignUp (controlHdrSize.toNat + threadSpecSize.toNat * maxks) 64
  let ret := ret + alignUp runtimeInfoSize.toNat 64
  let ret := ret + alignUp qPtrsSize.toNat 64 * maxks
  let ret := ret + alignUp lrpcBytes 64 * maxks
  let ret := ret + (alignUp lrpcBytes 64 + alignUp 4 64) * maxks
  let ret := ret + (alignUp lrpcBytes 64 + alignUp 4 64) * maxks
  alignUp (alignUp ret pgsize2MB + calculateEgressPoolSize guaranteedks) pgsize2MB

def ioqueueAlloc (allocWb : Bool) : List (ℕ × ℕ) := (lrpcBytes, 64) :: if allocWb then [(64, 64)] else []

def rings : List (ℕ × ℕ) := ioqueueAlloc false ++ ioqueueAlloc true ++ ioqueueAlloc true

def ioqueuesInit : List (ℕ × ℕ) :=
  [(controlHdrSize.toNat, 0), (threadSpecSize.toNat * maxks, 0), (runtimeInfoSize.toNat, 0)] ++
    (List.replicate maxks (qPtrsSize.toNat, 64) ++ ((List.replicate maxks rings).flatten ++
      [(calculateEgressPoolSize guaranteedks, pgsize2MB)]))

/-! ## Any sequence of calls -/

def stop : ℕ := reqs.foldl (fun a r => next a r.2 + r.1) allocated

lemma le_alignUp {k : ℕ} (hk : k ≠ 0) : a ≤ alignUp a k := by
  have := Nat.div_add_mod' (a + k - 1) k
  have := Nat.mod_lt (a + k - 1) (Nat.pos_of_ne_zero hk)
  unfold alignUp
  omega

lemma le_next (a k : ℕ) : a ≤ next a k := by
  unfold next
  split
  · exact Nat.le_refl a
  · exact le_alignUp a ‹_›

lemma dvd_next {k : ℕ} (hk : k ≠ 0) : k ∣ next a k := by
  rw [next, if_neg hk]
  exact Nat.dvd_mul_left ..

lemma le_stop : a ≤ stop a reqs := by
  induction reqs generalizing a with
  | nil => exact Nat.le_refl a
  | cons r reqs ih => exact ((le_next a r.2).trans (Nat.le_add_right _ _)).trans (ih _)

/-- The blocks are as they were asked for, between `a` and `len`, and one after the other. -/
structure Fits (len a : ℕ) (reqs : List (ℕ × ℕ)) (bs : List Block) : Prop where
  asked : List.Forall₂ (fun r b => b.size = r.1 ∧ (r.2 ≠ 0 → r.2 ∣ b.start)) reqs bs
  inside : ∀ b ∈ bs, a ≤ b.start ∧ b.start + b.size ≤ len
  disjoint : bs.Pairwise fun b c => b.start + b.size ≤ c.start

lemma fits_of_stop {len : ℕ} (hlen : len < 2 ^ 63) (reqs : List (ℕ × ℕ)) (a : ℕ) (h : stop a reqs ≤ len) :
    ∃ bs, allocAll len a reqs = some bs ∧ Fits len a reqs bs := by
  induction reqs generalizing a with
  | nil => exact ⟨[], rfl, .nil, nofun, .nil⟩
  | cons r reqs ih =>
    have ha := le_next a r.2
    have hstop := le_stop (next a r.2 + r.1) reqs
    change stop (next a r.2 + r.1) reqs ≤ len at h
    obtain ⟨bs, hbs, hf⟩ := ih _ h
    have hr : iokShmAlloc len a r.1 r.2 = some (⟨next a r.2, r.1⟩, next a r.2 + r.1) := if_neg (by omega)
    refine ⟨⟨next a r.2, r.1⟩ :: bs, ?_, .cons ⟨rfl, dvd_next a⟩ hf.asked, ?_, .cons (fun b hb => ?_) hf.disjoint⟩
    · simp only [allocAll, hr, hbs, Option.bind_eq_bind, Option.bind_some, Option.pure_def]
    · rintro b (_ | ⟨_, hb⟩)
      · exact ⟨ha, hstop.trans h⟩
      · exact ⟨ha.trans ((Nat.le_add_right ..).trans (hf.inside b hb).1), (hf.inside b hb).2⟩
    · exact (hf.inside b hb).1

/-! ## The calls of `ioqueues_init` -/

lemma stop_append (l l' : List (ℕ × ℕ)) : stop a (l ++ l') = stop (stop a l) l' := List.foldl_append ..

lemma stop_cons (a size k : ℕ) (hk : k ≠ 0) (l : List (ℕ × ℕ)) : stop a ((size, k) :: l) = stop (alignUp a k + size) l := by
  rw [stop, List.foldl_cons, next, if_neg hk, stop]

lemma stop_lines (l : List ℕ) : stop a (l.map fun m => (64 * m, 64)) ≤ alignUp a 64 + 64 * l.sum := by
  induction l generalizing a with
  | nil => exact le_alignUp a (by decide)
  | cons m l ih =>
    have h := ih (alignUp a 64 + 64 * m)
    have hm : alignUp (alignUp a 64 + 64 * m) 64 = alignUp a 64 + 64 * m := by
      unfold alignUp
      omega
    rw [hm] at h
    rw [List.map_cons, stop_cons _ _ _ (by decide), List.sum_cons]
    omega

def lines : List ℕ := List.replicate maxks 2 ++ (List.replicate maxks [1024, 1024, 1, 1024, 1]).flatten

lemma sum_lines : (lines maxks).sum = 3076 * maxks := by
  simp [lines, List.sum_flatten]
  omega

lemma ioqueuesInit_eq : ioqueuesInit maxks guaranteedks =
    [(88, 0), (168 * maxks, 0), (32, 0)] ++ ((lines maxks).map (fun m => (64 * m, 64)) ++
      [(calculateEgressPoolSize guaranteedks, 2097152)]) := by
  simp [ioqueuesInit, controlHdrSize, threadSpecSize, runtimeInfoSize, qPtrsSize, pgsize2MB, lines, rings,
    ioqueueAlloc, lrpcBytes, List.map_flatten]

lemma estimateShmSpace_eq : estimateShmSpace maxks guaranteedks =
    alignUp (alignUp (alignUp (88 + 168 * maxks) 64 + 64 + 128 * maxks + 65536 * maxks + 65600 * maxks +
      65600 * maxks) 2097152 + calculateEgressPoolSize guaranteedks) 2097152 := by
  have h1 : alignUp 32 64 = 64 := by decide
  have h2 : alignUp 128 64 = 128 := by decide
  have h3 : alignUp 65536 64 = 65536 := by decide
  have h4 : alignUp 4 64 = 64 := by decide
  simp [estimateShmSpace, controlHdrSize, threadSpecSize, runtimeInfoSize, qPtrsSize, lrpcBytes, pgsize2MB, h1, h2,
    h3, h4]

lemma stop_ioqueuesInit : stop 0 (ioqueuesInit maxks guaranteedks) ≤ estimateShmSpace maxks guaranteedks := by
  have h0 : stop 0 [(88, 0), (168 * maxks, 0), (32, 0)] = 88 + 168 * maxks + 32 := by simp [stop, next]
  have h1 := stop_lines (88 + 168 * maxks + 32) (lines maxks)
  rw [sum_lines] at h1
  rw [ioqueuesInit_eq, stop_append, h0, stop_append, stop_cons _ _ _ (by decide), estimateShmSpace_eq, stop,
    List.foldl_nil]
  generalize stop _ _ = x at h1 ⊢
  unfold alignUp at *
  omega

/-- Whatever the number of kthreads and of guaranteed cores, the blocks fit. -/
theorem shm_fits {maxks guaranteedks : ℕ} (hmax : maxks ≤ 256) (hg : guaranteedks < 2 ^ 32) :
    ∃ bs, allocAll (estimateShmSpace maxks guaranteedks) 0 (ioqueuesInit maxks guaranteedks) = some bs ∧
      Fits (estimateShmSpace maxks guaranteedks) 0 (ioqueuesInit maxks guaranteedks) bs := by
  refine fits_of_stop ?_ _ 0 (stop_ioqueuesInit maxks guaranteedks)
  have hpool : calculateEgressPoolSize guaranteedks ≤ 2 ^ 60 := by
    unfold calculateEgressPoolSize pgsize2MB alignUp
    omega
  rw [estimateShmSpace_eq]
  unfold alignUp
  omega

theorem shm_fits_many : ∃ bs, allocAll (estimateShmSpace 24 8) 0 (ioqueuesInit 24 8) = some bs ∧
    Fits (estimateShmSpace 24 8) 0 (ioqueuesInit 24 8) bs :=
  shm_fits (by decide) (by decide)

end Aspen.ShmLayout
