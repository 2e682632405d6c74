import Aspen.Lib.Deal
import Mathlib.Data.BitVec

/-!
# The indirection table of receive-side scaling (`directpath/command.c`)

The table that `command_rss_update` sends gives each active queue its own entry and deals the other entries out to the
active queues. Its size is a macro that takes the argument one too low, so that the table is too small for one queue
more than a power of two.
-/

namespace Aspen.Rss

open Function

/-- `__builtin_clz`, which is undefined for zero -/
def clz (x : BitVec 32) : Option ℕ := if x = 0 then none else some x.clz.toNat

def u32Log (val : BitVec 32) : Option ℕ := (clz (val - 1)).map (32 - ·)

/-- The shift is undefined by 32. -/
def u32RoundPow2 (val : BitVec 32) : Option ℕ :=
  (u32Log (val - 1)).bind fun k => if k < 32 then some (2 ^ k) else none

structure Ctx where
  nrQs : BitVec 32
  rqns : ℕ → BitVec 24
  activeRxQueues : ℕ → Bool

/-- The loop over the entries behind those of the queues, of which it copies `k`. -/
def extend {α : Type*} (n : ℕ) (t : ℕ → α) : ℕ → ℕ → α
  | 0 => t
  | k + 1 => update (extend n t k) (n + k) (extend n t k k)

variable (ctx : Ctx) (buf : ℕ → BitVec 24)

/-- The entries of the queues, in a buffer that is static. -/
def Ctx.entries (i : ℕ) : BitVec 24 := let n := ctx.nrQs.toNat
  let activeQs := (List.range n).filter ctx.activeRxQueues
  if i < n then ctx.rqns ((deal activeQs ctx.activeRxQueues id n).1 i) else buf i

def commandRssUpdate : Option (ℕ × (ℕ → BitVec 24)) :=
  (u32RoundPow2 ctx.nrQs).map fun nrEntries =>
    (nrEntries, extend ctx.nrQs.toNat (ctx.entries buf) (nrEntries - ctx.nrQs.toNat))

lemma extend_forall {α : Type*} {n k : ℕ} {t : ℕ → α} {P : α → Prop} (hn : 0 < n) (h : ∀ i < n, P (t i)) :
    (∀ i < n, extend n t k i = t i) ∧ ∀ i < n + k, P (extend n t k i) := by
  induction k with
  | zero => exact ⟨fun _ _ => rfl, h⟩
  | succ k ih =>
    rw [extend]
    refine ⟨fun i hi => (update_of_ne (by omega) ..).trans (ih.1 i hi), fun i hi => ?_⟩
    by_cases he : i = n + k
    · rw [he, update_self]
      exact ih.2 k (by omega)
    · rw [update_of_ne he]
      exact ih.2 i (by omega)

/-- The macro rounds `n - 1` up and not `n`. -/
lemma u32RoundPow2_eq {n : BitVec 32} (h2 : 2 < n.toNat) (hn : n.toNat ≤ 256) :
    ∃ k < 9, u32RoundPow2 n = some (2 ^ k) ∧ n.toNat ≤ 2 ^ k + 1 := by
  have hval : (n - 1 - 1).toNat = n.toNat - 2 := by bv_omega
  have hne : n - 1 - 1 ≠ 0 := by bv_omega
  have hlt := BitVec.toNat_lt_two_pow_sub_clz (x := n - 1 - 1)
  have hle := BitVec.two_pow_sub_clz_le_toNat_of_ne_zero (by decide) hne
  rw [hval] at hlt hle
  have hk : 32 - (n - 1 - 1).clz.toNat < 9 := by
    by_contra hk
    have hpow : 2 ^ 8 ≤ 2 ^ (32 - 1 - (n - 1 - 1).clz.toNat) := Nat.pow_le_pow_right (by decide) (by omega)
    omega
  refine ⟨_, hk, ?_, by omega⟩
  rw [u32RoundPow2, u32Log, clz, if_neg hne]
  exact if_pos (hk.trans (by decide))

lemma Ctx.entries_active {ctx : Ctx} (buf : ℕ → BitVec 24) {q : ℕ} (hq : q < ctx.nrQs.toNat)
    (ha : ctx.activeRxQueues q) : ctx.entries buf q = ctx.rqns q := by
  rw [entries, if_pos hq, deal_skip ha]
  rfl

lemma u32RoundPow2_one : u32RoundPow2 1 = none := by
  decide +kernel

lemma u32RoundPow2_succ_pow : ∀ k < 8,
    u32RoundPow2 (BitVec.ofNat 32 (2 ^ k + 1)) = if k = 0 then none else some (2 ^ k) := by
  decide +kernel

/-- The table has a size that is a power of two and at least the number of queues, an entry of its own for every active
queue, and no entry of a queue that is not active, just if the number of queues is neither one nor one more than a power
of two. -/
theorem rss_table_exact (ctx : Ctx) (buf : ℕ → BitVec 24) (hn : ctx.nrQs.toNat ≤ 256)
    (hactive : ∃ q < ctx.nrQs.toNat, ctx.activeRxQueues q = true) :
    (∃ size t, commandRssUpdate ctx buf = some (size, t) ∧ (∃ k, size = 2 ^ k) ∧ ctx.nrQs.toNat ≤ size ∧
      (∀ q < ctx.nrQs.toNat, ctx.activeRxQueues q = true → t q = ctx.rqns q) ∧
      ∀ i < size, ∃ q < ctx.nrQs.toNat, ctx.activeRxQueues q = true ∧ t i = ctx.rqns q) ↔
    ctx.nrQs.toNat ≠ 1 ∧ ∀ k < 9, ctx.nrQs.toNat ≠ 2 ^ k + 1 := by
  constructor
  · rintro ⟨size, t, h, -, hle, -⟩
    obtain ⟨size', hsize, heq⟩ := Option.map_eq_some_iff.1 h
    obtain rfl : size' = size := congrArg Prod.fst heq
    refine ⟨fun hone => ?_, fun k hk hpow => ?_⟩
    · rw [show ctx.nrQs = 1 from BitVec.eq_of_toNat_eq hone, u32RoundPow2_one] at hsize
      cases hsize
    · have hlt : k < 8 := (Nat.pow_lt_pow_iff_right (by decide : 1 < 2)).1 (by omega : 2 ^ k < 2 ^ 8)
      have hnr : ctx.nrQs = BitVec.ofNat 32 (2 ^ k + 1) := 
        BitVec.eq_of_toNat_eq (by rw [BitVec.toNat_ofNat, Nat.mod_eq_of_lt (by omega), hpow])
      rw [hnr, u32RoundPow2_succ_pow k hlt] at hsize
      split at hsize
      · cases hsize
      · obtain rfl := Option.some.inj hsize
        omega
  · intro hpow
    obtain ⟨q0, hq0, ha0⟩ := hactive
    have h2 : ctx.nrQs.toNat ≠ 2 := hpow.2 0 (by decide)
    obtain ⟨k, hk, hsize, hle⟩ := u32RoundPow2_eq (n := ctx.nrQs) (by omega) hn
    have hle : ctx.nrQs.toNat ≤ 2 ^ k := Nat.le_of_lt_succ (lt_of_le_of_ne hle (hpow.2 k hk))
    have hext := extend_forall (k := 2 ^ k - ctx.nrQs.toNat) (t := ctx.entries buf)
      (P := fun r => ∃ q < ctx.nrQs.toNat, ctx.activeRxQueues q = true ∧ r = ctx.rqns q) (Nat.zero_lt_of_lt hq0) fun i hi => by
        cases ha : ctx.activeRxQueues i with
        | true => exact ⟨i, hi, ha, ctx.entries_active buf hi ha⟩
        | false =>
          have hmem := List.mem_filter.2 ⟨List.mem_range.2 hq0, ha0⟩
          obtain ⟨hq, haq⟩ := List.mem_filter.1 (deal_mem (t := id) (List.length_pos_of_mem hmem) hi ha)
          exact ⟨_, List.mem_range.1 hq, haq, if_pos hi⟩
    refine ⟨2 ^ k, _, by rw [commandRssUpdate, hsize]; rfl, ⟨k, rfl⟩, hle, fun q hq ha => ?_, fun i hi => ?_⟩
    · exact (hext.1 q hq).trans (ctx.entries_active buf hq ha)
    · exact hext.2 i (by omega)

def ends (n : ℕ) : Ctx := ⟨n, BitVec.ofNat 24, fun q => q = 0 || q + 1 = n⟩

theorem rss_table_exact_six : ∃ size t, commandRssUpdate (ends 6) 0 = some (size, t) ∧ 6 ≤ size ∧ t 5 = 5 := by
  obtain ⟨size, t, h, -, hle, hq, -⟩ := (rss_table_exact (ends 6) 0 (by decide) ⟨0, by decide, rfl⟩).2 (by decide)
  exact ⟨size, t, h, hle, hq 5 (by decide) rfl⟩

/-- With three queues the table has two entries, and the last queue gets none. -/
theorem rss_table_drops_queue : (commandRssUpdate (ends 3) 0).map Prod.fst = some 2 ∧
    (ends 3).activeRxQueues 2 = true := by
  decide

end Aspen.Rss
