import Aspen.Net.FlowTable

/-!
# Flow affinity (`mlx5_flow_steering.c`)

The device sends a packet through tables of rules. A table for each protocol has a rule for each port somebody
listens on, which leads to a table by source ports; all other packets go to a table by destination ports. These
two go by the low bits of a port, and lead to the last-level flow groups in turn.
-/

namespace Aspen.Flow.Affinity

open Function List

def portMatchBits : ℕ := 10

def portMask : BitVec 16 := BitVec.ofNat 16 (2 ^ portMatchBits - 1)

structure Packet where
  proto : Proto
  sport : BitVec 16
  dport : BitVec 16

/-- A table with one matcher: rules for the masked port, and where the packets go that no rule matches. -/
structure Tbl (α : Type) where
  mask : BitVec 16
  rules : List (BitVec 16 × α)
  default : α

def Tbl.lookup {α : Type} (t : Tbl α) (port : BitVec 16) : α :=
  ((t.rules.find? fun r => port &&& t.mask == r.1).map Prod.snd).getD t.default

/-- The actions of the rules are last-level flow groups. -/
structure PortMatcherTbl where
  tbl : Tbl ℕ
  useDst : Bool

/-- The counter `pos` of the source is the loop variable. -/
def allocPortMatcher (maxks : ℕ) (useDst : Bool) (portBits : ℕ) : PortMatcherTbl where
  tbl.mask := BitVec.ofNat 16 (2 ^ portBits - 1)
  tbl.rules := (List.range (2 ^ portBits)).map fun i => (BitVec.ofNat 16 i, i % maxks)
  tbl.default := 0
  useDst := useDst

def PortMatcherTbl.lookup (t : PortMatcherTbl) (pkt : Packet) : ℕ :=
  t.tbl.lookup (if t.useDst then pkt.dport else pkt.sport)

/-- The bitmaps, and the rules for destination ports. -/
structure State where
  listenPorts : Port → Bool
  rules : List Port

inductive Event
  /-- whether the device makes the rule is an input -/
  | mlx5RegisterFlow (p : Port) (created : Bool)
  | mlx5DeregisterFlow (p : Port)

variable (es : List Event) (maxks : ℕ) (s : State) (proto : Proto)

def step : Event → State
  | .mlx5RegisterFlow p created =>
    if s.listenPorts p then s
    else if created then ⟨update s.listenPorts p true, p :: s.rules⟩
    else ⟨update (update s.listenPorts p true) p false, s.rules⟩
  | .mlx5DeregisterFlow p => ⟨update s.listenPorts p false, s.rules.erase p⟩

def run : State := es.foldl step ⟨fun _ => false, []⟩

def protoTbl : Tbl PortMatcherTbl where
  mask := .allOnes 16
  rules := (s.rules.filter (·.1 = proto)).map fun p => (p.2, allocPortMatcher maxks false portMatchBits)
  default := allocPortMatcher maxks true portMatchBits

def flowGroup (pkt : Packet) : ℕ := ((protoTbl maxks s pkt.proto).lookup pkt.dport).lookup pkt

def mlx5GetFlowAffinity (localPort remotePort : BitVec 16) : ℕ :=
  if s.listenPorts (proto, localPort) then (remotePort &&& portMask).toNat % maxks
  else (localPort &&& portMask).toNat % maxks

/-! ## The two agree -/

structure Good (s : State) : Prop where
  listens : ∀ p, s.listenPorts p = true ↔ p ∈ s.rules
  nodup : s.rules.Nodup

lemma Good.step {s : State} (h : Good s) (e : Event) : Good (step s e) := by
  cases e with
  | mlx5RegisterFlow p created =>
    dsimp only [Affinity.step]
    split
    · exact h
    rename_i hp
    split
    · refine ⟨fun q => ?_, nodup_cons.2 ⟨fun hm => hp ((h.listens p).2 hm), h.nodup⟩⟩
      by_cases hq : q = p <;> simp [hq, h.listens]
    · rw [update_idem, ← Bool.eq_false_iff.2 hp, update_eq_self]
      exact h
  | mlx5DeregisterFlow p =>
    refine ⟨fun q => ?_, h.nodup.erase p⟩
    by_cases hq : q = p <;> simp [Affinity.step, hq, h.nodup.mem_erase_iff, h.listens]

lemma good_run : Good (run es) := List.foldlRecOn es step ⟨fun _ => by simp, nodup_nil⟩ fun _ h e _ => h.step e

lemma lookup_allocPortMatcher (useDst : Bool) (port : BitVec 16) :
    (allocPortMatcher maxks useDst portMatchBits).tbl.lookup port = (port &&& portMask).toNat % maxks := by
  have hlt : (port &&& portMask).toNat < 2 ^ portMatchBits := by
    have hle : (port &&& portMask).toNat ≤ portMask.toNat := by
      rw [BitVec.toNat_and]
      exact Nat.and_le_right
    exact hle.trans_lt (by decide)
  have hfind : (List.range (2 ^ portMatchBits)).find? (fun i => port &&& portMask == BitVec.ofNat 16 i) =
      some (port &&& portMask).toNat := by
    refine find?_range_eq_some.2 ⟨by simp, mem_range.2 hlt, fun j hj => ?_⟩
    have hne : port &&& portMask ≠ BitVec.ofNat 16 j := by
      intro he
      rw [he, BitVec.toNat_ofNat] at hj
      exact absurd hj (Nat.mod_le _ _).not_gt
    simp [hne]
  have hrules := congrArg (Option.map fun i => i % maxks) hfind
  simpa [Tbl.lookup, allocPortMatcher, find?_map, comp_def, portMask] using congrArg (Option.getD · 0) hrules

lemma lookup_protoTbl (port : BitVec 16) :
    (protoTbl maxks s proto).lookup port = allocPortMatcher maxks ((proto, port) ∉ s.rules) portMatchBits := by
  have hmask : port &&& (protoTbl maxks s proto).mask = port := BitVec.and_allOnes
  rw [Tbl.lookup, hmask]
  cases hf : (protoTbl maxks s proto).rules.find? fun r => port == r.1 with
  | none =>
    have hmem : (proto, port) ∉ s.rules := fun hm =>
      find?_eq_none.1 hf (port, _) (mem_map.2 ⟨(proto, port), by simp [hm], rfl⟩) (beq_self_eq_true port)
    simp [hmem, protoTbl]
  | some r =>
    obtain ⟨p, hp, rfl⟩ := mem_map.1 (mem_of_find?_eq_some hf)
    have hkey := find?_some hf
    obtain rfl : port = p.2 := eq_of_beq hkey
    obtain ⟨hmem, rfl⟩ : p ∈ s.rules ∧ p.1 = proto := by simpa using hp
    simp [hmem]

/-- `mlx5_get_flow_affinity` is right about every packet, whatever flows have been registered and deregistered. -/
theorem flow_affinity_steers (maxks : ℕ) (es : List Event) (pkt : Packet) :
    mlx5GetFlowAffinity maxks (run es) pkt.proto pkt.dport pkt.sport = flowGroup maxks (run es) pkt := by
  rw [flowGroup, lookup_protoTbl, PortMatcherTbl.lookup, lookup_allocPortMatcher, mlx5GetFlowAffinity]
  by_cases h : (pkt.proto, pkt.dport) ∈ (run es).rules
  · rw [if_pos (((good_run es).listens _).2 h)]
    simp [h, allocPortMatcher]
  · rw [if_neg (mt ((good_run es).listens _).1 h)]
    simp [h, allocPortMatcher]

end Aspen.Flow.Affinity
