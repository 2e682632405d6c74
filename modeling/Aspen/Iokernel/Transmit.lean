import Aspen.Iokernel.Egress

/-!
# No packet is lost or mixed up

Pulling appends to the list of packets that were received, and to the local arrays, from the place where the
batch ended before. Preparing takes its packets from the local arrays, from the place where the mbufs end. The
two places agree unless an earlier call has found the pool empty.
-/

namespace Aspen.Egress

open Run Function List

variable {P : ℕ → Proc}

/-! ## Pulling -/

namespace Polling

variable {f f' : Polling} {t : ℕ}

def pulledFrom (f : Polling) (t : ℕ) : List (BitVec 64) := (f.pulled.filter (·.1 = t)).map Prod.snd

variable (P) in
def InOrder (f : Polling) : Prop := ∀ t, (f.queued t).map (hdrOf P t) = f.pulledFrom t ++ (f.txpktq t).map (hdrOf P t)

structure Same (f f' : Polling) : Prop where
  txpktq : f'.txpktq = f.txpktq
  queued : f'.queued = f.queued
  pulled : f'.pulled = f.pulled

lemma InOrder.of_same (h : f.InOrder P) (hs : f.Same f') : f'.InOrder P := by
  intro t
  rw [pulledFrom, hs.txpktq, hs.queued, hs.pulled]
  exact h t

variable (f t)

lemma pollThread_same : f.Same (f.pollThread t) := by
  unfold pollThread
  split <;> exact ⟨rfl, rfl, rfl⟩

lemma unpollThread_same : f.Same (f.unpollThread t) := by
  unfold unpollThread
  split <;> exact ⟨rfl, rfl, rfl⟩

lemma enable_same : f.Same (f.enable P t) := by
  unfold enable
  split
  · exact ⟨rfl, rfl, rfl⟩
  · obtain ⟨hq, hl, hp⟩ := pollThread_same { f with active := update f.active t true } t
    exact ⟨hq, hl, hp⟩

lemma disable_same : f.Same (f.disable P t) := by
  unfold disable
  dsimp only
  split
  · obtain ⟨hq, hl, hp⟩ := unpollThread_same { f with active := update f.active t false } t
    exact ⟨hq, hl, hp⟩
  · exact ⟨rfl, rfl, rfl⟩

variable {f t}

lemma InOrder.enqueue (h : f.InOrder P) (t : ℕ) (m : Msg) : (f.enqueue t m).InOrder P := by
  intro t'
  have ht := h t'
  show (update f.queued t (f.queued t ++ [m]) t').map (hdrOf P t') =
    f.pulledFrom t' ++ (update f.txpktq t (f.txpktq t ++ [m]) t').map (hdrOf P t')
  by_cases he : t' = t
  · subst he
    rw [update_self, update_self, map_append, map_append, ht, append_assoc]
  · rw [update_of_ne he, update_of_ne he, ht]

lemma InOrder.receive (h : f.InOrder P) {m : Msg} {q : List Msg} (hq : f.txpktq t = m :: q) :
    (f.receive t q (hdrOf P t m)).InOrder P := by
  intro t'
  have ht := h t'
  show (f.queued t').map (hdrOf P t') = ((f.pulled ++ [(t, hdrOf P t m)]).filter (·.1 = t')).map Prod.snd ++
      (update f.txpktq t q t').map (hdrOf P t')
  rw [filter_append, map_append, ht]
  by_cases he : t' = t
  · subst he
    have hf : [(t', hdrOf P t' m)].filter (·.1 = t') = [(t', hdrOf P t' m)] := filter_cons_of_pos (decide_eq_true rfl)
    rw [hq, update_self, hf, append_assoc]
    rfl
  · have hf : [(t, hdrOf P t m)].filter (·.1 = t') = [] :=
      filter_cons_of_neg fun h => he (of_decide_eq_true h).symm
    rw [update_of_ne he, hf, map_nil, append_nil]
    rfl

lemma txDrainQueue_spec {n : ℕ} {hdrs : List (BitVec 64)} (h : f.txDrainQueue P t n = .ok (hdrs, f')) :
    f'.pulled = f.pulled ++ hdrs.map (t, ·) ∧ hdrs.length ≤ n ∧ (f.InOrder P → f'.InOrder P) := by
  induction n generalizing f f' hdrs with
  | zero =>
    cases h
    exact ⟨(append_nil _).symm, Nat.le_refl 0, id⟩
  | succ n ih =>
    unfold txDrainQueue at h
    split at h
    · cases h
      have hsame : f.Same (if f.active t then f else f.unpollThread t) := by
        split
        · exact ⟨rfl, rfl, rfl⟩
        · exact unpollThread_same f t
      exact ⟨hsame.pulled.trans (append_nil _).symm, Nat.zero_le _, fun ho => ho.of_same hsame⟩
    · rename_i m q hq
      split at h
      · split at h
        · rename_i hs f1 hrec
          cases h
          obtain ⟨hp, hlen, ho⟩ := ih hrec
          refine ⟨?_, Nat.succ_le_succ hlen, fun h => ho (h.receive hq)⟩
          rw [hp, map_cons]
          exact append_assoc _ _ _
        · cases h
      · cases h

end Polling

section Arrays

variable {α : Type} {a : ℕ → α} {i : ℕ} {xs : List α}

lemma writeAt_of_lt {k : ℕ} (hk : k < i) : writeAt a i xs k = a k := if_neg (Nat.not_le.2 hk)

lemma writeAt_add {k : ℕ} (hk : k < xs.length) : writeAt a i xs (i + k) = xs[k] := by
  unfold writeAt
  rw [if_pos (Nat.le_add_right i k), Nat.add_sub_cancel_left, getElem?_eq_getElem hk, Option.getD_some]

end Arrays

namespace Batch

variable {b b' b'' : Batch} {l l' : List (ℕ × BitVec 64)} {t : ℕ}

def slot (b : Batch) (i : ℕ) : ℕ × BitVec 64 := (b.threads i, b.hdrs i)

def slots (b : Batch) (i n : ℕ) : List (ℕ × BitVec 64) := (List.range' i n).map b.slot

variable (P) in
/-- The packets `l` have been pulled, and follow in the local arrays those that were there before. -/
structure Pulls (b : Batch) (l : List (ℕ × BitVec 64)) (b' : Batch) : Prop where
  pulled : b'.polling.pulled = b.polling.pulled ++ l
  nPkts : b'.nPkts = b.nPkts + l.length
  old : ∀ i < b.nPkts, b'.slot i = b.slot i
  new : b'.slots b.nPkts l.length = l
  bound : b.nPkts ≤ txBurstSize → b'.nPkts ≤ txBurstSize
  inOrder : b.polling.InOrder P → b'.polling.InOrder P

lemma Pulls.refl (b : Batch) : Pulls P b [] b where
  pulled := (append_nil _).symm
  nPkts := rfl
  old _ _ := rfl
  new := rfl
  bound := id
  inOrder := id

lemma Pulls.trans (h : Pulls P b l b') (h' : Pulls P b' l' b'') : Pulls P b (l ++ l') b'' where
  pulled := by rw [h'.pulled, h.pulled, append_assoc]
  nPkts := by rw [h'.nPkts, h.nPkts, length_append, Nat.add_assoc]
  old i hi := by
    rw [h'.old i, h.old i hi]
    rw [h.nPkts]
    exact Nat.lt_add_right _ hi
  new := by
    -- what the first part has stored lies below the place where the second part starts
    have hold : b''.slots b.nPkts l.length = l := by
      refine Eq.trans (map_congr_left fun i hi => h'.old i ?_) h.new
      rw [h.nPkts]
      exact (mem_range'_1.1 hi).2
    have hnew : b''.slots (b.nPkts + l.length) l'.length = l' := h.nPkts ▸ h'.new
    rw [slots, length_append, ← List.range'_append_1, map_append]
    exact congrArg₂ _ hold hnew
  bound := h'.bound ∘ h.bound
  inOrder := h'.inOrder ∘ h.inOrder

lemma poll_pulls (h : b.poll P t = .ok b') : ∃ l, Pulls P b l b' := by
  unfold poll at h
  split at h
  · rename_i hdrs f hd
    cases h
    obtain ⟨hp, hlen, ho⟩ := Polling.txDrainQueue_spec hd
    refine ⟨hdrs.map (t, ·), hp, ?_, fun i hi => ?_, ?_, fun hb => ?_, ho⟩
    · rw [length_map]
    · exact congrArg₂ Prod.mk (writeAt_of_lt hi) (writeAt_of_lt hi)
    · refine ext_getElem ?_ fun k hk hk' => ?_
      · rw [slots, length_map, length_range']
      rw [length_map] at hk'
      simp only [slots, getElem_map, getElem_range', Nat.one_mul]
      refine congrArg₂ Prod.mk (Eq.trans (writeAt_add ?_) ?_) (writeAt_add hk')
      · rwa [length_map]
      · rw [getElem_map]
    · show b.nPkts + hdrs.length ≤ txBurstSize
      omega
  · cases h

lemma pollAll_pulls {n i : ℕ} {full : Bool} (h : pollAll P n i b = .ok (full, b')) : ∃ l, Pulls P b l b' := by
  induction n generalizing i b with
  | zero =>
    cases h
    exact ⟨[], .refl _⟩
  | succ n ih =>
    unfold pollAll at h
    split at h
    · dsimp only at h
      split at h
      · rename_i b1 hb
        obtain ⟨l, hl⟩ := poll_pulls hb
        split at h
        · cases h
          exact ⟨l, hl⟩
        · obtain ⟨l', hl'⟩ := ih h
          exact ⟨l ++ l', hl.trans hl'⟩
      · cases h
    · cases h
      exact ⟨[], .refl _⟩

end Batch

/-! ## Preparing and handing over -/

namespace Buffers

variable {B : Buffers}

variable (P) in
/-- No mbuf is in two places, and the NIC has received what was prepared, or will be offered it next. -/
structure Sound (B : Buffers) : Prop where
  nodup : (B.bufs ++ (B.pool ++ B.nic)).Nodup
  handed : B.handed ++ B.bufs.map B.mbuf = B.prepared.map (Call.out P)

lemma prepareAll_spec (mem : BitVec 64 → NetHdr) (b : Batch) (i : ℕ) {bufs : List ℕ} (hnd : bufs.Nodup)
    (B : Buffers) : ∃ mbuf calls, B.prepareAll P mem b i bufs = { B with mbuf := mbuf, prepared := B.prepared ++ calls } ∧
      calls.map Call.src = b.slots i bufs.length ∧ bufs.map mbuf = calls.map (Call.out P) ∧
      ∀ x, x ∉ bufs → mbuf x = B.mbuf x := by
  induction bufs generalizing i B with
  | nil => exact ⟨B.mbuf, [], by rw [append_nil]; rfl, rfl, rfl, fun _ _ => rfl⟩
  | cons buf bufs ih =>
    obtain ⟨hbuf, hnd⟩ := nodup_cons.1 hnd
    obtain ⟨mbuf, calls, he, hsrc, hout, hold⟩ := ih (i + 1) hnd (B.prepare P mem buf (b.hdrs i) (b.threads i))
    refine ⟨mbuf, ⟨buf, B.mbuf buf, b.hdrs i, mem (b.hdrs i), b.threads i⟩ :: calls, ?_, ?_, ?_, ?_⟩
    · rw [prepareAll, he]
      simp only [prepare, append_assoc, singleton_append]
    · rw [map_cons, hsrc]
      rfl
    · rw [map_cons, map_cons, hout, hold buf hbuf]
      exact congrArg (· :: _) (update_self ..)
    · intro x hx
      rw [mem_cons, not_or] at hx
      rw [hold x hx.2]
      exact update_of_ne hx.1 ..

lemma Sound.prepareAll (h : B.Sound P) {n i : ℕ} {got : List ℕ} {B1 : Buffers}
    (hget : B.completionDequeue n = some (got, B1)) (mem : BitVec 64 → NetHdr) (b : Batch) :
    got.length = n ∧ B1.bufs = B.bufs ∧
      ∃ B2 calls, B1.prepareAll P mem b i got = B2 ∧ B2.bufs = B.bufs ∧
        { B2 with bufs := B2.bufs ++ got }.Sound P ∧ B2.prepared = B.prepared ++ calls ∧
        calls.map Call.src = b.slots i got.length := by
  unfold completionDequeue at hget
  split at hget
  · cases hget
  cases hget
  have hperm : (B.bufs ++ B.pool.drop (B.pool.length - n) ++
      (B.pool.take (B.pool.length - n) ++ B.nic)).Perm (B.bufs ++ (B.pool ++ B.nic)) := by
    conv_rhs => rw [← take_append_drop (B.pool.length - n) B.pool]
    rw [append_assoc]
    refine List.Perm.append_left _ ?_
    rw [← append_assoc]
    exact perm_append_comm.append_right _
  have hnd := hperm.nodup_iff.2 h.nodup
  have hgot := (nodup_append.1 (nodup_append.1 hnd).1)
  obtain ⟨mbuf, calls, he, hsrc, hout, hold⟩ := prepareAll_spec (P := P) mem b i hgot.2.1
    { B with pool := B.pool.take (B.pool.length - n) }
  refine ⟨?_, rfl, _, calls, he, rfl, ⟨hnd, ?_⟩, rfl, hsrc⟩
  · rw [length_drop]
    omega
  · have hbufs : B.bufs.map mbuf = B.bufs.map B.mbuf :=
      map_congr_left fun x hx => hold x fun hx' => hgot.2.2 x hx x hx' rfl
    rw [map_append, map_append, hout, hbufs, ← append_assoc, h.handed]

lemma Sound.transmit (h : B.Sound P) (ret : ℕ) : (B.transmit ret).Sound P where
  nodup := by
    refine (List.Perm.nodup_iff ?_).1 h.nodup
    show (B.bufs ++ (B.pool ++ B.nic)).Perm (B.bufs.drop ret ++ (B.pool ++ (B.nic ++ B.bufs.take ret)))
    conv_lhs => rw [← take_append_drop ret B.bufs]
    rw [append_assoc, ← append_assoc B.pool, ← append_assoc (B.bufs.drop ret) (B.pool ++ _)]
    exact perm_append_comm
  handed := by
    refine Eq.trans ?_ h.handed
    show B.handed ++ (B.bufs.take ret).map B.mbuf ++ (B.bufs.drop ret).map B.mbuf = _
    rw [append_assoc, ← map_append, take_append_drop]

lemma Sound.complete (h : B.Sound P) {buf : ℕ} (hbuf : buf ∈ B.nic) : (B.complete buf).Sound P where
  nodup := by
    refine (List.Perm.nodup_iff ?_).1 h.nodup
    refine List.Perm.append_left _ ?_
    show (B.pool ++ B.nic).Perm (B.pool ++ [buf] ++ B.nic.erase buf)
    rw [append_assoc]
    exact List.Perm.append_left _ (perm_cons_erase hbuf)
  handed := h.handed

end Buffers

/-! ## Runs -/

variable {s s' : Sys}

variable (P) in
/-- Between two calls every packet of the batch has an mbuf, and every packet received was prepared, once. -/
structure Inv (s : Sys) : Prop where
  inOrder : s.polling.InOrder P
  sound : s.buffers.Sound P
  nPkts : s.nPkts = s.buffers.nBufs
  bound : s.nPkts ≤ txBurstSize
  prepared : s.buffers.prepared.map Call.src = s.polling.pulled

variable (P) in
/-- The pool has as many mbufs as the call is going to ask for. -/
def PoolSuffices (s : Sys) : Event → Prop
  | .burst env =>
    match s.pull P env with
    | .ok (_, b) => b.nPkts - s.buffers.nBufs ≤ s.buffers.pool.length
    | .error _ => True
  | .enqueue _ _ | .enable _ | .disable _ | .complete _ => True

instance (s : Sys) (e : Event) : Decidable (PoolSuffices P s e) := by
  cases e <;> dsimp only [PoolSuffices] <;> try split
  all_goals infer_instance

variable {env : BurstEnv}

/-- A call whose pool suffices prepares the packets that were pulled, and what the NIC does not take stays, with its
mbufs. -/
lemma Inv.send (h : Inv P s) {l : List (ℕ × BitVec 64)} {b : Batch} {f : Polling}
    (hl : Batch.Pulls P ⟨env.hdrs, env.threads, s.nPkts, s.polling⟩ l b)
    (hf : f.InOrder P) (hfp : f.pulled = b.polling.pulled)
    (hok : b.nPkts - s.buffers.nBufs ≤ s.buffers.pool.length) :
    Inv P (Sys.send P s.buffers b f env) ∧
      (Sys.send P s.buffers b f env).nPkts = b.nPkts - min env.accepted b.nPkts := by
  have hn : b.nPkts = s.buffers.nBufs + l.length := h.nPkts ▸ hl.nPkts
  unfold Sys.send
  split
  · rename_i hnone
    unfold Buffers.completionDequeue at hnone
    rw [if_neg (Nat.not_lt.2 hok)] at hnone
    cases hnone
  rename_i got B1 hget
  obtain ⟨hlen, hbufs, B2, calls, hB2, hbufs2, hsound, hprep, hsrc⟩ :=
    h.sound.prepareAll (i := B1.nBufs) hget env.mem b
  rw [hB2]
  have hlen' : got.length = l.length := by omega
  have hnew : b.slots s.buffers.nBufs l.length = l := h.nPkts ▸ hl.new
  refine ⟨⟨hf, hsound.transmit _, ?_, ?_, ?_⟩, rfl⟩
  · show b.nPkts - _ = ((B2.bufs ++ got).drop _).length
    rw [length_drop, length_append, hbufs2, hlen', hn]
    rfl
  · exact Nat.le_trans (Nat.sub_le _ _) (hl.bound h.bound)
  · show B2.prepared.map Call.src = f.pulled
    rw [hprep, map_append, h.prepared, hsrc, hlen', hfp, hl.pulled, Buffers.nBufs, hbufs]
    exact congrArg _ hnew

lemma Inv.txBurst (h : Inv P s) {ret : Bool} (hok : PoolSuffices P s (.burst env))
    (hs : s.txBurst P env = .ok (ret, s')) :
    Inv P s' ∧ s'.nPkts ≤ txBurstSize - min env.accepted txBurstSize := by
  simp only [PoolSuffices] at hok
  unfold Sys.txBurst at hs
  split at hs
  · rename_i full b hb
    rw [hb] at hok
    obtain ⟨l, hl⟩ := Batch.pollAll_pulls hb
    have hbound := hl.bound h.bound
    split at hs
    · cases hs
      obtain ⟨hi, hn⟩ := h.send hl (hl.inOrder h.inOrder) rfl hok
      exact ⟨hi, by omega⟩
    split at hs
    · rename_i hz
      cases hs
      have hn : s.nPkts + l.length = 0 := hl.nPkts ▸ hz
      have hnil : l = [] := eq_nil_of_length_eq_zero (Nat.eq_zero_of_add_eq_zero_left hn)
      subst hnil
      refine ⟨⟨hl.inOrder h.inOrder, h.sound, ?_, Nat.zero_le _, ?_⟩, Nat.zero_le _⟩
      · exact (Nat.eq_zero_of_add_eq_zero_right hn).symm.trans h.nPkts
      · exact h.prepared.trans ((append_nil _).symm.trans hl.pulled.symm)
    · cases hs
      obtain ⟨hi, hn⟩ := h.send hl (f := { b.polling with pos := b.polling.pos + 1#32 })
        ((hl.inOrder h.inOrder).of_same ⟨rfl, rfl, rfl⟩) rfl hok
      exact ⟨hi, by omega⟩
  · cases hs

lemma burst_eq_ok (hs : step P s (.burst env) = .ok s') : ∃ ret, s.txBurst P env = .ok (ret, s') := by
  unfold step at hs
  dsimp only at hs
  cases hr : s.txBurst P env with
  | ok x =>
    rw [hr] at hs
    cases hs
    exact ⟨x.1, rfl⟩
  | error d =>
    rw [hr] at hs
    cases hs

/-- A call that finds enough mbufs loses no packet. -/
lemma Inv.of_step (h : Inv P s) {e : Event} (hok : PoolSuffices P s e) (hs : step P s e = .ok s') :
    Inv P s' := by
  cases e with
  | enqueue t m =>
    cases hs
    exact ⟨h.inOrder.enqueue t m, h.sound, h.nPkts, h.bound, h.prepared⟩
  | enable t =>
    cases hs
    have hsame := s.polling.enable_same (P := P) t
    exact ⟨h.inOrder.of_same hsame, h.sound, h.nPkts, h.bound, h.prepared.trans hsame.pulled.symm⟩
  | disable t =>
    cases hs
    have hsame := s.polling.disable_same (P := P) t
    exact ⟨h.inOrder.of_same hsame, h.sound, h.nPkts, h.bound, h.prepared.trans hsame.pulled.symm⟩
  | burst env =>
    obtain ⟨ret, hr⟩ := burst_eq_ok hs
    exact (h.txBurst hok hr).1
  | complete buf =>
    obtain ⟨hb, he⟩ := guard_eq_ok.1 hs
    cases he
    exact ⟨h.inOrder, h.sound.complete hb, h.nPkts, h.bound, h.prepared⟩

lemma Init.inv (h : Init s) : Inv P s where
  inOrder t := by
    rw [h.queued, Polling.pulledFrom, h.pulled]
    rfl
  sound := by
    constructor
    · rw [h.bufs, h.nic, append_nil]
      exact h.pool
    · rw [h.handed, h.bufs, h.prepared]
      rfl
  nPkts := by rw [h.nPkts, Buffers.nBufs, h.bufs, length_nil]
  bound := h.nPkts ▸ Nat.zero_le _
  prepared := by
    rw [h.prepared, h.pulled]
    rfl

/-- In every run whose calls find enough mbufs in the pool, however few packets the NIC takes: `tx_prepare_tx_mbuf` is
called for the packets that were received, each once, in order and with its thread; the NIC has been handed these
mbufs, in the same order, up to those that wait in `bufs`; and each thread's packets are received in the order they
were queued. -/
theorem packets_kept {s : Sys} (h : Reaches (step P) (PoolSuffices P) Init s) :
    s.buffers.prepared.map Call.src = s.polling.pulled ∧
      s.buffers.handed ++ s.buffers.bufs.map s.buffers.mbuf = s.buffers.prepared.map (Call.out P) ∧
      (∀ t, (s.polling.queued t).map (hdrOf P t) =
        s.polling.pulledFrom t ++ (s.polling.txpktq t).map (hdrOf P t)) ∧
      ∀ env s', PoolSuffices P s (.burst env) → txBurstSize ≤ env.accepted →
        step P s (.burst env) = .ok s' →
        s'.buffers.handed = s'.buffers.prepared.map (Call.out P) := by
  have hi : Inv P s := h.invariant (fun _ => Init.inv) fun _ _ _ h hok hs => h.of_step hok hs
  refine ⟨hi.prepared, hi.sound.handed, hi.inOrder, fun env s' hok hacc hs => ?_⟩
  obtain ⟨ret, hr⟩ := burst_eq_ok hs
  obtain ⟨hi', hn⟩ := hi.txBurst hok hr
  rw [Nat.min_eq_right hacc, Nat.sub_self, Nat.le_zero, hi'.nPkts] at hn
  have hnil : s'.buffers.bufs = [] := eq_nil_of_length_eq_zero hn
  rw [← hi'.sound.handed, hnil, map_nil, append_nil]

lemma region_fits : (0x10000000#64).toNat + (0x200000#64).toNat ≤ 2 ^ 64 := by decide

def flatProc (_ : ℕ) : Proc :=
  { addr := 0x9000#64, region := ⟨0x10000000#64, 0x200000#64, region_fits⟩,
    pagePaddrs := fun n => BitVec.ofNat 64 (n <<< 21), hasVfioDirectpath := false }

def idle (pool : List ℕ) : Sys :=
  { polling := ⟨fun _ => false, fun _ => [], [], 0#32, fun _ => [], []⟩
    nPkts := 0
    buffers := ⟨[], fun _ => ⟨0#64, 0#64, 0#16, 0#16, 0#16, 0#32, 0#16, 0#64, 0, 0, 0, 0#64, 0, 0#64⟩,
      pool, [], [], []⟩ }

def quietEnv (accepted : ℕ) : BurstEnv := ⟨fun _ => 0#64, fun _ => 0, fun hdr => ⟨hdr, 0#32, 0#32⟩, accepted⟩

def xmit (payload : BitVec 64) : Msg := ⟨txpktNetXmit, payload⟩

lemma idle_init {pool : List ℕ} (h : pool.Nodup) : Init (idle pool) := ⟨rfl, rfl, rfl, rfl, h, rfl, rfl, rfl⟩

theorem packets_kept_backpressure :
    ∃ s, Reaches (step flatProc) (PoolSuffices flatProc) Init s ∧
      s.polling.pulled = [(1, 0x10000040#64), (2, 0x10000080#64), (1, 0x100000c0#64)] ∧
      s.buffers.prepared.map Call.src =
        [(1, 0x10000040#64), (2, 0x10000080#64), (1, 0x100000c0#64)] ∧
      s.buffers.handed.map Mbuf.completionData = [0x10000040#64, 0x10000080#64] ∧
      s.buffers.handed ++ s.buffers.bufs.map s.buffers.mbuf =
        s.buffers.prepared.map (Call.out flatProc) := by
  refine Reaches.of_exec_imp (s := idle [7, 8]) (P := fun s =>
      s.polling.pulled = [(1, 0x10000040#64), (2, 0x10000080#64), (1, 0x100000c0#64)] ∧
      s.buffers.handed.map Mbuf.completionData = [0x10000040#64, 0x10000080#64])
    [.enable 1, .enable 2, .enqueue 1 (xmit 0x40#64), .enqueue 2 (xmit 0x80#64),
        .burst (quietEnv 1), .complete 7, .enqueue 1 (xmit 0xc0#64), .burst (quietEnv 1)]
      (idle_init (by decide)) ?_ ?_ ?_
  · decide
  · decide
  rintro s h ⟨hp, hc⟩
  obtain ⟨hprep, hhanded, -⟩ := packets_kept h
  exact ⟨hp, hprep.trans hp, hc, hhanded⟩

/-- The pool has one mbuf, which is in use when a second packet is pulled. The call that gets it back prepares it for
whatever its arrays contain. -/
theorem packet_lost :
    ∃ s, Reaches (step flatProc) (fun _ _ => True) Init s ∧
      s.polling.pulled = [(1, 0x10000040#64), (1, 0x10000080#64)] ∧
      s.buffers.prepared.map Call.src = [(1, 0x10000040#64), (0, 0#64)] ∧
      s.buffers.handed.map Mbuf.completionData = [0x10000040#64, 0#64] ∧
      s.nPkts = 0 ∧ s.polling.txpktq 1 = [] :=
  Reaches.of_exec (s := idle [7])
    [.enable 1, .enqueue 1 (xmit 0x40#64), .burst (quietEnv 64), .enqueue 1 (xmit 0x80#64),
      .burst (quietEnv 64), .complete 7, .burst (quietEnv 64)]
    (idle_init (by decide)) (allowed_true _ _) (by decide)

end Aspen.Egress
