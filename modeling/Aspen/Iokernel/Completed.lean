import Aspen.Iokernel.Completions

/-!
# Completions are conserved

What the references of a process are for, and where its completions have gone. Sending moves a tag from the
overflow queue to a receive queue, or not. Whatever gives a reference back does so for a reference that was
counted.
-/

namespace Aspen.Completions

open Run Function List

/-! ## One process -/

namespace Proc

variable {P P' : Proc} {n : ℕ}

def tags (P : Proc) : List (BitVec 64) := P.delivered.map Prod.snd

/-- Where the completions are, and that every reference is the client's, someone else's, or that of one of `n` mbufs.
-/
structure Sound (n : ℕ) (P : Proc) : Prop where
  conserved : P.completed.Perm (P.tags ++ P.overflowQueue)
  bound : P.overflowQueue.length ≤ P.maxOverflows
  refs : P.ref = (if P.kill then 0 else 1) + P.others + n

variable (P)

def Sends (l : List (BitVec 64)) (P' : Proc) : Prop :=
  ∃ c rr del, P' = { P with sched := c, nextThreadRr := rr, delivered := del } ∧ del.map Prod.snd = P.tags ++ l

lemma lrpcSend_sends (th : Fin P.threadCount) (room : Bool) (d : BitVec 64) :
    (P.lrpcSend th room d).1 = room ∧ P.Sends (if room then [d] else []) (P.lrpcSend th room d).2 := by
  cases room with
  | true => exact ⟨rfl, P.sched, P.nextThreadRr, _, rfl, map_append⟩
  | false => exact ⟨rfl, P.sched, P.nextThreadRr, P.delivered, rfl, (append_nil _).symm⟩

lemma rxSendToRuntime_sends (hash : BitVec 32) (t : Try) (d : BitVec 64) : (P.rxSendToRuntime hash t d).1 = t.room ∧
      P.Sends (if t.room then [d] else []) (P.rxSendToRuntime hash t d).2 := by
  unfold rxSendToRuntime
  split
  · exact P.lrpcSend_sends _ _ _
  · obtain ⟨hroom, c, rr, del, he, hdel⟩ := lrpcSend_sends
      { P with sched := t.addCore P.threadCount P.sched } _ t.room d
    exact ⟨hroom, c, rr, del, he, hdel⟩

lemma sendRr_sends (t : Try) (d : BitVec 64) :
    (P.sendRr t d).1 = t.room ∧ P.Sends (if t.room then [d] else []) (P.sendRr t d).2 := by
  obtain ⟨hroom, c, rr, del, he, hdel⟩ :=
    rxSendToRuntime_sends { P with nextThreadRr := P.nextThreadRr + 1#32 } P.nextThreadRr t d
  exact ⟨hroom, c, rr, del, he, hdel⟩

lemma offer_sends (th : Fin P.threadCount) (t : Try) (d : BitVec 64) :
    (Sys.offer P th t d).1 = t.room ∧ P.Sends (if t.room then [d] else []) (Sys.offer P th t d).2 := by
  unfold Sys.offer
  split
  · exact P.lrpcSend_sends _ _ _
  · exact P.sendRr_sends _ _

variable {P}

lemma Sound.sends (h : P.Sound n) {d : BitVec 64} {q : List (BitVec 64)}
    (hq : P.overflowQueue = d :: q) (hs : Sends { P with overflowQueue := q } [d] P') : P'.Sound n := by
  obtain ⟨c, rr, del, rfl, hdel⟩ := hs
  refine ⟨?_, ?_, h.refs⟩
  · refine h.conserved.trans ?_
    show (P.tags ++ P.overflowQueue).Perm (del.map Prod.snd ++ q)
    rw [hdel, hq, append_assoc]
    exact .refl _
  · have hb := h.bound
    rw [hq] at hb
    exact Nat.le_of_succ_le hb

lemma Sound.completes (h : P.Sound n) {d : BitVec 64}
    (hs : Sends { P with completed := P.completed ++ [d] } [d] P') : P'.Sound n := by
  obtain ⟨c, rr, del, rfl, hdel⟩ := hs
  refine ⟨?_, h.bound, h.refs⟩
  show (P.completed ++ [d]).Perm (del.map Prod.snd ++ P.overflowQueue)
  rw [hdel, append_assoc]
  refine (h.conserved.append_right [d]).trans ?_
  rw [append_assoc]
  exact perm_append_comm.append_left _

lemma Sound.overflows (h : P.Sound n) {d : BitVec 64} (hlt : P.overflowQueue.length < P.maxOverflows)
    (hs : Sends { P with completed := P.completed ++ [d] } [] P') :
    Sound n { P' with overflowQueue := d :: P'.overflowQueue } := by
  obtain ⟨c, rr, del, rfl, hdel⟩ := hs
  refine ⟨?_, hlt, h.refs⟩
  show (P.completed ++ [d]).Perm (del.map Prod.snd ++ d :: P.overflowQueue)
  rw [hdel, append_nil]
  refine (h.conserved.append_right [d]).trans ?_
  rw [append_assoc]
  exact perm_append_comm.append_left _

lemma drainOverflowQueue_spec (k : ℕ) (ts : ℕ → Try) (P : Proc) :
    (drainOverflowQueue k ts P).2.2.threadCount = P.threadCount ∧ (drainOverflowQueue k ts P).2.2.kill = P.kill ∧
      (P.Sound n → (drainOverflowQueue k ts P).2.2.Sound n) := by
  induction k generalizing P ts with
  | zero => exact ⟨rfl, rfl, id⟩
  | succ k ih =>
    unfold drainOverflowQueue
    split
    · exact ⟨rfl, rfl, id⟩
    · rename_i d q hq
      have hs := sendRr_sends { P with overflowQueue := q } (ts 0) d
      split
      · rename_i P1 hP1
        rw [hP1] at hs
        obtain ⟨hroom, hs⟩ := hs
        rw [← hroom] at hs
        obtain ⟨hth, hk, hsound⟩ := ih (ts ∘ Nat.succ) P1
        have hsound' (h : P.Sound n) := hsound (h.sends hq hs)
        obtain ⟨c, rr, del, rfl, -⟩ := hs
        exact ⟨hth, hk, hsound'⟩
      · rename_i P1 hP1
        rw [hP1] at hs
        obtain ⟨hroom, hs⟩ := hs
        rw [← hroom] at hs
        obtain ⟨c, rr, del, rfl, hdel⟩ := hs
        refine ⟨rfl, rfl, fun h => ⟨h.conserved.trans ?_, hq ▸ h.bound, h.refs⟩⟩
        show (P.tags ++ P.overflowQueue).Perm (del.map Prod.snd ++ d :: q)
        rw [hdel, hq]
        exact .of_eq (congrArg (· ++ _) (append_nil _).symm)

end Proc

/-! ## A process or none -/

def Holds (n : ℕ) : Option Proc → Prop
  | none => n = 0
  | some P => P.Sound n

def Waits : Option Proc → Prop
  | none => False
  | some P => P.kill = false ∧ P.overflowQueue ≠ []

lemma Proc.Sound.put {P : Proc} {n : ℕ} (h : P.Sound (n + 1)) : Holds n P.put := by
  have hr := h.refs
  unfold Proc.put
  split
  · show n = 0
    omega
  · refine ⟨h.conserved, h.bound, ?_⟩
    show P.ref - 1 = (if P.kill then 0 else 1) + P.others + n
    omega

lemma Proc.Sound.waits_put {P : Proc} {n : ℕ} (h : P.Sound (n + 1)) : Waits P.put ↔ Waits (some P) := by
  have hr := h.refs
  unfold Proc.put
  split
  · refine ⟨False.elim, fun hw => ?_⟩
    rw [hw.1] at hr
    simp only [Bool.false_eq_true, if_false] at hr
    omega
  · exact Iff.rfl

lemma threadCount_put {P P' : Proc} {n : ℕ} (h : P.put = some P') (hn : P.threadCount = n) : P'.threadCount = n := by
  unfold Proc.put at h
  split at h
  · cases h
  · cases h
    exact hn

/-! ## The list of processes -/

variable {procs : ℕ → Option Proc} {l : List ℕ} {p : ℕ} {o : Option Proc}

structure Listed (procs : ℕ → Option Proc) (l : List ℕ) : Prop where
  nodup : l.Nodup
  mem : ∀ p, p ∈ l ↔ Waits (procs p)

lemma Listed.perm (h : Listed procs l) {l' : List ℕ} (hp : l.Perm l') : Listed procs l' :=
  ⟨hp.nodup_iff.1 h.nodup, fun p => hp.mem_iff.symm.trans (h.mem p)⟩

lemma Listed.update (h : Listed procs l) (hw : Waits o ↔ Waits (procs p)) : Listed (update procs p o) l := by
  refine ⟨h.nodup, fun q => ?_⟩
  by_cases hq : q = p
  · subst hq
    rw [update_self, hw]
    exact h.mem q
  · rw [update_of_ne hq]
    exact h.mem q

lemma Listed.cons (h : Listed procs l) (hp : ¬ Waits (procs p)) (ho : Waits o) :
    Listed (Function.update procs p o) (p :: l) := by
  have hnot : p ∉ l := fun hm => hp ((h.mem p).1 hm)
  refine ⟨nodup_cons.2 ⟨hnot, h.nodup⟩, fun q => ?_⟩
  rw [mem_cons]
  by_cases hq : q = p
  · subst hq
    rw [update_self]
    exact ⟨fun _ => ho, fun _ => .inl rfl⟩
  · rw [update_of_ne hq, ← h.mem q]
    exact ⟨fun hm => hm.resolve_left hq, .inr⟩

lemma Listed.erase (h : Listed procs l) (ho : ¬ Waits o) : Listed (Function.update procs p o) (l.erase p) := by
  refine ⟨h.nodup.erase p, fun q => ?_⟩
  rw [h.nodup.mem_erase_iff]
  by_cases hq : q = p
  · subst hq
    rw [update_self]
    exact ⟨fun hm => absurd rfl hm.1, fun hw => absurd hw ho⟩
  · rw [update_of_ne hq, ← h.mem q]
    exact and_iff_right hq

lemma drainAll_spec {done : List ℕ} (h : Listed procs (l ++ done)) (k : ℕ) (ts : ℕ → Try) :
    ∃ l' procs', Sys.drainAll l done k ts procs = .ok (l', procs') ∧ Listed procs' l' ∧
      (∀ p n, Holds n (procs p) → Holds n (procs' p)) ∧
      ∀ p, (procs' p).map Proc.threadCount = (procs p).map Proc.threadCount := by
  induction l generalizing done k ts procs with
  | nil => exact ⟨done, procs, rfl, h, fun _ _ => id, fun _ => rfl⟩
  | cons p l ih =>
    have hw : Waits (procs p) := (h.mem p).1 (.head _)
    unfold Sys.drainAll
    split
    · rename_i hp
      rw [hp] at hw
      exact hw.elim
    rename_i P hp
    dsimp only
    generalize hx : P.drainOverflowQueue (overflowBatchDrain - k) ts = x
    have hspec : ∀ n, x.2.2.threadCount = P.threadCount ∧ x.2.2.kill = P.kill ∧
        (P.Sound n → x.2.2.Sound n) := fun n => hx ▸ Proc.drainOverflowQueue_spec _ ts P
    -- the process leaves the list, or joins those that are done with
    have hl : Listed (update procs p (some x.2.2))
        (l ++ if x.2.2.overflowQueue = [] then done else done ++ [p]) := by
      split
      · rename_i hnil
        have he := h.erase (p := p) (o := some x.2.2) fun hw => hw.2 hnil
        rwa [cons_append, erase_cons_head] at he
      · rename_i hne
        have hu := h.update (p := p) (o := some x.2.2) (by
          rw [hp] at hw ⊢
          exact ⟨fun _ => hw, fun _ => ⟨(hspec 0).2.1.trans hw.1, hne⟩⟩)
        refine hu.perm ?_
        rw [cons_append, ← append_assoc]
        exact (perm_append_singleton p (l ++ done)).symm
    have hholds : ∀ q n, Holds n (procs q) → Holds n (update procs p (some x.2.2) q) := by
      intro q n hq
      by_cases he : q = p
      · subst he
        rw [update_self]
        rw [hp] at hq
        exact (hspec n).2.2 hq
      · rwa [update_of_ne he]
    have hcount : ∀ q, (update procs p (some x.2.2) q).map Proc.threadCount = (procs q).map Proc.threadCount := by
      intro q
      by_cases he : q = p
      · subst he
        rw [update_self, hp]
        exact congrArg some (hspec 0).1
      · rw [update_of_ne he]
    split
    · exact ⟨_, _, rfl, hl, hholds, hcount⟩
    · obtain ⟨l', procs', he, hl', hh, hc⟩ := ih hl (k + x.1) x.2.1
      exact ⟨l', procs', he, hl', fun q n hq => hh q n (hholds q n hq), fun q => (hc q).trans (hcount q)⟩

/-! ## The system -/

def owned (priv : ℕ → Option Priv) (bufs : List ℕ) (p : ℕ) : ℕ :=
  bufs.countP fun buf => (priv buf).map Priv.p = some p

def Sys.outstanding (s : Sys) (p : ℕ) : ℕ := owned s.priv s.out p

variable {bufs : List ℕ} {buf : ℕ}

lemma pos_owned {priv : ℕ → Option Priv} {v : Priv} (hbuf : buf ∈ bufs)
    (hv : priv buf = some v) : owned priv bufs v.p ≠ 0 := by
  intro hz
  refine absurd (decide_eq_true ?_) (countP_eq_zero.1 hz buf hbuf)
  rw [hv, Option.map_some]

lemma owned_erase (priv : ℕ → Option Priv) (hbuf : buf ∈ bufs) (p : ℕ) :
    owned priv (bufs.erase buf) p + (if (priv buf).map Priv.p = some p then 1 else 0) =
      owned priv bufs p := by
  unfold owned
  rw [(perm_cons_erase hbuf).countP_eq, countP_cons]
  simp only [decide_eq_true_eq]

/-- There is room for the completion: in the receive queue that is tried, or in the overflow queue. -/
def Room (s : Sys) : Event → Prop
  | .complete buf t =>
    ∀ v ∈ s.priv buf, ∀ P ∈ s.procs v.p, P.kill = false → t.room = true ∨ P.overflowQueue.length < P.maxOverflows
  | .add .. | .remove _ | .prepare .. | .drain _ | .get _ | .put _ | .schedule .. => True

structure Inv (s : Sys) : Prop where
  listed : Listed s.procs s.overflowProcs
  holds : ∀ p, Holds (s.outstanding p) (s.procs p)
  nodup : (s.out ++ s.pool).Nodup
  size : s.out.length + s.pool.length = s.size
  threads : ∀ buf ∈ s.out, ∀ v, s.priv buf = some v → ∃ P, s.procs v.p = some P ∧ v.th < P.threadCount

variable {s s' : Sys}

lemma txSendCompletion_spec {v : Priv} {P : Proc} {n : ℕ} {t : Try}
    (hl : Listed s.procs s.overflowProcs) (hP : s.procs v.p = some P) (hs : P.Sound (n + 1))
    (hth : v.th < P.threadCount)
    (hroom : P.kill = false → t.room ∨ P.overflowQueue.length < P.maxOverflows) :
    ∃ l o, s.txSendCompletion v t = .ok (true, { s.store v.p o with overflowProcs := l }) ∧
      Listed (update s.procs v.p o) l ∧ Holds n o ∧
      ∀ P', o = some P' → P'.threadCount = P.threadCount := by
  unfold Sys.txSendCompletion
  rw [hP]
  dsimp only
  split
  · refine ⟨s.overflowProcs, P.put, rfl, hl.update ?_, hs.put, fun _ h => threadCount_put h rfl⟩
    rw [hP]
    exact hs.waits_put
  rename_i hkill
  rw [Bool.not_eq_true] at hkill
  obtain ⟨hr, hsend⟩ := Proc.offer_sends
    { P with completed := P.completed ++ [v.completionData] } ⟨v.th, hth⟩ t v.completionData
  split
  · rename_i P1 hP1
    rw [hP1] at hr hsend
    rw [← hr] at hsend
    have hs1 := hs.completes hsend
    refine ⟨s.overflowProcs, P1.put, rfl, hl.update ?_, hs1.put, fun _ h => threadCount_put h ?_⟩
    · rw [hs1.waits_put, hP]
      obtain ⟨c, rr, del, rfl, -⟩ := hsend
      exact Iff.rfl
    · obtain ⟨c, rr, del, rfl, -⟩ := hsend
      rfl
  · rename_i P1 hP1
    rw [hP1] at hr hsend
    rw [← hr] at hsend
    have hlt : P.overflowQueue.length < P.maxOverflows := by
      rcases hroom hkill with h | h
      · rw [← hr] at h
        cases h
      · exact h
    have hs1 := hs.overflows hlt hsend
    obtain ⟨c, rr, del, rfl, -⟩ := hsend
    rw [if_neg (Nat.ne_of_lt hlt)]
    refine ⟨if P.overflowQueue = [] then v.p :: s.overflowProcs else s.overflowProcs, _, ?_, ?_, hs1.put, ?_⟩
    · split <;> rfl
    · have hw := hs1.waits_put.2 ⟨hkill, cons_ne_nil _ _⟩
      split
      · rename_i hnil
        refine hl.cons ?_ hw
        rw [hP]
        exact fun h => h.2 hnil
      · rename_i hne
        refine hl.update ⟨fun _ => ?_, fun _ => hw⟩
        rw [hP]
        exact ⟨hkill, hne⟩
    · exact fun _ h => threadCount_put h rfl

lemma Inv.move (h : Inv s) {p : ℕ} {o : Option Proc} {l out pool : List ℕ} {priv : ℕ → Option Priv}
    (hl : Listed (update s.procs p o) l) (hh : Holds (owned priv out p) o)
    (hother : ∀ q, q ≠ p → owned priv out q = s.outstanding q) (hperm : (out ++ pool).Perm (s.out ++ s.pool))
    (hthreads : ∀ buf ∈ out, ∀ v, priv buf = some v → ∃ P, s.procs v.p = some P ∧ v.th < P.threadCount)
    (hc : ∀ P P', s.procs p = some P → o = some P' → P'.threadCount = P.threadCount) :
    Inv { s.store p o with overflowProcs := l, priv := priv, out := out, pool := pool } := by
  refine ⟨hl, fun q => ?_, hperm.nodup_iff.2 h.nodup, ?_, fun buf hbuf v hv => ?_⟩
  · show Holds (owned priv out q) (update s.procs p o q)
    by_cases hq : q = p
    · subst hq
      rwa [update_self]
    · rw [update_of_ne hq, hother q hq]
      exact h.holds q
  · rw [← length_append, hperm.length_eq, length_append]
    exact h.size
  · obtain ⟨P, hP, hth⟩ := hthreads buf hbuf v hv
    show ∃ P, update s.procs p o v.p = some P ∧ _
    by_cases hp : v.p = p
    · subst hp
      rw [update_self]
      -- the process is still there, since this mbuf has a reference on it
      cases o with
      | none => exact absurd hh (pos_owned hbuf hv)
      | some P' => exact ⟨P', rfl, (hc P P' hP rfl).symm ▸ hth⟩
    · rw [update_of_ne hp]
      exact ⟨P, hP, hth⟩

lemma Inv.store (h : Inv s) {p : ℕ} {o : Option Proc} {l : List ℕ}
    (hl : Listed (update s.procs p o) l) (hh : Holds (s.outstanding p) o)
    (hc : ∀ P P', s.procs p = some P → o = some P' → P'.threadCount = P.threadCount) :
    Inv { s.store p o with overflowProcs := l } :=
  h.move hl hh (fun _ _ => rfl) (.refl _) h.threads hc

lemma Inv.complete (h : Inv s) {t : Try} (hbuf : buf ∈ s.out) (hroom : Room s (.complete buf t)) :
    ∃ s', s.completionEnqueue buf t = .ok s' ∧ Inv s' := by
  have hperm : (s.out.erase buf ++ (s.pool ++ [buf])).Perm (s.out ++ s.pool) := by
    rw [← append_assoc]
    refine (perm_append_singleton buf _).trans ?_
    exact (perm_cons_erase hbuf).symm.append_right s.pool
  have hpos : 0 < s.out.length := length_pos_of_mem hbuf
  have hfit : ¬ s.size < s.pool.length + 1 := by
    have := h.size
    omega
  have hmem : ∀ b, b ∈ s.out.erase buf → b ∈ s.out := fun b => mem_of_mem_erase
  unfold Sys.completionEnqueue
  rw [if_neg hfit]
  split
  · rename_i hnone
    refine ⟨_, rfl, h.listed, fun p => ?_, hperm.nodup_iff.2 h.nodup, ?_, fun b hb => h.threads b (hmem b hb)⟩
    · have he := owned_erase s.priv hbuf p
      rw [hnone, Option.map_none, if_neg nofun, Nat.add_zero] at he
      show Holds (owned s.priv (s.out.erase buf) p) _
      rw [he]
      exact h.holds p
    · rw [← length_append, hperm.length_eq, length_append]
      exact h.size
  · rename_i v hv
    obtain ⟨P, hP, hth⟩ := h.threads buf hbuf v hv
    have hout := owned_erase s.priv hbuf v.p
    rw [hv, Option.map_some, if_pos rfl] at hout
    have hs : Holds (owned s.priv s.out v.p) (s.procs v.p) := h.holds v.p
    rw [hP, ← hout] at hs
    obtain ⟨l, o, he, hl, hh, hc⟩ := txSendCompletion_spec h.listed hP hs hth (hroom v hv P hP)
    rw [he]
    refine ⟨_, rfl, h.move hl hh (fun p hp => ?_) hperm (fun b hb => h.threads b (hmem b hb)) ?_⟩
    · have he := owned_erase s.priv hbuf p
      rwa [hv, Option.map_some, if_neg (fun h => hp (Option.some_inj.1 h).symm), Nat.add_zero] at he
    · intro Q P' hQ hP'
      cases hP.symm.trans hQ
      exact hc P' hP'

lemma Inv.replace (h : Inv s) {p : ℕ} {P : Proc} {o : Option Proc} (hP : s.procs p = some P)
    (hw : Waits o ↔ Waits (some P)) (hh : P.Sound (s.outstanding p) → Holds (s.outstanding p) o)
    (hc : ∀ P', o = some P' → P'.threadCount = P.threadCount) : Inv (s.store p o) := by
  have hs := h.holds p
  rw [hP] at hs
  refine h.store (l := s.overflowProcs) (h.listed.update (hP ▸ hw)) (hh hs) fun Q P' hQ hP' => ?_
  cases hP.symm.trans hQ
  exact hc P' hP'

lemma onProc_eq_ok {p : ℕ} {f : Proc → Except Fault Sys} (hs : onProc s p f = .ok s') :
    ∃ P, s.procs p = some P ∧ f P = .ok s' := by
  unfold onProc at hs
  split at hs
  · cases hs
  · rename_i P hP
    exact ⟨P, hP, hs⟩

lemma Inv.prepare (h : Inv s) {v : Priv} {P : Proc} (hP : s.procs v.p = some P)
    (hbuf : buf ∈ s.pool) (hth : v.th < P.threadCount) :
    Inv { s.store v.p (some { P with ref := P.ref + 1 }) with
      priv := update s.priv buf (some v), out := s.out ++ [buf], pool := s.pool.erase buf } := by
  have hnot : buf ∉ s.out := fun hm => (nodup_append.1 h.nodup).2.2 buf hm buf hbuf rfl
  have hperm : (s.out ++ [buf] ++ s.pool.erase buf).Perm (s.out ++ s.pool) := by
    rw [append_assoc]
    exact (perm_cons_erase hbuf).symm.append_left s.out
  have hpriv : ∀ b ∈ s.out, update s.priv buf (some v) b = s.priv b := fun b hb =>
    update_of_ne (fun he : b = buf => hnot (he ▸ hb)) ..
  -- the mbufs that were with the NIC before, and the new one
  have hcount : ∀ p, owned (update s.priv buf (some v)) (s.out ++ [buf]) p =
      s.outstanding p + if v.p = p then 1 else 0 := by
    intro p
    unfold owned
    rw [countP_append, countP_singleton, update_self, Option.map_some]
    simp only [decide_eq_true_eq, Option.some_inj]
    congr 1
    refine countP_congr fun b hb => ?_
    rw [hpriv b hb]
  have hw : Waits (some { P with ref := P.ref + 1 }) ↔ Waits (s.procs v.p) := by
    rw [hP]
    exact Iff.rfl
  refine h.move (h.listed.update hw) ?_ (fun p hp => ?_) hperm (fun b hb w hbw => ?_) ?_
  · have hs := h.holds v.p
    rw [hP] at hs
    rw [hcount, if_pos rfl]
    exact ⟨hs.conserved, hs.bound, congrArg (· + 1) hs.refs⟩
  · rw [hcount p, if_neg (Ne.symm hp), Nat.add_zero]
  · rcases mem_append.1 hb with hb | hb
    · exact h.threads b hb w ((hpriv b hb).symm.trans hbw)
    · rw [mem_singleton] at hb
      subst hb
      rw [update_self, Option.some_inj] at hbw
      subst hbw
      exact ⟨P, hP, hth⟩
  · rintro Q _ hQ ⟨⟩
    cases hP.symm.trans hQ
    rfl

lemma Inv.removeClient (h : Inv s) (p : ℕ) : Inv (s.removeClient p) := by
  unfold Sys.removeClient
  split
  · exact h
  rename_i P hP
  split
  · exact h
  rename_i hkill
  rw [Bool.not_eq_true] at hkill
  have hs := h.holds p
  rw [hP] at hs
  have hs1 : Proc.Sound (s.outstanding p + 1) { P with kill := true } := by
    refine ⟨hs.conserved, hs.bound, ?_⟩
    have hr := hs.refs
    rw [hkill] at hr
    simp only [Bool.false_eq_true, if_false] at hr
    show P.ref = 0 + P.others + (s.outstanding p + 1)
    omega
  have hnw : ¬ Waits (Proc.put { P with kill := true }) := fun hw => nomatch (hs1.waits_put.1 hw).1
  have hcount : ∀ Q P', s.procs p = some Q → Proc.put { P with kill := true } = some P' →
      P'.threadCount = Q.threadCount := by
    intro Q P' hQ hP'
    cases hP.symm.trans hQ
    exact threadCount_put hP' rfl
  split
  · rename_i hnil
    refine h.store (l := s.overflowProcs) (h.listed.update ⟨fun hw => absurd hw hnw, fun hw => ?_⟩) hs1.put hcount
    rw [hP] at hw
    exact absurd hnil hw.2
  · exact h.store (l := s.overflowProcs.erase p) (h.listed.erase hnw) hs1.put hcount

lemma Inv.drain (h : Inv s) (ts : ℕ → Try) : ∃ s', s.txDrainCompletions ts = .ok s' ∧ Inv s' := by
  have hlisted := h.listed
  obtain ⟨l, procs, he, hl, hh, hc⟩ := drainAll_spec (l := s.overflowProcs) (by rwa [append_nil]) 0 ts
  unfold Sys.txDrainCompletions
  rw [he]
  refine ⟨_, rfl, hl, fun p => hh p _ (h.holds p), h.nodup, h.size, fun buf hbuf v hv => ?_⟩
  obtain ⟨P, hP, hth⟩ := h.threads buf hbuf v hv
  have hcp := hc v.p
  rw [hP, Option.map_some, Option.map_eq_some_iff] at hcp
  obtain ⟨P', hP', hcount⟩ := hcp
  exact ⟨P', hP', hcount.symm ▸ hth⟩

/-- With room for it, no completion is lost. -/
lemma Inv.of_step (h : Inv s) {e : Event} (hok : Room s e) (hs : step s e = .ok s') : Inv s' := by
  cases e with
  | add p n pos sched m =>
    obtain ⟨hp, he⟩ := guard_eq_ok.1 hs
    cases he
    have hh := h.holds p
    rw [hp] at hh
    refine h.store (l := s.overflowProcs) (h.listed.update ?_) ?_ fun P _ hP => ?_
    · rw [hp]
      exact ⟨fun hw => absurd rfl hw.2, False.elim⟩
    · rw [hh]
      exact ⟨.refl _, Nat.zero_le _, rfl⟩
    · rw [hp] at hP
      cases hP
  | remove p =>
    cases hs
    exact h.removeClient p
  | prepare buf v =>
    obtain ⟨P, hP, hs⟩ := onProc_eq_ok hs
    obtain ⟨⟨hbuf, hth⟩, he⟩ := guard_eq_ok.1 hs
    cases he
    exact h.prepare hP hbuf hth
  | complete buf t =>
    obtain ⟨hbuf, hs⟩ := guard_eq_ok.1 hs
    obtain ⟨s1, he, hi⟩ := h.complete hbuf hok
    cases hs.symm.trans he
    exact hi
  | drain ts =>
    obtain ⟨s1, he, hi⟩ := h.drain ts
    cases Eq.trans hs.symm he
    exact hi
  | get p =>
    obtain ⟨P, hP, hs⟩ := onProc_eq_ok hs
    cases hs
    refine h.replace hP Iff.rfl (fun hs => ⟨hs.conserved, hs.bound, ?_⟩) ?_
    · have hr := hs.refs
      show P.ref + 1 = (if P.kill then 0 else 1) + (P.others + 1) + s.outstanding p
      omega
    · rintro _ ⟨⟩
      rfl
  | put p =>
    obtain ⟨P, hP, hs⟩ := onProc_eq_ok hs
    obtain ⟨hpos, he⟩ := guard_eq_ok.1 hs
    cases he
    have hs1 : Proc.Sound (s.outstanding p + 1) { P with others := P.others - 1 } := by
      have hs := h.holds p
      rw [hP] at hs
      refine ⟨hs.conserved, hs.bound, ?_⟩
      have hr := hs.refs
      show P.ref = (if P.kill then 0 else 1) + (P.others - 1) + (s.outstanding p + 1)
      omega
    refine h.replace hP hs1.waits_put (fun _ => hs1.put) fun _ h => threadCount_put h rfl
  | schedule p f =>
    obtain ⟨P, hP, hs⟩ := onProc_eq_ok hs
    cases hs
    refine h.replace hP Iff.rfl (fun hs => ⟨hs.conserved, hs.bound, hs.refs⟩) ?_
    rintro _ ⟨⟩
    rfl

lemma Init.inv (h : Init s) : Inv s where
  listed := by
    rw [h.overflowProcs]
    refine ⟨nodup_nil, fun p => ?_⟩
    rw [h.procs p]
    exact ⟨nofun, False.elim⟩
  holds p := by
    rw [h.procs p]
    refine countP_eq_zero.2 fun buf _ => ?_
    rw [h.priv buf]
    exact Bool.false_ne_true
  nodup := by
    rw [h.pool, append_nil]
    exact h.out
  size := by
    rw [h.pool]
    exact h.size
  threads buf _ v hv := by
    rw [h.priv buf] at hv
    cases hv

/-- In every run in which each completion finds room, it was delivered to a thread of its process or is in the
overflow queue, once; the processes on `overflow_procs` are those with entries in theirs; the references of a process
are the client's, others, and one for each mbuf that has not completed; and no process is used that was freed. -/
theorem completions_conserved {s : Sys} (h : Reaches step Room Init s) :
    (∀ p P, s.procs p = some P →
      P.completed.Perm (P.delivered.map Prod.snd ++ P.overflowQueue) ∧
      P.ref = (if P.kill then 0 else 1) + P.others + s.outstanding p) ∧
    (s.overflowProcs.Nodup ∧ ∀ p, p ∈ s.overflowProcs ↔
      ∃ P, s.procs p = some P ∧ P.kill = false ∧ P.overflowQueue ≠ []) ∧
    (∀ buf ∈ s.out, ∀ t, Room s (.complete buf t) → ∃ s', step s (.complete buf t) = .ok s') ∧
    ∀ ts, ∃ s', step s (.drain ts) = .ok s' := by
  have hi : Inv s := h.invariant (fun _ => Init.inv) fun _ _ _ h hok hs => h.of_step hok hs
  refine ⟨fun p P hP => ?_, ⟨hi.listed.nodup, fun p => (hi.listed.mem p).trans ?_⟩, ?_, ?_⟩
  · have hs := hi.holds p
    rw [hP] at hs
    exact ⟨hs.conserved, hs.refs⟩
  · cases hp : s.procs p with
    | none => exact ⟨False.elim, nofun⟩
    | some P => exact ⟨fun hw => ⟨P, rfl, hw⟩, fun ⟨_, he, hw⟩ => by cases he; exact hw⟩
  · intro buf hbuf t hroom
    obtain ⟨s', he, -⟩ := hi.complete hbuf hroom
    exact ⟨s', (if_pos hbuf).trans he⟩
  · intro ts
    obtain ⟨s', he, -⟩ := hi.drain ts
    exact ⟨s', he⟩

def oneThread : Sched 1 := ⟨fun _ => true, id, 0⟩

def attempt (room : Bool) : Try := ⟨room, fun _ c => c⟩

def booting (bufs : List ℕ) : Sys :=
  { procs := fun _ => none, overflowProcs := [], priv := fun _ => none, out := bufs, pool := [], size := bufs.length }

lemma booting_init (h : bufs.Nodup) : Init (booting bufs) := ⟨fun _ => rfl, rfl, fun _ => rfl, h, rfl, rfl⟩

instance (s : Sys) (e : Event) : Decidable (Room s e) := by
  cases e <;> dsimp only [Room] <;> infer_instance

theorem completions_conserved_overflow :
    ∃ s, Reaches step Room Init s ∧ s.overflowProcs = [5] ∧
      ∃ P, s.procs 5 = some P ∧ P.completed = [70#64, 80#64] ∧
        P.completed.Perm (P.delivered.map Prod.snd ++ P.overflowQueue) ∧ P.overflowQueue ≠ [] ∧
        P.ref = 1 := by
  refine Reaches.of_exec_imp (s := booting [1, 2]) (P := fun s =>
      s.overflowProcs = [5] ∧ (s.out = [] ∧ ∃ P ∈ s.procs 5, P.completed = [70#64, 80#64] ∧ P.others = 0))
    [.complete 1 (attempt true), .complete 2 (attempt true), .add 5 1 Nat.one_pos oneThread 2,
        .prepare 1 ⟨5, 0, 70#64⟩, .prepare 2 ⟨5, 0, 80#64⟩, .complete 1 (attempt true),
        .complete 2 (attempt false), .drain fun _ => attempt false]
      (booting_init (by decide)) ?_ ?_ ?_
  · decide
  · decide
  rintro s h ⟨hl, hhas⟩
  obtain ⟨hcons, ⟨-, hlist⟩, -⟩ := completions_conserved h
  obtain ⟨P, hP, hkill, hne⟩ := (hlist 5).1 (hl ▸ .head _)
  obtain ⟨hperm, hrefs⟩ := hcons 5 P hP
  obtain ⟨hout, Q, hQ, hcomp, hothers⟩ := hhas
  cases hP.symm.trans hQ
  rw [hkill, hothers, Sys.outstanding, hout] at hrefs
  exact ⟨hl, P, hP, hcomp, hperm, hne, hrefs⟩

/-- The overflow queue of a process has room for one completion, and its receive queue is full. The second completion
is in neither, and its reference is not given back: the process still has one when the client has been removed. -/
theorem completion_dropped :
    (∃ s, Reaches step (fun _ _ => True) Init s ∧ s.out = [] ∧
      ∃ P ∈ s.procs 5, P.completed = [70#64, 80#64] ∧ P.delivered = [] ∧ P.overflowQueue = [70#64] ∧
        P.kill = false ∧ P.others = 0 ∧ P.ref = 2) ∧
    ∃ s, Reaches step (fun _ _ => True) Init s ∧ s.out = [] ∧
      ∃ P ∈ s.procs 5, P.kill = true ∧ P.others = 0 ∧ P.ref = 1 := by
  constructor
  · exact Reaches.of_exec (s := booting [1, 2])
      [.complete 1 (attempt true), .complete 2 (attempt true), .add 5 1 Nat.one_pos oneThread 1,
        .prepare 1 ⟨5, 0, 70#64⟩, .prepare 2 ⟨5, 0, 80#64⟩, .complete 1 (attempt false),
        .complete 2 (attempt false)]
      (booting_init (by decide)) (allowed_true _ _) (by decide)
  · exact Reaches.of_exec (s := booting [1, 2])
      [.complete 1 (attempt true), .complete 2 (attempt true), .add 5 1 Nat.one_pos oneThread 1,
        .prepare 1 ⟨5, 0, 70#64⟩, .prepare 2 ⟨5, 0, 80#64⟩, .complete 1 (attempt false),
        .complete 2 (attempt false), .remove 5]
      (booting_init (by decide)) (allowed_true _ _) (by decide)

end Aspen.Completions
