import Aspen.Lib.Run
import Mathlib.Data.BitVec
import Mathlib.Data.Nat.Bitwise

/-!
# Shared memory channels (`lrpc.h`, `lrpc.c`)

One sender and one receiver share a table of messages and a word in which the receiver writes back how far it
is. The sender keeps a copy of the word that it refreshes when the channel looks full, and the receiver tells a
new message from an old one by a bit of the command that flips from one lap to the next.
-/

namespace Aspen.Lrpc

open Function

/-! ## The abstract channel -/

inductive FifoOp (α : Type*)
  | idle
  | push (x : α)
  | full
  | pop (x : α)
  | empty (b : Bool)

def FifoOp.act {α : Type*} [DecidableEq α] (bound : ℕ) (q : List α) : FifoOp α → Option (List α)
  | idle => some q
  | push x => if q.length < bound then some (q ++ [x]) else none
  | full => if q.length = bound then some q else none
  | pop x => if q.head? = some x then some q.tail else none
  | empty b => if q.isEmpty = b then some q else none

/-! ## The code -/

structure Msg where
  cmd : BitVec 64
  payload : BitVec 64
  deriving DecidableEq

def doneParity : BitVec 64 := 1#64 <<< 63

def cmdMask : BitVec 64 := ~~~doneParity

/-- The sizes: powers of two, up to `2 ^ 31`. -/
def size (k : Fin 32) : BitVec 32 := 1#32 <<< k.val

def index (k : Fin 32) (head : BitVec 32) : BitVec 32 := head &&& (size k - 1)

def parity (k : Fin 32) (head : BitVec 32) : BitVec 64 := if head &&& size k ≠ 0 then 0 else doneParity

inductive SenderPc
  | idle
  /-- `__lrpc_send`, before it reads the word -/
  | polling (m : Msg)
  /-- `lrpc_send`, before the payload is stored -/
  | writing (m : Msg) (dst : BitVec 32) (cmd : BitVec 64)
  /-- before the command is stored -/
  | publishing (m : Msg) (dst : BitVec 32) (cmd : BitVec 64)
  /-- the same in `__lrpc_send` -/
  | slowWriting (m : Msg) (dst : BitVec 32)
  | slowPublishing (m : Msg) (dst : BitVec 32)
  deriving DecidableEq

inductive ReceiverPc
  | idle
  /-- before the payload is loaded -/
  | reading (src : BitVec 32) (cmd : BitVec 64)
  /-- before the word is written -/
  | returning (m : Msg)
  deriving DecidableEq

/-- The two ends of a channel with what they share, and the messages that `lrpc_send` has sent and `lrpc_recv` has
returned. -/
structure Chan where
  tbl : BitVec 32 → Msg
  recvHeadWb : BitVec 32
  sendHead : BitVec 32
  sendTail : BitVec 32
  sender : SenderPc
  recvHead : BitVec 32
  receiver : ReceiverPc
  sent : List Msg
  received : List Msg

inductive Event
  | lrpcSend (m : Msg)
  | lrpcPollSendTail
  | sender
  | lrpcRecv
  | lrpcEmpty
  | receiver

inductive Stop
  | badCmd
  /-- the assertion of `__lrpc_send` -/
  | notFull
  | misplaced

variable (n : ℕ) (k : Fin 32) (s : Chan) (dst : BitVec 32)

def storePayload (p : BitVec 64) : BitVec 32 → Msg := update s.tbl dst { s.tbl dst with payload := p }

def storeCmd (cmd : BitVec 64) : BitVec 32 → Msg := update s.tbl dst { s.tbl dst with cmd }

/-- `lrpc_send` up to its first store. -/
def lrpcSend (m : Msg) : Except Stop Chan := if m.cmd &&& doneParity ≠ 0 then .error .badCmd
  else if s.sendHead - s.sendTail ≥ size k then
    if s.sendHead - s.sendTail = size k then .ok { s with sender := .polling m }
    else .error .notFull
  else .ok { s with
    sender := .writing m (index k s.sendHead) (m.cmd ||| parity k s.sendHead)
    sendHead := s.sendHead + 1 }

def senderNext : Except Stop Chan :=
  match s.sender with
  | .idle => .error .misplaced
  | .polling m =>
    if s.sendHead - s.recvHeadWb = size k then
      .ok { s with sendTail := s.recvHeadWb, sender := .idle }
    else .ok { s with
      sendTail := s.recvHeadWb
      sender := .slowWriting m (index k s.sendHead) }
  | .writing m dst cmd => .ok { s with
      tbl := storePayload s dst m.payload
      sender := .publishing m dst cmd }
  | .publishing m dst cmd => .ok { s with
      tbl := storeCmd s dst cmd
      sent := s.sent ++ [m]
      sender := .idle }
  | .slowWriting m dst => .ok { s with
      tbl := storePayload s dst m.payload
      sender := .slowPublishing m dst }
  | .slowPublishing m dst => .ok { s with
      tbl := storeCmd s dst (m.cmd ||| parity k s.sendHead)
      sendHead := s.sendHead + 1
      sent := s.sent ++ [m]
      sender := .idle }

/-- `lrpc_recv` up to the test of the command it has loaded. -/
def lrpcRecv : Chan := let src := index k s.recvHead
  let cmd := (s.tbl src).cmd
  if cmd &&& doneParity ≠ parity k s.recvHead then s
  else { s with recvHead := s.recvHead + 1, receiver := .reading src cmd }

def lrpcEmpty : Bool := (s.tbl (index k s.recvHead)).cmd &&& doneParity ≠ parity k s.recvHead

def receiverNext : Except Stop Chan :=
  match s.receiver with
  | .idle => .error .misplaced
  | .reading src cmd => .ok { s with receiver := .returning ⟨cmd &&& cmdMask, (s.tbl src).payload⟩ }
  | .returning m => .ok { s with
      recvHeadWb := s.recvHead
      received := s.received ++ [m]
      receiver := .idle }

def step : Event → Except Stop Chan
  | .lrpcSend m => if s.sender = .idle then lrpcSend k s m else .error .misplaced
  | .lrpcPollSendTail =>
    if s.sender = .idle then .ok { s with sendTail := s.recvHeadWb } else .error .misplaced
  | .sender => senderNext k s
  | .lrpcRecv => if s.receiver = .idle then .ok (lrpcRecv k s) else .error .misplaced
  | .lrpcEmpty => if s.receiver = .idle then .ok s else .error .misplaced
  | .receiver => receiverNext s

def op : Event → FifoOp Msg
  | .sender => match s.sender with
    | .polling _ => if s.sendHead - s.recvHeadWb = size k then .full else .idle
    | .publishing m .. | .slowPublishing m _ => .push m
    | _ => .idle
  | .lrpcRecv => if lrpcEmpty k s then .empty true else .idle
  | .lrpcEmpty => .empty (lrpcEmpty k s)
  | .receiver => match s.receiver with
    | .returning m => .pop m
    | _ => .idle
  | _ => .idle

def Initial : Prop := s = ⟨fun _ => ⟨0, 0⟩, 0, 0, 0, .idle, 0, .idle, [], []⟩

/-- The channel as a queue: the messages whose slots the receiver has not given back yet. -/
def Chan.queue : List Msg := s.sent.drop s.received.length

/-! ## Words and counts

An index is a count modulo `2 ^ 32`, of which its slot and its lap parity are functions. -/

variable {k : Fin 32}

abbrev word : BitVec 32 := BitVec.ofNat 32 n

lemma word_add_one : word n + 1 = word (n + 1) := (BitVec.ofNat_add n 1).symm

lemma size_toNat (k : Fin 32) : (size k).toNat = 2 ^ k.val := by
  have hlt : 2 ^ k.val < 2 ^ 32 := Nat.pow_lt_pow_right (by decide) k.isLt
  rw [size, BitVec.toNat_shiftLeft, Nat.shiftLeft_eq]
  show 1 * 2 ^ k.val % 2 ^ 32 = _
  rw [one_mul, Nat.mod_eq_of_lt hlt]

lemma index_toNat : (index k (word n)).toNat = n % 2 ^ k.val := by
  have hdvd : 2 ^ k.val ∣ 2 ^ 32 := Nat.pow_dvd_pow 2 k.isLt.le
  have hone : (size k - 1).toNat = 2 ^ k.val - 1 := by
    rw [BitVec.toNat_sub_of_le, size_toNat]
    · rfl
    · rw [BitVec.le_def, size_toNat]
      exact Nat.two_pow_pos _
  rw [index, BitVec.toNat_and, hone, Nat.and_two_pow_sub_one_eq_mod, BitVec.toNat_ofNat, Nat.mod_mod_of_dvd _ hdvd]

lemma index_eq_iff {m n : ℕ} : index k (word m) = index k (word n) ↔ m ≡ n [MOD 2 ^ k.val] := by
  rw [← BitVec.toNat_inj, index_toNat, index_toNat]
  rfl

lemma index_ne {m n : ℕ} (hmn : m < n) (hn : n < m + 2 ^ k.val) : index k (word m) ≠ index k (word n) := by
  rw [Ne, index_eq_iff]
  intro h
  have hdvd := (Nat.modEq_iff_dvd' hmn.le).1 h
  exact absurd (Nat.le_of_dvd (by omega) hdvd) (by omega)

lemma index_add_size : index k (word (n + 2 ^ k.val)) = index k (word n) := by
  rw [index_eq_iff]
  exact Nat.add_modEq_right

lemma and_size_iff {n : ℕ} : word n &&& size k ≠ 0 ↔ n.testBit k = true := by
  rw [Ne, ← BitVec.toNat_inj, BitVec.toNat_and, size_toNat, BitVec.toNat_ofNat, Nat.and_two_pow, Nat.testBit_mod_two_pow]
  cases n.testBit k <;> simp [k.isLt]

lemma parity_ofNat : parity k (word n) = if n.testBit k then 0 else doneParity := by
  simp only [parity, and_size_iff]

lemma parity_add_size : parity k (word (n + 2 ^ k.val)) ≠ parity k (word n) := by
  rw [parity_ofNat, parity_ofNat, Nat.add_comm, Nat.testBit_two_pow_add_eq]
  cases n.testBit k <;> decide

lemma parity_cases (h : BitVec 32) : parity k h = 0 ∨ parity k h = doneParity := by
  unfold parity
  split
  · exact .inl rfl
  · exact .inr rfl

lemma sub_toNat {m n : ℕ} (hmn : m ≤ n) (hn : n ≤ m + 2 ^ k.val) : (word n - word m).toNat = n - m := by
  have hlt : 2 ^ k.val < 2 ^ 32 := Nat.pow_lt_pow_right (by decide) k.isLt
  obtain ⟨d, rfl⟩ := Nat.exists_eq_add_of_le hmn
  rw [word, BitVec.ofNat_add, add_comm, add_sub_cancel_right, BitVec.toNat_ofNat, Nat.mod_eq_of_lt]
  · omega
  · omega

lemma sub_eq_size_iff {m n : ℕ} (hmn : m ≤ n) (hn : n ≤ m + 2 ^ k.val) :
    word n - word m = size k ↔ n = m + 2 ^ k.val := by
  rw [← BitVec.toNat_inj, sub_toNat hmn hn, size_toNat]
  omega

lemma cmd_parity {c p : BitVec 64} (hc : c &&& doneParity = 0) (hp : p = 0 ∨ p = doneParity) :
    (c ||| p) &&& doneParity = p ∧ (c ||| p) &&& cmdMask = c := by
  have hmask : c &&& cmdMask = c := by
    calc c &&& cmdMask = (c &&& doneParity) ||| (c &&& cmdMask) := by simp [hc]
      _ = c &&& (doneParity ||| cmdMask) := by rw [BitVec.and_or_distrib_left]
      _ = c := by
        rw [show doneParity ||| cmdMask = BitVec.allOnes 64 by decide, BitVec.and_allOnes]
  have hor : ∀ x, (c ||| p) &&& x = (c &&& x) ||| (p &&& x) := fun x => by
    rw [BitVec.and_comm, BitVec.and_or_distrib_left, BitVec.and_comm x, BitVec.and_comm x]
  rw [hor, hor, hc, hmask]
  rcases hp with rfl | rfl
  · simp
  · rw [show doneParity &&& cmdMask = 0 by decide]
    simp

/-! ## The table -/

/-- A table into which `sent` has been written, of which the receiver has given back `r` slots. -/
structure Table (k : Fin 32) (tbl : BitVec 32 → Msg) (sent : List Msg) (r : ℕ) : Prop where
  /-- the commands of the last lap, with their parity -/
  cmds : ∀ {n : ℕ} {m : Msg}, sent[n]? = some m → sent.length ≤ n + 2 ^ k.val →
    (tbl (index k (word n))).cmd = m.cmd ||| parity k (word n)
  payloads : ∀ {n : ℕ} {m : Msg}, sent[n]? = some m → r ≤ n → (tbl (index k (word n))).payload = m.payload
  fresh : ∀ n, sent.length ≤ n → n < 2 ^ k.val → (tbl (index k (word n))).cmd = 0
  clear : ∀ {n : ℕ} {m : Msg}, sent[n]? = some m → m.cmd &&& doneParity = 0

variable {m : Msg}

namespace Table

variable {tbl : BitVec 32 → Msg} {sent : List Msg} {r : ℕ}

section

variable (h : Table k tbl sent r)
include h

lemma give_back : Table k tbl sent (r + 1) := ⟨h.cmds, fun hm hr => h.payloads hm (by omega), h.fresh, h.clear⟩

lemma store_payload (hroom : sent.length < r + 2 ^ k.val) (p : BitVec 64) :
    Table k (update tbl (index k (word sent.length))
      { tbl (index k (word sent.length)) with payload := p }) sent r := by
  have hcmd : ∀ i, (update tbl (index k (word sent.length))
      { tbl (index k (word sent.length)) with payload := p } i).cmd = (tbl i).cmd := by
    intro i
    by_cases hi : i = index k (word sent.length)
    · simp [hi]
    · simp [hi]
  refine ⟨fun hm hn => ?_, fun {n m} hm hr => ?_, fun n hn hk => ?_, h.clear⟩
  · rw [hcmd]
    exact h.cmds hm hn
  · have hlt : n < sent.length := (List.getElem?_eq_some_iff.1 hm).1
    rw [update_of_ne (index_ne hlt (by omega))]
    exact h.payloads hm hr
  · rw [hcmd]
    exact h.fresh n hn hk

lemma store_cmd (hroom : sent.length < r + 2 ^ k.val)
    (hp : (tbl (index k (word sent.length))).payload = m.payload) (hc : m.cmd &&& doneParity = 0) :
    Table k (update tbl (index k (word sent.length))
      { tbl (index k (word sent.length)) with cmd := m.cmd ||| parity k (word sent.length) })
      (sent ++ [m]) r := by
  have hlast : ∀ {n m'}, (sent ++ [m])[n]? = some m' →
      n < sent.length ∧ sent[n]? = some m' ∨ n = sent.length ∧ m' = m := by
    intro n m' hm
    rcases Nat.lt_trichotomy n sent.length with hn | rfl | hn
    · exact .inl ⟨hn, by rwa [List.getElem?_append_left hn] at hm⟩
    · simp only [List.getElem?_concat_length, Option.some.injEq] at hm
      exact .inr ⟨rfl, hm.symm⟩
    · rw [List.getElem?_eq_none (by simp; omega)] at hm
      cases hm
  refine ⟨fun hm hn => ?_, fun {n m'} hm hr => ?_, fun n hn hk => ?_, fun hm => ?_⟩
  · rw [List.length_append, List.length_singleton] at hn
    rcases hlast hm with ⟨hlt, hm⟩ | ⟨rfl, rfl⟩
    · rw [update_of_ne (index_ne hlt (by omega))]
      exact h.cmds hm (by omega)
    · simp
  · rcases hlast hm with ⟨hlt, hm⟩ | ⟨rfl, rfl⟩
    · rw [update_of_ne (index_ne hlt (by omega))]
      exact h.payloads hm hr
    · simpa using hp
  · rw [List.length_append, List.length_singleton] at hn
    rw [update_of_ne (index_ne (k := k) (m := sent.length) (by omega) (by omega)).symm]
    exact h.fresh n (by omega) hk
  · rcases hlast hm with ⟨-, hm⟩ | ⟨-, rfl⟩
    · exact h.clear hm
    · exact hc

lemma read (hroom : sent.length ≤ r + 2 ^ k.val) (hm : sent[r]? = some m) :
    (tbl (index k (word r))).cmd &&& doneParity = parity k (word r) ∧
      (tbl (index k (word r))).cmd &&& cmdMask = m.cmd := by
  rw [h.cmds hm hroom]
  exact cmd_parity (h.clear hm) (parity_cases _)

lemma stale (hr : r = sent.length) : (tbl (index k (word r))).cmd &&& doneParity ≠ parity k (word r) := by
  by_cases hlap : r < 2 ^ k.val
  · rw [h.fresh r hr.ge hlap, parity_ofNat, Nat.testBit_lt_two_pow hlap]
    decide
  · obtain ⟨n, rfl⟩ := Nat.exists_eq_add_of_le' (not_lt.1 hlap)
    have hlt : n < sent.length := by
      have hpos := Nat.two_pow_pos k.val
      omega
    obtain ⟨m, hm⟩ : ∃ m, sent[n]? = some m := ⟨_, List.getElem?_eq_getElem hlt⟩
    rw [index_add_size, h.cmds hm hr.ge, (cmd_parity (h.clear hm) (parity_cases _)).1]
    exact (parity_add_size n).symm

end

end Table

/-! ## The two ends -/

def SenderPc.busy : SenderPc → Bool
  | idle | polling _ => false
  | _ => true

def SenderOk (k : Fin 32) (s : Chan) : Prop :=
  match s.sender with
  | .idle => s.sendHead = word s.sent.length
  | .polling m => s.sendHead = word s.sent.length ∧ m.cmd &&& doneParity = 0
  | .writing m dst cmd =>
    s.sendHead = word (s.sent.length + 1) ∧ m.cmd &&& doneParity = 0 ∧
      dst = index k (word s.sent.length) ∧ cmd = m.cmd ||| parity k (word s.sent.length)
  | .publishing m dst cmd =>
    s.sendHead = word (s.sent.length + 1) ∧ m.cmd &&& doneParity = 0 ∧
      dst = index k (word s.sent.length) ∧ cmd = m.cmd ||| parity k (word s.sent.length) ∧
      (s.tbl dst).payload = m.payload
  | .slowWriting m dst =>
    s.sendHead = word s.sent.length ∧ m.cmd &&& doneParity = 0 ∧ dst = index k (word s.sent.length)
  | .slowPublishing m dst =>
    s.sendHead = word s.sent.length ∧ m.cmd &&& doneParity = 0 ∧
      dst = index k (word s.sent.length) ∧ (s.tbl dst).payload = m.payload

def ReceiverOk (k : Fin 32) (s : Chan) : Prop :=
  match s.receiver with
  | .idle => s.recvHead = word s.received.length
  | .reading src cmd =>
    s.recvHead = word (s.received.length + 1) ∧ src = index k (word s.received.length) ∧
      ∃ m, s.sent[s.received.length]? = some m ∧ cmd &&& cmdMask = m.cmd
  | .returning m =>
    s.recvHead = word (s.received.length + 1) ∧ s.sent[s.received.length]? = some m

/-- The sender has last read `t` in the word of the receiver. -/
structure InvAt (k : Fin 32) (s : Chan) (t : ℕ) : Prop where
  table : Table k s.tbl s.sent s.received.length
  order : s.received = s.sent.take s.received.length
  received : s.received.length ≤ s.sent.length
  wb : s.recvHeadWb = word s.received.length
  tail : s.sendTail = word t
  tail_le : t ≤ s.received.length
  room : s.sent.length + s.sender.busy.toNat ≤ t + 2 ^ k.val
  sender : SenderOk k s
  receiver : ReceiverOk k s

namespace InvAt

variable {s s' : Chan} {t : ℕ}

lemma tail_room (h : InvAt k s t) : s.sent.length ≤ t + 2 ^ k.val := (Nat.le_add_right _ _).trans h.room

lemma room_le (h : InvAt k s t) : s.sent.length ≤ s.received.length + 2 ^ k.val :=
  h.tail_room.trans (Nat.add_le_add_right h.tail_le _)

lemma room_lt (h : InvAt k s t) (hb : s.sender.busy) : s.sent.length < s.received.length + 2 ^ k.val := by
  have hroom := h.room
  have htail := h.tail_le
  rw [hb, Bool.toNat_true] at hroom
  omega

lemma queue_length (h : InvAt k s t) : s.queue.length + s.received.length = s.sent.length := by
  have := h.received
  rw [Chan.queue, List.length_drop]
  omega

end InvAt

section Step

variable {s s' : Chan} {t : ℕ}

abbrev Outcome (k : Fin 32) (s : Chan) (o : FifoOp Msg) : Except Stop Chan → Prop :=
  Run.Comes (· ≠ .notFull) fun s' => (∃ t, InvAt k s' t) ∧ o.act (2 ^ k.val) s.queue = some s'.queue

section

variable (hI : InvAt k s t)
include hI

lemma lrpcSend_outcome (hs : s.sender = .idle) : Outcome k s .idle (lrpcSend k s m) := by
  have hsend := hI.sender
  simp only [SenderOk, hs] at hsend
  have hroom := hI.tail_room
  have hdist : (s.sendHead - s.sendTail).toNat = s.sent.length - t := by
    rw [hsend, hI.tail]
    exact sub_toNat (hI.tail_le.trans hI.received) hroom
  unfold lrpcSend
  split
  · exact .stop nofun
  rename_i hc
  rw [not_not] at hc
  split
  · rename_i hge
    have hfull : s.sendHead - s.sendTail = size k := by
      rw [ge_iff_le, BitVec.le_def, size_toNat] at hge
      rw [← BitVec.toNat_inj, size_toNat]
      exact le_antisymm (hdist ▸ Nat.sub_le_iff_le_add'.2 hroom) hge
    rw [if_pos hfull]
    exact .ok ⟨⟨t, { hI with room := hroom, sender := ⟨hsend, hc⟩ }⟩, rfl⟩
  · rename_i hfull
    refine .ok ⟨⟨t, { hI with room := ?_, sender := ?_ }⟩, rfl⟩
    · rw [ge_iff_le, BitVec.le_def, hdist, size_toNat] at hfull
      show s.sent.length + 1 ≤ _
      omega
    · simp only [SenderOk, hsend, word_add_one, hc, and_self]

lemma storePayload_inv {p : BitVec 64} {pc : SenderPc} (hb : s.sender.busy) (hpc : pc.busy)
    (hok : SenderOk k { s with
      tbl := storePayload s (index k (word s.sent.length)) p, sender := pc }) :
    InvAt k { s with
      tbl := storePayload s (index k (word s.sent.length)) p, sender := pc } t := by
  refine { hI with table := hI.table.store_payload (hI.room_lt hb) p, room := ?_, sender := hok }
  have hroom := hI.room
  rw [hb] at hroom
  rw [hpc]
  exact hroom

lemma storeCmd_inv {head : BitVec 32} (hb : s.sender.busy)
    (hp : (s.tbl (index k (word s.sent.length))).payload = m.payload)
    (hc : m.cmd &&& doneParity = 0) (hhead : head = word (s.sent.length + 1)) :
    InvAt k { s with
      tbl := storeCmd s (index k (word s.sent.length)) (m.cmd ||| parity k (word s.sent.length))
      sendHead := head
      sent := s.sent ++ [m]
      sender := .idle } t ∧
    (FifoOp.push m).act (2 ^ k.val) s.queue = some (List.drop s.received.length (s.sent ++ [m])) := by
  have hroom := hI.room_lt hb
  have hlen := hI.queue_length
  refine ⟨⟨hI.table.store_cmd hroom hp hc, ?_, ?_, hI.wb, hI.tail, hI.tail_le, ?_, ?_, ?_⟩, ?_⟩
  · rw [List.take_append_of_le_length hI.received]
    exact hI.order
  · rw [List.length_append]
    exact hI.received.trans (Nat.le_add_right _ _)
  · have hroom := hI.room
    rw [hb] at hroom
    rw [List.length_append]
    exact hroom
  · rw [SenderOk, List.length_append]
    exact hhead
  · have hmem : ∀ {n : ℕ} {m' : Msg}, s.sent[n]? = some m' → (s.sent ++ [m])[n]? = some m' :=
      fun h => (List.getElem?_append_left (List.getElem?_eq_some_iff.1 h).1).trans h
    have hrecv := hI.receiver
    unfold ReceiverOk at hrecv ⊢
    dsimp only
    split at hrecv
    · exact hrecv
    · obtain ⟨hhead, hsrc, m', hm, hcmd⟩ := hrecv
      exact ⟨hhead, hsrc, m', hmem hm, hcmd⟩
    · exact ⟨hrecv.1, hmem hrecv.2⟩
  · rw [FifoOp.act, if_pos (by omega), List.drop_append_of_le_length hI.received]
    rfl

lemma poll_outcome (hs : s.sender = .polling m) : Outcome k s (op k s .sender) (senderNext k s) := by
  have hsend := hI.sender
  simp only [SenderOk, hs] at hsend
  have hlen := hI.queue_length
  have hfull : s.sendHead - s.recvHeadWb = size k ↔ s.sent.length = s.received.length + 2 ^ k.val := by
    rw [hsend.1, hI.wb]
    exact sub_eq_size_iff hI.received hI.room_le
  simp only [senderNext, op, hs]
  split
  · rename_i hf
    refine .ok ⟨⟨_, { hI with tail := hI.wb, tail_le := le_rfl, room := hI.room_le, sender := hsend.1 }⟩, ?_⟩
    rw [FifoOp.act, if_pos (by have := hfull.1 hf; omega)]
    rfl
  · rename_i hf
    refine .ok ⟨⟨_, { hI with tail := hI.wb, tail_le := le_rfl, room := ?_, sender := ?_ }⟩, rfl⟩
    · exact lt_of_le_of_ne hI.room_le fun h => hf (hfull.2 h)
    · simp only [SenderOk, hsend, and_self]

lemma senderNext_outcome : Outcome k s (op k s .sender) (senderNext k s) := by
  have hsend := hI.sender
  cases hs : s.sender with
  | idle =>
    simp only [senderNext, hs]
    exact .stop nofun
  | polling m => exact poll_outcome hI hs
  | writing m dst cmd =>
    simp only [SenderOk, hs] at hsend
    obtain ⟨hhead, hc, rfl, rfl⟩ := hsend
    simp only [senderNext, op, hs]
    refine .ok ⟨⟨t, storePayload_inv hI (by rw [hs]; rfl) rfl ?_⟩, rfl⟩
    simp [SenderOk, hhead, hc, storePayload]
  | publishing m dst cmd =>
    simp only [SenderOk, hs] at hsend
    obtain ⟨hhead, hc, rfl, rfl, hp⟩ := hsend
    simp only [senderNext, op, hs]
    obtain ⟨hI', hact⟩ := storeCmd_inv hI (by rw [hs]; rfl) hp hc hhead
    exact .ok ⟨⟨t, hI'⟩, hact⟩
  | slowWriting m dst =>
    simp only [SenderOk, hs] at hsend
    obtain ⟨hhead, hc, rfl⟩ := hsend
    simp only [senderNext, op, hs]
    refine .ok ⟨⟨t, storePayload_inv hI (by rw [hs]; rfl) rfl ?_⟩, rfl⟩
    simp [SenderOk, hhead, hc, storePayload]
  | slowPublishing m dst =>
    simp only [SenderOk, hs] at hsend
    obtain ⟨hhead, hc, rfl, hp⟩ := hsend
    simp only [senderNext, op, hs]
    rw [hhead]
    obtain ⟨hI', hact⟩ := storeCmd_inv hI (by rw [hs]; rfl) hp hc (word_add_one _)
    exact .ok ⟨⟨t, hI'⟩, hact⟩

lemma lrpcEmpty_eq (hr : s.receiver = .idle) : lrpcEmpty k s = s.queue.isEmpty := by
  have hrecv := hI.receiver
  simp only [ReceiverOk, hr] at hrecv
  unfold lrpcEmpty
  rw [hrecv, Bool.eq_iff_iff, List.isEmpty_iff, Chan.queue, List.drop_eq_nil_iff, decide_eq_true_iff]
  constructor
  · intro h
    by_contra hlt
    obtain ⟨m, hm⟩ : ∃ m, s.sent[s.received.length]? = some m := ⟨_, List.getElem?_eq_getElem (not_le.1 hlt)⟩
    exact h (hI.table.read hI.room_le hm).1
  · intro h
    exact hI.table.stale (le_antisymm hI.received h)

lemma lrpcRecv_outcome (hr : s.receiver = .idle) : Outcome k s (op k s .lrpcRecv) (.ok (lrpcRecv k s)) := by
  have hrecv := hI.receiver
  simp only [ReceiverOk, hr] at hrecv
  have hempty := lrpcEmpty_eq hI hr
  by_cases he : lrpcEmpty k s
  · have hstay : lrpcRecv k s = s := by
      simp only [lrpcEmpty, decide_eq_true_iff] at he
      simp only [lrpcRecv, if_pos he]
    rw [hstay]
    refine .ok ⟨⟨t, hI⟩, ?_⟩
    rw [op, if_pos he, FifoOp.act, if_pos (hempty.symm.trans he)]
  · rw [op, if_neg he]
    obtain ⟨m, hm⟩ : ∃ m, s.sent[s.received.length]? = some m := by
      rw [hempty, List.isEmpty_iff, Chan.queue, List.drop_eq_nil_iff, not_le] at he
      exact ⟨_, List.getElem?_eq_getElem he⟩
    simp only [lrpcEmpty, decide_eq_true_iff] at he
    simp only [lrpcRecv, if_neg he]
    refine .ok ⟨⟨t, { hI with receiver := ⟨?_, ?_, m, hm, ?_⟩ }⟩, rfl⟩
    · rw [hrecv, word_add_one]
    · rw [hrecv]
    · rw [hrecv]
      exact (hI.table.read hI.room_le hm).2

lemma receiverNext_outcome : Outcome k s (op k s .receiver) (receiverNext s) := by
  have hrecv := hI.receiver
  cases hr : s.receiver with
  | idle =>
    simp only [receiverNext, hr]
    exact .stop nofun
  | reading src cmd =>
    simp only [ReceiverOk, hr] at hrecv
    obtain ⟨hhead, rfl, m, hm, hcmd⟩ := hrecv
    simp only [receiverNext, op, hr]
    refine .ok ⟨⟨t, { hI with receiver := ⟨hhead, ?_⟩ }⟩, rfl⟩
    rw [hm, hcmd, hI.table.payloads hm le_rfl]
  | returning m =>
    simp only [ReceiverOk, hr] at hrecv
    obtain ⟨hhead, hm⟩ := hrecv
    simp only [receiverNext, op, hr]
    have hlt : s.received.length < s.sent.length := (List.getElem?_eq_some_iff.1 hm).1
    have hlen : (s.received ++ [m]).length = s.received.length + 1 := by simp
    have hfront : s.queue.head? = some m := by rw [Chan.queue, List.head?_drop, hm]
    refine .ok ⟨⟨t, ?_, ?_, ?_, ?_, hI.tail, ?_, hI.room, hI.sender, ?_⟩, ?_⟩
    · rw [hlen]
      exact hI.table.give_back
    · rw [hlen, List.take_add_one, hm, ← hI.order]
      rfl
    · rw [hlen]
      exact hlt
    · rw [hlen]
      exact hhead
    · rw [hlen]
      exact hI.tail_le.trans (Nat.le_succ _)
    · rw [ReceiverOk, hlen]
      exact hhead
    · rw [FifoOp.act, if_pos hfront, Chan.queue, Chan.queue, hlen, List.tail_drop]

/-- Every action is its operation of the queue. -/
lemma step_outcome (e : Event) : Outcome k s (op k s e) (step k s e) := by
  cases e with
  | lrpcSend m =>
    simp only [step]
    split
    · exact lrpcSend_outcome hI (by assumption)
    · exact .stop nofun
  | lrpcPollSendTail =>
    simp only [step]
    split
    · rename_i hs
      refine .ok ⟨⟨_, { hI with tail := hI.wb, tail_le := le_rfl, room := ?_ }⟩, rfl⟩
      rw [hs]
      exact hI.room_le
    · exact .stop nofun
  | sender => exact senderNext_outcome hI
  | lrpcRecv =>
    simp only [step]
    split
    · exact lrpcRecv_outcome hI (by assumption)
    · exact .stop nofun
  | lrpcEmpty =>
    simp only [step]
    split
    · refine .ok ⟨⟨t, hI⟩, ?_⟩
      rw [op, FifoOp.act, if_pos (lrpcEmpty_eq hI (by assumption)).symm]
    · exact .stop nofun
  | receiver => exact receiverNext_outcome hI

end

end Step

lemma reaches_inv {s : Chan} (hs : Run.Reaches (step k) (fun _ _ => True) Initial s) : ∃ t, InvAt k s t := by
  refine hs.invariant (I := fun s => ∃ t, InvAt k s t) ?_ fun s e s' ⟨t, hI⟩ _ h => ?_
  · rintro s rfl
    exact ⟨0, ⟨by simp, by simp, by simp, by simp⟩, rfl, le_rfl, rfl, rfl, le_rfl, Nat.zero_le _, rfl, rfl⟩
  · exact ((step_outcome hI e).of_ok h).1

/-- A channel is a queue of bounded length: every action is nothing, or the operation of the queue that its function
reports, and the assertion of `__lrpc_send` holds. What was sent was received, up to the messages in the queue. -/
theorem lrpc_refines {s : Chan} (hs : Run.Reaches (step k) (fun _ _ => True) Initial s) :
    s.sent = s.received ++ s.queue ∧ s.queue.length ≤ 2 ^ k.val ∧
    (∀ e, step k s e ≠ .error .notFull) ∧
    ∀ e s', step k s e = .ok s' → (op k s e).act (2 ^ k.val) s.queue = some s'.queue := by
  obtain ⟨t, hI⟩ := reaches_inv hs
  refine ⟨?_, ?_, fun e h => (step_outcome hI e).of_error h rfl, fun e s' h => ((step_outcome hI e).of_ok h).2⟩
  · calc s.sent = s.sent.take s.received.length ++ s.queue := (List.take_append_drop ..).symm
      _ = s.received ++ s.queue := by rw [← hI.order]
  · have hlen := hI.queue_length
    have hroom := hI.room_le
    omega

def initChan : Chan := ⟨fun _ => ⟨0, 0⟩, 0, 0, 0, .idle, 0, .idle, [], []⟩

theorem lrpc_refines_one_slot : ∃ s : Chan,
    Run.Reaches (step 0) (fun _ _ => True) Initial s ∧
      (s.received = [⟨7, 1⟩] ∧ s.sent = [⟨7, 1⟩, ⟨8, 2⟩]) ∧ s.queue = [⟨8, 2⟩] := by
  obtain ⟨s, hs, hr, hsent⟩ := Run.reached (step 0) Initial (s := initChan) (P := fun s =>
      s.received = [⟨7, 1⟩] ∧ s.sent = [⟨7, 1⟩, ⟨8, 2⟩])
      [.lrpcSend ⟨7, 1⟩, .sender, .sender, .lrpcSend ⟨8, 2⟩, .sender, .lrpcRecv, .receiver, .receiver,
        .lrpcRecv, .lrpcSend ⟨8, 2⟩, .sender, .sender, .lrpcRecv, .sender]
      rfl (by decide)
  refine ⟨s, hs, ⟨hr, hsent⟩, ?_⟩
  have h := (lrpc_refines hs).1
  rw [hr, hsent] at h
  exact (List.cons.inj h).2.symm

end Aspen.Lrpc
