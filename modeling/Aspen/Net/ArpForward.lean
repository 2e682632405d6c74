import Aspen.Net.Ip
import Mathlib.Data.Fintype.Basic
import Mathlib.Tactic.FinCases
import Mathlib.Tactic.IntervalCases

/-!
# Forwarded ARP messages

`handle_arp_packet` of `iokernel/directpath/arp_fwd.c` puts an IP header and an Ethernet header in front of an
ARP message. The IP header covers the old Ethernet header, whose source address is copied only after that:
what is copied are the addresses in the IP header (`arp_source_lost`).
-/

namespace Aspen.Ip

def ntoh32 (m : Buf) (i : ℕ) : IpAddr := BitVec.ofNat 32 (ntoh16 m i * 65536 + ntoh16 m (i + 2))

lemma hton32_ntoh32 (m : Buf) (i : ℕ) :
    hton32 (ntoh32 m i) = [m.mem i, m.mem (i + 1), m.mem (i + 2), m.mem (i + 3)] := by
  have h0 := (m.mem i).toNat_lt
  have h1 := (m.mem (i + 1)).toNat_lt
  have h2 := (m.mem (i + 2)).toNat_lt
  have h3 := (m.mem (i + 3)).toNat_lt
  simp only [hton32, hton16, ntoh32, ntoh16, BitVec.toNat_ofNat, List.cons_append, List.nil_append, List.cons.injEq,
    ← UInt8.toNat_inj, UInt8.toNat_ofNat', and_true, Nat.add_assoc, Nat.reduceAdd]
  omega

/-- A frame in a buffer of the receive queue, behind `BUF_RESERVE_SZ` bytes. -/
def received (mem : ℕ → UInt8) (len : ℕ) : Buf := ⟨mem, 64, len, 0, 0⟩

/-- The frame has the three headers, and they are those of an ARP message about IP addresses. -/
def isArp (m : Buf) : Bool := 42 ≤ m.len && ntoh16 m (m.data + 12) == 0x0806 && ntoh16 m (m.data + 14) == 1 &&
    ntoh16 m (m.data + 16) == 0x0800 && m.mem (m.data + 18) == 6 && m.mem (m.data + 19) == 4

def targetIp (m : Buf) : IpAddr := ntoh32 m (m.data + 38)

/-- The frame that is sent, if it is; `ipToProc` says for which addresses there is a process. -/
def handleArpPacket (ipToProc : IpAddr → Bool) (hostMac : Fin 6 → UInt8) (m : Buf) : Except Bug (Option Buf) :=
  let llhdr := m.data
  let ip := targetIp m
  if isArp m && ipToProc ip then do
    -- the headers of the message are pulled as well, and put back
    let m := m.pull' ethHdrLen
    let m ← m.push (ipHdr ⟨ip, 0, 0, []⟩ ipprotoDirectpathArpEncap ip (m.len + ipHdrLen))
    let shost := List.ofFn fun i : Fin 6 => m.mem (llhdr + 6 + i)
    let m ← m.push (List.ofFn hostMac ++ shost ++ hton16 0x0800)
    return some m
  else return none

variable {mem : ℕ → UInt8} {len : ℕ} {ipToProc : IpAddr → Bool} {hostMac : Fin 6 → UInt8}

/-- The frame behind the two pushes: the host's address, the target address one and a half times, and the
message behind a header with its length. -/
lemma handleArpPacket_eq (harp : isArp (received mem len))
    (hip : ipToProc (targetIp (received mem len))) :
    ∃ m', handleArpPacket ipToProc hostMac (received mem len) = .ok (some m') ∧ m'.len = 34 + (len - 14) ∧
      (∀ i : Fin 6, m'.mem (m'.data + i) = hostMac i) ∧
      (∀ i < 6, m'.mem (m'.data + 6 + i) = mem (64 + 38 + i % 4)) ∧
      m'.mem (m'.data + 16) = UInt8.ofNat ((len - 14 + 20) / 256) ∧
      m'.mem (m'.data + 17) = UInt8.ofNat (len - 14 + 20) ∧
      ∀ i, m'.mem (m'.data + 34 + i) = mem (64 + 14 + i) := by
  let b := [mem 102, mem 103, mem 104, mem 105]
  let hdr := [0x45, 0] ++ hton16 (len - 14 + 20) ++ [0, 0, 0x40, 0, 64, 252, 0, 0] ++ b ++ b
  let m2 := ((received mem len).pull' ethHdrLen).push' hdr
  let eth := List.ofFn hostMac ++ List.ofFn (fun i : Fin 6 => m2.mem (70 + i)) ++ [8, 0]
  have hb : hton32 (targetIp (received mem len)) = b := hton32_ntoh32 _ _
  obtain ⟨-, -, hmem⟩ := Buf.push_eq_ok (show ((received mem len).pull' ethHdrLen).push hdr = .ok m2 from rfl)
  obtain ⟨-, -, hmem'⟩ := Buf.push_eq_ok (show m2.push eth = .ok (m2.push' eth) from rfl)
  refine ⟨m2.push' eth, ?_, ?_, fun i => ?_, fun i hi => ?_, rfl, rfl, fun i => ?_⟩
  · change (if (isArp _ && ipToProc _) = true then _ else _) = _
    rw [harp, hip, ipHdr, hb]
    rfl
  · change len - 14 + 20 + 14 = _
    omega
  · fin_cases i <;> rfl
  · interval_cases i <;> rfl
  · have hl : hdr.length = 20 := rfl
    have hl' : eth.length = 14 := rfl
    rw [Nat.add_assoc, hmem', hl', if_neg (by omega), show 34 + i - 14 = 20 + i by omega, hmem, hl,
      if_neg (by omega), Nat.add_sub_cancel_left]
    rfl

/-- The forwarded frame has the source address of the frame, the host as its destination, and the message behind an IP
header of the right length, just if that source address is made of the target address in this way. -/
theorem arp_encapsulated (hlen : len ≤ 448) (harp : isArp (received mem len) = true)
    (hip : ipToProc (targetIp (received mem len)) = true) :
    (∃ m', handleArpPacket ipToProc hostMac (received mem len) = .ok (some m') ∧
      (∀ i < 6, m'.mem (m'.data + 6 + i) = mem (64 + 6 + i)) ∧
      (∀ i : Fin 6, m'.mem (m'.data + i) = hostMac i) ∧ ntoh16 m' (m'.data + 16) = 20 + (len - 14) ∧
      m'.len = 34 + (len - 14) ∧ ∀ i < len - 14, m'.mem (m'.data + 34 + i) = mem (64 + 14 + i)) ↔
    ∀ i < 6, mem (64 + 6 + i) = mem (64 + 38 + i % 4) := by
  obtain ⟨m', h, hlen', hdst, hsrc', hhi, hlo, hmsg⟩ := @handleArpPacket_eq mem len ipToProc hostMac harp hip
  constructor
  · rintro ⟨m'', h', hsrc, -⟩ i hi
    obtain rfl : m' = m'' := by simpa [h] using h'
    exact (hsrc i hi).symm.trans (hsrc' i hi)
  · intro hsrc
    refine ⟨m', h, fun i hi => (hsrc' i hi).trans (hsrc i hi).symm, hdst, ?_, hlen', fun i _ => hmsg i⟩
    rw [ntoh16, hhi, hlo, UInt8.toNat_ofNat', UInt8.toNat_ofNat']
    omega

def arpRequest (src : List UInt8) (i : ℕ) : UInt8 := (List.replicate 64 0 ++ [255, 255, 255, 255, 255, 255] ++ src ++
    [8, 6, 0, 1, 8, 0, 6, 4, 0, 1, 2, 0, 0, 0, 0, 1, 10, 0, 0, 1, 0, 0, 0, 0, 0, 0, 10, 0, 0, 7]).getD i 0

theorem arp_encapsulated_seven : ∃ m', handleArpPacket (fun _ => true) (fun _ => 1)
    (received (arpRequest [10, 0, 0, 7, 10, 0]) 42) = .ok (some m') ∧ ntoh16 m' (m'.data + 16) = 48 := by
  obtain ⟨m', h, -, -, hl, -⟩ := (@arp_encapsulated (arpRequest [10, 0, 0, 7, 10, 0]) 42 (fun _ => true)
    (fun _ => 1) (by decide) (by decide) rfl).2 (by decide)
  exact ⟨m', h, hl⟩

/-- The source address of the forwarded frame is 0a:00:00:07:0a:00, and not the one of the request. -/
theorem arp_source_lost : ∃ m', handleArpPacket (fun _ => true) (fun _ => 1)
    (received (arpRequest [2, 0, 0, 0, 0, 1]) 42) = .ok (some m') ∧ m'.mem (m'.data + 6) = 10 ∧
      arpRequest [2, 0, 0, 0, 0, 1] (64 + 6) = 2 :=
  ⟨_, rfl, by decide, by decide⟩

end Aspen.Ip
