import Aspen.Lib.Run

/-!
# IP packets

`net_tx_ip` pushes an IP header, and then either copies the packet to its own receive path or asks ARP for
the next hop. An error of ARP takes the header off again, a failed copy does not (`failed_packet_returned`).
-/

namespace Aspen.Ip

open Run

abbrev IpAddr := BitVec 32

inductive Errno where
  | enomem

inductive Bug where
  | push | pull | trim

/-- `struct mbuf` and the memory of its buffer; pointers are offsets from `head`. -/
structure Buf where
  mem : ℕ → UInt8
  data : ℕ
  len : ℕ
  networkOff : BitVec 16
  txflags : BitVec 32

structure Netcfg where
  addr : IpAddr
  netmask : IpAddr
  gateway : IpAddr
  mac : List UInt8

variable (cfg : Netcfg) (proto : UInt8) (daddr : IpAddr) (m : Buf) (len n : ℕ)

/-- `mbuf_push` of a header that is then filled in -/
def Buf.push' (hdr : List UInt8) : Buf := let data := m.data - hdr.length
  { m with
    mem := fun i => if data ≤ i ∧ i < m.data then hdr.getD (i - data) 0 else m.mem i
    data := data
    len := m.len + hdr.length }

def Buf.push (hdr : List UInt8) : Except Bug Buf := if m.data < hdr.length then .error .push else .ok (m.push' hdr)

def Buf.pull' : Buf := { m with data := m.data + n, len := m.len - n }

def Buf.pull : Except Bug Buf := if m.len < n then .error .pull else .ok (m.pull' n)

def Buf.trim : Except Bug Buf := if m.len < n then .error .trim else .ok { m with len := m.len - n }

def Buf.markNetworkOffset : Buf := { m with networkOff := BitVec.ofNat 16 m.data }

def hton16 (x : ℕ) : List UInt8 := [UInt8.ofNat (x / 256), UInt8.ofNat x]

def hton32 (x : IpAddr) : List UInt8 := hton16 (x.toNat / 65536) ++ hton16 x.toNat

def ipHdrLen : ℕ := 20

def ethHdrLen : ℕ := 14

def ipprotoIcmp : UInt8 := 1
def ipprotoTcp : UInt8 := 6
def ipprotoUdp : UInt8 := 17
def ipprotoDirectpathArpEncap : UInt8 := 252

/-- What `net_push_iphdr` writes; `len` counts the header. -/
def ipHdr : List UInt8 :=
  [0x45, 0] ++ hton16 len ++ hton16 0 ++ hton16 0x4000 ++ [64, proto] ++ hton16 0 ++ hton32 cfg.addr ++ hton32 daddr

def netGetIpRoute : IpAddr := if daddr &&& cfg.netmask ≠ cfg.addr &&& cfg.netmask then cfg.gateway else daddr

/-- What `arp_lookup` returns -/
inductive ArpLookup where
  | found (dhost : List UInt8)
  | inProgress
  | enomem

structure Env where
  arpLookup : IpAddr → ArpLookup
  /-- the memory that `smalloc` finds for the copy, with what was left in it -/
  smalloc : Option Buf
  spawned : Bool

/-- The packet that is passed to `net_rx_trans`, if there is one. -/
def netTxLocalLoopback (env : Env) (mIn : Buf) (proto : UInt8) : Except Bug (Option Errno × Option Buf) :=
  match env.smalloc with
  | none => .ok (some .enomem, none)
  | some m => do
    let mem i := if i < mIn.len then mIn.mem (mIn.data + i) else m.mem i
    let m ← { m with mem := mem, data := 0, len := mIn.len : Buf }.pull ipHdrLen
    if proto = ipprotoUdp ∨ proto = ipprotoTcp then return (none, if env.spawned then some m else none)
    else return (none, none)

/-- What `net_tx_ip` returns, the buffer as it leaves it, and the packet for `net_rx_trans`. -/
structure Sent where
  ret : Option Errno
  m : Buf
  rx : Option Buf

def netTxIp (env : Env) (m : Buf) (proto : UInt8) (daddr : IpAddr) : Except Bug Sent := do
  let m ← m.push (ipHdr cfg proto daddr (m.len + ipHdrLen))
  let m := m.markNetworkOffset
  if daddr = cfg.addr then
    let (ret, rx) ← netTxLocalLoopback env m proto
    return ⟨ret, m, rx⟩
  let m := { m with txflags := m.txflags ||| 5 }
  match env.arpLookup (netGetIpRoute cfg daddr) with
  | .inProgress => return ⟨none, m, none⟩
  | .enomem =>
    let m ← m.pull ipHdrLen
    return ⟨some .enomem, m, none⟩
  | .found dhost =>
    let m ← m.push (dhost ++ cfg.mac ++ hton16 0x0800)
    return ⟨none, m, none⟩

lemma length_ipHdr : (ipHdr cfg proto daddr len).length = ipHdrLen := rfl

variable {cfg : Netcfg} {env : Env} {m m' : Buf} {hdr : List UInt8} {proto : UInt8} {daddr : IpAddr} {r : Sent}

lemma Buf.push_eq_ok (h : m.push hdr = .ok m') : m'.data + hdr.length = m.data ∧ m'.len = m.len + hdr.length ∧
      ∀ i, m'.mem (m'.data + i) =
        if i < hdr.length then hdr.getD i 0 else m.mem (m.data + (i - hdr.length)) := by
  obtain ⟨hroom, ⟨⟩⟩ := guard_not_eq_ok.1 h
  refine ⟨Nat.sub_add_cancel (Nat.le_of_not_lt hroom), rfl, fun i => ?_⟩
  unfold push'
  dsimp only
  split_ifs with h h' h'
  · rw [Nat.add_sub_cancel_left]
  · omega
  · omega
  · congr 1
    omega

lemma netTxLocalLoopback_ret {x : Option Errno × Option Buf} (h : netTxLocalLoopback env m proto = .ok x)
    (halloc : env.smalloc ≠ none) : x.1 = none := by
  unfold netTxLocalLoopback at h
  obtain ⟨m', hm'⟩ := Option.ne_none_iff_exists'.1 halloc
  simp only [hm', bind_eq_ok] at h
  obtain ⟨m1, -, h⟩ := h
  split_ifs at h <;> cases h <;> rfl

/-- A failed `net_tx_ip` leaves the place, the length and the bytes of the packet as they were just if the packet is not
for the host itself or there is memory for a copy. -/
theorem failed_packet_returned (h : netTxIp cfg env m proto daddr = .ok r) (hret : r.ret ≠ none) :
    (r.m.data = m.data ∧ r.m.len = m.len ∧ ∀ i, r.m.mem (m.data + i) = m.mem (m.data + i)) ↔
      daddr ≠ cfg.addr ∨ env.smalloc ≠ none := by
  obtain ⟨m1, hpush, h⟩ := bind_eq_ok.1 h
  obtain ⟨hdata, hlen, hmem⟩ := Buf.push_eq_ok hpush
  rw [length_ipHdr] at hdata hlen hmem
  split_ifs at h with hself
  · obtain ⟨x, hloop, ⟨⟩⟩ := bind_eq_ok.1 h
    constructor
    · rintro ⟨hsame, -⟩
      -- the header that was pushed is still there
      change m1.data = m.data at hsame
      simp only [ipHdrLen] at hdata
      omega
    · intro hown
      exact absurd (netTxLocalLoopback_ret hloop (hown.resolve_left (absurd hself))) hret
  · refine iff_of_true ?_ (.inl hself)
    cases harp : env.arpLookup (netGetIpRoute cfg daddr) with
    | inProgress =>
      rw [harp] at h
      cases h
      exact absurd rfl hret
    | enomem =>
      rw [harp] at h
      obtain ⟨m2, hpull, ⟨⟩⟩ := bind_eq_ok.1 h
      obtain ⟨-, ⟨⟩⟩ := guard_not_eq_ok.1 hpull
      refine ⟨hdata, Nat.sub_eq_of_eq_add hlen, fun i => ?_⟩
      have hi := hmem (ipHdrLen + i)
      rwa [← Nat.add_assoc, hdata, if_neg (by omega), Nat.add_sub_cancel_left] at hi
    | found dhost =>
      rw [harp] at h
      obtain ⟨m2, -, ⟨⟩⟩ := bind_eq_ok.1 h
      exact absurd rfl hret

def netcfg : Netcfg := ⟨0x0a000001, 0xffffff00, 0x0a0000fe, [2, 0, 0, 0, 0, 1]⟩

def packet : Buf := ⟨fun _ => 0, 128, 40, 0, 0⟩

theorem failed_packet_returned_arp : ∃ r,
    netTxIp netcfg ⟨fun _ => .enomem, none, true⟩ packet ipprotoTcp 0x0a000002 = .ok r ∧ r.m.data = 128 := by
  obtain ⟨r, hr, hret⟩ : ∃ r, netTxIp netcfg ⟨fun _ => .enomem, none, true⟩ packet ipprotoTcp 0x0a000002 =
      .ok r ∧ r.ret ≠ none := ⟨_, rfl, by simp⟩
  exact ⟨r, hr, ((failed_packet_returned hr hret).2 (.inl (by decide))).1⟩

/-- Without memory for the copy, the packet is returned with its IP header. -/
theorem failed_packet_longer : ∃ r,
    netTxIp netcfg ⟨fun _ => .enomem, none, true⟩ packet ipprotoTcp netcfg.addr = .ok r ∧
      r.ret = some .enomem ∧ r.m.data = packet.data - 20 ∧ r.m.len = packet.len + 20 :=
  ⟨_, rfl, rfl, rfl, rfl⟩

/-! ## The way in -/

def ntoh16 (m : Buf) (i : ℕ) : ℕ := (m.mem i).toNat * 256 + (m.mem (i + 1)).toNat

/-- `ip_hdr_supported`; the flag for more fragments is looked for in the wrong byte. -/
def ipHdrSupported (m : Buf) (i : ℕ) : Bool := m.mem i == 0x45 && m.mem (i + 7) &&& 0x20 == 0

inductive Rx where
  | arp (m : Buf)
  | icmp (m : Buf)
  | trans (m : Buf)
  | drop

def Buf.trimTo (m : Buf) (len : ℕ) : Except Bug Buf := if len < m.len then m.trim (m.len - len) else .ok m

lemma Buf.trimTo_eq {n : ℕ} (h : n ≤ m.len) : m.trimTo n = .ok { m with len := n } := by
  unfold trimTo trim
  split_ifs with hlt hbug
  · omega
  · rw [Nat.sub_sub_self h]
  · rw [Nat.le_antisymm h (Nat.le_of_not_lt hlt)]

/-- `chksumOk` says that the checksum of the IP header has been verified by the hardware or is right. -/
def netRxOne (cfg : Netcfg) (chksumOk : Bool) (m : Buf) : Except Bug Rx := do
  if m.len < ethHdrLen then return .drop
  let ll := m.data
  let m := m.pull' ethHdrLen
  if ntoh16 m (ll + 12) = 0x0806 then return .arp m
  if ntoh16 m (ll + 12) ≠ 0x0800 ∨ (List.range 6).map (fun i => m.mem (ll + i)) ≠ cfg.mac then return .drop
  let m := m.markNetworkOffset
  if m.len < ipHdrLen then return .drop
  let ip := m.data
  let m := m.pull' ipHdrLen
  if !chksumOk then return .drop
  if !ipHdrSupported m ip then return .drop
  let len := (BitVec.ofNat 16 (ntoh16 m (ip + 2)) - BitVec.ofNat 16 ipHdrLen).toNat
  if m.len < len then return .drop
  let m ← m.trimTo len
  let proto := m.mem (ip + 9)
  if proto = ipprotoIcmp then return .icmp m
  if proto = ipprotoUdp ∨ proto = ipprotoTcp then return .trans m
  if proto = ipprotoDirectpathArpEncap then return .arp m
  return .drop

/-- What the transport layer gets to see: an IP header at the network offset and the segment right behind it. -/
structure View (m : Buf) (hdr : List UInt8) (seg : ℕ → UInt8) (n : ℕ) : Prop where
  off : m.networkOff.toNat + ipHdrLen = m.data
  hdr : ∀ i, i < ipHdrLen → m.mem (m.networkOff.toNat + i) = hdr.getD i 0
  len : m.len = n
  seg : ∀ i, i < n → m.mem (m.data + i) = seg i

/-- A frame with an IP packet in it, and any padding behind that. -/
structure Frame (cfg : Netcfg) (w : Buf) (hdr : List UInt8) (seg : ℕ → UInt8) (n : ℕ) : Prop where
  data : w.data = 0
  room : ethHdrLen + ipHdrLen + n ≤ w.len
  type : ntoh16 w 12 = 0x0800
  dhost : (List.range 6).map (fun i => w.mem i) = cfg.mac
  hdr : ∀ i, i < ipHdrLen → w.mem (ethHdrLen + i) = hdr.getD i 0
  seg : ∀ i, i < n → w.mem (ethHdrLen + ipHdrLen + i) = seg i

lemma netTxIp_loopback {v : Buf} (h : netTxIp cfg env m proto cfg.addr = .ok r) (hrx : r.rx = some v) :
    (proto = ipprotoUdp ∨ proto = ipprotoTcp) ∧ ∃ f, env.smalloc = some f ∧
      v.networkOff = f.networkOff ∧ v.data = ipHdrLen ∧ v.len = m.len ∧ ∀ i, i < m.len + ipHdrLen →
        v.mem i = if i < ipHdrLen then (ipHdr cfg proto cfg.addr (m.len + ipHdrLen)).getD i 0
          else m.mem (m.data + (i - ipHdrLen)) := by
  obtain ⟨m1, hpush, h⟩ := bind_eq_ok.1 h
  obtain ⟨-, hlen, hmem⟩ := Buf.push_eq_ok hpush
  rw [length_ipHdr] at hlen hmem
  simp only [if_true] at h
  obtain ⟨x, hloop, ⟨⟩⟩ := bind_eq_ok.1 h
  unfold netTxLocalLoopback at hloop
  cases hf : env.smalloc with
  | none =>
    rw [hf] at hloop
    cases hloop
    cases hrx
  | some f =>
    simp only [hf] at hloop
    obtain ⟨m2, hpull, hloop⟩ := bind_eq_ok.1 hloop
    obtain ⟨-, ⟨⟩⟩ := guard_not_eq_ok.1 hpull
    split_ifs at hloop with hproto hspawned <;> cases hloop <;> cases hrx
    exact ⟨hproto, f, rfl, rfl, rfl, Nat.sub_eq_of_eq_add hlen,
      fun i hi => (if_pos (lt_of_lt_of_eq hi hlen.symm)).trans (hmem i)⟩

lemma netRxOne_frame {w : Buf} {seg : ℕ → UInt8} {n : ℕ} (hproto : proto = ipprotoUdp ∨ proto = ipprotoTcp)
    (hn : n + ipHdrLen < 2 ^ 16) (h : Frame cfg w (ipHdr cfg proto daddr (n + ipHdrLen)) seg n) :
    ∃ v, netRxOne cfg true w = .ok (.trans v) ∧ View v (ipHdr cfg proto daddr (n + ipHdrLen)) seg n := by
  have hroom := h.room
  simp only [ethHdrLen, ipHdrLen] at hroom hn
  have hver : w.mem 14 = 0x45 := h.hdr 0 (by decide)
  have hoff : w.mem 21 = 0 := h.hdr 7 (by decide)
  have hprot : w.mem 23 = proto := h.hdr 9 (by decide)
  have hip : ntoh16 w 16 = n + 20 := by
    have h2 : w.mem 16 = UInt8.ofNat ((n + 20) / 256) := h.hdr 2 (by decide)
    have h3 : w.mem 17 = UInt8.ofNat (n + 20) := h.hdr 3 (by decide)
    rw [ntoh16, h2, h3, UInt8.toNat_ofNat', UInt8.toNat_ofNat']
    omega
  have hlen : (BitVec.ofNat 16 (n + 20) - BitVec.ofNat 16 20).toNat = n := by bv_omega
  have htype := h.type
  unfold ntoh16 at htype hip
  have hll : ¬ w.len < 14 := by omega
  have hhdr : ¬ w.len - 14 < 20 := by omega
  have hfit : n ≤ w.len - 14 - 20 := by omega
  refine ⟨{ w with data := 34, len := n, networkOff := 14 }, ?_, rfl, fun i hi => h.hdr i hi, rfl, fun i hi => h.seg i hi⟩
  simp only [netRxOne, Buf.pull', Buf.markNetworkOffset, ntoh16, ipHdrSupported, ethHdrLen, ipHdrLen, h.data,
    Nat.zero_add, if_neg hll, if_neg hhdr, htype, hip, hlen, hver, hoff]
  rw [if_neg (by decide), if_neg (by simp [h.dhost]), if_neg (by decide), if_neg (by decide),
    if_neg (Nat.not_lt.2 hfit), Buf.trimTo_eq hfit]
  show (if w.mem 23 = _ then _ else _) = _
  rw [hprot]
  rcases hproto with rfl | rfl <;> rfl

/-- A frame with the packet shows the transport layer the packet after `net_rx_one`; the copy of a TCP or UDP packet shows
the same just if the buffer that `smalloc` finds has a zero for the network offset. -/
theorem loopback_as_wire {v : Buf} (h : netTxIp cfg env m proto cfg.addr = .ok r) (hrx : r.rx = some v)
    (hlen : m.len + ipHdrLen < 2 ^ 16) :
    (View v (ipHdr cfg proto cfg.addr (m.len + ipHdrLen)) (fun i => m.mem (m.data + i)) m.len ↔
      ∀ f, env.smalloc = some f → f.networkOff = 0#16) ∧
    ∀ w, Frame cfg w (ipHdr cfg proto cfg.addr (m.len + ipHdrLen)) (fun i => m.mem (m.data + i)) m.len →
      ∃ w', netRxOne cfg true w = .ok (.trans w') ∧
        View w' (ipHdr cfg proto cfg.addr (m.len + ipHdrLen)) (fun i => m.mem (m.data + i)) m.len := by
  obtain ⟨hproto, f, hf, hoff, hdata, hvlen, hmem⟩ := netTxIp_loopback h hrx
  refine ⟨⟨fun hview f' hf' => ?_, fun hzero => ?_⟩, fun w hw => netRxOne_frame hproto hlen hw⟩
  · obtain rfl : f = f' := Option.some.inj (hf.symm.trans hf')
    have hsum := hview.off
    rw [hdata, hoff] at hsum
    exact BitVec.eq_of_toNat_eq (Nat.add_eq_right.1 hsum)
  · have hoff : v.networkOff.toNat = 0 := by rw [hoff, hzero f hf, BitVec.toNat_zero]
    refine ⟨by rw [hoff, hdata, Nat.zero_add], fun i hi => ?_, hvlen, fun i hi => ?_⟩
    · rw [hoff, Nat.zero_add, hmem i (by omega), if_pos hi]
    · rw [hdata, hmem _ (by omega), if_neg (by omega), Nat.add_sub_cancel_left]

def fresh (off : BitVec 16) : Env := ⟨fun _ => .inProgress, some ⟨fun _ => 0, 0, 0, off, 0⟩, true⟩

theorem loopback_as_wire_zero : ∃ r v, netTxIp netcfg (fresh 0) packet ipprotoTcp netcfg.addr = .ok r ∧
    r.rx = some v ∧ v.mem (v.networkOff.toNat + 9) = ipprotoTcp := by
  obtain ⟨r, v, hr, hv⟩ : ∃ r v, netTxIp netcfg (fresh 0) packet ipprotoTcp netcfg.addr = .ok r ∧
      r.rx = some v := ⟨_, _, rfl, rfl⟩
  have hview := (loopback_as_wire hr hv (by decide)).1.2 fun f hf => by cases hf; rfl
  exact ⟨r, v, hr, hv, hview.hdr 9 (by decide)⟩

/-- With anything else there, `trans_lookup` takes the protocol from another place. -/
theorem loopback_stale_offset : ∃ r v, netTxIp netcfg (fresh 20) packet ipprotoTcp netcfg.addr = .ok r ∧
    r.rx = some v ∧ v.mem (v.networkOff.toNat + 9) ≠ ipprotoTcp :=
  ⟨_, _, rfl, rfl, by decide⟩

end Aspen.Ip
