import NatBox.Box
import NatBox.Checksum
import NatBox.Forward.Datagram

/-
Filling in a packet to be sent: the helpers of `sendipv6pkt.c`.

Every message starts from a zeroed buffer and gets its checksum last, over the
pseudo-header and the message with a zero checksum field.  `fillChecksum_ok` says what is
then stored, `foldOnce_add_complement` what a receiver's sum makes of it.
-/

namespace NatBox

open OnesComplement

/-- What a router advertisement from upstream leaves behind: `MTU`, `option_prefix_default`
and `radvert_from_router`. -/
structure RouterOptions where
  mtu : UInt32
  optionPrefixDefault : Vector UInt8 32
  radvertFromRouter : Vector UInt8 16

/-- A buffer that `memset` has cleared. -/
def clearedPacket : NetPacket where
  netDst := Vector.replicate 6 0
  netSrc := Vector.replicate 6 0
  netType := 0
  ip :=
    { info := Vector.replicate 4 0, payloadLen := 0, nextHeader := 0, hopLimit := 0,
      src := unspecified, dest := unspecified }
  body _ := 0
  netIface := 0

def fillEthernet (cfg : Config) (pkt : NetPacket) (dest : MacAddr) (iface : UInt8) : NetPacket :=
  { pkt with
    netDst := dest
    netSrc := cfg.ifMacucast iface.toNat
    netType := htons ethIPv6 }

def fillIPdatagram (packet : NetPacket) (srcIp destIp : Ipv6Addr) (length : UInt16)
    (nextHeader : UInt8) : NetPacket :=
  { packet with
    ip :=
      { info := Vector.ofFn fun i => if i.val = 0 then 0x60 else 0
        payloadLen := htons length
        nextHeader := nextHeader
        hopLimit := 255
        src := srcIp
        dest := destIp } }

/-! ## Options -/

/-- The bytes of `fill_option_one`. -/
def fillOptionOne (cfg : Config) (iface : UInt8) : List UInt8 :=
  [0x01, 0x01] ++ (cfg.ifMacucast iface.toNat).toList

/-- The bytes of `fill_option_MTU`: the MTU is cut to 16 bits. -/
def fillOptionMTU (mtu : UInt32) : List UInt8 :=
  [0x05, 0x01, 0, 0, 0, 0, (mtu >>> 8).toUInt8, mtu.toUInt8]

/-- `fillOptions` at `off`.  A type that is none of the three writes nothing and moves on by
the length of the option before it. -/
def fillOptions (cfg : Config) (ra : RouterOptions) (iface : UInt8) :
    List UInt8 → Nat → Nat → Mem → Mem
  | [], _, _, pkt => pkt
  | type :: types, off, length, pkt =>
    if type = 1 then
      fillOptions cfg ra iface types (off + 8) 8 (pkt.write off (fillOptionOne cfg iface))
    else if type = 5 then
      fillOptions cfg ra iface types (off + 8) 8 (pkt.write off (fillOptionMTU ra.mtu))
    else if type = 3 then
      fillOptions cfg ra iface types (off + 32) 32
        (pkt.write off ra.optionPrefixDefault.toList)
    else fillOptions cfg ra iface types (off + length) length pkt

/-! ## The checksum -/

/-- The last lines of every sender: the checksum over the first `len` bytes of the
message. -/
def fillChecksum (pkt : NetPacket) (len : UInt32) : Except Fault NetPacket :=
  let pseudo := Mem.ofBlock (makePseudoHdr pkt.ip.src pkt.ip.dest pkt.body len) fun _ => 0
  match checksumv6 pseudo (40 + len) with
  | .error f => .error f
  | .ok sum => .ok { pkt with body := pkt.body.store16 2 (htons sum) }

theorem fillChecksum_ok (pkt : NetPacket) {len : UInt32} {n : Nat} (hn : n < 32748)
    (hlen : len.toNat = 2 * n) :
    ∃ ck : UInt16,
      ck.toNat = 65535 -
        foldOnce (wordSum (makePseudoHdr pkt.ip.src pkt.ip.dest pkt.body len)) ∧
      fillChecksum pkt len = .ok { pkt with body := pkt.body.store16 2 (htons ck) } := by
  have hsize : (40 + len).toNat = 40 + len.toNat := by
    rw [UInt32.toNat_add]
    show (40 + _) % 4294967296 = _
    omega
  have hblock : (makePseudoHdr pkt.ip.src pkt.ip.dest pkt.body len).length = 2 * (20 + n) := by
    rw [length_makePseudoHdr, hlen, pseudoLen]
    omega
  obtain ⟨ck, hck, hv⟩ := toNat_checksumv6
    (Mem.ofBlock (makePseudoHdr pkt.ip.src pkt.ip.dest pkt.body len) fun _ => 0)
    (show 20 + n < 32768 by omega) (show ((40 + len).toNat + 1) / 2 = 20 + n by omega)
  rw [memWordSum_ofBlock hblock] at hv
  refine ⟨ck, hv, ?_⟩
  unfold fillChecksum
  dsimp only
  rw [hck]

/-- A checksum that is added where the message had zero. -/
theorem memWordSum_store16 {m : Mem} (hzero : m.load16 2 = 0) (ck : UInt16) (n : Nat) :
    memWordSum (m.store16 2 (htons ck)) 0 (n + 2) = memWordSum m 0 (n + 2) + ck.toNat := by
  have hfirst : (m.store16 2 (htons ck)).load16 0 = m.load16 0 :=
    Mem.load16_store16_of_disjoint (by omega)
  have hrest : memWordSum (m.store16 2 (htons ck)) 4 n = memWordSum m 4 n := by
    unfold memWordSum
    rw [Mem.read_store16_of_disjoint (by omega)]
  simp only [memWordSum_succ, Nat.zero_add, Nat.reduceAdd]
  rw [hfirst, hrest, Mem.load16_store16, ntohs_htons, hzero]
  have hz : (ntohs (0 : UInt16)).toNat = 0 := rfl
  omega

/-- Folding once loses nothing or one: a receiver that folds the same way finds all ones
if the sender's fold had no second carry, and otherwise zero. -/
theorem foldOnce_add_complement {s : Nat} (h : s < 65536 * 65535) :
    foldOnce (s + (65535 - foldOnce s)) = if foldCarry s = 0 then 65535 else 0 := by
  obtain ⟨high, low, rfl, hlow⟩ : ∃ high low, s = 65536 * high + low ∧ low < 65536 :=
    ⟨s / 65536, s % 65536, by omega, by omega⟩
  have hhigh : (65536 * high + low) / 65536 = high := by omega
  have hmod : (65536 * high + low) % 65536 = low := by omega
  have hlt : high < 65535 := by omega
  unfold foldOnce foldCarry
  rw [hhigh, hmod]
  by_cases hcarry : low + high < 65536
  · rw [if_pos (Nat.div_eq_of_lt hcarry)]
    have hfold : (65536 * high + low + high) % 65536 = low + high := by omega
    have hsum : 65536 * high + low + (65535 - (low + high)) = 65536 * high + (65535 - high) := by
      omega
    have hdiv : (65536 * high + (65535 - high)) / 65536 = high := by omega
    rw [hfold, hsum, hdiv]
    omega
  · rw [if_neg (by omega)]
    have hfold : (65536 * high + low + high) % 65536 = low + high - 65536 := by omega
    have hsum : 65536 * high + low + (65535 - (low + high - 65536)) =
        65536 * (high + 1) + (65535 - high) := by
      omega
    have hdiv : (65536 * (high + 1) + (65535 - high)) / 65536 = high + 1 := by omega
    rw [hfold, hsum, hdiv]
    omega

end NatBox
