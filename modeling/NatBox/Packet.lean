import NatBox.Lib.ByteMemory

/-
Packets as the network code sees them.

Every modelled function reads a packet through `struct netpacket`, its IPv6 header
through `struct base_header` laid over the first 40 bytes of `net_payload`, and
the rest of the payload at byte offsets.  `NetPacket` keeps that view: the
header is a record and `body` is the memory from byte 40 of `net_payload` on, of
which the packet owns the first `bodyLen` bytes.
-/

namespace NatBox

/-- An address in network byte order (`byte[IPV6_ASIZE]`). -/
abbrev Ipv6Addr : Type := Vector UInt8 16

/-- A link-layer address (`byte[ETH_ADDR_LEN]`). -/
abbrev MacAddr : Type := Vector UInt8 6

/-- What the C code leaves undefined, or a loop of it that never ends. -/
inductive Fault
  /-- an entry of `natTab` outside the table -/
  | natTabIndex (i : Int)
  /-- a loop whose condition never becomes false -/
  | endlessLoop
  /-- an `int` counter that would pass its largest value -/
  | intOverflow
  /-- a copy past the end of `net_payload` -/
  | packetOverrun
  /-- a copy past the end of the payload of a `Datagram` -/
  | datagramOverrun
  /-- something behind the null pointer -/
  | nullPointer
  /-- a call of `panic` -/
  | panic
  deriving DecidableEq, Repr

theorem map_ok {α β ε : Type} {f : α → β} {x : Except ε α} {y : β} (h : x.map f = .ok y) :
    ∃ a, x = .ok a ∧ f a = y := by
  cases x with
  | error e => cases h
  | ok a => exact ⟨a, rfl, Except.ok.inj h⟩

theorem map_error {α β ε : Type} {f : α → β} {x : Except ε α} {e : ε} (h : x.map f = .error e) :
    x = .error e := by
  cases x with
  | error e' => exact congrArg Except.error (Except.error.inj h)
  | ok a => cases h

theorem bind_ok {α β ε : Type} {f : α → Except ε β} {x : Except ε α} {y : β}
    (h : x >>= f = .ok y) : ∃ a, x = .ok a ∧ f a = .ok y := by
  cases x with
  | error e => cases h
  | ok a => exact ⟨a, rfl, h⟩

/-! ## Byte order -/

def ntohs (x : UInt16) : UInt16 :=
  ((x >>> 8) &&& (0xff : UInt16)) ||| ((x &&& (0xff : UInt16)) <<< 8)

def htons (x : UInt16) : UInt16 :=
  ((x >>> 8) &&& (0xff : UInt16)) ||| ((x &&& (0xff : UInt16)) <<< 8)

def ntohl (x : UInt32) : UInt32 :=
  ((x >>> 24) &&& (0x000000ff : UInt32)) ||| ((x >>> 8) &&& (0x0000ff00 : UInt32)) |||
    ((x <<< 8) &&& (0x00ff0000 : UInt32)) ||| ((x <<< 24) &&& (0xff000000 : UInt32))

def htonl (x : UInt32) : UInt32 :=
  ((x >>> 24) &&& (0x000000ff : UInt32)) ||| ((x >>> 8) &&& (0x0000ff00 : UInt32)) |||
    ((x <<< 8) &&& (0x00ff0000 : UInt32)) ||| ((x <<< 24) &&& (0xff000000 : UInt32))

theorem toNat_ntohs (x : UInt16) :
    (ntohs x).toNat = x.toNat / 256 + 256 * (x.toNat % 256) := by
  have hx := x.toNat_lt
  have hmask : ∀ y : Nat, y &&& 255 = y % 256 := fun y => Nat.and_two_pow_sub_one_eq_mod y 8
  simp only [ntohs, UInt16.toNat_or, UInt16.toNat_and, UInt16.toNat_shiftLeft,
    UInt16.toNat_shiftRight, UInt16.reduceToNat, hmask, Nat.shiftRight_eq_div_pow,
    Nat.shiftLeft_eq, Nat.reduceMod, Nat.reducePow]
  rw [Nat.or_comm, show x.toNat % 256 * 256 % 65536 = (x.toNat % 256) <<< 8 by
    rw [Nat.shiftLeft_eq]; omega, ← Nat.shiftLeft_add_eq_or_of_lt (by omega), Nat.shiftLeft_eq]
  omega

theorem htons_eq_ntohs (x : UInt16) : htons x = ntohs x := rfl

@[simp] theorem ntohs_htons (x : UInt16) : ntohs (htons x) = x := by
  have hx := x.toNat_lt
  refine UInt16.toNat_inj.mp ?_
  rw [toNat_ntohs, htons_eq_ntohs, toNat_ntohs]
  omega

@[simp] theorem ntohl_htonl (x : UInt32) : ntohl (htonl x) = x := by
  refine UInt32.eq_of_toBitVec_eq ?_
  simp only [ntohl, htonl, UInt32.toBitVec_or, UInt32.toBitVec_and, UInt32.toBitVec_shiftLeft,
    UInt32.toBitVec_shiftRight]
  ext i hi
  interval_cases i <;> simp [BitVec.getElem_and]

/-- A 16-bit field read in host order is its first byte times 256 plus its
second. -/
theorem toNat_ntohs_load16 (m : Mem) (off : Nat) :
    (ntohs (m.load16 off)).toNat = (m off).toNat * 256 + (m (off + 1)).toNat := by
  have h₀ := (m off).toNat_lt
  have h₁ := (m (off + 1)).toNat_lt
  rw [toNat_ntohs, Mem.toNat_load16]
  omega

/-! ## Headers -/

/-- `struct base_header`.  `payloadLen` holds the two bytes as the processor loads
them, so it reads as a length only through `ntohs`. -/
structure BaseHeader where
  info : Vector UInt8 4
  payloadLen : UInt16
  nextHeader : UInt8
  hopLimit : UInt8
  src : Ipv6Addr
  dest : Ipv6Addr
  deriving DecidableEq

/-- `struct netpacket`, without the CRC that no modelled function reads. -/
structure NetPacket where
  netDst : MacAddr
  netSrc : MacAddr
  netType : UInt16
  ip : BaseHeader
  body : Mem
  netIface : Int16

/-- `IPV6_HDR_LEN` -/
def ipv6HdrLen : Nat := 40

/-- `sizeof(net_payload)` -/
def netPayloadSize : Nat := 1500

/-- The bytes of `net_payload` behind the IPv6 header. -/
def bodyLen : Nat := netPayloadSize - ipv6HdrLen

def ipv6Icmp : UInt8 := 0x3A
def ipv6Frag : UInt8 := 0x2C

def echoReq : UInt8 := 0x80
def echoResp : UInt8 := 0x81
def routerS : UInt8 := 0x85

/-- The unspecified address. -/
def unspecified : Ipv6Addr := Vector.replicate 16 0

/-- The payload length in host byte order. -/
def BaseHeader.hostPayloadLen (h : BaseHeader) : UInt16 := ntohs h.payloadLen

/-! ## `struct icmpv6echoreq` over the body -/

def NetPacket.msgType (pkt : NetPacket) : UInt8 := pkt.body 0

/-- The field `identifier` in host byte order. -/
def NetPacket.identifier (pkt : NetPacket) : UInt16 := ntohs (pkt.body.load16 4)

/-- `match`: the first `len` bytes agree.  Callers keep `len` within both
arrays. -/
def matchBytes {n : Nat} (a b : Vector UInt8 n) (len : Nat) : Bool :=
  (List.range len).all fun i => a[i]? == b[i]?

theorem matchBytes_iff {n : Nat} {a b : Vector UInt8 n} {len : Nat} :
    matchBytes a b len = true ↔ ∀ i, i < len → a[i]? = b[i]? := by
  simp [matchBytes]

theorem matchBytes_self_length {n : Nat} {a b : Vector UInt8 n} :
    matchBytes a b n = true ↔ a = b := by
  rw [matchBytes_iff]
  constructor
  · intro h
    refine Vector.ext fun i hi => ?_
    have := h i hi
    rwa [Vector.getElem?_eq_getElem hi, Vector.getElem?_eq_getElem hi, Option.some.injEq] at this
  · rintro rfl i _
    rfl

end NatBox
