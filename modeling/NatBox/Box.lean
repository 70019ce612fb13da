import NatBox.Forward.Table
import NatBox.Neighbour.Cache

/-
The state the packet handlers share: the globals they only read, and the three
tables they change.
-/

namespace NatBox

/-- `MAXNATENTRIES` -/
abbrev maxNatEntries : Nat := 30

/-- `struct natEntry` -/
structure NatEntry where
  src : Ipv6Addr
  dest : Ipv6Addr
  iface : UInt8
  srcID : UInt16
  transID : UInt16
  deriving DecidableEq

/-- `natTab` and `NATIDCOUNTER` -/
structure NatTable where
  natTab : Vector NatEntry maxNatEntries
  natIdCounter : UInt16

/-- `natTab_init` -/
def natTabInit : NatTable where
  natTab := Vector.replicate _ ⟨unspecified, unspecified, 0, 0, 0⟩
  natIdCounter := 0

/-- The globals that packet handling reads and does not change.  `ifMacucast i` is
`if_tab[i].if_macucast`; from index `NIFACES` on it is the memory behind the
table. -/
structure Config where
  host : Bool
  ifprime : Int
  hasIPv6Addr : Bool
  ipv6Addr : Ipv6Addr
  linkLocal : Ipv6Addr
  snmAddr : Ipv6Addr
  allrIPmulti : Ipv6Addr
  allnIPmulti : Ipv6Addr
  routerIpAddr : Ipv6Addr
  ifMacucast : Nat → MacAddr

structure Box where
  nat : NatTable
  fwd : FwdTable
  nd : NDCache

/-- The tables once `NDCache_init`, `fwdipv6_init` and `natTab_init` have run. -/
def Box.init : Box where
  nat := natTabInit
  fwd := fwdipv6Init bssFwdTab
  nd := ndCacheInit

/-! ## A small network

The values the examples of this development run on.
-/

def exampleConfig : Config where
  host := false
  ifprime := 0
  hasIPv6Addr := true
  ipv6Addr := #v[0x20, 0x01, 0, 0, 0, 0, 0, 0, 0, 0, 0, 0, 0, 0, 0, 0xB0]
  linkLocal := #v[0xFE, 0x80, 0, 0, 0, 0, 0, 0, 0, 0, 0, 0, 0, 0, 0, 0xB0]
  snmAddr := #v[0xFF, 0x02, 0, 0, 0, 0, 0, 0, 0, 0, 0, 1, 0xFF, 0, 0, 0xB0]
  allrIPmulti := #v[0xFF, 0x02, 0, 0, 0, 0, 0, 0, 0, 0, 0, 0, 0, 0, 0, 2]
  allnIPmulti := #v[0xFF, 0x02, 0, 0, 0, 0, 0, 0, 0, 0, 0, 0, 0, 0, 0, 1]
  routerIpAddr := #v[0x20, 0x01, 0, 0, 0, 0, 0, 0, 0, 0, 0, 0, 0, 0, 0, 1]
  ifMacucast i := Vector.replicate 6 (UInt8.ofNat (0xB0 + i))

def exampleHost : Ipv6Addr := #v[0x20, 0x02, 0, 0, 0, 0, 0, 0, 0, 0, 0, 0, 0, 0, 0, 0xA1]

def exampleServer : Ipv6Addr := #v[0x20, 0x03, 0, 0, 0, 0, 0, 0, 0, 0, 0, 0, 0, 0, 0, 0x5E]

/-- An ICMPv6 packet with the given addresses and message bytes. -/
def examplePacket (src dest : Ipv6Addr) (msg : List UInt8) : NetPacket where
  netDst := Vector.replicate 6 0xB0
  netSrc := Vector.replicate 6 0xA1
  netType := 0xDD86
  ip :=
    { info := #v[0x60, 0, 0, 0], payloadLen := htons (UInt16.ofNat msg.length),
      nextHeader := ipv6Icmp, hopLimit := 64, src := src, dest := dest }
  body := Mem.ofBlock msg fun _ => 0
  netIface := 1

end NatBox
