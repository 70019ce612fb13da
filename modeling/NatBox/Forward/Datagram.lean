import NatBox.Box

/-
Sending a packet on: `fwdIPDatagram`.
-/

namespace NatBox

/-- `ETH_IPv6` -/
def ethIPv6 : UInt16 := 0x86DD

/-- What `fwdIPDatagram` does.  The cached MAC address is printed before the entry is
checked, so a missing entry is read through before nothing is written. -/
structure Forwarded where
  frame : Option NetPacket
  readsNull : Bool

/-- The next hop for a destination and the interface to it. -/
def nextHopOf (cfg : Config) (fwd : FwdTable) (dest : Ipv6Addr) : Ipv6Addr × UInt8 :=
  match getNextHop fwd dest with
  | none => (cfg.routerIpAddr, UInt8.ofInt cfg.ifprime)
  | some index =>
    match fwd.entries[index]? with
    | none => (cfg.routerIpAddr, UInt8.ofInt cfg.ifprime)
    | some e => (e.nextHop, e.iface)

def fwdIPDatagram (cfg : Config) (box : Box) (pkt : NetPacket) : Forwarded :=
  let nextHop := nextHopOf cfg box.fwd pkt.ip.dest
  match lookupNDEntry box.nd nextHop.1 with
  | none => { frame := none, readsNull := true }
  | some i =>
    { frame := some
        { pkt with
          netDst := (box.nd.get i).macAddr
          netSrc := cfg.ifMacucast nextHop.2.toNat
          netType := htons ethIPv6 }
      readsNull := false }

end NatBox
