import NatBox.Forward.Datagram
import NatBox.Nat.Rewrite

/-
The entry point of the IPv6 code: `ipv6_in`.

A packet for another host is translated in the direction its interface tells and
forwarded.  A packet for the box itself is offered to `incPktRW` first, whatever it
carries, and only if that finds no entry does the box process it.
-/

namespace NatBox

def isItMine (cfg : Config) (datagram : BaseHeader) : Bool :=
  matchBytes datagram.dest cfg.ipv6Addr 16 || matchBytes datagram.dest cfg.linkLocal 16 ||
    matchBytes datagram.dest cfg.snmAddr 16 || matchBytes datagram.dest cfg.allrIPmulti 16 ||
    matchBytes datagram.dest cfg.allnIPmulti 16

/-- Where `ipv6_in` sends a packet: into `fwdIPDatagram`, `icmpv6_in` or
`reassembly`, or nowhere. -/
inductive Disposition
  | dropped
  | forwarded (pkt : NetPacket)
  | icmpv6 (pkt : NetPacket)
  | fragment (pkt : NetPacket)
  | unhandled (nextHeader : UInt8)

/-- The `switch` over the next header. -/
def dispatch (pkt : NetPacket) : Disposition :=
  if pkt.ip.nextHeader = ipv6Icmp then .icmpv6 pkt
  else if pkt.ip.nextHeader = ipv6Frag then .fragment pkt
  else .unhandled pkt.ip.nextHeader

theorem dispatch_ne_forwarded (pkt p : NetPacket) : dispatch pkt ≠ .forwarded p := by
  unfold dispatch
  split
  · exact Disposition.noConfusion
  · split
    · exact Disposition.noConfusion
    · exact Disposition.noConfusion

theorem dispatch_icmpv6 {pkt pkt' : NetPacket} (h : dispatch pkt = .icmpv6 pkt') : pkt' = pkt := by
  unfold dispatch at h
  split at h
  · exact (Disposition.icmpv6.inj h).symm
  · split at h <;> cases h

/-- The branch of `ipv6_in` for packets of other hosts. -/
def forwardOther (cfg : Config) (box : Box) (pkt : NetPacket) :
    Except Fault (Disposition × Box) :=
  if cfg.host then .ok (.forwarded pkt, box)
  else if pkt.netIface.toInt = cfg.ifprime then
    match incPktRW box.nat pkt with
    | .error f => .error f
    | .ok r => if r.ret = -1 then .ok (.dropped, box) else .ok (.forwarded r.pkt, box)
  else
    match outPktRW cfg box pkt.netIface.toUInt16.toUInt8 pkt with
    | .error f => .error f
    | .ok (r, box) => if r.ret ≠ 0 then .ok (.dropped, box) else .ok (.forwarded r.pkt, box)

/-- The branch for packets of the box. -/
def receiveOwn (cfg : Config) (box : Box) (pkt : NetPacket) :
    Except Fault (Disposition × Box) :=
  if cfg.host then .ok (dispatch pkt, box)
  else
    match incPktRW box.nat pkt with
    | .error f => .error f
    | .ok r => if r.ret ≠ -1 then .ok (.forwarded r.pkt, box) else .ok (dispatch r.pkt, box)

def ipv6In (cfg : Config) (box : Box) (pkt : NetPacket) : Except Fault (Disposition × Box) :=
  if matchBytes pkt.netSrc (cfg.ifMacucast cfg.ifprime.toNat) 6 then .ok (.dropped, box)
  else if cfg.hasIPv6Addr && !isItMine cfg pkt.ip then forwardOther cfg box pkt
  else receiveOwn cfg box pkt

end NatBox
