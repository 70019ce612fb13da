import NatBox.Neighbour.Messages
import NatBox.Neighbour.Router

/-
The other messages the box sends: `sendipv6pkt` and `sendEchoResp`.

`sendipv6pkt` checks what it has built with the validator for its type and gives up if that
rejects it.  For a router advertisement `fillICMP` takes the length of the options in bytes
for their number, so that 45 bytes of the stack behind the array are read as types.
-/

namespace NatBox

/-- What `sendipv6pkt` reads besides the configuration: the options of the router upstream
and its addresses. -/
structure RouterInfo extends RouterOptions where
  routerLinkLocal : Ipv6Addr
  routerMacAddr : MacAddr

/-- What a call leaves: its result, and the frame it writes with the length it gives. -/
structure Sent where
  ret : Int
  written : Option (NetPacket × UInt32)

section Send

variable (cfg : Config) (info : RouterInfo)

/-- `fillICMP`; `optionTypes` is the memory at its argument of that name. -/
def fillICMP (packet : NetPacket) (type : UInt8) (optionTypes : List UInt8)
    (optionTypesLength : Nat) (iface : UInt8) : Except Fault NetPacket :=
  let msg := packet.body.write 0 [type]
  if type = routerS then fillChecksum { packet with body := msg } 8
  else if type = routerA then
    let msg := msg.write 0 info.radvertFromRouter.toList
    let msg := msg.store16 2 0
    let msg := fillOptions cfg info.toRouterOptions iface (optionTypes.take 48) radvertSize 0 msg
    fillChecksum { packet with body := msg } 64
  else if type = neighbS then
    let msg := msg.write 0 [neighbS, 0]
    let msg := msg.store16 2 0
    let msg := msg.write 8 info.routerLinkLocal.toList
    let msg := fillOptions cfg info.toRouterOptions (UInt8.ofInt cfg.ifprime)
      (optionTypes.take optionTypesLength) nsolSize 0 msg
    fillChecksum { packet with body := msg } 32
  else if type = neighbA then
    let msg := msg.write 0 [neighbA, 0]
    let msg := msg.store16 2 0
    let msg := msg.write 4 [96]
    let msg := msg.write 8 cfg.ipv6Addr.toList
    fillChecksum { packet with body := msg } 24
  else if type = echoReq then
    let msg := msg.store16 4 (htons 15)
    let msg := msg.store16 6 (htons 15)
    fillChecksum { packet with body := msg } 8
  else .ok { packet with body := msg }

/-- The packet of each type before it is checked; an unknown type leaves the buffer
cleared.  `stack` is what lies behind `option_types`. -/
def buildPacket (stack : List UInt8) (type : UInt8) (linkDest : MacAddr) (ipDest : Ipv6Addr)
    (iface : UInt8) : Except Fault NetPacket :=
  if type = routerS then
    let packet := fillEthernet cfg clearedPacket linkDest iface
    let packet := fillIPdatagram packet unspecified cfg.allrIPmulti 8 ipv6Icmp
    fillICMP cfg info packet routerS [] 0 iface
  else if type = routerA then
    let packet := fillEthernet cfg clearedPacket linkDest iface
    let packet := fillIPdatagram packet cfg.linkLocal cfg.allnIPmulti 64 ipv6Icmp
    fillICMP cfg info packet routerA ([1, 5, 3] ++ stack) 3 iface
  else if type = neighbS then
    let packet := fillEthernet cfg clearedPacket linkDest iface
    let packet := fillIPdatagram packet cfg.ipv6Addr ipDest 32 ipv6Icmp
    fillICMP cfg info packet neighbS [1] 1 iface
  else if type = neighbA then
    let packet := fillEthernet cfg clearedPacket linkDest iface
    .ok (fillIPdatagram packet cfg.ipv6Addr ipDest 24 ipv6Icmp)
  else if type = echoReq then
    let packet := fillEthernet cfg clearedPacket info.routerMacAddr iface
    let packet := fillIPdatagram packet cfg.ipv6Addr ipDest 8 ipv6Icmp
    fillICMP cfg info packet echoReq [] 0 iface
  else .ok clearedPacket

/-- The validation of a packet by its own sender, with the packet it leaves.  `heap` is what
lies behind the block in which `nsolicit_valid` and `nadvert_valid` form the checksum. -/
def selfValid (heap : Mem) (type : UInt8) (packet : NetPacket) : Except Fault (Bool × NetPacket) :=
  if type = routerS then rsolicitValid packet
  else if type = routerA then radvertValid packet
  else if type = neighbS then
    match nsolicitValid cfg heap packet with
    | .error f => .error f
    | .ok valid => .ok (valid, packet)
  else if type = neighbA then
    match nadvertValid cfg heap packet with
    | .error f => .error f
    | .ok valid => .ok (valid, packet)
  else .ok (true, packet)

/-- The variable `len`; `garbage` is what an unknown type leaves in it. -/
def sentLen (type : UInt8) (garbage : UInt32) : UInt32 :=
  if type = routerS then 62
  else if type = routerA then 118
  else if type = neighbS then 86
  else if type = neighbA then 78
  else if type = echoReq then 62
  else garbage

def sendipv6pkt (heap : Mem) (stack : List UInt8) (garbage : UInt32) (type : UInt8)
    (linkDest : MacAddr) (ipDest : Ipv6Addr) (iface : UInt8) : Except Fault Sent :=
  if type = routerA ∧ cfg.host then .ok ⟨0, none⟩
  else
    match buildPacket cfg info stack type linkDest ipDest iface with
    | .error f => .error f
    | .ok packet =>
      match selfValid cfg heap type packet with
      | .error f => .error f
      | .ok (false, _) => .ok ⟨0, none⟩
      | .ok (true, packet) => .ok ⟨1, some (packet, sentLen type garbage)⟩

/-- `sendEchoResp`: the frame it writes. -/
def sendEchoResp (ipSrc : Ipv6Addr) (macDest : MacAddr) (ipDest : Ipv6Addr)
    (identifier seqNumber : UInt16) : Except Fault NetPacket :=
  let packet := fillEthernet cfg clearedPacket macDest (UInt8.ofInt cfg.ifprime)
  let packet := fillIPdatagram packet ipSrc ipDest 8 ipv6Icmp
  let msg := packet.body.write 0 [echoResp, 0]
  let msg := msg.store16 2 0
  let msg := msg.store16 4 (htons identifier)
  let msg := msg.store16 6 (htons seqNumber)
  fillChecksum { packet with body := msg } 8

end Send

end NatBox
