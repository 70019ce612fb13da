import NatBox.Fragment.Send
import NatBox.Input
import NatBox.Lib.BufferTrace
import NatBox.Neighbour.Receive
import NatBox.Neighbour.Router

/-
What becomes of the buffer of a received packet, from `netin` down.

Each definition lists what its function does with buffers, in order, on the path its tests
take: a call that only reads or writes the packet is one `access`.  `ipv6_in` is the one
function that gives a packet back; the functions it hands the packet to give back buffers
of their own.
-/

namespace NatBox

open BufferOp

/-- The received packet, and a buffer that a sender takes for itself. -/
inductive PacketBuffer
  | received
  | outgoing
  deriving DecidableEq

abbrev PacketOps : Type := List (BufferOp PacketBuffer)

/-- What the functions below `netin` read besides the configuration. -/
structure Receiver where
  box : Box
  table : ReassemblyTable
  clktime : UInt32
  block : Mem
  mtu : UInt32

/-- What is there after a write outside of its object: an entry outside of `natTab`, or a
datagram longer than its block.  The code goes on, with anything in memory. -/
structure Wild where
  box : Box
  datagram : Datagram

def ethARP : UInt16 := 0x0806
def ethIP : UInt16 := 0x0800

/-- The packet is read or written `n` times. -/
def touches (n : Nat) : PacketOps := List.replicate n (.access .received)

/-- The end of a packet. -/
def release : PacketOps := [.freebuf .received]

/-- `sendNAD`, `sendNSOL` and `sendEchoResp` with arguments that point into the packet. -/
def replyOps : PacketOps :=
  [.getbuf .outgoing, .access .outgoing, .access .received, .access .outgoing, .freebuf .outgoing]

/-- `sendipv6pkt`: its paths differ in where they give the buffer back. -/
def sendipv6pktOps : PacketOps := [.getbuf .outgoing, .access .outgoing, .freebuf .outgoing]

/-- `fwdIPDatagram` reads the destination, and rewrites, writes and prints the packet if the
next hop has an entry. -/
def fwdIPDatagramOps (cfg : Config) (box : Box) (pkt : NetPacket) : PacketOps :=
  if (fwdIPDatagram cfg box pkt).frame.isSome then touches 4 else touches 1

section Ops

variable (cfg : Config) (heap : Mem)

/-- `icmpv6_in`, which starts by reading the length and the type. -/
def icmpv6InOps (box : Box) (pkt : NetPacket) : Except Fault PacketOps :=
  if pkt.msgType = routerA then
    match radvertValid pkt with
    | .error f => .error f
    | .ok (false, _) => .ok (touches 3)
    | .ok (true, _) =>
      -- behind the tests: print6, radvert_handler, and twice the source address
      if cfg.host then .ok (touches 7)
      else if !matchBytes pkt.netSrc defaultRouterMac 6 then .ok (touches 4)
      else .ok (touches 8 ++ sendipv6pktOps ++ sendipv6pktOps)
  else if pkt.msgType = routerS then
    if cfg.host then .ok (touches 2)
    else
      match rsolicitValid pkt with
      | .error f => .error f
      | .ok (false, _) => .ok (touches 3)
      | .ok (true, _) => .ok (touches 4 ++ sendipv6pktOps)
  else if pkt.msgType = neighbS then
    match nsolicitValid cfg heap pkt with
    | .error f => .error f
    | .ok false => .ok (touches 4)
    | .ok true =>
      .ok (touches 6 ++ (nsolicitHandler box pkt).2.flatMap fun _ => replyOps)
  else if pkt.msgType = neighbA then
    match nadvertValid cfg heap pkt with
    | .error f => .error f
    | .ok false => .ok (touches 3)
    | .ok true => .ok (touches 6)
  else if pkt.msgType = echoReq then .ok (touches 4 ++ replyOps)
  else .ok (touches 3)

/-- The loop of `fragmentDatagram`, which takes a buffer for each fragment and keeps it. -/
def fragmentLoopOps (maxPayloadLen : UInt16) : Nat → UInt16 → PacketOps
  | 0, _ => []
  | passes + 1, remainLen =>
    if remainLen = 0 then []
    else
      [.getbuf .outgoing, .access .outgoing] ++
        fragmentLoopOps maxPayloadLen passes (remainLen - fragPayloadLen maxPayloadLen remainLen)

/-- `processDatagram` answers an echo request with `sendto`. -/
def processDatagramOps (mtu : UInt32) (d : Datagram) : PacketOps :=
  if d.headers.nextHeader = ipv6Icmp ∧ d.payload 0 = echoReq ∧
      ipv6HdrLen + d.payloadLen.toNat > mtu.toNat then
    fragmentLoopOps (maxPayloadLen mtu) 65536 d.payloadLen
  else []

/-- `reassembly` copies what it keeps of the packet, and answers from the copy. -/
def reassemblyOps (wild : Wild) (st : Receiver) (pkt : NetPacket) : PacketOps :=
  match reassembly st.table st.clktime st.block pkt with
  | .error _ => touches 5 ++ processDatagramOps st.mtu wild.datagram
  | .ok (none, _) => touches 5
  | .ok (some d, _) => touches 5 ++ processDatagramOps st.mtu d

/-- The `switch` over the next header. -/
def dispatchOps (wild : Wild) (st : Receiver) (pkt : NetPacket) : Except Fault PacketOps :=
  if pkt.ip.nextHeader = ipv6Icmp then icmpv6InOps cfg heap st.box pkt
  else if pkt.ip.nextHeader = ipv6Frag then .ok (touches 1 ++ reassemblyOps wild st pkt)
  else .ok (touches 1)

/-- The branch of `ipv6_in` for packets of other hosts, up to its end or its `return`.  It goes
on behind an entry outside of `natTab`, with whatever the tables then are. -/
def forwardOtherOps (wild : Wild) (box : Box) (pkt : NetPacket) : Except Fault PacketOps :=
  if cfg.host then .ok (fwdIPDatagramOps cfg box pkt ++ release)
  else if pkt.netIface.toInt = cfg.ifprime then
    match incPktRW box.nat pkt with
    | .error f => .error f
    | .ok r =>
      if r.ret = -1 then .ok (touches 1 ++ release)
      else .ok (touches 2 ++ fwdIPDatagramOps cfg box r.pkt ++ release)
  else
    match outPktRW cfg box pkt.netIface.toUInt16.toUInt8 pkt with
    | .error (.natTabIndex _) => .ok (touches 2 ++ fwdIPDatagramOps cfg wild.box pkt ++ release)
    | .error f => .error f
    | .ok (r, box) =>
      if r.ret ≠ 0 then .ok release
      else .ok (touches 2 ++ fwdIPDatagramOps cfg box r.pkt ++ release)

/-- The branch for packets of the box. -/
def receiveOwnOps (wild : Wild) (st : Receiver) (pkt : NetPacket) : Except Fault PacketOps :=
  if cfg.host then (dispatchOps cfg heap wild st pkt).map (· ++ release)
  else
    match incPktRW st.box.nat pkt with
    | .error f => .error f
    | .ok r =>
      if r.ret ≠ -1 then .ok (touches 2 ++ fwdIPDatagramOps cfg st.box r.pkt ++ release)
      else (dispatchOps cfg heap wild st r.pkt).map (touches 1 ++ · ++ release)

/-- `ipv6_in`, which starts by comparing the source with the box's own address. -/
def ipv6InOps (wild : Wild) (st : Receiver) (pkt : NetPacket) : Except Fault PacketOps :=
  if matchBytes pkt.netSrc (cfg.ifMacucast cfg.ifprime.toNat) 6 then .ok (touches 1 ++ release)
  else if cfg.hasIPv6Addr && !isItMine cfg pkt.ip then
    (forwardOtherOps cfg wild st.box pkt).map (touches 4 ++ ·)
  else (receiveOwnOps cfg heap wild st pkt).map (touches 2 ++ ·)

/-- One packet that `netin` takes out of the queue of an interface. -/
def netinOps (wild : Wild) (st : Receiver) (iface : Int16) (pkt : NetPacket) :
    Except Fault PacketOps :=
  let pkt := { pkt with netIface := iface, netType := ntohs pkt.netType }
  if pkt.netType = ethARP then .ok (touches 3 ++ release)
  else if pkt.netType = ethIP then .ok (touches 3 ++ release)
  else if pkt.netType = ethIPv6 then (ipv6InOps cfg heap wild st pkt).map (touches 3 ++ ·)
  else .ok (touches 3 ++ release)

end Ops

/-! ## The functions that only borrow the packet -/

section Borrows

variable {cfg : Config} {heap : Mem} {box : Box} {pkt : NetPacket} {ops : PacketOps}

theorem borrows_touches (n : Nat) : Borrows PacketBuffer.received (touches n) := by
  intro hmem
  have heq := List.eq_of_mem_replicate hmem
  cases heq

theorem borrows_replyOps : Borrows PacketBuffer.received replyOps := by
  unfold Borrows
  decide

theorem borrows_sendipv6pktOps : Borrows PacketBuffer.received sendipv6pktOps := by
  unfold Borrows
  decide

theorem borrows_fwdIPDatagramOps :
    Borrows PacketBuffer.received (fwdIPDatagramOps cfg box pkt) := by
  unfold fwdIPDatagramOps
  split
  · exact borrows_touches 4
  · exact borrows_touches 1

theorem borrows_icmpv6InOps (h : icmpv6InOps cfg heap box pkt = .ok ops) :
    Borrows PacketBuffer.received ops := by
  unfold icmpv6InOps at h
  split at h
  · split at h
    · cases h
    · obtain rfl := Except.ok.inj h
      exact borrows_touches 3
    · split at h
      · obtain rfl := Except.ok.inj h
        exact borrows_touches 7
      · split at h
        · obtain rfl := Except.ok.inj h
          exact borrows_touches 4
        · obtain rfl := Except.ok.inj h
          exact ((borrows_touches 8).append borrows_sendipv6pktOps).append borrows_sendipv6pktOps
  split at h
  · split at h
    · obtain rfl := Except.ok.inj h
      exact borrows_touches 2
    · split at h
      · cases h
      · obtain rfl := Except.ok.inj h
        exact borrows_touches 3
      · obtain rfl := Except.ok.inj h
        exact (borrows_touches 4).append borrows_sendipv6pktOps
  split at h
  · split at h
    · cases h
    · obtain rfl := Except.ok.inj h
      exact borrows_touches 4
    · obtain rfl := Except.ok.inj h
      exact (borrows_touches 6).append (borrows_flatMap fun _ => borrows_replyOps)
  split at h
  · split at h
    · cases h
    · obtain rfl := Except.ok.inj h
      exact borrows_touches 3
    · obtain rfl := Except.ok.inj h
      exact borrows_touches 6
  split at h
  · obtain rfl := Except.ok.inj h
    exact (borrows_touches 4).append borrows_replyOps
  · obtain rfl := Except.ok.inj h
    exact borrows_touches 3

theorem borrows_fragmentLoopOps (maxLen : UInt16) : ∀ (passes : Nat) (remainLen : UInt16),
    Borrows PacketBuffer.received (fragmentLoopOps maxLen passes remainLen) := by
  intro passes
  induction passes with
  | zero => exact fun _ => List.not_mem_nil
  | succ passes ih =>
    intro remainLen
    unfold fragmentLoopOps
    split
    · exact List.not_mem_nil
    · refine Borrows.append ?_ (ih _)
      unfold Borrows
      decide

theorem borrows_processDatagramOps (mtu : UInt32) (d : Datagram) :
    Borrows PacketBuffer.received (processDatagramOps mtu d) := by
  unfold processDatagramOps
  split
  · exact borrows_fragmentLoopOps _ _ _
  · exact List.not_mem_nil

theorem borrows_reassemblyOps (wild : Wild) (st : Receiver) (pkt : NetPacket) :
    Borrows PacketBuffer.received (reassemblyOps wild st pkt) := by
  unfold reassemblyOps
  split
  · exact (borrows_touches 5).append (borrows_processDatagramOps _ _)
  · exact borrows_touches 5
  · exact (borrows_touches 5).append (borrows_processDatagramOps _ _)

end Borrows

/-! ## Where `ipv6_in` sends the packet -/

/-- What follows in the branch that `ipv6_in` takes, before the packet is given back. -/
def dispositionOps (cfg : Config) (heap : Mem) (wild : Wild) (st : Receiver) :
    Disposition → Except Fault PacketOps
  | .dropped => .ok []
  | .forwarded pkt => .ok (fwdIPDatagramOps cfg st.box pkt)
  | .icmpv6 pkt => icmpv6InOps cfg heap st.box pkt
  | .fragment pkt => .ok (touches 1 ++ reassemblyOps wild st pkt)
  | .unhandled _ => .ok (touches 1)

section Disposition

variable {cfg : Config} {heap : Mem} {wild : Wild} {st : Receiver} {box' : Box} {pkt : NetPacket}
  {disp : Disposition} {ops : PacketOps}

theorem borrows_dispositionOps (h : dispositionOps cfg heap wild st disp = .ok ops) :
    Borrows PacketBuffer.received ops := by
  cases disp with
  | dropped =>
    obtain rfl := Except.ok.inj h
    exact List.not_mem_nil
  | forwarded pkt =>
    obtain rfl := Except.ok.inj h
    exact borrows_fwdIPDatagramOps
  | icmpv6 pkt => exact borrows_icmpv6InOps h
  | fragment pkt =>
    obtain rfl := Except.ok.inj h
    exact (borrows_touches 1).append (borrows_reassemblyOps wild st pkt)
  | unhandled nextHeader =>
    obtain rfl := Except.ok.inj h
    exact borrows_touches 1

theorem dispatchOps_eq (cfg : Config) (heap : Mem) (wild : Wild) (st : Receiver)
    (pkt : NetPacket) :
    dispatchOps cfg heap wild st pkt = dispositionOps cfg heap wild st (dispatch pkt) := by
  unfold dispatchOps dispatch
  split
  · rfl
  · split
    · rfl
    · rfl

/-- The operations `ops` are those of the branch that `ipv6_in` takes, between accesses to the
packet and its release. -/
def EndsIn (ops branch : Except Fault PacketOps) : Prop :=
  ∃ n, ops = branch.map (touches n ++ · ++ release)

theorem forwardOtherOps_eq (h : forwardOther cfg st.box pkt = .ok (disp, box')) :
    EndsIn (forwardOtherOps cfg wild st.box pkt)
      (dispositionOps cfg heap wild { st with box := box' } disp) := by
  unfold forwardOther at h
  unfold forwardOtherOps
  by_cases hhost : cfg.host
  · rw [if_pos hhost] at h ⊢
    obtain ⟨rfl, rfl⟩ := Prod.mk.inj (Except.ok.inj h)
    exact ⟨0, rfl⟩
  rw [if_neg hhost] at h ⊢
  by_cases hinside : pkt.netIface.toInt = cfg.ifprime
  · rw [if_pos hinside] at h ⊢
    cases hr : incPktRW st.box.nat pkt with
    | error f =>
      rw [hr] at h
      cases h
    | ok r =>
      rw [hr] at h
      dsimp only at h ⊢
      by_cases hret : r.ret = -1
      · rw [if_pos hret] at h ⊢
        obtain ⟨rfl, rfl⟩ := Prod.mk.inj (Except.ok.inj h)
        exact ⟨1, rfl⟩
      · rw [if_neg hret] at h ⊢
        obtain ⟨rfl, rfl⟩ := Prod.mk.inj (Except.ok.inj h)
        exact ⟨2, rfl⟩
  · rw [if_neg hinside] at h ⊢
    cases hr : outPktRW cfg st.box pkt.netIface.toUInt16.toUInt8 pkt with
    | error f =>
      rw [hr] at h
      cases h
    | ok out =>
      obtain ⟨r, box₁⟩ := out
      rw [hr] at h
      dsimp only at h ⊢
      by_cases hret : r.ret ≠ 0
      · rw [if_pos hret] at h ⊢
        obtain ⟨rfl, rfl⟩ := Prod.mk.inj (Except.ok.inj h)
        exact ⟨0, rfl⟩
      · rw [if_neg hret] at h ⊢
        obtain ⟨rfl, rfl⟩ := Prod.mk.inj (Except.ok.inj h)
        exact ⟨2, rfl⟩

theorem receiveOwnOps_eq (h : receiveOwn cfg st.box pkt = .ok (disp, box')) :
    EndsIn (receiveOwnOps cfg heap wild st pkt)
      (dispositionOps cfg heap wild { st with box := box' } disp) := by
  unfold receiveOwn at h
  unfold receiveOwnOps
  by_cases hhost : cfg.host
  · rw [if_pos hhost] at h ⊢
    obtain ⟨rfl, rfl⟩ := Prod.mk.inj (Except.ok.inj h)
    rw [dispatchOps_eq]
    exact ⟨0, rfl⟩
  rw [if_neg hhost] at h ⊢
  cases hr : incPktRW st.box.nat pkt with
  | error f =>
    rw [hr] at h
    cases h
  | ok r =>
    rw [hr] at h
    dsimp only at h ⊢
    by_cases hret : r.ret ≠ -1
    · rw [if_pos hret] at h ⊢
      obtain ⟨rfl, rfl⟩ := Prod.mk.inj (Except.ok.inj h)
      exact ⟨2, rfl⟩
    · rw [if_neg hret] at h ⊢
      obtain ⟨rfl, rfl⟩ := Prod.mk.inj (Except.ok.inj h)
      rw [← dispatchOps_eq]
      exact ⟨1, rfl⟩

/-- Accesses before the branch. -/
theorem EndsIn.touches_append {ops branch : Except Fault PacketOps} (h : EndsIn ops branch)
    (k : Nat) : EndsIn (ops.map (touches k ++ ·)) branch := by
  obtain ⟨n, rfl⟩ := h
  refine ⟨k + n, ?_⟩
  cases branch with
  | error f => rfl
  | ok ops =>
    show Except.ok (touches k ++ (touches n ++ ops ++ release)) =
      Except.ok (touches (k + n) ++ ops ++ release)
    rw [← List.append_assoc, ← List.append_assoc]
    unfold touches
    rw [List.replicate_append_replicate]

/-- `ipv6_in` does what its disposition asks for and then gives the packet back. -/
theorem ipv6InOps_eq (h : ipv6In cfg st.box pkt = .ok (disp, box')) :
    EndsIn (ipv6InOps cfg heap wild st pkt)
      (dispositionOps cfg heap wild { st with box := box' } disp) := by
  unfold ipv6In at h
  unfold ipv6InOps
  split at h
  · rename_i hown
    obtain ⟨rfl, rfl⟩ := Prod.mk.inj (Except.ok.inj h)
    rw [if_pos hown]
    exact ⟨1, rfl⟩
  · rename_i hown
    rw [if_neg hown]
    split at h
    · rename_i hother
      rw [if_pos hother]
      exact (forwardOtherOps_eq h).touches_append 4
    · rename_i hother
      rw [if_neg hother]
      exact (receiveOwnOps_eq h).touches_append 2

/-- Behind a wrong entry of `natTab` the packet is forwarded and given back. -/
theorem forwardOtherOps_of_error {f : Fault} (h : forwardOther cfg st.box pkt = .error f)
    (hops : forwardOtherOps cfg wild st.box pkt = .ok ops) :
    ops = touches 2 ++ fwdIPDatagramOps cfg wild.box pkt ++ release := by
  unfold forwardOther at h
  unfold forwardOtherOps at hops
  by_cases hhost : cfg.host
  · rw [if_pos hhost] at h
    cases h
  rw [if_neg hhost] at h hops
  by_cases hinside : pkt.netIface.toInt = cfg.ifprime
  · rw [if_pos hinside] at h hops
    cases hr : incPktRW st.box.nat pkt with
    | error g =>
      rw [hr] at hops
      cases hops
    | ok r =>
      rw [hr] at h
      dsimp only at h
      split at h
      · cases h
      · cases h
  · rw [if_neg hinside] at h hops
    cases hr : outPktRW cfg st.box pkt.netIface.toUInt16.toUInt8 pkt with
    | error g =>
      rw [hr] at hops
      cases g with
      | natTabIndex i => exact (Except.ok.inj hops).symm
      | endlessLoop => cases hops
      | intOverflow => cases hops
      | packetOverrun => cases hops
      | datagramOverrun => cases hops
      | nullPointer => cases hops
      | panic => cases hops
    | ok r =>
      rw [hr] at h
      dsimp only at h
      split at h
      · cases h
      · cases h

theorem receiveOwnOps_of_error {f : Fault} (h : receiveOwn cfg st.box pkt = .error f) :
    ∃ g, receiveOwnOps cfg heap wild st pkt = .error g := by
  unfold receiveOwn at h
  unfold receiveOwnOps
  by_cases hhost : cfg.host
  · rw [if_pos hhost] at h
    cases h
  rw [if_neg hhost] at h ⊢
  cases hr : incPktRW st.box.nat pkt with
  | error g => exact ⟨g, rfl⟩
  | ok r =>
    rw [hr] at h
    dsimp only at h
    split at h
    · cases h
    · cases h

theorem ipv6InOps_of_error {f : Fault} (h : ipv6In cfg st.box pkt = .error f)
    (hops : ipv6InOps cfg heap wild st pkt = .ok ops) :
    ops = touches 4 ++ (touches 2 ++ fwdIPDatagramOps cfg wild.box pkt ++ release) := by
  unfold ipv6In at h
  unfold ipv6InOps at hops
  split at h
  · cases h
  rename_i hown
  rw [if_neg hown] at hops
  split at h
  · rename_i hother
    rw [if_pos hother] at hops
    obtain ⟨rest, hrest, rfl⟩ := map_ok hops
    exact congrArg (touches 4 ++ ·) (forwardOtherOps_of_error h hrest)
  · rename_i hother
    rw [if_neg hother] at hops
    obtain ⟨rest, hrest, rfl⟩ := map_ok hops
    obtain ⟨g, hg⟩ := receiveOwnOps_of_error h
    cases hg.symm.trans hrest

theorem releasesOnce_ipv6InOps (h : ipv6InOps cfg heap wild st pkt = .ok ops) :
    ReleasesOnce PacketBuffer.received ops := by
  cases hin : ipv6In cfg st.box pkt with
  | error f =>
    rw [ipv6InOps_of_error hin h]
    exact ((borrows_touches 2).append borrows_fwdIPDatagramOps).releasesOnce.borrows_append
      (borrows_touches 4)
  | ok r =>
    obtain ⟨disp, box'⟩ := r
    have hends : EndsIn (ipv6InOps cfg heap wild st pkt)
        (dispositionOps cfg heap wild { st with box := box' } disp) := ipv6InOps_eq hin
    obtain ⟨n, heq⟩ := hends
    rw [h] at heq
    obtain ⟨branch, hbranch, rfl⟩ := map_ok heq.symm
    exact ((borrows_touches n).append (borrows_dispositionOps hbranch)).releasesOnce

theorem releasesOnce_netinOps {iface : Int16}
    (h : netinOps cfg heap wild st iface pkt = .ok ops) :
    ReleasesOnce PacketBuffer.received ops := by
  unfold netinOps at h
  dsimp only at h
  split at h
  · obtain rfl := Except.ok.inj h
    exact (borrows_touches 3).releasesOnce
  split at h
  · obtain rfl := Except.ok.inj h
    exact (borrows_touches 3).releasesOnce
  split at h
  · obtain ⟨rest, hrest, rfl⟩ := map_ok h
    exact (releasesOnce_ipv6InOps hrest).borrows_append (borrows_touches 3)
  · obtain rfl := Except.ok.inj h
    exact (borrows_touches 3).releasesOnce

end Disposition

/-- Whatever `netin` takes out of its queue and whatever state it finds, once the processing
of the packet is over its buffer has been given back, one time, and nothing touches it
afterwards. -/
theorem received_released_once {cfg : Config} {heap : Mem} {wild : Wild} {st : Receiver}
    {iface : Int16} {pkt : NetPacket} {ops : PacketOps}
    (h : netinOps cfg heap wild st iface pkt = .ok ops) :
    ops.count (.freebuf .received) = 1 ∧ ReleasesOnce PacketBuffer.received ops :=
  ⟨(releasesOnce_netinOps h).count_eq_one, releasesOnce_netinOps h⟩

/-- The box before it has received anything. -/
def exampleReceiver : Receiver where
  box := Box.init
  table := ReassemblyTable.init
  clktime := 0
  block _ := 0
  mtu := 1500

def exampleWild : Wild where
  box := Box.init
  datagram := ⟨0, exampleUnsummed.ip, fun _ => 0⟩

/-- A solicitation on the first Othernet, which is answered twice. -/
theorem received_released_once_solicitation :
    ∃ ops, netinOps exampleConfig (fun _ => 0) exampleWild exampleReceiver 1 exampleUnsummed =
        .ok ops ∧ ops.length = 23 ∧ ops.count (.freebuf .received) = 1 := by
  have hrun : (match netinOps exampleConfig (fun _ => 0) exampleWild exampleReceiver 1
        exampleUnsummed with
      | .error _ => false
      | .ok ops => decide (ops.length = 23)) = true := by
    decide +kernel
  cases h : netinOps exampleConfig (fun _ => 0) exampleWild exampleReceiver 1 exampleUnsummed with
  | error f =>
    rw [h] at hrun
    cases hrun
  | ok ops =>
    rw [h] at hrun
    exact ⟨ops, rfl, of_decide_eq_true hrun, (received_released_once h).1⟩

end NatBox
