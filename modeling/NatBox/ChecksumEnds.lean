import NatBox.Fragment.Sendto
import NatBox.Neighbour.Router

/-
Where the loop of `checksumv6` ends: up to 65534 bytes.

`nsolicit_valid`, `nadvert_valid` and `processDatagram` sum the pseudo-header together with
the message, and run into the bound from a payload of 65495 bytes on.  The validators of
router messages sum the message alone.  None of them compares the length in the header
with the size of the packet.
-/

namespace NatBox

/-! ## `processDatagram` -/

/-- The datagram is an echo request. -/
def Datagram.asksEcho (d : Datagram) : Bool :=
  d.headers.nextHeader = ipv6Icmp && d.payload 0 = echoReq

/-- The checksum of the answer, with the addresses switched and the checksum of the request
still in its field. -/
def echoSum (heap : Mem) (d : Datagram) : Except Fault UInt16 :=
  let payload := d.payload.write 0 [echoResp]
  let pseudo := Mem.ofBlock
    (makePseudoHdr d.headers.dest d.headers.src payload d.payloadLen.toUInt32) heap
  checksumv6 pseudo (40 + d.payloadLen.toUInt32)

/-- `processDatagram`: what `sendto` comes to with the answer, if there is one. -/
def processDatagram (cfg : Config) (nd solicited : NDCache) (identif mtu : UInt32) (heap : Mem)
    (d : Datagram) (pool : Ipv6BufPool) :
    Except Fault (Option (List SentFragment × Option (Int × Ipv6BufPool))) :=
  if d.asksEcho then
    match echoSum heap d with
    | .error f => .error f
    | .ok sum =>
      let payload := (d.payload.write 0 [echoResp]).store16 2 (htons sum)
      .ok (some (sendto cfg nd solicited identif mtu d.headers.src ipv6Icmp payload d.payloadLen
        pool))
  else .ok none

/-! ## The loop -/

/-- A function comes back from the loops in it. -/
def Returns {α : Type} (r : Except Fault α) : Prop := r ≠ .error .endlessLoop

theorem returns_ok {α : Type} (x : α) : Returns (.ok x : Except Fault α) := fun h => nomatch h

theorem checksumv6_returns_iff (pkt : Mem) (len : UInt32) :
    Returns (checksumv6 pkt len) ↔ len.toNat ≤ 65534 := by
  constructor
  · intro h
    by_contra hlong
    exact h (checksumv6_endless pkt (by omega))
  · intro hshort
    obtain ⟨ck, hck, -⟩ := toNat_checksumv6 pkt (n := (len.toNat + 1) / 2) (by omega) rfl
    rw [hck]
    exact returns_ok ck

theorem toNat_pseudo_add (n : UInt16) : (40 + n.toUInt32).toNat = 40 + n.toNat := by
  have hlt := n.toNat_lt
  rw [UInt32.toNat_add, UInt16.toNat_toUInt32]
  show (40 + _) % 4294967296 = _
  omega

theorem passesChecksum_returns_iff (heap : Mem) (pkt : NetPacket) :
    Returns (passesChecksum heap pkt) ↔ pkt.ip.hostPayloadLen.toNat ≤ 65494 := by
  constructor
  · intro h
    by_contra hlong
    exact h (passesChecksum_endless heap pkt (by omega))
  · intro hshort
    rw [passesChecksum_eq heap pkt hshort]
    exact returns_ok _

theorem validAt_returns_iff (pkt : NetPacket) (start : Nat) :
    Returns (validAt pkt start) ↔ pkt.ip.hostPayloadLen.toNat ≤ 65534 := by
  have hlen : (layPseudoHdr pkt start).ip.hostPayloadLen.toUInt32.toNat =
      pkt.ip.hostPayloadLen.toNat := UInt16.toNat_toUInt32 _
  have hmsg := checksumv6_returns_iff (layPseudoHdr pkt start).body
    (layPseudoHdr pkt start).ip.hostPayloadLen.toUInt32
  rw [hlen] at hmsg
  obtain ⟨b, hb, -⟩ := @toNat_checksumv6
    (fun i => (layPseudoHdr pkt start).body (start + i)) 40 20 (by decide) (by decide)
  rw [← hmsg]
  unfold validAt cksumValid
  dsimp only
  rw [hb]
  cases checksumv6 (layPseudoHdr pkt start).body
      (layPseudoHdr pkt start).ip.hostPayloadLen.toUInt32 with
  | error f => exact ⟨fun h he => h (by rw [Except.error.inj he]), fun h he => h (by
      rw [Except.error.inj he])⟩
  | ok a => exact iff_of_true (returns_ok _) (returns_ok _)

/-! ## The callers -/

/-- A function that stops early returns. -/
theorem returns_if {α : Type} {c : Bool} {r : Except Fault α} {x : α} :
    Returns (if c then r else .ok x) ↔ (c = true → Returns r) := by
  cases c with
  | true => exact ⟨fun h _ => h, fun h => h rfl⟩
  | false => exact iff_of_true (returns_ok x) fun h => nomatch h

theorem echoSum_endless (heap : Mem) {d : Datagram} (hlong : 65494 < d.payloadLen.toNat) :
    echoSum heap d = .error .endlessLoop := by
  apply checksumv6_endless
  rw [toNat_pseudo_add]
  omega

/-- Every caller of `checksumv6` for a received message comes back from it exactly where it
stops before, or the length is one that the index reaches. -/
theorem checksum_callers_return_iff (cfg : Config) (heap : Mem) (pkt : NetPacket) (d : Datagram) :
    (Returns (nsolicitValid cfg heap pkt) ↔
      (nsolicitChecks cfg pkt = true → pkt.ip.hostPayloadLen.toNat ≤ 65494)) ∧
    (Returns (nadvertValid cfg heap pkt) ↔
      (nadvertChecks cfg pkt = true → pkt.ip.hostPayloadLen.toNat ≤ 65494)) ∧
    (Returns (radvertValid pkt) ↔ pkt.ip.hostPayloadLen.toNat ≤ 65534) ∧
    (Returns (rsolicitValid pkt) ↔
      (rsolicitChecks pkt = true → pkt.ip.hostPayloadLen.toNat ≤ 65534)) ∧
    (Returns (if d.asksEcho then echoSum heap d else .ok 0) ↔
      (d.asksEcho = true → d.payloadLen.toNat ≤ 65494)) := by
  have hecho : Returns (echoSum heap d) ↔ d.payloadLen.toNat ≤ 65494 := by
    unfold echoSum
    dsimp only
    rw [checksumv6_returns_iff, toNat_pseudo_add]
    omega
  refine ⟨?_, ?_, validAt_returns_iff pkt _, ?_, ?_⟩
  · rw [nsolicitValid_eq, returns_if, passesChecksum_returns_iff]
  · rw [nadvertValid_eq, returns_if, passesChecksum_returns_iff]
  · rw [rsolicitValid_eq, returns_if, validAt_returns_iff]
  · rw [returns_if, hecho]

/-- A router advertisement that states a payload of 65535 bytes. -/
theorem radvertValid_endless : ¬ ∀ pkt : NetPacket, Returns (radvertValid pkt) := by
  intro h
  have hpkt := h ⟨Vector.replicate 6 0, Vector.replicate 6 0, 0,
    ⟨Vector.replicate 4 0, 0xFFFF, 0, 0, unspecified, unspecified⟩, fun _ => 0, 0⟩
  rw [show Returns (radvertValid _) ↔ _ from validAt_returns_iff _ _] at hpkt
  revert hpkt
  decide

end NatBox
