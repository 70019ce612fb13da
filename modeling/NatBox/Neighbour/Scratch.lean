import NatBox.Neighbour.Receive
import NatBox.Neighbour.Router

/-
Where `rsolicit_valid` and `radvert_valid` write.

Both build the pseudo-header for the checksum in the packet.  `rsolicitLays` and `radvertLays`
say where, and the two functions are the sums over what that leaves.
-/

namespace NatBox

/-- The bytes of `struct netpacket` from the message on: the rest of `net_payload`, the CRC and
the interface. -/
def packetRoom : Nat := bodyLen + 6

/-- Where `rsolicit_valid` lays the pseudo-header, if it comes to that. -/
def rsolicitLays (pkt : NetPacket) : Option Nat :=
  if rsolicitChecks pkt then some 4 else none

/-- Where `radvert_valid` lays it. -/
def radvertLays (pkt : NetPacket) : Option Nat := some pkt.ip.payloadLen.toNat

/-- The rest of the two functions. -/
def validLaid (pkt : NetPacket) : Option Nat → Except Fault (Bool × NetPacket)
  | none => .ok (false, pkt)
  | some start => validAt pkt start

/-- Nothing of the packet that counts is overwritten: the header and the message are as they
were, and the pseudo-header lies in the buffer, behind the message. -/
structure LeavesMessage (pkt : NetPacket) (start : Nat) : Prop where
  header : (layPseudoHdr pkt start).ip = pkt.ip
  message : ∀ i, i < pkt.ip.hostPayloadLen.toNat → (layPseudoHdr pkt start).body i = pkt.body i
  inside : start + 40 ≤ packetRoom
  outside : pkt.ip.hostPayloadLen.toNat ≤ start

theorem rsolicitValid_eq_laid (pkt : NetPacket) :
    rsolicitValid pkt = validLaid pkt (rsolicitLays pkt) := by
  rw [rsolicitValid_eq, rsolicitLays]
  cases rsolicitChecks pkt with
  | false => rfl
  | true => rfl

/-- Behind the message nothing of it is overwritten. -/
theorem leavesMessage_iff {pkt : NetPacket} {start : Nat} :
    LeavesMessage pkt start ↔
      start + 40 ≤ packetRoom ∧ pkt.ip.hostPayloadLen.toNat ≤ start := by
  constructor
  · exact fun h => ⟨h.inside, h.outside⟩
  · rintro ⟨hinside, houtside⟩
    exact ⟨rfl, fun i hi => body_layPseudoHdr (Or.inl (by omega)), hinside, houtside⟩

/-- The validators of router messages write behind the message and in the buffer exactly if a
solicitation is turned away before or has at most four bytes, and if the length of an
advertisement with its bytes swapped is no smaller than the length itself and leaves room. -/
theorem router_scratch_iff (pkt : NetPacket) :
    (rsolicitValid pkt = validLaid pkt (rsolicitLays pkt) ∧
      radvertValid pkt = validLaid pkt (radvertLays pkt)) ∧
    ((∀ start, rsolicitLays pkt = some start → LeavesMessage pkt start) ↔
      rsolicitChecks pkt = false ∨ pkt.ip.hostPayloadLen.toNat ≤ 4) ∧
    ((∀ start, radvertLays pkt = some start → LeavesMessage pkt start) ↔
      pkt.ip.hostPayloadLen.toNat ≤ pkt.ip.payloadLen.toNat ∧
        pkt.ip.payloadLen.toNat ≤ 1426) := by
  refine ⟨⟨rsolicitValid_eq_laid pkt, rfl⟩, ?_, ?_⟩
  · unfold rsolicitLays
    cases hchecks : rsolicitChecks pkt with
    | false => exact iff_of_true (fun start h => nomatch h) (Or.inl rfl)
    | true =>
      rw [if_pos rfl, or_iff_right (by simp)]
      constructor
      · exact fun h => (h 4 rfl).outside
      · intro hlen start hstart
        obtain rfl := Option.some.inj hstart
        exact leavesMessage_iff.mpr ⟨by decide, hlen⟩
  · unfold radvertLays
    constructor
    · intro h
      obtain ⟨hinside, houtside⟩ := leavesMessage_iff.mp (h _ rfl)
      have hroom : pkt.ip.payloadLen.toNat + 40 ≤ 1466 := hinside
      exact ⟨houtside, by omega⟩
    · rintro ⟨houtside, hinside⟩ start hstart
      obtain rfl := Option.some.inj hstart
      have hroom : pkt.ip.payloadLen.toNat + 40 ≤ 1466 := by omega
      exact leavesMessage_iff.mpr ⟨hroom, houtside⟩

/-- A solicitation of eight bytes, and the sixty-four bytes of an advertisement as the NAT box
sends it: the one loses its last bytes, the other has the pseudo-header far behind the buffer. -/
theorem router_scratch_fails :
    (∃ start, rsolicitLays (exampleNeighbourMessage exampleHost exampleConfig.allrIPmulti
        [0x85, 0, 0, 0, 0, 0, 0, 0]) = some start ∧
      (layPseudoHdr (exampleNeighbourMessage exampleHost exampleConfig.allrIPmulti
        [0x85, 0, 0, 0, 0, 0, 0, 0]) start).body 4 = 0x20) ∧
    ∃ start, radvertLays (exampleNeighbourMessage exampleHost exampleConfig.allnIPmulti
        (0x86 :: List.replicate 63 0)) = some start ∧ packetRoom < start := by
  exact ⟨⟨4, by decide +kernel, by decide +kernel⟩, ⟨16384, by decide +kernel, by decide⟩⟩

end NatBox
