import NatBox.Nat.Rewrite

/-
Whether a translated echo message still has a valid checksum.

Both directions sum the pseudo-header and the eight bytes of the echo header, with
eight as the length, and fold the carries once.  The sum a receiver forms also covers
the data, takes the real length and folds every carry.  `omittedSum` is the difference;
the message verifies exactly when it is a multiple of all ones.
-/

namespace NatBox

open OnesComplement

/-- An echo request or reply that fits in a packet and arrives with a valid checksum. -/
structure ValidEcho (pkt : NetPacket) : Prop where
  icmp : pkt.ip.nextHeader = ipv6Icmp
  type : pkt.msgType = echoReq ∨ pkt.msgType = echoResp
  header_le : echoReqSize ≤ pkt.ip.hostPayloadLen.toNat
  le_bodyLen : pkt.ip.hostPayloadLen.toNat ≤ bodyLen
  verifies : ChecksumVerifies pkt

/-- What the rewriting leaves out of the sum for a message of `len` bytes: the length
beyond the header, the data and the carry of the fold. -/
def omittedSum (src dest : Ipv6Addr) (msg : Mem) (len : Nat) : Nat :=
  (len - echoReqSize) + wordSum (msg.read 8 (len - echoReqSize)) +
    foldCarry (echoHeaderSum src dest msg)

section

variable (msg : Mem) (ck : UInt16)

/-- Filling in the checksum adds it to the sum of the header. -/
theorem wordSum_header_fill :
    wordSum (((msg.store16 2 0).store16 2 (htons ck)).read 0 8) =
      wordSum ((msg.store16 2 0).read 0 8) + ck.toNat := by
  have hzero : (ntohs (0 : UInt16)).toNat = 0 := rfl
  show memWordSum _ 0 4 = memWordSum _ 0 4 + ck.toNat
  simp only [memWordSum_succ, Nat.zero_add, Nat.reduceAdd]
  have h₀ : ((msg.store16 2 0).store16 2 (htons ck)).load16 0 = (msg.store16 2 0).load16 0 :=
    Mem.load16_store16_of_disjoint (by omega)
  have h₄ : ((msg.store16 2 0).store16 2 (htons ck)).load16 4 = (msg.store16 2 0).load16 4 :=
    Mem.load16_store16_of_disjoint (by omega)
  have h₆ : ((msg.store16 2 0).store16 2 (htons ck)).load16 6 = (msg.store16 2 0).load16 6 :=
    Mem.load16_store16_of_disjoint (by omega)
  rw [h₀, h₄, h₆, Mem.load16_store16, Mem.load16_store16, ntohs_htons, hzero]
  have hend : ∀ m : Mem, memWordSum m 8 0 = 0 := fun m => rfl
  rw [hend, hend]
  omega

theorem wordSum_filled {len : Nat} (hlen : 8 ≤ len) :
    wordSum (((msg.store16 2 0).store16 2 (htons ck)).read 0 len) =
      wordSum ((msg.store16 2 0).read 0 8) + ck.toNat + wordSum (msg.read 8 (len - 8)) := by
  have hdata : ((msg.store16 2 0).store16 2 (htons ck)).read 8 (len - 8) =
      msg.read 8 (len - 8) := by
    rw [Mem.read_store16_of_disjoint (by omega), Mem.read_store16_of_disjoint (by omega)]
  have hsplit := Mem.read_add ((msg.store16 2 0).store16 2 (htons ck)) 0 8 (len - 8)
  rw [Nat.add_sub_cancel' hlen, Nat.zero_add] at hsplit
  rw [hsplit, wordSum_append _ _ (by rw [Mem.length_read]), wordSum_header_fill, hdata]

end

theorem echoHeaderSum_eq (src dest : Ipv6Addr) (msg : Mem) :
    echoHeaderSum src dest msg =
      wordSum src.toList + wordSum dest.toList + 66 + wordSum ((msg.store16 2 0).read 0 8) := by
  have h8 : (8 : UInt32).toNat = 8 := rfl
  rw [echoHeaderSum, wordSum_makePseudoHdr, h8]

/-- A message with the checksum that the rewriting computes. -/
theorem checksumVerifies_rewritten {pkt : NetPacket} {msg : Mem} {ck : UInt16}
    (hck : ck.toNat = 65535 - foldOnce (echoHeaderSum pkt.ip.src pkt.ip.dest msg))
    (hbody : pkt.body = (msg.store16 2 0).store16 2 (htons ck))
    (hlen : echoReqSize ≤ pkt.ip.hostPayloadLen.toNat) :
    ChecksumVerifies pkt ↔
      65535 ∣ omittedSum pkt.ip.src pkt.ip.dest msg pkt.ip.hostPayloadLen.toNat := by
  have hlen8 : 8 ≤ pkt.ip.hostPayloadLen.toNat := hlen
  have hfold := @foldOnce_modEq (echoHeaderSum pkt.ip.src pkt.ip.dest msg)
  have hlt := foldOnce_lt (echoHeaderSum pkt.ip.src pkt.ip.dest msg)
  rw [checksumVerifies_iff, omittedSum, hbody, wordSum_filled msg ck hlen8]
  unfold Nat.ModEq at hfold
  have hsum := echoHeaderSum_eq pkt.ip.src pkt.ip.dest msg
  have hsize : echoReqSize = 8 := rfl
  rw [hsize]
  generalize echoHeaderSum pkt.ip.src pkt.ip.dest msg = C at *
  generalize wordSum (msg.read 8 (pkt.ip.hostPayloadLen.toNat - 8)) = D at *
  -- The receiver's sum is the header's, with the checksum for zero, and what is left out.
  have hsplit : wordSum pkt.ip.src.toList + wordSum pkt.ip.dest.toList +
      pkt.ip.hostPayloadLen.toNat + 58 + (wordSum ((msg.store16 2 0).read 0 8) + ck.toNat + D) =
      (C + ck.toNat) + (pkt.ip.hostPayloadLen.toNat - 8 + D) := by
    omega
  rw [hsplit, hck]
  omega

theorem checksumVerifies_outPkt {cfg : Config} {pkt : NetPacket} {id ck : UInt16}
    (hck : ck.toNat = 65535 - foldOnce (echoHeaderSum cfg.ipv6Addr pkt.ip.dest
      (pkt.body.store16 4 (htons id))))
    (hlen : echoReqSize ≤ pkt.ip.hostPayloadLen.toNat) :
    ChecksumVerifies (outPkt cfg pkt id ck) ↔ 65535 ∣ omittedSum cfg.ipv6Addr pkt.ip.dest
      (pkt.body.store16 4 (htons id)) pkt.ip.hostPayloadLen.toNat := by
  have hlen' : echoReqSize ≤ (outPkt cfg pkt id ck).ip.hostPayloadLen.toNat := hlen
  exact checksumVerifies_rewritten hck rfl hlen'

/-- A valid echo message still verifies after its translation, in either direction,
exactly when what the rewriting leaves out of the sum is a multiple of all ones. -/
theorem checksumVerifies_translated_iff {cfg : Config} {pkt : NetPacket} (h : ValidEcho pkt) :
    (∀ (box : Box) (interface : UInt8) (r : Rewritten) (box' : Box),
      outPktRW cfg box interface pkt = .ok (r, box') → r.ret = 0 →
      (ChecksumVerifies r.pkt ↔ 65535 ∣ omittedSum cfg.ipv6Addr pkt.ip.dest
        (pkt.body.store16 4
          (htons (UInt16.ofNat (getNewID box.nat.natIdCounter).1.toNat)))
        pkt.ip.hostPayloadLen.toNat)) ∧
    ∀ (nat : NatTable) (e : NatEntry) (r : Rewritten),
      (nat.natTab.toList.find? fun e => e.matchesReply pkt.ip.src pkt.identifier) = some e →
      incPktRW nat pkt = .ok r →
      (ChecksumVerifies r.pkt ↔ 65535 ∣ omittedSum pkt.ip.src e.src
        (pkt.body.store16 4 (htons e.srcID)) pkt.ip.hostPayloadLen.toNat) := by
  constructor
  · intro box interface r box' hout hret
    rcases outPktRW_cases cfg hout with ⟨rfl, -⟩ | ⟨k, -, ck, hk, hck, rfl, -⟩
    · cases hret
    · rw [hk, Int.toNat_natCast]
      exact checksumVerifies_outPkt hck h.header_le
  · intro nat e r hfind hinc
    obtain ⟨ck, hck, hrw⟩ := rewriteChecksum_ok pkt.ip.src e.src
      (pkt.body.store16 4 (htons e.srcID))
    have hr : r.pkt = incPkt e pkt ck := by
      rw [incPktRW, hfind] at hinc
      simp only [hrw, Except.ok.injEq] at hinc
      rw [← hinc]
      rfl
    have hlen : echoReqSize ≤ (incPkt e pkt ck).ip.hostPayloadLen.toNat := h.header_le
    rw [hr]
    exact checksumVerifies_rewritten hck rfl hlen

/-- An echo request without data keeps a valid checksum. -/
theorem checksumVerifies_without_data :
    ∃ r box', outPktRW exampleConfig Box.init 1 (examplePacket exampleHost exampleServer
        [0x80, 0, 0x3E, 0xB1, 0, 7, 0, 1]) = .ok (r, box') ∧ ChecksumVerifies r.pkt := by
  have hvalid : ValidEcho (examplePacket exampleHost exampleServer
      [0x80, 0, 0x3E, 0xB1, 0, 7, 0, 1]) := by
    constructor <;> decide +kernel
  obtain ⟨ck, -, hok⟩ := @outPktRW_ok exampleConfig Box.init 1
    (examplePacket exampleHost exampleServer [0x80, 0, 0x3E, 0xB1, 0, 7, 0, 1]) 0
    (by decide) rfl
  refine ⟨_, _, hok, ?_⟩
  rw [(checksumVerifies_translated_iff hvalid).1 _ _ _ _ hok rfl]
  decide +kernel

/-- One with two bytes of data does not. -/
theorem checksumVerifies_fails_two_data_bytes :
    ValidEcho (examplePacket exampleHost exampleServer
      [0x80, 0, 0x3E, 0xAF, 0, 7, 0, 1, 0, 0]) ∧
    ∃ r box', outPktRW exampleConfig Box.init 1 (examplePacket exampleHost exampleServer
        [0x80, 0, 0x3E, 0xAF, 0, 7, 0, 1, 0, 0]) = .ok (r, box') ∧ r.ret = 0 ∧
      ¬ ChecksumVerifies r.pkt := by
  constructor
  · constructor <;> decide +kernel
  · obtain ⟨ck, hck, hok⟩ := @outPktRW_ok exampleConfig Box.init 1
      (examplePacket exampleHost exampleServer [0x80, 0, 0x3E, 0xAF, 0, 7, 0, 1, 0, 0]) 0
      (by decide) rfl
    refine ⟨_, _, hok, rfl, ?_⟩
    rw [checksumVerifies_outPkt hck (by decide)]
    decide +kernel

end NatBox
