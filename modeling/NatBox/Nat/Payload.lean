import NatBox.Input
import NatBox.Nat.EchoChecksum

/-
What translation does to the payload of a forwarded packet.

Both rewriting functions lay the echo header over whatever follows the IPv6 header
and do not ask what it is.  `Overlaid` reads from the table what they put there, and
`payload_kept_iff` says what a payload must add up to in order to survive.
-/

namespace NatBox

open OnesComplement

/-- What a forwarded packet is translated to. -/
structure Overlay where
  src : Ipv6Addr
  dest : Ipv6Addr
  id : UInt16

/-- A packet that `ipv6_in` translates as one on its way out. -/
def GoesOut (cfg : Config) (pkt : NetPacket) : Bool :=
  cfg.hasIPv6Addr && !isItMine cfg pkt.ip && decide (pkt.netIface.toInt ≠ cfg.ifprime)

/-- Outgoing packets get the address of the box and the number that the counter stands
at, all others the host and the identifier of the first slot that the packet answers. -/
def Overlaid (cfg : Config) (box : Box) (pkt : NetPacket) (o : Overlay) : Prop :=
  if GoesOut cfg pkt then o = ⟨cfg.ipv6Addr, pkt.ip.dest, box.nat.natIdCounter⟩
  else ∃ i : Fin maxNatEntries,
    (box.nat.natTab.get i).matchesReply pkt.ip.src pkt.identifier = true ∧
    (∀ j, j < i → (box.nat.natTab.get j).matchesReply pkt.ip.src pkt.identifier = false) ∧
    o = ⟨pkt.ip.src, (box.nat.natTab.get i).src, (box.nat.natTab.get i).srcID⟩

/-- The plain sum of the words of both addresses, eight for the length, 58 for the next header,
and the words of the message in front of and behind checksum and identifier. -/
def Overlay.wordSum (o : Overlay) (msg : Mem) : Nat :=
  OnesComplement.wordSum o.src.toList + OnesComplement.wordSum o.dest.toList + 8 + 58 +
    OnesComplement.wordSum (msg.read 0 2) + OnesComplement.wordSum (msg.read 6 2)

/-- As far as a payload reaches, its checksum and the halves of the sum with the new identifier
make all ones, and its identifier is the new one. -/
def Overlay.Leaves (o : Overlay) (msg : Mem) (len : Nat) : Prop :=
  (2 < len → (msg 2).toNat + halves (o.wordSum msg + o.id.toNat) % 65536 / 256 = 255) ∧
  (3 < len → (msg 3).toNat + halves (o.wordSum msg + o.id.toNat) % 256 = 255) ∧
  (4 < len → (msg 4).toNat = o.id.toNat / 256) ∧ (5 < len → (msg 5).toNat = o.id.toNat % 256)

instance (o : Overlay) (msg : Mem) (len : Nat) : Decidable (o.Leaves msg len) :=
  inferInstanceAs (Decidable (_ ∧ _))

/-- The checksum of the echo header that a payload would begin with. -/
def Overlay.checksum (o : Overlay) (msg : Mem) : UInt16 :=
  UInt16.ofNat (65535 - foldOnce (echoHeaderSum o.src o.dest (msg.store16 4 (htons o.id))))

/-- The four bytes from offset 2 on: checksum and identifier. -/
def Overlay.bytes (o : Overlay) (msg : Mem) : List UInt8 :=
  [(o.checksum msg >>> 8).toUInt8, (o.checksum msg).toUInt8, (o.id >>> 8).toUInt8, o.id.toUInt8]

/-- The two bytes of a 16-bit field in network order. -/
theorem store16_htons (m : Mem) (off : Nat) (v : UInt16) :
    m.store16 off (htons v) = m.write off [(v >>> 8).toUInt8, v.toUInt8] := by
  have hv := v.toNat_lt
  have hlow : (htons v).toUInt8 = (v >>> 8).toUInt8 := by
    rw [← UInt8.toNat_inj, UInt16.toNat_toUInt8, UInt16.toNat_toUInt8, htons_eq_ntohs, toNat_ntohs,
      UInt16.toNat_shiftRight, Nat.shiftRight_eq_div_pow]
    simp only [UInt16.reduceToNat, Nat.reduceMod, Nat.reducePow]
    omega
  have hhigh : (htons v >>> 8).toUInt8 = v.toUInt8 := by
    rw [← UInt8.toNat_inj, UInt16.toNat_toUInt8, UInt16.toNat_toUInt8, UInt16.toNat_shiftRight,
      htons_eq_ntohs, toNat_ntohs, Nat.shiftRight_eq_div_pow]
    simp only [UInt16.reduceToNat, Nat.reduceMod, Nat.reducePow]
    have hzero : v.toNat / 256 / 256 = 0 := by omega
    rw [Nat.add_mul_div_left _ _ (by decide), hzero, Nat.zero_add, Nat.mod_mod]
  rw [Mem.store16, hlow, hhigh]

/-- A rewritten message differs from the one received in the four bytes of checksum
and identifier. -/
theorem rewrittenBody_eq (msg : Mem) (id ck : UInt16) :
    rewrittenBody msg id ck =
      msg.write 2 [(ck >>> 8).toUInt8, ck.toUInt8, (id >>> 8).toUInt8, id.toUInt8] := by
  funext i
  rw [rewrittenBody, store16_htons, store16_htons]
  by_cases hi : i < 2 ∨ 6 ≤ i
  · rw [Mem.write_outside (by simp only [List.length_cons, List.length_nil]; omega),
      Mem.store16_outside (by omega),
      Mem.write_outside (by simp only [List.length_cons, List.length_nil]; omega),
      Mem.write_outside (by simp only [List.length_cons, List.length_nil]; omega)]
  · -- the four bytes one by one
    have hcases : i = 2 ∨ i = 3 ∨ i = 4 ∨ i = 5 := by omega
    rcases hcases with rfl | rfl | rfl | rfl
    · rfl
    · rfl
    · rfl
    · rfl

/-! ## What is written to the wire -/

theorem checksum_eq {o : Overlay} {msg : Mem} {ck : UInt16}
    (h : ck.toNat = 65535 - foldOnce (echoHeaderSum o.src o.dest (msg.store16 4 (htons o.id)))) :
    o.checksum msg = ck := by
  rw [Overlay.checksum, ← h]
  exact UInt16.ofNat_toNat

/-- A rewritten body is the received one with the overlay laid over it. -/
theorem overlay_of_rewritten {o : Overlay} {msg : Mem} {ck : UInt16}
    (h : ck.toNat = 65535 - foldOnce (echoHeaderSum o.src o.dest (msg.store16 4 (htons o.id)))) :
    rewrittenBody msg o.id ck = msg.write 2 (o.bytes msg) := by
  rw [rewrittenBody_eq, Overlay.bytes, checksum_eq h]

/-- A packet that `incPktRW` finds an entry for. -/
theorem incPktRW_overlay {nat : NatTable} {pkt : NetPacket} {r : Rewritten}
    (h : incPktRW nat pkt = .ok r) (hret : r.ret ≠ -1) :
    ∃ e : NatEntry, (nat.natTab.toList.find? fun e =>
        e.matchesReply pkt.ip.src pkt.identifier) = some e ∧
      r.pkt.body = pkt.body.write 2
        ((Overlay.mk pkt.ip.src e.src e.srcID).bytes pkt.body) := by
  rcases incPktRW_cases h with ⟨-, rfl⟩ | ⟨e, ck, he, hv, rfl⟩
  · exact absurd rfl hret
  · exact ⟨e, he, overlay_of_rewritten (o := ⟨pkt.ip.src, e.src, e.srcID⟩) hv⟩

/-- The number of a free slot is what the counter stands at. -/
theorem eq_ofNat_of_getNewID {c : UInt16} {k : Nat} (hk : k < maxNatEntries)
    (h : (getNewID c).1 = k) : UInt16.ofNat k = c := by
  have hk' : k < 30 := hk
  have hnext := c.toNat_lt
  have hval : c.toNat = k := by
    unfold getNewID at h
    have hone : (c + 1).toNat = (c.toNat + 1) % 65536 := UInt16.toNat_add c 1
    dsimp only at h
    split at h
    · dsimp only at h
      omega
    · dsimp only at h
      rw [toInt16, Int.bmod_def, hone] at h
      split at h <;> omega
  rw [← hval, UInt16.ofNat_toNat]

/-- The slot that `incPktRW` finds. -/
theorem overlaid_of_find {cfg : Config} {box : Box} {pkt : NetPacket} {e : NatEntry}
    (hout : GoesOut cfg pkt = false)
    (h : (box.nat.natTab.toList.find? fun e => e.matchesReply pkt.ip.src pkt.identifier) =
      some e) : Overlaid cfg box pkt ⟨pkt.ip.src, e.src, e.srcID⟩ := by
  rw [Overlaid, hout, if_neg Bool.false_ne_true]
  obtain ⟨hmatch, i, hi, rfl, hfirst⟩ := List.find?_eq_some_iff_getElem.mp h
  rw [Vector.length_toList] at hi
  have hget : ∀ (j : Fin maxNatEntries) (hj : j.val < box.nat.natTab.toList.length),
      box.nat.natTab.toList[j.val] = box.nat.natTab.get j := fun j hj => Vector.getElem_toList hj
  refine ⟨⟨i, hi⟩, ?_, fun j hj => ?_, ?_⟩
  · rw [← hget ⟨i, hi⟩]
    exact hmatch
  · rw [← hget j (by rw [Vector.length_toList]; exact j.isLt)]
    exact Bool.not_eq_true' _ ▸ hfirst j.val hj
  · rw [← hget ⟨i, hi⟩]

theorem Overlaid.unique {cfg : Config} {box : Box} {pkt : NetPacket} {o o' : Overlay}
    (h : Overlaid cfg box pkt o) (h' : Overlaid cfg box pkt o') : o = o' := by
  unfold Overlaid at h h'
  split at h
  · next hout =>
    rw [if_pos hout] at h'
    rw [h, h']
  · next hout =>
    rw [if_neg hout] at h'
    obtain ⟨i, hi, hfirst, rfl⟩ := h
    obtain ⟨i', hi', hfirst', rfl⟩ := h'
    rcases Nat.lt_trichotomy i.val i'.val with hlt | heq | hlt
    · rw [hfirst' i hlt] at hi
      cases hi
    · rw [Fin.ext heq]
    · rw [hfirst i' hlt] at hi'
      cases hi'

/-- `ipv6_in` forwards the packet with the overlay laid over its payload. -/
theorem body_of_forwarded {cfg : Config} {box box' : Box} {pkt p : NetPacket}
    (hnat : cfg.host = false) (h : ipv6In cfg box pkt = .ok (.forwarded p, box')) :
    ∃ o, Overlaid cfg box pkt o ∧ p.body = pkt.body.write 2 (o.bytes pkt.body) := by
  -- the packets that `incPktRW` looks up
  have hinc : GoesOut cfg pkt = false → ∀ r, incPktRW box.nat pkt = .ok r → r.ret ≠ -1 →
      r.pkt = p →
      ∃ o, Overlaid cfg box pkt o ∧ p.body = pkt.body.write 2 (o.bytes pkt.body) := by
    intro hout r hr hret hp
    obtain ⟨e, he, hbody⟩ := incPktRW_overlay hr hret
    exact ⟨_, overlaid_of_find hout he, hp ▸ hbody⟩
  rw [ipv6In] at h
  split at h
  · cases h
  · split at h
    · rename_i hother
      rw [forwardOther, hnat] at h
      simp only [Bool.false_eq_true, if_false] at h
      split at h
      · rename_i hprime
        split at h
        · cases h
        · rename_i r hr
          split at h
          · cases h
          · rename_i hret
            cases h
            exact hinc (by simp [GoesOut, hprime]) r hr hret rfl
      · rename_i hprime
        split at h
        · cases h
        · rename_i r box₁ hr
          split at h
          · cases h
          · rename_i hret
            rcases outPktRW_cases cfg hr with ⟨rfl, -⟩ | ⟨k, hk, ck, hid, hv, rfl, -⟩
            · exact absurd (show (1 : Int) ≠ 0 by decide) hret
            · cases h
              refine ⟨⟨cfg.ipv6Addr, pkt.ip.dest, UInt16.ofNat k⟩, ?_,
                overlay_of_rewritten (o := ⟨cfg.ipv6Addr, pkt.ip.dest, UInt16.ofNat k⟩) hv⟩
              have hout : GoesOut cfg pkt = true := by
                rw [GoesOut, hother, Bool.true_and]
                exact decide_eq_true hprime
              rw [Overlaid, hout, if_pos rfl, eq_ofNat_of_getNewID hk hid]
    · rename_i hown
      rw [receiveOwn, hnat] at h
      simp only [Bool.false_eq_true, if_false] at h
      split at h
      · cases h
      · rename_i r hr
        split at h
        · rename_i hret
          cases h
          exact hinc (by simp [GoesOut, Bool.eq_false_iff.mpr hown]) r hr hret rfl
        · exact absurd (congrArg Prod.fst (Except.ok.inj h)) (dispatch_ne_forwarded r.pkt p)

/-- The frame has the body of the packet that was forwarded. -/
theorem body_of_frame {cfg : Config} {box : Box} {p frame : NetPacket}
    (h : (fwdIPDatagram cfg box p).frame = some frame) : frame.body = p.body := by
  unfold fwdIPDatagram at h
  simp only at h
  split at h
  · cases h
  · cases h
    rfl

/-- A byte of the payload is one that is not overlaid, or has the value laid there. -/
theorem write_overlay_iff (msg : Mem) (bs : List UInt8) (n : Nat) :
    (∀ i, i < n → msg.write 2 bs i = msg i) ↔
      ∀ j b, bs[j]? = some b → 2 + j < n → msg (2 + j) = b := by
  constructor
  · intro h j b hb hj
    rw [← h (2 + j) hj, Mem.write_inside hb]
  · intro h i hi
    by_cases hout : i < 2 ∨ 2 + bs.length ≤ i
    · rw [Mem.write_outside hout]
    · obtain ⟨j, rfl⟩ : ∃ j, i = 2 + j := ⟨i - 2, by omega⟩
      have hb : bs[j]? = some bs[j] := List.getElem?_eq_getElem (by omega)
      rw [Mem.write_inside hb, h j _ hb hi]

/-! ## The sum -/

/-- The sum behind the checksum that is written. -/
theorem echoHeaderSum_overlay (o : Overlay) (msg : Mem) :
    echoHeaderSum o.src o.dest (msg.store16 4 (htons o.id)) = o.wordSum msg + o.id.toNat := by
  have hzero : (ntohs (0 : UInt16)).toNat = 0 := rfl
  have hwords : OnesComplement.wordSum
      (((msg.store16 4 (htons o.id)).store16 2 0).read 0 8) =
      OnesComplement.wordSum (msg.read 0 2) + o.id.toNat +
        OnesComplement.wordSum (msg.read 6 2) := by
    show memWordSum _ 0 4 = memWordSum _ 0 1 + o.id.toNat + memWordSum _ 6 1
    simp only [memWordSum_succ, Nat.zero_add, Nat.reduceAdd]
    have h₀ : ((msg.store16 4 (htons o.id)).store16 2 0).load16 0 = msg.load16 0 := by
      rw [Mem.load16_store16_of_disjoint (by omega), Mem.load16_store16_of_disjoint (by omega)]
    have h₄ : ((msg.store16 4 (htons o.id)).store16 2 0).load16 4 = htons o.id := by
      rw [Mem.load16_store16_of_disjoint (by omega), Mem.load16_store16]
    have h₆ : ((msg.store16 4 (htons o.id)).store16 2 0).load16 6 = msg.load16 6 := by
      rw [Mem.load16_store16_of_disjoint (by omega), Mem.load16_store16_of_disjoint (by omega)]
    have hend : ∀ (m : Mem) (off : Nat), memWordSum m off 0 = 0 := fun m off => rfl
    rw [h₀, h₄, h₆, Mem.load16_store16, ntohs_htons, hzero, hend, hend, hend]
    omega
  rw [echoHeaderSum_eq, hwords, Overlay.wordSum]
  omega

/-- The four bytes are there already where the payload adds up with them. -/
theorem Overlay.leaves_iff (o : Overlay) (msg : Mem) (len : Nat) :
    (∀ j b, (o.bytes msg)[j]? = some b → 2 + j < len → msg (2 + j) = b) ↔ o.Leaves msg len := by
  have hfold : foldOnce (o.wordSum msg + o.id.toNat) =
      halves (o.wordSum msg + o.id.toNat) % 65536 := by
    unfold foldOnce halves
    omega
  have hck : (o.checksum msg).toNat = 65535 - halves (o.wordSum msg + o.id.toNat) % 65536 := by
    rw [Overlay.checksum, echoHeaderSum_overlay, hfold, UInt16.toNat_ofNat']
    exact Nat.mod_eq_of_lt (by omega)
  have hbytes : (∀ j b, (o.bytes msg)[j]? = some b → 2 + j < len → msg (2 + j) = b) ↔
      (2 < len → msg 2 = (o.checksum msg >>> 8).toUInt8) ∧
      (3 < len → msg 3 = (o.checksum msg).toUInt8) ∧
      (4 < len → msg 4 = (o.id >>> 8).toUInt8) ∧ (5 < len → msg 5 = o.id.toUInt8) := by
    constructor
    · exact fun h => ⟨h 0 _ rfl, h 1 _ rfl, h 2 _ rfl, h 3 _ rfl⟩
    · rintro ⟨h₂, h₃, h₄, h₅⟩ j b hb
      rcases j with _ | _ | _ | _ | j
      · exact Option.some.inj hb ▸ h₂
      · exact Option.some.inj hb ▸ h₃
      · exact Option.some.inj hb ▸ h₄
      · exact Option.some.inj hb ▸ h₅
      · cases hb
  have hhigh : ∀ (b : UInt8) (w : UInt16), b = (w >>> 8).toUInt8 ↔ b.toNat = w.toNat / 256 := by
    intro b w
    have hw := w.toNat_lt
    rw [← UInt8.toNat_inj, UInt16.toNat_toUInt8, UInt16.toNat_shiftRight,
      Nat.shiftRight_eq_div_pow]
    simp only [UInt16.reduceToNat, Nat.reduceMod, Nat.reducePow]
    rw [Nat.mod_eq_of_lt (show w.toNat / 256 < 256 by omega)]
  have hlow : ∀ (b : UInt8) (w : UInt16), b = w.toUInt8 ↔ b.toNat = w.toNat % 256 := by
    intro b w
    rw [← UInt8.toNat_inj, UInt16.toNat_toUInt8]
  rw [hbytes, Overlay.Leaves, hhigh, hlow, hhigh, hlow, hck]
  generalize halves (o.wordSum msg + o.id.toNat) = h
  have hfirst : (msg 2).toNat = (65535 - h % 65536) / 256 ↔
      (msg 2).toNat + h % 65536 / 256 = 255 := by omega
  have hsecond : (msg 3).toNat = (65535 - h % 65536) % 256 ↔ (msg 3).toNat + h % 256 = 255 := by
    omega
  rw [hfirst, hsecond]

/-- A forwarded packet keeps its payload exactly when, as far as the payload reaches over them, its
third to sixth byte add up with the addresses and the identifier that the table gives it. -/
theorem payload_kept_iff {cfg : Config} {box box' : Box} {pkt p frame : NetPacket}
    (hnat : cfg.host = false) (h : ipv6In cfg box pkt = .ok (.forwarded p, box'))
    (hframe : (fwdIPDatagram cfg box' p).frame = some frame) :
    (∀ i, i < pkt.ip.hostPayloadLen.toNat → frame.body i = pkt.body i) ↔
      ∃ o, Overlaid cfg box pkt o ∧ o.Leaves pkt.body pkt.ip.hostPayloadLen.toNat := by
  obtain ⟨o, ho, hbody⟩ := body_of_forwarded hnat h
  rw [body_of_frame hframe, hbody, write_overlay_iff, o.leaves_iff]
  constructor
  · exact fun hleaves => ⟨o, ho, hleaves⟩
  · rintro ⟨o', ho', hleaves⟩
    rwa [ho.unique ho']

/-! ## Two packets of the example network -/

/-- Whether a packet is forwarded in a frame that passes a check. -/
def forwardsFrame (cfg : Config) (box : Box) (pkt : NetPacket) (check : NetPacket → Bool) : Bool :=
  match ipv6In cfg box pkt with
  | .ok (.forwarded p, box') =>
    match (fwdIPDatagram cfg box' p).frame with
    | some frame => check frame
    | none => false
  | _ => false

theorem frame_of_forwardsFrame {cfg : Config} {box : Box} {pkt : NetPacket}
    {check : NetPacket → Bool} (h : forwardsFrame cfg box pkt check = true) :
    ∃ p box' frame, ipv6In cfg box pkt = .ok (.forwarded p, box') ∧
      (fwdIPDatagram cfg box' p).frame = some frame ∧ check frame = true := by
  unfold forwardsFrame at h
  split at h
  · rename_i p box' hin
    split at h
    · rename_i frame hframe
      exact ⟨p, box', frame, hin, hframe, h⟩
    · cases h
  · cases h

/-- The tables at first, with the router in the neighbour cache. -/
def routerKnown : Box :=
  { Box.init with
    nd := Vector.ofFn fun i =>
      if i.val = 0 then ⟨maxNdTtl, exampleConfig.routerIpAddr, Vector.replicate 6 0xC1, ndReachable⟩
      else Box.init.nd.get i }

/-- A UDP packet of the host with the given payload. -/
def udpPacket (payload : List UInt8) : NetPacket :=
  let pkt := examplePacket exampleHost exampleServer payload
  { pkt with ip := { pkt.ip with nextHeader := 17 } }

/-- A UDP header whose destination port is the checksum that is written, and whose length is the
first identifier, zero. -/
theorem payload_kept_udp :
    ∃ p box' frame, ipv6In exampleConfig routerKnown
        (udpPacket [0x30, 0x39, 0x8E, 0x72, 0, 0, 0, 0]) = .ok (.forwarded p, box') ∧
      (fwdIPDatagram exampleConfig box' p).frame = some frame ∧
      ∀ i, i < (udpPacket [0x30, 0x39, 0x8E, 0x72, 0, 0, 0, 0]).ip.hostPayloadLen.toNat →
        frame.body i = (udpPacket [0x30, 0x39, 0x8E, 0x72, 0, 0, 0, 0]).body i := by
  have hfwd : forwardsFrame exampleConfig routerKnown
      (udpPacket [0x30, 0x39, 0x8E, 0x72, 0, 0, 0, 0]) (fun _ => true) = true := by
    decide +kernel
  obtain ⟨p, box', frame, hin, hframe, -⟩ := frame_of_forwardsFrame hfwd
  refine ⟨p, box', frame, hin, hframe, (payload_kept_iff rfl hin hframe).mpr
    ⟨⟨exampleConfig.ipv6Addr, exampleServer, 0⟩, ?_, by decide +kernel⟩⟩
  rw [Overlaid, if_pos (by decide +kernel)]
  rfl

/-- The destination port and the length of a UDP header are overwritten. -/
theorem payload_lost_udp :
    (udpPacket [0x30, 0x39, 0, 7, 0, 8, 0, 0]).ip.nextHeader ≠ ipv6Icmp ∧
    ∃ p box' frame, ipv6In exampleConfig routerKnown
        (udpPacket [0x30, 0x39, 0, 7, 0, 8, 0, 0]) = .ok (.forwarded p, box') ∧
      (fwdIPDatagram exampleConfig box' p).frame = some frame ∧
      ¬ ∀ i, i < (udpPacket [0x30, 0x39, 0, 7, 0, 8, 0, 0]).ip.hostPayloadLen.toNat →
        frame.body i = (udpPacket [0x30, 0x39, 0, 7, 0, 8, 0, 0]).body i := by
  refine ⟨by decide, ?_⟩
  have hfwd : forwardsFrame exampleConfig routerKnown (udpPacket [0x30, 0x39, 0, 7, 0, 8, 0, 0])
      (fun frame => frame.body 5 = 0) = true := by
    decide +kernel
  obtain ⟨p, box', frame, hin, hframe, hbyte⟩ := frame_of_forwardsFrame hfwd
  refine ⟨p, box', frame, hin, hframe, fun hkept => ?_⟩
  have h5 := hkept 5 (by decide)
  rw [of_decide_eq_true hbyte] at h5
  exact absurd h5 (by decide)

end NatBox
