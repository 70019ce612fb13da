import NatBox.Neighbour.Receive

/-
What `nsolicit_valid` and `nadvert_valid` read of the packet.

`byteAt` and `copyOut` are the reads with the end of `net_payload` as their limit, and the two
functions over them are the ones of `Neighbour/Validate.lean` but for that.
-/

namespace NatBox

/-- A byte of the message, within `net_payload`. -/
def NetPacket.byteAt (pkt : NetPacket) (off : Nat) : Except Fault UInt8 :=
  if off < bodyLen then .ok (pkt.body off) else .error .packetOverrun

/-- A copy of the first `len` bytes of the message goes on as `rest`. -/
def copyOut (len : UInt16) (rest : Except Fault Bool) : Except Fault Bool :=
  if bodyLen < len.toNat then .error .packetOverrun else rest

/- The loop of `nsolicit_valid`, which reads both bytes of the first option in every pass. -/
def optionsLoopIn (opt : Nat → Except Fault UInt8) :
    Nat → Int → Bool → Except Fault (Option Bool)
  | 0, _, _ => .error .endlessLoop
  | passes + 1, optLen, srcLinkLayerOpt =>
    if 0 < optLen then
      match opt 0, opt 1 with
      | .ok type, .ok length =>
        let srcLinkLayerOpt := if type = 1 then true else srcLinkLayerOpt
        if length = 0 then .ok none
        else optionsLoopIn opt passes (optLen - length.toNat * 8) srcLinkLayerOpt
      | .error f, _ => .error f
      | _, .error f => .error f
    else .ok (some srcLinkLayerOpt)

/-- `nsolicit_valid` over limited reads. -/
def nsolicitValidIn (cfg : Config) (heap : Mem) (pkt : NetPacket) : Except Fault Bool :=
  if pkt.ip.hopLimit ≠ 255 then .ok false
  else
    match pkt.byteAt 1 with
    | .error f => .error f
    | .ok code =>
      if code ≠ 0 then .ok false
      else if pkt.ip.payloadLen < 24 then .ok false
      else
        match optionsLoopIn (fun i => pkt.byteAt (nsolSize + i)) 4097
            (pkt.ip.hostPayloadLen - 24).toInt16.toInt false with
        | .error f => .error f
        | .ok none => .ok false
        | .ok (some srcLinkLayerOpt) =>
          if matchBytes pkt.ip.src unspecified 16 &&
              (srcLinkLayerOpt || !matchBytes pkt.ip.dest cfg.snmAddr 16) then .ok false
          else copyOut pkt.ip.hostPayloadLen (passesChecksum heap pkt)

/-- `nadvert_valid` over limited reads. -/
def nadvertValidIn (cfg : Config) (heap : Mem) (pkt : NetPacket) : Except Fault Bool :=
  if pkt.ip.hopLimit ≠ 255 then .ok false
  else
    match pkt.byteAt 1 with
    | .error f => .error f
    | .ok code =>
      if code ≠ 0 then .ok false
      else if pkt.ip.payloadLen < 24 then .ok false
      else if matchBytes pkt.ip.src unspecified 16 && !matchBytes pkt.ip.dest cfg.snmAddr 16 then
        .ok false
      else copyOut pkt.ip.hostPayloadLen (passesChecksum heap pkt)

section Reads

variable {cfg : Config} {heap : Mem} {pkt : NetPacket}

theorem byteAt_of_lt {off : Nat} (h : off < bodyLen) : pkt.byteAt off = .ok (pkt.body off) :=
  if_pos h

/-- Where the first option lies inside, the loop is the one without limits. -/
theorem optionsLoopIn_eq {opt : Nat → Except Fault UInt8} {m : Mem} (h₀ : opt 0 = .ok (m 0))
    (h₁ : opt 1 = .ok (m 1)) (passes : Nat) (optLen : Int) (srcLinkLayerOpt : Bool) :
    optionsLoopIn opt passes optLen srcLinkLayerOpt =
      optionsLoop m passes optLen srcLinkLayerOpt := by
  induction passes generalizing optLen srcLinkLayerOpt with
  | zero => rfl
  | succ passes ih =>
    rw [optionsLoopIn, optionsLoop, h₀, h₁]
    dsimp only
    rw [ih]

/-- The limits show only where the message is copied. -/
theorem nsolicitValidIn_eq :
    nsolicitValidIn cfg heap pkt =
      if nsolicitChecks cfg pkt then copyOut pkt.ip.hostPayloadLen (passesChecksum heap pkt)
      else .ok false := by
  have h₁ : pkt.byteAt 1 = .ok (pkt.body 1) := byteAt_of_lt (by decide)
  have hloop : ∀ optLen, optionsLoopIn (fun i => pkt.byteAt (nsolSize + i)) 4097 optLen false =
      optionsLoop (fun i => pkt.body (nsolSize + i)) 4097 optLen false := fun optLen =>
    optionsLoopIn_eq (m := fun i => pkt.body (nsolSize + i)) (byteAt_of_lt (by decide))
      (byteAt_of_lt (by decide)) 4097 optLen false
  unfold nsolicitValidIn
  rw [h₁, hloop]
  exact if_nsolicitChecks (f := fun outcome =>
    match outcome with
    | .error f => .error f
    | .ok none => .ok false
    | .ok (some srcLinkLayerOpt) =>
      if matchBytes pkt.ip.src unspecified 16 &&
          (srcLinkLayerOpt || !matchBytes pkt.ip.dest cfg.snmAddr 16) then .ok false
      else copyOut pkt.ip.hostPayloadLen (passesChecksum heap pkt)) rfl fun _ => rfl

theorem nadvertValidIn_eq :
    nadvertValidIn cfg heap pkt =
      if nadvertChecks cfg pkt then copyOut pkt.ip.hostPayloadLen (passesChecksum heap pkt)
      else .ok false := by
  have h₁ : pkt.byteAt 1 = .ok (pkt.body 1) := byteAt_of_lt (by decide)
  unfold nadvertValidIn nadvertChecks
  rw [h₁]
  dsimp only
  rw [if_headerChecks, matchBytes_eq_decide, matchBytes_eq_decide]
  by_cases hheader : headerChecks pkt = true
  · by_cases hsrc : pkt.ip.src = unspecified
    · by_cases hdest : pkt.ip.dest = cfg.snmAddr
      · simp [hheader, hdest]
      · simp [hsrc, hdest]
    · simp [hheader, hsrc]
  · simp [hheader]

theorem passesChecksum_inside : passesChecksum heap pkt ≠ .error .packetOverrun := by
  rcases Nat.lt_or_ge 65494 pkt.ip.hostPayloadLen.toNat with hlen | hlen
  · rw [passesChecksum_endless heap pkt hlen]
    exact fun h => nomatch h
  · rw [passesChecksum_eq heap pkt hlen]
    exact fun h => nomatch h

/-- A test in front of the copy. -/
theorem copyOut_inside_iff {checks : Bool} :
    (if checks then copyOut pkt.ip.hostPayloadLen (passesChecksum heap pkt) else .ok false) ≠
      .error .packetOverrun ↔ checks = true → pkt.ip.hostPayloadLen.toNat ≤ bodyLen := by
  cases checks with
  | false => exact iff_of_true (fun h => nomatch h) fun h => nomatch h
  | true =>
    rw [if_pos rfl, copyOut]
    by_cases hover : bodyLen < pkt.ip.hostPayloadLen.toNat
    · rw [if_pos hover]
      exact iff_of_false (fun h => h rfl) fun h => Nat.not_le.mpr hover (h rfl)
    · rw [if_neg hover]
      exact iff_of_true passesChecksum_inside fun _ => Nat.le_of_not_lt hover

/-- Within the limits the reads are those of `nsolicit_valid` and `nadvert_valid`, and they stay
inside `net_payload` exactly if the message does or an earlier test turns it away. -/
theorem validReads_inside_iff :
    (nsolicitValidIn cfg heap pkt ≠ .error .packetOverrun →
      nsolicitValidIn cfg heap pkt = nsolicitValid cfg heap pkt) ∧
    (nadvertValidIn cfg heap pkt ≠ .error .packetOverrun →
      nadvertValidIn cfg heap pkt = nadvertValid cfg heap pkt) ∧
    (nsolicitValidIn cfg heap pkt ≠ .error .packetOverrun ↔
      (nsolicitChecks cfg pkt = true → pkt.ip.hostPayloadLen.toNat ≤ 1460)) ∧
    (nadvertValidIn cfg heap pkt ≠ .error .packetOverrun ↔
      (nadvertChecks cfg pkt = true → pkt.ip.hostPayloadLen.toNat ≤ 1460)) := by
  have hin : ∀ checks : Bool,
      (if checks then copyOut pkt.ip.hostPayloadLen (passesChecksum heap pkt) else .ok false) ≠
        .error .packetOverrun →
      (if checks then copyOut pkt.ip.hostPayloadLen (passesChecksum heap pkt) else .ok false) =
        if checks then passesChecksum heap pkt else .ok false := by
    intro checks h
    cases checks with
    | false => rfl
    | true =>
      have hlen := copyOut_inside_iff.mp h rfl
      rw [if_pos rfl, if_pos rfl, copyOut, if_neg (Nat.not_lt.mpr hlen)]
  rw [nsolicitValidIn_eq, nadvertValidIn_eq, nsolicitValid_eq, nadvertValid_eq]
  exact ⟨hin _, hin _, copyOut_inside_iff, copyOut_inside_iff⟩

end Reads

/-- A message of 1461 bytes. -/
theorem validReads_outside :
    nsolicitValidIn exampleConfig (fun _ => 0)
      (exampleNeighbourMessage exampleHost exampleConfig.snmAddr
        ([0x87, 0] ++ List.replicate 22 0 ++ List.replicate 1437 1)) = .error .packetOverrun ∧
    nadvertValidIn exampleConfig (fun _ => 0)
      (exampleNeighbourMessage exampleHost exampleConfig.snmAddr
        ([0x88, 0] ++ List.replicate 22 0 ++ List.replicate 1437 1)) = .error .packetOverrun := by
  decide +kernel

end NatBox
