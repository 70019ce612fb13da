import NatBox.Neighbour.Validate

/-
The validation of router messages: `rsolicit_valid` and `radvert_valid`.

Both lay the pseudo-header over the packet itself: the one four bytes into the message,
since it adds the size of a pointer, the other at the payload length as it stands in the
header, in network byte order.  So validation changes the packet, or memory behind it.
-/

namespace NatBox

def routerA : UInt8 := 0x86

/-- `sizeof(struct rsolicit)` -/
def rsolSize : Nat := 8

/-- `sizeof(struct radvert)` -/
def radvertSize : Nat := 16

/-- The address that advertisements to the NAT box must come from. -/
def defaultRouterMac : MacAddr := #v[0x00, 0x24, 0xC4, 0xDC, 0xCB, 0xC0]

def cksumValid (phead pkt : Mem) (len pheadlen : UInt32) : Except Fault Bool :=
  match checksumv6 pkt len with
  | .error f => .error f
  | .ok a =>
    match checksumv6 phead pheadlen with
    | .error f => .error f
    | .ok b => .ok ((0xffff : UInt32) &&& ~~~(a.toUInt32 + b.toUInt32) = 0)

/-- The pseudo-header, written at `start`. -/
def layPseudoHdr (pkt : NetPacket) (start : Nat) : NetPacket :=
  let body := pkt.body.write start (List.replicate 40 0)
  let body := body.write start (pkt.ip.src.toList ++ pkt.ip.dest.toList)
  let body := body.store16 (start + 34) pkt.ip.payloadLen
  { pkt with body := body.write (start + 39) [pkt.ip.nextHeader] }

/-- The end of both functions: `cksum_valid` with the pseudo-header at `start`. -/
def validAt (pkt : NetPacket) (start : Nat) : Except Fault (Bool × NetPacket) :=
  let pkt := layPseudoHdr pkt start
  match cksumValid (fun i => pkt.body (start + i)) pkt.body pkt.ip.hostPayloadLen.toUInt32 40 with
  | .error f => .error f
  | .ok valid => .ok (valid, pkt)

/-- `rsolicit_valid`, with the packet it leaves. -/
def rsolicitValid (pkt : NetPacket) : Except Fault (Bool × NetPacket) :=
  if pkt.ip.hopLimit ≠ 255 then .ok (false, pkt)
  else if pkt.body 1 ≠ 0 then .ok (false, pkt)
  else if pkt.ip.payloadLen < 8 then .ok (false, pkt)
  else
    match optionsLoop (fun i => pkt.body (rsolSize + i)) 4097
        (pkt.ip.hostPayloadLen - 8).toInt16.toInt false with
    | .error f => .error f
    | .ok none => .ok (false, pkt)
    | .ok (some srcLinkLayerOpt) =>
      if matchBytes pkt.ip.src unspecified 16 && srcLinkLayerOpt then .ok (false, pkt)
      else validAt pkt 4

/-- `radvert_valid`, with the packet it leaves. -/
def radvertValid (pkt : NetPacket) : Except Fault (Bool × NetPacket) :=
  validAt pkt pkt.ip.payloadLen.toNat

/-- The tests of `rsolicit_valid` but the last. -/
def rsolicitChecks (pkt : NetPacket) : Bool :=
  pkt.ip.hopLimit = 255 && pkt.body 1 = 0 && !(pkt.ip.payloadLen < 8) &&
    ((pkt.ip.hostPayloadLen - 8).toInt16.toInt ≤ 0 || pkt.body 9 ≠ 0) &&
      (pkt.ip.src ≠ unspecified ||
        ((pkt.ip.hostPayloadLen - 8).toInt16.toInt ≤ 0 || pkt.body 8 ≠ 1))

theorem rsolicitValid_eq (pkt : NetPacket) :
    rsolicitValid pkt = if rsolicitChecks pkt then validAt pkt 4 else .ok (false, pkt) := by
  have hle : (pkt.ip.hostPayloadLen - 8).toInt16.toInt ≤ 8 * 4096 := by
    have h := (pkt.ip.hostPayloadLen - 8).toInt16.toInt_lt
    omega
  unfold rsolicitValid rsolicitChecks
  rw [matchBytes_eq_decide, optionsLoop_eq (fun i => pkt.body (rsolSize + i)) 4096 _ false hle]
  rw [show pkt.body (rsolSize + 0) = pkt.body 8 from rfl,
    show pkt.body (rsolSize + 1) = pkt.body 9 from rfl]
  generalize (pkt.ip.hostPayloadLen - 8).toInt16.toInt = optionsLen
  by_cases hhop : pkt.ip.hopLimit = 255
  · by_cases hcode : pkt.body 1 = 0
    · by_cases hlen : pkt.ip.payloadLen < 8
      · simp [hhop, hcode, hlen]
      · by_cases hopts : optionsLen ≤ 0
        · simp [hhop, hcode, hlen, hopts]
        · by_cases hzero : pkt.body 9 = 0
          · simp [hhop, hcode, hlen, hopts, hzero]
          · by_cases hsrc : pkt.ip.src = unspecified
            · by_cases htype : pkt.body 8 = 1
              · simp [hhop, hcode, hlen, hopts, hzero, hsrc, htype]
              · simp [hhop, hcode, hlen, hopts, hzero, htype]
            · simp [hhop, hcode, hlen, hopts, hzero, hsrc]
    · simp [hcode]
  · simp [hhop]

section Lay

variable {pkt pkt' : NetPacket} {start : Nat} {valid : Bool}

/-- The pseudo-header changes forty bytes of the body. -/
theorem body_layPseudoHdr {i : Nat} (hi : i < start ∨ start + 40 ≤ i) :
    (layPseudoHdr pkt start).body i = pkt.body i := by
  show ((((pkt.body.write start (List.replicate 40 0)).write start
    (pkt.ip.src.toList ++ pkt.ip.dest.toList)).store16 (start + 34) pkt.ip.payloadLen).write
    (start + 39) [pkt.ip.nextHeader]) i = _
  have hzeros : (List.replicate 40 (0 : UInt8)).length = 40 := List.length_replicate
  have haddrs : (pkt.ip.src.toList ++ pkt.ip.dest.toList).length = 32 := by simp
  have hnext : [pkt.ip.nextHeader].length = 1 := rfl
  rw [Mem.write_outside (by omega), Mem.store16_outside (by omega), Mem.write_outside (by omega),
    Mem.write_outside (by omega)]

theorem validAt_ok (h : validAt pkt start = .ok (valid, pkt')) : pkt' = layPseudoHdr pkt start := by
  unfold validAt at h
  dsimp only at h
  cases hck : cksumValid (fun i => (layPseudoHdr pkt start).body (start + i))
      (layPseudoHdr pkt start).body (layPseudoHdr pkt start).ip.hostPayloadLen.toUInt32 40 with
  | error f => simp [hck] at h
  | ok v =>
    simp only [hck, Except.ok.injEq, Prod.mk.injEq] at h
    exact h.2.symm

theorem rsolicitValid_true (h : rsolicitValid pkt = .ok (true, pkt')) :
    pkt' = layPseudoHdr pkt 4 := by
  unfold rsolicitValid at h
  split at h
  · simp at h
  · split at h
    · simp at h
    · split at h
      · simp at h
      · split at h
        · cases h
        · simp at h
        · split at h
          · simp at h
          · exact validAt_ok h

end Lay

end NatBox
