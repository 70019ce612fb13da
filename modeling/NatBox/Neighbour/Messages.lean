import NatBox.Neighbour.Receive
import NatBox.Output.Fill

/-
The neighbour messages the box sends: `sendNSOL` and `sendNAD`.

The option of both is filled in for `ifprime`, whichever interface they are given.  Sender
and receiver fold the sum of the words once, and `sent_accepted_iff` says when that makes
them disagree: the sum of the halves carries, the sender's checksum is one too large, and
the receiver finds the one value it rejects.
-/

namespace NatBox

open OnesComplement

/-- A neighbour message before its checksum: `mosreserved` starts with `flags`, and the
option holds the link-layer address of the primary interface. -/
def neighbourMessage (cfg : Config) (ra : RouterOptions) (type flags : UInt8)
    (target : Ipv6Addr) : Mem :=
  let msg : Mem := fun _ => 0
  let msg := msg.write 0 [type, 0]
  let msg := msg.store16 2 0
  let msg := msg.write 4 [flags]
  let msg := msg.write 8 target.toList
  fillOptions cfg ra (UInt8.ofInt cfg.ifprime) [1] nsolSize 0 msg

/- The lines that `sendNSOL` and `sendNAD` share. -/
def sendNeighbour (cfg : Config) (ipSrc : Ipv6Addr) (macDest : MacAddr) (ipDest : Ipv6Addr)
    (msg : Mem) (iface : UInt8) : Except Fault NetPacket :=
  let packet := fillEthernet cfg clearedPacket macDest iface
  let packet := fillIPdatagram packet ipSrc ipDest 32 ipv6Icmp
  fillChecksum { packet with body := msg } 32

def sendNSOL (cfg : Config) (ra : RouterOptions) (ipSrc : Ipv6Addr) (macDest : MacAddr)
    (ipDest target : Ipv6Addr) (iface : UInt8) : Except Fault NetPacket :=
  sendNeighbour cfg ipSrc macDest ipDest (neighbourMessage cfg ra neighbS 0 target) iface

/-- `sendNAD`, with the flags S and O set. -/
def sendNAD (cfg : Config) (ra : RouterOptions) (ipSrc : Ipv6Addr) (macDest : MacAddr)
    (ipDest target : Ipv6Addr) (iface : UInt8) : Except Fault NetPacket :=
  sendNeighbour cfg ipSrc macDest ipDest (neighbourMessage cfg ra neighbA 96 target) iface

/-- The sum of the words that a sender completes with the checksum. -/
def sentSum (ipSrc ipDest : Ipv6Addr) (msg : Mem) : Nat :=
  wordSum (makePseudoHdr ipSrc ipDest msg 32)

section Message

variable (cfg : Config) (ra : RouterOptions) (type flags : UInt8) (target : Ipv6Addr)

/-- Behind the target stands the one option. -/
theorem neighbourMessage_read_option :
    (neighbourMessage cfg ra type flags target).read 24 8 =
      fillOptionOne cfg (UInt8.ofInt cfg.ifprime) := by
  have hlen : (fillOptionOne cfg (UInt8.ofInt cfg.ifprime)).length = 8 := by
    simp [fillOptionOne]
  have hself := Mem.read_write_self ((((Mem.write (fun _ => 0) 0 [type, 0]).store16 2 0).write 4
    [flags]).write 8 target.toList) 24 (fillOptionOne cfg (UInt8.ofInt cfg.ifprime))
  rw [hlen] at hself
  exact hself

/-- The option leaves the bytes before it. -/
theorem neighbourMessage_of_lt {i : Nat} (hi : i < 24) :
    neighbourMessage cfg ra type flags target i =
      ((((Mem.write (fun _ => 0) 0 [type, 0]).store16 2 0).write 4 [flags]).write 8
        target.toList) i :=
  Mem.write_outside (Or.inl hi)

theorem neighbourMessage_of_lt_four {i : Nat} (hi : i < 4) :
    neighbourMessage cfg ra type flags target i =
      ((Mem.write (fun _ => 0) 0 [type, 0]).store16 2 0) i := by
  rw [neighbourMessage_of_lt cfg ra type flags target (by omega),
    Mem.write_outside (Or.inl (by omega)), Mem.write_outside (Or.inl hi)]

theorem neighbourMessage_code : neighbourMessage cfg ra type flags target 1 = 0 := by
  rw [neighbourMessage_of_lt_four cfg ra type flags target (by omega)]
  rfl

theorem neighbourMessage_checksum : (neighbourMessage cfg ra type flags target).load16 2 = 0 := by
  rw [Mem.load16_congr (neighbourMessage_of_lt_four cfg ra type flags target (by omega))
    (neighbourMessage_of_lt_four cfg ra type flags target (by omega))]
  exact Mem.load16_store16 _ 2 0

theorem neighbourMessage_optionLength : neighbourMessage cfg ra type flags target 25 = 1 := by
  have h := congrArg (·[1]?) (neighbourMessage_read_option cfg ra type flags target)
  rw [Mem.getElem?_read (by omega)] at h
  exact Option.some.inj h

end Message

/-! ## What a receiver makes of them -/

/-- The frame, its checksum filled in. -/
def neighbourFrame (cfg : Config) (ipSrc : Ipv6Addr) (macDest : MacAddr) (ipDest : Ipv6Addr)
    (msg : Mem) (iface : UInt8) (ck : UInt16) : NetPacket :=
  { fillIPdatagram (fillEthernet cfg clearedPacket macDest iface) ipSrc ipDest 32 ipv6Icmp with
    body := msg.store16 2 (htons ck) }

section Frame

variable (cfg : Config) (ipSrc : Ipv6Addr) (macDest : MacAddr) (ipDest : Ipv6Addr) (msg : Mem)
  (iface : UInt8)

theorem neighbourFrame_body (ck : UInt16) {i : Nat} (hi : 4 ≤ i) :
    (neighbourFrame cfg ipSrc macDest ipDest msg iface ck).body i = msg i :=
  Mem.store16_outside (Or.inr hi)

theorem sendNeighbour_ok :
    ∃ ck : UInt16, ck.toNat = 65535 - foldOnce (sentSum ipSrc ipDest msg) ∧
      sendNeighbour cfg ipSrc macDest ipDest msg iface =
        .ok (neighbourFrame cfg ipSrc macDest ipDest msg iface ck) := by
  obtain ⟨ck, hck, hok⟩ := fillChecksum_ok
    { fillIPdatagram (fillEthernet cfg clearedPacket macDest iface) ipSrc ipDest 32 ipv6Icmp with
      body := msg }
    (show 16 < 32748 by omega) (show (32 : UInt32).toNat = 2 * 16 by decide)
  exact ⟨ck, hck, hok⟩

theorem sentSum_lt : sentSum ipSrc ipDest msg < 65536 * 65535 := by
  have hle : sentSum ipSrc ipDest msg ≤ 65535 * 36 := by
    refine wordSum_le _ _ ?_
    rw [length_makePseudoHdr]
    decide
  omega

/-- The sum of the frame is the sender's and the checksum. -/
theorem pseudoSum_neighbourFrame (hzero : msg.load16 2 = 0) (ck : UInt16) :
    pseudoSum (neighbourFrame cfg ipSrc macDest ipDest msg iface ck) =
      sentSum ipSrc ipDest msg + ck.toNat := by
  have hfill : wordSum ((msg.store16 2 (htons ck)).read 0 32) =
      wordSum (msg.read 0 32) + ck.toNat :=
    memWordSum_store16 hzero ck 14
  have hlen : (neighbourFrame cfg ipSrc macDest ipDest msg iface ck).ip.hostPayloadLen = 32 :=
    ntohs_htons 32
  have h32 : (32 : UInt16).toNat = 32 := rfl
  have h32' : (32 : UInt32).toNat = 32 := rfl
  rw [pseudoSum_eq, hlen, h32, sentSum, wordSum_makePseudoHdr, h32']
  show wordSum ipSrc.toList + wordSum ipDest.toList + 32 + 58 +
    wordSum ((msg.store16 2 (htons ck)).read 0 32) = _
  rw [hfill]
  omega

/-- The checksum test passes unless the sender's fold lost a carry. -/
theorem passesChecksum_neighbourFrame (hzero : msg.load16 2 = 0) (heap : Mem) {ck : UInt16}
    (hck : ck.toNat = 65535 - foldOnce (sentSum ipSrc ipDest msg)) :
    passesChecksum heap (neighbourFrame cfg ipSrc macDest ipDest msg iface ck) = .ok true ↔
      foldCarry (sentSum ipSrc ipDest msg) = 0 := by
  have hlen : (neighbourFrame cfg ipSrc macDest ipDest msg iface ck).ip.hostPayloadLen.toNat = 32 :=
    congrArg UInt16.toNat (ntohs_htons 32)
  have hsum : checkedSum heap (neighbourFrame cfg ipSrc macDest ipDest msg iface ck) =
      sentSum ipSrc ipDest msg + (65535 - foldOnce (sentSum ipSrc ipDest msg)) := by
    rw [checkedSum_of_even heap _ (by omega), pseudoSum_neighbourFrame cfg ipSrc macDest ipDest msg
      iface hzero, hck]
  rw [passesChecksum_eq heap _ (by omega), hsum,
    foldOnce_add_complement (sentSum_lt ipSrc ipDest msg)]
  by_cases hcarry : foldCarry (sentSum ipSrc ipDest msg) = 0
  · simp [hcarry]
  · simp [hcarry]

theorem headerChecks_neighbourFrame (hcode : msg 1 = 0) (ck : UInt16) :
    headerChecks (neighbourFrame cfg ipSrc macDest ipDest msg iface ck) = true := by
  have hcode' : (msg.store16 2 (htons ck)) 1 = 0 := by
    rw [Mem.store16_outside (Or.inl (by omega)), hcode]
  have hlen : ¬ htons 32 < 24 := by decide
  simp [headerChecks, neighbourFrame, fillIPdatagram, hcode', hlen]

end Frame

/-- What the box sends, a box accepts exactly when the halves of the sum of its words do not
carry; of an advertisement from the unspecified address the receiver must be the one that is
asked. -/
theorem sent_accepted_iff (cfg cfg' : Config) (ra : RouterOptions) (heap : Mem)
    (ipSrc : Ipv6Addr) (macDest : MacAddr) (ipDest target : Ipv6Addr) (iface : UInt8) :
    ∃ nsol nad, sendNSOL cfg ra ipSrc macDest ipDest target iface = .ok nsol ∧
      sendNAD cfg ra ipSrc macDest ipDest target iface = .ok nad ∧
      (ipSrc ≠ unspecified → (nsolicitValid cfg' heap nsol = .ok true ↔
        foldCarry (sentSum ipSrc ipDest (neighbourMessage cfg ra neighbS 0 target)) = 0)) ∧
      (nadvertValid cfg' heap nad = .ok true ↔
        foldCarry (sentSum ipSrc ipDest (neighbourMessage cfg ra neighbA 96 target)) = 0 ∧
        (ipSrc = unspecified → ipDest = cfg'.snmAddr)) := by
  obtain ⟨ck, hck, hnsol⟩ := sendNeighbour_ok cfg ipSrc macDest ipDest
    (neighbourMessage cfg ra neighbS 0 target) iface
  obtain ⟨ck', hck', hnad⟩ := sendNeighbour_ok cfg ipSrc macDest ipDest
    (neighbourMessage cfg ra neighbA 96 target) iface
  refine ⟨_, _, hnsol, hnad, fun hsrc => ?_, ?_⟩
  · have hpass := passesChecksum_neighbourFrame cfg ipSrc macDest ipDest _ iface
      (neighbourMessage_checksum cfg ra neighbS 0 target) heap hck
    have hlength : (neighbourFrame cfg ipSrc macDest ipDest
        (neighbourMessage cfg ra neighbS 0 target) iface ck).body 25 = 1 := by
      rw [neighbourFrame_body _ _ _ _ _ _ _ (show 4 ≤ 25 by omega)]
      exact neighbourMessage_optionLength cfg ra neighbS 0 target
    have hchecks : nsolicitChecks cfg' (neighbourFrame cfg ipSrc macDest ipDest
        (neighbourMessage cfg ra neighbS 0 target) iface ck) = true := by
      unfold nsolicitChecks
      rw [headerChecks_neighbourFrame _ _ _ _ _ _ (neighbourMessage_code cfg ra neighbS 0 target),
        hlength]
      simp [neighbourFrame, fillIPdatagram, hsrc]
    rw [nsolicitValid_eq, hchecks, if_pos rfl, hpass]
  · have hpass := passesChecksum_neighbourFrame cfg ipSrc macDest ipDest _ iface
      (neighbourMessage_checksum cfg ra neighbA 96 target) heap hck'
    have hchecks : nadvertChecks cfg' (neighbourFrame cfg ipSrc macDest ipDest
        (neighbourMessage cfg ra neighbA 96 target) iface ck') = true ↔
        (ipSrc = unspecified → ipDest = cfg'.snmAddr) := by
      unfold nadvertChecks
      rw [headerChecks_neighbourFrame _ _ _ _ _ _ (neighbourMessage_code cfg ra neighbA 96 target)]
      simp [neighbourFrame, fillIPdatagram, Decidable.imp_iff_not_or]
    rw [nadvertValid_eq]
    split
    · rename_i hyes
      rw [hpass, and_iff_left (hchecks.mp hyes)]
    · rename_i hno
      exact iff_of_false (fun h => nomatch h) fun h => hno (hchecks.mpr h.2)

/-- What the box advertises before any router was heard. -/
def exampleOptions : RouterOptions where
  mtu := 1500
  optionPrefixDefault := Vector.replicate 32 0
  radvertFromRouter := Vector.replicate 16 0

/-- A solicitation to `2002::43d`: the halves of its sum are 65534 and 2. -/
theorem sent_rejected_second_carry :
    ∃ nsol, sendNSOL exampleConfig exampleOptions exampleConfig.ipv6Addr
        (Vector.replicate 6 0xA1)
        #v[0x20, 0x02, 0, 0, 0, 0, 0, 0, 0, 0, 0, 0, 0, 0, 0x04, 0x3D] exampleHost 0 = .ok nsol ∧
      nsolicitValid exampleConfig (fun _ => 0) nsol = .ok false := by
  have hrun : (match sendNSOL exampleConfig exampleOptions exampleConfig.ipv6Addr
        (Vector.replicate 6 0xA1)
        #v[0x20, 0x02, 0, 0, 0, 0, 0, 0, 0, 0, 0, 0, 0, 0, 0x04, 0x3D] exampleHost 0 with
      | .error _ => false
      | .ok nsol => decide (nsolicitValid exampleConfig (fun _ => 0) nsol = .ok false)) = true := by
    decide +kernel
  cases hsent : sendNSOL exampleConfig exampleOptions exampleConfig.ipv6Addr
      (Vector.replicate 6 0xA1)
      #v[0x20, 0x02, 0, 0, 0, 0, 0, 0, 0, 0, 0, 0, 0, 0, 0x04, 0x3D] exampleHost 0 with
  | error f =>
    rw [hsent] at hrun
    cases hrun
  | ok nsol =>
    rw [hsent] at hrun
    exact ⟨nsol, rfl, of_decide_eq_true hrun⟩

end NatBox
