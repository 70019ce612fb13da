import NatBox.InternetChecksum
import NatBox.Neighbour.Validate

/-
Receiving neighbour messages: the cases of `icmpv6_in` for solicitations and
advertisements, with `nadvert_handler`.

`passesChecksum_verifies_iff` is what the check on the way in is worth.
-/

namespace NatBox

def neighbS : UInt8 := 0x87
def neighbA : UInt8 := 0x88

/-- `sizeof(struct nadvert)` -/
def nadSize : Nat := 24

/-- `getmac_ad`; `none` is its `NULL`. -/
def getmacAd (msg : Mem) : Option MacAddr :=
  if msg nadSize = 1 then some (macAt msg (nadSize + 2)) else none

def nadvertHandler (box : Box) (pkt : NetPacket) : Box :=
  match lookupNDEntry box.nd pkt.ip.src with
  | none => box
  | some i =>
    let entry := { box.nd.get i with ttl := maxNdTtl, state := ndReachable }
    match getmacAd pkt.body with
    | none => { box with nd := box.nd.set i entry i.isLt }
    | some mac => { box with nd := box.nd.set i { entry with macAddr := mac } i.isLt }

/-- The two cases of `icmpv6_in`, with what the box sends in answer. -/
def neighbourIn (cfg : Config) (heap : Mem) (box : Box) (pkt : NetPacket) :
    Except Fault (List NeighbourSend × Box) :=
  if pkt.msgType = neighbS then
    match nsolicitValid cfg heap pkt with
    | .error f => .error f
    | .ok false => .ok ([], box)
    | .ok true => .ok ((nsolicitHandler box pkt).2, (nsolicitHandler box pkt).1)
  else if pkt.msgType = neighbA then
    match nadvertValid cfg heap pkt with
    | .error f => .error f
    | .ok false => .ok ([], box)
    | .ok true => .ok ([], nadvertHandler box pkt)
  else .ok ([], box)

/-- The handler that a message reaches, if it passes the validation of its type. -/
theorem neighbourIn_cases {cfg : Config} {heap : Mem} {box box' : Box} {pkt : NetPacket}
    {sends : List NeighbourSend} (h : neighbourIn cfg heap box pkt = .ok (sends, box')) :
    (pkt.msgType = neighbS ∧ nsolicitValid cfg heap pkt = .ok true ∧
      box' = (nsolicitHandler box pkt).1) ∨
    (pkt.msgType = neighbA ∧ nadvertValid cfg heap pkt = .ok true ∧
      box' = nadvertHandler box pkt) ∨
    ((pkt.msgType = neighbS → nsolicitValid cfg heap pkt = .ok false) ∧
      (pkt.msgType = neighbA → nadvertValid cfg heap pkt = .ok false) ∧ box' = box) := by
  unfold neighbourIn at h
  by_cases hs : pkt.msgType = neighbS
  · have hna : pkt.msgType ≠ neighbA := by
      rw [hs]
      decide
    rw [if_pos hs] at h
    cases hv : nsolicitValid cfg heap pkt with
    | error f => simp [hv] at h
    | ok valid =>
      cases valid with
      | false =>
        simp only [hv, Except.ok.injEq, Prod.mk.injEq] at h
        exact Or.inr (Or.inr ⟨fun _ => rfl, fun ha => absurd ha hna, h.2.symm⟩)
      | true =>
        simp only [hv, Except.ok.injEq, Prod.mk.injEq] at h
        exact Or.inl ⟨hs, rfl, h.2.symm⟩
  rw [if_neg hs] at h
  by_cases ha : pkt.msgType = neighbA
  · rw [if_pos ha] at h
    cases hv : nadvertValid cfg heap pkt with
    | error f => simp [hv] at h
    | ok valid =>
      cases valid with
      | false =>
        simp only [hv, Except.ok.injEq, Prod.mk.injEq] at h
        exact Or.inr (Or.inr ⟨fun hs' => absurd hs' hs, fun _ => rfl, h.2.symm⟩)
      | true =>
        simp only [hv, Except.ok.injEq, Prod.mk.injEq] at h
        exact Or.inr (Or.inl ⟨ha, rfl, h.2.symm⟩)
  · rw [if_neg ha, Except.ok.injEq, Prod.mk.injEq] at h
    exact Or.inr (Or.inr ⟨fun hs' => absurd hs' hs, fun ha' => absurd ha' ha, h.2.symm⟩)

theorem neighbourIn_solicit {cfg : Config} {heap : Mem} {pkt : NetPacket}
    (htype : pkt.msgType = neighbS) (hvalid : nsolicitValid cfg heap pkt = .ok true) (box : Box) :
    neighbourIn cfg heap box pkt =
      .ok ((nsolicitHandler box pkt).2, (nsolicitHandler box pkt).1) := by
  unfold neighbourIn
  rw [if_pos htype, hvalid]

/-! ## The checksum of what is accepted -/

/-- The plain sum over pseudo-header and message, with the byte of the heap behind them if their
length is odd. -/
def overreadSum (heap : Mem) (pkt : NetPacket) : Nat :=
  pseudoSum pkt + if pkt.ip.hostPayloadLen.toNat % 2 = 1 then
    (heap (40 + pkt.ip.hostPayloadLen.toNat)).toNat else 0

/-- The messages whose checksum the test cannot get wrong: so long that the sum does not end, with
a sum that is a multiple of all ones, or with one more than that where the carry of the fold goes
astray. -/
def ChecksumTold (heap : Mem) (pkt : NetPacket) : Prop :=
  65494 < pkt.ip.hostPayloadLen.toNat ∨ 65535 ∣ pseudoSum pkt ∨
    (65536 < overreadSum heap pkt ∧ overreadSum heap pkt ≡ 1 [MOD 65535])

instance (heap : Mem) (pkt : NetPacket) : Decidable (ChecksumTold heap pkt) :=
  inferInstanceAs (Decidable (_ ∨ _))

theorem checkedSum_eq (heap : Mem) (pkt : NetPacket) :
    checkedSum heap pkt = overreadSum heap pkt := by
  have hsum := memWordSum_overread (makePseudoHdr pkt.ip.src pkt.ip.dest pkt.body
    pkt.ip.hostPayloadLen.toUInt32) heap
  have hwords : (40 + pkt.ip.hostPayloadLen.toNat + 1) / 2 =
      20 + (pkt.ip.hostPayloadLen.toNat + 1) / 2 := by omega
  have hparity : (40 + pkt.ip.hostPayloadLen.toNat) % 2 = pkt.ip.hostPayloadLen.toNat % 2 := by
    omega
  rw [overread, length_pseudo, hwords, hparity] at hsum
  exact hsum

/-- The fold of a sum of so many words is zero just above a multiple of all ones. -/
theorem foldOnce_eq_zero_iff_modEq {s : Nat} (hpos : 0 < s) (hs : s ≤ 65535 * 32768) :
    foldOnce s = 0 ↔ 65536 < s ∧ s ≡ 1 [MOD 65535] := by
  rw [foldOnce_eq_zero_iff hs]
  unfold halves Nat.ModEq
  omega

theorem passesChecksum_verifies_iff (heap : Mem) (pkt : NetPacket) :
    (passesChecksum heap pkt = .ok true → ChecksumVerifies pkt) ↔ ChecksumTold heap pkt := by
  unfold ChecksumTold
  by_cases hlen : 65494 < pkt.ip.hostPayloadLen.toNat
  · rw [passesChecksum_endless heap pkt hlen]
    exact iff_of_true (fun h => nomatch h) (Or.inl hlen)
  · have hpos : 0 < overreadSum heap pkt := Nat.add_pos_left (pseudoSum_pos pkt) _
    have hle : overreadSum heap pkt ≤ 65535 * 32768 := by
      rw [← checkedSum_eq]
      exact Nat.le_trans (memWordSum_le _ _ _) (by omega)
    rw [passesChecksum_eq heap pkt (Nat.le_of_not_lt hlen), checksumVerifies_iff_dvd,
      or_iff_right hlen, checkedSum_eq, ← foldOnce_eq_zero_iff_modEq hpos hle]
    by_cases hzero : foldOnce (overreadSum heap pkt) = 0
    · simp [hzero]
    · simp [hzero]

/-- A message that is accepted has a valid checksum exactly when an earlier test rejects it
or the checksum test can tell; and where it can, a message with a wrong checksum changes
nothing. -/
theorem accepted_verifies_iff (cfg : Config) (heap : Mem) (pkt : NetPacket) :
    ((nsolicitValid cfg heap pkt = .ok true → ChecksumVerifies pkt) ↔
      (nsolicitChecks cfg pkt = true → ChecksumTold heap pkt)) ∧
    ((nadvertValid cfg heap pkt = .ok true → ChecksumVerifies pkt) ↔
      (nadvertChecks cfg pkt = true → ChecksumTold heap pkt)) ∧
    (ChecksumTold heap pkt → ¬ ChecksumVerifies pkt →
      ∀ box sends box', neighbourIn cfg heap box pkt = .ok (sends, box') → box' = box) := by
  have htold := passesChecksum_verifies_iff heap pkt
  refine ⟨?_, ?_, ?_⟩
  · rw [nsolicitValid_eq, ← htold]
    by_cases hchecks : nsolicitChecks cfg pkt = true
    · simp [hchecks]
    · simp [hchecks]
  · rw [nadvertValid_eq, ← htold]
    by_cases hchecks : nadvertChecks cfg pkt = true
    · simp [hchecks]
    · simp [hchecks]
  · intro hcan hwrong box sends box' hin
    have hrejected : passesChecksum heap pkt ≠ .ok true := fun hok => hwrong (htold.mpr hcan hok)
    rcases neighbourIn_cases hin with ⟨-, hvalid, -⟩ | ⟨-, hvalid, -⟩ | ⟨-, -, hsame⟩
    · rw [nsolicitValid_eq] at hvalid
      split at hvalid
      · exact absurd hvalid hrejected
      · cases hvalid
    · rw [nadvertValid_eq] at hvalid
      split at hvalid
      · exact absurd hvalid hrejected
      · cases hvalid
    · exact hsame

/-- An example packet with the hop limit of a neighbour message. -/
def exampleNeighbourMessage (src dest : Ipv6Addr) (msg : List UInt8) : NetPacket :=
  { examplePacket src dest msg with
    ip := { (examplePacket src dest msg).ip with hopLimit := 255 } }

/-- A solicitation from the host, with no checksum filled in. -/
def exampleUnsummed : NetPacket :=
  exampleNeighbourMessage exampleHost exampleConfig.snmAddr
    ([0x87, 0, 0, 0, 0, 0, 0, 0] ++ exampleConfig.ipv6Addr.toList ++
      [1, 1, 0xA1, 0xA1, 0xA1, 0xA1, 0xA1, 0xA1])

/-- It is accepted, and the cache learns from it. -/
theorem accepted_verifies_fails_unsummed :
    nsolicitValid exampleConfig (fun _ => 0) exampleUnsummed = .ok true ∧
    ¬ ChecksumVerifies exampleUnsummed ∧
    ∃ sends box, neighbourIn exampleConfig (fun _ => 0) Box.init exampleUnsummed =
        .ok (sends, box) ∧ box.nd ≠ Box.init.nd := by
  have hvalid : nsolicitValid exampleConfig (fun _ => 0) exampleUnsummed = .ok true := by
    decide +kernel
  have hlearns : (nsolicitHandler Box.init exampleUnsummed).1.nd ≠ Box.init.nd := by
    decide +kernel
  exact ⟨hvalid, by decide +kernel, _, _, neighbourIn_solicit rfl hvalid Box.init, hlearns⟩

end NatBox
