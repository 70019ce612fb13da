import NatBox.Neighbour.Options
import NatBox.Neighbour.Receive

/-
The rules for neighbour solicitations against what `nsolicit_valid` tests.

The length is compared before its bytes are swapped, the length of the options goes through
an `int16`, and the loop over the options stays on the first one.
-/

namespace NatBox

/-- The length of the message in bytes. -/
def messageLen (pkt : NetPacket) : Nat := pkt.ip.hostPayloadLen.toNat

/-- The option at an offset is one of the walk through the options of a solicitation. -/
def OptionOf (pkt : NetPacket) (off : Nat) : Prop :=
  OptionAt pkt.body (messageLen pkt) nsolSize off ∧ off < messageLen pkt

/-- An option that a solicitation with such a source may carry. -/
def OptionPasses (pkt : NetPacket) (off : Nat) : Prop :=
  pkt.body (off + 1) ≠ 0 ∧ (pkt.ip.src = unspecified → pkt.body off ≠ 1)

/-- What a solicitation has to be like, its checksum aside. -/
structure SolicitationRules (cfg : Config) (pkt : NetPacket) : Prop where
  hopLimit : pkt.ip.hopLimit = 255
  code : pkt.body 1 = 0
  length : 24 ≤ messageLen pkt
  optionLengths : ∀ off, OptionOf pkt off → pkt.body (off + 1) ≠ 0
  noSource : pkt.ip.src = unspecified →
    pkt.ip.dest = cfg.snmAddr ∧ ∀ off, OptionOf pkt off → pkt.body off ≠ 1

/-- The two bytes of the length, the other way round, are a number below 24. -/
def SwappedShort (pkt : NetPacket) : Prop :=
  messageLen pkt % 256 = 0 ∧ messageLen pkt ≤ 5888

instance (pkt : NetPacket) : Decidable (SwappedShort pkt) := inferInstanceAs (Decidable (_ ∧ _))

/-- `nsolicit_valid` looks at the first option, and it does not pass. -/
def FirstOptionFails (pkt : NetPacket) : Prop :=
  24 < messageLen pkt ∧ messageLen pkt < 32792 ∧ ¬ OptionPasses pkt nsolSize

/-- The test of `nsolicit_valid` does not depend on what it gets wrong: an earlier test fails, or
the length stands both comparisons alike and the first option speaks for all of them. -/
def RulesTested (cfg : Config) (pkt : NetPacket) : Prop :=
  pkt.ip.hopLimit ≠ 255 ∨ pkt.body 1 ≠ 0 ∨
    (pkt.ip.src = unspecified ∧ pkt.ip.dest ≠ cfg.snmAddr) ∨ messageLen pkt = 0 ∨
    (24 ≤ messageLen pkt ∧
      if SwappedShort pkt then ∃ off, OptionOf pkt off ∧ ¬ OptionPasses pkt off
      else FirstOptionFails pkt ∨ ∀ off, OptionOf pkt off → OptionPasses pkt off)

section Rules

variable {cfg : Config} {pkt : NetPacket}

theorem swappedShort_iff : SwappedShort pkt ↔ pkt.ip.payloadLen < 24 := by
  have hraw := pkt.ip.payloadLen.toNat_lt
  have hlen : messageLen pkt = _ := toNat_ntohs pkt.ip.payloadLen
  have hlow : messageLen pkt % 256 = pkt.ip.payloadLen.toNat / 256 := by omega
  unfold SwappedShort
  rw [UInt16.lt_iff_toNat_lt, hlow]
  show _ ↔ _ < 24
  omega

/-- The `int16` is not positive from 32792 bytes on. -/
theorem optLen_nonpos_iff : optLen pkt ≤ 0 ↔ messageLen pkt ≤ 24 ∨ 32792 ≤ messageLen pkt := by
  have hlt := pkt.ip.hostPayloadLen.toNat_lt
  have hsub : (pkt.ip.hostPayloadLen - 24).toNat =
      (65536 - 24 + pkt.ip.hostPayloadLen.toNat) % 65536 := UInt16.toNat_sub _ _
  have hint : optLen pkt = (pkt.ip.hostPayloadLen - 24).toBitVec.toInt := rfl
  rw [hint, BitVec.toInt_eq_toNat_cond, UInt16.toNat_toBitVec, hsub]
  unfold messageLen
  split <;> omega

/-- What `nsolicit_valid` tests before the checksum. -/
theorem nsolicitChecks_iff :
    nsolicitChecks cfg pkt = true ↔
      pkt.ip.hopLimit = 255 ∧ pkt.body 1 = 0 ∧ ¬ SwappedShort pkt ∧ ¬ FirstOptionFails pkt ∧
        (pkt.ip.src = unspecified → pkt.ip.dest = cfg.snmAddr) := by
  have hopts : optLen pkt ≤ 0 ↔ ¬ (24 < messageLen pkt ∧ messageLen pkt < 32792) := by
    rw [optLen_nonpos_iff]
    omega
  unfold nsolicitChecks headerChecks FirstOptionFails OptionPasses
  rw [swappedShort_iff]
  simp only [Bool.and_eq_true, Bool.or_eq_true, decide_eq_true_iff, Bool.not_eq_true',
    decide_eq_false_iff_not, hopts]
  rw [show nsolSize = 24 from rfl]
  tauto

/-- The rules, options apart. -/
theorem solicitationRules_iff :
    SolicitationRules cfg pkt ↔
      pkt.ip.hopLimit = 255 ∧ pkt.body 1 = 0 ∧ 24 ≤ messageLen pkt ∧
        (∀ off, OptionOf pkt off → OptionPasses pkt off) ∧
        (pkt.ip.src = unspecified → pkt.ip.dest = cfg.snmAddr) := by
  constructor
  · intro h
    exact ⟨h.hopLimit, h.code, h.length,
      fun off hoff => ⟨h.optionLengths off hoff, fun hsrc => (h.noSource hsrc).2 off hoff⟩,
      fun hsrc => (h.noSource hsrc).1⟩
  · rintro ⟨hhop, hcode, hlen, hopts, hdest⟩
    exact ⟨hhop, hcode, hlen, fun off hoff => (hopts off hoff).1,
      fun hsrc => ⟨hdest hsrc, fun off hoff => (hopts off hoff).2 hsrc⟩⟩

/-- The first option is one of the walk. -/
theorem optionOf_first (h : 24 < messageLen pkt) : OptionOf pkt nsolSize := ⟨.first, h⟩

/-- `nsolicit_valid`, but for its last test, is the check of the rules exactly for the packets
on which its slips do not show. -/
theorem nsolicitValid_rules_iff :
    (∀ heap, nsolicitValid cfg heap pkt =
      if nsolicitChecks cfg pkt then passesChecksum heap pkt else .ok false) ∧
    ((nsolicitChecks cfg pkt = true ↔ SolicitationRules cfg pkt) ↔ RulesTested cfg pkt) := by
  refine ⟨fun heap => nsolicitValid_eq cfg heap pkt, ?_⟩
  rw [nsolicitChecks_iff, solicitationRules_iff]
  unfold RulesTested
  have hfirst : (∀ off, OptionOf pkt off → OptionPasses pkt off) → ¬ FirstOptionFails pkt :=
    fun hall h => h.2.2 (hall nsolSize (optionOf_first h.1))
  have hsome : (∃ off, OptionOf pkt off ∧ ¬ OptionPasses pkt off) ↔
      ¬ ∀ off, OptionOf pkt off → OptionPasses pkt off := by
    push Not
    rfl
  rw [hsome]
  generalize (∀ off, OptionOf pkt off → OptionPasses pkt off) = pass at hfirst ⊢
  by_cases hhop : pkt.ip.hopLimit = 255
  · by_cases hcode : pkt.body 1 = 0
    · by_cases hdest : pkt.ip.src = unspecified → pkt.ip.dest = cfg.snmAddr
      · have hdest' : ¬ (pkt.ip.src = unspecified ∧ pkt.ip.dest ≠ cfg.snmAddr) := fun h =>
          h.2 (hdest h.1)
        by_cases hlen : 24 ≤ messageLen pkt
        · have hzero : messageLen pkt ≠ 0 := by omega
          by_cases hswap : SwappedShort pkt
          · by_cases hpass : pass <;> simp [hhop, hcode, hdest', hlen, hzero, hswap, hpass]
          · by_cases hpass : pass
            · simp [hhop, hcode, hlen, hswap, hpass, hfirst hpass]
            · simp [hhop, hcode, hdest', hlen, hzero, hswap, hpass]
        · have hshort : SwappedShort pkt ↔ messageLen pkt = 0 := by
            unfold SwappedShort
            omega
          have hfails : ¬ FirstOptionFails pkt := fun h => hlen (Nat.le_of_lt h.1)
          simp [hhop, hcode, hdest', hlen, hfails, hshort]
      · have hdest' : pkt.ip.src = unspecified ∧ pkt.ip.dest ≠ cfg.snmAddr := by
          push Not at hdest
          exact hdest
        simp [hdest']
    · simp [hcode]
  · simp [hhop]

end Rules

/-- A probe with two options, the second one the link-layer address of its sender. -/
def exampleSecondOption : NetPacket :=
  exampleNeighbourMessage unspecified exampleConfig.snmAddr
    ([0x87, 0, 0, 0, 0, 0, 0, 0] ++ exampleConfig.ipv6Addr.toList ++
      [14, 1, 0, 0, 0, 0, 0, 0] ++ [1, 1, 0xA1, 0xA1, 0xA1, 0xA1, 0xA1, 0xA1])

/-- It passes all tests, though the rules turn it away. -/
theorem nsolicitValid_rules_fails :
    nsolicitChecks exampleConfig exampleSecondOption = true ∧
      ¬ SolicitationRules exampleConfig exampleSecondOption := by
  refine ⟨by decide +kernel, fun h => ?_⟩
  have hfirst : OptionAt exampleSecondOption.body (messageLen exampleSecondOption) nsolSize 24 :=
    .first
  have hsecond := hfirst.next (by decide +kernel) (by decide +kernel)
  exact (h.noSource (by decide +kernel)).2 _ ⟨hsecond, by decide +kernel⟩ (by decide +kernel)

end NatBox
