import NatBox.Checksum
import NatBox.Neighbour.Solicit

/-
The validation of neighbour messages: `nsolicit_valid` and `nadvert_valid`.

Both end in the same test, and it is the wrong way round: `cksum_valid_1buf` returns
`TRUE` when the folded sum is zero, where it should be all ones, and its callers reject
on `TRUE`.  So a message passes whatever its checksum, unless its words happen to sum to
the one folded value that is turned away.
-/

namespace NatBox

open OnesComplement

def cksumValid1buf (pkt : Mem) (len : UInt32) : Except Fault Bool :=
  match checksumv6 pkt len with
  | .error f => .error f
  | .ok a => .ok ((0xffff : UInt16) &&& ~~~a = 0)

/- The loop of `nsolicit_valid` over the options, with `opt_len` and
`src_link_layer_opt`; `none` is its `return FALSE`.  The pointer stays on the first
option in every pass.  A pass takes at least eight from `opt_len`, which never leaves the
range of an `int16`. -/
def optionsLoop (opt : Mem) : Nat → Int → Bool → Except Fault (Option Bool)
  | 0, _, _ => .error .endlessLoop
  | passes + 1, optLen, srcLinkLayerOpt =>
    if 0 < optLen then
      let srcLinkLayerOpt := if opt 0 = 1 then true else srcLinkLayerOpt
      if opt 1 = 0 then .ok none
      else optionsLoop opt passes (optLen - (opt 1).toNat * 8) srcLinkLayerOpt
    else .ok (some srcLinkLayerOpt)

/-- The end of both functions: the checksum over the rebuilt pseudo-header and the message.
`heap` is what lies behind the block they build it in. -/
def passesChecksum (heap : Mem) (pkt : NetPacket) : Except Fault Bool :=
  let icmpSize := pkt.ip.hostPayloadLen.toUInt32
  let pseudo := Mem.ofBlock (makePseudoHdr pkt.ip.src pkt.ip.dest pkt.body icmpSize) heap
  match cksumValid1buf pseudo (40 + icmpSize) with
  | .error f => .error f
  | .ok true => .ok false
  | .ok false => .ok true

/-- `nsolicit_valid`.  The length is compared in network byte order. -/
def nsolicitValid (cfg : Config) (heap : Mem) (pkt : NetPacket) : Except Fault Bool :=
  if pkt.ip.hopLimit ≠ 255 then .ok false
  else if pkt.body 1 ≠ 0 then .ok false
  else if pkt.ip.payloadLen < 24 then .ok false
  else
    match optionsLoop (fun i => pkt.body (nsolSize + i)) 4097
        (pkt.ip.hostPayloadLen - 24).toInt16.toInt false with
    | .error f => .error f
    | .ok none => .ok false
    | .ok (some srcLinkLayerOpt) =>
      if matchBytes pkt.ip.src unspecified 16 &&
          (srcLinkLayerOpt || !matchBytes pkt.ip.dest cfg.snmAddr 16) then .ok false
      else passesChecksum heap pkt

/-- `nadvert_valid` -/
def nadvertValid (cfg : Config) (heap : Mem) (pkt : NetPacket) : Except Fault Bool :=
  if pkt.ip.hopLimit ≠ 255 then .ok false
  else if pkt.body 1 ≠ 0 then .ok false
  else if pkt.ip.payloadLen < 24 then .ok false
  else if matchBytes pkt.ip.src unspecified 16 && !matchBytes pkt.ip.dest cfg.snmAddr 16 then
    .ok false
  else passesChecksum heap pkt

/-! ## The checks before the checksum -/

/-- The loop ends, and the first option has decided. -/
theorem optionsLoop_eq (opt : Mem) : ∀ (passes : Nat) (optLen : Int) (srcLinkLayerOpt : Bool),
    optLen ≤ 8 * passes →
    optionsLoop opt (passes + 1) optLen srcLinkLayerOpt =
      .ok (if optLen ≤ 0 then some srcLinkLayerOpt
        else if opt 1 = 0 then none
        else some (srcLinkLayerOpt || opt 0 = 1)) := by
  intro passes
  induction passes with
  | zero =>
    intro optLen flag h
    have hend : ¬ 0 < optLen := by omega
    rw [optionsLoop, if_neg hend, if_pos (Int.not_lt.mp hend)]
  | succ passes ih =>
    intro optLen flag h
    rw [optionsLoop]
    by_cases hpos : 0 < optLen
    · rw [if_pos hpos, if_neg (Int.not_le.mpr hpos)]
      by_cases hlen : opt 1 = 0
      · rw [if_pos hlen, if_pos hlen]
      · have hlen' : 0 < (opt 1).toNat :=
          Nat.pos_of_ne_zero fun h0 => hlen (UInt8.toNat_inj.mp h0)
        dsimp only
        rw [if_neg hlen, if_neg hlen, ih _ _ (by omega), if_neg hlen]
        by_cases htype : opt 0 = 1
        · simp [htype]
        · simp [htype]
    · rw [if_neg hpos, if_pos (Int.not_lt.mp hpos)]

/-- What the two functions have in common before the checksum. -/
def headerChecks (pkt : NetPacket) : Bool :=
  pkt.ip.hopLimit = 255 && pkt.body 1 = 0 && !(pkt.ip.payloadLen < 24)

/-- The length of the options, in an `int16`. -/
def optLen (pkt : NetPacket) : Int := (pkt.ip.hostPayloadLen - 24).toInt16.toInt

/-- The tests of `nsolicit_valid` but the last. -/
def nsolicitChecks (cfg : Config) (pkt : NetPacket) : Bool :=
  headerChecks pkt && (optLen pkt ≤ 0 || pkt.body 25 ≠ 0) &&
    (pkt.ip.src ≠ unspecified ||
      (optLen pkt ≤ 0 || pkt.body 24 ≠ 1) && pkt.ip.dest = cfg.snmAddr)

/-- The tests of `nadvert_valid` but the last. -/
def nadvertChecks (cfg : Config) (pkt : NetPacket) : Bool :=
  headerChecks pkt && (pkt.ip.src ≠ unspecified || pkt.ip.dest = cfg.snmAddr)

theorem matchBytes_eq_decide (a b : Ipv6Addr) : matchBytes a b 16 = decide (a = b) := by
  apply Bool.eq_iff_iff.mpr
  rw [matchBytes_self_length, decide_eq_true_iff]

theorem if_headerChecks (pkt : NetPacket) (rest : Except Fault Bool) :
    (if pkt.ip.hopLimit ≠ 255 then .ok false
      else if pkt.body 1 ≠ 0 then .ok false
      else if pkt.ip.payloadLen < 24 then .ok false
      else rest) = if headerChecks pkt then rest else .ok false := by
  unfold headerChecks
  by_cases hhop : pkt.ip.hopLimit = 255
  · by_cases hcode : pkt.body 1 = 0
    · by_cases hlen : pkt.ip.payloadLen < 24
      · simp [hhop, hcode, hlen]
      · simp [hhop, hcode, hlen]
    · simp [hcode]
  · simp [hhop]

theorem optLen_le (pkt : NetPacket) : optLen pkt ≤ 8 * 4096 := by
  have h := (pkt.ip.hostPayloadLen - 24).toInt16.toInt_lt
  unfold optLen
  omega

theorem nadvertValid_eq (cfg : Config) (heap : Mem) (pkt : NetPacket) :
    nadvertValid cfg heap pkt =
      if nadvertChecks cfg pkt then passesChecksum heap pkt else .ok false := by
  unfold nadvertValid nadvertChecks
  rw [if_headerChecks, matchBytes_eq_decide, matchBytes_eq_decide]
  by_cases hheader : headerChecks pkt = true
  · by_cases hsrc : pkt.ip.src = unspecified
    · by_cases hdest : pkt.ip.dest = cfg.snmAddr
      · simp [hheader, hdest]
      · simp [hsrc, hdest]
    · simp [hheader, hsrc]
  · simp [hheader]

/-- What `nsolicit_valid` does with the outcome `f` of its loop, where `rest` is its last test. -/
theorem if_nsolicitChecks {cfg : Config} {pkt : NetPacket} {rest : Except Fault Bool}
    {f : Except Fault (Option Bool) → Except Fault Bool} (hnone : f (.ok none) = .ok false)
    (hsome : ∀ srcLinkLayerOpt, f (.ok (some srcLinkLayerOpt)) =
      if matchBytes pkt.ip.src unspecified 16 &&
          (srcLinkLayerOpt || !matchBytes pkt.ip.dest cfg.snmAddr 16) then .ok false
      else rest) :
    (if pkt.ip.hopLimit ≠ 255 then .ok false
      else if pkt.body 1 ≠ 0 then .ok false
      else if pkt.ip.payloadLen < 24 then .ok false
      else f (optionsLoop (fun i => pkt.body (nsolSize + i)) 4097
        (pkt.ip.hostPayloadLen - 24).toInt16.toInt false)) =
      if nsolicitChecks cfg pkt then rest else .ok false := by
  have hloop := optionsLoop_eq (fun i => pkt.body (nsolSize + i)) 4096 (optLen pkt) false
    (optLen_le pkt)
  rw [show optionsLoop (fun i => pkt.body (nsolSize + i)) 4097
    (pkt.ip.hostPayloadLen - 24).toInt16.toInt false = _ from hloop]
  have h24 : pkt.body (nsolSize + 0) = pkt.body 24 := rfl
  have h25 : pkt.body (nsolSize + 1) = pkt.body 25 := rfl
  rw [h24, h25, if_headerChecks]
  rw [matchBytes_eq_decide, matchBytes_eq_decide] at hsome
  unfold nsolicitChecks
  by_cases hheader : headerChecks pkt = true
  · rw [if_pos hheader, hheader]
    by_cases hopts : optLen pkt ≤ 0
    · rw [if_pos hopts, hsome]
      by_cases hsrc : pkt.ip.src = unspecified
      · by_cases hdest : pkt.ip.dest = cfg.snmAddr
        · simp [hopts, hdest]
        · simp [hopts, hsrc, hdest]
      · simp [hopts, hsrc]
    · rw [if_neg hopts]
      by_cases hlen : pkt.body 25 = 0
      · rw [if_pos hlen, hnone]
        simp [hopts, hlen]
      · rw [if_neg hlen, hsome]
        by_cases hsrc : pkt.ip.src = unspecified
        · by_cases htype : pkt.body 24 = 1
          · simp [hopts, hlen, hsrc, htype]
          · by_cases hdest : pkt.ip.dest = cfg.snmAddr
            · simp [hlen, htype, hdest]
            · simp [hlen, hsrc, htype, hdest]
        · simp [hlen, hsrc]
  · simp [hheader]

theorem nsolicitValid_eq (cfg : Config) (heap : Mem) (pkt : NetPacket) :
    nsolicitValid cfg heap pkt =
      if nsolicitChecks cfg pkt then passesChecksum heap pkt else .ok false :=
  if_nsolicitChecks (f := fun outcome =>
    match outcome with
    | .error f => .error f
    | .ok none => .ok false
    | .ok (some srcLinkLayerOpt) =>
      if matchBytes pkt.ip.src unspecified 16 &&
          (srcLinkLayerOpt || !matchBytes pkt.ip.dest cfg.snmAddr 16) then .ok false
      else passesChecksum heap pkt) rfl fun _ => rfl

/-! ## The checksum -/

/-- The words that `passesChecksum` adds up: for an odd length, the last one takes in a
byte of the heap. -/
def checkedSum (heap : Mem) (pkt : NetPacket) : Nat :=
  memWordSum (Mem.ofBlock (makePseudoHdr pkt.ip.src pkt.ip.dest pkt.body
    pkt.ip.hostPayloadLen.toUInt32) heap) 0 (20 + (pkt.ip.hostPayloadLen.toNat + 1) / 2)

/-- `cksum_valid_1buf` asks for a fold that is zero. -/
theorem cksumValid1buf_eq (pkt : Mem) {len : UInt32} {n : Nat} (hn : n < 32768)
    (hlen : (len.toNat + 1) / 2 = n) :
    cksumValid1buf pkt len = .ok (foldOnce (memWordSum pkt 0 n) = 0) := by
  obtain ⟨ck, hck, hv⟩ := toNat_checksumv6 pkt hn hlen
  have hlt := foldOnce_lt (memWordSum pkt 0 n)
  have hones : (0xffff : UInt16) &&& ~~~ck = 0 ↔ foldOnce (memWordSum pkt 0 n) = 0 := by
    rw [← UInt16.toNat_inj, UInt16.toNat_and, UInt16.toNat_not, hv]
    show 65535 &&& (65535 - (65535 - foldOnce (memWordSum pkt 0 n))) = 0 ↔ _
    rw [Nat.and_comm, Nat.and_two_pow_sub_one_eq_mod _ 16]
    omega
  rw [cksumValid1buf, hck]
  dsimp only
  rw [decide_eq_decide.mpr hones]

section Checksum

variable (heap : Mem) (pkt : NetPacket)

theorem toNat_pseudoSize : (40 + pkt.ip.hostPayloadLen.toUInt32).toNat =
    40 + pkt.ip.hostPayloadLen.toNat := by
  have hlen := pkt.ip.hostPayloadLen.toNat_lt
  rw [UInt32.toNat_add, UInt16.toNat_toUInt32]
  show (40 + _) % 4294967296 = _
  omega

theorem length_pseudo : (makePseudoHdr pkt.ip.src pkt.ip.dest pkt.body
    pkt.ip.hostPayloadLen.toUInt32).length = 40 + pkt.ip.hostPayloadLen.toNat := by
  rw [length_makePseudoHdr, UInt16.toNat_toUInt32]
  rfl

theorem checkedSum_of_even (heven : pkt.ip.hostPayloadLen.toNat % 2 = 0) :
    checkedSum heap pkt = pseudoSum pkt := by
  have hlen := length_pseudo pkt
  exact memWordSum_ofBlock (by omega) heap

/-- The test turns away one folded sum, zero. -/
theorem passesChecksum_eq (hlen : pkt.ip.hostPayloadLen.toNat ≤ 65494) :
    passesChecksum heap pkt = .ok (foldOnce (checkedSum heap pkt) ≠ 0) := by
  have hsize := toNat_pseudoSize pkt
  have hvalid : cksumValid1buf (Mem.ofBlock (makePseudoHdr pkt.ip.src pkt.ip.dest pkt.body
      pkt.ip.hostPayloadLen.toUInt32) heap) (40 + pkt.ip.hostPayloadLen.toUInt32) =
      .ok (foldOnce (checkedSum heap pkt) = 0) :=
    cksumValid1buf_eq _ (by omega) (by omega)
  unfold passesChecksum
  dsimp only
  rw [hvalid]
  by_cases hzero : foldOnce (checkedSum heap pkt) = 0
  · simp [hzero]
  · simp [hzero]

theorem passesChecksum_endless (hlen : 65494 < pkt.ip.hostPayloadLen.toNat) :
    passesChecksum heap pkt = .error .endlessLoop := by
  have hsize := toNat_pseudoSize pkt
  unfold passesChecksum cksumValid1buf
  dsimp only
  rw [checksumv6_endless _ (by omega)]

end Checksum

end NatBox
