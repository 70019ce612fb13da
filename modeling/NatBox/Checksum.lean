import NatBox.Lib.OnesComplement
import NatBox.Packet

/-
The ICMPv6 checksum: `makePseudoHdr` and `checksumv6`.

`checksumv6` adds the big-endian words of its buffer and folds the high half of
the sum into the low half once.  When that one addition carries, the carry is
lost: `toNat_checksumv6` gives the result, `foldOnce_modEq` says what it is worth
modulo all ones.
-/

namespace NatBox

open OnesComplement

/-- `PSEUDOLEN` -/
def pseudoLen : Nat := 40

/-- `ECHOREQSIZE`: `body` of `icmpv6echoreq` has no bytes. -/
def echoReqSize : Nat := 8

def be32Bytes (v : UInt32) : List UInt8 :=
  [(v >>> 24).toUInt8, (v >>> 16).toUInt8, (v >>> 8).toUInt8, v.toUInt8]

/-- The block that `makePseudoHdr` fills: `PSEUDOLEN + pktLen` bytes. -/
def makePseudoHdr (src dest : Ipv6Addr) (pkt : Mem) (pktLen : UInt32) : List UInt8 :=
  src.toList ++ dest.toList ++ be32Bytes pktLen ++ [0, 0, 0, ipv6Icmp] ++ pkt.read 0 pktLen.toNat

/- `i` is a `uint16` compared with a 32-bit length, while `ptr16` moves on by
itself.  The index takes 32768 values before it is back at zero, so a run that
uses up its fuel repeats for ever. -/
def checksumLoop (pkt : Mem) (messagelength : UInt32) :
    Nat → UInt16 → Nat → UInt32 → Except Fault UInt32
  | 0, _, _, _ => .error .endlessLoop
  | fuel + 1, i, ptr16, cksum =>
    if i.toUInt32 < messagelength then
      checksumLoop pkt messagelength fuel (i + 2) (ptr16 + 2)
        (cksum + (ntohs (pkt.load16 ptr16)).toUInt32)
    else .ok cksum

def checksumv6 (pkt : Mem) (messagelength : UInt32) : Except Fault UInt16 :=
  match checksumLoop pkt messagelength 32769 0 0 0 with
  | .error f => .error f
  | .ok cksum =>
    let cksum := cksum + (cksum >>> 16)
    let cksum := (0xffff : UInt32) &&& ~~~cksum
    .ok cksum.toUInt16

/-! ## Word sums in memory -/

/-- The sum of the `n` big-endian words at `off`. -/
def memWordSum (m : Mem) (off n : Nat) : Nat := wordSum (m.read off (2 * n))

theorem memWordSum_succ (m : Mem) (off n : Nat) :
    memWordSum m off (n + 1) =
      (ntohs (m.load16 off)).toNat + memWordSum m (off + 2) n := by
  rw [memWordSum, show 2 * (n + 1) = 2 * n + 1 + 1 by omega, Mem.read_succ, Mem.read_succ,
    wordSum_cons_cons, toNat_ntohs_load16]
  rfl

theorem memWordSum_le (m : Mem) (off n : Nat) : memWordSum m off n ≤ 65535 * n :=
  wordSum_le _ n (by rw [Mem.length_read])

/-- The loop ends after `n` words and leaves their sum, which 32 bits can hold. -/
theorem checksumLoop_eq (pkt : Mem) (len : UInt32) (n : Nat) :
    ∀ (fuel : Nat) (i : UInt16) (ptr : Nat) (cksum : UInt32), n < fuel →
      i.toNat + 2 * n < 65536 → len.toNat ≤ i.toNat + 2 * n →
      (0 < n → i.toNat + 2 * (n - 1) < len.toNat) → cksum.toNat + 65535 * n < 2 ^ 32 →
      ∃ r, checksumLoop pkt len fuel i ptr cksum = .ok r ∧
        r.toNat = cksum.toNat + memWordSum pkt ptr n := by
  induction n with
  | zero =>
    intro fuel i ptr cksum hfuel hi hlen _ _
    obtain ⟨fuel, rfl⟩ : ∃ f, fuel = f + 1 := ⟨fuel - 1, by omega⟩
    refine ⟨cksum, ?_, rfl⟩
    rw [checksumLoop, if_neg]
    rw [UInt32.lt_iff_toNat_lt, UInt16.toNat_toUInt32]
    omega
  | succ n ih =>
    intro fuel i ptr cksum hfuel hi hlen hlast hsum
    obtain ⟨fuel, rfl⟩ : ∃ f, fuel = f + 1 := ⟨fuel - 1, by omega⟩
    have hlast := hlast (Nat.succ_pos n)
    have hw := (ntohs (pkt.load16 ptr)).toNat_lt
    have hi2 : (i + 2).toNat = i.toNat + 2 := by
      simp only [UInt16.toNat_add, UInt16.reduceToNat]
      omega
    have hc : (cksum + (ntohs (pkt.load16 ptr)).toUInt32).toNat =
        cksum.toNat + (ntohs (pkt.load16 ptr)).toNat := by
      rw [UInt32.toNat_add, UInt16.toNat_toUInt32]
      omega
    obtain ⟨r, hr, hrv⟩ := ih fuel (i + 2) (ptr + 2)
      (cksum + (ntohs (pkt.load16 ptr)).toUInt32)
      (by omega) (by omega) (by omega) (by omega) (by omega)
    refine ⟨r, ?_, ?_⟩
    · rw [checksumLoop, if_pos, hr]
      rw [UInt32.lt_iff_toNat_lt, UInt16.toNat_toUInt32]
      omega
    · rw [hrv, hc, memWordSum_succ]
      omega

theorem memWordSum_ofBlock {bs : List UInt8} {n : Nat} (h : bs.length = 2 * n) (behind : Mem) :
    memWordSum (Mem.ofBlock bs behind) 0 n = wordSum bs := by
  rw [memWordSum, ← h, Mem.read_ofBlock]

theorem wordSum_be32Bytes (v : UInt32) :
    wordSum (be32Bytes v) = v.toNat / 65536 + v.toNat % 65536 := by
  have hv := v.toNat_lt
  rw [be32Bytes, wordSum_cons_cons, wordSum_cons_cons, wordSum_nil]
  simp only [UInt32.toNat_toUInt8, UInt32.toNat_shiftRight, UInt32.reduceToNat, Nat.reduceMod,
    Nat.shiftRight_eq_div_pow]
  omega

theorem length_makePseudoHdr (src dest : Ipv6Addr) (pkt : Mem) (len : UInt32) :
    (makePseudoHdr src dest pkt len).length = pseudoLen + len.toNat := by
  simp [makePseudoHdr, be32Bytes, pseudoLen]
  omega

/-- The pseudo-header and the message behind it, summed apart. -/
theorem wordSum_makePseudoHdr (src dest : Ipv6Addr) (pkt : Mem) (len : UInt32) :
    wordSum (makePseudoHdr src dest pkt len) =
      wordSum src.toList + wordSum dest.toList + (len.toNat / 65536 + len.toNat % 65536) + 58 +
        wordSum (pkt.read 0 len.toNat) := by
  have hzero : wordSum [0, 0, 0, ipv6Icmp] = 58 := by decide
  rw [makePseudoHdr, wordSum_append _ _ (by simp [be32Bytes]),
    wordSum_append _ _ (by simp [be32Bytes]), wordSum_append _ _ (by simp),
    wordSum_append _ _ (by simp), wordSum_be32Bytes, hzero]

/-! ## The fold -/

/-- The code's fold: the high half is added to the low half once and the result
cut to 16 bits. -/
def foldOnce (s : Nat) : Nat := (s + s / 65536) % 65536

/-- The carry of that addition. -/
def foldCarry (s : Nat) : Nat := (s % 65536 + s / 65536) / 65536

/-- Folding drops the carry, which is worth one modulo all ones. -/
theorem foldOnce_modEq {s : Nat} : foldOnce s + foldCarry s ≡ s [MOD 65535] := by
  unfold foldOnce foldCarry Nat.ModEq
  omega

/-- The two halves of a sum, added up. -/
def halves (s : Nat) : Nat := s % 65536 + s / 65536

theorem foldOnce_lt (s : Nat) : foldOnce s < 65536 := Nat.mod_lt _ (by decide)

/-- `checksumv6` over a number of bytes that its index can count.  For an odd one the last
word takes in the byte behind them. -/
theorem toNat_checksumv6 (pkt : Mem) {len : UInt32} {n : Nat} (hn : n < 32768)
    (hlen : (len.toNat + 1) / 2 = n) :
    ∃ ck, checksumv6 pkt len = .ok ck ∧ ck.toNat = 65535 - foldOnce (memWordSum pkt 0 n) := by
  obtain ⟨r, hr, hrv⟩ := checksumLoop_eq pkt len n 32769 0 0 0
    (by omega) (by simp; omega) (by simp; omega) (by simp; omega) (by simp; omega)
  have hle := memWordSum_le pkt 0 n
  have hr0 : r.toNat = memWordSum pkt 0 n := by simpa using hrv
  have hmask : ∀ y : Nat, 65535 &&& y = y % 65536 := fun y => by
    rw [Nat.and_comm]
    exact Nat.and_two_pow_sub_one_eq_mod y 16
  refine ⟨((0xffff : UInt32) &&& ~~~(r + (r >>> 16))).toUInt16, by rw [checksumv6, hr], ?_⟩
  have hf : (r + (r >>> 16)).toNat = r.toNat + r.toNat / 65536 := by
    rw [UInt32.toNat_add, UInt32.toNat_shiftRight]
    simp only [UInt32.reduceToNat, Nat.reduceMod, Nat.shiftRight_eq_div_pow, Nat.reducePow]
    omega
  rw [UInt32.toNat_toUInt16, UInt32.toNat_and, UInt32.toNat_not, hf, hr0, foldOnce]
  simp only [UInt32.reduceToNat, hmask, UInt32.size, Nat.reducePow]
  omega

/-- No even index reaches a longer length. -/
theorem checksumv6_endless (pkt : Mem) {len : UInt32} (hlen : 65534 < len.toNat) :
    checksumv6 pkt len = .error .endlessLoop := by
  have hloop : ∀ (fuel : Nat) (i : UInt16) (ptr : Nat) (cksum : UInt32), i.toNat % 2 = 0 →
      checksumLoop pkt len fuel i ptr cksum = .error .endlessLoop := by
    intro fuel
    induction fuel with
    | zero => exact fun _ _ _ _ => rfl
    | succ fuel ih =>
      intro i ptr cksum hi
      have hi' := i.toNat_lt
      rw [checksumLoop, if_pos, ih]
      · simp only [UInt16.toNat_add, UInt16.reduceToNat]
        omega
      · rw [UInt32.lt_iff_toNat_lt, UInt16.toNat_toUInt32]
        omega
  rw [checksumv6, hloop _ _ _ _ rfl]

/-! ## What a checksum is for -/

/-- The one's-complement sum over the pseudo-header and the message is all ones. -/
def ChecksumVerifies (pkt : NetPacket) : Prop :=
  OnesComplement.sum 65535
    (words (makePseudoHdr pkt.ip.src pkt.ip.dest pkt.body pkt.ip.hostPayloadLen.toUInt32)) = 65535

instance (pkt : NetPacket) : Decidable (ChecksumVerifies pkt) :=
  inferInstanceAs (Decidable (_ = _))

/-- The plain sum over the pseudo-header and the message. -/
def pseudoSum (pkt : NetPacket) : Nat :=
  wordSum (makePseudoHdr pkt.ip.src pkt.ip.dest pkt.body pkt.ip.hostPayloadLen.toUInt32)

theorem pseudoSum_eq (pkt : NetPacket) :
    pseudoSum pkt =
      wordSum pkt.ip.src.toList + wordSum pkt.ip.dest.toList + pkt.ip.hostPayloadLen.toNat + 58 +
        wordSum (pkt.body.read 0 pkt.ip.hostPayloadLen.toNat) := by
  have hlen := pkt.ip.hostPayloadLen.toNat_lt
  rw [pseudoSum, wordSum_makePseudoHdr, UInt16.toNat_toUInt32]
  omega

theorem pseudoSum_pos (pkt : NetPacket) : 0 < pseudoSum pkt := by
  rw [pseudoSum_eq]
  omega

theorem checksumVerifies_iff_dvd (pkt : NetPacket) :
    ChecksumVerifies pkt ↔ 65535 ∣ pseudoSum pkt := by
  have hiff := sum_eq_max_iff (show 0 < 65535 by omega) (words_le (makePseudoHdr pkt.ip.src
    pkt.ip.dest pkt.body pkt.ip.hostPayloadLen.toUInt32))
  exact hiff.trans (and_iff_right (pseudoSum_pos pkt))

theorem checksumVerifies_iff (pkt : NetPacket) :
    ChecksumVerifies pkt ↔ 65535 ∣
      wordSum pkt.ip.src.toList + wordSum pkt.ip.dest.toList + pkt.ip.hostPayloadLen.toNat + 58 +
        wordSum (pkt.body.read 0 pkt.ip.hostPayloadLen.toNat) := by
  rw [checksumVerifies_iff_dvd, pseudoSum_eq]

end NatBox
