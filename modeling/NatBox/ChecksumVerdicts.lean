import NatBox.InternetChecksum
import NatBox.Neighbour.Router

/-
The verdicts of `cksum_valid` and `cksum_valid_1buf` on one message.

`cksum_valid` adds the complements for the pseudo-header and for the message and asks for all
ones, which a message with its right checksum gives.  `cksum_valid_1buf` asks the complement
for both of them together for all ones, where it should ask for zero.  So the two part on every
message that is right; on one that is wrong, either can be misled by the carry of a fold.
-/

namespace NatBox

open OnesComplement

/-- `cksum_valid` asks for two folds that add up to all ones. -/
theorem cksumValid_eq (phead pkt : Mem) {len pheadlen : UInt32} {n k : Nat} (hn : n < 32768)
    (hk : k < 32768) (hlen : (len.toNat + 1) / 2 = n) (hpheadlen : (pheadlen.toNat + 1) / 2 = k) :
    cksumValid phead pkt len pheadlen =
      .ok (foldOnce (memWordSum pkt 0 n) + foldOnce (memWordSum phead 0 k) = 65535) := by
  obtain ⟨a, ha, hav⟩ := toNat_checksumv6 pkt hn hlen
  obtain ⟨b, hb, hbv⟩ := toNat_checksumv6 phead hk hpheadlen
  have hmsg := foldOnce_lt (memWordSum pkt 0 n)
  have hphead := foldOnce_lt (memWordSum phead 0 k)
  have hsum : (a.toUInt32 + b.toUInt32).toNat = a.toNat + b.toNat := by
    have hlta := a.toNat_lt
    have hltb := b.toNat_lt
    rw [UInt32.toNat_add, UInt16.toNat_toUInt32, UInt16.toNat_toUInt32]
    omega
  have hones : (0xffff : UInt32) &&& ~~~(a.toUInt32 + b.toUInt32) = 0 ↔
      foldOnce (memWordSum pkt 0 n) + foldOnce (memWordSum phead 0 k) = 65535 := by
    rw [← UInt32.toNat_inj, UInt32.toNat_and, UInt32.toNat_not, hsum, hav, hbv]
    show 65535 &&& (4294967295 - (65535 - foldOnce (memWordSum pkt 0 n) +
      (65535 - foldOnce (memWordSum phead 0 k)))) = 0 ↔ _
    rw [Nat.and_comm, Nat.and_two_pow_sub_one_eq_mod _ 16]
    omega
  rw [cksumValid, ha]
  dsimp only
  rw [hb]
  dsimp only
  rw [decide_eq_decide.mpr hones]

/-! ## The folds -/

/-- Two folds add up to all ones where the halves do, or where one of the folds has lost its
carry. -/
theorem foldOnce_add_eq_ones_iff {s t : Nat} (hs : s ≤ 65535 * 32768) (ht : t ≤ 65535 * 32768) :
    foldOnce s + foldOnce t = 65535 ↔
      halves s + halves t = 65535 ∨ halves s + halves t = 131071 := by
  obtain ⟨hfolds, -, hbounds, -, -⟩ := foldOnce_halves hs
  obtain ⟨hfoldt, -, hboundt, -, -⟩ := foldOnce_halves ht
  rw [hfolds, hfoldt]
  split <;> split <;> omega

/-- The three tests on the sums `p` and `m`: both verdicts are right exactly where all three
say no. -/
theorem tests_agree_iff {p m : Nat} (hp : p ≤ 65535 * 32768) (hm : m ≤ 65535 * 32768)
    (hsum : p + m ≤ 65535 * 32768) :
    ((foldOnce m + foldOnce p = 65535 ↔ 0 < p + m ∧ 65535 ∣ p + m) ∧
        (foldOnce (p + m) = 0 ↔ 0 < p + m ∧ 65535 ∣ p + m)) ↔
      ¬ 65535 ∣ p + m ∧ halves (p + m) ≠ 65536 ∧ halves p + halves m ≠ 131071 := by
  obtain ⟨-, hworth, -, -, -⟩ := foldOnce_halves hsum
  obtain ⟨-, hworthp, -, -, -⟩ := foldOnce_halves hp
  obtain ⟨-, hworthm, -, -, -⟩ := foldOnce_halves hm
  rw [foldOnce_add_eq_ones_iff hm hp, foldOnce_eq_zero_iff hsum]
  by_cases hright : 65535 ∣ p + m
  · -- a sum of 65536 is worth one, so the second test takes no right sum but zero
    have hcarry : halves (p + m) ≠ 65536 := by omega
    refine iff_of_false (fun h => ?_) fun h => h.1 hright
    have h2 := h.2
    omega
  · have hone : halves m + halves p ≠ 65535 := by omega
    omega

/-! ## The verdicts -/

/-- Both functions return, with the verdict of the one's-complement sum over all words.  The
blocks lie in three places, each with its own memory behind it. -/
def VerdictsAgree (phead msg : List UInt8) (behind₁ behind₂ behind₃ : Mem) : Prop :=
  ∃ verdict : Bool,
    cksumValid (Mem.ofBlock phead behind₁) (Mem.ofBlock msg behind₂)
      (UInt32.ofNat msg.length) (UInt32.ofNat phead.length) = .ok verdict ∧
    cksumValid1buf (Mem.ofBlock (phead ++ msg) behind₃)
      (UInt32.ofNat (phead.length + msg.length)) = .ok verdict ∧
    (verdict = true ↔ sum 65535 (words (phead ++ msg)) = 65535)

section Verdicts

variable {phead msg : List UInt8} (hphead : phead.length = 40) (heven : msg.length % 2 = 0)
  (hlen : phead.length + msg.length < 65536) (behind₁ behind₂ behind₃ : Mem)

include hphead heven hlen

theorem cksumValid_ofBlock :
    cksumValid (Mem.ofBlock phead behind₁) (Mem.ofBlock msg behind₂)
        (UInt32.ofNat msg.length) (UInt32.ofNat phead.length) =
      .ok (foldOnce (wordSum msg) + foldOnce (wordSum phead) = 65535) := by
  have hmsg := toNat_messagelength (show msg.length < 65536 by omega)
  have hphead' := toNat_messagelength (show phead.length < 65536 by omega)
  rw [@cksumValid_eq _ _ _ _ (msg.length / 2) 20 (by omega) (by omega) (by omega) (by omega),
    memWordSum_ofBlock (by omega), memWordSum_ofBlock (by omega)]

theorem cksumValid1buf_ofBlock :
    cksumValid1buf (Mem.ofBlock (phead ++ msg) behind₃)
        (UInt32.ofNat (phead.length + msg.length)) =
      .ok (foldOnce (wordSum phead + wordSum msg) = 0) := by
  have hboth := toNat_messagelength hlen
  have happend : (phead ++ msg).length = phead.length + msg.length := List.length_append
  rw [@cksumValid1buf_eq _ _ (20 + msg.length / 2) (by omega) (by omega),
    memWordSum_ofBlock (by omega), wordSum_append _ _ (by omega)]

/-- The two validators give the right verdict exactly where the checksum is wrong, and no fold
loses a carry that makes it look right to one of them. -/
theorem verdictsAgree_iff :
    VerdictsAgree phead msg behind₁ behind₂ behind₃ ↔
      ¬ 65535 ∣ wordSum phead + wordSum msg ∧ halves (wordSum phead + wordSum msg) ≠ 65536 ∧
        halves (wordSum phead) + halves (wordSum msg) ≠ 131071 := by
  have hp : wordSum phead ≤ 65535 * 20 := wordSum_le _ _ (by omega)
  have hm : wordSum msg ≤ 65535 * 32747 := wordSum_le _ _ (by omega)
  have hright : sum 65535 (words (phead ++ msg)) = 65535 ↔
      0 < wordSum phead + wordSum msg ∧ 65535 ∣ wordSum phead + wordSum msg := by
    rw [← wordSum_append phead msg (by omega)]
    exact sum_eq_max_iff (by omega) (words_le _)
  rw [← tests_agree_iff (by omega) (by omega) (by omega), ← hright]
  unfold VerdictsAgree
  rw [cksumValid_ofBlock hphead heven hlen, cksumValid1buf_ofBlock hphead heven hlen]
  constructor
  · rintro ⟨verdict, htwo, hone, hverdict⟩
    cases htwo
    rw [decide_eq_true_iff] at hverdict
    exact ⟨hverdict, (decide_eq_decide.mp (Except.ok.inj hone)).trans hverdict⟩
  · rintro ⟨htwo, hone⟩
    refine ⟨_, rfl, ?_, decide_eq_true_iff.trans htwo⟩
    rw [decide_eq_decide.mpr (hone.trans htwo.symm)]

end Verdicts

/-- An echo request whose checksum field is zero: both say no. -/
theorem verdictsAgree_unsummed :
    VerdictsAgree (List.replicate 35 0 ++ [8, 0, 0, 0, 58]) [0x80, 0, 0, 0, 0, 0, 0, 0]
      (fun _ => 0) (fun _ => 0) (fun _ => 0) :=
  (verdictsAgree_iff (by decide) (by decide) (by decide) _ _ _).mpr (by decide)

/-- An echo request with its right checksum: the one says yes, the other no. -/
theorem cksumValid1buf_rejects_summed :
    ¬ ∀ (phead msg : List UInt8) (behind₁ behind₂ behind₃ : Mem), phead.length = 40 →
      msg.length % 2 = 0 → phead.length + msg.length < 65536 →
      VerdictsAgree phead msg behind₁ behind₂ behind₃ := by
  intro h
  obtain ⟨verdict, htwo, hone, -⟩ := h (List.replicate 35 0 ++ [8, 0, 0, 0, 58])
    [0x80, 0, 0x7F, 0xBD, 0, 0, 0, 0] (fun _ => 0) (fun _ => 0) (fun _ => 0)
    (by decide) (by decide) (by decide)
  rw [cksumValid_ofBlock (by decide) (by decide) (by decide)] at htwo
  rw [cksumValid1buf_ofBlock (by decide) (by decide) (by decide)] at hone
  have hsame := Except.ok.inj (htwo.trans hone.symm)
  revert hsame
  decide

end NatBox
