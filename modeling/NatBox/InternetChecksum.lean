import NatBox.Checksum

/-
`checksumv6` against the Internet checksum.

Two things can go wrong.  The sum is folded once, and what that carries is lost.  The last
word of a buffer of odd length takes in the byte behind it, which is to be zero.  They
cancel each other where that byte is one and the fold carries.
-/

namespace NatBox

open OnesComplement

/-- The complement of the one's-complement sum of the words. -/
def internetChecksum (bs : List UInt8) : UInt16 := UInt16.ofNat (65535 - sum 65535 (words bs))

/-- What the byte behind the buffer adds to the last word. -/
def overread (bs : List UInt8) (behind : Mem) : Nat :=
  if bs.length % 2 = 1 then (behind bs.length).toNat else 0

theorem toNat_messagelength {n : Nat} (h : n < 65536) : (UInt32.ofNat n).toNat = n :=
  UInt32.toNat_ofNat_of_lt' (by
    show n < 4294967296
    omega)

theorem wordSum_concat_odd : ∀ (bs : List UInt8) (b : UInt8), bs.length % 2 = 1 →
    wordSum (bs ++ [b]) = wordSum bs + b.toNat
  | [], _, h => by simp at h
  | [a], b, _ => by
    simp [wordSum, words]
  | a :: c :: rest, b, h => by
    have hrest : rest.length % 2 = 1 := by
      simp only [List.length_cons] at h
      omega
    rw [List.cons_append, List.cons_append, wordSum_cons_cons, wordSum_cons_cons,
      wordSum_concat_odd rest b hrest]
    omega

/-- The words that are added up are those of the buffer and the byte behind it. -/
theorem memWordSum_overread (bs : List UInt8) (behind : Mem) :
    memWordSum (Mem.ofBlock bs behind) 0 ((bs.length + 1) / 2) =
      wordSum bs + overread bs behind := by
  unfold overread
  split
  · rename_i hodd
    have hlast : Mem.ofBlock bs behind bs.length = behind bs.length :=
      Mem.write_outside (by omega)
    rw [memWordSum, show 2 * ((bs.length + 1) / 2) = bs.length + 1 by omega, Mem.read_add,
      Mem.read_ofBlock, Mem.read_succ, Nat.zero_add, hlast]
    exact wordSum_concat_odd bs _ hodd
  · rename_i heven
    rw [memWordSum_ofBlock (by omega), Nat.add_zero]

/-- The one's-complement sum by its value modulo all ones. -/
theorem sum_words_spec (bs : List UInt8) :
    sum 65535 (words bs) ≤ 65535 ∧ sum 65535 (words bs) % 65535 = wordSum bs % 65535 ∧
      (sum 65535 (words bs) = 0 ↔ wordSum bs = 0) := by
  have hle : sum 65535 (words bs) ≤ 65535 := foldl_add_le _ (words_le bs) 0 (Nat.zero_le _)
  have hmod : sum 65535 (words bs) ≡ 0 + wordSum bs [MOD 65535] := foldl_add_modEq 65535 _ 0
  have hzero : sum 65535 (words bs) = 0 ↔ 0 + wordSum bs = 0 := foldl_add_eq_zero_iff 65535 _ 0
  rw [Nat.zero_add] at hmod hzero
  exact ⟨hle, hmod, hzero⟩

/-- The fold in terms of the two halves, which are worth as much as the sum. -/
theorem foldOnce_halves {s : Nat} (hs : s ≤ 65535 * 32768) :
    foldOnce s = (if halves s ≤ 65535 then halves s else halves s - 65536) ∧
      halves s % 65535 = s % 65535 ∧ halves s ≤ 98303 ∧ halves s ≤ s ∧
      (halves s = 0 ↔ s = 0) := by
  unfold foldOnce halves
  refine ⟨?_, by omega, by omega, by omega, by omega⟩
  split <;> omega

theorem foldOnce_eq_zero_iff {s : Nat} (hs : s ≤ 65535 * 32768) :
    foldOnce s = 0 ↔ s = 0 ∨ halves s = 65536 := by
  obtain ⟨hfold, -, hbound, -, hzero⟩ := foldOnce_halves hs
  rw [hfold, ← hzero]
  split <;> omega

/-- A sum `s` to which `b` was added folds to what is `s` modulo all ones. -/
theorem foldOnce_add_eq_iff {s b t : Nat} (hs : s ≤ 65535 * 32767) (hb : b ≤ 255)
    (ht : t ≤ 65535) (hmod : t % 65535 = s % 65535) (hzero : t = 0 ↔ s = 0) :
    foldOnce (s + b) = t ↔
      (b = 0 ∧ halves s ≤ 65535) ∨ (b = 1 ∧ 65536 < halves (s + 1)) := by
  obtain ⟨hfold, hworth, hbound, hle, -⟩ := foldOnce_halves (s := s + b) (by omega)
  obtain ⟨-, hworth', hbound', -, hzero'⟩ := foldOnce_halves (s := s) (by omega)
  have hcases : (b = 0 ∨ b = 1) ∨ 2 ≤ b := by omega
  rw [hfold]
  rcases hcases with (rfl | rfl) | hlarge
  · rw [Nat.add_zero]
    split <;> omega
  · generalize halves (s + 1) = y at *
    split <;> omega
  · -- the fold is off by `b` or `b - 1`
    refine iff_of_false (fun heq => ?_) (by omega)
    split at heq <;> omega

/-- `checksumv6` is the Internet checksum exactly where neither thing goes wrong, or both do
and cancel. -/
theorem checksumv6_eq_iff (bs : List UInt8) (behind : Mem) (hlen : bs.length ≤ 65534) :
    checksumv6 (Mem.ofBlock bs behind) (UInt32.ofNat bs.length) = .ok (internetChecksum bs) ↔
      (overread bs behind = 0 ∧ halves (wordSum bs) ≤ 65535) ∨
        (overread bs behind = 1 ∧ 65536 < halves (wordSum bs + 1)) := by
  have hsize := toNat_messagelength (show bs.length < 65536 by omega)
  obtain ⟨ck, hck, hval⟩ := @toNat_checksumv6 (Mem.ofBlock bs behind) (UInt32.ofNat bs.length)
    ((bs.length + 1) / 2) (by omega) (by rw [hsize])
  rw [memWordSum_overread] at hval
  obtain ⟨hle, hmod, hzero⟩ := sum_words_spec bs
  have hsum : wordSum bs ≤ 65535 * 32767 := wordSum_le bs _ (by omega)
  have hb : overread bs behind ≤ 255 := by
    unfold overread
    split
    · have hlt := (behind bs.length).toNat_lt
      omega
    · omega
  have hsum' : (internetChecksum bs).toNat = 65535 - sum 65535 (words bs) :=
    UInt16.toNat_ofNat_of_lt' (by
      show _ < 65536
      omega)
  rw [hck, Except.ok.injEq, ← UInt16.toNat_inj, hval, hsum',
    ← foldOnce_add_eq_iff hsum hb hle hmod hzero]
  have hlt := foldOnce_lt (wordSum bs + overread bs behind)
  omega

/-- An odd length with a zero behind it. -/
theorem checksumv6_eq_three_bytes :
    checksumv6 (Mem.ofBlock [0x12, 0x34, 0x56] fun _ => 0) 3 =
      .ok (internetChecksum [0x12, 0x34, 0x56]) :=
  (checksumv6_eq_iff [0x12, 0x34, 0x56] (fun _ => 0) (by decide)).mpr (.inl (by decide))

/-- The words add up to `0x1FFFF`, whose halves carry. -/
theorem checksumv6_drops_carry :
    ¬ ∀ (bs : List UInt8) (behind : Mem), bs.length ≤ 65534 →
      checksumv6 (Mem.ofBlock bs behind) (UInt32.ofNat bs.length) =
        .ok (internetChecksum bs) := by
  intro h
  have hbs := h [0xFF, 0xFF, 0xFF, 0xFF, 0x00, 0x01] (fun _ => 0) (by decide)
  revert hbs
  decide

end NatBox
