import Mathlib.Algebra.BigOperators.Group.List.Basic
import Mathlib.Data.Nat.ModEq

/-
One's-complement sums.

A one's-complement sum over words of at most `m` adds with end-around carry: a
sum above `m` loses `m`.  `sum_eq_max_iff` is what a receiver's check rests on:
the sum of all words is `m` exactly when their plain sum is positive and
divisible by `m`.  The second half reads a byte string as big-endian 16-bit words,
the last one padded with a zero byte.
-/

namespace OnesComplement

/-- Addition with end-around carry. -/
def add (m a b : Nat) : Nat := if a + b ≤ m then a + b else a + b - m

/-- The end-around-carry sum of a list of words. -/
def sum (m : Nat) (ws : List Nat) : Nat := ws.foldl (add m) 0

theorem add_le {m a b : Nat} (ha : a ≤ m) (hb : b ≤ m) : add m a b ≤ m := by
  unfold add
  split <;> omega

theorem add_modEq (m a b : Nat) : add m a b ≡ a + b [MOD m] := by
  unfold add
  split
  · rfl
  · rename_i h
    exact (Nat.modEq_iff_dvd' (by omega)).mpr (by simp [show a + b - (a + b - m) = m by omega])

theorem add_eq_zero_iff {m a b : Nat} : add m a b = 0 ↔ a + b = 0 := by
  unfold add
  split <;> omega

theorem foldl_add_le {m : Nat} (ws : List Nat) (hw : ∀ w ∈ ws, w ≤ m) :
    ∀ a, a ≤ m → ws.foldl (add m) a ≤ m := by
  induction ws with
  | nil => exact fun a ha => ha
  | cons w ws ih =>
    intro a ha
    exact ih (fun v hv => hw v (List.mem_cons_of_mem w hv)) _ (add_le ha (hw w List.mem_cons_self))

theorem foldl_add_modEq (m : Nat) (ws : List Nat) :
    ∀ a, ws.foldl (add m) a ≡ a + ws.sum [MOD m] := by
  induction ws with
  | nil => exact fun a => Nat.ModEq.refl _
  | cons w ws ih =>
    intro a
    calc ws.foldl (add m) (add m a w)
        ≡ add m a w + ws.sum [MOD m] := ih _
      _ ≡ a + w + ws.sum [MOD m] := (add_modEq m a w).add_right _
      _ = a + (w :: ws).sum := by rw [List.sum_cons, Nat.add_assoc]

theorem foldl_add_eq_zero_iff (m : Nat) (ws : List Nat) :
    ∀ a, ws.foldl (add m) a = 0 ↔ a + ws.sum = 0 := by
  induction ws with
  | nil => exact fun a => Iff.rfl
  | cons w ws ih =>
    intro a
    rw [List.foldl_cons, ih, List.sum_cons]
    have h := add_eq_zero_iff (m := m) (a := a) (b := w)
    omega

/-- The sum is all ones exactly when the plain sum is a positive multiple of
all ones. -/
theorem sum_eq_max_iff {m : Nat} (hm : 0 < m) {ws : List Nat} (hw : ∀ w ∈ ws, w ≤ m) :
    sum m ws = m ↔ 0 < ws.sum ∧ m ∣ ws.sum := by
  have hle : sum m ws ≤ m := foldl_add_le ws hw 0 (Nat.zero_le m)
  have hmod : sum m ws ≡ ws.sum [MOD m] := by
    simpa [sum] using foldl_add_modEq m ws 0
  have hzero : sum m ws = 0 ↔ ws.sum = 0 := by
    simpa [sum] using foldl_add_eq_zero_iff m ws 0
  constructor
  · intro h
    refine ⟨by omega, ?_⟩
    rw [h] at hmod
    exact (Nat.modEq_zero_iff_dvd.mp (hmod.symm.trans (by simp [Nat.ModEq])))
  · rintro ⟨hpos, hdvd⟩
    have h0 : sum m ws ≡ 0 [MOD m] := hmod.trans (Nat.modEq_zero_iff_dvd.mpr hdvd)
    obtain ⟨k, hk⟩ := Nat.modEq_zero_iff_dvd.mp h0
    have hk1 : k = 1 := by
      rcases Nat.lt_trichotomy k 1 with hlt | heq | hgt
      · have : k = 0 := by omega
        subst this
        omega
      · exact heq
      · have h2 : m * 2 ≤ m * k := Nat.mul_le_mul_left m hgt
        omega
    rw [hk, hk1, Nat.mul_one]

/-! ## Byte strings as 16-bit words -/

/-- The big-endian 16-bit words of a byte string, an odd last byte padded with
zero. -/
def words : List UInt8 → List Nat
  | [] => []
  | [a] => [a.toNat * 256]
  | a :: b :: rest => (a.toNat * 256 + b.toNat) :: words rest

/-- The plain sum of the words. -/
def wordSum (bs : List UInt8) : Nat := (words bs).sum

@[simp] theorem wordSum_nil : wordSum [] = 0 := rfl

theorem wordSum_cons_cons (a b : UInt8) (rest : List UInt8) :
    wordSum (a :: b :: rest) = a.toNat * 256 + b.toNat + wordSum rest := by
  rw [wordSum, words, List.sum_cons, wordSum]

theorem words_le : ∀ (bs : List UInt8), ∀ w ∈ words bs, w ≤ 65535
  | [], w, hw => by simp [words] at hw
  | [a], w, hw => by
    have ha := a.toNat_lt
    simp only [words, List.mem_singleton] at hw
    omega
  | a :: b :: rest, w, hw => by
    have ha := a.toNat_lt
    have hb := b.toNat_lt
    rw [words, List.mem_cons] at hw
    rcases hw with rfl | hw
    · omega
    · exact words_le rest w hw

/-- Word sums add up over a split at an even position. -/
theorem wordSum_append : ∀ (as bs : List UInt8), as.length % 2 = 0 →
    wordSum (as ++ bs) = wordSum as + wordSum bs
  | [], bs, _ => by simp
  | [a], bs, h => by simp at h
  | a :: b :: rest, bs, h => by
    have hrest : rest.length % 2 = 0 := by
      simp only [List.length_cons] at h
      omega
    rw [List.cons_append, List.cons_append, wordSum_cons_cons, wordSum_cons_cons,
      wordSum_append rest bs hrest]
    omega


/-- A byte string of `n` words sums to at most `n` times all ones. -/
theorem wordSum_le : ∀ (bs : List UInt8) (n : Nat), bs.length ≤ 2 * n →
    wordSum bs ≤ 65535 * n
  | [], n, _ => Nat.zero_le _
  | [a], n, h => by
    have ha := a.toNat_lt
    simp only [List.length_singleton] at h
    simp only [wordSum, words, List.sum_singleton]
    omega
  | a :: b :: rest, n, h => by
    have ha := a.toNat_lt
    have hb := b.toNat_lt
    simp only [List.length_cons] at h
    have ih := wordSum_le rest (n - 1) (by omega)
    rw [wordSum_cons_cons]
    omega

end OnesComplement
