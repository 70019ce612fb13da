import Mathlib.Data.Nat.Digits.Lemmas

/-
Numerals: the digits of a number, the first one the most significant, without zeros in front.

`trim_low` is for code that writes a fixed number of digits, the least significant first, and
then passes over the zeros at the end; `value_numeral` for code that reads a numeral again.
-/

namespace Numeral

/-- The digits of `n`; a zero has one. -/
def numeral (b n : Nat) : List Nat := if n = 0 then [0] else (Nat.digits b n).reverse

/-- The last digits of `n`, the least significant first. -/
def low (b : Nat) : Nat → Nat → List Nat
  | 0, _ => []
  | k + 1, n => n % b :: low b k (n / b)

/-- The digits that are left without the zeros in front, or one. -/
def trim (zero : α) [DecidableEq α] (digits : List α) : List α :=
  let rest := digits.reverse.dropWhile (· = zero)
  if rest = [] then digits.take 1 else rest

def value (b : Nat) (digits : List Nat) : Nat := digits.foldl (fun v d => v * b + d) 0

variable {b : Nat}

theorem low_lt (hb : 0 < b) {k n d : Nat} (h : d ∈ low b k n) : d < b := by
  induction k generalizing n with
  | zero => cases h
  | succ k ih =>
    rcases List.mem_cons.mp h with rfl | h
    · exact Nat.mod_lt _ hb
    · exact ih h

/-- Behind the zeros are the digits. -/
theorem dropWhile_low (hb : 1 < b) {k n : Nat} (hn : n < b ^ k) :
    (low b k n).reverse.dropWhile (· = 0) = (Nat.digits b n).reverse := by
  induction k generalizing n with
  | zero =>
    obtain rfl : n = 0 := Nat.lt_one_iff.mp hn
    simp [low]
  | succ k ih =>
    have hrest := ih (Nat.div_lt_of_lt_mul (by rwa [Nat.pow_succ'] at hn))
    rw [low, List.reverse_cons, List.dropWhile_append, hrest]
    by_cases hn0 : n = 0
    · simp [hn0]
    · rw [Nat.digits_def' hb (Nat.pos_of_ne_zero hn0), List.reverse_cons]
      by_cases hq : n / b = 0
      · have hmod : n % b ≠ 0 := by
          rw [Nat.mod_eq_of_lt ((Nat.div_eq_zero_iff_lt (by omega)).mp hq)]
          exact hn0
        simp [hq, hmod]
      · have hne : Nat.digits b (n / b) ≠ [] := Nat.digits_ne_nil_iff_ne_zero.mpr hq
        simp [hne]

theorem trim_low (hb : 1 < b) {k n : Nat} (hn : n < b ^ (k + 1)) :
    trim 0 (low b (k + 1) n) = numeral b n := by
  rw [trim, dropWhile_low hb hn, numeral]
  by_cases hn0 : n = 0
  · simp [hn0, low]
  · have hne : (Nat.digits b n).reverse ≠ [] :=
      List.reverse_ne_nil_iff.mpr (Nat.digits_ne_nil_iff_ne_zero.mpr hn0)
    rw [if_neg hne, if_neg hn0]

/-- The digits as characters. -/
theorem trim_map {β : Type} [DecidableEq β] (f : Nat → β) {digits : List Nat}
    (hf : ∀ d ∈ digits, f d = f 0 → d = 0) :
    trim (f 0) (digits.map f) = (trim 0 digits).map f := by
  have hdrop : ∀ ds : List Nat, (∀ d ∈ ds, f d = f 0 → d = 0) →
      (ds.map f).dropWhile (· = f 0) = (ds.dropWhile (· = 0)).map f := by
    intro ds hds
    induction ds with
    | nil => rfl
    | cons d ds ih =>
      have hrest := ih fun d' hd' => hds d' (List.mem_cons_of_mem d hd')
      by_cases hd : d = 0
      · simp [hd, hrest]
      · have hne : f d ≠ f 0 := fun h => hd (hds d List.mem_cons_self h)
        simp [hd, hne]
  unfold trim
  rw [← List.map_reverse, hdrop _ fun d hd => hf d (List.mem_reverse.mp hd)]
  by_cases hrest : digits.reverse.dropWhile (· = 0) = []
  · simp [hrest, List.map_take]
  · simp [hrest]

theorem low_concat (b k n : Nat) : low b (k + 1) n = low b k n ++ [n / b ^ k % b] := by
  induction k generalizing n with
  | zero => simp [low]
  | succ k ih => rw [low, ih, low, List.cons_append, Nat.div_div_eq_div_mul, Nat.pow_succ']

theorem low_add_mul (b k n d : Nat) : low b k (n + b ^ k * d) = low b k n := by
  induction k generalizing n with
  | zero => rfl
  | succ k ih =>
    by_cases hb : b = 0
    · simp [hb]
    · rw [low, low, Nat.pow_succ', Nat.mul_assoc, Nat.add_mul_mod_self_left,
        Nat.add_mul_div_left _ _ (Nat.pos_of_ne_zero hb), ih]

/-- The first digit, and the others. -/
theorem numeral_eq_cons (hb : 1 < b) {k n : Nat} (hlow : b ^ k ≤ n) (hn : n < b ^ (k + 1)) :
    numeral b n = n / b ^ k :: (low b k n).reverse := by
  have hpos : 0 < b ^ k := Nat.pow_pos (by omega)
  have hfirst : n / b ^ k ≠ 0 := (Nat.div_pos hlow hpos).ne'
  have hlt : n / b ^ k < b := Nat.div_lt_of_lt_mul (by rwa [Nat.pow_succ] at hn)
  rw [← trim_low hb hn, trim, low_concat, List.reverse_append, Nat.mod_eq_of_lt hlt]
  simp [hfirst]

theorem length_numeral_le_iff (hb : 1 < b) {k n : Nat} :
    (numeral b n).length ≤ k + 1 ↔ n < b ^ (k + 1) := by
  rw [numeral]
  by_cases hn : n = 0
  · simp [hn, Nat.pos_of_ne_zero (show b ≠ 0 by omega)]
  · rw [if_neg hn, List.length_reverse, Nat.digits_length_le_iff hb]

theorem numeral_lt (hb : 1 < b) {n d : Nat} (h : d ∈ numeral b n) : d < b := by
  rw [numeral] at h
  split at h
  · obtain rfl := List.mem_singleton.mp h
    omega
  · exact Nat.digits_lt_base hb (List.mem_reverse.mp h)

theorem numeral_ne_nil (b n : Nat) : numeral b n ≠ [] := by
  rw [numeral]
  split
  · exact List.cons_ne_nil _ _
  · next hn => exact List.reverse_ne_nil_iff.mpr (Nat.digits_ne_nil_iff_ne_zero.mpr hn)

theorem value_numeral (b n : Nat) : value b (numeral b n) = n := by
  rw [numeral]
  split
  · next hn => simp [value, hn]
  · rw [value, List.foldl_reverse]
    conv_rhs => rw [← Nat.ofDigits_digits b n, Nat.ofDigits_eq_foldr]
    congr 1
    funext d v
    rw [Nat.mul_comm, Nat.add_comm]
    rfl

end Numeral
