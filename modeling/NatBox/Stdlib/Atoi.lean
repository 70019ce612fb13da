import NatBox.Stdlib.Renders

/-
`atoi` reads back what `sprintf` prints for a number.

A field that is padded with zeros on the right is excluded, since its zeros become digits.  The
least number does not come back, as `_fdoprnt` prints other characters than digits for it.
-/

namespace NatBox

open Numeral

abbrev plusCh : UInt8 := 0x2B
abbrev tabCh : UInt8 := 0x09

/-- The `for` loop: `f` and the rest.  A `-` falls through to the `p++` of the `+`, and only one of
them is taken. -/
def atoiSign : List UInt8 → Bool × List UInt8
  | [] => (false, [])
  | c :: p =>
    if c = blankCh ∨ c = tabCh then atoiSign p
    else if c = minusCh then (true, p)
    else if c = plusCh then (false, p)
    else (false, c :: p)

def atoi (p : List UInt8) : Int32 :=
  let n := (parseDigits (atoiSign p).2 0).1
  if (atoiSign p).1 then -n else n

/-- What `sprintf` leaves in front of the null character. -/
def sprintf (env : Printed) (string : Mem) (fmt : List UInt8) : Except DoprntFault (List UInt8) :=
  fdoprnt env string fmt

/-! ## Reading a number -/

def digitsText (ds : List Nat) : List UInt8 := ds.map fun d => zeroCh + UInt8.ofNat d

theorem numeralText_ten (n : Nat) : numeralText 0x61 10 n = digitsText (numeral 10 n) :=
  List.map_congr_left fun _ hd => if_pos (numeral_lt (by omega) hd)

theorem atoi_blanks (k : Nat) (p : List UInt8) : atoi (List.replicate k blankCh ++ p) = atoi p := by
  have hsign : atoiSign (List.replicate k blankCh ++ p) = atoiSign p := by
    induction k with
    | zero => rfl
    | succ k ih => rw [List.replicate_succ, List.cons_append, atoiSign, if_pos (.inl rfl), ih]
  rw [atoi, atoi, hsign]

theorem digit_apart : ∀ d, d < 10 → ¬ (zeroCh + UInt8.ofNat d = blankCh ∨
    zeroCh + UInt8.ofNat d = tabCh) ∧ zeroCh + UInt8.ofNat d ≠ minusCh ∧
      zeroCh + UInt8.ofNat d ≠ plusCh := by decide

/-- Without a sign it takes a digit to end the loop. -/
theorem atoi_signed (sign : Bool) {ds : List Nat} (hds : ∀ d ∈ ds, d < 10)
    (hstart : sign = false → ds ≠ []) {rest : List UInt8}
    (hrest : ¬ (0x30 ≤ cur rest ∧ cur rest ≤ 0x39)) :
    atoi ((if sign then [minusCh] else []) ++ (digitsText ds ++ rest)) =
      if sign then -Int32.ofNat (value 10 ds) else Int32.ofNat (value 10 ds) := by
  have hread := parseDigits_append hrest hds 0
  have hsign : atoiSign ((if sign then [minusCh] else []) ++ (digitsText ds ++ rest)) =
      (sign, digitsText ds ++ rest) := by
    cases sign with
    | true => rfl
    | false =>
      cases ds with
      | nil => exact absurd rfl (hstart rfl)
      | cons d ds =>
        obtain ⟨hblank, hminus, hplus⟩ := digit_apart d (hds d List.mem_cons_self)
        show atoiSign ((zeroCh + UInt8.ofNat d) :: (digitsText ds ++ rest)) = _
        rw [atoiSign, if_neg hblank, if_neg hminus, if_neg hplus]
        rfl
  rw [atoi, hsign]
  show (if sign then -(parseDigits (digitsText ds ++ rest) (Int32.ofNat 0)).1
    else (parseDigits (digitsText ds ++ rest) (Int32.ofNat 0)).1) = _
  rw [digitsText, hread]
  rfl

/-- Zeros in front do not count. -/
theorem value_zeros (k : Nat) (ds : List Nat) :
    value 10 (List.replicate k 0 ++ ds) = value 10 ds := by
  induction k with
  | zero => rfl
  | succ k ih => exact ih

theorem digitsText_zeros (k : Nat) (ds : List Nat) :
    List.replicate k zeroCh ++ digitsText ds = digitsText (List.replicate k 0 ++ ds) := by
  rw [digitsText, digitsText, List.map_append, List.map_replicate]
  rfl

theorem cur_append_blanks {rest : List UInt8} (hrest : ¬ (0x30 ≤ cur rest ∧ cur rest ≤ 0x39))
    (k : Nat) : ¬ (0x30 ≤ cur (rest ++ List.replicate k blankCh) ∧
      cur (rest ++ List.replicate k blankCh) ≤ 0x39) := by
  cases rest with
  | nil =>
    cases k with
    | zero => exact hrest
    | succ k => exact show ¬ (0x30 ≤ blankCh ∧ blankCh ≤ 0x39) by decide
  | cons c rest => exact hrest

/-- A number in a field is read as itself, whatever the padding is: blanks, or zeros in front. -/
theorem atoi_justify {leftjust : Bool} {fill : UInt8}
    (hfill : fill = blankCh ∨ fill = zeroCh ∧ leftjust = false) (width : Nat) (sign : Bool)
    (ds : List Nat) (hds : ∀ d ∈ ds, d < 10) (hstart : sign = false → ds ≠ []) {rest : List UInt8}
    (hrest : ¬ (0x30 ≤ cur rest ∧ cur rest ≤ 0x39)) :
    atoi (justify leftjust fill width sign (digitsText ds ++ rest)) =
      if sign then -Int32.ofNat (value 10 ds) else Int32.ofNat (value 10 ds) := by
  simp only [justify]
  generalize width - _ = k
  rcases hfill with rfl | ⟨rfl, rfl⟩
  · cases leftjust with
    | true =>
      rw [if_pos rfl, List.append_assoc, List.append_assoc]
      exact atoi_signed sign hds hstart (cur_append_blanks hrest k)
    | false =>
      rw [if_neg Bool.false_ne_true, if_neg (by decide), List.append_assoc, atoi_blanks]
      exact atoi_signed sign hds hstart hrest
  · have hzeros : ∀ d ∈ List.replicate k 0 ++ ds, d < 10 := by
      intro d hd
      rcases List.mem_append.mp hd with hd | hd
      · rw [List.eq_of_mem_replicate hd]
        omega
      · exact hds d hd
    rw [if_neg Bool.false_ne_true, if_pos rfl, List.append_assoc,
      ← List.append_assoc (List.replicate _ _), digitsText_zeros,
      atoi_signed sign hzeros ?_ hrest, value_zeros]
    intro hsign hnil
    exact hstart hsign (List.append_eq_nil_iff.mp hnil).2

/-! ## The round trip -/

theorem signed_natAbs (num : Int32) : (if num < 0 then -Int32.ofNat num.toInt.natAbs
    else Int32.ofNat num.toInt.natAbs) = num := by
  rw [← Int32.ofInt_eq_ofNat, ← Int32.ofInt_neg]
  split
  · next hneg =>
    have hneg' : num.toInt < 0 := by simpa [Int32.lt_iff_toInt_lt] using hneg
    rw [show -(num.toInt.natAbs : Int) = num.toInt by omega, Int32.ofInt_toInt]
  · next hneg =>
    have hpos : 0 ≤ num.toInt := by simpa [Int32.lt_iff_toInt_lt] using hneg
    rw [show (num.toInt.natAbs : Int) = num.toInt by omega, Int32.ofInt_toInt]

theorem atoi_fdecimal {leftjust : Bool} {fill : UInt8}
    (hfill : fill = blankCh ∨ fill = zeroCh ∧ leftjust = false) (width : Nat) (num : Int32) :
    atoi (justify leftjust fill width (num < 0) (fdecimal num)) = num ↔ num ≠ Int32.minValue := by
  by_cases hleast : num = Int32.minValue
  · have hrest : ¬ (0x30 ≤ cur (fdecimal Int32.minValue) ∧
        cur (fdecimal Int32.minValue) ≤ 0x39) := by
      rw [fdecimal_minValue]
      decide
    have hread := atoi_justify hfill width true [] (by simp) (by simp) hrest
    rw [hleast]
    refine ⟨fun h => ?_, fun h => absurd rfl h⟩
    have hzero : -Int32.ofNat (value 10 []) = Int32.minValue := hread.symm.trans h
    exact absurd hzero (by decide)
  · have hread := atoi_justify hfill width (num < 0) (numeral 10 num.toInt.natAbs)
      (fun d hd => numeral_lt (by omega) hd) (fun _ => numeral_ne_nil 10 _)
      (show ¬ (0x30 ≤ cur [] ∧ cur [] ≤ 0x39) by decide)
    rw [List.append_nil, ← numeralText_ten, value_numeral] at hread
    rw [fdecimal_eq hleast, unsignedText, hread]
    exact ⟨fun _ => hleast, fun _ => by simpa using signed_natAbs num⟩

/-- What `sprintf` prints for a `%d` with any width, `atoi` reads as the number, exactly if it is
not the least one. -/
theorem atoi_sprintf (env : Printed) (string : Mem) {d : Directive} (hwidth : d.width.Width)
    (hconv : d.conv = .d) (hprecision : d.precision = none)
    (hzero : d.zero = true → d.leftjust = false) :
    ∃ text, sprintf env string (Piece.directive d).source = .ok text ∧
      (atoi text = (env.ap (d.width.read env 0).2).toInt32 ↔
        (env.ap (d.width.read env 0).2).toInt32 ≠ Int32.minValue) := by
  have hnumbers : d.numbers env 0 = ((d.width.read env 0).1, 0, (d.width.read env 0).2) := by
    rw [Directive.numbers, hprecision]
    rfl
  have hwell : ∀ piece ∈ [Piece.directive d], piece.WellFormed := fun piece hpiece =>
    List.mem_singleton.mp hpiece ▸ hwidth
  have hnarrow : ∀ d', Piece.directive d' ∈ [Piece.directive d] → d'.conv.wide = false := by
    intro d' hd'
    obtain rfl : d' = d := by simpa using hd'
    rw [hconv]
    rfl
  have hprint := fdoprnt_renders env string hwell hnarrow
  have hfill : d.conv.fill d.zero = blankCh ∨
      d.conv.fill d.zero = zeroCh ∧ d.leftjust = false := by
    rw [hconv]
    cases hz : d.zero with
    | false => exact .inl rfl
    | true => exact .inr ⟨rfl, hzero hz⟩
  have hfits : fits env [.directive d] 0 = true := by
    rw [fits, hconv]
    rfl
  rw [List.flatMap_singleton, if_pos hfits, render, render, List.append_nil] at hprint
  refine ⟨_, hprint, ?_⟩
  have hrender : d.render env fdecimal 0 = justify d.leftjust (d.conv.fill d.zero)
      (clampField (d.width.read env 0).1).toNat ((env.ap (d.width.read env 0).2).toInt32 < 0)
      (fdecimal (env.ap (d.width.read env 0).2).toInt32) := by
    rw [Directive.render, hnumbers, hconv]
    rfl
  rw [hrender]
  exact atoi_fdecimal hfill _ _

/-- `%04d` of -7 is `-007`. -/
theorem atoi_sprintf_seven :
    ∃ text, sprintf ⟨fun _ => [], fun _ => (-7 : Int32).toUInt32, fun _ _ => (false, [])⟩
      (fun _ => 1) [0x25, 0x30, 0x34, 0x64] = .ok text ∧ atoi text = -7 := by
  obtain ⟨text, hprint, hread⟩ := atoi_sprintf
    ⟨fun _ => [], fun _ => (-7 : Int32).toUInt32, fun _ _ => (false, [])⟩ (fun _ => 1)
    (d := ⟨false, true, .digits [4], none, .d⟩) (by simp [FieldNumber.Width]) rfl rfl (fun _ => rfl)
  exact ⟨text, hprint, hread.mpr (by decide)⟩

end NatBox
