import NatBox.Stdlib.Doprnt
import Mathlib.Data.List.TakeWhile

/-
What formatted output prints: the meaning of a format, and that `_doprnt` keeps to it.

A format is a list of pieces, and `doprnt_renders` says that the characters of the format are
read as its pieces and printed as `render` says, unless `%b` gets a number with more than
19 binary digits: those do not fit into `string`.
-/

namespace NatBox

open Numeral

/-! ## Formats -/

/-- A number in a field specification. -/
inductive FieldNumber
  | digits (ds : List (Fin 10))
  | star
  deriving DecidableEq

inductive Conversion
  | c | s | d | f | u | o | X | x | H | h | b
  deriving DecidableEq

structure Directive where
  leftjust : Bool
  zero : Bool
  width : FieldNumber
  precision : Option FieldNumber
  conv : Conversion

inductive Piece
  | char (c : UInt8)
  | percent
  | directive (d : Directive)

def Conversion.char : Conversion → UInt8
  | .c => 0x63
  | .s => 0x73
  | .d => 0x64
  | .f => 0x66
  | .u => 0x75
  | .o => 0x6F
  | .X => 0x58
  | .x => 0x78
  | .H => 0x48
  | .h => 0x68
  | .b => 0x62

/-- The cases that only `_doprnt` has. -/
def Conversion.wide : Conversion → Bool
  | .f | .H | .h => true
  | _ => false

def FieldNumber.source : FieldNumber → List UInt8
  | .digits ds => (ds.map Fin.val).map fun d => zeroCh + UInt8.ofNat d
  | .star => [starCh]

def precisionSource : Option FieldNumber → List UInt8
  | none => []
  | some n => dotCh :: n.source

/-- What follows the flags. -/
def Directive.fields (d : Directive) : List UInt8 :=
  d.width.source ++ (precisionSource d.precision ++ [d.conv.char])

def Directive.source (d : Directive) : List UInt8 :=
  (if d.leftjust then [minusCh] else []) ++ (if d.zero then [zeroCh] else []) ++ d.fields

def Piece.source : Piece → List UInt8
  | .char c => [c]
  | .percent => [percentCh, percentCh]
  | .directive d => percentCh :: d.source

/-- The first digit of a width is not a zero: that would be the flag. -/
def FieldNumber.Width : FieldNumber → Prop
  | .digits ds => ds.head? ≠ some 0
  | .star => True

/-- Its characters are read as the piece. -/
def Piece.WellFormed : Piece → Prop
  | .char c => c ≠ percentCh
  | .percent => True
  | .directive d => d.width.Width

/-! ## Their meaning -/

section Meaning

variable (env : Printed)

/-- The number, and the argument behind it. -/
def FieldNumber.read (next : Nat) : FieldNumber → Int32 × Nat
  | .digits ds => (Int32.ofNat (value 10 (ds.map Fin.val)), next)
  | .star => ((env.ap next).toInt32, next + 1)

/-- A second number is printed only if the first has all its digits. -/
def twoNumbers (letter : UInt8) (w w' : UInt32) : List UInt8 :=
  let first := numeralText letter 16 w.toNat
  if first.length = 8 then first ++ numeralText letter 16 w'.toNat else first

/-- The characters of a conversion without the sign; `decimal` prints those of `%d`. -/
def Conversion.text (decimal : Int32 → List UInt8) (next : Nat) : Conversion → List UInt8
  | .c => [(env.ap next).toUInt8].takeWhile (· ≠ 0)
  | .s => if env.ap next = 0 then [0x28, 0x6E, 0x75, 0x6C, 0x6C, 0x29] else env.str (env.ap next)
  | .d => decimal (env.ap next).toInt32
  | .f => (env.prtdbl (env.ap next) (env.ap (next + 1))).2.takeWhile (· ≠ 0)
  | .u => numeralText 0x61 10 (env.ap next).toNat
  | .o => numeralText 0x61 8 (env.ap next).toNat
  | .X => numeralText 0x41 16 (env.ap next).toNat
  | .x => numeralText 0x61 16 (env.ap next).toNat
  | .H => twoNumbers 0x41 (env.ap next) (env.ap (next + 1))
  | .h => twoNumbers 0x61 (env.ap next) (env.ap (next + 1))
  | .b => numeralText 0x61 2 (env.ap next).toNat

def Conversion.sign (next : Nat) : Conversion → Bool
  | .d => (env.ap next).toInt32 < 0
  | .f => (env.prtdbl (env.ap next) (env.ap (next + 1))).1
  | _ => false

/-- How many words of the arguments it takes. -/
def Conversion.words : Conversion → Nat
  | .f | .H | .h => 2
  | _ => 1

/-- The characters and the null character fit into `string`. -/
def Conversion.fits (next : Nat) : Conversion → Bool
  | .f => (env.prtdbl (env.ap next) (env.ap (next + 1))).2.length < 20
  | .b => (env.ap next).toNat < 2 ^ 19
  | _ => true

/-- The precision is used. -/
def Conversion.cuts : Conversion → Bool
  | .s | .d | .f => true
  | _ => false

def Conversion.fill (zero : Bool) : Conversion → UInt8
  | .c | .s => blankCh
  | _ => if zero then zeroCh else blankCh

end Meaning

def cut (precision : Int32) (text : List UInt8) : List UInt8 :=
  if clampField precision = 0 then text else text.take (clampField precision).toNat

/-- Text in a field: the sign goes in front of zeros and behind blanks. -/
def justify (leftjust : Bool) (fill : UInt8) (width : Nat) (sign : Bool) (text : List UInt8) :
    List UInt8 :=
  let sign := if sign then [minusCh] else []
  let pad := List.replicate (width - (sign.length + text.length)) fill
  if leftjust then sign ++ text ++ pad
  else if fill = zeroCh then sign ++ pad ++ text
  else pad ++ sign ++ text

section Meaning

variable (env : Printed) (decimal : Int32 → List UInt8)

def readPrecision (next : Nat) : Option FieldNumber → Int32 × Nat
  | none => (0, next)
  | some n => n.read env next

/-- Where the arguments of the conversion itself are. -/
def Directive.numbers (d : Directive) (next : Nat) : Int32 × Int32 × Nat :=
  ((d.width.read env next).1, readPrecision env (d.width.read env next).2 d.precision)

def Directive.render (d : Directive) (next : Nat) : List UInt8 :=
  let numbers := d.numbers env next
  justify d.leftjust (d.conv.fill d.zero) (clampField numbers.1).toNat
    (d.conv.sign env numbers.2.2)
    (cut (if d.conv.cuts then numbers.2.1 else 0) (d.conv.text env decimal numbers.2.2))

/-- What is printed for the pieces, with the arguments from `next` on. -/
def render : List Piece → Nat → List UInt8
  | [], _ => []
  | .char c :: pieces, next => c :: render pieces next
  | .percent :: pieces, next => percentCh :: render pieces next
  | .directive d :: pieces, next =>
    d.render env decimal next ++ render pieces ((d.numbers env next).2.2 + d.conv.words)

/-- Every number fits into `string`. -/
def fits : List Piece → Nat → Bool
  | [], _ => true
  | .char _ :: pieces, next | .percent :: pieces, next => fits pieces next
  | .directive d :: pieces, next =>
    d.conv.fits env (d.numbers env next).2.2 &&
      fits pieces ((d.numbers env next).2.2 + d.conv.words)

end Meaning

/-! ## Reading a field -/

@[simp] theorem cur_cons (c : UInt8) (fmt : List UInt8) : cur (c :: fmt) = c := rfl

theorem digit_bounds : ∀ d, d < 10 →
    0x30 ≤ zeroCh + UInt8.ofNat d ∧ zeroCh + UInt8.ofNat d ≤ 0x39 := by decide

/-- The digits are read up to a character that is none; the number may wrap. -/
theorem parseDigits_append {rest : List UInt8} (hrest : ¬ (0x30 ≤ cur rest ∧ cur rest ≤ 0x39))
    {ds : List Nat} (hds : ∀ d ∈ ds, d < 10) (v : Nat) :
    parseDigits (ds.map (fun d => zeroCh + UInt8.ofNat d) ++ rest) (Int32.ofNat v) =
      (Int32.ofNat (ds.foldl (fun v d => v * 10 + d) v), rest) := by
  induction ds generalizing v with
  | nil =>
    cases rest with
    | nil => rfl
    | cons c rest => exact if_neg hrest
  | cons d ds ih =>
    have hd := hds d List.mem_cons_self
    have hstep : Int32.ofNat v * 10 + (zeroCh + UInt8.ofNat d).toUInt32.toInt32 - 48 =
        Int32.ofNat (v * 10 + d) := by
      have hchar : ∀ d, d < 10 → (zeroCh + UInt8.ofNat d).toUInt32.toInt32 =
          Int32.ofNat d + 48 := by decide
      rw [hchar d hd, ← Int32.add_assoc, Int32.add_sub_cancel, Int32.ofNat_add, Int32.ofNat_mul]
      rfl
    rw [List.map_cons, List.cons_append, parseDigits, if_pos (digit_bounds d hd), hstep,
      ih fun d hd => hds d (List.mem_cons_of_mem _ hd), List.foldl_cons]

/-- Neither a digit nor a star. -/
def EndsField (rest : List UInt8) : Prop :=
  ¬ (0x30 ≤ cur rest ∧ cur rest ≤ 0x39) ∧ cur rest ≠ starCh

theorem parseNumber_source (env : Printed) {rest : List UInt8} (hrest : EndsField rest)
    (n : FieldNumber) (next : Nat) :
    parseNumber env (n.source ++ rest) next =
      ((n.read env next).1, rest, (n.read env next).2) := by
  cases n with
  | star => rfl
  | digits ds =>
    have hstar : cur ((FieldNumber.digits ds).source ++ rest) ≠ starCh := by
      cases ds with
      | nil => exact hrest.2
      | cons d ds => exact (show ∀ d : Fin 10, zeroCh + UInt8.ofNat d ≠ starCh by decide) d
    rw [parseNumber, if_neg hstar]
    have hlt : ∀ d ∈ ds.map Fin.val, d < 10 := by
      intro d hd
      obtain ⟨d, -, rfl⟩ := List.mem_map.mp hd
      exact d.isLt
    have hdigits := parseDigits_append hrest.1 hlt 0
    rw [FieldNumber.source, show (0 : Int32) = Int32.ofNat 0 from rfl, hdigits]
    rfl

theorem Conversion.char_apart (conv : Conversion) :
    ¬ (0x30 ≤ conv.char ∧ conv.char ≤ 0x39) ∧ conv.char ≠ starCh ∧ conv.char ≠ dotCh ∧
      conv.char ≠ minusCh ∧ conv.char ≠ percentCh := by
  cases conv <;> decide

/-- The flags end there. -/
theorem cur_fields {d : Directive} (hwidth : d.width.Width) (rest : List UInt8) :
    cur (d.fields ++ rest) ≠ minusCh ∧ cur (d.fields ++ rest) ≠ zeroCh ∧
      cur (d.fields ++ rest) ≠ percentCh := by
  obtain ⟨leftjust, zero, width, precision, conv⟩ := d
  cases width with
  | star => exact show starCh ≠ minusCh ∧ starCh ≠ zeroCh ∧ starCh ≠ percentCh by decide
  | digits ds =>
    cases ds with
    | nil =>
      cases precision with
      | none =>
        exact (show ∀ conv : Conversion, conv.char ≠ minusCh ∧ conv.char ≠ zeroCh ∧
          conv.char ≠ percentCh by intro conv; cases conv <;> decide) conv
      | some n => exact show dotCh ≠ minusCh ∧ dotCh ≠ zeroCh ∧ dotCh ≠ percentCh by decide
    | cons d ds =>
      have hzero : d ≠ 0 := fun h => hwidth (congrArg some h)
      exact (show ∀ d : Fin 10, d ≠ 0 → zeroCh + UInt8.ofNat d ≠ minusCh ∧
        zeroCh + UInt8.ofNat d ≠ zeroCh ∧ zeroCh + UInt8.ofNat d ≠ percentCh by decide) d hzero

theorem endsField_char (conv : Conversion) (rest : List UInt8) : EndsField (conv.char :: rest) :=
  ⟨conv.char_apart.1, conv.char_apart.2.1⟩

theorem parsePrecision_source (env : Printed) (precision : Option FieldNumber) (conv : Conversion)
    (rest : List UInt8) (next : Nat) :
    parsePrecision env (precisionSource precision ++ conv.char :: rest) next =
      ((readPrecision env next precision).1, conv.char :: rest,
        (readPrecision env next precision).2) := by
  cases precision with
  | none => exact if_neg conv.char_apart.2.2.1
  | some n => exact parseNumber_source env (endsField_char conv rest) n next

theorem endsField_precision (precision : Option FieldNumber) (conv : Conversion)
    (rest : List UInt8) : EndsField (precisionSource precision ++ conv.char :: rest) := by
  cases precision with
  | none => exact endsField_char conv rest
  | some n =>
    exact show ¬ (0x30 ≤ dotCh ∧ dotCh ≤ 0x39) ∧ dotCh ≠ starCh by decide

theorem parseField_source (env : Printed) {d : Directive} (hwidth : d.width.Width)
    (rest : List UInt8) (next : Nat) :
    parseField env (d.source ++ rest) next =
      ⟨d.leftjust, if d.zero then zeroCh else blankCh, (d.numbers env next).1,
        (d.numbers env next).2.1, d.conv.char :: rest, (d.numbers env next).2.2⟩ := by
  obtain ⟨hminus, hzero, -⟩ := cur_fields hwidth rest
  have hfields : parseNumber env (d.fields ++ rest) next = ((d.width.read env next).1,
      precisionSource d.precision ++ d.conv.char :: rest, (d.width.read env next).2) := by
    rw [← parseNumber_source env (endsField_precision d.precision d.conv rest)]
    simp [Directive.fields]
  have hprecision := parsePrecision_source env d.precision d.conv rest (d.width.read env next).2
  unfold parseField Directive.source Directive.numbers
  have hapart : zeroCh ≠ minusCh := by decide
  cases d.leftjust <;> cases d.zero
  · simp [hminus, hzero, hfields, hprecision]
  · simp [hapart, hfields, hprecision]
  · simp [hzero, hfields, hprecision]
  · simp [hfields, hprecision]

/-! ## What a conversion leaves -/

theorem scanString_read {string : Mem} {text : List UInt8} {i n : Nat}
    (hread : string.read i (text.length + 1) = text ++ [0]) (hn : text.length < n) :
    scanString string n i = .ok (text.takeWhile (· ≠ 0)) := by
  induction text generalizing i n with
  | nil =>
    obtain ⟨n, rfl⟩ := Nat.exists_eq_add_one.mpr hn
    rw [List.length_nil, Mem.read_succ, List.nil_append] at hread
    rw [scanString, if_pos (List.cons.inj hread).1]
    rfl
  | cons c text ih =>
    obtain ⟨n, rfl⟩ := Nat.exists_eq_add_one.mpr (Nat.zero_lt_of_lt hn)
    rw [List.length_cons, Mem.read_succ, List.cons_append] at hread
    obtain ⟨hc, hrest⟩ := List.cons.inj hread
    rw [scanString, hc]
    by_cases hzero : c = 0
    · rw [if_pos hzero, hzero]
      rfl
    · rw [if_neg hzero, ih hrest (Nat.lt_of_succ_lt_succ hn), List.takeWhile_cons_of_pos]
      · rfl
      · exact decide_eq_true hzero

theorem scanString_write (string : Mem) (text : List UInt8) (hlen : text.length < 20) :
    scanString (string.write 0 (text ++ [0])) 20 0 = .ok (text.takeWhile (· ≠ 0)) := by
  refine scanString_read ?_ hlen
  have hself := Mem.read_write_self string 0 (text ++ [0])
  rwa [List.length_append] at hself

/-- No null character, which would end the string. -/
def Solid (text : List UInt8) : Prop := ∀ c ∈ text, c ≠ 0

theorem Solid.takeWhile {text : List UInt8} (h : Solid text) : text.takeWhile (· ≠ 0) = text :=
  List.takeWhile_eq_self_iff.mpr fun c hc => decide_eq_true (h c hc)

theorem solid_numeralText {letter : UInt8} (hletter : letter = 0x61 ∨ letter = 0x41) {b : Nat}
    (hb : 1 < b) (hb16 : b ≤ 16) (n : Nat) : Solid (numeralText letter b n) := by
  intro c hc
  obtain ⟨d, hd, rfl⟩ := List.mem_map.mp hc
  have hne : ∀ d, d < 16 → digitChar 0x61 d ≠ 0 ∧ digitChar 0x41 d ≠ 0 := by decide
  have hlt := hne d (Nat.lt_of_lt_of_le (numeral_lt hb hd) hb16)
  rcases hletter with rfl | rfl
  · exact hlt.1
  · exact hlt.2

theorem length_numeralText_le_iff (letter : UInt8) {b k n : Nat} (hb : 1 < b) :
    (numeralText letter b n).length ≤ k + 1 ↔ n < b ^ (k + 1) := by
  rw [numeralText, List.length_map, length_numeral_le_iff hb]

/-- The characters at `str` and what goes with them. -/
def Converted.Shows (c : Converted) (text : List UInt8) (sign : Bool) (fill : UInt8) (fmax : Int32)
    (next : Nat) : Prop :=
  c.echoed = [] ∧ c.chars = .ok text ∧ c.sign = sign ∧ c.fill = fill ∧ c.fmax = fmax ∧ c.next = next

section Convert

variable {env : Printed} {next : Nat} {string : Mem} {fill : UInt8}

theorem convertNumber_shows {text : Int32 → List UInt8} {fmax : Int32} {sign : Bool}
    {t : List UInt8} (htext : text (env.ap next).toInt32 = t) (hlen : t.length < 20)
    (hsolid : Solid t) :
    ∃ c, convertNumber env text fill fmax sign string next = .ok c ∧
      c.Shows t sign fill fmax (next + 1) := by
  refine ⟨⟨[], string.write 0 (t ++ [0]), none, sign, fill, fmax, next + 1⟩, ?_, rfl, ?_, rfl, rfl,
    rfl, rfl⟩
  · rw [convertNumber, htext, putString, if_pos (by omega)]
  · exact (scanString_write string t hlen).trans (congrArg _ hsolid.takeWhile)

theorem convertNumber_overrun {text : Int32 → List UInt8} {fmax : Int32} {sign : Bool}
    (hlen : 20 ≤ (text (env.ap next).toInt32).length) :
    convertNumber env text fill fmax sign string next = .error .overrun := by
  rw [convertNumber, putString, if_neg (by omega)]

/-- What stands at `string` up to the first null character. -/
theorem read_two (string : Mem) {first second : List UInt8} (hlen : first.length ≤ 8) :
    ((string.write 0 (first ++ [0])).write 8 (second ++ [0])).read 0
      ((if first.length = 8 then first ++ second else first).length + 1) =
      (if first.length = 8 then first ++ second else first) ++ [0] := by
  by_cases hfull : first.length = 8
  · have hfirst : (string.write 0 (first ++ [0])).read 0 8 = first := by
      rw [← Mem.write_append, Mem.read_write_of_disjoint (by omega), ← hfull]
      exact Mem.read_write_self string 0 first
    have hsecond := Mem.read_write_self (string.write 0 (first ++ [0])) 8 (second ++ [0])
    rw [List.length_append] at hsecond
    rw [if_pos hfull, List.length_append, hfull, Nat.add_assoc, Mem.read_add,
      Mem.read_write_of_disjoint (by omega), hfirst, Nat.zero_add, List.append_assoc]
    exact congrArg (first ++ ·) hsecond
  · have hself := Mem.read_write_self string 0 (first ++ [0])
    rw [List.length_append] at hself
    rw [if_neg hfull, Mem.read_write_of_disjoint (by omega)]
    exact hself

theorem twoNumbers_solid {letter : UInt8} (hletter : letter = 0x61 ∨ letter = 0x41)
    (w w' : UInt32) : Solid (twoNumbers letter w w') := by
  have hsolid : ∀ n, Solid (numeralText letter 16 n) :=
    solid_numeralText hletter (by omega) (by omega)
  rw [twoNumbers]
  split
  · intro c hc
    exact (List.mem_append.mp hc).elim (hsolid _ c) (hsolid _ c)
  · exact hsolid _

/-- The second number is behind the null character of a short first one. -/
theorem convertTwo_shows {text : Int32 → List UInt8} {letter : UInt8}
    (hletter : letter = 0x61 ∨ letter = 0x41)
    (htext : ∀ w : UInt32, text w.toInt32 = numeralText letter 16 w.toNat) :
    ∃ c, convertTwo env text fill string next = .ok c ∧
      c.Shows (twoNumbers letter (env.ap next) (env.ap (next + 1))) false fill 0 (next + 2) := by
  have hlen : ∀ w : UInt32, (numeralText letter 16 w.toNat).length ≤ 8 := fun w =>
    (length_numeralText_le_iff letter (by omega)).mpr w.toNat_lt
  have hsolid : ∀ w : UInt32, Solid (numeralText letter 16 w.toNat) := fun w =>
    solid_numeralText hletter (by omega) (by omega) w.toNat
  have hfirst := hlen (env.ap next)
  have hsecond := hlen (env.ap (next + 1))
  refine ⟨⟨[], (string.write 0 (numeralText letter 16 (env.ap next).toNat ++ [0])).write 8
    (numeralText letter 16 (env.ap (next + 1)).toNat ++ [0]), none, false, fill, 0, next + 2⟩, ?_,
    rfl, ?_, rfl, rfl, rfl, rfl⟩
  · rw [convertTwo, htext, htext, putString, if_pos (by omega)]
    dsimp only
    rw [putString, if_pos (by omega)]
  · refine (twoNumbers_solid hletter (env.ap next) (env.ap (next + 1))).takeWhile ▸
      scanString_read ?_ ?_
    · exact read_two string hfirst
    · rw [twoNumbers]
      split
      · rw [List.length_append]
        omega
      · omega

end Convert

/-- What `%d` and `%u` need of the functions behind them. -/
structure Printer.Sound (p : Printer) : Prop where
  length_decimal : ∀ num, (p.decimal num).length < 20
  solid_decimal : ∀ num, Solid (p.decimal num)
  prtl10_eq : ∀ (num : Int32) (v : Nat), num.toInt = v → p.prtl10 num = numeralText 0x61 10 v

theorem convert_fits {p : Printer} (hp : p.Sound) (env : Printed) {conv : Conversion}
    (hwide : conv.wide → p.wide) {next : Nat} (hfits : conv.fits env next) (zero : Bool)
    (fmax : Int32) (string : Mem) :
    ∃ c, convert p env conv.char (if zero then zeroCh else blankCh) fmax string next = .ok c ∧
      c.Shows (conv.text env p.decimal next) (conv.sign env next) (conv.fill zero)
        (if conv.cuts then fmax else 0) (next + conv.words) := by
  have hsolid : ∀ letter, letter = 0x61 ∨ letter = 0x41 → ∀ b, 1 < b → b ≤ 16 → ∀ n,
      Solid (numeralText letter b n) := fun letter hletter b hb hb16 n =>
    solid_numeralText hletter hb hb16 n
  have hlen : ∀ letter b k, 1 < b → (env.ap next).toNat < b ^ (k + 1) → k < 19 →
      (numeralText letter b (env.ap next).toNat).length < 20 := by
    intro letter b k hb hword hk
    have hle := (length_numeralText_le_iff letter hb).mpr hword
    omega
  have hword := (env.ap next).toNat_lt
  cases conv with
  | c =>
    refine ⟨⟨[], string.write 0 ([(env.ap next).toUInt8] ++ [0]), none, false, blankCh, 0,
      next + 1⟩, rfl, rfl, ?_, rfl, rfl, rfl, rfl⟩
    exact scanString_write string [(env.ap next).toUInt8] (show 1 < 20 by omega)
  | s => exact ⟨_, rfl, rfl, rfl, rfl, rfl, rfl, rfl⟩
  | d => exact convertNumber_shows rfl (hp.length_decimal _) (hp.solid_decimal _)
  | f =>
    have hshort : (env.prtdbl (env.ap next) (env.ap (next + 1))).2.length < 20 :=
      of_decide_eq_true hfits
    have hcase : convert p env 0x66 (if zero then zeroCh else blankCh) fmax string next =
        .ok ⟨[], string.write 0 ((env.prtdbl (env.ap next) (env.ap (next + 1))).2 ++ [0]), none,
          (env.prtdbl (env.ap next) (env.ap (next + 1))).1, if zero then zeroCh else blankCh, fmax,
          next + 2⟩ := by
      simp [convert, hwide rfl, putString, hshort]
    exact ⟨_, hcase, rfl, scanString_write string _ hshort, rfl, rfl, rfl, rfl⟩
  | u =>
    obtain ⟨larg, digit1, v, hloop, hv, hdigits⟩ := digitOne_eq (env.ap next)
    have hcase : convert p env 0x75 (if zero then zeroCh else blankCh) fmax string next =
        convertNumber env (fun _ => (p.prtl10 larg).modifyHead (· + digit1))
          (if zero then zeroCh else blankCh) 0 false string next := by
      simp [convert, hloop]
    rw [← hp.prtl10_eq larg v hv] at hdigits
    exact hcase ▸ convertNumber_shows hdigits (hlen 0x61 10 9 (by omega) (by omega) (by omega))
      (hsolid _ (.inl rfl) 10 (by omega) (by omega) _)
  | o =>
    have hcase : convert p env 0x6F (if zero then zeroCh else blankCh) fmax string next =
        convertNumber env prtl8 (if zero then zeroCh else blankCh) 0 false string next := by
      simp [convert]
    exact hcase ▸ convertNumber_shows (prtl8_eq _)
      (hlen 0x61 8 10 (by omega) (by omega) (by omega))
      (hsolid _ (.inl rfl) 8 (by omega) (by omega) _)
  | X =>
    have hcase : convert p env 0x58 (if zero then zeroCh else blankCh) fmax string next =
        convertNumber env prtX16 (if zero then zeroCh else blankCh) 0 false string next := by
      simp [convert]
    exact hcase ▸ convertNumber_shows (prtX16_eq _)
      (hlen 0x41 16 7 (by omega) hword (by omega))
      (hsolid _ (.inr rfl) 16 (by omega) (by omega) _)
  | x =>
    have hcase : convert p env 0x78 (if zero then zeroCh else blankCh) fmax string next =
        convertNumber env prtl16 (if zero then zeroCh else blankCh) 0 false string next := by
      simp [convert]
    exact hcase ▸ convertNumber_shows (prtl16_eq _)
      (hlen 0x61 16 7 (by omega) hword (by omega))
      (hsolid _ (.inl rfl) 16 (by omega) (by omega) _)
  | H =>
    have hcase : convert p env 0x48 (if zero then zeroCh else blankCh) fmax string next =
        convertTwo env prtX16 (if zero then zeroCh else blankCh) string next := by
      simp [convert, hwide rfl]
    exact hcase ▸ convertTwo_shows (.inr rfl) prtX16_eq
  | h =>
    have hcase : convert p env 0x68 (if zero then zeroCh else blankCh) fmax string next =
        convertTwo env prtl16 (if zero then zeroCh else blankCh) string next := by
      simp [convert, hwide rfl]
    exact hcase ▸ convertTwo_shows (.inl rfl) prtl16_eq
  | b =>
    have hbits : (env.ap next).toNat < 2 ^ (18 + 1) := of_decide_eq_true hfits
    have hcase : convert p env 0x62 (if zero then zeroCh else blankCh) fmax string next =
        convertNumber env prtl2 (if zero then zeroCh else blankCh) 0 false string next := by
      simp [convert]
    exact hcase ▸ convertNumber_shows (prtl2_eq _) (hlen 0x61 2 18 (by omega) hbits (by omega))
      (hsolid _ (.inl rfl) 2 (by omega) (by omega) _)

theorem convert_overrun (p : Printer) (env : Printed) {conv : Conversion}
    (hwide : conv.wide → p.wide) {next : Nat} (hfits : conv.fits env next = false) (fill : UInt8)
    (fmax : Int32) (string : Mem) :
    convert p env conv.char fill fmax string next = .error .overrun := by
  cases conv with
  | f =>
    have hlong : ¬ (env.prtdbl (env.ap next) (env.ap (next + 1))).2.length < 20 :=
      of_decide_eq_false hfits
    show convert p env 0x66 fill fmax string next = _
    simp [convert, hwide rfl, putString, hlong]
  | b =>
    have hbits : ¬ (env.ap next).toNat < 2 ^ (18 + 1) := of_decide_eq_false hfits
    have hcase : convert p env 0x62 fill fmax string next =
        convertNumber env prtl2 fill 0 false string next := by simp [convert]
    refine hcase.trans (convertNumber_overrun ?_)
    rw [prtl2_eq]
    rw [← length_numeralText_le_iff 0x61 (by omega)] at hbits
    omega
  | _ => cases hfits

theorem clampField_nonneg (x : Int32) : 0 ≤ clampField x := by
  rw [clampField]
  split
  · omega
  · next h =>
    have hneg : ¬ x < 0 := fun h' => h (.inr h')
    rw [toInt_of_not_neg hneg]
    omega

/-- How many characters of `str` are printed. -/
theorem cut_eq_take (fmax : Int32) (str : List UInt8) :
    ∃ n : Nat, (if clampField fmax ≠ 0 ∧ clampField fmax < str.length then clampField fmax
      else (str.length : Int)) = n ∧ cut fmax str = str.take n ∧ (cut fmax str).length = n := by
  have hfmax := clampField_nonneg fmax
  rw [cut]
  by_cases hzero : clampField fmax = 0
  · exact ⟨str.length, by simp [hzero], by simp [hzero], by simp [hzero]⟩
  · by_cases hlt : clampField fmax < str.length
    · exact ⟨(clampField fmax).toNat, by rw [if_pos ⟨hzero, hlt⟩]; omega, by rw [if_neg hzero],
        by rw [if_neg hzero, List.length_take]; omega⟩
    · refine ⟨str.length, by rw [if_neg (by omega)], ?_, ?_⟩
      · rw [if_neg hzero, List.take_length, List.take_of_length_le (by omega)]
      · rw [if_neg hzero, List.take_of_length_le (by omega)]

/-- `leading` counts only if it is positive. -/
theorem printField_eq (leftjust : Bool) (fmin : Int32) {c : Converted} (str : List UInt8)
    (hfill : c.fill = zeroCh ∨ c.fill = blankCh) :
    printField leftjust fmin c str =
      justify leftjust c.fill (clampField fmin).toNat c.sign (cut c.fmax str) := by
  obtain ⟨n, hlength, htake, hn⟩ := cut_eq_take c.fmax str
  have hfmin := clampField_nonneg fmin
  have hleading : (if clampField c.fmax ≠ 0 ∨ clampField fmin ≠ 0 then
      (if clampField fmin ≠ 0 then clampField fmin - n else 0) - (if c.sign then 1 else 0)
      else 0).toNat =
      (clampField fmin).toNat - ((if c.sign then [minusCh] else []).length + n) := by
    have hsign : ((if c.sign then [minusCh] else []).length : Int) = if c.sign then 1 else 0 := by
      cases c.sign <;> rfl
    rw [← hsign]
    by_cases hwidth : clampField fmin = 0
    · rw [if_neg (not_not.mpr hwidth), hwidth]
      split <;> omega
    · rw [if_pos (.inr hwidth), if_pos hwidth]
      omega
  have hapart : zeroCh ≠ blankCh := by decide
  simp only [printField, justify]
  rw [hlength, hleading, hn, Int.toNat_natCast, ← htake]
  rcases hfill with hfill | hfill <;> cases leftjust <;> simp [hfill, hapart, hapart.symm]

/-! ## Printing a format -/

theorem cur_source {d : Directive} (hwidth : d.width.Width) (rest : List UInt8) :
    cur (d.source ++ rest) ≠ percentCh := by
  have hfields := (cur_fields hwidth rest).2.2
  unfold Directive.source
  cases d.leftjust <;> cases d.zero
  · exact hfields
  · exact show zeroCh ≠ percentCh by decide
  · exact show minusCh ≠ percentCh by decide
  · exact show minusCh ≠ percentCh by decide

/-- One directive, whatever `string` holds. -/
theorem doprntLoop_directive {p : Printer} (hp : p.Sound) (env : Printed) {d : Directive}
    (hwidth : d.width.Width) (hwide : d.conv.wide → p.wide) (fuel : Nat) (fmt : List UInt8)
    (string : Mem) (next : Nat) :
    if d.conv.fits env (d.numbers env next).2.2 then
      ∃ string', doprntLoop p env (fuel + 1) (percentCh :: (d.source ++ fmt)) string next =
        (doprntLoop p env fuel fmt string' ((d.numbers env next).2.2 + d.conv.words)).map
          (d.render env p.decimal next ++ ·)
    else doprntLoop p env (fuel + 1) (percentCh :: (d.source ++ fmt)) string next =
      .error .overrun := by
  have hread := parseField_source env hwidth fmt next
  split
  · next hfits =>
    obtain ⟨c, hconv, hechoed, hchars, hsign, hfill, hfmax, hnext⟩ :=
      convert_fits hp env hwide hfits d.zero (d.numbers env next).2.1 string
    have hfield : c.fill = zeroCh ∨ c.fill = blankCh := by
      rw [hfill]
      cases d.conv <;> cases d.zero <;> decide
    refine ⟨c.string, ?_⟩
    rw [doprntLoop, if_neg (not_not.mpr rfl), if_neg (cur_source hwidth fmt), hread]
    dsimp only
    rw [hconv]
    dsimp only
    rw [hchars]
    dsimp only
    rw [hechoed, printField_eq d.leftjust _ _ hfield, hsign, hfill, hfmax, hnext]
    rfl
  · next hfits =>
    have hconv := convert_overrun p env hwide (Bool.eq_false_of_not_eq_true hfits)
      (if d.zero then zeroCh else blankCh) (d.numbers env next).2.1 string
    rw [doprntLoop, if_neg (not_not.mpr rfl), if_neg (cur_source hwidth fmt), hread]
    dsimp only
    rw [hconv]

theorem doprntLoop_renders {p : Printer} (hp : p.Sound) (env : Printed) (pieces : List Piece)
    (hwell : ∀ piece ∈ pieces, piece.WellFormed)
    (hwide : ∀ d, .directive d ∈ pieces → d.conv.wide → p.wide) {fuel : Nat}
    (hfuel : (pieces.flatMap Piece.source).length < fuel) (string : Mem) (next : Nat) :
    doprntLoop p env fuel (pieces.flatMap Piece.source) string next =
      if fits env pieces next then .ok (render env p.decimal pieces next) else .error .overrun := by
  induction pieces generalizing fuel string next with
  | nil =>
    obtain ⟨fuel, rfl⟩ := Nat.exists_eq_add_one.mpr hfuel
    rfl
  | cons piece pieces ih =>
    have hrest := fun fuel (hfuel : (pieces.flatMap Piece.source).length < fuel) =>
      ih (fun piece hpiece => hwell piece (List.mem_cons_of_mem _ hpiece))
        (fun d hd => hwide d (List.mem_cons_of_mem _ hd)) hfuel
    rw [List.flatMap_cons, List.length_append] at hfuel
    rw [List.flatMap_cons]
    obtain ⟨fuel, rfl⟩ := Nat.exists_eq_add_one.mpr (Nat.zero_lt_of_lt hfuel)
    have hfirst := hwell piece List.mem_cons_self
    cases piece with
    | char c =>
      have hplain : c ≠ percentCh := hfirst
      have hfuel' : 1 + (pieces.flatMap Piece.source).length < fuel + 1 := hfuel
      rw [Piece.source, List.singleton_append, doprntLoop, if_pos hplain,
        hrest fuel (by omega), fits, render]
      split <;> rfl
    | percent =>
      have hfuel' : 2 + (pieces.flatMap Piece.source).length < fuel + 1 := hfuel
      rw [Piece.source, List.cons_append, List.singleton_append, doprntLoop,
        if_neg (not_not.mpr rfl), cur_cons, if_pos rfl, List.tail_cons, hrest fuel (by omega), fits,
        render]
      split <;> rfl
    | directive d =>
      have hfuel' : d.source.length + 1 + (pieces.flatMap Piece.source).length < fuel + 1 := hfuel
      have hstep := doprntLoop_directive hp env hfirst (hwide d List.mem_cons_self) fuel
        (pieces.flatMap Piece.source) string next
      rw [Piece.source, List.cons_append, fits, render]
      split at hstep
      · next hfits =>
        obtain ⟨string', hloop⟩ := hstep
        rw [hloop, hrest fuel (by omega), hfits, Bool.true_and]
        split <;> rfl
      · next hfits =>
        rw [hstep, Bool.eq_false_of_not_eq_true hfits, Bool.false_and]
        rfl

/-- The digits of a number without the sign. -/
def unsignedText (num : Int32) : List UInt8 := numeralText 0x61 10 num.toInt.natAbs

theorem length_unsignedText (num : Int32) : (unsignedText num).length < 20 := by
  have hle := (length_numeralText_le_iff 0x61 (k := 9) (by omega)).mpr
    (natAbs_toInt_lt num)
  exact Nat.lt_of_le_of_lt hle (by omega)

theorem solid_unsignedText (num : Int32) : Solid (unsignedText num) :=
  solid_numeralText (.inl rfl) (by omega) (by omega) _

theorem doprnt_eq (env : Printed) (string : Mem) {pieces : List Piece}
    (hwell : ∀ piece ∈ pieces, piece.WellFormed) :
    doprnt env string (pieces.flatMap Piece.source) =
      if fits env pieces 0 then .ok (render env unsignedText pieces 0) else .error .overrun := by
  have hprtl10 : prtl10 = unsignedText := funext (prtl10_eq 0x61 (.inl rfl))
  have hsound : (Printer.mk unsignedText unsignedText true).Sound :=
    ⟨length_unsignedText, solid_unsignedText, fun num v hv => by
      show unsignedText num = _
      rw [unsignedText, hv, Int.natAbs_natCast]⟩
  rw [doprnt, hprtl10]
  exact doprntLoop_renders hsound env pieces hwell (fun _ _ _ => rfl) (Nat.lt_succ_self _) string 0

/-- `_doprnt` prints what the format means, for every format and all arguments, exactly if the
numbers of `%b` and `%f` fit into `string`; else it writes behind it. The text of `%f` is the one
`_prtdbl` returns. -/
theorem doprnt_renders (env : Printed) (string : Mem) {pieces : List Piece}
    (hwell : ∀ piece ∈ pieces, piece.WellFormed) (text : List UInt8) :
    (doprnt env string (pieces.flatMap Piece.source) = .ok text ↔
      fits env pieces 0 = true ∧ text = render env unsignedText pieces 0) ∧
    (doprnt env string (pieces.flatMap Piece.source) = .error .overrun ↔
      fits env pieces 0 = false) := by
  rw [doprnt_eq env string hwell]
  cases fits env pieces 0 with
  | true => simp [eq_comm]
  | false => simp

/-- `x%04x%%%-*.1s` with 42, a width that is taken for none, and "ab". -/
def hexPieces : List Piece :=
  [.char 0x78, .directive ⟨false, true, .digits [4], none, .x⟩, .percent,
    .directive ⟨true, false, .star, some (.digits [1]), .s⟩]

def hexArgs : Printed :=
  ⟨fun _ => [0x61, 0x62], fun n => if n = 0 then 0x2A else if n = 1 then 0x80000000 else 7,
    fun _ _ => (false, [])⟩

theorem hexPieces_wellFormed : ∀ piece ∈ hexPieces, piece.WellFormed := by
  have hchar : (0x78 : UInt8) ≠ percentCh := by decide
  simpa [hexPieces, Piece.WellFormed, FieldNumber.Width] using hchar

/-- It prints `x002a%a`. -/
theorem doprnt_renders_hex : doprnt hexArgs (fun _ => 1)
    [0x78, 0x25, 0x30, 0x34, 0x78, 0x25, 0x25, 0x25, 0x2D, 0x2A, 0x2E, 0x31, 0x73] =
      .ok [0x78, 0x30, 0x30, 0x32, 0x61, 0x25, 0x61] :=
  (doprnt_renders hexArgs (fun _ => 1) hexPieces_wellFormed _).1.mpr (by decide +kernel)

/-! ## The printer of `printf` -/

/-- What `%d` leaves there. -/
def fdecimal (larg : Int32) : List UInt8 := fprtl10 (if larg < 0 then -larg else larg)

theorem fdecimal_eq {num : Int32} (h : num ≠ Int32.minValue) : fdecimal num = unsignedText num := by
  have hlow := num.le_toInt
  have hhigh := num.toInt_lt
  have hne : num.toInt ≠ -2 ^ 31 := fun h' => h (Int32.toInt_inj.mp h')
  refine fprtl10_eq 0x61 (.inl rfl) ?_
  split
  · next hneg =>
    have hneg' : num.toInt < 0 := by simpa [Int32.lt_iff_toInt_lt] using hneg
    rw [Int32.toInt_neg, Int.bmod_eq_of_le (by omega) (by omega)]
    omega
  · next hneg =>
    rw [toInt_of_not_neg hneg]
    rfl

theorem fdecimal_minValue : fdecimal Int32.minValue =
    [0x2E, 0x2F, 0x2C, 0x29, 0x2C, 0x28, 0x2D, 0x2A, 0x2C, 0x28] := by
  decide +kernel

/-- As many characters, and another one in front. -/
theorem fdecimal_cases (num : Int32) : (fdecimal num).length = (unsignedText num).length ∧
    (num ≠ Int32.minValue → fdecimal num = unsignedText num) ∧
    (num = Int32.minValue → (fdecimal num).head? ≠ (unsignedText num).head?) := by
  by_cases hleast : num = Int32.minValue
  · have htext : unsignedText Int32.minValue =
        [0x32, 0x31, 0x34, 0x37, 0x34, 0x38, 0x33, 0x36, 0x34, 0x38] := by
      rw [unsignedText, ← prtl10_eq 0x61 (.inl rfl)]
      decide +kernel
    rw [hleast, htext, fdecimal_minValue]
    exact ⟨rfl, fun h => absurd rfl h, fun _ => by decide⟩
  · rw [fdecimal_eq hleast]
    exact ⟨rfl, fun _ => rfl, fun h => absurd h hleast⟩

theorem justify_inj {leftjust : Bool} {fill : UInt8} {width : Nat} {sign : Bool}
    {text text' : List UInt8} (hlen : text.length = text'.length)
    (h : justify leftjust fill width sign text = justify leftjust fill width sign text') :
    text = text' := by
  simp only [justify, hlen] at h
  split at h
  · exact List.append_cancel_left (List.append_cancel_right h)
  · split at h
    · exact List.append_cancel_left h
    · exact List.append_cancel_left h

theorem head?_cut (fmax : Int32) (text : List UInt8) : (cut fmax text).head? = text.head? := by
  have hfmax := clampField_nonneg fmax
  rw [cut]
  split
  · rfl
  · rw [List.head?_take, if_neg (by omega)]

theorem length_cut {text text' : List UInt8} (h : text.length = text'.length) (fmax : Int32) :
    (cut fmax text).length = (cut fmax text').length := by
  rw [cut, cut]
  split
  · exact h
  · rw [List.length_take, List.length_take, h]

theorem length_justify {text text' : List UInt8} (h : text.length = text'.length) (leftjust : Bool)
    (fill : UInt8) (width : Nat) (sign : Bool) :
    (justify leftjust fill width sign text).length =
      (justify leftjust fill width sign text').length := by
  simp only [justify, h]
  split
  · simp [h]
  · split <;> simp [h]

/-- The numbers that `%d` prints. -/
def signedArgs (env : Printed) : List Piece → Nat → List Int32
  | [], _ => []
  | .char _ :: pieces, next | .percent :: pieces, next => signedArgs env pieces next
  | .directive d :: pieces, next =>
    (if d.conv = .d then [(env.ap (d.numbers env next).2.2).toInt32] else []) ++
      signedArgs env pieces ((d.numbers env next).2.2 + d.conv.words)

theorem Conversion.text_congr {conv : Conversion} (h : conv ≠ .d) (env : Printed)
    (decimal decimal' : Int32 → List UInt8) (next : Nat) :
    conv.text env decimal next = conv.text env decimal' next := by
  cases conv <;> first | rfl | exact absurd rfl h

theorem Directive.render_eq_iff (env : Printed) (d : Directive) (next : Nat) :
    (d.render env fdecimal next).length = (d.render env unsignedText next).length ∧
      (d.render env fdecimal next = d.render env unsignedText next ↔
        (d.conv = .d → (env.ap (d.numbers env next).2.2).toInt32 ≠ Int32.minValue)) := by
  by_cases hconv : d.conv = .d
  · obtain ⟨hlen, hsame, hother⟩ := fdecimal_cases (env.ap (d.numbers env next).2.2).toInt32
    have hcut := length_cut hlen (d.numbers env next).2.1
    simp only [Directive.render, hconv]
    refine ⟨length_justify hcut _ _ _ _, fun h _ hleast => hother hleast ?_, fun h => ?_⟩
    · have htext := congrArg List.head? (justify_inj hcut h)
      rwa [head?_cut, head?_cut] at htext
    · have hdecimal := hsame (h trivial)
      simp only [Conversion.text, hdecimal]
  · have hsame : d.render env fdecimal next = d.render env unsignedText next := by
      simp only [Directive.render, Conversion.text_congr hconv env fdecimal unsignedText]
    exact ⟨congrArg List.length hsame, fun _ h => absurd h hconv, fun _ => hsame⟩

theorem render_eq_iff (env : Printed) (pieces : List Piece) (next : Nat) :
    render env fdecimal pieces next = render env unsignedText pieces next ↔
      ∀ num ∈ signedArgs env pieces next, num ≠ Int32.minValue := by
  induction pieces generalizing next with
  | nil => simp [render, signedArgs]
  | cons piece pieces ih =>
    cases piece with
    | char c => rw [render, render, List.cons_inj_right, ih, signedArgs]
    | percent => rw [render, render, List.cons_inj_right, ih, signedArgs]
    | directive d =>
      obtain ⟨hlen, hdirective⟩ := d.render_eq_iff env next
      rw [render, render, List.append_eq_append_iff_of_size_eq_left hlen, hdirective, ih,
        signedArgs]
      by_cases hconv : d.conv = .d <;> simp [hconv]

theorem fdoprnt_renders (env : Printed) (string : Mem) {pieces : List Piece}
    (hwell : ∀ piece ∈ pieces, piece.WellFormed)
    (hnarrow : ∀ d, .directive d ∈ pieces → d.conv.wide = false) :
    fdoprnt env string (pieces.flatMap Piece.source) =
      if fits env pieces 0 then .ok (render env fdecimal pieces 0) else .error .overrun := by
  have hlength : ∀ num, (fdecimal num).length < 20 := fun num =>
    (fdecimal_cases num).1 ▸ length_unsignedText num
  have hsolid : ∀ num, Solid (fdecimal num) := by
    intro num
    by_cases hleast : num = Int32.minValue
    · rw [hleast, fdecimal_minValue]
      unfold Solid
      decide +kernel
    · exact fdecimal_eq hleast ▸ solid_unsignedText num
  have hsound : (Printer.mk fdecimal fprtl10 false).Sound :=
    ⟨hlength, hsolid, fun num v hv => fprtl10_eq 0x61 (.inl rfl) hv⟩
  refine doprntLoop_renders hsound env pieces hwell (fun d hd hwide => ?_)
    (Nat.lt_succ_self _) string 0
  rw [hnarrow d hd] at hwide
  cases hwide

/-- `_fdoprnt` prints a format without `%f`, `%H` and `%h` as `_doprnt` does, exactly if no `%d`
gets the least number, whose digits it does not find. -/
theorem fdoprnt_agrees_iff (env : Printed) (string string' : Mem) {pieces : List Piece}
    (hwell : ∀ piece ∈ pieces, piece.WellFormed)
    (hnarrow : ∀ d, .directive d ∈ pieces → d.conv.wide = false) :
    fdoprnt env string (pieces.flatMap Piece.source) =
        doprnt env string' (pieces.flatMap Piece.source) ↔
      (fits env pieces 0 → ∀ num ∈ signedArgs env pieces 0, num ≠ Int32.minValue) := by
  rw [fdoprnt_renders env string hwell hnarrow, doprnt_eq env string' hwell]
  split
  · next hfits =>
    rw [Except.ok.injEq, render_eq_iff]
    exact ⟨fun h _ => h, fun h => h hfits⟩
  · next hfits => exact ⟨fun _ h => absurd h hfits, fun _ => rfl⟩

/-- `%-6d:%0*d:%s` with -42, the width 14, the number above the least one, and "ab". -/
def signedPieces : List Piece :=
  [.directive ⟨true, false, .digits [6], none, .d⟩, .char 0x3A,
    .directive ⟨false, true, .star, none, .d⟩, .char 0x3A,
    .directive ⟨false, false, .digits [], none, .s⟩]

def signedValues : Printed :=
  ⟨fun _ => [0x61, 0x62],
    fun n => if n = 0 then 0xFFFFFFD6 else if n = 1 then 14 else if n = 2 then 0x80000001 else 7,
    fun _ _ => (false, [])⟩

theorem fdoprnt_agrees_iff_signed :
    signedArgs signedValues signedPieces 0 = [-42, -2147483647] ∧
      fdoprnt signedValues (fun _ => 1) (signedPieces.flatMap Piece.source) =
        doprnt signedValues (fun _ => 2) (signedPieces.flatMap Piece.source) := by
  have hargs : signedArgs signedValues signedPieces 0 = [-42, -2147483647] := by decide +kernel
  have hcolon : (0x3A : UInt8) ≠ percentCh := by decide
  refine ⟨hargs, (fdoprnt_agrees_iff signedValues (fun _ => 1) (fun _ => 2) ?_ ?_).mpr ?_⟩
  · simpa [signedPieces, Piece.WellFormed, FieldNumber.Width] using hcolon
  · simp [signedPieces, Conversion.wide]
  · intro _
    rw [hargs, List.forall_mem_cons, List.forall_mem_singleton]
    exact ⟨by decide, by decide⟩

end NatBox
