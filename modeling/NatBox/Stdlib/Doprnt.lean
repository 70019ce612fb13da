import NatBox.Lib.ByteMemory
import NatBox.Lib.Numeral

/-
Formatted output: `_doprnt`, behind `kprintf`, and `_fdoprnt`, behind `printf` and `sprintf`.

The two files differ in `_prtl10`, in the case of `%d`, and in the cases `f`, `H` and `h` that only
the first has.  Conversions write into a `string` of 20 bytes; a case that writes behind it, or
a scan for the end of the string that runs out of it, is a fault here.  The floating-point
conversion is a parameter.
-/

namespace NatBox

open Numeral

abbrev percentCh : UInt8 := 0x25
abbrev starCh : UInt8 := 0x2A
abbrev minusCh : UInt8 := 0x2D
abbrev dotCh : UInt8 := 0x2E
abbrev zeroCh : UInt8 := 0x30
abbrev blankCh : UInt8 := 0x20

inductive DoprntFault
  /-- an access outside `string` -/
  | overrun
  | endless
  deriving DecidableEq

/-- An `int` stored in a `char`. -/
def charOf (x : Int32) : UInt8 := x.toUInt32.toUInt8

/-! ## The conversions -/

/-- `temp[1]` to `temp[n]` of the decimal loops. -/
def decimals : Nat → Int32 → List UInt8
  | 0, _ => []
  | n + 1, num => charOf (num % 10 + 48) :: decimals n (num / 10)

/-- `_prtl10` of `doprnt.c`. -/
def prtl10 (num : Int32) : List UInt8 :=
  let first := charOf ((if num < 0 then -(num % 10) else num % 10) + 48)
  let num := num / (if num < 0 then -10 else 10)
  trim zeroCh (first :: decimals 9 num)

/-- `_prtl10` of `fdoprnt.c`. -/
def fprtl10 (num : Int32) : List UInt8 := trim zeroCh (decimals 10 num)

def shiftDigits (digit : Int32 → UInt8) (shift : Int32) : Nat → Int32 → List UInt8
  | 0, _ => []
  | n + 1, num => digit num :: shiftDigits digit shift n (num >>> shift)

def prtl8 (num : Int32) : List UInt8 :=
  let temp := shiftDigits (fun num => charOf ((num &&& 7) + 48)) 3 11 num
  trim zeroCh (temp.modify 10 (· &&& 0x33))

/-- The characters `0` to `9`, and the letters from `letter` on. -/
def digitChar (letter : UInt8) (d : Nat) : UInt8 :=
  if d < 10 then zeroCh + UInt8.ofNat d else letter + UInt8.ofNat (d - 10)

def prtl16 (num : Int32) : List UInt8 :=
  trim zeroCh (shiftDigits (fun num => digitChar 0x61 (num &&& 15).toNatClampNeg) 4 8 num)

def prtX16 (num : Int32) : List UInt8 :=
  trim zeroCh (shiftDigits (fun num => digitChar 0x41 (num &&& 15).toNatClampNeg) 4 8 num)

def prtl2 (num : Int32) : List UInt8 :=
  trim zeroCh (shiftDigits (fun num => if num % 2 = 0 then 0x30 else 0x31) 1 32 num)

/-- The loop of `%u`, with `digit1`. -/
def digitOne : Nat → Int32 → UInt8 → Except DoprntFault (Int32 × UInt8)
  | 0, _, _ => .error .endless
  | fuel + 1, larg, digit1 =>
    if larg < 0 then digitOne fuel (larg - 1000000000) (digit1 + 1) else .ok (larg, digit1)

/-! ## The format -/

/-- What the two files do not share. -/
structure Printer where
  /-- What `%d` leaves in `string`. -/
  decimal : Int32 → List UInt8
  /-- `_prtl10` -/
  prtl10 : Int32 → List UInt8
  /-- There are the cases `f`, `H` and `h`. -/
  wide : Bool

/-- What is outside: the strings at the addresses of `%s`, the words on the stack from `ap` on, and
`_prtdbl` of two of them, the sign and the text of `%f`, whatever it returns. -/
structure Printed where
  str : UInt32 → List UInt8
  ap : Nat → UInt32
  prtdbl : UInt32 → UInt32 → Bool × List UInt8

/-- A conversion writes its characters and a null character at `off`. -/
def putString (string : Mem) (off : Nat) (text : List UInt8) : Except DoprntFault Mem :=
  if off + text.length < 20 then .ok (string.write off (text ++ [0])) else .error .overrun

/-- The loop that finds the length of `string`. -/
def scanString (string : Mem) : Nat → Nat → Except DoprntFault (List UInt8)
  | 0, _ => .error .overrun
  | n + 1, i => if string i = 0 then .ok [] else (scanString string n (i + 1)).map (string i :: ·)

/-- What a case of the `switch` leaves. -/
structure Converted where
  /-- What it has written to the output itself. -/
  echoed : List UInt8
  string : Mem
  /-- The string of `%s`, if `str` does not point to `string`. -/
  str : Option (List UInt8)
  sign : Bool
  fill : UInt8
  fmax : Int32
  next : Nat

/-- The characters up to the end of the string that `str` points to. -/
def Converted.chars (conv : Converted) : Except DoprntFault (List UInt8) :=
  match conv.str with
  | some str => .ok str
  | none => scanString conv.string 20 0

section Format

variable (p : Printer) (env : Printed)

/-- The cases that write one or two numbers. -/
def convertNumber (text : Int32 → List UInt8) (fill : UInt8) (fmax : Int32) (sign : Bool)
    (string : Mem) (next : Nat) : Except DoprntFault Converted :=
  match putString string 0 (text (env.ap next).toInt32) with
  | .error e => .error e
  | .ok string => .ok ⟨[], string, none, sign, fill, fmax, next + 1⟩

/-- The second number goes behind eight characters, wherever the first one ends. -/
def convertTwo (text : Int32 → List UInt8) (fill : UInt8) (string : Mem) (next : Nat) :
    Except DoprntFault Converted :=
  match putString string 0 (text (env.ap next).toInt32) with
  | .error e => .error e
  | .ok string =>
    match putString string 8 (text (env.ap (next + 1)).toInt32) with
    | .error e => .error e
    | .ok string => .ok ⟨[], string, none, false, fill, 0, next + 2⟩

/-- The `switch` over the character of the conversion. -/
def convert (f fill : UInt8) (fmax : Int32) (string : Mem) (next : Nat) :
    Except DoprntFault Converted :=
  if f = 0x63 then
    .ok ⟨[], string.write 0 [(env.ap next).toUInt8, 0], none, false, blankCh, 0, next + 1⟩
  else if f = 0x73 then
    let null := [0x28, 0x6E, 0x75, 0x6C, 0x6C, 0x29]
    let str := if env.ap next = 0 then null else env.str (env.ap next)
    .ok ⟨[], string, some str, false, blankCh, fmax, next + 1⟩
  else if f = 0x64 then
    convertNumber env p.decimal fill fmax (decide ((env.ap next).toInt32 < 0)) string next
  else if f = 0x66 ∧ p.wide then
    let (sign, text) := env.prtdbl (env.ap next) (env.ap (next + 1))
    match putString string 0 text with
    | .error e => .error e
    | .ok string => .ok ⟨[], string, none, sign, fill, fmax, next + 2⟩
  else if f = 0x75 then
    match digitOne 4 (env.ap next).toInt32 0 with
    | .error e => .error e
    | .ok (larg, digit1) =>
      convertNumber env (fun _ => (p.prtl10 larg).modifyHead (· + digit1)) fill 0 false string next
  else if f = 0x6F then convertNumber env prtl8 fill 0 false string next
  else if f = 0x58 then convertNumber env prtX16 fill 0 false string next
  else if f = 0x78 then convertNumber env prtl16 fill 0 false string next
  else if f = 0x48 ∧ p.wide then convertTwo env prtX16 fill string next
  else if f = 0x68 ∧ p.wide then convertTwo env prtl16 fill string next
  else if f = 0x62 then convertNumber env prtl2 fill 0 false string next
  else .ok ⟨[f], string, none, false, fill, fmax, next⟩

/-- `*fmt` -/
def cur (fmt : List UInt8) : UInt8 := fmt.headD 0

def parseDigits : List UInt8 → Int32 → Int32 × List UInt8
  | [], n => (n, [])
  | c :: fmt, n =>
    if 0x30 ≤ c ∧ c ≤ 0x39 then parseDigits fmt (n * 10 + c.toUInt32.toInt32 - 48)
    else (n, c :: fmt)

/-- A field specification: a number, or `*` for a word of the arguments. -/
def parseNumber (fmt : List UInt8) (next : Nat) : Int32 × List UInt8 × Nat :=
  if cur fmt = starCh then ((env.ap next).toInt32, fmt.tail, next + 1)
  else ((parseDigits fmt 0).1, (parseDigits fmt 0).2, next)

structure Field where
  leftjust : Bool
  fill : UInt8
  fmin : Int32
  fmax : Int32
  /-- The format from the character of the conversion on. -/
  rest : List UInt8
  next : Nat

def parsePrecision (fmt : List UInt8) (next : Nat) : Int32 × List UInt8 × Nat :=
  if cur fmt = dotCh then parseNumber env fmt.tail next else (0, fmt, next)

def parseField (fmt : List UInt8) (next : Nat) : Field :=
  let leftjust := decide (cur fmt = minusCh)
  let fmt := if leftjust then fmt.tail else fmt
  let fill := if cur fmt = zeroCh then zeroCh else blankCh
  let fmt := if cur fmt = zeroCh then fmt.tail else fmt
  let width := parseNumber env fmt next
  let precision := parsePrecision env width.2.1 width.2.2
  ⟨leftjust, fill, width.1, precision.1, precision.2.1, precision.2.2⟩

def clampField (x : Int32) : Int := if 80 < x ∨ x < 0 then 0 else x.toInt

/-- What follows the `switch`. -/
def printField (leftjust : Bool) (fmin : Int32) (c : Converted) (str : List UInt8) : List UInt8 :=
  let fmin := clampField fmin
  let fmax := clampField c.fmax
  let length : Int := if fmax ≠ 0 ∧ fmax < str.length then fmax else str.length
  let leading : Int :=
    if fmax ≠ 0 ∨ fmin ≠ 0 then
      (if fmin ≠ 0 then fmin - length else 0) - (if c.sign then 1 else 0)
    else 0
  (if c.sign ∧ c.fill = zeroCh then [minusCh] else []) ++
    (if leftjust then [] else List.replicate leading.toNat c.fill) ++
    (if c.sign ∧ c.fill = blankCh then [minusCh] else []) ++ str.take length.toNat ++
    (if leftjust then List.replicate leading.toNat c.fill else [])

def doprntLoop : Nat → List UInt8 → Mem → Nat → Except DoprntFault (List UInt8)
  | 0, _, _, _ => .error .endless
  | _ + 1, [], _, _ => .ok []
  | fuel + 1, c :: fmt, string, next =>
    if c ≠ percentCh then (doprntLoop fuel fmt string next).map (c :: ·)
    else if cur fmt = percentCh then (doprntLoop fuel fmt.tail string next).map (percentCh :: ·)
    else
      let field := parseField env fmt next
      match field.rest with
      | [] => .ok [percentCh]
      | f :: fmt =>
        match convert p env f field.fill field.fmax string field.next with
        | .error e => .error e
        | .ok conv =>
          match conv.chars with
          | .error e => .error e
          | .ok str =>
            (doprntLoop fuel fmt conv.string conv.next).map
              (conv.echoed ++ printField field.leftjust field.fmin conv str ++ ·)

end Format

/-- `_doprnt`: what it passes to `func`.  `string` is what the stack holds at first. -/
def doprnt (env : Printed) (string : Mem) (fmt : List UInt8) : Except DoprntFault (List UInt8) :=
  doprntLoop ⟨prtl10, prtl10, true⟩ env (fmt.length + 1) fmt string 0

/-- `_fdoprnt` -/
def fdoprnt (env : Printed) (string : Mem) (fmt : List UInt8) : Except DoprntFault (List UInt8) :=
  doprntLoop ⟨fun larg => fprtl10 (if larg < 0 then -larg else larg), fprtl10, false⟩ env
    (fmt.length + 1) fmt string 0

/-! ## The digits of the conversions -/

/-- A number in base `b` as it is printed. -/
def numeralText (letter : UInt8) (b n : Nat) : List UInt8 := (numeral b n).map (digitChar letter)

theorem digitChar_zero (letter : UInt8) : digitChar letter 0 = zeroCh := rfl

theorem digitChar_ne_zero : ∀ d, d < 16 → (digitChar 0x61 d = zeroCh → d = 0) ∧
    (digitChar 0x41 d = zeroCh → d = 0) := by decide

/-- The end of every conversion: the zeros in front are passed over. -/
theorem trim_digitChar {letter : UInt8} (hletter : letter = 0x61 ∨ letter = 0x41) {b k n : Nat}
    (hb : 1 < b) (hb16 : b ≤ 16) (hn : n < b ^ (k + 1)) :
    trim zeroCh ((low b (k + 1) n).map (digitChar letter)) = numeralText letter b n := by
  rw [← digitChar_zero letter, trim_map, trim_low hb hn, numeralText]
  intro d hd
  have hne := digitChar_ne_zero d (Nat.lt_of_lt_of_le (low_lt (by omega) hd) hb16)
  rcases hletter with rfl | rfl
  · exact hne.1
  · exact hne.2

theorem charOf_ofNat (letter : UInt8) : ∀ d, d < 10 →
    charOf (Int32.ofNat d + 48) = digitChar letter d := by
  have h : ∀ d, d < 10 → charOf (Int32.ofNat d + 48) = zeroCh + UInt8.ofNat d := by decide
  intro d hd
  rw [h d hd, digitChar, if_pos hd]

theorem charOf_digit (letter : UInt8) {num : Int32} {d : Nat} (hd : d < 10)
    (h : num.toInt = d) : charOf (num + 48) = digitChar letter d := by
  rw [← charOf_ofNat letter d hd, show num = Int32.ofNat d by
    rw [← Int32.ofInt_toInt num, h]
    rfl]

theorem decimals_eq (letter : UInt8) (n : Nat) {num : Int32} {v : Nat} (h : num.toInt = v) :
    decimals n num = (low 10 n v).map (digitChar letter) := by
  induction n generalizing num v with
  | zero => rfl
  | succ n ih =>
    have hmod : (num % 10).toInt = ((v % 10 : Nat) : Int) := by
      rw [Int32.toInt_mod, h]
      rfl
    have hdiv : (num / 10).toInt = ((v / 10 : Nat) : Int) := by
      rw [Int32.toInt_div_of_ne_right _ _ (by decide), h]
      rfl
    rw [decimals, low, List.map_cons, ih hdiv, charOf_digit letter (Nat.mod_lt _ (by omega)) hmod]

theorem natAbs_toInt_lt (num : Int32) : num.toInt.natAbs < 10 ^ 10 := by
  have hlow := num.le_toInt
  have hhigh := num.toInt_lt
  omega

/-- `_prtl10` of `doprnt.c` prints the digits of every number, also of the least. -/
theorem prtl10_eq (letter : UInt8) (hletter : letter = 0x61 ∨ letter = 0x41) (num : Int32) :
    prtl10 num = numeralText letter 10 num.toInt.natAbs := by
  have hlt := natAbs_toInt_lt num
  rw [← trim_digitChar hletter (by omega) (by omega) hlt, prtl10, low, List.map_cons]
  by_cases hneg : num < 0
  · have hneg' : num.toInt < 0 := by simpa [Int32.lt_iff_toInt_lt] using hneg
    obtain ⟨v, hv⟩ := Int.exists_eq_neg_ofNat (Int.le_of_lt hneg')
    have hfirst : (-(num % 10)).toInt = ((num.toInt.natAbs % 10 : Nat) : Int) := by
      rw [Int32.toInt_neg, Int32.toInt_mod, hv]
      show (-((-(v : Int)).tmod 10)).bmod (2 ^ 32) = _
      rw [Int.neg_tmod, Int.neg_neg]
      show (((v % 10 : Nat) : Int)).bmod (2 ^ 32) = _
      rw [Int.bmod_eq_of_le] <;> omega
    have hrest : (num / -10).toInt = ((num.toInt.natAbs / 10 : Nat) : Int) := by
      rw [Int32.toInt_div_of_ne_right _ _ (by decide), hv]
      show (-(v : Int)).tdiv (-10) = _
      rw [Int.neg_tdiv_neg, Int.natAbs_neg, Int.natAbs_natCast]
      rfl
    rw [if_pos hneg, if_pos hneg, charOf_digit letter (Nat.mod_lt _ (by omega)) hfirst,
      decimals_eq letter 9 hrest]
  · have hpos : 0 ≤ num.toInt := by simpa [Int32.lt_iff_toInt_lt] using hneg
    obtain ⟨v, hv⟩ := Int.eq_ofNat_of_zero_le hpos
    rw [if_neg hneg, if_neg hneg, hv, Int.natAbs_natCast]
    have hmod : (num % 10).toInt = ((v % 10 : Nat) : Int) := by
      rw [Int32.toInt_mod, hv]
      rfl
    have hdiv : (num / 10).toInt = ((v / 10 : Nat) : Int) := by
      rw [Int32.toInt_div_of_ne_right _ _ (by decide), hv]
      rfl
    rw [charOf_digit letter (Nat.mod_lt _ (by omega)) hmod, decimals_eq letter 9 hdiv]

/-- That of `fdoprnt.c` does so from zero on. -/
theorem fprtl10_eq (letter : UInt8) (hletter : letter = 0x61 ∨ letter = 0x41) {num : Int32}
    {v : Nat} (h : num.toInt = v) : fprtl10 num = numeralText letter 10 v := by
  have hlt := natAbs_toInt_lt num
  rw [h, Int.natAbs_natCast] at hlt
  rw [fprtl10, decimals_eq letter 10 h, trim_digitChar hletter (by omega) (by omega) hlt]

/-- The last `k` bits of a number are those of `v`. -/
def LowBits (k : Nat) (num : Int32) (v : Nat) : Prop := ∃ c : Int, num.toInt = v + (2 ^ k : Nat) * c

theorem LowBits.shift {num shift : Int32} {k m v : Nat}
    (hshift : (shift.toBitVec.smod 32).toNat = k) (h : LowBits (k + m) num v) :
    LowBits m (num >>> shift) (v / 2 ^ k) := by
  obtain ⟨c, hc⟩ := h
  have hsar : (num >>> shift).toInt = num.toInt / (2 ^ k : Nat) := by
    show (num.toBitVec.sshiftRight' (shift.toBitVec.smod 32)).toInt = _
    rw [BitVec.toInt_sshiftRight', hshift, Int.shiftRight_eq_div_pow, Int32.toInt_toBitVec]
  refine ⟨c, ?_⟩
  rw [hsar, hc, Nat.pow_add, Nat.cast_mul, Int.mul_assoc,
    Int.add_mul_ediv_left _ _ (by exact_mod_cast (Nat.two_pow_pos k).ne'), Int.natCast_div]

theorem LowBits.toNat_mod {num : Int32} {k v : Nat} (hk : k ≤ 32) (h : LowBits k num v) :
    num.toBitVec.toNat % 2 ^ k = v % 2 ^ k := by
  obtain ⟨c, hc⟩ := h
  have hword : (2 ^ 32 : Int) = (2 ^ k : Nat) * (2 ^ (32 - k) : Nat) := by
    rw [← Nat.cast_mul, ← Nat.pow_add, Nat.add_sub_cancel' hk]
    rfl
  have hint : (num.toBitVec.toNat : Int) % (2 ^ k : Nat) = v % (2 ^ k : Nat) := by
    rw [← Int32.toInt_toBitVec, BitVec.toInt_eq_toNat_cond] at hc
    split at hc
    · rw [hc, Int.add_mul_emod_self_left]
    · rw [show (num.toBitVec.toNat : Int) = v + (2 ^ k : Nat) * (c + (2 ^ (32 - k) : Nat)) by
        rw [Int.mul_add, ← hword]
        omega, Int.add_mul_emod_self_left]
  exact_mod_cast hint

theorem LowBits.mask {num mask : Int32} {k v : Nat} (hk : k < 31)
    (hmask : mask.toBitVec.toNat = 2 ^ k - 1) (h : LowBits k num v) :
    (num &&& mask).toInt = (v % 2 ^ k : Nat) := by
  have hnat : (num &&& mask).toBitVec.toNat = v % 2 ^ k := by
    rw [Int32.toBitVec_and, BitVec.toNat_and, hmask, Nat.and_two_pow_sub_one_eq_mod,
      h.toNat_mod (by omega)]
  have hlt : v % 2 ^ k < 2 ^ 31 := Nat.lt_of_lt_of_le (Nat.mod_lt _ (Nat.two_pow_pos k))
    (Nat.pow_le_pow_right (by omega) (by omega))
  rw [← Int32.toInt_toBitVec, BitVec.toInt_eq_toNat_of_lt (by rw [hnat]; omega), hnat]

theorem LowBits.mono {num : Int32} {k m v : Nat} (h : LowBits (k + m) num v) : LowBits k num v := by
  obtain ⟨c, hc⟩ := h
  exact ⟨(2 ^ m : Nat) * c, by rw [hc, Nat.pow_add, Nat.cast_mul, Int.mul_assoc]⟩

/-- Whatever the sign, the bits of the number become digits. -/
theorem shiftDigits_eq {letter : UInt8} {digit : Int32 → UInt8} {shift : Int32} {k : Nat}
    (hshift : (shift.toBitVec.smod 32).toNat = k)
    (hdigit : ∀ num v, LowBits k num v → digit num = digitChar letter (v % 2 ^ k))
    (n : Nat) {num : Int32} {v : Nat} (h : LowBits (k * n) num v) :
    shiftDigits digit shift n num = (low (2 ^ k) n v).map (digitChar letter) := by
  induction n generalizing num v with
  | zero => rfl
  | succ n ih =>
    rw [Nat.mul_succ, Nat.add_comm] at h
    rw [shiftDigits, low, List.map_cons, hdigit num v h.mono, ih (h.shift hshift)]

theorem lowBits_word (w : UInt32) : LowBits 32 w.toInt32 w.toNat := by
  have hw : w.toInt32.toBitVec.toNat = w.toNat := rfl
  have hint : w.toInt32.toInt = w.toInt32.toBitVec.toInt := rfl
  rw [BitVec.toInt_eq_toNat_cond, hw] at hint
  split at hint
  · exact ⟨0, by rw [hint, Int.mul_zero, Int.add_zero]⟩
  · exact ⟨-1, by rw [hint]; omega⟩

theorem trim_shiftDigits {letter : UInt8} (hletter : letter = 0x61 ∨ letter = 0x41)
    {digit : Int32 → UInt8} {shift : Int32} {k n : Nat}
    (hshift : (shift.toBitVec.smod 32).toNat = k)
    (hdigit : ∀ num v, LowBits k num v → digit num = digitChar letter (v % 2 ^ k))
    (hk : 0 < k ∧ k ≤ 4) (hkn : k * (n + 1) = 32) (w : UInt32) :
    trim zeroCh (shiftDigits digit shift (n + 1) w.toInt32) =
      numeralText letter (2 ^ k) w.toNat := by
  have hw : w.toNat < (2 ^ k) ^ (n + 1) := by
    rw [← Nat.pow_mul, hkn]
    exact w.toNat_lt
  rw [shiftDigits_eq hshift hdigit (n + 1) (hkn ▸ lowBits_word w),
    trim_digitChar hletter (Nat.one_lt_two_pow (by omega)) ?_ hw]
  exact Nat.pow_le_pow_right (by omega) hk.2

theorem prtl16_eq (w : UInt32) : prtl16 w.toInt32 = numeralText 0x61 16 w.toNat := by
  refine trim_shiftDigits (k := 4) (.inl rfl) rfl (fun num v h => ?_) (by omega) (by omega) w
  rw [Int32.toNatClampNeg, h.mask (by omega) rfl]
  rfl

theorem prtX16_eq (w : UInt32) : prtX16 w.toInt32 = numeralText 0x41 16 w.toNat := by
  refine trim_shiftDigits (k := 4) (.inr rfl) rfl (fun num v h => ?_) (by omega) (by omega) w
  rw [Int32.toNatClampNeg, h.mask (by omega) rfl]
  rfl

theorem prtl2_eq (w : UInt32) : prtl2 w.toInt32 = numeralText 0x61 2 w.toNat := by
  refine trim_shiftDigits (k := 1) (.inl rfl) rfl (fun num v h => ?_) (by omega) (by omega) w
  obtain ⟨c, hc⟩ := h
  have hmod : num % 2 = 0 ↔ v % 2 = 0 := by
    rw [← Int32.toInt_inj, Int32.toInt_mod]
    show num.toInt.tmod 2 = 0 ↔ _
    rw [← Int.dvd_iff_tmod_eq_zero, hc]
    omega
  rw [Nat.pow_one]
  by_cases hv : v % 2 = 0
  · rw [if_pos (hmod.mpr hv), hv]
    rfl
  · rw [if_neg (mt hmod.mp hv), Nat.mod_two_ne_zero.mp hv]
    rfl

/-- The digits of the octal loop, the last of which is masked. -/
theorem octalDigits_eq (n : Nat) {num : Int32} {v : Nat} (h : LowBits (3 * n + 2) num v)
    (hv : v < 8 ^ n * 4) :
    (shiftDigits (fun num => charOf ((num &&& 7) + 48)) 3 (n + 1) num).modify n (· &&& 0x33) =
      (low 8 (n + 1) v).map (digitChar 0x61) := by
  induction n generalizing num v with
  | zero =>
    have hself : LowBits 3 num num.toBitVec.toNat :=
      (lowBits_word num.toUInt32).mono (k := 3) (m := 29)
    have hlow : num.toBitVec.toNat % 2 ^ 2 = v % 2 ^ 2 := h.toNat_mod (by omega)
    have hmask : ∀ x, x < 8 → digitChar 0x61 x &&& 0x33 = digitChar 0x61 (x % 4) := by decide
    show [charOf ((num &&& 7) + 48) &&& 0x33] = [digitChar 0x61 (v % 8)]
    rw [charOf_digit 0x61 (show num.toBitVec.toNat % 2 ^ 3 < 10 by omega)
      (hself.mask (by omega) rfl), hmask _ (by omega)]
    congr 2
    omega
  | succ n ih =>
    have hone : LowBits 3 num v := (show 3 * (n + 1) + 2 = 3 + (3 * n + 2) by omega) ▸ h |>.mono
    have hrest : LowBits (3 * n + 2) (num >>> 3) (v / 2 ^ 3) :=
      ((show 3 * (n + 1) + 2 = 3 + (3 * n + 2) by omega) ▸ h).shift rfl
    have hv' : v / 2 ^ 3 < 8 ^ n * 4 := by
      rw [Nat.pow_succ] at hv
      omega
    rw [shiftDigits, low, List.map_cons, List.modify_succ_cons, ih hrest hv',
      charOf_digit 0x61 (show v % 2 ^ 3 < 10 by omega) (hone.mask (by omega) rfl)]
    rfl

/-- The last of the eleven octal digits has two bits: the sign is masked out. -/
theorem prtl8_eq (w : UInt32) : prtl8 w.toInt32 = numeralText 0x61 8 w.toNat := by
  have hw := w.toNat_lt
  rw [prtl8, octalDigits_eq 10 (lowBits_word w) (by omega),
    trim_digitChar (.inl rfl) (by omega) (by omega) (by omega)]

theorem lt_zero_iff {num : Int32} : num < 0 ↔ 2 ^ 31 ≤ num.toUInt32.toNat := by
  have hint : num.toInt = num.toBitVec.toInt := rfl
  have hnat : num.toBitVec.toNat = num.toUInt32.toNat := rfl
  have hlt := num.toUInt32.toNat_lt
  rw [BitVec.toInt_eq_toNat_cond, hnat] at hint
  rw [Int32.lt_iff_toInt_lt]
  show num.toInt < 0 ↔ _
  split at hint <;> omega

theorem toInt_of_not_neg {num : Int32} (h : ¬ num < 0) : num.toInt = num.toUInt32.toNat := by
  rw [lt_zero_iff] at h
  have hint : num.toInt = num.toBitVec.toInt := rfl
  have hnat : num.toBitVec.toNat = num.toUInt32.toNat := rfl
  rw [hint, BitVec.toInt_eq_toNat_of_lt (by rw [hnat]; omega), hnat]

theorem digitOne_loop (fuel : Nat) (num : Int32) (digit1 : UInt8)
    (h : num.toUInt32.toNat < 2 ^ 31 + fuel * 10 ^ 9) :
    ∃ larg k v, digitOne (fuel + 1) num digit1 = .ok (larg, digit1 + UInt8.ofNat k) ∧
      larg.toInt = (v : Nat) ∧ num.toUInt32.toNat = v + 10 ^ 9 * k ∧ (k = 0 ∨ 10 ^ 9 ≤ v) := by
  by_cases hneg : num < 0
  · have hbig := lt_zero_iff.mp hneg
    cases fuel with
    | zero => omega
    | succ fuel =>
      have hnext : (num - 1000000000).toUInt32.toNat = num.toUInt32.toNat - 10 ^ 9 := by
        have hle : (1000000000 : UInt32) ≤ num.toUInt32 := by
          rw [UInt32.le_iff_toNat_le]
          exact Nat.le_trans (by decide) hbig
        show (num.toUInt32 - 1000000000).toNat = _
        rw [UInt32.toNat_sub_of_le _ _ hle]
        rfl
      obtain ⟨larg, k, v, hloop, hv, hsum, hk⟩ := digitOne_loop fuel (num - 1000000000) (digit1 + 1)
        (show (num - 1000000000).toUInt32.toNat < _ by omega)
      have hcount : digit1 + 1 + UInt8.ofNat k = digit1 + UInt8.ofNat (k + 1) := by
        rw [UInt8.ofNat_add, UInt8.add_assoc, UInt8.add_comm (UInt8.ofNat k)]
        rfl
      refine ⟨larg, k + 1, v, ?_, hv, by omega, .inr ?_⟩
      · rw [digitOne, if_pos hneg, hloop, hcount]
      · rcases hk with rfl | hk
        · omega
        · exact hk
  · exact ⟨num, 0, num.toUInt32.toNat, by rw [digitOne, if_neg hneg]; simp, toInt_of_not_neg hneg,
      by omega, .inl rfl⟩

/-- What the loop of `%u` takes off, the first digit gets back. -/
theorem digitOne_eq (w : UInt32) : ∃ larg digit1 v, digitOne 4 w.toInt32 0 = .ok (larg, digit1) ∧
    larg.toInt = (v : Nat) ∧
    (numeralText 0x61 10 v).modifyHead (· + digit1) = numeralText 0x61 10 w.toNat := by
  have hw := w.toNat_lt
  obtain ⟨larg, k, v, hloop, hv, hsum, hk⟩ := digitOne_loop 3 w.toInt32 0
    (show w.toNat < _ by omega)
  have hsum' : w.toNat = v + 10 ^ 9 * k := hsum
  refine ⟨larg, _, v, hloop, hv, ?_⟩
  rcases hk with rfl | hfirst
  · rw [hsum']
    cases numeralText 0x61 10 v <;> simp
  · have hadd : ∀ a, a < 5 → ∀ d, d < 5 →
        digitChar 0x61 a + (0 + UInt8.ofNat d) = digitChar 0x61 (a + d) := by decide
    unfold numeralText
    rw [hsum', numeral_eq_cons (by omega) hfirst (by omega),
      numeral_eq_cons (k := 9) (by omega) (by omega) (by omega), low_add_mul, List.map_cons,
      List.map_cons, List.modifyHead_cons, hadd _ (by omega) _ (by omega),
      Nat.add_mul_div_left _ _ (by omega)]

end NatBox
