import NatBox.Lib.ByteMemory
import NatBox.Lib.CString

/-
Hexadecimal text: `charToHex`.

The function skips colons where a byte may start and reads every other character
in pairs, two characters to a byte, without being told how long the buffer is.
`hexScan` is what it makes of a string apart from the memory it writes to, and
`charToHex_eq` says so.  A pair may be any two letters or digits, so the strings
taken are those of `Pairs`; `HexBytes` are the ones that are hexadecimal.
-/

namespace NatBox

/-- `':'` -/
abbrev colon : UInt8 := 58

/-- The test of one character, which both halves of a byte make: the value of a
digit or of a letter, and `none` where the function returns 1. -/
def hexValue (ch : UInt8) : Option UInt8 :=
  if 48 ≤ ch ∧ ch ≤ 57 then some (ch - 48)
  else if 65 ≤ ch ∧ ch ≤ 90 then some (ch - 65 + 10)
  else if 97 ≤ ch ∧ ch ≤ 122 then some (ch - 97 + 10)
  else none

/-- `charToHex` with `buf` and `string` where the loop has them: what it returns
and the memory it leaves. -/
def charToHex (m : Mem) (buf : Nat) : List UInt8 → Nat × Mem
  | [] => (0, m)
  | ch :: string =>
    if ch = colon then charToHex m buf string
    else
      match hexValue ch with
      | none => (1, m)
      | some hi =>
        let m := m.write buf [hi <<< 4]
        match string with
        | [] => (1, m)
        | ch :: string =>
          match hexValue ch with
          | none => (1, m)
          | some lo => charToHex (m.write buf [m buf ||| lo]) (buf + 1) string

/-! ## What it makes of a string -/

/-- Whether a string is taken, and the bytes stored before the scan ends. -/
def hexScan : List UInt8 → Bool × List UInt8
  | [] => (true, [])
  | ch :: string =>
    if ch = colon then hexScan string
    else
      match hexValue ch with
      | none => (false, [])
      | some hi =>
        match string with
        | [] => (false, [hi <<< 4])
        | ch :: string =>
          match hexValue ch with
          | none => (false, [hi <<< 4])
          | some lo => ((hexScan string).1, (hi <<< 4 ||| lo) :: (hexScan string).2)

/-- A byte stored in two halves, and the bytes behind it. -/
theorem write_halves (m : Mem) (buf : Nat) (hi lo : UInt8) (bs : List UInt8) :
    ((m.write buf [hi]).write buf [(m.write buf [hi]) buf ||| lo]).write (buf + 1) bs =
      m.write buf ((hi ||| lo) :: bs) := by
  have hfirst : (m.write buf [hi]) buf = hi := Mem.write_inside (i := 0) rfl
  have hsecond : (m.write buf [hi]).write buf [hi ||| lo] = m.write buf [hi ||| lo] := by
    funext i
    by_cases hi' : i < buf ∨ buf + 1 ≤ i
    · rw [Mem.write_outside hi', Mem.write_outside hi', Mem.write_outside hi']
    · have hib : i = buf + 0 := by omega
      rw [hib, Mem.write_inside rfl, Mem.write_inside rfl]
  rw [hfirst, hsecond]
  exact Mem.write_append m buf [hi ||| lo] bs

theorem charToHex_eq (m : Mem) (buf : Nat) (string : List UInt8) :
    charToHex m buf string =
      (if (hexScan string).1 then 0 else 1, m.write buf (hexScan string).2) := by
  fun_induction charToHex m buf string with
  | case1 m buf => simp [hexScan]
  | case2 m buf string ih =>
    rw [ih]
    simp [hexScan]
  | case3 m buf ch string hcolon hch => simp [hexScan, hcolon, hch]
  | case4 m buf ch hcolon hi hch m' => simp [hexScan, hcolon, hch, m']
  | case5 m buf ch hcolon hi hch m' ch' string' hch' => simp [hexScan, hcolon, hch, hch', m']
  | case6 m buf ch hcolon hi hch m' ch' string' lo hch' ih =>
    rw [ih]
    simp [hexScan, hcolon, hch, hch', m', write_halves]

/-! ## The strings it takes -/

/-- Pairs of letters and digits, `n` of them, with colons in front of a pair and
behind the last one. -/
inductive Pairs : List UInt8 → Nat → Prop
  | nil : Pairs [] 0
  | skip {s n} (h : Pairs s n) : Pairs (colon :: s) n
  | pair {ch ch' s n} (hch : hexValue ch ≠ none) (hch' : hexValue ch' ≠ none)
      (h : Pairs s n) : Pairs (ch :: ch' :: s) (n + 1)

theorem hexValue_colon : hexValue colon = none := by decide

theorem ne_colon_of_hexValue {ch : UInt8} (h : hexValue ch ≠ none) : ch ≠ colon := by
  rintro rfl
  exact h hexValue_colon

theorem hexScan_accepts_iff (s : List UInt8) : (hexScan s).1 = true ↔ ∃ n, Pairs s n := by
  fun_induction hexScan s with
  | case1 => simpa using ⟨0, Pairs.nil⟩
  | case2 string ih =>
    rw [ih]
    constructor
    · rintro ⟨n, h⟩
      exact ⟨n, h.skip⟩
    · rintro ⟨n, h⟩
      cases h with
      | skip h => exact ⟨n, h⟩
      | pair hch _ _ => exact absurd hexValue_colon hch
  | case3 ch string hcolon hch =>
    refine iff_of_false (by simp) ?_
    rintro ⟨n, h⟩
    cases h with
    | skip h => exact hcolon rfl
    | pair hch' _ _ => exact hch' hch
  | case4 ch hcolon hi hch =>
    refine iff_of_false (by simp) ?_
    rintro ⟨n, h⟩
    cases h with
    | skip h => exact hcolon rfl
  | case5 ch hcolon hi hch ch' string hch' =>
    refine iff_of_false (by simp) ?_
    rintro ⟨n, h⟩
    cases h with
    | skip h => exact hcolon rfl
    | pair _ hne _ => exact hne hch'
  | case6 ch hcolon hi hch ch' string lo hch' ih =>
    rw [ih]
    constructor
    · rintro ⟨n, h⟩
      exact ⟨n + 1, h.pair (by simp [hch]) (by simp [hch'])⟩
    · rintro ⟨n, h⟩
      cases h with
      | skip h => exact absurd rfl hcolon
      | pair _ _ h => exact ⟨_, h⟩

/-- The pairs of a string that is taken are the bytes stored. -/
theorem pairs_iff {s : List UInt8} {n : Nat} :
    Pairs s n ↔ (hexScan s).1 = true ∧ (hexScan s).2.length = n := by
  have hlength : ∀ {s n}, Pairs s n → (hexScan s).2.length = n := by
    intro s n h
    induction h with
    | nil => rfl
    | skip h ih => rwa [hexScan, if_pos rfl]
    | pair hch hch' h ih =>
      obtain ⟨hi, hhi⟩ := Option.ne_none_iff_exists'.mp hch
      obtain ⟨lo, hlo⟩ := Option.ne_none_iff_exists'.mp hch'
      have hcolon := ne_colon_of_hexValue hch
      rw [hexScan, if_neg hcolon]
      simp only [hhi, hlo, List.length_cons, ih]
  constructor
  · intro h
    exact ⟨(hexScan_accepts_iff s).mpr ⟨n, h⟩, hlength h⟩
  · rintro ⟨haccepts, rfl⟩
    obtain ⟨n, h⟩ := (hexScan_accepts_iff s).mp haccepts
    rwa [hlength h]

/-- The string starts with `cap` pairs and a further letter or digit. -/
def Overruns (cap : Nat) (s : List UInt8) : Prop :=
  ∃ front ch rest, s = front ++ ch :: rest ∧ Pairs front cap ∧ hexValue ch ≠ none

theorem not_overruns_nil (cap : Nat) : ¬ Overruns cap [] := by
  rintro ⟨front, ch, rest, hs, -⟩
  simp at hs

theorem overruns_colon_iff (cap : Nat) (s : List UInt8) :
    Overruns cap (colon :: s) ↔ Overruns cap s := by
  constructor
  · rintro ⟨front, ch, rest, hs, hfront, hch⟩
    cases front with
    | nil =>
      simp only [List.nil_append, List.cons.injEq] at hs
      exact absurd (hs.1 ▸ hexValue_colon) hch
    | cons c front =>
      simp only [List.cons_append, List.cons.injEq] at hs
      obtain ⟨rfl, rfl⟩ := hs
      cases hfront with
      | skip hfront => exact ⟨front, ch, rest, rfl, hfront, hch⟩
      | pair hc _ _ => exact absurd hexValue_colon hc
  · rintro ⟨front, ch, rest, rfl, hfront, hch⟩
    exact ⟨colon :: front, ch, rest, rfl, hfront.skip, hch⟩

theorem not_overruns_of_bad {cap : Nat} {ch : UInt8} {s : List UInt8} (hcolon : ch ≠ colon)
    (hch : hexValue ch = none) : ¬ Overruns cap (ch :: s) := by
  rintro ⟨front, c, rest, hs, hfront, hc⟩
  cases hfront with
  | nil =>
    simp only [List.nil_append, List.cons.injEq] at hs
    exact hc (hs.1 ▸ hch)
  | skip h =>
    simp only [List.cons_append, List.cons.injEq] at hs
    exact hcolon hs.1
  | pair hne _ _ =>
    simp only [List.cons_append, List.cons.injEq] at hs
    exact hne (hs.1 ▸ hch)

/-- A string that starts with a letter or digit overruns an empty buffer, and a
larger one when a pair is there and what follows overruns the rest of it. -/
theorem overruns_cons_iff {cap : Nat} {ch : UInt8} {s : List UInt8} (hch : hexValue ch ≠ none) :
    Overruns cap (ch :: s) ↔
      cap = 0 ∨ ∃ ch' s' k, s = ch' :: s' ∧ hexValue ch' ≠ none ∧ cap = k + 1 ∧
        Overruns k s' := by
  constructor
  · rintro ⟨front, c, rest, hs, hfront, hc⟩
    cases hfront with
    | nil => exact .inl rfl
    | skip h =>
      simp only [List.cons_append, List.cons.injEq] at hs
      exact absurd (hs.1 ▸ hexValue_colon) hch
    | pair _ hne h =>
      simp only [List.cons_append, List.cons.injEq] at hs
      exact .inr ⟨_, _, _, hs.2, hne, rfl, _, c, rest, rfl, h, hc⟩
  · rintro (rfl | ⟨ch', s', k, rfl, hch', rfl, front, c, rest, rfl, hfront, hc⟩)
    · exact ⟨[], ch, s, rfl, .nil, hch⟩
    · exact ⟨ch :: ch' :: front, c, rest, rfl, hfront.pair hch hch', hc⟩

/-- The bytes the scan stores are too many for the buffer exactly then. -/
theorem overruns_iff (cap : Nat) (s : List UInt8) :
    Overruns cap s ↔ cap < (hexScan s).2.length := by
  fun_induction hexScan s generalizing cap with
  | case1 => simpa using not_overruns_nil cap
  | case2 string ih => rw [overruns_colon_iff, ih]
  | case3 ch string hcolon hch => simpa using not_overruns_of_bad hcolon hch
  | case4 ch hcolon hi hch =>
    rw [overruns_cons_iff (by simp [hch])]
    simp
  | case5 ch hcolon hi hch ch' string hch' =>
    rw [overruns_cons_iff (by simp [hch])]
    have hnone : ¬ ∃ c s' k, ch' :: string = c :: s' ∧ hexValue c ≠ none ∧ cap = k + 1 ∧
        Overruns k s' := by
      rintro ⟨c, s', k, hs, hc, -, -⟩
      simp only [List.cons.injEq] at hs
      exact hc (hs.1 ▸ hch')
    simp only [hnone, or_false, List.length_singleton, Nat.lt_one_iff]
  | case6 ch hcolon hi hch ch' string lo hch' ih =>
    rw [overruns_cons_iff (by simp [hch])]
    cases cap with
    | zero => simp
    | succ k =>
      simp only [List.length_cons, Nat.add_lt_add_iff_right, ← ih k]
      constructor
      · rintro (h | ⟨c, s', j, hs, -, hj, h⟩)
        · omega
        · simp only [List.cons.injEq] at hs
          obtain rfl : k = j := by omega
          exact hs.2 ▸ h
      · intro h
        exact .inr ⟨ch', string, k, rfl, by simp [hch'], rfl, h⟩

/-! ## Hexadecimal strings -/

/-- The value of a hexadecimal digit. -/
def hexDigit (ch : UInt8) : Option UInt8 :=
  if 48 ≤ ch ∧ ch ≤ 57 then some (ch - 48)
  else if 65 ≤ ch ∧ ch ≤ 70 then some (ch - 65 + 10)
  else if 97 ≤ ch ∧ ch ≤ 102 then some (ch - 97 + 10)
  else none

/-- Bytes of two hexadecimal digits each, with any number of colons between two
of them. -/
inductive HexBytes : List UInt8 → List UInt8 → Prop
  | nil : HexBytes [] []
  | last {ch ch' x y} (hx : hexDigit ch = some x) (hy : hexDigit ch' = some y) :
    HexBytes [ch, ch'] [16 * x + y]
  | more {ch ch' x y s bs} (k : Nat) (hx : hexDigit ch = some x) (hy : hexDigit ch' = some y)
      (hs : s ≠ []) (h : HexBytes s bs) :
    HexBytes (ch :: ch' :: (List.replicate k colon ++ s)) ((16 * x + y) :: bs)

/-- The function and the digits agree where there is a digit. -/
theorem hexValue_of_hexDigit {ch x : UInt8} (h : hexDigit ch = some x) : hexValue ch = some x := by
  grind [hexDigit, hexValue]

theorem hexDigit_lt {ch x : UInt8} (h : hexDigit ch = some x) : x < 16 := by
  grind [hexDigit]

theorem ne_colon_of_hexDigit {ch x : UInt8} (h : hexDigit ch = some x) : ch ≠ colon :=
  ne_colon_of_hexValue (by simp [hexValue_of_hexDigit h])

theorem nibbles {x y : UInt8} (hx : x < 16) (hy : y < 16) : x <<< 4 ||| y = 16 * x + y := by
  have hx' : x.toNat < 16 := UInt8.lt_iff_toNat_lt.mp hx
  have hy' : y.toNat < 2 ^ 4 := UInt8.lt_iff_toNat_lt.mp hy
  rw [← UInt8.toNat_inj, UInt8.toNat_or, UInt8.toNat_shiftLeft, UInt8.toNat_add, UInt8.toNat_mul]
  have hshift : x.toNat <<< 4 % 2 ^ 8 = x.toNat <<< 4 :=
    Nat.mod_eq_of_lt (by rw [Nat.shiftLeft_eq]; omega)
  simp only [UInt8.reduceToNat, Nat.reduceMod]
  rw [hshift, ← Nat.shiftLeft_add_eq_or_of_lt hy', Nat.shiftLeft_eq]
  omega

theorem hexScan_colons (k : Nat) (s : List UInt8) :
    hexScan (List.replicate k colon ++ s) = hexScan s := by
  induction k with
  | zero => rfl
  | succ k ih =>
    rw [List.replicate_succ, List.cons_append, hexScan, if_pos rfl, ih]

/-- A pair of digits in front of a string. -/
theorem hexScan_byte {ch ch' x y : UInt8} (hx : hexDigit ch = some x) (hy : hexDigit ch' = some y)
    (s : List UInt8) :
    hexScan (ch :: ch' :: s) = ((hexScan s).1, (16 * x + y) :: (hexScan s).2) := by
  rw [hexScan, if_neg (ne_colon_of_hexDigit hx)]
  simp only [hexValue_of_hexDigit hx, hexValue_of_hexDigit hy]
  rw [nibbles (hexDigit_lt hx) (hexDigit_lt hy)]

/-- The bytes of a hexadecimal string are what is stored. -/
theorem HexBytes.hexScan_eq {s bs : List UInt8} (h : HexBytes s bs) : hexScan s = (true, bs) := by
  induction h with
  | nil => rfl
  | last hx hy => rw [hexScan_byte hx hy]; rfl
  | more k hx hy _ _ ih => rw [hexScan_byte hx hy, hexScan_colons, ih]

/-- A string is hexadecimal text as far as its characters go: where it is made of
pairs and colons, its letters are digits and no colon stands at either end. -/
def HexText (s : List UInt8) : Prop :=
  (∃ n, Pairs s n) →
    (∀ ch ∈ s, ch = colon ∨ hexDigit ch ≠ none) ∧ s.head? ≠ some colon ∧ s.getLast? ≠ some colon

/-- Pairs of digits, with the colons in front of them counted. -/
theorem Pairs.hexBytes {s : List UInt8} {n : Nat} (h : Pairs s n)
    (hs : ∀ ch ∈ s, ch = colon ∨ hexDigit ch ≠ none) (hlast : s.getLast? ≠ some colon) :
    ∃ k s' bs, s = List.replicate k colon ++ s' ∧ HexBytes s' bs := by
  induction h with
  | nil => exact ⟨0, [], [], rfl, .nil⟩
  | @skip s n h ih =>
    rw [List.forall_mem_cons] at hs
    cases s with
    | nil => simp at hlast
    | cons c s =>
      rw [List.getLast?_cons_cons] at hlast
      obtain ⟨k, s', bs, heq, hbs⟩ := ih hs.2 hlast
      exact ⟨k + 1, s', bs, by rw [heq]; rfl, hbs⟩
  | @pair ch ch' s n hch hch' h ih =>
    simp only [List.forall_mem_cons] at hs
    have hdigit : ∀ c, hexValue c ≠ none → (c = colon ∨ hexDigit c ≠ none) →
        ∃ x, hexDigit c = some x := by
      intro c hc hor
      rcases hor with rfl | hne
      · exact absurd hexValue_colon hc
      · exact Option.ne_none_iff_exists'.mp hne
    obtain ⟨x, hx⟩ := hdigit ch hch hs.1
    obtain ⟨y, hy⟩ := hdigit ch' hch' hs.2.1
    cases s with
    | nil => exact ⟨0, [ch, ch'], [16 * x + y], rfl, .last hx hy⟩
    | cons c s =>
      rw [List.getLast?_cons_cons, List.getLast?_cons_cons] at hlast
      obtain ⟨k, s', bs, heq, hbs⟩ := ih hs.2.2 hlast
      have hne : s' ≠ [] := by
        rintro rfl
        -- all of the rest would be colons
        rw [heq, List.append_nil] at hlast
        cases k with
        | zero => simp at heq
        | succ k => simp [List.getLast?_replicate] at hlast
      exact ⟨0, _, _, by rw [heq]; rfl, .more k hx hy hne hbs⟩

theorem HexBytes.pairs {s bs : List UInt8} (h : HexBytes s bs) : ∃ n, Pairs s n :=
  (hexScan_accepts_iff s).mp (by rw [h.hexScan_eq])

theorem HexBytes.digits {s bs : List UInt8} (h : HexBytes s bs) :
    (∀ ch ∈ s, ch = colon ∨ hexDigit ch ≠ none) ∧ s.head? ≠ some colon ∧
      s.getLast? ≠ some colon := by
  induction h with
  | nil => simp
  | last hx hy =>
    have hcx := ne_colon_of_hexDigit hx
    have hcy := ne_colon_of_hexDigit hy
    simp [hx, hy, hcx, hcy]
  | @more ch ch' x y s bs k hx hy hs h ih =>
    have hcx := ne_colon_of_hexDigit hx
    have hlast : (ch :: ch' :: (List.replicate k colon ++ s)).getLast? = s.getLast? := by
      obtain ⟨c, s', rfl⟩ := List.exists_cons_of_ne_nil hs
      simp [List.getLast?_cons, List.getLast?_append]
    refine ⟨?_, by simpa using hcx, hlast ▸ ih.2.2⟩
    simp only [List.forall_mem_cons, List.forall_mem_append]
    refine ⟨.inr (by simp [hx]), .inr (by simp [hy]), ?_, ih.1⟩
    intro c hc
    exact .inl (List.eq_of_mem_replicate hc)

/-- The strings that are hexadecimal are those taken with only digits in them and
no colon at an end. -/
theorem hexBytes_iff (s : List UInt8) :
    (∃ bs, HexBytes s bs) ↔
      (∃ n, Pairs s n) ∧ (∀ ch ∈ s, ch = colon ∨ hexDigit ch ≠ none) ∧ s.head? ≠ some colon ∧
        s.getLast? ≠ some colon := by
  constructor
  · rintro ⟨bs, h⟩
    exact ⟨h.pairs, h.digits⟩
  · rintro ⟨⟨n, h⟩, hs, hhead, hlast⟩
    obtain ⟨k, s', bs, rfl, hbs⟩ := h.hexBytes hs hlast
    cases k with
    | zero => exact ⟨bs, hbs⟩
    | succ k => simp [List.replicate_succ] at hhead

/-! ## What is promised of it -/

/-- A reader of hexadecimal text with a buffer of `cap` bytes: it takes the
hexadecimal strings, stores their bytes in order, and for no string writes behind
the buffer. -/
structure ReadsHex (cap : Nat) (s : CString) : Prop where
  accepts : ∀ m, (charToHex m 0 s.chars).1 = 0 ↔ ∃ bs, HexBytes s.chars bs
  stores : ∀ m bs, HexBytes s.chars bs → (charToHex m 0 s.chars).2.read 0 bs.length = bs
  within : ∀ m i, cap ≤ i → (charToHex m 0 s.chars).2 i = m i

theorem charToHex_zero_iff (m : Mem) (buf : Nat) (s : List UInt8) :
    (charToHex m buf s).1 = 0 ↔ ∃ n, Pairs s n := by
  rw [charToHex_eq, ← hexScan_accepts_iff]
  simp

theorem charToHex_stores {s bs : List UInt8} (h : HexBytes s bs) (m : Mem) :
    (charToHex m 0 s).2.read 0 bs.length = bs := by
  rw [charToHex_eq, h.hexScan_eq]
  exact Mem.read_write_self m 0 bs

/-- Nothing behind the buffer is written, whatever is there, when the bytes
stored fit in it. -/
theorem charToHex_within_iff (cap : Nat) (s : List UInt8) :
    (∀ m i, cap ≤ i → (charToHex m 0 s).2 i = m i) ↔ ¬ Overruns cap s := by
  rw [overruns_iff, Nat.not_lt]
  constructor
  · intro h
    by_contra hlt
    rw [Nat.not_le] at hlt
    -- a memory whose byte behind the buffer differs from the one stored there
    have hstored : (hexScan s).2[cap]? = some (hexScan s).2[cap] := List.getElem?_eq_getElem hlt
    have hsame := h (fun _ => (hexScan s).2[cap] + 1) cap (Nat.le_refl cap)
    have hwrite := @Mem.write_inside (fun _ => (hexScan s).2[cap] + 1) 0 cap _ _ hstored
    rw [Nat.zero_add] at hwrite
    rw [charToHex_eq] at hsame
    exact absurd (hwrite.symm.trans hsame) (by grind)
  · intro hle m i hi
    rw [charToHex_eq]
    exact Mem.write_outside (by omega)

/-- `charToHex` reads a string as hexadecimal bytes exactly when the string has no
other letter in a pair and no colon at an end, and does not hold more than the
buffer. -/
theorem charToHex_reads_iff (cap : Nat) (s : CString) :
    ReadsHex cap s ↔ HexText s.chars ∧ ¬ Overruns cap s.chars := by
  constructor
  · intro h
    refine ⟨fun hpairs => ?_, (charToHex_within_iff cap s.chars).mp h.within⟩
    have hzero := (charToHex_zero_iff (fun _ => 0) 0 s.chars).mpr hpairs
    exact ((hexBytes_iff s.chars).mp ((h.accepts _).mp hzero)).2
  · rintro ⟨htext, hfits⟩
    refine ⟨fun m => ?_, fun m bs hbs => charToHex_stores hbs m,
      (charToHex_within_iff cap s.chars).mpr hfits⟩
    rw [charToHex_zero_iff, hexBytes_iff]
    exact ⟨fun hpairs => ⟨hpairs, htext hpairs⟩, fun h => h.1⟩

/-- `"zz"` is taken as a byte, and fourteen zeros go beyond a buffer of six. -/
theorem charToHex_misreads :
    ¬ ReadsHex 16 ⟨[122, 122], by decide⟩ ∧ ¬ ReadsHex 6 ⟨List.replicate 14 48, by decide⟩ := by
  constructor
  · intro h
    obtain ⟨bs, hbs⟩ := (h.accepts fun _ => 0).mp (by decide)
    exact absurd (hbs.digits.1 122 (by decide)) (by decide)
  · intro h
    have := h.within (fun _ => 1) 6 (Nat.le_refl 6)
    exact absurd this (by decide)

end NatBox
