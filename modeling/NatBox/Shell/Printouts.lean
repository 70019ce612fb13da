import NatBox.Shell.Accepted
import NatBox.Shell.AddFwdEntry

/-
What the console shows of addresses and of the forwarding table: `print_ipv6`, `print_mac` and
`printFWDTab`.

`printFWDTab_eq` gives the text of a table.  `charToHex` reads an address of `print_ipv6` again, but
not one of `print_mac`, which puts dots between the bytes.
-/

namespace NatBox

open Numeral

/-- `kprintf`: the characters for the console.  Here there are as many words as the format takes. -/
def kprintf (string : Mem) (fmt : List UInt8) (args : List UInt32) :
    Except DoprntFault (List UInt8) :=
  doprnt ⟨fun _ => [], fun i => args.getD i 0, fun _ _ => (false, [])⟩ string fmt

/-- The loop of `print_ipv6` and of `print_mac`. -/
def printPairs (string : Mem) (sep : UInt8) : List UInt8 → Except DoprntFault (List UInt8)
  | a :: b :: c :: rest => do
    let text ← kprintf string (chars "%02x%02x" ++ [sep]) [a.toUInt32, b.toUInt32]
    let texts ← printPairs string sep (c :: rest)
    return text ++ texts
  | [a, b] => kprintf string (chars "%02x%02x") [a.toUInt32, b.toUInt32]
  | _ => return []

def printIpv6 (string : Mem) (addr : Ipv6Addr) : Except DoprntFault (List UInt8) :=
  printPairs string colon addr.toList

def printMac (string : Mem) (addr : MacAddr) : Except DoprntFault (List UInt8) :=
  printPairs string dotCh addr.toList

/-! ## The text -/

/-- A byte in two hexadecimal digits. -/
def byteText (b : UInt8) : List UInt8 :=
  [digitChar 0x61 (b.toNat / 16), digitChar 0x61 (b.toNat % 16)]

def pairsText (sep : UInt8) : List UInt8 → List UInt8
  | a :: b :: c :: rest => byteText a ++ byteText b ++ sep :: pairsText sep (c :: rest)
  | [a, b] => byteText a ++ byteText b
  | _ => []

/-- The arguments of a call. -/
def printedArgs (args : List UInt32) : Printed :=
  ⟨fun _ => [], fun i => args.getD i 0, fun _ _ => (false, [])⟩

theorem kprintf_eq (string : Mem) {pieces : List Piece} (hwell : ∀ piece ∈ pieces, piece.WellFormed)
    {args : List UInt32} (hfits : fits (printedArgs args) pieces 0 = true) :
    kprintf string (pieces.flatMap Piece.source) args =
      .ok (render (printedArgs args) unsignedText pieces 0) := by
  rw [kprintf, ← printedArgs, doprnt_eq _ _ hwell, if_pos hfits]

section Plain

variable (cs : List UInt8)

theorem source_chars : (cs.map Piece.char).flatMap Piece.source = cs := by
  induction cs with
  | nil => rfl
  | cons c cs ih =>
    rw [List.map_cons, List.flatMap_cons, ih]
    rfl

theorem wellFormed_chars (h : percentCh ∉ cs) : ∀ piece ∈ cs.map Piece.char, piece.WellFormed := by
  intro piece hpiece
  obtain ⟨c, hc, rfl⟩ := List.mem_map.mp hpiece
  rintro rfl
  exact h hc

theorem render_chars (env : Printed) (decimal : Int32 → List UInt8) (pieces : List Piece)
    (next : Nat) : render env decimal (cs.map Piece.char ++ pieces) next =
      cs ++ render env decimal pieces next := by
  induction cs with
  | nil => rfl
  | cons c cs ih => rw [List.map_cons, List.cons_append, render, ih, List.cons_append]

theorem fits_chars (env : Printed) (pieces : List Piece) (next : Nat) :
    fits env (cs.map Piece.char ++ pieces) next = fits env pieces next := by
  induction cs with
  | nil => rfl
  | cons c cs ih => rw [List.map_cons, List.cons_append, fits, ih]

end Plain

/-- Characters that are no directive. -/
theorem kprintf_plain (string : Mem) {fmt : List UInt8} (h : percentCh ∉ fmt) :
    kprintf string fmt [] = .ok fmt := by
  have hrender := render_chars fmt (printedArgs []) unsignedText [] 0
  have hfits := fits_chars fmt (printedArgs []) [] 0
  rw [List.append_nil] at hrender hfits
  have hprint := kprintf_eq string (wellFormed_chars fmt h) hfits
  rw [source_chars, hrender] at hprint
  rw [hprint, render, List.append_nil]

theorem byteText_eq (b : UInt8) :
    justify false zeroCh 2 false (numeralText 0x61 16 b.toUInt32.toNat) = byteText b := by
  have h : ∀ n, n < 256 → justify false zeroCh 2 false (numeralText 0x61 16 n) =
      [digitChar 0x61 (n / 16), digitChar 0x61 (n % 16)] := by
    decide +kernel
  exact h b.toNat b.toNat_lt

/-- `%02x`, for the width 2. -/
def hexDirective (width : Fin 10) : Directive := ⟨false, true, .digits [width], none, .x⟩

theorem render_hexDirective {env : Printed} {next : Nat} {b : UInt8}
    (h : env.ap next = b.toUInt32) :
    (hexDirective 2).render env unsignedText next = byteText b := by
  rw [← byteText_eq, ← h]
  rfl

theorem kprintf_pair (string : Mem) (a b : UInt8) {back : List UInt8} (h : percentCh ∉ back) :
    kprintf string (chars "%02x%02x" ++ back) [a.toUInt32, b.toUInt32] =
      .ok (byteText a ++ (byteText b ++ back)) := by
  have hdirective : (Piece.directive (hexDirective 2)).WellFormed := by
    show (FieldNumber.digits [2]).Width
    simp [FieldNumber.Width]
  have hwell : ∀ piece ∈ .directive (hexDirective 2) :: .directive (hexDirective 2) ::
      back.map Piece.char, piece.WellFormed :=
    List.forall_mem_cons.mpr ⟨hdirective, List.forall_mem_cons.mpr
      ⟨hdirective, wellFormed_chars back h⟩⟩
  have hback := render_chars back (printedArgs [a.toUInt32, b.toUInt32]) unsignedText [] 2
  have hfits := fits_chars back (printedArgs [a.toUInt32, b.toUInt32]) [] 2
  rw [List.append_nil] at hback hfits
  have hprint := kprintf_eq string hwell hfits
  rw [List.flatMap_cons, List.flatMap_cons, source_chars, render, render,
    render_hexDirective (b := a) rfl, render_hexDirective (b := b) rfl] at hprint
  refine hprint.trans (congrArg Except.ok ?_)
  refine congrArg (byteText a ++ ·) (congrArg (byteText b ++ ·) (hback.trans ?_))
  rw [render, List.append_nil]

/-- What the loop prints. -/
theorem printPairs_eq (string : Mem) {sep : UInt8} (hsep : sep ≠ percentCh) (bs : List UInt8) :
    printPairs string sep bs = .ok (pairsText sep bs) := by
  fun_induction printPairs string sep bs with
  | case1 a b c rest ih =>
    rw [kprintf_pair string a b (by simpa using hsep.symm), ih]
    simp [pairsText, bind, Except.bind, pure, Except.pure]
  | case2 a b =>
    have hpair := kprintf_pair string a b (List.not_mem_nil : percentCh ∉ [])
    rwa [List.append_nil, List.append_nil] at hpair
  | case3 bs hmany htwo =>
    rw [pairsText.eq_3 sep bs hmany htwo]
    rfl

/-! ## Reading it again -/

theorem hexDigit_digitChar : ∀ d, d < 16 → hexDigit (digitChar 0x61 d) = some (UInt8.ofNat d) := by
  decide

theorem hexScan_byteText (b : UInt8) (s : List UInt8) :
    hexScan (byteText b ++ s) = ((hexScan s).1, b :: (hexScan s).2) := by
  have hb := b.toNat_lt
  have hvalue : 16 * UInt8.ofNat (b.toNat / 16) + UInt8.ofNat (b.toNat % 16) = b := by
    rw [show (16 : UInt8) = UInt8.ofNat 16 from rfl, ← UInt8.ofNat_mul, ← UInt8.ofNat_add,
      Nat.div_add_mod, UInt8.ofNat_toNat]
  have hscan := hexScan_byte (hexDigit_digitChar (b.toNat / 16) (by omega))
    (hexDigit_digitChar (b.toNat % 16) (by omega)) s
  rwa [hvalue] at hscan

/-- `charToHex` stores the bytes that were printed. -/
theorem hexScan_pairsText {bs : List UInt8} (heven : bs.length % 2 = 0) :
    hexScan (pairsText colon bs) = (true, bs) := by
  fun_induction pairsText colon bs with
  | case1 a b c rest ih =>
    have hrest := ih (by simp only [List.length_cons] at heven ⊢; omega)
    have hcolon : hexScan (colon :: pairsText colon (c :: rest)) = (true, c :: rest) :=
      (hexScan_colons 1 _).trans hrest
    rw [List.append_assoc, hexScan_byteText, hexScan_byteText, hcolon]
  | case2 a b =>
    have hscan := hexScan_byteText b []
    rw [hexScan_byteText, ← List.append_nil (byteText b), hscan]
    rfl
  | case3 bs hmany htwo =>
    cases bs with
    | nil => rfl
    | cons a bs =>
      cases bs with
      | nil => simp at heven
      | cons b bs =>
        cases bs with
        | nil => exact absurd rfl (htwo a b)
        | cons c rest => exact absurd rfl (hmany a b c rest)

/-- It stops at a dot. -/
theorem hexScan_dots (a b c : UInt8) (rest : List UInt8) :
    hexScan (pairsText dotCh (a :: b :: c :: rest)) = (false, [a, b]) := by
  have hdot : hexValue dotCh = none := by decide
  have hstop : hexScan (dotCh :: pairsText dotCh (c :: rest)) = (false, []) := by
    rw [hexScan, if_neg (by decide), hdot]
  rw [pairsText, List.append_assoc, hexScan_byteText, hexScan_byteText, hstop]

/-! ## The forwarding table -/

def fwdTabHeader : List (List UInt8) := [
  chars "\nPrinting Forwarding Table\n", chars "IPv6 Address                              ",
  chars "Len   ", chars "Next Hop IPv6 Address                    ", chars "Iface\n",
  chars "----------------------------------------  ", chars "---  ",
  chars "----------------------------------------  ", chars "------  \n"]

/-- One call after the other. -/
def printAll : List (Except DoprntFault (List UInt8)) → Except DoprntFault (List UInt8)
  | [] => .ok []
  | call :: calls => do
    let text ← call
    let texts ← printAll calls
    return text ++ texts

def printFwdEntry (string : Mem) (e : FwdTabEntry) : List (Except DoprntFault (List UInt8)) := [
  printIpv6 string e.ipAddr, kprintf string (chars "  ") [],
  kprintf string (chars " %3d ") [e.prefixLen.toUInt32], kprintf string (chars "  ") [],
  printIpv6 string e.nextHop, kprintf string (chars "  ") [],
  kprintf string (chars "  %2d  \n") [e.iface.toUInt32]]

/-- The loop of `printFWDTab`. -/
def printFwdEntries (string : Mem) : List FwdTabEntry → List (Except DoprntFault (List UInt8))
  | [] => []
  | e :: es =>
    if e.prefixLen = 0 then [] else printFwdEntry string e ++ printFwdEntries string es

def printFWDTab (string : Mem) (t : FwdTable) : Except DoprntFault (List UInt8) :=
  printAll (fwdTabHeader.map (fun fmt => kprintf string fmt []) ++
    printFwdEntries string t.entries)

theorem printAll_ok (texts : List (List UInt8)) : printAll (texts.map .ok) = .ok texts.flatten := by
  induction texts with
  | nil => rfl
  | cons text texts ih =>
    rw [List.map_cons, printAll, ih]
    rfl

/-- A number in a field of blanks. -/
def numberText (width : Nat) (b : UInt8) : List UInt8 :=
  let text := numeralText 0x61 10 b.toNat
  List.replicate (width - text.length) blankCh ++ text

def numberDirective (width : Fin 10) : Directive := ⟨false, false, .digits [width], none, .d⟩

/-- A byte as an `int`. -/
theorem toInt_byte (b : UInt8) : b.toUInt32.toInt32.toInt = b.toNat := by
  have hb := b.toNat_lt
  have hword : b.toUInt32.toInt32.toUInt32.toNat = b.toNat := UInt8.toNat_toUInt32 b
  rw [toInt_of_not_neg (mt lt_zero_iff.mp (by omega)), hword]

theorem render_numberDirective (width : Fin 10) {env : Printed} {next : Nat} {b : UInt8}
    (h : env.ap next = b.toUInt32) :
    (numberDirective width).render env unsignedText next = numberText width b := by
  have hwidth : ∀ width : Fin 10,
      (clampField (Int32.ofNat (value 10 [width.val]))).toNat = width := by decide
  have hsign : decide ((env.ap next).toInt32 < 0) = false := by
    rw [h, decide_eq_false_iff_not, Int32.lt_iff_toInt_lt, toInt_byte]
    exact Int.not_lt.mpr (Int.natCast_nonneg _)
  have htext : unsignedText (env.ap next).toInt32 = numeralText 0x61 10 b.toNat := by
    rw [h, unsignedText, toInt_byte, Int.natAbs_natCast]
  show justify false blankCh (clampField (Int32.ofNat (value 10 [width.val]))).toNat
    (decide ((env.ap next).toInt32 < 0)) (unsignedText (env.ap next).toInt32) = _
  rw [hsign, htext, hwidth, justify, numberText]
  simp

/-- A format of a number between other characters. -/
theorem kprintf_number (string : Mem) {front back : List UInt8} (hfront : percentCh ∉ front)
    (hback : percentCh ∉ back) {width : Fin 10} (hwidth : width ≠ 0) (b : UInt8) :
    kprintf string (front ++ (Piece.directive (numberDirective width)).source ++ back)
      [b.toUInt32] = .ok (front ++ numberText width b ++ back) := by
  have hdirective : (Piece.directive (numberDirective width)).WellFormed := by
    show (FieldNumber.digits [width]).Width
    simpa [FieldNumber.Width] using hwidth
  have hwell : ∀ piece ∈ front.map Piece.char ++ .directive (numberDirective width) ::
      back.map Piece.char, piece.WellFormed :=
    List.forall_mem_append.mpr ⟨wellFormed_chars front hfront, List.forall_mem_cons.mpr
      ⟨hdirective, wellFormed_chars back hback⟩⟩
  have hrest := render_chars back (printedArgs [b.toUInt32]) unsignedText [] 1
  have hfits := fits_chars back (printedArgs [b.toUInt32]) [] 1
  rw [List.append_nil] at hrest hfits
  have hall : fits (printedArgs [b.toUInt32]) (front.map Piece.char ++
      .directive (numberDirective width) :: back.map Piece.char) 0 = true := by
    rw [fits_chars]
    exact hfits
  have hprint := kprintf_eq string hwell hall
  rw [List.flatMap_append, List.flatMap_cons, source_chars, source_chars, render_chars, render,
    render_numberDirective width (b := b) rfl] at hprint
  rw [List.append_assoc, List.append_assoc, hprint]
  refine congrArg Except.ok (congrArg (front ++ ·) (congrArg (numberText width b ++ ·) ?_))
  exact hrest.trans (by rw [render, List.append_nil])

/-- The line of an entry, without the newline. -/
def fwdLine (e : FwdTabEntry) : List UInt8 :=
  pairsText colon e.ipAddr.toList ++ (chars "   " ++ (numberText 3 e.prefixLen ++ (chars "   " ++
    (pairsText colon e.nextHop.toList ++ (chars "    " ++ (numberText 2 e.iface ++ chars "  "))))))

/-- The entries that a search can reach. -/
def FwdTable.reached (t : FwdTable) : List FwdTabEntry := t.entries.takeWhile (·.prefixLen ≠ 0)

/-- What the calls for an entry print. -/
def fwdTexts (e : FwdTabEntry) : List (List UInt8) := [
  pairsText colon e.ipAddr.toList, chars "  ", chars " " ++ numberText 3 e.prefixLen ++ chars " ",
  chars "  ", pairsText colon e.nextHop.toList, chars "  ",
  chars "  " ++ numberText 2 e.iface ++ chars "  \n"]

theorem printFwdEntry_eq (string : Mem) (e : FwdTabEntry) :
    printFwdEntry string e = (fwdTexts e).map .ok := by
  have hlen : kprintf string (chars " %3d ") [e.prefixLen.toUInt32] =
      .ok (chars " " ++ numberText 3 e.prefixLen ++ chars " ") :=
    kprintf_number string (show percentCh ∉ chars " " by decide)
      (show percentCh ∉ chars " " by decide) (show (3 : Fin 10) ≠ 0 by decide) e.prefixLen
  have hiface : kprintf string (chars "  %2d  \n") [e.iface.toUInt32] =
      .ok (chars "  " ++ numberText 2 e.iface ++ chars "  \n") :=
    kprintf_number string (show percentCh ∉ chars "  " by decide)
      (show percentCh ∉ chars "  \n" by decide) (show (2 : Fin 10) ≠ 0 by decide) e.iface
  have hblank := kprintf_plain string (show percentCh ∉ chars "  " by decide)
  have hpairs := printPairs_eq string (show colon ≠ percentCh by decide)
  rw [fwdTexts, List.map_cons, List.map_cons, List.map_cons, List.map_cons, List.map_cons,
    List.map_cons, List.map_cons, ← hlen, ← hiface, ← hblank, ← hpairs, ← hpairs]
  rfl

theorem flatten_fwdTexts (e : FwdTabEntry) : (fwdTexts e).flatten = fwdLine e ++ [shNewline] := by
  simp only [fwdTexts, fwdLine, List.flatten_cons, List.flatten_nil, List.append_assoc,
    List.append_nil]
  rfl

theorem printFwdEntries_eq (string : Mem) (es : List FwdTabEntry) :
    printFwdEntries string es =
      ((es.takeWhile (·.prefixLen ≠ 0)).flatMap fwdTexts).map .ok := by
  induction es with
  | nil => rfl
  | cons e es ih =>
    by_cases hzero : e.prefixLen = 0
    · rw [printFwdEntries, if_pos hzero]
      simp [hzero]
    · rw [printFwdEntries, if_neg hzero, ih, printFwdEntry_eq, List.takeWhile_cons_of_pos]
      · rw [List.flatMap_cons, List.map_append]
      · simpa using hzero

/-- The whole table: a line for every entry that a search can reach. -/
theorem printFWDTab_eq (string : Mem) (t : FwdTable) :
    printFWDTab string t = .ok (fwdTabHeader.flatten ++
      t.reached.flatMap fun e => fwdLine e ++ [shNewline]) := by
  have hheader : fwdTabHeader.map (fun fmt => kprintf string fmt []) = fwdTabHeader.map .ok := by
    refine List.map_congr_left fun fmt hfmt => kprintf_plain string ?_
    exact (show ∀ fmt ∈ fwdTabHeader, percentCh ∉ fmt by decide) fmt hfmt
  have hlines : ∀ es : List FwdTabEntry, (es.flatMap fwdTexts).flatten =
      es.flatMap fun e => fwdLine e ++ [shNewline] := by
    intro es
    induction es with
    | nil => rfl
    | cons e es ih =>
      rw [List.flatMap_cons, List.flatten_append, flatten_fwdTexts, ih, List.flatMap_cons]
  rw [printFWDTab, hheader, printFwdEntries_eq, ← List.map_append, printAll_ok,
    List.flatten_append, hlines, FwdTable.reached]

end NatBox
