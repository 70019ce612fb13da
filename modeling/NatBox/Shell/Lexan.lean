import Mathlib.Data.List.TakeWhile
import NatBox.Lib.CString

/-
The lexical analyzer of the shell: `lexan`.

A pointer into the line is the list of the characters from it on, up to and with the
newline, so a read behind the newline is a fault, and so is a store behind the end of an
array.  `Tokens` says which tokens a text is made of.  `lexan_tokenizes` is about every line:
the analyzer stays inside its buffers, and where it does not report an error it leaves the
tokens of the line.
-/

namespace NatBox

abbrev shNewline : UInt8 := 10
abbrev shAmper : UInt8 := 38
abbrev shBlank : UInt8 := 32
abbrev shTab : UInt8 := 9
abbrev shSquote : UInt8 := 39
abbrev shDquote : UInt8 := 34
abbrev shLess : UInt8 := 60
abbrev shGreater : UInt8 := 62

/-- `SHELL_BUFLEN`, which is `TY_IBUFLEN+1`, and `SHELL_MAXTOK` -/
abbrev shellBuflen : Nat := 129
abbrev shellMaxtok : Nat := 32

/-- The length of `tokbuf`. -/
abbrev shellArglen : Nat := shellBuflen + shellMaxtok

/-- `SH_TOK_AMPER` and so on -/
inductive ShTokType
  | amper
  | less
  | greater
  | other
  deriving DecidableEq

inductive LexanFault
  | beyondLine
  | tokOverrun
  | tokbufOverrun
  | endlessLoop
  deriving DecidableEq

/-- The arrays that `lexan` fills, and its two counters. -/
structure Lexan where
  tokbuf : Mem
  tlen : Nat
  tok : Nat → Nat
  toktyp : Nat → ShTokType
  ntok : Nat
  tbindex : Nat

/-- `*p` -/
def peek : List UInt8 → Except LexanFault UInt8
  | [] => .error .beyondLine
  | ch :: _ => .ok ch

/-- `tokbuf[tbindex++] = ch` -/
def Lexan.put (s : Lexan) (ch : UInt8) : Except LexanFault Lexan :=
  if s.tbindex < shellArglen then
    .ok { s with tokbuf := s.tokbuf.write s.tbindex [ch], tbindex := s.tbindex + 1 }
  else .error .tokbufOverrun

/-- The entries of the next token: where it starts, and its type. -/
def Lexan.enter (s : Lexan) (typ : ShTokType) : Except LexanFault Lexan :=
  if s.ntok < shellMaxtok then
    .ok { s with
      tok := Function.update s.tok s.ntok s.tbindex
      toktyp := Function.update s.toktyp s.ntok typ }
  else .error .tokOverrun

/-- The token is terminated and counted. -/
def Lexan.finish (s : Lexan) : Except LexanFault Lexan := do
  let s ← s.put nullCh
  .ok { s with ntok := s.ntok + 1 }

def isBlank (ch : UInt8) : Bool := ch = shBlank || ch = shTab

def isQuote (ch : UInt8) : Bool := ch = shSquote || ch = shDquote

/-- The switch on the first character of a token. -/
def operatorType (ch : UInt8) : Option ShTokType :=
  if ch = shAmper then some .amper
  else if ch = shLess then some .less
  else if ch = shGreater then some .greater
  else none

/-- The test of the loop over a quoted string. -/
def inQuotes (quote ch : UInt8) : Bool := ch ≠ quote && ch ≠ shNewline && ch ≠ nullCh

/-- The test of the loop over any other token. -/
def isOrdinary (ch : UInt8) : Bool :=
  ch ≠ shNewline && ch ≠ nullCh && ch ≠ shLess && ch ≠ shGreater && ch ≠ shBlank &&
    ch ≠ shTab && ch ≠ shAmper && ch ≠ shSquote && ch ≠ shDquote

def skipBlanks : List UInt8 → Except LexanFault (List UInt8)
  | [] => .error .beyondLine
  | ch :: p => if isBlank ch then skipBlanks p else .ok (ch :: p)

/-- Both loops that copy characters to `tokbuf`: `p` is left at the first character that
fails the test. -/
def copyWhile (more : UInt8 → Bool) (p : List UInt8) (s : Lexan) :
    Except LexanFault (List UInt8 × Lexan) :=
  match p with
  | [] => .error .beyondLine
  | ch :: p =>
    if more ch then do
      let s ← s.put ch
      copyWhile more p s
    else .ok (ch :: p, s)

/-- The token at `p`, whose first character is `ch`.  It leaves `p`, or `none` where `lexan`
returns `SYSERR`. -/
def nextToken (ch : UInt8) (p : List UInt8) (s : Lexan) :
    Except LexanFault (Option (List UInt8) × Lexan) :=
  match operatorType ch with
  | some typ => do
    let s ← s.enter typ
    let s ← s.put ch
    let s ← s.finish
    .ok (some p.tail, s)
  | none => do
    let s ← s.enter .other
    if isQuote ch then
      let (p, s) ← copyWhile (inQuotes ch) p.tail s
      let last ← peek p
      if last ≠ ch then .ok (none, s)
      else
        let s ← s.finish
        .ok (some p.tail, s)
    else
      let s ← s.put ch
      let (p, s) ← copyWhile isOrdinary p.tail s
      let last ← peek p
      if isQuote last || last = shLess || last = shGreater then .ok (none, s)
      else
        let s ← s.finish
        .ok (some p, s)

/-- The main loop.  Each round that does not end it passes a character at least. -/
def lexanLoop : Nat → List UInt8 → Lexan → Except LexanFault (Option Nat × Lexan)
  | 0, _, _ => .error .endlessLoop
  | fuel + 1, p, s => do
    let ch ← peek p
    if ch = nullCh || ch = shNewline then .ok (some s.ntok, { s with tlen := s.tbindex })
    else if shellMaxtok ≤ s.ntok then .ok (none, s)
    else
      let p ← skipBlanks p
      let ch ← peek p
      if ch = shNewline || ch = nullCh then .ok (some s.ntok, { s with tlen := s.tbindex })
      else
        let (next, s) ← nextToken ch p s
        match next with
        | none => .ok (none, s)
        | some p => lexanLoop fuel p s

/-- `lexan`: the number of tokens, `none` for `SYSERR`, and what the arrays then hold. -/
def lexan (line : List UInt8) (s : Lexan) : Except LexanFault (Option Nat × Lexan) :=
  lexanLoop (line.length + 1) line { s with ntok := 0, tbindex := 0 }

/-! ## What a line is made of -/

inductive ShToken
  | operator (typ : ShTokType) (ch : UInt8)
  | quoted (quote : UInt8) (string : List UInt8)
  | word (string : List UInt8)
  deriving DecidableEq

namespace ShToken

def typ : ShToken → ShTokType
  | operator typ _ => typ
  | quoted _ _ => .other
  | word _ => .other

/-- The string that goes to `tokbuf`. -/
def text : ShToken → List UInt8
  | operator _ ch => [ch]
  | quoted _ string => string
  | word string => string

/-- The characters on the line. -/
def source : ShToken → List UInt8
  | operator _ ch => [ch]
  | quoted quote string => quote :: (string ++ [quote])
  | word string => string

/-- The token is one of the shell's, and in front of `rest` it is a whole one. -/
def InFrontOf (rest : List UInt8) : ShToken → Prop
  | operator typ ch => operatorType ch = some typ
  | quoted quote string => isQuote quote = true ∧ quote ∉ string
  | word string => string ≠ [] ∧ (∀ ch ∈ string, isOrdinary ch = true) ∧
      ∀ ch ∈ rest.head?, isOrdinary ch = false

end ShToken

/-- The text consists of the tokens, and of blanks and tabs between them. -/
inductive Tokens : List UInt8 → List ShToken → Prop
  | nil : Tokens [] []
  | blank {ch : UInt8} {text : List UInt8} {ts : List ShToken} :
      isBlank ch = true → Tokens text ts → Tokens (ch :: text) ts
  | token {t : ShToken} {text : List UInt8} {ts : List ShToken} :
      t.InFrontOf text → Tokens text ts → Tokens (t.source ++ text) (t :: ts)

/-- With the blanks in front of it. -/
theorem Tokens.of_dropWhile {text : List UInt8} {ts : List ShToken}
    (h : Tokens (text.dropWhile isBlank) ts) : Tokens text ts := by
  induction text with
  | nil => exact h
  | cons ch text ih =>
    by_cases hch : isBlank ch = true
    · rw [List.dropWhile_cons_of_pos hch] at h
      exact .blank hch (ih h)
    · rwa [List.dropWhile_cons_of_neg hch] at h

/-- The token that a text begins with, and what is behind it. -/
def firstToken : List UInt8 → Option (ShToken × List UInt8)
  | [] => none
  | ch :: text =>
    match operatorType ch with
    | some typ => some (.operator typ ch, text)
    | none =>
      if isQuote ch then
        some (.quoted ch (text.takeWhile (· ≠ ch)), (text.dropWhile (· ≠ ch)).tail)
      else if isOrdinary ch then
        some (.word (ch :: text.takeWhile isOrdinary), text.dropWhile isOrdinary)
      else none

theorem operatorType_of_quote {ch : UInt8} (h : isQuote ch = true) : operatorType ch = none := by
  unfold isQuote at h
  rw [Bool.or_eq_true, decide_eq_true_iff, decide_eq_true_iff] at h
  rcases h with rfl | rfl
  · rfl
  · rfl

theorem isOrdinary_spec {ch : UInt8} (h : isOrdinary ch = true) :
    operatorType ch = none ∧ isQuote ch = false ∧ isBlank ch = false := by
  simp only [isOrdinary, Bool.and_eq_true, ne_eq, decide_not, Bool.not_eq_true',
    decide_eq_false_iff_not] at h
  simp [operatorType, isQuote, isBlank, h]

theorem firstToken_blank {ch : UInt8} (h : isBlank ch = true) (text : List UInt8) :
    firstToken (ch :: text) = none := by
  unfold isBlank at h
  rw [Bool.or_eq_true, decide_eq_true_iff, decide_eq_true_iff] at h
  rcases h with rfl | rfl
  · rfl
  · rfl

theorem firstToken_eq {t : ShToken} {rest : List UInt8} (h : t.InFrontOf rest) :
    firstToken (t.source ++ rest) = some (t, rest) := by
  cases t with
  | operator typ ch =>
    have hop : operatorType ch = some typ := h
    rw [ShToken.source, List.singleton_append, firstToken, hop]
  | quoted quote string =>
    obtain ⟨hquote, hnone⟩ := h
    have hall : ∀ c ∈ string, decide (c ≠ quote) = true := fun c hc =>
      decide_eq_true fun heq => hnone (heq ▸ hc)
    have hstop : decide (quote ≠ quote) ≠ true := by simp
    rw [ShToken.source, List.cons_append, List.append_assoc, List.singleton_append, firstToken,
      operatorType_of_quote hquote]
    dsimp only
    rw [if_pos hquote, List.takeWhile_append_of_pos hall, List.dropWhile_append_of_pos hall,
      List.takeWhile_cons_of_neg (p := fun c => decide (c ≠ quote)) hstop,
      List.dropWhile_cons_of_neg (p := fun c => decide (c ≠ quote)) hstop, List.append_nil]
    rfl
  | word string =>
    obtain ⟨hne, hall, hmax⟩ := h
    obtain ⟨ch, more, rfl⟩ := List.exists_cons_of_ne_nil hne
    obtain ⟨hop, hquote, -⟩ := isOrdinary_spec (hall ch List.mem_cons_self)
    have hmore : ∀ c ∈ more, isOrdinary c = true := fun c hc =>
      hall c (List.mem_cons_of_mem ch hc)
    have htake : rest.takeWhile isOrdinary = [] ∧ rest.dropWhile isOrdinary = rest := by
      cases rest with
      | nil => exact ⟨rfl, rfl⟩
      | cons c rest =>
        have hc : ¬ isOrdinary c = true := by
          rw [hmax c rfl]
          simp
        exact ⟨List.takeWhile_cons_of_neg hc, List.dropWhile_cons_of_neg hc⟩
    rw [ShToken.source, List.cons_append, firstToken, hop]
    dsimp only
    rw [if_neg (by simp [hquote]), if_pos (hall ch List.mem_cons_self),
      List.takeWhile_append_of_pos hmore, List.dropWhile_append_of_pos hmore, htake.1, htake.2,
      List.append_nil]

/-- What a text that consists of tokens begins with. -/
theorem Tokens.inv {text : List UInt8} {ts : List ShToken} (h : Tokens text ts) :
    (text = [] ∧ ts = []) ∨
    (∃ ch rest, text = ch :: rest ∧ isBlank ch = true ∧ Tokens rest ts) ∨
    ∃ t rest ts', firstToken text = some (t, rest) ∧ ts = t :: ts' ∧ Tokens rest ts' := by
  cases h with
  | nil => exact .inl ⟨rfl, rfl⟩
  | blank hblank hrest => exact .inr (.inl ⟨_, _, rfl, hblank, hrest⟩)
  | token hwhole hrest => exact .inr (.inr ⟨_, _, _, firstToken_eq hwhole, rfl, hrest⟩)

/-- A text has one reading. -/
theorem Tokens.unique {text : List UInt8} {ts us : List ShToken} (h : Tokens text ts)
    (h' : Tokens text us) : us = ts := by
  induction h generalizing us with
  | nil =>
    rcases h'.inv with ⟨-, rfl⟩ | ⟨_, _, hcons, -⟩ | ⟨_, _, _, hfirst, -⟩
    · rfl
    · cases hcons
    · cases hfirst
  | @blank ch text ts hblank _ ih =>
    rcases h'.inv with ⟨hnil, -⟩ | ⟨_, _, hcons, -, hrest⟩ | ⟨_, _, _, hfirst, -⟩
    · cases hnil
    · obtain ⟨-, rfl⟩ := List.cons.inj hcons
      exact ih hrest
    · rw [firstToken_blank hblank] at hfirst
      cases hfirst
  | @token t text ts hwhole _ ih =>
    have hfirst := firstToken_eq hwhole
    rcases h'.inv with ⟨hnil, -⟩ | ⟨_, _, hcons, hblank, -⟩ | ⟨_, _, _, hfirst', rfl, hrest⟩
    · rw [hnil] at hfirst
      cases hfirst
    · rw [hcons, firstToken_blank hblank] at hfirst
      cases hfirst
    · rw [hfirst] at hfirst'
      obtain ⟨rfl, rfl⟩ := Prod.mk.inj (Option.some.inj hfirst')
      rw [ih hrest]

/-! ## The inner loops -/

variable {s : Lexan} {ch stop : UInt8} {ahead : List UInt8} (after : List UInt8)

/-- The characters are stored one behind the other. -/
def Lexan.putAll (s : Lexan) (chars : List UInt8) : Lexan :=
  { s with tokbuf := s.tokbuf.write s.tbindex chars, tbindex := s.tbindex + chars.length }

theorem Lexan.put_ok (h : s.tbindex < shellArglen) (ch : UInt8) :
    s.put ch = .ok (s.putAll [ch]) := if_pos h

theorem Lexan.putAll_nil : s.putAll [] = s := by
  unfold putAll
  rw [Mem.write_nil]
  rfl

theorem Lexan.putAll_append (chars more : List UInt8) :
    (s.putAll chars).putAll more = s.putAll (chars ++ more) := by
  unfold putAll
  dsimp only
  rw [Mem.write_append, List.length_append, Nat.add_assoc]

theorem skipBlanks_eq (hstop : isBlank stop = false) :
    skipBlanks (ahead ++ stop :: after) = .ok (ahead.dropWhile isBlank ++ stop :: after) := by
  induction ahead with
  | nil =>
    rw [List.nil_append, skipBlanks, hstop]
    rfl
  | cons ch ahead ih =>
    rw [List.cons_append, skipBlanks]
    by_cases hch : isBlank ch = true
    · rw [if_pos hch, ih, List.dropWhile_cons_of_pos hch]
    · rw [if_neg hch, List.dropWhile_cons_of_neg hch]
      rfl

/-- The characters up to the first that fails the test are copied, if there is room. -/
theorem copyWhile_eq {more : UInt8 → Bool} (hstop : more stop = false)
    (hroom : s.tbindex + (ahead.takeWhile more).length ≤ shellArglen) :
    copyWhile more (ahead ++ stop :: after) s =
      .ok (ahead.dropWhile more ++ stop :: after, s.putAll (ahead.takeWhile more)) := by
  induction ahead generalizing s with
  | nil =>
    rw [List.nil_append, copyWhile, hstop, if_neg (by simp), List.takeWhile_nil,
      Lexan.putAll_nil]
    rfl
  | cons ch ahead ih =>
    rw [List.cons_append, copyWhile]
    by_cases hch : more ch = true
    · rw [List.takeWhile_cons_of_pos hch, List.length_cons] at hroom
      have hrest := ih (s := s.putAll [ch]) (by
        show s.tbindex + 1 + _ ≤ shellArglen
        omega)
      rw [if_pos hch, Lexan.put_ok (by omega)]
      change copyWhile more (ahead ++ stop :: after) (s.putAll [ch]) = _
      rw [hrest, Lexan.putAll_append, List.dropWhile_cons_of_pos hch,
        List.takeWhile_cons_of_pos hch]
      rfl
    · rw [if_neg hch, List.dropWhile_cons_of_neg hch, List.takeWhile_cons_of_neg hch,
        Lexan.putAll_nil]
      rfl

/-! ## One token -/

/-- The token has been entered, stored and counted. -/
def Lexan.store (s : Lexan) (t : ShToken) : Lexan :=
  { s with
    tokbuf := s.tokbuf.write s.tbindex (t.text ++ [nullCh])
    tok := Function.update s.tok s.ntok s.tbindex
    toktyp := Function.update s.toktyp s.ntok t.typ
    ntok := s.ntok + 1
    tbindex := s.tbindex + (t.text ++ [nullCh]).length }

/-- The entries of the token are made. -/
def Lexan.entered (s : Lexan) (typ : ShTokType) : Lexan :=
  { s with
    tok := Function.update s.tok s.ntok s.tbindex
    toktyp := Function.update s.toktyp s.ntok typ }

theorem Lexan.ok_bind {α β : Type} (a : α) (f : α → Except LexanFault β) :
    (Except.ok a >>= f) = f a := rfl

theorem Lexan.put_entered (h : s.tbindex < shellArglen) (typ : ShTokType) (ch : UInt8) :
    (s.entered typ).put ch = .ok ((s.entered typ).putAll [ch]) :=
  put_ok (s := s.entered typ) h ch

theorem Lexan.finish_store {t : ShToken} {string : List UInt8} (hstring : t.text = string)
    (hroom : s.tbindex + string.length < shellArglen) :
    ((s.entered t.typ).putAll string).finish = .ok (s.store t) := by
  have hput := put_ok (s := (s.entered t.typ).putAll string) hroom nullCh
  rw [finish, hput, putAll_append, ← hstring]
  rfl

theorem isOrdinary_of_other (hop : operatorType ch = none) (hquote : isQuote ch = false)
    (hblank : isBlank ch = false) (hend : ch ≠ shNewline ∧ ch ≠ nullCh) :
    isOrdinary ch = true := by
  unfold operatorType at hop
  split_ifs at hop with hamper hless hgreater
  unfold isQuote at hquote
  unfold isBlank at hblank
  rw [Bool.or_eq_false_iff, decide_eq_false_iff_not, decide_eq_false_iff_not] at hquote hblank
  simp [isOrdinary, hamper, hless, hgreater, hquote, hblank, hend]

/-- What ends a line is no character of another kind. -/
theorem stop_spec (hstop : stop = shNewline ∨ stop = nullCh) :
    isBlank stop = false ∧ isQuote stop = false ∧ isOrdinary stop = false ∧
      ∀ quote, inQuotes quote stop = false := by
  rcases hstop with rfl | rfl
  · exact ⟨rfl, rfl, rfl, fun quote => by simp [inQuotes]⟩
  · exact ⟨rfl, rfl, rfl, fun quote => by simp [inQuotes]⟩

section NextToken

variable (hstop : stop = shNewline ∨ stop = nullCh)
  (hplain : ∀ c ∈ ahead, c ≠ shNewline ∧ c ≠ nullCh)
  (hslot : s.ntok < shellMaxtok) (hroom : s.tbindex + (ahead.length + 1) < shellArglen)

include hslot hroom in
theorem nextToken_operator {typ : ShTokType} (hop : operatorType ch = some typ) :
    nextToken ch (ch :: (ahead ++ stop :: after)) s =
      .ok (some (ahead ++ stop :: after), s.store (.operator typ ch)) := by
  have henter : s.enter typ = .ok (s.entered typ) := if_pos hslot
  have hput := Lexan.put_entered (Nat.lt_of_le_of_lt (Nat.le_add_right _ _) hroom) typ ch
  have hfinish : ((s.entered typ).putAll [ch]).finish = .ok (s.store (.operator typ ch)) :=
    Lexan.finish_store (t := .operator typ ch) rfl (by
      rw [List.length_singleton]
      omega)
  unfold nextToken
  rw [hop]
  dsimp only
  rw [henter, Lexan.ok_bind, hput, Lexan.ok_bind, hfinish]
  rfl

include hstop hplain hslot hroom

/-- A quoted string ends at its quote.  The line may end first. -/
theorem nextToken_quoted (hop : operatorType ch = none) (hquote : isQuote ch = true) :
    (∃ s', nextToken ch (ch :: (ahead ++ stop :: after)) s = .ok (none, s')) ∨
    ∃ string rest, ahead = string ++ ch :: rest ∧ ch ∉ string ∧
      nextToken ch (ch :: (ahead ++ stop :: after)) s =
        .ok (some (rest ++ stop :: after), s.store (.quoted ch string)) := by
  have henter : s.enter .other = .ok (s.entered .other) := if_pos hslot
  obtain ⟨-, hother, -, hends⟩ := stop_spec hstop
  have hlen : (ahead.takeWhile (inQuotes ch)).length ≤ ahead.length :=
    (List.takeWhile_sublist _).length_le
  have hcopy := copyWhile_eq (s := s.entered .other) after (hends ch)
    (show s.tbindex + (ahead.takeWhile (inQuotes ch)).length ≤ shellArglen by omega)
  have hsplit := List.takeWhile_append_dropWhile (p := inQuotes ch) (l := ahead)
  unfold nextToken
  rw [hop]
  dsimp only
  rw [henter, Lexan.ok_bind, if_pos hquote, List.tail_cons, hcopy, Lexan.ok_bind]
  dsimp only
  cases hrest : ahead.dropWhile (inQuotes ch) with
  | nil =>
    left
    rw [List.nil_append, peek, Lexan.ok_bind, if_pos]
    · exact ⟨_, rfl⟩
    · rintro rfl
      exact Bool.noConfusion (hother.symm.trans hquote)
  | cons c rest =>
    right
    have hc : inQuotes ch c = false := by
      have hhead := List.head?_dropWhile_not (inQuotes ch) ahead
      rw [hrest] at hhead
      simpa using hhead
    have hcmem : c ∈ ahead := by
      rw [← hsplit, hrest]
      exact List.mem_append_right _ List.mem_cons_self
    have heq : c = ch := by
      by_contra hne
      simp [inQuotes, hne, hplain c hcmem] at hc
    subst heq
    rw [hrest] at hsplit
    refine ⟨_, rest, hsplit.symm, fun hmem => ?_, ?_⟩
    · have := List.mem_takeWhile_imp hmem
      simp [inQuotes] at this
    · have hfinish : ((s.entered .other).putAll (ahead.takeWhile (inQuotes c))).finish =
          .ok (s.store (.quoted c (ahead.takeWhile (inQuotes c)))) :=
        Lexan.finish_store (t := .quoted c _) rfl (by omega)
      rw [List.cons_append, peek, Lexan.ok_bind, if_neg (not_not.mpr rfl), hfinish]
      rfl

omit hplain in
/-- Any other token is a maximal run of ordinary characters. -/
theorem nextToken_word (hop : operatorType ch = none) (hquote : isQuote ch = false)
    (hch : isOrdinary ch = true) :
    (∃ s', nextToken ch (ch :: (ahead ++ stop :: after)) s = .ok (none, s')) ∨
    ∃ string rest, ahead = string ++ rest ∧ (ShToken.word (ch :: string)).InFrontOf rest ∧
      nextToken ch (ch :: (ahead ++ stop :: after)) s =
        .ok (some (rest ++ stop :: after), s.store (.word (ch :: string))) := by
  have henter : s.enter .other = .ok (s.entered .other) := if_pos hslot
  have hput := Lexan.put_entered (Nat.lt_of_le_of_lt (Nat.le_add_right _ _) hroom) .other ch
  have hend := (stop_spec hstop).2.2.1
  have hlen : (ahead.takeWhile isOrdinary).length ≤ ahead.length :=
    (List.takeWhile_sublist _).length_le
  have hcopy := copyWhile_eq (s := (s.entered .other).putAll [ch]) after hend
    (show s.tbindex + 1 + (ahead.takeWhile isOrdinary).length ≤ shellArglen by omega)
  rw [Lexan.putAll_append] at hcopy
  have hsplit := List.takeWhile_append_dropWhile (p := isOrdinary) (l := ahead)
  unfold nextToken
  rw [hop]
  dsimp only
  rw [henter, Lexan.ok_bind, if_neg (by simp [hquote]), hput, Lexan.ok_bind, List.tail_cons, hcopy,
    Lexan.ok_bind]
  dsimp only
  obtain ⟨last, more, hlast⟩ : ∃ last more,
      ahead.dropWhile isOrdinary ++ stop :: after = last :: more :=
    List.exists_cons_of_ne_nil (by simp)
  rw [hlast, peek, Lexan.ok_bind]
  split
  · exact .inl ⟨_, rfl⟩
  · right
    refine ⟨_, _, hsplit.symm, ⟨by simp, ?_, fun c hc => ?_⟩, ?_⟩
    · intro c hc
      rcases List.mem_cons.mp hc with rfl | hc
      · exact hch
      · exact List.mem_takeWhile_imp hc
    · have hhead := List.head?_dropWhile_not isOrdinary ahead
      rw [hc] at hhead
      simpa using hhead
    · have hfinish : ((s.entered .other).putAll ([ch] ++ ahead.takeWhile isOrdinary)).finish =
          .ok (s.store (.word (ch :: ahead.takeWhile isOrdinary))) :=
        Lexan.finish_store (t := .word _) rfl (by
          rw [List.length_append, List.length_singleton]
          omega)
      rw [hlast, hfinish]
      rfl

/-- Nothing goes wrong, and where no error is reported a token of the line is stored. -/
theorem nextToken_spec (hblank : isBlank ch = false) (hend : ch ≠ shNewline ∧ ch ≠ nullCh) :
    (∃ s', nextToken ch (ch :: (ahead ++ stop :: after)) s = .ok (none, s')) ∨
    ∃ t rest, ch :: ahead = ShToken.source t ++ rest ∧ t.InFrontOf rest ∧
      nextToken ch (ch :: (ahead ++ stop :: after)) s =
        .ok (some (rest ++ stop :: after), s.store t) := by
  cases hop : operatorType ch with
  | some typ =>
    exact .inr ⟨.operator typ ch, ahead, rfl, hop, nextToken_operator after hslot hroom hop⟩
  | none =>
    cases hquote : isQuote ch with
    | true =>
      rcases nextToken_quoted after hstop hplain hslot hroom hop hquote with herr |
        ⟨string, rest, hsplit, hnone, hnext⟩
      · exact .inl herr
      · refine .inr ⟨.quoted ch string, rest, ?_, ⟨hquote, hnone⟩, hnext⟩
        rw [hsplit]
        simp [ShToken.source]
    | false =>
      have hch := isOrdinary_of_other hop hquote hblank hend
      rcases nextToken_word after hstop hslot hroom hop hquote hch with herr |
        ⟨string, rest, hsplit, hwhole, hnext⟩
      · exact .inl herr
      · refine .inr ⟨.word (ch :: string), rest, ?_, hwhole, hnext⟩
        rw [hsplit]
        rfl

end NextToken

/-! ## The arrays -/

open CString

/-- The tokens found so far are in the arrays. -/
structure Lexan.Row (s : Lexan) (ts : List ShToken) : Prop where
  ntok : s.ntok = ts.length
  tbindex : s.tbindex = (packed (ts.map ShToken.text)).length
  tokbuf : s.tokbuf.read 0 s.tbindex = packed (ts.map ShToken.text)
  tok : ∀ i, i < ts.length → s.tok i = start (ts.map ShToken.text) i
  toktyp : ∀ i t, ts[i]? = some t → s.toktyp i = t.typ

theorem Lexan.Row.store {ts : List ShToken} (h : s.Row ts) (t : ShToken) :
    (s.store t).Row (ts ++ [t]) := by
  have hmap : (ts ++ [t]).map ShToken.text = ts.map ShToken.text ++ [t.text] := by
    rw [List.map_append, List.map_singleton]
  refine ⟨?_, ?_, ?_, fun i hi => ?_, fun i u hu => ?_⟩
  · rw [List.length_append, List.length_singleton, ← h.ntok]
    rfl
  · rw [hmap, packed_concat, List.length_append, ← h.tbindex]
    rfl
  · show (s.tokbuf.write s.tbindex (t.text ++ [nullCh])).read 0
      (s.tbindex + (t.text ++ [nullCh]).length) = _
    rw [hmap, packed_concat, Mem.read_add, Nat.zero_add, Mem.read_write_self,
      Mem.read_write_of_disjoint (.inl (Nat.le_of_eq (Nat.zero_add _))), h.tokbuf]
  · show Function.update s.tok s.ntok s.tbindex i = _
    rw [List.length_append, List.length_singleton] at hi
    rw [hmap, start_append (by rw [List.length_map]; omega)]
    rcases Nat.lt_succ_iff_lt_or_eq.mp hi with hlt | heq
    · rw [Function.update_of_ne (by rw [h.ntok]; omega), h.tok i hlt]
    · have hlast := start_length (ts.map ShToken.text)
      rw [List.length_map, ← h.tbindex] at hlast
      rw [heq, hlast, ← h.ntok, Function.update_self]
  · show Function.update s.toktyp s.ntok t.typ i = _
    rcases Nat.lt_or_ge i ts.length with hlt | hge
    · rw [List.getElem?_append_left hlt] at hu
      rw [Function.update_of_ne (by rw [h.ntok]; omega), h.toktyp i u hu]
    · rw [List.getElem?_append_right hge] at hu
      have hone := (List.getElem?_eq_some_iff.mp hu).1
      rw [List.length_singleton] at hone
      obtain rfl : i = ts.length := by omega
      rw [Nat.sub_self] at hu
      rw [← h.ntok, Function.update_self, ← Option.some.inj hu]

theorem Lexan.Row.done {ts : List ShToken} (h : s.Row ts) :
    ({ s with tlen := s.tbindex } : Lexan).Row ts :=
  ⟨h.ntok, h.tbindex, h.tokbuf, h.tok, h.toktyp⟩

theorem ShToken.length_text_le (t : ShToken) : t.text.length ≤ t.source.length := by
  cases t with
  | operator typ ch => exact Nat.le_refl _
  | quoted quote string =>
    rw [text, source, List.length_cons, List.length_append]
    omega
  | word string => exact Nat.le_refl _

theorem ShToken.length_source_pos {t : ShToken} {rest : List UInt8} (h : t.InFrontOf rest) :
    0 < t.source.length := by
  cases t with
  | operator typ ch => exact Nat.succ_pos _
  | quoted quote string => exact Nat.succ_pos _
  | word string => exact List.length_pos_of_ne_nil h.1

/-! ## The main loop -/

/-- What a round does: it reports an error, or comes to the end of the text, or stores the
token behind the blanks. -/
theorem lexanLoop_round (hstop : stop = shNewline ∨ stop = nullCh)
    (hplain : ∀ c ∈ ahead, c ≠ shNewline ∧ c ≠ nullCh)
    (hroom : s.tbindex + ahead.length < shellBuflen + s.ntok) (fuel : Nat) :
    (∃ s', lexanLoop (fuel + 1) (ahead ++ stop :: after) s = .ok (none, s')) ∨
    (Tokens ahead [] ∧ lexanLoop (fuel + 1) (ahead ++ stop :: after) s =
      .ok (some s.ntok, { s with tlen := s.tbindex })) ∨
    ∃ t rest, ahead.dropWhile isBlank = ShToken.source t ++ rest ∧ t.InFrontOf rest ∧
      s.ntok < shellMaxtok ∧ lexanLoop (fuel + 1) (ahead ++ stop :: after) s =
        lexanLoop fuel (rest ++ stop :: after) (s.store t) := by
  rw [lexanLoop]
  cases ahead with
  | nil =>
    rw [List.nil_append, peek, Lexan.ok_bind, if_pos (by simp [hstop.symm])]
    exact .inr (.inl ⟨.nil, rfl⟩)
  | cons c cs =>
    have hc := hplain c List.mem_cons_self
    rw [List.cons_append, peek, Lexan.ok_bind, if_neg (by simp [hc])]
    by_cases hfull : shellMaxtok ≤ s.ntok
    · rw [if_pos hfull]
      exact .inl ⟨s, rfl⟩
    · rw [if_neg hfull, ← List.cons_append, skipBlanks_eq after (stop_spec hstop).1,
        Lexan.ok_bind]
      have hsub := List.dropWhile_sublist isBlank (l := c :: cs)
      cases hrest : (c :: cs).dropWhile isBlank with
      | nil =>
        have htokens : Tokens (c :: cs) [] := .of_dropWhile (hrest ▸ .nil)
        rw [List.nil_append, peek, Lexan.ok_bind, if_pos (by simp [hstop])]
        exact .inr (.inl ⟨htokens, rfl⟩)
      | cons d ds =>
        rw [hrest] at hsub
        have hlen := hsub.length_le
        rw [List.length_cons] at hlen
        have hd := hplain d (hsub.subset List.mem_cons_self)
        have hdblank : isBlank d = false := by
          have hhead := List.head?_dropWhile_not isBlank (c :: cs)
          rw [hrest] at hhead
          simpa using hhead
        have hslot := Nat.not_le.mp hfull
        rw [List.cons_append, peek, Lexan.ok_bind, if_neg (by simp [hd])]
        rcases nextToken_spec after hstop
          (fun x hx => hplain x (hsub.subset (List.mem_cons_of_mem d hx))) hslot
          (show s.tbindex + (ds.length + 1) < shellArglen by
            unfold shellArglen shellBuflen shellMaxtok at *
            omega) hdblank hd with ⟨s', herr⟩ | ⟨t, rest, hsplit, hwhole, hnext⟩
        · rw [herr]
          exact .inl ⟨s', rfl⟩
        · rw [hnext, Lexan.ok_bind]
          exact .inr (.inr ⟨t, rest, hsplit, hwhole, hslot, rfl⟩)

/-- Each token takes one byte more than its characters, and there are at most
`SHELL_MAXTOK`. -/
theorem lexanLoop_spec (hstop : stop = shNewline ∨ stop = nullCh) {ts : List ShToken}
    (hplain : ∀ c ∈ ahead, c ≠ shNewline ∧ c ≠ nullCh) (hrow : s.Row ts)
    (hcount : ts.length ≤ shellMaxtok)
    (hroom : s.tbindex + ahead.length < shellBuflen + s.ntok) {fuel : Nat}
    (hfuel : ahead.length < fuel) :
    ∃ r s', lexanLoop fuel (ahead ++ stop :: after) s = .ok (r, s') ∧
      ∀ n, r = some n → ∃ ts', Tokens ahead ts' ∧ (ts ++ ts').length = n ∧ n ≤ shellMaxtok ∧
        s'.Row (ts ++ ts') ∧ s'.tlen = s'.tbindex ∧ s'.tbindex < shellBuflen + n := by
  induction fuel generalizing s ts ahead with
  | zero => exact absurd hfuel (Nat.not_lt_zero _)
  | succ fuel ih =>
    rcases lexanLoop_round after hstop hplain hroom fuel with ⟨s', herr⟩ | ⟨htokens, hend⟩ |
      ⟨t, rest, hsplit, hwhole, hslot, hnext⟩
    · exact ⟨none, s', herr, fun n hn => by cases hn⟩
    · refine ⟨some s.ntok, _, hend, fun n hn => ⟨[], htokens, ?_⟩⟩
      obtain rfl := Option.some.inj hn
      rw [List.append_nil]
      exact ⟨hrow.ntok.symm, hrow.ntok ▸ hcount, hrow.done, rfl,
        Nat.lt_of_le_of_lt (Nat.le_add_right _ _) hroom⟩
    · have hsub : (t.source ++ rest).Sublist ahead := hsplit ▸ List.dropWhile_sublist isBlank
      have hlen := hsub.length_le
      have hpos := ShToken.length_source_pos hwhole
      have htext := t.length_text_le
      rw [List.length_append] at hlen
      have hroom' : (s.store t).tbindex + rest.length < shellBuflen + (s.store t).ntok := by
        show s.tbindex + (t.text ++ [nullCh]).length + rest.length < shellBuflen + (s.ntok + 1)
        rw [List.length_append, List.length_singleton]
        omega
      have hcount' : (ts ++ [t]).length ≤ shellMaxtok := by
        rw [List.length_append, List.length_singleton, ← hrow.ntok]
        exact hslot
      obtain ⟨r, s', hloop, hresult⟩ := ih
        (fun c hc => hplain c (hsub.subset (List.mem_append_right _ hc))) (hrow.store t) hcount'
        hroom' (by omega)
      refine ⟨r, s', hnext.trans hloop, fun n hn => ?_⟩
      obtain ⟨ts', htokens, hn', hmax, hrow', htlen⟩ := hresult n hn
      rw [List.append_assoc, List.singleton_append] at hn' hrow'
      refine ⟨t :: ts', .of_dropWhile ?_, hn', hmax, hrow', htlen⟩
      rw [hsplit]
      exact .token hwhole htokens

/-! ## `lexan` -/

/-- The tokens as the caller finds them: each a null-terminated string at its index, the next
behind its null, and `tlen` behind the last. -/
structure Lexan.HoldsTokens (s : Lexan) (ts : List ShToken) : Prop where
  string : ∀ i t, ts[i]? = some t →
    nullCh ∉ t.text ∧ s.tokbuf.read (s.tok i) (t.text.length + 1) = t.text ++ [nullCh]
  first : ∀ t ∈ ts[0]?, s.tok 0 = 0
  next : ∀ i t u, ts[i]? = some t → ts[i + 1]? = some u →
    s.tok (i + 1) = s.tok i + t.text.length + 1
  last : ∀ i t, ts[i]? = some t → ts.length = i + 1 → s.tlen = s.tok i + t.text.length + 1
  none : ts = [] → s.tlen = 0
  typ : ∀ i t, ts[i]? = some t → s.toktyp i = t.typ

/-- A token is made of characters of the text. -/
theorem Tokens.nonnull {text : List UInt8} {ts : List ShToken} (h : Tokens text ts)
    (hnull : nullCh ∉ text) : ∀ t ∈ ts, nullCh ∉ t.text := by
  induction h with
  | nil => exact fun t ht => absurd ht List.not_mem_nil
  | blank _ _ ih => exact ih fun hmem => hnull (List.mem_cons_of_mem _ hmem)
  | @token t text ts _ _ ih =>
    intro u hu
    rcases List.mem_cons.mp hu with rfl | hu
    · refine fun hmem => hnull (List.mem_append_left _ ?_)
      cases u with
      | operator typ ch => exact hmem
      | quoted quote string => exact List.mem_cons_of_mem _ (List.mem_append_left _ hmem)
      | word string => exact hmem
    · exact ih (fun hmem => hnull (List.mem_append_right _ hmem)) u hu

theorem Lexan.Row.holdsTokens {ts : List ShToken} (h : s.Row ts) (htlen : s.tlen = s.tbindex)
    (hnull : ∀ t ∈ ts, nullCh ∉ t.text) : s.HoldsTokens ts := by
  have hbuf := h.tokbuf
  rw [h.tbindex] at hbuf
  have htext : ∀ i t, ts[i]? = some t → i < ts.length ∧
      (ts.map ShToken.text)[i]? = some t.text := fun i t ht =>
    ⟨(List.getElem?_eq_some_iff.mp ht).1, by rw [List.getElem?_map, ht]; rfl⟩
  refine ⟨fun i t ht => ⟨hnull t (List.mem_of_getElem? ht), ?_⟩, fun t ht => ?_,
    fun i t u ht hu => ?_, fun i t ht hlast => ?_, fun hnil => ?_, h.toktyp⟩
  · rw [h.tok i (htext i t ht).1]
    exact read_start hbuf (htext i t ht).2
  · exact h.tok 0 (htext 0 t ht).1
  · rw [h.tok _ (htext _ u hu).1, h.tok i (htext i t ht).1]
    exact start_succ (htext i t ht).2
  · have hend := start_length (ts.map ShToken.text)
    rw [List.length_map, hlast, start_succ (htext i t ht).2] at hend
    rw [htlen, h.tbindex, h.tok i (htext i t ht).1, hend]
  · rw [htlen, h.tbindex, hnil]
    rfl

/-- A line ends at its newline, or before it at a null. -/
theorem exists_stop (text : List UInt8) : ∃ stop after,
    (stop = shNewline ∨ stop = nullCh) ∧
    text ++ [shNewline] = text.takeWhile (· ≠ nullCh) ++ stop :: after := by
  have hsplit := List.takeWhile_append_dropWhile (p := (· ≠ nullCh)) (l := text)
  cases hrest : text.dropWhile (· ≠ nullCh) with
  | nil =>
    refine ⟨shNewline, [], .inl rfl, ?_⟩
    rw [hrest, List.append_nil] at hsplit
    rw [hsplit]
  | cons c rest =>
    have hhead := List.head?_dropWhile_not (· ≠ nullCh) text
    rw [hrest] at hhead
    refine ⟨c, rest ++ [shNewline], .inr (by simpa using hhead), ?_⟩
    rw [← List.cons_append, ← List.append_assoc, ← hrest, hsplit]

/-- On every line that fits the buffer of the shell, `lexan` reads nothing behind the newline
and stores nothing behind the end of an array; and if it returns a number of tokens, the
arrays hold the tokens of the line, which a null ends as the newline does. -/
theorem lexan_tokenizes {text : List UInt8} (hline : shNewline ∉ text)
    (hlen : text.length + 1 ≤ shellBuflen) (s : Lexan) :
    ∃ r s', lexan (text ++ [shNewline]) s = .ok (r, s') ∧
      ∀ n, r = some n → n ≤ shellMaxtok ∧ s'.tlen ≤ shellArglen ∧
        ∃ ts, (∀ us, Tokens (text.takeWhile (· ≠ nullCh)) us ↔ us = ts) ∧ ts.length = n ∧
          s'.HoldsTokens ts := by
  obtain ⟨stop, after, hstop, hsplit⟩ := exists_stop text
  have hsub := List.takeWhile_sublist (l := text) (· ≠ nullCh)
  have hshort := hsub.length_le
  have hnull : nullCh ∉ text.takeWhile (· ≠ nullCh) := fun hmem => by
    have := List.mem_takeWhile_imp hmem
    simp at this
  have hstart : ({ s with ntok := 0, tbindex := 0 } : Lexan).Row [] :=
    ⟨rfl, rfl, rfl, fun i hi => absurd hi (Nat.not_lt_zero i), fun i t ht => by cases ht⟩
  obtain ⟨r, s', hloop, hresult⟩ := lexanLoop_spec after hstop
    (fun c hc => ⟨fun h => hline (h ▸ hsub.subset hc), fun h => hnull (h ▸ hc)⟩) hstart
    (Nat.zero_le _) (show 0 + (text.takeWhile (· ≠ nullCh)).length < shellBuflen + 0 by omega)
    (show _ < (text ++ [shNewline]).length + 1 by
      rw [List.length_append]
      omega)
  rw [← hsplit] at hloop
  refine ⟨r, s', hloop, fun n hn => ?_⟩
  obtain ⟨ts, htokens, hn', hmax, hrow, htlen, hroom⟩ := hresult n hn
  rw [List.nil_append] at hn' hrow
  refine ⟨hmax, ?_, ts, fun us => ⟨fun h => htokens.unique h, fun h => h ▸ htokens⟩, hn',
    hrow.holdsTokens htlen (htokens.nonnull hnull)⟩
  rw [htlen]
  exact hroom.le.trans (Nat.add_le_add_left hmax shellBuflen)

def clearLexan : Lexan := ⟨fun _ => 0, 0, fun _ => 0, fun _ => .other, 0, 0⟩

/-- `ls > 'a b' &` -/
def redirectedLine : List UInt8 := [108, 115, 32, 62, 32, 39, 97, 32, 98, 39, 32, 38]

theorem lexan_tokenizes_redirected : ∃ s' ts,
    lexan (redirectedLine ++ [shNewline]) clearLexan = .ok (some 4, s') ∧ ts.length = 4 ∧
      Tokens redirectedLine ts ∧ s'.HoldsTokens ts := by
  obtain ⟨r, s', hok, hresult⟩ :=
    lexan_tokenizes (show shNewline ∉ redirectedLine by decide) (by decide) clearLexan
  have hr : (lexan (redirectedLine ++ [shNewline]) clearLexan).map Prod.fst = .ok (some 4) := rfl
  rw [hok] at hr
  obtain rfl : r = some 4 := Except.ok.inj hr
  obtain ⟨-, -, ts, htokens, hlen, hholds⟩ := hresult 4 rfl
  exact ⟨s', ts, hok, hlen, (htokens ts).mpr rfl, hholds⟩

/-- No token begins with a null, so what follows one is lost. -/
theorem lexan_stops_at_null : ¬ ∀ (text : List UInt8) (s : Lexan), shNewline ∉ text →
    text.length + 1 ≤ shellBuflen → ∃ r s', lexan (text ++ [shNewline]) s = .ok (r, s') ∧
      ∀ n, r = some n → n ≤ shellMaxtok ∧ s'.tlen ≤ shellArglen ∧
        ∃ ts, Tokens text ts ∧ ts.length = n ∧ s'.HoldsTokens ts := by
  intro h
  obtain ⟨r, s', hok, hresult⟩ := h [97, nullCh, 98] clearLexan (by decide) (by decide)
  have hr : (lexan [97, nullCh, 98, shNewline] clearLexan).map Prod.fst = .ok (some 1) := rfl
  rw [show [97, nullCh, 98, shNewline] = [97, nullCh, 98] ++ [shNewline] from rfl, hok] at hr
  obtain ⟨-, -, ts, htokens, -⟩ := hresult 1 (Except.ok.inj hr)
  rcases htokens.inv with ⟨hnil, -⟩ | ⟨_, _, hcons, hblank, -⟩ | ⟨t, rest, _, hfirst, -, hrest⟩
  · cases hnil
  · obtain ⟨rfl, -⟩ := List.cons.inj hcons
    exact absurd hblank (by decide)
  · obtain ⟨-, rfl⟩ := Prod.mk.inj (Option.some.inj
      (show some (ShToken.word [97], [nullCh, 98]) = some (t, rest) from hfirst))
    rcases hrest.inv with ⟨hnil, -⟩ | ⟨_, _, hcons, hblank, -⟩ | ⟨_, _, _, hfirst, -⟩
    · cases hnil
    · obtain ⟨rfl, -⟩ := List.cons.inj hcons
      exact absurd hblank (by decide)
    · exact absurd hfirst (by rw [show firstToken [nullCh, 98] = none from rfl]; simp)

end NatBox
