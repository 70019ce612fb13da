import Mathlib.Data.List.Forall2
import NatBox.Shell.Lexan

/-
From the tokens of a line to a command: the middle part of `shell`.

`CommandLine` is the syntax that the comment in front of `shell` gives,
`command_name [args*] [redirection] [&]` with either or both of the redirections.
`shellParse_sound` and `shellParse_complete` say that the shell takes the lines of that syntax
and no others, and what it takes from them.
-/

namespace NatBox

open CString

/-! ## The table of commands -/

def chars (s : String) : List UInt8 := s.toList.map fun c => c.toNat.toUInt8

/-- `struct cmdent`, less the function: the index in the table stands for it. -/
structure Cmdent where
  cname : List UInt8
  cbuiltin : Bool

def cmdtab : List Cmdent := [
  ⟨chars "argecho", true⟩, ⟨chars "arp", false⟩, ⟨chars "cat", false⟩, ⟨chars "clear", true⟩,
  ⟨chars "date", false⟩, ⟨chars "devdump", false⟩, ⟨chars "echo", false⟩,
  ⟨chars "exit", true⟩, ⟨chars "help", false⟩, ⟨chars "kill", true⟩, ⟨chars "memdump", false⟩,
  ⟨chars "memstat", false⟩, ⟨chars "netinfo", false⟩, ⟨chars "pdump", false⟩,
  ⟨chars "ping", false⟩, ⟨chars "ps", false⟩, ⟨chars "sleep", false⟩, ⟨chars "sp", false⟩,
  ⟨chars "udp", false⟩, ⟨chars "udpecho", false⟩, ⟨chars "udpeserver", false⟩,
  ⟨chars "uptime", false⟩, ⟨chars "sendpkt", false⟩, ⟨chars "sendpacket", false⟩,
  ⟨chars "sendradvert", false⟩, ⟨chars "sendrsolicit", false⟩, ⟨chars "sendnsolicit", false⟩,
  ⟨chars "sendnadvert", false⟩, ⟨chars "sendecho", false⟩, ⟨chars "printndcache", false⟩,
  ⟨chars "printfwd", false⟩, ⟨chars "addfwd", false⟩, ⟨chars "addnd", false⟩,
  ⟨chars "printnat", false⟩, ⟨chars "ipv6info", false⟩, ⟨chars "?", false⟩]

/-- The comparison of a name with the string at `cmp`. -/
def sameCommand (tokbuf : Mem) : List UInt8 → Nat → Bool
  | [], cmp => tokbuf cmp = nullCh
  | ch :: src, cmp => tokbuf cmp = ch && sameCommand tokbuf src (cmp + 1)

/-- The index of the first token in the table. -/
def lookupCommand (tokbuf : Mem) : Option Nat :=
  cmdtab.findIdx? fun cmd => sameCommand tokbuf cmd.cname 0

/-! ## The tokens behind the arguments -/

/-- The variables of `shell` about the line.  A file name is the index of its string in
`tokbuf`, `none` for `NULL`. -/
structure ShellLine where
  ntok : Nat
  tlen : Nat
  backgnd : Bool
  inname : Option Nat
  outname : Option Nat

/-- Both tests for a redirection: the first time there is no name yet.  `none` where the shell
reports a syntax error. -/
def shellRedirect (s : Lexan) (line : ShellLine) : Option ShellLine :=
  if 3 ≤ line.ntok ∧
      (s.toktyp (line.ntok - 2) = .less ∨ s.toktyp (line.ntok - 2) = .greater) then
    if s.toktyp (line.ntok - 1) ≠ .other then none
    else
      let name := some (s.tok (line.ntok - 1))
      let rest := { line with ntok := line.ntok - 2, tlen := s.tok (line.ntok - 2) }
      if s.toktyp (line.ntok - 2) = .less then
        if line.inname ≠ none then none else some { rest with inname := name }
      else
        if line.outname ≠ none then none else some { rest with outname := name }
  else some line

/-- The test for the ampersand. -/
def shellAmper (s : Lexan) (ntok : Nat) : ShellLine :=
  if s.toktyp (ntok - 1) = .amper then ⟨ntok - 1, s.tlen - 2, true, none, none⟩
  else ⟨ntok, s.tlen, false, none, none⟩

/-- From `ntok` tokens, at least one. -/
def shellParse (s : Lexan) (ntok : Nat) : Option ShellLine := do
  let line ← shellRedirect s (shellAmper s ntok)
  let line ← shellRedirect s line
  if line.ntok = 0 ∨ (List.range line.ntok).any (s.toktyp · ≠ .other) then none
  else some line

/-- What `shell` does with a line of tokens. -/
inductive ShellStep
  | syntaxError
  | notFound
  /-- `SHELL_BGERRMSG` -/
  | builtinRedirected
  /-- The arguments are pointers into `tokbuf`. -/
  | builtin (command : Nat) (args : List Nat)
  /-- `SHELL_INERRMSG`, with the name of the file -/
  | cannotOpenInput (inname : List UInt8)
  /-- `SHELL_OUTERRMSG`, with the name of the file -/
  | cannotOpenOutput (outname : List UInt8)
  /-- `SHELL_CREATMSG` -/
  | cannotCreate
  /-- The process `child` is resumed with the two descriptors. -/
  | spawn (command : Nat) (line : ShellLine) (child stdinput stdoutput : Nat)

/-! ## The start of a process -/

/-- What the calls of `shell` give in one round, `none` for `SYSERR`. -/
structure ShellCalls where
  /-- `open` of the name space, for a file name and a mode -/
  opened : List UInt8 → List UInt8 → Option Nat
  /-- `create`, for a command and the number of its arguments -/
  created : Nat → Nat → Option Nat
  /-- Whether `addargs` ends with `OK` for the process. -/
  addedArgs : Nat → Bool

/-- The descriptor for a file of the line, `dev` where the line has none; the name of a file that
does not open. -/
def ShellCalls.redirect (sys : ShellCalls) (dev : Nat) (mode : List UInt8) :
    Option (List UInt8) → Except (List UInt8) Nat
  | none => .ok dev
  | some name =>
    match sys.opened name mode with
    | none => .error name
    | some did => .ok did

/-- From the files that the line names to the process that is resumed. -/
def shellSpawn (sys : ShellCalls) (dev j : Nat) (line : ShellLine)
    (inname outname : Option (List UInt8)) : ShellStep :=
  match sys.redirect dev (chars "ro") inname with
  | .error name => .cannotOpenInput name
  | .ok stdinput =>
    match sys.redirect dev (chars "w") outname with
    | .error name => .cannotOpenOutput name
    | .ok stdoutput =>
      match sys.created j line.ntok with
      | none => .cannotCreate
      | some child =>
        if sys.addedArgs child then .spawn j line child stdinput stdoutput
        else .cannotCreate

/-- The file name at an index of `tokbuf`. -/
def fileName (s : Lexan) (name : Option Nat) : Option (List UInt8) :=
  name.map (stringAt s.tokbuf · shellArglen)

def shellCommand (sys : ShellCalls) (dev : Nat) (s : Lexan) (ntok : Nat) : ShellStep :=
  match shellParse s ntok with
  | none => .syntaxError
  | some line =>
    match lookupCommand s.tokbuf with
    | none => .notFound
    | some j =>
      if (cmdtab[j]?.map Cmdent.cbuiltin).getD false then
        if line.inname ≠ none ∨ line.outname ≠ none ∨ line.backgnd then .builtinRedirected
        else .builtin j ((List.range line.ntok).map s.tok)
      else shellSpawn sys dev j line (fileName s line.inname) (fileName s line.outname)

/-! ## The syntax of a line -/

/-- Redirections, and the tokens that name the files of the input and of the output. -/
inductive Redirections : List ShToken → Option ShToken → Option ShToken → Prop
  | none : Redirections [] none none
  | input {op file : ShToken} : op.typ = .less → file.typ = .other →
      Redirections [op, file] (some file) none
  | output {op file : ShToken} : op.typ = .greater → file.typ = .other →
      Redirections [op, file] none (some file)
  | inputOutput {op file op' file' : ShToken} : op.typ = .less → file.typ = .other →
      op'.typ = .greater → file'.typ = .other →
      Redirections [op, file, op', file'] (some file) (some file')
  | outputInput {op file op' file' : ShToken} : op.typ = .greater → file.typ = .other →
      op'.typ = .less → file'.typ = .other →
      Redirections [op, file, op', file'] (some file') (some file)

/-- The ampersand at the end, or nothing. -/
inductive Ampersand : List ShToken → Bool → Prop
  | absent : Ampersand [] false
  | present {t : ShToken} : t.typ = .amper → Ampersand [t] true

/-- `command_name [args*] [redirection] [&]` -/
structure CommandLine (ts args : List ShToken) (input output : Option ShToken) (backgnd : Bool) :
    Prop where
  args_ne_nil : args ≠ []
  args_other : ∀ t ∈ args, t.typ = .other
  split : ∃ redirections amper, ts = args ++ redirections ++ amper ∧
    Redirections redirections input output ∧ Ampersand amper backgnd

/-! ## The parser -/

/-- The file name, if there is one, is the string at the index. -/
def NameAt (s : Lexan) : Option Nat → Option ShToken → Prop
  | none, none => True
  | some off, some t => s.tokbuf.read off (t.text.length + 1) = t.text ++ [nullCh]
  | _, _ => False

/-- What is left of the tokens `ts` are the tokens `us`. -/
structure ShellLine.Left (s : Lexan) (ts us : List ShToken) (input output : Option ShToken)
    (backgnd : Bool) (line : ShellLine) : Prop where
  front : us <+: ts
  ntok : line.ntok = us.length
  tlen : line.tlen = (packed (us.map ShToken.text)).length
  backgnd : line.backgnd = backgnd
  inname : NameAt s line.inname input
  outname : NameAt s line.outname output

theorem NameAt.isNone {s : Lexan} {off : Option Nat} {t : Option ShToken} (h : NameAt s off t) :
    off = none ↔ t = none := by
  cases off <;> cases t <;> simp_all [NameAt]

/-- A token of the row is shorter than the row. -/
theorem Lexan.Row.length_lt {s : Lexan} {ts : List ShToken} (hrow : s.Row ts) {t : ShToken}
    (ht : t ∈ ts) : t.text.length < s.tbindex := by
  obtain ⟨i, hi⟩ := List.mem_iff_getElem?.mp ht
  have hget : (ts.map ShToken.text)[i]? = some t.text := by
    rw [List.getElem?_map, hi]
    rfl
  have hend := start_add_length_lt hget
  rw [hrow.tbindex]
  omega

theorem Redirections.mem {ts : List ShToken} {input output : Option ShToken}
    (h : Redirections ts input output) : (∀ t ∈ input, t ∈ ts) ∧ ∀ t ∈ output, t ∈ ts := by
  cases h <;> simp

/-- The files of a command line are tokens of it. -/
theorem CommandLine.files_mem {ts args : List ShToken} {input output : Option ShToken}
    {backgnd : Bool} (h : CommandLine ts args input output backgnd) :
    (∀ t ∈ input, t ∈ ts) ∧ ∀ t ∈ output, t ∈ ts := by
  obtain ⟨-, -, redirections, amper, rfl, hred, -⟩ := h
  have hmem : ∀ t ∈ redirections, t ∈ args ++ redirections ++ amper := fun t ht =>
    List.mem_append_left _ (List.mem_append_right _ ht)
  exact ⟨fun t ht => hmem t (hred.mem.1 t ht), fun t ht => hmem t (hred.mem.2 t ht)⟩

/-- The shell finds the file name of the redirection. -/
theorem NameAt.fileName_eq {s : Lexan} {off : Option Nat} {t : Option ShToken} (h : NameAt s off t)
    (hnull : ∀ file ∈ t, nullCh ∉ file.text) (hshort : ∀ file ∈ t, file.text.length < shellArglen) :
    fileName s off = t.map ShToken.text := by
  cases off with
  | none =>
    obtain rfl := h.isNone.mp rfl
    rfl
  | some off =>
    cases t with
    | none => cases h
    | some file => exact congrArg some (stringAt_eq (hnull file rfl) (hshort file rfl) h)

section Parser

variable {s : Lexan} {ts us vs : List ShToken} {input output : Option ShToken} {backgnd : Bool}
  {line : ShellLine} {op file : ShToken}

theorem ShellLine.Left.toktyp (h : line.Left s ts us input output backgnd) (hrow : s.Row ts)
    {i : Nat} {t : ShToken} (hi : us[i]? = some t) : s.toktyp i = t.typ := by
  obtain ⟨behind, rfl⟩ := h.front
  refine hrow.toktyp i t ?_
  rw [List.getElem?_append_left (List.getElem?_eq_some_iff.mp hi).1, hi]

/-- The string of a token that is left. -/
theorem ShellLine.Left.string (h : line.Left s ts us input output backgnd) (hrow : s.Row ts)
    {i : Nat} {t : ShToken} (hi : us[i]? = some t) :
    s.tok i = start (us.map ShToken.text) i ∧
      s.tokbuf.read (s.tok i) (t.text.length + 1) = t.text ++ [nullCh] := by
  obtain ⟨behind, rfl⟩ := h.front
  have hlt := (List.getElem?_eq_some_iff.mp hi).1
  have hi' : (us ++ behind)[i]? = some t := by rw [List.getElem?_append_left hlt, hi]
  have htok := hrow.tok i (by rw [List.length_append]; omega)
  have hbuf := hrow.tokbuf
  rw [hrow.tbindex] at hbuf
  refine ⟨?_, ?_⟩
  · rw [htok, List.map_append, start_append (by rw [List.length_map]; omega)]
  · rw [htok]
    exact read_start hbuf (by rw [List.getElem?_map, hi']; rfl)

/-- The last two tokens are a redirection. -/
def EndsInRedirection (us : List ShToken) : Prop :=
  ∃ vs op file, us = vs ++ [op, file] ∧ vs ≠ [] ∧ (op.typ = .less ∨ op.typ = .greater)

theorem getElem?_last_two (vs : List ShToken) (op file : ShToken) :
    (vs ++ [op, file])[vs.length]? = some op ∧
      (vs ++ [op, file])[vs.length + 1]? = some file := by
  constructor
  · rw [List.getElem?_append_right (Nat.le_refl _), Nat.sub_self]
    rfl
  · rw [List.getElem?_append_right (Nat.le_add_right _ 1), Nat.add_sub_cancel_left]
    rfl

theorem ShellLine.Left.redirects_iff (h : line.Left s ts us input output backgnd)
    (hrow : s.Row ts) : EndsInRedirection us ↔
      3 ≤ line.ntok ∧ (s.toktyp (line.ntok - 2) = .less ∨ s.toktyp (line.ntok - 2) = .greater) := by
  rw [h.ntok]
  constructor
  · rintro ⟨vs, op, file, rfl, hvs, hop⟩
    have hpos := List.length_pos_of_ne_nil hvs
    rw [List.length_append, show [op, file].length = 2 from rfl, Nat.add_sub_cancel,
      h.toktyp hrow (getElem?_last_two vs op file).1]
    exact ⟨by omega, hop⟩
  · rintro ⟨hlen, htyp⟩
    have hsplit : us = us.take (us.length - 2) ++ us.drop (us.length - 2) :=
      (List.take_append_drop _ us).symm
    have hdrop : (us.drop (us.length - 2)).length = 2 := by
      rw [List.length_drop]
      omega
    obtain ⟨op, file, htwo⟩ := List.length_eq_two.mp hdrop
    rw [htwo] at hsplit
    have hget := (getElem?_last_two (us.take (us.length - 2)) op file).1
    rw [← hsplit, List.length_take_of_le (Nat.sub_le _ _)] at hget
    refine ⟨_, op, file, hsplit, fun hnil => ?_, ?_⟩
    · have := congrArg List.length hnil
      rw [List.length_take_of_le (Nat.sub_le _ _), List.length_nil] at this
      omega
    · rwa [h.toktyp hrow hget] at htyp

/-- Where the last two tokens are no redirection, the line stays. -/
theorem shellRedirect_keeps (h : line.Left s ts us input output backgnd) (hrow : s.Row ts)
    (hends : ¬ EndsInRedirection us) : shellRedirect s line = some line := by
  rw [shellRedirect, if_neg fun hc => hends ((h.redirects_iff hrow).mpr hc)]

theorem shellRedirect_eq (h : line.Left s ts (vs ++ [op, file]) input output backgnd)
    (hrow : s.Row ts) (hvs : vs ≠ []) (hop : op.typ = .less ∨ op.typ = .greater) :
    shellRedirect s line =
      if file.typ ≠ .other then none
      else if op.typ = .less then
        if input ≠ none then none
        else some { line with
          ntok := vs.length
          tlen := s.tok vs.length
          inname := some (s.tok (vs.length + 1)) }
      else
        if output ≠ none then none
        else some { line with
          ntok := vs.length
          tlen := s.tok vs.length
          outname := some (s.tok (vs.length + 1)) } := by
  have hcond := (h.redirects_iff hrow).mp ⟨vs, op, file, rfl, hvs, hop⟩
  have hget := getElem?_last_two vs op file
  rw [shellRedirect, if_pos hcond, h.ntok, List.length_append, show [op, file].length = 2 from rfl,
    Nat.add_sub_cancel, show vs.length + 2 - 1 = vs.length + 1 from rfl, h.toktyp hrow hget.1,
    h.toktyp hrow hget.2]
  simp only [ne_eq, h.inname.isNone, h.outname.isNone]

/-- The line without the redirection at its end. -/
theorem ShellLine.Left.strip (h : line.Left s ts (vs ++ [op, file]) input output backgnd)
    (hrow : s.Row ts) :
    ShellLine.Left s ts vs (some file) output backgnd { line with
      ntok := vs.length, tlen := s.tok vs.length, inname := some (s.tok (vs.length + 1)) } ∧
    ShellLine.Left s ts vs input (some file) backgnd { line with
      ntok := vs.length, tlen := s.tok vs.length, outname := some (s.tok (vs.length + 1)) } := by
  have hget := getElem?_last_two vs op file
  have hfront : vs <+: ts := (List.prefix_append vs _).trans h.front
  have htlen : s.tok vs.length = (packed (vs.map ShToken.text)).length := by
    have hlast := start_length (vs.map ShToken.text)
    rw [List.length_map] at hlast
    rw [(h.string hrow hget.1).1, List.map_append,
      start_append (by rw [List.length_map]), hlast]
  exact ⟨⟨hfront, rfl, htlen, h.backgnd, (h.string hrow hget.2).2, h.outname⟩,
    ⟨hfront, rfl, htlen, h.backgnd, h.inname, (h.string hrow hget.2).2⟩⟩

/-- One of the tests for a redirection. -/
theorem shellRedirect_some {line' : ShellLine} (h : line.Left s ts us input output backgnd)
    (hrow : s.Row ts) (hline : shellRedirect s line = some line') :
    (¬ EndsInRedirection us ∧ line' = line) ∨
    (∃ vs op file, us = vs ++ [op, file] ∧ vs ≠ [] ∧ file.typ = .other ∧ op.typ = .less ∧
      input = none ∧ line'.Left s ts vs (some file) output backgnd) ∨
    ∃ vs op file, us = vs ++ [op, file] ∧ vs ≠ [] ∧ file.typ = .other ∧ op.typ = .greater ∧
      output = none ∧ line'.Left s ts vs input (some file) backgnd := by
  by_cases hends : EndsInRedirection us
  · obtain ⟨vs, op, file, rfl, hvs, hop⟩ := hends
    rw [shellRedirect_eq h hrow hvs hop] at hline
    by_cases hfile : file.typ = .other
    · rw [if_neg (not_not_intro hfile)] at hline
      rcases hop with hop | hop
      · rw [if_pos hop] at hline
        by_cases hin : input = none
        · rw [if_neg (not_not_intro hin)] at hline
          exact .inr (.inl ⟨vs, op, file, rfl, hvs, hfile, hop, hin,
            Option.some.inj hline ▸ (h.strip hrow).1⟩)
        · rw [if_pos hin] at hline
          cases hline
      · rw [if_neg (by rw [hop]; decide)] at hline
        by_cases hout : output = none
        · rw [if_neg (not_not_intro hout)] at hline
          exact .inr (.inr ⟨vs, op, file, rfl, hvs, hfile, hop, hout,
            Option.some.inj hline ▸ (h.strip hrow).2⟩)
        · rw [if_pos hout] at hline
          cases hline
    · rw [if_pos hfile] at hline
      cases hline
  · rw [shellRedirect_keeps h hrow hends] at hline
    exact .inl ⟨hends, (Option.some.inj hline).symm⟩

theorem shellRedirect_input (h : line.Left s ts (vs ++ [op, file]) none output backgnd)
    (hrow : s.Row ts) (hvs : vs ≠ []) (hop : op.typ = .less) (hfile : file.typ = .other) :
    ∃ line', shellRedirect s line = some line' ∧ line'.Left s ts vs (some file) output backgnd := by
  refine ⟨_, ?_, (h.strip hrow).1⟩
  rw [shellRedirect_eq h hrow hvs (.inl hop), if_neg (not_not_intro hfile), if_pos hop,
    if_neg (not_not_intro rfl)]

theorem shellRedirect_output (h : line.Left s ts (vs ++ [op, file]) input none backgnd)
    (hrow : s.Row ts) (hvs : vs ≠ []) (hop : op.typ = .greater) (hfile : file.typ = .other) :
    ∃ line', shellRedirect s line = some line' ∧ line'.Left s ts vs input (some file) backgnd := by
  refine ⟨_, ?_, (h.strip hrow).2⟩
  rw [shellRedirect_eq h hrow hvs (.inr hop), if_neg (not_not_intro hfile),
    if_neg (by rw [hop]; decide), if_neg (not_not_intro rfl)]

theorem not_endsInRedirection (hother : ∀ t ∈ us, t.typ = .other) : ¬ EndsInRedirection us := by
  rintro ⟨vs, op, file, rfl, -, hop⟩
  rw [hother op (List.mem_append_right vs List.mem_cons_self)] at hop
  rcases hop with hop | hop <;> cases hop

/-- `ts` without the ampersand that may end it. -/
structure SplitAmper (ts us : List ShToken) (backgnd : Bool) : Prop where
  split : ∃ amper, ts = us ++ amper ∧ Ampersand amper backgnd
  foreground : backgnd = false → ∀ t ∈ ts.getLast?, t.typ ≠ .amper

theorem exists_splitAmper (ts : List ShToken) : ∃ us backgnd, SplitAmper ts us backgnd := by
  rcases List.eq_nil_or_concat ts with rfl | ⟨us, last, rfl⟩
  · exact ⟨[], false, ⟨[], rfl, .absent⟩, fun _ t ht => by simp at ht⟩
  · rw [List.concat_eq_append]
    by_cases hamper : last.typ = .amper
    · exact ⟨us, true, ⟨[last], rfl, .present hamper⟩, nofun⟩
    · refine ⟨us ++ [last], false, ⟨[], (List.append_nil _).symm, .absent⟩, fun _ t ht => ?_⟩
      rw [List.getLast?_append_cons] at ht
      obtain rfl : last = t := by simpa using ht
      exact hamper

theorem SplitAmper.left (h : SplitAmper ts us backgnd) (hrow : s.Row ts)
    (htlen : s.tlen = s.tbindex) (hne : ts ≠ []) :
    (shellAmper s ts.length).Left s ts us none none backgnd := by
  obtain ⟨⟨amper, hts, hamper⟩, hforeground⟩ := h
  obtain ⟨vs, last, rfl⟩ : ∃ vs last, ts = vs ++ [last] :=
    ⟨_, _, (List.dropLast_append_getLast hne).symm⟩
  have hlast : (vs ++ [last])[vs.length]? = some last := by
    rw [List.getElem?_append_right (Nat.le_refl _), Nat.sub_self]
    rfl
  have hlen : (vs ++ [last]).length - 1 = vs.length := by
    rw [List.length_append, List.length_singleton, Nat.add_sub_cancel]
  rw [shellAmper, hlen, hrow.toktyp _ _ hlast]
  cases hamper with
  | absent =>
    rw [List.append_nil] at hts
    subst hts
    rw [if_neg (hforeground rfl last (by simp))]
    exact ⟨List.prefix_rfl, rfl, htlen.trans hrow.tbindex, rfl, trivial, trivial⟩
  | @present t htyp =>
    obtain ⟨rfl, hsingle⟩ := List.append_inj' hts rfl
    obtain ⟨rfl, -⟩ := List.cons.inj hsingle
    rw [if_pos htyp]
    refine ⟨List.prefix_append vs _, rfl, ?_, rfl, trivial, trivial⟩
    have hone : last.text.length = 1 := by
      cases last with
      | operator typ ch => rfl
      | quoted quote string => cases htyp
      | word string => cases htyp
    show s.tlen - 2 = _
    rw [htlen, hrow.tbindex, List.map_append, List.map_singleton, packed_concat,
      List.length_append, List.length_append, hone, List.length_singleton, Nat.add_sub_cancel]

/-- The last test of the parser. -/
theorem ShellLine.Left.accepted_iff (h : line.Left s ts us input output backgnd)
    (hrow : s.Row ts) : ¬ (line.ntok = 0 ∨ (List.range line.ntok).any (s.toktyp · ≠ .other)) ↔
      us ≠ [] ∧ ∀ t ∈ us, t.typ = .other := by
  rw [h.ntok, not_or, List.length_eq_zero_iff]
  refine and_congr_right fun _ => ?_
  rw [Bool.not_eq_true, List.any_eq_false]
  simp only [List.mem_range, decide_not, Bool.not_eq_true', decide_eq_false_iff_not, not_not]
  constructor
  · intro hall t ht
    obtain ⟨i, hi⟩ := List.mem_iff_getElem?.mp ht
    rw [← h.toktyp hrow hi]
    exact hall i (List.getElem?_eq_some_iff.mp hi).1
  · intro hall i hi
    rw [h.toktyp hrow (List.getElem?_eq_getElem hi)]
    exact hall _ (List.getElem_mem hi)

theorem shellParse_eq (s : Lexan) (ntok : Nat) : shellParse s ntok =
    ((shellRedirect s (shellAmper s ntok)).bind (shellRedirect s)).bind fun line =>
      if line.ntok = 0 ∨ (List.range line.ntok).any (s.toktyp · ≠ .other) then none
      else some line := by
  rw [Option.bind_assoc]
  rfl

/-- What the shell takes is a command line, and it takes it apart as the syntax says. -/
theorem shellParse_sound (hrow : s.Row ts) (htlen : s.tlen = s.tbindex) (hne : ts ≠ [])
    (hline : shellParse s ts.length = some line) :
    ∃ args input output backgnd, CommandLine ts args input output backgnd ∧
      line.Left s ts args input output backgnd := by
  obtain ⟨us, backgnd, hsplit⟩ := exists_splitAmper ts
  have hstart := hsplit.left hrow htlen hne
  obtain ⟨amper, hts, hamper⟩ := hsplit.split
  rw [shellParse_eq] at hline
  obtain ⟨line₂, hline₂, hline⟩ := Option.bind_eq_some_iff.mp hline
  obtain ⟨line₁, hline₁, hline₂⟩ := Option.bind_eq_some_iff.mp hline₂
  -- the tokens that are left pass the last test, so they are the arguments
  have haccept : ∀ {args input output}, line₂.Left s ts args input output backgnd →
      line = line₂ ∧ args ≠ [] ∧ ∀ t ∈ args, t.typ = .other := by
    intro args input output hleft
    by_cases hbad : line₂.ntok = 0 ∨ (List.range line₂.ntok).any (s.toktyp · ≠ .other)
    · rw [if_pos hbad] at hline
      cases hline
    · rw [if_neg hbad] at hline
      exact ⟨(Option.some.inj hline).symm, (hleft.accepted_iff hrow).mp hbad⟩
  have htake : ∀ {args input output redirections}, us = args ++ redirections →
      Redirections redirections input output → line₂.Left s ts args input output backgnd →
      ∃ args input output backgnd, CommandLine ts args input output backgnd ∧
        line.Left s ts args input output backgnd := by
    intro args input output redirections hus hred hleft
    obtain ⟨rfl, hargs, hother⟩ := haccept hleft
    exact ⟨args, input, output, backgnd, ⟨hargs, hother, redirections, amper, hus ▸ hts, hred,
      hamper⟩, hleft⟩
  rcases shellRedirect_some hstart hrow hline₁ with ⟨hends, rfl⟩ |
    ⟨vs, op, file, rfl, hvs, hfile, hop, -, hleft⟩ | ⟨vs, op, file, rfl, hvs, hfile, hop, -, hleft⟩
  · rw [shellRedirect_keeps hstart hrow hends] at hline₂
    obtain rfl := Option.some.inj hline₂
    exact htake (List.append_nil us).symm .none hstart
  · rcases shellRedirect_some hleft hrow hline₂ with ⟨-, rfl⟩ |
      ⟨_, _, _, _, _, _, _, hin, -⟩ | ⟨ws, op', file', rfl, hws, hfile', hop', -, hleft'⟩
    · exact htake rfl (.input hop hfile) hleft
    · cases hin
    · refine htake ?_ (.outputInput hop' hfile' hop hfile) hleft'
      rw [List.append_assoc]
      rfl
  · rcases shellRedirect_some hleft hrow hline₂ with ⟨-, rfl⟩ |
      ⟨ws, op', file', rfl, hws, hfile', hop', -, hleft'⟩ | ⟨_, _, _, _, _, _, _, hout, -⟩
    · exact htake rfl (.output hop hfile) hleft
    · refine htake ?_ (.inputOutput hop' hfile' hop hfile) hleft'
      rw [List.append_assoc]
      rfl
    · cases hout

/-- No command line ends in an ampersand that is not its own. -/
theorem CommandLine.splitAmper {args : List ShToken}
    (h : CommandLine ts args input output backgnd) :
    ∃ redirections, Redirections redirections input output ∧
      SplitAmper ts (args ++ redirections) backgnd := by
  obtain ⟨hne, hother, redirections, amper, hts, hred, hamper⟩ := h
  refine ⟨redirections, hred, ⟨amper, hts, hamper⟩, fun hbg t ht => ?_⟩
  subst hbg
  cases hamper
  have hlast : t.typ = .other := by
    rw [hts, List.append_nil] at ht
    cases hred with
    | none =>
      rw [List.append_nil] at ht
      exact hother t (List.mem_of_getLast? ht)
    | input _ hfile => simp_all
    | output _ hfile => simp_all
    | inputOutput _ _ _ hfile => simp_all
    | outputInput _ _ _ hfile => simp_all
  rw [hlast]
  decide

/-- Every command line is taken. -/
theorem shellParse_complete {args : List ShToken} (hrow : s.Row ts) (htlen : s.tlen = s.tbindex)
    (h : CommandLine ts args input output backgnd) :
    ∃ line, shellParse s ts.length = some line ∧
      line.Left s ts args input output backgnd := by
  obtain ⟨redirections, hred, hsplit⟩ := h.splitAmper
  have hargs := h.args_ne_nil
  have hne : ts ≠ [] := by
    obtain ⟨-, -, _, _, rfl, -⟩ := h
    simp [hargs]
  have hkeep : ¬ EndsInRedirection args := not_endsInRedirection h.args_other
  have hstart := hsplit.left hrow htlen hne
  have haccept : ∀ {line : ShellLine}, line.Left s ts args input output backgnd →
      (shellRedirect s (shellAmper s ts.length)).bind (shellRedirect s) = some line →
      ∃ line, shellParse s ts.length = some line ∧
        line.Left s ts args input output backgnd := by
    intro line hleft hline
    refine ⟨line, ?_, hleft⟩
    rw [shellParse_eq, hline, Option.bind_some,
      if_neg ((hleft.accepted_iff hrow).mpr ⟨hargs, h.args_other⟩)]
  cases hred with
  | none =>
    rw [List.append_nil] at hstart
    refine haccept hstart ?_
    rw [shellRedirect_keeps hstart hrow hkeep, Option.bind_some,
      shellRedirect_keeps hstart hrow hkeep]
  | input hop hfile =>
    obtain ⟨line, hline, hleft⟩ := shellRedirect_input hstart hrow hargs hop hfile
    refine haccept hleft ?_
    rw [hline, Option.bind_some, shellRedirect_keeps hleft hrow hkeep]
  | output hop hfile =>
    obtain ⟨line, hline, hleft⟩ := shellRedirect_output hstart hrow hargs hop hfile
    refine haccept hleft ?_
    rw [hline, Option.bind_some, shellRedirect_keeps hleft hrow hkeep]
  | @inputOutput op file op' file' hop hfile hop' hfile' =>
    rw [show args ++ [op, file, op', file'] = args ++ [op, file] ++ [op', file'] by simp] at hstart
    obtain ⟨line, hline, hleft⟩ := shellRedirect_output hstart hrow (by simp) hop' hfile'
    obtain ⟨line', hline', hleft'⟩ := shellRedirect_input hleft hrow hargs hop hfile
    refine haccept hleft' ?_
    rw [hline, Option.bind_some, hline']
  | @outputInput op file op' file' hop hfile hop' hfile' =>
    rw [show args ++ [op, file, op', file'] = args ++ [op, file] ++ [op', file'] by simp] at hstart
    obtain ⟨line, hline, hleft⟩ := shellRedirect_input hstart hrow (by simp) hop' hfile'
    obtain ⟨line', hline', hleft'⟩ := shellRedirect_output hleft hrow hargs hop hfile
    refine haccept hleft' ?_
    rw [hline, Option.bind_some, hline']

/-- The shell refuses what is no command line. -/
theorem shellParse_eq_none_iff (hrow : s.Row ts) (htlen : s.tlen = s.tbindex) (hne : ts ≠ []) :
    shellParse s ts.length = none ↔
      ¬ ∃ args input output backgnd, CommandLine ts args input output backgnd := by
  constructor
  · rintro hnone ⟨args, input, output, backgnd, h⟩
    obtain ⟨line, hline, -⟩ := shellParse_complete hrow htlen h
    rw [hnone] at hline
    cases hline
  · intro hno
    cases hline : shellParse s ts.length with
    | none => rfl
    | some line =>
      obtain ⟨args, input, output, backgnd, h, -⟩ := shellParse_sound hrow htlen hne hline
      exact absurd ⟨args, input, output, backgnd, h⟩ hno

end Parser

end NatBox
