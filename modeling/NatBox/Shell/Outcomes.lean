import NatBox.Shell.Commands

/-
What `shell` makes of a line.

`Understands` says it for whatever the calls of the rest of the system give: which lines are
refused, which name no command, and when a command runs in the shell, fails to get its files or
its process, or is started.  `understands_of_row` is that `shellCommand` does so with the tokens
in its arrays.
-/

namespace NatBox

open CString

/-! ## The command -/

theorem sameCommand_iff {m : Mem} {src : List UInt8} (hsrc : nullCh ∉ src) :
    ∀ {text : List UInt8} {off : Nat}, nullCh ∉ text →
      m.read off (text.length + 1) = text ++ [nullCh] →
      (sameCommand m src off = true ↔ src = text) := by
  induction src with
  | nil =>
    intro text off htext hread
    rw [sameCommand, decide_eq_true_iff]
    cases text with
    | nil =>
      rw [Mem.read_succ] at hread
      exact iff_of_true (List.cons.inj hread).1 rfl
    | cons ch text =>
      rw [Mem.read_succ] at hread
      refine iff_of_false (fun hnull => htext ?_) nofun
      rw [← (List.cons.inj hread).1, hnull]
      exact List.mem_cons_self
  | cons ch src ih =>
    intro text off htext hread
    rw [sameCommand, Bool.and_eq_true, decide_eq_true_iff]
    have hch := List.ne_of_not_mem_cons hsrc
    have hsrc' := List.not_mem_of_not_mem_cons hsrc
    cases text with
    | nil =>
      rw [Mem.read_succ] at hread
      refine iff_of_false (fun h => hch ?_) nofun
      rw [← h.1]
      exact (List.cons.inj hread).1.symm
    | cons c text =>
      rw [List.length_cons, Mem.read_succ] at hread
      obtain ⟨hc, hrest⟩ := List.cons.inj hread
      rw [ih hsrc' (List.not_mem_of_not_mem_cons htext) hrest, hc, List.cons.injEq]
      exact and_congr_left fun _ => eq_comm

/-- The names of the table are strings, each there once. -/
theorem cmdtab_names : (cmdtab.map Cmdent.cname).Nodup ∧ ∀ cmd ∈ cmdtab, nullCh ∉ cmd.cname := by
  decide

/-- The first of the arguments is the name of command `j`. -/
def NamesCommand (args : List ShToken) (j : Nat) (builtin : Bool) : Prop :=
  ∃ cmd t, cmdtab[j]? = some cmd ∧ args.head? = some t ∧ cmd.cname = t.text ∧
    cmd.cbuiltin = builtin

section Command

variable {s : Lexan} {ts args : List ShToken} {input output : Option ShToken} {backgnd : Bool}
  {line : ShellLine}

theorem lookupCommand_iff (hrow : s.Row ts) (hnull : ∀ t ∈ ts, nullCh ∉ t.text) {first : ShToken}
    (hfirst : ts.head? = some first) (j : Nat) : lookupCommand s.tokbuf = some j ↔
      ∃ cmd, cmdtab[j]? = some cmd ∧ cmd.cname = first.text := by
  obtain ⟨hnodup, hnames⟩ := cmdtab_names
  have hmem : first ∈ ts := List.mem_of_head? hfirst
  have hbuf := hrow.tokbuf
  rw [hrow.tbindex] at hbuf
  have hread := read_start (i := 0) hbuf (s := first.text) (by
    rw [List.getElem?_map, ← List.head?_eq_getElem?, hfirst]
    rfl)
  have hsame : ∀ cmd ∈ cmdtab, (sameCommand s.tokbuf cmd.cname 0 = true ↔ cmd.cname = first.text) :=
    fun cmd hcmd => sameCommand_iff (hnames cmd hcmd) (hnull first hmem) hread
  rw [lookupCommand, List.findIdx?_eq_some_iff_getElem]
  constructor
  · rintro ⟨hj, hsamej, -⟩
    exact ⟨_, List.getElem?_eq_getElem hj, (hsame _ (List.getElem_mem hj)).mp hsamej⟩
  · rintro ⟨cmd, hcmd, hname⟩
    obtain ⟨hj, rfl⟩ := List.getElem?_eq_some_iff.mp hcmd
    refine ⟨hj, (hsame _ (List.getElem_mem hj)).mpr hname, fun k hk hsamek => ?_⟩
    have hnamek := (hsame _ (List.getElem_mem (by omega))).mp hsamek
    have hnames' : (cmdtab.map Cmdent.cname)[k]? = (cmdtab.map Cmdent.cname)[j]? := by
      rw [List.getElem?_map, List.getElem?_map, List.getElem?_eq_getElem hj,
        List.getElem?_eq_getElem (by omega), Option.map_some, Option.map_some, hnamek, hname]
    have := (List.getElem?_inj (by rw [List.length_map]; omega) hnodup).mp hnames'
    omega

theorem CommandLine.head (h : CommandLine ts args input output backgnd) :
    ∃ first, args.head? = some first ∧ ts.head? = some first := by
  obtain ⟨hne, -, redirections, amper, rfl, -, -⟩ := h
  obtain ⟨first, rest, rfl⟩ := List.exists_cons_of_ne_nil hne
  exact ⟨first, rfl, rfl⟩

/-- The table has the first token of a command line as command `j`. -/
theorem CommandLine.namesCommand_iff (h : CommandLine ts args input output backgnd)
    (hrow : s.Row ts) (hnull : ∀ t ∈ ts, nullCh ∉ t.text) {j : Nat} {builtin : Bool} :
    NamesCommand args j builtin ↔ lookupCommand s.tokbuf = some j ∧
      (cmdtab[j]?.map Cmdent.cbuiltin).getD false = builtin := by
  obtain ⟨first, hargs, hts⟩ := h.head
  rw [lookupCommand_iff hrow hnull hts]
  constructor
  · rintro ⟨cmd, t, hcmd, ht, hname, rfl⟩
    obtain rfl := Option.some.inj (ht.symm.trans hargs)
    exact ⟨⟨cmd, hcmd, hname⟩, by rw [hcmd]; rfl⟩
  · rintro ⟨⟨cmd, hcmd, hname⟩, hbuiltin⟩
    rw [hcmd] at hbuiltin
    exact ⟨cmd, first, hcmd, hargs, hname, hbuiltin⟩

/-- What the shell makes of the tokens `ts`. -/
structure Understands (sys : ShellCalls) (dev : Nat) (s : Lexan) (ts : List ShToken) : Prop where
  /-- Only what is no command line is a syntax error. -/
  refused : shellCommand sys dev s ts.length = .syntaxError ↔
    ¬ ∃ args input output backgnd, CommandLine ts args input output backgnd
  unknown : shellCommand sys dev s ts.length = .notFound ↔
    ∃ args input output backgnd, CommandLine ts args input output backgnd ∧
      ∀ j builtin, ¬ NamesCommand args j builtin
  misused : shellCommand sys dev s ts.length = .builtinRedirected ↔
    ∃ args input output backgnd j, CommandLine ts args input output backgnd ∧
      NamesCommand args j true ∧ ¬ (input = none ∧ output = none ∧ backgnd = false)
  /-- A builtin command is called if there is no redirection and no ampersand. -/
  calls : ∀ j, (∃ ptrs, shellCommand sys dev s ts.length = .builtin j ptrs) ↔
    ∃ args, CommandLine ts args none none false ∧ NamesCommand args j true
  called : ∀ j ptrs, shellCommand sys dev s ts.length = .builtin j ptrs →
    ∃ args, CommandLine ts args none none false ∧ NamesCommand args j true ∧
      List.Forall₂ (fun p (t : ShToken) =>
        s.tokbuf.read p (t.text.length + 1) = t.text ++ [nullCh]) ptrs args
  /-- For the other commands the file of the input is opened first. -/
  unreadable : ∀ name, shellCommand sys dev s ts.length = .cannotOpenInput name ↔
    ∃ args input output backgnd j, CommandLine ts args input output backgnd ∧
      NamesCommand args j false ∧
      sys.redirect dev (chars "ro") (input.map ShToken.text) = .error name
  unwritable : ∀ name, shellCommand sys dev s ts.length = .cannotOpenOutput name ↔
    ∃ args input output backgnd j stdinput, CommandLine ts args input output backgnd ∧
      NamesCommand args j false ∧
      sys.redirect dev (chars "ro") (input.map ShToken.text) = .ok stdinput ∧
      sys.redirect dev (chars "w") (output.map ShToken.text) = .error name
  uncreated : shellCommand sys dev s ts.length = .cannotCreate ↔
    ∃ args input output backgnd j stdinput stdoutput,
      CommandLine ts args input output backgnd ∧ NamesCommand args j false ∧
      sys.redirect dev (chars "ro") (input.map ShToken.text) = .ok stdinput ∧
      sys.redirect dev (chars "w") (output.map ShToken.text) = .ok stdoutput ∧
      ∀ child ∈ sys.created j args.length, sys.addedArgs child = false
  /-- A process is created for the command lines that name a command of the table and files
  that open, and it gets the arguments, the files and the place that the line says. -/
  spawns : ∀ j child stdinput stdoutput,
    (∃ line, shellCommand sys dev s ts.length = .spawn j line child stdinput stdoutput) ↔
    ∃ args input output backgnd, CommandLine ts args input output backgnd ∧
      NamesCommand args j false ∧
      sys.redirect dev (chars "ro") (input.map ShToken.text) = .ok stdinput ∧
      sys.redirect dev (chars "w") (output.map ShToken.text) = .ok stdoutput ∧
      sys.created j args.length = some child ∧ sys.addedArgs child = true
  spawned : ∀ j line child stdinput stdoutput,
    shellCommand sys dev s ts.length = .spawn j line child stdinput stdoutput →
    ∃ args input output backgnd, CommandLine ts args input output backgnd ∧
      NamesCommand args j false ∧ line.Left s ts args input output backgnd ∧
      sys.redirect dev (chars "ro") (input.map ShToken.text) = .ok stdinput ∧
      sys.redirect dev (chars "w") (output.map ShToken.text) = .ok stdoutput

/-! ## The outcomes -/

section Outcomes

variable {sys : ShellCalls} {dev j : Nat} {inname outname : Option (List UInt8)}

/-- The outcomes behind the builtin commands. -/
def ShellStep.launches : ShellStep → Bool
  | .cannotOpenInput _ | .cannotOpenOutput _ | .cannotCreate | .spawn _ _ _ _ _ => true
  | _ => false

theorem shellSpawn_launches :
    (shellSpawn sys dev j line inname outname).launches = true := by
  unfold shellSpawn
  split
  · rfl
  · split
    · rfl
    · split
      · rfl
      · split <;> rfl

theorem shellSpawn_ne {step : ShellStep} (hstep : step.launches = false) :
    shellSpawn sys dev j line inname outname ≠ step := fun h => by
  have hlaunches : step.launches = true := h ▸ shellSpawn_launches
  rw [hstep] at hlaunches
  cases hlaunches

theorem shellSpawn_cannotOpenInput_iff {name : List UInt8} :
    shellSpawn sys dev j line inname outname = .cannotOpenInput name ↔
      sys.redirect dev (chars "ro") inname = .error name := by
  unfold shellSpawn
  cases sys.redirect dev (chars "ro") inname with
  | error name' => simp
  | ok stdinput =>
    refine iff_of_false ?_ nofun
    cases sys.redirect dev (chars "w") outname with
    | error name' => nofun
    | ok stdoutput =>
      dsimp only
      split
      · nofun
      · split <;> nofun

theorem shellSpawn_cannotOpenOutput_iff {name : List UInt8} :
    shellSpawn sys dev j line inname outname = .cannotOpenOutput name ↔
      ∃ stdinput, sys.redirect dev (chars "ro") inname = .ok stdinput ∧
        sys.redirect dev (chars "w") outname = .error name := by
  unfold shellSpawn
  cases sys.redirect dev (chars "ro") inname with
  | error name' => simp
  | ok stdinput =>
    cases sys.redirect dev (chars "w") outname with
    | error name' => simp
    | ok stdoutput =>
      refine iff_of_false ?_ (fun ⟨_, _, hout⟩ => by cases hout)
      dsimp only
      split
      · nofun
      · split <;> nofun

theorem shellSpawn_cannotCreate_iff :
    shellSpawn sys dev j line inname outname = .cannotCreate ↔
      ∃ stdinput stdoutput, sys.redirect dev (chars "ro") inname = .ok stdinput ∧
        sys.redirect dev (chars "w") outname = .ok stdoutput ∧
        ∀ child ∈ sys.created j line.ntok, sys.addedArgs child = false := by
  unfold shellSpawn
  cases sys.redirect dev (chars "ro") inname with
  | error name' => simp
  | ok stdinput =>
    cases sys.redirect dev (chars "w") outname with
    | error name' => simp
    | ok stdoutput =>
      cases sys.created j line.ntok with
      | none => simp
      | some child =>
        dsimp only
        by_cases hadded : sys.addedArgs child = true
        · rw [if_pos hadded]
          simp [hadded]
        · rw [if_neg hadded]
          simp [hadded]

theorem shellSpawn_spawn_iff {j' child stdinput stdoutput : Nat} {line' : ShellLine} :
    shellSpawn sys dev j line inname outname = .spawn j' line' child stdinput stdoutput ↔
      (j = j' ∧ line = line') ∧ sys.redirect dev (chars "ro") inname = .ok stdinput ∧
        sys.redirect dev (chars "w") outname = .ok stdoutput ∧
        sys.created j line.ntok = some child ∧ sys.addedArgs child = true := by
  unfold shellSpawn
  cases sys.redirect dev (chars "ro") inname with
  | error name' => simp
  | ok stdinput' =>
    cases sys.redirect dev (chars "w") outname with
    | error name' => simp
    | ok stdoutput' =>
      cases sys.created j line.ntok with
      | none => simp
      | some child' =>
        dsimp only
        by_cases hadded : sys.addedArgs child' = true
        · rw [if_pos hadded, ShellStep.spawn.injEq, Except.ok.injEq, Except.ok.injEq,
            Option.some.injEq]
          constructor
          · rintro ⟨rfl, rfl, rfl, rfl, rfl⟩
            exact ⟨⟨rfl, rfl⟩, rfl, rfl, rfl, hadded⟩
          · rintro ⟨⟨rfl, rfl⟩, rfl, rfl, rfl, -⟩
            exact ⟨rfl, rfl, rfl, rfl, rfl⟩
        · rw [if_neg hadded, Option.some.injEq]
          refine iff_of_false nofun ?_
          rintro ⟨-, -, -, rfl, h⟩
          exact hadded h

/-- A line with a command that is not builtin. -/
theorem shellCommand_of_command {n : Nat} (hline : shellParse s n = some line)
    (hlookup : lookupCommand s.tokbuf = some j)
    (hbuiltin : (cmdtab[j]?.map Cmdent.cbuiltin).getD false = false) :
    shellCommand sys dev s n =
      shellSpawn sys dev j line (fileName s line.inname) (fileName s line.outname) := by
  rw [shellCommand, hline]
  dsimp only
  rw [hlookup]
  dsimp only
  rw [if_neg (by rw [hbuiltin]; decide)]

theorem shellCommand_launches {n : Nat} {step : ShellStep}
    (hcommand : shellCommand sys dev s n = step) (hstep : step.launches = true) :
    ∃ line j, shellParse s n = some line ∧ lookupCommand s.tokbuf = some j ∧
      (cmdtab[j]?.map Cmdent.cbuiltin).getD false = false ∧
      shellSpawn sys dev j line (fileName s line.inname) (fileName s line.outname) = step := by
  subst hcommand
  unfold shellCommand at hstep ⊢
  cases hline : shellParse s n with
  | none =>
    rw [hline] at hstep
    cases hstep
  | some line =>
    rw [hline] at hstep
    cases hlookup : lookupCommand s.tokbuf with
    | none =>
      rw [hlookup] at hstep
      cases hstep
    | some j =>
      rw [hlookup] at hstep
      dsimp only at hstep ⊢
      by_cases hbuiltin : (cmdtab[j]?.map Cmdent.cbuiltin).getD false = true
      · rw [if_pos hbuiltin] at hstep
        split at hstep <;> cases hstep
      · rw [if_neg hbuiltin]
        exact ⟨line, j, rfl, rfl, Bool.eq_false_iff.mpr hbuiltin, rfl⟩

theorem shellCommand_builtin_iff {n : Nat} {ptrs : List Nat} :
    shellCommand sys dev s n = .builtin j ptrs ↔ ∃ line, shellParse s n = some line ∧
      lookupCommand s.tokbuf = some j ∧ (cmdtab[j]?.map Cmdent.cbuiltin).getD false = true ∧
      (line.inname = none ∧ line.outname = none ∧ line.backgnd = false) ∧
      (List.range line.ntok).map s.tok = ptrs := by
  unfold shellCommand
  cases hline : shellParse s n with
  | none => simp
  | some line' =>
    cases hj : lookupCommand s.tokbuf with
    | none => simp
    | some k =>
      dsimp only
      have hnot : ¬ (line'.inname ≠ none ∨ line'.outname ≠ none ∨ line'.backgnd = true) ↔
          line'.inname = none ∧ line'.outname = none ∧ line'.backgnd = false := by
        rw [not_or, not_or, not_not, not_not, Bool.not_eq_true]
      by_cases hbuiltin : (cmdtab[k]?.map Cmdent.cbuiltin).getD false = true
      · rw [if_pos hbuiltin]
        by_cases hplain : line'.inname ≠ none ∨ line'.outname ≠ none ∨ line'.backgnd = true
        · rw [if_pos hplain]
          refine iff_of_false nofun ?_
          rintro ⟨_, hline', -, -, hnone, -⟩
          rw [← Option.some.inj hline'] at hnone
          exact (hnot.mpr hnone) hplain
        · rw [if_neg hplain, ShellStep.builtin.injEq]
          constructor
          · rintro ⟨rfl, rfl⟩
            exact ⟨line', rfl, rfl, hbuiltin, hnot.mp hplain, rfl⟩
          · rintro ⟨_, hline', hk, -, -, rfl⟩
            rw [← Option.some.inj hline']
            exact ⟨Option.some.inj hk, rfl⟩
      · rw [if_neg hbuiltin]
        refine iff_of_false (shellSpawn_ne rfl) ?_
        rintro ⟨_, -, hk, hj, -⟩
        exact hbuiltin (Option.some.inj hk ▸ hj)

theorem shellCommand_syntaxError_iff {n : Nat} :
    shellCommand sys dev s n = .syntaxError ↔ shellParse s n = none := by
  unfold shellCommand
  cases hline : shellParse s n with
  | none => simp
  | some line' =>
    cases hj : lookupCommand s.tokbuf with
    | none => simp
    | some k =>
      dsimp only
      refine iff_of_false ?_ nofun
      split
      · split <;> nofun
      · exact shellSpawn_ne rfl

theorem shellCommand_notFound_iff {n : Nat} : shellCommand sys dev s n = .notFound ↔
    ∃ line, shellParse s n = some line ∧ lookupCommand s.tokbuf = none := by
  unfold shellCommand
  cases hline : shellParse s n with
  | none => simp
  | some line' =>
    cases hj : lookupCommand s.tokbuf with
    | none => simp
    | some k =>
      dsimp only
      refine iff_of_false ?_ (by simp)
      split
      · split <;> nofun
      · exact shellSpawn_ne rfl

theorem shellCommand_builtinRedirected_iff {n : Nat} :
    shellCommand sys dev s n = .builtinRedirected ↔ ∃ line j, shellParse s n = some line ∧
      lookupCommand s.tokbuf = some j ∧ (cmdtab[j]?.map Cmdent.cbuiltin).getD false = true ∧
      ¬ (line.inname = none ∧ line.outname = none ∧ line.backgnd = false) := by
  unfold shellCommand
  cases hline : shellParse s n with
  | none => simp
  | some line' =>
    cases hj : lookupCommand s.tokbuf with
    | none => simp
    | some k =>
      dsimp only
      have hnot : (line'.inname ≠ none ∨ line'.outname ≠ none ∨ line'.backgnd = true) ↔
          ¬ (line'.inname = none ∧ line'.outname = none ∧ line'.backgnd = false) := by
        rw [not_and_or, not_and_or, Bool.not_eq_false]
      by_cases hbuiltin : (cmdtab[k]?.map Cmdent.cbuiltin).getD false = true
      · rw [if_pos hbuiltin]
        by_cases hplain : line'.inname ≠ none ∨ line'.outname ≠ none ∨ line'.backgnd = true
        · rw [if_pos hplain]
          exact iff_of_true rfl ⟨line', k, rfl, rfl, hbuiltin, hnot.mp hplain⟩
        · rw [if_neg hplain]
          refine iff_of_false nofun ?_
          rintro ⟨_, _, hline', -, -, hsome⟩
          rw [← Option.some.inj hline'] at hsome
          exact hplain (hnot.mpr hsome)
      · rw [if_neg hbuiltin]
        refine iff_of_false (shellSpawn_ne rfl) ?_
        rintro ⟨_, _, -, hk, hj, -⟩
        exact hbuiltin (Option.some.inj hk ▸ hj)

end Outcomes

/-- Nothing was said about files or the background. -/
theorem ShellLine.Left.plain_iff (h : line.Left s ts us input output backgnd) :
    (line.inname = none ∧ line.outname = none ∧ line.backgnd = false) ↔
      input = none ∧ output = none ∧ backgnd = false := by
  rw [h.inname.isNone, h.outname.isNone, h.backgnd]

/-- The shell calls a builtin command for a line with nothing but the command and its arguments,
which are the pointers that it gets. -/
theorem exists_builtinLine {sys : ShellCalls} {dev : Nat} (hrow : s.Row ts)
    (htlen : s.tlen = s.tbindex) (hnull : ∀ t ∈ ts, nullCh ∉ t.text) (hne : ts ≠ []) {j : Nat}
    {ptrs : List Nat} (hcall : shellCommand sys dev s ts.length = .builtin j ptrs) :
    ∃ (args : List ShToken) (line : ShellLine), CommandLine ts args none none false ∧
      NamesCommand args j true ∧ line.Left s ts args none none false ∧
      (List.range line.ntok).map s.tok = ptrs := by
  obtain ⟨line, hline, hlookup, hbuiltin, ⟨hin, hout, hbg⟩, hptrs⟩ :=
    shellCommand_builtin_iff.mp hcall
  obtain ⟨args, input, output, backgnd, h, hleft⟩ := shellParse_sound hrow htlen hne hline
  obtain rfl := hleft.inname.isNone.mp hin
  obtain rfl := hleft.outname.isNone.mp hout
  obtain rfl := hleft.backgnd.symm.trans hbg
  exact ⟨args, line, h, (h.namesCommand_iff hrow hnull).mpr ⟨hlookup, hbuiltin⟩, hleft, hptrs⟩

section Row

variable {sys : ShellCalls} {dev : Nat} (hrow : s.Row ts) (htlen : s.tlen = s.tbindex)
  (hroom : s.tbindex ≤ shellArglen) (hnull : ∀ t ∈ ts, nullCh ∉ t.text)

include hrow hroom hnull

/-- The files that the shell opens are those of the command line. -/
theorem CommandLine.fileNames (h : CommandLine ts args input output backgnd)
    (hleft : line.Left s ts args input output backgnd) :
    fileName s line.inname = input.map ShToken.text ∧
      fileName s line.outname = output.map ShToken.text :=
  ⟨hleft.inname.fileName_eq (fun t ht => hnull t (h.files_mem.1 t ht))
      fun t ht => (hrow.length_lt (h.files_mem.1 t ht)).trans_le hroom,
    hleft.outname.fileName_eq (fun t ht => hnull t (h.files_mem.2 t ht))
      fun t ht => (hrow.length_lt (h.files_mem.2 t ht)).trans_le hroom⟩

include htlen

/-- What becomes of a command line with a command that is not builtin. -/
theorem CommandLine.shellCommand_eq (h : CommandLine ts args input output backgnd) {j : Nat}
    (hnames : NamesCommand args j false) :
    ∃ line, line.Left s ts args input output backgnd ∧ shellCommand sys dev s ts.length =
      shellSpawn sys dev j line (input.map ShToken.text) (output.map ShToken.text) := by
  obtain ⟨line, hline, hleft⟩ := shellParse_complete hrow htlen h
  obtain ⟨hlookup, hbuiltin⟩ := (h.namesCommand_iff hrow hnull).mp hnames
  obtain ⟨hin, hout⟩ := h.fileNames hrow hroom hnull hleft
  exact ⟨line, hleft, by rw [shellCommand_of_command hline hlookup hbuiltin, hin, hout]⟩

/-- Behind the builtin commands the shell only comes with such a line. -/
theorem exists_commandLine (hne : ts ≠ []) {step : ShellStep} (hstep : step.launches = true)
    (hcommand : shellCommand sys dev s ts.length = step) :
    ∃ args input output backgnd j line, CommandLine ts args input output backgnd ∧
      NamesCommand args j false ∧ line.Left s ts args input output backgnd ∧
      shellSpawn sys dev j line (input.map ShToken.text) (output.map ShToken.text) =
        step := by
  obtain ⟨line, j, hline, hlookup, hbuiltin, hspawn⟩ := shellCommand_launches hcommand hstep
  obtain ⟨args, input, output, backgnd, h, hleft⟩ := shellParse_sound hrow htlen hne hline
  obtain ⟨hin, hout⟩ := h.fileNames hrow hroom hnull hleft
  rw [hin, hout] at hspawn
  exact ⟨args, input, output, backgnd, j, line, h,
    (h.namesCommand_iff hrow hnull).mpr ⟨hlookup, hbuiltin⟩, hleft, hspawn⟩

/-- The shell understands the tokens in its arrays. -/
theorem understands_of_row (sys : ShellCalls) (dev : Nat) (hne : ts ≠ []) :
    Understands sys dev s ts where
  refused := shellCommand_syntaxError_iff.trans (shellParse_eq_none_iff hrow htlen hne)
  unknown := by
    rw [shellCommand_notFound_iff]
    constructor
    · rintro ⟨line, hline, hnone⟩
      obtain ⟨args, input, output, backgnd, h, -⟩ := shellParse_sound hrow htlen hne hline
      refine ⟨args, input, output, backgnd, h, fun j builtin hnames => ?_⟩
      have hj := ((h.namesCommand_iff hrow hnull).mp hnames).1
      rw [hnone] at hj
      cases hj
    · rintro ⟨args, input, output, backgnd, h, hno⟩
      obtain ⟨line, hline, -⟩ := shellParse_complete hrow htlen h
      refine ⟨line, hline, Option.eq_none_iff_forall_not_mem.mpr fun j hj => ?_⟩
      exact hno j _ ((h.namesCommand_iff hrow hnull).mpr ⟨hj, rfl⟩)
  misused := by
    rw [shellCommand_builtinRedirected_iff]
    constructor
    · rintro ⟨line, j, hline, hlookup, hbuiltin, hplain⟩
      obtain ⟨args, input, output, backgnd, h, hleft⟩ := shellParse_sound hrow htlen hne hline
      exact ⟨args, input, output, backgnd, j, h,
        (h.namesCommand_iff hrow hnull).mpr ⟨hlookup, hbuiltin⟩, hleft.plain_iff.not.mp hplain⟩
    · rintro ⟨args, input, output, backgnd, j, h, hnames, hplain⟩
      obtain ⟨line, hline, hleft⟩ := shellParse_complete hrow htlen h
      obtain ⟨hlookup, hbuiltin⟩ := (h.namesCommand_iff hrow hnull).mp hnames
      exact ⟨line, j, hline, hlookup, hbuiltin, hleft.plain_iff.not.mpr hplain⟩
  calls j := by
    constructor
    · rintro ⟨ptrs, hcall⟩
      obtain ⟨args, line, h, hnames, -⟩ := exists_builtinLine hrow htlen hnull hne hcall
      exact ⟨args, h, hnames⟩
    · rintro ⟨args, h, hnames⟩
      obtain ⟨line, hline, hleft⟩ := shellParse_complete hrow htlen h
      obtain ⟨hlookup, hbuiltin⟩ := (h.namesCommand_iff hrow hnull).mp hnames
      exact ⟨_, shellCommand_builtin_iff.mpr ⟨line, hline, hlookup, hbuiltin,
        ⟨hleft.inname.isNone.mpr rfl, hleft.outname.isNone.mpr rfl, hleft.backgnd⟩, rfl⟩⟩
  called j ptrs hcall := by
    obtain ⟨args, line, h, hnames, hleft, rfl⟩ :=
      exists_builtinLine hrow htlen hnull hne hcall
    refine ⟨args, h, hnames, ?_⟩
    rw [hleft.ntok, List.forall₂_iff_get]
    refine ⟨by rw [List.length_map, List.length_range], fun i hi hi' => ?_⟩
    simp only [List.get_eq_getElem, List.getElem_map, List.getElem_range]
    exact (hleft.string hrow (List.getElem?_eq_getElem hi')).2
  unreadable name := by
    constructor
    · intro hcommand
      obtain ⟨args, input, output, backgnd, j, line, h, hnames, -, hspawn⟩ :=
        exists_commandLine hrow htlen hroom hnull hne rfl hcommand
      exact ⟨args, input, output, backgnd, j, h, hnames,
        shellSpawn_cannotOpenInput_iff.mp hspawn⟩
    · rintro ⟨args, input, output, backgnd, j, h, hnames, hin⟩
      obtain ⟨line, -, hspawn⟩ := h.shellCommand_eq hrow htlen hroom hnull hnames
      rw [hspawn]
      exact shellSpawn_cannotOpenInput_iff.mpr hin
  unwritable name := by
    constructor
    · intro hcommand
      obtain ⟨args, input, output, backgnd, j, line, h, hnames, -, hspawn⟩ :=
        exists_commandLine hrow htlen hroom hnull hne rfl hcommand
      obtain ⟨stdinput, hin, hout⟩ := shellSpawn_cannotOpenOutput_iff.mp hspawn
      exact ⟨args, input, output, backgnd, j, stdinput, h, hnames, hin, hout⟩
    · rintro ⟨args, input, output, backgnd, j, stdinput, h, hnames, hin, hout⟩
      obtain ⟨line, -, hspawn⟩ := h.shellCommand_eq hrow htlen hroom hnull hnames
      rw [hspawn]
      exact shellSpawn_cannotOpenOutput_iff.mpr ⟨stdinput, hin, hout⟩
  uncreated := by
    constructor
    · intro hcommand
      obtain ⟨args, input, output, backgnd, j, line, h, hnames, hleft, hspawn⟩ :=
        exists_commandLine hrow htlen hroom hnull hne rfl hcommand
      obtain ⟨stdinput, stdoutput, hin, hout, hchild⟩ := shellSpawn_cannotCreate_iff.mp hspawn
      rw [hleft.ntok] at hchild
      exact ⟨args, input, output, backgnd, j, stdinput, stdoutput, h, hnames, hin, hout, hchild⟩
    · rintro ⟨args, input, output, backgnd, j, stdinput, stdoutput, h, hnames, hin, hout, hchild⟩
      obtain ⟨line, hleft, hspawn⟩ := h.shellCommand_eq hrow htlen hroom hnull hnames
      rw [hspawn]
      refine shellSpawn_cannotCreate_iff.mpr ⟨stdinput, stdoutput, hin, hout, ?_⟩
      rwa [hleft.ntok]
  spawns j child stdinput stdoutput := by
    constructor
    · rintro ⟨line, hcommand⟩
      obtain ⟨args, input, output, backgnd, k, line', h, hnames, hleft, hspawn⟩ :=
        exists_commandLine hrow htlen hroom hnull hne rfl hcommand
      obtain ⟨⟨rfl, rfl⟩, hin, hout, hchild, hadded⟩ := shellSpawn_spawn_iff.mp hspawn
      rw [hleft.ntok] at hchild
      exact ⟨args, input, output, backgnd, h, hnames, hin, hout, hchild, hadded⟩
    · rintro ⟨args, input, output, backgnd, h, hnames, hin, hout, hchild, hadded⟩
      obtain ⟨line, hleft, hspawn⟩ := h.shellCommand_eq hrow htlen hroom hnull hnames
      rw [← hleft.ntok] at hchild
      exact ⟨line, hspawn.trans
        (shellSpawn_spawn_iff.mpr ⟨⟨rfl, rfl⟩, hin, hout, hchild, hadded⟩)⟩
  spawned j line child stdinput stdoutput hcommand := by
    obtain ⟨args, input, output, backgnd, k, line', h, hnames, hleft, hspawn⟩ :=
      exists_commandLine hrow htlen hroom hnull hne rfl hcommand
    obtain ⟨⟨rfl, rfl⟩, hin, hout, -⟩ := shellSpawn_spawn_iff.mp hspawn
    exact ⟨args, input, output, backgnd, h, hnames, hleft, hin, hout⟩

end Row

end Command

end NatBox
