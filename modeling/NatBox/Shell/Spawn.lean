import NatBox.Lib.Words
import NatBox.Memory.Heap
import NatBox.Shell.Accepted

/-
The process of a command: the stack that `create` makes, the arguments that `addargs` puts on
it, and the switch of `ctxsw` to it.

The memory is that of the machine, with the addresses of the stack and of the variables
`tokbuf` and `tmparg` of the shell.  `InMemory` says where they are, and `spawn_called` that the
command's function is then called with the arguments that were typed.
-/

namespace NatBox

open CString Mem

abbrev stackMagic : UInt32 := 0x0A0AAAA9

/-- `MINSTK` -/
abbrev minStk : Nat := 400

abbrev shellCmdstk : Nat := 8192

/-- The entries of a process about its stack. -/
structure ProcStack where
  prstkptr : Nat
  prstkbase : Nat
  prstklen : Nat

/-! ## `create` -/

/-- The size of the stack that `create` asks for. -/
def stackSize (ssize : Nat) : Nat := roundmb (if ssize < minStk then minStk else ssize)

/-- The stack at `saddr`, where `getstk` has put it, with the words that `ctxsw` pops.  What else
`create` and `getstk` write, in `proctab`, `prcount` and the free list, is not in `m`. -/
def createStack (m : Mem) (saddr ssize : Nat) (funcaddr initret : UInt32) (args : List UInt32) :
    Mem × ProcStack :=
  let m := m.store32 saddr stackMagic
  let m := m.pushAll saddr (args.reverse ++ [initret, funcaddr, saddr.toUInt32])
  let savsp := saddr - 4 * (args.length + 3)
  -- the interrupts enabled, then %eax, %ecx, %edx, %ebx and %esp, whose value is filled in below
  let m := m.pushAll savsp [0x200, 0, 0, 0, 0, 0]
  let pushsp := savsp - 4 * 6
  let m := m.pushAll pushsp [savsp.toUInt32, 0, 0]
  let prstkptr := pushsp - 4 * 3
  (m.store32 pushsp prstkptr.toUInt32, ⟨prstkptr, saddr, ssize⟩)

/-! ## `addargs` -/

/-- The search for a word in `count` words. -/
def searchWord (m : Mem) (dummy : UInt32) : Nat → Nat → Option Nat
  | 0, _ => none
  | count + 1, search =>
    if m.load32 search = dummy then some search else searchWord m dummy count (search + 4)

def addargs (m : Mem) (proc : ProcStack) (ntok : Int) (tok : Nat → Nat) (tlen : Int)
    (tokbuf : Nat) (dummy : UInt32) : Mem × Status :=
  if ntok ≤ 0 ∨ tlen < 0 then (m, .syserr)
  else
    let aloc := add32 (sub32 proc.prstkbase proc.prstklen) 4
    let argloc := add32 aloc 3 / 4 * 4
    let argstr := argloc + 4 * (ntok.toNat + 1)
    let m := m.storeAll argloc
      (((List.range ntok.toNat).map fun i => (argstr + tok i).toUInt32) ++ [0])
    let m := m.write argstr (m.read tokbuf tlen.toNat)
    match searchWord m dummy ((proc.prstkbase - proc.prstkptr + 3) / 4) proc.prstkptr with
    | some search => (m.store32 search argloc.toUInt32, .ok)
    | none => (m, .syserr)

/-- What the shell does to start a command, with the stack at `saddr`. -/
def spawn (m : Mem) (saddr : Nat) (cfunc initret : UInt32) (s : Lexan) (line : ShellLine)
    (tokbuf tmparg : Nat) : Mem × ProcStack × Status :=
  let (m, proc) := createStack m saddr (stackSize shellCmdstk) cfunc initret
    [line.ntok.toUInt32, tmparg.toUInt32]
  let (m, status) := addargs m proc line.ntok s.tok line.tlen tokbuf tmparg.toUInt32
  (m, proc, status)

/-! ## `ctxsw` -/

structure Regs where
  eax : UInt32
  ecx : UInt32
  edx : UInt32
  ebx : UInt32
  esi : UInt32
  edi : UInt32
  ebp : UInt32
  eflags : UInt32
  eip : UInt32
  esp : Nat

/-- From the load of the new stack pointer on: `popal`, the load of `%ebp`, `popfl`, the step
over `%ebp` and `ret`. -/
def ctxswResume (m : Mem) (sp : Nat) : Regs where
  edi := m.load32 sp
  esi := m.load32 (sp + 4)
  ebx := m.load32 (sp + 16)
  edx := m.load32 (sp + 20)
  ecx := m.load32 (sp + 24)
  eax := m.load32 (sp + 28)
  ebp := m.load32 (sp + 32 + 4)
  eflags := m.load32 (sp + 32)
  eip := m.load32 (sp + 36 + 4)
  esp := sp + 40 + 4

/-! ## What a function finds when it is called -/

/-- The function `cfunc` is called with `args` as `argc` and `argv`, and it returns to
`initret`. -/
structure Called (m : Mem) (regs : Regs) (cfunc initret : UInt32) (args : List (List UInt8)) :
    Prop where
  eip : regs.eip = cfunc
  /-- Interrupts are enabled. -/
  eflags : regs.eflags = 0x200
  ret : m.load32 regs.esp = initret
  argc : m.load32 (regs.esp + 4) = args.length.toUInt32
  argv : ∀ i string, args[i]? = some string →
    m.read (m.load32 ((m.load32 (regs.esp + 8)).toNat + 4 * i)).toNat (string.length + 1) =
      string ++ [nullCh]
  last : m.load32 ((m.load32 (regs.esp + 8)).toNat + 4 * args.length) = 0

/-- Where the stack of the command and the variables of the shell are.  The stack has the
`SHELL_CMDSTK` bytes up to the word at `saddr`. -/
structure InMemory (m : Mem) (saddr : Nat) (cfunc initret : UInt32) (s : Lexan)
    (tokbuf tmparg : Nat) : Prop where
  aligned : saddr % 4 = 0
  low : shellCmdstk ≤ saddr
  high : saddr + 4 < 2 ^ 32
  tokens : ∀ i, i < shellArglen → m (tokbuf + i) = s.tokbuf i
  tokbuf_apart : tokbuf + shellArglen ≤ saddr + 4 - shellCmdstk ∨ saddr + 4 ≤ tokbuf
  tmparg_range : 0x200 < tmparg ∧ tmparg < 2 ^ 32
  tmparg_apart : tmparg < saddr + 4 - shellCmdstk ∨ saddr + 4 ≤ tmparg
  tmparg_ne : tmparg.toUInt32 ≠ cfunc ∧ tmparg.toUInt32 ≠ initret

section Stack

variable {m : Mem} {saddr ssize : Nat} {funcaddr initret : UInt32} {args : List UInt32}

/-- The stack of a new process, from the stack pointer up. -/
def stackFrame (saddr : Nat) (funcaddr initret : UInt32) (args : List UInt32) : List UInt32 :=
  [0, 0, (saddr - 4 * (args.length + 3)).toUInt32, (saddr - 4 * (args.length + 12)).toUInt32,
    0, 0, 0, 0, 0x200, saddr.toUInt32, funcaddr, initret] ++ args

theorem createStack_frame (m : Mem) (ssize : Nat) (funcaddr initret : UInt32)
    (hroom : 4 * (args.length + 12) ≤ saddr) :
    (createStack m saddr ssize funcaddr initret args).1.Words
        (saddr - 4 * (args.length + 12)) (stackFrame saddr funcaddr initret args) ∧
      (createStack m saddr ssize funcaddr initret args).1.load32 saddr = stackMagic ∧
      m.SameOutside (createStack m saddr ssize funcaddr initret args).1
        (saddr - 4 * (args.length + 12)) (saddr + 4) ∧
      (createStack m saddr ssize funcaddr initret args).2 =
        ⟨saddr - 4 * (args.length + 12), saddr, ssize⟩ := by
  obtain ⟨top, htop⟩ : ∃ top, top = args.reverse ++ [initret, funcaddr, saddr.toUInt32] := ⟨_, rfl⟩
  obtain ⟨words, hwords⟩ : ∃ words, words = top ++ [0x200, 0, 0, 0, 0, 0] ++
    [(saddr - 4 * (args.length + 3)).toUInt32, 0, 0] := ⟨_, rfl⟩
  have htoplen : top.length = args.length + 3 := by
    rw [htop]
    simp
  have hlen : words.length = args.length + 12 := by
    rw [hwords]
    simp [htoplen]
  have hframe : words.reverse.set 3 (saddr - 4 * (args.length + 12)).toUInt32 =
      stackFrame saddr funcaddr initret args := by
    rw [hwords, htop]
    simp [stackFrame]
  have hstack : createStack m saddr ssize funcaddr initret args =
      (((m.store32 saddr stackMagic).pushAll saddr words).store32
        (saddr - 4 * (args.length + 12) + 4 * 3) (saddr - 4 * (args.length + 12)).toUInt32,
        ⟨saddr - 4 * (args.length + 12), saddr, ssize⟩) := by
    have htwo : (top ++ [(0x200 : UInt32), 0, 0, 0, 0, 0]).length = args.length + 9 := by
      simp [htoplen]
    rw [createStack, ← htop, hwords, pushAll_append, pushAll_append, htoplen, htwo,
      show saddr - 4 * (args.length + 3) - 4 * 6 = saddr - 4 * (args.length + 12) + 4 * 3 by omega,
      show saddr - 4 * (args.length + 9) = saddr - 4 * (args.length + 12) + 4 * 3 by omega,
      show saddr - 4 * (args.length + 12) + 4 * 3 - 4 * 3 = saddr - 4 * (args.length + 12) by omega]
  have hfits : 4 * words.length ≤ saddr := by omega
  have hpush := words_pushAll (m.store32 saddr stackMagic) hfits
  have hsame := pushAll_sameOutside (m.store32 saddr stackMagic) words hfits
  have hmagic := m.store32_sameOutside saddr stackMagic
  rw [hlen] at hpush hsame
  have hslot := store32_sameOutside ((m.store32 saddr stackMagic).pushAll saddr words)
    (saddr - 4 * (args.length + 12) + 4 * 3) (saddr - 4 * (args.length + 12)).toUInt32
  rw [hstack]
  refine ⟨?_, ?_, ?_, rfl⟩
  · rw [← hframe]
    exact hpush.store32 3 _
  · rw [hslot.load32 (.inr (by omega)), hsame.load32 (.inr (Nat.le_refl _)), load32_store32]
  · exact ((hmagic.mono (by omega) (Nat.le_refl _)).trans
      (hsame.mono (Nat.le_refl _) (by omega))).trans (hslot.mono (by omega) (by omega))

/-! ## The arguments -/

/-- The first of the words that is the one searched for. -/
theorem searchWord_eq {dummy : UInt32} {ws rest : List UInt32} {addr count : Nat}
    (h : m.Words addr (ws ++ dummy :: rest)) (hnot : dummy ∉ ws) (hcount : ws.length < count) :
    searchWord m dummy count addr = some (addr + 4 * ws.length) := by
  induction ws generalizing addr count with
  | nil =>
    obtain ⟨count, rfl⟩ : ∃ k, count = k + 1 := ⟨count - 1, by omega⟩
    rw [searchWord, if_pos (words_cons.mp h).1]
    rfl
  | cons w ws ih =>
    obtain ⟨count, rfl⟩ : ∃ k, count = k + 1 := ⟨count - 1, by omega⟩
    obtain ⟨hw, hws⟩ := words_cons.mp h
    rw [List.mem_cons, not_or] at hnot
    rw [List.length_cons] at hcount
    rw [searchWord, hw, if_neg (Ne.symm hnot.1), ih hws hnot.2 (by omega), List.length_cons,
      show addr + 4 + 4 * ws.length = addr + 4 * (ws.length + 1) by omega]

/-- A string of a row of strings that has been copied to `dst`. -/
theorem read_packed {strings : List (List UInt8)} {dst i : Nat} {string : List UInt8}
    (hrow : m.read dst (packed strings).length = packed strings)
    (hi : strings[i]? = some string) :
    m.read (dst + start strings i) (string.length + 1) = string ++ [nullCh] := by
  rw [← read_shift]
  refine read_start ?_ hi
  rw [read_shift]
  exact hrow

/-- The words of `argv`, with the strings at `argstr`. -/
def argVector (argstr : Nat) (strings : List (List UInt8)) : List UInt32 :=
  ((List.range strings.length).map fun i => (argstr + start strings i).toUInt32) ++ [0]

theorem length_argVector (argstr : Nat) (strings : List (List UInt8)) :
    (argVector argstr strings).length = strings.length + 1 := by
  simp [argVector]

theorem getElem?_argVector (argstr : Nat) {strings : List (List UInt8)} {i : Nat}
    (hi : i < strings.length) :
    (argVector argstr strings)[i]? = some (argstr + start strings i).toUInt32 := by
  rw [argVector, List.getElem?_append_left (by simpa using hi)]
  simp [hi]

theorem getElem?_argVector_last (argstr : Nat) (strings : List (List UInt8)) :
    (argVector argstr strings)[strings.length]? = some 0 := by
  rw [argVector, List.getElem?_append_right (by simp)]
  simp

/-- The arguments go to the lowest addresses of the stack, and their address replaces the dummy
argument. -/
theorem addargs_eq (proc : ProcStack) {ws : List UInt32} (rest : List UInt32) {dummy : UInt32}
    {strings : List (List UInt8)} {tok : Nat → Nat} {tokbuf argloc argstr : Nat}
    (hargloc : argloc = proc.prstkbase + 4 - proc.prstklen)
    (hargstr : argstr = argloc + 4 * (strings.length + 1))
    (haligned : argloc % 4 = 0) (hlow : proc.prstklen ≤ proc.prstkbase)
    (hhigh : proc.prstkbase + 4 < 2 ^ 32) (hne : strings ≠ [])
    (hdummy : dummy ∉ ws) (hframe : m.Words proc.prstkptr (ws ++ dummy :: rest))
    (hslot : proc.prstkptr + 4 * ws.length < proc.prstkbase)
    (hroom : argstr + (packed strings).length ≤ proc.prstkptr)
    (htok : ∀ i, i < strings.length → tok i = start strings i)
    (htokbuf : m.read tokbuf (packed strings).length = packed strings)
    (hapart : tokbuf + (packed strings).length ≤ argloc ∨ argstr ≤ tokbuf) :
    ∃ m', addargs m proc strings.length tok (packed strings).length tokbuf dummy = (m', .ok) ∧
      m'.Words proc.prstkptr (ws ++ argloc.toUInt32 :: rest) ∧
      m'.Words argloc (argVector argstr strings) ∧
      m'.read argstr (packed strings).length = packed strings ∧
      m.SameOutside m' argloc (proc.prstkptr + 4 * ws.length + 4) := by
  have hpos := List.length_pos_of_ne_nil hne
  have hloc : add32 (add32 (sub32 proc.prstkbase proc.prstklen) 4) 3 / 4 * 4 = argloc := by
    rw [sub32_of_le hlow (by omega),
      add32_of_lt (x := proc.prstkbase - proc.prstklen) (y := 4) (by omega),
      add32_of_lt (by omega)]
    omega
  have hvector : ((List.range strings.length).map fun i => (argstr + tok i).toUInt32) ++ [0] =
      argVector argstr strings := by
    rw [argVector]
    congr 1
    exact List.map_congr_left fun i hi => by rw [htok i (List.mem_range.mp hi)]
  obtain ⟨m₁, hm₁⟩ : ∃ m₁, m₁ = m.storeAll argloc (argVector argstr strings) := ⟨_, rfl⟩
  have hwords₁ := words_storeAll m argloc (argVector argstr strings)
  have hsame₁ := storeAll_sameOutside m argloc (argVector argstr strings)
  rw [length_argVector, ← hargstr, ← hm₁] at hsame₁
  rw [← hm₁] at hwords₁
  have hcopy : m₁.read tokbuf (packed strings).length = packed strings := by
    rw [hsame₁.read hapart, htokbuf]
  obtain ⟨m₂, hm₂⟩ : ∃ m₂, m₂ = m₁.write argstr (packed strings) := ⟨_, rfl⟩
  have hsame₂ := m₁.write_sameOutside argstr (packed strings)
  rw [← hm₂] at hsame₂
  have hwords₂ : m₂.Words argloc (argVector argstr strings) :=
    hsame₂.words (.inl (by rw [length_argVector, hargstr])) hwords₁
  have hstrings₂ : m₂.read argstr (packed strings).length = packed strings := by
    rw [hm₂, read_write_self]
  have hframe₂ : m₂.Words proc.prstkptr (ws ++ dummy :: rest) :=
    hsame₂.words (.inr hroom) (hsame₁.words (.inr (by omega)) hframe)
  have hsearch := searchWord_eq hframe₂ hdummy
    (show ws.length < (proc.prstkbase - proc.prstkptr + 3) / 4 by omega)
  have hlast := m₂.store32_sameOutside (proc.prstkptr + 4 * ws.length) argloc.toUInt32
  refine ⟨m₂.store32 (proc.prstkptr + 4 * ws.length) argloc.toUInt32, ?_, ?_, ?_, ?_, ?_⟩
  · rw [addargs, if_neg (by omega)]
    simp only [Int.toNat_natCast]
    rw [hloc, ← hargstr, hvector, ← hm₁, hcopy, ← hm₂, hsearch]
  · have hset := hframe₂.store32 ws.length argloc.toUInt32
    rwa [List.set_append_right _ _ (Nat.le_refl _), Nat.sub_self, List.set_cons_zero] at hset
  · exact hlast.words (.inl (by rw [length_argVector]; omega)) hwords₂
  · rw [hlast.read (.inl (by omega)), hstrings₂]
  · exact ((hsame₁.mono (Nat.le_refl _) (by omega)).trans
      (hsame₂.mono (by omega) (by omega))).trans (hlast.mono (by omega) (Nat.le_refl _))

end Stack

/-! ## The call -/

section Spawn

variable {m : Mem} {saddr tokbuf tmparg : Nat} {cfunc initret : UInt32} {s : Lexan}
  {line : ShellLine} {ts args : List ShToken} {input output : Option ShToken} {backgnd : Bool}

/-- The strings that are left are the first ones of `tokbuf`. -/
theorem ShellLine.Left.packed_read (h : line.Left s ts args input output backgnd)
    (hrow : s.Row ts) :
    s.tokbuf.read 0 (packed (args.map ShToken.text)).length = packed (args.map ShToken.text) ∧
      (packed (args.map ShToken.text)).length ≤ s.tbindex := by
  obtain ⟨behind, rfl⟩ := h.front
  have hbuf := hrow.tokbuf
  rw [hrow.tbindex, List.map_append, packed_append, List.length_append, Mem.read_add] at hbuf
  rw [hrow.tbindex, List.map_append, packed_append, List.length_append]
  exact ⟨(List.append_inj hbuf (by simp)).1, Nat.le_add_right _ _⟩

/-- What `ctxsw` pops from the stack of a process that is called with two arguments. -/
theorem ctxswResume_frame {sp : Nat} {x y base ntok argv : UInt32}
    (h : m.Words sp ([0, 0, x, y, 0, 0, 0, 0, 0x200, base, cfunc, initret] ++ [ntok, argv])) :
    (ctxswResume m sp).eip = cfunc ∧ (ctxswResume m sp).eflags = 0x200 ∧
      m.load32 (ctxswResume m sp).esp = initret ∧
      m.load32 ((ctxswResume m sp).esp + 4) = ntok ∧
      m.load32 ((ctxswResume m sp).esp + 8) = argv :=
  ⟨h 10 cfunc rfl, h 8 0x200 rfl, h 11 initret rfl, h 12 ntok rfl, h 13 argv rfl⟩

theorem toUInt32_inj_of_lt {x y : Nat} (hx : x < 2 ^ 32) (hy : y < 2 ^ 32)
    (h : x.toUInt32 = y.toUInt32) : x = y := by
  have heq : (UInt32.ofNat x).toNat = (UInt32.ofNat y).toNat := congrArg UInt32.toNat h
  rwa [UInt32.toNat_ofNat_of_lt' hx, UInt32.toNat_ofNat_of_lt' hy] at heq

/-- The address of `tmparg` is on the stack once. -/
theorem InMemory.dummy_notMem (h : InMemory m saddr cfunc initret s tokbuf tmparg) {ntok : Nat}
    (hntok : ntok ≤ shellMaxtok) :
    tmparg.toUInt32 ∉ [0, 0, (saddr - 20).toUInt32, (saddr - 56).toUInt32, 0, 0, 0, 0, 0x200,
      saddr.toUInt32, cfunc, initret, ntok.toUInt32] := by
  obtain ⟨-, hlow, hhigh, -, -, hrange, hapart, hne⟩ := h
  unfold shellMaxtok shellCmdstk at *
  have hother : ∀ x : Nat, x < 2 ^ 32 → tmparg ≠ x → tmparg.toUInt32 ≠ x.toUInt32 :=
    fun x hx hxne heq => hxne (toUInt32_inj_of_lt hrange.2 hx heq)
  have hzero : tmparg.toUInt32 ≠ 0 := hother 0 (by omega) (by omega)
  have hflags : tmparg.toUInt32 ≠ 0x200 := hother 0x200 (by omega) (by omega)
  have hsavsp := hother (saddr - 20) (by omega) (by omega)
  have hsp := hother (saddr - 56) (by omega) (by omega)
  have hbase := hother saddr (by omega) (by omega)
  have hcount := hother ntok (by omega) (by omega)
  simp only [List.mem_cons, List.not_mem_nil, or_false, not_or]
  exact ⟨hzero, hzero, hsavsp, hsp, hzero, hzero, hzero, hzero, hflags, hbase, hne.1, hne.2, hcount⟩

theorem spawn_called (hrow : s.Row ts) (hcount : ts.length ≤ shellMaxtok)
    (htokbuf : s.tbindex ≤ shellArglen) (hleft : line.Left s ts args input output backgnd)
    (hne : args ≠ []) (hplaced : InMemory m saddr cfunc initret s tokbuf tmparg) :
    ∃ m', spawn m saddr cfunc initret s line tokbuf tmparg =
        (m', ⟨saddr - 56, saddr, shellCmdstk⟩, .ok) ∧
      Called m' (ctxswResume m' (saddr - 56)) cfunc initret (args.map ShToken.text) ∧
      m'.load32 saddr = stackMagic ∧
      m.SameOutside m' (saddr + 4 - shellCmdstk) (saddr + 4) := by
  have hdummy := hplaced.dummy_notMem (hleft.ntok.le.trans (hleft.front.length_le.trans hcount))
  obtain ⟨haligned, hlow, hhigh, htokens, hbufapart, -, -, -⟩ := hplaced
  obtain ⟨strings, hstrings⟩ : ∃ strings, strings = args.map ShToken.text := ⟨_, rfl⟩
  have hlen : strings.length = args.length := by rw [hstrings, List.length_map]
  obtain ⟨hpacked, hshort⟩ := hleft.packed_read hrow
  rw [← hstrings] at hpacked hshort
  have hfew : args.length ≤ shellMaxtok := hleft.front.length_le.trans hcount
  have htok : ∀ i, i < strings.length → s.tok i = start strings i := by
    intro i hi
    rw [hlen] at hi
    rw [hstrings]
    exact (hleft.string hrow (List.getElem?_eq_getElem hi)).1
  have hread : m.read tokbuf (packed strings).length = packed strings := by
    rw [← hpacked, length_read]
    exact (read_shift m tokbuf 0 _).symm.trans (read_congr fun i _ hi => htokens i (by omega))
  obtain ⟨argloc, hargloc⟩ : ∃ argloc, argloc = saddr + 4 - 8192 := ⟨_, rfl⟩
  obtain ⟨argstr, hargstr⟩ : ∃ argstr, argstr = argloc + 4 * (strings.length + 1) := ⟨_, rfl⟩
  unfold shellArglen shellBuflen shellMaxtok shellCmdstk at *
  have hargs : 4 * ([line.ntok.toUInt32, tmparg.toUInt32].length + 12) ≤ saddr := by
    simp only [List.length_cons, List.length_nil]
    omega
  obtain ⟨hframe, hmagic, hsame, hproc⟩ := createStack_frame m 8192 cfunc initret hargs
  obtain ⟨m₁, proc, hcreate⟩ : ∃ m₁ proc, createStack m saddr 8192 cfunc initret
    [line.ntok.toUInt32, tmparg.toUInt32] = (m₁, proc) := ⟨_, _, rfl⟩
  rw [hcreate] at hframe hmagic hsame hproc
  dsimp only [List.length_cons, List.length_nil, stackFrame, List.cons_append]
    at hframe hmagic hsame hproc
  subst hproc
  have hread₁ : m₁.read tokbuf (packed strings).length = packed strings := by
    rw [hsame.read (by omega), hread]
  obtain ⟨m', hadd, hwords, hvector, hrow', hsame'⟩ := addargs_eq
    ⟨saddr - 56, saddr, 8192⟩ [] hargloc hargstr (by omega) (by omega) hhigh (by
      rw [hstrings]
      simpa using hne) hdummy hframe (by simp only [List.length_cons, List.length_nil]; omega)
    (by dsimp only; omega) htok hread₁ (by omega)
  simp only [List.length_cons, List.length_nil] at hsame'
  refine ⟨m', ?_, ?_, ?_, ?_⟩
  · rw [spawn, show stackSize 8192 = 8192 from rfl, hcreate]
    dsimp only
    rw [hleft.tlen, hleft.ntok, ← hstrings, ← hlen, hadd]
  · obtain ⟨heip, heflags, hret, hargc, hargv⟩ := ctxswResume_frame hwords
    have hlocNat : (m'.load32 ((ctxswResume m' (saddr - 56)).esp + 8)).toNat = argloc := by
      rw [hargv]
      exact UInt32.toNat_ofNat_of_lt' (show argloc < 2 ^ 32 by omega)
    refine ⟨heip, heflags, hret, ?_, fun i string hi => ?_, ?_⟩
    · rw [hargc, hleft.ntok, List.length_map]
    · rw [← hstrings] at hi
      have hlt := (List.getElem?_eq_some_iff.mp hi).1
      have hentry := hvector i (argstr + start strings i).toUInt32 (getElem?_argVector argstr hlt)
      have hend := start_add_length_lt hi
      rw [hlocNat, hentry]
      change m'.read (UInt32.ofNat (argstr + start strings i)).toNat (string.length + 1) = _
      rw [UInt32.toNat_ofNat_of_lt' (by unfold UInt32.size; omega)]
      exact read_packed hrow' hi
    · rw [hlocNat, ← hstrings]
      exact hvector strings.length 0 (getElem?_argVector_last argstr strings)
  · rw [hsame'.load32 (.inr (by omega)), hmagic]
  · exact (hsame.mono (by omega) (Nat.le_refl _)).trans (hsame'.mono (by omega) (by omega))

/-- A line for which the shell starts a process has the syntax of a command with the name of the
process's function, and the function is called with the arguments of that command.  Of the bytes
of the memory only the stack of the process changes; the table of the processes, the free list
and the stack of the process that is left are not part of it. -/
theorem shell_starts_command {sys : ShellCalls} {dev child stdinput stdoutput : Nat}
    {text : List UInt8} (hline : shNewline ∉ text) (hlen : text.length + 1 ≤ shellBuflen)
    {s s' : Lexan} {j : Nat}
    (hround : shellRound sys dev (text ++ [shNewline]) s =
      .ok (s', some (.spawn j line child stdinput stdoutput)))
    (hplaced : InMemory m saddr cfunc initret s' tokbuf tmparg) :
    ∃ ts args input output backgnd m', Accepted shellMaxtok (lineText text) ts ∧
      CommandLine ts args input output backgnd ∧ NamesCommand args j false ∧
      spawn m saddr cfunc initret s' line tokbuf tmparg =
        (m', ⟨saddr - 56, saddr, shellCmdstk⟩, .ok) ∧
      Called m' (ctxswResume m' (saddr - 56)) cfunc initret (args.map ShToken.text) ∧
      m'.load32 saddr = stackMagic ∧
      m.SameOutside m' (saddr + 4 - shellCmdstk) (saddr + 4) := by
  obtain ⟨r, s'', hok, -, hsome⟩ := lexan_row hline hlen s
  rw [shellRound, hok, Lexan.ok_bind] at hround
  cases r with
  | none => cases hround
  | some n =>
    cases n with
    | zero => cases hround
    | succ n =>
      obtain ⟨ts, hts, hn, hnull, hrow, htlen, htokbuf⟩ := hsome (n + 1) rfl
      obtain ⟨rfl, hstep⟩ := Prod.mk.inj (Except.ok.inj hround)
      have hne := List.ne_nil_of_length_eq_add_one hn
      rw [← hn] at hstep
      obtain ⟨args, input, output, backgnd, hcmd, hnames, hleft, -⟩ :=
        (understands_of_row hrow htlen htokbuf hnull sys dev hne).spawned j line child stdinput
          stdoutput (Option.some.inj hstep)
      obtain ⟨m', hspawn, hcalled, hmagic, hsame⟩ := spawn_called hrow hts.length_le htokbuf
        hleft hcmd.args_ne_nil hplaced
      exact ⟨ts, args, input, output, backgnd, m', hts, hcmd, hnames, hspawn, hcalled, hmagic,
        hsame⟩

end Spawn

/-- The memory of a machine with the array at 0x100000. -/
def tokbufMemory (s : Lexan) : Mem := fun i => s.tokbuf (i - 0x100000)

theorem shell_starts_cat : ∃ s' line ts args input output backgnd m',
    shellRound noFiles 0 (chars "cat a b &" ++ [shNewline]) clearLexan =
      .ok (s', some (.spawn 2 line 5 0 0)) ∧
    CommandLine ts args input output backgnd ∧ NamesCommand args 2 false ∧
    spawn (tokbufMemory s') 0x20000 0x9000 0xa000 s' line 0x100000 0x110000 =
      (m', ⟨0x20000 - 56, 0x20000, shellCmdstk⟩, .ok) ∧
    Called m' (ctxswResume m' (0x20000 - 56)) 0x9000 0xa000 (args.map ShToken.text) := by
  obtain ⟨s', line, hround⟩ : ∃ s' line,
      shellRound noFiles 0 (chars "cat a b &" ++ [shNewline]) clearLexan =
        .ok (s', some (.spawn 2 line 5 0 0)) := ⟨_, _, rfl⟩
  have hplaced : InMemory (tokbufMemory s') 0x20000 0x9000 0xa000 s' 0x100000 0x110000 :=
    ⟨by decide, by decide, by decide, fun i _ => by
      rw [tokbufMemory, Nat.add_sub_cancel_left], by decide, by decide, by decide, by decide⟩
  obtain ⟨ts, args, input, output, backgnd, m', -, hcmd, hnames, hspawn, hcalled, -⟩ :=
    shell_starts_command (by decide) (by decide) hround hplaced
  exact ⟨s', line, ts, args, input, output, backgnd, m', hround, hcmd, hnames, hspawn, hcalled⟩

end NatBox
