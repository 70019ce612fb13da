import NatBox.LocalFiles.Disk

/-
The calls on local files: `lfsopen` and those of the pseudo-devices.

`lfsetup` is cut into what finds the index block of the file position and what finds the data
block.  The positions and sizes of the source have 32 bits.
-/

namespace NatBox

namespace Lfs

/-- What a call returns.  `lflread` also puts bytes in the buffer of its caller, as many as it
returns. -/
inductive LfResult
  | ok
  | syserr
  | eof
  | byte (b : UInt8)
  | bytes (bs : List UInt8)
  | count (n : Nat)
  | device (d : Fin nlfl)
  deriving DecidableEq

/-- The bits of a mode that `lfsopen` looks at, and those that are looked at in parsing it. -/
structure LfMode where
  r : Bool
  w : Bool
  o : Bool
  n : Bool

/-- The loop of `lfgetmode`.  `none` is `SYSERR`. -/
def lfgetmodeLoop : List Char → LfMode → Option LfMode
  | [], mbits => some mbits
  | ch :: mode, mbits =>
    if ch = 'r' then if mbits.r then none else lfgetmodeLoop mode { mbits with r := true }
    else if ch = 'w' then if mbits.w then none else lfgetmodeLoop mode { mbits with w := true }
    else if ch = 'o' then
      if mbits.o || mbits.n then none else lfgetmodeLoop mode { mbits with o := true }
    else if ch = 'n' then
      if mbits.o || mbits.n then none else lfgetmodeLoop mode { mbits with n := true }
    else none

/-- The bits for reading and writing are not looked at again. -/
def lfgetmode (mode : List Char) : Option LfMode :=
  lfgetmodeLoop mode ⟨false, false, false, false⟩

/-- The loop of `lfsopen` that compares two names. -/
def sameName : List Char → List Char → Bool
  | [], cmp => cmp.isEmpty
  | _ :: _, [] => false
  | a :: nam, b :: cmp => if a = b then sameName nam cmp else false

/-- `LFS_ID` in reverse byte order. -/
def reverse : UInt32 :=
  ((lfsId >>> 24).land 0x000000ff).lor ((lfsId >>> 8).land 0x0000ff00) |>.lor
    ((lfsId <<< 8).land 0x00ff0000) |>.lor ((lfsId <<< 24).land 0xff000000)

def lfscheck (dir : Lfdir) : Bool :=
  dir.lfd_fsysid = lfsId && dir.lfd_allzeros = 0 && dir.lfd_allones = 0xffffffff &&
    dir.lfd_revid = reverse && !decide (dir.lfd_nfiles < 0)

/-- The loop of `lfsopen` that looks for the name in the directory, with the rounds to go. -/
def findName (dir : Lfdir) (name : List Char) : Nat → Nat → Option Nat
  | 0, _ => none
  | rounds + 1, i =>
    if sameName name (dir.lfd_files i).ld_name then some i else findName dir name rounds (i + 1)

inductive LfEvent
  | opens (name mode : List Char)
  | close (d : Fin nlfl)
  | read (d : Fin nlfl) (count : Int)
  | write (d : Fin nlfl) (buff : Nat → UInt8) (count : Int)
  | getc (d : Fin nlfl)
  | putc (d : Fin nlfl) (ch : UInt8)
  | seek (d : Fin nlfl) (offset : Nat)
  | control (d : Fin nlfl) (func : Int)

end Lfs

namespace LocalFiles

open Function Lfs

variable (s : LocalFiles)

/-! ## Finding the blocks of a position -/

/-- The index block with this number is the current one. -/
def loadIndex (d : Fin nlfl) (ibnum : Nat) (iblock : Lfiblk) : LocalFiles :=
  s.setFile d { s.lfltab d with lfinum := some ibnum, lfiblock := iblock }

/-- `lfsetup` brings an index block into memory, the first one of the file unless one not
behind the position is there. -/
def firstIndex (d : Fin nlfl) : Except LfFault LocalFiles :=
  let lfptr := s.lfltab d
  match lfptr.lfinum, (s.ldptr d).ld_ilist with
  | none, none => do
    let (ibnum, s) ← s.lfiballoc
    let s := s.setEntry lfptr.lfdirptr { s.ldptr d with ld_ilist := some ibnum }
    .ok (s.setFile d { lfptr with
      lfinum := some ibnum
      lfiblock := lfibclear 0
      lfibdirty := true })
  | none, some ibnum => do
    .ok (s.loadIndex d ibnum (← s.lfibget ibnum))
  | some _, ilist =>
    if lfptr.lfpos < lfptr.lfiblock.ib_offset then do
      let ibnum ← block ilist
      .ok (s.loadIndex d ibnum (← s.lfibget ibnum))
    else .ok s

/-- The loop of `lfsetup`. -/
def indexLoop (d : Fin nlfl) : Nat → LocalFiles → Except LfFault LocalFiles
  | 0, _ => .error .endlessLoop
  | fuel + 1, s =>
    let lfptr := s.lfltab d
    if lfptr.lfpos / lfIdata * lfIdata > lfptr.lfiblock.ib_offset then
      match lfptr.lfiblock.ib_next with
      | none => do
        let (ibnum, s) ← s.lfiballoc
        let s ← s.lfibput (← block lfptr.lfinum) { lfptr.lfiblock with ib_next := some ibnum }
        indexLoop d fuel (s.setFile d { lfptr with
          lfinum := some ibnum
          lfiblock := lfibclear ((lfptr.lfiblock.ib_offset + lfIdata) % 2 ^ 32)
          lfibdirty := true
          lfdnum := none })
      | some ibnum => do
        let iblock ← s.lfibget ibnum
        indexLoop d fuel (s.setFile d { lfptr with
          lfinum := some ibnum
          lfiblock := iblock
          lfdnum := none })
    else .ok s

/-- `lfsetup` brings the data block into memory. -/
def loadData (d : Fin nlfl) : Except LfFault LocalFiles :=
  let lfptr := s.lfltab d
  let dindex := lfptr.lfpos % lfIdata / lfBlksiz
  match lfptr.lfiblock.ib_dba dindex with
  | none => do
    let (dnum, buff, s) ← s.lfdballoc
    .ok (s.setFile d { lfptr with
      lfiblock := { lfptr.lfiblock with ib_dba := update lfptr.lfiblock.ib_dba dindex (some dnum) }
      lfibdirty := true
      lfdnum := some dnum
      lfdblock := buff
      lfbyte := lfptr.lfpos % lfBlksiz })
  | some dnum =>
    if some dnum ≠ lfptr.lfdnum then do
      match ← s.read dnum with
      | .data bytes =>
        .ok (s.setFile d { lfptr with
          lfdnum := some dnum
          lfdblock := bytes
          lfdbdirty := false
          lfbyte := lfptr.lfpos % lfBlksiz })
      | _ => .error .badSector
    else .ok (s.setFile d { lfptr with lfbyte := lfptr.lfpos % lfBlksiz })

/-- An index list that does not end has more rounds than there can be index blocks. -/
def lfsetup (d : Fin nlfl) : Except LfFault LocalFiles := do
  let s ← (if (s.lfltab d).lfibdirty || (s.lfltab d).lfdbdirty then s.lfflush d else .ok s)
  let s ← s.firstIndex d
  let s ← indexLoop d (7 * s.nsectors + 1) s
  s.loadData d

/-! ## Bytes -/

def lflputc (d : Fin nlfl) (ch : UInt8) : Except LfFault (LfResult × LocalFiles) :=
  if !(s.lfltab d).used then .ok (.syserr, s)
  else if (s.lfltab d).lfpos > (s.ldptr d).ld_size then .ok (.syserr, s)
  else do
    let s ← (if (s.lfltab d).lfbyte ≥ lfBlksiz then s.lfsetup d else .ok s)
    let lfptr := s.lfltab d
    let s :=
      if lfptr.lfpos ≥ (s.ldptr d).ld_size then
        { s.setEntry lfptr.lfdirptr { s.ldptr d with ld_size := ((s.ldptr d).ld_size + 1) % 2 ^ 32 }
          with lf_dirdirty := true }
      else s
    .ok (.ok, s.setFile d { lfptr with
      lfdblock := update lfptr.lfdblock lfptr.lfbyte ch
      lfbyte := lfptr.lfbyte + 1
      lfpos := (lfptr.lfpos + 1) % 2 ^ 32
      lfdbdirty := true })

def lflgetc (d : Fin nlfl) : Except LfFault (LfResult × LocalFiles) :=
  if !(s.lfltab d).used then .ok (.syserr, s)
  else if (s.lfltab d).lfpos ≥ (s.ldptr d).ld_size then .ok (.eof, s)
  else do
    let s ← (if (s.lfltab d).lfbyte ≥ lfBlksiz then s.lfsetup d else .ok s)
    let lfptr := s.lfltab d
    .ok (.byte (lfptr.lfdblock lfptr.lfbyte), s.setFile d { lfptr with
      lfbyte := lfptr.lfbyte + 1
      lfpos := (lfptr.lfpos + 1) % 2 ^ 32 })

/-- The loop of `lflwrite`, with the rounds to go. -/
def lflwriteLoop (d : Fin nlfl) (buff : Nat → UInt8) :
    Nat → Nat → LocalFiles → Except LfFault (LfResult × LocalFiles)
  | 0, i, s => .ok (.count i, s)
  | rounds + 1, i, s => do
    match ← s.lflputc d (buff i) with
    | (.syserr, s) => .ok (.syserr, s)
    | (_, s) => lflwriteLoop d buff rounds (i + 1) s

def lflwrite (d : Fin nlfl) (buff : Nat → UInt8) (count : Int) :
    Except LfFault (LfResult × LocalFiles) :=
  if count < 0 then .ok (.syserr, s) else lflwriteLoop d buff count.toNat 0 s

/-- The loop of `lflread`, with what is in the buffer. -/
def lflreadLoop (d : Fin nlfl) :
    Nat → List UInt8 → LocalFiles → Except LfFault (LfResult × LocalFiles)
  | 0, buff, s => .ok (.bytes buff, s)
  | rounds + 1, buff, s => do
    match ← s.lflgetc d with
    | (.byte b, s) => lflreadLoop d rounds (buff ++ [b]) s
    | (.eof, s) => .ok (if buff = [] then .eof else .bytes buff, s)
    | (_, s) => .ok (.syserr, s)

def lflread (d : Fin nlfl) (count : Int) : Except LfFault (LfResult × LocalFiles) :=
  if count < 0 then .ok (.syserr, s) else lflreadLoop d count.toNat [] s

def lflseek (d : Fin nlfl) (offset : Nat) : LfResult × LocalFiles :=
  if !(s.lfltab d).used then (.syserr, s)
  else if offset > (s.ldptr d).ld_size then (.syserr, s)
  else (.ok, s.setFile d { s.lfltab d with lfpos := offset, lfbyte := lfBlksiz })

/-! ## Truncation -/

/-- The data blocks of an index block go to the free list. -/
def freeBlocks (iblock : Lfiblk) : Nat → Nat → LocalFiles → Except LfFault LocalFiles
  | 0, _, s => .ok s
  | rounds + 1, i, s => do
    let s ← (match iblock.ib_dba i with
      | some nextdb => s.lfdbfree nextdb
      | none => .ok s)
    freeBlocks iblock rounds (i + 1) s

/-- The loop of `lftruncate`. -/
def truncateLoop (ifree : Option Nat) : Nat → Option Nat → LocalFiles → Except LfFault LocalFiles
  | 0, _, _ => .error .endlessLoop
  | fuel + 1, nextib, s =>
    if nextib ≠ ifree then do
      let nextib ← block nextib
      let iblock ← s.lfibget nextib
      let s ← freeBlocks iblock lfIblen 0 s
      let ib_next := if iblock.ib_next = none then ifree else iblock.ib_next
      let s ← s.lfibput nextib ⟨ib_next, 0, fun _ => none⟩
      truncateLoop ifree fuel ib_next s
    else .ok s

/-- An open file that is empty. -/
def truncated (lfptr : Lflcblk) : Lflcblk :=
  { lfptr with lfpos := 0, lfinum := none, lfdnum := none, lfbyte := lfBlksiz }

def lftruncate (d : Fin nlfl) : Except LfFault (LfResult × LocalFiles) :=
  if (s.ldptr d).ld_size = 0 then .ok (.ok, s)
  else do
    let s ← (if (s.lfltab d).lfibdirty || (s.lfltab d).lfdbdirty then s.lfflush d else .ok s)
    let ifree := s.lf_dir.lfd_ifree
    let firstib := (s.ldptr d).ld_ilist
    let s := s.setFile d (truncated (s.lfltab d))
    let s := { s.setEntry (s.lfltab d).lfdirptr { s.ldptr d with ld_ilist := none, ld_size := 0 }
      with lf_dirdirty := true }
    let s ← truncateLoop ifree (7 * s.nsectors + 1) firstib s
    .ok (.ok, { s.setDir { s.lf_dir with lfd_ifree := firstib } with lf_dirdirty := true })

/-- `LF_CTL_TRUNC` -/
abbrev lfCtlTrunc : Int := 2

def lflcontrol (d : Fin nlfl) (func : Int) : Except LfFault (LfResult × LocalFiles) :=
  if !(s.lfltab d).used then .ok (.syserr, s)
  else if func = lfCtlTrunc then s.lftruncate d
  else .ok (.syserr, s)

/-! ## Opening and closing -/

def lflclose (d : Fin nlfl) : Except LfFault (LfResult × LocalFiles) :=
  if !(s.lfltab d).used then .ok (.syserr, s)
  else do
    let s ← (if s.lf_dirdirty || (s.lfltab d).lfdbdirty || (s.lfltab d).lfibdirty then
      s.lfflush d else .ok s)
    .ok (.ok, s.setFile d { s.lfltab d with used := false })

/-- The loop of `lfsopen` over the pseudo-devices: the first free one, unless the file is
open. -/
def freeDevice (name : List Char) : List (Fin nlfl) → Option (Fin nlfl) → Option (Fin nlfl)
  | [], lfnext => lfnext
  | i :: rest, lfnext =>
    if !(s.lfltab i).used then freeDevice name rest (if lfnext = none then some i else lfnext)
    else if sameName name (s.lfltab i).lfname then none
    else freeDevice name rest lfnext

/-- `lfsopen` obtains the directory.  `false` is where it returns `SYSERR`. -/
def loadDir : Except LfFault (Bool × LocalFiles) :=
  if s.lf_dirpresent then .ok (true, s)
  else do
    match ← s.read lfAreaDir with
    | .dir dir =>
      if lfscheck dir then .ok (true, { s.setDir dir with lf_dirpresent := true })
      else .ok (false, s.setDir dir)
    | _ => .error .badSector

/-- `lfsopen` creates a file: the number of its entry. -/
def newEntry (name : List Char) : Nat × LocalFiles :=
  let i := s.lf_dir.lfd_nfiles.toNat
  (i, (s.setDir { s.lf_dir with lfd_nfiles := s.lf_dir.lfd_nfiles + 1 }).setEntry i ⟨0, none, name⟩)

/-- `lfsopen` initialises the pseudo-device. -/
def initDevice (d : Fin nlfl) (i : Nat) (name : List Char) : LocalFiles :=
  s.setFile d { s.lfltab d with
    used := true
    lfdirptr := i
    lfpos := 0
    lfname := name
    lfinum := none
    lfdnum := none
    lfbyte := lfBlksiz
    lfibdirty := false
    lfdbdirty := false }

/-- `lfsopen` from where the directory is in memory. -/
def openNamed (name : List Char) (mbits : LfMode) (d : Fin nlfl) : LfResult × LocalFiles :=
  match findName s.lf_dir name s.lf_dir.lfd_nfiles.toNat 0 with
  | none =>
    if mbits.o then (.syserr, s)
    else if s.lf_dir.lfd_nfiles ≥ lfNumDirEnt then (.syserr, s)
    else
      let (i, s) := s.newEntry name
      (.device d, s.initDevice d i name)
  | some i => if mbits.n then (.syserr, s) else (.device d, s.initDevice d i name)

def lfsopen (name mode : List Char) : Except LfFault (LfResult × LocalFiles) :=
  if name.length ≥ lfNameLen then .ok (.syserr, s)
  else
    match lfgetmode mode with
    | none => .ok (.syserr, s)
    | some mbits =>
      match s.freeDevice name (List.finRange nlfl) none with
      | none => .ok (.syserr, s)
      | some d => do
        match ← s.loadDir with
        | (false, s) => .ok (.syserr, s)
        | (true, s) => .ok (s.openNamed name mbits d)

/-! ## Steps -/

def step (s : LocalFiles) : LfEvent → Except LfFault (LfResult × LocalFiles)
  | .opens name mode => s.lfsopen name mode
  | .close d => s.lflclose d
  | .read d count => s.lflread d count
  | .write d buff count => s.lflwrite d buff count
  | .getc d => s.lflgetc d
  | .putc d ch => s.lflputc d ch
  | .seek d offset => .ok (s.lflseek d offset)
  | .control d func => s.lflcontrol d func

/-- A pseudo-device as `lflinit` leaves it. -/
def freeFile : Lflcblk where
  used := false
  lfdirptr := 0
  lfpos := 0
  lfname := []
  lfinum := none
  lfiblock := ⟨some 0, 0, fun _ => some 0⟩
  lfdnum := some 0
  lfdblock _ := 0
  lfbyte := lfBlksiz
  lfibdirty := false
  lfdbdirty := false

/-- The directory in memory as `lfsinit` leaves it. -/
def zeroDir : Lfdir where
  lfd_fsysid := 0
  lfd_allzeros := 0
  lfd_allones := 0
  lfd_dfree := some 0
  lfd_ifree := some 0
  lfd_nfiles := 0
  lfd_files _ := ⟨0, some 0, []⟩
  lfd_revid := 0

/-- `lfsinit` and `lflinit`. -/
def init (nsectors : Nat) (disk : Nat → Sector) : LocalFiles where
  nsectors := nsectors
  disk := disk
  lf_dir := zeroDir
  lf_dirpresent := false
  lf_dirdirty := false
  lfltab _ := freeFile

end LocalFiles

end NatBox
