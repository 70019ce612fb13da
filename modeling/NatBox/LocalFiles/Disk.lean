import Mathlib.Algebra.Ring.Nat
import Mathlib.Logic.Function.Basic

/-
The disk of the local file system: the directory, index blocks, data blocks and their free lists.

A sector holds the directory, seven index blocks, the link of a free data block or the bytes of
a data block.  To read a sector as something else than it holds, or one that is not there, is
`badSector`.  A null pointer of the source is `none`.  Each call of the file system runs to its
end before the next one, so that nobody waits for its mutexes.
-/

namespace NatBox

namespace Lfs

open Function

/-- `LF_BLKSIZ` -/
abbrev lfBlksiz : Nat := 512

/-- `LF_NAME_LEN` -/
abbrev lfNameLen : Nat := 16

/-- `LF_NUM_DIR_ENT` -/
abbrev lfNumDirEnt : Nat := 20

/-- `LF_IBLEN` -/
abbrev lfIblen : Nat := 16

/-- `LF_IDATA` -/
abbrev lfIdata : Nat := 8192

/-- `Nlfl` -/
abbrev nlfl : Nat := 6

/-- `LF_AREA_IB` -/
abbrev lfAreaIb : Nat := 1

/-- `LF_AREA_DIR` -/
abbrev lfAreaDir : Nat := 0

/-- `LFS_ID` -/
def lfsId : UInt32 := 0x58696E75

/-- `struct lfiblk` -/
structure Lfiblk where
  ib_next : Option Nat
  ib_offset : Nat
  ib_dba : Nat → Option Nat

/-- `struct ldentry` -/
structure Ldentry where
  ld_size : Nat
  ld_ilist : Option Nat
  ld_name : List Char

/-- `struct lfdir` -/
structure Lfdir where
  lfd_fsysid : UInt32
  lfd_allzeros : UInt32
  lfd_allones : UInt32
  lfd_dfree : Option Nat
  lfd_ifree : Option Nat
  lfd_nfiles : Int
  lfd_files : Nat → Ldentry
  lfd_revid : UInt32

inductive Sector
  | dir (d : Lfdir)
  | index (blocks : Nat → Lfiblk)
  | free (nextdb : Option Nat)
  | data (bytes : Nat → UInt8)

/-- `struct lflcblk`: `used` is whether `lfstate` is `LF_USED`, `lfdirptr` the number of the
entry in the directory, and `lfbyte` an offset into `lfdblock`. -/
structure Lflcblk where
  used : Bool
  lfdirptr : Nat
  lfpos : Nat
  lfname : List Char
  lfinum : Option Nat
  lfiblock : Lfiblk
  lfdnum : Option Nat
  lfdblock : Nat → UInt8
  lfbyte : Nat
  lfibdirty : Bool
  lfdbdirty : Bool

/-- Why a call does not return: the two calls of `panic`, and what the source leaves
undefined. -/
inductive LfFault
  | outOfIndexBlocks
  | outOfDataBlocks
  | badSector
  | endlessLoop
  deriving DecidableEq

end Lfs

open Lfs

/-- The disk, `Lf_data` and `lfltab`. -/
structure LocalFiles where
  nsectors : Nat
  disk : Nat → Sector
  lf_dir : Lfdir
  lf_dirpresent : Bool
  lf_dirdirty : Bool
  lfltab : Fin nlfl → Lflcblk

namespace LocalFiles

open Function

variable (s : LocalFiles)

/-! ## Sectors -/

def read (blk : Nat) : Except LfFault Sector :=
  if blk < s.nsectors then .ok (s.disk blk) else .error .badSector

def write (blk : Nat) (sector : Sector) : Except LfFault LocalFiles :=
  if blk < s.nsectors then .ok { s with disk := update s.disk blk sector }
  else .error .badSector

/-- The directory goes to the disk. -/
def writeDir : Except LfFault LocalFiles := s.write lfAreaDir (.dir s.lf_dir)

def setFile (d : Fin nlfl) (f : Lflcblk) : LocalFiles :=
  { s with lfltab := update s.lfltab d f }

def setDir (dir : Lfdir) : LocalFiles := { s with lf_dir := dir }

def setEntry (i : Nat) (entry : Ldentry) : LocalFiles :=
  s.setDir { s.lf_dir with lfd_files := update s.lf_dir.lfd_files i entry }

/-- The entry of an open file in the directory. -/
def ldptr (d : Fin nlfl) : Ldentry := s.lf_dir.lfd_files (s.lfltab d).lfdirptr

/-- A number that must not be null. -/
def block : Option Nat → Except LfFault Nat
  | none => .error .badSector
  | some num => .ok num

/-! ## Index blocks -/

/-- `ib2sect` -/
def ib2sect (ib : Nat) : Nat := ib / 7 + lfAreaIb

/-- `ib2disp`, in index blocks. -/
def ib2disp (ib : Nat) : Nat := ib % 7

def lfibget (inum : Nat) : Except LfFault Lfiblk := do
  match ← s.read (ib2sect inum) with
  | .index blocks => .ok (blocks (ib2disp inum))
  | _ => .error .badSector

def lfibput (inum : Nat) (ibuff : Lfiblk) : Except LfFault LocalFiles := do
  match ← s.read (ib2sect inum) with
  | .index blocks => s.write (ib2sect inum) (.index (update blocks (ib2disp inum) ibuff))
  | _ => .error .badSector

def lfibclear (offset : Nat) : Lfiblk := ⟨none, offset, fun _ => none⟩

def lfiballoc : Except LfFault (Nat × LocalFiles) :=
  match s.lf_dir.lfd_ifree with
  | none => .error .outOfIndexBlocks
  | some ibnum => do
    let iblock ← s.lfibget ibnum
    let s ← (s.setDir { s.lf_dir with lfd_ifree := iblock.ib_next }).writeDir
    .ok (ibnum, { s with lf_dirdirty := false })

/-! ## Data blocks -/

/-- `DFILL` -/
def dfill : UInt8 := 43

/-- The number of the block and what is in the buffer. -/
def lfdballoc : Except LfFault (Nat × (Nat → UInt8) × LocalFiles) :=
  match s.lf_dir.lfd_dfree with
  | none => .error .outOfDataBlocks
  | some dnum => do
    match ← s.read dnum with
    | .free nextdb =>
      let s ← (s.setDir { s.lf_dir with lfd_dfree := nextdb }).writeDir
      .ok (dnum, fun _ => dfill, { s with lf_dirdirty := false })
    | _ => .error .badSector

def lfdbfree (dnum : Nat) : Except LfFault LocalFiles := do
  let nextdb := s.lf_dir.lfd_dfree
  let s := s.setDir { s.lf_dir with lfd_dfree := some dnum }
  let s ← s.write dnum (.free nextdb)
  s.writeDir

/-! ## Memory copies -/

/-- `lfflush` writes the directory, if it has changed. -/
def flushDir : Except LfFault LocalFiles :=
  if s.lf_dirdirty then do
    let s ← s.writeDir
    .ok { s with lf_dirdirty := false }
  else .ok s

/-- And the data block. -/
def flushData (d : Fin nlfl) : Except LfFault LocalFiles :=
  let lfptr := s.lfltab d
  if lfptr.lfdbdirty then do
    let s ← s.write (← block lfptr.lfdnum) (.data lfptr.lfdblock)
    .ok (s.setFile d { lfptr with lfdbdirty := false })
  else .ok s

/-- And the index block. -/
def flushIndex (d : Fin nlfl) : Except LfFault LocalFiles :=
  let lfptr := s.lfltab d
  if lfptr.lfibdirty then do
    let s ← s.lfibput (← block lfptr.lfinum) lfptr.lfiblock
    .ok (s.setFile d { lfptr with lfibdirty := false })
  else .ok s

/-- The status is not used. -/
def lfflush (d : Fin nlfl) : Except LfFault LocalFiles :=
  if (s.lfltab d).used then do
    let s ← s.flushDir
    let s ← s.flushData d
    s.flushIndex d
  else .ok s

end LocalFiles

end NatBox
