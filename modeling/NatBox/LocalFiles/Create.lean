import NatBox.Lib.Chain
import NatBox.LocalFiles.Operations
import NatBox.Memory.Heap
import NatBox.Packet

/-
`lfscreate`: an empty file system on a disk.

Sectors are words here, since the index blocks and the lists are written over whatever the
disk held.  The lists come out right exactly where there is an index sector and a data
sector (`lfscreate_lists_iff`), but the identification that `lfscheck` asks for is never
written: `lfscreate_usable_iff`.
-/

namespace NatBox

namespace Lfs

open Chain Function

/-- An open disk device: the size in bytes and the words of each sector.  `isbaddev` is
whether its number is a bad one. -/
structure WordDisk where
  dsiz : UInt32
  isbaddev : Bool
  sectors : Nat → Nat → UInt32

/-- `LF_INULL` and `LF_DNULL` -/
def lfNull : UInt32 := 0xffffffff

/-- The words of `struct lfiblk`. -/
abbrev iblkWords : Nat := 18

namespace WordDisk

variable (disk : WordDisk)

def nsectors : Nat := disk.dsiz.toNat / lfBlksiz

/-- `none` is `SYSERR`. -/
def read (blk : Nat) : Except LfFault (Option (Nat → UInt32)) :=
  if disk.isbaddev then .ok none
  else if blk < disk.nsectors then .ok (some (disk.sectors blk))
  else .error .badSector

def write (buff : Nat → UInt32) (blk : Nat) : Except LfFault (Status × WordDisk) :=
  if disk.isbaddev then .ok (.syserr, disk)
  else if blk < disk.nsectors then .ok (.ok, { disk with sectors := update disk.sectors blk buff })
  else .error .badSector

/-- The words of an index block that `lfibclear` has cleared, with its `ib_next`. -/
def iblock (ib_next : UInt32) : Nat → UInt32
  | 0 => ib_next
  | 1 => 0
  | _ => lfNull

/-- The words of a sector with the index block number `inum` put in place. -/
def placeIblk (inum : Nat) (ibuff dbuff : Nat → UInt32) (w : Nat) : UInt32 :=
  let disp := LocalFiles.ib2disp inum * iblkWords
  if disp ≤ w ∧ w < disp + iblkWords then ibuff (w - disp) else dbuff w

/-- The status is not used. -/
def lfibput (inum : Nat) (ibuff : Nat → UInt32) : Except LfFault WordDisk := do
  match ← disk.read (LocalFiles.ib2sect inum) with
  | none => .ok disk
  | some dbuff => do
    let (_, disk) ← disk.write (placeIblk inum ibuff dbuff) (LocalFiles.ib2sect inum)
    .ok disk

/-- The list of free index blocks, with the rounds to go and the block behind the loop. -/
def createIndex : Nat → Nat → WordDisk → Except LfFault WordDisk
  | 0, i, disk => disk.lfibput i (iblock lfNull)
  | rounds + 1, i, disk => do
    let disk ← disk.lfibput i (iblock (.ofNat (i + 1)))
    createIndex rounds (i + 1) disk

/-- The words of a free data block. -/
def dblock (lf_nextdb : UInt32) : Nat → UInt32
  | 0 => lf_nextdb
  | _ => 0

/-- The list of free data blocks. -/
def createData : Nat → Nat → WordDisk → Except LfFault WordDisk
  | 0, dbindex, disk => do
    let (_, disk) ← disk.write (dblock lfNull) dbindex
    .ok disk
  | rounds + 1, dbindex, disk => do
    let (_, disk) ← disk.write (dblock (.ofNat (dbindex + 1))) dbindex
    createData rounds (dbindex + 1) disk

/-- The words of the directory. -/
def initialDir (dbindex : UInt32) : Nat → UInt32
  | 4 => dbindex
  | _ => 0

end WordDisk

/-- `LF_BLKSIZ / sizeof(struct lfiblk)` -/
def ibpersector : UInt32 := 7

/-- The number of sectors of index blocks that `lfscreate` computes. -/
def ibsectors (lfiblks : UInt32) : UInt32 := (lfiblks + (ibpersector - 1)) / ibpersector

/-- The first loop compares signed numbers, the second one unsigned numbers. -/
def lfscreate (disk : WordDisk) (lfiblks dsiz : UInt32) : Except LfFault (Status × WordDisk) := do
  let sectors := dsiz / .ofNat lfBlksiz
  let ibs := ibsectors lfiblks
  let lfiblks := ibs * ibpersector
  if sectors / 2 < ibs then .ok (.syserr, disk)
  else do
    let dbindex := ibs + 1
    let dblks := sectors - ibs - 1
    let (retval, disk) ← disk.write (WordDisk.initialDir dbindex) lfAreaDir
    if retval = .syserr then .ok (.syserr, disk)
    else do
      let disk ← WordDisk.createIndex (lfiblks.toInt32.toInt - 1).toNat 0 disk
      let disk ← WordDisk.createData (dblks - 1).toNat dbindex.toNat disk
      .ok (.ok, disk)

/-! ## What is on the disk -/

/-- A pointer. -/
def link (w : UInt32) : Option Nat := if w = lfNull then none else some w.toNat

/-- The characters of a name in the directory. -/
def nameChars (words : Nat → UInt32) (first : Nat) : List Char :=
  ((List.range lfNameLen).map fun k =>
    Char.ofNat ((words (first + k / 4)).toNat / 256 ^ (k % 4) % 256)).takeWhile (· ≠ '\x00')

/-- The directory in the words of a sector. -/
def dirOf (words : Nat → UInt32) : Lfdir where
  lfd_fsysid := words 0
  lfd_allzeros := words 2
  lfd_allones := words 3
  lfd_dfree := link (words 4)
  lfd_ifree := link (words 5)
  lfd_nfiles := (words 6).toInt32.toInt
  lfd_files i := ⟨(words (7 + 6 * i)).toNat, link (words (8 + 6 * i)), nameChars words (9 + 6 * i)⟩
  lfd_revid := words 127

/-- The link of an index block. -/
def nextIndex (sectors : Nat → Nat → UInt32) (ib : Nat) : Option Nat :=
  link (sectors (LocalFiles.ib2sect ib) (LocalFiles.ib2disp ib * iblkWords))

/-- The link of a free data block. -/
def nextData (sectors : Nat → Nat → UInt32) (b : Nat) : Option Nat := link (sectors b 0)

/-- The free lists have all blocks of their areas. -/
structure ListsComplete (ibs : Nat) (disk : WordDisk) : Prop where
  index : ∃ l, Leads (nextIndex disk.sectors) (dirOf (disk.sectors lfAreaDir)).lfd_ifree l ∧
    ∀ ib, ib ∈ l ↔ ib < 7 * ibs
  data : ∃ l, Leads (nextData disk.sectors) (dirOf (disk.sectors lfAreaDir)).lfd_dfree l ∧
    ∀ b, b ∈ l ↔ ibs < b ∧ b < disk.nsectors

/-- The arguments are rejected. -/
def Rejected (disk : WordDisk) (lfiblks : UInt32) : Prop :=
  disk.isbaddev = true ∨ disk.dsiz / .ofNat lfBlksiz / 2 < ibsectors lfiblks

/-- `lfscreate` returns `SYSERR` or leaves a usable file system. -/
def CreatesUsable (disk : WordDisk) (lfiblks : UInt32) : Prop :=
  lfscreate disk lfiblks disk.dsiz = .ok (.syserr, disk) ∨
    ∃ disk', lfscreate disk lfiblks disk.dsiz = .ok (.ok, disk') ∧
      lfscheck (dirOf (disk'.sectors lfAreaDir)) = true ∧
      ListsComplete (ibsectors lfiblks).toNat disk'

/-! ## Writing -/

namespace WordDisk

variable {disk disk' : WordDisk} {sectors : Nat → Nat → UInt32} {rounds i b : Nat}

/-- A sector is written. -/
def put (disk : WordDisk) (blk : Nat) (buff : Nat → UInt32) : WordDisk :=
  { disk with sectors := update disk.sectors blk buff }

theorem put_self (b : Nat) (buff : Nat → UInt32) : (disk.put b buff).sectors b = buff :=
  update_self _ _ _

theorem put_of_ne (h : i ≠ b) (buff : Nat → UInt32) :
    (disk.put b buff).sectors i = disk.sectors i :=
  update_of_ne h _ _

theorem write_of_lt (hgood : disk.isbaddev = false) (h : b < disk.nsectors)
    (buff : Nat → UInt32) : disk.write buff b = .ok (.ok, disk.put b buff) := by
  rw [write, if_neg (ne_true_of_eq_false hgood), if_pos h, put]

theorem write_of_le (hgood : disk.isbaddev = false) (h : disk.nsectors ≤ b)
    (buff : Nat → UInt32) : disk.write buff b = .error .badSector := by
  rw [write, if_neg (ne_true_of_eq_false hgood), if_neg (Nat.not_lt.mpr h)]

theorem lfibput_of_lt (hgood : disk.isbaddev = false)
    (h : LocalFiles.ib2sect i < disk.nsectors) (ibuff : Nat → UInt32) :
    disk.lfibput i ibuff = .ok (disk.put (LocalFiles.ib2sect i)
      (placeIblk i ibuff (disk.sectors (LocalFiles.ib2sect i)))) := by
  have hread : disk.read (LocalFiles.ib2sect i) =
      .ok (some (disk.sectors (LocalFiles.ib2sect i))) := by
    rw [read, if_neg (ne_true_of_eq_false hgood), if_pos h]
  rw [lfibput, hread]
  dsimp only [bind, Except.bind]
  rw [write_of_lt hgood h]

/-- An index block in place changes the link of this block only. -/
theorem nextIndex_place (sectors : Nat → Nat → UInt32) (i j : Nat) (ibuff : Nat → UInt32) :
    nextIndex (update sectors (LocalFiles.ib2sect i)
      (placeIblk i ibuff (sectors (LocalFiles.ib2sect i)))) j =
        if j = i then link (ibuff 0) else nextIndex sectors j := by
  unfold nextIndex
  by_cases hsect : LocalFiles.ib2sect j = LocalFiles.ib2sect i
  · rw [hsect, update_self, placeIblk]
    unfold LocalFiles.ib2sect LocalFiles.ib2disp lfAreaIb iblkWords at *
    by_cases hji : j = i
    · subst hji
      rw [if_pos rfl, if_pos ⟨Nat.le_refl _, Nat.lt_add_of_pos_right (by decide)⟩, Nat.sub_self]
    · rw [if_neg hji, if_neg (by omega)]
  · rw [update_of_ne hsect, if_neg fun hji => hsect (congrArg LocalFiles.ib2sect hji)]

theorem link_ofNat {n : Nat} (h : n < 2 ^ 32 - 1) : link (.ofNat n) = some n := by
  have hn : (UInt32.ofNat n).toNat = n := UInt32.toNat_ofNat_of_lt (show n < 2 ^ 32 by omega)
  have hne : UInt32.ofNat n ≠ lfNull := by
    intro heq
    have hnat := congrArg UInt32.toNat heq
    rw [hn] at hnat
    have hnull : lfNull.toNat = 2 ^ 32 - 1 := rfl
    omega
  rw [link, if_neg hne, hn]

/-- The first loop, where its last index block is on the disk. -/
theorem createIndex_ok (hgood : disk.isbaddev = false)
    (h : LocalFiles.ib2sect (i + rounds) < disk.nsectors) (hbig : i + rounds < 2 ^ 32 - 1) :
    ∃ sectors, createIndex rounds i disk = .ok { disk with sectors := sectors } ∧
      (∀ j, i ≤ j → j < i + rounds → nextIndex sectors j = some (j + 1)) ∧
      nextIndex sectors (i + rounds) = none ∧
      ∀ j < i, nextIndex sectors j = nextIndex disk.sectors j := by
  induction rounds generalizing i disk with
  | zero =>
    refine ⟨_, lfibput_of_lt hgood h _, by omega, ?_, ?_⟩
    · exact (nextIndex_place _ i i _).trans (if_pos rfl)
    · intro j hj
      exact (nextIndex_place _ i j _).trans (if_neg (by omega))
  | succ rounds ih =>
    have hfirst : LocalFiles.ib2sect i < disk.nsectors := by
      unfold LocalFiles.ib2sect at *
      omega
    have hput := lfibput_of_lt hgood hfirst (iblock (.ofNat (i + 1)))
    have hrest : i + 1 + rounds = i + (rounds + 1) := by omega
    obtain ⟨sectors, hloop, hlinks, hlast, hbefore⟩ := ih (i := i + 1)
      (show (disk.put (LocalFiles.ib2sect i) (placeIblk i (iblock (.ofNat (i + 1)))
        (disk.sectors (LocalFiles.ib2sect i)))).isbaddev = false from hgood)
      (by rw [hrest]; exact h) (by omega)
    refine ⟨sectors, ?_, ?_, ?_, ?_⟩
    · rw [createIndex, hput]
      exact hloop
    · intro j hle hlt
      rcases Nat.eq_or_lt_of_le hle with rfl | hlt'
      · rw [hbefore i (by omega)]
        refine (nextIndex_place _ i i _).trans ((if_pos rfl).trans ?_)
        exact link_ofNat (by omega)
      · exact hlinks j hlt' (by omega)
    · rw [← hrest]
      exact hlast
    · intro j hj
      rw [hbefore j (by omega)]
      exact (nextIndex_place _ i j _).trans (if_neg (by omega))

/-- The second loop, where its last block is on the disk. -/
theorem createData_ok (hgood : disk.isbaddev = false) (h : b + rounds < disk.nsectors) :
    ∃ sectors, createData rounds b disk = .ok { disk with sectors := sectors } ∧
      (∀ j, b ≤ j → j < b + rounds → nextData sectors j = some (j + 1)) ∧
      nextData sectors (b + rounds) = none ∧ ∀ j < b, sectors j = disk.sectors j := by
  have hsize : disk.nsectors < 2 ^ 32 - 1 := by
    have hlt := disk.dsiz.toNat_lt
    unfold nsectors lfBlksiz
    omega
  induction rounds generalizing b disk with
  | zero =>
    refine ⟨(disk.put b (dblock lfNull)).sectors, ?_, by omega, ?_, ?_⟩
    · rw [createData, write_of_lt hgood (show b < disk.nsectors from h)]
      rfl
    · rw [Nat.add_zero, nextData, put_self]
      rfl
    · exact fun j hj => put_of_ne (Nat.ne_of_lt hj) _
  | succ rounds ih =>
    obtain ⟨sectors, hloop, hlinks, hlast, hbefore⟩ := ih (b := b + 1)
      (show (disk.put b (dblock (.ofNat (b + 1)))).isbaddev = false from hgood)
      (show b + 1 + rounds < disk.nsectors by omega) hsize
    have hrest : b + 1 + rounds = b + (rounds + 1) := by omega
    refine ⟨sectors, ?_, ?_, ?_, ?_⟩
    · rw [createData, write_of_lt hgood (by omega)]
      exact hloop
    · intro j hle hlt
      rcases Nat.eq_or_lt_of_le hle with rfl | hlt'
      · rw [nextData, hbefore b (by omega), put_self]
        exact link_ofNat (by omega)
      · exact hlinks j hlt' (by omega)
    · rw [← hrest]
      exact hlast
    · intro j hj
      rw [hbefore j (by omega), put_of_ne (by omega)]

/-- A last block that is not on the disk. -/
theorem createData_fault (hgood : disk.isbaddev = false) (h : disk.nsectors ≤ b + rounds) :
    createData rounds b disk = .error .badSector := by
  induction rounds generalizing b disk with
  | zero =>
    rw [createData, write_of_le hgood (show disk.nsectors ≤ b from h)]
    rfl
  | succ rounds ih =>
    rw [createData]
    by_cases hb : b < disk.nsectors
    · rw [write_of_lt hgood hb]
      exact ih (show (disk.put b _).isbaddev = false from hgood)
        (show disk.nsectors ≤ b + 1 + rounds by omega)
    · rw [write_of_le hgood (Nat.not_lt.mp hb)]
      rfl

/-- The device and its directory stay as they are. -/
structure KeepsDir (disk disk' : WordDisk) : Prop where
  dsiz : disk'.dsiz = disk.dsiz
  isbaddev : disk'.isbaddev = disk.isbaddev
  dir : disk'.sectors lfAreaDir = disk.sectors lfAreaDir

theorem KeepsDir.trans {disk'' : WordDisk} (h : KeepsDir disk disk') (h' : KeepsDir disk' disk'') :
    KeepsDir disk disk'' :=
  ⟨h'.dsiz.trans h.dsiz, h'.isbaddev.trans h.isbaddev, h'.dir.trans h.dir⟩

theorem KeepsDir.nsectors_eq (h : KeepsDir disk disk') : disk'.nsectors = disk.nsectors := by
  rw [nsectors, h.dsiz, nsectors]

theorem write_keepsDir {buff : Nat → UInt32} {o : Status} (hb : 0 < b)
    (h : disk.write buff b = .ok (o, disk')) : KeepsDir disk disk' := by
  unfold write at h
  split at h
  · obtain ⟨-, rfl⟩ := Prod.mk.inj (Except.ok.inj h)
    exact ⟨rfl, rfl, rfl⟩
  · split at h
    · obtain ⟨-, rfl⟩ := Prod.mk.inj (Except.ok.inj h)
      exact ⟨rfl, rfl, update_of_ne (Nat.ne_of_lt hb) _ _⟩
    · cases h

theorem lfibput_keepsDir {ibuff : Nat → UInt32} (h : disk.lfibput i ibuff = .ok disk') :
    KeepsDir disk disk' := by
  obtain ⟨dbuff, -, h⟩ := bind_ok h
  cases dbuff with
  | none =>
    obtain rfl := Except.ok.inj h
    exact ⟨rfl, rfl, rfl⟩
  | some dbuff =>
    obtain ⟨⟨o, u⟩, hwrite, h⟩ := bind_ok h
    obtain rfl := Except.ok.inj h
    exact write_keepsDir (Nat.succ_pos _) hwrite

theorem createIndex_keepsDir (h : createIndex rounds i disk = .ok disk') :
    KeepsDir disk disk' := by
  induction rounds generalizing i disk with
  | zero => exact lfibput_keepsDir h
  | succ rounds ih =>
    obtain ⟨u, hput, h⟩ := bind_ok h
    exact (lfibput_keepsDir hput).trans (ih h)

theorem createData_keepsDir (hb : 0 < b) (h : createData rounds b disk = .ok disk') :
    KeepsDir disk disk' := by
  induction rounds generalizing b disk with
  | zero =>
    obtain ⟨⟨o, u⟩, hwrite, h⟩ := bind_ok h
    obtain rfl := Except.ok.inj h
    exact write_keepsDir hb hwrite
  | succ rounds ih =>
    obtain ⟨⟨o, u⟩, hwrite, h⟩ := bind_ok h
    exact (write_keepsDir hb hwrite).trans (ih (Nat.succ_pos b) h)

end WordDisk

/-! ## `lfscreate` -/

section Create

variable {disk disk' : WordDisk} {lfiblks : UInt32}

theorem toNat_sectors (disk : WordDisk) :
    (disk.dsiz / .ofNat lfBlksiz).toNat = disk.nsectors := by
  rw [UInt32.toNat_div]
  rfl

theorem not_rejected_iff : ¬ Rejected disk lfiblks ↔
    disk.isbaddev = false ∧ (ibsectors lfiblks).toNat ≤ disk.nsectors / 2 := by
  have hhalf : (disk.dsiz / .ofNat lfBlksiz / 2).toNat = disk.nsectors / 2 := by
    rw [UInt32.toNat_div, toNat_sectors]
    rfl
  rw [Rejected, not_or, Bool.not_eq_true, UInt32.lt_iff_toNat_lt, hhalf, Nat.not_lt]

theorem nsectors_lt (disk : WordDisk) : disk.nsectors < 2 ^ 23 := by
  have hlt := disk.dsiz.toNat_lt
  unfold WordDisk.nsectors lfBlksiz
  omega

theorem lfscreate_rejected (h : Rejected disk lfiblks) :
    lfscreate disk lfiblks disk.dsiz = .ok (.syserr, disk) := by
  rw [lfscreate]
  dsimp only
  split
  · rfl
  · rename_i hhalf
    rw [WordDisk.write, if_pos (h.resolve_right hhalf)]
    rfl

/-- The rounds of the first loop. -/
theorem index_rounds (hle : (ibsectors lfiblks).toNat ≤ disk.nsectors / 2) :
    ((ibsectors lfiblks * ibpersector).toInt32.toInt - 1).toNat =
      7 * (ibsectors lfiblks).toNat - 1 := by
  have hsize := nsectors_lt disk
  have hmul : (ibsectors lfiblks * ibpersector).toNat = 7 * (ibsectors lfiblks).toNat := by
    rw [UInt32.toNat_mul, show ibpersector.toNat = 7 from rfl]
    omega
  have hint : (ibsectors lfiblks * ibpersector).toInt32.toInt =
      (ibsectors lfiblks * ibpersector).toNat :=
    BitVec.toInt_eq_toNat_of_lt (show 2 * (ibsectors lfiblks * ibpersector).toNat < 2 ^ 32 by omega)
  rw [hint, hmul]
  omega

/-- Those of the second one, for a disk with a data block. -/
theorem data_rounds (hle : (ibsectors lfiblks).toNat + 2 ≤ disk.nsectors) :
    (disk.dsiz / .ofNat lfBlksiz - ibsectors lfiblks - 1 - 1).toNat =
      disk.nsectors - (ibsectors lfiblks).toNat - 2 := by
  have hsize := nsectors_lt disk
  have hone : (1 : UInt32).toNat = 1 := rfl
  rw [UInt32.toNat_sub, UInt32.toNat_sub, UInt32.toNat_sub, toNat_sectors, hone]
  omega

/-- Without one the number of rounds underflows. -/
theorem data_rounds_underflow (heq : (ibsectors lfiblks).toNat + 1 = disk.nsectors) :
    (disk.dsiz / .ofNat lfBlksiz - ibsectors lfiblks - 1 - 1).toNat = 2 ^ 32 - 1 := by
  have hsize := nsectors_lt disk
  have hone : (1 : UInt32).toNat = 1 := rfl
  rw [UInt32.toNat_sub, UInt32.toNat_sub, UInt32.toNat_sub, toNat_sectors, hone]
  omega

theorem toNat_dbindex (hle : (ibsectors lfiblks).toNat ≤ disk.nsectors / 2) :
    (ibsectors lfiblks + 1).toNat = (ibsectors lfiblks).toNat + 1 := by
  have hsize := nsectors_lt disk
  rw [UInt32.toNat_add, show (1 : UInt32).toNat = 1 from rfl]
  omega

/-- The sector of the directory is written and the loops follow. -/
theorem lfscreate_eq (hgood : disk.isbaddev = false)
    (hle : (ibsectors lfiblks).toNat ≤ disk.nsectors / 2) (hpos : 0 < disk.nsectors) :
    lfscreate disk lfiblks disk.dsiz = (do
      let disk₁ ← WordDisk.createIndex (7 * (ibsectors lfiblks).toNat - 1) 0
        (disk.put lfAreaDir (WordDisk.initialDir (ibsectors lfiblks + 1)))
      let disk₂ ← WordDisk.createData
        (disk.dsiz / .ofNat lfBlksiz - ibsectors lfiblks - 1 - 1).toNat
        ((ibsectors lfiblks).toNat + 1) disk₁
      .ok (.ok, disk₂)) := by
  have hhalf : ¬ disk.dsiz / .ofNat lfBlksiz / 2 < ibsectors lfiblks :=
    fun hlt => (not_rejected_iff.mpr ⟨hgood, hle⟩) (.inr hlt)
  rw [lfscreate]
  dsimp only
  rw [if_neg hhalf, WordDisk.write_of_lt hgood hpos, index_rounds hle, toNat_dbindex hle]
  rfl

theorem lfscreate_no_sectors (hgood : disk.isbaddev = false)
    (hle : (ibsectors lfiblks).toNat ≤ disk.nsectors / 2) (hzero : disk.nsectors = 0) :
    lfscreate disk lfiblks disk.dsiz = .error .badSector := by
  have hhalf : ¬ disk.dsiz / .ofNat lfBlksiz / 2 < ibsectors lfiblks :=
    fun hlt => (not_rejected_iff.mpr ⟨hgood, hle⟩) (.inr hlt)
  rw [lfscreate]
  dsimp only
  rw [if_neg hhalf, WordDisk.write_of_le hgood (Nat.le_of_eq hzero)]
  rfl

/-- What is left in sector 0. -/
theorem lfscreate_dir (h : lfscreate disk lfiblks disk.dsiz = .ok (.ok, disk')) :
    disk'.sectors lfAreaDir = WordDisk.initialDir (ibsectors lfiblks + 1) := by
  by_cases hrejected : Rejected disk lfiblks
  · rw [lfscreate_rejected hrejected] at h
    cases h
  · obtain ⟨hgood, hle⟩ := not_rejected_iff.mp hrejected
    rcases Nat.eq_zero_or_pos disk.nsectors with hzero | hpos
    · rw [lfscreate_no_sectors hgood hle hzero] at h
      cases h
    · rw [lfscreate_eq hgood hle hpos] at h
      obtain ⟨disk₁, hindex, h⟩ := bind_ok h
      obtain ⟨disk₂, hdata, h⟩ := bind_ok h
      obtain ⟨-, rfl⟩ := Prod.mk.inj (Except.ok.inj h)
      rw [(WordDisk.createData_keepsDir (Nat.succ_pos _) hdata).dir,
        (WordDisk.createIndex_keepsDir hindex).dir]
      exact WordDisk.put_self _ _

theorem ifree_initialDir (dbindex : UInt32) :
    (dirOf (WordDisk.initialDir dbindex)).lfd_ifree = some 0 := rfl

/-- An index sector and a data block make the lists complete. -/
theorem lfscreate_lists (hgood : disk.isbaddev = false)
    (hle : (ibsectors lfiblks).toNat ≤ disk.nsectors / 2) (hindex : 0 < (ibsectors lfiblks).toNat)
    (hdata : (ibsectors lfiblks).toNat + 2 ≤ disk.nsectors) :
    ∃ disk', lfscreate disk lfiblks disk.dsiz = .ok (.ok, disk') ∧
      ListsComplete (ibsectors lfiblks).toNat disk' := by
  have hsize := nsectors_lt disk
  have hfirst : (7 * (ibsectors lfiblks).toNat - 1) / 7 + 1 = (ibsectors lfiblks).toNat := by
    omega
  obtain ⟨sectors₁, hloop₁, hlinks₁, hlast₁, -⟩ := WordDisk.createIndex_ok
    (show (disk.put lfAreaDir (WordDisk.initialDir (ibsectors lfiblks + 1))).isbaddev = false
      from hgood)
    (show LocalFiles.ib2sect (0 + (7 * (ibsectors lfiblks).toNat - 1)) < disk.nsectors by
      unfold LocalFiles.ib2sect lfAreaIb
      omega)
    (by omega)
  obtain ⟨sectors₂, hloop₂, hlinks₂, hlast₂, hbefore⟩ := WordDisk.createData_ok
    (show ({ disk with sectors := sectors₁ } : WordDisk).isbaddev = false from hgood)
    (show (ibsectors lfiblks).toNat + 1 + (disk.nsectors - (ibsectors lfiblks).toNat - 2) <
      disk.nsectors by omega)
  have hrun : lfscreate disk lfiblks disk.dsiz =
      .ok (.ok, { disk with sectors := sectors₂ }) := by
    rw [lfscreate_eq hgood hle (by omega), data_rounds hdata, hloop₁]
    change (WordDisk.createData _ _ { disk with sectors := sectors₁ } >>= fun disk₂ =>
      .ok (Status.ok, disk₂)) = _
    rw [hloop₂]
    rfl
  refine ⟨_, hrun, ?_, ?_⟩
  · refine ⟨List.range' 0 (7 * (ibsectors lfiblks).toNat - 1 + 1), ?_, fun ib => ?_⟩
    · rw [lfscreate_dir hrun, ifree_initialDir]
      have hsame : ∀ j ≤ 7 * (ibsectors lfiblks).toNat - 1,
          nextIndex sectors₂ j = nextIndex sectors₁ j := by
        intro j hj
        unfold nextIndex
        rw [hbefore _ (by unfold LocalFiles.ib2sect lfAreaIb; omega)]
      refine leads_range' (fun j hle hlt => ?_) ?_
      · exact (hsame j (by omega)).trans (hlinks₁ j hle hlt)
      · exact (hsame _ (by omega)).trans hlast₁
    · rw [List.mem_range'_1]
      omega
  · refine ⟨List.range' ((ibsectors lfiblks).toNat + 1)
      (disk.nsectors - (ibsectors lfiblks).toNat - 2 + 1), ?_, fun b => ?_⟩
    · have hdfree : (dirOf (WordDisk.initialDir (ibsectors lfiblks + 1))).lfd_dfree =
          some ((ibsectors lfiblks).toNat + 1) := by
        have hne : ibsectors lfiblks + 1 ≠ lfNull := by
          intro heq
          have hnat := congrArg UInt32.toNat heq
          rw [toNat_dbindex hle, show lfNull.toNat = 2 ^ 32 - 1 from rfl] at hnat
          omega
        exact (if_neg hne).trans (congrArg some (toNat_dbindex hle))
      rw [lfscreate_dir hrun, hdfree]
      exact leads_range' hlinks₂ hlast₂
    · rw [List.mem_range'_1]
      change _ ↔ _ ∧ b < disk.nsectors
      omega

/-- Every disk that is not rejected gets complete lists exactly if there are index sectors
and data blocks. -/
theorem lfscreate_lists_iff (h : ¬ Rejected disk lfiblks) :
    (∃ disk', lfscreate disk lfiblks disk.dsiz = .ok (.ok, disk') ∧
      ListsComplete (ibsectors lfiblks).toNat disk') ↔
    0 < (ibsectors lfiblks).toNat ∧ (ibsectors lfiblks).toNat + 2 ≤ disk.nsectors := by
  obtain ⟨hgood, hle⟩ := not_rejected_iff.mp h
  refine ⟨?_, fun ⟨hindex, hdata⟩ => lfscreate_lists hgood hle hindex hdata⟩
  rintro ⟨disk', hrun, hlists⟩
  constructor
  · -- block 0 heads the list of an empty area
    obtain ⟨l, hl, hmem⟩ := hlists.index
    rw [lfscreate_dir hrun, ifree_initialDir] at hl
    obtain ⟨m, rfl, -⟩ := hl.eq_cons
    have hlt := (hmem 0).mp List.mem_cons_self
    omega
  · rcases Nat.eq_zero_or_pos disk.nsectors with hzero | hpos
    · rw [lfscreate_no_sectors hgood hle hzero] at hrun
      cases hrun
    · by_contra hfew
      have hunderflow := data_rounds_underflow
        (show (ibsectors lfiblks).toNat + 1 = disk.nsectors by omega)
      have hsize := nsectors_lt disk
      rw [lfscreate_eq hgood hle hpos, hunderflow] at hrun
      obtain ⟨disk₁, hindex, hrun⟩ := bind_ok hrun
      obtain ⟨disk₂, hdata, -⟩ := bind_ok hrun
      have hkeeps := WordDisk.createIndex_keepsDir hindex
      have hsame : disk₁.nsectors = disk.nsectors := hkeeps.nsectors_eq
      rw [WordDisk.createData_fault (hkeeps.isbaddev.trans hgood) (by omega)] at hdata
      cases hdata

/-- The identification is missing. -/
theorem not_usable_of_accepted (h : ¬ Rejected disk lfiblks) : ¬ CreatesUsable disk lfiblks := by
  rintro (hrun | ⟨disk', hrun, hcheck, -⟩)
  · obtain ⟨hgood, hle⟩ := not_rejected_iff.mp h
    rcases Nat.eq_zero_or_pos disk.nsectors with hzero | hpos
    · rw [lfscreate_no_sectors hgood hle hzero] at hrun
      cases hrun
    · rw [lfscreate_eq hgood hle hpos] at hrun
      obtain ⟨disk₁, -, hrun⟩ := bind_ok hrun
      obtain ⟨disk₂, -, hrun⟩ := bind_ok hrun
      cases hrun
  · rw [lfscreate_dir hrun] at hcheck
    exact absurd hcheck Bool.false_ne_true

/-- `lfscreate` keeps its promise only where it refuses to create anything. -/
theorem lfscreate_usable_iff (disk : WordDisk) (lfiblks : UInt32) :
    CreatesUsable disk lfiblks ↔ Rejected disk lfiblks :=
  ⟨fun h => not_not.mp fun hrejected => not_usable_of_accepted hrejected h,
    fun h => .inl (lfscreate_rejected h)⟩

end Create

/-- The RAM disk with 32 index blocks. -/
theorem lfscreate_ram_disk_unusable : ¬ CreatesUsable ⟨102400, false, fun _ _ => 0⟩ 32 :=
  not_usable_of_accepted (not_rejected_iff.mpr ⟨rfl, by decide⟩)

end Lfs

end NatBox
