import Mathlib.Data.List.Perm.Subperm
import NatBox.Lib.Chain
import NatBox.LocalFiles.Operations

/-
Whose the blocks of the disk are, and what they hold.

A layout has the lists that the links and the tables of the index blocks describe.  `loose` are
the blocks that a call has taken off one list and not yet put on another.  What a block holds is
said of its sector, unless a pseudo-device has a changed copy of it; what the copies hold is said
in `Opened`.
-/

namespace NatBox

namespace Lfs

open Function Chain LocalFiles

/-! ## Layouts -/

inductive Owner
  | free
  | file (i : Nat)
  | loose
  deriving DecidableEq

/-- The index blocks and the data blocks of each owner. -/
structure Layout where
  index : Owner → List Nat
  data : Owner → List Nat

namespace Layout

/-- Two owners get other lists. -/
def moveIndex (L : Layout) (o o' : Owner) (l l' : List Nat) : Layout :=
  { L with index := update (update L.index o l) o' l' }

def moveData (L : Layout) (o o' : Owner) (l l' : List Nat) : Layout :=
  { L with data := update (update L.data o l) o' l' }

variable {L : Layout} {o o' o'' : Owner} {l l' : List Nat}

theorem index_moveIndex_of_ne (h : o'' ≠ o) (h' : o'' ≠ o') :
    (L.moveIndex o o' l l').index o'' = L.index o'' :=
  (update_of_ne h' _ _).trans (update_of_ne h _ _)

theorem index_moveIndex_left (h : o ≠ o') : (L.moveIndex o o' l l').index o = l :=
  (update_of_ne h _ _).trans (update_self _ _ _)

@[simp] theorem index_moveIndex_right : (L.moveIndex o o' l l').index o' = l' := update_self _ _ _

@[simp] theorem data_moveIndex : (L.moveIndex o o' l l').data = L.data := rfl

theorem data_moveData_of_ne (h : o'' ≠ o) (h' : o'' ≠ o') :
    (L.moveData o o' l l').data o'' = L.data o'' :=
  (update_of_ne h' _ _).trans (update_of_ne h _ _)

theorem data_moveData_left (h : o ≠ o') : (L.moveData o o' l l').data o = l :=
  (update_of_ne h _ _).trans (update_self _ _ _)

@[simp] theorem data_moveData_right : (L.moveData o o' l l').data o' = l' := update_self _ _ _

@[simp] theorem index_moveData : (L.moveData o o' l l').index = L.index := rfl

/-- All blocks of a file become loose. -/
def detach (L : Layout) (i : Nat) : Layout :=
  (L.moveIndex (.file i) .loose [] (L.index (.file i))).moveData (.file i) .loose []
    (L.data (.file i))

variable {i : Nat}

@[simp] theorem detach_self :
    (L.detach i).index (.file i) = [] ∧ (L.detach i).data (.file i) = [] :=
  ⟨by rw [detach, index_moveData, index_moveIndex_left (by simp)],
    by rw [detach, data_moveData_left (by simp)]⟩

@[simp] theorem detach_loose : (L.detach i).index .loose = L.index (.file i) ∧
    (L.detach i).data .loose = L.data (.file i) :=
  ⟨by rw [detach, index_moveData, index_moveIndex_right], by rw [detach, data_moveData_right]⟩

theorem detach_of_ne (h : o ≠ .file i) (h' : o ≠ .loose) :
    (L.detach i).index o = L.index o ∧ (L.detach i).data o = L.data o :=
  ⟨by rw [detach, index_moveData, index_moveIndex_of_ne h h'],
    by rw [detach, data_moveData_of_ne h h', data_moveIndex]⟩

end Layout

/-- What the index block at place `j` of a file says: the next one, its offset, and sixteen of
the data blocks. -/
structure IndexOf (chain blocks : List Nat) (j : Nat) (iblock : Lfiblk) : Prop where
  next : iblock.ib_next = chain[j + 1]?
  offset : iblock.ib_offset = lfIdata * j
  dba : ∀ k < lfIblen, iblock.ib_dba k = blocks[lfIblen * j + k]?

/-- The data block at place `m` of a file has its part of the bytes.  Behind their end it may
have anything. -/
def Holds (bytes : List UInt8) (m : Nat) (dblock : Nat → UInt8) : Prop :=
  ∀ k < lfBlksiz, ∀ b, bytes[lfBlksiz * m + k]? = some b → dblock k = b

variable {chain blocks : List Nat} {j k m ib b : Nat} {iblock : Lfiblk} {bytes bytes' : List UInt8}
  {dblock : Nat → UInt8}

theorem getElem?_concat_of_ne {α : Type} {l : List α} {x : α} {n : Nat} (h : n ≠ l.length) :
    (l ++ [x])[n]? = l[n]? := by
  rcases Nat.lt_or_gt_of_ne h with hlt | hgt
  · exact List.getElem?_append_left hlt
  · rw [List.getElem?_eq_none (Nat.le_of_lt hgt), List.getElem?_eq_none]
    rw [List.length_append, List.length_singleton]
    exact hgt

namespace IndexOf

/-- A data block more, in the table of another index block. -/
theorem concat_blocks (h : IndexOf chain blocks j iblock) (hj : blocks.length / lfIblen ≠ j) :
    IndexOf chain (blocks ++ [b]) j iblock := by
  refine ⟨h.next, h.offset, fun k hk => ?_⟩
  rw [h.dba k hk, getElem?_concat_of_ne]
  unfold lfIblen at *
  omega

/-- An index block more, behind another index block. -/
theorem concat_chain (h : IndexOf chain blocks j iblock) (hj : j + 1 ≠ chain.length) :
    IndexOf (chain ++ [ib]) blocks j iblock :=
  ⟨h.next.trans (getElem?_concat_of_ne hj).symm, h.offset, h.dba⟩

/-- The data block goes into the table. -/
theorem setDba (h : IndexOf chain blocks j iblock) (hlen : blocks.length = lfIblen * j + k) :
    IndexOf chain (blocks ++ [b]) j
      { iblock with ib_dba := update iblock.ib_dba k (some b) } := by
  refine ⟨h.next, h.offset, fun k' hk' => ?_⟩
  by_cases hkk : k' = k
  · rw [hkk, ← hlen]
    simp
  · rw [getElem?_concat_of_ne (by omega)]
    exact (update_of_ne hkk _ _).trans (h.dba k' hk')

/-- The link to the index block is set. -/
theorem setNext (h : IndexOf chain blocks j iblock) (hj : j + 1 = chain.length) :
    IndexOf (chain ++ [ib]) blocks j { iblock with ib_next := some ib } := by
  refine ⟨?_, h.offset, h.dba⟩
  rw [hj]
  simp

/-- The index block that comes to the end is clear. -/
theorem clear (hlen : blocks.length = lfIblen * chain.length) :
    IndexOf (chain ++ [ib]) blocks chain.length (lfibclear (lfIdata * chain.length)) := by
  refine ⟨?_, rfl, fun k _ => ?_⟩
  · rw [List.getElem?_eq_none (by simp)]
    rfl
  · rw [List.getElem?_eq_none (by rw [hlen]; exact Nat.le_add_right _ _)]
    rfl

end IndexOf

theorem Holds.congr (h : Holds bytes m dblock)
    (hag : ∀ k < lfBlksiz, bytes'[lfBlksiz * m + k]? = bytes[lfBlksiz * m + k]?) :
    Holds bytes' m dblock := by
  intro k hk b hb
  rw [hag k hk] at hb
  exact h k hk b hb

/-- A byte is put into the block. -/
theorem Holds.put {ch : UInt8} (h : Holds bytes m dblock)
    (hk : bytes'[lfBlksiz * m + k]? = some ch)
    (hag : ∀ n, n ≠ lfBlksiz * m + k → bytes'[n]? = bytes[n]?) :
    Holds bytes' m (update dblock k ch) := by
  intro k' hk' b hb
  by_cases hkk : k' = k
  · rw [hkk] at hb ⊢
    rw [update_self]
    exact Option.some.inj (hk.symm.trans hb)
  · rw [update_of_ne hkk]
    rw [hag _ (by omega)] at hb
    exact h k' hk' b hb

/-! ## Sectors -/

def Sector.directory : Sector → Lfdir
  | .dir d => d
  | _ => zeroDir

def Sector.indexBlocks : Sector → Nat → Lfiblk
  | .index blocks => blocks
  | _ => fun _ => lfibclear 0

def diskIndex (disk : Nat → Sector) (ib : Nat) : Lfiblk :=
  (disk (ib2sect ib)).indexBlocks (ib2disp ib)

def putIndex (disk : Nat → Sector) (ib : Nat) (iblock : Lfiblk) : Nat → Sector :=
  update disk (ib2sect ib)
    (.index (update (disk (ib2sect ib)).indexBlocks (ib2disp ib) iblock))

@[simp] theorem diskIndex_putIndex_self (disk : Nat → Sector) (ib : Nat) (iblock : Lfiblk) :
    diskIndex (putIndex disk ib iblock) ib = iblock := by
  simp [diskIndex, putIndex, Sector.indexBlocks]

theorem diskIndex_putIndex_of_ne (disk : Nat → Sector) (iblock : Lfiblk) {ib' : Nat}
    (h : ib' ≠ ib) : diskIndex (putIndex disk ib iblock) ib' = diskIndex disk ib' := by
  unfold diskIndex putIndex
  by_cases hsect : ib2sect ib' = ib2sect ib
  · have hdisp : ib2disp ib' ≠ ib2disp ib := by
      unfold ib2sect ib2disp at *
      omega
    rw [hsect, update_self]
    exact update_of_ne hdisp _ _
  · rw [update_of_ne hsect]

theorem diskIndex_putDir (disk : Nat → Sector) (sector : Sector) (ib : Nat) :
    diskIndex (update disk lfAreaDir sector) ib = diskIndex disk ib := by
  unfold diskIndex
  rw [update_of_ne (show ib2sect ib ≠ lfAreaDir from Nat.succ_ne_zero _)]

/-- The sectors of index blocks come behind the directory.  Positions on the disk have 32 bits. -/
structure IndexArea (ibsectors nsectors : Nat) (disk : Nat → Sector) : Prop where
  lt : ibsectors < nsectors
  small : lfBlksiz * nsectors ≤ 2 ^ 32
  sectors : ∀ q < ibsectors, ∃ blocks, disk (q + lfAreaIb) = .index blocks

namespace IndexArea

variable {ibsectors nsectors : Nat} {disk disk' : Nat → Sector}

theorem sector (h : IndexArea ibsectors nsectors disk) (hib : ib < 7 * ibsectors) :
    ib2sect ib < nsectors ∧ ∃ blocks, disk (ib2sect ib) = .index blocks := by
  have hlt := h.lt
  refine ⟨?_, h.sectors (ib / 7) (by omega)⟩
  unfold ib2sect lfAreaIb
  omega

theorem putIndex (h : IndexArea ibsectors nsectors disk) (ib : Nat) (iblock : Lfiblk) :
    IndexArea ibsectors nsectors (putIndex disk ib iblock) := by
  refine ⟨h.lt, h.small, fun q hq => ?_⟩
  unfold Lfs.putIndex
  by_cases hsect : q + lfAreaIb = ib2sect ib
  · exact ⟨_, by rw [hsect, update_self]⟩
  · rw [update_of_ne hsect]
    exact h.sectors q hq

theorem congr (h : IndexArea ibsectors nsectors disk)
    (hag : ∀ q < ibsectors, disk' (q + lfAreaIb) = disk (q + lfAreaIb)) :
    IndexArea ibsectors nsectors disk' :=
  ⟨h.lt, h.small, fun q hq => hag q hq ▸ h.sectors q hq⟩

end IndexArea

/-- A sector outside of the index area. -/
theorem putIndex_of_lt {ibsectors : Nat} (disk : Nat → Sector) (iblock : Lfiblk)
    (hib : ib < 7 * ibsectors) (hb : ibsectors < b) : putIndex disk ib iblock b = disk b := by
  refine update_of_ne ?_ _ _
  unfold ib2sect lfAreaIb
  omega

/-! ## The disk and the directory -/

/-- The disk and the directory have the lists of the layout and the bytes of the files.
`dirtyIndex` and `dirtyData` are the blocks whose sectors say nothing. -/
structure Volume (ibsectors nsectors : Nat) (disk : Nat → Sector) (dir : Lfdir) (L : Layout)
    (bytes : Nat → List UInt8) (dirtyIndex dirtyData : Nat → Prop) : Prop where
  area : IndexArea ibsectors nsectors disk
  indexParts : Partition L.index (· < 7 * ibsectors)
  dataParts : Partition L.data fun b => ibsectors < b ∧ b < nsectors
  ifree : dir.lfd_ifree = (L.index .free).head?
  dfree : dir.lfd_dfree = (L.data .free).head?
  ilist : ∀ i < dir.lfd_nfiles.toNat, (dir.lfd_files i).ld_ilist = (L.index (.file i)).head?
  freeIndex : ∀ j ib, (L.index .free)[j]? = some ib →
    (diskIndex disk ib).ib_next = (L.index .free)[j + 1]?
  freeData : ∀ j b, (L.data .free)[j]? = some b → disk b = .free (L.data .free)[j + 1]?
  index : ∀ i j ib, (L.index (.file i))[j]? = some ib → ¬ dirtyIndex ib →
    IndexOf (L.index (.file i)) (L.data (.file i)) j (diskIndex disk ib)
  data : ∀ i m b, (L.data (.file i))[m]? = some b → ¬ dirtyData b →
    ∃ dblock, disk b = .data dblock ∧ Holds (bytes i) m dblock

namespace Volume

variable {ibsectors nsectors : Nat} {disk disk' : Nat → Sector} {dir : Lfdir} {L : Layout}
  {files : Nat → List UInt8} {dirtyIndex dirtyData dirtyIndex' dirtyData' : Nat → Prop}
  {o o' : Owner} {i : Nat}

section Basic

variable (h : Volume ibsectors nsectors disk dir L files dirtyIndex dirtyData)
include h

theorem index_lt (hib : ib ∈ L.index o) : ib < 7 * ibsectors :=
  (h.indexParts.mem_iff ib).mp ⟨o, hib⟩

theorem data_lt (hb : b ∈ L.data o) : ibsectors < b ∧ b < nsectors :=
  (h.dataParts.mem_iff b).mp ⟨o, hb⟩

/-- Writing an index block leaves the data blocks alone. -/
theorem putIndex_of_data (hib : ib < 7 * ibsectors) (iblock : Lfiblk) (hb : b ∈ L.data o) :
    Lfs.putIndex disk ib iblock b = disk b :=
  putIndex_of_lt disk _ hib (h.data_lt hb).1

/-- There are fewer data blocks than sectors. -/
theorem length_data_lt (o : Owner) : (L.data o).length < nsectors := by
  have hsub : L.data o ⊆ (List.range (nsectors - 1)).map (· + 1) := by
    intro b hb
    obtain ⟨hgt, hlt⟩ := h.data_lt hb
    exact List.mem_map.mpr ⟨b - 1, List.mem_range.mpr (by omega), by omega⟩
  have hle := (List.Nodup.subperm (h.dataParts.nodup o) hsub).length_le
  have hpos := h.area.lt
  rw [List.length_map, List.length_range] at hle
  omega

theorem length_index_le (o : Owner) : (L.index o).length ≤ 7 * ibsectors := by
  have hsub : L.index o ⊆ List.range (7 * ibsectors) :=
    fun ib hib => List.mem_range.mpr (h.index_lt hib)
  have hle := (List.Nodup.subperm (h.indexParts.nodup o) hsub).length_le
  rwa [List.length_range] at hle

/-- More of the copies are changed. -/
theorem mono (hindex : ∀ ib, dirtyIndex ib → dirtyIndex' ib)
    (hdata : ∀ b, dirtyData b → dirtyData' b) :
    Volume ibsectors nsectors disk dir L files dirtyIndex' dirtyData' :=
  { h with
    index := fun i j ib hj hd => h.index i j ib hj (mt (hindex ib) hd)
    data := fun i m b hm hd => h.data i m b hm (mt (hdata b) hd) }

/-- Sizes and names do not matter here. -/
theorem setDir {dir' : Lfdir} (hdir : dir'.lfd_ifree = dir.lfd_ifree ∧
      dir'.lfd_dfree = dir.lfd_dfree ∧ dir'.lfd_nfiles = dir.lfd_nfiles)
    (hilist : ∀ i, (dir'.lfd_files i).ld_ilist = (dir.lfd_files i).ld_ilist) :
    Volume ibsectors nsectors disk dir' L files dirtyIndex dirtyData :=
  { h with
    ifree := hdir.1.trans h.ifree
    dfree := hdir.2.1.trans h.dfree
    ilist := fun i hi => (hilist i).trans (h.ilist i (hdir.2.2 ▸ hi)) }

/-- The directory goes to its sector. -/
theorem putDir (sector : Sector) :
    Volume ibsectors nsectors (update disk lfAreaDir sector) dir L files dirtyIndex dirtyData := by
  have hindex := diskIndex_putDir disk sector
  have hdata : ∀ o b, b ∈ L.data o → update disk lfAreaDir sector b = disk b := fun o b hb =>
    update_of_ne (Nat.ne_zero_of_lt (h.data_lt hb).1) _ _
  exact
    { h with
      area := h.area.congr fun q _ => update_of_ne (Nat.succ_ne_zero q) _ _
      freeIndex := fun j ib hj => by rw [hindex]; exact h.freeIndex j ib hj
      freeData := fun j b hj => by
        rw [hdata _ b (List.mem_of_getElem? hj)]
        exact h.freeData j b hj
      index := fun i j ib hj hd => by rw [hindex]; exact h.index i j ib hj hd
      data := fun i m b hm hd => by
        rw [hdata _ b (List.mem_of_getElem? hm)]
        exact h.data i m b hm hd }

end Basic

theorem diskIndex_update {disk : Nat → Sector} (sector : Sector) (hb : ibsectors < b)
    (hib : ib < 7 * ibsectors) : diskIndex (update disk b sector) ib = diskIndex disk ib := by
  unfold diskIndex
  rw [update_of_ne]
  unfold ib2sect lfAreaIb
  omega

/-! ### Between the free lists and the loose blocks -/

theorem takeIndex (h : Volume ibsectors nsectors disk dir L files dirtyIndex dirtyData)
    {rest : List Nat} (hfree : L.index .free = ib :: rest) :
    Volume ibsectors nsectors disk { dir with lfd_ifree := rest.head? }
      (L.moveIndex .free .loose rest (ib :: L.index .loose)) files dirtyIndex dirtyData :=
  { h with
    indexParts := h.indexParts.update (by decide) [ib] (by rw [hfree]; rfl) (.refl _)
    ifree := rfl
    freeIndex := fun j ib' hj => by
      have hnext := h.freeIndex (j + 1) ib' (by rw [hfree]; exact hj)
      rw [hfree] at hnext
      exact hnext }

theorem takeData (h : Volume ibsectors nsectors disk dir L files dirtyIndex dirtyData)
    {rest : List Nat} (hfree : L.data .free = b :: rest) :
    Volume ibsectors nsectors disk { dir with lfd_dfree := rest.head? }
      (L.moveData .free .loose rest (b :: L.data .loose)) files dirtyIndex dirtyData :=
  { h with
    dataParts := h.dataParts.update (by decide) [b] (by rw [hfree]; rfl) (.refl _)
    dfree := rfl
    freeData := fun j b' hj => by
      have hnext := h.freeData (j + 1) b' (by rw [hfree]; exact hj)
      rw [hfree] at hnext
      exact hnext }

theorem giveData (h : Volume ibsectors nsectors disk dir L files dirtyIndex dirtyData)
    {rest : List Nat} (hloose : L.data .loose = b :: rest) :
    Volume ibsectors nsectors (update disk b (.free dir.lfd_dfree))
      { dir with lfd_dfree := some b } (L.moveData .loose .free rest (b :: L.data .free)) files
      dirtyIndex dirtyData := by
  have hmem : b ∈ L.data .loose := hloose ▸ List.mem_cons_self
  have hb := (h.data_lt hmem).1
  have hother : ∀ o b', o ≠ .loose → b' ∈ L.data o →
      update disk b (.free dir.lfd_dfree) b' = disk b' := fun o b' ho hb' =>
    update_of_ne (fun heq => ho (h.dataParts.disjoint (heq ▸ hb') hmem)) _ _
  exact
    { h with
      area := h.area.congr fun q hq => update_of_ne (by unfold lfAreaIb; omega) _ _
      dataParts := h.dataParts.update (by decide) [b] (by rw [hloose]; rfl) (.refl _)
      dfree := rfl
      freeIndex := fun j ib hj => by
        rw [diskIndex_update _ hb (h.index_lt (List.mem_of_getElem? hj))]
        exact h.freeIndex j ib hj
      freeData := fun j b' hj => by
        cases j with
        | zero =>
          obtain rfl := Option.some.inj hj
          rw [update_self, h.dfree, List.head?_eq_getElem?]
          rfl
        | succ j =>
          rw [hother .free b' (by decide) (List.mem_of_getElem? hj)]
          exact h.freeData j b' hj
      index := fun i j ib hj hd => by
        rw [diskIndex_update _ hb (h.index_lt (List.mem_of_getElem? hj))]
        exact h.index i j ib hj hd
      data := fun i m b' hm hd => by
        rw [hother (.file i) b' (by simp) (List.mem_of_getElem? hm)]
        exact h.data i m b' hm hd }

/-- The loose index blocks are linked in front of the free ones. -/
theorem giveIndex (h : Volume ibsectors nsectors disk dir L files dirtyIndex dirtyData)
    (hnext : ∀ j ib, (L.index .loose)[j]? = some ib →
      (diskIndex disk ib).ib_next = (L.index .loose ++ L.index .free)[j + 1]?) :
    Volume ibsectors nsectors disk
      { dir with lfd_ifree := (L.index .loose ++ L.index .free).head? }
      (L.moveIndex .loose .free [] (L.index .loose ++ L.index .free)) files
      dirtyIndex dirtyData :=
  { h with
    indexParts := h.indexParts.update (by decide) (L.index .loose)
      (by rw [List.append_nil]) (.refl _)
    ifree := rfl
    freeIndex := fun j ib hj => by
      have hj' : (L.index .loose ++ L.index .free)[j]? = some ib := hj
      show (diskIndex disk ib).ib_next = (L.index .loose ++ L.index .free)[j + 1]?
      rcases Nat.lt_or_ge j (L.index .loose).length with hlt | hge
      · rw [List.getElem?_append_left hlt] at hj'
        exact hnext j ib hj'
      · rw [List.getElem?_append_right hge] at hj'
        rw [List.getElem?_append_right (Nat.le_succ_of_le hge), Nat.succ_sub hge]
        exact h.freeIndex _ ib hj' }

/-- A loose index block gets other contents. -/
theorem putLoose (h : Volume ibsectors nsectors disk dir L files dirtyIndex dirtyData)
    (hloose : ib ∈ L.index .loose) (iblock : Lfiblk) :
    Volume ibsectors nsectors (putIndex disk ib iblock) dir L files dirtyIndex dirtyData := by
  have hlt := h.index_lt hloose
  have hother : ∀ o ib', o ≠ .loose → ib' ∈ L.index o →
      diskIndex (putIndex disk ib iblock) ib' = diskIndex disk ib' := fun o ib' ho hib' =>
    diskIndex_putIndex_of_ne _ _ fun heq => ho (h.indexParts.disjoint (heq ▸ hib') hloose)
  exact
    { h with
      area := h.area.putIndex _ _
      freeIndex := fun j ib' hj => by
        rw [hother .free ib' (by decide) (List.mem_of_getElem? hj)]
        exact h.freeIndex j ib' hj
      freeData := fun m b' hm => by
        rw [h.putIndex_of_data hlt _ (List.mem_of_getElem? hm)]
        exact h.freeData m b' hm
      index := fun i j ib' hj hd => by
        rw [hother (.file i) ib' (by simp) (List.mem_of_getElem? hj)]
        exact h.index i j ib' hj hd
      data := fun i m b' hm hd => by
        rw [h.putIndex_of_data hlt _ (List.mem_of_getElem? hm)]
        exact h.data i m b' hm hd }

/-! ### The blocks of a file -/

section File

variable (h : Volume ibsectors nsectors disk dir L files dirtyIndex dirtyData)
include h

/-- A data block comes to the end of a file.  Its table is in a changed index block. -/
theorem attachData {rest : List Nat} (hloose : L.data .loose = b :: rest)
    (hindex : ∀ ib, dirtyIndex ib → dirtyIndex' ib) (hdata : ∀ b, dirtyData b → dirtyData' b)
    (hnew : dirtyData' b) (htable : ∀ ib,
      (L.index (.file i))[(L.data (.file i)).length / lfIblen]? = some ib → dirtyIndex' ib) :
    Volume ibsectors nsectors disk dir
      (L.moveData .loose (.file i) rest (L.data (.file i) ++ [b])) files
      dirtyIndex' dirtyData' :=
  { h with
    dataParts := h.dataParts.update (by simp) [b] (by rw [hloose]; rfl) List.perm_append_comm
    index := fun i' j ib hj hd => by
      have hof := h.index i' j ib hj (mt (hindex ib) hd)
      by_cases hi : i' = i
      · subst hi
        rw [Layout.data_moveData_right]
        exact hof.concat_blocks fun hj' => hd (htable ib (hj' ▸ hj))
      · rw [Layout.data_moveData_of_ne (by simp) (by simp [hi])]
        exact hof
    data := fun i' m b' hm hd => by
      by_cases hi : i' = i
      · subst hi
        rw [Layout.data_moveData_right] at hm
        by_cases hlen : m = (L.data (.file i')).length
        · rw [hlen, List.getElem?_concat_length] at hm
          exact absurd (Option.some.inj hm ▸ hnew) hd
        · rw [getElem?_concat_of_ne hlen] at hm
          exact h.data i' m b' hm (mt (hdata b') hd)
      · rw [Layout.data_moveData_of_ne (by simp) (by simp [hi])] at hm
        exact h.data i' m b' hm (mt (hdata b') hd) }

/-- An index block comes to an empty file.  It has been changed. -/
theorem attachFirst {dir' : Lfdir} {rest : List Nat} (hloose : L.index .loose = ib :: rest)
    (hempty : L.index (.file i) = []) (hdir : dir'.lfd_ifree = dir.lfd_ifree ∧
      dir'.lfd_dfree = dir.lfd_dfree ∧ dir'.lfd_nfiles = dir.lfd_nfiles)
    (hilist : ∀ i', (dir'.lfd_files i').ld_ilist =
      if i' = i then some ib else (dir.lfd_files i').ld_ilist)
    (hindex : ∀ ib, dirtyIndex ib → dirtyIndex' ib) (hnew : dirtyIndex' ib) :
    Volume ibsectors nsectors disk dir' (L.moveIndex .loose (.file i) rest [ib]) files
      dirtyIndex' dirtyData :=
  { h with
    indexParts := h.indexParts.update (by simp) [ib] (by rw [hloose]; rfl) (by rw [hempty]; rfl)
    ifree := hdir.1.trans h.ifree
    dfree := hdir.2.1.trans h.dfree
    ilist := fun i' hi' => by
      rw [hilist]
      split
      · next heq =>
        rw [heq, Layout.index_moveIndex_right]
        rfl
      · next hne =>
        rw [Layout.index_moveIndex_of_ne (by simp) (by simp [hne])]
        exact h.ilist i' (hdir.2.2 ▸ hi')
    index := fun i' j ib' hj hd => by
      by_cases hi : i' = i
      · subst hi
        rw [Layout.index_moveIndex_right] at hj
        have hmem := List.mem_singleton.mp (List.mem_of_getElem? hj)
        exact absurd (hmem ▸ hnew) hd
      · rw [Layout.index_moveIndex_of_ne (by simp) (by simp [hi])] at hj ⊢
        exact h.index i' j ib' hj (mt (hindex ib') hd) }

/-- An index block comes to the end of a file.  It has been changed, and the one in front of it
is written with the link. -/
theorem attachIndex {rest : List Nat} {last : Nat} (hloose : L.index .loose = ib :: rest)
    (hlen : (L.index (.file i)).length = j + 1) (hlast : (L.index (.file i))[j]? = some last)
    (hblk : IndexOf (L.index (.file i)) (L.data (.file i)) j iblock)
    (hindex : ∀ ib, dirtyIndex ib → ib ≠ last → dirtyIndex' ib) (hnew : dirtyIndex' ib) :
    Volume ibsectors nsectors (putIndex disk last { iblock with ib_next := some ib }) dir
      (L.moveIndex .loose (.file i) rest (L.index (.file i) ++ [ib])) files
      dirtyIndex' dirtyData := by
  have hlt := h.index_lt (List.mem_of_getElem? hlast)
  have hother : ∀ o j' ib', (L.index o)[j']? = some ib' → (o ≠ .file i ∨ j' ≠ j) →
      ib' ≠ last := by
    rintro o j' _ hj' hne rfl
    obtain ⟨ho, hjj⟩ := h.indexParts.place hj' hlast
    exact hne.elim (fun hne => hne ho) fun hne => hne hjj
  exact
    { h with
      area := h.area.putIndex _ _
      indexParts := h.indexParts.update (by simp) [ib] (by rw [hloose]; rfl) List.perm_append_comm
      ilist := fun i' hi' => by
        by_cases hi : i' = i
        · subst hi
          rw [Layout.index_moveIndex_right, h.ilist i' hi', List.head?_append_of_ne_nil]
          exact List.ne_nil_of_length_pos (by omega)
        · rw [Layout.index_moveIndex_of_ne (by simp) (by simp [hi])]
          exact h.ilist i' hi'
      freeIndex := fun j' ib' hj' => by
        rw [diskIndex_putIndex_of_ne _ _ (hother .free j' ib' hj' (.inl (by simp)))]
        exact h.freeIndex j' ib' hj'
      freeData := fun m b' hm => by
        rw [h.putIndex_of_data hlt _ (List.mem_of_getElem? hm)]
        exact h.freeData m b' hm
      index := fun i' j' ib' hj' hd => by
        by_cases hi : i' = i
        · subst hi
          rw [Layout.index_moveIndex_right] at hj' ⊢
          by_cases hnewest : j' = (L.index (.file i')).length
          · rw [hnewest, List.getElem?_concat_length] at hj'
            exact absurd (Option.some.inj hj' ▸ hnew) hd
          · rw [getElem?_concat_of_ne hnewest] at hj'
            by_cases hjj : j' = j
            · subst hjj
              obtain rfl := Option.some.inj (hj'.symm.trans hlast)
              rw [diskIndex_putIndex_self]
              exact hblk.setNext hlen.symm
            · have hne := hother _ j' ib' hj' (.inr hjj)
              rw [diskIndex_putIndex_of_ne _ _ hne]
              exact (h.index i' j' ib' hj' fun hd' => hd (hindex ib' hd' hne)).concat_chain
                (by omega)
        · rw [Layout.index_moveIndex_of_ne (by simp) (by simp [hi])] at hj' ⊢
          have hne := hother _ j' ib' hj' (.inl (by simp [hi]))
          rw [diskIndex_putIndex_of_ne _ _ hne]
          exact h.index i' j' ib' hj' fun hd' => hd (hindex ib' hd' hne)
      data := fun i' m b' hm hd => by
        rw [h.putIndex_of_data hlt _ (List.mem_of_getElem? hm)]
        exact h.data i' m b' hm hd }

/-- A copy of an index block is written back. -/
theorem putIndex (hj : (L.index (.file i))[j]? = some ib)
    (hblk : IndexOf (L.index (.file i)) (L.data (.file i)) j iblock)
    (hindex : ∀ ib', dirtyIndex ib' → ib' ≠ ib → dirtyIndex' ib') :
    Volume ibsectors nsectors (putIndex disk ib iblock) dir L files dirtyIndex' dirtyData := by
  have hlt := h.index_lt (List.mem_of_getElem? hj)
  exact
    { h with
      area := h.area.putIndex _ _
      freeIndex := fun j' ib' hj' => by
        have hne : ib' ≠ ib := by
          rintro rfl
          cases (h.indexParts.place hj' hj).1
        rw [diskIndex_putIndex_of_ne _ _ hne]
        exact h.freeIndex j' ib' hj'
      freeData := fun m b' hm => by
        rw [h.putIndex_of_data hlt _ (List.mem_of_getElem? hm)]
        exact h.freeData m b' hm
      index := fun i' j' ib' hj' hd => by
        by_cases heq : ib' = ib
        · subst heq
          obtain ⟨ho, rfl⟩ := h.indexParts.place hj' hj
          obtain rfl := Owner.file.inj ho
          rw [diskIndex_putIndex_self]
          exact hblk
        · rw [diskIndex_putIndex_of_ne _ _ heq]
          exact h.index i' j' ib' hj' fun hd' => hd (hindex ib' hd' heq)
      data := fun i' m b' hm hd => by
        rw [h.putIndex_of_data hlt _ (List.mem_of_getElem? hm)]
        exact h.data i' m b' hm hd }

/-- A copy of a data block is written back. -/
theorem putData (hm : (L.data (.file i))[m]? = some b) (hholds : Holds (files i) m dblock)
    (hdata : ∀ b', dirtyData b' → b' ≠ b → dirtyData' b') :
    Volume ibsectors nsectors (update disk b (.data dblock)) dir L files dirtyIndex
      dirtyData' := by
  have hb := (h.data_lt (List.mem_of_getElem? hm)).1
  exact
    { h with
      area := h.area.congr fun q hq => update_of_ne (by unfold lfAreaIb; omega) _ _
      freeIndex := fun j ib hj => by
        rw [diskIndex_update _ hb (h.index_lt (List.mem_of_getElem? hj))]
        exact h.freeIndex j ib hj
      freeData := fun m' b' hm' => by
        have hne : b' ≠ b := by
          rintro rfl
          cases (h.dataParts.place hm' hm).1
        rw [update_of_ne hne]
        exact h.freeData m' b' hm'
      index := fun i' j ib hj hd => by
        rw [diskIndex_update _ hb (h.index_lt (List.mem_of_getElem? hj))]
        exact h.index i' j ib hj hd
      data := fun i' m' b' hm' hd => by
        by_cases heq : b' = b
        · subst heq
          obtain ⟨ho, rfl⟩ := h.dataParts.place hm' hm
          obtain rfl := Owner.file.inj ho
          exact ⟨dblock, update_self _ _ _, hholds⟩
        · rw [update_of_ne heq]
          exact h.data i' m' b' hm' fun hd' => hd (hdata b' hd' heq) }

/-- The bytes of a block change which has a changed copy. -/
theorem setBytes (hm : (L.data (.file i))[m]? = some b) (hd : dirtyData b)
    (hag : ∀ n, n / lfBlksiz ≠ m → bytes'[n]? = (files i)[n]?) :
    Volume ibsectors nsectors disk dir L (update files i bytes') dirtyIndex dirtyData :=
  { h with
    data := fun i' m' b' hm' hd' => by
      obtain ⟨dblock, hdisk, hholds⟩ := h.data i' m' b' hm' hd'
      refine ⟨dblock, hdisk, ?_⟩
      by_cases hi : i' = i
      · subst hi
        rw [update_self]
        refine hholds.congr fun k hk => hag _ fun heq => hd' ?_
        have hmm : m' = m := by
          unfold lfBlksiz at *
          omega
        subst hmm
        exact Option.some.inj (hm'.symm.trans hm) ▸ hd
      · rw [update_of_ne hi]
        exact hholds }

/-- An entry behind the others, without blocks. -/
theorem newEntry {dir' : Lfdir} (hindex : L.index (.file dir.lfd_nfiles.toNat) = [])
    (hdata : L.data (.file dir.lfd_nfiles.toNat) = [])
    (hdir : dir'.lfd_ifree = dir.lfd_ifree ∧ dir'.lfd_dfree = dir.lfd_dfree ∧
      dir'.lfd_nfiles.toNat = dir.lfd_nfiles.toNat + 1)
    (hilist : ∀ i, (dir'.lfd_files i).ld_ilist =
      if i = dir.lfd_nfiles.toNat then none else (dir.lfd_files i).ld_ilist) :
    Volume ibsectors nsectors disk dir' L (update files dir.lfd_nfiles.toNat []) dirtyIndex
      dirtyData :=
  { h with
    ifree := hdir.1.trans h.ifree
    dfree := hdir.2.1.trans h.dfree
    ilist := fun i hi => by
      rw [hilist]
      split
      · next heq =>
        rw [heq, hindex]
        rfl
      · next hne =>
        rw [hdir.2.2] at hi
        exact h.ilist i (by omega)
    data := fun i m b hm hd => by
      by_cases hi : i = dir.lfd_nfiles.toNat
      · rw [hi, hdata] at hm
        cases hm
      · rw [update_of_ne hi]
        exact h.data i m b hm hd }

/-- The blocks of a file become loose. -/
theorem detach {dir' : Lfdir} (hindex : L.index .loose = []) (hdata : L.data .loose = [])
    (hdir : dir'.lfd_ifree = dir.lfd_ifree ∧ dir'.lfd_dfree = dir.lfd_dfree ∧
      dir'.lfd_nfiles = dir.lfd_nfiles)
    (hilist : ∀ i', (dir'.lfd_files i').ld_ilist =
      if i' = i then none else (dir.lfd_files i').ld_ilist) :
    Volume ibsectors nsectors disk dir' (L.detach i) (update files i []) dirtyIndex dirtyData :=
  { h with
    indexParts := h.indexParts.update (by simp) (L.index (.file i)) (by rw [List.append_nil])
      (by rw [hindex, List.append_nil])
    dataParts := h.dataParts.update (by simp) (L.data (.file i)) (by rw [List.append_nil])
      (by rw [hdata, List.append_nil])
    ifree := hdir.1.trans h.ifree
    dfree := hdir.2.1.trans h.dfree
    ilist := fun i' hi' => by
      rw [hilist]
      split
      · next heq =>
        rw [heq, Layout.detach_self.1]
        rfl
      · next hne =>
        rw [(Layout.detach_of_ne (by simp [hne]) (by simp)).1]
        exact h.ilist i' (hdir.2.2 ▸ hi')
    index := fun i' j ib hj hd => by
      by_cases hi : i' = i
      · rw [hi, Layout.detach_self.1] at hj
        cases hj
      · obtain ⟨hindex', hdata'⟩ :=
          Layout.detach_of_ne (L := L) (o := .file i') (i := i) (by simp [hi]) (by simp)
        rw [hindex'] at hj ⊢
        rw [hdata']
        exact h.index i' j ib hj hd
    data := fun i' m b hm hd => by
      by_cases hi : i' = i
      · rw [hi, Layout.detach_self.2] at hm
        cases hm
      · rw [(Layout.detach_of_ne (by simp [hi]) (by simp)).2] at hm
        rw [update_of_ne hi]
        exact h.data i' m b hm hd }

end File

end Volume

end Lfs

end NatBox
