import NatBox.LocalFiles.FileRuns

/-
Whose the blocks of the disk are, between the calls.

An index block is what the pseudo-device has that changed its copy of it, or else what the disk
has.  Read so, every block is on one list, a free one or that of one file: `blocks_owned`.
-/

namespace NatBox

open Function Chain Lfs LocalFiles Runs

namespace Lfs

def Sector.nextFree : Sector → Option Nat
  | .free nextdb => nextdb
  | _ => none

/-- The data blocks that an index block has. -/
def Lfiblk.table (iblock : Lfiblk) : List Nat := (List.range lfIblen).filterMap iblock.ib_dba

theorem filterMap_range_getElem? {α : Type} (l : List α) (n : Nat) :
    (List.range n).filterMap (fun k => l[k]?) = l.take n := by
  induction n with
  | zero => rfl
  | succ n ih =>
    rw [List.range_succ, List.filterMap_append, ih, List.take_add_one]
    cases hn : l[n]? <;> simp [hn]

/-- The tables of the index blocks, one behind the other. -/
theorem flatMap_tables {chain blocks : List Nat} {index : Nat → Lfiblk}
    (hlen : blocks.length ≤ lfIblen * chain.length)
    (htables : ∀ j ib, chain[j]? = some ib → ∀ k < lfIblen,
      (index ib).ib_dba k = blocks[lfIblen * j + k]?) :
    chain.flatMap (fun ib => (index ib).table) = blocks := by
  induction chain generalizing blocks with
  | nil => exact (List.length_eq_zero_iff.mp (Nat.le_zero.mp hlen)).symm
  | cons ib chain ih =>
    have hhead : (index ib).table = blocks.take lfIblen := by
      rw [← filterMap_range_getElem? blocks lfIblen, Lfiblk.table]
      refine List.filterMap_congr fun k hk => ?_
      rw [htables 0 ib rfl k (List.mem_range.mp hk), Nat.mul_zero, Nat.zero_add]
    have hrest : chain.flatMap (fun ib => (index ib).table) = blocks.drop lfIblen := by
      refine ih ?_ fun j ib hj k hk => ?_
      · rw [List.length_drop]
        rw [List.length_cons] at hlen
        unfold lfIblen at *
        omega
      · rw [htables (j + 1) ib hj k hk, List.getElem?_drop]
        congr 1
        unfold lfIblen
        omega
    rw [List.flatMap_cons, hhead, hrest]
    exact List.take_append_drop _ _

end Lfs

namespace LocalFiles

/-- The directory as memory and disk have it together. -/
def dirNow (s : LocalFiles) : Lfdir :=
  if s.lf_dirpresent then s.lf_dir else (s.disk lfAreaDir).directory

/-- And an index block. -/
def indexNow (s : LocalFiles) (ib : Nat) : Lfiblk :=
  match (List.finRange nlfl).find? fun d =>
    (s.lfltab d).lfibdirty && (s.lfltab d).lfinum = some ib with
  | some d => (s.lfltab d).lfiblock
  | none => diskIndex s.disk ib

/-- Every index block and every data block is on one list, a free one or that of one file. -/
structure BlocksOwned (ibsectors : Nat) (s : LocalFiles) (L : Layout) : Prop where
  index : Partition L.index (· < 7 * ibsectors)
  data : Partition L.data fun b => ibsectors < b ∧ b < s.nsectors
  loose : L.index .loose = [] ∧ L.data .loose = []
  beyond : ∀ i : Nat, s.dirNow.lfd_nfiles ≤ i → L.index (.file i) = [] ∧ L.data (.file i) = []
  freeIndex : Leads (fun ib => (s.indexNow ib).ib_next) s.dirNow.lfd_ifree (L.index .free)
  freeData : Leads (fun b => (s.disk b).nextFree) s.dirNow.lfd_dfree (L.data .free)
  fileIndex : ∀ i : Nat, i < s.dirNow.lfd_nfiles →
    Leads (fun ib => (s.indexNow ib).ib_next) (s.dirNow.lfd_files i).ld_ilist (L.index (.file i))
  fileData : ∀ i : Nat, i < s.dirNow.lfd_nfiles →
    (L.index (.file i)).flatMap (fun ib => (s.indexNow ib).table) = L.data (.file i)

end LocalFiles

namespace Refines

variable {ibsectors : Nat} {st : Store} {s : LocalFiles} {L : Layout} {i j ib : Nat}

theorem indexNow_of_not_dirty (hclean : ¬ s.DirtyIndex ib) :
    s.indexNow ib = diskIndex s.disk ib := by
  have hnone : ((List.finRange nlfl).find? fun d =>
      (s.lfltab d).lfibdirty && (s.lfltab d).lfinum = some ib) = none := by
    refine List.find?_eq_none.mpr fun d _ hd => hclean ⟨d, ?_⟩
    simpa using hd
  rw [indexNow, hnone]

theorem indexNow_file (h : Refines ibsectors st s L) (hj : (L.index (.file i))[j]? = some ib) :
    IndexOf (L.index (.file i)) (L.data (.file i)) j (s.indexNow ib) := by
  by_cases hdirty : s.DirtyIndex ib
  · cases hfind : (List.finRange nlfl).find? fun d =>
        (s.lfltab d).lfibdirty && (s.lfltab d).lfinum = some ib with
    | none =>
      obtain ⟨d, hd, hnum⟩ := hdirty
      have hno := List.find?_eq_none.mp hfind d (List.mem_finRange d)
      simp [hd, hnum] at hno
    | some d =>
      have hboth := List.find?_some hfind
      simp only [Bool.and_eq_true, decide_eq_true_eq] at hboth
      obtain ⟨j', hj', hblk⟩ :=
        (h.stored.opened d (h.stored.indexKnown d hboth.1).1).inum ib hboth.2
      obtain ⟨ho, rfl⟩ := h.stored.volume.indexParts.place hj hj'
      obtain rfl := Owner.file.inj ho
      rw [indexNow, hfind]
      exact hblk
  · rw [indexNow_of_not_dirty hdirty]
    exact h.stored.volume.index i j ib hj hdirty

theorem indexNow_free (h : Refines ibsectors st s L) (hib : ib ∈ L.index .free) :
    s.indexNow ib = diskIndex s.disk ib := by
  refine indexNow_of_not_dirty ?_
  rintro ⟨d, hdirty, hnum⟩
  obtain ⟨j', hj', -⟩ := (h.stored.opened d (h.stored.indexKnown d hdirty).1).inum ib hnum
  cases h.stored.volume.indexParts.disjoint hib (List.mem_of_getElem? hj')

theorem blocksOwned (h : Refines ibsectors st s L) : BlocksOwned ibsectors s L := by
  have hv := h.stored.volume
  have hdir : s.dirNow = s.lf_dir := if_pos h.present
  have hfile : ∀ i : Nat, i < s.lf_dir.lfd_nfiles → i < st.names.length := by
    intro i hi
    rw [h.agrees.nfiles] at hi
    omega
  refine
    { index := hv.indexParts
      data := hv.dataParts
      loose := h.agrees.loose
      beyond := fun i hi => ?_
      freeIndex := ?_
      freeData := ?_
      fileIndex := fun i hi => ?_
      fileData := fun i hi => ?_ }
  · rw [hdir, h.agrees.nfiles] at hi
    exact h.agrees.beyond i (by omega)
  · rw [hdir]
    refine leads_of_getElem? hv.ifree fun j ib hj => ?_
    rw [h.indexNow_free (List.mem_of_getElem? hj)]
    exact hv.freeIndex j ib hj
  · rw [hdir]
    refine leads_of_getElem? hv.dfree fun j b hj => ?_
    rw [hv.freeData j b hj]
    rfl
  · rw [hdir] at hi ⊢
    refine leads_of_getElem? (hv.ilist i (by omega)) fun j ib hj => ?_
    exact (h.indexNow_file hj).next
  · rw [hdir] at hi
    have hdata := h.agrees.dataLen i (hfile i hi)
    have hindex := h.agrees.indexLen i (hfile i hi)
    refine flatMap_tables ?_ fun j ib hj => (h.indexNow_file hj).dba
    unfold Store.blocks lfBlksiz lfIdata lfIblen at *
    omega

end Refines

theorem Related.blocksOwned {ibsectors : Nat} {st : Store} {s : LocalFiles}
    (h : Related ibsectors st s) : ∃ L, BlocksOwned ibsectors s L := by
  rcases h with ⟨L, h⟩ | ⟨dir, L, h⟩
  · exact ⟨L, h.blocksOwned⟩
  · have howned := h.refines_loaded.blocksOwned
    have hdir : (s.loaded dir).dirNow = s.dirNow := by
      have hload : (s.loaded dir).dirNow = dir := if_pos rfl
      rw [hload, dirNow, h.absent, if_neg Bool.false_ne_true, h.disk.sector]
      rfl
    refine ⟨L, ?_⟩
    exact
      { index := howned.index
        data := howned.data
        loose := howned.loose
        beyond := hdir ▸ howned.beyond
        freeIndex := hdir ▸ howned.freeIndex
        freeData := hdir ▸ howned.freeData
        fileIndex := hdir ▸ howned.fileIndex
        fileData := hdir ▸ howned.fileData }

/-- Between the calls of any run no block is lost, and none belongs to two files. -/
theorem blocks_owned {ibsectors nsectors : Nat} {disk : Nat → Sector} {dir : Lfdir} {L : Layout}
    {names : List (List Char)} {bytes : Nat → List UInt8}
    (wf : WellFormed ibsectors nsectors disk dir L names bytes) {tr : List (LfEvent × LfResult)}
    {s : LocalFiles} (h : Run LocalFiles.step (.init nsectors disk) tr s) :
    ∃ L, BlocksOwned ibsectors s L :=
  (related_of_run wf h).blocksOwned

/-- With a file that has had a block and been truncated. -/
theorem blocks_owned_truncated : ∃ tr s, Run LocalFiles.step (.init 4 (emptyDisk 1 4)) tr s ∧
    tr.map Prod.fst = [.opens ['f'] [], .putc 0 7, .control 0 lfCtlTrunc, .putc 0 8] ∧
    ∃ L, BlocksOwned 1 s L := by
  obtain ⟨os, s, hrun, hevents, -⟩ := run_of_endsIn (show endsIn LocalFiles.step
    (.init 4 (emptyDisk 1 4)) [.opens ['f'] [], .putc 0 7, .control 0 lfCtlTrunc, .putc 0 8]
    (fun os _ => os = [.device 0, .ok, .ok, .ok]) = true by decide)
  exact ⟨_, s, hrun, hevents,
    blocks_owned (emptyDisk_wellFormed (by decide) (by decide)) hrun⟩

end NatBox
