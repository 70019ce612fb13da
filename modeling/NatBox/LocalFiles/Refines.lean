import NatBox.LocalFiles.Setup
import NatBox.LocalFiles.Store

/-
The files in memory and on the disk, and the abstract store.

`Refines` relates the two between calls: the lists of each file are just as long as its bytes
need, and each pseudo-device is where the store says.
-/

namespace NatBox

open Function Chain Lfs

namespace Lfs

/-- The directory and the layout have the files of the store, and no block that they do not
need. -/
structure Agrees (dir : Lfdir) (L : Layout) (names : List (List Char))
    (bytes : Nat → List UInt8) : Prop where
  check : lfscheck dir = true
  nfiles : dir.lfd_nfiles = names.length
  name : ∀ i < names.length, names[i]? = some (dir.lfd_files i).ld_name
  nodup : names.Nodup
  size : ∀ i < names.length, (dir.lfd_files i).ld_size = (bytes i).length
  dataLen : ∀ i < names.length,
    (L.data (.file i)).length = Store.blocks lfBlksiz (bytes i).length
  indexLen : ∀ i < names.length,
    (L.index (.file i)).length = Store.blocks lfIdata (bytes i).length
  beyond : ∀ i, names.length ≤ i → L.index (.file i) = [] ∧ L.data (.file i) = []
  loose : L.index .loose = [] ∧ L.data .loose = []

theorem Agrees.toNat_nfiles {dir : Lfdir} {L : Layout} {names : List (List Char)}
    {bytes : Nat → List UInt8} (h : Agrees dir L names bytes) :
    dir.lfd_nfiles.toNat = names.length := by
  rw [h.nfiles]
  rfl

theorem Agrees.congr {dir dir' : Lfdir} {L : Layout} {names : List (List Char)}
    {bytes : Nat → List UInt8} (h : Agrees dir L names bytes)
    (hcheck : lfscheck dir' = lfscheck dir) (hnfiles : dir'.lfd_nfiles = dir.lfd_nfiles)
    (hname : ∀ i, (dir'.lfd_files i).ld_name = (dir.lfd_files i).ld_name)
    (hsize : ∀ i, (dir'.lfd_files i).ld_size = (dir.lfd_files i).ld_size) :
    Agrees dir' L names bytes :=
  { h with
    check := hcheck.trans h.check
    nfiles := hnfiles.trans h.nfiles
    name := fun i hi => by rw [hname]; exact h.name i hi
    size := fun i hi => (hsize i).trans (h.size i hi) }

/-- A disk with a local file system that has these files. -/
structure WellFormed (ibsectors nsectors : Nat) (disk : Nat → Sector) (dir : Lfdir) (L : Layout)
    (names : List (List Char)) (bytes : Nat → List UInt8) : Prop where
  sector : disk lfAreaDir = .dir dir
  volume : Volume ibsectors nsectors disk dir L bytes (fun _ => False) fun _ => False
  agrees : Agrees dir L names bytes

/-- A pseudo-device is at a position of a file.  Where `lfbyte` is in the buffer, the buffer has
the data block of the position. -/
structure OpenAt (L : Layout) (bytes : Nat → List UInt8) (f : Lflcblk) (i pos : Nat) : Prop where
  used : f.used = true
  entry : f.lfdirptr = i
  pos_eq : f.lfpos = pos
  pos_le : pos ≤ (bytes i).length
  buffer : f.lfbyte < lfBlksiz → f.lfbyte = pos % lfBlksiz ∧
    ∃ b, f.lfdnum = some b ∧ (L.data (.file i))[pos / lfBlksiz]? = some b

theorem length_flatMap_range {α : Type} (g : Nat → List α) (n : Nat) :
    ((List.range n).flatMap g).length = (Finset.range n).sum fun i => (g i).length := by
  induction n with
  | zero => rfl
  | succ n ih =>
    rw [List.range_succ, List.flatMap_append, List.length_append, ih, Finset.sum_range_succ]
    simp

/-- The blocks of a kind are free or those that the files need. -/
theorem length_free {lists : Owner → List Nat} {all : Nat → Prop} (h : Partition lists all)
    (hloose : lists .loose = []) {n : Nat} (hbeyond : ∀ i, n ≤ i → lists (.file i) = [])
    {nodes : List Nat} (hnodes : nodes.Nodup) (hall : ∀ x, all x ↔ x ∈ nodes) :
    (lists .free).length + (Finset.range n).sum (fun i => (lists (.file i)).length) =
      nodes.length := by
  have hnodup : (Owner.free :: (List.range n).map Owner.file).Nodup := by
    refine List.nodup_cons.mpr ⟨by simp, ?_⟩
    exact List.nodup_range.map fun i j hij => Owner.file.inj hij
  have hcover : ∀ o, o ∉ Owner.free :: (List.range n).map Owner.file → lists o = [] := by
    intro o ho
    cases o with
    | free => exact absurd List.mem_cons_self ho
    | loose => exact hloose
    | file i =>
      refine hbeyond i (Nat.not_lt.mp fun hi => ho (List.mem_cons_of_mem _ ?_))
      exact List.mem_map_of_mem (List.mem_range.mpr hi)
  have hlen := h.length_flatMap hnodup hcover hnodes hall
  rw [List.flatMap_cons, List.length_append, List.flatMap_map, length_flatMap_range] at hlen
  exact hlen

end Lfs

/-- The files in memory and on the disk are those of the store. -/
structure Refines (ibsectors : Nat) (st : Store) (s : LocalFiles) (L : Layout) : Prop where
  present : s.lf_dirpresent = true
  stored : s.Stored ibsectors L st.bytes
  agrees : Agrees s.lf_dir L st.names st.bytes
  closed : ∀ d, st.opened d = none → (s.lfltab d).used = false
  opened : ∀ d i pos, st.opened d = some (i, pos) → OpenAt L st.bytes (s.lfltab d) i pos

/-- The directory counts as changed if a file has got another size, and else stays. -/
structure Marks (resized : Prop) (s s' : LocalFiles) : Prop where
  marked : resized → s'.lf_dirdirty = true
  still : ¬ resized → LocalFiles.Still s s'

/-- A call returns what the store returns, and has this effect on the directory. -/
def Yields (ibsectors : Nat) (s : LocalFiles) (call : Except LfFault (LfResult × LocalFiles))
    (out : LfResult × Store) (effect : LocalFiles → Prop) : Prop :=
  ∃ s' L', call = .ok (out.1, s') ∧ Refines ibsectors out.2 s' L' ∧ s'.nsectors = s.nsectors ∧
    effect s'

/-- Only where the files would not fit it may panic. -/
def Simulates (ibsectors : Nat) (s : LocalFiles) (call : Except LfFault (LfResult × LocalFiles))
    (out : LfResult × Store) (effect : LocalFiles → Prop) : Prop :=
  (∃ f, call = .error f ∧ ¬ out.2.Fits ibsectors s.nsectors) ∨
  Yields ibsectors s call out effect

namespace Refines

variable {ibsectors : Nat} {st : Store} {s : LocalFiles} {L : Layout} {d : Fin nlfl} {i pos : Nat}

theorem free_index (h : Refines ibsectors st s L) :
    (L.index .free).length + st.blocksNeeded lfIdata = 7 * ibsectors := by
  have hlen := length_free h.stored.volume.indexParts h.agrees.loose.1
    (fun i hi => (h.agrees.beyond i hi).1) (List.nodup_range (n := 7 * ibsectors))
    fun x => List.mem_range.symm
  rw [List.length_range] at hlen
  rw [← hlen, Store.blocksNeeded]
  congr 1
  exact Finset.sum_congr rfl fun i hi => (h.agrees.indexLen i (Finset.mem_range.mp hi)).symm

theorem free_data (h : Refines ibsectors st s L) :
    (L.data .free).length + st.blocksNeeded lfBlksiz = s.nsectors - 1 - ibsectors := by
  have hlen := length_free h.stored.volume.dataParts h.agrees.loose.2
    (fun i hi => (h.agrees.beyond i hi).2)
    (List.nodup_range' (s := ibsectors + 1) (n := s.nsectors - 1 - ibsectors) 1)
    fun x => by rw [List.mem_range'_1]; omega
  rw [List.length_range'] at hlen
  rw [← hlen, Store.blocksNeeded]
  congr 1
  exact Finset.sum_congr rfl fun i hi => (h.agrees.dataLen i (Finset.mem_range.mp hi)).symm

theorem lt_length (h : Refines ibsectors st s L) (hd : st.opened d = some (i, pos)) :
    i < st.names.length := by
  have hopen := h.opened d i pos hd
  have hentry := (h.stored.opened d hopen.used).entry
  rw [hopen.entry, h.agrees.nfiles] at hentry
  exact hentry

theorem ldptr_size (h : Refines ibsectors st s L) (hd : st.opened d = some (i, pos)) :
    (s.ldptr d).ld_size = (st.bytes i).length := by
  rw [LocalFiles.ldptr, (h.opened d i pos hd).entry]
  exact h.agrees.size i (h.lt_length hd)

/-- Different pseudo-devices have different files. -/
theorem file_ne (h : Refines ibsectors st s L) (hd : st.opened d = some (i, pos)) {d' : Fin nlfl}
    {i' pos' : Nat} (hd' : st.opened d' = some (i', pos')) (hne : d' ≠ d) : i' ≠ i := by
  have hopen := h.opened d i pos hd
  have hopen' := h.opened d' i' pos' hd'
  intro heq
  refine hne (h.stored.apart d' d hopen'.used hopen.used ?_)
  rw [hopen'.entry, hopen.entry, heq]

/-- After a step on one pseudo-device. -/
theorem next (h : Refines ibsectors st s L) {st' : Store} {s' : LocalFiles} {L' : Layout}
    {handle : Option (Nat × Nat)} (hopened : st'.opened = update st.opened d handle)
    (hpresent : s'.lf_dirpresent = s.lf_dirpresent) (hstored : s'.Stored ibsectors L' st'.bytes)
    (hagrees : Agrees s'.lf_dir L' st'.names st'.bytes)
    (hothers : ∀ d', d' ≠ d → s'.lfltab d' = s.lfltab d')
    (hfiles : ∀ d' i' pos', d' ≠ d → st.opened d' = some (i', pos') →
      st'.bytes i' = st.bytes i' ∧ L'.data (.file i') = L.data (.file i'))
    (hclosed : handle = none → (s'.lfltab d).used = false)
    (hopen : ∀ i pos, handle = some (i, pos) → OpenAt L' st'.bytes (s'.lfltab d) i pos) :
    Refines ibsectors st' s' L' := by
  refine ⟨hpresent.trans h.present, hstored, hagrees, fun d' hd' => ?_, fun d' i' pos' hd' => ?_⟩
  · rw [hopened] at hd'
    by_cases hdd : d' = d
    · rw [hdd, update_self] at hd'
      rw [hdd]
      exact hclosed hd'
    · rw [update_of_ne hdd] at hd'
      rw [hothers d' hdd]
      exact h.closed d' hd'
  · rw [hopened] at hd'
    by_cases hdd : d' = d
    · rw [hdd, update_self] at hd'
      rw [hdd]
      exact hopen i' pos' hd'
    · rw [update_of_ne hdd] at hd'
      have hopen' := h.opened d' i' pos' hd'
      obtain ⟨hbytes, hdata⟩ := hfiles d' i' pos' hdd hd'
      rw [hothers d' hdd]
      exact ⟨hopen'.used, hopen'.entry, hopen'.pos_eq, hbytes ▸ hopen'.pos_le,
        hdata ▸ hopen'.buffer⟩

end Refines

end NatBox
