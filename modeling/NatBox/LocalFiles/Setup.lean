import NatBox.LocalFiles.Copies

/-
`lfsetup`: the blocks of the file position come into memory.

Where the position has a data block no list changes.  At the end of the last data block a free one
is taken, and a free index block in front of it if the last table is full.
-/

namespace NatBox

open Function Chain Lfs

namespace LocalFiles

variable {ibsectors : Nat} {s s' : LocalFiles} {d : Fin nlfl} {L L' : Layout}
  {bytes : Nat → List UInt8} {ib b i j m t : Nat} {iblock : Lfiblk}

theorem ok_bind {α β : Type} (a : α) (f : α → Except LfFault β) : (Except.ok a >>= f) = f a := rfl

/-! ## Sectors -/

theorem read_ok (hb : b < s.nsectors) : s.read b = .ok (s.disk b) := if_pos hb

theorem write_ok (hb : b < s.nsectors) (sector : Sector) :
    s.write b sector = .ok { s with disk := update s.disk b sector } :=
  if_pos hb

theorem lfibget_ok (h : IndexArea ibsectors s.nsectors s.disk) (hib : ib < 7 * ibsectors) :
    s.lfibget ib = .ok (diskIndex s.disk ib) := by
  obtain ⟨hlt, blocks, hblocks⟩ := h.sector hib
  unfold lfibget diskIndex
  rw [read_ok hlt, hblocks]
  rfl

theorem lfibput_ok (h : IndexArea ibsectors s.nsectors s.disk) (hib : ib < 7 * ibsectors)
    (iblock : Lfiblk) :
    s.lfibput ib iblock = .ok { s with disk := Lfs.putIndex s.disk ib iblock } := by
  obtain ⟨hlt, blocks, hblocks⟩ := h.sector hib
  unfold lfibput Lfs.putIndex
  rw [read_ok hlt, hblocks]
  exact write_ok hlt _

theorem writeDir_ok (hn : 0 < s.nsectors) (dir : Lfdir) : (s.setDir dir).writeDir =
    .ok { s with lf_dir := dir, disk := update s.disk lfAreaDir (.dir dir) } :=
  if_pos hn

/-- The directory has been changed and written. -/
def dirTo (s : LocalFiles) (dir : Lfdir) : LocalFiles :=
  { s with lf_dir := dir, disk := update s.disk lfAreaDir (.dir dir), lf_dirdirty := false }

theorem lfiballoc_eq (h : Stored ibsectors s L bytes) : s.lfiballoc =
    match L.index .free with
    | [] => .error .outOfIndexBlocks
    | ib :: rest => .ok (ib, s.dirTo { s.lf_dir with lfd_ifree := rest.head? }) := by
  have hifree := h.volume.ifree
  unfold lfiballoc
  cases hfree : L.index .free with
  | nil =>
    rw [hifree, hfree]
    rfl
  | cons ib rest =>
    have hib : ib ∈ L.index .free := hfree ▸ List.mem_cons_self
    have hnext := h.volume.freeIndex 0 ib (by rw [hfree]; rfl)
    rw [hfree, List.getElem?_cons_succ, ← List.head?_eq_getElem?] at hnext
    rw [hifree, hfree]
    dsimp only [List.head?_cons]
    rw [lfibget_ok h.volume.area (h.volume.index_lt hib)]
    show (do
      let s ← (s.setDir { s.lf_dir with lfd_ifree := (diskIndex s.disk ib).ib_next }).writeDir
      .ok (ib, { s with lf_dirdirty := false }) : Except LfFault (Nat × LocalFiles)) = _
    rw [hnext, writeDir_ok (Nat.zero_lt_of_lt h.volume.area.lt)]
    rfl

theorem lfdballoc_eq (h : Stored ibsectors s L bytes) : s.lfdballoc =
    match L.data .free with
    | [] => .error .outOfDataBlocks
    | b :: rest =>
      .ok (b, fun _ => dfill, s.dirTo { s.lf_dir with lfd_dfree := rest.head? }) := by
  have hdfree := h.volume.dfree
  unfold lfdballoc
  cases hfree : L.data .free with
  | nil =>
    rw [hdfree, hfree]
    rfl
  | cons b rest =>
    have hb : b ∈ L.data .free := hfree ▸ List.mem_cons_self
    have hnext := h.volume.freeData 0 b (by rw [hfree]; rfl)
    rw [hfree, List.getElem?_cons_succ, ← List.head?_eq_getElem?] at hnext
    rw [hdfree, hfree]
    dsimp only [List.head?_cons]
    rw [read_ok (h.volume.data_lt hb).2, hnext]
    show (do
      let s ← (s.setDir { s.lf_dir with lfd_dfree := rest.head? }).writeDir
      .ok (b, fun _ => dfill, { s with lf_dirdirty := false }) :
        Except LfFault (Nat × (Nat → UInt8) × LocalFiles)) = _
    rw [writeDir_ok (Nat.zero_lt_of_lt h.volume.area.lt)]
    rfl

/-! ## Changed copies go to the disk -/

theorem flushDir_spec (h : Stored ibsectors s L bytes) : ∃ s', s.flushDir = .ok s' ∧
    Stored ibsectors s' L bytes ∧ s'.nsectors = s.nsectors ∧ Still s s' ∧
    s'.lf_dirpresent = s.lf_dirpresent ∧ s'.lfltab = s.lfltab ∧ s'.lf_dirdirty = false := by
  unfold flushDir
  split
  · next hdirty =>
    have hsector : (s.dirTo s.lf_dir).disk lfAreaDir = .dir s.lf_dir := by
      simp [dirTo]
    refine ⟨s.dirTo s.lf_dir, ?_, ?_, rfl, ⟨rfl, .inr ⟨hdirty, rfl, hsector⟩⟩, rfl, rfl,
      rfl⟩
    · have hwrite := writeDir_ok (Nat.zero_lt_of_lt h.volume.area.lt) s.lf_dir
      rw [show s.writeDir = _ from hwrite]
      rfl
    · exact ⟨h.volume.putDir _, h.opened, h.apart, h.indexKnown, h.dataKnown⟩
  · next hclean => exact ⟨s, rfl, h, rfl, Still.refl s, rfl, rfl, Bool.eq_false_iff.mpr hclean⟩

theorem flushData_spec (h : Stored ibsectors s L bytes) (hused : (s.lfltab d).used = true) :
    ∃ s', s.flushData d = .ok s' ∧ Stored ibsectors s' L bytes ∧ s'.nsectors = s.nsectors ∧
    Still s s' ∧ s'.lf_dirdirty = s.lf_dirdirty ∧ s'.lf_dirpresent = s.lf_dirpresent ∧
    s'.lfltab = update s.lfltab d { s.lfltab d with lfdbdirty := false } := by
  have hopened := h.opened d hused
  unfold flushData
  dsimp only
  split
  · next hdirty =>
    obtain ⟨b, hb⟩ := (h.dataKnown d hdirty).2
    obtain ⟨m, hm, hholds⟩ := hopened.dnum b hb
    obtain ⟨hgt, hlt⟩ := h.volume.data_lt (List.mem_of_getElem? hm)
    have hsector : update s.disk b (.data (s.lfltab d).lfdblock) lfAreaDir = s.disk lfAreaDir :=
      update_of_ne (Nat.ne_zero_of_lt hgt).symm _ _
    refine ⟨({ s with disk := update s.disk b (.data (s.lfltab d).lfdblock) } :
      LocalFiles).setFile d { s.lfltab d with lfdbdirty := false }, ?_, ?_, rfl,
      ⟨rfl, .inl ⟨rfl, hsector⟩⟩, rfl, rfl, rfl⟩
    · have hblock : block (s.lfltab d).lfdnum = .ok b := by rw [hb]; rfl
      rw [hblock, ok_bind, write_ok hlt]
      rfl
    · have hframe : Frame s (({ s with disk := update s.disk b (.data (s.lfltab d).lfdblock) } :
          LocalFiles).setFile d { s.lfltab d with lfdbdirty := false }) d :=
        (quiet_write rfl rfl (fun _ => rfl) fun _ => rfl).toFrame.trans (frame_setFile rfl rfl rfl)
      refine h.next hused hframe ?_ (fun _ _ => ⟨rfl, rfl, rfl⟩) ?_ ?_ ?_
      · refine (h.volume.mono (fun ib hd => hframe.dirtyIndex hd fun hdirty hnum => ?_)
          fun _ hd => hd).putData hm hholds fun b' hd hne => hframe.dirtyData hd fun _ hnum => ?_
        · rw [lfltab_setFile_self]
          exact ⟨hdirty, hnum⟩
        · exact absurd (Option.some.inj (hnum.symm.trans hb)) hne
      · rw [lfltab_setFile_self]
        exact ⟨hopened.entry, hopened.name, hopened.inum, hopened.dnum⟩
      · rw [lfltab_setFile_self]
        exact fun hd => (h.indexKnown d hd).2
      · rw [lfltab_setFile_self]
        exact fun hd => by cases hd
  · next hclean =>
    refine ⟨s, rfl, h, rfl, Still.refl s, rfl, rfl, ?_⟩
    have hsame : { s.lfltab d with lfdbdirty := false } = s.lfltab d := by
      rw [← Bool.eq_false_iff.mpr hclean]
    rw [hsame, update_eq_self]

theorem flushIndex_spec (h : Stored ibsectors s L bytes) (hused : (s.lfltab d).used = true) :
    ∃ s', s.flushIndex d = .ok s' ∧ Stored ibsectors s' L bytes ∧ s'.nsectors = s.nsectors ∧
    Still s s' ∧ s'.lf_dirdirty = s.lf_dirdirty ∧ s'.lf_dirpresent = s.lf_dirpresent ∧
    s'.lfltab = update s.lfltab d { s.lfltab d with lfibdirty := false } := by
  have hopened := h.opened d hused
  unfold flushIndex
  dsimp only
  split
  · next hdirty =>
    obtain ⟨ib, hib⟩ := (h.indexKnown d hdirty).2
    obtain ⟨j, hj, hblk⟩ := hopened.inum ib hib
    have hlt := h.volume.index_lt (List.mem_of_getElem? hj)
    have hsector : Lfs.putIndex s.disk ib (s.lfltab d).lfiblock lfAreaDir = s.disk lfAreaDir :=
      update_of_ne (Nat.succ_ne_zero (ib / 7)).symm _ _
    refine ⟨({ s with disk := Lfs.putIndex s.disk ib (s.lfltab d).lfiblock } :
      LocalFiles).setFile d { s.lfltab d with lfibdirty := false }, ?_, ?_, rfl,
      ⟨rfl, .inl ⟨rfl, hsector⟩⟩, rfl, rfl, rfl⟩
    · have hblock : block (s.lfltab d).lfinum = .ok ib := by rw [hib]; rfl
      rw [hblock, ok_bind, lfibput_ok h.volume.area hlt]
      rfl
    · have hframe : Frame s (({ s with disk := Lfs.putIndex s.disk ib (s.lfltab d).lfiblock } :
          LocalFiles).setFile d { s.lfltab d with lfibdirty := false }) d :=
        (quiet_write rfl rfl (fun _ => rfl) fun _ => rfl).toFrame.trans (frame_setFile rfl rfl rfl)
      refine h.next hused hframe ?_ (fun _ _ => ⟨rfl, rfl, rfl⟩) ?_ ?_ ?_
      · refine (h.volume.mono (fun _ hd => hd) fun b hd => hframe.dirtyData hd fun hdirty hnum =>
          ?_).putIndex hj hblk fun ib' hd hne => hframe.dirtyIndex hd fun _ hnum => ?_
        · rw [lfltab_setFile_self]
          exact ⟨hdirty, hnum⟩
        · exact absurd (Option.some.inj (hnum.symm.trans hib)) hne
      · rw [lfltab_setFile_self]
        exact ⟨hopened.entry, hopened.name, hopened.inum, hopened.dnum⟩
      · rw [lfltab_setFile_self]
        exact fun hd => by cases hd
      · rw [lfltab_setFile_self]
        exact fun hd => (h.dataKnown d hd).2
  · next hclean =>
    refine ⟨s, rfl, h, rfl, Still.refl s, rfl, rfl, ?_⟩
    have hsame : { s.lfltab d with lfibdirty := false } = s.lfltab d := by
      rw [← Bool.eq_false_iff.mpr hclean]
    rw [hsame, update_eq_self]

theorem clean_eq {f : Lflcblk} (hib : f.lfibdirty = false) (hdb : f.lfdbdirty = false) :
    { f with lfibdirty := false, lfdbdirty := false } = f := by
  cases f
  cases hib
  cases hdb
  rfl

/-- The pseudo-device has no changed copy. -/
def Clean (s : LocalFiles) (d : Fin nlfl) : Prop :=
  (s.lfltab d).lfibdirty = false ∧ (s.lfltab d).lfdbdirty = false

theorem lfflush_spec (h : Stored ibsectors s L bytes) (hused : (s.lfltab d).used = true) :
    ∃ s', s.lfflush d = .ok s' ∧ Stored ibsectors s' L bytes ∧ s'.nsectors = s.nsectors ∧
    Still s s' ∧ s'.lf_dirdirty = false ∧ s'.lf_dirpresent = s.lf_dirpresent ∧
    s'.lfltab = update s.lfltab d { s.lfltab d with lfibdirty := false, lfdbdirty := false } := by
  obtain ⟨s₁, h₁, hs₁, hn₁, hstill₁, hp₁, ht₁, hdirty₁⟩ := flushDir_spec h
  have hused₁ : (s₁.lfltab d).used = true := by rwa [ht₁]
  obtain ⟨s₂, h₂, hs₂, hn₂, hstill₂, hdirty₂, hp₂, ht₂⟩ := flushData_spec hs₁ hused₁
  have hused₂ : (s₂.lfltab d).used = true := by rwa [ht₂, update_self]
  obtain ⟨s₃, h₃, hs₃, hn₃, hstill₃, hdirty₃, hp₃, ht₃⟩ := flushIndex_spec hs₂ hused₂
  refine ⟨s₃, ?_, hs₃, hn₃.trans (hn₂.trans hn₁), (hstill₁.trans hstill₂).trans hstill₃,
    hdirty₃.trans (hdirty₂.trans hdirty₁), hp₃.trans (hp₂.trans hp₁), ?_⟩
  · unfold lfflush
    rw [if_pos hused, h₁, ok_bind, h₂]
    exact h₃
  · rw [ht₃, ht₂, ht₁, update_self, update_idem]

/-- `lfsetup` and `lftruncate` begin with this. -/
theorem flushed_spec (h : Stored ibsectors s L bytes) (hused : (s.lfltab d).used = true) :
    ∃ s', (if (s.lfltab d).lfibdirty || (s.lfltab d).lfdbdirty then s.lfflush d else .ok s) =
      .ok s' ∧ Stored ibsectors s' L bytes ∧ s'.nsectors = s.nsectors ∧ Still s s' ∧
    s'.lf_dirpresent = s.lf_dirpresent ∧
    s'.lfltab = update s.lfltab d { s.lfltab d with lfibdirty := false, lfdbdirty := false } := by
  split
  · obtain ⟨s', hflush, hs', hn', hstill, -, hrest⟩ := lfflush_spec h hused
    exact ⟨s', hflush, hs', hn', hstill, hrest⟩
  · next hclean =>
    obtain ⟨hib, hdb⟩ := Bool.or_eq_false_iff.mp (Bool.eq_false_iff.mpr hclean)
    refine ⟨s, rfl, h, rfl, Still.refl s, rfl, ?_⟩
    rw [clean_eq hib hdb, update_eq_self]

/-- What a flush does, besides writing. -/
theorem quiet_flushed (hn : s'.nsectors = s.nsectors) (hp : s'.lf_dirpresent = s.lf_dirpresent)
    (hdir : s'.lf_dir = s.lf_dir)
    (ht : s'.lfltab =
      update s.lfltab d { s.lfltab d with lfibdirty := false, lfdbdirty := false }) :
    Quiet s s' d ∧ s'.Clean d := by
  have hself : s'.lfltab d = { s.lfltab d with lfibdirty := false, lfdbdirty := false } := by
    rw [ht, update_self]
  refine ⟨⟨⟨hn, hp, by rw [hdir], by rw [hdir], fun _ => by rw [hdir], fun d' hne => ?_,
    by rw [hself], by rw [hself], by rw [hself]⟩, fun _ => by rw [hdir], by rw [hself]⟩, ?_⟩
  · rw [ht, update_of_ne hne]
  · unfold Clean
    rw [hself]
    exact ⟨rfl, rfl⟩

/-! ## The index block of the position -/

/-- The number of the file that the pseudo-device has. -/
abbrev fileOf (s : LocalFiles) (d : Fin nlfl) : Owner := .file (s.lfltab d).lfdirptr

/-- The index block of place `t` is in memory. -/
def AtIndex (s : LocalFiles) (d : Fin nlfl) (chain : List Nat) (t : Nat) : Prop :=
  ∃ ib, (s.lfltab d).lfinum = some ib ∧ chain[t]? = some ib

/-- A free index block has come to the end of a file. -/
structure GrewIndex (L L' : Layout) (i ib : Nat) : Prop where
  free : L.index .free = ib :: L'.index .free
  file : L'.index (.file i) = L.index (.file i) ++ [ib]
  others : ∀ i', i' ≠ i → L'.index (.file i') = L.index (.file i')
  loose : L'.index .loose = L.index .loose
  data : L'.data = L.data

/-- A free data block has come to the end of a file. -/
structure GrewData (L L' : Layout) (i b : Nat) : Prop where
  free : L.data .free = b :: L'.data .free
  file : L'.data (.file i) = L.data (.file i) ++ [b]
  others : ∀ i', i' ≠ i → L'.data (.file i') = L.data (.file i')
  loose : L'.data .loose = L.data .loose
  index : L'.index = L.index

/-- From the free list by way of the loose blocks. -/
theorem grewIndex {rest : List Nat} (hfree : L.index .free = ib :: rest) :
    GrewIndex L ((L.moveIndex .free .loose rest (ib :: L.index .loose)).moveIndex .loose (.file i)
      (L.index .loose) (L.index (.file i) ++ [ib])) i ib where
  free := hfree
  file := Layout.index_moveIndex_right
  others i' hi := by
    rw [Layout.index_moveIndex_of_ne (by simp) (by simp [hi]),
      Layout.index_moveIndex_of_ne (by simp) (by simp)]
  loose := Layout.index_moveIndex_left (by simp)
  data := rfl

theorem grewData {rest : List Nat} (hfree : L.data .free = b :: rest) :
    GrewData L ((L.moveData .free .loose rest (b :: L.data .loose)).moveData .loose (.file i)
      (L.data .loose) (L.data (.file i) ++ [b])) i b where
  free := hfree
  file := Layout.data_moveData_right
  others i' hi := by
    rw [Layout.data_moveData_of_ne (by simp) (by simp [hi]),
      Layout.data_moveData_of_ne (by simp) (by simp)]
  loose := Layout.data_moveData_left (by simp)
  index := rfl

theorem update_entry {α : Type} (field : Ldentry → α) (files : Nat → Ldentry) (i : Nat)
    (entry : Ldentry) (h : field entry = field (files i)) (i' : Nat) :
    field (update files i entry i') = field (files i') := by
  by_cases hi : i' = i
  · rw [hi, update_self, h]
  · rw [update_of_ne hi]

section Setup

variable (h : Stored ibsectors s L bytes) (hused : (s.lfltab d).used = true)
include h hused

/-- The copy of an index block is that of its place. -/
theorem Stored.indexOf (hnum : (s.lfltab d).lfinum = some ib)
    (hj : (L.index (s.fileOf d))[j]? = some ib) :
    IndexOf (L.index (s.fileOf d)) (L.data (s.fileOf d)) j (s.lfltab d).lfiblock := by
  obtain ⟨j', hj', hblk⟩ := (h.opened d hused).inum ib hnum
  obtain ⟨-, rfl⟩ := h.volume.indexParts.place hj hj'
  exact hblk

theorem Stored.holds (hnum : (s.lfltab d).lfdnum = some b)
    (hm : (L.data (s.fileOf d))[m]? = some b) :
    Holds (bytes (s.lfltab d).lfdirptr) m (s.lfltab d).lfdblock := by
  obtain ⟨m', hm', hholds⟩ := (h.opened d hused).dnum b hnum
  obtain ⟨-, rfl⟩ := h.volume.dataParts.place hm hm'
  exact hholds

/-- A pseudo-device without changed copies gets the index block of a place. -/
theorem Stored.loadIndex (hclean : s.Clean d) (hj : (L.index (s.fileOf d))[j]? = some ib)
    {dnum : Option Nat} (hdnum : dnum = none ∨ dnum = (s.lfltab d).lfdnum) :
    let f := { s.lfltab d with
      lfinum := some ib, lfiblock := diskIndex s.disk ib, lfdnum := dnum }
    Stored ibsectors (s.setFile d f) L bytes ∧ Quiet s (s.setFile d f) d ∧
      (s.setFile d f).Clean d := by
  intro f
  have hopened := h.opened d hused
  have hblk := h.volume.index _ j ib hj
    (h.not_dirtyIndex hused hj fun hdirty => absurd hdirty (by simp [hclean.1]))
  refine ⟨h.setFile hused hused rfl ?_ (fun hd => ?_) (fun hd => ?_) (fun hd => ?_) fun hd => ?_,
    quiet_setFile rfl rfl rfl rfl, ?_⟩
  · refine ⟨hopened.entry, hopened.name, fun ib' hib' => ?_, fun b hb => ?_⟩
    · obtain rfl := Option.some.inj hib'
      exact ⟨j, hj, hblk⟩
    · rcases hdnum with hnone | hsame
      · exact absurd (hnone.symm.trans hb) (by simp)
      · exact hopened.dnum b (hsame.symm.trans hb)
  · exact ⟨ib, rfl⟩
  · exact absurd hd (by simp [f, hclean.2])
  · exact absurd hd (by simp [hclean.1])
  · exact absurd hd (by simp [hclean.2])
  · unfold Clean
    rw [lfltab_setFile_self]
    exact hclean

/-- The file has index blocks: one that is not behind the position is brought into memory. -/
theorem firstIndex_spec (hclean : s.Clean d) (hchain : L.index (s.fileOf d) ≠ []) :
    ∃ s' j ib, s.firstIndex d = .ok s' ∧ Stored ibsectors s' L bytes ∧ Quiet s s' d ∧
      Still s s' ∧ s'.Clean d ∧ (s'.lfltab d).lfinum = some ib ∧
      (L.index (s.fileOf d))[j]? = some ib ∧ j ≤ (s.lfltab d).lfpos / lfIdata := by
  have hopened := h.opened d hused
  obtain ⟨first, chain, hcons⟩ := List.exists_cons_of_ne_nil hchain
  have hfirst : (L.index (s.fileOf d))[0]? = some first := by rw [hcons]; rfl
  have hilist : (s.ldptr d).ld_ilist = some first := by
    rw [ldptr, h.volume.ilist _ hopened.entry, hcons]
    rfl
  have hget := lfibget_ok h.volume.area (h.volume.index_lt (List.mem_of_getElem? hfirst))
  have hload := h.loadIndex hused hclean hfirst (.inr rfl)
  unfold firstIndex
  dsimp only
  rw [hilist]
  cases hnum : (s.lfltab d).lfinum with
  | none =>
    dsimp only
    rw [hget]
    exact ⟨_, 0, first, rfl, hload.1, hload.2.1, still_setFile, hload.2.2, by simp [loadIndex],
      hfirst, Nat.zero_le _⟩
  | some ib =>
    dsimp only
    obtain ⟨j, hj, hblk⟩ := hopened.inum ib hnum
    split
    · rw [show block (some first) = .ok first from rfl, ok_bind, hget]
      exact ⟨_, 0, first, rfl, hload.1, hload.2.1, still_setFile, hload.2.2, by simp [loadIndex],
        hfirst, Nat.zero_le _⟩
    · next hpos =>
      refine ⟨s, j, ib, rfl, h, Quiet.refl s d, Still.refl s, hclean, hnum, hj, ?_⟩
      have hoffset := hblk.offset
      unfold lfIdata at *
      omega

/-- The file is empty and gets its first index block. -/
theorem firstIndex_empty (hclean : s.Clean d) (hchain : L.index (s.fileOf d) = [])
    (hblocks : L.data (s.fileOf d) = []) :
    (L.index .free = [] ∧ s.firstIndex d = .error .outOfIndexBlocks) ∨
    ∃ s' L' ib, s.firstIndex d = .ok s' ∧ Stored ibsectors s' L' bytes ∧ Quiet s s' d ∧
      (s'.lfltab d).lfdbdirty = false ∧ (s'.lfltab d).lfinum = some ib ∧
      GrewIndex L L' (s.lfltab d).lfdirptr ib := by
  have hopened := h.opened d hused
  have hnum : (s.lfltab d).lfinum = none := by
    refine Option.eq_none_iff_forall_ne_some.mpr fun ib hib => ?_
    obtain ⟨j, hj, -⟩ := hopened.inum ib hib
    rw [hchain] at hj
    cases hj
  have hilist : (s.ldptr d).ld_ilist = none := by
    rw [ldptr, h.volume.ilist _ hopened.entry, hchain]
    rfl
  unfold firstIndex
  dsimp only
  rw [hnum, hilist]
  dsimp only
  rw [lfiballoc_eq h]
  cases hfree : L.index .free with
  | nil => exact .inl ⟨rfl, rfl⟩
  | cons ib rest =>
    dsimp only
    rw [ok_bind]
    have hgrew := grewIndex (i := (s.lfltab d).lfdirptr) hfree
    rw [show L.index (.file (s.lfltab d).lfdirptr) ++ [ib] = [ib] by rw [hchain]; rfl] at hgrew
    let dir := { s.lf_dir with lfd_ifree := rest.head? }
    let f := { s.lfltab d with lfinum := some ib, lfiblock := lfibclear 0, lfibdirty := true }
    let entry := { s.ldptr d with ld_ilist := some ib }
    let s' := ((s.dirTo dir).setEntry (s.lfltab d).lfdirptr entry).setFile d f
    have hself : s'.lfltab d = f := update_self _ _ _
    have hwritten : Quiet s ((s.dirTo dir).setEntry (s.lfltab d).lfdirptr entry) d :=
      quiet_write rfl rfl (update_entry Ldentry.ld_name _ _ entry rfl)
        (update_entry Ldentry.ld_size _ _ entry rfl)
    have hquiet : Quiet s s' d := hwritten.trans (quiet_setFile rfl rfl rfl rfl)
    refine .inr ⟨s', _, ib, rfl, h.next hused hquiet.toFrame ?_ (fun i' hi =>
      ⟨hgrew.others i' hi, rfl, rfl⟩) ?_ (fun _ => ?_) fun hd => ?_, hquiet, ?_, ?_, hgrew⟩
    · have htaken := ((h.volume.takeIndex hfree).putDir (.dir dir)).mono (fun _ hd => hd)
        fun b hd => hquiet.dirtyData hd fun hdirty _ => absurd hdirty (by simp [hclean.2])
      refine htaken.attachFirst rfl hchain ⟨rfl, rfl, rfl⟩ (fun i' => ?_)
        (fun ib' hd => hquiet.dirtyIndex hd fun hdirty _ => absurd hdirty (by simp [hclean.1]))
        ⟨d, by rw [hself], by rw [hself]⟩
      exact (apply_update (fun _ => Ldentry.ld_ilist) _ _ _ _).trans (update_apply _ _ _ _)
    · rw [hself]
      refine ⟨hopened.entry, ?_, fun ib' hib' => ?_, fun b hb => ?_⟩
      · exact (update_entry Ldentry.ld_name _ _ entry rfl _).trans hopened.name
      · obtain rfl := Option.some.inj hib'
        rw [show f.lfdirptr = (s.lfltab d).lfdirptr from rfl, hgrew.file, hchain]
        exact ⟨0, rfl, @IndexOf.clear [] (L.data (s.fileOf d)) ib (by rw [hblocks]; rfl)⟩
      · obtain ⟨m, hm, -⟩ := hopened.dnum b hb
        rw [hblocks] at hm
        cases hm
    · rw [hself]
      exact ⟨ib, rfl⟩
    · rw [hself] at hd
      exact absurd hd (by simp [f, hclean.2])
    · rw [hself]
      exact hclean.2
    · rw [hself]

/-- A free index block comes to the end of the file, and clear into memory. -/
theorem Stored.appendIndex {rest : List Nat} {new : Nat} (hi : (s.lfltab d).lfdirptr = i)
    (hclean : s.Clean d) (hnum : (s.lfltab d).lfinum = some ib)
    (hplace : (L.index (.file i))[j]? = some ib) (hlen : (L.index (.file i)).length = j + 1)
    (hfull : (L.data (.file i)).length = lfIblen * (j + 1))
    (hfree : L.index .free = new :: rest) :
    ∃ s₁ L', (s.dirTo { s.lf_dir with lfd_ifree := rest.head? }).lfibput ib
        { (s.lfltab d).lfiblock with ib_next := some new } = .ok s₁ ∧
      let f := { s.lfltab d with
        lfinum := some new
        lfiblock := lfibclear (((s.lfltab d).lfiblock.ib_offset + lfIdata) % 2 ^ 32)
        lfibdirty := true
        lfdnum := none }
      Stored ibsectors (s₁.setFile d f) L' bytes ∧ Quiet s (s₁.setFile d f) d ∧
        (s₁.setFile d f).AtIndex d (L'.index (.file i)) (j + 1) ∧ GrewIndex L L' i new := by
  subst hi
  have hopened := h.opened d hused
  have hblk := h.indexOf hused hnum hplace
  have hlt := h.volume.index_lt (List.mem_of_getElem? hplace)
  let L' := (L.moveIndex .free .loose rest (new :: L.index .loose)).moveIndex .loose (s.fileOf d)
    (L.index .loose) (L.index (s.fileOf d) ++ [new])
  have hgrew : GrewIndex L L' (s.lfltab d).lfdirptr new := grewIndex hfree
  have hoffset : ((s.lfltab d).lfiblock.ib_offset + lfIdata) % 2 ^ 32 =
      lfIdata * (L.index (s.fileOf d)).length := by
    have hdata := h.volume.length_data_lt (s.fileOf d)
    have hsmall := h.volume.area.small
    rw [hblk.offset, hlen]
    rw [hfull] at hdata
    unfold lfIdata lfBlksiz lfIblen at *
    omega
  let dir := { s.lf_dir with lfd_ifree := rest.head? }
  let blk := { (s.lfltab d).lfiblock with ib_next := some new }
  let s₁ := { s.dirTo dir with disk := Lfs.putIndex (s.dirTo dir).disk ib blk }
  have htaken := (h.volume.takeIndex hfree).putDir (.dir dir)
  refine ⟨s₁, L', lfibput_ok (s := s.dirTo dir) htaken.area hlt blk, ?_⟩
  intro f
  have hself : (s₁.setFile d f).lfltab d = f := update_self _ _ _
  have hwritten : Quiet s s₁ d := quiet_write rfl rfl (fun _ => rfl) fun _ => rfl
  have hquiet : Quiet s (s₁.setFile d f) d := hwritten.trans (quiet_setFile rfl rfl rfl rfl)
  refine ⟨h.next hused hquiet.toFrame ?_ (fun i' hi => ⟨hgrew.others i' hi, rfl, rfl⟩) ?_
    (fun _ => ?_) fun hd => ?_, hquiet, ⟨new, by rw [hself], ?_⟩, hgrew⟩
  · have hmono := htaken.mono (fun _ hd => hd) fun b hd =>
      hquiet.dirtyData hd fun hdirty _ => absurd hdirty (by simp [hclean.2])
    exact hmono.attachIndex rfl hlen hplace hblk
      (fun ib' hd _ => hquiet.dirtyIndex hd fun hdirty _ => absurd hdirty (by simp [hclean.1]))
      ⟨d, by rw [hself], by rw [hself]⟩
  · rw [hself]
    refine ⟨hopened.entry, hopened.name, fun ib' hib' => ?_, fun b hb => by cases hb⟩
    obtain rfl := Option.some.inj hib'
    rw [show f.lfdirptr = (s.lfltab d).lfdirptr from rfl, hgrew.file,
      show f.lfiblock = lfibclear (lfIdata * (L.index (s.fileOf d)).length) by rw [← hoffset]]
    exact ⟨_, List.getElem?_concat_length, IndexOf.clear (hlen ▸ hfull)⟩
  · rw [hself]
    exact ⟨new, rfl⟩
  · rw [hself] at hd
    exact absurd hd (by simp [f, hclean.2])
  · rw [hgrew.file, ← hlen]
    exact List.getElem?_concat_length

end Setup

/-- The loop ends at the index block of the position. -/
theorem indexLoop_done (h : Stored ibsectors s L bytes) (hused : (s.lfltab d).used = true)
    (hi : (s.lfltab d).lfdirptr = i) (hat : s.AtIndex d (L.index (.file i)) t)
    (ht : (s.lfltab d).lfpos / lfIdata = t) (fuel : Nat) :
    indexLoop d (fuel + 1) s = .ok s := by
  subst hi
  obtain ⟨ib, hnum, hplace⟩ := hat
  have hblk := h.indexOf hused hnum hplace
  refine if_neg (Nat.not_lt.mpr ?_)
  rw [ht, hblk.offset, Nat.mul_comm]

/-- The loop walks to the index block of the position, or past the last one, where it appends
one. -/
theorem indexLoop_spec {fuel : Nat} (h : Stored ibsectors s L bytes)
    (hused : (s.lfltab d).used = true) (hi : (s.lfltab d).lfdirptr = i) (hclean : s.Clean d)
    (hj : s.AtIndex d (L.index (.file i)) j) (ht : (s.lfltab d).lfpos / lfIdata = t) (hjt : j ≤ t)
    (hfuel : t - j < fuel) (hchain : t ≤ (L.index (.file i)).length)
    (hfull : t = (L.index (.file i)).length → (L.data (.file i)).length = lfIblen * t) :
    (L.index .free = [] ∧ t = (L.index (.file i)).length ∧
      indexLoop d fuel s = .error .outOfIndexBlocks) ∨
    ∃ s' L', indexLoop d fuel s = .ok s' ∧ Stored ibsectors s' L' bytes ∧ Quiet s s' d ∧
      (s'.lfltab d).lfdbdirty = false ∧ s'.AtIndex d (L'.index (.file i)) t ∧
      (t < (L.index (.file i)).length → L' = L ∧ Still s s') ∧
      (t = (L.index (.file i)).length → ∃ ib, GrewIndex L L' i ib) := by
  induction fuel generalizing s j with
  | zero => exact absurd hfuel (Nat.not_lt_zero _)
  | succ fuel ih =>
    obtain ⟨ib, hnum, hplace⟩ := hj
    have hplace' : (L.index (s.fileOf d))[j]? = some ib := by rwa [fileOf, hi]
    have hblk := h.indexOf hused hnum hplace'
    have hlt : j < (L.index (.file i)).length := (List.getElem?_eq_some_iff.mp hplace).1
    have hcond : (s.lfltab d).lfpos / lfIdata * lfIdata > (s.lfltab d).lfiblock.ib_offset ↔
        j < t := by
      rw [ht, hblk.offset]
      unfold lfIdata
      omega
    unfold indexLoop
    dsimp only
    split
    · next hpos =>
      have hjlt := hcond.mp hpos
      have hnext := hblk.next
      rw [fileOf, hi] at hnext
      by_cases hlast : j + 1 < (L.index (.file i)).length
      · -- the next index block is on the disk
        obtain ⟨ib', hib'⟩ : ∃ ib', (L.index (.file i))[j + 1]? = some ib' :=
          ⟨_, List.getElem?_eq_getElem hlast⟩
        rw [hnext, hib']
        dsimp only
        rw [lfibget_ok h.volume.area (h.volume.index_lt (List.mem_of_getElem? hib')), ok_bind]
        obtain ⟨hstored, hquiet, hclean'⟩ :=
          h.loadIndex hused hclean (by rw [fileOf, hi]; exact hib') (.inl rfl)
        rcases ih hstored (hquiet.used.trans hused) (hquiet.entry.trans hi) hclean'
          ⟨ib', by rw [lfltab_setFile_self], hib'⟩ (by rw [hquiet.pos, ht]) hjlt (by omega) with
          hout | ⟨s', L', heq, hs', hq', hdb, hat, hsame, hgrew⟩
        · exact .inl hout
        · refine .inr ⟨s', L', heq, hs', hquiet.trans hq', hdb, hat, fun hlt' => ?_, hgrew⟩
          obtain ⟨hL, hstill⟩ := hsame hlt'
          exact ⟨hL, ⟨hstill.dir, hstill.sector⟩⟩
      · -- there is none, and the position is where it begins
        have hjlen : (L.index (.file i)).length = j + 1 := by omega
        have hteq : t = j + 1 := by omega
        rw [hnext, List.getElem?_eq_none (Nat.le_of_eq hjlen)]
        dsimp only
        rw [lfiballoc_eq h]
        cases hfree : L.index .free with
        | nil => exact .inl ⟨rfl, hteq.trans hjlen.symm, rfl⟩
        | cons new rest =>
          dsimp only
          rw [ok_bind, show block (s.lfltab d).lfinum = .ok ib by rw [hnum]; rfl, ok_bind]
          obtain ⟨s₁, L', hput, hstored, hquiet, hat, hgrew⟩ :=
            h.appendIndex hused hi hclean hnum hplace hjlen (hteq ▸ hfull (by omega)) hfree
          rw [hput, ok_bind]
          obtain ⟨fuel, rfl⟩ : ∃ n, fuel = n + 1 := ⟨fuel - 1, by omega⟩
          have hdone := indexLoop_done hstored (hquiet.used.trans hused) (hquiet.entry.trans hi)
            hat (by rw [hquiet.pos, ht, hteq]) fuel
          refine .inr ⟨_, L', hdone, hstored, hquiet, ?_, hteq ▸ hat, fun hlt' => by omega,
            fun _ => ⟨new, hgrew⟩⟩
          rw [lfltab_setFile_self]
          exact hclean.2
    · next hpos =>
      obtain rfl : t = j := Nat.le_antisymm (Nat.not_lt.mp (mt hcond.mpr hpos)) hjt
      exact .inr ⟨s, L, rfl, h, Quiet.refl s d, hclean.2, ⟨ib, hnum, hplace⟩,
        fun _ => ⟨rfl, Still.refl s⟩, fun heq => absurd heq (Nat.ne_of_lt hlt)⟩

/-- `lfsetup` finds the index block of the position, which is not behind the end of the last
one. -/
theorem findIndex_spec (h : Stored ibsectors s L bytes) (hused : (s.lfltab d).used = true)
    (hi : (s.lfltab d).lfdirptr = i) (hclean : s.Clean d)
    (ht : (s.lfltab d).lfpos / lfIdata = t) (hchain : t ≤ (L.index (.file i)).length)
    (hfull : t = (L.index (.file i)).length → (L.data (.file i)).length = lfIblen * t) :
    (L.index .free = [] ∧ t = (L.index (.file i)).length ∧
      (s.firstIndex d >>= fun s => indexLoop d (7 * s.nsectors + 1) s) =
        .error .outOfIndexBlocks) ∨
    ∃ s' L', (s.firstIndex d >>= fun s => indexLoop d (7 * s.nsectors + 1) s) = .ok s' ∧
      Stored ibsectors s' L' bytes ∧ Quiet s s' d ∧ (s'.lfltab d).lfdbdirty = false ∧
      s'.AtIndex d (L'.index (.file i)) t ∧ (t < (L.index (.file i)).length → L' = L ∧ Still s s') ∧
      (t = (L.index (.file i)).length → ∃ ib, GrewIndex L L' i ib) := by
  by_cases hempty : L.index (.file i) = []
  · have ht₀ : t = 0 := by
      rw [hempty] at hchain
      exact Nat.le_zero.mp hchain
    subst hi ht₀
    have hblocks : L.data (s.fileOf d) = [] :=
      List.length_eq_zero_iff.mp (hfull (by rw [hempty]; rfl))
    rcases firstIndex_empty h hused hclean hempty hblocks with ⟨hfree, hpanic⟩ |
      ⟨s', L', ib, hfirst, hs', hq', hdb, hnum, hgrew⟩
    · exact .inl ⟨hfree, by rw [hempty]; rfl, by rw [hpanic]; rfl⟩
    · have hat : s'.AtIndex d (L'.index (s.fileOf d)) 0 :=
        ⟨ib, hnum, by rw [hgrew.file, hempty]; rfl⟩
      refine .inr ⟨s', L', ?_, hs', hq', hdb, hat, fun hlt => ?_, fun _ => ⟨ib, hgrew⟩⟩
      · rw [hfirst, ok_bind]
        exact indexLoop_done hs' (hq'.used.trans hused) hq'.entry hat (by rw [hq'.pos, ht]) _
      · rw [hempty] at hlt
        exact absurd hlt (Nat.lt_irrefl 0)
  · obtain ⟨s', j, ib, hfirst, hs', hq', hstill, hc', hnum, hj, hle⟩ :=
      firstIndex_spec h hused hclean (by rwa [fileOf, hi])
    rw [hfirst, ok_bind]
    rw [ht] at hle
    rw [fileOf, hi] at hj
    have hbound := h.volume.length_index_le (.file i)
    have hlt := hs'.volume.area.lt
    rcases indexLoop_spec hs' (hq'.used.trans hused) (hq'.entry.trans hi) hc' ⟨ib, hnum, hj⟩
      (by rw [hq'.pos, ht]) hle (show t - j < 7 * s'.nsectors + 1 by omega) hchain hfull with
      hpanic | ⟨s'', L', hloop, hs'', hq'', hdb, hat, hsame, hgrew⟩
    · exact .inl hpanic
    · refine .inr ⟨s'', L', hloop, hs'', hq'.trans hq'', hdb, hat, fun hlt' => ?_, hgrew⟩
      exact ⟨(hsame hlt').1, hstill.trans (hsame hlt').2⟩

/-! ## The data block of the position -/

/-- The copy of the data block counts as changed. -/
def touch (s : LocalFiles) (d : Fin nlfl) : LocalFiles :=
  s.setFile d { s.lfltab d with lfdbdirty := true }

theorem lfltab_touch (s : LocalFiles) (d : Fin nlfl) :
    (s.touch d).lfltab d = { s.lfltab d with lfdbdirty := true } := lfltab_setFile_self

/-- The table of the index block has the data block of the position. -/
theorem dba_of_pos (h : Stored ibsectors s L bytes) (hused : (s.lfltab d).used = true)
    (hi : (s.lfltab d).lfdirptr = i)
    (hat : s.AtIndex d (L.index (.file i)) ((s.lfltab d).lfpos / lfIdata)) :
    (s.lfltab d).lfiblock.ib_dba ((s.lfltab d).lfpos % lfIdata / lfBlksiz) =
      (L.data (.file i))[(s.lfltab d).lfpos / lfBlksiz]? := by
  subst hi
  obtain ⟨ib, hnum, hplace⟩ := hat
  have hblk := h.indexOf hused hnum hplace
  rw [hblk.dba]
  · congr 1
    unfold lfIblen lfIdata lfBlksiz
    omega
  · unfold lfIblen lfIdata lfBlksiz
    omega

/-- There is a data block at the position. -/
theorem loadData_old (h : Stored ibsectors s L bytes) (hused : (s.lfltab d).used = true)
    (hi : (s.lfltab d).lfdirptr = i) (hdb : (s.lfltab d).lfdbdirty = false)
    (hat : s.AtIndex d (L.index (.file i)) ((s.lfltab d).lfpos / lfIdata))
    (hb : (L.data (.file i))[(s.lfltab d).lfpos / lfBlksiz]? = some b) :
    ∃ s', s.loadData d = .ok s' ∧ Stored ibsectors s' L bytes ∧ Quiet s s' d ∧ Still s s' ∧
      (s'.lfltab d).lfdnum = some b ∧
      (s'.lfltab d).lfbyte = (s.lfltab d).lfpos % lfBlksiz := by
  have hdba := dba_of_pos h hused hi hat
  rw [hb] at hdba
  subst hi
  have hopened := h.opened d hused
  unfold loadData
  dsimp only
  rw [hdba]
  dsimp only
  split
  · next hother =>
    have hclean := h.not_dirtyData hused hb fun hd => absurd hd (by simp [hdb])
    obtain ⟨dblock, hdisk, hholds⟩ := h.volume.data _ _ b hb hclean
    rw [read_ok (h.volume.data_lt (List.mem_of_getElem? hb)).2, ok_bind, hdisk]
    refine ⟨_, rfl, h.setFile hused hused rfl ?_ ?_ (fun hd => by cases hd) (fun hd => ⟨hd, rfl⟩)
      fun hd => absurd hd (by simp [hdb]), quiet_setFile rfl rfl rfl rfl, still_setFile, by simp,
      by simp⟩
    · refine ⟨hopened.entry, hopened.name, hopened.inum, fun b' hb' => ?_⟩
      obtain rfl := Option.some.inj hb'
      exact ⟨_, hb, hholds⟩
    · exact fun hd => (h.indexKnown d hd).2
  · next hsame =>
    refine ⟨_, rfl, h.setFile hused hused rfl ?_ ?_ ?_ (fun hd => ⟨hd, rfl⟩) fun hd => ⟨hd, rfl⟩,
      quiet_setFile rfl rfl rfl rfl, still_setFile, ?_, by simp⟩
    · exact ⟨hopened.entry, hopened.name, hopened.inum, hopened.dnum⟩
    · exact fun hd => (h.indexKnown d hd).2
    · exact fun hd => (h.dataKnown d hd).2
    · rw [lfltab_setFile_self]
      exact (not_not.mp hsame).symm

/-- The data block of the position is still to come: a free one, which is changed from now on. -/
theorem loadData_new (h : Stored ibsectors s L bytes) (hused : (s.lfltab d).used = true)
    (hi : (s.lfltab d).lfdirptr = i) (hdb : (s.lfltab d).lfdbdirty = false)
    (hat : s.AtIndex d (L.index (.file i)) ((s.lfltab d).lfpos / lfIdata))
    (hnew : (s.lfltab d).lfpos / lfBlksiz = (L.data (.file i)).length)
    (hend : (bytes i).length ≤ lfBlksiz * (L.data (.file i)).length) :
    (L.data .free = [] ∧ s.loadData d = .error .outOfDataBlocks) ∨
    ∃ s' L' b, s.loadData d = .ok s' ∧ Stored ibsectors (s'.touch d) L' bytes ∧
      Quiet s s' d ∧ (s'.lfltab d).lfdnum = some b ∧
      (s'.lfltab d).lfbyte = (s.lfltab d).lfpos % lfBlksiz ∧ GrewData L L' i b := by
  have hdba := dba_of_pos h hused hi hat
  rw [hnew, List.getElem?_eq_none (Nat.le_refl _)] at hdba
  subst hi
  have hopened := h.opened d hused
  unfold loadData
  dsimp only
  rw [hdba, lfdballoc_eq h]
  cases hfree : L.data .free with
  | nil => exact .inl ⟨rfl, rfl⟩
  | cons b rest =>
    dsimp only
    rw [ok_bind]
    obtain ⟨ib, hnum, hplace⟩ := hat
    have hblk := h.indexOf hused hnum hplace
    have hlen : (L.data (s.fileOf d)).length = lfIblen * ((s.lfltab d).lfpos / lfIdata) +
        (s.lfltab d).lfpos % lfIdata / lfBlksiz := by
      rw [← hnew]
      unfold lfIblen lfIdata lfBlksiz
      omega
    have htable : (L.data (s.fileOf d)).length / lfIblen = (s.lfltab d).lfpos / lfIdata := by
      rw [← hnew]
      unfold lfIblen lfIdata lfBlksiz
      omega
    let L' := (L.moveData .free .loose rest (b :: L.data .loose)).moveData .loose (s.fileOf d)
      (L.data .loose) (L.data (s.fileOf d) ++ [b])
    have hgrew : GrewData L L' (s.lfltab d).lfdirptr b := grewData hfree
    let dir := { s.lf_dir with lfd_dfree := rest.head? }
    let iblock := { (s.lfltab d).lfiblock with
      ib_dba := update (s.lfltab d).lfiblock.ib_dba ((s.lfltab d).lfpos % lfIdata / lfBlksiz)
        (some b) }
    let f := { s.lfltab d with
      lfiblock := iblock
      lfibdirty := true
      lfdnum := some b
      lfdblock := fun _ => dfill
      lfbyte := (s.lfltab d).lfpos % lfBlksiz }
    let s' := (s.dirTo dir).setFile d f
    have hself : s'.lfltab d = f := lfltab_setFile_self
    have htouch : (s'.touch d).lfltab d = { f with lfdbdirty := true } := by
      rw [lfltab_touch, hself]
    have hwritten : Quiet s (s.dirTo dir) d := quiet_write rfl rfl (fun _ => rfl) fun _ => rfl
    have hquiet : Quiet s s' d := hwritten.trans (quiet_setFile rfl rfl rfl rfl)
    have hframe : Frame s (s'.touch d) d :=
      hquiet.toFrame.trans (frame_setFile rfl rfl rfl)
    refine .inr ⟨s', L', b, rfl, h.next hused hframe ?_ (fun i' hi =>
      ⟨rfl, hgrew.others i' hi, rfl⟩) ?_ (fun _ => ?_) fun _ => ?_, hquiet, ?_, ?_, hgrew⟩
    · refine ((h.volume.takeData hfree).putDir (.dir dir)).attachData rfl
        (fun ib' hd => hframe.dirtyIndex hd fun _ hnum' => ?_)
        (fun b' hd => hframe.dirtyData hd fun hdirty _ => absurd hdirty (by simp [hdb]))
        ⟨d, by rw [htouch], by rw [htouch]⟩ fun ib' hib' => ⟨d, by rw [htouch], ?_⟩
      · rw [htouch]
        exact ⟨rfl, hnum'⟩
      · rw [htouch]
        exact hnum.trans (hplace.symm.trans (htable ▸ hib'))
    · rw [htouch]
      refine ⟨hopened.entry, hopened.name, fun ib' hib' => ?_, fun b' hb' => ?_⟩
      · obtain rfl := Option.some.inj (hnum.symm.trans hib')
        refine ⟨_, hplace, ?_⟩
        show IndexOf (L.index (s.fileOf d)) (L'.data (s.fileOf d)) _ iblock
        rw [hgrew.file]
        exact hblk.setDba hlen
      · obtain rfl := Option.some.inj hb'
        refine ⟨(L.data (s.fileOf d)).length, ?_, fun k _ x hx => ?_⟩
        · show (L'.data (s.fileOf d))[_]? = _
          rw [hgrew.file]
          exact List.getElem?_concat_length
        · rw [List.getElem?_eq_none (Nat.le_trans hend (Nat.le_add_right _ k))] at hx
          cases hx
    · rw [htouch]
      exact ⟨ib, hnum⟩
    · rw [htouch]
      exact ⟨b, rfl⟩
    · rw [hself]
    · rw [hself]

/-! ## `lfsetup` -/

/-- The file has got a data block, and index blocks up to place `t`. -/
structure Extended (L L' : Layout) (i t b : Nat) : Prop where
  data : L'.data (.file i) = L.data (.file i) ++ [b]
  index : (L'.index (.file i)).length = max (t + 1) (L.index (.file i)).length
  others : ∀ i', i' ≠ i → L'.index (.file i') = L.index (.file i') ∧
    L'.data (.file i') = L.data (.file i')
  loose : L'.index .loose = L.index .loose ∧ L'.data .loose = L.data .loose

section LfSetup

variable (h : Stored ibsectors s L bytes) (hused : (s.lfltab d).used = true)
  (hi : (s.lfltab d).lfdirptr = i) (ht : (s.lfltab d).lfpos / lfIdata = t)
include h hused hi ht

/-- No free list is empty that the blocks of the position are taken from. -/
theorem lfsetup_cases (hchain : t ≤ (L.index (.file i)).length)
    (hfull : t = (L.index (.file i)).length → (L.data (.file i)).length = lfIblen * t) :
    (L.index .free = [] ∧ t = (L.index (.file i)).length ∧
      s.lfsetup d = .error .outOfIndexBlocks) ∨
    ∃ s' L', s.lfsetup d = s'.loadData d ∧ Stored ibsectors s' L' bytes ∧ Quiet s s' d ∧
      (s'.lfltab d).lfdbdirty = false ∧ s'.AtIndex d (L'.index (.file i)) t ∧
      (t < (L.index (.file i)).length → L' = L ∧ Still s s') ∧
      (t = (L.index (.file i)).length → ∃ ib, GrewIndex L L' i ib) := by
  obtain ⟨s₁, hflush, hs₁, hn₁, hstill₁, hp₁, ht₁⟩ := flushed_spec h hused
  obtain ⟨hquiet, hclean⟩ := quiet_flushed hn₁ hp₁ hstill₁.dir ht₁
  have hsetup : s.lfsetup d =
      (s₁.firstIndex d >>= fun s => indexLoop d (7 * s.nsectors + 1) s) >>= fun s =>
        s.loadData d := by
    unfold lfsetup
    rw [hflush, ok_bind]
    cases s₁.firstIndex d <;> rfl
  rw [hsetup]
  rcases findIndex_spec hs₁ (hquiet.used.trans hused) (hquiet.entry.trans hi) hclean
    (by rw [hquiet.pos, ht]) hchain hfull with ⟨hfree, hend, hpanic⟩ |
    ⟨s', L', hfind, hs', hq', hdb, hat, hsame, hgrew⟩
  · exact .inl ⟨hfree, hend, by rw [hpanic]; rfl⟩
  · refine .inr ⟨s', L', by rw [hfind, ok_bind], hs', hquiet.trans hq', hdb, hat, fun hlt => ?_,
      hgrew⟩
    exact ⟨(hsame hlt).1, hstill₁.trans (hsame hlt).2⟩

/-- The position has a data block. -/
theorem lfsetup_old (hchain : t < (L.index (.file i)).length)
    (hb : (L.data (.file i))[(s.lfltab d).lfpos / lfBlksiz]? = some b) :
    ∃ s', s.lfsetup d = .ok s' ∧ Stored ibsectors s' L bytes ∧ Quiet s s' d ∧ Still s s' ∧
      (s'.lfltab d).lfdnum = some b ∧
      (s'.lfltab d).lfbyte = (s.lfltab d).lfpos % lfBlksiz := by
  rcases lfsetup_cases h hused hi ht (Nat.le_of_lt hchain)
    fun heq => absurd heq (Nat.ne_of_lt hchain) with ⟨-, heq, -⟩ |
    ⟨s', L', hsetup, hs', hq', hdb, hat, hsame, -⟩
  · exact absurd heq (Nat.ne_of_lt hchain)
  · obtain ⟨rfl, hstill⟩ := hsame hchain
    rw [hsetup]
    obtain ⟨s'', hload, hs'', hq'', hstill', hnum, hbyte⟩ := loadData_old hs' (hq'.used.trans hused)
      (hq'.entry.trans hi) hdb (by rw [hq'.pos, ht]; exact hat) (by rw [hq'.pos]; exact hb)
    exact ⟨s'', hload, hs'', hq'.trans hq'', hstill.trans hstill', hnum, by rw [hbyte, hq'.pos]⟩

/-- The position is where the next data block begins. -/
theorem lfsetup_new (hchain : t ≤ (L.index (.file i)).length)
    (hfull : t = (L.index (.file i)).length → (L.data (.file i)).length = lfIblen * t)
    (hnew : (s.lfltab d).lfpos / lfBlksiz = (L.data (.file i)).length)
    (hend : (bytes i).length ≤ lfBlksiz * (L.data (.file i)).length) :
    ((L.index .free = [] ∧ t = (L.index (.file i)).length ∧
        s.lfsetup d = .error .outOfIndexBlocks) ∨
      L.data .free = [] ∧ s.lfsetup d = .error .outOfDataBlocks) ∨
    ∃ s' L' b, s.lfsetup d = .ok s' ∧ Stored ibsectors (s'.touch d) L' bytes ∧ Quiet s s' d ∧
      (s'.lfltab d).lfdnum = some b ∧
      (s'.lfltab d).lfbyte = (s.lfltab d).lfpos % lfBlksiz ∧ Extended L L' i t b := by
  rcases lfsetup_cases h hused hi ht hchain hfull with hpanic |
    ⟨s', L', hsetup, hs', hq', hdb, hat, hsame, hgrew⟩
  · exact .inl (.inl hpanic)
  · have hlists : L'.data = L.data ∧
        (L'.index (.file i)).length = max (t + 1) (L.index (.file i)).length ∧
        (∀ i', i' ≠ i → L'.index (.file i') = L.index (.file i')) ∧
        L'.index .loose = L.index .loose := by
      rcases Nat.lt_or_eq_of_le hchain with hlt | heq
      · rw [(hsame hlt).1]
        exact ⟨rfl, (Nat.max_eq_right hlt).symm, fun _ _ => rfl, rfl⟩
      · obtain ⟨ib, hgrew⟩ := hgrew heq
        refine ⟨hgrew.data, ?_, hgrew.others, hgrew.loose⟩
        rw [hgrew.file, List.length_append, List.length_singleton, ← heq,
          Nat.max_eq_left (Nat.le_succ t)]
    obtain ⟨hdata, hlen, hindex, hloose⟩ := hlists
    rw [hsetup]
    rcases loadData_new hs' (hq'.used.trans hused) (hq'.entry.trans hi) hdb
      (by rw [hq'.pos, ht]; exact hat) (by rw [hq'.pos, hdata, hnew]) (by rwa [hdata]) with
      ⟨hfree, hpanic⟩ | ⟨s'', L'', b, hload, hs'', hq'', hnum, hbyte, hgrew'⟩
    · exact .inl (.inr ⟨hdata ▸ hfree, hpanic⟩)
    · refine .inr ⟨s'', L'', b, hload, hs'', hq'.trans hq'', hnum, by rw [hbyte, hq'.pos], ?_⟩
      exact
        { data := by rw [hgrew'.file, hdata]
          index := by rw [hgrew'.index, hlen]
          others := fun i' hne =>
            ⟨by rw [hgrew'.index, hindex i' hne], by rw [hgrew'.others i' hne, hdata]⟩
          loose := ⟨by rw [hgrew'.index, hloose], by rw [hgrew'.loose, hdata]⟩ }

end LfSetup

end LocalFiles

end NatBox
