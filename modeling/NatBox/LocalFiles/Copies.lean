import NatBox.LocalFiles.Layout

/-
The copies that the pseudo-devices have of the blocks of their files.

`Stored` is the invariant between two calls and inside of one.  `Stored.next` builds it again after
a step on one pseudo-device: what is to show is about the disk and about that device.
-/

namespace NatBox

open Function Chain Lfs

namespace LocalFiles

/-! ## The invariant -/

def DirtyIndex (s : LocalFiles) (ib : Nat) : Prop :=
  ∃ d, (s.lfltab d).lfibdirty = true ∧ (s.lfltab d).lfinum = some ib

def DirtyData (s : LocalFiles) (b : Nat) : Prop :=
  ∃ d, (s.lfltab d).lfdbdirty = true ∧ (s.lfltab d).lfdnum = some b

/-- A pseudo-device with a file of the directory, and the copies that it has. -/
structure Opened (dir : Lfdir) (L : Layout) (bytes : Nat → List UInt8) (f : Lflcblk) : Prop where
  entry : f.lfdirptr < dir.lfd_nfiles.toNat
  name : (dir.lfd_files f.lfdirptr).ld_name = f.lfname
  inum : ∀ ib, f.lfinum = some ib → ∃ j, (L.index (.file f.lfdirptr))[j]? = some ib ∧
    IndexOf (L.index (.file f.lfdirptr)) (L.data (.file f.lfdirptr)) j f.lfiblock
  dnum : ∀ b, f.lfdnum = some b → ∃ m, (L.data (.file f.lfdirptr))[m]? = some b ∧
    Holds (bytes f.lfdirptr) m f.lfdblock

structure Stored (ibsectors : Nat) (s : LocalFiles) (L : Layout) (bytes : Nat → List UInt8) :
    Prop where
  volume : Volume ibsectors s.nsectors s.disk s.lf_dir L bytes s.DirtyIndex s.DirtyData
  opened : ∀ d, (s.lfltab d).used = true → Opened s.lf_dir L bytes (s.lfltab d)
  apart : ∀ d d', (s.lfltab d).used = true → (s.lfltab d').used = true →
    (s.lfltab d).lfdirptr = (s.lfltab d').lfdirptr → d = d'
  indexKnown : ∀ d, (s.lfltab d).lfibdirty = true →
    (s.lfltab d).used = true ∧ ∃ ib, (s.lfltab d).lfinum = some ib
  dataKnown : ∀ d, (s.lfltab d).lfdbdirty = true →
    (s.lfltab d).used = true ∧ ∃ b, (s.lfltab d).lfdnum = some b

/-- What a step on one pseudo-device leaves as it was. -/
structure Frame (s s' : LocalFiles) (d : Fin nlfl) : Prop where
  nsectors : s'.nsectors = s.nsectors
  dirpresent : s'.lf_dirpresent = s.lf_dirpresent
  check : lfscheck s'.lf_dir = lfscheck s.lf_dir
  nfiles : s'.lf_dir.lfd_nfiles = s.lf_dir.lfd_nfiles
  names : ∀ i, (s'.lf_dir.lfd_files i).ld_name = (s.lf_dir.lfd_files i).ld_name
  others : ∀ d', d' ≠ d → s'.lfltab d' = s.lfltab d'
  used : (s'.lfltab d).used = (s.lfltab d).used
  entry : (s'.lfltab d).lfdirptr = (s.lfltab d).lfdirptr
  name : (s'.lfltab d).lfname = (s.lfltab d).lfname

/-- And one that brings blocks to the disk or into memory. -/
structure Quiet (s s' : LocalFiles) (d : Fin nlfl) : Prop extends Frame s s' d where
  sizes : ∀ i, (s'.lf_dir.lfd_files i).ld_size = (s.lf_dir.lfd_files i).ld_size
  pos : (s'.lfltab d).lfpos = (s.lfltab d).lfpos

/-- The directory is as it was, and its sector too unless the directory counted as changed and has
been written. -/
structure Still (s s' : LocalFiles) : Prop where
  dir : s'.lf_dir = s.lf_dir
  sector : (s'.lf_dirdirty = s.lf_dirdirty ∧ s'.disk lfAreaDir = s.disk lfAreaDir) ∨
    (s.lf_dirdirty = true ∧ s'.lf_dirdirty = false ∧ s'.disk lfAreaDir = .dir s.lf_dir)

variable {ibsectors : Nat} {s s' s'' : LocalFiles} {d d' : Fin nlfl} {f : Lflcblk} {L L' : Layout}
  {bytes bytes' : Nat → List UInt8} {ib b j m i : Nat} {dir dir' : Lfdir}

theorem Quiet.refl (s : LocalFiles) (d : Fin nlfl) : Quiet s s d :=
  ⟨⟨rfl, rfl, rfl, rfl, fun _ => rfl, fun _ _ => rfl, rfl, rfl, rfl⟩, fun _ => rfl, rfl⟩

theorem Frame.trans (h : Frame s s' d) (h' : Frame s' s'' d) : Frame s s'' d where
  nsectors := h'.nsectors.trans h.nsectors
  dirpresent := h'.dirpresent.trans h.dirpresent
  check := h'.check.trans h.check
  nfiles := h'.nfiles.trans h.nfiles
  names i := (h'.names i).trans (h.names i)
  others d' hd := (h'.others d' hd).trans (h.others d' hd)
  used := h'.used.trans h.used
  entry := h'.entry.trans h.entry
  name := h'.name.trans h.name

theorem Quiet.trans (h : Quiet s s' d) (h' : Quiet s' s'' d) : Quiet s s'' d where
  toFrame := h.toFrame.trans h'.toFrame
  sizes i := (h'.sizes i).trans (h.sizes i)
  pos := h'.pos.trans h.pos

theorem Still.refl (s : LocalFiles) : Still s s := ⟨rfl, .inl ⟨rfl, rfl⟩⟩

theorem Still.trans (h : Still s s') (h' : Still s' s'') : Still s s'' := by
  refine ⟨h'.dir.trans h.dir, ?_⟩
  rcases h'.sector with ⟨hdirty', hsector'⟩ | ⟨hmarked', hdirty', hsector'⟩
  · rcases h.sector with ⟨hdirty, hsector⟩ | ⟨hmarked, hdirty, hsector⟩
    · exact .inl ⟨hdirty'.trans hdirty, hsector'.trans hsector⟩
    · exact .inr ⟨hmarked, hdirty'.trans hdirty, hsector'.trans hsector⟩
  · rcases h.sector with ⟨hdirty, -⟩ | ⟨-, hdirty, -⟩
    · exact .inr ⟨hdirty.symm.trans hmarked', hdirty', h.dir ▸ hsector'⟩
    · exact absurd hmarked' (by simp [hdirty])

@[simp] theorem lfltab_setFile_self : (s.setFile d f).lfltab d = f := update_self _ _ _

theorem lfltab_setFile_of_ne (h : d' ≠ d) : (s.setFile d f).lfltab d' = s.lfltab d' :=
  update_of_ne h _ _

theorem frame_setFile (hused : f.used = (s.lfltab d).used)
    (hentry : f.lfdirptr = (s.lfltab d).lfdirptr) (hname : f.lfname = (s.lfltab d).lfname) :
    Frame s (s.setFile d f) d where
  nsectors := rfl
  dirpresent := rfl
  check := rfl
  nfiles := rfl
  names _ := rfl
  others _ h := lfltab_setFile_of_ne h
  used := by rwa [lfltab_setFile_self]
  entry := by rwa [lfltab_setFile_self]
  name := by rwa [lfltab_setFile_self]

theorem quiet_setFile (hused : f.used = (s.lfltab d).used)
    (hentry : f.lfdirptr = (s.lfltab d).lfdirptr) (hname : f.lfname = (s.lfltab d).lfname)
    (hpos : f.lfpos = (s.lfltab d).lfpos) : Quiet s (s.setFile d f) d where
  toFrame := frame_setFile hused hentry hname
  sizes _ := rfl
  pos := by rwa [lfltab_setFile_self]

theorem still_setFile : Still s (s.setFile d f) := ⟨rfl, .inl ⟨rfl, rfl⟩⟩

/-- Whatever is written to the disk, and to the free lists of the directory. -/
theorem quiet_write {disk : Nat → Sector} {dirdirty : Bool}
    (hcheck : lfscheck dir = lfscheck s.lf_dir)
    (hnfiles : dir.lfd_nfiles = s.lf_dir.lfd_nfiles)
    (hnames : ∀ i, (dir.lfd_files i).ld_name = (s.lf_dir.lfd_files i).ld_name)
    (hsizes : ∀ i, (dir.lfd_files i).ld_size = (s.lf_dir.lfd_files i).ld_size) :
    Quiet s { s with disk := disk, lf_dir := dir, lf_dirdirty := dirdirty } d where
  nsectors := rfl
  dirpresent := rfl
  check := hcheck
  nfiles := hnfiles
  names := hnames
  others _ _ := rfl
  used := rfl
  entry := rfl
  name := rfl
  sizes := hsizes
  pos := rfl

/-- A file whose blocks and bytes are as they were. -/
theorem Opened.congr (h : Opened dir L bytes f)
    (hnfiles : dir'.lfd_nfiles = dir.lfd_nfiles)
    (hname : ∀ i, (dir'.lfd_files i).ld_name = (dir.lfd_files i).ld_name)
    (hindex : L'.index (.file f.lfdirptr) = L.index (.file f.lfdirptr))
    (hdata : L'.data (.file f.lfdirptr) = L.data (.file f.lfdirptr))
    (hbytes : bytes' f.lfdirptr = bytes f.lfdirptr) : Opened dir' L' bytes' f where
  entry := hnfiles ▸ h.entry
  name := (hname _).trans h.name
  inum ib hib := by
    rw [hindex, hdata]
    exact h.inum ib hib
  dnum b hb := by
    rw [hdata, hbytes]
    exact h.dnum b hb

theorem Frame.dirtyIndex (h : Frame s s' d) (hd : s.DirtyIndex ib)
    (hself : (s.lfltab d).lfibdirty = true → (s.lfltab d).lfinum = some ib →
      (s'.lfltab d).lfibdirty = true ∧ (s'.lfltab d).lfinum = some ib) : s'.DirtyIndex ib := by
  obtain ⟨d', hdirty, hnum⟩ := hd
  by_cases hd' : d' = d
  · rw [hd'] at hdirty hnum
    exact ⟨d, hself hdirty hnum⟩
  · refine ⟨d', ?_⟩
    rw [h.others d' hd']
    exact ⟨hdirty, hnum⟩

theorem Frame.dirtyData (h : Frame s s' d) (hd : s.DirtyData b)
    (hself : (s.lfltab d).lfdbdirty = true → (s.lfltab d).lfdnum = some b →
      (s'.lfltab d).lfdbdirty = true ∧ (s'.lfltab d).lfdnum = some b) : s'.DirtyData b := by
  obtain ⟨d', hdirty, hnum⟩ := hd
  by_cases hd' : d' = d
  · rw [hd'] at hdirty hnum
    exact ⟨d, hself hdirty hnum⟩
  · refine ⟨d', ?_⟩
    rw [h.others d' hd']
    exact ⟨hdirty, hnum⟩

section Stored

variable (h : Stored ibsectors s L bytes)
include h

/-- After a step on a pseudo-device that has a file. -/
theorem Stored.next (hused : (s.lfltab d).used = true) (hframe : Frame s s' d)
    (hvolume : Volume ibsectors s'.nsectors s'.disk s'.lf_dir L' bytes' s'.DirtyIndex s'.DirtyData)
    (hothers : ∀ i, i ≠ (s.lfltab d).lfdirptr → L'.index (.file i) = L.index (.file i) ∧
      L'.data (.file i) = L.data (.file i) ∧ bytes' i = bytes i)
    (hopened : Opened s'.lf_dir L' bytes' (s'.lfltab d))
    (hindex : (s'.lfltab d).lfibdirty = true → ∃ ib, (s'.lfltab d).lfinum = some ib)
    (hdata : (s'.lfltab d).lfdbdirty = true → ∃ b, (s'.lfltab d).lfdnum = some b) :
    Stored ibsectors s' L' bytes' := by
  have husedeq : ∀ d', (s'.lfltab d').used = (s.lfltab d').used := fun d' => by
    by_cases hd : d' = d
    · rw [hd, hframe.used]
    · rw [hframe.others d' hd]
  have hentryeq : ∀ d', (s'.lfltab d').lfdirptr = (s.lfltab d').lfdirptr := fun d' => by
    by_cases hd : d' = d
    · rw [hd, hframe.entry]
    · rw [hframe.others d' hd]
  refine ⟨hvolume, fun d' hd' => ?_, fun d₁ d₂ h₁ h₂ heq => ?_, fun d' hd' => ?_, fun d' hd' => ?_⟩
  · by_cases hd : d' = d
    · rwa [hd]
    · rw [husedeq] at hd'
      have hne : (s.lfltab d').lfdirptr ≠ (s.lfltab d).lfdirptr :=
        fun heq => hd (h.apart d' d hd' hused heq)
      obtain ⟨hi, hb, hbytes⟩ := hothers _ hne
      rw [hframe.others d' hd]
      exact (h.opened d' hd').congr hframe.nfiles hframe.names hi hb hbytes
  · rw [husedeq] at h₁ h₂
    rw [hentryeq, hentryeq] at heq
    exact h.apart d₁ d₂ h₁ h₂ heq
  · by_cases hd : d' = d
    · rw [hd] at hd' ⊢
      exact ⟨hframe.used.trans hused, hindex hd'⟩
    · rw [hframe.others d' hd] at hd' ⊢
      exact h.indexKnown d' hd'
  · by_cases hd : d' = d
    · rw [hd] at hd' ⊢
      exact ⟨hframe.used.trans hused, hdata hd'⟩
    · rw [hframe.others d' hd] at hd' ⊢
      exact h.dataKnown d' hd'

/-- Only its own pseudo-device has a changed copy of a block. -/
theorem Stored.not_dirtyIndex (hused : (s.lfltab d).used = true)
    (hj : (L.index (.file (s.lfltab d).lfdirptr))[j]? = some ib)
    (hclean : (s.lfltab d).lfibdirty = true → (s.lfltab d).lfinum ≠ some ib) :
    ¬ s.DirtyIndex ib := by
  rintro ⟨d', hdirty, hnum⟩
  have hused' := (h.indexKnown d' hdirty).1
  obtain ⟨j', hj', -⟩ := (h.opened d' hused').inum ib hnum
  have hentry := Owner.file.inj (h.volume.indexParts.place hj hj').1
  obtain rfl := h.apart d d' hused hused' hentry
  exact hclean hdirty hnum

theorem Stored.not_dirtyData (hused : (s.lfltab d).used = true)
    (hm : (L.data (.file (s.lfltab d).lfdirptr))[m]? = some b)
    (hclean : (s.lfltab d).lfdbdirty = true → (s.lfltab d).lfdnum ≠ some b) :
    ¬ s.DirtyData b := by
  rintro ⟨d', hdirty, hnum⟩
  have hused' := (h.dataKnown d' hdirty).1
  obtain ⟨m', hm', -⟩ := (h.opened d' hused').dnum b hnum
  have hentry := Owner.file.inj (h.volume.dataParts.place hm hm').1
  obtain rfl := h.apart d d' hused hused' hentry
  exact hclean hdirty hnum

/-- A pseudo-device gets other copies, where none that it had was changed unless it stays. -/
theorem Stored.setFile (hused : (s.lfltab d).used = true) (hfused : f.used = true)
    (hentry : f.lfdirptr = (s.lfltab d).lfdirptr) (hopened : Opened s.lf_dir L bytes f)
    (hindex : f.lfibdirty = true → ∃ ib, f.lfinum = some ib)
    (hdata : f.lfdbdirty = true → ∃ b, f.lfdnum = some b)
    (hkindex : (s.lfltab d).lfibdirty = true →
      f.lfibdirty = true ∧ f.lfinum = (s.lfltab d).lfinum)
    (hkdata : (s.lfltab d).lfdbdirty = true → f.lfdbdirty = true ∧ f.lfdnum = (s.lfltab d).lfdnum) :
    Stored ibsectors (s.setFile d f) L bytes := by
  have hname : f.lfname = (s.lfltab d).lfname := by
    rw [← hopened.name, hentry]
    exact (h.opened d hused).name
  have hframe := frame_setFile (hfused.trans hused.symm) hentry hname
  refine h.next hused hframe ?_ (fun _ _ => ⟨rfl, rfl, rfl⟩) ?_ ?_ ?_
  · refine h.volume.mono (fun ib hd => hframe.dirtyIndex hd fun hdirty hnum => ?_)
      fun b hd => hframe.dirtyData hd fun hdirty hnum => ?_
    · rw [lfltab_setFile_self]
      exact ⟨(hkindex hdirty).1, (hkindex hdirty).2.trans hnum⟩
    · rw [lfltab_setFile_self]
      exact ⟨(hkdata hdirty).1, (hkdata hdirty).2.trans hnum⟩
  · rwa [lfltab_setFile_self]
  · rwa [lfltab_setFile_self]
  · rwa [lfltab_setFile_self]

end Stored

end LocalFiles

end NatBox
