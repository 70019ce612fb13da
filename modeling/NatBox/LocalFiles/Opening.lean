import NatBox.LocalFiles.Truncate

/-
`lfsopen` and `lflclose`.

`lfsopen` gives out the first free pseudo-device.  The entry of a new file goes behind the others
in the directory, and has no blocks.
-/

namespace NatBox

open Function Chain Lfs

namespace Lfs

/-! ## Looking for names -/

theorem sameName_iff {nam cmp : List Char} : sameName nam cmp = true ↔ nam = cmp := by
  induction nam generalizing cmp with
  | nil => cases cmp <;> simp [sameName]
  | cons a nam ih =>
    cases cmp with
    | nil => simp [sameName]
    | cons b cmp =>
      rw [sameName]
      split
      · next heq => simp [ih, heq]
      · next hne => simp [hne]

theorem findName_eq {dir : Lfdir} {names : List (List Char)} (name : List Char) (i : Nat)
    (hnames : ∀ k < names.length, names[k]? = some (dir.lfd_files (i + k)).ld_name) :
    findName dir name names.length i = (names.idxOf? name).map (· + i) := by
  induction names generalizing i with
  | nil => rfl
  | cons nam names ih =>
    have hhead := hnames 0 (Nat.succ_pos _)
    have hrest : ∀ k < names.length, names[k]? = some (dir.lfd_files (i + 1 + k)).ld_name := by
      intro k hk
      have hnext := hnames (k + 1) (Nat.succ_lt_succ hk)
      rwa [List.getElem?_cons_succ, show i + (k + 1) = i + 1 + k by omega] at hnext
    rw [List.getElem?_cons_zero, Nat.add_zero] at hhead
    rw [List.length_cons, findName, ← Option.some.inj hhead, ih (i + 1) hrest, List.idxOf?_cons]
    by_cases heq : name = nam
    · rw [if_pos (sameName_iff.mpr heq), heq, if_pos (beq_self_eq_true nam)]
      simp
    · rw [if_neg (mt sameName_iff.mp heq), if_neg (by simpa using Ne.symm heq), Option.map_map]
      congr 1
      funext k
      simp only [Function.comp_apply]
      omega

end Lfs

namespace LocalFiles

/-- `lfsopen` up to where it obtains the directory: the mode and the pseudo-device. -/
def openDevice (s : LocalFiles) (name mode : List Char) : Option (LfMode × Fin nlfl) :=
  if name.length ≥ lfNameLen then none
  else (lfgetmode mode).bind fun mbits =>
    (s.freeDevice name (List.finRange nlfl) none).map fun d => (mbits, d)

/-- And the rest of it. -/
def openLoaded (s : LocalFiles) (name : List Char) (mbits : LfMode) (d : Fin nlfl) :
    Except LfFault (LfResult × LocalFiles) := do
  match ← s.loadDir with
  | (false, s) => .ok (.syserr, s)
  | (true, s) => .ok (s.openNamed name mbits d)

theorem lfsopen_eq (s : LocalFiles) (name mode : List Char) : s.lfsopen name mode =
    (s.openDevice name mode).elim (.ok (.syserr, s)) fun p => s.openLoaded name p.1 p.2 := by
  unfold lfsopen openDevice
  split
  · rfl
  · cases lfgetmode mode with
    | none => rfl
    | some mbits =>
      dsimp only [Option.bind_some]
      cases s.freeDevice name (List.finRange nlfl) none <;> rfl

/-- `openNamed` creates a file. -/
def newName (s : LocalFiles) (name : List Char) (mbits : LfMode) : Bool :=
  (findName s.lf_dir name s.lf_dir.lfd_nfiles.toNat 0).isNone && !mbits.o &&
    decide (s.lf_dir.lfd_nfiles < lfNumDirEnt)

/-- Only the directory in memory has the new entry. -/
structure Created (s s' : LocalFiles) : Prop where
  dirdirty : s'.lf_dirdirty = s.lf_dirdirty
  sector : s'.disk lfAreaDir = s.disk lfAreaDir
  nfiles : s'.lf_dir.lfd_nfiles = s.lf_dir.lfd_nfiles + 1

structure Enters (new : Bool) (s s' : LocalFiles) : Prop where
  created : new = true → Created s s'
  still : new = false → Still s s'

variable {ibsectors : Nat} {s : LocalFiles} {L : Layout} {bytes : Nat → List UInt8} {d : Fin nlfl}
  {f : Lflcblk}

theorem freeDevice_eq (s : LocalFiles) (name : List Char) (ds : List (Fin nlfl))
    (lfnext : Option (Fin nlfl)) : s.freeDevice name ds lfnext =
      if ds.any fun d => (s.lfltab d).used && sameName name (s.lfltab d).lfname then none
      else lfnext.or (ds.find? fun d => !(s.lfltab d).used) := by
  induction ds generalizing lfnext with
  | nil => simp [freeDevice]
  | cons d ds ih =>
    rw [freeDevice, List.any_cons, List.find?_cons]
    cases hused : (s.lfltab d).used with
    | false =>
      rw [Bool.not_false, if_pos rfl, ih, Bool.false_and, Bool.false_or]
      cases lfnext <;> rfl
    | true =>
      rw [Bool.not_true, if_neg (by simp), Bool.true_and]
      split
      · next hsame => simp [hsame]
      · next hother =>
        rw [ih, Bool.eq_false_iff.mpr hother, Bool.false_or]

/-- A pseudo-device without changed copies gets or loses a file. -/
theorem Stored.replace (h : s.Stored ibsectors L bytes) (hclean : s.Clean d)
    (hib : f.lfibdirty = false) (hdb : f.lfdbdirty = false)
    (hopened : f.used = true → Opened s.lf_dir L bytes f ∧ ∀ d', d' ≠ d →
      (s.lfltab d').used = true → (s.lfltab d').lfdirptr ≠ f.lfdirptr) :
    (s.setFile d f).Stored ibsectors L bytes := by
  have hindex : ∀ ib, s.DirtyIndex ib → (s.setFile d f).DirtyIndex ib := by
    rintro ib ⟨d', hdirty, hnum⟩
    have hne : d' ≠ d := by
      rintro rfl
      exact absurd hdirty (by simp [hclean.1])
    exact ⟨d', by rw [lfltab_setFile_of_ne hne]; exact ⟨hdirty, hnum⟩⟩
  have hdata : ∀ b, s.DirtyData b → (s.setFile d f).DirtyData b := by
    rintro b ⟨d', hdirty, hnum⟩
    have hne : d' ≠ d := by
      rintro rfl
      exact absurd hdirty (by simp [hclean.2])
    exact ⟨d', by rw [lfltab_setFile_of_ne hne]; exact ⟨hdirty, hnum⟩⟩
  refine ⟨h.volume.mono hindex hdata, fun d' hd' => ?_, fun d₁ d₂ h₁ h₂ heq => ?_, fun d' hd' => ?_,
    fun d' hd' => ?_⟩
  · by_cases hdd : d' = d
    · rw [hdd, lfltab_setFile_self] at hd' ⊢
      exact (hopened hd').1
    · rw [lfltab_setFile_of_ne hdd] at hd' ⊢
      exact h.opened d' hd'
  · by_cases hd₁ : d₁ = d
    · by_cases hd₂ : d₂ = d
      · rw [hd₁, hd₂]
      · rw [hd₁, lfltab_setFile_self] at h₁ heq
        rw [lfltab_setFile_of_ne hd₂] at h₂ heq
        exact absurd heq.symm ((hopened h₁).2 d₂ hd₂ h₂)
    · rw [lfltab_setFile_of_ne hd₁] at h₁ heq
      by_cases hd₂ : d₂ = d
      · rw [hd₂, lfltab_setFile_self] at h₂ heq
        exact absurd heq ((hopened h₂).2 d₁ hd₁ h₁)
      · rw [lfltab_setFile_of_ne hd₂] at h₂ heq
        exact h.apart d₁ d₂ h₁ h₂ heq
  · by_cases hdd : d' = d
    · rw [hdd, lfltab_setFile_self, hib] at hd'
      cases hd'
    · rw [lfltab_setFile_of_ne hdd] at hd' ⊢
      exact h.indexKnown d' hd'
  · by_cases hdd : d' = d
    · rw [hdd, lfltab_setFile_self, hdb] at hd'
      cases hd'
    · rw [lfltab_setFile_of_ne hdd] at hd' ⊢
      exact h.dataKnown d' hd'

end LocalFiles

open LocalFiles

namespace Refines

variable {ibsectors : Nat} {st : Store} {s : LocalFiles} {L : Layout} {d : Fin nlfl} {i pos : Nat}

/-! ## `lflclose` -/

theorem lflclose_spec (h : Refines ibsectors st s L) (hd : st.opened d = some (i, pos)) :
    Yields ibsectors s (s.lflclose d) (.ok, { st with opened := update st.opened d none })
      fun s' => Still s s' ∧ s'.lf_dirdirty = false := by
  have hopen := h.opened d i pos hd
  have hflush : ∃ s₁, (if s.lf_dirdirty || (s.lfltab d).lfdbdirty || (s.lfltab d).lfibdirty then
      s.lfflush d else .ok s) = .ok s₁ ∧ s₁.Stored ibsectors L st.bytes ∧ Quiet s s₁ d ∧
      s₁.Clean d ∧ Still s s₁ ∧ s₁.lf_dirdirty = false := by
    split
    · obtain ⟨s₁, hflush, hs₁, hn₁, hstill, hdirty, hp₁, ht₁⟩ := lfflush_spec h.stored hopen.used
      obtain ⟨hq₁, hclean⟩ := quiet_flushed hn₁ hp₁ hstill.dir ht₁
      exact ⟨s₁, hflush, hs₁, hq₁, hclean, hstill, hdirty⟩
    · next hclean =>
      simp only [Bool.or_eq_true, not_or, Bool.not_eq_true] at hclean
      obtain ⟨⟨hdir, hdb⟩, hib⟩ := hclean
      exact ⟨s, rfl, h.stored, Quiet.refl s d, ⟨hib, hdb⟩, Still.refl s, hdir⟩
  obtain ⟨s₁, hflush, hs₁, hq₁, hclean, hstill, hdirty⟩ := hflush
  refine ⟨s₁.setFile d { s₁.lfltab d with used := false }, L, ?_, ?_, hq₁.nsectors,
    hstill.trans still_setFile, hdirty⟩
  · unfold lflclose
    rw [hopen.used, if_neg (by simp), hflush]
    rfl
  · refine h.next rfl hq₁.dirpresent ?_ ?_ (fun d' hne => ?_) (fun _ _ _ _ _ => ⟨rfl, rfl⟩)
      (fun _ => ?_) fun i' pos' hsome => by cases hsome
    · exact hs₁.replace hclean hclean.1 hclean.2 fun hused => by cases hused
    · exact h.agrees.congr hq₁.check hq₁.nfiles hq₁.names hq₁.sizes
    · exact (lfltab_setFile_of_ne hne).trans (hq₁.others d' hne)
    · rw [lfltab_setFile_self]

/-! ## `lfsopen` -/

theorem used_eq (h : Refines ibsectors st s L) (d : Fin nlfl) :
    (s.lfltab d).used = (st.opened d).isSome := by
  cases hd : st.opened d with
  | none => exact h.closed d hd
  | some p => exact (h.opened d p.1 p.2 hd).used

/-- Both find the same pseudo-device. -/
theorem freeDevice_eq (h : Refines ibsectors st s L) (name : List Char) :
    s.freeDevice name (List.finRange nlfl) none =
      if st.isOpen name then none else st.freeHandle := by
  have hsame : (fun d => (s.lfltab d).used && sameName name (s.lfltab d).lfname) =
      fun d => (st.opened d).any fun p => st.names[p.1]? = some name := by
    funext d
    rw [h.used_eq]
    cases hd : st.opened d with
    | none => rfl
    | some p =>
      have hopen := h.opened d p.1 p.2 hd
      have hname := h.agrees.name p.1 (h.lt_length hd)
      have hfile := (h.stored.opened d hopen.used).name
      rw [hopen.entry] at hfile
      rw [Option.isSome_some, Bool.true_and, Option.any_some, hname, hfile]
      refine Bool.eq_iff_iff.mpr (sameName_iff.trans ?_)
      rw [decide_eq_true_iff, Option.some.injEq]
      exact eq_comm
  have hfree : (fun d => !(s.lfltab d).used) = fun d => (st.opened d).isNone := by
    funext d
    rw [h.used_eq]
    cases st.opened d <;> rfl
  rw [LocalFiles.freeDevice_eq, hsame, hfree, Option.none_or]
  rfl

/-- A pseudo-device gets a file that no other one has. -/
theorem initDevice_refines (h : Refines ibsectors st s L) (hd : st.opened d = none)
    {name : List Char} (hname : st.names[i]? = some name)
    (hother : ∀ d' pos', st.opened d' ≠ some (i, pos')) :
    Refines ibsectors (st.moveTo d i 0) (s.initDevice d i name) L := by
  have hi := (List.getElem?_eq_some_iff.mp hname).1
  have hentry := h.agrees.name i hi
  rw [hname] at hentry
  have hclean : s.Clean d := by
    have hunused := h.closed d hd
    refine ⟨Bool.eq_false_iff.mpr fun hib => ?_, Bool.eq_false_iff.mpr fun hdb => ?_⟩
    · exact absurd (h.stored.indexKnown d hib).1 (by simp [hunused])
    · exact absurd (h.stored.dataKnown d hdb).1 (by simp [hunused])
  refine h.next rfl rfl ?_ h.agrees (fun d' hne => lfltab_setFile_of_ne hne)
    (fun _ _ _ _ _ => ⟨rfl, rfl⟩) (fun hnone => by cases hnone) fun i' pos' hsome => ?_
  · refine h.stored.replace hclean rfl rfl fun _ => ⟨⟨?_, ?_, fun ib hib => ?_, fun b hb => ?_⟩,
      fun d' hne hused heq => ?_⟩
    · show i < s.lf_dir.lfd_nfiles.toNat
      rw [h.agrees.toNat_nfiles]
      exact hi
    · exact (Option.some.inj hentry).symm
    · cases hib
    · cases hb
    · rw [h.used_eq] at hused
      obtain ⟨p, hp⟩ := Option.isSome_iff_exists.mp hused
      have hopen := h.opened d' p.1 p.2 hp
      obtain rfl : p.1 = i := hopen.entry.symm.trans heq
      exact hother d' p.2 hp
  · obtain ⟨rfl, rfl⟩ := Prod.mk.inj (Option.some.inj hsome)
    rw [initDevice, lfltab_setFile_self]
    exact ⟨rfl, rfl, rfl, Nat.zero_le _, fun hin => absurd hin (Nat.lt_irrefl _)⟩

section NewEntry

variable (h : Refines ibsectors st s L) (name : List Char)
include h

theorem newEntry_dir : (s.newEntry name).1 = st.names.length ∧
    (s.newEntry name).2 = s.setDir { s.lf_dir with
      lfd_nfiles := s.lf_dir.lfd_nfiles + 1
      lfd_files := update s.lf_dir.lfd_files st.names.length ⟨0, none, name⟩ } := by
  have hn := h.agrees.toNat_nfiles
  refine ⟨hn, ?_⟩
  rw [← hn]
  rfl

theorem newEntry_stored : (s.newEntry name).2.Stored ibsectors L
    (update st.bytes st.names.length []) := by
  have hn := h.agrees.toNat_nfiles
  have hbeyond := h.agrees.beyond st.names.length (Nat.le_refl _)
  have hn' : (s.lf_dir.lfd_nfiles + 1).toNat = st.names.length + 1 := by
    rw [h.agrees.nfiles]
    omega
  rw [(h.newEntry_dir name).2]
  refine ⟨?_, fun d hd => ?_, h.stored.apart, h.stored.indexKnown, h.stored.dataKnown⟩
  · rw [← hn] at hbeyond hn' ⊢
    refine h.stored.volume.newEntry hbeyond.1 hbeyond.2 ⟨rfl, rfl, hn'⟩ fun i => ?_
    by_cases hi : i = s.lf_dir.lfd_nfiles.toNat
    · rw [if_pos hi, hi]
      show (update s.lf_dir.lfd_files _ _ _).ld_ilist = none
      rw [update_self]
    · rw [if_neg hi]
      show (update s.lf_dir.lfd_files _ _ i).ld_ilist = _
      rw [update_of_ne hi]
  · have hopened := h.stored.opened d hd
    have hlt := hopened.entry
    rw [hn] at hlt
    have hne : (s.lfltab d).lfdirptr ≠ st.names.length := Nat.ne_of_lt hlt
    show Opened _ L (update st.bytes st.names.length []) (s.lfltab d)
    refine ⟨?_, ?_, hopened.inum, fun b hb => ?_⟩
    · show (s.lfltab d).lfdirptr < (s.lf_dir.lfd_nfiles + 1).toNat
      rw [hn']
      exact Nat.lt_succ_of_lt hlt
    · show (update s.lf_dir.lfd_files _ _ (s.lfltab d).lfdirptr).ld_name = (s.lfltab d).lfname
      rw [update_of_ne hne]
      exact hopened.name
    · rw [update_of_ne hne]
      exact hopened.dnum b hb

variable {name}

theorem newEntry_agrees (hname : name ∉ st.names) : Agrees (s.newEntry name).2.lf_dir L
    (st.names ++ [name]) (update st.bytes st.names.length []) := by
  have hag := h.agrees
  have hbeyond := hag.beyond st.names.length (Nat.le_refl _)
  have hcases : ∀ i, i < (st.names ++ [name]).length → i = st.names.length ∨
      i ≠ st.names.length ∧ i < st.names.length := by
    intro i hi
    rw [List.length_append, List.length_singleton] at hi
    omega
  rw [(h.newEntry_dir name).2]
  refine
    { check := ?_
      nfiles := ?_
      name := fun i hi => ?_
      nodup := ?_
      size := fun i hi => ?_
      dataLen := fun i hi => ?_
      indexLen := fun i hi => ?_
      beyond := fun i hi => ?_
      loose := hag.loose }
  · have hcheck := hag.check
    have hnfiles := hag.nfiles
    unfold lfscheck at hcheck ⊢
    simp only [Bool.and_eq_true, Bool.not_eq_true', decide_eq_false_iff_not] at hcheck ⊢
    refine ⟨hcheck.1, ?_⟩
    show ¬ s.lf_dir.lfd_nfiles + 1 < 0
    omega
  · show s.lf_dir.lfd_nfiles + 1 = _
    rw [hag.nfiles, List.length_append, List.length_singleton]
    rfl
  · show _ = some (update s.lf_dir.lfd_files _ _ i).ld_name
    rcases hcases i hi with rfl | ⟨hne, hlt⟩
    · rw [update_self]
      exact List.getElem?_concat_length
    · rw [update_of_ne hne, List.getElem?_append_left hlt]
      exact hag.name i hlt
  · exact List.nodup_append.mpr ⟨hag.nodup, List.nodup_singleton _, fun a ha b hb hab =>
      hname (List.mem_singleton.mp hb ▸ hab ▸ ha)⟩
  · show (update s.lf_dir.lfd_files _ _ i).ld_size = _
    rcases hcases i hi with rfl | ⟨hne, hlt⟩
    · rw [update_self, update_self]
      rfl
    · rw [update_of_ne hne, update_of_ne hne]
      exact hag.size i hlt
  · rcases hcases i hi with rfl | ⟨hne, hlt⟩
    · rw [hbeyond.2, update_self]
      rfl
    · rw [update_of_ne hne]
      exact hag.dataLen i hlt
  · rcases hcases i hi with rfl | ⟨hne, hlt⟩
    · rw [hbeyond.1, update_self]
      rfl
    · rw [update_of_ne hne]
      exact hag.indexLen i hlt
  · rw [List.length_append] at hi
    exact hag.beyond i (Nat.le_of_add_right_le hi)

/-- The entry of a new file. -/
theorem newEntry_refines (hname : name ∉ st.names) :
    Refines ibsectors { st with
      names := st.names ++ [name]
      bytes := update st.bytes st.names.length [] } (s.newEntry name).2 L := by
  have hagrees := h.newEntry_agrees hname
  have hstored := h.newEntry_stored name
  rw [(h.newEntry_dir name).2] at hagrees hstored ⊢
  refine ⟨h.present, hstored, hagrees, h.closed, fun d i pos hd => ?_⟩
  have hopen := h.opened d i pos hd
  have hne : i ≠ st.names.length := Nat.ne_of_lt (h.lt_length hd)
  refine ⟨hopen.used, hopen.entry, hopen.pos_eq, ?_, hopen.buffer⟩
  show pos ≤ (update st.bytes _ [] i).length
  rw [update_of_ne hne]
  exact hopen.pos_le

end NewEntry

theorem findName_eq (h : Refines ibsectors st s L) (name : List Char) :
    findName s.lf_dir name s.lf_dir.lfd_nfiles.toNat 0 = st.names.idxOf? name := by
  have hn := h.agrees.toNat_nfiles
  rw [hn, Lfs.findName_eq name 0 fun k hk => by rw [Nat.zero_add]; exact h.agrees.name k hk]
  cases st.names.idxOf? name <;> rfl

theorem openNamed_spec (h : Refines ibsectors st s L) {name : List Char}
    (hopen : st.isOpen name = false) (hfree : st.freeHandle = some d) (mbits : LfMode) :
    Yields ibsectors s (.ok (s.openNamed name mbits d)) (st.openNamed name mbits d)
      (Enters (s.newName name mbits) s) := by
  have hd : st.opened d = none := by
    have hnone := List.find?_some hfree
    exact Option.isNone_iff_eq_none.mp hnone
  have hfull : s.lf_dir.lfd_nfiles ≥ (lfNumDirEnt : Int) ↔ st.names.length ≥ lfNumDirEnt := by
    rw [h.agrees.nfiles]
    exact Int.ofNat_le
  have hnew : s.newName name mbits = ((st.names.idxOf? name).isNone && !mbits.o &&
      decide (s.lf_dir.lfd_nfiles < lfNumDirEnt)) := by
    rw [newName, h.findName_eq]
  unfold openNamed Store.openNamed
  rw [h.findName_eq, hnew]
  cases hidx : st.names.idxOf? name with
  | none =>
    dsimp only
    cases mbits.o with
    | true => exact ⟨s, L, rfl, h, rfl, fun hnew => by simp at hnew, fun _ => Still.refl s⟩
    | false =>
      rw [if_neg Bool.false_ne_true, if_neg Bool.false_ne_true]
      by_cases hlt : st.names.length ≥ lfNumDirEnt
      · rw [if_pos (hfull.mpr hlt), if_pos hlt]
        refine ⟨s, L, rfl, h, rfl, fun hnew => ?_, fun _ => Still.refl s⟩
        rw [decide_eq_false (Int.not_lt.mpr (hfull.mpr hlt))] at hnew
        cases hnew
      · rw [if_neg (mt hfull.mp hlt), if_neg hlt]
        obtain ⟨hnum, hentry⟩ := h.newEntry_dir name
        have hnotin : name ∉ st.names := List.idxOf?_eq_none_iff.mp hidx
        refine ⟨_, L, rfl, ?_, rfl, fun _ => ⟨rfl, rfl, rfl⟩, fun hold => ?_⟩
        · rw [hnum]
          refine (h.newEntry_refines hnotin).initDevice_refines hd List.getElem?_concat_length
            fun d' pos' hd' => ?_
          exact absurd (h.lt_length hd') (Nat.lt_irrefl _)
        · rw [decide_eq_true (Int.not_le.mp (mt hfull.mp hlt))] at hold
          cases hold
  | some i =>
    dsimp only
    cases mbits.n with
    | true => exact ⟨s, L, rfl, h, rfl, fun hnew => by simp at hnew, fun _ => Still.refl s⟩
    | false =>
      obtain ⟨hi, hget, -⟩ := List.idxOf?_eq_some_iff.mp hidx
      have hname : st.names[i]? = some name := by rw [List.getElem?_eq_getElem hi, hget]
      rw [if_neg Bool.false_ne_true, if_neg Bool.false_ne_true]
      refine ⟨_, L, rfl, h.initDevice_refines hd hname fun d' pos' hd' => ?_, rfl,
        fun hnew => by simp at hnew, fun _ => still_setFile⟩
      have hany : st.isOpen name = true := by
        refine List.any_eq_true.mpr ⟨d', List.mem_finRange d', ?_⟩
        rw [hd']
        exact decide_eq_true hname
      exact absurd hany (by simp [hopen])

theorem opens_eq (h : Refines ibsectors st s L) (name mode : List Char) : st.opens name mode =
    (s.openDevice name mode).elim (.syserr, st) fun p => st.openNamed name p.1 p.2 := by
  unfold Store.opens openDevice
  split
  · rfl
  · cases lfgetmode mode with
    | none => rfl
    | some mbits =>
      dsimp only [Option.bind_some]
      rw [h.freeDevice_eq]
      split
      · rfl
      · cases st.freeHandle <;> rfl

theorem lfsopen_spec (h : Refines ibsectors st s L) (name mode : List Char) :
    Yields ibsectors s (s.lfsopen name mode) (st.opens name mode)
      (Enters ((s.openDevice name mode).any fun p => s.newName name p.1) s) := by
  rw [lfsopen_eq, h.opens_eq]
  cases hdev : s.openDevice name mode with
  | none => exact ⟨s, L, rfl, h, rfl, fun hnew => (by cases hnew), fun _ => Still.refl s⟩
  | some p =>
    have hload : s.loadDir = .ok (true, s) := by
      unfold loadDir
      rw [h.present]
      rfl
    have hfree : st.isOpen name = false ∧ st.freeHandle = some p.2 := by
      unfold openDevice at hdev
      rw [h.freeDevice_eq] at hdev
      split at hdev
      · cases hdev
      · obtain ⟨mbits, -, hmap⟩ := Option.bind_eq_some_iff.mp hdev
        obtain ⟨d, hd, rfl⟩ := Option.map_eq_some_iff.mp hmap
        cases hopen : st.isOpen name with
        | true =>
          rw [hopen] at hd
          cases hd
        | false =>
          rw [hopen] at hd
          exact ⟨rfl, hd⟩
    dsimp only [Option.elim_some]
    rw [openLoaded, hload, ok_bind]
    exact h.openNamed_spec hfree.1 hfree.2 p.1

end Refines

end NatBox
