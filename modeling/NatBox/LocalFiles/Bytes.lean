import NatBox.LocalFiles.Refines

/-
One byte: `lflputc` and `lflgetc`.

Both first see that the data block of the position is in the buffer.  Behind the last block of a
file `lflputc` asks for a new one, and there is one where the file with its new byte still fits.
-/

namespace NatBox

open Function Chain Lfs

namespace LocalFiles

/-- The block of the position is in the buffer. -/
def ready (s : LocalFiles) (d : Fin nlfl) : Except LfFault LocalFiles :=
  if (s.lfltab d).lfbyte ≥ lfBlksiz then s.lfsetup d else .ok s

/-- The byte is put into the buffer. -/
def putBuffer (lfptr : Lflcblk) (ch : UInt8) : Lflcblk :=
  { lfptr with
    lfdblock := update lfptr.lfdblock lfptr.lfbyte ch
    lfbyte := lfptr.lfbyte + 1
    lfpos := (lfptr.lfpos + 1) % 2 ^ 32
    lfdbdirty := true }

/-- The position is another one. -/
def moved (lfptr : Lflcblk) (pos byte : Nat) : Lflcblk :=
  { lfptr with lfpos := pos, lfbyte := byte }

/-- And the file may become longer. -/
def putByte (s : LocalFiles) (d : Fin nlfl) (ch : UInt8) : LocalFiles :=
  let lfptr := s.lfltab d
  let s :=
    if lfptr.lfpos ≥ (s.ldptr d).ld_size then
      { s.setEntry lfptr.lfdirptr { s.ldptr d with ld_size := ((s.ldptr d).ld_size + 1) % 2 ^ 32 }
        with lf_dirdirty := true }
    else s
  s.setFile d (putBuffer lfptr ch)

variable {ibsectors : Nat} {s s₁ : LocalFiles} {d : Fin nlfl} {L : Layout} {st : Store}
  {i pos b : Nat} {bytes : Nat → List UInt8}

theorem lflputc_eq (hused : (s.lfltab d).used = true)
    (hpos : (s.lfltab d).lfpos ≤ (s.ldptr d).ld_size) (ch : UInt8) :
    s.lflputc d ch = s.ready d >>= fun s => .ok (.ok, s.putByte d ch) := by
  unfold lflputc
  rw [hused, if_neg (by simp), if_neg (Nat.not_lt.mpr hpos)]
  rfl

theorem lflgetc_eq (hused : (s.lfltab d).used = true)
    (hpos : (s.lfltab d).lfpos < (s.ldptr d).ld_size) :
    s.lflgetc d = s.ready d >>= fun s =>
      .ok (.byte ((s.lfltab d).lfdblock (s.lfltab d).lfbyte), s.setFile d { s.lfltab d with
        lfbyte := (s.lfltab d).lfbyte + 1
        lfpos := ((s.lfltab d).lfpos + 1) % 2 ^ 32 }) := by
  unfold lflgetc
  rw [hused, if_neg (by simp), if_neg (Nat.not_le.mpr hpos)]
  rfl

/-- The directory behind `putByte`. -/
def sizedDir (s : LocalFiles) (d : Fin nlfl) : Lfdir :=
  if (s.lfltab d).lfpos ≥ (s.ldptr d).ld_size then
    { s.lf_dir with
      lfd_files := update s.lf_dir.lfd_files (s.lfltab d).lfdirptr
        { s.ldptr d with ld_size := ((s.ldptr d).ld_size + 1) % 2 ^ 32 } }
  else s.lf_dir

theorem putByte_eq (s : LocalFiles) (d : Fin nlfl) (ch : UInt8) : ∃ dirty,
    s.putByte d ch = { s with
      lf_dir := s.sizedDir d
      lf_dirdirty := dirty
      lfltab := update s.lfltab d (putBuffer (s.lfltab d) ch) } ∧
    dirty = if (s.lfltab d).lfpos ≥ (s.ldptr d).ld_size then true else s.lf_dirdirty := by
  refine ⟨_, ?_, rfl⟩
  unfold putByte sizedDir
  dsimp only
  split
  · rfl
  · rfl

theorem lfltab_putByte (s : LocalFiles) (d : Fin nlfl) (ch : UInt8) :
    (s.putByte d ch).lfltab d = putBuffer (s.lfltab d) ch := by
  obtain ⟨dirty, heq, -⟩ := putByte_eq s d ch
  rw [heq]
  exact update_self _ _ _

/-- The byte behind one that is not the last of the buffer. -/
theorem next_byte {byte : Nat} (hbyte : byte = pos % lfBlksiz) (hin : byte + 1 < lfBlksiz) :
    (pos + 1) / lfBlksiz = pos / lfBlksiz ∧ byte + 1 = (pos + 1) % lfBlksiz := by
  unfold lfBlksiz at *
  omega

/-- The directory is as it was but for the size of one file. -/
theorem sizedDir_spec (s : LocalFiles) (d : Fin nlfl) :
    lfscheck (s.sizedDir d) = lfscheck s.lf_dir ∧
    (s.sizedDir d).lfd_ifree = s.lf_dir.lfd_ifree ∧
    (s.sizedDir d).lfd_dfree = s.lf_dir.lfd_dfree ∧
    (s.sizedDir d).lfd_nfiles = s.lf_dir.lfd_nfiles ∧
    (∀ i, ((s.sizedDir d).lfd_files i).ld_ilist = (s.lf_dir.lfd_files i).ld_ilist) ∧
    (∀ i, ((s.sizedDir d).lfd_files i).ld_name = (s.lf_dir.lfd_files i).ld_name) ∧
    (∀ i, i ≠ (s.lfltab d).lfdirptr →
      (s.sizedDir d).lfd_files i = s.lf_dir.lfd_files i) ∧
    ((s.sizedDir d).lfd_files (s.lfltab d).lfdirptr).ld_size =
      if (s.lfltab d).lfpos ≥ (s.ldptr d).ld_size then ((s.ldptr d).ld_size + 1) % 2 ^ 32
      else (s.ldptr d).ld_size := by
  unfold sizedDir
  split
  · refine ⟨rfl, rfl, rfl, rfl, ?_, ?_, fun i hi => update_of_ne hi _ _, ?_⟩
    · exact update_entry Ldentry.ld_ilist _ _ _ rfl
    · exact update_entry Ldentry.ld_name _ _ _ rfl
    · dsimp only
      rw [update_self]
  · exact ⟨rfl, rfl, rfl, rfl, fun _ => rfl, fun _ => rfl, fun _ _ => rfl, rfl⟩

/-- Of what other pseudo-devices see, `putByte` changes no more than `touch` does. -/
theorem putByte_frame (s : LocalFiles) (d : Fin nlfl) (ch : UInt8) :
    Frame (s.touch d) (s.putByte d ch) d := by
  obtain ⟨hcheck, -, -, hnfiles, -, hname, -, -⟩ := sizedDir_spec s d
  obtain ⟨dirty, heq, -⟩ := putByte_eq s d ch
  refine ⟨?_, ?_, ?_, ?_, ?_, fun d' hd' => ?_, ?_, ?_, ?_⟩
  · rw [heq]
    rfl
  · rw [heq]
    rfl
  · rw [heq]
    exact hcheck
  · rw [heq]
    exact hnfiles
  · rw [heq]
    exact hname
  · rw [touch, lfltab_setFile_of_ne hd', heq]
    exact update_of_ne hd' _ _
  · rw [lfltab_putByte, lfltab_touch]
    rfl
  · rw [lfltab_putByte, lfltab_touch]
    rfl
  · rw [lfltab_putByte, lfltab_touch]
    rfl

/-- The copy of a data block may count as changed. -/
theorem Stored.touch (h : s.Stored ibsectors L bytes) (hused : (s.lfltab d).used = true)
    (hnum : (s.lfltab d).lfdnum = some b) : (s.touch d).Stored ibsectors L bytes := by
  have hopened := h.opened d hused
  refine h.setFile hused hused rfl ?_ ?_ (fun _ => ⟨b, hnum⟩) (fun hd => ⟨hd, rfl⟩)
    fun _ => ⟨rfl, rfl⟩
  · exact ⟨hopened.entry, hopened.name, hopened.inum, hopened.dnum⟩
  · exact fun hd => (h.indexKnown d hd).2

end LocalFiles

open LocalFiles

/-- The buffer has the block of the position.  It counts as changed already. -/
structure Ready (ibsectors : Nat) (bytes : Nat → List UInt8) (s s₁ : LocalFiles) (L L₁ : Layout)
    (d : Fin nlfl) (i pos b : Nat) : Prop where
  stored : (s₁.touch d).Stored ibsectors L₁ bytes
  quiet : Quiet s s₁ d
  dnum : (s₁.lfltab d).lfdnum = some b
  byte : (s₁.lfltab d).lfbyte = pos % lfBlksiz
  place : (L₁.data (.file i))[pos / lfBlksiz]? = some b
  dataLen : (L₁.data (.file i)).length = max (pos / lfBlksiz + 1) (L.data (.file i)).length
  indexLen : (L₁.index (.file i)).length = max (pos / lfIdata + 1) (L.index (.file i)).length
  others : ∀ i', i' ≠ i → L₁.index (.file i') = L.index (.file i') ∧
    L₁.data (.file i') = L.data (.file i')
  loose : L₁.index .loose = L.index .loose ∧ L₁.data .loose = L.data .loose

namespace Refines

variable {ibsectors : Nat} {st : Store} {s s₁ : LocalFiles} {L L₁ : Layout} {d : Fin nlfl}
  {i pos b : Nat} {ch : UInt8}

/-- The position is in a block of the file. -/
theorem ready_old (h : Refines ibsectors st s L) (hd : st.opened d = some (i, pos))
    (hin : pos / lfBlksiz < (L.data (.file i)).length) :
    ∃ s₁ b, s.ready d = .ok s₁ ∧ s₁.Stored ibsectors L st.bytes ∧ Quiet s s₁ d ∧ Still s s₁ ∧
      (s₁.lfltab d).lfdnum = some b ∧ (s₁.lfltab d).lfbyte = pos % lfBlksiz ∧
      (L.data (.file i))[pos / lfBlksiz]? = some b := by
  have hopen := h.opened d i pos hd
  have hi := h.lt_length hd
  unfold ready
  split
  · have hdata := h.agrees.dataLen i hi
    have hindex := h.agrees.indexLen i hi
    have hchain : pos / lfIdata < (L.index (.file i)).length := by
      unfold Store.blocks lfBlksiz lfIdata at *
      omega
    have hpos := hopen.pos_eq
    obtain ⟨s₁, hsetup, hs₁, hq₁, hstill, hnum, hbyte⟩ := lfsetup_old h.stored hopen.used
      hopen.entry (by rw [hpos]) hchain (by rw [hpos]; exact List.getElem?_eq_getElem hin)
    exact ⟨s₁, _, hsetup, hs₁, hq₁, hstill, hnum, by rw [hbyte, hpos], List.getElem?_eq_getElem hin⟩
  · next hbyte =>
    obtain ⟨hb, b, hnum, hplace⟩ := hopen.buffer (Nat.not_le.mp hbyte)
    exact ⟨s, b, rfl, h.stored, Quiet.refl s d, Still.refl s, hnum, hb, hplace⟩

/-- What the files need of blocks with one byte more at the end of a file. -/
theorem blocksNeeded_putc (h : Refines ibsectors st s L) (hd : st.opened d = some (i, pos))
    (hend : pos = (st.bytes i).length) (ch : UInt8) (size : Nat) :
    (st.putc d ch).2.blocksNeeded size + Store.blocks size pos =
      st.blocksNeeded size + Store.blocks size (pos + 1) := by
  have hput : (st.put d i (putAt (st.bytes i) pos ch) (pos + 1)).blocksNeeded size + _ = _ :=
    Store.blocksNeeded_put (h.lt_length hd) d (putAt (st.bytes i) pos ch) (pos + 1)
  rw [length_putAt (Nat.le_of_eq hend), ← hend, Nat.max_eq_left (Nat.le_succ pos)] at hput
  rw [Store.putc_eq hd]
  exact hput

/-- The position is the end of the file, and its last block is full. -/
theorem ready_new (h : Refines ibsectors st s L) (hd : st.opened d = some (i, pos))
    (hin : (L.data (.file i)).length ≤ pos / lfBlksiz) (ch : UInt8) :
    (∃ f, s.ready d = .error f ∧ ¬ (st.putc d ch).2.Fits ibsectors s.nsectors) ∨
    ∃ s₁ L₁ b, s.ready d = .ok s₁ ∧ Ready ibsectors st.bytes s s₁ L L₁ d i pos b := by
  have hopen := h.opened d i pos hd
  have hi := h.lt_length hd
  have hpos := hopen.pos_eq
  have hle := hopen.pos_le
  have hdata := h.agrees.dataLen i hi
  have hindex := h.agrees.indexLen i hi
  have hbyte : (s.lfltab d).lfbyte ≥ lfBlksiz := by
    refine Nat.not_lt.mp fun hlt => ?_
    obtain ⟨-, b, -, hplace⟩ := hopen.buffer hlt
    rw [List.getElem?_eq_none hin] at hplace
    cases hplace
  have hend : pos = (st.bytes i).length ∧ pos = lfBlksiz * (L.data (.file i)).length := by
    unfold Store.blocks lfBlksiz lfIdata at *
    omega
  have hchain : pos / lfIdata ≤ (L.index (.file i)).length ∧
      (pos / lfIdata = (L.index (.file i)).length →
        (L.data (.file i)).length = lfIblen * (pos / lfIdata)) := by
    unfold Store.blocks lfBlksiz lfIdata lfIblen at *
    omega
  have hneeded := h.blocksNeeded_putc hd hend.1 ch
  rw [ready, if_pos hbyte]
  rcases lfsetup_new h.stored hopen.used hopen.entry (by rw [hpos]) hchain.1 hchain.2
    (show (s.lfltab d).lfpos / lfBlksiz = (L.data (.file i)).length by
      rw [hpos, hend.2, Nat.mul_div_cancel_left _ (by decide)])
    (by rw [← hend.1, ← hend.2]) with (⟨hfree, hlast, hpanic⟩ | ⟨hfree, hpanic⟩) |
    ⟨s₁, L₁, b, hsetup, hs₁, hq₁, hnum, hb, hext⟩
  · refine .inl ⟨_, hpanic, fun hfits => ?_⟩
    have hcount := h.free_index
    have hmore := hneeded lfIdata
    have hfew := hfits.1
    rw [hfree, List.length_nil] at hcount
    unfold Store.blocks lfIdata at *
    omega
  · refine .inl ⟨_, hpanic, fun hfits => ?_⟩
    have hcount := h.free_data
    have hmore := hneeded lfBlksiz
    have hfew := hfits.2
    rw [hfree, List.length_nil] at hcount
    unfold Store.blocks lfBlksiz at *
    omega
  · have hplace : pos / lfBlksiz = (L.data (.file i)).length := by
      rw [hend.2, Nat.mul_div_cancel_left _ (by decide)]
    refine .inr ⟨s₁, L₁, b, hsetup, hs₁, hq₁, hnum, by rw [hb, hpos], ?_, ?_, hext.index,
      hext.others, hext.loose⟩
    · rw [hext.data, hplace]
      exact List.getElem?_concat_length
    · rw [hext.data, List.length_append, List.length_singleton, hplace]
      omega

/-- Where the position has a block no list changes. -/
theorem ready_put (h : Refines ibsectors st s L) (hd : st.opened d = some (i, pos)) (ch : UInt8) :
    (∃ f, s.ready d = .error f ∧ ¬ (st.putc d ch).2.Fits ibsectors s.nsectors) ∨
    ∃ s₁ L₁ b, s.ready d = .ok s₁ ∧ Ready ibsectors st.bytes s s₁ L L₁ d i pos b ∧
      (pos < (st.bytes i).length → Still s s₁) := by
  have hopen := h.opened d i pos hd
  have hi := h.lt_length hd
  have hdata := h.agrees.dataLen i hi
  have hindex := h.agrees.indexLen i hi
  rcases Nat.lt_or_ge (pos / lfBlksiz) (L.data (.file i)).length with hlt | hge
  · obtain ⟨s₁, b, hready, hs₁, hq₁, hstill, hnum, hb, hplace⟩ := h.ready_old hd hlt
    refine .inr ⟨s₁, L, b, hready, ⟨hs₁.touch (hq₁.used.trans hopen.used) hnum, hq₁, hnum, hb,
      hplace, (Nat.max_eq_right hlt).symm, ?_, fun _ _ => ⟨rfl, rfl⟩, rfl, rfl⟩, fun _ => hstill⟩
    have hchain : pos / lfIdata < (L.index (.file i)).length := by
      unfold Store.blocks lfBlksiz lfIdata at *
      omega
    exact (Nat.max_eq_right hchain).symm
  · rcases h.ready_new hd hge ch with hpanic | ⟨s₁, L₁, b, hready, hresult⟩
    · exact .inl hpanic
    · refine .inr ⟨s₁, L₁, b, hready, hresult, fun hlt => ?_⟩
      unfold Store.blocks lfBlksiz at *
      omega

/-- Positions do not overflow. -/
theorem ready_small (hr : Ready ibsectors st.bytes s s₁ L L₁ d i pos b) : pos + 1 < 2 ^ 32 := by
  have hlt := hr.stored.volume.length_data_lt (.file i)
  have hsmall := hr.stored.volume.area.small
  have hlen := hr.dataLen
  change (L₁.data (.file i)).length < s₁.nsectors at hlt
  change lfBlksiz * s₁.nsectors ≤ 2 ^ 32 at hsmall
  unfold lfBlksiz at *
  omega

section Put

variable (h : Refines ibsectors st s L) (hd : st.opened d = some (i, pos))
  (hr : Ready ibsectors st.bytes s s₁ L L₁ d i pos b)
include h hd hr

/-- What is known of the pseudo-device before the byte is put. -/
theorem ready_file : (s₁.lfltab d).used = true ∧ (s₁.lfltab d).lfdirptr = i ∧
    (s₁.lfltab d).lfpos = pos ∧ (s₁.ldptr d).ld_size = (st.bytes i).length := by
  have hopen := h.opened d i pos hd
  have hentry := hr.quiet.entry.trans hopen.entry
  refine ⟨hr.quiet.used.trans hopen.used, hentry, hr.quiet.pos.trans hopen.pos_eq, ?_⟩
  rw [ldptr, hentry, hr.quiet.sizes]
  exact h.agrees.size i (h.lt_length hd)

theorem ready_size : ((s₁.sizedDir d).lfd_files i).ld_size =
    (putAt (st.bytes i) pos ch).length := by
  obtain ⟨-, hentry, hpos, hsize⟩ := h.ready_file hd hr
  have hsmall := ready_small hr
  have hle := (h.opened d i pos hd).pos_le
  obtain ⟨-, -, -, -, -, -, -, hsized⟩ := sizedDir_spec s₁ d
  rw [hentry, hpos, hsize] at hsized
  rw [hsized, length_putAt hle]
  split
  · rw [Nat.mod_eq_of_lt (by omega)]
    omega
  · omega

theorem ready_holds : Holds (st.bytes i) (pos / lfBlksiz) (s₁.lfltab d).lfdblock := by
  have hentry := (h.ready_file hd hr).2.1
  have htouch := lfltab_touch s₁ d
  have hholds := hr.stored.holds (d := d) (b := b) (m := pos / lfBlksiz)
    (by rw [htouch]; exact (h.ready_file hd hr).1) (by rw [htouch]; exact hr.dnum)
    (by rw [fileOf, htouch, hentry]; exact hr.place)
  rw [htouch, hentry] at hholds
  exact hholds

theorem putByte_stored (ch : UInt8) : (s₁.putByte d ch).Stored ibsectors L₁
    (update st.bytes i (putAt (st.bytes i) pos ch)) := by
  obtain ⟨hused, hentry, hpos, hsize⟩ := h.ready_file hd hr
  obtain ⟨hcheck, hifree, hdfree, hnfiles, hilist, hname, -, -⟩ := sizedDir_spec s₁ d
  obtain ⟨dirty, heq, -⟩ := putByte_eq s₁ d ch
  have hle := (h.opened d i pos hd).pos_le
  have htouch := lfltab_touch s₁ d
  have hself := lfltab_putByte s₁ d ch
  have hframe := putByte_frame s₁ d ch
  have hopened := hr.stored.opened d (by rw [htouch]; exact hused)
  have hplace : (L₁.data (.file i))[pos / lfBlksiz]? = some b := hr.place
  refine hr.stored.next (by rw [htouch]; exact hused) hframe ?_ (fun i' hi' => ?_) ?_
    (fun hdirty => ?_) fun _ => ?_
  · have hdirtyData : (s₁.touch d).DirtyData b := ⟨d, by rw [htouch], by rw [htouch]; exact hr.dnum⟩
    have hag : ∀ n, n / lfBlksiz ≠ pos / lfBlksiz →
        (putAt (st.bytes i) pos ch)[n]? = (st.bytes i)[n]? := fun n hn =>
      getElem?_putAt_of_ne hle fun hnp => hn (by rw [hnp])
    have hvolume := (hr.stored.volume.setBytes hplace hdirtyData hag).mono
      (fun ib hdi => hframe.dirtyIndex hdi fun hdirty hnum => ?_)
      fun b' hdb => hframe.dirtyData hdb fun _ hnum => ?_
    · rw [heq] at hvolume ⊢
      exact hvolume.setDir ⟨hifree, hdfree, hnfiles⟩ hilist
    · rw [htouch] at hdirty hnum
      rw [hself]
      exact ⟨hdirty, hnum⟩
    · rw [htouch] at hnum
      rw [hself]
      exact ⟨rfl, hnum⟩
  · rw [htouch] at hi'
    exact ⟨rfl, rfl, update_of_ne (fun hii => hi' (hii.trans hentry.symm)) _ _⟩
  · rw [hself]
    rw [htouch] at hopened
    refine ⟨?_, ?_, hopened.inum, fun b' hb' => ?_⟩
    · rw [heq]
      exact hnfiles ▸ hopened.entry
    · rw [heq]
      exact (hname _).trans hopened.name
    · obtain rfl := Option.some.inj (hr.dnum.symm.trans hb')
      have hfile : (putBuffer (s₁.lfltab d) ch).lfdirptr = i := hentry
      rw [hfile, update_self]
      refine ⟨pos / lfBlksiz, hplace, ?_⟩
      have hat : lfBlksiz * (pos / lfBlksiz) + (s₁.lfltab d).lfbyte = pos := by
        rw [hr.byte]
        exact Nat.div_add_mod pos lfBlksiz
      refine (h.ready_holds hd hr).put (by rw [hat]; exact getElem?_putAt_self hle) fun n hn => ?_
      exact getElem?_putAt_of_ne hle (by rwa [hat] at hn)
  · rw [hself] at hdirty ⊢
    have hknown := (hr.stored.indexKnown d (by rw [htouch]; exact hdirty)).2
    rw [htouch] at hknown
    exact hknown
  · rw [hself]
    exact ⟨b, hr.dnum⟩

/-- The size of the file is that of its bytes again. -/
theorem putByte_agrees (ch : UInt8) : Agrees (s₁.sizedDir d) L₁ st.names
    (update st.bytes i (putAt (st.bytes i) pos ch)) := by
  have hag := h.agrees
  have hentry := (h.ready_file hd hr).2.1
  obtain ⟨hcheck, -, -, hnfiles, -, hname, hother, -⟩ := sizedDir_spec s₁ d
  rw [hentry] at hother
  have hle := (h.opened d i pos hd).pos_le
  have hlen : (putAt (st.bytes i) pos ch).length = max (pos + 1) (st.bytes i).length :=
    length_putAt hle
  have hdata := hag.dataLen i (h.lt_length hd)
  have hindex := hag.indexLen i (h.lt_length hd)
  refine
    { check := (hcheck.trans hr.quiet.check).trans hag.check
      nfiles := (hnfiles.trans hr.quiet.nfiles).trans hag.nfiles
      name := fun i' hi' => by rw [hname, hr.quiet.names]; exact hag.name i' hi'
      nodup := hag.nodup
      size := fun i' hi' => ?_
      dataLen := fun i' hi' => ?_
      indexLen := fun i' hi' => ?_
      beyond := fun i' hi' => ?_
      loose := ⟨hr.loose.1.trans hag.loose.1, hr.loose.2.trans hag.loose.2⟩ }
  · by_cases hii : i' = i
    · rw [hii, update_self]
      exact h.ready_size hd hr
    · rw [hother i' hii, update_of_ne hii, hr.quiet.sizes]
      exact hag.size i' hi'
  · by_cases hii : i' = i
    · rw [hii, update_self, hr.dataLen, hdata, hlen]
      unfold Store.blocks lfBlksiz
      omega
    · rw [(hr.others i' hii).2, update_of_ne hii]
      exact hag.dataLen i' hi'
  · by_cases hii : i' = i
    · rw [hii, update_self, hr.indexLen, hindex, hlen]
      unfold Store.blocks lfIdata
      omega
    · rw [(hr.others i' hii).1, update_of_ne hii]
      exact hag.indexLen i' hi'
  · have hii : i' ≠ i := fun heq => Nat.not_le.mpr (h.lt_length hd) (heq ▸ hi')
    obtain ⟨hix, hdx⟩ := hr.others i' hii
    exact ⟨hix.trans (hag.beyond i' hi').1, hdx.trans (hag.beyond i' hi').2⟩

theorem putByte_refines (ch : UInt8) :
    Refines ibsectors (st.putc d ch).2 (s₁.putByte d ch) L₁ := by
  obtain ⟨hused, hentry, hpos, -⟩ := h.ready_file hd hr
  obtain ⟨dirty, heq, -⟩ := putByte_eq s₁ d ch
  have hlen : (putAt (st.bytes i) pos ch).length = max (pos + 1) (st.bytes i).length :=
    length_putAt (h.opened d i pos hd).pos_le
  rw [Store.putc_eq hd]
  refine h.next rfl ?_ (h.putByte_stored hd hr ch) ?_ (fun d' hne => ?_)
    (fun d' i' pos' hne hd' => ?_) (fun hnone => by cases hnone) fun i' pos' hsome => ?_
  · rw [heq]
    exact hr.quiet.dirpresent
  · rw [heq]
    exact h.putByte_agrees hd hr ch
  · rw [heq]
    exact (update_of_ne hne _ _).trans (hr.quiet.others d' hne)
  · have hii := h.file_ne hd hd' hne
    exact ⟨update_of_ne hii _ _, (hr.others i' hii).2⟩
  · obtain ⟨rfl, rfl⟩ := Prod.mk.inj (Option.some.inj hsome)
    rw [lfltab_putByte]
    refine ⟨hused, hentry, ?_, ?_, fun hin => ?_⟩
    · show ((s₁.lfltab d).lfpos + 1) % 2 ^ 32 = pos + 1
      rw [hpos, Nat.mod_eq_of_lt (ready_small hr)]
    · show pos + 1 ≤ (update st.bytes i (putAt (st.bytes i) pos ch) i).length
      rw [update_self, hlen]
      exact Nat.le_max_left _ _
    · change (s₁.lfltab d).lfbyte + 1 < lfBlksiz at hin
      obtain ⟨hblock, hoffset⟩ := next_byte hr.byte hin
      refine ⟨hoffset, b, hr.dnum, ?_⟩
      rw [hblock]
      exact hr.place

end Put

theorem lflputc_spec (h : Refines ibsectors st s L) (hd : st.opened d = some (i, pos))
    (ch : UInt8) :
    Simulates ibsectors s (s.lflputc d ch) (st.putc d ch)
      (Marks (pos = (st.bytes i).length) s) := by
  have hopen := h.opened d i pos hd
  rw [lflputc_eq hopen.used (by rw [hopen.pos_eq, h.ldptr_size hd]; exact hopen.pos_le)]
  have hok : (st.putc d ch).1 = .ok := by rw [Store.putc_eq hd]
  rcases h.ready_put hd ch with ⟨f, hpanic, hfits⟩ | ⟨s₁, L₁, b, hready, hr, hstill⟩
  · exact .inl ⟨f, by rw [hpanic]; rfl, hfits⟩
  · obtain ⟨hused, hentry, hpos, hsize⟩ := h.ready_file hd hr
    obtain ⟨dirty, heq, hdirty⟩ := putByte_eq s₁ d ch
    rw [hpos, hsize] at hdirty
    refine .inr ⟨s₁.putByte d ch, L₁, by rw [hready, ok_bind, hok], h.putByte_refines hd hr ch, ?_,
      fun hend => ?_, fun hin => ?_⟩
    · rw [heq]
      exact hr.quiet.nsectors
    · rw [heq]
      exact hdirty.trans (if_pos (Nat.le_of_eq hend.symm))
    · have hlt := Nat.lt_of_le_of_ne hopen.pos_le hin
      rw [if_neg (Nat.not_le.mpr hlt)] at hdirty
      have hdir : s₁.sizedDir d = s₁.lf_dir := by
        rw [sizedDir, hpos, hsize]
        exact if_neg (Nat.not_le.mpr hlt)
      refine (hstill hlt).trans ?_
      rw [heq, hdir, hdirty]
      exact ⟨rfl, .inl ⟨rfl, rfl⟩⟩

/-- Only the position of an open file changes, and where it is in the buffer. -/
theorem move_refines (h : Refines ibsectors st s L) (hs₁ : s₁.Stored ibsectors L st.bytes)
    (hq₁ : Quiet s s₁ d) {pos' byte : Nat}
    (hopen : OpenAt L st.bytes (moved (s₁.lfltab d) pos' byte) i pos') :
    Refines ibsectors (st.moveTo d i pos') (s₁.setFile d (moved (s₁.lfltab d) pos' byte)) L := by
  have hused : (s₁.lfltab d).used = true := hopen.used
  have hopened := hs₁.opened d hused
  refine h.next rfl hq₁.dirpresent ?_ ?_ (fun d' hne => ?_) (fun _ _ _ _ _ => ⟨rfl, rfl⟩)
    (fun hnone => by cases hnone) fun i' p hsome => ?_
  · exact hs₁.setFile hused hused rfl
      ⟨hopened.entry, hopened.name, hopened.inum, hopened.dnum⟩ (fun hd => (hs₁.indexKnown d hd).2)
      (fun hd => (hs₁.dataKnown d hd).2) (fun hd => ⟨hd, rfl⟩) fun hd => ⟨hd, rfl⟩
  · exact h.agrees.congr hq₁.check hq₁.nfiles hq₁.names hq₁.sizes
  · exact (lfltab_setFile_of_ne hne).trans (hq₁.others d' hne)
  · obtain ⟨rfl, rfl⟩ := Prod.mk.inj (Option.some.inj hsome)
    rw [lfltab_setFile_self]
    exact hopen

theorem length_small (h : Refines ibsectors st s L) (hi : i < st.names.length) :
    (st.bytes i).length < 2 ^ 32 := by
  have hlt := h.stored.volume.length_data_lt (.file i)
  have hsmall := h.stored.volume.area.small
  have hdata := h.agrees.dataLen i hi
  unfold Store.blocks lfBlksiz at *
  omega

theorem lflgetc_spec (h : Refines ibsectors st s L) (hd : st.opened d = some (i, pos)) :
    Yields ibsectors s (s.lflgetc d) (st.getc d) (Still s) := by
  have hopen := h.opened d i pos hd
  have hsize := h.ldptr_size hd
  have hdata := h.agrees.dataLen i (h.lt_length hd)
  have hsmall := h.length_small (h.lt_length hd)
  rw [Store.getc_eq hd]
  rcases Nat.lt_or_ge pos (st.bytes i).length with hlt | hge
  · have hin : pos / lfBlksiz < (L.data (.file i)).length := by
      unfold Store.blocks lfBlksiz at *
      omega
    obtain ⟨s₁, b, hready, hs₁, hq₁, hstill, hnum, hbyte, hplace⟩ := h.ready_old hd hin
    have hused := hq₁.used.trans hopen.used
    have hentry := hq₁.entry.trans hopen.entry
    have hholds := hs₁.holds hused hnum (by rw [fileOf, hentry]; exact hplace)
    rw [hentry] at hholds
    have hread : (s₁.lfltab d).lfdblock (s₁.lfltab d).lfbyte = (st.bytes i)[pos] := by
      rw [hbyte]
      refine hholds _ (Nat.mod_lt _ (by decide)) _ ?_
      rw [Nat.div_add_mod]
      exact List.getElem?_eq_getElem hlt
    have hpos : (s₁.lfltab d).lfpos = pos := hq₁.pos.trans hopen.pos_eq
    rw [lflgetc_eq hopen.used (by rw [hopen.pos_eq, hsize]; exact hlt),
      List.getElem?_eq_getElem hlt, hready, ok_bind, hread, hpos,
      Nat.mod_eq_of_lt (by omega : pos + 1 < 2 ^ 32)]
    refine ⟨_, L, rfl, h.move_refines hs₁ hq₁ ⟨hused, hentry, rfl, hlt, fun hin => ?_⟩,
      hq₁.nsectors, hstill.trans still_setFile⟩
    change (s₁.lfltab d).lfbyte + 1 < lfBlksiz at hin
    obtain ⟨hblock, hoffset⟩ := next_byte hbyte hin
    refine ⟨hoffset, b, hnum, ?_⟩
    rw [hblock]
    exact hplace
  · rw [List.getElem?_eq_none hge]
    refine ⟨s, L, ?_, h, rfl, Still.refl s⟩
    unfold lflgetc
    rw [hopen.used, if_neg (by simp), hopen.pos_eq, hsize, if_pos hge]
    rfl

theorem lflseek_spec (h : Refines ibsectors st s L) (hd : st.opened d = some (i, pos))
    (offset : Nat) :
    Yields ibsectors s (.ok (s.lflseek d offset)) (st.seek d offset) (Still s) := by
  have hopen := h.opened d i pos hd
  rw [Store.seek, Store.call_of_opened hd, lflseek, hopen.used, if_neg (by simp), h.ldptr_size hd]
  split
  · exact ⟨s, L, rfl, h, rfl, Still.refl s⟩
  · next hle =>
    refine ⟨_, L, rfl, h.move_refines h.stored (Quiet.refl s d) ?_, rfl, still_setFile⟩
    exact ⟨hopen.used, hopen.entry, rfl, Nat.not_lt.mp hle, fun hin => absurd hin (Nat.lt_irrefl _)⟩

end Refines

end NatBox
