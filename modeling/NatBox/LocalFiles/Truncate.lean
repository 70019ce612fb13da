import NatBox.LocalFiles.Bytes

/-
`lftruncate`: the blocks of a file go to the free lists.

The file is taken out of the directory first, and its blocks are loose.  The loop frees the data
blocks of one index block after another; the index blocks stay linked, and the last one gets the
link to the free ones, so that in the end the whole list is put in front of the free list.
-/

namespace NatBox

open Function Chain Lfs

namespace LocalFiles

/-- Freeing blocks changes the disk, and in the directory the head of a free list. -/
structure Freeing (s s' : LocalFiles) : Prop where
  nsectors : s'.nsectors = s.nsectors
  dirpresent : s'.lf_dirpresent = s.lf_dirpresent
  dirdirty : s'.lf_dirdirty = s.lf_dirdirty
  lfltab : s'.lfltab = s.lfltab
  dir : ∃ dfree, s'.lf_dir = { s.lf_dir with lfd_dfree := dfree }

theorem Freeing.refl (s : LocalFiles) : Freeing s s := ⟨rfl, rfl, rfl, rfl, _, rfl⟩

theorem Freeing.trans {s s' s'' : LocalFiles} (h : Freeing s s') (h' : Freeing s' s'') :
    Freeing s s'' := by
  obtain ⟨dfree, hdir⟩ := h.dir
  obtain ⟨dfree', hdir'⟩ := h'.dir
  refine ⟨h'.nsectors.trans h.nsectors, h'.dirpresent.trans h.dirpresent,
    h'.dirdirty.trans h.dirdirty, h'.lfltab.trans h.lfltab, dfree', ?_⟩
  rw [hdir', hdir]

end LocalFiles

namespace Lfs

/-- Loose data blocks have gone to the free list. -/
structure Freed (L L' : Layout) (rest : List Nat) : Prop where
  index : L'.index = L.index
  files : ∀ i, L'.data (.file i) = L.data (.file i)
  loose : L'.data .loose = rest

theorem Freed.trans {L L' L'' : Layout} {rest rest' : List Nat} (h : Freed L L' rest)
    (h' : Freed L' L'' rest') : Freed L L'' rest' :=
  ⟨h'.index.trans h.index, fun i => (h'.files i).trans (h.files i), h'.loose⟩

end Lfs

namespace LocalFiles

variable {ibsectors : Nat} {s : LocalFiles} {L : Layout} {bytes : Nat → List UInt8}
  {dirtyIndex dirtyData : Nat → Prop} {b ib i j rounds fuel : Nat} {blocks : List Nat}
  {iblock : Lfiblk}

/-- Index blocks and free lists as they are on the disk. -/
abbrev Backed (ibsectors : Nat) (s : LocalFiles) (L : Layout) (bytes : Nat → List UInt8)
    (dirtyIndex dirtyData : Nat → Prop) : Prop :=
  Volume ibsectors s.nsectors s.disk s.lf_dir L bytes dirtyIndex dirtyData

theorem lfdbfree_spec (h : s.Backed ibsectors L bytes dirtyIndex dirtyData) {rest : List Nat}
    (hloose : L.data .loose = b :: rest) :
    ∃ s' L', s.lfdbfree b = .ok s' ∧ s'.Backed ibsectors L' bytes dirtyIndex dirtyData ∧
      Freeing s s' ∧ Freed L L' rest ∧
      ∀ ib < 7 * ibsectors, diskIndex s'.disk ib = diskIndex s.disk ib := by
  obtain ⟨hgt, hlt⟩ := h.data_lt (hloose ▸ List.mem_cons_self)
  let dir := { s.lf_dir with lfd_dfree := some b }
  let s' : LocalFiles := { s with
    lf_dir := dir
    disk := update (update s.disk b (.free s.lf_dir.lfd_dfree)) lfAreaDir (.dir dir) }
  refine ⟨s', L.moveData .loose .free rest (b :: L.data .free), ?_, (h.giveData hloose).putDir _,
    ⟨rfl, rfl, rfl, rfl, _, rfl⟩,
    ⟨rfl, fun i => Layout.data_moveData_of_ne (by simp) (by simp),
      Layout.data_moveData_left (by simp)⟩, fun ib hib => ?_⟩
  · show ((s.setDir dir).write b (.free s.lf_dir.lfd_dfree) >>= fun s => s.writeDir) = _
    rw [write_ok (s := s.setDir dir) hlt, ok_bind]
    exact if_pos (Nat.zero_lt_of_lt hlt)
  · exact (diskIndex_putDir _ _ ib).trans (Volume.diskIndex_update _ hgt hib)

/-- The data blocks of one table. -/
theorem freeBlocks_spec (hdba : ∀ k < lfIblen, iblock.ib_dba k = blocks[lfIblen * j + k]?)
    (hi : i + rounds = lfIblen) (h : s.Backed ibsectors L bytes dirtyIndex dirtyData)
    (hloose : L.data .loose = blocks.drop (lfIblen * j + i)) :
    ∃ s' L', freeBlocks iblock rounds i s = .ok s' ∧
      s'.Backed ibsectors L' bytes dirtyIndex dirtyData ∧ Freeing s s' ∧
      Freed L L' (blocks.drop (lfIblen * (j + 1))) ∧
      ∀ ib < 7 * ibsectors, diskIndex s'.disk ib = diskIndex s.disk ib := by
  induction rounds generalizing i s L with
  | zero =>
    have hend : lfIblen * j + i = lfIblen * (j + 1) := by
      unfold lfIblen at *
      omega
    exact ⟨s, L, rfl, h, Freeing.refl s, ⟨rfl, fun _ => rfl, hend ▸ hloose⟩, fun _ _ => rfl⟩
  | succ rounds ih =>
    have hk := hdba i (by omega)
    cases hb : blocks[lfIblen * j + i]? with
    | none =>
      have hnext : L.data .loose = blocks.drop (lfIblen * j + (i + 1)) := by
        have hlen := List.getElem?_eq_none_iff.mp hb
        have hlen' : blocks.length ≤ lfIblen * j + (i + 1) := by omega
        rw [hloose, List.drop_eq_nil_of_le hlen, List.drop_eq_nil_of_le hlen']
      obtain ⟨s', L', hloop, hrest⟩ := ih (by omega) h hnext
      refine ⟨s', L', ?_, hrest⟩
      rw [freeBlocks, hk, hb]
      exact hloop
    | some b =>
      obtain ⟨hlt, hget⟩ := List.getElem?_eq_some_iff.mp hb
      rw [List.drop_eq_getElem_cons hlt, hget] at hloose
      obtain ⟨s₁, L₁, hfree, hs₁, hf₁, hl₁, hd₁⟩ := lfdbfree_spec h hloose
      obtain ⟨s', L', hloop, hs', hf', hl', hd'⟩ := ih (i := i + 1) (by omega) hs₁ hl₁.loose
      refine ⟨s', L', ?_, hs', hf₁.trans hf', hl₁.trans hl', fun ib hib => ?_⟩
      · rw [freeBlocks, hk, hb]
        show (s.lfdbfree b >>= fun s => freeBlocks iblock rounds (i + 1) s) = _
        rw [hfree]
        exact hloop
      · rw [hd' ib hib, hd₁ ib hib]

/-- The walk along the index blocks.  Those behind place `j` are as they were, those in front of it
are empty and have the links of the list to come. -/
theorem truncateLoop_spec {chain : List Nat} {ifree : Option Nat} (hj : j ≤ chain.length)
    (hfuel : chain.length - j < fuel) (h : s.Backed ibsectors L bytes dirtyIndex dirtyData)
    (hchain : L.index .loose = chain) (hifree : ifree = (L.index .free).head?)
    (hloose : L.data .loose = blocks.drop (lfIblen * j))
    (hlen : blocks.length ≤ lfIblen * chain.length)
    (htables : ∀ j' ib, j ≤ j' → chain[j']? = some ib →
      IndexOf chain blocks j' (diskIndex s.disk ib))
    (hlinks : ∀ j' ib, j' < j → chain[j']? = some ib →
      (diskIndex s.disk ib).ib_next = (chain ++ L.index .free)[j' + 1]?) :
    ∃ s' L', truncateLoop ifree fuel (chain ++ L.index .free)[j]? s = .ok s' ∧
      s'.Backed ibsectors L' bytes dirtyIndex dirtyData ∧ Freeing s s' ∧ Freed L L' [] ∧
      ∀ j' ib, chain[j']? = some ib →
        (diskIndex s'.disk ib).ib_next = (chain ++ L.index .free)[j' + 1]? := by
  induction fuel generalizing j s L with
  | zero => cases hfuel
  | succ fuel ih =>
    rw [truncateLoop]
    rcases Nat.lt_or_eq_of_le hj with hlt | heq
    · have hplace : chain[j]? = some chain[j] := List.getElem?_eq_getElem hlt
      have hmem : chain[j] ∈ L.index .loose := hchain ▸ List.getElem_mem hlt
      have hib := h.index_lt hmem
      have hother : some chain[j] ≠ ifree := by
        intro heq
        have hfree : chain[j] ∈ L.index .free := List.mem_of_head? (hifree ▸ heq).symm
        cases h.indexParts.disjoint hfree hmem
      have hblk := htables j _ (Nat.le_refl j) hplace
      rw [List.getElem?_append_left hlt, hplace, if_pos hother]
      obtain ⟨s₁, L₁, hfree, hs₁, hf₁, hl₁, hd₁⟩ :=
        freeBlocks_spec hblk.dba (Nat.zero_add _) h hloose
      let iblock : Lfiblk := ⟨(chain ++ L.index .free)[j + 1]?, 0, fun _ => none⟩
      let s₂ : LocalFiles := { s₁ with disk := Lfs.putIndex s₁.disk chain[j] iblock }
      have hnext : (if (diskIndex s.disk chain[j]).ib_next = none then ifree
          else (diskIndex s.disk chain[j]).ib_next) = (chain ++ L.index .free)[j + 1]? := by
        rw [hblk.next]
        rcases Nat.lt_or_eq_of_le (Nat.succ_le_of_lt hlt) with hlt' | hlast
        · rw [List.getElem?_append_left hlt', List.getElem?_eq_getElem hlt',
            if_neg (Option.some_ne_none _)]
        · rw [List.getElem?_eq_none (Nat.le_of_eq hlast.symm), if_pos rfl, hifree,
            List.getElem?_append_right (Nat.le_of_eq hlast.symm), hlast, Nat.sub_self,
            List.head?_eq_getElem?]
      have hdisk : ∀ j' ib, j' ≠ j → chain[j']? = some ib →
          diskIndex s₂.disk ib = diskIndex s.disk ib := by
        intro j' ib hne hj'
        have hib' : ib ∈ L.index .loose := hchain ▸ List.mem_of_getElem? hj'
        have hne' : ib ≠ chain[j] := by
          intro heq
          have hj₁ : (L.index .loose)[j']? = some chain[j] := by rw [hchain, hj', heq]
          have hj₂ : (L.index .loose)[j]? = some chain[j] := by rw [hchain, hplace]
          exact hne (h.indexParts.place hj₁ hj₂).2
        exact (diskIndex_putIndex_of_ne _ _ hne').trans (hd₁ ib (h.index_lt hib'))
      have hs₂ : s₂.Backed ibsectors L₁ bytes dirtyIndex dirtyData :=
        hs₁.putLoose (hl₁.index ▸ hmem) iblock
      have hf₂ : Freeing s₁ s₂ := ⟨rfl, rfl, rfl, rfl, _, rfl⟩
      obtain ⟨s', L', hloop, hs', hf', hl', hlinks'⟩ := ih (j := j + 1) (Nat.succ_le_of_lt hlt)
        (by omega) hs₂ (hl₁.index ▸ hchain) (hl₁.index ▸ hifree) hl₁.loose
        (fun j' ib hle hj' => by
          rw [hdisk j' ib (by omega) hj']
          exact htables j' ib (by omega) hj')
        fun j' ib hlt' hj' => by
          rw [hl₁.index]
          by_cases hjj : j' = j
          · subst hjj
            obtain rfl := Option.some.inj (hplace.symm.trans hj')
            rw [show s₂.disk = Lfs.putIndex s₁.disk chain[j'] iblock from rfl,
              diskIndex_putIndex_self]
          · rw [hdisk j' ib hjj hj']
            exact hlinks j' ib (by omega) hj'
      rw [hl₁.index] at hloop hlinks'
      refine ⟨s', L', ?_, hs', (hf₁.trans hf₂).trans hf', hl₁.trans hl', hlinks'⟩
      show (s.lfibget chain[j] >>= fun iblock => freeBlocks iblock lfIblen 0 s >>= fun s =>
        s.lfibput chain[j] ⟨if iblock.ib_next = none then ifree else iblock.ib_next, 0,
          fun _ => none⟩ >>= fun s => truncateLoop ifree fuel
            (if iblock.ib_next = none then ifree else iblock.ib_next) s) = _
      rw [lfibget_ok h.area hib, ok_bind, hfree, ok_bind, hnext, lfibput_ok hs₁.area hib, ok_bind]
      exact hloop
    · have hnull : (chain ++ L.index .free)[j]? = ifree := by
        rw [heq, List.getElem?_append_right (Nat.le_refl _), Nat.sub_self, hifree,
          List.head?_eq_getElem?]
      rw [hnull, if_neg (fun hne => hne rfl)]
      refine ⟨s, L, rfl, h, Freeing.refl s, ⟨rfl, fun _ => rfl, ?_⟩, fun j' ib hj' =>
        hlinks j' ib ?_ hj'⟩
      · rw [hloose, heq, List.drop_eq_nil_of_le hlen]
      · rw [heq]
        exact (List.getElem?_eq_some_iff.mp hj').1

/-- The file has no bytes and no blocks, in the directory and on its pseudo-device. -/
def detached (s : LocalFiles) (d : Fin nlfl) : LocalFiles :=
  let s := s.setFile d (truncated (s.lfltab d))
  { s.setEntry (s.lfltab d).lfdirptr { s.ldptr d with ld_ilist := none, ld_size := 0 }
    with lf_dirdirty := true }

/-- The index blocks that were those of the file are in front of the free ones. -/
def respliced (s : LocalFiles) (firstib : Option Nat) : LocalFiles :=
  { s.setDir { s.lf_dir with lfd_ifree := firstib } with lf_dirdirty := true }

variable {d : Fin nlfl}

theorem lftruncate_eq (hsize : (s.ldptr d).ld_size ≠ 0) : s.lftruncate d =
    (if (s.lfltab d).lfibdirty || (s.lfltab d).lfdbdirty then s.lfflush d else .ok s) >>= fun s =>
      truncateLoop s.lf_dir.lfd_ifree (7 * s.nsectors + 1) (s.ldptr d).ld_ilist (s.detached d) >>=
        fun s' => .ok (.ok, s'.respliced (s.ldptr d).ld_ilist) := by
  rw [lftruncate, if_neg hsize]
  rfl

/-- The entry of the file is another one. -/
theorem detached_spec (s : LocalFiles) (d : Fin nlfl) :
    (s.detached d).nsectors = s.nsectors ∧ (s.detached d).disk = s.disk ∧
    (s.detached d).lf_dirpresent = s.lf_dirpresent ∧
    (s.detached d).lfltab = update s.lfltab d (truncated (s.lfltab d)) ∧
    (s.detached d).lf_dir = { s.lf_dir with
      lfd_files := update s.lf_dir.lfd_files (s.lfltab d).lfdirptr
        { s.ldptr d with ld_ilist := none, ld_size := 0 } } := by
  refine ⟨rfl, rfl, rfl, rfl, ?_⟩
  unfold detached
  dsimp only
  rw [lfltab_setFile_self]
  unfold ldptr
  rw [lfltab_setFile_self]
  rfl

end LocalFiles

open LocalFiles

namespace Refines

variable {ibsectors : Nat} {st : Store} {s s₁ : LocalFiles} {L L₁ : Layout} {d : Fin nlfl}
  {i pos b : Nat}

/-- Nothing is left of the blocks of the file. -/
theorem detached_free (h : Refines ibsectors st s L) (hd : st.opened d = some (i, pos))
    (hs₁ : s₁.Stored ibsectors L st.bytes) (hq₁ : Quiet s s₁ d) (hclean : s₁.Clean d)
    (hsize : (st.bytes i).length ≠ 0) :
    ∃ s' L', truncateLoop s₁.lf_dir.lfd_ifree (7 * s₁.nsectors + 1) (s₁.ldptr d).ld_ilist
        (s₁.detached d) = .ok s' ∧
      (s'.respliced (s₁.ldptr d).ld_ilist).Backed ibsectors L' (update st.bytes i [])
        s₁.DirtyIndex s₁.DirtyData ∧
      Freeing (s₁.detached d) s' ∧ (L'.index (.file i) = [] ∧ L'.data (.file i) = []) ∧
      (∀ i', i' ≠ i → L'.index (.file i') = L.index (.file i') ∧
        L'.data (.file i') = L.data (.file i')) ∧ L'.index .loose = [] ∧ L'.data .loose = [] := by
  have hopen := h.opened d i pos hd
  have hi := h.lt_length hd
  have hused := hq₁.used.trans hopen.used
  have hentry := hq₁.entry.trans hopen.entry
  have hdata := h.agrees.dataLen i hi
  have hindex := h.agrees.indexLen i hi
  obtain ⟨hn, hdisk, hp, ht, hdir⟩ := detached_spec s₁ d
  rw [hentry] at hdir
  have hdetach : (s₁.detached d).Backed ibsectors (L.detach i) (update st.bytes i [])
      s₁.DirtyIndex s₁.DirtyData := by
    unfold Backed
    rw [hn, hdisk, hdir]
    refine hs₁.volume.detach h.agrees.loose.1 h.agrees.loose.2 ⟨rfl, rfl, rfl⟩ fun i' => ?_
    by_cases hii : i' = i
    · rw [hii, if_pos rfl]
      show (update s₁.lf_dir.lfd_files i _ i).ld_ilist = none
      rw [update_self]
    · rw [if_neg hii]
      exact congrArg Ldentry.ld_ilist (update_of_ne hii _ _)
  have hnonempty : L.index (.file i) ≠ [] := by
    intro hnil
    rw [hnil, List.length_nil] at hindex
    unfold Store.blocks lfIdata at *
    omega
  have hilist : (s₁.ldptr d).ld_ilist = (L.index (.file i)).head? := by
    rw [ldptr, hentry]
    refine hs₁.volume.ilist i ?_
    rw [hq₁.nfiles, h.agrees.nfiles]
    exact hi
  obtain ⟨hfreeIndex, -⟩ := Layout.detach_of_ne (L := L) (o := .free) (i := i) (by simp) (by simp)
  have hbound := hs₁.volume.length_index_le (.file i)
  have hlt := hs₁.volume.area.lt
  have htables : ∀ j' ib, 0 ≤ j' → (L.index (.file i))[j']? = some ib →
      IndexOf (L.index (.file i)) (L.data (.file i)) j' (diskIndex (s₁.detached d).disk ib) := by
    intro j' ib _ hj'
    rw [hdisk]
    refine hs₁.volume.index i j' ib hj' (hs₁.not_dirtyIndex hused (by rwa [hentry]) ?_)
    exact fun hdirty => absurd hdirty (by simp [hclean.1])
  obtain ⟨s', L₂, hloop, hs', hf', hl', hlinks⟩ := truncateLoop_spec (j := 0) (Nat.zero_le _)
    (show (L.index (.file i)).length - 0 < 7 * s₁.nsectors + 1 by omega) hdetach
    Layout.detach_loose.1 (show s₁.lf_dir.lfd_ifree = _ by rw [hfreeIndex]; exact hs₁.volume.ifree)
    Layout.detach_loose.2 (by unfold Store.blocks lfIblen lfBlksiz lfIdata at *; omega) htables
    fun j' _ hj' => absurd hj' (Nat.not_lt_zero j')
  have hloose : L₂.index .loose = L.index (.file i) := by rw [hl'.index, Layout.detach_loose.1]
  have hhead : (L.index (.file i) ++ L₂.index .free).head? = (s₁.ldptr d).ld_ilist := by
    rw [List.head?_append_of_ne_nil _ hnonempty, hilist]
  have hgive := hs'.giveIndex fun j' ib hj' => by
    rw [hloose] at hj' ⊢
    rw [hlinks j' ib hj', hl'.index]
  rw [hloose, hhead] at hgive
  have hindexOf : ∀ i', L₂.index (.file i') = (L.detach i).index (.file i') := fun i' => by
    rw [hl'.index]
  rw [← List.head?_eq_getElem?, List.head?_append_of_ne_nil _ hnonempty, ← hilist] at hloop
  refine ⟨s', _, hloop, hgive, hf', ⟨?_, ?_⟩, fun i' hii => ⟨?_, ?_⟩, ?_, ?_⟩
  · rw [Layout.index_moveIndex_of_ne (by simp) (by simp), hindexOf, Layout.detach_self.1]
  · rw [Layout.data_moveIndex, hl'.files, Layout.detach_self.2]
  · rw [Layout.index_moveIndex_of_ne (by simp) (by simp), hindexOf,
      (Layout.detach_of_ne (by simp [hii]) (by simp)).1]
  · rw [Layout.data_moveIndex, hl'.files, (Layout.detach_of_ne (by simp [hii]) (by simp)).2]
  · rw [Layout.index_moveIndex_left (by simp)]
  · rw [Layout.data_moveIndex, hl'.loose]

/-- An empty file is as it was. -/
theorem put_empty (h : Refines ibsectors st s L) (hd : st.opened d = some (i, pos))
    (hsize : (st.bytes i).length = 0) : st.put d i [] 0 = st := by
  have hnil : [] = st.bytes i := (List.length_eq_zero_iff.mp hsize).symm
  have hpos : 0 = pos := by
    have hle := (h.opened d i pos hd).pos_le
    omega
  unfold Store.put
  rw [hnil, update_eq_self, hpos, ← hd, update_eq_self]

section Truncated

variable (h : Refines ibsectors st s L) (hd : st.opened d = some (i, pos))
  (hs₁ : s₁.Stored ibsectors L st.bytes) (hq₁ : Quiet s s₁ d) (hclean : s₁.Clean d)
  {s₂ : LocalFiles} (ht : s₂.lfltab = update s₁.lfltab d (truncated (s₁.lfltab d)))
  (hdir : ∃ dfree ifree, s₂.lf_dir = { s₁.lf_dir with
    lfd_dfree := dfree
    lfd_ifree := ifree
    lfd_files := update s₁.lf_dir.lfd_files i { s₁.ldptr d with ld_ilist := none, ld_size := 0 } })
  (hothers : ∀ i', i' ≠ i → L₁.index (.file i') = L.index (.file i') ∧
    L₁.data (.file i') = L.data (.file i'))

include ht in
theorem truncated_file : s₂.lfltab d = truncated (s₁.lfltab d) ∧
    ∀ d', d' ≠ d → s₂.lfltab d' = s₁.lfltab d' := by
  rw [ht]
  exact ⟨update_self _ _ _, fun d' hne => update_of_ne hne _ _⟩

include h hd hq₁ hdir in
theorem truncated_dir : lfscheck s₂.lf_dir = lfscheck s₁.lf_dir ∧
    s₂.lf_dir.lfd_nfiles = s₁.lf_dir.lfd_nfiles ∧
    (∀ i, (s₂.lf_dir.lfd_files i).ld_name = (s₁.lf_dir.lfd_files i).ld_name) ∧
    ∀ i', (s₂.lf_dir.lfd_files i').ld_size =
      if i' = i then 0 else (s₁.lf_dir.lfd_files i').ld_size := by
  have hentry := hq₁.entry.trans (h.opened d i pos hd).entry
  obtain ⟨dfree, ifree, hdir⟩ := hdir
  rw [hdir]
  refine ⟨rfl, rfl, ?_, fun i' => ?_⟩
  · refine update_entry Ldentry.ld_name _ _ _ ?_
    show (s₁.lf_dir.lfd_files (s₁.lfltab d).lfdirptr).ld_name = _
    rw [hentry]
  · by_cases hii : i' = i
    · rw [hii, if_pos rfl]
      dsimp only
      rw [update_self]
    · rw [if_neg hii]
      dsimp only
      rw [update_of_ne hii]

include h hd hs₁ hq₁ hclean ht hdir hothers in
theorem truncated_stored (hn : s₂.nsectors = s₁.nsectors)
    (hp : s₂.lf_dirpresent = s₁.lf_dirpresent)
    (hvolume : s₂.Backed ibsectors L₁ (update st.bytes i []) s₁.DirtyIndex s₁.DirtyData) :
    s₂.Stored ibsectors L₁ (update st.bytes i []) := by
  have hopen := h.opened d i pos hd
  have hused := hq₁.used.trans hopen.used
  have hentry := hq₁.entry.trans hopen.entry
  have hopened := hs₁.opened d hused
  obtain ⟨hself, hother⟩ := truncated_file ht
  obtain ⟨hcheck, hnfiles, hname, -⟩ := h.truncated_dir hd hq₁ hdir
  have hframe : Frame s₁ s₂ d :=
    ⟨hn, hp, hcheck, hnfiles, hname, hother, by rw [hself]; rfl, by rw [hself]; rfl,
      by rw [hself]; rfl⟩
  refine hs₁.next hused hframe ?_ (fun i' hi' => ?_) ?_ (fun hdirty => ?_) fun hdirty => ?_
  · refine hvolume.mono (fun ib hdi => hframe.dirtyIndex hdi fun hdirty _ => ?_)
      fun b' hdb => hframe.dirtyData hdb fun hdirty _ => ?_
    · exact absurd hdirty (by simp [hclean.1])
    · exact absurd hdirty (by simp [hclean.2])
  · have hii : i' ≠ i := fun heq => hi' (heq.trans hentry.symm)
    exact ⟨(hothers i' hii).1, (hothers i' hii).2, update_of_ne hii _ _⟩
  · rw [hself]
    refine ⟨hnfiles ▸ hopened.entry, (hname _).trans hopened.name, fun ib hib => ?_, fun b hb => ?_⟩
    · cases hib
    · cases hb
  · rw [hself] at hdirty
    exact absurd (show (s₁.lfltab d).lfibdirty = true from hdirty) (by simp [hclean.1])
  · rw [hself] at hdirty
    exact absurd (show (s₁.lfltab d).lfdbdirty = true from hdirty) (by simp [hclean.2])

include h hd hq₁ hdir hothers in
theorem truncated_agrees (hfile : L₁.index (.file i) = [] ∧ L₁.data (.file i) = [])
    (hloose : L₁.index .loose = [] ∧ L₁.data .loose = []) :
    Agrees s₂.lf_dir L₁ st.names (update st.bytes i []) := by
  have hag := h.agrees
  obtain ⟨hcheck, hnfiles, hname, hsize⟩ := h.truncated_dir hd hq₁ hdir
  refine
    { check := (hcheck.trans hq₁.check).trans hag.check
      nfiles := (hnfiles.trans hq₁.nfiles).trans hag.nfiles
      name := fun i' hi' => by rw [hname, hq₁.names]; exact hag.name i' hi'
      nodup := hag.nodup
      size := fun i' hi' => ?_
      dataLen := fun i' hi' => ?_
      indexLen := fun i' hi' => ?_
      beyond := fun i' hi' => ?_
      loose := hloose }
  · by_cases hii : i' = i
    · rw [hsize, hii, if_pos rfl, update_self]
      rfl
    · rw [hsize, if_neg hii, update_of_ne hii, hq₁.sizes]
      exact hag.size i' hi'
  · by_cases hii : i' = i
    · rw [hii, hfile.2, update_self]
      rfl
    · rw [(hothers i' hii).2, update_of_ne hii]
      exact hag.dataLen i' hi'
  · by_cases hii : i' = i
    · rw [hii, hfile.1, update_self]
      rfl
    · rw [(hothers i' hii).1, update_of_ne hii]
      exact hag.indexLen i' hi'
  · have hii : i' ≠ i := fun heq => Nat.not_le.mpr (h.lt_length hd) (heq ▸ hi')
    rw [(hothers i' hii).1, (hothers i' hii).2]
    exact hag.beyond i' hi'

end Truncated

theorem lftruncate_spec (h : Refines ibsectors st s L) (hd : st.opened d = some (i, pos)) :
    Yields ibsectors s (s.lftruncate d) (.ok, st.put d i [] 0)
      (Marks ((st.bytes i).length ≠ 0) s) := by
  have hopen := h.opened d i pos hd
  by_cases hsize : (st.bytes i).length = 0
  · refine ⟨s, L, ?_, ?_, rfl, fun hne => absurd hsize hne, fun _ => Still.refl s⟩
    · rw [lftruncate, h.ldptr_size hd, if_pos hsize]
    · rw [h.put_empty hd hsize]
      exact h
  · obtain ⟨s₁, hflush, hs₁, hn₁, hstill₁, hp₁, ht₁⟩ := flushed_spec h.stored hopen.used
    obtain ⟨hq₁, hclean⟩ := quiet_flushed hn₁ hp₁ hstill₁.dir ht₁
    have hentry := hq₁.entry.trans hopen.entry
    obtain ⟨s', L', hloop, hback, hf', hfile, hothers, hloose⟩ :=
      h.detached_free hd hs₁ hq₁ hclean hsize
    obtain ⟨hn, -, hp, ht, hdir⟩ := detached_spec s₁ d
    rw [hentry] at hdir
    let s₂ := s'.respliced (s₁.ldptr d).ld_ilist
    have htab : s₂.lfltab = update s₁.lfltab d (truncated (s₁.lfltab d)) := hf'.lfltab.trans ht
    have hdir₂ : ∃ dfree ifree, s₂.lf_dir = { s₁.lf_dir with
        lfd_dfree := dfree
        lfd_ifree := ifree
        lfd_files := update s₁.lf_dir.lfd_files i
          { s₁.ldptr d with ld_ilist := none, ld_size := 0 } } := by
      obtain ⟨dfree, hfreed⟩ := hf'.dir
      refine ⟨dfree, (s₁.ldptr d).ld_ilist, ?_⟩
      show { s'.lf_dir with lfd_ifree := (s₁.ldptr d).ld_ilist } = _
      rw [hfreed, hdir]
    have hp₂ := hf'.dirpresent.trans hp
    obtain ⟨hself, hother⟩ := truncated_file htab
    refine ⟨s₂, L', ?_, ?_, hf'.nsectors.trans (hn.trans hn₁), fun _ => rfl, fun hne =>
      absurd hsize hne⟩
    · rw [lftruncate_eq (by rw [h.ldptr_size hd]; exact hsize), hflush, ok_bind, hloop]
      rfl
    · refine h.next rfl (hp₂.trans hp₁)
        (h.truncated_stored hd hs₁ hq₁ hclean htab hdir₂ hothers (hf'.nsectors.trans hn) hp₂ hback)
        (h.truncated_agrees hd hq₁ hdir₂ hothers hfile hloose)
        (fun d' hne => (hother d' hne).trans (hq₁.others d' hne)) (fun d' i' pos' hne hd' => ?_)
        (fun hnone => by cases hnone) fun i' pos' hsome => ?_
      · have hii := h.file_ne hd hd' hne
        exact ⟨update_of_ne hii _ _, (hothers i' hii).2⟩
      · obtain ⟨rfl, rfl⟩ := Prod.mk.inj (Option.some.inj hsome)
        rw [hself]
        exact ⟨hq₁.used.trans hopen.used, hentry, rfl, Nat.zero_le _, fun hin =>
          absurd hin (Nat.lt_irrefl _)⟩

end Refines

end NatBox
