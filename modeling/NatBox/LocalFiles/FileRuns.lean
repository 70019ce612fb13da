import NatBox.LocalFiles.Calls
import NatBox.Lib.Runs

/-
Runs of calls from a disk with a local file system, and what they return.

Every result is that of the store, as long as the files fit: `results_of_store`.
-/

namespace NatBox

open Function Chain Lfs LocalFiles Runs

namespace LocalFiles

/-- The directory comes into memory. -/
def loaded (s : LocalFiles) (dir : Lfdir) : LocalFiles :=
  { s.setDir dir with lf_dirpresent := true }

end LocalFiles

/-- No file is open and the directory is not in memory, but the disk has the files. -/
structure Absent (ibsectors : Nat) (st : Store) (s : LocalFiles) (dir : Lfdir) (L : Layout) :
    Prop where
  absent : s.lf_dirpresent = false
  dirdirty : s.lf_dirdirty = false
  unused : ∀ d, (s.lfltab d).used = false
  clean : ∀ d, s.Clean d
  closed : ∀ d, st.opened d = none
  disk : WellFormed ibsectors s.nsectors s.disk dir L st.names st.bytes

def Related (ibsectors : Nat) (st : Store) (s : LocalFiles) : Prop :=
  (∃ L, Refines ibsectors st s L) ∨ ∃ dir L, Absent ibsectors st s dir L

namespace Absent

variable {ibsectors : Nat} {st : Store} {s : LocalFiles} {dir : Lfdir} {L : Layout}

theorem init {ibsectors nsectors : Nat} {disk : Nat → Sector} {dir : Lfdir} {L : Layout}
    {names : List (List Char)} {bytes : Nat → List UInt8}
    (wf : WellFormed ibsectors nsectors disk dir L names bytes) :
    Absent ibsectors (.init names bytes) (.init nsectors disk) dir L :=
  ⟨rfl, rfl, fun _ => rfl, fun _ => ⟨rfl, rfl⟩, fun _ => rfl, wf⟩

variable (h : Absent ibsectors st s dir L)
include h

theorem refines_loaded : Refines ibsectors st (s.loaded dir) L where
  present := rfl
  agrees := h.disk.agrees
  closed d _ := h.unused d
  opened d i pos hd := by
    rw [h.closed d] at hd
    cases hd
  stored :=
    { volume := h.disk.volume.mono (fun _ hfalse => hfalse.elim) fun _ hfalse => hfalse.elim
      opened := fun d hd => absurd hd (by simp [show (s.loaded dir).lfltab d = s.lfltab d from rfl,
        h.unused d])
      apart := fun d _ hd => absurd hd (by
        simp [show (s.loaded dir).lfltab d = s.lfltab d from rfl, h.unused d])
      indexKnown := fun d hd => absurd hd (by
        simp [show (s.loaded dir).lfltab d = s.lfltab d from rfl, (h.clean d).1])
      dataKnown := fun d hd => absurd hd (by
        simp [show (s.loaded dir).lfltab d = s.lfltab d from rfl, (h.clean d).2]) }

theorem loadDir_eq : s.loadDir = .ok (true, s.loaded dir) := by
  have hlt := h.disk.volume.area.lt
  unfold loadDir
  rw [h.absent, if_neg Bool.false_ne_true, read_ok (Nat.zero_lt_of_lt hlt), ok_bind, h.disk.sector]
  dsimp only
  rw [h.disk.agrees.check]
  rfl

theorem obtained_eq : s.obtained = s.loaded dir := by
  rw [obtained, h.loadDir_eq]

omit h in
theorem openDevice_loaded (name mode : List Char) :
    (s.loaded dir).openDevice name mode = s.openDevice name mode := by
  unfold openDevice
  rw [LocalFiles.freeDevice_eq, LocalFiles.freeDevice_eq]
  rfl

/-- A call leaves the directory on the disk, or it is `lfsopen` with the directory in memory. -/
theorem step_cases (e : LfEvent) :
    (s.step e = .ok ((st.step e).1, s) ∧ (st.step e).2 = st ∧ s.resizes e = false ∧
      s.creates e = false) ∨
    (s.step e = (s.loaded dir).step e ∧ s.resizes e = false ∧ (s.loaded dir).resizes e = false ∧
      s.creates e = (s.loaded dir).creates e) := by
  have hloaded := h.refines_loaded
  cases hdev : e.device with
  | some d =>
    obtain ⟨hok, hst⟩ := step_closed (h.unused d) (h.closed d) hdev
    refine .inl ⟨hok, hst, ?_, ?_⟩
    · cases e <;> cases hdev <;> simp [resizes, h.unused d]
    · cases e <;> first | rfl | cases hdev
  | none =>
    cases e with
    | opens name mode =>
      have hopen : s.lfsopen name mode = _ := lfsopen_eq s name mode
      have hopens : (st.step (.opens name mode)) = _ := hloaded.opens_eq name mode
      rw [openDevice_loaded] at hopens
      cases hfree : s.openDevice name mode with
      | none =>
        rw [hfree] at hopen hopens
        refine .inl ⟨?_, ?_, rfl, ?_⟩
        · rw [hopens]
          exact hopen
        · rw [hopens]
          rfl
        · rw [creates, hfree]
          rfl
      | some p =>
        refine .inr ⟨?_, rfl, rfl, ?_⟩
        · show s.lfsopen name mode = (s.loaded dir).lfsopen name mode
          rw [lfsopen_eq, lfsopen_eq, openDevice_loaded, hfree]
          show s.openLoaded name p.1 p.2 = (s.loaded dir).openLoaded name p.1 p.2
          rw [openLoaded, openLoaded, h.loadDir_eq]
          rfl
        · rw [creates, creates, openDevice_loaded, h.obtained_eq, hloaded.obtained_eq]
    | _ => cases hdev

end Absent

section Runs

variable {ibsectors : Nat} {st : Store} {s : LocalFiles}

/-- One call. -/
theorem Related.step (h : Related ibsectors st s) (e : LfEvent) :
    (∃ f, s.step e = .error f ∧ ¬ (st.step e).2.Fits ibsectors s.nsectors) ∨
    ∃ s', s.step e = .ok ((st.step e).1, s') ∧ Related ibsectors (st.step e).2 s' ∧
      s'.nsectors = s.nsectors := by
  have hpresent : ∀ {s : LocalFiles} {L : Layout}, Refines ibsectors st s L →
      (∃ f, s.step e = .error f ∧ ¬ (st.step e).2.Fits ibsectors s.nsectors) ∨
      ∃ s', s.step e = .ok ((st.step e).1, s') ∧ Related ibsectors (st.step e).2 s' ∧
        s'.nsectors = s.nsectors := by
    intro s L h
    rcases h.step_spec e with hpanic | ⟨s', L', hok, h', hn, -⟩
    · exact .inl hpanic
    · exact .inr ⟨s', hok, .inl ⟨L', h'⟩, hn⟩
  rcases h with ⟨L, h⟩ | ⟨dir, L, h⟩
  · exact hpresent h
  · rcases h.step_cases e with ⟨hok, hst, -⟩ | ⟨hstep, -⟩
    · refine .inr ⟨s, hok, .inr ⟨dir, L, ?_⟩, rfl⟩
      rw [hst]
      exact h
    · rw [hstep]
      exact hpresent h.refines_loaded

theorem Related.run (h : Related ibsectors st s) (es : List LfEvent)
    (hfits : ∀ pre, pre <+: es → (st.run pre).2.Fits ibsectors s.nsectors) :
    ∃ s', exec LocalFiles.step s es = .ok ((st.run es).1, s') := by
  induction es generalizing st s with
  | nil => exact ⟨s, rfl⟩
  | cons e es ih =>
    rcases h.step e with ⟨f, -, hfew⟩ | ⟨s₁, hok, h₁, hn⟩
    · exact absurd (hfits [e] ⟨es, rfl⟩) hfew
    · obtain ⟨s', hrun⟩ := ih h₁ fun pre hpre => by
        rw [hn]
        exact hfits (e :: pre) ((List.prefix_cons_inj e).mpr hpre)
      refine ⟨s', ?_⟩
      rw [exec_cons_ok hok, hrun]
      rfl

theorem run_concat (st : Store) (es : List LfEvent) (e : LfEvent) :
    (st.run (es ++ [e])).2 = ((st.run es).2.step e).2 := by
  induction es generalizing st with
  | nil => rfl
  | cons e' es ih => exact ih (st.step e').2

/-- A run from a disk with a local file system. -/
theorem related_of_run {ibsectors nsectors : Nat} {disk : Nat → Sector} {dir : Lfdir} {L : Layout}
    {names : List (List Char)} {bytes : Nat → List UInt8}
    (wf : WellFormed ibsectors nsectors disk dir L names bytes) {tr : List (LfEvent × LfResult)}
    (h : Run LocalFiles.step (.init nsectors disk) tr s) :
    Related ibsectors ((Store.init names bytes).run (tr.map Prod.fst)).2 s := by
  refine h.invariant (I := fun tr s =>
    Related ibsectors ((Store.init names bytes).run (tr.map Prod.fst)).2 s)
    (.inr ⟨dir, L, Absent.init wf⟩) fun tr s e o s' hI hs => ?_
  rcases hI.step e with ⟨f, hpanic, -⟩ | ⟨u, hok, hu, -⟩
  · rw [hpanic] at hs
    cases hs
  · obtain ⟨-, rfl⟩ := Prod.mk.inj (Except.ok.inj (hok.symm.trans hs))
    rw [List.map_append, List.map_singleton, run_concat]
    exact hu

end Runs

namespace Lfs

/-! ## A disk without files -/

/-- The next number of a range, or null. -/
def upTo (bound n : Nat) : Option Nat := if n < bound then some n else none

def emptyDir (ibsectors nsectors : Nat) : Lfdir where
  lfd_fsysid := lfsId
  lfd_allzeros := 0
  lfd_allones := 0xffffffff
  lfd_dfree := upTo nsectors (ibsectors + 1)
  lfd_ifree := upTo (7 * ibsectors) 0
  lfd_nfiles := 0
  lfd_files _ := ⟨0, none, []⟩
  lfd_revid := reverse

/-- All blocks are on the free lists, in their order. -/
def emptyDisk (ibsectors nsectors : Nat) : Nat → Sector
  | 0 => .dir (emptyDir ibsectors nsectors)
  | b + 1 =>
    if b < ibsectors then .index fun k => ⟨upTo (7 * ibsectors) (7 * b + k + 1), 0, fun _ => none⟩
    else .free (upTo nsectors (b + 2))

def emptyLayout (ibsectors nsectors : Nat) : Layout where
  index
    | .free => List.range (7 * ibsectors)
    | _ => []
  data
    | .free => List.range' (ibsectors + 1) (nsectors - 1 - ibsectors)
    | _ => []

variable {ibsectors nsectors : Nat}

/-- All nodes are on one of the lists. -/
theorem partition_free {lists : Owner → List Nat} {all : Nat → Prop} (hnodup : (lists .free).Nodup)
    (hfree : ∀ x, x ∈ lists .free ↔ all x) (hrest : ∀ o, o ≠ .free → lists o = []) :
    Partition lists all := by
  have howner : ∀ o x, x ∈ lists o → o = .free := by
    intro o x hx
    by_contra hne
    rw [hrest o hne] at hx
    cases hx
  refine ⟨fun o => ?_, fun {o o' x} hx hx' => ?_,
    fun x => ⟨?_, fun hx => ⟨.free, (hfree x).mpr hx⟩⟩⟩
  · by_cases ho : o = .free
    · rw [ho]
      exact hnodup
    · rw [hrest o ho]
      exact List.nodup_nil
  · rw [howner o x hx, howner o' x hx']
  · rintro ⟨o, hx⟩
    rw [howner o x hx] at hx
    exact (hfree x).mp hx

theorem upTo_eq_some {bound n m : Nat} (h : upTo bound n = some m) : n < bound ∧ n = m := by
  unfold upTo at h
  split at h
  · next hlt => exact ⟨hlt, Option.some.inj h⟩
  · cases h

theorem getElem?_range'_upTo (a n j : Nat) :
    (List.range' a n)[j]? = upTo (a + n) (a + j) := by
  unfold upTo
  split
  · rw [List.getElem?_range' (by omega), Nat.one_mul]
  · rw [List.getElem?_eq_none (by rw [List.length_range']; omega)]

theorem emptyDisk_wellFormed (hlt : ibsectors < nsectors) (hsmall : lfBlksiz * nsectors ≤ 2 ^ 32) :
    WellFormed ibsectors nsectors (emptyDisk ibsectors nsectors) (emptyDir ibsectors nsectors)
      (emptyLayout ibsectors nsectors) [] fun _ => [] := by
  have hrest : ∀ o, o ≠ .free → (emptyLayout ibsectors nsectors).index o = [] ∧
      (emptyLayout ibsectors nsectors).data o = [] := by
    intro o ho
    cases o with
    | free => exact absurd rfl ho
    | file i => exact ⟨rfl, rfl⟩
    | loose => exact ⟨rfl, rfl⟩
  have hend : ibsectors + 1 + (nsectors - 1 - ibsectors) = nsectors := by omega
  refine ⟨rfl, ?_, ?_⟩
  · refine
      { area := ⟨hlt, hsmall, fun q hq => ⟨_, if_pos hq⟩⟩
        indexParts := partition_free List.nodup_range (fun x => List.mem_range)
          fun o ho => (hrest o ho).1
        dataParts := partition_free (List.nodup_range' 1) (fun b => ?_) fun o ho => (hrest o ho).2
        ifree := ?_
        dfree := ?_
        ilist := fun i hi => absurd hi (Nat.not_lt_zero i)
        freeIndex := fun j ib hj => ?_
        freeData := fun j b hj => ?_
        index := fun i j ib hj => by cases hj
        data := fun i m b hm => by cases hm }
    · show b ∈ List.range' _ _ ↔ _
      rw [List.mem_range'_1]
      omega
    · show _ = (List.range (7 * ibsectors)).head?
      rw [List.range_eq_range', List.head?_eq_getElem?, getElem?_range'_upTo, Nat.zero_add]
      rfl
    · show _ = (List.range' (ibsectors + 1) (nsectors - 1 - ibsectors)).head?
      rw [List.head?_eq_getElem?, getElem?_range'_upTo, Nat.add_zero, hend]
      rfl
    · change (List.range (7 * ibsectors))[j]? = _ at hj
      show _ = (List.range (7 * ibsectors))[j + 1]?
      rw [List.range_eq_range', getElem?_range'_upTo, Nat.zero_add, Nat.zero_add] at hj ⊢
      obtain ⟨hjlt, rfl⟩ := upTo_eq_some hj
      have hsect : emptyDisk ibsectors nsectors (ib2sect j) = .index fun k =>
          ⟨upTo (7 * ibsectors) (7 * (j / 7) + k + 1), 0, fun _ => none⟩ :=
        if_pos (by omega)
      rw [diskIndex, hsect]
      show upTo _ (7 * (j / 7) + j % 7 + 1) = _
      rw [Nat.div_add_mod]
    · change (List.range' (ibsectors + 1) (nsectors - 1 - ibsectors))[j]? = _ at hj
      show _ = Sector.free (List.range' (ibsectors + 1) (nsectors - 1 - ibsectors))[j + 1]?
      rw [getElem?_range'_upTo, hend] at hj ⊢
      obtain ⟨-, rfl⟩ := upTo_eq_some hj
      rw [show ibsectors + 1 + j = ibsectors + j + 1 by omega]
      show (if ibsectors + j < ibsectors then _ else Sector.free _) = _
      rw [if_neg (by omega), show ibsectors + j + 2 = ibsectors + 1 + (j + 1) by omega]
  · exact
      { check := rfl
        nfiles := rfl
        name := fun i hi => absurd hi (Nat.not_lt_zero i)
        nodup := List.nodup_nil
        size := fun i hi => absurd hi (Nat.not_lt_zero i)
        dataLen := fun i hi => absurd hi (Nat.not_lt_zero i)
        indexLen := fun i hi => absurd hi (Nat.not_lt_zero i)
        beyond := fun i _ => hrest (.file i) (by simp)
        loose := hrest .loose (by simp) }

end Lfs

/-! ## Results -/

/-- Calls return what the store returns, as long as the files fit on the disk. -/
theorem results_of_store {ibsectors nsectors : Nat} {disk : Nat → Sector} {dir : Lfdir} {L : Layout}
    {names : List (List Char)} {bytes : Nat → List UInt8}
    (wf : WellFormed ibsectors nsectors disk dir L names bytes) (es : List LfEvent)
    (hfits : ∀ pre, pre <+: es → ((Store.init names bytes).run pre).2.Fits ibsectors nsectors) :
    ∃ s, exec LocalFiles.step (.init nsectors disk) es =
      .ok (((Store.init names bytes).run es).1, s) :=
  Related.run (.inr ⟨dir, L, Absent.init wf⟩) es hfits

/-- A byte is read again behind the closing of its file. -/
theorem results_of_store_reopened : ∃ s, exec LocalFiles.step (.init 4 (emptyDisk 1 4))
    [.opens ['f'] [], .putc 0 7, .close 0, .opens ['f'] ['o'], .getc 0, .getc 0] =
      .ok ([.device 0, .ok, .ok, .device 0, .byte 7, .eof], s) := by
  refine results_of_store (emptyDisk_wellFormed (by decide) (by decide)) _ fun pre hpre => ?_
  replace hpre := (List.mem_inits _ _).mpr hpre
  revert pre
  decide

end NatBox
