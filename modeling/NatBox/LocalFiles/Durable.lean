import NatBox.LocalFiles.FileRuns

/-
What is on the disk when no file is open.

`lfsopen` puts the entry of a new file into the directory in memory and does not count the
directory as changed.  Where nothing else makes it count so, closing the file does not write it:
`closed_durable_iff`.
-/

namespace NatBox

open Function Chain Lfs LocalFiles Runs

namespace LocalFiles

/-- Whether there are entries that only the directory in memory has and that it does not count as
changed for. -/
def unsaved (s : LocalFiles) (e : LfEvent) (flag : Bool) : Bool :=
  if s.resizes e then false else flag || (s.creates e && !s.lf_dirdirty)

/-- And that behind some calls. -/
def unsavedAfter : LocalFiles → List LfEvent → Bool → Bool
  | _, [], flag => flag
  | s, e :: es, flag =>
    match s.step e with
    | .error _ => flag
    | .ok (_, s') => unsavedAfter s' es (s.unsaved e flag)

/-- The disk alone has the files, and the directory in memory is the one on the disk. -/
def Durable (ibsectors : Nat) (s : LocalFiles) (st : Store) : Prop :=
  ∃ dir L, WellFormed ibsectors s.nsectors s.disk dir L st.names st.bytes ∧
    (s.lf_dirpresent = true → s.lf_dir = dir)

/-- What the flag says of the directory. -/
structure Flagged (flag : Bool) (s : LocalFiles) : Prop where
  saved : flag = false → s.lf_dirdirty = true ∨ s.disk lfAreaDir = .dir s.lf_dir
  lost : flag = true → s.lf_dirdirty = false ∧
    ∃ dir, s.disk lfAreaDir = .dir dir ∧ dir.lfd_nfiles < s.lf_dir.lfd_nfiles
  used : s.lf_dirdirty = true → ∃ d, (s.lfltab d).used = true

theorem used_of_resizes {s : LocalFiles} {e : LfEvent} (h : s.resizes e = true) :
    ∃ d, (s.lfltab d).used = true := by
  unfold resizes at h
  split at h
  · next d _ =>
    exact ⟨d, ((Bool.and_eq_true _ _).mp h).1⟩
  · next d _ _ =>
    exact ⟨d, ((Bool.and_eq_true _ _).mp ((Bool.and_eq_true _ _).mp h).1).1⟩
  · next d _ =>
    exact ⟨d, ((Bool.and_eq_true _ _).mp ((Bool.and_eq_true _ _).mp h).1).1⟩
  · cases h

/-- A directory that counts as changed has been changed by the call or before it. -/
theorem Effect.dirdirty {s s' : LocalFiles} {e : LfEvent} (h : Effect s e s')
    (hdirty : s'.lf_dirdirty = true) : s.resizes e = true ∨ s.lf_dirdirty = true := by
  cases hres : s.resizes e with
  | true => exact .inl rfl
  | false =>
    refine .inr ?_
    cases hcre : s.creates e with
    | true => exact (h.created hcre).dirdirty.symm.trans hdirty
    | false =>
      rcases (h.still hres hcre).sector with ⟨hsame, -⟩ | ⟨hmarked, -⟩
      · exact hsame.symm.trans hdirty
      · exact hmarked

/-- The flag goes along with the calls. -/
theorem Flagged.step {flag : Bool} {s s' : LocalFiles} {e : LfEvent} (h : Flagged flag s)
    (heffect : Effect s e s')
    (hused : ∀ d, (s.lfltab d).used = true → e ≠ .close d → (s'.lfltab d).used = true) :
    Flagged (s.unsaved e flag) s' := by
  have hopen : s'.lf_dirdirty = true → ∃ d, (s'.lfltab d).used = true := by
    intro hdirty
    have hbefore : ∃ d, (s.lfltab d).used = true := by
      rcases heffect.dirdirty hdirty with hres | hmarked
      · exact used_of_resizes hres
      · exact h.used hmarked
    obtain ⟨d, hd⟩ := hbefore
    refine ⟨d, hused d hd fun hclose => ?_⟩
    rw [heffect.closed d hclose hd] at hdirty
    cases hdirty
  unfold unsaved
  cases hres : s.resizes e with
  | true =>
    rw [if_pos rfl]
    exact ⟨fun _ => .inl (heffect.resized hres), fun hflag => (by cases hflag), hopen⟩
  | false =>
    rw [if_neg Bool.false_ne_true]
    cases hcre : s.creates e with
    | true =>
      obtain ⟨hdirty, hsector, hnfiles⟩ := heffect.created hcre
      rw [Bool.true_and]
      refine ⟨fun hflag => ?_, fun hflag => ?_, hopen⟩
      · obtain ⟨-, hmarked⟩ := Bool.or_eq_false_iff.mp hflag
        exact .inl (hdirty.trans (by simpa using hmarked))
      · have hclean : s.lf_dirdirty = false ∧
            ∃ dir, s.disk lfAreaDir = .dir dir ∧ dir.lfd_nfiles ≤ s.lf_dir.lfd_nfiles := by
          cases hold : flag with
          | true =>
            obtain ⟨hclean, dir, hdir, hlt⟩ := h.lost hold
            exact ⟨hclean, dir, hdir, Int.le_of_lt hlt⟩
          | false =>
            rw [hold, Bool.false_or] at hflag
            have hclean : s.lf_dirdirty = false := by simpa using hflag
            refine ⟨hclean, s.lf_dir, (h.saved hold).resolve_left ?_, Int.le_refl _⟩
            rw [hclean]
            exact Bool.false_ne_true
        obtain ⟨hclean, dir, hdir, hle⟩ := hclean
        refine ⟨hdirty.trans hclean, dir, hsector.trans hdir, ?_⟩
        rw [hnfiles]
        omega
    | false =>
      obtain ⟨hdir, hsector⟩ := heffect.still hres hcre
      rw [Bool.false_and, Bool.or_false]
      refine ⟨fun hflag => ?_, fun hflag => ?_, hopen⟩
      · rw [hdir]
        rcases hsector with ⟨hdirty, hsame⟩ | ⟨-, -, hwritten⟩
        · rw [hdirty, hsame]
          exact h.saved hflag
        · exact .inr hwritten
      · obtain ⟨hclean, dir, hdisk, hlt⟩ := h.lost hflag
        rw [hdir]
        rcases hsector with ⟨hdirty, hsame⟩ | ⟨hmarked, -⟩
        · exact ⟨hdirty.trans hclean, dir, hsame.trans hdisk, hlt⟩
        · rw [hclean] at hmarked
          cases hmarked

end LocalFiles

namespace Store

variable {st : Store} {d : Fin nlfl}

theorem opened_update (hd : (st.opened d).isSome) (d' : Fin nlfl) (p : Nat × Nat) :
    (update st.opened d' (some p) d).isSome := by
  by_cases hdd : d = d'
  · rw [hdd, update_self]
    rfl
  · rw [update_of_ne hdd]
    exact hd

theorem opened_call (hd : (st.opened d).isSome) {d' : Fin nlfl} {closed : LfResult}
    {run : Nat → Nat → LfResult × Store} (hrun : ∀ i pos, ((run i pos).2.opened d).isSome) :
    ((st.call d' closed run).2.opened d).isSome := by
  unfold call
  cases st.opened d' with
  | none => exact hd
  | some p => exact hrun p.1 p.2

theorem opened_opens (hd : (st.opened d).isSome) (name mode : List Char) :
    ((st.opens name mode).2.opened d).isSome := by
  unfold opens
  split
  · exact hd
  · split
    · exact hd
    · split
      · exact hd
      · cases st.freeHandle with
        | none => exact hd
        | some d' =>
          show ((st.openNamed name _ d').2.opened d).isSome
          unfold openNamed
          split
          · split
            · exact hd
            · split
              · exact hd
              · exact opened_update hd d' _
          · split
            · exact hd
            · exact opened_update hd d' _

/-- Only closing takes a file from a pseudo-device. -/
theorem opened_step {e : LfEvent} (hd : (st.opened d).isSome) (he : e ≠ .close d) :
    ((st.step e).2.opened d).isSome := by
  cases e with
  | opens name mode => exact opened_opens hd name mode
  | close d' =>
    refine opened_call hd fun _ _ => ?_
    show (update st.opened d' none d).isSome
    rw [update_of_ne (fun hdd => he (by rw [hdd]))]
    exact hd
  | read d' count =>
    show ((st.read d' count).2.opened d).isSome
    unfold read
    split
    · exact hd
    · exact opened_call hd fun _ _ => opened_update hd d' _
  | write d' buff count =>
    show ((st.write d' buff count).2.opened d).isSome
    unfold write
    split
    · exact hd
    · exact opened_call hd fun _ _ => opened_update hd d' _
  | getc d' =>
    refine opened_call hd fun i pos => ?_
    cases (st.bytes i)[pos]? with
    | none => exact hd
    | some b => exact opened_update hd d' _
  | putc d' ch => exact opened_call hd fun _ _ => opened_update hd d' _
  | seek d' offset =>
    refine opened_call hd fun i pos => ?_
    split
    · exact hd
    · exact opened_update hd d' _
  | control d' func =>
    refine opened_call hd fun i pos => ?_
    split
    · exact opened_update hd d' _
    · exact hd

end Store

/-- The relation of the files and the store, with the flag. -/
def Tracked (ibsectors : Nat) (st : Store) (s : LocalFiles) (flag : Bool) : Prop :=
  (∃ L, Refines ibsectors st s L ∧ Flagged flag s) ∨
    flag = false ∧ ∃ dir L, Absent ibsectors st s dir L

section Tracked

variable {ibsectors : Nat} {st : Store} {s s' : LocalFiles} {L : Layout} {flag : Bool}
  {e : LfEvent} {o : LfResult}

theorem Refines.tracked_step (h : Refines ibsectors st s L) (hflag : Flagged flag s)
    (hs : s.step e = .ok (o, s')) : Tracked ibsectors (st.step e).2 s' (s.unsaved e flag) := by
  rcases h.step_spec e with ⟨f, hpanic, -⟩ | ⟨u, L', hok, hu, -, heffect⟩
  · rw [hpanic] at hs
    cases hs
  · obtain ⟨-, rfl⟩ := Prod.mk.inj (Except.ok.inj (hok.symm.trans hs))
    refine .inl ⟨L', hu, hflag.step heffect fun d hd he => ?_⟩
    rw [h.used_eq] at hd
    rw [hu.used_eq]
    exact Store.opened_step hd he

theorem Absent.flagged_loaded {dir : Lfdir} (h : Absent ibsectors st s dir L) :
    Flagged false (s.loaded dir) where
  saved _ := .inr h.disk.sector
  lost hflag := by cases hflag
  used hdirty := by
    rw [show (s.loaded dir).lf_dirdirty = s.lf_dirdirty from rfl, h.dirdirty] at hdirty
    cases hdirty

theorem Tracked.step (h : Tracked ibsectors st s flag) (hs : s.step e = .ok (o, s')) :
    Tracked ibsectors (st.step e).2 s' (s.unsaved e flag) := by
  rcases h with ⟨L, h, hflag⟩ | ⟨rfl, dir, L, h⟩
  · exact h.tracked_step hflag hs
  · rcases h.step_cases e with ⟨hok, hst, hres, hcre⟩ | ⟨hstep, hres, hres', hcre⟩
    · obtain ⟨-, rfl⟩ := Prod.mk.inj (Except.ok.inj (hok.symm.trans hs))
      refine .inr ⟨?_, dir, L, ?_⟩
      · rw [unsaved, hres, hcre]
        rfl
      · rw [hst]
        exact h
    · have hsame : s.unsaved e false = (s.loaded dir).unsaved e false := by
        rw [unsaved, unsaved, hres, hres', hcre]
        rfl
      rw [hsame]
      exact h.refines_loaded.tracked_step h.flagged_loaded (hstep.symm.trans hs)

theorem Tracked.run {es : List LfEvent} {os : List LfResult} (h : Tracked ibsectors st s flag)
    (hrun : exec LocalFiles.step s es = .ok (os, s')) :
    Tracked ibsectors (st.run es).2 s' (s.unsavedAfter es flag) := by
  induction es generalizing st s flag os with
  | nil =>
    obtain ⟨-, rfl⟩ := Prod.mk.inj (Except.ok.inj hrun)
    exact h
  | cons e es ih =>
    rw [exec] at hrun
    rw [unsavedAfter]
    rcases hs : s.step e with f | ⟨o, u⟩
    · rw [hs] at hrun
      cases hrun
    · rw [hs] at hrun
      rcases hu : exec LocalFiles.step u es with f | ⟨os₁, v⟩
      · simp [hu] at hrun
      · simp only [hu, Except.ok.injEq, Prod.mk.injEq] at hrun
        obtain ⟨-, rfl⟩ := hrun
        exact ih (h.step hs) hu

/-- Without open files the disk has everything exactly if the flag is not set. -/
theorem Tracked.durable_iff (h : Tracked ibsectors st s flag)
    (hclosed : ∀ d, (s.lfltab d).used = false) : Durable ibsectors s st ↔ flag = false := by
  rcases h with ⟨L, h, hflag⟩ | ⟨rfl, dir, L, h⟩
  · have hclean : s.lf_dirdirty = false := by
      refine Bool.eq_false_iff.mpr fun hdirty => ?_
      obtain ⟨d, hd⟩ := hflag.used hdirty
      rw [hclosed d] at hd
      cases hd
    constructor
    · rintro ⟨dir, L', wf, hdir⟩
      refine Bool.eq_false_iff.mpr fun hset => ?_
      obtain ⟨-, dir', hdisk, hlt⟩ := hflag.lost hset
      have hsame : dir' = s.lf_dir := by
        rw [hdir h.present]
        exact Sector.dir.inj (hdisk.symm.trans wf.sector)
      rw [hsame] at hlt
      exact Int.lt_irrefl _ hlt
    · intro hunset
      have hsector : s.disk lfAreaDir = .dir s.lf_dir :=
        (hflag.saved hunset).resolve_left (by rw [hclean]; exact Bool.false_ne_true)
      have hindex : ∀ ib, ¬ s.DirtyIndex ib := by
        rintro ib ⟨d, hdirty, -⟩
        exact absurd (h.stored.indexKnown d hdirty).1 (by rw [hclosed d]; exact Bool.false_ne_true)
      have hdata : ∀ b, ¬ s.DirtyData b := by
        rintro b ⟨d, hdirty, -⟩
        exact absurd (h.stored.dataKnown d hdirty).1 (by rw [hclosed d]; exact Bool.false_ne_true)
      exact ⟨s.lf_dir, L, ⟨hsector, h.stored.volume.mono hindex hdata, h.agrees⟩, fun _ => rfl⟩
  · refine iff_of_true ⟨dir, L, h.disk, fun hpresent => ?_⟩ rfl
    rw [h.absent] at hpresent
    cases hpresent

end Tracked

/-- When no file is open, the disk has all files exactly if behind each file that has been created
while the directory did not count as changed there has been a call that changed a size. -/
theorem closed_durable_iff {ibsectors nsectors : Nat} {disk : Nat → Sector} {dir : Lfdir}
    {L : Layout} {names : List (List Char)} {bytes : Nat → List UInt8}
    (wf : WellFormed ibsectors nsectors disk dir L names bytes) {tr : List (LfEvent × LfResult)}
    {s : LocalFiles} (h : Run LocalFiles.step (.init nsectors disk) tr s)
    (hclosed : ∀ d, (s.lfltab d).used = false) :
    Durable ibsectors s ((Store.init names bytes).run (tr.map Prod.fst)).2 ↔
      (LocalFiles.init nsectors disk).unsavedAfter (tr.map Prod.fst) false = false := by
  have htracked : Tracked ibsectors (.init names bytes) (.init nsectors disk) false :=
    .inr ⟨rfl, dir, L, Absent.init wf⟩
  exact (htracked.run h.exec_eq).durable_iff hclosed

/-- A byte is written to the new file. -/
theorem closed_durable_written : ∃ tr s, Run LocalFiles.step (.init 4 (emptyDisk 1 4)) tr s ∧
    tr.map Prod.fst = [.opens ['f'] [], .putc 0 7, .close 0] ∧
    Durable 1 s ((Store.init [] fun _ => []).run (tr.map Prod.fst)).2 := by
  obtain ⟨os, s, hrun, hevents, hclosed⟩ := run_of_endsIn (show endsIn LocalFiles.step
    (.init 4 (emptyDisk 1 4)) [.opens ['f'] [], .putc 0 7, .close 0]
    (fun _ s => (List.finRange nlfl).all fun d => !(s.lfltab d).used) = true by decide)
  refine ⟨_, s, hrun, hevents, (closed_durable_iff
    (emptyDisk_wellFormed (by decide) (by decide)) hrun fun d => ?_).mpr ?_⟩
  · simpa using List.all_eq_true.mp hclosed d (List.mem_finRange d)
  · rw [hevents]
    decide

/-- Nothing is written to it. -/
theorem closed_new_file_lost : ∃ tr s, Run LocalFiles.step (.init 4 (emptyDisk 1 4)) tr s ∧
    tr.map Prod.fst = [.opens ['f'] [], .close 0] ∧ (∀ d, (s.lfltab d).used = false) ∧
    ¬ Durable 1 s ((Store.init [] fun _ => []).run (tr.map Prod.fst)).2 := by
  obtain ⟨os, s, hrun, hevents, hcheck⟩ := run_of_endsIn (show endsIn LocalFiles.step
    (.init 4 (emptyDisk 1 4)) [.opens ['f'] [], .close 0]
    (fun _ s => ((List.finRange nlfl).all fun d => !(s.lfltab d).used) && s.lf_dirpresent &&
      decide (s.lf_dir.lfd_nfiles = 1) &&
      decide ((s.disk lfAreaDir).directory.lfd_nfiles = 0)) = true by decide)
  simp only [Bool.and_eq_true, decide_eq_true_eq] at hcheck
  obtain ⟨⟨⟨hclosed, hpresent⟩, hmemory⟩, hdisk⟩ := hcheck
  refine ⟨_, s, hrun, hevents, fun d => ?_, ?_⟩
  · simpa using List.all_eq_true.mp hclosed d (List.mem_finRange d)
  · rintro ⟨dir, L, wf, hdir⟩
    rw [hdir hpresent] at hmemory
    rw [wf.sector, Sector.directory, hmemory] at hdisk
    exact absurd hdisk (by decide)

end NatBox
