import NatBox.Fragment.Memory

/-
The time-out sweep over the reassembly table.

The time of arrival 0 marks a free slot as well, so an entry that arrived when the
clock showed 0 is passed over by every sweep.  All others leave when they are old
enough, and their memory with them: `sweep_exact_iff`.
-/

namespace NatBox

open Function Runs

/-- The seconds since the first fragment arrived, by a clock that wraps around. -/
def ReassemblyEntry.age (e : ReassemblyEntry) (clktime : UInt32) : UInt32 := clktime - e.timestamp

/-- The lists of `lists` that are gone from `lists'`. -/
def removedLists (lists lists' : Fin reassemblyTableMaxSize → Option StoredList) :
    Fin reassemblyTableMaxSize → Option StoredList :=
  fun i => if (lists' i).isNone then lists i else none

/-- A sweep that leads from `s` to `s'` and removes what has expired: no old entry
stays, the younger ones do with their lists, and every block of a removed list, its
sentinel, its nodes and their payloads, is given back once with its size. -/
structure SweepsExactly (s : FragMemory) (clktime : UInt32) (s' : FragMemory) : Prop where
  expired : ∀ i, (s.table.entry i).isLive = true →
    reassemblyMaxTime ≤ (s.table.entry i).age clktime → (s'.table.entry i).isLive = false
  younger : ∀ i, (s.table.entry i).isLive = true →
    (s.table.entry i).age clktime < reassemblyMaxTime →
      s'.table.entry i = s.table.entry i ∧ s'.lists i = s.lists i
  freed : (s.memory.live : Multiset Allocation) =
    s'.memory.live + heldBlocks (removedLists s.lists s'.lists)

/-- An old entry that arrived when the clock showed 0. -/
def ArrivedAtZero (s : FragMemory) (clktime : UInt32) : Prop :=
  ∃ i, (s.table.entry i).isLive = true ∧ (s.table.entry i).timestamp = 0 ∧
    reassemblyMaxTime ≤ clktime

section Sweep

variable {h₀ : Heap} {s s' : FragMemory} {datagrams : Multiset Allocation} {clktime : UInt32}

theorem lists_remove {i : Fin reassemblyTableMaxSize} (h : s.remove i = .ok s') :
    s'.lists = update s.lists i none := by
  rw [FragMemory.remove] at h
  split at h
  · rename_i hnone
    obtain rfl := Except.ok.inj h
    rw [← hnone, update_eq_self]
  · obtain ⟨m, -, h⟩ := bind_ok h
    obtain rfl := Except.ok.inj h
    rfl

/-- The sweep goes through, and a list it does not leave alone is gone. -/
theorem Owned.sweepLoop_ok (hr : h₀.Ready) (clktime : UInt32)
    (l : List (Fin reassemblyTableMaxSize)) (h : Owned h₀ s datagrams) :
    ∃ s', FragMemory.sweepLoop clktime l s = .ok s' ∧
      ∀ j, s'.lists j = s.lists j ∨ s'.lists j = none := by
  induction l generalizing s with
  | nil => exact ⟨s, rfl, fun j => .inl rfl⟩
  | cons i l ih =>
    rw [FragMemory.sweepLoop]
    by_cases htimed : (s.table.entry i).timedOut clktime = true
    · obtain ⟨s₁, hremove, -, howned⟩ := h.remove hr i
      obtain ⟨s', hloop, hlists⟩ := ih howned
      refine ⟨s', ?_, fun j => ?_⟩
      · rw [if_pos htimed, hremove]
        exact hloop
      · rw [lists_remove hremove] at hlists
        by_cases hj : j = i
        · subst hj
          have hnone := hlists j
          rw [update_self, or_self] at hnone
          exact .inr hnone
        · have hsame := hlists j
          rwa [update_of_ne hj] at hsame
    · obtain ⟨s', hloop, hlists⟩ := ih h
      refine ⟨s', ?_, hlists⟩
      rw [if_neg htimed]
      exact hloop

/-- What is held before is held afterwards or was removed. -/
theorem heldBlocks_removed {lists lists' : Fin reassemblyTableMaxSize → Option StoredList}
    (h : ∀ j, lists' j = lists j ∨ lists' j = none) :
    heldBlocks lists = heldBlocks lists' + heldBlocks (removedLists lists lists') := by
  rw [heldBlocks, heldBlocks, heldBlocks, ← Finset.sum_add_distrib]
  refine Finset.sum_congr rfl fun j _ => ?_
  unfold removedLists
  rcases h j with heq | hnone
  · rw [heq]
    cases hj : lists j with
    | none => exact (add_zero _).symm
    | some l => exact (add_zero _).symm
  · rw [hnone]
    exact (zero_add _).symm

theorem timedOut_iff {e : ReassemblyEntry} (hlive : e.isLive = true) :
    e.timedOut clktime = true ↔ e.timestamp ≠ 0 ∧ reassemblyMaxTime ≤ e.age clktime := by
  rw [ReassemblyEntry.timedOut, ReassemblyEntry.age, hlive]
  simp

/-- A sweep, as far as the table goes. -/
theorem Owned.step_sweep (hr : h₀.Ready) (h : Owned h₀ s datagrams) (clktime : UInt32) :
    ∃ s', s.step (.sweep clktime) = .ok (none, s') ∧ Owned h₀ s' datagrams ∧
      (∀ j, s'.lists j = s.lists j ∨ s'.lists j = none) ∧
      ∀ i, s'.table.entry i =
        if (s.table.entry i).timedOut clktime = true then (s.table.entry i).removed
        else s.table.entry i := by
  obtain ⟨s', hloop, hlists⟩ := h.sweepLoop_ok hr clktime (List.finRange reassemblyTableMaxSize)
  obtain ⟨howned, htable⟩ := h.sweepLoop hr hloop
  refine ⟨s', ?_, howned, hlists, fun i => ?_⟩
  · rw [FragMemory.step, hloop]
    rfl
  · rw [htable]
    exact entry_checkReassemblyTimeOut s.table clktime i

/-- The entry that arrived at 0 stays. -/
theorem Owned.not_sweepsExactly (hr : h₀.Ready) (h : Owned h₀ s datagrams)
    (hzero : ArrivedAtZero s clktime) :
    ¬ ∃ s', s.step (.sweep clktime) = .ok (none, s') ∧ SweepsExactly s clktime s' := by
  rintro ⟨t, ht, hexact⟩
  obtain ⟨s', hstep, -, -, hentry⟩ := h.step_sweep hr clktime
  obtain rfl : s' = t := congrArg Prod.snd (Except.ok.inj (hstep.symm.trans ht))
  obtain ⟨i, hlive, hzero, hold⟩ := hzero
  have hage : (s.table.entry i).age clktime = clktime := by
    rw [ReassemblyEntry.age, hzero, UInt32.sub_zero]
  have hgone := hexact.expired i hlive (hage.symm ▸ hold)
  have hstays : ¬ (s.table.entry i).timedOut clktime = true := fun htimed =>
    ((timedOut_iff hlive).mp htimed).1 hzero
  rw [hentry, if_neg hstays, hlive] at hgone
  exact absurd hgone (by decide)

/-- A sweep removes exactly the expired entries, and gives back exactly what they
hold, unless an old entry arrived when the clock showed 0. -/
theorem sweep_exact_iff (hr : h₀.Ready) (h : Owned h₀ s datagrams) (clktime : UInt32) :
    (∃ s', s.step (.sweep clktime) = .ok (none, s') ∧ SweepsExactly s clktime s') ↔
      ¬ ArrivedAtZero s clktime := by
  refine ⟨fun hexact hzero => h.not_sweepsExactly hr hzero hexact, fun hzero => ?_⟩
  obtain ⟨s', hstep, howned, hlists, hentry⟩ := h.step_sweep hr clktime
  refine ⟨s', hstep, ?_, ?_, ?_⟩
  · intro i hlive hold
    have hne : (s.table.entry i).timestamp ≠ 0 := by
      intro heq
      refine hzero ⟨i, hlive, heq, ?_⟩
      rwa [ReassemblyEntry.age, heq, UInt32.sub_zero] at hold
    rw [hentry, if_pos ((timedOut_iff hlive).mpr ⟨hne, hold⟩)]
    rfl
  · intro i hlive hyoung
    have hstays : ¬ (s.table.entry i).timedOut clktime = true := fun htimed =>
      absurd ((timedOut_iff hlive).mp htimed).2 (UInt32.not_le.mpr hyoung)
    have hsame : s'.table.entry i = s.table.entry i := by rw [hentry, if_neg hstays]
    refine ⟨hsame, (hlists i).resolve_right fun hnone => ?_⟩
    have hnodes := howned.nodes i
    rw [hnone, hsame] at hnodes
    rw [ReassemblyEntry.isLive, ← hnodes] at hlive
    exact absurd hlive (by simp)
  · have hbefore := h.holds.live
    have hafter := howned.holds.live
    rw [hbefore, hafter, heldBlocks_removed hlists]
    exact add_right_comm _ _ _

end Sweep

/-- Whether some entry is live and arrived when the clock showed `t`. -/
def hasArrivedAt (t : UInt32) (s : FragMemory) : Bool :=
  decide (∃ i, (s.table.entry i).isLive = true ∧ (s.table.entry i).timestamp = t)

/-- A fragment that arrived at 1 is swept away at 16. -/
theorem sweep_exact_after_arrival : ∃ os s s', Run FragMemory.step (FragMemory.init oneMegabyte)
    ([.arrive 1 (fun _ => 0) exampleArgs (exampleFragment 1 0x01)].zip os) s ∧
      s.step (.sweep 16) = .ok (none, s') ∧ SweepsExactly s 16 s' := by
  obtain ⟨os, s, hrun, -, hcheck⟩ := run_of_endsIn (show endsIn FragMemory.step
    (FragMemory.init oneMegabyte) [.arrive 1 (fun _ => 0) exampleArgs (exampleFragment 1 0x01)]
    (fun _ s => !hasArrivedAt 0 s) = true by decide +kernel)
  obtain ⟨datagrams, howned, -⟩ := owned_of_run oneMegabyte_ready hrun
  have hzero : ¬ ArrivedAtZero s 16 := by
    rintro ⟨i, hlive, hstamp, -⟩
    rw [Bool.not_eq_true', hasArrivedAt, decide_eq_false_iff_not] at hcheck
    exact hcheck ⟨i, hlive, hstamp⟩
  obtain ⟨s', hstep, hexact⟩ := (sweep_exact_iff oneMegabyte_ready howned 16).mpr hzero
  exact ⟨os, s, s', hrun, hstep, hexact⟩

/-- One that arrived at 0 is not swept away at 15. -/
theorem sweep_misses_zero : ∃ os s, Run FragMemory.step (FragMemory.init oneMegabyte)
    ([.arrive 0 (fun _ => 0) exampleArgs (exampleFragment 1 0x01)].zip os) s ∧
      ¬ ∃ s', s.step (.sweep 15) = .ok (none, s') ∧ SweepsExactly s 15 s' := by
  obtain ⟨os, s, hrun, -, hcheck⟩ := run_of_endsIn (show endsIn FragMemory.step
    (FragMemory.init oneMegabyte) [.arrive 0 (fun _ => 0) exampleArgs (exampleFragment 1 0x01)]
    (fun _ s => hasArrivedAt 0 s) = true by decide +kernel)
  obtain ⟨datagrams, howned, -⟩ := owned_of_run oneMegabyte_ready hrun
  obtain ⟨i, hlive, hstamp⟩ := of_decide_eq_true hcheck
  exact ⟨os, s, hrun, howned.not_sweepsExactly oneMegabyte_ready
    ⟨i, hlive, hstamp, by decide⟩⟩

end NatBox
