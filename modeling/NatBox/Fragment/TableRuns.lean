import NatBox.Box
import NatBox.Fragment.Table
import NatBox.Lib.LivePrefix
import NatBox.Lib.Runs

/-
Runs of the reassembly table.

`reassembly_tab_size` always counts the live entries, and a free slot is always found.
A lookup walks only the first `reassembly_tab_size` slots, so it sees every live entry
as long as the live ones are the first of the table.  Freeing a slot below a live one
breaks that for good: `tableInvariant_iff` says that nothing else does.
-/

namespace NatBox

open Runs LivePrefix

namespace ReassemblyTable

/-- The number of entries with a fragment list. -/
def liveCount (st : ReassemblyTable) : Nat := st.table.toList.countP (·.isLive)

end ReassemblyTable

/-- What the table promises its users. -/
structure TableInvariant (st : ReassemblyTable) : Prop where
  tabSize_eq : st.tabSize.toNat = st.liveCount
  tabSize_le : st.tabSize.toNat ≤ reassemblyTableMaxSize
  findHole_eq_none : findHole st = none ↔ ∀ i, (st.entry i).isLive = true
  lookup : ∀ src dest identif,
    (∃ i, (st.entry i).isLive = true ∧ (st.entry i).hasKey src dest identif = true) →
    ∃ i, checkReassemblyTable st src dest identif = some i ∧
      (st.entry i).isLive = true ∧ (st.entry i).hasKey src dest identif = true

inductive TableEvent
  | arrive (clktime : UInt32) (block : Mem) (pkt : NetPacket)
  | sweep (clktime : UInt32)

/-- The arrival of a fragment or a time-out sweep. -/
def tableStep (st : ReassemblyTable) : TableEvent →
    Except Fault (Option Datagram × ReassemblyTable)
  | .arrive clktime block pkt => reassembly st clktime block pkt
  | .sweep clktime => .ok (none, checkReassemblyTimeOut st clktime)

/-- The event frees slot `i`. -/
def frees (st : ReassemblyTable) : TableEvent → Fin reassemblyTableMaxSize → Bool
  | .arrive _ _ pkt, i => completes st pkt i
  | .sweep clktime, i => (st.entry i).timedOut clktime

/-- The event frees no slot below one that stays live. -/
def FreesFromTop (st : ReassemblyTable) (e : TableEvent) : Prop :=
  ∀ i j, i < j → frees st e i = true → (st.entry j).isLive = true → frees st e j = true

/-! ## Counting -/

/-- The size is the number of live entries, and the others carry no time stamp. -/
structure TableCounts (st : ReassemblyTable) : Prop where
  tabSize_eq : st.tabSize.toNat = st.liveCount
  timestamp : ∀ i, (st.entry i).isLive = false → (st.entry i).timestamp = 0

section Counts

variable {st : ReassemblyTable} {i : Fin reassemblyTableMaxSize} {e : ReassemblyEntry}

theorem length_toList_table (st : ReassemblyTable) :
    st.table.toList.length = reassemblyTableMaxSize :=
  Vector.length_toList

theorem isLt_toList_table (st : ReassemblyTable) (i : Fin reassemblyTableMaxSize) :
    i.val < st.table.toList.length := by
  rw [length_toList_table]
  exact i.isLt

theorem getElem_toList_table (st : ReassemblyTable) (i : Fin reassemblyTableMaxSize)
    (hi : i.val < st.table.toList.length) : st.table.toList[i.val] = st.entry i := by
  simp only [Vector.getElem_toList]
  rfl

theorem liveCount_le (st : ReassemblyTable) : st.liveCount ≤ reassemblyTableMaxSize := by
  have h := List.countP_le_length (p := ReassemblyEntry.isLive) (l := st.table.toList)
  rwa [length_toList_table] at h

theorem toList_setEntry (st : ReassemblyTable) (i : Fin reassemblyTableMaxSize)
    (e : ReassemblyEntry) : (st.setEntry i e).table.toList = st.table.toList.set i.val e :=
  Vector.toList_set i.isLt

theorem liveCount_setEntry_of_not (h : (st.entry i).isLive = false) (he : e.isLive = true) :
    (st.setEntry i e).liveCount = st.liveCount + 1 := by
  rw [ReassemblyTable.liveCount, toList_setEntry]
  exact countP_set_of_not (isLt_toList_table st i) h he

theorem liveCount_setEntry_of_live (h : (st.entry i).isLive = true) (he : e.isLive = false) :
    (st.setEntry i e).liveCount + 1 = st.liveCount := by
  rw [ReassemblyTable.liveCount, toList_setEntry]
  exact countP_set_of_live (isLt_toList_table st i) h he

theorem liveCount_setEntry_of_eq (h : e.isLive = (st.entry i).isLive) :
    (st.setEntry i e).liveCount = st.liveCount := by
  rw [ReassemblyTable.liveCount, toList_setEntry]
  exact countP_set_of_eq (isLt_toList_table st i) h

theorem liveCount_pos (h : (st.entry i).isLive = true) : 0 < st.liveCount :=
  List.countP_pos_iff.mpr ⟨_, List.getElem_mem (isLt_toList_table st i), h⟩

theorem liveCount_lt (h : (st.entry i).isLive = false) : st.liveCount < reassemblyTableMaxSize := by
  have hle := liveCount_le st
  rcases Nat.lt_or_eq_of_le hle with hlt | heq
  · exact hlt
  · have hall := List.countP_eq_length.mp (heq.trans (length_toList_table st).symm)
    have hlive := hall _ (List.getElem_mem (isLt_toList_table st i))
    rw [getElem_toList_table, h] at hlive
    cases hlive

end Counts

/-! ## Liveness and keys after a step -/

section Steps

variable {st : ReassemblyTable} {i j : Fin reassemblyTableMaxSize}

/-- What identifies the datagram of an entry. -/
def ReassemblyEntry.key (e : ReassemblyEntry) : Ipv6Addr × Ipv6Addr × UInt32 :=
  (e.srcAddr, e.destAddr, e.identif)

theorem hasKey_iff_key {e : ReassemblyEntry} {src dest : Ipv6Addr} {identif : UInt32} :
    e.hasKey src dest identif = true ↔ e.key = (src, dest, identif) := by
  rw [hasKey_iff, ReassemblyEntry.key, Prod.mk.injEq, Prod.mk.injEq]

theorem checkReassemblyTable_some {src dest : Ipv6Addr} {identif : UInt32}
    (h : checkReassemblyTable st src dest identif = some i) :
    i.val < st.tabSize.toNat ∧ (st.entry i).isLive = true ∧
      (st.entry i).key = (src, dest, identif) := by
  have hp := List.find?_some h
  rw [Bool.and_eq_true, hasKey_iff_key] at hp
  refine ⟨?_, hp⟩
  obtain ⟨k, hk, hki⟩ := List.mem_take_iff_getElem.mp (List.mem_of_find?_eq_some h)
  rw [List.getElem_finRange] at hki
  rw [← hki]
  exact Nat.lt_of_lt_of_le hk (Nat.min_le_left _ _)

/-- A lookup that fails has seen every live entry among the first ones. -/
theorem checkReassemblyTable_none {src dest : Ipv6Addr} {identif : UInt32}
    (h : checkReassemblyTable st src dest identif = none) (hi : i.val < st.tabSize.toNat)
    (hl : (st.entry i).isLive = true) : (st.entry i).key ≠ (src, dest, identif) := by
  have hmem : i ∈ (List.finRange reassemblyTableMaxSize).take st.tabSize.toNat := by
    rw [List.mem_take_iff_getElem]
    refine ⟨i.val, ?_, List.getElem_finRange _⟩
    rw [List.length_finRange]
    exact Nat.lt_min.mpr ⟨hi, i.isLt⟩
  have hp := List.find?_eq_none.mp h i hmem
  rw [Bool.and_eq_true, hl, hasKey_iff_key] at hp
  exact fun hk => hp ⟨rfl, hk⟩

theorem findHole_some (h : findHole st = some i) :
    (st.entry i).isLive = false ∧
      ∀ j, j < i → (st.entry j).isLive = true ∨ (st.entry j).timestamp ≠ 0 := by
  rw [findHole, List.find?_eq_some_iff_getElem] at h
  obtain ⟨hp, k, hk, hki, hbefore⟩ := h
  rw [List.getElem_finRange] at hki
  subst hki
  rw [Bool.and_eq_true, Bool.not_eq_true'] at hp
  refine ⟨hp.1, fun j hj => ?_⟩
  have hj' := hbefore j.val hj
  rw [List.getElem_finRange] at hj'
  by_cases hl : (st.entry j).isLive = true
  · exact Or.inl hl
  · right
    intro hz
    rw [Bool.not_eq_true] at hl
    simp [hl, hz] at hj'

theorem findHole_eq_none_iff (hc : TableCounts st) :
    findHole st = none ↔ ∀ i, (st.entry i).isLive = true := by
  rw [findHole, List.find?_eq_none]
  constructor
  · intro h i
    by_contra hl
    rw [Bool.not_eq_true] at hl
    apply h i (List.mem_finRange i)
    rw [hl, hc.timestamp i hl]
    rfl
  · intro h i _
    rw [h i]
    simp

theorem isLive_insertFragList (st : ReassemblyTable) (i j : Fin reassemblyTableMaxSize)
    (pkt : NetPacket) :
    ((insertFragList st i pkt).entry j).isLive = (st.entry j).isLive ∧
      ((insertFragList st i pkt).entry j).key = (st.entry j).key ∧
      ((insertFragList st i pkt).entry j).timestamp = (st.entry j).timestamp := by
  by_cases hij : j = i
  · subst hij
    rw [insertFragList, ReassemblyTable.entry_setEntry_self]
    refine ⟨?_, rfl, rfl⟩
    show Option.isSome (Option.map _ _) = _
    rw [Option.isSome_map]
    rfl
  · rw [insertFragList, ReassemblyTable.entry_setEntry_ne _ _ _ hij]
    exact ⟨rfl, rfl, rfl⟩

theorem TableCounts.insertFragList (hc : TableCounts st) (i : Fin reassemblyTableMaxSize)
    (pkt : NetPacket) : TableCounts (insertFragList st i pkt) where
  tabSize_eq := by
    have heq := (isLive_insertFragList st i i pkt).1
    rw [NatBox.insertFragList, ReassemblyTable.entry_setEntry_self] at heq
    rw [NatBox.insertFragList, liveCount_setEntry_of_eq heq]
    exact hc.tabSize_eq
  timestamp j hj := by
    obtain ⟨hl, -, ht⟩ := isLive_insertFragList st i j pkt
    rw [ht]
    exact hc.timestamp j (hl.symm.trans hj)

theorem TableCounts.removeReaEntry (hc : TableCounts st) (hl : (st.entry i).isLive = true) :
    TableCounts (removeReaEntry st i) where
  tabSize_eq := by
    have hsize := hc.tabSize_eq
    have hcount := liveCount_setEntry_of_live (e := (st.entry i).removed) hl rfl
    have hpos := liveCount_pos hl
    show (st.tabSize - 1).toNat = (st.setEntry i (st.entry i).removed).liveCount
    rw [UInt8.toNat_sub_of_le _ _ (UInt8.le_iff_toNat_le.mpr (by rw [hsize]; exact hpos)), hsize]
    exact (Nat.eq_sub_of_add_eq hcount).symm
  timestamp j hj := by
    by_cases hij : j = i
    · subst hij
      rw [entry_removeReaEntry_self]
      rfl
    · rw [entry_removeReaEntry_ne st hij] at hj ⊢
      exact hc.timestamp j hj

theorem TableCounts.sweep (hc : TableCounts st) (clktime : UInt32) :
    TableCounts (checkReassemblyTimeOut st clktime) := by
  have hfold : ∀ (l : List (Fin reassemblyTableMaxSize)) (st : ReassemblyTable),
      TableCounts st → TableCounts (l.foldl (fun st i =>
        if (st.entry i).timedOut clktime then NatBox.removeReaEntry st i else st) st) := by
    intro l
    induction l with
    | nil => exact fun _ h => h
    | cons i l ih =>
      intro st h
      apply ih
      show TableCounts (if (st.entry i).timedOut clktime then NatBox.removeReaEntry st i else st)
      split
      · rename_i ht
        apply h.removeReaEntry
        rw [ReassemblyEntry.timedOut, Bool.and_eq_true, Bool.and_eq_true] at ht
        exact ht.1.1
      · exact h
  exact hfold _ st hc

theorem TableCounts.appendReaTable (hc : TableCounts st) (clktime : UInt32) (pkt : NetPacket) :
    TableCounts (appendReaTable st clktime pkt) := by
  rw [NatBox.appendReaTable]
  cases hh : findHole st with
  | none => exact hc
  | some i =>
    obtain ⟨hl, -⟩ := findHole_some hh
    have hlt := liveCount_lt hl
    constructor
    · show (st.tabSize + 1).toNat = (st.setEntry i (newReassemblyEntry clktime pkt)).liveCount
      rw [liveCount_setEntry_of_not hl rfl, ← hc.tabSize_eq, UInt8.toNat_add]
      have hsize := hc.tabSize_eq
      have h16 : reassemblyTableMaxSize = 16 := rfl
      simp only [UInt8.reduceToNat]
      omega
    · intro j hj
      have hj' : ((st.setEntry i (newReassemblyEntry clktime pkt)).entry j).isLive = false := hj
      show ((st.setEntry i (newReassemblyEntry clktime pkt)).entry j).timestamp = 0
      by_cases hij : j = i
      · subst hij
        rw [ReassemblyTable.entry_setEntry_self] at hj'
        cases hj'
      · rw [ReassemblyTable.entry_setEntry_ne _ _ _ hij] at hj' ⊢
        exact hc.timestamp j hj'

end Steps

theorem TableCounts.step {st st' : ReassemblyTable} (hc : TableCounts st) {e : TableEvent}
    {o : Option Datagram} (h : tableStep st e = .ok (o, st')) : TableCounts st' := by
  cases e with
  | sweep clktime =>
    rw [tableStep, Except.ok.injEq, Prod.mk.injEq] at h
    rw [← h.2]
    exact hc.sweep clktime
  | arrive clktime block pkt =>
    rcases reassembly_cases h with ⟨-, -, rfl | rfl⟩ | ⟨i, hi, ⟨-, -, rfl⟩ | ⟨-, -, rfl⟩⟩
    · exact hc
    · exact hc.appendReaTable clktime pkt
    · exact hc.insertFragList i pkt
    · refine (hc.insertFragList i pkt).removeReaEntry ?_
      rw [(isLive_insertFragList st i i pkt).1]
      exact (checkReassemblyTable_some hi).2.1

theorem tableCounts_init : TableCounts ReassemblyTable.init where
  tabSize_eq := by decide
  timestamp := by decide

theorem tableCounts_of_run {tr : List (TableEvent × Option Datagram)} {st : ReassemblyTable}
    (h : Run tableStep ReassemblyTable.init tr st) : TableCounts st :=
  h.invariant (I := fun _ st => TableCounts st) tableCounts_init fun _ _ _ _ _ hI hs => hI.step hs

/-! ## The live entries come first -/

/-- Lookups see every live entry: the live ones come first and differ in their keys. -/
structure TableOrdered (st : ReassemblyTable) : Prop where
  counts : TableCounts st
  live : Live ReassemblyEntry.isLive st.table.toList
  unique : ∀ i j, (st.entry i).isLive = true → (st.entry j).isLive = true →
    (st.entry i).key = (st.entry j).key → i = j

section Order

variable {st st' : ReassemblyTable}

theorem live_iff_entry : Live ReassemblyEntry.isLive st.table.toList ↔
    ∀ i j, i < j → (st.entry j).isLive = true → (st.entry i).isLive = true := by
  constructor
  · intro h i j hij hj
    rw [← getElem_toList_table _ _ (isLt_toList_table _ _)] at hj ⊢
    exact h i.val j.val hij (isLt_toList_table st j) hj
  · intro h i j hij hj hp
    have hj16 : j < reassemblyTableMaxSize := by rwa [length_toList_table] at hj
    have hpair := h ⟨i, Nat.lt_trans hij hj16⟩ ⟨j, hj16⟩ hij
    rw [← getElem_toList_table _ _ (isLt_toList_table _ _),
      ← getElem_toList_table _ _ (isLt_toList_table _ _)] at hpair
    exact hpair hp

theorem TableOrdered.isLive_iff (h : TableOrdered st) (i : Fin reassemblyTableMaxSize) :
    (st.entry i).isLive = true ↔ i.val < st.tabSize.toNat := by
  rw [h.counts.tabSize_eq, ← getElem_toList_table _ _ (isLt_toList_table _ _)]
  exact h.live.lt_countP_iff i.val (isLt_toList_table st i)

/-- An ordered table keeps all its promises. -/
theorem TableOrdered.invariant (h : TableOrdered st) : TableInvariant st where
  tabSize_eq := h.counts.tabSize_eq
  tabSize_le := by
    rw [h.counts.tabSize_eq]
    exact liveCount_le st
  findHole_eq_none := findHole_eq_none_iff h.counts
  lookup src dest identif hex := by
    obtain ⟨i, hl, hk⟩ := hex
    cases hc : checkReassemblyTable st src dest identif with
    | none =>
      rw [hasKey_iff_key] at hk
      exact absurd hk (checkReassemblyTable_none hc ((h.isLive_iff i).mp hl) hl)
    | some j =>
      obtain ⟨-, hl', hk'⟩ := checkReassemblyTable_some hc
      exact ⟨j, rfl, hl', hasKey_iff_key.mpr hk'⟩

/-- Starting an entry fills the first slot that is not live. -/
theorem TableOrdered.appendReaTable (h : TableOrdered st) {clktime : UInt32} {pkt : NetPacket}
    (hc : checkReassemblyTable st pkt.ip.src pkt.ip.dest pkt.fragIdentif = none) :
    TableOrdered (appendReaTable st clktime pkt) := by
  have hcounts := h.counts.appendReaTable clktime pkt
  cases hh : findHole st with
  | none =>
    rw [NatBox.appendReaTable, hh]
    exact h
  | some i =>
    obtain ⟨hi, hbefore⟩ := findHole_some hh
    have hentry := entry_appendReaTable hh clktime pkt
    have hfresh : ∀ j, (st.entry j).isLive = true →
        (st.entry j).key ≠ (newReassemblyEntry clktime pkt).key := fun j hl =>
      checkReassemblyTable_none hc ((h.isLive_iff j).mp hl) hl
    refine ⟨hcounts, live_iff_entry.mpr ?_, ?_⟩
    · intro a b hab hb
      rw [hentry] at hb ⊢
      by_cases ha : a = i
      · rw [if_pos ha]
        rfl
      · rw [if_neg ha]
        by_cases hbi : b = i
        · rw [hbi] at hab
          by_contra hl
          rw [Bool.not_eq_true] at hl
          exact (hbefore a hab).elim (fun hl' => by rw [hl] at hl'; cases hl')
            fun ht => ht (h.counts.timestamp a hl)
        · rw [if_neg hbi] at hb
          exact live_iff_entry.mp h.live a b hab hb
    · intro a b ha hb hkey
      rw [hentry] at ha hb hkey
      rw [hentry] at hkey
      by_cases hai : a = i
      · by_cases hbi : b = i
        · rw [hai, hbi]
        · rw [if_neg hbi] at hb hkey
          rw [if_pos hai] at hkey
          exact absurd hkey.symm (hfresh b hb)
      · rw [if_neg hai] at ha hkey
        by_cases hbi : b = i
        · rw [if_pos hbi] at hkey
          exact absurd hkey (hfresh a ha)
        · rw [if_neg hbi] at hb hkey
          exact h.unique a b ha hb hkey

/-- A step that starts no entry: `freed` says which slots it frees. -/
structure OnlyFrees (st st' : ReassemblyTable) (freed : Fin reassemblyTableMaxSize → Bool) :
    Prop where
  isLive : ∀ i, (st'.entry i).isLive = ((st.entry i).isLive && !freed i)
  key : ∀ i, (st'.entry i).key = (st.entry i).key
  freed_live : ∀ i, freed i = true → (st.entry i).isLive = true

theorem TableOrdered.onlyFrees (h : TableOrdered st) (hc : TableCounts st')
    {freed : Fin reassemblyTableMaxSize → Bool} (hf : OnlyFrees st st' freed)
    (htop : ∀ i j, i < j → freed i = true → (st.entry j).isLive = true → freed j = true) :
    TableOrdered st' where
  counts := hc
  live := by
    rw [live_iff_entry]
    intro i j hij hj
    rw [hf.isLive, Bool.and_eq_true, Bool.not_eq_true'] at hj ⊢
    refine ⟨live_iff_entry.mp h.live i j hij hj.1, ?_⟩
    by_contra hi
    rw [Bool.not_eq_false] at hi
    rw [htop i j hij hi hj.1] at hj
    cases hj.2
  unique i j hi hj hkey := by
    rw [hf.isLive, Bool.and_eq_true] at hi hj
    rw [hf.key, hf.key] at hkey
    exact h.unique i j hi.1 hj.1 hkey

/-- A slot freed below one that stays live hides the upper one. -/
theorem TableOrdered.not_invariant (h : TableOrdered st)
    {freed : Fin reassemblyTableMaxSize → Bool} (hf : OnlyFrees st st' freed)
    (hbad : ¬ ∀ i j, i < j → freed i = true → (st.entry j).isLive = true → freed j = true) :
    ¬ TableInvariant st' := by
  intro hinv
  have hseen : ∀ j, (st'.entry j).isLive = true → j.val < st'.tabSize.toNat := by
    intro j hj
    obtain ⟨i, hi, hl, hk⟩ := hinv.lookup _ _ _ ⟨j, hj, hasKey_iff_key.mpr rfl⟩
    have hij : i = j := by
      rw [hf.isLive, Bool.and_eq_true] at hl hj
      rw [hasKey_iff_key] at hk
      apply h.unique i j hl.1 hj.1
      rw [← hf.key, ← hf.key]
      exact hk
    rw [← hij]
    exact (checkReassemblyTable_some hi).1
  have hlive : Live ReassemblyEntry.isLive st'.table.toList := by
    apply Live.of_lt_countP
    intro j hj hp
    have hj16 : j < reassemblyTableMaxSize := by rwa [length_toList_table] at hj
    have := hseen ⟨j, hj16⟩ (by rw [← getElem_toList_table _ _ (isLt_toList_table _ _)]; exact hp)
    rwa [hinv.tabSize_eq] at this
  apply hbad
  intro i j hij hi hj
  by_contra hfj
  rw [Bool.not_eq_true] at hfj
  have hj' : (st'.entry j).isLive = true := by
    rw [hf.isLive, hj, hfj]
    rfl
  have hi' := live_iff_entry.mp hlive i j hij hj'
  rw [hf.isLive, hi, Bool.not_true, Bool.and_false] at hi'
  cases hi'

end Order

/-! ## Steps -/

section

variable {st st' : ReassemblyTable} {o : Option Datagram}

theorem onlyFrees_sweep (st : ReassemblyTable) (clktime : UInt32) :
    OnlyFrees st (checkReassemblyTimeOut st clktime) (frees st (.sweep clktime)) where
  isLive i := by
    rw [entry_checkReassemblyTimeOut, frees]
    by_cases ht : (st.entry i).timedOut clktime = true
    · rw [if_pos ht, ht, Bool.not_true, Bool.and_false]
      rfl
    · rw [if_neg ht]
      rw [Bool.not_eq_true] at ht
      rw [ht, Bool.not_false, Bool.and_true]
  key i := by
    rw [entry_checkReassemblyTimeOut]
    split
    · rfl
    · rfl
  freed_live i hi := by
    rw [frees, ReassemblyEntry.timedOut, Bool.and_eq_true, Bool.and_eq_true] at hi
    exact hi.1.1

/-- A packet that frees a slot is the last of the datagram found there. -/
theorem completes_eq_false {pkt : NetPacket} {i j : Fin reassemblyTableMaxSize}
    (hc : checkReassemblyTable st pkt.ip.src pkt.ip.dest pkt.fragIdentif = some i) (hij : j ≠ i) :
    completes st pkt j = false := by
  rw [completes, hc]
  simp [Ne.symm hij]

theorem isLive_of_completes {pkt : NetPacket} {i j : Fin reassemblyTableMaxSize}
    (hc : checkReassemblyTable st pkt.ip.src pkt.ip.dest pkt.fragIdentif = some i)
    (hj : completes st pkt j = true) : (st.entry j).isLive = true := by
  by_cases hij : j = i
  · rw [hij]
    exact (checkReassemblyTable_some hc).2.1
  · rw [completes_eq_false hc hij] at hj
    cases hj

theorem onlyFrees_insert {pkt : NetPacket} {i : Fin reassemblyTableMaxSize}
    (hc : checkReassemblyTable st pkt.ip.src pkt.ip.dest pkt.fragIdentif = some i)
    (hcomp : completes st pkt i = false) (clktime : UInt32) (block : Mem) :
    OnlyFrees st (insertFragList st i pkt) (frees st (.arrive clktime block pkt)) where
  isLive j := by
    have hj : completes st pkt j = false := by
      by_cases hij : j = i
      · rw [hij]
        exact hcomp
      · exact completes_eq_false hc hij
    rw [(isLive_insertFragList st i j pkt).1, frees, hj, Bool.not_false, Bool.and_true]
  key j := (isLive_insertFragList st i j pkt).2.1
  freed_live _ hj := isLive_of_completes hc hj

theorem onlyFrees_complete {pkt : NetPacket} {i : Fin reassemblyTableMaxSize}
    (hc : checkReassemblyTable st pkt.ip.src pkt.ip.dest pkt.fragIdentif = some i)
    (hcomp : completes st pkt i = true) (clktime : UInt32) (block : Mem) :
    OnlyFrees st (removeReaEntry (insertFragList st i pkt) i)
      (frees st (.arrive clktime block pkt)) where
  isLive j := by
    by_cases hij : j = i
    · rw [hij, entry_removeReaEntry_self, frees, hcomp, Bool.not_true, Bool.and_false]
      rfl
    · rw [entry_removeReaEntry_ne _ hij, (isLive_insertFragList st i j pkt).1, frees,
        completes_eq_false hc hij, Bool.not_false, Bool.and_true]
  key j := by
    by_cases hij : j = i
    · rw [hij, entry_removeReaEntry_self]
      exact (isLive_insertFragList st i i pkt).2.1
    · rw [entry_removeReaEntry_ne _ hij]
      exact (isLive_insertFragList st i j pkt).2.1
  freed_live _ hj := isLive_of_completes hc hj

/-- A step starts an entry, or frees the slots `frees` says and starts none. -/
theorem tableStep_cases {e : TableEvent} (h : tableStep st e = .ok (o, st')) :
    (∃ clktime block pkt, e = .arrive clktime block pkt ∧
      checkReassemblyTable st pkt.ip.src pkt.ip.dest pkt.fragIdentif = none ∧
      (st' = st ∨ st' = appendReaTable st clktime pkt)) ∨
    OnlyFrees st st' (frees st e) := by
  cases e with
  | sweep clktime =>
    rw [tableStep, Except.ok.injEq, Prod.mk.injEq] at h
    rw [← h.2]
    exact Or.inr (onlyFrees_sweep st clktime)
  | arrive clktime block pkt =>
    rcases reassembly_cases h with ⟨hc, -, hst⟩ | ⟨i, hi, ⟨hcomp, -, rfl⟩ | ⟨hcomp, -, rfl⟩⟩
    · exact Or.inl ⟨clktime, block, pkt, rfl, hc, hst⟩
    · exact Or.inr (onlyFrees_insert hi hcomp clktime block)
    · exact Or.inr (onlyFrees_complete hi hcomp clktime block)

theorem TableOrdered.step (h : TableOrdered st) {e : TableEvent}
    (hs : tableStep st e = .ok (o, st')) (htop : FreesFromTop st e) : TableOrdered st' := by
  rcases tableStep_cases hs with ⟨clktime, block, pkt, rfl, hc, rfl | rfl⟩ | hf
  · exact h
  · exact h.appendReaTable hc
  · exact h.onlyFrees (h.counts.step hs) hf htop

/-- A packet that no entry was found for frees nothing. -/
theorem freesFromTop_of_none {clktime : UInt32} {block : Mem} {pkt : NetPacket}
    (hc : checkReassemblyTable st pkt.ip.src pkt.ip.dest pkt.fragIdentif = none) :
    FreesFromTop st (.arrive clktime block pkt) := by
  intro i j _ hi _
  rw [frees, completes, hc] at hi
  simp at hi

end

theorem tableOrdered_init : TableOrdered ReassemblyTable.init where
  counts := tableCounts_init
  live := by
    rw [live_iff_entry]
    decide
  unique := by decide

/-- Every state of a run keeps the promises of the table exactly when no step of the run
frees a slot below one that stays live. -/
theorem tableInvariant_iff {tr : List (TableEvent × Option Datagram)} {st : ReassemblyTable}
    (hrun : Run tableStep ReassemblyTable.init tr st) :
    AllStates tableStep ReassemblyTable.init (fun _ st => TableInvariant st) tr ↔
      AllSteps tableStep ReassemblyTable.init (fun st e _ => FreesFromTop st e) tr := by
  refine allStates_iff_allSteps (I := fun _ st => TableOrdered st) tableOrdered_init
    (fun _ _ _ _ _ h hs htop => h.step hs htop) (fun _ _ h => h.invariant) ?_ hrun
  intro _ st e o st' h hs hbad
  rcases tableStep_cases hs with ⟨clktime, block, pkt, rfl, hc, -⟩ | hf
  · exact absurd (freesFromTop_of_none hc) hbad
  · exact h.not_invariant hf hbad

/-- A fragment of eight bytes of datagram `identif` at `offset`, its lowest bit the M
flag. -/
def exampleFragment (identif offset : UInt8) : NetPacket :=
  let pkt := examplePacket exampleHost exampleServer
    ([ipv6Icmp, 0, 0, offset, 0, 0, 0, identif] ++ [1, 2, 3, 4, 5, 6, 7, 8])
  { pkt with ip := { pkt.ip with nextHeader := ipv6Frag } }

/-- The first fragment of one datagram. -/
theorem tableInvariant_first_fragment :
    AllStates tableStep ReassemblyTable.init (fun _ st => TableInvariant st)
      [(.arrive 1 (fun _ => 0) (exampleFragment 1 0x01), none)] := by
  have hnone : checkReassemblyTable ReassemblyTable.init (exampleFragment 1 0x01).ip.src
      (exampleFragment 1 0x01).ip.dest (exampleFragment 1 0x01).fragIdentif = none := by
    decide +kernel
  have hoff : (exampleFragment 1 0x01).fragOffset &&& 0xFFFE = 0 := by decide +kernel
  have hstep : tableStep ReassemblyTable.init (.arrive 1 (fun _ => 0) (exampleFragment 1 0x01)) =
      .ok (none, appendReaTable ReassemblyTable.init 1 (exampleFragment 1 0x01)) := by
    rw [tableStep, reassembly, hnone]
    simp [hoff]
  apply (tableInvariant_iff (Run.next .start hstep)).mpr
  exact allSteps_nil.next .start hstep (freesFromTop_of_none hnone)

/-- Two datagrams in the table, the lower one completed: the upper one is not found any
more. -/
theorem tableInvariant_fails_lower_completed :
    ∃ os st, Run tableStep ReassemblyTable.init
      ([.arrive 1 (fun _ => 0) (exampleFragment 1 0x01),
        .arrive 1 (fun _ => 0) (exampleFragment 2 0x01),
        .arrive 1 (fun _ => 0) (exampleFragment 1 0x08)].zip os) st ∧ ¬ TableInvariant st := by
  have hend : (match exec tableStep ReassemblyTable.init
      [.arrive 1 (fun _ => 0) (exampleFragment 1 0x01),
        .arrive 1 (fun _ => 0) (exampleFragment 2 0x01),
        .arrive 1 (fun _ => 0) (exampleFragment 1 0x08)] with
      | .error _ => false
      | .ok (_, st) => (checkReassemblyTable st exampleHost exampleServer 2).isNone &&
          (st.entry 1).isLive && (st.entry 1).hasKey exampleHost exampleServer 2) = true := by
    decide +kernel
  rcases hx : exec tableStep ReassemblyTable.init
      [.arrive 1 (fun _ => 0) (exampleFragment 1 0x01),
        .arrive 1 (fun _ => 0) (exampleFragment 2 0x01),
        .arrive 1 (fun _ => 0) (exampleFragment 1 0x08)] with f | ⟨os, st⟩
  · simp [hx] at hend
  · simp only [hx, Bool.and_eq_true, Option.isNone_iff_eq_none] at hend
    refine ⟨os, st, (run_of_exec hx).2, fun hinv => ?_⟩
    obtain ⟨i, hi, -⟩ := hinv.lookup _ _ _ ⟨1, hend.1.2, hend.2⟩
    rw [hend.1.1] at hi
    cases hi

end NatBox
