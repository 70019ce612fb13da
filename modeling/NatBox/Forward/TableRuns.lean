import NatBox.Box
import NatBox.Forward.LongestPrefix
import NatBox.Lib.LivePrefix
import NatBox.Lib.Runs

/-
What a sequence of insertions leaves in the forwarding table.

As a list of the entries that were inserted, in the order of the calls, the table is
that list sorted stably by decreasing prefix length, with the free entries behind it:
`FwdTable.Records`.  An insertion adds its entry to the list, or finds all entries in
use and adds nothing.
-/

namespace NatBox

open Runs LivePrefix

def FwdTabEntry.inUse (e : FwdTabEntry) : Bool := e.ttl ≠ 0

/-- The entry a call with these arguments writes. -/
def Route.entry (r : Route) : FwdTabEntry := newEntry r.ipAddr r.prefixLen r.nextHop r.interface

/-- One call of `insertNewFwdTabEntry`. -/
def insertStep (t : FwdTable) (r : Route) : Except Fault (Int × FwdTable) :=
  .ok (insertNewFwdTabEntry t r.ipAddr r.prefixLen r.nextHop r.interface)

/-- The entries of the calls that returned 1. -/
def insertedBy (calls : List (Route × Int)) : List FwdTabEntry :=
  (calls.filter fun c => c.2 = 1).map fun c => c.1.entry

/-- The table holds the entries of `ins`, inserted in this order. -/
structure FwdTable.Records (t : FwdTable) (ins : List FwdTabEntry) : Prop where
  sorted : t.entries.Pairwise fun a b => b.prefixLen.toNat ≤ a.prefixLen.toNat
  inUseFirst : t.entries =
    t.entries.filter FwdTabEntry.inUse ++ t.entries.filter fun e => !e.inUse
  perm : (t.entries.filter FwdTabEntry.inUse).Perm ins
  inOrder : ∀ len : UInt8, (t.entries.filter FwdTabEntry.inUse).filter (·.prefixLen = len) =
    ins.filter (·.prefixLen = len)

theorem FwdTable.entries_perm (t : FwdTable) : t.entries.Perm t.fwdTab.toList := by
  have hall : (List.finRange maxFwdTabEntries).map (fun p => t.fwdTab[p]) = t.fwdTab.toList := by
    refine List.ext_getElem (by simp) fun i hi hi' => ?_
    simp
  rw [← hall]
  exact t.perm.map _

/-- Every entry is in use or every search for a free one succeeds. -/
theorem FwdTable.countP_inUse_eq_iff (t : FwdTable) :
    t.fwdTab.toList.countP FwdTabEntry.inUse = maxFwdTabEntries ↔ ∀ e ∈ t.entries, e.ttl ≠ 0 := by
  rw [← t.entries_perm.countP_eq, ← t.length_entries, List.countP_eq_length]
  simp [FwdTabEntry.inUse]

/-- Sorted entries of which those with a prefix are in use. -/
theorem FwdTable.Searchable.live {t : FwdTable} (ht : t.Searchable) :
    Live FwdTabEntry.inUse t.entries := by
  intro i j hij hj hp
  have hi : i < t.entries.length := Nat.lt_trans hij hj
  have hle := List.pairwise_iff_getElem.mp ht.sorted i j hi hj hij
  have hu : t.entries[j].prefixLen ≠ 0 :=
    (ht.inUse _ (List.getElem_mem hj)).mp (by simpa [FwdTabEntry.inUse] using hp)
  have hne : t.entries[i].prefixLen ≠ 0 := by
    intro hz
    rw [hz] at hle
    exact hu (UInt8.toNat_inj.mp (Nat.le_zero.mp hle))
  simpa [FwdTabEntry.inUse] using (ht.inUse _ (List.getElem_mem hi)).mpr hne

/-! ## One insertion -/

section Insert

variable {t : FwdTable} (ht : t.Searchable) (hfree : ∃ e ∈ t.entries, e.ttl = 0) (r : Route)

include ht hfree

/-- The entries before the sort: those that a predicate picks among the ones in use keep
their order and the new one comes last. -/
theorem insertRoute_of_free :
    (insertNewFwdTabEntry t r.ipAddr r.prefixLen r.nextHop r.interface).1 = 1 ∧
    ∃ es, (insertRoute t r).entries =
        BubbleSort.bubbleSort (fun e => e.prefixLen.toNat) (maxFwdTabEntries - 1) es ∧
      ∀ q : FwdTabEntry → Bool, (∀ e, q e = true → e.inUse = true) →
        es.filter q = t.entries.filter q ++ [r.entry].filter q := by
  obtain ⟨index, hi, hz, -, hret, hent⟩ :=
    insert_free hfree r.ipAddr r.prefixLen r.nextHop r.interface
  refine ⟨hret, _, hent, fun q hq => ?_⟩
  exact ht.live.filter_set hi (by simp [FwdTabEntry.inUse, hz]) q hq r.entry

theorem filter_inUse_insertRoute :
    ((insertRoute t r).entries.filter FwdTabEntry.inUse).Perm
      (t.entries.filter FwdTabEntry.inUse ++ [r.entry]) := by
  obtain ⟨-, es, hent, hq⟩ := insertRoute_of_free ht hfree r
  rw [hent]
  refine ((BubbleSort.bubbleSort_perm _ _ _).filter _).trans (List.Perm.of_eq ?_)
  rw [hq _ fun _ h => h]
  rfl

theorem filter_prefixLen_insertRoute (len : UInt8) :
    ((insertRoute t r).entries.filter FwdTabEntry.inUse).filter (·.prefixLen = len) =
      (t.entries.filter FwdTabEntry.inUse).filter (·.prefixLen = len) ++
        [r.entry].filter (·.prefixLen = len) := by
  obtain ⟨-, es, hent, hq⟩ := insertRoute_of_free ht hfree r
  have hnew : [r.entry].filter (fun e => (e.prefixLen = len : Bool) && e.inUse) =
      [r.entry].filter (·.prefixLen = len) :=
    List.filter_congr fun e he => by
      rw [List.mem_singleton.mp he]
      exact Bool.and_true _
  have hkey : ∀ a b : FwdTabEntry, ((a.prefixLen = len : Bool) && a.inUse) = true →
      ((b.prefixLen = len : Bool) && b.inUse) = true → a.prefixLen.toNat = b.prefixLen.toNat := by
    intro a b ha hb
    simp only [Bool.and_eq_true, decide_eq_true_eq] at ha hb
    rw [ha.1, hb.1]
  rw [List.filter_filter, hent, BubbleSort.bubbleSort_filter _ hkey, hq, hnew, List.filter_filter]
  intro e he
  exact (Bool.and_eq_true_iff.mp he).2

end Insert

theorem FwdTable.Records.insert {t : FwdTable} {ins : List FwdTabEntry} (ht : t.Searchable)
    (h : t.Records ins) (hfree : ∃ e ∈ t.entries, e.ttl = 0) (r : Route) :
    (NatBox.insertRoute t r).Records (ins ++ [r.entry]) where
  sorted := (ht.insertRoute r).sorted
  inUseFirst := (ht.insertRoute r).live.eq_filter_append
  perm := (filter_inUse_insertRoute ht hfree r).trans (h.perm.append_right _)
  inOrder len := by
    rw [filter_prefixLen_insertRoute ht hfree, h.inOrder, List.filter_append]

/-! ## Runs -/

theorem insertedBy_append (calls : List (Route × Int)) (r : Route) (ret : Int) :
    insertedBy (calls ++ [(r, ret)]) =
      insertedBy calls ++ if ret = 1 then [r.entry] else [] := by
  rw [insertedBy, insertedBy, List.filter_append, List.map_append]
  by_cases h : ret = 1
  · simp [h]
  · simp [h]

theorem records_fwdipv6Init : (fwdipv6Init bssFwdTab).Records [] := by
  have hnone : (fwdipv6Init bssFwdTab).entries.filter FwdTabEntry.inUse = [] := by
    rw [List.filter_eq_nil_iff]
    intro e he
    rw [entries_fwdipv6Init_bss e he]
    decide
  refine ⟨searchable_fwdipv6Init.sorted, searchable_fwdipv6Init.live.eq_filter_append, ?_,
    fun len => ?_⟩
  · rw [hnone]
  · rw [hnone]

/-- An insertion reports that the table is full and leaves it, or adds its entry. -/
theorem insertStep_cases {t t' : FwdTable} {r : Route} {ret : Int}
    (h : insertStep t r = .ok (ret, t')) :
    ((∀ e ∈ t.entries, e.ttl ≠ 0) ∧ ret = -1 ∧ t' = t) ∨
    ((∃ e ∈ t.entries, e.ttl = 0) ∧ ret = 1 ∧ t' = insertRoute t r) := by
  rw [insertStep, Except.ok.injEq] at h
  by_cases hfree : ∃ e ∈ t.entries, e.ttl = 0
  · right
    obtain ⟨-, -, -, -, hret, -⟩ := insert_free hfree r.ipAddr r.prefixLen r.nextHop r.interface
    rw [h] at hret
    refine ⟨hfree, hret, ?_⟩
    rw [insertRoute, h]
  · left
    have hfull : ∀ e ∈ t.entries, e.ttl ≠ 0 := fun e he hz => hfree ⟨e, he, hz⟩
    rw [insert_full hfull, Prod.mk.injEq] at h
    exact ⟨hfull, h.1.symm, h.2.symm⟩

theorem records_run {calls : List (Route × Int)} {t : FwdTable}
    (h : Run insertStep (fwdipv6Init bssFwdTab) calls t) :
    t.Searchable ∧ t.Records (insertedBy calls) := by
  refine h.invariant (I := fun calls t => t.Searchable ∧ t.Records (insertedBy calls))
    ⟨searchable_fwdipv6Init, records_fwdipv6Init⟩ ?_
  rintro calls t r ret t' ⟨ht, hrec⟩ hs
  rw [insertedBy_append]
  rcases insertStep_cases hs with ⟨-, rfl, rfl⟩ | ⟨hfree, rfl, rfl⟩
  · exact ⟨ht, by simpa using hrec⟩
  · exact ⟨ht.insertRoute r, hrec.insert ht hfree r⟩

/-- After any insertions the pointers list the slots of the table, which holds what the
calls that returned 1 inserted; the next call returns -1 exactly when no slot is free,
and then changes nothing. -/
theorem fwdTable_of_insertions {calls : List (Route × Int)} {t : FwdTable}
    (h : Run insertStep (fwdipv6Init bssFwdTab) calls t) :
    t.fwdTabPTR.Perm (List.finRange maxFwdTabEntries) ∧ t.Records (insertedBy calls) ∧
    ∀ r ret t', insertStep t r = .ok (ret, t') →
      (ret = -1 ↔ t.fwdTab.toList.countP FwdTabEntry.inUse = maxFwdTabEntries) ∧
      (ret = -1 ∧ t' = t ∨ ret = 1) := by
  refine ⟨t.perm, (records_run h).2, fun r ret t' hs => ?_⟩
  rw [t.countP_inUse_eq_iff]
  rcases insertStep_cases hs with ⟨hfull, rfl, rfl⟩ | ⟨⟨e, he, hz⟩, rfl, rfl⟩
  · exact ⟨iff_of_true rfl hfull, Or.inl ⟨rfl, rfl⟩⟩
  · exact ⟨iff_of_false (by decide) fun hfull => hfull e he hz, Or.inr rfl⟩

/-- A route to a network between two host routes -/
def mixedRoutes : List (Route × Int) := [
  (⟨exampleHost, 128, exampleHost, 1, by decide, by decide⟩, 1),
  (⟨exampleServer, 64, exampleConfig.routerIpAddr, 0, by decide, by decide⟩, 1),
  (⟨exampleServer, 128, exampleServer, 2, by decide, by decide⟩, 1)]

theorem fwdTable_of_mixed_insertions : ∃ t,
    Run insertStep (fwdipv6Init bssFwdTab) mixedRoutes t ∧
    t.fwdTabPTR.Perm (List.finRange maxFwdTabEntries) ∧ t.Records (insertedBy mixedRoutes) ∧
    t.entries.filter FwdTabEntry.inUse = [newEntry exampleHost 128 exampleHost 1,
      newEntry exampleServer 128 exampleServer 2,
      newEntry exampleServer 64 exampleConfig.routerIpAddr 0] := by
  have hends : endsIn insertStep (fwdipv6Init bssFwdTab) (mixedRoutes.map Prod.fst)
      (fun rets t => rets = mixedRoutes.map Prod.snd ∧
        t.entries.filter FwdTabEntry.inUse = [newEntry exampleHost 128 exampleHost 1,
          newEntry exampleServer 128 exampleServer 2,
          newEntry exampleServer 64 exampleConfig.routerIpAddr 0]) = true := by decide +kernel
  obtain ⟨rets, t, hrun, -, hcheck⟩ := run_of_endsIn hends
  obtain ⟨rfl, hentries⟩ := of_decide_eq_true hcheck
  have hcalls : (mixedRoutes.map Prod.fst).zip (mixedRoutes.map Prod.snd) = mixedRoutes := rfl
  rw [hcalls] at hrun
  obtain ⟨hperm, hrecords, -⟩ := fwdTable_of_insertions hrun
  exact ⟨t, hrun, hperm, hrecords, hentries⟩

end NatBox
