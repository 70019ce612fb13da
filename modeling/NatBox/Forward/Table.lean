import Mathlib.Data.List.Nodup
import NatBox.Lib.BubbleSort
import NatBox.Packet

/-
The forwarding table of `fwdipv6.c`.

`fwdTab` holds the entries and `fwdTabPTR` lists pointers to them, longest prefix
first; every search walks the pointers.  A pointer is the index of its entry.
`FwdTable` carries the fact that the pointers are the 30 entries in some order,
which `fwdipv6Init` establishes and a sort cannot break.

`entries` is the table as a search meets it.  `entries_insert` is what callers
use of an insertion: the new entry replaces the first free one and the list is
sorted again.
-/

namespace NatBox

/-- `MAXFWDTABENTRIES` -/
abbrev maxFwdTabEntries : Nat := 30

/-- `FWDMAXTTL` -/
def fwdMaxTtl : Int16 := 900

/-- `struct fwdTabEntry`.  An entry with `ttl` zero is free. -/
structure FwdTabEntry where
  ttl : Int16
  iface : UInt8
  prefixLen : UInt8
  ipAddr : Ipv6Addr
  nextHop : Ipv6Addr
  deriving DecidableEq

structure FwdTable where
  fwdTab : Vector FwdTabEntry maxFwdTabEntries
  fwdTabPTR : List (Fin maxFwdTabEntries)
  perm : fwdTabPTR.Perm (List.finRange maxFwdTabEntries)

namespace FwdTable

/-- The entries in the order of the pointers. -/
def entries (t : FwdTable) : List FwdTabEntry := t.fwdTabPTR.map fun p => t.fwdTab[p]

theorem length_fwdTabPTR (t : FwdTable) : t.fwdTabPTR.length = maxFwdTabEntries := by
  rw [t.perm.length_eq, List.length_finRange]

theorem nodup_fwdTabPTR (t : FwdTable) : t.fwdTabPTR.Nodup :=
  t.perm.nodup_iff.mpr (List.nodup_finRange _)

theorem length_entries (t : FwdTable) : t.entries.length = maxFwdTabEntries := by
  rw [entries, List.length_map, length_fwdTabPTR]

end FwdTable

/-- `fwdTab` before initialization: static storage, all zero. -/
def bssFwdTab : Vector FwdTabEntry maxFwdTabEntries :=
  Vector.replicate _ ⟨0, 0, 0, unspecified, unspecified⟩

/-- `fwdipv6_init`, without the default router's entry, which no search reads. It
does not clear the `prefixLen` of an entry. -/
def fwdipv6Init (fwdTab : Vector FwdTabEntry maxFwdTabEntries) : FwdTable where
  fwdTab := fwdTab.map fun e =>
    { e with ttl := 0, iface := 0, ipAddr := unspecified, nextHop := unspecified }
  fwdTabPTR := List.finRange maxFwdTabEntries
  perm := List.Perm.refl _

/- The loop of `getNextHop` from index `i` on. -/
def nextHopScan (ipdest : Ipv6Addr) : List FwdTabEntry → Nat → Option Nat
  | [], _ => none
  | e :: rest, i =>
    if e.prefixLen = 0 then none
    else if matchBytes ipdest e.ipAddr (e.prefixLen.toNat / 8) then some i
    else nextHopScan ipdest rest (i + 1)

/-- `getNextHop`; `none` is its `-1`. -/
def getNextHop (t : FwdTable) (ipdest : Ipv6Addr) : Option Nat := nextHopScan ipdest t.entries 0

/-- `getNextAvailFwdIndex`; `none` is its `-1`. -/
def getNextAvailFwdIndex (t : FwdTable) : Option (Fin t.fwdTabPTR.length) :=
  t.fwdTabPTR.findFinIdx? fun p => t.fwdTab[p].ttl = 0

def sortFwdTab (t : FwdTable) : FwdTable where
  fwdTab := t.fwdTab
  fwdTabPTR := BubbleSort.bubbleSort (fun p => t.fwdTab[p].prefixLen.toNat)
    (maxFwdTabEntries - 1) t.fwdTabPTR
  perm := (BubbleSort.bubbleSort_perm _ _ _).trans t.perm

/-- `insertNewFwdTabEntry` and the table it leaves. -/
def insertNewFwdTabEntry (t : FwdTable) (ipAddr : Ipv6Addr) (prefixLen : UInt8)
    (nextHop : Ipv6Addr) (interface : UInt8) : Int × FwdTable :=
  match getNextAvailFwdIndex t with
  | none => (-1, t)
  | some index =>
    let entry : FwdTabEntry :=
      { ttl := fwdMaxTtl, iface := interface, prefixLen := prefixLen, ipAddr := ipAddr,
        nextHop := nextHop }
    (1, sortFwdTab { t with fwdTab := t.fwdTab.set (t.fwdTabPTR[index]).val entry })

/-! ## Searching -/

theorem nextHopScan_some {d : Ipv6Addr} : ∀ {es : List FwdTabEntry} {i k : Nat},
    nextHopScan d es i = some k → ∃ (j : Nat) (e : FwdTabEntry), k = i + j ∧
      es[j]? = some e ∧ e.prefixLen ≠ 0 ∧
      matchBytes d e.ipAddr (e.prefixLen.toNat / 8) = true ∧
      ∀ (j' : Nat) (e' : FwdTabEntry), j' < j → es[j']? = some e' →
        e'.prefixLen ≠ 0 ∧ ¬ matchBytes d e'.ipAddr (e'.prefixLen.toNat / 8) = true := by
  intro es
  induction es with
  | nil => intro i k h; simp [nextHopScan] at h
  | cons e es ih =>
    intro i k h
    rw [nextHopScan] at h
    by_cases hz : e.prefixLen = 0
    · simp [hz] at h
    · by_cases hm : matchBytes d e.ipAddr (e.prefixLen.toNat / 8) = true
      · rw [if_neg hz, if_pos hm, Option.some.injEq] at h
        exact ⟨0, e, by omega, rfl, hz, hm, fun j' e' hj' => absurd hj' (Nat.not_lt_zero j')⟩
      · rw [if_neg hz, if_neg hm] at h
        obtain ⟨j, e₁, hk, hj, hz₁, hm₁, hbefore⟩ := ih h
        refine ⟨j + 1, e₁, by omega, by simpa using hj, hz₁, hm₁, fun j' e' hj' he' => ?_⟩
        cases j' with
        | zero =>
          simp only [List.getElem?_cons_zero, Option.some.injEq] at he'
          subst he'
          exact ⟨hz, hm⟩
        | succ j' => exact hbefore j' e' (by omega) (by simpa using he')

/-- When the search fails, the matching entries it did not reach lie behind an
entry without a prefix. -/
theorem nextHopScan_none {d : Ipv6Addr} : ∀ {es : List FwdTabEntry} {i : Nat},
    nextHopScan d es i = none → ∀ (j : Nat) (e : FwdTabEntry), es[j]? = some e →
      matchBytes d e.ipAddr (e.prefixLen.toNat / 8) = true →
      ∃ (j' : Nat) (e' : FwdTabEntry), j' ≤ j ∧ es[j']? = some e' ∧ e'.prefixLen = 0 := by
  intro es
  induction es with
  | nil => intro i _ j e he; simp at he
  | cons e₀ es ih =>
    intro i h j e he hm
    rw [nextHopScan] at h
    by_cases hz : e₀.prefixLen = 0
    · exact ⟨0, e₀, Nat.zero_le j, rfl, hz⟩
    · by_cases hm₀ : matchBytes d e₀.ipAddr (e₀.prefixLen.toNat / 8) = true
      · simp [hz, hm₀] at h
      · rw [if_neg hz, if_neg hm₀] at h
        cases j with
        | zero =>
          simp only [List.getElem?_cons_zero, Option.some.injEq] at he
          subst he
          exact absurd hm hm₀
        | succ j =>
          obtain ⟨j', e', hle, he', hz'⟩ := ih h j e (by simpa using he) hm
          exact ⟨j' + 1, e', by omega, by simpa using he', hz'⟩

/-! ## Inserting -/

theorem entries_sortFwdTab (t : FwdTable) : (sortFwdTab t).entries =
    BubbleSort.bubbleSort (fun e => e.prefixLen.toNat) (maxFwdTabEntries - 1) t.entries := by
  have h : ∀ k, (BubbleSort.bubbleSort (fun p => t.fwdTab[p].prefixLen.toNat) k
      t.fwdTabPTR).map (fun p => t.fwdTab[p]) =
      BubbleSort.bubbleSort (fun e => e.prefixLen.toNat) k t.entries := fun k =>
    BubbleSort.bubbleSort_map (fun e : FwdTabEntry => e.prefixLen.toNat) _ k t.fwdTabPTR
  exact h _

/-- Writing through the pointer at an index changes the entry at that index
only, since no other pointer leads to it. -/
theorem entries_set (t : FwdTable) (index : Fin t.fwdTabPTR.length) (e : FwdTabEntry) :
    ({ t with fwdTab := t.fwdTab.set (t.fwdTabPTR[index]).val e } : FwdTable).entries =
      t.entries.set index e := by
  refine List.ext_getElem (by simp [FwdTable.entries]) fun i hi hi' => ?_
  simp only [FwdTable.entries, List.length_map] at hi
  simp only [FwdTable.entries, List.getElem_map, List.getElem_set, Fin.getElem_fin,
    Vector.getElem_set]
  by_cases h : index.val = i
  · subst h
    rw [if_pos rfl, if_pos rfl]
  · rw [if_neg h, if_neg]
    intro hp
    exact h ((t.nodup_fwdTabPTR.getElem_inj_iff).mp (Fin.ext hp))

/-- The entry an insertion writes. -/
def newEntry (ipAddr : Ipv6Addr) (prefixLen : UInt8) (nextHop : Ipv6Addr)
    (interface : UInt8) : FwdTabEntry :=
  { ttl := fwdMaxTtl, iface := interface, prefixLen := prefixLen, ipAddr := ipAddr,
    nextHop := nextHop }

theorem insert_full {t : FwdTable} (h : ∀ e ∈ t.entries, e.ttl ≠ 0) (ip : Ipv6Addr)
    (len : UInt8) (nh : Ipv6Addr) (iface : UInt8) :
    insertNewFwdTabEntry t ip len nh iface = (-1, t) := by
  have hnone : getNextAvailFwdIndex t = none := by
    rw [getNextAvailFwdIndex, List.findFinIdx?_eq_none_iff]
    intro p hp
    simpa using h _ (List.mem_map_of_mem hp)
  rw [insertNewFwdTabEntry, hnone]

/-- An insertion into a table with a free entry. -/
theorem insert_free {t : FwdTable} (h : ∃ e ∈ t.entries, e.ttl = 0) (ip : Ipv6Addr)
    (len : UInt8) (nh : Ipv6Addr) (iface : UInt8) :
    ∃ index, ∃ hi : index < t.entries.length, t.entries[index].ttl = 0 ∧
      (∀ j, ∀ hj : j < index, t.entries[j].ttl ≠ 0) ∧
      (insertNewFwdTabEntry t ip len nh iface).1 = 1 ∧
      (insertNewFwdTabEntry t ip len nh iface).2.entries =
        BubbleSort.bubbleSort (fun e => e.prefixLen.toNat) (maxFwdTabEntries - 1)
          (t.entries.set index (newEntry ip len nh iface)) := by
  rcases hf : getNextAvailFwdIndex t with _ | index
  · rw [getNextAvailFwdIndex, List.findFinIdx?_eq_none_iff] at hf
    obtain ⟨e, he, hz⟩ := h
    obtain ⟨p, hp, rfl⟩ := List.mem_map.mp he
    exact absurd (by simpa using hz) (hf p hp)
  · have hspec := List.findFinIdx?_eq_some_iff.mp hf
    refine ⟨index, by simp [FwdTable.entries], ?_, ?_, ?_, ?_⟩
    · simpa [FwdTable.entries] using hspec.1
    · intro j hj
      have := hspec.2 ⟨j, Nat.lt_trans hj index.isLt⟩ hj
      simpa [FwdTable.entries] using this
    · rw [insertNewFwdTabEntry, hf]
    · rw [insertNewFwdTabEntry, hf]
      simp only [entries_sortFwdTab, entries_set]
      rfl

end NatBox
