import NatBox.Forward.Table

/-
Longest-prefix match.

`getNextHop` compares whole bytes: of a prefix of `n` bits it looks at the first
`n / 8` bytes and at none of the remaining `n % 8` bits.  `LongestMatch` says
what the search is for, and `longestMatch_iff_shadowed` says when it delivers: an
entry that agrees in its whole bytes but not in its remaining bits does no harm
exactly as long as the search meets a full match before it.
-/

namespace NatBox

/-! ## Prefix bits -/

/-- Bit `k` of an address, the most significant bit first. -/
def addrBit (a : Ipv6Addr) (k : Nat) : Bool := (a[k / 8]?.getD 0).toNat.testBit (7 - k % 8)

/-- The first `n` bits agree. -/
def PrefixAgrees (a b : Ipv6Addr) (n : Nat) : Prop := ∀ k, k < n → addrBit a k = addrBit b k

instance (a b : Ipv6Addr) (n : Nat) : Decidable (PrefixAgrees a b n) :=
  inferInstanceAs (Decidable (∀ k, k < n → addrBit a k = addrBit b k))

theorem PrefixAgrees.mono {a b : Ipv6Addr} {m n : Nat} (h : PrefixAgrees a b n) (hmn : m ≤ n) :
    PrefixAgrees a b m :=
  fun k hk => h k (Nat.lt_of_lt_of_le hk hmn)

/-- Two bytes with the same eight bits are equal. -/
theorem byte_eq_of_bits {x y : UInt8}
    (h : ∀ j, j < 8 → x.toNat.testBit j = y.toNat.testBit j) : x = y := by
  refine UInt8.toNat_inj.mp (Nat.eq_of_testBit_eq fun j => ?_)
  by_cases hj : j < 8
  · exact h j hj
  · have hpow : 2 ^ 8 ≤ 2 ^ j := Nat.pow_le_pow_right (by decide) (by omega)
    rw [Nat.testBit_lt_two_pow (Nat.lt_of_lt_of_le x.toNat_lt hpow),
      Nat.testBit_lt_two_pow (Nat.lt_of_lt_of_le y.toNat_lt hpow)]

/-- Comparing whole bytes compares the bits in them. -/
theorem matchBytes_iff_prefixAgrees {a b : Ipv6Addr} {n : Nat} (hn : n ≤ 16) :
    matchBytes a b n = true ↔ PrefixAgrees a b (8 * n) := by
  rw [matchBytes_iff]
  constructor
  · intro h k hk
    rw [addrBit, addrBit, h (k / 8) (by omega)]
  · intro h i hi
    have hi16 : i < 16 := by omega
    rw [Vector.getElem?_eq_getElem hi16, Vector.getElem?_eq_getElem hi16]
    refine congrArg some (byte_eq_of_bits fun j hj => ?_)
    have hbit := h (8 * i + (7 - j)) (by omega)
    rw [addrBit, addrBit, show (8 * i + (7 - j)) / 8 = i by omega,
      show 7 - (8 * i + (7 - j)) % 8 = j by omega, Vector.getElem?_eq_getElem hi16,
      Vector.getElem?_eq_getElem hi16] at hbit
    exact hbit

/-! ## Tables built by insertion -/

/-- The arguments of an insertion with a prefix length that `addFwdEntry` and the
message handlers use. -/
structure Route where
  ipAddr : Ipv6Addr
  prefixLen : UInt8
  nextHop : Ipv6Addr
  interface : UInt8
  one_le : 1 ≤ prefixLen.toNat
  le_addrBits : prefixLen.toNat ≤ 128

def insertRoute (t : FwdTable) (r : Route) : FwdTable :=
  (insertNewFwdTabEntry t r.ipAddr r.prefixLen r.nextHop r.interface).2

def insertRoutes (t : FwdTable) (rs : List Route) : FwdTable := rs.foldl insertRoute t

/-- What a search relies on: longest prefixes first, and the entries in use are
those with a prefix. -/
structure FwdTable.Searchable (t : FwdTable) : Prop where
  sorted : t.entries.Pairwise fun a b => b.prefixLen.toNat ≤ a.prefixLen.toNat
  inUse : ∀ e ∈ t.entries, e.ttl ≠ 0 ↔ e.prefixLen ≠ 0
  le_addrBits : ∀ e ∈ t.entries, e.prefixLen.toNat ≤ 128

theorem entries_fwdipv6Init_bss : ∀ e ∈ (fwdipv6Init bssFwdTab).entries,
    e = ⟨0, 0, 0, unspecified, unspecified⟩ := by
  intro e he
  obtain ⟨p, _, rfl⟩ := List.mem_map.mp he
  simp [fwdipv6Init, bssFwdTab]

theorem searchable_fwdipv6Init : (fwdipv6Init bssFwdTab).Searchable where
  sorted := List.Pairwise.imp_of_mem (R := fun _ _ => True)
    (fun ha hb _ => by rw [entries_fwdipv6Init_bss _ ha, entries_fwdipv6Init_bss _ hb])
    (List.pairwise_of_forall fun _ _ => trivial)
  inUse e he := by
    rw [entries_fwdipv6Init_bss e he]
    simp
  le_addrBits e he := by
    rw [entries_fwdipv6Init_bss e he]
    decide

theorem newEntry_ttl_ne_zero (ip : Ipv6Addr) (len : UInt8) (nh : Ipv6Addr) (iface : UInt8) :
    (newEntry ip len nh iface).ttl ≠ 0 := by
  show fwdMaxTtl ≠ 0
  decide

/-- The entries after an insertion are old ones or the new one. -/
theorem mem_entries_insert {t : FwdTable} {ip nh : Ipv6Addr} {len iface : UInt8}
    {e : FwdTabEntry} (he : e ∈ (insertNewFwdTabEntry t ip len nh iface).2.entries) :
    e ∈ t.entries ∨ e = newEntry ip len nh iface := by
  by_cases hfree : ∃ e ∈ t.entries, e.ttl = 0
  · obtain ⟨index, hi, -, -, -, hent⟩ := insert_free hfree ip len nh iface
    rw [hent, (BubbleSort.bubbleSort_perm _ _ _).mem_iff] at he
    exact List.mem_or_eq_of_mem_set he
  · rw [insert_full (fun e he hz => hfree ⟨e, he, hz⟩)] at he
    exact Or.inl he

theorem sorted_insert {t : FwdTable}
    (ht : t.entries.Pairwise fun a b => b.prefixLen.toNat ≤ a.prefixLen.toNat)
    (ip : Ipv6Addr) (len : UInt8) (nh : Ipv6Addr) (iface : UInt8) :
    (insertNewFwdTabEntry t ip len nh iface).2.entries.Pairwise
      fun a b => b.prefixLen.toNat ≤ a.prefixLen.toNat := by
  by_cases hfree : ∃ e ∈ t.entries, e.ttl = 0
  · obtain ⟨index, hi, -, -, -, hent⟩ := insert_free hfree ip len nh iface
    rw [hent]
    refine BubbleSort.bubbleSort_sorted _ ?_
    rw [List.length_set, FwdTable.length_entries]
    rfl
  · rw [insert_full (fun e he hz => hfree ⟨e, he, hz⟩)]
    exact ht

theorem FwdTable.Searchable.insertRoute {t : FwdTable} (ht : t.Searchable) (r : Route) :
    (insertRoute t r).Searchable where
  sorted := sorted_insert ht.sorted _ _ _ _
  inUse e he := by
    rcases mem_entries_insert he with hold | rfl
    · exact ht.inUse e hold
    · have hlen : r.prefixLen ≠ 0 := by
        intro h0
        have := r.one_le
        rw [h0] at this
        exact absurd this (by decide)
      exact iff_of_true (newEntry_ttl_ne_zero _ _ _ _) hlen
  le_addrBits e he := by
    rcases mem_entries_insert he with hold | rfl
    · exact ht.le_addrBits e hold
    · exact r.le_addrBits

theorem FwdTable.Searchable.insertRoutes {t : FwdTable} (ht : t.Searchable) (rs : List Route) :
    (insertRoutes t rs).Searchable := by
  induction rs generalizing t with
  | nil => exact ht
  | cons r rs ih => exact ih (ht.insertRoute r)

/-! ## The search -/

/-- The search returns nothing exactly when no entry in use matches, and
otherwise an entry in use that matches in all its bits and is as long as any. -/
structure LongestMatch (t : FwdTable) (d : Ipv6Addr) : Prop where
  none_iff : getNextHop t d = none ↔
    ∀ e ∈ t.entries, e.ttl ≠ 0 → ¬ PrefixAgrees d e.ipAddr e.prefixLen.toNat
  some : ∀ i, getNextHop t d = some i → ∃ e, t.entries[i]? = some e ∧ e.ttl ≠ 0 ∧
    PrefixAgrees d e.ipAddr e.prefixLen.toNat ∧
    ∀ e' ∈ t.entries, e'.ttl ≠ 0 → PrefixAgrees d e'.ipAddr e'.prefixLen.toNat →
      e'.prefixLen.toNat ≤ e.prefixLen.toNat

/-- Every entry in use that agrees with `d` in its whole bytes but not in all of
its bits stands behind one in use that agrees in all of its bits. -/
def PartialMatchesShadowed (t : FwdTable) (d : Ipv6Addr) : Prop :=
  ∀ (j : Nat) (e : FwdTabEntry), t.entries[j]? = some e → e.ttl ≠ 0 →
    matchBytes d e.ipAddr (e.prefixLen.toNat / 8) = true →
    ¬ PrefixAgrees d e.ipAddr e.prefixLen.toNat →
    ∃ (i : Nat) (e' : FwdTabEntry), i < j ∧ t.entries[i]? = some e' ∧ e'.ttl ≠ 0 ∧
      PrefixAgrees d e'.ipAddr e'.prefixLen.toNat

section Search

variable {t : FwdTable} (ht : t.Searchable) {d : Ipv6Addr}

include ht

theorem matchBytes_of_agrees {e : FwdTabEntry} (he : e ∈ t.entries)
    (h : PrefixAgrees d e.ipAddr e.prefixLen.toNat) :
    matchBytes d e.ipAddr (e.prefixLen.toNat / 8) = true := by
  have hle := ht.le_addrBits e he
  rw [matchBytes_iff_prefixAgrees (by omega)]
  exact h.mono (by omega)

theorem prefixLen_le_of_lt {i j : Nat} {e e' : FwdTabEntry} (hij : i ≤ j)
    (hi : t.entries[i]? = some e) (hj : t.entries[j]? = some e') :
    e'.prefixLen.toNat ≤ e.prefixLen.toNat := by
  obtain ⟨hi₁, rfl⟩ := List.getElem?_eq_some_iff.mp hi
  obtain ⟨hj₁, rfl⟩ := List.getElem?_eq_some_iff.mp hj
  rcases Nat.eq_or_lt_of_le hij with rfl | hlt
  · exact Nat.le_refl _
  · exact List.pairwise_iff_getElem.mp ht.sorted i j hi₁ hj₁ hlt

/-- A search that fails passed every entry that matches in its whole bytes. -/
theorem not_matchBytes_of_none (h : getNextHop t d = none) {e : FwdTabEntry}
    (he : e ∈ t.entries) (hu : e.ttl ≠ 0) :
    ¬ matchBytes d e.ipAddr (e.prefixLen.toNat / 8) = true := by
  intro hm
  obtain ⟨j, hj, hje⟩ := List.getElem_of_mem he
  have hje' : t.entries[j]? = some e := by rw [List.getElem?_eq_getElem hj, hje]
  obtain ⟨j', e', hle, he', hz⟩ := nextHopScan_none h j e hje' hm
  have hlen := prefixLen_le_of_lt ht hle he' hje'
  have hne := (ht.inUse e he).mp hu
  rw [hz] at hlen
  exact hne (UInt8.toNat_inj.mp (Nat.le_zero.mp hlen))

/-- What a search that succeeds returns: the first entry matching in its whole
bytes. -/
theorem getNextHop_some {i : Nat} (h : getNextHop t d = some i) :
    ∃ e, t.entries[i]? = some e ∧ e.ttl ≠ 0 ∧
      matchBytes d e.ipAddr (e.prefixLen.toNat / 8) = true ∧
      ∀ (j : Nat) (e' : FwdTabEntry), j < i → t.entries[j]? = some e' →
        ¬ matchBytes d e'.ipAddr (e'.prefixLen.toNat / 8) = true := by
  obtain ⟨j, e, hij, he, hz, hm, hfirst⟩ := nextHopScan_some h
  have hj : j = i := by omega
  subst hj
  exact ⟨e, he, (ht.inUse e (List.mem_of_getElem? he)).mpr hz, hm,
    fun j' e' hlt he' => (hfirst j' e' hlt he').2⟩

theorem longestMatch_of_shadowed (h : PartialMatchesShadowed t d) : LongestMatch t d := by
  -- The entry a search returns matches in all its bits: an earlier full match
  -- would have been met first.
  have hagree : ∀ {i : Nat} {e : FwdTabEntry}, getNextHop t d = some i →
      t.entries[i]? = some e → PrefixAgrees d e.ipAddr e.prefixLen.toNat := by
    intro i e hi he
    obtain ⟨e₁, he₁, hu, hm, hfirst⟩ := getNextHop_some ht hi
    obtain rfl : e₁ = e := Option.some.inj (he₁.symm.trans he)
    by_contra hna
    obtain ⟨j, e', hj, he', hu', ha'⟩ := h i e₁ he hu hm hna
    exact hfirst j e' hj he' (matchBytes_of_agrees ht (List.mem_of_getElem? he') ha')
  constructor
  · constructor
    · exact fun hn e he hu ha =>
        not_matchBytes_of_none ht hn he hu (matchBytes_of_agrees ht he ha)
    · intro hall
      rcases hs : getNextHop t d with _ | i
      · rfl
      · obtain ⟨e, he, hu, -, -⟩ := getNextHop_some ht hs
        exact absurd (hagree hs he) (hall e (List.mem_of_getElem? he) hu)
  · intro i hi
    obtain ⟨e, he, hu, hm, hfirst⟩ := getNextHop_some ht hi
    refine ⟨e, he, hu, hagree hi he, fun e' he' _ ha' => ?_⟩
    obtain ⟨j, hj, hje⟩ := List.getElem_of_mem he'
    have hje' : t.entries[j]? = some e' := by rw [List.getElem?_eq_getElem hj, hje]
    have hij : i ≤ j := by
      by_contra hlt
      exact hfirst j e' (by omega) hje' (matchBytes_of_agrees ht he' ha')
    exact prefixLen_le_of_lt ht hij he hje'

theorem shadowed_of_longestMatch (h : LongestMatch t d) : PartialMatchesShadowed t d := by
  intro j e he hu hm hna
  rcases hs : getNextHop t d with _ | i
  · exact absurd hm (not_matchBytes_of_none ht hs (List.mem_of_getElem? he) hu)
  · obtain ⟨e₁, he₁, hu₁, -, hfirst⟩ := getNextHop_some ht hs
    obtain ⟨e₂, he₂, -, ha, -⟩ := h.some i hs
    obtain rfl : e₁ = e₂ := Option.some.inj (he₁.symm.trans he₂)
    refine ⟨i, e₁, ?_, he₁, hu₁, ha⟩
    rcases Nat.lt_trichotomy i j with hlt | rfl | hgt
    · exact hlt
    · obtain rfl : e₁ = e := Option.some.inj (he₁.symm.trans he)
      exact absurd ha hna
    · exact absurd hm (hfirst j e hgt he)

end Search

/-- A table built by insertions delivers the longest match for an address exactly
when the whole-byte comparison misleads no search for it. -/
theorem longestMatch_iff_shadowed (rs : List Route) (d : Ipv6Addr) :
    LongestMatch (insertRoutes (fwdipv6Init bssFwdTab) rs) d ↔
      PartialMatchesShadowed (insertRoutes (fwdipv6Init bssFwdTab) rs) d :=
  have ht := searchable_fwdipv6Init.insertRoutes rs
  ⟨shadowed_of_longestMatch ht, longestMatch_of_shadowed ht⟩

/-- Routing `12` bits of `20:10::` and looking up `20:20::` finds the entry,
though the fourth nibble differs. -/
theorem longestMatch_fails_twelve_bits :
    ¬ LongestMatch
      (insertRoutes (fwdipv6Init bssFwdTab)
        [⟨#v[0x20, 0x10, 0, 0, 0, 0, 0, 0, 0, 0, 0, 0, 0, 0, 0, 0], 12, unspecified, 1,
          by decide, by decide⟩])
      #v[0x20, 0x20, 0, 0, 0, 0, 0, 0, 0, 0, 0, 0, 0, 0, 0, 0] := by
  intro h
  obtain ⟨e, he, -, ha, -⟩ := h.some 0 (by decide +kernel)
  revert ha
  obtain rfl := Option.some.inj (he.symm.trans
    (show _ = some (⟨900, 1, 12, #v[0x20, 0x10, 0, 0, 0, 0, 0, 0, 0, 0, 0, 0, 0, 0, 0, 0],
      unspecified⟩ : FwdTabEntry) by decide +kernel))
  decide

end NatBox
