import NatBox.Neighbour.CacheRuns
import NatBox.Shell.CharToHex

/-
The shell command that adds a neighbour: `addNDEntry`.

The command claims a slot before it looks at its arguments.  When an argument is
refused the claim is not taken back, and when the cache is full the failed claim
is noticed only by the store through the null pointer.  `addNDEntry_iff` says
which commands are spared both.
-/

namespace NatBox

inductive AddNdFault
  /-- `charToHex` wrote behind the array it was given. -/
  | overrun
  /-- `entry` is null where a field of it is set. -/
  | nullEntry
  deriving DecidableEq

/-- `charToHex` on one of the command's arrays, which holds `cap` bytes. -/
def charToHexArray (cap : Nat) (array : Mem) (string : CString) : Except AddNdFault (Nat × Mem) :=
  if cap < (hexScan string.chars).2.length then .error .overrun
  else .ok (charToHex array 0 string.chars)

/-- `addNDEntry`: the value returned and the cache left.  The two arrays are on the
stack and hold anything at first. -/
def addNDEntry (ipAddr macAddr : Mem) (args : List CString) (nd : NDCache) :
    Except AddNdFault (Nat × NDCache) :=
  match args with
  | [_, ip, mac] => do
    let (entry, nd) := getAvailNDEntry nd
    let (bad, ipAddr) ← charToHexArray 16 ipAddr ip
    if bad ≠ 0 then
      return (1, nd)
    let (bad, macAddr) ← charToHexArray 6 macAddr mac
    if bad ≠ 0 then
      return (1, nd)
    match entry with
    | none => throw .nullEntry
    | some i =>
      return (0, nd.set i ⟨maxNdTtl, Vector.ofFn fun k => ipAddr k,
        Vector.ofFn fun k => macAddr k, ndReachable⟩ i.isLt)
  | _ => .ok (0, nd)

/-- `charToHex` returns 0 for the string. -/
def Parses (string : CString) : Prop := ∃ n, Pairs string.chars n

/-- The address an argument spells: `charToHex` leaves it whatever was in the array. -/
def ParsedAs {n : Nat} (string : CString) (addr : Vector UInt8 n) : Prop :=
  Parses string ∧ ∀ array, (charToHex array 0 string.chars).2.read 0 n = addr.toList

theorem parses_iff (string : CString) : Parses string ↔ (hexScan string.chars).1 = true :=
  (hexScan_accepts_iff string.chars).symm

theorem charToHexArray_eq (cap : Nat) (array : Mem) (string : CString) :
    charToHexArray cap array string =
      if cap < (hexScan string.chars).2.length then .error .overrun
      else .ok (if (hexScan string.chars).1 then 0 else 1,
        array.write 0 (hexScan string.chars).2) := by
  rw [charToHexArray, charToHex_eq]

/-- The command with three words, as a decision on what the scans of its arguments
make of them. -/
theorem addNDEntry_three (ipAddr macAddr : Mem) (name ip mac : CString) (nd : NDCache) :
    addNDEntry ipAddr macAddr [name, ip, mac] nd =
      if 16 < (hexScan ip.chars).2.length then .error .overrun
      else if (hexScan ip.chars).1 = false then .ok (1, (getAvailNDEntry nd).2)
      else if 6 < (hexScan mac.chars).2.length then .error .overrun
      else if (hexScan mac.chars).1 = false then .ok (1, (getAvailNDEntry nd).2)
      else
        (getAvailNDEntry nd).1.elim (.error .nullEntry) fun i =>
          .ok (0, (getAvailNDEntry nd).2.set i ⟨maxNdTtl,
            Vector.ofFn fun k => (ipAddr.write 0 (hexScan ip.chars).2) k,
            Vector.ofFn fun k => (macAddr.write 0 (hexScan mac.chars).2) k, ndReachable⟩
            i.isLt) := by
  simp only [addNDEntry, charToHexArray_eq]
  by_cases hip : 16 < (hexScan ip.chars).2.length
  · simp only [if_pos hip]
    rfl
  · simp only [if_neg hip]
    cases hpi : (hexScan ip.chars).1 with
    | false => rfl
    | true =>
      by_cases hmac : 6 < (hexScan mac.chars).2.length
      · simp only [if_pos hmac]
        rfl
      · simp only [if_neg hmac]
        cases hpm : (hexScan mac.chars).1 with
        | false => rfl
        | true =>
          cases (getAvailNDEntry nd).1 with
          | none => rfl
          | some i => rfl

/-- The bytes read do not depend on the array only when the scan has stored all of
them. -/
theorem parsedAs_iff {n : Nat} {string : CString} {addr : Vector UInt8 n}
    (hfits : (hexScan string.chars).2.length ≤ n) :
    ParsedAs string addr ↔
      (hexScan string.chars).1 = true ∧ (hexScan string.chars).2 = addr.toList := by
  rw [ParsedAs, parses_iff]
  refine and_congr_right fun _ => ?_
  simp only [charToHex_eq]
  constructor
  · intro h
    have hlength : (hexScan string.chars).2.length = n := by
      by_contra hne
      have hlt : (hexScan string.chars).2.length < n := by omega
      -- two arrays that differ in the first byte that is not stored
      have hbyte : ∀ array : Mem,
          addr.toList[(hexScan string.chars).2.length]? =
            some (array (hexScan string.chars).2.length) := by
        intro array
        rw [← h array, Mem.getElem?_read hlt, Nat.zero_add,
          Mem.write_outside (.inr (by omega))]
      have h0 := hbyte fun _ => 0
      rw [hbyte fun _ => 1] at h0
      exact absurd (Option.some.inj h0) (by decide)
    have hself := Mem.read_write_self (fun _ => 0) 0 (hexScan string.chars).2
    rw [hlength] at hself
    exact hself.symm.trans (h _)
  · intro h array
    have hself := Mem.read_write_self array 0 (hexScan string.chars).2
    have hlength : (hexScan string.chars).2.length = n := by rw [h, Vector.length_toList]
    rw [hlength] at hself
    exact hself.trans h

/-! ## What is promised of it -/

/-- There is a free slot. -/
def HasFreeEntry (nd : NDCache) : Prop := ∃ i, (nd.get i).state = ndNoEntry

/-- A command that has what it needs: two arguments that `charToHex` takes and a
free slot. -/
def CanComplete (args : List CString) (nd : NDCache) : Prop :=
  ∃ name ip mac, args = [name, ip, mac] ∧ Parses ip ∧ Parses mac ∧ HasFreeEntry nd

/-- A command that adds an entry or changes nothing: one that can complete turns a
free slot into a reachable entry with the addresses its arguments spell, and any
other returns with the cache as it was. -/
structure AddsOrLeaves (args : List CString) (nd : NDCache) : Prop where
  adds : ∀ name ip mac, args = [name, ip, mac] → CanComplete args nd → ∀ ipAddr macAddr,
    ∃ i a m, (nd.get i).state = ndNoEntry ∧ ParsedAs ip a ∧ ParsedAs mac m ∧
      addNDEntry ipAddr macAddr args nd =
        .ok (0, nd.set i ⟨maxNdTtl, a, m, ndReachable⟩ i.isLt)
  leaves : ¬ CanComplete args nd → ∀ ipAddr macAddr,
    ∃ ret, addNDEntry ipAddr macAddr args nd = .ok (ret, nd)

/-- Three words with a free slot spell sixteen and six bytes; without one, an
argument is refused, and none before it or itself is too long. -/
def AddNdSafe (args : List CString) (nd : NDCache) : Prop :=
  ∀ name ip mac, args = [name, ip, mac] →
    (HasFreeEntry nd → Pairs ip.chars 16 ∧ Pairs mac.chars 6) ∧
    (¬ HasFreeEntry nd → ¬ Overruns 16 ip.chars ∧
      (Parses ip → ¬ Overruns 6 mac.chars ∧ ¬ Parses mac))

theorem hasFreeEntry_iff (nd : NDCache) :
    HasFreeEntry nd ↔ ∃ i, (getAvailNDEntry nd).1 = some i := by
  constructor
  · rintro ⟨i, hi⟩
    cases ha : (getAvailNDEntry nd).1 with
    | some j => exact ⟨j, rfl⟩
    | none =>
      rw [fst_getAvailNDEntry, List.find?_eq_none] at ha
      exact absurd hi (by simpa using ha i (List.mem_finRange i))
  · rintro ⟨i, hi⟩
    exact ⟨i, (getAvailNDEntry_eq_some_iff.mp hi).1⟩

/-- Without a free slot the failed claim leaves the cache alone. -/
theorem getAvailNDEntry_of_full {nd : NDCache} (h : ¬ HasFreeEntry nd) :
    getAvailNDEntry nd = (none, nd) := by
  have hnone : (getAvailNDEntry nd).1 = none :=
    Option.eq_none_iff_forall_ne_some.mpr fun i hi => h ((hasFreeEntry_iff nd).mpr ⟨i, hi⟩)
  rw [fst_getAvailNDEntry] at hnone
  unfold getAvailNDEntry
  split
  · rfl
  · next i hi => exact absurd (hi.symm.trans hnone) (Option.some_ne_none i)

/-- A claimed slot shows in the cache. -/
theorem snd_getAvailNDEntry_ne {nd : NDCache} (h : HasFreeEntry nd) :
    (getAvailNDEntry nd).2 ≠ nd := by
  obtain ⟨i, hi⟩ := (hasFreeEntry_iff nd).mp h
  intro heq
  rw [snd_getAvailNDEntry hi] at heq
  have hstate := congrArg (fun c : NDCache => (c.get i).state) heq
  simp only [get_set, if_pos] at hstate
  rw [(getAvailNDEntry_eq_some_iff.mp hi).1] at hstate
  exact absurd hstate (by decide)

/-- A refused argument gives the claim away: the command returns with the cache the
claim left. -/
theorem addNDEntry_eq_claimed {ipAddr macAddr : Mem} {name ip mac : CString} {nd nd' : NDCache}
    {ret : Nat} (h : addNDEntry ipAddr macAddr [name, ip, mac] nd = .ok (ret, nd'))
    (hbad : ¬ (Parses ip ∧ Parses mac)) : nd' = (getAvailNDEntry nd).2 := by
  rw [addNDEntry_three] at h
  simp only [parses_iff] at hbad
  grind

theorem not_overruns_iff (cap : Nat) (string : CString) :
    ¬ Overruns cap string.chars ↔ ¬ cap < (hexScan string.chars).2.length :=
  not_congr (overruns_iff cap string.chars)

/-- `memcpy` from an array that the scan has filled. -/
theorem ofFn_write {n : Nat} {bs : List UInt8} (h : bs.length = n) (array : Mem) :
    (Vector.ofFn fun k : Fin n => array.write 0 bs k) = ⟨bs.toArray, h⟩ := by
  refine Vector.ext fun k hk => ?_
  have hbyte : bs[k]? = some bs[k] := List.getElem?_eq_getElem (by omega)
  have hin := @Mem.write_inside array 0 k bs bs[k] hbyte
  rw [Nat.zero_add] at hin
  rw [Vector.getElem_ofFn]
  exact hin

/-- A command with a free slot adds its entry when its arguments spell all the bytes
of the two addresses. -/
theorem addNDEntry_adds {ip mac : CString} (hip : Pairs ip.chars 16) (hmac : Pairs mac.chars 6)
    {nd : NDCache} (hfree : HasFreeEntry nd) (name : CString) (ipAddr macAddr : Mem) :
    ∃ i a m, (nd.get i).state = ndNoEntry ∧ ParsedAs ip a ∧ ParsedAs mac m ∧
      addNDEntry ipAddr macAddr [name, ip, mac] nd =
        .ok (0, nd.set i ⟨maxNdTtl, a, m, ndReachable⟩ i.isLt) := by
  obtain ⟨i, hi⟩ := (hasFreeEntry_iff nd).mp hfree
  obtain ⟨hip, hlip⟩ := pairs_iff.mp hip
  obtain ⟨hmac, hlmac⟩ := pairs_iff.mp hmac
  refine ⟨i, ⟨(hexScan ip.chars).2.toArray, hlip⟩, ⟨(hexScan mac.chars).2.toArray, hlmac⟩,
    (getAvailNDEntry_eq_some_iff.mp hi).1, (parsedAs_iff (by omega)).mpr ⟨hip, rfl⟩,
    (parsedAs_iff (by omega)).mpr ⟨hmac, rfl⟩, ?_⟩
  rw [addNDEntry_three, if_neg (by omega), if_neg (by simp [hip]), if_neg (by omega),
    if_neg (by simp [hmac])]
  simp only [hi, snd_getAvailNDEntry hi, Option.elim_some, Vector.set_set]
  rw [ofFn_write hlip, ofFn_write hlmac]

/-- `addNDEntry` adds an entry or changes nothing exactly for the commands of
`AddNdSafe`. -/
theorem addNDEntry_iff (args : List CString) (nd : NDCache) :
    AddsOrLeaves args nd ↔ AddNdSafe args nd := by
  constructor
  · intro h name ip mac hargs
    subst hargs
    constructor
    · intro hfree
      have hparse : Parses ip ∧ Parses mac := by
        by_contra hbad
        have hcan : ¬ CanComplete [name, ip, mac] nd := by
          rintro ⟨name', ip', mac', hargs, hip, hmac, -⟩
          simp only [List.cons.injEq, and_true] at hargs
          obtain ⟨rfl, rfl, rfl⟩ := hargs
          exact hbad ⟨hip, hmac⟩
        obtain ⟨ret, hret⟩ := h.leaves hcan (fun _ => 0) fun _ => 0
        exact snd_getAvailNDEntry_ne hfree (addNDEntry_eq_claimed hret hbad).symm
      obtain ⟨i, a, m, -, ha, hm, hok⟩ :=
        h.adds name ip mac rfl ⟨name, ip, mac, rfl, hparse.1, hparse.2, hfree⟩
          (fun _ => 0) fun _ => 0
      rw [addNDEntry_three] at hok
      have hip : ¬ 16 < (hexScan ip.chars).2.length := fun hlt => by simp [hlt] at hok
      have hmac : ¬ 6 < (hexScan mac.chars).2.length := by
        intro hlt
        have hpi := (parses_iff ip).mp hparse.1
        simp [hip, hpi, hlt] at hok
      have ha' := (parsedAs_iff (by omega)).mp ha
      have hm' := (parsedAs_iff (by omega)).mp hm
      exact ⟨pairs_iff.mpr ⟨ha'.1, by rw [ha'.2, Vector.length_toList]⟩,
        pairs_iff.mpr ⟨hm'.1, by rw [hm'.2, Vector.length_toList]⟩⟩
    · intro hfull
      have hcan : ¬ CanComplete [name, ip, mac] nd := by
        rintro ⟨-, -, -, -, -, -, hfree⟩
        exact hfull hfree
      obtain ⟨ret, hret⟩ := h.leaves hcan (fun _ => 0) fun _ => 0
      rw [addNDEntry_three, getAvailNDEntry_of_full hfull] at hret
      simp only [not_overruns_iff, parses_iff]
      grind
  · intro h
    constructor
    · intro name ip mac hargs hcan ipAddr macAddr
      obtain ⟨-, -, -, -, -, -, hfree⟩ := hcan
      have hpairs := (h name ip mac hargs).1 hfree
      subst hargs
      exact addNDEntry_adds hpairs.1 hpairs.2 hfree name ipAddr macAddr
    · intro hcan ipAddr macAddr
      rcases args with _ | ⟨name, _ | ⟨ip, _ | ⟨mac, _ | ⟨more, args⟩⟩⟩⟩
      · exact ⟨0, rfl⟩
      · exact ⟨0, rfl⟩
      · exact ⟨0, rfl⟩
      · have hfull : ¬ HasFreeEntry nd := by
          intro hfree
          have hpairs := (h name ip mac rfl).1 hfree
          exact hcan ⟨name, ip, mac, rfl, ⟨16, hpairs.1⟩, ⟨6, hpairs.2⟩, hfree⟩
        have hsafe := (h name ip mac rfl).2 hfull
        simp only [not_overruns_iff, parses_iff] at hsafe
        rw [addNDEntry_three, getAvailNDEntry_of_full hfull, if_neg hsafe.1]
        refine ⟨1, ?_⟩
        cases hpi : (hexScan ip.chars).1 with
        | false => simp
        | true =>
          have hpm := hsafe.2 hpi
          simp [hpm.1, hpm.2]
      · exact ⟨0, rfl⟩

/-- `addnd 0 0`: the odd digit is refused, and the slot claimed for it stays
claimed. -/
theorem addNDEntry_leaks :
    ¬ AddsOrLeaves [⟨[97, 100, 100, 110, 100], by decide⟩, ⟨[48], by decide⟩, ⟨[48], by decide⟩]
      ndCacheInit := by
  intro h
  have hcan : ¬ CanComplete [⟨[97, 100, 100, 110, 100], by decide⟩, ⟨[48], by decide⟩,
      ⟨[48], by decide⟩] ndCacheInit := by
    rintro ⟨name, ip, mac, hargs, hip, -⟩
    simp only [List.cons.injEq, and_true] at hargs
    obtain ⟨-, rfl, -⟩ := hargs
    exact absurd ((parses_iff _).mp hip) (by decide)
  obtain ⟨ret, hret⟩ := h.leaves hcan (fun _ => 0) fun _ => 0
  have hfree : HasFreeEntry ndCacheInit := ⟨⟨0, by decide⟩, by decide⟩
  refine snd_getAvailNDEntry_ne hfree (addNDEntry_eq_claimed hret ?_).symm
  rintro ⟨hip, -⟩
  exact absurd ((parses_iff _).mp hip) (by decide)

end NatBox
