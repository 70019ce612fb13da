import Mathlib.Data.List.Induction
import NatBox.Lib.ByteMemory
import NatBox.Lib.CString
import NatBox.Memory.Heap

/-
The name space: `mount` and `namrepl`.

A mounted entry replaces a prefix of a file name.  `namrepl` keeps the length of
the name, null included, in a `char`, so it has that length only up to 127, and
from 128 on what remains of the name counts as nothing.
-/

namespace NatBox

/-- `NM_PRELEN`, `NM_REPLLEN`, `NM_MAXLEN` and `NNAMES` -/
abbrev nmPreLen : Nat := 64
abbrev nmReplLen : Nat := 96
abbrev nmMaxLen : Nat := 256
abbrev nNames : Nat := 40

/-- `NDEVS` -/
abbrev nDevs : Nat := 24

/-- `struct nmentry`: the two strings fit their arrays with their nulls. -/
structure NmEntry where
  nprefixStr : CString
  nreplaceStr : CString
  ndevice : Fin nDevs
  prefix_lt : nprefixStr.chars.length < nmPreLen
  replace_lt : nreplaceStr.chars.length < nmReplLen

/-- `nametab` up to `nnames`. -/
structure NameTable where
  entries : List NmEntry
  length_le : entries.length ≤ nNames

/-- The loop of `namlen` with `left` rounds to go. -/
def namlenFrom : Nat → Nat → List UInt8 → Int
  | 0, _, _ => -1
  | left + 1, i, name =>
    if CString.deref name = nullCh then i + 1 else namlenFrom left (i + 1) name.tail

/-- `namlen` -/
def namlen (name : CString) (maxlen : Nat) : Int := namlenFrom maxlen 0 name.chars

theorem namlenFrom_eq {name : List UInt8} (hname : nullCh ∉ name) (left i : Nat) :
    namlenFrom left i name = if name.length < left then (i + name.length + 1 : Int) else -1 := by
  induction left generalizing name i with
  | zero => rfl
  | succ left ih =>
    cases name with
    | nil => simp [namlenFrom]
    | cons ch name =>
      rw [List.mem_cons, not_or] at hname
      have hch : ¬ ch = nullCh := fun h => hname.1 h.symm
      rw [namlenFrom, CString.deref_cons, if_neg hch, List.tail_cons, ih hname.2]
      simp only [List.length_cons, Nat.add_lt_add_iff_right]
      split
      · push_cast
        omega
      · rfl

/-- The length with its null, if the null is among the first `maxlen` characters. -/
theorem namlen_eq (name : CString) (maxlen : Nat) :
    namlen name maxlen =
      if name.chars.length < maxlen then (name.chars.length + 1 : Int) else -1 := by
  rw [namlen, namlenFrom_eq name.nonnull]
  simp

theorem length_lt_of_namlen {name : CString} {maxlen : Nat} (h : namlen name maxlen ≠ -1) :
    name.chars.length < maxlen := by
  rw [namlen_eq] at h
  by_contra hlt
  exact h (if_neg hlt)

/-- `mount` -/
def mount (tab : NameTable) (nprefixStr replace : CString) (device : Int) : Status × NameTable :=
  let psiz := namlen nprefixStr nmPreLen
  let rsiz := namlen replace nmReplLen
  if h : psiz = -1 ∨ rsiz = -1 ∨ (device < 0 ∨ nDevs ≤ device) ∨ nNames ≤ tab.entries.length then
    (.syserr, tab)
  else
    have hpsiz := length_lt_of_namlen fun e => h (.inl e)
    have hrsiz := length_lt_of_namlen fun e => h (.inr (.inl e))
    (.ok, ⟨tab.entries ++ [⟨nprefixStr, replace, ⟨device.toNat, by omega⟩, hpsiz, hrsiz⟩],
      by simp only [List.length_append, List.length_singleton]; omega⟩)

/-- The empty table that `naminit` sets first. -/
def NameTable.empty : NameTable := ⟨[], by decide⟩

/-- The table after several calls of `mount`. -/
def mountAll (tab : NameTable) (calls : List (CString × CString × Int)) : NameTable :=
  calls.foldl (fun tab call => (mount tab call.1 call.2.1 call.2.2).2) tab

/-- The call that mounts an entry. -/
def NmEntry.call (e : NmEntry) : CString × CString × Int :=
  (e.nprefixStr, e.nreplaceStr, (e.ndevice.val : Int))

theorem mount_entry {tab : NameTable} (hroom : tab.entries.length < nNames) (e : NmEntry) :
    mount tab e.nprefixStr e.nreplaceStr (e.ndevice.val : Int) =
      (.ok, ⟨tab.entries ++ [e], by simp only [List.length_append, List.length_singleton]; omega⟩)
    := by
  have hpsiz : namlen e.nprefixStr nmPreLen ≠ -1 := by
    rw [namlen_eq, if_pos e.prefix_lt]
    omega
  have hrsiz : namlen e.nreplaceStr nmReplLen ≠ -1 := by
    rw [namlen_eq, if_pos e.replace_lt]
    omega
  have hdevice := e.ndevice.isLt
  rw [mount, dif_neg (by omega)]
  rfl

/-- Every name table is what calls of `mount` build. -/
theorem mountAll_entries (tab : NameTable) :
    mountAll .empty (tab.entries.map NmEntry.call) = tab := by
  obtain ⟨entries, hlen⟩ := tab
  show mountAll .empty (entries.map NmEntry.call) = ⟨entries, hlen⟩
  induction entries using List.reverseRecOn with
  | nil => rfl
  | append_singleton entries e ih =>
    rw [List.length_append, List.length_singleton] at hlen
    have hroom : entries.length < nNames := by omega
    have hlast : mountAll .empty ((entries ++ [e]).map NmEntry.call) =
        (mount (mountAll .empty (entries.map NmEntry.call)) e.nprefixStr e.nreplaceStr
          (e.ndevice.val : Int)).2 := by
      rw [mountAll, List.map_append, List.foldl_append]
      rfl
    rw [hlast, ih (Nat.le_of_lt hroom), mount_entry hroom e]

/-! ## Replacing a prefix -/

/-- The value of an `int32` kept in a `char`. -/
def toChar (n : Int) : Int := (n + 128) % 256 - 128

/-- The loop that compares a prefix with a name: `pptr`, `optr` and `plen` where it
ends. -/
def comparePrefix : List UInt8 → List UInt8 → Nat → List UInt8 × List UInt8 × Nat
  | [], optr, plen => ([], optr, plen)
  | ch :: pptr, optr, plen =>
    if ch ≠ CString.deref optr then (ch :: pptr, optr, plen)
    else comparePrefix pptr optr.tail (plen + 1)

/-- `count` rounds of `*nptr++ = *ptr++`. -/
def copyChars (m : Mem) (nptr : Nat) : List UInt8 → Nat → Mem
  | _, 0 => m
  | ptr, count + 1 => copyChars (m.write nptr [CString.deref ptr]) (nptr + 1) ptr.tail count

/-- What `namrepl` does with an entry that matches, `optr` and `plen` being where the
comparison left them: the device, or `none` for `SYSERR`, and what is then in
`newname`. -/
def substitute (name : CString) (newname : Mem) (namptr : NmEntry) (optr : List UInt8)
    (plen : Nat) : Option (Fin nDevs) × Mem :=
  let olen := toChar (namlen name nmMaxLen)
  let rlen := namlen namptr.nreplaceStr nmMaxLen - 1
  let remain := olen - plen
  if nmMaxLen < rlen + remain then (none, newname)
  else
    let newname := copyChars newname 0 namptr.nreplaceStr.chars rlen.toNat
    (some namptr.ndevice, copyChars newname rlen.toNat optr remain.toNat)

/-- `namrepl` from one entry of the table on. -/
def namreplFrom (name : CString) (newname : Mem) : List NmEntry → Option (Fin nDevs) × Mem
  | [] => (none, newname)
  | namptr :: rest =>
    let (pptr, optr, plen) := comparePrefix namptr.nprefixStr.chars name.chars 0
    if CString.deref pptr ≠ nullCh then namreplFrom name newname rest
    else substitute name newname namptr optr plen

/-- `namrepl` -/
def namrepl (tab : NameTable) (name : CString) (newname : Mem) : Option (Fin nDevs) × Mem :=
  namreplFrom name newname tab.entries

theorem comparePrefix_of_prefix {pre name : List UInt8} (h : pre <+: name) (plen : Nat) :
    comparePrefix pre name plen = ([], name.drop pre.length, plen + pre.length) := by
  induction pre generalizing name plen with
  | nil => rfl
  | cons ch pre ih =>
    obtain ⟨rest, rfl⟩ := h
    rw [List.cons_append, comparePrefix, CString.deref_cons, if_neg (by simp), List.tail_cons,
      ih (List.prefix_append pre rest)]
    simp only [List.length_cons, List.drop_succ_cons]
    rw [Nat.add_right_comm, Nat.add_assoc]

theorem comparePrefix_of_not_prefix {pre name : List UInt8} (hpre : nullCh ∉ pre)
    (h : ¬ pre <+: name) (plen : Nat) :
    CString.deref (comparePrefix pre name plen).1 ≠ nullCh := by
  induction pre generalizing name plen with
  | nil => exact absurd List.nil_prefix h
  | cons ch pre ih =>
    rw [List.mem_cons, not_or] at hpre
    rw [comparePrefix]
    by_cases hch : ch = CString.deref name
    · rw [if_neg (by simpa using hch)]
      cases name with
      | nil => exact absurd hch.symm hpre.1
      | cons c name =>
        rw [CString.deref_cons] at hch
        subst hch
        exact ih hpre.2 (fun hp => h ((List.prefix_cons_inj ch).mpr hp)) _
    · rw [if_pos hch, CString.deref_cons]
      exact fun e => hpre.1 e.symm

/-- Copying as many characters as a string has, and its null if one more. -/
theorem copyChars_eq (m : Mem) (nptr : Nat) (ptr : List UInt8) (count : Nat)
    (hcount : count ≤ ptr.length + 1) :
    copyChars m nptr ptr count = m.write nptr ((ptr ++ [nullCh]).take count) := by
  induction count generalizing m nptr ptr with
  | zero => simp [copyChars]
  | succ count ih =>
    cases ptr with
    | nil =>
      obtain rfl : count = 0 := by simpa using hcount
      rfl
    | cons ch ptr =>
      have happend := Mem.write_append m nptr [ch] ((ptr ++ [nullCh]).take count)
      rw [copyChars, CString.deref_cons, List.tail_cons, ih _ _ _ (by simpa using hcount)]
      exact happend

/-! ## What it comes to -/

/-- The first entry whose prefix starts the name. -/
def firstMatch (tab : NameTable) (name : CString) : Option NmEntry :=
  tab.entries.find? fun e => e.nprefixStr.chars.isPrefixOf name.chars

/-- The replacement with the rest of the name. -/
def mappedName (e : NmEntry) (name : CString) : List UInt8 :=
  e.nreplaceStr.chars ++ name.chars.drop e.nprefixStr.chars.length

theorem namreplFrom_eq (name : CString) (newname : Mem) (entries : List NmEntry) :
    namreplFrom name newname entries =
      (entries.find? fun e => e.nprefixStr.chars.isPrefixOf name.chars).elim (none, newname)
        fun e => substitute name newname e (name.chars.drop e.nprefixStr.chars.length)
          e.nprefixStr.chars.length := by
  induction entries with
  | nil => rfl
  | cons e entries ih =>
    by_cases hpre : e.nprefixStr.chars <+: name.chars
    · have htest : e.nprefixStr.chars.isPrefixOf name.chars = true := by simpa using hpre
      simp only [namreplFrom, comparePrefix_of_prefix hpre, CString.deref_nil, ne_eq,
        not_true_eq_false, if_false, List.find?_cons, htest, Option.elim_some, Nat.zero_add]
    · have htest : e.nprefixStr.chars.isPrefixOf name.chars = false :=
        Bool.eq_false_iff.mpr fun h => hpre (by simpa using h)
      have hmiss := comparePrefix_of_not_prefix e.nprefixStr.nonnull hpre 0
      simp only [namreplFrom, if_pos hmiss, List.find?_cons, htest, ih]

theorem namrepl_eq (tab : NameTable) (name : CString) (newname : Mem) :
    namrepl tab name newname =
      (firstMatch tab name).elim (none, newname) fun e =>
        substitute name newname e (name.chars.drop e.nprefixStr.chars.length)
          e.nprefixStr.chars.length :=
  namreplFrom_eq name newname tab.entries

theorem prefix_of_firstMatch {tab : NameTable} {name : CString} {e : NmEntry}
    (h : firstMatch tab name = some e) : e.nprefixStr.chars <+: name.chars := by
  simpa using List.find?_some h

theorem namlen_replace (e : NmEntry) :
    namlen e.nreplaceStr nmMaxLen - 1 = (e.nreplaceStr.chars.length : Int) := by
  have hlt := e.replace_lt
  unfold nmReplLen at hlt
  rw [namlen_eq, if_pos (by unfold nmMaxLen; omega)]
  omega

/-- Up to 126 characters the length of the name is kept, and the name is mapped. -/
theorem substitute_short {name : CString} {e : NmEntry} (hpre : e.nprefixStr.chars <+: name.chars)
    (hshort : name.chars.length ≤ 126) (newname : Mem) :
    substitute name newname e (name.chars.drop e.nprefixStr.chars.length)
        e.nprefixStr.chars.length =
      if (mappedName e name).length < nmMaxLen then
        (some e.ndevice, newname.write 0 (mappedName e name ++ [nullCh]))
      else (none, newname) := by
  have hplen := hpre.length_le
  have holen : toChar (namlen name nmMaxLen) = name.chars.length + 1 := by
    rw [namlen_eq, if_pos (by unfold nmMaxLen; omega), toChar]
    omega
  have hremain : ((name.chars.length : Int) + 1 - e.nprefixStr.chars.length).toNat =
      (name.chars.drop e.nprefixStr.chars.length).length + 1 := by
    rw [List.length_drop]
    omega
  have hmapped : (mappedName e name).length =
      e.nreplaceStr.chars.length + (name.chars.length - e.nprefixStr.chars.length) := by
    rw [mappedName, List.length_append, List.length_drop]
  simp only [substitute, holen, namlen_replace, hremain, Int.toNat_natCast]
  by_cases hfits : (mappedName e name).length < nmMaxLen
  · rw [if_pos hfits, if_neg (by unfold nmMaxLen at *; omega), copyChars_eq _ _ _ _ (by omega),
      copyChars_eq _ _ _ _ (by omega), List.take_append_of_le_length (Nat.le_refl _),
      List.take_length, List.take_of_length_le (by simp)]
    have happend := Mem.write_append newname 0 e.nreplaceStr.chars
      (name.chars.drop e.nprefixStr.chars.length ++ [nullCh])
    rw [Nat.zero_add] at happend
    rw [happend, mappedName, List.append_assoc]
  · rw [if_neg hfits, if_pos (by unfold nmMaxLen at *; omega)]

/-- From 127 characters on nothing of the name is left behind the replacement, and
its length is never found too large. -/
theorem substitute_long {name : CString} (hlong : 127 ≤ name.chars.length) (e : NmEntry)
    (newname : Mem) (optr : List UInt8) (plen : Nat) :
    substitute name newname e optr plen =
      (some e.ndevice, newname.write 0 e.nreplaceStr.chars) := by
  have holen : toChar (namlen name nmMaxLen) ≤ 0 := by
    rw [namlen_eq]
    by_cases hlt : name.chars.length < nmMaxLen
    · rw [if_pos hlt, toChar]
      unfold nmMaxLen at hlt
      omega
    · rw [if_neg hlt]
      decide
  have hlt := e.replace_lt
  have hremain : (toChar (namlen name nmMaxLen) - plen).toNat = 0 := by omega
  simp only [substitute, namlen_replace, hremain, Int.toNat_natCast]
  rw [if_neg (by unfold nmMaxLen nmReplLen at *; omega),
    copyChars_eq newname 0 e.nreplaceStr.chars _ (by omega),
    List.take_append_of_le_length (Nat.le_refl _), List.take_length]
  rfl

/-- Prefix replacement of one name: the first entry that matches gives the device
and the name it maps to, with its null; a name that matches none, or whose mapped
form does not fit, is refused. -/
structure MapsName (tab : NameTable) (name : CString) : Prop where
  maps : ∀ e, firstMatch tab name = some e → (mappedName e name).length < nmMaxLen →
    ∀ newname, (namrepl tab name newname).1 = some e.ndevice ∧
      (namrepl tab name newname).2.read 0 ((mappedName e name).length + 1) =
        mappedName e name ++ [nullCh]
  refuses : ∀ e, firstMatch tab name = some e → nmMaxLen ≤ (mappedName e name).length →
    ∀ newname, (namrepl tab name newname).1 = none
  misses : firstMatch tab name = none → ∀ newname, (namrepl tab name newname).1 = none

/-- A longer name that matches is not mapped: either its null is missing behind the
replacement, or it is taken although it does not fit. -/
theorem not_mapsName_of_long {tab : NameTable} {name : CString} {e : NmEntry}
    (he : firstMatch tab name = some e) (hlong : 127 ≤ name.chars.length) :
    ¬ MapsName tab name := by
  intro h
  have hrun : ∀ newname, namrepl tab name newname =
      (some e.ndevice, newname.write 0 e.nreplaceStr.chars) := by
    intro newname
    rw [namrepl_eq, he]
    exact substitute_long hlong e newname _ _
  by_cases hfits : (mappedName e name).length < nmMaxLen
  · have hread := (h.maps e he hfits fun _ => 1).2
    have hnull := congrArg (fun bs => bs[(mappedName e name).length]?) hread
    simp only [hrun] at hnull
    rw [Mem.getElem?_read (Nat.lt_succ_self _), Nat.zero_add, Mem.write_outside] at hnull
    · simp at hnull
      exact absurd hnull (by decide)
    · rw [mappedName, List.length_append]
      omega
  · have hnone := h.refuses e he (Nat.not_lt.mp hfits) fun _ => 0
    rw [hrun] at hnone
    exact absurd hnone (Option.some_ne_none _)

/-- `namrepl` replaces prefixes for the names of at most 126 characters, and where
nothing matches. -/
theorem namrepl_maps_iff (tab : NameTable) (name : CString) :
    MapsName tab name ↔ (firstMatch tab name = none ∨ name.chars.length ≤ 126) := by
  constructor
  · intro h
    by_contra hcon
    rw [not_or, Nat.not_le] at hcon
    obtain ⟨e, he⟩ := Option.ne_none_iff_exists'.mp hcon.1
    exact not_mapsName_of_long he hcon.2 h
  · intro h
    have hrun : ∀ e, firstMatch tab name = some e → ∀ newname, namrepl tab name newname =
        if (mappedName e name).length < nmMaxLen then
          (some e.ndevice, newname.write 0 (mappedName e name ++ [nullCh]))
        else (none, newname) := by
      intro e he newname
      have hshort : name.chars.length ≤ 126 := by
        rcases h with hnone | hshort
        · exact absurd (hnone.symm.trans he) (Option.some_ne_none e).symm
        · exact hshort
      rw [namrepl_eq, he]
      exact substitute_short (prefix_of_firstMatch he) hshort newname
    constructor
    · intro e he hfits newname
      rw [hrun e he, if_pos hfits]
      refine ⟨rfl, ?_⟩
      have hself := Mem.read_write_self newname 0 (mappedName e name ++ [nullCh])
      rwa [List.length_append, List.length_singleton] at hself
    · intro e he hbig newname
      rw [hrun e he, if_neg (Nat.not_lt.mpr hbig)]
    · intro hnone newname
      rw [namrepl_eq, hnone]
      rfl

/-- With the prefix `""` mounted, a name of 127 characters maps to nothing. -/
theorem namrepl_drops_long_name :
    ¬ MapsName (mountAll .empty [(⟨[], by simp⟩, ⟨[], by simp⟩, 0)])
      ⟨List.replicate 127 97, by simp [nullCh]⟩ :=
  not_mapsName_of_long rfl (by simp)

end NatBox
