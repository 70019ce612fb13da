import Mathlib.Data.FinEnum
import NatBox.Lib.CString
import NatBox.Memory.Heap

/-
Dotted decimal: `dot2ip`.

The function counts segments and the characters of each in two nested loops and
forms its verdict from what the counters and the last character are when the
loops end.  `dot2ip_eq` says what that verdict comes to: a string is taken when
the pieces between its dots are one to four segments, so the form with fewer than
four segments is taken as well, with the address its segments give.
-/

namespace NatBox

/-- `'.'`, `'0'` and `'9'` -/
abbrev dot : UInt8 := 46
abbrev digit0 : UInt8 := 48
abbrev digit9 : UInt8 := 57

/-- The loop over the characters of a segment with `left` of its four rounds to
go.  It leaves `val`, `ch` and `dotted`; `none` is its return of `SYSERR`. -/
def dot2ipChars : Nat → Nat → UInt8 → List UInt8 → Option (Nat × UInt8 × List UInt8)
  | 0, val, ch, dotted => some (val, ch, dotted)
  | left + 1, val, _, dotted =>
    let nch := 3 - left
    let ch := CString.deref dotted
    if ch = nullCh ∨ ch = dot then
      if nch = 0 then none else some (val, ch, dotted.tail)
    else if 3 ≤ nch ∨ ch < digit0 ∨ digit9 < ch then none
    else dot2ipChars left (10 * val + (ch - digit0).toNat) ch dotted.tail

/-- The loop over the segments with `left` of its four rounds to go.  It leaves
`seg`, `ch` and `ipaddr`. -/
def dot2ipSegs : Nat → Nat → UInt8 → List UInt8 → Option (Nat × UInt8 × Nat)
  | 0, ipaddr, ch, _ => some (4, ch, ipaddr)
  | left + 1, ipaddr, ch, dotted =>
    match dot2ipChars 4 0 ch dotted with
    | none => none
    | some (val, ch, dotted) =>
      if 255 < val then none
      else
        let ipaddr := (ipaddr <<< 8 ||| val) % 2 ^ 32
        if ch = nullCh then some (3 - left, ch, ipaddr) else dot2ipSegs left ipaddr ch dotted

/-- What is left to do once the loops have ended: the value to store. -/
def dot2ipVerdict : Option (Nat × UInt8 × Nat) → Option Nat
  | none => none
  | some (seg, ch, ipaddr) => if 4 ≤ seg ∨ ch ≠ nullCh then none else some ipaddr

/-- `dot2ip`: the status and what `result` then holds.  `ch` has no value before
the first character is read, and none is looked at. -/
def dot2ip (dotted : CString) (result : Nat) : Status × Nat :=
  match dot2ipVerdict (dot2ipSegs 4 0 nullCh dotted.chars) with
  | none => (.syserr, result)
  | some ipaddr => (.ok, ipaddr)

/-! ## Segments -/

/-- The value of a string of digits. -/
def decimal (ds : List UInt8) : Nat := ds.foldl (fun v ch => 10 * v + (ch - digit0).toNat) 0

/-- One to three digits with a value of at most 255. -/
def IsSegment (ds : List UInt8) : Prop :=
  1 ≤ ds.length ∧ ds.length ≤ 3 ∧ (∀ ch ∈ ds, digit0 ≤ ch ∧ ch ≤ digit9) ∧ decimal ds ≤ 255

instance (ds : List UInt8) : Decidable (IsSegment ds) :=
  inferInstanceAs (Decidable (_ ∧ _ ∧ _ ∧ _))

/-- The segments `segs` with single dots between them. -/
def Dotted (s : CString) (segs : List (List UInt8)) : Prop :=
  segs ≠ [] ∧ (∀ ds ∈ segs, IsSegment ds) ∧ s.chars = [dot].intercalate segs

/-- The address that segments make, the first of them in the highest byte. -/
def segsAddr (segs : List (List UInt8)) : Nat :=
  segs.foldl (fun ip ds => (ip <<< 8 ||| decimal ds) % 2 ^ 32) 0

theorem IsSegment.dot_notMem {ds : List UInt8} (h : IsSegment ds) : dot ∉ ds := by
  intro hd
  have := (h.2.2.1 dot hd).1
  exact absurd this (by decide)

/-- A string has one reading as segments: its pieces between the dots. -/
theorem Dotted.eq_splitOn {s : CString} {segs : List (List UInt8)} (h : Dotted s segs) :
    segs = s.chars.splitOn dot := by
  rw [h.2.2]
  exact (List.splitOn_intercalate dot (fun ds hds => (h.2.1 ds hds).dot_notMem) h.1).symm

theorem dotted_splitOn_iff (s : CString) :
    Dotted s (s.chars.splitOn dot) ↔ ∀ ds ∈ s.chars.splitOn dot, IsSegment ds := by
  simp [Dotted]

/-! ## The loops -/

theorem dot2ipChars_cons (left val : Nat) (ch c : UInt8) (dotted : List UInt8) :
    dot2ipChars (left + 1) val ch (c :: dotted) =
      if c = nullCh ∨ c = dot then if 3 - left = 0 then none else some (val, c, dotted)
      else if 3 ≤ 3 - left ∨ c < digit0 ∨ digit9 < c then none
      else dot2ipChars left (10 * val + (c - digit0).toNat) c dotted := rfl

/-- The loop over characters takes the digits `ds` in front of a dot or of the
end, if there are not too many of them and, for a whole segment, at least one. -/
theorem dot2ipChars_append {left val : Nat} {ch : UInt8} {ds ahead : List UInt8}
    (hdot : dot ∉ ds) (hnull : nullCh ∉ ds) (hahead : ahead = [] ∨ ∃ rest, ahead = dot :: rest)
    (hleft : left ≤ 3) :
    dot2ipChars (left + 1) val ch (ds ++ ahead) =
      if (left = 3 → ds ≠ []) ∧ ds.length ≤ left ∧ ∀ ch ∈ ds, digit0 ≤ ch ∧ ch ≤ digit9 then
        some (ds.foldl (fun v ch => 10 * v + (ch - digit0).toNat) val, CString.deref ahead,
          ahead.tail)
      else none := by
  induction ds generalizing left val ch with
  | nil =>
    have hend : CString.deref ahead = nullCh ∨ CString.deref ahead = dot := by
      rcases hahead with rfl | ⟨rest, rfl⟩
      · exact .inl rfl
      · exact .inr rfl
    simp only [dot2ipChars, List.nil_append, if_pos hend]
    by_cases h3 : left = 3
    · simp [h3]
    · rw [if_neg (by omega), if_pos ⟨fun h => absurd h h3, by simp, by simp⟩]
      rfl
  | cons c ds ih =>
    simp only [List.mem_cons, not_or] at hdot hnull
    have hgo : ¬ (c = nullCh ∨ c = dot) := by
      rintro (h | h)
      · exact hnull.1 h.symm
      · exact hdot.1 h.symm
    rw [List.cons_append, dot2ipChars_cons, if_neg hgo]
    by_cases hc : digit0 ≤ c ∧ c ≤ digit9
    · cases left with
      | zero => rw [if_pos (.inl (by omega)), if_neg (by simp)]
      | succ left =>
        have hok : ¬ (3 ≤ 3 - (left + 1) ∨ c < digit0 ∨ digit9 < c) := by
          rintro (h | h | h)
          · omega
          · exact absurd hc.1 (UInt8.not_le.mpr h)
          · exact absurd hc.2 (UInt8.not_le.mpr h)
        rw [if_neg hok, ih hdot.2 hnull.2 (by omega)]
        have hne : ¬ left = 3 := by omega
        simp [hne, hc]
    · have hbad : 3 ≤ 3 - left ∨ c < digit0 ∨ digit9 < c := by
        by_cases hlt : c < digit0
        · exact .inr (.inl hlt)
        · exact .inr (.inr (UInt8.not_le.mp fun h => hc ⟨UInt8.not_lt.mp hlt, h⟩))
      rw [if_pos hbad, if_neg fun h => hc (h.2.2 c List.mem_cons_self)]

/-- A whole segment in front of a dot or of the end. -/
theorem dot2ipChars_segment {ch : UInt8} {ds ahead : List UInt8} (hdot : dot ∉ ds)
    (hnull : nullCh ∉ ds) (hahead : ahead = [] ∨ ∃ rest, ahead = dot :: rest) :
    dot2ipChars 4 0 ch (ds ++ ahead) =
      if 1 ≤ ds.length ∧ ds.length ≤ 3 ∧ ∀ ch ∈ ds, digit0 ≤ ch ∧ ch ≤ digit9 then
        some (decimal ds, CString.deref ahead, ahead.tail)
      else none := by
  rw [dot2ipChars_append hdot hnull hahead (Nat.le_refl 3)]
  have hne : (3 = 3 → ds ≠ []) ↔ 1 ≤ ds.length := by
    simp [List.length_pos_iff, Nat.succ_le_iff]
  exact if_congr (and_congr hne Iff.rfl) rfl rfl

/-- One round of the outer loop. -/
theorem dot2ipSegs_step {left ipaddr : Nat} {ch : UInt8} {ds ahead : List UInt8}
    (hdot : dot ∉ ds) (hnull : nullCh ∉ ds) (hahead : ahead = [] ∨ ∃ rest, ahead = dot :: rest) :
    dot2ipSegs (left + 1) ipaddr ch (ds ++ ahead) =
      if IsSegment ds then
        let ip := (ipaddr <<< 8 ||| decimal ds) % 2 ^ 32
        if ahead = [] then some (3 - left, nullCh, ip) else dot2ipSegs left ip dot ahead.tail
      else none := by
  simp only [dot2ipSegs, dot2ipChars_segment hdot hnull hahead]
  by_cases hseg : IsSegment ds
  · rw [if_pos ⟨hseg.1, hseg.2.1, hseg.2.2.1⟩, if_pos hseg]
    simp only [if_neg (Nat.not_lt.mpr hseg.2.2.2)]
    rcases hahead with rfl | ⟨rest, rfl⟩
    · simp
    · have hdn : dot ≠ nullCh := by decide
      simp [hdn]
  · rw [if_neg hseg]
    by_cases hchars : 1 ≤ ds.length ∧ ds.length ≤ 3 ∧ ∀ ch ∈ ds, digit0 ≤ ch ∧ ch ≤ digit9
    · have hbig : 255 < decimal ds := by
        by_contra h
        exact hseg ⟨hchars.1, hchars.2.1, hchars.2.2, by omega⟩
      simp only [if_pos hchars, if_pos hbig]
    · simp only [if_neg hchars]

/-- The outer loop on pieces with dots between them, and the verdict on it. -/
theorem dot2ipSegs_pieces {segs : List (List UInt8)} (hne : segs ≠ [])
    (hdot : ∀ ds ∈ segs, dot ∉ ds) (hnull : ∀ ds ∈ segs, nullCh ∉ ds) (left ipaddr : Nat)
    (ch : UInt8) (hleft : left ≤ 4) :
    dot2ipVerdict (dot2ipSegs left ipaddr ch ([dot].intercalate segs)) =
      if segs.length ≤ left ∧ ∀ ds ∈ segs, IsSegment ds then
        some (segs.foldl (fun ip ds => (ip <<< 8 ||| decimal ds) % 2 ^ 32) ipaddr)
      else none := by
  induction segs generalizing left ipaddr ch with
  | nil => exact absurd rfl hne
  | cons ds segs ih =>
    cases left with
    | zero => simp [dot2ipSegs, dot2ipVerdict]
    | succ left =>
      have hd := hdot ds List.mem_cons_self
      have hn := hnull ds List.mem_cons_self
      cases segs with
      | nil =>
        have hstep := @dot2ipSegs_step left ipaddr ch ds [] hd hn (.inl rfl)
        simp only [List.append_nil] at hstep
        simp only [List.intercalate_singleton, hstep]
        by_cases hseg : IsSegment ds
        · have hlt : ¬ 4 ≤ 3 - left := by omega
          simp [hseg, dot2ipVerdict, hlt]
        · simp [hseg, dot2ipVerdict]
      | cons e segs =>
        have hstep := @dot2ipSegs_step left ipaddr ch ds (dot :: [dot].intercalate (e :: segs))
          hd hn (.inr ⟨_, rfl⟩)
        have hjoin : [dot].intercalate (ds :: e :: segs) =
            ds ++ dot :: [dot].intercalate (e :: segs) := by
          rw [List.intercalate_cons_cons]
          simp
        rw [hjoin, hstep]
        by_cases hseg : IsSegment ds
        · rw [if_pos hseg]
          simp only [reduceCtorEq, if_false, List.tail_cons]
          rw [ih (by simp) (fun x hx => hdot x (List.mem_cons_of_mem _ hx))
            (fun x hx => hnull x (List.mem_cons_of_mem _ hx)) _ _ _ (by omega)]
          simp only [List.length_cons, Nat.add_le_add_iff_right, List.foldl_cons,
            List.forall_mem_cons , hseg, true_and]
        · rw [if_neg hseg, if_neg fun h => hseg (h.2 ds List.mem_cons_self)]
          rfl

/-- `dot2ip` takes the strings of one to four segments. -/
theorem dot2ip_eq (s : CString) (result : Nat) :
    dot2ip s result =
      if (s.chars.splitOn dot).length ≤ 4 ∧ ∀ ds ∈ s.chars.splitOn dot, IsSegment ds then
        (.ok, segsAddr (s.chars.splitOn dot))
      else (.syserr, result) := by
  have hpiece := CString.splitOn_piece dot s.chars
  have hjoin : [dot].intercalate (s.chars.splitOn dot) = s.chars := List.intercalate_splitOn dot
  have hverdict := dot2ipSegs_pieces (List.splitOn_ne_nil dot s.chars)
    (fun ds hds => (hpiece ds hds).1) (fun ds hds h => s.nonnull ((hpiece ds hds).2 _ h))
    4 0 nullCh (Nat.le_refl 4)
  rw [hjoin] at hverdict
  rw [dot2ip, hverdict]
  by_cases h : (s.chars.splitOn dot).length ≤ 4 ∧ ∀ ds ∈ s.chars.splitOn dot, IsSegment ds
  · simp only [if_pos h, segsAddr]
  · simp only [if_neg h]

/-! ## Dotted quads -/

/-- What a dotted-quad reader does with `s`: the value of a quad is stored, and
any other string is refused with the result left alone. -/
def ReadsQuads (s : CString) : Prop :=
  ∀ result,
    (∀ a b c d, Dotted s [a, b, c, d] → dot2ip s result =
      (.ok, decimal a * 2 ^ 24 + decimal b * 2 ^ 16 + decimal c * 2 ^ 8 + decimal d)) ∧
    ((¬ ∃ a b c d, Dotted s [a, b, c, d]) → dot2ip s result = (.syserr, result))

/-- A segment goes into the low byte of the address. -/
theorem shift_or_segment {ip n : Nat} {ds : List UInt8} (hip : ip < 2 ^ n) (hn : n ≤ 24)
    (h : IsSegment ds) : (ip <<< 8 ||| decimal ds) % 2 ^ 32 = ip * 2 ^ 8 + decimal ds := by
  have hds : decimal ds < 2 ^ 8 := Nat.lt_succ_of_le h.2.2.2
  have hip' : ip < 2 ^ 24 := Nat.lt_of_lt_of_le hip (Nat.pow_le_pow_right (by decide) hn)
  rw [← Nat.shiftLeft_add_eq_or_of_lt hds, Nat.shiftLeft_eq]
  exact Nat.mod_eq_of_lt (by omega)

theorem segsAddr_quad {a b c d : List UInt8} (ha : IsSegment a) (hb : IsSegment b)
    (hc : IsSegment c) (hd : IsSegment d) :
    segsAddr [a, b, c, d] =
      decimal a * 2 ^ 24 + decimal b * 2 ^ 16 + decimal c * 2 ^ 8 + decimal d := by
  have la := ha.2.2.2
  have lb := hb.2.2.2
  have lc := hc.2.2.2
  simp only [segsAddr, List.foldl_cons, List.foldl_nil]
  rw [shift_or_segment (n := 0) (by decide) (by decide) ha]
  rw [shift_or_segment (n := 8) (by omega) (by decide) hb]
  rw [shift_or_segment (n := 16) (by omega) (by decide) hc]
  rw [shift_or_segment (n := 24) (by omega) (by decide) hd]
  omega

/-- `dot2ip` reads a string as a quad or refuses it, unless the string is one to
three segments: the verdict does not ask for four. -/
theorem dot2ip_quads_iff (s : CString) :
    ReadsQuads s ↔ ¬ ∃ segs, Dotted s segs ∧ segs.length < 4 := by
  constructor
  · rintro h ⟨segs, hsegs, hlen⟩
    -- the segments are the pieces the verdict is about
    have heq := hsegs.eq_splitOn
    have hok : dot2ip s 0 = (.ok, segsAddr segs) := by
      rw [dot2ip_eq, ← heq, if_pos ⟨by omega, hsegs.2.1⟩]
    have hno : ¬ ∃ a b c d, Dotted s [a, b, c, d] := by
      rintro ⟨a, b, c, d, hq⟩
      have h4 : segs.length = 4 := by rw [heq, ← hq.eq_splitOn]; rfl
      omega
    have hrefused := (h 0).2 hno
    rw [hok] at hrefused
    exact Status.noConfusion (congrArg Prod.fst hrefused)
  · intro hfew result
    constructor
    · intro a b c d hq
      have hq' := hq.2.1
      rw [dot2ip_eq, ← hq.eq_splitOn, if_pos ⟨by simp, hq'⟩]
      simp only [List.forall_mem_cons] at hq'
      rw [segsAddr_quad hq'.1 hq'.2.1 hq'.2.2.1 hq'.2.2.2.1]
    · intro hno
      rw [dot2ip_eq, if_neg]
      rintro ⟨hlen, hall⟩
      have hd := (dotted_splitOn_iff s).mpr hall
      by_cases h4 : (s.chars.splitOn dot).length < 4
      · exact hfew ⟨_, hd, h4⟩
      · have hfour : (s.chars.splitOn dot).length = 4 := by omega
        obtain ⟨a, b, c, d, habcd⟩ := List.length_eq_four.mp hfour
        exact hno ⟨a, b, c, d, habcd ▸ hd⟩

/-- `"1.2"` is taken, as the address 258. -/
theorem dot2ip_two_segments : ¬ ReadsQuads ⟨[49, 46, 50], by decide⟩ := by
  intro h
  have hrun : dot2ip ⟨[49, 46, 50], by decide⟩ 0 = (.ok, 258) := by decide
  have hno : ¬ ∃ a b c d, Dotted ⟨[49, 46, 50], by decide⟩ [a, b, c, d] := by
    rintro ⟨a, b, c, d, hq⟩
    have hlen : ([49, 46, 50] : List UInt8).splitOn dot = [[49], [50]] := by decide
    have := hq.eq_splitOn.trans hlen
    simp at this
  have hrefused := (h 0).2 hno
  rw [hrun] at hrefused
  exact absurd (congrArg Prod.fst hrefused) (by decide)

example : dot2ip ⟨[49, 46, 50, 46, 51, 46, 52], by decide⟩ 0 = (.ok, 0x01020304) := by decide

end NatBox
