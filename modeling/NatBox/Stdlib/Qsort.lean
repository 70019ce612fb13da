import Mathlib.Algebra.Group.Nat.Defs
import Mathlib.Data.Nat.Log
import NatBox.Lib.ByteMemory
import NatBox.Lib.Quicksort

/-
`qsort` of the C library.

A pointer is an address in a `Mem`, and the comparison is any function of the bytes of two
elements.  `qs1` is run with a number of stack frames and faults where it needs more.
`qsort_rearranges` and `qsort_sorts` are about every array: the code works on bytes as
`Quicksort.sort` does on elements, one turn of its loops for one of `Quicksort.turn`.
-/

namespace NatBox

open Quicksort Rearranged

inductive QsortFault
  | stackOverflow
  | endlessLoop
  deriving DecidableEq

/-- The loop of `qsexc`, for the `n` bytes that are left. -/
def qsexc : Nat → Nat → Nat → Mem → Mem
  | 0, _, _, m => m
  | n + 1, ri, rj, m =>
    let c := m ri
    let m := m.write ri [m rj]
    let m := m.write rj [c]
    qsexc n (ri + 1) (rj + 1) m

def qstexc : Nat → Nat → Nat → Nat → Mem → Mem
  | 0, _, _, _, m => m
  | n + 1, ri, rj, rk, m =>
    let c := m ri
    let m := m.write ri [m rk]
    let m := m.write rk [m rj]
    let m := m.write rj [c]
    qstexc n (ri + 1) (rj + 1) (rk + 1) m

/-- The memory and the pointers of `qs1` inside its loops. -/
structure Qs1 where
  mem : Mem
  i : Nat
  lp : Nat
  hp : Nat
  j : Nat

/-- Where control is: at the head of `for (;;)` or at `loop:`. -/
inductive Qs1Label
  | forever
  | loop

section Qs1

variable (qses : Nat) (qscmp : List UInt8 → List UInt8 → Int)

/-- `(*qscmp) (x, y)` -/
def Qs1.compare (s : Qs1) (x y : Nat) : Int := qscmp (s.mem.read x qses) (s.mem.read y qses)

/-- From one label to the next.  There is none where the inner loops are left. -/
def qs1Turn (s : Qs1) : Qs1Label → Option Qs1Label × Qs1
  | .forever =>
    if s.i < s.lp then
      let c := s.compare qses qscmp s.i s.lp
      if c = 0 then
        let lp := s.lp - qses
        (some .forever, { s with mem := qsexc qses s.i lp s.mem, lp := lp })
      else if c < 0 then (some .forever, { s with i := s.i + qses })
      else (some .loop, s)
    else (some .loop, s)
  | .loop =>
    if s.hp < s.j then
      let c := s.compare qses qscmp s.hp s.j
      if c = 0 then
        let hp := s.hp + qses
        (some .loop, { s with mem := qsexc qses hp s.j s.mem, hp := hp })
      else if 0 < c then
        if s.i = s.lp then
          let hp := s.hp + qses
          let mem := qstexc qses s.i hp s.j s.mem
          let lp := s.lp + qses
          (some .loop, { s with mem := mem, i := lp, lp := lp, hp := hp })
        else
          let mem := qsexc qses s.i s.j s.mem
          (some .forever, { s with mem := mem, i := s.i + qses, j := s.j - qses })
      else (some .loop, { s with j := s.j - qses })
    else if s.i = s.lp then (none, s)
    else
      let lp := s.lp - qses
      let mem := qstexc qses s.j lp s.i s.mem
      let hp := s.hp - qses
      (some .forever, { s with mem := mem, lp := lp, hp := hp, j := hp })

def qs1Forever : Nat → Qs1Label → Qs1 → Except QsortFault Qs1
  | 0, _, _ => .error .endlessLoop
  | fuel + 1, label, s =>
    match qs1Turn qses qscmp s label with
    | (none, s) => .ok s
    | (some label, s) => qs1Forever fuel label s

/-- From `start:` on.  `call` is the recursive call. -/
def qs1Start (call : Nat → Nat → Mem → Except QsortFault Mem) :
    Nat → Nat → Nat → Mem → Except QsortFault Mem
  | 0, _, _, _ => .error .endlessLoop
  | fuel + 1, a, l, m =>
    let n := l - a
    if n ≤ qses then .ok m
    else do
      let mid := a + qses * (n / (2 * qses))
      let s ← qs1Forever qses qscmp (2 * (n / qses)) .forever ⟨m, a, mid, mid, l - qses⟩
      if l - s.hp ≤ s.lp - a then
        let m ← call (s.hp + qses) l s.mem
        qs1Start call fuel a s.lp m
      else
        let m ← call a s.lp s.mem
        qs1Start call fuel (s.hp + qses) l m

/-- `qs1` where the stack has room for that many frames of it. -/
def qs1 : Nat → Nat → Nat → Mem → Except QsortFault Mem
  | 0, _, _, _ => .error .stackOverflow
  | frames + 1, a, l, m => qs1Start qses qscmp (qs1 frames) ((l - a) / qses + 1) a l m

end Qs1

def qsort (frames a n es : Nat) (fc : List UInt8 → List UInt8 → Int) (m : Mem) :
    Except QsortFault Mem :=
  qs1 es fc frames a (a + n * es) m

/-! ## The exchanges -/

variable {es base : Nat} {m : Mem}

/-- The element that lies `k` elements behind `base`. -/
def elementAt (es base : Nat) (m : Mem) (k : Nat) : List UInt8 := m.read (base + es * k) es

/-- Elements do not overlap. -/
theorem element_apart (es : Nat) {a b : Nat} (h : a ≠ b) :
    es * a + es ≤ es * b ∨ es * b + es ≤ es * a := by
  rcases Nat.lt_or_gt_of_ne h with hlt | hgt
  · exact .inl (Nat.mul_le_mul_left es hlt)
  · exact .inr (Nat.mul_le_mul_left es hgt)

theorem write_byte (m : Mem) (off x : Nat) (b : UInt8) :
    m.write off [b] x = if x = off then b else m x := by
  by_cases h : x = off
  · rw [if_pos h, h]
    exact Mem.write_inside (i := 0) rfl
  · rw [if_neg h]
    exact Mem.write_outside (by rw [List.length_singleton]; omega)

/-- The `n` bytes at the two places are the same ones, or do not overlap. -/
def Apart (n a b : Nat) : Prop := a = b ∨ a + n ≤ b ∨ b + n ≤ a

theorem qsexc_outside {x : Nat} (n : Nat) : ∀ (ri rj : Nat) (m : Mem),
    (x < ri ∨ ri + n ≤ x) → (x < rj ∨ rj + n ≤ x) → qsexc n ri rj m x = m x := by
  induction n with
  | zero => exact fun _ _ _ _ _ => rfl
  | succ n ih =>
    intro ri rj m hi hj
    rw [qsexc, ih _ _ _ (by omega) (by omega), write_byte, if_neg (by omega), write_byte,
      if_neg (by omega)]

theorem add_succ_place (p d : Nat) : p + (d + 1) = p + 1 + d := by omega

theorem qsexc_first (n : Nat) : ∀ (ri rj d : Nat) (m : Mem), Apart n ri rj → d < n →
    qsexc n ri rj m (ri + d) = m (rj + d) := by
  induction n with
  | zero => exact fun _ _ _ _ _ hd => absurd hd (Nat.not_lt_zero _)
  | succ n ih =>
    intro ri rj d m hij hd
    unfold Apart at hij
    rw [qsexc]
    cases d with
    | zero =>
      simp only [Nat.add_zero]
      rw [qsexc_outside n _ _ _ (by omega) (by omega), write_byte,
        write_byte, if_pos rfl]
      by_cases heq : ri = rj
      · rw [if_pos heq, heq]
      · rw [if_neg heq]
    | succ d =>
      have hrest := ih (ri + 1) (rj + 1) d ((m.write ri [m rj]).write rj [m ri])
        (by unfold Apart; omega) (by omega)
      simp only [add_succ_place _ d]
      refine hrest.trans ?_
      rw [write_byte, if_neg (by omega), write_byte, if_neg (by omega)]

theorem qsexc_second (n : Nat) : ∀ (ri rj d : Nat) (m : Mem), Apart n ri rj → d < n →
    qsexc n ri rj m (rj + d) = m (ri + d) := by
  induction n with
  | zero => exact fun _ _ _ _ _ hd => absurd hd (Nat.not_lt_zero _)
  | succ n ih =>
    intro ri rj d m hij hd
    unfold Apart at hij
    rw [qsexc]
    cases d with
    | zero =>
      simp only [Nat.add_zero]
      rw [qsexc_outside n _ _ _ (by omega) (by omega), write_byte,
        if_pos rfl]
    | succ d =>
      have hrest := ih (ri + 1) (rj + 1) d ((m.write ri [m rj]).write rj [m ri])
        (by unfold Apart; omega) (by omega)
      simp only [add_succ_place _ d]
      refine hrest.trans ?_
      rw [write_byte, if_neg (by omega), write_byte, if_neg (by omega)]

theorem qstexc_outside {x : Nat} (n : Nat) : ∀ (ri rj rk : Nat) (m : Mem),
    (x < ri ∨ ri + n ≤ x) → (x < rj ∨ rj + n ≤ x) → (x < rk ∨ rk + n ≤ x) →
    qstexc n ri rj rk m x = m x := by
  induction n with
  | zero => exact fun _ _ _ _ _ _ _ => rfl
  | succ n ih =>
    intro ri rj rk m hi hj hk
    rw [qstexc, ih _ _ _ _ (by omega) (by omega) (by omega), write_byte, if_neg (by omega),
      write_byte, if_neg (by omega), write_byte, if_neg (by omega)]

/-- What the three places hold in the end: the first is apart from the others, which may be
the same. -/
theorem qstexc_places (n : Nat) : ∀ (ri rj rk d : Nat) (m : Mem),
    (ri + n ≤ rj ∨ rj + n ≤ ri) → (ri + n ≤ rk ∨ rk + n ≤ ri) → Apart n rj rk → d < n →
    qstexc n ri rj rk m (ri + d) = m (rk + d) ∧ qstexc n ri rj rk m (rj + d) = m (ri + d) ∧
      (rj ≠ rk → qstexc n ri rj rk m (rk + d) = m (rj + d)) := by
  induction n with
  | zero => exact fun _ _ _ _ _ _ _ _ hd => absurd hd (Nat.not_lt_zero _)
  | succ n ih =>
    intro ri rj rk d m hij hik hjk hd
    unfold Apart at hjk
    rw [qstexc]
    cases d with
    | zero =>
      simp only [Nat.add_zero]
      refine ⟨?_, ?_, fun hne => ?_⟩
      · rw [qstexc_outside n _ _ _ _ (by omega) (by omega) (by omega), write_byte,
          if_neg (by omega), write_byte, if_neg (by omega), write_byte, if_pos rfl]
      · rw [qstexc_outside n _ _ _ _ (by omega) (by omega) (by omega), write_byte, if_pos rfl]
      · rw [qstexc_outside n _ _ _ _ (by omega) (by omega) (by omega), write_byte,
          if_neg (by omega), write_byte, if_pos rfl, write_byte, if_neg (by omega)]
    | succ d =>
      simp only [add_succ_place _ d]
      obtain ⟨h₁, h₂, h₃⟩ := ih (ri + 1) (rj + 1) (rk + 1) d _ (by omega) (by omega)
        (by unfold Apart; omega) (by omega)
      refine ⟨h₁.trans ?_, h₂.trans ?_, fun hne => (h₃ (by omega)).trans ?_⟩ <;>
        rw [write_byte, if_neg (by omega), write_byte, if_neg (by omega), write_byte,
          if_neg (by omega)]

section Elements

variable {a b c k : Nat}

theorem apart_element (es base a b : Nat) : Apart es (base + es * a) (base + es * b) := by
  unfold Apart
  by_cases h : a = b
  · exact .inl (congrArg (fun x => base + es * x) h)
  · have := element_apart es h
    omega

theorem read_ext {m m' : Mem} {off off' len : Nat}
    (h : ∀ d, d < len → m (off + d) = m' (off' + d)) :
    m.read off len = m'.read off' len :=
  List.map_congr_left fun d hd => h d (List.mem_range.mp hd)

/-- On the elements, `qsexc` exchanges two of them. -/
theorem elementAt_qsexc : elementAt es base (qsexc es (base + es * a) (base + es * b) m) =
    exchange (elementAt es base m) a b := by
  have hab := apart_element es base a b
  funext k
  by_cases ha : k = a
  · rw [ha, exchange_left]
    exact read_ext fun d hd => qsexc_first es _ _ d m hab hd
  · by_cases hb : k = b
    · rw [hb, exchange_right]
      exact read_ext fun d hd => qsexc_second es _ _ d m hab hd
    · rw [exchange_other ha hb]
      have h₁ := element_apart es ha
      have h₂ := element_apart es hb
      exact read_ext fun d hd => qsexc_outside es _ _ m (by omega) (by omega)

theorem elementAt_qstexc (hab : a ≠ b) (hac : a ≠ c) :
    elementAt es base (qstexc es (base + es * a) (base + es * b) (base + es * c) m) =
      rotate (elementAt es base m) a b c := by
  have hab' := element_apart es hab
  have hac' := element_apart es hac
  have hplaces := fun d hd => qstexc_places es (base + es * a) (base + es * b) (base + es * c) d m
    (by omega) (by omega) (apart_element es base b c) hd
  funext k
  by_cases ha : k = a
  · rw [ha, rotate_first]
    exact read_ext fun d hd => (hplaces d hd).1
  by_cases hb : k = b
  · rw [hb, rotate_second hab hac]
    exact read_ext fun d hd => (hplaces d hd).2.1
  by_cases hc : k = c
  · have hbc : b ≠ c := fun h => hb (hc.trans h.symm)
    rw [hc, rotate_third hac hbc]
    refine read_ext fun d hd => (hplaces d hd).2.2 ?_
    have := element_apart es hbc
    omega
  · rw [rotate_other ha hb hc]
    have h₁ := element_apart es ha
    have h₂ := element_apart es hb
    have h₃ := element_apart es hc
    exact read_ext fun d hd => qstexc_outside es _ _ _ m (by omega) (by omega) (by omega)

end Elements

/-! ## The code on bytes and the sort of elements -/

variable {fc : List UInt8 → List UInt8 → Int} {lo hi : Nat}

def Qs1Label.scan : Qs1Label → Scan
  | .forever => .left
  | .loop => .right

/-- The memory holds the elements, and the pointers point at them. -/
structure Qs1.Shows (es base : Nat) (s : Qs1) (z : Zones (List UInt8)) : Prop where
  v : elementAt es base s.mem = z.v
  i : s.i = base + es * z.i
  lp : s.lp = base + es * z.lp
  hp : s.hp = base + es * z.hp
  j : s.j = base + es * z.j

theorem element_lt_iff (hes : 0 < es) (base a b : Nat) :
    base + es * a < base + es * b ↔ a < b := by
  rw [Nat.add_lt_add_iff_left, Nat.mul_lt_mul_left hes]

theorem element_eq_iff (hes : 0 < es) (base a b : Nat) :
    base + es * a = base + es * b ↔ a = b := by
  rw [Nat.add_left_cancel_iff, Nat.mul_right_inj (Nat.ne_of_gt hes)]

theorem element_succ (es base a : Nat) : base + es * a + es = base + es * (a + 1) := by
  rw [Nat.mul_succ, Nat.add_assoc]

theorem element_pred {a : Nat} (ha : 0 < a) : base + es * a - es = base + es * (a - 1) := by
  obtain ⟨k, rfl⟩ := Nat.exists_eq_succ_of_ne_zero (Nat.ne_of_gt ha)
  rw [← element_succ, Nat.add_sub_cancel]
  rfl

theorem element_sub (es base a b : Nat) : base + es * b - (base + es * a) = es * (b - a) := by
  rw [Nat.add_sub_add_left, Nat.mul_sub]

variable {s : Qs1} {z : Zones (List UInt8)}

theorem qs1Turn_shows (fc : List UInt8 → List UInt8 → Int) (hes : 0 < es)
    (h : s.Shows es base z) (hz : z.Inside lo hi) (label : Qs1Label) :
    (turn fc z label.scan).1 = (qs1Turn es fc s label).1.map Qs1Label.scan ∧
      (qs1Turn es fc s label).2.Shows es base (turn fc z label.scan).2 ∧
      ∀ x, x < base → (qs1Turn es fc s label).2.mem x = s.mem x := by
  obtain ⟨mem, i, lp, hp, j⟩ := s
  obtain ⟨hv, hi, hlp, hhp, hj⟩ := h
  obtain ⟨-, h₂, h₃, h₄, -⟩ := hz
  simp only at hv hi hlp hhp hj
  subst hi hlp hhp hj
  have hcmp : ∀ a b, Qs1.compare es fc ⟨mem, base + es * z.i, base + es * z.lp,
      base + es * z.hp, base + es * z.j⟩ (base + es * a) (base + es * b) =
      fc (z.v a) (z.v b) := by
    rw [← hv]
    exact fun a b => rfl
  cases label with
  | forever =>
    rw [Qs1Label.scan, qs1Turn, turn]
    simp only [hcmp, element_lt_iff hes]
    split_ifs with hip h₀ hneg
    · rw [element_pred (Nat.zero_lt_of_lt hip)]
      refine ⟨rfl, ⟨?_, rfl, rfl, rfl, rfl⟩, fun x hx => ?_⟩
      · exact elementAt_qsexc.trans (by rw [hv])
      · exact qsexc_outside es _ _ _ (by omega) (by omega)
    · exact ⟨rfl, ⟨hv, element_succ es base z.i, rfl, rfl, rfl⟩, fun _ _ => rfl⟩
    · exact ⟨rfl, ⟨hv, rfl, rfl, rfl, rfl⟩, fun _ _ => rfl⟩
    · exact ⟨rfl, ⟨hv, rfl, rfl, rfl, rfl⟩, fun _ _ => rfl⟩
  | loop =>
    rw [Qs1Label.scan, qs1Turn, turn]
    simp only [hcmp, element_lt_iff hes, element_eq_iff hes, element_succ]
    split_ifs with hjp h₀ hpos hip hip
    · refine ⟨rfl, ⟨elementAt_qsexc.trans (by rw [hv]), rfl, rfl, rfl, rfl⟩, fun x hx => ?_⟩
      exact qsexc_outside es _ _ _ (by omega) (by omega)
    · refine ⟨rfl, ⟨?_, rfl, rfl, rfl, rfl⟩, fun x hx => ?_⟩
      · exact (elementAt_qstexc (by omega) (by omega)).trans (by rw [hv])
      · exact qstexc_outside es _ _ _ _ (by omega) (by omega) (by omega)
    · rw [element_pred (Nat.zero_lt_of_lt hjp)]
      refine ⟨rfl, ⟨elementAt_qsexc.trans (by rw [hv]), rfl, rfl, rfl, rfl⟩, fun x hx => ?_⟩
      exact qsexc_outside es _ _ _ (by omega) (by omega)
    · exact ⟨rfl, ⟨hv, rfl, rfl, rfl, element_pred (Nat.zero_lt_of_lt hjp)⟩, fun _ _ => rfl⟩
    · exact ⟨rfl, ⟨hv, rfl, rfl, rfl, rfl⟩, fun _ _ => rfl⟩
    · have hlp : 0 < z.lp := by omega
      rw [element_pred hlp, element_pred (Nat.lt_of_lt_of_le hlp h₃)]
      refine ⟨rfl, ⟨?_, rfl, rfl, rfl, rfl⟩, fun x hx => ?_⟩
      · exact (elementAt_qstexc (by omega) (by omega)).trans (by rw [hv])
      · exact qstexc_outside es _ _ _ _ (by omega) (by omega) (by omega)

theorem qs1Forever_shows (hes : 0 < es) {fuel : Nat} (label : Qs1Label)
    {z' : Zones (List UInt8)} (h : s.Shows es base z) (hz : z.Inside lo hi)
    (hpart : partition fc fuel label.scan z = some z') :
    ∃ s', qs1Forever es fc fuel label s = .ok s' ∧ s'.Shows es base z' ∧
      ∀ x, x < base → s'.mem x = s.mem x := by
  induction fuel generalizing label s z with
  | zero => cases hpart
  | succ fuel ih =>
    obtain ⟨hnext, hshows, hbelow⟩ := qs1Turn_shows fc hes h hz label
    have hz₁ := ((turned fc z label.scan).inside hz).1
    rcases hs : qs1Turn es fc s label with ⟨next, s₁⟩
    rcases ht : turn fc z label.scan with ⟨next', z₁⟩
    rw [hs, ht] at hnext hshows
    rw [hs] at hbelow
    rw [ht] at hz₁
    rw [partition, ht] at hpart
    rw [qs1Forever, hs]
    simp only at hnext
    subst hnext
    cases next with
    | none =>
      cases hpart
      exact ⟨s₁, rfl, hshows, hbelow⟩
    | some next =>
      obtain ⟨s', hs', hshows', hbelow'⟩ := ih next hshows hz₁ hpart
      exact ⟨s', hs', hshows', fun x hx => (hbelow' x hx).trans (hbelow x hx)⟩

theorem qs1Start_shows (hes : 0 < es) {call : Nat → Nat → Mem → Except QsortFault Mem}
    {call' : Nat → Nat → (Nat → List UInt8) → Option (Nat → List UInt8)}
    (hcall : ∀ lo hi m w, call' lo hi (elementAt es base m) = some w →
      ∃ m', call (base + es * lo) (base + es * hi) m = .ok m' ∧ elementAt es base m' = w ∧
        ∀ x, x < base → m' x = m x)
    (fuel : Nat) : ∀ lo hi m w, sortLoop fc call' fuel lo hi (elementAt es base m) = some w →
      ∃ m', qs1Start es fc call fuel (base + es * lo) (base + es * hi) m = .ok m' ∧
        elementAt es base m' = w ∧ ∀ x, x < base → m' x = m x := by
  induction fuel with
  | zero => exact fun _ _ _ _ h => nomatch h
  | succ fuel ih =>
    intro lo hi m w h
    rw [sortLoop] at h
    rw [qs1Start, element_sub]
    have hshort : es * (hi - lo) ≤ es ↔ hi - lo ≤ 1 := by
      have := Nat.mul_le_mul_left_iff (m := 1) (n := hi - lo) hes
      rwa [Nat.mul_one] at this
    simp only [hshort]
    by_cases hlen : hi - lo ≤ 1
    · rw [if_pos hlen] at h ⊢
      exact ⟨m, rfl, Option.some.inj h, fun _ _ => rfl⟩
    rw [if_neg hlen] at h ⊢
    have hmid : base + es * lo + es * (es * (hi - lo) / (2 * es)) =
        base + es * (lo + (hi - lo) / 2) := by
      rw [Nat.mul_comm 2 es, Nat.mul_div_mul_left _ _ hes, Nat.mul_add, Nat.add_assoc]
    have hcount : es * (hi - lo) / es = hi - lo := Nat.mul_div_cancel_left _ hes
    rw [hmid, hcount, element_pred (by omega)]
    have hstart : Qs1.Shows es base ⟨m, base + es * lo, base + es * (lo + (hi - lo) / 2),
        base + es * (lo + (hi - lo) / 2), base + es * (hi - 1)⟩
        (startZones lo hi (elementAt es base m)) := ⟨rfl, rfl, rfl, rfl, rfl⟩
    rw [Option.bind_eq_bind] at h
    obtain ⟨z, hz, h⟩ := Option.bind_eq_some_iff.mp h
    obtain ⟨s, hs, ⟨hv, -, hlp, hhp, -⟩, hbelow⟩ :=
      qs1Forever_shows hes .forever hstart (inside_startZones (by omega) _) hz
    have hside : base + es * hi - s.hp ≤ s.lp - (base + es * lo) ↔ hi - z.hp ≤ z.lp - lo := by
      rw [hlp, hhp, element_sub, element_sub, Nat.mul_le_mul_left_iff hes]
    rw [hs]
    show ∃ m', (if base + es * hi - s.hp ≤ s.lp - (base + es * lo) then _ else _) = Except.ok m' ∧ _
    simp only [hside]
    by_cases hsmall : hi - z.hp ≤ z.lp - lo
    · rw [if_pos hsmall] at h ⊢
      obtain ⟨v, hv', h⟩ := Option.bind_eq_some_iff.mp h
      rw [← hv] at hv'
      obtain ⟨m₁, hm₁, hv₁, hbelow₁⟩ := hcall _ _ _ _ hv'
      rw [← hv₁] at h
      obtain ⟨m', hm', hw, hbelow'⟩ := ih _ _ _ _ h
      refine ⟨m', ?_, hw, fun x hx => ?_⟩
      · rw [hhp, element_succ, hm₁, hlp]
        exact hm'
      · rw [hbelow' x hx, hbelow₁ x hx, hbelow x hx]
    · rw [if_neg hsmall] at h ⊢
      obtain ⟨v, hv', h⟩ := Option.bind_eq_some_iff.mp h
      rw [← hv] at hv'
      obtain ⟨m₁, hm₁, hv₁, hbelow₁⟩ := hcall _ _ _ _ hv'
      rw [← hv₁] at h
      obtain ⟨m', hm', hw, hbelow'⟩ := ih _ _ _ _ h
      refine ⟨m', ?_, hw, fun x hx => ?_⟩
      · rw [hlp, hm₁, hhp, element_succ]
        exact hm'
      · rw [hbelow' x hx, hbelow₁ x hx, hbelow x hx]

theorem qs1_shows (hes : 0 < es) (frames : Nat) : ∀ lo hi m w,
    Quicksort.sort fc frames lo hi (elementAt es base m) = some w →
      ∃ m', qs1 es fc frames (base + es * lo) (base + es * hi) m = .ok m' ∧
        elementAt es base m' = w ∧ ∀ x, x < base → m' x = m x := by
  induction frames with
  | zero => exact fun _ _ _ _ h => nomatch h
  | succ frames ih =>
    intro lo hi m w h
    rw [qs1, element_sub, Nat.mul_div_cancel_left _ hes]
    exact qs1Start_shows hes ih _ lo hi m w h

/-! ## Every array -/

/-- The elements of an array. -/
def elements (es a n : Nat) (m : Mem) : List (List UInt8) := (List.range n).map (elementAt es a m)

/-- Bytes behind the array belong to elements behind the array. -/
theorem byte_of_elements {a n x : Nat} {m m' : Mem} (hes : 0 < es) (hx : a + n * es ≤ x)
    (h : ∀ k, n ≤ k → elementAt es a m' k = elementAt es a m k) : m' x = m x := by
  have hlt : (x - a) % es < es := Nat.mod_lt _ hes
  have hk : n ≤ (x - a) / es := (Nat.le_div_iff_mul_le hes).mpr (by omega)
  have hbyte : a + es * ((x - a) / es) + (x - a) % es = x := by
    have := Nat.div_add_mod (x - a) es
    omega
  have hread := congrArg (·[(x - a) % es]?) (h _ hk)
  simp only [elementAt, Mem.getElem?_read hlt, hbyte, Option.some.injEq] at hread
  exact hread

theorem qsort_spec {frames : Nat} (a n es : Nat) (fc : List UInt8 → List UInt8 → Int) (m : Mem)
    (hframes : Nat.log 2 n < frames) :
    ∃ m', qsort frames a n es fc m = .ok m' ∧
      SortsInto fc 0 n (elementAt es a m) (elementAt es a m') ∧
      ∀ x, x < a ∨ a + n * es ≤ x → m' x = m x := by
  obtain ⟨frames, rfl⟩ := Nat.exists_eq_succ_of_ne_zero (Nat.ne_of_gt (Nat.zero_lt_of_lt hframes))
  rcases Nat.eq_zero_or_pos es with rfl | hes
  · -- elements without a byte: there is nothing to exchange
    refine ⟨m, ?_, ⟨.refl _, fun hfc b c _ _ _ => ?_⟩, fun _ _ => rfl⟩
    · rw [qsort, qs1, qs1Start, Nat.mul_zero, Nat.add_zero, Nat.sub_self]
      rfl
    · exact (hfc.le_total [] []).elim id id
  · have hlen : n - 0 < 2 ^ (frames + 1) :=
      Nat.lt_of_lt_of_le (Nat.lt_pow_succ_log_self (by omega) n)
        (Nat.pow_le_pow_right (by omega) hframes)
    obtain ⟨w, hw, hsorts⟩ := sort_spec fc frames 0 n (elementAt es a m) hlen
    obtain ⟨m', hm', hv, hbelow⟩ := qs1_shows hes (frames + 1) 0 n m w hw
    rw [← hv] at hsorts
    refine ⟨m', ?_, hsorts, fun x hx => ?_⟩
    · rw [qsort, Nat.mul_comm n es]
      exact hm'
    · rcases hx with hx | hx
      · exact hbelow x hx
      · exact byte_of_elements hes hx fun k hk => hsorts.within.outside (.inr hk)

/-- Whatever the comparison says, `qsort` ends, in as many stack frames as the number of
elements has binary digits.  It puts the elements in another order and leaves every other
byte as it was. -/
theorem qsort_rearranges (frames a n es : Nat) (fc : List UInt8 → List UInt8 → Int) (m : Mem)
    (hframes : Nat.log 2 n < frames) :
    ∃ m', qsort frames a n es fc m = .ok m' ∧ (elements es a n m').Perm (elements es a n m) ∧
      ∀ x, x < a ∨ a + n * es ≤ x → m' x = m x := by
  obtain ⟨m', hm', hsorts, hframe⟩ := qsort_spec a n es fc m hframes
  exact ⟨m', hm', hsorts.within.perm_map_range, hframe⟩

/-- Two elements of two bytes, the larger one in front. -/
def exampleArray : Mem := Mem.ofBlock [9, 1, 5, 2] fun _ => 0

/-- By the first byte. -/
def exampleCompare (x y : List UInt8) : Int := (x.headD 0).toNat - (y.headD 0).toNat

theorem qsort_rearranges_two : ∃ m', qsort 2 0 2 2 exampleCompare exampleArray = .ok m' ∧
    (elements 2 0 2 m').Perm [[9, 1], [5, 2]] ∧ ∀ x, x < 0 ∨ 0 + 2 * 2 ≤ x → m' x = 0 := by
  obtain ⟨m', hm', hperm, hframe⟩ :=
    qsort_rearranges 2 0 2 2 exampleCompare exampleArray (by decide)
  refine ⟨m', hm', hperm.trans (by decide), fun x hx => (hframe x hx).trans ?_⟩
  rw [exampleArray, Mem.ofBlock, Mem.write_outside]
  simp only [List.length_cons, List.length_nil]
  omega

/-- With a comparison that orders the elements, they are in order in the end. -/
theorem qsort_sorts (frames a n es : Nat) {fc : List UInt8 → List UInt8 → Int}
    (hfc : Consistent fc) (m : Mem) (hframes : Nat.log 2 n < frames) :
    ∃ m', qsort frames a n es fc m = .ok m' ∧
      (elements es a n m').Pairwise (fun x y => fc x y ≤ 0) := by
  obtain ⟨m', hm', hsorts, -⟩ := qsort_spec a n es fc m hframes
  exact ⟨m', hm', (hsorts.ordered hfc).pairwise⟩

theorem consistent_exampleCompare : Consistent exampleCompare where
  swap x y := by
    unfold exampleCompare
    omega
  trans x y z h h' := by
    unfold exampleCompare at *
    omega

theorem qsort_sorts_two : ∃ m', qsort 2 0 2 2 exampleCompare exampleArray = .ok m' ∧
    (elements 2 0 2 m').Pairwise (fun x y => exampleCompare x y ≤ 0) :=
  qsort_sorts 2 0 2 2 consistent_exampleCompare exampleArray (by decide)

end NatBox
