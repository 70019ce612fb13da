import Mathlib.Algebra.Group.Nat.Defs
import NatBox.Lib.Rearranged

/-
Quicksort in place, with a zone in the middle for the elements equal to the pivot.

`partition` scans the two zones on the outside.  An element equal to the pivot is exchanged
with the neighbour of the middle zone, which grows; a smaller element found on the right and
a larger one found on the left are exchanged, and where only one of the two is left the
middle zone moves over by one.  The smaller part is then sorted by a call and the other one
by the loop, so a range of fewer than `2 ^ frames` elements needs no more than `frames`
nested calls.

The comparison is any function to the integers.  Whatever it says, the sort ends and
rearranges the range; where it is `Consistent` the range is then in order.
-/

namespace Quicksort

open Rearranged

variable {α : Type}

/-- The array during a partition.  The zones still to be scanned are `[i, lp)` and
`(hp, j]`, the middle zone is `[lp, hp]`. -/
structure Zones (α : Type) where
  v : Nat → α
  i : Nat
  lp : Nat
  hp : Nat
  j : Nat

inductive Scan
  | left
  | right

section Algorithm

variable (cmp : α → α → Int)

/-- One comparison, or the end of one of the scans.  There is no next scan when the
partition is complete. -/
def turn (z : Zones α) : Scan → Option Scan × Zones α
  | .left =>
    if z.i < z.lp then
      if cmp (z.v z.i) (z.v z.lp) = 0 then
        (some .left, { z with v := exchange z.v z.i (z.lp - 1), lp := z.lp - 1 })
      else if cmp (z.v z.i) (z.v z.lp) < 0 then (some .left, { z with i := z.i + 1 })
      else (some .right, z)
    else (some .right, z)
  | .right =>
    if z.hp < z.j then
      if cmp (z.v z.hp) (z.v z.j) = 0 then
        (some .right, { z with v := exchange z.v (z.hp + 1) z.j, hp := z.hp + 1 })
      else if 0 < cmp (z.v z.hp) (z.v z.j) then
        if z.i = z.lp then
          (some .right, { z with
            v := rotate z.v z.i (z.hp + 1) z.j, i := z.lp + 1, lp := z.lp + 1, hp := z.hp + 1 })
        else
          (some .left, { z with v := exchange z.v z.i z.j, i := z.i + 1, j := z.j - 1 })
      else (some .right, { z with j := z.j - 1 })
    else if z.i = z.lp then (none, z)
    else
      (some .left, { z with
        v := rotate z.v z.j (z.lp - 1) z.i, lp := z.lp - 1, hp := z.hp - 1, j := z.hp - 1 })

def partition : Nat → Scan → Zones α → Option (Zones α)
  | 0, _, _ => none
  | fuel + 1, scan, z =>
    match turn cmp z scan with
    | (none, z) => some z
    | (some scan, z) => partition fuel scan z

/-- Before the first turn: the middle zone is the element in the middle. -/
def startZones (lo hi : Nat) (v : Nat → α) : Zones α where
  v := v
  i := lo
  lp := lo + (hi - lo) / 2
  hp := lo + (hi - lo) / 2
  j := hi - 1

/-- The smaller part goes to `call`, the other one round the loop. -/
def sortLoop (call : Nat → Nat → (Nat → α) → Option (Nat → α)) :
    Nat → Nat → Nat → (Nat → α) → Option (Nat → α)
  | 0, _, _, _ => none
  | fuel + 1, lo, hi, v =>
    if hi - lo ≤ 1 then some v
    else do
      let z ← partition cmp (2 * (hi - lo)) .left (startZones lo hi v)
      if hi - z.hp ≤ z.lp - lo then
        let w ← call (z.hp + 1) hi z.v
        sortLoop call fuel lo z.lp w
      else
        let w ← call lo z.lp z.v
        sortLoop call fuel (z.hp + 1) hi w

/-- With room for that many nested calls. -/
def sort : Nat → Nat → Nat → (Nat → α) → Option (Nat → α)
  | 0, _, _, _ => none
  | frames + 1, lo, hi, v => sortLoop cmp (sort frames) (hi - lo + 1) lo hi v

end Algorithm

/-! ## The zones -/

variable {cmp : α → α → Int} {lo hi : Nat} {scan next : Scan} {z z' : Zones α}

/-- The zones lie in the range, one behind the other. -/
structure Zones.Inside (z : Zones α) (lo hi : Nat) : Prop where
  lo_le_i : lo ≤ z.i
  i_le_lp : z.i ≤ z.lp
  lp_le_hp : z.lp ≤ z.hp
  hp_le_j : z.hp ≤ z.j
  j_lt_hi : z.j < hi

/-- Every turn but the last makes it smaller. -/
def Zones.left (z : Zones α) : Scan → Nat
  | .left => 2 * (z.lp - z.i + (z.j - z.hp)) + 1
  | .right => 2 * (z.lp - z.i + (z.j - z.hp))

/-- What one turn can do. -/
inductive Turned (cmp : α → α → Int) (z : Zones α) : Scan → Option Scan → Zones α → Prop
  | equalLeft : z.i < z.lp → cmp (z.v z.i) (z.v z.lp) = 0 →
      Turned cmp z .left (some .left)
        { z with v := exchange z.v z.i (z.lp - 1), lp := z.lp - 1 }
  | smallerLeft : z.i < z.lp → cmp (z.v z.i) (z.v z.lp) < 0 →
      Turned cmp z .left (some .left) { z with i := z.i + 1 }
  | stopLeft : (z.i < z.lp → 0 < cmp (z.v z.i) (z.v z.lp)) →
      Turned cmp z .left (some .right) z
  | equalRight : z.hp < z.j → cmp (z.v z.hp) (z.v z.j) = 0 →
      Turned cmp z .right (some .right)
        { z with v := exchange z.v (z.hp + 1) z.j, hp := z.hp + 1 }
  | moveUp : z.hp < z.j → 0 < cmp (z.v z.hp) (z.v z.j) → z.i = z.lp →
      Turned cmp z .right (some .right) { z with
        v := rotate z.v z.i (z.hp + 1) z.j, i := z.lp + 1, lp := z.lp + 1, hp := z.hp + 1 }
  | trade : z.hp < z.j → 0 < cmp (z.v z.hp) (z.v z.j) → z.i ≠ z.lp →
      Turned cmp z .right (some .left)
        { z with v := exchange z.v z.i z.j, i := z.i + 1, j := z.j - 1 }
  | largerRight : z.hp < z.j → cmp (z.v z.hp) (z.v z.j) < 0 →
      Turned cmp z .right (some .right) { z with j := z.j - 1 }
  | complete : ¬ z.hp < z.j → z.i = z.lp → Turned cmp z .right none z
  | moveDown : ¬ z.hp < z.j → z.i ≠ z.lp →
      Turned cmp z .right (some .left) { z with
        v := rotate z.v z.j (z.lp - 1) z.i, lp := z.lp - 1, hp := z.hp - 1, j := z.hp - 1 }

theorem turned (cmp : α → α → Int) (z : Zones α) (scan : Scan) :
    Turned cmp z scan (turn cmp z scan).1 (turn cmp z scan).2 := by
  cases scan with
  | left =>
    rw [turn]
    by_cases hip : z.i < z.lp
    · rw [if_pos hip]
      rcases Int.lt_trichotomy (cmp (z.v z.i) (z.v z.lp)) 0 with hlt | heq | hgt
      · rw [if_neg (by omega), if_pos hlt]
        exact .smallerLeft hip hlt
      · rw [if_pos heq]
        exact .equalLeft hip heq
      · rw [if_neg (by omega), if_neg (by omega)]
        exact .stopLeft fun _ => hgt
    · rw [if_neg hip]
      exact .stopLeft fun h => absurd h hip
  | right =>
    rw [turn]
    by_cases hj : z.hp < z.j
    · rw [if_pos hj]
      rcases Int.lt_trichotomy (cmp (z.v z.hp) (z.v z.j)) 0 with hlt | heq | hgt
      · rw [if_neg (by omega), if_neg (by omega)]
        exact .largerRight hj hlt
      · rw [if_pos heq]
        exact .equalRight hj heq
      · rw [if_neg (by omega), if_pos hgt]
        by_cases hip : z.i = z.lp
        · rw [if_pos hip]
          exact .moveUp hj hgt hip
        · rw [if_neg hip]
          exact .trade hj hgt hip
    · rw [if_neg hj]
      by_cases hip : z.i = z.lp
      · rw [if_pos hip]
        exact .complete hj hip
      · rw [if_neg hip]
        exact .moveDown hj hip

theorem Turned.inside {o : Option Scan} (h : Turned cmp z scan o z') (hz : z.Inside lo hi) :
    z'.Inside lo hi ∧ Within lo hi z.v z'.v := by
  obtain ⟨h₁, h₂, h₃, h₄, h₅⟩ := hz
  cases h with
  | equalLeft hip _ =>
    exact ⟨⟨h₁, (by omega : z.i ≤ z.lp - 1), (by omega : z.lp - 1 ≤ z.hp), h₄, h₅⟩,
      within_exchange (by omega) (by omega)⟩
  | smallerLeft hip _ => exact ⟨⟨Nat.le_succ_of_le h₁, hip, h₃, h₄, h₅⟩, .refl _⟩
  | stopLeft _ => exact ⟨⟨h₁, h₂, h₃, h₄, h₅⟩, .refl _⟩
  | equalRight hj _ =>
    exact ⟨⟨h₁, h₂, Nat.le_succ_of_le h₃, hj, h₅⟩, within_exchange (by omega) (by omega)⟩
  | moveUp hj _ hip =>
    exact ⟨⟨(by omega : lo ≤ z.lp + 1), Nat.le_refl _, Nat.succ_le_succ h₃, hj, h₅⟩,
      within_rotate (by omega) (by omega) (by omega)⟩
  | trade hj _ hip =>
    exact ⟨⟨Nat.le_succ_of_le h₁, (by omega : z.i + 1 ≤ z.lp), h₃, (by omega : z.hp ≤ z.j - 1),
      (by omega : z.j - 1 < hi)⟩, within_exchange (by omega) (by omega)⟩
  | largerRight hj _ =>
    exact ⟨⟨h₁, h₂, h₃, (by omega : z.hp ≤ z.j - 1), (by omega : z.j - 1 < hi)⟩, .refl _⟩
  | complete _ _ => exact ⟨⟨h₁, h₂, h₃, h₄, h₅⟩, .refl _⟩
  | moveDown hj hip =>
    exact ⟨⟨h₁, (by omega : z.i ≤ z.lp - 1), (by omega : z.lp - 1 ≤ z.hp - 1), Nat.le_refl _,
      (by omega : z.hp - 1 < hi)⟩, within_rotate (by omega) (by omega) (by omega)⟩

theorem Turned.left_lt (h : Turned cmp z scan (some next) z') (hz : z.Inside lo hi) :
    z'.left next < z.left scan := by
  obtain ⟨h₁, h₂, h₃, h₄, h₅⟩ := hz
  cases h <;> simp only [Zones.left] <;> omega

/-! ## A comparison that makes sense -/

/-- The comparison orders the elements, where those of result 0 count as equal. -/
structure Consistent (cmp : α → α → Int) : Prop where
  swap : ∀ a b, cmp a b < 0 ↔ 0 < cmp b a
  trans : ∀ a b c, cmp a b ≤ 0 → cmp b c ≤ 0 → cmp a c ≤ 0

namespace Consistent

variable {p q x : α}

theorem le_total (h : Consistent cmp) (a b : α) : cmp a b ≤ 0 ∨ cmp b a ≤ 0 := by
  have := h.swap b a
  omega

/-- Compared with elements equal to each other, an element lies on the same side. -/
theorem neg_congr (h : Consistent cmp) (hq : cmp q p = 0) : cmp x q < 0 ↔ cmp x p < 0 := by
  have hp : cmp p q = 0 := by
    have h₁ := h.swap p q
    have h₂ := h.swap q p
    omega
  have h₁ := h.swap x q
  have h₂ := h.swap x p
  have h₃ := h.trans q p x
  have h₄ := h.trans p q x
  omega

theorem pos_congr (h : Consistent cmp) (hq : cmp q p = 0) : 0 < cmp x q ↔ 0 < cmp x p := by
  have hp : cmp p q = 0 := by
    have h₁ := h.swap p q
    have h₂ := h.swap q p
    omega
  have h₃ := h.trans x q p
  have h₄ := h.trans x p q
  omega

end Consistent

/-- The elements outside the zones still to be scanned lie on their side of `p`, and the
scan of the left zone has stopped at a larger one. -/
structure Zones.Split (cmp : α → α → Int) (p : α) (lo hi : Nat) (scan : Scan) (z : Zones α) :
    Prop where
  low : ∀ k, lo ≤ k → k < z.i → cmp (z.v k) p < 0
  mid : ∀ k, z.lp ≤ k → k ≤ z.hp → cmp (z.v k) p = 0
  high : ∀ k, z.j < k → k < hi → 0 < cmp (z.v k) p
  stopped : scan = .right → z.i < z.lp → 0 < cmp (z.v z.i) p

section Split

variable {p : α}

/-- The middle zone grows to the left. -/
theorem Zones.Split.equalLeft (h : z.Split cmp p lo hi .left) (hz : z.Inside lo hi)
    (hip : z.i < z.lp) (heq : cmp (z.v z.i) p = 0) :
    Zones.Split cmp p lo hi .left
      { z with v := exchange z.v z.i (z.lp - 1), lp := z.lp - 1 } := by
  obtain ⟨h₁, h₂, h₃, h₄, h₅⟩ := hz
  refine ⟨fun k hlo hk => ?_, fun k hk hhp => ?_, fun k hj hk => ?_, fun h => nomatch h⟩ <;>
    dsimp only at *
  · rw [exchange_other (by omega) (by omega)]
    exact h.low k hlo hk
  · by_cases hlast : k = z.lp - 1
    · rw [hlast, exchange_right]
      exact heq
    · rw [exchange_other (by omega) hlast]
      exact h.mid k (by omega) hhp
  · rw [exchange_other (by omega) (by omega)]
    exact h.high k hj hk

/-- The middle zone grows to the right. -/
theorem Zones.Split.equalRight (h : z.Split cmp p lo hi .right) (hz : z.Inside lo hi)
    (hj : z.hp < z.j) (heq : cmp (z.v z.j) p = 0) :
    Zones.Split cmp p lo hi .right
      { z with v := exchange z.v (z.hp + 1) z.j, hp := z.hp + 1 } := by
  obtain ⟨h₁, h₂, h₃, h₄, h₅⟩ := hz
  refine ⟨fun k hlo hk => ?_, fun k hk hhp => ?_, fun k hjk hk => ?_, fun hr hip => ?_⟩ <;>
    dsimp only at *
  · rw [exchange_other (by omega) (by omega)]
    exact h.low k hlo hk
  · by_cases hlast : k = z.hp + 1
    · rw [hlast, exchange_left]
      exact heq
    · rw [exchange_other hlast (by omega)]
      exact h.mid k hk (by omega)
  · rw [exchange_other (by omega) (by omega)]
    exact h.high k hjk hk
  · rw [exchange_other (by omega) (by omega)]
    exact h.stopped hr hip

/-- A smaller element of the right zone, and none to trade it for: the middle zone moves
up. -/
theorem Zones.Split.moveUp (h : z.Split cmp p lo hi .right) (hz : z.Inside lo hi)
    (hj : z.hp < z.j) (hlt : cmp (z.v z.j) p < 0) (hip : z.i = z.lp) :
    Zones.Split cmp p lo hi .right { z with
      v := rotate z.v z.i (z.hp + 1) z.j, i := z.lp + 1, lp := z.lp + 1, hp := z.hp + 1 } := by
  obtain ⟨h₁, h₂, h₃, h₄, h₅⟩ := hz
  refine ⟨fun k hlo hk => ?_, fun k hk hhp => ?_, fun k hjk hk => ?_, fun _ hii => ?_⟩ <;>
    dsimp only at *
  · by_cases hlast : k = z.i
    · rw [hlast, rotate_first]
      exact hlt
    · rw [rotate_other hlast (by omega) (by omega)]
      exact h.low k hlo (by omega)
  · by_cases hlast : k = z.hp + 1
    · rw [hlast, rotate_second (by omega) (by omega)]
      exact h.mid z.i (by omega) (by omega)
    · rw [rotate_other (by omega) hlast (by omega)]
      exact h.mid k (by omega) (by omega)
  · rw [rotate_other (by omega) (by omega) (by omega)]
    exact h.high k hjk hk
  · omega

/-- A smaller element of the right zone is traded for the larger one that the left scan
has stopped at. -/
theorem Zones.Split.trade (h : z.Split cmp p lo hi .right) (hz : z.Inside lo hi)
    (hj : z.hp < z.j) (hlt : cmp (z.v z.j) p < 0) (hip : z.i ≠ z.lp) :
    Zones.Split cmp p lo hi .left
      { z with v := exchange z.v z.i z.j, i := z.i + 1, j := z.j - 1 } := by
  obtain ⟨h₁, h₂, h₃, h₄, h₅⟩ := hz
  refine ⟨fun k hlo hk => ?_, fun k hk hhp => ?_, fun k hjk hk => ?_, fun h => nomatch h⟩ <;>
    dsimp only at *
  · by_cases hlast : k = z.i
    · rw [hlast, exchange_left]
      exact hlt
    · rw [exchange_other hlast (by omega)]
      exact h.low k hlo (by omega)
  · rw [exchange_other (by omega) (by omega)]
    exact h.mid k hk hhp
  · by_cases hlast : k = z.j
    · rw [hlast, exchange_right]
      exact h.stopped rfl (by omega)
    · rw [exchange_other (by omega) hlast]
      exact h.high k (by omega) hk

/-- A larger element of the left zone, and none to trade it for: the middle zone moves
down. -/
theorem Zones.Split.moveDown (h : z.Split cmp p lo hi .right) (hz : z.Inside lo hi)
    (hj : ¬ z.hp < z.j) (hip : z.i ≠ z.lp) :
    Zones.Split cmp p lo hi .left { z with
      v := rotate z.v z.j (z.lp - 1) z.i, lp := z.lp - 1, hp := z.hp - 1, j := z.hp - 1 } := by
  obtain ⟨h₁, h₂, h₃, h₄, h₅⟩ := hz
  have hjhp : z.j = z.hp := by omega
  refine ⟨fun k hlo hk => ?_, fun k hk hhp => ?_, fun k hjk hk => ?_, fun h => nomatch h⟩ <;>
    dsimp only at *
  · rw [rotate_other (by omega) (by omega) (by omega)]
    exact h.low k hlo hk
  · by_cases hlast : k = z.lp - 1
    · rw [hlast, rotate_second (by omega) (by omega)]
      exact h.mid z.j (by omega) (by omega)
    · rw [rotate_other (by omega) hlast (by omega)]
      exact h.mid k (by omega) (by omega)
  · by_cases hlast : k = z.j
    · rw [hlast, rotate_first]
      exact h.stopped rfl (by omega)
    · rw [rotate_other hlast (by omega) (by omega)]
      exact h.high k (by omega) hk

theorem Turned.split (hcmp : Consistent cmp) (h : Turned cmp z scan (some next) z')
    (hz : z.Inside lo hi) (hs : z.Split cmp p lo hi scan) : z'.Split cmp p lo hi next := by
  have hlp : cmp (z.v z.lp) p = 0 := hs.mid z.lp (Nat.le_refl _) hz.lp_le_hp
  have hhp : cmp (z.v z.hp) p = 0 := hs.mid z.hp hz.lp_le_hp (Nat.le_refl _)
  have hneg := fun x => hcmp.neg_congr (x := x) hlp
  have hpos := fun x => hcmp.pos_congr (x := x) hlp
  have hswap := hcmp.swap (z.v z.j) (z.v z.hp)
  have hswap' := hcmp.swap (z.v z.hp) (z.v z.j)
  have hneg' := hcmp.neg_congr (x := z.v z.j) hhp
  have hpos' := hcmp.pos_congr (x := z.v z.j) hhp
  cases h with
  | equalLeft hip heq =>
    have h₁ := hneg (z.v z.i)
    have h₂ := hpos (z.v z.i)
    exact hs.equalLeft hz hip (by omega)
  | smallerLeft hip hlt =>
    refine ⟨fun k hlo hk => ?_, hs.mid, hs.high, fun h => nomatch h⟩
    by_cases hlast : k = z.i
    · rw [hlast]
      exact (hneg _).mp hlt
    · exact hs.low k hlo (by dsimp only at hk; omega)
  | stopLeft hgt => exact ⟨hs.low, hs.mid, hs.high, fun _ hip => (hpos _).mp (hgt hip)⟩
  | equalRight hj heq => exact hs.equalRight hz hj (by omega)
  | moveUp hj hgt hip => exact hs.moveUp hz hj (by omega) hip
  | trade hj hgt hip => exact hs.trade hz hj (by omega) hip
  | largerRight hj hlt =>
    refine ⟨hs.low, hs.mid, fun k hjk hk => ?_, hs.stopped⟩
    by_cases hlast : k = z.j
    · rw [hlast]
      exact hpos'.mp (hswap'.mp hlt)
    · exact hs.high k (by dsimp only at hjk; omega) hk
  | moveDown hj hip => exact hs.moveDown hz hj hip

end Split

/-! ## The whole partition -/

variable {v w : Nat → α}

/-- What a complete partition of `[lo, hi)` leaves. -/
structure Parted (cmp : α → α → Int) (lo hi : Nat) (v : Nat → α) (z : Zones α) : Prop where
  lo_le_lp : lo ≤ z.lp
  lp_le_hp : z.lp ≤ z.hp
  hp_lt_hi : z.hp < hi
  within : Within lo hi v z.v
  split : Consistent cmp → ∃ p, (∀ k, lo ≤ k → k < z.lp → cmp (z.v k) p < 0) ∧
    (∀ k, z.lp ≤ k → k ≤ z.hp → cmp (z.v k) p = 0) ∧
    ∀ k, z.hp < k → k < hi → 0 < cmp (z.v k) p

theorem partition_spec {fuel : Nat} (hfuel : z.left scan < fuel) (hz : z.Inside lo hi)
    (hs : Consistent cmp → ∃ p, z.Split cmp p lo hi scan) :
    ∃ z', partition cmp fuel scan z = some z' ∧ Parted cmp lo hi z.v z' := by
  induction fuel generalizing scan z with
  | zero => omega
  | succ fuel ih =>
    rcases hturn : turn cmp z scan with ⟨next, z₁⟩
    have ht : Turned cmp z scan next z₁ := by simpa only [hturn] using turned cmp z scan
    obtain ⟨hz', hw⟩ := ht.inside hz
    rw [partition, hturn]
    cases next with
    | none =>
      refine ⟨z₁, rfl, ?_⟩
      cases ht with
      | complete hj hip =>
        have hjhp : z.j = z.hp := by
          have := hz.hp_le_j
          omega
        refine ⟨hip ▸ hz.lo_le_i, hz.lp_le_hp, hjhp ▸ hz.j_lt_hi, .refl _, fun hcmp => ?_⟩
        obtain ⟨p, hp⟩ := hs hcmp
        exact ⟨p, hip ▸ hp.low, hp.mid, hjhp ▸ hp.high⟩
    | some next =>
      have hlt := ht.left_lt hz
      obtain ⟨z', hz'', hpart⟩ := ih (z := z₁) (by omega) hz'
        fun hcmp => (hs hcmp).imp fun p hp => ht.split hcmp hz hp
      exact ⟨z', hz'', hpart.lo_le_lp, hpart.lp_le_hp, hpart.hp_lt_hi, hw.trans hpart.within,
        hpart.split⟩

theorem inside_startZones (hlen : 2 ≤ hi - lo) (v : Nat → α) :
    (startZones lo hi v).Inside lo hi := by
  constructor <;> simp only [startZones] <;> omega

theorem partition_start (cmp : α → α → Int) (hlen : 2 ≤ hi - lo) (v : Nat → α) :
    ∃ z, partition cmp (2 * (hi - lo)) .left (startZones lo hi v) = some z ∧
      Parted cmp lo hi v z := by
  refine partition_spec (z := startZones lo hi v) ?_ (inside_startZones hlen v)
    fun hcmp => ⟨v (lo + (hi - lo) / 2), ?_⟩
  · simp only [Zones.left, startZones]
    omega
  · have hself : cmp (v (lo + (hi - lo) / 2)) (v (lo + (hi - lo) / 2)) = 0 := by
      have := hcmp.swap (v (lo + (hi - lo) / 2)) (v (lo + (hi - lo) / 2))
      omega
    refine ⟨fun k hlo hk => ?_, fun k hk hhp => ?_, fun k hj hk => ?_, fun h => nomatch h⟩ <;>
      simp only [startZones] at *
    · omega
    · rw [Nat.le_antisymm hhp hk]
      exact hself
    · omega

/-! ## The sort -/

/-- The range is rearranged, and in order where the comparison allows an order. -/
structure SortsInto (cmp : α → α → Int) (lo hi : Nat) (v w : Nat → α) : Prop where
  within : Within lo hi v w
  ordered : Consistent cmp → Ordered (fun a b => cmp a b ≤ 0) lo hi w

theorem SortsInto.of_short (hlen : hi - lo ≤ 1) (v : Nat → α) : SortsInto cmp lo hi v v :=
  ⟨.refl v, fun _ a b ha hab hb => by omega⟩

/-- The two outer parts of a partition have been sorted. -/
structure SortsParts (cmp : α → α → Int) (lo hi : Nat) (z : Zones α) (u : Nat → α) : Prop where
  within : Within lo hi z.v u
  left : ∀ P : α → Prop, (∀ k, lo ≤ k → k < z.lp → P (z.v k)) → ∀ k, lo ≤ k → k < z.lp → P (u k)
  mid : ∀ k, z.lp ≤ k → k ≤ z.hp → u k = z.v k
  right : ∀ P : α → Prop, (∀ k, z.hp < k → k < hi → P (z.v k)) → ∀ k, z.hp < k → k < hi → P (u k)
  ordered : Consistent cmp → Ordered (fun a b => cmp a b ≤ 0) lo z.lp u ∧
    Ordered (fun a b => cmp a b ≤ 0) (z.hp + 1) hi u

theorem Parted.right_first (hz : Parted cmp lo hi v z) (hw : SortsInto cmp (z.hp + 1) hi z.v w)
    (hu : SortsInto cmp lo z.lp w u) : SortsParts cmp lo hi z u := by
  have h₁ := hz.lo_le_lp
  have h₂ := hz.lp_le_hp
  have h₃ := hz.hp_lt_hi
  refine ⟨(hw.within.mono (by omega) (Nat.le_refl _)).trans
      (hu.within.mono (Nat.le_refl _) (by omega)),
    fun P hP => hu.within.forall_range fun k hlo hk => ?_, fun k hk hhp => ?_,
    fun P hP k hk hhi => ?_, fun hcmp => ⟨hu.ordered hcmp,
      (hw.ordered hcmp).outside hu.within (.inr (by omega))⟩⟩
  · rw [hw.within.outside (.inl (by omega))]
    exact hP k hlo hk
  · rw [hu.within.outside (.inr hk), hw.within.outside (.inl (by omega))]
  · rw [hu.within.outside (.inr (by omega))]
    exact hw.within.forall_range (fun k hk hhi => hP k hk hhi) k hk hhi

theorem Parted.left_first (hz : Parted cmp lo hi v z) (hw : SortsInto cmp lo z.lp z.v w)
    (hu : SortsInto cmp (z.hp + 1) hi w u) : SortsParts cmp lo hi z u := by
  have h₁ := hz.lo_le_lp
  have h₂ := hz.lp_le_hp
  have h₃ := hz.hp_lt_hi
  refine ⟨(hw.within.mono (Nat.le_refl _) (by omega)).trans
      (hu.within.mono (by omega) (Nat.le_refl _)),
    fun P hP k hlo hk => ?_, fun k hk hhp => ?_,
    fun P hP => hu.within.forall_range fun k hk hhi => ?_,
    fun hcmp => ⟨(hw.ordered hcmp).outside hu.within (.inl (by omega)), hu.ordered hcmp⟩⟩
  · rw [hu.within.outside (.inl (by omega))]
    exact hw.within.forall_range (fun k hlo hk => hP k hlo hk) k hlo hk
  · rw [hu.within.outside (.inl (by omega)), hw.within.outside (.inr hk)]
  · rw [hw.within.outside (.inr (by omega))]
    exact hP k hk hhi

theorem Parted.sortsInto (hz : Parted cmp lo hi v z) (hu : SortsParts cmp lo hi z u) :
    SortsInto cmp lo hi v u := by
  refine ⟨hz.within.trans hu.within, fun hcmp a b ha hab hb => ?_⟩
  obtain ⟨p, hlow, hmid, hhigh⟩ := hz.split hcmp
  have hlow' := hu.left (fun x => cmp x p < 0) hlow
  have hhigh' := hu.right (fun x => 0 < cmp x p) hhigh
  obtain ⟨hl, hr⟩ := hu.ordered hcmp
  by_cases hb' : b < z.lp
  · exact hl a b ha hab hb'
  by_cases ha' : z.hp + 1 ≤ a
  · exact hr a b ha' hab hb
  -- `a` is not above the middle zone and `b` is not below it
  have hap : cmp (u a) p ≤ 0 := by
    by_cases hmida : z.lp ≤ a
    · rw [hu.mid a hmida (by omega)]
      exact Int.le_of_eq (hmid a hmida (by omega))
    · exact Int.le_of_lt (hlow' a ha (by omega))
  have hbp : 0 ≤ cmp (u b) p := by
    by_cases hmidb : b ≤ z.hp
    · rw [hu.mid b (by omega) hmidb]
      exact Int.le_of_eq (hmid b (by omega) hmidb).symm
    · exact Int.le_of_lt (hhigh' b (by omega) hb)
  have hpb : cmp p (u b) ≤ 0 := by
    have := hcmp.swap (u b) p
    omega
  exact hcmp.trans _ _ _ hap hpb

theorem sortLoop_spec {call : Nat → Nat → (Nat → α) → Option (Nat → α)} (size : Nat)
    (hcall : ∀ lo hi v, hi - lo ≤ size → ∃ w, call lo hi v = some w ∧ SortsInto cmp lo hi v w)
    (fuel : Nat) : ∀ lo hi (v : Nat → α), hi - lo < fuel → hi - lo ≤ 2 * size + 1 →
      ∃ w, sortLoop cmp call fuel lo hi v = some w ∧ SortsInto cmp lo hi v w := by
  induction fuel with
  | zero => exact fun lo hi v h => absurd h (Nat.not_lt_zero _)
  | succ fuel ih =>
    intro lo hi v hfuel hsize
    by_cases hshort : hi - lo ≤ 1
    · exact ⟨v, by rw [sortLoop, if_pos hshort], .of_short hshort v⟩
    obtain ⟨z, hz, hpart⟩ := partition_start cmp (show 2 ≤ hi - lo by omega) v
    have h₁ := hpart.lo_le_lp
    have h₂ := hpart.lp_le_hp
    have h₃ := hpart.hp_lt_hi
    rw [sortLoop, if_neg hshort, hz, Option.bind_eq_bind, Option.bind_some]
    by_cases hside : hi - z.hp ≤ z.lp - lo
    · obtain ⟨w, hw, hsorts⟩ := hcall (z.hp + 1) hi z.v (by omega)
      obtain ⟨u, hu, hsorts'⟩ := ih lo z.lp w (by omega) (by omega)
      rw [if_pos hside, hw]
      exact ⟨u, hu, hpart.sortsInto (hpart.right_first hsorts hsorts')⟩
    · obtain ⟨w, hw, hsorts⟩ := hcall lo z.lp z.v (by omega)
      obtain ⟨u, hu, hsorts'⟩ := ih (z.hp + 1) hi w (by omega) (by omega)
      rw [if_neg hside, hw]
      exact ⟨u, hu, hpart.sortsInto (hpart.left_first hsorts hsorts')⟩

/-- With room for `frames + 1` calls, every range of fewer than `2 ^ (frames + 1)` elements is
sorted. -/
theorem sort_spec (cmp : α → α → Int) (frames : Nat) :
    ∀ lo hi (v : Nat → α), hi - lo < 2 ^ (frames + 1) →
    ∃ w, sort cmp (frames + 1) lo hi v = some w ∧ SortsInto cmp lo hi v w := by
  induction frames with
  | zero =>
    intro lo hi v hsize
    have hshort : hi - lo ≤ 1 := by omega
    refine ⟨v, ?_, .of_short hshort v⟩
    rw [sort, sortLoop, if_pos hshort]
  | succ frames ih =>
    intro lo hi v hsize
    have hpos : 0 < 2 ^ (frames + 1) := Nat.two_pow_pos _
    refine sortLoop_spec (2 ^ (frames + 1) - 1) (fun lo hi v h => ih lo hi v ?_) _ lo hi v
      (Nat.lt_succ_self _) ?_
    · omega
    · rw [Nat.pow_succ] at hsize
      omega

end Quicksort
