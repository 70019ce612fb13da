import Mathlib.Data.List.Basic
import Mathlib.Logic.Function.Basic

/-
A list in neighbouring slots of an array.

`shiftDown` closes the gap where an element was taken out: each slot takes over the next one,
which is filled up.  It reaches one slot further than the list does.
-/

namespace Slots

open Function

variable {α : Type}

/-- What the `n` slots from `i` on hold. -/
def list (a : Nat → α) (i n : Nat) : List α := (List.range' i n).map a

@[simp] theorem length_list (a : Nat → α) (i n : Nat) : (list a i n).length = n := by
  simp [list]

theorem list_succ (a : Nat → α) (i n : Nat) : list a i (n + 1) = a i :: list a (i + 1) n := rfl

theorem list_congr {a b : Nat → α} {i n : Nat} (h : ∀ j, i ≤ j → a j = b j) :
    list a i n = list b i n := by
  apply List.map_congr_left
  intro j hj
  exact h j (List.mem_range'_1.mp hj).1

theorem list_update_below {a : Nat → α} {i j n : Nat} (h : j < i) (x : α) :
    list (update a j x) i n = list a i n := by
  apply list_congr
  intro k hk
  exact update_of_ne (by omega) ..

/-- The slot behind the list is filled. -/
theorem list_update_end (a : Nat → α) (n : Nat) (x : α) :
    list (update a n x) 0 (n + 1) = list a 0 n ++ [x] := by
  have hsame : list (update a n x) 0 n = list a 0 n := by
    apply List.map_congr_left
    intro j hj
    have hlt := (List.mem_range'_1.mp hj).2
    exact update_of_ne (by omega) ..
  have hsplit : list (update a n x) 0 (n + 1) = list (update a n x) 0 n ++ [update a n x n] := by
    simp [list, List.range'_concat]
  rw [hsplit, hsame, update_self]

variable (fill : α)

/-- In `passes` slots from `j` on: the slot takes over the next one. -/
def shiftDown : Nat → Nat → (Nat → α) → Nat → α
  | 0, _, a => a
  | passes + 1, j, a =>
    shiftDown passes (j + 1) (update (update a j (a (j + 1))) (j + 1) fill)

theorem shiftDown_below : ∀ (passes j : Nat) (a : Nat → α) {i : Nat}, i < j →
    shiftDown fill passes j a i = a i
  | 0, _, _, _, _ => rfl
  | passes + 1, j, a, i, h => by
    rw [shiftDown, shiftDown_below passes _ _ (by omega), update_of_ne (by omega),
      update_of_ne (by omega)]

/-- The list behind the first slot has moved down. -/
theorem list_shiftDown : ∀ (n i : Nat) (a : Nat → α),
    list (shiftDown fill (n + 1) i a) i n = list a (i + 1) n
  | 0, _, _ => rfl
  | n + 1, i, a => by
    have hfirst : shiftDown fill (n + 2) i a i = a (i + 1) := by
      rw [shiftDown, shiftDown_below fill _ _ _ (by omega), update_of_ne (by omega), update_self]
    rw [list_succ, hfirst, list_succ, shiftDown, list_shiftDown n (i + 1),
      list_update_below (by omega), list_update_below (by omega)]

end Slots
