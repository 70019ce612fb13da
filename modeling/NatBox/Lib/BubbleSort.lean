import Mathlib.Data.List.Perm.Basic
import Mathlib.Order.Lattice

/-
Bubble sort by a key, largest key first.

`pass key k` compares the first `k` adjacent pairs from the front and swaps a
pair whose second key is larger.  `bubbleSort key k` runs passes of `k`, `k - 1`,
down to one comparison, which sorts a list of `k + 1` elements.  Only elements
with different keys are ever swapped, so the sort is stable: `bubbleSort_filter`
says so for every predicate that holds of elements of one key only.
-/

namespace BubbleSort

variable {α β κ : Type} [LinearOrder κ] (key : α → κ)

def pass : Nat → List α → List α
  | 0, l => l
  | k + 1, a :: b :: l =>
    if key a < key b then b :: pass k (a :: l) else a :: pass k (b :: l)
  | _ + 1, l => l

def bubbleSort : Nat → List α → List α
  | 0, l => l
  | k + 1, l => bubbleSort k (pass key (k + 1) l)

/-! ## The elements -/

theorem pass_perm : ∀ (k : Nat) (l : List α), (pass key k l).Perm l
  | 0, l => List.Perm.refl l
  | _ + 1, [] => List.Perm.refl []
  | _ + 1, [a] => List.Perm.refl [a]
  | k + 1, a :: b :: l => by
    rw [pass]
    split
    · exact ((pass_perm k (a :: l)).cons b).trans (List.Perm.swap a b l)
    · exact (pass_perm k (b :: l)).cons a

theorem bubbleSort_perm (k : Nat) : ∀ (l : List α), (bubbleSort key k l).Perm l := by
  induction k with
  | zero => exact fun l => List.Perm.refl l
  | succ k ih => exact fun l => (ih _).trans (pass_perm key (k + 1) l)

theorem pass_length (k : Nat) (l : List α) : (pass key k l).length = l.length :=
  (pass_perm key k l).length_eq

/-! ## Stability -/

theorem pass_filter {p : α → Bool} (hp : ∀ a b, p a = true → p b = true → key a = key b) :
    ∀ (k : Nat) (l : List α), (pass key k l).filter p = l.filter p
  | 0, _ => rfl
  | _ + 1, [] => rfl
  | _ + 1, [_] => rfl
  | k + 1, a :: b :: l => by
    rw [pass]
    split
    · rename_i hlt
      rw [List.filter_cons, pass_filter hp k (a :: l)]
      by_cases ha : p a = true
      · have hb : ¬ p b = true := fun hb => (ne_of_lt hlt) (hp a b ha hb)
        simp [ha, hb]
      · simp [List.filter_cons, ha]
    · rw [List.filter_cons, pass_filter hp k (b :: l), ← List.filter_cons]

theorem bubbleSort_filter {p : α → Bool}
    (hp : ∀ a b, p a = true → p b = true → key a = key b) (k : Nat) :
    ∀ (l : List α), (bubbleSort key k l).filter p = l.filter p := by
  induction k with
  | zero => exact fun l => rfl
  | succ k ih =>
    intro l
    rw [bubbleSort, ih, pass_filter key hp]

/-! ## Sorting along a map -/

theorem pass_map (f : β → α) :
    ∀ (k : Nat) (l : List β), (pass (fun b => key (f b)) k l).map f = pass key k (l.map f)
  | 0, _ => rfl
  | _ + 1, [] => rfl
  | _ + 1, [_] => rfl
  | k + 1, a :: b :: l => by
    simp only [pass, List.map_cons]
    split
    · rw [List.map_cons, pass_map f k (a :: l), List.map_cons]
    · rw [List.map_cons, pass_map f k (b :: l), List.map_cons]

theorem bubbleSort_map (f : β → α) (k : Nat) : ∀ (l : List β),
    (bubbleSort (fun b => key (f b)) k l).map f = bubbleSort key k (l.map f) := by
  induction k with
  | zero => exact fun l => rfl
  | succ k ih =>
    intro l
    rw [bubbleSort, ih, pass_map, bubbleSort]

/-! ## Order -/

/-- The elements behind the compared ones stay where they are. -/
theorem pass_append : ∀ (k : Nat) (l rest : List α), l.length = k + 1 →
    pass key k (l ++ rest) = pass key k l ++ rest
  | 0, _, _, _ => rfl
  | k + 1, [], _, h => by simp at h
  | k + 1, [a], _, h => by simp at h
  | k + 1, a :: b :: l, rest, h => by
    have hk : ∀ c : α, (c :: l).length = k + 1 := by
      intro c
      simpa using h
    simp only [List.cons_append, pass]
    split
    · rw [← List.cons_append, pass_append k (a :: l) rest (hk a), List.cons_append]
    · rw [← List.cons_append, pass_append k (b :: l) rest (hk b), List.cons_append]

/-- A full pass carries a smallest key to the end. -/
theorem pass_last : ∀ (k : Nat) (l : List α), l.length = k + 1 →
    ∃ front m, pass key k l = front ++ [m] ∧ ∀ a ∈ front, key m ≤ key a
  | 0, l, h => by
    obtain ⟨m, rfl⟩ := List.length_eq_one_iff.mp h
    exact ⟨[], m, rfl, by simp⟩
  | k + 1, [], h => by simp at h
  | k + 1, [a], h => by simp at h
  | k + 1, a :: b :: l, h => by
    have hk : ∀ c : α, (c :: l).length = k + 1 := by
      intro c
      simpa using h
    -- The element kept in hand is the smaller of the pair, and the pass over the
    -- rest ends in something no larger than it.
    have step : ∀ x y : α, key y ≤ key x → ∃ front m,
        x :: pass key k (y :: l) = front ++ [m] ∧ ∀ c ∈ front, key m ≤ key c := by
      intro x y hxy
      obtain ⟨front, m, he, hm⟩ := pass_last k (y :: l) (hk y)
      have hy : key m ≤ key y := by
        have hmem : y ∈ front ++ [m] := by
          rw [← he]
          exact (pass_perm key k (y :: l)).mem_iff.mpr List.mem_cons_self
        rcases List.mem_append.mp hmem with hf | hl
        · exact hm y hf
        · rw [List.mem_singleton.mp hl]
      refine ⟨x :: front, m, by rw [he, List.cons_append], fun c hc => ?_⟩
      rcases List.mem_cons.mp hc with rfl | hc
      · exact hy.trans hxy
      · exact hm c hc
    rw [pass]
    split
    · rename_i hlt
      exact step b a (le_of_lt hlt)
    · rename_i hge
      exact step a b (not_lt.mp hge)

theorem bubbleSort_append_sorted (k : Nat) : ∀ (l rest : List α), l.length = k + 1 →
    (∀ a ∈ l, ∀ r ∈ rest, key r ≤ key a) → rest.Pairwise (fun a b => key b ≤ key a) →
    (bubbleSort key k (l ++ rest)).Pairwise (fun a b => key b ≤ key a) := by
  induction k with
  | zero =>
    intro l rest hl hle hrest
    obtain ⟨m, rfl⟩ := List.length_eq_one_iff.mp hl
    exact List.Pairwise.cons (fun r hr => hle m List.mem_cons_self r hr) hrest
  | succ k ih =>
    intro l rest hl hle hrest
    obtain ⟨front, m, he, hm⟩ := pass_last key (k + 1) l hl
    have hmem : ∀ c, c ∈ front ++ [m] ↔ c ∈ l := by
      intro c
      rw [← he]
      exact (pass_perm key (k + 1) l).mem_iff
    have hfront : front.length = k + 1 := by
      have h := pass_length key (k + 1) l
      rw [he, List.length_append, List.length_singleton] at h
      omega
    rw [bubbleSort, pass_append key (k + 1) l rest hl, he, List.append_assoc]
    refine ih front ([m] ++ rest) hfront ?_ ?_
    · intro a ha r hr
      rcases List.mem_append.mp hr with hr | hr
      · rw [List.mem_singleton.mp hr]
        exact hm a ha
      · exact hle a ((hmem a).mp (List.mem_append_left [m] ha)) r hr
    · exact List.Pairwise.cons
        (fun r hr => hle m ((hmem m).mp (by simp)) r hr) hrest

/-- `k` shrinking passes sort a list of `k + 1` elements. -/
theorem bubbleSort_sorted {k : Nat} {l : List α} (hl : l.length = k + 1) :
    (bubbleSort key k l).Pairwise (fun a b => key b ≤ key a) := by
  have h := bubbleSort_append_sorted key k l [] hl (by simp) List.Pairwise.nil
  rwa [List.append_nil] at h

/-- A list in order is known from its elements of each key, in their order: there is one stable
sort. -/
theorem eq_of_sorted {xs ys : List α} (hxs : xs.Pairwise (fun a b => key b ≤ key a))
    (hys : ys.Pairwise (fun a b => key b ≤ key a))
    (h : ∀ a, xs.filter (fun b => key b = key a) = ys.filter (fun b => key b = key a)) :
    xs = ys := by
  have hmem : ∀ a, a ∈ xs ↔ a ∈ ys := by
    intro a
    have hfilter := congrArg (a ∈ ·) (h a)
    simpa [List.mem_filter] using hfilter
  induction xs generalizing ys with
  | nil =>
    exact (List.eq_nil_iff_forall_not_mem.mpr fun a ha => by simpa using (hmem a).mpr ha).symm
  | cons x xs ih =>
    cases ys with
    | nil => exact absurd ((hmem x).mp List.mem_cons_self) List.not_mem_nil
    | cons y ys =>
      obtain ⟨hx, hxs'⟩ := List.pairwise_cons.mp hxs
      obtain ⟨hy, hys'⟩ := List.pairwise_cons.mp hys
      -- both heads have the largest key
      have hkey : key x = key y := by
        refine le_antisymm ?_ ?_
        · rcases List.mem_cons.mp ((hmem x).mp List.mem_cons_self) with rfl | hmem'
          · exact le_rfl
          · exact hy x hmem'
        · rcases List.mem_cons.mp ((hmem y).mpr List.mem_cons_self) with rfl | hmem'
          · exact le_rfl
          · exact hx y hmem'
      have hhead := h x
      rw [List.filter_cons_of_pos (by simp), List.filter_cons_of_pos (by simp [hkey])] at hhead
      obtain ⟨rfl, -⟩ := List.cons.inj hhead
      have htail : ∀ a,
          xs.filter (fun b => key b = key a) = ys.filter (fun b => key b = key a) := by
        intro a
        have ha := h a
        by_cases hxa : key x = key a
        · rw [List.filter_cons_of_pos (by simp [hxa]),
            List.filter_cons_of_pos (by simp [hxa])] at ha
          exact (List.cons.inj ha).2
        · rwa [List.filter_cons_of_neg (by simp [hxa]),
            List.filter_cons_of_neg (by simp [hxa])] at ha
      refine congrArg (x :: ·) (ih hxs' hys' htail fun a => ?_)
      have hfilter := congrArg (a ∈ ·) (htail a)
      simpa [List.mem_filter] using hfilter

/- Reducing a sort of an unknown list unfolds every pass several times over, so
the unifier is kept out of it. -/
attribute [irreducible] bubbleSort

end BubbleSort
