import Mathlib.Data.List.Induction
import Mathlib.Order.Lattice
import Mathlib.Order.RelClasses

/-
Insertion into a list from its tail, giving up after a number of passed elements.

A list built so is sorted exactly when no element had to pass more than `limit` of
those that were there before it (`insertAll_sorted_iff`): an element that gives up
stays behind a larger one for good, since insertion keeps the order of the rest.
-/

namespace TailInsert

variable {α : Type} (r : α → α → Prop) [DecidableRel r] (limit : Nat)

/- The list is given from its tail on; `count` elements have been passed. -/
def insertLoop (x : α) : Nat → List α → List α
  | _, [] => [x]
  | count, tail :: prev =>
    if count = limit then x :: tail :: prev
    else if r x tail then tail :: insertLoop x (count + 1) prev
    else x :: tail :: prev

def insert (l : List α) (x : α) : List α := (insertLoop r limit x 0 l.reverse).reverse

/-- The list after the elements have come in one after another. -/
def insertAll (xs : List α) : List α := xs.foldl (insert r limit) []

variable {r limit}

theorem insertLoop_perm (x : α) (l : List α) (count : Nat) :
    (insertLoop r limit x count l).Perm (x :: l) := by
  induction l generalizing count with
  | nil => exact List.Perm.refl _
  | cons tail prev ih =>
    unfold insertLoop
    split
    · exact List.Perm.refl _
    · split
      · exact ((ih (count + 1)).cons tail).trans (List.Perm.swap x tail prev)
      · exact List.Perm.refl _

theorem sublist_insertLoop (x : α) (l : List α) (count : Nat) :
    l.Sublist (insertLoop r limit x count l) := by
  induction l generalizing count with
  | nil => exact List.nil_sublist _
  | cons tail prev ih =>
    unfold insertLoop
    split
    · exact List.sublist_cons_self x _
    · split
      · exact (ih (count + 1)).cons_cons tail
      · exact List.sublist_cons_self x _

theorem insert_perm (l : List α) (x : α) : (insert r limit l x).Perm (x :: l) := by
  unfold insert
  apply (List.reverse_perm _).trans
  exact (insertLoop_perm x l.reverse 0).trans ((List.reverse_perm l).cons x)

theorem sublist_insert (l : List α) (x : α) : l.Sublist (insert r limit l x) := by
  have h : l.reverse.Sublist (insertLoop r limit x 0 l.reverse) := sublist_insertLoop x l.reverse 0
  have hrev := h.reverse
  rwa [List.reverse_reverse] at hrev

theorem insertAll_concat (xs : List α) (x : α) :
    insertAll r limit (xs ++ [x]) = insert r limit (insertAll r limit xs) x := by
  unfold insertAll
  rw [List.foldl_append]
  rfl

theorem insertAll_perm (xs : List α) : (insertAll r limit xs).Perm xs := by
  induction xs using List.reverseRecOn with
  | nil => exact List.Perm.refl _
  | append_singleton xs x ih =>
    rw [insertAll_concat]
    apply (insert_perm _ x).trans
    exact (ih.cons x).trans (List.perm_append_singleton x xs).symm

/-- Insertion only looks at how the elements compare. -/
theorem insertLoop_map {β : Type} {s : β → β → Prop} [DecidableRel s] {f : β → α}
    (hf : ∀ a b, r (f a) (f b) ↔ s a b) (x : β) (l : List β) (count : Nat) :
    insertLoop r limit (f x) count (l.map f) = (insertLoop s limit x count l).map f := by
  induction l generalizing count with
  | nil => rfl
  | cons tail prev ih =>
    rw [List.map_cons, insertLoop, insertLoop, ih]
    by_cases hcount : count = limit
    · rw [if_pos hcount, if_pos hcount]
      rfl
    · rw [if_neg hcount, if_neg hcount]
      by_cases hx : s x tail
      · rw [if_pos ((hf x tail).mpr hx), if_pos hx]
        rfl
      · rw [if_neg (fun h => hx ((hf x tail).mp h)), if_neg hx]
        rfl

theorem insertAll_map {β : Type} {s : β → β → Prop} [DecidableRel s] {f : β → α}
    (hf : ∀ a b, r (f a) (f b) ↔ s a b) (xs : List β) :
    insertAll r limit (xs.map f) = (insertAll s limit xs).map f := by
  induction xs using List.reverseRecOn with
  | nil => rfl
  | append_singleton xs x ih =>
    rw [List.map_append, List.map_singleton, insertAll_concat, insertAll_concat, ih]
    unfold insert
    rw [← List.map_reverse, insertLoop_map hf, List.map_reverse]

section Sorted

variable [IsStrictOrder α r]

omit [DecidableRel r] in
/-- In front of a sorted list a new element has to be above the tail. -/
theorem cons_sorted_iff {x tail : α} {prev : List α}
    (hl : (tail :: prev).Pairwise fun a b => r b a) :
    (x :: tail :: prev).Pairwise (fun a b => r b a) ↔ r tail x := by
  obtain ⟨htail, -⟩ := List.pairwise_cons.mp hl
  rw [List.pairwise_cons]
  constructor
  · intro h
    exact h.1 tail List.mem_cons_self
  · intro h
    refine ⟨?_, hl⟩
    intro y hy
    cases List.mem_cons.mp hy with
    | inl heq => rwa [heq]
    | inr hmem => exact IsTrans.trans y tail x (htail y hmem) h

/-- And then it is above all others, and below none. -/
theorem above_of_above_tail {x tail : α} {prev : List α}
    (hl : (tail :: prev).Pairwise fun a b => r b a) (h : r tail x) :
    (∀ y ∈ tail :: prev, r x y ∨ r y x) ∧ (tail :: prev).countP (fun y => r x y) = 0 := by
  have habove : ∀ y ∈ tail :: prev, r y x :=
    (List.pairwise_cons.mp ((cons_sorted_iff hl).mpr h)).1
  refine ⟨fun y hy => Or.inr (habove y hy), ?_⟩
  rw [List.countP_eq_zero]
  intro y hy hxy
  exact asymm (habove y hy) (of_decide_eq_true hxy)

/-- With at most `limit` elements passed, the result is sorted exactly when the new
element compares with all others and passes no more than the rest of `limit`. -/
theorem insertLoop_sorted_iff {x : α} {l : List α} {count : Nat} (hcount : count ≤ limit)
    (hl : l.Pairwise fun a b => r b a) :
    (insertLoop r limit x count l).Pairwise (fun a b => r b a) ↔
      (∀ y ∈ l, r x y ∨ r y x) ∧ count + l.countP (fun y => r x y) ≤ limit := by
  induction l generalizing count with
  | nil =>
    unfold insertLoop
    constructor
    · intro _
      refine ⟨fun y hy => absurd hy List.not_mem_nil, ?_⟩
      rw [List.countP_nil]
      exact hcount
    · intro _
      exact List.pairwise_singleton _ _
  | cons tail prev ih =>
    obtain ⟨htail, hprev⟩ := List.pairwise_cons.mp hl
    -- above the tail it stays in front, and has passed enough
    have hfront : r tail x → (∀ y ∈ tail :: prev, r x y ∨ r y x) ∧
        count + (tail :: prev).countP (fun y => r x y) ≤ limit := by
      intro h
      obtain ⟨hcompares, hzero⟩ := above_of_above_tail hl h
      rw [hzero]
      exact ⟨hcompares, hcount⟩
    unfold insertLoop
    split
    · rename_i hlimit
      rw [cons_sorted_iff hl]
      refine ⟨hfront, ?_⟩
      intro h
      have hnot : ¬ r x tail := by
        intro hx
        have hpos : 0 < (tail :: prev).countP (fun y => r x y) := by
          rw [List.countP_pos_iff]
          exact ⟨tail, List.mem_cons_self, decide_eq_true hx⟩
        omega
      exact (h.1 tail List.mem_cons_self).resolve_left hnot
    rename_i hlimit
    split
    · rename_i hx
      rw [List.pairwise_cons, ih (by omega) hprev, List.forall_mem_cons, List.countP_cons,
        if_pos (decide_eq_true hx)]
      have hrest : ∀ y ∈ insertLoop r limit x (count + 1) prev, r y tail := by
        intro y hy
        cases List.mem_cons.mp ((insertLoop_perm x prev (count + 1)).mem_iff.mp hy) with
        | inl heq => rwa [heq]
        | inr hmem => exact htail y hmem
      constructor
      · intro h
        exact ⟨⟨Or.inl hx, h.2.1⟩, by omega⟩
      · intro h
        exact ⟨hrest, h.1.2, by omega⟩
    · rename_i hx
      rw [cons_sorted_iff hl]
      refine ⟨hfront, ?_⟩
      intro h
      exact (h.1 tail List.mem_cons_self).resolve_left hx

theorem insert_sorted_iff {x : α} {l : List α} (hl : l.Pairwise r) :
    (insert r limit l x).Pairwise r ↔
      (∀ y ∈ l, r x y ∨ r y x) ∧ l.countP (fun y => r x y) ≤ limit := by
  unfold insert
  rw [List.pairwise_reverse,
    insertLoop_sorted_iff (Nat.zero_le limit) (List.pairwise_reverse.mpr hl), Nat.zero_add,
    List.countP_reverse]
  simp only [List.mem_reverse]

/-- Elements that come in one after another end up sorted exactly when they all compare
and each of them finds at most `limit` larger ones. -/
theorem insertAll_sorted_iff {xs : List α} :
    (insertAll r limit xs).Pairwise r ↔
      ∀ pre x post, xs = pre ++ x :: post →
        (∀ y ∈ pre, r x y ∨ r y x) ∧ pre.countP (fun y => r x y) ≤ limit := by
  induction xs using List.reverseRecOn with
  | nil =>
    refine ⟨fun _ pre x post h => ?_, fun _ => List.Pairwise.nil⟩
    simp at h
  | append_singleton xs x ih =>
    have hperm : (insertAll r limit xs).Perm xs := insertAll_perm xs
    rw [insertAll_concat]
    constructor
    · intro h pre y post heq
      have hl := h.sublist (sublist_insert _ x)
      rcases List.eq_nil_or_concat post with rfl | ⟨post', z, rfl⟩
      · obtain ⟨rfl, hy⟩ := List.append_inj' heq rfl
        cases hy
        rw [insert_sorted_iff hl, hperm.countP_eq] at h
        exact ⟨fun z hz => h.1 z (hperm.mem_iff.mpr hz), h.2⟩
      · rw [List.concat_eq_append, ← List.cons_append, ← List.append_assoc] at heq
        exact ih.mp hl pre y post' (List.append_inj' heq rfl).1
    · intro h
      have hl : (insertAll r limit xs).Pairwise r := by
        rw [ih]
        intro pre y post heq
        apply h pre y (post ++ [x])
        rw [heq, List.append_assoc, List.cons_append]
      rw [insert_sorted_iff hl, hperm.countP_eq]
      have hx := h xs x [] rfl
      exact ⟨fun y hy => hx.1 y (hperm.mem_iff.mp hy), hx.2⟩

/-- What comes in out of order ends up in the order `ys` exactly when none of it finds more
than `limit` larger elements. -/
theorem insertAll_eq_iff {xs ys : List α} (hys : ys.Pairwise r) :
    insertAll r limit xs = ys ↔
      xs.Perm ys ∧
        ∀ pre x post, xs = pre ++ x :: post → pre.countP (fun y => r x y) ≤ limit := by
  constructor
  · intro h
    rw [← h] at hys ⊢
    refine ⟨(insertAll_perm xs).symm, fun pre x post heq => ?_⟩
    exact (insertAll_sorted_iff.mp hys pre x post heq).2
  · intro h
    have hcomp : xs.Pairwise fun a b => r a b ∨ r b a :=
      (h.1.symm.pairwise_iff Or.symm).mp (hys.imp Or.inl)
    have hsorted : (insertAll r limit xs).Pairwise r := by
      rw [insertAll_sorted_iff]
      intro pre x post heq
      refine ⟨fun y hy => ?_, h.2 pre x post heq⟩
      rw [heq] at hcomp
      exact ((List.pairwise_append.mp hcomp).2.2 y hy x List.mem_cons_self).symm
    apply List.Perm.eq_of_pairwise _ hsorted hys ((insertAll_perm xs).trans h.1)
    intro a b _ _ hab hba
    exact absurd hba (asymm hab)

end Sorted

/-! ## Equal keys

Where elements are compared by a key, and may have the same one, a list in the order of the
keys stays so exactly when at most `limit` of its elements have a larger key. -/

section Keys

variable {β : Type} [LinearOrder β] {key : α → β}

/-- From the tail on the keys become smaller. -/
theorem insertLoop_ordered_iff (hr : ∀ a b, r a b ↔ key a < key b) {x : α} {l : List α}
    {count : Nat} (hcount : count ≤ limit) (hl : l.Pairwise fun a b => key b ≤ key a) :
    (insertLoop r limit x count l).Pairwise (fun a b => key b ≤ key a) ↔
      count + l.countP (fun y => key x < key y) ≤ limit := by
  induction l generalizing count with
  | nil =>
    rw [insertLoop, List.countP_nil]
    exact iff_of_true (List.pairwise_singleton _ _) hcount
  | cons tail prev ih =>
    obtain ⟨htail, hprev⟩ := List.pairwise_cons.mp hl
    unfold insertLoop
    split
    · next hlimit =>
      have hzero : (∀ y ∈ tail :: prev, key y ≤ key x) ↔
          (tail :: prev).countP (fun y => key x < key y) = 0 := by
        simp [List.countP_eq_zero]
      rw [List.pairwise_cons, and_iff_left hl, hzero, hlimit]
      omega
    · next hlimit =>
      split
      · next hx =>
        have hlt := (hr x tail).mp hx
        have hrest : ∀ y ∈ insertLoop r limit x (count + 1) prev, key y ≤ key tail := by
          intro y hy
          rcases List.mem_cons.mp ((insertLoop_perm x prev (count + 1)).mem_iff.mp hy) with rfl | hy
          · exact hlt.le
          · exact htail y hy
        rw [List.pairwise_cons, and_iff_right hrest, ih (by omega) hprev,
          List.countP_cons_of_pos (p := fun y => key x < key y) (decide_eq_true hlt)]
        omega
      · next hx =>
        have hle : key tail ≤ key x := not_lt.mp fun hlt => hx ((hr x tail).mpr hlt)
        have hall : ∀ y ∈ tail :: prev, key y ≤ key x := by
          intro y hy
          rcases List.mem_cons.mp hy with rfl | hy
          · exact hle
          · exact (htail y hy).trans hle
        have hzero : (tail :: prev).countP (fun y => key x < key y) = 0 :=
          List.countP_eq_zero.mpr fun y hy => by simpa using hall y hy
        rw [hzero]
        exact iff_of_true (List.pairwise_cons.mpr ⟨hall, hl⟩) hcount

theorem insert_ordered_iff (hr : ∀ a b, r a b ↔ key a < key b) {x : α} {l : List α}
    (hl : l.Pairwise fun a b => key a ≤ key b) :
    (insert r limit l x).Pairwise (fun a b => key a ≤ key b) ↔
      l.countP (fun y => key x < key y) ≤ limit := by
  unfold insert
  rw [List.pairwise_reverse,
    insertLoop_ordered_iff hr (Nat.zero_le limit) (List.pairwise_reverse.mpr hl), Nat.zero_add,
    List.countP_reverse]

end Keys

end TailInsert
