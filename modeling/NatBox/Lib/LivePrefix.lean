import Mathlib.Data.List.Basic

/-
Lists whose live elements come first.

A table that keeps only the number of its live slots can be searched through that many
slots exactly when the live ones are the first of it.  `lt_countP_iff` is what the
search then relies on, `Live.of_lt_countP` says that nothing weaker will do.
-/

namespace LivePrefix

variable {α : Type} (p : α → Bool)

/-- No live element stands behind one that is not. -/
def Live (l : List α) : Prop :=
  ∀ i j, ∀ _ : i < j, ∀ hj : j < l.length, p l[j] = true → p l[i] = true

variable {p}

theorem Live.tail {a : α} {l : List α} (h : Live p (a :: l)) : Live p l := by
  intro i j hij hj hp
  exact h (i + 1) (j + 1) (Nat.succ_lt_succ hij) (Nat.succ_lt_succ hj) hp

/-- The live elements are the first ones. -/
theorem Live.lt_countP_iff {l : List α} (h : Live p l) :
    ∀ i, ∀ hi : i < l.length, p l[i] = true ↔ i < l.countP p := by
  induction l with
  | nil =>
    intro i hi
    exact absurd hi (Nat.not_lt_zero i)
  | cons a l ih =>
    intro i hi
    by_cases ha : p a = true
    · rw [List.countP_cons_of_pos ha]
      cases i with
      | zero => exact iff_of_true ha (Nat.succ_pos _)
      | succ i =>
        rw [Nat.succ_lt_succ_iff]
        exact ih h.tail i (Nat.lt_of_succ_lt_succ hi)
    · have hnone : ∀ j, ∀ hj : j < (a :: l).length, ¬ p (a :: l)[j] = true := by
        intro j hj hp
        cases j with
        | zero => exact ha hp
        | succ j => exact ha (h 0 (j + 1) (Nat.succ_pos j) hj hp)
      have hzero : (a :: l).countP p = 0 := by
        rw [List.countP_eq_zero]
        intro b hb
        obtain ⟨j, hj, rfl⟩ := List.getElem_of_mem hb
        exact hnone j hj
      rw [hzero]
      exact iff_of_false (hnone i hi) (Nat.not_lt_zero i)

/-- When every live element is among the first of them, counted in all, the live ones
come first. -/
theorem Live.of_lt_countP {l : List α}
    (h : ∀ i, ∀ hi : i < l.length, p l[i] = true → i < l.countP p) : Live p l := by
  have hle : l.countP p ≤ l.length := List.countP_le_length
  have hdrop : (l.drop (l.countP p)).countP p = 0 := by
    rw [List.countP_eq_zero]
    intro b hb hp
    obtain ⟨j, hj, rfl⟩ := List.getElem_of_mem hb
    rw [List.length_drop] at hj
    rw [List.getElem_drop] at hp
    have := h _ (by omega) hp
    omega
  have hsplit : (l.take (l.countP p)).countP p + (l.drop (l.countP p)).countP p =
      l.countP p := by
    rw [← List.countP_append, List.take_append_drop]
  have hall : ∀ b ∈ l.take (l.countP p), p b = true := by
    rw [← List.countP_eq_length, List.length_take]
    omega
  intro i j hij hj hp
  have hlt := h j hj hp
  apply hall
  rw [List.mem_take_iff_getElem]
  exact ⟨i, by omega, rfl⟩

/-- Behind an element that is not live nothing is. -/
theorem Live.filter_drop {l : List α} (h : Live p l) {i : Nat} (hi : i < l.length)
    (hl : p l[i] = false) : (l.drop i).filter p = [] := by
  rw [List.filter_eq_nil_iff]
  intro b hb hp
  obtain ⟨j, hj, rfl⟩ := List.getElem_of_mem hb
  rw [List.length_drop] at hj
  rw [List.getElem_drop] at hp
  cases j with
  | zero => exact Bool.false_ne_true (hl.symm.trans hp)
  | succ j => exact Bool.false_ne_true (hl.symm.trans (h i _ (by omega) (by omega) hp))

theorem Live.eq_filter_append {l : List α} (h : Live p l) :
    l = l.filter p ++ l.filter fun a => !p a := by
  induction l with
  | nil => rfl
  | cons a l ih =>
    by_cases ha : p a = true
    · rw [List.filter_cons_of_pos ha, List.filter_cons_of_neg (by simp [ha]), List.cons_append,
        ← ih h.tail]
    · have hnone : (a :: l).filter p = [] :=
        h.filter_drop (Nat.succ_pos _) (by simpa using ha)
      rw [hnone, List.nil_append, eq_comm, List.filter_eq_self]
      intro b hb
      simpa using List.filter_eq_nil_iff.mp hnone b hb

/-- An element put where the first one that is not live stood comes last of the live
ones, also among those of them that a second predicate picks. -/
theorem Live.filter_set {l : List α} (h : Live p l) {i : Nat} (hi : i < l.length)
    (hl : p l[i] = false) (q : α → Bool) (hq : ∀ b, q b = true → p b = true) (a : α) :
    (l.set i a).filter q = l.filter q ++ [a].filter q := by
  have hbehind : (l.drop i).filter q = [] := by
    rw [List.filter_eq_nil_iff]
    intro b hb hqb
    exact List.filter_eq_nil_iff.mp (h.filter_drop hi hl) b hb (hq b hqb)
  have hrest : (l.drop (i + 1)).filter q = [] := by
    rw [List.filter_eq_nil_iff] at hbehind ⊢
    intro b hb
    refine hbehind b ?_
    rw [List.drop_eq_getElem_cons hi]
    exact List.mem_cons_of_mem _ hb
  have hold : l.filter q = (l.take i).filter q := by
    conv_lhs => rw [← List.take_append_drop i l, List.filter_append, hbehind, List.append_nil]
  rw [hold, List.set_eq_take_append_cons_drop, if_pos hi, List.filter_append, List.filter_cons,
    hrest, List.filter_singleton]
  cases q a <;> rfl

theorem countP_set_of_not {l : List α} {i : Nat} (hi : i < l.length) {a : α}
    (hl : p l[i] = false) (ha : p a = true) : (l.set i a).countP p = l.countP p + 1 := by
  rw [List.countP_set hi, hl, ha]
  rfl

theorem countP_set_of_live {l : List α} {i : Nat} (hi : i < l.length) {a : α}
    (hl : p l[i] = true) (ha : p a = false) : (l.set i a).countP p + 1 = l.countP p := by
  have hpos : 0 < l.countP p := List.countP_pos_iff.mpr ⟨_, List.getElem_mem hi, hl⟩
  rw [List.countP_set hi, hl, ha, if_pos rfl, if_neg Bool.false_ne_true]
  omega

theorem countP_set_of_eq {l : List α} {i : Nat} (hi : i < l.length) {a : α}
    (h : p a = p l[i]) : (l.set i a).countP p = l.countP p := by
  rw [List.countP_set hi, h]
  by_cases hl : p l[i] = true
  · have hpos : 0 < l.countP p := List.countP_pos_iff.mpr ⟨_, List.getElem_mem hi, hl⟩
    rw [if_pos hl]
    omega
  · rw [if_neg hl]
    rfl

end LivePrefix
