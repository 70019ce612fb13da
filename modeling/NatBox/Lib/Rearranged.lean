import Mathlib.Data.List.Nodup
import Mathlib.Data.List.Perm.Basic
import Mathlib.Logic.Equiv.Basic

/-
Arrays that are rearranged inside a range.

An array is a function on the indices.  `Within lo hi v w` says that `w` holds in
`[lo, hi)` the elements that `v` holds there, in some order, and agrees with `v` elsewhere.
It is transitive, so it is what the steps of a sort in place keep; a bound on the elements
of the range goes through it, and so do the lists of the elements.
-/

namespace Rearranged

variable {α : Type} {lo hi : Nat} {u v w : Nat → α}

def Within (lo hi : Nat) (v w : Nat → α) : Prop :=
  ∃ σ : Equiv.Perm Nat, (∀ k, σ k ≠ k → lo ≤ k ∧ k < hi) ∧ w = v ∘ σ

/-- The elements at `a` and `b` change places. -/
def exchange (v : Nat → α) (a b : Nat) : Nat → α := v ∘ Equiv.swap a b

/-- The element at `c` goes to `a`, the one at `b` to `c`, and the one at `a` to `b`. -/
def rotate (v : Nat → α) (a b c : Nat) : Nat → α := exchange (exchange v b c) a b

namespace Within

theorem refl (v : Nat → α) : Within lo hi v v :=
  ⟨Equiv.refl Nat, fun _ h => absurd rfl h, rfl⟩

theorem trans (h : Within lo hi u v) (h' : Within lo hi v w) : Within lo hi u w := by
  obtain ⟨σ, hσ, rfl⟩ := h
  obtain ⟨τ, hτ, rfl⟩ := h'
  refine ⟨τ.trans σ, fun k hk => ?_, rfl⟩
  by_cases hτk : τ k = k
  · refine hσ k fun hσk => hk ?_
    rw [Equiv.trans_apply, hτk, hσk]
  · exact hτ k hτk

theorem mono {lo' hi' : Nat} (h : Within lo hi v w) (hlo : lo' ≤ lo) (hhi : hi ≤ hi') :
    Within lo' hi' v w := by
  obtain ⟨σ, hσ, rfl⟩ := h
  exact ⟨σ, fun k hk => ⟨Nat.le_trans hlo (hσ k hk).1, Nat.lt_of_lt_of_le (hσ k hk).2 hhi⟩, rfl⟩

theorem outside {k : Nat} (h : Within lo hi v w) (hk : k < lo ∨ hi ≤ k) : w k = v k := by
  obtain ⟨σ, hσ, rfl⟩ := h
  have hfix : σ k = k := by
    by_contra hne
    have := hσ k hne
    omega
  rw [Function.comp_apply, hfix]

/-- What holds of every element of the range still does. -/
theorem forall_range {P : α → Prop} (h : Within lo hi v w)
    (hP : ∀ k, lo ≤ k → k < hi → P (v k)) : ∀ k, lo ≤ k → k < hi → P (w k) := by
  intro k hlo hhi
  obtain ⟨σ, hσ, rfl⟩ := h
  by_cases hk : σ k = k
  · rw [Function.comp_apply, hk]
    exact hP k hlo hhi
  · obtain ⟨hlo', hhi'⟩ := hσ (σ k) fun heq => hk (σ.injective heq)
    exact hP (σ k) hlo' hhi'

/-- The lists of the elements. -/
theorem perm_map_range {n : Nat} (h : Within 0 n v w) :
    ((List.range n).map w).Perm ((List.range n).map v) := by
  obtain ⟨σ, hσ, rfl⟩ := h
  have hnodup : ((List.range n).map σ).Nodup := List.nodup_range.map σ.injective
  have hmem : ∀ k, k ∈ (List.range n).map σ ↔ k ∈ List.range n := by
    intro k
    rw [List.mem_map, List.mem_range]
    constructor
    · rintro ⟨m, hm, rfl⟩
      by_cases hfix : σ m = m
      · rw [hfix]
        exact List.mem_range.mp hm
      · exact (hσ (σ m) fun heq => hfix (σ.injective heq)).2
    · intro hk
      refine ⟨σ.symm k, List.mem_range.mpr ?_, σ.apply_symm_apply k⟩
      by_cases hfix : σ (σ.symm k) = σ.symm k
      · rwa [← hfix, σ.apply_symm_apply]
      · exact (hσ _ hfix).2
  rw [← List.map_map]
  exact ((List.perm_ext_iff_of_nodup hnodup List.nodup_range).mpr hmem).map v

end Within

section Exchange

variable {a b c k : Nat}

theorem exchange_left : exchange v a b a = v b := congrArg v (Equiv.swap_apply_left a b)

theorem exchange_right : exchange v a b b = v a := congrArg v (Equiv.swap_apply_right a b)

theorem exchange_other (ha : k ≠ a) (hb : k ≠ b) : exchange v a b k = v k :=
  congrArg v (Equiv.swap_apply_of_ne_of_ne ha hb)

theorem within_exchange (ha : lo ≤ a ∧ a < hi) (hb : lo ≤ b ∧ b < hi) :
    Within lo hi v (exchange v a b) := by
  refine ⟨Equiv.swap a b, fun k hk => ?_, rfl⟩
  rcases (Equiv.swap_apply_ne_self_iff.mp hk).2 with rfl | rfl
  · exact ha
  · exact hb

theorem rotate_first : rotate v a b c a = v c := exchange_left.trans exchange_left

theorem rotate_second (hab : a ≠ b) (hac : a ≠ c) : rotate v a b c b = v a :=
  exchange_right.trans (exchange_other hab hac)

theorem rotate_third (hac : a ≠ c) (hbc : b ≠ c) : rotate v a b c c = v b :=
  (exchange_other hac.symm hbc.symm).trans exchange_right

theorem rotate_other (ha : k ≠ a) (hb : k ≠ b) (hc : k ≠ c) : rotate v a b c k = v k :=
  (exchange_other ha hb).trans (exchange_other hb hc)

theorem within_rotate (ha : lo ≤ a ∧ a < hi) (hb : lo ≤ b ∧ b < hi) (hc : lo ≤ c ∧ c < hi) :
    Within lo hi v (rotate v a b c) :=
  (within_exchange hb hc).trans (within_exchange ha hb)

end Exchange

/-! ## Order -/

/-- Of two elements of the range the one in front is related to the other. -/
def Ordered (r : α → α → Prop) (lo hi : Nat) (v : Nat → α) : Prop :=
  ∀ a b, lo ≤ a → a < b → b < hi → r (v a) (v b)

theorem Ordered.outside {r : α → α → Prop} {lo' hi' : Nat} (h : Ordered r lo hi v)
    (hw : Within lo' hi' v w) (hdisj : hi ≤ lo' ∨ hi' ≤ lo) : Ordered r lo hi w := by
  intro a b ha hab hb
  rw [hw.outside (by omega), hw.outside (by omega)]
  exact h a b ha hab hb

theorem Ordered.pairwise {r : α → α → Prop} {n : Nat} (h : Ordered r 0 n v) :
    ((List.range n).map v).Pairwise r := by
  rw [List.pairwise_map]
  refine List.Pairwise.imp_of_mem ?_ List.pairwise_lt_range
  intro a b _ hb hab
  exact h a b (Nat.zero_le a) hab (List.mem_range.mp hb)

end Rearranged
