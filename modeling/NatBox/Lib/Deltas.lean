import Mathlib.Data.List.Nodup
import Mathlib.Algebra.BigOperators.Group.List.Basic
import Mathlib.Algebra.Order.Group.Defs
import Mathlib.Tactic.Abel

/-
Lists of differences.

Timers are often kept in the order in which they expire, each with the time from the one
in front of it to itself.  `Due key due off l` says that `due` of each is the sum of the
differences up to it, `off` included.  Putting a timer in, taking one out from anywhere
and letting time pass each change one difference or two: `Due.adjust` says what a change
of the first difference does to a list, and `Due.append` takes a list apart where it
happens.
-/

namespace Deltas

variable {ι G : Type} [AddCommGroup G]

def Due (key due : ι → G) : G → List ι → Prop
  | _, [] => True
  | off, p :: l => due p = off + key p ∧ Due key due (off + key p) l

/-- The first difference of a list is greater by `c`, and the others are the same. -/
def Adjusted (key key' : ι → G) (c : G) : List ι → Prop
  | [] => True
  | p :: l => key' p = key p + c ∧ ∀ x ∈ l, key' x = key x

variable {key key' due due' : ι → G} {off c : G} {l front behind : List ι} {p : ι}

theorem Due.congr (h : Due key due off l) (hk : ∀ x ∈ l, key' x = key x)
    (hd : ∀ x ∈ l, due' x = due x) : Due key' due' off l := by
  induction l generalizing off with
  | nil => trivial
  | cons p l ih =>
    obtain ⟨hp, hl⟩ := h
    refine ⟨?_, ?_⟩
    · rw [hk p (by simp), hd p (by simp)]
      exact hp
    · rw [hk p (by simp)]
      exact ih hl (fun x hx => hk x (by simp [hx])) fun x hx => hd x (by simp [hx])

theorem due_append :
    Due key due off (front ++ behind) ↔
      Due key due off front ∧ Due key due (off + (front.map key).sum) behind := by
  induction front generalizing off with
  | nil => simp [Due]
  | cons p front ih =>
    show (_ ∧ Due key due (off + key p) (front ++ behind)) ↔ (_ ∧ _) ∧ _
    rw [ih, List.map_cons, List.sum_cons, add_assoc, and_assoc]

/-- What the first difference gains, `off` loses. -/
theorem Due.adjust (h : Due key due off l) (ha : Adjusted key key' c l) :
    Due key' due (off - c) l := by
  cases l with
  | nil => trivial
  | cons p l =>
    have hsum : off - c + key' p = off + key p := by
      rw [ha.1]
      abel
    refine ⟨h.1.trans hsum.symm, ?_⟩
    rw [hsum]
    exact h.2.congr ha.2 fun _ _ => rfl

/-- Time passes for all of them. -/
theorem Due.shift (h : Due key due off l) (c : G) :
    Due key (fun x => due x + c) (off + c) l := by
  induction l generalizing off with
  | nil => trivial
  | cons p l ih =>
    have hsum : off + c + key p = off + key p + c := by abel
    refine ⟨?_, ?_⟩
    · show due p + c = _
      rw [h.1, hsum]
    · rw [hsum]
      exact ih h.2

/-- A timer taken out leaves its difference to the one behind it. -/
theorem Due.remove (h : Due key due off (front ++ p :: behind))
    (hf : ∀ x ∈ front, key' x = key x) (ha : Adjusted key key' (key p) behind) :
    Due key' due off (front ++ behind) := by
  obtain ⟨hfront, -, hbehind⟩ := due_append.mp h
  have hmap : front.map key' = front.map key := List.map_congr_left hf
  refine due_append.mpr ⟨hfront.congr hf fun _ _ => rfl, ?_⟩
  have hadj := hbehind.adjust ha
  rwa [add_sub_cancel_right, ← hmap] at hadj

/-- A timer put in takes its difference from the one behind it. -/
theorem Due.insert (h : Due key due off (front ++ behind)) (hf : ∀ x ∈ front, key' x = key x)
    (hp : due' p = off + (front.map key).sum + key' p)
    (ha : Adjusted key key' (-key' p) behind)
    (hd : ∀ x ∈ front ++ behind, due' x = due x) : Due key' due' off (front ++ p :: behind) := by
  obtain ⟨hfront, hbehind⟩ := due_append.mp h
  have hmap : front.map key' = front.map key := List.map_congr_left hf
  refine due_append.mpr
    ⟨hfront.congr hf fun x hx => hd x (List.mem_append_left _ hx), ?_, ?_⟩
  · rw [hmap]
    exact hp
  · have hadj := hbehind.adjust ha
    rw [sub_neg_eq_add, ← hmap] at hadj
    exact hadj.congr (fun _ _ => rfl) fun x hx => hd x (List.mem_append_right _ hx)

/-- With all differences zero they are all due at once. -/
theorem Due.eq_of_zero (h : Due key due off l) (hk : ∀ x ∈ l, key x = 0) :
    ∀ x ∈ l, due x = off := by
  induction l generalizing off with
  | nil => exact fun x hx => absurd hx List.not_mem_nil
  | cons p l ih =>
    have hp : off + key p = off := by rw [hk p (by simp), add_zero]
    intro x hx
    rcases List.mem_cons.mp hx with rfl | hx
    · exact h.1.trans hp
    · exact (ih h.2 (fun y hy => hk y (by simp [hy])) x hx).trans hp

section Order

variable [PartialOrder G] [IsOrderedAddMonoid G]

/-- With no negative differences none of them is due before the first. -/
theorem Due.le (h : Due key due off l) (hk : ∀ x ∈ l, 0 ≤ key x) : ∀ x ∈ l, off ≤ due x := by
  induction l generalizing off with
  | nil => exact fun x hx => absurd hx List.not_mem_nil
  | cons p l ih =>
    have hp : off ≤ off + key p := le_add_of_nonneg_right (hk p (by simp))
    intro x hx
    rcases List.mem_cons.mp hx with rfl | hx
    · exact hp.trans_eq h.1.symm
    · exact hp.trans (ih h.2 (fun y hy => hk y (by simp [hy])) x hx)

end Order

end Deltas
