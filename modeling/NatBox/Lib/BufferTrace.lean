import Mathlib.Data.List.Count

/-
What a function does with buffers, as the list of its operations.

`ReleasesOnce` is what an owner owes a buffer: nothing of a list touches it behind the one
operation that gives it back.  A list is put together from parts that only borrow the buffer
and one part that releases it.
-/

inductive BufferOp (β : Type)
  | getbuf (b : β)
  | access (b : β)
  | freebuf (b : β)
  deriving DecidableEq

namespace BufferOp

variable {β : Type} {b : β} {xs ys : List (BufferOp β)}

def buffer : BufferOp β → β
  | getbuf b => b
  | access b => b
  | freebuf b => b

/-- The operations may use the buffer, but do not give it back. -/
def Borrows (b : β) (ops : List (BufferOp β)) : Prop := freebuf b ∉ ops

/-- The operations do not touch the buffer. -/
def Avoids (b : β) (ops : List (BufferOp β)) : Prop := ∀ op ∈ ops, op.buffer ≠ b

/-- The operations give the buffer back, and do not touch it afterwards. -/
def ReleasesOnce (b : β) (ops : List (BufferOp β)) : Prop :=
  ∃ before after, ops = before ++ freebuf b :: after ∧ Borrows b before ∧ Avoids b after

theorem Borrows.append (hx : Borrows b xs) (hy : Borrows b ys) : Borrows b (xs ++ ys) := by
  unfold Borrows
  rw [List.mem_append]
  exact not_or.mpr ⟨hx, hy⟩

theorem Avoids.borrows (h : Avoids b xs) : Borrows b xs := fun hmem => h _ hmem rfl

theorem borrows_flatMap {α : Type} {as : List α} {f : α → List (BufferOp β)}
    (h : ∀ a, Borrows b (f a)) : Borrows b (as.flatMap f) := by
  unfold Borrows
  rw [List.mem_flatMap]
  rintro ⟨a, -, hmem⟩
  exact h a hmem

/-- Use first, and then one release. -/
theorem Borrows.releasesOnce (h : Borrows b xs) : ReleasesOnce b (xs ++ [freebuf b]) :=
  ⟨xs, [], rfl, h, fun _ hmem => absurd hmem List.not_mem_nil⟩

theorem ReleasesOnce.borrows_append (hx : Borrows b xs) (hy : ReleasesOnce b ys) :
    ReleasesOnce b (xs ++ ys) := by
  obtain ⟨before, after, rfl, hbefore, hafter⟩ := hy
  exact ⟨xs ++ before, after, (List.append_assoc _ _ _).symm, hx.append hbefore, hafter⟩

/-- The release is the only one. -/
theorem ReleasesOnce.count_eq_one [DecidableEq β] (h : ReleasesOnce b xs) :
    xs.count (freebuf b) = 1 := by
  obtain ⟨before, after, rfl, hbefore, hafter⟩ := h
  rw [List.count_append, List.count_cons_self, List.count_eq_zero.mpr hbefore,
    List.count_eq_zero.mpr hafter.borrows]

end BufferOp
