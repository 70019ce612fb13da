import Mathlib.Data.List.Basic
import Mathlib.Data.List.Nodup
import Mathlib.Data.Nat.ModEq

/-
A circular buffer of `n` slots with a write index and a read index, either of
which goes back to 0 behind the last slot.

`Holds r cs` is what the buffer holds: the slots from the read index on, each with
its content.  Neither index tells an empty buffer from a full one, so writing is
safe only where something else says that there is room: `Holds.push` asks for it,
and `Holds.tail_eq` says what the write index hits otherwise.
-/

structure RingBuffer (n : Nat) (α : Type) where
  slots : Vector α n
  head : Fin n
  tail : Fin n

namespace RingBuffer

variable {n : Nat} {α : Type}

/-- The index behind `i`. -/
def next (i : Fin n) : Fin n :=
  if h : i.val + 1 < n then ⟨i.val + 1, h⟩ else ⟨0, Nat.zero_lt_of_lt i.isLt⟩

def push (r : RingBuffer n α) (x : α) : RingBuffer n α where
  slots := r.slots.set r.tail.val x r.tail.isLt
  head := r.head
  tail := next r.tail

def front (r : RingBuffer n α) : α := r.slots.get r.head

def pop (r : RingBuffer n α) : RingBuffer n α where
  slots := r.slots
  head := next r.head
  tail := r.tail

/-- The slots and contents of the buffer, the oldest first. -/
structure Holds (r : RingBuffer n α) (cs : List (Fin n × α)) : Prop where
  length_le : cs.length ≤ n
  tail_val : r.tail.val = (r.head.val + cs.length) % n
  slot : ∀ i c, cs[i]? = some c → c.1.val = (r.head.val + i) % n
  content : ∀ c ∈ cs, r.slots.get c.1 = c.2

theorem next_val (i : Fin n) : (next i).val = (i.val + 1) % n := by
  have hi := i.isLt
  unfold next
  split
  · rename_i h
    exact (Nat.mod_eq_of_lt h).symm
  · rename_i h
    have heq : i.val + 1 = n := by omega
    rw [heq, Nat.mod_self]

/-- Counting up to `n` from any index meets each slot at most once. -/
theorem mod_inj {h i j : Nat} (hi : i < n) (hj : j < n) (heq : (h + i) % n = (h + j) % n) :
    i = j := by
  have hmod : i % n = j % n := Nat.ModEq.add_left_cancel' h heq
  rwa [Nat.mod_eq_of_lt hi, Nat.mod_eq_of_lt hj] at hmod

theorem get_set_of_ne {v : Vector α n} {i j : Fin n} (h : i ≠ j) (x : α) :
    (v.set i.val x i.isLt).get j = v.get j := by
  show (v.set i.val x i.isLt)[j.val] = v[j.val]
  exact Vector.getElem_set_ne _ _ fun heq => h (Fin.ext heq)

theorem get_set_self (v : Vector α n) (i : Fin n) (x : α) :
    (v.set i.val x i.isLt).get i = x := by
  show (v.set i.val x i.isLt)[i.val] = x
  exact Vector.getElem_set_self _

namespace Holds

variable {r : RingBuffer n α} {cs : List (Fin n × α)} {c : Fin n × α}

theorem nil (h : r.tail = r.head) : Holds r [] where
  length_le := Nat.zero_le n
  tail_val := by
    rw [h]
    exact (Nat.mod_eq_of_lt r.head.isLt).symm
  slot i c hc := by cases hc
  content c hc := by cases hc

/-- No slot is listed twice. -/
theorem nodup (h : Holds r cs) : (cs.map Prod.fst).Nodup := by
  rw [List.nodup_iff_getElem?_ne_getElem?]
  intro i j hij hj heq
  rw [List.length_map] at hj
  rw [List.getElem?_map, List.getElem?_map, List.getElem?_eq_getElem (Nat.lt_trans hij hj),
    List.getElem?_eq_getElem hj, Option.map_some, Option.map_some, Option.some.injEq] at heq
  have hi := h.slot i _ (List.getElem?_eq_getElem (Nat.lt_trans hij hj))
  have hj' := h.slot j _ (List.getElem?_eq_getElem hj)
  have hlen := h.length_le
  have hji : i = j := mod_inj (by omega) (by omega) (hi.symm.trans (heq ▸ hj'))
  omega

/-- The write index of a full buffer is the slot of its oldest content. -/
theorem tail_eq (h : Holds r (c :: cs)) (hfull : (c :: cs).length = n) : r.tail = c.1 := by
  have hc := h.slot 0 c rfl
  have ht := h.tail_val
  rw [hfull, Nat.add_mod_right] at ht
  exact Fin.ext (ht.trans hc.symm)

/-- A write to a buffer with room keeps the content and adds to its end. -/
theorem push (h : Holds r cs) (hroom : cs.length < n) (x : α) :
    Holds (r.push x) (cs ++ [(r.tail, x)]) where
  length_le := by
    rw [List.length_append, List.length_singleton]
    exact hroom
  tail_val := by
    show (next r.tail).val = (r.head.val + (cs ++ [(r.tail, x)]).length) % n
    rw [next_val, h.tail_val, Nat.mod_add_mod, List.length_append, List.length_singleton,
      Nat.add_assoc]
  slot i c hc := by
    show c.1.val = (r.head.val + i) % n
    by_cases hi : i < cs.length
    · rw [List.getElem?_append_left hi] at hc
      exact h.slot i c hc
    · rw [List.getElem?_append_right (Nat.le_of_not_lt hi), List.getElem?_singleton] at hc
      split at hc
      · have heq : i = cs.length := by omega
        cases hc
        rw [heq]
        exact h.tail_val
      · cases hc
  content c hc := by
    show (r.slots.set r.tail.val x r.tail.isLt).get c.1 = c.2
    rw [List.mem_append, List.mem_singleton] at hc
    cases hc with
    | inl hc =>
      -- the write index is the slot `cs.length` behind the read index
      have hne : r.tail ≠ c.1 := by
        intro heq
        have hi := List.getElem?_of_mem hc
        cases hi with
        | intro i hi =>
          have hlt := (List.getElem?_eq_some_iff.mp hi).1
          have hslot := h.slot i c hi
          rw [← heq, h.tail_val] at hslot
          have := mod_inj hroom (Nat.lt_trans hlt hroom) hslot
          omega
      rw [get_set_of_ne hne]
      exact h.content c hc
    | inr hc =>
      rw [hc]
      exact get_set_self _ _ _

theorem head_eq (h : Holds r (c :: cs)) : (r.head, r.front) = c := by
  have hc := h.slot 0 c rfl
  rw [Nat.add_zero, Nat.mod_eq_of_lt r.head.isLt] at hc
  have hhead : r.head = c.1 := Fin.ext hc.symm
  apply Prod.ext
  · exact hhead
  · show r.slots.get r.head = c.2
    rw [hhead]
    exact h.content c List.mem_cons_self

/-- A read takes the oldest content away. -/
theorem pop (h : Holds r (c :: cs)) : Holds r.pop cs where
  length_le := Nat.le_of_succ_le h.length_le
  tail_val := by
    show r.tail.val = ((next r.head).val + cs.length) % n
    rw [h.tail_val, next_val, Nat.mod_add_mod, List.length_cons, Nat.add_assoc,
      Nat.add_comm 1 cs.length]
  slot i d hd := by
    show d.1.val = ((next r.head).val + i) % n
    rw [h.slot (i + 1) d hd, next_val, Nat.mod_add_mod, Nat.add_assoc, Nat.add_comm 1 i]
  content d hd := h.content d (List.mem_cons_of_mem c hd)

/-- In a ring that is not full the indices meet only if it is empty. -/
theorem head_eq_tail_iff (h : Holds r cs) (hroom : cs.length < n) :
    r.head = r.tail ↔ cs = [] := by
  have htail := h.tail_val
  constructor
  · intro heq
    have hzero : (r.head.val + cs.length) % n = (r.head.val + 0) % n := by
      rw [← htail, ← heq, Nat.add_zero, Nat.mod_eq_of_lt r.head.isLt]
    exact List.eq_nil_of_length_eq_zero
      (mod_inj hroom (Nat.zero_lt_of_lt hroom) hzero)
  · rintro rfl
    refine Fin.ext ?_
    rw [htail, List.length_nil, Nat.add_zero, Nat.mod_eq_of_lt r.head.isLt]

end Holds

end RingBuffer
