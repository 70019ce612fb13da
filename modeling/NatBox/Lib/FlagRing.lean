import NatBox.Lib.RingBuffer

/-
A ring of `n` flags gone round by two counters, one of which raises flags and the other lowers
them.

The counters only grow; `slot` is where in the ring they stand.  `Up flags c f` says that the
flags of the counters from `c` up to `f` are up and all others down.
-/

namespace FlagRing

variable {n : Nat} [NeZero n]

def slot (k : Nat) : Fin n := Fin.ofNat n k

omit [NeZero n] in
/-- Where no flag is up. -/
theorem get_of_count_eq_zero {flags : Vector Bool n} (h : flags.count true = 0) (i : Fin n) :
    flags.get i = false := by
  rw [Vector.count_eq_zero] at h
  exact Bool.eq_false_iff.mpr fun hup => h (hup ▸ Vector.getElem_mem i.isLt)

theorem next_slot (k : Nat) : RingBuffer.next (slot k : Fin n) = slot (k + 1) := by
  refine Fin.ext ?_
  rw [RingBuffer.next_val]
  show (k % n + 1) % n = (k + 1) % n
  rw [Nat.mod_add_mod]

theorem slot_add_self (k : Nat) : (slot (k + n) : Fin n) = slot k :=
  Fin.ext (Nat.add_mod_right k n)

/-- Counters less than a round apart stand on different slots. -/
theorem slot_inj {j k : Nat} (hjk : j ≤ k) (hk : k < j + n) (h : (slot j : Fin n) = slot k) :
    j = k := by
  have hval : (j + 0) % n = (j + (k - j)) % n := by
    rw [Nat.add_zero, Nat.add_sub_cancel' hjk]
    exact congrArg Fin.val h
  have heq := RingBuffer.mod_inj (Nat.pos_of_ne_zero (NeZero.ne n)) (by omega) hval
  omega

structure Up (flags : Vector Bool n) (c f : Nat) : Prop where
  le : c ≤ f
  room : f ≤ c + n
  get : ∀ k, c ≤ k → k < c + n → flags.get (slot k) = decide (k < f)
  count : flags.count true + c = f

namespace Up

variable {flags : Vector Bool n} {c f : Nat}

theorem none (c : Nat) : Up (Vector.replicate n false) c c where
  le := Nat.le_refl c
  room := Nat.le_add_right c n
  get k hck _ := by
    rw [decide_eq_false (Nat.not_lt.mpr hck)]
    exact Vector.getElem_replicate _
  count := by
    rw [Vector.count_replicate]
    exact Nat.zero_add c

theorem all (c : Nat) : Up (Vector.replicate n true) c (c + n) where
  le := Nat.le_add_right c n
  room := Nat.le_refl _
  get k _ hk := by
    rw [decide_eq_true hk]
    exact Vector.getElem_replicate _
  count := by
    rw [Vector.count_replicate]
    exact Nat.add_comm n c

theorem count_eq (h : Up flags c f) : flags.count true = f - c := by
  have hcount := h.count
  omega

/-- The flags behind the stretch. -/
theorem get_behind (h : Up flags c f) {k : Nat} (hf : f ≤ k + n) (hc : k < c) :
    flags.get (slot k) = false := by
  have hle := h.le
  rw [← slot_add_self k, h.get (k + n) (by omega) (by omega),
    decide_eq_false (Nat.not_lt.mpr hf)]

theorem raise (h : Up flags c f) (hroom : f < c + n) :
    Up (flags.set (slot f : Fin n).val true (slot f : Fin n).isLt) c (f + 1) where
  le := Nat.le_succ_of_le h.le
  room := hroom
  get k hck hk := by
    by_cases hkf : k = f
    · rw [hkf, RingBuffer.get_set_self, decide_eq_true (Nat.lt_succ_self f)]
    · have hne : (slot f : Fin n) ≠ slot k := by
        intro heq
        have hle := h.le
        rcases Nat.lt_or_ge k f with hlt | hge
        · exact hkf (slot_inj (Nat.le_of_lt hlt) (by omega) heq.symm)
        · exact hkf (slot_inj hge (by omega) heq).symm
      rw [RingBuffer.get_set_of_ne hne, h.get k hck hk]
      exact decide_eq_decide.mpr (by omega)
  count := by
    have hdown : flags[(slot f : Fin n).val] = false := by
      have hget := h.get f h.le hroom
      rwa [decide_eq_false (Nat.lt_irrefl f)] at hget
    have hcount := h.count
    rw [Vector.count_set, hdown]
    simp only [beq_iff_eq, Bool.false_eq_true, if_false, if_true]
    omega

theorem lower (h : Up flags c f) (hne : c < f) :
    Up (flags.set (slot c : Fin n).val false (slot c : Fin n).isLt) (c + 1) f where
  le := hne
  room := Nat.le_succ_of_le h.room |>.trans (by omega)
  get k hck hk := by
    have hroom := h.room
    by_cases hlast : k = c + n
    · rw [hlast, slot_add_self, RingBuffer.get_set_self, decide_eq_false (by omega)]
    · have hdiff : (slot c : Fin n) ≠ slot k := by
        intro heq
        have := slot_inj (by omega) (by omega) heq
        omega
      rw [RingBuffer.get_set_of_ne hdiff, h.get k (by omega) (by omega)]
  count := by
    have hup : flags[(slot c : Fin n).val] = true := by
      have hget := h.get c (Nat.le_refl c) (by have := h.room; omega)
      rwa [decide_eq_true hne] at hget
    have hcount := h.count
    rw [Vector.count_set, hup]
    simp only [beq_iff_eq, Bool.false_eq_true, if_false, if_true]
    omega

end Up

end FlagRing
