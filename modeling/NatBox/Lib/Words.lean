import NatBox.Lib.ByteMemory

/-
Words in byte memory.

`Words` says that 32-bit words lie one behind the other from an address on, `SameOutside` that
memory is what it was outside a range.  `storeAll` stores words upwards, as `*p++ = w` does,
and `pushAll` downwards, as `*--p = w` does.
-/

namespace Mem

/-- The words at `addr`, `addr + 4` and so on. -/
def Words (m : Mem) (addr : Nat) (ws : List UInt32) : Prop :=
  ∀ i w, ws[i]? = some w → m.load32 (addr + 4 * i) = w

/-- Outside the range from `lo` to `hi`, `m'` is `m`. -/
def SameOutside (m m' : Mem) (lo hi : Nat) : Prop := ∀ i, i < lo ∨ hi ≤ i → m' i = m i

/-- `*p++ = w` for each of the words. -/
def storeAll (m : Mem) (addr : Nat) : List UInt32 → Mem
  | [] => m
  | w :: ws => (m.store32 addr w).storeAll (addr + 4) ws

/-- `*--p = w` for each of the words. -/
def pushAll (m : Mem) (addr : Nat) : List UInt32 → Mem
  | [] => m
  | w :: ws => (m.store32 (addr - 4) w).pushAll (addr - 4) ws

variable {m m' m'' : Mem} {addr lo hi off len : Nat} {ws : List UInt32}

/-- Memory seen from `base` on. -/
theorem read_shift (m : Mem) (base off len : Nat) :
    read (fun i => m (base + i)) off len = m.read (base + off) len := by
  simp only [read, Nat.add_assoc]

/-! ## What does not change -/

theorem SameOutside.refl (m : Mem) (lo hi : Nat) : m.SameOutside m lo hi := fun _ _ => rfl

theorem SameOutside.trans (h : m.SameOutside m' lo hi) (h' : m'.SameOutside m'' lo hi) :
    m.SameOutside m'' lo hi :=
  fun i hi => (h' i hi).trans (h i hi)

theorem SameOutside.mono (h : m.SameOutside m' lo hi) {lo' hi' : Nat} (hlo : lo' ≤ lo)
    (hhi : hi ≤ hi') : m.SameOutside m' lo' hi' := fun i hi => h i (by omega)

theorem SameOutside.read (h : m.SameOutside m' lo hi) (hout : off + len ≤ lo ∨ hi ≤ off) :
    m'.read off len = m.read off len := read_congr fun i h₁ h₂ => h i (by omega)

theorem SameOutside.load32 (h : m.SameOutside m' lo hi) (hout : off + 4 ≤ lo ∨ hi ≤ off) :
    m'.load32 off = m.load32 off := load32_congr fun i hi => h _ (by omega)

theorem SameOutside.words (h : m.SameOutside m' lo hi)
    (hout : addr + 4 * ws.length ≤ lo ∨ hi ≤ addr) (hws : m.Words addr ws) : m'.Words addr ws := by
  intro i w hi
  have hlt := (List.getElem?_eq_some_iff.mp hi).1
  rw [h.load32 (by omega)]
  exact hws i w hi

theorem write_sameOutside (m : Mem) (off : Nat) (bs : List UInt8) :
    m.SameOutside (m.write off bs) off (off + bs.length) := fun _ h => write_outside h

theorem store32_sameOutside (m : Mem) (off : Nat) (v : UInt32) :
    m.SameOutside (m.store32 off v) off (off + 4) := write_sameOutside m off _

theorem storeAll_sameOutside (m : Mem) (addr : Nat) (ws : List UInt32) :
    m.SameOutside (m.storeAll addr ws) addr (addr + 4 * ws.length) := by
  induction ws generalizing m addr with
  | nil => exact SameOutside.refl m _ _
  | cons w ws ih =>
    rw [List.length_cons]
    exact ((m.store32_sameOutside addr w).mono (Nat.le_refl _) (by omega)).trans
      ((ih _ (addr + 4)).mono (by omega) (by omega))

theorem pushAll_sameOutside (m : Mem) (ws : List UInt32) (haddr : 4 * ws.length ≤ addr) :
    m.SameOutside (m.pushAll addr ws) (addr - 4 * ws.length) addr := by
  induction ws generalizing m addr with
  | nil => exact SameOutside.refl m _ _
  | cons w ws ih =>
    rw [List.length_cons] at haddr ⊢
    have hone := m.store32_sameOutside (addr - 4) w
    have hrest := ih (m.store32 (addr - 4) w) (show 4 * ws.length ≤ addr - 4 by omega)
    exact (hone.mono (by omega) (by omega)).trans (hrest.mono (by omega) (by omega))

/-! ## The words -/

theorem words_nil (m : Mem) (addr : Nat) : m.Words addr [] := nofun

theorem words_cons {w : UInt32} :
    m.Words addr (w :: ws) ↔ m.load32 addr = w ∧ m.Words (addr + 4) ws := by
  constructor
  · intro h
    exact ⟨h 0 w rfl, fun i v hi => by
      have := h (i + 1) v hi
      rwa [show addr + 4 * (i + 1) = addr + 4 + 4 * i by omega] at this⟩
  · rintro ⟨hfirst, hrest⟩ i v hi
    cases i with
    | zero => exact hfirst.trans (Option.some.inj hi)
    | succ i =>
      rw [show addr + 4 * (i + 1) = addr + 4 + 4 * i by omega]
      exact hrest i v hi

theorem words_append {vs : List UInt32} :
    m.Words addr (vs ++ ws) ↔ m.Words addr vs ∧ m.Words (addr + 4 * vs.length) ws := by
  induction vs generalizing addr with
  | nil => exact ⟨fun h => ⟨words_nil m addr, h⟩, And.right⟩
  | cons v vs ih =>
    rw [List.cons_append, words_cons, words_cons, ih, and_assoc, List.length_cons,
      show addr + 4 + 4 * vs.length = addr + 4 * (vs.length + 1) by omega]

theorem words_storeAll (m : Mem) (addr : Nat) (ws : List UInt32) :
    (m.storeAll addr ws).Words addr ws := by
  induction ws generalizing m addr with
  | nil => exact words_nil _ _
  | cons w ws ih =>
    refine words_cons.mpr ⟨?_, ih _ _⟩
    rw [storeAll, (storeAll_sameOutside _ (addr + 4) ws).load32 (.inl (Nat.le_refl _)),
      load32_store32]

/-- The last word pushed is the lowest. -/
theorem words_pushAll (m : Mem) (haddr : 4 * ws.length ≤ addr) :
    (m.pushAll addr ws).Words (addr - 4 * ws.length) ws.reverse := by
  induction ws generalizing m addr with
  | nil => exact words_nil _ _
  | cons w ws ih =>
    rw [List.length_cons] at haddr ⊢
    have hroom : 4 * ws.length ≤ addr - 4 := by omega
    have hrest := ih (m.store32 (addr - 4) w) hroom
    have hframe := pushAll_sameOutside (m.store32 (addr - 4) w) ws hroom
    rw [List.reverse_cons, words_append, List.length_reverse, words_cons, pushAll,
      show addr - 4 * (ws.length + 1) = addr - 4 - 4 * ws.length by omega]
    refine ⟨hrest, ?_, words_nil _ _⟩
    rw [show addr - 4 - 4 * ws.length + 4 * ws.length = addr - 4 by omega,
      hframe.load32 (.inr (Nat.le_refl _)), load32_store32]

theorem pushAll_append (m : Mem) (addr : Nat) (vs ws : List UInt32) :
    m.pushAll addr (vs ++ ws) = (m.pushAll addr vs).pushAll (addr - 4 * vs.length) ws := by
  induction vs generalizing m addr with
  | nil => rfl
  | cons v vs ih =>
    rw [List.cons_append, pushAll, ih, pushAll, List.length_cons,
      show addr - 4 * (vs.length + 1) = addr - 4 - 4 * vs.length by omega]

/-- One of the words is stored anew. -/
theorem Words.store32 (h : m.Words addr ws) (k : Nat) (v : UInt32) :
    (m.store32 (addr + 4 * k) v).Words addr (ws.set k v) := by
  intro i w hi
  rcases Nat.lt_trichotomy i k with hlt | rfl | hgt
  · rw [List.getElem?_set_ne (by omega)] at hi
    rw [(m.store32_sameOutside _ v).load32 (.inl (by omega))]
    exact h i w hi
  · rw [load32_store32]
    rw [List.getElem?_set_self' ] at hi
    cases hget : ws[i]? with
    | none => simp [hget] at hi
    | some u => simpa [hget] using hi
  · rw [List.getElem?_set_ne (by omega)] at hi
    rw [(m.store32_sameOutside _ v).load32 (.inr (by omega))]
    exact h i w hi

end Mem
