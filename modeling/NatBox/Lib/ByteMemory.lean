import Mathlib.Data.List.Basic
import Mathlib.Tactic.IntervalCases

/-
Byte memory seen from a pointer.

A `Mem` gives the byte at each offset from some base address.  The object at the
base covers the first offsets, and what lies behind it is whatever memory
follows, so a read past the object's end is a read of those bytes rather than an
error.  A 16-bit or 32-bit access is little endian, as the processor's is.
-/

abbrev Mem : Type := Nat → UInt8

namespace Mem

/-- The `len` bytes at `off`. -/
def read (m : Mem) (off len : Nat) : List UInt8 := (List.range len).map fun i => m (off + i)

/-- Store the bytes `bs` at `off`. -/
def write (m : Mem) (off : Nat) (bs : List UInt8) : Mem :=
  fun i => if off ≤ i ∧ i < off + bs.length then bs.getD (i - off) 0 else m i

/-- The block `bs` in front of the bytes of `behind`. -/
def ofBlock (bs : List UInt8) (behind : Mem) : Mem := write behind 0 bs

def load16 (m : Mem) (off : Nat) : UInt16 :=
  (m off).toUInt16 ||| ((m (off + 1)).toUInt16 <<< 8)

def store16 (m : Mem) (off : Nat) (v : UInt16) : Mem :=
  write m off [v.toUInt8, (v >>> 8).toUInt8]

def load32 (m : Mem) (off : Nat) : UInt32 :=
  (load16 m off).toUInt32 ||| ((load16 m (off + 2)).toUInt32 <<< 16)

def store32 (m : Mem) (off : Nat) (v : UInt32) : Mem :=
  write m off [v.toUInt8, (v >>> 8).toUInt8, (v >>> 16).toUInt8, (v >>> 24).toUInt8]

/-! ## Reading -/

@[simp] theorem length_read (m : Mem) (off len : Nat) : (m.read off len).length = len := by
  simp [read]

theorem read_succ (m : Mem) (off len : Nat) :
    m.read off (len + 1) = m off :: m.read (off + 1) len := by
  simp only [read, List.range_succ_eq_map, List.map_cons, List.map_map, Nat.add_zero]
  congr 1
  exact List.map_congr_left fun i _ => congrArg m (by simp only [Nat.succ_eq_add_one]; omega)

theorem read_add (m : Mem) (off a b : Nat) :
    m.read off (a + b) = m.read off a ++ m.read (off + a) b := by
  simp only [read, List.range_add, List.map_append, List.map_map]
  congr 1
  exact List.map_congr_left fun i _ => congrArg m (by simp only [Nat.add_assoc])

theorem read_congr {m m' : Mem} {off len : Nat}
    (h : ∀ i, off ≤ i → i < off + len → m i = m' i) : m.read off len = m'.read off len := by
  refine List.map_congr_left fun i hi => h _ (Nat.le_add_right off i) ?_
  have := List.mem_range.mp hi
  omega

theorem getElem?_read {m : Mem} {off len i : Nat} (hi : i < len) :
    (m.read off len)[i]? = some (m (off + i)) := by
  simp [read, hi]

/-! ## Writing -/

theorem write_outside {m : Mem} {off i : Nat} {bs : List UInt8}
    (h : i < off ∨ off + bs.length ≤ i) : m.write off bs i = m i := by
  rw [write, if_neg (by omega)]

theorem write_inside {m : Mem} {off i : Nat} {bs : List UInt8} {b : UInt8}
    (h : bs[i]? = some b) : m.write off bs (off + i) = b := by
  have hi : i < bs.length := (List.getElem?_eq_some_iff.mp h).1
  rw [write, if_pos (by omega), show off + i - off = i by omega, List.getD_eq_getElem?_getD, h]
  rfl

@[simp] theorem write_nil (m : Mem) (off : Nat) : m.write off [] = m := by
  funext i
  exact write_outside (by simp only [List.length_nil]; omega)

theorem read_write_self (m : Mem) (off : Nat) (bs : List UInt8) :
    (m.write off bs).read off bs.length = bs := by
  refine List.ext_getElem? fun i => ?_
  by_cases hi : i < bs.length
  · rw [getElem?_read hi, List.getElem?_eq_getElem hi,
      write_inside (List.getElem?_eq_getElem hi)]
  · rw [List.getElem?_eq_none (by simp; omega), List.getElem?_eq_none (by omega)]

theorem read_write_of_disjoint {m : Mem} {off off' len : Nat} {bs : List UInt8}
    (h : off + len ≤ off' ∨ off' + bs.length ≤ off) :
    (m.write off' bs).read off len = m.read off len :=
  read_congr fun i h₁ h₂ => write_outside (by omega)

theorem write_append (m : Mem) (off : Nat) (as bs : List UInt8) :
    (m.write off as).write (off + as.length) bs = m.write off (as ++ bs) := by
  funext i
  by_cases h₁ : i < off
  · rw [write_outside (by omega), write_outside (by omega), write_outside (by omega)]
  · obtain ⟨j, rfl⟩ : ∃ j, i = off + j := ⟨i - off, by omega⟩
    by_cases h₂ : j < as.length
    · rw [write_outside (by omega), write_inside (List.getElem?_eq_getElem h₂),
        write_inside (by rw [List.getElem?_append_left h₂, List.getElem?_eq_getElem h₂])]
    · by_cases h₃ : j - as.length < bs.length
      · rw [show off + j = off + as.length + (j - as.length) by omega,
          write_inside (List.getElem?_eq_getElem h₃), Nat.add_assoc, write_inside]
        rw [List.getElem?_append_right (by omega), Nat.add_sub_cancel_left,
          List.getElem?_eq_getElem h₃]
      · rw [write_outside (by omega), write_outside (by omega),
          write_outside (by rw [List.length_append]; omega)]

theorem read_ofBlock (bs : List UInt8) (behind : Mem) :
    (ofBlock bs behind).read 0 bs.length = bs :=
  read_write_self behind 0 bs

/-! ## 16-bit accesses -/

theorem toNat_load16 (m : Mem) (off : Nat) :
    (m.load16 off).toNat = (m off).toNat + 256 * (m (off + 1)).toNat := by
  have h₀ := (m off).toNat_lt
  have h₁ := (m (off + 1)).toNat_lt
  simp only [load16, UInt16.toNat_or, UInt16.toNat_shiftLeft, UInt8.toNat_toUInt16,
    UInt16.reduceToNat, Nat.reduceMod]
  rw [show (m (off + 1)).toNat <<< 8 % 2 ^ 16 = (m (off + 1)).toNat <<< 8 by
    rw [Nat.shiftLeft_eq]; omega, Nat.or_comm, ← Nat.shiftLeft_add_eq_or_of_lt (by omega),
    Nat.shiftLeft_eq]
  omega

theorem load16_congr {m m' : Mem} {off : Nat} (h₀ : m off = m' off)
    (h₁ : m (off + 1) = m' (off + 1)) : m.load16 off = m'.load16 off := by
  rw [load16, load16, h₀, h₁]

theorem store16_outside {m : Mem} {off i : Nat} {v : UInt16} (h : i < off ∨ off + 2 ≤ i) :
    m.store16 off v i = m i :=
  write_outside h

theorem store16_zero (m : Mem) (off : Nat) (v : UInt16) : m.store16 off v off = v.toUInt8 :=
  write_inside (i := 0) rfl

theorem store16_one (m : Mem) (off : Nat) (v : UInt16) :
    m.store16 off v (off + 1) = (v >>> 8).toUInt8 :=
  write_inside (i := 1) rfl

@[simp] theorem load16_store16 (m : Mem) (off : Nat) (v : UInt16) :
    (m.store16 off v).load16 off = v := by
  have hv := v.toNat_lt
  refine UInt16.toNat_inj.mp ?_
  rw [toNat_load16, store16_zero, store16_one]
  simp only [UInt16.toNat_toUInt8, UInt16.toNat_shiftRight, UInt16.reduceToNat,
    Nat.reduceMod, Nat.shiftRight_eq_div_pow]
  omega

theorem load16_store16_of_disjoint {m : Mem} {off off' : Nat} {v : UInt16}
    (h : off + 2 ≤ off' ∨ off' + 2 ≤ off) : (m.store16 off' v).load16 off = m.load16 off :=
  load16_congr (store16_outside (by omega)) (store16_outside (by omega))

theorem read_store16_of_disjoint {m : Mem} {off off' len : Nat} {v : UInt16}
    (h : off + len ≤ off' ∨ off' + 2 ≤ off) :
    (m.store16 off' v).read off len = m.read off len :=
  read_write_of_disjoint h

/-! ## 32-bit accesses -/

theorem toNat_load32 (m : Mem) (off : Nat) :
    (m.load32 off).toNat = (m.load16 off).toNat + 65536 * (m.load16 (off + 2)).toNat := by
  have h₀ := (m.load16 off).toNat_lt
  have h₁ := (m.load16 (off + 2)).toNat_lt
  simp only [load32, UInt32.toNat_or, UInt32.toNat_shiftLeft, UInt16.toNat_toUInt32,
    UInt32.reduceToNat, Nat.reduceMod]
  rw [show (m.load16 (off + 2)).toNat <<< 16 % 2 ^ 32 = (m.load16 (off + 2)).toNat <<< 16 by
    rw [Nat.shiftLeft_eq]; omega, Nat.or_comm, ← Nat.shiftLeft_add_eq_or_of_lt (by omega),
    Nat.shiftLeft_eq]
  omega

theorem load32_congr {m m' : Mem} {off : Nat} (h : ∀ i, i < 4 → m (off + i) = m' (off + i)) :
    m.load32 off = m'.load32 off := by
  have h₀ : m.load16 off = m'.load16 off := load16_congr (h 0 (by omega)) (h 1 (by omega))
  have h₂ : m.load16 (off + 2) = m'.load16 (off + 2) :=
    load16_congr (h 2 (by omega)) (h 3 (by omega))
  rw [load32, load32, h₀, h₂]

@[simp] theorem load32_store32 (m : Mem) (off : Nat) (v : UInt32) :
    (m.store32 off v).load32 off = v := by
  have hv := v.toNat_lt
  have b₀ : m.store32 off v off = v.toUInt8 := write_inside (i := 0) rfl
  have b₁ : m.store32 off v (off + 1) = (v >>> 8).toUInt8 := write_inside (i := 1) rfl
  have b₂ : m.store32 off v (off + 2) = (v >>> 16).toUInt8 := write_inside (i := 2) rfl
  have b₃ : m.store32 off v (off + 2 + 1) = (v >>> 24).toUInt8 := write_inside (i := 3) rfl
  refine UInt32.toNat_inj.mp ?_
  rw [toNat_load32, toNat_load16, toNat_load16, b₀, b₁, b₂, b₃]
  simp only [UInt32.toNat_toUInt8, UInt32.toNat_shiftRight, UInt32.reduceToNat,
    Nat.reduceMod, Nat.shiftRight_eq_div_pow]
  omega

end Mem
