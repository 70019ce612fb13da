import NatBox.Lib.ByteMemory

/-
Null-terminated strings.

A `CString` is the characters in front of the null, so none of them is null.  A
pointer into one is the list of the characters still ahead of it, and `deref`
reads the character it points at, which behind the last one is the null.

`packed` is a number of strings laid out one behind the other, each with its null, and
`start` where each of them begins there.  `stringAt` reads one back.
-/

/-- `NULLCH` -/
abbrev nullCh : UInt8 := 0

structure CString where
  chars : List UInt8
  nonnull : nullCh ∉ chars
  deriving DecidableEq

namespace CString

/-- The character a pointer with `ahead` before it reads. -/
def deref (ahead : List UInt8) : UInt8 := ahead.headD nullCh

@[simp] theorem deref_nil : deref [] = nullCh := rfl

@[simp] theorem deref_cons (ch : UInt8) (ahead : List UInt8) : deref (ch :: ahead) = ch := rfl

/-- The pieces of a string between separators hold its characters and no
separator. -/
theorem splitOn_piece (sep : UInt8) (s : List UInt8) :
    ∀ piece ∈ s.splitOn sep, sep ∉ piece ∧ ∀ ch ∈ piece, ch ∈ s := by
  induction s with
  | nil => simp
  | cons c s ih =>
    obtain ⟨first, rest, hs⟩ := List.exists_cons_of_ne_nil (List.splitOn_ne_nil sep s)
    rw [hs, List.forall_mem_cons] at ih
    rw [List.splitOn_cons_eq_if_modifyHead, hs]
    have hrest : ∀ piece ∈ rest, sep ∉ piece ∧ ∀ ch ∈ piece, ch ∈ c :: s := fun piece hp =>
      ⟨(ih.2 piece hp).1, fun ch hch => List.mem_cons_of_mem _ ((ih.2 piece hp).2 ch hch)⟩
    have hfirst : ∀ ch ∈ first, ch ∈ c :: s := fun ch hch =>
      List.mem_cons_of_mem _ (ih.1.2 ch hch)
    by_cases hc : c = sep
    · rw [if_pos (by simp [hc])]
      simp only [List.forall_mem_cons]
      exact ⟨⟨List.not_mem_nil, by simp⟩, ⟨ih.1.1, hfirst⟩, hrest⟩
    · rw [if_neg (by simp [hc]), List.modifyHead_cons]
      simp only [List.forall_mem_cons]
      refine ⟨⟨?_, List.mem_cons_self, hfirst⟩, hrest⟩
      rw [List.mem_cons, not_or]
      exact ⟨fun h => hc h.symm, ih.1.1⟩

/-! ## Strings one behind the other -/

/-- The strings in a row, each with its null. -/
def packed (strings : List (List UInt8)) : List UInt8 := strings.flatMap (· ++ [nullCh])

/-- Where string `i` begins. -/
def start (strings : List (List UInt8)) (i : Nat) : Nat := (packed (strings.take i)).length

theorem packed_append (strings more : List (List UInt8)) :
    packed (strings ++ more) = packed strings ++ packed more := List.flatMap_append

theorem packed_concat (strings : List (List UInt8)) (s : List UInt8) :
    packed (strings ++ [s]) = packed strings ++ (s ++ [nullCh]) := by
  rw [packed_append]
  congr 1
  exact List.flatMap_singleton _ s

theorem start_length (strings : List (List UInt8)) :
    start strings strings.length = (packed strings).length := by
  rw [start, List.take_length]

theorem start_append {strings : List (List UInt8)} {i : Nat} (h : i ≤ strings.length)
    (more : List (List UInt8)) : start (strings ++ more) i = start strings i := by
  rw [start, start, List.take_append_of_le_length h]

/-- Each string begins behind the null of the one before. -/
theorem start_succ {strings : List (List UInt8)} {i : Nat} {s : List UInt8}
    (h : strings[i]? = some s) : start strings (i + 1) = start strings i + s.length + 1 := by
  rw [start, List.take_add_one, h, Option.toList_some, packed_concat, List.length_append,
    List.length_append, List.length_singleton]
  rfl

/-- A string ends inside the row. -/
theorem start_add_length_lt {strings : List (List UInt8)} {i : Nat} {s : List UInt8}
    (h : strings[i]? = some s) : start strings i + s.length < (packed strings).length := by
  have hsucc := start_succ h
  have hle : start strings (i + 1) ≤ (packed strings).length := by
    conv_rhs => rw [← List.take_append_drop (i + 1) strings]
    rw [packed_append, List.length_append]
    exact Nat.le_add_right _ _
  omega

/-- In memory that holds the row, a string is found at its beginning. -/
theorem read_start {m : Mem} {strings : List (List UInt8)} {i : Nat} {s : List UInt8}
    (hm : m.read 0 (packed strings).length = packed strings) (h : strings[i]? = some s) :
    m.read (start strings i) (s.length + 1) = s ++ [nullCh] := by
  obtain ⟨hi, rfl⟩ := List.getElem?_eq_some_iff.mp h
  have hsplit : packed strings = packed (strings.take i) ++ ((strings[i] ++ [nullCh]) ++
      packed (strings.drop (i + 1))) := by
    rw [← List.append_assoc, ← packed_concat, List.take_append_getElem hi, ← packed_append,
      List.take_append_drop]
  have hlen : (packed strings).length = start strings i + ((strings[i].length + 1) +
      (packed (strings.drop (i + 1))).length) := by
    rw [congrArg List.length hsplit, List.length_append, List.length_append, List.length_append,
      List.length_singleton]
    rfl
  rw [hlen, Mem.read_add, Mem.read_add, hsplit, Nat.zero_add] at hm
  obtain ⟨-, hrest⟩ := List.append_inj hm (Mem.length_read _ _ _)
  exact (List.append_inj hrest (by simp)).1

/-! ## The string at an address -/

/-- The characters at `addr` in front of the null, if that is among the next `n` bytes. -/
def stringAt (m : Mem) (addr n : Nat) : List UInt8 := (m.read addr n).takeWhile (· ≠ nullCh)

theorem stringAt_eq {m : Mem} {addr n : Nat} {s : List UInt8} (hnull : nullCh ∉ s)
    (hlen : s.length < n) (hs : m.read addr (s.length + 1) = s ++ [nullCh]) :
    stringAt m addr n = s := by
  obtain ⟨rest, rfl⟩ : ∃ rest, n = s.length + 1 + rest := ⟨_, (Nat.add_sub_of_le hlen).symm⟩
  have hplain : ∀ c ∈ s, decide (c ≠ nullCh) = true := fun c hc =>
    decide_eq_true fun h => hnull (h ▸ hc)
  rw [stringAt, Mem.read_add, hs, List.append_assoc, List.takeWhile_append_of_pos hplain,
    List.singleton_append, List.takeWhile_cons_of_neg (by simp), List.append_nil]

end CString
