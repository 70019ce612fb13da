import NatBox.Lib.Spans
import Mathlib.Algebra.BigOperators.Group.List.Basic

/-
The heap of `getmem.c`, `getstk.c` and `freemem.c`.

`memlist` holds the free blocks in the order of the list.  `getmem` takes the front of
the first block that is long enough, `getstk` the end of the last one, and `freemem`
puts a block back in its place and joins it with the neighbours it touches.
-/

namespace NatBox

open Spans

/-! ## Addresses and lengths are `uint32` -/

def add32 (x y : Nat) : Nat := (x + y) % 2 ^ 32

def sub32 (x y : Nat) : Nat := (x + (2 ^ 32 - y)) % 2 ^ 32

/-- `roundmb`: `& ~7` clears the last three bits. -/
def roundmb (x : Nat) : Nat := add32 7 x / 8 * 8

theorem add32_of_lt {x y : Nat} (h : x + y < 2 ^ 32) : add32 x y = x + y := Nat.mod_eq_of_lt h

theorem sub32_of_le {x y : Nat} (h : y ≤ x) (hx : x < 2 ^ 32) : sub32 x y = x - y := by
  unfold sub32
  omega

theorem roundmb_of_le {x : Nat} (h : x ≤ 2 ^ 32 - 8) : roundmb x = (7 + x) / 8 * 8 := by
  unfold roundmb
  rw [add32_of_lt (by omega)]

theorem roundmb_zero : roundmb 0 = 0 := rfl

theorem roundmb_mod (x : Nat) : roundmb x % 8 = 0 := Nat.mul_mod_left _ 8

theorem le_roundmb {x : Nat} (h : x ≤ 2 ^ 32 - 8) : x ≤ roundmb x := by
  rw [roundmb_of_le h]
  omega

theorem roundmb_le {x : Nat} (h : x ≤ 2 ^ 32 - 8) : roundmb x ≤ 2 ^ 32 - 8 := by
  rw [roundmb_of_le h]
  omega

theorem roundmb_pos {x : Nat} (h₀ : x ≠ 0) (h : x ≤ 2 ^ 32 - 8) : 0 < roundmb x :=
  Nat.lt_of_lt_of_le (Nat.pos_of_ne_zero h₀) (le_roundmb h)

theorem roundmb_roundmb {x : Nat} (h : x ≤ 2 ^ 32 - 8) : roundmb (roundmb x) = roundmb x := by
  rw [roundmb_of_le (roundmb_le h), roundmb_of_le h]
  omega

/-! ## The free list -/

/-- A `struct memblk` on the free list, with the address it is at. -/
structure Memblk where
  addr : Nat
  mlength : Nat
  deriving DecidableEq

def Memblk.span (b : Memblk) : Nat × Nat := (b.addr, b.addr + b.mlength)

/-- `memlist`, whose own `mlength` is the total, and the bounds of the heap. -/
@[ext]
structure Heap where
  memlist : List Memblk
  mlength : Nat
  minheap : Nat
  maxheap : Nat
  deriving DecidableEq

/-- What `freemem` returns. -/
inductive Status
  | ok
  | syserr
  deriving DecidableEq

/-- The walk of `getmem`: the address of the block it takes and the list it leaves. -/
def getmemSearch (nbytes : Nat) : List Memblk → Option (Nat × List Memblk)
  | [] => none
  | curr :: mnext =>
    if curr.mlength = nbytes then some (curr.addr, mnext)
    else if curr.mlength > nbytes then
      some (curr.addr, ⟨add32 curr.addr nbytes, sub32 curr.mlength nbytes⟩ :: mnext)
    else
      match getmemSearch nbytes mnext with
      | none => none
      | some (addr, mnext') => some (addr, curr :: mnext')

def Heap.getmem (h : Heap) (nbytes : Nat) : Option Nat × Heap :=
  if nbytes = 0 then (none, h)
  else
    match getmemSearch (roundmb nbytes) h.memlist with
    | none => (none, h)
    | some (addr, memlist) =>
      (some addr, { h with memlist := memlist, mlength := sub32 h.mlength (roundmb nbytes) })

/-- The scan of `getstk`.  `prev` are the blocks it has passed, the nearest first, and
`fits` is the last of them that is long enough, between what is in front of it and what
is behind it. -/
def getstkScan (nbytes : Nat) : List Memblk → List Memblk →
    Option (List Memblk × Memblk × List Memblk) → Option (List Memblk × Memblk × List Memblk)
  | _, [], fits => fits
  | prev, curr :: mnext, fits =>
    getstkScan nbytes (curr :: prev) mnext
      (if curr.mlength ≥ nbytes then some (prev, curr, mnext) else fits)

/-- The address returned is that of the highest word of the block. -/
def Heap.getstk (h : Heap) (nbytes : Nat) : Option Nat × Heap :=
  if nbytes = 0 then (none, h)
  else
    match getstkScan (roundmb nbytes) [] h.memlist none with
    | none => (none, h)
    | some (prev, fits, mnext) =>
      if roundmb nbytes = fits.mlength then
        (some (sub32 (add32 fits.addr (roundmb nbytes)) 4),
          { h with
            memlist := prev.reverse ++ mnext
            mlength := sub32 h.mlength (roundmb nbytes) })
      else
        let left := sub32 fits.mlength (roundmb nbytes)
        (some (sub32 (add32 (add32 fits.addr left) (roundmb nbytes)) 4),
          { h with
            memlist := prev.reverse ++ ⟨fits.addr, left⟩ :: mnext
            mlength := sub32 h.mlength (roundmb nbytes) })

/-- The walk of `freemem`: the blocks below `block`, the nearest first, and the others. -/
def freememWalk (block : Nat) : List Memblk → List Memblk → List Memblk × List Memblk
  | prev, [] => (prev, [])
  | prev, next :: mnext =>
    if next.addr < block then freememWalk block (next :: prev) mnext else (prev, next :: mnext)

/-- `top` of `freemem`: the end of the block in front. -/
def topOf : List Memblk → Nat
  | [] => 0
  | prev :: _ => add32 prev.addr prev.mlength

/-- The new block reaches back into the one in front, or into the one behind. -/
def overlaps (block nbytes : Nat) (prev next : List Memblk) : Bool :=
  (!prev.isEmpty && decide (block < topOf prev)) ||
    match next with
    | [] => false
    | b :: _ => decide (add32 block nbytes > b.addr)

/-- The block as it is linked in, and what stays in front of it.  With no block in
front `top` is `NULL`, which no block of the heap is at. -/
def coalescePrev (block nbytes : Nat) : List Memblk → List Memblk × Memblk
  | [] => ([], ⟨block, nbytes⟩)
  | prev :: front =>
    if topOf (prev :: front) = block then (front, ⟨prev.addr, add32 prev.mlength nbytes⟩)
    else (prev :: front, ⟨block, nbytes⟩)

/-- The block and what is behind it.  With no block behind `next` is `NULL`, which no
block of the heap ends at. -/
def coalesceNext (block : Memblk) : List Memblk → List Memblk
  | [] => [block]
  | next :: mnext =>
    if add32 block.addr block.mlength = next.addr then
      ⟨block.addr, add32 block.mlength next.mlength⟩ :: mnext
    else block :: next :: mnext

def Heap.freemem (h : Heap) (blkaddr nbytes : Nat) : Status × Heap :=
  if nbytes = 0 ∨ blkaddr < h.minheap ∨ blkaddr > h.maxheap then (.syserr, h)
  else
    let (prev, next) := freememWalk blkaddr [] h.memlist
    if overlaps blkaddr (roundmb nbytes) prev next then (.syserr, h)
    else
      let (front, block) := coalescePrev blkaddr (roundmb nbytes) prev
      (.ok,
        { h with
          memlist := front.reverse ++ coalesceNext block next
          mlength := add32 h.mlength (roundmb nbytes) })

/-- `freestk`, where `p` is what `getstk` returned. -/
def Heap.freestk (h : Heap) (p len : Nat) : Status × Heap :=
  h.freemem (add32 (sub32 p (roundmb len)) 4) (roundmb len)

/-! ## What the walks find -/

/-- A piece of `n` bytes at `base` taken out of one block of `l`, all of the block, its
front or its end. -/
inductive Carves (l : List Memblk) (base n : Nat) (l' : List Memblk) : Prop
  | whole (front : List Memblk) (b : Memblk) (behind : List Memblk) :
      l = front ++ b :: behind → b.mlength = n → base = b.addr → l' = front ++ behind →
      Carves l base n l'
  | start (front : List Memblk) (b : Memblk) (behind : List Memblk) :
      l = front ++ b :: behind → n < b.mlength → base = b.addr →
      l' = front ++ ⟨add32 b.addr n, sub32 b.mlength n⟩ :: behind → Carves l base n l'
  | ending (front : List Memblk) (b : Memblk) (behind : List Memblk) :
      l = front ++ b :: behind → n < b.mlength → base = add32 b.addr (sub32 b.mlength n) →
      l' = front ++ ⟨b.addr, sub32 b.mlength n⟩ :: behind → Carves l base n l'

theorem Carves.cons {l l' : List Memblk} {base n : Nat} (h : Carves l base n l') (c : Memblk) :
    Carves (c :: l) base n (c :: l') := by
  cases h with
  | whole front b behind hl hn hb hl' =>
    exact .whole (c :: front) b behind (by rw [hl]; rfl) hn hb (by rw [hl']; rfl)
  | start front b behind hl hn hb hl' =>
    exact .start (c :: front) b behind (by rw [hl]; rfl) hn hb (by rw [hl']; rfl)
  | ending front b behind hl hn hb hl' =>
    exact .ending (c :: front) b behind (by rw [hl]; rfl) hn hb (by rw [hl']; rfl)

theorem getmemSearch_carves {n base : Nat} {l l' : List Memblk}
    (h : getmemSearch n l = some (base, l')) : Carves l base n l' := by
  induction l generalizing l' with
  | nil => simp [getmemSearch] at h
  | cons curr mnext ih =>
    rw [getmemSearch] at h
    split at h
    · rename_i heq
      obtain ⟨rfl, rfl⟩ : curr.addr = base ∧ mnext = l' := by simpa using h
      exact .whole [] curr mnext rfl heq rfl rfl
    · split at h
      · rename_i _ hlt
        obtain ⟨rfl, rfl⟩ : curr.addr = base ∧ _ = l' := by simpa using h
        exact .start [] curr mnext rfl hlt rfl rfl
      · rcases hr : getmemSearch n mnext with _ | ⟨addr, rest⟩
        · simp [hr] at h
        · rw [hr] at h
          obtain ⟨rfl, rfl⟩ : addr = base ∧ curr :: rest = l' := by simpa using h
          exact (ih hr).cons curr

/-- `fits` is a block of the list that is long enough. -/
def FitsIn (n : Nat) (l : List Memblk) (fits : Option (List Memblk × Memblk × List Memblk)) :
    Prop :=
  ∀ prev b mnext, fits = some (prev, b, mnext) → l = prev.reverse ++ b :: mnext ∧ n ≤ b.mlength

theorem getstkScan_fits {n : Nat} {l : List Memblk} (prev mnext : List Memblk)
    (fits : Option (List Memblk × Memblk × List Memblk)) (hl : l = prev.reverse ++ mnext)
    (hf : FitsIn n l fits) : FitsIn n l (getstkScan n prev mnext fits) := by
  induction mnext generalizing prev fits with
  | nil => exact hf
  | cons curr mnext ih =>
    refine ih (curr :: prev) _ (by simp [hl]) ?_
    split
    · rename_i hle
      rintro prev' b mnext' heq
      obtain ⟨rfl, rfl, rfl⟩ : prev = prev' ∧ curr = b ∧ mnext = mnext' := by simpa using heq
      exact ⟨hl, hle⟩
    · exact hf

theorem freememWalk_spec (block : Nat) (prev next : List Memblk) :
    (freememWalk block prev next).1.reverse ++ (freememWalk block prev next).2 =
        prev.reverse ++ next ∧
      ((∀ b ∈ prev, b.addr < block) → ∀ b ∈ (freememWalk block prev next).1, b.addr < block) ∧
      ∀ b ∈ (freememWalk block prev next).2.head?, block ≤ b.addr := by
  induction next generalizing prev with
  | nil => exact ⟨rfl, id, fun b hb => nomatch hb⟩
  | cons b mnext ih =>
    rw [freememWalk]
    split
    · rename_i hlt
      obtain ⟨happ, hprev, hnext⟩ := ih (b :: prev)
      refine ⟨happ.trans (by simp), fun h => hprev fun c hc => ?_, hnext⟩
      rcases List.mem_cons.mp hc with rfl | hc
      · exact hlt
      · exact h c hc
    · rename_i hge
      refine ⟨rfl, id, fun c hc => ?_⟩
      obtain rfl : b = c := by simpa using hc
      exact Nat.le_of_not_lt hge

end NatBox
