import Mathlib.Algebra.BigOperators.Group.Finset.Basic
import Mathlib.Algebra.Order.BigOperators.Group.Finset
import NatBox.LocalFiles.Operations

/-
What local files are for: named byte arrays, and a position in each one that is open.

`Store.step` knows nothing of disks.  `Fits` says that the files need no more blocks than
there are.
-/

namespace NatBox

namespace Lfs

open Function

/-- A byte is put at a position, which may be the end. -/
def putAt (bs : List UInt8) (pos : Nat) (ch : UInt8) : List UInt8 :=
  bs.take pos ++ ch :: bs.drop (pos + 1)

def writeAt (bs : List UInt8) (pos : Nat) (data : List UInt8) : List UInt8 :=
  bs.take pos ++ data ++ bs.drop (pos + data.length)

section Bytes

variable {bs data : List UInt8} {pos n : Nat} {ch : UInt8}

theorem length_putAt (h : pos ≤ bs.length) :
    (putAt bs pos ch).length = max (pos + 1) bs.length := by
  rw [putAt, List.length_append, List.length_cons, List.length_take, List.length_drop]
  omega

theorem length_writeAt (h : pos ≤ bs.length) :
    (writeAt bs pos data).length = max (pos + data.length) bs.length := by
  rw [writeAt, List.length_append, List.length_append, List.length_take, List.length_drop]
  omega

theorem getElem?_putAt_self (h : pos ≤ bs.length) : (putAt bs pos ch)[pos]? = some ch := by
  rw [putAt, List.getElem?_append_right (by rw [List.length_take]; omega), List.length_take,
    Nat.min_eq_left h, Nat.sub_self]
  rfl

theorem getElem?_putAt_of_ne (h : pos ≤ bs.length) (hn : n ≠ pos) :
    (putAt bs pos ch)[n]? = bs[n]? := by
  rw [putAt]
  rcases Nat.lt_or_gt_of_ne hn with hlt | hgt
  · rw [List.getElem?_append_left (by rw [List.length_take]; omega), List.getElem?_take_of_lt hlt]
  · obtain ⟨k, rfl⟩ : ∃ k, n = pos + (k + 1) := ⟨n - pos - 1, by omega⟩
    rw [List.getElem?_append_right (by rw [List.length_take]; omega), List.length_take,
      Nat.min_eq_left h, Nat.add_sub_cancel_left, List.getElem?_cons_succ, List.getElem?_drop]
    congr 1
    omega

theorem writeAt_nil (bs : List UInt8) (pos : Nat) : writeAt bs pos [] = bs := by
  rw [writeAt, List.append_nil]
  exact List.take_append_drop pos bs

/-- The bytes are put one by one. -/
theorem writeAt_cons (h : pos ≤ bs.length) :
    writeAt bs pos (ch :: data) = writeAt (putAt bs pos ch) (pos + 1) data := by
  have htake : (putAt bs pos ch).take (pos + 1) = bs.take pos ++ [ch] := by
    rw [putAt, List.take_append, List.take_take, List.length_take, Nat.min_eq_left h,
      Nat.min_eq_right (Nat.le_succ pos), Nat.add_sub_cancel_left]
    rfl
  have hdrop : (putAt bs pos ch).drop (pos + 1 + data.length) =
      bs.drop (pos + 1 + data.length) := by
    rw [putAt, List.drop_append, List.length_take, Nat.min_eq_left h,
      List.drop_eq_nil_of_le (by rw [List.length_take]; omega), List.nil_append,
      show pos + 1 + data.length - pos = data.length + 1 by omega, List.drop_succ_cons,
      List.drop_drop]
  rw [writeAt, writeAt, htake, hdrop, List.length_cons,
    show pos + (data.length + 1) = pos + 1 + data.length by omega]
  simp

end Bytes

end Lfs

open Lfs

/-- The names and the bytes of the files, in the order in which they were created, and what is
open: a file and a position in it. -/
structure Store where
  names : List (List Char)
  bytes : Nat → List UInt8
  opened : Fin nlfl → Option (Nat × Nat)

namespace Store

open Function

def init (names : List (List Char)) (bytes : Nat → List UInt8) : Store :=
  ⟨names, bytes, fun _ => none⟩

variable (st : Store)

/-- An open file gets other bytes and another position. -/
def put (d : Fin nlfl) (i : Nat) (bs : List UInt8) (pos : Nat) : Store :=
  { st with bytes := update st.bytes i bs, opened := update st.opened d (some (i, pos)) }

/-- It gets another position. -/
def moveTo (d : Fin nlfl) (i pos : Nat) : Store :=
  { st with opened := update st.opened d (some (i, pos)) }

/-- A file of this name is open. -/
def isOpen (name : List Char) : Bool :=
  (List.finRange nlfl).any fun d => (st.opened d).any fun p => st.names[p.1]? = some name

def freeHandle : Option (Fin nlfl) := (List.finRange nlfl).find? fun d => (st.opened d).isNone

/-- There is a file of this name, unless it is created. -/
def openNamed (name : List Char) (mbits : LfMode) (d : Fin nlfl) : LfResult × Store :=
  match st.names.idxOf? name with
  | none =>
    if mbits.o then (.syserr, st)
    else if st.names.length ≥ lfNumDirEnt then (.syserr, st)
    else (.device d, { st with names := st.names ++ [name] }.put d st.names.length [] 0)
  | some i => if mbits.n then (.syserr, st) else (.device d, st.moveTo d i 0)

def opens (name mode : List Char) : LfResult × Store :=
  if name.length ≥ lfNameLen then (.syserr, st)
  else
    match lfgetmode mode with
    | none => (.syserr, st)
    | some mbits =>
      if st.isOpen name then (.syserr, st)
      else st.freeHandle.elim (.syserr, st) (st.openNamed name mbits)

/-- A call on an open file. -/
def call (d : Fin nlfl) (closed : LfResult) (run : Nat → Nat → LfResult × Store) :
    LfResult × Store :=
  (st.opened d).elim (closed, st) fun p => run p.1 p.2

def putc (d : Fin nlfl) (ch : UInt8) : LfResult × Store :=
  st.call d .syserr fun i pos => (.ok, st.put d i (putAt (st.bytes i) pos ch) (pos + 1))

def getc (d : Fin nlfl) : LfResult × Store :=
  st.call d .syserr fun i pos =>
    (st.bytes i)[pos]?.elim (.eof, st) fun b => (.byte b, st.moveTo d i (pos + 1))

def write (d : Fin nlfl) (buff : Nat → UInt8) (count : Int) : LfResult × Store :=
  if count < 0 then (.syserr, st)
  else st.call d (if count = 0 then .count 0 else .syserr) fun i pos =>
    (.count count.toNat, st.put d i (writeAt (st.bytes i) pos ((List.range count.toNat).map buff))
      (pos + count.toNat))

def read (d : Fin nlfl) (count : Int) : LfResult × Store :=
  if count < 0 then (.syserr, st)
  else st.call d (if count = 0 then .bytes [] else .syserr) fun i pos =>
    let bs := ((st.bytes i).drop pos).take count.toNat
    (if bs = [] ∧ 0 < count then .eof else .bytes bs, st.moveTo d i (pos + bs.length))

def seek (d : Fin nlfl) (offset : Nat) : LfResult × Store :=
  st.call d .syserr fun i _ =>
    if offset > (st.bytes i).length then (.syserr, st) else (.ok, st.moveTo d i offset)

def control (d : Fin nlfl) (func : Int) : LfResult × Store :=
  st.call d .syserr fun i _ =>
    if func = LocalFiles.lfCtlTrunc then (.ok, st.put d i [] 0) else (.syserr, st)

def close (d : Fin nlfl) : LfResult × Store :=
  st.call d .syserr fun _ _ => (.ok, { st with opened := update st.opened d none })

def step : LfEvent → LfResult × Store
  | .opens name mode => st.opens name mode
  | .close d => st.close d
  | .read d count => st.read d count
  | .write d buff count => st.write d buff count
  | .getc d => st.getc d
  | .putc d ch => st.putc d ch
  | .seek d offset => st.seek d offset
  | .control d func => st.control d func

/-- The results of calls, and the store behind them. -/
def run (st : Store) : List LfEvent → List LfResult × Store
  | [] => ([], st)
  | e :: es =>
    let (o, st) := st.step e
    let (os, st) := run st es
    (o :: os, st)

/-! ## Blocks -/

/-- The number of blocks of `size` bytes that `n` bytes need. -/
def blocks (size n : Nat) : Nat := (n + (size - 1)) / size

/-- What all files need of them. -/
def blocksNeeded (size : Nat) : Nat :=
  (Finset.range st.names.length).sum fun i => blocks size (st.bytes i).length

/-- The disk has the index blocks and the data blocks for the files. -/
def Fits (ibsectors nsectors : Nat) : Prop :=
  st.blocksNeeded lfIdata ≤ 7 * ibsectors ∧ st.blocksNeeded lfBlksiz ≤ nsectors - 1 - ibsectors

instance (ibsectors nsectors : Nat) : Decidable (st.Fits ibsectors nsectors) :=
  inferInstanceAs (Decidable (_ ∧ _))

theorem blocks_mono {size m n : Nat} (h : m ≤ n) : blocks size m ≤ blocks size n :=
  Nat.div_le_div_right (Nat.add_le_add_right h _)

variable {st} {st' : Store} {ibsectors nsectors : Nat}

/-- Files with fewer bytes fit as well. -/
theorem Fits.mono (h : st'.Fits ibsectors nsectors) (hnames : st.names = st'.names)
    (hbytes : ∀ i, (st.bytes i).length ≤ (st'.bytes i).length) : st.Fits ibsectors nsectors := by
  have hle : ∀ size, st.blocksNeeded size ≤ st'.blocksNeeded size := fun size => by
    unfold blocksNeeded
    rw [hnames]
    exact Finset.sum_le_sum fun i _ => blocks_mono (hbytes i)
  exact ⟨(hle lfIdata).trans h.1, (hle lfBlksiz).trans h.2⟩

/-- What the other files need does not change with the bytes of one of them. -/
theorem blocksNeeded_put {size i : Nat} (hi : i < st.names.length) (d : Fin nlfl)
    (bs : List UInt8) (pos : Nat) :
    (st.put d i bs pos).blocksNeeded size + blocks size (st.bytes i).length =
      st.blocksNeeded size + blocks size bs.length := by
  have hmem : i ∈ Finset.range st.names.length := Finset.mem_range.mpr hi
  have hrest : ∀ j ∈ (Finset.range st.names.length).erase i,
      blocks size (update st.bytes i bs j).length = blocks size (st.bytes j).length := by
    intro j hj
    rw [update_of_ne (Finset.ne_of_mem_erase hj)]
  unfold blocksNeeded
  change (Finset.range st.names.length).sum
    (fun j => blocks size (update st.bytes i bs j).length) + _ = _
  rw [← Finset.add_sum_erase _ _ hmem, ← Finset.add_sum_erase _ _ hmem,
    Finset.sum_congr rfl hrest, update_self]
  omega

/-! ## Calls on an open file -/

section Opened

variable {d : Fin nlfl} {i pos : Nat} (hd : st.opened d = some (i, pos))

include hd

theorem call_of_opened (closed : LfResult) (run : Nat → Nat → LfResult × Store) :
    st.call d closed run = run i pos := by
  rw [call, hd, Option.elim_some]

theorem putc_eq (ch : UInt8) :
    st.putc d ch = (.ok, st.put d i (putAt (st.bytes i) pos ch) (pos + 1)) :=
  call_of_opened hd _ _

theorem getc_eq : st.getc d = (st.bytes i)[pos]?.elim (.eof, st) fun b =>
    (.byte b, st.moveTo d i (pos + 1)) :=
  call_of_opened hd _ _

end Opened

end Store

end NatBox
