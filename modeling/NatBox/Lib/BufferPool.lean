import Mathlib.Data.List.Basic

/-
A pool of buffers: a free list, and a semaphore that counts it.

`getbuf` waits on the semaphore and unlinks the first buffer, `freebuf` links one in
front and signals.  The count is the length of the list in every pool, so that whoever
waits does so because no buffer is free.
-/

structure BufferPool (α : Type) where
  bpnext : List α
  bpsem : Nat
  count : bpsem = bpnext.length

namespace BufferPool

variable {α : Type}

/-- `none` is a caller that waits. -/
def getbuf (pool : BufferPool α) : Option (α × BufferPool α) :=
  match pool with
  | ⟨[], _, _⟩ => none
  | ⟨b :: bpnext, bpsem, count⟩ => some (b, ⟨bpnext, bpsem - 1, by
      rw [count, List.length_cons, Nat.add_sub_cancel]⟩)

def freebuf (pool : BufferPool α) (b : α) : BufferPool α where
  bpnext := b :: pool.bpnext
  bpsem := pool.bpsem + 1
  count := by rw [pool.count, List.length_cons]

/-- The pool of the given buffers. -/
def ofList (bs : List α) : BufferPool α := ⟨bs, bs.length, rfl⟩

/-- How many buffers are free. -/
def size (pool : BufferPool α) : Nat := pool.bpnext.length

theorem size_getbuf {pool pool' : BufferPool α} {b : α} (h : pool.getbuf = some (b, pool')) :
    pool.size = pool'.size + 1 := by
  obtain ⟨_ | ⟨b', bpnext⟩, bpsem, count⟩ := pool
  · cases h
  · obtain ⟨rfl, rfl⟩ := Prod.mk.inj (Option.some.inj h)
    rfl

theorem getbuf_eq_none_iff {pool : BufferPool α} : pool.getbuf = none ↔ pool.size = 0 := by
  obtain ⟨_ | ⟨b', bpnext⟩, bpsem, count⟩ := pool
  · exact iff_of_true rfl rfl
  · exact iff_of_false nofun nofun

/-- A buffer that is taken and given back leaves the pool as it was. -/
theorem freebuf_getbuf {pool pool' : BufferPool α} {b : α} (h : pool.getbuf = some (b, pool')) :
    pool'.freebuf b = pool := by
  obtain ⟨_ | ⟨b', bpnext⟩, bpsem, count⟩ := pool
  · cases h
  · obtain ⟨rfl, rfl⟩ := Prod.mk.inj (Option.some.inj h)
    unfold freebuf
    congr 1
    show bpsem - 1 + 1 = bpsem
    rw [List.length_cons] at count
    omega

end BufferPool
