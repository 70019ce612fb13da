import Mathlib.Algebra.Ring.Nat
import NatBox.Lib.Runs
import NatBox.Memory.Heap

/-
Runs of `getmem`, `getstk` and `freemem`.

The free blocks and the allocated ones always tile what the heap held at the start, and
the free ones are separated.  So the heap that gets everything back is the heap of the
start: a separated list is determined by what it covers.
-/

namespace NatBox

open Spans Runs

/-- A block that was allocated, with the size that was asked for. -/
structure Allocation where
  base : Nat
  nbytes : Nat
  deriving DecidableEq

def Allocation.span (a : Allocation) : Nat × Nat := (a.base, a.base + roundmb a.nbytes)

/-- The heap and the blocks allocated from it and not yet freed. -/
structure HeapUse where
  heap : Heap
  live : List Allocation
  deriving DecidableEq

inductive HeapCall
  | getmem (nbytes : Nat)
  | getstk (nbytes : Nat)
  | freemem (blkaddr nbytes : Nat)

inductive HeapResult
  | address (addr : Nat)
  | status (st : Status)
  deriving DecidableEq

/-- What the callers do not do: ask for nothing or too much, or free what they do not
hold. -/
inductive Misuse
  | size
  | notHeld
  deriving DecidableEq

def HeapUse.allocated (s : HeapUse) (r : Option Nat × Heap) (base : Nat → Nat) (nbytes : Nat) :
    HeapResult × HeapUse :=
  match r with
  | (none, heap) => (.status .syserr, { s with heap := heap })
  | (some addr, heap) => (.address addr, ⟨heap, ⟨base addr, nbytes⟩ :: s.live⟩)

/-- The lowest address of a stack, from the address of its highest word. -/
def stackBase (nbytes p : Nat) : Nat := add32 (sub32 p (roundmb nbytes)) 4

/-- A size is the one that was asked for as long as it is rounded to the same. -/
def Allocation.freedBy (blkaddr nbytes : Nat) (a : Allocation) : Bool :=
  a.base == blkaddr && roundmb a.nbytes == roundmb nbytes

def HeapUse.step (s : HeapUse) : HeapCall → Except Misuse (HeapResult × HeapUse)
  | .getmem nbytes =>
    if 1 ≤ nbytes ∧ nbytes ≤ 2 ^ 31 then
      .ok (s.allocated (s.heap.getmem nbytes) id nbytes)
    else .error .size
  | .getstk nbytes =>
    if 1 ≤ nbytes ∧ nbytes ≤ 2 ^ 31 then
      .ok (s.allocated (s.heap.getstk nbytes) (stackBase nbytes) nbytes)
    else .error .size
  | .freemem blkaddr nbytes =>
    match s.live.find? (Allocation.freedBy blkaddr nbytes) with
    | none => .error .notHeld
    | some a =>
      .ok (.status (s.heap.freemem blkaddr nbytes).1,
        ⟨(s.heap.freemem blkaddr nbytes).2, s.live.erase a⟩)

/-- The free blocks as spans. -/
def Heap.spans (h : Heap) : List (Nat × Nat) := h.memlist.map Memblk.span

def totalLength (l : List Memblk) : Nat := (l.map Memblk.mlength).sum

/-- A heap as `meminit` leaves it.  `maxheap` may be the end of the last block or an
address in its last eight bytes. -/
structure Heap.Ready (h : Heap) : Prop where
  minheap_pos : 0 < h.minheap
  aligned : ∀ b ∈ h.memlist, b.addr % 8 = 0 ∧ b.mlength % 8 = 0
  separated : Separated h.spans
  low : ∀ b ∈ h.memlist, h.minheap ≤ b.addr
  high : ∀ b ∈ h.memlist, b.addr + b.mlength ≤ h.maxheap + 8 ∧ b.addr + b.mlength < 2 ^ 32
  mlength : h.mlength = totalLength h.memlist

structure HeapInvariant (h₀ : Heap) (s : HeapUse) : Prop where
  separated : Separated s.heap.spans
  tiles : Tiles (Covers h₀.spans) (s.heap.spans ++ s.live.map Allocation.span)
  aligned : ∀ b ∈ s.heap.memlist, b.addr % 8 = 0 ∧ b.mlength % 8 = 0
  live : ∀ a ∈ s.live, a.base % 8 = 0 ∧ 1 ≤ a.nbytes ∧ a.nbytes ≤ 2 ^ 32 - 8
  mlength : s.heap.mlength = totalLength s.heap.memlist
  minheap : s.heap.minheap = h₀.minheap
  maxheap : s.heap.maxheap = h₀.maxheap

/-! ## Taking a piece out -/

theorem Carves.separated {l l' : List Memblk} {base n : Nat} (h : Carves l base n l')
    (hn : 0 < n) (hlt : ∀ b ∈ l, b.addr + b.mlength < 2 ^ 32)
    (hs : Separated (l.map Memblk.span)) : Separated (l'.map Memblk.span) := by
  cases h with
  | whole front b behind hl hb hbase hl' =>
    rw [hl, List.map_append] at hs
    rw [hl', List.map_append]
    exact hs.sublist (List.Sublist.append_left (List.sublist_cons_self _ _) _)
  | start front b behind hl hb hbase hl' =>
    have hbound := hlt b (by simp [hl])
    rw [hl, List.map_append, List.map_cons] at hs
    rw [hl', List.map_append, List.map_cons]
    rw [add32_of_lt (by omega), sub32_of_le (by omega) (by omega)]
    refine hs.shrink ?_ ?_ ?_ <;> simp only [Memblk.span] <;> omega
  | ending front b behind hl hb hbase hl' =>
    have hbound := hlt b (by simp [hl])
    rw [hl, List.map_append, List.map_cons] at hs
    rw [hl', List.map_append, List.map_cons]
    rw [sub32_of_le (by omega) (by omega)]
    refine hs.shrink ?_ ?_ ?_ <;> simp only [Memblk.span] <;> omega

/-- What is left and the piece tile what the blocks did. -/
theorem Carves.tiles {W : Nat → Prop} {l l' : List Memblk} {live : List (Nat × Nat)} {base n : Nat}
    (h : Carves l base n l') (hn : 0 < n) (hlt : ∀ b ∈ l, b.addr + b.mlength < 2 ^ 32)
    (ht : Tiles W (l.map Memblk.span ++ live)) :
    Tiles W (l'.map Memblk.span ++ (base, base + n) :: live) := by
  cases h with
  | whole front b behind hl hb hbase hl' =>
    subst hl hl' hb hbase
    refine ht.perm ?_
    simp only [List.map_append, List.map_cons, List.append_assoc, List.cons_append]
    exact List.Perm.append_left _ List.perm_middle.symm
  | start front b behind hl hb hbase hl' =>
    have hbound := hlt b (by simp [hl])
    subst hl hl' hbase
    rw [add32_of_lt (by omega), sub32_of_le (by omega) (by omega)]
    simp only [List.map_append, List.map_cons, List.append_assoc, List.cons_append,
      Memblk.span] at ht ⊢
    rw [show b.addr + n + (b.mlength - n) = b.addr + b.mlength by omega]
    exact ht.split_start (by omega) (by omega)
  | ending front b behind hl hb hbase hl' =>
    have hbound := hlt b (by simp [hl])
    subst hl hl' hbase
    rw [sub32_of_le (by omega) (by omega), add32_of_lt (by omega)]
    simp only [List.map_append, List.map_cons, List.append_assoc, List.cons_append,
      Memblk.span] at ht ⊢
    rw [show b.addr + (b.mlength - n) + n = b.addr + b.mlength by omega]
    exact ht.split_end (by omega) (by omega)

theorem Carves.total {l l' : List Memblk} {base n : Nat} (h : Carves l base n l')
    (hlt : ∀ b ∈ l, b.addr + b.mlength < 2 ^ 32) : totalLength l' + n = totalLength l := by
  cases h with
  | whole front b behind hl hb hbase hl' =>
    subst hl hl' hb
    simp only [totalLength, List.map_append, List.map_cons, List.sum_append, List.sum_cons]
    omega
  | start front b behind hl hb hbase hl' | ending front b behind hl hb hbase hl' =>
    have hbound := hlt b (by simp [hl])
    subst hl hl'
    rw [sub32_of_le (by omega) (by omega)]
    simp only [totalLength, List.map_append, List.map_cons, List.sum_append, List.sum_cons]
    omega

theorem Carves.aligned {l l' : List Memblk} {base n : Nat} (h : Carves l base n l')
    (hn : n % 8 = 0) (hlt : ∀ b ∈ l, b.addr + b.mlength < 2 ^ 32)
    (ha : ∀ b ∈ l, b.addr % 8 = 0 ∧ b.mlength % 8 = 0) :
    base % 8 = 0 ∧ ∀ b ∈ l', b.addr % 8 = 0 ∧ b.mlength % 8 = 0 := by
  cases h with
  | whole front b behind hl hb hbase hl' =>
    subst hl hl'
    refine ⟨hbase ▸ (ha b (by simp)).1, fun c hc => ha c ?_⟩
    simp only [List.mem_append, List.mem_cons] at hc ⊢
    exact hc.imp id Or.inr
  | start front b behind hl hb hbase hl' =>
    have hbound := hlt b (by simp [hl])
    have hb8 := ha b (by simp [hl])
    subst hl hl' hbase
    rw [add32_of_lt (by omega), sub32_of_le (by omega) (by omega)]
    refine ⟨hb8.1, fun c hc => ?_⟩
    simp only [List.mem_append, List.mem_cons] at ha hc
    rcases hc with hc | rfl | hc
    · exact ha c (.inl hc)
    · dsimp only
      omega
    · exact ha c (.inr (.inr hc))
  | ending front b behind hl hb hbase hl' =>
    have hbound := hlt b (by simp [hl])
    have hb8 := ha b (by simp [hl])
    subst hl hl' hbase
    rw [sub32_of_le (by omega) (by omega), add32_of_lt (by omega)]
    refine ⟨by omega, fun c hc => ?_⟩
    simp only [List.mem_append, List.mem_cons] at ha hc
    rcases hc with hc | rfl | hc
    · exact ha c (.inl hc)
    · dsimp only
      omega
    · exact ha c (.inr (.inr hc))

theorem stackBase_getstk {a n : Nat} (h : a + roundmb n < 2 ^ 32) :
    stackBase n (sub32 (add32 a (roundmb n)) 4) = a := by
  rw [add32_of_lt h]
  unfold stackBase sub32 add32
  omega

/-! ## Bounds of the blocks -/

section Bounds

variable {h₀ : Heap} {s : HeapUse}

theorem totalLength_le {l : List Memblk} {lo hi : Nat} (hle : lo ≤ hi)
    (hs : Separated (l.map Memblk.span)) (hlo : ∀ b ∈ l, lo ≤ b.addr)
    (hhi : ∀ b ∈ l, b.addr + b.mlength ≤ hi) : lo + totalLength l ≤ hi := by
  induction l generalizing lo with
  | nil => simpa [totalLength] using hle
  | cons b l ih =>
    have hb := hhi b List.mem_cons_self
    have hrest := ih hb hs.tail
      (fun c hc => (hs.head_lt (List.mem_map_of_mem hc)).le)
      fun c hc => hhi c (List.mem_cons_of_mem _ hc)
    have hlob := hlo b List.mem_cons_self
    simp only [totalLength, List.map_cons, List.sum_cons] at hrest ⊢
    omega

/-- What lies in the heap of the start. -/
theorem Heap.Ready.covers (h : h₀.Ready) {x : Nat} (hx : Covers h₀.spans x) :
    h₀.minheap ≤ x ∧ x < h₀.maxheap + 8 ∧ x + 1 < 2 ^ 32 := by
  obtain ⟨_, hspan, hlo, hhi⟩ := hx
  obtain ⟨b, hb, rfl⟩ := List.mem_map.mp hspan
  have hlow := h.low b hb
  have hhigh := h.high b hb
  simp only [Memblk.span] at hlo hhi
  omega

namespace HeapInvariant

/-- Every block, free or allocated, lies in the heap of the start. -/
theorem bounds (hi : HeapInvariant h₀ s) (hr : h₀.Ready) {a : Nat × Nat}
    (ha : a ∈ s.heap.spans ++ s.live.map Allocation.span) :
    h₀.minheap ≤ a.1 ∧ a.2 ≤ h₀.maxheap + 8 ∧ a.2 < 2 ^ 32 := by
  have hpos := hi.tiles.pos a ha
  have hfirst := hr.covers ((hi.tiles.covers a.1).mp ⟨a, ha, le_rfl, hpos⟩)
  have hlast := hr.covers ((hi.tiles.covers (a.2 - 1)).mp ⟨a, ha, by omega, by omega⟩)
  omega

theorem free_lt (hi : HeapInvariant h₀ s) (hr : h₀.Ready) {b : Memblk}
    (hb : b ∈ s.heap.memlist) : b.addr + b.mlength < 2 ^ 32 :=
  (hi.bounds hr (List.mem_append_left _ (List.mem_map_of_mem hb))).2.2

theorem live_bounds (hi : HeapInvariant h₀ s) (hr : h₀.Ready) {a : Allocation}
    (ha : a ∈ s.live) :
    h₀.minheap ≤ a.base ∧ a.base + roundmb a.nbytes ≤ h₀.maxheap + 8 ∧
      a.base + roundmb a.nbytes < 2 ^ 32 :=
  hi.bounds hr (List.mem_append_right _ (List.mem_map_of_mem ha))

theorem mlength_lt (hi : HeapInvariant h₀ s) (hr : h₀.Ready) : s.heap.mlength < 2 ^ 32 := by
  have hle := totalLength_le (Nat.zero_le (2 ^ 32 - 1)) hi.separated (fun b _ => Nat.zero_le b.addr)
    fun b hb => Nat.le_sub_one_of_lt (hi.free_lt hr hb)
  rw [hi.mlength]
  omega

/-! ## Allocation -/

/-- A piece taken out of a free block. -/
theorem carve (hi : HeapInvariant h₀ s) (hr : h₀.Ready) {n base : Nat} {memlist : List Memblk}
    (hn : 1 ≤ n ∧ n ≤ 2 ^ 32 - 8) (hc : Carves s.heap.memlist base (roundmb n) memlist) :
    HeapInvariant h₀
      ⟨{ s.heap with memlist := memlist, mlength := sub32 s.heap.mlength (roundmb n) },
        ⟨base, n⟩ :: s.live⟩ := by
  have hlt := fun b hb => hi.free_lt hr (b := b) hb
  have hpos := roundmb_pos (Nat.ne_of_gt hn.1) hn.2
  have htotal := hc.total hlt
  have hmod := roundmb_mod n
  have haligned := hc.aligned hmod hlt hi.aligned
  exact
    { separated := hc.separated hpos hlt hi.separated
      tiles := hc.tiles hpos hlt hi.tiles
      aligned := haligned.2
      live := fun a ha => by
        rcases List.mem_cons.mp ha with rfl | ha
        · exact ⟨haligned.1, hn⟩
        · exact hi.live a ha
      mlength := by
        show sub32 s.heap.mlength (roundmb n) = totalLength memlist
        rw [sub32_of_le (by rw [hi.mlength]; omega) (hi.mlength_lt hr), hi.mlength]
        omega
      minheap := hi.minheap
      maxheap := hi.maxheap }

theorem getmem (hi : HeapInvariant h₀ s) (hr : h₀.Ready) {n : Nat} (hn : 1 ≤ n ∧ n ≤ 2 ^ 32 - 8) :
    HeapInvariant h₀ (s.allocated (s.heap.getmem n) id n).2 := by
  unfold Heap.getmem
  rw [if_neg (Nat.ne_of_gt hn.1)]
  split
  · exact hi
  · rename_i addr memlist heq
    exact hi.carve hr hn (getmemSearch_carves heq)

theorem getstk (hi : HeapInvariant h₀ s) (hr : h₀.Ready) {n : Nat} (hn : 1 ≤ n ∧ n ≤ 2 ^ 32 - 8) :
    HeapInvariant h₀ (s.allocated (s.heap.getstk n) (stackBase n) n).2 := by
  unfold Heap.getstk
  rw [if_neg (Nat.ne_of_gt hn.1)]
  split
  · exact hi
  · rename_i prev fits mnext heq
    have hfits : s.heap.memlist = prev.reverse ++ fits :: mnext ∧ roundmb n ≤ fits.mlength :=
      getstkScan_fits [] s.heap.memlist none rfl (fun _ _ _ h => nomatch h) prev fits mnext heq
    have hb := hi.free_lt hr (b := fits) (by rw [hfits.1]; simp)
    have hmod := roundmb_mod n
    split
    · rename_i hexact
      show HeapInvariant h₀ ⟨_, ⟨stackBase n _, n⟩ :: s.live⟩
      rw [stackBase_getstk (by omega)]
      exact hi.carve hr hn (.whole _ fits mnext hfits.1 hexact.symm rfl rfl)
    · rename_i hexact
      show HeapInvariant h₀ ⟨_, ⟨stackBase n _, n⟩ :: s.live⟩
      have hleft := sub32_of_le hfits.2 (by omega)
      rw [stackBase_getstk (by rw [hleft, add32_of_lt (by omega)]; omega)]
      exact hi.carve hr hn (.ending _ fits mnext hfits.1 (by omega) rfl rfl)

end HeapInvariant

end Bounds

/-! ## Putting a block back -/

/-- A block joined with the one in front of it, if they touch. -/
structure JoinsPrev (block n : Nat) (prev front : List Memblk) (b : Memblk) : Prop where
  sublist : front.Sublist prev
  ends : b.addr + b.mlength = block + n
  starts : b.addr ≤ block
  apart : ∀ c ∈ front, c.addr + c.mlength < b.addr
  total : totalLength front + b.mlength = totalLength prev + n
  aligned : block % 8 = 0 → (∀ c ∈ prev, c.addr % 8 = 0 ∧ c.mlength % 8 = 0) → b.addr % 8 = 0
  tiles : ∀ (W : Nat → Prop) (others : List (Nat × Nat)),
    Tiles W ((block, block + n) :: (prev.map Memblk.span ++ others)) →
      Tiles W (b.span :: (front.map Memblk.span ++ others))

theorem coalescePrev_joins {block n : Nat} {prev : List Memblk} (hlt : block + n < 2 ^ 32)
    (hs : Separated (prev.reverse.map Memblk.span))
    (hprev : ∀ b ∈ prev, b.addr + b.mlength ≤ block) :
    JoinsPrev block n prev (coalescePrev block n prev).1 (coalescePrev block n prev).2 := by
  cases prev with
  | nil =>
    exact
      { sublist := .slnil
        ends := rfl
        starts := Nat.le_refl block
        apart := fun _ h => nomatch h
        total := rfl
        aligned := fun h _ => h
        tiles := fun _ _ h => h }
  | cons p front =>
    have hp := hprev p List.mem_cons_self
    rw [List.reverse_cons, List.map_append, Separated.append_iff] at hs
    have hfront : ∀ c ∈ front, c.addr + c.mlength < p.addr := fun c hc =>
      hs.2.2 c.span (List.mem_map_of_mem (List.mem_reverse.mpr hc)) p.span List.mem_cons_self
    have hpos : p.addr < p.addr + p.mlength := hs.2.1.head_pos
    have htop : topOf (p :: front) = p.addr + p.mlength := add32_of_lt (by omega)
    rw [coalescePrev, htop]
    split
    · rename_i htouch
      rw [add32_of_lt (by omega)]
      exact
        { sublist := List.sublist_cons_self p front
          ends := by
            dsimp only
            omega
          starts := by
            dsimp only
            omega
          apart := hfront
          total := by
            simp only [totalLength, List.map_cons, List.sum_cons]
            omega
          aligned := fun _ h => (h p List.mem_cons_self).1
          tiles := fun W others h => by
            have hj : Tiles W ((p.addr, block) :: (block, block + n) ::
                (front.map Memblk.span ++ others)) := by
              rw [← htouch] at h ⊢
              exact h.perm (.swap _ _ _)
            show Tiles W ((p.addr, p.addr + (p.mlength + n)) :: _)
            rw [← Nat.add_assoc, htouch]
            exact hj.join }
    · rename_i hgap
      exact
        { sublist := List.Sublist.refl _
          ends := rfl
          starts := Nat.le_refl block
          apart := fun c hc => by
            rcases List.mem_cons.mp hc with rfl | hc
            · exact Nat.lt_of_le_of_ne hp hgap
            · have hc := hfront c hc
              dsimp only
              omega
          total := rfl
          aligned := fun h _ => h
          tiles := fun _ _ h => h }

/-- A block in front of others, joined with the first of them if they touch. -/
structure JoinsNext (b : Memblk) (next l : List Memblk) : Prop where
  separated : Separated (l.map Memblk.span)
  starts : ∀ c ∈ l, b.addr ≤ c.addr
  total : totalLength l = b.mlength + totalLength next
  aligned : (∀ c ∈ b :: next, c.addr % 8 = 0 ∧ c.mlength % 8 = 0) →
    ∀ c ∈ l, c.addr % 8 = 0 ∧ c.mlength % 8 = 0
  tiles : ∀ (W : Nat → Prop) (others : List (Nat × Nat)),
    Tiles W (b.span :: (next.map Memblk.span ++ others)) → Tiles W (l.map Memblk.span ++ others)

theorem coalesceNext_joins {b : Memblk} {next : List Memblk} (hpos : 0 < b.mlength)
    (hlt : b.addr + b.mlength < 2 ^ 32) (hs : Separated (next.map Memblk.span))
    (hbound : ∀ c ∈ next, c.addr + c.mlength < 2 ^ 32)
    (hnext : ∀ c ∈ next, b.addr + b.mlength ≤ c.addr) :
    JoinsNext b next (coalesceNext b next) := by
  cases next with
  | nil =>
    exact
      { separated :=
          Separated.cons_iff.mpr ⟨Nat.lt_add_of_pos_right hpos, .nil, fun _ h => nomatch h⟩
        starts := fun c hc => by rw [List.mem_singleton.mp hc]
        total := rfl
        aligned := fun h => h
        tiles := fun _ _ h => h }
  | cons c next =>
    have hc := hnext c List.mem_cons_self
    have hclt := hbound c List.mem_cons_self
    have hcpos : c.addr < c.addr + c.mlength := hs.head_pos
    have hrest : ∀ d ∈ next, c.addr + c.mlength < d.addr := fun d hd =>
      hs.head_lt (List.mem_map_of_mem hd)
    rw [coalesceNext, add32_of_lt hlt]
    split
    · rename_i htouch
      rw [add32_of_lt (by omega)]
      exact
        { separated := by
            refine Separated.cons_iff.mpr ⟨?_, hs.tail, fun d hd => ?_⟩
            · show b.addr < b.addr + (b.mlength + c.mlength)
              omega
            · obtain ⟨d, hmem, rfl⟩ := List.mem_map.mp hd
              have hd := hrest d hmem
              show b.addr + (b.mlength + c.mlength) < d.addr
              omega
          starts := fun d hd => by
            rcases List.mem_cons.mp hd with rfl | hd
            · exact Nat.le_refl _
            · have hd := hrest d hd
              omega
          total := by
            simp only [totalLength, List.map_cons, List.sum_cons]
            omega
          aligned := fun h d hd => by
            have hb8 := h b List.mem_cons_self
            have hc8 := h c (List.mem_cons_of_mem _ List.mem_cons_self)
            rcases List.mem_cons.mp hd with rfl | hd
            · dsimp only
              omega
            · exact h d (List.mem_cons_of_mem _ (List.mem_cons_of_mem _ hd))
          tiles := fun W others h => by
            have hj : Tiles W ((b.addr, c.addr) :: (c.addr, c.addr + c.mlength) ::
                (next.map Memblk.span ++ others)) := by
              rw [show (b.addr, c.addr) = b.span from Prod.ext rfl htouch.symm]
              exact h
            show Tiles W ((b.addr, b.addr + (b.mlength + c.mlength)) :: _)
            rw [← Nat.add_assoc, htouch]
            exact hj.join }
    · rename_i hgap
      exact
        { separated := by
            refine Separated.cons_iff.mpr ⟨Nat.lt_add_of_pos_right hpos, hs, fun d hd => ?_⟩
            obtain ⟨d, hmem, rfl⟩ := List.mem_map.mp hd
            show b.addr + b.mlength < d.addr
            rcases List.mem_cons.mp hmem with rfl | hmem
            · exact Nat.lt_of_le_of_ne hc hgap
            · have hd := hrest d hmem
              omega
          starts := fun d hd => by
            rcases List.mem_cons.mp hd with rfl | hd
            · exact Nat.le_refl _
            · have hd := hnext d hd
              omega
          total := rfl
          aligned := fun h => h
          tiles := fun _ _ h => h }

section Free

variable {h₀ : Heap} {s : HeapUse} {a : Allocation}

namespace HeapInvariant

/-- An allocated block and a free one. -/
theorem apart_free (hi : HeapInvariant h₀ s) (ha : a ∈ s.live) {b : Memblk}
    (hb : b ∈ s.heap.memlist) : Apart b.span a.span :=
  (List.pairwise_append.mp hi.tiles.apart).2.2 b.span (List.mem_map_of_mem hb) a.span
    (List.mem_map_of_mem ha)

theorem walk (hi : HeapInvariant h₀ s) (ha : a ∈ s.live) :
    let w := freememWalk a.base [] s.heap.memlist
    w.1.reverse ++ w.2 = s.heap.memlist ∧ (∀ b ∈ w.1, b.addr + b.mlength ≤ a.base) ∧
      ∀ b ∈ w.2, a.base + roundmb a.nbytes ≤ b.addr := by
  obtain ⟨happ, hprev, hhead⟩ := freememWalk_spec a.base [] s.heap.memlist
  generalize freememWalk a.base [] s.heap.memlist = w at *
  obtain ⟨prev, next⟩ := w
  dsimp only at *
  rw [List.reverse_nil, List.nil_append] at happ
  have hlive := hi.live a ha
  have hpos := roundmb_pos (Nat.ne_of_gt hlive.2.1) hlive.2.2
  have hapart := fun b hb => hi.apart_free ha (b := b) hb
  have hfree := fun b hb => hi.tiles.pos (Memblk.span b)
    (List.mem_append_left _ (List.mem_map_of_mem hb))
  have hsep := hi.separated
  unfold Heap.spans at hsep
  rw [← happ] at hapart hfree hsep
  rw [List.map_append, Separated.append_iff] at hsep
  refine ⟨happ, fun b hb => ?_, fun b hb => ?_⟩
  · have hmem := List.mem_append_left next (List.mem_reverse.mpr hb)
    have hlt := hprev (fun _ h => nomatch h) b hb
    have hap := hapart b hmem
    have hbpos := hfree b hmem
    simp only [Apart, Memblk.span, Allocation.span] at hap hbpos
    omega
  · have hmem := List.mem_append_right prev.reverse hb
    have hge : a.base ≤ b.addr := by
      cases next with
      | nil => cases hb
      | cons c next =>
        have hc := hhead c rfl
        rcases List.mem_cons.mp hb with rfl | hb
        · exact hc
        · have hlt : c.addr + c.mlength < b.addr := hsep.2.1.head_lt (List.mem_map_of_mem hb)
          omega
    have hap := hapart b hmem
    have hbpos := hfree b hmem
    simp only [Apart, Memblk.span, Allocation.span] at hap hbpos
    omega

end HeapInvariant

/-- A block that lies between its neighbours overlaps neither. -/
theorem not_overlaps {block n : Nat} {prev next : List Memblk} (hlt : block + n < 2 ^ 32)
    (hprev : ∀ b ∈ prev, b.addr + b.mlength ≤ block) (hnext : ∀ b ∈ next, block + n ≤ b.addr) :
    overlaps block n prev next = false := by
  have hfront : (!prev.isEmpty && decide (block < topOf prev)) = false := by
    cases prev with
    | nil => rfl
    | cons p front =>
      have hp := hprev p List.mem_cons_self
      simp only [topOf, add32_of_lt (Nat.lt_of_le_of_lt hp (by omega : block < 2 ^ 32))]
      simpa using hp
  unfold overlaps
  rw [hfront, Bool.false_or]
  cases next with
  | nil => rfl
  | cons c next =>
    have hc := hnext c List.mem_cons_self
    simp only [add32_of_lt hlt]
    simpa using hc

end Free

/-- The list after a block has been put back between `prev` and `next`. -/
structure PutsBack (block n : Nat) (prev next front : List Memblk) (b : Memblk)
    (l : List Memblk) : Prop where
  prev : JoinsPrev block n prev front b
  next : JoinsNext b next l

namespace PutsBack

variable {block n : Nat} {prev next front l : List Memblk} {b : Memblk}

theorem separated (h : PutsBack block n prev next front b l)
    (hs : Separated (prev.reverse.map Memblk.span)) :
    Separated ((front.reverse ++ l).map Memblk.span) := by
  rw [List.map_append, Separated.append_iff]
  refine ⟨hs.sublist ((List.reverse_sublist.mpr h.prev.sublist).map _), h.next.separated, ?_⟩
  intro x hx y hy
  obtain ⟨c, hc, rfl⟩ := List.mem_map.mp hx
  obtain ⟨d, hd, rfl⟩ := List.mem_map.mp hy
  exact Nat.lt_of_lt_of_le (h.prev.apart c (List.mem_reverse.mp hc)) (h.next.starts d hd)

theorem total (h : PutsBack block n prev next front b l) :
    totalLength (front.reverse ++ l) = totalLength (prev.reverse ++ next) + n := by
  have hp := h.prev.total
  have hn := h.next.total
  simp only [totalLength, List.map_append, List.sum_append, List.map_reverse,
    List.sum_reverse] at hp hn ⊢
  omega

theorem aligned (h : PutsBack block n prev next front b l) (hb : block % 8 = 0) (hn : n % 8 = 0)
    (ha : ∀ c ∈ prev.reverse ++ next, c.addr % 8 = 0 ∧ c.mlength % 8 = 0) :
    ∀ c ∈ front.reverse ++ l, c.addr % 8 = 0 ∧ c.mlength % 8 = 0 := by
  have hprev : ∀ c ∈ prev, c.addr % 8 = 0 ∧ c.mlength % 8 = 0 := fun c hc =>
    ha c (List.mem_append_left _ (List.mem_reverse.mpr hc))
  have hbaddr := h.prev.aligned hb hprev
  have hends := h.prev.ends
  intro c hc
  rcases List.mem_append.mp hc with hc | hc
  · exact hprev c (h.prev.sublist.subset (List.mem_reverse.mp hc))
  · refine h.next.aligned (fun d hd => ?_) c hc
    rcases List.mem_cons.mp hd with rfl | hd
    · omega
    · exact ha d (List.mem_append_right _ hd)

theorem tiles (h : PutsBack block n prev next front b l) {W : Nat → Prop}
    {others : List (Nat × Nat)}
    (ht : Tiles W ((prev.reverse ++ next).map Memblk.span ++ (block, block + n) :: others)) :
    Tiles W ((front.reverse ++ l).map Memblk.span ++ others) := by
  have hrev : ∀ ys : List Memblk, (ys.reverse.map Memblk.span).Perm (ys.map Memblk.span) :=
    fun ys => (List.reverse_perm ys).map _
  have hstart : Tiles W ((block, block + n) ::
      (prev.map Memblk.span ++ (next.map Memblk.span ++ others))) := by
    refine ht.perm (List.perm_middle.trans (.cons _ ?_))
    rw [List.map_append, List.append_assoc]
    exact (hrev prev).append_right _
  have hjoined : Tiles W (b.span :: (next.map Memblk.span ++
      (front.map Memblk.span ++ others))) := by
    refine (h.prev.tiles W _ hstart).perm (.cons _ ?_)
    rw [← List.append_assoc, ← List.append_assoc]
    exact List.perm_append_comm.append_right _
  refine (h.next.tiles W _ hjoined).perm ?_
  rw [List.map_append, ← List.append_assoc]
  exact (List.perm_append_comm.trans ((hrev front).symm.append_right _)).append_right _

end PutsBack

section Free

variable {h₀ : Heap} {s : HeapUse} {a : Allocation}

theorem HeapInvariant.putsBack (hi : HeapInvariant h₀ s) (hr : h₀.Ready) (ha : a ∈ s.live)
    {prev next : List Memblk} (happ : prev.reverse ++ next = s.heap.memlist)
    (hprev : ∀ b ∈ prev, b.addr + b.mlength ≤ a.base)
    (hnext : ∀ b ∈ next, a.base + roundmb a.nbytes ≤ b.addr) :
    let front := (coalescePrev a.base (roundmb a.nbytes) prev).1
    let block := (coalescePrev a.base (roundmb a.nbytes) prev).2
    PutsBack a.base (roundmb a.nbytes) prev next front block (coalesceNext block next) := by
  have hlive := hi.live a ha
  have hpos := roundmb_pos (Nat.ne_of_gt hlive.2.1) hlive.2.2
  have hb := hi.live_bounds hr ha
  have hsep := hi.separated
  unfold Heap.spans at hsep
  rw [← happ, List.map_append, Separated.append_iff] at hsep
  have hp := coalescePrev_joins hb.2.2 hsep.1 hprev
  have hends := hp.ends
  have hstarts := hp.starts
  refine ⟨hp, coalesceNext_joins (by omega) (by omega) hsep.2.1 (fun c hc => ?_) fun c hc => ?_⟩
  · exact hi.free_lt hr (by
      rw [← happ]
      exact List.mem_append_right _ hc)
  · have hc := hnext c hc
    omega

/-- A block of the heap is taken back. -/
theorem HeapInvariant.freemem (hi : HeapInvariant h₀ s) (hr : h₀.Ready) (ha : a ∈ s.live)
    {n : Nat} (hn : roundmb a.nbytes = roundmb n) :
    (s.heap.freemem a.base n).1 = .ok ∧
      HeapInvariant h₀ ⟨(s.heap.freemem a.base n).2, s.live.erase a⟩ := by
  have hlive := hi.live a ha
  have hpos := roundmb_pos (Nat.ne_of_gt hlive.2.1) hlive.2.2
  have hb := hi.live_bounds hr ha
  have hmod := roundmb_mod a.nbytes
  have hn0 : n ≠ 0 := by
    intro h0
    rw [hn, h0, roundmb_zero] at hpos
    exact Nat.lt_irrefl 0 hpos
  unfold Heap.freemem
  rw [if_neg (by rw [hi.minheap, hi.maxheap]; omega), ← hn]
  obtain ⟨happ, hprev, hnext⟩ := hi.walk ha
  generalize freememWalk a.base [] s.heap.memlist = w at *
  obtain ⟨prev, next⟩ := w
  dsimp only at happ hprev hnext ⊢
  rw [not_overlaps hb.2.2 hprev hnext, if_neg (by decide)]
  have hput := hi.putsBack hr ha happ hprev hnext
  have hsep := hi.separated
  unfold Heap.spans at hsep
  have htotal := hput.total
  rw [happ, ← hi.mlength] at htotal
  have htiles : Tiles (Covers h₀.spans)
      ((prev.reverse ++ next).map Memblk.span ++
        a.span :: (s.live.erase a).map Allocation.span) := by
    rw [happ]
    exact hi.tiles.perm (((List.perm_cons_erase ha).map Allocation.span).append_left _)
  rw [← happ, List.map_append, Separated.append_iff] at hsep
  have hnew : HeapInvariant h₀
      ⟨{ s.heap with
          memlist := (coalescePrev a.base (roundmb a.nbytes) prev).1.reverse ++
            coalesceNext (coalescePrev a.base (roundmb a.nbytes) prev).2 next
          mlength := totalLength ((coalescePrev a.base (roundmb a.nbytes) prev).1.reverse ++
            coalesceNext (coalescePrev a.base (roundmb a.nbytes) prev).2 next) },
        s.live.erase a⟩ :=
    { separated := hput.separated hsep.1
      tiles := hput.tiles htiles
      aligned := hput.aligned hlive.1 (roundmb_mod _) (by
        rw [happ]
        exact hi.aligned)
      live := fun c hc => hi.live c (List.mem_of_mem_erase hc)
      mlength := rfl
      minheap := hi.minheap
      maxheap := hi.maxheap }
  have hlt := hnew.mlength_lt hr
  refine ⟨rfl, ?_⟩
  dsimp only at hlt ⊢
  rw [add32_of_lt (by omega), ← htotal]
  exact hnew

end Free

/-! ## Runs -/

variable {h₀ : Heap}

theorem heapInvariant_start (hr : h₀.Ready) : HeapInvariant h₀ ⟨h₀, []⟩ where
  separated := hr.separated
  tiles := by
    rw [List.map_nil, List.append_nil]
    exact .of_separated hr.separated
  aligned := hr.aligned
  live a ha := nomatch ha
  mlength := hr.mlength
  minheap := rfl
  maxheap := rfl

theorem Allocation.freedBy_iff {a : Allocation} {blkaddr n : Nat} :
    a.freedBy blkaddr n = true ↔ a.base = blkaddr ∧ roundmb a.nbytes = roundmb n := by
  simp [Allocation.freedBy]

variable {s : HeapUse}

theorem mem_allocated {r : Option Nat × Heap} {base : Nat → Nat} {n : Nat} {a : Allocation}
    (h : a ∈ s.live) : a ∈ (s.allocated r base n).2.live := by
  obtain ⟨_ | addr, heap⟩ := r
  · exact h
  · exact List.mem_cons_of_mem _ h

/-- An allocated block stays until it is freed. -/
theorem mem_live_step {s s' : HeapUse} {e : HeapCall} {o : HeapResult} {a : Allocation}
    (h : s.step e = .ok (o, s')) (ha : a ∈ s.live)
    (hkeep : ∀ blkaddr n, e = .freemem blkaddr n → a.base ≠ blkaddr) : a ∈ s'.live := by
  cases e with
  | getmem n =>
    simp only [HeapUse.step] at h
    split at h
    · rw [← (Prod.mk.inj (Except.ok.inj h)).2]
      exact mem_allocated ha
    · cases h
  | getstk n =>
    simp only [HeapUse.step] at h
    split at h
    · rw [← (Prod.mk.inj (Except.ok.inj h)).2]
      exact mem_allocated ha
    · cases h
  | freemem blkaddr n =>
    simp only [HeapUse.step] at h
    split at h
    · cases h
    · next b hb =>
      obtain ⟨-, rfl⟩ := Prod.mk.inj (Except.ok.inj h)
      have hbase := (Allocation.freedBy_iff.mp (List.find?_some hb)).1
      have hne : a ≠ b := by
        rintro rfl
        exact hkeep blkaddr n rfl hbase
      exact (List.mem_erase_of_ne hne).mpr ha

theorem HeapInvariant.step {s s' : HeapUse} {e : HeapCall} {o : HeapResult} (hr : h₀.Ready)
    (hi : HeapInvariant h₀ s) (h : s.step e = .ok (o, s')) : HeapInvariant h₀ s' := by
  cases e with
  | getmem n =>
    simp only [HeapUse.step] at h
    split at h
    · rename_i hn
      rw [Except.ok.injEq] at h
      have hget := hi.getmem hr ⟨hn.1, by omega⟩
      rwa [h] at hget
    · cases h
  | getstk n =>
    simp only [HeapUse.step] at h
    split at h
    · rename_i hn
      rw [Except.ok.injEq] at h
      have hget := hi.getstk hr ⟨hn.1, by omega⟩
      rwa [h] at hget
    · cases h
  | freemem blkaddr n =>
    simp only [HeapUse.step] at h
    split at h
    · cases h
    · rename_i a ha
      have hfreed := Allocation.freedBy_iff.mp (List.find?_some ha)
      rw [Except.ok.injEq, Prod.mk.injEq] at h
      rw [← h.2, ← hfreed.1]
      exact (hi.freemem hr (List.mem_of_find?_eq_some ha) hfreed.2).2

theorem HeapInvariant.live_apart (hi : HeapInvariant h₀ s) {a b : Allocation}
    (ha : a ∈ s.live) (hb : b ∈ s.live) (hne : a ≠ b) : Apart a.span b.span := by
  have hap := List.pairwise_map.mp (List.pairwise_append.mp hi.tiles.apart).2.1
  have : Std.Symm fun a b : Allocation => Apart a.span b.span := ⟨fun _ _ h => h.symm⟩
  exact hap.forall ha hb hne

/-- Allocated blocks that start at one address are one block. -/
theorem HeapInvariant.eq_of_base (hi : HeapInvariant h₀ s) {a b : Allocation} (ha : a ∈ s.live)
    (hb : b ∈ s.live) (hbase : a.base = b.base) : a = b := by
  have hpos := fun c hc => roundmb_pos (Nat.ne_of_gt (hi.live c hc).2.1) (hi.live c hc).2.2
  have hpa := hpos a ha
  have hpb := hpos b hb
  by_contra hne
  have hab := hi.live_apart ha hb hne
  simp only [Apart, Allocation.span] at hab
  omega

theorem HeapInvariant.nodup (hi : HeapInvariant h₀ s) : s.live.Nodup := by
  have hap := List.pairwise_map.mp (List.pairwise_append.mp hi.tiles.apart).2.1
  refine hap.imp_of_mem fun {a b} ha hb hab heq => ?_
  subst heq
  have hpos := roundmb_pos (Nat.ne_of_gt (hi.live a ha).2.1) (hi.live a ha).2.2
  simp only [Apart, Allocation.span] at hab
  omega

theorem HeapInvariant.step_freemem (hi : HeapInvariant h₀ s) (hr : h₀.Ready) {a : Allocation}
    (ha : a ∈ s.live) :
    s.step (.freemem a.base a.nbytes) =
      .ok (.status .ok, ⟨(s.heap.freemem a.base a.nbytes).2, s.live.erase a⟩) := by
  have hfind : s.live.find? (Allocation.freedBy a.base a.nbytes) = some a := by
    cases hf : s.live.find? (Allocation.freedBy a.base a.nbytes) with
    | none =>
      refine absurd (Allocation.freedBy_iff.mpr ⟨rfl, rfl⟩) (List.find?_eq_none.mp hf a ha)
    | some b =>
      have hbase := (Allocation.freedBy_iff.mp (List.find?_some hf)).1
      rw [hi.eq_of_base (List.mem_of_find?_eq_some hf) ha hbase]
  simp only [HeapUse.step]
  rw [hfind]
  dsimp only
  rw [(hi.freemem hr ha rfl).1]

/-- The allocated blocks freed one after another, in any order. -/
theorem HeapInvariant.freeAll (hr : h₀.Ready) (l : List Allocation) {s : HeapUse}
    (hi : HeapInvariant h₀ s) (hl : l.Perm s.live) :
    ∃ s', exec HeapUse.step s (l.map fun a => .freemem a.base a.nbytes) =
        .ok (l.map fun _ => .status .ok, s') ∧ s'.live = [] ∧ HeapInvariant h₀ s' := by
  induction l generalizing s with
  | nil => exact ⟨s, rfl, hl.symm.eq_nil, hi⟩
  | cons a l ih =>
    have ha : a ∈ s.live := hl.mem_iff.mp List.mem_cons_self
    have hs := hi.step_freemem hr ha
    have hrest : l.Perm (s.live.erase a) := by
      have h := hl.erase a
      rwa [List.erase_cons_head] at h
    obtain ⟨s', hexec, hnil, hi'⟩ := ih (hi.freemem hr ha rfl).2 hrest
    refine ⟨s', ?_, hnil, hi'⟩
    rw [List.map_cons, exec_cons_ok hs, hexec, List.map_cons]

/-- What holds of the heap and of the blocks allocated from it. -/
structure HeapSound (h₀ : Heap) (s : HeapUse) : Prop where
  sorted : s.heap.memlist.Pairwise fun b c => b.addr + b.mlength < c.addr
  mlength : s.heap.mlength = totalLength s.heap.memlist
  live_apart : s.live.Pairwise fun a b => Apart a.span b.span
  free_apart : ∀ b ∈ s.heap.memlist, ∀ a ∈ s.live, Apart b.span a.span
  large : ∀ a ∈ s.live, a.nbytes ≤ roundmb a.nbytes
  freed : ∀ a ∈ s.live, ∀ n, roundmb n = roundmb a.nbytes → (s.heap.freemem a.base n).1 = .ok
  restored : s.live = [] → s.heap = h₀
  restorable : ∀ l : List Allocation, l.Perm s.live →
    exec HeapUse.step s (l.map fun a => .freemem a.base a.nbytes) =
      .ok (l.map fun _ => .status .ok, ⟨h₀, []⟩)

/-- Nothing allocated is left, so the free list is that of the start. -/
theorem HeapInvariant.restored (hr : h₀.Ready) (hi : HeapInvariant h₀ s) (hnil : s.live = []) :
    s.heap = h₀ := by
  have ht := hi.tiles
  rw [hnil, List.map_nil, List.append_nil] at ht
  have hspans : s.heap.spans = h₀.spans := ht.eq_of_separated hi.separated hr.separated
  have hinj : Function.Injective Memblk.span := by
    intro b c hbc
    cases b
    cases c
    simp only [Memblk.span, Prod.mk.injEq] at hbc
    obtain ⟨rfl, hlen⟩ := hbc
    rw [Nat.add_left_cancel hlen]
  have hlist : s.heap.memlist = h₀.memlist := List.map_injective_iff.mpr hinj hspans
  have hlen := hi.mlength
  rw [hlist, ← hr.mlength] at hlen
  exact Heap.ext hlist hlen hi.minheap hi.maxheap

theorem HeapInvariant.sound (hr : h₀.Ready) (hi : HeapInvariant h₀ s) :
    HeapSound h₀ s where
  sorted := List.pairwise_map.mp hi.separated.sorted
  mlength := hi.mlength
  live_apart := List.pairwise_map.mp (List.pairwise_append.mp hi.tiles.apart).2.1
  free_apart b hb a ha := hi.apart_free ha hb
  large a ha := le_roundmb (hi.live a ha).2.2
  freed a ha n hn := (hi.freemem hr ha hn.symm).1
  restored hnil := hi.restored hr hnil
  restorable l hl := by
    obtain ⟨⟨heap, live⟩, hexec, hnil, hi'⟩ := hi.freeAll hr l hl
    have hheap := hi'.restored hr hnil
    dsimp only at hnil hheap
    rw [hexec, hnil, hheap]

/-- A heap of two blocks. -/
def twoBlocks : Heap := ⟨[⟨4096, 64⟩, ⟨8192, 1024⟩], 1088, 4096, 9216⟩

/-- The free list stays sorted with something between any two blocks, allocated blocks
overlap nothing, and when all of them have been freed the heap is as it was. -/
theorem heap_sound (hr : h₀.Ready) {tr : List (HeapCall × HeapResult)} {s : HeapUse}
    (h : Run HeapUse.step ⟨h₀, []⟩ tr s) : HeapSound h₀ s :=
  (h.invariant (I := fun _ s => HeapInvariant h₀ s) (heapInvariant_start hr)
    fun _ _ _ _ _ hi hs => hi.step hr hs).sound hr

theorem twoBlocks_ready : twoBlocks.Ready where
  minheap_pos := by decide
  aligned := by decide
  separated :=
    { pos := by decide
      sorted := by decide }
  low := by decide
  high := by decide
  mlength := by decide

/-- A stack of the end of the second block, and a buffer of the front of the first. -/
theorem twoBlocks_sound :
    Run HeapUse.step ⟨twoBlocks, []⟩
        [(.getstk 1000, .address 9212), (.getmem 60, .address 4096)]
        ⟨⟨[⟨8192, 24⟩], 24, 4096, 9216⟩, [⟨4096, 60⟩, ⟨8216, 1000⟩]⟩ ∧
      HeapSound twoBlocks ⟨⟨[⟨8192, 24⟩], 24, 4096, 9216⟩, [⟨4096, 60⟩, ⟨8216, 1000⟩]⟩ := by
  have h : Run HeapUse.step ⟨twoBlocks, []⟩
      [(.getstk 1000, .address 9212), (.getmem 60, .address 4096)]
      ⟨⟨[⟨8192, 24⟩], 24, 4096, 9216⟩, [⟨4096, 60⟩, ⟨8216, 1000⟩]⟩ :=
    .cons rfl (.cons rfl .start)
  exact ⟨h, heap_sound twoBlocks_ready h⟩

end NatBox
