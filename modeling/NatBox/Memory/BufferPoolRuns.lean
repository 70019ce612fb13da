import NatBox.Memory.BufferPools

/-
What keeps the free list of a pool and the buffers that are held a partition of its buffers.

`PoolInv` is about one pool; the words it reads are the first words of its buffers.  A caller
that has been let through `wait` and has no buffer yet is the `grant`; there is one at most, in
the middle of a step.
-/

namespace NatBox

open Chain Function Runs Spans

/-- `calls` are the ready callers of the pool, `free` its free buffers and `held` the others. -/
structure PoolInv (mem : Nat → Nat) (i : Nat) (bp : BpEntry) (calls : List GetbufCall)
    (held free : List Nat) (grant : Nat) : Prop where
  linked : Leads (nextWord mem) (toPtr bp.bpnext) free
  buffers : (free ++ held).Perm bp.buffers
  ids : ∀ a ∈ held, mem a = i
  count : bp.bpsem.count.toNat + calls.length + grant = free.length
  waiting : ∀ c ∈ bp.bpsem.waiting, c.poolid = i

namespace PoolInv

variable {mem mem' : Nat → Nat} {i : Nat} {bp : BpEntry} {calls : List GetbufCall}
  {held free : List Nat} {grant : Nat}

/-- A step elsewhere. -/
theorem congr (h : PoolInv mem i bp calls held free grant)
    (hag : ∀ a ∈ bp.buffers, mem' a = mem a) : PoolInv mem' i bp calls held free grant := by
  have hmem : ∀ a ∈ free ++ held, mem' a = mem a := fun a ha =>
    hag a (h.buffers.mem_iff.mp ha)
  exact { h with
    linked := h.linked.congr fun a ha => congrArg toPtr (hmem a (List.mem_append_left _ ha))
    ids := fun a ha => (hmem a (List.mem_append_right _ ha)).trans (h.ids a ha) }

/-- `getbuf` behind its `wait` finds a buffer. -/
theorem take (h : PoolInv mem i bp calls held free (grant + 1)) :
    ∃ rest, free = bp.bpnext :: rest ∧ bp.bpnext ≠ 0 ∧
      (bp.buffers.Nodup → ∀ mem' : Nat → Nat, mem' bp.bpnext = i →
        (∀ a ∈ bp.buffers, a ≠ bp.bpnext → mem' a = mem a) →
        PoolInv mem' i { bp with bpnext := mem bp.bpnext } calls (bp.bpnext :: held) rest
          grant) := by
  have hcount := h.count
  obtain ⟨b, rest, rfl⟩ : ∃ b rest, free = b :: rest :=
    List.exists_cons_of_length_pos (by omega)
  obtain ⟨hhead, hrest⟩ := h.linked
  have hb : bp.bpnext = b ∧ bp.bpnext ≠ 0 := by
    unfold toPtr at hhead
    split at hhead
    · cases hhead
    · next hne => exact ⟨Option.some.inj hhead, hne⟩
  obtain ⟨rfl, hne⟩ := hb
  refine ⟨rest, rfl, hne, fun hnd mem' hid hag => ?_⟩
  have hall := h.buffers.nodup_iff.mpr hnd
  have hmem : ∀ a ∈ rest ++ held, mem' a = mem a := fun a ha =>
    hag a (h.buffers.mem_iff.mp (List.mem_cons_of_mem _ ha))
      (fun heq => (List.nodup_cons.mp hall).1 (heq ▸ ha))
  refine ⟨?_, ?_, fun a ha => ?_, ?_, h.waiting⟩
  · exact hrest.congr fun a ha => congrArg toPtr (hmem a (List.mem_append_left _ ha))
  · exact List.perm_middle.trans h.buffers
  · rcases List.mem_cons.mp ha with rfl | ha
    · exact hid
    · rw [hmem a (List.mem_append_right _ ha)]
      exact h.ids a ha
  · rw [List.length_cons] at hcount
    show bp.bpsem.count.toNat + calls.length + grant = rest.length
    omega

/-- `freebuf` of a buffer that is held. -/
theorem release {b : Nat} {held' : List Nat} (h : PoolInv mem i bp calls held free 0)
    (hheld : held.Perm (b :: held')) (hpos : b ≠ 0) (hnd : bp.buffers.Nodup)
    (hnext : mem' b = bp.bpnext)
    (hag : ∀ a ∈ bp.buffers, a ≠ b → mem' a = mem a) :
    PoolInv mem' i { bp with bpnext := b, bpsem := bp.bpsem.signal.1 }
      (calls ++ bp.bpsem.signal.2) held' (b :: free) 0 := by
  have hall := h.buffers.nodup_iff.mpr hnd
  have hcount := h.count
  have hsplit : (b :: (free ++ held')).Perm (free ++ held) :=
    List.perm_middle.symm.trans (List.Perm.append_left _ hheld.symm)
  have hnot : b ∉ free ++ held' := (List.nodup_cons.mp (hsplit.nodup_iff.mpr hall)).1
  have hmem : ∀ a ∈ free ++ held', mem' a = mem a := fun a ha =>
    hag a (h.buffers.mem_iff.mp (hsplit.mem_iff.mp (List.mem_cons_of_mem _ ha)))
      (fun heq => hnot (heq ▸ ha))
  refine ⟨⟨if_neg hpos, ?_⟩, hsplit.trans h.buffers, fun a ha => ?_, ?_, fun c hc => ?_⟩
  · unfold nextWord
    rw [hnext]
    exact h.linked.congr fun a ha => congrArg toPtr (hmem a (List.mem_append_left _ ha))
  · rw [hmem a (List.mem_append_right _ ha)]
    exact h.ids a (hheld.mem_iff.mpr (List.mem_cons_of_mem _ ha))
  · have hpermits : bp.bpsem.signal.1.count.toNat + bp.bpsem.signal.2.length =
        bp.bpsem.count.toNat + 1 := bp.bpsem.permits_signal
    show bp.bpsem.signal.1.count.toNat + (calls ++ bp.bpsem.signal.2).length + 0 =
      (b :: free).length
    rw [List.length_append, List.length_cons]
    omega
  · refine h.waiting c ?_
    rw [← bp.bpsem.signal_append_waiting]
    exact List.mem_append_right _ hc

variable {c : GetbufCall}

theorem wait_through (h : PoolInv mem i bp calls held free 0) (hpos : 0 < bp.bpsem.count) :
    PoolInv mem i { bp with bpsem := bp.bpsem.wait c } calls held free 1 := by
  have hpermits : (bp.bpsem.wait c).count.toNat + 1 = bp.bpsem.count.toNat :=
    Semaphore.permits_wait_of_pos hpos
  have hcount := h.count
  refine { h with count := ?_, waiting := fun x hx => ?_ }
  · show (bp.bpsem.wait c).count.toNat + calls.length + 1 = free.length
    omega
  · have hwaiting : (bp.bpsem.wait c).waiting = bp.bpsem.waiting :=
      Semaphore.waiting_wait_of_pos hpos
    exact h.waiting x (hwaiting ▸ hx)

theorem wait_block (h : PoolInv mem i bp calls held free 0) (hpos : ¬ 0 < bp.bpsem.count)
    (hc : c.poolid = i) :
    PoolInv mem i { bp with bpsem := bp.bpsem.wait c } calls held free 0 := by
  have hpermits : (bp.bpsem.wait c).count.toNat = bp.bpsem.count.toNat :=
    Semaphore.permits_wait_of_not_pos hpos
  have hcount := h.count
  refine { h with count := ?_, waiting := fun x hx => ?_ }
  · show (bp.bpsem.wait c).count.toNat + calls.length + 0 = free.length
    omega
  · have hwaiting : (bp.bpsem.wait c).waiting = bp.bpsem.waiting ++ [c] :=
      Semaphore.waiting_wait_of_not_pos hpos
    rcases List.mem_append.mp (hwaiting ▸ hx) with hx | hx
    · exact h.waiting x hx
    · obtain rfl := List.mem_singleton.mp hx
      exact hc

theorem come_back (h : PoolInv mem i bp calls held free 0) (hc : c ∈ calls) :
    PoolInv mem i bp (calls.erase c) held free 1 := by
  have hcount := h.count
  have hlen := (List.perm_cons_erase hc).length_eq
  rw [List.length_cons] at hlen
  exact { h with count := by omega }

end PoolInv

/-! ## A new pool -/

theorem mkbufpoolLoop_of_not_mem {bufsiz rounds buf x : Nat} {mem : Nat → Nat}
    (hx : ∀ k, k ≤ rounds → x ≠ buf + k * bufsiz) :
    mkbufpoolLoop bufsiz rounds buf mem x = mem x := by
  induction rounds generalizing buf mem with
  | zero =>
    have hne := hx 0 (Nat.le_refl 0)
    rw [Nat.zero_mul, Nat.add_zero] at hne
    exact update_of_ne hne _ _
  | succ rounds ih =>
    have hne := hx 0 (Nat.zero_le _)
    rw [Nat.zero_mul, Nat.add_zero] at hne
    rw [mkbufpoolLoop, ih fun k hk => ?_, update_of_ne hne]
    have hnext := hx (k + 1) (Nat.succ_le_succ hk)
    rwa [Nat.add_mul, Nat.one_mul, Nat.add_comm (k * bufsiz), ← Nat.add_assoc] at hnext

theorem map_range_succ (buf bufsiz n : Nat) :
    (List.range (n + 1)).map (fun k => buf + k * bufsiz) =
      buf :: (List.range n).map fun k => buf + bufsiz + k * bufsiz := by
  rw [List.range_succ_eq_map, List.map_cons, List.map_map, Nat.zero_mul, Nat.add_zero]
  refine congrArg (buf :: ·) (List.map_congr_left fun k _ => ?_)
  show buf + (k + 1) * bufsiz = buf + bufsiz + k * bufsiz
  rw [Nat.add_mul, Nat.one_mul, Nat.add_comm (k * bufsiz), Nat.add_assoc]

/-- The loop links the buffers in the order of their addresses. -/
theorem mkbufpoolLoop_leads {bufsiz rounds buf : Nat} {mem : Nat → Nat} (hsize : 0 < bufsiz)
    (hbuf : 0 < buf) :
    Leads (nextWord (mkbufpoolLoop bufsiz rounds buf mem)) (toPtr buf)
      ((List.range (rounds + 1)).map fun k => buf + k * bufsiz) := by
  have hptr : toPtr buf = some buf := if_neg (Nat.ne_of_gt hbuf)
  rw [hptr]
  induction rounds generalizing buf mem with
  | zero =>
    rw [map_range_succ]
    refine ⟨rfl, ?_⟩
    unfold nextWord
    rw [mkbufpoolLoop, update_self]
    rfl
  | succ rounds ih =>
    have hnext : nextWord (mkbufpoolLoop bufsiz (rounds + 1) buf mem) buf =
        some (buf + bufsiz) := by
      unfold nextWord
      rw [mkbufpoolLoop, mkbufpoolLoop_of_not_mem fun k _ => by omega, update_self]
      exact if_neg (by omega)
    rw [map_range_succ]
    refine ⟨rfl, ?_⟩
    rw [hnext]
    exact ih (by omega) (if_neg (by omega))

/-! ## All pools -/

/-- The pools have allocated blocks of the heap, each its own. -/
structure BpBlocks (h₀ : Heap) (s : BufferPools) : Prop where
  heap : HeapInvariant h₀ s.use
  block : ∀ i, i < s.nbpools → (s.buftab i).block ∈ s.use.live
  distinct : ∀ i j, i < s.nbpools → j < s.nbpools → (s.buftab i).base = (s.buftab j).base → i = j

structure BpInv (h₀ : Heap) (s : BufferPools) (grant : Option Nat)
    (free : Nat → List Nat) : Prop extends BpBlocks h₀ s where
  pool : ∀ i, i < s.nbpools → PoolInv s.mem i (s.buftab i) (s.ready.filter (·.poolid = i))
    (s.heldOf i) (free i) (if grant = some i then 1 else 0)
  ready : ∀ c ∈ s.ready, c.poolid < s.nbpools
  held : ∀ h ∈ s.held, h.1 < s.nbpools

theorem mem_buffers {bp : BpEntry} {a : Nat} :
    a ∈ bp.buffers ↔ ∃ k, k < bp.numbufs ∧ a = bp.base + k * (bp.bpsize + 4) := by
  unfold BpEntry.buffers
  rw [List.mem_map]
  exact exists_congr fun k => and_congr List.mem_range eq_comm

/-- The buffers of one pool lie one behind the other. -/
theorem apart_of_mem {bp : BpEntry} {a b : Nat} (ha : a ∈ bp.buffers) (hb : b ∈ bp.buffers)
    (hne : a ≠ b) : Apart (a, a + bp.bpsize + 4) (b, b + bp.bpsize + 4) := by
  obtain ⟨k, -, rfl⟩ := mem_buffers.mp ha
  obtain ⟨l, -, rfl⟩ := mem_buffers.mp hb
  have hstep : ∀ {m n : Nat}, m < n →
      m * (bp.bpsize + 4) + (bp.bpsize + 4) ≤ n * (bp.bpsize + 4) := fun {m n} hmn => by
    rw [← Nat.succ_mul]
    exact Nat.mul_le_mul_right _ hmn
  rcases Nat.lt_trichotomy k l with hlt | rfl | hlt
  · have := hstep hlt
    exact .inl (by dsimp only; omega)
  · exact absurd rfl hne
  · have := hstep hlt
    exact .inr (by dsimp only; omega)

theorem nodup_buffers (bp : BpEntry) : bp.buffers.Nodup := by
  refine List.Nodup.map_on (fun k _ l _ heq => ?_) List.nodup_range
  exact Nat.eq_of_mul_eq_mul_right (Nat.succ_pos _) (Nat.add_left_cancel heq)

namespace BpBlocks

variable {h₀ : Heap} {s : BufferPools} {i j a b : Nat}

/-- A buffer lies in the block of its pool. -/
theorem bounds (h : BpBlocks h₀ s) (hi : i < s.nbpools) (ha : a ∈ (s.buftab i).buffers) :
    (s.buftab i).base ≤ a ∧
      a + (s.buftab i).bpsize + 4 ≤ (s.buftab i).base + roundmb (s.buftab i).nbytes := by
  have hlive := h.heap.live _ (h.block i hi)
  have hround : (s.buftab i).nbytes ≤ roundmb (s.buftab i).nbytes := le_roundmb hlive.2.2
  obtain ⟨k, hk, rfl⟩ := mem_buffers.mp ha
  have hle : (k + 1) * ((s.buftab i).bpsize + 4) ≤ (s.buftab i).nbytes :=
    Nat.mul_le_mul_right _ hk
  rw [Nat.succ_mul] at hle
  omega

theorem apart (h : BpBlocks h₀ s) (hi : i < s.nbpools) (hj : j < s.nbpools)
    (ha : a ∈ (s.buftab i).buffers) (hb : b ∈ (s.buftab j).buffers) (hne : (i, a) ≠ (j, b)) :
    Apart (a, a + (s.buftab i).bpsize + 4) (b, b + (s.buftab j).bpsize + 4) := by
  by_cases hij : i = j
  · subst hij
    exact apart_of_mem ha hb fun hab => hne (hab ▸ rfl)
  · have hab := h.heap.live_apart (h.block i hi) (h.block j hj)
      fun heq => hij (h.distinct i j hi hj (congrArg Allocation.base heq))
    have hia := h.bounds hi ha
    have hjb := h.bounds hj hb
    rcases hab with hle | hle
    · exact .inl (by simp only [Allocation.span, BpEntry.block] at hle ⊢; omega)
    · exact .inr (by simp only [Allocation.span, BpEntry.block] at hle ⊢; omega)

/-- The only first word in a buffer is its own. -/
theorem only_first (h : BpBlocks h₀ s) (hi : i < s.nbpools) (hj : j < s.nbpools)
    (ha : a ∈ (s.buftab i).buffers) (hb : b ∈ (s.buftab j).buffers) (hle : a ≤ b)
    (hlt : b < a + (s.buftab i).bpsize + 4) : (i, a) = (j, b) := by
  by_contra hne
  have hab := h.apart hi hj ha hb hne
  simp only [Apart] at hab
  omega

theorem base_pos (hr : h₀.Ready) (h : BpBlocks h₀ s) (hi : i < s.nbpools)
    (ha : a ∈ (s.buftab i).buffers) : a ≠ 0 := by
  have hle := (h.bounds hi ha).1
  have hmin := (h.heap.live_bounds hr (h.block i hi)).1
  have hpos := hr.minheap_pos
  simp only [BpEntry.block] at hmin
  omega

/-- The block of another pool is apart from theirs. -/
theorem concat {heap : Heap} (h : BpBlocks h₀ s) (bp : BpEntry)
    (hheap : HeapInvariant h₀ ⟨heap, bp.block :: s.use.live⟩) (mem : Nat → Nat) :
    BpBlocks h₀ { s with
      use := ⟨heap, bp.block :: s.use.live⟩
      mem := mem
      buftab := update s.buftab s.nbpools bp
      nbpools := s.nbpools + 1 } := by
  have hnew : ∀ i, i < s.nbpools → (s.buftab i).base ≠ bp.base := by
    intro i hi heq
    have hblock := h.block i hi
    have hsame := hheap.eq_of_base (List.mem_cons_of_mem _ hblock) List.mem_cons_self heq
    exact (List.nodup_cons.mp hheap.nodup).1 (hsame ▸ hblock)
  have hold : ∀ i, i < s.nbpools → update s.buftab s.nbpools bp i = s.buftab i :=
    fun i hi => update_of_ne (Nat.ne_of_lt hi) _ _
  refine ⟨hheap, fun i hi => ?_, fun i j hi hj heq => ?_⟩
  · show (update s.buftab s.nbpools bp i).block ∈ _
    rcases Nat.lt_succ_iff_lt_or_eq.mp hi with hi | rfl
    · rw [hold i hi]
      exact List.mem_cons_of_mem _ (h.block i hi)
    · rw [update_self]
      exact List.mem_cons_self
  · change (update s.buftab s.nbpools bp i).base = (update s.buftab s.nbpools bp j).base at heq
    rcases Nat.lt_succ_iff_lt_or_eq.mp hi with hi | rfl <;>
      rcases Nat.lt_succ_iff_lt_or_eq.mp hj with hj | rfl
    · rw [hold i hi, hold j hj] at heq
      exact h.distinct i j hi hj heq
    · rw [hold i hi, update_self] at heq
      exact absurd heq (hnew i hi)
    · rw [hold j hj, update_self] at heq
      exact absurd heq.symm (hnew j hj)
    · rfl

end BpBlocks

namespace BpInv

variable {h₀ : Heap} {s s' : BufferPools} {grant grant' : Option Nat} {free : Nat → List Nat}
  {i j a b : Nat}

/-- A step that is about one pool. -/
theorem set {bp : BpEntry} {mem : Nat → Nat} {ready : List GetbufCall} {held : List (Nat × Nat)}
    {l : List Nat} (h : BpInv h₀ s grant free)
    (hbp : bp.base = (s.buftab i).base ∧ bp.nbytes = (s.buftab i).nbytes)
    (hmem : ∀ j, j < s.nbpools → j ≠ i → ∀ a ∈ (s.buftab j).buffers, mem a = s.mem a)
    (hready : ∀ j, j ≠ i → ready.filter (·.poolid = j) = s.ready.filter (·.poolid = j))
    (hheld : ∀ j, j ≠ i → held.filter (·.1 = j) = s.held.filter (·.1 = j))
    (hready' : ∀ c ∈ ready, c.poolid < s.nbpools) (hheld' : ∀ x ∈ held, x.1 < s.nbpools)
    (hgrant : ∀ j, j ≠ i → (grant' = some j ↔ grant = some j))
    (hp : i < s.nbpools → PoolInv mem i bp (ready.filter (·.poolid = i))
      ((held.filter (·.1 = i)).map Prod.snd) l (if grant' = some i then 1 else 0)) :
    BpInv h₀ { s with mem := mem, buftab := update s.buftab i bp, ready := ready, held := held }
      grant' (update free i l) := by
  have hbase : ∀ j, (update s.buftab i bp j).base = (s.buftab j).base ∧
      (update s.buftab i bp j).nbytes = (s.buftab j).nbytes := by
    intro j
    by_cases hj : j = i
    · subst hj
      rw [update_self]
      exact hbp
    · rw [update_of_ne hj]
      exact ⟨rfl, rfl⟩
  refine ⟨⟨h.heap, fun j hj => ?_, fun j k hj hk heq => ?_⟩, fun j hj => ?_, hready', hheld'⟩
  · have hblock := h.block j hj
    unfold BpEntry.block at hblock ⊢
    rw [(hbase j).1, (hbase j).2]
    exact hblock
  · refine h.distinct j k hj hk ?_
    rw [← (hbase j).1, ← (hbase k).1]
    exact heq
  · by_cases hji : j = i
    · subst hji
      show PoolInv mem j (update s.buftab j bp j) _ _ (update free j l j) _
      rw [update_self, update_self]
      exact hp hj
    · show PoolInv mem j (update s.buftab i bp j) (ready.filter (·.poolid = j))
        ((held.filter (·.1 = j)).map Prod.snd) (update free i l j) _
      rw [update_of_ne hji, update_of_ne hji, hready j hji, hheld j hji,
        if_congr (hgrant j hji) rfl rfl]
      exact (h.pool j hj).congr (hmem j hj hji)

theorem filter_cons_of_ne {held : List (Nat × Nat)} (hji : j ≠ i) :
    ((i, a) :: held).filter (·.1 = j) = held.filter (·.1 = j) :=
  List.filter_cons_of_neg (fun heq => hji (of_decide_eq_true heq).symm)

theorem grant_elsewhere (hji : j ≠ i) : (none : Option Nat) = some j ↔ some i = some j :=
  iff_of_false nofun fun heq => hji (Option.some.inj heq).symm

/-- Whoever comes from `wait` finds a buffer. -/
theorem take (h : BpInv h₀ s (some i) free) (hi : i < s.nbpools) :
    ∃ s', getbufResume s i = .ok (.got ((s.buftab i).bpnext + 4), s') ∧
      ∃ free', BpInv h₀ s' none free' := by
  have hp := h.pool i hi
  rw [if_pos rfl] at hp
  obtain ⟨rest, hfree, hne, htake⟩ := hp.take
  have hb : (s.buftab i).bpnext ∈ (s.buftab i).buffers :=
    hp.buffers.mem_iff.mp (List.mem_append_left _ (hfree ▸ List.mem_cons_self))
  unfold getbufResume
  rw [if_neg hne]
  refine ⟨_, rfl, update free i rest, ?_⟩
  refine h.set ⟨rfl, rfl⟩ (fun j hj hji x hx => update_of_ne ?_ _ _) (fun _ _ => rfl)
    (fun j hji => filter_cons_of_ne hji) h.ready ?_ (fun j hji => grant_elsewhere hji) fun _ => ?_
  · rintro rfl
    have heq := h.only_first hi hj hb hx (Nat.le_refl _) (by omega)
    exact hji (Prod.mk.inj heq).1.symm
  · intro x hx
    rcases List.mem_cons.mp hx with rfl | hx
    · exact hi
    · exact h.held x hx
  · have hself : ((i, (s.buftab i).bpnext) :: s.held).filter (·.1 = i) =
        (i, (s.buftab i).bpnext) :: s.held.filter (·.1 = i) :=
      List.filter_cons_of_pos (decide_eq_true rfl)
    rw [hself, List.map_cons, if_neg (by nofun)]
    exact htake (nodup_buffers _) _ (update_self _ _ _) fun x _ hx => update_of_ne hx _ _

/-- A step is taken and keeps the invariant. -/
def Keeps (h₀ : Heap) (r : Except Fault (BpResult × BufferPools)) : Prop :=
  ∃ o s', r = .ok (o, s') ∧ ∃ free, BpInv h₀ s' none free

theorem keeps (h : BpInv h₀ s none free) {o : BpResult} : Keeps h₀ (.ok (o, s)) :=
  ⟨o, s, rfl, free, h⟩

/-- A step on the semaphore of a pool. -/
theorem set_sem {bpsem : Semaphore GetbufCall} (h : BpInv h₀ s none free)
    (hgrant : ∀ j, j ≠ i → (grant = some j ↔ (none : Option Nat) = some j))
    (hp : i < s.nbpools → PoolInv s.mem i { s.buftab i with bpsem := bpsem }
      (s.ready.filter (·.poolid = i)) (s.heldOf i) (free i) (if grant = some i then 1 else 0)) :
    BpInv h₀ { s with buftab := update s.buftab i { s.buftab i with bpsem := bpsem } } grant
      free := by
  rw [← update_eq_self i free]
  exact h.set ⟨rfl, rfl⟩ (fun _ _ _ _ _ => rfl) (fun _ _ => rfl) (fun _ _ => rfl) h.ready h.held
    hgrant hp

theorem getbuf_keeps (h : BpInv h₀ s none free) (pid : Nat) (poolid : Int) :
    Keeps h₀ (getbuf s pid poolid) := by
  unfold getbuf
  split
  · exact h.keeps
  · next hid =>
    have hi : poolid.toNat < s.nbpools := by omega
    have hp := h.pool _ hi
    dsimp only
    split
    · next hpos =>
      have hthrough := hp.wait_through (c := ⟨pid, poolid.toNat⟩) hpos
      have hwait := h.set_sem (fun j hji => (grant_elsewhere hji).symm) fun _ => by
        rw [if_pos rfl]
        exact hthrough
      obtain ⟨s', hok, free', hinv⟩ := hwait.take hi
      exact ⟨_, s', hok, free', hinv⟩
    · next hpos =>
      have hblock := hp.wait_block (c := ⟨pid, poolid.toNat⟩) hpos rfl
      have hwait := h.set_sem (fun _ _ => Iff.rfl) fun _ => by
        rw [if_neg (by nofun)]
        exact hblock
      exact keeps hwait

theorem resume_keeps (h : BpInv h₀ s none free) (call : GetbufCall) :
    Keeps h₀ (bpStep s (.resume call)) := by
  rw [bpStep]
  split
  · next hc =>
    have hi := h.ready call hc
    have hready : BpInv h₀ { s with ready := s.ready.erase call } (some call.poolid) free := by
      have hset : BpInv h₀ { s with
          mem := s.mem, buftab := update s.buftab call.poolid (s.buftab call.poolid),
          ready := s.ready.erase call, held := s.held } (some call.poolid)
          (update free call.poolid (free call.poolid)) := by
        refine h.set ⟨rfl, rfl⟩ (fun _ _ _ _ _ => rfl) (fun j hji => ?_) (fun _ _ => rfl)
          (fun c hc => h.ready c (List.mem_of_mem_erase hc)) h.held
          (fun j hji => (grant_elsewhere hji).symm) fun _ => ?_
        · have hnot : call ∉ s.ready.filter (·.poolid = j) := fun hmem =>
            hji (of_decide_eq_true (List.mem_filter.mp hmem).2).symm
          rw [← List.erase_filter, List.erase_of_not_mem hnot]
        · have hmem : call ∈ s.ready.filter (·.poolid = call.poolid) :=
            List.mem_filter.mpr ⟨hc, decide_eq_true rfl⟩
          rw [if_pos rfl, ← List.erase_filter]
          exact (h.pool _ hi).come_back hmem
      rwa [update_eq_self, update_eq_self] at hset
    obtain ⟨s', hok, free', hinv⟩ := hready.take hi
    exact ⟨_, s', hok, free', hinv⟩
  · exact h.keeps

/-- A buffer that is held is one of its pool, and its first word the id of the pool. -/
theorem held_spec (h : BpInv h₀ s grant free) (ha : (i, a) ∈ s.held) :
    i < s.nbpools ∧ a ∈ s.heldOf i ∧ a ∈ (s.buftab i).buffers ∧ s.mem a = i := by
  have hi := h.held _ ha
  have hmem : a ∈ s.heldOf i :=
    List.mem_map_of_mem (List.mem_filter.mpr ⟨ha, decide_eq_true rfl⟩)
  have hp := h.pool i hi
  exact ⟨hi, hmem, hp.buffers.mem_iff.mp (List.mem_append_right _ hmem), hp.ids a hmem⟩

theorem freebuf_keeps (hr : h₀.Ready) (h : BpInv h₀ s none free) (bufaddr : Nat) :
    Keeps h₀ (bpStep s (.free bufaddr)) := by
  rw [bpStep]
  split
  · next hheld =>
    obtain ⟨⟨i, a⟩, ha, rfl⟩ := hheld
    obtain ⟨hi, hmem, hbuf, hid⟩ := h.held_spec ha
    have hp := h.pool i hi
    unfold freebuf
    simp only [Nat.add_sub_cancel, hid]
    rw [if_neg (Nat.not_le.mpr hi)]
    have hsplit := (List.perm_cons_erase ha).filter (·.1 = i)
    have hself : ((i, a) :: s.held.erase (i, a)).filter (·.1 = i) =
        (i, a) :: (s.held.erase (i, a)).filter (·.1 = i) :=
      List.filter_cons_of_pos (decide_eq_true rfl)
    rw [hself] at hsplit
    have hreleased : ∀ c ∈ (s.buftab i).bpsem.signal.2, c.poolid = i := by
      intro c hc
      refine hp.waiting c ?_
      rw [← (s.buftab i).bpsem.signal_append_waiting]
      exact List.mem_append_left _ hc
    have hset : BpInv h₀ { s with
        mem := update s.mem a (s.buftab i).bpnext
        buftab := update s.buftab i
          { s.buftab i with bpnext := a, bpsem := (s.buftab i).bpsem.signal.1 }
        ready := s.ready ++ (s.buftab i).bpsem.signal.2
        held := s.held.erase (i, a) } none (update free i (a :: free i)) := by
      refine h.set ⟨rfl, rfl⟩ (fun j hj hji x hx => update_of_ne ?_ _ _) (fun j hji => ?_)
        (fun j hji => ?_) (fun c hc => ?_) (fun x hx => h.held x (List.mem_of_mem_erase hx))
        (fun _ _ => Iff.rfl) fun _ => ?_
      · rintro rfl
        have heq := h.only_first hi hj hbuf hx (Nat.le_refl _) (by omega)
        exact hji (Prod.mk.inj heq).1.symm
      · have hnone : (s.buftab i).bpsem.signal.2.filter (·.poolid = j) = [] :=
          List.filter_eq_nil_iff.mpr fun c hc heq =>
            hji ((of_decide_eq_true heq).symm.trans (hreleased c hc))
        rw [List.filter_append, hnone, List.append_nil]
      · have hnot : (i, a) ∉ s.held.filter (·.1 = j) := fun hmem =>
          hji (of_decide_eq_true (List.mem_filter.mp hmem).2).symm
        rw [← List.erase_filter, List.erase_of_not_mem hnot]
      · rcases List.mem_append.mp hc with hc | hc
        · exact h.ready c hc
        · exact (hreleased c hc).symm ▸ hi
      · have hall : (s.buftab i).bpsem.signal.2.filter (·.poolid = i) =
            (s.buftab i).bpsem.signal.2 :=
          List.filter_eq_self.mpr fun c hc => decide_eq_true (hreleased c hc)
        rw [List.filter_append, hall]
        exact hp.release (hsplit.map Prod.snd) (h.base_pos hr hi hbuf) (nodup_buffers _)
          (update_self _ _ _) fun x _ hx => update_of_ne hx _ _
    exact keeps hset
  · exact h.keeps

/-- A word that is written behind the first one of a buffer is not in the way. -/
theorem write_keeps (h : BpInv h₀ s none free) (bufaddr offset value : Nat) :
    Keeps h₀ (bpStep s (.write bufaddr offset value)) := by
  rw [bpStep]
  split
  · next hheld =>
    obtain ⟨⟨i, a⟩, ha, rfl, -, hle⟩ := hheld
    obtain ⟨hi, -, hbuf, -⟩ := h.held_spec ha
    have hle : offset + 4 ≤ (s.buftab i).bpsize := hle
    have hwrite : BpInv h₀ { s with mem := update s.mem (a + 4 + offset) value } none free := by
      refine { h with pool := fun j hj => (h.pool j hj).congr fun x hx => update_of_ne ?_ _ _ }
      rintro rfl
      have heq := h.only_first hi hj hbuf hx (by omega) (by omega)
      have := (Prod.mk.inj heq).2
      omega
    exact keeps hwrite
  · exact h.keeps

theorem heap_keeps (hr : h₀.Ready) (h : BpInv h₀ s none free) (call : HeapCall) :
    Keeps h₀ (bpStep s (.heap call)) := by
  rw [bpStep]
  split
  · next hspares =>
    cases hstep : s.use.step call with
    | error f => exact h.keeps
    | ok r =>
      obtain ⟨o, use⟩ := r
      have hlive : ∀ i, i < s.nbpools → (s.buftab i).block ∈ use.live := by
        refine fun i hi => mem_live_step hstep (h.block i hi) fun blkaddr n he => ?_
        subst he
        exact hspares i hi
      have huse : BpInv h₀ { s with use := use } none free :=
        ⟨⟨h.heap.step hr hstep, hlive, h.distinct⟩, h.pool, h.ready, h.held⟩
      exact keeps huse
  · exact h.keeps

/-- `mkbufpool` has got the memory of a pool. -/
theorem made {heap : Heap} {buf size numbufs : Nat} (hr : h₀.Ready) (h : BpInv h₀ s none free)
    (hheap : HeapInvariant h₀ ⟨heap, ⟨buf, numbufs * (size + 4)⟩ :: s.use.live⟩)
    (hnum : 1 ≤ numbufs) :
    BpInv h₀
      { s with
        use := ⟨heap, ⟨buf, numbufs * (size + 4)⟩ :: s.use.live⟩
        mem := mkbufpoolLoop (size + 4) (numbufs - 1) buf s.mem
        buftab := update s.buftab s.nbpools {
          bpnext := buf
          bpsem := .create numbufs
          bpsize := size
          base := buf
          numbufs := numbufs }
        nbpools := s.nbpools + 1 } none
      (update free s.nbpools ((List.range numbufs).map fun k => buf + k * (size + 4))) := by
  obtain ⟨rounds, rfl⟩ := Nat.exists_eq_add_of_le' hnum
  have hold : ∀ (bp : BpEntry) i, i < s.nbpools → update s.buftab s.nbpools bp i = s.buftab i :=
    fun bp i hi => update_of_ne (Nat.ne_of_lt hi) _ _
  have hblocks := h.toBpBlocks.concat ⟨buf, .create (rounds + 1), size, buf, rounds + 1⟩ hheap
    (mkbufpoolLoop (size + 4) rounds buf s.mem)
  refine ⟨hblocks, fun i hi => ?_, fun c hc => Nat.lt_succ_of_lt (h.ready c hc),
    fun x hx => Nat.lt_succ_of_lt (h.held x hx)⟩
  rcases Nat.lt_succ_iff_lt_or_eq.mp hi with hlt | rfl
  · show PoolInv _ i (update s.buftab s.nbpools _ i) _ _ (update free s.nbpools _ i) _
    rw [hold _ i hlt, update_of_ne (Nat.ne_of_lt hlt)]
    refine (h.pool i hlt).congr fun x hx => mkbufpoolLoop_of_not_mem fun k hk heq => ?_
    have hfirst : x ∈ (update s.buftab s.nbpools
        ⟨buf, .create (rounds + 1), size, buf, rounds + 1⟩ i).buffers := by
      rw [hold _ i hlt]
      exact hx
    have hlast : x ∈ (update s.buftab s.nbpools
        ⟨buf, .create (rounds + 1), size, buf, rounds + 1⟩ s.nbpools).buffers := by
      rw [update_self]
      exact mem_buffers.mpr ⟨k, Nat.lt_succ_of_le hk, heq⟩
    have hsame := hblocks.only_first hi (Nat.lt_succ_self _) hfirst hlast (Nat.le_refl _)
      (by omega)
    exact Nat.ne_of_lt hlt (Prod.mk.inj hsame).1
  · show PoolInv _ s.nbpools (update s.buftab s.nbpools _ s.nbpools) _ _
      (update free s.nbpools _ s.nbpools) _
    rw [update_self, update_self]
    have hcalls : s.ready.filter (·.poolid = s.nbpools) = [] :=
      List.filter_eq_nil_iff.mpr fun c hc heq =>
        Nat.ne_of_lt (h.ready c hc) (of_decide_eq_true heq)
    have hheld : s.held.filter (·.1 = s.nbpools) = [] :=
      List.filter_eq_nil_iff.mpr fun x hx heq => Nat.ne_of_lt (h.held x hx) (of_decide_eq_true heq)
    have hbuf : 0 < buf := by
      have hmin : h₀.minheap ≤ buf := (hheap.live_bounds hr List.mem_cons_self).1
      have hpos := hr.minheap_pos
      omega
    show PoolInv _ s.nbpools _ (s.ready.filter (·.poolid = s.nbpools))
      ((s.held.filter (·.1 = s.nbpools)).map Prod.snd) _ _
    rw [hcalls, hheld]
    refine ⟨mkbufpoolLoop_leads (Nat.succ_pos _) hbuf, ?_, fun a ha => absurd ha List.not_mem_nil,
      ?_, fun c hc => absurd hc List.not_mem_nil⟩
    · rw [List.map_nil, List.append_nil]
      exact .refl _
    · rw [List.length_map, List.length_range]
      rfl

theorem make_keeps (hr : h₀.Ready) (h : BpInv h₀ s none free) (bufsiz numbufs : Int) (sem : Bool) :
    Keeps h₀ (bpStep s (.make bufsiz numbufs sem)) := by
  rw [bpStep]
  unfold mkbufpool
  split
  · exact h.keeps
  · next hargs =>
    have hargs : ¬ (bufsiz < 8 ∨ bufsiz > 8192 ∨ numbufs < 1 ∨ numbufs > 2048 ∨
        s.nbpools ≥ nbPoolsMax) := hargs
    obtain ⟨size, hsize⟩ : ∃ size, (bufsiz.toNat + 3) / 4 * 4 = size := ⟨_, rfl⟩
    have hnum : 1 ≤ numbufs.toNat ∧ numbufs.toNat ≤ 2048 := by omega
    have hsize' : 8 ≤ size ∧ size ≤ 8192 := by omega
    have hn : 1 ≤ numbufs.toNat * (size + 4) ∧ numbufs.toNat * (size + 4) ≤ 2 ^ 32 - 8 := by
      have hlow := Nat.mul_le_mul hnum.1 (show 1 ≤ size + 4 by omega)
      have hhigh := Nat.mul_le_mul hnum.2 (show size + 4 ≤ 8196 by omega)
      omega
    have hheap := h.heap.getmem hr hn
    rw [hsize]
    dsimp only
    split
    · next heap hget =>
      rw [hget] at hheap
      have hsame : BpInv h₀ { s with use := { s.use with heap := heap } } none free :=
        ⟨⟨hheap, h.block, h.distinct⟩, h.pool, h.ready, h.held⟩
      exact keeps hsame
    · next buf heap hget =>
      rw [hget] at hheap
      have hheap : HeapInvariant h₀ ⟨heap, ⟨buf, numbufs.toNat * (size + 4)⟩ :: s.use.live⟩ := hheap
      split
      · exact keeps (h.made hr hheap hnum.1)
      · have hfreed := (hheap.freemem hr List.mem_cons_self rfl).2
        rw [List.erase_cons_head] at hfreed
        have hback : BpInv h₀ { s with
            use := { s.use with heap := (heap.freemem buf (numbufs.toNat * (size + 4))).2 } }
            none free := ⟨⟨hfreed, h.block, h.distinct⟩, h.pool, h.ready, h.held⟩
        exact keeps hback

theorem bpStep_keeps (hr : h₀.Ready) (h : BpInv h₀ s none free) (e : BpEvent) :
    Keeps h₀ (bpStep s e) := by
  cases e with
  | heap call => exact h.heap_keeps hr call
  | make bufsiz numbufs sem => exact h.make_keeps hr bufsiz numbufs sem
  | get pid poolid => exact h.getbuf_keeps pid poolid
  | resume call => exact h.resume_keeps call
  | free bufaddr => exact h.freebuf_keeps hr bufaddr
  | write bufaddr offset value => exact h.write_keeps bufaddr offset value

theorem kept (hr : h₀.Ready) (h : BpInv h₀ s none free) : PoolsKept s where
  pool i hi := by
    have hp := h.pool i hi
    refine ⟨free i, hp.linked, hp.buffers, ?_⟩
    have hcount := hp.count
    rw [if_neg (by nofun)] at hcount
    exact hcount
  apart _ _ _ _ hi hj ha hb hne := h.apart hi hj ha hb hne
  nodup i _ := nodup_buffers _
  never_empty e f hfault := by
    obtain ⟨o, s', hok, -⟩ := h.bpStep_keeps hr e
    exact absurd (hok.symm.trans hfault) nofun

end BpInv

/-- No pool shares or loses a buffer, whatever the order of the calls. -/
theorem pools_kept {h₀ : Heap} (hr : h₀.Ready) {mem : Nat → Nat} {tr : List (BpEvent × BpResult)}
    {s : BufferPools} (h : Run bpStep (.init h₀ mem) tr s) : PoolsKept s := by
  have hstart : BpInv h₀ (.init h₀ mem) none fun _ => [] :=
    ⟨⟨heapInvariant_start hr, fun i hi => absurd hi (Nat.not_lt_zero i),
      fun i _ hi => absurd hi (Nat.not_lt_zero i)⟩, fun i hi => absurd hi (Nat.not_lt_zero i),
      fun c hc => absurd hc List.not_mem_nil, fun x hx => absurd hx List.not_mem_nil⟩
  have hrun : ∃ free, BpInv h₀ s none free := by
    refine h.invariant (I := fun _ s => ∃ free, BpInv h₀ s none free) ⟨_, hstart⟩ ?_
    rintro tr s e o s' ⟨free, hinv⟩ hstep
    obtain ⟨o', s'', hok, hkept⟩ := hinv.bpStep_keeps hr e
    obtain ⟨rfl, rfl⟩ := Prod.mk.inj (Except.ok.inj (hok.symm.trans hstep))
    exact hkept
  obtain ⟨free, hinv⟩ := hrun
  exact hinv.kept hr

/-- A pool of one buffer, and a caller that waits for it. -/
theorem pools_kept_one_buffer :
    ∃ s, Run bpStep (.init twoBlocks fun _ => 0)
        [(.make 10 1 true, .made 0), (.get 1 0, .got 4100), (.get 2 0, .blocked ⟨2, 0⟩),
          (.free 4100, .ok), (.get 3 0, .blocked ⟨3, 0⟩), (.resume ⟨2, 0⟩, .got 4100)] s ∧
      PoolsKept s := by
  obtain ⟨os, s, hrun, -, hos⟩ := run_of_endsIn (show endsIn bpStep (.init twoBlocks fun _ => 0)
    [.make 10 1 true, .get 1 0, .get 2 0, .free 4100, .get 3 0, .resume ⟨2, 0⟩]
    (fun os _ => decide (os = [.made 0, .got 4100, .blocked ⟨2, 0⟩, .ok, .blocked ⟨3, 0⟩,
      .got 4100])) = true by decide +kernel)
  obtain rfl := of_decide_eq_true hos
  exact ⟨s, hrun, pools_kept twoBlocks_ready hrun⟩

end NatBox
