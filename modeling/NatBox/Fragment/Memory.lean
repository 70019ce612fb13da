import Mathlib.Algebra.BigOperators.Fin
import NatBox.ChecksumEnds
import NatBox.Fragment.FragList
import NatBox.Fragment.TableRuns
import NatBox.Memory.HeapRuns

/-
The memory that fragments take: where the nodes of the reassembly table stand in the heap.

An entry holds a sentinel, and a block for each node and for its payload.  Both ways out of the
table give all of them back.  `reassembly` also gets a `Datagram` for every fragment without the
M flag that finds its entry, and nobody frees it.

What `getmem` returns is used without a look at it, so that a run ends where the heap is
exhausted.  The pseudo-headers of the solicitations that `sendto` may send on the way are got
and given back by `sendipv6pkt` itself.
-/

namespace NatBox

open Function Runs

/-- `sizeof(struct frag_desc)` -/
def fragDescSize : Nat := 20

/-- `sizeof(struct Datagram)` -/
def datagramSize : Nat := 98308

/-- Where a run ends: in the table, with an address `SYSERR` that is written to, or by giving
back what is not held. -/
inductive MemoryFault
  | table (f : Fault)
  | exhausted
  | notHeld

namespace HeapUse

/-- `getmem` for a block that is written to. -/
def getBlock (m : HeapUse) (nbytes : Nat) : Except MemoryFault (Nat × HeapUse) :=
  match m.step (.getmem nbytes) with
  | .ok (.address addr, m') => .ok (addr, m')
  | _ => .error .exhausted

/-- `freemem` -/
def freeBlock (m : HeapUse) (blkaddr nbytes : Nat) : Except MemoryFault HeapUse :=
  match m.step (.freemem blkaddr nbytes) with
  | .ok (_, m') => .ok m'
  | .error _ => .error .notHeld

/-- `getmem` for the payload of a node.  `none` is `SYSERR`, which it returns for no bytes. -/
def getPayload (m : HeapUse) (nbytes : Nat) : Except MemoryFault (Option Nat × HeapUse) :=
  if nbytes = 0 then .ok (none, m) else (m.getBlock nbytes).map fun r => (some r.1, r.2)

/-- `freemem` for the payload of a node.  It refuses to take back no bytes. -/
def freePayload (m : HeapUse) (payload : Option Nat) (nbytes : Nat) :
    Except MemoryFault HeapUse :=
  match payload with
  | none => .ok m
  | some addr => m.freeBlock addr nbytes

end HeapUse

/-- A node, with the addresses of it and of its payload. -/
structure StoredNode where
  desc : FragDesc
  node : Nat
  payload : Option Nat

/-- A fragment list. -/
structure StoredList where
  sentinel : Nat
  nodes : List StoredNode

def StoredNode.Before (a b : StoredNode) : Prop := a.desc.Before b.desc

instance : DecidableRel StoredNode.Before := fun a b =>
  inferInstanceAs (Decidable (a.desc.Before b.desc))

/-- `insert_node`, which moves no node to another address. -/
def StoredList.insert (l : StoredList) (new : StoredNode) : StoredList :=
  { l with nodes := TailInsert.insert StoredNode.Before 3 l.nodes new }

/-- The table, its fragment lists as they stand in the heap, and the heap. -/
structure FragMemory where
  table : ReassemblyTable
  lists : Fin reassemblyTableMaxSize → Option StoredList
  memory : HeapUse

/-- What `processDatagram` reads beside the datagram. -/
structure AnswerArgs where
  cfg : Config
  nd : NDCache
  solicited : NDCache
  identif : UInt32
  mtu : UInt32
  heap : Mem
  pool : Ipv6BufPool

inductive MemoryEvent
  | arrive (clktime : UInt32) (block : Mem) (args : AnswerArgs) (pkt : NetPacket)
  | sweep (clktime : UInt32)

/-- The event as the table sees it. -/
def MemoryEvent.onTable : MemoryEvent → TableEvent
  | .arrive clktime block _ pkt => .arrive clktime block pkt
  | .sweep clktime => .sweep clktime

/-- The node that `insert_frag_list` makes. -/
def newNode (m : HeapUse) (pkt : NetPacket) : Except MemoryFault (StoredNode × HeapUse) := do
  let (node, m) ← m.getBlock fragDescSize
  let (payload, m) ← m.getPayload (fragDescOf pkt).payloadLen.toNat
  .ok (⟨fragDescOf pkt, node, payload⟩, m)

/-- The loop of `removeReaEntry`. -/
def freeNodes : List StoredNode → HeapUse → Except MemoryFault HeapUse
  | [], m => .ok m
  | node :: next, m => do
    let m ← m.freePayload node.payload node.desc.payloadLen.toNat
    let m ← m.freeBlock node.node fragDescSize
    freeNodes next m

def freeList (l : StoredList) (m : HeapUse) : Except MemoryFault HeapUse := do
  let m ← freeNodes l.nodes m
  m.freeBlock l.sentinel fragDescSize

/-- The blocks of `processDatagram`: the pseudo-header, and the `Datagram` of `sendto`, which
keeps it where it waits for a buffer. -/
def answerBlocks (d : Datagram)
    (answer : Option (List SentFragment × Option (Int × Ipv6BufPool))) (m : HeapUse) :
    Except MemoryFault HeapUse :=
  match answer with
  | none => .ok m
  | some (_, status) => do
    let pseudoSize := 40 + d.payloadLen.toNat
    let (pseudo, m) ← m.getBlock pseudoSize
    let m ← m.freeBlock pseudo pseudoSize
    let (datagram, m) ← m.getBlock datagramSize
    if status.isSome then m.freeBlock datagram datagramSize else .ok m

namespace FragMemory

/-- The table empty, and nothing got from the heap. -/
def init (heap : Heap) : FragMemory := ⟨ReassemblyTable.init, fun _ => none, ⟨heap, []⟩⟩

/-- `removeReaEntry` -/
def remove (s : FragMemory) (i : Fin reassemblyTableMaxSize) : Except MemoryFault FragMemory :=
  match s.lists i with
  | none => .ok { s with table := removeReaEntry s.table i }
  | some l => do
    let m ← freeList l s.memory
    .ok ⟨removeReaEntry s.table i, update s.lists i none, m⟩

/-- `appendReaTable` -/
def append (s : FragMemory) (clktime : UInt32) (pkt : NetPacket) :
    Except MemoryFault FragMemory :=
  match findHole s.table with
  | none => .ok s
  | some i => do
    let (sentinel, m) ← s.memory.getBlock fragDescSize
    let (node, m) ← newNode m pkt
    .ok ⟨appendReaTable s.table clktime pkt, update s.lists i (some ⟨sentinel, [node]⟩), m⟩

/-- `insert_frag_list` into an entry. -/
def insert (s : FragMemory) (i : Fin reassemblyTableMaxSize) (pkt : NetPacket) :
    Except MemoryFault FragMemory := do
  let (node, m) ← newNode s.memory pkt
  .ok ⟨insertFragList s.table i pkt, update s.lists i ((s.lists i).map (·.insert node)), m⟩

/-- What `reassembly` does with an entry without the M flag, up to the end of
`processDatagram`, or to where that waits. -/
def complete (s : FragMemory) (block : Mem) (args : AnswerArgs)
    (i : Fin reassemblyTableMaxSize) : Except MemoryFault (Option Datagram × FragMemory) := do
  let (_, m) ← s.memory.getBlock datagramSize
  match copyToDatagram (s.table.entry i) ((s.table.entry i).fragList.getD []) block with
  | .error f => .error (.table f)
  | .ok none => .ok (none, { s with memory := m })
  | .ok (some d) => do
    let s ← remove { s with memory := m } i
    match processDatagram args.cfg args.nd args.solicited args.identif args.mtu args.heap d
      args.pool with
    | .error f => .error (.table f)
    | .ok answer => do
      let m ← answerBlocks d answer s.memory
      .ok (some d, { s with memory := m })

/-- `reassembly` -/
def arrive (s : FragMemory) (clktime : UInt32) (block : Mem) (args : AnswerArgs)
    (pkt : NetPacket) : Except MemoryFault (Option Datagram × FragMemory) :=
  match checkReassemblyTable s.table pkt.ip.src pkt.ip.dest pkt.fragIdentif with
  | none =>
    if pkt.fragOffset &&& 0xFFFE ≠ 0 then .ok (none, s)
    else (s.append clktime pkt).map fun s => (none, s)
  | some i => do
    let s ← s.insert i pkt
    if isLastFragment pkt then s.complete block args i else .ok (none, s)

/-- The loop of `check_reassembly_time_out`. -/
def sweepLoop (clktime : UInt32) :
    List (Fin reassemblyTableMaxSize) → FragMemory → Except MemoryFault FragMemory
  | [], s => .ok s
  | i :: rest, s => do
    let s ← (if (s.table.entry i).timedOut clktime then s.remove i else .ok s)
    sweepLoop clktime rest s

def step (s : FragMemory) : MemoryEvent → Except MemoryFault (Option Datagram × FragMemory)
  | .arrive clktime block args pkt => s.arrive clktime block args pkt
  | .sweep clktime =>
    (sweepLoop clktime (List.finRange reassemblyTableMaxSize) s).map fun s => (none, s)

/-- The storage obtained and not given back, in bytes of the heap. -/
def storage (s : FragMemory) : Nat := (s.memory.live.map fun a => roundmb a.nbytes).sum

end FragMemory

/-! ## Blocks -/

/-- What is got from the heap, which is in order, are these blocks. -/
structure Holds (h₀ : Heap) (m : HeapUse) (blocks : Multiset Allocation) : Prop where
  heap : HeapInvariant h₀ m
  live : (m.live : Multiset Allocation) = blocks

def StoredNode.blocks (t : StoredNode) : Multiset Allocation :=
  ⟨t.node, fragDescSize⟩ ::ₘ t.payload.elim 0 fun addr => {⟨addr, t.desc.payloadLen.toNat⟩}

def nodeBlocks (nodes : List StoredNode) : Multiset Allocation :=
  (nodes.map StoredNode.blocks).sum

def StoredList.blocks (l : StoredList) : Multiset Allocation :=
  ⟨l.sentinel, fragDescSize⟩ ::ₘ nodeBlocks l.nodes

def listBlocks (l : Option StoredList) : Multiset Allocation := l.elim 0 StoredList.blocks

section Blocks

variable {h₀ : Heap} {m m' : HeapUse} {blocks : Multiset Allocation} {addr n : Nat}

theorem Holds.getBlock (h : Holds h₀ m blocks) (hr : h₀.Ready)
    (hget : m.getBlock n = .ok (addr, m')) : Holds h₀ m' (⟨addr, n⟩ ::ₘ blocks) := by
  rw [HeapUse.getBlock] at hget
  split at hget
  · next a m₁ hs =>
    obtain ⟨rfl, rfl⟩ := Prod.mk.inj (Except.ok.inj hget)
    refine ⟨h.heap.step hr hs, ?_⟩
    rw [HeapUse.step] at hs
    split at hs
    · rw [Except.ok.injEq] at hs
      unfold HeapUse.allocated at hs
      split at hs
      · cases (Prod.mk.inj hs).1
      · next b heap _ =>
        obtain ⟨hb, rfl⟩ := Prod.mk.inj hs
        obtain rfl := HeapResult.address.inj hb
        show ((⟨b, n⟩ :: m.live : List Allocation) : Multiset Allocation) = _
        rw [← Multiset.cons_coe, h.live]
    · cases hs
  · cases hget

theorem Holds.freeBlock (hr : h₀.Ready) (h : Holds h₀ m (⟨addr, n⟩ ::ₘ blocks)) :
    ∃ m', m.freeBlock addr n = .ok m' ∧ Holds h₀ m' blocks := by
  have hmem : ⟨addr, n⟩ ∈ m.live := by
    rw [← Multiset.mem_coe, h.live]
    exact Multiset.mem_cons_self _ _
  have hs := h.heap.step_freemem hr hmem
  refine ⟨⟨(m.heap.freemem addr n).2, m.live.erase ⟨addr, n⟩⟩, ?_, h.heap.step hr hs, ?_⟩
  · unfold HeapUse.freeBlock
    simp only [hs]
  · show ((m.live.erase ⟨addr, n⟩ : List Allocation) : Multiset Allocation) = blocks
    rw [← Multiset.coe_erase, h.live, Multiset.erase_cons_head]

theorem Holds.getPayload (h : Holds h₀ m blocks) (hr : h₀.Ready) {payload : Option Nat}
    (hget : m.getPayload n = .ok (payload, m')) :
    Holds h₀ m' ((payload.elim 0 fun addr => {⟨addr, n⟩}) + blocks) := by
  rw [HeapUse.getPayload] at hget
  split at hget
  · obtain ⟨rfl, rfl⟩ := Prod.mk.inj (Except.ok.inj hget)
    exact (zero_add blocks).symm ▸ h
  · obtain ⟨⟨a, m₁⟩, hblock, heq⟩ := map_ok hget
    obtain ⟨rfl, rfl⟩ := Prod.mk.inj heq
    exact h.getBlock hr hblock

theorem Holds.newNode (h : Holds h₀ m blocks) (hr : h₀.Ready) {pkt : NetPacket} {t : StoredNode}
    (hnew : newNode m pkt = .ok (t, m')) :
    t.desc = fragDescOf pkt ∧ Holds h₀ m' (t.blocks + blocks) := by
  obtain ⟨⟨node, m₁⟩, hnode, hnew⟩ := bind_ok hnew
  obtain ⟨⟨payload, m₂⟩, hpayload, hnew⟩ := bind_ok hnew
  obtain ⟨rfl, rfl⟩ := Prod.mk.inj (Except.ok.inj hnew)
  have hboth := (h.getBlock hr hnode).getPayload hr hpayload
  rw [Multiset.add_cons, ← Multiset.cons_add] at hboth
  exact ⟨rfl, hboth⟩

theorem Holds.freePayload (hr : h₀.Ready) {payload : Option Nat}
    (h : Holds h₀ m ((payload.elim 0 fun addr => {⟨addr, n⟩}) + blocks)) :
    ∃ m', m.freePayload payload n = .ok m' ∧ Holds h₀ m' blocks := by
  cases payload with
  | none => exact ⟨m, rfl, zero_add blocks ▸ h⟩
  | some addr => exact Holds.freeBlock hr h

theorem Holds.freeNodes (hr : h₀.Ready) {nodes : List StoredNode}
    (h : Holds h₀ m (nodeBlocks nodes + blocks)) :
    ∃ m', freeNodes nodes m = .ok m' ∧ Holds h₀ m' blocks := by
  induction nodes generalizing m with
  | nil => exact ⟨m, rfl, zero_add blocks ▸ h⟩
  | cons t nodes ih =>
    rw [nodeBlocks, List.map_cons, List.sum_cons, StoredNode.blocks, Multiset.cons_add,
      Multiset.cons_add, add_assoc, ← Multiset.add_cons] at h
    obtain ⟨m₁, hpayload, h₁⟩ := Holds.freePayload hr h
    obtain ⟨m₂, hnode, h₂⟩ := Holds.freeBlock hr h₁
    obtain ⟨m₃, hrest, h₃⟩ := ih h₂
    refine ⟨m₃, ?_, h₃⟩
    rw [NatBox.freeNodes, hpayload]
    show (do let m ← m₁.freeBlock t.node fragDescSize; NatBox.freeNodes nodes m) = _
    rw [hnode]
    exact hrest

theorem Holds.freeList (hr : h₀.Ready) {l : StoredList} (h : Holds h₀ m (l.blocks + blocks)) :
    ∃ m', freeList l m = .ok m' ∧ Holds h₀ m' blocks := by
  rw [StoredList.blocks, Multiset.cons_add, ← Multiset.add_cons] at h
  obtain ⟨m₁, hnodes, h₁⟩ := Holds.freeNodes hr h
  obtain ⟨m₂, hsentinel, h₂⟩ := Holds.freeBlock hr h₁
  refine ⟨m₂, ?_, h₂⟩
  rw [NatBox.freeList, hnodes]
  exact hsentinel

/-- `processDatagram` gives back what it gets, but for the `Datagram` of a `sendto` that
waits. -/
theorem Holds.answerBlocks (h : Holds h₀ m blocks) (hr : h₀.Ready) {d : Datagram}
    {answer : Option (List SentFragment × Option (Int × Ipv6BufPool))}
    (hans : answerBlocks d answer m = .ok m') :
    ∃ kept : Multiset Allocation, (∀ a ∈ kept, a.nbytes = datagramSize) ∧
      Holds h₀ m' (kept + blocks) := by
  rcases answer with _ | ⟨calls, status⟩
  · obtain rfl := Except.ok.inj hans
    exact ⟨0, fun a ha => absurd ha (Multiset.notMem_zero a), (zero_add blocks).symm ▸ h⟩
  · obtain ⟨⟨pseudo, m₁⟩, hpseudo, hans⟩ := bind_ok hans
    obtain ⟨m₂, hfree, hans⟩ := bind_ok hans
    obtain ⟨⟨datagram, m₃⟩, hdatagram, hans⟩ := bind_ok hans
    obtain ⟨m₂', hfree', h₂⟩ := Holds.freeBlock hr (h.getBlock hr hpseudo)
    obtain rfl := Except.ok.inj (hfree.symm.trans hfree')
    have h₃ := h₂.getBlock hr hdatagram
    cases status with
    | none =>
      obtain rfl := Except.ok.inj hans
      exact ⟨{⟨datagram, datagramSize⟩}, fun a ha => by rw [Multiset.mem_singleton.mp ha],
        (Multiset.singleton_add _ _).symm ▸ h₃⟩
    | some _ =>
      obtain ⟨m₄, hlast, h₄⟩ := Holds.freeBlock hr h₃
      obtain rfl := Except.ok.inj (hans.symm.trans hlast)
      exact ⟨0, fun a ha => absurd ha (Multiset.notMem_zero a), (zero_add blocks).symm ▸ h₄⟩

end Blocks

/-! ## Steps -/

/-- The blocks of all lists. -/
def heldBlocks (lists : Fin reassemblyTableMaxSize → Option StoredList) : Multiset Allocation :=
  ∑ i, listBlocks (lists i)

/-- What the heap has given out stands in the lists, the nodes of the entries, or is one of
`datagrams`. -/
structure Owned (h₀ : Heap) (s : FragMemory) (datagrams : Multiset Allocation) : Prop where
  holds : Holds h₀ s.memory (heldBlocks s.lists + datagrams)
  sizes : ∀ a ∈ datagrams, a.nbytes = datagramSize
  nodes : ∀ i, (s.lists i).map (fun l => l.nodes.map StoredNode.desc) = (s.table.entry i).fragList

/-- The arrival is of a fragment without the M flag, and its entry is found. -/
def getsDatagram (s : FragMemory) : MemoryEvent → Bool
  | .arrive _ _ _ pkt =>
    (checkReassemblyTable s.table pkt.ip.src pkt.ip.dest pkt.fragIdentif).isSome &&
      isLastFragment pkt
  | .sweep _ => false

section Steps

variable {h₀ : Heap} {s s' : FragMemory} {datagrams : Multiset Allocation}
  {i : Fin reassemblyTableMaxSize} {pkt : NetPacket}

/-- A list apart from the others. -/
theorem heldBlocks_update (lists : Fin reassemblyTableMaxSize → Option StoredList)
    (i : Fin reassemblyTableMaxSize) : ∃ others, heldBlocks lists = listBlocks (lists i) + others ∧
      ∀ l, heldBlocks (update lists i l) = listBlocks l + others := by
  refine ⟨∑ j ∈ Finset.univ.erase i, listBlocks (lists j),
    (Finset.add_sum_erase _ _ (Finset.mem_univ i)).symm, fun l => ?_⟩
  rw [heldBlocks, ← Finset.add_sum_erase _ _ (Finset.mem_univ i), update_self]
  congr 1
  refine Finset.sum_congr rfl fun j hj => ?_
  rw [update_of_ne (Finset.ne_of_mem_erase hj)]

theorem map_insert_desc (l : StoredList) (t : StoredNode) :
    (l.insert t).nodes.map StoredNode.desc = insertNode (l.nodes.map StoredNode.desc) t.desc := by
  have hmap :
      TailInsert.insertLoop FragDesc.Before 3 t.desc 0 (l.nodes.reverse.map StoredNode.desc) =
      (TailInsert.insertLoop StoredNode.Before 3 t 0 l.nodes.reverse).map StoredNode.desc :=
    TailInsert.insertLoop_map (fun _ _ => Iff.rfl) t l.nodes.reverse 0
  rw [insertNode_eq]
  show (TailInsert.insert _ 3 l.nodes t).map _ = _
  unfold TailInsert.insert
  rw [List.map_reverse, ← hmap, List.map_reverse]

theorem blocks_insert (l : StoredList) (t : StoredNode) :
    (l.insert t).blocks = t.blocks + l.blocks := by
  have hperm : ((l.insert t).nodes.map StoredNode.blocks).Perm
      ((t :: l.nodes).map StoredNode.blocks) := (TailInsert.insert_perm l.nodes t).map _
  unfold StoredList.blocks nodeBlocks
  rw [hperm.sum_eq, List.map_cons, List.sum_cons, Multiset.add_cons]
  rfl

/-- A freed or new list leaves the nodes of the other entries alone. -/
theorem nodes_update {lists : Fin reassemblyTableMaxSize → Option StoredList}
    {st st' : ReassemblyTable}
    (h : ∀ j, (lists j).map (fun l => l.nodes.map StoredNode.desc) = (st.entry j).fragList)
    {l : Option StoredList}
    (hl : l.map (fun l => l.nodes.map StoredNode.desc) = (st'.entry i).fragList)
    (hother : ∀ j, j ≠ i → st'.entry j = st.entry j) (j : Fin reassemblyTableMaxSize) :
    (update lists i l j).map (fun l => l.nodes.map StoredNode.desc) = (st'.entry j).fragList := by
  by_cases hj : j = i
  · subst hj
    rw [update_self, hl]
  · rw [update_of_ne hj, h j, hother j hj]

theorem Owned.remove (h : Owned h₀ s datagrams) (hr : h₀.Ready)
    (i : Fin reassemblyTableMaxSize) : ∃ s', s.remove i = .ok s' ∧
      s'.table = removeReaEntry s.table i ∧ Owned h₀ s' datagrams := by
  have hself : ((removeReaEntry s.table i).entry i).fragList = none := by
    rw [entry_removeReaEntry_self]
    rfl
  have hother : ∀ j, j ≠ i → (removeReaEntry s.table i).entry j = s.table.entry j := fun j hj =>
    entry_removeReaEntry_ne s.table hj
  have hnodes := nodes_update h.nodes (i := i) (l := none) hself.symm hother
  cases hl : s.lists i with
  | none =>
    refine ⟨{ s with table := removeReaEntry s.table i }, ?_, rfl, h.holds, h.sizes, ?_⟩
    · rw [FragMemory.remove, hl]
    · rwa [← hl, update_eq_self] at hnodes
  | some l =>
    obtain ⟨others, heq, hupd⟩ := heldBlocks_update s.lists i
    have hholds := h.holds
    rw [heq, hl, add_assoc] at hholds
    obtain ⟨m, hfree, hm⟩ := Holds.freeList hr hholds
    refine ⟨⟨removeReaEntry s.table i, update s.lists i none, m⟩, ?_, rfl, ?_, h.sizes, hnodes⟩
    · rw [FragMemory.remove, hl]
      show (do let m ← freeList l s.memory; _) = _
      rw [hfree]
      rfl
    · show Holds h₀ m (heldBlocks (update s.lists i none) + datagrams)
      rw [hupd]
      exact (zero_add others).symm ▸ hm

theorem Owned.insert (h : Owned h₀ s datagrams) (hr : h₀.Ready)
    (hs : s.insert i pkt = .ok s') (hlive : (s.table.entry i).isLive = true) :
    s'.table = insertFragList s.table i pkt ∧ Owned h₀ s' datagrams := by
  obtain ⟨⟨t, m⟩, hnew, hs⟩ := bind_ok hs
  obtain rfl := Except.ok.inj hs
  obtain ⟨hdesc, hm⟩ := h.holds.newNode hr hnew
  have hself : ((insertFragList s.table i pkt).entry i).fragList =
      (s.table.entry i).fragList.map fun nodes => insertNode nodes (fragDescOf pkt) := by
    rw [insertFragList, ReassemblyTable.entry_setEntry_self]
  refine ⟨rfl, ?_, h.sizes, nodes_update h.nodes ?_ fun j hj =>
    ReassemblyTable.entry_setEntry_ne _ _ _ hj⟩
  · show Holds h₀ m (heldBlocks (update s.lists i ((s.lists i).map (·.insert t))) + datagrams)
    obtain ⟨others, heq, hupd⟩ := heldBlocks_update s.lists i
    rw [heq] at hm
    rw [hupd]
    cases hl : s.lists i with
    | none =>
      have hnone := h.nodes i
      rw [hl] at hnone
      rw [ReassemblyEntry.isLive, ← hnone] at hlive
      cases hlive
    | some l =>
      rw [hl] at hm
      show Holds h₀ m ((l.insert t).blocks + others + datagrams)
      rw [blocks_insert, add_assoc, add_assoc, ← add_assoc l.blocks]
      exact hm
  · rw [hself, ← h.nodes i, Option.map_map, Option.map_map]
    congr 1
    funext l
    show (l.insert t).nodes.map StoredNode.desc = _
    rw [map_insert_desc, hdesc]
    rfl

theorem Owned.append (h : Owned h₀ s datagrams) (hr : h₀.Ready) {clktime : UInt32}
    (hs : s.append clktime pkt = .ok s') :
    s'.table = appendReaTable s.table clktime pkt ∧ Owned h₀ s' datagrams := by
  rw [FragMemory.append] at hs
  split at hs
  · next hhole =>
    obtain rfl := Except.ok.inj hs
    exact ⟨by rw [appendReaTable, hhole], h⟩
  · next i hhole =>
    obtain ⟨⟨sentinel, m₁⟩, hsentinel, hs⟩ := bind_ok hs
    obtain ⟨⟨t, m₂⟩, hnew, hs⟩ := bind_ok hs
    obtain rfl := Except.ok.inj hs
    obtain ⟨hdesc, hm⟩ := (h.holds.getBlock hr hsentinel).newNode hr hnew
    refine ⟨rfl, ?_, h.sizes, nodes_update h.nodes ?_ fun j hj => ?_⟩
    · show Holds h₀ m₂ (heldBlocks (update s.lists i (some ⟨sentinel, [t]⟩)) + datagrams)
      obtain ⟨others, heq, hupd⟩ := heldBlocks_update s.lists i
      have hfree := h.nodes i
      have hdead := (findHole_some hhole).1
      rw [ReassemblyEntry.isLive, ← hfree, Option.isSome_map] at hdead
      have hnone : s.lists i = none := by simpa using hdead
      rw [heq, hnone] at hm
      rw [hupd]
      show Holds h₀ m₂ (⟨sentinel, fragDescSize⟩ ::ₘ ([t].map StoredNode.blocks).sum + others +
        datagrams)
      rw [List.map_singleton, List.sum_singleton, Multiset.cons_add, Multiset.cons_add, add_assoc,
        ← Multiset.add_cons]
      exact (zero_add others) ▸ hm
    · rw [entry_appendReaTable hhole, if_pos rfl]
      show some [t.desc] = some (insertNode [] (fragDescOf pkt))
      rw [hdesc]
      rfl
    · rw [entry_appendReaTable hhole, if_neg hj]

theorem Owned.complete (h : Owned h₀ s datagrams) (hr : h₀.Ready) {block : Mem}
    {args : AnswerArgs} {o : Option Datagram} (hs : s.complete block args i = .ok (o, s')) :
    ∃ got, got ≠ 0 ∧ Owned h₀ s' (got + datagrams) ∧
      ∃ od, copyToDatagram (s.table.entry i) ((s.table.entry i).fragList.getD []) block = .ok od ∧
        o = od ∧ s'.table = if od.isSome then removeReaEntry s.table i else s.table := by
  obtain ⟨⟨addr, m₁⟩, hblock, hs⟩ := bind_ok hs
  have hgot : Owned h₀ { s with memory := m₁ } (⟨addr, datagramSize⟩ ::ₘ datagrams) := by
    refine ⟨?_, fun a ha => ?_, h.nodes⟩
    · rw [Multiset.add_cons]
      exact h.holds.getBlock hr hblock
    · rcases Multiset.mem_cons.mp ha with rfl | ha
      · rfl
      · exact h.sizes a ha
  dsimp only at hs
  split at hs
  · cases hs
  · next hcopy =>
    obtain ⟨rfl, rfl⟩ := Prod.mk.inj (Except.ok.inj hs)
    exact ⟨{⟨addr, datagramSize⟩}, Multiset.singleton_ne_zero _,
      (Multiset.singleton_add _ _).symm ▸ hgot, none, hcopy, rfl, rfl⟩
  · next d hcopy =>
    obtain ⟨s₁, hremove, hs⟩ := bind_ok hs
    obtain ⟨s₂, hremove', htable, howned⟩ := hgot.remove hr i
    obtain rfl := Except.ok.inj (hremove.symm.trans hremove')
    split at hs
    · cases hs
    · obtain ⟨m₂, hans, hs⟩ := bind_ok hs
      obtain ⟨rfl, rfl⟩ := Prod.mk.inj (Except.ok.inj hs)
      obtain ⟨kept, hsizes, hholds⟩ := howned.holds.answerBlocks hr hans
      refine ⟨⟨addr, datagramSize⟩ ::ₘ kept, Multiset.cons_ne_zero, ⟨?_, ?_, howned.nodes⟩,
        some d, hcopy, rfl, htable⟩
      · rw [Multiset.cons_add, ← Multiset.add_cons, add_left_comm]
        exact hholds
      · intro a ha
        rw [Multiset.cons_add, ← Multiset.add_cons] at ha
        rcases Multiset.mem_add.mp ha with ha | ha
        · exact hsizes a ha
        · exact howned.sizes a ha

theorem Owned.sweepLoop (hr : h₀.Ready) {clktime : UInt32}
    {l : List (Fin reassemblyTableMaxSize)} (h : Owned h₀ s datagrams)
    (hs : FragMemory.sweepLoop clktime l s = .ok s') :
    Owned h₀ s' datagrams ∧ s'.table = l.foldl (fun st i =>
      if (st.entry i).timedOut clktime then removeReaEntry st i else st) s.table := by
  induction l generalizing s with
  | nil =>
    obtain rfl := Except.ok.inj hs
    exact ⟨h, rfl⟩
  | cons i l ih =>
    rw [FragMemory.sweepLoop] at hs
    obtain ⟨s₁, hone, hs⟩ := bind_ok hs
    rw [List.foldl_cons]
    split at hone
    · next htimed =>
      obtain ⟨s₂, hremove, htable, howned⟩ := h.remove hr i
      obtain rfl := Except.ok.inj (hone.symm.trans hremove)
      rw [if_pos htimed, ← htable]
      exact ih howned hs
    · next htimed =>
      obtain rfl := Except.ok.inj hone
      rw [if_neg htimed]
      exact ih h hs

/-- A step does to the table what the table's own step does, and more datagrams are got from the
heap exactly by a fragment that `getsDatagram`. -/
theorem Owned.step (h : Owned h₀ s datagrams) (hr : h₀.Ready) {e : MemoryEvent}
    {o : Option Datagram} (hs : s.step e = .ok (o, s')) :
    tableStep s.table e.onTable = .ok (o, s'.table) ∧
      ((getsDatagram s e = false ∧ Owned h₀ s' datagrams) ∨
        (getsDatagram s e = true ∧ ∃ got, got ≠ 0 ∧ Owned h₀ s' (got + datagrams))) := by
  cases e with
  | sweep clktime =>
    obtain ⟨s₁, hloop, heq⟩ := map_ok hs
    obtain ⟨rfl, rfl⟩ := Prod.mk.inj heq
    obtain ⟨howned, htable⟩ := h.sweepLoop hr hloop
    refine ⟨?_, .inl ⟨rfl, howned⟩⟩
    rw [htable]
    rfl
  | arrive clktime block args pkt =>
    change s.arrive clktime block args pkt = _ at hs
    rw [FragMemory.arrive] at hs
    rw [MemoryEvent.onTable, tableStep, reassembly, getsDatagram]
    cases hc : checkReassemblyTable s.table pkt.ip.src pkt.ip.dest pkt.fragIdentif with
    | none =>
      rw [hc] at hs
      dsimp only at hs ⊢
      split at hs
      · next hoff =>
        obtain ⟨rfl, rfl⟩ := Prod.mk.inj (Except.ok.inj hs)
        rw [if_pos hoff]
        exact ⟨rfl, .inl ⟨rfl, h⟩⟩
      · next hoff =>
        obtain ⟨s₁, happend, heq⟩ := map_ok hs
        obtain ⟨rfl, rfl⟩ := Prod.mk.inj heq
        obtain ⟨htable, howned⟩ := h.append hr happend
        rw [if_neg hoff, htable]
        exact ⟨rfl, .inl ⟨rfl, howned⟩⟩
    | some i =>
      rw [hc] at hs
      obtain ⟨s₁, hinsert, hs⟩ := bind_ok hs
      obtain ⟨htable, howned⟩ := h.insert hr hinsert (checkReassemblyTable_some hc).2.1
      dsimp only
      rw [Option.isSome_some, Bool.true_and]
      cases hlast : isLastFragment pkt with
      | false =>
        rw [hlast, if_neg Bool.false_ne_true] at hs
        obtain ⟨rfl, rfl⟩ := Prod.mk.inj (Except.ok.inj hs)
        rw [if_neg Bool.false_ne_true, htable]
        exact ⟨rfl, .inl ⟨rfl, howned⟩⟩
      | true =>
        rw [hlast, if_pos rfl] at hs
        obtain ⟨got, hne, howned', od, hcopy, rfl, htable'⟩ := howned.complete hr hs
        rw [htable] at hcopy htable'
        rw [if_pos rfl, hcopy, htable']
        refine ⟨?_, .inr ⟨rfl, got, hne, howned'⟩⟩
        cases o <;> rfl

theorem owned_init (hr : h₀.Ready) : Owned h₀ (FragMemory.init h₀) 0 := by
  have hfree : ∀ i, (ReassemblyTable.init.entry i).fragList = none := by decide
  refine ⟨⟨heapInvariant_start hr, ?_⟩, fun a ha => absurd ha (Multiset.notMem_zero a), fun i => ?_⟩
  · show ((([] : List Allocation)) : Multiset Allocation) = ∑ _, (0 : Multiset Allocation) + 0
    rw [Finset.sum_const_zero, add_zero]
    rfl
  · exact (hfree i).symm

end Steps

/-! ## Runs -/

section Runs

variable {heap : Heap} {s : FragMemory} {datagrams : Multiset Allocation}
  {tr : List (MemoryEvent × Option Datagram)}

/-- With no entry left what is not given back are the datagrams. -/
theorem Owned.storage (h : Owned heap s datagrams)
    (hend : ∀ i, (s.table.entry i).isLive = false) :
    s.storage = Multiset.card datagrams * 98312 := by
  have hheld : heldBlocks s.lists = 0 := by
    refine Finset.sum_eq_zero fun i _ => ?_
    have hdead := hend i
    rw [ReassemblyEntry.isLive, ← h.nodes i, Option.isSome_map] at hdead
    have hnone : s.lists i = none := by simpa using hdead
    rw [hnone]
    rfl
  have hlive := h.holds.live
  rw [hheld, zero_add] at hlive
  have hsum : s.storage = (datagrams.map fun a => roundmb a.nbytes).sum := by
    rw [← hlive, Multiset.map_coe, Multiset.sum_coe]
    rfl
  have hsize : datagrams.map (fun a => roundmb a.nbytes) =
      Multiset.replicate (Multiset.card datagrams) 98312 := by
    refine Multiset.eq_replicate.mpr ⟨Multiset.card_map _ _, fun n hn => ?_⟩
    obtain ⟨a, ha, rfl⟩ := Multiset.mem_map.mp hn
    rw [h.sizes a ha]
    decide
  rw [hsum, hsize, Multiset.sum_replicate, smul_eq_mul]

theorem owned_of_run (hr : heap.Ready) (h : Run FragMemory.step (FragMemory.init heap) tr s) :
    ∃ datagrams, Owned heap s datagrams ∧ (datagrams = 0 ↔
      AllSteps FragMemory.step (FragMemory.init heap) (fun s e _ => getsDatagram s e = false)
        tr) := by
  induction h with
  | start => exact ⟨0, owned_init hr, iff_of_true rfl allSteps_nil⟩
  | next hrun hs ih =>
    obtain ⟨datagrams, howned, hall⟩ := ih
    rw [allSteps_concat_iff hrun hs, ← hall]
    obtain ⟨-, ⟨hnone, howned'⟩ | ⟨hget, got, hne, howned'⟩⟩ := howned.step hr hs
    · exact ⟨datagrams, howned', (and_iff_left hnone).symm⟩
    · refine ⟨got + datagrams, howned', iff_of_false (fun hzero => ?_) fun h => ?_⟩
      · have hcard := congrArg Multiset.card hzero
        rw [Multiset.card_add, Multiset.card_zero] at hcard
        exact hne (Multiset.card_eq_zero.mp (Nat.eq_zero_of_add_eq_zero_right hcard))
      · rw [hget] at h
        exact Bool.noConfusion h.2

/-- The table of a run is that of a run of the table alone. -/
theorem run_table (hr : heap.Ready) (h : Run FragMemory.step (FragMemory.init heap) tr s) :
    Run tableStep ReassemblyTable.init (tr.map fun r => (r.1.onTable, r.2)) s.table := by
  induction h with
  | start => exact .start
  | next hrun hs ih =>
    obtain ⟨datagrams, howned, -⟩ := owned_of_run hr hrun
    rw [List.map_append]
    exact .next ih (howned.step hr hs).1

/-- A run that ends with no entry has given back all that it got exactly if every fragment
without the M flag came when its entry was not found. -/
theorem reassembly_returns_iff (hr : heap.Ready)
    (h : Run FragMemory.step (FragMemory.init heap) tr s)
    (hend : ∀ i, (s.table.entry i).isLive = false) :
    s.storage = 0 ↔ AllSteps FragMemory.step (FragMemory.init heap)
      (fun s e _ => getsDatagram s e = false) tr := by
  obtain ⟨datagrams, howned, hall⟩ := owned_of_run hr h
  rw [howned.storage hend, ← hall, Nat.mul_eq_zero, or_iff_left (by decide), Multiset.card_eq_zero]

end Runs

/-- A heap of one block of 1 MB. -/
def oneMegabyte : Heap := ⟨[⟨0x100000, 0x100000⟩], 0x100000, 0x100000, 0x200000⟩

theorem oneMegabyte_ready : oneMegabyte.Ready where
  minheap_pos := by decide
  aligned := by decide
  separated :=
    { pos := by decide
      sorted := by decide }
  low := by decide
  high := by decide
  mlength := by decide

def exampleArgs : AnswerArgs :=
  ⟨exampleConfig, Box.init.nd, Box.init.nd, 0, 1500, fun _ => 0, ipv6bufpool⟩

/-- The state is one without entries. -/
def noEntries (s : FragMemory) : Bool :=
  decide (∀ i, (s.table.entry i).isLive = false)

/-- The first fragment of a datagram, which then times out. -/
theorem reassembly_returns_timed_out : ∃ os s, Run FragMemory.step (FragMemory.init oneMegabyte)
    ([.arrive 1 (fun _ => 0) exampleArgs (exampleFragment 1 0x01), .sweep 16].zip os) s ∧
      s.storage = 0 := by
  obtain ⟨os, s, hrun, hevents, hcheck⟩ := run_of_endsIn (show endsIn FragMemory.step
    (FragMemory.init oneMegabyte)
    [.arrive 1 (fun _ => 0) exampleArgs (exampleFragment 1 0x01), .sweep 16]
    (fun _ s => noEntries s) = true by decide +kernel)
  have hpass : stepsPass FragMemory.step (fun s e => !getsDatagram s e)
      (FragMemory.init oneMegabyte)
      [.arrive 1 (fun _ => 0) exampleArgs (exampleFragment 1 0x01), .sweep 16] = true := by
    decide +kernel
  refine ⟨os, s, hrun,
    (reassembly_returns_iff oneMegabyte_ready hrun (of_decide_eq_true hcheck)).mpr
      (allSteps_of_stepsPass (by rw [hevents]; exact hpass) fun s e he => ?_)⟩
  simpa using he

/-- A datagram of two fragments is delivered, and its 98312 bytes stay. -/
theorem reassembly_keeps_datagram : ¬ ∀ tr s,
    Run FragMemory.step (FragMemory.init oneMegabyte) tr s →
      (∀ i, (s.table.entry i).isLive = false) → s.storage = 0 := by
  intro h
  obtain ⟨os, s, hrun, -, hcheck⟩ := run_of_endsIn (show endsIn FragMemory.step
    (FragMemory.init oneMegabyte)
    [.arrive 1 (fun _ => 0) exampleArgs (exampleFragment 1 0x01),
      .arrive 1 (fun _ => 0) exampleArgs (exampleFragment 1 0x08)]
    (fun _ s => noEntries s && s.storage == 98312) = true by decide +kernel)
  rw [Bool.and_eq_true, beq_iff_eq] at hcheck
  have hzero := h _ s hrun (of_decide_eq_true hcheck.1)
  omega

end NatBox
