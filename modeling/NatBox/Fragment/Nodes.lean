import NatBox.Fragment.FragList
import NatBox.Fragment.TableRuns
import NatBox.Lib.Links

/-
The nodes of a fragment list in memory: `insert_node` with its pointers.

The list is a ring of nodes around a sentinel, which is the one without a payload.
`insertNode_ring` says that `insert_node` links the new node into the ring, at the place
where the list model of the other modules has it (`insertNode_refines`), and
`insertArrivals_refines` that this holds of all the fragments of an entry, from
`initialize_frag_list` on.  The search from the tail gives up after three nodes, and
`insertNode_sorted_iff` says when that leaves the ring in order.
-/

namespace NatBox

open Function Links

/-- `struct frag_desc`, with addresses for pointers. -/
structure FragNode where
  offset : UInt16
  payload : Nat
  payloadLen : UInt16
  prev : Nat
  next : Nat

/-- `NULL` -/
abbrev nullPtr : Nat := 0

/-- The nodes at their addresses. -/
abbrev FragHeap := Nat → FragNode

inductive FragFault
  | nullPointer
  deriving DecidableEq

namespace FragHeap

def next (heap : FragHeap) (p : Nat) : Nat := (heap p).next

def prev (heap : FragHeap) (p : Nat) : Nat := (heap p).prev

def setNext (heap : FragHeap) (p q : Nat) : FragHeap := update heap p { heap p with next := q }

def setPrev (heap : FragHeap) (p q : Nat) : FragHeap := update heap p { heap p with prev := q }

/-- `initialize_frag_list`, with the address that `getmem` has returned. -/
def initializeFragList (heap : FragHeap) (fragList : Nat) : FragHeap :=
  update heap fragList { heap fragList with payload := nullPtr, prev := nullPtr, next := nullPtr }

/-- The search of `insert_node` with `left` of its three rounds to go. -/
def findTail (heap : FragHeap) (newNode : Nat) : Nat → Nat → Nat
  | 0, tail => tail
  | left + 1, tail =>
    if tail = nullPtr ∨ (heap tail).payload = nullPtr then tail
    else if (heap tail).offset.toNat + (heap tail).payloadLen.toNat ≤
        (heap newNode).offset.toNat then tail
    else if (heap newNode).offset < (heap tail).offset then
      findTail heap newNode left (heap tail).prev
    else tail

/-- The new node is linked in behind `tail`. -/
def linkBehind (heap : FragHeap) (tail newNode : Nat) : Except FragFault FragHeap :=
  if (heap tail).next = nullPtr then .error .nullPointer
  else
    let heap := heap.setPrev newNode tail
    let heap := heap.setNext newNode (heap tail).next
    let heap := heap.setPrev (heap tail).next newNode
    .ok (heap.setNext tail newNode)

/-- The new node is the only one. -/
def linkFirst (heap : FragHeap) (fragList newNode : Nat) : FragHeap :=
  let heap := heap.setPrev newNode fragList
  let heap := heap.setNext newNode fragList
  let heap := heap.setPrev fragList newNode
  heap.setNext fragList newNode

/-- `insert_node`.  The node is linked in in the same way where the loop returns and where it
is left. -/
def insertNode (heap : FragHeap) (fragList newNode : Nat) : Except FragFault FragHeap :=
  let tail := heap.findTail newNode 3 (heap fragList).prev
  if tail = nullPtr then .ok (heap.linkFirst fragList newNode)
  else heap.linkBehind tail newNode

/-! ## Writing links -/

variable {heap heap' : FragHeap} {fragList newNode tail p q : Nat} {nodes l₁ l₂ : List Nat}

theorem next_setNext : (heap.setNext p q).next = update heap.next p q := by
  funext x
  by_cases hx : x = p
  · rw [next, setNext, hx, update_self, update_self]
  · rw [next, setNext, update_of_ne hx, update_of_ne hx]
    rfl

theorem prev_setNext : (heap.setNext p q).prev = heap.prev := by
  funext x
  by_cases hx : x = p
  · rw [prev, setNext, hx, update_self]
    rfl
  · rw [prev, setNext, update_of_ne hx]
    rfl

theorem prev_setPrev : (heap.setPrev p q).prev = update heap.prev p q := by
  funext x
  by_cases hx : x = p
  · rw [prev, setPrev, hx, update_self, update_self]
  · rw [prev, setPrev, update_of_ne hx, update_of_ne hx]
    rfl

theorem next_setPrev : (heap.setPrev p q).next = heap.next := by
  funext x
  by_cases hx : x = p
  · rw [next, setPrev, hx, update_self]
    rfl
  · rw [next, setPrev, update_of_ne hx]
    rfl

/-- The nodes differ in their links only. -/
def SameNodes (heap heap' : FragHeap) : Prop :=
  ∀ x, (heap' x).offset = (heap x).offset ∧ (heap' x).payload = (heap x).payload ∧
    (heap' x).payloadLen = (heap x).payloadLen

theorem SameNodes.trans {heap'' : FragHeap} (h : SameNodes heap heap')
    (h' : SameNodes heap' heap'') : SameNodes heap heap'' := fun x =>
  ⟨(h' x).1.trans (h x).1, (h' x).2.1.trans (h x).2.1, (h' x).2.2.trans (h x).2.2⟩

theorem sameNodes_setNext : SameNodes heap (heap.setNext p q) := by
  intro x
  by_cases hx : x = p
  · rw [setNext, hx, update_self]
    exact ⟨rfl, rfl, rfl⟩
  · rw [setNext, update_of_ne hx]
    exact ⟨rfl, rfl, rfl⟩

theorem sameNodes_setPrev : SameNodes heap (heap.setPrev p q) := by
  intro x
  by_cases hx : x = p
  · rw [setPrev, hx, update_self]
    exact ⟨rfl, rfl, rfl⟩
  · rw [setPrev, update_of_ne hx]
    exact ⟨rfl, rfl, rfl⟩

/-! ## Lists -/

/-- The nodes form a circular list around the sentinel. -/
structure FragRing (heap : FragHeap) (fragList : Nat) (nodes : List Nat) : Prop where
  nodup : (fragList :: nodes).Nodup
  nonnull : nullPtr ∉ fragList :: nodes
  sentinel : (heap fragList).payload = nullPtr
  payloads : ∀ p ∈ nodes, (heap p).payload ≠ nullPtr
  ring : LinkedRing heap.next heap.prev fragList nodes

/-- A list, circular or as `initialize_frag_list` leaves it. -/
inductive IsFragList (heap : FragHeap) (fragList : Nat) : List Nat → Prop
  | fresh : fragList ≠ nullPtr → (heap fragList).payload = nullPtr →
      (heap fragList).prev = nullPtr → (heap fragList).next = nullPtr → IsFragList heap fragList []
  | circular {nodes : List Nat} : FragRing heap fragList nodes → IsFragList heap fragList nodes

theorem isFragList_initialize (h : fragList ≠ nullPtr) :
    IsFragList (heap.initializeFragList fragList) fragList [] := by
  have hself : heap.initializeFragList fragList fragList =
      { heap fragList with payload := nullPtr, prev := nullPtr, next := nullPtr } :=
    update_self _ _ _
  refine .fresh h ?_ ?_ ?_
  · rw [hself]
  · rw [hself]
  · rw [hself]

/-- A new node comes into the ring. -/
theorem FragRing.grow (h : FragRing heap fragList (l₁ ++ l₂))
    (hnew : newNode ∉ fragList :: (l₁ ++ l₂)) (hnull : newNode ≠ nullPtr)
    (hpayload : (heap newNode).payload ≠ nullPtr) (hsame : SameNodes heap heap')
    (hring : LinkedRing heap'.next heap'.prev fragList (l₁ ++ newNode :: l₂)) :
    FragRing heap' fragList (l₁ ++ newNode :: l₂) := by
  have hperm : (fragList :: (l₁ ++ newNode :: l₂)).Perm (newNode :: fragList :: (l₁ ++ l₂)) :=
    (List.perm_middle.cons fragList).trans (List.Perm.swap _ _ _)
  refine ⟨hperm.nodup_iff.mpr (List.nodup_cons.mpr ⟨hnew, h.nodup⟩), fun hmem => ?_, ?_,
    fun x hx => ?_, hring⟩
  · rcases List.mem_cons.mp (hperm.mem_iff.mp hmem) with heq | hmem
    · exact hnull heq.symm
    · exact h.nonnull hmem
  · rw [(hsame fragList).2.1]
    exact h.sentinel
  · rw [(hsame x).2.1]
    rcases List.mem_cons.mp (List.perm_middle.mem_iff.mp hx) with rfl | hx
    · exact hpayload
    · exact h.payloads x hx

/-- The node is linked in behind `tail`. -/
theorem linkBehind_spec (h : FragRing heap fragList (l₁ ++ l₂))
    (hnew : newNode ∉ fragList :: (l₁ ++ l₂)) (hnull : newNode ≠ nullPtr)
    (hpayload : (heap newNode).payload ≠ nullPtr) {front : List Nat}
    (htail : fragList :: l₁ = front ++ [tail]) :
    ∃ heap', heap.linkBehind tail newNode = .ok heap' ∧
      FragRing heap' fragList (l₁ ++ newNode :: l₂) ∧ SameNodes heap heap' := by
  obtain ⟨behind, more, hbehind⟩ : ∃ behind more, l₂ ++ [fragList] = behind :: more :=
    List.exists_cons_of_ne_nil (by simp)
  have hsplit : fragList :: (l₁ ++ l₂ ++ [fragList]) = front ++ tail :: behind :: more := by
    rw [List.append_assoc, hbehind, ← List.cons_append, htail, List.append_assoc,
      List.singleton_append]
  have hring := h.ring
  unfold LinkedRing at hring
  rw [hsplit] at hring
  have hnext : (heap tail).next = behind := hring.edge.1
  have hmem : behind ∈ fragList :: (l₁ ++ l₂) := by
    have : behind ∈ l₂ ++ [fragList] := by simp [hbehind]
    simp only [List.mem_append, List.mem_cons, List.not_mem_nil] at this ⊢
    tauto
  have htailmem : tail ∈ fragList :: (l₁ ++ l₂) := by
    have : tail ∈ fragList :: l₁ := by simp [htail]
    simp only [List.mem_append, List.mem_cons] at this ⊢
    tauto
  have hne : tail ≠ newNode := fun he => hnew (he ▸ htailmem)
  let heap₁ := heap.setPrev newNode tail
  have hnext₁ : (heap₁ tail).next = behind := by
    show heap₁.next tail = behind
    rw [next_setPrev]
    exact hnext
  let heap₂ := heap₁.setNext newNode behind
  have hnext₂ : (heap₂ tail).next = behind := by
    show heap₂.next tail = behind
    rw [next_setNext, update_of_ne hne]
    exact hnext₁
  let heap₃ := heap₂.setPrev behind newNode
  have hok : heap.linkBehind tail newNode = .ok (heap₃.setNext tail newNode) := by
    have hfound : (heap tail).next ≠ nullPtr := fun he =>
      h.nonnull ((hnext.symm.trans he) ▸ hmem)
    rw [linkBehind, if_neg hfound]
    show Except.ok ((((heap₁.setNext newNode (heap₁ tail).next).setPrev
      ((heap₁.setNext newNode (heap₁ tail).next) tail).next newNode)).setNext tail newNode) = _
    rw [hnext₁]
    show Except.ok ((heap₂.setPrev (heap₂ tail).next newNode).setNext tail newNode) = _
    rw [hnext₂]
  have hsame : SameNodes heap (heap₃.setNext tail newNode) :=
    ((sameNodes_setPrev.trans sameNodes_setNext).trans sameNodes_setPrev).trans sameNodes_setNext
  refine ⟨_, hok, h.grow hnew hnull hpayload hsame ?_, hsame⟩
  rw [next_setNext, next_setPrev, next_setNext, next_setPrev, prev_setNext, prev_setPrev,
    prev_setNext, prev_setPrev]
  exact LinkedRing.link h.ring h.nodup hnew htail hbehind

/-! ## The search -/

def Earlier (heap : FragHeap) (p q : Nat) : Prop :=
  (heap p).offset.toNat < (heap q).offset.toNat

instance (heap : FragHeap) : DecidableRel heap.Earlier := fun _ _ => Nat.decLt _ _

/-- The search goes from the tail back and passes the nodes that the insertion passes; it ends
at the node that the new one comes behind. -/
theorem findTail_spec {rest behind more : List Nat} {left : Nat} (hleft : left ≤ 3)
    (h : FragRing heap fragList (rest.reverse ++ behind))
    (htail : rest ++ [fragList] = tail :: more) :
    ∃ passed rest' more', rest = passed ++ rest' ∧
      TailInsert.insertLoop heap.Earlier 3 newNode (3 - left) rest = passed ++ newNode :: rest' ∧
      rest' ++ [fragList] = heap.findTail newNode left tail :: more' := by
  induction rest generalizing left behind tail more with
  | nil =>
    obtain ⟨rfl, rfl⟩ := List.cons.inj htail
    refine ⟨[], [], [], rfl, rfl, ?_⟩
    have hfind : heap.findTail newNode left fragList = fragList := by
      cases left with
      | zero => rfl
      | succ left => rw [findTail, if_pos (.inr h.sentinel)]
    rw [hfind]
    rfl
  | cons t rest ih =>
    obtain ⟨rfl, hmore⟩ := List.cons.inj htail
    have hmem : t ∈ (t :: rest).reverse ++ behind := by simp
    have hgo : ¬ (t = nullPtr ∨ (heap t).payload = nullPtr) := by
      rintro (hnull | hnull)
      · exact h.nonnull (List.mem_cons_of_mem _ (hnull ▸ hmem))
      · exact h.payloads t hmem hnull
    cases left with
    | zero => exact ⟨[], t :: rest, more, rfl, if_pos rfl, htail⟩
    | succ left =>
      unfold TailInsert.insertLoop
      rw [if_neg (show ¬ 3 - (left + 1) = 3 by omega), findTail, if_neg hgo]
      by_cases hbefore : (heap newNode).offset < (heap t).offset
      · have hlt := UInt16.lt_iff_toNat_lt.mp hbefore
        have hearlier : heap.Earlier newNode t := hlt
        rw [if_neg (show ¬ (heap t).offset.toNat + (heap t).payloadLen.toNat ≤
          (heap newNode).offset.toNat by omega), if_pos hbefore, if_pos hearlier]
        obtain ⟨before, front, hfront⟩ : ∃ before front, rest ++ [fragList] = before :: front :=
          List.exists_cons_of_ne_nil (by simp)
        have hsplit : fragList :: ((t :: rest).reverse ++ behind ++ [fragList]) =
            front.reverse ++ before :: t :: (behind ++ [fragList]) := by
          have hrev := congrArg List.reverse hfront
          rw [List.reverse_append, List.reverse_singleton, List.singleton_append,
            List.reverse_cons] at hrev
          rw [List.reverse_cons, List.append_assoc, List.append_assoc, ← List.cons_append, hrev]
          simp
        have hring := h.ring
        unfold LinkedRing at hring
        rw [hsplit] at hring
        have hprev : (heap t).prev = before := hring.edge.2
        rw [List.reverse_cons, List.append_assoc, List.singleton_append] at h
        obtain ⟨passed, rest', more', hrest, hins, hfind⟩ := ih (Nat.le_of_succ_le hleft) h hfront
        rw [show 3 - (left + 1) + 1 = 3 - left by omega, hins, hprev]
        exact ⟨t :: passed, rest', more', by rw [hrest]; rfl, rfl, hfind⟩
      · have hearlier : ¬ heap.Earlier newNode t := fun hlt =>
          hbefore (UInt16.lt_iff_toNat_lt.mpr hlt)
        rw [if_neg hbefore, if_neg hearlier, ite_self]
        exact ⟨[], t :: rest, more, rfl, rfl, htail⟩

/-- `insert_node` links the new node into the ring where the insertion from the tail has it. -/
theorem insertNode_ring (h : IsFragList heap fragList nodes) (hnew : newNode ∉ fragList :: nodes)
    (hnull : newNode ≠ nullPtr) (hpayload : (heap newNode).payload ≠ nullPtr) :
    ∃ heap', heap.insertNode fragList newNode = .ok heap' ∧
      FragRing heap' fragList (TailInsert.insert heap.Earlier 3 nodes newNode) ∧
      SameNodes heap heap' := by
  cases h with
  | fresh hlist hsentinel hprev hnext =>
    have hne : newNode ≠ fragList := fun he => hnew (he ▸ List.mem_cons_self)
    have hfind : heap.findTail newNode 3 (heap fragList).prev = nullPtr := by
      rw [hprev, findTail, if_pos (.inl rfl)]
    have hsame : SameNodes heap (heap.linkFirst fragList newNode) :=
      ((sameNodes_setPrev.trans sameNodes_setNext).trans sameNodes_setPrev).trans
        sameNodes_setNext
    refine ⟨heap.linkFirst fragList newNode, ?_, ?_, hsame⟩
    · rw [insertNode, hfind, if_pos rfl]
    · show FragRing _ _ [newNode]
      refine ⟨by simpa using hne.symm, by simp [hlist.symm, hnull.symm], ?_, fun x hx => ?_, ?_⟩
      · rw [(hsame fragList).2.1]
        exact hsentinel
      · rw [(hsame x).2.1, List.mem_singleton.mp hx]
        exact hpayload
      · unfold linkFirst LinkedRing
        rw [next_setNext, next_setPrev, next_setNext, next_setPrev, prev_setNext, prev_setPrev,
          prev_setNext, prev_setPrev]
        simp [Linked, Edge, hne]
  | circular hring =>
    obtain ⟨tail, more, htail⟩ : ∃ tail more, nodes.reverse ++ [fragList] = tail :: more :=
      List.exists_cons_of_ne_nil (by simp)
    have hrev := congrArg List.reverse htail
    rw [List.reverse_append, List.reverse_singleton, List.reverse_reverse, List.singleton_append,
      List.reverse_cons] at hrev
    have hprev : (heap fragList).prev = tail := by
      have hlinks := hring.ring
      unfold LinkedRing at hlinks
      rw [← List.cons_append, hrev, List.append_assoc, List.singleton_append] at hlinks
      exact hlinks.edge.2
    obtain ⟨passed, rest, more', hsplit, hins, hfind⟩ := @findTail_spec _ _ newNode _ _ _ _ 3
      (Nat.le_refl 3) (by rwa [List.reverse_reverse, List.append_nil]) htail
    have hnodes : nodes = rest.reverse ++ passed.reverse := by
      rw [← List.reverse_append, ← hsplit, List.reverse_reverse]
    have hinsert : TailInsert.insert heap.Earlier 3 nodes newNode =
        rest.reverse ++ newNode :: passed.reverse := by
      rw [TailInsert.insert, show TailInsert.insertLoop _ 3 newNode 0 _ = _ from hins]
      simp
    have hfront := congrArg List.reverse hfind
    rw [List.reverse_append, List.reverse_singleton, List.singleton_append,
      List.reverse_cons] at hfront
    have hstop : heap.findTail newNode 3 tail ≠ nullPtr := by
      intro hzero
      have hmem : heap.findTail newNode 3 tail ∈ fragList :: rest.reverse := by simp [hfront]
      rw [hzero] at hmem
      refine hring.nonnull ?_
      rw [hnodes, ← List.cons_append]
      exact List.mem_append_left _ hmem
    rw [hnodes] at hring hnew
    obtain ⟨heap', hok, hgrown, hsame⟩ := linkBehind_spec hring hnew hnull hpayload hfront
    refine ⟨heap', ?_, hinsert ▸ hgrown, hsame⟩
    rw [insertNode, hprev, if_neg hstop]
    exact hok

/-- The node as the other modules have it, with the bytes that its pointer leads to. -/
def desc (heap : FragHeap) (mem : Mem) (p : Nat) : FragDesc where
  offset := (heap p).offset
  payload := mem.read (heap p).payload (heap p).payloadLen.toNat
  payloadLen := (heap p).payloadLen
  length_payload := Mem.length_read _ _ _

theorem SameNodes.desc_eq (h : SameNodes heap heap') (mem : Mem) :
    heap'.desc mem = heap.desc mem := by
  funext x
  obtain ⟨hoffset, hpayload, hlen⟩ := h x
  unfold desc
  congr 1
  rw [hpayload, hlen]

/-- The pointers do what `NatBox.insertNode` does to the list of the nodes. -/
theorem insertNode_refines (h : IsFragList heap fragList nodes)
    (hnew : newNode ∉ fragList :: nodes) (hnull : newNode ≠ nullPtr)
    (hpayload : (heap newNode).payload ≠ nullPtr) (mem : Mem) :
    ∃ heap' nodes', heap.insertNode fragList newNode = .ok heap' ∧
      FragRing heap' fragList nodes' ∧ nodes'.Perm (newNode :: nodes) ∧ SameNodes heap heap' ∧
      nodes'.map (heap'.desc mem) =
        NatBox.insertNode (nodes.map (heap.desc mem)) (heap.desc mem newNode) := by
  obtain ⟨heap', hok, hring, hsame⟩ := insertNode_ring h hnew hnull hpayload
  have hmap : ∀ a b, (heap.desc mem a).Before (heap.desc mem b) ↔ heap.Earlier a b :=
    fun _ _ => Iff.rfl
  refine ⟨heap', _, hok, hring, TailInsert.insert_perm _ _, hsame, ?_⟩
  rw [hsame.desc_eq, insertNode_eq, TailInsert.insert, TailInsert.insert, ← List.map_reverse,
    TailInsert.insertLoop_map hmap, List.map_reverse]

/-! ## A list from its beginning -/

/-- A packet for the list, with the addresses that `getmem` returns for its node and for its
payload. -/
structure FragArrival where
  pkt : NetPacket
  newNode : Nat
  payload : Nat

/-- The node that `insert_frag_list` makes of the packet. -/
def FragArrival.node (a : FragArrival) : FragNode where
  offset := a.pkt.fragOffset &&& 0xFFFE
  payload := a.payload
  payloadLen := a.pkt.ip.hostPayloadLen - fragHdrLen
  prev := nullPtr
  next := nullPtr

def putNode (heap : FragHeap) (p : Nat) (node : FragNode) : FragHeap := update heap p node

/-- `insert_frag_list` -/
def insertFragList (fragList : Nat) (heap : FragHeap) (mem : Mem) (a : FragArrival) :
    Except FragFault (FragHeap × Mem) := do
  let heap := heap.putNode a.newNode a.node
  let mem := mem.write a.payload (a.pkt.body.read 8 a.node.payloadLen.toNat)
  let heap ← heap.insertNode fragList a.newNode
  .ok (heap, mem)

/-- The packets of an entry come in one after another. -/
def insertArrivals (fragList : Nat) : List FragArrival → FragHeap → Mem →
    Except FragFault (FragHeap × Mem)
  | [], heap, mem => .ok (heap, mem)
  | a :: rest, heap, mem => do
    let (heap, mem) ← insertFragList fragList heap mem a
    insertArrivals fragList rest heap mem

/-- Neither has been given memory of the other. -/
def FragArrival.Apart (a b : FragArrival) : Prop :=
  a.newNode ≠ b.newNode ∧
    (a.payload + (fragDescOf a.pkt).payloadLen.toNat ≤ b.payload ∨
      b.payload + (fragDescOf b.pkt).payloadLen.toNat ≤ a.payload)

instance (a b : FragArrival) : Decidable (a.Apart b) := inferInstanceAs (Decidable (_ ∧ _))

/-- What `getmem` promises of the memory for the packets of a list. -/
structure FreshlyPlaced (fragList : Nat) (arrivals : List FragArrival) : Prop where
  apart : arrivals.Pairwise FragArrival.Apart
  sentinel : ∀ a ∈ arrivals, a.newNode ≠ fragList
  nonnull : ∀ a ∈ arrivals, a.newNode ≠ nullPtr ∧ a.payload ≠ nullPtr

/-- The memory has the list of an entry into which these packets have come. -/
structure HoldsArrivals (fragList : Nat) (arrivals : List FragArrival) (heap : FragHeap)
    (mem : Mem) (nodes : List Nat) : Prop where
  isList : IsFragList heap fragList nodes
  perm : nodes.Perm (arrivals.map FragArrival.newNode)
  payload : ∀ a ∈ arrivals, (heap a.newNode).payload = a.payload
  descs : ∀ a ∈ arrivals, heap.desc mem a.newNode = fragDescOf a.pkt
  order : nodes.map (heap.desc mem) = insertNodes (arrivals.map fun a => fragDescOf a.pkt)

variable {arrivals before : List FragArrival} {a : FragArrival} {mem : Mem}

theorem putNode_self {node : FragNode} : heap.putNode p node p = node := update_self _ _ _

theorem putNode_of_ne {node : FragNode} (h : q ≠ p) : heap.putNode p node q = heap q :=
  update_of_ne h _ _

/-- A list does not notice what is written into a node that it does not have. -/
theorem IsFragList.putNode (h : IsFragList heap fragList nodes)
    (hnew : newNode ∉ fragList :: nodes) (node : FragNode) :
    IsFragList (heap.putNode newNode node) fragList nodes := by
  have hsame : ∀ x ∈ fragList :: nodes, heap.putNode newNode node x = heap x :=
    fun x hx => putNode_of_ne fun he => hnew (he ▸ hx)
  have hlist := hsame fragList List.mem_cons_self
  cases h with
  | fresh hnull hpayload hprev hnext =>
    exact .fresh hnull (hlist ▸ hpayload) (hlist ▸ hprev) (hlist ▸ hnext)
  | circular h =>
    refine .circular ⟨h.nodup, h.nonnull, hlist ▸ h.sentinel, fun p hp => ?_, ?_⟩
    · rw [hsame p (List.mem_cons_of_mem _ hp)]
      exact h.payloads p hp
    · have hmem : ∀ x ∈ fragList :: (nodes ++ [fragList]), x ∈ fragList :: nodes := by
        intro x hx
        simp only [List.mem_cons, List.mem_append, List.not_mem_nil, or_false] at hx ⊢
        tauto
      exact Linked.congr h.ring (fun x hx => congrArg FragNode.next (hsame x (hmem x hx)))
        (fun x hx => congrArg FragNode.prev (hsame x (hmem x hx)))

theorem desc_eq {d : FragDesc} (hoffset : (heap p).offset = d.offset)
    (hlen : (heap p).payloadLen = d.payloadLen)
    (hread : mem.read (heap p).payload d.payloadLen.toNat = d.payload) : heap.desc mem p = d := by
  obtain ⟨offset, payload, payloadLen, hd⟩ := d
  obtain rfl : (heap p).offset = offset := hoffset
  obtain rfl : (heap p).payloadLen = payloadLen := hlen
  obtain rfl : mem.read (heap p).payload (heap p).payloadLen.toNat = payload := hread
  rfl

/-- The bytes of the packet behind its fragment header. -/
theorem length_bytes (a : FragArrival) :
    (a.pkt.body.read 8 a.node.payloadLen.toNat).length = (fragDescOf a.pkt).payloadLen.toNat :=
  Mem.length_read _ _ _

/-- The new node is as the list model has it. -/
theorem desc_putNode_self (heap : FragHeap) (mem : Mem) (a : FragArrival) :
    (heap.putNode a.newNode a.node).desc
      (mem.write a.payload (a.pkt.body.read 8 a.node.payloadLen.toNat)) a.newNode =
        fragDescOf a.pkt := by
  refine desc_eq (by rw [putNode_self]; rfl) (by rw [putNode_self]; rfl) ?_
  rw [putNode_self, ← length_bytes]
  exact Mem.read_write_self ..

/-- A node that is in the list already stays as it is. -/
theorem desc_putNode_apart {b : FragArrival} (hapart : b.Apart a)
    (hpayload : (heap b.newNode).payload = b.payload)
    (hdesc : heap.desc mem b.newNode = fragDescOf b.pkt) :
    (heap.putNode a.newNode a.node).desc
      (mem.write a.payload (a.pkt.body.read 8 a.node.payloadLen.toNat)) b.newNode =
        fragDescOf b.pkt := by
  have hkept := hapart.2
  rw [← length_bytes a] at hkept
  refine desc_eq ?_ ?_ ?_
  · rw [putNode_of_ne hapart.1, ← hdesc]
    rfl
  · rw [putNode_of_ne hapart.1, ← hdesc]
    rfl
  · rw [putNode_of_ne hapart.1, hpayload, Mem.read_write_of_disjoint hkept, ← hdesc, ← hpayload]
    rfl

/-- `insert_frag_list` on a list that the memory has. -/
theorem HoldsArrivals.step (h : HoldsArrivals fragList before heap mem nodes)
    (hplaced : FreshlyPlaced fragList (before ++ [a])) :
    ∃ heap' mem' nodes', insertFragList fragList heap mem a = .ok (heap', mem') ∧
      HoldsArrivals fragList (before ++ [a]) heap' mem' nodes' := by
  have hapart : ∀ b ∈ before, b.Apart a := fun b hb =>
    (List.pairwise_append.mp hplaced.apart).2.2 b hb a List.mem_cons_self
  have ha : a ∈ before ++ [a] := List.mem_append_right _ List.mem_cons_self
  have hnew : a.newNode ∉ fragList :: nodes := by
    intro hmem
    rcases List.mem_cons.mp hmem with heq | hmem
    · exact hplaced.sentinel a ha heq
    · obtain ⟨b, hb, heq⟩ := List.mem_map.mp (h.perm.mem_iff.mp hmem)
      exact (hapart b hb).1 heq
  let heap₁ := heap.putNode a.newNode a.node
  let mem₁ := mem.write a.payload (a.pkt.body.read 8 a.node.payloadLen.toNat)
  have hdesc : ∀ b ∈ before ++ [a], heap₁.desc mem₁ b.newNode = fragDescOf b.pkt := by
    intro b hb
    rcases List.mem_append.mp hb with hb | hb
    · exact desc_putNode_apart (hapart b hb) (h.payload b hb) (h.descs b hb)
    · obtain rfl := List.mem_singleton.mp hb
      exact desc_putNode_self ..
  have hpayload : ∀ b ∈ before ++ [a], (heap₁ b.newNode).payload = b.payload := by
    intro b hb
    rcases List.mem_append.mp hb with hb | hb
    · exact (congrArg FragNode.payload (putNode_of_ne (hapart b hb).1)).trans (h.payload b hb)
    · obtain rfl := List.mem_singleton.mp hb
      exact congrArg FragNode.payload putNode_self
  obtain ⟨heap', nodes', hok, hring, hperm, hsame, horder⟩ :=
    insertNode_refines (show IsFragList heap₁ fragList nodes from h.isList.putNode hnew a.node)
      hnew (hplaced.nonnull a ha).1 (hpayload a ha ▸ (hplaced.nonnull a ha).2) mem₁
  refine ⟨heap', mem₁, nodes', ?_, .circular hring, ?_, fun b hb => ?_,
    fun b hb => ?_, ?_⟩
  · rw [insertFragList, hok]
    rfl
  · rw [List.map_append]
    exact hperm.trans ((h.perm.cons _).trans (List.perm_append_singleton _ _).symm)
  · rw [(hsame b.newNode).2.1]
    exact hpayload b hb
  · rw [hsame.desc_eq]
    exact hdesc b hb
  · have hnodes : nodes.map (heap₁.desc mem₁) = nodes.map (heap.desc mem) := by
      refine List.map_congr_left fun p hp => ?_
      obtain ⟨b, hb, rfl⟩ := List.mem_map.mp (h.perm.mem_iff.mp hp)
      rw [hdesc b (List.mem_append_left _ hb), h.descs b hb]
    rw [horder, hnodes, h.order, hdesc a ha, List.map_append]
    unfold insertNodes
    rw [List.foldl_append]
    rfl

theorem FreshlyPlaced.left (h : FreshlyPlaced fragList (before ++ arrivals)) :
    FreshlyPlaced fragList before :=
  ⟨(List.pairwise_append.mp h.apart).1, fun a ha => h.sentinel a (List.mem_append_left _ ha),
    fun a ha => h.nonnull a (List.mem_append_left _ ha)⟩

theorem HoldsArrivals.run (hplaced : FreshlyPlaced fragList (before ++ arrivals))
    (h : HoldsArrivals fragList before heap mem nodes) :
    ∃ heap' mem' nodes', insertArrivals fragList arrivals heap mem = .ok (heap', mem') ∧
      HoldsArrivals fragList (before ++ arrivals) heap' mem' nodes' := by
  induction arrivals generalizing before heap mem nodes with
  | nil => exact ⟨heap, mem, nodes, rfl, by rwa [List.append_nil]⟩
  | cons a rest ih =>
    rw [List.append_cons] at hplaced
    obtain ⟨heap₁, mem₁, nodes₁, hok, h₁⟩ := h.step hplaced.left
    obtain ⟨heap', mem', nodes', hrun, h'⟩ := ih hplaced h₁
    refine ⟨heap', mem', nodes', ?_, by rwa [List.append_cons]⟩
    rw [insertArrivals, hok]
    exact hrun

/-- Whatever packets come into an entry, `insert_node` follows no null pointer, and the ring of
nodes has in memory what the list of the other modules has. -/
theorem insertArrivals_refines (hlist : fragList ≠ nullPtr)
    (hplaced : FreshlyPlaced fragList arrivals) (heap : FragHeap) (mem : Mem) :
    ∃ heap' mem' nodes, insertArrivals fragList arrivals (heap.initializeFragList fragList) mem =
        .ok (heap', mem') ∧ IsFragList heap' fragList nodes ∧
      nodes.Perm (arrivals.map FragArrival.newNode) ∧
      nodes.map (heap'.desc mem') = insertNodes (arrivals.map fun a => fragDescOf a.pkt) := by
  have hfresh : IsFragList (heap.initializeFragList fragList) fragList [] :=
    isFragList_initialize hlist
  have hstart : HoldsArrivals fragList [] (heap.initializeFragList fragList) mem [] :=
    ⟨hfresh, .refl _, by simp, by simp, rfl⟩
  obtain ⟨heap', mem', nodes, hrun, h⟩ := hstart.run hplaced
  exact ⟨heap', mem', nodes, hrun, h.isList, h.perm, h.order⟩

/-- Two fragments of one datagram, the later one first. -/
def exampleArrivals : List FragArrival :=
  [⟨exampleFragment 7 16, 2, 0x1000⟩, ⟨exampleFragment 7 8, 3, 0x2000⟩]

theorem insertArrivals_refines_two :
    ∃ heap' mem' nodes, insertArrivals 1 exampleArrivals
        (initializeFragList (fun _ => ⟨0, 0, 0, 0, 0⟩) 1) (fun _ => 0) = .ok (heap', mem') ∧
      IsFragList heap' 1 nodes ∧ nodes.Perm (exampleArrivals.map FragArrival.newNode) ∧
      nodes.map (heap'.desc mem') =
        insertNodes (exampleArrivals.map fun a => fragDescOf a.pkt) :=
  insertArrivals_refines (by decide) ⟨by decide, by decide, by decide⟩ _ _

/-! ## Order -/

def OrderedByOffset (heap : FragHeap) (nodes : List Nat) : Prop :=
  nodes.Pairwise fun p q => (heap p).offset.toNat ≤ (heap q).offset.toNat

/-- `insert_node` leaves a circular list of the old nodes and the new one, in the order of the
offsets. -/
def InsertsInOrder (heap : FragHeap) (fragList : Nat) (nodes : List Nat) (newNode : Nat) : Prop :=
  ∃ heap' nodes', heap.insertNode fragList newNode = .ok heap' ∧ FragRing heap' fragList nodes' ∧
    nodes'.Perm (newNode :: nodes) ∧ SameNodes heap heap' ∧ OrderedByOffset heap' nodes'

/-- The nodes of a ring are those that its links lead to. -/
theorem FragRing.unique {nodes' : List Nat} (h : FragRing heap fragList nodes)
    (h' : FragRing heap fragList nodes') : nodes = nodes' :=
  linked_unique h.ring h'.ring (List.nodup_cons.mp h.nodup).1 (List.nodup_cons.mp h'.nodup).1

/-- The list stays in order exactly when at most three of its nodes belong behind the new one:
that is how far the search goes.  Whether nodes overlap does not matter for this. -/
theorem insertNode_sorted_iff (h : IsFragList heap fragList nodes)
    (hnew : newNode ∉ fragList :: nodes) (hnull : newNode ≠ nullPtr)
    (hpayload : (heap newNode).payload ≠ nullPtr) (hsorted : OrderedByOffset heap nodes) :
    InsertsInOrder heap fragList nodes newNode ↔
      nodes.countP (fun p => (heap newNode).offset.toNat < (heap p).offset.toNat) ≤ 3 := by
  obtain ⟨heap', hok, hring, hsame⟩ := insertNode_ring h hnew hnull hpayload
  have hordered : OrderedByOffset heap' (TailInsert.insert heap.Earlier 3 nodes newNode) ↔
      OrderedByOffset heap (TailInsert.insert heap.Earlier 3 nodes newNode) := by
    unfold OrderedByOffset
    simp only [(hsame _).1]
  rw [← TailInsert.insert_ordered_iff (r := heap.Earlier) (fun _ _ => Iff.rfl) hsorted]
  constructor
  · rintro ⟨heap'', nodes', hok', hring', -, -, hsorted'⟩
    obtain rfl := Except.ok.inj (hok.symm.trans hok')
    rw [← hring.unique hring'] at hsorted'
    exact hordered.mp hsorted'
  · intro hinserted
    exact ⟨heap', _, hok, hring, TailInsert.insert_perm _ _, hsame, hordered.mpr hinserted⟩

/-- The nodes share bytes of the datagram. -/
def Overlap (heap : FragHeap) (p q : Nat) : Prop :=
  (heap p).offset.toNat < (heap q).offset.toNat + (heap q).payloadLen.toNat ∧
    (heap q).offset.toNat < (heap p).offset.toNat + (heap p).payloadLen.toNat

instance (heap : FragHeap) (p q : Nat) : Decidable (heap.Overlap p q) :=
  inferInstanceAs (Decidable (_ ∧ _))

/-- The nodes 2 to `last` around the sentinel 1, with the offsets 0, 16, 24 and so on, and the
node 7 with the offset 8. -/
def missingSecond (last : Nat) : FragHeap := fun p =>
  { offset := if p = 7 then 8 else if p = 2 then 0 else UInt16.ofNat (8 * (p - 1))
    payload := if p = 1 then nullPtr else 4096
    payloadLen := 8
    prev := if p = 1 then last else p - 1
    next := if p = last then 1 else p + 1 }

theorem insertNode_sorted_two : InsertsInOrder (missingSecond 3) 1 [2, 3] 7 := by
  have hring : FragRing (missingSecond 3) 1 [2, 3] :=
    ⟨by decide, by decide, by decide, by decide, by
      unfold LinkedRing Linked Edge
      decide⟩
  have hsorted : OrderedByOffset (missingSecond 3) [2, 3] := by
    unfold OrderedByOffset
    decide
  exact (insertNode_sorted_iff (.circular hring) (by decide) (by decide) (by decide) hsorted).mpr
    (by decide)

/-- The fragments 0, 16, 24, 32 and 40 are there when 8 comes: it stays behind 16. -/
theorem insertNode_gives_up : ¬ ∀ (heap : FragHeap) (fragList : Nat) (nodes : List Nat)
    (newNode : Nat), IsFragList heap fragList nodes → newNode ∉ fragList :: nodes →
      newNode ≠ nullPtr → (heap newNode).payload ≠ nullPtr → OrderedByOffset heap nodes →
      (nodes.Pairwise fun p q => ¬ heap.Overlap p q) → (∀ p ∈ nodes, ¬ heap.Overlap newNode p) →
      InsertsInOrder heap fragList nodes newNode := by
  intro h
  have hring : FragRing (missingSecond 6) 1 [2, 3, 4, 5, 6] :=
    ⟨by decide, by decide, by decide, by decide, by
      unfold LinkedRing Linked Edge
      decide⟩
  have hsorted : OrderedByOffset (missingSecond 6) [2, 3, 4, 5, 6] := by
    unfold OrderedByOffset
    decide
  obtain ⟨heap', nodes', hok, hring', -, hsame, hsorted'⟩ := h (missingSecond 6) 1
    [2, 3, 4, 5, 6] 7 (.circular hring) (by decide) (by decide) (by decide) hsorted (by decide)
    (by decide)
  obtain ⟨heap'', hok'', hring'', -⟩ := insertNode_ring (.circular hring)
    (show 7 ∉ [1, 2, 3, 4, 5, 6] by decide) (by decide) (by decide)
  obtain rfl := Except.ok.inj (hok''.symm.trans hok)
  have hnodes : [2, 3, 7, 4, 5, 6] = nodes' := hring''.unique hring'
  rw [← hnodes] at hsorted'
  unfold OrderedByOffset at hsorted'
  simp only [(hsame _).1] at hsorted'
  exact absurd hsorted' (by decide)

end FragHeap

end NatBox
