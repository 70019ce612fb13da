import NatBox.Packet

/-
The reassembly table of `reassembly.c` and `ipv6.c`.

An entry is live while it has a fragment list.  The first fragment of a datagram
claims the first free slot, later ones are inserted into its list, and one that
carries no M flag has the list copied into a `Datagram` if its pieces fit together.
Completed and timed-out entries leave free slots behind at any place of the table,
and `reassembly_tab_size` counts the live ones.

`headers_len` is `IPV6_HDR_LEN` wherever it is set, so the per-fragment headers of an
entry and the headers of a `Datagram` are a base header.
-/

namespace NatBox

/-- `REASSEMBLY_TABLE_MAX_SIZE` -/
abbrev reassemblyTableMaxSize : Nat := 16

/-- `REASSEMBLY_MAX_TIME` -/
def reassemblyMaxTime : UInt32 := 15

/-- `PAYLOAD_SIZE`: the room for the payload in a `Datagram`. -/
def payloadSize : Nat := 65536

/-- `sizeof(struct fragment_header)` -/
def fragHdrLen : UInt16 := 8

/-! ## Fields of `struct fragment_header`, at the front of the body -/

def NetPacket.fragNextHeader (pkt : NetPacket) : UInt8 := pkt.body 0

/-- The field `offset` in host byte order, flags included. -/
def NetPacket.fragOffset (pkt : NetPacket) : UInt16 := ntohs (pkt.body.load16 2)

def NetPacket.fragIdentif (pkt : NetPacket) : UInt32 := ntohl (pkt.body.load32 4)

def isLastFragment (pkt : NetPacket) : Bool := pkt.fragOffset &&& 0x01 = 0

/-- `struct frag_desc`, without the links: a list holds the nodes behind the sentinel. -/
structure FragDesc where
  offset : UInt16
  payload : List UInt8
  payloadLen : UInt16
  length_payload : payload.length = payloadLen.toNat

structure ReassemblyEntry where
  srcAddr : Ipv6Addr
  destAddr : Ipv6Addr
  identif : UInt32
  perfragHeaders : BaseHeader
  fragList : Option (List FragDesc)
  nextHeader : UInt8
  timestamp : UInt32

/-- `reassembly_table` and `reassembly_tab_size` -/
structure ReassemblyTable where
  table : Vector ReassemblyEntry reassemblyTableMaxSize
  tabSize : UInt8

/-- `struct Datagram` -/
structure Datagram where
  payloadLen : UInt16
  headers : BaseHeader
  payload : Mem

/-- The table that `ipv6_init` leaves. -/
def ReassemblyTable.init : ReassemblyTable where
  table := Vector.replicate _
    ⟨unspecified, unspecified, 0,
      ⟨#v[0, 0, 0, 0], 0, 0, 0, unspecified, unspecified⟩, none, 0, 0⟩
  tabSize := 0

/-! ## The fragment list -/

/-- The node `insert_frag_list` makes of a packet. -/
def fragDescOf (pkt : NetPacket) : FragDesc where
  offset := pkt.fragOffset &&& 0xFFFE
  payload := pkt.body.read 8 (pkt.ip.hostPayloadLen - fragHdrLen).toNat
  payloadLen := pkt.ip.hostPayloadLen - fragHdrLen
  length_payload := Mem.length_read _ _ _

/- The loop of `insert_node` over the nodes from the tail back; behind them comes the
sentinel. -/
def insertLoop (new : FragDesc) : Nat → List FragDesc → List FragDesc
  | _, [] => [new]
  | count, tail :: prev =>
    if count = 3 then new :: tail :: prev
    else if tail.offset.toNat + tail.payloadLen.toNat ≤ new.offset.toNat then new :: tail :: prev
    else if new.offset < tail.offset then tail :: insertLoop new (count + 1) prev
    else new :: tail :: prev

/-- `insert_node` -/
def insertNode (fragList : List FragDesc) (new : FragDesc) : List FragDesc :=
  (insertLoop new 0 fragList.reverse).reverse

/- The loop of `copy_to_datagram`; `none` where a node does not start where the copied
part ends. -/
def copyLoop : List FragDesc → UInt16 → Mem → Except Fault (Option (UInt16 × Mem))
  | [], len, payload => .ok (some (len, payload))
  | temp :: rest, len, payload =>
    if len ≠ temp.offset then .ok none
    else if payloadSize < len.toNat + temp.payloadLen.toNat then .error .datagramOverrun
    else copyLoop rest (len + temp.payloadLen) (payload.write len.toNat temp.payload)

/-- Each node starts where the one before it ends, the first one at `len`. -/
def copyFits : List FragDesc → UInt16 → Bool
  | [], _ => true
  | temp :: rest, len => len == temp.offset && copyFits rest (len + temp.payloadLen)

def updateDatagramHeaders (headers : BaseHeader) (payloadLen : UInt16) (nextHeader : UInt8) :
    BaseHeader :=
  { headers with
    payloadLen := ntohs payloadLen
    nextHeader := if headers.nextHeader = ipv6Frag then nextHeader else headers.nextHeader }

/-- `copy_to_datagram` into a block of memory that holds `block`. -/
def copyToDatagram (entry : ReassemblyEntry) (fragList : List FragDesc) (block : Mem) :
    Except Fault (Option Datagram) :=
  match copyLoop fragList 0 block with
  | .error f => .error f
  | .ok none => .ok none
  | .ok (some (len, payload)) =>
    .ok (some
      { payloadLen := len
        headers := updateDatagramHeaders entry.perfragHeaders len entry.nextHeader
        payload := payload })

/-! ## The table -/

namespace ReassemblyEntry

def isLive (e : ReassemblyEntry) : Bool := e.fragList.isSome

/-- The comparisons of `checkReassemblyTable`; `byteComp` stops at the first byte that
differs, as `match` does. -/
def hasKey (e : ReassemblyEntry) (src dest : Ipv6Addr) (identif : UInt32) : Bool :=
  matchBytes src e.srcAddr 16 && matchBytes dest e.destAddr 16 && identif == e.identif

end ReassemblyEntry

namespace ReassemblyTable

def entry (st : ReassemblyTable) (i : Fin reassemblyTableMaxSize) : ReassemblyEntry :=
  st.table.get i

def setEntry (st : ReassemblyTable) (i : Fin reassemblyTableMaxSize) (e : ReassemblyEntry) :
    ReassemblyTable :=
  { st with table := st.table.set i e i.isLt }

end ReassemblyTable

/-- `checkReassemblyTable`; `none` is its `NULL`.  The size stays within the table
(`TableCounts`), so no slot behind it is looked at. -/
def checkReassemblyTable (st : ReassemblyTable) (src dest : Ipv6Addr) (identif : UInt32) :
    Option (Fin reassemblyTableMaxSize) :=
  ((List.finRange reassemblyTableMaxSize).take st.tabSize.toNat).find? fun i =>
    (st.entry i).isLive && (st.entry i).hasKey src dest identif

/-- `find_hole`; `none` is its `-1`. -/
def findHole (st : ReassemblyTable) : Option (Fin reassemblyTableMaxSize) :=
  (List.finRange reassemblyTableMaxSize).find? fun i =>
    !(st.entry i).isLive && (st.entry i).timestamp == 0

/-- The entry `appendReaTable` fills in. -/
def newReassemblyEntry (clktime : UInt32) (pkt : NetPacket) : ReassemblyEntry where
  srcAddr := pkt.ip.src
  destAddr := pkt.ip.dest
  identif := pkt.fragIdentif
  perfragHeaders := pkt.ip
  fragList := some (insertNode [] (fragDescOf pkt))
  nextHeader := pkt.fragNextHeader
  timestamp := clktime

def appendReaTable (st : ReassemblyTable) (clktime : UInt32) (pkt : NetPacket) :
    ReassemblyTable :=
  match findHole st with
  | none => st
  | some i => { st.setEntry i (newReassemblyEntry clktime pkt) with tabSize := st.tabSize + 1 }

def removeReaEntry (st : ReassemblyTable) (i : Fin reassemblyTableMaxSize) : ReassemblyTable :=
  { st.setEntry i { st.entry i with fragList := none, timestamp := 0 } with
    tabSize := st.tabSize - 1 }

/-- `insert_frag_list` into an entry of the table. -/
def insertFragList (st : ReassemblyTable) (i : Fin reassemblyTableMaxSize) (pkt : NetPacket) :
    ReassemblyTable :=
  st.setEntry i
    { st.entry i with
      fragList := (st.entry i).fragList.map fun nodes => insertNode nodes (fragDescOf pkt) }

/-- `reassembly`: the datagram it hands to `processDatagram`, if any, and the table it
leaves.  `block` is what the memory for the datagram held before. -/
def reassembly (st : ReassemblyTable) (clktime : UInt32) (block : Mem) (pkt : NetPacket) :
    Except Fault (Option Datagram × ReassemblyTable) :=
  match checkReassemblyTable st pkt.ip.src pkt.ip.dest pkt.fragIdentif with
  | none =>
    if pkt.fragOffset &&& 0xFFFE ≠ 0 then .ok (none, st)
    else .ok (none, appendReaTable st clktime pkt)
  | some i =>
    let st := insertFragList st i pkt
    if isLastFragment pkt then
      match copyToDatagram (st.entry i) ((st.entry i).fragList.getD []) block with
      | .error f => .error f
      | .ok none => .ok (none, st)
      | .ok (some datagram) => .ok (some datagram, removeReaEntry st i)
    else .ok (none, st)

/-- Whether the sweep at `clktime` removes an entry. -/
def ReassemblyEntry.timedOut (e : ReassemblyEntry) (clktime : UInt32) : Bool :=
  e.isLive && e.timestamp != 0 && reassemblyMaxTime ≤ clktime - e.timestamp

/-- `check_reassembly_time_out` -/
def checkReassemblyTimeOut (st : ReassemblyTable) (clktime : UInt32) : ReassemblyTable :=
  (List.finRange reassemblyTableMaxSize).foldl
    (fun st i => if (st.entry i).timedOut clktime then removeReaEntry st i else st) st

/-! ## Entries of a changed table -/

namespace ReassemblyTable

variable (st : ReassemblyTable) (i : Fin reassemblyTableMaxSize) (e : ReassemblyEntry)

@[simp] theorem entry_setEntry_self : (st.setEntry i e).entry i = e := by
  show (st.table.set i.val e i.isLt)[i.val] = e
  rw [Vector.getElem_set_self]

theorem entry_setEntry_ne {j : Fin reassemblyTableMaxSize} (h : j ≠ i) :
    (st.setEntry i e).entry j = st.entry j := by
  show (st.table.set i.val e i.isLt)[j.val] = st.table[j.val]
  exact Vector.getElem_set_ne _ _ fun hij => h (Fin.ext hij.symm)

end ReassemblyTable

theorem entry_appendReaTable {st : ReassemblyTable} {i : Fin reassemblyTableMaxSize}
    (h : findHole st = some i) (clktime : UInt32) (pkt : NetPacket)
    (j : Fin reassemblyTableMaxSize) :
    (appendReaTable st clktime pkt).entry j =
      if j = i then newReassemblyEntry clktime pkt else st.entry j := by
  rw [appendReaTable, h]
  by_cases hij : j = i
  · rw [if_pos hij, hij]
    exact ReassemblyTable.entry_setEntry_self _ _ _
  · rw [if_neg hij]
    exact ReassemblyTable.entry_setEntry_ne _ _ _ hij

theorem hasKey_iff {e : ReassemblyEntry} {src dest : Ipv6Addr} {identif : UInt32} :
    e.hasKey src dest identif = true ↔
      e.srcAddr = src ∧ e.destAddr = dest ∧ e.identif = identif := by
  rw [ReassemblyEntry.hasKey, Bool.and_eq_true, Bool.and_eq_true, matchBytes_self_length,
    matchBytes_self_length, beq_iff_eq, and_assoc, @eq_comm _ src, @eq_comm _ dest,
    @eq_comm _ identif]

theorem isSome_of_copyLoop {l : List FragDesc} : ∀ {len : UInt16} {m : Mem}
    {r : Option (UInt16 × Mem)}, copyLoop l len m = .ok r → r.isSome = copyFits l len := by
  induction l with
  | nil =>
    intro len m r h
    rw [copyLoop, Except.ok.injEq] at h
    rw [← h]
    rfl
  | cons t rest ih =>
    intro len m r h
    rw [copyLoop] at h
    rw [copyFits]
    by_cases hoff : len = t.offset
    · rw [if_neg (not_not.mpr hoff)] at h
      by_cases hover : payloadSize < len.toNat + t.payloadLen.toNat
      · rw [if_pos hover] at h
        cases h
      · rw [if_neg hover] at h
        rw [ih h, hoff, beq_self_eq_true, Bool.true_and]
    · rw [if_pos hoff, Except.ok.injEq] at h
      rw [← h, beq_eq_false_iff_ne.mpr hoff]
      rfl

/-- The packet completes the datagram in slot `i`: it has no M flag and the nodes, its
own among them, fit together. -/
def completes (st : ReassemblyTable) (pkt : NetPacket) (i : Fin reassemblyTableMaxSize) : Bool :=
  checkReassemblyTable st pkt.ip.src pkt.ip.dest pkt.fragIdentif = some i && isLastFragment pkt &&
    copyFits (((insertFragList st i pkt).entry i).fragList.getD []) 0

/-- What `reassembly` can do with a packet: drop it, start an entry, extend one, or
complete one. -/
theorem reassembly_cases {st st' : ReassemblyTable} {clktime : UInt32} {block : Mem}
    {pkt : NetPacket} {o : Option Datagram}
    (h : reassembly st clktime block pkt = .ok (o, st')) :
    (checkReassemblyTable st pkt.ip.src pkt.ip.dest pkt.fragIdentif = none ∧ o = none ∧
      (st' = st ∨ st' = appendReaTable st clktime pkt)) ∨
    ∃ i, checkReassemblyTable st pkt.ip.src pkt.ip.dest pkt.fragIdentif = some i ∧
      ((completes st pkt i = false ∧ o = none ∧ st' = insertFragList st i pkt) ∨
        (completes st pkt i = true ∧ o.isSome ∧
          st' = removeReaEntry (insertFragList st i pkt) i)) := by
  rw [reassembly] at h
  cases hc : checkReassemblyTable st pkt.ip.src pkt.ip.dest pkt.fragIdentif with
  | none =>
    left
    simp only [hc] at h
    split at h
    · simp only [Except.ok.injEq, Prod.mk.injEq] at h
      exact ⟨rfl, h.1.symm, Or.inl h.2.symm⟩
    · simp only [Except.ok.injEq, Prod.mk.injEq] at h
      exact ⟨rfl, h.1.symm, Or.inr h.2.symm⟩
  | some i =>
    right
    simp only [hc] at h
    refine ⟨i, rfl, ?_⟩
    cases hlast : isLastFragment pkt with
    | false =>
      simp only [hlast, Bool.false_eq_true, if_false, Except.ok.injEq, Prod.mk.injEq] at h
      left
      exact ⟨by simp [completes, hlast], h.1.symm, h.2.symm⟩
    | true =>
      simp only [hlast, if_true, copyToDatagram] at h
      rcases hd : copyLoop (((insertFragList st i pkt).entry i).fragList.getD []) 0 block with
        f | r
      · simp [hd] at h
      · have hfits := isSome_of_copyLoop hd
        cases r with
        | none =>
          simp only [hd, Except.ok.injEq, Prod.mk.injEq] at h
          left
          refine ⟨?_, h.1.symm, h.2.symm⟩
          rw [completes, ← hfits, Option.isSome_none, Bool.and_false]
        | some r =>
          simp only [hd, Except.ok.injEq, Prod.mk.injEq] at h
          right
          refine ⟨?_, ?_, h.2.symm⟩
          · rw [completes, ← hfits, hc, hlast]
            simp
          · rw [← h.1]
            rfl

/-! ## The sweep -/

/-- An entry as `removeReaEntry` leaves it. -/
def ReassemblyEntry.removed (e : ReassemblyEntry) : ReassemblyEntry :=
  { e with fragList := none, timestamp := 0 }

theorem entry_removeReaEntry_self (st : ReassemblyTable) (i : Fin reassemblyTableMaxSize) :
    (removeReaEntry st i).entry i = (st.entry i).removed :=
  ReassemblyTable.entry_setEntry_self _ _ _

theorem entry_removeReaEntry_ne (st : ReassemblyTable) {i j : Fin reassemblyTableMaxSize}
    (h : j ≠ i) : (removeReaEntry st i).entry j = st.entry j :=
  ReassemblyTable.entry_setEntry_ne _ _ _ h

/-- The sweep over some of the slots removes those of them that timed out. -/
theorem entry_foldl_sweep (clktime : UInt32) (i : Fin reassemblyTableMaxSize) :
    ∀ (l : List (Fin reassemblyTableMaxSize)) (st : ReassemblyTable), l.Nodup →
      (i ∉ l ∨ (st.entry i).timedOut clktime = false →
        (l.foldl (fun st i => if (st.entry i).timedOut clktime then removeReaEntry st i else st)
          st).entry i = st.entry i) ∧
      (i ∈ l → (st.entry i).timedOut clktime = true →
        (l.foldl (fun st i => if (st.entry i).timedOut clktime then removeReaEntry st i else st)
          st).entry i = (st.entry i).removed) := by
  intro l
  induction l with
  | nil =>
    intro st _
    exact ⟨fun _ => rfl, fun h => by cases h⟩
  | cons j l ih =>
    intro st hnd
    obtain ⟨hj, hl⟩ := List.nodup_cons.mp hnd
    rw [List.foldl_cons]
    by_cases hij : i = j
    · subst hij
      by_cases ht : (st.entry i).timedOut clktime = true
      · rw [if_pos ht, (ih (removeReaEntry st i) hl).1 (Or.inl hj), entry_removeReaEntry_self]
        refine ⟨fun h => ?_, fun _ _ => rfl⟩
        rw [ht] at h
        simp at h
      · rw [if_neg ht, (ih st hl).1 (Or.inl hj)]
        exact ⟨fun _ => rfl, fun _ h => absurd h ht⟩
    · have hkeep : (if (st.entry j).timedOut clktime = true then removeReaEntry st j
          else st).entry i = st.entry i := by
        split
        · exact entry_removeReaEntry_ne st hij
        · rfl
      have hih := ih (if (st.entry j).timedOut clktime = true then removeReaEntry st j else st) hl
      rw [hkeep] at hih
      rw [List.mem_cons, or_iff_right hij]
      exact hih

theorem entry_checkReassemblyTimeOut (st : ReassemblyTable) (clktime : UInt32)
    (i : Fin reassemblyTableMaxSize) :
    (checkReassemblyTimeOut st clktime).entry i =
      if (st.entry i).timedOut clktime = true then (st.entry i).removed else st.entry i := by
  obtain ⟨hkeep, hremove⟩ := entry_foldl_sweep clktime i _ st (List.nodup_finRange _)
  split
  · rename_i ht
    exact hremove (List.mem_finRange i) ht
  · rename_i ht
    exact hkeep (Or.inr (Bool.not_eq_true _ ▸ ht))

end NatBox
