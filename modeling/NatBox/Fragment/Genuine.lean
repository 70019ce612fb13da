import Mathlib.Data.List.ReduceOption
import NatBox.Fragment.Bounds

/-
What a datagram handed to `processDatagram` has to do with the fragments it was made of.

`copy_to_datagram` asks that each node starts where the one before it ends.  Which of the
fragments carried no M flag is asked of the arriving one only, so a datagram may end behind
the last fragment of its sender.
-/

namespace NatBox

open Runs

/-! ## Nodes that fit -/

section Nodes

variable {l : List FragDesc} {start : Nat}

/-- The node covers position `k` of the datagram. -/
def FragDesc.covers (k : Nat) (t : FragDesc) : Bool :=
  decide (t.offset.toNat ≤ k) && decide (k < t.offset.toNat + t.payloadLen.toNat)

theorem FragDesc.covers_iff {k : Nat} {t : FragDesc} :
    t.covers k = true ↔
      t.offset.toNat ≤ k ∧ k < t.offset.toNat + t.payloadLen.toNat := by
  rw [covers, Bool.and_eq_true, decide_eq_true_iff, decide_eq_true_iff]

/-- The first of several nodes that fit, and where the rest of them starts. -/
theorem copyFits_cons {t : FragDesc} (hstart : start < 65536)
    (ht : t.offset.toNat + t.payloadLen.toNat < 65536)
    (h : copyFits (t :: l) (UInt16.ofNat start) = true) :
    t.offset.toNat = start ∧ start + t.payloadLen.toNat < 65536 ∧
      copyFits l (UInt16.ofNat (start + t.payloadLen.toNat)) = true := by
  rw [copyFits, Bool.and_eq_true, beq_iff_eq] at h
  have hoff : t.offset.toNat = start := by
    rw [← h.1, UInt16.toNat_ofNat']
    exact Nat.mod_eq_of_lt hstart
  refine ⟨hoff, by omega, ?_⟩
  rw [UInt16.ofNat_add, UInt16.ofNat_toNat]
  exact h.2

/-- Nodes that fit lie between the start and the end of their data. -/
theorem ends_of_copyFits (hstart : start < 65536)
    (hend : ∀ t ∈ l, t.offset.toNat + t.payloadLen.toNat < 65536)
    (h : copyFits l (UInt16.ofNat start) = true) :
    start + (dataOf l).length < 65536 ∧
      (∀ t ∈ l, start ≤ t.offset.toNat ∧
        t.offset.toNat + t.payloadLen.toNat ≤ start + (dataOf l).length) ∧
      (l ≠ [] → ∃ t ∈ l, t.offset.toNat + t.payloadLen.toNat = start + (dataOf l).length) := by
  induction l generalizing start with
  | nil => exact ⟨hstart, fun _ ht => absurd ht List.not_mem_nil, fun hne => absurd rfl hne⟩
  | cons t l ih =>
    obtain ⟨hoff, hnext, hrest⟩ := copyFits_cons hstart (hend t List.mem_cons_self) h
    obtain ⟨htotal, hin, hlast⟩ :=
      ih hnext (fun u hu => hend u (List.mem_cons_of_mem t hu)) hrest
    have hlen : start + (dataOf (t :: l)).length =
        start + t.payloadLen.toNat + (dataOf l).length := by
      rw [dataOf_cons, List.length_append, t.length_payload, Nat.add_assoc]
    rw [hlen]
    refine ⟨htotal, fun u hu => ?_, fun _ => ?_⟩
    · rcases List.mem_cons.mp hu with rfl | hu
      · omega
      · have := hin u hu
        omega
    · by_cases hl : l = []
      · refine ⟨t, List.mem_cons_self, ?_⟩
        rw [hl, hoff]
        rfl
      · obtain ⟨u, hu, heq⟩ := hlast hl
        exact ⟨u, List.mem_cons_of_mem t hu, heq⟩

/-- Each position of the data of nodes that fit is covered once. -/
theorem countP_covers_of_copyFits (hstart : start < 65536)
    (hend : ∀ t ∈ l, t.offset.toNat + t.payloadLen.toNat < 65536)
    (h : copyFits l (UInt16.ofNat start) = true) {k : Nat} (hk : start ≤ k)
    (hlt : k < start + (dataOf l).length) : l.countP (·.covers k) = 1 := by
  induction l generalizing start with
  | nil => exact absurd hlt (Nat.not_lt.mpr hk)
  | cons t l ih =>
    obtain ⟨hoff, hnext, hrest⟩ := copyFits_cons hstart (hend t List.mem_cons_self) h
    have hend' := fun u hu => hend u (List.mem_cons_of_mem t hu)
    rw [dataOf_cons, List.length_append, t.length_payload] at hlt
    rw [List.countP_cons]
    by_cases hcov : t.covers k = true
    · rw [if_pos hcov, Nat.add_eq_right, List.countP_eq_zero]
      intro u hu hu'
      have hlow := ((ends_of_copyFits hnext hend' hrest).2.1 u hu).1
      rw [FragDesc.covers_iff] at hcov hu'
      omega
    · have hbehind : start + t.payloadLen.toNat ≤ k := by
        rw [FragDesc.covers_iff] at hcov
        omega
      rw [if_neg hcov, Nat.add_zero]
      exact ih hnext hend' hrest hbehind (by omega)

/-- The data at a position is that of the node that covers it. -/
theorem getElem?_dataOf_of_copyFits (hstart : start < 65536)
    (hend : ∀ t ∈ l, t.offset.toNat + t.payloadLen.toNat < 65536)
    (h : copyFits l (UInt16.ofNat start) = true) {k : Nat} {t : FragDesc} (ht : t ∈ l)
    (hcov : t.covers k = true) : (dataOf l)[k - start]? = t.payload[k - t.offset.toNat]? := by
  induction l generalizing start with
  | nil => cases ht
  | cons u l ih =>
    obtain ⟨hoff, hnext, hrest⟩ := copyFits_cons hstart (hend u List.mem_cons_self) h
    have hend' := fun v hv => hend v (List.mem_cons_of_mem u hv)
    have hlen := u.length_payload
    rw [dataOf_cons]
    rcases List.mem_cons.mp ht with rfl | hmem
    · rw [FragDesc.covers_iff] at hcov
      rw [List.getElem?_append_left (by omega), hoff]
    · have hlow := ((ends_of_copyFits hnext hend' hrest).2.1 t hmem).1
      have hcov' := FragDesc.covers_iff.mp hcov
      rw [List.getElem?_append_right (by omega), ← ih hnext hend' hrest hmem]
      congr 1
      omega

end Nodes

/-! ## Stored fragments -/

/-- A position behind the last byte of the fragment. -/
def fragEnd (pkt : NetPacket) : Nat :=
  (fragDescOf pkt).offset.toNat + (fragDescOf pkt).payloadLen.toNat

/-- The datagram is the one the fragments are the pieces of. -/
structure Genuine (d : Datagram) (frags : List NetPacket) : Prop where
  last : ∃ pkt ∈ frags, isLastFragment pkt = true ∧ d.payloadLen.toNat = fragEnd pkt
  none_beyond : ∀ pkt ∈ frags, fragEnd pkt ≤ d.payloadLen.toNat
  covered : ∀ k, k < d.payloadLen.toNat → frags.countP (fun pkt => (fragDescOf pkt).covers k) = 1
  bytes : ∀ k, k < d.payloadLen.toNat → ∀ pkt ∈ frags, (fragDescOf pkt).covers k = true →
    d.payload k = pkt.body (8 + (k - (fragDescOf pkt).offset.toNat))

/-- A fragment without the M flag ends last, and within 16 bits. -/
def EndsInLast (frags : List NetPacket) : Prop :=
  ∃ pkt ∈ frags, isLastFragment pkt = true ∧ fragEnd pkt < 65536 ∧
    ∀ other ∈ frags, fragEnd other ≤ fragEnd pkt

/-- The reassembly table with the fragments whose nodes each slot was given last. -/
structure StoredTable where
  table : ReassemblyTable
  frags : Fin reassemblyTableMaxSize → List NetPacket

namespace StoredTable

def init : StoredTable := ⟨ReassemblyTable.init, fun _ => []⟩

/-- The fragments in the entry of a packet, the packet among them. -/
def storedWith (s : StoredTable) : TableEvent → List NetPacket
  | .arrive _ _ pkt =>
    match checkReassemblyTable s.table pkt.ip.src pkt.ip.dest pkt.fragIdentif with
    | none => [pkt]
    | some i => s.frags i ++ [pkt]
  | .sweep _ => []

/-- The slot that takes the node of a packet. -/
def slotOf (s : StoredTable) : TableEvent → Option (Fin reassemblyTableMaxSize)
  | .arrive _ _ pkt =>
    match checkReassemblyTable s.table pkt.ip.src pkt.ip.dest pkt.fragIdentif with
    | none => if pkt.fragOffset &&& 0xFFFE ≠ 0 then none else findHole s.table
    | some i => some i
  | .sweep _ => none

def fragsAfter (s : StoredTable) (e : TableEvent) (i : Fin reassemblyTableMaxSize) :
    List NetPacket :=
  if s.slotOf e = some i then s.storedWith e else s.frags i

end StoredTable

/-- A step of the table, and the fragments behind the datagram it hands on. -/
def storedStep (s : StoredTable) (e : TableEvent) :
    Except Fault (Option (Datagram × List NetPacket) × StoredTable) :=
  match tableStep s.table e with
  | .error f => .error f
  | .ok (o, table) => .ok (o.map fun d => (d, s.storedWith e), ⟨table, s.fragsAfter e⟩)

/-- The nodes of a live entry are those of the fragments stored for it. -/
def NodesStored (s : StoredTable) : Prop :=
  ∀ i nodes, (s.table.entry i).fragList = some nodes →
    nodes = insertNodes ((s.frags i).map fragDescOf)

theorem Genuine.endsInLast {d : Datagram} {frags : List NetPacket} (h : Genuine d frags) :
    EndsInLast frags := by
  obtain ⟨pkt, hpkt, hlast, hlen⟩ := h.last
  refine ⟨pkt, hpkt, hlast, ?_, fun other hother => ?_⟩
  · rw [← hlen]
    exact d.payloadLen.toNat_lt
  · rw [← hlen]
    exact h.none_beyond other hother

/-- A datagram copied from the nodes of fragments that end in a last one is genuine. -/
theorem EndsInLast.genuine {frags : List NetPacket} (h : EndsInLast frags)
    {entry : ReassemblyEntry} {block : Mem} {d : Datagram}
    (hcopy : copyToDatagram entry (insertNodes (frags.map fragDescOf)) block = .ok (some d)) :
    Genuine d frags := by
  obtain ⟨last, hlast, hflag, hlt, hmax⟩ := h
  generalize hl : insertNodes (frags.map fragDescOf) = l at hcopy
  have hperm : l.Perm (frags.map fragDescOf) := hl ▸ insertNodes_perm _
  have hmem : ∀ pkt ∈ frags, fragDescOf pkt ∈ l := fun pkt hpkt =>
    hperm.mem_iff.mpr (List.mem_map_of_mem hpkt)
  have hend : ∀ t ∈ l, t.offset.toNat + t.payloadLen.toNat < 65536 := by
    intro t ht
    obtain ⟨pkt, hpkt, rfl⟩ := List.mem_map.mp (hperm.mem_iff.mp ht)
    exact Nat.lt_of_le_of_lt (hmax pkt hpkt) hlt
  rw [copyToDatagram, copyLoop_eq hend, show (0 : UInt16).toNat = 0 from rfl, Nat.zero_add] at hcopy
  by_cases hfits : copyFits l 0 = true
  · rw [if_pos hfits] at hcopy
    obtain rfl := Option.some.inj (Except.ok.inj hcopy)
    have hstart : copyFits l (UInt16.ofNat 0) = true := hfits
    obtain ⟨htotal, hin, hreach⟩ := ends_of_copyFits (by decide) hend hstart
    rw [Nat.zero_add] at htotal hin hreach
    have hlen : (UInt16.ofNat (dataOf l).length).toNat = (dataOf l).length :=
      UInt16.toNat_ofNat_of_lt htotal
    have hbeyond : ∀ pkt ∈ frags, fragEnd pkt ≤ (dataOf l).length := fun pkt hpkt =>
      (hin _ (hmem pkt hpkt)).2
    constructor
    · refine ⟨last, hlast, hflag, ?_⟩
      obtain ⟨t, ht, heq⟩ := hreach (List.ne_nil_of_mem (hmem last hlast))
      obtain ⟨pkt, hpkt, rfl⟩ := List.mem_map.mp (hperm.mem_iff.mp ht)
      have h₁ : (dataOf l).length ≤ fragEnd last := heq ▸ hmax pkt hpkt
      show (UInt16.ofNat (dataOf l).length).toNat = fragEnd last
      rw [hlen]
      exact Nat.le_antisymm h₁ (hbeyond last hlast)
    · show ∀ pkt ∈ frags, fragEnd pkt ≤ (UInt16.ofNat (dataOf l).length).toNat
      rw [hlen]
      exact hbeyond
    · intro k hk
      rw [hlen] at hk
      rw [← countP_covers_of_copyFits (by decide) hend hstart (Nat.zero_le k) (by omega),
        hperm.countP_eq, List.countP_map]
      rfl
    · intro k hk pkt hpkt hcov
      rw [hlen] at hk
      have hbyte := getElem?_dataOf_of_copyFits (by decide) hend hstart (hmem pkt hpkt) hcov
      have hcov' := FragDesc.covers_iff.mp hcov
      have hpos : k - (fragDescOf pkt).offset.toNat < (fragDescOf pkt).payloadLen.toNat := by
        omega
      rw [show (fragDescOf pkt).payload =
          pkt.body.read 8 (fragDescOf pkt).payloadLen.toNat from rfl,
        Mem.getElem?_read hpos, Nat.sub_zero] at hbyte
      have hwrite : block.write 0 (dataOf l) (0 + k) = _ := Mem.write_inside hbyte
      rw [Nat.zero_add] at hwrite
      exact hwrite
  · rw [if_neg hfits] at hcopy
    cases hcopy

/-! ## Runs -/

section Steps

variable {s s' : StoredTable} {e : TableEvent} {o : Option (Datagram × List NetPacket)}

/-- What is stored beside the table takes no part in the step. -/
theorem storedStep_ok (h : storedStep s e = .ok (o, s')) :
    ∃ od, tableStep s.table e = .ok (od, s'.table) ∧
      o = od.map (fun d => (d, s.storedWith e)) ∧ s'.frags = s.fragsAfter e := by
  rw [storedStep] at h
  rcases ht : tableStep s.table e with f | ⟨od, table⟩
  · rw [ht] at h
    cases h
  · rw [ht] at h
    obtain ⟨rfl, rfl⟩ := Prod.mk.inj (Except.ok.inj h)
    exact ⟨od, rfl, rfl, rfl⟩

theorem nodesStored_init : NodesStored StoredTable.init := by
  have hfree : ∀ i, (ReassemblyTable.init.entry i).fragList = none := by decide
  intro i nodes hi
  rw [StoredTable.init, hfree i] at hi
  cases hi

/-- The table that the arrival of a packet makes of its entry. -/
theorem NodesStored.insert (h : NodesStored s) {clktime : UInt32} {block : Mem} {pkt : NetPacket}
    {i : Fin reassemblyTableMaxSize}
    (hi : checkReassemblyTable s.table pkt.ip.src pkt.ip.dest pkt.fragIdentif = some i) :
    NodesStored ⟨insertFragList s.table i pkt, s.fragsAfter (.arrive clktime block pkt)⟩ := by
  intro j nodes hj
  show nodes = insertNodes ((s.fragsAfter _ j).map fragDescOf)
  rw [StoredTable.fragsAfter, StoredTable.slotOf, StoredTable.storedWith, hi]
  by_cases hij : i = j
  · subst hij
    have hj' : (insertFragList s.table i pkt).entry i = _ := ReassemblyTable.entry_setEntry_self ..
    rw [hj'] at hj
    obtain ⟨old, hold, rfl⟩ := Option.map_eq_some_iff.mp hj
    rw [if_pos rfl, h i old hold, List.map_append, List.map_singleton, insertNodes_concat]
  · have hj' : (insertFragList s.table i pkt).entry j = s.table.entry j :=
      ReassemblyTable.entry_setEntry_ne _ _ _ (Ne.symm hij)
    rw [hj'] at hj
    rw [if_neg fun heq => hij (Option.some.inj heq)]
    exact h j nodes hj

theorem NodesStored.remove {table : ReassemblyTable}
    {frags : Fin reassemblyTableMaxSize → List NetPacket} (h : NodesStored ⟨table, frags⟩)
    (i : Fin reassemblyTableMaxSize) : NodesStored ⟨removeReaEntry table i, frags⟩ := by
  intro j nodes hj
  by_cases hij : j = i
  · rw [hij, entry_removeReaEntry_self] at hj
    cases hj
  · rw [entry_removeReaEntry_ne table hij] at hj
    exact h j nodes hj

theorem NodesStored.step (h : NodesStored s) (hs : storedStep s e = .ok (o, s')) :
    NodesStored s' := by
  obtain ⟨od, ht, -, hfrags⟩ := storedStep_ok hs
  obtain ⟨table', frags'⟩ := s'
  obtain rfl : frags' = s.fragsAfter e := hfrags
  change tableStep s.table e = .ok (od, table') at ht
  cases e with
  | sweep clktime =>
    rw [tableStep, Except.ok.injEq, Prod.mk.injEq] at ht
    intro i nodes hi
    change (table'.entry i).fragList = some nodes at hi
    rw [← ht.2, entry_checkReassemblyTimeOut] at hi
    split at hi
    · cases hi
    · exact h i nodes hi
  | arrive clktime block pkt =>
    rcases reassembly_cases ht with ⟨hc, -, -⟩ | ⟨i, hi, ⟨-, -, rfl⟩ | ⟨-, -, rfl⟩⟩
    · have hslot : s.slotOf (.arrive clktime block pkt) =
          if pkt.fragOffset &&& 0xFFFE ≠ 0 then none else findHole s.table := by
        unfold StoredTable.slotOf
        simp only [hc]
      have hwith : s.storedWith (.arrive clktime block pkt) = [pkt] := by
        rw [StoredTable.storedWith, hc]
      rw [tableStep, reassembly, hc] at ht
      dsimp only at ht
      intro j nodes hj
      show nodes = insertNodes ((s.fragsAfter _ j).map fragDescOf)
      rw [StoredTable.fragsAfter, hslot, hwith]
      split at ht
      · next hoff =>
        obtain ⟨-, rfl⟩ := Prod.mk.inj (Except.ok.inj ht)
        rw [if_pos hoff]
        exact h j nodes hj
      · next hoff =>
        obtain ⟨-, rfl⟩ := Prod.mk.inj (Except.ok.inj ht)
        rw [if_neg hoff]
        cases hhole : findHole s.table with
        | none =>
          rw [appendReaTable, hhole] at hj
          exact h j nodes hj
        | some i =>
          rw [entry_appendReaTable hhole] at hj
          by_cases hij : j = i
          · rw [if_pos hij] at hj
            obtain rfl := Option.some.inj hj
            rw [if_pos (congrArg some hij.symm)]
            rfl
          · rw [if_neg hij] at hj
            rw [if_neg fun heq => hij (Option.some.inj heq).symm]
            exact h j nodes hj
    · exact h.insert hi
    · exact (h.insert hi).remove i

/-- Where a datagram that is handed on comes from. -/
theorem reassembly_some {st st' : ReassemblyTable} {clktime : UInt32} {block : Mem}
    {pkt : NetPacket} {d : Datagram} (h : reassembly st clktime block pkt = .ok (some d, st')) :
    ∃ i, checkReassemblyTable st pkt.ip.src pkt.ip.dest pkt.fragIdentif = some i ∧
      copyToDatagram ((insertFragList st i pkt).entry i)
        (((insertFragList st i pkt).entry i).fragList.getD []) block = .ok (some d) := by
  rcases reassembly_cases h with ⟨-, hnone, -⟩ | ⟨i, hi, ⟨-, hnone, -⟩ | ⟨hcomp, -, -⟩⟩
  · cases hnone
  · cases hnone
  · refine ⟨i, hi, ?_⟩
    have hlast : isLastFragment pkt = true := by
      rw [completes, Bool.and_eq_true, Bool.and_eq_true] at hcomp
      exact hcomp.1.2
    rw [reassembly, hi] at h
    dsimp only at h
    rw [if_pos hlast] at h
    rcases hcopy : copyToDatagram ((insertFragList st i pkt).entry i)
      (((insertFragList st i pkt).entry i).fragList.getD []) block with f | _ | d'
    · simp [hcopy] at h
    · simp [hcopy] at h
    · simp only [hcopy, Except.ok.injEq, Prod.mk.injEq, Option.some.injEq] at h
      rw [h.1]

/-- What a step hands on is copied from the nodes of the fragments beside it. -/
theorem NodesStored.delivered (h : NodesStored s) {d : Datagram} {frags : List NetPacket}
    (hs : storedStep s e = .ok (some (d, frags), s')) :
    ∃ entry block, copyToDatagram entry (insertNodes (frags.map fragDescOf)) block =
      .ok (some d) := by
  obtain ⟨od, ht, ho, -⟩ := storedStep_ok hs
  obtain ⟨d', rfl, hd⟩ := Option.map_eq_some_iff.mp ho.symm
  obtain ⟨rfl, rfl⟩ := Prod.mk.inj hd
  cases e with
  | sweep clktime => cases ht
  | arrive clktime block pkt =>
    obtain ⟨i, hi, hcopy⟩ := reassembly_some ht
    refine ⟨(insertFragList s.table i pkt).entry i, block, ?_⟩
    have hentry : (insertFragList s.table i pkt).entry i = _ :=
      ReassemblyTable.entry_setEntry_self ..
    obtain ⟨old, hold⟩ := Option.isSome_iff_exists.mp (checkReassemblyTable_some hi).2.1
    have hlist : ((insertFragList s.table i pkt).entry i).fragList =
        some (insertNode old (fragDescOf pkt)) := by
      rw [hentry, hold]
      rfl
    have hnodes : insertNode old (fragDescOf pkt) =
        insertNodes ((s.fragsAfter (.arrive clktime block pkt) i).map fragDescOf) :=
      h.insert hi i _ hlist
    rw [StoredTable.fragsAfter, StoredTable.slotOf, hi, if_pos rfl] at hnodes
    rw [hlist, Option.getD_some, hnodes] at hcopy
    exact hcopy

end Steps

/-- In every run, a datagram that is handed on is genuine exactly if the fragments in its entry
end in one without the M flag, below 65536. -/
theorem delivered_genuine_iff {tr : List (TableEvent × Option (Datagram × List NetPacket))}
    {s : StoredTable} (hrun : Run storedStep StoredTable.init tr s) {e : TableEvent} {d : Datagram}
    {frags : List NetPacket} (h : (e, some (d, frags)) ∈ tr) :
    Genuine d frags ↔ EndsInLast frags := by
  have hcopied : NodesStored s ∧ ∀ e d frags, (e, some (d, frags)) ∈ tr →
      ∃ entry block, copyToDatagram entry (insertNodes (frags.map fragDescOf)) block =
        .ok (some d) := by
    refine hrun.invariant (I := fun tr s => NodesStored s ∧ ∀ e d frags,
      (e, some (d, frags)) ∈ tr → ∃ entry block,
        copyToDatagram entry (insertNodes (frags.map fragDescOf)) block = .ok (some d))
      ⟨nodesStored_init, fun _ _ _ h => absurd h List.not_mem_nil⟩ ?_
    rintro tr s e o s' ⟨hnodes, hall⟩ hs
    refine ⟨hnodes.step hs, fun e' d frags hmem => ?_⟩
    rcases List.mem_append.mp hmem with hmem | hmem
    · exact hall e' d frags hmem
    · obtain ⟨rfl, rfl⟩ := Prod.mk.inj (List.mem_singleton.mp hmem)
      exact hnodes.delivered hs
  obtain ⟨entry, block, hcopy⟩ := hcopied.2 e d frags h
  exact ⟨Genuine.endsInLast, fun hends => hends.genuine hcopy⟩

/-- The datagrams that a list of events has handed on, with their fragments. -/
def deliveries (events : List TableEvent) : List (Datagram × List NetPacket) :=
  match exec storedStep StoredTable.init events with
  | .error _ => []
  | .ok (os, _) => os.reduceOption

/-- A delivery is one of a run. -/
theorem run_of_mem_deliveries {events : List TableEvent} {d : Datagram} {frags : List NetPacket}
    (h : (d, frags) ∈ deliveries events) :
    ∃ tr s e, Run storedStep StoredTable.init tr s ∧ (e, some (d, frags)) ∈ tr := by
  unfold deliveries at h
  rcases hx : exec storedStep StoredTable.init events with f | ⟨os, s⟩
  · rw [hx] at h
    cases h
  · rw [hx] at h
    obtain ⟨hlen, hrun⟩ := run_of_exec hx
    obtain ⟨k, hk, hget⟩ := List.mem_iff_getElem.mp (List.reduceOption_mem_iff.mp h)
    have hk' : k < events.length := hlen ▸ hk
    refine ⟨_, s, events[k], hrun, List.mem_iff_getElem.mpr ⟨k, ?_, ?_⟩⟩
    · rw [List.length_zip]
      exact Nat.lt_min.mpr ⟨hk', hk⟩
    · rw [List.getElem_zip, hget]

instance (frags : List NetPacket) : Decidable (EndsInLast frags) :=
  inferInstanceAs (Decidable (∃ _ ∈ _, _))

/-- The fragments of datagram 1 at these offsets, lowest bits the M flags, one after another. -/
def exampleOffsets (offsets : List UInt8) : List TableEvent :=
  offsets.map fun offset => .arrive 1 (fun _ => 0) (exampleFragment 1 offset)

/-- Two fragments in order. -/
theorem delivered_genuine_two : ∃ d frags, (d, frags) ∈ deliveries (exampleOffsets [0x01, 0x08]) ∧
    Genuine d frags := by
  have hends : ((deliveries (exampleOffsets [0x01, 0x08])).any
      fun delivery => decide (EndsInLast delivery.2)) = true := by decide +kernel
  obtain ⟨⟨d, frags⟩, hmem, hdec⟩ := List.any_eq_true.mp hends
  obtain ⟨tr, s, e, hrun, htr⟩ := run_of_mem_deliveries hmem
  exact ⟨d, frags, hmem, (delivered_genuine_iff hrun htr).mpr (of_decide_eq_true hdec)⟩

/-- A fragment with the M flag behind the last one: its data are handed on with the others. -/
theorem delivered_not_genuine : ∃ tr s e d frags, Run storedStep StoredTable.init tr s ∧
    (e, some (d, frags)) ∈ tr ∧ d.payloadLen = 24 ∧ ¬ Genuine d frags := by
  have hends : ((deliveries (exampleOffsets [0x01, 0x11, 0x08])).any fun delivery =>
      delivery.1.payloadLen == 24 && !decide (EndsInLast delivery.2)) = true := by decide +kernel
  obtain ⟨⟨d, frags⟩, hmem, hdec⟩ := List.any_eq_true.mp hends
  obtain ⟨tr, s, e, hrun, htr⟩ := run_of_mem_deliveries hmem
  rw [Bool.and_eq_true, beq_iff_eq, Bool.not_eq_true', decide_eq_false_iff_not] at hdec
  exact ⟨tr, s, e, d, frags, hrun, htr, hdec.1, fun h => hdec.2 h.endsInLast⟩

end NatBox
