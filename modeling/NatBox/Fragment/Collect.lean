import NatBox.Fragment.FragList
import NatBox.Fragment.TableRuns

/-
The fragments of one datagram at `reassembly`.

The first fragment claims an entry, and as long as no arrival completes the datagram the
entry collects the nodes of all that arrived (`collects_of_arrivals`).
-/

namespace NatBox

open Runs

/-- Entry `i` holds `nodes` of the datagram that the packet `first` began. -/
structure Collects (st : ReassemblyTable) (first : NetPacket) (i : Fin reassemblyTableMaxSize)
    (nodes : List FragDesc) : Prop where
  lookup : checkReassemblyTable st first.ip.src first.ip.dest first.fragIdentif = some i
  fragList : (st.entry i).fragList = some nodes
  perfragHeaders : (st.entry i).perfragHeaders = first.ip
  nextHeader : (st.entry i).nextHeader = first.fragNextHeader

/-- The packets agree in what identifies their datagram. -/
structure SameDatagram (first pkt : NetPacket) : Prop where
  src : pkt.ip.src = first.ip.src
  dest : pkt.ip.dest = first.ip.dest
  identif : pkt.fragIdentif = first.fragIdentif

section Steps

variable {st : ReassemblyTable} {first pkt : NetPacket} {i : Fin reassemblyTableMaxSize}
  {nodes : List FragDesc}

/-- The live entries up to a slot are all counted. -/
theorem lt_liveCount (h : ∀ j, j ≤ i → (st.entry j).isLive = true) : i.val < st.liveCount := by
  have hsub : (st.table.toList.take (i.val + 1)).countP (·.isLive) ≤ st.liveCount :=
    (List.take_sublist (i.val + 1) st.table.toList).countP_le
  have hall : (st.table.toList.take (i.val + 1)).countP (·.isLive) =
      (st.table.toList.take (i.val + 1)).length := by
    rw [List.countP_eq_length]
    intro e he
    obtain ⟨j, hj, heq⟩ := List.mem_take_iff_getElem.mp he
    have hji : j < i.val + 1 := Nat.lt_of_lt_of_le hj (Nat.min_le_left _ _)
    have hlive := h ⟨j, by omega⟩ (Nat.le_of_lt_succ hji)
    rwa [← getElem_toList_table st _ (isLt_toList_table st _), heq] at hlive
  have hlen : (st.table.toList.take (i.val + 1)).length = i.val + 1 := by
    rw [List.length_take]
    exact Nat.min_eq_left (isLt_toList_table st i)
  omega

/-- The lookup finds an entry that is within the size and shares its key with no other. -/
theorem checkReassemblyTable_eq_some {src dest : Ipv6Addr} {identif : UInt32}
    (hi : i.val < st.tabSize.toNat) (hl : (st.entry i).isLive = true)
    (hk : (st.entry i).key = (src, dest, identif))
    (hother : ∀ j, j ≠ i → (st.entry j).isLive = true → (st.entry j).key ≠ (src, dest, identif)) :
    checkReassemblyTable st src dest identif = some i := by
  cases h : checkReassemblyTable st src dest identif with
  | none => exact absurd hk (checkReassemblyTable_none h hi hl)
  | some j =>
    obtain ⟨-, hl', hk'⟩ := checkReassemblyTable_some h
    by_cases hji : j = i
    · rw [hji]
    · exact absurd hk' (hother j hji hl')

theorem checkReassemblyTable_eq_none {src dest : Ipv6Addr} {identif : UInt32}
    (hkey : ∀ j, (st.entry j).isLive = true → (st.entry j).key ≠ (src, dest, identif)) :
    checkReassemblyTable st src dest identif = none := by
  cases h : checkReassemblyTable st src dest identif with
  | none => rfl
  | some j =>
    obtain ⟨-, hl, hk⟩ := checkReassemblyTable_some h
    exact absurd hk (hkey j hl)

/-- The claimed slot is counted: it is the first free one. -/
theorem lt_tabSize_appendReaTable (hc : TableCounts st) (hh : findHole st = some i)
    (clktime : UInt32) : i.val < (appendReaTable st clktime first).tabSize.toNat := by
  obtain ⟨-, hbefore⟩ := findHole_some hh
  rw [(hc.appendReaTable clktime first).tabSize_eq]
  apply lt_liveCount
  intro j hj
  rw [entry_appendReaTable hh]
  by_cases hji : j = i
  · rw [if_pos hji]
    rfl
  · rw [if_neg hji]
    by_contra hl
    rw [Bool.not_eq_true] at hl
    have hlt : j < i := Nat.lt_of_le_of_ne hj fun heq => hji (Fin.ext heq)
    cases hbefore j hlt with
    | inl hl' => exact Bool.false_ne_true (hl.symm.trans hl')
    | inr ht => exact ht (hc.timestamp j hl)

/-- The first fragment of a datagram that is not in the table claims a free slot. -/
theorem Collects.start (hc : TableCounts st) (hfree : ∃ j, (st.entry j).isLive = false)
    (hkey : ∀ j, (st.entry j).isLive = true →
      (st.entry j).hasKey first.ip.src first.ip.dest first.fragIdentif = false)
    (hoff : (fragDescOf first).offset = 0) (clktime : UInt32) (block : Mem) :
    ∃ st' i, reassembly st clktime block first = .ok (none, st') ∧
      Collects st' first i (insertNodes [fragDescOf first]) := by
  have hkey' : ∀ j, (st.entry j).isLive = true →
      (st.entry j).key ≠ (first.ip.src, first.ip.dest, first.fragIdentif) := by
    intro j hl hk
    have hno := hkey j hl
    rw [hasKey_iff_key.mpr hk] at hno
    cases hno
  have hreas : reassembly st clktime block first = .ok (none, appendReaTable st clktime first) := by
    have hfirst : ¬ (first.fragOffset &&& 0xFFFE ≠ 0) := not_not.mpr hoff
    rw [reassembly, checkReassemblyTable_eq_none hkey']
    dsimp only
    rw [if_neg hfirst]
  cases hh : findHole st with
  | none =>
    obtain ⟨j, hj⟩ := hfree
    have hlive := (findHole_eq_none_iff hc).mp hh j
    rw [hj] at hlive
    cases hlive
  | some i =>
    have hentry := entry_appendReaTable hh clktime first
    have hself : (appendReaTable st clktime first).entry i = newReassemblyEntry clktime first := by
      rw [hentry, if_pos rfl]
    refine ⟨_, i, hreas, ?_, ?_, ?_, ?_⟩
    · apply checkReassemblyTable_eq_some (lt_tabSize_appendReaTable hc hh clktime)
      · rw [hself]
        rfl
      · rw [hself]
        rfl
      · intro j hji hl
        rw [hentry, if_neg hji] at hl ⊢
        exact hkey' j hl
    · rw [hself]
      rfl
    · rw [hself]
      rfl
    · rw [hself]
      rfl

/-- Inserting a node changes no key. -/
theorem checkReassemblyTable_insertFragList (src dest : Ipv6Addr) (identif : UInt32) :
    checkReassemblyTable (insertFragList st i pkt) src dest identif =
      checkReassemblyTable st src dest identif := by
  unfold checkReassemblyTable
  show List.find? _ ((List.finRange reassemblyTableMaxSize).take st.tabSize.toNat) = _
  congr 1
  funext j
  obtain ⟨hl, hk, -⟩ := isLive_insertFragList st i j pkt
  have hkey : ((insertFragList st i pkt).entry j).hasKey src dest identif =
      (st.entry j).hasKey src dest identif := by
    rw [Bool.eq_iff_iff, hasKey_iff_key, hasKey_iff_key, hk]
  rw [hl, hkey]

theorem Collects.insert (h : Collects st first i nodes) :
    Collects (insertFragList st i pkt) first i (insertNode nodes (fragDescOf pkt)) where
  lookup := by
    rw [checkReassemblyTable_insertFragList]
    exact h.lookup
  fragList := by
    rw [insertFragList, ReassemblyTable.entry_setEntry_self]
    show (st.entry i).fragList.map _ = _
    rw [h.fragList]
    rfl
  perfragHeaders := by
    rw [insertFragList, ReassemblyTable.entry_setEntry_self]
    exact h.perfragHeaders
  nextHeader := by
    rw [insertFragList, ReassemblyTable.entry_setEntry_self]
    exact h.nextHeader

/-- The datagram `copy_to_datagram` makes of nodes that fit. -/
def completedDatagram (first : NetPacket) (block : Mem) (nodes : List FragDesc) : Datagram where
  payloadLen := UInt16.ofNat (dataOf nodes).length
  headers := updateDatagramHeaders first.ip (UInt16.ofNat (dataOf nodes).length)
    first.fragNextHeader
  payload := block.write 0 (dataOf nodes)

/-- What a further fragment of the datagram does. -/
theorem Collects.reassembly_eq (h : Collects st first i nodes) (hsame : SameDatagram first pkt)
    (hend : ∀ t ∈ insertNode nodes (fragDescOf pkt),
      t.offset.toNat + t.payloadLen.toNat < 65536) (clktime : UInt32) (block : Mem) :
    reassembly st clktime block pkt =
      if (isLastFragment pkt && copyFits (insertNode nodes (fragDescOf pkt)) 0) = true then
        .ok (some (completedDatagram first block (insertNode nodes (fragDescOf pkt))),
          removeReaEntry (insertFragList st i pkt) i)
      else .ok (none, insertFragList st i pkt) := by
  have hins : Collects (insertFragList st i pkt) first i
    (insertNode nodes (fragDescOf pkt)) := h.insert
  rw [reassembly, hsame.src, hsame.dest, hsame.identif, h.lookup]
  dsimp only
  cases hlast : isLastFragment pkt with
  | false => rfl
  | true =>
    rw [Bool.true_and, if_pos rfl, copyToDatagram, hins.fragList, Option.getD_some,
      copyLoop_eq hend]
    by_cases hfits : copyFits (insertNode nodes (fragDescOf pkt)) 0 = true
    · rw [if_pos hfits, if_pos hfits, hins.perfragHeaders, hins.nextHeader]
      dsimp only
      rw [show (0 : UInt16).toNat = 0 from rfl, Nat.zero_add]
      rfl
    · rw [if_neg hfits, if_neg hfits]

end Steps

/-! ## Arrivals -/

/-- One arrival out of `n` packets, with the time and what the memory for a datagram holds
then. -/
structure Arrival (n : Nat) where
  frag : Fin n
  clktime : UInt32
  block : Mem

section Arrivals

variable (frames : List NetPacket)

def Arrival.event (a : Arrival frames.length) : TableEvent :=
  .arrive a.clktime a.block (frames.get a.frag)

/-- The nodes an entry has once the arrivals have been collected. -/
def nodesOf (arrivals : List (Arrival frames.length)) : List FragDesc :=
  insertNodes (arrivals.map fun a => fragDescOf (frames.get a.frag))

/-- The arrival `a` after the arrivals `pre` completes the datagram. -/
def completesAt (pre : List (Arrival frames.length)) (a : Arrival frames.length) : Bool :=
  isLastFragment (frames.get a.frag) && copyFits (nodesOf frames (pre ++ [a])) 0

variable {frames} {st st₁ : ReassemblyTable} {first : NetPacket} {i : Fin reassemblyTableMaxSize}
  {a₀ : Arrival frames.length}

theorem nodesOf_concat (pre : List (Arrival frames.length)) (a : Arrival frames.length) :
    nodesOf frames (pre ++ [a]) =
      insertNode (nodesOf frames pre) (fragDescOf (frames.get a.frag)) := by
  unfold nodesOf
  rw [List.map_append, List.map_singleton, insertNodes_concat]

theorem mem_nodesOf {arrivals : List (Arrival frames.length)} {t : FragDesc}
    (ht : t ∈ nodesOf frames arrivals) : ∃ pkt ∈ frames, t = fragDescOf pkt := by
  have hmem := (insertNodes_perm _).mem_iff.mp ht
  obtain ⟨a, -, heq⟩ := List.mem_map.mp hmem
  exact ⟨frames.get a.frag, List.get_mem frames a.frag, heq.symm⟩

/-- The step of an arrival behind the first one. -/
theorem Collects.arrival {pre : List (Arrival frames.length)}
    (h : Collects st₁ first i (nodesOf frames pre))
    (hsame : ∀ pkt ∈ frames, SameDatagram first pkt)
    (hend : ∀ pkt ∈ frames,
      (fragDescOf pkt).offset.toNat + (fragDescOf pkt).payloadLen.toNat < 65536)
    (a : Arrival frames.length) :
    tableStep st₁ (a.event frames) =
      if completesAt frames pre a = true then
        .ok (some (completedDatagram first a.block (nodesOf frames (pre ++ [a]))),
          removeReaEntry (insertFragList st₁ i (frames.get a.frag)) i)
      else .ok (none, insertFragList st₁ i (frames.get a.frag)) := by
  rw [completesAt, nodesOf_concat]
  apply h.reassembly_eq (hsame _ (List.get_mem frames a.frag))
  intro t ht
  rw [← nodesOf_concat] at ht
  obtain ⟨pkt, hpkt, heq⟩ := mem_nodesOf ht
  rw [heq]
  exact hend pkt hpkt

/-- As long as nothing is completed the entry collects everything. -/
theorem collects_of_arrivals
    (hstart : tableStep st (a₀.event frames) = .ok (none, st₁))
    (hcol : Collects st₁ first i (nodesOf frames [a₀]))
    (hsame : ∀ pkt ∈ frames, SameDatagram first pkt)
    (hend : ∀ pkt ∈ frames,
      (fragDescOf pkt).offset.toNat + (fragDescOf pkt).payloadLen.toNat < 65536)
    {rest : List (Arrival frames.length)}
    (hno : ∀ pre a, pre ++ [a] <+: rest → completesAt frames (a₀ :: pre) a = false) :
    ∃ st', exec tableStep st ((a₀ :: rest).map (Arrival.event frames)) =
        .ok (List.replicate (rest.length + 1) none, st') ∧
      Collects st' first i (nodesOf frames (a₀ :: rest)) := by
  induction rest using List.reverseRecOn with
  | nil =>
    refine ⟨st₁, ?_, hcol⟩
    rw [List.map_singleton, exec, hstart]
    rfl
  | append_singleton rest a ih =>
    have hprev : ∀ pre b, pre ++ [b] <+: rest → completesAt frames (a₀ :: pre) b = false :=
      fun pre b hpre => hno pre b (hpre.trans (List.prefix_append rest [a]))
    obtain ⟨st', hexec, hcol'⟩ := ih hprev
    have hstep := hcol'.arrival hsame hend a
    rw [hno rest a (List.prefix_refl _), if_neg Bool.false_ne_true] at hstep
    refine ⟨insertFragList st' i (frames.get a.frag), ?_, ?_⟩
    · rw [← List.cons_append, List.map_append, List.map_singleton, exec_concat hexec hstep,
        List.length_append, List.length_singleton, ← List.replicate_succ']
    · rw [← List.cons_append, nodesOf_concat]
      exact hcol'.insert

/-- An arrival that completes the datagram hands it on. -/
theorem exec_of_completesAt
    (hstart : tableStep st (a₀.event frames) = .ok (none, st₁))
    (hcol : Collects st₁ first i (nodesOf frames [a₀]))
    (hsame : ∀ pkt ∈ frames, SameDatagram first pkt)
    (hend : ∀ pkt ∈ frames,
      (fragDescOf pkt).offset.toNat + (fragDescOf pkt).payloadLen.toNat < 65536)
    {rest : List (Arrival frames.length)} {a : Arrival frames.length}
    (hno : ∀ pre b, pre ++ [b] <+: rest → completesAt frames (a₀ :: pre) b = false)
    (hlast : completesAt frames (a₀ :: rest) a = true) :
    ∃ st', exec tableStep st ((a₀ :: rest ++ [a]).map (Arrival.event frames)) =
      .ok (List.replicate (rest.length + 1) none ++
        [some (completedDatagram first a.block (nodesOf frames (a₀ :: rest ++ [a])))], st') := by
  obtain ⟨st', hexec, hcol'⟩ := collects_of_arrivals hstart hcol hsame hend hno
  have hstep := hcol'.arrival hsame hend a
  rw [hlast, if_pos rfl] at hstep
  refine ⟨removeReaEntry (insertFragList st' i (frames.get a.frag)) i, ?_⟩
  rw [List.map_append, List.map_singleton]
  exact exec_concat hexec hstep

end Arrivals

end NatBox
