import NatBox.Fragment.FragList
import NatBox.Fragment.TableRuns

/-
The copies of fragment data: out of the packet by `insert_frag_list`, and into the datagram
by `copy_to_datagram`.

`insert_frag_list` takes the length from the header, less the fragment header, and compares it
with nothing.  `copy_to_datagram` asks where a node starts, not where it ends.
-/

namespace NatBox

open Runs

/-! ## Into the datagram -/

/-- Every node that copying comes to ends inside the payload of a `Datagram`. -/
def NodesFit (l : List FragDesc) (len : UInt16) : Prop :=
  ∀ pre t post, l = pre ++ t :: post → copyFits (pre ++ [t]) len = true →
    t.offset.toNat + t.payloadLen.toNat ≤ payloadSize

theorem nodesFit_nil (len : UInt16) : NodesFit [] len :=
  fun pre _ _ h => absurd h.symm (by simp)

theorem nodesFit_cons {t : FragDesc} {l : List FragDesc} {len : UInt16} :
    NodesFit (t :: l) len ↔
      (len = t.offset → t.offset.toNat + t.payloadLen.toNat ≤ payloadSize ∧
        NodesFit l (len + t.payloadLen)) := by
  constructor
  · rintro h rfl
    refine ⟨h [] t l rfl (by simp [copyFits]), fun pre u post hl hfits => ?_⟩
    refine h (t :: pre) u post (by rw [hl, List.cons_append]) ?_
    rw [List.cons_append, copyFits, beq_self_eq_true, Bool.true_and]
    exact hfits
  · intro h pre u post hl hfits
    cases pre with
    | nil =>
      obtain ⟨rfl, -⟩ := List.cons.inj hl
      rw [List.nil_append, copyFits, copyFits, Bool.and_true, beq_iff_eq] at hfits
      exact (h hfits).1
    | cons v pre =>
      obtain ⟨rfl, rfl⟩ := List.cons.inj hl
      rw [List.cons_append, copyFits, Bool.and_eq_true, beq_iff_eq] at hfits
      exact (h hfits.1).2 pre u post rfl hfits.2

/-- The copy leaves the payload exactly behind a node that does not fit. -/
theorem copyLoop_inside_iff {l : List FragDesc} {len : UInt16} {m : Mem} :
    copyLoop l len m ≠ .error .datagramOverrun ↔ NodesFit l len := by
  induction l generalizing len m with
  | nil => exact iff_of_true (by simp [copyLoop]) (nodesFit_nil len)
  | cons t l ih =>
    rw [nodesFit_cons, copyLoop]
    by_cases hoff : len = t.offset
    · rw [if_neg (not_not.mpr hoff), hoff]
      by_cases hover : payloadSize < t.offset.toNat + t.payloadLen.toNat
      · rw [if_pos hover]
        exact iff_of_false (fun h => h rfl) fun h => Nat.not_le.mpr hover (h rfl).1
      · rw [if_neg hover, ih]
        exact ⟨fun h _ => ⟨Nat.le_of_not_lt hover, h⟩, fun h => (h rfl).2⟩
    · rw [if_pos hoff]
      exact iff_of_true (by simp) fun h => absurd h hoff

theorem copyToDatagram_inside_iff {entry : ReassemblyEntry} {l : List FragDesc} {block : Mem} :
    copyToDatagram entry l block ≠ .error .datagramOverrun ↔ NodesFit l 0 := by
  rw [← copyLoop_inside_iff (m := block)]
  unfold copyToDatagram
  rcases copyLoop l 0 block with f | _ | ⟨len, payload⟩
  · exact ⟨fun h he => h (by rw [Except.error.inj he]), fun h he => h (by
      rw [Except.error.inj he])⟩
  · exact iff_of_true (fun h => nomatch h) fun h => nomatch h
  · exact iff_of_true (fun h => nomatch h) fun h => nomatch h

/-! ## Out of the packet -/

/-- `insert_frag_list` is called for the packet. -/
def insertsFragment (st : ReassemblyTable) (pkt : NetPacket) : Bool :=
  (checkReassemblyTable st pkt.ip.src pkt.ip.dest pkt.fragIdentif).isSome ||
    (pkt.fragOffset &&& 0xFFFE = 0 && (findHole st).isSome)

/-- The node holds bytes that the packet has. -/
theorem fragDescOf_inside_iff (pkt : NetPacket) :
    8 + (fragDescOf pkt).payloadLen.toNat ≤ bodyLen ↔
      8 ≤ pkt.ip.hostPayloadLen.toNat ∧ pkt.ip.hostPayloadLen.toNat ≤ 1460 := by
  have hlt := pkt.ip.hostPayloadLen.toNat_lt
  show 8 + (pkt.ip.hostPayloadLen - 8).toNat ≤ 1460 ↔ _
  rw [UInt16.toNat_sub]
  show 8 + (65536 - 8 + pkt.ip.hostPayloadLen.toNat) % 65536 ≤ 1460 ↔ _
  omega

/-- What a packet makes `reassembly` copy lies in the packet, and in the datagram. -/
structure FragmentInside (st : ReassemblyTable) (clktime : UInt32) (block : Mem)
    (pkt : NetPacket) : Prop where
  read : insertsFragment st pkt = true → 8 + (fragDescOf pkt).payloadLen.toNat ≤ bodyLen
  write : reassembly st clktime block pkt ≠ .error .datagramOverrun

/-- The nodes that a last fragment has copied to a datagram fit in it. -/
def CompletionFits (st : ReassemblyTable) (pkt : NetPacket) : Prop :=
  ∀ i, checkReassemblyTable st pkt.ip.src pkt.ip.dest pkt.fragIdentif = some i →
    isLastFragment pkt = true →
    NodesFit (((insertFragList st i pkt).entry i).fragList.getD []) 0

theorem reassembly_inside_iff {st : ReassemblyTable} {clktime : UInt32} {block : Mem}
    {pkt : NetPacket} :
    reassembly st clktime block pkt ≠ .error .datagramOverrun ↔ CompletionFits st pkt := by
  unfold CompletionFits reassembly
  cases hc : checkReassemblyTable st pkt.ip.src pkt.ip.dest pkt.fragIdentif with
  | none =>
    refine iff_of_true ?_ fun i hi => nomatch hi
    dsimp only
    split <;> exact fun h => nomatch h
  | some i =>
    dsimp only
    cases hlast : isLastFragment pkt with
    | false => exact iff_of_true (fun h => nomatch h) fun j _ h => nomatch h
    | true =>
      rw [if_pos rfl]
      have hcopy : copyToDatagram ((insertFragList st i pkt).entry i)
          (((insertFragList st i pkt).entry i).fragList.getD []) block ≠
          .error .datagramOverrun ↔ _ := copyToDatagram_inside_iff
      constructor
      · rintro h j hj -
        obtain rfl := Option.some.inj hj
        refine hcopy.mp fun he => h ?_
        rw [he]
      · intro h
        have hinside := hcopy.mpr (h i rfl rfl)
        rcases hd : copyToDatagram ((insertFragList st i pkt).entry i)
          (((insertFragList st i pkt).entry i).fragList.getD []) block with f | _ | d
        · exact fun he => hinside (by rw [hd, Except.error.inj he])
        · exact fun h => nomatch h
        · exact fun h => nomatch h

/-! ## Runs -/

/-- Every node in the table ends inside the payload of a `Datagram`. -/
def NodesInside (st : ReassemblyTable) : Prop :=
  ∀ i l, (st.entry i).fragList = some l → ∀ t ∈ l,
    t.offset.toNat + t.payloadLen.toNat ≤ payloadSize

/-- The fragment lies in its packet, and its data in a datagram. -/
def Sound (pkt : NetPacket) : Prop :=
  (8 ≤ pkt.ip.hostPayloadLen.toNat ∧ pkt.ip.hostPayloadLen.toNat ≤ 1460) ∧
    (fragDescOf pkt).offset.toNat + (fragDescOf pkt).payloadLen.toNat ≤ payloadSize

instance (pkt : NetPacket) : Decidable (Sound pkt) := inferInstanceAs (Decidable (_ ∧ _))

/-- The event, if it is a fragment that is inserted, is a sound one. -/
def InsertsSound (st : ReassemblyTable) : TableEvent → Prop
  | .arrive _ _ pkt => insertsFragment st pkt = true → Sound pkt
  | .sweep _ => True

section Steps

variable {st st' : ReassemblyTable} {pkt : NetPacket}

theorem nodesInside_init : NodesInside ReassemblyTable.init := by
  have hfree : ∀ i, (ReassemblyTable.init.entry i).fragList = none := by decide
  intro i l hl
  rw [hfree i] at hl
  cases hl

theorem mem_insertNode {l : List FragDesc} {new t : FragDesc} (h : t ∈ insertNode l new) :
    t = new ∨ t ∈ l := by
  rw [insertNode_eq] at h
  exact List.mem_cons.mp ((TailInsert.insert_perm l new).mem_iff.mp h)

theorem NodesInside.insertFragList (h : NodesInside st) (hpkt : Sound pkt)
    (i : Fin reassemblyTableMaxSize) : NodesInside (insertFragList st i pkt) := by
  intro j l hl t ht
  by_cases hij : j = i
  · rw [hij, NatBox.insertFragList, ReassemblyTable.entry_setEntry_self] at hl
    obtain ⟨nodes, hnodes, rfl⟩ := Option.map_eq_some_iff.mp hl
    rcases mem_insertNode ht with rfl | hmem
    · exact hpkt.2
    · exact h i nodes hnodes t hmem
  · rw [NatBox.insertFragList, ReassemblyTable.entry_setEntry_ne _ _ _ hij] at hl
    exact h j l hl t ht

theorem NodesInside.appendReaTable (h : NodesInside st) (clktime : UInt32)
    (hpkt : (findHole st).isSome = true → Sound pkt) :
    NodesInside (appendReaTable st clktime pkt) := by
  cases hhole : findHole st with
  | none =>
    rw [NatBox.appendReaTable, hhole]
    exact h
  | some i =>
    rw [hhole] at hpkt
    intro j l hl t ht
    rw [entry_appendReaTable hhole] at hl
    split at hl
    · obtain rfl := Option.some.inj hl
      rcases mem_insertNode ht with rfl | hmem
      · exact (hpkt rfl).2
      · cases hmem
    · exact h j l hl t ht

theorem NodesInside.removeReaEntry (h : NodesInside st) (i : Fin reassemblyTableMaxSize) :
    NodesInside (removeReaEntry st i) := by
  intro j l hl
  by_cases hij : j = i
  · rw [hij, entry_removeReaEntry_self] at hl
    cases hl
  · rw [entry_removeReaEntry_ne st hij] at hl
    exact h j l hl

theorem NodesInside.sweep (h : NodesInside st) (clktime : UInt32) :
    NodesInside (checkReassemblyTimeOut st clktime) := by
  intro i l hl
  rw [entry_checkReassemblyTimeOut] at hl
  split at hl
  · cases hl
  · exact h i l hl

theorem NodesInside.step {e : TableEvent} {o : Option Datagram} (h : NodesInside st)
    (hs : tableStep st e = .ok (o, st')) (hsound : InsertsSound st e) : NodesInside st' := by
  cases e with
  | sweep clktime =>
    rw [tableStep, Except.ok.injEq, Prod.mk.injEq] at hs
    rw [← hs.2]
    exact h.sweep clktime
  | arrive clktime block pkt =>
    rcases reassembly_cases hs with ⟨hc, -, -⟩ | ⟨i, hi, hrest⟩
    · rw [tableStep, reassembly, hc] at hs
      dsimp only at hs
      split at hs
      · obtain ⟨-, rfl⟩ := Prod.mk.inj (Except.ok.inj hs)
        exact h
      · next hzero =>
        obtain ⟨-, rfl⟩ := Prod.mk.inj (Except.ok.inj hs)
        refine h.appendReaTable clktime fun hhole => hsound ?_
        rw [insertsFragment, hc, hhole, not_not.mp hzero]
        rfl
    · have hpkt : Sound pkt := hsound (by rw [insertsFragment, hi]; rfl)
      have hinsert := h.insertFragList hpkt i
      rcases hrest with ⟨-, -, rfl⟩ | ⟨-, -, rfl⟩
      · exact hinsert
      · exact hinsert.removeReaEntry i

/-- With nodes that end inside there is nothing to overrun. -/
theorem NodesInside.completionFits (h : NodesInside st)
    (hsound : insertsFragment st pkt = true → Sound pkt) : CompletionFits st pkt := by
  intro i hi _ pre t post hl _
  have hinside := h.insertFragList (hsound (by rw [insertsFragment, hi]; rfl)) i
  cases hlist : ((NatBox.insertFragList st i pkt).entry i).fragList with
  | none =>
    rw [hlist] at hl
    exact absurd hl.symm (by simp)
  | some l =>
    rw [hlist, Option.getD_some] at hl
    exact hinside i l hlist t (by rw [hl]; simp)

end Steps

/-- What a fragment makes `reassembly` copy is inside exactly if its length is that of a packet,
if it is inserted, and the nodes fit, if it has them copied; `copy_to_datagram` stays inside
for a list exactly if the nodes fit.  A run on sound fragments meets both. -/
theorem fragments_inside_iff {tr : List (TableEvent × Option Datagram)} {st : ReassemblyTable}
    (hrun : Run tableStep ReassemblyTable.init tr st) :
    (∀ entry l block, copyToDatagram entry l block ≠ .error .datagramOverrun ↔ NodesFit l 0) ∧
    (∀ clktime block pkt,
      FragmentInside st clktime block pkt ↔
        (insertsFragment st pkt = true →
          8 ≤ pkt.ip.hostPayloadLen.toNat ∧ pkt.ip.hostPayloadLen.toNat ≤ 1460) ∧
        CompletionFits st pkt) ∧
    (AllSteps tableStep ReassemblyTable.init (fun st e _ => InsertsSound st e) tr →
      ∀ clktime block pkt, InsertsSound st (.arrive clktime block pkt) →
        FragmentInside st clktime block pkt) := by
  have hinside : ∀ clktime block pkt, FragmentInside st clktime block pkt ↔
      (insertsFragment st pkt = true →
        8 ≤ pkt.ip.hostPayloadLen.toNat ∧ pkt.ip.hostPayloadLen.toNat ≤ 1460) ∧
      CompletionFits st pkt := by
    intro clktime block pkt
    rw [← reassembly_inside_iff, ← fragDescOf_inside_iff]
    exact ⟨fun h => ⟨h.read, h.write⟩, fun h => ⟨h.1, h.2⟩⟩
  refine ⟨fun entry l block => copyToDatagram_inside_iff, hinside, ?_⟩
  intro hall clktime block pkt hpkt
  have hnodes := hrun.invariant_of_allSteps (I := fun _ st => NodesInside st) nodesInside_init
    (fun _ _ _ _ _ h hs hC => NodesInside.step h hs hC) hall
  exact (hinside clktime block pkt).mpr
    ⟨fun hinsert => (hpkt hinsert).1, hnodes.completionFits hpkt⟩

/-- A first fragment of eight bytes. -/
theorem fragments_inside_first :
    FragmentInside ReassemblyTable.init 1 (fun _ => 0) (exampleFragment 1 0x01) :=
  (fragments_inside_iff .start).2.2 allSteps_nil 1 (fun _ => 0) (exampleFragment 1 0x01)
    fun _ => by decide +kernel

/-- A first fragment that states a payload of no bytes. -/
theorem fragments_inside_fails :
    ¬ ∀ tr st, Run tableStep ReassemblyTable.init tr st → ∀ clktime block pkt,
      FragmentInside st clktime block pkt := by
  intro h
  let first := exampleFragment 1 0x01
  have hread := (h [] _ .start 1 (fun _ => 0)
    { first with ip := { first.ip with payloadLen := 0 } }).read (by decide +kernel)
  revert hread
  decide +kernel

end NatBox
