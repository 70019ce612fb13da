import NatBox.Fragment.Table
import NatBox.Lib.TailInsert

/-
The fragment list of an entry: what `insert_node` makes of it, and when
`copy_to_datagram` finds the nodes in it to be a whole datagram.

`insert_node` is an insertion by offset from the tail that gives up after three nodes.
-/

namespace NatBox

/-- Ordering by offset. -/
def FragDesc.Before (a b : FragDesc) : Prop := a.offset.toNat < b.offset.toNat

instance : DecidableRel FragDesc.Before := fun a b => Nat.decLt a.offset.toNat b.offset.toNat

/-- Where a node starts behind the end of the tail it does not start before it. -/
theorem insertLoop_eq (new : FragDesc) (l : List FragDesc) (count : Nat) :
    insertLoop new count l = TailInsert.insertLoop FragDesc.Before 3 new count l := by
  induction l generalizing count with
  | nil => rfl
  | cons tail prev ih =>
    rw [insertLoop, TailInsert.insertLoop]
    by_cases hcount : count = 3
    · rw [if_pos hcount, if_pos hcount]
    · rw [if_neg hcount, if_neg hcount, ih]
      by_cases hbefore : new.Before tail
      · have hlt : new.offset.toNat < tail.offset.toNat := hbefore
        rw [if_pos hbefore, if_neg (by omega), if_pos (UInt16.lt_iff_toNat_lt.mpr hlt)]
      · rw [if_neg hbefore]
        split
        · rfl
        · rw [if_neg (fun h => hbefore (UInt16.lt_iff_toNat_lt.mp h))]

theorem insertNode_eq (l : List FragDesc) (new : FragDesc) :
    insertNode l new = TailInsert.insert FragDesc.Before 3 l new := by
  unfold insertNode TailInsert.insert
  rw [insertLoop_eq]

/-- The list an entry has once the nodes have come in one after another. -/
def insertNodes (nodes : List FragDesc) : List FragDesc := nodes.foldl insertNode []

theorem insertNodes_eq (nodes : List FragDesc) :
    insertNodes nodes = TailInsert.insertAll FragDesc.Before 3 nodes := by
  unfold insertNodes TailInsert.insertAll
  congr
  funext l new
  exact insertNode_eq l new

theorem insertNodes_concat (nodes : List FragDesc) (new : FragDesc) :
    insertNodes (nodes ++ [new]) = insertNode (insertNodes nodes) new := by
  unfold insertNodes
  rw [List.foldl_append]
  rfl

theorem insertNodes_perm (nodes : List FragDesc) : (insertNodes nodes).Perm nodes := by
  rw [insertNodes_eq]
  exact TailInsert.insertAll_perm nodes

/-- The data of the nodes, one after another. -/
def dataOf (l : List FragDesc) : List UInt8 := l.flatMap (·.payload)

theorem dataOf_cons (t : FragDesc) (l : List FragDesc) :
    dataOf (t :: l) = t.payload ++ dataOf l := rfl

/-- The copy does not run past a `Datagram`, and is the data of the nodes if these fit. -/
theorem copyLoop_eq {l : List FragDesc}
    (hend : ∀ t ∈ l, t.offset.toNat + t.payloadLen.toNat < 65536) (len : UInt16) (payload : Mem) :
    copyLoop l len payload = .ok
      (if copyFits l len = true then
        some (UInt16.ofNat (len.toNat + (dataOf l).length), payload.write len.toNat (dataOf l))
      else none) := by
  induction l generalizing len payload with
  | nil =>
    show _ = Except.ok (some (UInt16.ofNat (len.toNat + 0), payload.write len.toNat []))
    rw [Mem.write_nil, Nat.add_zero, UInt16.ofNat_toNat]
    rfl
  | cons t l ih =>
    have ht := hend t List.mem_cons_self
    rw [copyLoop, copyFits]
    by_cases hoff : len = t.offset
    · have hroom : ¬ payloadSize < len.toNat + t.payloadLen.toNat := by
        rw [hoff]
        show ¬ 65536 < t.offset.toNat + t.payloadLen.toNat
        omega
      have hlen : (len + t.payloadLen).toNat = len.toNat + t.payload.length := by
        rw [t.length_payload, UInt16.toNat_add, hoff]
        omega
      rw [if_neg (not_not.mpr hoff), if_neg hroom,
        ih (fun u hu => hend u (List.mem_cons_of_mem t hu)), hlen, Mem.write_append,
        beq_iff_eq.mpr hoff, Bool.true_and, dataOf_cons, List.length_append, Nat.add_assoc]
    · rw [if_pos hoff, beq_eq_false_iff_ne.mpr hoff]
      rfl

/-! ## Whole datagrams -/

/-- Nodes with data in each, from offset `start` on to `total`, without a gap. -/
inductive Tiles (total : Nat) : Nat → List FragDesc → Prop
  | nil : Tiles total total []
  | cons {start : Nat} {t : FragDesc} {ts : List FragDesc} :
      t.offset.toNat = start → 0 < t.payloadLen.toNat →
      Tiles total (start + t.payloadLen.toNat) ts → Tiles total start (t :: ts)

section Tiling

variable {total start : Nat} {ts : List FragDesc}

theorem Tiles.le (h : Tiles total start ts) : start ≤ total := by
  induction h with
  | nil => exact Nat.le_refl total
  | cons _ _ _ ih => omega

theorem Tiles.mem (h : Tiles total start ts) {t : FragDesc} (ht : t ∈ ts) :
    start ≤ t.offset.toNat ∧ 0 < t.payloadLen.toNat ∧
      t.offset.toNat + t.payloadLen.toNat ≤ total := by
  induction h with
  | nil => cases ht
  | @cons start u us hoff hpos hrest ih =>
    have hle := hrest.le
    cases List.mem_cons.mp ht with
    | inl heq =>
      rw [heq]
      omega
    | inr hmem =>
      have hih := ih hmem
      omega

theorem Tiles.offset_eq {pre post : List FragDesc} {t : FragDesc}
    (h : Tiles total start (pre ++ t :: post)) :
    t.offset.toNat = start + (dataOf pre).length := by
  induction pre generalizing start with
  | nil =>
    cases h with
    | cons hoff _ _ => exact hoff
  | cons u pre ih =>
    cases h with
    | cons _ _ hrest =>
      rw [ih hrest, dataOf_cons, List.length_append, u.length_payload, Nat.add_assoc]

theorem Tiles.pairwise (h : Tiles total start ts) : ts.Pairwise FragDesc.Before := by
  induction h with
  | nil => exact List.Pairwise.nil
  | @cons start u us hoff hpos hrest ih =>
    apply List.Pairwise.cons _ ih
    intro t ht
    have hmem := hrest.mem ht
    show u.offset.toNat < t.offset.toNat
    omega

theorem Tiles.copyFits (h : Tiles total start ts) :
    copyFits ts (UInt16.ofNat start) = true := by
  induction h with
  | nil => rfl
  | @cons start u us hoff hpos hrest ih =>
    have hle := hrest.le
    have hu : UInt16.ofNat start = u.offset := by
      rw [← hoff, UInt16.ofNat_toNat]
    have hnext : UInt16.ofNat (start + u.payloadLen.toNat) = u.offset + u.payloadLen := by
      rw [UInt16.ofNat_add, hu, UInt16.ofNat_toNat]
    rw [NatBox.copyFits, hu, beq_self_eq_true, Bool.true_and, ← hnext]
    exact ih

/-- Nodes out of a tiling that fit together from `start` on are its first ones. -/
theorem Tiles.prefix_of_copyFits (h : Tiles total start ts) (htotal : total < 65536)
    {l : List FragDesc} (hmem : ∀ t ∈ l, t ∈ ts ∨ t.offset.toNat < start)
    (hfits : NatBox.copyFits l (UInt16.ofNat start) = true) : l <+: ts := by
  induction l generalizing start ts with
  | nil => exact List.nil_prefix
  | cons t l ih =>
    rw [NatBox.copyFits, Bool.and_eq_true, beq_iff_eq] at hfits
    have hle := h.le
    have hoff : t.offset.toNat = start := by
      rw [← hfits.1, UInt16.toNat_ofNat']
      exact Nat.mod_eq_of_lt (by omega)
    have hts : t ∈ ts := (hmem t List.mem_cons_self).resolve_right (by omega)
    cases h with
    | nil => cases hts
    | @cons _ u us hu hpos hrest =>
      have htu : t = u := by
        cases List.mem_cons.mp hts with
        | inl heq => exact heq
        | inr hus =>
          have hlow := (hrest.mem hus).1
          omega
      have hnext : UInt16.ofNat start + t.payloadLen =
          UInt16.ofNat (start + u.payloadLen.toNat) := by
        rw [UInt16.ofNat_add, htu, UInt16.ofNat_toNat]
      rw [hnext] at hfits
      rw [htu]
      apply List.cons_prefix_cons.mpr
      refine ⟨rfl, ih hrest ?_ hfits.2⟩
      intro v hv
      cases hmem v (List.mem_cons_of_mem t hv) with
      | inl hvts =>
        cases List.mem_cons.mp hvts with
        | inl heq =>
          right
          rw [heq]
          omega
        | inr hvus => exact Or.inl hvus
      | inr hlt =>
        right
        omega

/-- Nodes out of a tiling, its last one among them, fit together exactly when they are
all of it in order. -/
theorem Tiles.copyFits_iff {z : FragDesc} (h : Tiles total 0 (ts ++ [z])) (htotal : total < 65536)
    {l : List FragDesc} (hmem : ∀ t ∈ l, t ∈ ts ++ [z]) (hz : z ∈ l) :
    NatBox.copyFits l 0 = true ↔ l = ts ++ [z] := by
  constructor
  · intro hfits
    have hpre := h.prefix_of_copyFits htotal (fun t ht => Or.inl (hmem t ht)) hfits
    cases List.prefix_concat_iff.mp hpre with
    | inl heq => exact heq
    | inr hpre' =>
      have hzts := hpre'.subset hz
      have hlt := (List.pairwise_append.mp h.pairwise).2.2 z hzts z (List.mem_singleton.mpr rfl)
      exact absurd hlt (Nat.lt_irrefl _)
  · intro heq
    rw [heq]
    exact h.copyFits

end Tiling

end NatBox
