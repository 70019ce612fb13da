import NatBox.Fragment.Collect
import NatBox.Fragment.Send

/-
The packets of `fragmentDatagram` as the receiver reads them.

If `max_payload_len` is a multiple of eight, every piece but the last has a length that
is one too, the rounding of `fillFragmentHeader` changes no offset, and the nodes tile the
payload.  `checkLength` leaves values up to eight alone, so with an MTU of 49 to 55 the
pieces are shorter than eight bytes and the offsets of most are rounded away.
-/

namespace NatBox

section Fragments

variable {identif : UInt32} {d : Datagram} {max : UInt16} {start : Nat} {pkts : List NetPacket}
  {pkt : NetPacket}

theorem Fragments.mem (h : Fragments identif d max start pkts) (hp : pkt ∈ pkts) :
    ∃ s, IsFragment identif d s pkt ∧
      (fragDescOf pkt).payloadLen = fragPayloadLen max (UInt16.ofNat (d.payloadLen.toNat - s)) := by
  induction h with
  | nil => cases hp
  | @cons s p ps hfrag hlen _ _ ih =>
    cases List.mem_cons.mp hp with
    | inl heq =>
      rw [heq]
      exact ⟨s, hfrag, hlen⟩
    | inr hmem => exact ih hmem

/-- What remains behind `start`, as the loop counts it. -/
theorem toNat_remain (d : Datagram) (start : Nat) :
    (UInt16.ofNat (d.payloadLen.toNat - start)).toNat = d.payloadLen.toNat - start := by
  have hd := d.payloadLen.toNat_lt
  rw [UInt16.toNat_ofNat']
  exact Nat.mod_eq_of_lt (by omega)

theorem IsFragment.remain_ne_zero (h : IsFragment identif d start pkt) :
    UInt16.ofNat (d.payloadLen.toNat - start) ≠ 0 := by
  intro hzero
  have hremain := toNat_remain d start
  have hpos := h.pos
  have hle := h.le_payloadLen
  rw [hzero, show (0 : UInt16).toNat = 0 from rfl] at hremain
  omega

theorem Fragments.head (h : Fragments identif d max start (pkt :: pkts)) :
    IsFragment identif d start pkt := by
  cases h with
  | cons hfrag _ _ _ => exact hfrag

theorem Fragments.tail (h : Fragments identif d max start (pkt :: pkts)) :
    Fragments identif d max (start + (fragDescOf pkt).payloadLen.toNat) pkts := by
  cases h with
  | cons _ _ _ hrest => exact hrest

theorem Fragments.payloadLen_le (h : Fragments identif d max start pkts) (hmax : max ≠ 0)
    (hp : pkt ∈ pkts) : (fragDescOf pkt).payloadLen.toNat ≤ max.toNat := by
  obtain ⟨s, hfrag, hlen⟩ := h.mem hp
  rw [hlen]
  exact (fragPayloadLen_cases hmax hfrag.remain_ne_zero).2.2.1

theorem Fragments.end_lt (h : Fragments identif d max start pkts) (hp : pkt ∈ pkts) :
    (fragDescOf pkt).offset.toNat + (fragDescOf pkt).payloadLen.toNat < 65536 := by
  obtain ⟨s, hfrag, -⟩ := h.mem hp
  have hd := d.payloadLen.toNat_lt
  have hoff := hfrag.offset_eq
  have hle := hfrag.le_payloadLen
  omega

theorem Fragments.sameDatagram (h : Fragments identif d max start pkts) {first : NetPacket}
    (hfirst : first ∈ pkts) (hp : pkt ∈ pkts) : SameDatagram first pkt := by
  obtain ⟨s, hs, -⟩ := h.mem hp
  obtain ⟨s', hs', -⟩ := h.mem hfirst
  constructor
  · rw [hs.ip_eq, hs'.ip_eq]
  · rw [hs.ip_eq, hs'.ip_eq]
  · rw [hs.identif_eq, hs'.identif_eq]

/-- The fragments carry the payload, all of it and once. -/
theorem Fragments.dataOf_eq (h : Fragments identif d max start pkts) :
    dataOf (pkts.map fragDescOf) = d.payload.read start (d.payloadLen.toNat - start) := by
  induction h with
  | nil =>
    rw [Nat.sub_self]
    rfl
  | @cons s p ps hfrag _ _ _ ih =>
    have hle := hfrag.le_payloadLen
    rw [List.map_cons, dataOf_cons, ih, hfrag.payload_eq, ← Mem.read_add]
    congr 1
    omega

theorem Fragments.suffix {pre rest : List NetPacket}
    (h : Fragments identif d max start (pre ++ rest)) : ∃ s, Fragments identif d max s rest := by
  induction pre generalizing start with
  | nil => exact ⟨start, h⟩
  | cons p pre ih =>
    exact ih h.tail

theorem Fragments.last_iff {pre post : List NetPacket}
    (h : Fragments identif d max start (pre ++ pkt :: post)) :
    isLastFragment pkt = true ↔ post = [] := by
  cases h.suffix with
  | intro s hs =>
    cases hs with
    | cons _ _ hlast _ => exact hlast

/-- All pieces but the last are multiples of eight long if the maximum is. -/
theorem Fragments.eight_dvd (h : Fragments identif d max start (pkt :: pkts)) (hmax : max ≠ 0)
    (h8 : 8 ∣ max.toNat) (hne : pkts ≠ []) : 8 ∣ (fragDescOf pkt).payloadLen.toNat := by
  cases h with
  | cons hfrag hlen _ hrest =>
    have hcases := (fragPayloadLen_cases hmax hfrag.remain_ne_zero).2.2.2 h8
    rw [← hlen] at hcases
    cases hcases with
    | inr hdvd => exact hdvd
    | inl hall =>
      -- nothing remains for the packets behind it
      have hremain := toNat_remain d start
      rw [← hall] at hremain
      cases pkts with
      | nil => exact absurd rfl hne
      | cons q qs =>
        have hpos := hrest.head.pos
        have hle := hrest.head.le_payloadLen
        omega

theorem Fragments.tiles (h : Fragments identif d max start pkts) (hmax : max ≠ 0)
    (h8 : 8 ∣ max.toNat) (hstart : 8 ∣ start) :
    Tiles d.payloadLen.toNat start (pkts.map fragDescOf) := by
  induction h with
  | nil => exact Tiles.nil
  | @cons s p ps hfrag hlen hlast hrest ih =>
    apply Tiles.cons
    · rw [hfrag.offset_eq]
      omega
    · exact hfrag.pos
    · cases ps with
      | nil =>
        rw [hrest.start_eq]
        exact Tiles.nil
      | cons q qs =>
        have hall := Fragments.cons hfrag hlen hlast hrest
        have hdvd := hall.eight_dvd hmax h8 (List.cons_ne_nil q qs)
        exact ih (by omega)

end Fragments

/-- The packets partition the payload of the datagram: in order and without a gap, in
multiples of eight but for the last, which alone has no M flag. -/
structure Partitions (d : Datagram) (frames : List NetPacket) : Prop where
  data : dataOf (frames.map fragDescOf) = d.payload.read 0 d.payloadLen.toNat
  offset : ∀ pre pkt post, frames = pre ++ pkt :: post →
    (fragDescOf pkt).offset.toNat = (dataOf (pre.map fragDescOf)).length
  nonempty : ∀ pkt ∈ frames, 0 < (fragDescOf pkt).payload.length
  more : ∀ pkt ∈ frames, isLastFragment pkt = false →
    8 ∣ (fragDescOf pkt).payload.length ∧ 8 ∣ (fragDescOf pkt).offset.toNat
  last : ∀ pre pkt post, frames = pre ++ pkt :: post → (isLastFragment pkt = true ↔ post = [])

theorem Fragments.partitions {identif : UInt32} {d : Datagram} {max : UInt16}
    {frames : List NetPacket} (h : Fragments identif d max 0 frames) (hmax : max ≠ 0)
    (h8 : 8 ∣ max.toNat) : Partitions d frames where
  data := h.dataOf_eq
  offset pre pkt post heq := by
    have htiles := h.tiles hmax h8 (Nat.dvd_zero 8)
    rw [heq, List.map_append, List.map_cons] at htiles
    rw [htiles.offset_eq, Nat.zero_add]
  nonempty pkt hp := by
    obtain ⟨s, hfrag, -⟩ := h.mem hp
    rw [(fragDescOf pkt).length_payload]
    exact hfrag.pos
  more pkt hp hmore := by
    refine ⟨?_, ?_⟩
    · obtain ⟨pre, post, heq⟩ := List.append_of_mem hp
      rw [heq] at h
      have hpost : post ≠ [] := by
        intro hnil
        rw [h.last_iff.mpr hnil] at hmore
        cases hmore
      cases h.suffix with
      | intro s hs =>
        rw [(fragDescOf pkt).length_payload]
        exact hs.eight_dvd hmax h8 hpost
    · obtain ⟨s, hfrag, -⟩ := h.mem hp
      rw [hfrag.offset_eq]
      exact Nat.dvd_mul_left 8 _
  last pre pkt post heq := by
    rw [heq] at h
    exact h.last_iff

/-- The packets in front of others are not yet a partition. -/
theorem Fragments.not_partitions_front {identif : UInt32} {d : Datagram} {max : UInt16}
    {frames post : List NetPacket} {pkt : NetPacket}
    (h : Fragments identif d max 0 (frames ++ pkt :: post)) : ¬ Partitions d frames := by
  intro hpart
  have hall := h.dataOf_eq
  rw [Nat.sub_zero, ← hpart.data, List.map_append, List.map_cons, dataOf, List.flatMap_append,
    ← dataOf, ← dataOf, dataOf_cons] at hall
  obtain ⟨hnil, -⟩ := List.append_eq_nil_iff.mp (List.append_right_eq_self.mp hall)
  obtain ⟨s, hfrag, -⟩ := h.mem (List.mem_append_right frames List.mem_cons_self)
  have hpos := hfrag.pos
  rw [← (fragDescOf pkt).length_payload, hnil] at hpos
  exact Nat.lt_irrefl 0 hpos

end NatBox
