import Mathlib.Data.List.Perm.Subperm
import NatBox.Fragment.Partition

/-
Fragmentation and reassembly together: the packets `fragmentDatagram` sends arrive at a
table that knows nothing of the datagram.

In order they give the datagram back (`reassembles_in_order`).  In any other order they do
so only if the final fragment comes last, no fragment has come twice by then, and none had
to pass more than three others (`reassembled_iff_timely`): completion is tried when the
fragment without M flag arrives and not again, a repeated fragment stays in the list, and
`insert_node` gives up after three nodes.
-/

namespace NatBox

open Runs

/-- An order of arrival that `insert_node` can sort and that ends with the final
fragment. -/
structure Timely {n : Nat} (frags : List (Fin n)) : Prop where
  distinct : frags.Nodup
  final : ∀ k ∈ frags.getLast?, k.val + 1 = n
  passes : ∀ pre k post, frags = pre ++ k :: post → pre.countP (fun j => k < j) ≤ 3

/-- In order nothing passes anything. -/
theorem timely_finRange (n : Nat) : Timely (List.finRange n) where
  distinct := List.nodup_finRange n
  final k hk := by
    rw [Option.mem_def, List.getLast?_eq_getElem?, List.length_finRange,
      List.getElem?_eq_some_iff] at hk
    obtain ⟨hlt, hk⟩ := hk
    rw [List.getElem_finRange] at hk
    rw [List.length_finRange] at hlt
    rw [← hk]
    show n - 1 + 1 = n
    omega
  passes pre k post heq := by
    have hsorted := List.pairwise_lt_finRange n
    rw [heq] at hsorted
    have hzero : pre.countP (fun j => k < j) = 0 := by
      rw [List.countP_eq_zero]
      intro j hj hkj
      have hjk := (List.pairwise_append.mp hsorted).2.2 j hj k List.mem_cons_self
      exact absurd (of_decide_eq_true hkj) (Nat.lt_asymm hjk)
    rw [hzero]
    exact Nat.zero_le 3

/-- Distinct indices, as many as there are, are all of them. -/
theorem perm_finRange_iff {n : Nat} {frags : List (Fin n)} :
    frags.Perm (List.finRange n) ↔ frags.Nodup ∧ frags.length = n := by
  constructor
  · intro h
    exact ⟨h.nodup_iff.mpr (List.nodup_finRange n), h.length_eq.trans List.length_finRange⟩
  · intro h
    have hsub : List.Subperm frags (List.finRange n) :=
      List.Nodup.subperm h.1 fun k _ => List.mem_finRange k
    apply hsub.perm_of_length_le
    rw [List.length_finRange, h.2]

section Completion

variable {identif : UInt32} {d : Datagram} {max : UInt16} {frames : List NetPacket}
  {arrivals pre : List (Arrival frames.length)} {a : Arrival frames.length}

theorem eq_take_append_get (k : Fin frames.length) :
    frames = frames.take k.val ++ frames.get k :: frames.drop (k.val + 1) := by
  have hsplit := List.take_append_drop k.val frames
  rw [List.drop_eq_getElem_cons k.isLt] at hsplit
  exact hsplit.symm

theorem Fragments.isLastFragment_get (h : Fragments identif d max 0 frames)
    (k : Fin frames.length) : isLastFragment (frames.get k) = true ↔ k.val + 1 = frames.length := by
  have heq := eq_take_append_get k
  have h' := h
  rw [heq] at h'
  rw [h'.last_iff, List.drop_eq_nil_iff]
  have hlt := k.isLt
  omega

/-- Fragments compare as their indices do. -/
theorem Fragments.before_iff (h : Fragments identif d max 0 frames) (hmax : max ≠ 0)
    (h8 : 8 ∣ max.toNat) (j k : Fin frames.length) :
    (fragDescOf (frames.get j)).Before (fragDescOf (frames.get k)) ↔ j < k := by
  have hpair := List.pairwise_map.mp (h.tiles hmax h8 (Nat.dvd_zero 8)).pairwise
  rw [List.pairwise_iff_getElem] at hpair
  constructor
  · intro hbefore
    by_contra hlt
    cases Nat.eq_or_lt_of_le (Nat.le_of_not_lt hlt) with
    | inl heq =>
      rw [Fin.ext heq] at hbefore
      exact absurd hbefore (Nat.lt_irrefl _)
    | inr hgt => exact absurd hbefore (Nat.lt_asymm (hpair k.val j.val k.isLt j.isLt hgt))
  · intro hlt
    exact hpair j.val k.val j.isLt k.isLt hlt

/-- The arrivals leave the list of the whole datagram exactly when they are all fragments,
none of them after more than three of those behind it. -/
theorem Fragments.nodesOf_eq_iff (h : Fragments identif d max 0 frames) (hmax : max ≠ 0)
    (h8 : 8 ∣ max.toNat) :
    nodesOf frames arrivals = frames.map fragDescOf ↔
      (arrivals.map (·.frag)).Perm (List.finRange frames.length) ∧
        ∀ pre k post, arrivals.map (·.frag) = pre ++ k :: post →
          pre.countP (fun j => k < j) ≤ 3 := by
  have hbefore := h.before_iff hmax h8
  have hstrict : IsStrictOrder (Fin frames.length) fun j k => j < k :=
    { irrefl := fun j => Nat.lt_irrefl j.val, trans := fun _ _ _ => Nat.lt_trans }
  have hinj : Function.Injective fun k : Fin frames.length => fragDescOf (frames.get k) := by
    intro j k hjk
    have hjk' : fragDescOf (frames.get j) = fragDescOf (frames.get k) := hjk
    have hnlt : ¬ j < k := by
      rw [← hbefore, hjk']
      exact Nat.lt_irrefl _
    have hngt : ¬ k < j := by
      rw [← hbefore, hjk']
      exact Nat.lt_irrefl _
    apply Fin.ext
    have h₁ : ¬ j.val < k.val := hnlt
    have h₂ : ¬ k.val < j.val := hngt
    omega
  have hnodes : nodesOf frames arrivals =
      (TailInsert.insertAll (· < ·) 3 (arrivals.map (·.frag))).map
        fun k => fragDescOf (frames.get k) := by
    unfold nodesOf
    rw [insertNodes_eq, ← TailInsert.insertAll_map hbefore, List.map_map]
    rfl
  have hall : frames.map fragDescOf =
      (List.finRange frames.length).map fun k => fragDescOf (frames.get k) := by
    have hget := congrArg (List.map fragDescOf) (List.map_get_finRange frames)
    rw [List.map_map] at hget
    exact hget.symm
  rw [hnodes, hall, (List.map_injective_iff.mpr hinj).eq_iff,
    TailInsert.insertAll_eq_iff (List.pairwise_lt_finRange _)]

theorem mem_nodesOf_of_mem (ha : a ∈ arrivals) :
    fragDescOf (frames.get a.frag) ∈ nodesOf frames arrivals :=
  (insertNodes_perm _).mem_iff.mpr (List.mem_map.mpr ⟨a, ha, rfl⟩)

/-- Pieces of multiples of eight: what completes the datagram. -/
theorem Fragments.completesAt_iff (h : Fragments identif d max 0 frames) (hmax : max ≠ 0)
    (h8 : 8 ∣ max.toNat) :
    completesAt frames pre a = true ↔
      isLastFragment (frames.get a.frag) = true ∧
        nodesOf frames (pre ++ [a]) = frames.map fragDescOf := by
  unfold completesAt
  rw [Bool.and_eq_true]
  refine and_congr_right fun hlast => ?_
  have hk := (h.isLastFragment_get a.frag).mp hlast
  have heq : frames.map fragDescOf =
      (frames.take a.frag.val).map fragDescOf ++ [fragDescOf (frames.get a.frag)] := by
    have hsplit := eq_take_append_get a.frag
    rw [hk, List.drop_length] at hsplit
    have hmap := congrArg (List.map fragDescOf) hsplit
    rwa [List.map_append] at hmap
  have htiles := h.tiles hmax h8 (Nat.dvd_zero 8)
  rw [heq] at htiles ⊢
  apply htiles.copyFits_iff d.payloadLen.toNat_lt
  · intro t ht
    obtain ⟨pkt, hpkt, htp⟩ := mem_nodesOf ht
    rw [← heq, htp]
    exact List.mem_map_of_mem hpkt
  · exact mem_nodesOf_of_mem (List.mem_append_right pre (List.mem_singleton.mpr rfl))

theorem Fragments.completesAt_iff_timely (h : Fragments identif d max 0 frames) (hmax : max ≠ 0)
    (h8 : 8 ∣ max.toNat) :
    completesAt frames pre a = true ↔
      Timely ((pre ++ [a]).map (·.frag)) ∧ (pre ++ [a]).length = frames.length := by
  rw [h.completesAt_iff hmax h8, h.nodesOf_eq_iff hmax h8, perm_finRange_iff,
    h.isLastFragment_get, List.length_map]
  have hgetLast : ((pre ++ [a]).map (·.frag)).getLast? = some a.frag := by
    rw [List.map_append, List.map_singleton, List.getLast?_concat]
  constructor
  · intro hc
    refine ⟨⟨hc.2.1.1, ?_, hc.2.2⟩, hc.2.1.2⟩
    intro k hk
    rw [hgetLast, Option.mem_some_iff] at hk
    rw [← hk]
    exact hc.1
  · intro ht
    exact ⟨ht.1.final a.frag (by rw [hgetLast]; rfl), ⟨ht.1.distinct, ht.2⟩, ht.1.passes⟩

/-- Pieces of less than eight bytes never fit behind each other. -/
theorem Fragments.completesAt_of_lt (h : Fragments identif d max 0 frames) (hmax : max ≠ 0)
    (hlt : max.toNat < 8) (hpre : pre ≠ []) : completesAt frames pre a = false := by
  have hlen : (nodesOf frames (pre ++ [a])).length = pre.length + 1 := by
    unfold nodesOf
    rw [(insertNodes_perm _).length_eq, List.length_map, List.length_append, List.length_singleton]
  have hpos := List.length_pos_iff.mpr hpre
  unfold completesAt
  rw [Bool.and_eq_false_iff]
  right
  cases hnodes : nodesOf frames (pre ++ [a]) with
  | nil =>
    rw [hnodes, List.length_nil] at hlen
    omega
  | cons x l =>
    cases l with
    | nil =>
      rw [hnodes, List.length_singleton] at hlen
      omega
    | cons y l =>
      have hx : x ∈ nodesOf frames (pre ++ [a]) := by
        rw [hnodes]
        exact List.mem_cons_self
      have hy : y ∈ nodesOf frames (pre ++ [a]) := by
        rw [hnodes]
        exact List.mem_cons_of_mem x List.mem_cons_self
      obtain ⟨p, hp, hxp⟩ := mem_nodesOf hx
      obtain ⟨q, hq, hyq⟩ := mem_nodesOf hy
      obtain ⟨s, hs, -⟩ := h.mem hp
      obtain ⟨s', hs', -⟩ := h.mem hq
      have hplen := h.payloadLen_le hmax hp
      have hppos := hs.pos
      have hqoff := hs'.offset_eq
      rw [copyFits, copyFits, Bool.and_eq_false_iff]
      right
      rw [Bool.and_eq_false_iff]
      left
      rw [beq_eq_false_iff_ne]
      intro heq
      rw [UInt16.zero_add, hxp, hyq] at heq
      rw [← heq] at hqoff
      omega

end Completion

/-! ## From the sender to the receiver -/

/-- The table has room for a datagram and holds nothing of it. -/
structure Admits (st : ReassemblyTable) (src dest : Ipv6Addr) (identif : UInt32) : Prop where
  free : ∃ i, (st.entry i).isLive = false
  fresh : ∀ i, (st.entry i).isLive = true → (st.entry i).hasKey src dest identif = false

/-- The datagram `d'` has exactly the payload of `d`. -/
def SamePayload (d' d : Datagram) : Prop :=
  d'.payloadLen = d.payloadLen ∧
    d'.payload.read 0 d'.payloadLen.toNat = d.payload.read 0 d.payloadLen.toNat

section Delivery

variable {identif : UInt32} {d : Datagram} {max : UInt16} {frames : List NetPacket}
  {st : ReassemblyTable} {a₀ a : Arrival frames.length} {rest : List (Arrival frames.length)}

theorem Fragments.samePayload (h : Fragments identif d max 0 frames) (first : NetPacket)
    (block : Mem) :
    SamePayload (completedDatagram first block (frames.map fragDescOf)) d := by
  have hdata := h.dataOf_eq
  rw [Nat.sub_zero] at hdata
  have hlen : UInt16.ofNat (dataOf (frames.map fragDescOf)).length = d.payloadLen := by
    rw [hdata, Mem.length_read, UInt16.ofNat_toNat]
  refine ⟨hlen, ?_⟩
  show (block.write 0 (dataOf (frames.map fragDescOf))).read 0
    (UInt16.ofNat (dataOf (frames.map fragDescOf)).length).toNat = _
  rw [hlen, hdata]
  have hread := Mem.read_write_self block 0 (d.payload.read 0 d.payloadLen.toNat)
  rwa [Mem.length_read] at hread

/-- The headers come back if they stated the length of the payload. -/
theorem Fragments.headers_eq (h : Fragments identif d max 0 frames)
    (hstated : d.headers.payloadLen = htons d.payloadLen) {first : NetPacket}
    (hfirst : first ∈ frames) (block : Mem) :
    (completedDatagram first block (frames.map fragDescOf)).headers = d.headers := by
  obtain ⟨s, hfrag, -⟩ := h.mem hfirst
  have hlen := (h.samePayload first block).1
  show updateDatagramHeaders first.ip
    (completedDatagram first block (frames.map fragDescOf)).payloadLen first.fragNextHeader = _
  rw [hlen, hfrag.ip_eq, hfrag.nextHeader_eq, updateDatagramHeaders, if_pos rfl]
  show { d.headers with payloadLen := htons d.payloadLen } = d.headers
  rw [← hstated]

theorem Fragments.collects_start (h : Fragments identif d max 0 frames) (hc : TableCounts st)
    (hadmits : Admits st d.headers.src d.headers.dest identif) (hfirst : a₀.frag.val = 0) :
    ∃ st₁ i, tableStep st (a₀.event frames) = .ok (none, st₁) ∧
      Collects st₁ (frames.get a₀.frag) i (nodesOf frames [a₀]) := by
  have hfrag : IsFragment identif d 0 (frames.get a₀.frag) := by
    have hsplit := eq_take_append_get a₀.frag
    rw [hfirst, List.take_zero, List.nil_append] at hsplit
    have h' := h
    rw [hsplit] at h'
    exact h'.head
  have hoff : (fragDescOf (frames.get a₀.frag)).offset = 0 := by
    apply UInt16.toNat_inj.mp
    rw [hfrag.offset_eq]
    rfl
  apply Collects.start hc hadmits.free _ hoff
  rw [hfrag.identif_eq, hfrag.ip_eq]
  exact hadmits.fresh

/-- A timely order hands the datagram on with its last arrival. -/
theorem Fragments.delivers_of_timely (h : Fragments identif d max 0 frames) (hmax : max ≠ 0)
    (h8 : 8 ∣ max.toNat) (hc : TableCounts st)
    (hadmits : Admits st d.headers.src d.headers.dest identif) (hfirst : a₀.frag.val = 0)
    (htimely : Timely ((a₀ :: rest ++ [a]).map (·.frag)))
    (hlen : (a₀ :: rest ++ [a]).length = frames.length) :
    ∃ st', exec tableStep st ((a₀ :: rest ++ [a]).map (Arrival.event frames)) =
      .ok (List.replicate (rest.length + 1) none ++
        [some (completedDatagram (frames.get a₀.frag) a.block (frames.map fragDescOf))], st') := by
  obtain ⟨st₁, i, hstart, hcol⟩ := h.collects_start hc hadmits hfirst
  have hlast : completesAt frames (a₀ :: rest) a = true :=
    (h.completesAt_iff_timely hmax h8).mpr ⟨htimely, hlen⟩
  have hno : ∀ pre b, pre ++ [b] <+: rest → completesAt frames (a₀ :: pre) b = false := by
    intro pre b hpre
    rw [← Bool.not_eq_true, h.completesAt_iff_timely hmax h8]
    intro hearly
    have hshort := hpre.length_le
    have hlen' := hearly.2
    simp only [List.length_append, List.length_cons, List.length_nil] at hlen hlen' hshort
    omega
  have hexec := exec_of_completesAt hstart hcol
    (fun pkt hp => h.sameDatagram (List.get_mem frames a₀.frag) hp)
    (fun pkt hp => h.end_lt hp) hno hlast
  rw [((h.completesAt_iff hmax h8).mp hlast).2] at hexec
  exact hexec

theorem Fragments.two_le (h : Fragments identif d max 0 frames) (hmax : max ≠ 0)
    (hlong : max.toNat < d.payloadLen.toNat) : 2 ≤ frames.length := by
  cases frames with
  | nil =>
    have hstart := h.start_eq
    omega
  | cons p ps =>
    cases ps with
    | nil =>
      have hle := h.payloadLen_le hmax List.mem_cons_self
      have hstart := h.tail.start_eq
      omega
    | cons q qs =>
      rw [List.length_cons, List.length_cons]
      omega

end Delivery

/-- The packets that `fragmentDatagram` writes partition the payload of `d`, and in order they
give `d` back. -/
def ReassemblesInOrder (cfg : Config) (nd solicited : NDCache) (identif : UInt32) (d : Datagram)
    (mtu : UInt32) (pool : Ipv6BufPool) (st : ReassemblyTable) : Prop :=
  ∃ frames, framesOf (fragmentDatagram cfg nd solicited identif d mtu pool).1 = frames ∧
    Partitions d frames ∧
    ∀ arrivals : List (Arrival frames.length),
      arrivals.map (·.frag) = List.finRange frames.length →
      ∃ st' d', exec tableStep st (arrivals.map (Arrival.event frames)) =
          .ok (List.replicate (frames.length - 1) none ++ [some d'], st') ∧
        d'.headers = d.headers ∧ SamePayload d' d

section InOrder

variable {cfg : Config} {nd solicited : NDCache} {identif : UInt32} {d : Datagram} {mtu : UInt32}
  {max : UInt16} {frames : List NetPacket} {st : ReassemblyTable} {pool : Ipv6BufPool}

/-- All fragments in order give the datagram back. -/
theorem Fragments.delivers_in_order (h : Fragments identif d max 0 frames) (hmax : max ≠ 0)
    (h8 : 8 ∣ max.toNat) (htwo : 2 ≤ frames.length)
    (hstated : d.headers.payloadLen = htons d.payloadLen) (hc : TableCounts st)
    (hadmits : Admits st d.headers.src d.headers.dest identif)
    {arrivals : List (Arrival frames.length)}
    (horder : arrivals.map (·.frag) = List.finRange frames.length) :
    ∃ st' d', exec tableStep st (arrivals.map (Arrival.event frames)) =
        .ok (List.replicate (frames.length - 1) none ++ [some d'], st') ∧
      d'.headers = d.headers ∧ SamePayload d' d := by
  have hlen : arrivals.length = frames.length := by
    have hlengths := congrArg List.length horder
    rwa [List.length_map, List.length_finRange] at hlengths
  cases arrivals with
  | nil =>
    rw [List.length_nil] at hlen
    omega
  | cons a₀ rest =>
    rcases List.eq_nil_or_concat rest with rfl | ⟨rest', a, rfl⟩
    · rw [List.length_singleton] at hlen
      omega
    · rw [List.concat_eq_append, ← List.cons_append] at horder hlen ⊢
      have hfirst : a₀.frag.val = 0 := by
        have hzero : (List.finRange frames.length)[0]? = some a₀.frag := by
          rw [← horder]
          rfl
        obtain ⟨hlt, heq⟩ := List.getElem?_eq_some_iff.mp hzero
        rw [← heq, List.getElem_finRange]
        rfl
      have htimely : Timely ((a₀ :: rest' ++ [a]).map (·.frag)) := by
        rw [horder]
        exact timely_finRange frames.length
      obtain ⟨st', hexec⟩ := h.delivers_of_timely hmax h8 hc hadmits hfirst htimely hlen
      refine ⟨st', _, ?_, h.headers_eq hstated (List.get_mem frames a₀.frag) a.block,
        h.samePayload _ a.block⟩
      have hcount : frames.length - 1 = rest'.length + 1 := by
        rw [List.length_append, List.length_cons, List.length_singleton] at hlen
        omega
      rw [hexec, hcount]

/-- The packets of a datagram that waits for a buffer are not all that there are of it. -/
theorem not_reassemblesInOrder_of_waits (hlong : ipv6HdrLen + d.payloadLen.toNat > mtu.toNat)
    (hmax : maxPayloadLen mtu ≠ 0) {mac : MacAddr}
    (hmac : fragmentMac nd solicited d.headers = some mac)
    (hwaits : pool.size < pieces (maxPayloadLen mtu).toNat d.payloadLen.toNat) :
    ¬ ReassemblesInOrder cfg nd solicited identif d mtu pool st := by
  obtain ⟨calls, hcalls, hcount, -, hshort⟩ :=
    @fragmentDatagram_cut cfg nd solicited identif d mtu pool hlong hmax
  rw [← hcount] at hwaits
  have h : Fragments identif d (maxPayloadLen mtu) 0 (framesOf calls) :=
    hcalls.fragments hmac hmax (Nat.zero_add _)
  rintro ⟨frames, hframes, hpart, -⟩
  rw [hshort hwaits] at hframes
  obtain ⟨post, hpost⟩ : framesOf (calls.take pool.size) <+: framesOf calls :=
    (List.take_prefix _ _).filterMap _
  dsimp only at hframes
  rw [hframes] at hpost
  rw [← hpost] at h
  cases post with
  | cons pkt post => exact h.not_partitions_front hpart
  | nil =>
    have htaken : frames.length ≤ (calls.take pool.size).length := by
      rw [← hframes]
      exact List.length_filterMap_le _ _
    rw [List.append_nil] at hpost
    rw [List.length_take, hpost, (hcalls.resolved hmac).2] at htaken
    exact Nat.not_le.mpr hwaits (Nat.le_trans htaken (Nat.min_le_left _ _))

/-- Fragmentation followed by reassembly in order is the identity, exactly if a buffer is free
for every piece: with fewer the final fragment is never written. -/
theorem reassembles_in_order_iff (cfg : Config) (nd solicited : NDCache) (identif : UInt32)
    (d : Datagram) (mtu : UInt32) (pool : Ipv6BufPool) (hlow : 56 ≤ mtu.toNat)
    (hhigh : mtu.toNat ≤ 1500) (hlong : ipv6HdrLen + d.payloadLen.toNat > mtu.toNat)
    (hstated : d.headers.payloadLen = htons d.payloadLen)
    (hresolved : (fragmentMac nd solicited d.headers).isSome)
    {tr : List (TableEvent × Option Datagram)} {st : ReassemblyTable}
    (hrun : Run tableStep ReassemblyTable.init tr st)
    (hadmits : Admits st d.headers.src d.headers.dest identif) :
    ReassemblesInOrder cfg nd solicited identif d mtu pool st ↔
      pieces ((mtu.toNat - 48) / 8 * 8) d.payloadLen.toNat ≤ pool.size := by
  have hmtu := toNat_maxPayloadLen hlow hhigh
  have hmax : maxPayloadLen mtu ≠ 0 := by
    intro hzero
    rw [hzero, show (0 : UInt16).toNat = 0 from rfl] at hmtu
    omega
  have h8 : 8 ∣ (maxPayloadLen mtu).toNat := hmtu ▸ Nat.dvd_mul_left 8 _
  have hlonger : (maxPayloadLen mtu).toNat < d.payloadLen.toNat := by
    have h40 : ipv6HdrLen = 40 := rfl
    omega
  obtain ⟨mac, hmac⟩ := Option.isSome_iff_exists.mp hresolved
  rw [← hmtu]
  constructor
  · intro hdelivers
    by_contra hwaits
    exact not_reassemblesInOrder_of_waits hlong hmax hmac (Nat.lt_of_not_le hwaits) hdelivers
  · intro hbuffers
    obtain ⟨calls, hcalls, hcount, henough, -⟩ :=
      @fragmentDatagram_cut cfg nd solicited identif d mtu pool hlong hmax
    obtain ⟨pool', hsent, -⟩ := henough (hcount ▸ hbuffers)
    have h : Fragments identif d (maxPayloadLen mtu) 0 (framesOf calls) :=
      hcalls.fragments hmac hmax (Nat.zero_add _)
    exact ⟨_, congrArg (fun r => framesOf r.1) hsent, h.partitions hmax h8, fun arrivals horder =>
      h.delivers_in_order hmax h8 (h.two_le hmax hlonger) hstated (tableCounts_of_run hrun) hadmits
        horder⟩

end InOrder

/-- A neighbour cache that knows the server. -/
def exampleCache : NDCache :=
  ndCacheInit.set 0 ⟨0, exampleServer, Vector.replicate 6 0x5E, ndReachable⟩

/-- A datagram to the server as `sendto` makes it: twenty-five bytes, the first twenty-five
numbers. -/
def exampleDatagram : Datagram :=
  sendtoDatagram exampleConfig exampleServer ipv6Icmp UInt8.ofNat 25

/-- Four fragments, the last of one byte. -/
theorem reassembles_in_order_four_fragments :
    ReassemblesInOrder exampleConfig exampleCache exampleCache 7 exampleDatagram 56 ipv6bufpool
      ReassemblyTable.init :=
  (reassembles_in_order_iff exampleConfig exampleCache exampleCache 7 exampleDatagram 56 ipv6bufpool
    (by decide) (by decide) (by decide) (payloadLen_sendtoDatagram _ _ _ _ _) (by decide +kernel)
    Run.start ⟨⟨0, rfl⟩, by decide⟩).mpr (by decide)

/-- A datagram of forty-one pieces waits for a buffer behind the fortieth. -/
theorem reassembles_in_order_fails_forty_one_pieces :
    ¬ ReassemblesInOrder exampleConfig exampleCache exampleCache 7
      (sendtoDatagram exampleConfig exampleServer ipv6Icmp UInt8.ofNat 321) 56 ipv6bufpool
      ReassemblyTable.init := by
  obtain ⟨mac, hmac⟩ := Option.isSome_iff_exists.mp (show (fragmentMac exampleCache exampleCache
    (sendtoDatagram exampleConfig exampleServer ipv6Icmp UInt8.ofNat 321).headers).isSome from by
      decide +kernel)
  exact not_reassemblesInOrder_of_waits (by decide) (by decide) hmac (by decide)

/-! ## Any order -/

/-- Whenever all fragments have arrived, the payload of `d` has been handed on. -/
def DeliversInTime (st : ReassemblyTable) (d : Datagram) (frames : List NetPacket)
    (arrivals : List (Arrival frames.length)) : Prop :=
  ∀ seen, seen <+: arrivals → (∀ k, k ∈ seen.map (·.frag)) →
    ∃ pre os st' d', pre <+: seen ∧
      exec tableStep st (pre.map (Arrival.event frames)) = .ok (os, st') ∧
      some d' ∈ os ∧ SamePayload d' d

section AnyOrder

variable {identif : UInt32} {d : Datagram} {max : UInt16} {frames : List NetPacket}
  {st : ReassemblyTable} {arrivals : List (Arrival frames.length)}

/-- Where all fragments have arrived there are as many arrivals. -/
theorem length_le_of_all {seen : List (Arrival frames.length)}
    (hall : ∀ k, k ∈ seen.map (·.frag)) : frames.length ≤ seen.length := by
  have hsub : List.Subperm (List.finRange frames.length) (seen.map (·.frag)) :=
    List.Nodup.subperm (List.nodup_finRange _) fun k _ => hall k
  have hlen := hsub.length_le
  rwa [List.length_finRange, List.length_map] at hlen

theorem Fragments.deliversInTime_of_timely (h : Fragments identif d max 0 frames) (hmax : max ≠ 0)
    (h8 : 8 ∣ max.toNat) (htwo : 2 ≤ frames.length) (hc : TableCounts st)
    (hadmits : Admits st d.headers.src d.headers.dest identif)
    (hfirst : arrivals.head?.map (·.frag.val) = some 0)
    (htimely : Timely ((arrivals.map (·.frag)).take frames.length)) :
    DeliversInTime st d frames arrivals := by
  intro seen hseen hall
  have hlen := length_le_of_all hall
  have hpre : arrivals.take frames.length <+: seen := by
    apply List.prefix_of_prefix_length_le (List.take_prefix _ _) hseen
    rw [List.length_take]
    omega
  have htake : (arrivals.take frames.length).length = frames.length := by
    rw [List.length_take]
    exact Nat.min_eq_left (Nat.le_trans hlen hseen.length_le)
  rw [← List.map_take] at htimely
  -- the first fragment, those between, and the final one
  cases harr : arrivals with
  | nil =>
    rw [harr] at hfirst
    cases hfirst
  | cons a₀ rest =>
    rw [harr] at hfirst
    have ha₀ : a₀.frag.val = 0 := Option.some.inj hfirst
    have hsplit : arrivals.take frames.length = a₀ :: rest.take (frames.length - 1) := by
      rw [harr]
      exact List.take_cons (by omega)
    rw [hsplit] at hpre htake htimely
    rcases List.eq_nil_or_concat (rest.take (frames.length - 1)) with hnil | ⟨between, a, hcat⟩
    · rw [hnil, List.length_singleton] at htake
      omega
    · rw [hcat, List.concat_eq_append, ← List.cons_append] at hpre htake htimely
      obtain ⟨st', hexec⟩ := h.delivers_of_timely hmax h8 hc hadmits ha₀ htimely htake
      refine ⟨_, _, st', _, hpre, hexec, ?_, h.samePayload (frames.get a₀.frag) a.block⟩
      exact List.mem_append_right _ (List.mem_singleton.mpr rfl)

theorem Fragments.timely_of_deliversInTime (h : Fragments identif d max 0 frames) (hmax : max ≠ 0)
    (hcases : max.toNat < 8 ∨ 8 ∣ max.toNat) (hc : TableCounts st)
    (hadmits : Admits st d.headers.src d.headers.dest identif)
    (hfirst : arrivals.head?.map (·.frag.val) = some 0) (hall : ∀ k, k ∈ arrivals.map (·.frag))
    (hdelivers : DeliversInTime st d frames arrivals) :
    8 ≤ max.toNat ∧ Timely ((arrivals.map (·.frag)).take frames.length) := by
  obtain ⟨pre, os, st', d', hpre, hexec, hmem, -⟩ :=
    hdelivers arrivals (List.prefix_refl _) hall
  cases pre with
  | nil =>
    cases hexec
    cases hmem
  | cons a₀ rest =>
    have ha₀ : a₀.frag.val = 0 := by
      obtain ⟨post, heq⟩ := hpre
      rw [← heq] at hfirst
      exact Option.some.inj hfirst
    obtain ⟨st₁, i, hstart, hcol⟩ := h.collects_start hc hadmits ha₀
    -- nothing is handed on unless some arrival completes the datagram
    have hcomplete : ∃ between a, between ++ [a] <+: rest ∧
        completesAt frames (a₀ :: between) a = true := by
      by_contra hno
      have hno' : ∀ between a, between ++ [a] <+: rest →
          completesAt frames (a₀ :: between) a = false := by
        intro between a hbetween
        rw [← Bool.not_eq_true]
        exact fun hcomp => hno ⟨between, a, hbetween, hcomp⟩
      obtain ⟨st'', hexec', -⟩ := collects_of_arrivals hstart hcol
        (fun pkt hp => h.sameDatagram (List.get_mem frames a₀.frag) hp)
        (fun pkt hp => h.end_lt hp) hno'
      rw [hexec', Except.ok.injEq, Prod.mk.injEq] at hexec
      rw [← hexec.1] at hmem
      cases List.eq_of_mem_replicate hmem
    obtain ⟨between, a, hbetween, hcomp⟩ := hcomplete
    have h8 : 8 ∣ max.toNat := by
      apply hcases.resolve_left
      intro hlt
      rw [h.completesAt_of_lt hmax hlt (List.cons_ne_nil _ _)] at hcomp
      cases hcomp
    have hpos : 0 < max.toNat := Nat.pos_of_ne_zero fun hzero => hmax (UInt16.toNat_inj.mp hzero)
    refine ⟨Nat.le_of_dvd hpos h8, ?_⟩
    obtain ⟨htimely, hlen⟩ := (h.completesAt_iff_timely hmax h8).mp hcomp
    have hinit : a₀ :: between ++ [a] <+: arrivals :=
      (List.cons_prefix_cons.mpr ⟨rfl, hbetween⟩).trans hpre
    have htake := List.prefix_iff_eq_take.mp hinit
    rw [hlen] at htake
    rwa [← List.map_take, ← htake]

end AnyOrder

/-- The fragments of a datagram give it back in time exactly when a packet carries at least
eight bytes of it and the first arrivals, as many as there are fragments, come in a timely
order. -/
theorem deliversInTime_iff (cfg : Config) (nd solicited : NDCache) (identif : UInt32)
    (d : Datagram) (mtu : UInt32) {frames : List NetPacket}
    (hsend : Emits cfg nd solicited identif d mtu frames)
    (htwo : 2 ≤ frames.length) {tr : List (TableEvent × Option Datagram)} {st : ReassemblyTable}
    (hrun : Run tableStep ReassemblyTable.init tr st)
    (hadmits : Admits st d.headers.src d.headers.dest identif)
    {arrivals : List (Arrival frames.length)}
    (hfirst : arrivals.head?.map (·.frag.val) = some 0)
    (hall : ∀ k, k ∈ arrivals.map (·.frag)) :
    DeliversInTime st d frames arrivals ↔
      8 ≤ (maxPayloadLen mtu).toNat ∧ Timely ((arrivals.map (·.frag)).take frames.length) := by
  have hne : frames ≠ [] := List.ne_nil_of_length_pos (by omega)
  obtain ⟨pool, calls, pool', hreturns, -, hframes⟩ := hsend
  obtain ⟨h, hmax⟩ := fragments_of_returns hreturns hframes hne
  have hc := tableCounts_of_run hrun
  constructor
  · exact h.timely_of_deliversInTime hmax (maxPayloadLen_cases mtu) hc hadmits hfirst hall
  · intro hcond
    have h8 := (maxPayloadLen_cases mtu).resolve_left (Nat.not_lt.mpr hcond.1)
    exact h.deliversInTime_of_timely hmax h8 htwo hc hadmits hfirst hcond.2

/-- The fragments of the example. -/
def exampleFrames : List NetPacket :=
  framesOf (fragmentDatagram exampleConfig exampleCache exampleCache 7 exampleDatagram 56
    ipv6bufpool).1

/-- Arrivals of the given fragments. -/
def exampleArrivals (order : List (Fin 4)) : List (Arrival exampleFrames.length) :=
  order.filterMap fun k =>
    if h : k.val < exampleFrames.length then some ⟨⟨k.val, h⟩, 1, fun _ => 0⟩ else none

theorem emits_example :
    Emits exampleConfig exampleCache exampleCache 7 exampleDatagram 56 exampleFrames := by
  obtain ⟨calls, -, hcount, henough, -⟩ := @fragmentDatagram_cut exampleConfig exampleCache
    exampleCache 7 exampleDatagram 56 ipv6bufpool (by decide) (by decide)
  have hfits : ∀ call ∈ (fragmentDatagram exampleConfig exampleCache exampleCache 7 exampleDatagram
      56 ipv6bufpool).1, call.Fits := by decide +kernel
  obtain ⟨pool', hreturns, -⟩ := henough (by rw [hcount]; decide)
  rw [hreturns] at hfits
  exact ⟨_, calls, pool', hreturns, hfits, congrArg (fun r => framesOf r.1) hreturns.symm⟩

/-- The two fragments in the middle may change places. -/
theorem deliversInTime_middle_swapped :
    DeliversInTime ReassemblyTable.init exampleDatagram exampleFrames
      (exampleArrivals [0, 2, 1, 3]) := by
  have hlen : exampleFrames.length = 4 := by decide +kernel
  apply (deliversInTime_iff exampleConfig exampleCache exampleCache 7 exampleDatagram 56
    emits_example (by decide +kernel) Run.start ⟨⟨0, rfl⟩, by decide⟩
    (by decide +kernel) (by decide +kernel)).mpr
  refine ⟨by decide, by decide +kernel, by decide +kernel, ?_⟩
  intro pre k post heq
  have hcount : pre.countP (fun j => k < j) ≤ pre.length := List.countP_le_length
  have htake := congrArg List.length heq
  rw [List.length_take, List.length_append, List.length_cons] at htake
  omega

/-- Nothing is handed on by any prefix of the arrivals. -/
theorem not_deliversInTime {st : ReassemblyTable} {d : Datagram} {frames : List NetPacket}
    {arrivals : List (Arrival frames.length)} (hall : ∀ k, k ∈ arrivals.map (·.frag))
    (hnone : ∀ k, k < arrivals.length + 1 →
      (match exec tableStep st ((arrivals.take k).map (Arrival.event frames)) with
        | .error _ => true
        | .ok (os, _) => os.all (·.isNone)) = true) :
    ¬ DeliversInTime st d frames arrivals := by
  intro hdelivers
  obtain ⟨pre, os, st', d', hpre, hexec, hmem, -⟩ :=
    hdelivers arrivals (List.prefix_refl _) hall
  have hpref := hnone pre.length (Nat.lt_succ_of_le hpre.length_le)
  rw [← List.prefix_iff_eq_take.mp hpre, hexec] at hpref
  have hsome := List.all_eq_true.mp hpref (some d') hmem
  cases hsome

/-- The final fragment overtakes the third, or the second comes twice: all four fragments
arrive, and the datagram is never handed on. -/
theorem deliversInTime_fails_overtaken_or_repeated :
    Emits exampleConfig exampleCache exampleCache 7 exampleDatagram 56 exampleFrames ∧
      ((∀ k, k ∈ (exampleArrivals [0, 1, 3, 2]).map (·.frag)) ∧
        ¬ DeliversInTime ReassemblyTable.init exampleDatagram exampleFrames
          (exampleArrivals [0, 1, 3, 2])) ∧
      ((∀ k, k ∈ (exampleArrivals [0, 1, 1, 2, 3]).map (·.frag)) ∧
        ¬ DeliversInTime ReassemblyTable.init exampleDatagram exampleFrames
          (exampleArrivals [0, 1, 1, 2, 3])) := by
  have hovertaken : ∀ k, k ∈ (exampleArrivals [0, 1, 3, 2]).map (·.frag) := by decide +kernel
  have hrepeated : ∀ k, k ∈ (exampleArrivals [0, 1, 1, 2, 3]).map (·.frag) := by decide +kernel
  refine ⟨emits_example, ⟨hovertaken, ?_⟩, hrepeated, ?_⟩
  · apply not_deliversInTime hovertaken
    decide +kernel
  · apply not_deliversInTime hrepeated
    decide +kernel

end NatBox
