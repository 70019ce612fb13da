import NatBox.Fragment.Send

/-
`fragmentDatagram` under every value of `MTU`.

The room for data in a fragment is a difference of 32-bit numbers cut to 16 bits.  Where it
comes out as zero no pass takes anything, and where it is larger than what a packet holds the
copy in `sendFragment` leaves the packet buffer, unless there is little to send.  Where it is
small there are more pieces than buffers.
-/

namespace NatBox

/-- What `MTU` leaves for the data of a fragment, cut to 16 bits. -/
def mtuRoom (mtu : UInt32) : Nat := (mtu.toNat + (65536 - 48)) % 65536

/-- What the pieces of a datagram that is cut are long, but for its last ones. -/
def mtuPiece (mtu : UInt32) : Nat :=
  if 8 < mtuRoom mtu then mtuRoom mtu / 8 * 8 else mtuRoom mtu

/-- The datagram is not cut, or cut into pieces of some bytes that a packet holds, with a free
buffer for each. -/
def MtuSuits (mtu : UInt32) (len : UInt16) (free : Nat) : Prop :=
  len = 0 ∨ ipv6HdrLen + len.toNat ≤ mtu.toNat ∨
    (mtuRoom mtu ≠ 0 ∧ (mtuRoom mtu < 1456 ∨ len.toNat < 1456) ∧
      pieces (mtuPiece mtu) len.toNat ≤ free)

theorem toNat_room (mtu : UInt32) : (mtu - 40 - 8).toUInt16.toNat = mtuRoom mtu := by
  have hlt := mtu.toNat_lt
  rw [UInt32.toNat_toUInt16, UInt32.toNat_sub, UInt32.toNat_sub]
  show (4294967296 - 8 + (4294967296 - 40 + mtu.toNat) % 4294967296) % 4294967296 % 65536 =
    (mtu.toNat + (65536 - 48)) % 65536
  omega

theorem toNat_maxPayloadLen_eq (mtu : UInt32) : (maxPayloadLen mtu).toNat = mtuPiece mtu := by
  rw [maxPayloadLen, toNat_checkLength, toNat_room, mtuPiece]

theorem maxPayloadLen_eq_zero_iff {mtu : UInt32} : maxPayloadLen mtu = 0 ↔ mtuRoom mtu = 0 := by
  have heq := toNat_maxPayloadLen_eq mtu
  rw [← UInt16.toNat_inj, show (0 : UInt16).toNat = 0 from rfl]
  unfold mtuPiece at heq
  split at heq <;> omega

section Mtu

variable {cfg : Config} {nd solicited : NDCache} {identif : UInt32} {d : Datagram} {mtu : UInt32}
  {pool : Ipv6BufPool}

/-- Where every piece fits, every copy does. -/
theorem Passes.fits {max remain off : UInt16} {calls : List SentFragment}
    (h : Passes cfg nd solicited identif d max remain off calls) (hmax : max ≠ 0)
    (hfit : ∀ left : UInt16, left.toNat ≤ remain.toNat →
      fragHdrLen.toNat + (fragPayloadLen max left).toNat ≤ bodyLen) :
    ∀ call ∈ calls, call.Fits := by
  induction h with
  | nil => exact fun call hcall => absurd hcall List.not_mem_nil
  | @cons remain off calls hremain _ ih =>
    intro call hcall
    rcases List.mem_cons.mp hcall with rfl | hcall
    · exact hfit remain (Nat.le_refl _)
    · refine ih (fun left hleft => hfit left ?_) call hcall
      rw [toNat_remain_sub hmax hremain] at hleft
      exact Nat.le_trans hleft (Nat.sub_le _ _)

/-- The first piece is copied whatever its length. -/
theorem Passes.first {max remain off : UInt16} {calls : List SentFragment}
    (h : Passes cfg nd solicited identif d max remain off calls) (hremain : remain ≠ 0) :
    ∃ call ∈ calls, call.payloadLen = fragPayloadLen max remain := by
  cases h with
  | nil => exact absurd rfl hremain
  | cons _ _ => exact ⟨_, List.mem_cons_self, rfl⟩

/-- The pieces fit if the room that `MTU` leaves for them does, or all the payload. -/
theorem Passes.fits_iff_mtu {calls : List SentFragment}
    (h : Passes cfg nd solicited identif d (maxPayloadLen mtu) d.payloadLen 0 calls)
    (hmax : maxPayloadLen mtu ≠ 0) (hlen : d.payloadLen ≠ 0) :
    (∀ call ∈ calls, call.Fits) ↔ mtuRoom mtu < 1456 ∨ d.payloadLen.toNat < 1456 := by
  have hpiece := toNat_maxPayloadLen_eq mtu
  constructor
  · intro hfits
    obtain ⟨call, hcall, hpayload⟩ := h.first hlen
    have hfit : 8 + call.payloadLen.toNat ≤ 1460 := hfits call hcall
    rw [hpayload, toNat_fragPayloadLen, hpiece, mtuPiece] at hfit
    by_contra hboth
    split at hfit <;> split at hfit <;> try split at hfit
    all_goals omega
  · intro hsmall
    apply h.fits hmax
    intro left hleft
    show 8 + (fragPayloadLen (maxPayloadLen mtu) left).toNat ≤ 1460
    rw [toNat_fragPayloadLen, hpiece, mtuPiece]
    split <;> split <;> try split
    all_goals omega

/-- A piece that stays in the packet is one of at most 1452 bytes. -/
theorem fits_iff {call : SentFragment} :
    ipv6HdrLen + (fragHdrLen.toNat + call.payloadLen.toNat) ≤ netPayloadSize ↔ call.Fits := by
  show 40 + (8 + call.payloadLen.toNat) ≤ 1500 ↔ 8 + call.payloadLen.toNat ≤ 1460
  omega

/-- `fragmentDatagram` ends, and with nothing copied outside a packet, exactly if `MTU` and the
free buffers suit the datagram. -/
theorem fragmentDatagram_inside_iff :
    ((∃ pool', (fragmentDatagram cfg nd solicited identif d mtu pool).2 = some pool') ∧
      ∀ call ∈ (fragmentDatagram cfg nd solicited identif d mtu pool).1,
        ipv6HdrLen + (fragHdrLen.toNat + call.payloadLen.toNat) ≤ netPayloadSize) ↔
      MtuSuits mtu d.payloadLen pool.size := by
  have hzero : maxPayloadLen mtu = 0 ↔ mtuRoom mtu = 0 := maxPayloadLen_eq_zero_iff
  unfold MtuSuits
  simp only [fits_iff]
  by_cases hcut : ipv6HdrLen + d.payloadLen.toNat > mtu.toNat
  · by_cases hlen : d.payloadLen = 0
    · have hnone : fragmentDatagram cfg nd solicited identif d mtu pool = ([], some pool) := by
        rw [fragmentDatagram, if_pos hcut, hlen, fragmentLoop, if_pos rfl]
      rw [hnone]
      exact iff_of_true ⟨⟨pool, rfl⟩, fun call hcall => absurd hcall List.not_mem_nil⟩ (Or.inl hlen)
    · rw [or_iff_right hlen, or_iff_right (Nat.not_le.mpr hcut)]
      by_cases hroom : mtuRoom mtu = 0
      · refine iff_of_false (fun h => ?_) fun h => h.1 hroom
        obtain ⟨⟨pool', hreturns⟩, -⟩ := h
        rw [fragmentDatagram, if_pos hcut, hzero.mpr hroom, fragmentLoop_of_max_eq_zero hlen]
          at hreturns
        cases hreturns
      · have hne : maxPayloadLen mtu ≠ 0 := fun h => hroom (hzero.mp h)
        obtain ⟨calls, hcalls, hcount, henough, hshort⟩ :=
          @fragmentDatagram_cut cfg nd solicited identif d mtu pool hcut hne
        rw [and_iff_right hroom, ← toNat_maxPayloadLen_eq, ← hcount]
        by_cases hsize : calls.length ≤ pool.size
        · obtain ⟨pool', hsent, -⟩ := henough hsize
          rw [hsent, and_iff_left hsize, and_iff_right ⟨pool', rfl⟩]
          exact hcalls.fits_iff_mtu hne hlen
        · refine iff_of_false (fun h => ?_) fun h => hsize h.2
          obtain ⟨⟨pool', hreturns⟩, -⟩ := h
          rw [hshort (Nat.lt_of_not_le hsize)] at hreturns
          cases hreturns
  · have hnone : fragmentDatagram cfg nd solicited identif d mtu pool = ([], some pool) := by
      rw [fragmentDatagram, if_neg hcut]
    rw [hnone]
    exact iff_of_true ⟨⟨pool, rfl⟩, fun call hcall => absurd hcall List.not_mem_nil⟩
      (Or.inr (Or.inl (Nat.le_of_not_lt hcut)))

end Mtu

/-- Under an `MTU` of 48 nine bytes of payload are cut into empty fragments until
`fragmentDatagram` waits for a buffer, and before the first router advertisement, with an `MTU`
of 0, a long payload is copied past the packet. -/
theorem fragmentDatagram_mtu_fails :
    (fragmentDatagram exampleConfig ndCacheInit ndCacheInit 1
      (sendtoDatagram exampleConfig exampleHost ipv6Icmp (fun _ => 0) 9) 48 ipv6bufpool).2 = none ∧
    ∃ call ∈ (fragmentDatagram exampleConfig ndCacheInit ndCacheInit 1
      (sendtoDatagram exampleConfig exampleHost ipv6Icmp (fun _ => 0) 1456) 0 ipv6bufpool).1,
      netPayloadSize < ipv6HdrLen + (fragHdrLen.toNat + call.payloadLen.toNat) := by
  constructor
  · rw [fragmentDatagram, if_pos (by decide), show maxPayloadLen 48 = 0 by decide]
    exact fragmentLoop_of_max_eq_zero (by decide)
  · rw [fragmentDatagram, if_pos (by decide)]
    exact ⟨_, List.mem_cons_self, by decide⟩

end NatBox
