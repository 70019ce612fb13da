import NatBox.Fragment.Arrivals

/-
What `sendto` reports.

`sendto` returns `OK` whatever `fragmentDatagram` did, if that returns.  A datagram that fits
in the MTU takes the branch that is only comments, and one whose destination and source are
both missing from the neighbour cache loses every fragment.
-/

namespace NatBox

/-- `OK` -/
def statusOk : Int := 1

/-- `sendto`: its calls of `sendFragment`, and where it returns the status and the pool it
leaves. -/
def sendto (cfg : Config) (nd solicited : NDCache) (identif mtu : UInt32) (destIpv6 : Ipv6Addr)
    (nextHeader : UInt8) (buffer : Mem) (bufLen : UInt16) (pool : Ipv6BufPool) :
    List SentFragment × Option (Int × Ipv6BufPool) :=
  match fragmentDatagram cfg nd solicited identif
      (sendtoDatagram cfg destIpv6 nextHeader buffer bufLen) mtu pool with
  | (calls, none) => (calls, none)
  | (calls, some pool) => (calls, some (statusOk, pool))

/-- The packet is the datagram unfragmented. -/
def CarriesWhole (d : Datagram) (pkt : NetPacket) : Prop :=
  pkt.ip = d.headers ∧
    pkt.body.read 0 d.payloadLen.toNat = d.payload.read 0 d.payloadLen.toNat

/-- The packets bring the payload of the datagram over, each byte once: in one packet if
that is no longer than the MTU, else in fragments. -/
def SendsDatagram (d : Datagram) (mtu : UInt32) (pkts : List NetPacket) : Prop :=
  if ipv6HdrLen + d.payloadLen.toNat ≤ mtu.toNat then ∃ pkt, pkts = [pkt] ∧ CarriesWhole d pkt
  else Partitions d pkts

theorem maxPayloadLen_ne_zero {mtu : UInt32} (hlow : 56 ≤ mtu.toNat) (hhigh : mtu.toNat ≤ 1500) :
    maxPayloadLen mtu ≠ 0 := by
  have hmax := toNat_maxPayloadLen hlow hhigh
  intro hzero
  rw [hzero, show (0 : UInt16).toNat = 0 from rfl] at hmax
  omega

theorem dvd_maxPayloadLen {mtu : UInt32} (hlow : 56 ≤ mtu.toNat) (hhigh : mtu.toNat ≤ 1500) :
    8 ∣ (maxPayloadLen mtu).toNat := by
  rw [toNat_maxPayloadLen hlow hhigh]
  exact Nat.dvd_mul_left 8 _

/-- Writing nothing sends no datagram that has data. -/
theorem not_sendsDatagram_nil {d : Datagram} {mtu : UInt32} (hlen : 0 < d.payloadLen.toNat) :
    ¬ SendsDatagram d mtu [] := by
  unfold SendsDatagram
  split
  · rintro ⟨pkt, hnil, -⟩
    cases hnil
  · intro h
    have hread := congrArg List.length h.data
    rw [Mem.length_read] at hread
    have hzero : (dataOf ([].map fragDescOf)).length = 0 := rfl
    omega

theorem sendsDatagram_of_partitions {d : Datagram} {mtu : UInt32} {pkts : List NetPacket}
    (hlong : ¬ ipv6HdrLen + d.payloadLen.toNat ≤ mtu.toNat) (h : Partitions d pkts) :
    SendsDatagram d mtu pkts := by
  unfold SendsDatagram
  rwa [if_neg hlong]

section

variable (cfg : Config) (nd solicited : NDCache) (identif : UInt32) {mtu : UInt32}
  (destIpv6 : Ipv6Addr) (nextHeader : UInt8) (buffer : Mem) {bufLen : UInt16} (pool : Ipv6BufPool)

/-- The fragments find an address: that of the destination, or else that of the box. -/
theorem fragmentMac_isSome_iff (headers : BaseHeader) :
    (fragmentMac nd solicited headers).isSome ↔
      (lookupNDEntry nd headers.dest).isSome ∨ (lookupNDEntry solicited headers.src).isSome := by
  unfold fragmentMac
  cases lookupNDEntry nd headers.dest with
  | some i => simp
  | none => cases lookupNDEntry solicited headers.src <;> simp

/-- A datagram that fits is dropped. -/
theorem sendto_of_fits (hfits : ipv6HdrLen + bufLen.toNat ≤ mtu.toNat) :
    sendto cfg nd solicited identif mtu destIpv6 nextHeader buffer bufLen pool =
      ([], some (statusOk, pool)) := by
  have hdirect : fragmentDatagram cfg nd solicited identif
      (sendtoDatagram cfg destIpv6 nextHeader buffer bufLen) mtu pool = ([], some pool) := by
    unfold fragmentDatagram
    exact if_neg (Nat.not_lt.mpr hfits)
  unfold sendto
  rw [hdirect]

/-- One that is cut is sent if a buffer is free for every piece, and else `sendto` waits. -/
theorem sendto_cut (hlow : 56 ≤ mtu.toNat) (hhigh : mtu.toNat ≤ 1500)
    (hlong : mtu.toNat < ipv6HdrLen + bufLen.toNat) :
    ∃ calls, Passes cfg nd solicited identif (sendtoDatagram cfg destIpv6 nextHeader buffer bufLen)
        (maxPayloadLen mtu) bufLen 0 calls ∧
      (pieces ((mtu.toNat - 48) / 8 * 8) bufLen.toNat ≤ pool.size →
        ∃ pool', sendto cfg nd solicited identif mtu destIpv6 nextHeader buffer bufLen pool =
          (calls, some (statusOk, pool'))) ∧
      (pool.size < pieces ((mtu.toNat - 48) / 8 * 8) bufLen.toNat →
        (sendto cfg nd solicited identif mtu destIpv6 nextHeader buffer bufLen pool).2 = none) := by
  have hcut : ipv6HdrLen +
      (sendtoDatagram cfg destIpv6 nextHeader buffer bufLen).payloadLen.toNat > mtu.toNat := hlong
  obtain ⟨calls, hcalls, hcount, henough, hshort⟩ :=
    @fragmentDatagram_cut cfg nd solicited identif _ mtu pool hcut
      (maxPayloadLen_ne_zero hlow hhigh)
  have hpieces : calls.length = pieces ((mtu.toNat - 48) / 8 * 8) bufLen.toNat := by
    rw [hcount, toNat_maxPayloadLen hlow hhigh]
    rfl
  rw [← hpieces]
  unfold sendto
  refine ⟨calls, hcalls, fun hsize => ?_, fun hsize => ?_⟩
  · obtain ⟨pool', hsent, -⟩ := henough hsize
    exact ⟨pool', by rw [hsent]⟩
  · rw [hshort hsize]

/-- `OK` means that the buffer was sent exactly when it is too long for one packet and the
cache resolves the destination, or the box's own address, or `sendto` does not return for want
of buffers. -/
theorem sendto_ok_iff (hlow : 56 ≤ mtu.toNat) (hhigh : mtu.toNat ≤ 1500)
    (hlen : 1 ≤ bufLen.toNat) :
    (∀ calls pool', sendto cfg nd solicited identif mtu destIpv6 nextHeader buffer bufLen pool =
        (calls, some (statusOk, pool')) →
      SendsDatagram (sendtoDatagram cfg destIpv6 nextHeader buffer bufLen) mtu
        (framesOf calls)) ↔
    mtu.toNat < ipv6HdrLen + bufLen.toNat ∧
      ((lookupNDEntry nd destIpv6).isSome ∨ (lookupNDEntry solicited cfg.linkLocal).isSome ∨
        pool.size < pieces ((mtu.toNat - 48) / 8 * 8) bufLen.toNat) := by
  have hiff : (fragmentMac nd solicited
      (sendtoDatagram cfg destIpv6 nextHeader buffer bufLen).headers).isSome ↔
      (lookupNDEntry nd destIpv6).isSome ∨ (lookupNDEntry solicited cfg.linkLocal).isSome :=
    fragmentMac_isSome_iff nd solicited _
  have hnil : ¬ SendsDatagram (sendtoDatagram cfg destIpv6 nextHeader buffer bufLen) mtu [] :=
    not_sendsDatagram_nil hlen
  rw [← or_assoc, ← hiff]
  by_cases hlong : mtu.toNat < ipv6HdrLen + bufLen.toNat
  · rw [and_iff_right hlong]
    obtain ⟨sent, hsent, henough, hshort⟩ :=
      @sendto_cut cfg nd solicited identif mtu destIpv6 nextHeader buffer bufLen pool hlow hhigh
        hlong
    by_cases hsize : pieces ((mtu.toNat - 48) / 8 * 8) bufLen.toNat ≤ pool.size
    · obtain ⟨left, hreturns⟩ := henough hsize
      rw [or_iff_left (Nat.not_lt.mpr hsize)]
      constructor
      · intro h
        rw [Option.isSome_iff_ne_none]
        intro hmac
        have hlost : framesOf sent = [] :=
          List.filterMap_eq_nil_iff.mpr (hsent.unresolved hmac)
        exact hnil (hlost ▸ h sent left hreturns)
      · intro hresolved calls pool' hcalls
        obtain ⟨mac, hmac⟩ := Option.isSome_iff_exists.mp hresolved
        obtain rfl : sent = calls := (Prod.mk.inj (hreturns.symm.trans hcalls)).1
        have hmax := maxPayloadLen_ne_zero hlow hhigh
        have hfrags : Fragments identif (sendtoDatagram cfg destIpv6 nextHeader buffer bufLen)
            (maxPayloadLen mtu) 0 (framesOf sent) :=
          hsent.fragments hmac hmax (Nat.zero_add _)
        exact sendsDatagram_of_partitions (Nat.not_le.mpr hlong)
          (hfrags.partitions hmax (dvd_maxPayloadLen hlow hhigh))
    · have hwaits := Nat.lt_of_not_le hsize
      refine iff_of_true (fun calls pool' hcalls => ?_) (Or.inr hwaits)
      have hnone := hshort hwaits
      rw [hcalls] at hnone
      cases hnone
  · refine iff_of_false (fun h => ?_) fun h => hlong h.1
    exact hnil (h [] pool (sendto_of_fits cfg nd solicited identif destIpv6 nextHeader buffer pool
      (Nat.le_of_not_lt hlong)))

end

/-- Twenty-five bytes in fragments of eight to a neighbour in the cache. -/
theorem sendto_ok_four_fragments :
    ∃ calls pool', sendto exampleConfig exampleCache exampleCache 7 56 exampleServer ipv6Icmp
        UInt8.ofNat 25 ipv6bufpool = (calls, some (statusOk, pool')) ∧
      SendsDatagram exampleDatagram 56 (framesOf calls) := by
  obtain ⟨calls, -, henough, -⟩ := @sendto_cut exampleConfig exampleCache exampleCache 7 56
    exampleServer ipv6Icmp UInt8.ofNat 25 ipv6bufpool (by decide) (by decide) (by decide)
  obtain ⟨pool', hsent⟩ := henough (by decide)
  refine ⟨calls, pool', hsent, ?_⟩
  exact (sendto_ok_iff exampleConfig exampleCache exampleCache 7 exampleServer ipv6Icmp
    UInt8.ofNat ipv6bufpool (by decide) (by decide) (by decide)).mpr
    ⟨by decide, Or.inl (by decide +kernel)⟩ calls pool' hsent

/-- The same bytes with an MTU that holds them are not sent. -/
theorem sendto_ok_loses_whole_packet :
    ∃ calls pool', sendto exampleConfig exampleCache exampleCache 7 1500 exampleServer ipv6Icmp
        UInt8.ofNat 25 ipv6bufpool = (calls, some (statusOk, pool')) ∧
      ¬ SendsDatagram exampleDatagram 1500 (framesOf calls) :=
  ⟨[], ipv6bufpool, sendto_of_fits _ _ _ _ _ _ _ _ (by decide), not_sendsDatagram_nil (by decide)⟩

end NatBox
