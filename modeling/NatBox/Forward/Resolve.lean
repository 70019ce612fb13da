import NatBox.Forward.Datagram
import NatBox.Neighbour.CacheRuns

/-
What `fwdIPDatagram` does with and without an address for the next hop.

The test for a missing entry stands behind the line that prints the address in it.
-/

namespace NatBox

/-- The packet goes on to the next hop if the cache knows it, and else is dropped with nothing
read through a missing entry. -/
structure ResolvesOrDrops (cfg : Config) (box : Box) (pkt : NetPacket) : Prop where
  drops : (∀ i, (box.nd.get i).ipAddr ≠ (nextHopOf cfg box.fwd pkt.ip.dest).1) →
    (fwdIPDatagram cfg box pkt).frame = none
  safe : (fwdIPDatagram cfg box pkt).readsNull = false
  forwards : ∀ i, (box.nd.get i).ipAddr = (nextHopOf cfg box.fwd pkt.ip.dest).1 →
    (∀ j, j < i → (box.nd.get j).ipAddr ≠ (nextHopOf cfg box.fwd pkt.ip.dest).1) →
    ∃ frame, (fwdIPDatagram cfg box pkt).frame = some frame ∧
      frame.netDst = (box.nd.get i).macAddr ∧
      frame.netSrc = cfg.ifMacucast (nextHopOf cfg box.fwd pkt.ip.dest).2.toNat ∧
      frame.ip = pkt.ip ∧ frame.body = pkt.body

section Resolve

variable {cfg : Config} {box : Box} {pkt : NetPacket}

theorem fwdIPDatagram_missing
    (h : lookupNDEntry box.nd (nextHopOf cfg box.fwd pkt.ip.dest).1 = none) :
    fwdIPDatagram cfg box pkt = ⟨none, true⟩ := by
  rw [fwdIPDatagram, h]

theorem fwdIPDatagram_resolved {i : Fin maxNdEntry}
    (h : lookupNDEntry box.nd (nextHopOf cfg box.fwd pkt.ip.dest).1 = some i) :
    fwdIPDatagram cfg box pkt =
      { frame := some
          { pkt with
            netDst := (box.nd.get i).macAddr
            netSrc := cfg.ifMacucast (nextHopOf cfg box.fwd pkt.ip.dest).2.toNat
            netType := htons ethIPv6 }
        readsNull := false } := by
  rw [fwdIPDatagram, h]

/-- A packet is forwarded or dropped cleanly exactly if the cache has an entry for its next
hop. -/
theorem resolvesOrDrops_iff (cfg : Config) (box : Box) (pkt : NetPacket) :
    ResolvesOrDrops cfg box pkt ↔
      ∃ i, (box.nd.get i).ipAddr = (nextHopOf cfg box.fwd pkt.ip.dest).1 := by
  constructor
  · intro h
    by_contra hmissing
    push Not at hmissing
    have hsafe := h.safe
    rw [fwdIPDatagram_missing (lookupNDEntry_eq_none_iff.mpr hmissing)] at hsafe
    cases hsafe
  · rintro ⟨i, hi⟩
    cases hl : lookupNDEntry box.nd (nextHopOf cfg box.fwd pkt.ip.dest).1 with
    | none => exact absurd hi (lookupNDEntry_eq_none_iff.mp hl i)
    | some k =>
      have hresolved := fwdIPDatagram_resolved hl
      constructor
      · exact fun hmissing => absurd hi (hmissing i)
      · rw [hresolved]
      · intro j hj hfirst
        have hkj : some k = some j := hl.symm.trans (lookupNDEntry_eq_some_iff.mpr ⟨hj, hfirst⟩)
        obtain rfl := Option.some.inj hkj
        rw [hresolved]
        exact ⟨_, rfl, rfl, rfl, rfl, rfl⟩

end Resolve

/-- With an empty cache the entry of the default router is missing, and read. -/
theorem resolvesOrDrops_fails_empty :
    (∀ i, (Box.init.nd.get i).ipAddr ≠ (nextHopOf exampleConfig Box.init.fwd exampleServer).1) ∧
    ¬ ResolvesOrDrops exampleConfig Box.init (examplePacket exampleHost exampleServer []) := by
  refine ⟨by decide +kernel, fun h => ?_⟩
  have hsafe := h.safe
  revert hsafe
  decide +kernel

end NatBox
