import NatBox.Box

/-
Receiving a neighbour solicitation: `nsolicit_handler`.

The handler takes the sender's cache entry or claims a free one, and adds a host
route to the sender without looking whether there is one.  It ends early, with the
entry already marked reachable, when the message has no link-layer address option.
-/

namespace NatBox

/-- `sizeof(struct nsolicit)` -/
def nsolSize : Nat := 24

/-- The bytes at `off` as a link-layer address. -/
def macAt (m : Mem) (off : Nat) : MacAddr := Vector.ofFn fun i => m (off + i)

/-- The bytes at `off` as an address. -/
def addrAt (m : Mem) (off : Nat) : Ipv6Addr := Vector.ofFn fun i => m (off + i)

/-- `getmac_sol`; `none` is its `NULL`. -/
def getmacSol (msg : Mem) : Option MacAddr :=
  if msg nsolSize = 1 then some (macAt msg (nsolSize + 2)) else none

/-- A message the handler sends: the arguments of `sendNAD` or `sendNSOL`. -/
inductive NeighbourSend
  | nad (ipSrc : Ipv6Addr) (macDest : MacAddr) (ipDest target : Ipv6Addr) (iface : UInt8)
  | nsol (ipSrc : Ipv6Addr) (macDest : MacAddr) (ipDest target : Ipv6Addr) (iface : UInt8)

/-- The entry for a sender, and the cache in which it holds the sender's address. -/
def senderEntry (nd : NDCache) (src : Ipv6Addr) : Option (Fin maxNdEntry × NDCache) :=
  match lookupNDEntry nd src with
  | some i => some (i, nd)
  | none =>
    match getAvailNDEntry nd with
    | (none, _) => none
    | (some i, nd) => some (i, nd.set i { nd.get i with ipAddr := src } i.isLt)

def nsolicitHandler (box : Box) (pkt : NetPacket) : Box × List NeighbourSend :=
  match senderEntry box.nd pkt.ip.src with
  | none => (box, [])
  | some (i, nd) =>
    let entry := { nd.get i with ttl := maxNdTtl, state := ndReachable }
    match getmacSol pkt.body with
    | none => ({ box with nd := nd.set i entry i.isLt }, [])
    | some mac =>
      let iface := pkt.netIface.toUInt16.toUInt8
      let target := addrAt pkt.body 8
      let advert := NeighbourSend.nad target pkt.netSrc pkt.ip.src target iface
      ({ box with
          nd := nd.set i { entry with macAddr := mac } i.isLt
          fwd := (insertNewFwdTabEntry box.fwd entry.ipAddr 128 entry.ipAddr iface).2 },
        if (lookupNDEntry box.nd pkt.ip.src).isSome then [advert]
        else [advert, .nsol pkt.ip.dest pkt.netSrc pkt.ip.src pkt.ip.src iface])

theorem lookupNDEntry_some {nd : NDCache} {src : Ipv6Addr} {i : Fin maxNdEntry}
    (h : lookupNDEntry nd src = some i) : (nd.get i).ipAddr = src := by
  have hm := List.find?_some h
  rw [matchBytes_self_length] at hm
  exact hm.symm

theorem senderEntry_ipAddr {nd nd' : NDCache} {src : Ipv6Addr} {i : Fin maxNdEntry}
    (h : senderEntry nd src = some (i, nd')) : (nd'.get i).ipAddr = src := by
  rw [senderEntry] at h
  cases hl : lookupNDEntry nd src with
  | some j =>
    simp only [hl, Option.some.injEq, Prod.mk.injEq] at h
    obtain ⟨rfl, rfl⟩ := h
    exact lookupNDEntry_some hl
  | none =>
    rcases ha : getAvailNDEntry nd with ⟨_ | j, nd₁⟩
    · simp [hl, ha] at h
    · simp only [hl, ha, Option.some.injEq, Prod.mk.injEq] at h
      obtain ⟨rfl, rfl⟩ := h
      show ((nd₁.set j.val { nd₁.get j with ipAddr := src } j.isLt)[j.val]).ipAddr = src
      rw [Vector.getElem_set_self]

/-- The forwarding table is left alone or gets a host route to the sender. -/
theorem nsolicitHandler_fwd (box : Box) (pkt : NetPacket) :
    (nsolicitHandler box pkt).1.fwd = box.fwd ∨
    ∃ iface, (nsolicitHandler box pkt).1.fwd =
      (insertNewFwdTabEntry box.fwd pkt.ip.src 128 pkt.ip.src iface).2 := by
  rw [nsolicitHandler]
  rcases hs : senderEntry box.nd pkt.ip.src with _ | ⟨i, nd⟩
  · exact Or.inl rfl
  · cases getmacSol pkt.body with
    | none => exact Or.inl rfl
    | some mac =>
      have hip := senderEntry_ipAddr hs
      refine Or.inr ⟨pkt.netIface.toUInt16.toUInt8, ?_⟩
      simp only [hip]

end NatBox
