import NatBox.Packet

/-
The neighbour cache of `ndcache.c`.

`NDCache` points at entries that `NDCache_init` allocates once and nothing moves
afterwards, so the model keeps the entries themselves.  A free entry is one in
state `NDNOENTRY`; a lookup compares addresses and does not read the state.
-/

namespace NatBox

/-- `MAXNDENTRY` -/
abbrev maxNdEntry : Nat := 30

/-- `MAXNDTTL` -/
def maxNdTtl : UInt32 := 900

def ndNoEntry : UInt8 := 0
def ndReachable : UInt8 := 2
def ndProcessing : UInt8 := 10

/-- `struct NDCacheEntry` -/
structure NDCacheEntry where
  ttl : UInt32
  ipAddr : Ipv6Addr
  macAddr : MacAddr
  state : UInt8
  deriving DecidableEq

abbrev NDCache : Type := Vector NDCacheEntry maxNdEntry

/-- `NDCache_init` -/
def ndCacheInit : NDCache :=
  Vector.replicate _ ⟨0, unspecified, Vector.replicate 6 0, ndNoEntry⟩

/-- `lookupNDEntry`; `none` is its `NULL`. -/
def lookupNDEntry (nd : NDCache) (ipAddr : Ipv6Addr) : Option (Fin maxNdEntry) :=
  (List.finRange maxNdEntry).find? fun i => matchBytes ipAddr nd[i].ipAddr 16

/-- `getAvailNDEntry` and the cache it leaves: the claimed entry is marked. -/
def getAvailNDEntry (nd : NDCache) : Option (Fin maxNdEntry) × NDCache :=
  match (List.finRange maxNdEntry).find? fun i => nd[i].state = ndNoEntry with
  | none => (none, nd)
  | some i => (some i, nd.set i { nd[i] with state := ndProcessing })

end NatBox
