import Mathlib.Data.List.Infix
import NatBox.ChecksumEnds
import NatBox.Input
import NatBox.Neighbour.CacheRuns
import NatBox.Neighbour.RouterAdvert

/-
`ipv6_init` against the packets that `netin` processes while it runs.

`net_init` starts the receiving processes before `main` calls `ipv6_init`, and they run ahead of
it.  `NDCache` and `fwdTabPTR` are arrays of pointers which `NDCache_init` and `fwdipv6_init` set
one by one; `natTab` is there from the start and `natTab_init` clears it.  A packet is processed
between two steps of `ipv6_init`; what follows the accesses to the tables may sleep, but comes to
no pointer that was not set at the first of them.

A pointer is set once its step is no longer to do.  `NDCache_init` sets a pointer before it clears
the entry behind it; the stores that clear one entry are taken as one step, since what a packet
finds between two of them the block may have held as well.  `recordedND`, `recordedFwd`,
`recordedNat` and `wiped` are read by nothing: the slots that packets have changed, and whether one
of these has been cleared since.
-/

namespace NatBox

open Runs

/-- The steps of `ipv6_init` that the handling of packets depends on. -/
inductive InitStep
  | clearFragments (i : Fin reassemblyTableMaxSize)
  | clearPrefix
  | linkLocal
  | snmAddr
  | noAddress
  | allNodes
  | allRouters
  | solicit
  | ndPointer (i : Fin maxNdEntry)
  | nd (i : Fin maxNdEntry)
  | fwd (i : Fin maxFwdTabEntries)
  | nat (i : Fin maxNatEntries)
  | natCounter
  | await
  | routerEntry
  | routerIpEntry
  | routerMac
  deriving DecidableEq

/-- `ipv6_init`.  Only a NAT box initializes the NAT table. -/
def ipv6Init (host : Bool) : List InitStep :=
  (List.finRange reassemblyTableMaxSize).map .clearFragments ++
    [.clearPrefix, .linkLocal, .snmAddr, .noAddress, .allNodes, .allRouters, .solicit] ++
    (List.finRange maxNdEntry).flatMap (fun i => [.ndPointer i, .nd i]) ++
    (List.finRange maxFwdTabEntries).map .fwd ++
    (if host then [] else (List.finRange maxNatEntries).map .nat ++ [.natCounter]) ++
    [.await, .routerEntry, .routerIpEntry, .routerMac]

/-- `NDINCOMPLETE` -/
def ndIncomplete : UInt8 := 1

/-- Where a run ends: at a pointer that is not set, in a handler, or with no free entry of the
cache for the router. -/
inductive StartFault
  | unset
  | handler (f : Fault)
  | cacheFull
  deriving DecidableEq

/-- The variables during `ipv6_init`.  `own` is what `ipv6_init` computes: the addresses in it are
those that `cfg` gets. -/
structure Startup where
  own : Config
  cfg : Config
  router : RouterRecord
  table : ReassemblyTable
  box : Box
  entry2 : Option (Fin maxNdEntry)
  todo : List InitStep
  recordedND : Fin maxNdEntry → Bool
  recordedFwd : Fin maxFwdTabEntries → Bool
  recordedNat : Fin maxNatEntries → Bool
  wiped : Bool

/-- What a packet is processed with beside the variables: the time, what blocks from the heap
hold, and the cache, the identification and the buffers that `sendto` comes to. -/
structure PacketArgs where
  clktime : UInt32
  heap : Mem
  block : Mem
  solicited : NDCache
  identif : UInt32
  pool : Ipv6BufPool

/-- A step of `ipv6_init`, with what a block that it gets from the heap holds as an entry, or what
the receiving processes do. -/
inductive StartEvent
  | init (block : NDCacheEntry)
  | packet (args : PacketArgs) (pkt : NetPacket)
  | sweep (clktime : UInt32)

/-- The loop goes over pointers, and leaves at one that `stop` holds of.  All that it comes to
are set. -/
def walkSet {α : Type} (isSet stop : α → Bool) : List α → Bool
  | [] => true
  | i :: rest => isSet i && (stop i || walkSet isSet stop rest)

/-- `getNextHop` leaves its loop at this pointer. -/
def hopStops (fwd : FwdTable) (dest : Ipv6Addr) (k : Fin maxFwdTabEntries) : Bool :=
  match fwd.entries[k.val]? with
  | none => true
  | some e => e.prefixLen = 0 || matchBytes dest e.ipAddr (e.prefixLen.toNat / 8)

/-- A packet on which `outPktRW` records an entry. -/
def recordsNat (cfg : Config) (box : Box) (pkt : NetPacket) : Bool :=
  !matchBytes pkt.netSrc (cfg.ifMacucast cfg.ifprime.toNat) 6 &&
    (cfg.hasIPv6Addr && !isItMine cfg pkt.ip) && !cfg.host && pkt.netIface.toInt != cfg.ifprime &&
    (getNewID box.nat.natIdCounter).1 != -1

/-- The solicitation is one that `nsolicit_handler` adds a route for. -/
def addsRoute (box : Box) (pkt : NetPacket) : Bool :=
  (senderEntry box.nd pkt.ip.src).isSome && (getmacSol pkt.body).isSome

/-- `processDatagram` answers the datagram, and gets a buffer for a fragment of the answer. -/
def answersDatagram (mtu : UInt32) (d : Datagram) (pool : Ipv6BufPool) : Bool :=
  d.asksEcho && decide (mtu.toNat < 40 + d.payloadLen.toNat) && d.payloadLen != 0 &&
    pool.size != 0

/-- The slot of the cache that an accepted message is recorded in. -/
def ndSlot (nd : NDCache) (pkt : NetPacket) : Option (Fin maxNdEntry) :=
  match lookupNDEntry nd pkt.ip.src with
  | some i => some i
  | none => if pkt.msgType = neighbS then (getAvailNDEntry nd).1 else none

namespace Startup

/-- The variables that `net_init` leaves. -/
def start (own : Config) : Startup where
  own := own
  cfg :=
    { own with
      hasIPv6Addr := false, ipv6Addr := unspecified, linkLocal := unspecified,
      snmAddr := unspecified, allrIPmulti := unspecified, allnIPmulti := unspecified,
      routerIpAddr := unspecified }
  router := bssRecord
  table := ReassemblyTable.init
  box := Box.init
  entry2 := none
  todo := ipv6Init own.host
  recordedND := fun _ => false
  recordedFwd := fun _ => false
  recordedNat := fun _ => false
  wiped := false

variable (s : Startup)

/-- The globals as a handler finds them. -/
def config : Config :=
  { s.cfg with
    hasIPv6Addr := s.router.hasIPv6Addr
    ipv6Addr := s.router.ipv6Addr
    routerIpAddr := s.router.routerIpAddr }

def ndSet (i : Fin maxNdEntry) : Bool := decide (InitStep.ndPointer i ∉ s.todo)

def fwdSet (i : Fin maxFwdTabEntries) : Bool := decide (InitStep.fwd i ∉ s.todo)

/-- `lookupNDEntry` comes to pointers that are set.  Where it finds nothing it has come to all
that `getAvailNDEntry` does. -/
def lookupReads (ip : Ipv6Addr) : Bool :=
  walkSet s.ndSet (fun i => matchBytes ip (s.box.nd.get i).ipAddr 16) (List.finRange maxNdEntry)

/-- `getNextHop` comes to pointers that are set. -/
def hopReads (dest : Ipv6Addr) : Bool :=
  walkSet s.fwdSet (hopStops s.box.fwd dest) (List.finRange maxFwdTabEntries)

/-- `insertNewFwdTabEntry` comes to pointers that are set: to all of them, to sort them or since
there is no free entry. -/
def insertReads : Bool := (List.finRange maxFwdTabEntries).all s.fwdSet

/-- `fwdIPDatagram` -/
def forward (pkt : NetPacket) : Except StartFault Startup :=
  if s.hopReads pkt.ip.dest && s.lookupReads (nextHopOf s.config s.box.fwd pkt.ip.dest).1 then .ok s
  else .error .unset

/-- `nsolicit_handler` and `nadvert_handler`, behind their validation. -/
def neighbour (heap : Mem) (pkt : NetPacket) : Except StartFault Startup :=
  match neighbourIn s.config heap s.box pkt with
  | .error f => .error (.handler f)
  | .ok (_, box) =>
    if pkt.msgType = neighbS ∧ nsolicitValid s.config heap pkt = .ok true then
      if s.lookupReads pkt.ip.src && (!addsRoute s.box pkt || s.insertReads) then
        .ok { s with box := box }
      else .error .unset
    else if pkt.msgType = neighbA ∧ nadvertValid s.config heap pkt = .ok true then
      if s.lookupReads pkt.ip.src then .ok { s with box := box } else .error .unset
    else .ok s

/-- `icmpv6_in`, where router solicitations and echo messages come to no table. -/
def icmpv6In (heap : Mem) (pkt : NetPacket) : Except StartFault Startup :=
  if pkt.msgType = routerA then
    match (radvertIn s.cfg.host s.cfg.linkLocal pkt s.router).1 with
    | .error f => .error (.handler f)
    | .ok router => .ok { s with router := router }
  else s.neighbour heap pkt

/-- `reassembly`, with `sendto` for the answer, which may wait for buffers. -/
def fragment (args : PacketArgs) (pkt : NetPacket) : Except StartFault Startup :=
  match reassembly s.table args.clktime args.block pkt with
  | .error f => .error (.handler f)
  | .ok (none, table) => .ok { s with table := table }
  | .ok (some d, table) =>
    match processDatagram s.config s.box.nd args.solicited args.identif s.router.mtu args.heap d
      args.pool with
    | .error f => .error (.handler f)
    | .ok _ =>
      if !answersDatagram s.router.mtu d args.pool || s.lookupReads d.headers.src then
        .ok { s with table := table }
      else .error .unset

/-- `ipv6_in` -/
def receive (args : PacketArgs) (pkt : NetPacket) : Except StartFault Startup :=
  match ipv6In s.config s.box pkt with
  | .error f => .error (.handler f)
  | .ok (d, box) =>
    if recordsNat s.config s.box pkt && !s.insertReads then .error .unset
    else
      let s := { s with box := box }
      match d with
      | .dropped => .ok s
      | .forwarded pkt => s.forward pkt
      | .icmpv6 pkt => s.icmpv6In args.heap pkt
      | .fragment pkt => s.fragment args pkt
      | .unhandled _ => .ok s

/-- `getAvailNDEntry` and what `ipv6_init` puts in the entry. -/
def claimEntry (ip : Ipv6Addr) : Except StartFault (Fin maxNdEntry × Startup) :=
  if walkSet s.ndSet (fun i => decide ((s.box.nd.get i).state = ndNoEntry))
      (List.finRange maxNdEntry) then
    match getAvailNDEntry s.box.nd with
    | (none, _) => .error .cacheFull
    | (some i, nd) =>
      .ok (i, { s with
        box := { s.box with
          nd := nd.set i
            { nd.get i with ipAddr := ip, ttl := maxNdTtl, state := ndIncomplete } i.isLt } })
  else .error .unset

/-- A step of `ipv6_init`.  A new entry of the cache is as the block from the heap was. -/
def doStep (block : NDCacheEntry) : InitStep → Except StartFault Startup
  | .clearFragments i =>
    .ok { s with
      table := s.table.setEntry i { s.table.entry i with fragList := none, timestamp := 0 } }
  | .clearPrefix =>
    .ok { s with router := { s.router with optionPrefixDefault := Vector.replicate 32 0 } }
  | .linkLocal => .ok { s with cfg := { s.cfg with linkLocal := s.own.linkLocal } }
  | .snmAddr => .ok { s with cfg := { s.cfg with snmAddr := s.own.snmAddr } }
  | .noAddress => .ok { s with router := { s.router with hasIPv6Addr := false } }
  | .allNodes => .ok { s with cfg := { s.cfg with allnIPmulti := s.own.allnIPmulti } }
  | .allRouters => .ok { s with cfg := { s.cfg with allrIPmulti := s.own.allrIPmulti } }
  | .solicit | .await => .ok s
  | .ndPointer i => .ok { s with box := { s.box with nd := s.box.nd.set i block i.isLt } }
  | .nd i =>
    .ok { s with
      box := { s.box with
        nd := s.box.nd.set i ⟨0, unspecified, Vector.replicate 6 0, ndNoEntry⟩ i.isLt }
      wiped := s.wiped || s.recordedND i }
  | .fwd i =>
    .ok { s with
      box := { s.box with
        fwd := { s.box.fwd with
          fwdTab := s.box.fwd.fwdTab.set i
            { s.box.fwd.fwdTab.get i with
              ttl := 0, iface := 0, ipAddr := unspecified, nextHop := unspecified } i.isLt } }
      wiped := s.wiped || s.recordedFwd i }
  | .nat i =>
    .ok { s with
      box := { s.box with
        nat := { s.box.nat with
          natTab := s.box.nat.natTab.set i ⟨unspecified, unspecified, 0, 0, 0⟩ i.isLt } }
      wiped := s.wiped || s.recordedNat i }
  | .natCounter =>
    .ok { s with box := { s.box with nat := { s.box.nat with natIdCounter := 0 } } }
  | .routerEntry => (s.claimEntry s.router.routerLinkLocal).map Prod.snd
  | .routerIpEntry =>
    (s.claimEntry s.router.routerIpAddr).map fun r => { r.2 with entry2 := some r.1 }
  | .routerMac =>
    match s.entry2 with
    | none => .error .cacheFull
    | some i =>
      .ok { s with
        box := { s.box with
          nd := s.box.nd.set i
            { s.box.nd.get i with macAddr := s.router.routerMacAddr, state := ndReachable }
            i.isLt } }

/-- The next step of `ipv6_init`, which waits at `await` until there is an address. -/
def initStep (block : NDCacheEntry) : Except StartFault Startup :=
  match s.todo with
  | [] => .ok s
  | st :: rest =>
    if st = .await ∧ s.router.hasIPv6Addr = false then .ok s
    else doStep { s with todo := rest } block st

/-- The slots that have changed since `s`. -/
def mark (s' : Startup) : Startup :=
  { s' with
    recordedND := fun i => s.recordedND i || decide (s'.box.nd.get i ≠ s.box.nd.get i)
    recordedFwd := fun i =>
      s.recordedFwd i || decide (s'.box.fwd.fwdTab.get i ≠ s.box.fwd.fwdTab.get i)
    recordedNat := fun i =>
      s.recordedNat i || decide (s'.box.nat.natTab.get i ≠ s.box.nat.natTab.get i) }

def step : StartEvent → Except StartFault (Unit × Startup)
  | .init block => (s.initStep block).map fun s' => ((), s')
  | .packet args pkt => (s.receive args pkt).map fun s' => ((), s.mark s')
  | .sweep clktime => .ok ((), { s with table := checkReassemblyTimeOut s.table clktime })

end Startup

/-! ## Walks -/

/-- A walk over indices is over set ones if all are, or if it leaves before one that is not. -/
theorem walkSet_iff {n : Nat} {isSet stop : Fin n → Bool} {l : List (Fin n)}
    (hl : l.Pairwise (· < ·)) : walkSet isSet stop l = true ↔ (∀ j ∈ l, isSet j = true) ∨
      ∃ i ∈ l, stop i = true ∧ ∀ j ∈ l, j ≤ i → isSet j = true := by
  induction l with
  | nil => exact iff_of_true rfl (.inl fun _ h => absurd h List.not_mem_nil)
  | cons a l ih =>
    obtain ⟨ha, hl⟩ := List.pairwise_cons.mp hl
    rw [walkSet, Bool.and_eq_true, Bool.or_eq_true, ih hl]
    constructor
    · rintro ⟨hset, hstop | hall | ⟨i, hi, hstop, hbefore⟩⟩
      · refine .inr ⟨a, List.mem_cons_self, hstop, fun j hj hle => ?_⟩
        rcases List.mem_cons.mp hj with rfl | hj
        · exact hset
        · exact absurd (ha j hj) (Fin.not_lt.mpr hle)
      · exact .inl (List.forall_mem_cons.mpr ⟨hset, hall⟩)
      · refine .inr ⟨i, List.mem_cons_of_mem _ hi, hstop, fun j hj hle => ?_⟩
        rcases List.mem_cons.mp hj with rfl | hj
        · exact hset
        · exact hbefore j hj hle
    · rintro (hall | ⟨i, hi, hstop, hbefore⟩)
      · obtain ⟨hset, hall⟩ := List.forall_mem_cons.mp hall
        exact ⟨hset, .inr (.inl hall)⟩
      · rcases List.mem_cons.mp hi with rfl | hi
        · exact ⟨hbefore i List.mem_cons_self (Fin.le_refl i), .inl hstop⟩
        · exact ⟨hbefore a List.mem_cons_self (Fin.le_of_lt (ha i hi)),
            .inr (.inr ⟨i, hi, hstop, fun j hj => hbefore j (List.mem_cons_of_mem _ hj)⟩)⟩

theorem walkSet_finRange_iff {n : Nat} {isSet stop : Fin n → Bool} :
    walkSet isSet stop (List.finRange n) = true ↔ (∀ j, isSet j = true) ∨
      ∃ i, stop i = true ∧ ∀ j, j ≤ i → isSet j = true := by
  rw [walkSet_iff (List.pairwise_lt_finRange n)]
  simp only [List.mem_finRange, forall_const, true_and]

namespace Startup

variable {s s' : Startup} {pkt : NetPacket} {args : PacketArgs}

/-- All of the cache is set, or an entry with the address and all in front of it. -/
def NdReady (s : Startup) (ip : Ipv6Addr) : Prop :=
  (∀ i, InitStep.ndPointer i ∉ s.todo) ∨
    ∃ i, (s.box.nd.get i).ipAddr = ip ∧ ∀ j, j ≤ i → InitStep.ndPointer j ∉ s.todo

/-- All of the forwarding table is set. -/
def FwdReady (s : Startup) : Prop := ∀ i, InitStep.fwd i ∉ s.todo

/-- All of the forwarding table is set, or a pointer that a search ends at and all in front of
it. -/
def HopReady (s : Startup) (dest : Ipv6Addr) : Prop :=
  s.FwdReady ∨ ∃ k, hopStops s.box.fwd dest k = true ∧ ∀ j, j ≤ k → InitStep.fwd j ∉ s.todo

theorem lookupReads_iff {ip : Ipv6Addr} : s.lookupReads ip = true ↔ s.NdReady ip := by
  unfold lookupReads NdReady ndSet
  rw [walkSet_finRange_iff]
  simp only [decide_eq_true_eq, matchBytes_self_length, @eq_comm _ ip]

theorem insertReads_iff : s.insertReads = true ↔ s.FwdReady := by
  unfold insertReads FwdReady fwdSet
  simp only [List.all_eq_true, List.mem_finRange, forall_const, decide_eq_true_eq]

theorem hopReads_iff {dest : Ipv6Addr} : s.hopReads dest = true ↔ s.HopReady dest := by
  unfold hopReads HopReady FwdReady fwdSet
  rw [walkSet_finRange_iff]
  simp only [decide_eq_true_eq]

/-- What a message of a neighbour reaches is set. -/
def NeighbourReady (s : Startup) (heap : Mem) (pkt : NetPacket) : Prop :=
  (pkt.msgType = neighbS ∧ nsolicitValid s.config heap pkt = .ok true →
    s.NdReady pkt.ip.src ∧ (addsRoute s.box pkt = true → s.FwdReady)) ∧
  (pkt.msgType = neighbA ∧ nadvertValid s.config heap pkt = .ok true → s.NdReady pkt.ip.src)

/-- What the answer to a datagram that the fragment completes reaches is set. -/
def FragmentReady (s : Startup) (args : PacketArgs) (pkt : NetPacket) : Prop :=
  ∀ d table r, reassembly s.table args.clktime args.block pkt = .ok (some d, table) →
    processDatagram s.config s.box.nd args.solicited args.identif s.router.mtu args.heap d
        args.pool = .ok r →
    answersDatagram s.router.mtu d args.pool = true → s.NdReady d.headers.src

/-- What `ipv6_in` comes to behind the translation of the packet is set. -/
def DispositionReady (s : Startup) (args : PacketArgs) : Disposition → Prop
  | .forwarded pkt =>
    s.HopReady pkt.ip.dest ∧ s.NdReady (nextHopOf s.config s.box.fwd pkt.ip.dest).1
  | .icmpv6 pkt => s.NeighbourReady args.heap pkt
  | .fragment pkt => s.FragmentReady args pkt
  | .dropped | .unhandled _ => True

/-- What the event reaches is set. -/
def EventReady (s : Startup) : StartEvent → Prop
  | .packet args pkt => ∀ d box, ipv6In s.config s.box pkt = .ok (d, box) →
      (recordsNat s.config s.box pkt = true → s.FwdReady) ∧
        DispositionReady { s with box := box } args d
  | .init _ | .sweep _ => True

/-- An entry of the NAT table is recorded where `natTab_init` has passed. -/
def RecordsNatLate (s : Startup) (pkt : NetPacket) : Prop :=
  ∀ i : Fin maxNatEntries, recordsNat s.config s.box pkt = true →
    (getNewID s.box.nat.natIdCounter).1 = i.val → InitStep.nat i ∉ s.todo

/-- A neighbour is recorded where `NDCache_init` has passed. -/
def RecordsNdLate (s : Startup) (heap : Mem) (pkt : NetPacket) : Prop :=
  pkt.msgType = neighbS ∧ nsolicitValid s.config heap pkt = .ok true ∨
      pkt.msgType = neighbA ∧ nadvertValid s.config heap pkt = .ok true →
    ∀ i, ndSlot s.box.nd pkt = some i → InitStep.nd i ∉ s.todo

/-- What the event records is not to be cleared any more. -/
def RecordsLate (s : Startup) : StartEvent → Prop
  | .packet args pkt => s.RecordsNatLate pkt ∧
      match ipv6In s.config s.box pkt with
      | .ok (.icmpv6 pkt, _) => s.RecordsNdLate args.heap pkt
      | _ => True
  | .init _ | .sweep _ => True

instance (pkt : NetPacket) : Decidable (s.RecordsNatLate pkt) :=
  inferInstanceAs (Decidable (∀ i : Fin maxNatEntries, recordsNat s.config s.box pkt = true →
    (getNewID s.box.nat.natIdCounter).1 = i.val → InitStep.nat i ∉ s.todo))

instance (heap : Mem) (pkt : NetPacket) : Decidable (s.RecordsNdLate heap pkt) :=
  inferInstanceAs (Decidable (_ → _))

instance (e : StartEvent) : Decidable (s.RecordsLate e) :=
  match e with
  | .packet args pkt =>
    @instDecidableAnd _ _ inferInstance
      (match ipv6In s.config s.box pkt with
        | .ok (.icmpv6 pkt, _) => inferInstanceAs (Decidable (s.RecordsNdLate args.heap pkt))
        | .ok (.dropped, _) | .ok (.forwarded _, _) | .ok (.fragment _, _)
        | .ok (.unhandled _, _) | .error _ => isTrue trivial)
  | .init _ | .sweep _ => isTrue trivial

/-! ## What an event reaches -/

theorem forward_ready {pkt : NetPacket} : s.forward pkt ≠ .error .unset ↔
    s.HopReady pkt.ip.dest ∧ s.NdReady (nextHopOf s.config s.box.fwd pkt.ip.dest).1 := by
  rw [← hopReads_iff, ← lookupReads_iff, ← Bool.and_eq_true, forward]
  split
  · next h => exact iff_of_true (by simp) h
  · next h => exact iff_of_false (fun hne => hne rfl) h

theorem neighbour_ready {heap : Mem} {pkt : NetPacket} :
    s.neighbour heap pkt ≠ .error .unset ↔ s.NeighbourReady heap pkt := by
  have htypes : pkt.msgType = neighbS → pkt.msgType ≠ neighbA := by
    intro h
    rw [h]
    decide
  unfold neighbour NeighbourReady
  by_cases hs : pkt.msgType = neighbS ∧ nsolicitValid s.config heap pkt = .ok true
  · have hadv : ¬ (pkt.msgType = neighbA ∧ nadvertValid s.config heap pkt = .ok true) :=
      fun h => htypes hs.1 h.1
    have hin : neighbourIn s.config heap s.box pkt =
        .ok ((nsolicitHandler s.box pkt).2, (nsolicitHandler s.box pkt).1) := by
      rw [neighbourIn, if_pos hs.1, hs.2]
    rw [hin]
    dsimp only
    rw [if_pos hs, ← lookupReads_iff, ← insertReads_iff]
    by_cases hreads : s.lookupReads pkt.ip.src && (!addsRoute s.box pkt || s.insertReads)
    · rw [if_pos hreads]
      refine iff_of_true (by simp) ⟨fun _ => ?_, fun h => absurd h hadv⟩
      simpa [imp_iff_not_or] using hreads
    · rw [if_neg hreads]
      refine iff_of_false (fun hne => hne rfl) fun h => hreads ?_
      simpa [imp_iff_not_or] using h.1 hs
  by_cases ha : pkt.msgType = neighbA ∧ nadvertValid s.config heap pkt = .ok true
  · have hin : neighbourIn s.config heap s.box pkt = .ok ([], nadvertHandler s.box pkt) := by
      rw [neighbourIn, if_neg fun h => htypes h ha.1, if_pos ha.1, ha.2]
    rw [hin]
    dsimp only
    rw [if_neg hs, if_pos ha, ← lookupReads_iff]
    split
    · next hreads => exact iff_of_true (by simp) ⟨fun h => absurd h hs, fun _ => hreads⟩
    · next hreads => exact iff_of_false (fun hne => hne rfl) fun h => hreads (h.2 ha)
  · refine iff_of_true ?_ ⟨fun h => absurd h hs, fun h => absurd h ha⟩
    split
    · simp
    · rw [if_neg hs, if_neg ha]
      simp

theorem icmpv6In_ready {heap : Mem} {pkt : NetPacket} :
    s.icmpv6In heap pkt ≠ .error .unset ↔ s.NeighbourReady heap pkt := by
  unfold icmpv6In
  split
  · next hrouter =>
    refine iff_of_true ?_ ⟨fun h => ?_, fun h => ?_⟩
    · split <;> simp
    · rw [hrouter] at h
      exact absurd h.1 (by decide)
    · rw [hrouter] at h
      exact absurd h.1 (by decide)
  · exact neighbour_ready

theorem fragment_ready {args : PacketArgs} {pkt : NetPacket} :
    s.fragment args pkt ≠ .error .unset ↔ s.FragmentReady args pkt := by
  unfold fragment FragmentReady
  rcases hr : reassembly s.table args.clktime args.block pkt with f | ⟨_ | d, table⟩
  · exact iff_of_true (by simp) fun d table r h => nomatch h
  · exact iff_of_true (by simp) fun d table r h => nomatch h
  · dsimp only
    rcases hd : processDatagram s.config s.box.nd args.solicited args.identif s.router.mtu
      args.heap d args.pool with f | r
    · refine iff_of_true (by simp) fun d' table' r h hd' => ?_
      obtain ⟨hd'', -⟩ := Prod.mk.inj (Except.ok.inj h)
      rw [← Option.some.inj hd'', hd] at hd'
      cases hd'
    · dsimp only
      have hreads : (!answersDatagram s.router.mtu d args.pool || s.lookupReads d.headers.src) =
            true ↔
          (answersDatagram s.router.mtu d args.pool = true → s.NdReady d.headers.src) := by
        rw [← lookupReads_iff, imp_iff_not_or, Bool.or_eq_true, Bool.not_eq_true',
          Bool.not_eq_true]
      split
      · next h =>
        refine iff_of_true (by simp) fun d' table' r' hok _ => ?_
        obtain ⟨hd', -⟩ := Prod.mk.inj (Except.ok.inj hok)
        rw [← Option.some.inj hd']
        exact hreads.mp h
      · next h =>
        exact iff_of_false (fun hne => hne rfl) fun hall => h (hreads.mpr (hall d table r rfl hd))

theorem receive_ready {args : PacketArgs} {pkt : NetPacket} :
    s.receive args pkt ≠ .error .unset ↔ s.EventReady (.packet args pkt) := by
  unfold receive EventReady
  rcases hin : ipv6In s.config s.box pkt with f | ⟨d, box⟩
  · refine iff_of_true (by simp) fun d box h => ?_
    rw [hin] at h
    cases h
  · dsimp only
    have hrecord : (recordsNat s.config s.box pkt && !s.insertReads) = true ↔
        ¬ (recordsNat s.config s.box pkt = true → s.FwdReady) := by
      rw [← insertReads_iff, Bool.and_eq_true, Bool.not_eq_true', ← Bool.not_eq_true,
        Classical.not_imp]
    have hrest : (∀ d' box', ipv6In s.config s.box pkt = .ok (d', box') →
        (recordsNat s.config s.box pkt = true → s.FwdReady) ∧
          DispositionReady { s with box := box' } args d') ↔
        (recordsNat s.config s.box pkt = true → s.FwdReady) ∧
          DispositionReady { s with box := box } args d := by
      refine ⟨fun h => h d box hin, fun h d' box' heq => ?_⟩
      obtain ⟨rfl, rfl⟩ := Prod.mk.inj (Except.ok.inj (hin.symm.trans heq))
      exact h
    rw [hrest]
    split
    · next h => exact iff_of_false (fun hne => hne rfl) fun hall => hrecord.mp h hall.1
    · next h =>
      rw [and_iff_right (not_not.mp (mt hrecord.mpr h))]
      cases d with
      | dropped => exact iff_of_true (by simp) trivial
      | forwarded pkt => exact forward_ready
      | icmpv6 pkt => exact icmpv6In_ready
      | fragment pkt => exact fragment_ready
      | unhandled next => exact iff_of_true (by simp) trivial

/-! ## What an event changes -/

theorem ndSlot_of_finds {nd : NDCache} {i : Fin maxNdEntry} (h : FindsEntry nd pkt i) :
    ndSlot nd pkt = some i := by
  unfold ndSlot
  rcases h with hfound | ⟨htype, hnone, havail⟩
  · rw [hfound]
  · rw [hnone]
    dsimp only
    rw [if_pos htype, havail]

/-- A handler changes the cache where it is cleared, and the forwarding table if it is set. -/
structure Handled (s s' : Startup) : Prop where
  own : s'.own = s.own
  todo : s'.todo = s.todo
  wiped : s'.wiped = s.wiped
  nd : ∀ i, s'.box.nd.get i ≠ s.box.nd.get i → InitStep.nd i ∉ s.todo
  fwd : s'.box.fwd ≠ s.box.fwd → s.FwdReady
  nat : s'.box.nat = s.box.nat

theorem handled_of_box {box : Box}
    (hnd : ∀ i, box.nd.get i ≠ s.box.nd.get i → InitStep.nd i ∉ s.todo)
    (hfwd : box.fwd ≠ s.box.fwd → s.FwdReady) (hnat : box.nat = s.box.nat) :
    Handled s { s with box := box } :=
  ⟨rfl, rfl, rfl, hnd, hfwd, hnat⟩

/-- Router messages and fragments leave the tables alone. -/
theorem handled_of_others (router : RouterRecord) (table : ReassemblyTable) :
    Handled s { s with router := router, table := table } :=
  ⟨rfl, rfl, rfl, fun _ hne => absurd rfl hne, fun hne => absurd rfl hne, rfl⟩

theorem nsolicitHandler_frame (box : Box) (pkt : NetPacket) :
    (nsolicitHandler box pkt).1.nat = box.nat ∧
      (addsRoute box pkt = false → (nsolicitHandler box pkt).1.fwd = box.fwd) := by
  unfold nsolicitHandler addsRoute
  rcases senderEntry box.nd pkt.ip.src with _ | ⟨k, nd⟩
  · exact ⟨rfl, fun _ => rfl⟩
  · cases getmacSol pkt.body with
    | none => exact ⟨rfl, fun _ => rfl⟩
    | some mac => exact ⟨rfl, fun h => by simp at h⟩

theorem nadvertHandler_frame (box : Box) (pkt : NetPacket) :
    (nadvertHandler box pkt).nat = box.nat ∧ (nadvertHandler box pkt).fwd = box.fwd := by
  unfold nadvertHandler
  cases lookupNDEntry box.nd pkt.ip.src with
  | none => exact ⟨rfl, rfl⟩
  | some k => cases getmacAd pkt.body <;> exact ⟨rfl, rfl⟩

/-- A message changes one entry at most, that which it finds. -/
theorem ndSlot_of_uses {nd nd' : NDCache}
    (hcases : (∃ k, FindsEntry nd pkt k ∧ UsesEntry nd nd' k pkt) ∨
      ((∀ k, ¬ FindsEntry nd pkt k) ∧ nd' = nd))
    {i : Fin maxNdEntry} (hne : nd'.get i ≠ nd.get i) : ndSlot nd pkt = some i := by
  rcases hcases with ⟨k, hfinds, huses⟩ | ⟨-, rfl⟩
  · by_cases hik : i = k
    · exact hik ▸ ndSlot_of_finds hfinds
    · exact absurd (huses.others i hik) hne
  · exact absurd rfl hne

theorem outPktRW_box {cfg : Config} {box box' : Box} {iface : UInt8} {r : Rewritten}
    (h : outPktRW cfg box iface pkt = .ok (r, box')) : box'.nd = box.nd ∧
      (box'.fwd ≠ box.fwd → (getNewID box.nat.natIdCounter).1 ≠ -1) ∧
      ∀ i, box'.nat.natTab.get i ≠ box.nat.natTab.get i →
        (getNewID box.nat.natIdCounter).1 ≠ -1 ∧ (getNewID box.nat.natIdCounter).1 = i.val := by
  unfold outPktRW at h
  generalize getNewID box.nat.natIdCounter = r at h ⊢
  obtain ⟨newID, counter⟩ := r
  dsimp only at h ⊢
  split at h
  · obtain ⟨-, rfl⟩ := Prod.mk.inj (Except.ok.inj h)
    exact ⟨rfl, fun hne => absurd rfl hne, fun i hne => absurd rfl hne⟩
  · next hnew =>
    split at h
    · next hrange =>
      split at h
      · cases h
      · obtain ⟨-, rfl⟩ := Prod.mk.inj (Except.ok.inj h)
        refine ⟨rfl, fun _ => hnew, fun i hne => ⟨hnew, ?_⟩⟩
        by_contra hi
        have hlt : newID.toNat < maxNatEntries := by omega
        refine hne (Vector.getElem_set_ne hlt i.isLt fun heq => hi ?_)
        omega
    · cases h

theorem ipv6In_box {cfg : Config} {box box' : Box} {d : Disposition}
    (h : ipv6In cfg box pkt = .ok (d, box')) : box'.nd = box.nd ∧
      (box'.fwd ≠ box.fwd → recordsNat cfg box pkt = true) ∧
      ∀ i, box'.nat.natTab.get i ≠ box.nat.natTab.get i →
        recordsNat cfg box pkt = true ∧ (getNewID box.nat.natIdCounter).1 = i.val := by
  have hsame : ∀ box'' : Box, box'' = box → box''.nd = box.nd ∧
      (box''.fwd ≠ box.fwd → recordsNat cfg box pkt = true) ∧
      ∀ i, box''.nat.natTab.get i ≠ box.nat.natTab.get i →
        recordsNat cfg box pkt = true ∧ (getNewID box.nat.natIdCounter).1 = i.val := by
    rintro box'' rfl
    exact ⟨rfl, fun hne => absurd rfl hne, fun i hne => absurd rfl hne⟩
  unfold ipv6In at h
  split at h
  · obtain ⟨-, rfl⟩ := Prod.mk.inj (Except.ok.inj h)
    exact hsame _ rfl
  · next hown =>
    split at h
    · next hother =>
      unfold forwardOther at h
      split at h
      · obtain ⟨-, rfl⟩ := Prod.mk.inj (Except.ok.inj h)
        exact hsame _ rfl
      · next hhost =>
        split at h
        · split at h
          · cases h
          · split at h <;> exact hsame _ (Prod.mk.inj (Except.ok.inj h)).2.symm
        · next hiface =>
          split at h
          · cases h
          · next r box₁ hout =>
            have hbox : box' = box₁ := by
              split at h <;> exact (Prod.mk.inj (Except.ok.inj h)).2.symm
            obtain ⟨hnd, hfwd, hnat⟩ := outPktRW_box hout
            have hrec : (getNewID box.nat.natIdCounter).1 ≠ -1 → recordsNat cfg box pkt = true := by
              intro hnew
              simp [recordsNat, hown, hother, hhost, hiface, hnew]
            rw [hbox]
            exact ⟨hnd, fun hne => hrec (hfwd hne), fun i hne =>
              ⟨hrec (hnat i hne).1, (hnat i hne).2⟩⟩
    · unfold receiveOwn at h
      split at h
      · exact hsame _ (Prod.mk.inj (Except.ok.inj h)).2.symm
      · split at h
        · cases h
        · split at h <;> exact hsame _ (Prod.mk.inj (Except.ok.inj h)).2.symm

theorem neighbour_handled {heap : Mem} (h : s.neighbour heap pkt = .ok s')
    (hlate : s.RecordsNdLate heap pkt) : Handled s s' := by
  have hready : s.NeighbourReady heap pkt := neighbour_ready.mp (by rw [h]; simp)
  unfold neighbour at h
  split at h
  · cases h
  · next sends box hin =>
    have hbox : s' = { s with box := box } ∨ s' = s := by
      split at h
      · split at h
        · exact .inl (Except.ok.inj h).symm
        · cases h
      · split at h
        · split at h
          · exact .inl (Except.ok.inj h).symm
          · cases h
        · exact .inr (Except.ok.inj h).symm
    rcases hbox with rfl | rfl
    · rcases neighbourIn_cases hin with ⟨htype, hvalid, rfl⟩ | ⟨htype, hvalid, rfl⟩ | ⟨-, -, rfl⟩
      · obtain ⟨-, hroute⟩ := hready.1 ⟨htype, hvalid⟩
        obtain ⟨hnat, hfwd⟩ := nsolicitHandler_frame s.box pkt
        refine handled_of_box (fun i hne => hlate (.inl ⟨htype, hvalid⟩) i
          (ndSlot_of_uses (nsolicitHandler_cases s.box htype) hne)) (fun hne => hroute ?_) hnat
        by_contra hno
        exact hne (hfwd (Bool.not_eq_true _ ▸ hno))
      · obtain ⟨hnat, hfwd⟩ := nadvertHandler_frame s.box pkt
        exact handled_of_box (fun i hne => hlate (.inr ⟨htype, hvalid⟩) i
          (ndSlot_of_uses (nadvertHandler_cases s.box htype) hne)) (fun hne => absurd hfwd hne) hnat
      · exact handled_of_others s.router s.table
    · exact handled_of_others s'.router s'.table

theorem icmpv6In_handled {heap : Mem} (h : s.icmpv6In heap pkt = .ok s')
    (hlate : s.RecordsNdLate heap pkt) : Handled s s' := by
  unfold icmpv6In at h
  split at h
  · split at h
    · cases h
    · next router _ =>
      obtain rfl := Except.ok.inj h
      exact handled_of_others router s.table
  · exact neighbour_handled h hlate

theorem fragment_handled (h : s.fragment args pkt = .ok s') : Handled s s' := by
  unfold fragment at h
  split at h
  · cases h
  · next table _ =>
    obtain rfl := Except.ok.inj h
    exact handled_of_others s.router table
  · next d table _ =>
    split at h
    · cases h
    · split at h
      · obtain rfl := Except.ok.inj h
        exact handled_of_others s.router table
      · cases h

/-- A packet is handled with the tables as its translation leaves them. -/
theorem receive_handled (h : s.receive args pkt = .ok s')
    (hlate : s.RecordsLate (.packet args pkt)) : ∃ d box,
    ipv6In s.config s.box pkt = .ok (d, box) ∧
      (recordsNat s.config s.box pkt = true → s.FwdReady) ∧ Handled { s with box := box } s' := by
  have hready := receive_ready.mp (show s.receive args pkt ≠ .error .unset by rw [h]; simp)
  unfold receive at h
  rcases hin : ipv6In s.config s.box pkt with f | ⟨d, box⟩
  · rw [hin] at h
    cases h
  · rw [hin] at h
    have hnd := hlate.2
    rw [hin] at hnd
    refine ⟨d, box, rfl, (hready d box hin).1, ?_⟩
    dsimp only at h
    split at h
    · cases h
    · have hself : Handled { s with box := box } { s with box := box } :=
        handled_of_others s.router s.table
      cases d with
      | dropped => exact Except.ok.inj h ▸ hself
      | forwarded pkt =>
        dsimp only at h
        unfold forward at h
        split at h
        · exact Except.ok.inj h ▸ hself
        · cases h
      | icmpv6 pkt =>
        refine icmpv6In_handled h fun hvalid i hslot => hnd hvalid i ?_
        rwa [← (ipv6In_box hin).1]
      | fragment pkt => exact fragment_handled h
      | unhandled next => exact Except.ok.inj h ▸ hself

/-! ## Runs -/

/-- `ipv6_init` has got to some step, and what packets have changed is not to be initialized
any more. -/
structure Kept (s : Startup) : Prop where
  todo : s.todo <:+ ipv6Init s.own.host
  nd : ∀ i, InitStep.nd i ∈ s.todo → s.recordedND i = false
  fwd : ∀ i, InitStep.fwd i ∈ s.todo → s.recordedFwd i = false
  nat : ∀ i, InitStep.nat i ∈ s.todo → s.recordedNat i = false
  wiped : s.wiped = false

theorem kept_start (own : Config) : Kept (start own) where
  todo := List.suffix_refl _
  nd _ _ := rfl
  fwd _ _ := rfl
  nat _ _ := rfl
  wiped := rfl

theorem Kept.receive (h : Kept s) (hs : s.receive args pkt = .ok s')
    (hlate : s.RecordsLate (.packet args pkt)) : Kept (s.mark s') := by
  obtain ⟨d, box, hin, hrecord, hh⟩ := receive_handled hs hlate
  obtain ⟨hboxnd, hboxfwd, hboxnat⟩ := ipv6In_box hin
  have htodo : s'.todo = s.todo := hh.todo
  constructor
  · show s'.todo <:+ ipv6Init s'.own.host
    rw [htodo, hh.own]
    exact h.todo
  · intro i hi
    have hi' : InitStep.nd i ∈ s.todo := htodo ▸ hi
    show (s.recordedND i || decide (s'.box.nd.get i ≠ s.box.nd.get i)) = false
    rw [h.nd i hi', Bool.false_or, decide_eq_false_iff_not]
    intro hne
    refine hh.nd i ?_ hi'
    rw [show ({ s with box := box } : Startup).box = box from rfl, hboxnd]
    exact hne
  · intro i hi
    have hi' : InitStep.fwd i ∈ s.todo := htodo ▸ hi
    show (s.recordedFwd i || decide (s'.box.fwd.fwdTab.get i ≠ s.box.fwd.fwdTab.get i)) = false
    rw [h.fwd i hi', Bool.false_or, decide_eq_false_iff_not]
    intro hne
    by_cases hbox : box.fwd = s.box.fwd
    · refine hh.fwd (fun heq => hne ?_) i hi'
      rw [heq, show ({ s with box := box } : Startup).box = box from rfl, hbox]
    · exact hrecord (hboxfwd hbox) i hi'
  · intro i hi
    have hi' : InitStep.nat i ∈ s.todo := htodo ▸ hi
    show (s.recordedNat i || decide (s'.box.nat.natTab.get i ≠ s.box.nat.natTab.get i)) = false
    rw [h.nat i hi', Bool.false_or, decide_eq_false_iff_not]
    intro hne
    rw [hh.nat] at hne
    obtain ⟨hrec, hslot⟩ := hboxnat i hne
    exact hlate.1 i hrec hslot hi'
  · exact hh.wiped.trans h.wiped

/-- The entries for the router come last. -/
theorem ndPointer_not_mem_of_suffix {host : Bool} {st : InitStep} {rest : List InitStep}
    (h : st :: rest <:+ ipv6Init host) (hst : st = .routerEntry ∨ st = .routerIpEntry)
    (i : Fin maxNdEntry) : InitStep.ndPointer i ∉ rest := by
  have hall : ∀ host, ∀ l ∈ (ipv6Init host).tails,
      l.head? = some .routerEntry ∨ l.head? = some .routerIpEntry →
        ∀ i, InitStep.ndPointer i ∉ l := by
    decide +kernel
  refine fun hi => hall host _ (List.mem_tails _ _ |>.mpr h) ?_ i (List.mem_cons_of_mem _ hi)
  exact hst.imp (congrArg some) (congrArg some)

/-- An entry for the router is claimed where the cache is set. -/
theorem claimEntry_ok {ip : Ipv6Addr} (hset : ∀ i, InitStep.ndPointer i ∉ s.todo) :
    s.claimEntry ip = .error .cacheFull ∨
      ∃ i nd, s.claimEntry ip = .ok (i, { s with box := { s.box with nd := nd } }) := by
  have hwalk : walkSet s.ndSet (fun i => decide ((s.box.nd.get i).state = ndNoEntry))
      (List.finRange maxNdEntry) = true :=
    walkSet_finRange_iff.mpr (.inl fun j => decide_eq_true (hset j))
  unfold claimEntry
  rw [if_pos hwalk]
  rcases getAvailNDEntry s.box.nd with ⟨_ | i, nd⟩
  · exact .inl rfl
  · exact .inr ⟨i, _, rfl⟩

theorem claimEntry_kept {ip : Ipv6Addr} {f : Fin maxNdEntry × Startup → Startup}
    (hset : ∀ i, InitStep.ndPointer i ∉ s.todo)
    (hf : ∀ i nd, Kept (f (i, { s with box := { s.box with nd := nd } }))) :
    (s.claimEntry ip).map f ≠ .error .unset ∧
      ∀ s', (s.claimEntry ip).map f = .ok s' → Kept s' := by
  rcases @claimEntry_ok s ip hset with heq | ⟨i, nd, heq⟩
  · rw [heq]
    exact ⟨by simp [Except.map], fun s' hs => by cases hs⟩
  · rw [heq]
    refine ⟨by simp [Except.map], fun s' hs => ?_⟩
    obtain rfl := Except.ok.inj hs
    exact hf i nd

/-- A step of `ipv6_init` comes to no pointer that is not set, and clears nothing that a packet has
changed. -/
theorem Kept.doStep (h : Kept s) {block : NDCacheEntry} {st : InitStep} {rest : List InitStep}
    (htodo : s.todo = st :: rest) :
    Startup.doStep { s with todo := rest } block st ≠ .error .unset ∧
      ∀ s', Startup.doStep { s with todo := rest } block st = .ok s' → Kept s' := by
  have hsuffix := htodo ▸ h.todo
  have hrest : Kept { s with todo := rest } :=
    { todo := (List.suffix_cons st rest).trans hsuffix
      nd := fun i hi => h.nd i (htodo ▸ List.mem_cons_of_mem st hi)
      fwd := fun i hi => h.fwd i (htodo ▸ List.mem_cons_of_mem st hi)
      nat := fun i hi => h.nat i (htodo ▸ List.mem_cons_of_mem st hi)
      wiped := h.wiped }
  have hhead : st ∈ s.todo := htodo ▸ List.mem_cons_self
  have hwiped : ∀ recorded : Bool, recorded = false → (s.wiped || recorded) = false := by
    rintro _ rfl
    rw [h.wiped, Bool.or_false]
  cases st with
  | nd i =>
    refine ⟨by simp [Startup.doStep], fun s' hs => ?_⟩
    obtain rfl := Except.ok.inj hs
    exact { hrest with wiped := hwiped _ (h.nd i hhead) }
  | fwd i =>
    refine ⟨by simp [Startup.doStep], fun s' hs => ?_⟩
    obtain rfl := Except.ok.inj hs
    exact { hrest with wiped := hwiped _ (h.fwd i hhead) }
  | nat i =>
    refine ⟨by simp [Startup.doStep], fun s' hs => ?_⟩
    obtain rfl := Except.ok.inj hs
    exact { hrest with wiped := hwiped _ (h.nat i hhead) }
  | routerEntry =>
    have hset := ndPointer_not_mem_of_suffix hsuffix (.inl rfl)
    rw [Startup.doStep]
    exact claimEntry_kept hset fun i nd => { hrest with }
  | routerIpEntry =>
    have hset := ndPointer_not_mem_of_suffix hsuffix (.inr rfl)
    rw [Startup.doStep]
    exact claimEntry_kept hset fun i nd => { hrest with }
  | routerMac =>
    rw [Startup.doStep]
    dsimp only
    split
    · exact ⟨by simp, fun s' hs => by cases hs⟩
    · refine ⟨by simp, fun s' hs => ?_⟩
      obtain rfl := Except.ok.inj hs
      exact { hrest with }
  | clearFragments | clearPrefix | linkLocal | snmAddr | noAddress | allNodes | allRouters | solicit
    | ndPointer | natCounter | await =>
    refine ⟨by simp [Startup.doStep], fun s' hs => ?_⟩
    obtain rfl := Except.ok.inj hs
    exact { hrest with }

theorem Kept.initStep (h : Kept s) {block : NDCacheEntry} : s.initStep block ≠ .error .unset ∧
    ∀ s', s.initStep block = .ok s' → Kept s' := by
  unfold Startup.initStep
  cases htodo : s.todo with
  | nil => exact ⟨by simp, fun s' hs => Except.ok.inj hs ▸ h⟩
  | cons st rest =>
    dsimp only
    split
    · exact ⟨by simp, fun s' hs => Except.ok.inj hs ▸ h⟩
    · exact h.doStep htodo

theorem Kept.step (h : Kept s) {e : StartEvent} {o : Unit} (hs : s.step e = .ok (o, s'))
    (hlate : s.RecordsLate e) : Kept s' := by
  cases e with
  | init block =>
    obtain ⟨s₁, hinit, heq⟩ := map_ok hs
    obtain ⟨-, rfl⟩ := Prod.mk.inj heq
    exact h.initStep.2 s₁ hinit
  | packet args pkt =>
    obtain ⟨s₁, hreceive, heq⟩ := map_ok hs
    obtain ⟨-, rfl⟩ := Prod.mk.inj heq
    exact h.receive hreceive hlate
  | sweep clktime =>
    obtain ⟨-, rfl⟩ := Prod.mk.inj (Except.ok.inj hs)
    exact ⟨h.todo, h.nd, h.fwd, h.nat, h.wiped⟩

/-- In a run whose packets are recorded late, in the NAT table and in the cache, nothing that they
recorded is cleared, and an event comes to a pointer that is not set exactly if it is not ready. -/
theorem startup_ready_iff {own : Config} {tr : List (StartEvent × Unit)}
    (h : Run Startup.step (start own) tr s)
    (hlate : AllSteps Startup.step (start own) (fun s e _ => s.RecordsLate e) tr) :
    s.wiped = false ∧ ∀ e, s.step e ≠ .error .unset ↔ s.EventReady e := by
  have hkept := h.invariant_of_allSteps (I := fun _ s => Kept s) (kept_start own)
    (fun _ _ _ _ _ hk hs hC => hk.step hs hC) hlate
  have hmap : ∀ {r : Except StartFault Startup} {f : Startup → Unit × Startup},
      r.map f ≠ .error .unset ↔ r ≠ .error .unset := by
    intro r f
    cases r <;> simp [Except.map]
  refine ⟨hkept.wiped, fun e => ?_⟩
  cases e with
  | init block => exact iff_of_true (hmap.mpr hkept.initStep.1) trivial
  | packet args pkt => exact hmap.trans receive_ready
  | sweep clktime => exact iff_of_true (by simp [Startup.step]) trivial

/-! ## Packets during `ipv6_init` -/

def quietArgs : PacketArgs where
  clktime := 0
  heap _ := 0
  block _ := 0
  solicited := Box.init.nd
  identif := 0
  pool := ipv6bufpool

/-- What a block that was never used holds. -/
def zeroEntry : NDCacheEntry := ⟨0, unspecified, Vector.replicate 6 0, 0⟩

/-- An advertisement of a prefix, by the router that the NAT box listens to. -/
def prefixAdvert : NetPacket :=
  { examplePacket plainAdvert.ip.src exampleConfig.allnIPmulti
      ([routerA, 0, 0xD1, 0x41, 64, 0, 0x07, 0x08, 0, 0, 0, 0, 0, 0, 0, 0] ++
        [3, 4, 64, 0xC0] ++ List.replicate 12 0 ++ [0x20, 0x01] ++ List.replicate 14 0) with
    netSrc := defaultRouterMac
    netIface := 0 }

/-- An echo request on its way out. -/
def echoOut : NetPacket :=
  examplePacket exampleHost exampleServer [echoReq, 0, 0, 0, 0x12, 0x34, 0, 1]

/-- `ipv6_init` up to a step, then the advertisement and the request. -/
def outAfter (steps : Nat) : List StartEvent :=
  List.replicate steps (.init zeroEntry) ++
    [.packet quietArgs prefixAdvert, .packet quietArgs echoOut]

/-- The entry of the request lies in the NAT table, which has been initialized. -/
theorem startup_ready_out : ∃ os s,
    Run Startup.step (start exampleConfig) ((outAfter 144).zip os) s ∧
      s.recordedNat ⟨0, by decide⟩ = true ∧ s.wiped = false ∧
      ∀ e, s.step e ≠ .error .unset ↔ s.EventReady e := by
  have hend : endsIn Startup.step (start exampleConfig) (outAfter 144)
      (fun _ s => s.recordedNat ⟨0, by decide⟩) = true := by
    decide +kernel
  obtain ⟨os, s, h, hevents, hrecorded⟩ := run_of_endsIn hend
  have hpass : stepsPass Startup.step (fun s e => decide (s.RecordsLate e)) (start exampleConfig)
      (outAfter 144) = true := by
    decide +kernel
  exact ⟨os, s, h, hrecorded, startup_ready_iff h
    (allSteps_of_stepsPass (by rw [hevents]; exact hpass) fun _ _ => of_decide_eq_true)⟩

/-- A solicitation from a host that has no address yet.  (With zero in the place of an identifier
`incPktRW` would take it.) -/
def unspecifiedSolicit : NetPacket :=
  exampleNeighbourMessage unspecified exampleConfig.snmAddr
    ([neighbS, 0, 0, 0, 0, 1, 0, 0] ++ exampleConfig.ipv6Addr.toList)

/-- `ipv6_init` up to a step, then packets, then one more step. -/
def wipeAfter (steps : Nat) (packets : List NetPacket) : List StartEvent :=
  List.replicate steps (.init zeroEntry) ++ packets.map (.packet quietArgs) ++ [.init zeroEntry]

/-- A solicitation comes to the cache before it is there; one that arrives when the first pointer is
set and the entry behind it not cleared is recorded there, and cleared; and so is an entry of the
NAT table. -/
theorem startup_unset_wiped :
    (start exampleConfig).step (.packet quietArgs exampleUnsummed) = .error .unset ∧
      (∃ os s, Run Startup.step (start exampleConfig)
          ((wipeAfter 24 [unspecifiedSolicit]).zip os) s ∧
        s.recordedND ⟨0, by decide⟩ = true ∧ s.wiped = true) ∧
      ∃ os s, Run Startup.step (start exampleConfig)
          ((wipeAfter 113 [prefixAdvert, echoOut]).zip os) s ∧
        s.recordedNat ⟨0, by decide⟩ = true ∧ s.wiped = true := by
  have hnd : endsIn Startup.step (start exampleConfig) (wipeAfter 24 [unspecifiedSolicit])
      (fun _ s => s.recordedND ⟨0, by decide⟩ && s.wiped) = true := by
    decide +kernel
  have hnat : endsIn Startup.step (start exampleConfig) (wipeAfter 113 [prefixAdvert, echoOut])
      (fun _ s => s.recordedNat ⟨0, by decide⟩ && s.wiped) = true := by
    decide +kernel
  obtain ⟨os, s, h, -, hwiped⟩ := run_of_endsIn hnd
  obtain ⟨os', s', h', -, hwiped'⟩ := run_of_endsIn hnat
  have hunset : ((start exampleConfig).step (.packet quietArgs exampleUnsummed)).map Prod.fst =
      .error .unset := by
    decide +kernel
  rw [Bool.and_eq_true] at hwiped hwiped'
  exact ⟨map_error hunset, ⟨os, s, h, hwiped⟩, os', s', h', hwiped'⟩

end Startup

end NatBox
