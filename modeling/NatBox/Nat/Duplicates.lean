import Mathlib.Data.Finset.Card
import NatBox.Forward.TableRuns
import NatBox.Nat.ReplyPath

/-
Duplicate routes.

`insertNewFwdTabEntry` leaves it to its callers to look for a route that is already
there, and neither `nsolicit_handler` nor `outPktRW` does.  Every message of a host that
gets as far as the insertion uses up an entry, so the table has one entry a host exactly
along the runs in which no host is heard twice with an entry still free.
-/

namespace NatBox

open Runs

def NoDuplicateRoutes (t : FwdTable) : Prop :=
  ((t.fwdTab.toList.filter FwdTabEntry.inUse).map fun e => (e.ipAddr, e.prefixLen)).Nodup

/-- The host a packet comes from. -/
def HostEvent.src : HostEvent → Ipv6Addr
  | .solicit pkt => pkt.ip.src
  | .out _ pkt => pkt.ip.src

/-- The handler gets as far as inserting a route: the cache has or can take the sender
and the solicitation has its option, or the NAT has an identifier left. -/
def HostEvent.addsRoute (box : Box) : HostEvent → Bool
  | .solicit pkt => (senderEntry box.nd pkt.ip.src).isSome && (getmacSol pkt.body).isSome
  | .out _ _ => (getNewID box.nat.natIdCounter).1 ≠ -1

/-- The addresses that a history shows. -/
def addressesSeen (tr : List (HostEvent × Option Rewritten)) : Finset Ipv6Addr :=
  (tr.map fun c => c.1.src).toFinset

theorem noDuplicateRoutes_iff_entries {t : FwdTable} :
    NoDuplicateRoutes t ↔
      ((t.entries.filter FwdTabEntry.inUse).map fun e => (e.ipAddr, e.prefixLen)).Nodup :=
  ((t.entries_perm.filter _).map _).nodup_iff.symm

/-! ## One step -/

theorem nsolicitHandler_addsRoute (box : Box) (pkt : NetPacket) :
    if HostEvent.addsRoute box (.solicit pkt) then
      ∃ iface, (nsolicitHandler box pkt).1.fwd =
        (insertNewFwdTabEntry box.fwd pkt.ip.src 128 pkt.ip.src iface).2
    else (nsolicitHandler box pkt).1.fwd = box.fwd := by
  rw [nsolicitHandler, HostEvent.addsRoute]
  rcases hs : senderEntry box.nd pkt.ip.src with _ | ⟨i, nd⟩
  · rfl
  · have hip := senderEntry_ipAddr hs
    cases getmacSol pkt.body with
    | none => rfl
    | some mac => exact ⟨pkt.netIface.toUInt16.toUInt8, by simp only [hip]⟩

theorem outPktRW_addsRoute {cfg : Config} {box box' : Box} {interface : UInt8} {pkt : NetPacket}
    {r : Rewritten} (h : outPktRW cfg box interface pkt = .ok (r, box')) :
    if HostEvent.addsRoute box (.out interface pkt) then
      box'.fwd = (insertNewFwdTabEntry box.fwd pkt.ip.src 128 pkt.ip.src interface).2
    else box'.fwd = box.fwd := by
  by_cases hid : (getNewID box.nat.natIdCounter).1 = -1
  · have hno : HostEvent.addsRoute box (.out interface pkt) = false := by
      simp [HostEvent.addsRoute, hid]
    rw [hno, if_neg (by simp)]
    rcases outPktRW_cases cfg h with ⟨-, rfl, -⟩ | ⟨k, hk, ck, hk', -⟩
    · rfl
    · rw [hid] at hk'
      omega
  · have hyes : HostEvent.addsRoute box (.out interface pkt) = true := by
      simp [HostEvent.addsRoute, hid]
    rw [hyes, if_pos rfl]
    rcases outPktRW_cases cfg h with ⟨rfl, -⟩ | ⟨k, hk, ck, -, -, -, rfl⟩
    · rw [outPktRW] at h
      simp only [if_neg hid] at h
      split at h
      · split at h
        · cases h
        · simp at h
      · cases h
    · rfl

/-- The forwarding table gets a route to the sender or stays. -/
theorem hostStep_addsRoute {cfg : Config} {box box' : Box} {e : HostEvent} {o : Option Rewritten}
    (h : hostStep cfg box e = .ok (o, box')) :
    if e.addsRoute box then
      ∃ iface, box'.fwd = (insertNewFwdTabEntry box.fwd e.src 128 e.src iface).2
    else box'.fwd = box.fwd := by
  cases e with
  | solicit pkt =>
    rw [hostStep, Except.ok.injEq, Prod.mk.injEq] at h
    obtain ⟨-, rfl⟩ := h
    exact nsolicitHandler_addsRoute box pkt
  | out interface pkt =>
    obtain ⟨r, -, hout⟩ := hostStep_out h
    have hadds := outPktRW_addsRoute hout
    split at hadds
    · rename_i hyes
      rw [if_pos hyes]
      exact ⟨interface, hadds⟩
    · rename_i hno
      rw [if_neg hno]
      exact hadds

/-- A route that is inserted is a duplicate exactly when there is one already. -/
theorem HostRoutes.noDuplicateRoutes_insert_iff {t : FwdTable} (ht : HostRoutes t)
    (hnodup : NoDuplicateRoutes t) (hfree : ∃ e ∈ t.entries, e.ttl = 0) (ip : Ipv6Addr)
    (iface : UInt8) :
    NoDuplicateRoutes (insertNewFwdTabEntry t ip 128 ip iface).2 ↔ routesTo t ip = [] := by
  have hperm : ((insertNewFwdTabEntry t ip 128 ip iface).2.entries.filter
      FwdTabEntry.inUse).Perm
      (t.entries.filter FwdTabEntry.inUse ++ [newEntry ip 128 ip iface]) :=
    filter_inUse_insertRoute ht.searchable hfree ⟨ip, 128, ip, iface, by decide, by decide⟩
  rw [noDuplicateRoutes_iff_entries] at hnodup
  rw [noDuplicateRoutes_iff_entries, (hperm.map _).nodup_iff, List.map_append, List.map_singleton,
    List.nodup_append_comm, List.singleton_append, List.nodup_cons, and_iff_left hnodup, routesTo,
    List.filter_eq_nil_iff]
  constructor
  · intro hnew e he hr
    obtain ⟨hu, hlen, hip⟩ := routes_iff.mp hr
    refine hnew (List.mem_map.mpr ⟨e, List.mem_filter.mpr ⟨he, ?_⟩, Prod.ext hip hlen⟩)
    simpa [FwdTabEntry.inUse] using hu
  · intro hnone hmem
    obtain ⟨e, he, hkey⟩ := List.mem_map.mp hmem
    obtain ⟨he, hu⟩ := List.mem_filter.mp he
    obtain ⟨hip, hlen⟩ := Prod.mk.inj hkey
    exact hnone e he (routes_iff.mpr ⟨by simpa [FwdTabEntry.inUse] using hu, hlen, hip⟩)

/-! ## Runs -/

/-- One entry for each route, and no more of them than addresses were seen. -/
def RoutesCounted (tr : List (HostEvent × Option Rewritten)) (box : Box) : Prop :=
  NoDuplicateRoutes box.fwd ∧
    box.fwd.fwdTab.toList.countP FwdTabEntry.inUse ≤ (addressesSeen tr).card

/-- The step inserts no route where there is one. -/
def InsertsNewRoute (box : Box) (e : HostEvent) (_ : Box) : Prop :=
  e.addsRoute box = true → (∃ entry ∈ box.fwd.entries, entry.ttl = 0) → routesTo box.fwd e.src = []

/-- The invariant of runs that insert new routes only. -/
structure OneRouteEach (tr : List (HostEvent × Option Rewritten)) (box : Box) : Prop where
  hostRoutes : HostRoutes box.fwd
  nodup : NoDuplicateRoutes box.fwd
  seen : ∀ e ∈ box.fwd.entries, e.ttl ≠ 0 → e.ipAddr ∈ addressesSeen tr

theorem mem_addressesSeen_append {tr : List (HostEvent × Option Rewritten)} {e : HostEvent}
    {o : Option Rewritten} {a : Ipv6Addr} :
    a ∈ addressesSeen (tr ++ [(e, o)]) ↔ a ∈ addressesSeen tr ∨ a = e.src := by
  simp only [addressesSeen, List.mem_toFinset, List.map_append, List.mem_append, List.map_singleton,
    List.mem_singleton]

theorem oneRouteEach_init : OneRouteEach [] Box.init where
  hostRoutes := hostRoutes_init
  nodup := by
    rw [noDuplicateRoutes_iff_entries]
    exact (List.Perm.eq_nil records_fwdipv6Init.perm) ▸ List.nodup_nil
  seen e he hu := by
    rw [entries_fwdipv6Init_bss e he] at hu
    exact absurd rfl hu

/-- With no duplicates the addresses of the entries in use are as many as they are. -/
theorem OneRouteEach.routesCounted {tr : List (HostEvent × Option Rewritten)} {box : Box}
    (h : OneRouteEach tr box) : RoutesCounted tr box := by
  refine ⟨h.nodup, ?_⟩
  have hkeys := noDuplicateRoutes_iff_entries.mp h.nodup
  have hlen : ∀ e ∈ box.fwd.entries.filter FwdTabEntry.inUse, e.prefixLen = 128 ∧
      e.ipAddr ∈ addressesSeen tr := by
    intro e he
    obtain ⟨he, hu⟩ := List.mem_filter.mp he
    have hu' : e.ttl ≠ 0 := by simpa [FwdTabEntry.inUse] using hu
    exact ⟨((h.hostRoutes.host e he).resolve_left hu').1, h.seen e he hu'⟩
  have haddrs : ((box.fwd.entries.filter FwdTabEntry.inUse).map (·.ipAddr)).Nodup := by
    refine List.Nodup.map_on (fun a ha b hb hab => ?_) hkeys.of_map
    exact List.inj_on_of_nodup_map hkeys ha hb
      (Prod.ext hab ((hlen a ha).1.trans (hlen b hb).1.symm))
  rw [← box.fwd.entries_perm.countP_eq, List.countP_eq_length_filter,
    ← List.length_map (fun e => e.ipAddr), ← List.toFinset_card_of_nodup haddrs]
  refine Finset.card_le_card fun a ha => ?_
  obtain ⟨e, he, rfl⟩ := List.mem_map.mp (List.mem_toFinset.mp ha)
  exact (hlen e he).2

theorem OneRouteEach.step {cfg : Config} {tr : List (HostEvent × Option Rewritten)}
    {box box' : Box} {e : HostEvent} {o : Option Rewritten} (h : OneRouteEach tr box)
    (hs : hostStep cfg box e = .ok (o, box')) (hnew : InsertsNewRoute box e box') :
    OneRouteEach (tr ++ [(e, o)]) box' := by
  have hold : ∀ entry ∈ box.fwd.entries, entry.ttl ≠ 0 →
      entry.ipAddr ∈ addressesSeen (tr ++ [(e, o)]) := fun entry he hu =>
    mem_addressesSeen_append.mpr (Or.inl (h.seen entry he hu))
  have hadds := hostStep_addsRoute hs
  split at hadds
  · rename_i hyes
    obtain ⟨iface, hins⟩ := hadds
    refine ⟨?_, ?_, ?_⟩ <;> rw [hins]
    · exact h.hostRoutes.insert _ _
    · by_cases hfree : ∃ entry ∈ box.fwd.entries, entry.ttl = 0
      · exact (h.hostRoutes.noDuplicateRoutes_insert_iff h.nodup hfree _ _).mpr (hnew hyes hfree)
      · rw [insert_full fun entry he hz => hfree ⟨entry, he, hz⟩]
        exact h.nodup
    · intro entry he hu
      rcases mem_entries_insert he with hmem | rfl
      · exact hold entry hmem hu
      · exact mem_addressesSeen_append.mpr (Or.inr rfl)
  · exact ⟨hadds ▸ h.hostRoutes, hadds ▸ h.nodup, hadds ▸ hold⟩

theorem OneRouteEach.not_step {cfg : Config} {tr : List (HostEvent × Option Rewritten)}
    {box box' : Box} {e : HostEvent} {o : Option Rewritten} (h : OneRouteEach tr box)
    (hs : hostStep cfg box e = .ok (o, box')) (hnew : ¬ InsertsNewRoute box e box') :
    ¬ NoDuplicateRoutes box'.fwd := by
  simp only [InsertsNewRoute, Classical.not_imp] at hnew
  obtain ⟨hyes, hfree, hroute⟩ := hnew
  have hadds := hostStep_addsRoute hs
  rw [if_pos hyes] at hadds
  obtain ⟨iface, hins⟩ := hadds
  rw [hins, h.hostRoutes.noDuplicateRoutes_insert_iff h.nodup hfree]
  exact hroute

/-- A run has one entry for each route throughout exactly when every message that inserts
a route while an entry is free comes from a host without one. -/
theorem routesCounted_iff {cfg : Config} {tr : List (HostEvent × Option Rewritten)} {box : Box}
    (h : Run (hostStep cfg) Box.init tr box) :
    AllStates (hostStep cfg) Box.init RoutesCounted tr ↔
      AllSteps (hostStep cfg) Box.init InsertsNewRoute tr :=
  allStates_iff_allSteps oneRouteEach_init
    (fun _ _ _ _ _ hI hs hnew => hI.step hs hnew)
    (fun _ _ hI => hI.routesCounted)
    (fun _ _ _ _ _ hI hs hnew hP => hI.not_step hs hnew hP.1) h

/-- A solicitation with a link-layer address option. -/
def exampleSolicitation : NetPacket :=
  examplePacket exampleHost exampleServer
    ([0x87, 0, 0, 0, 0, 0, 0, 0] ++ exampleServer.toList ++
      [1, 1, 0xA1, 0xA1, 0xA1, 0xA1, 0xA1, 0xA1])

/-- The box once it has handled the solicitation. -/
def exampleSolicited : Box := (nsolicitHandler Box.init exampleSolicitation).1

theorem run_exampleSolicited :
    Run (hostStep exampleConfig) Box.init [(HostEvent.solicit exampleSolicitation, none)]
      exampleSolicited :=
  Run.next Run.start rfl

/-- The first solicitation of a host. -/
theorem routesCounted_first_solicitation :
    AllStates (hostStep exampleConfig) Box.init RoutesCounted
      [(HostEvent.solicit exampleSolicitation, none)] := by
  refine (routesCounted_iff run_exampleSolicited).mpr ?_
  refine AllSteps.next allSteps_nil Run.start rfl fun _ _ => ?_
  decide +kernel

/-- The same solicitation twice. -/
theorem routesCounted_fails_second_solicitation :
    ∃ tr box, Run (hostStep exampleConfig) Box.init tr box ∧ ¬ RoutesCounted tr box := by
  refine ⟨_, _, run_exampleSolicited.next (show hostStep exampleConfig exampleSolicited
    (.solicit exampleSolicitation) = .ok (none, _) from rfl), fun h => ?_⟩
  have hdup : ¬ NoDuplicateRoutes (nsolicitHandler exampleSolicited exampleSolicitation).1.fwd := by
    unfold NoDuplicateRoutes
    decide +kernel
  exact hdup h.1

end NatBox
