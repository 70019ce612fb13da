import NatBox.Forward.LongestPrefix
import NatBox.Lib.Runs
import NatBox.Nat.Rewrite
import NatBox.Neighbour.Solicit

/-
The way back to a host.

A translated reply is forwarded by the forwarding table alone, so it finds the host
only through the host routes that solicitations and `outPktRW` insert.  Neither looks
for an earlier route to the same address and a full table ignores the insertion, while
the search takes the oldest route: a sort never moves a route past another of the same
length.  `repliesTo_iff` is what must hold before an accepted packet for its reply to
go back by the interface it came from.
-/

namespace NatBox

open Runs

/-! ## Tables of host routes -/

/-- A route of full length to `s`. -/
def FwdTabEntry.routes (s : Ipv6Addr) (e : FwdTabEntry) : Bool :=
  e.ttl ≠ 0 && e.prefixLen = 128 && e.ipAddr = s

/-- The routes to `s` in the order a search meets them. -/
def routesTo (t : FwdTable) (s : Ipv6Addr) : List FwdTabEntry := t.entries.filter (·.routes s)

/-- Every entry is free or a route to a neighbour, which is its own next hop. -/
structure HostRoutes (t : FwdTable) : Prop where
  searchable : t.Searchable
  host : ∀ e ∈ t.entries, e.ttl = 0 ∨ e.prefixLen = 128 ∧ e.nextHop = e.ipAddr

theorem hostRoutes_init : HostRoutes (fwdipv6Init bssFwdTab) where
  searchable := searchable_fwdipv6Init
  host e he := by
    left
    rw [entries_fwdipv6Init_bss e he]

theorem HostRoutes.insert {t : FwdTable} (ht : HostRoutes t) (ip : Ipv6Addr) (iface : UInt8) :
    HostRoutes (insertNewFwdTabEntry t ip 128 ip iface).2 where
  searchable := ht.searchable.insertRoute ⟨ip, 128, ip, iface, by decide, by decide⟩
  host e he := by
    rcases mem_entries_insert he with hold | rfl
    · exact ht.host e hold
    · exact Or.inr ⟨rfl, rfl⟩

theorem routes_iff {s : Ipv6Addr} {e : FwdTabEntry} :
    e.routes s = true ↔ e.ttl ≠ 0 ∧ e.prefixLen = 128 ∧ e.ipAddr = s := by
  rw [FwdTabEntry.routes]
  simp [and_assoc]

/-- An entry in use whose address the search finds equal is a route. -/
theorem HostRoutes.routes_iff_matchBytes {t : FwdTable} (ht : HostRoutes t) {s : Ipv6Addr}
    {e : FwdTabEntry} (he : e ∈ t.entries) (hu : e.ttl ≠ 0) :
    e.routes s = true ↔ matchBytes s e.ipAddr (e.prefixLen.toNat / 8) = true := by
  obtain ⟨hlen, -⟩ := (ht.host e he).resolve_left hu
  have h16 : (128 : UInt8).toNat / 8 = 16 := rfl
  rw [routes_iff, hlen, h16, matchBytes_self_length]
  constructor
  · rintro ⟨-, -, rfl⟩
    rfl
  · rintro rfl
    exact ⟨hu, rfl, rfl⟩

/-- The reply to a packet from `s` goes to `s` through `interface`. -/
def RepliesTo (t : FwdTable) (s : Ipv6Addr) (interface : UInt8) : Prop :=
  ∃ i e, getNextHop t s = some i ∧ t.entries[i]? = some e ∧ e.nextHop = s ∧ e.iface = interface

/-- The search returns the first route. -/
theorem HostRoutes.head_of_getNextHop {t : FwdTable} (ht : HostRoutes t) {s : Ipv6Addr}
    {i : Nat} (h : getNextHop t s = some i) :
    ∃ e, t.entries[i]? = some e ∧ (routesTo t s).head? = some e := by
  obtain ⟨e, he, hu, hm, hfirst⟩ := getNextHop_some ht.searchable h
  obtain ⟨hi, hie⟩ := List.getElem?_eq_some_iff.mp he
  refine ⟨e, he, ?_⟩
  rw [routesTo, List.head?_filter, List.find?_eq_some_iff_getElem]
  refine ⟨(ht.routes_iff_matchBytes (List.mem_of_getElem? he) hu).mpr hm, i, hi, hie, ?_⟩
  intro j hj
  rw [Bool.not_eq_true']
  apply Bool.eq_false_iff.mpr
  intro hr
  have hu' := (routes_iff.mp hr).1
  have hj' : t.entries[j]? = some t.entries[j] := List.getElem?_eq_getElem _
  exact hfirst j _ hj hj'
    ((ht.routes_iff_matchBytes (List.mem_of_getElem? hj') hu').mp hr)

theorem HostRoutes.repliesTo_iff_head {t : FwdTable} (ht : HostRoutes t) {s : Ipv6Addr}
    {interface : UInt8} :
    RepliesTo t s interface ↔ ∃ e, (routesTo t s).head? = some e ∧ e.iface = interface := by
  constructor
  · rintro ⟨i, e, hi, he, -, hif⟩
    obtain ⟨e', he', hhead⟩ := ht.head_of_getNextHop hi
    obtain rfl : e' = e := Option.some.inj (he'.symm.trans he)
    exact ⟨e', hhead, hif⟩
  · rintro ⟨e, hhead, hif⟩
    have hmem : e ∈ routesTo t s := List.mem_of_head? hhead
    obtain ⟨hent, hr⟩ := List.mem_filter.mp hmem
    have hu := (routes_iff.mp hr).1
    rcases hs : getNextHop t s with _ | i
    · exact absurd ((ht.routes_iff_matchBytes hent hu).mp hr)
        (not_matchBytes_of_none ht.searchable hs hent hu)
    · obtain ⟨e', he', hhead'⟩ := ht.head_of_getNextHop hs
      obtain rfl : e' = e := Option.some.inj (hhead'.symm.trans hhead)
      obtain ⟨-, hnext⟩ := (ht.host e' hent).resolve_left hu
      exact ⟨i, e', hs, he', hnext.trans (routes_iff.mp hr).2.2, hif⟩

/-- A new route comes behind the old ones. -/
theorem HostRoutes.routesTo_insert {t : FwdTable} (ht : HostRoutes t)
    (hfree : ∃ e ∈ t.entries, e.ttl = 0) (ip : Ipv6Addr) (iface : UInt8) (s : Ipv6Addr) :
    routesTo (insertNewFwdTabEntry t ip 128 ip iface).2 s =
      routesTo t s ++ if ip = s then [newEntry ip 128 ip iface] else [] := by
  obtain ⟨index, hi, hz, -, -, hent⟩ := insert_free hfree ip 128 ip iface
  have hkey : ∀ a b : FwdTabEntry, a.routes s = true → b.routes s = true →
      a.prefixLen.toNat = b.prefixLen.toNat := by
    intro a b ha hb
    rw [(routes_iff.mp ha).2.1, (routes_iff.mp hb).2.1]
  have hzero : t.entries[index].routes s = false := by
    apply Bool.eq_false_iff.mpr
    intro hr
    exact (routes_iff.mp hr).1 hz
  -- Behind a free entry there are only free ones.
  have hbehind : (t.entries.drop (index + 1)).filter (·.routes s) = [] := by
    rw [List.filter_eq_nil_iff]
    intro e he hr
    obtain ⟨j, hj, rfl⟩ := List.getElem_of_mem he
    rw [List.length_drop] at hj
    rw [List.getElem_drop] at hr
    have hfree' := (ht.searchable.inUse _ (List.getElem_mem hi)).not.mp (by rw [hz]; simp)
    have hle := List.pairwise_iff_getElem.mp ht.searchable.sorted index (index + 1 + j) hi
      (by omega) (by omega)
    rw [(routes_iff.mp hr).2.1, not_not.mp hfree'] at hle
    exact absurd hle (by decide)
  have hnew : (newEntry ip 128 ip iface).routes s = decide (ip = s) := by
    apply Bool.eq_iff_iff.mpr
    rw [routes_iff, decide_eq_true_iff]
    exact ⟨fun h => h.2.2, fun h => ⟨newEntry_ttl_ne_zero _ _ _ _, rfl, h⟩⟩
  have hsplit : t.entries = t.entries.take index ++ t.entries[index] ::
      t.entries.drop (index + 1) := by
    rw [List.getElem_cons_drop, List.take_append_drop]
  have hold : routesTo t s = (t.entries.take index).filter (·.routes s) := by
    rw [routesTo, hsplit, List.filter_append, List.filter_cons, hzero, if_neg (by simp), hbehind,
      List.append_nil, ← hsplit]
  rw [routesTo, hent, BubbleSort.bubbleSort_filter _ hkey, hold,
    List.set_eq_take_append_cons_drop, if_pos hi, List.filter_append, List.filter_cons, hbehind,
    hnew]
  by_cases hs : ip = s
  · simp [hs]
  · simp [hs]

/-! ## Runs -/

inductive HostEvent
  | solicit (pkt : NetPacket)
  | out (interface : UInt8) (pkt : NetPacket)

/-- One call of `nsolicit_handler` or `outPktRW`. -/
def hostStep (cfg : Config) (box : Box) : HostEvent → Except Fault (Option Rewritten × Box)
  | .solicit pkt => .ok (none, (nsolicitHandler box pkt).1)
  | .out interface pkt =>
    match outPktRW cfg box interface pkt with
    | .error f => .error f
    | .ok (r, box) => .ok (some r, box)

theorem hostStep_out {cfg : Config} {box box' : Box} {interface : UInt8} {pkt : NetPacket}
    {o : Option Rewritten} (h : hostStep cfg box (.out interface pkt) = .ok (o, box')) :
    ∃ r, o = some r ∧ outPktRW cfg box interface pkt = .ok (r, box') := by
  rw [hostStep] at h
  rcases hout : outPktRW cfg box interface pkt with f | ⟨r, box₁⟩
  · simp [hout] at h
  · simp only [hout, Except.ok.injEq, Prod.mk.injEq] at h
    obtain ⟨rfl, rfl⟩ := h
    exact ⟨r, rfl, rfl⟩

/-- A step leaves the forwarding table alone or inserts one host route. -/
theorem hostStep_fwd {cfg : Config} {box box' : Box} {e : HostEvent} {o : Option Rewritten}
    (h : hostStep cfg box e = .ok (o, box')) :
    box'.fwd = box.fwd ∨
    ∃ ip iface, box'.fwd = (insertNewFwdTabEntry box.fwd ip 128 ip iface).2 := by
  cases e with
  | solicit pkt =>
    rw [hostStep, Except.ok.injEq, Prod.mk.injEq] at h
    obtain ⟨-, rfl⟩ := h
    cases nsolicitHandler_fwd box pkt with
    | inl hkeep => exact Or.inl hkeep
    | inr hins => exact Or.inr ⟨_, hins⟩
  | out interface pkt =>
    obtain ⟨r, -, hout⟩ := hostStep_out h
    rcases outPktRW_cases cfg hout with ⟨-, rfl, -⟩ | ⟨k, hk, ck, -, -, -, rfl⟩
    · exact Or.inl rfl
    · exact Or.inr ⟨_, _, rfl⟩

section

variable {cfg : Config} {box box' : Box} {tr : List (HostEvent × Option Rewritten)}

theorem HostRoutes.run (ht : HostRoutes box.fwd) (h : Run (hostStep cfg) box tr box') :
    HostRoutes box'.fwd := by
  refine h.invariant (I := fun _ b => HostRoutes b.fwd) ht ?_
  intro _ b e o b' hI hs
  rcases hostStep_fwd hs with hkeep | ⟨ip, iface, hins⟩
  · rw [hkeep]
    exact hI
  · rw [hins]
    exact hI.insert ip iface

/-- Once there is a route to `s`, the first one stays. -/
theorem HostRoutes.head_run (ht : HostRoutes box.fwd) (h : Run (hostStep cfg) box tr box')
    {s : Ipv6Addr} {e : FwdTabEntry} (he : (routesTo box.fwd s).head? = some e) :
    (routesTo box'.fwd s).head? = some e := by
  have hI : HostRoutes box'.fwd ∧ (routesTo box'.fwd s).head? = some e := by
    refine h.invariant (I := fun _ b => HostRoutes b.fwd ∧ (routesTo b.fwd s).head? = some e)
      ⟨ht, he⟩ ?_
    rintro _ b ev o b' ⟨hb, hhead⟩ hs
    rcases hostStep_fwd hs with hkeep | ⟨ip, iface, hins⟩
    · rw [hkeep]
      exact ⟨hb, hhead⟩
    · rw [hins]
      refine ⟨hb.insert ip iface, ?_⟩
      by_cases hfree : ∃ e ∈ b.fwd.entries, e.ttl = 0
      · rw [hb.routesTo_insert hfree, List.head?_append, hhead]
        rfl
      · rw [insert_full fun e he hz => hfree ⟨e, he, hz⟩]
        exact hhead
  exact hI.2

/-- A full table stays as it is. -/
theorem fwd_run_of_full (hfull : ∀ e ∈ box.fwd.entries, e.ttl ≠ 0)
    (h : Run (hostStep cfg) box tr box') : box'.fwd = box.fwd := by
  refine h.invariant (I := fun _ b => b.fwd = box.fwd) rfl ?_
  intro _ b e o b' hI hs
  rcases hostStep_fwd hs with hkeep | ⟨ip, iface, hins⟩
  · rw [hkeep, hI]
  · rw [hins, hI, insert_full hfull]

end

/-- Replies to an accepted packet go back to its source by the interface it came from,
then and later, exactly when the first route to the source already had that interface,
or there was no route and still a free entry. -/
theorem repliesTo_iff {cfg : Config} {tr tr' : List (HostEvent × Option Rewritten)}
    {box box' box'' : Box} (hrun : Run (hostStep cfg) Box.init tr box) {interface : UInt8}
    {pkt : NetPacket} {r : Rewritten} (hout : outPktRW cfg box interface pkt = .ok (r, box'))
    (hret : r.ret = 0) (hlater : Run (hostStep cfg) box' tr' box'') :
    RepliesTo box''.fwd pkt.ip.src interface ↔
      (∃ e, (routesTo box.fwd pkt.ip.src).head? = some e ∧ e.iface = interface) ∨
      routesTo box.fwd pkt.ip.src = [] ∧ ∃ e ∈ box.fwd.entries, e.ttl = 0 := by
  have ht : HostRoutes box.fwd := hostRoutes_init.run hrun
  have hfwd : box'.fwd =
      (insertNewFwdTabEntry box.fwd pkt.ip.src 128 pkt.ip.src interface).2 := by
    rcases outPktRW_cases cfg hout with ⟨rfl, -⟩ | ⟨k, hk, ck, -, -, -, rfl⟩
    · cases hret
    · rfl
  have ht' : HostRoutes box'.fwd := by
    rw [hfwd]
    exact ht.insert _ _
  have ht'' : HostRoutes box''.fwd := ht'.run hlater
  rw [ht''.repliesTo_iff_head]
  by_cases hfree : ∃ e ∈ box.fwd.entries, e.ttl = 0
  · have hins := ht.routesTo_insert hfree pkt.ip.src interface pkt.ip.src
    rw [if_pos rfl, ← hfwd] at hins
    cases hroutes : routesTo box.fwd pkt.ip.src with
    | nil =>
      rw [hroutes, List.nil_append] at hins
      have hhead := ht'.head_run hlater (congrArg List.head? hins)
      rw [hhead]
      constructor
      · exact fun _ => Or.inr ⟨rfl, hfree⟩
      · exact fun _ => ⟨_, rfl, rfl⟩
    | cons e es =>
      rw [hroutes] at hins
      have hhead := ht'.head_run hlater (congrArg List.head? hins)
      rw [hhead]
      constructor
      · exact fun h => Or.inl h
      · rintro (h | ⟨hnil, -⟩)
        · exact h
        · cases hnil
  · have hfull : ∀ e ∈ box.fwd.entries, e.ttl ≠ 0 := fun e he hz => hfree ⟨e, he, hz⟩
    rw [insert_full hfull] at hfwd
    have hfull' : ∀ e ∈ box'.fwd.entries, e.ttl ≠ 0 := by
      rw [hfwd]
      exact hfull
    rw [fwd_run_of_full hfull' hlater, hfwd]
    constructor
    · exact fun h => Or.inl h
    · rintro (h | ⟨-, h⟩)
      · exact h
      · exact absurd h hfree

/-- The first packet of a host nothing was heard of. -/
theorem repliesTo_first_packet :
    ∃ r box', outPktRW exampleConfig Box.init 1 (examplePacket exampleHost exampleServer
        [0x80, 0, 0, 0, 0, 7, 0, 1]) = .ok (r, box') ∧ RepliesTo box'.fwd exampleHost 1 := by
  obtain ⟨ck, -, hok⟩ := @outPktRW_ok exampleConfig Box.init 1
    (examplePacket exampleHost exampleServer [0x80, 0, 0, 0, 0, 7, 0, 1]) 0 (by decide) rfl
  refine ⟨_, _, hok, ?_⟩
  apply (repliesTo_iff Run.start hok rfl Run.start).mpr
  right
  decide +kernel

/-- A host that moved from interface 2 to interface 1: its replies still go to
interface 2. -/
theorem repliesTo_fails_moved_host :
    ∃ r box r' box',
      hostStep exampleConfig Box.init (.out 2 (examplePacket exampleHost exampleServer
        [0x80, 0, 0, 0, 0, 7, 0, 1])) = .ok (r, box) ∧
      outPktRW exampleConfig box 1 (examplePacket exampleHost exampleServer
        [0x80, 0, 0, 0, 0, 7, 0, 2]) = .ok (r', box') ∧ r'.ret = 0 ∧
      ¬ RepliesTo box'.fwd exampleHost 1 := by
  obtain ⟨ck, -, hok⟩ := @outPktRW_ok exampleConfig Box.init 2
    (examplePacket exampleHost exampleServer [0x80, 0, 0, 0, 0, 7, 0, 1]) 0 (by decide) rfl
  obtain ⟨ck', -, hok'⟩ := @outPktRW_ok exampleConfig (outBox 2 (examplePacket exampleHost
    exampleServer [0x80, 0, 0, 0, 0, 7, 0, 1]) Box.init (Nat.succ_pos 29)) 1
    (examplePacket exampleHost exampleServer [0x80, 0, 0, 0, 0, 7, 0, 2]) 1 (by decide) rfl
  refine ⟨some _, _, _, _, by rw [hostStep, hok], hok', rfl, ?_⟩
  have ht : HostRoutes (insertNewFwdTabEntry (insertNewFwdTabEntry (fwdipv6Init bssFwdTab)
      exampleHost 128 exampleHost 2).2 exampleHost 128 exampleHost 1).2 :=
    (hostRoutes_init.insert exampleHost 2).insert exampleHost 1
  intro hr
  obtain ⟨e, he, hif⟩ := ht.repliesTo_iff_head.mp hr
  have hfirst : (routesTo (insertNewFwdTabEntry (insertNewFwdTabEntry (fwdipv6Init bssFwdTab)
      exampleHost 128 exampleHost 2).2 exampleHost 128 exampleHost 1).2 exampleHost).head? =
      some (newEntry exampleHost 128 exampleHost 2) := by
    decide +kernel
  obtain rfl := Option.some.inj (hfirst.symm.trans he)
  exact absurd hif (by decide)

end NatBox
