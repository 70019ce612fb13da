import Mathlib.Data.Fintype.Option
import NatBox.Neighbour.Link

/-
Runs of a link.

`LinkHolds` is what a link keeps whose nodes speak for themselves: every message names its
sender in an option, and so do the caches.  On an outer link there is more, `LinkDirect`, and it
is what makes the nodes speak for themselves there.
-/

namespace NatBox

open Runs

variable {ι : Type}

/-! ## The invariant -/

section Step

variable {nodes : ι → Node} {heap : Mem} {box' : Box} {pkt : NetPacket} {pkts : List NetPacket}
  {link link' : Link ι} {e : LinkEvent ι}

/-- What the cache has for an address is right. -/
def CacheTold (nodes : ι → Node) (nd : NDCache) : Prop :=
  ∀ k, (nd.get k).ipAddr = unspecified ∨ Told nodes (nd.get k).ipAddr (nd.get k).macAddr

/-- Every message names its sender in an option. -/
structure LinkHolds (nodes : ι → Node) (link : Link ι) : Prop where
  told : ∀ pkt ∈ link.sent, Told nodes pkt.ip.src (macAt pkt.body 26)
  option : ∀ pkt ∈ link.sent, pkt.body 24 = 1
  caches : ∀ i, CacheTold nodes (link.boxes i).nd

theorem LinkHolds.sound (h : LinkHolds nodes link) : LinkSound nodes link where
  sent := h.told
  caches i a k hne hlookup := by
    rcases h.caches i k with hnone | htold
    · exact absurd ((lookupNDEntry_some hlookup).symm.trans hnone) hne
    · rwa [lookupNDEntry_some hlookup] at htold

theorem Node.Says.told {i : ι} {s : NeighbourSend} (h : (nodes i).Says s pkt)
    (howns : (nodes i).cfg.Owns s.ipSrc) : Told nodes pkt.ip.src (macAt pkt.body 26) :=
  ⟨i, h.src ▸ howns, h.mac⟩

/-- A copy has the options of the message. -/
theorem Copied.mac {frame : NetPacket} (h : Copied pkt frame) :
    frame.body 24 = pkt.body 24 ∧ macAt frame.body 26 = macAt pkt.body 26 :=
  ⟨h 24 (by omega), macAt_congr fun i _ => h (26 + i) (by omega)⟩

theorem Copied.target {frame : NetPacket} (h : Copied pkt frame) :
    addrAt frame.body 8 = addrAt pkt.body 8 :=
  addrAt_congr fun i _ => h (8 + i) (by omega)

/-- More messages. -/
theorem LinkHolds.append (h : LinkHolds nodes link)
    (hpkts : ∀ p ∈ pkts, Told nodes p.ip.src (macAt p.body 26) ∧ p.body 24 = 1) :
    LinkHolds nodes ⟨link.boxes, link.sent ++ pkts⟩ := by
  refine ⟨fun p hp => ?_, fun p hp => ?_, h.caches⟩ <;>
    rcases List.mem_append.mp hp with hp | hp
  · exact h.told p hp
  · exact (hpkts p hp).1
  · exact h.option p hp
  · exact (hpkts p hp).2

/-- A node that speaks for itself says nothing wrong. -/
theorem LinkHolds.tells (h : LinkHolds nodes link) {i : ι} {iface : Int16}
    (hpkt : pkt ∈ link.sent)
    (hown : (nodes i).SpeaksForItself heap (link.boxes i) { pkt with netIface := iface })
    (hreceive : (nodes i).receive heap (link.boxes i) { pkt with netIface := iface } =
      .ok (pkts, box')) :
    ∀ p ∈ pkts, Told nodes p.ip.src (macAt p.body 26) ∧ p.body 24 = 1 := by
  rcases Node.receive_cases hreceive with
    ⟨-, -, rfl, -⟩ | ⟨htakes, -, -, box₁, hbox₁, hsaid⟩ | ⟨-, -, frame, rfl, hforwards⟩
  · nofun
  · intro p hp
    obtain ⟨s, hs, hmade⟩ := forall₂_exists hsaid.flip hp
    refine ⟨hmade.told ?_, hmade.option⟩
    rcases ((nsolicitHandler_sends box₁ _).1 s hs).2.1 with hsrc | ⟨hnew, hsrc⟩
    · exact hsrc ▸ hown.answers htakes
    · exact hsrc ▸ hown.asks htakes (hbox₁ ▸ hnew)
  · intro p hp
    obtain rfl := List.mem_singleton.mp hp
    obtain ⟨hone, hmac⟩ := hforwards.copied.mac
    refine ⟨?_, hone.trans (h.option pkt hpkt)⟩
    rw [hmac]
    rcases hforwards.ip with ⟨-, -, hip⟩ | ⟨-, -, hsrc, -⟩ | ⟨htrans, hsrc⟩
    · exact hip ▸ h.told pkt hpkt
    · exact hsrc ▸ h.told pkt hpkt
    · rw [hsrc]
      exact ⟨i, .inl rfl, hown.translates htrans⟩

variable [DecidableEq ι]

theorem linkStep_cases (h : linkStep nodes link e = .ok (pkts, link')) :
    (∃ i linkLocal macDest dest pkt ipSrc, e = .solicit i linkLocal macDest dest ∧
      (nodes i).cfg.Owns ipSrc ∧ pkts = [pkt] ∧ link' = ⟨link.boxes, link.sent ++ [pkt]⟩ ∧
      (nodes i).Says (.nsol ipSrc macDest dest dest (UInt8.ofInt (nodes i).cfg.ifprime)) pkt) ∨
    (∃ k i iface heap, e = .deliver k i iface heap ∧ link.sent[k]? = none ∧ link' = link) ∨
    ∃ k i iface heap pkt box, e = .deliver k i iface heap ∧ link.sent[k]? = some pkt ∧
      (nodes i).receive heap (link.boxes i) { pkt with netIface := iface } = .ok (pkts, box) ∧
      link' = ⟨Function.update link.boxes i box, link.sent ++ pkts⟩ := by
  cases e with
  | solicit i linkLocal macDest dest =>
    rw [linkStep] at h
    split at h
    · cases h
    · next pkt hsend =>
      obtain ⟨rfl, rfl⟩ := Prod.mk.inj (Except.ok.inj h)
      refine .inl ⟨i, linkLocal, macDest, dest, pkt, _, rfl, ?_, rfl, rfl,
        Node.says_of_transmit hsend⟩
      split
      · exact .inr (.inl rfl)
      · exact .inl rfl
  | deliver k i iface heap =>
    rw [linkStep] at h
    split at h
    · next hnone =>
      obtain ⟨rfl, rfl⟩ := Prod.mk.inj (Except.ok.inj h)
      exact .inr (.inl ⟨k, i, iface, heap, rfl, hnone, rfl⟩)
    · next pkt hsome =>
      split at h
      · cases h
      · next box hreceive =>
        obtain ⟨rfl, rfl⟩ := Prod.mk.inj (Except.ok.inj h)
        exact .inr (.inr ⟨k, i, iface, heap, pkt, box, rfl, hsome, hreceive, rfl⟩)

/-- A node learns from a message on the link. -/
theorem LinkHolds.learns (h : LinkHolds nodes link) {i : ι} (hpkt : pkt ∈ link.sent)
    {iface : Int16} (hnd : box'.nd = (link.boxes i).nd ∨
      ∃ k, UsesEntry (link.boxes i).nd box'.nd k { pkt with netIface := iface }) :
    LinkHolds nodes ⟨Function.update link.boxes i box', link.sent⟩ := by
  refine ⟨h.told, h.option, fun j => ?_⟩
  show CacheTold nodes (Function.update link.boxes i box' j).nd
  by_cases hj : j = i
  · subst hj
    rw [Function.update_self]
    rcases hnd with hsame | ⟨k', huses⟩
    · exact hsame ▸ h.caches j
    · intro k
      by_cases hk : k = k'
      · subst hk
        right
        rw [huses.ipAddr, huses.macAddr, if_pos (h.option pkt hpkt)]
        exact h.told pkt hpkt
      · rw [huses.others k hk]
        exact h.caches j k
  · rw [Function.update_of_ne hj]
    exact h.caches j

theorem LinkHolds.step (h : LinkHolds nodes link) (hs : linkStep nodes link e = .ok (pkts, link'))
    (hown : SpeakForThemselves nodes link e) : LinkHolds nodes link' := by
  rcases linkStep_cases hs with
    ⟨i, linkLocal, macDest, dest, pkt, ipSrc, rfl, howns, rfl, rfl, hsaid⟩ |
    ⟨k, i, iface, heap, rfl, -, rfl⟩ |
      ⟨k, i, iface, heap, pkt, box, rfl, hpkt, hreceive, rfl⟩
  · refine h.append fun p hp => ?_
    obtain rfl := List.mem_singleton.mp hp
    exact ⟨hsaid.told howns, hsaid.option⟩
  · exact h
  · have hmem := List.mem_of_getElem? hpkt
    have htells := h.tells hmem (hown pkt hpkt) hreceive
    exact (h.learns hmem (Node.receive_nd hreceive)).append htells

/-- What is wrong then: the message of a node that does not speak for itself. -/
theorem LinkHolds.not_sound (h : LinkHolds nodes link)
    (hmac : Function.Injective fun i => (nodes i).cfg.primaryMac)
    (haddr : ∀ i j, (nodes j).cfg.Owns (nodes i).cfg.ipv6Addr → j = i)
    (hs : linkStep nodes link e = .ok (pkts, link')) (hbad : ¬ SpeakForThemselves nodes link e) :
    ¬ LinkSound nodes link' := by
  rcases linkStep_cases hs with
    ⟨i, linkLocal, macDest, dest, pkt, ipSrc, rfl, -⟩ | ⟨k, i, iface, heap, rfl, hnone, -⟩ |
      ⟨k, i, iface, heap, pkt, box, rfl, hpkt, hreceive, rfl⟩
  · exact absurd trivial hbad
  · exact absurd (fun pkt hpkt => by rw [hnone] at hpkt; cases hpkt) hbad
  · intro hsound
    refine hbad fun pkt' hpkt' => ?_
    obtain rfl := Option.some.inj (hpkt.symm.trans hpkt')
    have hmem := List.mem_of_getElem? hpkt
    -- what a node says about an address is right if the node has it
    have howns : ∀ {s : NeighbourSend}, ∀ p ∈ pkts, (nodes i).Says s p →
        (nodes i).cfg.Owns s.ipSrc := fun p hp hmade => by
      obtain ⟨j, howns, hmacj⟩ := hsound.sent p (List.mem_append_right _ hp)
      obtain rfl : i = j := hmac (hmade.mac.symm.trans hmacj)
      exact hmade.src ▸ howns
    rcases Node.receive_cases hreceive with
      ⟨hnot, hkeeps, -⟩ | ⟨htakes, hkeeps, -, box₁, hbox₁, hsaid⟩ | ⟨hnot, -, frame, rfl, hforwards⟩
    · exact ⟨fun h => absurd h hnot, fun h => absurd h hnot, fun h => absurd h hkeeps⟩
    · obtain ⟨⟨s, hsend, hsrc⟩, hasks⟩ :=
        (nsolicitHandler_sends box₁ { pkt with netIface := iface }).2
          (hbox₁ ▸ htakes.entry) (h.option pkt hmem)
      refine ⟨fun _ => ?_, fun _ hnew => ?_, fun h => absurd h hkeeps⟩
      · obtain ⟨p, hp, hmade⟩ := forall₂_exists hsaid hsend
        exact hsrc ▸ howns p hp hmade
      · obtain ⟨s', hsend', hsrc'⟩ := hasks (hbox₁ ▸ hnew)
        obtain ⟨p, hp, hmade⟩ := forall₂_exists hsaid hsend'
        exact hsrc' ▸ howns p hp hmade
    · refine ⟨fun h => absurd h hnot, fun h => absurd h hnot, fun htrans => ?_⟩
      obtain ⟨j, howns, hmacj⟩ := hsound.sent frame (List.mem_append_right _ (by simp))
      rcases hforwards.ip with ⟨hkeeps, -⟩ | ⟨hkeeps, -⟩ | ⟨-, hsrc⟩
      · exact absurd htrans hkeeps
      · exact absurd htrans hkeeps
      · rw [hsrc] at howns
        obtain rfl := haddr i j howns
        rw [← hmacj, hforwards.copied.mac.2]

end Step

/-! ## The outer link -/

section Outer

variable {nodes : ι → Node} {pkt : NetPacket} {pkts : List NetPacket} {link link' : Link ι}
  {e : LinkEvent ι}

/-- Solicitations are sent to their targets, and no box has translated anything. -/
structure LinkDirect (nodes : ι → Node) (link : Link ι) : Prop where
  holds : LinkHolds nodes link
  target : ∀ pkt ∈ link.sent, pkt.msgType = neighbS → addrAt pkt.body 8 = pkt.ip.dest
  natTab : ∀ i, (nodes i).cfg.host = false → (link.boxes i).nat.natTab = natTabInit.natTab

/-- A message that names its sender does not match an empty NAT table. -/
theorem LinkDirect.unmatched (h : LinkDirect nodes link)
    (hunspecified : ∀ i, ¬ (nodes i).cfg.Owns unspecified) (hpkt : pkt ∈ link.sent) {i : ι}
    (hhost : (nodes i).cfg.host = false) {id : UInt16} {entry : NatEntry}
    (hentry : entry ∈ (link.boxes i).nat.natTab.toList) :
    entry.matchesReply pkt.ip.src id = false := by
  rw [h.natTab i hhost] at hentry
  obtain ⟨-, rfl⟩ := List.mem_replicate.mp (Vector.toList_replicate ▸ hentry)
  rw [Bool.eq_false_iff, ne_eq, matchesReply_iff]
  rintro ⟨-, hsrc⟩
  obtain ⟨j, howns, -⟩ := h.holds.told pkt hpkt
  rw [← hsrc] at howns
  exact hunspecified j howns

/-- On its outer interface a box translates nothing. -/
theorem not_recordsNat {node : Node} {box : Box} {iface : Int16}
    (houter : node.cfg.host = true ∨ iface.toInt = node.cfg.ifprime) :
    recordsNat node.cfg box { pkt with netIface := iface } = false := by
  rcases houter with hhost | hiface
  · simp [recordsNat, hhost]
  · simp [recordsNat, hiface]

theorem Node.Translates.false {node : Node} {box : Box} (h : node.Translates box pkt)
    (hnot : recordsNat node.cfg box pkt = false) : False :=
  Bool.noConfusion (hnot.symm.trans h.records)

section Delivery

variable {i : ι} {iface : Int16} {heap : Mem}

theorem LinkDirect.speaks (h : LinkDirect nodes link)
    (haddr : ∀ i, (nodes i).cfg.hasIPv6Addr = true) (hpkt : pkt ∈ link.sent)
    (hnot : recordsNat (nodes i).cfg (link.boxes i) { pkt with netIface := iface } = false) :
    (nodes i).SpeaksForItself heap (link.boxes i) { pkt with netIface := iface } := by
  have hdest : (nodes i).Takes heap (link.boxes i) { pkt with netIface := iface } →
      (nodes i).cfg.Owns pkt.ip.dest := fun htakes => by
    obtain ⟨box', hreached⟩ := htakes.reached
    exact (ipv6In_icmpv6 hreached).2 (haddr i)
  exact ⟨fun htakes => h.target pkt hpkt htakes.type ▸ hdest htakes, fun htakes _ => hdest htakes,
    fun htrans => (htrans.false hnot).elim⟩

/-- What a node sends is sent to its target, or is what another node has sent. -/
theorem LinkDirect.sends (h : LinkDirect nodes link)
    (hunspecified : ∀ i, ¬ (nodes i).cfg.Owns unspecified) (hpkt : pkt ∈ link.sent)
    (hnot : recordsNat (nodes i).cfg (link.boxes i) { pkt with netIface := iface } = false)
    {box' : Box} (hreceive : (nodes i).receive heap (link.boxes i) { pkt with netIface := iface } =
      .ok (pkts, box')) :
    ∀ p ∈ pkts, p.msgType = neighbS → addrAt p.body 8 = p.ip.dest := by
  intro p hp htype
  rcases Node.receive_cases hreceive with
    ⟨-, -, rfl, -⟩ | ⟨-, -, -, box₁, -, hsaid⟩ | ⟨-, -, frame, rfl, hforwards⟩
  · cases hp
  · obtain ⟨s, hsend, hmade⟩ := forall₂_exists hsaid.flip hp
    rw [hmade.target, hmade.dest,
      ((nsolicitHandler_sends box₁ _).1 s hsend).2.2 (hmade.type ▸ htype)]
  · obtain rfl := List.mem_singleton.mp hp
    rcases hforwards.ip with ⟨-, -, hip⟩ | ⟨-, hhost, -, entry, hentry, hmatches⟩ | ⟨htrans, -⟩
    · rw [hforwards.copied.target, hip]
      exact h.target pkt hpkt ((hforwards.copied 0 (by omega)).symm.trans htype)
    · rw [h.unmatched hunspecified hpkt hhost hentry] at hmatches
      cases hmatches
    · exact (htrans.false hnot).elim

end Delivery

theorem LinkDirect.step [DecidableEq ι] (h : LinkDirect nodes link)
    (haddr : ∀ i, (nodes i).cfg.hasIPv6Addr = true)
    (hunspecified : ∀ i, ¬ (nodes i).cfg.Owns unspecified)
    (hs : linkStep nodes link e = .ok (pkts, link')) (houter : OuterLink nodes e) :
    LinkDirect nodes link' := by
  rcases linkStep_cases hs with
    ⟨i, linkLocal, macDest, dest, pkt, ipSrc, rfl, howns, rfl, rfl, hsaid⟩ |
    ⟨k, i, iface, heap, rfl, -, rfl⟩ |
      ⟨k, i, iface, heap, pkt, box, rfl, hpkt, hreceive, rfl⟩
  · refine ⟨h.holds.step hs trivial, fun p hp htype => ?_, h.natTab⟩
    rcases List.mem_append.mp hp with hp | hp
    · exact h.target p hp htype
    · obtain rfl := List.mem_singleton.mp hp
      exact hsaid.target.trans hsaid.dest.symm
  · exact h
  · have hmem := List.mem_of_getElem? hpkt
    have hnot : recordsNat (nodes i).cfg (link.boxes i) { pkt with netIface := iface } = false :=
      not_recordsNat houter
    refine ⟨h.holds.step hs fun pkt' hpkt' => ?_, fun p hp htype => ?_, fun j hhost => ?_⟩
    · obtain rfl := Option.some.inj (hpkt.symm.trans hpkt')
      exact h.speaks haddr hmem hnot
    · rcases List.mem_append.mp hp with hp | hp
      · exact h.target p hp htype
      · exact h.sends hunspecified hmem hnot hreceive p hp htype
    · show (Function.update link.boxes i box j).nat.natTab = _
      by_cases hj : j = i
      · subst hj
        rw [Function.update_self, Node.receive_natTab hreceive hnot, h.natTab j hhost]
      · rw [Function.update_of_ne hj, h.natTab j hhost]

end Outer

/-! ## Runs -/

section Runs

variable {nodes : ι → Node} {boxes : ι → Box} {link : Link ι}
  {tr : List (LinkEvent ι × List NetPacket)}

theorem linkHolds_start (hboxes : ∀ i, (boxes i).nd = ndCacheInit) :
    LinkHolds nodes ⟨boxes, []⟩ where
  told := nofun
  option := nofun
  caches i k := by
    left
    show ((boxes i).nd.get k).ipAddr = unspecified
    rw [hboxes i, get_ndCacheInit]

variable [DecidableEq ι]

/-- Among nodes with different link-layer addresses and global addresses of their own, messages
and caches are right in every state of a run exactly as long as every node speaks for itself. -/
theorem link_sound_iff (hmac : Function.Injective fun i => (nodes i).cfg.primaryMac)
    (haddr : ∀ i j, (nodes j).cfg.Owns (nodes i).cfg.ipv6Addr → j = i)
    (hboxes : ∀ i, (boxes i).nd = ndCacheInit) (h : Run (linkStep nodes) ⟨boxes, []⟩ tr link) :
    AllStates (linkStep nodes) ⟨boxes, []⟩ (fun _ link => LinkSound nodes link) tr ↔
      AllSteps (linkStep nodes) ⟨boxes, []⟩ (fun link e _ => SpeakForThemselves nodes link e) tr :=
  allStates_iff_allSteps (I := fun _ link => LinkHolds nodes link) (linkHolds_start hboxes)
    (fun _ _ _ _ _ hholds hs hown => hholds.step hs hown) (fun _ _ hholds => hholds.sound)
    (fun _ _ _ _ _ hholds hs hbad => hholds.not_sound hmac haddr hs hbad) h

end Runs

/-! ## Three nodes -/

def exampleSecondHost : Ipv6Addr :=
  #v[0x20, 0x02, 0, 0, 0, 0, 0, 0, 0, 0, 0, 0, 0, 0, 0, 0xC1]

/-- The box and two hosts, which have addresses of other networks. -/
def exampleNodes : Option Bool → Node
  | none => ⟨exampleConfig, 1500, Vector.replicate _ 0, Vector.replicate _ 0⟩
  | some second =>
    let number : UInt8 := if second then 0xC0 else 0xA0
    { cfg :=
        { exampleConfig with
          host := true
          ipv6Addr := if second then exampleSecondHost else exampleHost
          linkLocal := #v[0xFE, 0x80, 0, 0, 0, 0, 0, 0, 0, 0, 0, 0, 0, 0, 0, number + 1]
          ifMacucast := fun i => Vector.replicate 6 (number + UInt8.ofNat i) }
      ra := ⟨1500, Vector.replicate _ 0, Vector.replicate _ 0⟩ }

def exampleAsks (i : Option Bool) (dest : Ipv6Addr) : LinkEvent (Option Bool) :=
  .solicit i false (Vector.replicate 6 0x33) dest

/-- The box asks for both hosts, and hears what the first one asks back.  The answer of the first
one only gets to the second, which sends it on. -/
def exampleTalk : List (LinkEvent (Option Bool)) :=
  [exampleAsks none exampleHost, .deliver 0 (some false) 0 fun _ => 0,
    exampleAsks none exampleSecondHost, .deliver 3 (some true) 0 fun _ => 0,
    .deliver 2 none 0 fun _ => 0, .deliver 1 (some true) 0 fun _ => 0,
    .deliver 8 none 0 fun _ => 0]

def exampleLinkCheck (_ : List (List NetPacket)) (link : Link (Option Bool)) : Bool :=
  link.sent.length = 9 ∧
    lookupNDEntry (link.boxes none).nd exampleHost = some ⟨0, Nat.succ_pos _⟩ ∧
    lookupNDEntry (link.boxes (some false)).nd exampleConfig.ipv6Addr = some ⟨0, Nat.succ_pos _⟩

/-- Solicitations reach the nodes whose addresses are asked for, and nothing is translated. -/
def exampleOwnCheck (link : Link (Option Bool)) : LinkEvent (Option Bool) → Bool
  | .solicit .. => true
  | .deliver k i iface _ => (link.sent[k]?).all fun pkt =>
    (pkt.msgType ≠ neighbS ∨ (exampleNodes i).cfg.Owns (addrAt pkt.body 8) ∧
      (exampleNodes i).cfg.Owns pkt.ip.dest) &&
    !recordsNat (exampleNodes i).cfg (link.boxes i) { pkt with netIface := iface }

theorem link_sound_iff_talk : ∃ tr link,
    Run (linkStep exampleNodes) ⟨fun _ => Box.init, []⟩ tr link ∧ tr.map Prod.fst = exampleTalk ∧
    link.sent.length = 9 ∧ AllStates (linkStep exampleNodes) ⟨fun _ => Box.init, []⟩
      (fun _ link => LinkSound exampleNodes link) tr := by
  have hends : endsIn (linkStep exampleNodes) ⟨fun _ => Box.init, []⟩ exampleTalk
      exampleLinkCheck = true := by decide +kernel
  obtain ⟨os, link, hrun, hevents, hcheck⟩ := run_of_endsIn hends
  have hmac : ∀ i j, (exampleNodes i).cfg.primaryMac = (exampleNodes j).cfg.primaryMac → i = j := by
    decide +kernel
  have haddr : ∀ i j, (exampleNodes j).cfg.Owns (exampleNodes i).cfg.ipv6Addr → j = i := by
    decide +kernel
  have hpass : stepsPass (linkStep exampleNodes) exampleOwnCheck ⟨fun _ => Box.init, []⟩
      ((exampleTalk.zip os).map Prod.fst) = true := by
    rw [hevents]
    decide +kernel
  refine ⟨_, link, hrun, hevents, (of_decide_eq_true hcheck).1,
    (link_sound_iff hmac haddr (fun _ => rfl) hrun).mpr
      (allSteps_of_stepsPass hpass fun link e hcheck => ?_)⟩
  cases e with
  | solicit => trivial
  | deliver k i iface heap =>
    intro pkt hpkt
    rw [exampleOwnCheck, Option.mem_def.mp hpkt, Option.all_some, Bool.and_eq_true,
      decide_eq_true_iff, Bool.not_eq_true'] at hcheck
    obtain ⟨howns, hnot⟩ := hcheck
    have hboth : (exampleNodes i).Takes heap (link.boxes i) { pkt with netIface := iface } →
        (exampleNodes i).cfg.Owns (addrAt pkt.body 8) ∧ (exampleNodes i).cfg.Owns pkt.ip.dest :=
      fun htakes => howns.resolve_left (not_not_intro htakes.type)
    refine ⟨fun htakes => (hboth htakes).1, fun htakes _ => (hboth htakes).2, fun htrans => ?_⟩
    rw [htrans.records] at hnot
    cases hnot

/-- Some message on the link is wrong. -/
def exampleUntold (nodes : Option Bool → Node) (_ : List (List NetPacket))
    (link : Link (Option Bool)) : Bool :=
  link.sent.any fun pkt => ∀ i, ¬ ((nodes i).cfg.Owns pkt.ip.src ∧
    macAt pkt.body 26 = (nodes i).cfg.primaryMac)

theorem not_linkSound_of_untold {nodes : Option Bool → Node} {os : List (List NetPacket)}
    {link : Link (Option Bool)} (h : exampleUntold nodes os link = true) :
    ¬ LinkSound nodes link := fun hsound => by
  obtain ⟨pkt, hpkt, hnobody⟩ := List.any_eq_true.mp h
  obtain ⟨i, hi⟩ := hsound.sent pkt hpkt
  exact of_decide_eq_true hnobody i hi

/-- A host that has no address yet answers for the server, which is nowhere on the link. -/
theorem link_sound_fails_unnumbered :
    let nodes := fun i => { exampleNodes i with
      cfg := { (exampleNodes i).cfg with hasIPv6Addr := i.isNone } }
    ∃ tr link, Run (linkStep nodes) ⟨fun _ => Box.init, []⟩ tr link ∧ ¬ LinkSound nodes link := by
  intro nodes
  have hends : endsIn (linkStep nodes) ⟨fun _ => Box.init, []⟩
      [exampleAsks none exampleServer, .deliver 0 (some false) 0 fun _ => 0]
      (exampleUntold nodes) = true := by decide +kernel
  obtain ⟨os, link, hrun, -, hcheck⟩ := run_of_endsIn hends
  exact ⟨_, link, hrun, not_linkSound_of_untold hcheck⟩

/-- A box that hears one host ask for the other on an inner interface asks in its own name, with
the link-layer address of the host. -/
theorem link_sound_fails_inner : ∃ tr link,
    Run (linkStep exampleNodes) ⟨fun _ => Box.init, []⟩ tr link ∧
      ¬ LinkSound exampleNodes link := by
  have hends : endsIn (linkStep exampleNodes) ⟨fun _ => Box.init, []⟩
      [exampleAsks (some false) exampleConfig.ipv6Addr, .deliver 0 none 1 fun _ => 0,
        exampleAsks (some true) exampleHost, .deliver 3 none 1 fun _ => 0]
      (exampleUntold exampleNodes) = true := by decide +kernel
  obtain ⟨os, link, hrun, -, hcheck⟩ := run_of_endsIn hends
  exact ⟨_, link, hrun, not_linkSound_of_untold hcheck⟩

end NatBox
