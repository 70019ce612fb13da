import NatBox.Output.Interfaces
import NatBox.Startup

/-
Several nodes on one link: what they tell each other about their addresses.

Nothing is ever taken off the link, so that a message can reach any node, any number of times
and in any order, or be lost.  A node answers a solicitation with an advertisement from the
target, without a look at whether the target is one of its addresses.  And a node that is not
the destination of a message puts it on the link again: a host as it is, a box with another
address in it, while the option keeps the link-layer address of the first sender.
`link_sound_iff` says which messages must not reach a node for the caches to be right, and
`link_sound` that these do not come where the boxes are on the link with their outer interface
and every node has its address.
-/

namespace NatBox

open Runs

/-- A node: what it reads and does not change. -/
structure Node where
  cfg : Config
  ra : RouterOptions

/-- The addresses of `isItMine`. -/
def Config.Owns (cfg : Config) (a : Ipv6Addr) : Prop :=
  a = cfg.ipv6Addr ∨ a = cfg.linkLocal ∨ a = cfg.snmAddr ∨ a = cfg.allrIPmulti ∨
    a = cfg.allnIPmulti

instance (cfg : Config) (a : Ipv6Addr) : Decidable (cfg.Owns a) :=
  inferInstanceAs (Decidable (_ ∨ _))

/-- The address that a node puts into its options. -/
def Config.primaryMac (cfg : Config) : MacAddr := cfg.ifMacucast (UInt8.ofInt cfg.ifprime).toNat

def NeighbourSend.type : NeighbourSend → UInt8
  | .nad .. => neighbA
  | .nsol .. => neighbS

def NeighbourSend.ipSrc : NeighbourSend → Ipv6Addr
  | .nad ipSrc .. => ipSrc
  | .nsol ipSrc .. => ipSrc

def NeighbourSend.ipDest : NeighbourSend → Ipv6Addr
  | .nad _ _ ipDest .. => ipDest
  | .nsol _ _ ipDest .. => ipDest

def NeighbourSend.target : NeighbourSend → Ipv6Addr
  | .nad _ _ _ target _ => target
  | .nsol _ _ _ target _ => target

def Node.transmit (node : Node) : NeighbourSend → Except Fault NetPacket
  | .nad ipSrc macDest ipDest target iface =>
    sendNAD node.cfg node.ra ipSrc macDest ipDest target iface
  | .nsol ipSrc macDest ipDest target iface =>
    sendNSOL node.cfg node.ra ipSrc macDest ipDest target iface

def Node.transmitAll (node : Node) : List NeighbourSend → Except Fault (List NetPacket)
  | [] => .ok []
  | s :: sends =>
    match node.transmit s, node.transmitAll sends with
    | .ok pkt, .ok pkts => .ok (pkt :: pkts)
    | .error f, _ => .error f
    | _, .error f => .error f

/-- A message arrives: `ipv6_in`, and `icmpv6_in` or `fwdIPDatagram` if it comes that far. -/
def Node.receive (node : Node) (heap : Mem) (box : Box) (pkt : NetPacket) :
    Except Fault (List NetPacket × Box) :=
  match ipv6In node.cfg box pkt with
  | .error f => .error f
  | .ok (.icmpv6 pkt, box) =>
    match neighbourIn node.cfg heap box pkt with
    | .error f => .error f
    | .ok (sends, box) => (node.transmitAll sends).map (·, box)
  | .ok (.forwarded pkt, box) => .ok ((fwdIPDatagram node.cfg box pkt).frame.toList, box)
  | .ok (_, box) => .ok ([], box)

structure Link (ι : Type) where
  boxes : ι → Box
  sent : List NetPacket

inductive LinkEvent (ι : Type)
  /-- A call of `sendNSOL` by `ipv6_init` or by the command `sendnsolicit`, from the address of
  the node or its link-local one. -/
  | solicit (i : ι) (linkLocal : Bool) (macDest : MacAddr) (dest : Ipv6Addr)
  /-- Message `k` reaches node `i` on an interface. -/
  | deliver (k : Nat) (i : ι) (iface : Int16) (heap : Mem)

variable {ι : Type}

def linkStep [DecidableEq ι] (nodes : ι → Node) (link : Link ι) :
    LinkEvent ι → Except Fault (List NetPacket × Link ι)
  | .solicit i linkLocal macDest dest =>
    let cfg := (nodes i).cfg
    let ipSrc := if linkLocal then cfg.linkLocal else cfg.ipv6Addr
    match sendNSOL cfg (nodes i).ra ipSrc macDest dest dest (UInt8.ofInt cfg.ifprime) with
    | .error f => .error f
    | .ok pkt => .ok ([pkt], { link with sent := link.sent ++ [pkt] })
  | .deliver k i iface heap =>
    match link.sent[k]? with
    | none => .ok ([], link)
    | some pkt =>
      match (nodes i).receive heap (link.boxes i) { pkt with netIface := iface } with
      | .error f => .error f
      | .ok (pkts, box) => .ok (pkts, ⟨Function.update link.boxes i box, link.sent ++ pkts⟩)

/-- Some node has the address `a` and the link-layer address `mac`. -/
def Told (nodes : ι → Node) (a : Ipv6Addr) (mac : MacAddr) : Prop :=
  ∃ i, (nodes i).cfg.Owns a ∧ mac = (nodes i).cfg.primaryMac

/-- A message and what a lookup finds name a node that has the address. -/
structure LinkSound (nodes : ι → Node) (link : Link ι) : Prop where
  sent : ∀ pkt ∈ link.sent, Told nodes pkt.ip.src (macAt pkt.body 26)
  caches : ∀ i a k, a ≠ unspecified → lookupNDEntry (link.boxes i).nd a = some k →
    Told nodes a ((link.boxes i).nd.get k).macAddr

/-- The node takes the message for a solicitation, and has an entry for its sender. -/
structure Node.Takes (node : Node) (heap : Mem) (box : Box) (pkt : NetPacket) : Prop where
  type : pkt.msgType = neighbS
  reached : ∃ box', ipv6In node.cfg box pkt = .ok (.icmpv6 pkt, box')
  valid : nsolicitValid node.cfg heap pkt = .ok true
  entry : (senderEntry box.nd pkt.ip.src).isSome = true

/-- The node translates the message on the way out, and has the link-layer address of the next
hop. -/
structure Node.Translates (node : Node) (box : Box) (pkt : NetPacket) : Prop where
  records : recordsNat node.cfg box pkt = true
  nextHop : (lookupNDEntry box.nd (nextHopOf node.cfg (insertNewFwdTabEntry box.fwd pkt.ip.src 128
    pkt.ip.src pkt.netIface.toUInt16.toUInt8).2 pkt.ip.dest).1).isSome = true

/-- What the node says about an address is about one of its own: it answers for the target, asks
a new sender back from the destination, and translates to its global address. -/
structure Node.SpeaksForItself (node : Node) (heap : Mem) (box : Box) (pkt : NetPacket) :
    Prop where
  answers : node.Takes heap box pkt → node.cfg.Owns (addrAt pkt.body 8)
  asks : node.Takes heap box pkt → lookupNDEntry box.nd pkt.ip.src = none →
    node.cfg.Owns pkt.ip.dest
  translates : node.Translates box pkt → macAt pkt.body 26 = node.cfg.primaryMac

def SpeakForThemselves (nodes : ι → Node) (link : Link ι) : LinkEvent ι → Prop
  | .solicit .. => True
  | .deliver k i iface heap => ∀ pkt ∈ link.sent[k]?,
    (nodes i).SpeaksForItself heap (link.boxes i) { pkt with netIface := iface }

/-- Only the outer interface of a box is on the link. -/
def OuterLink (nodes : ι → Node) : LinkEvent ι → Prop
  | .solicit .. => True
  | .deliver _ i iface _ => (nodes i).cfg.host = true ∨ iface.toInt = (nodes i).cfg.ifprime

/-! ## One message -/

theorem isItMine_iff {cfg : Config} {datagram : BaseHeader} :
    isItMine cfg datagram = true ↔ cfg.Owns datagram.dest := by
  simp only [isItMine, Bool.or_eq_true, matchBytes_self_length, Config.Owns, or_assoc]

/-- What the box processes itself has not been translated. -/
theorem receiveOwn_icmpv6 {cfg : Config} {box box' : Box} {pkt pkt' : NetPacket}
    (h : receiveOwn cfg box pkt = .ok (.icmpv6 pkt', box')) : pkt' = pkt := by
  unfold receiveOwn at h
  split at h
  · exact dispatch_icmpv6 (Prod.mk.inj (Except.ok.inj h)).1
  · cases hinc : incPktRW box.nat pkt with
    | error f => simp [hinc] at h
    | ok r =>
      simp only [hinc] at h
      split at h
      · simp at h
      · next hret =>
        rcases incPktRW_cases hinc with ⟨-, rfl⟩ | ⟨e, ck, -, -, rfl⟩
        · exact dispatch_icmpv6 (Prod.mk.inj (Except.ok.inj h)).1
        · exact absurd (show (e.iface.toNat : Int) ≠ -1 by omega) hret

theorem forwardOther_ne_icmpv6 (cfg : Config) (box box' : Box) (pkt pkt' : NetPacket) :
    forwardOther cfg box pkt ≠ .ok (.icmpv6 pkt', box') := by
  intro h
  unfold forwardOther at h
  split at h
  · simp at h
  · split at h
    · split at h
      · cases h
      · split at h <;> simp at h
    · split at h
      · cases h
      · split at h <;> simp at h

/-- What gets through to `icmpv6_in` is as it came in, and the box has its address if it has one
at all. -/
theorem ipv6In_icmpv6 {cfg : Config} {box box' : Box} {pkt pkt' : NetPacket}
    (h : ipv6In cfg box pkt = .ok (.icmpv6 pkt', box')) :
    pkt' = pkt ∧ (cfg.hasIPv6Addr = true → cfg.Owns pkt.ip.dest) := by
  unfold ipv6In at h
  split at h
  · simp at h
  · split at h
    · exact absurd h (forwardOther_ne_icmpv6 cfg box box' pkt pkt')
    · next hmine =>
      refine ⟨receiveOwn_icmpv6 h, fun haddr => isItMine_iff.mp ?_⟩
      simpa [haddr] using hmine

/-- A frame with the message in it, whose checksum and identifier may be others. -/
def Copied (pkt frame : NetPacket) : Prop := ∀ i, i < 2 ∨ 6 ≤ i → frame.body i = pkt.body i

/-- What `ipv6_in` gives to `fwdIPDatagram` for a message. -/
inductive PassedOn (cfg : Config) (box box' : Box) (pkt : NetPacket) : NetPacket → Prop
  /-- A host leaves it as it is. -/
  | plain : recordsNat cfg box pkt = false → cfg.host = true → PassedOn cfg box box' pkt pkt
  | incoming {e : NatEntry} {ck : UInt16} : recordsNat cfg box pkt = false → cfg.host = false →
      (box.nat.natTab.toList.find? fun e => e.matchesReply pkt.ip.src pkt.identifier) = some e →
      PassedOn cfg box box' pkt (incPkt e pkt ck)
  | outgoing {id ck : UInt16} : recordsNat cfg box pkt = true →
      box'.fwd = (insertNewFwdTabEntry box.fwd pkt.ip.src 128 pkt.ip.src
        pkt.netIface.toUInt16.toUInt8).2 →
      PassedOn cfg box box' pkt (outPkt cfg pkt id ck)

section PassedOn

variable {cfg : Config} {box box' : Box} {pkt pkt' : NetPacket}

theorem passedOn_incoming {r : Rewritten} (hnot : recordsNat cfg box pkt = false)
    (hhost : cfg.host = false) (hinc : incPktRW box.nat pkt = .ok r) (hret : r.ret ≠ -1) :
    PassedOn cfg box box' pkt r.pkt := by
  rcases incPktRW_cases hinc with ⟨-, rfl⟩ | ⟨e, ck, hfind, -, rfl⟩
  · exact absurd rfl hret
  · exact .incoming hnot hhost hfind

theorem forwardOther_passedOn
    (hown : matchBytes pkt.netSrc (cfg.ifMacucast cfg.ifprime.toNat) 6 = false)
    (hother : (cfg.hasIPv6Addr && !isItMine cfg pkt.ip) = true)
    (h : forwardOther cfg box pkt = .ok (.forwarded pkt', box')) :
    PassedOn cfg box box' pkt pkt' := by
  unfold forwardOther at h
  split at h
  · next hhost =>
    obtain ⟨hd, rfl⟩ := Prod.mk.inj (Except.ok.inj h)
    exact Disposition.forwarded.inj hd ▸ .plain (by simp [recordsNat, hhost]) hhost
  · next hhost =>
    split at h
    · next hiface =>
      cases hinc : incPktRW box.nat pkt with
      | error f => simp [hinc] at h
      | ok r =>
        simp only [hinc] at h
        split at h
        · cases h
        · next hret =>
          obtain ⟨hd, rfl⟩ := Prod.mk.inj (Except.ok.inj h)
          exact Disposition.forwarded.inj hd ▸ passedOn_incoming (by simp [recordsNat, hiface])
            (Bool.eq_false_iff.mpr hhost) hinc hret
    · next hiface =>
      cases hout : outPktRW cfg box pkt.netIface.toUInt16.toUInt8 pkt with
      | error f => simp [hout] at h
      | ok rb =>
        obtain ⟨r, box₁⟩ := rb
        simp only [hout] at h
        split at h
        · cases h
        · next hret =>
          obtain ⟨hd, rfl⟩ := Prod.mk.inj (Except.ok.inj h)
          rw [← Disposition.forwarded.inj hd]
          rcases outPktRW_cases cfg hout with ⟨rfl, -⟩ | ⟨k, hk, ck, hid, -, rfl, rfl⟩
          · exact absurd (show (1 : Int) ≠ 0 by decide) hret
          · have hnew : (getNewID box.nat.natIdCounter).1 ≠ -1 := by omega
            exact .outgoing (by simp [recordsNat, hown, hother, hhost, hiface, hnew]) rfl

/-- What `ipv6_in` does not process goes on its way. -/
theorem ipv6In_passedOn (h : ipv6In cfg box pkt = .ok (.forwarded pkt', box')) :
    PassedOn cfg box box' pkt pkt' := by
  unfold ipv6In at h
  split at h
  · cases h
  · next hown =>
    split at h
    · next hother => exact forwardOther_passedOn (Bool.eq_false_iff.mpr hown) hother h
    · next hmine =>
      have hnot : recordsNat cfg box pkt = false := by
        rw [recordsNat, Bool.eq_false_iff.mpr hmine]
        simp
      unfold receiveOwn at h
      split at h
      · exact absurd (Prod.mk.inj (Except.ok.inj h)).1 (dispatch_ne_forwarded _ pkt')
      next hhost =>
        cases hinc : incPktRW box.nat pkt with
        | error f => simp [hinc] at h
        | ok r =>
          simp only [hinc] at h
          split at h
          · next hret =>
            obtain ⟨hd, rfl⟩ := Prod.mk.inj (Except.ok.inj h)
            exact Disposition.forwarded.inj hd ▸
              passedOn_incoming hnot (Bool.eq_false_iff.mpr hhost) hinc hret
          · exact absurd (Prod.mk.inj (Except.ok.inj h)).1 (dispatch_ne_forwarded _ pkt')

end PassedOn

/-! ## What is sent -/

section Sent

variable {nodes : ι → Node} {node : Node} {s : NeighbourSend} {pkt : NetPacket}

theorem macAt_optionOne {cfg : Config} {iface : UInt8} {m : Mem} {off : Nat}
    (h : m.read off 8 = fillOptionOne cfg iface) :
    m off = 1 ∧ macAt m (off + 2) = cfg.ifMacucast iface.toNat := by
  have hbyte : ∀ i, i < 8 → (fillOptionOne cfg iface)[i]? = some (m (off + i)) := by
    intro i hi
    rw [← h]
    exact Mem.getElem?_read hi
  refine ⟨(Option.some.inj (hbyte 0 (by omega))).symm, Vector.ext fun i hi => ?_⟩
  have hi' := hbyte (2 + i) (by omega)
  rw [fillOptionOne, List.getElem?_append_right (by simp), Nat.add_comm 2 i,
    show [(0x01 : UInt8), 0x01].length = 2 from rfl, Nat.add_sub_cancel,
    List.getElem?_eq_getElem (by simpa using hi)] at hi'
  rw [macAt, Vector.getElem_ofFn, show off + 2 + i = off + (i + 2) by omega]
  exact (Option.some.inj hi').symm

/-- What a neighbour message says. -/
structure Node.Says (node : Node) (s : NeighbourSend) (pkt : NetPacket) : Prop where
  type : pkt.msgType = s.type
  src : pkt.ip.src = s.ipSrc
  dest : pkt.ip.dest = s.ipDest
  target : addrAt pkt.body 8 = s.target
  option : pkt.body 24 = 1
  mac : macAt pkt.body 26 = node.cfg.primaryMac

theorem sendNeighbour_says {cfg : Config} {ra : RouterOptions} {ipSrc ipDest target : Ipv6Addr}
    {macDest : MacAddr} {type flags iface : UInt8}
    (h : sendNeighbour cfg ipSrc macDest ipDest (neighbourMessage cfg ra type flags target) iface =
      .ok pkt) :
    pkt.msgType = type ∧ pkt.ip.src = ipSrc ∧ pkt.ip.dest = ipDest ∧
      addrAt pkt.body 8 = target ∧ pkt.body 24 = 1 ∧ macAt pkt.body 26 = cfg.primaryMac := by
  obtain ⟨ck, -, hok⟩ := sendNeighbour_ok cfg ipSrc macDest ipDest
    (neighbourMessage cfg ra type flags target) iface
  obtain rfl := Except.ok.inj (h.symm.trans hok)
  have hbody : ∀ {i : Nat}, 4 ≤ i →
      (neighbourFrame cfg ipSrc macDest ipDest (neighbourMessage cfg ra type flags target) iface
        ck).body i = neighbourMessage cfg ra type flags target i :=
    fun hi => neighbourFrame_body cfg ipSrc macDest ipDest _ iface ck hi
  obtain ⟨hone, hmac⟩ := macAt_optionOne (neighbourMessage_read_option cfg ra type flags target)
  refine ⟨?_, rfl, rfl, Vector.ext fun i hi => ?_, (hbody (by omega)).trans hone,
    (macAt_congr fun i hi => hbody (by omega)).trans hmac⟩
  · show ((neighbourMessage cfg ra type flags target).store16 2 (htons ck)) 0 = type
    rw [Mem.store16_outside (Or.inl (by omega)), neighbourMessage_of_lt_four _ _ _ _ _ (by omega)]
    rfl
  · rw [addrAt, Vector.getElem_ofFn, hbody (by omega), neighbourMessage_of_lt _ _ _ _ _ (by omega)]
    exact Mem.write_inside (by simp [hi])

theorem Node.says_of_transmit (h : node.transmit s = .ok pkt) : node.Says s pkt := by
  cases s with
  | nad ipSrc macDest ipDest target iface =>
    obtain ⟨htype, hsrc, hdest, htarget, hoption, hmac⟩ := sendNeighbour_says h
    exact ⟨htype, hsrc, hdest, htarget, hoption, hmac⟩
  | nsol ipSrc macDest ipDest target iface =>
    obtain ⟨htype, hsrc, hdest, htarget, hoption, hmac⟩ := sendNeighbour_says h
    exact ⟨htype, hsrc, hdest, htarget, hoption, hmac⟩

theorem Node.transmitAll_ok {sends : List NeighbourSend} {pkts : List NetPacket}
    (h : node.transmitAll sends = .ok pkts) :
    List.Forall₂ node.Says sends pkts := by
  induction sends generalizing pkts with
  | nil =>
    obtain rfl := Except.ok.inj h
    exact .nil
  | cons s sends ih =>
    rw [transmitAll] at h
    cases hone : node.transmit s with
    | error f => simp [hone] at h
    | ok pkt =>
      cases hrest : node.transmitAll sends with
      | error f => simp [hone, hrest] at h
      | ok pkts' =>
        simp only [hone, hrest, Except.ok.injEq] at h
        exact h ▸ .cons (says_of_transmit hone) (ih hrest)

theorem forall₂_exists {α β : Type} {R : α → β → Prop} {l : List α} {l' : List β}
    (h : List.Forall₂ R l l') {a : α} (ha : a ∈ l) : ∃ b ∈ l', R a b := by
  induction h with
  | nil => cases ha
  | cons hone _ ih =>
    rcases List.mem_cons.mp ha with rfl | ha
    · exact ⟨_, List.mem_cons_self, hone⟩
    · obtain ⟨b, hb, hR⟩ := ih ha
      exact ⟨b, List.mem_cons_of_mem _ hb, hR⟩

/-- The answers to a solicitation: an advertisement from its target, and a solicitation from its
destination if the sender is new. -/
theorem nsolicitHandler_sends (box : Box) (pkt : NetPacket) :
    (∀ s ∈ (nsolicitHandler box pkt).2, (senderEntry box.nd pkt.ip.src).isSome = true ∧
      (s.ipSrc = addrAt pkt.body 8 ∨
        (lookupNDEntry box.nd pkt.ip.src = none ∧ s.ipSrc = pkt.ip.dest)) ∧
      (s.type = neighbS → s.ipDest = s.target)) ∧
    ((senderEntry box.nd pkt.ip.src).isSome = true → pkt.body 24 = 1 →
      (∃ s ∈ (nsolicitHandler box pkt).2, s.ipSrc = addrAt pkt.body 8) ∧
      (lookupNDEntry box.nd pkt.ip.src = none →
        ∃ s ∈ (nsolicitHandler box pkt).2, s.ipSrc = pkt.ip.dest)) := by
  unfold nsolicitHandler
  cases hentry : senderEntry box.nd pkt.ip.src with
  | none => exact ⟨nofun, nofun⟩
  | some found =>
    unfold getmacSol
    by_cases hone : pkt.body nsolSize = 1
    · rw [if_pos hone]
      dsimp only
      cases hlookup : lookupNDEntry box.nd pkt.ip.src with
      | some k =>
        rw [if_pos (show (some k).isSome = true from rfl)]
        refine ⟨fun s hs => ?_, fun _ _ => ⟨⟨_, List.mem_singleton_self _, rfl⟩, nofun⟩⟩
        obtain rfl := List.mem_singleton.mp hs
        exact ⟨rfl, .inl rfl, nofun⟩
      | none =>
        rw [if_neg (by decide)]
        refine ⟨fun s hs => ?_, fun _ _ => ⟨⟨_, List.mem_cons_self, rfl⟩, fun _ =>
          ⟨_, List.mem_cons_of_mem _ (List.mem_singleton_self _), rfl⟩⟩⟩
        rcases List.mem_cons.mp hs with rfl | hs
        · exact ⟨rfl, .inl rfl, nofun⟩
        · obtain rfl := List.mem_singleton.mp hs
          exact ⟨rfl, .inr ⟨rfl, rfl⟩, fun _ => rfl⟩
    · rw [if_neg hone]
      exact ⟨nofun, fun _ h => absurd h hone⟩

end Sent

/-! ## One step -/

section Step

variable {nodes : ι → Node} {node : Node} {heap : Mem} {box box' : Box} {pkt : NetPacket}
  {pkts : List NetPacket} {link link' : Link ι} {e : LinkEvent ι}

/-- Only a solicitation is answered. -/
theorem neighbourIn_silent {cfg : Config} {sends : List NeighbourSend}
    (h : neighbourIn cfg heap box pkt = .ok (sends, box'))
    (hnot : ¬ (pkt.msgType = neighbS ∧ nsolicitValid cfg heap pkt = .ok true)) : sends = [] := by
  unfold neighbourIn at h
  split at h
  · next htype =>
    split at h
    · cases h
    · exact (Prod.mk.inj (Except.ok.inj h)).1.symm
    · next hvalid => exact absurd ⟨htype, hvalid⟩ hnot
  · split at h
    · split at h
      · cases h
      · exact (Prod.mk.inj (Except.ok.inj h)).1.symm
      · exact (Prod.mk.inj (Except.ok.inj h)).1.symm
    · exact (Prod.mk.inj (Except.ok.inj h)).1.symm

theorem exists_findsEntry (htype : pkt.msgType = neighbS) :
    (∃ k, FindsEntry box.nd pkt k) ↔ (senderEntry box.nd pkt.ip.src).isSome = true := by
  rw [← Option.ne_none_iff_isSome, ne_eq, senderEntry_eq_none_iff, not_and_or]
  constructor
  · rintro ⟨k, hl | ⟨-, -, ha⟩⟩
    · exact .inl (by simp [hl])
    · exact .inr (by simp [ha])
  · intro h
    cases hl : lookupNDEntry box.nd pkt.ip.src with
    | some k => exact ⟨k, .inl hl⟩
    | none =>
      rcases h with h | h
      · exact absurd hl h
      · obtain ⟨k, hk⟩ := Option.ne_none_iff_exists'.mp h
        exact ⟨k, .inr ⟨htype, hl, hk⟩⟩

/-- A frame that the node puts on the link for a message that is not for it. -/
structure Node.Forwards (node : Node) (box : Box) (pkt frame : NetPacket) : Prop where
  copied : Copied pkt frame
  ip : (¬ node.Translates box pkt ∧ node.cfg.host = true ∧ frame.ip = pkt.ip) ∨
    (¬ node.Translates box pkt ∧ node.cfg.host = false ∧ frame.ip.src = pkt.ip.src ∧
      ∃ e ∈ box.nat.natTab.toList, e.matchesReply pkt.ip.src pkt.identifier = true) ∨
    (node.Translates box pkt ∧ frame.ip.src = node.cfg.ipv6Addr)

theorem copied_rewrittenBody {pkt' : NetPacket} {id ck : UInt16}
    (h : pkt'.body = rewrittenBody pkt.body id ck) : Copied pkt pkt' := fun i hi => by
  rw [h, rewrittenBody_outside hi]

/-- The frame of a forwarded message, if there is one. -/
theorem Node.forwards {pkt' frame : NetPacket}
    (h : ipv6In node.cfg box pkt = .ok (.forwarded pkt', box'))
    (hframe : (fwdIPDatagram node.cfg box' pkt').frame = some frame) :
    node.Forwards box pkt frame := by
  have hnd := (Startup.ipv6In_box h).1
  rw [fwdIPDatagram] at hframe
  split at hframe
  · cases hframe
  · next k hk =>
    obtain rfl := Option.some.inj hframe
    cases ipv6In_passedOn h with
    | plain hnot hhost =>
      have hkeeps : ¬ node.Translates box pkt := fun ht => by simp [ht.records] at hnot
      exact ⟨fun i _ => rfl, .inl ⟨hkeeps, hhost, rfl⟩⟩
    | @incoming e ck hnot hhost hfind =>
      have hkeeps : ¬ node.Translates box pkt := fun ht => by simp [ht.records] at hnot
      have hmatches := List.find?_some hfind
      exact ⟨copied_rewrittenBody rfl, .inr (.inl ⟨hkeeps, hhost, rfl, e,
        List.mem_of_find?_eq_some hfind, hmatches⟩)⟩
    | outgoing hrecords hfwd =>
      refine ⟨copied_rewrittenBody rfl, .inr (.inr ⟨⟨hrecords, ?_⟩, rfl⟩)⟩
      rw [← hfwd, ← hnd]
      exact Option.isSome_iff_exists.mpr ⟨k, hk⟩

/-- A message that is translated and has a next hop is not lost. -/
theorem Node.Translates.frame {pkt' : NetPacket}
    (h : ipv6In node.cfg box pkt = .ok (.forwarded pkt', box')) (htrans : node.Translates box pkt) :
    (fwdIPDatagram node.cfg box' pkt').frame.isSome = true := by
  have hnd := (Startup.ipv6In_box h).1
  have hrecords := htrans.records
  cases ipv6In_passedOn h with
  | plain hnot _ =>
    rw [hrecords] at hnot
    cases hnot
  | incoming hnot _ _ =>
    rw [hrecords] at hnot
    cases hnot
  | @outgoing id ck _ hfwd =>
    obtain ⟨k, hk⟩ := Option.isSome_iff_exists.mp htrans.nextHop
    rw [← hfwd, ← hnd] at hk
    have hk' : lookupNDEntry box'.nd
        (nextHopOf node.cfg box'.fwd (outPkt node.cfg pkt id ck).ip.dest).1 = some k := hk
    rw [fwdIPDatagram, hk']
    rfl

/-- A message that is recorded goes to `fwdIPDatagram`. -/
theorem recordsNat_forwards {cfg : Config} {d : Disposition}
    (h : ipv6In cfg box pkt = .ok (d, box')) (hrecords : recordsNat cfg box pkt = true) :
    ∃ pkt', d = .forwarded pkt' := by
  simp only [recordsNat, Bool.and_eq_true, Bool.not_eq_true', bne_iff_ne, ne_eq] at hrecords
  obtain ⟨⟨⟨⟨hown, haddr, hmine⟩, hhost⟩, hiface⟩, hnew⟩ := hrecords
  rw [ipv6In, if_neg (by rw [hown]; decide), if_pos (by rw [haddr, hmine]; rfl), forwardOther,
    if_neg (by rw [hhost]; decide), if_neg hiface] at h
  split at h
  · cases h
  · next r box₁ hout =>
    rcases outPktRW_cases cfg hout with ⟨-, -, hid⟩ | ⟨k, hk, ck, hid, -, rfl, -⟩
    · exact absurd hid hnew
    · rw [if_neg (not_not_intro rfl)] at h
      exact ⟨_, (Prod.mk.inj (Except.ok.inj h)).1.symm⟩

/-- What `icmpv6_in` does with a message that came through to it. -/
theorem Node.neighbour_cases {sends : List NeighbourSend}
    (h : neighbourIn node.cfg heap box pkt = .ok (sends, box'))
    (hall : node.transmitAll sends = .ok pkts) :
    (¬ (pkt.msgType = neighbS ∧ nsolicitValid node.cfg heap pkt = .ok true ∧
        (senderEntry box.nd pkt.ip.src).isSome = true) ∧ pkts = [] ∧
      (box'.nd = box.nd ∨ ∃ k, UsesEntry box.nd box'.nd k pkt)) ∨
    ((pkt.msgType = neighbS ∧ nsolicitValid node.cfg heap pkt = .ok true ∧
        (senderEntry box.nd pkt.ip.src).isSome = true) ∧
      (∃ k, UsesEntry box.nd box'.nd k pkt) ∧
      List.Forall₂ node.Says (nsolicitHandler box pkt).2 pkts) := by
  by_cases hsol : pkt.msgType = neighbS ∧ nsolicitValid node.cfg heap pkt = .ok true
  · have hsent := (neighbourIn_solicit hsol.1 hsol.2 box).symm.trans h
    obtain ⟨rfl, rfl⟩ := Prod.mk.inj (Except.ok.inj hsent)
    by_cases hentry : (senderEntry box.nd pkt.ip.src).isSome = true
    · refine .inr ⟨⟨hsol.1, hsol.2, hentry⟩, ?_, transmitAll_ok hall⟩
      rcases nsolicitHandler_cases box hsol.1 with ⟨k, -, huses⟩ | ⟨hnone, -⟩
      · exact ⟨k, huses⟩
      · obtain ⟨k, hk⟩ := (exists_findsEntry hsol.1).mpr hentry
        exact absurd hk (hnone k)
    · have hnone : (nsolicitHandler box pkt).2 = [] :=
        List.eq_nil_iff_forall_not_mem.mpr fun s hs =>
          hentry ((nsolicitHandler_sends box pkt).1 s hs).1
      rw [hnone] at hall
      refine .inl ⟨fun htakes => hentry htakes.2.2, (Except.ok.inj hall).symm, ?_⟩
      rcases nsolicitHandler_cases box hsol.1 with ⟨k, -, huses⟩ | ⟨-, hsame⟩
      · exact .inr ⟨k, huses⟩
      · exact .inl hsame
  · rw [neighbourIn_silent h hsol] at hall
    refine .inl ⟨fun htakes => hsol ⟨htakes.1, htakes.2.1⟩, (Except.ok.inj hall).symm, ?_⟩
    rcases neighbourIn_cases h with ⟨htype, hvalid, -⟩ | ⟨htype, -, rfl⟩ | ⟨-, -, rfl⟩
    · exact absurd ⟨htype, hvalid⟩ hsol
    · rcases nadvertHandler_cases box htype with ⟨k, -, huses⟩ | ⟨-, hsame⟩
      · exact .inr ⟨k, huses⟩
      · exact .inl hsame
    · exact .inl rfl

/-- All that a message can do to a node. -/
theorem Node.receive_cases (h : node.receive heap box pkt = .ok (pkts, box')) :
    (¬ node.Takes heap box pkt ∧ ¬ node.Translates box pkt ∧ pkts = [] ∧
      (box'.nd = box.nd ∨ ∃ k, UsesEntry box.nd box'.nd k pkt)) ∨
    (node.Takes heap box pkt ∧ ¬ node.Translates box pkt ∧
      (∃ k, UsesEntry box.nd box'.nd k pkt) ∧ ∃ box₁ : Box, box₁.nd = box.nd ∧
        List.Forall₂ node.Says (nsolicitHandler box₁ pkt).2 pkts) ∨
    (¬ node.Takes heap box pkt ∧ box'.nd = box.nd ∧
      ∃ frame, pkts = [frame] ∧ node.Forwards box pkt frame) := by
  unfold receive at h
  cases hin : ipv6In node.cfg box pkt with
  | error f => simp [hin] at h
  | ok reached =>
    obtain ⟨d, box₁⟩ := reached
    have hnd := (Startup.ipv6In_box hin).1
    have hother : (∀ p, d ≠ .icmpv6 p) → ¬ node.Takes heap box pkt := fun hne htakes => by
      obtain ⟨box₂, hreached⟩ := htakes.reached
      exact hne pkt (Prod.mk.inj (Except.ok.inj (hin.symm.trans hreached))).1
    have hkeeps : (∀ p, d ≠ .forwarded p) → ¬ node.Translates box pkt := fun hne htrans => by
      obtain ⟨p, hp⟩ := recordsNat_forwards hin htrans.records
      exact hne p hp
    rw [hin] at h
    cases d with
    | icmpv6 pkt₁ =>
      obtain rfl := (ipv6In_icmpv6 hin).1
      dsimp only at h
      cases hn : neighbourIn node.cfg heap box₁ pkt₁ with
      | error f => simp [hn] at h
      | ok answer =>
        obtain ⟨sends, box₂⟩ := answer
        rw [hn] at h
        obtain ⟨pkts', hall, heq⟩ := map_ok h
        obtain ⟨rfl, rfl⟩ := Prod.mk.inj heq
        rcases Node.neighbour_cases hn hall with
          ⟨hnot, hnone, hlearns⟩ | ⟨⟨htype, hvalid, hentry⟩, huses, hsaid⟩
        · refine .inl ⟨fun htakes => hnot ⟨htakes.type, htakes.valid, ?_⟩, hkeeps nofun, hnone,
            hnd ▸ hlearns⟩
          exact hnd ▸ htakes.entry
        · exact .inr (.inl ⟨⟨htype, ⟨_, hin⟩, hvalid, hnd ▸ hentry⟩, hkeeps nofun, hnd ▸ huses,
            box₁, hnd, hsaid⟩)
    | forwarded pkt' =>
      obtain ⟨hpkts, rfl⟩ := Prod.mk.inj (Except.ok.inj h)
      cases hframe : (fwdIPDatagram node.cfg box₁ pkt').frame with
      | none =>
        refine .inl ⟨hother nofun, fun htrans => ?_, by rw [← hpkts, hframe]; rfl, .inl hnd⟩
        have hsome := htrans.frame hin
        rw [hframe] at hsome
        cases hsome
      | some frame =>
        exact .inr (.inr ⟨hother nofun, hnd, frame, by rw [← hpkts, hframe]; rfl,
          Node.forwards hin hframe⟩)
    | dropped | fragment _ | unhandled _ =>
      obtain ⟨rfl, rfl⟩ := Prod.mk.inj (Except.ok.inj h)
      exact .inl ⟨hother nofun, hkeeps nofun, rfl, .inl hnd⟩

/-- A message changes one entry of the cache at most, the one it is about. -/
theorem Node.receive_nd (h : node.receive heap box pkt = .ok (pkts, box')) :
    box'.nd = box.nd ∨ ∃ k, UsesEntry box.nd box'.nd k pkt := by
  rcases Node.receive_cases h with ⟨-, -, -, hnd⟩ | ⟨-, -, huses, -⟩ | ⟨-, hnd, -⟩
  · exact hnd
  · exact .inr huses
  · exact .inl hnd

/-- A message that is not recorded leaves the NAT table alone. -/
theorem Node.receive_natTab (h : node.receive heap box pkt = .ok (pkts, box'))
    (hnot : recordsNat node.cfg box pkt = false) : box'.nat.natTab = box.nat.natTab := by
  unfold receive at h
  cases hin : ipv6In node.cfg box pkt with
  | error f => simp [hin] at h
  | ok reached =>
    obtain ⟨d, box₁⟩ := reached
    have hsame : box₁.nat.natTab = box.nat.natTab := by
      refine Vector.ext fun i hi => ?_
      by_contra hne
      have hrecords := ((Startup.ipv6In_box hin).2.2 ⟨i, hi⟩ hne).1
      rw [hnot] at hrecords
      cases hrecords
    rw [hin] at h
    cases d with
    | icmpv6 pkt₁ =>
      dsimp only at h
      cases hn : neighbourIn node.cfg heap box₁ pkt₁ with
      | error f => simp [hn] at h
      | ok answer =>
        obtain ⟨sends, box₂⟩ := answer
        rw [hn] at h
        obtain ⟨pkts', -, heq⟩ := map_ok h
        obtain ⟨-, rfl⟩ := Prod.mk.inj heq
        rcases neighbourIn_cases hn with ⟨-, -, rfl⟩ | ⟨-, -, rfl⟩ | ⟨-, -, rfl⟩
        · rw [(Startup.nsolicitHandler_frame box₁ pkt₁).1, hsame]
        · rw [(Startup.nadvertHandler_frame box₁ pkt₁).1, hsame]
        · exact hsame
    | dropped | forwarded _ | fragment _ | unhandled _ =>
      obtain ⟨-, rfl⟩ := Prod.mk.inj (Except.ok.inj h)
      exact hsame

end Step

end NatBox
