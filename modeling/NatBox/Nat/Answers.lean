import NatBox.Input
import NatBox.Nat.Flows

/-
Which incoming packets the NAT rewrites.

An unused slot is told from a used one by nothing, and slot 29 is never used.  Its
zeros answer to a packet from the unspecified address whose identifier bytes are
zero, which is what a router solicitation from a host without an address looks like.
`answersOnly_iff` says that this is the one way for a packet that no flow accounts
for to be rewritten.
-/

namespace NatBox

open Runs

/-- Some accepted packet went to the source of `pkt` with the identifier of `pkt`. -/
def Recorded (tr : List (NatEvent × Rewritten)) (pkt : NetPacket) : Prop :=
  ∃ interface flow, Translated tr interface flow pkt.identifier ∧ flow.ip.dest = pkt.ip.src

/-- A router solicitation from the unspecified address that reaches the box. -/
structure SolicitsBox (cfg : Config) (pkt : NetPacket) : Prop where
  natBox : cfg.host = false
  received : matchBytes pkt.netSrc (cfg.ifMacucast cfg.ifprime.toNat) 6 = false
  mine : isItMine cfg pkt.ip = true
  icmp : pkt.ip.nextHeader = ipv6Icmp
  type : pkt.msgType = routerS
  src : pkt.ip.src = unspecified

/- Only answers to recorded flows are rewritten, and a solicitation goes to
`icmpv6_in` as it came. -/
structure AnswersOnly (cfg : Config) (tr : List (NatEvent × Rewritten)) (box : Box)
    (pkt : NetPacket) : Prop where
  kept : ¬ Recorded tr pkt → incPktRW box.nat pkt = .ok ⟨-1, pkt⟩
  solicits : SolicitsBox cfg pkt → ipv6In cfg box pkt = .ok (.icmpv6 pkt, box)

section

variable {tr : List (NatEvent × Rewritten)} {nat : NatTable} {pkt : NetPacket}

/-- A packet that some slot answers to is rewritten. -/
theorem incPktRW_of_matches
    (h : ∃ i, ∃ hi : i < maxNatEntries,
      nat.natTab[i].matchesReply pkt.ip.src pkt.identifier = true) :
    ∃ (iface : UInt8) (answer : NetPacket), incPktRW nat pkt = .ok ⟨iface.toNat, answer⟩ := by
  classical
  have hleast := Nat.find_spec h
  obtain ⟨hi, hm⟩ := hleast
  have hfirst : ∀ j, ∀ hj : j < Nat.find h,
      nat.natTab[j].matchesReply pkt.ip.src pkt.identifier = false := by
    intro j hj
    rw [← Bool.not_eq_true]
    intro hmj
    exact Nat.find_min h hj ⟨by omega, hmj⟩
  obtain ⟨ck, -, hinc⟩ := incPktRW_some hi hm hfirst
  exact ⟨_, _, hinc⟩

theorem NatTracks.matches_of_recorded (h : NatTracks tr nat) (hr : Recorded tr pkt) :
    ∃ i, ∃ hi : i < maxNatEntries,
      nat.natTab[i].matchesReply pkt.ip.src pkt.identifier = true := by
  obtain ⟨interface, flow, ht, hdest⟩ := hr
  obtain ⟨i, hi, -, -, hent, hid⟩ := h.recorded interface flow _ ht
  refine ⟨i, hi, ?_⟩
  rw [matchesReply_iff, hent, hid]
  exact ⟨rfl, hdest⟩

/-- Slot 29 answers to zeros. -/
theorem NatTracks.matches_of_zero (h : NatTracks tr nat) (hsrc : pkt.ip.src = unspecified)
    (hid : pkt.identifier = 0) :
    ∃ i, ∃ hi : i < maxNatEntries,
      nat.natTab[i].matchesReply pkt.ip.src pkt.identifier = true := by
  have h29 : 29 < maxNatEntries := Nat.lt_succ_self 29
  refine ⟨29, h29, ?_⟩
  rw [matchesReply_iff, h.unused 29 h29 (Or.inr rfl), hsrc, hid]
  exact ⟨rfl, rfl⟩

/-- Nothing else answers to a packet. -/
theorem NatTracks.of_matches (h : NatTracks tr nat) {i : Nat} (hi : i < maxNatEntries)
    (hm : nat.natTab[i].matchesReply pkt.ip.src pkt.identifier = true) :
    Recorded tr pkt ∨ (pkt.ip.src = unspecified ∧ pkt.identifier = 0) := by
  rw [matchesReply_iff] at hm
  obtain ⟨hid, hdest⟩ := hm
  by_cases hused : i < nat.natIdCounter.toNat ∧ i < 29
  · obtain ⟨interface, flow, hent, ht⟩ := h.used i hi hused.1 hused.2
    rw [hent] at hid hdest
    left
    refine ⟨interface, flow, ?_, hdest⟩
    rw [← hid]
    exact ht
  · have hi30 : i < 30 := hi
    rw [h.unused i hi (by omega)] at hid hdest
    right
    exact ⟨hdest.symm, hid.symm⟩

theorem NatTracks.incPktRW_none (h : NatTracks tr nat) (hr : ¬ Recorded tr pkt)
    (hz : ¬ (pkt.ip.src = unspecified ∧ pkt.identifier = 0)) :
    incPktRW nat pkt = .ok ⟨-1, pkt⟩ := by
  apply NatBox.incPktRW_none
  intro i hi
  rw [← Bool.not_eq_true]
  intro hm
  cases h.of_matches hi hm with
  | inl hrec => exact hr hrec
  | inr hzero => exact hz hzero

theorem incPktRW_ne_of_matches
    (h : ∃ i, ∃ hi : i < maxNatEntries,
      nat.natTab[i].matchesReply pkt.ip.src pkt.identifier = true) :
    incPktRW nat pkt ≠ .ok ⟨-1, pkt⟩ := by
  obtain ⟨iface, answer, hinc⟩ := incPktRW_of_matches h
  rw [hinc]
  intro heq
  cases heq

end

section

variable {cfg : Config} {box : Box} {pkt : NetPacket}

theorem SolicitsBox.ipv6In_eq (h : SolicitsBox cfg pkt) :
    ipv6In cfg box pkt = receiveOwn cfg box pkt := by
  rw [ipv6In, h.received, h.mine, Bool.not_true, Bool.and_false]
  rfl

theorem SolicitsBox.ipv6In_of_none (h : SolicitsBox cfg pkt)
    (hinc : incPktRW box.nat pkt = .ok ⟨-1, pkt⟩) :
    ipv6In cfg box pkt = .ok (.icmpv6 pkt, box) := by
  have hd : dispatch pkt = .icmpv6 pkt := by
    rw [dispatch, if_pos h.icmp]
  rw [h.ipv6In_eq, receiveOwn, h.natBox, hinc]
  simp [hd]

theorem SolicitsBox.ipv6In_of_matches (h : SolicitsBox cfg pkt)
    (hm : ∃ i, ∃ hi : i < maxNatEntries,
      box.nat.natTab[i].matchesReply pkt.ip.src pkt.identifier = true) :
    ∃ answer, ipv6In cfg box pkt = .ok (.forwarded answer, box) := by
  obtain ⟨iface, answer, hinc⟩ := incPktRW_of_matches hm
  have hret : ((iface.toNat : Nat) : Int) ≠ -1 := by omega
  refine ⟨answer, ?_⟩
  rw [h.ipv6In_eq, receiveOwn, h.natBox, hinc]
  simp [hret]

end

/-- In every state the calls can reach, a packet is treated as its flow demands
exactly when it is not from the unspecified address with a zero identifier, or a flow
was recorded for that; and a solicitation has to have a nonzero identifier that no
flow was recorded for. -/
theorem answersOnly_iff {cfg : Config} {fwd : FwdTable} {nd : NDCache}
    {tr : List (NatEvent × Rewritten)} {box : Box}
    (hrun : Run (natStep cfg) ⟨natTabInit, fwd, nd⟩ tr box) (pkt : NetPacket) :
    AnswersOnly cfg tr box pkt ↔
      (pkt.ip.src = unspecified ∧ pkt.identifier = 0 → Recorded tr pkt) ∧
      (SolicitsBox cfg pkt → pkt.identifier ≠ 0 ∧ ¬ Recorded tr pkt) := by
  have h := natTracks_of_run hrun
  constructor
  · intro ha
    have hnot : SolicitsBox cfg pkt → ¬ ∃ i, ∃ hi : i < maxNatEntries,
        box.nat.natTab[i].matchesReply pkt.ip.src pkt.identifier = true := by
      intro hs hm
      obtain ⟨answer, hfwd⟩ := hs.ipv6In_of_matches hm
      have heq := hfwd.symm.trans (ha.solicits hs)
      cases heq
    constructor
    · rintro ⟨hsrc, hid⟩
      by_contra hr
      exact incPktRW_ne_of_matches (h.matches_of_zero hsrc hid) (ha.kept hr)
    · intro hs
      constructor
      · intro hid
        exact hnot hs (h.matches_of_zero hs.src hid)
      · intro hr
        exact hnot hs (h.matches_of_recorded hr)
  · rintro ⟨hzero, hsol⟩
    constructor
    · intro hr
      exact h.incPktRW_none hr fun hz => hr (hzero hz)
    · intro hs
      obtain ⟨hid, hr⟩ := hsol hs
      exact hs.ipv6In_of_none (h.incPktRW_none hr fun hz => hid hz.2)

/-- Two echo requests of one host, and the reply to the first. -/
def exampleEchos : List NatEvent := [
  .out 1 (examplePacket exampleHost exampleServer [0x80, 0, 0, 0, 0, 7, 0, 1]),
  .out 1 (examplePacket exampleHost exampleConfig.routerIpAddr [0x80, 0, 0, 0, 0, 8, 0, 1]),
  .inc (examplePacket exampleServer exampleConfig.ipv6Addr [0x81, 0, 0, 0, 0, 0, 0, 1])]

/-- A router solicitation in whose reserved bytes something stands. -/
def reservedSolicit : NetPacket :=
  examplePacket unspecified exampleConfig.allrIPmulti [0x85, 0, 0, 0, 0, 1, 0, 0]

/-- Whoever has an address is treated well after them, and so is that solicitation. -/
theorem answersOnly_after_echos : ∃ os box,
    Run (natStep exampleConfig) Box.init (exampleEchos.zip os) box ∧
    os.map Rewritten.ret = [0, 0, 1] ∧
    (∀ pkt : NetPacket, pkt.ip.src ≠ unspecified →
      AnswersOnly exampleConfig (exampleEchos.zip os) box pkt) ∧
    AnswersOnly exampleConfig (exampleEchos.zip os) box reservedSolicit := by
  obtain ⟨os, box, hrun, -, hcheck⟩ := run_of_endsIn (show endsIn (natStep exampleConfig) Box.init
    exampleEchos (fun os _ => os.map Rewritten.ret = [0, 0, 1]) = true by decide +kernel)
  have hunrecorded : ¬ Recorded (exampleEchos.zip os) reservedSolicit := by
    rintro ⟨interface, flow, ⟨r, hr, -⟩, hdest⟩
    have hmem := (List.of_mem_zip hr).1
    simp only [exampleEchos, List.mem_cons, List.not_mem_nil, or_false, reduceCtorEq,
      NatEvent.out.injEq] at hmem
    rcases hmem with ⟨-, rfl⟩ | ⟨-, rfl⟩
    · exact absurd hdest (by decide)
    · exact absurd hdest (by decide)
  refine ⟨os, box, hrun, of_decide_eq_true hcheck, fun pkt hsrc => ?_, ?_⟩
  · exact (answersOnly_iff hrun pkt).mpr ⟨fun hzero => absurd hzero.1 hsrc,
      fun hs => absurd hs.src hsrc⟩
  · have hid : reservedSolicit.identifier ≠ 0 := by decide
    exact (answersOnly_iff hrun reservedSolicit).mpr ⟨fun hzero => absurd hzero.2 hid,
      fun _ => ⟨hid, hunrecorded⟩⟩

/-- A router solicitation from the unspecified address is forwarded to nobody in
particular. -/
theorem answersOnly_fails_solicitation :
    ¬ AnswersOnly exampleConfig [] Box.init
      (examplePacket unspecified exampleConfig.allrIPmulti [0x85, 0, 0, 0, 0, 0, 0, 0]) := by
  intro ha
  have hrec : ¬ Recorded [] (examplePacket unspecified exampleConfig.allrIPmulti
      [0x85, 0, 0, 0, 0, 0, 0, 0]) := by
    rintro ⟨interface, flow, ⟨r, hr, -⟩, -⟩
    cases hr
  exact incPktRW_ne_of_matches (natTracks_init.matches_of_zero rfl (by decide)) (ha.kept hrec)

end NatBox
