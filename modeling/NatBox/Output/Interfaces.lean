import NatBox.Fragment.Send
import NatBox.Neighbour.Options
import NatBox.Output.SendIpv6Pkt

/-
The interface a frame comes from.

The senders are given an interface for the Ethernet header, and take `ifprime` for the
option of a solicitation or an advertisement; `fwdIPDatagram` leaves the options of the
host it forwards for, and `sendFragment` passes the length of the header for the
interface.
-/

namespace NatBox

/-- `NIFACES` -/
def nifaces : Nat := 3

/-- Where the options of a message begin, for the types that have options. -/
def optionsStart (type : UInt8) : Option Nat :=
  if type = routerS then some rsolSize
  else if type = routerA then some radvertSize
  else if type = neighbS then some nsolSize
  else if type = neighbA then some nadSize
  else none

/-- Where the options of a packet begin that somebody else built. -/
def NetPacket.optionsStart (pkt : NetPacket) : Option Nat :=
  if pkt.ip.nextHeader = ipv6Icmp then NatBox.optionsStart pkt.msgType else none

/-- Every link-layer address that the message carries is `mac`. -/
def CarriesOnly (pkt : NetPacket) (start : Option Nat) (mac : MacAddr) : Prop :=
  ∀ off, start = some off →
    ∀ m, CarriesMac pkt.body pkt.ip.hostPayloadLen.toNat off m → m = mac

/-- The frames of a sender come from interface `i`, with whatever lies behind the table of
interfaces in memory. -/
def Identifies (cfg : Config) (i : Nat) (start : Option Nat)
    (send : Config → Except Fault (Option NetPacket)) : Prop :=
  ∀ ifMac : Nat → MacAddr, (∀ j, j < nifaces → ifMac j = cfg.ifMacucast j) →
    ∀ frame, send { cfg with ifMacucast := ifMac } = .ok (some frame) →
      frame.netSrc = cfg.ifMacucast i ∧ CarriesOnly frame start (cfg.ifMacucast i)

/-! ## The options that are filled in -/

section Fill

variable {cfg : Config} {ra : RouterOptions} {iface : UInt8} {m : Mem} {off len : Nat}
  {mac : MacAddr}

/-- The option before the others is the address of its interface. -/
theorem carriesMac_optionOne (h : m.read off 8 = fillOptionOne cfg iface) (hlen : off + 8 ≤ len) :
    CarriesMac m len off mac ↔
      cfg.ifMacucast iface.toNat = mac ∨ CarriesMac m len (off + 8) mac := by
  have hbyte : ∀ i, i < 8 → (fillOptionOne cfg iface)[i]? = some (m (off + i)) := by
    intro i hi
    rw [← h]
    exact Mem.getElem?_read hi
  have htype : m off = 1 := (Option.some.inj (hbyte 0 (by omega))).symm
  have hone : m (off + 1) = 1 := (Option.some.inj (hbyte 1 (by omega))).symm
  have hmac : macAt m (off + 2) = cfg.ifMacucast iface.toNat := by
    refine Vector.ext fun i hi => ?_
    have hi' := hbyte (2 + i) (by omega)
    rw [fillOptionOne, List.getElem?_append_right (by simp), Nat.add_comm 2 i,
      show [(0x01 : UInt8), 0x01].length = 2 from rfl, Nat.add_sub_cancel] at hi'
    rw [macAt, Vector.getElem_ofFn, show off + 2 + i = off + (i + 2) by omega]
    rw [List.getElem?_eq_getElem (by simpa using hi)] at hi'
    exact (Option.some.inj hi').symm
  have hsize : (m (off + 1)).toNat = 1 := by
    rw [hone]
    rfl
  rw [carriesMac_iff (by rw [hone]; decide) (by rw [hsize]; omega), hsize, hmac,
    and_iff_right (Or.inl htype)]

theorem fillOptions_of_lt : ∀ (types : List UInt8) (off length : Nat) (m : Mem) {i : Nat}, i < off →
    fillOptions cfg ra iface types off length m i = m i := by
  intro types
  induction types with
  | nil => intro off length m i _; rfl
  | cons type types ih =>
    intro off length m i hi
    rw [fillOptions]
    split
    · rw [ih _ _ _ (by omega), Mem.write_outside (Or.inl hi)]
    · split
      · rw [ih _ _ _ (by omega), Mem.write_outside (Or.inl hi)]
      · split
        · rw [ih _ _ _ (by omega), Mem.write_outside (Or.inl hi)]
        · exact ih _ _ _ (by omega)

end Fill

/-! ## What the senders read of the table -/

section Table

variable {cfg : Config} {ifMac : Nat → MacAddr} {iface : UInt8}

theorem fillEthernet_congr (h : ifMac iface.toNat = cfg.ifMacucast iface.toNat) (pkt : NetPacket)
    (dest : MacAddr) :
    fillEthernet { cfg with ifMacucast := ifMac } pkt dest iface =
      fillEthernet cfg pkt dest iface := by
  unfold fillEthernet
  dsimp only
  rw [h]

theorem fillOptions_congr (h : ifMac iface.toNat = cfg.ifMacucast iface.toNat)
    (ra : RouterOptions) (types : List UInt8) (off length : Nat) (m : Mem) :
    fillOptions { cfg with ifMacucast := ifMac } ra iface types off length m =
      fillOptions cfg ra iface types off length m := by
  have hone : fillOptionOne { cfg with ifMacucast := ifMac } iface = fillOptionOne cfg iface := by
    unfold fillOptionOne
    dsimp only
    rw [h]
  induction types generalizing off length m with
  | nil => rfl
  | cons type types ih => rw [fillOptions, fillOptions, hone, ih, ih, ih, ih]

variable (info : RouterInfo) (h : ifMac iface.toNat = cfg.ifMacucast iface.toNat)
  (hprime : ifMac (UInt8.ofInt cfg.ifprime).toNat = cfg.ifMacucast (UInt8.ofInt cfg.ifprime).toNat)

include h hprime

theorem fillICMP_congr (packet : NetPacket) (type : UInt8) (optionTypes : List UInt8) (n : Nat) :
    fillICMP { cfg with ifMacucast := ifMac } info packet type optionTypes n iface =
      fillICMP cfg info packet type optionTypes n iface := by
  unfold fillICMP
  dsimp only
  rw [fillOptions_congr h, fillOptions_congr hprime]

theorem buildPacket_congr (stack : List UInt8) (type : UInt8) (linkDest : MacAddr)
    (ipDest : Ipv6Addr) :
    buildPacket { cfg with ifMacucast := ifMac } info stack type linkDest ipDest iface =
      buildPacket cfg info stack type linkDest ipDest iface := by
  unfold buildPacket
  simp only [fillEthernet_congr h, fillICMP_congr info h hprime]

theorem sendipv6pkt_congr (heap : Mem) (stack : List UInt8) (garbage : UInt32) (type : UInt8)
    (linkDest : MacAddr) (ipDest : Ipv6Addr) :
    sendipv6pkt { cfg with ifMacucast := ifMac } info heap stack garbage type linkDest ipDest
        iface =
      sendipv6pkt cfg info heap stack garbage type linkDest ipDest iface := by
  unfold sendipv6pkt
  rw [buildPacket_congr info h hprime]
  rfl

omit h in
theorem neighbourMessage_congr (ra : RouterOptions) (type flags : UInt8) (target : Ipv6Addr) :
    neighbourMessage { cfg with ifMacucast := ifMac } ra type flags target =
      neighbourMessage cfg ra type flags target := by
  unfold neighbourMessage
  dsimp only
  rw [fillOptions_congr hprime]

end Table

/-! ## What `sendipv6pkt` writes -/

/-- The saved prefix option, where an advertisement has it. -/
def savedPrefix (info : RouterInfo) : Mem :=
  Mem.write (fun _ => 0) 32 info.optionPrefixDefault.toList

section Advert

variable (cfg : Config) (ra : RouterOptions) (iface : UInt8) (stack : List UInt8) (m : Mem)

/-- The options of an advertisement: those behind the first three lie outside of it. -/
theorem fillOptions_advert (ck : UInt16) {i : Nat} (hlow : 4 ≤ i) (hhigh : i < 64) :
    ((fillOptions cfg ra iface (([1, 5, 3] ++ stack).take 48) radvertSize 0 m).store16 2 ck) i =
      (((m.write 16 (fillOptionOne cfg iface)).write 24 (fillOptionMTU ra.mtu)).write 32
        ra.optionPrefixDefault.toList) i := by
  rw [Mem.store16_outside (Or.inr hlow)]
  show fillOptions cfg ra iface (1 :: 5 :: 3 :: stack.take 45) 16 0 m i = _
  rw [fillOptions, if_pos rfl, fillOptions, if_neg (by decide), if_pos rfl, fillOptions,
    if_neg (by decide), if_neg (by decide), if_pos rfl]
  exact fillOptions_of_lt _ _ _ _ hhigh

theorem advert_optionOne (ck : UInt16) :
    ((fillOptions cfg ra iface (([1, 5, 3] ++ stack).take 48) radvertSize 0 m).store16 2 ck).read
      16 8 = fillOptionOne cfg iface := by
  have hone : (fillOptionOne cfg iface).length = 8 := by simp [fillOptionOne]
  have hmtu : (fillOptionMTU ra.mtu).length = 8 := rfl
  have hself := Mem.read_write_self m 16 (fillOptionOne cfg iface)
  rw [hone] at hself
  rw [Mem.read_congr fun i hlow hhigh =>
      fillOptions_advert cfg ra iface stack m ck (by omega) (by omega),
    Mem.read_write_of_disjoint (by omega), Mem.read_write_of_disjoint (by omega), hself]

theorem advert_optionMTU (ck : UInt16) {i : Nat} {b : UInt8}
    (hb : (fillOptionMTU ra.mtu)[i]? = some b) :
    ((fillOptions cfg ra iface (([1, 5, 3] ++ stack).take 48) radvertSize 0 m).store16 2 ck)
      (24 + i) = b := by
  have hi : i < 8 := (List.getElem?_eq_some_iff.mp hb).1
  rw [fillOptions_advert cfg ra iface stack m ck (by omega) (by omega),
    Mem.write_outside (Or.inl (by omega)), Mem.write_inside hb]

theorem advert_prefix (ck : UInt16) {info : RouterInfo} (hra : info.toRouterOptions = ra) {i : Nat}
    (hlow : 32 ≤ i) (hhigh : i < 64) :
    ((fillOptions cfg ra iface (([1, 5, 3] ++ stack).take 48) radvertSize 0 m).store16 2 ck) i =
      savedPrefix info i := by
  have hlen : info.optionPrefixDefault.toList.length = 32 := Vector.length_toList
  obtain ⟨j, rfl⟩ : ∃ j, i = 32 + j := ⟨i - 32, by omega⟩
  have hj := List.getElem?_eq_getElem (show j < info.optionPrefixDefault.toList.length by omega)
  rw [fillOptions_advert cfg ra iface stack m ck (by omega) hhigh, ← hra, savedPrefix,
    Mem.write_inside hj, Mem.write_inside hj]

end Advert

section Built

variable {cfg : Config} {info : RouterInfo} {iface : UInt8} {packet packet' : NetPacket}
  {stack : List UInt8} {linkDest : MacAddr} {ipDest : Ipv6Addr} {len : UInt32}

theorem fillChecksum_inv (h : fillChecksum packet len = .ok packet') :
    ∃ ck, packet' = { packet with body := packet.body.store16 2 ck } := by
  unfold fillChecksum at h
  dsimp only at h
  cases hck : checksumv6 (Mem.ofBlock (makePseudoHdr packet.ip.src packet.ip.dest packet.body len)
      fun _ => 0) (40 + len) with
  | error f => simp [hck] at h
  | ok sum =>
    simp only [hck, Except.ok.injEq] at h
    exact ⟨htons sum, h.symm⟩

theorem buildPacket_routerS
    (h : buildPacket cfg info stack routerS linkDest ipDest iface = .ok packet) :
    packet.netSrc = cfg.ifMacucast iface.toNat ∧ packet.ip.hostPayloadLen = 8 := by
  unfold buildPacket fillICMP at h
  rw [if_pos rfl, if_pos rfl] at h
  obtain ⟨ck, rfl⟩ := fillChecksum_inv h
  exact ⟨rfl, ntohs_htons 8⟩

theorem buildPacket_neighbA
    (h : buildPacket cfg info stack neighbA linkDest ipDest iface = .ok packet) :
    packet.netSrc = cfg.ifMacucast iface.toNat ∧ packet.ip.hostPayloadLen = 24 := by
  unfold buildPacket at h
  rw [if_neg (by decide), if_neg (by decide), if_neg (by decide), if_pos rfl] at h
  obtain rfl := Except.ok.inj h
  exact ⟨rfl, ntohs_htons 24⟩

theorem buildPacket_echoReq
    (h : buildPacket cfg info stack echoReq linkDest ipDest iface = .ok packet) :
    packet.netSrc = cfg.ifMacucast iface.toNat := by
  unfold buildPacket fillICMP at h
  rw [if_neg (by decide), if_neg (by decide), if_neg (by decide), if_neg (by decide), if_pos rfl,
    if_neg (by decide), if_neg (by decide), if_neg (by decide), if_neg (by decide),
    if_pos rfl] at h
  obtain ⟨ck, rfl⟩ := fillChecksum_inv h
  rfl

theorem buildPacket_neighbS
    (h : buildPacket cfg info stack neighbS linkDest ipDest iface = .ok packet) :
    packet.netSrc = cfg.ifMacucast iface.toNat ∧ packet.ip.hostPayloadLen = 32 ∧
      packet.body.read 24 8 = fillOptionOne cfg (UInt8.ofInt cfg.ifprime) := by
  unfold buildPacket fillICMP at h
  rw [if_neg (by decide), if_neg (by decide), if_pos rfl, if_neg (by decide), if_neg (by decide),
    if_pos rfl] at h
  obtain ⟨ck, rfl⟩ := fillChecksum_inv h
  refine ⟨rfl, ntohs_htons 32, ?_⟩
  rw [Mem.read_store16_of_disjoint (by omega)]
  have hlen : (fillOptionOne cfg (UInt8.ofInt cfg.ifprime)).length = 8 := by
    simp [fillOptionOne]
  have hself := Mem.read_write_self (((((clearedPacket.body.write 0 [neighbS]).write 0
    [neighbS, 0]).store16 2 0).write 8 info.routerLinkLocal.toList)) 24
    (fillOptionOne cfg (UInt8.ofInt cfg.ifprime))
  rw [hlen] at hself
  exact hself

theorem buildPacket_routerA
    (h : buildPacket cfg info stack routerA linkDest ipDest iface = .ok packet) :
    packet.netSrc = cfg.ifMacucast iface.toNat ∧ packet.ip.payloadLen = htons 64 ∧
      packet.body.read 16 8 = fillOptionOne cfg iface ∧
      packet.body 24 = 5 ∧ packet.body 25 = 1 ∧
      ∀ i, 32 ≤ i → i < 64 → packet.body i = savedPrefix info i := by
  unfold buildPacket fillICMP at h
  rw [if_neg (by decide), if_pos rfl, if_neg (by decide), if_pos rfl] at h
  obtain ⟨ck, rfl⟩ := fillChecksum_inv h
  refine ⟨rfl, rfl, ?_, ?_, ?_, ?_⟩
  · exact advert_optionOne cfg info.toRouterOptions iface stack _ ck
  · exact advert_optionMTU cfg info.toRouterOptions iface stack _ ck (i := 0) rfl
  · exact advert_optionMTU cfg info.toRouterOptions iface stack _ ck (i := 1) rfl
  · intro i hlow hhigh
    exact advert_prefix cfg info.toRouterOptions iface stack _ ck rfl hlow hhigh

end Built

/-- The condition on a message of `sendipv6pkt`: a solicitation takes the address of
`ifprime`, an advertisement hands on the saved prefix option, whatever it holds, and an
unknown type has no header. -/
def OwnOptions (cfg : Config) (info : RouterInfo) (type : UInt8) (i : Nat) : Prop :=
  if type = routerA then
    ∀ m, CarriesMac (savedPrefix info) 64 32 m → m = cfg.ifMacucast i
  else if type = neighbS then cfg.ifMacucast cfg.ifprime.toNat = cfg.ifMacucast i
  else if type = routerS ∨ type = neighbA ∨ type = echoReq then True
  else cfg.ifMacucast i = Vector.replicate 6 0

/-- The box is a host that may not advertise, or its own validation rejects the message. -/
def Withheld (cfg : Config) (info : RouterInfo) (heap : Mem) (stack : List UInt8) (type : UInt8)
    (linkDest : MacAddr) (ipDest : Ipv6Addr) (iface : UInt8) : Prop :=
  type = routerA ∧ cfg.host = true ∨
    ∀ packet packet', buildPacket cfg info stack type linkDest ipDest iface = .ok packet →
      selfValid cfg heap type packet ≠ .ok (true, packet')

theorem carriesOnly_none (pkt : NetPacket) (mac : MacAddr) : CarriesOnly pkt none mac :=
  fun _ hoff => nomatch hoff

/-- A message without room for options carries no address. -/
theorem carriesOnly_of_short {pkt : NetPacket} {start : Nat} {mac : MacAddr}
    (h : pkt.ip.hostPayloadLen.toNat ≤ start) : CarriesOnly pkt (some start) mac := by
  intro off hoff m hm
  obtain rfl := Option.some.inj hoff
  exact absurd hm.lt (Nat.not_lt.mpr h)

theorem toNat_ifprime {cfg : Config} (hlow : 0 ≤ cfg.ifprime) (hhigh : cfg.ifprime < nifaces) :
    (UInt8.ofInt cfg.ifprime).toNat = cfg.ifprime.toNat := by
  have hthree : (nifaces : Int) = 3 := rfl
  obtain h | h | h : cfg.ifprime = 0 ∨ cfg.ifprime = 1 ∨ cfg.ifprime = 2 := by omega
  all_goals
    rw [h]
    rfl

section Written

variable {cfg : Config} {info : RouterInfo} {heap : Mem} {stack : List UInt8} {type : UInt8}
  {linkDest : MacAddr} {ipDest : Ipv6Addr} {iface : UInt8} {packet frame : NetPacket}

/-- A solicitation with the option of `ifprime`. -/
theorem carriesOnly_optionOne {pkt : NetPacket} {mac : MacAddr}
    (hlen : pkt.ip.hostPayloadLen = 32)
    (hoption : pkt.body.read 24 8 = fillOptionOne cfg iface) :
    CarriesOnly pkt (some 24) mac ↔ cfg.ifMacucast iface.toNat = mac := by
  have h32 : pkt.ip.hostPayloadLen.toNat = 32 := congrArg UInt16.toNat hlen
  constructor
  · intro honly
    refine honly 24 rfl _ ?_
    rw [h32, carriesMac_optionOne hoption (by omega)]
    exact Or.inl rfl
  · rintro rfl off hoff m hm
    obtain rfl := Option.some.inj hoff
    rw [h32, carriesMac_optionOne hoption (by omega)] at hm
    rcases hm with heq | hrest
    · exact heq.symm
    · exact absurd hrest.lt (by omega)

/-- An advertisement: the saved prefix option decides. -/
theorem carriesOnly_advert {pkt : NetPacket} (hlen : pkt.ip.hostPayloadLen = 64)
    (hone : pkt.body.read 16 8 = fillOptionOne cfg iface) (htype : pkt.body 24 = 5)
    (hsize : pkt.body 25 = 1) (hsaved : ∀ i, 32 ≤ i → i < 64 → pkt.body i = savedPrefix info i) :
    CarriesOnly pkt (some 16) (cfg.ifMacucast iface.toNat) ↔
      ∀ m, CarriesMac (savedPrefix info) 64 32 m → m = cfg.ifMacucast iface.toNat := by
  have h64 : pkt.ip.hostPayloadLen.toNat = 64 := congrArg UInt16.toNat hlen
  have hoptions : ∀ m, CarriesMac pkt.body 64 16 m ↔
      cfg.ifMacucast iface.toNat = m ∨ CarriesMac (savedPrefix info) 64 32 m := by
    intro m
    have hsize' : (pkt.body (24 + 1)).toNat = 1 := congrArg UInt8.toNat hsize
    have hmtu : CarriesMac pkt.body 64 24 m ↔ CarriesMac pkt.body 64 32 m := by
      rw [carriesMac_iff (by rw [hsize]; decide) (by omega), hsize', htype]
      exact or_iff_right fun hor => absurd hor.1 (by decide)
    rw [carriesMac_optionOne hone (by omega), hmtu, carriesMac_congr hsaved]
  constructor
  · intro honly m hm
    refine honly 16 rfl m ?_
    rw [h64]
    exact (hoptions m).mpr (Or.inr hm)
  · intro hown off hoff m hm
    obtain rfl := Option.some.inj hoff
    rw [h64] at hm
    rcases (hoptions m).mp hm with heq | hrest
    · exact heq.symm
    · exact hown m hrest

/-- Validation leaves neighbour messages as they are. -/
theorem selfValid_unchanged (hrs : type ≠ routerS) (hra : type ≠ routerA)
    (h : selfValid cfg heap type packet = .ok (true, frame)) : packet = frame := by
  unfold selfValid at h
  rw [if_neg hrs, if_neg hra] at h
  split at h
  · split at h
    · cases h
    · exact (Prod.mk.inj (Except.ok.inj h)).2
  · split at h
    · split at h
      · cases h
      · exact (Prod.mk.inj (Except.ok.inj h)).2
    · exact (Prod.mk.inj (Except.ok.inj h)).2

/-- Validation lays its pseudo-header behind the options of an advertisement. -/
theorem written_routerA
    (hbuild : buildPacket cfg info stack routerA linkDest ipDest iface = .ok packet)
    (hvalid : selfValid cfg heap routerA packet = .ok (true, frame)) :
    (frame.netSrc = cfg.ifMacucast iface.toNat ∧
        CarriesOnly frame (some 16) (cfg.ifMacucast iface.toNat)) ↔
      ∀ m, CarriesMac (savedPrefix info) 64 32 m → m = cfg.ifMacucast iface.toNat := by
  obtain ⟨hsrc, hlen, hone, hfive, hsize, hsaved⟩ := buildPacket_routerA hbuild
  obtain rfl : frame = layPseudoHdr packet packet.ip.payloadLen.toNat := validAt_ok hvalid
  have hstart : packet.ip.payloadLen.toNat = 16384 := by
    rw [hlen]
    decide
  have hbody : ∀ i, i < 64 → (layPseudoHdr packet packet.ip.payloadLen.toNat).body i =
      packet.body i := fun i hi => body_layPseudoHdr (Or.inl (by omega))
  have hhost : (layPseudoHdr packet packet.ip.payloadLen.toNat).ip.hostPayloadLen = 64 := by
    show ntohs packet.ip.payloadLen = 64
    rw [hlen]
    exact ntohs_htons 64
  have hcarries := carriesOnly_advert hhost
    ((Mem.read_congr fun i _ hi => hbody i (by omega)).trans hone)
    ((hbody 24 (by omega)).trans hfive) ((hbody 25 (by omega)).trans hsize)
    (fun i hlow hhigh => (hbody i hhigh).trans (hsaved i hlow hhigh))
  exact (and_iff_right hsrc).trans hcarries

theorem written_neighbS (hprime : (UInt8.ofInt cfg.ifprime).toNat = cfg.ifprime.toNat)
    (hbuild : buildPacket cfg info stack neighbS linkDest ipDest iface = .ok packet) :
    (packet.netSrc = cfg.ifMacucast iface.toNat ∧
        CarriesOnly packet (some 24) (cfg.ifMacucast iface.toNat)) ↔
      cfg.ifMacucast cfg.ifprime.toNat = cfg.ifMacucast iface.toNat := by
  obtain ⟨hsrc, hlen, hoption⟩ := buildPacket_neighbS hbuild
  rw [← hprime]
  exact (and_iff_right hsrc).trans (carriesOnly_optionOne hlen hoption)

/-- What is written identifies its interface exactly when the condition on its options
holds. -/
theorem written_iff (hprime : (UInt8.ofInt cfg.ifprime).toNat = cfg.ifprime.toNat)
    (hbuild : buildPacket cfg info stack type linkDest ipDest iface = .ok packet)
    (hvalid : selfValid cfg heap type packet = .ok (true, frame)) :
    (frame.netSrc = cfg.ifMacucast iface.toNat ∧
        CarriesOnly frame (optionsStart type) (cfg.ifMacucast iface.toNat)) ↔
      OwnOptions cfg info type iface.toNat := by
  by_cases hra : type = routerA
  · subst hra
    exact written_routerA hbuild hvalid
  by_cases hrs : type = routerS
  · subst hrs
    obtain ⟨hsrc, hlen⟩ := buildPacket_routerS hbuild
    obtain rfl : frame = layPseudoHdr packet 4 := rsolicitValid_true hvalid
    exact iff_of_true ⟨hsrc, carriesOnly_of_short (Nat.le_of_eq (congrArg UInt16.toNat hlen))⟩
      trivial
  obtain rfl : packet = frame := selfValid_unchanged hrs hra hvalid
  by_cases hns : type = neighbS
  · subst hns
    exact written_neighbS hprime hbuild
  by_cases hna : type = neighbA
  · subst hna
    obtain ⟨hsrc, hlen⟩ := buildPacket_neighbA hbuild
    exact iff_of_true ⟨hsrc, carriesOnly_of_short (Nat.le_of_eq (congrArg UInt16.toNat hlen))⟩
      trivial
  have hstart : optionsStart type = none := by
    unfold optionsStart
    rw [if_neg hrs, if_neg hra, if_neg hns, if_neg hna]
  rw [hstart, and_iff_left (carriesOnly_none packet _)]
  by_cases her : type = echoReq
  · subst her
    exact iff_of_true (buildPacket_echoReq hbuild) trivial
  · have hclear : clearedPacket = packet := by
      unfold buildPacket at hbuild
      rw [if_neg hrs, if_neg hra, if_neg hns, if_neg hna, if_neg her] at hbuild
      exact Except.ok.inj hbuild
    unfold OwnOptions
    rw [← hclear, if_neg hra, if_neg hns, if_neg (by simp [hrs, hna, her])]
    exact eq_comm

end Written

/-! ## The five senders -/

/-- The frame of a call of `sendipv6pkt`. -/
def pktFrame (info : RouterInfo) (heap : Mem) (stack : List UInt8) (garbage : UInt32)
    (type : UInt8) (linkDest : MacAddr) (ipDest : Ipv6Addr) (iface : UInt8) (cfg : Config) :
    Except Fault (Option NetPacket) :=
  match sendipv6pkt cfg info heap stack garbage type linkDest ipDest iface with
  | .error f => .error f
  | .ok sent => .ok (sent.written.map Prod.fst)

section Senders

variable {cfg : Config} {i : Nat} {iface : UInt8}

theorem pktFrame_eq_some_iff {info : RouterInfo} {heap : Mem} {stack : List UInt8}
    {garbage : UInt32} {type : UInt8} {linkDest : MacAddr} {ipDest : Ipv6Addr} {frame : NetPacket} :
    pktFrame info heap stack garbage type linkDest ipDest iface cfg = .ok (some frame) ↔
      ¬ (type = routerA ∧ cfg.host = true) ∧
        ∃ packet, buildPacket cfg info stack type linkDest ipDest iface = .ok packet ∧
          selfValid cfg heap type packet = .ok (true, frame) := by
  unfold pktFrame sendipv6pkt
  by_cases hhost : type = routerA ∧ cfg.host = true
  · rw [if_pos hhost]
    simp [hhost]
  · rw [if_neg hhost]
    cases hbuild : buildPacket cfg info stack type linkDest ipDest iface with
    | error f => simp
    | ok packet =>
      rcases hvalid : selfValid cfg heap type packet with f | ⟨_ | _, packet'⟩
      · simp [hvalid]
      · simp [hvalid]
      · simp [hvalid, hhost]

theorem pktFrame_identifies_iff (hi : i < nifaces) (hiface : iface.toNat = i)
    (hlow : 0 ≤ cfg.ifprime) (hhigh : cfg.ifprime < nifaces) (info : RouterInfo) (heap : Mem)
    (stack : List UInt8) (garbage : UInt32) (type : UInt8) (linkDest : MacAddr)
    (ipDest : Ipv6Addr) :
    Identifies cfg i (optionsStart type)
        (pktFrame info heap stack garbage type linkDest ipDest iface) ↔
      Withheld cfg info heap stack type linkDest ipDest iface ∨ OwnOptions cfg info type i := by
  have hprime := toNat_ifprime hlow hhigh
  have hlt : cfg.ifprime.toNat < nifaces := by omega
  have hcongr : ∀ ifMac : Nat → MacAddr, (∀ j, j < nifaces → ifMac j = cfg.ifMacucast j) →
      pktFrame info heap stack garbage type linkDest ipDest iface
          { cfg with ifMacucast := ifMac } =
        pktFrame info heap stack garbage type linkDest ipDest iface cfg := by
    intro ifMac hmac
    unfold pktFrame
    rw [sendipv6pkt_congr info (hmac _ (hiface ▸ hi)) (hmac _ (hprime ▸ hlt))]
  subst hiface
  constructor
  · intro hid
    by_cases hheld : Withheld cfg info heap stack type linkDest ipDest iface
    · exact Or.inl hheld
    · obtain ⟨hhost, hbuilt⟩ := not_or.mp hheld
      simp only [not_forall, not_not] at hbuilt
      obtain ⟨packet, frame, hbuild, hvalid⟩ := hbuilt
      have hframe := hid cfg.ifMacucast (fun _ _ => rfl) frame
        (pktFrame_eq_some_iff.mpr ⟨hhost, packet, hbuild, hvalid⟩)
      exact Or.inr ((written_iff hprime hbuild hvalid).mp hframe)
  · rintro hcond ifMac hmac frame hframe
    rw [hcongr ifMac hmac] at hframe
    obtain ⟨hhost, packet, hbuild, hvalid⟩ := pktFrame_eq_some_iff.mp hframe
    rcases hcond with (hheld | hheld) | hown
    · exact absurd hheld hhost
    · exact absurd hvalid (hheld packet frame hbuild)
    · exact (written_iff hprime hbuild hvalid).mpr hown

/-- Both neighbour messages have the option of `ifprime`. -/
theorem sendNeighbour_identifies_iff (hi : i < nifaces) (hiface : iface.toNat = i)
    (hlow : 0 ≤ cfg.ifprime) (hhigh : cfg.ifprime < nifaces) (ra : RouterOptions)
    (type flags : UInt8) (ipSrc : Ipv6Addr) (macDest : MacAddr) (ipDest target : Ipv6Addr) :
    Identifies cfg i (some 24) (fun cfg => Except.map some (sendNeighbour cfg ipSrc macDest ipDest
        (neighbourMessage cfg ra type flags target) iface)) ↔
      cfg.ifMacucast cfg.ifprime.toNat = cfg.ifMacucast i := by
  have hprime := toNat_ifprime hlow hhigh
  have hlt : cfg.ifprime.toNat < nifaces := by omega
  subst hiface
  obtain ⟨ck, -, hsent⟩ := sendNeighbour_ok cfg ipSrc macDest ipDest
    (neighbourMessage cfg ra type flags target) iface
  have hoption : (neighbourFrame cfg ipSrc macDest ipDest
      (neighbourMessage cfg ra type flags target) iface ck).body.read 24 8 =
        fillOptionOne cfg (UInt8.ofInt cfg.ifprime) :=
    (Mem.read_store16_of_disjoint (by omega)).trans
      (neighbourMessage_read_option cfg ra type flags target)
  have honly : CarriesOnly (neighbourFrame cfg ipSrc macDest ipDest
      (neighbourMessage cfg ra type flags target) iface ck) (some 24) (cfg.ifMacucast iface.toNat) ↔
      cfg.ifMacucast cfg.ifprime.toNat = cfg.ifMacucast iface.toNat := by
    rw [← hprime]
    exact carriesOnly_optionOne (ntohs_htons 32) hoption
  constructor
  · intro hid
    exact honly.mp (hid cfg.ifMacucast (fun _ _ => rfl) _ (congrArg (Except.map some) hsent)).2
  · intro heq ifMac hmac frame hframe
    have hcongr : sendNeighbour { cfg with ifMacucast := ifMac } ipSrc macDest ipDest
        (neighbourMessage { cfg with ifMacucast := ifMac } ra type flags target) iface =
        sendNeighbour cfg ipSrc macDest ipDest (neighbourMessage cfg ra type flags target)
          iface := by
      unfold sendNeighbour
      rw [neighbourMessage_congr (hmac _ (hprime ▸ hlt)), fillEthernet_congr (hmac _ hi)]
    dsimp only at hframe
    rw [hcongr, hsent] at hframe
    obtain rfl := Option.some.inj (Except.ok.inj hframe)
    exact ⟨rfl, honly.mpr heq⟩

theorem frame_fwdIPDatagram {box : Box} {pkt : NetPacket} :
    (fwdIPDatagram cfg box pkt).frame =
      (lookupNDEntry box.nd (nextHopOf cfg box.fwd pkt.ip.dest).1).map fun j =>
        { pkt with
          netDst := (box.nd.get j).macAddr
          netSrc := cfg.ifMacucast (nextHopOf cfg box.fwd pkt.ip.dest).2.toNat
          netType := htons ethIPv6 } := by
  unfold fwdIPDatagram
  dsimp only
  split
  · rename_i hnone
    rw [hnone]
    rfl
  · rename_i j hsome
    rw [hsome]
    rfl

/-- A forwarded packet keeps the options it came with. -/
theorem fwdIPDatagram_identifies_iff (hi : i < nifaces) (box : Box) (pkt : NetPacket)
    (hroute : (nextHopOf cfg box.fwd pkt.ip.dest).2.toNat = i) :
    Identifies cfg i pkt.optionsStart (fun cfg => .ok (fwdIPDatagram cfg box pkt).frame) ↔
      lookupNDEntry box.nd (nextHopOf cfg box.fwd pkt.ip.dest).1 = none ∨
        CarriesOnly pkt pkt.optionsStart (cfg.ifMacucast i) := by
  subst hroute
  have hframe : ∀ ifMac : Nat → MacAddr,
      (fwdIPDatagram { cfg with ifMacucast := ifMac } box pkt).frame =
        (lookupNDEntry box.nd (nextHopOf cfg box.fwd pkt.ip.dest).1).map fun j =>
          { pkt with
            netDst := (box.nd.get j).macAddr
            netSrc := ifMac (nextHopOf cfg box.fwd pkt.ip.dest).2.toNat
            netType := htons ethIPv6 } :=
    fun _ => frame_fwdIPDatagram
  cases hl : lookupNDEntry box.nd (nextHopOf cfg box.fwd pkt.ip.dest).1 with
  | none =>
    refine iff_of_true (fun ifMac _ frame hwritten => ?_) (Or.inl rfl)
    exact nomatch ((hframe ifMac).trans (congrArg (Option.map _) hl)).symm.trans
      (Except.ok.inj hwritten)
  | some j =>
    rw [or_iff_right nofun]
    constructor
    · intro hid
      exact (hid cfg.ifMacucast (fun _ _ => rfl) _
        (congrArg Except.ok ((hframe cfg.ifMacucast).trans (congrArg (Option.map _) hl)))).2
    · intro honly ifMac hmac frame hwritten
      obtain rfl := Option.some.inj (((hframe ifMac).trans (congrArg (Option.map _) hl)).symm.trans
        (Except.ok.inj hwritten))
      exact ⟨hmac _ hi, honly⟩

/-- The frame of a call of `sendFragment` that returns. -/
def fragmentFrame (nd solicited : NDCache) (identif : UInt32) (d : Datagram)
    (payloadLenIpv6Header payloadLen fragOffset : UInt16) (nextHeader : UInt8) (mFlag : Bool)
    (pool : Ipv6BufPool) (cfg : Config) : Except Fault (Option NetPacket) :=
  .ok ((sendFragment cfg nd solicited identif d payloadLenIpv6Header payloadLen fragOffset
    nextHeader mFlag pool).bind fun r => r.1.written)

section Fragment

variable {nd solicited : NDCache} {identif : UInt32} {d : Datagram}
  {payloadLenIpv6Header payloadLen fragOffset : UInt16} {nextHeader : UInt8} {mFlag : Bool}
  {pool : Ipv6BufPool}

theorem fragmentFrame_eq_some_iff {frame : NetPacket} :
    fragmentFrame nd solicited identif d payloadLenIpv6Header payloadLen fragOffset nextHeader
        mFlag pool cfg = .ok (some frame) ↔
      pool.size ≠ 0 ∧ ∃ mac, fragmentMac nd solicited d.headers = some mac ∧
        fragmentPacket cfg identif d payloadLenIpv6Header payloadLen fragOffset nextHeader mFlag
          mac = frame := by
  unfold fragmentFrame sendFragment
  cases hget : pool.getbuf with
  | none =>
    have hempty := BufferPool.getbuf_eq_none_iff.mp hget
    simp [hempty]
  | some got =>
    have hsize := BufferPool.size_getbuf hget
    rw [and_iff_right (by omega)]
    cases fragmentMac nd solicited d.headers with
    | none => simp
    | some mac => simp

/-- A fragment never identifies an interface: its source lies behind the table. -/
theorem fragmentFrame_identifies_iff (i : Nat) :
    Identifies cfg i none (fragmentFrame nd solicited identif d payloadLenIpv6Header payloadLen
        fragOffset nextHeader mFlag pool) ↔
      pool.size = 0 ∨ fragmentMac nd solicited d.headers = none := by
  constructor
  · intro hid
    by_contra hsends
    obtain ⟨hbuffer, hmac⟩ := not_or.mp hsends
    obtain ⟨mac, hmac⟩ := Option.ne_none_iff_exists'.mp hmac
    obtain ⟨other, hother⟩ : ∃ other, other ≠ cfg.ifMacucast i := by
      by_cases hzero : Vector.replicate 6 0 = cfg.ifMacucast i
      · exact ⟨Vector.replicate 6 1, hzero ▸ by decide⟩
      · exact ⟨_, hzero⟩
    let behind : Nat → MacAddr := fun j => if j < nifaces then cfg.ifMacucast j else other
    exact hother (hid behind (fun j hj => if_pos hj) _
      (fragmentFrame_eq_some_iff.mpr ⟨hbuffer, mac, hmac, rfl⟩)).1
  · rintro hsilent ifMac - frame hwritten
    obtain ⟨hbuffer, mac, hmac, -⟩ := fragmentFrame_eq_some_iff.mp hwritten
    rcases hsilent with hempty | hnone
    · exact absurd hempty hbuffer
    · exact absurd (hmac.symm.trans hnone) nofun

end Fragment

end Senders

/-- Which frames identify the interface they leave by.  Of the neighbour messages those for
an interface with the address of `ifprime`; of what `sendipv6pkt` writes, all but
solicitations for another interface, advertisements that hand on another address in the
saved prefix option, and unknown types; of the forwarded packets those without foreign
addresses; of the fragments none that is written. -/
theorem identifies_iff {cfg : Config} {i : Nat} {iface : UInt8} (hi : i < nifaces)
    (hiface : iface.toNat = i) (hlow : 0 ≤ cfg.ifprime) (hhigh : cfg.ifprime < nifaces) :
    (∀ ra ipSrc macDest ipDest target,
      (Identifies cfg i (optionsStart neighbS)
          (fun cfg => Except.map some (sendNSOL cfg ra ipSrc macDest ipDest target iface)) ↔
        cfg.ifMacucast cfg.ifprime.toNat = cfg.ifMacucast i) ∧
      (Identifies cfg i (optionsStart neighbA)
          (fun cfg => Except.map some (sendNAD cfg ra ipSrc macDest ipDest target iface)) ↔
        cfg.ifMacucast cfg.ifprime.toNat = cfg.ifMacucast i)) ∧
    (∀ info heap stack garbage type linkDest ipDest,
      Identifies cfg i (optionsStart type)
          (pktFrame info heap stack garbage type linkDest ipDest iface) ↔
        Withheld cfg info heap stack type linkDest ipDest iface ∨ OwnOptions cfg info type i) ∧
    (∀ box pkt, (nextHopOf cfg box.fwd pkt.ip.dest).2.toNat = i →
      (Identifies cfg i pkt.optionsStart (fun cfg => .ok (fwdIPDatagram cfg box pkt).frame) ↔
        lookupNDEntry box.nd (nextHopOf cfg box.fwd pkt.ip.dest).1 = none ∨
          CarriesOnly pkt pkt.optionsStart (cfg.ifMacucast i))) ∧
    (∀ nd solicited identif d payloadLenIpv6Header payloadLen fragOffset nextHeader mFlag pool,
      Identifies cfg i none (fragmentFrame nd solicited identif d payloadLenIpv6Header payloadLen
          fragOffset nextHeader mFlag pool) ↔
        pool.size = 0 ∨ fragmentMac nd solicited d.headers = none) := by
  refine ⟨fun ra ipSrc macDest ipDest target => ⟨?_, ?_⟩, ?_, ?_, ?_⟩
  · exact sendNeighbour_identifies_iff hi hiface hlow hhigh ra neighbS 0 ipSrc macDest ipDest target
  · exact sendNeighbour_identifies_iff hi hiface hlow hhigh ra neighbA 96 ipSrc macDest ipDest
      target
  · exact pktFrame_identifies_iff hi hiface hlow hhigh
  · exact fun box pkt hroute => fwdIPDatagram_identifies_iff hi box pkt hroute
  · intros
    exact fragmentFrame_identifies_iff i

theorem identifies_primary :
    Identifies exampleConfig 0 (optionsStart neighbS) (fun cfg => Except.map some
      (sendNSOL cfg exampleOptions exampleConfig.linkLocal (Vector.replicate 6 0xA1) exampleHost
        exampleHost 0)) :=
  ((identifies_iff (by decide) rfl (by decide) (by decide)).1 exampleOptions
    exampleConfig.linkLocal (Vector.replicate 6 0xA1) exampleHost exampleHost).1.mpr rfl

/-- A solicitation on the first Othernet carries the address of the Ethernet. -/
theorem identifies_fails_othernet :
    ¬ Identifies exampleConfig 1 (optionsStart neighbS) (fun cfg => Except.map some
      (sendNSOL cfg exampleOptions exampleConfig.linkLocal (Vector.replicate 6 0xA1) exampleHost
        exampleHost 1)) := by
  intro hid
  have heq : exampleConfig.ifMacucast exampleConfig.ifprime.toNat = exampleConfig.ifMacucast 1 :=
    (sendNeighbour_identifies_iff (show 1 < nifaces by decide) rfl (by decide) (by decide)
      exampleOptions neighbS 0 exampleConfig.linkLocal (Vector.replicate 6 0xA1) exampleHost
      exampleHost).mp hid
  exact absurd heq (by decide)

end NatBox
