import NatBox.Output.SendIpv6Pkt

/-
The elements `fillOptions` reads and the bytes it writes.

Two lengths go to `fillICMP`: the number of types that its caller has put into an array, and the
bytes that their options take, which it knows itself.  For a router advertisement it passes the
second one on as the first.
-/

namespace NatBox

/-- What goes wrong in `fillOptions`: an element behind the array, a byte behind the packet. -/
inductive FillFault
  | overread
  | overrun
  deriving DecidableEq

/-- `fillOptions` over an array with an end, in a packet with one; with the place it stops
at. -/
def fillOptionsIn (cfg : Config) (ra : RouterOptions) (iface : UInt8) (optionTypes : List UInt8) :
    Nat → Nat → Nat → Nat → Mem → Except FillFault (Mem × Nat)
  | 0, _, off, _, pkt => .ok (pkt, off)
  | n + 1, i, off, length, pkt =>
    match optionTypes[i]? with
    | none => .error .overread
    | some type =>
      if type = 1 then
        if bodyLen < off + 8 then .error .overrun
        else fillOptionsIn cfg ra iface optionTypes n (i + 1) (off + 8) 8
          (pkt.write off (fillOptionOne cfg iface))
      else if type = 5 then
        if bodyLen < off + 8 then .error .overrun
        else fillOptionsIn cfg ra iface optionTypes n (i + 1) (off + 8) 8
          (pkt.write off (fillOptionMTU ra.mtu))
      else if type = 3 then
        if bodyLen < off + 32 then .error .overrun
        else fillOptionsIn cfg ra iface optionTypes n (i + 1) (off + 32) 32
          (pkt.write off ra.optionPrefixDefault.toList)
      else fillOptionsIn cfg ra iface optionTypes n (i + 1) (off + length) length pkt

/-- A call of `fillOptions` by `fillICMP`: the array that `sendipv6pkt` has passed, the number
that goes with it, where the options begin, and how many bytes of them the message counts. -/
structure OptionCall where
  optionTypes : List UInt8
  count : Nat
  start : Nat
  totalOptLen : Nat

/-- The call for a type of message, if there is one; a host sends no router advertisement. -/
def optionCall (cfg : Config) (type : UInt8) : Option OptionCall :=
  if type = routerA then if cfg.host then none else some ⟨[1, 5, 3], 48, radvertSize, 48⟩
  else if type = neighbS then some ⟨[1], 1, nsolSize, 8⟩
  else none

/-- The call reads no element behind the array, writes no byte behind the packet, and stops
where the message ends. -/
def OptionsFit (cfg : Config) (ra : RouterOptions) (iface : UInt8) (call : OptionCall) : Prop :=
  ∀ msg, ∃ msg', fillOptionsIn cfg ra iface call.optionTypes call.count 0 call.start 0 msg =
    .ok (msg', call.start + call.totalOptLen)

section Fill

variable {cfg : Config} {ra : RouterOptions} {iface : UInt8}

/-- Without a fault it is `fillOptions` over the first elements, whatever lies behind them. -/
theorem fillOptions_of_fillOptionsIn {optionTypes : List UInt8} {n i off length stop : Nat}
    {pkt pkt' : Mem} (stack : List UInt8)
    (h : fillOptionsIn cfg ra iface optionTypes n i off length pkt = .ok (pkt', stop)) :
    fillOptions cfg ra iface (((optionTypes ++ stack).drop i).take n) off length pkt = pkt' := by
  induction n generalizing i off length pkt with
  | zero =>
    obtain ⟨rfl, -⟩ := Prod.mk.inj (Except.ok.inj h)
    rw [List.take_zero]
    rfl
  | succ n ih =>
    rw [fillOptionsIn] at h
    cases htype : optionTypes[i]? with
    | none =>
      rw [htype] at h
      cases h
    | some type =>
      rw [htype] at h
      dsimp only at h
      obtain ⟨hi, hget⟩ := List.getElem?_eq_some_iff.mp htype
      have hi' : i < (optionTypes ++ stack).length := by
        rw [List.length_append]
        omega
      have hhead : ((optionTypes ++ stack).drop i).take (n + 1) =
          type :: ((optionTypes ++ stack).drop (i + 1)).take n := by
        rw [List.drop_eq_getElem_cons hi', List.take_succ_cons, List.getElem_append_left hi, hget]
      rw [hhead, fillOptions]
      split at h
      · next h1 =>
        rw [if_pos h1]
        split at h
        · cases h
        · exact ih h
      · next h1 =>
        rw [if_neg h1]
        split at h
        · next h5 =>
          rw [if_pos h5]
          split at h
          · cases h
          · exact ih h
        · next h5 =>
          rw [if_neg h5]
          split at h
          · next h3 =>
            rw [if_pos h3]
            split at h
            · cases h
            · exact ih h
          · next h3 =>
            rw [if_neg h3]
            exact ih h

/-- A call with more elements than the array has reads behind it, or stops before. -/
theorem fillOptionsIn_overread {optionTypes : List UInt8} {n i off length : Nat} {pkt : Mem}
    (h : optionTypes.length < i + n) (hi : i ≤ optionTypes.length) :
    ∃ f, fillOptionsIn cfg ra iface optionTypes n i off length pkt = .error f := by
  induction n generalizing i off length pkt with
  | zero => omega
  | succ n ih =>
    rw [fillOptionsIn]
    cases htype : optionTypes[i]? with
    | none => exact ⟨_, rfl⟩
    | some type =>
      have hlt := (List.getElem?_eq_some_iff.mp htype).1
      dsimp only
      split
      · split
        · exact ⟨_, rfl⟩
        · exact ih (by omega) hlt
      · split
        · split
          · exact ⟨_, rfl⟩
          · exact ih (by omega) hlt
        · split
          · split
            · exact ⟨_, rfl⟩
            · exact ih (by omega) hlt
          · exact ih (by omega) hlt

end Fill

/-- The size of a message of some type without its options. -/
def fixedSize (type : UInt8) : Nat :=
  if type = routerS then 8
  else if type = routerA then radvertSize
  else if type = neighbS then nsolSize
  else if type = neighbA then 24
  else 8

section Build

variable (cfg : Config) (info : RouterInfo) (type : UInt8) (linkDest : MacAddr)
  (ipDest : Ipv6Addr) (iface : UInt8)

/-- What the header states and the checksum covers is the fixed part and the options of the
call, which are filled in over the array with `stack` behind it. -/
def BuildsWith (call : OptionCall) : Prop :=
  ∃ (packet : NetPacket) (optionIface : UInt8),
    packet.ip.hostPayloadLen.toNat = fixedSize type + call.totalOptLen ∧
    ∀ stack, buildPacket cfg info stack type linkDest ipDest iface =
      fillChecksum
        { packet with
          body := fillOptions cfg info.toRouterOptions optionIface
            ((call.optionTypes ++ stack).take call.count) call.start 0 packet.body }
        (UInt32.ofNat (fixedSize type + call.totalOptLen))

/-- A message without options: its header states the fixed part, and nothing of the stack gets
into it. -/
def BuildsWithout : Prop :=
  ∃ packet : NetPacket, packet.ip.hostPayloadLen.toNat = fixedSize type ∧
    ∀ stack, buildPacket cfg info stack type linkDest ipDest iface = .ok packet ∨
      buildPacket cfg info stack type linkDest ipDest iface =
        fillChecksum packet (UInt32.ofNat (fixedSize type))

variable {cfg info type linkDest ipDest iface}

theorem buildsWith {call : OptionCall} (h : optionCall cfg type = some call) :
    BuildsWith cfg info type linkDest ipDest iface call := by
  unfold optionCall at h
  by_cases hra : type = routerA
  · subst hra
    rw [if_pos rfl] at h
    by_cases hhost : cfg.host = true
    · rw [if_pos hhost] at h
      cases h
    · rw [if_neg hhost] at h
      obtain rfl := Option.some.inj h
      let packet := fillIPdatagram (fillEthernet cfg clearedPacket linkDest iface) cfg.linkLocal
        cfg.allnIPmulti 64 ipv6Icmp
      refine ⟨{ packet with
        body := ((packet.body.write 0 [routerA]).write 0 info.radvertFromRouter.toList).store16 2
          0 }, iface, congrArg UInt16.toNat (ntohs_htons 64), fun stack => rfl⟩
  · rw [if_neg hra] at h
    by_cases hns : type = neighbS
    · subst hns
      rw [if_pos rfl] at h
      obtain rfl := Option.some.inj h
      let packet := fillIPdatagram (fillEthernet cfg clearedPacket linkDest iface) cfg.ipv6Addr
        ipDest 32 ipv6Icmp
      refine ⟨{ packet with
        body := (((packet.body.write 0 [neighbS]).write 0 [neighbS, 0]).store16 2 0).write 8
          info.routerLinkLocal.toList }, UInt8.ofInt cfg.ifprime,
        congrArg UInt16.toNat (ntohs_htons 32), fun stack => rfl⟩
    · rw [if_neg hns] at h
      cases h

theorem buildsWithout (htype : type = routerS ∨ type = neighbA ∨ type = echoReq) :
    BuildsWithout cfg info type linkDest ipDest iface := by
  rcases htype with rfl | rfl | rfl
  · let packet := fillIPdatagram (fillEthernet cfg clearedPacket linkDest iface) unspecified
      cfg.allrIPmulti 8 ipv6Icmp
    exact ⟨{ packet with body := packet.body.write 0 [routerS] },
      congrArg UInt16.toNat (ntohs_htons 8), fun stack => Or.inr rfl⟩
  · exact ⟨fillIPdatagram (fillEthernet cfg clearedPacket linkDest iface) cfg.ipv6Addr ipDest 24
      ipv6Icmp, congrArg UInt16.toNat (ntohs_htons 24), fun stack => Or.inl rfl⟩
  · let packet := fillIPdatagram (fillEthernet cfg clearedPacket info.routerMacAddr iface)
      cfg.ipv6Addr ipDest 8 ipv6Icmp
    exact ⟨{ packet with
      body := ((packet.body.write 0 [echoReq]).store16 4 (htons 15)).store16 6 (htons 15) },
      congrArg UInt16.toNat (ntohs_htons 8), fun stack => Or.inr rfl⟩

/-- `fillOptionsIn` is `fillOptions` where it does not stop, and the options that `sendipv6pkt`
has filled in are those of the array, as many bytes as the message counts, exactly if it sends
no router advertisement. -/
theorem optionFill_matches_iff (cfg : Config) (info : RouterInfo) (type : UInt8)
    (linkDest : MacAddr) (ipDest : Ipv6Addr) (iface : UInt8) :
    (∀ (call : OptionCall) optionIface msg msg' stop, fillOptionsIn cfg info.toRouterOptions
        optionIface call.optionTypes call.count 0 call.start 0 msg = .ok (msg', stop) →
      ∀ stack, fillOptions cfg info.toRouterOptions optionIface
        ((call.optionTypes ++ stack).take call.count) call.start 0 msg = msg') ∧
    (∀ call, optionCall cfg type = some call →
      BuildsWith cfg info type linkDest ipDest iface call) ∧
    (type = routerS ∨ type = neighbA ∨ type = echoReq →
      BuildsWithout cfg info type linkDest ipDest iface) ∧
    (type = routerA ∧ cfg.host = true → ∀ heap stack garbage,
      sendipv6pkt cfg info heap stack garbage type linkDest ipDest iface = .ok ⟨0, none⟩) ∧
    ((∀ call optionIface, optionCall cfg type = some call →
        OptionsFit cfg info.toRouterOptions optionIface call) ↔
      type ≠ routerA ∨ cfg.host = true) := by
  refine ⟨?_, fun call h => buildsWith h, buildsWithout, ?_, ?_⟩
  · intro call optionIface msg msg' stop h stack
    have hfill := fillOptions_of_fillOptionsIn stack h
    rwa [List.drop_zero] at hfill
  · intro h heap stack garbage
    rw [sendipv6pkt, if_pos h]
  · unfold optionCall
    constructor
    · intro h
      by_contra hboth
      push Not at hboth
      obtain ⟨htype, hhost⟩ := hboth
      rw [if_pos htype, if_neg hhost] at h
      obtain ⟨msg', hok⟩ := h _ iface rfl fun _ => 0
      have hover : ∃ f, fillOptionsIn cfg info.toRouterOptions iface [1, 5, 3] 48 0 radvertSize 0
          (fun _ => 0) = .error f := fillOptionsIn_overread (by decide) (by decide)
      obtain ⟨f, hf⟩ := hover
      rw [hf] at hok
      cases hok
    · intro h call optionIface hcall
      by_cases hra : type = routerA
      · rw [if_pos hra, if_pos (h.resolve_left (not_not.mpr hra))] at hcall
        cases hcall
      · rw [if_neg hra] at hcall
        by_cases hns : type = neighbS
        · rw [if_pos hns] at hcall
          obtain rfl := Option.some.inj hcall
          exact fun msg => ⟨_, rfl⟩
        · rw [if_neg hns] at hcall
          cases hcall

end Build

/-- The call for a router advertisement reads the stack behind the array. -/
theorem optionFill_overreads :
    optionCall exampleConfig routerA = some ⟨[1, 5, 3], 48, radvertSize, 48⟩ ∧
    fillOptionsIn exampleConfig exampleOptions 0 [1, 5, 3] 48 0 radvertSize 0 (fun _ => 0) =
      .error .overread :=
  ⟨rfl, rfl⟩

end NatBox
