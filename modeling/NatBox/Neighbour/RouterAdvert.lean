import NatBox.Output.SendIpv6Pkt

/-
Receiving a router advertisement: `radvert_handler` and the `ROUTERA` case of `icmpv6_in`.

The options are walked by their length bytes.  A length is sign-extended, and the bound of
the walk is what the payload length leaves after 16 is subtracted without a sign.  Besides
the variables they set, the functions return the list of their accesses: what is read of the
message as an option, and what is copied where.
-/

namespace NatBox

/-- The destinations of the copies, with the block `res` on the stack. -/
inductive Destination
  | radvertFromRouter
  | routerMacAddr
  | mtu
  | prefixIpv6Default
  | optionPrefixDefault
  | ipv6Addr
  | hasIPv6Addr
  | routerIpAddr
  | routerLinkLocal
  | res
  | routerSnmAddr
  | routerMacSnm
  | routerLinkLocalMac
  deriving DecidableEq

def Destination.size : Destination → Nat
  | radvertFromRouter => 16
  | routerMacAddr => 6
  | mtu => 4
  | prefixIpv6Default => 17
  | optionPrefixDefault => 32
  | ipv6Addr => 16
  | hasIPv6Addr => 1
  | routerIpAddr => 16
  | routerLinkLocal => 16
  | res => 16
  | routerSnmAddr => 16
  | routerMacSnm => 6
  | routerLinkLocalMac => 6

/-- An access to memory: bytes read as an option, by their offset in the message, or bytes
written to a variable. -/
inductive Access
  | option (off len : Nat)
  | copy (dest : Destination) (off len : Nat)
  deriving DecidableEq

/-- The variables that an advertisement sets.  A copy that passes the end of one is here the
bytes of it that fit. -/
structure RouterRecord extends RouterInfo where
  prefixIpv6Default : Ipv6Addr
  prefixLength : UInt8
  ipv6Addr : Ipv6Addr
  hasIPv6Addr : Bool
  routerIpAddr : Ipv6Addr
  routerSnmAddr : Ipv6Addr
  routerMacSnm : MacAddr
  routerLinkLocalMac : MacAddr

/-- The first half of one address and the last half of another. -/
def joinHalves (upper lower : Ipv6Addr) : Ipv6Addr :=
  Vector.ofFn fun i => if i.val < 8 then upper[i] else lower[i]

/-- The variables as they are before the first advertisement. -/
def bssRecord : RouterRecord where
  mtu := 0
  optionPrefixDefault := Vector.replicate 32 0
  radvertFromRouter := Vector.replicate 16 0
  routerLinkLocal := unspecified
  routerMacAddr := Vector.replicate 6 0
  prefixIpv6Default := unspecified
  prefixLength := 0
  ipv6Addr := unspecified
  hasIPv6Addr := false
  routerIpAddr := unspecified
  routerSnmAddr := unspecified
  routerMacSnm := Vector.replicate 6 0
  routerLinkLocalMac := Vector.replicate 6 0

section Handler

variable (linkLocal : Ipv6Addr) (msg : Mem)

/-- `curr_option_len_octets`: the length byte is a `char`. -/
def optionOctets (option : Nat) : UInt16 := (msg (option + 1)).toInt8.toInt16.toUInt16

/-- `get_router_link_addr` -/
def getRouterLinkAddr (option : Nat) (r : RouterRecord) : UInt16 × RouterRecord × List Access :=
  let octets := optionOctets msg option
  let optionPayloadLen := (octets * 8 - 2).toNat
  (octets * 8, { r with routerMacAddr := macAt msg (option + 2) },
    [.option (option + 1) 1, .option (option + 2) optionPayloadLen,
      .copy .routerMacAddr 0 optionPayloadLen])

/-- `get_MTU` -/
def getMTU (option : Nat) (r : RouterRecord) : UInt16 × RouterRecord × List Access :=
  (optionOctets msg option * 8, { r with mtu := ntohl (msg.load32 (option + 4)) },
    [.option (option + 1) 1, .option (option + 4) 4, .copy .mtu 0 4])

/-- `get_prefix_default` -/
def getPrefixDefault (option : Nat) (r : RouterRecord) :
    UInt16 × RouterRecord × List Access :=
  let prefixIpv6 := addrAt msg (option + 16)
  (optionOctets msg option * 8,
    { r with
      prefixIpv6Default := prefixIpv6
      prefixLength := msg (option + 2)
      optionPrefixDefault := Vector.ofFn fun i => msg (option + i)
      ipv6Addr := joinHalves prefixIpv6 linkLocal
      hasIPv6Addr := true },
    [.option (option + 1) 1, .copy .prefixIpv6Default 0 16, .option (option + 16) 16,
      .copy .prefixIpv6Default 0 16, .option (option + 2) 1, .copy .prefixIpv6Default 16 1,
      .option option 32, .copy .optionPrefixDefault 0 32, .copy .ipv6Addr 0 16,
      .copy .ipv6Addr 8 8, .copy .hasIPv6Addr 0 1])

/-- The body of the loop, with the option at its offset in the message. -/
def readOption (optionsLen : UInt32) (option : Nat) (r : RouterRecord) :
    UInt16 × RouterRecord × List Access :=
  if msg option = 1 then getRouterLinkAddr msg option r
  else if msg option = 3 then getPrefixDefault linkLocal msg option r
  else if msg option = 5 then getMTU msg option r
  else (optionsLen.toUInt16, r, [])

/- `i` is an `int`.  An option that does not stop the loop moves it by eight bytes or more,
so a run that uses up its fuel has come back to the same option. -/
def radvertLoop (optionsLen : UInt32) :
    Nat → Nat → RouterRecord → List Access → Except Fault RouterRecord × List Access
  | 0, _, _, accesses => (.error .endlessLoop, accesses)
  | fuel + 1, i, r, accesses =>
    if i < optionsLen.toNat then
      match readOption linkLocal msg optionsLen (radvertSize + i) r with
      | (currOptionLen, r, more) =>
        let accesses := accesses ++ .option (radvertSize + i) 1 :: more
        if i + currOptionLen.toNat < 2 ^ 31 then
          radvertLoop optionsLen fuel (i + currOptionLen.toNat) r accesses
        else (.error .intOverflow, accesses)
    else (.ok r, accesses)

/-- `radvert_handler` -/
def radvertHandler (ipPayloadLen : UInt32) (r : RouterRecord) :
    Except Fault RouterRecord × List Access :=
  radvertLoop linkLocal msg (ipPayloadLen - 16) (2 ^ 28 + 1) 0
    { r with radvertFromRouter := Vector.ofFn fun i => msg i } [.copy .radvertFromRouter 0 16]

end Handler

/-- What the `ROUTERA` case copies once the handler has come back. -/
def routerCopies : List Access :=
  [.copy .routerIpAddr 0 16, .copy .routerIpAddr 8 16, .copy .routerLinkLocal 0 16,
    .copy .routerLinkLocal 0 2, .copy .routerLinkLocal 8 16, .copy .res 0 16, .copy .res 0 2,
    .copy .res 11 2, .copy .res 13 3, .copy .routerSnmAddr 0 16, .copy .res 0 6, .copy .res 0 2,
    .copy .res 2 4, .copy .routerMacSnm 0 6, .copy .res 2 4, .copy .routerLinkLocalMac 0 6]

/-- The addresses that the `ROUTERA` case makes of the source of the advertisement. -/
def setRouterAddresses (src : Ipv6Addr) (r : RouterRecord) : RouterRecord :=
  let linkLocal := joinHalves (unspecified.set 0 0xFE |>.set 1 0x80) src
  let snm : Ipv6Addr := #v[0xFF, 0x02, 0, 0, 0, 0, 0, 0, 0, 0, 0, 0x01, 0xFF,
    linkLocal[13], linkLocal[14], linkLocal[15]]
  { r with
    routerIpAddr := joinHalves r.prefixIpv6Default src
    routerLinkLocal := linkLocal
    routerSnmAddr := snm
    routerMacSnm := #v[0x33, 0x33, snm[12], snm[13], snm[14], snm[15]]
    routerLinkLocalMac :=
      #v[0x33, 0x33, linkLocal[12], linkLocal[13], linkLocal[14], linkLocal[15]] }

/-- The box drops an advertisement that is not from its default router; a host does not look
where it comes from. -/
def dropsRadvert (host : Bool) (pkt : NetPacket) : Bool :=
  !host && !matchBytes pkt.netSrc defaultRouterMac 6

/-- The `ROUTERA` case of `icmpv6_in` up to the advertisements it sends on. -/
def radvertIn (host : Bool) (linkLocal : Ipv6Addr) (pkt : NetPacket) (r : RouterRecord) :
    Except Fault RouterRecord × List Access :=
  match radvertValid pkt with
  | .error f => (.error f, [])
  | .ok (false, _) => (.ok r, [])
  | .ok (true, pkt) =>
    if dropsRadvert host pkt then (.ok r, [])
    else
      match radvertHandler linkLocal pkt.body pkt.ip.hostPayloadLen.toUInt32 r with
      | (.error f, accesses) => (.error f, accesses)
      | (.ok r, accesses) => (.ok (setRouterAddresses pkt.ip.src r), accesses ++ routerCopies)

/-! ## The walk -/

/-- The types of the options that the loop knows. -/
def KnownOption (type : UInt8) : Prop := type = 1 ∨ type = 3 ∨ type = 5

instance (type : UInt8) : Decidable (KnownOption type) := inferInstanceAs (Decidable (_ ∨ _))

/-- The offsets of the option area that the loop comes to by the lengths of known options. -/
inductive OptionReached (msg : Mem) (optionsLen : Nat) : Nat → Prop
  | first : OptionReached msg optionsLen 0
  | next {i : Nat} : OptionReached msg optionsLen i → i < optionsLen →
      KnownOption (msg (radvertSize + i)) →
      OptionReached msg optionsLen (i + (optionOctets msg (radvertSize + i) * 8).toNat)

theorem signed_octets : ∀ b : Fin 256,
    let octets := (UInt8.ofFin b).toInt8.toInt16.toUInt16
    ((octets * 8).toNat = 0 ↔ UInt8.ofFin b = 0) ∧
      ((octets * 8).toNat = 0 ∨ 8 ≤ (octets * 8).toNat) ∧
      ((octets * 8 - 2).toNat ≤ 6 ↔ UInt8.ofFin b = 1) ∧
      (UInt8.ofFin b = 1 → (octets * 8 - 2).toNat = 6) := by
  decide +kernel

section Walk

variable {linkLocal : Ipv6Addr} {msg : Mem} {optionsLen : UInt32} {i fuel : Nat}
  {r r' : RouterRecord} {accesses : List Access}

theorem optionStep_eq_zero_iff (msg : Mem) (option : Nat) :
    (optionOctets msg option * 8).toNat = 0 ↔ msg (option + 1) = 0 :=
  (signed_octets (msg (option + 1)).toFin).1

theorem optionStep_cases (msg : Mem) (option : Nat) :
    (optionOctets msg option * 8).toNat = 0 ∨ 8 ≤ (optionOctets msg option * 8).toNat :=
  (signed_octets (msg (option + 1)).toFin).2.1

theorem readOption_known (htype : KnownOption (msg i)) :
    (readOption linkLocal msg optionsLen i r).1 = optionOctets msg i * 8 := by
  unfold readOption
  rcases htype with h | h | h <;> rw [h] <;> rfl

theorem readOption_other (htype : ¬ KnownOption (msg i)) :
    readOption linkLocal msg optionsLen i r = (optionsLen.toUInt16, r, []) := by
  unfold KnownOption at htype
  unfold readOption
  rw [if_neg fun h => htype (Or.inl h), if_neg fun h => htype (Or.inr (Or.inl h)),
    if_neg fun h => htype (Or.inr (Or.inr h))]

/-- One round. -/
theorem radvertLoop_succ (hi : i < optionsLen.toNat) :
    radvertLoop linkLocal msg optionsLen (fuel + 1) i r accesses =
      let read := readOption linkLocal msg optionsLen (radvertSize + i) r
      if i + read.1.toNat < 2 ^ 31 then
        radvertLoop linkLocal msg optionsLen fuel (i + read.1.toNat) read.2.1
          (accesses ++ .option (radvertSize + i) 1 :: read.2.2)
      else (.error .intOverflow, accesses ++ .option (radvertSize + i) 1 :: read.2.2) := by
  rw [radvertLoop, if_pos hi]

theorem radvertLoop_done (hi : ¬ i < optionsLen.toNat) :
    radvertLoop linkLocal msg optionsLen (fuel + 1) i r accesses = (.ok r, accesses) := by
  rw [radvertLoop, if_neg hi]

/-- What was accessed stays in the list. -/
theorem subset_radvertLoop :
    accesses ⊆ (radvertLoop linkLocal msg optionsLen fuel i r accesses).2 := by
  induction fuel generalizing i r accesses with
  | zero => exact fun _ h => h
  | succ fuel ih =>
    by_cases hi : i < optionsLen.toNat
    · rw [radvertLoop_succ hi]
      dsimp only
      split
      · exact fun a h => ih (List.mem_append_left _ h)
      · exact fun a h => List.mem_append_left _ h
    · rw [radvertLoop_done hi]
      exact fun _ h => h

/-- A run that comes back does so with more fuel. -/
theorem radvertLoop_add (more : Nat)
    (h : (radvertLoop linkLocal msg optionsLen fuel i r accesses).1 = .ok r') :
    (radvertLoop linkLocal msg optionsLen (fuel + more) i r accesses).1 = .ok r' := by
  induction fuel generalizing i r accesses with
  | zero => cases h
  | succ fuel ih =>
    rw [Nat.add_right_comm]
    by_cases hi : i < optionsLen.toNat
    · rw [radvertLoop_succ hi] at h ⊢
      dsimp only at h ⊢
      split at h
      · next hnext =>
        rw [if_pos hnext]
        exact ih h
      · cases h
    · rw [radvertLoop_done hi] at h ⊢
      exact h

/-- A bound from `2 ^ 31` on is above every value of the index. -/
theorem radvertLoop_wide (hwide : 2 ^ 31 ≤ optionsLen.toNat) (hi : i < 2 ^ 31) :
    (radvertLoop linkLocal msg optionsLen fuel i r accesses).1 ≠ .ok r' := by
  induction fuel generalizing i r accesses with
  | zero => exact fun h => nomatch h
  | succ fuel ih =>
    rw [radvertLoop_succ (by omega)]
    dsimp only
    split
    · next hnext => exact ih hnext
    · exact fun h => nomatch h

/-- An option of no length holds the loop. -/
theorem radvertLoop_stalls (hi : i < optionsLen.toNat)
    (htype : KnownOption (msg (radvertSize + i))) (hzero : msg (radvertSize + i + 1) = 0) :
    (radvertLoop linkLocal msg optionsLen fuel i r accesses).1 ≠ .ok r' := by
  induction fuel generalizing r accesses with
  | zero => exact fun h => nomatch h
  | succ fuel ih =>
    have hstep := (optionStep_eq_zero_iff msg (radvertSize + i)).mpr hzero
    rw [radvertLoop_succ hi]
    dsimp only
    rw [readOption_known htype, hstep]
    split
    · exact ih
    · exact fun h => nomatch h

/-- The loop comes to every offset that is reached, with enough fuel left. -/
theorem radvertLoop_passes {j : Nat} (hlen : optionsLen.toNat < 65536)
    (hreached : OptionReached msg optionsLen.toNat j) (hfuel : j ≤ 8 * fuel) :
    ∃ fuel' r' accesses', fuel ≤ fuel' + j / 8 ∧
      radvertLoop linkLocal msg optionsLen fuel 0 r accesses =
        radvertLoop linkLocal msg optionsLen fuel' j r' accesses' := by
  induction hreached with
  | first => exact ⟨fuel, r, accesses, Nat.le_refl _, rfl⟩
  | @next i hreached hi htype ih =>
    have hstep := optionStep_cases msg (radvertSize + i)
    have hlt := (optionOctets msg (radvertSize + i) * 8).toNat_lt
    obtain ⟨fuel', r', accesses', hleft, heq⟩ := ih (by omega)
    rcases hstep with hzero | hstep
    · rw [hzero, Nat.add_zero]
      exact ⟨fuel', r', accesses', hleft, heq⟩
    · cases fuel' with
      | zero => omega
      | succ fuel' =>
        rw [radvertLoop_succ hi] at heq
        dsimp only at heq
        rw [readOption_known htype, if_pos (by omega)] at heq
        exact ⟨fuel', _, _, by omega, heq⟩

/-- With a bound that is no wrapped difference the loop comes back, or is held by an option
of no length. -/
theorem radvertLoop_spec (hlen : optionsLen.toNat < 65536)
    (hreached : OptionReached msg optionsLen.toNat i ∨ optionsLen.toNat ≤ i) (hi : i < 2 ^ 31)
    (hfuel : optionsLen.toNat + 8 ≤ i + 8 * fuel) (hpos : 0 < fuel) :
    (∃ r', (radvertLoop linkLocal msg optionsLen fuel i r accesses).1 = .ok r') ∨
      ∃ j, OptionReached msg optionsLen.toNat j ∧ j < optionsLen.toNat ∧
        KnownOption (msg (radvertSize + j)) ∧ msg (radvertSize + j + 1) = 0 := by
  induction fuel generalizing i r accesses with
  | zero => cases hpos
  | succ fuel ih =>
    by_cases hin : i < optionsLen.toNat
    · have hhere := hreached.resolve_right (Nat.not_le.mpr hin)
      rw [radvertLoop_succ hin]
      dsimp only
      by_cases htype : KnownOption (msg (radvertSize + i))
      · rw [readOption_known htype]
        have hlt := (optionOctets msg (radvertSize + i) * 8).toNat_lt
        rcases optionStep_cases msg (radvertSize + i) with hzero | hstep
        · exact Or.inr ⟨i, hhere, hin, htype, (optionStep_eq_zero_iff _ _).mp hzero⟩
        · rw [if_pos (by omega)]
          exact ih (Or.inl (hhere.next hin htype)) (by omega) (by omega) (by omega)
      · -- the step is the whole option area
        have hstep : optionsLen.toUInt16.toNat = optionsLen.toNat := by
          rw [UInt32.toNat_toUInt16]
          omega
        rw [readOption_other htype, hstep, if_pos (by omega)]
        exact ih (Or.inr (Nat.le_add_left _ _)) (by omega) (by omega) (by omega)
    · rw [radvertLoop_done hin]
      exact Or.inl ⟨r, rfl⟩

/-- Nothing is accessed but at the offsets that are reached. -/
theorem mem_radvertLoop {a : Access} (hlen : optionsLen.toNat < 65536)
    (hreached : OptionReached msg optionsLen.toNat i ∨ optionsLen.toNat ≤ i)
    (ha : a ∈ (radvertLoop linkLocal msg optionsLen fuel i r accesses).2) :
    a ∈ accesses ∨ ∃ j r', OptionReached msg optionsLen.toNat j ∧ j < optionsLen.toNat ∧
      a ∈ .option (radvertSize + j) 1 ::
        (readOption linkLocal msg optionsLen (radvertSize + j) r').2.2 := by
  induction fuel generalizing i r accesses with
  | zero => exact Or.inl ha
  | succ fuel ih =>
    by_cases hin : i < optionsLen.toNat
    · have hhere := hreached.resolve_right (Nat.not_le.mpr hin)
      have hround : ∀ {as : List Access}, as = accesses ++ .option (radvertSize + i) 1 ::
          (readOption linkLocal msg optionsLen (radvertSize + i) r).2.2 → a ∈ as →
          a ∈ accesses ∨ ∃ j r', OptionReached msg optionsLen.toNat j ∧ j < optionsLen.toNat ∧
            a ∈ .option (radvertSize + j) 1 ::
              (readOption linkLocal msg optionsLen (radvertSize + j) r').2.2 := by
        rintro as rfl has
        exact (List.mem_append.mp has).imp_right fun h => ⟨i, r, hhere, hin, h⟩
      rw [radvertLoop_succ hin] at ha
      dsimp only at ha
      split at ha
      · have hnext : OptionReached msg optionsLen.toNat (i +
            (readOption linkLocal msg optionsLen (radvertSize + i) r).1.toNat) ∨
            optionsLen.toNat ≤ i +
              (readOption linkLocal msg optionsLen (radvertSize + i) r).1.toNat := by
          by_cases htype : KnownOption (msg (radvertSize + i))
          · rw [readOption_known htype]
            exact Or.inl (hhere.next hin htype)
          · rw [readOption_other htype]
            refine Or.inr ?_
            rw [UInt32.toNat_toUInt16]
            omega
        rcases ih hnext ha with has | hlater
        · exact hround rfl has
        · exact Or.inr hlater
      · exact hround rfl ha
    · rw [radvertLoop_done hin] at ha
      exact Or.inl ha

end Walk

/-! ## The handler -/

section Handler

variable {linkLocal : Ipv6Addr} {msg : Mem} {len : UInt16} {r : RouterRecord}

theorem toNat_optionsLen (hlen : 16 ≤ len.toNat) :
    (len.toUInt32 - 16).toNat = len.toNat - 16 := by
  rw [UInt32.toNat_sub_of_le _ _ (UInt32.le_iff_toNat_le.mpr (by
    rw [UInt16.toNat_toUInt32]
    exact hlen)), UInt16.toNat_toUInt32]
  rfl

theorem toNat_optionsLen_wrapped (hlen : len.toNat < 16) :
    (len.toUInt32 - 16).toNat = 2 ^ 32 - 16 + len.toNat := by
  rw [UInt32.toNat_sub, UInt16.toNat_toUInt32]
  show (4294967296 - 16 + _) % 4294967296 = _
  omega

theorem isOk_iff {α ε : Type} {x : Except ε α} : x.isOk = true ↔ ∃ a, x = .ok a := by
  cases x with
  | error e => exact iff_of_false Bool.false_ne_true fun ⟨_, h⟩ => nomatch h
  | ok a => exact iff_of_true rfl ⟨a, rfl⟩

/-- The loop comes to every option that is reached. -/
theorem radvertLoop_comes {i fuel : Nat} {accesses : List Access} (hlen : 16 ≤ len.toNat)
    (hfuel : 2 ^ 28 < fuel) (hreached : OptionReached msg (len.toNat - 16) i)
    (hi : i < len.toNat - 16) :
    ∃ fuel' r₁ accesses', radvertLoop linkLocal msg (len.toUInt32 - 16) fuel 0 r accesses =
      radvertLoop linkLocal msg (len.toUInt32 - 16) (fuel' + 1) i r₁ accesses' := by
  have hsize := toNat_optionsLen hlen
  have hlt := len.toNat_lt
  rw [← hsize] at hreached
  obtain ⟨fuel', r₁, accesses', hleft, heq⟩ := radvertLoop_passes (by omega) hreached
    (show i ≤ 8 * fuel by omega)
  cases fuel' with
  | zero => omega
  | succ fuel' => exact ⟨fuel', r₁, accesses', heq⟩

theorem radvertLoop_isOk_iff {fuel : Nat} {accesses : List Access} (hfuel : 2 ^ 28 < fuel) :
    (radvertLoop linkLocal msg (len.toUInt32 - 16) fuel 0 r accesses).1.isOk = true ↔
      16 ≤ len.toNat ∧
        ∀ i, OptionReached msg (len.toNat - 16) i → i < len.toNat - 16 →
          KnownOption (msg (16 + i)) → msg (16 + i + 1) ≠ 0 := by
  rw [isOk_iff]
  by_cases hlen : 16 ≤ len.toNat
  · have hsize := toNat_optionsLen hlen
    have hlt := len.toNat_lt
    constructor
    · rintro ⟨r', hr'⟩
      refine ⟨hlen, fun i hreached hi htype hzero => ?_⟩
      obtain ⟨fuel', r₁, accesses', heq⟩ := radvertLoop_comes hlen hfuel hreached hi
      rw [heq] at hr'
      exact radvertLoop_stalls (by omega) htype hzero hr'
    · rintro ⟨-, hnonzero⟩
      refine (radvertLoop_spec (by omega) (Or.inl .first) (by decide) (by omega)
        (by omega)).resolve_right ?_
      rintro ⟨i, hreached, hi, htype, hzero⟩
      rw [hsize] at hreached hi
      exact hnonzero i hreached hi htype hzero
  · have hsize := toNat_optionsLen_wrapped (Nat.lt_of_not_le hlen)
    refine iff_of_false ?_ fun h => hlen h.1
    rintro ⟨r', hr'⟩
    exact radvertLoop_wide (by omega) (by decide) hr'

/-- The loop gets to the end of the option area exactly in a message that holds its fixed part
and no option of length zero that is reached. -/
theorem radvertLoop_ends_iff (linkLocal : Ipv6Addr) (msg : Mem) (len : UInt16)
    (r : RouterRecord) :
    (∃ fuel r', (radvertLoop linkLocal msg (len.toUInt32 - 16) fuel 0 r []).1 = .ok r') ↔
      16 ≤ len.toNat ∧
        ∀ i, OptionReached msg (len.toNat - 16) i → i < len.toNat - 16 →
          KnownOption (msg (16 + i)) → msg (16 + i + 1) ≠ 0 := by
  constructor
  · rintro ⟨fuel, r', h⟩
    have hmore := radvertLoop_add (2 ^ 28 + 1) h
    exact (radvertLoop_isOk_iff (by omega)).mp (isOk_iff.mpr ⟨r', hmore⟩)
  · intro h
    exact ⟨2 ^ 28 + 1, isOk_iff.mp ((radvertLoop_isOk_iff (by decide)).mpr h)⟩

/-- A router advertisement of 24 bytes with a link-layer address of no length. -/
theorem radvertLoop_endless :
    ¬ ∀ (linkLocal : Ipv6Addr) (msg : Mem) (len : UInt16) (r : RouterRecord),
      ∃ fuel r', (radvertLoop linkLocal msg (len.toUInt32 - 16) fuel 0 r []).1 = .ok r' := by
  intro h
  obtain ⟨fuel, r', hr'⟩ := h unspecified (fun i => if i = 16 then 1 else 0) 24 bssRecord
  exact radvertLoop_stalls (by decide) (by decide) (by decide) hr'

/-! ## Bounds -/

/-- The access is inside the message, of which `len` bytes are stated, or inside its
variable. -/
def Access.Inside (len : Nat) : Access → Prop
  | option off size => off + size ≤ len
  | copy dest off size => off + size ≤ dest.size

/-- The variables that an advertisement may set.  The address of the box itself, which is
made of the prefix, is one of them if `own` says so. -/
def Access.MaySet (own : Bool) : Access → Prop
  | option _ _ => True
  | copy dest _ _ => dest = .ipv6Addr → own = true

instance (len : Nat) (a : Access) : Decidable (a.Inside len) := by
  cases a <;> exact inferInstanceAs (Decidable (_ ≤ _))

instance (own : Bool) (a : Access) : Decidable (a.MaySet own) := by
  cases a
  · exact inferInstanceAs (Decidable True)
  · exact inferInstanceAs (Decidable (_ → _))

/-- An option whose reader stays inside. -/
def OptionFits (own : Bool) (msg : Mem) (len option : Nat) : Prop :=
  (msg option = 1 → msg (option + 1) = 1 ∧ option + 8 ≤ len) ∧
    (msg option = 3 → own = true ∧ option + 32 ≤ len) ∧ (msg option = 5 → option + 8 ≤ len)

theorem readOption_fits_iff {own : Bool} {optionsLen : UInt32} {option : Nat} {size : Nat} :
    (∀ a ∈ (readOption linkLocal msg optionsLen option r).2.2, a.Inside size ∧ a.MaySet own) ↔
      OptionFits own msg size option := by
  unfold OptionFits readOption
  by_cases h1 : msg option = 1
  · obtain ⟨hone, hsix⟩ : ((optionOctets msg option * 8 - 2).toNat ≤ 6 ↔ msg (option + 1) = 1) ∧
        (msg (option + 1) = 1 → (optionOctets msg option * 8 - 2).toNat = 6) :=
      (signed_octets (msg (option + 1)).toFin).2.2
    rw [if_pos h1]
    simp only [getRouterLinkAddr, List.forall_mem_cons, List.not_mem_nil, false_imp_iff,
      implies_true, Access.Inside, Access.MaySet, Destination.size, Nat.zero_add, and_true]
    constructor
    · rintro ⟨-, hread, hcopy, -⟩
      have hlen := hone.mp hcopy
      rw [hsix hlen] at hread
      exact ⟨fun _ => ⟨hlen, hread⟩, fun h => absurd (h1.symm.trans h) (by decide),
        fun h => absurd (h1.symm.trans h) (by decide)⟩
    · rintro ⟨hfits, -, -⟩
      obtain ⟨hlen, hinside⟩ := hfits h1
      rw [hsix hlen]
      exact ⟨by omega, by omega, Nat.le_refl 6, fun h => nomatch h⟩
  · rw [if_neg h1]
    by_cases h3 : msg option = 3
    · rw [if_pos h3]
      simp only [getPrefixDefault, List.forall_mem_cons, List.not_mem_nil, false_imp_iff,
        true_imp_iff, implies_true, Access.Inside, Access.MaySet, Destination.size, reduceCtorEq,
        and_true]
      constructor
      · rintro ⟨-, -, -, -, -, -, hinside, -, ⟨-, hown⟩, -⟩
        exact ⟨fun h' => absurd h' h1, fun _ => ⟨hown, hinside⟩,
          fun h' => absurd (h3.symm.trans h') (by decide)⟩
      · rintro ⟨-, hfits, -⟩
        obtain ⟨hown, hinside⟩ := hfits h3
        simp only [hown, and_true]
        omega
    · rw [if_neg h3]
      by_cases h5 : msg option = 5
      · rw [if_pos h5]
        simp only [getMTU, List.forall_mem_cons, List.not_mem_nil, false_imp_iff,
          implies_true, Access.Inside, Access.MaySet, Destination.size, reduceCtorEq, and_true]
        constructor
        · rintro ⟨-, hread, -⟩
          exact ⟨fun h' => absurd h' h1, fun h' => absurd h' h3, fun _ => hread⟩
        · rintro ⟨-, -, hfits⟩
          have hinside := hfits h5
          exact ⟨by omega, hinside, Nat.le_refl 4⟩
      · rw [if_neg h5]
        exact iff_of_true (fun a ha => nomatch ha)
          ⟨fun h => absurd h h1, fun h => absurd h h3, fun h => absurd h h5⟩

/-- The accesses of the handler are those of the options that are reached. -/
theorem radvertHandler_inside_iff {own : Bool} (hlen : 16 ≤ len.toNat) :
    (∀ a ∈ (radvertHandler linkLocal msg len.toUInt32 r).2,
        a.Inside len.toNat ∧ a.MaySet own) ↔
      ∀ i, OptionReached msg (len.toNat - 16) i → i < len.toNat - 16 →
        OptionFits own msg len.toNat (16 + i) := by
  have hsize := toNat_optionsLen hlen
  have hlt := len.toNat_lt
  constructor
  · intro h i hreached hi
    unfold radvertHandler at h
    obtain ⟨fuel, r₁, accesses, heq⟩ := radvertLoop_comes hlen
      (show 2 ^ 28 < 2 ^ 28 + 1 by decide) hreached hi
    rw [heq, radvertLoop_succ (by omega)] at h
    dsimp only at h
    have hread : ∀ a ∈ (readOption linkLocal msg (len.toUInt32 - 16) (radvertSize + i) r₁).2.2,
        a.Inside len.toNat ∧ a.MaySet own := by
      intro a ha
      have hround := List.mem_append_right accesses
        (List.mem_cons_of_mem (Access.option (radvertSize + i) 1) ha)
      refine h a ?_
      split
      · exact subset_radvertLoop hround
      · exact hround
    exact readOption_fits_iff.mp hread
  · intro h a ha
    unfold radvertHandler at ha
    rcases mem_radvertLoop (by omega) (Or.inl .first) ha with hfirst | ⟨i, r₁, hreached, hi, hmem⟩
    · rw [List.mem_singleton.mp hfirst]
      exact ⟨Nat.le_refl 16, fun hne => nomatch hne⟩
    · rw [hsize] at hreached hi
      rcases List.mem_cons.mp hmem with rfl | hread
      · refine ⟨?_, trivial⟩
        show 16 + i + 1 ≤ len.toNat
        omega
      · exact readOption_fits_iff.mpr (h i hreached hi) a hread

/-- A message without its fixed part is read behind its end. -/
theorem radvertHandler_short {own : Bool} (hlen : len.toNat < 16) :
    ¬ ∀ a ∈ (radvertHandler linkLocal msg len.toUInt32 r).2,
      a.Inside len.toNat ∧ a.MaySet own := by
  intro h
  have hsize := toNat_optionsLen_wrapped hlen
  have hread : Access.option 16 1 ∈ (radvertHandler linkLocal msg len.toUInt32 r).2 := by
    unfold radvertHandler
    rw [radvertLoop_succ (by omega)]
    dsimp only
    split
    · exact subset_radvertLoop (List.mem_append_right _ List.mem_cons_self)
    · exact List.mem_append_right _ List.mem_cons_self
  have hinside : 16 + 1 ≤ len.toNat := (h _ hread).1
  omega

end Handler

section Receive

variable {host : Bool} {linkLocal : Ipv6Addr} {pkt pkt' : NetPacket} {r : RouterRecord}

/-- The accesses of the handler come first; the copies behind it are made if it comes back. -/
theorem radvertIn_accesses (hvalid : radvertValid pkt = .ok (true, pkt'))
    (hdrop : dropsRadvert host pkt' = false) :
    (radvertIn host linkLocal pkt r).2 =
      (radvertHandler linkLocal pkt'.body pkt'.ip.hostPayloadLen.toUInt32 r).2 ++
        if (radvertHandler linkLocal pkt'.body pkt'.ip.hostPayloadLen.toUInt32 r).1.isOk
        then routerCopies else [] := by
  unfold radvertIn
  rw [hvalid]
  dsimp only
  rw [hdrop, if_neg Bool.false_ne_true]
  rcases radvertHandler linkLocal pkt'.body pkt'.ip.hostPayloadLen.toUInt32 r with
    ⟨f | r', accesses⟩
  · exact (List.append_nil accesses).symm
  · rfl

/-- What the box accesses for an advertisement that it accepts is what it may access exactly
if it drops the advertisement, or never gets behind an option of length zero and every option
up to there is inside. -/
theorem radvertIn_inside_iff (own : Bool) (hvalid : radvertValid pkt = .ok (true, pkt')) :
    (∀ a ∈ (radvertIn host linkLocal pkt r).2,
        a.Inside pkt.ip.hostPayloadLen.toNat ∧ a.MaySet own) ↔
      dropsRadvert host pkt = true ∨
        (16 ≤ pkt.ip.hostPayloadLen.toNat ∧
          (∀ i, OptionReached pkt'.body (pkt.ip.hostPayloadLen.toNat - 16) i →
            i < pkt.ip.hostPayloadLen.toNat - 16 →
            OptionFits own pkt'.body pkt.ip.hostPayloadLen.toNat (16 + i)) ∧
          ∃ i, OptionReached pkt'.body (pkt.ip.hostPayloadLen.toNat - 16) i ∧
            i < pkt.ip.hostPayloadLen.toNat - 16 ∧
            KnownOption (pkt'.body (16 + i)) ∧ pkt'.body (16 + i + 1) = 0) := by
  have hlay : pkt' = layPseudoHdr pkt pkt.ip.payloadLen.toNat := validAt_ok hvalid
  have hip : pkt'.ip = pkt.ip := by rw [hlay, layPseudoHdr]
  have hdrop : dropsRadvert host pkt' = dropsRadvert host pkt := by rw [hlay]; rfl
  cases hd : dropsRadvert host pkt with
  | true =>
    refine iff_of_true (fun a ha => ?_) (Or.inl rfl)
    unfold radvertIn at ha
    rw [hvalid] at ha
    dsimp only at ha
    rw [hdrop, if_pos hd] at ha
    cases ha
  | false =>
    have hlog : (radvertIn host linkLocal pkt r).2 = _ :=
      radvertIn_accesses hvalid (hdrop.trans hd)
    rw [hip] at hlog
    rw [or_iff_right Bool.false_ne_true, hlog]
    by_cases hlen : 16 ≤ pkt.ip.hostPayloadLen.toNat
    · have hreturns :
          (radvertHandler linkLocal pkt'.body pkt.ip.hostPayloadLen.toUInt32 r).1.isOk = true ↔
            _ := radvertLoop_isOk_iff (by decide)
      split
      · next hok =>
        -- the addresses of the router are copied over their ends
        refine iff_of_false (fun h => ?_) ?_
        · have hcopy : 8 + 16 ≤ 16 := (h (.copy .routerIpAddr 8 16)
            (List.mem_append_right _ (by decide))).1
          omega
        · rintro ⟨-, -, i, hreached, hi, htype, hzero⟩
          exact (hreturns.mp hok).2 i hreached hi htype hzero
      · next hok =>
        have hstall : ∃ i, OptionReached pkt'.body (pkt.ip.hostPayloadLen.toNat - 16) i ∧
            i < pkt.ip.hostPayloadLen.toNat - 16 ∧
            KnownOption (pkt'.body (16 + i)) ∧ pkt'.body (16 + i + 1) = 0 := by
          by_contra hnone
          exact hok (hreturns.mpr ⟨hlen, fun i hreached hi htype hzero =>
            hnone ⟨i, hreached, hi, htype, hzero⟩⟩)
        rw [List.append_nil, radvertHandler_inside_iff hlen]
        exact ⟨fun h => ⟨hlen, h, hstall⟩, fun h => h.2.1⟩
    · refine iff_of_false (fun h => ?_) fun h => hlen h.1
      exact radvertHandler_short (Nat.lt_of_not_le hlen) fun a ha =>
        h a (List.mem_append_left _ ha)

/-- An accepted advertisement, with the pseudo-header laid over its packet. -/
theorem radvertValid_of_fst (h : (radvertValid pkt).map Prod.fst = .ok true) :
    radvertValid pkt = .ok (true, layPseudoHdr pkt pkt.ip.payloadLen.toNat) := by
  obtain ⟨⟨valid, pkt'⟩, hvalid, hfst⟩ := map_ok h
  have hlay := validAt_ok hvalid
  rw [hvalid, ← hlay, ← hfst]

end Receive

/-- A router advertisement without options. -/
def plainAdvert : NetPacket :=
  examplePacket #v[0xFE, 0x80, 0, 0, 0, 0, 0, 0, 0, 0, 0, 0, 0, 0, 0, 0x01]
    exampleConfig.allnIPmulti
    [routerA, 0, 0x35, 0x27, 64, 0, 0x07, 0x08, 0, 0, 0, 0, 0, 0, 0, 0]

/-- A router advertisement with the address of the router and an MTU option that has no length. -/
def endlessAdvert : NetPacket :=
  examplePacket #v[0xFE, 0x80, 0, 0, 0, 0, 0, 0, 0, 0, 0, 0, 0, 0, 0, 0x01]
    exampleConfig.allnIPmulti
    [routerA, 0, 0x17, 0x28, 64, 0, 0x07, 0x08, 0, 0, 0, 0, 0, 0, 0, 0,
      1, 1, 0xB0, 0xB0, 0xB0, 0xB0, 0xB0, 0xB0, 5, 0, 0, 0, 0, 0, 0x05, 0xDC]

/-- The NAT box drops the first, which is not from its default router.  A host stays inside the
second, as it never gets behind the options. -/
theorem radvertIn_inside_examples :
    ((radvertValid plainAdvert).map Prod.fst = .ok true ∧
      ∀ a ∈ (radvertIn false unspecified plainAdvert bssRecord).2, a.Inside 16 ∧ a.MaySet true) ∧
    (radvertValid endlessAdvert).map Prod.fst = .ok true ∧
      ∀ a ∈ (radvertIn true unspecified endlessAdvert bssRecord).2,
        a.Inside 32 ∧ a.MaySet true := by
  have hplain : (radvertValid plainAdvert).map Prod.fst = .ok true := by decide +kernel
  have hendless : (radvertValid endlessAdvert).map Prod.fst = .ok true := by decide +kernel
  obtain ⟨body, hbody⟩ : ∃ body, body =
    (layPseudoHdr endlessAdvert endlessAdvert.ip.payloadLen.toNat).body := ⟨_, rfl⟩
  have hknown : KnownOption (body (radvertSize + 0)) ∧ KnownOption (body (radvertSize + 8)) := by
    rw [hbody]
    decide +kernel
  have hsteps : (optionOctets body (radvertSize + 0) * 8).toNat = 8 ∧
      (optionOctets body (radvertSize + 8) * 8).toNat = 0 := by
    rw [hbody]
    decide +kernel
  have hreached : ∀ i, OptionReached body 16 i → i = 0 ∨ i = 8 := by
    intro i hi
    induction hi with
    | first => exact .inl rfl
    | next _ _ _ ih =>
      rcases ih with rfl | rfl
      · exact .inr (by rw [hsteps.1])
      · exact .inr (by rw [hsteps.2])
  have hfits : OptionFits true body 32 (16 + 0) ∧ OptionFits true body 32 (16 + 8) := by
    rw [hbody]
    unfold OptionFits
    decide +kernel
  refine ⟨⟨hplain, (radvertIn_inside_iff true (radvertValid_of_fst hplain)).mpr
    (.inl (by decide))⟩, hendless, (radvertIn_inside_iff true (radvertValid_of_fst hendless)).mpr
    (.inr ⟨by decide, ?_, 8, ?_, by decide, ?_, ?_⟩)⟩
  · intro i hi _
    rw [← hbody] at hi ⊢
    rcases hreached i hi with rfl | rfl
    · exact hfits.1
    · exact hfits.2
  · rw [← hbody]
    have hfirst : OptionReached body 16 0 := .first
    have hnext := hfirst.next (by decide) hknown.1
    rwa [hsteps.1] at hnext
  · rw [← hbody]
    exact hknown.2
  · decide +kernel

/-- A host does not drop the first. -/
theorem radvertIn_overruns :
    ¬ ∀ (host own : Bool) (linkLocal : Ipv6Addr) (pkt pkt' : NetPacket) (r : RouterRecord),
      radvertValid pkt = .ok (true, pkt') →
        ∀ a ∈ (radvertIn host linkLocal pkt r).2,
          a.Inside pkt.ip.hostPayloadLen.toNat ∧ a.MaySet own := by
  intro h
  have hvalid := radvertValid_of_fst (show (radvertValid plainAdvert).map Prod.fst = .ok true by
    decide +kernel)
  have hall := h true true unspecified plainAdvert _ bssRecord hvalid
  rw [radvertIn_accesses hvalid (by decide)] at hall
  have hcopy : 8 + 16 ≤ 16 := (hall (.copy .routerIpAddr 8 16)
    (List.mem_append_right _ (by decide +kernel))).1
  omega

end NatBox
