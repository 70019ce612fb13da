import NatBox.Neighbour.RouterAdvert

/-
The options of a router advertisement from the NAT box to a host.

`fillOptions` writes 48 bytes for the types 1, 5 and 3, and the loop of `radvert_handler` comes
to each of the three.  The MTU does not fit in the 16 bits it is written with.
-/

namespace NatBox

/-- The three options as bytes. -/
def optionBytes (cfg : Config) (ra : RouterOptions) (iface : UInt8) : List UInt8 :=
  fillOptionOne cfg iface ++ fillOptionMTU ra.mtu ++ ra.optionPrefixDefault.toList

/-- What a host has learned is what the box had to tell. -/
structure OptionsLearned (cfg : Config) (ra : RouterOptions) (iface : UInt8) (r : RouterRecord) :
    Prop where
  routerMacAddr : r.routerMacAddr = cfg.ifMacucast iface.toNat
  mtu : r.mtu = ra.mtu
  prefixIpv6 : r.prefixIpv6Default = Vector.ofFn fun i => ra.optionPrefixDefault[16 + i.val]
  prefixLength : r.prefixLength = ra.optionPrefixDefault[2]
  optionPrefix : r.optionPrefixDefault = ra.optionPrefixDefault

section RoundTrip

variable {cfg : Config} {ra : RouterOptions} {iface : UInt8} {msg : Mem}

/-- The three options stand behind each other. -/
theorem fillOptions_three :
    fillOptions cfg ra iface [1, 5, 3] radvertSize 0 msg =
      msg.write radvertSize (optionBytes cfg ra iface) := by
  have hone : (fillOptionOne cfg iface).length = 8 := by simp [fillOptionOne]
  have hmtu : (fillOptionMTU ra.mtu).length = 8 := rfl
  rw [optionBytes, ← Mem.write_append, ← Mem.write_append, List.length_append, hone, hmtu]
  rfl

/-- The byte of an option at its place in the message. -/
theorem write_optionBytes {k : Nat} {b : UInt8} (h : (optionBytes cfg ra iface)[k]? = some b) :
    msg.write radvertSize (optionBytes cfg ra iface) (16 + k) = b :=
  Mem.write_inside h

theorem getElem?_optionBytes_mac (i : Fin 6) :
    (optionBytes cfg ra iface)[2 + i.val]? = some (cfg.ifMacucast iface.toNat)[i] := by
  have hi := i.isLt
  have hone : (fillOptionOne cfg iface).length = 8 := by simp [fillOptionOne]
  rw [optionBytes, List.getElem?_append_left (by rw [List.length_append]; omega),
    List.getElem?_append_left (by omega), fillOptionOne, List.getElem?_append_right (by simp)]
  simp

theorem getElem?_optionBytes_mtu {k : Nat} (hk : k < 8) :
    (optionBytes cfg ra iface)[8 + k]? = (fillOptionMTU ra.mtu)[k]? := by
  have hone : (fillOptionOne cfg iface).length = 8 := by simp [fillOptionOne]
  have hmtu : (fillOptionMTU ra.mtu).length = 8 := rfl
  rw [optionBytes, List.getElem?_append_left (by rw [List.length_append]; omega),
    List.getElem?_append_right (by omega), hone, Nat.add_sub_cancel_left]

theorem getElem?_optionBytes_saved (i : Fin 32) :
    (optionBytes cfg ra iface)[16 + i.val]? = some ra.optionPrefixDefault[i] := by
  have hi := i.isLt
  have hfront : (fillOptionOne cfg iface ++ fillOptionMTU ra.mtu).length = 16 := by
    simp [fillOptionOne, fillOptionMTU]
  rw [optionBytes, List.getElem?_append_right (by omega), hfront]
  simp

/-- The MTU as it is read: its lower 16 bits. -/
theorem ntohl_load32_optionMTU {m : Mem} {off : Nat} (mtu : UInt32) (h₀ : m off = 0)
    (h₁ : m (off + 1) = 0) (h₂ : m (off + 2) = (mtu >>> 8).toUInt8)
    (h₃ : m (off + 3) = mtu.toUInt8) : ntohl (m.load32 off) = mtu &&& 0xFFFF := by
  rw [Mem.load32, Mem.load16, Mem.load16, h₀, h₁, h₂, show off + 2 + 1 = off + 3 from rfl, h₃]
  refine UInt32.eq_of_toBitVec_eq ?_
  simp only [ntohl, UInt32.toBitVec_or, UInt32.toBitVec_and, UInt32.toBitVec_shiftLeft,
    UInt32.toBitVec_shiftRight, UInt16.toBitVec_toUInt32, UInt16.toBitVec_or,
    UInt16.toBitVec_shiftLeft, UInt8.toBitVec_toUInt16, UInt32.toBitVec_toUInt8]
  ext i hi
  interval_cases i <;> simp [BitVec.getElem_and]

/-- The walk over the three options, by their types and lengths alone. -/
theorem radvertLoop_three (linkLocal : Ipv6Addr) {m : Mem}
    (htypes : m 16 = 1 ∧ m 24 = 5 ∧ m 32 = 3)
    (hlengths : m 17 = 1 ∧ m 25 = 1 ∧ m 33 = 4) (fuel : Nat) (r : RouterRecord)
    (accesses : List Access) :
    (radvertLoop linkLocal m 48 (fuel + 4) 0 r accesses).1 = .ok
      (getPrefixDefault linkLocal m 32 (getMTU m 24 (getRouterLinkAddr m 16 r).2.1).2.1).2.1 := by
  obtain ⟨h16, h24, h32⟩ := htypes
  obtain ⟨h17, h25, h33⟩ := hlengths
  have hone : readOption linkLocal m 48 (radvertSize + 0) r = getRouterLinkAddr m 16 r :=
    if_pos h16
  have hfirst : (getRouterLinkAddr m 16 r).1 = 8 := by
    rw [getRouterLinkAddr, optionOctets, h17]
    rfl
  generalize hr₁ : (getRouterLinkAddr m 16 r).2.1 = r₁
  have hmtu : readOption linkLocal m 48 (radvertSize + 8) r₁ = getMTU m 24 r₁ := by
    rw [readOption, show radvertSize + 8 = 24 from rfl, h24]
    rfl
  have hsecond : (getMTU m 24 r₁).1 = 8 := by
    rw [getMTU, optionOctets, h25]
    rfl
  generalize hr₂ : (getMTU m 24 r₁).2.1 = r₂
  have hsaved : readOption linkLocal m 48 (radvertSize + 16) r₂ =
      getPrefixDefault linkLocal m 32 r₂ := by
    rw [readOption, show radvertSize + 16 = 32 from rfl, h32]
    rfl
  have hthird : (getPrefixDefault linkLocal m 32 r₂).1 = 32 := by
    rw [getPrefixDefault, optionOctets, h33]
    rfl
  rw [radvertLoop_succ (by decide)]
  dsimp only
  rw [hone, hfirst, hr₁, if_pos (by decide), show 0 + (8 : UInt16).toNat = 8 from rfl,
    radvertLoop_succ (by decide)]
  dsimp only
  rw [hmtu, hsecond, hr₂, if_pos (by decide), show 8 + (8 : UInt16).toNat = 16 from rfl,
    radvertLoop_succ (by decide)]
  dsimp only
  rw [hsaved, hthird, if_pos (by decide), show 16 + (32 : UInt16).toNat = 48 from rfl,
    radvertLoop_done (by decide)]

/-- What the three options leave in the variables. -/
theorem optionsLearned_iff {linkLocal : Ipv6Addr} {m : Mem} {r : RouterRecord}
    (hbyte : ∀ k b, (optionBytes cfg ra iface)[k]? = some b → m (16 + k) = b) :
    OptionsLearned cfg ra iface
        (getPrefixDefault linkLocal m 32 (getMTU m 24 (getRouterLinkAddr m 16 r).2.1).2.1).2.1 ↔
      ra.mtu.toNat < 65536 := by
  have hmtu : ∀ k b, k < 8 → (fillOptionMTU ra.mtu)[k]? = some b → m (24 + k) = b := by
    intro k b hk h
    rw [show 24 + k = 16 + (8 + k) by omega]
    exact hbyte _ _ ((getElem?_optionBytes_mtu hk).trans h)
  have hsaved : ∀ i : Fin 32, m (32 + i.val) = ra.optionPrefixDefault[i] := by
    intro i
    rw [show 32 + i.val = 16 + (16 + i.val) by omega]
    exact hbyte _ _ (getElem?_optionBytes_saved i)
  have hread : ntohl (m.load32 (24 + 4)) = ra.mtu &&& 0xFFFF :=
    ntohl_load32_optionMTU ra.mtu (hmtu 4 0 (by omega) rfl) (hmtu 5 0 (by omega) rfl)
      (hmtu 6 _ (by omega) rfl) (hmtu 7 _ (by omega) rfl)
  have hmask : ra.mtu &&& 0xFFFF = ra.mtu ↔ ra.mtu.toNat < 65536 := by
    rw [← UInt32.toNat_inj, UInt32.toNat_and]
    show ra.mtu.toNat &&& 65535 = _ ↔ _
    rw [Nat.and_two_pow_sub_one_eq_mod _ 16]
    omega
  rw [← hmask, ← hread]
  constructor
  · exact fun h => h.mtu
  · intro h
    constructor
    · refine Vector.ext fun i hi => ?_
      show (macAt m (16 + 2))[i] = _
      rw [macAt, Vector.getElem_ofFn, Nat.add_assoc]
      exact hbyte _ _ (getElem?_optionBytes_mac ⟨i, hi⟩)
    · exact h
    · refine Vector.ext fun i hi => ?_
      show (addrAt m (32 + 16))[i] = _
      rw [addrAt, Vector.getElem_ofFn, Vector.getElem_ofFn, Nat.add_assoc]
      exact hsaved ⟨16 + i, by omega⟩
    · exact hsaved 2
    · refine Vector.ext fun i hi => ?_
      show (Vector.ofFn fun i : Fin 32 => m (32 + i.val))[i] = _
      rw [Vector.getElem_ofFn]
      exact hsaved ⟨i, hi⟩

/-- A host learns the three options as they were exactly if the MTU is below 65536. -/
theorem options_roundTrip_iff (cfg : Config) (ra : RouterOptions) (iface : UInt8)
    (linkLocal : Ipv6Addr) (msg : Mem) (r : RouterRecord) (htype : ra.optionPrefixDefault[0] = 3)
    (hlength : ra.optionPrefixDefault[1] = 4) :
    ∃ learned, (radvertHandler linkLocal
        (fillOptions cfg ra iface [1, 5, 3] radvertSize 0 msg) 64 r).1 = .ok learned ∧
      (OptionsLearned cfg ra iface learned ↔ ra.mtu.toNat < 65536) := by
  rw [fillOptions_three]
  have hbyte : ∀ k b, (optionBytes cfg ra iface)[k]? = some b →
      msg.write radvertSize (optionBytes cfg ra iface) (16 + k) = b :=
    fun k b h => write_optionBytes h
  generalize msg.write radvertSize (optionBytes cfg ra iface) = m at hbyte ⊢
  have hmtu : ∀ k b, k < 8 → (fillOptionMTU ra.mtu)[k]? = some b → m (16 + (8 + k)) = b :=
    fun k b hk h => hbyte _ _ ((getElem?_optionBytes_mtu hk).trans h)
  have hsaved : ∀ i : Fin 32, m (16 + (16 + i.val)) = ra.optionPrefixDefault[i] :=
    fun i => hbyte _ _ (getElem?_optionBytes_saved i)
  have htypes : m 16 = 1 ∧ m 24 = 5 ∧ m 32 = 3 :=
    ⟨hbyte 0 1 rfl, hmtu 0 5 (by omega) rfl, (hsaved 0).trans htype⟩
  have hlengths : m 17 = 1 ∧ m 25 = 1 ∧ m 33 = 4 :=
    ⟨hbyte 1 1 rfl, hmtu 1 1 (by omega) rfl, (hsaved 1).trans hlength⟩
  have hfuel : 2 ^ 28 + 1 = 2 ^ 28 - 3 + 4 := by omega
  have hlen : (64 - 16 : UInt32) = 48 := by decide
  rw [radvertHandler, hlen, hfuel]
  exact ⟨_, radvertLoop_three linkLocal htypes hlengths _ _ _, optionsLearned_iff hbyte⟩

end RoundTrip

/-- Router options with an MTU, and the prefix of the example network. -/
def exampleRouterOptions (mtu : UInt32) : RouterOptions where
  mtu := mtu
  optionPrefixDefault := #v[3, 4, 64, 0xC0, 0, 1, 0, 0, 0, 1, 0, 0, 0, 0, 0, 0,
    0x20, 0x01, 0, 0, 0, 0, 0, 0, 0, 0, 0, 0, 0, 0, 0, 0]
  radvertFromRouter := Vector.replicate 16 0

theorem options_roundTrip_1500 : ∃ learned,
    (radvertHandler exampleConfig.linkLocal (fillOptions exampleConfig (exampleRouterOptions 1500)
      1 [1, 5, 3] radvertSize 0 fun _ => 0) 64 bssRecord).1 = .ok learned ∧
    OptionsLearned exampleConfig (exampleRouterOptions 1500) 1 learned := by
  obtain ⟨learned, hok, hlearned⟩ := options_roundTrip_iff exampleConfig
    (exampleRouterOptions 1500) 1 exampleConfig.linkLocal (fun _ => 0) bssRecord rfl rfl
  exact ⟨learned, hok, hlearned.mpr (by decide)⟩

/-- An MTU of 65536 arrives as zero. -/
theorem options_roundTrip_fails_65536 : ∃ learned,
    (radvertLoop exampleConfig.linkLocal
      (fillOptions exampleConfig (exampleRouterOptions 65536) 1 [1, 5, 3] radvertSize 0 fun _ => 0)
      48 4 0 bssRecord []).1 = .ok learned ∧ learned.mtu = 0 ∧
    ¬ OptionsLearned exampleConfig (exampleRouterOptions 65536) 1 learned := by
  have hloop := radvertLoop_three exampleConfig.linkLocal
    (m := fillOptions exampleConfig (exampleRouterOptions 65536) 1 [1, 5, 3] radvertSize 0
      fun _ => 0) (by decide +kernel) (by decide +kernel) 0 bssRecord []
  refine ⟨_, hloop, by decide +kernel, fun h => ?_⟩
  have hmtu := h.mtu
  revert hmtu
  decide +kernel

end NatBox
