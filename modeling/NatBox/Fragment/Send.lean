import NatBox.Forward.Datagram
import NatBox.Fragment.Table
import NatBox.Lib.BufferPool

/-
Cutting a datagram into fragments: `sendto.c`.

The loop of `fragmentDatagram` takes the payload in pieces of `max_payload_len` bytes.
What is left at the end is rounded down to a multiple of eight again, so a last piece
of, say, thirteen bytes goes out as eight and then five.

Every piece takes a buffer from `ipv6bufpool` and none is given back.  `Passes` is what the
loop does if it has the buffers for it, and `Fragments` what it then sends; `pieces` counts
them.  With fewer buffers the loop stops in the middle and waits for ever
(`fragmentLoop_waits`).
-/

namespace NatBox

/-- `ETH_HDR_LEN` -/
def ethHdrLen : Nat := 14

/-- `fillIPdatagram` and `fillDatagram`, as `sendto` calls them: the source is
`link_local`. -/
def sendtoDatagram (cfg : Config) (destIpv6 : Ipv6Addr) (nextHeader : UInt8) (buffer : Mem)
    (bufLen : UInt16) : Datagram where
  payloadLen := bufLen
  headers :=
    { info := Vector.ofFn fun i => if i.val = 0 then 0x60 else 0
      payloadLen := htons bufLen
      nextHeader := nextHeader
      hopLimit := 255
      src := cfg.linkLocal
      dest := destIpv6 }
  payload := buffer

/-- The header `sendto` builds states the length of the payload. -/
theorem payloadLen_sendtoDatagram (cfg : Config) (destIpv6 : Ipv6Addr) (nextHeader : UInt8)
    (buffer : Mem) (bufLen : UInt16) :
    (sendtoDatagram cfg destIpv6 nextHeader buffer bufLen).headers.payloadLen =
      htons (sendtoDatagram cfg destIpv6 nextHeader buffer bufLen).payloadLen := rfl

def checkLength (payloadLen : UInt16) : UInt16 :=
  if payloadLen > 8 then payloadLen - payloadLen % 8 else payloadLen

/-- What `fillFragmentHeader` turns its argument `frag_offset` into: the lowest bit is the
M flag. -/
def fragOffsetField (fragOffset : UInt16) (mFlag : Bool) : UInt16 :=
  if mFlag then fragOffset &&& 0xFFF8 ||| 0x0001 else fragOffset &&& 0xFFF8

/-- `fillFragmentHeader` over the memory at its first argument. -/
def fillFragmentHeader (fragmentHeader : Mem) (identif : UInt32) (nextHeader : UInt8)
    (fragOffset : UInt16) (mFlag : Bool) : Mem :=
  let header := fragmentHeader.write 0 [nextHeader]
  let header := header.store32 4 (htonl identif)
  header.store16 2 (htons (fragOffsetField fragOffset mFlag))

/-! ## The buffers -/

/-- `ipv6bufpool`, the buffers being numbered. -/
abbrev Ipv6BufPool : Type := BufferPool Nat

/-- `IPV6OUTNBUFS` -/
def ipv6OutNBufs : Nat := 40

/-- The pool that `ipv6_init` makes. -/
def ipv6bufpool : Ipv6BufPool := .ofList (List.range ipv6OutNBufs)

/-! ## `sendto.c` -/

/-- A call of `sendFragment`: how many bytes `fillPayload` copies, and the packet that is
written, if one is. -/
structure SentFragment where
  payloadLen : UInt16
  written : Option NetPacket

/-- The packets that the calls write. -/
def framesOf (calls : List SentFragment) : List NetPacket := calls.filterMap SentFragment.written

/-- The copy stays inside the packet. -/
def SentFragment.Fits (call : SentFragment) : Prop :=
  fragHdrLen.toNat + call.payloadLen.toNat ≤ bodyLen

instance (call : SentFragment) : Decidable call.Fits := Nat.decLe _ _

section Send

variable (cfg : Config) (nd solicited : NDCache) (identif : UInt32) (d : Datagram)

/-- The address `sendFragment` takes from the cache: that of the destination, or else that
of the source from the cache as it is once `sendnsolicit` has returned. -/
def fragmentMac (headers : BaseHeader) : Option MacAddr :=
  match lookupNDEntry nd headers.dest with
  | some i => some (nd.get i).macAddr
  | none =>
    match lookupNDEntry solicited headers.src with
    | some i => some (solicited.get i).macAddr
    | none => none

/-- The packet `sendFragment` makes.  The interface `fillEthernet` is given is
`ETH_HDR_LEN`. -/
def fragmentPacket (payloadLenIpv6Header payloadLen fragOffset : UInt16) (nextHeader : UInt8)
    (mFlag : Bool) (mac : MacAddr) : NetPacket where
  netDst := mac
  netSrc := cfg.ifMacucast ethHdrLen
  netType := htons ethIPv6
  ip := { d.headers with payloadLen := htons payloadLenIpv6Header, nextHeader := ipv6Frag }
  body := (fillFragmentHeader (fun _ => 0) identif nextHeader fragOffset mFlag).write 8
    (d.payload.read fragOffset.toNat payloadLen.toNat)
  netIface := 0

/-- `sendFragment`; `none` where `getbuf` does not return.  It keeps its buffer, whether it
writes or not, and nothing compares the length with the room there is in it.
(`sendnsolicit`, which it calls with one argument, prints its usage and takes no buffer.) -/
def sendFragment (payloadLenIpv6Header payloadLen fragOffset : UInt16) (nextHeader : UInt8)
    (mFlag : Bool) (pool : Ipv6BufPool) : Option (SentFragment × Ipv6BufPool) :=
  match pool.getbuf with
  | none => none
  | some (_, pool) =>
    some (⟨payloadLen, (fragmentMac nd solicited d.headers).map (fragmentPacket cfg identif d
      payloadLenIpv6Header payloadLen fragOffset nextHeader mFlag)⟩, pool)

/-- The variable `payload_len` of one pass. -/
def fragPayloadLen (maxPayloadLen remainLen : UInt16) : UInt16 :=
  let payloadLen := if remainLen > maxPayloadLen then maxPayloadLen else remainLen
  if payloadLen = remainLen then checkLength payloadLen else payloadLen

/-- The loop of `fragmentDatagram`: its calls of `sendFragment` and the pool it leaves, `none`
where it waits in one of them; `M_flag` is cleared in the pass that leaves nothing.  A pass
takes a buffer, so a loop that may make more passes than there are buffers ends or waits. -/
def fragmentLoop (maxPayloadLen : UInt16) :
    Nat → UInt16 → UInt16 → Ipv6BufPool → List SentFragment × Option Ipv6BufPool
  | 0, _, _, _ => ([], none)
  | passes + 1, remainLen, fragOffset, pool =>
    if remainLen = 0 then ([], some pool)
    else
      let payloadLen := fragPayloadLen maxPayloadLen remainLen
      match sendFragment cfg nd solicited identif d (fragHdrLen + payloadLen) payloadLen
        fragOffset d.headers.nextHeader (remainLen - payloadLen ≠ 0) pool with
      | none => ([], none)
      | some (call, pool) =>
        let rest := fragmentLoop maxPayloadLen passes (remainLen - payloadLen)
          (fragOffset + payloadLen) pool
        (call :: rest.1, rest.2)

/-- The variable `max_payload_len`. -/
def maxPayloadLen (mtu : UInt32) : UInt16 := checkLength (mtu - 40 - 8).toUInt16

/-- `fragmentDatagram`, where `getIdentif` returns `identif`. -/
def fragmentDatagram (mtu : UInt32) (pool : Ipv6BufPool) :
    List SentFragment × Option Ipv6BufPool :=
  if ipv6HdrLen + d.payloadLen.toNat > mtu.toNat then
    fragmentLoop cfg nd solicited identif d (maxPayloadLen mtu) (pool.size + 1) d.payloadLen 0 pool
  else ([], some pool)

end Send

/-! ## Lengths -/

theorem toNat_checkLength (len : UInt16) :
    (checkLength len).toNat = if 8 < len.toNat then len.toNat / 8 * 8 else len.toNat := by
  have hiff : len > 8 ↔ 8 < len.toNat := UInt16.lt_iff_toNat_lt
  unfold checkLength
  by_cases h : 8 < len.toNat
  · have hle : len % 8 ≤ len := by
      rw [UInt16.le_iff_toNat_le, UInt16.toNat_mod]
      exact Nat.mod_le _ _
    rw [if_pos (hiff.mpr h), if_pos h, UInt16.toNat_sub_of_le _ _ hle,
      UInt16.toNat_mod]
    show len.toNat - len.toNat % 8 = len.toNat / 8 * 8
    omega
  · rw [if_neg (fun hlt => h (hiff.mp hlt)), if_neg h]

/-- What a pass takes of what remains. -/
theorem toNat_fragPayloadLen (max remain : UInt16) :
    (fragPayloadLen max remain).toNat =
      if max.toNat < remain.toNat then max.toNat
      else if 8 < remain.toNat then remain.toNat / 8 * 8 else remain.toNat := by
  unfold fragPayloadLen
  by_cases hlt : remain > max
  · have hlt' := UInt16.lt_iff_toNat_lt.mp hlt
    have hne : max ≠ remain := by
      rintro rfl
      exact Nat.lt_irrefl _ hlt'
    rw [if_pos hlt, if_pos hlt']
    dsimp only
    rw [if_neg hne]
  · rw [if_neg hlt, if_neg (fun h => hlt (UInt16.lt_iff_toNat_lt.mpr h))]
    dsimp only
    rw [if_pos rfl, toNat_checkLength]

/-- A pass takes all that remains, or a part of it that is a multiple of eight if the
maximum is. -/
theorem fragPayloadLen_cases {max remain : UInt16} (hmax : max ≠ 0) (hremain : remain ≠ 0) :
    0 < (fragPayloadLen max remain).toNat ∧
      (fragPayloadLen max remain).toNat ≤ remain.toNat ∧
      (fragPayloadLen max remain).toNat ≤ max.toNat ∧
      (8 ∣ max.toNat → fragPayloadLen max remain = remain ∨
        8 ∣ (fragPayloadLen max remain).toNat) := by
  have hm : 0 < max.toNat := Nat.pos_of_ne_zero fun h => hmax (UInt16.toNat_inj.mp h)
  have hr : 0 < remain.toNat := Nat.pos_of_ne_zero fun h => hremain (UInt16.toNat_inj.mp h)
  have hval := toNat_fragPayloadLen max remain
  by_cases hlt : max.toNat < remain.toNat
  · rw [if_pos hlt] at hval
    rw [hval]
    exact ⟨hm, by omega, Nat.le_refl _, fun h => Or.inr h⟩
  · rw [if_neg hlt] at hval
    by_cases h8 : 8 < remain.toNat
    · rw [if_pos h8] at hval
      refine ⟨by omega, by omega, by omega, fun _ => Or.inr ?_⟩
      rw [hval]
      exact Nat.dvd_mul_left 8 _
    · rw [if_neg h8] at hval
      exact ⟨by omega, by omega, by omega, fun _ => Or.inl (UInt16.toNat_inj.mp hval)⟩

/-! ## The header of a fragment -/

theorem fragOffsetField_and_fffe (off : UInt16) (mFlag : Bool) :
    fragOffsetField off mFlag &&& 0xFFFE = off &&& 0xFFF8 := by
  apply UInt16.eq_of_toBitVec_eq
  cases mFlag with
  | false =>
    show (off &&& 0xFFF8 &&& 0xFFFE).toBitVec = _
    simp only [UInt16.toBitVec_and]
    ext i hi
    interval_cases i <;> simp
  | true =>
    show ((off &&& 0xFFF8 ||| 0x0001) &&& 0xFFFE).toBitVec = _
    simp only [UInt16.toBitVec_and, UInt16.toBitVec_or]
    ext i hi
    interval_cases i <;> simp

theorem fragOffsetField_and_one (off : UInt16) (mFlag : Bool) :
    fragOffsetField off mFlag &&& 0x01 = if mFlag then 0x01 else 0 := by
  apply UInt16.eq_of_toBitVec_eq
  cases mFlag with
  | false =>
    show (off &&& 0xFFF8 &&& 0x01).toBitVec = 0
    simp only [UInt16.toBitVec_and]
    ext i hi
    interval_cases i <;> simp
  | true =>
    show ((off &&& 0xFFF8 ||| 0x0001) &&& 0x01).toBitVec = 1
    simp only [UInt16.toBitVec_and, UInt16.toBitVec_or]
    ext i hi
    interval_cases i <;> simp

theorem toNat_and_fff8 (off : UInt16) : (off &&& (0xFFF8 : UInt16)).toNat = off.toNat / 8 * 8 := by
  have hshift : off &&& (0xFFF8 : UInt16) = (off >>> 3) <<< 3 := by
    apply UInt16.eq_of_toBitVec_eq
    simp only [UInt16.toBitVec_and, UInt16.toBitVec_shiftLeft, UInt16.toBitVec_shiftRight]
    ext i hi
    interval_cases i <;> simp
  have hoff := off.toNat_lt
  rw [hshift]
  simp only [UInt16.toNat_shiftLeft, UInt16.toNat_shiftRight, UInt16.reduceToNat, Nat.reduceMod,
    Nat.shiftRight_eq_div_pow, Nat.shiftLeft_eq, Nat.reducePow]
  omega

section Header

variable (m : Mem) (identif : UInt32) (nextHeader : UInt8) (off : UInt16) (mFlag : Bool)
  (data : List UInt8)

theorem fillFragmentHeader_nextHeader :
    (fillFragmentHeader m identif nextHeader off mFlag).write 8 data 0 = nextHeader := by
  unfold fillFragmentHeader
  rw [Mem.write_outside (Or.inl (by omega)), Mem.store16_outside (Or.inl (by omega)),
    Mem.store32, Mem.write_outside (Or.inl (by omega))]
  exact Mem.write_inside (i := 0) rfl

theorem fillFragmentHeader_offset :
    ((fillFragmentHeader m identif nextHeader off mFlag).write 8 data).load16 2 =
      htons (fragOffsetField off mFlag) := by
  have heq : ((fillFragmentHeader m identif nextHeader off mFlag).write 8 data).load16 2 =
      (fillFragmentHeader m identif nextHeader off mFlag).load16 2 := by
    apply Mem.load16_congr
    · exact Mem.write_outside (Or.inl (by omega))
    · exact Mem.write_outside (Or.inl (by omega))
  rw [heq]
  exact Mem.load16_store16 _ _ _

theorem fillFragmentHeader_identif :
    ((fillFragmentHeader m identif nextHeader off mFlag).write 8 data).load32 4 =
      htonl identif := by
  have heq : ((fillFragmentHeader m identif nextHeader off mFlag).write 8 data).load32 4 =
      ((m.write 0 [nextHeader]).store32 4 (htonl identif)).load32 4 := by
    apply Mem.load32_congr
    intro i hi
    rw [Mem.write_outside (Or.inl (by omega))]
    exact Mem.store16_outside (Or.inr (by omega))
  rw [heq]
  exact Mem.load32_store32 _ _ _

end Header

/-! ## What is sent -/

/-- The packet carries the bytes of `d` from `start` on. -/
structure IsFragment (identif : UInt32) (d : Datagram) (start : Nat) (pkt : NetPacket) : Prop where
  ip_eq : pkt.ip =
    { d.headers with
      payloadLen := htons (fragHdrLen + (fragDescOf pkt).payloadLen)
      nextHeader := ipv6Frag }
  nextHeader_eq : pkt.fragNextHeader = d.headers.nextHeader
  identif_eq : pkt.fragIdentif = identif
  offset_eq : (fragDescOf pkt).offset.toNat = start / 8 * 8
  payload_eq : (fragDescOf pkt).payload = d.payload.read start (fragDescOf pkt).payloadLen.toNat
  pos : 0 < (fragDescOf pkt).payloadLen.toNat
  le_payloadLen : start + (fragDescOf pkt).payloadLen.toNat ≤ d.payloadLen.toNat

/-- The packets carry the bytes of `d` from `start` on to its end, in pieces that
`fragPayloadLen` determines, and the last one alone has no M flag. -/
inductive Fragments (identif : UInt32) (d : Datagram) (max : UInt16) : Nat → List NetPacket → Prop
  | nil : Fragments identif d max d.payloadLen.toNat []
  | cons {start : Nat} {pkt : NetPacket} {pkts : List NetPacket} :
      IsFragment identif d start pkt →
      (fragDescOf pkt).payloadLen = fragPayloadLen max (UInt16.ofNat (d.payloadLen.toNat - start)) →
      (isLastFragment pkt = true ↔ pkts = []) →
      Fragments identif d max (start + (fragDescOf pkt).payloadLen.toNat) pkts →
      Fragments identif d max start (pkt :: pkts)

theorem Fragments.start_eq {identif : UInt32} {d : Datagram} {max : UInt16} {start : Nat}
    (h : Fragments identif d max start []) : start = d.payloadLen.toNat := by
  cases h
  rfl

section Packet

variable (cfg : Config) (identif : UInt32) (d : Datagram) (plh len off : UInt16)
  (more : Bool) (mac : MacAddr)

theorem payloadLen_fragmentPacket :
    (fragDescOf (fragmentPacket cfg identif d (fragHdrLen + len) len off d.headers.nextHeader
      more mac)).payloadLen = len := by
  show ntohs (htons (fragHdrLen + len)) - fragHdrLen = len
  rw [ntohs_htons, UInt16.add_comm, UInt16.add_sub_cancel]

theorem fragOffset_fragmentPacket :
    (fragmentPacket cfg identif d plh len off d.headers.nextHeader more mac).fragOffset =
      fragOffsetField off more := by
  unfold NetPacket.fragOffset fragmentPacket
  rw [fillFragmentHeader_offset, ntohs_htons]

theorem isLastFragment_fragmentPacket :
    isLastFragment (fragmentPacket cfg identif d plh len off d.headers.nextHeader more mac) =
      !more := by
  unfold isLastFragment
  rw [fragOffset_fragmentPacket, fragOffsetField_and_one]
  cases more with
  | false => rfl
  | true => rfl

theorem fragIdentif_fragmentPacket :
    (fragmentPacket cfg identif d plh len off d.headers.nextHeader more mac).fragIdentif =
      identif := by
  unfold NetPacket.fragIdentif fragmentPacket
  rw [fillFragmentHeader_identif, ntohl_htonl]

theorem fragNextHeader_fragmentPacket :
    (fragmentPacket cfg identif d plh len off d.headers.nextHeader more mac).fragNextHeader =
      d.headers.nextHeader := by
  show (fillFragmentHeader (fun _ => 0) identif d.headers.nextHeader off more).write 8
    (d.payload.read off.toNat len.toNat) 0 = d.headers.nextHeader
  exact fillFragmentHeader_nextHeader _ _ _ _ _ _

theorem isFragment_fragmentPacket (hpos : 0 < len.toNat)
    (hle : off.toNat + len.toNat ≤ d.payloadLen.toNat) :
    IsFragment identif d off.toNat (fragmentPacket cfg identif d (fragHdrLen + len) len off
      d.headers.nextHeader more mac) := by
  have hlen := payloadLen_fragmentPacket cfg identif d len off more mac
  constructor
  · rw [hlen]
    rfl
  · exact fragNextHeader_fragmentPacket cfg identif d _ len off more mac
  · exact fragIdentif_fragmentPacket cfg identif d _ len off more mac
  · show (NetPacket.fragOffset _ &&& 0xFFFE).toNat = off.toNat / 8 * 8
    rw [fragOffset_fragmentPacket, fragOffsetField_and_fffe, toNat_and_fff8]
  · rw [hlen]
    show Mem.read _ 8 (fragDescOf (fragmentPacket cfg identif d (fragHdrLen + len) len off
      d.headers.nextHeader more mac)).payloadLen.toNat = d.payload.read off.toNat len.toNat
    rw [hlen]
    have hread := Mem.read_write_self
      (fillFragmentHeader (fun _ => 0) identif d.headers.nextHeader off more) 8
      (d.payload.read off.toNat len.toNat)
    rwa [Mem.length_read] at hread
  · rw [hlen]
    exact hpos
  · rw [hlen]
    exact hle

end Packet

/-! ## How many pieces there are -/

/-- The number of pieces: all of them `max` bytes long but for the last, and that one in two
parts if it is longer than eight bytes and no multiple of eight. -/
def pieces (max len : Nat) : Nat :=
  if len = 0 then 0
  else
    (len - 1) / max +
      if 8 < (len - 1) % max + 1 ∧ ((len - 1) % max + 1) % 8 ≠ 0 then 2 else 1

/-- A pass sends one piece. -/
theorem pieces_pass {max len : Nat} (hmax : 0 < max) (hlen : 0 < len) :
    pieces max len = pieces max (len - if max < len then max
      else if 8 < len then len / 8 * 8 else len) + 1 := by
  unfold pieces
  rw [if_neg (Nat.ne_of_gt hlen)]
  by_cases hlong : max < len
  · have hback : len - 1 = len - max - 1 + max := by omega
    rw [if_pos hlong, if_neg (by omega : ¬ len - max = 0), hback, Nat.add_div_right _ hmax,
      Nat.add_mod_right]
    omega
  · have hdiv : (len - 1) / max = 0 := Nat.div_eq_of_lt (by omega)
    have hmod : (len - 1) % max = len - 1 := Nat.mod_eq_of_lt (by omega)
    rw [if_neg hlong, hdiv, hmod, Nat.sub_add_cancel hlen, Nat.zero_add]
    by_cases h8 : 8 < len
    · rw [if_pos h8]
      by_cases hrest : len % 8 = 0
      · rw [if_neg (by omega), if_pos (by omega)]
      · have hdiv' : (len - len / 8 * 8 - 1) / max = 0 := Nat.div_eq_of_lt (by omega)
        have hmod' : (len - len / 8 * 8 - 1) % max = len - len / 8 * 8 - 1 :=
          Nat.mod_eq_of_lt (by omega)
        rw [if_pos ⟨h8, hrest⟩, if_neg (by omega), hdiv', hmod', if_neg (by omega)]
    · rw [if_neg h8, if_neg (by omega), if_pos (Nat.sub_self len)]

section Sent

variable {cfg : Config} {nd solicited : NDCache} {identif : UInt32} {d : Datagram}

/-! ## The loop with all its buffers -/

/-- The calls of a loop that does not wait, with `remain` bytes to send from `off` on. -/
inductive Passes (cfg : Config) (nd solicited : NDCache) (identif : UInt32) (d : Datagram)
    (max : UInt16) : UInt16 → UInt16 → List SentFragment → Prop
  | nil {off : UInt16} : Passes cfg nd solicited identif d max 0 off []
  | cons {remain off : UInt16} {calls : List SentFragment} : remain ≠ 0 →
      Passes cfg nd solicited identif d max (remain - fragPayloadLen max remain)
        (off + fragPayloadLen max remain) calls →
      Passes cfg nd solicited identif d max remain off
        (⟨fragPayloadLen max remain, (fragmentMac nd solicited d.headers).map
          (fragmentPacket cfg identif d (fragHdrLen + fragPayloadLen max remain)
            (fragPayloadLen max remain) off d.headers.nextHeader
            (remain - fragPayloadLen max remain ≠ 0))⟩ :: calls)

theorem toNat_remain_sub {max remain : UInt16} (hmax : max ≠ 0) (hremain : remain ≠ 0) :
    (remain - fragPayloadLen max remain).toNat =
      remain.toNat - (fragPayloadLen max remain).toNat :=
  UInt16.toNat_sub_of_le _ _ (UInt16.le_iff_toNat_le.mpr
    (fragPayloadLen_cases hmax hremain).2.1)

/-- With room for data in a packet every pass leaves less. -/
theorem exists_passes {max : UInt16} (hmax : max ≠ 0) (remain off : UInt16) :
    ∃ calls, Passes cfg nd solicited identif d max remain off calls := by
  induction hn : remain.toNat using Nat.strong_induction_on generalizing remain off with
  | _ n ih =>
    by_cases hremain : remain = 0
    · exact ⟨[], hremain ▸ .nil⟩
    · have hpos := (fragPayloadLen_cases hmax hremain).1
      have hle := (fragPayloadLen_cases hmax hremain).2.1
      have hrest := toNat_remain_sub hmax hremain
      obtain ⟨calls, hcalls⟩ := ih _ (by omega) (remain - fragPayloadLen max remain)
        (off + fragPayloadLen max remain) rfl
      exact ⟨_, .cons hremain hcalls⟩

section Passes

variable {max remain off : UInt16} {calls : List SentFragment}

theorem Passes.length_eq (h : Passes cfg nd solicited identif d max remain off calls)
    (hmax : max ≠ 0) : calls.length = pieces max.toNat remain.toNat := by
  have hpos : 0 < max.toNat := Nat.pos_of_ne_zero fun h => hmax (UInt16.toNat_inj.mp h)
  induction h with
  | nil => rfl
  | @cons remain off calls hremain _ ih =>
    have hr : 0 < remain.toNat := Nat.pos_of_ne_zero fun h => hremain (UInt16.toNat_inj.mp h)
    rw [List.length_cons, ih, toNat_remain_sub hmax hremain, toNat_fragPayloadLen,
      ← pieces_pass hpos hr]

/-- Without an address nothing is written. -/
theorem Passes.unresolved (h : Passes cfg nd solicited identif d max remain off calls)
    (hmac : fragmentMac nd solicited d.headers = none) : ∀ call ∈ calls, call.written = none := by
  induction h with
  | nil => exact fun call hcall => absurd hcall List.not_mem_nil
  | cons _ _ ih =>
    intro call hcall
    rcases List.mem_cons.mp hcall with rfl | hcall
    · rw [hmac]
      rfl
    · exact ih call hcall

/-- With an address every call writes. -/
theorem Passes.resolved (h : Passes cfg nd solicited identif d max remain off calls)
    {mac : MacAddr} (hmac : fragmentMac nd solicited d.headers = some mac) :
    (∀ call ∈ calls, ∃ pkt, call.written = some pkt) ∧
      (framesOf calls).length = calls.length := by
  induction h with
  | nil => exact ⟨fun call hcall => absurd hcall List.not_mem_nil, rfl⟩
  | cons _ _ ih =>
    refine ⟨fun call hcall => ?_, ?_⟩
    · rcases List.mem_cons.mp hcall with rfl | hcall
      · rw [hmac]
        exact ⟨_, rfl⟩
      · exact ih.1 call hcall
    · rw [framesOf, hmac, List.filterMap_cons_some (by rfl), List.length_cons, List.length_cons]
      exact congrArg (· + 1) ih.2

/-- What a loop that does not wait writes. -/
theorem Passes.fragments (h : Passes cfg nd solicited identif d max remain off calls)
    {mac : MacAddr} (hmac : fragmentMac nd solicited d.headers = some mac) (hmax : max ≠ 0)
    (hsum : off.toNat + remain.toNat = d.payloadLen.toNat) :
    Fragments identif d max off.toNat (framesOf calls) := by
  induction h with
  | @nil off =>
    rw [show off.toNat = d.payloadLen.toNat from hsum]
    exact Fragments.nil
  | @cons remain off calls hremain hrest ih =>
    obtain ⟨hpos, hle, -, -⟩ := fragPayloadLen_cases hmax hremain
    have hd := d.payloadLen.toNat_lt
    have hoff : (off + fragPayloadLen max remain).toNat =
        off.toNat + (fragPayloadLen max remain).toNat := by
      rw [UInt16.toNat_add]
      omega
    have hleft := toNat_remain_sub hmax hremain
    have hlen := payloadLen_fragmentPacket cfg identif d (fragPayloadLen max remain) off
      (decide (remain - fragPayloadLen max remain ≠ 0)) mac
    have htail := ih (by omega)
    rw [framesOf, hmac, List.filterMap_cons_some (by rfl)]
    apply Fragments.cons
    · exact isFragment_fragmentPacket cfg identif d _ _ _ mac hpos (by omega)
    · rw [hlen, show d.payloadLen.toNat - off.toNat = remain.toNat by omega, UInt16.ofNat_toNat]
    · rw [isLastFragment_fragmentPacket, Bool.not_eq_true', decide_eq_false_iff_not, not_not]
      constructor
      · intro hzero
        rw [hzero] at hrest
        cases hrest with
        | nil => rfl
        | cons hne _ => exact absurd rfl hne
      · intro hnil
        rw [framesOf, hnil] at htail
        have hstart := htail.start_eq
        apply UInt16.toNat_inj.mp
        show _ = 0
        omega
    · rw [hlen, ← hoff]
      exact htail

end Passes

/-! ## The loop and the pool -/

section Pool

variable {max remain off : UInt16} {passes : Nat} {pool : Ipv6BufPool} {calls : List SentFragment}

/-- With a buffer for every piece the loop makes all its passes. -/
theorem fragmentLoop_returns (h : Passes cfg nd solicited identif d max remain off calls)
    (hpasses : calls.length < passes) (henough : calls.length ≤ pool.size) :
    ∃ pool', fragmentLoop cfg nd solicited identif d max passes remain off pool =
        (calls, some pool') ∧ pool.size = pool'.size + calls.length := by
  induction h generalizing passes pool with
  | nil =>
    obtain ⟨passes, rfl⟩ := Nat.exists_eq_succ_of_ne_zero (Nat.ne_of_gt hpasses)
    exact ⟨pool, rfl, rfl⟩
  | @cons remain off calls hremain _ ih =>
    rw [List.length_cons] at hpasses henough
    obtain ⟨passes, rfl⟩ := Nat.exists_eq_succ_of_ne_zero (show passes ≠ 0 by omega)
    rw [fragmentLoop, if_neg hremain]
    dsimp only
    unfold sendFragment
    rcases hget : pool.getbuf with _ | ⟨b, rest⟩
    · have hempty := BufferPool.getbuf_eq_none_iff.mp hget
      omega
    · have hsize := BufferPool.size_getbuf hget
      obtain ⟨pool', hloop, hleft⟩ := @ih passes rest (Nat.lt_of_succ_lt_succ hpasses) (by omega)
      dsimp only
      rw [hloop]
      exact ⟨pool', rfl, by rw [List.length_cons]; omega⟩

/-- With fewer it waits once they are used up. -/
theorem fragmentLoop_waits (h : Passes cfg nd solicited identif d max remain off calls)
    (hpasses : pool.size < passes) (hshort : pool.size < calls.length) :
    fragmentLoop cfg nd solicited identif d max passes remain off pool =
      (calls.take pool.size, none) := by
  induction h generalizing passes pool with
  | nil => exact absurd hshort (Nat.not_lt_zero _)
  | @cons remain off calls hremain _ ih =>
    rw [List.length_cons] at hshort
    obtain ⟨passes, rfl⟩ := Nat.exists_eq_succ_of_ne_zero (show passes ≠ 0 by omega)
    rw [fragmentLoop, if_neg hremain]
    dsimp only
    unfold sendFragment
    rcases hget : pool.getbuf with _ | ⟨b, rest⟩
    · rw [BufferPool.getbuf_eq_none_iff.mp hget]
      rfl
    · have hsize := BufferPool.size_getbuf hget
      dsimp only
      rw [ih (by omega) (by omega), hsize]
      rfl

/-- With no room for data in a packet it sends empty fragments until it waits. -/
theorem fragmentLoop_of_max_eq_zero (hremain : remain ≠ 0) :
    (fragmentLoop cfg nd solicited identif d 0 passes remain off pool).2 = none := by
  have hlen : fragPayloadLen 0 remain = 0 := by
    have hpos : remain > 0 := by
      rw [gt_iff_lt, UInt16.lt_iff_toNat_lt]
      exact Nat.pos_of_ne_zero fun h => hremain (UInt16.toNat_inj.mp h)
    unfold fragPayloadLen
    rw [if_pos hpos, if_neg (Ne.symm hremain)]
  induction passes generalizing off pool with
  | zero => rfl
  | succ passes ih =>
    rw [fragmentLoop, if_neg hremain]
    dsimp only
    unfold sendFragment
    rcases pool.getbuf with _ | ⟨b, rest⟩
    · rfl
    · dsimp only
      rw [hlen, UInt16.sub_zero]
      exact ih

end Pool

/-! ## `fragmentDatagram` -/

section Datagram

variable {mtu : UInt32} {pool pool' : Ipv6BufPool} {calls : List SentFragment}

/-- A datagram that is cut goes out whole if there is a buffer for every piece, and otherwise
as many pieces of it as there are buffers. -/
theorem fragmentDatagram_cut (hlong : ipv6HdrLen + d.payloadLen.toNat > mtu.toNat)
    (hmax : maxPayloadLen mtu ≠ 0) :
    ∃ calls, Passes cfg nd solicited identif d (maxPayloadLen mtu) d.payloadLen 0 calls ∧
      calls.length = pieces (maxPayloadLen mtu).toNat d.payloadLen.toNat ∧
      (calls.length ≤ pool.size →
        ∃ pool', fragmentDatagram cfg nd solicited identif d mtu pool = (calls, some pool') ∧
          pool.size = pool'.size + calls.length) ∧
      (pool.size < calls.length →
        fragmentDatagram cfg nd solicited identif d mtu pool = (calls.take pool.size, none)) := by
  obtain ⟨calls, hcalls⟩ := exists_passes hmax d.payloadLen 0
  refine ⟨calls, hcalls, hcalls.length_eq hmax, fun henough => ?_, fun hshort => ?_⟩
  · rw [fragmentDatagram, if_pos hlong]
    exact fragmentLoop_returns hcalls (Nat.lt_succ_of_le henough) henough
  · rw [fragmentDatagram, if_pos hlong]
    exact fragmentLoop_waits hcalls (Nat.lt_succ_self _) hshort

/-- Where `fragmentDatagram` returns, every piece has had its buffer. -/
theorem passes_of_returns (hlong : ipv6HdrLen + d.payloadLen.toNat > mtu.toNat)
    (h : fragmentDatagram cfg nd solicited identif d mtu pool = (calls, some pool')) :
    Passes cfg nd solicited identif d (maxPayloadLen mtu) d.payloadLen 0 calls ∧
      pool.size = pool'.size + calls.length ∧ (d.payloadLen ≠ 0 → maxPayloadLen mtu ≠ 0) := by
  by_cases hzero : d.payloadLen = 0
  · rw [fragmentDatagram, if_pos hlong, hzero, fragmentLoop, if_pos rfl] at h
    obtain ⟨rfl, heq⟩ := Prod.mk.inj h
    obtain rfl := Option.some.inj heq
    rw [hzero]
    exact ⟨.nil, rfl, fun hne => absurd rfl hne⟩
  · have hmax : maxPayloadLen mtu ≠ 0 := by
      intro hmax
      have hwaits := congrArg Prod.snd h
      rw [fragmentDatagram, if_pos hlong, hmax, fragmentLoop_of_max_eq_zero hzero] at hwaits
      cases hwaits
    obtain ⟨all, hall, -, henough, hshort⟩ :=
      @fragmentDatagram_cut cfg nd solicited identif d mtu pool hlong hmax
    by_cases hsize : all.length ≤ pool.size
    · obtain ⟨pool₁, hsent, hleft⟩ := henough hsize
      obtain ⟨rfl, heq⟩ := Prod.mk.inj (hsent.symm.trans h)
      obtain rfl := Option.some.inj heq
      exact ⟨hall, hleft, fun _ => hmax⟩
    · rw [hshort (Nat.lt_of_not_le hsize)] at h
      cases (Prod.mk.inj h).2

/-- `fragmentDatagram` returns, with these packets written and nothing copied outside of a
packet. -/
def Emits (cfg : Config) (nd solicited : NDCache) (identif : UInt32) (d : Datagram) (mtu : UInt32)
    (frames : List NetPacket) : Prop :=
  ∃ pool calls pool', fragmentDatagram cfg nd solicited identif d mtu pool = (calls, some pool') ∧
    (∀ call ∈ calls, call.Fits) ∧ framesOf calls = frames

/-- What `fragmentDatagram` writes, if it writes anything. -/
theorem fragments_of_returns {frames : List NetPacket}
    (h : fragmentDatagram cfg nd solicited identif d mtu pool = (calls, some pool'))
    (hframes : framesOf calls = frames) (hne : frames ≠ []) :
    Fragments identif d (maxPayloadLen mtu) 0 frames ∧ maxPayloadLen mtu ≠ 0 := by
  by_cases hlong : ipv6HdrLen + d.payloadLen.toNat > mtu.toNat
  · obtain ⟨hcalls, -, hmax⟩ := passes_of_returns hlong h
    have hzero : d.payloadLen ≠ 0 := by
      intro hzero
      rw [hzero] at hcalls
      cases hcalls with
      | nil => exact hne hframes.symm
      | cons hne' _ => exact hne' rfl
    cases hmac : fragmentMac nd solicited d.headers with
    | none =>
      refine absurd (hframes.symm.trans ?_) hne
      exact List.filterMap_eq_nil_iff.mpr (hcalls.unresolved hmac)
    | some mac =>
      rw [← hframes]
      exact ⟨hcalls.fragments hmac (hmax hzero) (Nat.zero_add _), hmax hzero⟩
  · rw [fragmentDatagram, if_neg hlong] at h
    obtain ⟨rfl, -⟩ := Prod.mk.inj h
    exact absurd hframes.symm hne

end Datagram

theorem maxPayloadLen_cases (mtu : UInt32) :
    (maxPayloadLen mtu).toNat < 8 ∨ 8 ∣ (maxPayloadLen mtu).toNat := by
  have hcheck := toNat_checkLength (mtu - 40 - 8).toUInt16
  unfold maxPayloadLen
  split at hcheck
  · right
    rw [hcheck]
    exact Nat.dvd_mul_left 8 _
  · omega

theorem toNat_maxPayloadLen {mtu : UInt32} (hlow : 56 ≤ mtu.toNat) (hhigh : mtu.toNat ≤ 1500) :
    (maxPayloadLen mtu).toNat = (mtu.toNat - 48) / 8 * 8 := by
  have hroom : (mtu - 40 - 8).toUInt16.toNat = mtu.toNat - 48 := by
    have h40 : (mtu - 40).toNat = mtu.toNat - 40 :=
      UInt32.toNat_sub_of_le _ _ (UInt32.le_iff_toNat_le.mpr (Nat.le_trans (by decide) hlow))
    have h8 : (mtu - 40 - 8).toNat = mtu.toNat - 40 - 8 := by
      rw [← h40]
      apply UInt32.toNat_sub_of_le
      rw [UInt32.le_iff_toNat_le, h40]
      show 8 ≤ mtu.toNat - 40
      omega
    rw [UInt32.toNat_toUInt16, h8]
    omega
  unfold maxPayloadLen
  rw [toNat_checkLength, hroom]
  split
  · rfl
  · omega

end Sent

end NatBox
