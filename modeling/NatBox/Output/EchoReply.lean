import NatBox.ChecksumEnds
import NatBox.Fragment.Mtu
import NatBox.InternetChecksum
import NatBox.Output.Buffers

/-
The two answers to an echo request.

A request that arrives whole is answered by `sendEchoResp`, which builds eight bytes out of two
fields of it.  One that arrives in fragments is turned into its answer in place by
`processDatagram` and goes to `sendto` at its full length.  There the checksum is formed while
that of the request is still in its field, and over the addresses of the request, where
`sendto` puts `link_local`.
-/

namespace NatBox

open OnesComplement

/-- The case `ECHOREQ` of `icmpv6_in`. -/
def echoRequestIn (cfg : Config) (pkt : NetPacket) (pool : Ipv6BufPool) :
    Except SendFault (NetPacket × Ipv6BufPool) :=
  Pooled.sendEchoResp cfg pkt.ip.dest pkt.netSrc pkt.ip.src (ntohs (pkt.body.load16 4))
    (ntohs (pkt.body.load16 6)) pool

/-- The payload that `processDatagram` passes to `sendto` for an echo request. -/
def echoAnswer (heap : Mem) (d : Datagram) : Except Fault Mem :=
  (echoSum heap d).map fun sum => (d.payload.write 0 [echoResp]).store16 2 (htons sum)

theorem processDatagram_eq {cfg : Config} {nd solicited : NDCache} {identif mtu : UInt32}
    {heap : Mem} {d : Datagram} {pool : Ipv6BufPool} (hecho : d.asksEcho = true) :
    processDatagram cfg nd solicited identif mtu heap d pool =
      (echoAnswer heap d).map fun payload =>
        some (sendto cfg nd solicited identif mtu d.headers.src ipv6Icmp payload d.payloadLen
          pool) := by
  rw [processDatagram, if_pos hecho, echoAnswer]
  cases echoSum heap d with
  | error f => rfl
  | ok sum => rfl

/-! ## What the answers carry -/

/-- Identifier, sequence number and data of an echo message of `len` bytes. -/
structure EchoContents where
  identifier : UInt16
  seqNumber : UInt16
  data : List UInt8

def echoContents (msg : Mem) (len : Nat) : EchoContents where
  identifier := ntohs (msg.load16 4)
  seqNumber := ntohs (msg.load16 6)
  data := msg.read 8 (len - 8)

/-- The datagram is the echo request of the packet, put together again. -/
structure SameRequest (pkt : NetPacket) (d : Datagram) : Prop where
  asksEcho : d.asksEcho = true
  src : d.headers.src = pkt.ip.src
  dest : d.headers.dest = pkt.ip.dest
  payloadLen : d.payloadLen = pkt.ip.hostPayloadLen
  payload : d.payload.read 0 d.payloadLen.toNat = pkt.body.read 0 d.payloadLen.toNat

section Contents

variable {cfg : Config} {heap : Mem} {pkt : NetPacket} {d : Datagram}

/-- The contents lie behind the first four bytes. -/
theorem echoContents_congr {m m' : Mem} {len : Nat} (hlen : 8 ≤ len)
    (h : ∀ i, 4 ≤ i → i < len → m i = m' i) : echoContents m len = echoContents m' len := by
  have h₄ : m.load16 4 = m'.load16 4 :=
    Mem.load16_congr (h 4 (by omega) (by omega)) (h 5 (by omega) (by omega))
  have h₆ : m.load16 6 = m'.load16 6 :=
    Mem.load16_congr (h 6 (by omega) (by omega)) (h 7 (by omega) (by omega))
  have hdata : m.read 8 (len - 8) = m'.read 8 (len - 8) :=
    Mem.read_congr fun i hi hi' => h i (by omega) (by omega)
  rw [echoContents, echoContents, h₄, h₆, hdata]

/-- Messages of the same bytes have the same contents. -/
theorem echoContents_of_read {m m' : Mem} {len : Nat} (hlen : 8 ≤ len)
    (h : m.read 0 len = m'.read 0 len) : echoContents m len = echoContents m' len := by
  refine echoContents_congr hlen fun i _ hi => ?_
  have hbyte : (m.read 0 len)[i]? = (m'.read 0 len)[i]? := by rw [h]
  rwa [Mem.getElem?_read hi, Mem.getElem?_read hi, Option.some.injEq, Nat.zero_add] at hbyte

/-- `sendEchoResp` sends eight bytes, with the two numbers it is given. -/
theorem sendEchoResp_ok (cfg : Config) (ipSrc : Ipv6Addr) (macDest : MacAddr)
    (ipDest : Ipv6Addr) (identifier seqNumber : UInt16) :
    ∃ frame, sendEchoResp cfg ipSrc macDest ipDest identifier seqNumber = .ok frame ∧
      frame.ip.nextHeader = ipv6Icmp ∧ frame.ip.hostPayloadLen = 8 ∧
      echoContents frame.body 8 = ⟨identifier, seqNumber, []⟩ := by
  unfold sendEchoResp
  obtain ⟨ck, -, hok⟩ := fillChecksum_ok
    { fillIPdatagram (fillEthernet cfg clearedPacket macDest (UInt8.ofInt cfg.ifprime)) ipSrc
        ipDest 8 ipv6Icmp with
      body := ((((fillIPdatagram (fillEthernet cfg clearedPacket macDest
        (UInt8.ofInt cfg.ifprime)) ipSrc ipDest 8 ipv6Icmp).body.write 0 [echoResp, 0]).store16 2
          0).store16 4 (htons identifier)).store16 6 (htons seqNumber) }
    (by omega) (show (8 : UInt32).toNat = 2 * 4 by decide)
  refine ⟨_, hok, rfl, ntohs_htons 8, ?_⟩
  have h₄ : ∀ m : Mem, ((((m.store16 2 0).store16 4 (htons identifier)).store16 6
      (htons seqNumber)).store16 2 (htons ck)).load16 4 = htons identifier := by
    intro m
    rw [Mem.load16_store16_of_disjoint (by omega), Mem.load16_store16_of_disjoint (by omega),
      Mem.load16_store16]
  have h₆ : ∀ m : Mem, ((((m.store16 2 0).store16 4 (htons identifier)).store16 6
      (htons seqNumber)).store16 2 (htons ck)).load16 6 = htons seqNumber := by
    intro m
    rw [Mem.load16_store16_of_disjoint (by omega), Mem.load16_store16]
  rw [echoContents]
  dsimp only
  rw [h₄, h₆, ntohs_htons, ntohs_htons]
  rfl

/-- The pseudo-header and the message that `processDatagram` sums. -/
def answerBlock (d : Datagram) : List UInt8 :=
  makePseudoHdr d.headers.dest d.headers.src (d.payload.write 0 [echoResp]) d.payloadLen.toUInt32

/-- The byte behind the block, where its length is odd. -/
def heapByte (heap : Mem) (d : Datagram) : Nat :=
  if d.payloadLen.toNat % 2 = 1 then (heap (40 + d.payloadLen.toNat)).toNat else 0

theorem echoAnswer_ok (heap : Mem) (hlen : d.payloadLen.toNat ≤ 65494) :
    ∃ ck : UInt16,
      ck.toNat = 65535 - foldOnce (wordSum (answerBlock d) + heapByte heap d) ∧
      echoAnswer heap d = .ok ((d.payload.write 0 [echoResp]).store16 2 (htons ck)) := by
  have hblock : (answerBlock d).length = 40 + d.payloadLen.toNat := by
    rw [answerBlock, length_makePseudoHdr, UInt16.toNat_toUInt32]
    rfl
  have hsize := toNat_pseudo_add d.payloadLen
  obtain ⟨ck, hck, hv⟩ := toNat_checksumv6 (Mem.ofBlock (answerBlock d) heap)
    (show ((answerBlock d).length + 1) / 2 < 32768 by omega)
    (show ((40 + d.payloadLen.toUInt32).toNat + 1) / 2 = _ by rw [hsize, hblock])
  have hover : overread (answerBlock d) heap = heapByte heap d := by
    rw [overread, heapByte, hblock]
    by_cases hodd : d.payloadLen.toNat % 2 = 1
    · rw [if_pos hodd, if_pos (by omega)]
    · rw [if_neg hodd, if_neg (by omega)]
  rw [memWordSum_overread, hover] at hv
  refine ⟨ck, hv, ?_⟩
  have hsum : echoSum heap d = .ok ck := hck
  rw [echoAnswer, hsum]
  rfl

/-- The numbers alone are the contents of a request of eight bytes. -/
theorem echoContents_nodata_iff {msg : Mem} {len : Nat} (hlen : 8 ≤ len) :
    ⟨ntohs (msg.load16 4), ntohs (msg.load16 6), []⟩ = echoContents msg len ↔ len = 8 := by
  constructor
  · intro h
    have hdata := congrArg (fun contents => contents.data.length) h
    dsimp only [echoContents] at hdata
    rw [Mem.length_read, List.length_nil] at hdata
    omega
  · rintro rfl
    rfl

/-- Changed in place the answer keeps the contents of the request. -/
theorem echoContents_answer (hsame : SameRequest pkt d)
    (hlen : 8 ≤ pkt.ip.hostPayloadLen.toNat) (ck : UInt16) :
    echoContents ((d.payload.write 0 [echoResp]).store16 2 (htons ck)) d.payloadLen.toNat =
      echoContents pkt.body pkt.ip.hostPayloadLen.toNat := by
  have hn : d.payloadLen.toNat = pkt.ip.hostPayloadLen.toNat := by rw [hsame.payloadLen]
  have hone : [echoResp].length = 1 := rfl
  rw [← hn] at hlen ⊢
  refine (echoContents_congr hlen fun i hi _ => ?_).trans (echoContents_of_read hlen hsame.payload)
  rw [Mem.store16_outside (by omega), Mem.write_outside (by omega)]

end Contents

/-! ## What is sent -/

/-- The packets bring an echo message with these contents over: one of them whole, or all of
them as the fragments of it. -/
def RepliesWith (frames : List NetPacket) (contents : EchoContents) : Prop :=
  ∃ reply : Datagram, 8 ≤ reply.payloadLen.toNat ∧
    echoContents reply.payload reply.payloadLen.toNat = contents ∧
    ((∃ pkt, frames = [pkt] ∧ pkt.ip.nextHeader = ipv6Icmp ∧
        pkt.ip.hostPayloadLen = reply.payloadLen ∧
        pkt.body.read 0 reply.payloadLen.toNat = reply.payload.read 0 reply.payloadLen.toNat) ∨
      ((∀ pkt ∈ frames, pkt.ip.nextHeader = ipv6Frag) ∧ Partitions reply frames))

theorem repliesWith_whole_iff {frame : NetPacket} {contents : EchoContents}
    (hnext : frame.ip.nextHeader = ipv6Icmp) (hlen : 8 ≤ frame.ip.hostPayloadLen.toNat) :
    RepliesWith [frame] contents ↔
      echoContents frame.body frame.ip.hostPayloadLen.toNat = contents := by
  constructor
  · rintro ⟨reply, h8, rfl, ⟨pkt, heq, -, hn, hread⟩ | ⟨hfrag, -⟩⟩
    · obtain rfl := List.singleton_inj.mp heq
      rw [hn]
      exact echoContents_of_read h8 hread
    · have hne : ipv6Icmp ≠ ipv6Frag := by decide
      exact absurd (hnext.symm.trans (hfrag frame (List.mem_singleton_self _))) hne
  · rintro rfl
    exact ⟨⟨frame.ip.hostPayloadLen, frame.ip, frame.body⟩, hlen, rfl,
      .inl ⟨frame, rfl, hnext, rfl, rfl⟩⟩

/-- Nothing is no reply. -/
theorem not_repliesWith_nil {contents : EchoContents} : ¬ RepliesWith [] contents := by
  rintro ⟨reply, h8, -, ⟨pkt, hnil, -⟩ | ⟨-, hpart⟩⟩
  · cases hnil
  · have hlen := congrArg List.length hpart.data
    rw [Mem.length_read] at hlen
    have hzero : (dataOf ([].map fragDescOf)).length = 0 := rfl
    omega

/-- The two replies to an echo request, whole and in fragments, carry its identifier, its
sequence number and its data. -/
def RepliesAgree (cfg : Config) (heap : Mem) (nd solicited : NDCache) (identif mtu : UInt32)
    (pool : Ipv6BufPool) (pkt : NetPacket) (d : Datagram) : Prop :=
  ∃ frame pool' calls status, echoRequestIn cfg pkt pool = .ok (frame, pool') ∧
    processDatagram cfg nd solicited identif mtu heap d pool = .ok (some (calls, status)) ∧
    RepliesWith [frame] (echoContents pkt.body pkt.ip.hostPayloadLen.toNat) ∧
    RepliesWith (framesOf calls) (echoContents pkt.body pkt.ip.hostPayloadLen.toNat)

section Replies

variable {cfg : Config} {heap : Mem} {nd solicited : NDCache} {identif mtu : UInt32}
  {pool : Ipv6BufPool} {pkt : NetPacket} {d : Datagram}

/-- With a free buffer a request that arrives whole gets its numbers back, and no data. -/
theorem echoRequestIn_ok (hbuffer : pool.size ≠ 0) :
    ∃ frame, echoRequestIn cfg pkt pool = .ok (frame, pool) ∧
      ∀ contents, RepliesWith [frame] contents ↔
        ⟨ntohs (pkt.body.load16 4), ntohs (pkt.body.load16 6), []⟩ = contents := by
  obtain ⟨frame, hframe, hnext, hlen, hdirect⟩ := sendEchoResp_ok cfg pkt.ip.dest
    pkt.netSrc pkt.ip.src (ntohs (pkt.body.load16 4)) (ntohs (pkt.body.load16 6))
  have h8 : frame.ip.hostPayloadLen.toNat = 8 := by
    rw [hlen]
    rfl
  refine ⟨frame, ?_, fun contents => ?_⟩
  · unfold echoRequestIn Pooled.sendEchoResp withBuffer
    rcases hget : pool.getbuf with _ | ⟨packet, rest⟩
    · exact absurd (BufferPool.getbuf_eq_none_iff.mp hget) hbuffer
    · dsimp only
      rw [hframe]
      exact congrArg (fun pool => Except.ok (frame, pool)) (BufferPool.freebuf_getbuf hget)
  · rw [repliesWith_whole_iff hnext (Nat.le_of_eq h8.symm), h8, hdirect]

theorem echoRequestIn_waits (hempty : pool.size = 0) :
    echoRequestIn cfg pkt pool = .error .blocked := by
  unfold echoRequestIn Pooled.sendEchoResp withBuffer
  rw [BufferPool.getbuf_eq_none_iff.mpr hempty]

/-- Eight bytes go out in one fragment, if the MTU is smaller than they are, a buffer is free
and an address is found; in all other cases no packet is written. -/
theorem sendto_eight {payload : Mem} {destIpv6 : Ipv6Addr} {calls : List SentFragment}
    {status : Option (Int × Ipv6BufPool)} (hbuffer : pool.size ≠ 0)
    (h : sendto cfg nd solicited identif mtu destIpv6 ipv6Icmp payload 8 pool = (calls, status)) :
    (mtu.toNat < 48 ∧
        ((lookupNDEntry nd destIpv6).isSome ∨ (lookupNDEntry solicited cfg.linkLocal).isSome) ∧
        (∀ pkt ∈ framesOf calls, pkt.ip.nextHeader = ipv6Frag) ∧
        Partitions (sendtoDatagram cfg destIpv6 ipv6Icmp payload 8) (framesOf calls)) ∨
      (¬ (mtu.toNat < 48 ∧ ((lookupNDEntry nd destIpv6).isSome ∨
          (lookupNDEntry solicited cfg.linkLocal).isSome)) ∧ framesOf calls = []) := by
  have hiff : (fragmentMac nd solicited
      (sendtoDatagram cfg destIpv6 ipv6Icmp payload 8).headers).isSome ↔
      (lookupNDEntry nd destIpv6).isSome ∨ (lookupNDEntry solicited cfg.linkLocal).isSome :=
    fragmentMac_isSome_iff nd solicited _
  rw [← hiff]
  by_cases hsmall : mtu.toNat < 48
  · rw [and_iff_right hsmall, and_iff_right hsmall]
    have hpiece := toNat_maxPayloadLen_eq mtu
    have hroom : mtuRoom mtu = mtu.toNat + 65488 := Nat.mod_eq_of_lt (by omega)
    rw [mtuPiece, hroom, if_pos (by omega)] at hpiece
    have hmax : maxPayloadLen mtu ≠ 0 := by
      intro hzero
      rw [hzero, show (0 : UInt16).toNat = 0 from rfl] at hpiece
      omega
    have h8 : 8 ∣ (maxPayloadLen mtu).toNat := hpiece ▸ Nat.dvd_mul_left 8 _
    obtain ⟨sent, hsent, hcount, henough, -⟩ := @fragmentDatagram_cut cfg nd solicited identif
      (sendtoDatagram cfg destIpv6 ipv6Icmp payload 8) mtu pool hsmall hmax
    have hone : pieces (maxPayloadLen mtu).toNat 8 = 1 := by
      rw [pieces, if_neg (by omega), Nat.div_eq_of_lt (by omega), Nat.mod_eq_of_lt (by omega)]
      rfl
    have hlength : sent.length = 1 := hcount.trans hone
    obtain ⟨pool', hreturns, -⟩ := henough (by omega)
    obtain rfl : sent = calls := by
      unfold sendto at h
      rw [hreturns] at h
      exact (Prod.mk.inj h).1
    cases hmac : fragmentMac nd solicited
        (sendtoDatagram cfg destIpv6 ipv6Icmp payload 8).headers with
    | none =>
      exact .inr ⟨fun h => Bool.noConfusion h,
        List.filterMap_eq_nil_iff.mpr (hsent.unresolved hmac)⟩
    | some mac =>
      have hfrags := hsent.fragments hmac hmax (Nat.zero_add _)
      refine .inl ⟨rfl, fun pkt hpkt => ?_, hfrags.partitions hmax h8⟩
      obtain ⟨start, hfrag, -⟩ := hfrags.mem hpkt
      rw [hfrag.ip_eq]
  · rw [sendto_of_fits _ _ _ _ _ _ _ _ (Nat.le_of_not_lt hsmall)] at h
    obtain ⟨rfl, -⟩ := Prod.mk.inj h
    exact .inr ⟨fun hsent => hsmall hsent.1, rfl⟩

/-- Both replies carry the identifier, the sequence number and the data of the request exactly if
it has no data and the second of them, which `sendto` only sends if it is longer than the MTU,
finds an address and a buffer. -/
theorem echoReplies_agree_iff (cfg : Config) (heap : Mem) (nd solicited : NDCache)
    (identif mtu : UInt32) (pool : Ipv6BufPool) (hsame : SameRequest pkt d)
    (hlen : 8 ≤ pkt.ip.hostPayloadLen.toNat) (hfits : pkt.ip.hostPayloadLen.toNat ≤ bodyLen) :
    RepliesAgree cfg heap nd solicited identif mtu pool pkt d ↔
      pkt.ip.hostPayloadLen.toNat = 8 ∧ mtu.toNat < 48 ∧ pool.size ≠ 0 ∧
        ((lookupNDEntry nd d.headers.src).isSome ∨
          (lookupNDEntry solicited cfg.linkLocal).isSome) := by
  have hbody : bodyLen = 1460 := rfl
  have hn : d.payloadLen.toNat = pkt.ip.hostPayloadLen.toNat := by rw [hsame.payloadLen]
  by_cases hbuffer : pool.size = 0
  · refine iff_of_false ?_ fun h => h.2.2.1 hbuffer
    rintro ⟨frame, pool', calls, status, hframe, -⟩
    rw [echoRequestIn_waits hbuffer] at hframe
    cases hframe
  obtain ⟨frame, hframe, hwhole⟩ := @echoRequestIn_ok cfg pool pkt hbuffer
  obtain ⟨ck, -, hanswer⟩ := echoAnswer_ok heap (show d.payloadLen.toNat ≤ 65494 by omega)
  have hcontents := echoContents_answer hsame hlen ck
  have hprocess : processDatagram cfg nd solicited identif mtu heap d pool =
      .ok (some (sendto cfg nd solicited identif mtu d.headers.src ipv6Icmp
        ((d.payload.write 0 [echoResp]).store16 2 (htons ck)) d.payloadLen pool)) := by
    rw [processDatagram_eq hsame.asksEcho, hanswer]
    rfl
  generalize (d.payload.write 0 [echoResp]).store16 2 (htons ck) = payload at hcontents hprocess
  have hnodata : RepliesWith [frame] (echoContents pkt.body pkt.ip.hostPayloadLen.toNat) ↔
      pkt.ip.hostPayloadLen.toNat = 8 := (hwhole _).trans (echoContents_nodata_iff hlen)
  by_cases height : pkt.ip.hostPayloadLen.toNat = 8
  · have hd : d.payloadLen = 8 := UInt16.toNat_inj.mp (hn.trans height)
    rw [hd] at hprocess hcontents
    rcases hsendto : sendto cfg nd solicited identif mtu d.headers.src ipv6Icmp payload 8 pool with
      ⟨calls, status⟩
    have h8 : 8 ≤ (8 : UInt16).toNat := by decide
    rw [hsendto] at hprocess
    rw [and_iff_right height, and_iff_right (a := pool.size ≠ 0) hbuffer]
    rcases sendto_eight hbuffer hsendto with ⟨hsmall, hmac, hfrag, hpart⟩ | ⟨hnot, hnil⟩
    · have hreply : RepliesWith (framesOf calls)
          (echoContents pkt.body pkt.ip.hostPayloadLen.toNat) :=
        ⟨sendtoDatagram cfg d.headers.src ipv6Icmp payload 8, h8, hcontents, .inr ⟨hfrag, hpart⟩⟩
      exact iff_of_true ⟨frame, pool, calls, status, hframe, hprocess, hnodata.mpr height, hreply⟩
        ⟨hsmall, hmac⟩
    · refine iff_of_false ?_ hnot
      rintro ⟨frame', pool', calls', status', -, hprocess', -, hreply⟩
      have hcalls := Option.some.inj (Except.ok.inj (hprocess.symm.trans hprocess'))
      rw [← (Prod.mk.inj hcalls).1, hnil] at hreply
      exact not_repliesWith_nil hreply
  · refine iff_of_false ?_ fun h => height h.1
    rintro ⟨frame', pool', calls', status', hframe', -, hreply, -⟩
    obtain ⟨rfl, -⟩ := Prod.mk.inj (Except.ok.inj (hframe.symm.trans hframe'))
    exact height (hnodata.mp hreply)

end Replies

/-- The request of eight bytes, whole and put together, before there is an MTU. -/
theorem echoReplies_agree_without_data :
    RepliesAgree exampleConfig (fun _ => 0) exampleCache exampleCache 7 0 ipv6bufpool
      (examplePacket exampleServer exampleConfig.ipv6Addr [0x80, 0, 0, 0, 0, 7, 0, 1])
      ⟨8, (examplePacket exampleServer exampleConfig.ipv6Addr [0x80, 0, 0, 0, 0, 7, 0, 1]).ip,
        (examplePacket exampleServer exampleConfig.ipv6Addr [0x80, 0, 0, 0, 0, 7, 0, 1]).body⟩ :=
  (echoReplies_agree_iff exampleConfig (fun _ => 0) exampleCache exampleCache 7 0 ipv6bufpool
    ⟨by decide +kernel, rfl, rfl, by decide +kernel, rfl⟩ (by decide +kernel)
    (by decide +kernel)).mpr ⟨by decide +kernel, by decide, by decide, by decide +kernel⟩

/-- A request with one byte of data. -/
def exampleEcho : NetPacket :=
  examplePacket exampleServer exampleConfig.ipv6Addr [0x80, 0, 0, 0, 0, 7, 0, 1, 0x2A]

/-- Answered whole it loses its data, and in fragments, with an MTU that holds the answer, it gets
none. -/
theorem echoReplies_differ_one_byte :
    ¬ RepliesAgree exampleConfig (fun _ => 0) exampleCache exampleCache 7 1500 ipv6bufpool
      exampleEcho ⟨9, exampleEcho.ip, exampleEcho.body⟩ ∧
    processDatagram exampleConfig exampleCache exampleCache 7 1500 (fun _ => 0)
      ⟨9, exampleEcho.ip, exampleEcho.body⟩ ipv6bufpool =
        .ok (some ([], some (statusOk, ipv6bufpool))) := by
  obtain ⟨frame, hframe, hwhole⟩ := @echoRequestIn_ok exampleConfig ipv6bufpool exampleEcho
    (by decide)
  obtain ⟨ck, -, hanswer⟩ := echoAnswer_ok (d := ⟨9, exampleEcho.ip, exampleEcho.body⟩)
    (fun _ => 0) (by decide)
  constructor
  · rintro ⟨frame', pool', calls, status, hframe', -, hreply, -⟩
    obtain ⟨rfl, -⟩ := Prod.mk.inj (Except.ok.inj (hframe.symm.trans hframe'))
    have hdata := congrArg (fun contents => contents.data.length) ((hwhole _).mp hreply)
    revert hdata
    decide +kernel
  · rw [processDatagram_eq (by decide +kernel), hanswer]
    exact congrArg (fun r => Except.ok (some r)) (sendto_of_fits _ _ _ _ _ _ _ _ (by decide))

/-! ## The checksum of the answer -/

/-- The checksum of an ICMPv6 datagram is right for its addresses and its length. -/
def DatagramVerifies (d : Datagram) : Prop :=
  OnesComplement.sum 65535 (words (makePseudoHdr d.headers.src d.headers.dest d.payload
    d.payloadLen.toUInt32)) = 65535

instance (d : Datagram) : Decidable (DatagramVerifies d) := inferInstanceAs (Decidable (_ = _))

/-- The plain sum over the pseudo-header and the message of a datagram. -/
def datagramSum (d : Datagram) : Nat :=
  wordSum (makePseudoHdr d.headers.src d.headers.dest d.payload d.payloadLen.toUInt32)

/-- The checksum that a message carries. -/
def checksumField (d : Datagram) : Nat := (ntohs (d.payload.load16 2)).toNat

/-- The answer ends, and what it leaves in the sum by mistake cancels out: the checksum of the
request, its destination in the place of `link_local`, the byte behind the block and the carry
of the fold. -/
def AnswerSumsUp (cfg : Config) (heap : Mem) (d : Datagram) : Prop :=
  d.payloadLen.toNat ≤ 65494 ∧
    checksumField d + wordSum d.headers.dest.toList + heapByte heap d ≡
      wordSum cfg.linkLocal.toList + foldCarry (datagramSum d + 256 + heapByte heap d) [MOD 65535]

instance (cfg : Config) (heap : Mem) (d : Datagram) : Decidable (AnswerSumsUp cfg heap d) :=
  inferInstanceAs (Decidable (_ ∧ _))

section Sums

variable {d : Datagram}

theorem datagramSum_eq (d : Datagram) :
    datagramSum d = wordSum d.headers.src.toList + wordSum d.headers.dest.toList +
      d.payloadLen.toNat + 58 + wordSum (d.payload.read 0 d.payloadLen.toNat) := by
  have hlen := d.payloadLen.toNat_lt
  rw [datagramSum, wordSum_makePseudoHdr, UInt16.toNat_toUInt32]
  omega

theorem datagramVerifies_iff_dvd (d : Datagram) : DatagramVerifies d ↔ 65535 ∣ datagramSum d := by
  have hiff := sum_eq_max_iff (show 0 < 65535 by omega) (words_le (makePseudoHdr d.headers.src
    d.headers.dest d.payload d.payloadLen.toUInt32))
  have hpos : 0 < datagramSum d := by
    rw [datagramSum_eq]
    omega
  exact hiff.trans (and_iff_right hpos)

/-- The first two words of a message apart from the others. -/
theorem wordSum_message (m : Mem) {len : Nat} (hlen : 4 ≤ len) :
    wordSum (m.read 0 len) = (ntohs (m.load16 0)).toNat + (ntohs (m.load16 2)).toNat +
      wordSum (m.read 4 (len - 4)) := by
  have hsplit := Mem.read_add m 0 4 (len - 4)
  rw [Nat.add_sub_cancel' hlen, Nat.zero_add] at hsplit
  have hfront : wordSum (m.read 0 4) =
      (ntohs (m.load16 0)).toNat + ((ntohs (m.load16 2)).toNat + 0) := by
    show memWordSum m 0 2 = _
    rw [memWordSum_succ, memWordSum_succ]
    rfl
  rw [hsplit, wordSum_append _ _ (by rw [Mem.length_read]), hfront, Nat.add_zero]

/-- The other type adds 256 to the sum of a request. -/
theorem wordSum_echoResp {m : Mem} (hreq : m 0 = echoReq) {len : Nat} (hlen : 4 ≤ len) :
    wordSum ((m.write 0 [echoResp]).read 0 len) = wordSum (m.read 0 len) + 256 := by
  have hone : [echoResp].length = 1 := rfl
  have hrest : (m.write 0 [echoResp]).read 4 (len - 4) = m.read 4 (len - 4) :=
    Mem.read_write_of_disjoint (by omega)
  have h₂ : (m.write 0 [echoResp]).load16 2 = m.load16 2 :=
    Mem.load16_congr (Mem.write_outside (by omega)) (Mem.write_outside (by omega))
  have h₀ : (m.write 0 [echoResp]) 0 = echoResp := Mem.write_inside (i := 0) rfl
  have h₁ : (m.write 0 [echoResp]) (0 + 1) = m (0 + 1) := Mem.write_outside (by omega)
  rw [wordSum_message _ hlen, wordSum_message m hlen, hrest, h₂, toNat_ntohs_load16 _ 0,
    toNat_ntohs_load16 m 0, h₀, h₁, hreq]
  show 129 * 256 + _ + _ + _ = 128 * 256 + _ + _ + _ + 256
  omega

/-- Another checksum in a message. -/
theorem wordSum_store16 (m : Mem) (ck : UInt16) {len : Nat} (hlen : 4 ≤ len) :
    wordSum ((m.store16 2 (htons ck)).read 0 len) + (ntohs (m.load16 2)).toNat =
      wordSum (m.read 0 len) + ck.toNat := by
  have hrest : (m.store16 2 (htons ck)).read 4 (len - 4) = m.read 4 (len - 4) :=
    Mem.read_store16_of_disjoint (by omega)
  have h₀ : (m.store16 2 (htons ck)).load16 0 = m.load16 0 :=
    Mem.load16_store16_of_disjoint (by omega)
  rw [wordSum_message _ hlen, wordSum_message m hlen, hrest, h₀, Mem.load16_store16, ntohs_htons]
  omega

/-- The sum that `processDatagram` forms. -/
theorem wordSum_answerBlock (hecho : d.asksEcho = true) (hlen : 4 ≤ d.payloadLen.toNat) :
    wordSum (answerBlock d) = datagramSum d + 256 := by
  have hreq : d.payload 0 = echoReq := by
    rw [Datagram.asksEcho, Bool.and_eq_true, decide_eq_true_iff, decide_eq_true_iff] at hecho
    exact hecho.2
  have hn := d.payloadLen.toNat_lt
  rw [answerBlock, wordSum_makePseudoHdr, UInt16.toNat_toUInt32, wordSum_echoResp hreq hlen,
    datagramSum_eq]
  omega

/-- The answer to an echo request that was put together verifies exactly if the mistakes in its
sum cancel out. -/
theorem echoAnswer_verifies_iff (cfg : Config) (heap : Mem) (hecho : d.asksEcho = true)
    (hlen : 4 ≤ d.payloadLen.toNat) :
    (∀ nd solicited identif mtu pool, processDatagram cfg nd solicited identif mtu heap d pool =
      (echoAnswer heap d).map fun payload =>
        some (sendto cfg nd solicited identif mtu d.headers.src ipv6Icmp payload d.payloadLen
          pool)) ∧
    ((∃ payload, echoAnswer heap d = .ok payload ∧
        DatagramVerifies (sendtoDatagram cfg d.headers.src ipv6Icmp payload d.payloadLen)) ↔
      AnswerSumsUp cfg heap d) := by
  refine ⟨fun _ _ _ _ _ => processDatagram_eq hecho, ?_⟩
  unfold AnswerSumsUp
  by_cases hends : d.payloadLen.toNat ≤ 65494
  · rw [and_iff_right hends]
    obtain ⟨ck, hck, hanswer⟩ := echoAnswer_ok heap hends
    rw [wordSum_answerBlock hecho hlen] at hck
    have hfold := foldOnce_modEq (s := datagramSum d + 256 + heapByte heap d)
    have hlt := foldOnce_lt (datagramSum d + 256 + heapByte heap d)
    have hreq : d.payload 0 = echoReq := by
      rw [Datagram.asksEcho, Bool.and_eq_true, decide_eq_true_iff, decide_eq_true_iff] at hecho
      exact hecho.2
    have hone : [echoResp].length = 1 := rfl
    have hfield : (d.payload.write 0 [echoResp]).load16 2 = d.payload.load16 2 :=
      Mem.load16_congr (Mem.write_outside (by omega)) (Mem.write_outside (by omega))
    have hmessage := wordSum_store16 (d.payload.write 0 [echoResp]) ck hlen
    rw [hfield, wordSum_echoResp hreq hlen] at hmessage
    have hreply := datagramSum_eq (sendtoDatagram cfg d.headers.src ipv6Icmp
      ((d.payload.write 0 [echoResp]).store16 2 (htons ck)) d.payloadLen)
    have hrequest := datagramSum_eq d
    have hverifies : (∃ payload, echoAnswer heap d = .ok payload ∧
        DatagramVerifies (sendtoDatagram cfg d.headers.src ipv6Icmp payload d.payloadLen)) ↔
        65535 ∣ datagramSum (sendtoDatagram cfg d.headers.src ipv6Icmp
          ((d.payload.write 0 [echoResp]).store16 2 (htons ck)) d.payloadLen) := by
      rw [← datagramVerifies_iff_dvd]
      constructor
      · rintro ⟨payload, hpayload, hok⟩
        rw [hanswer, Except.ok.injEq] at hpayload
        rwa [hpayload]
      · exact fun h => ⟨_, hanswer, h⟩
    rw [hverifies, hreply]
    dsimp only [sendtoDatagram]
    -- The receiver's sum and what stands on the left are together the sum of the request
    -- with its fold undone.
    unfold Nat.ModEq at hfold ⊢
    unfold checksumField
    generalize datagramSum d = request at hck hfold hlt hrequest ⊢
    generalize foldOnce (request + 256 + heapByte heap d) = folded at hck hfold hlt
    omega
  · refine iff_of_false ?_ fun h => hends h.1
    rintro ⟨payload, hpayload, -⟩
    rw [echoAnswer, echoSum_endless heap (Nat.lt_of_not_le hends)] at hpayload
    cases hpayload

end Sums

/-- An echo request to `link_local`, with the checksum `high`, `low` and the identifier. -/
def exampleRequest (high low idHigh idLow : UInt8) : Datagram :=
  let pkt := examplePacket exampleHost exampleConfig.linkLocal
    [0x80, 0, high, low, idHigh, idLow, 0, 1]
  ⟨8, pkt.ip, pkt.body⟩

/-- A request whose checksum happens to be zero. -/
theorem echoAnswer_verifies_zero_checksum : DatagramVerifies (exampleRequest 0 0 0x5F 0xE8) ∧
    ∃ payload, echoAnswer (fun _ => 0) (exampleRequest 0 0 0x5F 0xE8) = .ok payload ∧
      DatagramVerifies (sendtoDatagram exampleConfig exampleHost ipv6Icmp payload 8) := by
  refine ⟨by decide +kernel, ?_⟩
  have hecho : (exampleRequest 0 0 0x5F 0xE8).asksEcho = true := by decide +kernel
  exact (echoAnswer_verifies_iff exampleConfig (fun _ => 0) hecho (by decide)).2.mpr
    (by decide +kernel)

/-- One with another checksum. -/
theorem echoAnswer_fails_other_checksum : DatagramVerifies (exampleRequest 0x5F 0xE1 0 7) ∧
    (exampleRequest 0x5F 0xE1 0 7).asksEcho = true ∧
    ∃ payload, echoAnswer (fun _ => 0) (exampleRequest 0x5F 0xE1 0 7) = .ok payload ∧
      ¬ DatagramVerifies (sendtoDatagram exampleConfig exampleHost ipv6Icmp payload 8) := by
  refine ⟨by decide +kernel, by decide +kernel, ?_⟩
  have hwrong : ((echoAnswer (fun _ => 0) (exampleRequest 0x5F 0xE1 0 7)).toOption.map
      fun payload => decide (DatagramVerifies
        (sendtoDatagram exampleConfig exampleHost ipv6Icmp payload 8))) = some false := by
    decide +kernel
  obtain ⟨payload, hpayload, hdec⟩ := Option.map_eq_some_iff.mp hwrong
  refine ⟨payload, ?_, of_decide_eq_false hdec⟩
  cases hanswer : echoAnswer (fun _ => 0) (exampleRequest 0x5F 0xE1 0 7) with
  | error f =>
    rw [hanswer] at hpayload
    cases hpayload
  | ok answer =>
    rw [hanswer] at hpayload
    exact congrArg Except.ok (Option.some.inj hpayload)

end NatBox
