import NatBox.Box
import NatBox.Checksum

/-
The packet rewriting of `nat.c`.

An outgoing packet gets a table entry and leaves with the box's address and a
translated identifier; an incoming one is looked up by its source and identifier
and gets the host's address and identifier back.  Both write a fresh checksum.
`getNewID` numbers the entries with a 16-bit counter that it increments on every
call and compares with the table's size for equality only.
-/

namespace NatBox

/-- Conversion to `int16`. -/
def toInt16 (x : Int) : Int := x.bmod (2 ^ 16)

/-- `getNewID` and the counter it leaves. -/
def getNewID (counter : UInt16) : Int × UInt16 :=
  let counter := counter + 1
  if counter.toNat = maxNatEntries then (-1, counter)
  else (toInt16 (counter.toNat - 1), counter)

/-- What a rewriting function returns, with the packet as it leaves it. -/
structure Rewritten where
  ret : Int
  pkt : NetPacket

/- The checksum of both functions, over the pseudo-header and the `ECHOREQSIZE`
bytes of the echo header.  `makePseudoHdr` writes all 48 bytes that are summed, so
nothing depends on what the block held before. -/
def rewriteChecksum (src dest : Ipv6Addr) (msg : Mem) : Except Fault Mem :=
  let msg := msg.store16 2 0
  let pseudo := Mem.ofBlock (makePseudoHdr src dest msg 8) fun _ => 0
  match checksumv6 pseudo 48 with
  | .error f => .error f
  | .ok sum => .ok (msg.store16 2 (htons sum))

/-- The test of the loop in `incPktRW`. -/
def NatEntry.matchesReply (e : NatEntry) (src : Ipv6Addr) (msgID : UInt16) : Bool :=
  e.transID == msgID && matchBytes e.dest src 16

def incPktRW (nat : NatTable) (pkt : NetPacket) : Except Fault Rewritten :=
  match nat.natTab.toList.find? fun e => e.matchesReply pkt.ip.src pkt.identifier with
  | none => .ok ⟨-1, pkt⟩
  | some ptr =>
    let body := pkt.body.store16 4 (htons ptr.srcID)
    let ip := { pkt.ip with dest := ptr.src }
    match rewriteChecksum ip.src ip.dest body with
    | .error f => .error f
    | .ok body => .ok ⟨ptr.iface.toNat, { pkt with ip := ip, body := body }⟩

/-- The entry `outPktRW` writes for a packet. -/
def natEntryOf (interface : UInt8) (pkt : NetPacket) (newID : Nat) : NatEntry where
  src := pkt.ip.src
  dest := pkt.ip.dest
  iface := interface
  srcID := pkt.identifier
  transID := UInt16.ofNat newID

def outPktRW (cfg : Config) (box : Box) (interface : UInt8) (pkt : NetPacket) :
    Except Fault (Rewritten × Box) :=
  let (newID, counter) := getNewID box.nat.natIdCounter
  if newID = -1 then
    .ok (⟨1, pkt⟩, { box with nat := { box.nat with natIdCounter := counter } })
  else if h : 0 ≤ newID ∧ newID < maxNatEntries then
    let entry := natEntryOf interface pkt newID.toNat
    let natTab := box.nat.natTab.set newID.toNat entry (by omega)
    let ip := { pkt.ip with src := cfg.ipv6Addr }
    let body := pkt.body.store16 4 (htons entry.transID)
    match rewriteChecksum ip.src ip.dest body with
    | .error f => .error f
    | .ok body =>
      let fwd := (insertNewFwdTabEntry box.fwd entry.src 128 entry.src entry.iface).2
      .ok (⟨0, { pkt with ip := ip, body := body }⟩,
        { box with nat := ⟨natTab, counter⟩, fwd := fwd })
  else .error (.natTabIndex newID)

/-! ## The checksum that is written -/

/-- The sum behind the checksum of an echo message: the pseudo-header and the
echo header with a zero checksum. -/
def echoHeaderSum (src dest : Ipv6Addr) (msg : Mem) : Nat :=
  OnesComplement.wordSum (makePseudoHdr src dest (msg.store16 2 0) 8)

theorem rewriteChecksum_ok (src dest : Ipv6Addr) (msg : Mem) :
    ∃ ck : UInt16, ck.toNat = 65535 - foldOnce (echoHeaderSum src dest msg) ∧
      rewriteChecksum src dest msg = .ok ((msg.store16 2 0).store16 2 (htons ck)) := by
  have hlen : (makePseudoHdr src dest (msg.store16 2 0) 8).length = 2 * 24 := by
    rw [length_makePseudoHdr]
    rfl
  obtain ⟨ck, hck, hv⟩ := toNat_checksumv6
    (Mem.ofBlock (makePseudoHdr src dest (msg.store16 2 0) 8) fun _ => 0)
    (show 24 < 32768 by decide) (show ((48 : UInt32).toNat + 1) / 2 = 24 by decide)
  rw [memWordSum_ofBlock hlen] at hv
  exact ⟨ck, hv, by rw [rewriteChecksum, hck]⟩

/-! ## One call of `getNewID` -/

theorem getNewID_of_lt {c : UInt16} (h : c.toNat < 29) :
    getNewID c = ((c.toNat : Int), c + 1) := by
  have hc : (c + 1).toNat = c.toNat + 1 := by
    simp only [UInt16.toNat_add, UInt16.reduceToNat]
    omega
  have hne : ¬ (c + 1).toNat = maxNatEntries := by
    show ¬ (c + 1).toNat = 30
    omega
  rw [getNewID, if_neg hne, hc, toInt16,
    show ((c.toNat + 1 : Nat) : Int) - 1 = c.toNat by omega,
    Int.bmod_eq_of_le (by omega) (by omega)]

theorem getNewID_last {c : UInt16} (h : c.toNat = 29) : getNewID c = (-1, c + 1) := by
  have hc : (c + 1).toNat = 30 := by
    simp only [UInt16.toNat_add, UInt16.reduceToNat]
    omega
  rw [getNewID, if_pos hc]

/-- One call after the failing one the counter is past the size and the test
misses it. -/
theorem getNewID_past {c : UInt16} (h : c.toNat = 30) : getNewID c = (30, c + 1) := by
  have hc : (c + 1).toNat = 31 := by
    simp only [UInt16.toNat_add, UInt16.reduceToNat]
    omega
  rw [getNewID, if_neg (by rw [hc]; decide), hc]
  rfl

/-! ## The packets left -/

/-- The body of a packet rewritten to identifier `id` with checksum `ck`. -/
def rewrittenBody (msg : Mem) (id ck : UInt16) : Mem :=
  ((msg.store16 4 (htons id)).store16 2 0).store16 2 (htons ck)

/-- Only the checksum and the identifier are written. -/
theorem rewrittenBody_outside {msg : Mem} {id ck : UInt16} {i : Nat} (h : i < 2 ∨ 6 ≤ i) :
    rewrittenBody msg id ck i = msg i := by
  rw [rewrittenBody, Mem.store16_outside (by omega), Mem.store16_outside (by omega),
    Mem.store16_outside (by omega)]

theorem identifier_rewrittenBody {pkt : NetPacket} {msg : Mem} {id ck : UInt16}
    (h : pkt.body = rewrittenBody msg id ck) : pkt.identifier = id := by
  rw [NetPacket.identifier, h, rewrittenBody, Mem.load16_store16_of_disjoint (by omega),
    Mem.load16_store16_of_disjoint (by omega), Mem.load16_store16, ntohs_htons]

/-! ## One call of `incPktRW` -/

section Inc

variable {nat : NatTable} {pkt : NetPacket}

/-- The packet `incPktRW` leaves when it finds `e` and computes `ck`. -/
def incPkt (e : NatEntry) (pkt : NetPacket) (ck : UInt16) : NetPacket :=
  { pkt with
    ip := { pkt.ip with dest := e.src }
    body := rewrittenBody pkt.body e.srcID ck }

/-- All that a call which returns can have done. -/
theorem incPktRW_cases {r : Rewritten} (h : incPktRW nat pkt = .ok r) :
    ((nat.natTab.toList.find? fun e => e.matchesReply pkt.ip.src pkt.identifier) = none ∧
      r = ⟨-1, pkt⟩) ∨
    ∃ (e : NatEntry) (ck : UInt16),
      (nat.natTab.toList.find? fun e => e.matchesReply pkt.ip.src pkt.identifier) = some e ∧
      ck.toNat = 65535 - foldOnce (echoHeaderSum pkt.ip.src e.src
        (pkt.body.store16 4 (htons e.srcID))) ∧
      r = ⟨e.iface.toNat, incPkt e pkt ck⟩ := by
  rw [incPktRW] at h
  cases hfind : nat.natTab.toList.find? fun e => e.matchesReply pkt.ip.src pkt.identifier with
  | none =>
    rw [hfind] at h
    exact .inl ⟨rfl, (Except.ok.inj h).symm⟩
  | some e =>
    obtain ⟨ck, hv, hck⟩ := rewriteChecksum_ok pkt.ip.src e.src
      (pkt.body.store16 4 (htons e.srcID))
    rw [hfind] at h
    simp only [hck] at h
    exact .inr ⟨e, ck, rfl, hv, (Except.ok.inj h).symm⟩

theorem matchesReply_iff {e : NatEntry} {src : Ipv6Addr} {id : UInt16} :
    e.matchesReply src id = true ↔ e.transID = id ∧ e.dest = src := by
  rw [NatEntry.matchesReply, Bool.and_eq_true, beq_iff_eq, matchBytes_self_length]

theorem incPktRW_none
    (h : ∀ i, ∀ hi : i < maxNatEntries,
      nat.natTab[i].matchesReply pkt.ip.src pkt.identifier = false) :
    incPktRW nat pkt = .ok ⟨-1, pkt⟩ := by
  have hnone : (nat.natTab.toList.find? fun e =>
      e.matchesReply pkt.ip.src pkt.identifier) = none := by
    rw [List.find?_eq_none]
    intro e he
    obtain ⟨i, hi, rfl⟩ := List.getElem_of_mem he
    have hlen : i < maxNatEntries := by simpa using hi
    simpa using h i hlen
  rw [incPktRW, hnone]

/-- The first matching slot decides. -/
theorem incPktRW_some {i : Nat} (hi : i < maxNatEntries)
    (hm : nat.natTab[i].matchesReply pkt.ip.src pkt.identifier = true)
    (hfirst : ∀ j, ∀ hj : j < i,
      nat.natTab[j].matchesReply pkt.ip.src pkt.identifier = false) :
    ∃ ck : UInt16,
      ck.toNat = 65535 - foldOnce (echoHeaderSum pkt.ip.src nat.natTab[i].src
        (pkt.body.store16 4 (htons nat.natTab[i].srcID))) ∧
      incPktRW nat pkt = .ok ⟨nat.natTab[i].iface.toNat, incPkt nat.natTab[i] pkt ck⟩ := by
  have hfind : (nat.natTab.toList.find? fun e =>
      e.matchesReply pkt.ip.src pkt.identifier) = some nat.natTab[i] := by
    rw [List.find?_eq_some_iff_getElem]
    refine ⟨hm, i, by simpa using hi, by simp, fun j hj => ?_⟩
    simpa using hfirst j hj
  obtain ⟨ck, hv, hr⟩ := rewriteChecksum_ok pkt.ip.src nat.natTab[i].src
    (pkt.body.store16 4 (htons nat.natTab[i].srcID))
  refine ⟨ck, hv, ?_⟩
  rw [incPktRW, hfind]
  simp only [hr]
  rfl

end Inc

/-! ## One call of `outPktRW` -/

section Out

variable (cfg : Config) {box : Box} (interface : UInt8) (pkt : NetPacket)

/-- The packet `outPktRW` leaves when it assigns `id` and computes `ck`. -/
def outPkt (id ck : UInt16) : NetPacket :=
  { pkt with
    ip := { pkt.ip with src := cfg.ipv6Addr }
    body := rewrittenBody pkt.body id ck }

/-- The state it leaves when it writes slot `k`. -/
def outBox (box : Box) {k : Nat} (hk : k < maxNatEntries) : Box :=
  { box with
    nat := ⟨box.nat.natTab.set k (natEntryOf interface pkt k), box.nat.natIdCounter + 1⟩
    fwd := (insertNewFwdTabEntry box.fwd pkt.ip.src 128 pkt.ip.src interface).2 }

theorem outPktRW_ok {k : Nat} (hk : k < 29) (hc : box.nat.natIdCounter.toNat = k) :
    ∃ ck : UInt16,
      ck.toNat = 65535 - foldOnce (echoHeaderSum cfg.ipv6Addr pkt.ip.dest
        (pkt.body.store16 4 (htons (UInt16.ofNat k)))) ∧
      outPktRW cfg box interface pkt =
        .ok (⟨0, outPkt cfg pkt (UInt16.ofNat k) ck⟩,
          outBox interface pkt box (Nat.lt_of_lt_of_le hk (by decide))) := by
  subst hc
  obtain ⟨ck, hv, hr⟩ := rewriteChecksum_ok cfg.ipv6Addr pkt.ip.dest
    (pkt.body.store16 4 (htons (UInt16.ofNat box.nat.natIdCounter.toNat)))
  refine ⟨ck, hv, ?_⟩
  have hrange : (0 : Int) ≤ box.nat.natIdCounter.toNat ∧
      (box.nat.natIdCounter.toNat : Int) < (maxNatEntries : Nat) := by
    show _ ∧ _ < (30 : Int)
    omega
  simp only [outPktRW, getNewID_of_lt hk]
  rw [if_neg (by omega), dif_pos hrange]
  simp only [natEntryOf, Int.toNat_natCast, hr]
  rfl

/-- All that a call which returns can have done, from whatever state. -/
theorem outPktRW_cases {interface pkt} {r : Rewritten} {box' : Box}
    (h : outPktRW cfg box interface pkt = .ok (r, box')) :
    (r = ⟨1, pkt⟩ ∧ box' = { box with
        nat := { box.nat with natIdCounter := (getNewID box.nat.natIdCounter).2 } } ∧
      (getNewID box.nat.natIdCounter).1 = -1) ∨
    ∃ (k : Nat) (hk : k < maxNatEntries) (ck : UInt16),
      (getNewID box.nat.natIdCounter).1 = k ∧
      ck.toNat = 65535 - foldOnce (echoHeaderSum cfg.ipv6Addr pkt.ip.dest
        (pkt.body.store16 4 (htons (UInt16.ofNat k)))) ∧
      r = ⟨0, outPkt cfg pkt (UInt16.ofNat k) ck⟩ ∧
      box' = { box with
        nat := ⟨box.nat.natTab.set k (natEntryOf interface pkt k),
          (getNewID box.nat.natIdCounter).2⟩
        fwd := (insertNewFwdTabEntry box.fwd pkt.ip.src 128 pkt.ip.src interface).2 } := by
  rw [outPktRW] at h
  rcases hid : getNewID box.nat.natIdCounter with ⟨newID, counter⟩
  rw [hid] at h
  by_cases hneg : newID = -1
  · left
    simp only [hneg, if_true, Except.ok.injEq, Prod.mk.injEq] at h
    exact ⟨h.1.symm, h.2.symm, hneg⟩
  · by_cases hrange : 0 ≤ newID ∧ newID < (maxNatEntries : Nat)
    · right
      obtain ⟨k, rfl⟩ := Int.eq_ofNat_of_zero_le hrange.1
      have hk : k < maxNatEntries := by
        have := hrange.2
        omega
      obtain ⟨ck, hv, hck⟩ := rewriteChecksum_ok cfg.ipv6Addr pkt.ip.dest
        (pkt.body.store16 4 (htons (UInt16.ofNat k)))
      refine ⟨k, hk, ck, rfl, hv, ?_⟩
      simp only [hneg, if_false, hrange, and_self, dif_pos, natEntryOf, Int.toNat_natCast] at h
      simp only [hck, Except.ok.injEq, Prod.mk.injEq] at h
      exact ⟨h.1.symm, h.2.symm⟩
    · simp only [hneg, if_false] at h
      rw [dif_neg hrange] at h
      cases h

theorem outPktRW_full (hc : box.nat.natIdCounter.toNat = 29) :
    outPktRW cfg box interface pkt =
      .ok (⟨1, pkt⟩,
        { box with nat := { box.nat with natIdCounter := box.nat.natIdCounter + 1 } }) := by
  simp only [outPktRW, getNewID_last hc, if_true]

theorem outPktRW_past (hc : box.nat.natIdCounter.toNat = 30) :
    outPktRW cfg box interface pkt = .error (.natTabIndex 30) := by
  simp only [outPktRW, getNewID_past hc]
  rw [if_neg (by decide), dif_neg (by decide)]

end Out

end NatBox
