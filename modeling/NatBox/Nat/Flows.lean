import NatBox.Lib.Runs
import NatBox.Nat.Rewrite

/-
Runs of the NAT.

`outPktRW` hands out the slots of `natTab` in order: the 30th call reports that the
table is full although slot 29 is free, and the 31st passes the test that the 30th
failed and writes behind the table.  `allocates_iff_length_le` is the exact extent
of the part that works.

Within it the table is a list of flows: `NatTracks` ties slot `i` to the `i`-th
accepted packet, and since slot numbers are the translated identifiers, the first
match of a reply is the slot of its flow.
-/

namespace NatBox

open Runs

theorem toNat_natIdCounter_succ {c : UInt16} (h : c.toNat < 30) :
    (c + 1).toNat = c.toNat + 1 := by
  simp only [UInt16.toNat_add, UInt16.reduceToNat]
  omega

/-! ## The slots that are handed out -/

/-- What a sequence of calls is to do from `box` on, where the slots in `written` are
taken: each call fails and changes nothing but the counter, or succeeds and records
its packet in a slot of the table that no earlier call wrote. -/
def Allocates (cfg : Config) : List Nat → Box → List (UInt8 × NetPacket) → Prop
  | _, _, [] => True
  | written, box, (interface, pkt) :: calls =>
    ∃ r box', outPktRW cfg box interface pkt = .ok (r, box') ∧
      ((r.ret ≠ 0 ∧ box'.nat.natTab = box.nat.natTab ∧ r.pkt = pkt ∧
          Allocates cfg written box' calls) ∨
        (r.ret = 0 ∧ ∃ i, ∃ hi : i < maxNatEntries, i ∉ written ∧
          box'.nat.natTab = box.nat.natTab.set i (natEntryOf interface pkt i) ∧
          Allocates cfg (i :: written) box' calls))

section Allocation

variable {cfg : Config}

/-- The calls that succeed and the one that fails use up the counter. -/
theorem allocates_of_length_le {calls : List (UInt8 × NetPacket)} :
    ∀ {written : List Nat} {box : Box}, (∀ i ∈ written, i < box.nat.natIdCounter.toNat) →
      box.nat.natIdCounter.toNat + calls.length ≤ 30 → Allocates cfg written box calls := by
  induction calls with
  | nil => exact fun _ _ => trivial
  | cons call calls ih =>
    obtain ⟨interface, pkt⟩ := call
    intro written box hw hlen
    rw [List.length_cons] at hlen
    have hsucc : (box.nat.natIdCounter + 1).toNat = box.nat.natIdCounter.toNat + 1 :=
      toNat_natIdCounter_succ (by omega)
    by_cases hk : box.nat.natIdCounter.toNat < 29
    · obtain ⟨ck, -, hout⟩ := outPktRW_ok cfg interface pkt hk rfl
      refine ⟨_, _, hout, Or.inr ⟨rfl, _, Nat.lt_of_lt_of_le hk (by decide), ?_, rfl, ?_⟩⟩
      · intro hmem
        exact Nat.lt_irrefl _ (hw _ hmem)
      · refine ih (fun i hi => ?_) ?_
        · show i < (box.nat.natIdCounter + 1).toNat
          rw [hsucc]
          rcases List.mem_cons.mp hi with rfl | hold
          · exact Nat.lt_succ_self _
          · exact Nat.lt_succ_of_lt (hw i hold)
        · show (box.nat.natIdCounter + 1).toNat + calls.length ≤ 30
          omega
    · refine ⟨_, _, outPktRW_full cfg interface pkt (by omega),
        Or.inl ⟨(by decide : (1 : Int) ≠ 0), rfl, rfl, ih (fun i hi => ?_) ?_⟩⟩
      · show i < (box.nat.natIdCounter + 1).toNat
        have := hw i hi
        omega
      · show (box.nat.natIdCounter + 1).toNat + calls.length ≤ 30
        omega

theorem Allocates.length_le {calls : List (UInt8 × NetPacket)} :
    ∀ {written : List Nat} {box : Box}, box.nat.natIdCounter.toNat ≤ 30 →
      Allocates cfg written box calls → box.nat.natIdCounter.toNat + calls.length ≤ 30 := by
  induction calls with
  | nil => exact fun h _ => h
  | cons call calls ih =>
    obtain ⟨interface, pkt⟩ := call
    intro written box hk ⟨r, box', hout, hrest⟩
    have hnext : ∀ {w : List Nat}, box.nat.natIdCounter.toNat < 30 →
        box'.nat.natIdCounter = box.nat.natIdCounter + 1 → Allocates cfg w box' calls →
        box.nat.natIdCounter.toNat + (calls.length + 1) ≤ 30 := by
      intro w hlt hc ha
      have hsucc := toNat_natIdCounter_succ hlt
      have hle := ih (by rw [hc]; omega) ha
      rw [hc] at hle
      omega
    have hrun : ∃ w, Allocates cfg w box' calls := by
      rcases hrest with ⟨-, -, -, ha⟩ | ⟨-, i, -, -, -, ha⟩
      · exact ⟨_, ha⟩
      · exact ⟨_, ha⟩
    obtain ⟨w, ha⟩ := hrun
    rcases Nat.lt_trichotomy box.nat.natIdCounter.toNat 29 with hlt | heq | hgt
    · obtain ⟨ck, -, hok⟩ := outPktRW_ok cfg interface pkt hlt rfl
      obtain ⟨-, rfl⟩ : _ ∧ outBox interface pkt box _ = box' := by
        simpa using hok.symm.trans hout
      exact hnext (by omega) rfl ha
    · obtain ⟨-, rfl⟩ : _ ∧ _ = box' := by
        simpa using (outPktRW_full cfg interface pkt heq).symm.trans hout
      exact hnext (by omega) rfl ha
    · rw [outPktRW_past cfg interface pkt (by omega)] at hout
      cases hout

/-- Slot allocation from `natTab_init` on is sound for as many calls as the table has
slots, and for no more. -/
theorem allocates_iff_length_le (cfg : Config) (fwd : FwdTable) (nd : NDCache)
    (calls : List (UInt8 × NetPacket)) :
    Allocates cfg [] ⟨natTabInit, fwd, nd⟩ calls ↔ calls.length ≤ maxNatEntries := by
  have hzero : (natTabInit.natIdCounter).toNat = 0 := rfl
  constructor
  · intro h
    have hle := Allocates.length_le (by rw [hzero]; omega) h
    rwa [hzero, Nat.zero_add] at hle
  · intro h
    apply allocates_of_length_le
    · intro i hi
      cases hi
    · rw [hzero, Nat.zero_add]
      exact h

/-- The same echo request 31 times: the last call writes behind the table. -/
theorem allocates_fails_past_table :
    ¬ Allocates exampleConfig [] Box.init
      (List.replicate 31 (1, examplePacket exampleHost exampleServer
        [0x80, 0, 0, 0, 0, 7, 0, 1])) := by
  intro h
  have hle := Allocates.length_le (by decide) h
  rw [List.length_replicate] at hle
  exact absurd hle (by decide)

end Allocation

/-! ## The flows that are recorded -/

inductive NatEvent
  | out (interface : UInt8) (pkt : NetPacket)
  | inc (pkt : NetPacket)

/-- One call of `outPktRW` or `incPktRW`. -/
def natStep (cfg : Config) (box : Box) : NatEvent → Except Fault (Rewritten × Box)
  | .out interface pkt => outPktRW cfg box interface pkt
  | .inc pkt =>
    match incPktRW box.nat pkt with
    | .error f => .error f
    | .ok r => .ok (r, box)

/-- A call of `outPktRW` that returned a failure. -/
def FailedOut (x : NatEvent × Rewritten) : Prop :=
  ∃ interface pkt, x.1 = .out interface pkt ∧ x.2.ret ≠ 0

/-- A packet received on `interface` was accepted and left with identifier `transID`. -/
def Translated (tr : List (NatEvent × Rewritten)) (interface : UInt8) (pkt : NetPacket)
    (transID : UInt16) : Prop :=
  ∃ r, (NatEvent.out interface pkt, r) ∈ tr ∧ r.ret = 0 ∧ r.pkt.identifier = transID

/-- A slot nothing was recorded in. -/
def emptyNatEntry : NatEntry := ⟨unspecified, unspecified, 0, 0, 0⟩

/-- What the table holds after a run: slot `i` has the flow that was given identifier
`i`, and the slots from the counter on are empty, the last one always. -/
structure NatTracks (tr : List (NatEvent × Rewritten)) (nat : NatTable) : Prop where
  counter_le : nat.natIdCounter.toNat ≤ 30
  failed : nat.natIdCounter.toNat = 30 → ∃ x ∈ tr, FailedOut x
  used : ∀ i, ∀ hi : i < maxNatEntries, i < nat.natIdCounter.toNat → i < 29 →
    ∃ interface pkt, nat.natTab[i] = natEntryOf interface pkt i ∧
      Translated tr interface pkt (UInt16.ofNat i)
  unused : ∀ i, ∀ hi : i < maxNatEntries, nat.natIdCounter.toNat ≤ i ∨ i = 29 →
    nat.natTab[i] = emptyNatEntry
  recorded : ∀ interface pkt id, Translated tr interface pkt id →
    ∃ i, ∃ hi : i < maxNatEntries, i < nat.natIdCounter.toNat ∧ i < 29 ∧
      nat.natTab[i] = natEntryOf interface pkt i ∧ id = UInt16.ofNat i

theorem natTracks_init : NatTracks [] natTabInit where
  counter_le := Nat.zero_le _
  failed h := by
    have hzero : natTabInit.natIdCounter.toNat = 0 := rfl
    omega
  used i _ hlt _ := absurd hlt (Nat.not_lt_zero i)
  unused i hi _ := by
    simp [natTabInit, emptyNatEntry]
  recorded interface pkt id h := by
    obtain ⟨r, hr, -⟩ := h
    cases hr

theorem Translated.mono {tr tr' : List (NatEvent × Rewritten)} {interface : UInt8}
    {pkt : NetPacket} {id : UInt16} (h : Translated tr interface pkt id) :
    Translated (tr ++ tr') interface pkt id := by
  obtain ⟨r, hr, hret, hid⟩ := h
  exact ⟨r, List.mem_append_left _ hr, hret, hid⟩

/-- A step that is not an accepted packet records nothing. -/
theorem Translated.of_concat {tr : List (NatEvent × Rewritten)} {x : NatEvent × Rewritten}
    (hx : ∀ interface pkt, x.1 = .out interface pkt → x.2.ret ≠ 0) {interface : UInt8}
    {pkt : NetPacket} {id : UInt16} (h : Translated (tr ++ [x]) interface pkt id) :
    Translated tr interface pkt id := by
  obtain ⟨r, hr, hret, hid⟩ := h
  rcases List.mem_append.mp hr with hold | hnew
  · exact ⟨r, hold, hret, hid⟩
  · rw [List.mem_singleton] at hnew
    subst hnew
    exact absurd hret (hx interface pkt rfl)

/-- The table is untouched and nothing is recorded. -/
theorem NatTracks.skip {tr : List (NatEvent × Rewritten)} {nat nat' : NatTable}
    (h : NatTracks tr nat) {x : NatEvent × Rewritten}
    (hx : ∀ interface pkt, x.1 = .out interface pkt → x.2.ret ≠ 0)
    (htab : nat'.natTab = nat.natTab) (hle : nat'.natIdCounter.toNat ≤ 30)
    (hmin : min nat'.natIdCounter.toNat 29 = min nat.natIdCounter.toNat 29)
    (hfail : nat'.natIdCounter.toNat = 30 → ∃ y ∈ tr ++ [x], FailedOut y) :
    NatTracks (tr ++ [x]) nat' where
  counter_le := hle
  failed := hfail
  used i hi hlt hlast := by
    obtain ⟨interface, pkt, hent, ht⟩ := h.used i hi (by omega) hlast
    exact ⟨interface, pkt, by rw [htab]; exact hent, ht.mono⟩
  unused i hi hi' := by
    have hi30 : i < 30 := hi
    simp only [htab]
    exact h.unused i hi (by omega)
  recorded interface pkt id ht := by
    obtain ⟨i, hi, hlt, hlast, hent, hid⟩ := h.recorded interface pkt id (ht.of_concat hx)
    exact ⟨i, hi, by omega, hlast, by rw [htab]; exact hent, hid⟩

/-- An accepted packet is recorded in the entry that the counter names. -/
theorem NatTracks.record {tr : List (NatEvent × Rewritten)} {nat : NatTable}
    (h : NatTracks tr nat) (hlt : nat.natIdCounter.toNat < 29)
    (hi : nat.natIdCounter.toNat < maxNatEntries) {interface : UInt8} {pkt : NetPacket}
    {r : Rewritten} (hret : r.ret = 0)
    (hid : r.pkt.identifier = UInt16.ofNat nat.natIdCounter.toNat) :
    NatTracks (tr ++ [(.out interface pkt, r)])
      ⟨nat.natTab.set nat.natIdCounter.toNat
        (natEntryOf interface pkt nat.natIdCounter.toNat) hi, nat.natIdCounter + 1⟩ := by
  have hsucc := toNat_natIdCounter_succ (Nat.lt_succ_of_lt hlt)
  have hnew : Translated (tr ++ [(.out interface pkt, r)]) interface pkt
      (UInt16.ofNat nat.natIdCounter.toNat) :=
    ⟨r, List.mem_append_right _ (List.mem_singleton_self _), hret, hid⟩
  constructor
  · rw [hsucc]
    omega
  · rw [hsucc]
    omega
  · intro i hi' hcount hlast
    rw [hsucc] at hcount
    by_cases hik : i = nat.natIdCounter.toNat
    · subst hik
      exact ⟨interface, pkt, Vector.getElem_set_self _, hnew⟩
    · obtain ⟨interface', pkt', hent, ht⟩ := h.used i hi' (by omega) hlast
      refine ⟨interface', pkt', ?_, ht.mono⟩
      rw [← hent]
      exact Vector.getElem_set_ne hi hi' (by omega)
  · intro i hi' hunused
    rw [hsucc] at hunused
    rw [← h.unused i hi' (by omega)]
    exact Vector.getElem_set_ne hi hi' (by omega)
  · rintro interface' pkt' id ⟨r', hmem, hret', hid'⟩
    rw [hsucc]
    rcases List.mem_append.mp hmem with hold | hlast
    · obtain ⟨i, hi', hcount, hlast, hent, hid''⟩ :=
        h.recorded interface' pkt' id ⟨r', hold, hret', hid'⟩
      refine ⟨i, hi', by omega, hlast, ?_, hid''⟩
      rw [← hent]
      exact Vector.getElem_set_ne hi hi' (by omega)
    · rw [List.mem_singleton, Prod.mk.injEq] at hlast
      obtain ⟨hev, rfl⟩ := hlast
      cases hev
      exact ⟨_, hi, Nat.lt_succ_self _, hlt, Vector.getElem_set_self _, hid'.symm.trans hid⟩

theorem NatTracks.out {cfg : Config} {tr : List (NatEvent × Rewritten)} {box box' : Box}
    (h : NatTracks tr box.nat) {interface : UInt8} {pkt : NetPacket} {r : Rewritten}
    (hout : outPktRW cfg box interface pkt = .ok (r, box')) :
    NatTracks (tr ++ [(.out interface pkt, r)]) box'.nat := by
  have hle := h.counter_le
  rcases Nat.lt_trichotomy box.nat.natIdCounter.toNat 29 with hlt | heq | hgt
  · obtain ⟨ck, -, hok⟩ := outPktRW_ok cfg interface pkt hlt rfl
    obtain ⟨rfl, rfl⟩ : (⟨0, outPkt cfg pkt (UInt16.ofNat box.nat.natIdCounter.toNat) ck⟩ :
        Rewritten) = r ∧ outBox interface pkt box _ = box' := by
      simpa using hok.symm.trans hout
    exact h.record hlt _ rfl (identifier_rewrittenBody rfl)
  · obtain ⟨rfl, rfl⟩ : (⟨1, pkt⟩ : Rewritten) = r ∧ _ = box' := by
      simpa using (outPktRW_full cfg interface pkt heq).symm.trans hout
    have hsucc := toNat_natIdCounter_succ (show box.nat.natIdCounter.toNat < 30 by omega)
    refine h.skip (fun _ _ _ => (by decide : (1 : Int) ≠ 0)) rfl ?_ ?_ fun _ => ?_
    · show (box.nat.natIdCounter + 1).toNat ≤ 30
      omega
    · show min (box.nat.natIdCounter + 1).toNat 29 = _
      omega
    · exact ⟨_, List.mem_append_right _ (List.mem_singleton_self _), interface, pkt, rfl,
        (by decide : (1 : Int) ≠ 0)⟩
  · rw [outPktRW_past cfg interface pkt (by omega)] at hout
    cases hout

theorem NatTracks.step {cfg : Config} {tr : List (NatEvent × Rewritten)} {box box' : Box}
    (h : NatTracks tr box.nat) {e : NatEvent} {r : Rewritten}
    (hs : natStep cfg box e = .ok (r, box')) : NatTracks (tr ++ [(e, r)]) box'.nat := by
  cases e with
  | out interface pkt => exact h.out hs
  | inc pkt =>
    rw [natStep] at hs
    rcases hinc : incPktRW box.nat pkt with f | r'
    · simp [hinc] at hs
    · obtain ⟨rfl, rfl⟩ : r' = r ∧ box = box' := by simpa [hinc] using hs
      refine h.skip (fun _ _ hev => by cases hev) rfl h.counter_le rfl fun hfull => ?_
      obtain ⟨x, hx, hfail⟩ := h.failed hfull
      exact ⟨x, List.mem_append_left _ hx, hfail⟩

theorem natTracks_of_run {cfg : Config} {fwd : FwdTable} {nd : NDCache}
    {tr : List (NatEvent × Rewritten)} {box : Box}
    (h : Run (natStep cfg) ⟨natTabInit, fwd, nd⟩ tr box) : NatTracks tr box.nat :=
  h.invariant (I := fun tr box => NatTracks tr box.nat) natTracks_init
    fun _ _ _ _ _ hI hs => hI.step hs

/-- No call faults before an `outPktRW` has failed, and replies never do. -/
theorem NatTracks.progress {cfg : Config} {tr : List (NatEvent × Rewritten)} {box : Box}
    (h : NatTracks tr box.nat) (e : NatEvent)
    (he : (∃ interface pkt, e = .out interface pkt) → ∀ x ∈ tr, ¬ FailedOut x) :
    ∃ r box', natStep cfg box e = .ok (r, box') := by
  cases e with
  | out interface pkt =>
    have hle := h.counter_le
    rcases Nat.lt_trichotomy box.nat.natIdCounter.toNat 29 with hlt | heq | hgt
    · obtain ⟨ck, -, hok⟩ := outPktRW_ok cfg interface pkt hlt rfl
      exact ⟨_, _, hok⟩
    · exact ⟨_, _, outPktRW_full cfg interface pkt heq⟩
    · obtain ⟨x, hx, hfail⟩ := h.failed (by omega)
      exact absurd hfail (he ⟨interface, pkt, rfl⟩ x hx)
  | inc pkt =>
    have hinc : ∃ r, incPktRW box.nat pkt = .ok r := by
      rw [incPktRW]
      rcases box.nat.natTab.toList.find? _ with _ | ptr
      · exact ⟨_, rfl⟩
      · obtain ⟨ck, -, hck⟩ := rewriteChecksum_ok pkt.ip.src ptr.src
          (pkt.body.store16 4 (htons ptr.srcID))
        simp only [hck]
        exact ⟨_, rfl⟩
    obtain ⟨r, hr⟩ := hinc
    exact ⟨r, box, by rw [natStep, hr]⟩

/-- A used slot does not answer to another identifier. -/
theorem NatTracks.not_matchesReply {tr : List (NatEvent × Rewritten)} {nat : NatTable}
    (h : NatTracks tr nat) {i j : Nat} (hi : i < nat.natIdCounter.toNat) (hi' : i < 29)
    (hji : j < i) (src : Ipv6Addr) (hj : j < maxNatEntries) :
    nat.natTab[j].matchesReply src (UInt16.ofNat i) = false := by
  obtain ⟨interface, pkt, hent, -⟩ := h.used j hj (by omega) (by omega)
  rw [← Bool.not_eq_true, matchesReply_iff, hent]
  rintro ⟨hid, -⟩
  have hne : (UInt16.ofNat j).toNat = (UInt16.ofNat i).toNat := congrArg UInt16.toNat hid
  rw [UInt16.toNat_ofNat', UInt16.toNat_ofNat', Nat.mod_eq_of_lt (by omega),
    Nat.mod_eq_of_lt (by omega)] at hne
  omega

/-- In every run, up to the first failure no call faults, and a reply to an accepted
packet gets that packet's source and identifier back and leaves by the interface the
packet was received on. -/
theorem incPktRW_inverts_outPktRW {cfg : Config} {fwd : FwdTable} {nd : NDCache}
    {tr : List (NatEvent × Rewritten)} {box : Box}
    (hrun : Run (natStep cfg) ⟨natTabInit, fwd, nd⟩ tr box) :
    (∀ e, ((∃ interface pkt, e = .out interface pkt) → ∀ x ∈ tr, ¬ FailedOut x) →
      ∃ r box', natStep cfg box e = .ok (r, box')) ∧
    ∀ interface pkt r, (NatEvent.out interface pkt, r) ∈ tr → r.ret = 0 →
      ∀ reply : NetPacket, reply.ip.src = pkt.ip.dest → reply.identifier = r.pkt.identifier →
        ∃ answer, incPktRW box.nat reply = .ok ⟨interface.toNat, answer⟩ ∧
          answer.ip.dest = pkt.ip.src ∧ answer.identifier = pkt.identifier := by
  have h := natTracks_of_run hrun
  refine ⟨h.progress, fun interface pkt r hmem hret reply hsrc hid => ?_⟩
  obtain ⟨i, hi, hlt, hlast, hent, hri⟩ := h.recorded interface pkt _ ⟨r, hmem, hret, rfl⟩
  rw [hri] at hid
  have hm : box.nat.natTab[i].matchesReply reply.ip.src reply.identifier = true := by
    rw [matchesReply_iff, hent, hsrc, hid]
    exact ⟨rfl, rfl⟩
  have hfirst : ∀ j, ∀ hj : j < i,
      box.nat.natTab[j].matchesReply reply.ip.src reply.identifier = false := fun j hj => by
    rw [hid]
    exact h.not_matchesReply hlt hlast hj _ (by omega)
  obtain ⟨ck, -, hinc⟩ := incPktRW_some hi hm hfirst
  rw [hent] at hinc
  exact ⟨_, hinc, rfl, identifier_rewrittenBody rfl⟩

/-- One echo request and its reply. -/
theorem incPktRW_inverts_one_flow :
    ∃ r box answer,
      natStep exampleConfig Box.init (.out 1 (examplePacket exampleHost exampleServer
        [0x80, 0, 0, 0, 0, 7, 0, 1])) = .ok (r, box) ∧
      incPktRW box.nat (examplePacket exampleServer exampleConfig.ipv6Addr
        [0x81, 0, 0, 0, 0, 0, 0, 1]) = .ok ⟨1, answer⟩ ∧
      answer.ip.dest = exampleHost ∧ answer.identifier = 7 := by
  obtain ⟨ck, -, hok⟩ := @outPktRW_ok exampleConfig Box.init 1
    (examplePacket exampleHost exampleServer [0x80, 0, 0, 0, 0, 7, 0, 1]) 0 (by decide) rfl
  have hstep : natStep exampleConfig Box.init (.out 1 (examplePacket exampleHost exampleServer
      [0x80, 0, 0, 0, 0, 7, 0, 1])) = _ := hok
  obtain ⟨-, hinv⟩ := incPktRW_inverts_outPktRW (Run.next .start hstep)
  obtain ⟨answer, hinc, hdest, hid⟩ := hinv 1 _ _ (List.mem_singleton_self _) rfl
    (examplePacket exampleServer exampleConfig.ipv6Addr [0x81, 0, 0, 0, 0, 0, 0, 1]) rfl
    ((show _ = (0 : UInt16) by decide).trans (identifier_rewrittenBody rfl).symm)
  exact ⟨_, _, answer, hstep, hinc, hdest, hid.trans (by decide)⟩

end NatBox
