import NatBox.Lib.FlagRing
import NatBox.Lib.Runs
import NatBox.Lib.Semaphore
import NatBox.Packet

/-
The descriptor rings of the Ethernet device: `ethwrite`, `ethread` and `ethhandler`.

`read` and `write` of a device run with interrupts disabled, so a call stops only in `wait`.
Of a descriptor the rings keep the OWN bit.  The DMA engine goes round each ring and stops at a
descriptor that it does not own.

The handler takes equal indexes of the transmit ring for an empty ring, and a receive
descriptor without OWN for one that it has not counted.
-/

namespace NatBox

open FlagRing Runs

/-- `ETH_QUARK_TX_RING_SIZE` -/
abbrev txRingSize : Nat := 64

/-- `ETH_QUARK_RX_RING_SIZE` -/
abbrev rxRingSize : Nat := 128

/-- What `struct ethcblk` holds for sending from a ring of `n` descriptors, where the DMA
engine is, and which writers have been signalled and did not run yet. -/
structure EthTx (n : Nat) where
  txRing : Vector Bool n
  txHead : Fin n
  txTail : Fin n
  osem : Semaphore Nat
  dma : Fin n
  ready : List Nat

inductive TxEvent
  /-- a process calls `ethwrite` -/
  | write (pid : Nat)
  /-- a process that was signalled runs -/
  | resume (pid : Nat)
  /-- the DMA engine has sent a packet -/
  | transmit
  /-- a transmit interrupt -/
  | interrupt
  deriving DecidableEq

theorem length_erase_add_one {l : List Nat} {pid : Nat} (h : pid ∈ l) :
    (l.erase pid).length + 1 = l.length := by
  have hpos := List.length_pos_of_mem h
  rw [List.length_erase_of_mem h]
  omega

section Tx

variable {n : Nat}

/-- The transmit half of `ethinit`. -/
def EthTx.init (n : Nat) [NeZero n] : EthTx n where
  txRing := Vector.replicate n false
  txHead := 0
  txTail := 0
  osem := .create n
  dma := 0
  ready := []

/-- `ethwrite` behind its `wait`. -/
def ethwriteSlot (s : EthTx n) : EthTx n :=
  { s with
    txRing := s.txRing.set s.txTail.val true s.txTail.isLt
    txTail := RingBuffer.next s.txTail }

/-- The loop of `ethhandler` over the descriptors that the DMA engine has given back. -/
def txLoop : Nat → EthTx n → Nat → Except Fault (Nat × EthTx n)
  | 0, _, _ => .error .endlessLoop
  | fuel + 1, s, count =>
    if s.txHead ≠ s.txTail then
      if s.txRing.get s.txHead then .ok (count, s)
      else txLoop fuel { s with txHead := RingBuffer.next s.txHead } (count + 1)
    else .ok (count, s)

/-- `ethhandler` for a transmit interrupt. -/
def ethhandlerTx (s : EthTx n) : Except Fault (EthTx n) :=
  match txLoop (n + 1) s 0 with
  | .error f => .error f
  | .ok (count, s) =>
    .ok { s with osem := (s.osem.signaln count).1, ready := s.ready ++ (s.osem.signaln count).2 }

def txStep (s : EthTx n) : TxEvent → Except Fault (Unit × EthTx n)
  | .write pid =>
    let s' := { s with osem := s.osem.wait pid }
    .ok ((), if 0 < s.osem.count then ethwriteSlot s' else s')
  | .resume pid =>
    .ok ((), if pid ∈ s.ready then ethwriteSlot { s with ready := s.ready.erase pid } else s)
  | .transmit =>
    .ok ((), if s.txRing.get s.dma then
      { s with txRing := s.txRing.set s.dma.val false s.dma.isLt, dma := RingBuffer.next s.dma }
      else s)
  | .interrupt => (ethhandlerTx s).map fun s => ((), s)

/-- The descriptors that the DMA engine owns. -/
def EthTx.owned (s : EthTx n) : Nat := s.txRing.count true

/-- The slots that may be filled: those the semaphore counts, and those that writers were
signalled for. -/
def EthTx.available (s : EthTx n) : Nat := s.osem.permits + s.ready.length

/-- Every slot is available or with the DMA engine. -/
def SlotsKept (s : EthTx n) : Prop := s.available + s.owned = n

instance (s : EthTx n) : Decidable (SlotsKept s) := inferInstanceAs (Decidable (_ = _))

/-- Without a writer in `wait` the slots that are available are what the semaphore counts. -/
theorem SlotsKept.count {s : EthTx n} (h : SlotsKept s) (hwaiting : s.osem.waiting = [])
    (hready : s.ready = []) : s.osem.count + s.owned = n := by
  have hlen := s.osem.length_waiting
  unfold SlotsKept EthTx.available Semaphore.permits at h
  rw [hwaiting] at hlen
  rw [hready] at h
  simp only [List.length_nil] at hlen h
  omega

/-- Once the DMA engine has sent everything, every slot is available. -/
theorem SlotsKept.all {s : EthTx n} (h : SlotsKept s) (hsent : s.owned = 0) :
    s.available = n := by
  unfold SlotsKept at h
  omega

/-- The interrupt does not find every slot taken and a packet sent. -/
def NotSentWhileFull (s : EthTx n) : TxEvent → Prop
  | .interrupt => s.available = 0 → s.owned = n
  | _ => True

/-! ## Positions in the transmit ring -/

/-- `f` slots have been filled so far, of which the DMA engine has sent `c` and the handler
counted `h`. -/
structure TxAt (s : EthTx n) [NeZero n] (h c f : Nat) : Prop where
  ring : Up s.txRing c f
  counted : h ≤ c
  room : f ≤ h + n
  txHead : s.txHead = slot h
  txTail : s.txTail = slot f
  dma : s.dma = slot c
  available : s.available + f = h + n

variable [NeZero n] {s s' : EthTx n} {h c f : Nat}

theorem txAt_init : TxAt (EthTx.init n) 0 0 0 where
  ring := .none 0
  counted := Nat.le_refl 0
  room := Nat.zero_le _
  txHead := rfl
  txTail := rfl
  dma := rfl
  available := by
    show n + 0 + 0 = 0 + n
    omega

namespace TxAt

theorem owned_eq (hs : TxAt s h c f) : s.owned = f - c := hs.ring.count_eq

/-- A slot that was available is filled. -/
theorem fill (hs : TxAt s h c f) {osem : Semaphore Nat} {ready : List Nat}
    (htaken : osem.permits + ready.length + 1 = s.available) :
    TxAt (ethwriteSlot { s with osem := osem, ready := ready }) h c (f + 1) := by
  have havail := hs.available
  have hcounted := hs.counted
  refine ⟨?_, hs.counted, by omega, hs.txHead, ?_, hs.dma, ?_⟩
  · show Up (s.txRing.set s.txTail.val true s.txTail.isLt) c (f + 1)
    rw [hs.txTail]
    exact hs.ring.raise (by omega)
  · show RingBuffer.next s.txTail = slot (f + 1)
    rw [hs.txTail, next_slot]
  · show osem.permits + ready.length + (f + 1) = h + n
    omega

theorem transmit (hs : TxAt s h c f) (hown : c < f) :
    TxAt { s with txRing := s.txRing.set s.dma.val false s.dma.isLt,
                  dma := RingBuffer.next s.dma } h (c + 1) f := by
  refine ⟨?_, Nat.le_succ_of_le hs.counted, hs.room, hs.txHead, hs.txTail, ?_, hs.available⟩
  · show Up (s.txRing.set s.dma.val false s.dma.isLt) (c + 1) f
    rw [hs.dma]
    exact hs.ring.lower hown
  · show RingBuffer.next s.dma = slot (c + 1)
    rw [hs.dma, next_slot]

/-- The DMA engine stands before a packet exactly if there is one. -/
theorem get_dma (hs : TxAt s h c f) : s.txRing.get s.dma = decide (c < f) := by
  have hpos := Nat.pos_of_ne_zero (NeZero.ne n)
  rw [hs.dma, hs.ring.get c (Nat.le_refl c) (by omega)]

/-- The handler counts what has been sent, unless the ring is full. -/
theorem txLoop_eq {fuel count : Nat} (hring : Up s.txRing c f) (hcounted : h ≤ c)
    (hroom : f < h + n) (hhead : s.txHead = slot h) (htail : s.txTail = slot f)
    (hfuel : c < h + fuel) :
    txLoop fuel s count = .ok (count + (c - h), { s with txHead := slot c }) := by
  induction fuel generalizing s h count with
  | zero => omega
  | succ fuel ih =>
    have hle := hring.le
    rw [txLoop]
    by_cases hdone : h = c
    · subst hdone
      rw [Nat.sub_self, ← hhead]
      by_cases hempty : h = f
      · subst hempty
        rw [if_neg (not_not.mpr (hhead.trans htail.symm))]
        rfl
      · have hne : s.txHead ≠ s.txTail := by
          rw [hhead, htail]
          exact fun heq => hempty (slot_inj hle hroom heq)
        have hown : s.txRing.get s.txHead = true := by
          rw [hhead, hring.get h (Nat.le_refl h) (by omega)]
          exact decide_eq_true (by omega)
        rw [if_pos hne, if_pos hown]
        rfl
    · have hne : s.txHead ≠ s.txTail := by
        rw [hhead, htail]
        intro heq
        have := slot_inj (by omega) hroom heq
        omega
      have hsent : s.txRing.get s.txHead = false := by
        rw [hhead]
        exact hring.get_behind (by omega) (by omega)
      rw [if_pos hne, hsent, if_neg Bool.false_ne_true]
      have hnext : RingBuffer.next s.txHead = slot (h + 1) := by rw [hhead, next_slot]
      rw [@ih { s with txHead := RingBuffer.next s.txHead } (h + 1) (count + 1) hring (by omega)
        (by omega) hnext htail (by omega),
        show count + 1 + (c - (h + 1)) = count + (c - h) by omega]

theorem ethhandlerTx_eq (hs : TxAt s h c f) (hroom : f < h + n) :
    ethhandlerTx s = .ok
      { s with
        txHead := slot c
        osem := (s.osem.signaln (c - h)).1
        ready := s.ready ++ (s.osem.signaln (c - h)).2 } := by
  have hle := hs.ring.le
  unfold ethhandlerTx
  rw [txLoop_eq hs.ring hs.counted hroom hs.txHead hs.txTail (by omega), Nat.zero_add]

/-- The indexes of a full ring are equal, and the handler counts nothing. -/
theorem ethhandlerTx_full (hs : TxAt s h c (h + n)) : ethhandlerTx s = .ok s := by
  have heq : s.txHead = s.txTail := by rw [hs.txHead, hs.txTail, slot_add_self]
  unfold ethhandlerTx
  rw [txLoop, if_neg (not_not.mpr heq)]
  exact congrArg (fun ready => Except.ok { s with ready := ready }) (List.append_nil s.ready)

theorem interrupt (hs : TxAt s h c f) :
    TxAt
      { s with
        txHead := slot c
        osem := (s.osem.signaln (c - h)).1
        ready := s.ready ++ (s.osem.signaln (c - h)).2 } c c f := by
  have hle := hs.ring.le
  have hcounted := hs.counted
  have havail := hs.available
  refine ⟨hs.ring, Nat.le_refl c, hs.ring.room, rfl, hs.txTail, hs.dma, ?_⟩
  have hsignals := s.osem.permits_signaln (c - h)
  show (s.osem.signaln (c - h)).1.permits + (s.ready ++ (s.osem.signaln (c - h)).2).length + f =
    c + n
  unfold EthTx.available at havail
  rw [List.length_append]
  omega

/-- All that was sent has been counted. -/
theorem kept_iff (hs : TxAt s h c f) : SlotsKept s ↔ c = h := by
  have hle := hs.ring.le
  have hcounted := hs.counted
  have havail := hs.available
  unfold SlotsKept
  rw [hs.owned_eq]
  omega

end TxAt

/-- A step that does not lose the slots of a full ring. -/
theorem TxAt.step {e : TxEvent} {o : Unit} (hs : TxAt s h c f)
    (hstep : txStep s e = .ok (o, s')) (hC : NotSentWhileFull s e) :
    (∃ h' c' f', TxAt s' h' c' f') ∧ (e = .interrupt → SlotsKept s') := by
  cases e with
  | write pid =>
    obtain ⟨-, rfl⟩ := Prod.mk.inj (Except.ok.inj hstep)
    refine ⟨?_, fun h => nomatch h⟩
    split
    · next hpos =>
      refine ⟨h, c, f + 1, hs.fill ?_⟩
      rw [Nat.add_right_comm, Semaphore.permits_wait_of_pos hpos]
      rfl
    · next hpos =>
      refine ⟨h, c, f, hs.ring, hs.counted, hs.room, hs.txHead, hs.txTail, hs.dma, ?_⟩
      show (s.osem.wait pid).permits + s.ready.length + f = h + n
      rw [Semaphore.permits_wait_of_not_pos hpos]
      exact hs.available
  | resume pid =>
    obtain ⟨-, rfl⟩ := Prod.mk.inj (Except.ok.inj hstep)
    refine ⟨?_, fun h => nomatch h⟩
    split
    · next hmem =>
      refine ⟨h, c, f + 1, hs.fill ?_⟩
      rw [Nat.add_assoc, length_erase_add_one hmem]
      rfl
    · exact ⟨h, c, f, hs⟩
  | transmit =>
    obtain ⟨-, rfl⟩ := Prod.mk.inj (Except.ok.inj hstep)
    refine ⟨?_, fun h => nomatch h⟩
    split
    · next hown =>
      rw [hs.get_dma] at hown
      exact ⟨h, c + 1, f, hs.transmit (of_decide_eq_true hown)⟩
    · exact ⟨h, c, f, hs⟩
  | interrupt =>
    have hC : s.available = 0 → s.owned = n := hC
    have havail := hs.available
    have hroom := hs.room
    rw [txStep] at hstep
    by_cases hfull : f < h + n
    · rw [hs.ethhandlerTx_eq hfull] at hstep
      obtain ⟨-, rfl⟩ := Prod.mk.inj (Except.ok.inj hstep)
      have hnext := hs.interrupt
      exact ⟨⟨c, c, f, hnext⟩, fun _ => hnext.kept_iff.mpr rfl⟩
    · obtain rfl : f = h + n := by omega
      rw [hs.ethhandlerTx_full] at hstep
      obtain ⟨-, rfl⟩ := Prod.mk.inj (Except.ok.inj hstep)
      refine ⟨⟨h, c, h + n, hs⟩, fun _ => ?_⟩
      have hle := hs.ring.le
      have howned := hC (by omega)
      rw [hs.owned_eq] at howned
      exact hs.kept_iff.mpr (by omega)

/-- An interrupt that finds every slot taken and a packet sent counts nothing. -/
theorem TxAt.step_bad {e : TxEvent} {o : Unit} (hs : TxAt s h c f)
    (hstep : txStep s e = .ok (o, s')) (hC : ¬ NotSentWhileFull s e) :
    e = .interrupt ∧ ¬ SlotsKept s' := by
  cases e with
  | interrupt =>
    obtain ⟨hnone, howned⟩ := Classical.not_imp.mp hC
    have havail := hs.available
    obtain rfl : f = h + n := by omega
    rw [txStep, hs.ethhandlerTx_full] at hstep
    obtain ⟨-, rfl⟩ := Prod.mk.inj (Except.ok.inj hstep)
    refine ⟨rfl, fun hkept => howned ?_⟩
    rw [hs.owned_eq, hs.kept_iff.mp hkept]
    omega
  | write pid => exact absurd trivial hC
  | resume pid => exact absurd trivial hC
  | transmit => exact absurd trivial hC

end Tx

/-- The last event of a history is an interrupt. -/
def AfterInterrupt (tr : List (TxEvent × Unit)) : Prop :=
  (tr.map Prod.fst).getLast? = some .interrupt

theorem afterInterrupt_concat {tr : List (TxEvent × Unit)} {e : TxEvent} {o : Unit} :
    AfterInterrupt (tr ++ [(e, o)]) ↔ e = .interrupt := by
  unfold AfterInterrupt
  rw [List.map_append, List.map_singleton, List.getLast?_concat, Option.some.injEq]

/-- The slots of the transmit ring are all there after every interrupt of a run exactly if no
interrupt finds every slot taken and a packet sent. -/
theorem slotsKept_iff {tr : List (TxEvent × Unit)} {s : EthTx txRingSize}
    (hrun : Run txStep (EthTx.init txRingSize) tr s) :
    AllStates txStep (EthTx.init txRingSize) (fun tr s => AfterInterrupt tr → SlotsKept s) tr ↔
      AllSteps txStep (EthTx.init txRingSize) (fun s e _ => NotSentWhileFull s e) tr := by
  refine allStates_iff_allSteps
    (I := fun tr s => (∃ h c f, TxAt s h c f) ∧ (AfterInterrupt tr → SlotsKept s))
    ⟨⟨0, 0, 0, txAt_init⟩, fun h => nomatch h⟩ ?_ (fun _ _ h => h.2) ?_ hrun
  · rintro tr s e o s' ⟨⟨h, c, f, hs⟩, -⟩ hstep hC
    obtain ⟨hnext, hkept⟩ := hs.step hstep hC
    exact ⟨hnext, fun hafter => hkept (afterInterrupt_concat.mp hafter)⟩
  · rintro tr s e o s' ⟨⟨h, c, f, hs⟩, -⟩ hstep hC hP
    obtain ⟨rfl, hlost⟩ := hs.step_bad hstep hC
    exact hlost (hP (afterInterrupt_concat.mpr rfl))

/-- Eighty packets through the ring, the second forty past its end. -/
def wrappedRing : List TxEvent :=
  List.replicate 40 (.write 1) ++ List.replicate 25 .transmit ++ [.interrupt] ++
    List.replicate 40 (.write 2) ++ List.replicate 50 .transmit ++ [.interrupt]

theorem slotsKept_wrapped_ring :
    ∃ os s, Run txStep (EthTx.init txRingSize) (wrappedRing.zip os) s ∧ s.txHead = 11 ∧
      AllStates txStep (EthTx.init txRingSize) (fun tr s => AfterInterrupt tr → SlotsKept s)
        (wrappedRing.zip os) := by
  obtain ⟨os, s, hrun, hevents, hhead⟩ := run_of_endsIn (show endsIn txStep
    (EthTx.init txRingSize) wrappedRing (fun _ s => decide (s.txHead = 11)) = true by
      decide +kernel)
  have hpass : stepsPass txStep (fun s e => e != .interrupt || s.available != 0)
      (EthTx.init txRingSize) ((wrappedRing.zip os).map Prod.fst) = true := by
    rw [hevents]
    decide +kernel
  refine ⟨os, s, hrun, of_decide_eq_true hhead,
    (slotsKept_iff hrun).mpr (allSteps_of_stepsPass hpass ?_)⟩
  intro s e hcheck
  cases e with
  | interrupt => exact fun hnone => by simp [hnone] at hcheck
  | write pid => trivial
  | resume pid => trivial
  | transmit => trivial

/-- The ring is filled before the DMA engine sends the first packet. -/
theorem slotsKept_fails_full_ring :
    ¬ ∀ tr s, Run txStep (EthTx.init txRingSize) tr s →
      AllStates txStep (EthTx.init txRingSize)
        (fun tr s => AfterInterrupt tr → SlotsKept s) tr := by
  intro h
  obtain ⟨os, s, hrun, hevents, hlost⟩ := run_of_endsIn (show endsIn txStep
    (EthTx.init txRingSize) (List.replicate 64 (.write 1) ++ [.transmit, .interrupt])
    (fun _ s => !decide (SlotsKept s)) = true by decide +kernel)
  rw [Bool.not_eq_true', decide_eq_false_iff_not] at hlost
  refine hlost (h _ s hrun _ s (List.prefix_refl _) hrun ?_)
  unfold AfterInterrupt
  rw [hevents]
  rfl

/-! ## Receiving -/

/-- What `struct ethcblk` holds for receiving into a ring of `n` descriptors, where the DMA
engine is, and which readers have been signalled and did not run yet. -/
structure EthRx (n : Nat) where
  rxRing : Vector Bool n
  rxHead : Fin n
  rxTail : Fin n
  isem : Semaphore Nat
  dma : Fin n
  ready : List Nat

inductive RxEvent
  /-- a process comes to the `wait` of `ethread` -/
  | read (pid : Nat)
  /-- a process that was signalled runs -/
  | resume (pid : Nat)
  /-- the DMA engine has received a frame -/
  | receive
  /-- a receive interrupt -/
  | interrupt
  deriving DecidableEq

/-- What a step did to a descriptor. -/
inductive RxResult (n : Nat)
  | filled (slot : Fin n)
  | counted (slots : List (Fin n))
  | other

section Rx

variable {n : Nat}

/-- The receive half of `ethinit`. -/
def EthRx.init (n : Nat) [NeZero n] : EthRx n where
  rxRing := Vector.replicate n true
  rxHead := 0
  rxTail := 0
  isem := .create 0
  dma := 0
  ready := []

/-- What a round of `ethread` does to the ring: the descriptor goes back to the DMA engine,
whether or not the frame is one for the caller. -/
def ethreadSlot (s : EthRx n) : EthRx n :=
  { s with
    rxRing := s.rxRing.set s.rxHead.val true s.rxHead.isLt
    rxHead := RingBuffer.next s.rxHead }

/-- The loop of `ethhandler` over the descriptors that hold a frame, with as many rounds as
the count leaves; what it returns are the slots that it counts. -/
def rxLoop : Nat → EthRx n → List (Fin n) → List (Fin n) × EthRx n
  | 0, s, slots => (slots, s)
  | rounds + 1, s, slots =>
    if s.rxRing.get s.rxTail then (slots, s)
    else rxLoop rounds { s with rxTail := RingBuffer.next s.rxTail } (slots ++ [s.rxTail])

/-- `ethhandler` for a receive interrupt. -/
def ethhandlerRx (s : EthRx n) : List (Fin n) × EthRx n :=
  match rxLoop (n + 1) s [] with
  | (slots, s) =>
    (slots, { s with
      isem := (s.isem.signaln slots.length).1
      ready := s.ready ++ (s.isem.signaln slots.length).2 })

def rxStep (s : EthRx n) : RxEvent → Except Fault (RxResult n × EthRx n)
  | .read pid =>
    let s' := { s with isem := s.isem.wait pid }
    .ok (.other, if 0 < s.isem.count then ethreadSlot s' else s')
  | .resume pid =>
    .ok (.other, if pid ∈ s.ready then ethreadSlot { s with ready := s.ready.erase pid } else s)
  | .receive =>
    if s.rxRing.get s.dma then
      .ok (.filled s.dma,
        { s with rxRing := s.rxRing.set s.dma.val false s.dma.isLt, dma := RingBuffer.next s.dma })
    else .ok (.other, s)
  | .interrupt => .ok (.counted (ethhandlerRx s).1, (ethhandlerRx s).2)

/-- The descriptors that the DMA engine has filled, in the order in which it did. -/
def filled (tr : List (RxEvent × RxResult n)) : List (Fin n) :=
  tr.flatMap fun c => match c.2 with
    | .filled slot => [slot]
    | .counted _ => []
    | .other => []

/-- The descriptors for which the handler has signalled `isem`. -/
def counted (tr : List (RxEvent × RxResult n)) : List (Fin n) :=
  tr.flatMap fun c => match c.2 with
    | .filled _ => []
    | .counted slots => slots
    | .other => []

/-- There are no more signals than frames, and no descriptor is counted more often than it was
filled. -/
structure CountedOnce (tr : List (RxEvent × RxResult n)) : Prop where
  length_le : (counted tr).length ≤ (filled tr).length
  count_le : ∀ slot, (counted tr).count slot ≤ (filled tr).count slot

/-- The interrupt does not find every descriptor filled and unread. -/
def NotAllFilled (s : EthRx n) : RxEvent → Prop
  | .interrupt => 0 < s.rxRing.count true
  | _ => True

/-- In a ring without a descriptor of the DMA engine it counts on to the end of its rounds. -/
theorem length_rxLoop_full {s : EthRx n} {rounds : Nat} {slots : List (Fin n)}
    (hfull : ∀ i, s.rxRing.get i = false) :
    (rxLoop rounds s slots).1.length = slots.length + rounds := by
  induction rounds generalizing s slots with
  | zero => rfl
  | succ rounds ih =>
    rw [rxLoop, hfull, if_neg Bool.false_ne_true]
    have hrest := @ih { s with rxTail := RingBuffer.next s.rxTail } (slots ++ [s.rxTail]) hfull
    rw [hrest, List.length_append, List.length_singleton]
    omega

theorem filled_concat (tr : List (RxEvent × RxResult n)) (e : RxEvent) (o : RxResult n) :
    filled (tr ++ [(e, o)]) = filled tr ++ filled [(e, o)] := List.flatMap_append

theorem counted_concat (tr : List (RxEvent × RxResult n)) (e : RxEvent) (o : RxResult n) :
    counted (tr ++ [(e, o)]) = counted tr ++ counted [(e, o)] := List.flatMap_append

/-- The slots that the counters up to `k` stand for. -/
def slots [NeZero n] (k : Nat) : List (Fin n) := (List.range k).map slot

theorem slots_add [NeZero n] (k m : Nat) :
    (slots (k + m) : List (Fin n)) = slots k ++ (List.range m).map fun i => slot (k + i) := by
  unfold slots
  rw [List.range_add, List.map_append, List.map_map]
  rfl

theorem slots_succ [NeZero n] (k : Nat) : (slots (k + 1) : List (Fin n)) = slots k ++ [slot k] :=
  slots_add k 1

/-- `f` descriptors have been filled so far, of which the handler has counted `g` and readers
have taken `r`. -/
structure RxAt (tr : List (RxEvent × RxResult n)) (s : EthRx n) [NeZero n] (r g f : Nat) :
    Prop where
  ring : Up s.rxRing f (r + n)
  read : r ≤ g
  counted : g ≤ f
  rxHead : s.rxHead = slot r
  rxTail : s.rxTail = slot g
  dma : s.dma = slot f
  filled_eq : filled tr = slots f
  counted_eq : NatBox.counted tr = slots g
  available : s.isem.permits + s.ready.length + r = g

variable [NeZero n] {tr : List (RxEvent × RxResult n)} {s s' : EthRx n} {r g f : Nat}

theorem rxAt_init : RxAt [] (EthRx.init n) 0 0 0 where
  ring := .all 0
  read := Nat.le_refl 0
  counted := Nat.le_refl 0
  rxHead := rfl
  rxTail := rfl
  dma := rfl
  filled_eq := rfl
  counted_eq := rfl
  available := rfl

namespace RxAt

theorem countedOnce (hs : RxAt tr s r g f) : CountedOnce tr := by
  have hcounted := hs.counted
  have hslots : filled tr =
      NatBox.counted tr ++ (List.range (f - g)).map fun i => slot (g + i) := by
    rw [hs.filled_eq, hs.counted_eq, ← slots_add, Nat.add_sub_cancel' hcounted]
  refine ⟨?_, fun slot => ?_⟩
  · rw [hslots, List.length_append]
    exact Nat.le_add_right _ _
  · rw [hslots, List.count_append]
    exact Nat.le_add_right _ _

/-- A descriptor that was counted is read. -/
theorem take (hs : RxAt tr s r g f) {e : RxEvent} {isem : Semaphore Nat} {ready : List Nat}
    (htaken : isem.permits + ready.length + 1 = s.isem.permits + s.ready.length) :
    RxAt (tr ++ [(e, .other)]) (ethreadSlot { s with isem := isem, ready := ready })
      (r + 1) g f := by
  have havail := hs.available
  have hcounted := hs.counted
  refine ⟨?_, by omega, hs.counted, ?_, hs.rxTail, hs.dma, ?_, ?_, ?_⟩
  · show Up (s.rxRing.set s.rxHead.val true s.rxHead.isLt) f (r + 1 + n)
    have hraise := hs.ring.raise (by omega)
    rw [slot_add_self] at hraise
    rw [hs.rxHead, Nat.add_right_comm]
    exact hraise
  · show RingBuffer.next s.rxHead = slot (r + 1)
    rw [hs.rxHead, next_slot]
  · rw [filled_concat, hs.filled_eq]
    exact List.append_nil _
  · rw [counted_concat, hs.counted_eq]
    exact List.append_nil _
  · show isem.permits + ready.length + (r + 1) = g
    omega

/-- The handler counts the frames that it has not counted yet. -/
theorem rxLoop_eq {rounds : Nat} {slots : List (Fin n)} (hring : Up s.rxRing f (r + n))
    (hread : r ≤ g) (hcounted : g ≤ f) (hroom : f < r + n) (htail : s.rxTail = slot g)
    (hrounds : f < g + rounds) :
    rxLoop rounds s slots =
      (slots ++ (List.range (f - g)).map fun i => slot (g + i), { s with rxTail := slot f }) := by
  induction rounds generalizing s g slots with
  | zero => omega
  | succ rounds ih =>
    rw [rxLoop, htail]
    by_cases hdone : g = f
    · subst hdone
      have hown : s.rxRing.get (slot g) = true := by
        rw [hring.get g (Nat.le_refl g) (by omega)]
        exact decide_eq_true hroom
      rw [if_pos hown, Nat.sub_self, ← htail]
      exact congrArg (·, s) (List.append_nil slots).symm
    · have hframe : s.rxRing.get (slot g) = false := hring.get_behind (by omega) (by omega)
      have hnext : RingBuffer.next (slot g : Fin n) = slot (g + 1) := next_slot g
      rw [hframe, if_neg Bool.false_ne_true,
        @ih { s with rxTail := RingBuffer.next (slot g) } (g + 1) (slots ++ [slot g]) hring
          (by omega) (by omega) hnext (by omega)]
      obtain ⟨m, hm⟩ : ∃ m, f - g = m + 1 := ⟨f - g - 1, by omega⟩
      rw [hm, show f - (g + 1) = m by omega, List.range_succ_eq_map, List.map_cons, List.map_map,
        List.append_assoc]
      refine congrArg (·, _) (congrArg (slots ++ slot g :: ·) (List.map_congr_left fun i _ => ?_))
      show slot (g + 1 + i) = slot (g + (i + 1))
      rw [Nat.add_assoc, Nat.add_comm 1 i]

theorem ethhandlerRx_eq (hs : RxAt tr s r g f) (hroom : f < r + n) :
    ethhandlerRx s = ((List.range (f - g)).map fun i => slot (g + i),
      { s with
        rxTail := slot f
        isem := (s.isem.signaln (f - g)).1
        ready := s.ready ++ (s.isem.signaln (f - g)).2 }) := by
  have hread := hs.read
  unfold ethhandlerRx
  rw [rxLoop_eq hs.ring hs.read hs.counted hroom hs.rxTail (by omega)]
  dsimp only
  rw [List.nil_append, List.length_map, List.length_range]

theorem interrupt (hs : RxAt tr s r g f) (hroom : f < r + n) :
    RxAt (tr ++ [(.interrupt, .counted (ethhandlerRx s).1)]) (ethhandlerRx s).2 r f f := by
  have hread := hs.read
  have hcounted := hs.counted
  have havail := hs.available
  rw [hs.ethhandlerRx_eq hroom]
  refine ⟨hs.ring, by omega, Nat.le_refl f, hs.rxHead, rfl, hs.dma, ?_, ?_, ?_⟩
  · rw [filled_concat, hs.filled_eq]
    exact List.append_nil _
  · rw [counted_concat, hs.counted_eq]
    have hsplit := slots_add (n := n) g (f - g)
    rw [Nat.add_sub_cancel' hcounted] at hsplit
    rw [hsplit]
    exact congrArg (slots g ++ ·) (List.append_nil _)
  · have hsignals := s.isem.permits_signaln (f - g)
    show (s.isem.signaln (f - g)).1.permits + (s.ready ++ (s.isem.signaln (f - g)).2).length + r =
      f
    rw [List.length_append]
    omega

theorem receive (hs : RxAt tr s r g f) (hown : f < r + n) :
    RxAt (tr ++ [(.receive, .filled s.dma)])
      { s with rxRing := s.rxRing.set s.dma.val false s.dma.isLt, dma := RingBuffer.next s.dma }
      r g (f + 1) := by
  refine ⟨?_, hs.read, Nat.le_succ_of_le hs.counted, hs.rxHead, hs.rxTail, ?_, ?_, ?_,
    hs.available⟩
  · show Up (s.rxRing.set s.dma.val false s.dma.isLt) (f + 1) (r + n)
    rw [hs.dma]
    exact hs.ring.lower hown
  · show RingBuffer.next s.dma = slot (f + 1)
    rw [hs.dma, next_slot]
  · rw [filled_concat, hs.filled_eq, hs.dma, slots_succ]
    rfl
  · rw [counted_concat, hs.counted_eq]
    exact List.append_nil _

theorem get_dma (hs : RxAt tr s r g f) : s.rxRing.get s.dma = decide (f < r + n) := by
  have hpos := Nat.pos_of_ne_zero (NeZero.ne n)
  rw [hs.dma, hs.ring.get f (Nat.le_refl f) (by omega)]

/-- A step that changes neither the ring nor what may be taken. -/
theorem idle (hs : RxAt tr s r g f) {e : RxEvent} {isem : Semaphore Nat}
    (havail : isem.permits = s.isem.permits) :
    RxAt (tr ++ [(e, .other)]) { s with isem := isem } r g f where
  ring := hs.ring
  read := hs.read
  counted := hs.counted
  rxHead := hs.rxHead
  rxTail := hs.rxTail
  dma := hs.dma
  filled_eq := by
    rw [filled_concat, hs.filled_eq]
    exact List.append_nil _
  counted_eq := by
    rw [counted_concat, hs.counted_eq]
    exact List.append_nil _
  available := by
    rw [← hs.available]
    exact congrArg (· + s.ready.length + r) havail

theorem step {e : RxEvent} {o : RxResult n} (hs : RxAt tr s r g f)
    (hstep : rxStep s e = .ok (o, s')) (hC : NotAllFilled s e) :
    ∃ r' g' f', RxAt (tr ++ [(e, o)]) s' r' g' f' := by
  cases e with
  | read pid =>
    obtain ⟨rfl, rfl⟩ := Prod.mk.inj (Except.ok.inj hstep)
    split
    · next hpos =>
      refine ⟨r + 1, g, f, hs.take ?_⟩
      rw [Nat.add_right_comm, Semaphore.permits_wait_of_pos hpos]
    · next hpos => exact ⟨r, g, f, hs.idle (Semaphore.permits_wait_of_not_pos hpos)⟩
  | resume pid =>
    obtain ⟨rfl, rfl⟩ := Prod.mk.inj (Except.ok.inj hstep)
    split
    · next hmem =>
      refine ⟨r + 1, g, f, hs.take ?_⟩
      rw [Nat.add_assoc, length_erase_add_one hmem]
    · exact ⟨r, g, f, hs.idle rfl⟩
  | receive =>
    rw [rxStep] at hstep
    split at hstep
    · next hown =>
      obtain ⟨rfl, rfl⟩ := Prod.mk.inj (Except.ok.inj hstep)
      rw [hs.get_dma] at hown
      exact ⟨r, g, f + 1, hs.receive (of_decide_eq_true hown)⟩
    · obtain ⟨rfl, rfl⟩ := Prod.mk.inj (Except.ok.inj hstep)
      exact ⟨r, g, f, hs.idle rfl⟩
  | interrupt =>
    have hC : 0 < s.rxRing.count true := hC
    rw [hs.ring.count_eq] at hC
    obtain ⟨rfl, rfl⟩ := Prod.mk.inj (Except.ok.inj hstep)
    exact ⟨r, f, f, hs.interrupt (by omega)⟩

/-- An interrupt that finds every descriptor filled counts them all and one more. -/
theorem step_bad {e : RxEvent} {o : RxResult n} (hs : RxAt tr s r g f)
    (hstep : rxStep s e = .ok (o, s')) (hC : ¬ NotAllFilled s e) :
    ¬ CountedOnce (tr ++ [(e, o)]) := by
  cases e with
  | interrupt =>
    have hnone : s.rxRing.count true = 0 := Nat.eq_zero_of_not_pos hC
    have hread := hs.read
    have hcounted := hs.counted
    have hroom := hs.ring.room
    obtain ⟨rfl, rfl⟩ := Prod.mk.inj (Except.ok.inj hstep)
    intro honce
    have hle := honce.length_le
    have hrounds : (rxLoop (n + 1) s []).1.length = n + 1 := by
      rw [length_rxLoop_full (get_of_count_eq_zero hnone)]
      exact Nat.zero_add _
    have hall : (ethhandlerRx s).1 = (rxLoop (n + 1) s []).1 := by rw [ethhandlerRx]
    rw [← hall] at hrounds
    have hsignals : (NatBox.counted [(RxEvent.interrupt, .counted (ethhandlerRx s).1)]).length =
        n + 1 := by
      rw [← hrounds]
      exact congrArg List.length (List.append_nil _)
    rw [filled_concat, counted_concat, List.length_append, List.length_append, hsignals,
      hs.filled_eq, hs.counted_eq] at hle
    simp only [slots, List.length_map, List.length_range, NatBox.filled, List.flatMap_cons,
      List.flatMap_nil, List.append_nil, List.length_nil] at hle
    have hfull := hs.ring.count
    omega
  | read pid => exact absurd trivial hC
  | resume pid => exact absurd trivial hC
  | receive => exact absurd trivial hC


end RxAt

end Rx

/-- Every frame is signalled once along a run exactly if no receive interrupt finds every
descriptor filled and unread. -/
theorem countedOnce_iff {tr : List (RxEvent × RxResult rxRingSize)} {s : EthRx rxRingSize}
    (hrun : Run rxStep (EthRx.init rxRingSize) tr s) :
    AllStates rxStep (EthRx.init rxRingSize) (fun tr _ => CountedOnce tr) tr ↔
      AllSteps rxStep (EthRx.init rxRingSize) (fun s e _ => NotAllFilled s e) tr := by
  refine allStates_iff_allSteps (I := fun tr s => ∃ r g f, RxAt tr s r g f)
    ⟨0, 0, 0, rxAt_init⟩ ?_ ?_ ?_ hrun
  · rintro tr s e o s' ⟨r, g, f, hs⟩ hstep hC
    exact hs.step hstep hC
  · rintro tr s ⟨r, g, f, hs⟩
    exact hs.countedOnce
  · rintro tr s e o s' ⟨r, g, f, hs⟩ hstep hC
    exact hs.step_bad hstep hC

/-- A frame received, signalled and read. -/
theorem countedOnce_one_frame :
    ∃ os s, Run rxStep (EthRx.init rxRingSize)
        ([.read 1, .receive, .interrupt, .resume 1].zip os) s ∧
      AllStates rxStep (EthRx.init rxRingSize) (fun tr _ => CountedOnce tr)
        ([.read 1, .receive, .interrupt, .resume 1].zip os) := by
  obtain ⟨os, s, hrun, hevents, -⟩ := run_of_endsIn (show endsIn rxStep (EthRx.init rxRingSize)
    [.read 1, .receive, .interrupt, .resume 1] (fun _ _ => true) = true by decide +kernel)
  have hpass : stepsPass rxStep (fun s _ => decide (0 < s.rxRing.count true))
      (EthRx.init rxRingSize)
      (([.read 1, .receive, .interrupt, .resume 1].zip os).map Prod.fst) = true := by
    rw [hevents]
    decide +kernel
  refine ⟨os, s, hrun, (countedOnce_iff hrun).mpr (allSteps_of_stepsPass hpass ?_)⟩
  intro s e hcheck
  cases e with
  | interrupt => exact (of_decide_eq_true hcheck : 0 < s.rxRing.count true)
  | read pid => trivial
  | resume pid => trivial
  | receive => trivial

/-- All descriptors are filled before the handler runs. -/
def fillAll : List RxEvent := List.replicate 128 .receive ++ [.interrupt]

theorem countedOnce_fails_all_filled :
    ¬ ∀ tr s, Run rxStep (EthRx.init rxRingSize) tr s →
      AllStates rxStep (EthRx.init rxRingSize) (fun tr _ => CountedOnce tr) tr := by
  intro h
  obtain ⟨os, s, hrun, -, hsignals⟩ := run_of_endsIn (show endsIn rxStep (EthRx.init rxRingSize)
    fillAll (fun os _ => decide ((filled (fillAll.zip os)).length <
      (counted (fillAll.zip os)).length)) = true by decide +kernel)
  have honce := h _ s hrun _ s (List.prefix_refl _) hrun
  exact absurd honce.length_le (Nat.not_le.mpr (of_decide_eq_true hsignals))

end NatBox
