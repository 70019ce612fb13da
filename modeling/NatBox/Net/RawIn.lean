import Mathlib.Logic.Function.Basic
import NatBox.Net.InputQueue
import NatBox.Packet

/-
The process `rawin`: one frame after another, each to the interface it is for.

The Othernets are tried from the last one down and the loop index tells afterwards
whether one of them matched.  Between two frames the interfaces and their queues
may change in any way.  The queue of an Othernet that is full makes the inner
loop end; the queue of the Ethernet that is full makes the outer loop end, so
`rawin_receives_iff` asks for room there.
-/

namespace NatBox

open Runs

/-- `NIFACES` -/
abbrev nIfaces : Nat := 3

/-- The Ethernet. -/
abbrev ethernet : Fin nIfaces := ⟨0, by decide⟩

/-- The parts of `struct ifentry` that `rawin` uses.  The queue holds the addresses
of packet buffers. -/
structure Iface where
  ifState : Bool
  ifMacucast : MacAddr
  ifMacbcast : MacAddr
  queue : IfEntry Nat

/-- `pkt` is the buffer to read the next frame into, `frames` what the buffers
hold, `ended` whether the outer loop has been left. -/
structure Rawin where
  pkt : Nat
  frames : Nat → NetPacket
  ifTab : Vector Iface nIfaces
  ended : Bool

inductive RawinEvent
  /-- A frame is read; `fresh` is the buffer that `getbuf` has to give. -/
  | frame (frame : NetPacket) (fresh : Nat)
  /-- What the other processes make of the interface table before the next read. -/
  | others (ifTab : Vector Iface nIfaces)

inductive RawinResult
  | handed (iface : Fin nIfaces)
  | dropped
  | left
  | changed
  deriving DecidableEq

/-- The start of `rawin`, with its first buffer. -/
def Rawin.start (pkt : Nat) (frames : Nat → NetPacket) (ifTab : Vector Iface nIfaces) : Rawin :=
  ⟨pkt, frames, ifTab, false⟩

/-- If the source is an Othernet, its multicast bit is restored. -/
def restoreMulticast (frame : NetPacket) : NetPacket :=
  if frame.netSrc[1] = 0x80 ∧ frame.netSrc[2] = 0x0a then
    { frame with netSrc := frame.netSrc.set 0 (frame.netSrc[0] ||| 0x01) }
  else frame

/-- The test on one interface. -/
def Iface.matches (i : Iface) (dst : MacAddr) : Bool :=
  i.ifState && (matchBytes i.ifMacucast dst 6 || matchBytes i.ifMacbcast dst 6)

/-- The loop over the Othernets from `iface` down: the one that matches, or 0. -/
def demux (ifTab : Vector Iface nIfaces) (dst : MacAddr) :
    (iface : Nat) → iface < nIfaces → Fin nIfaces
  | 0, h => ⟨0, h⟩
  | iface + 1, h =>
    if (ifTab.get ⟨iface + 1, h⟩).matches dst then ⟨iface + 1, h⟩
    else demux ifTab dst iface (Nat.lt_of_succ_lt h)

/-- `pkt -> net_iface = iface` in the buffer that holds the frame. -/
def Rawin.label (s : Rawin) (frame : NetPacket) (iface : Fin nIfaces) : Rawin :=
  { s with frames := Function.update s.frames s.pkt { frame with netIface := .ofNat iface.val } }

/-- The packet goes into the queue of the interface, and a buffer is obtained for the
next one. -/
def Rawin.enqueue (s : Rawin) (iface : Fin nIfaces) (fresh : Nat) : Rawin :=
  let ifptr := s.ifTab.get iface
  { s with
    ifTab := s.ifTab.set iface.val
      { ifptr with queue := signal { ifptr.queue with ifQueue := ifptr.queue.ifQueue.push s.pkt } }
      iface.isLt
    pkt := fresh }

/-- `semcount(ifptr->if_sem) >= IF_QUEUESIZE` -/
def Rawin.full (s : Rawin) (iface : Fin nIfaces) : Bool :=
  decide ((s.ifTab.get iface).queue.scount ≥ ifQueueSize)

/-- One iteration of the outer loop, for the frame read into `pkt`. -/
def rawinFrame (s : Rawin) (frame : NetPacket) (fresh : Nat) : RawinResult × Rawin :=
  let frame := restoreMulticast frame
  let iface := demux s.ifTab frame.netDst 2 (by decide)
  if iface.val ≠ 0 then
    let s := s.label frame iface
    -- queue overflow: this `break` leaves the loop over the Othernets
    if s.full iface then (.dropped, s)
    else (.handed iface, s.enqueue iface fresh)
  else if (s.ifTab.get iface).ifState = false then
    (.dropped, { s with frames := Function.update s.frames s.pkt frame })
  else
    let s := s.label frame iface
    -- queue overflow: this one leaves the outer loop
    if s.full iface then (.left, { s with ended := true })
    else (.handed iface, s.enqueue iface fresh)

/-- A step of `rawin`, or of the others. -/
def rawinStep (s : Rawin) : RawinEvent → Except Unit (RawinResult × Rawin)
  | .frame frame fresh => if s.ended then .error () else .ok (rawinFrame s frame fresh)
  | .others ifTab => .ok (.changed, { s with ifTab := ifTab })

/-- An iteration that hands the buffer to one interface that is up and has room, and
takes the fresh buffer. -/
structure Hands (s : Rawin) (frame : NetPacket) (fresh : Nat) (iface : Fin nIfaces) (s' : Rawin) :
    Prop where
  up : (s.ifTab.get iface).ifState = true
  room : (s.ifTab.get iface).queue.scount < ifQueueSize
  queued : s'.ifTab = (s.enqueue iface fresh).ifTab
  content : s'.frames s.pkt = { restoreMulticast frame with netIface := .ofNat iface.val }
  pkt : s'.pkt = fresh

/-- An iteration that drops the frame and keeps the buffer. -/
structure Drops (s s' : Rawin) : Prop where
  ifTab : s'.ifTab = s.ifTab
  pkt : s'.pkt = s.pkt

/-- What every iteration has to do. -/
def Receives (s : Rawin) (e : RawinEvent) (s' : Rawin) : Prop :=
  ∀ frame fresh, e = .frame frame fresh →
    ((∃ iface, Hands s frame fresh iface s') ∨ Drops s s') ∧ s'.ended = false

/-- The frame is not for an Othernet that is up, the Ethernet is up, and its queue is
full. -/
def EthernetOverflow (s : Rawin) (e : RawinEvent) : Prop :=
  ∃ frame fresh, e = .frame frame fresh ∧
    (∀ i : Fin nIfaces, i.val ≠ 0 → (s.ifTab.get i).matches frame.netDst = false) ∧
    (s.ifTab.get ethernet).ifState = true ∧
    ifQueueSize ≤ (s.ifTab.get ethernet).queue.scount

/-- The promise of the process over a run: every iteration hands its frame over or
drops it, and in every state another frame is read. -/
def KeepsReceiving (s₀ : Rawin) (tr : List (RawinEvent × RawinResult)) : Prop :=
  AllSteps rawinStep s₀ Receives tr ∧
    AllStates rawinStep s₀
      (fun _ s => ∀ frame fresh, ∃ o s', rawinStep s (.frame frame fresh) = .ok (o, s')) tr

/-! ## The loop over the Othernets -/

theorem netDst_restoreMulticast (frame : NetPacket) :
    (restoreMulticast frame).netDst = frame.netDst := by
  unfold restoreMulticast
  split
  · rfl
  · rfl

/-- The loop ends at 0 exactly when no Othernet below its start matches. -/
theorem demux_eq_zero_iff (ifTab : Vector Iface nIfaces) (dst : MacAddr) (iface : Nat)
    (h : iface < nIfaces) :
    (demux ifTab dst iface h).val = 0 ↔
      ∀ i : Fin nIfaces, i.val ≠ 0 → i.val ≤ iface → (ifTab.get i).matches dst = false := by
  induction iface with
  | zero => exact iff_of_true rfl fun i hne hle => absurd (Nat.le_zero.mp hle) hne
  | succ iface ih =>
    rw [demux]
    by_cases hm : (ifTab.get ⟨iface + 1, h⟩).matches dst = true
    · rw [if_pos hm]
      refine iff_of_false (Nat.succ_ne_zero iface) fun hall => ?_
      have hfalse := hall ⟨iface + 1, h⟩ (Nat.succ_ne_zero iface) (Nat.le_refl _)
      exact absurd (hm.symm.trans hfalse) (by decide)
    · rw [if_neg hm, ih]
      constructor
      · intro hall i hne hle
        rcases Nat.lt_or_eq_of_le hle with hlt | heq
        · exact hall i hne (Nat.le_of_lt_succ hlt)
        · obtain rfl : i = ⟨iface + 1, h⟩ := Fin.ext heq
          exact Bool.eq_false_iff.mpr hm
      · intro hall i hne hle
        exact hall i hne (Nat.le_succ_of_le hle)

/-- An Othernet the loop ends at is up. -/
theorem ifState_demux {ifTab : Vector Iface nIfaces} {dst : MacAddr} {iface : Nat}
    {h : iface < nIfaces} (hne : (demux ifTab dst iface h).val ≠ 0) :
    (ifTab.get (demux ifTab dst iface h)).ifState = true := by
  induction iface with
  | zero => exact absurd rfl hne
  | succ iface ih =>
    rw [demux] at hne ⊢
    by_cases hm : (ifTab.get ⟨iface + 1, h⟩).matches dst = true
    · rw [if_pos hm]
      exact (Bool.and_eq_true _ _).mp hm |>.1
    · rw [if_neg hm] at hne ⊢
      exact ih hne

/-! ## One iteration -/

theorem Rawin.hands {s : Rawin} {iface : Fin nIfaces} (frame : NetPacket) (fresh : Nat)
    (hup : (s.ifTab.get iface).ifState = true) (hroom : s.full iface = false) :
    Hands s frame fresh iface ((s.label (restoreMulticast frame) iface).enqueue iface fresh) where
  up := hup
  room := by simpa [Rawin.full] using hroom
  queued := rfl
  content := Function.update_self ..
  pkt := rfl

/-- An iteration hands over, drops, or meets the full queue of the Ethernet and ends
the process. -/
theorem rawinFrame_cases (s : Rawin) (frame : NetPacket) (fresh : Nat) :
    (((∃ iface, Hands s frame fresh iface (rawinFrame s frame fresh).2) ∨
      Drops s (rawinFrame s frame fresh).2) ∧ (rawinFrame s frame fresh).2.ended = s.ended ∧
        ¬ EthernetOverflow s (.frame frame fresh)) ∨
    (EthernetOverflow s (.frame frame fresh) ∧ (rawinFrame s frame fresh).2.ended = true) := by
  have hoverflow : EthernetOverflow s (.frame frame fresh) ↔
      (demux s.ifTab (restoreMulticast frame).netDst 2 (by decide)).val = 0 ∧
        (s.ifTab.get ethernet).ifState = true ∧ s.full ethernet = true := by
    rw [demux_eq_zero_iff, netDst_restoreMulticast]
    simp only [Rawin.full, decide_eq_true_eq]
    constructor
    · rintro ⟨frame', fresh', heq, hall, hup, hfull⟩
      obtain ⟨rfl, rfl⟩ := RawinEvent.frame.inj heq
      exact ⟨fun i hne _ => hall i hne, hup, hfull⟩
    · rintro ⟨hall, hup, hfull⟩
      exact ⟨frame, fresh, rfl, fun i hne => hall i hne (Nat.le_of_lt_succ i.isLt), hup,
        hfull⟩
  rw [hoverflow]
  unfold rawinFrame
  simp only
  generalize hi : demux s.ifTab (restoreMulticast frame).netDst 2 _ = iface
  by_cases hne : iface.val ≠ 0
  · -- an Othernet
    have hup : (s.ifTab.get iface).ifState = true := by
      rw [← hi] at hne ⊢
      exact ifState_demux hne
    rw [if_pos hne]
    left
    cases hfull : s.full iface with
    | true =>
      rw [if_pos (show (s.label _ iface).full iface = true from hfull)]
      exact ⟨.inr ⟨rfl, rfl⟩, rfl, fun h => hne h.1⟩
    | false =>
      rw [if_neg (show ¬ (s.label _ iface).full iface = true from Bool.eq_false_iff.mp hfull)]
      exact ⟨.inl ⟨iface, s.hands frame fresh hup hfull⟩, rfl, fun h => hne h.1⟩
  · -- the Ethernet
    rw [not_not] at hne
    obtain rfl : iface = ethernet := Fin.ext hne
    rw [if_neg (by simp)]
    cases hstate : (s.ifTab.get ethernet).ifState with
    | false =>
      rw [if_pos rfl]
      exact .inl ⟨.inr ⟨rfl, rfl⟩, rfl, fun h => by simp at h⟩
    | true =>
      rw [if_neg (by simp)]
      cases hfull : s.full ethernet with
      | true =>
        rw [if_pos (show (s.label _ ethernet).full ethernet = true from hfull)]
        exact .inr ⟨⟨rfl, rfl, rfl⟩, rfl⟩
      | false =>
        rw [if_neg (show ¬ (s.label _ ethernet).full ethernet = true from
          Bool.eq_false_iff.mp hfull)]
        exact .inl ⟨.inl ⟨ethernet, s.hands frame fresh hstate hfull⟩, rfl, fun h => by simp at h⟩

/-- A step receives unless it meets the full queue of the Ethernet. -/
theorem receives_iff {s s' : Rawin} {e : RawinEvent} {o : RawinResult}
    (h : rawinStep s e = .ok (o, s')) : Receives s e s' ↔ ¬ EthernetOverflow s e := by
  cases e with
  | others ifTab =>
    refine iff_of_true (fun frame fresh he => RawinEvent.noConfusion he) ?_
    rintro ⟨frame, fresh, he, -⟩
    exact RawinEvent.noConfusion he
  | frame frame fresh =>
    rw [rawinStep] at h
    split at h
    · cases h
    · rename_i hrunning
      obtain rfl : (rawinFrame s frame fresh).2 = s' := congrArg Prod.snd (Except.ok.inj h)
      rcases rawinFrame_cases s frame fresh with ⟨hgood, hended, hroom⟩ | ⟨hover, hended⟩
      · refine iff_of_true ?_ hroom
        intro frame' fresh' he
        obtain ⟨rfl, rfl⟩ := RawinEvent.frame.inj he
        exact ⟨hgood, hended.trans (Bool.eq_false_iff.mpr hrunning)⟩
      · refine iff_of_false ?_ fun hroom => hroom hover
        intro hgood
        have := (hgood frame fresh rfl).2
        exact absurd (hended.symm.trans this) (by decide)

/-- Without an overflow of the Ethernet queue the process goes on. -/
theorem ended_step {s s' : Rawin} {e : RawinEvent} {o : RawinResult}
    (h : rawinStep s e = .ok (o, s')) (hs : s.ended = false) (hroom : ¬ EthernetOverflow s e) :
    s'.ended = false := by
  cases e with
  | others ifTab =>
    rw [rawinStep] at h
    cases h
    exact hs
  | frame frame fresh => exact (((receives_iff h).mpr hroom) frame fresh rfl).2

/-- `rawin` keeps receiving in exactly the runs in which no frame for the Ethernet
comes while its queue is full. -/
theorem rawin_receives_iff (pkt : Nat) (frames : Nat → NetPacket) (ifTab : Vector Iface nIfaces)
    (tr : List (RawinEvent × RawinResult)) :
    KeepsReceiving (Rawin.start pkt frames ifTab) tr ↔
      AllSteps rawinStep (Rawin.start pkt frames ifTab) (fun s e _ => ¬ EthernetOverflow s e)
        tr := by
  have hsteps : AllSteps rawinStep (Rawin.start pkt frames ifTab) Receives tr ↔
      AllSteps rawinStep (Rawin.start pkt frames ifTab) (fun s e _ => ¬ EthernetOverflow s e) tr :=
    allSteps_congr fun s e o s' h => receives_iff h
  rw [KeepsReceiving, hsteps]
  refine and_iff_left_of_imp fun hroom => ?_
  refine allStates_of_allSteps (I := fun _ s => s.ended = false) rfl ?_ ?_ hroom
  · intro tr s e o s' hs h hC
    exact ended_step h hs hC
  · intro tr s hs frame fresh
    exact ⟨_, _, if_neg (Bool.eq_false_iff.mp hs)⟩

/-- The Ethernet with twenty packets in its queue, and no Othernet up. -/
def fullEthernet : Vector Iface nIfaces :=
  Vector.replicate nIfaces ⟨false, Vector.replicate 6 0, Vector.replicate 6 0,
    ⟨20, ⟨Vector.replicate 20 0, ⟨0, by decide⟩, ⟨0, by decide⟩⟩, .loopTop, false⟩⟩
  |>.set 0 ⟨true, Vector.replicate 6 0, Vector.replicate 6 0xff,
    ⟨20, ⟨Vector.replicate 20 0, ⟨0, by decide⟩, ⟨0, by decide⟩⟩, .loopTop, false⟩⟩

/-- A broadcast frame. -/
def broadcastFrame : NetPacket :=
  ⟨Vector.replicate 6 0xff, Vector.replicate 6 2, 0,
    ⟨Vector.replicate 4 0, 0, 0, 0, unspecified, unspecified⟩, fun _ => 0, 0⟩

/-- The frame that finds the queue of the Ethernet full ends the process. -/
theorem rawin_stops_on_full_ethernet :
    ¬ KeepsReceiving (Rawin.start 1 (fun _ => broadcastFrame) fullEthernet)
      [(.frame broadcastFrame 2, .left)] := by
  rintro ⟨hsteps, -⟩
  have hstep : rawinStep (Rawin.start 1 (fun _ => broadcastFrame) fullEthernet)
      (.frame broadcastFrame 2) =
      .ok (rawinFrame (Rawin.start 1 (fun _ => broadcastFrame) fullEthernet) broadcastFrame 2) :=
    rfl
  have hleft : (rawinFrame (Rawin.start 1 (fun _ => broadcastFrame) fullEthernet)
      broadcastFrame 2).1 = .left := by decide
  have hreceives := hsteps [] _ _ _ _ (List.prefix_refl _) .start
    (hstep.trans (congrArg Except.ok (Prod.ext hleft rfl)))
  exact absurd (hreceives broadcastFrame 2 rfl).2 (by decide)

end NatBox
