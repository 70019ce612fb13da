import NatBox.Kernel.PortInvariant

/-
Clearing a port, and setting it up anew.

`_ptclear` disposes of the messages one at a time, links their list into the free list, then
resets or deletes the semaphores, the senders' first.  Between two of its steps other processes
run, and find the port in limbo.
-/

namespace NatBox

open Chain Function Runs

namespace PortInv

variable {nodes nodes' : Nat → PtNode} {portid p : Fin nPorts} {port : PtEntry}
  {calls : List PtCall} {grant : Option (Fin nPorts × Bool)} {held : List Nat}
  {msgs : List UInt32} {flight : List PtCall} {newstate : PtState}

theorem clear_start (h : PortInv nodes portid port calls none held msgs flight)
    (halloc : port.ptstate = .alloc) (hnew : newstate ≠ .limbo) :
    PortInv nodes portid
      { port with
        ptstate := .limbo
        ptseq := port.ptseq + 1
        clear := some (newstate, .dispose port.pthead)
        generation := port.generation + 1 } calls none held msgs flight where
  linked := h.queue_eq halloc ▸ h.linked
  tail _ := h.tail_eq_getLast? halloc
  bounded := h.bounded
  pending := ⟨[], held, rfl, h.queue_eq halloc ▸ h.linked, h.msgs_eq halloc⟩
  clear := ⟨rfl, hnew⟩
  seq := by
    show port.ptseq + 1 = UInt32.ofNat (port.generation + 1)
    rw [h.seq, UInt32.ofNat_add]
    rfl
  call c hc := by
    obtain ⟨hport, hseq, hle, -⟩ := h.call c hc
    exact ⟨hport, hseq, Nat.le_succ_of_le hle, fun _ => Nat.lt_succ_of_le hle⟩
  waiting sends s hs c hc := ⟨(h.waiting sends s hs c hc).1, nofun⟩
  flight := h.flight
  opened := nofun
  free := nofun

/-- A message goes to `dispose`. -/
theorem disposed {walk : Nat} (h : PortInv nodes portid port calls none held msgs flight)
    (hclear : port.clear = some (newstate, .dispose (some walk))) :
    ∃ msgs', msgs = (nodes walk).ptmsg :: msgs' ∧
      PortInv nodes portid { port with clear := some (newstate, .advance walk) } calls none held
        msgs' flight := by
  obtain ⟨done, rest, hheld, hrest, rfl⟩ := h.pending
  have hqueue : port.queue = port.pthead := by
    unfold PtEntry.queue
    rw [hclear]
  have hwalk : port.pending nodes = some walk := by
    unfold PtEntry.pending
    rw [hclear]
  have hkept := h.clear
  unfold PtEntry.ClearKept at hkept
  rw [hclear] at hkept
  rw [hwalk] at hrest
  obtain ⟨rest', rfl, hrest'⟩ := hrest.eq_cons
  refine ⟨rest'.map fun node => (nodes node).ptmsg, rfl, { h with
    linked := hqueue ▸ h.linked
    tail := fun _ => h.tail hqueue
    pending := ⟨done ++ [walk], rest', ?_, hrest', rfl⟩
    clear := ⟨hkept.1, hkept.2, ?_⟩ }⟩
  · rw [hheld, List.append_assoc]
    rfl
  · rw [hheld]
    exact List.mem_append_right _ List.mem_cons_self

theorem advanced {walk : Nat} (h : PortInv nodes portid port calls none held msgs flight)
    (hclear : port.clear = some (newstate, .advance walk)) :
    PortInv nodes portid { port with clear := some (newstate, .dispose (nodes walk).ptnext) }
      calls none held msgs flight := by
  obtain ⟨done, rest, hheld, hrest, hmsgs⟩ := h.pending
  have hqueue : port.queue = port.pthead := by
    unfold PtEntry.queue
    rw [hclear]
  have hwalk : port.pending nodes = (nodes walk).ptnext := by
    unfold PtEntry.pending
    rw [hclear]
    rfl
  have hkept := h.clear
  unfold PtEntry.ClearKept at hkept
  rw [hclear] at hkept
  exact { h with
    linked := hqueue ▸ h.linked
    tail := fun _ => h.tail hqueue
    pending := ⟨done, rest, hheld, hwalk ▸ hrest, hmsgs⟩
    clear := ⟨hkept.1, hkept.2.1⟩ }

/-- What `_ptclear` leaves of a semaphore. -/
theorem clearSem_eq {sends : Bool} (port : PtEntry)
    (hs : (port.clearSem newstate sends).1 = some s) :
    newstate = .alloc ∧ s.waiting = [] ∧ s.permits = if sends then port.ptmaxcnt.toNat else 0 := by
  unfold PtEntry.clearSem semclear at hs
  split at hs
  · cases hs
  · dsimp only at hs
    split at hs
    · next halloc =>
      obtain rfl := Option.some.inj hs
      exact ⟨halloc, rfl, rfl⟩
    · cases hs

theorem clearSem_waiting {sends : Bool} (port : PtEntry) :
    (port.clearSem newstate sends).2 ++ waitingAt (port.clearSem newstate sends).1 =
      waitingAt (port.sem sends) := by
  have hempty : waitingAt (port.clearSem newstate sends).1 = [] := by
    cases hs : (port.clearSem newstate sends).1 with
    | none => rfl
    | some s => exact (clearSem_eq port hs).2.1
  rw [hempty, List.append_nil]
  unfold PtEntry.clearSem semclear
  cases port.sem sends <;> rfl

/-- All who wait on a semaphore are made ready. -/
theorem flight_clearSem {sends : Bool} (port : PtEntry) (calls : List PtCall) :
    (calls ++ (port.clearSem newstate sends).2 ++
      (port.setSem (port.clearSem newstate sends).1 sends).waiting).Perm
      (calls ++ port.waiting) := by
  refine (List.Perm.append_left _ (waiting_setSem_perm port _ sends)).trans ?_
  rw [List.append_assoc, ← List.append_assoc (port.clearSem newstate sends).2, clearSem_waiting]
  exact List.Perm.append_left _ (waiting_perm port sends).symm

theorem freed_senders {pthead pttail : Option Nat} (nodes' : Nat → PtNode)
    (h : PortInv nodes portid port calls none held msgs flight)
    (hclear : port.clear = some (newstate, .dispose none))
    (hhead : pthead = if newstate = .alloc then none else port.pthead)
    (htail : pttail = if newstate = .alloc then none else port.pttail) :
    msgs = [] ∧ PortInv nodes' portid
      ({ port with pthead := pthead, pttail := pttail, clear := some (newstate, .receivers) }.setSem
        (port.clearSem newstate true).1 true)
      (calls ++ (port.clearSem newstate true).2) none [] [] flight := by
  obtain ⟨done, rest, hheld, hrest, rfl⟩ := h.pending
  have hwalk : port.pending nodes = none := by
    unfold PtEntry.pending
    rw [hclear]
  have hkept := h.clear
  unfold PtEntry.ClearKept at hkept
  rw [hclear] at hkept
  obtain ⟨hlimbo, hnew⟩ := hkept
  obtain rfl : rest = [] := (hwalk ▸ hrest).eq_nil
  refine ⟨rfl, rfl, fun hnone => ?_, Nat.zero_le _, ⟨[], [], rfl, rfl, rfl⟩,
    ⟨hlimbo, hnew, fun s hs => clearSem_eq port hs, fun halloc => ?_⟩, h.seq, h.call,
    fun sends s hs c hc => ?_, (flight_clearSem port calls).trans h.flight, ?_, ?_⟩
  · show pttail = none
    have hnone : none = pthead := hnone
    by_cases halloc : newstate = .alloc
    · rw [htail, if_pos halloc]
    · rw [hhead, if_neg halloc] at hnone
      have hqueue : port.queue = port.pthead := by
        unfold PtEntry.queue
        rw [hclear]
      have hempty : held = [] := (hnone ▸ hqueue ▸ h.linked).eq_nil
      rw [htail, if_neg halloc, h.tail hqueue, hempty]
      rfl
  · rw [hhead, htail, if_pos halloc, if_pos halloc]
    exact ⟨rfl, rfl⟩
  · cases sends with
    | true =>
      have hs : (port.clearSem newstate true).1 = some s := hs
      rw [(clearSem_eq port hs).2.1] at hc
      cases hc
    | false => exact h.waiting false s hs c hc
  · intro halloc
    exact absurd (hlimbo.symm.trans halloc) nofun
  · intro hfree
    exact absurd (hlimbo.symm.trans hfree) nofun

/-- A port whose messages are gone. -/
theorem gone (h : PortInv nodes portid port calls none held msgs flight)
    (hqueue : port.queue = none) (hpending : port.pending nodes = none) :
    held = [] ∧ msgs = [] := by
  obtain ⟨done, rest, -, hrest, rfl⟩ := h.pending
  have hnone : Leads (nextOf nodes) none rest := hpending ▸ hrest
  rw [hnone.eq_nil]
  exact ⟨(hqueue ▸ h.linked).eq_nil, rfl⟩

/-- The last two steps of a clearing come when the queue has been gone through. -/
theorem queue_cleared (nodes : Nat → PtNode)
    (hclear : port.clear = some (newstate, .receivers) ∨ port.clear = some (newstate, .leave)) :
    port.queue = none ∧ port.pending nodes = none := by
  unfold PtEntry.queue PtEntry.pending
  rcases hclear with hclear | hclear
  · rw [hclear]
    exact ⟨rfl, rfl⟩
  · rw [hclear]
    exact ⟨rfl, rfl⟩

theorem freed_receivers (h : PortInv nodes portid port calls none held msgs flight)
    (hclear : port.clear = some (newstate, .receivers)) :
    PortInv nodes portid
      ({ port with clear := some (newstate, .leave) }.setSem (port.clearSem newstate false).1 false)
      (calls ++ (port.clearSem newstate false).2) none held msgs flight := by
  obtain ⟨hqueue, hwalk⟩ := queue_cleared nodes (.inl hclear)
  obtain ⟨rfl, rfl⟩ := h.gone hqueue hwalk
  have hkept := h.clear
  unfold PtEntry.ClearKept at hkept
  rw [hclear] at hkept
  obtain ⟨hlimbo, hnew, hfreed, hheads⟩ := hkept
  refine ⟨rfl, fun hnone => h.tail (hqueue.trans hnone), Nat.zero_le _, ⟨[], [], rfl, rfl, rfl⟩,
    ⟨hlimbo, hnew, fun sends s hs => ?_, hheads⟩, h.seq, h.call, fun sends s hs c hc => ?_,
    (flight_clearSem port calls).trans h.flight, ?_, ?_⟩
  · cases sends with
    | true => exact hfreed s hs
    | false => exact clearSem_eq port hs
  · cases sends with
    | true => exact h.waiting true s hs c hc
    | false =>
      have hs : (port.clearSem newstate false).1 = some s := hs
      rw [(clearSem_eq port hs).2.1] at hc
      cases hc
  · intro halloc
    exact absurd (hlimbo.symm.trans halloc) nofun
  · intro hfree
    exact absurd (hlimbo.symm.trans hfree) nofun

/-- Nobody who is ready has been let through to a port that is not allocated. -/
theorem live_eq_zero {generation : Nat} {sends : Bool}
    (h : PortInv nodes portid port calls none held msgs flight)
    (hlate : ∀ c ∈ flight, c.generation < generation) :
    { port with generation := generation }.live calls sends = 0 := by
  refine List.countP_eq_zero.mpr fun c hc hlive => ?_
  have hlt := hlate c (h.flight.mem_iff.mp (List.mem_append_left _ hc))
  exact Nat.ne_of_lt hlt (of_decide_eq_true hlive).1

theorem left (h : PortInv nodes portid port calls none held msgs flight)
    (hclear : port.clear = some (newstate, .leave)) :
    PortInv nodes portid { port with ptstate := newstate, clear := none } calls none held msgs
      flight := by
  obtain ⟨hqueue, hwalk⟩ := queue_cleared nodes (.inr hclear)
  obtain ⟨rfl, rfl⟩ := h.gone hqueue hwalk
  have hkept := h.clear
  unfold PtEntry.ClearKept at hkept
  rw [hclear] at hkept
  obtain ⟨hlimbo, hnew, hfreed, hheads⟩ := hkept
  have hlate : ∀ c ∈ flight, c.generation < port.generation := fun c hc =>
    (h.call c hc).2.2.2 (by rw [hlimbo]; nofun)
  have hnone : (if newstate = .alloc then port.pthead else none) = none := by
    split
    · next halloc => exact (hheads halloc).1
    · rfl
  refine ⟨hnone, fun heq => ?_, Nat.zero_le _, ⟨[], [], rfl, hnone, rfl⟩, hnew, h.seq,
    fun c hc => ?_, fun sends s hs c hc => ?_, h.flight, fun halloc sends => ?_,
    fun hfree sends => ?_⟩
  · exact h.tail (hqueue.trans (hnone.symm.trans heq))
  · obtain ⟨hport, hseq, hle, -⟩ := h.call c hc
    exact ⟨hport, hseq, hle, fun _ => hlate c hc⟩
  · have hs : port.sem sends = some s := by
      cases sends <;> exact hs
    rw [(hfreed sends s hs).2.1] at hc
    cases hc
  · have hlive : { port with ptstate := newstate, clear := none }.live calls sends = 0 :=
      h.live_eq_zero hlate
    rw [hlive, if_neg (by nofun)]
    have hsem : { port with ptstate := newstate, clear := none }.sem sends = port.sem sends := by
      cases sends <;> rfl
    rw [hsem]
    cases hs : port.sem sends with
    | none => rfl
    | some s =>
      show s.permits + 0 + 0 = _
      rw [(hfreed sends s hs).2.2]
      cases sends <;> rfl
  · have hsem : { port with ptstate := newstate, clear := none }.sem sends = port.sem sends := by
      cases sends <;> rfl
    rw [hsem]
    cases hs : port.sem sends with
    | none => rfl
    | some s =>
      have halloc := (hfreed sends s hs).1
      rw [show newstate = .free from hfree] at halloc
      cases halloc

/-- `ptcreate` takes a free entry. -/
theorem created {count : Nat} (ssem rsem : Bool)
    (h : PortInv nodes portid port calls none held msgs flight) (hfree : port.ptstate = .free)
    (hcount : count < 2 ^ 16) :
    PortInv nodes portid (port.create count ssem rsem) calls none held msgs flight := by
  have hclear : port.clear = none := h.clear_eq_none (by rw [hfree]; nofun)
  have hclear' : (port.create count ssem rsem).clear = none := hclear
  have hqueue : port.queue = none := by
    unfold PtEntry.queue
    rw [hclear]
    exact if_neg (by rw [hfree]; nofun)
  have hwalk : port.pending nodes = none := by
    unfold PtEntry.pending
    rw [hclear]
    exact hqueue
  obtain ⟨rfl, rfl⟩ := h.gone hqueue hwalk
  have hmaxcnt : (UInt16.ofNat count).toNat = count := UInt16.toNat_ofNat_of_lt' hcount
  have hlate : ∀ c ∈ flight, c.generation < port.generation + 1 := fun c hc =>
    Nat.lt_succ_of_le (h.call c hc).2.2.1
  have hnobody : port.waiting = [] := by
    unfold PtEntry.waiting
    rw [show port.ptssem = none from h.free hfree true,
      show port.ptrsem = none from h.free hfree false]
    rfl
  have hempty : ∀ sends, waitingAt ((port.create count ssem rsem).sem sends) = [] := by
    intro sends
    cases sends <;> cases ssem <;> cases rsem <;> rfl
  have hnew : (port.create count ssem rsem).queue = none := by
    unfold PtEntry.queue
    rw [hclear']
    exact ite_self none
  refine ⟨hnew, fun _ => rfl, Nat.zero_le _, ⟨[], [], rfl, ?_, rfl⟩, ?_, ?_, fun c hc => ?_,
    fun sends s hs c hc => ?_, ?_, fun _ sends => ?_, nofun⟩
  · unfold PtEntry.pending
    rw [hclear']
    exact hnew
  · unfold PtEntry.ClearKept
    rw [hclear']
    exact (nofun : PtState.alloc ≠ .limbo)
  · show port.ptseq + 1 = UInt32.ofNat (port.generation + 1)
    rw [h.seq, UInt32.ofNat_add]
    rfl
  · obtain ⟨hport, hseq, hle, -⟩ := h.call c hc
    exact ⟨hport, hseq, Nat.le_succ_of_le hle, fun _ => hlate c hc⟩
  · have hw := hempty sends
    rw [hs] at hw
    exact absurd (show c ∈ waitingAt (some s) from hc) (hw ▸ List.not_mem_nil)
  · have hflight := h.flight
    rw [hnobody] at hflight
    show (calls ++ (waitingAt ((port.create count ssem rsem).sem true) ++
      waitingAt ((port.create count ssem rsem).sem false))).Perm flight
    rw [hempty, hempty]
    exact hflight
  · have hlive : (port.create count ssem rsem).live calls sends = 0 :=
      h.live_eq_zero hlate
    rw [hlive, if_neg (by nofun)]
    cases sends with
    | true =>
      cases ssem with
      | true => exact hmaxcnt.symm
      | false => rfl
    | false => cases rsem <;> rfl

end PortInv

end NatBox
