import NatBox.Kernel.PortSteps

/-
The ports are bounded channels along a run.

`PortsSound` says of the history what the messages that are pending and the callers that did not
come back are; every step whose sequence numbers and counts fit keeps it.
-/

namespace NatBox

open Chain Function Runs

theorem ptinitLoop_leads (rounds curr : Nat) (nodes : Nat → PtNode) :
    (∀ x, x < curr → (ptinitLoop rounds curr nodes).2 x = nodes x) ∧
      (ptinitLoop rounds curr nodes).1 = curr + rounds ∧
      Leads
        (nextOf (setNext (ptinitLoop rounds curr nodes).2 (ptinitLoop rounds curr nodes).1 none))
        (some curr) (List.range' curr (rounds + 1)) := by
  induction rounds generalizing curr nodes with
  | zero =>
    refine ⟨fun _ _ => rfl, rfl, rfl, ?_⟩
    show nextOf (setNext nodes curr none) curr = none
    unfold nextOf setNext
    rw [update_self]
  | succ rounds ih =>
    obtain ⟨hbelow, hlast, hleads⟩ := ih (curr + 1) (setNext nodes curr (some (curr + 1)))
    rw [ptinitLoop]
    refine ⟨fun x hx => ?_, by omega, rfl, ?_⟩
    · rw [hbelow x (by omega)]
      exact update_of_ne (by omega) _ _
    · have hne : curr ≠ curr + 1 + rounds := by omega
      have hnext : nextOf (setNext (ptinitLoop rounds (curr + 1)
          (setNext nodes curr (some (curr + 1)))).2 (curr + 1 + rounds) none) curr =
          some (curr + 1) := by
        unfold nextOf
        rw [setNext, update_of_ne hne, hbelow curr (Nat.lt_succ_self curr), setNext, update_self]
      rw [hlast] at hleads ⊢
      rw [hnext]
      exact hleads

theorem ptinit_inv {memory : Nat → PtNode} {maxmsgs : Nat} {a : Ports}
    (h : ptinit memory maxmsgs = .ok a) :
    PortsInv maxmsgs a none (List.range maxmsgs) (fun _ => []) (fun _ => []) fun _ => [] := by
  unfold ptinit at h
  split at h
  · cases h
  · next hpos =>
    obtain rfl := Except.ok.inj h
    obtain ⟨rounds, rfl⟩ := Nat.exists_eq_succ_of_ne_zero hpos
    obtain ⟨-, -, hleads⟩ := ptinitLoop_leads rounds 0 memory
    refine ⟨?_, ⟨fun i => ?_, fun {i j x} hi hj => ?_, fun x => ⟨?_, fun hx => ?_⟩⟩, fun p => ?_⟩
    · rw [List.range_eq_range']
      exact hleads
    · cases i with
      | none => exact List.nodup_range
      | some q => exact List.nodup_nil
    · cases i with
      | none =>
        cases j with
        | none => rfl
        | some q => cases hj
      | some q => cases hi
    · rintro ⟨i, hi⟩
      cases i with
      | none => exact List.mem_range.mp hi
      | some q => cases hi
    · exact ⟨none, List.mem_range.mpr hx⟩
    · exact {
        linked := rfl
        tail := fun _ => rfl
        bounded := Nat.le_refl 0
        pending := ⟨[], [], rfl, rfl, rfl⟩
        clear := (nofun : PtState.free ≠ .limbo)
        seq := rfl
        call := fun c hc => absurd hc List.not_mem_nil
        waiting := fun sends s hs => by cases sends <;> cases hs
        flight := .refl _
        opened := nofun
        free := fun _ sends => by cases sends <;> rfl }

/-- What the history says of the messages that are pending and the callers that did not come
back. -/
def TraceKept (tr : List (PtEvent × PtResult)) (msgs : Fin nPorts → List UInt32)
    (flight : Fin nPorts → List PtCall) : Prop :=
  ∀ q, accepted q tr = removed q tr ++ msgs q ∧ (blocked q tr).Perm (resumed q tr ++ flight q)

def PortsSound (maxmsgs : Nat) (tr : List (PtEvent × PtResult)) (a : Ports) : Prop :=
  ∃ free held msgs flight, PortsInv maxmsgs a none free held msgs flight ∧
    TraceKept tr msgs flight

variable {maxmsgs : Nat} {a a' : Ports} {tr : List (PtEvent × PtResult)} {e : PtEvent}
  {o : PtResult}

theorem filterMap_concat {α β : Type} (f : α → Option β) (l : List α) (x : α) :
    (l ++ [x]).filterMap f = l.filterMap f ++ (f x).toList := by
  rw [List.filterMap_append]
  cases hx : f x <;> simp [hx]

theorem PortsSound.step (h : PortsSound maxmsgs tr a) (hrun : ptStep a e = .ok (o, a'))
    (hfit : PortsFit a e) : PortsSound maxmsgs (tr ++ [(e, o)]) a' := by
  obtain ⟨free, held, msgs, flight, hinv, htrace⟩ := h
  have hkept : PortsInv.Kept maxmsgs msgs flight e o a' := by
    cases e with
    | create count ssem rsem => exact hinv.create_kept hrun hfit
    | send pid portid msg => exact hinv.call_kept hrun fun _ _ => rfl
    | recv pid portid => exact hinv.call_kept hrun fun _ _ => rfl
    | reset portid =>
      exact hinv.clear_kept (nofun : PtState.alloc ≠ .limbo) (Except.ok.inj hrun) fun _ _ => rfl
    | delete portid =>
      exact hinv.clear_kept (nofun : PtState.free ≠ .limbo) (Except.ok.inj hrun) fun _ _ => rfl
    | resume call => exact hinv.resume_kept hrun hfit
    | clear p => exact hinv.clearResume_kept hrun
  obtain ⟨free', held', msgs', flight', hinv', hmoves, hflight⟩ := hkept
  refine ⟨free', held', msgs', flight', hinv', fun q => ⟨?_, ?_⟩⟩
  · have hacc : accepted q (tr ++ [(e, o)]) = accepted q tr ++ (o.accepts q).toList :=
      filterMap_concat _ tr (e, o)
    have hrem : removed q (tr ++ [(e, o)]) = removed q tr ++ (o.removes q).toList :=
      filterMap_concat _ tr (e, o)
    rw [hacc, hrem, (htrace q).1, List.append_assoc, hmoves q, ← List.append_assoc]
  · have hblk : blocked q (tr ++ [(e, o)]) = blocked q tr ++ (o.blocks q).toList :=
      filterMap_concat _ tr (e, o)
    have hres : resumed q (tr ++ [(e, o)]) = resumed q tr ++ (e.resumes q o).toList :=
      filterMap_concat _ tr (e, o)
    rw [hblk, hres, List.append_assoc]
    refine ((htrace q).2.append_right _).trans ?_
    rw [List.append_assoc]
    exact (hflight q).append_left _

/-- A step that fits is taken, but for the panic of a sender without a node. -/
theorem PortsSound.fault {f : Fault} (h : PortsSound maxmsgs tr a) (hfit : PortsFit a e)
    (hrun : ptStep a e = .error f) : f = .panic := by
  obtain ⟨free, held, msgs, flight, hinv, -⟩ := h
  have hcall : ∀ pid portid msg, ptcall a pid portid msg = .error f → f = .panic := by
    intro pid portid msg hfault
    rcases hinv.ptcall_cases pid portid msg with hrefused | ⟨call, b, hblocked, -⟩ |
      ⟨call, b, hthrough, hlet⟩
    · cases hrefused.symm.trans hfault
    · cases hblocked.symm.trans hfault
    · exact hlet.fault (hthrough.symm.trans hfault)
  cases e with
  | create count ssem rsem => cases hrun
  | send pid portid msg => exact hcall pid portid _ hrun
  | recv pid portid => exact hcall pid portid _ hrun
  | reset portid => cases hrun
  | delete portid => cases hrun
  | resume call =>
    by_cases hc : call ∈ a.ready
    · by_cases hgen : call.generation = (a.porttab call.portid).generation
      · rw [ptStep, if_pos hc] at hrun
        exact (hinv.let_through hc hgen).fault hrun
      · have hle := ((hinv.port call.portid).call call (hinv.mem_flight hc).2).2.2.1
        have hrefused := hinv.stale_refused hc (Nat.lt_of_le_of_ne hle hgen) hfit
        cases hrefused.symm.trans hrun
    · rw [ptStep, if_neg hc] at hrun
      cases hrun
  | clear p =>
    rw [ptStep, ptclearResume] at hrun
    cases hclear : (a.porttab p).clear with
    | none =>
      simp only [hclear] at hrun
      cases hrun
    | some clear =>
      obtain ⟨newstate, stage⟩ := clear
      rcases stage with walk | walk | _ | _
      · cases walk with
        | some walk =>
          simp only [hclear] at hrun
          cases hrun
        | none =>
          have hqueue : (a.porttab p).queue = (a.porttab p).pthead := by
            unfold PtEntry.queue
            rw [hclear]
          obtain ⟨nodes, ptfree, free', hmessages, -⟩ := hinv.freeMessages hqueue
          simp only [hclear, hmessages, Except.map] at hrun
          cases hrun
      · simp only [hclear] at hrun
        cases hrun
      · simp only [hclear] at hrun
        cases hrun
      · simp only [hclear] at hrun
        cases hrun

theorem received_sublist_removed (p : Fin nPorts) (tr : List (PtEvent × PtResult)) :
    (received p tr).Sublist (removed p tr) := by
  induction tr with
  | nil => exact .slnil
  | cons c tr ih =>
    unfold received removed at ih ⊢
    rw [List.filterMap_cons, List.filterMap_cons]
    cases hrec : c.2.receives p with
    | none =>
      cases c.2.removes p with
      | none => exact ih
      | some msg => exact ih.cons msg
    | some msg =>
      have hrem : c.2.removes p = some msg := by
        unfold PtResult.receives at hrec
        split at hrec
        · next heq =>
          rw [heq]
          exact hrec
        · cases hrec
      rw [hrem]
      exact ih.cons_cons msg

theorem PortsSound.kept (h : PortsSound maxmsgs tr a) : PortsKept maxmsgs tr a := by
  obtain ⟨free, held, msgs, flight, hinv, htrace⟩ := h
  refine ⟨⟨free, held, hinv.freeList, fun p => (hinv.port p).linked, hinv.parts,
    fun p => (hinv.port p).bounded⟩, fun p => ?_, fun p => ?_, fun p => ?_, fun p hstate c hc => ?_⟩
  · obtain ⟨done, rest, -, hrest, hmsgs⟩ := (hinv.port p).pending
    exact ⟨rest, hrest, hmsgs ▸ (htrace p).1⟩
  · rw [(htrace p).1]
    exact (received_sublist_removed p tr).trans (List.sublist_append_left _ _)
  · exact (htrace p).2.trans ((hinv.port p).flight.symm.append_left _)
  · have hp := hinv.port p
    cases halloc : (a.porttab p).ptstate with
    | alloc =>
      rcases List.mem_append.mp hc with hc | hc
      · have hwaits : c ∈ waitingAt ((a.porttab p).sem true) := hc
        exact (hp.waitingAt_kind halloc hwaits).2
      · have hwaits : c ∈ waitingAt ((a.porttab p).sem false) := hc
        exact (hp.waitingAt_kind halloc hwaits).2
    | limbo => exact absurd halloc hstate
    | free =>
      have hnone : (a.porttab p).waiting = [] := by
        unfold PtEntry.waiting
        rw [show (a.porttab p).ptssem = none from hp.free halloc true,
          show (a.porttab p).ptrsem = none from hp.free halloc false]
        rfl
      rw [hnone] at hc
      cases hc

/-- Ports are bounded FIFO channels along every run whose counts fit and whose callers come back
before `ptseq` has gone round. -/
theorem channels_kept {memory : Nat → PtNode} {maxmsgs : Nat} {a₀ : Ports}
    {tr : List (PtEvent × PtResult)} (hinit : ptinit memory maxmsgs = .ok a₀)
    (hfit : AllSteps ptStep a₀ (fun a e _ => PortsFit a e) tr) : ChannelsKept maxmsgs a₀ tr := by
  have hstart : PortsSound maxmsgs [] a₀ :=
    ⟨_, _, _, _, ptinit_inv hinit, fun _ => ⟨rfl, .refl _⟩⟩
  have hstep : ∀ tr s e o s', PortsSound maxmsgs tr s → ptStep s e = .ok (o, s') → PortsFit s e →
      PortsSound maxmsgs (tr ++ [(e, o)]) s' := fun tr s e o s' hs hrun hf => hs.step hrun hf
  refine ⟨allStates_of_allSteps hstart hstep (fun _ _ h => h.kept) hfit, ?_⟩
  intro pre s c o s' hpre hrun hs hready hstale
  have hsteps : AllSteps ptStep a₀ (fun a e _ => PortsFit a e) pre := fun pre' u e' o' u' hp =>
    hfit pre' u e' o' u' (hp.trans ((List.prefix_append _ _).trans hpre))
  obtain ⟨_, _, _, _, hinv, -⟩ := hrun.invariant_of_allSteps hstart hstep hsteps
  have hrefused := hinv.stale_refused hready hstale (hfit pre s _ o s' hpre hrun hs)
  exact Prod.mk.inj (Except.ok.inj (hs.symm.trans hrefused))

/-- There is always a message for whom `ptrecv` lets through: such a run stops only for want of
a node. -/
theorem ptStep_fault {memory : Nat → PtNode} {a₀ : Ports} {f : Fault}
    (hinit : ptinit memory maxmsgs = .ok a₀) (hrun : Run ptStep a₀ tr a)
    (hfits : AllSteps ptStep a₀ (fun a e _ => PortsFit a e) tr) (hfit : PortsFit a e)
    (hstep : ptStep a e = .error f) : f = .panic := by
  have hstart : PortsSound maxmsgs [] a₀ :=
    ⟨_, _, _, _, ptinit_inv hinit, fun _ => ⟨rfl, .refl _⟩⟩
  exact (hrun.invariant_of_allSteps hstart (fun _ _ _ _ _ hs hrun hf => hs.step hrun hf)
    hfits).fault hfit hstep

/-- A caller of `ptrecv` waits while its port is reset, and another one while a message comes. -/
def resetWhileWaiting : List PtEvent :=
  [.create 2 true true, .recv 1 0, .reset 0, .clear 0, .clear 0, .clear 0, .recv 2 0, .send 3 0 7,
    .resume ⟨1, 0, none, 1, 1⟩, .resume ⟨2, 0, none, 2, 2⟩]

/-- The memory that `ptinit` gets. -/
def zeroNodes : Nat → PtNode := fun _ => ⟨0, none⟩

theorem channels_kept_reset :
    ∃ a₀ os a, ptinit zeroNodes 100 = .ok a₀ ∧ Run ptStep a₀ (resetWhileWaiting.zip os) a ∧
      os.drop 7 = [.accepted 0 7, .syserr, .received 0 7] ∧
      ChannelsKept 100 a₀ (resetWhileWaiting.zip os) := by
  obtain ⟨os, a, hrun, hevents, hresults⟩ := run_of_endsIn (show endsIn ptStep
    (.init zeroNodes 100) resetWhileWaiting (fun os _ =>
      decide (os.drop 7 = [.accepted 0 7, .syserr, .received 0 7])) = true by decide +kernel)
  have hpass : stepsPass ptStep (fun a e => decide (PortsFit a e)) (.init zeroNodes 100)
      ((resetWhileWaiting.zip os).map Prod.fst) = true := by
    rw [hevents]
    decide +kernel
  exact ⟨_, os, a, rfl, hrun, of_decide_eq_true hresults, channels_kept rfl
    (allSteps_of_stepsPass hpass fun _ _ => of_decide_eq_true)⟩

/-- A port for 65536 messages has a `ptmaxcnt` of 0. -/
theorem channels_fail_large_count :
    ¬ ∀ a₀ tr a, ptinit zeroNodes 100 = .ok a₀ → Run ptStep a₀ tr a → ChannelsKept 100 a₀ tr := by
  intro h
  obtain ⟨os, a, hrun, -, hfull⟩ := run_of_endsIn (show endsIn ptStep (.init zeroNodes 100)
    [.create 65536 true true, .send 1 0 5] (fun _ a => decide ((a.porttab 0).queue = some 0 ∧
      (a.porttab 0).ptmaxcnt = 0)) = true by decide +kernel)
  obtain ⟨hqueue, hmaxcnt⟩ := of_decide_eq_true hfull
  obtain ⟨free, held, -, hleads, -, hbounded⟩ :=
    ((h _ _ a rfl hrun).states _ a (List.prefix_refl _) hrun).nodes
  have hempty := hbounded 0
  rw [hmaxcnt] at hempty
  have hnone := hleads 0
  rw [List.eq_nil_of_length_eq_zero (Nat.eq_zero_of_le_zero hempty), hqueue] at hnone
  cases hnone

end NatBox
