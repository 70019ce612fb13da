import NatBox.Kernel.Ports

/-
What keeps a port a bounded channel.

`PortInv` is about one port: its messages, its semaphores, and the callers that have been
blocked on it and did not come back, be they ready or waiting.  For a port that is allocated the
permits of a semaphore and the callers that it has released make up what is open to callers of
their kind, the free room or the messages.  A caller that has been let through and not used it
yet is the `grant`; there is one at most, in the middle of a step.
-/

namespace NatBox

open Chain Function Runs

/-- What a caller of the kind may count on: room for a message, or a message. -/
def PtEntry.openTo (port : PtEntry) (held : List Nat) (sends : Bool) : Nat :=
  if sends then port.ptmaxcnt.toNat - held.length else held.length

/-- The ready callers of the kind that are still right. -/
def PtEntry.live (port : PtEntry) (calls : List PtCall) (sends : Bool) : Nat :=
  calls.countP fun call => call.generation = port.generation ∧ call.msg.isSome = sends

/-- The permits of a semaphore and the `live` and `granted` callers make up what is open. -/
def SemOpen (sem : Option (Semaphore PtCall)) (live granted openTo : Nat) : Prop :=
  match sem with
  | none => live = 0
  | some s => s.permits + live + granted = openTo

/-- The semaphore of the port has been dealt with by `_ptclear`. -/
def PtEntry.CallersFreed (port : PtEntry) (newstate : PtState) (sends : Bool) : Prop :=
  ∀ s, port.sem sends = some s →
    newstate = .alloc ∧ s.waiting = [] ∧ s.permits = if sends then port.ptmaxcnt.toNat else 0

def PtEntry.ClearKept (port : PtEntry) (held : List Nat) : Prop :=
  match port.clear with
  | none => port.ptstate ≠ .limbo
  | some (newstate, .dispose _) => port.ptstate = .limbo ∧ newstate ≠ .limbo
  | some (newstate, .advance walk) => port.ptstate = .limbo ∧ newstate ≠ .limbo ∧ walk ∈ held
  | some (newstate, .receivers) =>
    port.ptstate = .limbo ∧ newstate ≠ .limbo ∧ port.CallersFreed newstate true ∧
      (newstate = .alloc → port.pthead = none ∧ port.pttail = none)
  | some (newstate, .leave) =>
    port.ptstate = .limbo ∧ newstate ≠ .limbo ∧ (∀ sends, port.CallersFreed newstate sends) ∧
      (newstate = .alloc → port.pthead = none ∧ port.pttail = none)

/-- `held` are the nodes of the port, `msgs` the messages that are pending, `calls` its ready
callers and `flight` all that were blocked and did not come back. -/
structure PortInv (nodes : Nat → PtNode) (portid : Fin nPorts) (port : PtEntry)
    (calls : List PtCall) (grant : Option (Fin nPorts × Bool)) (held : List Nat)
    (msgs : List UInt32) (flight : List PtCall) : Prop where
  linked : Leads (nextOf nodes) port.queue held
  tail : port.queue = port.pthead → port.pttail = held.getLast?
  bounded : held.length ≤ port.ptmaxcnt.toNat
  pending : ∃ done rest, held = done ++ rest ∧ Leads (nextOf nodes) (port.pending nodes) rest ∧
    msgs = rest.map fun node => (nodes node).ptmsg
  clear : port.ClearKept held
  seq : port.ptseq = UInt32.ofNat port.generation
  call : ∀ c ∈ flight, c.portid = portid ∧ c.seq = UInt32.ofNat c.generation ∧
    c.generation ≤ port.generation ∧ (port.ptstate ≠ .alloc → c.generation < port.generation)
  waiting : ∀ sends s, port.sem sends = some s → ∀ c ∈ s.waiting,
    c.msg.isSome = sends ∧ (port.ptstate = .alloc → c.generation = port.generation)
  flight : (calls ++ port.waiting).Perm flight
  /-- what is open to callers goes to those who were let through or will be -/
  opened : port.ptstate = .alloc → ∀ sends,
    SemOpen (port.sem sends) (port.live calls sends)
      (if grant = some (portid, sends) then 1 else 0) (port.openTo held sends)
  free : port.ptstate = .free → ∀ sends, port.sem sends = none

namespace PortInv

variable {nodes nodes' : Nat → PtNode} {portid p : Fin nPorts} {port : PtEntry}
  {calls : List PtCall} {grant : Option (Fin nPorts × Bool)} {held : List Nat}
  {msgs : List UInt32} {flight : List PtCall}

/-- A step elsewhere. -/
theorem congr (h : PortInv nodes portid port calls grant held msgs flight)
    (hag : ∀ node ∈ held, nodes' node = nodes node) :
    PortInv nodes' portid port calls grant held msgs flight := by
  have hnext : ∀ node ∈ held, nextOf nodes' node = nextOf nodes node := fun node hnode =>
    congrArg PtNode.ptnext (hag node hnode)
  obtain ⟨done, rest, hheld, hrest, hmsgs⟩ := h.pending
  have hmem : ∀ node ∈ rest, node ∈ held := fun node hnode =>
    hheld ▸ List.mem_append_right done hnode
  refine { h with
    linked := h.linked.congr hnext
    pending := ⟨done, rest, hheld, ?_, ?_⟩ }
  · have hpending : port.pending nodes' = port.pending nodes := by
      have hclear := h.clear
      unfold PtEntry.ClearKept at hclear
      unfold PtEntry.pending
      split
      · rfl
      · rfl
      · next heq =>
        rw [heq] at hclear
        exact hnext _ hclear.2.2
      · rfl
      · rfl
    rw [hpending]
    exact hrest.congr fun node hnode => hnext node (hmem node hnode)
  · rw [hmsgs]
    exact List.map_congr_left fun node hnode =>
      (congrArg PtNode.ptmsg (hag node (hmem node hnode))).symm

/-- A grant at another port. -/
theorem congr_grant {grant' : Option (Fin nPorts × Bool)}
    (h : PortInv nodes portid port calls grant held msgs flight)
    (hgrant : ∀ sends, grant' = some (portid, sends) ↔ grant = some (portid, sends)) :
    PortInv nodes portid port calls grant' held msgs flight :=
  { h with
    opened := fun halloc sends => by
      rw [if_congr (hgrant sends) rfl rfl]
      exact h.opened halloc sends }

theorem clear_eq_none (h : PortInv nodes portid port calls grant held msgs flight)
    (halloc : port.ptstate ≠ .limbo) : port.clear = none := by
  have hclear := h.clear
  unfold PtEntry.ClearKept at hclear
  split at hclear
  · assumption
  · exact absurd hclear.1 halloc
  · exact absurd hclear.1 halloc
  · exact absurd hclear.1 halloc
  · exact absurd hclear.1 halloc

theorem queue_eq (h : PortInv nodes portid port calls grant held msgs flight)
    (halloc : port.ptstate = .alloc) : port.queue = port.pthead := by
  unfold PtEntry.queue
  rw [h.clear_eq_none (by rw [halloc]; decide)]
  exact if_pos halloc

/-- Of an allocated port all messages are pending. -/
theorem msgs_eq (h : PortInv nodes portid port calls grant held msgs flight)
    (halloc : port.ptstate = .alloc) :
    msgs = held.map fun node => (nodes node).ptmsg := by
  obtain ⟨done, rest, hheld, hrest, rfl⟩ := h.pending
  have hpending : port.pending nodes = port.queue := by
    unfold PtEntry.pending
    rw [h.clear_eq_none (by rw [halloc]; decide)]
  rw [hpending] at hrest
  rw [h.linked.unique hrest]

theorem tail_eq_getLast? (h : PortInv nodes portid port calls grant held msgs flight)
    (halloc : port.ptstate = .alloc) : port.pttail = held.getLast? := h.tail (h.queue_eq halloc)

theorem opened_of_sem {sends : Bool} {s : Semaphore PtCall}
    (h : PortInv nodes portid port calls grant held msgs flight)
    (halloc : port.ptstate = .alloc) (hsem : port.sem sends = some s) :
    s.permits + port.live calls sends + (if grant = some (portid, sends) then 1 else 0) =
      port.openTo held sends := by
  have hopen := h.opened halloc sends
  rw [hsem] at hopen
  exact hopen

/-- A port that is allocated, given what its lists hold. -/
theorem of_alloc {port' : PtEntry} {grant' : Option (Fin nPorts × Bool)} {held' : List Nat}
    (h : PortInv nodes portid port calls grant held msgs flight)
    (halloc : port.ptstate = .alloc)
    (hsame : port' = { port with pthead := port'.pthead, pttail := port'.pttail })
    (hlinked : Leads (nextOf nodes') port'.pthead held') (htail : port'.pttail = held'.getLast?)
    (hbounded : held'.length ≤ port.ptmaxcnt.toNat)
    (hopened : ∀ sends s, port.sem sends = some s →
      s.permits + port.live calls sends + (if grant' = some (portid, sends) then 1 else 0) =
        port.openTo held' sends) :
    PortInv nodes' portid port' calls grant' held' (held'.map fun node => (nodes' node).ptmsg)
      flight := by
  have hclear : port'.clear = none := by
    rw [hsame]
    exact h.clear_eq_none (by rw [halloc]; decide)
  have hstate : port'.ptstate = .alloc := by
    rw [hsame]
    exact halloc
  have hqueue : port'.queue = port'.pthead := by
    unfold PtEntry.queue
    rw [hclear]
    exact if_pos hstate
  have hsem : port'.sem = port.sem := by
    rw [hsame]
    funext sends
    cases sends <;> rfl
  refine ⟨hqueue ▸ hlinked, fun _ => htail, ?_, ⟨[], held', rfl, ?_, rfl⟩, ?_, ?_, ?_, ?_, ?_, ?_,
    ?_⟩
  · rw [hsame]
    exact hbounded
  · unfold PtEntry.pending
    rw [hclear]
    exact hqueue ▸ hlinked
  · unfold PtEntry.ClearKept
    rw [hclear, hstate]
    exact (nofun : PtState.alloc ≠ .limbo)
  · rw [hsame]
    exact h.seq
  · rw [hsame]
    exact h.call
  · rw [hsem, hsame]
    exact h.waiting
  · rw [hsame]
    exact h.flight
  · intro _ sends
    have hopen := h.opened halloc sends
    have hlive : port'.live calls = port.live calls := by
      rw [hsame]
      rfl
    have hto : port'.openTo held' = port.openTo held' := by
      rw [hsame]
      rfl
    rw [hsem, hlive, hto]
    cases hs : port.sem sends with
    | none =>
      rw [hs] at hopen
      exact hopen
    | some s => exact hopened sends s hs
  · intro hfree
    rw [hstate] at hfree
    cases hfree

/-- `ptsend` links its message in; there is one more to receive. -/
theorem link {s : Semaphore PtCall} {node : Nat} {msg : UInt32}
    (h : PortInv nodes portid port calls (some (portid, true)) held msgs flight)
    (halloc : port.ptstate = .alloc) (hsem : port.ptssem = some s) (hnode : node ∉ held)
    (hmsg : nodes' node = ⟨msg, none⟩)
    (htailnode : ∀ tailnode, port.pttail = some tailnode →
      nodes' tailnode = { nodes tailnode with ptnext := some node })
    (hag : ∀ x ∈ held, port.pttail ≠ some x → nodes' x = nodes x) :
    PortInv nodes' portid
      { port with
        pthead := if port.pttail = none then some node else port.pthead
        pttail := some node } calls (some (portid, false)) (held ++ [node]) (msgs ++ [msg])
      flight := by
  have hroom : s.permits + port.live calls true + 1 = port.ptmaxcnt.toNat - held.length := by
    have hopen := h.opened_of_sem halloc (show port.sem true = some s from hsem)
    rw [if_pos rfl] at hopen
    exact hopen
  have hlinked := h.queue_eq halloc ▸ h.linked
  have hkeep : ∀ x ∈ held, (nodes' x).ptmsg = (nodes x).ptmsg := by
    intro x hx
    by_cases hlast : port.pttail = some x
    · rw [htailnode x hlast]
    · rw [hag x hx hlast]
  have hmsgs : (held ++ [node]).map (fun x => (nodes' x).ptmsg) = msgs ++ [msg] := by
    rw [List.map_append, List.map_singleton, hmsg, h.msgs_eq halloc]
    exact congrArg (· ++ [msg]) (List.map_congr_left hkeep)
  have hlink : Leads (nextOf nodes') (if port.pttail = none then some node else port.pthead)
      (held ++ [node]) := by
    have hend : Leads (nextOf nodes') (some node) [node] := ⟨rfl, congrArg PtNode.ptnext hmsg⟩
    have htail := h.tail_eq_getLast? halloc
    rcases List.eq_nil_or_concat held with rfl | ⟨front, last, rfl⟩
    · rw [if_pos (show port.pttail = none from htail)]
      exact hend
    · rw [List.concat_eq_append] at *
      rw [List.getLast?_concat] at htail
      rw [if_neg (by rw [htail]; nofun), List.append_assoc]
      refine hlinked.append ?_ (congrArg PtNode.ptnext (htailnode last htail)) hend
      intro x hx
      have hne : x ≠ last := by
        rintro rfl
        exact List.disjoint_of_nodup_append hlinked.nodup hx List.mem_cons_self
      refine congrArg PtNode.ptnext (hag x (List.mem_append_left _ hx) ?_)
      rw [htail]
      exact fun heq => hne (Option.some.inj heq).symm
  rw [← hmsgs]
  refine h.of_alloc halloc rfl hlink List.getLast?_concat.symm ?_ fun sends t ht => ?_
  · rw [List.length_append, List.length_singleton]
    omega
  · have hopen := h.opened_of_sem halloc ht
    cases sends with
    | true =>
      obtain rfl := Option.some.inj (hsem.symm.trans ht)
      rw [if_neg (by nofun)]
      show _ = port.ptmaxcnt.toNat - (held ++ [node]).length
      rw [List.length_append, List.length_singleton]
      omega
    | false =>
      rw [if_neg (by nofun)] at hopen
      rw [if_pos rfl]
      show _ = (held ++ [node]).length
      rw [List.length_append]
      exact congrArg (· + 1) hopen

/-- `ptrecv` finds a message and unlinks it; there is room for one more. -/
theorem unlink {s : Semaphore PtCall}
    (h : PortInv nodes portid port calls (some (portid, false)) held msgs flight)
    (halloc : port.ptstate = .alloc) (hsem : port.ptrsem = some s) :
    ∃ node rest, held = node :: rest ∧ port.pthead = some node ∧
      (∀ nodes' : Nat → PtNode, (∀ x ∈ rest, nodes' x = nodes x) →
        PortInv nodes' portid
          { port with
            pthead := if port.pthead = port.pttail then none else (nodes node).ptnext
            pttail := if port.pthead = port.pttail then none else port.pttail }
          calls (some (portid, true)) rest (rest.map fun x => (nodes x).ptmsg) flight) ∧
      msgs = (nodes node).ptmsg :: rest.map fun x => (nodes x).ptmsg := by
  have hthere : s.permits + port.live calls false + 1 = held.length := by
    have hopen := h.opened_of_sem halloc (show port.sem false = some s from hsem)
    rw [if_pos rfl] at hopen
    exact hopen
  obtain ⟨node, rest, rfl⟩ : ∃ node rest, held = node :: rest :=
    List.exists_cons_of_length_pos (by omega)
  have hlinked := h.queue_eq halloc ▸ h.linked
  have htail := h.tail_eq_getLast? halloc
  refine ⟨node, rest, rfl, hlinked.1, fun nodes' hag => ?_, h.msgs_eq halloc⟩
  have hbounded := h.bounded
  have hkeep : rest.map (fun x => (nodes x).ptmsg) = rest.map fun x => (nodes' x).ptmsg :=
    List.map_congr_left fun x hx => (congrArg PtNode.ptmsg (hag x hx)).symm
  have hnd := hlinked.nodup
  have hlast : (port.pthead = port.pttail) ↔ rest = [] := by
    rw [hlinked.1, htail]
    cases rest with
    | nil => exact iff_of_true rfl rfl
    | cons x rest =>
      refine iff_of_false (fun heq => ?_) (List.cons_ne_nil x rest)
      rw [List.getLast?_cons_cons] at heq
      exact (List.nodup_cons.mp hnd).1 (List.mem_of_getLast? heq.symm)
  rw [hkeep]
  refine h.of_alloc halloc rfl ?_ ?_ ?_ fun sends t ht => ?_
  · dsimp only
    split
    · next heq =>
      rw [hlast.mp heq]
      rfl
    · exact hlinked.2.congr fun x hx => congrArg PtNode.ptnext (hag x hx)
  · dsimp only
    split
    · next heq =>
      rw [hlast.mp heq]
      rfl
    · next heq =>
      obtain ⟨x, rest', rfl⟩ := List.exists_cons_of_ne_nil (mt hlast.mpr heq)
      rw [htail, List.getLast?_cons_cons]
  · rw [List.length_cons] at hbounded
    omega
  · have hopen := h.opened_of_sem halloc ht
    rw [List.length_cons] at hbounded
    cases sends with
    | true =>
      rw [if_neg (by nofun)] at hopen
      rw [if_pos rfl]
      have hopen : t.permits + port.live calls true + 0 =
        port.ptmaxcnt.toNat - (rest.length + 1) := hopen
      show t.permits + port.live calls true + 1 = port.ptmaxcnt.toNat - rest.length
      omega
    | false =>
      rw [if_pos rfl] at hopen
      rw [if_neg (by nofun)]
      exact Nat.succ.inj hopen

/-- An allocated port with another state of the semaphore for a kind of callers. -/
theorem of_sem {sends : Bool} {sem : Option (Semaphore PtCall)} {calls' flight' : List PtCall}
    {grant' : Option (Fin nPorts × Bool)}
    (h : PortInv nodes portid port calls grant held msgs flight) (halloc : port.ptstate = .alloc)
    (hwaiting : ∀ c ∈ waitingAt sem, c.msg.isSome = sends ∧ c.generation = port.generation)
    (hcall : ∀ c ∈ flight', c ∈ flight ∨ c.portid = portid ∧
      c.seq = UInt32.ofNat c.generation ∧ c.generation = port.generation)
    (hflight : (calls' ++ (port.setSem sem sends).waiting).Perm flight')
    (hopened : SemOpen sem (port.live calls' sends)
      (if grant' = some (portid, sends) then 1 else 0) (port.openTo held sends))
    (hlive : port.live calls' (!sends) = port.live calls (!sends))
    (hgrant : grant ≠ some (portid, !sends)) (hgrant' : grant' ≠ some (portid, !sends)) :
    PortInv nodes portid (port.setSem sem sends) calls' grant' held msgs flight' := by
  have hrest : ∀ sends', (port.setSem sem sends).sem sends' =
      if sends' = sends then sem else port.sem sends' := by
    intro sends'
    cases sends <;> cases sends' <;> rfl
  refine ⟨?_, ?_, ?_, ?_, ?_, ?_, fun c hc => ?_, fun sends' s hs c hc => ?_, hflight,
    fun _ sends' => ?_, ?_⟩
  · cases sends <;> exact h.linked
  · cases sends <;> exact h.tail
  · cases sends <;> exact h.bounded
  · cases sends <;> exact h.pending
  · have hclear : (port.setSem sem sends).clear = none := by
      cases sends <;> exact h.clear_eq_none (by rw [halloc]; nofun)
    unfold PtEntry.ClearKept
    rw [hclear]
    cases sends <;> exact halloc ▸ (nofun : PtState.alloc ≠ .limbo)
  · cases sends <;> exact h.seq
  · have hstate : (port.setSem sem sends).ptstate = .alloc := by cases sends <;> exact halloc
    have hgen : (port.setSem sem sends).generation = port.generation := by cases sends <;> rfl
    rw [hstate, hgen]
    rcases hcall c hc with hold | ⟨hport, hseq, hsame⟩
    · obtain ⟨hport, hseq, hle, -⟩ := h.call c hold
      exact ⟨hport, hseq, hle, fun hne => absurd rfl hne⟩
    · exact ⟨hport, hseq, Nat.le_of_eq hsame, fun hne => absurd rfl hne⟩
  · have hgen : (port.setSem sem sends).generation = port.generation := by cases sends <;> rfl
    rw [hgen]
    rw [hrest] at hs
    split at hs
    · next heq =>
      subst hs
      obtain ⟨hkind, hsame⟩ := hwaiting c hc
      exact ⟨hkind.trans heq.symm, fun _ => hsame⟩
    · obtain ⟨hkind, hsame⟩ := h.waiting sends' s hs c hc
      exact ⟨hkind, fun _ => hsame halloc⟩
  · have hl : (port.setSem sem sends).live calls' = port.live calls' := by cases sends <;> rfl
    have ho : (port.setSem sem sends).openTo held = port.openTo held := by cases sends <;> rfl
    rw [hrest, hl, ho]
    by_cases heq : sends' = sends
    · subst heq
      rw [if_pos rfl]
      exact hopened
    · obtain rfl : sends' = !sends := by cases sends <;> cases sends' <;> trivial
      have hopen := h.opened halloc (!sends)
      rw [if_neg hgrant] at hopen
      rw [if_neg heq, hlive, if_neg hgrant']
      exact hopen
  · intro hfree
    have hstate : (port.setSem sem sends).ptstate = .alloc := by cases sends <;> exact halloc
    rw [hstate] at hfree
    cases hfree

theorem waiting_perm (port : PtEntry) (sends : Bool) :
    port.waiting.Perm (waitingAt (port.sem sends) ++ waitingAt (port.sem !sends)) := by
  cases sends with
  | true => exact .refl _
  | false => exact List.perm_append_comm

theorem waiting_setSem_perm (port : PtEntry) (sem : Option (Semaphore PtCall)) (sends : Bool) :
    (port.setSem sem sends).waiting.Perm (waitingAt sem ++ waitingAt (port.sem !sends)) := by
  cases sends with
  | true => exact .refl _
  | false => exact List.perm_append_comm

theorem signal_append (sem : Option (Semaphore PtCall)) :
    (signalSem sem).2 ++ waitingAt (signalSem sem).1 = waitingAt sem := by
  cases sem with
  | none => rfl
  | some s => exact s.signal_append_waiting

theorem waitingAt_kind {sends : Bool} {c : PtCall}
    (h : PortInv nodes portid port calls grant held msgs flight) (halloc : port.ptstate = .alloc)
    (hc : c ∈ waitingAt (port.sem sends)) :
    c.msg.isSome = sends ∧ c.generation = port.generation := by
  cases hs : port.sem sends with
  | none =>
    rw [hs] at hc
    cases hc
  | some s =>
    rw [hs] at hc
    obtain ⟨hkind, hsame⟩ := h.waiting sends s hs c hc
    exact ⟨hkind, hsame halloc⟩

/-- Who is made ready by a signal takes over the grant. -/
theorem signalled {sends : Bool}
    (h : PortInv nodes portid port calls (some (portid, sends)) held msgs flight)
    (halloc : port.ptstate = .alloc) :
    PortInv nodes portid (port.setSem (signalSem (port.sem sends)).1 sends)
      (calls ++ (signalSem (port.sem sends)).2) none held msgs flight := by
  have hsplit := signal_append (port.sem sends)
  have hreleased : ∀ c ∈ (signalSem (port.sem sends)).2,
      c.msg.isSome = sends ∧ c.generation = port.generation := fun c hc =>
    h.waitingAt_kind halloc (hsplit ▸ List.mem_append_left _ hc)
  refine h.of_sem halloc (fun c hc => ?_) (fun c hc => .inl hc) ?_ ?_ ?_ ?_ nofun
  · exact h.waitingAt_kind halloc (hsplit ▸ List.mem_append_right _ hc)
  · refine (List.Perm.append_left _ (waiting_setSem_perm port _ sends)).trans ?_
    rw [List.append_assoc, ← List.append_assoc (signalSem _).2, hsplit]
    exact (List.Perm.append_left _ (waiting_perm port sends).symm).trans h.flight
  · have hopen := h.opened halloc sends
    have hlive : port.live (calls ++ (signalSem (port.sem sends)).2) sends =
        port.live calls sends + (signalSem (port.sem sends)).2.length := by
      have hall : port.live (signalSem (port.sem sends)).2 sends =
          (signalSem (port.sem sends)).2.length :=
        List.countP_eq_length.mpr fun c hc =>
          decide_eq_true ⟨(hreleased c hc).2, (hreleased c hc).1⟩
      rw [← hall]
      exact List.countP_append
    rw [if_pos rfl] at hopen
    rw [hlive]
    cases hs : port.sem sends with
    | none =>
      rw [hs] at hopen
      exact hopen
    | some s =>
      rw [hs] at hopen
      have hopen : s.permits + port.live calls sends + 1 = port.openTo held sends := hopen
      have hpermits := s.permits_signal
      show s.signal.1.permits + (port.live calls sends + s.signal.2.length) + 0 = _
      omega
  · have hnone : port.live (signalSem (port.sem sends)).2 (!sends) = 0 := by
      refine List.countP_eq_zero.mpr fun c hc hlive => ?_
      have hkind := (of_decide_eq_true hlive).2
      rw [(hreleased c hc).1] at hkind
      cases sends <;> cases hkind
    exact List.countP_append.trans (congrArg (port.live calls (!sends) + ·) hnone)
  · intro heq
    have := (Prod.mk.inj (Option.some.inj heq)).2
    cases sends <;> cases this

variable {c : PtCall} {s : Semaphore PtCall}

/-- `wait` that need not block. -/
theorem wait_through (h : PortInv nodes portid port calls none held msgs flight)
    (halloc : port.ptstate = .alloc) {sends : Bool} (hsem : port.sem sends = some s)
    (hpos : 0 < s.count) :
    PortInv nodes portid (port.setSem (some (s.wait c)) sends) calls (some (portid, sends)) held
      msgs flight := by
  have hwaiting : (s.wait c).waiting = s.waiting := Semaphore.waiting_wait_of_pos hpos
  have hold : waitingAt (port.sem sends) = s.waiting := by rw [hsem]; rfl
  refine h.of_sem halloc (fun x hx => ?_) (fun x hx => .inl hx) ?_ ?_ rfl nofun ?_
  · exact h.waitingAt_kind halloc (by rw [hold, ← hwaiting]; exact hx)
  · refine (List.Perm.append_left _ (waiting_setSem_perm port _ sends)).trans ?_
    have hsame : waitingAt (some (s.wait c)) = waitingAt (port.sem sends) := by
      rw [hold]
      exact hwaiting
    rw [hsame]
    exact (List.Perm.append_left _ (waiting_perm port sends).symm).trans h.flight
  · have hopen := h.opened_of_sem halloc hsem
    have hpermits := Semaphore.permits_wait_of_pos (p := c) hpos
    rw [if_neg (by nofun)] at hopen
    rw [if_pos rfl]
    show (s.wait c).permits + port.live calls sends + 1 = _
    omega
  · intro heq
    have := (Prod.mk.inj (Option.some.inj heq)).2
    cases sends <;> cases this

theorem wait_block (h : PortInv nodes portid port calls none held msgs flight)
    (halloc : port.ptstate = .alloc) (hport : c.portid = portid) (hseq : c.seq = port.ptseq)
    (hgen : c.generation = port.generation) (hsem : port.sem c.msg.isSome = some s)
    (hpos : ¬ 0 < s.count) :
    PortInv nodes portid (port.setSem (some (s.wait c)) c.msg.isSome) calls none held msgs
      (flight ++ [c]) := by
  have hwaiting : waitingAt (some (s.wait c)) = waitingAt (port.sem c.msg.isSome) ++ [c] := by
    rw [hsem]
    exact Semaphore.waiting_wait_of_not_pos hpos
  refine h.of_sem halloc (fun x hx => ?_) (fun x hx => ?_) ?_ ?_ rfl nofun nofun
  · rw [hwaiting] at hx
    rcases List.mem_append.mp hx with hx | hx
    · exact h.waitingAt_kind halloc hx
    · obtain rfl := List.mem_singleton.mp hx
      exact ⟨rfl, hgen⟩
  · rcases List.mem_append.mp hx with hx | hx
    · exact .inl hx
    · obtain rfl := List.mem_singleton.mp hx
      exact .inr ⟨hport, by rw [hseq, hgen, h.seq], hgen⟩
  · refine (List.Perm.append_left _ (waiting_setSem_perm port _ c.msg.isSome)).trans ?_
    rw [hwaiting, List.append_assoc]
    have hold := (List.Perm.append_left calls (waiting_perm port c.msg.isSome).symm).trans h.flight
    refine .trans ?_ (hold.append_right [c])
    rw [List.append_assoc, List.append_assoc]
    exact .append_left _ (.append_left _ List.perm_append_comm)
  · have hopen := h.opened_of_sem halloc hsem
    have hpermits := Semaphore.permits_wait_of_not_pos (p := c) hpos
    rw [if_neg (by nofun)] at hopen ⊢
    show (s.wait c).permits + port.live calls c.msg.isSome + 0 = _
    omega

/-- A ready caller that comes back uses its grant, if it is still right. -/
theorem come_back (h : PortInv nodes portid port calls none held msgs flight) (hc : c ∈ calls)
    (hgrant : grant = if c.generation = port.generation then some (portid, c.msg.isSome)
      else none) :
    PortInv nodes portid port (calls.erase c) grant held msgs (flight.erase c) := by
  have hperm := List.perm_cons_erase hc
  refine { h with
    call := fun x hx => h.call x (List.mem_of_mem_erase hx)
    flight := ?_
    opened := fun halloc sends => ?_ }
  · rw [← List.erase_append_left _ hc]
    exact h.flight.erase c
  · have hopen := h.opened halloc sends
    rw [if_neg (by nofun)] at hopen
    have hlive : port.live calls sends = port.live (calls.erase c) sends +
        (if grant = some (portid, sends) then 1 else 0) := by
      unfold PtEntry.live
      rw [hperm.countP_eq, List.countP_cons]
      congr 1
      rw [hgrant]
      by_cases hgen : c.generation = port.generation
      · simp [hgen]
      · simp [hgen]
    cases hs : port.sem sends with
    | none =>
      rw [hs] at hopen
      have hopen : port.live calls sends = 0 := hopen
      show port.live (calls.erase c) sends = 0
      omega
    | some s =>
      rw [hs] at hopen
      have hopen : s.permits + port.live calls sends + 0 = port.openTo held sends := hopen
      show s.permits + port.live (calls.erase c) sends + _ = port.openTo held sends
      omega

end PortInv

end NatBox
