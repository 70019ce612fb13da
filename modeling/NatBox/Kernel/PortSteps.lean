import NatBox.Kernel.PortClear

/-
The steps of the calls on all ports.

`PortsInv` shares the nodes out among the free list and the ports.  Every step of a call keeps
it, moves at most one message in or out of one port, and is refused for a caller whose port has
been cleared since it came.
-/

namespace NatBox

open Chain Function Runs

/-! ## All ports -/

/-- `free` are the nodes of the free list; the others are as in `PortInv`, by port. -/
structure PortsInv (maxmsgs : Nat) (a : Ports) (grant : Option (Fin nPorts × Bool))
    (free : List Nat) (held : Fin nPorts → List Nat) (msgs : Fin nPorts → List UInt32)
    (flight : Fin nPorts → List PtCall) : Prop where
  freeList : Leads (nextOf a.nodes) a.ptfree free
  parts : Partition (nodeLists free held) (· < maxmsgs)
  port : ∀ p, PortInv a.nodes p (a.porttab p) (a.ready.filter (·.portid = p)) grant (held p)
    (msgs p) (flight p)

section Released

variable {ready released : List PtCall} {p : Fin nPorts}

theorem filter_released (h : ∀ c ∈ released, c.portid = p) :
    (ready ++ released).filter (·.portid = p) = ready.filter (·.portid = p) ++ released := by
  rw [List.filter_append, List.filter_eq_self.mpr fun c hc => decide_eq_true (h c hc)]

theorem filter_released_of_ne (h : ∀ c ∈ released, c.portid = p) {q : Fin nPorts} (hq : q ≠ p) :
    (ready ++ released).filter (·.portid = q) = ready.filter (·.portid = q) := by
  have hnone : released.filter (·.portid = q) = [] :=
    List.filter_eq_nil_iff.mpr fun c hc heq => hq ((of_decide_eq_true heq).symm.trans (h c hc))
  rw [List.filter_append, hnone, List.append_nil]

end Released

namespace PortsInv

variable {maxmsgs : Nat} {a a' : Ports} {grant grant' : Option (Fin nPorts × Bool)}
  {free free' : List Nat} {held : Fin nPorts → List Nat} {msgs : Fin nPorts → List UInt32}
  {flight : Fin nPorts → List PtCall} {p : Fin nPorts}

/-- A step that is about one port. -/
theorem set {l : List Nat} {m : List UInt32} {f : List PtCall}
    (h : PortsInv maxmsgs a grant free held msgs flight)
    (hport : ∀ q, q ≠ p → a'.porttab q = a.porttab q)
    (hready : ∀ q, q ≠ p → a'.ready.filter (·.portid = q) = a.ready.filter (·.portid = q))
    (hnodes : ∀ q, q ≠ p → ∀ node ∈ held q, a'.nodes node = a.nodes node)
    (hgrant : ∀ q, q ≠ p → ∀ sends, grant' = some (q, sends) ↔ grant = some (q, sends))
    (hfree : Leads (nextOf a'.nodes) a'.ptfree free')
    (hparts : Partition (nodeLists free' (update held p l)) (· < maxmsgs))
    (hp : PortInv a'.nodes p (a'.porttab p) (a'.ready.filter (·.portid = p)) grant' l m f) :
    PortsInv maxmsgs a' grant' free' (update held p l) (update msgs p m) (update flight p f) := by
  refine ⟨hfree, hparts, fun q => ?_⟩
  by_cases hq : q = p
  · subst hq
    rw [update_self, update_self, update_self]
    exact hp
  · rw [update_of_ne hq, update_of_ne hq, update_of_ne hq, hport q hq, hready q hq]
    exact ((h.port q).congr (hnodes q hq)).congr_grant (hgrant q hq)

/-- A step that changes the entry of a port only. -/
theorem set_entry {port : PtEntry} {m : List UInt32} {f : List PtCall}
    (h : PortsInv maxmsgs a grant free held msgs flight)
    (hgrant : ∀ q, q ≠ p → ∀ sends, grant' = some (q, sends) ↔ grant = some (q, sends))
    (hp : PortInv a.nodes p port (a.ready.filter (·.portid = p)) grant' (held p) m f) :
    PortsInv maxmsgs (a.setPort p port) grant' free held (update msgs p m) (update flight p f) := by
  rw [← update_eq_self p held]
  refine h.set (fun q hq => Ports.setPort_of_ne hq a port) (fun _ _ => rfl) (fun _ _ _ _ => rfl)
    hgrant h.freeList ?_ ?_
  · rw [update_eq_self]
    exact h.parts
  · rw [Ports.setPort_self]
    exact hp

/-- What a step does to the messages: those that were pending, and the one that it accepts, are
the one that it removes and those that are pending after it. -/
def Moves (o : PtResult) (msgs msgs' : Fin nPorts → List UInt32) : Prop :=
  ∀ q, msgs q ++ (o.accepts q).toList = (o.removes q).toList ++ msgs' q

end PortsInv

/-! ## Messages in and out -/

theorem linkNode_of_ne {nodes : Nat → PtNode} {msgnode x : Nat} {msg : UInt32}
    {pttail : Option Nat} (hx : x ≠ msgnode) (htail : pttail ≠ some x) :
    linkNode nodes msgnode msg pttail x = nodes x := by
  cases pttail with
  | none => exact update_of_ne hx _ _
  | some tailnode =>
    have hne : x ≠ tailnode := fun heq => htail (heq ▸ rfl)
    exact (update_of_ne hne _ _).trans (update_of_ne hx _ _)

theorem linkNode_self {nodes : Nat → PtNode} {msgnode : Nat} {msg : UInt32}
    {pttail : Option Nat} (htail : pttail ≠ some msgnode) :
    linkNode nodes msgnode msg pttail msgnode = ⟨msg, none⟩ := by
  cases pttail with
  | none => exact update_self _ _ _
  | some tailnode =>
    have hne : msgnode ≠ tailnode := fun heq => htail (heq ▸ rfl)
    exact (update_of_ne hne _ _).trans (update_self _ _ _)

theorem linkNode_tail {nodes : Nat → PtNode} {msgnode tailnode : Nat} {msg : UInt32}
    (hne : tailnode ≠ msgnode) :
    linkNode nodes msgnode msg (some tailnode) tailnode =
      { nodes tailnode with ptnext := some msgnode } := by
  refine (update_self _ _ _).trans ?_
  rw [update_of_ne hne]

namespace PortsInv

variable {maxmsgs : Nat} {a a' : Ports} {free : List Nat} {held : Fin nPorts → List Nat}
  {msgs : Fin nPorts → List UInt32} {flight : Fin nPorts → List PtCall} {call : PtCall}
  {o : PtResult} {s : Semaphore PtCall}

/-- The callers that a signal makes ready are callers of the port. -/
theorem signal_portid {nodes : Nat → PtNode} {p : Fin nPorts} {port : PtEntry}
    {calls f : List PtCall} {grant : Option (Fin nPorts × Bool)} {l : List Nat} {m : List UInt32}
    {sends : Bool} (h : PortInv nodes p port calls grant l m f) :
    ∀ c ∈ (signalSem (port.sem sends)).2, c.portid = p := by
  intro c hc
  refine (h.call c (h.flight.mem_iff.mp (List.mem_append_right _ ?_))).1
  refine (PortInv.waiting_perm port sends).mem_iff.mpr (List.mem_append_left _ ?_)
  rw [← PortInv.signal_append]
  exact List.mem_append_left _ hc

theorem grant_elsewhere {p q : Fin nPorts} {sends : Bool} (hq : q ≠ p) (k : Bool) :
    (none : Option (Fin nPorts × Bool)) = some (q, k) ↔ some (p, sends) = some (q, k) :=
  iff_of_false nofun fun heq => hq (Prod.mk.inj (Option.some.inj heq)).1.symm

/-- Nodes go over between the free list and a port. -/
theorem partition_update {free' l : List Nat} {p : Fin nPorts} {moved : List Nat}
    (h : Partition (nodeLists free held) (· < maxmsgs))
    (hmoved : free.Perm (moved ++ free') ∧ l.Perm (moved ++ held p) ∨
      (held p).Perm (moved ++ l) ∧ free'.Perm (moved ++ free)) :
    Partition (nodeLists free' (update held p l)) (· < maxmsgs) := by
  have hself : nodeLists free' (update held p l) (some p) = l := by
    show update held p l p = l
    exact update_self p l held
  have hother : ∀ k, k ≠ none → k ≠ some p →
      nodeLists free' (update held p l) k = nodeLists free held k := by
    intro k hnone hp
    cases k with
    | none => exact absurd rfl hnone
    | some q =>
      have hq : q ≠ p := fun heq => hp (congrArg some heq)
      show update held p l q = held q
      exact update_of_ne hq l held
  rcases hmoved with ⟨hfrom, hto⟩ | ⟨hfrom, hto⟩
  · refine h.move (i := none) (j := some p) nofun hfrom ?_ hother
    rw [hself]
    exact hto
  · refine h.move (i := some p) (j := none) nofun ?_ hto fun k hk hk' => hother k hk' hk
    rw [hself]
    exact hfrom

theorem moves_removed {p : Fin nPorts} {msg : UInt32} {m : List UInt32}
    (ho : o = .received p msg ∨ o = .disposed p msg) (hmsgs : msgs p = msg :: m) :
    Moves o msgs (update msgs p m) := by
  have haccepts : ∀ q, o.accepts q = none := by
    intro q
    rcases ho with rfl | rfl <;> rfl
  have hremoves : ∀ q, o.removes q = if p = q then some msg else none := by
    intro q
    rcases ho with rfl | rfl <;> rfl
  intro q
  rw [haccepts, hremoves, Option.toList_none, List.append_nil]
  by_cases hq : p = q
  · subst hq
    rw [update_self, if_pos rfl, hmsgs]
    rfl
  · rw [update_of_ne (Ne.symm hq), if_neg hq]
    rfl

/-- Where no message comes or goes. -/
theorem moves_none (haccepts : ∀ q, o.accepts q = none) (hremoves : ∀ q, o.removes q = none) :
    Moves o msgs msgs := by
  intro q
  rw [haccepts, hremoves, Option.toList_none, List.append_nil, List.nil_append]

theorem moves_accepted {p : Fin nPorts} {msg : UInt32} :
    Moves (.accepted p msg) msgs (update msgs p (msgs p ++ [msg])) := by
  intro q
  by_cases hq : p = q
  · subst hq
    rw [update_self]
    simp only [PtResult.accepts, PtResult.removes, if_true, Option.toList_some, Option.toList_none,
      List.nil_append]
  · rw [update_of_ne (Ne.symm hq)]
    simp only [PtResult.accepts, PtResult.removes, if_neg hq, Option.toList_none, List.nil_append,
      List.append_nil]

/-- The port that a message was linked into or unlinked from signals. -/
theorem install {nodes : Nat → PtNode} {ptfree : Option Nat} {port : PtEntry} {sends : Bool}
    {p : Fin nPorts} {free' l : List Nat} {m : List UInt32}
    (h : PortsInv maxmsgs a (some (p, !sends)) free held msgs flight)
    (hp : PortInv nodes p port (a.ready.filter (·.portid = p)) (some (p, sends)) l m (flight p))
    (halloc : port.ptstate = .alloc)
    (hnodes : ∀ q, q ≠ p → ∀ x ∈ held q, nodes x = a.nodes x)
    (hfree : Leads (nextOf nodes) ptfree free')
    (hparts : Partition (nodeLists free' (update held p l)) (· < maxmsgs)) :
    PortsInv maxmsgs
      { a.setPort p (port.setSem (signalSem (port.sem sends)).1 sends) with
        nodes := nodes
        ptfree := ptfree
        ready := a.ready ++ (signalSem (port.sem sends)).2 } none free' (update held p l)
      (update msgs p m) flight := by
  have hsignal := hp.signalled halloc
  have hreleased := @signal_portid _ _ _ _ _ _ _ _ sends hp
  rw [← update_eq_self p flight]
  refine h.set (fun q hq => Ports.setPort_of_ne hq a _)
    (fun q hq => filter_released_of_ne hreleased hq) hnodes (fun q hq => grant_elsewhere hq) hfree
    hparts ?_
  show PortInv nodes p ((a.setPort p _).porttab p) ((a.ready ++ _).filter _) _ _ _ _
  rw [filter_released hreleased, Ports.setPort_self]
  exact hsignal

theorem send {msg : UInt32}
    (h : PortsInv maxmsgs a (some (call.portid, true)) free held msgs flight)
    (halloc : (a.porttab call.portid).ptstate = .alloc)
    (hseq : (a.porttab call.portid).ptseq = call.seq)
    (hsem : (a.porttab call.portid).ptssem = some s)
    (hrun : ptsendResume a call msg = .ok (o, a')) :
    o = .accepted call.portid msg ∧ ∃ free' held' msgs',
      PortsInv maxmsgs a' none free' held' msgs' flight ∧ Moves o msgs msgs' := by
  have hright : ¬ ((a.porttab call.portid).ptstate ≠ .alloc ∨
      (a.porttab call.portid).ptseq ≠ call.seq) := not_or.mpr ⟨not_not.mpr halloc, not_not.mpr hseq⟩
  unfold ptsendResume at hrun
  rw [if_neg hright] at hrun
  have hlist := h.freeList
  cases hfree : a.ptfree with
  | none =>
    rw [hfree] at hrun
    cases hrun
  | some msgnode =>
    rw [hfree] at hrun hlist
    obtain ⟨rfl, rfl⟩ := Prod.mk.inj (Except.ok.inj hrun)
    obtain ⟨free', rfl, hfree'⟩ := hlist.eq_cons
    have hnotfree : msgnode ∉ free' := (List.nodup_cons.mp hlist.nodup).1
    have hapart : ∀ q, ∀ x ∈ held q, x ∉ msgnode :: free' := by
      intro q x hx hx'
      exact absurd (@Chain.Partition.disjoint _ _ _ _ h.parts none (some q) x hx' hx) nofun
    have hnotheld : ∀ q, msgnode ∉ held q := fun q hmem =>
      hapart q msgnode hmem List.mem_cons_self
    have hp := h.port call.portid
    have htail := hp.tail_eq_getLast? halloc
    have htailmem : ∀ x, (a.porttab call.portid).pttail = some x → x ∈ held call.portid := by
      intro x hx
      rw [htail] at hx
      exact List.mem_of_getLast? hx
    have hlink := hp.link halloc hsem (hnotheld _)
      (@linkNode_self _ _ msg _ fun heq => hnotheld _ (htailmem _ heq))
      (fun tailnode heq => by
        rw [heq]
        exact linkNode_tail fun hsame => hnotheld _ (hsame ▸ htailmem _ heq))
      (fun x hx hne => linkNode_of_ne (fun hsame => hnotheld _ (hsame ▸ hx)) hne)
    have hkept : ∀ x, x ≠ msgnode → x ∉ held call.portid →
        linkNode a.nodes msgnode msg (a.porttab call.portid).pttail x = a.nodes x :=
      fun x hx hmem => linkNode_of_ne hx fun heq => hmem (htailmem x heq)
    refine ⟨rfl, free', update held call.portid (held call.portid ++ [msgnode]),
      update msgs call.portid (msgs call.portid ++ [msg]), ?_, moves_accepted⟩
    refine h.install hlink halloc (fun q hq x hx => hkept x ?_ ?_) (hfree'.congr fun x hx => ?_)
      (partition_update h.parts (.inl ⟨.refl _, List.perm_append_comm⟩))
    · exact fun hsame => hnotheld q (hsame ▸ hx)
    · intro hmem
      exact hq (Option.some.inj
        (@Chain.Partition.disjoint _ _ _ _ h.parts (some q) (some _) x hx hmem))
    · have hne : x ≠ msgnode := fun hsame => hnotfree (hsame ▸ hx)
      exact congrArg PtNode.ptnext
        (hkept x hne fun hmem => hapart _ x hmem (List.mem_cons_of_mem _ hx))

theorem recv (h : PortsInv maxmsgs a (some (call.portid, false)) free held msgs flight)
    (halloc : (a.porttab call.portid).ptstate = .alloc)
    (hseq : (a.porttab call.portid).ptseq = call.seq)
    (hsem : (a.porttab call.portid).ptrsem = some s) :
    ∃ o a', ptrecvResume a call = .ok (o, a') ∧ (∃ msg, o = .received call.portid msg) ∧
      ∃ free' held' msgs',
        PortsInv maxmsgs a' none free' held' msgs' flight ∧ Moves o msgs msgs' := by
  have hright : ¬ ((a.porttab call.portid).ptstate ≠ .alloc ∨
      (a.porttab call.portid).ptseq ≠ call.seq) := not_or.mpr ⟨not_not.mpr halloc, not_not.mpr hseq⟩
  have hp := h.port call.portid
  obtain ⟨msgnode, rest, hheld, hhead, hunlink, hmsgs⟩ := hp.unlink halloc hsem
  have hnd := hp.linked.nodup
  rw [hheld] at hnd
  have hnotrest : msgnode ∉ rest := (List.nodup_cons.mp hnd).1
  have hmem : msgnode ∈ held call.portid := hheld ▸ List.mem_cons_self
  have hnotfree : msgnode ∉ free := by
    intro hx
    exact absurd (@Chain.Partition.disjoint _ _ _ _ h.parts none (some _) msgnode hx hmem) nofun
  have hkept : ∀ x, x ≠ msgnode → setNext a.nodes msgnode a.ptfree x = a.nodes x :=
    fun x hx => update_of_ne hx _ _
  unfold ptrecvResume
  rw [if_neg hright, hhead]
  refine ⟨_, _, rfl, ⟨_, rfl⟩, msgnode :: free, update held call.portid rest,
    update msgs call.portid (rest.map fun x => (a.nodes x).ptmsg), ?_,
    moves_removed (.inl rfl) hmsgs⟩
  have hport := hunlink (setNext a.nodes msgnode a.ptfree) fun x hx =>
    hkept x fun hsame => hnotrest (hsame ▸ hx)
  rw [hhead] at hport
  have hperm : (held call.portid).Perm ([msgnode] ++ rest) := by
    rw [hheld]
    exact .refl _
  refine h.install hport halloc (fun q hq x hx => hkept x ?_) ⟨rfl, ?_⟩
    (partition_update h.parts (.inr ⟨hperm, .refl _⟩))
  · rintro rfl
    exact hq (Option.some.inj
      (@Chain.Partition.disjoint _ _ _ _ h.parts (some q) (some _) x hx hmem))
  · have hnext : nextOf (setNext a.nodes msgnode a.ptfree) msgnode = a.ptfree := by
      unfold nextOf setNext
      rw [update_self]
    rw [hnext]
    exact h.freeList.congr fun x hx =>
      congrArg PtNode.ptnext (hkept x fun hsame => hnotfree (hsame ▸ hx))

/-- A caller that has been let through. -/
structure LetThrough (maxmsgs : Nat) (a : Ports) (call : PtCall) (free : List Nat)
    (held : Fin nPorts → List Nat) (msgs : Fin nPorts → List UInt32)
    (flight : Fin nPorts → List PtCall) : Prop where
  inv : PortsInv maxmsgs a (some (call.portid, call.msg.isSome)) free held msgs flight
  alloc : (a.porttab call.portid).ptstate = .alloc
  seq : (a.porttab call.portid).ptseq = call.seq
  sem : ∃ s, (a.porttab call.portid).sem call.msg.isSome = some s

/-- It gets what it was let through for. -/
theorem LetThrough.kept (h : LetThrough maxmsgs a call free held msgs flight)
    (hrun : ptcallResume a call = .ok (o, a')) :
    (∀ q, o.blocks q = none) ∧ o ≠ .other ∧ ∃ free' held' msgs',
      PortsInv maxmsgs a' none free' held' msgs' flight ∧ Moves o msgs msgs' := by
  obtain ⟨hinv, halloc, hseq, s, hsem⟩ := h
  unfold ptcallResume at hrun
  cases hmsg : call.msg with
  | some msg =>
    rw [hmsg] at hrun hsem hinv
    obtain ⟨rfl, hkept⟩ := hinv.send halloc hseq hsem hrun
    exact ⟨fun _ => rfl, nofun, hkept⟩
  | none =>
    rw [hmsg] at hrun hsem hinv
    obtain ⟨o', b, hrun', ⟨msg, rfl⟩, hkept⟩ := hinv.recv halloc hseq hsem
    obtain ⟨rfl, rfl⟩ := Prod.mk.inj (Except.ok.inj (hrun'.symm.trans hrun))
    exact ⟨fun _ => rfl, nofun, hkept⟩

/-- Only a sender without a node does not get it. -/
theorem LetThrough.fault {f : Fault} (h : LetThrough maxmsgs a call free held msgs flight)
    (hrun : ptcallResume a call = .error f) : f = .panic := by
  obtain ⟨hinv, halloc, hseq, s, hsem⟩ := h
  unfold ptcallResume at hrun
  cases hmsg : call.msg with
  | some msg =>
    simp only [hmsg, ptsendResume] at hrun
    split at hrun
    · cases hrun
    · split at hrun
      · exact (Except.error.inj hrun).symm
      · cases hrun
  | none =>
    rw [hmsg] at hrun hsem hinv
    obtain ⟨_, _, hok, -⟩ := hinv.recv halloc hseq hsem
    exact absurd (hok.symm.trans hrun) nofun

/-- A caller that finds the port changed gets `SYSERR`. -/
theorem refused (hwrong : (a.porttab call.portid).ptstate ≠ .alloc ∨
    (a.porttab call.portid).ptseq ≠ call.seq) : ptcallResume a call = .ok (.syserr, a) := by
  unfold ptcallResume ptsendResume ptrecvResume
  cases call.msg with
  | some msg => exact if_pos hwrong
  | none => exact if_pos hwrong

/-- What a step keeps. -/
def Kept (maxmsgs : Nat) (msgs : Fin nPorts → List UInt32) (flight : Fin nPorts → List PtCall)
    (e : PtEvent) (o : PtResult) (a' : Ports) : Prop :=
  ∃ free held msgs' flight', PortsInv maxmsgs a' none free held msgs' flight' ∧
    Moves o msgs msgs' ∧
    ∀ q, (flight q ++ (o.blocks q).toList).Perm ((e.resumes q o).toList ++ flight' q)

/-- A step that only changes a port. -/
theorem kept_of_same {e : PtEvent} (h : PortsInv maxmsgs a none free held msgs flight)
    (haccepts : ∀ q, o.accepts q = none) (hremoves : ∀ q, o.removes q = none)
    (hblocks : ∀ q, o.blocks q = none) (hresumes : ∀ q, e.resumes q o = none) :
    Kept maxmsgs msgs flight e o a := by
  refine ⟨free, held, msgs, flight, h, moves_none haccepts hremoves, fun q => ?_⟩
  rw [hblocks, hresumes, Option.toList_none, List.append_nil, List.nil_append]

/-- `ptsend` and `ptrecv` fail, block, or go on behind `wait`. -/
theorem ptcall_cases (h : PortsInv maxmsgs a none free held msgs flight) (pid : Nat) (portid : Int)
    (msg : Option UInt32) :
    ptcall a pid portid msg = .ok (.syserr, a) ∨
      (∃ call b, ptcall a pid portid msg = .ok (.blocked call, b) ∧
        PortsInv maxmsgs b none free held msgs
          (update flight call.portid (flight call.portid ++ [call]))) ∨
      ∃ call b, ptcall a pid portid msg = ptcallResume b call ∧
        LetThrough maxmsgs b call free held msgs flight := by
  unfold ptcall
  cases hgood : goodPort portid with
  | none => exact .inl rfl
  | some p =>
    dsimp only
    split
    · exact .inl rfl
    · next hstate =>
      have halloc : (a.porttab p).ptstate = .alloc := not_not.mp hstate
      have hp := h.port p
      cases hsem : (a.porttab p).sem msg.isSome with
      | none => exact .inl rfl
      | some s =>
        dsimp only
        split
        · next hpos =>
          refine .inr (.inr ⟨_, _, rfl, ?_⟩)
          have hwait := h.set_entry (fun q hq k => (grant_elsewhere hq k).symm)
            (hp.wait_through (c := ⟨pid, p, msg, (a.porttab p).ptseq, (a.porttab p).generation⟩)
              halloc hsem hpos)
          rw [update_eq_self, update_eq_self] at hwait
          have hsame : ∀ sem sends, ((a.porttab p).setSem sem sends).ptstate = .alloc ∧
              ((a.porttab p).setSem sem sends).ptseq = (a.porttab p).ptseq ∧
              ((a.porttab p).setSem sem sends).sem sends = sem := by
            intro sem sends
            cases sends <;> exact ⟨halloc, rfl, rfl⟩
          refine ⟨hwait, ?_, ?_, ?_⟩
          · rw [Ports.setPort_self]
            exact (hsame _ _).1
          · rw [Ports.setPort_self]
            exact (hsame _ _).2.1
          · rw [Ports.setPort_self]
            exact ⟨_, (hsame _ _).2.2⟩
        · next hpos =>
          refine .inr (.inl ⟨_, _, rfl, ?_⟩)
          have hwait := h.set_entry (fun _ _ _ => Iff.rfl)
            (hp.wait_block (c := ⟨pid, p, msg, (a.porttab p).ptseq, (a.porttab p).generation⟩)
              halloc rfl rfl rfl hsem hpos)
          rw [update_eq_self] at hwait
          exact hwait

theorem call_kept {e : PtEvent} {pid : Nat} {portid : Int} {msg : Option UInt32}
    (h : PortsInv maxmsgs a none free held msgs flight)
    (hrun : ptcall a pid portid msg = .ok (o, a')) (he : ∀ q o, e.resumes q o = none) :
    Kept maxmsgs msgs flight e o a' := by
  rcases h.ptcall_cases pid portid msg with hrefused | ⟨call, b, hblocked, hinv⟩ |
    ⟨call, b, hthrough, hlet⟩
  · obtain ⟨rfl, rfl⟩ := Prod.mk.inj (Except.ok.inj (hrefused.symm.trans hrun))
    exact h.kept_of_same (fun _ => rfl) (fun _ => rfl) (fun _ => rfl) fun q => he q _
  · obtain ⟨rfl, rfl⟩ := Prod.mk.inj (Except.ok.inj (hblocked.symm.trans hrun))
    refine ⟨free, held, msgs, _, hinv, moves_none (fun _ => rfl) (fun _ => rfl), fun q => ?_⟩
    rw [he, Option.toList_none, List.nil_append]
    by_cases hq : q = call.portid
    · subst hq
      rw [update_self]
      simp [PtResult.blocks]
    · rw [update_of_ne hq]
      simp [PtResult.blocks, Ne.symm hq]
  · obtain ⟨hblocks, -, free', held', msgs', hinv, hmoves⟩ := hlet.kept (hthrough.symm.trans hrun)
    refine ⟨free', held', msgs', flight, hinv, hmoves, fun q => ?_⟩
    rw [hblocks, he, Option.toList_none, List.append_nil, List.nil_append]

/-- `ptseq` has another value, unless it has gone round. -/
theorem seq_ne {g k : Nat} (hk : k < g) (hround : ¬ 2 ^ 32 ∣ g - k) :
    UInt32.ofNat g ≠ UInt32.ofNat k := by
  intro heq
  have hval := congrArg UInt32.toNat heq
  rw [UInt32.toNat_ofNat', UInt32.toNat_ofNat'] at hval
  exact hround ((Nat.modEq_iff_dvd' (Nat.le_of_lt hk)).mp hval.symm)

theorem mem_flight {grant : Option (Fin nPorts × Bool)}
    (h : PortsInv maxmsgs a grant free held msgs flight) (hc : call ∈ a.ready) :
    call ∈ a.ready.filter (·.portid = call.portid) ∧ call ∈ flight call.portid := by
  have hmem : call ∈ a.ready.filter (·.portid = call.portid) :=
    List.mem_filter.mpr ⟨hc, decide_eq_true rfl⟩
  exact ⟨hmem, (h.port call.portid).flight.mem_iff.mp (List.mem_append_left _ hmem)⟩

/-- A ready caller leaves the ready list. -/
theorem erase (h : PortsInv maxmsgs a none free held msgs flight) (hc : call ∈ a.ready) :
    PortsInv maxmsgs { a with ready := a.ready.erase call }
      (if call.generation = (a.porttab call.portid).generation then
        some (call.portid, call.msg.isSome) else none) free held msgs
      (update flight call.portid ((flight call.portid).erase call)) := by
  have hback := (h.port call.portid).come_back (h.mem_flight hc).1 rfl
  rw [← update_eq_self call.portid held, ← update_eq_self call.portid msgs]
  refine h.set (fun _ _ => rfl) (fun q hq => ?_) (fun _ _ _ _ => rfl) (fun q hq k => ?_) h.freeList
    ?_ ?_
  · have hnot : call ∉ a.ready.filter (·.portid = q) := fun hmem =>
      hq (of_decide_eq_true (List.mem_filter.mp hmem).2).symm
    rw [← List.erase_filter, List.erase_of_not_mem hnot]
  · refine iff_of_false (fun heq => ?_) nofun
    split at heq
    · exact hq (Prod.mk.inj (Option.some.inj heq)).1.symm
    · cases heq
  · rw [update_eq_self]
    exact h.parts
  · rw [List.erase_filter] at hback
    exact hback

/-- A caller that is still right comes back through. -/
theorem let_through (h : PortsInv maxmsgs a none free held msgs flight) (hc : call ∈ a.ready)
    (hgen : call.generation = (a.porttab call.portid).generation) :
    LetThrough maxmsgs { a with ready := a.ready.erase call } call free held msgs
      (update flight call.portid ((flight call.portid).erase call)) := by
  have hp := h.port call.portid
  obtain ⟨hready, hflight⟩ := h.mem_flight hc
  obtain ⟨-, hseq, -, hlate⟩ := hp.call call hflight
  have herase := h.erase hc
  rw [if_pos hgen] at herase
  have halloc : (a.porttab call.portid).ptstate = .alloc := by
    by_contra hne
    exact absurd hgen (Nat.ne_of_lt (hlate hne))
  refine ⟨herase, halloc, ?_, ?_⟩
  · show (a.porttab call.portid).ptseq = call.seq
    rw [hp.seq, hseq, hgen]
  · show ∃ s, (a.porttab call.portid).sem call.msg.isSome = some s
    have hopen := hp.opened halloc call.msg.isSome
    cases hsem : (a.porttab call.portid).sem call.msg.isSome with
    | some s => exact ⟨s, rfl⟩
    | none =>
      rw [hsem] at hopen
      have hnobody := List.countP_eq_zero.mp (show List.countP _ _ = 0 from hopen) call hready
      exact absurd (decide_eq_true ⟨hgen, rfl⟩) hnobody

theorem stale_refused (h : PortsInv maxmsgs a none free held msgs flight) (hc : call ∈ a.ready)
    (hstale : a.Stale call) (hfit : PortsFit a (.resume call)) :
    ptStep a (.resume call) = .ok (.syserr, { a with ready := a.ready.erase call }) := by
  have hp := h.port call.portid
  obtain ⟨-, hseq, -, -⟩ := hp.call call (h.mem_flight hc).2
  have hne : (a.porttab call.portid).ptseq ≠ call.seq := by
    rw [hp.seq, hseq]
    exact seq_ne hstale (hfit hstale)
  rw [ptStep, if_pos hc]
  exact refused (.inr hne)

theorem resume_kept (h : PortsInv maxmsgs a none free held msgs flight)
    (hrun : ptStep a (.resume call) = .ok (o, a')) (hfit : PortsFit a (.resume call)) :
    Kept maxmsgs msgs flight (.resume call) o a' := by
  by_cases hc : call ∈ a.ready
  · have herase := h.erase hc
    have hflight := (h.mem_flight hc).2
    have hperm : o ≠ .other → (∀ q, o.blocks q = none) → ∀ q,
        (flight q ++ (o.blocks q).toList).Perm
          (((PtEvent.resume call).resumes q o).toList ++
            update flight call.portid ((flight call.portid).erase call) q) := by
      intro ho hblocks q
      rw [hblocks, Option.toList_none, List.append_nil]
      by_cases hq : call.portid = q
      · subst hq
        rw [update_self]
        simp only [PtEvent.resumes, ho, ne_eq, not_false_eq_true, and_self, if_true,
          Option.toList_some]
        exact List.perm_cons_erase hflight
      · rw [update_of_ne (Ne.symm hq)]
        simp only [PtEvent.resumes, hq, false_and, if_false, Option.toList_none]
        exact .refl _
    by_cases hgen : call.generation = (a.porttab call.portid).generation
    · rw [ptStep, if_pos hc] at hrun
      obtain ⟨hblocks, ho, free', held', msgs', hinv, hmoves⟩ := (h.let_through hc hgen).kept hrun
      exact ⟨free', held', msgs', _, hinv, hmoves, hperm ho hblocks⟩
    · have hstale : a.Stale call :=
        Nat.lt_of_le_of_ne ((h.port call.portid).call call hflight).2.2.1 hgen
      rw [if_neg hgen] at herase
      obtain ⟨rfl, rfl⟩ :=
        Prod.mk.inj (Except.ok.inj ((h.stale_refused hc hstale hfit).symm.trans hrun))
      exact ⟨free, held, msgs, _, herase, moves_none (fun _ => rfl) (fun _ => rfl),
        hperm nofun fun _ => rfl⟩
  · rw [ptStep, if_neg hc] at hrun
    obtain ⟨rfl, rfl⟩ := Prod.mk.inj (Except.ok.inj hrun)
    refine h.kept_of_same (fun _ => rfl) (fun _ => rfl) (fun _ => rfl) fun q => ?_
    simp [PtEvent.resumes]

theorem ptcreateLoop_free {porttab : Fin nPorts → PtEntry} {rounds : Nat}
    {ptnextid p : Fin nPorts} (h : (ptcreateLoop porttab rounds ptnextid).1 = some p) :
    (porttab p).ptstate = .free := by
  induction rounds generalizing ptnextid with
  | zero => cases h
  | succ rounds ih =>
    rw [ptcreateLoop] at h
    split at h
    · next hfree =>
      obtain rfl := Option.some.inj h
      exact hfree
    · exact ih h

theorem create_kept {count : Int} {ssem rsem : Bool}
    (h : PortsInv maxmsgs a none free held msgs flight)
    (hrun : ptStep a (.create count ssem rsem) = .ok (o, a'))
    (hfit : PortsFit a (.create count ssem rsem)) :
    Kept maxmsgs msgs flight (.create count ssem rsem) o a' := by
  have hsame : ∀ n, PortsInv maxmsgs { a with ptnextid := n } none free held msgs flight :=
    fun n => ⟨h.freeList, h.parts, h.port⟩
  have hcount : count < 2 ^ 16 := hfit
  rw [ptStep, ptcreate] at hrun
  split at hrun
  · obtain ⟨rfl, rfl⟩ := Prod.mk.inj (Except.ok.inj hrun)
    exact h.kept_of_same (fun _ => rfl) (fun _ => rfl) (fun _ => rfl) fun _ => rfl
  · cases hfound : (ptcreateLoop a.porttab nPorts a.ptnextid).1 with
    | none =>
      simp only [hfound] at hrun
      obtain ⟨rfl, rfl⟩ := Prod.mk.inj (Except.ok.inj hrun)
      exact (hsame _).kept_of_same (fun _ => rfl) (fun _ => rfl) (fun _ => rfl) fun _ => rfl
    | some p =>
      simp only [hfound] at hrun
      obtain ⟨rfl, rfl⟩ := Prod.mk.inj (Except.ok.inj hrun)
      have hset := (hsame (ptcreateLoop a.porttab nPorts a.ptnextid).2).set_entry
        (fun _ _ _ => Iff.rfl) ((h.port p).created ssem rsem (ptcreateLoop_free hfound)
          (by omega : count.toNat < 2 ^ 16))
      rw [update_eq_self, update_eq_self] at hset
      exact hset.kept_of_same (fun _ => rfl) (fun _ => rfl) (fun _ => rfl) fun _ => rfl

theorem clear_kept {e : PtEvent} {portid : Int} {newstate : PtState}
    (h : PortsInv maxmsgs a none free held msgs flight) (hnew : newstate ≠ .limbo)
    (hrun : ptclear a portid newstate = (o, a')) (he : ∀ q o, e.resumes q o = none) :
    Kept maxmsgs msgs flight e o a' := by
  have hrefused : Kept maxmsgs msgs flight e .syserr a :=
    h.kept_of_same (fun _ => rfl) (fun _ => rfl) (fun _ => rfl) fun q => he q _
  unfold ptclear at hrun
  cases hgood : goodPort portid with
  | none =>
    rw [hgood] at hrun
    obtain ⟨rfl, rfl⟩ := Prod.mk.inj hrun
    exact hrefused
  | some p =>
    rw [hgood] at hrun
    dsimp only at hrun
    split at hrun
    · obtain ⟨rfl, rfl⟩ := Prod.mk.inj hrun
      exact hrefused
    · next hstate =>
      obtain ⟨rfl, rfl⟩ := Prod.mk.inj hrun
      have hset := h.set_entry (fun _ _ _ => Iff.rfl)
        ((h.port p).clear_start (not_not.mp hstate) hnew)
      rw [update_eq_self, update_eq_self] at hset
      exact hset.kept_of_same (fun _ => rfl) (fun _ => rfl) (fun _ => rfl) fun q => he q _

/-- The messages of a port go to the free list. -/
theorem freeMessages {p : Fin nPorts} (h : PortsInv maxmsgs a none free held msgs flight)
    (hqueue : (a.porttab p).queue = (a.porttab p).pthead) :
    ∃ nodes ptfree free', ptfreeMessages a p = .ok { a with nodes := nodes, ptfree := ptfree } ∧
      Leads (nextOf nodes) ptfree free' ∧
      Partition (nodeLists free' (update held p [])) (· < maxmsgs) ∧
      ∀ q, q ≠ p → ∀ x ∈ held q, nodes x = a.nodes x := by
  have hp := h.port p
  have hlinked := hqueue ▸ hp.linked
  have htail := hp.tail hqueue
  unfold ptfreeMessages
  dsimp only
  rcases List.eq_nil_or_concat (held p) with hheld | ⟨front, last, hheld⟩
  · rw [hheld] at hlinked
    refine ⟨a.nodes, a.ptfree, free, ?_, h.freeList, ?_, fun _ _ _ _ => rfl⟩
    · rw [show (a.porttab p).pthead = none from hlinked]
    · rw [← hheld, update_eq_self]
      exact h.parts
  · rw [List.concat_eq_append] at hheld
    rw [hheld] at hlinked htail
    rw [List.getLast?_concat] at htail
    have hmem : last ∈ held p := hheld ▸ List.mem_append_right _ List.mem_cons_self
    have hkept : ∀ x, x ≠ last → setNext a.nodes last a.ptfree x = a.nodes x :=
      fun x hx => update_of_ne hx _ _
    have hnotfront : last ∉ front := fun hx =>
      List.disjoint_of_nodup_append hlinked.nodup hx List.mem_cons_self
    have hnotfree : last ∉ free := by
      intro hx
      exact absurd (@Chain.Partition.disjoint _ _ _ _ h.parts none (some p) last hx hmem) nofun
    obtain ⟨head, hhead⟩ : ∃ head, (a.porttab p).pthead = some head := by
      rw [hlinked.head_eq]
      cases front with
      | nil => exact ⟨last, rfl⟩
      | cons x front => exact ⟨x, rfl⟩
    have hfrom : (held p).Perm (held p ++ []) := by rw [List.append_nil]
    have hto : (front ++ last :: free).Perm (held p ++ free) := by
      rw [hheld, List.append_assoc]
      exact .refl _
    refine ⟨setNext a.nodes last a.ptfree, some head, front ++ last :: free, ?_, ?_,
      partition_update h.parts (.inr ⟨hfrom, hto⟩), fun q hq x hx => hkept x ?_⟩
    · rw [hhead, htail]
    · rw [hhead] at hlinked
      refine hlinked.append (fun x hx => congrArg PtNode.ptnext
        (hkept x fun hsame => hnotfront (hsame ▸ hx))) ?_
        (h.freeList.congr fun x hx => congrArg PtNode.ptnext
          (hkept x fun hsame => hnotfree (hsame ▸ hx)))
      unfold nextOf setNext
      rw [update_self]
    · rintro rfl
      exact hq (Option.some.inj
        (@Chain.Partition.disjoint _ _ _ _ h.parts (some q) (some p) x hx hmem))

theorem clearSem_portid {nodes : Nat → PtNode} {p : Fin nPorts} {port : PtEntry}
    {calls f : List PtCall} {l : List Nat} {m : List UInt32} {newstate : PtState} {sends : Bool}
    (h : PortInv nodes p port calls none l m f) :
    ∀ c ∈ (port.clearSem newstate sends).2, c.portid = p := by
  intro c hc
  refine (h.call c (h.flight.mem_iff.mp (List.mem_append_right _ ?_))).1
  refine (PortInv.waiting_perm port sends).mem_iff.mpr (List.mem_append_left _ ?_)
  rw [← PortInv.clearSem_waiting]
  exact List.mem_append_left _ hc

theorem clearResume_kept {p : Fin nPorts} (h : PortsInv maxmsgs a none free held msgs flight)
    (hrun : ptclearResume a p = .ok (o, a')) : Kept maxmsgs msgs flight (.clear p) o a' := by
  have hp := h.port p
  have hset : ∀ port : PtEntry, ∀ m, PortInv a.nodes p port (a.ready.filter (·.portid = p)) none
      (held p) m (flight p) →
      PortsInv maxmsgs (a.setPort p port) none free held (update msgs p m) flight := by
    intro port m hport
    have hset := h.set_entry (fun _ _ _ => Iff.rfl) hport
    rwa [update_eq_self] at hset
  unfold ptclearResume at hrun
  cases hclear : (a.porttab p).clear with
  | none =>
    simp only [hclear] at hrun
    obtain ⟨rfl, rfl⟩ := Prod.mk.inj (Except.ok.inj hrun)
    exact h.kept_of_same (fun _ => rfl) (fun _ => rfl) (fun _ => rfl) fun _ => rfl
  | some clear =>
    obtain ⟨newstate, stage⟩ := clear
    cases stage with
    | dispose walk =>
      cases walk with
      | some walk =>
        simp only [hclear] at hrun
        obtain ⟨rfl, rfl⟩ := Prod.mk.inj (Except.ok.inj hrun)
        obtain ⟨m, hmsgs, hport⟩ := hp.disposed hclear
        refine ⟨free, held, _, flight, hset _ m hport, moves_removed (.inr rfl) hmsgs, fun q => ?_⟩
        simp [PtResult.blocks, PtEvent.resumes]
      | none =>
        have hqueue : (a.porttab p).queue = (a.porttab p).pthead := by
          unfold PtEntry.queue
          rw [hclear]
        obtain ⟨nodes, ptfree, free', hmessages, hfree, hparts, hnodes⟩ := h.freeMessages hqueue
        obtain ⟨hmsgs, hport⟩ := hp.freed_senders nodes hclear rfl rfl
        simp only [hclear, hmessages, Except.map, ptfreeCallers_setPort] at hrun
        obtain ⟨rfl, rfl⟩ := Prod.mk.inj (Except.ok.inj hrun)
        have hreleased := @clearSem_portid _ _ _ _ _ _ _ newstate true hp
        refine ⟨free', update held p [], update msgs p [], update flight p (flight p), ?_, ?_,
          fun q => ?_⟩
        · refine h.set (fun q hq => Ports.setPort_of_ne hq _ _)
            (fun q hq => filter_released_of_ne hreleased hq) hnodes (fun _ _ _ => Iff.rfl) hfree
            hparts ?_
          rw [Ports.setPort_self]
          show PortInv nodes p _
            ((a.ready ++ ((a.porttab p).clearSem newstate true).2).filter _) none _ _ _
          rw [filter_released hreleased]
          exact hport
        · rw [← hmsgs, update_eq_self]
          exact moves_none (fun _ => rfl) fun _ => rfl
        · rw [update_eq_self]
          simp [PtResult.blocks, PtEvent.resumes]
    | advance walk =>
      simp only [hclear] at hrun
      obtain ⟨rfl, rfl⟩ := Prod.mk.inj (Except.ok.inj hrun)
      have hnext := hset _ _ (hp.advanced hclear)
      rw [update_eq_self] at hnext
      exact hnext.kept_of_same (fun _ => rfl) (fun _ => rfl) (fun _ => rfl) fun _ => rfl
    | receivers =>
      simp only [hclear, ptfreeCallers_setPort] at hrun
      obtain ⟨rfl, rfl⟩ := Prod.mk.inj (Except.ok.inj hrun)
      have hreleased := @clearSem_portid _ _ _ _ _ _ _ newstate false hp
      refine ⟨free, update held p (held p), update msgs p (msgs p), update flight p (flight p), ?_,
        ?_, fun q => ?_⟩
      · refine h.set (fun q hq => Ports.setPort_of_ne hq _ _)
          (fun q hq => filter_released_of_ne hreleased hq) (fun _ _ _ _ => rfl)
          (fun _ _ _ => Iff.rfl) h.freeList ?_ ?_
        · rw [update_eq_self]
          exact h.parts
        · rw [Ports.setPort_self]
          show PortInv a.nodes p _
            ((a.ready ++ ((a.porttab p).clearSem newstate false).2).filter _) none _ _ _
          rw [filter_released hreleased]
          exact hp.freed_receivers hclear
      · rw [update_eq_self]
        exact moves_none (fun _ => rfl) fun _ => rfl
      · rw [update_eq_self]
        simp [PtResult.blocks, PtEvent.resumes]
    | leave =>
      simp only [hclear] at hrun
      obtain ⟨rfl, rfl⟩ := Prod.mk.inj (Except.ok.inj hrun)
      have hnext := hset _ _ (hp.left hclear)
      rw [update_eq_self] at hnext
      have hleft : PortsInv maxmsgs { a.setPort p { a.porttab p with
          ptstate := newstate, clear := none } with
            ptnextid := if newstate = .free then p else a.ptnextid } none free held msgs flight :=
        ⟨hnext.freeList, hnext.parts, hnext.port⟩
      exact hleft.kept_of_same (fun _ => rfl) (fun _ => rfl) (fun _ => rfl) fun _ => rfl

end PortsInv

end NatBox
