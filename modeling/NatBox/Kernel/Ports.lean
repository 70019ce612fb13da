import NatBox.Lib.Chain
import NatBox.Lib.RingBuffer
import NatBox.Lib.Runs
import NatBox.Lib.Semaphore
import NatBox.Packet

/-
Ports: `ptinit`, `ptcreate`, `ptsend`, `ptrecv`, `ptreset` and `ptdelete`.

Each runs with interrupts disabled, so it stops only where it may reschedule: in the `wait` of
`ptsend` and `ptrecv`, and in `_ptclear` when it disposes of a message and when it frees the
callers of a semaphore.  No step goes past such a place.
-/

namespace NatBox

open Chain Function

/-- `NPORTS` -/
abbrev nPorts : Nat := 30

instance : NeZero nPorts := ⟨by decide⟩

structure PtNode where
  ptmsg : UInt32
  ptnext : Option Nat

inductive PtState
  | free
  | limbo
  | alloc
  deriving DecidableEq

/-- A process in the `wait` of `ptsend` (with its message) or `ptrecv`, or signalled there and
not run yet.  `seq` is the local copy of `ptseq`. -/
structure PtCall where
  pid : Nat
  portid : Fin nPorts
  msg : Option UInt32
  seq : UInt32
  /-- ghost: the `generation` of the port when it was called -/
  generation : Nat
  deriving DecidableEq

/-- Where `_ptclear` goes on. -/
inductive PtClearing
  /-- the test of the loop over the messages, at `walk` -/
  | dispose (walk : Option Nat)
  /-- behind the call of `dispose` for the message at `walk` -/
  | advance (walk : Nat)
  /-- the senders have been freed -/
  | receivers
  /-- all callers have been freed -/
  | leave

/-- `struct ptentry`, with the semaphores themselves in place of their ids: `none` is an id
that `wait` refuses. -/
structure PtEntry where
  ptssem : Option (Semaphore PtCall)
  ptrsem : Option (Semaphore PtCall)
  ptstate : PtState
  ptmaxcnt : UInt16
  ptseq : UInt32
  pthead : Option Nat
  pttail : Option Nat
  /-- the process in `_ptclear`, and the `newstate` it was called with -/
  clear : Option (PtState × PtClearing)
  /-- ghost: how often `ptseq` was incremented -/
  generation : Nat

/-- The nodes are numbered in the array that `ptinit` gets. -/
structure Ports where
  nodes : Nat → PtNode
  ptfree : Option Nat
  porttab : Fin nPorts → PtEntry
  ptnextid : Fin nPorts
  /-- the callers that were signalled, or freed from a semaphore, and did not run yet -/
  ready : List PtCall

inductive PtEvent
  /-- `ptcreate`, with whether `semcreate` finds an entry for each of the semaphores -/
  | create (count : Int) (ssem rsem : Bool)
  | send (pid : Nat) (portid : Int) (msg : UInt32)
  | recv (pid : Nat) (portid : Int)
  | reset (portid : Int)
  | delete (portid : Int)
  /-- a caller that is ready runs -/
  | resume (call : PtCall)
  /-- the process in `_ptclear` runs -/
  | clear (portid : Fin nPorts)
  deriving DecidableEq

/-- What a step did. -/
inductive PtResult
  | created (portid : Fin nPorts)
  /-- `ptsend` returns `OK` -/
  | accepted (portid : Fin nPorts) (msg : UInt32)
  /-- `ptrecv` returns the message -/
  | received (portid : Fin nPorts) (msg : UInt32)
  | disposed (portid : Fin nPorts) (msg : UInt32)
  | blocked (call : PtCall)
  | syserr
  | other
  deriving DecidableEq

def setNext (nodes : Nat → PtNode) (node : Nat) (next : Option Nat) : Nat → PtNode :=
  update nodes node { nodes node with ptnext := next }

/-- The loop of `ptinit`, with the rounds to go. -/
def ptinitLoop : Nat → Nat → (Nat → PtNode) → Nat × (Nat → PtNode)
  | 0, curr, nodes => (curr, nodes)
  | rounds + 1, curr, nodes => ptinitLoop rounds (curr + 1) (setNext nodes curr (some (curr + 1)))

/-- The ports once `ptinit` has got its nodes. -/
def Ports.init (memory : Nat → PtNode) (maxmsgs : Nat) : Ports where
  nodes :=
    setNext (ptinitLoop (maxmsgs - 1) 0 memory).2 (ptinitLoop (maxmsgs - 1) 0 memory).1 none
  ptfree := some 0
  porttab _ := {
    ptssem := none
    ptrsem := none
    ptstate := .free
    ptmaxcnt := 0
    ptseq := 0
    pthead := none
    pttail := none
    clear := none
    generation := 0 }
  ptnextid := 0
  ready := []

/-- `getmem` has no memory of size 0. -/
def ptinit (memory : Nat → PtNode) (maxmsgs : Nat) : Except Fault Ports :=
  if maxmsgs = 0 then .error .panic else .ok (.init memory maxmsgs)

def Ports.setPort (a : Ports) (portid : Fin nPorts) (port : PtEntry) : Ports :=
  { a with porttab := update a.porttab portid port }

@[simp] theorem Ports.setPort_self (a : Ports) (p : Fin nPorts) (port : PtEntry) :
    (a.setPort p port).porttab p = port := by
  show update a.porttab p port p = port
  rw [update_self]

@[simp] theorem Ports.setPort_of_ne {p q : Fin nPorts} (h : q ≠ p) (a : Ports) (port : PtEntry) :
    (a.setPort p port).porttab q = a.porttab q := by
  show update a.porttab p port q = a.porttab q
  rw [update_of_ne h]

/-- The loop of `ptcreate`: the entry that it takes, and `ptnextid` after it. -/
def ptcreateLoop (porttab : Fin nPorts → PtEntry) : Nat → Fin nPorts →
    Option (Fin nPorts) × Fin nPorts
  | 0, ptnextid => (none, ptnextid)
  | rounds + 1, ptnextid =>
    if (porttab ptnextid).ptstate = .free then (some ptnextid, RingBuffer.next ptnextid)
    else ptcreateLoop porttab rounds (RingBuffer.next ptnextid)

/-- The entry that `ptcreate` has taken. -/
def PtEntry.create (port : PtEntry) (count : Nat) (ssem rsem : Bool) : PtEntry where
  ptssem := if ssem then some (.create count) else none
  ptrsem := if rsem then some (.create 0) else none
  ptstate := .alloc
  ptmaxcnt := UInt16.ofNat count
  ptseq := port.ptseq + 1
  pthead := none
  pttail := none
  clear := port.clear
  generation := port.generation + 1

def ptcreate (a : Ports) (count : Int) (ssem rsem : Bool) : PtResult × Ports :=
  if count < 0 then (.syserr, a)
  else
    let found := ptcreateLoop a.porttab nPorts a.ptnextid
    let a := { a with ptnextid := found.2 }
    match found.1 with
    | none => (.syserr, a)
    | some ptnum =>
      (.created ptnum, a.setPort ptnum ((a.porttab ptnum).create count.toNat ssem rsem))

/-- `signal`, with the callers that are made ready; a bad semaphore is left alone. -/
def signalSem (sem : Option (Semaphore PtCall)) : Option (Semaphore PtCall) × List PtCall :=
  match sem with
  | none => (none, [])
  | some s => (some s.signal.1, s.signal.2)

/-- The nodes once `msgnode` has the message and is linked behind `pttail`. -/
def linkNode (nodes : Nat → PtNode) (msgnode : Nat) (msg : UInt32) (pttail : Option Nat) :
    Nat → PtNode :=
  let nodes := update nodes msgnode { ptmsg := msg, ptnext := none }
  match pttail with
  | none => nodes
  | some tailnode => setNext nodes tailnode (some msgnode)

/-- `ptsend` behind its `wait`. -/
def ptsendResume (a : Ports) (call : PtCall) (msg : UInt32) : Except Fault (PtResult × Ports) :=
  let port := a.porttab call.portid
  if port.ptstate ≠ .alloc ∨ port.ptseq ≠ call.seq then .ok (.syserr, a)
  else
    match a.ptfree with
    | none => .error .panic
    | some msgnode =>
      .ok (.accepted call.portid msg,
        { a.setPort call.portid { port with
            pthead := if port.pttail = none then some msgnode else port.pthead
            pttail := some msgnode
            ptrsem := (signalSem port.ptrsem).1 } with
          nodes := linkNode a.nodes msgnode msg port.pttail
          ptfree := (a.nodes msgnode).ptnext
          ready := a.ready ++ (signalSem port.ptrsem).2 })

/-- `ptrecv` behind its `wait`. -/
def ptrecvResume (a : Ports) (call : PtCall) : Except Fault (PtResult × Ports) :=
  let port := a.porttab call.portid
  if port.ptstate ≠ .alloc ∨ port.ptseq ≠ call.seq then .ok (.syserr, a)
  else
    match port.pthead with
    | none => .error .nullPointer
    | some msgnode =>
      let last := port.pthead = port.pttail
      .ok (.received call.portid (a.nodes msgnode).ptmsg,
        { a.setPort call.portid { port with
            pthead := if last then none else (a.nodes msgnode).ptnext
            pttail := if last then none else port.pttail
            ptssem := (signalSem port.ptssem).1 } with
          nodes := setNext a.nodes msgnode a.ptfree
          ptfree := some msgnode
          ready := a.ready ++ (signalSem port.ptssem).2 })

/-- What `ptsend` or `ptrecv` does behind its `wait`. -/
def ptcallResume (a : Ports) (call : PtCall) : Except Fault (PtResult × Ports) :=
  match call.msg with
  | some msg => ptsendResume a call msg
  | none => ptrecvResume a call

/-- The semaphore of the senders or the one of the receivers. -/
def PtEntry.sem (port : PtEntry) : Bool → Option (Semaphore PtCall)
  | true => port.ptssem
  | false => port.ptrsem

def PtEntry.setSem (port : PtEntry) (s : Option (Semaphore PtCall)) : Bool → PtEntry
  | true => { port with ptssem := s }
  | false => { port with ptrsem := s }

/-- `isbadport`, and the index of a port that is not bad. -/
def goodPort (portid : Int) : Option (Fin nPorts) :=
  if h : 0 ≤ portid ∧ portid < nPorts then some ⟨portid.toNat, by omega⟩ else none

/-- What `ptsend` and `ptrecv` do up to `wait`, and behind it if they need not wait. -/
def ptcall (a : Ports) (pid : Nat) (portid : Int) (msg : Option UInt32) :
    Except Fault (PtResult × Ports) :=
  match goodPort portid with
  | none => .ok (.syserr, a)
  | some portid =>
    let port := a.porttab portid
    if port.ptstate ≠ .alloc then .ok (.syserr, a)
    else
      let call := {
        pid := pid
        portid := portid
        msg := msg
        seq := port.ptseq
        generation := port.generation }
      match port.sem msg.isSome with
      | none => .ok (.syserr, a)
      | some s =>
        let a := a.setPort portid (port.setSem (some (s.wait call)) msg.isSome)
        if 0 < s.count then ptcallResume a call else .ok (.blocked call, a)

def ptsend (a : Ports) (pid : Nat) (portid : Int) (msg : UInt32) :
    Except Fault (PtResult × Ports) :=
  ptcall a pid portid (some msg)

def ptrecv (a : Ports) (pid : Nat) (portid : Int) : Except Fault (PtResult × Ports) :=
  ptcall a pid portid none

/-- What `ptreset` and `ptdelete` do up to the loop of `_ptclear`. -/
def ptclear (a : Ports) (portid : Int) (newstate : PtState) : PtResult × Ports :=
  match goodPort portid with
  | none => (.syserr, a)
  | some portid =>
    let port := a.porttab portid
    if port.ptstate ≠ .alloc then (.syserr, a)
    else
      (.other, a.setPort portid { port with
        ptstate := .limbo
        ptseq := port.ptseq + 1
        clear := some (newstate, .dispose port.pthead)
        generation := port.generation + 1 })

def ptreset (a : Ports) (portid : Int) : PtResult × Ports := ptclear a portid .alloc

def ptdelete (a : Ports) (portid : Int) : PtResult × Ports := ptclear a portid .free

/-- `semreset` or `semdelete`, with the callers that are made ready; a bad semaphore is left
alone. -/
def semclear (sem : Option (Semaphore PtCall)) (newstate : PtState) (count : Nat) :
    Option (Semaphore PtCall) × List PtCall :=
  match sem with
  | none => (none, [])
  | some s => (if newstate = .alloc then some (s.reset count).1 else none, (s.reset count).2)

/-- What `_ptclear` does with a semaphore. -/
def PtEntry.clearSem (port : PtEntry) (newstate : PtState) (sends : Bool) :
    Option (Semaphore PtCall) × List PtCall :=
  semclear (port.sem sends) newstate (if sends then port.ptmaxcnt.toNat else 0)

def ptfreeCallers (a : Ports) (portid : Fin nPorts) (newstate : PtState) (sends : Bool) : Ports :=
  let port := a.porttab portid
  { a.setPort portid (port.setSem (port.clearSem newstate sends).1 sends) with
    ready := a.ready ++ (port.clearSem newstate sends).2 }

theorem ptfreeCallers_setPort (a : Ports) (p : Fin nPorts) (port : PtEntry) (newstate : PtState)
    (sends : Bool) :
    ptfreeCallers (a.setPort p port) p newstate sends =
      { a.setPort p (port.setSem (port.clearSem newstate sends).1 sends) with
        ready := a.ready ++ (port.clearSem newstate sends).2 } := by
  unfold ptfreeCallers
  rw [Ports.setPort_self]
  simp only [Ports.setPort, update_idem]

/-- The message list is linked into the free list. -/
def ptfreeMessages (a : Ports) (portid : Fin nPorts) : Except Fault Ports :=
  let port := a.porttab portid
  match port.pthead with
  | none => .ok a
  | some head =>
    match port.pttail with
    | none => .error .nullPointer
    | some tailnode =>
      .ok { a with nodes := setNext a.nodes tailnode a.ptfree, ptfree := some head }

/-- The process in `_ptclear` runs up to where it may reschedule next. -/
def ptclearResume (a : Ports) (portid : Fin nPorts) : Except Fault (PtResult × Ports) :=
  let port := a.porttab portid
  match port.clear with
  | none => .ok (.other, a)
  | some (newstate, .dispose (some walk)) =>
    .ok (.disposed portid (a.nodes walk).ptmsg,
      a.setPort portid { port with clear := some (newstate, .advance walk) })
  | some (newstate, .advance walk) =>
    .ok (.other,
      a.setPort portid { port with clear := some (newstate, .dispose (a.nodes walk).ptnext) })
  | some (newstate, .dispose none) =>
    (ptfreeMessages a portid).map fun a =>
      let a := a.setPort portid { port with
        pthead := if newstate = .alloc then none else port.pthead
        pttail := if newstate = .alloc then none else port.pttail
        clear := some (newstate, .receivers) }
      (.other, ptfreeCallers a portid newstate true)
  | some (newstate, .receivers) =>
    let a := a.setPort portid { port with clear := some (newstate, .leave) }
    .ok (.other, ptfreeCallers a portid newstate false)
  | some (newstate, .leave) =>
    .ok (.other, { a.setPort portid { port with ptstate := newstate, clear := none } with
      ptnextid := if newstate = .free then portid else a.ptnextid })

def ptStep (a : Ports) : PtEvent → Except Fault (PtResult × Ports)
  | .create count ssem rsem => .ok (ptcreate a count ssem rsem)
  | .send pid portid msg => ptsend a pid portid msg
  | .recv pid portid => ptrecv a pid portid
  | .reset portid => .ok (ptreset a portid)
  | .delete portid => .ok (ptdelete a portid)
  | .resume call =>
    if call ∈ a.ready then ptcallResume { a with ready := a.ready.erase call } call
    else .ok (.other, a)
  | .clear portid => ptclearResume a portid

/-! ## What ports are for -/

def nextOf (nodes : Nat → PtNode) (node : Nat) : Option Nat := (nodes node).ptnext

/-- Where the messages of the port are linked. -/
def PtEntry.queue (port : PtEntry) : Option Nat :=
  match port.clear with
  | none => if port.ptstate = .alloc then port.pthead else none
  | some (_, .dispose _) => port.pthead
  | some (_, .advance _) => port.pthead
  | some (_, .receivers) => none
  | some (_, .leave) => none

/-- Where those are linked that nobody has received and `_ptclear` has not disposed of. -/
def PtEntry.pending (port : PtEntry) (nodes : Nat → PtNode) : Option Nat :=
  match port.clear with
  | none => port.queue
  | some (_, .dispose walk) => walk
  | some (_, .advance walk) => nextOf nodes walk
  | some (_, .receivers) => none
  | some (_, .leave) => none

def waitingAt (sem : Option (Semaphore PtCall)) : List PtCall :=
  match sem with
  | none => []
  | some s => s.waiting

/-- The callers on the semaphores of the port. -/
def PtEntry.waiting (port : PtEntry) : List PtCall :=
  waitingAt port.ptssem ++ waitingAt port.ptrsem

/-- The free list and the lists of the ports. -/
def nodeLists (free : List Nat) (held : Fin nPorts → List Nat) : Option (Fin nPorts) → List Nat
  | none => free
  | some portid => held portid

def PtResult.accepts (portid : Fin nPorts) : PtResult → Option UInt32
  | .accepted q msg => if q = portid then some msg else none
  | _ => none

def PtResult.receives (portid : Fin nPorts) : PtResult → Option UInt32
  | .received q msg => if q = portid then some msg else none
  | _ => none

/-- Messages leave a port received, or disposed of by `_ptclear`. -/
def PtResult.removes (portid : Fin nPorts) : PtResult → Option UInt32
  | .received q msg => if q = portid then some msg else none
  | .disposed q msg => if q = portid then some msg else none
  | _ => none

def PtResult.blocks (portid : Fin nPorts) : PtResult → Option PtCall
  | .blocked call => if call.portid = portid then some call else none
  | _ => none

/-- The caller that came back from `wait`. -/
def PtEvent.resumes (portid : Fin nPorts) (o : PtResult) : PtEvent → Option PtCall
  | .resume call => if call.portid = portid ∧ o ≠ .other then some call else none
  | _ => none

section History

variable (portid : Fin nPorts) (tr : List (PtEvent × PtResult))

def accepted : List UInt32 := tr.filterMap fun c => c.2.accepts portid

def received : List UInt32 := tr.filterMap fun c => c.2.receives portid

def removed : List UInt32 := tr.filterMap fun c => c.2.removes portid

def blocked : List PtCall := tr.filterMap fun c => c.2.blocks portid

def resumed : List PtCall := tr.filterMap fun c => c.1.resumes portid c.2

end History

/-- What holds in every state: `maxmsgs` is the number of nodes, and `tr` what has happened. -/
structure PortsKept (maxmsgs : Nat) (tr : List (PtEvent × PtResult)) (a : Ports) : Prop where
  /-- every node is on the free list or on one port, and no port holds too many -/
  nodes : ∃ free held,
    Leads (nextOf a.nodes) a.ptfree free ∧
    (∀ p, Leads (nextOf a.nodes) (a.porttab p).queue (held p)) ∧
    Partition (nodeLists free held) (· < maxmsgs) ∧
    ∀ p, (held p).length ≤ (a.porttab p).ptmaxcnt.toNat
  /-- what was accepted has been removed in that order, or is pending -/
  fifo : ∀ p, ∃ rest, Leads (nextOf a.nodes) ((a.porttab p).pending a.nodes) rest ∧
    accepted p tr = removed p tr ++ rest.map fun node => (a.nodes node).ptmsg
  received_sublist : ∀ p, (received p tr).Sublist (accepted p tr)
  /-- who was blocked has come back, is ready, or still waits -/
  callers : ∀ p, (blocked p tr).Perm
    (resumed p tr ++ (a.ready.filter (·.portid = p) ++ (a.porttab p).waiting))
  /-- nobody waits from before the last clearing of a port -/
  freed : ∀ p, (a.porttab p).ptstate ≠ .limbo →
    ∀ call ∈ (a.porttab p).waiting, call.generation = (a.porttab p).generation

/-- The port has been cleared since the call. -/
def Ports.Stale (a : Ports) (call : PtCall) : Prop :=
  call.generation < (a.porttab call.portid).generation

/-- A bounded FIFO channel behind each port, along a whole run. -/
structure ChannelsKept (maxmsgs : Nat) (a₀ : Ports) (tr : List (PtEvent × PtResult)) : Prop where
  states : Runs.AllStates ptStep a₀ (PortsKept maxmsgs) tr
  /-- a caller from before a clearing gets `SYSERR`, and nothing else changes -/
  stale : ∀ pre s call o s', pre ++ [(.resume call, o)] <+: tr → Runs.Run ptStep a₀ pre s →
    ptStep s (.resume call) = .ok (o, s') → call ∈ s.ready → s.Stale call →
    o = .syserr ∧ s' = { s with ready := s.ready.erase call }

/-- The count fits `ptmaxcnt`, and a caller does not come back just when `ptseq` has gone round
its `2 ^ 32` values since. -/
def PortsFit (a : Ports) : PtEvent → Prop
  | .create count _ _ => count < 2 ^ 16
  | .resume call =>
    a.Stale call → ¬ 2 ^ 32 ∣ (a.porttab call.portid).generation - call.generation
  | _ => True

instance (a : Ports) (e : PtEvent) : Decidable (PortsFit a e) :=
  match e with
  | .create _ _ _ => inferInstanceAs (Decidable (_ < _))
  | .resume _ => inferInstanceAs (Decidable (_ < _ → ¬ _ ∣ _))
  | .send _ _ _ => isTrue trivial
  | .recv _ _ => isTrue trivial
  | .reset _ => isTrue trivial
  | .delete _ => isTrue trivial
  | .clear _ => isTrue trivial

end NatBox
