import NatBox.Kernel.Queue
import NatBox.Memory.Heap

/-
The process manager: `ready.c`, `resched.c` and what moves processes between states.

The functions are written over any `QueueTable`.  A kernel call that reaches `resched`
may be left there, and the process goes on with what `context` says when it is next
dispatched.  `history` records what happens to processes, the latest first.  It is not
part of the source and no function reads it.
-/

namespace NatBox

open Function

/-- `PR_FREE`, `PR_CURR` and the other process states. -/
inductive PrState
  | free
  | curr
  | ready
  | recv
  | sleep
  | susp
  | wait
  | rectim
  deriving DecidableEq

/-- `struct procent` -/
structure Procent where
  prstate : PrState
  prprio : Int
  prstkbase : Nat
  prstklen : Nat
  prsem : Int
  prparent : Int
  prmsg : UInt32
  prhasmsg : Bool

/-- `struct sentry`: `used` is whether `sstate` is `S_USED`. -/
structure Sentry where
  used : Bool
  scount : Int
  squeue : Int

/-- What a process does when it comes back from `resched`: go on with its program, return
from the call it made, or finish the call. -/
inductive Context
  | user
  | returns (value : UInt32)
  | suspend (pid : Int)
  | receive
  | recvtime
  | kill (pid : Int)
  | clkhandler
  deriving DecidableEq

inductive Happening
  | created (pid prio : Int)
  | changesPrio (pid prio : Int)
  | readied (pid : Int)
  | runs (pid : Int)
  | stays
  | suspends (pid : Int)
  | waits (pid sem : Int)
  | releases (pid sem : Int)
  | sleeps (pid delay : Int)
  | tick
  | wakes (pid : Int)
  | unsleeps (pid : Int)
  | sent (pid : Int) (msg : UInt32)
  | took (pid : Int) (msg : UInt32)
  | timesOut (pid : Int)
  | kills (killer pid : Int)
  | freesStack (pid : Int) (st : Status)
  | freed (killer pid : Int)
  deriving DecidableEq

structure Kernel (Q : Type) where
  queuetab : Q
  proctab : Int → Procent
  semtab : Int → Sentry
  currpid : Int
  prcount : Int
  ndefers : Int
  attempt : Bool
  preempt : UInt32
  nextpid : Int
  nextsem : Int
  memory : Heap
  context : Int → Context
  history : List Happening

/-- `NULLPROC` -/
abbrev nullproc : Int := 0

/-- `readylist`: `newqueue` makes it behind the queues of the semaphores. -/
abbrev readylist : Int := 300

/-- `sleepq` -/
abbrev sleepq : Int := 302

/-- `QUANTUM` -/
def quantum : UInt32 := 2

/-- `OK`, `SYSERR` and `TIMEOUT` as a call returns them. -/
def sysOk : UInt32 := 1
def sysErr : UInt32 := 0xFFFFFFFF
def sysTimeout : UInt32 := 0xFFFFFFFD

namespace Kernel

variable {Q : Type} [QueueTable Q] (k : Kernel Q)

/-! ## Parts of the state -/

section State

omit [QueueTable Q]

def isbadpid (pid : Int) : Bool :=
  pid < 0 || pid ≥ nproc || (k.proctab pid).prstate = .free

def setProc (pid : Int) (entry : Procent) : Kernel Q :=
  { k with proctab := update k.proctab pid entry }

def setState (pid : Int) (st : PrState) : Kernel Q :=
  k.setProc pid { k.proctab pid with prstate := st }

def setCount (sem count : Int) : Kernel Q :=
  { k with semtab := update k.semtab sem { k.semtab sem with scount := count } }

def setUsed (sem : Int) (used : Bool) : Kernel Q :=
  { k with semtab := update k.semtab sem { k.semtab sem with used := used } }

def setContext (pid : Int) (c : Context) : Kernel Q :=
  { k with context := update k.context pid c }

def setQueues (t : Q) : Kernel Q := { k with queuetab := t }

def note (h : Happening) : Kernel Q := { k with history := h :: k.history }

end State

/-! ## Queues -/

def isempty (q : Int) : Bool := QueueTable.firstid k.queuetab q ≥ nproc

def firstkey (q : Int) : Int := QueueTable.qkey k.queuetab (QueueTable.firstid k.queuetab q)

def enqueue (pid q : Int) : Kernel Q :=
  if isbadqid q || k.isbadpid pid then k
  else k.setQueues (QueueTable.enqueue k.queuetab pid q)

def getitem (pid : Int) : Kernel Q := k.setQueues (QueueTable.getitem k.queuetab pid)

def getfirst (q : Int) : Int × Kernel Q :=
  if k.isempty q then (empty, k)
  else
    let pid := QueueTable.firstid k.queuetab q
    (pid, k.getitem pid)

/-- `SYSERR` is the same number as `EMPTY`. -/
def dequeue (q : Int) : Int × Kernel Q :=
  if isbadqid q then (empty, k)
  else if k.isempty q then (empty, k)
  else
    let (pid, k') := k.getfirst q
    (pid, k'.setQueues (QueueTable.clear k'.queuetab pid))

def insert (pid q key : Int) : Kernel Q :=
  if isbadqid q || k.isbadpid pid then k
  else k.setQueues (QueueTable.insert k.queuetab pid q key)

/-- `none` is `SYSERR`. -/
def insertd (pid q delay : Int) : Option (Kernel Q) :=
  if isbadqid q || k.isbadpid pid then none
  else some (k.setQueues (QueueTable.insertd k.queuetab pid q delay))

/-! ## Scheduling -/

/-- A process that becomes ready goes behind the ready ones of its priority. -/
def makeReady (pid : Int) : Kernel Q :=
  ((k.setState pid .ready).insert pid readylist (k.proctab pid).prprio).note (.readied pid)

/-- The context switch of `resched`. -/
def dispatch : Kernel Q :=
  let (pid, k') := k.dequeue readylist
  ({ k' with currpid := pid, preempt := quantum }.setState pid .curr).note (.runs pid)

/-- `Defer.attempt = TRUE` -/
def attempted : Kernel Q := { k with attempt := true }

def resched : Kernel Q :=
  if k.ndefers > 0 then k.attempted
  else if (k.proctab k.currpid).prstate = .curr then
    if (k.proctab k.currpid).prprio > k.firstkey readylist then k.note .stays
    else (k.makeReady k.currpid).dispatch
  else k.dispatch

def ready (pid : Int) : Kernel Q :=
  if k.isbadpid pid then k else (k.makeReady pid).resched

/-- `resched_cntl(DEFER_START)` -/
def deferStart : Kernel Q :=
  { k with
    ndefers := k.ndefers + 1
    attempt := if k.ndefers = 0 then false else k.attempt }

/-- `resched_cntl(DEFER_STOP)` -/
def deferStop : Kernel Q :=
  if k.ndefers ≤ 0 then k
  else
    let k' := { k with ndefers := k.ndefers - 1 }
    if k'.ndefers = 0 ∧ k'.attempt = true then k'.resched else k'

/-- The current process calls `resched` and goes on with `c` when it comes back. -/
def leave (c : Context) : Kernel Q := (k.setContext k.currpid c).resched

def unsleep (pid : Int) : Kernel Q :=
  if k.isbadpid pid then k
  else if (k.proctab pid).prstate ≠ .sleep ∧ (k.proctab pid).prstate ≠ .rectim then k
  else
    let pidnext := QueueTable.behind k.queuetab sleepq pid
    let k' :=
      if pidnext < nproc then
        k.setQueues (QueueTable.addKey k.queuetab pidnext (QueueTable.qkey k.queuetab pid))
      else k
    (k'.getitem pid).note (.unsleeps pid)

/-! ## Semaphores -/

def isbadsem (sem : Int) : Bool := sem < 0 || sem ≥ nsem

/-- The process that came off the queue of the semaphore is made ready. -/
def release (sem : Int) (r : Int × Kernel Q) : Kernel Q :=
  (r.2.note (.releases r.1 sem)).ready r.1

/-- `if ((semptr->scount++) < 0) ready(dequeue(semptr->squeue))` -/
def signalOnce (sem : Int) : Kernel Q :=
  let k' := k.setCount sem ((k.semtab sem).scount + 1)
  if (k.semtab sem).scount < 0 then release sem (k'.dequeue (k.semtab sem).squeue) else k'

/-- The loop of `signaln`. -/
def signalTimes (sem : Int) : Nat → Kernel Q → Kernel Q
  | 0, k => k
  | count + 1, k => signalTimes sem count (k.signalOnce sem)

/-- The loop of `semdelete`.  The count is one more after each round, so that it ends
after as many rounds as the count is below zero. -/
def semdeleteLoop (sem : Int) : Nat → Kernel Q → Kernel Q
  | 0, k => k
  | fuel + 1, k =>
    let k' := k.setCount sem ((k.semtab sem).scount + 1)
    if (k.semtab sem).scount < 0 then
      semdeleteLoop sem fuel (release sem (k'.getfirst (k'.semtab sem).squeue))
    else k'

/-- The loop of `semreset`, at most once for each process. -/
def semresetLoop (sem : Int) : Nat → Kernel Q → Kernel Q
  | 0, k => k
  | fuel + 1, k =>
    let r := k.getfirst (k.semtab sem).squeue
    if r.1 ≠ empty then semresetLoop sem fuel (release sem r) else k

/-! ## Messages -/

/-- `send` refuses: no such process, or one that has a message. -/
def sendBad (pid : Int) : Bool := k.isbadpid pid || (k.proctab pid).prhasmsg

/-- `send`, once it does not refuse. -/
def deliver (pid : Int) (msg : UInt32) : Kernel Q :=
  let k' := (k.setProc pid { k.proctab pid with prmsg := msg, prhasmsg := true }).note
    (.sent pid msg)
  match (k.proctab pid).prstate with
  | .recv => k'.ready pid
  | .rectim => (k'.unsleep pid).ready pid
  | _ => k'

def send (pid : Int) (msg : UInt32) : Kernel Q :=
  if k.sendBad pid then k else k.deliver pid msg

/-- The current process takes its message. -/
def takeMsg : UInt32 × Kernel Q :=
  let entry := k.proctab k.currpid
  (entry.prmsg, (k.setProc k.currpid { entry with prhasmsg := false }).note
    (.took k.currpid entry.prmsg))

/-- `recvtime` after the wait. -/
def recvtimeRest : UInt32 × Kernel Q :=
  if (k.proctab k.currpid).prhasmsg then k.takeMsg
  else (sysTimeout, k.note (.timesOut k.currpid))

/-! ## The clock -/

/-- The loop of `wakeup`, at most once for each process. -/
def wakeupLoop : Nat → Kernel Q → Kernel Q
  | 0, k => k
  | fuel + 1, k =>
    if !k.isempty sleepq ∧ k.firstkey sleepq ≤ 0 then
      let r := k.dequeue sleepq
      wakeupLoop fuel ((r.2.note (.wakes r.1)).ready r.1)
    else k

def wakeup : Kernel Q := (wakeupLoop (nproc.toNat + 1) k.deferStart).deferStop

/-- The end of `clkhandler`. -/
def countPreempt : Kernel Q :=
  let k' := { k with preempt := k.preempt - 1 }
  if k'.preempt ≤ 0 then { k' with preempt := quantum }.leave .user
  else k'.setContext k'.currpid .user

/-- The clock ticks, and the first process on the queue has one tick less to sleep. -/
def tickDown : Kernel Q :=
  if k.isempty sleepq then k.note .tick
  else (k.setQueues (QueueTable.addKey k.queuetab (QueueTable.firstid k.queuetab sleepq)
    (-1))).note .tick

/-- `clkhandler`, as long as the process it interrupts does not call `resched` in it. -/
def clkhandler : Kernel Q :=
  if !k.isempty sleepq ∧ k.tickDown.firstkey sleepq ≤ 0 then
    (k.tickDown.setContext k.currpid .clkhandler).wakeup
  else k.tickDown.countPreempt

/-! ## Creation and termination -/

/-- The loop of `newpid`: where to go on and the free slot. -/
def newpidLoop : Nat → Int → Int × Option Int
  | 0, next => (next, none)
  | fuel + 1, next =>
    let next := next % nproc
    if (k.proctab next).prstate = .free then (next + 1, some next)
    else newpidLoop fuel (next + 1)

/-- The entry of a new process. -/
def newProc (pid prio : Int) (saddr ssize : Nat) : Procent where
  prstate := .susp
  prprio := prio
  prstkbase := saddr
  prstklen := ssize
  prsem := -1
  prparent := k.currpid
  prmsg := (k.proctab pid).prmsg
  prhasmsg := false

/-- `MINSTK` -/
def minstk : Nat := 400

/-- The stack size `create` asks `getstk` for. -/
def stackSize (ssize : UInt32) : Nat := roundmb (max ssize.toNat minstk)

/-- The `switch` of `kill` up to where the process becomes free: it is taken out of where
it is. -/
def detach (pid : Int) : Kernel Q :=
  match (k.proctab pid).prstate with
  | .sleep | .rectim => k.unsleep pid
  | .wait =>
    let sem := (k.proctab pid).prsem
    (k.setCount sem ((k.semtab sem).scount + 1)).getitem pid
  | .ready => k.getitem pid
  | _ => k

/-- The stack is freed and the process taken out of the system.  Closing the descriptors
before that does nothing, they are the console. -/
def remove (pid : Int) : Kernel Q :=
  let r := k.memory.freestk (k.proctab pid).prstkbase (k.proctab pid).prstklen
  let k' := ({ k with memory := r.2 }.note (.freesStack pid r.1)).detach pid
  ((k'.setState pid .free).note (.freed k.currpid pid)).setContext k.currpid .user

/-- `kill` after `send`.  Who kills itself does not come back. -/
def killRest (pid : Int) : Option UInt32 × Kernel Q :=
  if (k.proctab pid).prstate = .curr then (none, (k.remove pid).resched)
  else (some sysOk, k.remove pid)

end Kernel

end NatBox
