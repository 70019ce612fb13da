import NatBox.Kernel.Process
import NatBox.Lib.Runs

/-
The kernel calls, the clock interrupt and the steps of the system.

A step is a call made by the current process, a clock interrupt, or the rest of a call
that reached `resched`, once its process is current (again).  Interrupts are disabled in
a call, so that the first two need a current process which is in its program.

`nulluser` promises that the null process never does what might suspend it.  The steps
refuse the calls of it that might.
-/

namespace NatBox

open Function Runs

inductive Syscall
  | create (ssize : UInt32) (priority : Int16)
  | kill (pid : Int)
  | resume (pid : Int)
  | suspend (pid : Int)
  | yield
  | chprio (pid : Int) (newprio : Int16)
  | sleepms (delay : Int32)
  | send (pid : Int) (msg : UInt32)
  | receive
  | recvtime (maxwait : Int32)
  | recvclr
  | semcreate (count : Int32)
  | semdelete (sem : Int)
  | semreset (sem : Int) (count : Int32)
  | wait (sem : Int)
  | signal (sem : Int)
  | signaln (sem : Int) (count : Int32)

inductive KernelEvent
  | call (c : Syscall)
  | proceed
  | clock

/-- Why there is no step: `halted` is `xdone`, the others are steps that do not occur. -/
inductive NoStep
  | halted
  | inCall
  | notInCall
  | nullBlocks
  deriving DecidableEq

/-- The calls that might suspend their caller. -/
def Syscall.mayBlock : Syscall → Bool
  | .wait _ | .receive | .recvtime _ => true
  | .sleepms delay => delay ≠ 0
  | _ => false

namespace Kernel

variable {Q : Type} [QueueTable Q] (k : Kernel Q)

def create (ssize : UInt32) (priority : Int16) : UInt32 × Kernel Q :=
  if priority < 1 then (sysErr, k)
  else
    match k.newpidLoop nproc.toNat k.nextpid with
    | (next, none) => (sysErr, { k with nextpid := next })
    | (next, some pid) =>
      match k.memory.getstk (stackSize ssize) with
      | (none, memory) => (sysErr, { k with nextpid := next, memory := memory })
      | (some saddr, memory) =>
        let k' := { k with nextpid := next, memory := memory, prcount := k.prcount + 1 }
        (UInt32.ofNat pid.toNat,
          ((k'.setProc pid (k.newProc pid priority.toInt saddr (stackSize ssize))).setContext pid
            .user).note (.created pid priority.toInt))

/-- `kill` refuses: no such process, or the null process. -/
def killBad (pid : Int) : Bool :=
  k.isbadpid pid || pid = nullproc || (k.proctab pid).prstate = .free

/-- A process has one process less to count and a kill to finish. -/
def startKill (pid : Int) : Kernel Q :=
  ({ k with prcount := k.prcount - 1 }.note (.kills k.currpid pid)).setContext k.currpid (.kill pid)

/-- `kill` up to where `send` comes back. -/
def kill (pid : Int) : Except NoStep (Option UInt32 × Kernel Q) :=
  if k.killBad pid then .ok (some sysErr, k)
  else if (k.startKill pid).prcount ≤ 1 then .error .halted
  else .ok (none, (k.startKill pid).send (k.proctab pid).prparent (UInt32.ofNat pid.toNat))

def prioResult (prio : Int) : UInt32 := (Int32.ofInt prio).toUInt32

def resume (pid : Int) : Option UInt32 × Kernel Q :=
  if k.isbadpid pid then (some sysErr, k)
  else if (k.proctab pid).prstate ≠ .susp then (some sysErr, k)
  else
    (none, (k.setContext k.currpid (.returns (prioResult (k.proctab pid).prprio))).ready pid)

def suspend (pid : Int) : Option UInt32 × Kernel Q :=
  if k.isbadpid pid || pid = nullproc then (some sysErr, k)
  else
    match (k.proctab pid).prstate with
    | .ready =>
      (some (prioResult (k.proctab pid).prprio),
        ((k.getitem pid).setState pid .susp).note (.suspends pid))
    | .curr => (none, ((k.setState pid .susp).note (.suspends pid)).leave (.suspend pid))
    | _ => (some sysErr, k)

def chprio (pid : Int) (newprio : Int16) : UInt32 × Kernel Q :=
  if k.isbadpid pid then (sysErr, k)
  else
    (prioResult (k.proctab pid).prprio,
      (k.setProc pid { k.proctab pid with prprio := newprio.toInt }).note
        (.changesPrio pid newprio.toInt))

/-- The current process goes to sleep, or waits for a message, for `delay`. -/
def sleepFor (delay : Int) (st : PrState) (c : Context) : Option UInt32 × Kernel Q :=
  match k.insertd k.currpid sleepq delay with
  | none => (some sysErr, k)
  | some k' => (none, ((k'.setState k'.currpid st).note (.sleeps k'.currpid delay)).leave c)

def sleepms (delay : Int32) : Option UInt32 × Kernel Q :=
  if delay < 0 then (some sysErr, k)
  else if delay = 0 then (none, k.leave (.returns sysOk))
  else k.sleepFor delay.toInt .sleep (.returns sysOk)

def receive : Option UInt32 × Kernel Q :=
  if (k.proctab k.currpid).prhasmsg = false then
    (none, (k.setState k.currpid .recv).leave .receive)
  else (some k.takeMsg.1, k.takeMsg.2)

def recvtime (maxwait : Int32) : Option UInt32 × Kernel Q :=
  if maxwait < 0 then (some sysErr, k)
  else if (k.proctab k.currpid).prhasmsg = false then
    k.sleepFor maxwait.toInt .rectim .recvtime
  else (some k.recvtimeRest.1, k.recvtimeRest.2)

def recvclr : UInt32 × Kernel Q :=
  if (k.proctab k.currpid).prhasmsg then k.takeMsg else (sysOk, k)

/-- The loop of `newsem`: where to go on and the free entry. -/
def newsemLoop : Nat → Int → Int × Option Int
  | 0, next => (next, none)
  | fuel + 1, next =>
    let next' := if next + 1 ≥ nsem then 0 else next + 1
    if (k.semtab next).used then newsemLoop fuel next' else (next', some next)

def semcreate (count : Int32) : UInt32 × Kernel Q :=
  if count < 0 then (sysErr, k)
  else
    match k.newsemLoop nsem.toNat k.nextsem with
    | (next, none) => (sysErr, { k with nextsem := next })
    | (next, some sem) =>
      (UInt32.ofNat sem.toNat,
        (({ k with nextsem := next }.setUsed sem true).setCount sem count.toInt))

def semdelete (sem : Int) : Option UInt32 × Kernel Q :=
  if isbadsem sem || !(k.semtab sem).used then (some sysErr, k)
  else
    let k' := ((k.setContext k.currpid (.returns sysOk)).setUsed sem false).deferStart
    (none, (semdeleteLoop sem ((-(k.semtab sem).scount).toNat + 1) k').deferStop)

def semreset (sem : Int) (count : Int32) : Option UInt32 × Kernel Q :=
  if count < 0 || isbadsem sem || !(k.semtab sem).used then (some sysErr, k)
  else
    let k' := (k.setContext k.currpid (.returns sysOk)).deferStart
    (none, ((semresetLoop sem (nproc.toNat + 1) k').setCount sem count.toInt).deferStop)

def wait (sem : Int) : Option UInt32 × Kernel Q :=
  if isbadsem sem || !(k.semtab sem).used then (some sysErr, k)
  else
    let k' := k.setCount sem ((k.semtab sem).scount - 1)
    if (k'.semtab sem).scount < 0 then
      let k' := k'.setProc k.currpid { k.proctab k.currpid with prstate := .wait, prsem := sem }
      let k' := (k'.enqueue k.currpid (k.semtab sem).squeue).note (.waits k.currpid sem)
      (none, k'.leave (.returns sysOk))
    else (some sysOk, k')

def signal (sem : Int) : Option UInt32 × Kernel Q :=
  if isbadsem sem || !(k.semtab sem).used then (some sysErr, k)
  else if (k.semtab sem).scount < 0 then
    (none, (k.setContext k.currpid (.returns sysOk)).signalOnce sem)
  else (some sysOk, k.signalOnce sem)

def signaln (sem : Int) (count : Int32) : Option UInt32 × Kernel Q :=
  if isbadsem sem || count < 0 then (some sysErr, k)
  else if !(k.semtab sem).used then (some sysErr, k)
  else
    let k' := (k.setContext k.currpid (.returns sysOk)).deferStart
    (none, (signalTimes sem count.toInt.toNat k').deferStop)

def syscall (c : Syscall) : Except NoStep (Option UInt32 × Kernel Q) :=
  match c with
  | .create ssize priority => .ok (some (k.create ssize priority).1, (k.create ssize priority).2)
  | .kill pid => k.kill pid
  | .resume pid => .ok (k.resume pid)
  | .suspend pid => .ok (k.suspend pid)
  | .yield => .ok (none, k.leave (.returns sysOk))
  | .chprio pid newprio => .ok (some (k.chprio pid newprio).1, (k.chprio pid newprio).2)
  | .sleepms delay => .ok (k.sleepms delay)
  | .send pid msg =>
    if k.sendBad pid then .ok (some sysErr, k)
    else .ok (none, (k.setContext k.currpid (.returns sysOk)).deliver pid msg)
  | .receive => .ok k.receive
  | .recvtime maxwait => .ok (k.recvtime maxwait)
  | .recvclr => .ok (some k.recvclr.1, k.recvclr.2)
  | .semcreate count => .ok (some (k.semcreate count).1, (k.semcreate count).2)
  | .semdelete sem => .ok (k.semdelete sem)
  | .semreset sem count => .ok (k.semreset sem count)
  | .wait sem => .ok (k.wait sem)
  | .signal sem => .ok (k.signal sem)
  | .signaln sem count => .ok (k.signaln sem count)

/-- The rest of a call. -/
def proceed : Except NoStep (Option UInt32 × Kernel Q) :=
  match k.context k.currpid with
  | .user => .error .notInCall
  | .returns value => .ok (some value, k.setContext k.currpid .user)
  | .suspend pid =>
    .ok (some (prioResult (k.proctab pid).prprio), k.setContext k.currpid .user)
  | .receive =>
    let (msg, k') := k.takeMsg
    .ok (some msg, k'.setContext k.currpid .user)
  | .recvtime =>
    let (msg, k') := k.recvtimeRest
    .ok (some msg, k'.setContext k.currpid .user)
  | .kill pid => .ok (k.killRest pid)
  | .clkhandler => .ok (none, k.countPreempt)

/-- The result is what the process that was current gets back, if its call ends in the
step. -/
def step (k : Kernel Q) : KernelEvent → Except NoStep (Option UInt32 × Kernel Q)
  | .call c =>
    if k.context k.currpid ≠ .user then .error .inCall
    else if k.currpid = nullproc ∧ c.mayBlock then .error .nullBlocks
    else k.syscall c
  | .proceed => k.proceed
  | .clock =>
    if k.context k.currpid ≠ .user then .error .inCall else .ok (none, k.clkhandler)

end Kernel

/-! ## The start -/

/-- `NULLSTK` -/
def nullstk : Nat := 8192

/-- The calls of `newqueue`: one for each semaphore, the ready list and the queue of
sleeping processes. -/
def Queuetab.init : Queuetab :=
  (List.range 102).foldl (fun t i => t.newqueue (nproc + 2 * i))
    ⟨fun _ => 0, fun _ => 0, fun _ => 0⟩

/-- An entry of `proctab` that is free. -/
def freeProc : Procent := ⟨.free, 0, 0, 0, 0, 0, 0, false⟩

/-- The null process, with its stack at `saddr`. -/
def nullProc (saddr : Nat) : Procent := ⟨.curr, 0, saddr, nullstk, 0, 0, 0, false⟩

/-- `sysinit`, given the heap of `meminit`.  The null process takes its stack from it;
`getstk` returns `SYSERR` where it has no room for that. -/
def sysinit {Q : Type} (queuetab : Q) (heap : Heap) : Kernel Q where
  queuetab := queuetab
  proctab := update (fun _ => freeProc) nullproc
    (nullProc ((heap.getstk nullstk).1.getD sysErr.toNat))
  semtab sem := ⟨false, 0, nproc + 2 * sem⟩
  currpid := nullproc
  prcount := 1
  ndefers := 0
  attempt := false
  preempt := quantum
  nextpid := 1
  nextsem := 0
  memory := (heap.getstk nullstk).2
  context _ := .user
  history := [.created nullproc 0]

end NatBox
