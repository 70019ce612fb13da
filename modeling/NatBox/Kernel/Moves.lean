import NatBox.Kernel.Calls

/-
What can happen to processes: the moves of the kernel over queues that are lists.

`Move` has one case for each thing the kernel does to a process, with what it makes sure
of before it does it.  `Good` says that the states of the processes and the queues agree,
and is kept by every move.
-/

namespace NatBox

open Function

theorem IsQueue.not_bad {q : Int} (hq : IsQueue q) : isbadqid q = false := by
  have h := hq.1
  have h' := hq.2.1
  unfold isbadqid
  simp only [Bool.or_eq_false_iff, decide_eq_false_iff_not]
  omega

theorem isQueue_readylist : IsQueue readylist := by
  unfold IsQueue
  decide

theorem isQueue_sleepq : IsQueue sleepq := by
  unfold IsQueue
  decide

theorem isQueue_sem {s : Int} (h : 0 ≤ s ∧ s < nsem) : IsQueue (nproc + 2 * s) := by
  unfold nsem at h
  unfold IsQueue nproc nqent
  omega

/-- The queue a process in this state is on. -/
def Procent.home (entry : Procent) (semtab : Int → Sentry) : Option Int :=
  match entry.prstate with
  | .ready => some readylist
  | .wait => some (semtab entry.prsem).squeue
  | .sleep | .rectim => some sleepq
  | _ => none

/-- How often the clock has ticked since the process went to sleep. -/
def ticksSince (p : Int) : List Happening → Nat
  | [] => 0
  | .tick :: h => ticksSince p h + 1
  | .sleeps p' _ :: h => if p' = p then 0 else ticksSince p h
  | _ :: h => ticksSince p h

def Context.isKill : Context → Bool
  | .kill _ => true
  | _ => false

namespace Kernel

/-! ## The same state over another table of queues -/

section Fields

variable {Q Q' : Type} (k : Kernel Q)

def withQueues (t : Q') : Kernel Q' where
  queuetab := t
  proctab := k.proctab
  semtab := k.semtab
  currpid := k.currpid
  prcount := k.prcount
  ndefers := k.ndefers
  attempt := k.attempt
  preempt := k.preempt
  nextpid := k.nextpid
  nextsem := k.nextsem
  memory := k.memory
  context := k.context
  history := k.history

def home (p : Int) : Option Int := (k.proctab p).home k.semtab

/-- The stack of a process is given back. -/
def stackFreed (p : Int) : Kernel Q :=
  { k with memory := (k.memory.freestk (k.proctab p).prstkbase (k.proctab p).prstklen).2 }.note
    (.freesStack p (k.memory.freestk (k.proctab p).prstkbase (k.proctab p).prstklen).1)

end Fields

/-! ## What the operations come to -/

section Equations

variable {Q : Type} {k : Kernel Q} {p q : Int}

theorem isbadpid_iff : k.isbadpid p = true ↔ ¬ IsPid p ∨ (k.proctab p).prstate = .free := by
  unfold isbadpid IsPid nproc
  simp only [Bool.or_eq_true, decide_eq_true_eq]
  refine or_congr_left ?_
  omega

theorem isbadpid_false : k.isbadpid p = false ↔ IsPid p ∧ (k.proctab p).prstate ≠ .free := by
  rw [← Bool.not_eq_true, isbadpid_iff, not_or, not_not]

variable [QueueTable Q]

theorem makeReady_eq (hp : IsPid p) :
    k.makeReady p = ((k.setState p .ready).setQueues
      (QueueTable.insert k.queuetab p readylist (k.proctab p).prprio)).note (.readied p) := by
  have hbad : (k.setState p .ready).isbadpid p = false := by
    rw [isbadpid_false]
    refine ⟨hp, ?_⟩
    simp [setState, setProc]
  unfold makeReady insert
  rw [IsQueue.not_bad isQueue_readylist, hbad]
  rfl

theorem isempty_false (h : QueueTable.firstid k.queuetab q = p) (hp : IsPid p) :
    k.isempty q = false := by
  unfold isempty
  rw [h]
  simpa using hp.2

theorem getfirst_eq (h : QueueTable.firstid k.queuetab q = p) (hp : IsPid p) :
    k.getfirst q = (p, k.getitem p) := by
  unfold getfirst
  rw [isempty_false h hp, h]
  rfl

theorem dequeue_eq (hq : IsQueue q) (h : QueueTable.firstid k.queuetab q = p) (hp : IsPid p) :
    k.dequeue q =
      (p, k.setQueues (QueueTable.clear (QueueTable.getitem k.queuetab p) p)) := by
  unfold dequeue
  rw [hq.not_bad, isempty_false h hp, getfirst_eq h hp]
  rfl

theorem dispatch_eq (h : QueueTable.firstid k.queuetab readylist = p) (hp : IsPid p) :
    k.dispatch =
      ({ k with
          queuetab := QueueTable.clear (QueueTable.getitem k.queuetab p) p
          currpid := p
          preempt := quantum }.setState p .curr).note (.runs p) := by
  unfold dispatch
  rw [dequeue_eq isQueue_readylist h hp]
  rfl

theorem enqueue_eq (hq : IsQueue q) (hp : IsPid p) (hs : (k.proctab p).prstate ≠ .free) :
    k.enqueue p q = k.setQueues (QueueTable.enqueue k.queuetab p q) := by
  unfold enqueue
  rw [hq.not_bad, isbadpid_false.mpr ⟨hp, hs⟩]
  rfl

theorem insertd_eq (hq : IsQueue q) (hp : IsPid p) (hs : (k.proctab p).prstate ≠ .free)
    (delay : Int) :
    k.insertd p q delay = some (k.setQueues (QueueTable.insertd k.queuetab p q delay)) := by
  unfold insertd
  rw [hq.not_bad, isbadpid_false.mpr ⟨hp, hs⟩]
  rfl

end Equations

/-! ## States and queues agree -/

/-- What holds of the processes, the semaphores and the queues, `home` being where the
queues have each process. -/
structure Coherent (a : Kernel QueueLists) (home : Int → Option Int) : Prop where
  placed : Placed a.queuetab home
  curr : ∀ p, IsPid p → (a.proctab p).prstate = .curr → p = a.currpid
  currpid : IsPid a.currpid
  null : (a.proctab nullproc).prstate = .curr ∨ (a.proctab nullproc).prstate = .ready
  squeue : ∀ s, 0 ≤ s ∧ s < nsem → (a.semtab s).squeue = nproc + 2 * s
  prsem : ∀ p, IsPid p → (a.proctab p).prstate = .wait →
    0 ≤ (a.proctab p).prsem ∧ (a.proctab p).prsem < nsem
  prio : ∀ p, minkey < (a.proctab p).prprio
  count : ∀ s, 0 ≤ s ∧ s < nsem →
    ((a.queuetab.lists (nproc + 2 * s)).length : Int) = max 0 (-(a.semtab s).scount)

/-- Every process is on the queue its state says. -/
abbrev Good (a : Kernel QueueLists) : Prop := Coherent a a.home

/-- The first process of a queue, taken off it. -/
abbrev pop (a : Kernel QueueLists) (p : Int) : Kernel QueueLists :=
  a.setQueues (QueueTable.getitem a.queuetab p)

/-- What the kernel does to processes. -/
inductive Move (a : Kernel QueueLists) : Kernel QueueLists → Prop
  | idle (ndefers : Int) (attempt : Bool) (preempt : UInt32) (nextpid : Int) :
      Move a { a with
        ndefers := ndefers
        attempt := attempt
        preempt := preempt
        nextpid := nextpid }
  | nextsem (next : Int) : 0 ≤ next ∧ next < nsem → Move a { a with nextsem := next }
  | context (c : Context) : c.isKill = false → c ≠ .receive →
      (a.context a.currpid).isKill = false → Move a (a.setContext a.currpid c)
  | dispatch : (a.proctab a.currpid).prstate ≠ .curr → Move a a.dispatch
  | stays : (a.proctab a.currpid).prstate = .curr →
      a.firstkey readylist < (a.proctab a.currpid).prprio → Move a (a.note .stays)
  | requeue : (a.proctab a.currpid).prstate = .curr → Move a (a.makeReady a.currpid)
  | readies (p : Int) : IsPid p →
      (a.proctab p).prstate = .susp ∨
        ((a.proctab p).prstate = .recv ∧ (a.proctab p).prhasmsg = true) →
      Move a (a.makeReady p)
  | signals (s p : Int) (l : List Int) : 0 ≤ s ∧ s < nsem → (a.semtab s).scount < 0 →
      a.queuetab.lists (nproc + 2 * s) = p :: l →
      Move a ((((a.setCount s ((a.semtab s).scount + 1)).pop p).note (.releases p s)).makeReady p)
  | wakes (p : Int) (l : List Int) : a.queuetab.lists sleepq = p :: l → a.queuetab.key p ≤ 0 →
      1 ≤ ticksSince p a.history → Move a (((a.pop p).note (.wakes p)).makeReady p)
  | unsleeps (p : Int) : IsPid p → (a.proctab p).prstate = .rectim →
      Move a ((a.unsleep p).makeReady p)
  | waits (s : Int) : 0 ≤ s ∧ s < nsem → (a.semtab s).used = true → (a.semtab s).scount ≤ 0 →
      (a.proctab a.currpid).prstate = .curr → a.currpid ≠ nullproc →
      Move a ((((a.setCount s ((a.semtab s).scount - 1)).setProc a.currpid
        { a.proctab a.currpid with prstate := .wait, prsem := s }).setQueues
          (QueueTable.enqueue a.queuetab a.currpid (nproc + 2 * s))).note (.waits a.currpid s))
  | sleeps (delay : Int) (st : PrState) : st = .sleep ∨ st = .rectim →
      0 ≤ delay → delay < 2 ^ 31 → (a.proctab a.currpid).prstate = .curr →
      a.currpid ≠ nullproc →
      Move a (((a.setQueues (QueueTable.insertd a.queuetab a.currpid sleepq delay)).setState
        a.currpid st).note (.sleeps a.currpid delay))
  | receives : (a.proctab a.currpid).prstate = .curr → a.currpid ≠ nullproc →
      (a.context a.currpid).isKill = false →
      Move a ((a.setState a.currpid .recv).setContext a.currpid .receive)
  | suspends (p : Int) : IsPid p → p ≠ nullproc →
      (a.proctab p).prstate = .ready ∨ (a.proctab p).prstate = .curr →
      Move a (((a.getitem p).setState p .susp).note (.suspends p))
  | sends (p : Int) (msg : UInt32) : IsPid p → (a.proctab p).prstate ≠ .free →
      (a.proctab p).prhasmsg = false →
      Move a ((a.setProc p { a.proctab p with prmsg := msg, prhasmsg := true }).note (.sent p msg))
  | takes : (a.proctab a.currpid).prhasmsg = true → (a.proctab a.currpid).prstate = .curr →
      a.context a.currpid ≠ .receive → Move a a.takeMsg.2
  | timesOut : (a.proctab a.currpid).prhasmsg = false → Move a (a.note (.timesOut a.currpid))
  | creates (p prio : Int) (saddr ssize : Nat) (memory : Heap) : IsPid p →
      (a.proctab p).prstate = .free → minkey < prio → ssize ≤ 2 ^ 32 - 8 →
      a.memory.getstk ssize = (some saddr, memory) →
      Move a ((({ a with memory := memory, prcount := a.prcount + 1 }.setProc p
        (a.newProc p prio saddr ssize)).setContext p .user).note (.created p prio))
  | counts (s count : Int) : 0 ≤ s ∧ s < nsem →
      0 ≤ (a.semtab s).scount ∨ a.queuetab.lists (nproc + 2 * s) = [] → 0 ≤ count →
      Move a (a.setCount s count)
  | used (s : Int) : 0 ≤ s ∧ s < nsem → Move a (a.setUsed s true)
  | frees (s : Int) : 0 ≤ s ∧ s < nsem → 0 ≤ (a.semtab s).scount → Move a (a.setUsed s false)

/-! ## Moves keep the agreement -/

section Homes

variable {Q : Type} (k : Kernel Q)

theorem home_setProc (p : Int) (entry : Procent) :
    (k.setProc p entry).home = update k.home p (entry.home k.semtab) := by
  funext x
  by_cases hx : x = p
  · subst hx
    simp [home, setProc]
  · simp [home, setProc, hx]

theorem home_of_semtab {k k' : Kernel Q} (hp : k'.proctab = k.proctab)
    (hs : ∀ s, (k'.semtab s).squeue = (k.semtab s).squeue) : k'.home = k.home := by
  funext x
  simp only [home, Procent.home, hp, hs]

theorem squeue_setCount (s c x : Int) :
    ((k.setCount s c).semtab x).squeue = (k.semtab x).squeue := by
  by_cases hx : x = s
  · subst hx
    simp [setCount]
  · simp [setCount, hx]

theorem squeue_setUsed (s x : Int) (u : Bool) :
    ((k.setUsed s u).semtab x).squeue = (k.semtab x).squeue := by
  by_cases hx : x = s
  · subst hx
    simp [setUsed]
  · simp [setUsed, hx]

end Homes

section Good

variable {a b : Kernel QueueLists} {home : Int → Option Int} {p : Int}

/-- What `Coherent` reads. -/
theorem Coherent.congr (h : Coherent a home) (hq : b.queuetab = a.queuetab)
    (hp : b.proctab = a.proctab) (hs : b.semtab = a.semtab) (hc : b.currpid = a.currpid) :
    Coherent b home where
  placed := by rw [hq]; exact h.placed
  curr := by rw [hp, hc]; exact h.curr
  currpid := by rw [hc]; exact h.currpid
  null := by rw [hp]; exact h.null
  squeue := by rw [hs]; exact h.squeue
  prsem := by rw [hp]; exact h.prsem
  prio := by rw [hp]; exact h.prio
  count := by rw [hq, hs]; exact h.count

theorem Good.congr (h : Good a) (hq : b.queuetab = a.queuetab)
    (hp : b.proctab = a.proctab) (hs : b.semtab = a.semtab) (hc : b.currpid = a.currpid) :
    Good b := by
  have hb := Coherent.congr h hq hp hs hc
  have hhome : b.home = a.home := home_of_semtab hp fun s => by rw [hs]
  rwa [← hhome] at hb

theorem home_none
    (hs : (a.proctab p).prstate ≠ .ready ∧ (a.proctab p).prstate ≠ .wait ∧
      (a.proctab p).prstate ≠ .sleep ∧ (a.proctab p).prstate ≠ .rectim) : a.home p = none := by
  unfold Kernel.home Procent.home
  cases hst : (a.proctab p).prstate <;> simp_all

/-- Another queue than those of the semaphores changes. -/
theorem Coherent.sem_length (h : Coherent a home) {q s : Int} {l : List Int}
    (hs : 0 ≤ s ∧ s < nsem) (hq : q ≠ nproc + 2 * s) :
    ((update a.queuetab.lists q l (nproc + 2 * s)).length : Int) =
      max 0 (-(a.semtab s).scount) := by
  rw [update_of_ne hq.symm]
  exact h.count s hs

theorem readylist_ne {s : Int} (hs : 0 ≤ s ∧ s < nsem) : readylist ≠ nproc + 2 * s := by
  unfold nsem at hs
  unfold readylist nproc
  omega

theorem sleepq_ne {s : Int} (hs : 0 ≤ s ∧ s < nsem) : sleepq ≠ nproc + 2 * s := by
  unfold nsem at hs
  unfold sleepq nproc
  omega

theorem makeReady_history {Q : Type} [QueueTable Q] (k : Kernel Q) (p : Int) :
    (k.makeReady p).history = .readied p :: k.history := by
  unfold makeReady insert
  split <;> rfl

theorem makeReady_lists (hp : IsPid p) {q : Int} (hq : q ≠ readylist) :
    (a.makeReady p).queuetab.lists q = a.queuetab.lists q := by
  rw [makeReady_eq hp]
  exact update_of_ne hq _ _

/-- A process that is on no queue becomes ready. -/
theorem Coherent.makeReady (h : Coherent a home) (hp : IsPid p) (hnone : home p = none)
    (hhome : ∀ x, x ≠ p → home x = a.home x) : Good (a.makeReady p) := by
  have hnew : (a.makeReady p).home = update home p (some readylist) := by
    rw [makeReady_eq hp]
    funext x
    by_cases hx : x = p
    · subst hx
      simp [Kernel.home, Procent.home, note, setQueues, setState, setProc]
    · rw [update_of_ne hx, hhome x hx]
      simp [Kernel.home, note, setQueues, setState, setProc, hx]
  unfold Good
  rw [hnew, makeReady_eq hp]
  exact
    { placed := h.placed.insert hp hnone _
      curr := fun x hx hst => by
        by_cases hxp : x = p
        · subst hxp
          simp [note, setQueues, setState, setProc] at hst
        · refine h.curr x hx ?_
          simpa [note, setQueues, setState, setProc, hxp] using hst
      currpid := h.currpid
      null := by
        by_cases hnp : nullproc = p
        · subst hnp
          simp [note, setQueues, setState, setProc]
        · simpa [note, setQueues, setState, setProc, hnp] using h.null
      squeue := h.squeue
      prsem := fun x hx hst => by
        by_cases hxp : x = p
        · subst hxp
          simp [note, setQueues, setState, setProc] at hst
        · have hst : (a.proctab x).prstate = .wait := by
            simpa [note, setQueues, setState, setProc, hxp] using hst
          simpa [note, setQueues, setState, setProc, hxp] using h.prsem x hx hst
      prio := fun x => by
        by_cases hxp : x = p
        · subst hxp
          simpa [note, setQueues, setState, setProc] using h.prio x
        · simpa [note, setQueues, setState, setProc, hxp] using h.prio x
      count := fun s hs => h.sem_length hs (readylist_ne hs) }

theorem Coherent.setProc (h : Coherent a home) (p : Int) (entry : Procent)
    (hcurr : entry.prstate = .curr → p = a.currpid)
    (hnull : p = nullproc → entry.prstate = .curr ∨ entry.prstate = .ready)
    (hwait : entry.prstate = .wait → 0 ≤ entry.prsem ∧ entry.prsem < nsem)
    (hprio : minkey < entry.prprio) : Coherent (a.setProc p entry) home where
  placed := h.placed
  curr x hx hst := by
    by_cases hxp : x = p
    · subst hxp
      exact hcurr (by simpa [Kernel.setProc] using hst)
    · exact h.curr x hx (by simpa [Kernel.setProc, hxp] using hst)
  currpid := h.currpid
  null := by
    by_cases hnp : nullproc = p
    · simpa [Kernel.setProc, hnp] using hnull hnp.symm
    · simpa [Kernel.setProc, hnp] using h.null
  squeue := h.squeue
  prsem x hx hst := by
    by_cases hxp : x = p
    · subst hxp
      simpa [Kernel.setProc] using hwait (by simpa [Kernel.setProc] using hst)
    · simpa [Kernel.setProc, hxp] using h.prsem x hx (by simpa [Kernel.setProc, hxp] using hst)
  prio x := by
    by_cases hxp : x = p
    · subst hxp
      simpa [Kernel.setProc] using hprio
    · simpa [Kernel.setProc, hxp] using h.prio x
  count := h.count

/-- The agreement once the state of a process says where the queues have it. -/
theorem Coherent.good (home : Int → Option Int) (h : Coherent a home)
    (hhome : ∀ x, a.home x = home x) : Good a := by
  have heq : a.home = home := funext hhome
  unfold Good
  rwa [heq]

/-- A process leaves a queue that is not one of a semaphore. -/
theorem Coherent.pop (h : Coherent a home)
    (hsem : ∀ s, 0 ≤ s ∧ s < nsem → home p ≠ some (nproc + 2 * s)) :
    Coherent (a.pop p) (update home p none) :=
  { h with
    placed := h.placed.getitem
    count := fun s hs => by
      show (((a.queuetab.lists (nproc + 2 * s)).erase p).length : Int) = _
      rw [List.erase_of_not_mem fun hmem => hsem s hs (h.placed.home_eq hmem)]
      exact h.count s hs }

/-- A process leaves the queue of a semaphore, which counts one more. -/
theorem Coherent.popSem (h : Coherent a home) {s : Int} (hs : 0 ≤ s ∧ s < nsem)
    (hp : p ∈ a.queuetab.lists (nproc + 2 * s)) :
    Coherent ((a.setCount s ((a.semtab s).scount + 1)).pop p) (update home p none) :=
  { h with
    placed := h.placed.getitem
    squeue := fun x hx => (squeue_setCount a s _ x).trans (h.squeue x hx)
    count := fun x hx => by
      have hlen := h.count x hx
      show (((a.queuetab.lists (nproc + 2 * x)).erase p).length : Int) =
        max 0 (-((a.setCount s ((a.semtab s).scount + 1)).semtab x).scount)
      by_cases hxs : x = s
      · subst hxs
        have hpos := List.length_pos_of_mem hp
        rw [List.length_erase_of_mem hp]
        simp only [Kernel.setCount, update_self]
        omega
      · have hnot : p ∉ a.queuetab.lists (nproc + 2 * x) := fun hmem => by
          have heq := (h.placed.home_eq hmem).symm.trans (h.placed.home_eq hp)
          rw [Option.some.injEq] at heq
          omega
        rw [List.erase_of_not_mem hnot, hlen]
        simp [Kernel.setCount, hxs] }

theorem Good.home_eq (h : Good a) {q : Int} (hp : p ∈ a.queuetab.lists q) : a.home p = some q :=
  h.placed.home_eq hp

/-- A state and the queue of who is in it. -/
theorem Good.mem_of_home (h : Good a) (hp : IsPid p) {q : Int} (hh : a.home p = some q) :
    p ∈ a.queuetab.lists q := (h.placed.mem q p).mpr ⟨hp, hh⟩

theorem home_of_ready (h : (a.proctab p).prstate = .ready) : a.home p = some readylist := by
  simp [Kernel.home, Procent.home, h]

theorem home_of_sleeping (h : (a.proctab p).prstate = .sleep ∨ (a.proctab p).prstate = .rectim) :
    a.home p = some sleepq := by
  rcases h with h | h <;> simp [Kernel.home, Procent.home, h]

theorem Good.home_of_wait (h : Good a) (hp : IsPid p) (hst : (a.proctab p).prstate = .wait) :
    a.home p = some (nproc + 2 * (a.proctab p).prsem) := by
  simp only [Kernel.home, Procent.home, hst]
  rw [h.squeue _ (h.prsem p hp hst)]

theorem isPid_nullproc : IsPid nullproc := by
  unfold IsPid nproc
  decide

/-- Somebody is ready whenever the current process is not eligible. -/
theorem Good.ready_ne_nil (h : Good a) (hst : (a.proctab a.currpid).prstate ≠ .curr) :
    ∃ p l, a.queuetab.lists readylist = p :: l := by
  have hnull : (a.proctab nullproc).prstate = .ready := by
    refine h.null.resolve_left fun hc => hst ?_
    rwa [← h.curr nullproc isPid_nullproc hc]
  have hmem := h.mem_of_home isPid_nullproc (home_of_ready hnull)
  cases hl : a.queuetab.lists readylist with
  | nil => simp [hl] at hmem
  | cons p l => exact ⟨p, l, rfl⟩

theorem firstid_of_cons {q : Int} {l : List Int} (hl : a.queuetab.lists q = p :: l) :
    QueueTable.firstid a.queuetab q = p := by
  show (a.queuetab.lists q).headD (q + 1) = p
  rw [hl, List.headD_cons]

/-- The dispatcher has a process to run. -/
theorem Good.dispatches (h : Good a) (hst : (a.proctab a.currpid).prstate ≠ .curr) :
    ∃ p l, a.queuetab.lists readylist = p :: l ∧ p ∈ a.queuetab.lists readylist ∧ a.dispatch =
      ({ a with
          queuetab := QueueTable.clear (QueueTable.getitem a.queuetab p) p
          currpid := p
          preempt := quantum }.setState p .curr).note (.runs p) := by
  obtain ⟨p, l, hl⟩ := h.ready_ne_nil hst
  have hmem : p ∈ a.queuetab.lists readylist := by simp [hl]
  exact ⟨p, l, hl, hmem, dispatch_eq (firstid_of_cons hl) (h.placed.isPid hmem)⟩

theorem Good.dispatch (h : Good a) (hst : (a.proctab a.currpid).prstate ≠ .curr) :
    Good a.dispatch := by
  obtain ⟨p, -, -, hmem, heq⟩ := h.dispatches hst
  have hp := h.placed.isPid hmem
  rw [heq]
  have hpop : Coherent (a.pop p) (update a.home p none) := h.pop fun s hs heq => by
    rw [h.home_eq hmem] at heq
    exact readylist_ne hs (Option.some.inj heq)
  have hcurr : Coherent { a.pop p with currpid := p, preempt := quantum }
      (update a.home p none) :=
    { hpop with
      curr := fun x hx hcx => absurd (h.curr x hx hcx ▸ hcx) hst
      currpid := hp }
  have hset := hcurr.setProc p { a.proctab p with prstate := .curr }
    (fun _ => rfl) (fun _ => .inl rfl) (fun h => nomatch h) (h.prio p)
  refine Coherent.good (update a.home p none) (hset.congr rfl rfl rfl rfl) fun x => ?_
  by_cases hx : x = p
  · subst hx
    simp [Kernel.home, Procent.home, note, Kernel.setState, Kernel.setProc]
  · simp [Kernel.home, note, Kernel.setState, Kernel.setProc, hx]

theorem nextIn_mem (tail p : Int) (l : List Int) :
    QueueLists.nextIn tail p l = tail ∨ QueueLists.nextIn tail p l ∈ l := by
  induction l with
  | nil => exact .inl rfl
  | cons x l ih =>
    rw [QueueLists.nextIn]
    split
    · cases l with
      | nil => exact .inl rfl
      | cons y l => exact .inr (by simp)
    · exact ih.imp id fun h => List.mem_cons_of_mem _ h

/-- A key is added to, of a process if of anything. -/
theorem Coherent.addKey (h : Coherent a home) {x : Int} (hx : IsPid x) (d : Int) :
    Coherent (a.setQueues (QueueTable.addKey a.queuetab x d)) home :=
  { h with placed := h.placed.addKey hx d }

/-- A sleeping process with the process behind it charged for the time that was left. -/
def charged (a : Kernel QueueLists) (p : Int) : Kernel QueueLists :=
  if QueueTable.behind a.queuetab sleepq p < nproc then
    a.setQueues (QueueTable.addKey a.queuetab (QueueTable.behind a.queuetab sleepq p)
      (a.queuetab.key p))
  else a

theorem unsleep_eq (hp : IsPid p)
    (hst : (a.proctab p).prstate = .sleep ∨ (a.proctab p).prstate = .rectim) :
    a.unsleep p = ((a.charged p).pop p).note (.unsleeps p) := by
  have hfree : (a.proctab p).prstate ≠ .free := by
    rcases hst with hst | hst <;> simp [hst]
  have hsleeps : ¬ ((a.proctab p).prstate ≠ .sleep ∧ (a.proctab p).prstate ≠ .rectim) := by
    rcases hst with hst | hst <;> simp [hst]
  unfold unsleep
  rw [isbadpid_false.mpr ⟨hp, hfree⟩, if_neg (by decide), if_neg hsleeps]
  rfl

theorem Good.charged (h : Good a) (p : Int) : Coherent (a.charged p) a.home := by
  unfold Kernel.charged
  split
  · rename_i hlt
    refine Coherent.addKey h ?_ _
    rcases nextIn_mem (sleepq + 1) p (a.queuetab.lists sleepq) with htail | hmem
    · have htail : QueueTable.behind a.queuetab sleepq p = sleepq + 1 := htail
      rw [htail] at hlt
      exact absurd hlt (by decide)
    · exact h.placed.isPid hmem
  · exact h

theorem Good.unsleep (h : Good a) (hp : IsPid p)
    (hst : (a.proctab p).prstate = .sleep ∨ (a.proctab p).prstate = .rectim) :
    Coherent (a.unsleep p) (update a.home p none) := by
  rw [unsleep_eq hp hst]
  refine Coherent.congr ((h.charged p).pop fun s hs heq => ?_) rfl rfl rfl rfl
  rw [home_of_sleeping hst] at heq
  exact sleepq_ne hs (Option.some.inj heq)

theorem charged_fields (p : Int) : (a.charged p).proctab = a.proctab ∧
    (a.charged p).semtab = a.semtab ∧ (a.charged p).currpid = a.currpid ∧
    (a.charged p).queuetab.lists = a.queuetab.lists := by
  unfold Kernel.charged
  split
  · exact ⟨rfl, rfl, rfl, rfl⟩
  · exact ⟨rfl, rfl, rfl, rfl⟩

theorem update_home_none (hnone : a.home p = none) : update a.home p none = a.home := by
  rw [← hnone]
  exact update_eq_self p a.home

/-- A process is taken out of where it is. -/
theorem Good.detach (h : Good a) (hp : IsPid p) :
    Coherent (a.detach p) (update a.home p none) := by
  unfold Kernel.detach
  cases hst : (a.proctab p).prstate with
  | sleep => exact h.unsleep hp (.inl hst)
  | rectim => exact h.unsleep hp (.inr hst)
  | wait => exact h.popSem (h.prsem p hp hst) (h.mem_of_home hp (h.home_of_wait hp hst))
  | ready =>
    refine h.pop fun s hs heq => ?_
    rw [home_of_ready hst] at heq
    exact readylist_ne hs (Option.some.inj heq)
  | free | curr | recv | susp =>
    rw [update_home_none (home_none (by simp [hst]))]
    exact h

theorem detach_fields (hp : IsPid p) : (a.detach p).proctab = a.proctab ∧
    (a.detach p).currpid = a.currpid ∧
    ∀ s, ((a.detach p).semtab s).squeue = (a.semtab s).squeue := by
  unfold Kernel.detach
  cases hst : (a.proctab p).prstate with
  | sleep =>
    have hf := charged_fields (a := a) p
    dsimp only
    rw [unsleep_eq hp (.inl hst)]
    exact ⟨hf.1, hf.2.2.1, fun s => congrArg Sentry.squeue (congrFun hf.2.1 s)⟩
  | rectim =>
    have hf := charged_fields (a := a) p
    dsimp only
    rw [unsleep_eq hp (.inr hst)]
    exact ⟨hf.1, hf.2.2.1, fun s => congrArg Sentry.squeue (congrFun hf.2.1 s)⟩
  | wait => exact ⟨rfl, rfl, fun s => squeue_setCount a _ _ s⟩
  | ready | free | curr | recv | susp => exact ⟨rfl, rfl, fun _ => rfl⟩

theorem remove_eq {Q : Type} [QueueTable Q] (k : Kernel Q) (p : Int) :
    k.remove p = ((((k.stackFreed p).detach p).setState p .free).note
      (.freed k.currpid p)).setContext k.currpid .user := rfl

theorem Good.remove (h : Good a) (hp : IsPid p) (hnull : p ≠ nullproc) : Good (a.remove p) := by
  have hb : Good (a.stackFreed p) := h.congr rfl rfl rfl rfl
  have hf := detach_fields (a := a.stackFreed p) hp
  have hset := (hb.detach hp).setProc p
    { ((a.stackFreed p).detach p).proctab p with prstate := .free } (fun h => nomatch h)
    (fun h => absurd h hnull) (fun h => nomatch h) ((hb.detach hp).prio p)
  rw [remove_eq]
  refine Coherent.good (update (a.stackFreed p).home p none) (hset.congr rfl rfl rfl rfl)
    fun x => ?_
  by_cases hx : x = p
  · subst hx
    simp [Kernel.home, Procent.home, note, setContext, Kernel.setState, Kernel.setProc]
  · simp [Kernel.home, Procent.home, note, setContext, Kernel.setState, Kernel.setProc, hx, hf]

theorem getitem_of_home_none (h : Good a) (hnone : a.home p = none) : a.getitem p = a := by
  have hlists : (fun q => (a.queuetab.lists q).erase p) = a.queuetab.lists := by
    funext q
    exact List.erase_of_not_mem (h.placed.not_mem hnone)
  show ({ a with queuetab := ⟨fun q => (a.queuetab.lists q).erase p, a.queuetab.key⟩ } :
    Kernel QueueLists) = a
  rw [hlists]

theorem Good.makeReady (h : Good a) (hp : IsPid p) (hnone : a.home p = none) :
    Good (a.makeReady p) := Coherent.makeReady h hp hnone fun _ _ => rfl

/-- A process that left its queue, if it was on one, becomes ready. -/
theorem Coherent.makeReady_popped (h : Coherent b (update a.home p none)) (hp : IsPid p)
    (hhome : b.home = a.home) : Good (b.makeReady p) := by
  refine h.makeReady hp (update_self _ _ _) fun x hx => ?_
  rw [update_of_ne hx, hhome]

theorem Good.signals (h : Good a) {s : Int} {l : List Int} (hs : 0 ≤ s ∧ s < nsem)
    (hl : a.queuetab.lists (nproc + 2 * s) = p :: l) :
    Good ((((a.setCount s ((a.semtab s).scount + 1)).pop p).note (.releases p s)).makeReady p) := by
  have hmem : p ∈ a.queuetab.lists (nproc + 2 * s) := by simp [hl]
  have hpop := Coherent.popSem h hs hmem
  refine Coherent.makeReady_popped (a := a) (hpop.congr rfl rfl rfl rfl) (h.placed.isPid hmem) ?_
  exact home_of_semtab rfl (squeue_setCount a s _)

theorem Good.wakes (h : Good a) {l : List Int} (hl : a.queuetab.lists sleepq = p :: l) :
    Good (((a.pop p).note (.wakes p)).makeReady p) := by
  have hmem : p ∈ a.queuetab.lists sleepq := by simp [hl]
  have hpop := Coherent.pop h (p := p) fun s hs heq => by
    rw [h.home_eq hmem] at heq
    exact sleepq_ne hs (Option.some.inj heq)
  exact Coherent.makeReady_popped (a := a) (hpop.congr rfl rfl rfl rfl) (h.placed.isPid hmem) rfl

theorem Good.unsleeps (h : Good a) (hp : IsPid p) (hst : (a.proctab p).prstate = .rectim) :
    Good ((a.unsleep p).makeReady p) := by
  have hf := charged_fields (a := a) p
  refine Coherent.makeReady_popped (a := a) (h.unsleep hp (.inr hst)) hp ?_
  rw [unsleep_eq hp (.inr hst)]
  exact home_of_semtab hf.1 fun s => congrArg Sentry.squeue (congrFun hf.2.1 s)

theorem Good.waits (h : Good a) {s : Int} (hs : 0 ≤ s ∧ s < nsem) (hc : (a.semtab s).scount ≤ 0)
    (hst : (a.proctab a.currpid).prstate = .curr) (hnull : a.currpid ≠ nullproc) :
    Good ((((a.setCount s ((a.semtab s).scount - 1)).setProc a.currpid
      { a.proctab a.currpid with prstate := .wait, prsem := s }).setQueues
        (QueueTable.enqueue a.queuetab a.currpid (nproc + 2 * s))).note (.waits a.currpid s)) := by
  have hnone : a.home a.currpid = none := home_none (by simp [hst])
  have hcount : Coherent ((a.setCount s ((a.semtab s).scount - 1)).setQueues
      (QueueTable.enqueue a.queuetab a.currpid (nproc + 2 * s)))
      (update a.home a.currpid (some (nproc + 2 * s))) :=
    { h with
      placed := h.placed.enqueue h.currpid hnone
      squeue := fun x hx => (squeue_setCount a s _ x).trans (h.squeue x hx)
      count := fun x hx => by
        have hlen := h.count x hx
        show ((update a.queuetab.lists (nproc + 2 * s) (a.queuetab.lists (nproc + 2 * s) ++
          [a.currpid]) (nproc + 2 * x)).length : Int) =
            max 0 (-((a.setCount s ((a.semtab s).scount - 1)).semtab x).scount)
        by_cases hxs : x = s
        · subst hxs
          rw [update_self, List.length_append, List.length_singleton]
          simp only [Kernel.setCount, update_self]
          omega
        · rw [update_of_ne (by omega), hlen]
          simp [Kernel.setCount, hxs] }
  have hset := hcount.setProc a.currpid
    { a.proctab a.currpid with prstate := .wait, prsem := s } (fun h => nomatch h)
    (fun he => absurd he hnull) (fun _ => hs) (h.prio _)
  refine Coherent.good (update a.home a.currpid (some (nproc + 2 * s)))
    (hset.congr rfl rfl rfl rfl) fun x => ?_
  by_cases hx : x = a.currpid
  · subst hx
    simp [Kernel.home, Procent.home, note, setQueues, Kernel.setProc, squeue_setCount,
      h.squeue s hs]
  · simp only [Kernel.home, Procent.home, note, setQueues, Kernel.setProc, squeue_setCount,
      update_of_ne hx]
    rfl

theorem Good.sleeps (h : Good a) {delay : Int} {st : PrState} (hst : st = .sleep ∨ st = .rectim)
    (hcurr : (a.proctab a.currpid).prstate = .curr) (hnull : a.currpid ≠ nullproc) :
    Good (((a.setQueues (QueueTable.insertd a.queuetab a.currpid sleepq delay)).setState
      a.currpid st).note (.sleeps a.currpid delay)) := by
  have hnone : a.home a.currpid = none := home_none (by simp [hcurr])
  have hins : Coherent (a.setQueues (QueueTable.insertd a.queuetab a.currpid sleepq delay))
      (update a.home a.currpid (some sleepq)) :=
    { h with
      placed := h.placed.insertd h.currpid hnone delay
      count := fun s hs => Coherent.sem_length h hs (sleepq_ne hs) }
  have hset := hins.setProc a.currpid
    { a.proctab a.currpid with prstate := st }
    (fun _ => rfl) (fun he => absurd he hnull)
    (fun hw => by rcases hst with rfl | rfl <;> cases hw) (h.prio _)
  refine Coherent.good (update a.home a.currpid (some sleepq))
    (hset.congr rfl rfl rfl rfl) fun x => ?_
  by_cases hx : x = a.currpid
  · subst hx
    rcases hst with rfl | rfl <;>
      simp [Kernel.home, Procent.home, note, setQueues, Kernel.setState, Kernel.setProc]
  · simp [Kernel.home, Procent.home, note, setQueues, Kernel.setState, Kernel.setProc, hx]

/-- A process in a state without a queue. -/
theorem Good.offQueue (h : Good a) (hp : IsPid p) (hnone : a.home p = none) (entry : Procent)
    (hentry : entry.prstate = .recv ∨ entry.prstate = .susp) (hnull : p ≠ nullproc)
    (hprio : minkey < entry.prprio) : Good (a.setProc p entry) := by
  have hset := Coherent.setProc h p entry
    (fun he => by rcases hentry with hs | hs <;> simp [hs] at he)
    (fun he => absurd he hnull) (fun he => by rcases hentry with hs | hs <;> simp [hs] at he)
    hprio
  refine Coherent.good _ hset fun x => ?_
  rw [home_setProc]
  by_cases hx : x = p
  · subst hx
    rw [update_self, hnone]
    rcases hentry with hs | hs <;> simp [Procent.home, hs]
  · rw [update_of_ne hx]

/-- What a process has besides its state does not matter to the queues. -/
theorem Good.sameState (h : Good a) (hp : IsPid p) (entry : Procent)
    (hst : entry.prstate = (a.proctab p).prstate) (hsem : entry.prsem = (a.proctab p).prsem)
    (hprio : minkey < entry.prprio) : Good (a.setProc p entry) := by
  have hset := Coherent.setProc h p entry
    (fun hs => h.curr p hp (hst.symm.trans hs)) (fun he => by
      rw [hst, he]
      exact h.null)
    (fun hs => by
      rw [hsem]
      exact h.prsem p hp (hst.symm.trans hs)) hprio
  refine Coherent.good _ hset fun x => ?_
  rw [home_setProc]
  by_cases hx : x = p
  · subst hx
    rw [update_self]
    simp only [Procent.home, Kernel.home, hst, hsem]
  · rw [update_of_ne hx]

theorem Good.suspends (h : Good a) (hp : IsPid p) (hnull : p ≠ nullproc)
    (hst : (a.proctab p).prstate = .ready ∨ (a.proctab p).prstate = .curr) :
    Good (((a.getitem p).setState p .susp).note (.suspends p)) := by
  have hpop : Coherent (a.pop p) (update a.home p none) := Coherent.pop h fun s hs heq => by
    rcases hst with hst | hst
    · rw [home_of_ready hst] at heq
      exact readylist_ne hs (Option.some.inj heq)
    · rw [home_none (by simp [hst])] at heq
      cases heq
  have hset := hpop.setProc p { a.proctab p with prstate := .susp }
    (fun hs => nomatch hs) (fun he => absurd he hnull) (fun hs => nomatch hs) (h.prio p)
  refine Coherent.good (update a.home p none) (hset.congr rfl rfl rfl rfl) fun x => ?_
  by_cases hx : x = p
  · subst hx
    simp [Kernel.home, Procent.home, note, Kernel.setState, Kernel.setProc]
  · simp [Kernel.home, note, Kernel.setState, Kernel.setProc, Kernel.getitem, setQueues, hx]

theorem Good.creates (h : Good a) {prio : Int} {saddr ssize : Nat} {memory : Heap} (hp : IsPid p)
    (hfree : (a.proctab p).prstate = .free) (hprio : minkey < prio) :
    Good ((({ a with memory := memory, prcount := a.prcount + 1 }.setProc p
      (a.newProc p prio saddr ssize)).setContext p .user).note (.created p prio)) := by
  have hnull : p ≠ nullproc := by
    rintro rfl
    rcases h.null with hn | hn <;> simp [hfree] at hn
  have hnew := h.offQueue hp (home_none (by simp [hfree])) (a.newProc p prio saddr ssize)
    (.inr rfl) hnull hprio
  exact hnew.congr rfl rfl rfl rfl

theorem Good.counts (h : Good a) {s count : Int} (hs : 0 ≤ s ∧ s < nsem)
    (hempty : 0 ≤ (a.semtab s).scount ∨ a.queuetab.lists (nproc + 2 * s) = [])
    (hcount : 0 ≤ count) : Good (a.setCount s count) := by
  have hhome : (a.setCount s count).home = a.home := home_of_semtab rfl (squeue_setCount a s _)
  refine Coherent.good a.home ?_ (congrFun hhome)
  exact
    { h with
      squeue := fun x hx => (squeue_setCount a s _ x).trans (h.squeue x hx)
      count := fun x hx => by
        have hlen := h.count x hx
        by_cases hxs : x = s
        · subst hxs
          have hnil : (a.queuetab.lists (nproc + 2 * x)).length = 0 := by
            rcases hempty with hc | hc
            · omega
            · rw [hc]
              rfl
          show ((a.queuetab.lists (nproc + 2 * x)).length : Int) = _
          simp only [Kernel.setCount, update_self]
          omega
        · show ((a.queuetab.lists (nproc + 2 * x)).length : Int) = _
          rw [hlen]
          simp [Kernel.setCount, hxs] }

theorem Good.used (h : Good a) (s : Int) (u : Bool) : Good (a.setUsed s u) := by
  have hhome : (a.setUsed s u).home = a.home :=
    home_of_semtab rfl fun x => squeue_setUsed a s x u
  refine Coherent.good a.home ?_ (congrFun hhome)
  exact
    { h with
      squeue := fun x hx => (squeue_setUsed a s x u).trans (h.squeue x hx)
      count := fun x hx => by
        have hlen := h.count x hx
        show ((a.queuetab.lists (nproc + 2 * x)).length : Int) = _
        rw [hlen]
        by_cases hxs : x = s
        · subst hxs
          simp [Kernel.setUsed]
        · simp [Kernel.setUsed, hxs] }

/-- Every move keeps the agreement. -/
theorem Good.move (h : Good a) (hm : Move a b) : Good b := by
  cases hm with
  | idle | nextsem | stays => exact h.congr rfl rfl rfl rfl
  | context c _ _ _ => exact h.congr rfl rfl rfl rfl
  | dispatch hst => exact h.dispatch hst
  | requeue hst => exact h.makeReady h.currpid (home_none (by simp [hst]))
  | readies p hp hst =>
    refine h.makeReady hp (home_none ?_)
    rcases hst with hst | ⟨hst, _⟩ <;> simp [hst]
  | signals s p l hs _ hl => exact h.signals hs hl
  | wakes p l hl _ _ => exact h.wakes hl
  | unsleeps p hp hst => exact h.unsleeps hp hst
  | waits s hs _ hc hst hnull => exact h.waits hs hc hst hnull
  | sleeps delay st hst _ _ hcurr hnull => exact h.sleeps hst hcurr hnull
  | receives hst hnull _ =>
    have hoff := h.offQueue h.currpid (home_none (by simp [hst]))
      { a.proctab a.currpid with prstate := .recv } (.inl rfl) hnull (h.prio _)
    exact hoff.congr rfl rfl rfl rfl
  | suspends p hp hnull hst => exact h.suspends hp hnull hst
  | sends p msg hp _ _ =>
    have hset := h.sameState hp { a.proctab p with prmsg := msg, prhasmsg := true }
      rfl rfl (h.prio p)
    exact hset.congr rfl rfl rfl rfl
  | takes _ _ _ =>
    have hset := h.sameState h.currpid
      { a.proctab a.currpid with prhasmsg := false } rfl rfl (h.prio _)
    exact hset.congr rfl rfl rfl rfl
  | timesOut _ => exact h.congr rfl rfl rfl rfl
  | creates p prio saddr ssize memory hp hfree hprio _ _ => exact h.creates hp hfree hprio
  | counts s count hs hempty hcount => exact h.counts hs hempty hcount
  | used s _ => exact h.used s true
  | frees s _ _ => exact h.used s false

end Good

end Kernel

end NatBox
