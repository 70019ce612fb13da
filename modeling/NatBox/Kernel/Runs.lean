import NatBox.Kernel.Steps

/-
Runs of the kernel from `sysinit`.

Every step ends with a current process and with no rescheduling deferred, so that the
next one finds them so.  `Kernel.Run.invariant` is the rule for what every move keeps: it
holds of the moves behind a run.
-/

namespace NatBox

open Function Relation Runs

namespace Kernel

/-! ## Every step is settled -/

section Settled

variable {Q : Type} {k k' : Kernel Q} {p q s : Int} {o : Option UInt32}

theorem Settled.congr (h : Settled k) (hp : k'.proctab = k.proctab) (hc : k'.currpid = k.currpid)
    (hd : k'.ndefers = k.ndefers) (hr : decided k'.history = decided k.history) : Settled k' where
  curr := by rw [hp, hc]; exact h.curr
  ndefers := hd.trans h.ndefers
  rested := hr.trans h.rested

/-- An entry of the process table changes that stays current if it is. -/
theorem Settled.setProc (h : Settled k) (p : Int) (entry : Procent)
    (hp : p = k.currpid → entry.prstate = .curr) : Settled (k.setProc p entry) where
  curr := by
    by_cases hpc : k.currpid = p
    · simpa [Kernel.setProc, hpc] using hp hpc.symm
    · simpa [Kernel.setProc, hpc] using h.curr
  ndefers := h.ndefers
  rested := h.rested

variable [QueueTable Q]

theorem ndefers_makeReady : (k.makeReady p).ndefers = k.ndefers := by
  unfold makeReady insert
  split <;> rfl

theorem getfirst_queues (k : Kernel Q) (q : Int) : ∃ t, (k.getfirst q).2 = k.setQueues t := by
  unfold getfirst
  split
  · exact ⟨k.queuetab, rfl⟩
  · exact ⟨_, rfl⟩

theorem dequeue_queues (k : Kernel Q) (q : Int) : ∃ t, (k.dequeue q).2 = k.setQueues t := by
  obtain ⟨t, ht⟩ := getfirst_queues k q
  unfold dequeue
  split
  · exact ⟨k.queuetab, rfl⟩
  · split
    · exact ⟨k.queuetab, rfl⟩
    · exact ⟨QueueTable.clear t (k.getfirst q).1, by
        show (k.getfirst q).2.setQueues (QueueTable.clear (k.getfirst q).2.queuetab _) = _
        rw [ht]
        rfl⟩

theorem unsleep_queues (k : Kernel Q) (p : Int) :
    ∃ t h, k.unsleep p = { k with queuetab := t, history := h } ∧
      decided h = decided k.history := by
  unfold unsleep
  split
  · exact ⟨k.queuetab, k.history, rfl, rfl⟩
  · split
    · exact ⟨k.queuetab, k.history, rfl, rfl⟩
    · dsimp only
      split <;> exact ⟨_, _, rfl, rfl⟩

theorem settled_dispatch (h : k.ndefers = 0) : Settled k.dispatch := by
  obtain ⟨t, ht⟩ := dequeue_queues k readylist
  exact
    { curr := by simp [dispatch, Kernel.note, Kernel.setState, Kernel.setProc]
      ndefers := by
        show (k.dequeue readylist).2.ndefers = 0
        rw [ht]
        exact h
      rested := rfl }

/-- `resched` finds a current process, as long as nothing defers it. -/
theorem settled_resched (h : k.ndefers = 0) : Settled k.resched := by
  unfold resched
  rw [if_neg (by omega)]
  split
  · rename_i hst
    split
    · exact ⟨hst, h, rfl⟩
    · exact settled_dispatch (ndefers_makeReady.trans h)
  · exact settled_dispatch h

theorem settled_leave (h : k.ndefers = 0) (c : Context) : Settled (k.leave c) :=
  settled_resched h

theorem Settled.ready (h : Settled k) (p : Int) : Settled (k.ready p) := by
  unfold Kernel.ready
  split
  · exact h
  · exact settled_resched (ndefers_makeReady.trans h.ndefers)

/-- Rescheduling is deferred, and it is known whether any is due. -/
structure Deferred (k : Kernel Q) : Prop where
  ndefers : k.ndefers = 1
  attempt : k.attempt = true ∨
    ((k.proctab k.currpid).prstate = .curr ∧ decided k.history = true)

omit [QueueTable Q] in
theorem Settled.deferStart (h : Settled k) : Deferred k.deferStart where
  ndefers := by
    show k.ndefers + 1 = 1
    rw [h.ndefers]
    rfl
  attempt := .inr ⟨h.curr, h.rested⟩

theorem Deferred.deferStop (h : Deferred k) : Settled k.deferStop := by
  have hd := h.ndefers
  unfold Kernel.deferStop
  rw [if_neg (by omega)]
  dsimp only
  split
  · exact settled_resched (by
      show k.ndefers - 1 = 0
      omega)
  · rename_i hneg
    have hatt : ¬ k.attempt = true := fun ha => hneg ⟨by omega, ha⟩
    have hcur := h.attempt.resolve_left hatt
    exact ⟨hcur.1, by
      show k.ndefers - 1 = 0
      omega, hcur.2⟩

omit [QueueTable Q] in
theorem Deferred.congr (h : Deferred k) (hp : k'.proctab = k.proctab)
    (hc : k'.currpid = k.currpid) (hd : k'.ndefers = k.ndefers) (ha : k'.attempt = k.attempt)
    (hr : decided k'.history = decided k.history) : Deferred k' where
  ndefers := hd.trans h.ndefers
  attempt := by rw [hp, hc, ha, hr]; exact h.attempt

theorem Deferred.ready (h : Deferred k) (p : Int) : Deferred (k.ready p) := by
  have hd : (k.makeReady p).ndefers = 1 := ndefers_makeReady.trans h.ndefers
  unfold Kernel.ready
  split
  · exact h
  · unfold resched
    rw [if_pos (by omega)]
    exact ⟨hd, .inl rfl⟩

/-- The process that came off a queue is made ready. -/
theorem Deferred.readyFrom (h : Deferred k) {r : Int × Kernel Q} {e : Happening}
    (hr : ∃ t, r.2 = k.setQueues t) (he : decided (e :: k.history) = decided k.history) :
    Deferred ((r.2.note e).ready r.1) := by
  obtain ⟨t, ht⟩ := hr
  have hset : Deferred ((k.setQueues t).note e) := h.congr rfl rfl rfl rfl he
  rw [ht]
  exact hset.ready r.1

theorem Deferred.signalTimes (h : Deferred k) (s : Int) (count : Nat) :
    Deferred (signalTimes s count k) := by
  induction count generalizing k with
  | zero => exact h
  | succ count ih =>
    refine ih ?_
    have hset : Deferred (k.setCount s ((k.semtab s).scount + 1)) := h.congr rfl rfl rfl rfl rfl
    unfold signalOnce
    dsimp only
    split
    · exact hset.readyFrom (dequeue_queues _ _) rfl
    · exact hset

theorem Deferred.semdeleteLoop (h : Deferred k) (s : Int) (fuel : Nat) :
    Deferred (semdeleteLoop s fuel k) := by
  induction fuel generalizing k with
  | zero => exact h
  | succ fuel ih =>
    have hset : Deferred (k.setCount s ((k.semtab s).scount + 1)) := h.congr rfl rfl rfl rfl rfl
    unfold Kernel.semdeleteLoop
    dsimp only
    split
    · exact ih (hset.readyFrom (getfirst_queues _ _) rfl)
    · exact hset

theorem Deferred.semresetLoop (h : Deferred k) (s : Int) (fuel : Nat) :
    Deferred (semresetLoop s fuel k) := by
  induction fuel generalizing k with
  | zero => exact h
  | succ fuel ih =>
    unfold Kernel.semresetLoop
    dsimp only
    split
    · exact ih (h.readyFrom (getfirst_queues _ _) rfl)
    · exact h

theorem Deferred.wakeupLoop (h : Deferred k) (fuel : Nat) : Deferred (wakeupLoop fuel k) := by
  induction fuel generalizing k with
  | zero => exact h
  | succ fuel ih =>
    unfold Kernel.wakeupLoop
    dsimp only
    split
    · exact ih (h.readyFrom (dequeue_queues _ _) rfl)
    · exact h

omit [QueueTable Q] in
theorem Settled.setContext (h : Settled k) (p : Int) (c : Context) :
    Settled (k.setContext p c) := h.congr rfl rfl rfl rfl

omit [QueueTable Q] in
theorem Settled.create (h : Settled k) (ssize : UInt32) (priority : Int16) :
    Settled (k.create ssize priority).2 := by
  unfold Kernel.create
  split
  · exact h
  · split
    · exact h.congr rfl rfl rfl rfl
    · rename_i next pid hnew
      have hfree := (newpidLoop_spec k _ hnew).2
      split
      · exact h.congr rfl rfl rfl rfl
      · rename_i saddr memory hstk
        have hset := h.setProc pid (k.newProc pid priority.toInt saddr (stackSize ssize))
          fun hp => by
            rw [hp, h.curr] at hfree
            cases hfree
        exact hset.congr rfl rfl rfl rfl

omit [QueueTable Q] in
theorem Settled.startKill (h : Settled k) (p : Int) : Settled (k.startKill p) :=
  h.congr rfl rfl rfl rfl

theorem Settled.deliver (h : Settled k) (p : Int) (msg : UInt32) : Settled (k.deliver p msg) := by
  have hset := h.setProc p { k.proctab p with prmsg := msg, prhasmsg := true } fun hp => by
    rw [hp]
    exact h.curr
  have hnote : Settled ((k.setProc p { k.proctab p with prmsg := msg, prhasmsg := true }).note
    (.sent p msg)) := hset.congr rfl rfl rfl rfl
  unfold Kernel.deliver
  dsimp only
  split
  · exact hnote.ready p
  · obtain ⟨t, e, he, hdec⟩ := unsleep_queues ((k.setProc p
      { k.proctab p with prmsg := msg, prhasmsg := true }).note (.sent p msg)) p
    rw [he]
    refine Settled.ready ?_ p
    exact hnote.congr rfl rfl rfl hdec
  · exact hnote

theorem Settled.send (h : Settled k) (p : Int) (msg : UInt32) : Settled (k.send p msg) := by
  unfold Kernel.send
  split
  · exact h
  · exact h.deliver p msg

omit [QueueTable Q] in
theorem Settled.takeMsg (h : Settled k) : Settled k.takeMsg.2 := by
  have hset := h.setProc k.currpid { k.proctab k.currpid with prhasmsg := false } fun _ => h.curr
  exact hset.congr rfl rfl rfl rfl

omit [QueueTable Q] in
theorem Settled.recvtimeRest (h : Settled k) : Settled k.recvtimeRest.2 := by
  unfold Kernel.recvtimeRest
  split
  · exact h.takeMsg
  · exact h.congr rfl rfl rfl rfl

theorem Settled.sleepFor (h : Settled k) (delay : Int) (st : PrState) (c : Context) :
    Settled (k.sleepFor delay st c).2 := by
  unfold Kernel.sleepFor insertd
  split
  · exact h
  · rename_i k' hins
    split at hins
    · cases hins
    · obtain rfl := Option.some.inj hins
      refine settled_leave ?_ c
      exact h.ndefers

theorem Settled.signalOnce (h : Settled k) (s : Int) : Settled (k.signalOnce s) := by
  unfold Kernel.signalOnce
  dsimp only
  split
  · obtain ⟨t, ht⟩ := dequeue_queues (k.setCount s ((k.semtab s).scount + 1)) (k.semtab s).squeue
    unfold release
    rw [ht]
    refine Settled.ready ?_ _
    exact h.congr rfl rfl rfl rfl
  · exact h.congr rfl rfl rfl rfl

omit [QueueTable Q] in
/-- A call that readies processes with rescheduling deferred. -/
theorem Settled.deferred (h : Settled k) :
    Deferred (k.setContext k.currpid (.returns sysOk)).deferStart :=
  (h.setContext _ _).deferStart

theorem Settled.syscall (h : Settled k) (c : Syscall) (hk : k.syscall c = .ok (o, k')) :
    Settled k' := by
  cases c with
  | create ssize priority =>
    obtain rfl := congrArg Prod.snd (Except.ok.inj hk)
    exact h.create ssize priority
  | kill p =>
    have hk : k.kill p = .ok (o, k') := hk
    unfold Kernel.kill at hk
    split at hk
    · obtain rfl := congrArg Prod.snd (Except.ok.inj hk)
      exact h
    · split at hk
      · cases hk
      · obtain rfl := congrArg Prod.snd (Except.ok.inj hk)
        exact (h.startKill p).send _ _
  | resume p =>
    obtain rfl := congrArg Prod.snd (Except.ok.inj hk)
    unfold Kernel.resume
    split
    · exact h
    · split
      · exact h
      · exact (h.setContext _ _).ready p
  | suspend p =>
    obtain rfl := congrArg Prod.snd (Except.ok.inj hk)
    unfold Kernel.suspend
    split
    · exact h
    · split
      · rename_i hst
        have hset := h.setProc p { k.proctab p with prstate := .susp } fun hp => by
          rw [hp, h.curr] at hst
          cases hst
        exact hset.congr rfl rfl rfl rfl
      · refine settled_leave ?_ _
        exact h.ndefers
      · exact h
  | yield =>
    obtain rfl := congrArg Prod.snd (Except.ok.inj hk)
    exact settled_leave h.ndefers _
  | chprio p newprio =>
    obtain rfl := congrArg Prod.snd (Except.ok.inj hk)
    unfold Kernel.chprio
    split
    · exact h
    · have hset := h.setProc p { k.proctab p with prprio := newprio.toInt } fun hp => by
        rw [hp]
        exact h.curr
      exact hset.congr rfl rfl rfl rfl
  | sleepms delay =>
    obtain rfl := congrArg Prod.snd (Except.ok.inj hk)
    unfold Kernel.sleepms
    split
    · exact h
    · split
      · exact settled_leave h.ndefers _
      · exact h.sleepFor _ _ _
  | send p msg =>
    have hk : (if k.sendBad p then Except.ok (some sysErr, k)
      else .ok (none, (k.setContext k.currpid (.returns sysOk)).deliver p msg)) =
        (.ok (o, k') : Except NoStep _) := hk
    split at hk
    · obtain rfl := congrArg Prod.snd (Except.ok.inj hk)
      exact h
    · obtain rfl := congrArg Prod.snd (Except.ok.inj hk)
      exact (h.setContext _ _).deliver p msg
  | receive =>
    obtain rfl := congrArg Prod.snd (Except.ok.inj hk)
    unfold Kernel.receive
    split
    · refine settled_leave ?_ _
      exact h.ndefers
    · exact h.takeMsg
  | recvtime maxwait =>
    obtain rfl := congrArg Prod.snd (Except.ok.inj hk)
    unfold Kernel.recvtime
    split
    · exact h
    · split
      · exact h.sleepFor _ _ _
      · exact h.recvtimeRest
  | recvclr =>
    obtain rfl := congrArg Prod.snd (Except.ok.inj hk)
    unfold Kernel.recvclr
    split
    · exact h.takeMsg
    · exact h
  | semcreate count =>
    obtain rfl := congrArg Prod.snd (Except.ok.inj hk)
    unfold Kernel.semcreate
    split
    · exact h
    · split
      · exact h.congr rfl rfl rfl rfl
      · exact h.congr rfl rfl rfl rfl
  | semdelete s =>
    obtain rfl := congrArg Prod.snd (Except.ok.inj hk)
    unfold Kernel.semdelete
    split
    · exact h
    · have hused : Deferred ((k.setContext k.currpid (.returns sysOk)).setUsed s
          false).deferStart := h.deferred.congr rfl rfl rfl rfl rfl
      exact (hused.semdeleteLoop s _).deferStop
  | semreset s count =>
    obtain rfl := congrArg Prod.snd (Except.ok.inj hk)
    unfold Kernel.semreset
    split
    · exact h
    · have hloop := h.deferred.semresetLoop s (nproc.toNat + 1)
      exact Deferred.deferStop (hloop.congr rfl rfl rfl rfl rfl)
  | wait s =>
    obtain rfl := congrArg Prod.snd (Except.ok.inj hk)
    unfold Kernel.wait
    split
    · exact h
    · dsimp only
      split
      · refine settled_leave ?_ _
        unfold Kernel.enqueue
        split <;> exact h.ndefers
      · exact h.congr rfl rfl rfl rfl
  | signal s =>
    obtain rfl := congrArg Prod.snd (Except.ok.inj hk)
    unfold Kernel.signal
    split
    · exact h
    · split
      · exact (h.setContext _ _).signalOnce s
      · exact h.signalOnce s
  | signaln s count =>
    obtain rfl := congrArg Prod.snd (Except.ok.inj hk)
    unfold Kernel.signaln
    split
    · exact h
    · split
      · exact h
      · exact (h.deferred.signalTimes s _).deferStop

theorem detach_queues (k : Kernel Q) (p : Int) :
    ∃ t f h, k.detach p = { k with queuetab := t, semtab := f, history := h } ∧
      decided h = decided k.history := by
  obtain ⟨t, h, heq⟩ := unsleep_queues k p
  unfold detach
  cases (k.proctab p).prstate with
  | sleep | rectim => exact ⟨t, k.semtab, h, heq⟩
  | wait => exact ⟨_, _, _, rfl, rfl⟩
  | ready => exact ⟨_, k.semtab, k.history, rfl, rfl⟩
  | free | curr | recv | susp => exact ⟨k.queuetab, k.semtab, k.history, rfl, rfl⟩

theorem remove_fields (k : Kernel Q) (p : Int) : (k.remove p).ndefers = k.ndefers ∧
    (k.remove p).currpid = k.currpid ∧
    decided (k.remove p).history = decided k.history ∧
    (k.remove p).proctab = update k.proctab p { k.proctab p with prstate := .free } := by
  obtain ⟨t, f, h, heq, hdec⟩ := detach_queues ({ k with
    memory := (k.memory.freestk (k.proctab p).prstkbase (k.proctab p).prstklen).2 }.note
      (.freesStack p (k.memory.freestk (k.proctab p).prstkbase (k.proctab p).prstklen).1)) p
  unfold remove
  dsimp only
  rw [heq]
  exact ⟨rfl, rfl, hdec, rfl⟩

theorem Settled.killRest (h : Settled k) (p : Int) : Settled (k.killRest p).2 := by
  obtain ⟨hd, hc, hh, hp⟩ := remove_fields k p
  unfold Kernel.killRest
  split
  · exact settled_resched (hd.trans h.ndefers)
  · rename_i hst
    refine ⟨?_, hd.trans h.ndefers, hh.trans h.rested⟩
    have hne : k.currpid ≠ p := fun he => hst (he ▸ h.curr)
    show ((k.remove p).proctab (k.remove p).currpid).prstate = .curr
    rw [hp, hc, update_of_ne hne]
    exact h.curr

theorem Settled.countPreempt (h : Settled k) : Settled k.countPreempt := by
  unfold Kernel.countPreempt
  dsimp only
  split
  · refine settled_leave ?_ _
    exact h.ndefers
  · exact h.congr rfl rfl rfl rfl

theorem Settled.clkhandler (h : Settled k) : Settled k.clkhandler := by
  have hf := tickDown_fields k
  have htick : Settled k.tickDown := h.congr hf.2.2.2.1 hf.1 hf.2.2.1 (by
    rw [hf.2.2.2.2]
    rfl)
  unfold Kernel.clkhandler
  split
  · exact ((htick.setContext _ _).deferStart.wakeupLoop _).deferStop
  · exact htick.countPreempt

theorem Settled.proceed (h : Settled k) (hk : k.proceed = .ok (o, k')) : Settled k' := by
  unfold Kernel.proceed at hk
  cases hctx : k.context k.currpid with
  | user =>
    rw [hctx] at hk
    cases hk
  | returns value =>
    rw [hctx] at hk
    obtain ⟨-, rfl⟩ := Prod.mk.inj (Except.ok.inj hk)
    exact h.setContext _ _
  | suspend p =>
    rw [hctx] at hk
    obtain ⟨-, rfl⟩ := Prod.mk.inj (Except.ok.inj hk)
    exact h.setContext _ _
  | receive =>
    rw [hctx] at hk
    obtain ⟨-, rfl⟩ := Prod.mk.inj (Except.ok.inj hk)
    exact h.takeMsg.setContext _ _
  | recvtime =>
    rw [hctx] at hk
    obtain ⟨-, rfl⟩ := Prod.mk.inj (Except.ok.inj hk)
    exact h.recvtimeRest.setContext _ _
  | kill p =>
    rw [hctx] at hk
    obtain rfl := congrArg Prod.snd (Except.ok.inj hk)
    exact h.killRest p
  | clkhandler =>
    rw [hctx] at hk
    obtain ⟨-, rfl⟩ := Prod.mk.inj (Except.ok.inj hk)
    exact h.countPreempt

/-- Every step ends settled. -/
theorem Settled.step (h : Settled k) {e : KernelEvent} (hk : k.step e = .ok (o, k')) :
    Settled k' := by
  cases e with
  | call c => exact h.syscall c (step_call hk).2.2
  | proceed => exact h.proceed hk
  | clock =>
    obtain ⟨-, rfl⟩ := step_clock hk
    exact h.clkhandler

end Settled

/-! ## The start -/

section Start

/-- The queues as lists, all of them empty. -/
def emptyLists : QueueLists := ⟨fun _ => [], Queuetab.init.qkey⟩

/-- Each call of `newqueue` makes one empty queue and leaves the ones before it alone. -/
theorem newqueues_spec (t : Queuetab) (n i : Nat) (hi : i < n) :
    let t' := (List.range n).foldl (fun t i => t.newqueue (nproc + 2 * i)) t
    t'.qkey (nproc + 2 * i + 1) = minkey ∧ t'.qnext (nproc + 2 * i) = nproc + 2 * i + 1 ∧
      t'.qprev (nproc + 2 * i + 1) = nproc + 2 * i := by
  induction n with
  | zero => exact absurd hi (Nat.not_lt_zero i)
  | succ n ih =>
    rw [List.range_succ, List.foldl_append]
    generalize (List.range n).foldl (fun t i => t.newqueue (nproc + 2 * i)) t = t' at ih
    show (t'.newqueue (nproc + 2 * n)).qkey _ = _ ∧ (t'.newqueue (nproc + 2 * n)).qnext _ = _ ∧
      (t'.newqueue (nproc + 2 * n)).qprev _ = _
    unfold Queuetab.newqueue
    by_cases hin : i = n
    · subst hin
      simp
    · have hlt := ih (by omega)
      have hne : (nproc + 2 * i : Int) ≠ nproc + 2 * n ∧
          (nproc + 2 * i : Int) ≠ nproc + 2 * n + 1 ∧
          (nproc + 2 * i + 1 : Int) ≠ nproc + 2 * n ∧
          (nproc + 2 * i + 1 : Int) ≠ nproc + 2 * n + 1 := by omega
      simp only [update_of_ne hne.1, update_of_ne hne.2.1, update_of_ne hne.2.2.1,
        update_of_ne hne.2.2.2]
      exact hlt

theorem init_spec {q : Int} (hq : IsQueue q) : Queuetab.init.qkey (q + 1) = minkey ∧
    Queuetab.init.qnext q = q + 1 ∧ Queuetab.init.qprev (q + 1) = q := by
  obtain ⟨hlow, hhigh, heven⟩ := hq
  unfold nproc at hlow
  unfold nqent at hhigh
  have h := newqueues_spec ⟨fun _ => 0, fun _ => 0, fun _ => 0⟩ 102 ((q - 100) / 2).toNat
    (by omega)
  have heq : nproc + 2 * (((q - 100) / 2).toNat : Int) = q := by
    unfold nproc
    omega
  rw [heq] at h
  exact h

theorem represents_init : Represents Queuetab.init emptyLists where
  key := rfl
  linked _ hq := List.isChain_pair.mpr (init_spec hq).2

variable (heap : Heap)

theorem sysinit_follows : Follows (sysinit Queuetab.init heap) (sysinit emptyLists heap) :=
  ⟨Queuetab.init, rfl, represents_init⟩

theorem sysinit_home {Q : Type} (t : Q) (p : Int) : (sysinit t heap).home p = none := by
  unfold Kernel.home sysinit
  by_cases hp : p = nullproc
  · subst hp
    simp [Procent.home, nullProc]
  · simp [Procent.home, freeProc, hp]

theorem sysinit_regular : Regular (sysinit emptyLists heap) where
  good :=
    { placed :=
        { mem := fun q p => by
            rw [sysinit_home]
            simp [sysinit, emptyLists]
          nodup := fun _ => List.nodup_nil
          tail := fun _ hq => (init_spec hq).1 }
      curr := fun p _ hst => by
        by_contra hne
        have hne : p ≠ nullproc := hne
        simp [sysinit, hne, freeProc] at hst
      currpid := ⟨le_refl _, (by decide : nullproc < nproc)⟩
      null := .inl (by simp [sysinit, nullProc])
      squeue := fun _ _ => rfl
      prsem := fun p _ hst => by
        by_cases hp : p = nullproc
        · simp [sysinit, hp, nullProc] at hst
        · simp [sysinit, hp, freeProc] at hst
      prio := fun p => by
        by_cases hp : p = nullproc
        · simp [sysinit, hp, nullProc, minkey]
        · simp [sysinit, hp, freeProc, minkey]
      count := fun _ _ => rfl }
  contexts := ⟨fun _ _ h => (nomatch h), fun _ h => (nomatch h)⟩
  unused _ _ _ := le_refl _
  nextsem := ⟨le_refl _, (by decide : (0 : Int) < nsem)⟩

theorem sysinit_settled {Q : Type} (t : Q) : Settled (sysinit t heap) where
  curr := by simp [sysinit, nullProc]
  ndefers := rfl
  rested := rfl

end Start

/-! ## Runs -/

section Runs

/-- A heap of one block. -/
def oneBlock : Heap := ⟨[⟨4096, 65536⟩], 65536, 4096, 69632⟩

variable {heap : Heap} {tr : List (KernelEvent × Option UInt32)} {k : Kernel Queuetab}

theorem keeps_moves {J : Kernel QueueLists → Prop}
    (hmove : ∀ a b, Regular a → J a → Move a b → J b) {a b : Kernel QueueLists} (hr : Regular a)
    (hJ : J a) (hm : ReflTransGen Move a b) : J b := by
  induction hm with
  | refl => exact hJ
  | tail hm hlast ih => exact hmove _ _ (hr.moves hm) ih hlast

/-- What every step that meets a condition keeps holds behind every run whose steps meet it. -/
theorem follows_of_steps {J : Kernel QueueLists → Prop}
    {C : Kernel Queuetab → KernelEvent → Kernel Queuetab → Prop}
    (h₀ : J (sysinit emptyLists heap))
    (hstep : ∀ k a e o k', Follows k a → Regular a → Settled a → J a →
      k.step e = .ok (o, k') → C k e k' → ∃ b, Follows k' b ∧ Regular b ∧ J b)
    (h : Run step (sysinit Queuetab.init heap) tr k)
    (hC : AllSteps step (sysinit Queuetab.init heap) C tr) :
    ∃ a, Follows k a ∧ Regular a ∧ Settled k ∧ J a := by
  refine h.invariant_of_allSteps
    (I := fun _ k => ∃ a, Follows k a ∧ Regular a ∧ Settled k ∧ J a)
    ⟨_, sysinit_follows heap, sysinit_regular heap, sysinit_settled heap _, h₀⟩ ?_ hC
  rintro tr k e o k' ⟨a, hf, hr, hs, hJ⟩ hk hc
  obtain ⟨b, hfb, hrb, hJb⟩ := hstep k a e o k' hf hr (hf.settled hs) hJ hk hc
  exact ⟨b, hfb, hrb, hs.step hk, hJb⟩

/-- Where moves lead from the opening of a step, what they keep holds. -/
theorem keeps_step {J : Kernel QueueLists → Prop} {a : Kernel QueueLists} {k' : Kernel Queuetab}
    {e : KernelEvent} {o : Option UInt32} (hmove : ∀ a b, Regular a → J a → Move a b → J b)
    (hf : Follows k a) (hr : Regular a) (hs : Settled a) (hJ : J (a.opening e))
    (hk : k.step e = .ok (o, k')) : ∃ b, Follows k' b ∧ Regular b ∧ J b := by
  have hro := hr.opening hf (hr.opening_cases e)
  obtain ⟨b, hm, hfb⟩ := reaches_step hf hr hs hk
  exact ⟨b, hfb, hro.moves hm, keeps_moves hmove hro hJ hm⟩

/-- The same for what every move keeps, and the openings of the steps that meet a condition. -/
theorem follows_of_allSteps {J : Kernel QueueLists → Prop}
    {C : Kernel Queuetab → KernelEvent → Kernel Queuetab → Prop}
    (h₀ : J (sysinit emptyLists heap))
    (hopen : ∀ k a e o k' b, Follows k a → Regular a → Settled a → J a →
      k.step e = .ok (o, k') → C k e k' → Opening a e b → J b)
    (hmove : ∀ a b, Regular a → J a → Move a b → J b)
    (h : Run step (sysinit Queuetab.init heap) tr k)
    (hC : AllSteps step (sysinit Queuetab.init heap) C tr) :
    ∃ a, Follows k a ∧ Regular a ∧ Settled k ∧ J a :=
  follows_of_steps h₀ (fun k a e o k' hf hr hs hJ hk hc =>
    keeps_step hmove hf hr hs (hopen k a e o k' _ hf hr hs hJ hk hc (hr.opening_cases e)) hk) h hC

/-- The same for what the openings of all steps keep. -/
theorem follows_of_run {J : Kernel QueueLists → Prop} (h₀ : J (sysinit emptyLists heap))
    (hopen : ∀ a e b, Regular a → J a → Opening a e b → J b)
    (hmove : ∀ a b, Regular a → J a → Move a b → J b)
    (h : Run step (sysinit Queuetab.init heap) tr k) :
    ∃ a, Follows k a ∧ Regular a ∧ Settled k ∧ J a :=
  follows_of_allSteps (C := fun _ _ _ => True) h₀
    (fun _ a e _ _ b _ hr _ hJ _ _ ho => hopen a e b hr hJ ho) hmove h
    fun _ _ _ _ _ _ _ _ => trivial

end Runs

end Kernel

end NatBox
