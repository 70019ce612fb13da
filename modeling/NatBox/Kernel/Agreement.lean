import NatBox.Kernel.Runs

/-
The states of the processes, the counts of the semaphores and the queues agree after every
step.

`QueuesAgree` is said of the table of links: its lists run from head to tail, and each
process is on the list its state says.  `SemaphoresAgree` is about the lists of the
semaphores: as many processes as the count is below zero, in the order of their calls of
`wait`.  The counts are integers here, as long as they stay within 32 bits.
-/

namespace NatBox

open Function Links Relation Runs

namespace Kernel

section Queues

variable {k : Kernel Queuetab} {a : Kernel QueueLists} {lists : Int → List Int}

/-- The lists are what is linked in `queuetab`, and each process is on the one its state says,
if any. -/
structure QueuesAgree (k : Kernel Queuetab) (lists : Int → List Int) : Prop where
  linked : ∀ q, IsQueue q →
    Linked k.queuetab.qnext k.queuetab.qprev (q :: (lists q ++ [q + 1]))
  nodup : ∀ q, IsQueue q → (q :: (lists q ++ [q + 1])).Nodup
  isPid : ∀ q, IsQueue q → ∀ p ∈ lists q, IsPid p
  currpid : IsPid k.currpid
  curr : ∀ p, IsPid p → ((k.proctab p).prstate = .curr ↔ p = k.currpid)
  ready : ∀ p, IsPid p → (p ∈ lists readylist ↔ (k.proctab p).prstate = .ready)
  waits : ∀ p, IsPid p → (k.proctab p).prstate = .wait →
    (0 ≤ (k.proctab p).prsem ∧ (k.proctab p).prsem < nsem) ∧
      p ∈ lists (k.semtab (k.proctab p).prsem).squeue
  sem : ∀ s, 0 ≤ s ∧ s < nsem → ∀ p ∈ lists (k.semtab s).squeue,
    (k.proctab p).prstate = .wait ∧ (k.proctab p).prsem = s
  sleeping : ∀ p, IsPid p → (p ∈ lists sleepq ↔
    (k.proctab p).prstate = .sleep ∨ (k.proctab p).prstate = .rectim)
  elsewhere : ∀ p, (k.proctab p).prstate = .free ∨ (k.proctab p).prstate = .curr ∨
    (k.proctab p).prstate = .recv ∨ (k.proctab p).prstate = .susp → ∀ q, IsQueue q → p ∉ lists q

theorem Follows.queuesAgree (hf : Follows k a) (hg : Good a) (hs : Settled k) :
    QueuesAgree k a.queuetab.lists := by
  obtain ⟨t, rfl, hr⟩ := hf
  have hcurr : (a.proctab a.currpid).prstate = .curr := hs.curr
  exact
    { linked := hr.linked
      nodup := fun q hq => hg.placed.nodes_nodup hq
      isPid := fun q _ p hp => hg.placed.isPid hp
      currpid := hg.currpid
      curr := fun p hp => ⟨hg.curr p hp, fun he => by
        rw [he]
        exact hcurr⟩
      ready := fun p hp => ⟨hg.ready_of_mem, fun hst => hg.mem_of_home hp (home_of_ready hst)⟩
      waits := fun p hp hst => by
        have hsem := hg.prsem p hp hst
        refine ⟨hsem, ?_⟩
        show p ∈ a.queuetab.lists (a.semtab (a.proctab p).prsem).squeue
        rw [hg.squeue _ hsem]
        exact hg.mem_of_home hp (hg.home_of_wait hp hst)
      sem := fun s hs p hmem => by
        change p ∈ a.queuetab.lists (a.semtab s).squeue at hmem
        rw [hg.squeue s hs] at hmem
        exact hg.waits_of_mem hs hmem
      sleeping := fun p hp =>
        ⟨hg.sleeps_of_mem, fun hst => hg.mem_of_home hp (home_of_sleeping hst)⟩
      elsewhere := fun p hst q _ => by
        change (a.proctab p).prstate = .free ∨ (a.proctab p).prstate = .curr ∨
          (a.proctab p).prstate = .recv ∨ (a.proctab p).prstate = .susp at hst
        refine hg.placed.not_mem (home_none ?_)
        rcases hst with hst | hst | hst | hst <;> simp [hst] }

variable {heap : Heap} {tr : List (KernelEvent × Option UInt32)}

/-- After every step the states of the processes and the queues agree. -/
theorem queues_agree (h : Run step (sysinit Queuetab.init heap) tr k) :
    ∃ lists, QueuesAgree k lists := by
  obtain ⟨a, hf, hr, hs, -⟩ := follows_of_run (J := fun _ => True) trivial
    (fun _ _ _ _ _ _ => trivial) (fun _ _ _ _ _ => trivial) h
  exact ⟨a.queuetab.lists, hf.queuesAgree hr.good hs⟩

/-- The null process starts a process, which waits for a message. -/
theorem queues_agree_receive : ∃ tr k, Run step (sysinit Queuetab.init oneBlock) tr k ∧
    (k.proctab 1).prstate = .recv ∧ ∃ lists, QueuesAgree k lists := by
  have hrun : endsIn step (sysinit Queuetab.init oneBlock)
      [.call (.create 1024 5), .call (.resume 1), .call .receive]
      (fun _ k => (k.proctab 1).prstate = .recv) = true := by decide +kernel
  obtain ⟨os, k, h, -, hcheck⟩ := run_of_endsIn hrun
  exact ⟨_, k, h, of_decide_eq_true hcheck, queues_agree h⟩

end Queues

/-! ## Semaphores -/

section Semaphores

variable {k : Kernel Queuetab} {a b : Kernel QueueLists} {s p : Int}

/-- What a happening does to the processes that wait for `s`, in the order in which they
called `wait`: one that is released has to be the first. -/
def serve (s : Int) (waiting : List Int) : Happening → Option (List Int)
  | .waits p s' => some (if s' = s then waiting ++ [p] else waiting)
  | .releases p s' =>
    if s' = s then if waiting.head? = some p then some waiting.tail else none else some waiting
  | .freed _ p => some (waiting.erase p)
  | _ => some waiting

/-- Who waits for `s`, provided that so far the first one was released each time. -/
def inOrder (s : Int) : List Happening → Option (List Int)
  | [] => some []
  | h :: history => (inOrder s history).bind (serve s · h)

structure SemaphoresAgree (k : Kernel Queuetab) (lists : Int → List Int) : Prop where
  linked : ∀ q, IsQueue q →
    Linked k.queuetab.qnext k.queuetab.qprev (q :: (lists q ++ [q + 1]))
  count : ∀ s, 0 ≤ s ∧ s < nsem → (k.semtab s).used = true →
    ((lists (k.semtab s).squeue).length : Int) = max 0 (-(k.semtab s).scount)
  waits : ∀ s, 0 ≤ s ∧ s < nsem → ∀ p ∈ lists (k.semtab s).squeue,
    (k.proctab p).prstate = .wait ∧ (k.proctab p).prsem = s
  free : ∀ s, 0 ≤ s ∧ s < nsem → (k.semtab s).used = false → lists (k.semtab s).squeue = []
  order : ∀ s, 0 ≤ s ∧ s < nsem → inOrder s k.history = some (lists (k.semtab s).squeue)

def InOrder (a : Kernel QueueLists) : Prop :=
  ∀ s, 0 ≤ s ∧ s < nsem → inOrder s a.history = some (a.queuetab.lists (nproc + 2 * s))

theorem inOrder_cons (s : Int) (e : Happening) (history : List Happening) :
    inOrder s (e :: history) = (inOrder s history).bind (serve s · e) := rfl

/-- A process that waits for no semaphore becomes ready. -/
theorem InOrder.makeReady (h : InOrder a) (hp : IsPid p) : InOrder (a.makeReady p) := by
  intro s hs
  rw [makeReady_history, inOrder_cons, h s hs, makeReady_lists hp (readylist_ne hs).symm]
  rfl

theorem InOrder.move (h : InOrder a) (hr : Regular a) (hm : Move a b) : InOrder b := by
  have hg := hr.good
  cases hm with
  | idle | nextsem | context | receives | counts | used | frees => exact h
  | stays | sends | takes | timesOut | creates =>
    intro s hs
    show (inOrder s a.history).bind _ = _
    rw [h s hs]
    rfl
  | dispatch hst =>
    obtain ⟨p, -, -, hmem, heq⟩ := hg.dispatches hst
    rw [heq]
    intro s hs
    show (inOrder s a.history).bind _ = some ((a.queuetab.lists (nproc + 2 * s)).erase p)
    rw [h s hs, hg.erase_sem hs (by simp [hg.ready_of_mem hmem])]
    rfl
  | requeue hst => exact h.makeReady hg.currpid
  | readies p hp hst => exact h.makeReady hp
  | signals s p l hs hc hl =>
    have hmem : p ∈ a.queuetab.lists (nproc + 2 * s) := by simp [hl]
    refine InOrder.makeReady (fun x hx => ?_) (hg.placed.isPid hmem)
    show (inOrder x a.history).bind _ = some ((a.queuetab.lists (nproc + 2 * x)).erase p)
    rw [h x hx]
    by_cases hxs : x = s
    · subst hxs
      rw [hl, List.erase_cons_head]
      simp [serve]
    · rw [hg.erase_of_home (by
        rw [hg.home_eq hmem]
        intro he
        exact hxs (by have := Option.some.inj he; omega))]
      simp [serve, Ne.symm hxs]
  | wakes p l hl hkey htick =>
    have hmem : p ∈ a.queuetab.lists sleepq := by simp [hl]
    refine InOrder.makeReady (fun s hs => ?_) (hg.placed.isPid hmem)
    show (inOrder s a.history).bind _ = some ((a.queuetab.lists (nproc + 2 * s)).erase p)
    rw [h s hs, hg.erase_sem hs (by rcases hg.sleeps_of_mem hmem with hst | hst <;> simp [hst])]
    rfl
  | unsleeps p hp hst =>
    refine InOrder.makeReady (fun s hs => ?_) hp
    rw [unsleep_history hp (.inr hst), unsleep_lists hp (.inr hst), inOrder_cons, h s hs,
      hg.erase_sem hs (by simp [hst])]
    rfl
  | waits s hs hused hc hst hnull =>
    intro x hx
    show (inOrder x a.history).bind _ = some (update a.queuetab.lists (nproc + 2 * s)
      (a.queuetab.lists (nproc + 2 * s) ++ [a.currpid]) (nproc + 2 * x))
    rw [h x hx]
    by_cases hxs : x = s
    · subst hxs
      simp [serve]
    · rw [update_of_ne (by omega)]
      simp [serve, Ne.symm hxs]
  | sleeps delay st hst _ _ hcurr hnull =>
    intro s hs
    show (inOrder s a.history).bind _ = some (update a.queuetab.lists sleepq _ (nproc + 2 * s))
    rw [h s hs, update_of_ne (sleepq_ne hs).symm]
    rfl
  | suspends p hp hnull hst =>
    intro s hs
    show (inOrder s a.history).bind _ = some ((a.queuetab.lists (nproc + 2 * s)).erase p)
    rw [h s hs, hg.erase_sem hs (by rcases hst with hst | hst <;> simp [hst])]
    rfl

theorem InOrder.opening (h : InOrder a) (hg : Good a) {e : KernelEvent} (ho : Opening a e b) :
    InOrder b := by
  cases ho with
  | same => exact h
  | changesPrio | startsKill =>
    intro s hs
    show (inOrder s a.history).bind _ = _
    rw [h s hs]
    rfl
  | removes p hctx hp hnull =>
    intro s hs
    have hstk : inOrder s (a.stackFreed p).history = some (a.queuetab.lists (nproc + 2 * s)) := by
      show (inOrder s a.history).bind _ = _
      rw [h s hs]
      rfl
    rw [hg.remove_lists hp]
    rcases remove_history (a := a) hp with hhist | hhist
    · rw [hhist, inOrder_cons, hstk]
      rfl
    · rw [hhist, inOrder_cons, inOrder_cons, hstk]
      rfl
  | ticks =>
    intro s hs
    have hlists : a.tickDown.queuetab.lists = a.queuetab.lists := by
      unfold tickDown
      split <;> rfl
    rw [(tickDown_fields a).2.2.2.2, hlists, inOrder_cons, h s hs]
    rfl

variable {heap : Heap} {tr : List (KernelEvent × Option UInt32)}

/-- After every step the counts of the semaphores and their queues agree. -/
theorem semaphores_agree (h : Run step (sysinit Queuetab.init heap) tr k) :
    ∃ lists, SemaphoresAgree k lists := by
  obtain ⟨a, hf, hr, hs, ho⟩ := follows_of_run (J := InOrder) (fun _ _ => rfl)
    (fun _ _ _ hr h ho => h.opening hr.good ho) (fun a b hr ho hm => ho.move hr hm) h
  have hq := hf.queuesAgree hr.good hs
  have hsq : ∀ s, 0 ≤ s ∧ s < nsem → (k.semtab s).squeue = nproc + 2 * s := fun s hs => by
    rw [hf.semtab]
    exact hr.good.squeue s hs
  have hcount : ∀ s, 0 ≤ s ∧ s < nsem →
      ((a.queuetab.lists (k.semtab s).squeue).length : Int) = max 0 (-(k.semtab s).scount) :=
    fun s hs => by
      rw [hsq s hs, hf.semtab]
      exact hr.good.count s hs
  refine ⟨a.queuetab.lists, hq.linked, fun s hs _ => hcount s hs, hq.sem, fun s hs hu => ?_,
    fun s hs => ?_⟩
  · have hlen := hcount s hs
    have hfree := hr.unused s hs (by rwa [← hf.semtab])
    rw [hf.semtab] at hlen
    have hzero : (a.queuetab.lists (a.semtab s).squeue).length = 0 := by omega
    rw [hf.semtab]
    exact List.length_eq_zero_iff.mp hzero
  · rw [hsq s hs, hf.history]
    exact ho s hs

/-- A process waits on a semaphore that was made with no unit. -/
theorem semaphores_agree_wait : ∃ tr k, Run step (sysinit Queuetab.init oneBlock) tr k ∧
    (k.semtab 0).scount = -1 ∧ ∃ lists, SemaphoresAgree k lists := by
  have hrun : endsIn step (sysinit Queuetab.init oneBlock)
      [.call (.semcreate 0), .call (.create 1024 5), .call (.resume 1), .call (.wait 0)]
      (fun _ k => (k.semtab 0).scount = -1) = true := by decide +kernel
  obtain ⟨os, k, h, -, hcheck⟩ := run_of_endsIn hrun
  exact ⟨_, k, h, of_decide_eq_true hcheck, semaphores_agree h⟩

end Semaphores

end Kernel

end NatBox
