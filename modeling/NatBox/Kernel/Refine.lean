import NatBox.Kernel.Moves
import Mathlib.Logic.Relation

/-
The kernel over its table of links refines the moves.

`Follows k a` says that `k` and `a` differ in the queues alone, and that the links of `k`
are the lists of `a`.  `Reaches a k` says that moves lead from `a` to a state that `k`
follows.  Each function of the kernel gets one lemma: from a state that follows a good
one it goes to where moves lead.
-/

namespace NatBox

open Function Relation

namespace Kernel

def Follows (k : Kernel Queuetab) (a : Kernel QueueLists) : Prop :=
  ∃ t, k = a.withQueues t ∧ Represents t a.queuetab

def Reaches (a : Kernel QueueLists) (k : Kernel Queuetab) : Prop :=
  ∃ a', ReflTransGen Move a a' ∧ Follows k a'

section Follows

variable {k : Kernel Queuetab} {a : Kernel QueueLists} {home : Int → Option Int} {p q : Int}

theorem Follows.setProc (h : Follows k a) (p : Int) (entry : Procent) :
    Follows (k.setProc p entry) (a.setProc p entry) := by
  obtain ⟨t, rfl, hr⟩ := h
  exact ⟨t, rfl, hr⟩

theorem Follows.proctab (h : Follows k a) : k.proctab = a.proctab := by
  obtain ⟨t, rfl, -⟩ := h
  rfl

theorem Follows.setState (h : Follows k a) (p : Int) (st : PrState) :
    Follows (k.setState p st) (a.setState p st) := by
  obtain ⟨t, rfl, hr⟩ := h
  exact ⟨t, rfl, hr⟩

theorem Follows.note (h : Follows k a) (e : Happening) : Follows (k.note e) (a.note e) := by
  obtain ⟨t, rfl, hr⟩ := h
  exact ⟨t, rfl, hr⟩

theorem Follows.setContext (h : Follows k a) (p : Int) (c : Context) :
    Follows (k.setContext p c) (a.setContext p c) := by
  obtain ⟨t, rfl, hr⟩ := h
  exact ⟨t, rfl, hr⟩

theorem Follows.setCount (h : Follows k a) (s c : Int) :
    Follows (k.setCount s c) (a.setCount s c) := by
  obtain ⟨t, rfl, hr⟩ := h
  exact ⟨t, rfl, hr⟩

theorem Follows.setUsed (h : Follows k a) (s : Int) (u : Bool) :
    Follows (k.setUsed s u) (a.setUsed s u) := by
  obtain ⟨t, rfl, hr⟩ := h
  exact ⟨t, rfl, hr⟩

theorem Follows.isempty (h : Follows k a) (hq : IsQueue q) : k.isempty q = a.isempty q := by
  obtain ⟨t, rfl, hr⟩ := h
  unfold Kernel.isempty
  rw [← hr.firstid hq]
  rfl

theorem Follows.firstid (h : Follows k a) (hq : IsQueue q) :
    QueueTable.firstid k.queuetab q = QueueTable.firstid a.queuetab q := by
  obtain ⟨t, rfl, hr⟩ := h
  exact hr.firstid hq

theorem Follows.qkey (h : Follows k a) (i : Int) :
    QueueTable.qkey k.queuetab i = QueueTable.qkey a.queuetab i := by
  obtain ⟨t, rfl, hr⟩ := h
  exact hr.qkey i

theorem Follows.firstkey (h : Follows k a) (hq : IsQueue q) : k.firstkey q = a.firstkey q := by
  unfold Kernel.firstkey
  rw [h.firstid hq, h.qkey]

/-- A process on a queue is taken off it. -/
theorem Follows.pop (h : Follows k a) (hp : Placed a.queuetab home) (hq : IsQueue q)
    (hmem : p ∈ a.queuetab.lists q) : Follows (k.getitem p) (a.pop p) := by
  obtain ⟨t, rfl, hr⟩ := h
  exact ⟨QueueTable.getitem t p, rfl, hr.getitem hp hq hmem⟩

theorem Follows.getfirst (h : Follows k a) (hp : Placed a.queuetab home) (hq : IsQueue q)
    {l : List Int} (hl : a.queuetab.lists q = p :: l) :
    (k.getfirst q).1 = p ∧ Follows (k.getfirst q).2 (a.pop p) := by
  have hmem : p ∈ a.queuetab.lists q := by simp [hl]
  rw [getfirst_eq ((h.firstid hq).trans (firstid_of_cons hl)) (hp.isPid hmem)]
  exact ⟨rfl, h.pop hp hq hmem⟩

theorem Follows.dequeue (h : Follows k a) (hp : Placed a.queuetab home) (hq : IsQueue q)
    {l : List Int} (hl : a.queuetab.lists q = p :: l) :
    (k.dequeue q).1 = p ∧ Follows (k.dequeue q).2 (a.pop p) := by
  have hmem : p ∈ a.queuetab.lists q := by simp [hl]
  have hpid := hp.isPid hmem
  rw [dequeue_eq hq ((h.firstid hq).trans (firstid_of_cons hl)) hpid]
  refine ⟨rfl, ?_⟩
  obtain ⟨t, rfl, hr⟩ := h
  exact ⟨QueueTable.clear (QueueTable.getitem t p) p, rfl,
    (hr.getitem hp hq hmem).clear hp.getitem hpid (update_self _ _ _)⟩

theorem Follows.makeReady (h : Follows k a) (hc : Coherent a home) (hp : IsPid p)
    (hnone : home p = none) : Follows (k.makeReady p) (a.makeReady p) := by
  rw [makeReady_eq hp, makeReady_eq hp]
  obtain ⟨t, rfl, hr⟩ := h
  exact ⟨QueueTable.insert t p readylist (a.proctab p).prprio, rfl,
    hr.insert hc.placed isQueue_readylist hp hnone (hc.prio p)⟩

theorem Follows.dispatch (h : Follows k a) (hg : Good a)
    (hst : (a.proctab a.currpid).prstate ≠ .curr) : Follows k.dispatch a.dispatch := by
  obtain ⟨p, l, hl⟩ := hg.ready_ne_nil hst
  have hmem : p ∈ a.queuetab.lists readylist := by simp [hl]
  have hpid := hg.placed.isPid hmem
  rw [dispatch_eq ((h.firstid isQueue_readylist).trans (firstid_of_cons hl)) hpid,
    dispatch_eq (firstid_of_cons hl) hpid]
  obtain ⟨t, rfl, hr⟩ := h
  exact ⟨QueueTable.clear (QueueTable.getitem t p) p, rfl,
    (hr.getitem hg.placed isQueue_readylist hmem).clear hg.placed.getitem hpid
      (update_self _ _ _)⟩

theorem Follows.enqueue (h : Follows k a) (hp : Placed a.queuetab home) (hq : IsQueue q)
    (hpid : IsPid p) (hnone : home p = none) (hst : (a.proctab p).prstate ≠ .free) :
    Follows (k.enqueue p q) (a.setQueues (QueueTable.enqueue a.queuetab p q)) := by
  rw [enqueue_eq hq hpid (by rwa [h.proctab])]
  obtain ⟨t, rfl, hr⟩ := h
  exact ⟨QueueTable.enqueue t p q, rfl, hr.enqueue hp hq hpid hnone⟩

theorem Follows.unsleep (h : Follows k a) (hg : Good a) (hp : IsPid p)
    (hst : (a.proctab p).prstate = .sleep ∨ (a.proctab p).prstate = .rectim) :
    Follows (k.unsleep p) (a.unsleep p) := by
  have hmem := hg.mem_of_home hp (home_of_sleeping hst)
  have hbad : k.isbadpid p = a.isbadpid p := by
    unfold isbadpid
    rw [h.proctab]
  have hchg := hg.charged p
  unfold Kernel.unsleep
  rw [hbad, h.proctab]
  split
  · exact h
  · split
    · exact h
    · obtain ⟨t, rfl, hr⟩ := h
      have hbehind : QueueTable.behind t sleepq p = QueueTable.behind a.queuetab sleepq p :=
        hr.behind isQueue_sleepq hmem
      show Follows (((if QueueTable.behind t sleepq p < nproc then
        (a.withQueues t).setQueues (QueueTable.addKey t (QueueTable.behind t sleepq p)
          (QueueTable.qkey t p)) else a.withQueues t).getitem p).note _)
        (((a.charged p).getitem p).note _)
      rw [hbehind, hr.qkey]
      have hf := charged_fields (a := a) p
      refine Follows.note (Follows.pop ?_ hchg.placed isQueue_sleepq (by rwa [hf.2.2.2])) _
      unfold charged
      split
      · exact ⟨QueueTable.addKey t (QueueTable.behind a.queuetab sleepq p)
          (QueueTable.qkey a.queuetab p), rfl, hr.addKey _ _⟩
      · exact ⟨t, rfl, hr⟩

end Follows

/-! ## Functions that call `resched` -/

section Reaches

variable {k k' : Kernel Queuetab} {a b : Kernel QueueLists} {home : Int → Option Int} {p : Int}

theorem Follows.reaches (h : Follows k a) : Reaches a k := ⟨a, .refl, h⟩

theorem Reaches.after (hm : Move a b) (h : Reaches b k) : Reaches a k := by
  obtain ⟨c, hr, hf⟩ := h
  exact ⟨c, .head hm hr, hf⟩

theorem Good.moves (h : Good a) (hm : ReflTransGen Move a b) : Good b := by
  induction hm with
  | refl => exact h
  | tail _ hm ih => exact ih.move hm

/-- From where moves have led, further. -/
theorem Reaches.andThen (h : Reaches a k) (hg : Good a)
    (hk : ∀ b, Good b → Follows k b → Reaches b k') : Reaches a k' := by
  obtain ⟨b, hr, hf⟩ := h
  obtain ⟨c, hr', hf'⟩ := hk b (hg.moves hr) hf
  exact ⟨c, hr.trans hr', hf'⟩

theorem Follows.currpid (h : Follows k a) : k.currpid = a.currpid := by
  obtain ⟨t, rfl, -⟩ := h
  rfl

theorem reaches_resched (h : Follows k a) (hg : Good a) : Reaches a k.resched := by
  unfold resched
  split
  · obtain ⟨t, rfl, hr⟩ := h
    exact .after (.idle a.ndefers true a.preempt a.nextpid)
      (Follows.reaches ⟨t, rfl, hr⟩)
  · have hcur : (k.proctab k.currpid).prstate = (a.proctab a.currpid).prstate := by
      obtain ⟨t, rfl, -⟩ := h
      rfl
    rw [hcur]
    split
    · rename_i hst
      split
      · rename_i hkey
        rw [h.firstkey isQueue_readylist, h.proctab, h.currpid] at hkey
        exact .after (.stays hst hkey) (h.note _).reaches
      · have hpid : k.currpid = a.currpid := by
          obtain ⟨t, rfl, -⟩ := h
          rfl
        have hmove : Move a (a.makeReady a.currpid) := .requeue hst
        have hready : (a.makeReady a.currpid).proctab (a.makeReady a.currpid).currpid =
            { a.proctab a.currpid with prstate := .ready } := by
          rw [makeReady_eq hg.currpid]
          simp [Kernel.note, setQueues, Kernel.setState, Kernel.setProc]
        have hne : ((a.makeReady a.currpid).proctab (a.makeReady a.currpid).currpid).prstate ≠
            .curr := by
          rw [hready]
          simp
        have hf := h.makeReady hg hg.currpid (home_none (by simp [hst]))
        rw [hpid]
        exact .after hmove (.after (.dispatch hne) (hf.dispatch (hg.move hmove) hne).reaches)
    · rename_i hst
      exact .after (.dispatch hst) (h.dispatch hg hst).reaches

theorem reaches_leave (h : Follows k a) (hg : Good a) {c : Context} (hc : c.isKill = false)
    (hr : c ≠ .receive) (hctx : (a.context a.currpid).isKill = false) :
    Reaches a (k.leave c) := by
  have hmove : Move a (a.setContext a.currpid c) := .context c hc hr hctx
  have hf := h.setContext k.currpid c
  rw [h.currpid] at hf
  unfold leave
  rw [h.currpid]
  exact .after hmove (reaches_resched hf (hg.move hmove))

theorem ready_eq {Q : Type} [QueueTable Q] {k : Kernel Q} (hp : IsPid p)
    (hst : (k.proctab p).prstate ≠ .free) : k.ready p = (k.makeReady p).resched := by
  unfold ready
  rw [isbadpid_false.mpr ⟨hp, hst⟩]
  rfl

/-- While rescheduling is deferred, a process made ready is only that. -/
theorem ready_deferred {Q : Type} [QueueTable Q] {k : Kernel Q} (hd : 0 < k.ndefers) (hp : IsPid p)
    (hst : (k.proctab p).prstate ≠ .free) :
    k.ready p = (k.makeReady p).attempted := by
  have hdefers : 0 < (k.makeReady p).ndefers := by
    rw [makeReady_eq hp]
    exact hd
  rw [ready_eq hp hst]
  unfold resched
  rw [if_pos hdefers]

theorem release_deferred {Q : Type} [QueueTable Q] {r : Int × Kernel Q} (hd : 0 < r.2.ndefers)
    (hr : r.1 = p) (hp : IsPid p) (hst : (r.2.proctab p).prstate ≠ .free) (s : Int) :
    release s r = ((r.2.note (.releases p s)).makeReady p).attempted := by
  unfold release
  rw [hr]
  exact ready_deferred hd hp hst

/-- A process that a move has made ready, and `resched`. -/
theorem reaches_ready (h : Follows k b) (hc : Coherent b home) (hp : IsPid p)
    (hnone : home p = none) (hst : (b.proctab p).prstate ≠ .free)
    (hm : Move a (b.makeReady p)) (hg : Good a) : Reaches a (k.ready p) := by
  rw [ready_eq hp (by rwa [h.proctab])]
  exact .after hm (reaches_resched (h.makeReady hc hp hnone) (hg.move hm))

theorem Follows.ndefers (h : Follows k a) : k.ndefers = a.ndefers := by
  obtain ⟨t, rfl, -⟩ := h
  rfl

theorem Follows.attempted (h : Follows k a) :
    Follows k.attempted a.attempted := by
  obtain ⟨t, rfl, hr⟩ := h
  exact ⟨t, rfl, hr⟩

theorem reaches_deferStop (h : Follows k a) (hg : Good a) : Reaches a k.deferStop := by
  unfold deferStop
  split
  · exact h.reaches
  · have hmove : Move a { a with ndefers := a.ndefers - 1 } :=
      .idle (a.ndefers - 1) a.attempt a.preempt a.nextpid
    have hf : Follows { k with ndefers := k.ndefers - 1 } { a with ndefers := a.ndefers - 1 } := by
      obtain ⟨t, rfl, hr⟩ := h
      exact ⟨t, rfl, hr⟩
    dsimp only
    split
    · exact .after hmove (reaches_resched hf (hg.move hmove))
    · exact .after hmove hf.reaches

/-! ## Semaphores -/

theorem Follows.semtab (h : Follows k a) : k.semtab = a.semtab := by
  obtain ⟨t, rfl, -⟩ := h
  rfl

/-- A process on a queue is not free. -/
theorem Good.not_free (h : Good a) {q : Int} (hmem : p ∈ a.queuetab.lists q) :
    (a.proctab p).prstate ≠ .free := by
  intro hst
  have hhome := h.home_eq hmem
  rw [home_none (by simp [hst])] at hhome
  cases hhome

/-- Somebody waits on a semaphore with a negative count. -/
theorem Good.sem_ne_nil (h : Good a) {s : Int} (hs : 0 ≤ s ∧ s < nsem)
    (hc : (a.semtab s).scount < 0) : ∃ p l, a.queuetab.lists (nproc + 2 * s) = p :: l := by
  have hlen := h.count s hs
  cases hl : a.queuetab.lists (nproc + 2 * s) with
  | nil =>
    rw [hl, List.length_nil] at hlen
    omega
  | cons p l => exact ⟨p, l, rfl⟩

theorem release_popped {s : Int} {l : List Int} (hg : Good a) (hs : 0 ≤ s ∧ s < nsem)
    (hl : a.queuetab.lists (nproc + 2 * s) = p :: l) :
    Coherent (((a.setCount s ((a.semtab s).scount + 1)).pop p).note (.releases p s))
      (update a.home p none) :=
  (hg.popSem hs (by simp [hl])).congr rfl rfl rfl rfl

/-- The first waiting process is made ready, its semaphore counting one more. -/
theorem reaches_release {s : Int} {l : List Int} {r : Int × Kernel Queuetab} (hg : Good a)
    (hs : 0 ≤ s ∧ s < nsem) (hc : (a.semtab s).scount < 0)
    (hl : a.queuetab.lists (nproc + 2 * s) = p :: l) (hr : r.1 = p)
    (hf : Follows r.2 ((a.setCount s ((a.semtab s).scount + 1)).pop p)) :
    Reaches a (release s r) := by
  have hmem : p ∈ a.queuetab.lists (nproc + 2 * s) := by simp [hl]
  unfold release
  rw [hr]
  exact reaches_ready (hf.note _) (release_popped hg hs hl) (hg.placed.isPid hmem)
    (update_self _ _ _) (hg.not_free hmem) (.signals s p l hs hc hl) hg

theorem reaches_signalOnce (h : Follows k a) (hg : Good a) {s : Int} (hs : 0 ≤ s ∧ s < nsem) :
    Reaches a (k.signalOnce s) := by
  unfold signalOnce
  dsimp only
  rw [h.semtab]
  split
  · rename_i hc
    obtain ⟨p, l, hl⟩ := hg.sem_ne_nil hs hc
    rw [hg.squeue s hs]
    have hpop := (h.setCount s ((a.semtab s).scount + 1)).dequeue hg.placed (isQueue_sem hs) hl
    exact reaches_release hg hs hc hl hpop.1 hpop.2
  · rename_i hc
    exact .after (.counts s _ hs (.inl (by omega)) (by omega)) (h.setCount s _).reaches

theorem reaches_signalTimes {s : Int} (hs : 0 ≤ s ∧ s < nsem) (count : Nat) (h : Follows k a)
    (hg : Good a) : Reaches a (signalTimes s count k) := by
  induction count generalizing k a with
  | zero => exact h.reaches
  | succ count ih => exact (reaches_signalOnce h hg hs).andThen hg fun b hb hf => ih hf hb

theorem reaches_semdeleteLoop {s : Int} (hs : 0 ≤ s ∧ s < nsem) (fuel : Nat) (h : Follows k a)
    (hg : Good a) : Reaches a (semdeleteLoop s fuel k) := by
  induction fuel generalizing k a with
  | zero => exact h.reaches
  | succ fuel ih =>
    unfold semdeleteLoop
    dsimp only
    rw [h.semtab]
    split
    · rename_i hc
      obtain ⟨p, l, hl⟩ := hg.sem_ne_nil hs hc
      have hf := h.setCount s ((a.semtab s).scount + 1)
      have hq : ((k.setCount s ((a.semtab s).scount + 1)).semtab s).squeue = nproc + 2 * s := by
        rw [squeue_setCount, h.semtab, hg.squeue s hs]
      rw [hq]
      have hpop := hf.getfirst hg.placed (isQueue_sem hs) hl
      exact (reaches_release hg hs hc hl hpop.1 hpop.2).andThen hg fun b hb hf => ih hf hb
    · rename_i hc
      exact .after (.counts s _ hs (.inl (by omega)) (by omega)) (h.setCount s _).reaches

/-! `semreset` leaves the count alone until its loop is done, and `semdelete` frees the
semaphore before its loop.  What is ready does not depend on the semaphores, so that the
count may as well be changed in the loop, and the semaphore freed after it. -/

section SetSems

variable {Q : Type} (k : Kernel Q) (f : Int → Sentry) (s p q : Int)

/-- The same state over other semaphores. -/
def setSems : Kernel Q := { k with semtab := f }

variable [QueueTable Q]

theorem insert_setSems (key : Int) :
    (k.setSems f).insert p q key = (k.insert p q key).setSems f := by
  unfold insert
  rw [show (k.setSems f).isbadpid p = k.isbadpid p from rfl]
  by_cases h : (isbadqid q || k.isbadpid p) = true
  · rw [if_pos h, if_pos h]
  · rw [if_neg h, if_neg h]
    rfl

theorem makeReady_setSems : (k.setSems f).makeReady p = (k.makeReady p).setSems f :=
  congrArg (·.note (.readied p)) (insert_setSems (k.setState p .ready) f p readylist _)

theorem getfirst_setSems :
    (k.setSems f).getfirst q = ((k.getfirst q).1, (k.getfirst q).2.setSems f) := by
  unfold getfirst
  rw [show (k.setSems f).isempty q = k.isempty q from rfl]
  by_cases h : k.isempty q = true
  · rw [if_pos h, if_pos h]
  · rw [if_neg h, if_neg h]
    rfl

theorem dequeue_setSems :
    (k.setSems f).dequeue q = ((k.dequeue q).1, (k.dequeue q).2.setSems f) := by
  unfold dequeue
  rw [show (k.setSems f).isempty q = k.isempty q from rfl, getfirst_setSems]
  by_cases hq : isbadqid q = true
  · rw [if_pos hq, if_pos hq]
  · rw [if_neg hq, if_neg hq]
    by_cases h : k.isempty q = true
    · rw [if_pos h, if_pos h]
    · rw [if_neg h, if_neg h]
      rfl

theorem dispatch_setSems : (k.setSems f).dispatch = k.dispatch.setSems f := by
  unfold dispatch
  rw [dequeue_setSems]
  rfl

theorem resched_setSems : (k.setSems f).resched = k.resched.setSems f := by
  unfold resched
  show (if k.ndefers > 0 then k.attempted.setSems f
    else if (k.proctab k.currpid).prstate = .curr then
      if (k.proctab k.currpid).prprio > k.firstkey readylist then (k.note .stays).setSems f
      else ((k.setSems f).makeReady k.currpid).dispatch
    else (k.setSems f).dispatch) = _
  rw [makeReady_setSems, dispatch_setSems, dispatch_setSems]
  split
  · rfl
  · split
    · split <;> rfl
    · rfl

theorem ready_setSems : (k.setSems f).ready p = (k.ready p).setSems f := by
  unfold ready
  rw [makeReady_setSems, resched_setSems, show (k.setSems f).isbadpid p = k.isbadpid p from rfl]
  by_cases h : k.isbadpid p = true
  · rw [if_pos h, if_pos h]
  · rw [if_neg h, if_neg h]

theorem release_setSems (r : Int × Kernel Q) :
    release s (r.1, r.2.setSems f) = (release s r).setSems f :=
  ready_setSems (r.2.note (.releases r.1 s)) f r.1

/-! The semaphores stay as they are. -/

theorem semtab_makeReady : (k.makeReady p).semtab = k.semtab := by
  have h : k.makeReady p = (k.makeReady p).setSems k.semtab := makeReady_setSems k k.semtab p
  rw [h]
  rfl

theorem semtab_ready : (k.ready p).semtab = k.semtab := by
  have h : k.ready p = (k.ready p).setSems k.semtab := ready_setSems k k.semtab p
  rw [h]
  rfl

theorem semtab_getfirst : (k.getfirst q).2.semtab = k.semtab := by
  have h : k.getfirst q = ((k.getfirst q).1, (k.getfirst q).2.setSems k.semtab) :=
    getfirst_setSems k k.semtab q
  rw [h]
  rfl

theorem semtab_release : (release s (k.getfirst q)).semtab = k.semtab :=
  (semtab_ready _ _).trans (semtab_getfirst k q)

theorem makeReady_setCount (c : Int) :
    (k.setCount s c).makeReady p = (k.makeReady p).setCount s c := by
  have h := makeReady_setSems k (k.setCount s c).semtab p
  unfold setCount
  rw [semtab_makeReady]
  exact h

theorem getfirst_setCount (c : Int) :
    (k.setCount s c).getfirst q = ((k.getfirst q).1, (k.getfirst q).2.setCount s c) := by
  have h := getfirst_setSems k (k.setCount s c).semtab q
  unfold setCount
  rw [semtab_getfirst]
  exact h

omit [QueueTable Q] in
theorem setUsed_setCount (c : Int) (u : Bool) :
    (k.setUsed s u).setCount s c = (k.setCount s c).setUsed s u := by
  simp [setUsed, setCount]

theorem release_setUsed (u : Bool) : release s ((k.setUsed s u).getfirst q) =
    (release s (k.getfirst q)).setUsed s u := by
  have hfirst : (k.setUsed s u).getfirst q =
      ((k.getfirst q).1, (k.getfirst q).2.setSems (k.setUsed s u).semtab) :=
    getfirst_setSems k _ q
  have hused : (release s (k.getfirst q)).setUsed s u =
      (release s (k.getfirst q)).setSems (k.setUsed s u).semtab := by
    unfold setUsed
    rw [semtab_release]
    rfl
  rw [hfirst, hused]
  exact release_setSems _ s _

theorem semdeleteLoop_setUsed (u : Bool) (fuel : Nat) :
    semdeleteLoop s fuel (k.setUsed s u) = (semdeleteLoop s fuel k).setUsed s u := by
  induction fuel generalizing k with
  | zero => rfl
  | succ fuel ih =>
    have hcount : ((k.setUsed s u).semtab s).scount = (k.semtab s).scount := by simp [setUsed]
    have hqueue : ∀ k' : Kernel Q, ((k'.setUsed s u).semtab s).squeue = (k'.semtab s).squeue :=
      fun _ => by simp [setUsed]
    unfold semdeleteLoop
    dsimp only
    rw [hcount, setUsed_setCount, hqueue, release_setUsed, ih]
    split <;> rfl

/-- Enough rounds bring the count of the semaphore up to zero. -/
theorem semdeleteLoop_count (fuel : Nat) (hfuel : -(k.semtab s).scount < fuel) :
    0 ≤ ((semdeleteLoop s fuel k).semtab s).scount := by
  induction fuel generalizing k with
  | zero =>
    show 0 ≤ (k.semtab s).scount
    omega
  | succ fuel ih =>
    have hset : ((k.setCount s ((k.semtab s).scount + 1)).semtab s).scount =
        (k.semtab s).scount + 1 := by simp [setCount]
    unfold semdeleteLoop
    dsimp only
    split
    · refine ih _ ?_
      rw [semtab_release, hset]
      omega
    · rw [hset]
      omega

end SetSems

theorem setCount_setCount {Q : Type} (k : Kernel Q) (s c d : Int) :
    (k.setCount s c).setCount s d = k.setCount s d := by
  simp [Kernel.setCount]

theorem setCount_self {Q : Type} (k : Kernel Q) (s : Int) :
    k.setCount s (k.semtab s).scount = k := by
  show { k with semtab := update k.semtab s (k.semtab s) } = k
  rw [update_eq_self]

theorem firstid_of_nil {q : Int} (hl : a.queuetab.lists q = []) :
    QueueTable.firstid a.queuetab q = q + 1 := by
  show (a.queuetab.lists q).headD (q + 1) = q + 1
  rw [hl, List.headD_nil]

theorem Follows.getfirst_nil (h : Follows k a) {q : Int} (hq : IsQueue q)
    (hl : a.queuetab.lists q = []) : k.getfirst q = (empty, k) := by
  have hempty : k.isempty q = true := by
    unfold Kernel.isempty
    rw [h.firstid hq, firstid_of_nil hl]
    have hge := hq.1
    exact decide_eq_true (by omega)
  unfold Kernel.getfirst
  rw [if_pos hempty]

/-- The loop of `semreset` empties the queue. -/
theorem reaches_semresetLoop {s : Int} (hs : 0 ≤ s ∧ s < nsem) (fuel : Nat) {c : Int}
    (h : Follows (k.setCount s c) a) (hg : Good a) (hd : 0 < k.ndefers)
    (hfuel : (a.queuetab.lists (nproc + 2 * s)).length < fuel) :
    ∃ b d, ReflTransGen Move a b ∧ Follows ((semresetLoop s fuel k).setCount s d) b ∧
      b.queuetab.lists (nproc + 2 * s) = [] := by
  induction fuel generalizing k a c with
  | zero => exact absurd hfuel (Nat.not_lt_zero _)
  | succ fuel ih =>
    have hq : (k.semtab s).squeue = nproc + 2 * s := by
      have hsq := congrFun h.semtab s
      rw [← hg.squeue s hs, ← hsq, squeue_setCount]
    unfold semresetLoop
    dsimp only
    rw [hq]
    cases hl : a.queuetab.lists (nproc + 2 * s) with
    | nil =>
      have hnil := h.getfirst_nil (isQueue_sem hs) hl
      rw [getfirst_setCount] at hnil
      rw [if_neg (by
        rw [(Prod.mk.inj hnil).1]
        exact not_not.mpr rfl)]
      exact ⟨a, c, .refl, h, hl⟩
    | cons p l =>
      have hmem : p ∈ a.queuetab.lists (nproc + 2 * s) := by simp [hl]
      have hpid := hg.placed.isPid hmem
      have hpop := h.getfirst hg.placed (isQueue_sem hs) hl
      rw [getfirst_setCount] at hpop
      obtain ⟨hfirst, hrest⟩ := hpop
      dsimp only at hfirst hrest
      rw [if_pos (by
        rw [hfirst]
        have h0 := hpid.1
        unfold empty
        omega)]
      have hc : (a.semtab s).scount < 0 := by
        have hlen := hg.count s hs
        rw [hl, List.length_cons] at hlen
        omega
      have hpopped := (hrest.setCount s ((a.semtab s).scount + 1)).note (.releases p s)
      rw [setCount_setCount] at hpopped
      have hst := hg.not_free hmem
      have hmove := Move.signals s p l hs hc hl
      have hready :=
        (hpopped.makeReady (release_popped hg hs hl) hpid (update_self _ _ _)).attempted
      have hdefers : 0 < (k.getfirst (nproc + 2 * s)).2.ndefers := by
        have hkd : k.ndefers = a.ndefers := h.ndefers
        have hrd : (k.getfirst (nproc + 2 * s)).2.ndefers = a.ndefers := hrest.ndefers
        omega
      have hround := release_deferred hdefers hfirst hpid (by
        have hproc : (k.getfirst (nproc + 2 * s)).2.proctab = a.proctab := hrest.proctab
        rwa [hproc]) s
      have hnext : Follows ((release s (k.getfirst (nproc + 2 * s))).setCount s
          ((a.semtab s).scount + 1))
          ((((a.setCount s ((a.semtab s).scount + 1)).pop p).note
            (.releases p s)).makeReady p).attempted := by
        have hcomm := makeReady_setCount ((k.getfirst (nproc + 2 * s)).2.note (.releases p s)) s p
          ((a.semtab s).scount + 1)
        rw [hround]
        show Follows ((((k.getfirst (nproc + 2 * s)).2.note (.releases p s)).makeReady p).setCount s
          ((a.semtab s).scount + 1)).attempted _
        rw [← hcomm]
        exact hready
      have hgood := hg.move hmove
      have hlists : ((((a.setCount s ((a.semtab s).scount + 1)).pop p).note
          (.releases p s)).makeReady p).queuetab.lists (nproc + 2 * s) = l := by
        rw [makeReady_eq hpid]
        show update (fun q => (a.queuetab.lists q).erase p) readylist _ (nproc + 2 * s) = l
        rw [update_of_ne (readylist_ne hs).symm, hl, List.erase_cons_head]
      obtain ⟨b, d, hb, hf, hnil⟩ := ih hnext (hgood.congr rfl rfl rfl rfl) (by
        rw [hround, makeReady_eq hpid]
        exact hdefers) (by
        rw [hl, List.length_cons] at hfuel
        show (((((a.setCount s ((a.semtab s).scount + 1)).pop p).note
          (.releases p s)).makeReady p).queuetab.lists (nproc + 2 * s)).length < fuel
        rw [hlists]
        exact Nat.lt_of_succ_lt_succ hfuel)
      exact ⟨b, d, .head hmove (.head (.idle _ true _ _) hb), hf, hnil⟩

/-! ## The clock -/

theorem isempty_iff (hp : Placed a.queuetab home) {q : Int} (hq : IsQueue q) :
    a.isempty q = true ↔ a.queuetab.lists q = [] := by
  unfold Kernel.isempty
  rw [decide_eq_true_iff]
  cases hl : a.queuetab.lists q with
  | nil =>
    rw [firstid_of_nil hl]
    have hge := hq.1
    exact iff_of_true (by omega) rfl
  | cons p l =>
    have hlt := (hp.isPid (p := p) (q := q) (by simp [hl])).2
    rw [firstid_of_cons hl]
    exact iff_of_false (by omega) (by simp)

theorem firstkey_of_cons {q : Int} {l : List Int} (hl : a.queuetab.lists q = p :: l) :
    a.firstkey q = a.queuetab.key p := by
  unfold Kernel.firstkey
  rw [firstid_of_cons hl]
  rfl

/-- A process that is woken. -/
theorem Good.popWoken (h : Good a) {l : List Int} (hl : a.queuetab.lists sleepq = p :: l) :
    Coherent ((a.pop p).note (.wakes p)) (update a.home p none) := by
  refine Coherent.congr (Coherent.pop h fun s hs heq => ?_) rfl rfl rfl rfl
  rw [h.home_eq (q := sleepq) (by simp [hl])] at heq
  exact sleepq_ne hs (Option.some.inj heq)

/-- What every wake-up keeps holds when the loop of `wakeup` is done, and then nobody is left
whose time is over. -/
theorem reaches_wakeupLoop {I : Kernel QueueLists → Prop}
    (hwake : ∀ a p l, Good a → (∀ q, 1 ≤ ticksSince q a.history) → I a →
      a.queuetab.lists sleepq = p :: l → a.queuetab.key p ≤ 0 →
      I (((a.pop p).note (.wakes p)).makeReady p).attempted)
    (fuel : Nat) (h : Follows k a) (hg : Good a) (hd : 0 < k.ndefers)
    (ht : ∀ p, 1 ≤ ticksSince p a.history) (hI : I a)
    (hfuel : (a.queuetab.lists sleepq).length < fuel) :
    ∃ b, ReflTransGen Move a b ∧ Follows (wakeupLoop fuel k) b ∧ I b ∧
      (b.queuetab.lists sleepq = [] ∨ 0 < b.firstkey sleepq) := by
  induction fuel generalizing k a with
  | zero => exact absurd hfuel (Nat.not_lt_zero _)
  | succ fuel ih =>
    unfold wakeupLoop
    dsimp only
    rw [h.isempty isQueue_sleepq, h.firstkey isQueue_sleepq]
    cases hl : a.queuetab.lists sleepq with
    | nil =>
      rw [(isempty_iff hg.placed isQueue_sleepq).mpr hl, if_neg (by simp)]
      exact ⟨a, .refl, h, hI, .inl hl⟩
    | cons p l =>
      have hmem : p ∈ a.queuetab.lists sleepq := by simp [hl]
      have hpid := hg.placed.isPid hmem
      have hne : a.isempty sleepq = false := isempty_false (firstid_of_cons hl) hpid
      rw [hne, firstkey_of_cons hl]
      by_cases hkey : a.queuetab.key p ≤ 0
      · rw [if_pos ⟨by decide, hkey⟩]
        obtain ⟨hfirst, hrest⟩ := h.dequeue hg.placed isQueue_sleepq hl
        have hdefers : 0 < (k.dequeue sleepq).2.ndefers := by
          have hkd := h.ndefers
          have hrd : (k.dequeue sleepq).2.ndefers = a.ndefers := hrest.ndefers
          omega
        have hst : ((k.dequeue sleepq).2.proctab p).prstate ≠ .free := by
          have hproc : (k.dequeue sleepq).2.proctab = a.proctab := hrest.proctab
          rw [hproc]
          exact hg.not_free hmem
        rw [hfirst, ready_deferred (k := (k.dequeue sleepq).2.note (.wakes p)) hdefers hpid hst]
        have hmove : Move a (((a.pop p).note (.wakes p)).makeReady p) :=
          .wakes p l hl hkey (ht p)
        have hready := ((hrest.note (.wakes p)).makeReady (hg.popWoken hl) hpid
          (update_self _ _ _)).attempted
        have hlist : (((a.pop p).note (.wakes p)).makeReady p).queuetab.lists sleepq = l := by
          rw [makeReady_lists hpid (by decide)]
          show (a.queuetab.lists sleepq).erase p = l
          rw [hl, List.erase_cons_head]
        obtain ⟨b, hb, hf, hIb, hend⟩ := ih hready ((hg.move hmove).congr rfl rfl rfl rfl)
          (by
            rw [makeReady_eq hpid]
            exact hdefers)
          (fun p' => by
            rw [makeReady_eq hpid]
            exact ht p') (hwake a p l hg ht hI hl hkey) (by
            show ((((a.pop p).note (.wakes p)).makeReady p).queuetab.lists sleepq).length < fuel
            rw [hlist]
            rw [hl, List.length_cons] at hfuel
            exact Nat.lt_of_succ_lt_succ hfuel)
        exact ⟨b, .head hmove (.head (.idle _ true _ _) hb), hf, hIb, hend⟩
      · rw [if_neg fun hand => hkey hand.2]
        exact ⟨a, .refl, h, hI, .inr (by
          rw [firstkey_of_cons hl]
          omega)⟩

theorem reaches_countPreempt (h : Follows k a) (hg : Good a)
    (hctx : (a.context a.currpid).isKill = false) : Reaches a k.countPreempt := by
  obtain ⟨t, rfl, hr⟩ := h
  unfold countPreempt
  dsimp only
  split
  · exact .after (.idle a.ndefers a.attempt quantum a.nextpid)
      (reaches_leave (a := { a with preempt := quantum }) ⟨t, rfl, hr⟩
        (hg.congr rfl rfl rfl rfl) rfl (fun h => nomatch h) hctx)
  · exact .after (.idle a.ndefers a.attempt (a.preempt - 1) a.nextpid)
      (.after (.context .user rfl (fun h => nomatch h) hctx) (Follows.reaches ⟨t, rfl, hr⟩))

theorem Follows.tickDown (h : Follows k a) (hg : Good a) :
    Follows k.tickDown a.tickDown ∧ Good a.tickDown := by
  unfold Kernel.tickDown
  rw [h.isempty isQueue_sleepq, h.firstid isQueue_sleepq]
  split
  · exact ⟨h.note _, hg.congr rfl rfl rfl rfl⟩
  · rename_i hempty
    have hpid : IsPid (QueueTable.firstid a.queuetab sleepq) := by
      cases hl : a.queuetab.lists sleepq with
      | nil => exact absurd ((isempty_iff hg.placed isQueue_sleepq).mpr hl) hempty
      | cons p l =>
        rw [firstid_of_cons hl]
        exact hg.placed.isPid (q := sleepq) (by simp [hl])
    refine ⟨?_, Coherent.congr (Coherent.addKey hg hpid (-1)) rfl rfl rfl rfl⟩
    obtain ⟨t, rfl, hr⟩ := h
    exact ⟨_, rfl, hr.addKey _ _⟩

theorem tickDown_fields {Q : Type} [QueueTable Q] (k : Kernel Q) :
    k.tickDown.currpid = k.currpid ∧ k.tickDown.context = k.context ∧
      k.tickDown.ndefers = k.ndefers ∧ k.tickDown.proctab = k.proctab ∧
      k.tickDown.history = .tick :: k.history := by
  unfold Kernel.tickDown
  split
  · exact ⟨rfl, rfl, rfl, rfl, rfl⟩
  · exact ⟨rfl, rfl, rfl, rfl, rfl⟩

theorem Follows.context (h : Follows k a) : k.context = a.context := by
  obtain ⟨t, rfl, -⟩ := h
  rfl

theorem Follows.history (h : Follows k a) : k.history = a.history := by
  obtain ⟨t, rfl, -⟩ := h
  rfl

/-- What the wake-ups keep that the queues and the history decide holds after them, and then
nobody is left whose time is over. -/
theorem clkhandler_wakes {I : Kernel QueueLists → Prop}
    (hsame : ∀ a b : Kernel QueueLists, b.queuetab = a.queuetab → b.history = a.history → I a → I b)
    (hwake : ∀ a p l, Good a → (∀ q, 1 ≤ ticksSince q a.history) → I a →
      a.queuetab.lists sleepq = p :: l → a.queuetab.key p ≤ 0 →
      I (((a.pop p).note (.wakes p)).makeReady p).attempted)
    (h : Follows k a) (hg : Good a) (hd : k.ndefers = 0)
    (hctx : (a.context a.currpid).isKill = false) (hI : I a.tickDown) :
    ∃ b, ReflTransGen Move a.tickDown b ∧ I b ∧
      (b.queuetab.lists sleepq = [] ∨ 0 < b.firstkey sleepq) ∧ Reaches b k.clkhandler := by
  obtain ⟨htick, hgood⟩ := h.tickDown hg
  have hka := tickDown_fields k
  have haa := tickDown_fields a
  have hctx' : (a.tickDown.context a.tickDown.currpid).isKill = false := by
    rw [haa.1, haa.2.1]
    exact hctx
  have hticks : ∀ p, 1 ≤ ticksSince p a.tickDown.history := fun p => by
    rw [haa.2.2.2.2]
    exact Nat.le_add_left 1 _
  unfold clkhandler
  rw [h.isempty isQueue_sleepq, htick.firstkey isQueue_sleepq]
  split
  · have hcur : k.currpid = a.tickDown.currpid := h.currpid.trans haa.1.symm
    have hcontext : Move a.tickDown (a.tickDown.setContext a.tickDown.currpid .clkhandler) :=
      .context .clkhandler rfl (fun h => nomatch h) hctx'
    have hdefer : Move (a.tickDown.setContext a.tickDown.currpid .clkhandler)
        (a.tickDown.setContext a.tickDown.currpid .clkhandler).deferStart :=
      .idle (a.tickDown.ndefers + 1)
        (if a.tickDown.ndefers = 0 then false else a.tickDown.attempt) a.tickDown.preempt
        a.tickDown.nextpid
    have hg₂ := (hgood.move hcontext).move hdefer
    have hf₂ : Follows (k.tickDown.setContext k.currpid .clkhandler).deferStart
        (a.tickDown.setContext a.tickDown.currpid .clkhandler).deferStart := by
      rw [hcur]
      obtain ⟨t, ht, hrep⟩ := htick
      rw [ht]
      exact ⟨t, rfl, hrep⟩
    have hlen := hg₂.placed.length_le (q := sleepq)
    obtain ⟨b, hm, hf, hIb, hend⟩ := reaches_wakeupLoop hwake (nproc.toNat + 1) hf₂ hg₂
      (by
        show 0 < k.tickDown.ndefers + 1
        rw [hka.2.2.1, hd]
        decide)
      hticks (hsame a.tickDown _ rfl rfl hI) (Nat.lt_of_le_of_lt hlen (by decide))
    exact ⟨b, .head hcontext (.head hdefer hm), hIb, hend, reaches_deferStop hf (hg₂.moves hm)⟩
  · rename_i hcond
    refine ⟨a.tickDown, .refl, hI, ?_, reaches_countPreempt htick hgood hctx'⟩
    by_cases hempty : a.isempty sleepq = true
    · refine .inl ?_
      have hnil := (isempty_iff hg.placed isQueue_sleepq).mp hempty
      unfold tickDown
      rw [if_pos hempty]
      exact hnil
    · refine .inr ?_
      rw [not_and, not_le] at hcond
      exact hcond (by simpa using hempty)

theorem reaches_clkhandler (h : Follows k a) (hg : Good a) (hd : k.ndefers = 0)
    (hctx : (a.context a.currpid).isKill = false) : Reaches a.tickDown k.clkhandler := by
  obtain ⟨b, hm, -, -, c, hc, hf⟩ := clkhandler_wakes (I := fun _ => True)
    (fun _ _ _ _ _ => trivial) (fun _ _ _ _ _ _ _ _ => trivial) h hg hd hctx trivial
  exact ⟨c, hm.trans hc, hf⟩

/-! ## Messages and termination -/

theorem Follows.isbadpid (h : Follows k a) (p : Int) : k.isbadpid p = a.isbadpid p := by
  unfold Kernel.isbadpid
  rw [h.proctab]

theorem reaches_deliver (h : Follows k a) (hg : Good a) {msg : UInt32} (hp : IsPid p)
    (hst : (a.proctab p).prstate ≠ .free) (hmsg : (a.proctab p).prhasmsg = false) :
    Reaches a (k.deliver p msg) := by
  have hmove : Move a ((a.setProc p { a.proctab p with prmsg := msg, prhasmsg := true }).note
    (.sent p msg)) := .sends p msg hp hst hmsg
  have hb := hg.move hmove
  have hf := (h.setProc p { a.proctab p with prmsg := msg, prhasmsg := true }).note (.sent p msg)
  have hproc : ((a.setProc p { a.proctab p with prmsg := msg, prhasmsg := true }).note
      (.sent p msg)).proctab p = { a.proctab p with prmsg := msg, prhasmsg := true } := by
    simp [Kernel.note, Kernel.setProc]
  generalize (a.setProc p { a.proctab p with prmsg := msg, prhasmsg := true }).note
    (.sent p msg) = b at hmove hb hf hproc
  unfold deliver
  rw [h.proctab]
  generalize (k.setProc p { a.proctab p with prmsg := msg, prhasmsg := true }).note
    (.sent p msg) = k₁ at hf
  dsimp only
  cases hs : (a.proctab p).prstate with
  | recv =>
    have hrecv : (b.proctab p).prstate = .recv := by rw [hproc]; exact hs
    exact .after hmove (reaches_ready hf hb hp (home_none (by simp [hrecv])) (by simp [hrecv])
      (.readies p hp (.inr ⟨hrecv, by rw [hproc]⟩)) hb)
  | rectim =>
    have hrectim : (b.proctab p).prstate = .rectim := by rw [hproc]; exact hs
    have hun := unsleep_eq hp (.inr hrectim)
    refine .after hmove (reaches_ready (hf.unsleep hb hp (.inr hrectim))
      (hb.unsleep hp (.inr hrectim)) hp (update_self _ _ _) ?_ (.unsleeps p hp hrectim) hb)
    rw [hun]
    show ((b.charged p).proctab p).prstate ≠ .free
    rw [(charged_fields p).1, hrectim]
    decide
  | free | curr | ready | sleep | susp | wait => exact .after hmove hf.reaches

theorem sendBad_false {Q : Type} {k : Kernel Q} (h : k.sendBad p = false) :
    IsPid p ∧ (k.proctab p).prstate ≠ .free ∧ (k.proctab p).prhasmsg = false := by
  unfold sendBad at h
  rw [Bool.or_eq_false_iff, isbadpid_false] at h
  exact ⟨h.1.1, h.1.2, h.2⟩

theorem reaches_send (h : Follows k a) (hg : Good a) (p : Int) (msg : UInt32) :
    Reaches a (k.send p msg) := by
  unfold send
  split
  · exact h.reaches
  · rename_i hbad
    have hok := sendBad_false (Bool.eq_false_iff.mpr hbad)
    rw [h.proctab] at hok
    exact reaches_deliver h hg hok.1 hok.2.1 hok.2.2

theorem Follows.takeMsg (h : Follows k a) : Follows k.takeMsg.2 a.takeMsg.2 := by
  obtain ⟨t, rfl, hr⟩ := h
  exact ⟨t, rfl, hr⟩

theorem Follows.detach (h : Follows k a) (hg : Good a) (hp : IsPid p) :
    Follows (k.detach p) (a.detach p) := by
  unfold Kernel.detach
  rw [h.proctab]
  cases hst : (a.proctab p).prstate with
  | sleep => exact h.unsleep hg hp (.inl hst)
  | rectim => exact h.unsleep hg hp (.inr hst)
  | wait =>
    have hsem := hg.prsem p hp hst
    dsimp only
    rw [h.semtab]
    exact (h.setCount _ _).pop hg.placed (isQueue_sem hsem)
      (hg.mem_of_home hp (hg.home_of_wait hp hst))
  | ready => exact h.pop hg.placed isQueue_readylist (hg.mem_of_home hp (home_of_ready hst))
  | free | curr | recv | susp => exact h

theorem Follows.remove (h : Follows k a) (hg : Good a) (hp : IsPid p) :
    Follows (k.remove p) (a.remove p) := by
  have hf : Follows (k.stackFreed p) (a.stackFreed p) := by
    obtain ⟨t, rfl, hr⟩ := h
    exact ⟨t, rfl, hr⟩
  have hdet := hf.detach (hg.congr rfl rfl rfl rfl) hp
  rw [remove_eq, remove_eq, h.currpid]
  exact ((hdet.setState p .free).note _).setContext _ _

/-- A process is removed, and `resched` called if it killed itself. -/
theorem reaches_killRest (h : Follows k a) (hg : Good a) (hp : IsPid p) (hnull : p ≠ nullproc) :
    Reaches (a.remove p) (k.killRest p).2 := by
  have hf := h.remove hg hp
  unfold killRest
  split
  · exact reaches_resched hf (hg.remove hp hnull)
  · exact hf.reaches

end Reaches

end Kernel

end NatBox
