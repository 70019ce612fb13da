import NatBox.Kernel.Runs

/-
What moves and openings do besides moving processes between states and queues.

`Schedules` is what most of them leave alone: messages, stacks, who is alive and who is in
the middle of `kill`.  `Change` and `Opening.change` single out the others.
-/

namespace NatBox

open Function Relation

/-- What happens when processes are moved between states and queues, or get another
priority. -/
def Happening.schedules : Happening → Bool
  | .changesPrio _ _ | .readied _ | .runs _ | .stays | .suspends _ | .waits _ _ | .releases _ _
  | .sleeps _ _ | .tick | .wakes _ | .unsleeps _ => true
  | _ => false

namespace Kernel

section Changes

variable {a b c : Kernel QueueLists} {p : Int} {e : Happening}

/-- Processes may change their states, their priorities and what they wait for. -/
structure Schedules (a b : Kernel QueueLists) : Prop where
  entry : ∀ p, b.proctab p = { a.proctab p with
    prstate := (b.proctab p).prstate
    prprio := (b.proctab p).prprio
    prsem := (b.proctab p).prsem }
  free : ∀ p, (b.proctab p).prstate = .free ↔ (a.proctab p).prstate = .free
  kill : ∀ x v, b.context x = .kill v ↔ a.context x = .kill v
  prcount : b.prcount = a.prcount
  memory : b.memory = a.memory
  history : ∃ es, b.history = es ++ a.history ∧ ∀ e ∈ es, e.schedules = true

theorem Schedules.of_eq (hp : b.proctab = a.proctab) (hc : b.context = a.context)
    (hn : b.prcount = a.prcount) (hm : b.memory = a.memory) (hh : b.history = a.history) :
    Schedules a b where
  entry p := by rw [hp]
  free p := by rw [hp]
  kill x v := by rw [hc]
  prcount := hn
  memory := hm
  history := ⟨[], hh, fun e he => nomatch he⟩

theorem Schedules.trans (h : Schedules a b) (h' : Schedules b c) : Schedules a c where
  entry p := by
    have he := h'.entry p
    rw [h.entry p] at he
    exact he
  free p := (h'.free p).trans (h.free p)
  kill x v := (h'.kill x v).trans (h.kill x v)
  prcount := h'.prcount.trans h.prcount
  memory := h'.memory.trans h.memory
  history := by
    obtain ⟨es, heq, hes⟩ := h.history
    obtain ⟨fs, hfeq, hfs⟩ := h'.history
    refine ⟨fs ++ es, by rw [hfeq, heq, List.append_assoc], fun e he => ?_⟩
    exact (List.mem_append.mp he).elim (hfs e) (hes e)

theorem Schedules.note (h : Schedules a b) (he : e.schedules = true) : Schedules a (b.note e) :=
  h.trans
    { entry := fun _ => rfl
      free := fun _ => Iff.rfl
      kill := fun _ _ => Iff.rfl
      prcount := rfl
      memory := rfl
      history := ⟨[e], rfl, fun x hx => by
        rw [List.mem_singleton.mp hx]
        exact he⟩ }

/-- A process that is alive and stays so. -/
theorem Schedules.of_update (entry : Procent) (halive : (a.proctab p).prstate ≠ .free)
    (hst : entry.prstate ≠ .free)
    (hentry : entry = { a.proctab p with
      prstate := entry.prstate
      prprio := entry.prprio
      prsem := entry.prsem })
    (hp : b.proctab = update a.proctab p entry) (hc : b.context = a.context)
    (hn : b.prcount = a.prcount) (hm : b.memory = a.memory) (hh : b.history = a.history) :
    Schedules a b where
  entry x := by
    by_cases hx : x = p
    · subst hx
      simpa [hp] using hentry
    · simp [hp, hx]
  free x := by
    by_cases hx : x = p
    · subst hx
      simp [hp, halive, hst]
    · simp [hp, hx]
  kill x v := by rw [hc]
  prcount := hn
  memory := hm
  history := ⟨[], hh, fun e he => nomatch he⟩

theorem Schedules.setContext (c : Context) (hc : c.isKill = false)
    (ha : (a.context p).isKill = false) : Schedules a (a.setContext p c) where
  entry _ := rfl
  free _ := Iff.rfl
  kill x v := by
    by_cases hx : x = p
    · subst hx
      refine iff_of_false (fun he => ?_) fun he => ?_
      · rw [show (a.setContext x c).context x = c by simp [Kernel.setContext]] at he
        rw [he] at hc
        cases hc
      · rw [he] at ha
        cases ha
    · simp [Kernel.setContext, hx]
  prcount := rfl
  memory := rfl
  history := ⟨[], rfl, fun e he => nomatch he⟩

theorem Schedules.makeReady (h : Schedules a b) (hp : IsPid p)
    (halive : (a.proctab p).prstate ≠ .free) : Schedules a (b.makeReady p) := by
  have hb : (b.proctab p).prstate ≠ .free := fun hf => halive ((h.free p).mp hf)
  rw [makeReady_eq hp]
  refine Schedules.note (h.trans ?_) rfl
  exact .of_update { b.proctab p with prstate := .ready } hb (fun h => nomatch h) rfl rfl rfl rfl
    rfl rfl

theorem Schedules.unsleep (hp : IsPid p)
    (hst : (a.proctab p).prstate = .sleep ∨ (a.proctab p).prstate = .rectim) :
    Schedules a (a.unsleep p) := by
  rw [unsleep_eq hp hst]
  refine Schedules.note ?_ rfl
  unfold Kernel.charged
  split
  · exact .of_eq rfl rfl rfl rfl rfl
  · exact .of_eq rfl rfl rfl rfl rfl

/-- What a move does to messages and stacks. -/
inductive Change (a : Kernel QueueLists) : Kernel QueueLists → Prop
  | schedules {b : Kernel QueueLists} : Schedules a b → Change a b
  | sends (p : Int) (msg : UInt32) : (a.proctab p).prstate ≠ .free →
      (a.proctab p).prhasmsg = false →
      Change a ((a.setProc p { a.proctab p with prmsg := msg, prhasmsg := true }).note
        (.sent p msg))
  | takes : (a.proctab a.currpid).prhasmsg = true →
      (a.proctab a.currpid).prstate ≠ .free → Change a a.takeMsg.2
  | timesOut : (a.proctab a.currpid).prhasmsg = false → Change a (a.note (.timesOut a.currpid))
  | creates (p prio : Int) (saddr ssize : Nat) (memory : Heap) : IsPid p →
      (a.proctab p).prstate = .free → ssize ≤ 2 ^ 32 - 8 →
      a.memory.getstk ssize = (some saddr, memory) →
      Change a ((({ a with memory := memory, prcount := a.prcount + 1 }.setProc p
        (a.newProc p prio saddr ssize)).setContext p .user).note (.created p prio))

theorem Move.change (hm : Move a b) (hg : Good a) : Change a b := by
  have hsame : ∀ {b : Kernel QueueLists}, b.proctab = a.proctab → b.context = a.context →
      b.prcount = a.prcount → b.memory = a.memory → b.history = a.history → Schedules a b :=
    fun hp hc hn hm hh => .of_eq hp hc hn hm hh
  cases hm with
  | idle | nextsem | counts | used | frees => exact .schedules (hsame rfl rfl rfl rfl rfl)
  | context c hk hr hctx => exact .schedules (.setContext c hk hctx)
  | dispatch hst =>
    obtain ⟨p, -, -, hmem, heq⟩ := hg.dispatches hst
    rw [heq]
    exact .schedules (Schedules.note (.of_update { a.proctab p with prstate := .curr }
      (hg.not_free hmem) (fun h => nomatch h) rfl rfl rfl rfl rfl rfl) rfl)
  | stays hst hkey => exact .schedules (Schedules.note (hsame rfl rfl rfl rfl rfl) rfl)
  | requeue hst =>
    exact .schedules ((hsame rfl rfl rfl rfl rfl).makeReady hg.currpid (by simp [hst]))
  | readies p hp hst =>
    refine .schedules ((hsame rfl rfl rfl rfl rfl).makeReady hp ?_)
    rcases hst with hst | hst <;> simp [hst]
  | signals s p l hs hc hl =>
    have hmem : p ∈ a.queuetab.lists (nproc + 2 * s) := by simp [hl]
    refine .schedules (Schedules.makeReady (Schedules.note ?_ rfl) (hg.placed.isPid hmem)
      (hg.not_free hmem))
    exact hsame rfl rfl rfl rfl rfl
  | wakes p l hl hkey ht =>
    have hmem : p ∈ a.queuetab.lists sleepq := by simp [hl]
    refine .schedules (Schedules.makeReady (Schedules.note ?_ rfl) (hg.placed.isPid hmem)
      (hg.not_free hmem))
    exact hsame rfl rfl rfl rfl rfl
  | unsleeps p hp hst =>
    exact .schedules ((Schedules.unsleep hp (.inr hst)).makeReady hp (by simp [hst]))
  | waits s hs hused hc hst hnull =>
    exact .schedules (Schedules.note (.of_update
      { a.proctab a.currpid with prstate := .wait, prsem := s } (by simp [hst])
      (fun h => nomatch h) rfl rfl rfl rfl rfl rfl) rfl)
  | sleeps delay st hst hd hd' hcurr hnull =>
    refine .schedules (Schedules.note (.of_update { a.proctab a.currpid with prstate := st }
      (by simp [hcurr]) ?_ rfl rfl rfl rfl rfl rfl) rfl)
    rcases hst with rfl | rfl <;> exact fun h => nomatch h
  | receives hst hnull hctx =>
    have hset : Schedules a (a.setState a.currpid .recv) :=
      .of_update { a.proctab a.currpid with prstate := .recv } (by simp [hst])
        (fun h => nomatch h) rfl rfl rfl rfl rfl rfl
    exact .schedules (hset.trans (.setContext .receive rfl hctx))
  | suspends p hp hnull hst =>
    refine .schedules (Schedules.note (.of_update { a.proctab p with prstate := .susp } ?_
      (fun h => nomatch h) rfl rfl rfl rfl rfl rfl) rfl)
    rcases hst with hst | hst <;> simp [hst]
  | sends p msg hp hst hmsg => exact .sends p msg hst hmsg
  | takes hmsg hst hctx => exact .takes hmsg (by simp [hst])
  | timesOut hmsg => exact .timesOut hmsg
  | creates p prio saddr ssize memory hp hfree hprio hsize hstk =>
    exact .creates p prio saddr ssize memory hp hfree hsize hstk

/-- What an opening does to them. -/
inductive OpeningChange (a : Kernel QueueLists) : KernelEvent → Kernel QueueLists → Prop
  | schedules {b : Kernel QueueLists} (e : KernelEvent) : Schedules a b → OpeningChange a e b
  | startsKill (p : Int) : a.killBad p = false →
      OpeningChange a (.call (.kill p)) (a.startKill p)
  | removes (p : Int) : a.context a.currpid = .kill p → IsPid p → p ≠ nullproc →
      OpeningChange a .proceed (a.remove p)

theorem Opening.change {e : KernelEvent} (ho : Opening a e b) : OpeningChange a e b := by
  cases ho with
  | same => exact .schedules e (.of_eq rfl rfl rfl rfl rfl)
  | changesPrio p newprio hbad =>
    have halive := (isbadpid_false.mp hbad).2
    exact .schedules _ (Schedules.note (.of_update
      { a.proctab p with prprio := newprio.toInt } halive halive rfl rfl rfl rfl rfl rfl) rfl)
  | startsKill p hbad => exact .startsKill p hbad
  | removes p hctx hp hnull => exact .removes p hctx hp hnull
  | ticks =>
    have hf := tickDown_fields a
    refine .schedules _ (Schedules.trans (b := a.note .tick) (Schedules.note
      (.of_eq rfl rfl rfl rfl rfl) rfl) (.of_eq hf.2.2.2.1 hf.2.1 ?_ ?_ hf.2.2.2.2))
    · unfold tickDown
      split <;> rfl
    · unfold tickDown
      split <;> rfl

/-- What a process that is removed leaves behind. -/
theorem remove_rest (a : Kernel QueueLists) (p : Int) : (a.remove p).prcount = a.prcount ∧
    (a.remove p).memory = (a.stackFreed p).memory ∧
    (a.remove p).context = update a.context a.currpid .user := by
  obtain ⟨t, f, h, heq, -⟩ := detach_queues (a.stackFreed p) p
  rw [remove_eq, heq]
  exact ⟨rfl, rfl, rfl⟩

end Changes

end Kernel

end NatBox
