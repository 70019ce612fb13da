import NatBox.Kernel.Refine

/-
What else every move keeps: the contexts of the processes and the semaphores that are not
used.
-/

namespace NatBox

open Function Relation

namespace Kernel

/-! ## What the contexts of the processes promise -/

structure Contexts (a : Kernel QueueLists) : Prop where
  kill : ∀ x p, a.context x = .kill p → IsPid p ∧ p ≠ nullproc
  receive : ∀ x, a.context x = .receive → (a.proctab x).prstate = .recv ∨
    (a.proctab x).prstate = .free ∨ (a.proctab x).prhasmsg = true

section Contexts

variable {a b : Kernel QueueLists} {p : Int}

theorem Contexts.congr (h : Contexts a) (hc : b.context = a.context)
    (hp : b.proctab = a.proctab) : Contexts b where
  kill := by rw [hc]; exact h.kill
  receive := by rw [hc, hp]; exact h.receive

/-- A process changes that does not wait in `receive`, or has its message. -/
theorem Contexts.setProc (h : Contexts a) (p : Int) (entry : Procent)
    (hp : a.context p = .receive → entry.prstate = .recv ∨ entry.prstate = .free ∨
      entry.prhasmsg = true) : Contexts (a.setProc p entry) where
  kill := h.kill
  receive x hx := by
    by_cases hxp : x = p
    · subst hxp
      simpa [Kernel.setProc] using hp hx
    · simpa [Kernel.setProc, hxp] using h.receive x hx

theorem Contexts.setContext (h : Contexts a) (p : Int) {c : Context} (hc : c ≠ .receive)
    (hk : ∀ q, c = .kill q → IsPid q ∧ q ≠ nullproc) : Contexts (a.setContext p c) where
  kill x q hx := by
    by_cases hxp : x = p
    · subst hxp
      exact hk q (by simpa [Kernel.setContext] using hx)
    · exact h.kill x q (by simpa [Kernel.setContext, hxp] using hx)
  receive x hx := by
    by_cases hxp : x = p
    · subst hxp
      exact absurd (by simpa [Kernel.setContext] using hx) hc
    · exact h.receive x (by simpa [Kernel.setContext, hxp] using hx)

/-- A process in another state has its message once it is out of `receive`. -/
theorem Contexts.hasmsg (h : Contexts a) (hx : a.context p = .receive)
    (hr : (a.proctab p).prstate ≠ .recv) (hf : (a.proctab p).prstate ≠ .free) :
    (a.proctab p).prhasmsg = true :=
  ((h.receive p hx).resolve_left hr).resolve_left hf

theorem Contexts.setState (h : Contexts a) (st : PrState)
    (hp : a.context p = .receive → st = .free ∨ (a.proctab p).prhasmsg = true) :
    Contexts (a.setState p st) :=
  h.setProc p _ fun hx => (hp hx).elim (fun he => .inr (.inl he)) fun hm => .inr (.inr hm)

theorem Contexts.makeReady (h : Contexts a) (hp : IsPid p)
    (hm : a.context p = .receive → (a.proctab p).prhasmsg = true) : Contexts (a.makeReady p) := by
  rw [makeReady_eq hp]
  exact (h.setState .ready fun hx => .inr (hm hx)).congr rfl rfl

theorem Good.ready_of_mem (h : Good a) (hp : p ∈ a.queuetab.lists readylist) :
    (a.proctab p).prstate = .ready := by
  have hhome := h.home_eq hp
  cases hst : (a.proctab p).prstate with
  | ready => rfl
  | wait =>
    rw [h.home_of_wait (h.placed.isPid hp) hst] at hhome
    exact absurd (Option.some.inj hhome).symm
      (readylist_ne (h.prsem p (h.placed.isPid hp) hst))
  | sleep =>
    rw [home_of_sleeping (.inl hst)] at hhome
    exact absurd (Option.some.inj hhome) (by decide)
  | rectim =>
    rw [home_of_sleeping (.inr hst)] at hhome
    exact absurd (Option.some.inj hhome) (by decide)
  | free | curr | recv | susp =>
    rw [home_none (by simp [hst])] at hhome
    cases hhome

/-- Who is on a queue does not wait in `receive`. -/
theorem Good.not_recv (h : Good a) {q : Int} (hmem : p ∈ a.queuetab.lists q) :
    (a.proctab p).prstate ≠ .recv := by
  intro hst
  have hhome := h.home_eq hmem
  rw [home_none (by simp [hst])] at hhome
  cases hhome

theorem Contexts.hasmsg_of_mem (h : Contexts a) (hg : Good a) {q : Int}
    (hmem : p ∈ a.queuetab.lists q) (hx : a.context p = .receive) :
    (a.proctab p).prhasmsg = true := h.hasmsg hx (hg.not_recv hmem) (hg.not_free hmem)

theorem detach_context (hp : IsPid p) :
    (a.detach p).context = a.context := by
  unfold Kernel.detach
  cases hst : (a.proctab p).prstate with
  | sleep =>
    dsimp only
    rw [unsleep_eq hp (.inl hst)]
    unfold Kernel.charged
    split <;> rfl
  | rectim =>
    dsimp only
    rw [unsleep_eq hp (.inr hst)]
    unfold Kernel.charged
    split <;> rfl
  | wait | ready | free | curr | recv | susp => rfl

theorem Contexts.move (h : Contexts a) (hg : Good a) (hm : Move a b) : Contexts b := by
  cases hm with
  | idle | nextsem | stays => exact h.congr rfl rfl
  | context c hk hr _ =>
    exact h.setContext _ hr fun q hq => by
      rw [hq] at hk
      cases hk
  | dispatch hst =>
    obtain ⟨p, -, -, hmem, heq⟩ := hg.dispatches hst
    rw [heq]
    exact (h.setState .curr fun hx => .inr (h.hasmsg_of_mem hg hmem hx)).congr rfl rfl
  | requeue hst =>
    exact h.makeReady hg.currpid fun hx => h.hasmsg hx (by simp [hst]) (by simp [hst])
  | readies p hp hst =>
    refine h.makeReady hp fun hx => ?_
    rcases hst with hst | hst
    · exact h.hasmsg hx (by simp [hst]) (by simp [hst])
    · exact hst.2
  | signals s p l hs hc hl =>
    have hmem : p ∈ a.queuetab.lists (nproc + 2 * s) := by simp [hl]
    exact Contexts.makeReady (h.congr rfl rfl) (hg.placed.isPid hmem) (h.hasmsg_of_mem hg hmem)
  | wakes p l hl _ _ =>
    have hmem : p ∈ a.queuetab.lists sleepq := by simp [hl]
    exact Contexts.makeReady (h.congr rfl rfl) (hg.placed.isPid hmem) (h.hasmsg_of_mem hg hmem)
  | unsleeps p hp hst =>
    rw [unsleep_eq hp (.inr hst)]
    have hc : (a.charged p).context = a.context := by
      unfold Kernel.charged
      split <;> rfl
    have hproc : (a.charged p).proctab = a.proctab := (charged_fields p).1
    refine Contexts.makeReady (h.congr hc hproc) hp fun hx => ?_
    have hx' : (a.charged p).context p = .receive := hx
    rw [hc] at hx'
    show ((a.charged p).proctab p).prhasmsg = true
    rw [hproc]
    exact h.hasmsg hx' (by simp [hst]) (by simp [hst])
  | waits s hs _ hc hst hnull =>
    have hset := h.setProc a.currpid
      { a.proctab a.currpid with prstate := .wait, prsem := s } fun hx =>
        .inr (.inr (h.hasmsg hx (by simp [hst]) (by simp [hst])))
    exact hset.congr rfl rfl
  | sleeps delay st hst _ _ hcurr hnull =>
    have hset := h.setState (p := a.currpid) st fun hx =>
      .inr (h.hasmsg hx (by simp [hcurr]) (by simp [hcurr]))
    exact hset.congr rfl rfl
  | receives hst hnull _ =>
    exact
      { kill := fun x q hx => by
          by_cases hxc : x = a.currpid
          · subst hxc
            simp [Kernel.setContext] at hx
          · exact h.kill x q (by simpa [Kernel.setContext, Kernel.setState, Kernel.setProc, hxc]
              using hx)
        receive := fun x hx => by
          by_cases hxc : x = a.currpid
          · subst hxc
            simp [Kernel.setContext, Kernel.setState, Kernel.setProc]
          · simp only [Kernel.setContext, update_of_ne hxc] at hx
            have hold := h.receive x hx
            simpa [Kernel.setContext, Kernel.setState, Kernel.setProc, hxc] using hold }
  | suspends p hp hnull hst =>
    have hset := h.setState (p := p) .susp fun hx => by
      rcases hst with hst | hst
      · exact .inr (h.hasmsg hx (by simp [hst]) (by simp [hst]))
      · exact .inr (h.hasmsg hx (by simp [hst]) (by simp [hst]))
    exact hset.congr rfl rfl
  | sends p msg hp _ _ =>
    have hset := h.setProc p { a.proctab p with prmsg := msg, prhasmsg := true } fun _ =>
      .inr (.inr rfl)
    exact hset.congr rfl rfl
  | takes _ _ hctx =>
    have hset := h.setProc a.currpid { a.proctab a.currpid with prhasmsg := false } fun hx =>
      absurd hx hctx
    exact hset.congr rfl rfl
  | timesOut _ => exact h.congr rfl rfl
  | creates p prio saddr ssize memory hp hfree hprio _ _ =>
    have hset := (h.setContext p (c := .user) (by simp)
      (by simp)).setProc p (a.newProc p prio saddr ssize) fun hx => by
        simp [Kernel.setContext] at hx
    exact hset.congr rfl rfl
  | counts s count _ _ _ => exact h.congr rfl rfl
  | used | frees => exact h.congr rfl rfl

theorem Contexts.remove (h : Contexts a) (hp : IsPid p) : Contexts (a.remove p) := by
  have hstk : Contexts (a.stackFreed p) := h.congr rfl rfl
  have hdet := hstk.congr (detach_context hp) (detach_fields hp).1
  have hfree := hdet.setState (p := p) .free fun _ => .inl rfl
  rw [remove_eq]
  exact (hfree.setContext a.currpid (c := .user) (fun h => nomatch h)
    fun _ h => nomatch h).congr rfl rfl

/-- A process that is taken out leaves its semaphore with one waiting process less. -/
theorem detach_sems (hp : IsPid p) : (a.detach p).nextsem = a.nextsem ∧
    ∀ s, ((a.detach p).semtab s).used = (a.semtab s).used ∧
      (a.semtab s).scount ≤ ((a.detach p).semtab s).scount := by
  have hsleep : (a.charged p).nextsem = a.nextsem := by
    unfold Kernel.charged
    split <;> rfl
  have hsems := (charged_fields (a := a) p).2.1
  unfold Kernel.detach
  cases hst : (a.proctab p).prstate with
  | sleep =>
    dsimp only
    rw [unsleep_eq hp (.inl hst)]
    exact ⟨hsleep, fun s => by
      show ((a.charged p).semtab s).used = _ ∧ _ ≤ ((a.charged p).semtab s).scount
      simp [hsems]⟩
  | rectim =>
    dsimp only
    rw [unsleep_eq hp (.inr hst)]
    exact ⟨hsleep, fun s => by
      show ((a.charged p).semtab s).used = _ ∧ _ ≤ ((a.charged p).semtab s).scount
      simp [hsems]⟩
  | wait =>
    refine ⟨rfl, fun s => ?_⟩
    by_cases hs : s = (a.proctab p).prsem
    · subst hs
      simp [Kernel.setCount, Kernel.getitem, setQueues]
    · simp [Kernel.setCount, Kernel.getitem, setQueues, hs]
  | ready | free | curr | recv | susp => exact ⟨rfl, fun s => ⟨rfl, le_refl _⟩⟩

/-- What every move keeps. -/
structure Regular (a : Kernel QueueLists) : Prop where
  good : Good a
  contexts : Contexts a
  unused : ∀ s, 0 ≤ s ∧ s < nsem → (a.semtab s).used = false → 0 ≤ (a.semtab s).scount
  nextsem : 0 ≤ a.nextsem ∧ a.nextsem < nsem

/-- The counts of the semaphores that are not used. -/
theorem Regular.of_sems (h : Regular a) (hg : Good b) (hc : Contexts b)
    (hnext : b.nextsem = a.nextsem) (hsems : ∀ s, (b.semtab s).used = (a.semtab s).used ∧
      (a.semtab s).scount ≤ (b.semtab s).scount) : Regular b where
  good := hg
  contexts := hc
  unused s hs hu := le_trans (h.unused s hs ((hsems s).1.symm.trans hu)) (hsems s).2
  nextsem := by rw [hnext]; exact h.nextsem

theorem Regular.move (h : Regular a) (hm : Move a b) : Regular b := by
  have hg := h.good.move hm
  have hc := h.contexts.move h.good hm
  have hle : ∀ s, (a.semtab s).used = (a.semtab s).used ∧
      (a.semtab s).scount ≤ (a.semtab s).scount := fun _ => ⟨rfl, le_refl _⟩
  cases hm with
  | idle | context | stays | receives | suspends | sends | takes | timesOut | creates | sleeps =>
    exact h.of_sems hg hc rfl hle
  | nextsem next hn => exact ⟨hg, hc, h.unused, hn⟩
  | dispatch hst =>
    obtain ⟨p, -, -, -, heq⟩ := h.good.dispatches hst
    exact h.of_sems hg hc (by rw [heq]; rfl) (by rw [heq]; exact hle)
  | requeue hst =>
    exact h.of_sems hg hc (by rw [makeReady_eq h.good.currpid]; rfl)
      (by rw [semtab_makeReady]; exact hle)
  | readies p hp hst =>
    exact h.of_sems hg hc (by rw [makeReady_eq hp]; rfl) (by rw [semtab_makeReady]; exact hle)
  | wakes p l hl _ _ =>
    have hp := h.good.placed.isPid (q := sleepq) (p := p) (by simp [hl])
    exact h.of_sems hg hc (by rw [makeReady_eq hp]; rfl) (by rw [semtab_makeReady]; exact hle)
  | unsleeps p hp hst =>
    have hdet := detach_sems (a := a) hp
    unfold detach at hdet
    rw [hst] at hdet
    exact h.of_sems hg hc (by rw [makeReady_eq hp]; exact hdet.1)
      (by rw [semtab_makeReady]; exact hdet.2)
  | signals s p l hs hcount hl =>
    have hp := h.good.placed.isPid (q := nproc + 2 * s) (p := p) (by simp [hl])
    refine h.of_sems hg hc (by rw [makeReady_eq hp]; rfl) fun x => ?_
    rw [semtab_makeReady]
    show ((a.setCount s _).semtab x).used = _ ∧ _ ≤ ((a.setCount s _).semtab x).scount
    by_cases hx : x = s
    · subst hx
      simp [Kernel.setCount]
    · simp [Kernel.setCount, hx]
  | waits s hs hused hcount hst hnull =>
    refine ⟨hg, hc, fun x hx hu => ?_, h.nextsem⟩
    change ((a.setCount s _).semtab x).used = false at hu
    show 0 ≤ ((a.setCount s _).semtab x).scount
    by_cases hxs : x = s
    · subst hxs
      simp [Kernel.setCount, hused] at hu
    · simp only [Kernel.setCount, update_of_ne hxs] at hu ⊢
      exact h.unused x hx hu
  | counts s count hs _ hcount =>
    refine ⟨hg, hc, fun x hx hu => ?_, h.nextsem⟩
    by_cases hxs : x = s
    · subst hxs
      simpa [Kernel.setCount] using hcount
    · simp only [Kernel.setCount, update_of_ne hxs] at hu ⊢
      exact h.unused x hx hu
  | used s hs =>
    refine ⟨hg, hc, fun x hx hu => ?_, h.nextsem⟩
    by_cases hxs : x = s
    · subst hxs
      simp [Kernel.setUsed] at hu
    · simp only [Kernel.setUsed, update_of_ne hxs] at hu ⊢
      exact h.unused x hx hu
  | frees s hs hcount =>
    refine ⟨hg, hc, fun x hx hu => ?_, h.nextsem⟩
    by_cases hxs : x = s
    · subst hxs
      simpa [Kernel.setUsed] using hcount
    · simp only [Kernel.setUsed, update_of_ne hxs] at hu ⊢
      exact h.unused x hx hu

theorem Regular.remove (h : Regular a) (hp : IsPid p) (hnull : p ≠ nullproc) :
    Regular (a.remove p) := by
  have hdet := detach_sems (a := a.stackFreed p) hp
  exact h.of_sems (h.good.remove hp hnull) (h.contexts.remove hp) hdet.1 hdet.2

theorem Regular.moves (h : Regular a) (hm : ReflTransGen Move a b) : Regular b := by
  induction hm with
  | refl => exact h
  | tail _ hm ih => exact ih.move hm

end Contexts

/-! ## Lists and history after a move -/

section Fields

variable {a : Kernel QueueLists} {p q : Int}

theorem charged_history (p : Int) : (a.charged p).history = a.history := by
  unfold Kernel.charged
  split <;> rfl

theorem unsleep_lists (hp : IsPid p)
    (hst : (a.proctab p).prstate = .sleep ∨ (a.proctab p).prstate = .rectim) (q : Int) :
    (a.unsleep p).queuetab.lists q = (a.queuetab.lists q).erase p := by
  rw [unsleep_eq hp hst]
  show ((a.charged p).queuetab.lists q).erase p = _
  rw [(charged_fields p).2.2.2]

theorem unsleep_history (hp : IsPid p)
    (hst : (a.proctab p).prstate = .sleep ∨ (a.proctab p).prstate = .rectim) :
    (a.unsleep p).history = .unsleeps p :: a.history := by
  rw [unsleep_eq hp hst]
  exact congrArg _ (charged_history p)

/-- Who is on the queue of a semaphore waits for it. -/
theorem Good.waits_of_mem (h : Good a) {s : Int} (hs : 0 ≤ s ∧ s < nsem)
    (hmem : p ∈ a.queuetab.lists (nproc + 2 * s)) :
    (a.proctab p).prstate = .wait ∧ (a.proctab p).prsem = s := by
  have hhome := h.home_eq hmem
  cases hst : (a.proctab p).prstate with
  | wait =>
    rw [h.home_of_wait (h.placed.isPid hmem) hst] at hhome
    have hsem := Option.some.inj hhome
    exact ⟨rfl, by omega⟩
  | ready =>
    rw [home_of_ready hst] at hhome
    exact absurd (Option.some.inj hhome) (readylist_ne hs)
  | sleep =>
    rw [home_of_sleeping (.inl hst)] at hhome
    exact absurd (Option.some.inj hhome) (sleepq_ne hs)
  | rectim =>
    rw [home_of_sleeping (.inr hst)] at hhome
    exact absurd (Option.some.inj hhome) (sleepq_ne hs)
  | free | curr | recv | susp =>
    rw [home_none (by simp [hst])] at hhome
    cases hhome

theorem Good.sleeps_of_mem (h : Good a) (hmem : p ∈ a.queuetab.lists sleepq) :
    (a.proctab p).prstate = .sleep ∨ (a.proctab p).prstate = .rectim := by
  have hhome := h.home_eq hmem
  cases hst : (a.proctab p).prstate with
  | sleep => exact .inl rfl
  | rectim => exact .inr rfl
  | wait =>
    have hp := h.placed.isPid hmem
    rw [h.home_of_wait hp hst] at hhome
    exact absurd (Option.some.inj hhome).symm (sleepq_ne (h.prsem p hp hst))
  | ready =>
    rw [home_of_ready hst] at hhome
    exact absurd (Option.some.inj hhome) (by decide)
  | free | curr | recv | susp =>
    rw [home_none (by simp [hst])] at hhome
    cases hhome

/-- A process that is taken out is on no list. -/
theorem Good.detach_lists (h : Good a) (hp : IsPid p) (q : Int) :
    (a.detach p).queuetab.lists q = (a.queuetab.lists q).erase p := by
  unfold Kernel.detach
  cases hst : (a.proctab p).prstate with
  | sleep => exact unsleep_lists hp (.inl hst) q
  | rectim => exact unsleep_lists hp (.inr hst) q
  | wait | ready => rfl
  | free | curr | recv | susp =>
    exact (List.erase_of_not_mem (h.placed.not_mem (home_none (by simp [hst])))).symm

theorem detach_history (hp : IsPid p) : (a.detach p).history = a.history ∨
    (a.detach p).history = .unsleeps p :: a.history := by
  unfold Kernel.detach
  cases hst : (a.proctab p).prstate with
  | sleep => exact .inr (unsleep_history hp (.inl hst))
  | rectim => exact .inr (unsleep_history hp (.inr hst))
  | wait | ready | free | curr | recv | susp => exact .inl rfl

theorem Good.remove_lists (h : Good a) (hp : IsPid p) (q : Int) :
    (a.remove p).queuetab.lists q = (a.queuetab.lists q).erase p := by
  have hb : Good (a.stackFreed p) := h.congr rfl rfl rfl rfl
  exact hb.detach_lists hp q

/-- Taking a process off leaves the lists alone it is not on. -/
theorem Good.erase_of_home (h : Good a) (hhome : a.home p ≠ some q) :
    (a.queuetab.lists q).erase p = a.queuetab.lists q :=
  List.erase_of_not_mem fun hmem => hhome (h.home_eq hmem)

theorem Good.erase_sem (h : Good a) {s : Int} (hs : 0 ≤ s ∧ s < nsem)
    (hst : (a.proctab p).prstate ≠ .wait) :
    (a.queuetab.lists (nproc + 2 * s)).erase p = a.queuetab.lists (nproc + 2 * s) := by
  refine List.erase_of_not_mem fun hmem => hst ?_
  exact (h.waits_of_mem hs hmem).1

theorem remove_history (hp : IsPid p) :
    (a.remove p).history = .freed a.currpid p :: (a.stackFreed p).history ∨
    (a.remove p).history = .freed a.currpid p :: .unsleeps p :: (a.stackFreed p).history := by
  have hdet := detach_history (a := a.stackFreed p) hp
  exact hdet.imp (congrArg _) (congrArg _)

end Fields

end Kernel

end NatBox
