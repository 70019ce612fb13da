import NatBox.Kernel.Runs

/-
Who runs has the highest priority, as long as `chprio` does not change the priorities of
ready processes or take the current one below them.

The ready list is ordered by keys that `insert` copied from the process table.  `chprio`
writes to the table alone: it neither moves a ready process nor calls `resched`.

What is ready and since when, and which priorities the processes have, is read off the
history by `readyIn`, `readiedAgo` and `prioIn`, so that `RunsFirst` can be said of the
moments in the middle of a step at which a process is dispatched.
-/

namespace NatBox

open Function Relation Runs

/-- Whether a process is ready. -/
def readyIn (p : Int) : List Happening → Bool
  | [] => false
  | .readied q :: h => q = p || readyIn p h
  | .runs q :: h => q ≠ p && readyIn p h
  | .suspends q :: h => q ≠ p && readyIn p h
  | .freed _ q :: h => q ≠ p && readyIn p h
  | _ :: h => readyIn p h

/-- How much has happened since a process became ready. -/
def readiedAgo (p : Int) (h : List Happening) : Nat := h.idxOf (.readied p)

def prioIn (p : Int) : List Happening → Int
  | [] => 0
  | .created q prio :: h => if q = p then prio else prioIn p h
  | .changesPrio q prio :: h => if q = p then prio else prioIn p h
  | _ :: h => prioIn p h

/-- Every process that was dispatched was the one that became ready first among the ready
processes of the highest priority. -/
def RunsFirst : List Happening → Prop
  | [] => True
  | .runs p :: h => RunsFirst h ∧ ∀ q, q ≠ p → readyIn q h = true →
      prioIn q h < prioIn p h ∨ (prioIn q h = prioIn p h ∧ readiedAgo q h < readiedAgo p h)
  | _ :: h => RunsFirst h

/-- What happens that bears on none of this. -/
def Happening.inert : Happening → Bool
  | .readied _ | .runs _ | .stays | .suspends _ | .freed _ _ | .created _ _
  | .changesPrio _ _ => false
  | _ => true

namespace Kernel

section Priorities

variable {k : Kernel Queuetab} {a b c : Kernel QueueLists} {p q : Int} {e : Happening}
  {h : List Happening}

theorem readiedAgo_cons (hne : e ≠ .readied p) : readiedAgo p (e :: h) = readiedAgo p h + 1 :=
  List.idxOf_cons_ne h hne

theorem readiedAgo_self : readiedAgo p (.readied p :: h) = 0 := List.idxOf_cons_self

/-- `p` is to run before `q`. -/
def Ahead (a : Kernel QueueLists) (p q : Int) : Prop :=
  a.queuetab.key q < a.queuetab.key p ∨
    (a.queuetab.key q = a.queuetab.key p ∧ readiedAgo q a.history < readiedAgo p a.history)

structure Priorities (a : Kernel QueueLists) : Prop where
  key : ∀ p ∈ a.queuetab.lists readylist, a.queuetab.key p = (a.proctab p).prprio
  prio : ∀ p, prioIn p a.history = (a.proctab p).prprio
  ready : ∀ p, readyIn p a.history = true ↔ p ∈ a.queuetab.lists readylist
  sorted : (a.queuetab.lists readylist).Pairwise (Ahead a)
  runsFirst : RunsFirst a.history
  top : (a.proctab a.currpid).prstate = .curr → decided a.history = true →
    ∀ p ∈ a.queuetab.lists readylist, (a.proctab p).prprio ≤ (a.proctab a.currpid).prprio

theorem Priorities.note (h : Priorities a) (he : e.inert = true) : Priorities (a.note e) := by
  have hago : ∀ p, readiedAgo p (a.note e).history = readiedAgo p a.history + 1 := fun p =>
    readiedAgo_cons fun heq => by
      rw [heq] at he
      cases he
  have hsame : (∀ p, readyIn p (a.note e).history = readyIn p a.history) ∧
      (∀ p, prioIn p (a.note e).history = prioIn p a.history) ∧
      (RunsFirst (a.note e).history ↔ RunsFirst a.history) ∧
      decided (a.note e).history = decided a.history := by
    cases e with
    | readied | runs | stays | suspends | freed | created | changesPrio => cases he
    | waits | releases | sleeps | tick | wakes | unsleeps | sent | took | timesOut | kills
    | freesStack => exact ⟨fun _ => rfl, fun _ => rfl, Iff.rfl, rfl⟩
  exact
    { key := h.key
      prio := fun p => (hsame.2.1 p).trans (h.prio p)
      ready := fun p => by
        rw [hsame.1 p]
        exact h.ready p
      sorted := h.sorted.imp fun {x y} hxy => by
        unfold Ahead
        rw [hago, hago]
        exact hxy.imp id fun hxy => ⟨hxy.1, Nat.succ_lt_succ hxy.2⟩
      runsFirst := hsame.2.2.1.mpr h.runsFirst
      top := fun hc hd => h.top hc (hsame.2.2.2 ▸ hd) }

/-- A change that leaves the ready list and the priorities alone. -/
theorem Priorities.congr (h : Priorities a)
    (hl : b.queuetab.lists readylist = a.queuetab.lists readylist)
    (hk : ∀ p ∈ a.queuetab.lists readylist, b.queuetab.key p = a.queuetab.key p)
    (hp : ∀ p, (b.proctab p).prprio = (a.proctab p).prprio) (hh : b.history = a.history)
    (hc : b.currpid = a.currpid)
    (hst : (b.proctab a.currpid).prstate = .curr → (a.proctab a.currpid).prstate = .curr) :
    Priorities b where
  key p hmem := by
    rw [hl] at hmem
    rw [hk p hmem, hp]
    exact h.key p hmem
  prio p := by rw [hh, hp]; exact h.prio p
  ready p := by rw [hh, hl]; exact h.ready p
  sorted := by
    rw [hl]
    refine h.sorted.imp_of_mem fun {x y} hx hy hxy => ?_
    unfold Ahead
    rw [hk x hx, hk y hy, hh]
    exact hxy
  runsFirst := by rw [hh]; exact h.runsFirst
  top hcur hd p hmem := by
    rw [hc] at hcur ⊢
    rw [hl] at hmem
    rw [hh] at hd
    rw [hp, hp]
    exact h.top (hst hcur) hd p hmem

/-- A process leaves the ready list, if it is on it, and will not be dispatched. -/
theorem Priorities.drop (h : Priorities a) (hnd : (a.queuetab.lists readylist).Nodup)
    (he : e = .suspends p ∨ ∃ x, e = .freed x p)
    (hl : b.queuetab.lists readylist = (a.queuetab.lists readylist).erase p)
    (hk : ∀ q ∈ a.queuetab.lists readylist, b.queuetab.key q = a.queuetab.key q)
    (hp : ∀ q, (b.proctab q).prprio = (a.proctab q).prprio) (hh : b.history = e :: a.history)
    (hc : b.currpid = a.currpid)
    (hst : (b.proctab a.currpid).prstate = .curr → (a.proctab a.currpid).prstate = .curr) :
    Priorities b := by
  have hago : ∀ q, readiedAgo q b.history = readiedAgo q a.history + 1 := fun q => by
    rw [hh]
    refine readiedAgo_cons fun heq => ?_
    rcases he with rfl | ⟨x, rfl⟩ <;> cases heq
  have hsame : (∀ q, readyIn q b.history = true ↔ q ≠ p ∧ readyIn q a.history = true) ∧
      (∀ q, prioIn q b.history = prioIn q a.history) ∧
      (RunsFirst b.history ↔ RunsFirst a.history) ∧ decided b.history = decided a.history := by
    rw [hh]
    rcases he with rfl | ⟨x, rfl⟩
    · exact ⟨fun q => by simp [readyIn, ne_comm], fun _ => rfl, Iff.rfl, rfl⟩
    · exact ⟨fun q => by simp [readyIn, ne_comm], fun _ => rfl, Iff.rfl, rfl⟩
  have hmem : ∀ {q}, q ∈ b.queuetab.lists readylist → q ∈ a.queuetab.lists readylist :=
    fun {q} hq => by
      rw [hl] at hq
      exact List.mem_of_mem_erase hq
  exact
    { key := fun q hq => by
        rw [hk q (hmem hq), hp]
        exact h.key q (hmem hq)
      prio := fun q => by
        rw [hsame.2.1, hp]
        exact h.prio q
      ready := fun q => by
        rw [hsame.1, h.ready, hl, hnd.mem_erase_iff]
      sorted := by
        rw [hl]
        refine (h.sorted.sublist List.erase_sublist).imp_of_mem fun {x y} hx hy hxy => ?_
        unfold Ahead
        rw [hk x (List.mem_of_mem_erase hx), hk y (List.mem_of_mem_erase hy), hago, hago]
        exact hxy.imp id fun hxy => ⟨hxy.1, Nat.succ_lt_succ hxy.2⟩
      runsFirst := hsame.2.2.1.mpr h.runsFirst
      top := fun hcur hd q hq => by
        rw [hc] at hcur ⊢
        rw [hp, hp]
        exact h.top (hst hcur) (hsame.2.2.2 ▸ hd) q (hmem hq) }

/-- Behind the ready processes with keys that are no smaller comes the process, and then those
with smaller ones. -/
theorem Priorities.lt_of_mem_dropWhile (h : Priorities a) {key : Int} :
    ∀ q ∈ (a.queuetab.lists readylist).dropWhile (key ≤ a.queuetab.key ·),
      a.queuetab.key q < key := by
  have hle : (a.queuetab.lists readylist).Pairwise
      fun x y => a.queuetab.key y ≤ a.queuetab.key x := h.sorted.imp fun hxy => by
    rcases hxy with hlt | ⟨heq, -⟩
    · exact hlt.le
    · exact heq.le
  intro q hq
  have hsub := hle.sublist (List.dropWhile_sublist (decide <| key ≤ a.queuetab.key ·))
  cases hd : (a.queuetab.lists readylist).dropWhile (key ≤ a.queuetab.key ·) with
  | nil =>
    rw [hd] at hq
    cases hq
  | cons y l =>
    have hy : ¬ key ≤ a.queuetab.key y := by
      have hhead := List.head_dropWhile_not (l := a.queuetab.lists readylist)
        (decide <| key ≤ a.queuetab.key ·) (by simp [hd])
      simp only [hd, List.head_cons, decide_eq_false_iff_not] at hhead
      exact hhead
    rw [hd] at hq hsub
    rcases List.mem_cons.mp hq with rfl | hq
    · omega
    · have := (List.pairwise_cons.mp hsub).1 q hq
      omega

theorem Priorities.makeReady (h : Priorities a) (hp : IsPid p)
    (hnot : p ∉ a.queuetab.lists readylist) : Priorities (a.makeReady p) := by
  have hback := @Priorities.lt_of_mem_dropWhile _ h (a.proctab p).prprio
  have hne : ∀ {q}, q ∈ a.queuetab.lists readylist → q ≠ p := fun hq he => hnot (he ▸ hq)
  have hprio : ∀ q, ((a.makeReady p).proctab q).prprio = (a.proctab q).prprio := fun q => by
    rw [makeReady_eq hp]
    by_cases hq : q = p
    · subst hq
      simp [Kernel.note, setQueues, Kernel.setState, Kernel.setProc]
    · simp [Kernel.note, setQueues, Kernel.setState, Kernel.setProc, hq]
  have hkey : ∀ q, (a.makeReady p).queuetab.key q =
      if q = p then (a.proctab p).prprio else a.queuetab.key q := fun q => by
    rw [makeReady_eq hp]
    show update a.queuetab.key p (a.proctab p).prprio q = _
    split
    · rename_i hq
      rw [hq, update_self]
    · rename_i hq
      exact update_of_ne hq _ _
  have hlist : (a.makeReady p).queuetab.lists readylist =
      (a.queuetab.lists readylist).takeWhile ((a.proctab p).prprio ≤ a.queuetab.key ·) ++
        p :: (a.queuetab.lists readylist).dropWhile ((a.proctab p).prprio ≤ a.queuetab.key ·) := by
    rw [makeReady_eq hp]
    exact update_self readylist _ a.queuetab.lists
  have hmem : ∀ q, q ∈ (a.makeReady p).queuetab.lists readylist ↔
      q = p ∨ q ∈ a.queuetab.lists readylist := fun q => by
    rw [hlist, List.perm_middle.mem_iff, List.mem_cons, List.takeWhile_append_dropWhile]
  have hhist := makeReady_history a p
  have hago : ∀ {q}, q ≠ p →
      readiedAgo q (a.makeReady p).history = readiedAgo q a.history + 1 := fun hq => by
    rw [hhist]
    exact readiedAgo_cons fun heq => hq (Happening.readied.inj heq).symm
  exact
    { key := fun q hq => by
        rw [hkey, hprio]
        split
        · rename_i hqp
          rw [hqp]
        · rename_i hqp
          exact h.key q (((hmem q).mp hq).resolve_left hqp)
      prio := fun q => by
        rw [hhist, hprio]
        exact h.prio q
      ready := fun q => by
        rw [hhist, hmem, ← h.ready, @eq_comm _ q p]
        show (p = q || readyIn q a.history) = true ↔ _
        rw [Bool.or_eq_true, decide_eq_true_iff]
      sorted := by
        have hold : ∀ {x y}, x ∈ a.queuetab.lists readylist → y ∈ a.queuetab.lists readylist →
            Ahead a x y → Ahead (a.makeReady p) x y := fun {x y} hx hy hxy => by
          unfold Ahead
          rw [hkey, hkey, if_neg (hne hx), if_neg (hne hy), hago (hne hx), hago (hne hy)]
          exact hxy.imp id fun hxy => ⟨hxy.1, Nat.succ_lt_succ hxy.2⟩
        have hsplit := h.sorted
        rw [← List.takeWhile_append_dropWhile (l := a.queuetab.lists readylist)
          (p := (decide <| (a.proctab p).prprio ≤ a.queuetab.key ·)),
          List.pairwise_append] at hsplit
        obtain ⟨hfront, hbehind, hacross⟩ := hsplit
        have hf : ∀ {x}, x ∈ (a.queuetab.lists readylist).takeWhile
            ((a.proctab p).prprio ≤ a.queuetab.key ·) → x ∈ a.queuetab.lists readylist :=
          fun hx => (List.takeWhile_sublist _).mem hx
        have hb : ∀ {x}, x ∈ (a.queuetab.lists readylist).dropWhile
            ((a.proctab p).prprio ≤ a.queuetab.key ·) → x ∈ a.queuetab.lists readylist :=
          fun hx => (List.dropWhile_sublist _).mem hx
        rw [hlist, List.pairwise_append, List.pairwise_cons]
        refine ⟨hfront.imp_of_mem fun hx hy => hold (hf hx) (hf hy), ⟨fun y hy => ?_,
          hbehind.imp_of_mem fun hx hy => hold (hb hx) (hb hy)⟩, fun x hx y hy => ?_⟩
        · refine .inl ?_
          rw [hkey, hkey, if_pos rfl, if_neg (hne (hb hy))]
          exact hback y hy
        · rcases List.mem_cons.mp hy with rfl | hy
          · have hle : (a.proctab y).prprio ≤ a.queuetab.key x := by
              simpa using List.all_eq_true.mp List.all_takeWhile x hx
            unfold Ahead
            rw [hkey, hkey, if_pos rfl, if_neg (hne (hf hx)), hago (hne (hf hx)), hhist,
              readiedAgo_self]
            omega
          · exact hold (hf hx) (hb hy) (hacross x hx y hy)
      runsFirst := by
        rw [hhist]
        exact h.runsFirst
      top := fun _ hd => by
        rw [hhist] at hd
        cases hd }

theorem Priorities.dispatch (h : Priorities a) (hg : Good a)
    (hst : (a.proctab a.currpid).prstate ≠ .curr) : Priorities a.dispatch := by
  obtain ⟨p, l, hl, hmem, heq⟩ := hg.dispatches hst
  have hsorted := h.sorted
  rw [hl, List.pairwise_cons] at hsorted
  have hnd := hg.placed.nodup readylist
  have hlist : a.dispatch.queuetab.lists readylist = l := by
    rw [heq]
    show (a.queuetab.lists readylist).erase p = l
    rw [hl, List.erase_cons_head]
  have hkey : a.dispatch.queuetab.key = a.queuetab.key := by rw [heq]; rfl
  have hhist : a.dispatch.history = .runs p :: a.history := by rw [heq]; rfl
  have hcur : a.dispatch.currpid = p := by rw [heq]; rfl
  have hprio : ∀ q, (a.dispatch.proctab q).prprio = (a.proctab q).prprio := fun q => by
    rw [heq]
    by_cases hq : q = p
    · subst hq
      simp [Kernel.note, Kernel.setState, Kernel.setProc]
    · simp [Kernel.note, Kernel.setState, Kernel.setProc, hq]
  have hago : ∀ q, readiedAgo q a.dispatch.history = readiedAgo q a.history + 1 := fun q => by
    rw [hhist]
    exact readiedAgo_cons (by simp)
  have hin : ∀ {q}, q ∈ l → q ∈ a.queuetab.lists readylist := fun hq => by simp [hl, hq]
  have hahead : ∀ q ∈ l, (a.proctab q).prprio < (a.proctab p).prprio ∨
      ((a.proctab q).prprio = (a.proctab p).prprio ∧
        readiedAgo q a.history < readiedAgo p a.history) := fun q hq => by
    have := hsorted.1 q hq
    unfold Ahead at this
    rwa [h.key p hmem, h.key q (hin hq)] at this
  have hready : ∀ q, q ≠ p → (readyIn q a.history = true ↔ q ∈ l) := fun q hq => by
    rw [h.ready, hl, List.mem_cons, or_iff_right hq]
  exact
    { key := fun q hq => by
        rw [hlist] at hq
        rw [hkey, hprio]
        exact h.key q (hin hq)
      prio := fun q => by
        rw [hhist, hprio]
        exact h.prio q
      ready := fun q => by
        rw [hhist, hlist]
        show (p ≠ q && readyIn q a.history) = true ↔ _
        rw [hl] at hnd
        by_cases hq : q = p
        · subst hq
          simpa using (List.nodup_cons.mp hnd).1
        · rw [Bool.and_eq_true, decide_eq_true_iff, hready q hq]
          exact and_iff_right (Ne.symm hq)
      sorted := by
        rw [hlist]
        refine hsorted.2.imp fun {x y} hxy => ?_
        unfold Ahead
        rw [hkey, hago, hago]
        exact hxy.imp id fun hxy => ⟨hxy.1, Nat.succ_lt_succ hxy.2⟩
      runsFirst := by
        rw [hhist]
        refine ⟨h.runsFirst, fun q hq hr => ?_⟩
        rw [h.prio, h.prio]
        exact hahead q ((hready q hq).mp hr)
      top := fun _ _ q hq => by
        rw [hlist] at hq
        rw [hcur, hprio, hprio]
        rcases hahead q hq with hlt | ⟨heq, -⟩
        · exact hlt.le
        · exact heq.le }

/-! The keys of the sleeping processes are the only ones that change without `insert`. -/

theorem Good.ready_not_sleeping (hg : Good a) (hq : q ∈ a.queuetab.lists readylist)
    (hp : p ∈ a.queuetab.lists sleepq) : q ≠ p := by
  rintro rfl
  have hr := hg.home_eq hq
  rw [hg.home_eq hp] at hr
  exact absurd (Option.some.inj hr) (by decide)

theorem Good.charged_key (hg : Good a) (hq : q ∈ a.queuetab.lists readylist) :
    (a.charged p).queuetab.key q = a.queuetab.key q := by
  unfold Kernel.charged
  split
  · rename_i hlt
    refine update_of_ne ?_ _ _
    rcases nextIn_mem (sleepq + 1) p (a.queuetab.lists sleepq) with htail | hmem
    · have htail : QueueTable.behind a.queuetab sleepq p = sleepq + 1 := htail
      rw [htail] at hlt
      exact absurd hlt (by decide)
    · exact hg.ready_not_sleeping hq hmem
  · rfl

theorem Good.insertd_key (hg : Good a) (hq : q ∈ a.queuetab.lists readylist)
    (hst : (a.proctab p).prstate ≠ .ready) (delay : Int) :
    (QueueTable.insertd a.queuetab p sleepq delay).key q = a.queuetab.key q := by
  have hqp : q ≠ p := fun he => hst (he ▸ hg.ready_of_mem hq)
  have happ := deltaSplit_append a.queuetab.key delay (a.queuetab.lists sleepq)
  show QueueLists.lowerFirst (update a.queuetab.key p _) _ _ q = _
  cases hb : (QueueLists.deltaSplit a.queuetab.key delay (a.queuetab.lists sleepq)).2.2 with
  | nil => exact update_of_ne hqp _ _
  | cons x l =>
    have hx : x ∈ a.queuetab.lists sleepq := by
      rw [happ, hb]
      simp
    show update (update a.queuetab.key p _) x _ q = _
    rw [update_of_ne (hg.ready_not_sleeping hq hx), update_of_ne hqp]

theorem insertd_lists (l : QueueLists) (delay : Int) (hq : q ≠ sleepq) :
    (QueueTable.insertd l p sleepq delay).lists q = l.lists q := by
  simp only [QueueTable.insertd, update_of_ne hq]

theorem Good.tickDown_queues (hg : Good a) : a.tickDown.queuetab.lists = a.queuetab.lists ∧
    ∀ q ∈ a.queuetab.lists readylist, a.tickDown.queuetab.key q = a.queuetab.key q := by
  unfold Kernel.tickDown
  split
  · exact ⟨rfl, fun _ _ => rfl⟩
  · rename_i hempty
    refine ⟨rfl, fun q hq => update_of_ne ?_ _ _⟩
    cases hl : a.queuetab.lists sleepq with
    | nil => exact absurd ((isempty_iff hg.placed isQueue_sleepq).mpr hl) hempty
    | cons p l =>
      rw [firstid_of_cons hl]
      exact hg.ready_not_sleeping hq (by simp [hl])

theorem Good.detach_key (hg : Good a) (hp : IsPid p) (hq : q ∈ a.queuetab.lists readylist) :
    (a.detach p).queuetab.key q = a.queuetab.key q := by
  have hchg := hg.charged_key (p := p) hq
  unfold Kernel.detach
  cases hst : (a.proctab p).prstate with
  | sleep =>
    dsimp only
    rw [unsleep_eq hp (.inl hst)]
    exact hchg
  | rectim =>
    dsimp only
    rw [unsleep_eq hp (.inr hst)]
    exact hchg
  | wait | ready | free | curr | recv | susp => rfl

theorem Good.remove_key (hg : Good a) (hp : IsPid p) (hq : q ∈ a.queuetab.lists readylist) :
    (a.remove p).queuetab.key q = a.queuetab.key q := by
  have hb : Good ({ a with
      memory := (a.memory.freestk (a.proctab p).prstkbase (a.proctab p).prstklen).2 }.note
      (.freesStack p (a.memory.freestk (a.proctab p).prstkbase (a.proctab p).prstklen).1)) :=
    hg.congr rfl rfl rfl rfl
  exact hb.detach_key hp hq

/-- The priority of a process that is not ready changes, or is written again. -/
theorem Priorities.changes (h : Priorities a) {prio : Int}
    (he : e = .created p prio ∨ e = .changesPrio p prio)
    (hsame : p ∈ a.queuetab.lists readylist → prio = (a.proctab p).prprio)
    (hq : b.queuetab = a.queuetab)
    (hp : ∀ q, (b.proctab q).prprio = if p = q then prio else (a.proctab q).prprio)
    (hh : b.history = e :: a.history) (hc : b.currpid = a.currpid)
    (hst : (b.proctab a.currpid).prstate = .curr → (a.proctab a.currpid).prstate = .curr)
    (htop : (b.proctab a.currpid).prstate = .curr → p = a.currpid →
      ∀ q ∈ a.queuetab.lists readylist, (a.proctab q).prprio ≤ prio) : Priorities b := by
  have hago : ∀ q, readiedAgo q b.history = readiedAgo q a.history + 1 := fun q => by
    rw [hh]
    refine readiedAgo_cons fun heq => ?_
    rcases he with rfl | rfl <;> cases heq
  have hkeep : (∀ q, readyIn q b.history = readyIn q a.history) ∧
      (∀ q, prioIn q b.history = if p = q then prio else prioIn q a.history) ∧
      (RunsFirst b.history ↔ RunsFirst a.history) ∧ decided b.history = decided a.history := by
    rw [hh]
    rcases he with rfl | rfl
    · exact ⟨fun _ => rfl, fun _ => rfl, Iff.rfl, rfl⟩
    · exact ⟨fun _ => rfl, fun _ => rfl, Iff.rfl, rfl⟩
  have hready : ∀ q ∈ a.queuetab.lists readylist,
      (b.proctab q).prprio = (a.proctab q).prprio := fun q hmem => by
    rw [hp]
    split
    · rename_i he
      subst he
      exact hsame hmem
    · rfl
  exact
    { key := fun q hmem => by
        rw [hq] at hmem ⊢
        rw [hready q hmem]
        exact h.key q hmem
      prio := fun q => by rw [hkeep.2.1, hp, h.prio]
      ready := fun q => by
        rw [hkeep.1, hq]
        exact h.ready q
      sorted := by
        rw [hq]
        refine h.sorted.imp fun {x y} hxy => ?_
        unfold Ahead
        rw [hq, hago, hago]
        exact hxy.imp id fun hxy => ⟨hxy.1, Nat.succ_lt_succ hxy.2⟩
      runsFirst := hkeep.2.2.1.mpr h.runsFirst
      top := fun hcur hd q hmem => by
        rw [hc] at hcur ⊢
        rw [hq] at hmem
        rw [hready q hmem, hp]
        split
        · rename_i he
          exact htop hcur he q hmem
        · exact h.top (hst hcur) (hkeep.2.2.2 ▸ hd) q hmem }

theorem prprio_setProc {Q : Type} (k : Kernel Q) (entry : Procent)
    (h : entry.prprio = (k.proctab p).prprio) (q : Int) :
    ((k.setProc p entry).proctab q).prprio = (k.proctab q).prprio := by
  by_cases hq : q = p
  · subst hq
    simpa [Kernel.setProc] using h
  · simp [Kernel.setProc, hq]

theorem Good.not_mem_ready (hg : Good a) (hst : (a.proctab p).prstate ≠ .ready) :
    p ∉ a.queuetab.lists readylist := fun hmem => hst (hg.ready_of_mem hmem)

theorem Good.erase_ready (hg : Good a) (hst : (a.proctab p).prstate ≠ .ready) :
    (a.queuetab.lists readylist).erase p = a.queuetab.lists readylist :=
  List.erase_of_not_mem (hg.not_mem_ready hst)

/-- Taken off another queue, a process becomes ready. -/
theorem Priorities.readyAgain (h : Priorities a) (hg : Good a) (hp : IsPid p)
    (hst : (a.proctab p).prstate ≠ .ready) (he : e.inert = true)
    (hl : c.queuetab.lists readylist = (a.queuetab.lists readylist).erase p)
    (hk : ∀ q ∈ a.queuetab.lists readylist, c.queuetab.key q = a.queuetab.key q)
    (hproc : c.proctab = a.proctab) (hh : c.history = a.history) (hc : c.currpid = a.currpid) :
    Priorities ((c.note e).makeReady p) := by
  rw [hg.erase_ready hst] at hl
  have hcong : Priorities c :=
    h.congr hl hk (fun q => by rw [hproc]) hh hc (by rw [hproc]; exact id)
  refine (hcong.note he).makeReady hp ?_
  show p ∉ c.queuetab.lists readylist
  rw [hl]
  exact hg.not_mem_ready hst

/-- Nobody on the ready list has a higher priority than the key in front. -/
theorem Priorities.le_firstkey (h : Priorities a) (hq : q ∈ a.queuetab.lists readylist) :
    (a.proctab q).prprio ≤ a.firstkey readylist := by
  have hsorted := h.sorted
  rw [← h.key q hq]
  cases hl : a.queuetab.lists readylist with
  | nil =>
    rw [hl] at hq
    cases hq
  | cons x l =>
    rw [hl] at hq hsorted
    rw [firstkey_of_cons hl]
    rcases List.mem_cons.mp hq with rfl | hq
    · exact le_refl _
    · rcases (List.pairwise_cons.mp hsorted).1 q hq with hlt | ⟨heq, -⟩
      · exact hlt.le
      · exact heq.le

theorem Priorities.remove (h : Priorities a) (hg : Good a) (hp : IsPid p) :
    Priorities (a.remove p) := by
  obtain ⟨-, hcur, -, hproc⟩ := remove_fields a p
  have hprio : ∀ q, ((a.remove p).proctab q).prprio = (a.proctab q).prprio := fun q => by
    rw [hproc]
    exact prprio_setProc a { a.proctab p with prstate := .free } rfl q
  have hst : ((a.remove p).proctab a.currpid).prstate = .curr →
      (a.proctab a.currpid).prstate = .curr := fun hst => by
    rw [hproc] at hst
    by_cases hpc : a.currpid = p
    · rw [hpc, update_self] at hst
      cases hst
    · rwa [update_of_ne hpc] at hst
  have hnd := hg.placed.nodup readylist
  rcases remove_history (a := a) hp with hhist | hhist
  · exact (h.note (e := .freesStack p _) rfl).drop hnd (.inr ⟨_, rfl⟩) (hg.remove_lists hp _)
      (fun q hq => hg.remove_key hp hq) hprio hhist hcur hst
  · exact ((h.note (e := .freesStack p _) rfl).note (e := .unsleeps p) rfl).drop hnd
      (.inr ⟨_, rfl⟩) (hg.remove_lists hp _) (fun q hq => hg.remove_key hp hq) hprio hhist hcur hst

theorem Priorities.move (h : Priorities a) (hr : Regular a) (hm : Move a b) : Priorities b := by
  have hg := hr.good
  have hsame : ∀ q ∈ a.queuetab.lists readylist, a.queuetab.key q = a.queuetab.key q :=
    fun _ _ => rfl
  cases hm with
  | idle | nextsem | context | counts | used | frees =>
    exact h.congr rfl hsame (fun _ => rfl) rfl rfl id
  | timesOut => exact h.note rfl
  | stays hst hkey =>
    refine
      { key := h.key
        prio := h.prio
        ready := h.ready
        sorted := h.sorted.imp fun {x y} hxy => ?_
        runsFirst := h.runsFirst
        top := fun _ _ q hq => ?_ }
    · unfold Ahead
      rw [show readiedAgo x (a.note .stays).history = _ from readiedAgo_cons (fun h => nomatch h),
        show readiedAgo y (a.note .stays).history = _ from readiedAgo_cons (fun h => nomatch h)]
      exact hxy.imp id fun hxy => ⟨hxy.1, Nat.succ_lt_succ hxy.2⟩
    · exact (h.le_firstkey hq).trans hkey.le
  | requeue hst => exact h.makeReady hg.currpid (hg.not_mem_ready (by simp [hst]))
  | readies p hp hst =>
    refine h.makeReady hp (hg.not_mem_ready ?_)
    rcases hst with hst | hst <;> simp [hst]
  | signals s p l hs hc hl =>
    have hmem : p ∈ a.queuetab.lists (nproc + 2 * s) := by simp [hl]
    exact h.readyAgain hg (hg.placed.isPid hmem) (by simp [(hg.waits_of_mem hs hmem).1]) rfl rfl
      hsame rfl rfl rfl
  | wakes p l hl hkey htick =>
    have hmem : p ∈ a.queuetab.lists sleepq := by simp [hl]
    exact h.readyAgain hg (hg.placed.isPid hmem)
      (by rcases hg.sleeps_of_mem hmem with hst | hst <;> simp [hst]) rfl rfl hsame rfl rfl rfl
  | unsleeps p hp hst =>
    have hf := charged_fields (a := a) p
    rw [unsleep_eq hp (.inr hst)]
    exact h.readyAgain hg hp (by simp [hst]) rfl
      (congrArg (fun l => (l readylist).erase p) hf.2.2.2)
      (fun q hq => hg.charged_key hq) hf.1 (charged_history p) hf.2.2.1
  | waits s hs hused hc hst hnull =>
    refine Priorities.note (h.congr ?_ hsame (prprio_setProc _ _ rfl) rfl rfl fun _ => hst) rfl
    exact update_of_ne (readylist_ne hs) _ _
  | sleeps delay st hst hd hd' hcurr hnull =>
    refine Priorities.note (h.congr ?_ (fun q hq => hg.insertd_key hq (by simp [hcurr]) delay)
      (prprio_setProc _ _ rfl) rfl rfl fun _ => hcurr) rfl
    exact insertd_lists _ _ (by decide)
  | receives hst hnull hctx =>
    exact h.congr rfl hsame (prprio_setProc _ _ rfl) rfl rfl fun _ => hst
  | suspends p hp hnull hst =>
    refine h.drop (hg.placed.nodup readylist) (.inl rfl) rfl hsame (prprio_setProc _ _ rfl) rfl rfl
      fun hcur => ?_
    by_cases hpc : a.currpid = p
    · subst hpc
      simp [Kernel.note, Kernel.setState, Kernel.setProc] at hcur
    · simpa [Kernel.note, Kernel.setState, Kernel.setProc, hpc, Kernel.getitem, setQueues]
        using hcur
  | sends p msg hp hst hmsg =>
    refine Priorities.note (h.congr rfl hsame (prprio_setProc _ _ rfl) rfl rfl fun hcur => ?_) rfl
    by_cases hpc : a.currpid = p
    · subst hpc
      simpa [Kernel.setProc] using hcur
    · simpa [Kernel.setProc, hpc] using hcur
  | takes hmsg hst hctx =>
    exact Priorities.note (h.congr rfl hsame (prprio_setProc _ _ rfl) rfl rfl fun _ => hst) rfl
  | creates p prio saddr ssize memory hp hfree hprio _ hstk =>
    have hnot : p ∉ a.queuetab.lists readylist := hg.not_mem_ready (by simp [hfree])
    refine h.changes (.inl rfl) (fun hmem => absurd hmem hnot) rfl (fun q => ?_) rfl rfl
      (fun hcur => ?_) fun hcur hpc => ?_
    · by_cases hq : p = q
      · subst hq
        simp [Kernel.note, Kernel.setContext, Kernel.setProc, newProc]
      · simp [Kernel.note, Kernel.setContext, Kernel.setProc, hq, Ne.symm hq]
    · by_cases hpc : a.currpid = p
      · subst hpc
        simp [Kernel.note, Kernel.setContext, Kernel.setProc, newProc] at hcur
      · simpa [Kernel.note, Kernel.setContext, Kernel.setProc, hpc] using hcur
    · subst hpc
      simp [Kernel.note, Kernel.setContext, Kernel.setProc, newProc] at hcur
  | dispatch hst => exact h.dispatch hg hst

/-- `chprio` leaves the priority of a ready process as it is, and does not take the one of the
current process below one of a ready process. -/
def KeepsOrder (k : Kernel Queuetab) : KernelEvent → Prop
  | .call (.chprio pid newprio) => k.isbadpid pid = false →
      ((k.proctab pid).prstate = .ready → newprio.toInt = (k.proctab pid).prprio) ∧
      (pid = k.currpid → ∀ p, IsPid p → (k.proctab p).prstate = .ready →
        (k.proctab p).prprio ≤ newprio.toInt)
  | _ => True

theorem Priorities.opening (h : Priorities a) (hf : Follows k a) (hr : Regular a)
    {ev : KernelEvent} (hk : KeepsOrder k ev) (ho : Opening a ev b) : Priorities b := by
  have hg := hr.good
  cases ho with
  | same => exact h
  | changesPrio p newprio hbad =>
    change k.isbadpid p = false → _ at hk
    rw [hf.isbadpid, hf.proctab, hf.currpid] at hk
    obtain ⟨hready, hcurr⟩ := hk hbad
    refine h.changes (.inr rfl) (fun hmem => hready (hg.ready_of_mem hmem)) rfl (fun q => ?_)
      rfl rfl (fun hcur => ?_) fun _ hpc q hmem => ?_
    · by_cases hq : p = q
      · subst hq
        simp [Kernel.note, Kernel.setProc]
      · simp [Kernel.note, Kernel.setProc, hq, Ne.symm hq]
    · by_cases hpc : a.currpid = p
      · subst hpc
        simpa [Kernel.note, Kernel.setProc] using hcur
      · simpa [Kernel.note, Kernel.setProc, hpc] using hcur
    · exact hcurr hpc q (hg.placed.isPid hmem) (hg.ready_of_mem hmem)
  | startsKill p hbad =>
    have hnote : Priorities (a.note (.kills a.currpid p)) := h.note rfl
    exact hnote.congr rfl (fun _ _ => rfl) (fun _ => rfl) rfl rfl id
  | removes p hctx hp hnull => exact h.remove hg hp
  | ticks =>
    have hfields := tickDown_fields a
    have hqueues := hg.tickDown_queues
    have hnote : Priorities (a.note .tick) := h.note rfl
    refine hnote.congr (congrFun hqueues.1 _) hqueues.2 (fun q => ?_) hfields.2.2.2.2 hfields.1 ?_
    · show (a.tickDown.proctab q).prprio = _
      rw [hfields.2.2.2.1]
      rfl
    · intro hcur
      change (a.tickDown.proctab a.currpid).prstate = .curr at hcur
      rwa [hfields.2.2.2.1] at hcur

/-- The current process has the highest priority, and so had every process when it was
dispatched, where the one that became ready first came first. -/
structure RunsHighest (k : Kernel Queuetab) : Prop where
  top : ∀ p, IsPid p → (k.proctab p).prstate = .ready →
    (k.proctab p).prprio ≤ (k.proctab k.currpid).prprio
  runsFirst : RunsFirst k.history

variable {heap : Heap} {tr : List (KernelEvent × Option UInt32)}

theorem priorities_start (heap : Heap) : Priorities (sysinit emptyLists heap) where
  key _ hmem := by cases hmem
  prio p := by
    show (if nullproc = p then 0 else 0) =
      (update (fun _ => freeProc) nullproc (nullProc _) p).prprio
    by_cases hp : p = nullproc
    · subst hp
      rw [update_self]
      rfl
    · rw [update_of_ne hp, ite_self]
      rfl
  ready _ := iff_of_false (fun h => nomatch h) (List.not_mem_nil)
  sorted := List.Pairwise.nil
  runsFirst := trivial
  top _ _ _ hmem := by cases hmem

/-- As long as `chprio` keeps the order, the highest priority runs after every step. -/
theorem runsHighest (h : Run step (sysinit Queuetab.init heap) tr k)
    (hC : AllSteps step (sysinit Queuetab.init heap) (fun k e _ => KeepsOrder k e) tr) :
    RunsHighest k := by
  obtain ⟨a, hf, hr, hs, hp⟩ := follows_of_allSteps (priorities_start heap)
    (fun _ _ _ _ _ _ hf hr _ hp _ hk ho => hp.opening hf hr hk ho)
    (fun _ _ hr hp hm => hp.move hr hm) h hC
  have hsa := hf.settled hs
  constructor
  · intro p hpid hst
    rw [hf.proctab] at hst ⊢
    rw [hf.currpid]
    exact hp.top hsa.curr hsa.rested p (hr.good.mem_of_home hpid (home_of_ready hst))
  · rw [hf.history]
    exact hp.runsFirst

/-- A process starts one that becomes ready below it, and raises its priority above its own. -/
theorem runsHighest_fails : ∃ tr k, Run step (sysinit Queuetab.init oneBlock) tr k ∧
    ¬ RunsHighest k := by
  have hrun : endsIn step (sysinit Queuetab.init oneBlock)
      [.call (.create 1024 5), .call (.resume 1), .call (.create 1024 3), .call (.resume 2),
        .proceed, .call (.chprio 2 10)]
      (fun _ k => (k.proctab 2).prstate = .ready ∧
        ¬ (k.proctab 2).prprio ≤ (k.proctab k.currpid).prprio) = true := by decide +kernel
  obtain ⟨os, k, h, -, hcheck⟩ := run_of_endsIn hrun
  obtain ⟨hst, hlt⟩ := of_decide_eq_true hcheck
  exact ⟨_, k, h, fun hr => hlt (hr.top 2 (by unfold IsPid; decide) hst)⟩

/-- The priority of a process is changed before it is started. -/
theorem runsHighest_suspended : ∃ tr k, Run step (sysinit Queuetab.init oneBlock) tr k ∧
    k.currpid = 1 ∧ (k.proctab 1).prprio = 10 ∧ RunsHighest k := by
  have hrun : endsIn step (sysinit Queuetab.init oneBlock)
      [.call (.create 1024 5), .call (.chprio 1 10), .call (.resume 1)]
      (fun _ k => k.currpid = 1 ∧ (k.proctab 1).prprio = 10) = true := by decide +kernel
  have hpass : stepsPass step
      (fun k e => match e with
        | .call (.chprio p _) => (k.proctab p).prstate ≠ .ready ∧ p ≠ k.currpid
        | _ => true)
      (sysinit Queuetab.init oneBlock)
      [.call (.create 1024 5), .call (.chprio 1 10), .call (.resume 1)] = true := by decide +kernel
  obtain ⟨os, k, h, hes, hcheck⟩ := run_of_endsIn hrun
  obtain ⟨hcur, hprio⟩ := of_decide_eq_true hcheck
  refine ⟨_, k, h, hcur, hprio, runsHighest h (allSteps_of_stepsPass (by rw [hes]; exact hpass) ?_)⟩
  intro k e he
  unfold KeepsOrder
  split
  · obtain ⟨hst, hne⟩ := of_decide_eq_true he
    exact fun _ => ⟨fun h => absurd h hst, fun h => absurd h hne⟩
  · trivial

end Priorities

end Kernel

end NatBox
