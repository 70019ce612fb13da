import NatBox.Kernel.Changes
import NatBox.Memory.HeapRuns
import Mathlib.Data.Finset.Card
import Mathlib.Data.Finset.Range
import Mathlib.Data.Finset.Image

/-
Creation and termination balance, as long as no two calls of `kill` meet.

`kill` counts its process out, sends to the parent and then removes the process.  In
between other processes may run: the process may be killed again, or who kills it may be.
`KillsApart` says that neither happens.
-/

namespace NatBox

open Function Relation Runs

/-- The stack of a process, as `getstk` cut it off. -/
def Procent.stack (entry : Procent) : Allocation :=
  ⟨stackBase entry.prstklen entry.prstkbase, entry.prstklen⟩

/-- Whether `p` has a stack.  It gets one only when it has none, and gives back only the one it
has, which the heap has to take. -/
def stackStep (p : Int) (out : Bool) : Happening → Option Bool
  | .created q _ => if q = p then if out then none else some true else some out
  | .freesStack q st => if q = p then if out ∧ st = .ok then some false else none else some out
  | _ => some out

/-- Whether `p` has a stack, provided that so far every stack was given back once. -/
def stackOut (p : Int) : List Happening → Option Bool
  | [] => some false
  | e :: h => (stackOut p h).bind (stackStep p · e)

/-- Who `x` is killing: the process that had the id when `x` called `kill`. -/
def killsIn (x : Int) : List Happening → Option Int
  | [] => none
  | .kills y v :: h => if y = x then some v else killsIn x h
  | .freed y v :: h => if y = x ∨ v = x ∨ killsIn x h = some v then none else killsIn x h
  | .created v _ :: h => if v = x ∨ killsIn x h = some v then none else killsIn x h
  | _ :: h => killsIn x h

/-- Every process that was terminated was the one its killer had called `kill` for. -/
def KillsHeld : List Happening → Prop
  | [] => True
  | .freed x v :: h => killsIn x h = some v ∧ KillsHeld h
  | _ :: h => KillsHeld h

/-- What happens to processes that are alive and stay so. -/
def Happening.lasting : Happening → Bool
  | .created _ _ | .kills _ _ | .freesStack _ _ | .freed _ _ => false
  | _ => true

theorem Happening.lasting_of_schedules {e : Happening} (h : e.schedules = true) :
    e.lasting = true := by
  cases e with
  | created | kills | freesStack | freed | sent | took | timesOut => cases h
  | changesPrio | readied | runs | stays | suspends | waits | releases | sleeps | tick | wakes
  | unsleeps => rfl

theorem Happening.lasting_cons {e : Happening} (he : e.lasting = true) (h : List Happening) :
    (∀ p, stackOut p (e :: h) = stackOut p h) ∧ (∀ x, killsIn x (e :: h) = killsIn x h) ∧
      (KillsHeld (e :: h) ↔ KillsHeld h) := by
  cases e with
  | created | kills | freesStack | freed => cases he
  | changesPrio | readied | runs | stays | suspends | waits | releases | sleeps | tick | wakes
  | unsleeps | sent | took | timesOut =>
    exact ⟨fun p => Option.bind_fun_some (stackOut p h), fun _ => rfl, Iff.rfl⟩

theorem lasting_append {es : List Happening} (hes : ∀ e ∈ es, e.lasting = true)
    (h : List Happening) :
    (∀ p, stackOut p (es ++ h) = stackOut p h) ∧ (∀ x, killsIn x (es ++ h) = killsIn x h) ∧
      (KillsHeld (es ++ h) ↔ KillsHeld h) := by
  induction es with
  | nil => exact ⟨fun _ => rfl, fun _ => rfl, Iff.rfl⟩
  | cons e es ih =>
    obtain ⟨hstk, hkill, hheld⟩ := ih fun x hx => hes x (List.mem_cons_of_mem _ hx)
    obtain ⟨hstk', hkill', hheld'⟩ :=
      Happening.lasting_cons (hes e List.mem_cons_self) (es ++ h)
    exact ⟨fun p => (hstk' p).trans (hstk p), fun x => (hkill' x).trans (hkill x),
      hheld'.trans hheld⟩

namespace Kernel

/-- The numbers of processes. -/
def pids : Finset Int := (Finset.range nproc.toNat).image Int.ofNat

/-- The processes that are in the table. -/
def lives {Q : Type} (k : Kernel Q) : Finset Int :=
  pids.filter fun p => (k.proctab p).prstate ≠ .free

/-- The processes that are in the middle of `kill`. -/
def killers {Q : Type} (k : Kernel Q) : Finset Int :=
  pids.filter fun x => (k.context x).isKill = true

/-- Nobody is killed whom a process is killing already, and nobody is removed who is killing
another process. -/
def KillsApart (k : Kernel Queuetab) : KernelEvent → Prop
  | .call (.kill pid) => k.killBad pid = false → ∀ x ∈ k.lives, k.context x ≠ .kill pid
  | .proceed => ∀ pid, k.context k.currpid = .kill pid → pid ≠ k.currpid →
      (k.context pid).isKill = false
  | _ => True

section Lifetimes

variable {k k' : Kernel Queuetab} {a b : Kernel QueueLists} {heap : Heap} {p x v : Int}
  {e : Happening}

theorem mem_pids : p ∈ pids ↔ IsPid p := by
  unfold pids IsPid
  rw [Finset.mem_image]
  constructor
  · rintro ⟨n, hn, rfl⟩
    rw [Finset.mem_range] at hn
    exact ⟨Int.natCast_nonneg n, by simp only [Int.ofNat_eq_natCast]; omega⟩
  · rintro ⟨hpos, hlt⟩
    exact ⟨p.toNat, Finset.mem_range.mpr (by omega), Int.toNat_of_nonneg hpos⟩

theorem mem_lives {Q : Type} {k : Kernel Q} :
    p ∈ k.lives ↔ IsPid p ∧ (k.proctab p).prstate ≠ .free := by
  unfold lives
  rw [Finset.mem_filter, mem_pids]

theorem mem_killers {Q : Type} {k : Kernel Q} :
    x ∈ k.killers ↔ IsPid x ∧ (k.context x).isKill = true := by
  unfold killers
  rw [Finset.mem_filter, mem_pids]

theorem isKill_iff {c : Context} : c.isKill = true ↔ ∃ v, c = .kill v := by
  cases c with
  | kill v => exact iff_of_true rfl ⟨v, rfl⟩
  | user | returns | suspend | receive | recvtime | clkhandler =>
    exact iff_of_false (fun h => nomatch h) fun ⟨_, h⟩ => nomatch h

/-- The stacks of the processes are allocated blocks of their own. -/
def StacksHeld {Q : Type} (heap : Heap) (a : Kernel Q) : Prop :=
  ∃ l, HeapInvariant heap ⟨a.memory, l⟩ ∧
    (∀ p ∈ a.lives, p ≠ nullproc → (a.proctab p).stack ∈ l) ∧
    ∀ p ∈ a.lives, ∀ q ∈ a.lives, p ≠ nullproc → q ≠ nullproc →
      (a.proctab p).stack = (a.proctab q).stack → p = q

structure Lifetimes (heap : Heap) (a : Kernel QueueLists) : Prop where
  prcount : a.prcount = a.lives.card - a.killers.card
  killer : ∀ x v, a.context x = .kill v → x ∈ a.lives
  target : ∀ x v, a.context x = .kill v → v ∈ a.lives
  unique : ∀ x y v, a.context x = .kill v → a.context y = .kill v → x = y
  held : ∀ x v, a.context x = .kill v → killsIn x a.history = some v
  kept : KillsHeld a.history
  once : ∀ p, IsPid p → stackOut p a.history = some (decide ((a.proctab p).prstate ≠ .free))
  memory : StacksHeld heap a

/-! ## Processes that stay alive -/

/-- Nobody is created or killed. -/
theorem Lifetimes.congr (h : Lifetimes heap a)
    (hfree : ∀ p, (b.proctab p).prstate = .free ↔ (a.proctab p).prstate = .free)
    (hstack : ∀ p, (b.proctab p).stack = (a.proctab p).stack)
    (hkill : ∀ x v, b.context x = .kill v ↔ a.context x = .kill v)
    (hn : b.prcount = a.prcount) (hm : b.memory = a.memory)
    (hh : ∃ es, b.history = es ++ a.history ∧ ∀ e ∈ es, e.lasting = true) :
    Lifetimes heap b := by
  obtain ⟨es, heq, hes⟩ := hh
  obtain ⟨hstk, hkills, hheld⟩ := lasting_append hes a.history
  rw [← heq] at hstk hkills hheld
  have hlives : b.lives = a.lives := by
    ext p
    rw [mem_lives, mem_lives, ne_eq, ne_eq, hfree]
  have hkillers : b.killers = a.killers := by
    ext x
    rw [mem_killers, mem_killers, isKill_iff, isKill_iff]
    simp only [hkill]
  exact
    { prcount := by rw [hn, hlives, hkillers]; exact h.prcount
      killer := fun x v hx => by
        rw [hlives]
        exact h.killer x v ((hkill x v).mp hx)
      target := fun x v hx => by
        rw [hlives]
        exact h.target x v ((hkill x v).mp hx)
      unique := fun x y v hx hy => h.unique x y v ((hkill x v).mp hx) ((hkill y v).mp hy)
      held := fun x v hx => by
        rw [hkills]
        exact h.held x v ((hkill x v).mp hx)
      kept := hheld.mpr h.kept
      once := fun p hp => by
        rw [hstk, h.once p hp]
        simp only [ne_eq, hfree]
      memory := by
        obtain ⟨l, hi, hmem, hinj⟩ := h.memory
        refine ⟨l, by rw [hm]; exact hi, ?_, ?_⟩
        · simp only [hlives, hstack]
          exact hmem
        · simp only [hlives, hstack]
          exact hinj }

theorem Lifetimes.schedules (h : Lifetimes heap a) (hs : Schedules a b) : Lifetimes heap b := by
  obtain ⟨es, heq, hes⟩ := hs.history
  refine h.congr hs.free (fun p => ?_) hs.kill hs.prcount hs.memory
    ⟨es, heq, fun e he => Happening.lasting_of_schedules (hes e he)⟩
  rw [hs.entry p]
  rfl

/-- What else a process has changes. -/
theorem Lifetimes.rewrites (h : Lifetimes heap a) (entry : Procent)
    (hst : entry.prstate = (a.proctab p).prstate) (hstack : entry.stack = (a.proctab p).stack)
    (hproc : b.proctab = update a.proctab p entry) (hc : b.context = a.context)
    (hn : b.prcount = a.prcount) (hm : b.memory = a.memory) (hh : b.history = e :: a.history)
    (he : e.lasting = true) : Lifetimes heap b := by
  refine h.congr (fun x => ?_) (fun x => ?_) (fun x v => by rw [hc]) hn hm
    ⟨[e], hh, fun x hx => by
      rw [List.mem_singleton.mp hx]
      exact he⟩
  · by_cases hx : x = p
    · subst hx
      rw [hproc, update_self, hst]
    · rw [hproc, update_of_ne hx]
  · by_cases hx : x = p
    · subst hx
      rw [hproc, update_self, hstack]
    · rw [hproc, update_of_ne hx]

/-! ## Creation -/

/-- The heap gives a stack that is not one of those that are held. -/
theorem StacksHeld.stackTaken (h : StacksHeld heap a) (hr : heap.Ready) {saddr ssize : Nat}
    {memory : Heap} (hsize : ssize ≤ 2 ^ 32 - 8)
    (hstk : a.memory.getstk ssize = (some saddr, memory)) :
    ∃ l, HeapInvariant heap ⟨memory, ⟨stackBase ssize saddr, ssize⟩ :: l⟩ ∧
      (∀ q ∈ a.lives, q ≠ nullproc → (a.proctab q).stack ∈ l) ∧
      ∀ q ∈ a.lives, q ≠ nullproc → (a.proctab q).stack ≠ ⟨stackBase ssize saddr, ssize⟩ := by
  obtain ⟨l, hi, hmem, -⟩ := h
  have hpos : 1 ≤ ssize := by
    rw [Nat.one_le_iff_ne_zero]
    rintro rfl
    cases hstk
  have hget := hi.getstk hr ⟨hpos, hsize⟩
  rw [hstk] at hget
  have hnew := (List.nodup_cons.mp hget.nodup).1
  exact ⟨l, hget, hmem, fun q hq hnull he => hnew (he ▸ hmem q hq hnull)⟩

theorem Lifetimes.creates (h : Lifetimes heap a) (hr : heap.Ready) {prio : Int}
    {saddr ssize : Nat} {memory : Heap} (hp : IsPid p) (hfree : (a.proctab p).prstate = .free)
    (hsize : ssize ≤ 2 ^ 32 - 8) (hstk : a.memory.getstk ssize = (some saddr, memory)) :
    Lifetimes heap ((({ a with memory := memory, prcount := a.prcount + 1 }.setProc p
      (a.newProc p prio saddr ssize)).setContext p .user).note (.created p prio)) := by
  have hnot : p ∉ a.lives := fun hmem => (mem_lives.mp hmem).2 hfree
  have hkill : ∀ x v, a.context x = .kill v → x ≠ p := fun x v hx he =>
    hnot (he ▸ h.killer x v hx)
  have hvictim : ∀ x v, a.context x = .kill v → v ≠ p := fun x v hx he =>
    hnot (he ▸ h.target x v hx)
  generalize hb : (({ a with memory := memory, prcount := a.prcount + 1 }.setProc p
    (a.newProc p prio saddr ssize)).setContext p .user).note (.created p prio) = b
  have hproc : b.proctab = update a.proctab p (a.newProc p prio saddr ssize) := by
    rw [← hb]
    rfl
  have hctx : b.context = update a.context p .user := by
    rw [← hb]
    rfl
  have hhist : b.history = .created p prio :: a.history := by
    rw [← hb]
    rfl
  have hlives : b.lives = Insert.insert p a.lives := by
    ext q
    rw [Finset.mem_insert, mem_lives, mem_lives, hproc]
    by_cases hq : q = p
    · subst hq
      simp [hp, newProc]
    · simp [hq]
  have hkills : ∀ x v, b.context x = .kill v → a.context x = .kill v := fun x v hx => by
    rw [hctx] at hx
    by_cases hxp : x = p
    · subst hxp
      simp at hx
    · rwa [update_of_ne hxp] at hx
  have hkillers : b.killers = a.killers := by
    ext x
    rw [mem_killers, mem_killers, isKill_iff, isKill_iff]
    refine and_congr_right fun _ => ⟨fun ⟨v, hx⟩ => ⟨v, hkills x v hx⟩, fun ⟨v, hx⟩ => ⟨v, ?_⟩⟩
    rw [hctx, update_of_ne (hkill x v hx), hx]
  have hin : ∀ {q}, q ∈ a.lives → q ∈ b.lives := fun hq => by
    rw [hlives]
    exact Finset.mem_insert_of_mem hq
  exact
    { prcount := by
        have hn : b.prcount = a.prcount + 1 := by
          rw [← hb]
          rfl
        rw [hn, hlives, hkillers, Finset.card_insert_of_notMem hnot, h.prcount]
        omega
      killer := fun x v hx => hin (h.killer x v (hkills x v hx))
      target := fun x v hx => hin (h.target x v (hkills x v hx))
      unique := fun x y v hx hy => h.unique x y v (hkills x v hx) (hkills y v hy)
      held := fun x v hx => by
        have hx := hkills x v hx
        rw [hhist]
        show (if p = x ∨ killsIn x a.history = some p then none else _) = some v
        rw [h.held x v hx, if_neg]
        rintro (rfl | he)
        · exact hkill p v hx rfl
        · exact hvictim x v hx (Option.some.inj he)
      kept := by
        rw [hhist]
        exact h.kept
      once := fun q hq => by
        rw [hhist, hproc]
        show (stackOut q a.history).bind _ = _
        rw [h.once q hq]
        by_cases hqp : q = p
        · subst hqp
          simp [stackStep, hfree, newProc]
        · simp [stackStep, hqp, Ne.symm hqp]
      memory := by
        obtain ⟨-, -, -, hinj⟩ := h.memory
        obtain ⟨l, hi, hmem, hother⟩ := h.memory.stackTaken hr hsize hstk
        have hnew : (b.proctab p).stack = ⟨stackBase ssize saddr, ssize⟩ := by
          rw [hproc, update_self]
          rfl
        have hold : ∀ {q}, q ≠ p → (b.proctab q).stack = (a.proctab q).stack := fun hq => by
          rw [hproc, update_of_ne hq]
        have hback : ∀ {q}, q ∈ b.lives → q ≠ p → q ∈ a.lives := fun hq hqp => by
          rw [hlives] at hq
          exact (Finset.mem_insert.mp hq).resolve_left hqp
        refine ⟨⟨stackBase ssize saddr, ssize⟩ :: l, ?_, fun q hq hnull => ?_,
          fun q hq q' hq' hnull hnull' he => ?_⟩
        · rw [← hb]
          exact hi
        · by_cases hqp : q = p
          · rw [hqp, hnew]
            exact List.mem_cons_self
          · rw [hold hqp]
            exact List.mem_cons_of_mem _ (hmem q (hback hq hqp) hnull)
        · by_cases hqp : q = p
          · by_cases hqp' : q' = p
            · rw [hqp, hqp']
            · rw [hqp, hnew, hold hqp'] at he
              exact absurd he.symm (hother q' (hback hq' hqp') hnull')
          · by_cases hqp' : q' = p
            · rw [hqp', hnew, hold hqp] at he
              exact absurd he (hother q (hback hq hqp) hnull)
            · rw [hold hqp, hold hqp'] at he
              exact hinj q (hback hq hqp) q' (hback hq' hqp') hnull hnull' he }

/-! ## Termination -/

theorem Lifetimes.startsKill (h : Lifetimes heap a) (hg : Good a)
    (hcur : (a.proctab a.currpid).prstate = .curr) (hctx : a.context a.currpid = .user)
    (hbad : a.killBad v = false) (hapart : ∀ x ∈ a.lives, a.context x ≠ .kill v) :
    Lifetimes heap (a.startKill v) := by
  have hv := killBad_false hbad
  have hself : a.currpid ∈ a.lives := mem_lives.mpr ⟨hg.currpid, by simp [hcur]⟩
  have hnot : a.currpid ∉ a.killers := fun hmem => by
    have hk := (mem_killers.mp hmem).2
    rw [hctx] at hk
    cases hk
  have hnew : (a.startKill v).context = update a.context a.currpid (.kill v) := rfl
  have hkills : ∀ x w, (a.startKill v).context x = .kill w →
      (x = a.currpid ∧ w = v) ∨ (x ≠ a.currpid ∧ a.context x = .kill w) := fun x w hx => by
    rw [hnew] at hx
    by_cases hxc : x = a.currpid
    · rw [hxc, update_self] at hx
      exact .inl ⟨hxc, (Context.kill.inj hx).symm⟩
    · rw [update_of_ne hxc] at hx
      exact .inr ⟨hxc, hx⟩
  have hkillers : (a.startKill v).killers = Insert.insert a.currpid a.killers := by
    ext x
    rw [Finset.mem_insert, mem_killers, mem_killers, hnew]
    by_cases hxc : x = a.currpid
    · subst hxc
      simp [hg.currpid, Context.isKill]
    · simp [hxc]
  have hlives : (a.startKill v).lives = a.lives := rfl
  exact
    { prcount := by
        show a.prcount - 1 = _
        rw [hkillers, hlives, Finset.card_insert_of_notMem hnot, h.prcount]
        omega
      killer := fun x w hx => by
        rw [hlives]
        rcases hkills x w hx with ⟨rfl, -⟩ | ⟨-, hx⟩
        · exact hself
        · exact h.killer x w hx
      target := fun x w hx => by
        rw [hlives]
        rcases hkills x w hx with ⟨-, rfl⟩ | ⟨-, hx⟩
        · exact mem_lives.mpr ⟨hv.1, hv.2.2⟩
        · exact h.target x w hx
      unique := fun x y w hx hy => by
        rcases hkills x w hx with ⟨hxc, hw⟩ | ⟨hxc, hx⟩
        · rcases hkills y w hy with ⟨hyc, -⟩ | ⟨hyc, hy⟩
          · rw [hxc, hyc]
          · rw [hw] at hy
            exact absurd hy (hapart y (h.killer y v hy))
        · rcases hkills y w hy with ⟨hyc, hw⟩ | ⟨hyc, hy⟩
          · rw [hw] at hx
            exact absurd hx (hapart x (h.killer x v hx))
          · exact h.unique x y w hx hy
      held := fun x w hx => by
        show (if a.currpid = x then some v else killsIn x a.history) = some w
        rcases hkills x w hx with ⟨rfl, rfl⟩ | ⟨hxc, hx⟩
        · exact if_pos rfl
        · rw [if_neg (Ne.symm hxc)]
          exact h.held x w hx
      kept := h.kept
      once := fun p hp => by
        show (stackOut p a.history).bind _ = _
        rw [h.once p hp]
        rfl
      memory := h.memory }

/-- The heap takes a stack back, and keeps the others. -/
theorem StacksHeld.stackFreed (h : StacksHeld heap a) (hr : heap.Ready) (hp : p ∈ a.lives)
    (hnull : p ≠ nullproc) :
    (a.memory.freestk (a.proctab p).prstkbase (a.proctab p).prstklen).1 = .ok ∧
      ∃ l, HeapInvariant heap ⟨(a.stackFreed p).memory, l⟩ ∧
        ∀ q ∈ a.lives, q ≠ nullproc → q ≠ p → (a.proctab q).stack ∈ l := by
  obtain ⟨l, hi, hmem, hinj⟩ := h
  have hlen := (hi.live _ (hmem p hp hnull)).2.2
  have hfree := hi.freemem hr (hmem p hp hnull) (roundmb_roundmb hlen).symm
  refine ⟨hfree.1, l.erase (a.proctab p).stack, hfree.2, fun q hq hqn hqp => ?_⟩
  refine (List.mem_erase_of_ne fun he => hqp ?_).mpr (hmem q hq hqn)
  exact hinj q hq p hp hqn hnull he

theorem lives_remove (a : Kernel QueueLists) (p : Int) : (a.remove p).lives = a.lives.erase p := by
  obtain ⟨-, -, -, hproc⟩ := remove_fields a p
  ext q
  rw [Finset.mem_erase, mem_lives, mem_lives, hproc]
  by_cases hq : q = p
  · subst hq
    simp
  · simp [hq]

/-- Who terminated the process is done with it. -/
theorem killers_remove (a : Kernel QueueLists) (p : Int) :
    (a.remove p).killers = a.killers.erase a.currpid := by
  obtain ⟨-, -, hc⟩ := remove_rest a p
  ext x
  rw [Finset.mem_erase, mem_killers, mem_killers, hc]
  by_cases hxc : x = a.currpid
  · subst hxc
    simp [Context.isKill]
  · simp [hxc]

theorem stack_remove (a : Kernel QueueLists) (p q : Int) :
    ((a.remove p).proctab q).stack = (a.proctab q).stack := by
  obtain ⟨-, -, -, hproc⟩ := remove_fields a p
  rw [hproc]
  by_cases hq : q = p
  · subst hq
    simp [Procent.stack]
  · simp [hq]

/-- What the history has between the stack and the process does not last. -/
theorem lasting_remove {a : Kernel QueueLists} {p : Int} (hp : IsPid p)
    (hst : (a.memory.freestk (a.proctab p).prstkbase (a.proctab p).prstklen).1 = .ok) :
    ∃ es, (a.remove p).history =
        .freed a.currpid p :: (es ++ (.freesStack p .ok :: a.history)) ∧
      ∀ e ∈ es, e.lasting = true := by
  have hfreed : (a.stackFreed p).history = .freesStack p .ok :: a.history := by
    rw [← hst]
    rfl
  rw [← hfreed]
  rcases remove_history (a := a) hp with hh | hh
  · exact ⟨[], hh, fun e he => nomatch he⟩
  · refine ⟨[.unsleeps p], hh, fun e he => ?_⟩
    rw [List.mem_singleton.mp he]
    rfl

theorem Lifetimes.removes (h : Lifetimes heap a) (hr : heap.Ready) (hp : IsPid p)
    (hnull : p ≠ nullproc) (hctx : a.context a.currpid = .kill p)
    (hapart : p ≠ a.currpid → (a.context p).isKill = false) : Lifetimes heap (a.remove p) := by
  obtain ⟨hn, hm, hc⟩ := remove_rest a p
  obtain ⟨-, -, -, hproc⟩ := remove_fields a p
  have hmem := h.target _ p hctx
  obtain ⟨hst, l, hi, hl⟩ := h.memory.stackFreed hr hmem hnull
  obtain ⟨-, -, -, hinj⟩ := h.memory
  have hself : a.currpid ∈ a.killers :=
    mem_killers.mpr ⟨(mem_lives.mp (h.killer _ p hctx)).1, by rw [hctx]; rfl⟩
  have hkills : ∀ x v, (a.remove p).context x = .kill v →
      a.context x = .kill v ∧ x ≠ p ∧ v ≠ p ∧ x ≠ a.currpid := fun x v hx => by
    rw [hc] at hx
    by_cases hxc : x = a.currpid
    · subst hxc
      simp at hx
    · rw [update_of_ne hxc] at hx
      refine ⟨hx, fun hxp => ?_, fun hvp => ?_, hxc⟩
      · have hk := hapart fun hpc => hxc (hxp.trans hpc)
        rw [← hxp, hx] at hk
        cases hk
      · rw [hvp] at hx
        exact hxc (h.unique x a.currpid p hx hctx)
  have hlives := lives_remove a p
  have hkillers := killers_remove a p
  have hout : ∀ {q}, q ∈ (a.remove p).lives → q ∈ a.lives ∧ q ≠ p := fun hq => by
    rw [hlives] at hq
    exact ⟨(Finset.mem_erase.mp hq).2, (Finset.mem_erase.mp hq).1⟩
  have hstack := stack_remove a p
  obtain ⟨es, hh, hes⟩ := lasting_remove hp hst
  obtain ⟨hstk, hkillsIn, hheld⟩ := lasting_append hes (.freesStack p .ok :: a.history)
  exact
    { prcount := by
        rw [hn, hlives, hkillers, Finset.card_erase_of_mem hmem, Finset.card_erase_of_mem hself,
          h.prcount]
        have hpos := Finset.card_pos.mpr ⟨p, hmem⟩
        have hpos' := Finset.card_pos.mpr ⟨a.currpid, hself⟩
        omega
      killer := fun x v hx => by
        obtain ⟨hx, hxp, -⟩ := hkills x v hx
        rw [hlives]
        exact Finset.mem_erase.mpr ⟨hxp, h.killer x v hx⟩
      target := fun x v hx => by
        obtain ⟨hx, -, hvp, -⟩ := hkills x v hx
        rw [hlives]
        exact Finset.mem_erase.mpr ⟨hvp, h.target x v hx⟩
      unique := fun x y v hx hy => h.unique x y v (hkills x v hx).1 (hkills y v hy).1
      held := fun x v hx => by
        obtain ⟨hx, hxp, hvp, hxc⟩ := hkills x v hx
        rw [hh]
        show (if a.currpid = x ∨ p = x ∨ killsIn x (es ++ _) = some p then none
          else killsIn x (es ++ _)) = some v
        rw [hkillsIn]
        show (if a.currpid = x ∨ p = x ∨ killsIn x a.history = some p then none
          else killsIn x a.history) = some v
        rw [h.held x v hx, if_neg]
        rintro (he | he | he)
        · exact hxc he.symm
        · exact hxp he.symm
        · exact hvp (Option.some.inj he)
      kept := by
        rw [hh]
        refine ⟨?_, hheld.mpr h.kept⟩
        rw [hkillsIn]
        exact h.held _ p hctx
      once := fun q hq => by
        rw [hh, hproc]
        show (stackOut q (es ++ _)).bind (stackStep q · (.freed a.currpid p)) = _
        rw [hstk]
        show ((stackOut q a.history).bind (stackStep q · (.freesStack p .ok))).bind _ = _
        rw [h.once q hq]
        by_cases hqp : q = p
        · subst hqp
          simp [stackStep, (mem_lives.mp hmem).2]
        · simp [stackStep, hqp, Ne.symm hqp]
      memory := by
        refine ⟨l, by rw [hm]; exact hi, fun q hq hqn => ?_, fun q hq q' hq' hqn hqn' he => ?_⟩
        · rw [hstack]
          exact hl q (hout hq).1 hqn (hout hq).2
        · rw [hstack, hstack] at he
          exact hinj q (hout hq).1 q' (hout hq').1 hqn hqn' he }

theorem Lifetimes.move (h : Lifetimes heap a) (hr : heap.Ready) (hg : Good a) (hm : Move a b) :
    Lifetimes heap b := by
  cases hm.change hg with
  | schedules hs => exact h.schedules hs
  | sends p msg hst hmsg =>
    exact h.rewrites (e := .sent p msg) { a.proctab p with prmsg := msg, prhasmsg := true } rfl rfl
      rfl rfl rfl rfl rfl rfl
  | takes hmsg hst =>
    exact h.rewrites (e := .took a.currpid (a.proctab a.currpid).prmsg)
      { a.proctab a.currpid with prhasmsg := false } rfl rfl rfl rfl rfl rfl rfl rfl
  | timesOut hmsg =>
    exact h.congr (fun _ => Iff.rfl) (fun _ => rfl) (fun _ _ => Iff.rfl) rfl rfl
      ⟨[.timesOut a.currpid], rfl, fun e he => by rw [List.mem_singleton.mp he]; rfl⟩
  | creates p prio saddr ssize memory hp hfree hsize hstk => exact h.creates hr hp hfree hsize hstk

theorem step_proceed_kill (h : k.context k.currpid = .kill v) :
    k.step .proceed = .ok (k.killRest v) := by
  show k.proceed = _
  unfold proceed
  rw [h]

theorem Follows.lives (h : Follows k a) : k.lives = a.lives := by
  unfold Kernel.lives
  rw [h.proctab]

theorem Lifetimes.opening (h : Lifetimes heap a) (hr : heap.Ready) (hf : Follows k a)
    (hg : Good a) (hs : Settled a) {ev : KernelEvent} {o : Option UInt32}
    (hk : k.step ev = .ok (o, k')) (hC : KillsApart k ev) (ho : Opening a ev b) :
    Lifetimes heap b := by
  cases ho.change with
  | schedules _ hs => exact h.schedules hs
  | startsKill p hbad =>
    have hctx := (step_call hk).1
    rw [hf.context, hf.currpid] at hctx
    change k.killBad p = false → _ at hC
    rw [hf.killBad, hf.lives, hf.context] at hC
    exact h.startsKill hg hs.curr hctx hbad (hC hbad)
  | removes p hctx hp hnull =>
    change ∀ pid, k.context k.currpid = .kill pid → _ at hC
    rw [hf.context, hf.currpid] at hC
    exact h.removes hr hp hnull hctx (hC p hctx)

/-! ## Runs -/

/-- Creation and termination balance. -/
structure Balanced (heap : Heap) (k : Kernel Queuetab) : Prop where
  prcount : (∀ x ∈ k.lives, (k.context x).isKill = false) → k.prcount = k.lives.card
  once : ∀ p, IsPid p → stackOut p k.history = some (decide ((k.proctab p).prstate ≠ .free))
  memory : StacksHeld heap k
  held : KillsHeld k.history
  ends : ∀ v value k', k.context k.currpid = .kill v →
    k.step .proceed = .ok (some value, k') → killsIn k.currpid k.history = some v ∧
      v ∈ k.lives ∧ k'.proctab = update k.proctab v { k.proctab v with prstate := .free }

theorem lifetimes_start (hr : heap.Ready) : Lifetimes heap (sysinit emptyLists heap) where
  prcount := by
    have hlives : (sysinit emptyLists heap).lives = {nullproc} := by
      ext p
      rw [mem_lives, Finset.mem_singleton]
      by_cases hp : p = nullproc
      · subst hp
        exact iff_of_true ⟨by unfold IsPid; decide, by simp [sysinit, nullProc]⟩ rfl
      · simp [sysinit, hp, freeProc]
    have hkillers : (sysinit emptyLists heap).killers = ∅ := by
      refine Finset.eq_empty_of_forall_notMem fun x hx => ?_
      exact absurd (mem_killers.mp hx).2 (by simp [sysinit, Context.isKill])
    rw [hlives, hkillers]
    rfl
  killer _ _ hx := absurd hx (by simp [sysinit])
  target _ _ hx := absurd hx (by simp [sysinit])
  unique _ _ _ hx := absurd hx (by simp [sysinit])
  held _ _ hx := absurd hx (by simp [sysinit])
  kept := trivial
  once p _ := by
    show (some false).bind (stackStep p · (.created nullproc 0)) = _
    by_cases hp : p = nullproc
    · subst hp
      simp [stackStep, sysinit, nullProc]
    · simp [stackStep, Ne.symm hp, sysinit, hp, freeProc]
  memory := by
    have hget := (heapInvariant_start hr).getstk hr (n := nullstk) (by decide)
    have honly : ∀ p ∈ (sysinit emptyLists heap).lives, p = nullproc := fun p hp => by
      by_contra hne
      have hst := (mem_lives.mp hp).2
      simp [sysinit, hne, freeProc] at hst
    have hmem : ∃ l, HeapInvariant heap ⟨(sysinit emptyLists heap).memory, l⟩ := by
      change HeapInvariant heap (HeapUse.allocated _ (heap.getstk nullstk) _ _).2 at hget
      show ∃ l, HeapInvariant heap ⟨(heap.getstk nullstk).2, l⟩
      generalize heap.getstk nullstk = r at hget ⊢
      rcases r with ⟨_ | addr, memory⟩
      · exact ⟨_, hget⟩
      · exact ⟨_, hget⟩
    obtain ⟨l, hi⟩ := hmem
    exact ⟨l, hi, fun p hp hnull => absurd (honly p hp) hnull,
      fun p hp _ _ hnull => absurd (honly p hp) hnull⟩

variable {tr : List (KernelEvent × Option UInt32)}

/-- As long as no two calls of `kill` meet, creation and termination balance. -/
theorem balanced (hr : heap.Ready) (h : Run step (sysinit Queuetab.init heap) tr k)
    (hC : AllSteps step (sysinit Queuetab.init heap) (fun k e _ => KillsApart k e) tr) :
    Balanced heap k := by
  obtain ⟨a, hf, hra, hs, hl⟩ := follows_of_allSteps (lifetimes_start hr)
    (fun _ _ _ _ _ _ hf hra hs hl hk hc ho => hl.opening hr hf hra.good hs hk hc ho)
    (fun _ _ hra hl hm => hl.move hr hra.good hm) h hC
  constructor
  · intro hrest
    rw [hf.context, hf.lives] at hrest
    have hnone : a.killers = ∅ := by
      refine Finset.eq_empty_of_forall_notMem fun x hx => ?_
      obtain ⟨v, hctx⟩ := isKill_iff.mp (mem_killers.mp hx).2
      have hfalse := hrest x (hl.killer x v hctx)
      rw [hctx] at hfalse
      cases hfalse
    have hcount := hl.prcount
    rw [hnone, Finset.card_empty] at hcount
    have hn : k.prcount = a.prcount := by
      obtain ⟨t, rfl, -⟩ := hf
      rfl
    rw [hn, hcount, hf.lives]
    omega
  · intro p hp
    rw [hf.history, hf.proctab]
    exact hl.once p hp
  · obtain ⟨t, rfl, -⟩ := hf
    exact hl.memory
  · rw [hf.history]
    exact hl.kept
  · intro v value k' hctx hk
    have hres : k' = k.remove v := by
      rw [step_proceed_kill hctx] at hk
      unfold killRest at hk
      split at hk
      · cases hk
      · exact (congrArg Prod.snd (Except.ok.inj hk)).symm
    rw [hf.context, hf.currpid] at hctx
    rw [hf.currpid, hf.history, hf.lives, hres]
    exact ⟨hl.held _ v hctx, hl.target _ v hctx, (remove_fields k v).2.2.2⟩

/-- Process 1 starts process 2, creates process 3 and waits for a message.  Process 2 kills
process 3, process 1 runs in the middle of that and kills it too. -/
theorem balanced_fails : ∃ tr k, Run step (sysinit Queuetab.init oneBlock) tr k ∧
    ¬ Balanced oneBlock k := by
  have hrun : endsIn step (sysinit Queuetab.init oneBlock)
      [.call (.create 1024 5), .call (.resume 1), .call (.create 1024 3), .call (.resume 2),
        .proceed, .call (.create 1024 3), .call (.recvtime 9), .call (.kill 3), .proceed,
        .call (.kill 3), .proceed, .call (.suspend 1), .proceed]
      (fun _ k => stackOut 3 k.history = none) = true := by decide +kernel
  obtain ⟨os, k, h, -, hcheck⟩ := run_of_endsIn hrun
  refine ⟨_, k, h, fun hb => ?_⟩
  have honce := hb.once 3 (by unfold IsPid; decide)
  rw [of_decide_eq_true hcheck] at honce
  cases honce

theorem oneBlock_ready : oneBlock.Ready where
  minheap_pos := by decide
  aligned := by decide
  separated :=
    { pos := by decide
      sorted := by decide }
  low := by decide
  high := by decide
  mlength := by decide

/-- A test for `KillsApart`. -/
def testKillsApart (k : Kernel Queuetab) : KernelEvent → Bool
  | .call (.kill pid) => ∀ x ∈ k.lives, k.context x ≠ .kill pid
  | .proceed => match k.context k.currpid with
    | .kill pid => pid = k.currpid ∨ (k.context pid).isKill = false
    | _ => true
  | _ => true

/-- A process is killed by one that it has resumed, which creates a third and then kills itself. -/
def exampleKills : List KernelEvent := [
  .call (.create 1024 5), .call (.create 4096 7), .call (.resume 1), .call (.resume 2),
  .call (.kill 1), .proceed, .call (.create 512 3), .call (.kill 2), .proceed, .proceed]

theorem balanced_kills : ∃ tr k, Run step (sysinit Queuetab.init oneBlock) tr k ∧
    tr.map Prod.fst = exampleKills ∧ ((k.proctab 1).prstate = .free ∧
      (k.proctab 2).prstate = .free ∧ (k.proctab 3).prstate = .susp) ∧ k.prcount = 2 ∧
    Balanced oneBlock k := by
  have hrun : endsIn step (sysinit Queuetab.init oneBlock) exampleKills
      (fun _ k => ((k.proctab 1).prstate = .free ∧ (k.proctab 2).prstate = .free ∧
        (k.proctab 3).prstate = .susp) ∧ k.prcount = 2) = true := by decide +kernel
  have hpass : stepsPass step testKillsApart (sysinit Queuetab.init oneBlock) exampleKills =
      true := by
    decide +kernel
  obtain ⟨os, k, h, hes, hcheck⟩ := run_of_endsIn hrun
  obtain ⟨hstates, hcount⟩ := of_decide_eq_true hcheck
  refine ⟨_, k, h, hes, hstates, hcount,
    balanced oneBlock_ready h (allSteps_of_stepsPass (by rw [hes]; exact hpass) ?_)⟩
  intro k e he
  unfold testKillsApart at he
  unfold KillsApart
  split
  · exact fun _ => of_decide_eq_true he
  · intro pid hctx hother
    rw [hctx] at he
    exact (of_decide_eq_true he).resolve_left hother
  · trivial

end Lifetimes

end Kernel

end NatBox
