import NatBox.Kernel.Runs
import NatBox.Lib.Deltas
import Mathlib.Algebra.Order.Ring.Int

/-
Sleeping processes wake on time, as long as no tick of the clock is lost.

The keys of `sleepq` are a list of differences.  A tick takes one from the key in front.
Where that key is zero, because a process called `recvtime` with no time to wait, the tick
goes down with the process: those behind it do not get it.
-/

namespace NatBox

open Deltas Function Relation Runs

/-- The delay a process last went to sleep with. -/
def delayOf (p : Int) : List Happening → Int
  | [] => 0
  | .sleeps q delay :: h => if q = p then delay else delayOf p h
  | _ :: h => delayOf p h

/-- Every process that was woken was woken by the tick that ended its delay, or by the first
one if there was no delay. -/
def WakesOnTime : List Happening → Prop
  | [] => True
  | .wakes p :: h => (ticksSince p h : Int) = max (delayOf p h) 1 ∧ WakesOnTime h
  | _ :: h => WakesOnTime h

/-- What happens that bears on none of this. -/
def Happening.timeless : Happening → Bool
  | .sleeps _ _ | .tick | .wakes _ => false
  | _ => true

theorem Happening.timeless_cons {e : Happening} (he : e.timeless = true) (h : List Happening) :
    (∀ p, delayOf p (e :: h) = delayOf p h) ∧ (∀ p, ticksSince p (e :: h) = ticksSince p h) ∧
      (WakesOnTime (e :: h) ↔ WakesOnTime h) := by
  cases e with
  | sleeps | tick | wakes => cases he
  | created | changesPrio | readied | runs | stays | suspends | waits | releases | unsleeps | sent
  | took | timesOut | kills | freesStack | freed => exact ⟨fun _ => rfl, fun _ => rfl, Iff.rfl⟩

/-- How many ticks a process has still to sleep. -/
def timeLeft (h : List Happening) (p : Int) : Int := delayOf p h - ticksSince p h

namespace Kernel

section Sleepers

variable {k : Kernel Queuetab} {a b : Kernel QueueLists} {p q : Int} {e : Happening}

/-- The differences are what is left of the delays, and nobody oversleeps. -/
structure Sleepers (a : Kernel QueueLists) : Prop where
  due : Due a.queuetab.key (timeLeft a.history) 0 (a.queuetab.lists sleepq)
  nonneg : ∀ p ∈ a.queuetab.lists sleepq, 0 ≤ a.queuetab.key p
  onTime : WakesOnTime a.history
  asleep : ∀ p ∈ a.queuetab.lists sleepq,
    (ticksSince p a.history : Int) < max (delayOf p a.history) 1

/-- The queue changes no more than its keys do, and time does not pass. -/
theorem Sleepers.congr (h : Sleepers a)
    (hl : b.queuetab.lists sleepq = a.queuetab.lists sleepq)
    (hk : ∀ p ∈ a.queuetab.lists sleepq, b.queuetab.key p = a.queuetab.key p)
    (hh : b.history = a.history) : Sleepers b where
  due := by
    rw [hl, hh]
    exact h.due.congr hk fun _ _ => rfl
  nonneg p hmem := by
    rw [hl] at hmem
    rw [hk p hmem]
    exact h.nonneg p hmem
  onTime := by rw [hh]; exact h.onTime
  asleep p hmem := by
    rw [hl] at hmem
    rw [hh]
    exact h.asleep p hmem

theorem Sleepers.note (h : Sleepers a) (he : e.timeless = true) : Sleepers (a.note e) := by
  obtain ⟨hd, ht, ho⟩ := Happening.timeless_cons he a.history
  exact
    { due := h.due.congr (fun _ _ => rfl) fun x _ => by
        show delayOf x (e :: a.history) - ticksSince x (e :: a.history) = _
        rw [hd, ht]
        rfl
      nonneg := h.nonneg
      onTime := ho.mpr h.onTime
      asleep := fun x hx => by
        show (ticksSince x (e :: a.history) : Int) < max (delayOf x (e :: a.history)) 1
        rw [hd, ht]
        exact h.asleep x hx }

/-! ## One process less, or one more -/

theorem nextIn_split {tail : Int} {front behind : List Int} (hp : p ∉ front) :
    QueueLists.nextIn tail p (front ++ p :: behind) = behind.headD tail := by
  induction front with
  | nil =>
    show (if p = p then _ else _) = _
    rw [if_pos rfl]
  | cons x front ih =>
    rw [List.mem_cons, not_or] at hp
    show (if x = p then _ else _) = _
    rw [if_neg (Ne.symm hp.1)]
    exact ih hp.2

/-- What `unsleep` does to the keys. -/
theorem Good.charged_split (hg : Good a) {front behind : List Int}
    (hl : a.queuetab.lists sleepq = front ++ p :: behind) :
    (∀ x ∈ front, (a.charged p).queuetab.key x = a.queuetab.key x) ∧
      Adjusted a.queuetab.key (a.charged p).queuetab.key (a.queuetab.key p) behind := by
  have hnd := hg.placed.nodup sleepq
  rw [hl] at hnd
  obtain ⟨-, hback, hdis⟩ := List.nodup_append.mp hnd
  have hfront : p ∉ front := fun hx => hdis p hx p (by simp) rfl
  have hnext : QueueTable.behind a.queuetab sleepq p = behind.headD (sleepq + 1) := by
    show QueueLists.nextIn (sleepq + 1) p (a.queuetab.lists sleepq) = _
    rw [hl, nextIn_split hfront]
  unfold Kernel.charged
  rw [hnext]
  cases behind with
  | nil =>
    rw [if_neg (by decide)]
    exact ⟨fun _ _ => rfl, trivial⟩
  | cons x behind =>
    have hx : IsPid x := hg.placed.isPid (q := sleepq) (by rw [hl]; simp)
    have hxb := (List.nodup_cons.mp (List.nodup_cons.mp hback).2).1
    rw [List.headD_cons, if_pos hx.2]
    refine ⟨fun y hy => update_of_ne (hdis y hy x (by simp)) _ _, update_self _ _ _, fun y hy => ?_⟩
    refine update_of_ne ?_ _ _
    rintro rfl
    exact hxb hy

theorem nonneg_of_adjusted {key key' : Int → Int} {c : Int} {l : List Int}
    (ha : Adjusted key key' c l) (hc : ∀ x ∈ l.head?, 0 ≤ key x + c) (hk : ∀ x ∈ l, 0 ≤ key x) :
    ∀ x ∈ l, 0 ≤ key' x := by
  cases l with
  | nil => exact fun x hx => absurd hx List.not_mem_nil
  | cons y l =>
    intro x hx
    rcases List.mem_cons.mp hx with rfl | hx
    · rw [ha.1]
      exact hc x rfl
    · rw [ha.2 x hx]
      exact hk x (by simp [hx])

/-- A process that is taken off leaves its difference to the one behind it. -/
theorem Sleepers.unsleep (h : Sleepers a) (hg : Good a) (hp : IsPid p)
    (hst : (a.proctab p).prstate = .sleep ∨ (a.proctab p).prstate = .rectim) :
    Sleepers (a.unsleep p) := by
  obtain ⟨front, behind, hl⟩ := List.append_of_mem (hg.mem_of_home hp (home_of_sleeping hst))
  obtain ⟨hfront, hadj⟩ := hg.charged_split hl
  have hnd := hg.placed.nodup sleepq
  have herase : (a.queuetab.lists sleepq).erase p = front ++ behind := by
    rw [hl] at hnd ⊢
    have hnot : p ∉ front := fun hx => (List.nodup_append.mp hnd).2.2 p hx p (by simp) rfl
    rw [List.erase_append_right _ hnot, List.erase_cons_head]
  have hdue := h.due
  have hnonneg := h.nonneg
  rw [hl] at hdue hnonneg
  have hpop : Sleepers ((a.charged p).pop p) :=
    { due := by
        show Due (a.charged p).queuetab.key (timeLeft (a.charged p).history) 0
          (((a.charged p).queuetab.lists sleepq).erase p)
        rw [charged_history, (charged_fields p).2.2.2, herase]
        exact hdue.remove hfront hadj
      nonneg := fun x hx => by
        change x ∈ ((a.charged p).queuetab.lists sleepq).erase p at hx
        show 0 ≤ (a.charged p).queuetab.key x
        rw [(charged_fields p).2.2.2, herase, List.mem_append] at hx
        rcases hx with hx | hx
        · rw [hfront x hx]
          exact hnonneg x (by simp [hx])
        · refine nonneg_of_adjusted hadj (fun y hy => ?_)
            (fun y hy => hnonneg y (by simp [hy])) x hx
          have hy := hnonneg y (by simp [List.mem_of_mem_head? hy])
          have hp := hnonneg p (by simp)
          omega
      onTime := by
        show WakesOnTime (a.charged p).history
        rw [charged_history]
        exact h.onTime
      asleep := fun x hx => by
        change x ∈ ((a.charged p).queuetab.lists sleepq).erase p at hx
        show (ticksSince x (a.charged p).history : Int) < max (delayOf x (a.charged p).history) 1
        rw [(charged_fields p).2.2.2] at hx
        rw [charged_history]
        exact h.asleep x (List.mem_of_mem_erase hx) }
  rw [unsleep_eq hp hst]
  exact hpop.note rfl

theorem deltaSplit_spec (key : Int → Int) (delay : Int) (l : List Int) :
    ((QueueLists.deltaSplit key delay l).1.map key).sum +
        (QueueLists.deltaSplit key delay l).2.1 = delay ∧
      (0 ≤ delay → 0 ≤ (QueueLists.deltaSplit key delay l).2.1) ∧
      ∀ x ∈ (QueueLists.deltaSplit key delay l).2.2.head?,
        (QueueLists.deltaSplit key delay l).2.1 < key x := by
  induction l generalizing delay with
  | nil => exact ⟨zero_add delay, id, fun x hx => nomatch hx⟩
  | cons p l ih =>
    rw [QueueLists.deltaSplit]
    split
    · rename_i hle
      obtain ⟨hsum, hpos, hhead⟩ := ih (delay - key p)
      refine ⟨?_, fun _ => hpos (by omega), hhead⟩
      show ((p :: (QueueLists.deltaSplit key (delay - key p) l).1).map key).sum + _ = _
      rw [List.map_cons, List.sum_cons, add_assoc, hsum]
      omega
    · rename_i hlt
      refine ⟨zero_add delay, id, fun x hx => ?_⟩
      obtain rfl : p = x := by simpa using hx
      exact not_le.mp hlt

/-- What `insertd` does to the queue and the keys. -/
theorem insertd_split (l : QueueLists) {delay : Int} (hd : 0 ≤ delay)
    (hnd : (l.lists sleepq).Nodup) (hp : p ∉ l.lists sleepq) :
    ∃ front behind, l.lists sleepq = front ++ behind ∧
      (QueueTable.insertd l p sleepq delay).lists sleepq = front ++ p :: behind ∧
      (front.map l.key).sum + (QueueTable.insertd l p sleepq delay).key p = delay ∧
      0 ≤ (QueueTable.insertd l p sleepq delay).key p ∧
      (∀ x ∈ behind.head?, (QueueTable.insertd l p sleepq delay).key p < l.key x) ∧
      (∀ x ∈ front, (QueueTable.insertd l p sleepq delay).key x = l.key x) ∧
      Adjusted l.key (QueueTable.insertd l p sleepq delay).key
        (-(QueueTable.insertd l p sleepq delay).key p) behind := by
  have happ := deltaSplit_append l.key delay (l.lists sleepq)
  obtain ⟨hsum, hpos, hhead⟩ := deltaSplit_spec l.key delay (l.lists sleepq)
  have hlist : (QueueTable.insertd l p sleepq delay).lists sleepq =
      (QueueLists.deltaSplit l.key delay (l.lists sleepq)).1 ++
        p :: (QueueLists.deltaSplit l.key delay (l.lists sleepq)).2.2 := by
    simp only [QueueTable.insertd, update_self]
  have hkeys : (QueueTable.insertd l p sleepq delay).key =
      QueueLists.lowerFirst (update l.key p
        (QueueLists.deltaSplit l.key delay (l.lists sleepq)).2.1)
        (QueueLists.deltaSplit l.key delay (l.lists sleepq)).2.1
        (QueueLists.deltaSplit l.key delay (l.lists sleepq)).2.2 := rfl
  generalize QueueLists.deltaSplit l.key delay (l.lists sleepq) = r at *
  obtain ⟨front, left, behind⟩ := r
  dsimp only at *
  refine ⟨front, behind, happ, hlist, ?_⟩
  rw [happ] at hnd hp
  rw [List.mem_append, not_or] at hp
  rw [hkeys]
  have hfront : ∀ x ∈ front, update l.key p left x = l.key x := fun x hx => by
    refine update_of_ne ?_ _ _
    rintro rfl
    exact hp.1 hx
  cases behind with
  | nil =>
    rw [show QueueLists.lowerFirst (update l.key p left) left [] p = left from update_self _ _ _]
    exact ⟨hsum, hpos hd, hhead, hfront, trivial⟩
  | cons x behind =>
    obtain ⟨-, hback, hdis⟩ := List.nodup_append.mp hnd
    have hxp : p ≠ x := fun he => hp.2 (by simp [he])
    have hself : QueueLists.lowerFirst (update l.key p left) left (x :: behind) p = left := by
      show update (update l.key p left) x _ p = left
      rw [update_of_ne hxp, update_self]
    rw [hself]
    refine ⟨hsum, hpos hd, hhead, fun y hy => ?_, ?_, fun y hy => ?_⟩
    · show update (update l.key p left) x _ y = _
      rw [update_of_ne (hdis y hy x (by simp)), hfront y hy]
    · show update (update l.key p left) x _ x = _
      rw [update_self, update_of_ne (Ne.symm hxp)]
      exact sub_eq_add_neg _ _
    · show update (update l.key p left) x _ y = _
      have hyx : y ≠ x := by
        rintro rfl
        exact (List.nodup_cons.mp hback).1 hy
      have hyp : y ≠ p := by
        rintro rfl
        exact hp.2 (by simp [hy])
      rw [update_of_ne hyx, update_of_ne hyp]

/-- A process goes to sleep behind those that wake before it. -/
theorem Sleepers.sleeps (h : Sleepers a) (hg : Good a) {delay : Int} (hd : 0 ≤ delay)
    (st : PrState) (hnone : a.currpid ∉ a.queuetab.lists sleepq) :
    Sleepers (((a.setQueues (QueueTable.insertd a.queuetab a.currpid sleepq delay)).setState
      a.currpid st).note (.sleeps a.currpid delay)) := by
  obtain ⟨front, behind, hold, hnew, hsum, hpos, hhead, hfront, hadj⟩ :=
    insertd_split a.queuetab hd (hg.placed.nodup sleepq) hnone
  have hdue := h.due
  have hnonneg := h.nonneg
  have hasleep := h.asleep
  rw [hold] at hdue hnonneg hasleep hnone
  have hself : delayOf a.currpid (.sleeps a.currpid delay :: a.history) = delay ∧
      ticksSince a.currpid (.sleeps a.currpid delay :: a.history) = 0 :=
    ⟨if_pos rfl, if_pos rfl⟩
  have hother : ∀ x ∈ front ++ behind,
      delayOf x (.sleeps a.currpid delay :: a.history) = delayOf x a.history ∧
        ticksSince x (.sleeps a.currpid delay :: a.history) = ticksSince x a.history :=
    fun x hx => by
      have hne : ¬ a.currpid = x := by
        rintro rfl
        exact hnone hx
      exact ⟨if_neg hne, if_neg hne⟩
  have hmem : ∀ {x}, x ∈ (QueueTable.insertd a.queuetab a.currpid sleepq delay).lists sleepq →
      x = a.currpid ∨ x ∈ front ++ behind := fun {x} hx => by
    rw [hnew, List.perm_middle.mem_iff] at hx
    exact List.mem_cons.mp hx
  exact
    { due := by
        show Due (QueueTable.insertd a.queuetab a.currpid sleepq delay).key
          (timeLeft (.sleeps a.currpid delay :: a.history)) 0
          ((QueueTable.insertd a.queuetab a.currpid sleepq delay).lists sleepq)
        rw [hnew]
        refine hdue.insert hfront ?_ hadj fun x hx => ?_
        · unfold timeLeft
          rw [hself.1, hself.2]
          omega
        · unfold timeLeft
          rw [(hother x hx).1, (hother x hx).2]
      nonneg := fun x hx => by
        show 0 ≤ (QueueTable.insertd a.queuetab a.currpid sleepq delay).key x
        rcases hmem hx with rfl | hx
        · exact hpos
        · rcases List.mem_append.mp hx with hx | hx
          · rw [hfront x hx]
            exact hnonneg x (by simp [hx])
          · refine nonneg_of_adjusted hadj (fun y hy => ?_)
              (fun y hy => hnonneg y (by simp [hy])) x hx
            have hlt := hhead y hy
            omega
      onTime := h.onTime
      asleep := fun x hx => by
        show (ticksSince x (.sleeps a.currpid delay :: a.history) : Int) <
          max (delayOf x (.sleeps a.currpid delay :: a.history)) 1
        rcases hmem hx with rfl | hx
        · rw [hself.1, hself.2]
          omega
        · rw [(hother x hx).1, (hother x hx).2]
          exact hasleep x hx }

theorem Sleepers.makeReady (h : Sleepers a) (hp : IsPid p)
    (hnot : p ∉ a.queuetab.lists sleepq) : Sleepers (a.makeReady p) := by
  have hlist := makeReady_lists (a := a) hp (q := sleepq) (by decide)
  rw [makeReady_eq hp] at hlist ⊢
  refine Sleepers.note (h.congr hlist (fun x hx => update_of_ne ?_ _ _) rfl) rfl
  rintro rfl
  exact hnot hx

/-- Another process than a sleeping one is taken off. -/
theorem Good.erase_sleepq (hg : Good a)
    (hst : (a.proctab p).prstate ≠ .sleep ∧ (a.proctab p).prstate ≠ .rectim) :
    (a.queuetab.lists sleepq).erase p = a.queuetab.lists sleepq :=
  List.erase_of_not_mem fun hmem => (hg.sleeps_of_mem hmem).elim hst.1 hst.2

theorem Good.not_mem_sleepq (hg : Good a)
    (hst : (a.proctab p).prstate ≠ .sleep ∧ (a.proctab p).prstate ≠ .rectim) :
    p ∉ a.queuetab.lists sleepq := fun hmem => (hg.sleeps_of_mem hmem).elim hst.1 hst.2

/-- A process leaves another queue and becomes ready. -/
theorem Sleepers.readyAgain {c : Kernel QueueLists} (h : Sleepers a) (hg : Good a) (hp : IsPid p)
    (hst : (a.proctab p).prstate ≠ .sleep ∧ (a.proctab p).prstate ≠ .rectim)
    (he : e.timeless = true)
    (hc : c.queuetab = QueueTable.getitem a.queuetab p) (hh : c.history = a.history) :
    Sleepers ((c.note e).makeReady p) := by
  have hlist : c.queuetab.lists sleepq = a.queuetab.lists sleepq := by
    rw [hc]
    exact hg.erase_sleepq hst
  have hcong : Sleepers c := h.congr hlist (fun _ _ => by rw [hc]; rfl) hh
  refine (hcong.note he).makeReady hp ?_
  show p ∉ c.queuetab.lists sleepq
  rw [hlist]
  exact hg.not_mem_sleepq hst

/-- The first process is woken, its time being over. -/
theorem Sleepers.wakes (h : Sleepers a) (hg : Good a) {l : List Int}
    (hl : a.queuetab.lists sleepq = p :: l) (hkey : a.queuetab.key p ≤ 0)
    (ht : 1 ≤ ticksSince p a.history) : Sleepers (((a.pop p).note (.wakes p)).makeReady p) := by
  have hdue := h.due
  have hnonneg := h.nonneg
  have hasleep := h.asleep
  have hnd := hg.placed.nodup sleepq
  rw [hl] at hdue hnonneg hasleep hnd
  have hzero : a.queuetab.key p = 0 := le_antisymm hkey (hnonneg p (by simp))
  have hleft : delayOf p a.history - ticksSince p a.history = 0 := by
    have hp := hdue.1
    rw [hzero] at hp
    exact hp
  have hlist : (a.pop p).queuetab.lists sleepq = l := by
    show (a.queuetab.lists sleepq).erase p = l
    rw [hl, List.erase_cons_head]
  have hwoken : Sleepers ((a.pop p).note (.wakes p)) :=
    { due := by
        show Due a.queuetab.key (timeLeft a.history) 0 ((a.pop p).queuetab.lists sleepq)
        have hrest := hdue.2
        rw [hzero] at hrest
        rw [hlist]
        exact hrest
      nonneg := fun x hx => by
        change x ∈ (a.pop p).queuetab.lists sleepq at hx
        rw [hlist] at hx
        exact hnonneg x (by simp [hx])
      onTime := by
        refine ⟨?_, h.onTime⟩
        show (ticksSince p a.history : Int) = max (delayOf p a.history) 1
        omega
      asleep := fun x hx => by
        change x ∈ (a.pop p).queuetab.lists sleepq at hx
        rw [hlist] at hx
        exact hasleep x (by simp [hx]) }
  refine hwoken.makeReady (hg.placed.isPid (q := sleepq) (by simp [hl])) ?_
  show p ∉ (a.pop p).queuetab.lists sleepq
  rw [hlist]
  exact (List.nodup_cons.mp hnd).1

theorem Sleepers.detach (h : Sleepers a) (hg : Good a) (hp : IsPid p) :
    Sleepers (a.detach p) := by
  unfold Kernel.detach
  cases hst : (a.proctab p).prstate with
  | sleep => exact h.unsleep hg hp (.inl hst)
  | rectim => exact h.unsleep hg hp (.inr hst)
  | wait | ready => exact h.congr (hg.erase_sleepq (by simp [hst])) (fun _ _ => rfl) rfl
  | free | curr | recv | susp => exact h

theorem Sleepers.move (h : Sleepers a) (hr : Regular a) (hm : Move a b) : Sleepers b := by
  have hg := hr.good
  cases hm with
  | idle | nextsem | context | counts | used | frees | receives =>
    exact h.congr rfl (fun _ _ => rfl) rfl
  | timesOut | stays | sends | takes | creates =>
    exact Sleepers.note (h.congr rfl (fun _ _ => rfl) rfl) rfl
  | dispatch hst =>
    obtain ⟨p, -, -, hmem, heq⟩ := hg.dispatches hst
    rw [heq]
    exact Sleepers.note (h.congr (hg.erase_sleepq (by simp [hg.ready_of_mem hmem]))
      (fun _ _ => rfl) rfl) rfl
  | requeue hst => exact h.makeReady hg.currpid (hg.not_mem_sleepq (by simp [hst]))
  | readies p hp hst =>
    refine h.makeReady hp (hg.not_mem_sleepq ?_)
    rcases hst with hst | hst <;> simp [hst]
  | signals s p l hs hc hl =>
    have hmem : p ∈ a.queuetab.lists (nproc + 2 * s) := by simp [hl]
    exact h.readyAgain hg (hg.placed.isPid hmem) (by simp [(hg.waits_of_mem hs hmem).1]) rfl rfl rfl
  | wakes p l hl hkey htick => exact h.wakes hg hl hkey htick
  | unsleeps p hp hst =>
    refine (h.unsleep hg hp (.inr hst)).makeReady hp ?_
    rw [unsleep_lists hp (.inr hst)]
    exact fun hmem => ((hg.placed.nodup sleepq).mem_erase_iff.mp hmem).1 rfl
  | waits s hs hused hc hst hnull =>
    exact Sleepers.note (h.congr (update_of_ne (sleepq_ne hs) _ _) (fun _ _ => rfl) rfl) rfl
  | sleeps delay st hst hd hd' hcurr hnull =>
    exact h.sleeps hg hd st (hg.not_mem_sleepq (by simp [hcurr]))
  | suspends p hp hnull hst =>
    refine Sleepers.note (h.congr (hg.erase_sleepq ?_) (fun _ _ => rfl) rfl) rfl
    rcases hst with hst | hst <;> simp [hst]

theorem Sleepers.remove (h : Sleepers a) (hg : Good a) (hp : IsPid p) :
    Sleepers (a.remove p) := by
  have hgood : Good (a.stackFreed p) := hg.congr rfl rfl rfl rfl
  have hnote := h.note (e := .freesStack p
    (a.memory.freestk (a.proctab p).prstkbase (a.proctab p).prstklen).1) rfl
  have hstk : Sleepers (a.stackFreed p) := hnote.congr rfl (fun _ _ => rfl) rfl
  have hfreed := (hstk.detach hgood hp).note (e := .freed a.currpid p) rfl
  exact hfreed.congr rfl (fun _ _ => rfl) rfl

/-! ## The clock -/

/-- What the wake-ups of a tick keep.  If the tick is lost, the time of everybody is over. -/
structure Waking (a : Kernel QueueLists) : Prop where
  onTime : WakesOnTime a.history
  asleep : ∀ p ∈ a.queuetab.lists sleepq,
    (ticksSince p a.history : Int) ≤ max (delayOf p a.history) 1
  left : (Due a.queuetab.key (timeLeft a.history) 0 (a.queuetab.lists sleepq) ∧
      ∀ p ∈ a.queuetab.lists sleepq, 0 ≤ a.queuetab.key p) ∨
    ∀ p ∈ a.queuetab.lists sleepq, timeLeft a.history p = -1 ∧ a.queuetab.key p ≤ 0

theorem Waking.congr (h : Waking a) (hl : b.queuetab.lists sleepq = a.queuetab.lists sleepq)
    (hk : ∀ p ∈ a.queuetab.lists sleepq, b.queuetab.key p = a.queuetab.key p)
    (hh : b.history = e :: a.history) (he : e.timeless = true) : Waking b := by
  obtain ⟨hd, ht, ho⟩ := Happening.timeless_cons he a.history
  have hleft : ∀ x, timeLeft b.history x = timeLeft a.history x := fun x => by
    unfold timeLeft
    rw [hh, hd, ht]
  refine ⟨by rw [hh]; exact ho.mpr h.onTime, fun p hp => ?_, h.left.imp (fun hdue => ?_) ?_⟩
  · rw [hl] at hp
    rw [hh, hd, ht]
    exact h.asleep p hp
  · rw [hl]
    refine ⟨hdue.1.congr hk fun x _ => hleft x, fun p hp => ?_⟩
    rw [hk p hp]
    exact hdue.2 p hp
  · intro hlost p hp
    rw [hl] at hp
    rw [hleft, hk p hp]
    exact hlost p hp

theorem Waking.wakes (h : Waking a) (hg : Good a) {l : List Int}
    (hl : a.queuetab.lists sleepq = p :: l) (hkey : a.queuetab.key p ≤ 0)
    (ht : 1 ≤ ticksSince p a.history) :
    Waking (((a.pop p).note (.wakes p)).makeReady p).attempted := by
  have hmem : p ∈ a.queuetab.lists sleepq := by simp [hl]
  have hpid := hg.placed.isPid hmem
  have hnd := hg.placed.nodup sleepq
  rw [hl] at hnd
  have hnot := (List.nodup_cons.mp hnd).1
  have hin : ∀ {x}, x ∈ l → x ∈ a.queuetab.lists sleepq := fun hx => by simp [hl, hx]
  have hpop : (a.pop p).queuetab.lists sleepq = l := by
    show (a.queuetab.lists sleepq).erase p = l
    rw [hl, List.erase_cons_head]
  have hle : delayOf p a.history - ticksSince p a.history ≤ 0 := by
    rcases h.left with hdue | hlost
    · have hdue := hdue.1
      rw [hl] at hdue
      have hp : timeLeft a.history p = 0 + a.queuetab.key p := hdue.1
      unfold timeLeft at hp
      omega
    · have hp := (hlost p hmem).1
      unfold timeLeft at hp
      omega
  have hmax := h.asleep p hmem
  have hwoken : Waking ((a.pop p).note (.wakes p)) :=
    { onTime := by
        refine ⟨?_, h.onTime⟩
        show (ticksSince p a.history : Int) = max (delayOf p a.history) 1
        omega
      asleep := fun x hx => by
        change x ∈ (a.pop p).queuetab.lists sleepq at hx
        rw [hpop] at hx
        exact h.asleep x (hin hx)
      left := by
        show (Due a.queuetab.key (timeLeft a.history) 0 ((a.pop p).queuetab.lists sleepq) ∧
            ∀ x ∈ (a.pop p).queuetab.lists sleepq, 0 ≤ a.queuetab.key x) ∨
          ∀ x ∈ (a.pop p).queuetab.lists sleepq,
            timeLeft a.history x = -1 ∧ a.queuetab.key x ≤ 0
        rw [hpop]
        refine h.left.imp (fun hdue => ?_) fun hlost x hx => hlost x (hin hx)
        have hzero : a.queuetab.key p = 0 := le_antisymm hkey (hdue.2 p hmem)
        have hrest := hdue.1
        rw [hl] at hrest
        have hrest := hrest.2
        rw [hzero] at hrest
        exact ⟨hrest, fun x hx => hdue.2 x (hin hx)⟩ }
  refine hwoken.congr (e := .readied p) ?_ (fun x hx => ?_) (makeReady_history _ p) rfl
  · exact makeReady_lists (a := (a.pop p).note (.wakes p)) hpid (by decide)
  · change x ∈ (a.pop p).queuetab.lists sleepq at hx
    rw [hpop] at hx
    show (((a.pop p).note (.wakes p)).makeReady p).queuetab.key x = _
    rw [makeReady_eq hpid]
    refine update_of_ne ?_ _ _
    rintro rfl
    exact hnot hx

/-- Nobody is left whose time is over. -/
theorem Waking.sleepers (h : Waking a)
    (hend : a.queuetab.lists sleepq = [] ∨ 0 < a.firstkey sleepq) : Sleepers a := by
  cases hl : a.queuetab.lists sleepq with
  | nil =>
    exact
      { due := by rw [hl]; trivial
        nonneg := fun p hp => by
          rw [hl] at hp
          cases hp
        onTime := h.onTime
        asleep := fun p hp => by
          rw [hl] at hp
          cases hp }
  | cons q l =>
    have hpos : 0 < a.queuetab.key q := by
      have hfirst := hend.resolve_left (by simp [hl])
      rwa [firstkey_of_cons hl] at hfirst
    rcases h.left with ⟨hdue, hnonneg⟩ | hlost
    · refine ⟨hdue, hnonneg, h.onTime, fun p hp => ?_⟩
      have hleft : 0 < timeLeft a.history p := by
        rw [hl] at hp hdue hnonneg
        have hq : timeLeft a.history q = 0 + a.queuetab.key q := hdue.1
        rcases List.mem_cons.mp hp with rfl | hp
        · omega
        · have hle := Due.le hdue.2 (fun x hx => hnonneg x (by simp [hx])) p hp
          omega
      unfold timeLeft at hleft
      omega
    · have hq := (hlost q (by simp [hl])).2
      omega

theorem Sleepers.tickDown (h : Sleepers a) (hg : Good a)
    (hkept : a.firstkey sleepq = 0 → ∀ p ∈ a.queuetab.lists sleepq, a.queuetab.key p = 0) :
    Waking a.tickDown := by
  have hnd := hg.placed.nodup sleepq
  have hasleep : ∀ p ∈ a.queuetab.lists sleepq,
      ((ticksSince p a.history + 1 : Nat) : Int) ≤ max (delayOf p a.history) 1 := fun p hp => by
    have hlt := h.asleep p hp
    omega
  have hleft : ∀ p, timeLeft (.tick :: a.history) p = timeLeft a.history p + -1 := fun p => by
    show delayOf p a.history - ((ticksSince p a.history + 1 : Nat) : Int) = _
    unfold timeLeft
    omega
  unfold Kernel.tickDown
  split
  · rename_i hempty
    have hnil := (isempty_iff hg.placed isQueue_sleepq).mp hempty
    refine ⟨h.onTime, hasleep, .inr fun p hp => ?_⟩
    change p ∈ a.queuetab.lists sleepq at hp
    rw [hnil] at hp
    cases hp
  · rename_i hempty
    cases hl : a.queuetab.lists sleepq with
    | nil => exact absurd ((isempty_iff hg.placed isQueue_sleepq).mpr hl) hempty
    | cons q l =>
      rw [hl] at hnd
      have hq : ∀ x ∈ l, x ≠ q := fun x hx he => (List.nodup_cons.mp hnd).1 (he ▸ hx)
      have hdue := h.due
      have hnonneg := h.nonneg
      rw [firstkey_of_cons hl] at hkept
      rw [hl] at hdue hnonneg hkept
      rw [firstid_of_cons hl]
      have hadj : Adjusted a.queuetab.key (QueueTable.addKey a.queuetab q (-1)).key (-1) (q :: l) :=
        ⟨update_self _ _ _, fun x hx => update_of_ne (hq x hx) _ _⟩
      refine ⟨h.onTime, hasleep, ?_⟩
      show (Due (QueueTable.addKey a.queuetab q (-1)).key (timeLeft (.tick :: a.history)) 0
          (a.queuetab.lists sleepq) ∧ ∀ p ∈ a.queuetab.lists sleepq,
            0 ≤ (QueueTable.addKey a.queuetab q (-1)).key p) ∨
        ∀ p ∈ a.queuetab.lists sleepq, timeLeft (.tick :: a.history) p = -1 ∧
          (QueueTable.addKey a.queuetab q (-1)).key p ≤ 0
      rw [hl]
      by_cases hzero : a.queuetab.key q = 0
      · -- the tick goes down with those whose delay was zero
        refine .inr fun p hp => ?_
        have hdead := hdue.eq_of_zero (hkept hzero) p hp
        refine ⟨by rw [hleft, hdead]; rfl, ?_⟩
        rcases List.mem_cons.mp hp with rfl | hp'
        · rw [hadj.1, hzero]
          decide
        · rw [hadj.2 p hp', hkept hzero p hp]
      · refine .inl ⟨?_, nonneg_of_adjusted hadj (fun x hx => ?_) hnonneg⟩
        · have hshift := (hdue.adjust hadj).shift (-1)
          refine Due.congr hshift (fun _ _ => rfl) fun x _ => hleft x
        · obtain rfl : q = x := by simpa using hx
          have hpos := hnonneg q (by simp)
          omega

/-- A tick does not find a process without delay in front of one with a delay. -/
def KeepsTick (k : Kernel Queuetab) : KernelEvent → Prop
  | .clock => k.firstkey sleepq = 0 → ∀ p, IsPid p →
      (k.proctab p).prstate = .sleep ∨ (k.proctab p).prstate = .rectim → k.queuetab.qkey p = 0
  | _ => True

theorem Sleepers.opening (h : Sleepers a) (hr : Regular a) {ev : KernelEvent} (hev : ev ≠ .clock)
    (ho : Opening a ev b) : Sleepers b := by
  cases ho with
  | same => exact h
  | changesPrio => exact Sleepers.note (h.congr rfl (fun _ _ => rfl) rfl) rfl
  | startsKill p hbad =>
    have hnote : Sleepers (a.note (.kills a.currpid p)) := h.note rfl
    exact hnote.congr rfl (fun _ _ => rfl) rfl
  | removes p hctx hp hnull => exact h.remove hr.good hp
  | ticks => exact absurd rfl hev

/-- The step of the clock, with the wake-ups in the middle. -/
theorem Sleepers.clock (h : Sleepers a) (hf : Follows k a) (hr : Regular a) (hs : Settled a)
    (hctx : a.context a.currpid = .user) (hk : KeepsTick k .clock) :
    ∃ b, Follows k.clkhandler b ∧ Regular b ∧ Sleepers b := by
  have hg := hr.good
  have hkept : a.firstkey sleepq = 0 → ∀ p ∈ a.queuetab.lists sleepq, a.queuetab.key p = 0 :=
    fun hzero p hp => by
      rw [← hf.firstkey isQueue_sleepq] at hzero
      have hkey := hk hzero p (hg.placed.isPid hp) (by
        rw [hf.proctab]
        exact hg.sleeps_of_mem hp)
      exact (hf.qkey p).symm.trans hkey
  have hro := hr.opening hf .ticks
  obtain ⟨b, hm, hw, hend, c, hc, hfc⟩ := clkhandler_wakes (I := Waking)
    (fun x y hq hh hw => ⟨by rw [hh]; exact hw.onTime, by rw [hq, hh]; exact hw.asleep,
      by rw [hq, hh]; exact hw.left⟩)
    (fun x p l hg ht hw hl hkey => hw.wakes hg hl hkey (ht p)) hf hg
    (by rw [hf.ndefers, hs.ndefers]) (by rw [hctx]; rfl) (h.tickDown hg hkept)
  have hrb := hro.moves hm
  exact ⟨c, hfc, hrb.moves hc,
    keeps_moves (fun _ _ hr hs hm => hs.move hr hm) hrb (hw.sleepers hend) hc⟩

/-- Who was woken was woken on time, and nobody sleeps who should have been. -/
structure SleepersOnTime (k : Kernel Queuetab) : Prop where
  onTime : WakesOnTime k.history
  asleep : ∀ p, IsPid p → (k.proctab p).prstate = .sleep ∨ (k.proctab p).prstate = .rectim →
    (ticksSince p k.history : Int) < max (delayOf p k.history) 1

variable {heap : Heap} {tr : List (KernelEvent × Option UInt32)}

/-- As long as every tick is kept, sleeping processes wake on time. -/
theorem sleepersOnTime (h : Run step (sysinit Queuetab.init heap) tr k)
    (hC : AllSteps step (sysinit Queuetab.init heap) (fun k e _ => KeepsTick k e) tr) :
    SleepersOnTime k := by
  have hstart : Sleepers (sysinit emptyLists heap) :=
    ⟨trivial, fun _ hp => (nomatch hp), trivial, fun _ hp => (nomatch hp)⟩
  obtain ⟨a, hf, hr, hs, hsl⟩ := follows_of_steps hstart (fun k a e o k' hf hr hs hsl hk hc => by
    by_cases he : e = .clock
    · subst he
      obtain ⟨hctx, rfl⟩ := step_clock hk
      rw [hf.context, hf.currpid] at hctx
      exact hsl.clock hf hr hs hctx hc
    · exact keeps_step (fun _ _ hr hs hm => hs.move hr hm) hf hr hs
        (hsl.opening hr he (hr.opening_cases e)) hk) h hC
  refine ⟨by rw [hf.history]; exact hsl.onTime, fun p hp hst => ?_⟩
  rw [hf.proctab] at hst
  rw [hf.history]
  exact hsl.asleep p (hr.good.mem_of_home hp (home_of_sleeping hst))

/-- A process sleeps for two ticks.  The first one goes down with a process that waits for a
message for no time at all. -/
theorem sleepersOnTime_fails : ∃ tr k, Run step (sysinit Queuetab.init oneBlock) tr k ∧
    ¬ SleepersOnTime k := by
  have hrun : endsIn step (sysinit Queuetab.init oneBlock)
      [.call (.create 1024 5), .call (.resume 1), .call (.create 1024 5), .call (.resume 2),
        .call (.recvtime 0), .proceed, .call (.sleepms 2), .proceed, .clock, .proceed, .clock]
      (fun _ k => (k.proctab 1).prstate = .sleep ∧
        ¬ (ticksSince 1 k.history : Int) < max (delayOf 1 k.history) 1) = true := by
    decide +kernel
  obtain ⟨os, k, h, -, hcheck⟩ := run_of_endsIn hrun
  obtain ⟨hst, hlate⟩ := of_decide_eq_true hcheck
  exact ⟨_, k, h, fun hs => hlate (hs.asleep 1 (by unfold IsPid; decide) (.inl hst))⟩

/-- Without the other process the second tick wakes it. -/
theorem sleepersOnTime_woken : ∃ tr k, Run step (sysinit Queuetab.init oneBlock) tr k ∧
    k.currpid = 1 ∧ ticksSince 1 k.history = 2 ∧ SleepersOnTime k := by
  have hrun : endsIn step (sysinit Queuetab.init oneBlock)
      [.call (.create 1024 5), .call (.resume 1), .call (.sleepms 2), .proceed, .clock, .clock]
      (fun _ k => k.currpid = 1 ∧ ticksSince 1 k.history = 2) = true := by decide +kernel
  have hpass : stepsPass step
      (fun k e => match e with
        | .clock => k.firstkey sleepq ≠ 0
        | _ => true)
      (sysinit Queuetab.init oneBlock)
      [.call (.create 1024 5), .call (.resume 1), .call (.sleepms 2), .proceed, .clock, .clock] =
        true := by decide +kernel
  obtain ⟨os, k, h, hes, hcheck⟩ := run_of_endsIn hrun
  obtain ⟨hcur, hticks⟩ := of_decide_eq_true hcheck
  refine ⟨_, k, h, hcur, hticks,
    sleepersOnTime h (allSteps_of_stepsPass (by rw [hes]; exact hpass) ?_)⟩
  intro k e he
  unfold KeepsTick
  split
  · exact fun hzero => absurd hzero (of_decide_eq_true he)
  · trivial

end Sleepers

end Kernel

end NatBox
