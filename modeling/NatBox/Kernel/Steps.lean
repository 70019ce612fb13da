import NatBox.Kernel.Regular

/-
Every step of the kernel refines moves.

`opening` is the part of a step that is no move: a priority that is changed, a tick of the
clock, a `kill` that is begun, a process that is removed.  `reaches_step` says that moves
lead from there to what the step leaves.
-/

namespace NatBox

open Function Relation

namespace Kernel

/-! ## Calls -/

section Calls

variable {k k' : Kernel Queuetab} {a b : Kernel QueueLists} {o : Option UInt32}

/-- The part of a step that is no move. -/
def opening {Q : Type} [QueueTable Q] (k : Kernel Q) : KernelEvent → Kernel Q
  | .call (.chprio pid newprio) => (k.chprio pid newprio).2
  | .call (.kill pid) => if k.killBad pid then k else k.startKill pid
  | .proceed =>
    match k.context k.currpid with
    | .kill pid => k.remove pid
    | _ => k
  | .clock => k.tickDown
  | _ => k

/-- The current process is in its program. -/
structure InProgram (a : Kernel QueueLists) : Prop where
  curr : (a.proctab a.currpid).prstate = .curr
  context : a.context a.currpid = .user

theorem InProgram.not_kill (h : InProgram a) : (a.context a.currpid).isKill = false := by
  rw [h.context]
  rfl

theorem newpidLoop_spec {Q : Type} (k : Kernel Q) (fuel : Nat) {next next' pid : Int}
    (h : k.newpidLoop fuel next = (next', some pid)) :
    IsPid pid ∧ (k.proctab pid).prstate = .free := by
  induction fuel generalizing next with
  | zero => cases h
  | succ fuel ih =>
    rw [newpidLoop] at h
    split at h
    · rename_i hfree
      obtain ⟨-, rfl⟩ : _ ∧ next % nproc = pid := by simpa using h
      refine ⟨?_, hfree⟩
      unfold IsPid nproc
      omega
    · exact ih h

theorem getstk_none {h h' : Heap} {nbytes : Nat} (heq : h.getstk nbytes = (none, h')) : h' = h := by
  unfold Heap.getstk at heq
  split at heq
  · exact (Prod.mk.inj heq).2.symm
  · split at heq
    · exact (Prod.mk.inj heq).2.symm
    · split at heq
      · cases heq
      · cases heq

theorem minkey_lt_toInt (priority : Int16) : minkey < priority.toInt := by
  have h := Int16.le_toInt priority
  unfold minkey
  omega

theorem stackSize_le (ssize : UInt32) : stackSize ssize ≤ 2 ^ 32 - 8 := by
  unfold stackSize roundmb add32
  omega

theorem reaches_create (h : Follows k a) (ssize : UInt32) (priority : Int16) :
    Reaches a (k.create ssize priority).2 := by
  obtain ⟨t, rfl, hr⟩ := h
  unfold create
  split
  · exact Follows.reaches ⟨t, rfl, hr⟩
  · split
    · rename_i next _
      exact .after (.idle a.ndefers a.attempt a.preempt next)
        (Follows.reaches ⟨t, rfl, hr⟩)
    · rename_i next pid hnew
      have hpid := newpidLoop_spec _ _ hnew
      have hidle : Move a { a with nextpid := next } :=
        .idle a.ndefers a.attempt a.preempt next
      split
      · rename_i memory hstk
        have hmem : memory = a.memory := getstk_none hstk
        subst hmem
        exact .after hidle (Follows.reaches ⟨t, rfl, hr⟩)
      · rename_i saddr memory hstk
        exact .after hidle
          (.after (.creates pid priority.toInt saddr (stackSize ssize) memory hpid.1 hpid.2
            (minkey_lt_toInt priority) (stackSize_le ssize) hstk) (Follows.reaches ⟨t, rfl, hr⟩))

theorem isbadsem_false {s : Int} (h : isbadsem s = false) : 0 ≤ s ∧ s < nsem := by
  unfold isbadsem at h
  simp only [Bool.or_eq_false_iff, decide_eq_false_iff_not] at h
  omega

theorem reaches_resume (h : Follows k a) (hg : Good a) (hu : InProgram a) (p : Int) :
    Reaches a (k.resume p).2 := by
  unfold resume
  split
  · exact h.reaches
  · rename_i hbad
    have hp := isbadpid_false.mp (Bool.eq_false_iff.mpr hbad)
    split
    · exact h.reaches
    · rename_i hst
      rw [ne_eq, not_not, h.proctab] at hst
      have hmove : Move a (a.setContext a.currpid
          (.returns (prioResult (k.proctab p).prprio))) :=
        .context _ rfl (fun h => nomatch h) hu.not_kill
      rw [h.currpid]
      have hg' := hg.move hmove
      exact .after hmove (reaches_ready (h.setContext _ _) hg' hp.1
        (home_none (by
          show (a.proctab p).prstate ≠ .ready ∧ _
          simp [Kernel.setContext, hst]))
        (by simp [Kernel.setContext, hst]) (.readies p hp.1 (.inl hst)) hg')

theorem reaches_suspend (h : Follows k a) (hg : Good a) (hu : InProgram a) (p : Int) :
    Reaches a (k.suspend p).2 := by
  unfold suspend
  split
  · exact h.reaches
  · rename_i hbad
    rw [Bool.or_eq_true, not_or, decide_eq_true_iff] at hbad
    have hp := (isbadpid_false.mp (Bool.eq_false_iff.mpr hbad.1)).1
    rw [h.proctab]
    cases hst : (a.proctab p).prstate with
    | ready =>
      have hmove : Move a (((a.getitem p).setState p .susp).note (.suspends p)) :=
        .suspends p hp hbad.2 (.inl hst)
      have hpop := h.pop hg.placed isQueue_readylist (hg.mem_of_home hp (home_of_ready hst))
      exact .after hmove ((hpop.setState p .susp).note _).reaches
    | curr =>
      have hmove : Move a (((a.getitem p).setState p .susp).note (.suspends p)) :=
        .suspends p hp hbad.2 (.inr hst)
      rw [getitem_of_home_none hg (home_none (by simp [hst]))] at hmove
      exact .after hmove (reaches_leave ((h.setState p .susp).note _) (hg.move hmove) rfl
        (fun h => nomatch h) hu.not_kill)
    | free | recv | sleep | susp | wait | rectim => exact h.reaches

theorem reaches_sleepFor (h : Follows k a) (hg : Good a) (hu : InProgram a)
    (hnull : a.currpid ≠ nullproc) {delay : Int} (hd : 0 ≤ delay ∧ delay < 2 ^ 31) {st : PrState}
    (hst : st = .sleep ∨ st = .rectim) {c : Context} (hc : c.isKill = false) (hr : c ≠ .receive) :
    Reaches a (k.sleepFor delay st c).2 := by
  have hins : k.insertd k.currpid sleepq delay =
      some (k.setQueues (QueueTable.insertd k.queuetab a.currpid sleepq delay)) := by
    rw [h.currpid]
    exact insertd_eq isQueue_sleepq hg.currpid (by
      rw [h.proctab, hu.curr]
      exact fun h => nomatch h) delay
  have hmove := Move.sleeps delay st hst hd.1 hd.2 hu.curr hnull
  have hnone : a.home a.currpid = none := home_none (by simp [hu.curr])
  unfold sleepFor
  rw [hins]
  dsimp only
  obtain ⟨t, rfl, hrep⟩ := h
  have hf : Follows ((((a.withQueues t).setQueues (QueueTable.insertd t a.currpid sleepq
      delay)).setState a.currpid st).note (.sleeps a.currpid delay))
      (((a.setQueues (QueueTable.insertd a.queuetab a.currpid sleepq delay)).setState a.currpid
        st).note (.sleeps a.currpid delay)) :=
    ⟨_, rfl, hrep.insertd hg.placed isQueue_sleepq hg.currpid hnone delay⟩
  exact .after hmove (reaches_leave hf (hg.move hmove) hc hr hu.not_kill)

theorem delay_range {delay : Int32} (h : ¬ delay < 0) : 0 ≤ delay.toInt ∧ delay.toInt < 2 ^ 31 := by
  rw [Int32.lt_iff_toInt_lt, Int32.toInt_zero] at h
  exact ⟨by omega, Int32.toInt_lt delay⟩

theorem reaches_sleepms (h : Follows k a) (hg : Good a) (hu : InProgram a) {delay : Int32}
    (hnull : a.currpid = nullproc → delay = 0) : Reaches a (k.sleepms delay).2 := by
  unfold sleepms
  split
  · exact h.reaches
  · rename_i hneg
    split
    · exact reaches_leave h hg rfl (fun h => nomatch h) hu.not_kill
    · rename_i hzero
      exact reaches_sleepFor h hg hu (fun he => hzero (hnull he)) (delay_range hneg) (.inl rfl) rfl
        (fun h => nomatch h)

theorem reaches_receive (h : Follows k a) (hg : Good a) (hu : InProgram a)
    (hnull : a.currpid ≠ nullproc) : Reaches a k.receive.2 := by
  unfold receive
  rw [h.proctab, h.currpid]
  split
  · have hmove : Move a ((a.setState a.currpid .recv).setContext a.currpid .receive) :=
      .receives hu.curr hnull hu.not_kill
    have hf := (h.setState a.currpid .recv).setContext a.currpid .receive
    unfold leave
    rw [show (k.setState a.currpid .recv).currpid = a.currpid from h.currpid]
    exact .after hmove (reaches_resched hf (hg.move hmove))
  · rename_i hmsg
    rw [Bool.not_eq_false] at hmsg
    exact .after (.takes hmsg hu.curr (by simp [hu.context])) h.takeMsg.reaches

theorem reaches_recvtimeRest (h : Follows k a) (hst : (a.proctab a.currpid).prstate = .curr)
    (hctx : a.context a.currpid ≠ .receive) : Reaches a k.recvtimeRest.2 := by
  unfold recvtimeRest
  rw [h.proctab, h.currpid]
  split
  · rename_i hmsg
    exact .after (.takes hmsg hst hctx) h.takeMsg.reaches
  · rename_i hmsg
    rw [Bool.not_eq_true] at hmsg
    exact .after (.timesOut hmsg) (h.note _).reaches

theorem reaches_recvtime (h : Follows k a) (hg : Good a) (hu : InProgram a)
    (hnull : a.currpid ≠ nullproc) (maxwait : Int32) : Reaches a (k.recvtime maxwait).2 := by
  unfold recvtime
  split
  · exact h.reaches
  · rename_i hneg
    split
    · exact reaches_sleepFor h hg hu hnull (delay_range hneg) (.inr rfl) rfl (fun h => nomatch h)
    · exact reaches_recvtimeRest h hu.curr (by simp [hu.context])

theorem reaches_recvclr (h : Follows k a) (hu : InProgram a) : Reaches a k.recvclr.2 := by
  unfold recvclr
  rw [h.proctab, h.currpid]
  split
  · rename_i hmsg
    exact .after (.takes hmsg hu.curr (by simp [hu.context])) h.takeMsg.reaches
  · exact h.reaches

theorem newsemLoop_spec {Q : Type} (k : Kernel Q) (fuel : Nat) {next next' sem : Int}
    (hn : 0 ≤ next ∧ next < nsem) (h : k.newsemLoop fuel next = (next', some sem)) :
    (0 ≤ sem ∧ sem < nsem) ∧ (k.semtab sem).used = false := by
  induction fuel generalizing next with
  | zero => cases h
  | succ fuel ih =>
    rw [newsemLoop] at h
    by_cases hu : (k.semtab next).used = true
    · rw [if_pos hu] at h
      refine ih ?_ h
      split
      · decide
      · omega
    · rw [if_neg hu] at h
      obtain ⟨-, rfl⟩ : _ ∧ next = sem := by simpa using h
      exact ⟨hn, Bool.eq_false_iff.mpr hu⟩

theorem newsemLoop_next {Q : Type} (k : Kernel Q) (fuel : Nat) {next next' : Int}
    {r : Option Int} (hn : 0 ≤ next ∧ next < nsem) (h : k.newsemLoop fuel next = (next', r)) :
    0 ≤ next' ∧ next' < nsem := by
  induction fuel generalizing next with
  | zero =>
    obtain ⟨rfl, -⟩ := Prod.mk.inj h
    exact hn
  | succ fuel ih =>
    have hnext : 0 ≤ (if next + 1 ≥ nsem then 0 else next + 1) ∧
        (if next + 1 ≥ nsem then 0 else next + 1) < nsem := by
      split
      · decide
      · omega
    rw [newsemLoop] at h
    split at h
    · exact ih hnext h
    · obtain ⟨rfl, -⟩ := Prod.mk.inj h
      exact hnext

theorem reaches_semcreate (h : Follows k a) (hr : Regular a) (count : Int32) :
    Reaches a (k.semcreate count).2 := by
  have hnext : 0 ≤ k.nextsem ∧ k.nextsem < nsem := by
    obtain ⟨t, rfl, -⟩ := h
    exact hr.nextsem
  unfold semcreate
  split
  · exact h.reaches
  · rename_i hcount
    split
    · rename_i next hnew
      obtain ⟨t, rfl, hrep⟩ := h
      exact .after (.nextsem next (newsemLoop_next _ _ hnext hnew))
        (Follows.reaches ⟨t, rfl, hrep⟩)
    · rename_i next s hnew
      obtain ⟨hs, hfree⟩ := newsemLoop_spec k _ hnext hnew
      have hrange := newsemLoop_next _ _ hnext hnew
      rw [h.semtab] at hfree
      have hzero := hr.unused s hs hfree
      obtain ⟨t, rfl, hrep⟩ := h
      refine .after (.nextsem next hrange) (.after (.used s hs)
        (.after (.counts s count.toInt hs (.inl ?_) (delay_range hcount).1)
          (Follows.reaches ⟨t, rfl, hrep⟩)))
      simpa [Kernel.setUsed] using hzero

/-- A call that makes processes ready with rescheduling deferred. -/
theorem Follows.deferred (h : Follows k a) (hu : InProgram a) :
    ∃ b, ReflTransGen Move a b ∧
      Follows (k.setContext k.currpid (.returns sysOk)).deferStart b ∧
      b.queuetab = a.queuetab := by
  have hmove : Move a (a.setContext a.currpid (.returns sysOk)) :=
    .context _ rfl (fun h => nomatch h) hu.not_kill
  obtain ⟨t, rfl, hrep⟩ := h
  exact ⟨_, .head hmove (.single (.idle (a.ndefers + 1)
    (if a.ndefers = 0 then false else a.attempt) a.preempt a.nextpid)), ⟨t, rfl, hrep⟩, rfl⟩

theorem Good.reaches_of_moves (hg : Good a) (hm : ReflTransGen Move a b)
    (hk : Good b → Reaches b k) : Reaches a k := by
  obtain ⟨c, hc, hf⟩ := hk (hg.moves hm)
  exact ⟨c, hm.trans hc, hf⟩

theorem sem_of_used {Q : Type} {k : Kernel Q} {s : Int}
    (h : ¬ (isbadsem s || !(k.semtab s).used) = true) :
    (0 ≤ s ∧ s < nsem) ∧ (k.semtab s).used = true := by
  rw [Bool.not_eq_true, Bool.or_eq_false_iff, Bool.not_eq_false'] at h
  exact ⟨isbadsem_false h.1, h.2⟩

theorem reaches_semdelete (h : Follows k a) (hg : Good a) (hu : InProgram a) (s : Int) :
    Reaches a (k.semdelete s).2 := by
  unfold semdelete
  split
  · exact h.reaches
  · rename_i hsem
    have hs := (sem_of_used hsem).1
    obtain ⟨b, hm, hf, -⟩ := h.deferred hu
    refine hg.reaches_of_moves hm fun hb => ?_
    have hfuel := semdeleteLoop_count (k.setContext k.currpid (.returns sysOk)).deferStart s
      ((-(k.semtab s).scount).toNat + 1) (by
        show -(k.semtab s).scount < _
        omega)
    have hused := semdeleteLoop_setUsed (k.setContext k.currpid (.returns sysOk)).deferStart s
      false ((-(k.semtab s).scount).toNat + 1)
    show Reaches b (semdeleteLoop s ((-(k.semtab s).scount).toNat + 1)
      ((k.setContext k.currpid (.returns sysOk)).deferStart.setUsed s false)).deferStop
    rw [hused]
    obtain ⟨c, hc, hfc⟩ := reaches_semdeleteLoop hs ((-(k.semtab s).scount).toNat + 1) hf hb
    refine hb.reaches_of_moves hc fun hgc => ?_
    rw [hfc.semtab] at hfuel
    have hmove : Move c (c.setUsed s false) := .frees s hs hfuel
    exact .after hmove (reaches_deferStop (hfc.setUsed s false) (hgc.move hmove))

theorem reaches_semreset (h : Follows k a) (hg : Good a) (hu : InProgram a)
    (hd : 0 ≤ k.ndefers) (s : Int) (count : Int32) : Reaches a (k.semreset s count).2 := by
  unfold semreset
  split
  · exact h.reaches
  · rename_i hbad
    rw [Bool.or_assoc, Bool.or_eq_true, not_or, decide_eq_true_iff] at hbad
    have hs := (sem_of_used hbad.2).1
    obtain ⟨b, hm, hf, -⟩ := h.deferred hu
    refine hg.reaches_of_moves hm fun hb => ?_
    rw [← setCount_self (k.setContext k.currpid (.returns sysOk)).deferStart s] at hf
    obtain ⟨c, d, hc, hfc, hnil⟩ := reaches_semresetLoop hs (nproc.toNat + 1) hf hb
      (by
        show 0 < k.ndefers + 1
        omega)
      (Nat.lt_of_le_of_lt hb.placed.length_le (by decide))
    refine hb.reaches_of_moves hc fun hgc => ?_
    have hmove : Move c (c.setCount s count.toInt) :=
      .counts s count.toInt hs (.inr hnil) (delay_range hbad.1).1
    have hset := hfc.setCount s count.toInt
    rw [setCount_setCount] at hset
    exact .after hmove (reaches_deferStop hset (hgc.move hmove))

theorem reaches_wait (h : Follows k a) (hg : Good a) (hu : InProgram a)
    (hnull : a.currpid ≠ nullproc) (s : Int) : Reaches a (k.wait s).2 := by
  unfold wait
  split
  · exact h.reaches
  · rename_i hsem
    obtain ⟨hs, hused⟩ := sem_of_used hsem
    have hcount : ((k.setCount s ((k.semtab s).scount - 1)).semtab s).scount =
        (k.semtab s).scount - 1 := by simp [Kernel.setCount]
    dsimp only
    rw [hcount]
    rw [h.semtab] at hused ⊢
    rw [h.currpid, h.proctab, hg.squeue s hs]
    split
    · rename_i hneg
      have hmove := Move.waits s hs hused (by omega) hu.curr hnull
      have hnone : a.home a.currpid = none := home_none (by simp [hu.curr])
      have hset := (h.setCount s ((a.semtab s).scount - 1)).setProc a.currpid
        { a.proctab a.currpid with prstate := .wait, prsem := s }
      have henq := hset.enqueue hg.placed (isQueue_sem hs) hg.currpid hnone
        (by simp [Kernel.setProc])
      exact .after hmove (reaches_leave (henq.note _) (hg.move hmove) rfl (by simp)
        hu.not_kill)
    · rename_i hneg
      exact .after (.counts s _ hs (.inl (by omega)) (by omega)) (h.setCount s _).reaches

theorem reaches_signal (h : Follows k a) (hg : Good a) (hu : InProgram a) (s : Int) :
    Reaches a (k.signal s).2 := by
  unfold signal
  split
  · exact h.reaches
  · rename_i hsem
    have hs := (sem_of_used hsem).1
    split
    · have hmove : Move a (a.setContext a.currpid (.returns sysOk)) :=
        .context _ rfl (fun h => nomatch h) hu.not_kill
      rw [h.currpid]
      exact .after hmove (reaches_signalOnce (h.setContext _ _) (hg.move hmove) hs)
    · exact reaches_signalOnce h hg hs

theorem reaches_signaln (h : Follows k a) (hg : Good a) (hu : InProgram a) (s : Int)
    (count : Int32) : Reaches a (k.signaln s count).2 := by
  unfold signaln
  split
  · exact h.reaches
  · rename_i hbad
    rw [Bool.or_eq_true, not_or, Bool.not_eq_true] at hbad
    have hs := isbadsem_false hbad.1
    split
    · exact h.reaches
    · obtain ⟨b, hm, hf, -⟩ := h.deferred hu
      refine hg.reaches_of_moves hm fun hb => ?_
      exact (reaches_signalTimes hs _ hf hb).andThen hb fun c hc hfc => reaches_deferStop hfc hc

theorem reaches_sendCall (h : Follows k a) (hg : Good a) (hu : InProgram a) {p : Int}
    {msg : UInt32} (hbad : k.sendBad p = false) :
    Reaches a ((k.setContext k.currpid (.returns sysOk)).deliver p msg) := by
  have hok := sendBad_false hbad
  rw [h.proctab] at hok
  have hmove : Move a (a.setContext a.currpid (.returns sysOk)) :=
    .context _ rfl (fun h => nomatch h) hu.not_kill
  rw [h.currpid]
  exact .after hmove
    (reaches_deliver (h.setContext _ _) (hg.move hmove) hok.1 hok.2.1 hok.2.2)

/-! ## The rest of a call -/

theorem recvtimeRest_setContext {Q : Type} (k : Kernel Q) (p : Int) (c : Context) :
    (k.setContext p c).recvtimeRest = (k.recvtimeRest.1, k.recvtimeRest.2.setContext p c) := by
  unfold recvtimeRest
  show (if (k.proctab k.currpid).prhasmsg then _ else _) = _
  split <;> rfl

/-! ## A step -/

/-- No process has become ready since `resched` last decided who runs. -/
def decided : List Happening → Bool
  | .readied _ :: _ => false
  | .runs _ :: _ => true
  | .stays :: _ => true
  | _ :: history => decided history
  | [] => true

/-- A step ends with a current process, with no rescheduling deferred and none due. -/
structure Settled {Q : Type} (k : Kernel Q) : Prop where
  curr : (k.proctab k.currpid).prstate = .curr
  ndefers : k.ndefers = 0
  rested : decided k.history = true

theorem Follows.settled (h : Follows k a) (hs : Settled k) : Settled a where
  curr := by rw [← h.proctab, ← h.currpid]; exact hs.curr
  ndefers := by rw [← h.ndefers]; exact hs.ndefers
  rested := by rw [← h.history]; exact hs.rested

theorem Follows.killBad (h : Follows k a) (p : Int) : k.killBad p = a.killBad p := by
  unfold Kernel.killBad
  rw [h.isbadpid, h.proctab]

theorem killBad_false {Q : Type} {k : Kernel Q} {p : Int} (h : k.killBad p = false) :
    IsPid p ∧ p ≠ nullproc ∧ (k.proctab p).prstate ≠ .free := by
  unfold Kernel.killBad at h
  rw [Bool.or_eq_false_iff, Bool.or_eq_false_iff, isbadpid_false, decide_eq_false_iff_not,
    decide_eq_false_iff_not] at h
  exact ⟨h.1.1.1, h.1.2, h.2⟩

theorem Follows.chprio (h : Follows k a) (p : Int) (newprio : Int16) :
    Follows (k.chprio p newprio).2 (a.chprio p newprio).2 := by
  unfold Kernel.chprio
  rw [h.isbadpid, h.proctab]
  split
  · exact h
  · exact (h.setProc _ _).note _

theorem Follows.startKill (h : Follows k a) (p : Int) :
    Follows (k.startKill p) (a.startKill p) := by
  obtain ⟨t, rfl, hr⟩ := h
  exact ⟨t, rfl, hr⟩

theorem Regular.startKill (h : Regular a) {p : Int} (hp : IsPid p) (hnull : p ≠ nullproc) :
    Regular (a.startKill p) := by
  have hc := h.contexts.setContext a.currpid (c := .kill p) (fun h => nomatch h) fun q hq => by
    obtain rfl := Context.kill.inj hq
    exact ⟨hp, hnull⟩
  exact ⟨h.good.congr rfl rfl rfl rfl, hc.congr rfl rfl, h.unused, h.nextsem⟩

theorem Regular.tickDown (h : Regular a) (hf : Follows k a) : Regular a.tickDown := by
  have hfields := tickDown_fields a
  have hrest : a.tickDown.semtab = a.semtab ∧ a.tickDown.nextsem = a.nextsem := by
    unfold Kernel.tickDown
    split <;> exact ⟨rfl, rfl⟩
  exact
    { good := (hf.tickDown h.good).2
      contexts := h.contexts.congr hfields.2.1 hfields.2.2.2.1
      unused := by rw [hrest.1]; exact h.unused
      nextsem := by rw [hrest.2]; exact h.nextsem }

theorem opening_proceed {Q : Type} [QueueTable Q] {k : Kernel Q}
    (h : (k.context k.currpid).isKill = false) : k.opening .proceed = k := by
  show (match k.context k.currpid with
    | .kill pid => k.remove pid
    | _ => k) = k
  cases hctx : k.context k.currpid with
  | kill p =>
    rw [hctx] at h
    cases h
  | user | returns | suspend | receive | recvtime | clkhandler => rfl

theorem opening_kill {Q : Type} [QueueTable Q] {k : Kernel Q} {p : Int}
    (h : k.context k.currpid = .kill p) : k.opening .proceed = k.remove p := by
  show (match k.context k.currpid with
    | .kill pid => k.remove pid
    | _ => k) = _
  rw [h]

/-- What the opening of a step can be. -/
inductive Opening (a : Kernel QueueLists) : KernelEvent → Kernel QueueLists → Prop
  | same (e : KernelEvent) : Opening a e a
  | changesPrio (p : Int) (newprio : Int16) : a.isbadpid p = false →
      Opening a (.call (.chprio p newprio))
        ((a.setProc p { a.proctab p with prprio := newprio.toInt }).note
          (.changesPrio p newprio.toInt))
  | startsKill (p : Int) : a.killBad p = false → Opening a (.call (.kill p)) (a.startKill p)
  | removes (p : Int) : a.context a.currpid = .kill p → IsPid p → p ≠ nullproc →
      Opening a .proceed (a.remove p)
  | ticks : Opening a .clock a.tickDown

theorem Regular.opening_cases (h : Regular a) (e : KernelEvent) :
    Opening a e (a.opening e) := by
  cases e with
  | call c =>
    cases c with
    | chprio p newprio =>
      show Opening a _ (a.chprio p newprio).2
      unfold Kernel.chprio
      split
      · exact .same _
      · rename_i hbad
        exact .changesPrio p newprio (Bool.eq_false_iff.mpr hbad)
    | kill p =>
      show Opening a _ (if a.killBad p then a else a.startKill p)
      split
      · exact .same _
      · rename_i hbad
        exact .startsKill p (Bool.eq_false_iff.mpr hbad)
    | _ => exact .same _
  | proceed =>
    cases hctx : a.context a.currpid with
    | kill p =>
      have hp := h.contexts.kill _ p hctx
      rw [opening_kill hctx]
      exact .removes p hctx hp.1 hp.2
    | user | returns | suspend | receive | recvtime | clkhandler =>
      rw [opening_proceed (by rw [hctx]; rfl)]
      exact .same _
  | clock => exact .ticks

theorem Regular.opening (h : Regular a) (hf : Follows k a) {e : KernelEvent}
    (ho : Opening a e b) : Regular b := by
  cases ho with
  | same => exact h
  | changesPrio p newprio hbad =>
    have hp := (isbadpid_false.mp hbad).1
    have hg := h.good.sameState hp { a.proctab p with prprio := newprio.toInt } rfl rfl
      (minkey_lt_toInt newprio)
    have hc := h.contexts.setProc p { a.proctab p with prprio := newprio.toInt } fun hx =>
      h.contexts.receive p hx
    exact ⟨hg.congr rfl rfl rfl rfl, hc.congr rfl rfl, h.unused, h.nextsem⟩
  | startsKill p hbad => exact h.startKill (killBad_false hbad).1 (killBad_false hbad).2.1
  | removes p _ hp hnull => exact h.remove hp hnull
  | ticks => exact h.tickDown hf

theorem Follows.opening (h : Follows k a) (hr : Regular a) (e : KernelEvent) :
    Follows (k.opening e) (a.opening e) := by
  cases e with
  | call c =>
    cases c with
    | chprio p newprio => exact h.chprio p newprio
    | kill p =>
      show Follows (if k.killBad p then k else k.startKill p)
        (if a.killBad p then a else a.startKill p)
      rw [h.killBad]
      split
      · exact h
      · exact h.startKill p
    | _ => exact h
  | proceed =>
    have hctx : k.context k.currpid = a.context a.currpid := by rw [h.context, h.currpid]
    cases ha : a.context a.currpid with
    | kill p =>
      rw [opening_kill ha, opening_kill (hctx.trans ha)]
      exact h.remove hr.good (hr.contexts.kill _ p ha).1
    | user | returns | suspend | receive | recvtime | clkhandler =>
      rw [opening_proceed (k := a) (by rw [ha]; rfl), opening_proceed (by rw [hctx, ha]; rfl)]
      exact h
  | clock => exact (h.tickDown hr.good).1

theorem reaches_proceed (h : Follows k a) (hr : Regular a)
    (hst : (a.proctab a.currpid).prstate = .curr) (hk : k.proceed = .ok (o, k')) :
    Reaches (a.opening .proceed) k' := by
  have huser : (a.context a.currpid).isKill = false →
      Move a (a.setContext a.currpid .user) := .context .user rfl (fun h => nomatch h)
  have hback : Follows (k.setContext a.currpid .user) (a.setContext a.currpid .user) :=
    h.setContext _ _
  unfold proceed at hk
  rw [h.context, h.currpid] at hk
  cases hctx : a.context a.currpid with
  | user =>
    rw [hctx] at hk
    cases hk
  | returns value =>
    rw [opening_proceed (by rw [hctx]; rfl)]
    rw [hctx] at hk huser
    obtain ⟨-, rfl⟩ := Prod.mk.inj (Except.ok.inj hk)
    exact .after (huser rfl) hback.reaches
  | suspend p =>
    rw [opening_proceed (by rw [hctx]; rfl)]
    rw [hctx] at hk huser
    obtain ⟨-, rfl⟩ := Prod.mk.inj (Except.ok.inj hk)
    exact .after (huser rfl) hback.reaches
  | receive =>
    have hmsg := hr.contexts.hasmsg hctx (by simp [hst]) (by simp [hst])
    rw [opening_proceed (by rw [hctx]; rfl)]
    rw [hctx] at hk huser
    obtain ⟨-, rfl⟩ := Prod.mk.inj (Except.ok.inj hk)
    refine .after (huser rfl) (.after (.takes hmsg hst ?_) hback.takeMsg.reaches)
    simp [Kernel.setContext]
  | recvtime =>
    have hrest := recvtimeRest_setContext k a.currpid .user
    rw [opening_proceed (by rw [hctx]; rfl)]
    rw [hctx] at hk huser
    obtain ⟨-, rfl⟩ := Prod.mk.inj (Except.ok.inj hk)
    have hreach := reaches_recvtimeRest hback hst (by simp [Kernel.setContext])
    rw [hrest] at hreach
    exact .after (huser rfl) hreach
  | kill p =>
    obtain ⟨hp, hnull⟩ := hr.contexts.kill _ p hctx
    rw [opening_kill hctx]
    rw [hctx] at hk
    obtain ⟨-, rfl⟩ : _ ∧ (k.killRest p).2 = k' := Prod.ext_iff.mp (Except.ok.inj hk)
    exact reaches_killRest h hr.good hp hnull
  | clkhandler =>
    rw [opening_proceed (by rw [hctx]; rfl)]
    rw [hctx] at hk
    obtain ⟨-, rfl⟩ := Prod.mk.inj (Except.ok.inj hk)
    exact reaches_countPreempt h hr.good (by rw [hctx]; rfl)

theorem reaches_syscall (h : Follows k a) (hr : Regular a) (hs : Settled a)
    (hctx : a.context a.currpid = .user) (c : Syscall)
    (hnull : a.currpid = nullproc → c.mayBlock = false) (hk : k.syscall c = .ok (o, k')) :
    Reaches (a.opening (.call c)) k' := by
  have hu : InProgram a := ⟨hs.curr, hctx⟩
  have hg := hr.good
  have hmay : c.mayBlock = true → a.currpid ≠ nullproc := fun hm he => by
    rw [hnull he] at hm
    cases hm
  cases c with
  | create ssize priority =>
    obtain rfl := congrArg Prod.snd (Except.ok.inj hk)
    exact reaches_create h ssize priority
  | kill p =>
    have hf := h.opening hr (.call (.kill p))
    have hro := hr.opening h (hr.opening_cases (.call (.kill p)))
    have hk : k.kill p = .ok (o, k') := hk
    unfold Kernel.kill at hk
    change Follows (if k.killBad p then k else k.startKill p) _ at hf
    by_cases hbad : k.killBad p = true
    · rw [if_pos hbad] at hk hf
      obtain rfl := congrArg Prod.snd (Except.ok.inj hk)
      exact hf.reaches
    · rw [if_neg hbad] at hk hf
      split at hk
      · cases hk
      · obtain rfl := congrArg Prod.snd (Except.ok.inj hk)
        exact reaches_send hf hro.good _ _
  | resume p =>
    obtain rfl := congrArg Prod.snd (Except.ok.inj hk)
    exact reaches_resume h hg hu p
  | suspend p =>
    obtain rfl := congrArg Prod.snd (Except.ok.inj hk)
    exact reaches_suspend h hg hu p
  | yield =>
    obtain rfl := congrArg Prod.snd (Except.ok.inj hk)
    exact reaches_leave h hg rfl (fun h => nomatch h) hu.not_kill
  | chprio p newprio =>
    obtain rfl := congrArg Prod.snd (Except.ok.inj hk)
    exact (h.chprio p newprio).reaches
  | sleepms delay =>
    obtain rfl := congrArg Prod.snd (Except.ok.inj hk)
    refine reaches_sleepms h hg hu fun he => ?_
    simpa [Syscall.mayBlock] using hnull he
  | send p msg =>
    have hk : (if k.sendBad p then Except.ok (some sysErr, k)
      else .ok (none, (k.setContext k.currpid (.returns sysOk)).deliver p msg)) =
        (.ok (o, k') : Except NoStep _) := hk
    split at hk
    · obtain rfl := congrArg Prod.snd (Except.ok.inj hk)
      exact h.reaches
    · rename_i hbad
      obtain rfl := congrArg Prod.snd (Except.ok.inj hk)
      exact reaches_sendCall h hg hu (Bool.eq_false_iff.mpr hbad)
  | receive =>
    obtain rfl := congrArg Prod.snd (Except.ok.inj hk)
    exact reaches_receive h hg hu (hmay rfl)
  | recvtime maxwait =>
    obtain rfl := congrArg Prod.snd (Except.ok.inj hk)
    exact reaches_recvtime h hg hu (hmay rfl) maxwait
  | recvclr =>
    obtain rfl := congrArg Prod.snd (Except.ok.inj hk)
    exact reaches_recvclr h hu
  | semcreate count =>
    obtain rfl := congrArg Prod.snd (Except.ok.inj hk)
    exact reaches_semcreate h hr count
  | semdelete s =>
    obtain rfl := congrArg Prod.snd (Except.ok.inj hk)
    exact reaches_semdelete h hg hu s
  | semreset s count =>
    obtain rfl := congrArg Prod.snd (Except.ok.inj hk)
    exact reaches_semreset h hg hu (by rw [h.ndefers, hs.ndefers]) s count
  | wait s =>
    obtain rfl := congrArg Prod.snd (Except.ok.inj hk)
    exact reaches_wait h hg hu (hmay rfl) s
  | signal s =>
    obtain rfl := congrArg Prod.snd (Except.ok.inj hk)
    exact reaches_signal h hg hu s
  | signaln s count =>
    obtain rfl := congrArg Prod.snd (Except.ok.inj hk)
    exact reaches_signaln h hg hu s count

theorem step_call {Q : Type} [QueueTable Q] {k k' : Kernel Q} {c : Syscall}
    (hk : k.step (.call c) = .ok (o, k')) : k.context k.currpid = .user ∧
      (k.currpid = nullproc → c.mayBlock = false) ∧ k.syscall c = .ok (o, k') := by
  unfold Kernel.step at hk
  dsimp only at hk
  split at hk
  · cases hk
  · rename_i huser
    split at hk
    · cases hk
    · rename_i hnull
      rw [not_and, Bool.not_eq_true] at hnull
      exact ⟨not_not.mp huser, hnull, hk⟩

theorem step_clock {Q : Type} [QueueTable Q] {k k' : Kernel Q}
    (hk : k.step .clock = .ok (o, k')) : k.context k.currpid = .user ∧ k' = k.clkhandler := by
  unfold Kernel.step at hk
  dsimp only at hk
  split at hk
  · cases hk
  · rename_i huser
    exact ⟨not_not.mp huser, (congrArg Prod.snd (Except.ok.inj hk)).symm⟩

/-- What a step leaves is where moves lead from its opening. -/
theorem reaches_step (h : Follows k a) (hr : Regular a) (hs : Settled a) {e : KernelEvent}
    (hk : k.step e = .ok (o, k')) : Reaches (a.opening e) k' := by
  cases e with
  | call c =>
    obtain ⟨hctx, hnull, hcall⟩ := step_call hk
    rw [h.context, h.currpid] at hctx
    rw [h.currpid] at hnull
    exact reaches_syscall h hr hs hctx c hnull hcall
  | proceed => exact reaches_proceed h hr hs.curr hk
  | clock =>
    obtain ⟨hctx, rfl⟩ := step_clock hk
    rw [h.context, h.currpid] at hctx
    refine reaches_clkhandler h hr.good (by rw [h.ndefers, hs.ndefers]) ?_
    rw [hctx]
    rfl

end Calls

end Kernel

end NatBox
