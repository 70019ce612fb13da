import NatBox.Kernel.Changes

/-
Messages between processes: `send`, `receive`, `recvtime` and `recvclr`.

What a process was sent since it was created is what it took, and then the message that is
pending.  `exchange` says which messages a step sends and takes, and `Answers` what the calls
that take messages return.
-/

namespace NatBox

open Function Relation Runs

/-! ## What was sent and taken -/

def sentStep (p : Int) (msgs : List UInt32) : Happening → List UInt32
  | .sent pid msg => if pid = p then msgs ++ [msg] else msgs
  | .created pid _ => if pid = p then [] else msgs
  | _ => msgs

/-- What the process was sent since it was created, the latest last. -/
def sentTo (p : Int) : List Happening → List UInt32
  | [] => []
  | e :: history => sentStep p (sentTo p history) e

def tookStep (p : Int) (msgs : List UInt32) : Happening → List UInt32
  | .took pid msg => if pid = p then msgs ++ [msg] else msgs
  | .created pid _ => if pid = p then [] else msgs
  | _ => msgs

/-- What the process took since it was created, the latest last. -/
def tookBy (p : Int) : List Happening → List UInt32
  | [] => []
  | e :: history => tookStep p (tookBy p history) e

def Happening.exchanges : Happening → Bool
  | .sent _ _ | .took _ _ => true
  | _ => false

namespace Kernel

section State

variable {Q : Type} (k : Kernel Q)

def pending (p : Int) : List UInt32 :=
  if (k.proctab p).prhasmsg then [(k.proctab p).prmsg] else []

def exchanged : List Happening := k.history.filter Happening.exchanges

/-- The current process takes its message, if it has one. -/
def takes : List Happening := (k.pending k.currpid).map (.took k.currpid)

/-- The messages that a step sends or takes.  `kill` sends one to the parent. -/
def exchange : KernelEvent → List Happening
  | .call (.send pid msg) => if k.sendBad pid then [] else [.sent pid msg]
  | .call (.kill pid) =>
    if k.killBad pid || k.sendBad (k.proctab pid).prparent then []
    else [.sent (k.proctab pid).prparent (UInt32.ofNat pid.toNat)]
  | .call .receive | .call .recvclr => k.takes
  | .call (.recvtime maxwait) => if maxwait < 0 then [] else k.takes
  | .proceed =>
    match k.context k.currpid with
    | .receive | .recvtime => k.takes
    | _ => []
  | _ => []

/-- The step ends a call that takes a message, unless the call waits for one. -/
def receives : KernelEvent → Bool
  | .call .receive | .call .recvclr | .call (.recvtime _) => true
  | .proceed => k.context k.currpid = .receive || k.context k.currpid = .recvtime
  | _ => false

/-- What a step returns about messages. -/
structure Answers (e : KernelEvent) (o : Option UInt32) (k' : Kernel Q) : Prop where
  noted : k'.exchanged = k.exchange e ++ k.exchanged
  took : ∀ pid msg, .took pid msg ∈ k.exchange e → o = some msg
  untaken : ∀ value, o = some value → k.receives e = true → k.exchange e = [] →
    (value = sysErr ∧ ∃ maxwait, e = .call (.recvtime maxwait)) ∨
    (k.pending k.currpid = [] ∧
      (value = sysOk ∧ e = .call .recvclr ∨
        value = sysTimeout ∧ e = .proceed ∧ k.context k.currpid = .recvtime))
  refused : ∀ pid msg, e = .call (.send pid msg) → (k.proctab pid).prhasmsg = true →
    o = some sysErr ∧ k' = k

end State

/-! ## What the other steps leave alone -/

section Quiet

variable {Q : Type} {k k' : Kernel Q} {e : Happening}

theorem exchanged_congr (h : k'.history = k.history) : k'.exchanged = k.exchanged :=
  congrArg (List.filter _) h

theorem exchanged_note (he : e.exchanges = false) : (k.note e).exchanged = k.exchanged :=
  List.filter_cons_of_neg (by simp [he])

theorem exchanged_sent (pid : Int) (msg : UInt32) :
    (k.note (.sent pid msg)).exchanged = .sent pid msg :: k.exchanged :=
  List.filter_cons_of_pos rfl

theorem exchanged_took (pid : Int) (msg : UInt32) :
    (k.note (.took pid msg)).exchanged = .took pid msg :: k.exchanged :=
  List.filter_cons_of_pos rfl

theorem exchanged_takeMsg (hmsg : (k.proctab k.currpid).prhasmsg = true) :
    k.takeMsg.2.exchanged = k.takes ++ k.exchanged := by
  unfold takes pending
  rw [if_pos hmsg]
  exact exchanged_took _ _

theorem takes_eq_nil (hmsg : (k.proctab k.currpid).prhasmsg = false) : k.takes = [] := by
  unfold takes pending
  rw [hmsg]
  rfl

theorem pending_eq (p : Int) (hmsg : (k.proctab p).prhasmsg = true) :
    k.pending p = [(k.proctab p).prmsg] := if_pos hmsg

theorem pending_eq_nil {p : Int} (hmsg : (k.proctab p).prhasmsg = false) : k.pending p = [] := by
  unfold pending
  rw [hmsg]
  rfl

variable [QueueTable Q]

theorem exchanged_getfirst (q : Int) : (k.getfirst q).2.exchanged = k.exchanged := by
  obtain ⟨t, ht⟩ := getfirst_queues k q
  rw [ht]
  rfl

theorem exchanged_dequeue (q : Int) : (k.dequeue q).2.exchanged = k.exchanged := by
  obtain ⟨t, ht⟩ := dequeue_queues k q
  rw [ht]
  rfl

theorem exchanged_makeReady (p : Int) : (k.makeReady p).exchanged = k.exchanged := by
  unfold makeReady insert
  rw [exchanged_note rfl]
  split <;> rfl

theorem exchanged_dispatch : k.dispatch.exchanged = k.exchanged := by
  unfold dispatch
  rw [exchanged_note rfl]
  exact exchanged_dequeue readylist

theorem exchanged_resched : k.resched.exchanged = k.exchanged := by
  unfold resched
  split
  · rfl
  · split
    · split
      · exact exchanged_note rfl
      · rw [exchanged_dispatch, exchanged_makeReady]
    · exact exchanged_dispatch

theorem exchanged_ready (p : Int) : (k.ready p).exchanged = k.exchanged := by
  unfold ready
  split
  · rfl
  · rw [exchanged_resched, exchanged_makeReady]

theorem exchanged_leave (c : Context) : (k.leave c).exchanged = k.exchanged := exchanged_resched

theorem exchanged_deferStop : k.deferStop.exchanged = k.exchanged := by
  unfold deferStop
  split
  · rfl
  · dsimp only
    split
    · exact exchanged_resched
    · rfl

theorem exchanged_unsleep (p : Int) : (k.unsleep p).exchanged = k.exchanged := by
  unfold unsleep
  split
  · rfl
  · split
    · rfl
    · dsimp only
      rw [exchanged_note rfl]
      split <;> rfl

theorem exchanged_release (s : Int) (r : Int × Kernel Q) :
    (release s r).exchanged = r.2.exchanged := by
  unfold release
  rw [exchanged_ready, exchanged_note rfl]

theorem exchanged_signalOnce (s : Int) : (k.signalOnce s).exchanged = k.exchanged := by
  unfold signalOnce
  dsimp only
  split
  · rw [exchanged_release, exchanged_dequeue]
    rfl
  · rfl

theorem exchanged_signalTimes (s : Int) (count : Nat) :
    (signalTimes s count k).exchanged = k.exchanged := by
  induction count generalizing k with
  | zero => rfl
  | succ count ih => rw [signalTimes, ih, exchanged_signalOnce]

theorem exchanged_semdeleteLoop (s : Int) (fuel : Nat) :
    (semdeleteLoop s fuel k).exchanged = k.exchanged := by
  induction fuel generalizing k with
  | zero => rfl
  | succ fuel ih =>
    rw [semdeleteLoop]
    split
    · rw [ih, exchanged_release, exchanged_getfirst]
      rfl
    · rfl

theorem exchanged_semresetLoop (s : Int) (fuel : Nat) :
    (semresetLoop s fuel k).exchanged = k.exchanged := by
  induction fuel generalizing k with
  | zero => rfl
  | succ fuel ih =>
    rw [semresetLoop]
    split
    · rw [ih, exchanged_release, exchanged_getfirst]
    · rfl

theorem exchanged_wakeupLoop (fuel : Nat) : (wakeupLoop fuel k).exchanged = k.exchanged := by
  induction fuel generalizing k with
  | zero => rfl
  | succ fuel ih =>
    rw [wakeupLoop]
    split
    · dsimp only
      rw [ih, exchanged_ready, exchanged_note rfl, exchanged_dequeue]
    · rfl

theorem exchanged_countPreempt : k.countPreempt.exchanged = k.exchanged := by
  unfold countPreempt
  dsimp only
  split
  · exact exchanged_leave _
  · rfl

theorem exchanged_tickDown : k.tickDown.exchanged = k.exchanged := by
  unfold tickDown
  split <;> exact exchanged_note rfl

theorem exchanged_clkhandler : k.clkhandler.exchanged = k.exchanged := by
  unfold clkhandler
  split
  · unfold wakeup
    rw [exchanged_deferStop, exchanged_wakeupLoop]
    exact exchanged_tickDown
  · rw [exchanged_countPreempt, exchanged_tickDown]

theorem exchanged_detach (p : Int) : (k.detach p).exchanged = k.exchanged := by
  unfold detach
  cases (k.proctab p).prstate with
  | sleep | rectim => exact exchanged_unsleep p
  | wait | ready | free | curr | recv | susp => rfl

theorem exchanged_remove (p : Int) : (k.remove p).exchanged = k.exchanged := by
  unfold remove
  dsimp only
  refine (exchanged_congr rfl).trans ((exchanged_note rfl).trans ?_)
  refine (exchanged_congr rfl).trans ((exchanged_detach p).trans ?_)
  exact exchanged_note rfl

theorem exchanged_killRest (p : Int) : (k.killRest p).2.exchanged = k.exchanged := by
  unfold killRest
  split
  · exact exchanged_resched.trans (exchanged_remove p)
  · exact exchanged_remove p

theorem exchanged_sleepFor (delay : Int) (st : PrState) (c : Context) :
    (k.sleepFor delay st c).2.exchanged = k.exchanged := by
  unfold sleepFor insertd
  split
  · rfl
  · next k' heq =>
    split at heq
    · cases heq
    · rw [← Option.some.inj heq]
      rw [exchanged_leave, exchanged_note rfl]
      rfl

theorem exchanged_deliver (p : Int) (msg : UInt32) :
    (k.deliver p msg).exchanged = .sent p msg :: k.exchanged := by
  unfold deliver
  dsimp only
  have hsent : ((k.setProc p { k.proctab p with prmsg := msg, prhasmsg := true }).note
      (.sent p msg)).exchanged = .sent p msg :: k.exchanged := exchanged_sent p msg
  cases (k.proctab p).prstate with
  | recv => exact (exchanged_ready p).trans hsent
  | rectim => exact (exchanged_ready p).trans ((exchanged_unsleep p).trans hsent)
  | free | curr | ready | sleep | susp | wait => exact hsent

end Quiet

/-! ## What each step answers -/

section Answers

variable {Q : Type} {k k' : Kernel Q} {e : KernelEvent} {o : Option UInt32}

/-- A step that is not about messages. -/
theorem Answers.quiet (he : k.exchange e = []) (hr : k.receives e = false)
    (hs : ∀ pid msg, e ≠ .call (.send pid msg)) (hx : k'.exchanged = k.exchanged) :
    k.Answers e o k' where
  noted := by rw [he, hx, List.nil_append]
  took _ _ h := by
    rw [he] at h
    cases h
  untaken _ _ h := by
    rw [hr] at h
    cases h
  refused pid msg h := absurd h (hs pid msg)

/-- A step by which the current process takes its message. -/
theorem Answers.takes (he : k.exchange e = k.takes)
    (hmsg : (k.proctab k.currpid).prhasmsg = true) (ho : o = some k.takeMsg.1)
    (hs : ∀ pid msg, e ≠ .call (.send pid msg)) (hx : k'.exchanged = k.takeMsg.2.exchanged) :
    k.Answers e o k' where
  noted := by rw [he, hx, exchanged_takeMsg hmsg]
  took pid msg h := by
    rw [he] at h
    unfold Kernel.takes at h
    rw [pending_eq _ hmsg, List.map_singleton, List.mem_singleton] at h
    rw [ho]
    injection h with hpid hval
    exact congrArg some hval.symm
  untaken _ _ _ h := by
    rw [he] at h
    unfold Kernel.takes at h
    rw [pending_eq _ hmsg] at h
    cases h
  refused pid msg h := absurd h (hs pid msg)

theorem answers_recvclr : k.Answers (.call .recvclr) (some k.recvclr.1) k.recvclr.2 := by
  unfold Kernel.recvclr
  cases hmsg : (k.proctab k.currpid).prhasmsg with
  | false =>
    rw [if_neg (by nofun)]
    have hex : k.exchange (.call .recvclr) = [] := takes_eq_nil hmsg
    refine ⟨by rw [hex]; rfl, fun _ _ h => ?_, fun value h _ _ => ?_, fun _ _ h => (nomatch h)⟩
    · rw [hex] at h
      cases h
    · exact .inr ⟨pending_eq_nil hmsg, .inl ⟨(Option.some.inj h).symm, rfl⟩⟩
  | true =>
    rw [if_pos rfl]
    exact .takes rfl hmsg rfl (fun _ _ h => nomatch h) rfl

theorem exchange_proceed : k.exchange .proceed =
    match k.context k.currpid with
    | .receive | .recvtime => k.takes
    | _ => [] := rfl

theorem answers_recvtimeRest (hcase : k.context k.currpid = .recvtime) :
    k.Answers .proceed (some k.recvtimeRest.1) (k.recvtimeRest.2.setContext k.currpid .user) := by
  have hex : k.exchange .proceed = k.takes := by rw [exchange_proceed, hcase]
  unfold recvtimeRest
  cases hmsg : (k.proctab k.currpid).prhasmsg with
  | false =>
    rw [if_neg (by nofun)]
    rw [takes_eq_nil hmsg] at hex
    refine ⟨?_, fun _ _ h => ?_, fun value h _ _ => ?_, fun _ _ h => (nomatch h)⟩
    · rw [hex]
      exact exchanged_note rfl
    · rw [hex] at h
      cases h
    · exact .inr ⟨pending_eq_nil hmsg, .inr ⟨(Option.some.inj h).symm, rfl, hcase⟩⟩
  | true =>
    rw [if_pos rfl]
    exact .takes hex hmsg rfl (fun _ _ h => nomatch h) rfl

variable [QueueTable Q]

theorem answers_send (p : Int) (msg : UInt32)
    (hk : (if k.sendBad p then (some sysErr, k)
      else (none, (k.setContext k.currpid (.returns sysOk)).deliver p msg)) = (o, k')) :
    k.Answers (.call (.send p msg)) o k' := by
  have hex : k.exchange (.call (.send p msg)) = if k.sendBad p then [] else [.sent p msg] := rfl
  split at hk
  · next hbad =>
    obtain ⟨rfl, rfl⟩ := Prod.mk.inj hk
    rw [if_pos hbad] at hex
    refine ⟨by rw [hex]; rfl, fun _ _ h => ?_, fun _ h => ?_, fun _ _ _ _ => ⟨rfl, rfl⟩⟩
    · rw [hex] at h
      cases h
    · exact fun h => nomatch h
  · next hbad =>
    obtain ⟨rfl, rfl⟩ := Prod.mk.inj hk
    rw [if_neg hbad] at hex
    refine ⟨?_, fun pid v h => ?_, fun _ h => (nomatch h), fun pid v h hmsg => ?_⟩
    · rw [hex]
      exact exchanged_deliver p msg
    · rw [hex, List.mem_singleton] at h
      cases h
    · cases h
      rw [sendBad, hmsg, Bool.or_true] at hbad
      exact absurd rfl hbad

theorem answers_kill (p : Int) (hk : k.kill p = .ok (o, k')) :
    k.Answers (.call (.kill p)) o k' := by
  have hex : k.exchange (.call (.kill p)) =
    if k.killBad p || k.sendBad (k.proctab p).prparent then []
    else [.sent (k.proctab p).prparent (UInt32.ofNat p.toNat)] := rfl
  refine ⟨?_, fun pid msg h => ?_, fun _ _ h => (nomatch h), fun _ _ h => (nomatch h)⟩
  · rw [hex]
    unfold Kernel.kill at hk
    split at hk
    · next hbad =>
      obtain rfl := congrArg Prod.snd (Except.ok.inj hk)
      rw [hbad, Bool.true_or]
      rfl
    · next hbad =>
      split at hk
      · cases hk
      · obtain rfl := congrArg Prod.snd (Except.ok.inj hk)
        have hstart : (k.startKill p).exchanged = k.exchanged := exchanged_note rfl
        have hsame : (k.startKill p).sendBad = k.sendBad := rfl
        rw [Bool.not_eq_true] at hbad
        rw [hbad, Bool.false_or]
        unfold send
        rw [hsame]
        split
        · exact hstart
        · exact (exchanged_deliver _ _).trans (congrArg (_ :: ·) hstart)
  · rw [hex] at h
    split at h
    · cases h
    · rw [List.mem_singleton] at h
      cases h

theorem answers_receive : k.Answers (.call .receive) k.receive.1 k.receive.2 := by
  unfold Kernel.receive
  cases hmsg : (k.proctab k.currpid).prhasmsg with
  | false =>
    rw [if_pos rfl]
    have hex : k.exchange (.call .receive) = [] := takes_eq_nil hmsg
    refine ⟨?_, fun _ _ h => ?_, fun _ h => (nomatch h), fun _ _ h => (nomatch h)⟩
    · rw [hex]
      exact exchanged_leave _
    · rw [hex] at h
      cases h
  | true =>
    rw [if_neg (by nofun)]
    exact .takes rfl hmsg rfl (fun _ _ h => nomatch h) rfl

theorem answers_recvtime (maxwait : Int32) :
    k.Answers (.call (.recvtime maxwait)) (k.recvtime maxwait).1 (k.recvtime maxwait).2 := by
  have hex : k.exchange (.call (.recvtime maxwait)) = if maxwait < 0 then [] else k.takes := rfl
  unfold Kernel.recvtime
  split
  · next hneg =>
    rw [if_pos hneg] at hex
    refine ⟨by rw [hex]; rfl, fun _ _ h => ?_, fun value h _ _ => ?_, fun _ _ h => (nomatch h)⟩
    · rw [hex] at h
      cases h
    · exact .inl ⟨(Option.some.inj h).symm, maxwait, rfl⟩
  · next hneg =>
    rw [if_neg hneg] at hex
    cases hmsg : (k.proctab k.currpid).prhasmsg with
    | false =>
      rw [if_pos rfl]
      rw [takes_eq_nil hmsg] at hex
      refine ⟨?_, fun _ _ h => ?_, fun value h _ _ => ?_, fun _ _ h => (nomatch h)⟩
      · rw [hex]
        exact exchanged_sleepFor _ _ _
      · rw [hex] at h
        cases h
      · refine .inl ⟨?_, maxwait, rfl⟩
        unfold Kernel.sleepFor at h
        split at h
        · exact (Option.some.inj h).symm
        · cases h
    | true =>
      rw [if_neg (by nofun), recvtimeRest, if_pos hmsg]
      exact .takes hex hmsg rfl (fun _ _ h => nomatch h) rfl

theorem answers_syscall (c : Syscall) (hk : k.syscall c = .ok (o, k')) :
    k.Answers (.call c) o k' := by
  cases c with
  | send p msg =>
    have hk : (if k.sendBad p then Except.ok (some sysErr, k)
      else .ok (none, (k.setContext k.currpid (.returns sysOk)).deliver p msg)) =
        (.ok (o, k') : Except NoStep _) := hk
    refine answers_send p msg ?_
    split at hk
    · next hbad =>
      rw [if_pos hbad]
      exact Except.ok.inj hk
    · next hbad =>
      rw [if_neg hbad]
      exact Except.ok.inj hk
  | kill p => exact answers_kill p hk
  | receive =>
    obtain ⟨rfl, rfl⟩ := Prod.mk.inj (Except.ok.inj hk)
    exact answers_receive
  | recvtime maxwait =>
    obtain ⟨rfl, rfl⟩ := Prod.mk.inj (Except.ok.inj hk)
    exact answers_recvtime maxwait
  | recvclr =>
    obtain ⟨rfl, rfl⟩ := Prod.mk.inj (Except.ok.inj hk)
    exact answers_recvclr
  | create ssize priority =>
    obtain rfl := congrArg Prod.snd (Except.ok.inj hk)
    refine .quiet rfl rfl (fun _ _ h => nomatch h) ?_
    unfold Kernel.create
    split
    · rfl
    · split
      · rfl
      · split
        · rfl
        · exact exchanged_note rfl
  | resume p =>
    obtain rfl := congrArg Prod.snd (Except.ok.inj hk)
    refine .quiet rfl rfl (fun _ _ h => nomatch h) ?_
    unfold Kernel.resume
    split
    · rfl
    · split
      · rfl
      · exact exchanged_ready p
  | suspend p =>
    obtain rfl := congrArg Prod.snd (Except.ok.inj hk)
    refine .quiet rfl rfl (fun _ _ h => nomatch h) ?_
    unfold Kernel.suspend
    split
    · rfl
    · split
      · exact exchanged_note rfl
      · exact (exchanged_leave _).trans (exchanged_note rfl)
      · rfl
  | yield =>
    obtain rfl := congrArg Prod.snd (Except.ok.inj hk)
    exact .quiet rfl rfl (fun _ _ h => nomatch h) (exchanged_leave _)
  | chprio p newprio =>
    obtain rfl := congrArg Prod.snd (Except.ok.inj hk)
    refine .quiet rfl rfl (fun _ _ h => nomatch h) ?_
    unfold Kernel.chprio
    split
    · rfl
    · exact exchanged_note rfl
  | sleepms delay =>
    obtain rfl := congrArg Prod.snd (Except.ok.inj hk)
    refine .quiet rfl rfl (fun _ _ h => nomatch h) ?_
    unfold Kernel.sleepms
    split
    · rfl
    · split
      · exact exchanged_leave _
      · exact exchanged_sleepFor _ _ _
  | semcreate count =>
    obtain rfl := congrArg Prod.snd (Except.ok.inj hk)
    refine .quiet rfl rfl (fun _ _ h => nomatch h) ?_
    unfold Kernel.semcreate
    split
    · rfl
    · split <;> rfl
  | semdelete s =>
    obtain rfl := congrArg Prod.snd (Except.ok.inj hk)
    refine .quiet rfl rfl (fun _ _ h => nomatch h) ?_
    unfold Kernel.semdelete
    split
    · rfl
    · exact exchanged_deferStop.trans (exchanged_semdeleteLoop _ _)
  | semreset s count =>
    obtain rfl := congrArg Prod.snd (Except.ok.inj hk)
    refine .quiet rfl rfl (fun _ _ h => nomatch h) ?_
    unfold Kernel.semreset
    split
    · rfl
    · refine exchanged_deferStop.trans ((exchanged_congr rfl).trans ?_)
      exact exchanged_semresetLoop s (nproc.toNat + 1)
  | wait s =>
    obtain rfl := congrArg Prod.snd (Except.ok.inj hk)
    refine .quiet rfl rfl (fun _ _ h => nomatch h) ?_
    unfold Kernel.wait
    split
    · rfl
    · dsimp only
      split
      · rw [exchanged_leave, exchanged_note rfl]
        unfold Kernel.enqueue
        split <;> rfl
      · rfl
  | signal s =>
    obtain rfl := congrArg Prod.snd (Except.ok.inj hk)
    refine .quiet rfl rfl (fun _ _ h => nomatch h) ?_
    unfold Kernel.signal
    split
    · rfl
    · split
      · exact exchanged_signalOnce s
      · exact exchanged_signalOnce s
  | signaln s count =>
    obtain rfl := congrArg Prod.snd (Except.ok.inj hk)
    refine .quiet rfl rfl (fun _ _ h => nomatch h) ?_
    unfold Kernel.signaln
    split
    · rfl
    · split
      · rfl
      · exact exchanged_deferStop.trans (exchanged_signalTimes _ _)

theorem answers_proceed (hctx : k.context k.currpid = .receive →
    (k.proctab k.currpid).prhasmsg = true) (hk : k.proceed = .ok (o, k')) :
    k.Answers .proceed o k' := by
  unfold Kernel.proceed at hk
  cases hcase : k.context k.currpid with
  | user =>
    rw [hcase] at hk
    cases hk
  | returns value =>
    rw [hcase] at hk
    obtain ⟨-, rfl⟩ := Prod.mk.inj (Except.ok.inj hk)
    exact .quiet (by rw [exchange_proceed, hcase]) (by simp [receives, hcase])
      (fun _ _ h => nomatch h) rfl
  | suspend p =>
    rw [hcase] at hk
    obtain ⟨-, rfl⟩ := Prod.mk.inj (Except.ok.inj hk)
    exact .quiet (by rw [exchange_proceed, hcase]) (by simp [receives, hcase])
      (fun _ _ h => nomatch h) rfl
  | receive =>
    rw [hcase] at hk
    obtain ⟨rfl, rfl⟩ := Prod.mk.inj (Except.ok.inj hk)
    exact .takes (by rw [exchange_proceed, hcase]) (hctx hcase) rfl (fun _ _ h => nomatch h) rfl
  | recvtime =>
    rw [hcase] at hk
    obtain ⟨rfl, rfl⟩ := Prod.mk.inj (Except.ok.inj hk)
    exact answers_recvtimeRest hcase
  | kill p =>
    rw [hcase] at hk
    obtain rfl := congrArg Prod.snd (Except.ok.inj hk)
    exact .quiet (by rw [exchange_proceed, hcase]) (by simp [receives, hcase])
      (fun _ _ h => nomatch h) (exchanged_killRest p)
  | clkhandler =>
    rw [hcase] at hk
    obtain ⟨-, rfl⟩ := Prod.mk.inj (Except.ok.inj hk)
    exact .quiet (by rw [exchange_proceed, hcase]) (by simp [receives, hcase])
      (fun _ _ h => nomatch h) exchanged_countPreempt

theorem answers_step (hctx : k.context k.currpid = .receive →
    (k.proctab k.currpid).prhasmsg = true) (hk : k.step e = .ok (o, k')) : k.Answers e o k' := by
  cases e with
  | call c => exact answers_syscall c (step_call hk).2.2
  | proceed => exact answers_proceed hctx hk
  | clock =>
    obtain ⟨-, rfl⟩ := step_clock hk
    exact .quiet rfl rfl (fun _ _ h => nomatch h) exchanged_clkhandler

end Answers

/-! ## Every message is taken once -/

section Delivered

variable {a b : Kernel QueueLists} {heap : Heap} {tr : List (KernelEvent × Option UInt32)}
  {k k' : Kernel Queuetab} {o : Option UInt32}

def TakenOnce {Q : Type} (k : Kernel Q) : Prop :=
  ∀ p, sentTo p k.history = tookBy p k.history ++ k.pending p

theorem sentStep_schedules {e : Happening} (he : e.schedules = true) (p : Int) (l : List UInt32) :
    sentStep p l e = l := by
  cases e <;> first | rfl | cases he

theorem tookStep_schedules {e : Happening} (he : e.schedules = true) (p : Int) (l : List UInt32) :
    tookStep p l e = l := by
  cases e <;> first | rfl | cases he

theorem sentTo_append {es : List Happening} (hes : ∀ e ∈ es, e.schedules = true) (p : Int)
    (history : List Happening) : sentTo p (es ++ history) = sentTo p history ∧
      tookBy p (es ++ history) = tookBy p history := by
  induction es with
  | nil => exact ⟨rfl, rfl⟩
  | cons e es ih =>
    obtain ⟨hsent, htook⟩ := ih fun x hx => hes x (List.mem_cons_of_mem _ hx)
    have he := hes e List.mem_cons_self
    rw [List.cons_append, sentTo, tookBy, sentStep_schedules he, tookStep_schedules he]
    exact ⟨hsent, htook⟩

theorem TakenOnce.schedules (h : TakenOnce a) (hs : Schedules a b) : TakenOnce b := by
  intro p
  obtain ⟨es, heq, hes⟩ := hs.history
  obtain ⟨hsent, htook⟩ := sentTo_append hes p a.history
  have hpending : b.pending p = a.pending p := by
    unfold pending
    rw [hs.entry p]
  rw [heq, hsent, htook, hpending]
  exact h p

/-- What else happens to a process than that it is sent or takes a message. -/
theorem TakenOnce.note (h : TakenOnce a) {e : Happening} (hsent : ∀ p l, sentStep p l e = l)
    (htook : ∀ p l, tookStep p l e = l) (hh : b.history = e :: a.history)
    (hpending : ∀ p, b.pending p = a.pending p) : TakenOnce b := by
  intro p
  rw [hh, sentTo, tookBy, hsent, htook, hpending]
  exact h p

theorem pending_update {entry : Procent} {p : Int} (hb : b.proctab = update a.proctab p entry) :
    b.pending p = (if entry.prhasmsg then [entry.prmsg] else []) ∧
      ∀ q, q ≠ p → b.pending q = a.pending q := by
  unfold pending
  rw [hb]
  exact ⟨by rw [update_self], fun q hq => by rw [update_of_ne hq]⟩

theorem TakenOnce.move (h : TakenOnce a) (hg : Good a) (hm : Move a b) : TakenOnce b := by
  cases hm.change hg with
  | schedules hs => exact h.schedules hs
  | sends p msg hst hmsg =>
    obtain ⟨hself, hother⟩ := pending_update (a := a)
      (b := (a.setProc p { a.proctab p with prmsg := msg, prhasmsg := true }).note (.sent p msg))
      rfl
    intro q
    show sentStep q (sentTo q a.history) (.sent p msg) = tookBy q a.history ++ _
    by_cases hq : q = p
    · subst hq
      have hq := h q
      rw [pending_eq_nil hmsg, List.append_nil] at hq
      rw [hself, sentStep, if_pos rfl, hq]
      rfl
    · rw [hother q hq, sentStep, if_neg (Ne.symm hq)]
      exact h q
  | takes hmsg hst =>
    obtain ⟨hself, hother⟩ := pending_update (a := a) (b := a.takeMsg.2) rfl
    intro q
    show sentTo q a.history = tookStep q (tookBy q a.history) (.took a.currpid _) ++ _
    by_cases hq : q = a.currpid
    · subst hq
      rw [hself, tookStep, if_pos rfl, h a.currpid, pending_eq _ hmsg]
      exact (List.append_nil _).symm
    · rw [hother q hq, tookStep, if_neg (Ne.symm hq)]
      exact h q
  | timesOut hmsg => exact h.note (fun _ _ => rfl) (fun _ _ => rfl) rfl fun _ => rfl
  | creates p prio saddr ssize memory hp hfree hsize hstk =>
    obtain ⟨hself, hother⟩ := pending_update (a := a)
      (b := (({ a with memory := memory, prcount := a.prcount + 1 }.setProc p
        (a.newProc p prio saddr ssize)).setContext p .user).note (.created p prio)) rfl
    intro q
    show sentStep q (sentTo q a.history) (.created p prio) =
      tookStep q (tookBy q a.history) (.created p prio) ++ _
    by_cases hq : q = p
    · subst hq
      rw [sentStep, tookStep, if_pos rfl, if_pos rfl]
      exact hself.symm
    · rw [sentStep, tookStep, if_neg (Ne.symm hq), if_neg (Ne.symm hq)]
      rw [hother q hq]
      exact h q

theorem TakenOnce.opening (h : TakenOnce a) {e : KernelEvent} (ho : Opening a e b) :
    TakenOnce b := by
  cases ho.change with
  | schedules _ hs => exact h.schedules hs
  | startsKill p hbad => exact h.note (fun _ _ => rfl) (fun _ _ => rfl) rfl fun _ => rfl
  | removes p hctx hp hnull =>
    have hsame : ∀ q, (a.remove p).pending q = a.pending q := by
      intro q
      obtain ⟨hself, hother⟩ := pending_update (remove_fields a p).2.2.2
      by_cases hq : q = p
      · subst hq
        exact hself
      · exact hother q hq
    have hfreed : TakenOnce (a.stackFreed p) :=
      h.note (fun _ _ => rfl) (fun _ _ => rfl) rfl fun _ => rfl
    rcases remove_history hp with hh | hh
    · exact hfreed.note (fun _ _ => rfl) (fun _ _ => rfl) hh hsame
    · intro q
      rw [hh, hsame]
      exact hfreed q

structure Delivered (k : Kernel Queuetab) : Prop where
  once : TakenOnce k
  answers : ∀ e o k', k.step e = .ok (o, k') → k.Answers e o k'
  /-- a call that takes a message returns `TIMEOUT` only if there is none, or it is that -/
  timeout : ∀ e k', k.receives e = true → k.step e = .ok (some sysTimeout, k') →
    k.pending k.currpid = [] ∨ k.pending k.currpid = [sysTimeout]

theorem exchange_receives {e : KernelEvent} (hr : k.receives e = true) :
    k.exchange e = [] ∨ k.exchange e = k.takes := by
  cases e with
  | call c =>
    cases c with
    | receive | recvclr => exact .inr rfl
    | recvtime maxwait =>
      by_cases hneg : maxwait < 0
      · exact .inl (if_pos hneg)
      · exact .inr (if_neg hneg)
    | _ => cases hr
  | proceed =>
    rw [exchange_proceed]
    split
    · exact .inr rfl
    · exact .inr rfl
    · exact .inl rfl
  | clock => cases hr

theorem Answers.timeout {e : KernelEvent} (h : k.Answers e (some sysTimeout) k')
    (hr : k.receives e = true) :
    k.pending k.currpid = [] ∨ k.pending k.currpid = [sysTimeout] := by
  by_cases hex : k.exchange e = []
  · obtain ⟨herr, -⟩ | ⟨hnone, -⟩ := h.untaken _ rfl hr hex
    · exact absurd herr (by decide)
    · exact .inl hnone
  · have htakes := (exchange_receives hr).resolve_left hex
    cases hmsg : (k.proctab k.currpid).prhasmsg with
    | false => exact .inl (pending_eq_nil hmsg)
    | true =>
      have hmem : .took k.currpid (k.proctab k.currpid).prmsg ∈ k.exchange e := by
        rw [htakes]
        unfold Kernel.takes
        rw [pending_eq _ hmsg]
        exact List.mem_singleton_self _
      rw [pending_eq _ hmsg, Option.some.inj (h.took _ _ hmem)]
      exact .inr rfl

theorem sysinit_takenOnce : TakenOnce (sysinit emptyLists heap) := by
  intro p
  unfold pending
  by_cases hp : p = nullproc
  · subst hp
    rfl
  · simp [sysinit, hp, freeProc, sentTo, tookBy, sentStep, tookStep]

/-- Every message is pending or was taken by its recipient once, and what takes no message
returns none. -/
theorem messages_delivered (h : Run step (sysinit Queuetab.init heap) tr k) : Delivered k := by
  obtain ⟨a, hf, hr, hs, honce⟩ := follows_of_run sysinit_takenOnce
    (fun _ _ _ _ hJ ho => hJ.opening ho) (fun _ _ hr hJ hm => hJ.move hr.good hm) h
  have hanswers : ∀ e o k', k.step e = .ok (o, k') → k.Answers e o k' := by
    intro e o k' hk
    refine answers_step (fun hctx => ?_) hk
    have hcurr := hs.curr
    rw [hf.context, hf.currpid] at hctx
    rw [hf.proctab, hf.currpid] at hcurr ⊢
    exact hr.contexts.hasmsg hctx (by simp [hcurr]) (by simp [hcurr])
  refine ⟨fun p => ?_, hanswers, fun e k' hrec hk => (hanswers e _ k' hk).timeout hrec⟩
  obtain ⟨t, rfl, -⟩ := hf
  exact honce p

/-- Process 1 waits for a message with a limit, and is current again since process 2 sent it
one. -/
theorem messages_delivered_pending : ∃ tr k, Run step (sysinit Queuetab.init oneBlock) tr k ∧
    k.pending 1 = [7] ∧ Delivered k := by
  have hrun : endsIn step (sysinit Queuetab.init oneBlock)
      [.call (.create 1024 5), .call (.resume 1), .call (.create 1024 3), .call (.resume 2),
        .proceed, .call (.recvtime 9), .call (.send 1 7)]
      (fun _ k => k.pending 1 = [7]) = true := by decide +kernel
  obtain ⟨os, k, h, -, hcheck⟩ := run_of_endsIn hrun
  exact ⟨_, k, h, of_decide_eq_true hcheck, messages_delivered h⟩

/-- Process 2 sends process 1 the message that is `TIMEOUT`. -/
theorem messages_timeout_sent : ∃ tr k k', Run step (sysinit Queuetab.init oneBlock) tr k ∧
    k.context k.currpid = .recvtime ∧ k.pending k.currpid = [sysTimeout] ∧
    k.step .proceed = .ok (some sysTimeout, k') := by
  have hrun : endsIn step (sysinit Queuetab.init oneBlock)
      [.call (.create 1024 5), .call (.resume 1), .call (.create 1024 3), .call (.resume 2),
        .proceed, .call (.recvtime 9), .call (.send 1 sysTimeout)]
      (fun _ k => k.context k.currpid = .recvtime ∧ (k.proctab k.currpid).prhasmsg = true ∧
        (k.proctab k.currpid).prmsg = sysTimeout) = true := by decide +kernel
  obtain ⟨os, k, h, -, hcheck⟩ := run_of_endsIn hrun
  obtain ⟨hctx, hmsg, hval⟩ := of_decide_eq_true hcheck
  refine ⟨_, k, k.takeMsg.2.setContext k.currpid .user, h, hctx, ?_, ?_⟩
  · rw [pending_eq _ hmsg, hval]
  · show k.proceed = _
    unfold proceed recvtimeRest
    rw [hctx, if_pos hmsg]
    dsimp only
    rw [show k.takeMsg.1 = sysTimeout from hval]

end Delivered

end Kernel

end NatBox
