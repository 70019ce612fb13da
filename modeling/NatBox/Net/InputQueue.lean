import NatBox.Lib.RingBuffer
import NatBox.Lib.Runs

/-
The queue of one interface between `rawin` and `netin`.

The semaphore counts the packets that may be waited for.  `wait` has already taken
one of them off when `netin` comes to take it out of the ring, so between the two the
count is one below what the ring holds: `delivers_iff` says that a packet stored just
then into a full ring is the only way to lose one.
-/

namespace NatBox

open Runs

/-- `IF_QUEUESIZE` -/
abbrev ifQueueSize : Nat := 20

/-- Where the process `netin` of the interface is. -/
inductive NetinAt
  | loopTop
  | blocked
  | returned
  deriving DecidableEq

/-- What `struct ifentry` and the semaphore `if_sem` hold of the queue: `ifQueue` is
`if_queue` with `if_head` and `if_tail`, `scount` the count of the semaphore. -/
structure IfEntry (π : Type) where
  scount : Int
  ifQueue : RingBuffer ifQueueSize π
  netin : NetinAt
  rawinEnded : Bool

inductive QueueEvent (π : Type)
  | rawin (pkt : π)
  | netinWait
  | netinTake

/-- What a step did, with the slot it wrote or read. -/
inductive QueueResult (π : Type)
  | stored (slot : Fin ifQueueSize)
  | dropped
  | waited
  | took (slot : Fin ifQueueSize) (pkt : π)

/-- The queue as `net_init` leaves it, `slots` being what is in the memory of `if_queue`. -/
def IfEntry.init {π : Type} (slots : Vector π ifQueueSize) : IfEntry π where
  scount := 0
  ifQueue := ⟨slots, 0, 0⟩
  netin := .loopTop
  rawinEnded := false

section Steps

variable {π : Type} (iface : Nat) (s : IfEntry π)

/-- `signal`: only `netin` waits on the semaphore. -/
def signal : IfEntry π :=
  { s with
    scount := s.scount + 1
    netin := if s.scount < 0 then .returned else s.netin }

def wait : IfEntry π :=
  { s with
    scount := s.scount - 1
    netin := if s.scount - 1 < 0 then .blocked else .returned }

/-- One packet of `rawin` for the interface.  The overflow of the Ethernet queue ends the
process: its `break` leaves the endless loop. -/
def rawin (pkt : π) : QueueResult π × IfEntry π :=
  if s.scount ≥ ifQueueSize then
    (.dropped, { s with rawinEnded := decide (iface = 0) })
  else
    (.stored s.ifQueue.tail, signal { s with ifQueue := s.ifQueue.push pkt })

/-- The statements of `netin` behind its `wait`. -/
def netinTake : QueueResult π × IfEntry π :=
  (.took s.ifQueue.head s.ifQueue.front,
    { s with ifQueue := s.ifQueue.pop, netin := .loopTop })

/-- A step of either process, where the process can take it. -/
def queueStep : QueueEvent π → Except Unit (QueueResult π × IfEntry π)
  | .rawin pkt => if s.rawinEnded then .error () else .ok (rawin iface s pkt)
  | .netinWait => if s.netin = .loopTop then .ok (.waited, wait s) else .error ()
  | .netinTake => if s.netin = .returned then .ok (netinTake s) else .error ()

end Steps

/-! ## Histories -/

section Histories

variable {π : Type}

def QueueEvent.isNetin : QueueEvent π → Bool
  | .rawin _ => false
  | .netinWait => true
  | .netinTake => true

/-- What a step stored, and where. -/
def storedBy : QueueEvent π × QueueResult π → Option (Fin ifQueueSize × π)
  | (.rawin pkt, .stored slot) => some (slot, pkt)
  | _ => none

/-- What a step took, and from where. -/
def takenBy : QueueEvent π × QueueResult π → Option (Fin ifQueueSize × π)
  | (_, .took slot pkt) => some (slot, pkt)
  | _ => none

def stored (tr : List (QueueEvent π × QueueResult π)) : List (Fin ifQueueSize × π) :=
  tr.filterMap storedBy

def taken (tr : List (QueueEvent π × QueueResult π)) : List (Fin ifQueueSize × π) :=
  tr.filterMap takenBy

/-- The packets stored and not taken, when they are taken in the order of arrival. -/
def untaken (tr : List (QueueEvent π × QueueResult π)) : List (Fin ifQueueSize × π) :=
  (stored tr).drop (taken tr).length

/-- The promise of the queue after the history `tr`: what was taken is what was stored
first, in the same order; each packet not yet taken has a slot of its own and is in it;
`netin` alone takes all the rest. -/
structure Delivers (iface : Nat) (tr : List (QueueEvent π × QueueResult π)) (s : IfEntry π) :
    Prop where
  inOrder : taken tr <+: stored tr
  apart : ((untaken tr).map Prod.fst).Nodup
  intact : ∀ c ∈ untaken tr, s.ifQueue.slots.get c.1 = c.2
  drains : ∃ tr' s', Run (queueStep iface) s tr' s' ∧ (∀ eo ∈ tr', eo.1.isNetin = true) ∧
    taken (tr ++ tr') = stored tr

/-- `rawin` gets no packet while the count misses the one that `netin` is about to take
out of a full ring. -/
def RoomAtStore (s : IfEntry π) : QueueEvent π → Prop
  | .rawin _ => ¬ (s.scount = ifQueueSize - 1 ∧ s.netin = .returned)
  | _ => True

end Histories

/-! ## Steps of the history -/

section Invariant

variable {π : Type} {iface : Nat} {s s' : IfEntry π}
  {tr : List (QueueEvent π × QueueResult π)} {e : QueueEvent π} {o : QueueResult π}

theorem stored_concat (tr : List (QueueEvent π × QueueResult π))
    (eo : QueueEvent π × QueueResult π) :
    stored (tr ++ [eo]) = stored tr ++ (storedBy eo).toList := by
  unfold stored
  rw [List.filterMap_append]
  cases h : storedBy eo with
  | none => simp [h]
  | some c => simp [h]

theorem taken_concat (tr : List (QueueEvent π × QueueResult π))
    (eo : QueueEvent π × QueueResult π) :
    taken (tr ++ [eo]) = taken tr ++ (takenBy eo).toList := by
  unfold taken
  rw [List.filterMap_append]
  cases h : takenBy eo with
  | none => simp [h]
  | some c => simp [h]

theorem untaken_eq {un : List (Fin ifQueueSize × π)} (h : stored tr = taken tr ++ un) :
    untaken tr = un := by
  unfold untaken
  rw [h, List.drop_left]

/-- A step keeps the history in line with what the ring holds if it adds to `un` what it
stored and takes from it what it took. -/
theorem stored_eq_concat {un un' : List (Fin ifQueueSize × π)}
    {eo : QueueEvent π × QueueResult π} (h : stored tr = taken tr ++ un)
    (hun : un ++ (storedBy eo).toList = (takenBy eo).toList ++ un') :
    stored (tr ++ [eo]) = taken (tr ++ [eo]) ++ un' := by
  rw [stored_concat, taken_concat, h, List.append_assoc, hun, List.append_assoc]

/-- What either process can do. -/
theorem queueStep_cases (h : queueStep iface s e = .ok (o, s')) :
    (∃ pkt, e = .rawin pkt ∧ s.scount ≥ ifQueueSize ∧ o = .dropped ∧
      s' = { s with rawinEnded := decide (iface = 0) }) ∨
    (∃ pkt, e = .rawin pkt ∧ s.scount < ifQueueSize ∧ o = .stored s.ifQueue.tail ∧
      s' = signal { s with ifQueue := s.ifQueue.push pkt }) ∨
    (e = .netinWait ∧ s.netin = .loopTop ∧ o = .waited ∧ s' = wait s) ∨
    (e = .netinTake ∧ s.netin = .returned ∧ o = .took s.ifQueue.head s.ifQueue.front ∧
      s' = { s with ifQueue := s.ifQueue.pop, netin := .loopTop }) := by
  cases e with
  | rawin pkt =>
    rw [queueStep] at h
    split at h
    · cases h
    · rw [rawin] at h
      split at h
      · rename_i hfull
        cases h
        exact Or.inl ⟨pkt, rfl, hfull, rfl, rfl⟩
      · rename_i hroom
        cases h
        exact Or.inr (Or.inl ⟨pkt, rfl, Int.lt_of_not_ge hroom, rfl, rfl⟩)
  | netinWait =>
    rw [queueStep] at h
    split at h
    · rename_i hat
      cases h
      exact Or.inr (Or.inr (Or.inl ⟨rfl, hat, rfl, rfl⟩))
    · cases h
  | netinTake =>
    rw [queueStep] at h
    split at h
    · rename_i hat
      cases h
      exact Or.inr (Or.inr (Or.inr ⟨rfl, hat, rfl, rfl⟩))
    · cases h

/-- Whether the count misses one packet: the one `netin` waits for or is about to take. -/
def NetinAt.awaits : NetinAt → Int
  | .loopTop => 0
  | .blocked => 1
  | .returned => 1

/-- After the history `tr`, `un` is what the ring holds. -/
structure QueueHolds (tr : List (QueueEvent π × QueueResult π)) (s : IfEntry π)
    (un : List (Fin ifQueueSize × π)) : Prop where
  stored_eq : stored tr = taken tr ++ un
  holds : s.ifQueue.Holds un
  scount_eq : s.scount = un.length - s.netin.awaits
  blocked : s.netin = .blocked → un = []
  returned : s.netin = .returned → un ≠ []

variable {un : List (Fin ifQueueSize × π)}

theorem QueueHolds.scount_of_blocked (h : QueueHolds tr s un) (hb : s.netin = .blocked) :
    s.scount = -1 := by
  rw [h.scount_eq, hb, h.blocked hb]
  rfl

theorem QueueHolds.scount_of_loopTop (h : QueueHolds tr s un) (hat : s.netin = .loopTop) :
    s.scount = un.length := by
  rw [h.scount_eq, hat]
  exact Int.sub_zero _

theorem QueueHolds.scount_of_returned (h : QueueHolds tr s un) (hat : s.netin = .returned) :
    s.scount = un.length - 1 := by
  rw [h.scount_eq, hat]
  rfl

theorem queueHolds_init (slots : Vector π ifQueueSize) :
    QueueHolds [] (IfEntry.init slots) [] where
  stored_eq := rfl
  holds := RingBuffer.Holds.nil rfl
  scount_eq := rfl
  blocked _ := rfl
  returned h := by cases h

/-- A packet that finds room in the ring. -/
theorem QueueHolds.store (h : QueueHolds tr s un) (hroom : un.length < ifQueueSize) (pkt : π) :
    QueueHolds (tr ++ [(.rawin pkt, .stored s.ifQueue.tail)])
      (signal { s with ifQueue := s.ifQueue.push pkt }) (un ++ [(s.ifQueue.tail, pkt)]) where
  stored_eq := stored_eq_concat h.stored_eq rfl
  holds := h.holds.push hroom pkt
  scount_eq := by
    show s.scount + 1 = ((un ++ [(s.ifQueue.tail, pkt)]).length : Int) -
      (if s.scount < 0 then NetinAt.returned else s.netin).awaits
    rw [List.length_append, List.length_singleton]
    cases hat : s.netin with
    | loopTop =>
      have hcount := h.scount_of_loopTop hat
      rw [if_neg (by omega), show NetinAt.loopTop.awaits = 0 from rfl]
      omega
    | blocked =>
      rw [h.scount_of_blocked hat, h.blocked hat]
      rfl
    | returned =>
      have hcount := h.scount_of_returned hat
      have hpos := List.length_pos_iff.mpr (h.returned hat)
      rw [if_neg (by omega), show NetinAt.returned.awaits = 1 from rfl]
      omega
  blocked hb := by
    have hb' : (if s.scount < 0 then NetinAt.returned else s.netin) = .blocked := hb
    split at hb'
    · cases hb'
    · rename_i hneg
      have hcount := h.scount_of_blocked hb'
      omega
  returned _ := List.append_ne_nil_of_right_ne_nil un (List.cons_ne_nil _ _)

theorem QueueHolds.drop (h : QueueHolds tr s un) (pkt : π) (ended : Bool) :
    QueueHolds (tr ++ [(.rawin pkt, .dropped)]) { s with rawinEnded := ended } un where
  stored_eq := stored_eq_concat h.stored_eq (List.append_nil un)
  holds := h.holds
  scount_eq := h.scount_eq
  blocked := h.blocked
  returned := h.returned

theorem QueueHolds.wait (h : QueueHolds tr s un) (hat : s.netin = .loopTop) :
    QueueHolds (tr ++ [(.netinWait, .waited)]) (wait s) un := by
  have hcount := h.scount_of_loopTop hat
  constructor
  · exact stored_eq_concat h.stored_eq (List.append_nil un)
  · exact h.holds
  · show s.scount - 1 = un.length - (if s.scount - 1 < 0 then NetinAt.blocked else .returned).awaits
    split
    · show s.scount - 1 = un.length - 1
      omega
    · show s.scount - 1 = un.length - 1
      omega
  · intro hb
    have hb' : (if s.scount - 1 < 0 then NetinAt.blocked else .returned) = .blocked := hb
    split at hb'
    · apply List.eq_nil_of_length_eq_zero
      omega
    · cases hb'
  · intro hr
    have hr' : (if s.scount - 1 < 0 then NetinAt.blocked else .returned) = .returned := hr
    split at hr'
    · cases hr'
    · apply List.ne_nil_of_length_pos
      omega

/-- What `netin` takes is the oldest packet of the ring. -/
theorem QueueHolds.take {c : Fin ifQueueSize × π} (h : QueueHolds tr s (c :: un))
    (hat : s.netin = .returned) :
    QueueHolds (tr ++ [(.netinTake, .took s.ifQueue.head s.ifQueue.front)])
      { s with ifQueue := s.ifQueue.pop, netin := .loopTop } un where
  stored_eq := by
    apply stored_eq_concat h.stored_eq
    show c :: un ++ [] = [(s.ifQueue.head, s.ifQueue.front)] ++ un
    rw [h.holds.head_eq, List.append_nil]
    rfl
  holds := h.holds.pop
  scount_eq := by
    have hcount := h.scount_of_returned hat
    rw [List.length_cons] at hcount
    show s.scount = un.length - 0
    omega
  blocked hb := by cases hb
  returned hr := by cases hr

/-- Every step with room for what it stores keeps the ring in step with the history. -/
theorem QueueHolds.step (h : QueueHolds tr s un) (hs : queueStep iface s e = .ok (o, s'))
    (hroom : RoomAtStore s e) : ∃ un', QueueHolds (tr ++ [(e, o)]) s' un' := by
  rcases queueStep_cases hs with ⟨pkt, rfl, -, rfl, rfl⟩ | ⟨pkt, rfl, hlt, rfl, rfl⟩ |
    ⟨rfl, hat, rfl, rfl⟩ | ⟨rfl, hat, rfl, rfl⟩
  · exact ⟨un, h.drop pkt _⟩
  · have hlen : un.length < ifQueueSize := by
      cases hat : s.netin with
      | loopTop =>
        have hcount := h.scount_of_loopTop hat
        omega
      | blocked =>
        rw [h.blocked hat]
        exact Nat.zero_lt_succ 19
      | returned =>
        have hcount := h.scount_of_returned hat
        have hne : s.scount ≠ ifQueueSize - 1 := fun heq => hroom ⟨heq, hat⟩
        omega
    exact ⟨_, h.store hlen pkt⟩
  · exact ⟨un, h.wait hat⟩
  · cases un with
    | nil => exact absurd rfl (h.returned hat)
    | cons c un => exact ⟨un, h.take hat⟩

/-- `netin` on its own empties the ring. -/
theorem QueueHolds.drains (h : QueueHolds tr s un) :
    ∃ tr' s', Run (queueStep iface) s tr' s' ∧ (∀ eo ∈ tr', eo.1.isNetin = true) ∧
      taken (tr ++ tr') = stored tr := by
  induction un generalizing tr s with
  | nil =>
    refine ⟨[], s, Run.start, fun eo heo => (List.not_mem_nil heo).elim, ?_⟩
    rw [List.append_nil, h.stored_eq, List.append_nil]
  | cons c un ih =>
    -- from the return of `wait` on: one packet, then the rest
    have htake : ∀ (tr : List (QueueEvent π × QueueResult π)) (s : IfEntry π),
        QueueHolds tr s (c :: un) → s.netin = .returned →
        ∃ tr' s', Run (queueStep iface) s tr' s' ∧ (∀ eo ∈ tr', eo.1.isNetin = true) ∧
          taken (tr ++ tr') = stored tr := by
      intro tr s h hat
      obtain ⟨tr', s', hrun, hnetin, htaken⟩ := ih (h.take hat)
      have hstep : queueStep iface s .netinTake = .ok (netinTake s) := if_pos hat
      refine ⟨_, s', Run.cons hstep hrun, List.forall_mem_cons.mpr ⟨rfl, hnetin⟩, ?_⟩
      rw [List.append_assoc, stored_concat] at htaken
      exact htaken.trans (List.append_nil _)
    cases hat : s.netin with
    | returned => exact htake tr s h hat
    | blocked => exact absurd (h.blocked hat) (List.cons_ne_nil c un)
    | loopTop =>
      have hcount := h.scount_of_loopTop hat
      rw [List.length_cons] at hcount
      have hstep : queueStep iface s .netinWait = .ok (.waited, NatBox.wait s) := if_pos hat
      have hret : (NatBox.wait s).netin = .returned := if_neg (by omega)
      obtain ⟨tr', s', hrun, hnetin, htaken⟩ := htake _ _ (h.wait hat) hret
      refine ⟨_, s', Run.cons hstep hrun, List.forall_mem_cons.mpr ⟨rfl, hnetin⟩, ?_⟩
      rw [List.append_assoc, stored_concat] at htaken
      exact htaken.trans (List.append_nil _)

theorem QueueHolds.delivers (h : QueueHolds tr s un) : Delivers iface tr s where
  inOrder := by
    rw [h.stored_eq]
    exact List.prefix_append _ _
  apart := by
    rw [untaken_eq h.stored_eq]
    exact h.holds.nodup
  intact := by
    rw [untaken_eq h.stored_eq]
    exact h.holds.content
  drains := h.drains

/-- A packet stored into the full ring goes to the slot of the oldest packet in it. -/
theorem QueueHolds.not_delivers (h : QueueHolds tr s un)
    (hs : queueStep iface s e = .ok (o, s')) (hbad : ¬ RoomAtStore s e) :
    ¬ Delivers iface (tr ++ [(e, o)]) s' := by
  cases e with
  | netinWait => exact absurd trivial hbad
  | netinTake => exact absurd trivial hbad
  | rawin pkt =>
    unfold RoomAtStore at hbad
    rw [not_not] at hbad
    have hcount := h.scount_of_returned hbad.2
    rw [hbad.1] at hcount
    have hlen : un.length = ifQueueSize := by omega
    rcases queueStep_cases hs with ⟨_, -, hfull, -, -⟩ | ⟨_, -, -, rfl, -⟩ | ⟨he, -⟩ | ⟨he, -⟩
    · rw [hbad.1] at hfull
      exact absurd hfull (by decide)
    · have hstored : stored (tr ++ [(.rawin pkt, .stored s.ifQueue.tail)]) =
          taken (tr ++ [(.rawin pkt, .stored s.ifQueue.tail)]) ++
            (un ++ [(s.ifQueue.tail, pkt)]) := stored_eq_concat h.stored_eq rfl
      intro hd
      have hapart := hd.apart
      rw [untaken_eq hstored, List.map_append, List.map_singleton] at hapart
      cases un with
      | nil => exact absurd rfl (h.returned hbad.2)
      | cons c un =>
        rw [h.holds.tail_eq hlen, List.map_cons, List.cons_append, List.nodup_cons] at hapart
        apply hapart.1
        rw [List.mem_append, List.mem_singleton]
        exact Or.inr rfl
    · cases he
    · cases he

end Invariant

/-- A run keeps its promise in every state exactly when `rawin` never stores a packet
while the count misses the one `netin` is about to take out of a full ring. -/
theorem delivers_iff {π : Type} (iface : Nat) (slots : Vector π ifQueueSize)
    {tr : List (QueueEvent π × QueueResult π)} {s : IfEntry π}
    (hrun : Run (queueStep iface) (IfEntry.init slots) tr s) :
    AllStates (queueStep iface) (IfEntry.init slots) (Delivers iface) tr ↔
      AllSteps (queueStep iface) (IfEntry.init slots) (fun s e _ => RoomAtStore s e) tr := by
  apply allStates_iff_allSteps (I := fun tr s => ∃ un, QueueHolds tr s un)
    ⟨[], queueHolds_init slots⟩ ?_ ?_ ?_ hrun
  · intro tr s e o s' h hs hroom
    cases h with
    | intro un h => exact h.step hs hroom
  · intro tr s h
    cases h with
    | intro un h => exact h.delivers
  · intro tr s e o s' h hs hbad
    cases h with
    | intro un h => exact h.not_delivers hs hbad

/-- `netin` waits for the first packet; then the ring gets full and one packet is dropped, all
others are taken, and one more is stored. -/
def fullQueue : List (QueueEvent Nat) :=
  .netinWait :: .rawin 100 :: .netinTake :: (List.range 21).map .rawin ++
    (List.range 20).flatMap (fun _ => [.netinWait, .netinTake]) ++ [.rawin 21]

theorem delivers_full_queue : ∃ os s,
    Run (queueStep 1) (IfEntry.init (Vector.replicate _ 0)) (fullQueue.zip os) s ∧
    (taken (fullQueue.zip os)).map Prod.snd = 100 :: List.range 20 ∧
    AllStates (queueStep 1) (IfEntry.init (Vector.replicate _ 0)) (Delivers 1)
      (fullQueue.zip os) := by
  obtain ⟨os, s, hrun, hevents, hcheck⟩ := run_of_endsIn (show endsIn (queueStep 1)
    (IfEntry.init (Vector.replicate _ 0)) fullQueue (fun os _ =>
      (taken (fullQueue.zip os)).map Prod.snd = 100 :: List.range 20) = true by decide +kernel)
  have hpass : stepsPass (queueStep 1) (fun s e => e.isNetin || s.scount != ifQueueSize - 1 ||
      s.netin != .returned) (IfEntry.init (Vector.replicate _ 0))
      ((fullQueue.zip os).map Prod.fst) = true := by
    rw [hevents]
    decide +kernel
  refine ⟨os, s, hrun, of_decide_eq_true hcheck,
    (delivers_iff 1 _ hrun).mpr (allSteps_of_stepsPass hpass fun s e hroom => ?_)⟩
  cases e with
  | rawin pkt =>
    rintro ⟨hcount, hreturned⟩
    simp [hcount, hreturned, QueueEvent.isNetin] at hroom
  | netinWait => trivial
  | netinTake => trivial

/-- `netin` has returned from `wait` and not yet taken its packet while twenty more
arrive. -/
def lateTake : List (QueueEvent Nat) :=
  .rawin 0 :: .netinWait :: (List.range 20).map fun i => .rawin (i + 1)

theorem delivers_fails_late_take :
    ∃ os s, Run (queueStep 1) (IfEntry.init (Vector.replicate _ 0)) (lateTake.zip os) s ∧
      ¬ Delivers 1 (lateTake.zip os) s := by
  have hend : (match exec (queueStep 1) (IfEntry.init (Vector.replicate _ 0)) lateTake with
      | .error _ => false
      | .ok (os, _) => !decide ((untaken (lateTake.zip os)).map Prod.fst).Nodup) = true := by
    decide +kernel
  rcases hx : exec (queueStep 1) (IfEntry.init (Vector.replicate _ 0)) lateTake with f | ⟨os, s⟩
  · simp [hx] at hend
  · simp only [hx, Bool.not_eq_true', decide_eq_false_iff_not] at hend
    exact ⟨os, s, (run_of_exec hx).2, fun h => hend h.apart⟩

end NatBox
