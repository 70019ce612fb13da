import Mathlib.Data.List.Basic

/-
A counting semaphore with the processes that wait on it, first come first served.

A signal hands over the process that has waited longest.  It is ready then, and takes what it
was signalled for when it next runs; `permits` is what may be taken without waiting.
-/

structure Semaphore (π : Type) where
  count : Int
  waiting : List π
  length_waiting : waiting.length = (-count).toNat

namespace Semaphore

variable {π : Type}

/-- A new semaphore. -/
def create (count : Nat) : Semaphore π where
  count := count
  waiting := []
  length_waiting := by
    show 0 = (-(count : Int)).toNat
    omega

/-- `wait` by a process, which goes on at once if the count was positive. -/
def wait (s : Semaphore π) (p : π) : Semaphore π where
  count := s.count - 1
  waiting := if 0 < s.count then s.waiting else s.waiting ++ [p]
  length_waiting := by
    have h := s.length_waiting
    split
    · omega
    · rw [List.length_append, List.length_singleton]
      omega

/-- `signal`, with the process that is made ready. -/
def signal (s : Semaphore π) : Semaphore π × List π :=
  ({ count := s.count + 1
     waiting := if s.count < 0 then s.waiting.tail else s.waiting
     length_waiting := by
      have h := s.length_waiting
      split
      · rw [List.length_tail]
        omega
      · omega },
    if s.count < 0 then s.waiting.head?.toList else [])

def signaln : Semaphore π → Nat → Semaphore π × List π
  | s, 0 => (s, [])
  | s, k + 1 => ((signaln s.signal.1 k).1, s.signal.2 ++ (signaln s.signal.1 k).2)

/-- A new count for the semaphore; all who wait are made ready. -/
def reset (s : Semaphore π) (count : Nat) : Semaphore π × List π := (create count, s.waiting)

def permits (s : Semaphore π) : Nat := s.count.toNat

variable {s : Semaphore π} {p : π}

theorem permits_wait_of_pos (h : 0 < s.count) : (s.wait p).permits + 1 = s.permits := by
  show (s.count - 1).toNat + 1 = s.count.toNat
  omega

theorem permits_wait_of_not_pos (h : ¬ 0 < s.count) : (s.wait p).permits = s.permits := by
  show (s.count - 1).toNat = s.count.toNat
  omega

theorem waiting_wait_of_pos (h : 0 < s.count) : (s.wait p).waiting = s.waiting := if_pos h

theorem waiting_wait_of_not_pos (h : ¬ 0 < s.count) : (s.wait p).waiting = s.waiting ++ [p] :=
  if_neg h

/-- A signal is a permit more, or a process that is made ready. -/
theorem permits_signal (s : Semaphore π) :
    s.signal.1.permits + s.signal.2.length = s.permits + 1 := by
  have hlen := s.length_waiting
  unfold permits signal
  dsimp only
  split
  · -- the count is negative, so somebody waits
    obtain ⟨p, rest, hwait⟩ : ∃ p rest, s.waiting = p :: rest :=
      List.exists_cons_of_length_pos (by omega)
    rw [hwait, List.head?_cons, Option.toList_some, List.length_singleton]
    omega
  · rw [List.length_nil]
    omega

/-- Who is made ready has waited longest. -/
theorem signal_append_waiting (s : Semaphore π) : s.signal.2 ++ s.signal.1.waiting = s.waiting := by
  unfold signal
  dsimp only
  split
  · cases s.waiting with
    | nil => rfl
    | cons p rest => rfl
  · rfl

theorem permits_signaln (s : Semaphore π) (k : Nat) :
    (s.signaln k).1.permits + (s.signaln k).2.length = s.permits + k := by
  induction k generalizing s with
  | zero => rfl
  | succ k ih =>
    have hone := permits_signal s
    have hrest := ih s.signal.1
    rw [signaln]
    dsimp only
    rw [List.length_append]
    omega

theorem signaln_append_waiting (s : Semaphore π) (k : Nat) :
    (s.signaln k).2 ++ (s.signaln k).1.waiting = s.waiting := by
  induction k generalizing s with
  | zero => rfl
  | succ k ih =>
    rw [signaln]
    dsimp only
    rw [List.append_assoc, ih, s.signal_append_waiting]

end Semaphore
