import Mathlib.Data.List.Perm.Basic
import NatBox.Device.TtyInput
import NatBox.Lib.RingBuffer
import NatBox.Lib.Semaphore

/-
Console output: `ttywrite`, `ttyputc` and `ttyhandle_out`, and the echo of `ttyhandle_in`.

Processes put characters into one ring and `eputc` puts the echo into another; an interrupt
sends what fits into the FIFO of the UART, the echo first.  It reckons what the output ring
holds from the count of `tyosem`, and so counts the character of a process that it has woken
and that has not run since; `eputc` does not look whether there is room.
`console_output_iff` says when neither does harm, and `console_writers` what the UART then gets
from each process.

A process that waits is in the queue of the semaphore or woken; the interrupt handler that
takes a character is in `TtyInput`.
-/

namespace NatBox

open Runs

abbrev tyObufLen : Nat := 64

abbrev tyEbufLen : Nat := 20

abbrev uartFifoSize : Nat := 16

/-- A process in `ttyputc`, with the character that it waits to put and those behind it. -/
structure Writer where
  pid : Nat
  ch : UInt8
  ahead : List UInt8
  deriving DecidableEq

/-- The output side of `struct ttycblk`. -/
structure TtyOutput where
  tyobuff : RingBuffer tyObufLen UInt8
  tyosem : Semaphore Writer
  /-- The processes that a signal has made ready and that have not run since. -/
  woken : List Writer
  tyebuff : RingBuffer tyEbufLen UInt8
  tyoheld : Bool
  /-- `UART_IER_ETBEI` is set in the register of the UART. -/
  etbei : Bool

inductive OutputEvent
  /-- A process calls `ttywrite`. -/
  | write (pid : Nat) (buff : List UInt8)
  /-- A woken process goes on. -/
  | resume (i : Nat)
  | eputc (ch : UInt8)
  /-- The UART can take characters. -/
  | interrupt
  /-- The branches of `ttyhandle_in` for the stop character, the start character and any
  other. -/
  | stop
  | start
  | other

inductive OutputResult
  | put (pid : Nat) (chars : List UInt8)
  | echoed (ch : UInt8)
  | sent (echo output : List UInt8)
  | quiet

namespace TtyOutput

/-- `ttyinit` -/
def init (tyobuff : RingBuffer tyObufLen UInt8) (tyebuff : RingBuffer tyEbufLen UInt8) :
    TtyOutput where
  tyobuff := { tyobuff with head := ⟨0, Nat.succ_pos _⟩, tail := ⟨0, Nat.succ_pos _⟩ }
  tyosem := Semaphore.create tyObufLen
  woken := []
  tyebuff := { tyebuff with head := ⟨0, Nat.succ_pos _⟩, tail := ⟨0, Nat.succ_pos _⟩ }
  tyoheld := false
  etbei := true

/-- `ttyputc` behind its `wait`. -/
def putChar (s : TtyOutput) (ch : UInt8) : TtyOutput :=
  { s with tyobuff := s.tyobuff.push ch, etbei := true }

/-- One `ttyputc` after the other, until the process has to wait; with the characters put. -/
def ttyputs (pid : Nat) : List UInt8 → TtyOutput → List UInt8 × TtyOutput
  | [], s => ([], s)
  | ch :: ahead, s =>
    let tyosem := s.tyosem.wait ⟨pid, ch, ahead⟩
    if 0 < s.tyosem.count then
      let (put, s) := ttyputs pid ahead ({ s with tyosem }.putChar ch)
      (ch :: put, s)
    else ([], { s with tyosem })

/-- The characters that `ttyputc` puts for one. -/
def crlf (tyocrlf : Bool) (ch : UInt8) : List UInt8 :=
  if ch = tyNewline ∧ tyocrlf then [tyReturn, ch] else [ch]

def ttywrite (tyocrlf : Bool) (pid : Nat) (buff : List UInt8) (s : TtyOutput) :
    List UInt8 × TtyOutput := ttyputs pid (buff.flatMap (crlf tyocrlf)) s

/-- The loop over the echo queue, with room for `uspace` characters. -/
def sendEcho : Nat → RingBuffer tyEbufLen UInt8 → List UInt8 × RingBuffer tyEbufLen UInt8
  | 0, r => ([], r)
  | uspace + 1, r =>
    if r.head ≠ r.tail then
      let (sent, r') := sendEcho uspace r.pop
      (r.front :: sent, r')
    else ([], r)

/-- The loop over the output queue, which it does `ochars` times. -/
def sendOutput : Nat → RingBuffer tyObufLen UInt8 → List UInt8 × RingBuffer tyObufLen UInt8
  | 0, r => ([], r)
  | ochars + 1, r =>
    let (sent, r') := sendOutput ochars r.pop
    (r.front :: sent, r')

def ttyhandleOut (s : TtyOutput) : OutputResult × TtyOutput :=
  if s.tyoheld then (.quiet, s)
  else if s.tyebuff.head = s.tyebuff.tail ∧ (tyObufLen : Int) ≤ s.tyosem.count then
    (.quiet, { s with etbei := false })
  else
    let (echo, tyebuff) := sendEcho uartFifoSize s.tyebuff
    let avail := (tyObufLen - s.tyosem.count).toNat
    let ochars := min (uartFifoSize - echo.length) avail
    let (output, tyobuff) := sendOutput ochars s.tyobuff
    let (tyosem, ready) := s.tyosem.signaln ochars
    (.sent echo output, { s with tyobuff, tyosem, tyebuff, woken := s.woken ++ ready })

/-- The processes that are in `ttyputc`. -/
def writers (s : TtyOutput) : List Writer := s.tyosem.waiting ++ s.woken

end TtyOutput

open TtyOutput in
/-- A step.  A process that is in `ttyputc` makes no other call, and the UART interrupts only
if it has been told to. -/
def outputStep (tyocrlf : Bool) (s : TtyOutput) :
    OutputEvent → Except Unit (OutputResult × TtyOutput)
  | .write pid buff =>
    if pid ∈ s.writers.map Writer.pid then .error ()
    else
      let (put, s) := ttywrite tyocrlf pid buff s
      .ok (.put pid put, s)
  | .resume i =>
    match s.woken[i]? with
    | none => .error ()
    | some w =>
      let (put, s) := ttyputs w.pid w.ahead ({ s with woken := s.woken.eraseIdx i }.putChar w.ch)
      .ok (.put w.pid (w.ch :: put), s)
  | .eputc ch => .ok (.echoed ch, { s with tyebuff := s.tyebuff.push ch, etbei := true })
  | .interrupt => if s.etbei then .ok s.ttyhandleOut else .error ()
  | .stop => .ok (.quiet, { s with tyoheld := true })
  | .start => .ok (.quiet, { s with tyoheld := false, etbei := true })
  | .other => .ok (.quiet, { s with tyoheld := false })

/-! ## What is put and what is sent -/

def putBy : OutputEvent × OutputResult → List (Nat × UInt8)
  | (_, .put pid chars) => chars.map (pid, ·)
  | _ => []

def echoBy : OutputEvent × OutputResult → List UInt8
  | (_, .echoed ch) => [ch]
  | _ => []

def sentBy : OutputEvent × OutputResult → List UInt8
  | (_, .sent _ output) => output
  | _ => []

def sentEchoBy : OutputEvent × OutputResult → List UInt8
  | (_, .sent echo _) => echo
  | _ => []

def writtenBy (tyocrlf : Bool) (pid : Nat) : OutputEvent × OutputResult → List UInt8
  | (.write p buff, _) => if p = pid then buff.flatMap (TtyOutput.crlf tyocrlf) else []
  | _ => []

/-- The characters of the processes in the order in which they went into the ring. -/
def putChars (tr : List (OutputEvent × OutputResult)) : List (Nat × UInt8) := tr.flatMap putBy

def echoChars (tr : List (OutputEvent × OutputResult)) : List UInt8 := tr.flatMap echoBy

/-- What the UART got from the output ring, and from that of the echo. -/
def sentChars (tr : List (OutputEvent × OutputResult)) : List UInt8 := tr.flatMap sentBy

def sentEcho (tr : List (OutputEvent × OutputResult)) : List UInt8 := tr.flatMap sentEchoBy

/-- What a process has passed to `ttywrite`, with its returns. -/
def written (tyocrlf : Bool) (tr : List (OutputEvent × OutputResult)) (pid : Nat) : List UInt8 :=
  tr.flatMap (writtenBy tyocrlf pid)

/-- The promise of console output after the history `tr`: what was sent is what was put first, in
the same order, and the rest is in the rings, of which that of the echo is not taken for an
empty one. -/
structure OutputIntact (tr : List (OutputEvent × OutputResult)) (s : TtyOutput) : Prop where
  output : ∃ cs, s.tyobuff.Holds cs ∧
    (putChars tr).map Prod.snd = sentChars tr ++ cs.map Prod.snd
  echo : ∃ es, s.tyebuff.Holds es ∧ echoChars tr = sentEcho tr ++ es.map Prod.snd ∧
    (s.tyebuff.head = s.tyebuff.tail ↔ es = [])

namespace TtyOutput

/-- The number of characters in the output ring: each of its slots is free, or promised to a
woken process, or taken. -/
def buffered (s : TtyOutput) : Nat := tyObufLen - s.tyosem.permits - s.woken.length

/-- The number of characters in the echo ring. -/
def echoing (s : TtyOutput) : Nat := (s.tyebuff.tail + tyEbufLen - s.tyebuff.head) % tyEbufLen

/-- The number of characters that an interrupt takes from the output ring. -/
def toSend (s : TtyOutput) : Nat :=
  min (uartFifoSize - min uartFifoSize s.echoing) (tyObufLen - s.tyosem.count).toNat

end TtyOutput

/-- An interrupt takes no more than there is, and the echo leaves a slot of its ring free. -/
def SafeOutput (s : TtyOutput) : OutputEvent → Prop
  | .interrupt => s.tyoheld = false → s.toSend ≤ s.buffered
  | .eputc _ => s.echoing + 1 < tyEbufLen
  | _ => True

/-! ## The rings -/

namespace TtyOutput

theorem sendOutput_eq {r : RingBuffer tyObufLen UInt8} {cs : List (Fin tyObufLen × UInt8)}
    (h : r.Holds cs) {ochars : Nat} (hle : ochars ≤ cs.length) :
    (sendOutput ochars r).1 = (cs.take ochars).map Prod.snd ∧
      (sendOutput ochars r).2.Holds (cs.drop ochars) := by
  induction ochars generalizing r cs with
  | zero => exact ⟨rfl, h⟩
  | succ ochars ih =>
    cases cs with
    | nil => exact absurd hle (Nat.not_succ_le_zero _)
    | cons c cs =>
      obtain ⟨hsent, hholds⟩ := ih h.pop (Nat.le_of_succ_le_succ hle)
      rw [sendOutput, List.take_succ_cons, List.map_cons, List.drop_succ_cons]
      exact ⟨congrArg₂ List.cons (congrArg Prod.snd h.head_eq) hsent, hholds⟩

theorem length_sendOutput (ochars : Nat) (r : RingBuffer tyObufLen UInt8) :
    (sendOutput ochars r).1.length = ochars := by
  induction ochars generalizing r with
  | zero => rfl
  | succ ochars ih =>
    rw [sendOutput, List.length_cons, ih]

theorem sendEcho_eq {r : RingBuffer tyEbufLen UInt8} {es : List (Fin tyEbufLen × UInt8)}
    (h : r.Holds es) (hroom : es.length < tyEbufLen) (uspace : Nat) :
    (sendEcho uspace r).1 = (es.take uspace).map Prod.snd ∧
      (sendEcho uspace r).2.Holds (es.drop uspace) := by
  induction uspace generalizing r es with
  | zero => exact ⟨rfl, h⟩
  | succ uspace ih =>
    cases es with
    | nil =>
      rw [sendEcho, if_neg (not_not_intro ((h.head_eq_tail_iff hroom).mpr rfl))]
      exact ⟨rfl, h⟩
    | cons e es =>
      obtain ⟨hsent, hholds⟩ := ih h.pop (Nat.lt_of_succ_lt hroom)
      rw [sendEcho, if_pos (fun heq => by cases (h.head_eq_tail_iff hroom).mp heq),
        List.take_succ_cons, List.map_cons, List.drop_succ_cons]
      exact ⟨congrArg₂ List.cons (congrArg Prod.snd h.head_eq) hsent, hholds⟩

theorem echoing_eq {s : TtyOutput} {es : List (Fin tyEbufLen × UInt8)} (h : s.tyebuff.Holds es)
    (hroom : es.length < tyEbufLen) : s.echoing = es.length := by
  have hhead := s.tyebuff.head.isLt
  have htail := h.tail_val
  unfold echoing
  unfold tyEbufLen at *
  omega

/-- The output ring holds `cs`, and each of its other slots is free or promised. -/
structure OutputRing (s : TtyOutput) (cs : List (Fin tyObufLen × UInt8)) : Prop where
  holds : s.tyobuff.Holds cs
  balance : cs.length + s.woken.length + s.tyosem.permits = tyObufLen

variable {s : TtyOutput} {cs : List (Fin tyObufLen × UInt8)} {pid : Nat} {ch : UInt8}

theorem OutputRing.buffered_eq (h : s.OutputRing cs) : s.buffered = cs.length := by
  have := h.balance
  unfold buffered
  omega

theorem OutputRing.init (tyobuff : RingBuffer tyObufLen UInt8)
    (tyebuff : RingBuffer tyEbufLen UInt8) : (init tyobuff tyebuff).OutputRing [] :=
  ⟨RingBuffer.Holds.nil rfl, rfl⟩

/-- What a call of `ttyputs` leaves: the process has put its characters, or waits with those that
it has not put. -/
structure Puts (pid : Nat) (chars : List UInt8) (s : TtyOutput) (put : List UInt8)
    (s' : TtyOutput) : Prop where
  echo : s'.tyebuff = s.tyebuff
  woken : s'.woken = s.woken
  left : put = chars ∧ s'.tyosem.waiting = s.tyosem.waiting ∨
    ∃ w, w.pid = pid ∧ chars = put ++ w.ch :: w.ahead ∧
      s'.tyosem.waiting = s.tyosem.waiting ++ [w]

theorem ttyputs_puts (pid : Nat) (chars : List UInt8) (s : TtyOutput) :
    Puts pid chars s (ttyputs pid chars s).1 (ttyputs pid chars s).2 := by
  induction chars generalizing s with
  | nil => exact ⟨rfl, rfl, .inl ⟨rfl, rfl⟩⟩
  | cons ch ahead ih =>
    rw [ttyputs]
    by_cases hpos : 0 < s.tyosem.count
    · simp only [if_pos hpos]
      have hwaiting := Semaphore.waiting_wait_of_pos (p := ⟨pid, ch, ahead⟩) hpos
      obtain ⟨hecho, hwoken, hleft⟩ :=
        ih ({ s with tyosem := s.tyosem.wait ⟨pid, ch, ahead⟩ }.putChar ch)
      refine ⟨hecho, hwoken, ?_⟩
      rcases hleft with ⟨hall, hsame⟩ | ⟨w, hpid, hsplit, hmore⟩
      · exact .inl ⟨congrArg (ch :: ·) hall, hsame.trans hwaiting⟩
      · refine .inr ⟨w, hpid, ?_, ?_⟩
        · rw [List.cons_append, ← hsplit]
        · rw [hmore]
          exact congrArg (· ++ [w]) hwaiting
    · simp only [if_neg hpos]
      exact ⟨rfl, rfl, .inr ⟨⟨pid, ch, ahead⟩, rfl, rfl,
        Semaphore.waiting_wait_of_not_pos hpos⟩⟩

/-- The characters that are put stand behind those of the ring. -/
theorem OutputRing.ttyputs (h : s.OutputRing cs) (pid : Nat) (chars : List UInt8) :
    ∃ cs', (ttyputs pid chars s).2.OutputRing (cs ++ cs') ∧
      cs'.map Prod.snd = (ttyputs pid chars s).1 := by
  induction chars generalizing s cs with
  | nil => exact ⟨[], by rwa [List.append_nil], rfl⟩
  | cons ch ahead ih =>
    have hbalance := h.balance
    rw [TtyOutput.ttyputs]
    by_cases hpos : 0 < s.tyosem.count
    · simp only [if_pos hpos]
      have hpermits := Semaphore.permits_wait_of_pos (p := ⟨pid, ch, ahead⟩) hpos
      have hput : OutputRing
          ({ s with tyosem := s.tyosem.wait ⟨pid, ch, ahead⟩ }.putChar ch)
          (cs ++ [(s.tyobuff.tail, ch)]) :=
        ⟨h.holds.push (by omega) ch, by
          show (cs ++ [(s.tyobuff.tail, ch)]).length + s.woken.length +
            (s.tyosem.wait ⟨pid, ch, ahead⟩).permits = tyObufLen
          rw [List.length_append, List.length_singleton]
          omega⟩
      obtain ⟨cs', hring, hchars⟩ := ih hput
      refine ⟨(s.tyobuff.tail, ch) :: cs', ?_, ?_⟩
      · rwa [List.append_assoc, List.singleton_append] at hring
      · rw [List.map_cons, hchars]
    · simp only [if_neg hpos]
      refine ⟨[], ?_, rfl⟩
      rw [List.append_nil]
      refine ⟨h.holds, ?_⟩
      show cs.length + s.woken.length + (s.tyosem.wait ⟨pid, ch, ahead⟩).permits = tyObufLen
      rw [Semaphore.permits_wait_of_not_pos hpos]
      exact hbalance

end TtyOutput

/-! ## The history -/

section Histories

variable {tyocrlf : Bool} {s s' : TtyOutput} {e : OutputEvent} {o : OutputResult}
  {tr : List (OutputEvent × OutputResult)} {cs cs' : List (Fin tyObufLen × UInt8)}
  {es es' : List (Fin tyEbufLen × UInt8)}

/-- The rings hold what was put and not sent. -/
structure OutputHolds (tr : List (OutputEvent × OutputResult)) (s : TtyOutput)
    (cs : List (Fin tyObufLen × UInt8)) (es : List (Fin tyEbufLen × UInt8)) : Prop where
  ring : s.OutputRing cs
  echoRing : s.tyebuff.Holds es
  room : es.length < tyEbufLen
  put : (putChars tr).map Prod.snd = sentChars tr ++ cs.map Prod.snd
  echo : echoChars tr = sentEcho tr ++ es.map Prod.snd

theorem flatMap_concat {α β : Type} (f : α → List β) (tr : List α) (x : α) :
    (tr ++ [x]).flatMap f = tr.flatMap f ++ f x := by
  rw [List.flatMap_append, List.flatMap_singleton]

theorem map_tagged (pid : Nat) (chars : List UInt8) :
    (chars.map (pid, ·)).map Prod.snd = chars := by
  rw [List.map_map]
  exact List.map_id chars

theorem OutputHolds.intact (h : OutputHolds tr s cs es) : OutputIntact tr s where
  output := ⟨cs, h.ring.holds, h.put⟩
  echo := ⟨es, h.echoRing, h.echo, h.echoRing.head_eq_tail_iff h.room⟩

/-- One more step, which adds to the rings what it put and takes from them what it sent. -/
theorem OutputHolds.next (h : OutputHolds tr s cs es) (hring : s'.OutputRing cs')
    (hecho : s'.tyebuff.Holds es') (hroom : es'.length < tyEbufLen)
    (hput : cs.map Prod.snd ++ (putBy (e, o)).map Prod.snd = sentBy (e, o) ++ cs'.map Prod.snd)
    (heput : es.map Prod.snd ++ echoBy (e, o) = sentEchoBy (e, o) ++ es'.map Prod.snd) :
    OutputHolds (tr ++ [(e, o)]) s' cs' es' where
  ring := hring
  echoRing := hecho
  room := hroom
  put := by
    have hbefore := h.put
    unfold putChars sentChars at *
    rw [flatMap_concat, flatMap_concat, List.map_append, hbefore, List.append_assoc, hput,
      List.append_assoc]
  echo := by
    have hbefore := h.echo
    unfold echoChars sentEcho at *
    rw [flatMap_concat, flatMap_concat, hbefore, List.append_assoc, heput, List.append_assoc]

/-- A step that leaves the rings alone. -/
theorem OutputHolds.keep (h : OutputHolds tr s cs es) (hobuff : s'.tyobuff = s.tyobuff)
    (hosem : s'.tyosem = s.tyosem) (hwoken : s'.woken = s.woken)
    (hebuff : s'.tyebuff = s.tyebuff) : OutputHolds (tr ++ [(e, .quiet)]) s' cs es := by
  have hring : s'.OutputRing cs := ⟨hobuff ▸ h.ring.holds, by
    rw [hwoken, hosem]
    exact h.ring.balance⟩
  exact h.next hring (hebuff ▸ h.echoRing) h.room (List.append_nil _) (List.append_nil _)

theorem OutputHolds.puts {u : TtyOutput} (pid : Nat) (chars : List UInt8) {front : List UInt8}
    (h : OutputHolds tr s cs es) (hring : u.OutputRing cs') (hebuff : u.tyebuff = s.tyebuff)
    (hfront : cs'.map Prod.snd = cs.map Prod.snd ++ front) :
    ∃ cs'', OutputHolds
      (tr ++ [(e, .put pid (front ++ (TtyOutput.ttyputs pid chars u).1))])
      (TtyOutput.ttyputs pid chars u).2 cs'' es := by
  obtain ⟨more, hring', hmore⟩ := hring.ttyputs pid chars
  have hecho := (TtyOutput.ttyputs_puts pid chars u).echo
  refine ⟨_, h.next hring' ?_ h.room ?_ (List.append_nil _)⟩
  · rw [hecho, hebuff]
    exact h.echoRing
  · show cs.map Prod.snd ++ ((front ++ _).map (pid, ·)).map Prod.snd = [] ++ _
    rw [map_tagged, List.nil_append, List.map_append, hfront, hmore, List.append_assoc]

/-- What the handler does unless it has nothing to do. -/
theorem OutputHolds.interrupt (h : OutputHolds tr s cs es)
    (hsafe : s.tyoheld = false → s.toSend ≤ s.buffered) :
    ∃ cs' es', OutputHolds (tr ++ [(.interrupt, s.ttyhandleOut.1)]) s.ttyhandleOut.2 cs' es' := by
  rw [TtyOutput.ttyhandleOut]
  cases hheld : s.tyoheld with
  | true => exact ⟨cs, es, h.keep rfl rfl rfl rfl⟩
  | false =>
    simp only [Bool.false_eq_true, if_false]
    by_cases hidle : s.tyebuff.head = s.tyebuff.tail ∧ (tyObufLen : Int) ≤ s.tyosem.count
    · simp only [if_pos hidle]
      exact ⟨cs, es, h.keep rfl rfl rfl rfl⟩
    · simp only [if_neg hidle]
      obtain ⟨hsentEcho, hecho⟩ := TtyOutput.sendEcho_eq h.echoRing h.room uartFifoSize
      have hcount : min (uartFifoSize - (TtyOutput.sendEcho uartFifoSize s.tyebuff).1.length)
          (tyObufLen - s.tyosem.count).toNat = s.toSend := by
        rw [hsentEcho, List.length_map, List.length_take, TtyOutput.toSend,
          TtyOutput.echoing_eq h.echoRing h.room]
      have hle : s.toSend ≤ cs.length := h.ring.buffered_eq ▸ hsafe hheld
      obtain ⟨hsent, hholds⟩ := TtyOutput.sendOutput_eq h.ring.holds hle
      rw [hcount]
      refine ⟨cs.drop s.toSend, es.drop uartFifoSize, h.next ⟨hholds, ?_⟩ hecho ?_ ?_ ?_⟩
      · have hpermits := s.tyosem.permits_signaln s.toSend
        have hbalance := h.ring.balance
        show (cs.drop s.toSend).length + (s.woken ++ (s.tyosem.signaln s.toSend).2).length +
          (s.tyosem.signaln s.toSend).1.permits = tyObufLen
        rw [List.length_drop, List.length_append]
        omega
      · rw [List.length_drop]
        exact Nat.lt_of_le_of_lt (Nat.sub_le _ _) h.room
      · show cs.map Prod.snd ++ [] = (TtyOutput.sendOutput s.toSend s.tyobuff).1 ++ _
        rw [hsent, ← List.map_append, List.take_append_drop, List.append_nil]
      · show es.map Prod.snd ++ [] = (TtyOutput.sendEcho uartFifoSize s.tyebuff).1 ++ _
        rw [hsentEcho, ← List.map_append, List.take_append_drop, List.append_nil]

theorem OutputHolds.step (h : OutputHolds tr s cs es) (hs : outputStep tyocrlf s e = .ok (o, s'))
    (hsafe : SafeOutput s e) : ∃ cs' es', OutputHolds (tr ++ [(e, o)]) s' cs' es' := by
  cases e with
  | write pid buff =>
    rw [outputStep] at hs
    split at hs
    · cases hs
    · obtain ⟨rfl, rfl⟩ := Prod.mk.inj (Except.ok.inj hs)
      obtain ⟨cs'', hcs⟩ := h.puts pid (buff.flatMap (TtyOutput.crlf tyocrlf)) h.ring rfl
        (List.append_nil _).symm
      exact ⟨cs'', es, hcs⟩
  | resume i =>
    rw [outputStep] at hs
    cases hw : s.woken[i]? with
    | none =>
      rw [hw] at hs
      cases hs
    | some w =>
      rw [hw] at hs
      obtain ⟨rfl, rfl⟩ := Prod.mk.inj (Except.ok.inj hs)
      have hlt := (List.getElem?_eq_some_iff.mp hw).1
      have hbalance := h.ring.balance
      have hring : TtyOutput.OutputRing
          ({ s with woken := s.woken.eraseIdx i }.putChar w.ch)
          (cs ++ [(s.tyobuff.tail, w.ch)]) :=
        ⟨h.ring.holds.push (by omega) w.ch, by
          show (cs ++ [(s.tyobuff.tail, w.ch)]).length + (s.woken.eraseIdx i).length +
            s.tyosem.permits = tyObufLen
          rw [List.length_append, List.length_singleton, List.length_eraseIdx_of_lt hlt]
          omega⟩
      have hfront : (cs ++ [(s.tyobuff.tail, w.ch)]).map Prod.snd = cs.map Prod.snd ++ [w.ch] :=
        List.map_append
      obtain ⟨cs'', hcs⟩ := h.puts w.pid w.ahead hring rfl hfront
      exact ⟨cs'', es, hcs⟩
  | eputc ch =>
    obtain ⟨rfl, rfl⟩ := Prod.mk.inj (Except.ok.inj hs)
    have hroom : es.length + 1 < tyEbufLen := by
      have hsafe' : s.echoing + 1 < tyEbufLen := hsafe
      rwa [TtyOutput.echoing_eq h.echoRing h.room] at hsafe'
    refine ⟨cs, es ++ [(s.tyebuff.tail, ch)],
      h.next ⟨h.ring.holds, h.ring.balance⟩ (h.echoRing.push h.room ch) ?_ (List.append_nil _) ?_⟩
    · rwa [List.length_append, List.length_singleton]
    · rw [List.map_append]
      rfl
  | interrupt =>
    rw [outputStep] at hs
    split at hs
    · obtain ⟨rfl, rfl⟩ := Prod.mk.inj (Except.ok.inj hs)
      exact h.interrupt hsafe
    · cases hs
  | stop =>
    obtain ⟨rfl, rfl⟩ := Prod.mk.inj (Except.ok.inj hs)
    exact ⟨cs, es, h.keep rfl rfl rfl rfl⟩
  | start =>
    obtain ⟨rfl, rfl⟩ := Prod.mk.inj (Except.ok.inj hs)
    exact ⟨cs, es, h.keep rfl rfl rfl rfl⟩
  | other =>
    obtain ⟨rfl, rfl⟩ := Prod.mk.inj (Except.ok.inj hs)
    exact ⟨cs, es, h.keep rfl rfl rfl rfl⟩

theorem putBy_interrupt (s : TtyOutput) : putBy (.interrupt, s.ttyhandleOut.1) = [] := by
  unfold TtyOutput.ttyhandleOut
  split
  · rfl
  · split
    · rfl
    · rfl

/-- An interrupt that takes more than there is sends what nobody has put. -/
theorem OutputHolds.not_intact_interrupt (h : OutputHolds tr s cs es)
    (hheld : s.tyoheld = false) (hmore : s.buffered < s.toSend) :
    ¬ OutputIntact (tr ++ [(.interrupt, s.ttyhandleOut.1)]) s.ttyhandleOut.2 := by
  have hidle : ¬ (s.tyebuff.head = s.tyebuff.tail ∧ (tyObufLen : Int) ≤ s.tyosem.count) := by
    rintro ⟨-, hcount⟩
    unfold TtyOutput.toSend at hmore
    omega
  have hcount : min (uartFifoSize - (TtyOutput.sendEcho uartFifoSize s.tyebuff).1.length)
      (tyObufLen - s.tyosem.count).toNat = s.toSend := by
    rw [(TtyOutput.sendEcho_eq h.echoRing h.room uartFifoSize).1, List.length_map,
      List.length_take, TtyOutput.toSend, TtyOutput.echoing_eq h.echoRing h.room]
  rintro ⟨⟨cs', -, hput⟩, -⟩
  have hlen := congrArg List.length hput
  have hbefore := congrArg List.length h.put
  have hsent : sentBy (.interrupt, s.ttyhandleOut.1) =
      (TtyOutput.sendOutput s.toSend s.tyobuff).1 := by
    simp only [TtyOutput.ttyhandleOut, hheld, Bool.false_eq_true, if_false, if_neg hidle, hcount,
      sentBy]
  unfold putChars sentChars at hlen hbefore
  rw [flatMap_concat, flatMap_concat, hsent, putBy_interrupt, List.append_nil, hbefore,
    List.length_append, List.length_append, List.length_append, TtyOutput.length_sendOutput,
    List.length_map, List.length_map] at hlen
  rw [h.ring.buffered_eq] at hmore
  omega

/-- An echo ring without a free slot is taken for an empty one. -/
theorem OutputHolds.not_intact_eputc (h : OutputHolds tr s cs es) {ch : UInt8}
    (hfull : ¬ s.echoing + 1 < tyEbufLen) :
    ¬ OutputIntact (tr ++ [(.eputc ch, .echoed ch)])
      { s with tyebuff := s.tyebuff.push ch, etbei := true } := by
  rw [TtyOutput.echoing_eq h.echoRing h.room] at hfull
  have hroom := h.room
  rintro ⟨-, es', -, hecho, hempty⟩
  have hpush := h.echoRing.push h.room ch
  have htail := hpush.tail_val
  have hmeet : (s.tyebuff.push ch).head = (s.tyebuff.push ch).tail := by
    refine Fin.ext ?_
    rw [htail, List.length_append, List.length_singleton,
      show es.length + 1 = tyEbufLen by omega, Nat.add_mod_right,
      Nat.mod_eq_of_lt (s.tyebuff.push ch).head.isLt]
  obtain rfl := hempty.mp hmeet
  have hbefore := h.echo
  have hlen := congrArg List.length hecho
  unfold echoChars sentEcho at hlen hbefore
  rw [flatMap_concat, flatMap_concat, hbefore] at hlen
  simp only [echoBy, sentEchoBy, List.length_append, List.length_map, List.length_singleton,
    List.length_nil] at hlen
  omega

theorem OutputHolds.not_intact (h : OutputHolds tr s cs es)
    (hs : outputStep tyocrlf s e = .ok (o, s')) (hbad : ¬ SafeOutput s e) :
    ¬ OutputIntact (tr ++ [(e, o)]) s' := by
  cases e with
  | interrupt =>
    rw [outputStep] at hs
    split at hs
    · obtain ⟨rfl, rfl⟩ := Prod.mk.inj (Except.ok.inj hs)
      simp only [SafeOutput, Classical.not_imp, Nat.not_le] at hbad
      exact h.not_intact_interrupt hbad.1 hbad.2
    · cases hs
  | eputc ch =>
    obtain ⟨rfl, rfl⟩ := Prod.mk.inj (Except.ok.inj hs)
    exact h.not_intact_eputc hbad
  | write _ _ => exact absurd trivial hbad
  | resume _ => exact absurd trivial hbad
  | stop => exact absurd trivial hbad
  | start => exact absurd trivial hbad
  | other => exact absurd trivial hbad

theorem outputHolds_init (tyobuff : RingBuffer tyObufLen UInt8)
    (tyebuff : RingBuffer tyEbufLen UInt8) :
    OutputHolds [] (TtyOutput.init tyobuff tyebuff) [] [] :=
  ⟨TtyOutput.OutputRing.init tyobuff tyebuff, RingBuffer.Holds.nil rfl, by decide, rfl, rfl⟩

/-- Along every run of processes that write, echo and interrupts, console output is intact exactly
as long as no interrupt takes more than the output ring holds and the echo leaves a slot of its
ring free. -/
theorem console_output_iff (tyocrlf : Bool) (tyobuff : RingBuffer tyObufLen UInt8)
    (tyebuff : RingBuffer tyEbufLen UInt8)
    (h : Run (outputStep tyocrlf) (TtyOutput.init tyobuff tyebuff) tr s) :
    AllStates (outputStep tyocrlf) (TtyOutput.init tyobuff tyebuff) OutputIntact tr ↔
      AllSteps (outputStep tyocrlf) (TtyOutput.init tyobuff tyebuff)
        (fun s e _ => SafeOutput s e) tr := by
  refine allStates_iff_allSteps (I := fun tr s => ∃ cs es, OutputHolds tr s cs es)
    ⟨[], [], outputHolds_init tyobuff tyebuff⟩ ?_ ?_ ?_ h
  · rintro tr s e o s' ⟨cs, es, hholds⟩ hs hsafe
    exact hholds.step hs hsafe
  · rintro tr s ⟨cs, es, hholds⟩
    exact hholds.intact
  · rintro tr s e o s' ⟨cs, es, hholds⟩ hs hbad
    exact hholds.not_intact hs hbad

/-! ## What each process has put -/

/-- The characters of a process in the order in which they went into the ring. -/
def putOf (tr : List (OutputEvent × OutputResult)) (pid : Nat) : List UInt8 :=
  ((putChars tr).filter (·.1 = pid)).map Prod.snd

/-- What a process has put and what it has still to put is what it has written. -/
structure InOrder (tyocrlf : Bool) (tr : List (OutputEvent × OutputResult)) (s : TtyOutput) :
    Prop where
  nodup : (s.writers.map Writer.pid).Nodup
  pending : ∀ w ∈ s.writers, putOf tr w.pid ++ w.ch :: w.ahead = written tyocrlf tr w.pid
  done : ∀ pid, pid ∉ s.writers.map Writer.pid → putOf tr pid = written tyocrlf tr pid

theorem putOf_concat (tr : List (OutputEvent × OutputResult)) (x : OutputEvent × OutputResult)
    (pid : Nat) :
    putOf (tr ++ [x]) pid = putOf tr pid ++ ((putBy x).filter (·.1 = pid)).map Prod.snd := by
  unfold putOf putChars
  rw [flatMap_concat, List.filter_append, List.map_append]

theorem filter_tagged (p pid : Nat) (chars : List UInt8) :
    ((chars.map (p, ·)).filter (·.1 = pid)).map Prod.snd = if p = pid then chars else [] := by
  by_cases heq : p = pid
  · rw [if_pos heq, List.filter_eq_self.mpr, map_tagged]
    intro c hc
    obtain ⟨ch, -, rfl⟩ := List.mem_map.mp hc
    exact decide_eq_true heq
  · rw [if_neg heq, List.filter_eq_nil_iff.mpr, List.map_nil]
    intro c hc
    obtain ⟨ch, -, rfl⟩ := List.mem_map.mp hc
    simpa using heq

/-- A step in which nothing is put or written, and nobody comes or goes. -/
theorem InOrder.keep {x : OutputEvent × OutputResult} (h : InOrder tyocrlf tr s)
    (hwriters : s'.writers.Perm s.writers) (hput : putBy x = [])
    (hwritten : ∀ pid, writtenBy tyocrlf pid x = []) : InOrder tyocrlf (tr ++ [x]) s' := by
  have hputOf : ∀ pid, putOf (tr ++ [x]) pid = putOf tr pid := fun pid => by
    rw [putOf_concat, hput, List.filter_nil, List.map_nil, List.append_nil]
  have hsame : ∀ pid, written tyocrlf (tr ++ [x]) pid = written tyocrlf tr pid := fun pid => by
    unfold written
    rw [flatMap_concat, hwritten, List.append_nil]
  refine ⟨(hwriters.map Writer.pid).nodup_iff.mpr h.nodup, fun w hw => ?_, fun pid hpid => ?_⟩
  · rw [hputOf, hsame]
    exact h.pending w (hwriters.mem_iff.mp hw)
  · rw [hputOf, hsame]
    exact h.done pid fun hmem => hpid ((hwriters.map Writer.pid).mem_iff.mpr hmem)

/-- A step in which the process `pid` puts characters, with the others in `rest`. -/
theorem InOrder.put {x : OutputEvent × OutputResult} {rest : List Writer} {pid : Nat}
    {put left : List UInt8} (hnodup : (rest.map Writer.pid).Nodup)
    (hnot : pid ∉ rest.map Writer.pid)
    (hpending : ∀ w ∈ rest, putOf tr w.pid ++ w.ch :: w.ahead = written tyocrlf tr w.pid)
    (hdone : ∀ p, p ∉ rest.map Writer.pid → p ≠ pid → putOf tr p = written tyocrlf tr p)
    (hother : ∀ p, p ≠ pid → writtenBy tyocrlf p x = [])
    (hput : putBy x = put.map (pid, ·))
    (hall : putOf tr pid ++ (put ++ left) = written tyocrlf (tr ++ [x]) pid)
    (hwriters : left = [] ∧ s'.writers.Perm rest ∨
      ∃ w, w.pid = pid ∧ left = w.ch :: w.ahead ∧ s'.writers.Perm (w :: rest)) :
    InOrder tyocrlf (tr ++ [x]) s' := by
  have hputOf : ∀ p, putOf (tr ++ [x]) p = putOf tr p ++ if pid = p then put else [] := fun p => by
    rw [putOf_concat, hput, filter_tagged]
  have hsame : ∀ p, p ≠ pid → putOf (tr ++ [x]) p = putOf tr p ∧
      written tyocrlf (tr ++ [x]) p = written tyocrlf tr p := by
    intro p hp
    refine ⟨by rw [hputOf, if_neg (Ne.symm hp), List.append_nil], ?_⟩
    unfold written
    rw [flatMap_concat, hother p hp, List.append_nil]
  have hmine : putOf (tr ++ [x]) pid ++ left = written tyocrlf (tr ++ [x]) pid := by
    rw [hputOf, if_pos rfl, List.append_assoc, hall]
  have hrest : ∀ w ∈ rest, putOf (tr ++ [x]) w.pid ++ w.ch :: w.ahead =
      written tyocrlf (tr ++ [x]) w.pid := by
    intro w hw
    obtain ⟨hp, hwr⟩ := hsame w.pid fun heq => hnot (heq ▸ List.mem_map_of_mem hw)
    rw [hp, hwr]
    exact hpending w hw
  rcases hwriters with ⟨rfl, hperm⟩ | ⟨w, rfl, rfl, hperm⟩
  · rw [List.append_nil] at hmine
    refine ⟨(hperm.map Writer.pid).nodup_iff.mpr hnodup, fun w hw => hrest w (hperm.mem_iff.mp hw),
      fun p hp => ?_⟩
    rw [(hperm.map Writer.pid).mem_iff] at hp
    by_cases heq : p = pid
    · rw [heq]
      exact hmine
    · obtain ⟨hputp, hwr⟩ := hsame p heq
      rw [hputp, hwr]
      exact hdone p hp heq
  · refine ⟨(hperm.map Writer.pid).nodup_iff.mpr (List.nodup_cons.mpr ⟨hnot, hnodup⟩),
      fun v hv => ?_, fun p hp => ?_⟩
    · rcases List.mem_cons.mp (hperm.mem_iff.mp hv) with rfl | hv
      · exact hmine
      · exact hrest v hv
    · rw [(hperm.map Writer.pid).mem_iff, List.map_cons, List.mem_cons, not_or] at hp
      obtain ⟨hputp, hwr⟩ := hsame p hp.1
      rw [hputp, hwr]
      exact hdone p hp.2 hp.1

/-- An interrupt wakes processes, and that is all it does to them. -/
theorem TtyOutput.writers_ttyhandleOut (s : TtyOutput) :
    s.ttyhandleOut.2.writers.Perm s.writers := by
  rw [ttyhandleOut]
  split
  · exact List.Perm.refl _
  · split
    · exact List.Perm.refl _
    · -- who is made ready goes from the front of one list to the end of the other
      show ((s.tyosem.signaln _).1.waiting ++ (s.woken ++ (s.tyosem.signaln _).2)).Perm
        (s.tyosem.waiting ++ s.woken)
      refine List.perm_append_comm.trans ?_
      rw [List.append_assoc, Semaphore.signaln_append_waiting]
      exact List.perm_append_comm

/-- What `ttyputs` leaves of the process among the others. -/
theorem TtyOutput.Puts.writers {pid : Nat} {chars put : List UInt8} {u u' : TtyOutput}
    (h : Puts pid chars u put u') : ∃ left, chars = put ++ left ∧
      (left = [] ∧ u'.writers.Perm u.writers ∨
        ∃ w, w.pid = pid ∧ left = w.ch :: w.ahead ∧ u'.writers.Perm (w :: u.writers)) := by
  rcases h.left with ⟨hall, hsame⟩ | ⟨w, hpid, hsplit, hmore⟩
  · refine ⟨[], by rw [List.append_nil, hall], .inl ⟨rfl, ?_⟩⟩
    unfold TtyOutput.writers
    rw [hsame, h.woken]
  · refine ⟨w.ch :: w.ahead, hsplit, .inr ⟨w, hpid, rfl, ?_⟩⟩
    unfold TtyOutput.writers
    rw [hmore, h.woken, List.append_assoc, List.singleton_append]
    exact List.perm_middle

theorem InOrder.write {pid : Nat} {buff : List UInt8} (h : InOrder tyocrlf tr s)
    (hpid : pid ∉ s.writers.map Writer.pid) :
    InOrder tyocrlf (tr ++ [(.write pid buff, .put pid (s.ttywrite tyocrlf pid buff).1)])
      (s.ttywrite tyocrlf pid buff).2 := by
  obtain ⟨left, hchars, hwriters⟩ :=
    (TtyOutput.ttyputs_puts pid (buff.flatMap (TtyOutput.crlf tyocrlf)) s).writers
  refine InOrder.put h.nodup hpid h.pending (fun p hp _ => h.done p hp) (fun p hp => ?_) rfl ?_
    hwriters
  · exact if_neg (Ne.symm hp)
  · have hwritten : written tyocrlf (tr ++ [(.write pid buff,
        .put pid (s.ttywrite tyocrlf pid buff).1)]) pid =
        written tyocrlf tr pid ++ buff.flatMap (TtyOutput.crlf tyocrlf) := by
      unfold written
      rw [flatMap_concat]
      exact congrArg _ (if_pos rfl)
    rw [hwritten, h.done pid hpid, hchars]
    rfl

theorem InOrder.resume {i : Nat} {w : Writer} (h : InOrder tyocrlf tr s)
    (hw : s.woken[i]? = some w) {put : List UInt8}
    (hputs : TtyOutput.Puts w.pid w.ahead
      ({ s with woken := s.woken.eraseIdx i }.putChar w.ch) put s') :
    InOrder tyocrlf (tr ++ [(.resume i, .put w.pid (w.ch :: put))]) s' := by
  obtain ⟨hlt, hget⟩ := List.getElem?_eq_some_iff.mp hw
  have hperm : (w :: (s.tyosem.waiting ++ s.woken.eraseIdx i)).Perm s.writers := by
    refine List.perm_middle.symm.trans ((List.Perm.append_left _ ?_))
    rw [← hget]
    exact List.getElem_cons_eraseIdx_perm hlt
  have hnodup := (hperm.map Writer.pid).nodup_iff.mpr h.nodup
  rw [List.map_cons, List.nodup_cons] at hnodup
  obtain ⟨left, hahead, hwriters⟩ := hputs.writers
  refine InOrder.put hnodup.2 hnodup.1
    (fun v hv => h.pending v (hperm.mem_iff.mp (List.mem_cons_of_mem w hv)))
    (fun p hp hne => h.done p fun hmem => ?_) (fun p _ => rfl) rfl ?_ hwriters
  · rw [← (hperm.map Writer.pid).mem_iff, List.map_cons, List.mem_cons] at hmem
    rcases hmem with rfl | hmem
    · exact hne rfl
    · exact hp hmem
  · have hmine := h.pending w (hperm.mem_iff.mp List.mem_cons_self)
    have hwritten : written tyocrlf (tr ++ [(.resume i, .put w.pid (w.ch :: put))]) w.pid =
        written tyocrlf tr w.pid := by
      unfold written
      rw [flatMap_concat]
      exact List.append_nil _
    rw [hwritten, ← hmine, List.cons_append, ← hahead]

theorem InOrder.step (h : InOrder tyocrlf tr s) (hs : outputStep tyocrlf s e = .ok (o, s')) :
    InOrder tyocrlf (tr ++ [(e, o)]) s' := by
  cases e with
  | write pid buff =>
    rw [outputStep] at hs
    split at hs
    · cases hs
    · rename_i hpid
      obtain ⟨rfl, rfl⟩ := Prod.mk.inj (Except.ok.inj hs)
      exact h.write hpid
  | resume i =>
    rw [outputStep] at hs
    cases hw : s.woken[i]? with
    | none =>
      rw [hw] at hs
      cases hs
    | some w =>
      rw [hw] at hs
      obtain ⟨rfl, rfl⟩ := Prod.mk.inj (Except.ok.inj hs)
      exact h.resume hw (TtyOutput.ttyputs_puts w.pid w.ahead _)
  | eputc ch =>
    obtain ⟨rfl, rfl⟩ := Prod.mk.inj (Except.ok.inj hs)
    exact h.keep (List.Perm.refl _) rfl fun _ => rfl
  | interrupt =>
    rw [outputStep] at hs
    split at hs
    · obtain ⟨rfl, rfl⟩ := Prod.mk.inj (Except.ok.inj hs)
      exact h.keep s.writers_ttyhandleOut (putBy_interrupt s) fun _ => rfl
    · cases hs
  | stop =>
    obtain ⟨rfl, rfl⟩ := Prod.mk.inj (Except.ok.inj hs)
    exact h.keep (List.Perm.refl _) rfl fun _ => rfl
  | start =>
    obtain ⟨rfl, rfl⟩ := Prod.mk.inj (Except.ok.inj hs)
    exact h.keep (List.Perm.refl _) rfl fun _ => rfl
  | other =>
    obtain ⟨rfl, rfl⟩ := Prod.mk.inj (Except.ok.inj hs)
    exact h.keep (List.Perm.refl _) rfl fun _ => rfl

/-- What has been put of a process is the beginning of what it has written. -/
theorem InOrder.putOf_prefix (h : InOrder tyocrlf tr s) (pid : Nat) :
    putOf tr pid <+: written tyocrlf tr pid := by
  by_cases hpid : pid ∈ s.writers.map Writer.pid
  · obtain ⟨w, hw, rfl⟩ := List.mem_map.mp hpid
    rw [← h.pending w hw]
    exact List.prefix_append _ _
  · exact h.done pid hpid ▸ List.prefix_rfl

theorem inOrder_init (tyocrlf : Bool) (tyobuff : RingBuffer tyObufLen UInt8)
    (tyebuff : RingBuffer tyEbufLen UInt8) :
    InOrder tyocrlf [] (TtyOutput.init tyobuff tyebuff) :=
  ⟨List.nodup_nil, nofun, fun _ _ => rfl⟩

/-- In a run whose steps are safe the UART gets the characters in the order in which they went
into the ring: from each process the beginning of what it has written, and all of it once nobody
waits and the ring is empty. -/
theorem console_writers (tyocrlf : Bool) (tyobuff : RingBuffer tyObufLen UInt8)
    (tyebuff : RingBuffer tyEbufLen UInt8)
    (h : Run (outputStep tyocrlf) (TtyOutput.init tyobuff tyebuff) tr s)
    (hsafe : AllSteps (outputStep tyocrlf) (TtyOutput.init tyobuff tyebuff)
      (fun s e _ => SafeOutput s e) tr) :
    ∃ tagged : List (Nat × UInt8), tagged <+: putChars tr ∧ sentChars tr = tagged.map Prod.snd ∧
      (∀ pid, (tagged.filter (·.1 = pid)).map Prod.snd <+: written tyocrlf tr pid) ∧
      (s.writers = [] → s.buffered = 0 →
        ∀ pid, (tagged.filter (·.1 = pid)).map Prod.snd = written tyocrlf tr pid) := by
  obtain ⟨cs, es, hholds⟩ := h.invariant_of_allSteps
    (I := fun tr s => ∃ cs es, OutputHolds tr s cs es)
    ⟨[], [], outputHolds_init tyobuff tyebuff⟩
    (fun _ _ _ _ _ ⟨_, _, hholds⟩ hs hstep => hholds.step hs hstep) hsafe
  have horder := h.invariant (I := InOrder tyocrlf) (inOrder_init tyocrlf tyobuff tyebuff)
    fun _ _ _ _ _ horder hs => horder.step hs
  have hput := hholds.put
  refine ⟨(putChars tr).take (sentChars tr).length, List.take_prefix _ _, ?_, fun pid => ?_,
    fun hnobody hempty pid => ?_⟩
  · rw [List.map_take, hput, List.take_left]
  · exact (((List.take_prefix _ _).filter _).map Prod.snd).trans (horder.putOf_prefix pid)
  · rw [hholds.ring.buffered_eq] at hempty
    obtain rfl := List.eq_nil_of_length_eq_zero hempty
    rw [List.map_nil, List.append_nil] at hput
    have hdone := horder.done pid (by rw [hnobody]; exact List.not_mem_nil)
    rw [← hput, List.length_map, List.take_length, ← hdone]
    rfl

end Histories

/-- A check that `SafeOutput` follows from. -/
def safeCheck (s : TtyOutput) (_ : OutputEvent) : Bool :=
  decide (s.toSend ≤ s.buffered) && decide (s.echoing + 1 < tyEbufLen)

theorem safeOutput_of_check (s : TtyOutput) (e : OutputEvent) (h : safeCheck s e = true) :
    SafeOutput s e := by
  unfold safeCheck at h
  rw [Bool.and_eq_true, decide_eq_true_iff, decide_eq_true_iff] at h
  cases e with
  | interrupt => exact fun _ => h.1
  | eputc ch => exact h.2
  | write _ _ => trivial
  | resume _ => trivial
  | stop => trivial
  | start => trivial
  | other => trivial

def clearTtyOutput : TtyOutput :=
  TtyOutput.init ⟨Vector.replicate tyObufLen 0, ⟨0, Nat.succ_pos _⟩, ⟨0, Nat.succ_pos _⟩⟩
    ⟨Vector.replicate tyEbufLen 0, ⟨0, Nat.succ_pos _⟩, ⟨0, Nat.succ_pos _⟩⟩

/-- `a` and newline are written, `b` is echoed, and the UART interrupts. -/
def shortOutput : List OutputEvent := [.write 1 [97, tyNewline], .eputc 98, .interrupt]

theorem console_output_short : ∃ os s,
    Run (outputStep true) clearTtyOutput (shortOutput.zip os) s ∧
    AllStates (outputStep true) clearTtyOutput OutputIntact (shortOutput.zip os) := by
  obtain ⟨os, s, hrun, hlen, -⟩ := run_of_endsIn (show endsIn (outputStep true) clearTtyOutput
    shortOutput (fun _ _ => true) = true by decide)
  refine ⟨os, s, hrun, (console_output_iff true _ _ hrun).mpr ?_⟩
  refine allSteps_of_stepsPass ?_ safeOutput_of_check
  rw [hlen]
  decide

/-- The ring is full when the second process writes, so that both wait until an interrupt, and
run again in their order. -/
def busyOutput : List OutputEvent :=
  [.write 1 (List.replicate 66 97), .write 2 [98, tyNewline], .eputc 99, .interrupt, .resume 0,
    .resume 0] ++ List.replicate 4 .interrupt

theorem console_writers_busy : ∃ os s, ∃ tagged : List (Nat × UInt8),
    Run (outputStep true) clearTtyOutput (busyOutput.zip os) s ∧
    tagged <+: putChars (busyOutput.zip os) ∧
    sentChars (busyOutput.zip os) = tagged.map Prod.snd ∧
    ∀ pid, (tagged.filter (·.1 = pid)).map Prod.snd = written true (busyOutput.zip os) pid := by
  obtain ⟨os, s, hrun, hlen, hcheck⟩ := run_of_endsIn (show endsIn (outputStep true) clearTtyOutput
    busyOutput (fun _ s => decide (s.writers = [] ∧ s.buffered = 0)) = true by decide +kernel)
  obtain ⟨hnobody, hempty⟩ := of_decide_eq_true hcheck
  obtain ⟨tagged, horder, hsent, -, hall⟩ := console_writers true _ _ hrun
    (allSteps_of_stepsPass (by rw [hlen]; decide +kernel) safeOutput_of_check)
  exact ⟨os, s, tagged, hrun, horder, hsent, hall hnobody hempty⟩

/-- A process writes 65 characters, and the UART interrupts five times before it runs again. -/
def lateWriter : List OutputEvent :=
  .write 1 (List.replicate 65 97) :: List.replicate 5 .interrupt

/-- The fifth interrupt sends a character that is not there. -/
theorem console_output_late_writer : ∃ os s,
    Run (outputStep true) clearTtyOutput (lateWriter.zip os) s ∧
    ¬ AllStates (outputStep true) clearTtyOutput OutputIntact (lateWriter.zip os) := by
  obtain ⟨os, s, hrun, -, hcheck⟩ := run_of_endsIn (show endsIn (outputStep true) clearTtyOutput
    lateWriter (fun os _ => decide ((putChars (lateWriter.zip os)).length <
      (sentChars (lateWriter.zip os)).length)) = true by decide +kernel)
  refine ⟨os, s, hrun, fun hall => ?_⟩
  obtain ⟨cs, -, hput⟩ := (hall _ s (List.prefix_refl _) hrun).output
  have hlen := congrArg List.length hput
  rw [List.length_append, List.length_map] at hlen
  have hmore := of_decide_eq_true hcheck
  omega

end NatBox
