import Mathlib.Logic.Function.Basic
import NatBox.Lib.Runs

/-
Console input in cooked mode: `ttyhandle_in` and `ttygetc`.

The line being typed stands in the input buffer behind the lines that may be read;
`tyicursor` counts its characters and the semaphore those of the lines.  `Edited`
says what lines the characters amount to.  The test for space is made for ordinary
characters and the end-of-file character only, and the branch of the latter does
not wrap its pointer around: `console_intact_iff` says when neither does harm.

Echoing and output are left out; they touch nothing that input reads.
-/

namespace NatBox

open Function Runs

/-- `TY_IBUFLEN` -/
abbrev tyIbufLen : Int := 128

/-- `TY_NEWLINE` and `TY_RETURN` -/
def tyNewline : UInt8 := 10
def tyReturn : UInt8 := 13

/-- The fields of `struct ttycblk` that set the input processing up. -/
structure TtySettings where
  tyicrlf : Bool
  tyierase : Bool
  tyierasec : UInt8
  tyierasec2 : UInt8
  tyeof : Bool
  tyeofch : UInt8
  tyikill : Bool
  tyikillc : UInt8
  tyoflow : Bool
  tyostop : UInt8
  tyostart : UInt8

/-- The settings of `ttyinit`. -/
def ttyinitSettings : TtySettings := ⟨true, true, 8, 127, true, 4, true, 21, true, 19, 17⟩

/-- The input side of `struct ttycblk`.  Pointers are offsets from `tyibuff`, which
goes on beyond its length with whatever follows it.  `scount` is the count of
`tyisem`; `released` counts the readers that a signal has woken and that have not
run since. -/
structure Ttycblk where
  tyihead : Int
  tyitail : Int
  tyibuff : Int → UInt8
  scount : Int
  released : Nat
  tyicursor : Int

/-- The buffers of `ttyinit`. -/
def Ttycblk.init (tyibuff : Int → UInt8) : Ttycblk := ⟨0, 0, tyibuff, 0, 0, 0⟩

inductive TtyEvent
  /-- A character arrives. -/
  | char (ch : UInt8)
  /-- A process calls `ttygetc`. -/
  | getc
  /-- A process that waited in `ttygetc` goes on. -/
  | resume

inductive TtyResult
  | ignored
  | killed
  | erased
  | line
  | full
  | eof
  | inserted
  | blocked
  /-- The character returned, `none` for `EOF`. -/
  | returned (ch : Option UInt8)
  deriving DecidableEq

/-- The branch for a character. -/
inductive CharKind
  | flow
  | kill
  | erase
  | endOfLine
  | eof
  | ordinary
  deriving DecidableEq

namespace TtySettings

variable (cfg : TtySettings)

/-- `'\r'` is taken for `'\n'`. -/
def mapped (ch : UInt8) : UInt8 := if ch = tyReturn ∧ cfg.tyicrlf then tyNewline else ch

/-- The tests on a character, in the order of `ttyhandle_in`. -/
def kind (ch : UInt8) : CharKind :=
  if cfg.tyoflow ∧ (ch = cfg.tyostart ∨ ch = cfg.tyostop) then .flow
  else if ch = cfg.tyikillc ∧ cfg.tyikill then .kill
  else if (ch = cfg.tyierasec ∨ ch = cfg.tyierasec2) ∧ cfg.tyierase then .erase
  else if ch = tyNewline ∨ ch = tyReturn then .endOfLine
  else if ch = cfg.tyeofch ∧ cfg.tyeof then .eof
  else .ordinary

/-- What `ttygetc` makes of a character. -/
def asRead (ch : UInt8) : Option UInt8 := if cfg.tyeof ∧ ch = cfg.tyeofch then none else some ch

end TtySettings

namespace Ttycblk

variable (s : Ttycblk)

/-- `*typtr->tyitail++ = ch` -/
def put (ch : UInt8) : Ttycblk :=
  { s with tyibuff := update s.tyibuff s.tyitail ch, tyitail := s.tyitail + 1 }

/-- Wrap around if needed. -/
def wrapTail : Ttycblk := { s with tyitail := if tyIbufLen ≤ s.tyitail then 0 else s.tyitail }

def signal : Ttycblk :=
  { s with
    scount := s.scount + 1
    released := if s.scount < 0 then s.released + 1 else s.released }

def signaln : Nat → Ttycblk → Ttycblk
  | 0, s => s
  | count + 1, s => signaln count s.signal

/-- `erase1` -/
def erase1 : Ttycblk :=
  { s with tyitail := if s.tyitail - 1 < 0 then s.tyitail - 1 + tyIbufLen else s.tyitail - 1 }

/-- The test for space. -/
def full : Bool := decide (max s.scount 0 + s.tyicursor ≥ tyIbufLen - 1)

/-- `ttygetc` behind its `wait`. -/
def takeChar (cfg : TtySettings) : TtyResult × Ttycblk :=
  (.returned (cfg.asRead (s.tyibuff s.tyihead)),
    { s with tyihead := if tyIbufLen ≤ s.tyihead + 1 then 0 else s.tyihead + 1 })

end Ttycblk

/-- `ttyhandle_in` -/
def ttyhandleIn (cfg : TtySettings) (s : Ttycblk) (ch : UInt8) : TtyResult × Ttycblk :=
  let ch := cfg.mapped ch
  match cfg.kind ch with
  | .flow => (.ignored, s)
  | .kill =>
    let tail := s.tyitail - s.tyicursor
    (.killed, { s with tyitail := if tail < 0 then tail + tyIbufLen else tail, tyicursor := 0 })
  | .erase =>
    if 0 < s.tyicursor then (.erased, { s with tyicursor := s.tyicursor - 1 }.erase1)
    else (.ignored, s)
  | .endOfLine =>
    -- no test for space here
    (.line, { Ttycblk.signaln (s.tyicursor + 1).toNat (s.put ch).wrapTail with tyicursor := 0 })
  | .eof =>
    if s.full then (.full, s)
    else if s.tyicursor ≠ 0 then (.ignored, s)
    else (.eof, (s.put ch).signal)
  | .ordinary =>
    if s.full then (.full, s)
    else (.inserted, { s with tyicursor := s.tyicursor + 1 }.put ch |>.wrapTail)

def ttyStep (cfg : TtySettings) (s : Ttycblk) : TtyEvent → Except Unit (TtyResult × Ttycblk)
  | .char ch => .ok (ttyhandleIn cfg s ch)
  | .getc =>
    if 0 < s.scount then .ok ({ s with scount := s.scount - 1 }.takeChar cfg)
    else .ok (.blocked, { s with scount := s.scount - 1 })
  | .resume =>
    if 0 < s.released then .ok ({ s with released := s.released - 1 }.takeChar cfg)
    else .error ()

/-! ## The lines that are typed -/

/-- The characters of the lines accepted so far, and the line being typed. -/
structure Edited where
  accepted : List UInt8
  line : List UInt8

/-- What a character does to the lines; `full` says that it was turned away with a
bell. -/
def Edited.char (cfg : TtySettings) (d : Edited) (ch : UInt8) (full : Bool) : Edited :=
  let ch := cfg.mapped ch
  match cfg.kind ch with
  | .flow => d
  | .kill => { d with line := [] }
  | .erase => { d with line := d.line.dropLast }
  | .endOfLine => ⟨d.accepted ++ (d.line ++ [ch]), []⟩
  | .eof => if full ∨ d.line ≠ [] then d else ⟨d.accepted ++ [ch], []⟩
  | .ordinary => if full then d else { d with line := d.line ++ [ch] }

def editStep (cfg : TtySettings) (d : Edited) : TtyEvent × TtyResult → Edited
  | (.char ch, o) => d.char cfg ch (o == .full)
  | _ => d

def edited (cfg : TtySettings) (tr : List (TtyEvent × TtyResult)) : Edited :=
  tr.foldl (editStep cfg) ⟨[], []⟩

def returnedBy : TtyEvent × TtyResult → Option (Option UInt8)
  | (_, .returned ch) => some ch
  | _ => none

/-- What the calls of `ttygetc` have returned. -/
def returned (tr : List (TtyEvent × TtyResult)) : List (Option UInt8) := tr.filterMap returnedBy

/-- The characters that are typed and not yet returned, those of the current line last. -/
def unread (cfg : TtySettings) (tr : List (TtyEvent × TtyResult)) : List UInt8 :=
  (edited cfg tr).accepted.drop (returned tr).length ++ (edited cfg tr).line

/-- The characters `cs` stand in the buffer from `head` on. -/
def Contents (buff : Int → UInt8) (head : Int) (cs : List UInt8) : Prop :=
  ∀ (k : Nat) (c : UInt8), cs[k]? = some c → buff ((head + k) % tyIbufLen) = c

/-- The promise of console input after the history `tr`: the pointers stay inside the
buffer, it is not overfull, what is unread stands in it, and what was returned is
what was accepted first, in the same order. -/
structure ConsoleIntact (cfg : TtySettings) (tr : List (TtyEvent × TtyResult)) (s : Ttycblk) :
    Prop where
  head_in : 0 ≤ s.tyihead ∧ s.tyihead < tyIbufLen
  tail_in : 0 ≤ s.tyitail ∧ s.tyitail < tyIbufLen
  length_le : ((unread cfg tr).length : Int) ≤ tyIbufLen
  contents : Contents s.tyibuff s.tyihead (unread cfg tr)
  inOrder : returned tr <+: (edited cfg tr).accepted.map cfg.asRead

/-- The characters that may be read or have been promised to a woken reader. -/
def Ttycblk.committed (s : Ttycblk) : Int := max s.scount 0 + s.released

/-- The number of characters in the buffer. -/
def Ttycblk.unreadCount (s : Ttycblk) : Int := s.committed + s.tyicursor

/-- There is room for the character, if it is stored: the buffer is not full, and an
end-of-file character does not go into its last slot. -/
def RoomForChar (cfg : TtySettings) (s : Ttycblk) : TtyEvent → Prop
  | .char ch =>
    match cfg.kind (cfg.mapped ch) with
    | .endOfLine => s.unreadCount < tyIbufLen
    | .eof => s.full = false → s.tyicursor = 0 →
        s.unreadCount < tyIbufLen ∧ s.tyitail ≠ tyIbufLen - 1
    | .ordinary => s.full = false → s.unreadCount < tyIbufLen
    | _ => True
  | _ => True

namespace Contents

variable {buff : Int → UInt8} {head : Int} {c : UInt8} {cs ds : List UInt8}

theorem nil : Contents buff head [] := by
  intro k c hk
  simp at hk

theorem left (h : Contents buff head (cs ++ ds)) : Contents buff head cs := by
  intro k c hk
  apply h k c
  obtain ⟨hlt, -⟩ := List.getElem?_eq_some_iff.mp hk
  rw [List.getElem?_append_left hlt]
  exact hk

/-- One more character behind the others, if there is room. -/
theorem concat (h : Contents buff head cs) (hroom : (cs.length : Int) < tyIbufLen) (ch : UInt8) :
    Contents (update buff ((head + cs.length) % tyIbufLen) ch) head (cs ++ [ch]) := by
  intro k c hk
  obtain ⟨hle, -⟩ := List.getElem?_eq_some_iff.mp hk
  rw [List.length_append, List.length_singleton] at hle
  rcases Nat.lt_succ_iff_lt_or_eq.mp hle with hlt | rfl
  · have hne : (head + k) % tyIbufLen ≠ (head + cs.length) % tyIbufLen := by
      unfold tyIbufLen at *
      omega
    rw [update_of_ne hne]
    apply h k c
    rwa [List.getElem?_append_left hlt] at hk
  · rw [update_self]
    simpa using hk

theorem front (h : Contents buff head (c :: cs)) (hhead : 0 ≤ head ∧ head < tyIbufLen) :
    buff head = c := by
  have hzero := h 0 c rfl
  have hmod : (head + (0 : Nat)) % tyIbufLen = head := by
    unfold tyIbufLen at *
    omega
  rwa [hmod] at hzero

theorem behind (h : Contents buff head (c :: cs)) :
    Contents buff ((head + 1) % tyIbufLen) cs := by
  intro k d hk
  have hnext := h (k + 1) d hk
  have hmod : ((head + 1) % tyIbufLen + k) % tyIbufLen =
      (head + (k + 1 : Nat)) % tyIbufLen := by
    unfold tyIbufLen
    omega
  rwa [hmod]

end Contents

/-- An advanced pointer, wrapped around. -/
theorem wrap_eq {i : Int} (h : 0 ≤ i ∧ i < tyIbufLen) :
    (if tyIbufLen ≤ i + 1 then 0 else i + 1) = (i + 1) % tyIbufLen := by
  unfold tyIbufLen at *
  split <;> omega

/-- A pointer that is rolled back. -/
theorem rollback_eq {head m n t : Int} (ht : t = (head + (m + n)) % tyIbufLen)
    (hn : 0 ≤ n ∧ n ≤ tyIbufLen) :
    (if t - n < 0 then t - n + tyIbufLen else t - n) = (head + m) % tyIbufLen := by
  unfold tyIbufLen at *
  split <;> omega

namespace Ttycblk

theorem signal_committed (s : Ttycblk) : s.signal.committed = s.committed + 1 := by
  unfold signal committed
  dsimp only
  split <;> push_cast <;> omega

/-- Each signal lets one more character be read. -/
theorem signaln_committed (count : Nat) (s : Ttycblk) :
    (signaln count s).committed = s.committed + count := by
  induction count generalizing s with
  | zero => simp [signaln]
  | succ count ih =>
    rw [signaln, ih, signal_committed]
    push_cast
    omega

/-- Signals leave the buffer alone. -/
theorem signaln_frame (count : Nat) (s : Ttycblk) :
    (signaln count s).tyihead = s.tyihead ∧ (signaln count s).tyitail = s.tyitail ∧
      (signaln count s).tyibuff = s.tyibuff := by
  induction count generalizing s with
  | zero => exact ⟨rfl, rfl, rfl⟩
  | succ count ih => exact ih s.signal

end Ttycblk

/-- The buffer holds the lines `rest` and behind them the current line. -/
structure TtyBuffer (s : Ttycblk) (rest line : List UInt8) : Prop where
  head_in : 0 ≤ s.tyihead ∧ s.tyihead < tyIbufLen
  tail_eq : s.tyitail = (s.tyihead + (rest.length + line.length)) % tyIbufLen
  length_le : (rest.length + line.length : Int) ≤ tyIbufLen
  contents : Contents s.tyibuff s.tyihead (rest ++ line)
  cursor_eq : s.tyicursor = line.length
  committed_eq : s.committed = rest.length

namespace TtyBuffer

variable {s : Ttycblk} {rest line : List UInt8} {c : UInt8}

theorem init (tyibuff : Int → UInt8) : TtyBuffer (Ttycblk.init tyibuff) [] [] where
  head_in := show (0 : Int) ≤ 0 ∧ 0 < tyIbufLen by decide
  tail_eq := rfl
  length_le := by decide
  contents := Contents.nil
  cursor_eq := rfl
  committed_eq := rfl

theorem unreadCount_eq (h : TtyBuffer s rest line) :
    s.unreadCount = rest.length + line.length := by
  rw [Ttycblk.unreadCount, h.committed_eq, h.cursor_eq]

theorem tail_in (h : TtyBuffer s rest line) : 0 ≤ s.tyitail ∧ s.tyitail < tyIbufLen := by
  have htail := h.tail_eq
  unfold tyIbufLen at *
  omega

/-- A character put behind the current line. -/
theorem put_contents (h : TtyBuffer s rest line) (hroom : s.unreadCount < tyIbufLen)
    (ch : UInt8) : Contents (s.put ch).tyibuff s.tyihead (rest ++ (line ++ [ch])) := by
  have hlen := h.unreadCount_eq
  have hcontents := h.contents.concat (by rw [List.length_append]; push_cast; omega) ch
  rw [List.length_append, Int.natCast_add, ← h.tail_eq, List.append_assoc] at hcontents
  exact hcontents

/-- The tail behind such a character. -/
theorem put_tail (h : TtyBuffer s rest line) (ch : UInt8) :
    (s.put ch).wrapTail.tyitail =
      (s.tyihead + (rest.length + (line.length + 1))) % tyIbufLen := by
  have hwrap : (s.put ch).wrapTail.tyitail = (s.tyitail + 1) % tyIbufLen := wrap_eq h.tail_in
  have htail := h.tail_eq
  unfold tyIbufLen at *
  omega

theorem kill (h : TtyBuffer s rest line) :
    TtyBuffer { s with
      tyitail := if s.tyitail - s.tyicursor < 0 then s.tyitail - s.tyicursor + tyIbufLen
        else s.tyitail - s.tyicursor
      tyicursor := 0 } rest [] where
  head_in := h.head_in
  tail_eq := by
    have hlen := h.length_le
    rw [h.cursor_eq]
    refine (rollback_eq h.tail_eq ⟨by omega, by omega⟩).trans ?_
    simp
  length_le := by
    have hlen := h.length_le
    simp only [List.length_nil]
    omega
  contents := by
    rw [List.append_nil]
    exact h.contents.left
  cursor_eq := rfl
  committed_eq := h.committed_eq

theorem erase (h : TtyBuffer s rest (line ++ [c])) :
    TtyBuffer { s with tyicursor := s.tyicursor - 1 }.erase1 rest line where
  head_in := h.head_in
  tail_eq := by
    have htail := h.tail_eq
    rw [List.length_append, Int.natCast_add, ← Int.add_assoc (rest.length : Int)] at htail
    exact rollback_eq htail ⟨by decide, by decide⟩
  length_le := by
    have hlen := h.length_le
    rw [List.length_append, List.length_singleton] at hlen
    omega
  contents := by
    have hcontents := h.contents
    rw [← List.append_assoc] at hcontents
    exact hcontents.left
  cursor_eq := by
    have hcursor := h.cursor_eq
    rw [List.length_append, List.length_singleton] at hcursor
    change s.tyicursor - 1 = line.length
    omega
  committed_eq := h.committed_eq

theorem endOfLine (h : TtyBuffer s rest line) (hroom : s.unreadCount < tyIbufLen) (ch : UInt8) :
    TtyBuffer { Ttycblk.signaln (s.tyicursor + 1).toNat (s.put ch).wrapTail with tyicursor := 0 }
      (rest ++ (line ++ [ch])) [] := by
  obtain ⟨hhead, htail, hbuff⟩ :=
    Ttycblk.signaln_frame (s.tyicursor + 1).toNat (s.put ch).wrapTail
  have hlen := h.unreadCount_eq
  refine ⟨?_, ?_, ?_, ?_, rfl, ?_⟩
  · rw [hhead]
    exact h.head_in
  · rw [hhead, htail, h.put_tail]
    simp [Ttycblk.wrapTail, Ttycblk.put]
  · simp only [List.length_append, List.length_singleton, List.length_nil]
    omega
  · rw [hhead, hbuff, List.append_nil]
    exact h.put_contents hroom ch
  · refine (Ttycblk.signaln_committed _ _).trans ?_
    have hcommitted : (s.put ch).wrapTail.committed = rest.length := h.committed_eq
    rw [hcommitted, h.cursor_eq]
    simp only [List.length_append, List.length_singleton]
    omega

theorem eof (h : TtyBuffer s rest []) (hroom : s.unreadCount < tyIbufLen)
    (hlast : s.tyitail ≠ tyIbufLen - 1) (ch : UInt8) :
    TtyBuffer (s.put ch).signal (rest ++ [ch]) [] where
  head_in := h.head_in
  tail_eq := by
    have htail := h.tail_eq
    have hin := h.tail_in
    change s.tyitail + 1 = (s.tyihead + _) % tyIbufLen
    simp only [List.length_append, List.length_singleton, List.length_nil] at *
    unfold tyIbufLen at *
    omega
  length_le := by
    have hlen := h.unreadCount_eq
    simp only [List.length_append, List.length_singleton, List.length_nil] at *
    omega
  contents := by
    rw [List.append_nil]
    exact h.put_contents hroom ch
  cursor_eq := h.cursor_eq
  committed_eq := by
    have hcommitted : (s.put ch).committed = rest.length := h.committed_eq
    rw [Ttycblk.signal_committed, hcommitted]
    simp

theorem ordinary (h : TtyBuffer s rest line) (hroom : s.unreadCount < tyIbufLen) (ch : UInt8) :
    TtyBuffer ({ s with tyicursor := s.tyicursor + 1 }.put ch).wrapTail rest (line ++ [ch]) where
  head_in := h.head_in
  tail_eq := by
    rw [List.length_append, List.length_singleton]
    exact h.put_tail ch
  length_le := by
    have hlen := h.unreadCount_eq
    rw [List.length_append, List.length_singleton]
    omega
  contents := h.put_contents hroom ch
  cursor_eq := by
    rw [List.length_append, List.length_singleton, Int.natCast_add, ← h.cursor_eq]
    rfl
  committed_eq := h.committed_eq

/-- The first character of the buffer is the one that `ttygetc` takes. -/
theorem takeChar (cfg : TtySettings) (h : TtyBuffer s (c :: rest) line) {u : Ttycblk}
    (hu : u.tyihead = s.tyihead ∧ u.tyitail = s.tyitail ∧ u.tyibuff = s.tyibuff ∧
      u.tyicursor = s.tyicursor) (hcommitted : u.committed = s.committed - 1) :
    (u.takeChar cfg).1 = .returned (cfg.asRead c) ∧ TtyBuffer (u.takeChar cfg).2 rest line := by
  obtain ⟨hhead, htail, hbuff, hcursor⟩ := hu
  have hwrap : (u.takeChar cfg).2.tyihead = (s.tyihead + 1) % tyIbufLen := by
    rw [← wrap_eq h.head_in, ← hhead]
    rfl
  have hlen := h.length_le
  rw [List.length_cons] at hlen
  refine ⟨?_, ?_, ?_, ?_, ?_, ?_, ?_⟩
  · change TtyResult.returned (cfg.asRead (u.tyibuff u.tyihead)) = _
    rw [hbuff, hhead, h.contents.front h.head_in]
  · rw [hwrap]
    unfold tyIbufLen
    omega
  · have heq := h.tail_eq
    rw [List.length_cons] at heq
    rw [hwrap]
    change u.tyitail = _
    unfold tyIbufLen at *
    omega
  · omega
  · rw [hwrap]
    change Contents u.tyibuff _ _
    rw [hbuff]
    exact h.contents.behind
  · exact hcursor.trans h.cursor_eq
  · have heq := h.committed_eq
    rw [List.length_cons] at heq
    change u.committed = _
    omega

end TtyBuffer

/-! ## Along a run -/

section Histories

variable {cfg : TtySettings} {tr : List (TtyEvent × TtyResult)} {s s' : Ttycblk}
  {e : TtyEvent} {o : TtyResult} {done rest line : List UInt8}

theorem edited_concat : edited cfg (tr ++ [(e, o)]) = editStep cfg (edited cfg tr) (e, o) := by
  rw [edited, List.foldl_append]
  rfl

theorem returned_concat :
    returned (tr ++ [(e, o)]) = returned tr ++ (returnedBy (e, o)).toList := by
  rw [returned, List.filterMap_append, List.filterMap_cons]
  cases returnedBy (e, o) <;> rfl

/-- After the history `tr` the characters of `done` are returned, those of `rest`
may be read, and `line` is the current line. -/
structure TtyHistory (cfg : TtySettings) (tr : List (TtyEvent × TtyResult))
    (done rest line : List UInt8) : Prop where
  edited_eq : edited cfg tr = ⟨done ++ rest, line⟩
  returned_eq : returned tr = done.map cfg.asRead

namespace TtyHistory

theorem unread_eq (h : TtyHistory cfg tr done rest line) : unread cfg tr = rest ++ line := by
  rw [unread, h.edited_eq, h.returned_eq, List.length_map, List.drop_left]

/-- A step that returns nothing. -/
theorem quiet (h : TtyHistory cfg tr done rest line) (ho : returnedBy (e, o) = none)
    {rest' line' : List UInt8}
    (hedit : editStep cfg ⟨done ++ rest, line⟩ (e, o) = ⟨done ++ rest', line'⟩) :
    TtyHistory cfg (tr ++ [(e, o)]) done rest' line' where
  edited_eq := by rw [edited_concat, h.edited_eq, hedit]
  returned_eq := by rw [returned_concat, ho, h.returned_eq]; exact List.append_nil _

/-- A step that returns the next character. -/
theorem take {c : UInt8} (h : TtyHistory cfg tr done (c :: rest) line)
    (he : e = .getc ∨ e = .resume) (ho : o = .returned (cfg.asRead c)) :
    TtyHistory cfg (tr ++ [(e, o)]) (done ++ [c]) rest line where
  edited_eq := by
    rw [edited_concat, h.edited_eq, List.append_assoc]
    rcases he with rfl | rfl <;> rfl
  returned_eq := by
    subst ho
    rw [returned_concat, h.returned_eq, List.map_append]
    rfl

end TtyHistory

/-- History and buffer belong together. -/
def TtyHolds (cfg : TtySettings) (tr : List (TtyEvent × TtyResult)) (s : Ttycblk) : Prop :=
  ∃ done rest line, TtyHistory cfg tr done rest line ∧ TtyBuffer s rest line

theorem TtyHolds.intact (h : TtyHolds cfg tr s) : ConsoleIntact cfg tr s := by
  obtain ⟨done, rest, line, hhistory, hbuffer⟩ := h
  have hunread := hhistory.unread_eq
  refine ⟨hbuffer.head_in, hbuffer.tail_in, ?_, ?_, ?_⟩
  · rw [hunread, List.length_append, Int.natCast_add]
    exact hbuffer.length_le
  · rw [hunread]
    exact hbuffer.contents
  · rw [hhistory.returned_eq, hhistory.edited_eq, List.map_append]
    exact List.prefix_append _ _

/-- A character that edits the current line, or for which there is room. -/
theorem TtyHolds.char {ch : UInt8} (h : TtyHolds cfg tr s) (hroom : RoomForChar cfg s (.char ch)) :
    TtyHolds cfg (tr ++ [(.char ch, (ttyhandleIn cfg s ch).1)]) (ttyhandleIn cfg s ch).2 := by
  obtain ⟨done, rest, line, hhistory, hbuffer⟩ := h
  have hcursor := hbuffer.cursor_eq
  have hnext {o : TtyResult} {rest' line' : List UInt8} {u : Ttycblk}
      (hedit : Edited.char cfg ⟨done ++ rest, line⟩ ch (o == .full) = ⟨done ++ rest', line'⟩)
      (ho : returnedBy (.char ch, o) = none) (hu : TtyBuffer u rest' line') :
      TtyHolds cfg (tr ++ [(.char ch, o)]) u :=
    ⟨done, rest', line', hhistory.quiet ho hedit, hu⟩
  simp only [ttyhandleIn]
  simp only [RoomForChar] at hroom
  simp only [Edited.char] at hnext
  cases hkind : cfg.kind (cfg.mapped ch) with
  | flow =>
    rw [hkind] at hnext
    exact hnext rfl rfl hbuffer
  | kill =>
    rw [hkind] at hnext
    exact hnext rfl rfl hbuffer.kill
  | erase =>
    rw [hkind] at hnext
    rcases List.eq_nil_or_concat line with rfl | ⟨line, c, rfl⟩
    · have hnone : ¬ 0 < s.tyicursor := by rw [hcursor]; decide
      simp only [if_neg hnone]
      exact hnext rfl rfl hbuffer
    · have hsome : 0 < s.tyicursor := by
        rw [hcursor, List.length_concat]
        omega
      simp only [if_pos hsome]
      rw [List.concat_eq_append] at hbuffer hnext
      exact hnext (by rw [List.dropLast_concat]) rfl hbuffer.erase
  | endOfLine =>
    rw [hkind] at hnext hroom
    exact hnext (by rw [List.append_assoc]) rfl (hbuffer.endOfLine hroom _)
  | eof =>
    rw [hkind] at hnext hroom
    cases hfull : s.full with
    | true => exact hnext rfl rfl hbuffer
    | false =>
      cases line with
      | nil =>
        obtain ⟨hlt, hlast⟩ := hroom hfull hcursor
        have hzero : ¬ s.tyicursor ≠ 0 := not_not_intro hcursor
        simp only [if_neg hzero]
        exact hnext (congrArg (Edited.mk · []) (List.append_assoc done rest _)) rfl
          (hbuffer.eof hlt hlast _)
      | cons c line =>
        have hsome : s.tyicursor ≠ 0 := by
          rw [hcursor, List.length_cons]
          omega
        simp only [if_pos hsome]
        exact hnext rfl rfl hbuffer
  | ordinary =>
    rw [hkind] at hnext hroom
    cases hfull : s.full with
    | true => exact hnext rfl rfl hbuffer
    | false => exact hnext rfl rfl (hbuffer.ordinary (hroom hfull) _)

theorem TtyHolds.take {u : Ttycblk} (h : TtyHolds cfg tr s) (he : e = .getc ∨ e = .resume)
    (hu : u.tyihead = s.tyihead ∧ u.tyitail = s.tyitail ∧ u.tyibuff = s.tyibuff ∧
      u.tyicursor = s.tyicursor)
    (hsome : 0 < s.committed) (hcommitted : u.committed = s.committed - 1) :
    TtyHolds cfg (tr ++ [(e, (u.takeChar cfg).1)]) (u.takeChar cfg).2 := by
  obtain ⟨done, rest, line, hhistory, hbuffer⟩ := h
  cases rest with
  | nil =>
    rw [hbuffer.committed_eq] at hsome
    exact absurd hsome (by decide)
  | cons c rest =>
    obtain ⟨hresult, hnext⟩ := hbuffer.takeChar cfg hu hcommitted
    exact ⟨done ++ [c], rest, line, hhistory.take he hresult, hnext⟩

/-- What a step does to history and buffer. -/
theorem TtyHolds.step (h : TtyHolds cfg tr s) (hs : ttyStep cfg s e = .ok (o, s'))
    (hroom : RoomForChar cfg s e) : TtyHolds cfg (tr ++ [(e, o)]) s' := by
  cases e with
  | char ch =>
    obtain ⟨rfl, rfl⟩ := Prod.mk.inj (Except.ok.inj hs)
    exact h.char hroom
  | getc =>
    rw [ttyStep] at hs
    split at hs
    · rename_i hpos
      obtain ⟨rfl, rfl⟩ := Prod.mk.inj (Except.ok.inj hs)
      refine h.take (.inl rfl) ⟨rfl, rfl, rfl, rfl⟩ ?_ ?_
      · unfold Ttycblk.committed
        omega
      · unfold Ttycblk.committed
        dsimp only
        omega
    · rename_i hblock
      obtain ⟨rfl, rfl⟩ := Prod.mk.inj (Except.ok.inj hs)
      obtain ⟨done, rest, line, hhistory, hbuffer⟩ := h
      refine ⟨done, rest, line, hhistory.quiet rfl rfl, { hbuffer with committed_eq := ?_ }⟩
      rw [← hbuffer.committed_eq]
      unfold Ttycblk.committed
      dsimp only
      omega
  | resume =>
    rw [ttyStep] at hs
    split at hs
    · rename_i hwoken
      obtain ⟨rfl, rfl⟩ := Prod.mk.inj (Except.ok.inj hs)
      refine h.take (.inr rfl) ⟨rfl, rfl, rfl, rfl⟩ ?_ ?_
      · unfold Ttycblk.committed
        omega
      · unfold Ttycblk.committed
        dsimp only
        omega
    · cases hs

/-- A 129th unread character. -/
theorem TtyHistory.overfull {u : Ttycblk} (h : TtyHistory cfg tr done rest line)
    (hfull : tyIbufLen < rest.length + line.length) : ¬ ConsoleIntact cfg tr u := by
  intro hintact
  have hle := hintact.length_le
  rw [h.unread_eq, List.length_append, Int.natCast_add] at hle
  omega

/-- A character that is stored without room for it does harm. -/
theorem TtyHolds.not_intact {ch : UInt8} (h : TtyHolds cfg tr s)
    (hroom : ¬ RoomForChar cfg s (.char ch)) :
    ¬ ConsoleIntact cfg (tr ++ [(.char ch, (ttyhandleIn cfg s ch).1)])
      (ttyhandleIn cfg s ch).2 := by
  obtain ⟨done, rest, line, hhistory, hbuffer⟩ := h
  have hcursor := hbuffer.cursor_eq
  have hcount := hbuffer.unreadCount_eq
  have hover {o : TtyResult} {rest' line' : List UInt8} {u : Ttycblk}
      (hedit : Edited.char cfg ⟨done ++ rest, line⟩ ch (o == .full) = ⟨done ++ rest', line'⟩)
      (ho : returnedBy (.char ch, o) = none) (hfull : tyIbufLen < rest'.length + line'.length) :
      ¬ ConsoleIntact cfg (tr ++ [(.char ch, o)]) u :=
    (hhistory.quiet ho hedit).overfull hfull
  simp only [ttyhandleIn]
  simp only [RoomForChar] at hroom
  simp only [Edited.char] at hover
  cases hkind : cfg.kind (cfg.mapped ch) with
  | flow => rw [hkind] at hroom; exact absurd trivial hroom
  | kill => rw [hkind] at hroom; exact absurd trivial hroom
  | erase => rw [hkind] at hroom; exact absurd trivial hroom
  | endOfLine =>
    rw [hkind] at hroom hover
    refine hover (by rw [List.append_assoc]) rfl ?_
    simp only [List.length_append, List.length_singleton, List.length_nil]
    omega
  | eof =>
    rw [hkind] at hroom hover
    simp only [Classical.not_imp, not_and_or, not_not] at hroom
    obtain ⟨hfull, hzero, hbad⟩ := hroom
    obtain rfl : line = [] := List.eq_nil_of_length_eq_zero (by omega)
    have hstart : ¬ s.tyicursor ≠ 0 := not_not_intro hzero
    simp only [hfull, if_neg hstart]
    rcases hbad with hfull | hlast
    · refine hover (congrArg (Edited.mk · []) (List.append_assoc done rest _)) rfl ?_
      simp only [List.length_append, List.length_singleton, List.length_nil] at *
      omega
    · intro hintact
      have htail : s.tyitail + 1 < tyIbufLen := hintact.tail_in.2
      omega
  | ordinary =>
    rw [hkind] at hroom hover
    simp only [Classical.not_imp] at hroom
    obtain ⟨hfull, hbad⟩ := hroom
    simp only [hfull]
    refine hover rfl rfl ?_
    simp only [List.length_append, List.length_singleton]
    omega

/-- Along every run the console input is intact exactly as long as each stored
character finds room. -/
theorem console_intact_iff (cfg : TtySettings) (tyibuff : Int → UInt8)
    (h : Run (ttyStep cfg) (Ttycblk.init tyibuff) tr s) :
    AllStates (ttyStep cfg) (Ttycblk.init tyibuff) (ConsoleIntact cfg) tr ↔
      AllSteps (ttyStep cfg) (Ttycblk.init tyibuff) (fun s e _ => RoomForChar cfg s e) tr := by
  refine allStates_iff_allSteps (I := TtyHolds cfg) ?_ ?_ (fun _ _ => TtyHolds.intact) ?_ h
  · exact ⟨[], [], [], ⟨rfl, rfl⟩, TtyBuffer.init tyibuff⟩
  · exact fun _ _ _ _ _ hholds hs hroom => hholds.step hs hroom
  · intro tr s e o s' hholds hs hroom
    cases e with
    | char ch =>
      obtain ⟨rfl, rfl⟩ := Prod.mk.inj (Except.ok.inj hs)
      exact hholds.not_intact hroom
    | getc => exact absurd trivial hroom
    | resume => exact absurd trivial hroom

end Histories

/-- There is room for any character where no pointer is near the end. -/
theorem roomForChar_of_lt {cfg : TtySettings} {s : Ttycblk} (e : TtyEvent)
    (h : s.unreadCount < tyIbufLen ∧ s.tyitail ≠ tyIbufLen - 1) : RoomForChar cfg s e := by
  cases e with
  | char ch =>
    simp only [RoomForChar]
    cases cfg.kind (cfg.mapped ch) with
    | endOfLine => exact h.1
    | eof => exact fun _ _ => h
    | ordinary => exact fun _ => h.1
    | flow => exact trivial
    | kill => exact trivial
    | erase => exact trivial
  | getc => exact trivial
  | resume => exact trivial

/-- `h` and newline are typed and one character is read. -/
theorem console_intact_short_line : ∃ os s,
    Run (ttyStep ttyinitSettings) (Ttycblk.init fun _ => 0)
      ([.char 104, .char tyNewline, .getc].zip os) s ∧
    AllStates (ttyStep ttyinitSettings) (Ttycblk.init fun _ => 0) (ConsoleIntact ttyinitSettings)
      ([.char 104, .char tyNewline, .getc].zip os) := by
  obtain ⟨os, s, hrun, hlen, -⟩ := run_of_endsIn (show endsIn (ttyStep ttyinitSettings)
    (Ttycblk.init fun _ => 0) [.char 104, .char tyNewline, .getc] (fun _ _ => true) = true by
    decide)
  refine ⟨os, s, hrun, (console_intact_iff _ _ hrun).mpr ?_⟩
  refine allSteps_of_stepsPass ?_ fun s e hcheck => roomForChar_of_lt e (of_decide_eq_true hcheck)
  rw [hlen]
  decide

/-- 127 empty lines are typed, one character is read, and an end-of-file character
arrives. -/
def emptyLinesThenEof : List TtyEvent := List.replicate 127 (.char tyNewline) ++ [.getc, .char 4]

/-- The end-of-file character goes into the last slot. -/
theorem console_tail_leaves_buffer : ∃ os s,
    Run (ttyStep ttyinitSettings) (Ttycblk.init fun _ => 0)
      (emptyLinesThenEof.zip os) s ∧
    ¬ AllStates (ttyStep ttyinitSettings) (Ttycblk.init fun _ => 0) (ConsoleIntact ttyinitSettings)
      (emptyLinesThenEof.zip os) := by
  obtain ⟨os, s, hrun, -, hcheck⟩ := run_of_endsIn (show endsIn (ttyStep ttyinitSettings)
    (Ttycblk.init fun _ => 0) emptyLinesThenEof
    (fun _ s => decide (s.tyitail = tyIbufLen)) = true by decide +kernel)
  refine ⟨os, s, hrun, fun hall => ?_⟩
  have hin := (hall _ s (List.prefix_refl _) hrun).tail_in.2
  rw [of_decide_eq_true hcheck] at hin
  exact absurd hin (by decide)

end NatBox
