import NatBox.LocalFiles.Opening

/-
Every call on local files against the one of the store.

A call on a pseudo-device that has no file changes nothing.  Before the first `lfsopen` the
directory is not in memory yet: `Absent` says that the disk alone has the files.
-/

namespace NatBox

open Function Chain Lfs LocalFiles

namespace Lfs

/-- The pseudo-device that a call is for. -/
def LfEvent.device : LfEvent → Option (Fin nlfl)
  | .opens _ _ => none
  | .close d => some d
  | .read d _ => some d
  | .write d _ _ => some d
  | .getc d => some d
  | .putc d _ => some d
  | .seek d _ => some d
  | .control d _ => some d

end Lfs

namespace LocalFiles

/-! ## What a call does to the directory -/

/-- The state behind `loadDir`. -/
def obtained (s : LocalFiles) : LocalFiles :=
  match s.loadDir with
  | .ok (_, s) => s
  | .error _ => s

/-- The call creates a file. -/
def creates (s : LocalFiles) : LfEvent → Bool
  | .opens name mode => (s.openDevice name mode).any fun p => s.obtained.newName name p.1
  | _ => false

/-- The call gives a file another size. -/
def resizes (s : LocalFiles) : LfEvent → Bool
  | .putc d _ => (s.lfltab d).used && decide ((s.lfltab d).lfpos = (s.ldptr d).ld_size)
  | .write d _ count => (s.lfltab d).used && decide (0 < count) &&
    decide (((s.ldptr d).ld_size : Int) < (s.lfltab d).lfpos + count)
  | .control d func => (s.lfltab d).used && decide (func = lfCtlTrunc) &&
    decide ((s.ldptr d).ld_size ≠ 0)
  | _ => false

/-- The directory counts as changed behind a call that gives a file another size, and not behind
one that closes a file.  A new entry does not make it count so. -/
structure Effect (s : LocalFiles) (e : LfEvent) (s' : LocalFiles) : Prop where
  resized : s.resizes e = true → s'.lf_dirdirty = true
  created : s.creates e = true → Created s s'
  still : s.resizes e = false → s.creates e = false → Still s s'
  closed : ∀ d, e = .close d → (s.lfltab d).used = true → s'.lf_dirdirty = false

end LocalFiles

namespace Store

variable {st : Store} {d : Fin nlfl} {i pos pos' : Nat} {bs bs' : List UInt8}

theorem put_self (hd : st.opened d = some (i, pos)) : st.put d i (st.bytes i) pos = st := by
  unfold put
  rw [update_eq_self, ← hd, update_eq_self]

theorem moveTo_self (hd : st.opened d = some (i, pos)) : st.moveTo d i pos = st := by
  unfold moveTo
  rw [← hd, update_eq_self]

theorem put_put : (st.put d i bs pos).put d i bs' pos' = st.put d i bs' pos' := by
  unfold put
  dsimp only
  rw [update_idem, update_idem]

theorem moveTo_moveTo : (st.moveTo d i pos).moveTo d i pos' = st.moveTo d i pos' := by
  unfold moveTo
  dsimp only
  rw [update_idem]

end Store

/-! ## Effects -/

section Effects

variable {s : LocalFiles} {st : Store} {d : Fin nlfl}

/-! One round of the loop of `lflread`, by what `lflgetc` returns. -/

section ReadRound

variable {s₁ : LocalFiles} {b : UInt8}

theorem lflreadLoop_byte (h : s.lflgetc d = .ok (.byte b, s₁)) (rounds : Nat)
    (buff : List UInt8) :
    lflreadLoop d (rounds + 1) buff s = lflreadLoop d rounds (buff ++ [b]) s₁ := by
  change (s.lflgetc d >>= _) = _
  rw [h]
  rfl

theorem lflreadLoop_eof (h : s.lflgetc d = .ok (.eof, s₁)) (rounds : Nat) (buff : List UInt8) :
    lflreadLoop d (rounds + 1) buff s =
      .ok (if buff = [] then .eof else .bytes buff, s₁) := by
  change (s.lflgetc d >>= _) = _
  rw [h]
  rfl

theorem lflreadLoop_syserr (h : s.lflgetc d = .ok (.syserr, s₁)) (rounds : Nat)
    (buff : List UInt8) : lflreadLoop d (rounds + 1) buff s = .ok (.syserr, s₁) := by
  change (s.lflgetc d >>= _) = _
  rw [h]
  rfl

end ReadRound

theorem lflread_closed (hused : (s.lfltab d).used = false) (hd : st.opened d = none) (count : Int) :
    s.lflread d count = .ok ((st.read d count).1, s) ∧ (st.read d count).2 = st := by
  unfold lflread Store.read Store.call
  rw [hd]
  split
  · exact ⟨rfl, rfl⟩
  · cases hrounds : count.toNat with
    | zero =>
      rw [if_pos (show count = 0 by omega)]
      exact ⟨rfl, rfl⟩
    | succ rounds =>
      have hget : s.lflgetc d = .ok (.syserr, s) := by
        rw [lflgetc, hused]
        rfl
      rw [if_neg (show ¬ count = 0 by omega), lflreadLoop_syserr hget]
      exact ⟨rfl, rfl⟩

theorem lflwrite_closed (hused : (s.lfltab d).used = false) (hd : st.opened d = none)
    (buff : Nat → UInt8) (count : Int) :
    s.lflwrite d buff count = .ok ((st.write d buff count).1, s) ∧
      (st.write d buff count).2 = st := by
  unfold lflwrite Store.write Store.call
  rw [hd]
  split
  · exact ⟨rfl, rfl⟩
  · cases hrounds : count.toNat with
    | zero =>
      rw [if_pos (show count = 0 by omega)]
      exact ⟨rfl, rfl⟩
    | succ rounds =>
      rw [if_neg (show ¬ count = 0 by omega), lflwriteLoop, lflputc, hused]
      exact ⟨rfl, rfl⟩

/-- A call on a pseudo-device without a file. -/
theorem step_closed (hused : (s.lfltab d).used = false) (hd : st.opened d = none) {e : LfEvent}
    (he : e.device = some d) : s.step e = .ok ((st.step e).1, s) ∧ (st.step e).2 = st := by
  cases e with
  | opens name mode => cases he
  | close d' =>
    obtain rfl := Option.some.inj he
    simp [step, lflclose, hused, Store.step, Store.close, Store.call, hd]
  | read d' count =>
    obtain rfl := Option.some.inj he
    exact lflread_closed hused hd count
  | write d' buff count =>
    obtain rfl := Option.some.inj he
    exact lflwrite_closed hused hd buff count
  | getc d' =>
    obtain rfl := Option.some.inj he
    simp [step, lflgetc, hused, Store.step, Store.getc, Store.call, hd]
  | putc d' ch =>
    obtain rfl := Option.some.inj he
    simp [step, lflputc, hused, Store.step, Store.putc, Store.call, hd]
  | seek d' offset =>
    obtain rfl := Option.some.inj he
    simp [step, lflseek, hused, Store.step, Store.seek, Store.call, hd]
  | control d' func =>
    obtain rfl := Option.some.inj he
    simp [step, lflcontrol, hused, Store.step, Store.control, Store.call, hd]

theorem effect_closed (hused : (s.lfltab d).used = false) {e : LfEvent} (he : e.device = some d) :
    Effect s e s := by
  have hresizes : s.resizes e = false := by
    cases e <;> cases he <;> simp [resizes, hused]
  have hcreates : s.creates e = false := by
    cases e <;> first | rfl | cases he
  refine ⟨fun hres => ?_, fun hcre => ?_, fun _ _ => Still.refl s, fun d' hclose hd' => ?_⟩
  · rw [hresizes] at hres
    cases hres
  · rw [hcreates] at hcre
    cases hcre
  · rw [hclose] at he
    obtain rfl := Option.some.inj he
    rw [hused] at hd'
    cases hd'

theorem effect_of_marks {e : LfEvent} {p : Prop} {s' : LocalFiles} (hmarks : Marks p s s')
    (he : e.device = some d) (hclose : e ≠ .close d) (hp : s.resizes e = true ↔ p) :
    Effect s e s' := by
  have hcreates : s.creates e = false := by
    cases e <;> first | rfl | cases he
  refine ⟨fun hres => hmarks.marked (hp.mp hres), fun hcre => ?_, fun hres _ => ?_,
    fun d' heq _ => ?_⟩
  · rw [hcreates] at hcre
    cases hcre
  · refine hmarks.still fun hpos => ?_
    rw [hp.mpr hpos] at hres
    cases hres
  · rw [heq] at he
    exact absurd (Option.some.inj he ▸ heq) hclose

theorem effect_of_still {e : LfEvent} {s' : LocalFiles} (hstill : Still s s')
    (he : e.device = some d) (hclose : e ≠ .close d) (hres : s.resizes e = false) :
    Effect s e s' := by
  refine effect_of_marks (p := False) ⟨fun hfalse => hfalse.elim, fun _ => hstill⟩ he hclose ?_
  rw [hres]
  simp

end Effects

namespace Refines

variable {ibsectors : Nat} {st : Store} {s : LocalFiles} {L : Layout} {d : Fin nlfl} {i pos : Nat}

/-! ## Many bytes -/

/-- The bytes are put one by one.  Once one of them is behind the end, so are those that follow. -/
theorem lflwriteLoop_spec (buff : Nat → UInt8) (rounds k : Nat)
    (h : Refines ibsectors st s L) (hd : st.opened d = some (i, pos)) :
    Simulates ibsectors s (lflwriteLoop d buff rounds k s)
      (.count (k + rounds), st.put d i
        (writeAt (st.bytes i) pos ((List.range' k rounds).map buff)) (pos + rounds))
      fun s' => (rounds = 0 → s' = s) ∧
        Marks (0 < rounds ∧ (st.bytes i).length < pos + rounds) s s' := by
  induction rounds generalizing k pos st s L with
  | zero =>
    rw [List.range'_zero, List.map_nil, writeAt_nil, Nat.add_zero, Nat.add_zero,
      Store.put_self hd]
    exact .inr ⟨s, L, rfl, h, rfl, fun _ => rfl, fun hmore => absurd hmore.1 (Nat.lt_irrefl 0),
      fun _ => Still.refl s⟩
  | succ rounds ih =>
    have hle := (h.opened d i pos hd).pos_le
    have hput := Store.putc_eq hd (buff k)
    have hcons : writeAt (st.bytes i) pos ((List.range' k (rounds + 1)).map buff) =
        writeAt (putAt (st.bytes i) pos (buff k)) (pos + 1)
          ((List.range' (k + 1) rounds).map buff) := by
      rw [List.range'_succ, List.map_cons, writeAt_cons hle]
    have hlen : (putAt (st.bytes i) pos (buff k)).length = max (pos + 1) (st.bytes i).length :=
      length_putAt hle
    rw [lflwriteLoop, hcons]
    rcases h.lflputc_spec hd (buff k) with ⟨f, hpanic, hfits⟩ |
      ⟨s₁, L₁, hok, h₁, hn₁, hmarks₁⟩
    · refine .inl ⟨f, by rw [hpanic]; rfl, fun hfits' => hfits (hfits'.mono ?_ fun i' => ?_)⟩
      · rw [hput]
        rfl
      · rw [hput]
        show (update st.bytes i _ i').length ≤ (update st.bytes i _ i').length
        by_cases hii : i' = i
        · have hle' : pos + 1 ≤ (putAt (st.bytes i) pos (buff k)).length := by
            rw [hlen]
            exact Nat.le_max_left _ _
          rw [hii, update_self, update_self, length_writeAt hle']
          exact Nat.le_max_right _ _
        · rw [update_of_ne hii, update_of_ne hii]
    · rw [hput] at h₁ hok
      have hd₁ : (st.put d i (putAt (st.bytes i) pos (buff k)) (pos + 1)).opened d =
          some (i, pos + 1) := update_self _ _ _
      have hbytes : (st.put d i (putAt (st.bytes i) pos (buff k)) (pos + 1)).bytes i =
          putAt (st.bytes i) pos (buff k) := update_self _ _ _
      have hrest := ih (k + 1) h₁ hd₁
      rw [Store.put_put, hbytes, hlen, show k + 1 + rounds = k + (rounds + 1) by omega,
        show pos + 1 + rounds = pos + (rounds + 1) by omega] at hrest
      rw [hok, ok_bind]
      rcases hrest with ⟨f, hpanic, hfits⟩ | ⟨s', L', hok', h', hn', hsame, hmarks⟩
      · exact .inl ⟨f, hpanic, hn₁ ▸ hfits⟩
      · refine .inr ⟨s', L', hok', h', hn'.trans hn₁,
          fun hzero => absurd hzero (Nat.succ_ne_zero _), fun hmore => ?_, fun hwithin => ?_⟩
        · rcases Nat.eq_zero_or_pos rounds with hzero | hpos
          · rw [hsame hzero]
            exact hmarks₁.marked (by omega)
          · exact hmarks.marked ⟨hpos, by omega⟩
        · have hlt : pos + (rounds + 1) ≤ (st.bytes i).length :=
            Nat.not_lt.mp fun hlt => hwithin ⟨Nat.succ_pos _, hlt⟩
          exact (hmarks₁.still (by omega)).trans (hmarks.still (by omega))

/-- The bytes are got one by one, until the end of the file. -/
theorem lflreadLoop_spec (rounds : Nat) (buff : List UInt8) (h : Refines ibsectors st s L)
    (hd : st.opened d = some (i, pos)) :
    Yields ibsectors s (lflreadLoop d rounds buff s)
      (if buff ++ ((st.bytes i).drop pos).take rounds = [] ∧ 0 < rounds then .eof
        else .bytes (buff ++ ((st.bytes i).drop pos).take rounds),
        st.moveTo d i (pos + (((st.bytes i).drop pos).take rounds).length)) (Still s) := by
  induction rounds generalizing buff pos st s L with
  | zero =>
    rw [List.take_zero, List.append_nil, List.length_nil, Nat.add_zero, Store.moveTo_self hd,
      if_neg (fun hmore => absurd hmore.2 (Nat.lt_irrefl 0))]
    exact ⟨s, L, rfl, h, rfl, Still.refl s⟩
  | succ rounds ih =>
    obtain ⟨s₁, L₁, hok, h₁, hn₁, hstill₁⟩ := h.lflgetc_spec hd
    rw [Store.getc_eq hd] at hok h₁
    rcases Nat.lt_or_ge pos (st.bytes i).length with hlt | hge
    · rw [List.getElem?_eq_getElem hlt] at hok h₁
      rw [lflreadLoop_byte hok]
      change Refines ibsectors (st.moveTo d i (pos + 1)) s₁ L₁ at h₁
      have hd₁ : (st.moveTo d i (pos + 1)).opened d = some (i, pos + 1) := update_self _ _ _
      have hrest := ih (buff ++ [(st.bytes i)[pos]]) h₁ hd₁
      have hmore : ((st.bytes i).drop pos).take (rounds + 1) =
          (st.bytes i)[pos] :: ((st.bytes i).drop (pos + 1)).take rounds := by
        rw [List.drop_eq_getElem_cons hlt, List.take_succ_cons]
      rw [List.append_assoc, List.singleton_append, if_neg (by simp), Store.moveTo_moveTo,
        Nat.add_assoc, Nat.add_comm 1] at hrest
      have hany : ¬ (buff ++ (st.bytes i)[pos] :: ((st.bytes i).drop (pos + 1)).take rounds = [] ∧
          0 < rounds + 1) := by simp
      rw [hmore, if_neg hany, List.length_cons]
      obtain ⟨s', L', hok', h', hn', hstill'⟩ := hrest
      exact ⟨s', L', hok', h', hn'.trans hn₁, hstill₁.trans hstill'⟩
    · rw [List.getElem?_eq_none hge] at hok h₁
      rw [lflreadLoop_eof hok]
      have hmove : st.moveTo d i (pos + ([] : List UInt8).length) = st := Store.moveTo_self hd
      rw [List.drop_eq_nil_of_le hge, List.take_nil, List.append_nil, hmove]
      refine ⟨s₁, L₁, ?_, h₁, hn₁, hstill₁⟩
      have hcond : (buff = [] ∧ 0 < rounds + 1) ↔ buff = [] := and_iff_left (Nat.succ_pos _)
      simp only [hcond]

/-! ## All calls -/

theorem obtained_eq (h : Refines ibsectors st s L) : s.obtained = s := by
  unfold obtained loadDir
  rw [h.present]
  rfl

section Opened

variable (h : Refines ibsectors st s L) (hd : st.opened d = some (i, pos))
include h hd

theorem putc_step (ch : UInt8) :
    Simulates ibsectors s (s.lflputc d ch) (st.putc d ch) (Effect s (.putc d ch)) := by
  have hopen := h.opened d i pos hd
  have hres : s.resizes (.putc d ch) = true ↔ pos = (st.bytes i).length := by
    rw [resizes, hopen.used, hopen.pos_eq, h.ldptr_size hd, Bool.true_and, decide_eq_true_iff]
  rcases h.lflputc_spec hd ch with hpanic | ⟨s', L', hok, h', hn', hmarks⟩
  · exact .inl hpanic
  · exact .inr ⟨s', L', hok, h', hn', effect_of_marks hmarks rfl (by simp) hres⟩

theorem write_step (buff : Nat → UInt8) (count : Int) :
    Simulates ibsectors s (s.lflwrite d buff count) (st.write d buff count)
      (Effect s (.write d buff count)) := by
  have hopen := h.opened d i pos hd
  have hres : s.resizes (.write d buff count) = true ↔
      0 < count.toNat ∧ (st.bytes i).length < pos + count.toNat := by
    rw [resizes, hopen.used, hopen.pos_eq, h.ldptr_size hd, Bool.true_and, Bool.and_eq_true,
      decide_eq_true_iff, decide_eq_true_iff]
    omega
  rw [lflwrite, Store.write]
  split
  · next hneg =>
    refine .inr ⟨s, L, rfl, h, rfl, effect_of_still (Still.refl s) rfl (by simp) ?_⟩
    refine Bool.eq_false_iff.mpr fun hresized => ?_
    have hpos := (hres.mp hresized).1
    omega
  · have hwrite := h.lflwriteLoop_spec buff count.toNat 0 hd
    rw [Nat.zero_add, ← List.range_eq_range'] at hwrite
    rw [Store.call_of_opened hd]
    rcases hwrite with hpanic | ⟨s', L', hok, h', hn', -, hmarks⟩
    · exact .inl hpanic
    · exact .inr ⟨s', L', hok, h', hn', effect_of_marks hmarks rfl (by simp) hres⟩

theorem read_step (count : Int) :
    Yields ibsectors s (s.lflread d count) (st.read d count) (Effect s (.read d count)) := by
  rw [lflread, Store.read]
  split
  · exact ⟨s, L, rfl, h, rfl, effect_of_still (Still.refl s) rfl (by simp) rfl⟩
  · have hcond : ∀ bs : List UInt8, (bs = [] ∧ 0 < count.toNat) ↔ bs = [] ∧ 0 < count :=
      fun bs => and_congr_right fun _ => by omega
    obtain ⟨s', L', hok, h', hn', hstill⟩ := h.lflreadLoop_spec count.toNat [] hd
    rw [List.nil_append] at hok
    simp only [hcond] at hok
    rw [Store.call_of_opened hd]
    exact ⟨s', L', hok, h', hn', effect_of_still hstill rfl (by simp) rfl⟩

theorem control_step (func : Int) :
    Yields ibsectors s (s.lflcontrol d func) (st.control d func) (Effect s (.control d func)) := by
  have hopen := h.opened d i pos hd
  rw [lflcontrol, hopen.used, if_neg (by simp), Store.control, Store.call_of_opened hd]
  by_cases hfunc : func = lfCtlTrunc
  · rw [if_pos hfunc, if_pos hfunc]
    obtain ⟨s', L', hok, h', hn', hmarks⟩ := h.lftruncate_spec hd
    refine ⟨s', L', hok, h', hn', effect_of_marks hmarks rfl (by simp) ?_⟩
    rw [resizes, hopen.used, hfunc, h.ldptr_size hd]
    simp
  · rw [if_neg hfunc, if_neg hfunc]
    refine ⟨s, L, rfl, h, rfl, effect_of_still (Still.refl s) rfl (by simp) ?_⟩
    rw [resizes, decide_eq_false hfunc, Bool.and_false, Bool.false_and]

theorem close_step :
    Yields ibsectors s (s.lflclose d) (st.close d) (Effect s (.close d)) := by
  obtain ⟨s', L', hok, h', hn', hstill, hclean⟩ := h.lflclose_spec hd
  rw [Store.close, Store.call_of_opened hd]
  exact ⟨s', L', hok, h', hn', fun hres => (by cases hres), fun hcre => (by cases hcre),
    fun _ _ => hstill, fun _ _ _ => hclean⟩

end Opened

theorem open_step (h : Refines ibsectors st s L) (name mode : List Char) :
    Yields ibsectors s (s.lfsopen name mode) (st.opens name mode)
      (Effect s (.opens name mode)) := by
  obtain ⟨s', L', hok, h', hn', henters⟩ := h.lfsopen_spec name mode
  refine ⟨s', L', hok, h', hn', fun hres => (by cases hres), fun hcre => ?_, fun _ hold => ?_,
    fun d hclose => (by cases hclose)⟩
  · rw [creates, h.obtained_eq] at hcre
    exact henters.created hcre
  · rw [creates, h.obtained_eq] at hold
    exact henters.still hold

theorem step_spec (h : Refines ibsectors st s L) (e : LfEvent) :
    Simulates ibsectors s (s.step e) (st.step e) (Effect s e) := by
  cases hdev : e.device with
  | none =>
    cases e with
    | opens name mode => exact .inr (h.open_step name mode)
    | _ => cases hdev
  | some d =>
    cases hd : st.opened d with
    | none =>
      have hused := h.closed d hd
      obtain ⟨hok, hst⟩ := step_closed hused hd hdev
      refine .inr ⟨s, L, hok, ?_, rfl, effect_closed hused hdev⟩
      rw [hst]
      exact h
    | some p =>
      cases e with
      | opens name mode => cases hdev
      | close d =>
        obtain rfl := Option.some.inj hdev
        exact .inr (h.close_step hd)
      | read d count =>
        obtain rfl := Option.some.inj hdev
        exact .inr (h.read_step hd count)
      | write d buff count =>
        obtain rfl := Option.some.inj hdev
        exact h.write_step hd buff count
      | getc d =>
        obtain rfl := Option.some.inj hdev
        obtain ⟨s', L', hok, h', hn', hstill⟩ := h.lflgetc_spec hd
        exact .inr ⟨s', L', hok, h', hn', effect_of_still hstill rfl (by simp) rfl⟩
      | putc d ch =>
        obtain rfl := Option.some.inj hdev
        exact h.putc_step hd ch
      | seek d offset =>
        obtain rfl := Option.some.inj hdev
        obtain ⟨s', L', hok, h', hn', hstill⟩ := h.lflseek_spec hd offset
        exact .inr ⟨s', L', hok, h', hn', effect_of_still hstill rfl (by simp) rfl⟩
      | control d func =>
        obtain rfl := Option.some.inj hdev
        exact .inr (h.control_step hd func)

end Refines

end NatBox
