import NatBox.Shell.Outcomes

/-
Which lines the shell takes.

`Tokens` says which tokens a text is made of; `lexan` refuses some of those texts.  `Accepted`
is the rest of the syntax: there are at most `SHELL_MAXTOK` tokens, nothing follows the last
if there are as many, and a word has a blank or an ampersand behind it unless the line ends.
`lexan_row` says that `lexan` takes exactly these, and `shellRound_understands` what the shell
then does with a line.
-/

namespace NatBox

open CString

/-- Behind a word there is no quote and no redirection. -/
def ShToken.Apart (rest : List UInt8) : ShToken → Prop
  | operator _ _ => True
  | quoted _ _ => True
  | word _ => ∀ ch ∈ rest.head?, isQuote ch = false ∧ ch ≠ shLess ∧ ch ≠ shGreater

/-- The text is made of the tokens, of which there may be `room`. -/
inductive Accepted : Nat → List UInt8 → List ShToken → Prop
  | nil {room : Nat} : Accepted room [] []
  | blanks {room : Nat} {text : List UInt8} :
      (∀ ch ∈ text, isBlank ch = true) → Accepted (room + 1) text []
  | token {room : Nat} {blanks text : List UInt8} {t : ShToken} {ts : List ShToken} :
      (∀ ch ∈ blanks, isBlank ch = true) → t.InFrontOf text → t.Apart text →
      Accepted room text ts → Accepted (room + 1) (blanks ++ (t.source ++ text)) (t :: ts)

theorem Tokens.blanks_append {blanks text : List UInt8} {ts : List ShToken}
    (hblanks : ∀ ch ∈ blanks, isBlank ch = true) (h : Tokens text ts) :
    Tokens (blanks ++ text) ts := by
  induction blanks with
  | nil => exact h
  | cons ch blanks ih =>
    exact .blank (hblanks ch List.mem_cons_self)
      (ih fun c hc => hblanks c (List.mem_cons_of_mem ch hc))

/-- Where there is no token there are only blanks. -/
theorem Tokens.all_blank {text : List UInt8} (h : Tokens text []) :
    ∀ ch ∈ text, isBlank ch = true := by
  generalize hts : ([] : List ShToken) = ts at h
  induction h with
  | nil => nofun
  | blank hblank _ ih =>
    intro c hc
    rcases List.mem_cons.mp hc with rfl | hc
    · exact hblank
    · exact ih hts c hc
  | token _ _ _ => cases hts

theorem Accepted.tokens {room : Nat} {text : List UInt8} {ts : List ShToken}
    (h : Accepted room text ts) : Tokens text ts := by
  induction h with
  | nil => exact .nil
  | blanks hblanks =>
    have := Tokens.nil.blanks_append hblanks
    rwa [List.append_nil] at this
  | token hblanks hwhole _ _ ih => exact (Tokens.token hwhole ih).blanks_append hblanks

theorem Accepted.length_le {room : Nat} {text : List UInt8} {ts : List ShToken}
    (h : Accepted room text ts) : ts.length ≤ room := by
  induction h with
  | nil => exact Nat.zero_le _
  | blanks _ => exact Nat.zero_le _
  | token _ _ _ _ ih => exact Nat.succ_le_succ ih

/-! ## One token -/

variable {s : Lexan} {ch stop : UInt8} {ahead rest : List UInt8} (after : List UInt8)
  {t : ShToken}

/-- A whole token does not begin with a blank. -/
theorem ShToken.source_head (h : t.InFrontOf rest) :
    ∃ d ds, t.source = d :: ds ∧ isBlank d = false := by
  cases t with
  | operator typ ch =>
    refine ⟨ch, [], rfl, ?_⟩
    have hop : operatorType ch = some typ := h
    cases hblank : isBlank ch with
    | false => rfl
    | true =>
      unfold isBlank at hblank
      rw [Bool.or_eq_true, decide_eq_true_iff, decide_eq_true_iff] at hblank
      rcases hblank with rfl | rfl <;> cases hop
  | quoted quote string =>
    refine ⟨quote, string ++ [quote], rfl, ?_⟩
    have hquote := h.1
    unfold isQuote at hquote
    rw [Bool.or_eq_true, decide_eq_true_iff, decide_eq_true_iff] at hquote
    rcases hquote with rfl | rfl <;> rfl
  | word string =>
    obtain ⟨d, ds, rfl⟩ := List.exists_cons_of_ne_nil h.1
    exact ⟨d, ds, rfl, (isOrdinary_spec (h.2.1 d List.mem_cons_self)).2.2⟩

section NextToken

variable (hstop : stop = shNewline ∨ stop = nullCh)
  (hplain : ∀ c ∈ ahead, c ≠ shNewline ∧ c ≠ nullCh)
  (hslot : s.ntok < shellMaxtok) (hroom : s.tbindex + (ahead.length + 1) < shellArglen)

include hstop hplain hslot hroom

theorem nextToken_quoted_split {string : List UInt8} (hquote : isQuote ch = true)
    (hnone : ch ∉ string) (hsplit : ahead = string ++ ch :: rest) :
    nextToken ch (ch :: (ahead ++ stop :: after)) s =
      .ok (some (rest ++ stop :: after), s.store (.quoted ch string)) := by
  rcases nextToken_quoted after hstop hplain hslot hroom (operatorType_of_quote hquote) hquote with
    ⟨s', herr⟩ | ⟨string', rest', hsplit', hnone', hnext⟩
  · -- the quote that ends the string is in the line, so the copy stops at it
    have hends : inQuotes ch ch = false := by simp [inQuotes]
    have hcopy := copyWhile_eq (s := s.entered .other) (rest ++ stop :: after) hends
      (show s.tbindex + (string.takeWhile (inQuotes ch)).length ≤ shellArglen by
        have := (List.takeWhile_sublist (l := string) (inQuotes ch)).length_le
        rw [hsplit, List.length_append] at hroom
        omega)
    have hall : ∀ c ∈ string, inQuotes ch c = true := by
      intro c hc
      have hc' := hplain c (hsplit ▸ List.mem_append_left _ hc)
      simp only [inQuotes, ne_eq, decide_not, Bool.and_eq_true, Bool.not_eq_true',
        decide_eq_false_iff_not]
      exact ⟨⟨fun h => hnone (h ▸ hc), hc'.1⟩, hc'.2⟩
    have henter : s.enter .other = .ok (s.entered .other) := if_pos hslot
    rw [List.dropWhile_eq_nil_iff.mpr hall, List.nil_append] at hcopy
    rw [nextToken, operatorType_of_quote hquote] at herr
    dsimp only at herr
    rw [henter, Lexan.ok_bind, if_pos hquote, List.tail_cons, hsplit, List.append_assoc,
      List.cons_append, hcopy, Lexan.ok_bind] at herr
    dsimp only at herr
    rw [peek, Lexan.ok_bind, if_neg (not_not_intro rfl)] at herr
    have hfinish : ((s.entered .other).putAll string).finish =
        .ok (s.store (.quoted ch string)) :=
      Lexan.finish_store (t := .quoted ch string) rfl (by
        rw [hsplit, List.length_append] at hroom
        omega)
    rw [List.takeWhile_eq_self_iff.mpr hall, hfinish] at herr
    cases herr
  · have hfront : (ShToken.quoted ch string).InFrontOf rest := ⟨hquote, hnone⟩
    have hfront' : (ShToken.quoted ch string').InFrontOf rest' := ⟨hquote, hnone'⟩
    have htwo := firstToken_eq hfront
    have htwo' := firstToken_eq hfront'
    have heq : (ShToken.quoted ch string').source ++ rest' =
        (ShToken.quoted ch string).source ++ rest := by
      simp only [ShToken.source, List.cons_append, List.append_assoc, List.nil_append]
      rw [← hsplit', ← hsplit]
    rw [heq, htwo] at htwo'
    obtain ⟨ht, hrest⟩ := Prod.mk.inj (Option.some.inj htwo')
    rw [hnext, ht, hrest]

omit hplain in
/-- What stops a word decides whether it is taken. -/
theorem nextToken_word_split {string : List UInt8}
    (hwhole : (ShToken.word (ch :: string)).InFrontOf rest) (hsplit : ahead = string ++ rest) :
    ((ShToken.word (ch :: string)).Apart rest ∧
      nextToken ch (ch :: (ahead ++ stop :: after)) s =
        .ok (some (rest ++ stop :: after), s.store (.word (ch :: string)))) ∨
    (¬ (ShToken.word (ch :: string)).Apart rest ∧
      ∃ s', nextToken ch (ch :: (ahead ++ stop :: after)) s = .ok (none, s')) := by
  obtain ⟨-, hall, hmax⟩ := hwhole
  obtain ⟨hop, hquote, -⟩ := isOrdinary_spec (hall ch List.mem_cons_self)
  have hend := (stop_spec hstop).2.2.1
  have henter : s.enter .other = .ok (s.entered .other) := if_pos hslot
  have hput := Lexan.put_entered (Nat.lt_of_le_of_lt (Nat.le_add_right _ _) hroom) .other ch
  have hstring : ∀ c ∈ string, isOrdinary c = true := fun c hc =>
    hall c (List.mem_cons_of_mem ch hc)
  obtain ⟨last, more, hlast⟩ : ∃ last more, rest ++ stop :: after = last :: more :=
    List.exists_cons_of_ne_nil (by simp)
  have hlastStop : isOrdinary last = false := by
    cases rest with
    | nil => exact (List.cons.inj hlast).1 ▸ hend
    | cons c rest => exact (List.cons.inj hlast).1 ▸ hmax c rfl
  have hcopy := copyWhile_eq (s := (s.entered .other).putAll [ch]) more hlastStop
    (show s.tbindex + 1 + (string.takeWhile isOrdinary).length ≤ shellArglen by
      have := (List.takeWhile_sublist (l := string) isOrdinary).length_le
      rw [hsplit, List.length_append] at hroom
      omega)
  rw [Lexan.putAll_append, List.takeWhile_eq_self_iff.mpr hstring,
    List.dropWhile_eq_nil_iff.mpr hstring, List.nil_append] at hcopy
  have hfinish : ((s.entered .other).putAll (ch :: string)).finish =
      .ok (s.store (.word (ch :: string))) :=
    Lexan.finish_store (t := .word (ch :: string)) rfl (by
      rw [hsplit, List.length_append] at hroom
      rw [List.length_cons]
      omega)
  have hapart : (ShToken.word (ch :: string)).Apart rest ↔
      ¬ (isQuote last || decide (last = shLess) || decide (last = shGreater)) = true := by
    have hiff : ¬ (isQuote last || decide (last = shLess) || decide (last = shGreater)) = true ↔
        isQuote last = false ∧ last ≠ shLess ∧ last ≠ shGreater := by
      simp [and_assoc]
    rw [hiff]
    cases rest with
    | nil =>
      obtain ⟨rfl, -⟩ := List.cons.inj hlast
      refine iff_of_true nofun ?_
      rcases hstop with rfl | rfl <;> exact ⟨rfl, by decide, by decide⟩
    | cons c rest =>
      obtain ⟨rfl, -⟩ := List.cons.inj hlast
      constructor
      · intro h
        exact h c rfl
      · rintro h d hd
        obtain rfl := Option.some.inj hd
        exact h
  rw [hapart, nextToken, hop]
  dsimp only
  rw [henter, Lexan.ok_bind, if_neg (by simp [hquote]), hput, Lexan.ok_bind, List.tail_cons,
    hsplit, List.append_assoc, hlast, hcopy, Lexan.ok_bind]
  dsimp only
  rw [peek, Lexan.ok_bind]
  by_cases hbad : (isQuote last || decide (last = shLess) || decide (last = shGreater)) = true
  · rw [if_pos hbad]
    exact .inr ⟨not_not_intro hbad, _, rfl⟩
  · rw [if_neg hbad, List.singleton_append, hfinish]
    exact .inl ⟨hbad, rfl⟩

/-- A whole token is taken if it stands apart. -/
theorem nextToken_of_split (hwhole : t.InFrontOf rest) (hsplit : ch :: ahead = t.source ++ rest) :
    (t.Apart rest ∧ nextToken ch (ch :: (ahead ++ stop :: after)) s =
      .ok (some (rest ++ stop :: after), s.store t)) ∨
    (¬ t.Apart rest ∧ ∃ s', nextToken ch (ch :: (ahead ++ stop :: after)) s = .ok (none, s')) := by
  cases t with
  | operator typ c =>
    obtain ⟨rfl, rfl⟩ := List.cons.inj hsplit
    exact .inl ⟨trivial, nextToken_operator after hslot hroom hwhole⟩
  | quoted quote string =>
    obtain ⟨rfl, hahead⟩ := List.cons.inj hsplit
    rw [List.append_eq, List.append_assoc] at hahead
    exact .inl ⟨trivial,
      nextToken_quoted_split after hstop hplain hslot hroom hwhole.1 hwhole.2 hahead⟩
  | word string =>
    obtain ⟨d, ds, rfl⟩ := List.exists_cons_of_ne_nil hwhole.1
    obtain ⟨rfl, hahead⟩ := List.cons.inj hsplit
    exact nextToken_word_split after hstop hslot hroom hwhole hahead

end NextToken

/-! ## The main loop -/

section Loop

variable {room fuel : Nat} {blanks : List UInt8} {ts : List ShToken}
  (hstop : stop = shNewline ∨ stop = nullCh)

include hstop in
theorem lexanLoop_stop : lexanLoop (fuel + 1) (stop :: after) s =
    .ok (some s.ntok, { s with tlen := s.tbindex }) := by
  rw [lexanLoop, peek, Lexan.ok_bind, if_pos (by simp [hstop.symm])]

variable (hplain : ∀ c ∈ ahead, c ≠ shNewline ∧ c ≠ nullCh)

include hplain in
/-- Nothing may follow the last token that there is room for. -/
theorem lexanLoop_full (hne : ahead ≠ []) (hfull : shellMaxtok ≤ s.ntok) :
    lexanLoop (fuel + 1) (ahead ++ stop :: after) s = .ok (none, s) := by
  obtain ⟨c, cs, rfl⟩ := List.exists_cons_of_ne_nil hne
  have hc := hplain c List.mem_cons_self
  rw [lexanLoop, List.cons_append, peek, Lexan.ok_bind, if_neg (by simp [hc]), if_pos hfull]

include hstop hplain

theorem lexanLoop_blanks (hslot : s.ntok < shellMaxtok) (hblank : ∀ c ∈ ahead, isBlank c = true) :
    lexanLoop (fuel + 1) (ahead ++ stop :: after) s =
      .ok (some s.ntok, { s with tlen := s.tbindex }) := by
  cases ahead with
  | nil => exact lexanLoop_stop after hstop
  | cons c cs =>
    have hc := hplain c List.mem_cons_self
    rw [lexanLoop, List.cons_append, peek, Lexan.ok_bind, if_neg (by simp [hc]),
      if_neg (Nat.not_le.mpr hslot), ← List.cons_append, skipBlanks_eq after (stop_spec hstop).1,
      Lexan.ok_bind, List.dropWhile_eq_nil_iff.mpr hblank, List.nil_append, peek, Lexan.ok_bind,
      if_pos (by simp [hstop])]

theorem lexanLoop_token (fuel : Nat) (hslot : s.ntok < shellMaxtok)
    (hroom : s.tbindex + ahead.length < shellBuflen + s.ntok)
    (hblanks : ∀ c ∈ blanks, isBlank c = true) (hwhole : t.InFrontOf rest)
    (hahead : ahead = blanks ++ (t.source ++ rest)) :
    (t.Apart rest ∧ lexanLoop (fuel + 1) (ahead ++ stop :: after) s =
      lexanLoop fuel (rest ++ stop :: after) (s.store t)) ∨
    (¬ t.Apart rest ∧ ∃ s', lexanLoop (fuel + 1) (ahead ++ stop :: after) s = .ok (none, s')) := by
  obtain ⟨d, ds, hsource, hdblank⟩ := t.source_head hwhole
  have hdrop : ahead.dropWhile isBlank = d :: (ds ++ rest) := by
    rw [hahead, List.dropWhile_append_of_pos hblanks, hsource, List.cons_append,
      List.dropWhile_cons_of_neg (by simp [hdblank])]
  have hlen : (ds ++ rest).length + 1 ≤ ahead.length := by
    rw [hahead, hsource]
    simp only [List.length_append, List.length_cons]
    omega
  have hsub : ∀ c ∈ d :: (ds ++ rest), c ≠ shNewline ∧ c ≠ nullCh := fun c hc =>
    hplain c ((hdrop ▸ List.dropWhile_sublist isBlank).subset hc)
  have hd := hsub d List.mem_cons_self
  obtain ⟨c, cs, rfl⟩ : ∃ c cs, ahead = c :: cs := by
    refine List.exists_cons_of_ne_nil fun hnil => ?_
    rw [hnil] at hdrop
    cases hdrop
  have hc := hplain c List.mem_cons_self
  rw [lexanLoop, List.cons_append, peek, Lexan.ok_bind, if_neg (by simp [hc]),
    if_neg (Nat.not_le.mpr hslot), ← List.cons_append, skipBlanks_eq after (stop_spec hstop).1,
    Lexan.ok_bind, hdrop, List.cons_append, peek, Lexan.ok_bind, if_neg (by simp [hd])]
  rcases nextToken_of_split after hstop (fun c hc => hsub c (List.mem_cons_of_mem d hc)) hslot
    (show s.tbindex + ((ds ++ rest).length + 1) < shellArglen by
      unfold shellArglen shellBuflen shellMaxtok at *
      omega) hwhole (show d :: (ds ++ rest) = t.source ++ rest by rw [hsource]; rfl) with
    ⟨hapart, hnext⟩ | ⟨hnot, s', hnext⟩
  · rw [hnext, Lexan.ok_bind]
    exact .inl ⟨hapart, rfl⟩
  · rw [hnext, Lexan.ok_bind]
    exact .inr ⟨hnot, s', rfl⟩

omit hstop hplain in
/-- There is room for the rest of the line behind a token. -/
theorem Lexan.store_room (hroom : s.tbindex + ahead.length < shellBuflen + s.ntok)
    (hwhole : t.InFrontOf rest) (hahead : ahead = blanks ++ (t.source ++ rest)) :
    (s.store t).tbindex + rest.length < shellBuflen + (s.store t).ntok ∧
      rest.length < ahead.length := by
  have htext := t.length_text_le
  have hpos := ShToken.length_source_pos hwhole
  rw [hahead, List.length_append, List.length_append] at hroom
  rw [hahead, List.length_append, List.length_append]
  refine ⟨?_, by omega⟩
  show s.tbindex + (t.text ++ [nullCh]).length + rest.length < shellBuflen + (s.ntok + 1)
  rw [List.length_append, List.length_singleton]
  omega

theorem lexanLoop_complete (h : Accepted room ahead ts) (hcount : s.ntok + room = shellMaxtok)
    (hroom : s.tbindex + ahead.length < shellBuflen + s.ntok) (hfuel : ahead.length < fuel) :
    ∃ n s', lexanLoop fuel (ahead ++ stop :: after) s = .ok (some n, s') := by
  induction h generalizing s fuel with
  | nil =>
    obtain ⟨fuel, rfl⟩ : ∃ k, fuel = k + 1 := ⟨fuel - 1, by omega⟩
    exact ⟨_, _, lexanLoop_stop after hstop⟩
  | @blanks room text hblank =>
    obtain ⟨fuel, rfl⟩ : ∃ k, fuel = k + 1 := ⟨fuel - 1, by omega⟩
    exact ⟨_, _, lexanLoop_blanks after hstop hplain (by omega) hblank⟩
  | @token room blanks text t ts hblank hwhole hapart _ ih =>
    obtain ⟨fuel, rfl⟩ : ∃ k, fuel = k + 1 := ⟨fuel - 1, by omega⟩
    obtain ⟨hroom', hshort⟩ := Lexan.store_room hroom hwhole rfl
    rcases lexanLoop_token after hstop hplain fuel (by omega) hroom hblank hwhole rfl with
      ⟨-, hnext⟩ | ⟨hnot, -⟩
    · rw [hnext]
      refine ih (fun c hc => hplain c ?_) ?_ hroom' (by omega)
      · exact List.mem_append_right _ (List.mem_append_right _ hc)
      · show s.ntok + 1 + room = shellMaxtok
        omega
    · exact absurd hapart hnot

theorem lexanLoop_sound {n : Nat} {s' : Lexan} (hcount : s.ntok + room = shellMaxtok)
    (hroom : s.tbindex + ahead.length < shellBuflen + s.ntok) (hfuel : ahead.length < fuel)
    (hok : lexanLoop fuel (ahead ++ stop :: after) s = .ok (some n, s')) :
    ∃ ts, Accepted room ahead ts := by
  induction fuel generalizing s ahead room with
  | zero => exact absurd hfuel (Nat.not_lt_zero _)
  | succ fuel ih =>
    by_cases hne : ahead = []
    · exact ⟨[], hne ▸ .nil⟩
    · by_cases hfull : shellMaxtok ≤ s.ntok
      · rw [lexanLoop_full after hplain hne hfull] at hok
        cases hok
      · obtain ⟨room, rfl⟩ : ∃ k, room = k + 1 := ⟨room - 1, by omega⟩
        have hsplit := List.takeWhile_append_dropWhile (p := isBlank) (l := ahead)
        have hblanks : ∀ c ∈ ahead.takeWhile isBlank, isBlank c = true := fun c hc =>
          List.mem_takeWhile_imp hc
        rcases lexanLoop_round after hstop hplain hroom fuel with ⟨s'', herr⟩ | ⟨htokens, -⟩ |
          ⟨t, rest, hdrop, hwhole, hslot, -⟩
        · rw [herr] at hok
          cases hok
        · exact ⟨[], .blanks htokens.all_blank⟩
        · rw [hdrop] at hsplit
          obtain ⟨hroom', hshort⟩ := Lexan.store_room hroom hwhole hsplit.symm
          rcases lexanLoop_token after hstop hplain fuel hslot hroom hblanks hwhole
            hsplit.symm with ⟨hapart, hnext⟩ | ⟨-, s'', herr⟩
          · rw [hnext] at hok
            obtain ⟨ts, hts⟩ := ih (s := s.store t) (fun c hc => hplain c (by
              rw [← hsplit]
              exact List.mem_append_right _ (List.mem_append_right _ hc)))
              (show s.ntok + 1 + room = shellMaxtok by omega) hroom' (by omega) hok
            exact ⟨t :: ts, hsplit ▸ .token hblanks hwhole hapart hts⟩
          · rw [herr] at hok
            cases hok

end Loop

/-! ## A line -/

/-- The text of a line ends at a null, if it has one. -/
def lineText (text : List UInt8) : List UInt8 := text.takeWhile (· ≠ nullCh)

/-- `lexan` takes the lines that have the syntax, and it reports an error for the others. -/
theorem lexan_row {text : List UInt8} (hline : shNewline ∉ text)
    (hlen : text.length + 1 ≤ shellBuflen) (s : Lexan) :
    ∃ r s', lexan (text ++ [shNewline]) s = .ok (r, s') ∧
      (r = none → ∀ ts, ¬ Accepted shellMaxtok (lineText text) ts) ∧
      ∀ n, r = some n → ∃ ts, Accepted shellMaxtok (lineText text) ts ∧ ts.length = n ∧
        (∀ t ∈ ts, nullCh ∉ t.text) ∧ s'.Row ts ∧ s'.tlen = s'.tbindex ∧
        s'.tbindex ≤ shellArglen := by
  obtain ⟨stop, after, hstop, hsplit⟩ := exists_stop text
  rw [← lineText] at hsplit
  have hsub : (lineText text).Sublist text := List.takeWhile_sublist _
  have hshort := hsub.length_le
  have hnull : nullCh ∉ lineText text := fun hmem => by
    have := List.mem_takeWhile_imp hmem
    simp at this
  have hplain : ∀ c ∈ lineText text, c ≠ shNewline ∧ c ≠ nullCh := fun c hc =>
    ⟨fun h => hline (h ▸ hsub.subset hc), fun h => hnull (h ▸ hc)⟩
  have hroom : 0 + (lineText text).length < shellBuflen + 0 := by omega
  have hfuel : (lineText text).length < (text ++ [shNewline]).length + 1 := by
    rw [List.length_append]
    omega
  have hstart : ({ s with ntok := 0, tbindex := 0 } : Lexan).Row [] :=
    ⟨rfl, rfl, rfl, fun i hi => absurd hi (Nat.not_lt_zero i), fun i t ht => by cases ht⟩
  obtain ⟨r, s', hloop, hresult⟩ := lexanLoop_spec after hstop hplain hstart (Nat.zero_le _) hroom
    hfuel
  have hlexan : lexan (text ++ [shNewline]) s = .ok (r, s') := by
    rw [← hsplit] at hloop
    exact hloop
  refine ⟨r, s', hlexan, ?_, fun n hn => ?_⟩
  · rintro rfl ts hts
    obtain ⟨n, s'', hok⟩ := lexanLoop_complete after hstop hplain
      (s := { s with ntok := 0, tbindex := 0 }) hts (Nat.zero_add _) hroom hfuel
    rw [hloop] at hok
    cases hok
  · subst hn
    obtain ⟨ts, htokens, hn', hmax, hrow, htlen, hroom'⟩ := hresult n rfl
    obtain ⟨us, hus⟩ := lexanLoop_sound after hstop hplain
      (s := { s with ntok := 0, tbindex := 0 }) (Nat.zero_add _) hroom hfuel hloop
    obtain rfl := htokens.unique hus.tokens
    rw [List.nil_append] at hn' hrow
    exact ⟨us, hus, hn', htokens.nonnull hnull, hrow, htlen,
      hroom'.le.trans (Nat.add_le_add_left hmax shellBuflen)⟩

/-- What `shell` does with a line: `none` if there is no token on it. -/
def shellRound (sys : ShellCalls) (dev : Nat) (line : List UInt8) (s : Lexan) :
    Except LexanFault (Lexan × Option ShellStep) := do
  let (ntok, s) ← lexan line s
  match ntok with
  | none => .ok (s, some .syntaxError)
  | some 0 => .ok (s, none)
  | some (n + 1) => .ok (s, some (shellCommand sys dev s (n + 1)))

/-- On every line that fits its buffer the shell stays inside its arrays.  It passes over a line
without a token, reports a syntax error for a line that `lexan` refuses, and understands the
tokens of any other, whatever the calls that it makes give it. -/
theorem shellRound_understands (sys : ShellCalls) (dev : Nat) {text : List UInt8}
    (hline : shNewline ∉ text) (hlen : text.length + 1 ≤ shellBuflen) (s : Lexan) :
    ∃ step s', shellRound sys dev (text ++ [shNewline]) s = .ok (s', step) ∧
      ((step = some .syntaxError ∧ ∀ ts, ¬ Accepted shellMaxtok (lineText text) ts) ∨
      (step = none ∧ Accepted shellMaxtok (lineText text) []) ∨
      ∃ ts, ts ≠ [] ∧ Accepted shellMaxtok (lineText text) ts ∧
        step = some (shellCommand sys dev s' ts.length) ∧ Understands sys dev s' ts) := by
  obtain ⟨r, s', hok, hnone, hsome⟩ := lexan_row hline hlen s
  rw [shellRound, hok, Lexan.ok_bind]
  match r, hnone, hsome with
  | none, hnone, _ => exact ⟨_, s', rfl, .inl ⟨rfl, hnone rfl⟩⟩
  | some 0, _, hsome =>
    obtain ⟨ts, hts, hn, -⟩ := hsome 0 rfl
    obtain rfl := List.length_eq_zero_iff.mp hn
    exact ⟨_, s', rfl, .inr (.inl ⟨rfl, hts⟩)⟩
  | some (n + 1), _, hsome =>
    obtain ⟨ts, hts, hn, hnull, hrow, htlen, hroom⟩ := hsome (n + 1) rfl
    have hne := List.ne_nil_of_length_eq_add_one hn
    refine ⟨_, s', rfl, .inr (.inr ⟨ts, hne, hts, ?_,
      understands_of_row hrow htlen hroom hnull sys dev hne⟩)⟩
    rw [hn]

/-- A system on which no file opens. -/
def noFiles : ShellCalls where
  opened _ _ := none
  created _ _ := some 5
  addedArgs _ := true

/-- There the output of `cat a > b &` cannot be redirected. -/
theorem shellRound_understands_cat : ∃ s' ts,
    shellRound noFiles 0 (chars "cat a > b &" ++ [shNewline]) clearLexan =
        .ok (s', some (.cannotOpenOutput (chars "b"))) ∧
      Accepted shellMaxtok (chars "cat a > b &") ts ∧ Understands noFiles 0 s' ts := by
  obtain ⟨step, s', hok, hcases⟩ := shellRound_understands noFiles 0
    (show shNewline ∉ chars "cat a > b &" by decide) (by decide) clearLexan
  obtain ⟨t, hround⟩ : ∃ t, shellRound noFiles 0 (chars "cat a > b &" ++ [shNewline]) clearLexan =
      .ok (t, some (.cannotOpenOutput (chars "b"))) := ⟨_, rfl⟩
  obtain ⟨rfl, rfl⟩ := Prod.mk.inj (Except.ok.inj (hok.symm.trans hround))
  rcases hcases with ⟨hstep, -⟩ | ⟨hstep, -⟩ | ⟨ts, -, hts, -, hunderstands⟩
  · cases hstep
  · cases hstep
  · exact ⟨s', ts, hround, hts, hunderstands⟩

end NatBox
