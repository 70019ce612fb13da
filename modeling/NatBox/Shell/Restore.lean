import NatBox.Shell.Printouts

/-
Entering a table from its printout.

Each line of the printout is typed behind the name of the command.  The shell's tokens of it are the
arguments of `addFwdEntry`, and the lines in their order build a table with the same entries.
-/

namespace NatBox

open Numeral Runs

/-! ## The words of a line -/

def Ordinary (string : List UInt8) : Prop :=
  string ≠ [] ∧ ∀ ch ∈ string, isOrdinary ch = true

theorem ordinary_digitChar : ∀ d, d < 16 → isOrdinary (digitChar 0x61 d) = true := by decide

theorem ordinary_numeralText (n : Nat) : Ordinary (numeralText 0x61 10 n) := by
  refine ⟨?_, fun ch hch => ?_⟩
  · rw [numeralText, Ne, List.map_eq_nil_iff]
    exact numeral_ne_nil 10 n
  · obtain ⟨d, hd, rfl⟩ := List.mem_map.mp hch
    exact ordinary_digitChar d (Nat.lt_trans (numeral_lt (by omega) hd) (by omega))

theorem ordinary_byteText (b : UInt8) : ∀ ch ∈ byteText b, isOrdinary ch = true := by
  have hb := b.toNat_lt
  intro ch hch
  rcases List.mem_cons.mp hch with rfl | hch
  · exact ordinary_digitChar _ (by omega)
  · rcases List.mem_singleton.mp hch with rfl
    exact ordinary_digitChar _ (by omega)

theorem ordinary_pairsText {sep : UInt8} (hsep : isOrdinary sep = true) (a b : UInt8)
    (rest : List UInt8) : Ordinary (pairsText sep (a :: b :: rest)) := by
  have hall : ∀ bs, ∀ ch ∈ pairsText sep bs, isOrdinary ch = true := by
    intro bs
    fun_induction pairsText sep bs with
    | case1 a b c rest ih =>
      intro ch hch
      simp only [List.mem_append, List.mem_cons] at hch
      rcases hch with (hch | hch) | rfl | hch
      · exact ordinary_byteText a ch hch
      · exact ordinary_byteText b ch hch
      · exact hsep
      · exact ih ch hch
    | case2 a b =>
      intro ch hch
      rcases List.mem_append.mp hch with hch | hch
      · exact ordinary_byteText a ch hch
      · exact ordinary_byteText b ch hch
    | case3 => simp
  refine ⟨?_, hall _⟩
  cases rest <;> simp [pairsText, byteText]

/-- A word, with blanks in front of it and at least one behind it. -/
theorem Tokens.word_blanks {string text : List UInt8} {ts : List ShToken} (h : Ordinary string)
    (k : Nat) (htext : Tokens text ts) :
    Tokens (string ++ (List.replicate (k + 1) shBlank ++ text)) (.word string :: ts) := by
  have hblank : ∀ ch ∈ List.replicate (k + 1) shBlank, isBlank ch = true := by
    intro ch hch
    rw [List.eq_of_mem_replicate hch]
    rfl
  refine .token (t := .word string) ⟨h.1, h.2, ?_⟩ (htext.blanks_append hblank)
  intro ch hch
  rw [List.replicate_succ, List.cons_append] at hch
  obtain rfl : shBlank = ch := Option.some.inj hch
  rfl

theorem ordinary_addr {n : Nat} {sep : UInt8} (hsep : isOrdinary sep = true)
    (addr : Vector UInt8 (n + 2)) : Ordinary (pairsText sep addr.toList) := by
  have hlen := addr.length_toList
  cases hbs : addr.toList with
  | nil =>
    rw [hbs] at hlen
    cases hlen
  | cons a bs =>
    cases bs with
    | nil =>
      rw [hbs] at hlen
      cases hlen
    | cons b rest => exact ordinary_pairsText hsep a b rest

theorem ordinary_ipv6 (addr : Ipv6Addr) : Ordinary (pairsText colon addr.toList) :=
  ordinary_addr (n := 14) rfl addr

theorem ordinary_mac (addr : MacAddr) : Ordinary (pairsText dotCh addr.toList) :=
  ordinary_addr (n := 4) rfl addr

theorem Ordinary.nonnull {string : List UInt8} (h : Ordinary string) : nullCh ∉ string :=
  fun hmem => absurd (h.2 nullCh hmem) (by decide)

/-- The arguments that the shell makes of the line. -/
def fwdArgs (e : FwdTabEntry) : List CString := [
  ⟨chars "addfwd", by decide⟩, ⟨pairsText colon e.ipAddr.toList, (ordinary_ipv6 e.ipAddr).nonnull⟩,
  ⟨numeralText 0x61 10 e.prefixLen.toNat, (ordinary_numeralText e.prefixLen.toNat).nonnull⟩,
  ⟨pairsText colon e.nextHop.toList, (ordinary_ipv6 e.nextHop).nonnull⟩,
  ⟨numeralText 0x61 10 e.iface.toNat, (ordinary_numeralText e.iface.toNat).nonnull⟩]

/-- The line consists of these words, which become the arguments of the command. -/
def Typed (line : List UInt8) (args : List CString) : Prop :=
  Tokens line (args.map fun arg => .word arg.chars)

/-- The blanks of a field are blanks in front of its number. -/
theorem blanks_numberText (k width : Nat) (b : UInt8) (rest : List UInt8) :
    ∃ j, List.replicate (k + 1) shBlank ++ (numberText width b ++ rest) =
      List.replicate (j + 1) shBlank ++ (numeralText 0x61 10 b.toNat ++ rest) := by
  refine ⟨k + (width - (numeralText 0x61 10 b.toNat).length), ?_⟩
  rw [numberText, List.append_assoc, ← List.append_assoc, List.replicate_append_replicate,
    Nat.add_right_comm]

theorem typed_fwdLine (e : FwdTabEntry) : Typed (chars "addfwd " ++ fwdLine e) (fwdArgs e) := by
  have hiface := Tokens.word_blanks (ordinary_numeralText e.iface.toNat) 1 .nil
  obtain ⟨j, hj⟩ := blanks_numberText 3 2 e.iface (List.replicate 2 shBlank ++ [])
  have hnext := Tokens.word_blanks (ordinary_ipv6 e.nextHop) j hiface
  rw [← hj] at hnext
  have hlen := Tokens.word_blanks (ordinary_numeralText e.prefixLen.toNat) 2 hnext
  obtain ⟨i, hi⟩ := blanks_numberText 2 3 e.prefixLen (List.replicate 3 shBlank ++
    (pairsText colon e.nextHop.toList ++ (List.replicate 4 shBlank ++
      (numberText 2 e.iface ++ (List.replicate 2 shBlank ++ [])))))
  have hip := Tokens.word_blanks (ordinary_ipv6 e.ipAddr) i hlen
  rw [← hi] at hip
  have hname : Ordinary (chars "addfwd") := ⟨by decide, by decide +kernel⟩
  exact Tokens.word_blanks hname 0 hip

theorem argByte_numeralText (b : UInt8) (h : nullCh ∉ numeralText 0x61 10 b.toNat) :
    argByte ⟨numeralText 0x61 10 b.toNat, h⟩ = b := by
  have hread := atoi_signed false (fun d hd => numeral_lt (show 1 < 10 by omega) hd)
    (fun _ => numeral_ne_nil 10 b.toNat) (show ¬ (0x30 ≤ cur [] ∧ cur [] ≤ 0x39) by decide)
  rw [if_neg Bool.false_ne_true, if_neg Bool.false_ne_true, List.nil_append, List.append_nil,
    ← numeralText_ten, value_numeral] at hread
  have hbyte : ∀ n, n < 256 → (Int32.ofNat n).toUInt32.toUInt8 = UInt8.ofNat n := by decide +kernel
  rw [argByte, hread, hbyte _ b.toNat_lt, UInt8.ofNat_toNat]

theorem spellsAddr_pairsText (addr : Ipv6Addr) (h : nullCh ∉ pairsText colon addr.toList) :
    SpellsAddr ⟨pairsText colon addr.toList, h⟩ addr := by
  refine hexScan_pairsText ?_
  rw [addr.length_toList]

/-- A line of the table, typed behind the name, inserts its route. -/
theorem addFwdEntry_fwdArgs (r : Route) (ipAddr nexthop : Mem) (t : FwdTable) :
    addFwdEntry ipAddr nexthop (fwdArgs r.entry) t = .ok (0, insertRoute t r) :=
  addFwdEntry_route (spellsAddr_pairsText r.ipAddr _) (argByte_numeralText r.prefixLen _)
    (spellsAddr_pairsText r.nextHop _) (argByte_numeralText r.interface _) _ ipAddr nexthop t

/-! ## The line fits -/

theorem length_pairsText (sep : UInt8) (bs : List UInt8) :
    2 * (pairsText sep bs).length ≤ 5 * bs.length := by
  fun_induction pairsText sep bs with
  | case1 a b c rest ih =>
    simp only [List.length_append, List.length_cons, byteText, List.length_nil] at ih ⊢
    omega
  | case2 a b => simp [byteText]
  | case3 => simp

theorem length_numberText {width : Nat} (h : width ≤ 3) (b : UInt8) :
    (numberText width b).length ≤ 3 := by
  have hb := b.toNat_lt
  have hlen := (length_numeralText_le_iff 0x61 (b := 10) (k := 2) (n := b.toNat) (by omega)).mpr
    (by omega)
  rw [numberText, List.length_append, List.length_replicate]
  omega

/-- The buffer of the shell holds the line. -/
theorem length_fwdLine (e : FwdTabEntry) :
    (chars "addfwd " ++ fwdLine e).length + 1 ≤ shellBuflen := by
  show (chars "addfwd " ++ fwdLine e).length + 1 ≤ 129
  have hip := length_pairsText colon e.ipAddr.toList
  have hnext := length_pairsText colon e.nextHop.toList
  have hlen := length_numberText (show 3 ≤ 3 by omega) e.prefixLen
  have hiface := length_numberText (show 2 ≤ 3 by omega) e.iface
  have hchars : (chars "addfwd ").length = 7 ∧ (chars "   ").length = 3 ∧
      (chars "    ").length = 4 ∧ (chars "  ").length = 2 := by decide
  rw [Vector.length_toList] at hip hnext
  simp only [fwdLine, List.length_append, hchars]
  omega

/-! ## The table again -/

theorem FwdTable.Searchable.reached_eq {t : FwdTable} (ht : t.Searchable) :
    t.reached = t.entries.filter FwdTabEntry.inUse := by
  have huse : ∀ e ∈ t.entries, (e.prefixLen ≠ 0 : Bool) = e.inUse := fun e he =>
    decide_eq_decide.mpr (ht.inUse e he).symm
  have hfree : ∀ es : List FwdTabEntry, (∀ e ∈ es, e ∈ t.entries ∧ e.inUse = false) →
      es.takeWhile (·.prefixLen ≠ 0) = [] := by
    intro es hes
    cases es with
    | nil => rfl
    | cons e es =>
      obtain ⟨he, hno⟩ := hes e List.mem_cons_self
      rw [List.takeWhile_cons_of_neg]
      rw [huse e he, hno]
      exact Bool.false_ne_true
  unfold FwdTable.reached
  rw [ht.live.eq_filter_append, List.takeWhile_append_of_pos, hfree, List.append_nil]
  · rw [← ht.live.eq_filter_append]
  · intro e he
    obtain ⟨he, hno⟩ := List.mem_filter.mp he
    exact ⟨he, by simpa using hno⟩
  · intro e he
    obtain ⟨he, hyes⟩ := List.mem_filter.mp he
    rw [huse e he, hyes]

/-- A search sees no more than the entries it can reach. -/
theorem nextHopScan_takeWhile (d : Ipv6Addr) (es : List FwdTabEntry) (i : Nat) :
    nextHopScan d (es.takeWhile (·.prefixLen ≠ 0)) i = nextHopScan d es i := by
  induction es generalizing i with
  | nil => rfl
  | cons e es ih =>
    by_cases hzero : e.prefixLen = 0
    · rw [List.takeWhile_cons_of_neg (by simp [hzero]), nextHopScan, nextHopScan, if_pos hzero]
    · rw [List.takeWhile_cons_of_pos (by simp [hzero]), nextHopScan, nextHopScan, ih]

theorem getNextHop_eq_of_reached {t t' : FwdTable} (h : t'.reached = t.reached) (d : Ipv6Addr) :
    getNextHop t' d = getNextHop t d := by
  rw [getNextHop, getNextHop, ← nextHopScan_takeWhile d t'.entries,
    ← nextHopScan_takeWhile d t.entries]
  exact congrArg (nextHopScan d · 0) h

/-- Routes that fit into the table, inserted one after the other. -/
theorem records_insertRoutes {rs : List Route} (h : rs.length ≤ maxFwdTabEntries) :
    (insertRoutes (fwdipv6Init bssFwdTab) rs).Searchable ∧
      (insertRoutes (fwdipv6Init bssFwdTab) rs).Records (rs.map Route.entry) := by
  induction rs using List.reverseRecOn with
  | nil => exact ⟨searchable_fwdipv6Init, records_fwdipv6Init⟩
  | append_singleton rs r ih =>
    rw [List.length_append, List.length_singleton] at h
    obtain ⟨ht, hrec⟩ := ih (by omega)
    have hfree : ∃ e ∈ (insertRoutes (fwdipv6Init bssFwdTab) rs).entries, e.ttl = 0 := by
      by_contra hnone
      have hall : (insertRoutes (fwdipv6Init bssFwdTab) rs).entries.filter FwdTabEntry.inUse =
          (insertRoutes (fwdipv6Init bssFwdTab) rs).entries :=
        List.filter_eq_self.mpr fun e he => decide_eq_true fun hz => hnone ⟨e, he, hz⟩
      have hlen := hrec.perm.length_eq
      rw [hall, FwdTable.length_entries, List.length_map] at hlen
      omega
    have hstep : insertRoutes (fwdipv6Init bssFwdTab) (rs ++ [r]) =
        insertRoute (insertRoutes (fwdipv6Init bssFwdTab) rs) r := by
      rw [insertRoutes, List.foldl_append]
      rfl
    rw [hstep, List.map_append]
    exact ⟨ht.insertRoute r, hrec.insert ht hfree r⟩

/-- Routes in the order of the table stay in it. -/
theorem filter_insertRoutes {rs : List Route} (h : rs.length ≤ maxFwdTabEntries)
    (hsorted : (rs.map Route.entry).Pairwise fun a b => b.prefixLen.toNat ≤ a.prefixLen.toNat) :
    (insertRoutes (fwdipv6Init bssFwdTab) rs).entries.filter FwdTabEntry.inUse =
      rs.map Route.entry := by
  obtain ⟨-, hrec⟩ := records_insertRoutes h
  refine BubbleSort.eq_of_sorted (fun e : FwdTabEntry => e.prefixLen.toNat)
    (hrec.sorted.sublist List.filter_sublist) hsorted fun a => ?_
  have hlen := hrec.inOrder a.prefixLen
  simpa only [← UInt8.toNat_inj] using hlen

/-- The lines are typed behind `addfwd`, one after the other: the words of each are the five
arguments of the command, which takes them and returns 0. -/
inductive Entered : List (List UInt8) → FwdTable → FwdTable → Prop
  | nil {t : FwdTable} : Entered [] t t
  | cons {line : List UInt8} {lines : List (List UInt8)}
      {name ip prefixLen nextHop interface : CString} {t t' t'' : FwdTable} :
      (chars "addfwd " ++ line).length + 1 ≤ shellBuflen →
      Typed (chars "addfwd " ++ line) [name, ip, prefixLen, nextHop, interface] →
      (∀ ipAddr nexthop, addFwdEntry ipAddr nexthop
        [name, ip, prefixLen, nextHop, interface] t = .ok (0, t')) →
      Entered lines t' t'' → Entered (line :: lines) t t''

theorem entered_routes (rs : List Route) (t : FwdTable) :
    Entered (rs.map fun r => fwdLine r.entry) t (insertRoutes t rs) := by
  induction rs generalizing t with
  | nil => exact .nil
  | cons r rs ih =>
    exact .cons (length_fwdLine r.entry) (typed_fwdLine r.entry)
      (fun ipAddr nexthop => addFwdEntry_fwdArgs r ipAddr nexthop t) (ih (insertRoute t r))

theorem newline_not_mem_fwdLine (e : FwdTabEntry) : shNewline ∉ fwdLine e := by
  have hword : ∀ {string}, Ordinary string → shNewline ∉ string := fun h hmem =>
    absurd (h.2 shNewline hmem) (by decide)
  have hnumber : ∀ (width : Nat) (b : UInt8), shNewline ∉ numberText width b := by
    intro width b
    rw [numberText, List.mem_append, not_or]
    exact ⟨fun hmem => absurd (List.eq_of_mem_replicate hmem) (by decide),
      hword (ordinary_numeralText b.toNat)⟩
  have hblank : shNewline ∉ chars "   " ∧ shNewline ∉ chars "    " ∧ shNewline ∉ chars "  " := by
    decide
  simp only [fwdLine, List.mem_append, not_or]
  exact ⟨hword (ordinary_ipv6 e.ipAddr), hblank.1, hnumber 3 e.prefixLen, hblank.1,
    hword (ordinary_ipv6 e.nextHop), hblank.2.1, hnumber 2 e.iface, hblank.2.2⟩

/-- The entries in use are those of routes. -/
theorem FwdTable.Records.routes {t : FwdTable} {calls : List (Route × Int)}
    (h : t.Records (insertedBy calls)) {es : List FwdTabEntry}
    (hes : ∀ e ∈ es, e ∈ t.entries.filter FwdTabEntry.inUse) :
    ∃ rs : List Route, rs.map Route.entry = es := by
  induction es with
  | nil => exact ⟨[], rfl⟩
  | cons e es ih =>
    obtain ⟨rs, hrs⟩ := ih fun e' he' => hes e' (List.mem_cons_of_mem e he')
    have hmem := h.perm.mem_iff.mp (hes e List.mem_cons_self)
    obtain ⟨c, -, hc⟩ := List.mem_map.mp hmem
    exact ⟨c.1 :: rs, by rw [List.map_cons, hrs, hc]⟩

/-- The table that any insertions have built is printed a line for each entry in use, and typing
these lines on a box with an empty table builds a table with the same entries, which routes every
destination alike and is printed alike. -/
theorem printFWDTab_restores (string : Mem) {calls : List (Route × Int)} {t : FwdTable}
    (h : Run insertStep (fwdipv6Init bssFwdTab) calls t) :
    ∃ lines t', lines = (t.entries.filter FwdTabEntry.inUse).map fwdLine ∧
      printFWDTab string t = .ok (fwdTabHeader.flatten ++ lines.flatMap (· ++ [shNewline])) ∧
      (∀ line ∈ lines, shNewline ∉ line) ∧ Entered lines (fwdipv6Init bssFwdTab) t' ∧
      t'.entries.filter FwdTabEntry.inUse = t.entries.filter FwdTabEntry.inUse ∧
      (∀ d, getNextHop t' d = getNextHop t d) ∧
      printFWDTab string t' = printFWDTab string t := by
  obtain ⟨ht, hrec⟩ := records_run h
  obtain ⟨rs, hrs⟩ := hrec.routes fun e he => he
  have hlen : rs.length ≤ maxFwdTabEntries := by
    rw [← List.length_map (f := Route.entry), hrs, ← t.length_entries]
    exact List.filter_sublist.length_le
  have hsorted : (rs.map Route.entry).Pairwise fun a b =>
      b.prefixLen.toNat ≤ a.prefixLen.toNat := by
    rw [hrs]
    exact ht.sorted.sublist List.filter_sublist
  have hentries := (filter_insertRoutes hlen hsorted).trans hrs
  have hreached : (insertRoutes (fwdipv6Init bssFwdTab) rs).reached = t.reached := by
    rw [(records_insertRoutes hlen).1.reached_eq, hentries, ht.reached_eq]
  refine ⟨rs.map fun r => fwdLine r.entry, insertRoutes (fwdipv6Init bssFwdTab) rs, ?_, ?_, ?_,
    entered_routes rs _, hentries, getNextHop_eq_of_reached hreached, ?_⟩
  · rw [← hrs, List.map_map]
    rfl
  · rw [printFWDTab_eq, ht.reached_eq, ← hrs, List.flatMap_map, List.flatMap_map]
  · intro line hline
    obtain ⟨r, -, rfl⟩ := List.mem_map.mp hline
    exact newline_not_mem_fwdLine r.entry
  · rw [printFWDTab_eq, printFWDTab_eq, hreached]

/-- The route to the network is printed last. -/
theorem printFWDTab_restores_three : ∃ lines t t',
    Run insertStep (fwdipv6Init bssFwdTab) mixedRoutes t ∧
    lines = [fwdLine (newEntry exampleHost 128 exampleHost 1),
      fwdLine (newEntry exampleServer 128 exampleServer 2),
      fwdLine (newEntry exampleServer 64 exampleConfig.routerIpAddr 0)] ∧
    printFWDTab (fun _ => 1) t =
      .ok (fwdTabHeader.flatten ++ lines.flatMap (· ++ [shNewline])) ∧
    Entered lines (fwdipv6Init bssFwdTab) t' ∧
    t'.entries.filter FwdTabEntry.inUse = t.entries.filter FwdTabEntry.inUse := by
  have hends : endsIn insertStep (fwdipv6Init bssFwdTab) (mixedRoutes.map Prod.fst)
      (fun rets t => rets = mixedRoutes.map Prod.snd ∧
        t.entries.filter FwdTabEntry.inUse = [newEntry exampleHost 128 exampleHost 1,
          newEntry exampleServer 128 exampleServer 2,
          newEntry exampleServer 64 exampleConfig.routerIpAddr 0]) = true := by decide +kernel
  obtain ⟨rets, t, hrun, -, hcheck⟩ := run_of_endsIn hends
  obtain ⟨rfl, hentries⟩ := of_decide_eq_true hcheck
  have hcalls : (mixedRoutes.map Prod.fst).zip (mixedRoutes.map Prod.snd) = mixedRoutes := rfl
  rw [hcalls] at hrun
  obtain ⟨lines, t', hlines, hprint, -, hentered, hsame, -⟩ :=
    printFWDTab_restores (fun _ => 1) hrun
  rw [hentries] at hlines
  exact ⟨lines, t, t', hrun, hlines, hprint, hentered, hsame⟩

/-! ## The neighbour cache -/

/-- What is printed of a neighbour is not taken back: `addnd` refuses the dots of the hardware
address, and keeps the slot that it has claimed. -/
theorem addNDEntry_refuses_printed (string : Mem) (addr : Ipv6Addr) (mac : MacAddr) :
    ∃ ipText macText : CString, printIpv6 string addr = .ok ipText.chars ∧
      printMac string mac = .ok macText.chars ∧
      ∀ name ipAddr macAddr nd, addNDEntry ipAddr macAddr [name, ipText, macText] nd =
          .ok (1, (getAvailNDEntry nd).2) ∧
        (HasFreeEntry nd → (getAvailNDEntry nd).2 ≠ nd) := by
  refine ⟨⟨_, (ordinary_ipv6 addr).nonnull⟩, ⟨_, (ordinary_mac mac).nonnull⟩,
    printPairs_eq string (by decide) _, printPairs_eq string (by decide) _,
    fun name ipAddr macAddr nd => ⟨?_, snd_getAvailNDEntry_ne⟩⟩
  have hip : hexScan (pairsText colon addr.toList) = (true, addr.toList) :=
    hexScan_pairsText (by rw [addr.length_toList])
  have hlen := mac.length_toList
  obtain ⟨a, as, has⟩ := List.exists_cons_of_length_eq_add_one hlen
  rw [has, List.length_cons] at hlen
  obtain ⟨b, bs, rfl⟩ := List.exists_cons_of_length_eq_add_one (Nat.succ.inj hlen)
  rw [List.length_cons] at hlen
  obtain ⟨c, rest, rfl⟩ :=
    List.exists_cons_of_length_eq_add_one (Nat.succ.inj (Nat.succ.inj hlen))
  have hmac : hexScan (pairsText dotCh mac.toList) = (false, [a, b]) := by
    rw [has, hexScan_dots]
  rw [addNDEntry_three, hip, hmac, if_neg (by simp), if_neg (by simp), if_neg (by simp), if_pos rfl]

end NatBox
