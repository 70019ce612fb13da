import NatBox.Forward.TableRuns
import NatBox.Shell.AddNdEntry
import NatBox.Shell.Commands
import NatBox.Stdlib.Atoi

/-
The shell command that adds a route: `addFwdEntry`.

Its numbers go through `atoi` into a byte.  `addFwdEntry_route` is about the arguments that spell a
route, `addFwdEntry_determined_iff` says which arguments do, and `addFwd_run` that the commands of a
whole session build a table that the searches can rely on.
-/

namespace NatBox

open Numeral Runs

/-- `atoi` of an argument, stored in a `uint8`. -/
def argByte (string : CString) : UInt8 := (atoi string.chars).toUInt32.toUInt8

/-- `addFwdEntry`: the value returned and the table left.  The two arrays are on the stack. -/
def addFwdEntry (ipAddr nexthop : Mem) (args : List CString) (t : FwdTable) :
    Except AddNdFault (Nat × FwdTable) :=
  match args with
  | [_, ip, prefixLen, nextHop, interface] => do
    let len := argByte prefixLen
    let iface := argByte interface
    if len < 1 ∨ 128 < len then
      return (1, t)
    let (bad, ipAddr) ← charToHexArray 16 ipAddr ip
    if bad ≠ 0 then
      return (1, t)
    let (bad, nexthop) ← charToHexArray 16 nexthop nextHop
    if bad ≠ 0 then
      return (1, t)
    return (0, (insertNewFwdTabEntry t (Vector.ofFn fun k => ipAddr k) len
      (Vector.ofFn fun k => nexthop k) iface).2)
  | _ => .ok (0, t)

/-- The command with five words, as a decision on what the scans of its arguments make of them. -/
theorem addFwdEntry_five (ipAddr nexthop : Mem) (name ip prefixLen nextHop interface : CString)
    (t : FwdTable) :
    addFwdEntry ipAddr nexthop [name, ip, prefixLen, nextHop, interface] t =
      if argByte prefixLen < 1 ∨ 128 < argByte prefixLen then .ok (1, t)
      else if 16 < (hexScan ip.chars).2.length then .error .overrun
      else if (hexScan ip.chars).1 = false then .ok (1, t)
      else if 16 < (hexScan nextHop.chars).2.length then .error .overrun
      else if (hexScan nextHop.chars).1 = false then .ok (1, t)
      else .ok (0, (insertNewFwdTabEntry t
        (Vector.ofFn fun k => (ipAddr.write 0 (hexScan ip.chars).2) k) (argByte prefixLen)
        (Vector.ofFn fun k => (nexthop.write 0 (hexScan nextHop.chars).2) k)
        (argByte interface)).2) := by
  simp only [addFwdEntry, charToHexArray_eq]
  by_cases hlen : argByte prefixLen < 1 ∨ 128 < argByte prefixLen
  · rw [if_pos hlen, if_pos hlen]
    rfl
  · rw [if_neg hlen, if_neg hlen]
    by_cases hip : 16 < (hexScan ip.chars).2.length
    · rw [if_pos hip, if_pos hip]
      rfl
    · rw [if_neg hip, if_neg hip]
      cases (hexScan ip.chars).1 with
      | false => rfl
      | true =>
        by_cases hnext : 16 < (hexScan nextHop.chars).2.length
        · rw [if_pos hnext, if_pos hnext]
          rfl
        · rw [if_neg hnext, if_neg hnext]
          cases (hexScan nextHop.chars).1 with
          | false => rfl
          | true => rfl

theorem prefixBounds_iff {len : UInt8} :
    ¬ (len < 1 ∨ 128 < len) ↔ 1 ≤ len.toNat ∧ len.toNat ≤ 128 := by
  rw [UInt8.lt_iff_toNat_lt, UInt8.lt_iff_toNat_lt, show (1 : UInt8).toNat = 1 from rfl,
    show (128 : UInt8).toNat = 128 from rfl]
  omega

/-- The command with five words refuses and leaves the table, or its arguments have passed every
test and the entry goes into the table. -/
theorem addFwdEntry_five_cases {ipAddr nexthop : Mem}
    {name ip prefixLen nextHop interface : CString} {t t' : FwdTable} {ret : Nat}
    (h : addFwdEntry ipAddr nexthop [name, ip, prefixLen, nextHop, interface] t = .ok (ret, t')) :
    (ret = 1 ∧ t' = t) ∨
    (ret = 0 ∧ (1 ≤ (argByte prefixLen).toNat ∧ (argByte prefixLen).toNat ≤ 128) ∧
      ((hexScan ip.chars).1 = true ∧ (hexScan ip.chars).2.length ≤ 16) ∧
      ((hexScan nextHop.chars).1 = true ∧ (hexScan nextHop.chars).2.length ≤ 16) ∧
      t' = (insertNewFwdTabEntry t
        (Vector.ofFn fun k => (ipAddr.write 0 (hexScan ip.chars).2) k) (argByte prefixLen)
        (Vector.ofFn fun k => (nexthop.write 0 (hexScan nextHop.chars).2) k)
        (argByte interface)).2) := by
  rw [addFwdEntry_five] at h
  by_cases hlen : argByte prefixLen < 1 ∨ 128 < argByte prefixLen
  · rw [if_pos hlen] at h
    cases h
    exact .inl ⟨rfl, rfl⟩
  rw [if_neg hlen] at h
  by_cases hipRoom : 16 < (hexScan ip.chars).2.length
  · rw [if_pos hipRoom] at h
    cases h
  rw [if_neg hipRoom] at h
  by_cases hip : (hexScan ip.chars).1 = false
  · rw [if_pos hip] at h
    cases h
    exact .inl ⟨rfl, rfl⟩
  rw [if_neg hip] at h
  by_cases hnextRoom : 16 < (hexScan nextHop.chars).2.length
  · rw [if_pos hnextRoom] at h
    cases h
  rw [if_neg hnextRoom] at h
  by_cases hnext : (hexScan nextHop.chars).1 = false
  · rw [if_pos hnext] at h
    cases h
    exact .inl ⟨rfl, rfl⟩
  rw [if_neg hnext] at h
  cases h
  exact .inr ⟨rfl, prefixBounds_iff.mp hlen, ⟨Bool.eq_true_of_not_eq_false hip,
    Nat.not_lt.mp hipRoom⟩, ⟨Bool.eq_true_of_not_eq_false hnext, Nat.not_lt.mp hnextRoom⟩, rfl⟩

/-- The argument is sixteen bytes of pairs. -/
def SpellsAddr (string : CString) (addr : Ipv6Addr) : Prop :=
  hexScan string.chars = (true, addr.toList)

/-- The arguments of a route, whatever the arrays hold. -/
theorem addFwdEntry_route {r : Route} {ip prefixLen nextHop interface : CString}
    (hip : SpellsAddr ip r.ipAddr) (hlen : argByte prefixLen = r.prefixLen)
    (hnext : SpellsAddr nextHop r.nextHop) (hiface : argByte interface = r.interface)
    (name : CString) (ipAddr nexthop : Mem) (t : FwdTable) :
    addFwdEntry ipAddr nexthop [name, ip, prefixLen, nextHop, interface] t =
      .ok (0, insertRoute t r) := by
  have hbounds : ¬ (r.prefixLen < 1 ∨ 128 < r.prefixLen) :=
    prefixBounds_iff.mpr ⟨r.one_le, r.le_addrBits⟩
  have haddr : ∀ (addr : Ipv6Addr) (array : Mem),
      (Vector.ofFn fun k : Fin 16 => array.write 0 addr.toList k) = addr := fun addr =>
    ofFn_write addr.length_toList
  rw [addFwdEntry_five, hlen, hiface, if_neg hbounds, hip, hnext, if_neg (by simp),
    if_neg (by simp), if_neg (by simp), if_neg (by simp), haddr, haddr, insertRoute]

/-- Whatever is typed, the table is left, or a route is inserted whose prefix length is in the range
that the search relies on. -/
theorem addFwdEntry_inserts {ipAddr nexthop : Mem} {args : List CString} {t t' : FwdTable}
    {ret : Nat} (h : addFwdEntry ipAddr nexthop args t = .ok (ret, t')) :
    t' = t ∨ ∃ r, t' = insertRoute t r := by
  by_cases hfive : ∃ name ip prefixLen nextHop interface,
      args = [name, ip, prefixLen, nextHop, interface]
  · obtain ⟨name, ip, prefixLen, nextHop, interface, rfl⟩ := hfive
    obtain ⟨-, rfl⟩ | ⟨-, hbounds, -, -, rfl⟩ := addFwdEntry_five_cases h
    · exact .inl rfl
    · exact .inr ⟨⟨_, argByte prefixLen, _, argByte interface, hbounds.1, hbounds.2⟩, rfl⟩
  · unfold addFwdEntry at h
    split at h
    · exact absurd ⟨_, _, _, _, _, rfl⟩ hfive
    · cases h
      exact .inl rfl

/-- A command, and what its arrays hold. -/
structure AddFwdCall where
  args : List CString
  ipAddr : Mem
  nexthop : Mem

def addFwdStep (t : FwdTable) (c : AddFwdCall) : Except AddNdFault (Nat × FwdTable) :=
  addFwdEntry c.ipAddr c.nexthop c.args t

/-- No address of the command has more pairs than its array has room for. -/
structure AddFwdCall.Fits (c : AddFwdCall) : Prop where
  ip : ∀ arg ∈ c.args[1]?, (hexScan arg.chars).2.length ≤ 16
  nextHop : ∀ arg ∈ c.args[3]?, (hexScan arg.chars).2.length ≤ 16

/-- Such a command stays in its arrays. -/
theorem AddFwdCall.Fits.returns {c : AddFwdCall} (h : c.Fits) (t : FwdTable) :
    ∃ ret t', addFwdStep t c = .ok (ret, t') := by
  obtain ⟨args, ipAddr, nexthop⟩ := c
  obtain ⟨hip, hnext⟩ := h
  unfold addFwdStep
  by_cases hfive : ∃ name ip prefixLen nextHop interface,
      args = [name, ip, prefixLen, nextHop, interface]
  · obtain ⟨name, ip, prefixLen, nextHop, interface, rfl⟩ := hfive
    have hiproom : ¬ 16 < (hexScan ip.chars).2.length := Nat.not_lt.mpr (hip ip rfl)
    have hnextroom : ¬ 16 < (hexScan nextHop.chars).2.length := Nat.not_lt.mpr (hnext nextHop rfl)
    rw [addFwdEntry_five, if_neg hiproom, if_neg hnextroom]
    split
    · exact ⟨_, _, rfl⟩
    · split
      · exact ⟨_, _, rfl⟩
      · split <;> exact ⟨_, _, rfl⟩
  · refine ⟨0, t, ?_⟩
    show addFwdEntry ipAddr nexthop args t = .ok (0, t)
    unfold addFwdEntry
    split
    · exact absurd ⟨_, _, _, _, _, rfl⟩ hfive
    · rfl

/-- Whatever commands are typed, in any order, whose addresses fit their arrays: they return, and
the table is one of inserted routes, in the order of their prefix lengths.  A longer address is
written past its array, and there is nothing to say about the table then. -/
theorem addFwd_run (calls : List AddFwdCall) (hfits : ∀ c ∈ calls, c.Fits) :
    ∃ trace t, trace.map Prod.fst = calls ∧ Run addFwdStep (fwdipv6Init bssFwdTab) trace t ∧
      t.Searchable ∧ ∃ inserts, Run insertStep (fwdipv6Init bssFwdTab) inserts t ∧
        t.Records (insertedBy inserts) := by
  have hrun : ∃ trace t, trace.map Prod.fst = calls ∧
      Run addFwdStep (fwdipv6Init bssFwdTab) trace t ∧
      ∃ inserts, Run insertStep (fwdipv6Init bssFwdTab) inserts t := by
    induction calls using List.reverseRecOn with
    | nil => exact ⟨[], _, rfl, .start, [], .start⟩
    | append_singleton calls c ih =>
      obtain ⟨trace, t, hcalls, hrun, inserts, hinserts⟩ :=
        ih fun c' hc' => hfits c' (List.mem_append_left _ hc')
      obtain ⟨ret, t', hstep⟩ := (hfits c (by simp)).returns t
      refine ⟨trace ++ [(c, ret)], t', by simp [hcalls], hrun.next hstep, ?_⟩
      rcases addFwdEntry_inserts hstep with rfl | ⟨r, rfl⟩
      · exact ⟨inserts, hinserts⟩
      · exact ⟨inserts ++
          [(r, (insertNewFwdTabEntry t r.ipAddr r.prefixLen r.nextHop r.interface).1)],
          hinserts.next rfl⟩
  obtain ⟨trace, t, hcalls, hrun, inserts, hinserts⟩ := hrun
  exact ⟨trace, t, hcalls, hrun, (records_run hinserts).1, inserts, hinserts,
    (records_run hinserts).2⟩

theorem addfwd_nonnull : nullCh ∉ chars "addfwd" := by decide

/-- A route by way of its own address, typed on a stack of zeros. -/
def typedAddFwd (ip prefixLen : CString) : AddFwdCall :=
  ⟨[⟨chars "addfwd", addfwd_nonnull⟩, ip, prefixLen, ip, ⟨chars "1", by decide⟩], fun _ => 0,
    fun _ => 0⟩

theorem fits_typedAddFwd {ip prefixLen : CString} (h : (hexScan ip.chars).2.length ≤ 16) :
    (typedAddFwd ip prefixLen).Fits :=
  ⟨fun _ harg => Option.some.inj harg ▸ h, fun _ harg => Option.some.inj harg ▸ h⟩

def typedRoutes : List AddFwdCall := [
  typedAddFwd ⟨chars "2002:0000:0000:0000:0000:0000:0000:00A1", by decide⟩
    ⟨chars "300", by decide⟩,
  typedAddFwd ⟨chars "2002:0000:0000:0000:0000:0000:0000:00A1", by decide⟩
    ⟨chars "256", by decide⟩,
  typedAddFwd ⟨chars "2003:00000000000000000000000000A1", by decide⟩ ⟨chars "128", by decide⟩]

/-- A prefix length of 300 is read as 44, and one of 256 as none. -/
theorem addFwd_run_wraps : ∃ trace t, Run addFwdStep (fwdipv6Init bssFwdTab) trace t ∧
    trace.map Prod.snd = [0, 1, 0] ∧ t.Searchable := by
  have hfits : ∀ c ∈ typedRoutes, c.Fits := by
    simp only [typedRoutes, List.forall_mem_cons, List.not_mem_nil, false_implies, implies_true,
      and_true]
    exact ⟨fits_typedAddFwd (by decide +kernel), fits_typedAddFwd (by decide +kernel),
      fits_typedAddFwd (by decide +kernel)⟩
  obtain ⟨trace, t, hcalls, hrun, hsearch, -⟩ := addFwd_run typedRoutes hfits
  have hexec := hrun.exec_eq
  rw [hcalls] at hexec
  have hrets : (exec addFwdStep (fwdipv6Init bssFwdTab) typedRoutes).toOption.map Prod.fst =
      some [0, 1, 0] := by decide +kernel
  rw [hexec] at hrets
  exact ⟨trace, t, hrun, Option.some.inj hrets, hsearch⟩

/-! ## When the command is determined -/

/-- Different entries leave different tables. -/
theorem insertRoute_inj {t : FwdTable} (ht : t.Searchable) (hfree : ∃ e ∈ t.entries, e.ttl = 0)
    {r r' : Route} (h : insertRoute t r = insertRoute t r') : r.entry = r'.entry := by
  have hr := filter_inUse_insertRoute ht hfree r
  rw [h] at hr
  have hperm := (List.perm_append_left_iff _).mp
    (hr.symm.trans (filter_inUse_insertRoute ht hfree r'))
  exact List.singleton_perm_singleton.mp hperm

/-- The stack shows in an address that the scan does not fill. -/
theorem length_of_ofFn_eq {n : Nat} {bs : List UInt8} (hle : bs.length ≤ n)
    (h : (Vector.ofFn fun k : Fin n => Mem.write (fun _ => 0) 0 bs k) =
      Vector.ofFn fun k : Fin n => Mem.write (fun _ => 1) 0 bs k) : bs.length = n := by
  by_contra hne
  have hlt : bs.length < n := by omega
  have hbyte := congrArg (fun v : Vector UInt8 n => v[bs.length]) h
  simp only [Vector.getElem_ofFn] at hbyte
  rw [Mem.write_outside (.inr (by omega)), Mem.write_outside (.inr (by omega))] at hbyte
  exact absurd hbyte (by decide)

/-- A command with five words inserts one route into a table that insertions have built, whatever
its arrays hold, exactly if the prefix length is read as 1 to 128 and both addresses are sixteen
pairs. -/
theorem addFwdEntry_determined_iff {t : FwdTable} (ht : t.Searchable)
    (hfree : ∃ e ∈ t.entries, e.ttl = 0) (name ip prefixLen nextHop interface : CString) :
    (∃ r, ∀ ipAddr nexthop, addFwdEntry ipAddr nexthop
        [name, ip, prefixLen, nextHop, interface] t = .ok (0, insertRoute t r)) ↔
      (1 ≤ (argByte prefixLen).toNat ∧ (argByte prefixLen).toNat ≤ 128) ∧
        Pairs ip.chars 16 ∧ Pairs nextHop.chars 16 := by
  rw [pairs_iff, pairs_iff]
  constructor
  · intro ⟨r, h⟩
    obtain ⟨hret, -⟩ | ⟨-, hbounds, ⟨hip, hiplen⟩, ⟨hnext, hnextlen⟩, -⟩ :=
      addFwdEntry_five_cases (h (fun _ => 0) (fun _ => 0))
    · exact absurd hret Nat.zero_ne_one
    -- two stacks, and the one route
    have hentry : ∀ a b : Mem, newEntry
        (Vector.ofFn fun k => a.write 0 (hexScan ip.chars).2 k) (argByte prefixLen)
        (Vector.ofFn fun k => b.write 0 (hexScan nextHop.chars).2 k)
        (argByte interface) = r.entry := by
      intro a b
      obtain ⟨hret, -⟩ | ⟨-, -, -, -, htable⟩ := addFwdEntry_five_cases (h a b)
      · exact absurd hret Nat.zero_ne_one
      · exact insertRoute_inj ht hfree
          (r := ⟨_, argByte prefixLen, _, argByte interface, hbounds.1, hbounds.2⟩) htable.symm
    have hsame := (hentry (fun _ => 0) (fun _ => 0)).trans
      (hentry (fun _ => 1) (fun _ => 1)).symm
    exact ⟨hbounds,
      ⟨hip, length_of_ofFn_eq hiplen (congrArg FwdTabEntry.ipAddr hsame)⟩,
      hnext, length_of_ofFn_eq hnextlen (congrArg FwdTabEntry.nextHop hsame)⟩
  · rintro ⟨hbounds, ⟨hip, hiplen⟩, hnext, hnextlen⟩
    exact ⟨⟨⟨(hexScan ip.chars).2.toArray, hiplen⟩, argByte prefixLen,
      ⟨(hexScan nextHop.chars).2.toArray, hnextlen⟩, argByte interface, hbounds.1, hbounds.2⟩,
      fun ipAddr nexthop => addFwdEntry_route (Prod.ext hip rfl) rfl (Prod.ext hnext rfl) rfl
        name ipAddr nexthop t⟩

/-- `addfwd 2010:... 12 2010:... 1` on an empty table -/
theorem addFwdEntry_determined_iff_host : ∃ r, ∀ ipAddr nexthop,
    addFwdEntry ipAddr nexthop
        [⟨chars "addfwd", by decide⟩, ⟨chars "2010:0000000000000000000000000000", by decide⟩,
          ⟨chars "12", by decide⟩, ⟨chars "2010:0000000000000000000000000000", by decide⟩,
          ⟨chars "1", by decide⟩] (fwdipv6Init bssFwdTab) =
      .ok (0, insertRoute (fwdipv6Init bssFwdTab) r) := by
  refine (addFwdEntry_determined_iff searchable_fwdipv6Init ?_ _ _ _ _ _).mpr
    ⟨by decide, pairs_iff.mpr (by decide +kernel), pairs_iff.mpr (by decide +kernel)⟩
  have hpos : 0 < (fwdipv6Init bssFwdTab).entries.length := by
    rw [FwdTable.length_entries]
    decide
  have hmem := List.getElem_mem hpos
  exact ⟨_, hmem, congrArg FwdTabEntry.ttl (entries_fwdipv6Init_bss _ hmem)⟩

end NatBox
