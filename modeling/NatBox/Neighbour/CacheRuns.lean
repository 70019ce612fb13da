import NatBox.Lib.Runs
import NatBox.Neighbour.Receive

/-
Runs of the neighbour cache.

A lookup compares addresses only, and a free entry holds the unspecified address, so a
message from that address finds the first free entry and puts it to use without
`getAvailNDEntry`.  `CacheKeyed` is the invariant of all runs: it makes a lookup exact for
every other address, and `UnspecifiedFree` is when it is not for this one.
-/

namespace NatBox

open Runs

/-- A received neighbour message, with the heap behind the block its checksum is formed
in. -/
structure NeighbourEvent where
  heap : Mem
  pkt : NetPacket

/-- One message through `icmpv6_in`. -/
def neighbourStep (cfg : Config) (box : Box) (e : NeighbourEvent) :
    Except Fault (List NeighbourSend × Box) :=
  neighbourIn cfg e.heap box e.pkt

/-- The message passes the validation of its type. -/
def NeighbourEvent.accepted (cfg : Config) (e : NeighbourEvent) : Prop :=
  (e.pkt.msgType = neighbS ∧ nsolicitValid cfg e.heap e.pkt = .ok true) ∨
    (e.pkt.msgType = neighbA ∧ nadvertValid cfg e.heap e.pkt = .ok true)

/-! ## The two handlers on the cache -/

theorem get_set (nd : NDCache) (i j : Fin maxNdEntry) (entry : NDCacheEntry) :
    (nd.set i entry i.isLt).get j = if j = i then entry else nd.get j := by
  show (nd.set i.val entry i.isLt)[j.val] = _
  by_cases h : j = i
  · rw [if_pos h, h]
    exact Vector.getElem_set_self _
  · rw [if_neg h]
    exact Vector.getElem_set_ne _ _ fun hij => h (Fin.ext hij.symm)

/-- A search over all indices finds the first. -/
theorem find?_finRange_eq_some_iff {n : Nat} {p : Fin n → Bool} {i : Fin n} :
    (List.finRange n).find? p = some i ↔ p i = true ∧ ∀ j, j < i → p j = false := by
  rw [List.find?_eq_some_iff_getElem]
  constructor
  · rintro ⟨hp, k, hk, hki, hfirst⟩
    rw [List.getElem_finRange] at hki
    refine ⟨hp, fun j hj => ?_⟩
    have hjk : j.val < k := by
      rw [← hki] at hj
      exact hj
    have := hfirst j.val hjk
    rw [List.getElem_finRange] at this
    simpa using this
  · rintro ⟨hp, hfirst⟩
    have hi : i.val < (List.finRange n).length := by
      rw [List.length_finRange]
      exact i.isLt
    refine ⟨hp, i.val, hi, List.getElem_finRange hi, fun j hj => ?_⟩
    rw [List.getElem_finRange]
    simpa using hfirst ⟨j, Nat.lt_trans hj i.isLt⟩ hj

theorem lookupNDEntry_eq (nd : NDCache) (a : Ipv6Addr) :
    lookupNDEntry nd a =
      (List.finRange maxNdEntry).find? fun i => decide ((nd.get i).ipAddr = a) := by
  have hkey : (fun i : Fin maxNdEntry => matchBytes a nd[i].ipAddr 16) =
      fun i => decide ((nd.get i).ipAddr = a) :=
    funext fun i => (matchBytes_eq_decide _ _).trans (decide_eq_decide.mpr eq_comm)
  unfold lookupNDEntry
  rw [hkey]

/-- The first entry with the address. -/
theorem lookupNDEntry_eq_some_iff {nd : NDCache} {a : Ipv6Addr} {i : Fin maxNdEntry} :
    lookupNDEntry nd a = some i ↔
      (nd.get i).ipAddr = a ∧ ∀ j, j < i → (nd.get j).ipAddr ≠ a := by
  rw [lookupNDEntry_eq, find?_finRange_eq_some_iff]
  simp only [decide_eq_true_eq, decide_eq_false_iff_not, ne_eq]

theorem lookupNDEntry_eq_none_iff {nd : NDCache} {a : Ipv6Addr} :
    lookupNDEntry nd a = none ↔ ∀ j, (nd.get j).ipAddr ≠ a := by
  rw [lookupNDEntry_eq, List.find?_eq_none]
  simp

theorem fst_getAvailNDEntry (nd : NDCache) :
    (getAvailNDEntry nd).1 =
      (List.finRange maxNdEntry).find? fun i => decide ((nd.get i).state = ndNoEntry) := by
  unfold getAvailNDEntry
  split
  · rename_i hnone
    exact hnone.symm
  · rename_i i hsome
    exact hsome.symm

/-- The first free entry. -/
theorem getAvailNDEntry_eq_some_iff {nd : NDCache} {i : Fin maxNdEntry} :
    (getAvailNDEntry nd).1 = some i ↔
      (nd.get i).state = ndNoEntry ∧ ∀ j, j < i → (nd.get j).state ≠ ndNoEntry := by
  rw [fst_getAvailNDEntry, find?_finRange_eq_some_iff]
  simp only [decide_eq_true_eq, decide_eq_false_iff_not, ne_eq]

theorem snd_getAvailNDEntry {nd : NDCache} {i : Fin maxNdEntry}
    (h : (getAvailNDEntry nd).1 = some i) :
    (getAvailNDEntry nd).2 = nd.set i { nd.get i with state := ndProcessing } i.isLt := by
  unfold getAvailNDEntry at h ⊢
  split at h
  · cases h
  · rename_i j hj
    obtain rfl : j = i := Option.some.inj h
    rfl

/-- The sender's entry is the one a lookup finds, or the first free one, claimed and given
the sender's address. -/
theorem senderEntry_cases {nd nd' : NDCache} {src : Ipv6Addr} {i : Fin maxNdEntry}
    (h : senderEntry nd src = some (i, nd')) :
    (lookupNDEntry nd src = some i ∧ nd' = nd) ∨
    (lookupNDEntry nd src = none ∧ (getAvailNDEntry nd).1 = some i ∧
      nd' = nd.set i { nd.get i with state := ndProcessing, ipAddr := src } i.isLt) := by
  unfold senderEntry at h
  cases hl : lookupNDEntry nd src with
  | some j =>
    simp only [hl, Option.some.injEq, Prod.mk.injEq] at h
    exact Or.inl ⟨congrArg some h.1, h.2.symm⟩
  | none =>
    right
    rcases ha : getAvailNDEntry nd with ⟨_ | j, nd₁⟩
    · simp [hl, ha] at h
    · simp only [hl, ha, Option.some.injEq, Prod.mk.injEq] at h
      obtain ⟨rfl, rfl⟩ := h
      have hnd := snd_getAvailNDEntry (congrArg Prod.fst ha)
      rw [ha] at hnd
      refine ⟨rfl, rfl, ?_⟩
      obtain rfl : nd₁ = _ := hnd
      rw [get_set, if_pos rfl]
      exact Vector.set_set _ _

theorem senderEntry_eq_none_iff {nd : NDCache} {src : Ipv6Addr} :
    senderEntry nd src = none ↔
      lookupNDEntry nd src = none ∧ (getAvailNDEntry nd).1 = none := by
  unfold senderEntry
  cases lookupNDEntry nd src with
  | some j => simp
  | none =>
    rcases getAvailNDEntry nd with ⟨_ | j, nd₁⟩
    · simp
    · simp

/-! ## One message -/

/-- The handlers leave entry `i` reachable and with the address of the sender; its MAC
address is what stands where the first option would be if the type is right. -/
structure UsesEntry (nd nd' : NDCache) (i : Fin maxNdEntry) (pkt : NetPacket) : Prop where
  others : ∀ j, j ≠ i → nd'.get j = nd.get j
  state : (nd'.get i).state = ndReachable
  ipAddr : (nd'.get i).ipAddr = pkt.ip.src
  macAddr : (nd'.get i).macAddr =
    if pkt.body 24 = 1 then macAt pkt.body 26 else (nd.get i).macAddr

/-- The entry a message uses: the first with the address of its sender, or for a
solicitation the first free one. -/
def FindsEntry (nd : NDCache) (pkt : NetPacket) (i : Fin maxNdEntry) : Prop :=
  lookupNDEntry nd pkt.ip.src = some i ∨
    (pkt.msgType = neighbS ∧ lookupNDEntry nd pkt.ip.src = none ∧
      (getAvailNDEntry nd).1 = some i)

/-- What both handlers do to the entry they use: it is reachable, and takes the address
that stands where the first option would be if the type is right. -/
def learned (nd : NDCache) (i : Fin maxNdEntry) (msg : Mem) : NDCache :=
  nd.set i
    { nd.get i with
      ttl := maxNdTtl
      state := ndReachable
      macAddr := if msg 24 = 1 then macAt msg 26 else (nd.get i).macAddr } i.isLt

theorem nsolicitHandler_nd (box : Box) (pkt : NetPacket) :
    (nsolicitHandler box pkt).1.nd =
      match senderEntry box.nd pkt.ip.src with
      | none => box.nd
      | some (i, nd) => learned nd i pkt.body := by
  unfold nsolicitHandler
  rcases senderEntry box.nd pkt.ip.src with _ | ⟨i, nd⟩
  · rfl
  · have h24 : nsolSize = 24 := rfl
    unfold getmacSol learned
    rw [h24]
    by_cases h : pkt.body 24 = 1
    · simp only [h, if_true]
    · simp only [h, if_false]

theorem nadvertHandler_nd (box : Box) (pkt : NetPacket) :
    (nadvertHandler box pkt).nd =
      match lookupNDEntry box.nd pkt.ip.src with
      | none => box.nd
      | some i => learned box.nd i pkt.body := by
  unfold nadvertHandler
  cases lookupNDEntry box.nd pkt.ip.src with
  | none => rfl
  | some i =>
    have h24 : nadSize = 24 := rfl
    unfold getmacAd learned
    rw [h24]
    by_cases h : pkt.body 24 = 1
    · simp only [h, if_true]
    · simp only [h, if_false]

theorem usesEntry_learned {nd nd₁ : NDCache} {i : Fin maxNdEntry} {pkt : NetPacket}
    (hothers : ∀ j, j ≠ i → nd₁.get j = nd.get j) (hip : (nd₁.get i).ipAddr = pkt.ip.src)
    (hmac : (nd₁.get i).macAddr = (nd.get i).macAddr) :
    UsesEntry nd (learned nd₁ i pkt.body) i pkt := by
  have hself : (learned nd₁ i pkt.body).get i = _ := (get_set nd₁ i i _).trans (if_pos rfl)
  constructor
  · intro j hj
    exact ((get_set nd₁ i j _).trans (if_neg hj)).trans (hothers j hj)
  · rw [hself]
  · rw [hself]
    exact hip
  · rw [hself, ← hmac]

theorem nsolicitHandler_cases (box : Box) {pkt : NetPacket} (htype : pkt.msgType = neighbS) :
    (∃ i, FindsEntry box.nd pkt i ∧ UsesEntry box.nd (nsolicitHandler box pkt).1.nd i pkt) ∨
    ((∀ i, ¬ FindsEntry box.nd pkt i) ∧ (nsolicitHandler box pkt).1.nd = box.nd) := by
  rw [nsolicitHandler_nd]
  rcases hs : senderEntry box.nd pkt.ip.src with _ | ⟨i, nd₁⟩
  · right
    obtain ⟨hl, ha⟩ := senderEntry_eq_none_iff.mp hs
    refine ⟨?_, rfl⟩
    rintro i (hfound | ⟨-, -, havail⟩)
    · exact absurd (hl.symm.trans hfound) nofun
    · exact absurd (ha.symm.trans havail) nofun
  · left
    have hip := senderEntry_ipAddr hs
    rcases senderEntry_cases hs with ⟨hl, rfl⟩ | ⟨hl, ha, rfl⟩
    · exact ⟨i, Or.inl hl, usesEntry_learned (fun _ _ => rfl) hip rfl⟩
    · refine ⟨i, Or.inr ⟨htype, hl, ha⟩, usesEntry_learned ?_ hip ?_⟩
      · intro j hj
        rw [get_set, if_neg hj]
      · rw [get_set, if_pos rfl]

theorem nadvertHandler_cases (box : Box) {pkt : NetPacket} (htype : pkt.msgType = neighbA) :
    (∃ i, FindsEntry box.nd pkt i ∧ UsesEntry box.nd (nadvertHandler box pkt).nd i pkt) ∨
    ((∀ i, ¬ FindsEntry box.nd pkt i) ∧ (nadvertHandler box pkt).nd = box.nd) := by
  rw [nadvertHandler_nd]
  cases hl : lookupNDEntry box.nd pkt.ip.src with
  | none =>
    refine Or.inr ⟨?_, rfl⟩
    rintro i (hfound | ⟨hsolicit, -⟩)
    · exact absurd (hl.symm.trans hfound) nofun
    · exact absurd (htype.symm.trans hsolicit) (by decide)
  | some i =>
    exact Or.inl ⟨i, Or.inl hl, usesEntry_learned (fun _ _ => rfl) (lookupNDEntry_some hl) rfl⟩

/-- All that one message can do to the cache. -/
theorem neighbourStep_cases {cfg : Config} {box box' : Box} {e : NeighbourEvent}
    {sends : List NeighbourSend} (h : neighbourStep cfg box e = .ok (sends, box')) :
    (e.accepted cfg ∧ ∃ i, FindsEntry box.nd e.pkt i ∧ UsesEntry box.nd box'.nd i e.pkt) ∨
    (e.accepted cfg ∧ (∀ i, ¬ FindsEntry box.nd e.pkt i) ∧ box'.nd = box.nd) ∨
    (¬ e.accepted cfg ∧ box'.nd = box.nd) := by
  unfold neighbourStep at h
  rcases neighbourIn_cases h with ⟨hs, hv, rfl⟩ | ⟨ha, hv, rfl⟩ | ⟨hs, ha, rfl⟩
  · have hacc : e.accepted cfg := Or.inl ⟨hs, hv⟩
    rcases nsolicitHandler_cases box hs with huse | hnone
    · exact Or.inl ⟨hacc, huse⟩
    · exact Or.inr (Or.inl ⟨hacc, hnone⟩)
  · have hacc : e.accepted cfg := Or.inr ⟨ha, hv⟩
    rcases nadvertHandler_cases box ha with huse | hnone
    · exact Or.inl ⟨hacc, huse⟩
    · exact Or.inr (Or.inl ⟨hacc, hnone⟩)
  · refine Or.inr (Or.inr ⟨?_, rfl⟩)
    rintro (⟨htype, hok⟩ | ⟨htype, hok⟩)
    · exact absurd ((hs htype).symm.trans hok) nofun
    · exact absurd ((ha htype).symm.trans hok) nofun

/-! ## Runs -/

/-- The entry is in use. -/
def Live (nd : NDCache) (i : Fin maxNdEntry) : Prop := (nd.get i).state ≠ ndNoEntry

instance (nd : NDCache) (i : Fin maxNdEntry) : Decidable (Live nd i) :=
  inferInstanceAs (Decidable (_ ≠ _))

/-- A message from the unspecified address passed the validation. -/
def UnspecifiedSeen (cfg : Config) (tr : List (NeighbourEvent × List NeighbourSend)) : Prop :=
  ∃ c ∈ tr, c.1.accepted cfg ∧ c.1.pkt.ip.src = unspecified

/-- What every run keeps: the entries in use have different addresses, and one with the
unspecified address stands before all free ones. -/
structure CacheKeyed (cfg : Config) (tr : List (NeighbourEvent × List NeighbourSend))
    (nd : NDCache) : Prop where
  free : ∀ i, ¬ Live nd i → (nd.get i).ipAddr = unspecified
  distinct : ∀ i j, Live nd i → Live nd j → (nd.get i).ipAddr = (nd.get j).ipAddr → i = j
  first : ∀ i j, Live nd i → (nd.get i).ipAddr = unspecified → ¬ Live nd j → i < j
  seen : ∀ i, Live nd i → (nd.get i).ipAddr = unspecified → UnspecifiedSeen cfg tr
  stored : UnspecifiedSeen cfg tr →
    (∃ i, Live nd i ∧ (nd.get i).ipAddr = unspecified) ∨ ∀ i, Live nd i

theorem get_ndCacheInit (i : Fin maxNdEntry) :
    ndCacheInit.get i = ⟨0, unspecified, Vector.replicate 6 0, ndNoEntry⟩ :=
  Vector.getElem_replicate i.isLt

theorem not_live_ndCacheInit (i : Fin maxNdEntry) : ¬ Live ndCacheInit i := by
  unfold Live
  rw [get_ndCacheInit]
  exact fun h => h rfl

theorem cacheKeyed_init (cfg : Config) : CacheKeyed cfg [] ndCacheInit where
  free i _ := by rw [get_ndCacheInit]
  distinct i _ hi := absurd hi (not_live_ndCacheInit i)
  first i _ hi := absurd hi (not_live_ndCacheInit i)
  seen i hi := absurd hi (not_live_ndCacheInit i)
  stored := fun ⟨_, hmem, _⟩ => absurd hmem List.not_mem_nil

section Step

variable {cfg : Config} {tr : List (NeighbourEvent × List NeighbourSend)} {nd nd' : NDCache}
  {e : NeighbourEvent} {sends : List NeighbourSend} {i : Fin maxNdEntry}

theorem unspecifiedSeen_concat :
    UnspecifiedSeen cfg (tr ++ [(e, sends)]) ↔
      UnspecifiedSeen cfg tr ∨ e.accepted cfg ∧ e.pkt.ip.src = unspecified := by
  unfold UnspecifiedSeen
  simp only [List.mem_append, List.mem_singleton]
  constructor
  · rintro ⟨c, hc | rfl, hseen⟩
    · exact Or.inl ⟨c, hc, hseen⟩
    · exact Or.inr hseen
  · rintro (⟨c, hc, hseen⟩ | hseen)
    · exact ⟨c, Or.inl hc, hseen⟩
    · exact ⟨_, Or.inr rfl, hseen⟩

theorem UsesEntry.live {pkt : NetPacket} (h : UsesEntry nd nd' i pkt) (j : Fin maxNdEntry) :
    Live nd' j ↔ j = i ∨ Live nd j := by
  unfold Live
  by_cases hj : j = i
  · have hne : ndReachable ≠ ndNoEntry := by decide
    rw [hj, h.state]
    exact iff_of_true hne (Or.inl rfl)
  · rw [h.others j hj, or_iff_right hj]

/-- An entry in use that a message finds keeps its address. -/
theorem UsesEntry.ipAddr_of_lookup {pkt : NetPacket} (h : UsesEntry nd nd' i pkt)
    (hl : lookupNDEntry nd pkt.ip.src = some i) (j : Fin maxNdEntry) :
    (nd'.get j).ipAddr = (nd.get j).ipAddr := by
  by_cases hj : j = i
  · rw [hj, h.ipAddr, lookupNDEntry_some hl]
  · rw [h.others j hj]

/-- A lookup that finds a free entry is for the unspecified address, and then no entry in
use has it. -/
theorem CacheKeyed.lookup_free {a : Ipv6Addr} (h : CacheKeyed cfg tr nd)
    (hl : lookupNDEntry nd a = some i) (hfree : ¬ Live nd i) :
    a = unspecified ∧ ∀ j, Live nd j → (nd.get j).ipAddr ≠ unspecified := by
  obtain ⟨hip, hfirst⟩ := lookupNDEntry_eq_some_iff.mp hl
  have ha : a = unspecified := hip.symm.trans (h.free i hfree)
  refine ⟨ha, fun j hj hun => ?_⟩
  exact hfirst j (h.first j i hj hun hfree) (hun.trans ha.symm)

/-- The first free entry is given an address that no entry has. -/
theorem CacheKeyed.avail_ne {a : Ipv6Addr} (h : CacheKeyed cfg tr nd)
    (hl : lookupNDEntry nd a = none) (ha : (getAvailNDEntry nd).1 = some i) :
    a ≠ unspecified := by
  intro hun
  have hfree := (getAvailNDEntry_eq_some_iff.mp ha).1
  exact lookupNDEntry_eq_none_iff.mp hl i ((h.free i (not_not_intro hfree)).trans hun.symm)

/-- A message that changes neither which entries are in use nor their addresses. -/
theorem CacheKeyed.congr {tr' : List (NeighbourEvent × List NeighbourSend)}
    (h : CacheKeyed cfg tr nd) (hlive : ∀ j, Live nd' j ↔ Live nd j)
    (hip : ∀ j, (nd'.get j).ipAddr = (nd.get j).ipAddr)
    (hseen : UnspecifiedSeen cfg tr → UnspecifiedSeen cfg tr')
    (hstored : UnspecifiedSeen cfg tr' →
      (∃ i, Live nd i ∧ (nd.get i).ipAddr = unspecified) ∨ ∀ i, Live nd i) :
    CacheKeyed cfg tr' nd' := by
  constructor
  · intro j hj
    rw [hip]
    exact h.free j fun hj' => hj ((hlive j).mpr hj')
  · intro j k hj hk hjk
    rw [hip, hip] at hjk
    exact h.distinct j k ((hlive j).mp hj) ((hlive k).mp hk) hjk
  · intro j k hj hun hk
    rw [hip] at hun
    exact h.first j k ((hlive j).mp hj) hun fun hk' => hk ((hlive k).mpr hk')
  · intro j hj hun
    rw [hip] at hun
    exact hseen (h.seen j ((hlive j).mp hj) hun)
  · intro hs
    rcases hstored hs with ⟨j, hj, hun⟩ | hall
    · exact Or.inl ⟨j, (hlive j).mpr hj, (hip j).trans hun⟩
    · exact Or.inr fun j => (hlive j).mpr (hall j)

/-- A message that puts a free entry to use, under an address no entry in use has. -/
theorem CacheKeyed.claim (h : CacheKeyed cfg tr nd) (hacc : e.accepted cfg)
    (huse : UsesEntry nd nd' i e.pkt) (hfree : ¬ Live nd i)
    (hnew : ∀ j, Live nd j → (nd.get j).ipAddr ≠ e.pkt.ip.src)
    (hfirst : e.pkt.ip.src = unspecified → ∀ j, j ≠ i → ¬ Live nd j → i < j) :
    CacheKeyed cfg (tr ++ [(e, sends)]) nd' := by
  have hold : ∀ j, Live nd j → (nd'.get j).ipAddr = (nd.get j).ipAddr := fun j hj => by
    rw [huse.others j fun hji => hfree (hji ▸ hj)]
  constructor
  · intro j hj
    obtain ⟨hji, hj'⟩ := not_or.mp fun hor => hj ((huse.live j).mpr hor)
    rw [huse.others j hji]
    exact h.free j hj'
  · intro j k hj hk hjk
    rcases (huse.live j).mp hj with rfl | hj'
    · rcases (huse.live k).mp hk with rfl | hk'
      · rfl
      · rw [huse.ipAddr, hold k hk'] at hjk
        exact absurd hjk.symm (hnew k hk')
    · rcases (huse.live k).mp hk with rfl | hk'
      · rw [huse.ipAddr, hold j hj'] at hjk
        exact absurd hjk (hnew j hj')
      · rw [hold j hj', hold k hk'] at hjk
        exact h.distinct j k hj' hk' hjk
  · intro j k hj hun hk
    obtain ⟨hki, hk'⟩ := not_or.mp fun hor => hk ((huse.live k).mpr hor)
    rcases (huse.live j).mp hj with rfl | hj'
    · exact hfirst (huse.ipAddr.symm.trans hun) k hki hk'
    · exact h.first j k hj' ((hold j hj').symm.trans hun) hk'
  · intro j hj hun
    rw [unspecifiedSeen_concat]
    rcases (huse.live j).mp hj with rfl | hj'
    · exact Or.inr ⟨hacc, huse.ipAddr.symm.trans hun⟩
    · exact Or.inl (h.seen j hj' ((hold j hj').symm.trans hun))
  · intro hs
    rcases unspecifiedSeen_concat.mp hs with hs | ⟨-, hsrc⟩
    · rcases h.stored hs with ⟨j, hj, hun⟩ | hall
      · exact Or.inl ⟨j, (huse.live j).mpr (Or.inr hj), (hold j hj).trans hun⟩
      · exact absurd (hall i) hfree
    · exact Or.inl ⟨i, (huse.live i).mpr (Or.inl rfl), huse.ipAddr.trans hsrc⟩

theorem CacheKeyed.uses (h : CacheKeyed cfg tr nd) (hacc : e.accepted cfg)
    (hfinds : FindsEntry nd e.pkt i) (huse : UsesEntry nd nd' i e.pkt) :
    CacheKeyed cfg (tr ++ [(e, sends)]) nd' := by
  rcases hfinds with hl | ⟨-, hl, ha⟩
  · by_cases hi : Live nd i
    · refine h.congr ?_ (huse.ipAddr_of_lookup hl) ?_ ?_
      · intro j
        rw [huse.live, or_iff_right_of_imp fun hji => hji ▸ hi]
      · exact fun hs => unspecifiedSeen_concat.mpr (Or.inl hs)
      · intro hs
        rcases unspecifiedSeen_concat.mp hs with hs | ⟨-, hsrc⟩
        · exact h.stored hs
        · exact Or.inl ⟨i, hi, (lookupNDEntry_some hl).trans hsrc⟩
    · obtain ⟨hsrc, hnone⟩ := h.lookup_free hl hi
      have hfirst := (lookupNDEntry_eq_some_iff.mp hl).2
      refine h.claim hacc huse hi (fun j hj => hsrc ▸ hnone j hj) ?_
      intro _ j hji hj
      rcases Nat.lt_trichotomy i.val j.val with hlt | heq | hgt
      · exact hlt
      · exact absurd (Fin.ext heq.symm) hji
      · exact absurd ((h.free j hj).trans hsrc.symm) (hfirst j hgt)
  · have hfree := not_not_intro (getAvailNDEntry_eq_some_iff.mp ha).1
    have hne := lookupNDEntry_eq_none_iff.mp hl
    exact h.claim hacc huse hfree (fun j _ => hne j) fun hsrc => absurd hsrc (h.avail_ne hl ha)

/-- A message that finds no entry came when all were in use. -/
theorem CacheKeyed.all_live (h : CacheKeyed cfg tr nd)
    (hnone : ∀ i, ¬ FindsEntry nd e.pkt i) (hsrc : e.pkt.ip.src = unspecified) :
    ∀ i, Live nd i := by
  intro i
  by_contra hi
  cases hl : lookupNDEntry nd e.pkt.ip.src with
  | none => exact lookupNDEntry_eq_none_iff.mp hl i ((h.free i hi).trans hsrc.symm)
  | some j => exact hnone j (Or.inl hl)

theorem cacheKeyed_step {box box' : Box} (h : CacheKeyed cfg tr box.nd)
    (hs : neighbourStep cfg box e = .ok (sends, box')) :
    CacheKeyed cfg (tr ++ [(e, sends)]) box'.nd := by
  rcases neighbourStep_cases hs with ⟨hacc, i, hfinds, huse⟩ | ⟨hacc, hnone, hsame⟩ | ⟨hacc, hsame⟩
  · exact h.uses hacc hfinds huse
  · rw [hsame]
    refine h.congr (fun _ => Iff.rfl) (fun _ => rfl) ?_ ?_
    · exact fun hs => unspecifiedSeen_concat.mpr (Or.inl hs)
    · intro hs
      rcases unspecifiedSeen_concat.mp hs with hs | ⟨-, hsrc⟩
      · exact h.stored hs
      · exact Or.inr (h.all_live hnone hsrc)
  · rw [hsame]
    refine h.congr (fun _ => Iff.rfl) (fun _ => rfl) ?_ ?_
    · exact fun hs => unspecifiedSeen_concat.mpr (Or.inl hs)
    · intro hs
      rcases unspecifiedSeen_concat.mp hs with hs | ⟨hacc', -⟩
      · exact h.stored hs
      · exact absurd hacc' hacc

end Step

theorem cacheKeyed_run {cfg : Config} {box₀ box : Box} (h₀ : box₀.nd = ndCacheInit)
    {tr : List (NeighbourEvent × List NeighbourSend)}
    (hr : Run (neighbourStep cfg) box₀ tr box) : CacheKeyed cfg tr box.nd := by
  refine Run.invariant (I := fun tr box => CacheKeyed cfg tr box.nd) ?_ ?_ hr
  · rw [h₀]
    exact cacheKeyed_init cfg
  · exact fun _ _ _ _ _ h hs => cacheKeyed_step h hs

/-! ## What a lookup sees -/

/-- A lookup finds an entry exactly when it is in use with the address. -/
def LookupSeesLive (nd : NDCache) (a : Ipv6Addr) : Prop :=
  ∀ i, lookupNDEntry nd a = some i ↔ Live nd i ∧ (nd.get i).ipAddr = a

/-- The free entries that a message puts to use are put to use by `getAvailNDEntry`. -/
def ClaimedByAvail (nd nd' : NDCache) (a : Ipv6Addr) : Prop :=
  ∀ i, ¬ Live nd i → Live nd' i → lookupNDEntry nd a = none ∧ (getAvailNDEntry nd).1 = some i

/-- The unspecified address is not that of a free entry alone. -/
def UnspecifiedKnown (cfg : Config) (tr : List (NeighbourEvent × List NeighbourSend))
    (nd : NDCache) : Prop :=
  UnspecifiedSeen cfg tr ∨ ∀ i, Live nd i

section Sees

variable {cfg : Config} {tr : List (NeighbourEvent × List NeighbourSend)} {nd : NDCache}
  {a : Ipv6Addr}

/-- A lookup never finds a free entry of a known address. -/
theorem CacheKeyed.live_of_lookup (h : CacheKeyed cfg tr nd)
    (hknown : a = unspecified → UnspecifiedKnown cfg tr nd) {i : Fin maxNdEntry}
    (hl : lookupNDEntry nd a = some i) : Live nd i := by
  by_contra hi
  obtain ⟨ha, hnone⟩ := h.lookup_free hl hi
  rcases hknown ha with hseen | hall
  · rcases h.stored hseen with ⟨j, hj, hun⟩ | hall
    · exact hnone j hj hun
    · exact hi (hall i)
  · exact hi (hall i)

theorem CacheKeyed.lookup_of_live (h : CacheKeyed cfg tr nd) {i : Fin maxNdEntry}
    (hi : Live nd i) (hip : (nd.get i).ipAddr = a) : lookupNDEntry nd a = some i := by
  refine lookupNDEntry_eq_some_iff.mpr ⟨hip, fun j hj hja => ?_⟩
  by_cases hlive : Live nd j
  · have hji : j = i := h.distinct j i hlive hi (hja.trans hip.symm)
    exact Nat.lt_irrefl _ (hji ▸ hj)
  · have hun := hja.symm.trans (h.free j hlive)
    exact Nat.lt_asymm hj (h.first i j hi (hip.trans hun) hlive)

theorem CacheKeyed.lookupSeesLive_iff (h : CacheKeyed cfg tr nd) :
    LookupSeesLive nd a ↔ (a = unspecified → UnspecifiedKnown cfg tr nd) := by
  constructor
  · rintro hsees rfl
    by_cases hall : ∀ i, Live nd i
    · exact Or.inr hall
    · obtain ⟨i, hi⟩ := not_forall.mp hall
      have hsome : lookupNDEntry nd unspecified ≠ none := fun hnone =>
        lookupNDEntry_eq_none_iff.mp hnone i (h.free i hi)
      obtain ⟨j, hj⟩ := Option.ne_none_iff_exists'.mp hsome
      obtain ⟨hlive, hun⟩ := (hsees j).mp hj
      exact Or.inl (h.seen j hlive hun)
  · intro hknown i
    constructor
    · intro hl
      exact ⟨h.live_of_lookup hknown hl, (lookupNDEntry_eq_some_iff.mp hl).1⟩
    · rintro ⟨hi, hip⟩
      exact h.lookup_of_live hi hip

theorem CacheKeyed.claimedByAvail_iff {box box' : Box} {e : NeighbourEvent}
    {sends : List NeighbourSend} (h : CacheKeyed cfg tr box.nd)
    (hs : neighbourStep cfg box e = .ok (sends, box')) :
    ClaimedByAvail box.nd box'.nd e.pkt.ip.src ↔
      (e.accepted cfg → e.pkt.ip.src = unspecified → UnspecifiedKnown cfg tr box.nd) := by
  rcases neighbourStep_cases hs with ⟨hacc, i, hfinds, huse⟩ | ⟨hacc, hnone, hsame⟩ | ⟨hacc, hsame⟩
  · constructor
    · intro hclaimed _ hsrc
      by_cases hall : ∀ i, Live box.nd i
      · exact Or.inr hall
      · obtain ⟨j, hj⟩ := not_forall.mp hall
        have hsome : lookupNDEntry box.nd e.pkt.ip.src ≠ none := fun hl =>
          lookupNDEntry_eq_none_iff.mp hl j ((h.free j hj).trans hsrc.symm)
        have hl : lookupNDEntry box.nd e.pkt.ip.src = some i :=
          hfinds.resolve_right fun hr => hsome hr.2.1
        have hi : Live box.nd i := by
          by_contra hi
          exact hsome (hclaimed i hi ((huse.live i).mpr (Or.inl rfl))).1
        exact Or.inl (h.seen i hi ((lookupNDEntry_some hl).trans hsrc))
    · intro hknown j hj hj'
      obtain rfl : j = i := ((huse.live j).mp hj').resolve_right hj
      rcases hfinds with hl | ⟨-, hl, ha⟩
      · exact absurd (h.live_of_lookup (hknown hacc) hl) hj
      · exact ⟨hl, ha⟩
  · refine iff_of_true (fun j hj hj' => absurd (hsame ▸ hj') hj) fun _ hsrc => ?_
    exact Or.inr (h.all_live hnone hsrc)
  · exact iff_of_true (fun j hj hj' => absurd (hsame ▸ hj') hj) fun hacc' => absurd hacc' hacc

end Sees

/-- After any run a lookup sees exactly the entries in use, whose addresses all differ,
except that before a message from the unspecified address is accepted, a lookup for that
address finds a free entry if there is one; and a message puts a free entry to use without
`getAvailNDEntry` exactly when it is the first such message and finds a free entry. -/
theorem lookupSeesLive_run {cfg : Config} {box₀ box : Box} (h₀ : box₀.nd = ndCacheInit)
    {tr : List (NeighbourEvent × List NeighbourSend)}
    (hr : Run (neighbourStep cfg) box₀ tr box) :
    (∀ a, LookupSeesLive box.nd a ↔ (a = unspecified → UnspecifiedKnown cfg tr box.nd)) ∧
    (∀ i j, Live box.nd i → Live box.nd j → (box.nd.get i).ipAddr = (box.nd.get j).ipAddr →
      i = j) ∧
    (∀ e sends box', neighbourStep cfg box e = .ok (sends, box') →
      (ClaimedByAvail box.nd box'.nd e.pkt.ip.src ↔
        (e.accepted cfg → e.pkt.ip.src = unspecified → UnspecifiedKnown cfg tr box.nd))) := by
  have h := cacheKeyed_run h₀ hr
  exact ⟨fun _ => h.lookupSeesLive_iff, h.distinct, fun _ _ _ hs => h.claimedByAvail_iff hs⟩

theorem lookupSeesLive_host_known :
    LookupSeesLive (nsolicitHandler Box.init exampleUnsummed).1.nd exampleHost := by
  have hvalid : nsolicitValid exampleConfig (fun _ => 0) exampleUnsummed = .ok true := by
    decide +kernel
  have hr : Run (neighbourStep exampleConfig) Box.init
      [(⟨fun _ => 0, exampleUnsummed⟩, (nsolicitHandler Box.init exampleUnsummed).2)]
      (nsolicitHandler Box.init exampleUnsummed).1 :=
    Run.next .start (neighbourIn_solicit rfl hvalid Box.init)
  exact ((lookupSeesLive_run rfl hr).1 exampleHost).mpr fun h => absurd h (by decide)

/-- A solicitation by a host that has no address yet. -/
def exampleProbe : NetPacket :=
  exampleNeighbourMessage unspecified exampleConfig.snmAddr
    ([0x87, 0, 0, 0, 0, 0, 0, 0] ++ exampleConfig.ipv6Addr.toList)

/-- In the fresh cache a lookup for the unspecified address finds a free entry, and the
probe makes it reachable. -/
theorem lookupSeesLive_fails_unspecified :
    nsolicitValid exampleConfig (fun _ => 0) exampleProbe = .ok true ∧
    ¬ LookupSeesLive Box.init.nd unspecified ∧
    ¬ ClaimedByAvail Box.init.nd (nsolicitHandler Box.init exampleProbe).1.nd unspecified := by
  have hlookup : lookupNDEntry Box.init.nd unspecified = some 0 := by decide +kernel
  have hfree : ¬ Live Box.init.nd 0 := not_live_ndCacheInit 0
  have hlive : Live (nsolicitHandler Box.init exampleProbe).1.nd 0 := by decide +kernel
  refine ⟨by decide +kernel, ?_, ?_⟩
  · exact fun hsees => hfree ((hsees 0).mp hlookup).1
  · exact fun hclaimed => absurd (hlookup.symm.trans (hclaimed 0 hfree hlive).1) (by simp)

end NatBox
