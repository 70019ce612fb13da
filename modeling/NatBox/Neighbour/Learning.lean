import NatBox.Neighbour.CacheRuns
import NatBox.Neighbour.Options

/-
Where the MAC addresses of the neighbour cache come from.

Both handlers mark the entry reachable before they look for a link-layer address option,
and they look at one place only, whatever the length of the payload.  `LearnsFirst` is
what a message needs for what they store to be something it carried.
-/

namespace NatBox

open Runs

/-- The first option is a source link-layer address inside the payload. -/
def LearnsFirst (pkt : NetPacket) : Prop :=
  pkt.body 24 = 1 ∧ pkt.body 25 ≠ 0 ∧
    24 + 8 * (pkt.body 25).toNat ≤ pkt.ip.hostPayloadLen.toNat

instance (pkt : NetPacket) : Decidable (LearnsFirst pkt) :=
  inferInstanceAs (Decidable (_ ∧ _))

theorem LearnsFirst.carriesMac {pkt : NetPacket} (h : LearnsFirst pkt) :
    CarriesMac pkt.body pkt.ip.hostPayloadLen.toNat 24 (macAt pkt.body 26) :=
  ⟨24, .first, Or.inl h.1, h.2.1, h.2.2, rfl⟩

/-! ## What the cache holds -/

/-- The address of the entry was carried by an accepted message from the entry's address,
in an option inside its payload. -/
def LearnedFrom (cfg : Config) (tr : List (NeighbourEvent × List NeighbourSend))
    (entry : NDCacheEntry) : Prop :=
  ∃ c ∈ tr, c.1.accepted cfg ∧ c.1.pkt.ip.src = entry.ipAddr ∧
    CarriesMac c.1.pkt.body c.1.pkt.ip.hostPayloadLen.toNat 24 entry.macAddr

/-- Every reachable entry holds a learned address. -/
def ReachableLearned (cfg : Config) (tr : List (NeighbourEvent × List NeighbourSend))
    (box : Box) : Prop :=
  ∀ i, (box.nd.get i).state = ndReachable → LearnedFrom cfg tr (box.nd.get i)

/-- An accepted message that finds an entry either has the option at the place where it is
looked for, inside the payload, or has another byte there and finds an entry in use. -/
def LearnStep (cfg : Config) (box : Box) (e : NeighbourEvent) : Prop :=
  e.accepted cfg → ∀ i, FindsEntry box.nd e.pkt i →
    LearnsFirst e.pkt ∨ (e.pkt.body 24 ≠ 1 ∧ Live box.nd i)

section Step

variable {cfg : Config} {tr : List (NeighbourEvent × List NeighbourSend)}
  {e : NeighbourEvent} {sends : List NeighbourSend} {nd nd' : NDCache} {i : Fin maxNdEntry}

theorem LearnedFrom.concat {entry : NDCacheEntry} (h : LearnedFrom cfg tr entry)
    (c : NeighbourEvent × List NeighbourSend) : LearnedFrom cfg (tr ++ [c]) entry := by
  obtain ⟨c', hmem, hfrom⟩ := h
  exact ⟨c', List.mem_append_left _ hmem, hfrom⟩

/-- An entry in use that a message finds has the address of the sender. -/
theorem FindsEntry.ipAddr {pkt : NetPacket} (h : FindsEntry nd pkt i) (hi : Live nd i) :
    (nd.get i).ipAddr = pkt.ip.src := by
  rcases h with hl | ⟨-, -, ha⟩
  · exact lookupNDEntry_some hl
  · exact absurd (getAvailNDEntry_eq_some_iff.mp ha).1 hi

/-- The entry that a message uses is learned afterwards. -/
theorem UsesEntry.learnedFrom (huse : UsesEntry nd nd' i e.pkt) (hacc : e.accepted cfg)
    (hfinds : FindsEntry nd e.pkt i)
    (hlearns : LearnsFirst e.pkt ∨ (e.pkt.body 24 ≠ 1 ∧ Live nd i))
    (hold : Live nd i → LearnedFrom cfg tr (nd.get i)) :
    LearnedFrom cfg (tr ++ [(e, sends)]) (nd'.get i) := by
  rcases hlearns with hfirst | ⟨hother, hi⟩
  · refine ⟨(e, sends), List.mem_append_right _ List.mem_cons_self, hacc, huse.ipAddr.symm, ?_⟩
    rw [huse.macAddr, if_pos hfirst.1]
    exact hfirst.carriesMac
  · obtain ⟨c, hmem, hacc', hsrc, hcarries⟩ := (hold hi).concat (e, sends)
    refine ⟨c, hmem, hacc', ?_, ?_⟩
    · rw [hsrc, huse.ipAddr, hfinds.ipAddr hi]
    · rw [huse.macAddr, if_neg hother]
      exact hcarries

theorem learned_step {box box' : Box} (h : ∀ i, Live box.nd i → LearnedFrom cfg tr (box.nd.get i))
    (hs : neighbourStep cfg box e = .ok (sends, box')) (hC : LearnStep cfg box e) :
    ∀ i, Live box'.nd i → LearnedFrom cfg (tr ++ [(e, sends)]) (box'.nd.get i) := by
  intro j hj
  rcases neighbourStep_cases hs with ⟨hacc, i, hfinds, huse⟩ | ⟨-, -, hsame⟩ | ⟨-, hsame⟩
  · rcases (huse.live j).mp hj with rfl | hj'
    · exact huse.learnedFrom hacc hfinds (hC hacc j hfinds) (h j)
    · by_cases hji : j = i
      · subst hji
        exact huse.learnedFrom hacc hfinds (hC hacc j hfinds) (h j)
      · rw [huse.others j hji]
        exact (h j hj').concat _
  · rw [hsame] at hj ⊢
    exact (h j hj).concat _
  · rw [hsame] at hj ⊢
    exact (h j hj).concat _

end Step

/-- In a run in which every message meets the condition, every reachable entry holds a
learned address in every state. -/
theorem reachableLearned_run {cfg : Config} {box₀ : Box} (h₀ : box₀.nd = ndCacheInit)
    {tr : List (NeighbourEvent × List NeighbourSend)}
    (hC : AllSteps (neighbourStep cfg) box₀ (fun box e _ => LearnStep cfg box e) tr) :
    AllStates (neighbourStep cfg) box₀ (ReachableLearned cfg) tr := by
  refine allStates_of_allSteps
    (I := fun tr box => ∀ i, Live box.nd i → LearnedFrom cfg tr (box.nd.get i)) ?_ ?_ ?_ hC
  · rw [h₀]
    exact fun i hi => absurd hi (not_live_ndCacheInit i)
  · exact fun _ _ _ _ _ h hs hgood => learned_step h hs hgood
  · intro tr box h i hi
    refine h i ?_
    unfold Live
    rw [hi]
    decide

theorem reachableLearned_unsummed :
    ReachableLearned exampleConfig
      [(⟨fun _ => 0, exampleUnsummed⟩, (nsolicitHandler Box.init exampleUnsummed).2)]
      (nsolicitHandler Box.init exampleUnsummed).1 := by
  have hvalid : nsolicitValid exampleConfig (fun _ => 0) exampleUnsummed = .ok true := by
    decide +kernel
  have hs : neighbourStep exampleConfig Box.init ⟨fun _ => 0, exampleUnsummed⟩ =
      .ok ((nsolicitHandler Box.init exampleUnsummed).2,
        (nsolicitHandler Box.init exampleUnsummed).1) :=
    neighbourIn_solicit rfl hvalid Box.init
  have hlearns : LearnsFirst exampleUnsummed := by decide +kernel
  have hC : AllSteps (neighbourStep exampleConfig) Box.init
      (fun box e _ => LearnStep exampleConfig box e)
      [(⟨fun _ => 0, exampleUnsummed⟩, (nsolicitHandler Box.init exampleUnsummed).2)] :=
    AllSteps.next allSteps_nil .start hs fun _ _ _ => Or.inl hlearns
  exact reachableLearned_run rfl hC _ _ (List.prefix_refl _) (Run.next .start hs)

/-- A solicitation from the host without options. -/
def exampleSilent : NetPacket :=
  exampleNeighbourMessage exampleHost exampleConfig.snmAddr
    ([0x87, 0, 0, 0, 0, 0, 0, 0] ++ exampleConfig.ipv6Addr.toList)

/-- It is accepted and makes an entry reachable, whose address stays zero. -/
theorem reachableLearned_fails_silent :
    neighbourStep exampleConfig Box.init ⟨fun _ => 0, exampleSilent⟩ =
      .ok ([], (nsolicitHandler Box.init exampleSilent).1) ∧
    ¬ ReachableLearned exampleConfig [(⟨fun _ => 0, exampleSilent⟩, [])]
      (nsolicitHandler Box.init exampleSilent).1 := by
  have hvalid : nsolicitValid exampleConfig (fun _ => 0) exampleSilent = .ok true := by
    decide +kernel
  have hsends : (nsolicitHandler Box.init exampleSilent).2 = [] := by decide +kernel
  have hreach : ((nsolicitHandler Box.init exampleSilent).1.nd.get 0).state = ndReachable := by
    decide +kernel
  have hshort : ¬ 24 < exampleSilent.ip.hostPayloadLen.toNat := by decide +kernel
  constructor
  · rw [← hsends]
    exact neighbourIn_solicit rfl hvalid Box.init
  · intro hlearned
    obtain ⟨c, hmem, -, -, hcarries⟩ := hlearned 0 hreach
    obtain rfl := List.mem_singleton.mp hmem
    exact hshort hcarries.lt

end NatBox
