import Mathlib.Data.List.Chain
import Mathlib.Data.List.Nodup
import Mathlib.Logic.Function.Basic

/-
Doubly linked lists in a table of links.

`Linked next prev nodes` says that each node of the list is linked to the one behind it
in both directions.  Several lists may share one table, and linking a node in or
unlinking one writes four links of it: `link` and `unlink` say what that does to the list
it happens in, and `Linked.congr` that a list with none of the written nodes stays as it
is.  A `LinkedRing` is a list that leads back to the node it starts from.
-/

namespace Links

open Function

variable {ι : Type}

/-- `y` is behind `x`. -/
def Edge (next prev : ι → ι) (x y : ι) : Prop := next x = y ∧ prev y = x

def Linked (next prev : ι → ι) (nodes : List ι) : Prop := nodes.IsChain (Edge next prev)

variable {next prev next' prev' : ι → ι} {nodes : List ι}

/-- A list reads the forward link of every node that has one behind it, and the backward
link of that one. -/
theorem Linked.congr_edges (h : Linked next prev nodes)
    (hag : ∀ l₁ x y l₂, nodes = l₁ ++ x :: y :: l₂ → next' x = next x ∧ prev' y = prev y) :
    Linked next' prev' nodes := by
  refine List.isChain_iff_forall_rel_of_append_cons_cons.mpr fun x y l₁ l₂ heq => ?_
  have hxy := List.isChain_iff_forall_rel_of_append_cons_cons.mp h heq
  have hsame := hag l₁ x y l₂ heq
  exact ⟨hsame.1.trans hxy.1, hsame.2.trans hxy.2⟩

theorem Linked.congr (h : Linked next prev nodes) (hn : ∀ x ∈ nodes, next' x = next x)
    (hp : ∀ x ∈ nodes, prev' x = prev x) : Linked next' prev' nodes :=
  h.congr_edges fun l₁ x y l₂ heq => ⟨hn x (by simp [heq]), hp y (by simp [heq])⟩

/-- The links between two neighbours. -/
theorem Linked.edge {A B : List ι} {a b : ι} (h : Linked next prev (A ++ a :: b :: B)) :
    next a = b ∧ prev b = a := (List.isChain_append_cons_cons.mp h).2.1

/-- The first node has the last one behind it only at the end. -/
theorem not_last_of_nodup {A l₁ l₂ : List ι} {a x y : ι} (hnd : (A ++ [a]).Nodup)
    (heq : A ++ [a] = l₁ ++ x :: y :: l₂) : x ≠ a := by
  have hlast : (A ++ [a]).getLast? = (y :: l₂).getLast? := by
    rw [heq, List.getLast?_append_cons, List.getLast?_cons_cons]
  rw [List.getLast?_concat] at hlast
  have hmem : a ∈ y :: l₂ := List.mem_of_getLast? hlast.symm
  rw [heq] at hnd
  have hx := (List.nodup_append.mp hnd).2.1
  intro hxa
  exact (List.nodup_cons.mp hx).1 (hxa ▸ hmem)

variable {A B : List ι} {a b x : ι}

/-- The list up to `a` is not touched by what is written to the links behind it. -/
theorem Linked.before (h : Linked next prev (A ++ [a])) (hnd : (A ++ [a]).Nodup)
    (hn : ∀ y ∈ A ++ [a], y ≠ a → next' y = next y) (hp : ∀ y ∈ A ++ [a], prev' y = prev y) :
    Linked next' prev' (A ++ [a]) := by
  refine h.congr_edges fun l₁ x y l₂ heq => ⟨?_, hp y (by simp [heq])⟩
  exact hn x (by simp [heq]) (not_last_of_nodup hnd heq)

/-- Nor is the list from `b` on by what is written to the links in front of it. -/
theorem Linked.after (h : Linked next prev (b :: B)) (hnd : (b :: B).Nodup)
    (hn : ∀ y ∈ b :: B, next' y = next y) (hp : ∀ y ∈ B, y ≠ b → prev' y = prev y) :
    Linked next' prev' (b :: B) := by
  refine h.congr_edges fun l₁ x y l₂ heq => ⟨hn x (by simp [heq]), ?_⟩
  have hy : y ∈ B := by
    cases l₁ with
    | nil => simp_all
    | cons c l₁ => simp_all
  exact hp y hy fun hyb => (List.nodup_cons.mp hnd).1 (hyb ▸ hy)

/-- Two neighbours are one in front of the end and one behind the front. -/
theorem mem_of_neighbours {l₁ l₂ : List ι} {y z : ι} (heq : nodes = l₁ ++ y :: z :: l₂) :
    y ∈ nodes.dropLast ∧ z ∈ nodes.tail := by
  constructor
  · rw [heq, List.dropLast_append_of_ne_nil (List.cons_ne_nil _ _), List.dropLast_cons_cons]
    simp
  · rw [heq]
    cases l₁ with
    | nil => simp
    | cons c l₁ => simp

variable [DecidableEq ι]

/-- `x` linked in between `a` and `b`, which may stand elsewhere in the list as well: `a` at
its end and `b` at its front. -/
theorem Linked.link_between (h : Linked next prev (A ++ a :: b :: B)) (haA : a ∉ A)
    (haB : a ∉ (b :: B).dropLast) (hbA : b ∉ (A ++ [a]).tail) (hbB : b ∉ B)
    (hx : x ∉ A ++ a :: b :: B) :
    Linked (update (update next x b) a x) (update (update prev x a) b x)
      (A ++ a :: x :: b :: B) := by
  obtain ⟨hA, -, hB⟩ := List.isChain_append_cons_cons.mp h
  have hsplit : A ++ a :: b :: B = (A ++ [a]) ++ b :: B := by simp
  rw [hsplit] at hx
  have hxa : x ≠ a := fun he => hx (by simp [he])
  have hxb : x ≠ b := fun he => hx (by simp [he])
  refine List.isChain_append_cons_cons.mpr ⟨?_, ⟨update_self _ _ _, ?_⟩, ?_⟩
  · refine Linked.congr_edges hA fun l₁ y z l₂ heq => ?_
    obtain ⟨hy, hz⟩ := mem_of_neighbours heq
    rw [List.dropLast_concat] at hy
    have hyx : y ≠ x := fun he => hx (List.mem_append_left _ (he ▸ List.mem_append_left _ hy))
    have hzx : z ≠ x := fun he => hx (List.mem_append_left _ (he ▸ List.mem_of_mem_tail hz))
    have hya : y ≠ a := fun he => haA (he ▸ hy)
    have hzb : z ≠ b := fun he => hbA (he ▸ hz)
    rw [update_of_ne hya, update_of_ne hyx, update_of_ne hzb, update_of_ne hzx]
    exact ⟨rfl, rfl⟩
  · rw [update_of_ne hxb, update_self]
  · refine List.isChain_cons_cons.mpr ⟨⟨?_, update_self _ _ _⟩, ?_⟩
    · rw [update_of_ne hxa, update_self]
    · refine Linked.congr_edges hB fun l₁ y z l₂ heq => ?_
      obtain ⟨hy, hz⟩ := mem_of_neighbours heq
      have hyx : y ≠ x :=
        fun he => hx (List.mem_append_right _ (he ▸ List.dropLast_subset _ hy))
      have hzx : z ≠ x := fun he => hx (List.mem_append_right _ (he ▸ List.mem_of_mem_tail hz))
      have hya : y ≠ a := fun he => haB (he ▸ hy)
      have hzb : z ≠ b := fun he => hbB (he ▸ hz)
      rw [update_of_ne hya, update_of_ne hyx, update_of_ne hzb, update_of_ne hzx]
      exact ⟨rfl, rfl⟩

/-- `x` linked in between `a` and `b`. -/
theorem Linked.link (h : Linked next prev (A ++ a :: b :: B)) (hnd : (A ++ a :: b :: B).Nodup)
    (hx : x ∉ A ++ a :: b :: B) :
    Linked (update (update next x b) a x) (update (update prev x a) b x)
      (A ++ a :: x :: b :: B) := by
  have hsplit : A ++ a :: b :: B = (A ++ [a]) ++ b :: B := by simp
  rw [hsplit] at hnd
  obtain ⟨hndA, hndB, hdisj⟩ := List.nodup_append.mp hnd
  refine h.link_between ?_ (fun hmem => ?_) (fun hmem => ?_) (List.nodup_cons.mp hndB).1 hx
  · exact fun hmem => (List.nodup_append.mp hndA).2.2 a hmem a List.mem_cons_self rfl
  · exact hdisj a (by simp) a (List.dropLast_subset _ hmem) rfl
  · exact hdisj b (List.mem_of_mem_tail hmem) b List.mem_cons_self rfl

/-- `x` unlinked from between `a` and `b`. -/
theorem Linked.unlink (h : Linked next prev (A ++ a :: x :: b :: B))
    (hnd : (A ++ a :: x :: b :: B).Nodup) :
    Linked (update next a b) (update prev b a) (A ++ a :: b :: B) := by
  obtain ⟨hA, -, hxB⟩ := List.isChain_append_cons_cons.mp h
  obtain ⟨-, hB⟩ := List.isChain_cons_cons.mp hxB
  have hsplit : A ++ a :: x :: b :: B = (A ++ [a]) ++ x :: b :: B := by simp
  rw [hsplit] at hnd
  obtain ⟨hndA, hndB, hdisj⟩ := List.nodup_append.mp hnd
  have hndB := (List.nodup_cons.mp hndB).2
  refine List.isChain_append_cons_cons.mpr ⟨?_, ⟨update_self _ _ _, update_self _ _ _⟩, ?_⟩
  · refine Linked.before hA hndA (fun y _ hya => update_of_ne hya _ _) fun y hy => ?_
    exact update_of_ne (hdisj y hy b (by simp)) _ _
  · refine Linked.after hB hndB (fun y hy => ?_) fun y _ hyb => update_of_ne hyb _ _
    exact update_of_ne (fun he => hdisj a (by simp) y (List.mem_cons_of_mem _ hy) he.symm) _ _

/-! ## Rings

The links of a ring lead from `s` through the nodes back to `s`. -/

def LinkedRing (next prev : ι → ι) (s : ι) (nodes : List ι) : Prop :=
  Linked next prev (s :: (nodes ++ [s]))

variable {s : ι} {l₁ l₂ : List ι}

/-- `x` linked into a ring, in front of `l₂`. -/
theorem LinkedRing.link (h : LinkedRing next prev s (l₁ ++ l₂)) (hnd : (s :: (l₁ ++ l₂)).Nodup)
    (hx : x ∉ s :: (l₁ ++ l₂)) (hA : s :: l₁ = A ++ [a]) (hB : l₂ ++ [s] = b :: B) :
    LinkedRing (update (update next x b) a x) (update (update prev x a) b x) s (l₁ ++ x :: l₂) := by
  have hsplit : s :: (l₁ ++ l₂ ++ [s]) = A ++ a :: b :: B := by
    rw [List.append_assoc, ← List.cons_append, hA, hB, List.append_assoc, List.singleton_append]
  have hsplit' : s :: (l₁ ++ x :: l₂ ++ [s]) = A ++ a :: x :: b :: B := by
    rw [List.append_assoc, ← List.cons_append, hA, List.cons_append, hB, List.append_assoc,
      List.singleton_append]
  unfold LinkedRing at h ⊢
  rw [hsplit] at h
  rw [hsplit']
  rw [← List.cons_append] at hnd hx
  obtain ⟨hnd₁, hnd₂, hdisj⟩ := List.nodup_append.mp hnd
  have ha : a ∈ s :: l₁ := by simp [hA]
  have hb : b ∈ l₂ ++ [s] := by simp [hB]
  refine h.link_between ?_ ?_ ?_ ?_ ?_
  · rw [hA] at hnd₁
    exact fun hmem => (List.nodup_append.mp hnd₁).2.2 a hmem a List.mem_cons_self rfl
  · rw [← hB, List.dropLast_concat]
    exact fun hmem => hdisj a ha a hmem rfl
  · rw [← hA, List.tail_cons]
    intro hmem
    rcases List.mem_append.mp hb with hb | hb
    · exact hdisj b (List.mem_cons_of_mem s hmem) b hb rfl
    · exact (List.nodup_cons.mp hnd₁).1 (List.mem_singleton.mp hb ▸ hmem)
  · have hndB : (l₂ ++ [s]).Nodup := by
      refine List.nodup_append.mpr ⟨hnd₂, by simp, fun y hy z hz => ?_⟩
      rw [List.mem_singleton.mp hz]
      exact (hdisj s List.mem_cons_self y hy).symm
    rw [hB] at hndB
    exact (List.nodup_cons.mp hndB).1
  · rw [← hsplit]
    intro hmem
    refine hx ?_
    simp only [List.mem_cons, List.mem_append, List.not_mem_nil] at hmem ⊢
    tauto

omit [DecidableEq ι] in
/-- The links say what the nodes are. -/
theorem linked_unique {l l' : List ι} {c : ι} (h : Linked next prev (c :: (l ++ [s])))
    (h' : Linked next prev (c :: (l' ++ [s]))) (hs : s ∉ l) (hs' : s ∉ l') : l = l' := by
  induction l generalizing c l' with
  | nil =>
    cases l' with
    | nil => rfl
    | cons y l' =>
      have hy := (List.isChain_cons_cons.mp h').1.1
      rw [(List.isChain_cons_cons.mp h).1.1] at hy
      exact absurd (hy ▸ List.mem_cons_self) hs'
  | cons z l ih =>
    obtain ⟨hz, hrest⟩ := List.isChain_cons_cons.mp h
    cases l' with
    | nil =>
      have hy := (List.isChain_cons_cons.mp h').1.1
      rw [hz.1] at hy
      exact absurd (hy ▸ List.mem_cons_self) hs
    | cons y l' =>
      obtain ⟨hy, hrest'⟩ := List.isChain_cons_cons.mp h'
      obtain rfl : z = y := hz.1.symm.trans hy.1
      rw [ih hrest hrest' (fun hmem => hs (List.mem_cons_of_mem _ hmem))
        fun hmem => hs' (List.mem_cons_of_mem _ hmem)]

end Links
