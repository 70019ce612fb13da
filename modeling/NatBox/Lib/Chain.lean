import Mathlib.Data.List.Nodup
import Mathlib.Logic.Function.Basic

/-
Singly linked lists that end in a null pointer, and the lists that share a set of nodes.

`Leads next p l` says that the links lead from `p` through the nodes of `l` to the null
pointer.  A write to a link matters to the lists that have its node; what it does to them is
said by `Leads.congr` and `Leads.append`, in terms of the links before and after.
-/

namespace Chain

variable {ν : Type}

def Leads (next : ν → Option ν) : Option ν → List ν → Prop
  | p, [] => p = none
  | p, x :: l => p = some x ∧ Leads next (next x) l

variable {next next' : ν → Option ν} {p q : Option ν} {l m : List ν} {x : ν}

@[simp] theorem leads_nil : Leads next p [] ↔ p = none := Iff.rfl

@[simp] theorem leads_cons : Leads next p (x :: l) ↔ p = some x ∧ Leads next (next x) l := Iff.rfl

theorem Leads.head_eq (h : Leads next p l) : p = l.head? := by
  cases l with
  | nil => exact h
  | cons x l => exact h.1

theorem Leads.eq_nil (h : Leads next none l) : l = [] := by
  cases l with
  | nil => rfl
  | cons x l => cases h.1

theorem Leads.eq_cons (h : Leads next (some x) l) : ∃ m, l = x :: m ∧ Leads next (next x) m := by
  cases l with
  | nil => cases h
  | cons y m =>
    obtain ⟨hxy, hm⟩ := h
    obtain rfl := Option.some.inj hxy
    exact ⟨m, rfl, hm⟩

theorem Leads.congr (h : Leads next p l) (hag : ∀ x ∈ l, next' x = next x) :
    Leads next' p l := by
  induction l generalizing p with
  | nil => exact h
  | cons x l ih =>
    refine ⟨h.1, ?_⟩
    rw [hag x List.mem_cons_self]
    exact ih h.2 fun y hy => hag y (List.mem_cons_of_mem x hy)

/-- The links determine the list. -/
theorem Leads.unique (hl : Leads next p l) (hm : Leads next p m) : l = m := by
  induction l generalizing p m with
  | nil =>
    obtain rfl := hl
    exact hm.eq_nil.symm
  | cons x l ih =>
    obtain ⟨rfl, hl⟩ := hl
    obtain ⟨m', rfl, hm'⟩ := hm.eq_cons
    rw [ih hl hm']

/-- The list behind a node of it. -/
theorem Leads.behind (h : Leads next p (l ++ x :: m)) : Leads next (next x) m := by
  induction l generalizing p with
  | nil => exact h.2
  | cons y l ih => exact ih h.2

/-- Coming back to a node, the list would not end. -/
theorem Leads.nodup (h : Leads next p l) : l.Nodup := by
  induction l generalizing p with
  | nil => exact List.nodup_nil
  | cons x l ih =>
    refine List.nodup_cons.mpr ⟨fun hmem => ?_, ih h.2⟩
    obtain ⟨l₁, l₂, rfl⟩ := List.append_of_mem hmem
    have hlen := congrArg List.length (h.2.unique h.2.behind)
    simp only [List.length_append, List.length_cons] at hlen
    omega

/-- The link of the last node is set to another list. -/
theorem Leads.append (h : Leads next p (l ++ [x])) (hag : ∀ y ∈ l, next' y = next y)
    (hx : next' x = q) (hq : Leads next' q m) : Leads next' p (l ++ x :: m) := by
  induction l generalizing p with
  | nil => exact ⟨h.1, hx ▸ hq⟩
  | cons y l ih =>
    refine ⟨h.1, ?_⟩
    rw [hag y List.mem_cons_self]
    exact ih h.2 fun z hz => hag z (List.mem_cons_of_mem y hz)

/-- Links that are those of the list. -/
theorem leads_of_getElem? (hp : p = l.head?)
    (hnext : ∀ j x, l[j]? = some x → next x = l[j + 1]?) : Leads next p l := by
  induction l generalizing p with
  | nil => exact hp
  | cons x l ih =>
    refine ⟨hp, ih ?_ fun j y hj => ?_⟩
    · rw [hnext 0 x rfl, List.head?_eq_getElem?]
      rfl
    · exact hnext (j + 1) y hj

/-- Consecutive nodes, each with a link to the one behind it. -/
theorem leads_range' {next : Nat → Option Nat} {a n : Nat}
    (hlinks : ∀ j, a ≤ j → j < a + n → next j = some (j + 1)) (hlast : next (a + n) = none) :
    Leads next (some a) (List.range' a (n + 1)) := by
  induction n generalizing a with
  | zero => exact ⟨rfl, hlast⟩
  | succ n ih =>
    have hrest : a + 1 + n = a + (n + 1) := by omega
    refine ⟨rfl, ?_⟩
    rw [hlinks a (Nat.le_refl a) (by omega)]
    refine ih (fun j hle hlt => hlinks j (by omega) (by omega)) ?_
    rw [hrest]
    exact hlast

/-- Every node of `all` is on exactly one of the lists, and there once. -/
structure Partition {ι : Type} (lists : ι → List ν) (all : ν → Prop) : Prop where
  nodup : ∀ i, (lists i).Nodup
  disjoint : ∀ {i j x}, x ∈ lists i → x ∈ lists j → i = j
  mem_iff : ∀ x, (∃ i, x ∈ lists i) ↔ all x

/-- A node has one place. -/
theorem Partition.place {ι : Type} {lists : ι → List ν} {all : ν → Prop} (h : Partition lists all)
    {i i' : ι} {j j' : Nat} (hj : (lists i)[j]? = some x) (hj' : (lists i')[j']? = some x) :
    i = i' ∧ j = j' := by
  obtain rfl := h.disjoint (List.mem_of_getElem? hj) (List.mem_of_getElem? hj')
  exact ⟨rfl, (List.getElem?_inj (List.getElem?_eq_some_iff.mp hj).1 (h.nodup i)).mp
    (hj.trans hj'.symm)⟩

/-- Some nodes go over from one list to another. -/
theorem Partition.move {ι : Type} {lists lists' : ι → List ν} {all : ν → Prop} {i j : ι}
    {moved : List ν} (h : Partition lists all) (hij : i ≠ j)
    (hi : (lists i).Perm (moved ++ lists' i)) (hj : (lists' j).Perm (moved ++ lists j))
    (hrest : ∀ k, k ≠ i → k ≠ j → lists' k = lists k) : Partition lists' all := by
  have hmem : ∀ k x, x ∈ lists' k → (k = j ∧ x ∈ moved) ∨ x ∈ lists k := by
    intro k x hx
    by_cases hkj : k = j
    · subst hkj
      rcases List.mem_append.mp (hj.mem_iff.mp hx) with hx | hx
      · exact .inl ⟨rfl, hx⟩
      · exact .inr hx
    · by_cases hki : k = i
      · subst hki
        exact .inr (hi.mem_iff.mpr (List.mem_append_right _ hx))
      · exact .inr (hrest k hki hkj ▸ hx)
  have hmoved : ∀ x ∈ moved, x ∈ lists i := fun x hx =>
    hi.mem_iff.mpr (List.mem_append_left _ hx)
  have hleft : ∀ x ∈ moved, x ∉ lists' i := fun x hx =>
    List.disjoint_of_nodup_append (hi.nodup_iff.mp (h.nodup i)) hx
  refine ⟨fun k => ?_, fun {k k' x} hx hx' => ?_, fun x => ⟨?_, fun hx => ?_⟩⟩
  · by_cases hkj : k = j
    · subst hkj
      refine hj.nodup_iff.mpr (List.nodup_append'.mpr
        ⟨(List.nodup_append.mp (hi.nodup_iff.mp (h.nodup i))).1, h.nodup k, ?_⟩)
      exact fun x hx hx' => hij (h.disjoint (hmoved x hx) hx')
    · by_cases hki : k = i
      · subst hki
        exact (List.nodup_append.mp (hi.nodup_iff.mp (h.nodup k))).2.1
      · exact hrest k hki hkj ▸ h.nodup k
  · rcases hmem k x hx with ⟨rfl, hm⟩ | hk <;> rcases hmem k' x hx' with ⟨rfl, hm'⟩ | hk'
    · rfl
    · exact absurd (h.disjoint (hmoved x hm) hk' ▸ hx') (hleft x hm)
    · exact absurd (h.disjoint (hmoved x hm') hk ▸ hx) (hleft x hm')
    · exact h.disjoint hk hk'
  · rintro ⟨k, hk⟩
    rcases hmem k x hk with ⟨-, hm⟩ | hk
    · exact (h.mem_iff x).mp ⟨i, hmoved x hm⟩
    · exact (h.mem_iff x).mp ⟨k, hk⟩
  · obtain ⟨k, hk⟩ := (h.mem_iff x).mpr hx
    by_cases hki : k = i
    · subst hki
      rcases List.mem_append.mp (hi.mem_iff.mp hk) with hm | hk
      · exact ⟨j, hj.mem_iff.mpr (List.mem_append_left _ hm)⟩
      · exact ⟨k, hk⟩
    · by_cases hkj : k = j
      · subst hkj
        exact ⟨k, hj.mem_iff.mpr (List.mem_append_right _ hk)⟩
      · exact ⟨k, hrest k hki hkj ▸ hk⟩

theorem Partition.update {ι : Type} [DecidableEq ι] {lists : ι → List ν} {all : ν → Prop}
    {i j : ι} {l l' : List ν} (h : Partition lists all) (hij : i ≠ j) (moved : List ν)
    (hi : (lists i).Perm (moved ++ l)) (hj : l'.Perm (moved ++ lists j)) :
    Partition (Function.update (Function.update lists i l) j l') all := by
  have hi' : (lists i).Perm (moved ++ Function.update (Function.update lists i l) j l' i) := by
    rwa [Function.update_of_ne hij, Function.update_self]
  refine h.move hij hi' ?_ fun k hki hkj => ?_
  · rwa [Function.update_self]
  · rw [Function.update_of_ne hkj, Function.update_of_ne hki]

/-- The lists have as many nodes as there are. -/
theorem Partition.length_flatMap {ι : Type} {lists : ι → List ν} {all : ν → Prop}
    (h : Partition lists all) {is : List ι} (his : is.Nodup) (hcover : ∀ i, i ∉ is → lists i = [])
    {nodes : List ν} (hnodes : nodes.Nodup) (hall : ∀ x, all x ↔ x ∈ nodes) :
    (is.flatMap lists).length = nodes.length := by
  have hnodup : (is.flatMap lists).Nodup := List.nodup_flatMap.mpr
    ⟨fun i _ => h.nodup i, his.imp fun hij x hx hx' => hij (h.disjoint hx hx')⟩
  have hperm : (is.flatMap lists).Perm nodes := by
    refine (List.perm_ext_iff_of_nodup hnodup hnodes).mpr fun x => ?_
    rw [← hall, ← h.mem_iff, List.mem_flatMap]
    refine ⟨fun ⟨i, _, hx⟩ => ⟨i, hx⟩, fun ⟨i, hx⟩ => ⟨i, ?_, hx⟩⟩
    by_contra hi
    rw [hcover i hi] at hx
    exact List.not_mem_nil hx
  exact hperm.length_eq

end Chain
