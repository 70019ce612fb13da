import Mathlib.Data.List.Pairwise
import Mathlib.Data.Nat.Basic
import Mathlib.Order.Lattice

/-
Half-open spans `[a, b)` of a linear order, as they occur in an allocator.

`Tiles W l` says that the spans of `l`, in any order, cut `W` into pieces: it is kept
by permuting the list, by cutting a span in two and by joining two that meet.
`Separated l` says that the spans of `l` are sorted and that between any two of them
something is left out.  A separated list is determined by what it covers
(`Separated.eq_of_covers`), so that two of them which tile the same set are equal.
-/

namespace Spans

variable {α : Type} [LinearOrder α]

/-- Two spans that do not overlap. -/
def Apart (a b : α × α) : Prop := a.2 ≤ b.1 ∨ b.2 ≤ a.1

theorem Apart.symm {a b : α × α} (h : Apart a b) : Apart b a := Or.symm h

/-- What the spans of `l` cover. -/
def Covers (l : List (α × α)) (x : α) : Prop := ∃ a ∈ l, a.1 ≤ x ∧ x < a.2

theorem covers_cons {a : α × α} {l : List (α × α)} {x : α} :
    Covers (a :: l) x ↔ (a.1 ≤ x ∧ x < a.2) ∨ Covers l x := by
  simp [Covers]

theorem not_covers_nil {x : α} : ¬ Covers [] x := by
  rintro ⟨a, ha, _⟩
  cases ha

theorem covers_perm {l l' : List (α × α)} (h : l.Perm l') {x : α} :
    Covers l x ↔ Covers l' x :=
  ⟨fun ⟨a, ha, hx⟩ => ⟨a, h.mem_iff.mp ha, hx⟩, fun ⟨a, ha, hx⟩ => ⟨a, h.mem_iff.mpr ha, hx⟩⟩

/-! ## Sorted spans with something between them -/

structure Separated (l : List (α × α)) : Prop where
  pos : ∀ a ∈ l, a.1 < a.2
  sorted : l.Pairwise fun a b => a.2 < b.1

namespace Separated

variable {a b : α × α} {l l' : List (α × α)}

theorem nil : Separated ([] : List (α × α)) where
  pos _ h := nomatch h
  sorted := .nil

theorem tail (h : Separated (a :: l)) : Separated l where
  pos b hb := h.pos b (List.mem_cons_of_mem _ hb)
  sorted := (List.pairwise_cons.mp h.sorted).2

theorem head_lt (h : Separated (a :: l)) (hb : b ∈ l) : a.2 < b.1 :=
  (List.pairwise_cons.mp h.sorted).1 b hb

theorem head_pos (h : Separated (a :: l)) : a.1 < a.2 := h.pos a List.mem_cons_self

/-- Nothing in front of the first span is covered. -/
theorem head_le (h : Separated (a :: l)) {x : α} (hx : Covers (a :: l) x) : a.1 ≤ x := by
  rcases covers_cons.mp hx with hx | ⟨b, hb, hx⟩
  · exact hx.1
  · exact (h.head_pos.trans (h.head_lt hb)).le.trans hx.1

/-- The first place behind the first span is not covered. -/
theorem not_covers_end (h : Separated (a :: l)) : ¬ Covers (a :: l) a.2 := by
  intro hx
  rcases covers_cons.mp hx with hx | ⟨b, hb, hx⟩
  · exact lt_irrefl _ hx.2
  · exact absurd (h.head_lt hb) (not_lt.mpr hx.1)

theorem covers_tail (h : Separated (a :: l)) {x : α} :
    Covers l x ↔ Covers (a :: l) x ∧ a.2 ≤ x := by
  constructor
  · rintro ⟨b, hb, hx⟩
    exact ⟨covers_cons.mpr (.inr ⟨b, hb, hx⟩), (h.head_lt hb).le.trans hx.1⟩
  · rintro ⟨hx, hle⟩
    rcases covers_cons.mp hx with hx | hx
    · exact absurd hx.2 (not_lt.mpr hle)
    · exact hx

/-- The first spans of two lists that cover the same places start and end together. -/
theorem head_end_le (h : Separated (a :: l)) (hstart : a.1 = b.1)
    (hc : ∀ x, Covers (b :: l') x → Covers (a :: l) x) : b.2 ≤ a.2 := by
  by_contra hlt
  refine h.not_covers_end (hc a.2 (covers_cons.mpr (.inl ⟨?_, not_le.mp hlt⟩)))
  rw [← hstart]
  exact h.head_pos.le

/-- A separated list is determined by what it covers. -/
theorem eq_of_covers (h : Separated l) (h' : Separated l')
    (hc : ∀ x, Covers l x ↔ Covers l' x) : l = l' := by
  induction l generalizing l' with
  | nil =>
    cases l' with
    | nil => rfl
    | cons b l' =>
      exact absurd ((hc b.1).mpr (covers_cons.mpr (.inl ⟨le_rfl, h'.head_pos⟩))) not_covers_nil
  | cons a l ih =>
    cases l' with
    | nil =>
      exact absurd ((hc a.1).mp (covers_cons.mpr (.inl ⟨le_rfl, h.head_pos⟩))) not_covers_nil
    | cons b l' =>
      have hstart : a.1 = b.1 := le_antisymm
        (h.head_le ((hc b.1).mpr (covers_cons.mpr (.inl ⟨le_rfl, h'.head_pos⟩))))
        (h'.head_le ((hc a.1).mp (covers_cons.mpr (.inl ⟨le_rfl, h.head_pos⟩))))
      have hend : a.2 = b.2 := le_antisymm
        (h'.head_end_le hstart.symm fun x => (hc x).mp)
        (h.head_end_le hstart fun x => (hc x).mpr)
      have htail : l = l' := ih h.tail h'.tail fun x => by
        rw [h.covers_tail, h'.covers_tail, hc x, hend]
      rw [htail, Prod.ext hstart hend]

theorem sublist (h : Separated l) (hs : l'.Sublist l) : Separated l' where
  pos b hb := h.pos b (hs.subset hb)
  sorted := h.sorted.sublist hs

theorem append_iff : Separated (l ++ l') ↔
    Separated l ∧ Separated l' ∧ ∀ a ∈ l, ∀ b ∈ l', a.2 < b.1 := by
  constructor
  · intro h
    exact ⟨h.sublist (List.sublist_append_left l l'), h.sublist (List.sublist_append_right l l'),
      (List.pairwise_append.mp h.sorted).2.2⟩
  · intro ⟨h, h', hlt⟩
    refine ⟨fun c hc => ?_, List.pairwise_append.mpr ⟨h.sorted, h'.sorted, hlt⟩⟩
    rcases List.mem_append.mp hc with hc | hc
    · exact h.pos c hc
    · exact h'.pos c hc

theorem cons_iff : Separated (a :: l) ↔ a.1 < a.2 ∧ Separated l ∧ ∀ b ∈ l, a.2 < b.1 :=
  ⟨fun h => ⟨h.head_pos, h.tail, fun _ hb => h.head_lt hb⟩, fun ⟨hp, h, hlt⟩ =>
    ⟨fun c hc => (List.mem_cons.mp hc).elim (fun he => he ▸ hp) (h.pos c),
      List.pairwise_cons.mpr ⟨hlt, h.sorted⟩⟩⟩

/-- A span made smaller. -/
theorem shrink (h : Separated (l ++ a :: l')) (hle : a.1 ≤ b.1) (hpos : b.1 < b.2)
    (hge : b.2 ≤ a.2) : Separated (l ++ b :: l') := by
  obtain ⟨hl, hal, hlt⟩ := append_iff.mp h
  refine append_iff.mpr ⟨hl, cons_iff.mpr ⟨hpos, hal.tail, fun c hc => ?_⟩, fun c hc d hd => ?_⟩
  · exact lt_of_le_of_lt hge (hal.head_lt hc)
  · rcases List.mem_cons.mp hd with rfl | hd
    · exact lt_of_lt_of_le (hlt c hc a List.mem_cons_self) hle
    · exact hlt c hc d (List.mem_cons_of_mem _ hd)

end Separated

/-! ## Tilings -/

structure Tiles (W : α → Prop) (l : List (α × α)) : Prop where
  pos : ∀ a ∈ l, a.1 < a.2
  apart : l.Pairwise Apart
  covers : ∀ x, Covers l x ↔ W x

namespace Tiles

variable {W : α → Prop} {a b c : α} {l l' : List (α × α)}

theorem perm (h : Tiles W l) (hp : l.Perm l') : Tiles W l' where
  pos d hd := h.pos d (hp.mem_iff.mpr hd)
  apart := (hp.pairwise_iff fun h => h.symm).mp h.apart
  covers x := (covers_perm hp).symm.trans (h.covers x)

theorem of_separated (h : Separated l) : Tiles (Covers l) l where
  pos := h.pos
  apart := h.sorted.imp fun hlt => Or.inl hlt.le
  covers _ := Iff.rfl

/-- A span cut in two. -/
theorem split (h : Tiles W ((a, c) :: l)) (hab : a < b) (hbc : b < c) :
    Tiles W ((a, b) :: (b, c) :: l) where
  pos d hd := by
    rcases List.mem_cons.mp hd with rfl | hd
    · exact hab
    · rcases List.mem_cons.mp hd with rfl | hd
      · exact hbc
      · exact h.pos d (List.mem_cons_of_mem _ hd)
  apart := by
    obtain ⟨hac, hl⟩ := List.pairwise_cons.mp h.apart
    refine List.pairwise_cons.mpr ⟨fun d hd => ?_, List.pairwise_cons.mpr ⟨fun d hd => ?_, hl⟩⟩
    · rcases List.mem_cons.mp hd with rfl | hd
      · exact .inl le_rfl
      · exact (hac d hd).imp hbc.le.trans id
    · exact (hac d hd).imp id fun hle => hle.trans hab.le
  covers x := by
    rw [← h.covers, covers_cons, covers_cons, covers_cons, ← or_assoc]
    refine or_congr_left ⟨?_, fun ⟨h₁, h₂⟩ => ?_⟩
    · rintro (⟨h₁, h₂⟩ | ⟨h₁, h₂⟩)
      · exact ⟨h₁, h₂.trans hbc⟩
      · exact ⟨hab.le.trans h₁, h₂⟩
    · rcases lt_or_ge x b with hx | hx
      · exact .inl ⟨h₁, hx⟩
      · exact .inr ⟨hx, h₂⟩

/-- Two spans that meet, joined. -/
theorem join (h : Tiles W ((a, b) :: (b, c) :: l)) : Tiles W ((a, c) :: l) := by
  obtain ⟨habs, hrest⟩ := List.pairwise_cons.mp h.apart
  obtain ⟨hbcs, hl⟩ := List.pairwise_cons.mp hrest
  have hab : a < b := h.pos _ List.mem_cons_self
  have hbc : b < c := h.pos _ (List.mem_cons_of_mem _ List.mem_cons_self)
  have hpos : ∀ d ∈ l, d.1 < d.2 := fun d hd =>
    h.pos d (List.mem_cons_of_mem _ (List.mem_cons_of_mem _ hd))
  refine ⟨fun d hd => ?_, List.pairwise_cons.mpr ⟨fun d hd => ?_, hl⟩, fun x => ?_⟩
  · rcases List.mem_cons.mp hd with rfl | hd
    · exact hab.trans hbc
    · exact hpos d hd
  · -- a span between the two would be empty
    rcases hbcs d hd with hcd | hdb
    · exact .inl hcd
    · rcases habs d (List.mem_cons_of_mem _ hd) with hbd | hda
      · exact absurd (hpos d hd) (not_lt.mpr (hdb.trans hbd))
      · exact .inr hda
  · rw [← h.covers, covers_cons, covers_cons, covers_cons, ← or_assoc]
    refine or_congr_left ⟨fun ⟨h₁, h₂⟩ => ?_, ?_⟩
    · rcases lt_or_ge x b with hx | hx
      · exact .inl ⟨h₁, hx⟩
      · exact .inr ⟨hx, h₂⟩
    · rintro (⟨h₁, h₂⟩ | ⟨h₁, h₂⟩)
      · exact ⟨h₁, h₂.trans hbc⟩
      · exact ⟨hab.le.trans h₁, h₂⟩

/-- A separated list that tiles what another one covers is that one. -/
theorem eq_of_separated (h : Tiles (Covers l') l) (hl : Separated l) (hl' : Separated l') :
    l = l' := hl.eq_of_covers hl' h.covers

omit [LinearOrder α] in
/-- A span of the list brought to the front, and another one that comes later. -/
theorem perm_two (x y : α × α) (front behind others : List (α × α)) :
    (front ++ y :: (behind ++ x :: others)).Perm (x :: y :: (front ++ (behind ++ others))) := by
  refine List.perm_middle.trans (.trans (.cons y ?_) (.swap x y _))
  rw [← List.append_assoc, ← List.append_assoc]
  exact List.perm_middle

/-- A span cut in two, its second part staying in place. -/
theorem split_start {front behind others : List (α × α)}
    (h : Tiles W (front ++ (a, c) :: (behind ++ others))) (hab : a < b) (hbc : b < c) :
    Tiles W (front ++ (b, c) :: (behind ++ (a, b) :: others)) :=
  ((h.perm List.perm_middle).split hab hbc).perm (perm_two _ _ _ _ _).symm

/-- A span cut in two, its first part staying in place. -/
theorem split_end {front behind others : List (α × α)}
    (h : Tiles W (front ++ (a, c) :: (behind ++ others))) (hab : a < b) (hbc : b < c) :
    Tiles W (front ++ (a, b) :: (behind ++ (b, c) :: others)) :=
  (((h.perm List.perm_middle).split hab hbc).perm (.swap _ _ _)).perm (perm_two _ _ _ _ _).symm

end Tiles

end Spans
