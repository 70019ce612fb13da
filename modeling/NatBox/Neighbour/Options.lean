import NatBox.Neighbour.Solicit

/-
The options of a neighbour or router message.

The code never walks through them; `OptionAt` says where they stand, each behind the one
before it and inside the message.
-/

namespace NatBox

/-- An option of a message of `len` bytes begins at an offset, the first one at `start`. -/
inductive OptionAt (msg : Mem) (len start : Nat) : Nat → Prop
  | first : OptionAt msg len start start
  | next {off : Nat} : OptionAt msg len start off → msg (off + 1) ≠ 0 →
      off + 8 * (msg (off + 1)).toNat ≤ len →
      OptionAt msg len start (off + 8 * (msg (off + 1)).toNat)

/-- A link-layer address option, source or target, lies inside the message and holds
`mac`. -/
def CarriesMac (msg : Mem) (len start : Nat) (mac : MacAddr) : Prop :=
  ∃ off, OptionAt msg len start off ∧ (msg off = 1 ∨ msg off = 2) ∧ msg (off + 1) ≠ 0 ∧
    off + 8 * (msg (off + 1)).toNat ≤ len ∧ macAt msg (off + 2) = mac

section Options

variable {msg : Mem} {len start off : Nat} {mac : MacAddr}

theorem OptionAt.le (h : OptionAt msg len start off) : start ≤ off := by
  induction h with
  | first => exact Nat.le_refl start
  | next _ _ _ ih => exact Nat.le_add_right_of_le ih

/-- A message that ends where its options would start carries no address. -/
theorem CarriesMac.lt (h : CarriesMac msg len start mac) : start < len := by
  obtain ⟨off, hat, -, hlen, hinside, -⟩ := h
  have hle := hat.le
  have hpos : 0 < (msg (off + 1)).toNat :=
    Nat.pos_of_ne_zero fun h0 => hlen (UInt8.toNat_inj.mp h0)
  omega

/-- The options behind the first one. -/
theorem optionAt_iff (hlen : msg (start + 1) ≠ 0)
    (hinside : start + 8 * (msg (start + 1)).toNat ≤ len) :
    OptionAt msg len start off ↔
      off = start ∨ OptionAt msg len (start + 8 * (msg (start + 1)).toNat) off := by
  constructor
  · intro h
    induction h with
    | first => exact Or.inl rfl
    | next _ hl hi ih =>
      rcases ih with rfl | hrest
      · exact Or.inr .first
      · exact Or.inr (.next hrest hl hi)
  · rintro (rfl | h)
    · exact .first
    · induction h with
      | first => exact .next .first hlen hinside
      | next _ hl hi ih => exact .next ih hl hi

/-- One option more at the start. -/
theorem carriesMac_iff (hlen : msg (start + 1) ≠ 0)
    (hinside : start + 8 * (msg (start + 1)).toNat ≤ len) :
    CarriesMac msg len start mac ↔
      ((msg start = 1 ∨ msg start = 2) ∧ macAt msg (start + 2) = mac) ∨
        CarriesMac msg len (start + 8 * (msg (start + 1)).toNat) mac := by
  constructor
  · rintro ⟨off, hat, htype, hl, hi, hmac⟩
    rcases (optionAt_iff hlen hinside).mp hat with rfl | hrest
    · exact Or.inl ⟨htype, hmac⟩
    · exact Or.inr ⟨off, hrest, htype, hl, hi, hmac⟩
  · rintro (⟨htype, hmac⟩ | ⟨off, hrest, htype, hl, hi, hmac⟩)
    · exact ⟨start, .first, htype, hlen, hinside, hmac⟩
    · exact ⟨off, (optionAt_iff hlen hinside).mpr (Or.inr hrest), htype, hl, hi, hmac⟩

theorem macAt_congr {m m' : Mem} {off : Nat} (h : ∀ i, i < 6 → m (off + i) = m' (off + i)) :
    macAt m off = macAt m' off := by
  refine Vector.ext fun i hi => ?_
  rw [macAt, macAt, Vector.getElem_ofFn, Vector.getElem_ofFn]
  exact h i hi

theorem addrAt_congr {m m' : Mem} {off : Nat} (h : ∀ i, i < 16 → m (off + i) = m' (off + i)) :
    addrAt m off = addrAt m' off := by
  refine Vector.ext fun i hi => ?_
  rw [addrAt, addrAt, Vector.getElem_ofFn, Vector.getElem_ofFn]
  exact h i hi

/-- The options depend on the bytes of the message alone. -/
theorem OptionAt.congr {msg' : Mem} (hmem : ∀ i, start ≤ i → i < len → msg' i = msg i)
    (h : OptionAt msg len start off) : OptionAt msg' len start off := by
  induction h with
  | first => exact .first
  | @next off hat hlen hinside ih =>
    have hpos : 0 < (msg (off + 1)).toNat :=
      Nat.pos_of_ne_zero fun h0 => hlen (UInt8.toNat_inj.mp h0)
    have hle := hat.le
    have hbyte : msg' (off + 1) = msg (off + 1) := hmem (off + 1) (by omega) (by omega)
    have hnext := OptionAt.next ih (by rw [hbyte]; exact hlen) (by rw [hbyte]; exact hinside)
    rwa [hbyte] at hnext

theorem CarriesMac.congr {msg' : Mem} (hmem : ∀ i, start ≤ i → i < len → msg' i = msg i)
    (h : CarriesMac msg len start mac) : CarriesMac msg' len start mac := by
  obtain ⟨off, hat, htype, hlen, hinside, hmac⟩ := h
  have hpos : 0 < (msg (off + 1)).toNat :=
    Nat.pos_of_ne_zero fun h0 => hlen (UInt8.toNat_inj.mp h0)
  have hle := hat.le
  have hbyte : msg' (off + 1) = msg (off + 1) := hmem (off + 1) (by omega) (by omega)
  refine ⟨off, hat.congr hmem, ?_, ?_, ?_, ?_⟩
  · rw [hmem off hle (by omega)]
    exact htype
  · rw [hbyte]
    exact hlen
  · rw [hbyte]
    exact hinside
  · rw [← hmac]
    exact macAt_congr fun i hi => hmem _ (by omega) (by omega)

theorem carriesMac_congr {msg' : Mem} (hmem : ∀ i, start ≤ i → i < len → msg' i = msg i) :
    CarriesMac msg' len start mac ↔ CarriesMac msg len start mac :=
  ⟨CarriesMac.congr fun i hlow hhigh => (hmem i hlow hhigh).symm, CarriesMac.congr hmem⟩

end Options

end NatBox
