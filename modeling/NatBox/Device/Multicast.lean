import NatBox.Lib.Slots
import NatBox.Memory.Heap
import NatBox.Packet

/-
The multicast addresses of the Ethernet device: `ethmcast_add` and `ethmcast_remove`.

`ed_mca` ends the control block, so a slot behind its last one is memory that belongs to
something else.  `ethmcast_remove` moves the addresses behind the one it takes out a slot down;
the last of them takes over the slot behind the list, which is filled with zeros as characters.
In a full table that slot is not one of its own.
-/

namespace NatBox

open Function

/-- `ETH_NUM_MCAST` -/
abbrev ethNumMcast : Nat := 32

/-- The list of multicast addresses in `struct ethcblk` with the MAC frame filter register.
The slots of `ed_mca` from `ETH_NUM_MCAST` on are what lies behind the block. -/
structure EthMcast where
  macff : UInt32
  edMcc : Nat
  edMca : Nat → MacAddr
  edMcc_le : edMcc ≤ ethNumMcast

def EthMcast.list (e : EthMcast) : List MacAddr := Slots.list e.edMca 0 e.edMcc

def ethmcastAdd (e : EthMcast) (addr : MacAddr) : Status × EthMcast :=
  let macff := e.macff ||| 0x00000010
  if h : e.edMcc < ethNumMcast then
    (.ok, ⟨macff, e.edMcc + 1, update e.edMca e.edMcc addr, h⟩)
  else (.syserr, { e with macff := macff })

/-- `'0'` in every byte -/
def zeroChars : MacAddr := Vector.replicate 6 48

/-- The inner loop of `ethmcast_remove`, `passes` before its end, and the slots that it reads
or writes. -/
def fillHole : Nat → Nat → (Nat → MacAddr) → (Nat → MacAddr) × List Nat
  | 0, _, edMca => (edMca, [])
  | passes + 1, j, edMca =>
    let edMca := update edMca j (edMca (j + 1))
    let edMca := update edMca (j + 1) zeroChars
    let rest := fillHole passes (j + 1) edMca
    (rest.1, j :: (j + 1) :: rest.2)

/-- What the outer loop leaves. -/
structure McastSearch where
  i : Nat
  edMca : Nat → MacAddr
  touched : List Nat

/-- The outer loop, `passes` before its end. -/
def searchAddr (mcastCount : Nat) (addr : MacAddr) : Nat → Nat → (Nat → MacAddr) → McastSearch
  | 0, i, edMca => ⟨i, edMca, []⟩
  | passes + 1, i, edMca =>
    if addr = edMca i then
      let filled := fillHole (mcastCount - i) i edMca
      ⟨i, filled.1, i :: filled.2⟩
    else
      let rest := searchAddr mcastCount addr passes (i + 1) edMca
      { rest with touched := i :: rest.touched }

/-- `ethmcast_remove`, with the slots of `ed_mca` that it reads or writes. -/
def ethmcastRemove (e : EthMcast) (addr : MacAddr) : Status × EthMcast × List Nat :=
  let mcastCount := e.edMcc
  let search := searchAddr mcastCount addr mcastCount 0 e.edMca
  if search.i < mcastCount then
    (.ok, ⟨e.macff, mcastCount - 1, search.edMca, Nat.le_trans (Nat.sub_le ..) e.edMcc_le⟩,
      search.touched)
  else (.syserr, { e with edMca := search.edMca }, search.touched)

/-! ## Adding -/

@[simp] theorem EthMcast.length_list (e : EthMcast) : e.list.length = e.edMcc :=
  Slots.length_list ..

theorem list_ethmcastAdd (e : EthMcast) (addr : MacAddr) :
    (ethmcastAdd e addr).2.list =
      if e.edMcc < ethNumMcast then e.list ++ [addr] else e.list := by
  unfold ethmcastAdd
  by_cases h : e.edMcc < ethNumMcast
  · rw [dif_pos h, if_pos h]
    exact Slots.list_update_end ..
  · rw [dif_neg h, if_neg h]
    rfl

/-! ## Removing -/

theorem fillHole_fst : ∀ (passes j : Nat) (edMca : Nat → MacAddr),
    (fillHole passes j edMca).1 = Slots.shiftDown zeroChars passes j edMca
  | 0, _, _ => rfl
  | passes + 1, j, _ => fillHole_fst passes (j + 1) _

theorem mem_fillHole_snd : ∀ (passes j : Nat) (edMca : Nat → MacAddr) (t : Nat),
    t ∈ (fillHole (passes + 1) j edMca).2 ↔ j ≤ t ∧ t ≤ j + passes + 1
  | 0, j, _, t => by
    simp only [fillHole, List.mem_cons, List.not_mem_nil, or_false]
    omega
  | passes + 1, j, edMca, t => by
    rw [fillHole]
    dsimp only
    rw [List.mem_cons, List.mem_cons, mem_fillHole_snd passes (j + 1)]
    omega

/-- The outer loop where the address is not among those it has still to look at. -/
theorem searchAddr_of_not_mem (count : Nat) (addr : MacAddr) (edMca : Nat → MacAddr) :
    ∀ passes i, addr ∉ Slots.list edMca i passes →
      searchAddr count addr passes i edMca = ⟨i + passes, edMca, List.range' i passes⟩
  | 0, _, _ => rfl
  | passes + 1, i, h => by
    rw [Slots.list_succ, List.mem_cons, not_or] at h
    rw [searchAddr, if_neg h.1, searchAddr_of_not_mem count addr edMca passes (i + 1) h.2]
    simp [List.range'_succ]
    omega

/-- The outer loop where the address is among them.  It touches all slots up to the one
behind the list. -/
theorem searchAddr_of_mem (count : Nat) (addr : MacAddr) (edMca : Nat → MacAddr) :
    ∀ passes i, i + passes = count → addr ∈ Slots.list edMca i passes →
      (searchAddr count addr passes i edMca).i < count ∧
      Slots.list (searchAddr count addr passes i edMca).edMca i (passes - 1) =
        (Slots.list edMca i passes).erase addr ∧
      (∀ j < i, (searchAddr count addr passes i edMca).edMca j = edMca j) ∧
      ∀ t, t ∈ (searchAddr count addr passes i edMca).touched ↔ i ≤ t ∧ t ≤ count
  | 0, _, _, h => absurd h List.not_mem_nil
  | passes + 1, i, hcount, h => by
    rw [Slots.list_succ] at h ⊢
    by_cases haddr : addr = edMca i
    · rw [searchAddr, if_pos haddr, ← haddr, List.erase_cons_head,
        show count - i = passes + 1 by omega]
      dsimp only
      refine ⟨by omega, ?_, fun j hj => ?_, fun t => ?_⟩
      · rw [fillHole_fst]
        exact Slots.list_shiftDown ..
      · rw [fillHole_fst]
        exact Slots.shiftDown_below _ _ _ _ hj
      · rw [List.mem_cons, mem_fillHole_snd]
        omega
    · have hmem : addr ∈ Slots.list edMca (i + 1) passes :=
        (List.mem_cons.mp h).resolve_left haddr
      obtain ⟨hi, hlist, hbelow, htouched⟩ :=
        searchAddr_of_mem count addr edMca passes (i + 1) (by omega) hmem
      obtain ⟨rest, rfl⟩ : ∃ rest, passes = rest + 1 :=
        Nat.exists_eq_succ_of_ne_zero (by rintro rfl; exact List.not_mem_nil hmem)
      rw [searchAddr, if_neg haddr, List.erase_cons_tail (by simpa using Ne.symm haddr)]
      dsimp only
      refine ⟨hi, ?_, fun j hj => hbelow j (by omega), fun t => ?_⟩
      · rw [← hlist, ← hbelow i (by omega)]
        rfl
      · rw [List.mem_cons, htouched]
        omega

theorem ethmcastRemove_of_not_mem {e : EthMcast} {addr : MacAddr} (h : addr ∉ e.list) :
    ethmcastRemove e addr = (.syserr, e, List.range' 0 e.edMcc) := by
  unfold ethmcastRemove
  dsimp only
  rw [searchAddr_of_not_mem _ _ _ _ _ h, Nat.zero_add]
  dsimp only
  rw [if_neg (Nat.lt_irrefl _)]

theorem ethmcastRemove_of_mem {e : EthMcast} {addr : MacAddr} (h : addr ∈ e.list) :
    (ethmcastRemove e addr).1 = .ok ∧
      (ethmcastRemove e addr).2.1.list = e.list.erase addr ∧
      ∀ t, t ∈ (ethmcastRemove e addr).2.2 ↔ t ≤ e.edMcc := by
  obtain ⟨hi, hlist, -, htouched⟩ :=
    searchAddr_of_mem e.edMcc addr e.edMca e.edMcc 0 (Nat.zero_add _) h
  unfold ethmcastRemove
  dsimp only
  rw [if_pos hi]
  exact ⟨rfl, hlist, fun t => (htouched t).trans (and_iff_right (Nat.zero_le t))⟩

theorem list_ethmcastRemove (e : EthMcast) (addr : MacAddr) :
    (ethmcastRemove e addr).2.1.list = e.list.erase addr := by
  by_cases h : addr ∈ e.list
  · exact (ethmcastRemove_of_mem h).2.1
  · rw [ethmcastRemove_of_not_mem h, List.erase_of_not_mem h]

/-- What a removal of `addr` is to do. -/
structure RemovesExactly (e : EthMcast) (addr : MacAddr) : Prop where
  inBounds : ∀ t ∈ (ethmcastRemove e addr).2.2, t < ethNumMcast
  ok_iff : (ethmcastRemove e addr).1 = .ok ↔ addr ∈ e.list
  erased : addr ∈ e.list → (ethmcastRemove e addr).2.1.list = e.list.erase addr
  unchanged : addr ∉ e.list → (ethmcastRemove e addr).2.1 = e
  undoes : addr ∉ e.list →
    (ethmcastRemove (ethmcastAdd e addr).2 addr).2.1.list = e.list ∧
      ∀ t ∈ (ethmcastRemove (ethmcastAdd e addr).2 addr).2.2, t < ethNumMcast

section Undo

variable {e : EthMcast} {addr : MacAddr} (h : addr ∉ e.list)

include h

theorem list_remove_add : (ethmcastRemove (ethmcastAdd e addr).2 addr).2.1.list = e.list := by
  rw [list_ethmcastRemove, list_ethmcastAdd]
  split
  · rw [List.erase_append_right _ h, List.erase_cons_head, List.append_nil]
  · exact List.erase_of_not_mem h

/-- Taken out again, the address of a table with one slot left makes the table reach behind
itself. -/
theorem touched_remove_add :
    (∀ t ∈ (ethmcastRemove (ethmcastAdd e addr).2 addr).2.2, t < ethNumMcast) ↔
      e.edMcc ≠ 31 := by
  have hadded := list_ethmcastAdd e addr
  have hlength := congrArg List.length hadded
  rw [EthMcast.length_list] at hlength
  by_cases hroom : e.edMcc < ethNumMcast
  · rw [if_pos hroom] at hadded hlength
    have hmem : addr ∈ (ethmcastAdd e addr).2.list := by
      rw [hadded]
      exact List.mem_concat_self
    rw [List.length_append, EthMcast.length_list, List.length_singleton] at hlength
    have htouched := (ethmcastRemove_of_mem hmem).2.2
    rw [hlength] at htouched
    constructor
    · intro hall hlast
      exact absurd (hall 32 ((htouched 32).mpr (by omega))) (Nat.lt_irrefl _)
    · intro hlast t ht
      have hle := (htouched t).mp ht
      have hroom' : e.edMcc < 32 := hroom
      show t < 32
      omega
  · rw [if_neg hroom] at hadded hlength
    rw [EthMcast.length_list] at hlength
    have hfull : e.edMcc = 32 := Nat.le_antisymm e.edMcc_le (Nat.not_lt.mp hroom)
    refine iff_of_true (fun t ht => ?_) (by omega)
    rw [ethmcastRemove_of_not_mem (by rwa [hadded]), List.mem_range'_1, hlength] at ht
    show t < 32
    omega

end Undo

/-- A removal is exact and in bounds unless it takes an address out of a full table. -/
theorem removesExactly_iff (e : EthMcast) (addr : MacAddr) :
    RemovesExactly e addr ↔
      ¬ (e.edMcc = 32 ∧ addr ∈ e.list) ∧ ¬ (e.edMcc = 31 ∧ addr ∉ e.list) := by
  by_cases hmem : addr ∈ e.list
  · obtain ⟨hok, hlist, htouched⟩ := ethmcastRemove_of_mem hmem
    have hle : e.edMcc ≤ 32 := e.edMcc_le
    constructor
    · intro h
      refine ⟨fun hfull => ?_, fun hlast => hlast.2 hmem⟩
      exact absurd (h.inBounds 32 ((htouched 32).mpr (by omega))) (Nat.lt_irrefl _)
    · rintro ⟨hroom, -⟩
      exact {
        inBounds := fun t ht => by
          have ht' := (htouched t).mp ht
          have hroom' : e.edMcc ≠ 32 := fun hfull => hroom ⟨hfull, hmem⟩
          show t < 32
          omega
        ok_iff := iff_of_true hok hmem
        erased := fun _ => hlist
        unchanged := fun hnot => absurd hmem hnot
        undoes := fun hnot => absurd hmem hnot }
  · have heq := ethmcastRemove_of_not_mem hmem
    constructor
    · intro h
      exact ⟨fun hfull => hmem hfull.2,
        fun hlast => (touched_remove_add hmem).mp (h.undoes hmem).2 hlast.1⟩
    · rintro ⟨-, hlast⟩
      have hle : e.edMcc ≤ 32 := e.edMcc_le
      exact {
        inBounds := fun t ht => by
          rw [heq, List.mem_range'_1] at ht
          show t < 32
          omega
        ok_iff := iff_of_false (by rw [heq]; exact Status.noConfusion) hmem
        erased := fun hin => absurd hin hmem
        unchanged := fun _ => by rw [heq]
        undoes := fun _ => ⟨list_remove_add hmem,
          (touched_remove_add hmem).mpr fun hcount => hlast ⟨hcount, hmem⟩⟩ }

/-- A full table and its first address. -/
theorem ethmcastRemove_leaves_table : ¬ ∀ e addr, RemovesExactly e addr := by
  intro h
  have hmem : (#v[1, 0, 0x5E, 0, 0, 0] : MacAddr) ∈
      (⟨0, 32, fun i => #v[1, 0, 0x5E, 0, 0, UInt8.ofNat i], Nat.le_refl _⟩ : EthMcast).list :=
    List.mem_cons_self
  have hlt := (h _ _).inBounds 32 (((ethmcastRemove_of_mem hmem).2.2 32).mpr (Nat.le_refl _))
  exact absurd hlt (Nat.lt_irrefl _)

/-! ## The list over all calls -/

/-- The calls of `ethcontrol` that are about the list. -/
inductive McastCall
  | add (addr : MacAddr)
  | remove (addr : MacAddr)
  deriving DecidableEq

/-- `ethcontrol` for `ETH_CTRL_ADD_MCAST` and `ETH_CTRL_REMOVE_MCAST` -/
def ethcontrol (e : EthMcast) : McastCall → Status × EthMcast
  | .add addr => ethmcastAdd e addr
  | .remove addr => ((ethmcastRemove e addr).1, (ethmcastRemove e addr).2.1)

/-- What a call is to do with a list of addresses. -/
def McastCall.apply (l : List MacAddr) : McastCall → List MacAddr
  | .add addr => if l.length < ethNumMcast then l ++ [addr] else l
  | .remove addr => l.erase addr

theorem list_ethcontrol (e : EthMcast) (call : McastCall) :
    (ethcontrol e call).2.list = call.apply e.list := by
  cases call with
  | add addr =>
    rw [McastCall.apply, EthMcast.length_list]
    exact list_ethmcastAdd e addr
  | remove addr => exact list_ethmcastRemove e addr

/-- The loop of `ethread` that looks a destination up in the list, `passes` before its end. -/
def mcastAccepts (edMca : Nat → MacAddr) (netDst : MacAddr) : Nat → Nat → Bool
  | 0, _ => false
  | passes + 1, i => if netDst = edMca i then true else mcastAccepts edMca netDst passes (i + 1)

theorem mcastAccepts_iff (edMca : Nat → MacAddr) (netDst : MacAddr) :
    ∀ passes i, mcastAccepts edMca netDst passes i = true ↔
      netDst ∈ Slots.list edMca i passes
  | 0, _ => iff_of_false Bool.false_ne_true List.not_mem_nil
  | passes + 1, i => by
    rw [mcastAccepts, Slots.list_succ, List.mem_cons, ← mcastAccepts_iff edMca netDst passes]
    by_cases h : netDst = edMca i
    · simp [h]
    · simp [h]

def EthMcast.run (e : EthMcast) (calls : List McastCall) : EthMcast :=
  calls.foldl (fun e call => (ethcontrol e call).2) e

theorem EthMcast.list_run (calls : List McastCall) :
    ∀ e : EthMcast, (e.run calls).list = calls.foldl McastCall.apply e.list := by
  induction calls with
  | nil => exact fun _ => rfl
  | cons call calls ih =>
    intro e
    rw [List.foldl_cons, ← list_ethcontrol]
    exact ih _

/-- `eth_broadcast` -/
def ethBroadcast : MacAddr := Vector.replicate 6 0xFF

/-- The test of `ethread` for the destination of a frame, which sets `valid_addr`. -/
def validAddr (devAddress : MacAddr) (e : EthMcast) (netDst : MacAddr) : Bool :=
  if netDst = devAddress then true
  else if netDst = ethBroadcast then true
  else mcastAccepts e.edMca netDst e.edMcc 0

theorem validAddr_iff {devAddress netDst : MacAddr} {e : EthMcast} :
    validAddr devAddress e netDst = true ↔
      netDst = devAddress ∨ netDst = ethBroadcast ∨ netDst ∈ e.list := by
  unfold validAddr
  by_cases hown : netDst = devAddress
  · simp [hown]
  · by_cases hall : netDst = ethBroadcast
    · simp [hall]
    · rw [if_neg hown, if_neg hall, mcastAccepts_iff]
      simp [hown, hall, EthMcast.list]

/-- After any calls a frame is accepted if it is to the device or to all, or to an address that
the calls on a list would have left there. -/
theorem validAddr_run (devAddress : MacAddr) (e : EthMcast) (calls : List McastCall)
    (netDst : MacAddr) :
    validAddr devAddress (e.run calls) netDst = true ↔
      netDst = devAddress ∨ netDst = ethBroadcast ∨
        netDst ∈ calls.foldl McastCall.apply e.list := by
  rw [validAddr_iff, e.list_run]

end NatBox
