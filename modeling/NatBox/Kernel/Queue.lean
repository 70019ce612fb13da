import NatBox.Lib.Links
import Mathlib.Data.Int.Interval

/-
The process queues of `queue.c`, `insert.c`, `insertd.c` and `getitem.c`.

All queues share one table of links, indexed by process and behind them by the heads and
tails of the queues.  What the kernel does with the table is the class `QueueTable`.
`Queuetab` is the table of the source.  `QueueLists` keeps a list of processes for each
queue in its place: `Represents` says that the links of a table are those lists, and the
theorems about it that every operation keeps this, as long as a process is put on a queue
only when it is on none and taken off only when it is on one.
-/

namespace NatBox

open Function Links

/-- `NPROC` -/
abbrev nproc : Int := 100

/-- `NSEM` -/
abbrev nsem : Int := 100

/-- `NQENT`: one entry for each process, two for each semaphore, the ready list and the
queue of sleeping processes. -/
abbrev nqent : Int := 304

/-- `EMPTY` -/
abbrev empty : Int := -1

/-- `MAXKEY` -/
def maxkey : Int := 2147483647

/-- `MINKEY` -/
def minkey : Int := -2147483648

def isbadqid (q : Int) : Bool := q < nproc || q ≥ nqent - 1

/-- The operations on the queues.  `behind` is `queuetab[pid].qnext` of a process on the
queue `q`, `clear` empties the links of a process, and `addKey` adds to a key. -/
class QueueTable (Q : Type) where
  firstid : Q → Int → Int
  qkey : Q → Int → Int
  behind : Q → Int → Int → Int
  enqueue : Q → Int → Int → Q
  getitem : Q → Int → Q
  clear : Q → Int → Q
  insert : Q → Int → Int → Int → Q
  insertd : Q → Int → Int → Int → Q
  addKey : Q → Int → Int → Q

/-- `queuetab`, one table for each field of `struct qentry`. -/
structure Queuetab where
  qkey : Int → Int
  qnext : Int → Int
  qprev : Int → Int

namespace Queuetab

variable (t : Queuetab)

/-- `newqueue`: an empty queue at `q`. -/
def newqueue (q : Int) : Queuetab where
  qkey := update (update t.qkey q maxkey) (q + 1) minkey
  qnext := update (update t.qnext q (q + 1)) (q + 1) empty
  qprev := update (update t.qprev q empty) (q + 1) q

def enqueue (pid q : Int) : Queuetab :=
  let tail := q + 1
  let prev := t.qprev tail
  { t with
    qnext := update (update t.qnext pid tail) prev pid
    qprev := update (update t.qprev pid prev) tail pid }

def getitem (pid : Int) : Queuetab :=
  let next := t.qnext pid
  let prev := t.qprev pid
  { t with
    qnext := update t.qnext prev next
    qprev := update t.qprev next prev }

def clear (pid : Int) : Queuetab :=
  { t with
    qnext := update t.qnext pid empty
    qprev := update t.qprev pid empty }

/-- The loop of `insert`, with a bound on how far it goes. -/
def insertWalk (key : Int) : Nat → Int → Int
  | 0, curr => curr
  | fuel + 1, curr =>
    if t.qkey curr ≥ key then insertWalk key fuel (t.qnext curr) else curr

def insert (pid q key : Int) : Queuetab :=
  let curr := t.insertWalk key nqent.toNat (t.qnext q)
  let prev := t.qprev curr
  { qkey := update t.qkey pid key
    qnext := update (update t.qnext pid curr) prev pid
    qprev := update (update t.qprev pid prev) curr pid }

/-- The loop of `insertd`: the key that is left, the node in front and the node behind. -/
def insertdWalk (tail : Int) : Nat → Int → Int → Int → Int × Int × Int
  | 0, key, prev, next => (key, prev, next)
  | fuel + 1, key, prev, next =>
    if next ≠ tail ∧ t.qkey next ≤ key then
      insertdWalk tail fuel (key - t.qkey next) next (t.qnext next)
    else (key, prev, next)

def insertd (pid q delay : Int) : Queuetab :=
  let (key, prev, next) := t.insertdWalk (q + 1) nqent.toNat delay q (t.qnext q)
  let qkey := update t.qkey pid key
  { qkey := if next ≠ q + 1 then update qkey next (qkey next - key) else qkey
    qnext := update (update t.qnext pid next) prev pid
    qprev := update (update t.qprev pid prev) next pid }

instance : QueueTable Queuetab where
  firstid t q := t.qnext q
  qkey t i := t.qkey i
  behind t _ pid := t.qnext pid
  enqueue := enqueue
  getitem := getitem
  clear := clear
  insert := insert
  insertd := insertd
  addKey t i d := { t with qkey := update t.qkey i (t.qkey i + d) }

end Queuetab

/-! ## Queues as lists -/

/-- The processes of each queue, and the keys. -/
structure QueueLists where
  lists : Int → List Int
  key : Int → Int

namespace QueueLists

/-- Where a delay ends in a list of differences: what comes before it, what is left of
the delay, and what comes after. -/
def deltaSplit (key : Int → Int) : Int → List Int → List Int × Int × List Int
  | d, [] => ([], d, [])
  | d, p :: l =>
    if key p ≤ d then
      let r := deltaSplit key (d - key p) l
      (p :: r.1, r.2)
    else ([], d, p :: l)

/-- What comes behind a process, `tail` behind the last one. -/
def nextIn (tail pid : Int) : List Int → Int
  | [] => tail
  | p :: l => if p = pid then l.headD tail else nextIn tail pid l

/-- The key behind the new one is made smaller by it. -/
def lowerFirst (key : Int → Int) (d : Int) : List Int → Int → Int
  | [] => key
  | p :: _ => update key p (key p - d)

instance : QueueTable QueueLists where
  firstid l q := (l.lists q).headD (q + 1)
  qkey l i := l.key i
  behind l q pid := nextIn (q + 1) pid (l.lists q)
  enqueue l pid q := { l with lists := update l.lists q (l.lists q ++ [pid]) }
  getitem l pid := { l with lists := fun q => (l.lists q).erase pid }
  clear l _ := l
  insert l pid q key :=
    { lists := update l.lists q ((l.lists q).takeWhile (key ≤ l.key ·) ++
        pid :: (l.lists q).dropWhile (key ≤ l.key ·))
      key := update l.key pid key }
  insertd l pid q delay :=
    let (front, d, behind) := deltaSplit l.key delay (l.lists q)
    { lists := update l.lists q (front ++ pid :: behind)
      key := lowerFirst (update l.key pid d) d behind }
  addKey l i d := { l with key := update l.key i (l.key i + d) }

end QueueLists

/-! ## Which queue a process is on -/

def IsPid (p : Int) : Prop := 0 ≤ p ∧ p < nproc

/-- The heads of the queues. -/
def IsQueue (q : Int) : Prop := nproc ≤ q ∧ q + 1 < nqent ∧ q % 2 = 0

/-- `home` says which queue each process is on. -/
structure Placed (l : QueueLists) (home : Int → Option Int) : Prop where
  mem : ∀ q p, p ∈ l.lists q ↔ IsPid p ∧ home p = some q
  nodup : ∀ q, (l.lists q).Nodup
  tail : ∀ q, IsQueue q → l.key (q + 1) = minkey

/-- The links of the table are the lists. -/
structure Represents (t : Queuetab) (l : QueueLists) : Prop where
  key : t.qkey = l.key
  linked : ∀ q, IsQueue q → Linked t.qnext t.qprev (q :: (l.lists q ++ [q + 1]))

section Placed

variable {l : QueueLists} {home : Int → Option Int} {p q : Int}

theorem Placed.isPid (h : Placed l home) (hp : p ∈ l.lists q) : IsPid p := ((h.mem q p).mp hp).1

theorem Placed.home_eq (h : Placed l home) (hp : p ∈ l.lists q) : home p = some q :=
  ((h.mem q p).mp hp).2

theorem Placed.not_mem (h : Placed l home) (hp : home p = none) : p ∉ l.lists q := fun hmem => by
  rw [h.home_eq hmem] at hp
  cases hp

/-- The nodes of a queue. -/
theorem Placed.nodes_nodup (h : Placed l home) (hq : IsQueue q) :
    (q :: (l.lists q ++ [q + 1])).Nodup := by
  have hpid := fun x hx => h.isPid (p := x) (q := q) hx
  refine List.nodup_cons.mpr ⟨fun hmem => ?_, List.nodup_append.mpr ⟨h.nodup q, by simp, ?_⟩⟩
  · rcases List.mem_append.mp hmem with hmem | hmem
    · exact absurd (hpid q hmem).2 (Int.not_lt.mpr hq.1)
    · have heq := List.mem_singleton.mp hmem
      omega
  · intro x hx y hy hxy
    rw [List.mem_singleton] at hy
    have hlt := (hpid x hx).2
    have hge := hq.1
    omega

theorem mem_nodes {x : Int} :
    x ∈ q :: (l.lists q ++ [q + 1]) ↔ x = q ∨ x ∈ l.lists q ∨ x = q + 1 := by
  simp

/-- A process is no head and no tail. -/
theorem IsPid.ne_queue (hp : IsPid p) (hq : IsQueue q) : p ≠ q ∧ p ≠ q + 1 := by
  have hlt := hp.2
  have hge := hq.1
  omega

/-- No node is in two queues. -/
theorem Placed.nodes_disjoint (h : Placed l home) {q' x : Int} (hq : IsQueue q) (hq' : IsQueue q')
    (hne : q' ≠ q) (hx : x ∈ q :: (l.lists q ++ [q + 1])) :
    x ∉ q' :: (l.lists q' ++ [q' + 1]) := by
  intro hx'
  have heven := hq.2.2
  have heven' := hq'.2.2
  rcases mem_nodes.mp hx with hx | hx | hx
  · rcases mem_nodes.mp hx' with hx' | hx' | hx'
    · omega
    · exact ((h.isPid hx').ne_queue hq).1 hx
    · omega
  · rcases mem_nodes.mp hx' with hx' | hx' | hx'
    · exact ((h.isPid hx).ne_queue hq').1 hx'
    · have hhome := h.home_eq hx
      rw [h.home_eq hx'] at hhome
      exact hne (Option.some.inj hhome)
    · exact ((h.isPid hx).ne_queue hq').2 hx'
  · rcases mem_nodes.mp hx' with hx' | hx' | hx'
    · omega
    · exact ((h.isPid hx').ne_queue hq).2 hx
    · omega

end Placed

/-! ## Linking a process in and unlinking it -/

section Links

variable {t : Queuetab} {l : QueueLists} {home : Int → Option Int} {p q : Int}

/-- The neighbours between which something comes behind `front` and before `behind`. -/
theorem nodes_split (front behind : List Int) :
    ∃ A a B, q :: (front ++ behind ++ [q + 1]) = A ++ a :: behind.headD (q + 1) :: B ∧
      ∀ x, q :: (front ++ x :: behind ++ [q + 1]) =
        A ++ a :: x :: behind.headD (q + 1) :: B := by
  have hne : q :: front ≠ [] := List.cons_ne_nil q front
  have hfront := (List.dropLast_append_getLast hne).symm
  cases behind with
  | nil =>
    refine ⟨(q :: front).dropLast, (q :: front).getLast hne, [], ?_, fun x => ?_⟩
    · calc q :: (front ++ [] ++ [q + 1]) = (q :: front) ++ [q + 1] := by simp
        _ = ((q :: front).dropLast ++ [(q :: front).getLast hne]) ++ [q + 1] := by rw [← hfront]
        _ = _ := by simp
    · calc q :: (front ++ [x] ++ [q + 1]) = (q :: front) ++ [x, q + 1] := by simp
        _ = ((q :: front).dropLast ++ [(q :: front).getLast hne]) ++ [x, q + 1] := by rw [← hfront]
        _ = _ := by simp
  | cons b behind =>
    refine ⟨(q :: front).dropLast, (q :: front).getLast hne, behind ++ [q + 1], ?_, fun x => ?_⟩
    · calc q :: (front ++ b :: behind ++ [q + 1]) = (q :: front) ++ b :: (behind ++ [q + 1]) := by
            simp
        _ = ((q :: front).dropLast ++ [(q :: front).getLast hne]) ++ b :: (behind ++ [q + 1]) := by
            rw [← hfront]
        _ = _ := by simp
    · calc q :: (front ++ x :: b :: behind ++ [q + 1]) =
            (q :: front) ++ x :: b :: (behind ++ [q + 1]) := by simp
        _ = ((q :: front).dropLast ++ [(q :: front).getLast hne]) ++
              x :: b :: (behind ++ [q + 1]) := by rw [← hfront]
        _ = _ := by simp

/-- A process that is on no queue, linked in behind `front`. -/
theorem Represents.linkIn (hr : Represents t l) (hp : Placed l home) (hq : IsQueue q)
    (hpid : IsPid p) (hnone : home p = none) {front behind : List Int}
    (hl : l.lists q = front ++ behind) {prev next : Int} (hnext : next = behind.headD (q + 1))
    (hprev : prev = t.qprev next) (q' : Int) (hq' : IsQueue q') :
    Linked (update (update t.qnext p next) prev p) (update (update t.qprev p prev) next p)
      (q' :: (update l.lists q (front ++ p :: behind) q' ++ [q' + 1])) := by
  obtain ⟨A, a, B, hnodes, hnew⟩ := nodes_split (q := q) front behind
  rw [← hnext] at hnodes
  have hold := hr.linked q hq
  have hnd := hp.nodes_nodup hq
  rw [hl, hnodes] at hold hnd
  have ha : prev = a := hprev.trans hold.edge.2
  have hmem : p ∉ A ++ a :: next :: B := by
    rw [← hnodes, ← hl]
    intro hx
    rcases mem_nodes.mp hx with hx | hx | hx
    · exact (hpid.ne_queue hq).1 hx
    · exact hp.not_mem hnone hx
    · exact (hpid.ne_queue hq).2 hx
  by_cases hqq : q' = q
  · subst hqq
    rw [update_self, hnew p, ← hnext, ha]
    exact hold.link hnd hmem
  · rw [update_of_ne hqq]
    have hout : ∀ x ∈ q' :: (l.lists q' ++ [q' + 1]), x ≠ p ∧ x ≠ prev ∧ x ≠ next := by
      intro x hx
      refine ⟨fun he => ?_, fun he => ?_, fun he => ?_⟩
      · rw [he] at hx
        rcases mem_nodes.mp hx with hx | hx | hx
        · exact (hpid.ne_queue hq').1 hx
        · exact hp.not_mem hnone hx
        · exact (hpid.ne_queue hq').2 hx
      · refine hp.nodes_disjoint hq hq' hqq ?_ hx
        rw [hl, hnodes, he, ha]
        simp
      · refine hp.nodes_disjoint hq hq' hqq ?_ hx
        rw [hl, hnodes, he]
        simp
    refine (hr.linked q' hq').congr (fun x hx => ?_) fun x hx => ?_
    · rw [update_of_ne (hout x hx).2.1, update_of_ne (hout x hx).1]
    · rw [update_of_ne (hout x hx).2.2, update_of_ne (hout x hx).1]

theorem Placed.linkIn (hp : Placed l home) (hpid : IsPid p) (hnone : home p = none)
    {front behind : List Int} (hl : l.lists q = front ++ behind) {key : Int → Int}
    (hkey : ∀ q, IsQueue q → key (q + 1) = l.key (q + 1)) :
    Placed ⟨update l.lists q (front ++ p :: behind), key⟩ (update home p (some q)) where
  mem q' x := by
    show x ∈ update l.lists q (front ++ p :: behind) q' ↔ _
    by_cases hxp : x = p
    · subst hxp
      rw [update_self]
      by_cases hqq : q' = q
      · subst hqq
        rw [update_self]
        exact iff_of_true (by simp) ⟨hpid, rfl⟩
      · rw [update_of_ne hqq]
        refine iff_of_false (hp.not_mem hnone) fun h => hqq (Option.some.inj h.2).symm
    · rw [update_of_ne hxp, ← hp.mem]
      by_cases hqq : q' = q
      · subst hqq
        rw [update_self, hl]
        simp [hxp]
      · rw [update_of_ne hqq]
  nodup q' := by
    show (update l.lists q (front ++ p :: behind) q').Nodup
    by_cases hqq : q' = q
    · subst hqq
      have hnd := hp.nodup q'
      have hmem := hp.not_mem hnone (q := q')
      rw [hl] at hnd hmem
      rw [update_self]
      exact List.nodup_middle.mpr (List.nodup_cons.mpr ⟨hmem, hnd⟩)
    · rw [update_of_ne hqq]
      exact hp.nodup q'
  tail q' hq' := (hkey q' hq').trans (hp.tail q' hq')

/-- A process taken off its queue. -/
theorem Represents.getitem (hr : Represents t l) (hp : Placed l home) (hq : IsQueue q)
    (hmem : p ∈ l.lists q) :
    Represents (QueueTable.getitem t p) (QueueTable.getitem l p) where
  key := hr.key
  linked q' hq' := by
    show Linked (update t.qnext (t.qprev p) (t.qnext p)) (update t.qprev (t.qnext p) (t.qprev p))
      (q' :: ((l.lists q').erase p ++ [q' + 1]))
    obtain ⟨front, behind, hl⟩ := List.append_of_mem hmem
    obtain ⟨A, a, B, hnew, hnodes⟩ := nodes_split (q := q) front behind
    have hold := hr.linked q hq
    have hnd := hp.nodes_nodup hq
    rw [hl, hnodes p] at hold hnd
    have hprev : t.qprev p = a := hold.edge.2
    have hnext : t.qnext p = behind.headD (q + 1) := by
      have hsplit : A ++ a :: p :: behind.headD (q + 1) :: B =
          (A ++ [a]) ++ p :: behind.headD (q + 1) :: B := by simp
      rw [hsplit] at hold
      exact hold.edge.1
    rw [hprev, hnext]
    by_cases hqq : q' = q
    · subst hqq
      have hfront : p ∉ front := by
        have hndl := hp.nodup q'
        rw [hl] at hndl
        exact fun hf => (List.nodup_append.mp hndl).2.2 p hf p List.mem_cons_self rfl
      rw [hl, List.erase_append_right _ hfront, List.erase_cons_head, hnew]
      exact hold.unlink hnd
    · have herase : (l.lists q').erase p = l.lists q' :=
        List.erase_of_not_mem fun hx => hqq (Option.some.inj
          ((hp.home_eq hx).symm.trans (hp.home_eq hmem)))
      rw [herase]
      have hout : ∀ x ∈ q' :: (l.lists q' ++ [q' + 1]), x ≠ a ∧ x ≠ behind.headD (q + 1) := by
        intro x hx
        constructor
        · intro he
          refine hp.nodes_disjoint hq hq' hqq ?_ hx
          rw [hl, hnodes p, he]
          simp
        · intro he
          refine hp.nodes_disjoint hq hq' hqq ?_ hx
          rw [hl, hnodes p, he]
          simp
      refine (hr.linked q' hq').congr (fun x hx => ?_) fun x hx => ?_
      · exact update_of_ne (hout x hx).1 _ _
      · exact update_of_ne (hout x hx).2 _ _

theorem Placed.getitem (hp : Placed l home) :
    Placed (QueueTable.getitem l p) (update home p none) where
  mem q' x := by
    show x ∈ (l.lists q').erase p ↔ _
    rw [(hp.nodup q').mem_erase_iff, hp.mem]
    by_cases hxp : x = p
    · subst hxp
      simp
    · rw [update_of_ne hxp]
      simp [hxp]
  nodup q' := (hp.nodup q').erase p
  tail := hp.tail

/-! ## The walks of `insert` and `insertd` -/

theorem next_head {h tail : Int} {ps : List Int}
    (hl : Linked t.qnext t.qprev (h :: (ps ++ [tail]))) :
    t.qnext h = ps.headD tail ∧ t.qprev (ps.headD tail) = h := by
  cases ps with
  | nil => exact (List.isChain_cons_cons.mp hl).1
  | cons p ps => exact (List.isChain_cons_cons.mp hl).1

theorem insertWalk_eq {key tail : Int} (htail : t.qkey tail < key) {h : Int} {ps : List Int}
    (hl : Linked t.qnext t.qprev (h :: (ps ++ [tail]))) {fuel : Nat} (hfuel : ps.length < fuel) :
    t.insertWalk key fuel (ps.headD tail) =
      (ps.dropWhile (key ≤ t.qkey ·)).headD tail := by
  induction ps generalizing h fuel with
  | nil =>
    obtain ⟨fuel, rfl⟩ := Nat.exists_eq_add_of_lt hfuel
    simp only [List.length_nil, Nat.zero_add, List.headD_nil, Queuetab.insertWalk,
      List.dropWhile_nil]
    rw [if_neg (by omega)]
  | cons p ps ih =>
    have hrest : Linked t.qnext t.qprev (p :: (ps ++ [tail])) := (List.isChain_cons_cons.mp hl).2
    obtain ⟨fuel, rfl⟩ : ∃ n, fuel = n + 1 := ⟨fuel - 1, by simp at hfuel; omega⟩
    rw [List.headD_cons, Queuetab.insertWalk, List.dropWhile_cons]
    by_cases hkey : key ≤ t.qkey p
    · rw [if_pos hkey, if_pos (by simpa using hkey), (next_head hrest).1]
      exact ih hrest (by simpa using hfuel)
    · rw [if_neg hkey, if_neg (by simpa using hkey), List.headD_cons]

theorem insertdWalk_eq {tail : Int} (delay : Int) {h : Int} {ps : List Int}
    (hl : Linked t.qnext t.qprev (h :: (ps ++ [tail]))) (hne : tail ∉ ps) {fuel : Nat}
    (hfuel : ps.length < fuel) :
    let r := QueueLists.deltaSplit t.qkey delay ps
    t.insertdWalk tail fuel delay h (ps.headD tail) =
      (r.2.1, t.qprev (r.2.2.headD tail), r.2.2.headD tail) := by
  induction ps generalizing h fuel delay with
  | nil =>
    obtain ⟨fuel, rfl⟩ := Nat.exists_eq_add_of_lt hfuel
    simp only [List.length_nil, Nat.zero_add, List.headD_nil, Queuetab.insertdWalk,
      QueueLists.deltaSplit]
    rw [if_neg (by simp)]
    have hprev := (next_head hl).2
    rw [List.headD_nil] at hprev
    rw [hprev]
  | cons p ps ih =>
    have hrest : Linked t.qnext t.qprev (p :: (ps ++ [tail])) := (List.isChain_cons_cons.mp hl).2
    have hprev := (next_head hl).2
    rw [List.headD_cons] at hprev
    have hp : p ≠ tail := fun he => hne (by simp [he])
    obtain ⟨fuel, rfl⟩ : ∃ n, fuel = n + 1 := ⟨fuel - 1, by simp at hfuel; omega⟩
    rw [List.headD_cons, QueueLists.deltaSplit]
    by_cases hkey : t.qkey p ≤ delay
    · rw [if_pos hkey, Queuetab.insertdWalk, if_pos ⟨hp, hkey⟩, (next_head hrest).1]
      exact ih _ hrest (fun hmem => hne (List.mem_cons_of_mem _ hmem)) (by simpa using hfuel)
    · rw [if_neg hkey, Queuetab.insertdWalk, if_neg fun h => hkey h.2]
      dsimp only
      rw [List.headD_cons, hprev]

theorem deltaSplit_append (key : Int → Int) (d : Int) (ps : List Int) :
    ps = (QueueLists.deltaSplit key d ps).1 ++ (QueueLists.deltaSplit key d ps).2.2 := by
  induction ps generalizing d with
  | nil => rfl
  | cons p ps ih =>
    rw [QueueLists.deltaSplit]
    split
    · exact congrArg (p :: ·) (ih (d - key p))
    · rfl

/-- There are no more processes on a queue than there are processes. -/
theorem Placed.length_le (hp : Placed l home) : (l.lists q).length ≤ 100 := by
  have hsub : (l.lists q).toFinset ⊆ Finset.Ico 0 nproc := fun x hx => by
    have hx := hp.isPid (List.mem_toFinset.mp hx)
    exact Finset.mem_Ico.mpr hx
  have hcard := Finset.card_le_card hsub
  rwa [List.toFinset_card_of_nodup (hp.nodup q), Int.card_Ico] at hcard

/-! ## Each operation keeps the lists -/

theorem Represents.firstid (hr : Represents t l) (hq : IsQueue q) :
    QueueTable.firstid t q = QueueTable.firstid l q := (next_head (hr.linked q hq)).1

theorem Represents.qkey (hr : Represents t l) (i : Int) :
    QueueTable.qkey t i = QueueTable.qkey l i := congrFun hr.key i

theorem nextIn_eq {h tail : Int} {ps : List Int}
    (hl : Linked t.qnext t.qprev (h :: (ps ++ [tail]))) (hmem : p ∈ ps) :
    t.qnext p = QueueLists.nextIn tail p ps := by
  induction ps generalizing h with
  | nil => cases hmem
  | cons x ps ih =>
    have hrest : Linked t.qnext t.qprev (x :: (ps ++ [tail])) := (List.isChain_cons_cons.mp hl).2
    rw [QueueLists.nextIn]
    split
    · rename_i hx
      rw [← hx]
      exact (next_head hrest).1
    · rename_i hx
      exact ih hrest ((List.mem_cons.mp hmem).resolve_left (Ne.symm hx))

theorem Represents.behind (hr : Represents t l) (hq : IsQueue q) (hmem : p ∈ l.lists q) :
    QueueTable.behind t q p = QueueTable.behind l q p := nextIn_eq (hr.linked q hq) hmem

theorem Represents.enqueue (hr : Represents t l) (hp : Placed l home) (hq : IsQueue q)
    (hpid : IsPid p) (hnone : home p = none) :
    Represents (QueueTable.enqueue t p q) (QueueTable.enqueue l p q) where
  key := hr.key
  linked := hr.linkIn hp hq hpid hnone (List.append_nil _).symm rfl rfl

theorem Placed.enqueue (hp : Placed l home) (hpid : IsPid p) (hnone : home p = none) :
    Placed (QueueTable.enqueue l p q) (update home p (some q)) :=
  hp.linkIn hpid hnone (List.append_nil _).symm fun _ _ => rfl

theorem Represents.insert (hr : Represents t l) (hp : Placed l home) (hq : IsQueue q)
    (hpid : IsPid p) (hnone : home p = none) {key : Int} (hkey : minkey < key) :
    Represents (QueueTable.insert t p q key) (QueueTable.insert l p q key) where
  key := by
    show update t.qkey p key = update l.key p key
    rw [hr.key]
  linked := by
    have hwalk : t.insertWalk key nqent.toNat (t.qnext q) =
        ((l.lists q).dropWhile (key ≤ l.key ·)).headD (q + 1) := by
      rw [(next_head (hr.linked q hq)).1, ← hr.key]
      refine insertWalk_eq ?_ (hr.linked q hq) ?_
      · rw [hr.key, hp.tail q hq]
        exact hkey
      · have hlen := hp.length_le (q := q)
        exact Nat.lt_of_le_of_lt hlen (by decide)
    exact hr.linkIn hp hq hpid hnone List.takeWhile_append_dropWhile.symm hwalk rfl

theorem Placed.insert (hp : Placed l home) (hpid : IsPid p) (hnone : home p = none)
    (key : Int) :
    Placed (QueueTable.insert l p q key) (update home p (some q)) :=
  hp.linkIn hpid hnone List.takeWhile_append_dropWhile.symm fun _ hq' =>
    update_of_ne (hpid.ne_queue hq').2.symm _ _

theorem Represents.insertd (hr : Represents t l) (hp : Placed l home) (hq : IsQueue q)
    (hpid : IsPid p) (hnone : home p = none) (delay : Int) :
    Represents (QueueTable.insertd t p q delay) (QueueTable.insertd l p q delay) := by
  have hlen := hp.length_le (q := q)
  have htail : q + 1 ∉ l.lists q := fun hmem => ((hp.isPid hmem).ne_queue hq).2 rfl
  have hwalk := insertdWalk_eq delay (hr.linked q hq) htail
    (Nat.lt_of_le_of_lt hlen (by decide : 100 < nqent.toNat))
  have hfirst := (next_head (hr.linked q hq)).1
  have happ := deltaSplit_append l.key delay (l.lists q)
  rw [hr.key] at hwalk
  show Represents (t.insertd p q delay) _
  unfold Queuetab.insertd
  rw [hfirst, hwalk]
  show Represents _ ⟨update l.lists q _, _⟩
  generalize QueueLists.deltaSplit l.key delay (l.lists q) = r at happ
  obtain ⟨front, d, behind⟩ := r
  dsimp only at happ ⊢
  refine ⟨?_, hr.linkIn hp hq hpid hnone happ rfl rfl⟩
  rw [hr.key]
  cases behind with
  | nil =>
    rw [List.headD_nil, if_neg (by simp)]
    rfl
  | cons b behind =>
    have hb : b ≠ q + 1 := fun he => htail (by rw [happ]; simp [he])
    rw [List.headD_cons, if_pos hb]
    rfl

theorem Placed.insertd (hp : Placed l home) (hpid : IsPid p)
    (hnone : home p = none) (delay : Int) :
    Placed (QueueTable.insertd l p q delay) (update home p (some q)) := by
  have happ := deltaSplit_append l.key delay (l.lists q)
  refine hp.linkIn hpid hnone happ fun q' hq' => ?_
  have hmem : ∀ x ∈ (QueueLists.deltaSplit l.key delay (l.lists q)).2.2, x ≠ q' + 1 := by
    intro x hx
    have hx : x ∈ l.lists q := by
      rw [happ]
      exact List.mem_append_right _ hx
    exact ((hp.isPid hx).ne_queue hq').2
  generalize (QueueLists.deltaSplit l.key delay (l.lists q)).2.2 = behind at hmem
  cases behind with
  | nil => exact update_of_ne (hpid.ne_queue hq').2.symm _ _
  | cons b behind =>
    show update (update l.key p _) b _ (q' + 1) = _
    rw [update_of_ne (hmem b List.mem_cons_self).symm, update_of_ne (hpid.ne_queue hq').2.symm]

/-- The links of a process on no queue are not part of any list. -/
theorem Represents.clear (hr : Represents t l) (hp : Placed l home) (hpid : IsPid p)
    (hnone : home p = none) : Represents (QueueTable.clear t p) (QueueTable.clear l p) where
  key := hr.key
  linked q hq := by
    have hout : ∀ x ∈ q :: (l.lists q ++ [q + 1]), x ≠ p := by
      intro x hx he
      rw [he] at hx
      rcases mem_nodes.mp hx with hx | hx | hx
      · exact (hpid.ne_queue hq).1 hx
      · exact hp.not_mem hnone hx
      · exact (hpid.ne_queue hq).2 hx
    exact (hr.linked q hq).congr (fun x hx => update_of_ne (hout x hx) _ _)
      fun x hx => update_of_ne (hout x hx) _ _

theorem Represents.addKey (hr : Represents t l) (i d : Int) :
    Represents (QueueTable.addKey t i d) (QueueTable.addKey l i d) where
  key := by
    show update t.qkey i (t.qkey i + d) = update l.key i (l.key i + d)
    rw [hr.key]
  linked := hr.linked

theorem Placed.addKey (hp : Placed l home) (hpid : IsPid p) (d : Int) :
    Placed (QueueTable.addKey l p d) home where
  mem := hp.mem
  nodup := hp.nodup
  tail q hq := (update_of_ne (hpid.ne_queue hq).2.symm _ _).trans (hp.tail q hq)

end Links

end NatBox
