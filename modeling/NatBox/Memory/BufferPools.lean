import NatBox.Lib.Chain
import NatBox.Lib.Semaphore
import NatBox.Memory.HeapRuns
import NatBox.Packet

/-
Buffer pools: `mkbufpool`, `getbuf` and `freebuf`, over the heap of `getmem` and `freemem`.

All run with interrupts disabled, and stop only in the `wait` of `getbuf`.  The first word of a
buffer is the link of the free list while the buffer is free, and the pool id while it is held;
`mem` has the word at each address.  What the callers do not do, a step does not do either:
`freebuf` of a buffer that nobody holds, or `freemem` of the memory of a pool.
-/

namespace NatBox

open Chain Function Runs Spans

/-- `NBPOOLS` -/
abbrev nbPoolsMax : Nat := 20

/-- `BP_MINB` -/
abbrev bpMinB : Nat := 8

/-- `BP_MAXB` -/
abbrev bpMaxB : Nat := 8192

/-- `BP_MAXN` -/
abbrev bpMaxN : Nat := 2048

/-- A process in the `wait` of `getbuf`, or signalled there and not run yet. -/
structure GetbufCall where
  pid : Nat
  poolid : Nat
  deriving DecidableEq

/-- An entry of `buftab`, with the semaphore itself.  Address 0 is `NULL`. -/
structure BpEntry where
  bpnext : Nat
  bpsem : Semaphore GetbufCall
  bpsize : Nat
  /-- ghost: the address from `getmem` -/
  base : Nat
  /-- ghost: the number of buffers -/
  numbufs : Nat

structure BufferPools where
  use : HeapUse
  mem : Nat → Nat
  buftab : Nat → BpEntry
  nbpools : Nat
  /-- the callers that were signalled and did not run yet -/
  ready : List GetbufCall
  /-- ghost: the buffers got by `getbuf` and not given back, each with its pool and the address
  of its first word -/
  held : List (Nat × Nat)

inductive BpEvent
  /-- another call of the heap -/
  | heap (call : HeapCall)
  /-- `mkbufpool`, with whether `semcreate` finds an entry -/
  | make (bufsiz numbufs : Int) (sem : Bool)
  | get (pid : Nat) (poolid : Int)
  /-- a caller that was signalled runs -/
  | resume (call : GetbufCall)
  | free (bufaddr : Nat)
  /-- a process writes a word into a buffer that it holds -/
  | write (bufaddr offset value : Nat)

inductive BpResult
  | made (poolid : Nat)
  | got (bufaddr : Nat)
  | blocked (call : GetbufCall)
  | ok
  | syserr
  | other
  deriving DecidableEq

/-- The loop of `mkbufpool`, with the rounds to go. -/
def mkbufpoolLoop (bufsiz : Nat) : Nat → Nat → (Nat → Nat) → Nat → Nat
  | 0, buf, mem => update mem buf 0
  | rounds + 1, buf, mem =>
    mkbufpoolLoop bufsiz rounds (buf + bufsiz) (update mem buf (buf + bufsiz))

/-- The bytes of the pool: each buffer has its first word in front. -/
def BpEntry.nbytes (bp : BpEntry) : Nat := bp.numbufs * (bp.bpsize + 4)

def BpEntry.block (bp : BpEntry) : Allocation := ⟨bp.base, bp.nbytes⟩

def mkbufpool (s : BufferPools) (bufsiz numbufs : Int) (sem : Bool) : BpResult × BufferPools :=
  if bufsiz < bpMinB ∨ bufsiz > bpMaxB ∨ numbufs < 1 ∨ numbufs > bpMaxN ∨
      s.nbpools ≥ nbPoolsMax then (.syserr, s)
  else
    let bufsiz := (bufsiz.toNat + 3) / 4 * 4
    let nbytes := numbufs.toNat * (bufsiz + 4)
    match s.use.heap.getmem nbytes with
    | (none, heap) => (.syserr, { s with use := { s.use with heap := heap } })
    | (some buf, heap) =>
      if sem then
        (.made s.nbpools,
          { s with
            use := ⟨heap, ⟨buf, nbytes⟩ :: s.use.live⟩
            mem := mkbufpoolLoop (bufsiz + 4) (numbufs.toNat - 1) buf s.mem
            buftab := update s.buftab s.nbpools {
              bpnext := buf
              bpsem := .create numbufs.toNat
              bpsize := bufsiz
              base := buf
              numbufs := numbufs.toNat }
            nbpools := s.nbpools + 1 })
      else (.syserr, { s with use := { s.use with heap := (heap.freemem buf nbytes).2 } })

/-- `getbuf` behind its `wait`. -/
def getbufResume (s : BufferPools) (poolid : Nat) : Except Fault (BpResult × BufferPools) :=
  let bp := s.buftab poolid
  if bp.bpnext = 0 then .error .nullPointer
  else
    .ok (.got (bp.bpnext + 4),
      { s with
        buftab := update s.buftab poolid { bp with bpnext := s.mem bp.bpnext }
        mem := update s.mem bp.bpnext poolid
        held := (poolid, bp.bpnext) :: s.held })

def getbuf (s : BufferPools) (pid : Nat) (poolid : Int) : Except Fault (BpResult × BufferPools) :=
  if poolid < 0 ∨ poolid ≥ s.nbpools then .ok (.syserr, s)
  else
    let call := ⟨pid, poolid.toNat⟩
    let bp := s.buftab call.poolid
    let s' := { s with
      buftab := update s.buftab call.poolid { bp with bpsem := bp.bpsem.wait call } }
    if 0 < bp.bpsem.count then getbufResume s' call.poolid else .ok (.blocked call, s')

/-- A word that is negative as a pool id is larger than `nbpools`. -/
def freebuf (s : BufferPools) (bufaddr : Nat) : BpResult × BufferPools :=
  let bufaddr := bufaddr - 4
  let poolid := s.mem bufaddr
  if poolid ≥ s.nbpools then (.syserr, s)
  else
    let bp := s.buftab poolid
    (.ok,
      { s with
        mem := update s.mem bufaddr bp.bpnext
        buftab := update s.buftab poolid { bp with
          bpnext := bufaddr
          bpsem := bp.bpsem.signal.1 }
        ready := s.ready ++ bp.bpsem.signal.2
        held := s.held.erase (poolid, bufaddr) })

/-- The call of the heap does not free the memory of a pool. -/
def BufferPools.spares (s : BufferPools) : HeapCall → Prop
  | .freemem blkaddr _ => ∀ i, i < s.nbpools → (s.buftab i).base ≠ blkaddr
  | .getmem _ => True
  | .getstk _ => True

instance (s : BufferPools) (call : HeapCall) : Decidable (s.spares call) :=
  match call with
  | .freemem _ _ => inferInstanceAs (Decidable (∀ i, i < s.nbpools → _))
  | .getmem _ => isTrue trivial
  | .getstk _ => isTrue trivial

def bpStep (s : BufferPools) : BpEvent → Except Fault (BpResult × BufferPools)
  | .heap call =>
    .ok (.other, if s.spares call then
      match s.use.step call with
      | .error _ => s
      | .ok (_, use) => { s with use := use }
      else s)
  | .make bufsiz numbufs sem => .ok (mkbufpool s bufsiz numbufs sem)
  | .get pid poolid => getbuf s pid poolid
  | .resume call =>
    if call ∈ s.ready then getbufResume { s with ready := s.ready.erase call } call.poolid
    else .ok (.other, s)
  | .free bufaddr =>
    .ok (if ∃ h ∈ s.held, h.2 + 4 = bufaddr then freebuf s bufaddr else (.other, s))
  | .write bufaddr offset value =>
    .ok (.other, if ∃ h ∈ s.held, h.2 + 4 = bufaddr ∧ offset % 4 = 0 ∧
        offset + 4 ≤ (s.buftab h.1).bpsize then
      { s with mem := update s.mem (bufaddr + offset) value } else s)

/-- No pool yet, on a heap with nothing allocated. -/
def BufferPools.init (heap : Heap) (mem : Nat → Nat) : BufferPools where
  use := ⟨heap, []⟩
  mem := mem
  buftab _ := ⟨0, .create 0, 0, 0, 0⟩
  nbpools := 0
  ready := []
  held := []

/-! ## What pools are for -/

def toPtr (word : Nat) : Option Nat := if word = 0 then none else some word

def nextWord (mem : Nat → Nat) (addr : Nat) : Option Nat := toPtr (mem addr)

/-- The buffers made for the pool. -/
def BpEntry.buffers (bp : BpEntry) : List Nat :=
  (List.range bp.numbufs).map fun k => bp.base + k * (bp.bpsize + 4)

/-- The buffers of a pool that are held, by the addresses of their first words. -/
def BufferPools.heldOf (s : BufferPools) (poolid : Nat) : List Nat :=
  (s.held.filter (·.1 = poolid)).map Prod.snd

structure PoolsKept (s : BufferPools) : Prop where
  /-- the free buffers and the held ones are those made for the pool, and who may take one
  without waiting, with who was signalled for one, is as many as are free -/
  pool : ∀ i, i < s.nbpools → ∃ free,
    Leads (nextWord s.mem) (toPtr (s.buftab i).bpnext) free ∧
    (free ++ s.heldOf i).Perm (s.buftab i).buffers ∧
    (s.buftab i).bpsem.count.toNat + (s.ready.filter (·.poolid = i)).length = free.length
  /-- buffers do not overlap, be they of one pool or of two -/
  apart : ∀ i j a b, i < s.nbpools → j < s.nbpools → a ∈ (s.buftab i).buffers →
    b ∈ (s.buftab j).buffers → (i, a) ≠ (j, b) →
    Apart (a, a + (s.buftab i).bpsize + 4) (b, b + (s.buftab j).bpsize + 4)
  nodup : ∀ i, i < s.nbpools → (s.buftab i).buffers.Nodup
  /-- whoever comes from `wait` finds a buffer -/
  never_empty : ∀ e f, bpStep s e ≠ .error f

end NatBox
