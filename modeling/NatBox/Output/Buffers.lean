import NatBox.Fragment.Sendto
import NatBox.Lib.Runs
import NatBox.Output.SendIpv6Pkt

/-
The buffers that sending takes from `ipv6bufpool`.

Every sender takes a buffer first and gives it back before it returns, `sendipv6pkt` at
four places, one for each validation that fails and one for the end.  `sendFragment` alone
has no `freebuf` on either of its paths; it has its buffers in its model already.
-/

namespace NatBox

open Runs

/-- A sender does not return: no buffer becomes free, or its computation has a fault. -/
inductive SendFault
  | blocked
  | fault (f : Fault)
  deriving DecidableEq

/-! ## The senders with their buffers -/

/-- What `sendNSOL`, `sendNAD` and `sendEchoResp` do with their buffer. -/
def withBuffer {α : Type} (send : Except Fault α) (pool : Ipv6BufPool) :
    Except SendFault (α × Ipv6BufPool) :=
  match pool.getbuf with
  | none => .error .blocked
  | some (packet, pool) =>
    match send with
    | .error f => .error (.fault f)
    | .ok sent => .ok (sent, pool.freebuf packet)

namespace Pooled

variable (cfg : Config)

def sendNSOL (ra : RouterOptions) (ipSrc : Ipv6Addr) (macDest : MacAddr) (ipDest target : Ipv6Addr)
    (iface : UInt8) : Ipv6BufPool → Except SendFault (NetPacket × Ipv6BufPool) :=
  withBuffer (NatBox.sendNSOL cfg ra ipSrc macDest ipDest target iface)

def sendNAD (ra : RouterOptions) (ipSrc : Ipv6Addr) (macDest : MacAddr) (ipDest target : Ipv6Addr)
    (iface : UInt8) : Ipv6BufPool → Except SendFault (NetPacket × Ipv6BufPool) :=
  withBuffer (NatBox.sendNAD cfg ra ipSrc macDest ipDest target iface)

def sendEchoResp (ipSrc : Ipv6Addr) (macDest : MacAddr) (ipDest : Ipv6Addr)
    (identifier seqNumber : UInt16) : Ipv6BufPool → Except SendFault (NetPacket × Ipv6BufPool) :=
  withBuffer (NatBox.sendEchoResp cfg ipSrc macDest ipDest identifier seqNumber)

def sendipv6pkt (info : RouterInfo) (heap : Mem) (stack : List UInt8) (garbage : UInt32)
    (type : UInt8) (linkDest : MacAddr) (ipDest : Ipv6Addr) (iface : UInt8) (pool : Ipv6BufPool) :
    Except SendFault (Sent × Ipv6BufPool) :=
  match pool.getbuf with
  | none => .error .blocked
  | some (packet, pool) =>
    if type = routerA ∧ cfg.host then .ok (⟨0, none⟩, pool.freebuf packet)
    else
      match buildPacket cfg info stack type linkDest ipDest iface with
      | .error f => .error (.fault f)
      | .ok built =>
        match selfValid cfg heap type built with
        | .error f => .error (.fault f)
        | .ok (false, _) => .ok (⟨0, none⟩, pool.freebuf packet)
        | .ok (true, frame) =>
          .ok (⟨1, some (frame, sentLen type garbage)⟩, pool.freebuf packet)

end Pooled

/-- A call of one of the five functions with all it reads. -/
inductive SendCall
  | nsol (cfg : Config) (ra : RouterOptions) (ipSrc : Ipv6Addr) (macDest : MacAddr)
      (ipDest target : Ipv6Addr) (iface : UInt8)
  | nad (cfg : Config) (ra : RouterOptions) (ipSrc : Ipv6Addr) (macDest : MacAddr)
      (ipDest target : Ipv6Addr) (iface : UInt8)
  | echoResp (cfg : Config) (ipSrc : Ipv6Addr) (macDest : MacAddr) (ipDest : Ipv6Addr)
      (identifier seqNumber : UInt16)
  | ipv6pkt (cfg : Config) (info : RouterInfo) (heap : Mem) (stack : List UInt8)
      (garbage : UInt32) (type : UInt8) (linkDest : MacAddr) (ipDest : Ipv6Addr) (iface : UInt8)
  | sendto (cfg : Config) (nd solicited : NDCache) (identif mtu : UInt32) (destIpv6 : Ipv6Addr)
      (nextHeader : UInt8) (buffer : Mem) (bufLen : UInt16)

/-- One call, with the frames it writes. -/
def sendStep (pool : Ipv6BufPool) : SendCall → Except SendFault (List NetPacket × Ipv6BufPool)
  | .nsol cfg ra ipSrc macDest ipDest target iface =>
    (Pooled.sendNSOL cfg ra ipSrc macDest ipDest target iface pool).map fun r => ([r.1], r.2)
  | .nad cfg ra ipSrc macDest ipDest target iface =>
    (Pooled.sendNAD cfg ra ipSrc macDest ipDest target iface pool).map fun r => ([r.1], r.2)
  | .echoResp cfg ipSrc macDest ipDest identifier seqNumber =>
    (Pooled.sendEchoResp cfg ipSrc macDest ipDest identifier seqNumber pool).map
      fun r => ([r.1], r.2)
  | .ipv6pkt cfg info heap stack garbage type linkDest ipDest iface =>
    (Pooled.sendipv6pkt cfg info heap stack garbage type linkDest ipDest iface pool).map
      fun r => ((r.1.written.map Prod.fst).toList, r.2)
  | .sendto cfg nd solicited identif mtu destIpv6 nextHeader buffer bufLen =>
    match NatBox.sendto cfg nd solicited identif mtu destIpv6 nextHeader buffer bufLen pool with
    | (_, none) => .error .blocked
    | (calls, some (_, pool)) => .ok (framesOf calls, pool)

/-- The call is a `sendto` whose datagram is longer than the MTU, and not empty. -/
def SendCall.Fragments : SendCall → Prop
  | .sendto _ _ _ _ mtu _ _ _ bufLen => ipv6HdrLen + bufLen.toNat > mtu.toNat ∧ bufLen ≠ 0
  | _ => False

/-! ## One call -/

section Call

variable {pool pool' : Ipv6BufPool}

theorem withBuffer_ok {α : Type} {send : Except Fault α} {sent : α}
    (h : withBuffer send pool = .ok (sent, pool')) : send = .ok sent ∧ pool' = pool := by
  unfold withBuffer at h
  cases hget : pool.getbuf with
  | none => simp [hget] at h
  | some got =>
    obtain ⟨packet, rest⟩ := got
    cases send with
    | error f => simp [hget] at h
    | ok sent' =>
      simp only [hget, Except.ok.injEq, Prod.mk.injEq] at h
      obtain ⟨rfl, rfl⟩ := h
      exact ⟨rfl, BufferPool.freebuf_getbuf hget⟩

/-- Whichever way `sendipv6pkt` ends, it has given its buffer back. -/
theorem sendipv6pkt_eq_withBuffer (cfg : Config) (info : RouterInfo) (heap : Mem)
    (stack : List UInt8) (garbage : UInt32) (type : UInt8) (linkDest : MacAddr)
    (ipDest : Ipv6Addr) (iface : UInt8) (pool : Ipv6BufPool) :
    Pooled.sendipv6pkt cfg info heap stack garbage type linkDest ipDest iface pool =
      withBuffer (sendipv6pkt cfg info heap stack garbage type linkDest ipDest iface) pool := by
  unfold Pooled.sendipv6pkt withBuffer sendipv6pkt
  cases pool.getbuf with
  | none => rfl
  | some got =>
    by_cases hhost : type = routerA ∧ cfg.host = true
    · simp only [hhost, and_self, if_true]
    · simp only [hhost, if_false]
      cases buildPacket cfg info stack type linkDest ipDest iface with
      | error f => rfl
      | ok built =>
        rcases hvalid : selfValid cfg heap type built with f | ⟨_ | _, frame⟩
        · simp only [hvalid]
        · simp only [hvalid]
        · simp only [hvalid]

/-- `sendto` returns its buffers exactly when it needs none. -/
theorem sendto_takes {cfg : Config} {nd solicited : NDCache} {identif mtu : UInt32}
    {destIpv6 : Ipv6Addr} {nextHeader : UInt8} {buffer : Mem} {bufLen : UInt16}
    {calls : List SentFragment} {status : Int}
    (h : sendto cfg nd solicited identif mtu destIpv6 nextHeader buffer bufLen pool =
      (calls, some (status, pool'))) :
    pool'.size = pool.size ↔ ¬ (ipv6HdrLen + bufLen.toNat > mtu.toNat ∧ bufLen ≠ 0) := by
  unfold sendto at h
  rcases hsent : fragmentDatagram cfg nd solicited identif
      (sendtoDatagram cfg destIpv6 nextHeader buffer bufLen) mtu pool with ⟨sent, _ | left⟩
  · rw [hsent] at h
    cases (Prod.mk.inj h).2
  · rw [hsent] at h
    obtain ⟨-, rfl⟩ := Prod.mk.inj (Option.some.inj (Prod.mk.inj h).2)
    by_cases hlong : ipv6HdrLen + bufLen.toNat > mtu.toNat
    · obtain ⟨hpasses, hsize, -⟩ := passes_of_returns hlong hsent
      rw [and_iff_right hlong, not_not]
      change Passes cfg nd solicited identif _ _ bufLen 0 sent at hpasses
      cases hpasses with
      | nil => exact iff_of_true hsize.symm rfl
      | cons hne _ =>
        rw [List.length_cons] at hsize
        exact iff_of_false (by omega) hne
    · have hnone : fragmentDatagram cfg nd solicited identif
          (sendtoDatagram cfg destIpv6 nextHeader buffer bufLen) mtu pool = ([], some pool) := by
        unfold fragmentDatagram
        exact if_neg hlong
      obtain rfl := Option.some.inj (Prod.mk.inj (hnone.symm.trans hsent)).2
      exact iff_of_true rfl fun hfrag => hlong hfrag.1

/-- A call that returns leaves the pool as large as it was, unless it fragments. -/
theorem sendStep_size_iff {call : SendCall} {frames : List NetPacket}
    (h : sendStep pool call = .ok (frames, pool')) :
    pool'.size = pool.size ↔ ¬ call.Fragments := by
  cases call with
  | nsol cfg ra ipSrc macDest ipDest target iface =>
    obtain ⟨r, hr, heq⟩ := map_ok h
    obtain ⟨-, rfl⟩ := Prod.mk.inj heq
    exact iff_of_true (congrArg _ (withBuffer_ok hr).2) id
  | nad cfg ra ipSrc macDest ipDest target iface =>
    obtain ⟨r, hr, heq⟩ := map_ok h
    obtain ⟨-, rfl⟩ := Prod.mk.inj heq
    exact iff_of_true (congrArg _ (withBuffer_ok hr).2) id
  | echoResp cfg ipSrc macDest ipDest identifier seqNumber =>
    obtain ⟨r, hr, heq⟩ := map_ok h
    obtain ⟨-, rfl⟩ := Prod.mk.inj heq
    exact iff_of_true (congrArg _ (withBuffer_ok hr).2) id
  | ipv6pkt cfg info heap stack garbage type linkDest ipDest iface =>
    obtain ⟨r, hr, heq⟩ := map_ok h
    obtain ⟨-, rfl⟩ := Prod.mk.inj heq
    rw [sendipv6pkt_eq_withBuffer] at hr
    exact iff_of_true (congrArg _ (withBuffer_ok hr).2) id
  | sendto cfg nd solicited identif mtu destIpv6 nextHeader buffer bufLen =>
    unfold sendStep at h
    rcases hsent : sendto cfg nd solicited identif mtu destIpv6 nextHeader buffer bufLen pool with
      ⟨calls, _ | ⟨status, left⟩⟩
    · simp only [hsent] at h
      cases h
    · simp only [hsent] at h
      obtain ⟨-, rfl⟩ := Prod.mk.inj (Except.ok.inj h)
      exact sendto_takes hsent

end Call

/-! ## Runs -/

/-- In a run of sends every call gives its buffers back exactly when none fragments; and
then whoever takes a buffer afterwards waits only if he would have waited at the start. -/
theorem buffers_returned_iff {pool₀ pool : Ipv6BufPool} {tr : List (SendCall × List NetPacket)}
    (hr : Run sendStep pool₀ tr pool) :
    (AllSteps sendStep pool₀ (fun pool _ pool' => pool'.size = pool.size) tr ↔
      ∀ c ∈ tr, ¬ c.1.Fragments) ∧
    ((∀ c ∈ tr, ¬ c.1.Fragments) → (pool.getbuf = none ↔ pool₀.getbuf = none)) := by
  have hsteps : AllSteps sendStep pool₀ (fun pool _ pool' => pool'.size = pool.size) tr ↔
      AllSteps sendStep pool₀ (fun _ call _ => ¬ call.Fragments) tr :=
    allSteps_congr fun _ _ _ _ hs => sendStep_size_iff hs
  refine ⟨hsteps.trans hr.allSteps_event_iff, fun hnone => ?_⟩
  have hsize : pool.size = pool₀.size :=
    Run.invariant_of_allSteps (I := fun _ pool => pool.size = pool₀.size) rfl
      (fun _ _ _ _ _ hI hs hsame => ((sendStep_size_iff hs).mpr hsame).trans hI) hr
      (hr.allSteps_event_iff.mpr hnone)
  rw [BufferPool.getbuf_eq_none_iff, BufferPool.getbuf_eq_none_iff, hsize]

/-- A solicitation from the box. -/
def exampleSolicit : SendCall :=
  .nsol exampleConfig exampleOptions exampleConfig.linkLocal (Vector.replicate 6 0xA1) exampleHost
    exampleHost 0

theorem buffers_returned_solicit :
    ∃ frame, AllSteps sendStep ipv6bufpool (fun pool _ pool' => pool'.size = pool.size)
      [(exampleSolicit, [frame])] := by
  obtain ⟨frame, hsent⟩ : ∃ frame, sendNSOL exampleConfig exampleOptions exampleConfig.linkLocal
      (Vector.replicate 6 0xA1) exampleHost exampleHost 0 = .ok frame := by
    obtain ⟨ck, -, hsent⟩ := sendNeighbour_ok exampleConfig exampleConfig.linkLocal
      (Vector.replicate 6 0xA1) exampleHost
      (neighbourMessage exampleConfig exampleOptions neighbS 0 exampleHost) 0
    exact ⟨_, hsent⟩
  have hs : sendStep ipv6bufpool exampleSolicit = .ok ([frame], ipv6bufpool) := by
    unfold exampleSolicit sendStep Pooled.sendNSOL
    dsimp only
    rw [hsent]
    rfl
  refine ⟨frame, (buffers_returned_iff (Run.next .start hs)).1.mpr fun c hc => ?_⟩
  obtain rfl := List.mem_singleton.mp hc
  exact id

/-- Twenty-five bytes in four fragments. -/
def exampleSendto : SendCall :=
  .sendto exampleConfig exampleCache exampleCache 7 56 exampleServer ipv6Icmp UInt8.ofNat 25

/-- After ten such calls nobody gets a buffer any more. -/
theorem buffers_returned_fails_ten_sendto :
    ∃ frames pool, exec sendStep ipv6bufpool (List.replicate 10 exampleSendto) =
      .ok (frames, pool) ∧ pool.getbuf = none := by
  have hrun : (match exec sendStep ipv6bufpool (List.replicate 10 exampleSendto) with
      | .error _ => false
      | .ok (_, pool) => pool.getbuf.isNone) = true := by
    decide +kernel
  rcases h : exec sendStep ipv6bufpool (List.replicate 10 exampleSendto) with f | ⟨frames, pool⟩
  · rw [h] at hrun
    cases hrun
  · rw [h] at hrun
    exact ⟨frames, pool, rfl, Option.isNone_iff_eq_none.mp hrun⟩

end NatBox
