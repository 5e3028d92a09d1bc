import KuiperCache.Cache.Arbitration
import KuiperCache.Cache.System

/-! Every call keeps the cache sound, whatever packets it is given. -/
namespace KuiperCache.Cache

open Checked

variable {config : CacheConfig}

theorem recvTimingResp_base {cache next : Cache config} {pkt : Packet}
    {random : Fin config.geometry.assoc} (h : cache.recvTimingResp pkt random = .ok next) :
    pkt.cmd.isRead = true ∧ pkt.cmd.isInvalidate = false ∧ pkt.hasSharers = false ∧
      cache.recvTimingRespBase pkt random = .ok next := by
  simp only [recvTimingResp, bind_eq_ok, check_eq_ok, exists_const, Bool.not_eq_true'] at h
  obtain ⟨-, hread, -, hinvalidate, hsharers, h⟩ := h
  exact ⟨hread, hinvalidate, hsharers, h⟩

theorem Sound.recvTimingResp {cache next : Cache config} (h : Sound cache) {pkt : Packet}
    {random : Fin config.geometry.assoc} (hresp : cache.recvTimingResp pkt random = .ok next) :
    Sound next := by
  obtain ⟨-, -, -, hbase⟩ := recvTimingResp_base hresp
  obtain ⟨-, rfl⟩ | ⟨index, blk, filled, writebacks, mshr, ready, left, answers, -, hheld, hfill,
    -, -, -, -, hresponded⟩ := recvTimingRespBase_cases hbase
  · exact h
  · have htouched := (unblockTargets_kept cache index).toTouched.trans
      (fillFromResponse_touched hfill)
    have hmem := h.mem_allocatedList hheld
    rw [← htouched.mshrQueue] at hmem
    exact (h.touched htouched).responded hmem hresponded

theorem Sound.handleTimingRes {cache next : Cache config} (h : Sound cache) {pkt : Packet}
    {random : Fin config.geometry.assoc} (hres : cache.handleTimingRes pkt random = .ok next) :
    Sound next :=
  (h.touched (newPtr_kept cache).toTouched).recvTimingResp hres

theorem Sound.lockLine {cache next : Cache config} (h : Sound cache) {pkt : Packet}
    {blk : Option (BlkRef config.geometry)} (hlock : cache.lockLine pkt blk = .ok next) :
    Sound next := by
  obtain ⟨fresh, missed, marked, locking, index, mshr, mshrQueue, hfresh, hallocate, hmissed, -,
    hmark, rfl, htouched⟩ := lockLine_cases hlock
  have hspec := Mshr.allocate_spec hallocate
  have hsound := (h.touched hfresh.toTouched).missed hmissed hspec.inService hspec.readyTime
  have hmem : index ∈ missed.mshrQueue.allocatedList := by
    rw [hmissed.allocated.allocatedList]
    simp
  have hmarked : missed.markInService index false = .ok { missed with mshrQueue } := by
    obtain ⟨mshr', -, hedited, -, -⟩ := MshrQueue.markInService_spec hmark
    have hfull : mshrQueue.isFull = missed.mshrQueue.isFull := by
      unfold Queue.isFull
      rw [hedited.allocated, hedited.numReserve]
    simp only [markInService, hmark, ok_bind, hfull, Bool.and_not_self, Bool.false_eq_true,
      ↓reduceIte]
    rfl
  exact (hsound.marked hmem hmarked).touched htouched

theorem Sound.finished {before after : Cache config} {pkt : Packet} (h : Sound before)
    (hfinished : Finished before after pkt) : Sound after := by
  have hsame : after.mshrQueue = before.mshrQueue := hfinished.kept.mshrQueue
  have hbuffer : after.writeBuffer = before.writeBuffer := hfinished.kept.writeBuffer
  refine ⟨hsame ▸ h.represents, hsame ▸ h.numReserve, hsame ▸ h.free, ?_, hbuffer ▸ h.writeBuffer,
    hfinished.kept.replaceable h.replaceable, hsame ▸ h.due⟩
  have hflag : after.blocked.noMSHRs = before.blocked.noMSHRs := hfinished.kept.noMSHRs
  rw [hflag, hsame, h.noMSHRs]

theorem Sound.handleTimingReqHit {cache next : Cache config} (h : Sound cache) {pkt : Packet}
    {blk : Option (BlkRef config.geometry)} {random : Fin config.geometry.assoc}
    (hhit : cache.handleTimingReqHit pkt blk random = .ok next) : Sound next := by
  obtain ⟨locked, hfinished, ⟨-, rfl⟩ | ⟨-, -, hlock⟩⟩ := handleTimingReqHit_cases hhit
  · exact h.finished hfinished
  · exact (h.lockLine hlock).finished hfinished

/-- Coalescing and missing find only allocated entries. -/
theorem findMatch_eq_some {queue : MshrQueue config.mshrs} {addr : Addr}
    {secure ignoreUncacheable : Bool} {index : Fin config.mshrs}
    (h : queue.findMatch addr secure ignoreUncacheable = .ok (some index)) :
    index ∈ queue.allocatedList ∧ (queue.entries index).blkAddr = addr ∧
      (queue.entries index).isSecure = secure := by
  obtain ⟨hmem, htest⟩ := findFirst_eq_some h
  refine ⟨hmem, ?_⟩
  split at htest
  · cases htest
  · exact (QueueEntry.matchBlockAddr_eq_ok htest).mp rfl

theorem Sound.coalesce {cache next : Cache config} (h : Sound cache) {pkt : Packet}
    {index : Fin config.mshrs} (hmem : index ∈ cache.mshrQueue.allocatedList)
    (hcoalesce : cache.coalesce pkt index = .ok next) : Sound next := by
  obtain ⟨-, hkept⟩ | ⟨mshr, hallocate, hserving⟩ := coalesce_cases hcoalesce
  · exact h.touched hkept.toTouched
  · obtain ⟨hservice, hready⟩ := MshrQueue.allocateTarget_kept hallocate
    exact h.serving hmem hserving hservice hready

theorem Sound.startMiss {cache next : Cache config} (h : Sound cache) {pkt : Packet}
    {blk : Option (BlkRef config.geometry)} (hmiss : cache.startMiss pkt blk = .ok next) :
    Sound next := by
  obtain ⟨-, middle, index, mshr, htouched, -, hallocate, hmissed, -⟩ := startMiss_cases hmiss
  have hspec := Mshr.allocate_spec hallocate
  exact (h.touched htouched).missed hmissed hspec.inService hspec.readyTime

theorem Sound.handleTimingReqMiss {cache next : Cache config} (h : Sound cache) {pkt : Packet}
    {blk : Option (BlkRef config.geometry)} (hmiss : cache.handleTimingReqMiss pkt blk = .ok next) :
    Sound next := by
  obtain ⟨found, updated, hkept, hfound, hmiss⟩ := handleTimingReqMiss_cases hmiss
  have hupdated := h.touched hkept.toTouched
  cases found with
  | none => exact hupdated.startMiss hmiss
  | some index =>
      have hmem := (findMatch_eq_some hfound).1
      rw [← hkept.mshrQueue] at hmem
      exact hupdated.coalesce hmem hmiss

theorem Sound.schedMemSideSendEvent {cache : Cache config} (h : Sound cache) :
    Sound cache.schedMemSideSendEvent :=
  ⟨h.represents, h.numReserve, h.free, h.noMSHRs, h.writeBuffer, h.replaceable, h.due⟩

theorem Sound.recvTimingReq {cache next : Cache config} (h : Sound cache) {pkt : Packet}
    {random : Fin config.geometry.assoc} (hreq : cache.recvTimingReq pkt random = .ok next) :
    Sound next := by
  obtain ⟨reopened, accessed, handled, hkept, -, -, htouched, hhandled, rfl⟩ :=
    recvTimingReq_cases h.writeBuffer.1 hreq
  have haccessed := h.touched (hkept.toTouched.trans htouched)
  have hsound : Sound handled := by
    split at hhandled
    · exact (haccessed.touched (clearPrefetched_kept _ _).toTouched).handleTimingReqHit hhandled
    · exact haccessed.handleTimingReqMiss hhandled
  split
  · exact hsound.schedMemSideSendEvent
  · exact hsound

theorem findPending_writeBuffer {cache : Cache config} (hempty : cache.writeBuffer.readyList = [])
    (mshr : Mshr) : cache.writeBuffer.findPending mshr = .ok none := by
  rw [Queue.findPending, hempty]
  rfl

theorem getNext_writeBuffer {cache : Cache config} (hempty : cache.writeBuffer.readyList = []) :
    cache.writeBuffer.getNext curTick = none := by
  rw [Queue.getNext, hempty]

/-- With nothing in the write buffer, the next entry is the first ready MSHR;
when there is none, a prefetch may take a new one. -/
theorem getNextQueueEntry_cases {cache next : Cache config} {prefetch : Option Packet}
    {entry : Option (EntryRef config)} (hready : cache.writeBuffer.readyList = [])
    (h : cache.getNextQueueEntry prefetch = .ok (entry, next)) :
    (next = cache ∧ entry = (cache.mshrQueue.getNext curTick).map .miss) ∨
      ∃ pkt index mshr, prefetch = some pkt ∧ config.hasPrefetcher = true ∧
        cache.mshrQueue.canPrefetch = true ∧
        cache.findBlock (pkt.getBlockAddr config.blkSize) pkt.isSecure = none ∧
        cache.mshrQueue.findMatch (pkt.getBlockAddr config.blkSize) pkt.isSecure true = .ok none ∧
        (cache.mshrQueue.entries index).allocate (pkt.getBlockAddr config.blkSize)
          config.blkSize pkt curTick cache.order (allocOnFill pkt.cmd) = .ok mshr ∧
        Missed cache next index mshr := by
  simp only [getNextQueueEntry, getNext_writeBuffer hready] at h
  cases hmiss : cache.mshrQueue.getNext curTick with
  | some index =>
      simp only [hmiss, nextMiss, findPending_writeBuffer hready, ok_bind, pure_eq_ok,
        Prod.mk.injEq] at h
      exact .inl ⟨h.2.symm, h.1.symm⟩
  | none =>
      simp only [hmiss] at h
      split at h
      · rename_i hmay
        simp only [Bool.and_eq_true] at hmay
        cases prefetch with
        | none =>
            simp only [Except.ok.injEq, Prod.mk.injEq] at h
            exact .inl ⟨h.2.symm, h.1.symm⟩
        | some pkt =>
            obtain ⟨hnone, hsame⟩ | ⟨index, -, hblock, hfound, -, hallocate⟩ :=
              allocatePrefetch_cases h
            · exact .inl ⟨hsame, hnone⟩
            · obtain ⟨mshr, hmshr, hmissed, -⟩ := allocateMissBuffer_missed hallocate
              exact .inr ⟨pkt, index, mshr, rfl, hmay.1.1, hmay.1.2, hblock, hfound, hmshr,
                hmissed⟩
      · simp only [Except.ok.injEq, Prod.mk.injEq] at h
        exact .inl ⟨h.2.symm, h.1.symm⟩

theorem Sound.getNextQueueEntry {cache next : Cache config} (h : Sound cache)
    {prefetch : Option Packet} {entry : Option (EntryRef config)}
    (hnext : cache.getNextQueueEntry prefetch = .ok (entry, next)) : Sound next := by
  obtain ⟨rfl, -⟩ | ⟨pkt, index, mshr, -, -, -, -, -, hallocate, hmissed⟩ :=
    getNextQueueEntry_cases h.writeBuffer.2 hnext
  · exact h
  · have hspec := Mshr.allocate_spec hallocate
    exact h.missed hmissed hspec.inService hspec.readyTime

/-- The packet sent for an MSHR: a read of the whole line of its first target. -/
def missPacket (config : CacheConfig) (index : Fin config.mshrs) (req : Request) (ptr : Nat) :
    Packet :=
  ((Packet.ofBlock ptr req .readReq config.blkSize).allocate).pushSenderState (.mshr index)

/-- The response to a packet that was answered below. -/
theorem handleTimingRes_cases {cache next : Cache config} {pkt : Packet}
    {random : Fin config.geometry.assoc} (h : cache.handleTimingRes pkt random = .ok next) :
    ∃ fresh resp, Kept cache fresh ∧ fresh.recvTimingResp resp random = .ok next ∧
      resp.addr = (Packet.ofBlock pkt.ptr pkt.req pkt.cmd pkt.size).addr ∧
      resp.isSecure = pkt.req.isSecure ∧ resp.senderState = pkt.senderState ∧
      resp.cmd = if pkt.cmd.isRead then .readExResp else .writeResp :=
  ⟨cache.newPtr.2, _, newPtr_kept cache, h, rfl, rfl, rfl, rfl⟩

section Issue

variable {cache next : Cache config} {index : Fin config.mshrs}

/-- No packet is built exactly for an MSHR that write coalescing holds back. -/
theorem issueMSHR_eq_none : cache.issueMSHR index = .ok (none, next) ↔
    ∃ target, (cache.mshrQueue.entries index).getTarget = .ok target ∧
      cache.coalesceDelay index target.pkt = (true, next) := by
  simp only [issueMSHR, bind_eq_ok]
  constructor
  · rintro ⟨target, htarget, h⟩
    refine ⟨target, htarget, ?_⟩
    split at h
    · rename_i hdelayed
      simp only [pure_eq_ok, Prod.mk.injEq, true_and] at h
      exact Prod.ext hdelayed h
    · simp at h
  · rintro ⟨target, htarget, hdelay⟩
    refine ⟨target, htarget, ?_⟩
    rw [hdelay]
    rfl

theorem issueMSHR_kept (h : cache.issueMSHR index = .ok (none, next)) : Kept cache next := by
  obtain ⟨target, -, hdelay⟩ := issueMSHR_eq_none.mp h
  have hkept := coalesceDelay_kept cache index target.pkt
  rwa [hdelay] at hkept

/-- The packet built for an MSHR is a read of its block, for its first target. -/
theorem issueMSHR_serving {sent : Packet} (h : cache.issueMSHR index = .ok (some sent, next)) :
    ∃ target ptr, (cache.mshrQueue.entries index).getTarget = .ok target ∧
      sent = missPacket config index target.pkt.req ptr ∧
      Serving cache next index { cache.mshrQueue.entries index with isForward := false } [] := by
  simp only [issueMSHR, bind_eq_ok] at h
  obtain ⟨target, htarget, h⟩ := h
  have hdelay := coalesceDelay_kept cache index target.pkt
  split at h
  · simp only [pure_eq_ok, Prod.mk.injEq] at h
    cases h.1
  · simp only [bind_eq_ok, pure_eq_ok, Prod.mk.injEq, Option.some.injEq] at h
    obtain ⟨⟨pkt, created⟩, hcreate, rfl, rfl⟩ := h
    obtain ⟨rfl, hcreated⟩ := createMissPacket_eq_ok hcreate
    have hkept := hdelay.trans hcreated
    have hserving := (Serving.of_kept hkept index).trans (Serving.setEntry created index
      { (cache.coalesceDelay index target.pkt).2.mshrQueue.entries index with isForward := false })
    rw [hdelay.mshrQueue] at hserving
    rw [markIssued, hdelay.mshrQueue]
    exact ⟨target, (cache.coalesceDelay index target.pkt).2.nextPtr, htarget, rfl, hserving⟩

/-- What becomes of an MSHR that is sent: it is held back, answered at once, or
left in service. -/
theorem sendMSHRQueuePacket_issued {reply : Option (List UInt8)}
    {random : Fin config.geometry.assoc} {waiting : Bool} {flight : Option Packet}
    (h : cache.sendMSHRQueuePacket index reply random = .ok (waiting, next, flight)) :
    (waiting = false ∧ cache.issueMSHR index = .ok (none, next)) ∨
    ∃ sent issued, cache.issueMSHR index = .ok (some sent, issued) ∧
      ((∃ data, reply = some data ∧ waiting = true ∧
          issued.handleTimingRes { sent with data } random = .ok next) ∨
        (reply = none ∧ waiting = false ∧
          ∃ modified, issued.markInService index modified = .ok next)) := by
  simp only [sendMSHRQueuePacket, bind_eq_ok] at h
  obtain ⟨⟨sent, issued⟩, hissue, h⟩ := h
  cases sent with
  | none =>
      simp only [pure_eq_ok, Prod.mk.injEq] at h
      obtain ⟨rfl, rfl, -⟩ := h
      exact .inl ⟨rfl, hissue⟩
  | some sent =>
      refine .inr ⟨sent, issued, hissue, ?_⟩
      cases reply with
      | some data =>
          simp only [bind_eq_ok, pure_eq_ok, Prod.mk.injEq] at h
          obtain ⟨answered, hanswered, rfl, rfl, -⟩ := h
          exact .inl ⟨data, rfl, rfl, hanswered⟩
      | none =>
          simp only [bind_eq_ok, pure_eq_ok, Prod.mk.injEq] at h
          obtain ⟨marked, hmarked, rfl, rfl, -⟩ := h
          exact .inr ⟨rfl, rfl, _, hmarked⟩

/-- Sending an MSHR: write coalescing holds it back, or a read of its block is
built from its first target, and answered at once or left in flight. -/
theorem sendMSHRQueuePacket_cases {reply : Option (List UInt8)}
    {random : Fin config.geometry.assoc} {waiting : Bool} {flight : Option Packet}
    (h : cache.sendMSHRQueuePacket index reply random = .ok (waiting, next, flight)) :
    ∃ target, (cache.mshrQueue.entries index).getTarget = .ok target ∧
      ((cache.writeAllocator ≠ none ∧ waiting = false ∧ Kept cache next) ∨
       ∃ issued ptr, Serving cache issued index
          { cache.mshrQueue.entries index with isForward := false } [] ∧
        match reply with
        | some data => waiting = true ∧ issued.handleTimingRes
            { missPacket config index target.pkt.req ptr with data } random = .ok next
        | none =>
            waiting = false ∧ ∃ modified, issued.markInService index modified = .ok next) := by
  obtain ⟨rfl, hissue⟩ | ⟨sent, issued, hissue, hreply⟩ := sendMSHRQueuePacket_issued h
  · obtain ⟨target, htarget, hdelay⟩ := issueMSHR_eq_none.mp hissue
    refine ⟨target, htarget, .inl ⟨?_, rfl, issueMSHR_kept hissue⟩⟩
    intro hnone
    simp [coalesceDelay, hnone] at hdelay
  · obtain ⟨target, ptr, htarget, rfl, hserving⟩ := issueMSHR_serving hissue
    refine ⟨target, htarget, .inr ⟨issued, ptr, hserving, ?_⟩⟩
    obtain ⟨data, rfl, hwaiting, hres⟩ | ⟨rfl, hwaiting, hmarked⟩ := hreply
    · exact ⟨hwaiting, hres⟩
    · exact ⟨hwaiting, hmarked⟩

end Issue

theorem Sound.sendMSHRQueuePacket {cache next : Cache config} (h : Sound cache)
    {index : Fin config.mshrs} {reply : Option (List UInt8)}
    {random : Fin config.geometry.assoc} {waiting : Bool} {flight : Option Packet}
    (hsend : cache.sendMSHRQueuePacket index reply random = .ok (waiting, next, flight)) :
    Sound next := by
  obtain ⟨target, htarget, ⟨-, -, hkept⟩ | ⟨issued, ptr, hserving, hreply⟩⟩ :=
    sendMSHRQueuePacket_cases hsend
  · exact h.touched hkept.toTouched
  · obtain ⟨rest, hcons⟩ := Mshr.getTarget_eq_ok.mp htarget
    have hmem : index ∈ cache.mshrQueue.allocatedList := h.mem_allocatedList (by simp [hcons])
    have hissued := h.serving hmem hserving rfl rfl
    cases reply with
    | some data => exact hissued.handleTimingRes hreply.2
    | none =>
        obtain ⟨-, modified, hmarked⟩ := hreply
        have hmem : index ∈ issued.mshrQueue.allocatedList := by
          rw [hserving.mshrQueue]
          exact hmem
        exact hissued.marked hmem hmarked

/-- An answer to the packet sent for an MSHR is a response for the line of its
first target. -/
theorem missPacket_answered {cache next : Cache config} {index : Fin config.mshrs}
    {req : Request} {ptr : Nat} {data : List UInt8} {random : Fin config.geometry.assoc}
    (h : cache.handleTimingRes { missPacket config index req ptr with data } random = .ok next) :
    ∃ fresh resp, Kept cache fresh ∧ fresh.recvTimingResp resp random = .ok next ∧
      resp.addr = req.paddr &&& ~~~ BitVec.ofNat 64 (config.blkSize - 1) ∧
      resp.isSecure = req.isSecure ∧ resp.cmd = .readExResp ∧
      popMSHR resp = (.ok index : Except Assertion (Fin config.mshrs)) := by
  obtain ⟨fresh, resp, hkept, hresp, haddr, hsecure, hstate, hcmd⟩ := handleTimingRes_cases h
  have hsent : missPacket config index req ptr =
      { Packet.ofBlock ptr req .readReq config.blkSize with
        data := (missPacket config index req ptr).data, senderState := [.mshr index] } := by
    rw [missPacket, Packet.allocate_eq]
    rfl
  rw [hsent] at haddr hsecure hstate hcmd
  refine ⟨fresh, resp, hkept, hresp, haddr, hsecure, hcmd, ?_⟩
  rw [popMSHR, hstate]
  simp

end KuiperCache.Cache

namespace KuiperCache.System

open Checked

variable {config : CacheConfig}

theorem step_sound (system : System config) (label : Label config) (next : System config)
    (hsound : system.cache.Sound) (h : system.step label = .ok next) : next.cache.Sound := by
  cases label with
  | recvTimingReq pkt random =>
      obtain ⟨cache, hreq, rfl⟩ := step_recvTimingReq h
      exact (hsound.touched (Cache.newPtr_kept _).toTouched).recvTimingReq hreq
  | getNextQueueEntry prefetch =>
      obtain ⟨entry, cache, hnext, rfl⟩ := step_getNextQueueEntry h
      exact (hsound.touched (Cache.newPtr_kept _).toTouched).getNextQueueEntry hnext
  | sendMSHRQueuePacket index reply random =>
      obtain ⟨waiting, cache, flight, hsend, rfl⟩ := step_sendMSHRQueuePacket h
      exact hsound.sendMSHRQueuePacket hsend
  | handleTimingRes pkt random =>
      obtain ⟨cache, hres, rfl⟩ := step_handleTimingRes h
      exact hsound.handleTimingRes hres
  | recvTimingResp pkt random =>
      obtain ⟨cache, hresp, rfl⟩ := step_recvTimingResp h
      exact hsound.recvTimingResp hresp

/-- Every reachable cache is sound. -/
theorem run_sound {writeAllocator : Option WriteAllocator} {labels : List (Label config)}
    {final : System config} (hrun : Transition.run step (new config writeAllocator) labels =
      .ok final) : final.cache.Sound :=
  Transition.run_invariant (fun _ => True)
    (fun system label next _ hsound hstep => step_sound system label next hsound hstep)
    (fun _ _ => trivial) hrun (Cache.sound_new config writeAllocator)

end KuiperCache.System
