import KuiperCache.Mshr.Failures
import KuiperCache.Cache.Frame

/-! Who can find the free list of the MSHR queue empty.  Only the allocation of
a miss buffer does; every other function fails for other reasons. -/
namespace KuiperCache

open Checked

/-- Packets and targets are not about the free list. -/
@[simp] theorem freeListEmpty_ofTargets : Assertion.freeListEmpty.ofTargets = false := by
  decide

namespace Packet

@[simp] theorem makeTimingResponse_avoids (pkt : Packet) :
    Avoids .freeListEmpty pkt.makeTimingResponse := by
  simp [makeTimingResponse]

@[simp] theorem copyError_avoids (pkt error : Packet) :
    Avoids .freeListEmpty (pkt.copyError error) := by
  simp [copyError]

end Packet

@[simp] theorem Mshr.deallocate_avoids (mshr : Mshr) :
    Avoids .freeListEmpty mshr.deallocate := by
  simp [deallocate]

namespace WriteQueueEntry

@[simp] theorem getTarget_avoids (entry : WriteQueueEntry) :
    Avoids .freeListEmpty entry.getTarget := by
  unfold getTarget
  split <;> simp

@[simp] theorem allocate_avoids (entry : WriteQueueEntry) (blkAddr : Addr) (blkSize : Nat)
    (pkt : Packet) (whenReady : Tick) (order : Nat) :
    Avoids .freeListEmpty (entry.allocate blkAddr blkSize pkt whenReady order) := by
  simp [allocate]

@[simp] theorem deallocate_avoids (entry : WriteQueueEntry) :
    Avoids .freeListEmpty entry.deallocate := by
  simp [deallocate]

end WriteQueueEntry

namespace Queue

variable {Entry : Type} {numEntries : Nat} [QueueEntry Entry]

@[simp] theorem addToReadyList_avoids (queue : Queue Entry numEntries) (index : Fin numEntries) :
    Avoids .freeListEmpty (queue.addToReadyList index) := by
  unfold addToReadyList
  split
  · simp
  · split <;> simp

@[simp] theorem findMatch_avoids (queue : Queue Entry numEntries) (addr : Addr)
    (secure ignoreUncacheable : Bool) :
    Avoids .freeListEmpty (queue.findMatch addr secure ignoreUncacheable) :=
  avoids_findFirst (fun _ => by simp [QueueEntry.matchBlockAddr]) _

@[simp] theorem findPending_avoids {Other : Type} [QueueEntry Other]
    (queue : Queue Entry numEntries) (other : Other) :
    Avoids .freeListEmpty (queue.findPending other) :=
  avoids_findFirst (fun _ => by simp [QueueEntry.conflictAddr, QueueEntry.matchBlockAddr]) _

theorem deallocate_avoids (queue : Queue Entry numEntries) (index : Fin numEntries)
    (h : ∀ entry : Entry, Avoids .freeListEmpty (QueueEntry.deallocate entry)) :
    Avoids .freeListEmpty (queue.deallocate index) := by
  simp [deallocate, h]

end Queue

namespace WriteQueue

variable {numEntries : Nat}

@[simp] theorem allocate_avoids (queue : WriteQueue numEntries) (blkAddr : Addr) (blkSize : Nat)
    (pkt : Packet) (whenReady : Tick) (order : Nat) :
    Avoids .freeListEmpty (allocate queue blkAddr blkSize pkt whenReady order) := by
  unfold allocate
  split <;> simp

@[simp] theorem markInService_avoids (queue : WriteQueue numEntries) (index : Fin numEntries) :
    Avoids .freeListEmpty (markInService queue index) :=
  Queue.deallocate_avoids _ index WriteQueueEntry.deallocate_avoids

end WriteQueue

namespace MshrQueue

variable {numEntries : Nat}

/-- Allocation is the one place where an empty free list is noticed. -/
@[simp] theorem allocate_avoids (queue : MshrQueue numEntries) (blkAddr : Addr) (blkSize : Nat)
    (pkt : Packet) (whenReady : Tick) (order : Nat) (onFill : Bool) :
    Avoids .freeListEmpty (queue.allocate blkAddr blkSize pkt whenReady order onFill) ↔
      queue.freeList ≠ [] := by
  unfold allocate
  split
  · rename_i hnil
    simp [hnil]
  · rename_i index freeList hcons
    simp [hcons]

@[simp] theorem deallocate_avoids (queue : MshrQueue numEntries) (index : Fin numEntries) :
    Avoids .freeListEmpty (queue.deallocate index) := by
  simp [deallocate, Queue.deallocate_avoids queue.toQueue index Mshr.deallocate_avoids]

@[simp] theorem markInService_avoids (queue : MshrQueue numEntries) (index : Fin numEntries)
    (pendingModified : Bool) :
    Avoids .freeListEmpty (queue.markInService index pendingModified) := by
  simp [markInService]

@[simp] theorem markPending_avoids (queue : MshrQueue numEntries) (index : Fin numEntries) :
    Avoids .freeListEmpty (queue.markPending index) := by
  simp [markPending]

end MshrQueue

namespace CacheBlk

@[simp] theorem setCoherenceBits_avoids (blk : CacheBlk) (bit : CoherenceBit) :
    Avoids .freeListEmpty (blk.setCoherenceBits bit) := by
  simp [setCoherenceBits]

@[simp] theorem insertTag_avoids (blk : CacheBlk) (tag : Addr) (secure : Bool) :
    Avoids .freeListEmpty (blk.insertTag tag secure) := by
  simp [insertTag]

end CacheBlk

namespace Cache

variable {config : CacheConfig}

@[simp] theorem setCoherenceBits_avoids (cache : Cache config) (ref : BlkRef config.geometry)
    (bit : CoherenceBit) : Avoids .freeListEmpty (cache.setCoherenceBits ref bit) := by
  simp [setCoherenceBits]

@[simp] theorem allocateMissBuffer_avoids (cache : Cache config) (pkt : Packet) (time : Tick)
    (schedSend : Bool) : Avoids .freeListEmpty (cache.allocateMissBuffer pkt time schedSend) ↔
      cache.mshrQueue.freeList ≠ [] := by
  simp [allocateMissBuffer]

@[simp] theorem allocateWriteBuffer_avoids (cache : Cache config) (pkt : Packet) (time : Tick) :
    Avoids .freeListEmpty (cache.allocateWriteBuffer pkt time) := by
  simp [allocateWriteBuffer]

@[simp] theorem markInService_avoids (cache : Cache config) (index : Fin config.mshrs)
    (pendingModified : Bool) :
    Avoids .freeListEmpty (cache.markInService index pendingModified) := by
  simp [markInService]

@[simp] theorem markWriteInService_avoids (cache : Cache config)
    (index : Fin (config.writeBuffers + config.mshrs)) :
    Avoids .freeListEmpty (cache.markWriteInService index) := by
  simp [markWriteInService]

@[simp] theorem allocateBlock_avoids (cache : Cache config) (pkt : Packet)
    (writebacks : List Packet) (random : Fin config.geometry.assoc) :
    Avoids .freeListEmpty (cache.allocateBlock pkt writebacks random) := by
  simp [allocateBlock, handleEvictions, Tags.insertBlock, CacheBlk.insert]

@[simp] theorem satisfyRequest_avoids (cache : Cache config) (pkt : Packet)
    (blk : Option (BlkRef config.geometry)) :
    Avoids .freeListEmpty (cache.satisfyRequest pkt blk) := by
  simp [satisfyRequest]

@[simp] theorem evictBlock_avoids (cache : Cache config) (ref : BlkRef config.geometry)
    (writebacks : List Packet) : Avoids .freeListEmpty (cache.evictBlock ref writebacks) := by
  simp [evictBlock, writebackBlk]

theorem fillTarget_avoids (cache : Cache config) (pkt : Packet)
    (blk : Option (BlkRef config.geometry)) (writebacks : List Packet) (allocate : Bool)
    (random : Fin config.geometry.assoc) :
    Avoids .freeListEmpty (cache.fillTarget pkt blk writebacks allocate random) := by
  unfold fillTarget
  cases blk with
  | some ref => simp
  | none =>
      simp only [avoids_bind, avoids_check, Prod.forall]
      refine ⟨by simp, fun _ _ => ⟨by simp, ?_⟩⟩
      intro found filled dropped _
      cases found <;> simp

theorem handleFill_avoids (cache : Cache config) (pkt : Packet)
    (blk : Option (BlkRef config.geometry)) (writebacks : List Packet) (allocate : Bool)
    (random : Fin config.geometry.assoc) :
    Avoids .freeListEmpty (cache.handleFill pkt blk writebacks allocate random) := by
  simp [handleFill, fillTarget_avoids, passWritable]

theorem fillFromResponse_avoids (cache : Cache config) (index : Fin config.mshrs) (pkt : Packet)
    (random : Fin config.geometry.assoc) :
    Avoids .freeListEmpty (cache.fillFromResponse index pkt random) := by
  simp [fillFromResponse, handleFill_avoids]

theorem promoteTargets_avoids (cache : Cache config) (index : Fin config.mshrs) (pkt : Packet)
    (blk : Option (BlkRef config.geometry)) :
    Avoids .freeListEmpty (cache.promoteTargets index pkt blk) := by
  unfold promoteTargets
  simp only [avoids_ite, avoids_bind]
  refine ⟨by simp, fun _ => ⟨?_, by simp⟩⟩
  split <;> simp

theorem serviceTarget_avoids (pkt : Packet) (blk : Option (BlkRef config.geometry))
    (serviced : Serviced config) (target : Target) :
    Avoids .freeListEmpty (serviceTarget pkt blk serviced target) := by
  unfold serviceTarget
  split <;> simp

theorem serviceMSHRTargets_avoids (cache : Cache config) (index : Fin config.mshrs)
    (pkt : Packet) (blk : Option (BlkRef config.geometry)) :
    Avoids .freeListEmpty (cache.serviceMSHRTargets index pkt blk) := by
  simp [serviceMSHRTargets, avoids_foldlM (serviceTarget_avoids pkt blk)]

theorem retireMSHR_avoids (cache : Cache config) (index : Fin config.mshrs)
    (blk : Option (BlkRef config.geometry)) (writebacks : List Packet) :
    Avoids .freeListEmpty (cache.retireMSHR index blk writebacks) := by
  simp [retireMSHR, freeMSHR]

theorem popMSHR_avoids (pkt : Packet) :
    Avoids .freeListEmpty (popMSHR pkt : Except Assertion (Fin config.mshrs)) := by
  unfold popMSHR
  split
  · simp
  · simp
  · split <;> simp

@[simp] theorem recvTimingResp_avoids (cache : Cache config) (pkt : Packet)
    (random : Fin config.geometry.assoc) :
    Avoids .freeListEmpty (cache.recvTimingResp pkt random) := by
  simp [recvTimingResp, recvTimingRespBase, popMSHR_avoids, fillFromResponse_avoids,
    promoteTargets_avoids, serviceMSHRTargets_avoids, retireMSHR_avoids]

@[simp] theorem handleTimingRes_avoids (cache : Cache config) (pkt : Packet)
    (random : Fin config.geometry.assoc) :
    Avoids .freeListEmpty (cache.handleTimingRes pkt random) := by
  simp [handleTimingRes]

@[simp] theorem sendMSHRQueuePacket_avoids (cache : Cache config) (index : Fin config.mshrs)
    (reply : Option (List UInt8)) (random : Fin config.geometry.assoc) :
    Avoids .freeListEmpty (cache.sendMSHRQueuePacket index reply random) := by
  have hissue : Avoids .freeListEmpty (cache.issueMSHR index) := by
    simp [issueMSHR, createMissPacket]
  simp only [sendMSHRQueuePacket, avoids_bind]
  refine ⟨hissue, ?_⟩
  rintro ⟨sent, issued⟩ -
  cases sent <;> cases reply <;> simp

theorem meetWriteBuffer_avoids (cache : Cache config) (pkt : Packet) :
    Avoids .freeListEmpty (cache.meetWriteBuffer pkt) := by
  unfold meetWriteBuffer
  simp only [avoids_ite, avoids_bind]
  refine ⟨by simp, fun _ => ⟨by simp, ?_⟩⟩
  intro found _
  cases found <;> simp

theorem accessWriteback_avoids (cache : Cache config) (pkt : Packet)
    (blk : Option (BlkRef config.geometry)) (random : Fin config.geometry.assoc) :
    Avoids .freeListEmpty (cache.accessWriteback pkt blk random) := by
  have htarget : Avoids .freeListEmpty (cache.writebackTarget pkt blk random) := by
    unfold writebackTarget
    cases blk with
    | some ref => simp
    | none =>
        simp only [avoids_bind, Prod.forall]
        refine ⟨by simp, ?_⟩
        intro found filled dropped _
        cases found <;> simp
  simp only [accessWriteback, avoids_bind, avoids_ite, avoids_check]
  refine ⟨by simp, fun _ _ => ⟨by simp, fun pending _ => ⟨by simp, fun _ => ⟨htarget, ?_⟩⟩⟩⟩
  rintro ⟨found, filled, dropped⟩ _
  cases found <;> simp

theorem accessLine_avoids (cache : Cache config) (pkt : Packet)
    (blk : Option (BlkRef config.geometry)) :
    Avoids .freeListEmpty (cache.accessLine pkt blk) := by
  have hpermits : Avoids .freeListEmpty (cache.permits pkt blk) := by
    unfold permits
    split <;> simp
  simp [accessLine, hpermits]

theorem access_avoids (cache : Cache config) (pkt : Packet) (random : Fin config.geometry.assoc) :
    Avoids .freeListEmpty (cache.access pkt random) := by
  have hbase : Avoids .freeListEmpty (cache.accessBase pkt random) := by
    simp [accessBase, meetWriteBuffer_avoids, accessWriteback_avoids, accessLine_avoids]
  simp only [access, avoids_bind, avoids_ite]
  refine ⟨hbase, fun accessed _ => ⟨fun _ => ?_, by simp⟩⟩
  split <;> simp

theorem reopenLine_avoids (cache : Cache config) (pkt : Packet) :
    Avoids .freeListEmpty (cache.reopenLine pkt) := by
  unfold reopenLine
  split
  · simp
  · split <;> simp

/-- Locking a line takes an MSHR when none is there for it. -/
theorem lockLine_avoids {cache : Cache config} {pkt : Packet}
    (blk : Option (BlkRef config.geometry))
    (h : cache.mshrQueue.findMatch (pkt.getBlockAddr config.blkSize) pkt.isSecure true = .ok none →
      cache.mshrQueue.freeList ≠ []) : Avoids .freeListEmpty (cache.lockLine pkt blk) := by
  simp only [lockLine, avoids_bind, avoids_check, Prod.forall]
  refine ⟨by simp, fun pending hpending => ⟨by simp, fun _ hnone => ⟨?_, ?_⟩⟩⟩
  · rw [check_eq_ok, Option.isNone_iff_eq_none] at hnone
    subst hnone
    exact (allocateMissBuffer_avoids _ _ _ _).mpr (h hpending)
  · intro index locked _
    refine ⟨by simp, fun _ _ => ?_⟩
    split <;> simp

theorem handleTimingReqHit_avoids {cache : Cache config} {pkt : Packet}
    (blk : Option (BlkRef config.geometry)) (random : Fin config.geometry.assoc)
    (h : pkt.cmd.isLockedRMW = true → pkt.cmd.isRead = true →
      cache.mshrQueue.findMatch (pkt.getBlockAddr config.blkSize) pkt.isSecure true = .ok none →
      cache.mshrQueue.freeList ≠ []) :
    Avoids .freeListEmpty (cache.handleTimingReqHit pkt blk random) := by
  have hunlock : Avoids .freeListEmpty (cache.unlockLine pkt random) := by
    simp only [unlockLine, avoids_bind, avoids_check]
    refine ⟨by simp, fun _ _ => ⟨by simp, fun found _ => ?_⟩⟩
    cases found <;> simp
  simp only [handleTimingReqHit, avoids_bind, avoids_ite, Bool.not_eq_true', Bool.not_eq_false]
  refine ⟨⟨by simp, fun hlocked => ⟨fun hread => ?_, fun _ => hunlock⟩⟩, by simp⟩
  exact lockLine_avoids blk (h hlocked hread)

/-- A miss takes an MSHR when it neither joins one nor goes to the write buffer. -/
theorem handleTimingReqMiss_avoids {cache : Cache config} {pkt : Packet}
    {blk : Option (BlkRef config.geometry)}
    (h : cache.mshrQueue.findMatch (pkt.getBlockAddr config.blkSize) pkt.isSecure false = .ok none →
      blk.all (fun ref => !(cache.getBlk ref).valid) = true → pkt.cmd.isEviction = false →
      cache.mshrQueue.freeList ≠ []) :
    Avoids .freeListEmpty (cache.handleTimingReqMiss pkt blk) := by
  simp only [handleTimingReqMiss, avoids_bind, avoids_check]
  refine ⟨by simp, fun found hfound => ⟨by simp, fun _ hchecked => ?_⟩⟩
  rw [check_eq_ok] at hchecked
  cases found with
  | some index => simp [coalesce]
  | none =>
      have hfree := h hfound (by simpa using hchecked)
      have hclose : ∀ before : Cache config, Avoids .freeListEmpty (before.closeLine pkt blk) := by
        intro before
        unfold closeLine
        split <;> simp
      simp only [startMiss, avoids_ite, avoids_bind, Bool.not_eq_true]
      refine ⟨by simp, fun hevict => ⟨hclose _, fun middle hmiddle => ⟨?_, by simp⟩⟩⟩
      rw [allocateMissBuffer_avoids, (closeLine_touched hmiddle).1.mshrQueue,
        (updateWriteMode_kept cache pkt).mshrQueue]
      exact hfree hevict

end Cache

end KuiperCache
