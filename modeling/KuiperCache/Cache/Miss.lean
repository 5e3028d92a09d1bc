import KuiperCache.Cache.Answer

/-! What a request does.  It is answered at once, joins the MSHR of its block,
or takes a new MSHR; nothing else happens to the queue. -/
namespace KuiperCache.Cache

open Checked

variable {config : CacheConfig}

/-- A new MSHR was taken; apart from the queue, its flag and a notification
nothing changed. -/
structure Missed (before after : Cache config) (index : Fin config.mshrs) (mshr : Mshr) : Prop where
  allocated : MshrQueue.AllocatedAt before.mshrQueue after.mshrQueue index mshr
  noMSHRs : after.blocked.noMSHRs = (after.mshrQueue.isFull || before.blocked.noMSHRs)
  kept : Kept before
    { after with
      mshrQueue := before.mshrQueue, blocked := before.blocked, sendEvents := before.sendEvents }

theorem allocateMissBuffer_missed {cache next : Cache config} {pkt : Packet} {time : Tick}
    {schedSend : Bool} {index : Fin config.mshrs}
    (h : cache.allocateMissBuffer pkt time schedSend = .ok (index, next)) :
    ∃ mshr, (cache.mshrQueue.entries index).allocate (pkt.getBlockAddr config.blkSize)
        config.blkSize pkt time cache.order (allocOnFill pkt.cmd) = .ok mshr ∧
      Missed cache next index mshr ∧
      next.sendEvents = if schedSend then cache.sendEvents + 1 else cache.sendEvents := by
  simp only [allocateMissBuffer, bind_eq_ok, pure_eq_ok, Prod.mk.injEq] at h
  obtain ⟨⟨index', mshrQueue⟩, hallocate, rfl, rfl⟩ := h
  obtain ⟨mshr, hmshr, hallocated⟩ := MshrQueue.allocate_spec hallocate
  refine ⟨mshr, hmshr, ?_⟩
  have hkept : Kept cache { cache with order := cache.order + 1 } :=
    .of_same rfl rfl id rfl rfl rfl le_rfl rfl
  unfold missBufferAllocated
  by_cases hfull : mshrQueue.isFull = true
  · simp only [hfull, ↓reduceIte]
    have hflag : true = (mshrQueue.isFull || cache.blocked.noMSHRs) := by simp [hfull]
    cases schedSend with
    | true => exact ⟨⟨hallocated, hflag, hkept⟩, rfl⟩
    | false => exact ⟨⟨hallocated, hflag, hkept⟩, rfl⟩
  · simp only [hfull, Bool.false_eq_true, ↓reduceIte]
    have hflag : cache.blocked.noMSHRs = (mshrQueue.isFull || cache.blocked.noMSHRs) := by
      simp [hfull]
    cases schedSend with
    | true => exact ⟨⟨hallocated, hflag, hkept⟩, rfl⟩
    | false => exact ⟨⟨hallocated, hflag, hkept⟩, rfl⟩

theorem allocateWriteBuffer_fails (cache next : Cache config) (pkt : Packet) (time : Tick) :
    cache.allocateWriteBuffer pkt time ≠ .ok next := by
  intro h
  simp only [allocateWriteBuffer, bind_eq_ok] at h
  obtain ⟨-, -, -, -, result, hallocate, -⟩ := h
  exact WriteQueue.allocate_fails _ _ _ _ _ _ result hallocate

/-- Marking in service cannot make room in the queue. -/
theorem markInService_eq_ok {cache next : Cache config} {index : Fin config.mshrs}
    {pendingModified : Bool} (h : cache.markInService index pendingModified = .ok next) :
    ∃ mshrQueue, cache.mshrQueue.markInService index pendingModified = .ok mshrQueue ∧
      next = { cache with mshrQueue } := by
  simp only [markInService, bind_eq_ok, pure_eq_ok] at h
  obtain ⟨mshrQueue, hmark, hnext⟩ := h
  obtain ⟨mshr, -, hedited, -, -⟩ := MshrQueue.markInService_spec hmark
  have hfull : mshrQueue.isFull = cache.mshrQueue.isFull := by
    unfold Queue.isFull
    rw [hedited.allocated, hedited.numReserve]
  rw [hfull] at hnext
  simp only [Bool.and_not_self, Bool.false_eq_true, ↓reduceIte] at hnext
  exact ⟨mshrQueue, hmark, hnext.symm⟩

/-- A packet that meets an MSHR of its block becomes a target of it, unless it
is a clean eviction, which is dropped. -/
theorem coalesce_cases {cache next : Cache config} {pkt : Packet} {index : Fin config.mshrs}
    (h : cache.coalesce pkt index = .ok next) :
    (pkt.cmd = .cleanEvict ∧ Kept cache next) ∨
      ∃ mshr, (cache.mshrQueue.entries index).allocateTarget pkt curTick cache.order
        (allocOnFill pkt.cmd) = .ok mshr ∧ Serving cache next index mshr [] := by
  simp only [coalesce, bind_eq_ok, check_eq_ok, exists_const] at h
  obtain ⟨-, h⟩ := h
  split at h
  · rename_i hevict
    rw [pure_eq_ok] at h
    exact .inl ⟨by simpa using hevict, h ▸ .of_same rfl rfl id rfl rfl rfl le_rfl rfl⟩
  · split at h
    · exact absurd h (allocateWriteBuffer_fails cache next pkt curTick)
    · simp only [bind_eq_ok, pure_eq_ok] at h
      obtain ⟨mshr, hallocate, hnext⟩ := h
      refine .inr ⟨mshr, hallocate, ?_⟩
      rw [← hnext]
      split
      · exact ⟨rfl, by simp [setBlocked], .of_same rfl rfl id rfl rfl rfl le_rfl rfl⟩
      · exact ⟨rfl, by simp, .of_same rfl rfl id rfl rfl rfl le_rfl rfl⟩

theorem startMiss_cases {cache next : Cache config} {pkt : Packet}
    {blk : Option (BlkRef config.geometry)} (h : cache.startMiss pkt blk = .ok next) :
    pkt.cmd.isEviction = false ∧ ∃ middle index mshr,
      Touched cache middle ∧ (blk = none → middle = cache) ∧
      (middle.mshrQueue.entries index).allocate (pkt.getBlockAddr config.blkSize) config.blkSize
        pkt curTick middle.order (allocOnFill pkt.cmd) = .ok mshr ∧
      Missed middle next index mshr ∧ next.sendEvents = cache.sendEvents + 1 := by
  unfold startMiss at h
  split at h
  · exact absurd h (allocateWriteBuffer_fails cache next pkt curTick)
  · rename_i hevict
    simp only [bind_eq_ok, pure_eq_ok] at h
    obtain ⟨middle, hmiddle, ⟨index, missed⟩, hallocate, rfl⟩ := h
    obtain ⟨mshr, hmshr, hmissed, hevents⟩ := allocateMissBuffer_missed hallocate
    have htouched := closeLine_touched hmiddle
    refine ⟨by simpa using hevict, middle, index, mshr, htouched.1, htouched.2, hmshr, hmissed, ?_⟩
    rw [hevents, htouched.1.sendEvents]
    rfl

/-- The fake MSHR of a locked read hit: taken, and in service at once. -/
theorem lockLine_cases {cache next : Cache config} {pkt : Packet}
    {blk : Option (BlkRef config.geometry)} (h : cache.lockLine pkt blk = .ok next) :
    ∃ fresh missed marked locking index mshr mshrQueue, Kept cache fresh ∧
      (fresh.mshrQueue.entries index).allocate (Packet.getBlockAddr locking config.blkSize)
        config.blkSize locking curTick fresh.order (allocOnFill locking.cmd) = .ok mshr ∧
      Missed fresh missed index mshr ∧ missed.sendEvents = cache.sendEvents + 1 ∧
      missed.mshrQueue.markInService index false = .ok mshrQueue ∧
      marked = { missed with mshrQueue } ∧ Touched marked next := by
  simp only [lockLine, newPtr, bind_eq_ok, check_eq_ok, exists_const] at h
  obtain ⟨-, -, -, ⟨index, missed⟩, hallocate, marked, hmark, h⟩ := h
  obtain ⟨mshr, hmshr, hmissed, hevents⟩ := allocateMissBuffer_missed hallocate
  obtain ⟨mshrQueue, hqueue, rfl⟩ := markInService_eq_ok hmark
  cases blk with
  | none => cases h
  | some ref =>
      rw [pure_eq_ok] at h
      subst h
      exact ⟨_, missed, _, _, index, mshr, mshrQueue, newPtr_kept cache, hmshr, hmissed, hevents,
        hqueue, rfl, (clearCoherenceBits_touched _ _ _).trans (clearCoherenceBits_touched _ _ _)⟩

/-- The response faked for a locked write is not a read response, so the
assertion of the non-coherent cache refuses it. -/
theorem unlockLine_fails (cache next : Cache config) (pkt : Packet)
    (random : Fin config.geometry.assoc) : cache.unlockLine pkt random ≠ .ok next := by
  intro h
  simp only [unlockLine, bind_eq_ok] at h
  obtain ⟨-, -, found, -, h⟩ := h
  cases found with
  | none => cases h
  | some index =>
      simp only [recvTimingResp, bind_eq_ok, check_eq_ok, exists_const] at h
      exact absurd h.2.1 Bool.false_ne_true

/-- The packet was answered or dropped. -/
structure Finished (before after : Cache config) (pkt : Packet) : Prop where
  responses : after.responses = before.responses ++
    if pkt.cmd.needsResponse then [{ pkt with cmd := pkt.cmd.responseCommand }] else []
  kept : Kept before { after with responses := before.responses }

theorem handleTimingReqHit_cases {cache next : Cache config} {pkt : Packet}
    {blk : Option (BlkRef config.geometry)} {random : Fin config.geometry.assoc}
    (h : cache.handleTimingReqHit pkt blk random = .ok next) :
    ∃ locked, Finished locked next pkt ∧
      ((pkt.cmd.isLockedRMW = false ∧ locked = cache) ∨
       (pkt.cmd.isLockedRMW = true ∧ pkt.cmd.isRead = true ∧
          cache.lockLine pkt blk = .ok locked)) := by
  simp only [handleTimingReqHit, bind_eq_ok] at h
  obtain ⟨locked, hlocked, h⟩ := h
  refine ⟨locked, ?_, ?_⟩
  · split at h
    · rename_i hneeds
      simp only [bind_eq_ok, pure_eq_ok] at h
      obtain ⟨resp, hresp, rfl⟩ := h
      rw [Packet.makeTimingResponse_eq_ok hresp]
      exact ⟨by simp [hneeds], .refl locked⟩
    · rename_i hneeds
      rw [pure_eq_ok] at h
      exact h ▸ ⟨by simp [hneeds], .of_same rfl rfl id rfl rfl rfl le_rfl rfl⟩
  · split at hlocked
    · rename_i hcmd
      cases hlocked
      exact .inl ⟨by simpa using hcmd, rfl⟩
    · rename_i hcmd
      split at hlocked
      · rename_i hread
        exact .inr ⟨by simpa using hcmd, hread, hlocked⟩
      · exact absurd hlocked (unlockLine_fails cache locked pkt random)

theorem handleTimingReqMiss_cases {cache next : Cache config} {pkt : Packet}
    {blk : Option (BlkRef config.geometry)} (h : cache.handleTimingReqMiss pkt blk = .ok next) :
    ∃ found updated, Kept cache updated ∧
      cache.mshrQueue.findMatch (pkt.getBlockAddr config.blkSize) pkt.isSecure false =
        .ok found ∧
      match found with
      | some index => updated.coalesce pkt index = .ok next
      | none => updated.startMiss pkt blk = .ok next := by
  simp only [handleTimingReqMiss, bind_eq_ok, check_eq_ok, exists_const] at h
  obtain ⟨found, hfound, -, h⟩ := h
  exact ⟨found, cache.updateWriteMode pkt, updateWriteMode_kept cache pkt, hfound, by
    cases found with
    | none => exact h
    | some index => exact h⟩

/-- The notification at the end of a request changes nothing else. -/
theorem notified_mshrQueue (cache : Cache config) (notify : Prop) [Decidable notify] :
    (if notify then cache.schedMemSideSendEvent else cache).mshrQueue = cache.mshrQueue := by
  split <;> rfl

/-- The event that a prefetcher always asks for at the end of a request. -/
theorem recvTimingReq_cases {cache next : Cache config} {pkt : Packet}
    {random : Fin config.geometry.assoc}
    (hempty : cache.writeBuffer.allocatedList = [])
    (h : cache.recvTimingReq pkt random = .ok next) :
    ∃ reopened accessed handled, Kept cache reopened ∧
      (pkt.cmd ≠ .lockedRMWWriteReq → reopened = cache) ∧
      reopened.access pkt random = .ok accessed ∧ Touched reopened accessed.cache ∧
      (if accessed.satisfied then
        (accessed.cache.clearPrefetched accessed.blk).handleTimingReqHit accessed.pkt accessed.blk
          random = .ok handled
      else accessed.cache.handleTimingReqMiss accessed.pkt accessed.blk = .ok handled) ∧
      next = if config.hasPrefetcher then handled.schedMemSideSendEvent else handled := by
  simp only [recvTimingReq, bind_eq_ok, check_eq_ok, exists_const, pure_eq_ok] at h
  obtain ⟨-, -, reopened, hreopen, accessed, haccess, handled, hhandled, hnext⟩ := h
  have hkept := reopenLine_kept hreopen
  refine ⟨reopened, accessed, handled, hkept, ?_, haccess,
    access_touched (by rw [hkept.writeBuffer, hempty]) haccess, ?_, hnext.symm⟩
  · intro hcmd
    simpa [reopenLine, hcmd] using hreopen.symm
  · split at hhandled
    · rename_i hsatisfied
      rw [if_pos hsatisfied]
      exact hhandled
    · rename_i hsatisfied
      rw [if_neg hsatisfied]
      exact hhandled

end KuiperCache.Cache
