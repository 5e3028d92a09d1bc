import KuiperCache.Cache.Sound

/-! What most of the cache leaves alone besides the queues: whether the temporary
block is valid, and the record of an MSHR that ran out of targets.  Only a fill
makes the temporary block valid, and nothing makes it invalid; only a coalesced
request and a response touch the record. -/
namespace KuiperCache.Cache

open Checked

variable {config : CacheConfig} {cache next : Cache config} {pkt : Packet}
  {blk : Option (BlkRef config.geometry)} {random : Fin config.geometry.assoc}

/-- Whether the temporary block holds a line. -/
def tempValid (cache : Cache config) : Bool := cache.tempBlock.blk.valid

/-- The same MSHR, if any, is known to have run out of targets. -/
structure Steady (before after : Cache config) : Prop where
  noTargets : after.blocked.noTargets = before.blocked.noTargets
  noTargetMSHR : after.noTargetMSHR = before.noTargetMSHR

/-- Moreover the temporary block is as valid as it was. -/
structure Still (before after : Cache config) : Prop extends Steady before after where
  tempValid : after.tempValid = before.tempValid

theorem Steady.refl (cache : Cache config) : Steady cache cache := ⟨rfl, rfl⟩

theorem Steady.trans {a b c : Cache config} (hab : Steady a b) (hbc : Steady b c) : Steady a c :=
  ⟨hbc.noTargets.trans hab.noTargets, hbc.noTargetMSHR.trans hab.noTargetMSHR⟩

theorem Still.refl (cache : Cache config) : Still cache cache := ⟨.refl cache, rfl⟩

theorem Still.trans {a b c : Cache config} (hab : Still a b) (hbc : Still b c) : Still a c :=
  ⟨hab.toSteady.trans hbc.toSteady, hbc.tempValid.trans hab.tempValid⟩

section Blocks

theorem setBlk_still (cache : Cache config) (ref : BlkRef config.geometry) {line : CacheBlk}
    (h : line.valid = (cache.getBlk ref).valid) : Still cache (cache.setBlk ref line) := by
  cases ref with
  | slot set way => exact ⟨⟨rfl, rfl⟩, rfl⟩
  | temp => exact ⟨⟨rfl, rfl⟩, h⟩

theorem setCoherenceBits_still {ref : BlkRef config.geometry} {bit : CoherenceBit}
    (h : cache.setCoherenceBits ref bit = .ok next) : Still cache next := by
  simp only [setCoherenceBits, map_eq_ok] at h
  obtain ⟨line, hline, rfl⟩ := h
  exact setBlk_still cache ref (CacheBlk.setCoherenceBits_kept hline).valid

theorem clearCoherenceBits_still (cache : Cache config) (ref : BlkRef config.geometry)
    (bit : CoherenceBit) : Still cache (cache.clearCoherenceBits ref bit) := by
  apply setBlk_still
  cases bit <;> rfl

theorem allocateBlock_still {writebacks writebacks' : List Packet}
    {found : Option (BlkRef config.geometry)}
    (h : cache.allocateBlock pkt writebacks random = .ok (found, next, writebacks')) :
    Still cache next := by
  obtain ⟨-, -, tags, -, rfl⟩ := allocateBlock_eq_ok h
  exact ⟨⟨rfl, rfl⟩, rfl⟩

theorem accessBlock_still (cache : Cache config) (pkt : Packet) :
    Still cache (cache.accessBlock pkt).2 := by
  unfold accessBlock
  split
  · exact .refl cache
  · exact setBlk_still cache _ rfl

theorem clearPrefetched_still (cache : Cache config) (blk : Option (BlkRef config.geometry)) :
    Still cache (cache.clearPrefetched blk) := by
  unfold clearPrefetched
  split
  · split
    · exact setBlk_still cache _ rfl
    · exact .refl cache
  · exact .refl cache

theorem passWritable_still {ref : BlkRef config.geometry}
    (h : cache.passWritable pkt ref = .ok next) : Still cache next := by
  unfold passWritable at h
  split at h
  · cases h
    exact .refl cache
  · simp only [bind_eq_ok] at h
    obtain ⟨writable, hwritable, h⟩ := h
    have hwritable := setCoherenceBits_still hwritable
    split at h
    · simp only [bind_eq_ok, check_eq_ok, exists_const, pure_eq_ok] at h
      obtain ⟨dirty, hdirty, -, rfl⟩ := h
      exact hwritable.trans (setCoherenceBits_still hdirty)
    · rw [pure_eq_ok] at h
      exact h ▸ hwritable

/-- A fill may take the temporary block, and does nothing else of the kind. -/
theorem handleFill_steady {allocate : Bool} {writebacks writebacks' : List Packet}
    {ref : BlkRef config.geometry}
    (h : cache.handleFill pkt blk writebacks allocate random = .ok (ref, next, writebacks')) :
    Steady cache next := by
  obtain ⟨target, readable, htarget, -, hreadable, hnext⟩ := handleFill_eq_ok h
  have hbits : Steady target next :=
    ((setCoherenceBits_still hreadable).trans (passWritable_still hnext)).toSteady
  have htarget : Steady cache target := by
    unfold fillTarget at htarget
    split at htarget
    · cases htarget
      exact .refl cache
    · simp only [bind_eq_ok, check_eq_ok, exists_const] at htarget
      obtain ⟨-, ⟨found, middle, wbs⟩, hallocate, htarget⟩ := htarget
      have hmiddle : Steady cache middle := by
        split at hallocate
        · exact (allocateBlock_still hallocate).toSteady
        · cases hallocate
          exact .refl cache
      cases found with
      | some found =>
          simp only [pure_eq_ok, Prod.mk.injEq] at htarget
          exact htarget.2.1 ▸ hmiddle
      | none =>
          simp only [bind_eq_ok, pure_eq_ok, Prod.mk.injEq] at htarget
          obtain ⟨temp, -, -, rfl, -⟩ := htarget
          exact hmiddle.trans ⟨rfl, rfl⟩
  exact htarget.trans hbits

theorem fillFromResponse_steady {index : Fin config.mshrs} {writebacks : List Packet}
    (h : cache.fillFromResponse index pkt random = .ok (blk, next, writebacks)) :
    Steady cache next := by
  simp only [fillFromResponse, bind_eq_ok, check_eq_ok, exists_const] at h
  obtain ⟨-, h⟩ := h
  split at h
  · simp only [bind_eq_ok, pure_eq_ok, Prod.mk.injEq] at h
    obtain ⟨⟨ref, filled, wbs⟩, hfill, -, rfl, -⟩ := h
    exact handleFill_steady hfill
  · simp only [pure_eq_ok, Prod.mk.injEq] at h
    exact h.2.1 ▸ .refl cache

/-- Evicting the temporary block does not invalidate it. -/
theorem evictBlock_still {writebacks writebacks' : List Packet}
    (h : cache.evictBlock .temp writebacks = .ok (next, writebacks')) : Still cache next := by
  unfold evictBlock at h
  split at h
  · simp only [writebackBlk, invalidateBlock, bind_eq_ok, check_eq_ok, exists_const, pure_eq_ok,
      Prod.mk.injEq] at h
    obtain ⟨⟨written, cleared⟩, ⟨-, -, -, rfl⟩, rfl, -⟩ := h
    exact ⟨⟨rfl, rfl⟩, rfl⟩
  · simp only [invalidateBlock, pure_eq_ok, Prod.mk.injEq] at h
    exact h.1 ▸ .refl cache

end Blocks

section Requests

theorem reopenLine_still (h : cache.reopenLine pkt = .ok next) : Still cache next := by
  unfold reopenLine at h
  split at h
  · cases h
    exact .refl cache
  · split at h
    · cases h
    · simp only [bind_eq_ok, check_eq_ok, exists_const] at h
      obtain ⟨-, -, readable, hreadable, hwritable⟩ := h
      exact (setCoherenceBits_still hreadable).trans (setCoherenceBits_still hwritable)

theorem writebackTarget_still {found : Option (BlkRef config.geometry)}
    {writebacks : List Packet}
    (h : cache.writebackTarget pkt blk random = .ok (found, next, writebacks)) :
    Still cache next := by
  unfold writebackTarget at h
  split at h
  · cases h
    exact .refl cache
  · simp only [bind_eq_ok] at h
    obtain ⟨⟨allocated, middle, wbs⟩, hallocate, h⟩ := h
    have hmiddle := allocateBlock_still hallocate
    split at h
    · simp only [pure_eq_ok, Prod.mk.injEq] at h
      exact h.2.1 ▸ hmiddle
    · simp only [bind_eq_ok, pure_eq_ok, Prod.mk.injEq] at h
      obtain ⟨readable, hreadable, -, rfl, -⟩ := h
      exact hmiddle.trans (setCoherenceBits_still hreadable)

theorem accessWriteback_still {accessed : Accessed config}
    (h : cache.accessWriteback pkt blk random = .ok accessed) : Still cache accessed.cache := by
  simp only [accessWriteback, bind_eq_ok, check_eq_ok, exists_const] at h
  obtain ⟨-, pending, -, h⟩ := h
  split at h
  · rw [pure_eq_ok] at h
    exact h ▸ .refl cache
  · rw [bind_eq_ok] at h
    obtain ⟨⟨found, target, wbs⟩, htarget, h⟩ := h
    have hkept := writebackTarget_still htarget
    cases found with
    | none =>
        rw [pure_eq_ok] at h
        exact h ▸ hkept
    | some ref =>
        simp only [updateBlockData, bind_eq_ok, check_eq_ok, exists_const, pure_eq_ok] at h
        obtain ⟨dirty, hdirty, writable, hwritable, -, rfl⟩ := h
        have hdirty : Still target dirty := by
          split at hdirty
          · exact setCoherenceBits_still hdirty
          · cases hdirty
            exact .refl target
        have hwritable : Still dirty writable := by
          split at hwritable
          · cases hwritable
            exact .refl dirty
          · exact setCoherenceBits_still hwritable
        exact hkept.trans (hdirty.trans hwritable)

theorem accessBase_still (hempty : cache.writeBuffer.allocatedList = [])
    {accessed : Accessed config} (h : cache.accessBase pkt random = .ok accessed) :
    Still cache accessed.cache := by
  have hblock := accessBlock_still cache pkt
  simp only [accessBase, bind_eq_ok, check_eq_ok, exists_const] at h
  obtain ⟨-, -, ⟨absorbed, met⟩, hmeet, h⟩ := h
  rw [meetWriteBuffer_eq (by rw [(accessBlock_kept cache pkt).writeBuffer, hempty]),
    Except.ok.injEq, Prod.mk.injEq] at hmeet
  obtain ⟨rfl, rfl⟩ := hmeet
  simp only [Bool.false_eq_true, ↓reduceIte] at h
  split at h
  · exact hblock.trans (accessWriteback_still h)
  · split at h
    · rw [pure_eq_ok] at h
      exact h ▸ hblock
    · rw [(accessLine_eq_ok h).1]
      exact hblock

theorem access_still (hempty : cache.writeBuffer.allocatedList = [])
    {accessed : Accessed config} (h : cache.access pkt random = .ok accessed) :
    Still cache accessed.cache := by
  simp only [access, bind_eq_ok] at h
  obtain ⟨base, hbase, h⟩ := h
  have hbase := accessBase_still hempty hbase
  split at h
  · split at h
    · cases h
    · simp only [bind_eq_ok, pure_eq_ok] at h
      obtain ⟨writable, hwritable, rfl⟩ := h
      exact hbase.trans (setCoherenceBits_still hwritable)
  · rw [pure_eq_ok] at h
    exact h ▸ hbase

theorem allocateMissBuffer_still {time : Tick} {schedSend : Bool} {index : Fin config.mshrs}
    (h : cache.allocateMissBuffer pkt time schedSend = .ok (index, next)) : Still cache next := by
  simp only [allocateMissBuffer, bind_eq_ok, pure_eq_ok, Prod.mk.injEq] at h
  obtain ⟨⟨index', mshrQueue⟩, -, -, rfl⟩ := h
  unfold missBufferAllocated
  dsimp only
  split
  · split <;> exact ⟨⟨rfl, rfl⟩, rfl⟩
  · split <;> exact ⟨⟨rfl, rfl⟩, rfl⟩

theorem markInService_still {index : Fin config.mshrs} {pendingModified : Bool}
    (h : cache.markInService index pendingModified = .ok next) : Still cache next := by
  obtain ⟨mshrQueue, -, rfl⟩ := markInService_eq_ok h
  exact ⟨⟨rfl, rfl⟩, rfl⟩

theorem lockLine_still (h : cache.lockLine pkt blk = .ok next) : Still cache next := by
  simp only [lockLine, bind_eq_ok, check_eq_ok, exists_const] at h
  obtain ⟨-, -, -, ⟨index, missed⟩, hallocate, marked, hmark, h⟩ := h
  have hptr : Still cache cache.newPtr.2 := ⟨⟨rfl, rfl⟩, rfl⟩
  have hmarked : Still cache marked :=
    (hptr.trans (allocateMissBuffer_still hallocate)).trans (markInService_still hmark)
  cases blk with
  | none => cases h
  | some ref =>
      rw [pure_eq_ok] at h
      rw [← h]
      exact hmarked.trans
        ((clearCoherenceBits_still _ _ _).trans (clearCoherenceBits_still _ _ _))

theorem handleTimingReqHit_still (h : cache.handleTimingReqHit pkt blk random = .ok next) :
    Still cache next := by
  simp only [handleTimingReqHit, bind_eq_ok] at h
  obtain ⟨locked, hlocked, h⟩ := h
  have hlocked : Still cache locked := by
    split at hlocked
    · cases hlocked
      exact .refl cache
    · split at hlocked
      · exact lockLine_still hlocked
      · exact absurd hlocked (unlockLine_fails cache locked pkt random)
  split at h
  · simp only [bind_eq_ok, pure_eq_ok] at h
    obtain ⟨resp, -, rfl⟩ := h
    exact hlocked.trans ⟨⟨rfl, rfl⟩, rfl⟩
  · rw [pure_eq_ok] at h
    exact h ▸ hlocked.trans ⟨⟨rfl, rfl⟩, rfl⟩

theorem updateWriteMode_still (cache : Cache config) (pkt : Packet) :
    Still cache (cache.updateWriteMode pkt) := by
  unfold updateWriteMode
  split
  · exact .refl cache
  · split <;> exact ⟨⟨rfl, rfl⟩, rfl⟩

/-- Joining an MSHR may record it, but does not touch a block. -/
theorem coalesce_tempValid {index : Fin config.mshrs} (h : cache.coalesce pkt index = .ok next) :
    next.tempValid = cache.tempValid := by
  simp only [coalesce, bind_eq_ok, check_eq_ok, exists_const] at h
  obtain ⟨-, h⟩ := h
  split at h
  · rw [pure_eq_ok] at h
    exact h ▸ rfl
  · split at h
    · exact absurd h (allocateWriteBuffer_fails cache next pkt curTick)
    · simp only [bind_eq_ok, pure_eq_ok] at h
      obtain ⟨mshr, -, rfl⟩ := h
      split <;> rfl

theorem closeLine_still (h : cache.closeLine pkt blk = .ok next) : Still cache next := by
  cases blk with
  | none =>
      cases h
      exact .refl cache
  | some ref =>
      simp only [closeLine] at h
      split at h
      · cases h
        exact .refl cache
      · simp only [bind_eq_ok, check_eq_ok, exists_const, pure_eq_ok] at h
        obtain ⟨-, -, -, rfl⟩ := h
        exact clearCoherenceBits_still cache ref _

theorem startMiss_still (h : cache.startMiss pkt blk = .ok next) : Still cache next := by
  unfold startMiss at h
  split at h
  · exact absurd h (allocateWriteBuffer_fails cache next pkt curTick)
  · simp only [bind_eq_ok, pure_eq_ok] at h
    obtain ⟨closed, hclose, ⟨index, missed⟩, hallocate, rfl⟩ := h
    exact (closeLine_still hclose).trans (allocateMissBuffer_still hallocate)

theorem handleTimingReqMiss_tempValid (h : cache.handleTimingReqMiss pkt blk = .ok next) :
    next.tempValid = cache.tempValid := by
  simp only [handleTimingReqMiss, bind_eq_ok, check_eq_ok, exists_const] at h
  obtain ⟨found, -, -, h⟩ := h
  have hmode := (updateWriteMode_still cache pkt).tempValid
  cases found with
  | none => exact (startMiss_still h).tempValid.trans hmode
  | some index => exact (coalesce_tempValid h).trans hmode

theorem recvTimingReq_tempValid (hempty : cache.writeBuffer.allocatedList = [])
    (h : cache.recvTimingReq pkt random = .ok next) : next.tempValid = cache.tempValid := by
  simp only [recvTimingReq, bind_eq_ok, check_eq_ok, exists_const, pure_eq_ok] at h
  obtain ⟨-, -, reopened, hreopen, accessed, haccess, handled, hhandled, hnext⟩ := h
  have hempty : reopened.writeBuffer.allocatedList = [] := by
    rw [(reopenLine_kept hreopen).writeBuffer, hempty]
  have haccessed := (reopenLine_still hreopen).trans (access_still hempty haccess)
  have hhandled : handled.tempValid = cache.tempValid := by
    split at hhandled
    · have hhit := (clearPrefetched_still _ _).trans (handleTimingReqHit_still hhandled)
      exact (haccessed.trans hhit).tempValid
    · rw [handleTimingReqMiss_tempValid hhandled, haccessed.tempValid]
  rw [← hnext]
  split
  · exact hhandled
  · exact hhandled

theorem getNextQueueEntry_still {prefetch : Option Packet} {entry : Option (EntryRef config)}
    (hready : cache.writeBuffer.readyList = [])
    (h : cache.getNextQueueEntry prefetch = .ok (entry, next)) : Still cache next := by
  simp only [getNextQueueEntry, getNext_writeBuffer hready] at h
  cases hmiss : cache.mshrQueue.getNext curTick with
  | some index =>
      simp only [hmiss, nextMiss, findPending_writeBuffer hready, ok_bind, pure_eq_ok,
        Prod.mk.injEq] at h
      exact h.2 ▸ .refl cache
  | none =>
      simp only [hmiss] at h
      split at h
      · cases prefetch with
        | none =>
            simp only [Except.ok.injEq, Prod.mk.injEq] at h
            exact h.2 ▸ .refl cache
        | some pkt =>
            obtain ⟨-, rfl⟩ | ⟨index, -, -, -, -, hallocate⟩ := allocatePrefetch_cases h
            · exact .refl _
            · exact allocateMissBuffer_still hallocate
      · simp only [Except.ok.injEq, Prod.mk.injEq] at h
        exact h.2 ▸ .refl cache

end Requests

section Responses

theorem unblockTargets_tempValid (cache : Cache config) (index : Fin config.mshrs) :
    (cache.unblockTargets index).tempValid = cache.tempValid := by
  unfold unblockTargets
  split <;> rfl

theorem promoteTargets_still {index : Fin config.mshrs}
    (h : cache.promoteTargets index pkt blk = .ok next) : Still cache next := by
  unfold promoteTargets at h
  split at h
  · cases h
    exact .refl cache
  · simp only [bind_eq_ok] at h
    obtain ⟨middle, hmiddle, h⟩ := h
    have hmiddle : Still cache middle := by
      split at hmiddle
      · simp only [bind_eq_ok, pure_eq_ok] at hmiddle
        obtain ⟨readable, hbits, mshr, -, rfl⟩ := hmiddle
        exact (setCoherenceBits_still hbits).trans ⟨⟨rfl, rfl⟩, rfl⟩
      · cases hmiddle
        exact .refl cache
    split at h
    · simp only [bind_eq_ok, pure_eq_ok] at h
      obtain ⟨mshr, -, rfl⟩ := h
      exact hmiddle.trans ⟨⟨rfl, rfl⟩, rfl⟩
    · rw [pure_eq_ok] at h
      exact h ▸ hmiddle

theorem serviceMSHRTargets_still {index : Fin config.mshrs}
    (h : cache.serviceMSHRTargets index pkt blk = .ok next) : Still cache next := by
  simp only [serviceMSHRTargets, bind_eq_ok, check_eq_ok, exists_const, pure_eq_ok] at h
  obtain ⟨-, -, ⟨ready, left⟩, -, serviced, hserviced, -, hnext⟩ := h
  obtain ⟨answers, -, hcache⟩ := serviceTargets_eq_ok hserviced
  have hserviced : Still cache serviced.cache := by
    rw [hcache]
    exact ⟨⟨rfl, rfl⟩, rfl⟩
  rw [← hnext]
  split
  · apply hserviced.trans
    cases blk with
    | none => exact .refl _
    | some ref => exact setBlk_still _ ref rfl
  · exact hserviced

theorem mshrFreed_still (cache : Cache config) (mshrQueue : MshrQueue config.mshrs) :
    Still cache (cache.mshrFreed mshrQueue) := by
  unfold mshrFreed
  dsimp only
  split
  · split <;> exact ⟨⟨rfl, rfl⟩, rfl⟩
  · split <;> exact ⟨⟨rfl, rfl⟩, rfl⟩

theorem retireMSHR_still {index : Fin config.mshrs} {writebacks writebacks' : List Packet}
    (h : cache.retireMSHR index blk writebacks = .ok (next, writebacks')) : Still cache next := by
  unfold retireMSHR at h
  split at h
  · cases h
    exact .refl cache
  · simp only [bind_eq_ok] at h
    obtain ⟨⟨promoted, mshr⟩, -, retired, hretired, h⟩ := h
    have hedited : Still cache { cache with mshrQueue := cache.mshrQueue.setEntry index mshr } :=
      ⟨⟨rfl, rfl⟩, rfl⟩
    have hretired : Still cache retired := by
      split at hretired
      · simp only [bind_eq_ok, pure_eq_ok] at hretired
        obtain ⟨mshrQueue, -, rfl⟩ := hretired
        cases blk with
        | none => exact ⟨⟨rfl, rfl⟩, rfl⟩
        | some ref =>
            have hcleared := hedited.trans (clearCoherenceBits_still _ ref .readableBit)
            exact hcleared.trans ⟨⟨rfl, rfl⟩, rfl⟩
      · simp only [freeMSHR, bind_eq_ok, pure_eq_ok] at hretired
        obtain ⟨mshrQueue, -, rfl⟩ := hretired
        exact hedited.trans (mshrFreed_still _ mshrQueue)
    split at h
    · exact hretired.trans (evictBlock_still h)
    · simp only [pure_eq_ok, Prod.mk.injEq] at h
      exact h.1 ▸ hretired

/-- A response that is also a write does nothing; any other one fills, and from there
to the end everything is still. -/
theorem recvTimingResp_parts (h : cache.recvTimingResp pkt random = .ok next) :
    (pkt.cmd.isWrite = true ∧ next = cache) ∨
    (pkt.cmd.isWrite = false ∧ ∃ index blk filled writebacks, popMSHR pkt = .ok index ∧
      (cache.unblockTargets index).fillFromResponse index pkt random =
        .ok (blk, filled, writebacks) ∧ Still filled next) := by
  obtain ⟨hread, -, -, h⟩ := recvTimingResp_base h
  simp only [recvTimingRespBase, bind_eq_ok, check_eq_ok, exists_const] at h
  obtain ⟨-, -, h⟩ := h
  split at h
  · next hwrite =>
      simp only [bind_eq_ok, check_eq_ok, exists_const, pure_eq_ok] at h
      rw [Bool.and_eq_true] at hwrite
      exact .inl ⟨hwrite.1, h.2.symm⟩
  · next hwrite =>
      have hplain : pkt.cmd.isWrite = false := by
        rw [Bool.eq_false_iff]
        intro hiswrite
        have hcmd : pkt.cmd = .lockedRMWWriteResp := by simpa [hiswrite] using hwrite
        rw [hcmd] at hread
        exact absurd hread (by decide)
      simp only [bind_eq_ok, pure_eq_ok] at h
      obtain ⟨index, hpop, -, -, ⟨blk, filled, writebacks⟩, hfill, promoted, hpromote, serviced,
        hservice, ⟨retired, dropped⟩, hretire, rfl⟩ := h
      have hstill := (promoteTargets_still hpromote).trans
        ((serviceMSHRTargets_still hservice).trans (retireMSHR_still hretire))
      exact .inr ⟨hplain, index, blk, filled, writebacks, hpop, hfill, hstill⟩

end Responses

end KuiperCache.Cache
