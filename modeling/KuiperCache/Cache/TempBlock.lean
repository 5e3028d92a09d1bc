import KuiperCache.Cache.Still

/-! The temporary block.  A response whose line has no place in the tag store is
answered from it; afterwards it should be written back and given up, but both
bodies are commented out. -/
namespace KuiperCache.Cache

open Checked

variable {config : CacheConfig} {cache next : Cache config} {pkt : Packet}
  {blk : Option (BlkRef config.geometry)} {random : Fin config.geometry.assoc}

/-- Whether a response to an MSHR is answered from the temporary block: it is a
fill for a line that the tag store does not have, and none of the targets asked
for the line to be kept. -/
def usesTemp (cache : Cache config) (index : Fin config.mshrs) (pkt : Packet) : Bool :=
  !(cache.mshrQueue.entries index).isForward && !pkt.cmd.isError &&
    (cache.findBlock pkt.addr pkt.isSecure).isNone && !(cache.mshrQueue.entries index).allocOnFill

theorem insertTag_valid {line line' : CacheBlk} {tag : Addr} {secure : Bool}
    (h : line.insertTag tag secure = .ok line') : line'.valid = true := by
  simp only [CacheBlk.insertTag, bind_eq_ok, check_eq_ok, exists_const, pure_eq_ok] at h
  obtain ⟨-, rfl⟩ := h
  rfl

theorem fillTarget_temp {writebacks writebacks' : List Packet} {ref : BlkRef config.geometry}
    (h : cache.fillTarget pkt none writebacks false random = .ok (ref, next, writebacks')) :
    ref = .temp ∧ next.tempValid = true := by
  simp only [fillTarget, Bool.false_eq_true, ↓reduceIte, bind_eq_ok, check_eq_ok, exists_const,
    pure_eq_ok, Prod.mk.injEq, Except.ok.injEq, exists_eq_left'] at h
  obtain ⟨-, line, hline, rfl, rfl, -⟩ := h
  exact ⟨rfl, insertTag_valid hline⟩

theorem fillTarget_slot {allocate : Bool} {writebacks writebacks' : List Packet}
    {ref : BlkRef config.geometry} (hblk : blk ≠ some .temp)
    (hplace : blk = none → allocate = true)
    (h : cache.fillTarget pkt blk writebacks allocate random = .ok (ref, next, writebacks')) :
    ref ≠ .temp ∧ next.tempValid = cache.tempValid := by
  cases blk with
  | some found =>
      cases h
      exact ⟨fun heq => hblk (by rw [heq]), rfl⟩
  | none =>
      rw [hplace rfl] at h
      simp only [fillTarget, ↓reduceIte, bind_eq_ok, check_eq_ok, exists_const] at h
      obtain ⟨-, ⟨found, allocated, wbs⟩, hallocate, h⟩ := h
      have htemp := (allocateBlock_still hallocate).tempValid
      obtain ⟨rfl, -⟩ := allocateBlock_eq_ok hallocate
      simp only [pure_eq_ok, Prod.mk.injEq] at h
      obtain ⟨rfl, rfl, -⟩ := h
      exact ⟨by simp, htemp⟩

/-- The bits that a fill sets do not change which block it went to. -/
theorem handleFill_target {allocate : Bool} {writebacks writebacks' : List Packet}
    {ref : BlkRef config.geometry}
    (h : cache.handleFill pkt blk writebacks allocate random = .ok (ref, next, writebacks')) :
    ∃ target, cache.fillTarget pkt blk writebacks allocate random = .ok (ref, target, writebacks') ∧
      next.tempValid = target.tempValid := by
  obtain ⟨target, readable, htarget, -, hreadable, hnext⟩ := handleFill_eq_ok h
  exact ⟨target, htarget,
    ((setCoherenceBits_still hreadable).trans (passWritable_still hnext)).tempValid⟩

theorem findBlock_ne_temp (cache : Cache config) (addr : Addr) (secure : Bool) :
    cache.findBlock addr secure ≠ some .temp := by
  simp [findBlock]

/-- A read response goes to the temporary block exactly when it has no other
place to go. -/
theorem fillFromResponse_temp {index : Fin config.mshrs} {writebacks : List Packet}
    (hread : pkt.cmd.isRead = true) (hinvalidate : pkt.cmd.isInvalidate = false)
    (h : cache.fillFromResponse index pkt random = .ok (blk, next, writebacks)) :
    (cache.usesTemp index pkt = true ∧ blk = some .temp ∧ next.tempValid = true) ∨
      (cache.usesTemp index pkt = false ∧ blk ≠ some .temp ∧
        next.tempValid = cache.tempValid) := by
  have hslot := findBlock_ne_temp cache pkt.addr pkt.isSecure
  obtain ⟨hfill, ref, rfl, hhandle⟩ | ⟨hfill, rfl, rfl⟩ :=
    fillFromResponse_read hread hinvalidate h
  · obtain ⟨target, htarget, hkept⟩ := handleFill_target hhandle
    cases huses : cache.usesTemp index pkt with
    | true =>
        simp only [usesTemp, hfill, Bool.true_and, Bool.and_eq_true, Option.isNone_iff_eq_none,
          Bool.not_eq_true'] at huses
        rw [huses.1, huses.2] at htarget
        obtain ⟨rfl, hvalid⟩ := fillTarget_temp htarget
        exact .inl ⟨rfl, rfl, hkept.trans hvalid⟩
    | false =>
        have hplace : cache.findBlock pkt.addr pkt.isSecure = none →
            (cache.mshrQueue.entries index).allocOnFill = true := by
          intro hnone
          simpa [usesTemp, hfill, hnone] using huses
        obtain ⟨hne, htemp⟩ := fillTarget_slot hslot hplace htarget
        exact .inr ⟨rfl, by simpa using hne, hkept.trans htemp⟩
  · exact .inr ⟨by simp [usesTemp, hfill], hslot, rfl⟩

/-- Whether a response is answered from the temporary block.  Responses that are
also writes are not looked at. -/
def answersFromTemp (cache : Cache config) (pkt : Packet) : Bool :=
  !pkt.cmd.isWrite && match popMSHR pkt with
    | .ok index => cache.usesTemp index pkt
    | .error _ => false

/-- The temporary block as a response finds it when it comes to evict it. -/
def evictedTemp (cache : Cache config) (pkt : Packet) (random : Fin config.geometry.assoc) :
    Except Assertion (Option TempCacheBlk) :=
  if pkt.cmd.isWrite then .ok none
  else do
    let index ← popMSHR pkt
    let (blk, cache, _) ← (cache.unblockTargets index).fillFromResponse index pkt random
    let cache ← cache.promoteTargets index pkt blk
    let cache ← cache.serviceMSHRTargets index pkt blk
    pure (if blk = some .temp && cache.tempBlock.blk.valid then some cache.tempBlock else none)

theorem unblockTargets_usesTemp (cache : Cache config) (index : Fin config.mshrs) :
    (cache.unblockTargets index).usesTemp index pkt = cache.usesTemp index pkt := by
  unfold unblockTargets
  split <;> rfl

theorem answersFromTemp_eq {index : Fin config.mshrs} (hwrite : pkt.cmd.isWrite = false)
    (hpop : popMSHR pkt = (.ok index : Except Assertion (Fin config.mshrs))) :
    cache.answersFromTemp pkt = cache.usesTemp index pkt := by
  simp [answersFromTemp, hwrite, hpop]

/-- After a response the temporary block is valid exactly when it was used. -/
theorem recvTimingResp_temp (hinvalid : cache.tempValid = false)
    (h : cache.recvTimingResp pkt random = .ok next) :
    next.tempValid = cache.answersFromTemp pkt := by
  obtain ⟨hread, hinvalidate, -, -⟩ := recvTimingResp_base h
  obtain ⟨hwrite, rfl⟩ | ⟨hplain, index, blk, filled, writebacks, hpop, hfill, hstill⟩ :=
    recvTimingResp_parts h
  · simp [hinvalid, answersFromTemp, hwrite]
  · rw [hstill.tempValid, answersFromTemp_eq hplain hpop, ← unblockTargets_usesTemp cache index]
    obtain ⟨huses, -, hvalid⟩ | ⟨huses, -, hkept⟩ := fillFromResponse_temp hread hinvalidate hfill
    · rw [hvalid, huses]
    · rw [hkept, huses, unblockTargets_tempValid, hinvalid]

/-- Only a response that used the temporary block evicts it. -/
theorem answersFromTemp_of_evicted {temp : TempCacheBlk} (hread : pkt.cmd.isRead = true)
    (hinvalidate : pkt.cmd.isInvalidate = false)
    (h : cache.evictedTemp pkt random = .ok (some temp)) : cache.answersFromTemp pkt = true := by
  unfold evictedTemp at h
  split at h
  · cases h
  · next hwrite =>
      simp only [bind_eq_ok, pure_eq_ok] at h
      obtain ⟨index, hpop, ⟨blk, filled, writebacks⟩, hfill, promoted, -, serviced, -, h⟩ := h
      rw [answersFromTemp_eq (by simpa using hwrite) hpop, ← unblockTargets_usesTemp cache index]
      obtain ⟨huses, -⟩ | ⟨-, hne, -⟩ := fillFromResponse_temp hread hinvalidate hfill
      · exact huses
      · simp [hne] at h

theorem coalesceDelay_still (cache : Cache config) (index : Fin config.mshrs) (tgtPkt : Packet) :
    Still cache (cache.coalesceDelay index tgtPkt).2 := by
  unfold coalesceDelay
  split
  · exact .refl cache
  · split
    · dsimp only
      split <;> exact ⟨⟨rfl, rfl⟩, rfl⟩
    · exact .refl cache

theorem issueMSHR_still {index : Fin config.mshrs} {sent : Option Packet}
    (h : cache.issueMSHR index = .ok (sent, next)) : Still cache next := by
  simp only [issueMSHR, bind_eq_ok] at h
  obtain ⟨target, -, h⟩ := h
  have hdelay := coalesceDelay_still cache index target.pkt
  split at h
  · simp only [pure_eq_ok, Prod.mk.injEq] at h
    exact h.2 ▸ hdelay
  · simp only [createMissPacket, bind_eq_ok, check_eq_ok, exists_const, pure_eq_ok,
      Prod.mk.injEq] at h
    obtain ⟨⟨pkt, created⟩, ⟨-, -, -, -, rfl⟩, -, rfl⟩ := h
    exact hdelay.trans ⟨⟨rfl, rfl⟩, rfl⟩

end KuiperCache.Cache

namespace KuiperCache.System

open Checked Cache

variable {config : CacheConfig} {system next : System config} {label : Label config}

/-- A call of `recvTimingResp`: the cache as it finds it, and its arguments. -/
structure Delivery (config : CacheConfig) where
  cache : Cache config
  pkt : Packet
  random : Fin config.geometry.assoc

/-- The response that `handleTimingRes` builds and receives. -/
def answered (cache : Cache config) (pkt : Packet) (random : Fin config.geometry.assoc) :
    Delivery config :=
  { cache := cache.newPtr.2
    pkt := { Packet.ofBlock cache.newPtr.1 pkt.req
        (if pkt.cmd.isRead then .readExResp else .writeResp) pkt.size with
      data := pkt.data, senderState := pkt.senderState }
    random }

/-- The response that a call hands to the cache, if it does.  The one faked for a
locked write is refused by an assertion, so a request never returns from one. -/
def delivered (system : System config) : Label config → Option (Delivery config)
  | .recvTimingReq .. => none
  | .getNextQueueEntry _ => none
  | .sendMSHRQueuePacket _ none _ => none
  | .sendMSHRQueuePacket index (some data) random =>
      match system.cache.issueMSHR index with
      | .ok (some sent, issued) => some (answered issued { sent with data } random)
      | _ => none
  | .handleTimingRes pkt random => some (answered system.cache pkt random)
  | .recvTimingResp pkt random => some { cache := system.cache, pkt, random }

/-- A step that delivers a response is the call that receives it. -/
theorem step_delivered {delivery : Delivery config}
    (hdelivered : system.delivered label = some delivery) (h : system.step label = .ok next) :
    Still system.cache delivery.cache ∧
      delivery.cache.recvTimingResp delivery.pkt delivery.random = .ok next.cache := by
  cases label with
  | recvTimingReq pkt random => cases hdelivered
  | getNextQueueEntry prefetch => cases hdelivered
  | handleTimingRes pkt random =>
      cases hdelivered
      obtain ⟨cache, hres, rfl⟩ := step_handleTimingRes h
      exact ⟨⟨⟨rfl, rfl⟩, rfl⟩, hres⟩
  | recvTimingResp pkt random =>
      cases hdelivered
      obtain ⟨cache, hresp, rfl⟩ := step_recvTimingResp h
      exact ⟨.refl system.cache, hresp⟩
  | sendMSHRQueuePacket index reply random =>
      obtain ⟨waiting, cache, flight, hsend, rfl⟩ := step_sendMSHRQueuePacket h
      obtain ⟨-, hissue⟩ | ⟨sent, issued, hissue, ⟨data, rfl, -, hres⟩ | ⟨rfl, -⟩⟩ :=
        sendMSHRQueuePacket_issued hsend
      · cases reply with
        | none => cases hdelivered
        | some data =>
            rw [delivered, hissue] at hdelivered
            cases hdelivered
      · rw [delivered, hissue] at hdelivered
        cases hdelivered
        have hissued := issueMSHR_still hissue
        exact ⟨hissued.trans ⟨⟨rfl, rfl⟩, rfl⟩, hres⟩
      · cases hdelivered

/-- Without a response the temporary block stays as it is. -/
theorem step_undelivered (hsound : system.cache.Sound)
    (hdelivered : system.delivered label = none) (h : system.step label = .ok next) :
    next.cache.tempValid = system.cache.tempValid := by
  cases label with
  | recvTimingReq pkt random =>
      obtain ⟨cache, hreq, rfl⟩ := step_recvTimingReq h
      have hempty : system.cache.newPtr.2.writeBuffer.allocatedList = [] := hsound.writeBuffer.1
      have hkept := recvTimingReq_tempValid hempty hreq
      exact hkept
  | getNextQueueEntry prefetch =>
      obtain ⟨entry, cache, hnext, rfl⟩ := step_getNextQueueEntry h
      have hready : system.cache.newPtr.2.writeBuffer.readyList = [] := hsound.writeBuffer.2
      have hkept := getNextQueueEntry_still hready hnext
      exact hkept.tempValid
  | handleTimingRes pkt random => cases hdelivered
  | recvTimingResp pkt random => cases hdelivered
  | sendMSHRQueuePacket index reply random =>
      obtain ⟨waiting, cache, flight, hsend, rfl⟩ := step_sendMSHRQueuePacket h
      obtain ⟨-, hissue⟩ | ⟨sent, issued, hissue, ⟨data, rfl, -⟩ | ⟨-, -, modified, hmark⟩⟩ :=
        sendMSHRQueuePacket_issued hsend
      · exact (issueMSHR_still hissue).tempValid
      · rw [delivered, hissue] at hdelivered
        cases hdelivered
      · exact ((issueMSHR_still hissue).trans (markInService_still hmark)).tempValid

/-- What should have happened to the temporary block when a response returns: it
is invalid, and if it was dirty its writeback is in the write buffer. -/
def TempGivenUp (system : System config) (label : Label config) (next : System config) : Prop :=
  ∀ delivery, system.delivered label = some delivery →
    next.cache.tempBlock.blk.valid = false ∧
    ∀ temp, delivery.cache.evictedTemp delivery.pkt delivery.random = .ok (some temp) →
      temp.blk.isSet .dirtyBit = true →
      ∃ index ∈ next.cache.writeBuffer.allocatedList,
        ∃ target ∈ (next.cache.writeBuffer.entries index).targets,
          target.pkt.cmd = .writebackDirty ∧ target.pkt.addr = temp.addr

/-- No response is answered from the temporary block. -/
def sparesTemp (system : System config) (label : Label config) : Bool :=
  (system.delivered label).all fun delivery => !delivery.cache.answersFromTemp delivery.pkt

theorem step_spared (hinv : system.cache.Sound ∧ system.cache.tempValid = false)
    (hspares : system.sparesTemp label = true) (h : system.step label = .ok next) :
    next.cache.Sound ∧ next.cache.tempValid = false := by
  refine ⟨step_sound system label next hinv.1 h, ?_⟩
  cases hdelivered : system.delivered label with
  | none => rw [step_undelivered hinv.1 hdelivered h, hinv.2]
  | some delivery =>
      obtain ⟨hstill, hresp⟩ := step_delivered hdelivered h
      rw [recvTimingResp_temp (hstill.tempValid.trans hinv.2) hresp]
      simpa [sparesTemp, hdelivered] using hspares

/-- One call: the temporary block is given up exactly when it was not used. -/
theorem step_givenUp_iff (hinv : system.cache.Sound ∧ system.cache.tempValid = false)
    (h : system.step label = .ok next) :
    TempGivenUp system label next ↔ system.sparesTemp label = true := by
  unfold TempGivenUp sparesTemp
  cases hdelivered : system.delivered label with
  | none => simp
  | some delivery =>
      obtain ⟨hstill, hresp⟩ := step_delivered hdelivered h
      have hnext : next.cache.tempBlock.blk.valid = delivery.cache.answersFromTemp delivery.pkt :=
        recvTimingResp_temp (hstill.tempValid.trans hinv.2) hresp
      obtain ⟨hread, hinvalidate, -⟩ := recvTimingResp_base hresp
      constructor
      · intro hgiven
        obtain ⟨hinvalid, -⟩ := hgiven delivery rfl
        rw [hnext] at hinvalid
        simp [hinvalid]
      · intro hspared
        have hunused : delivery.cache.answersFromTemp delivery.pkt = false := by
          simpa using hspared
        rintro _ ⟨rfl⟩
        refine ⟨hnext.trans hunused, ?_⟩
        intro temp hevicted
        rw [answersFromTemp_of_evicted hread hinvalidate hevicted] at hunused
        cases hunused

/-- The temporary block is given up after every response of a run exactly when
no response of the run is answered from it. -/
theorem temp_block_given_up_iff {writeAllocator : Option WriteAllocator}
    {labels : List (Label config)} {final : System config}
    (hrun : Transition.run step (new config writeAllocator) labels = .ok final) :
    Transition.stepwise step TempGivenUp (new config writeAllocator) labels ↔
      Transition.meets step sparesTemp (new config writeAllocator) labels = true := by
  have hpreserved : ∀ (system : System config) label next, True →
      system.sparesTemp label = true → (system.cache.Sound ∧ system.cache.tempValid = false) →
      system.step label = .ok next → next.cache.Sound ∧ next.cache.tempValid = false :=
    fun _ _ _ _ hspares hinv h => step_spared hinv hspares h
  exact Transition.stepwise_iff_meets hpreserved (fun _ _ _ _ hinv h => step_givenUp_iff hinv h)
    (fun _ _ => trivial) hrun ⟨sound_new config writeAllocator, rfl⟩

/-- A request for four bytes of a line. -/
def requestLine (cmd : MemCmd) (addr : Addr) : Label simL0Params :=
  .recvTimingReq (Packet.ofRequest 0 (Request.physical addr 4 0 0) cmd)
    simL0Params.geometry.firstWay

/-- The first MSHR is sent and answered with a line of zeros. -/
def answerLine : Label simL0Params :=
  .sendMSHRQueuePacket ⟨0, simL0Params.mshrs_pos⟩ (some (List.replicate 512 0))
    simL0Params.geometry.firstWay

theorem temp_block_given_up_iff_readReq :
    ∃ final, Transition.run step (new simL0Params none)
        [requestLine .readReq 0x200, answerLine] = .ok final ∧
      Transition.stepwise step TempGivenUp (new simL0Params none)
        [requestLine .readReq 0x200, answerLine] := by
  obtain ⟨final, hrun, -⟩ := exists_ok_of_observed
    (show (Transition.run step (new simL0Params none)
      [requestLine .readReq 0x200, answerLine]).toOption.map
        (fun final => final.cache.responses.length) = some 1 by decide +kernel)
  exact ⟨final, hrun, (temp_block_given_up_iff hrun).mpr (by decide +kernel)⟩

/-- An exclusive read leaves the temporary block valid, and the next exclusive
read of another line stops at the assertion that it is not. -/
theorem exclusive_read_leaves_temp_block_valid :
    (¬ Transition.stepwise step TempGivenUp (new simL0Params none)
      [requestLine .readExReq 0x200, answerLine]) ∧
    Transition.run step (new simL0Params none)
        [requestLine .readExReq 0x200, answerLine, requestLine .readExReq 0x400, answerLine] =
      .error .victimStillValid := by
  refine ⟨?_, failure_eq_some.mp (by decide +kernel)⟩
  intro hgiven
  rw [← List.singleton_append] at hgiven
  obtain ⟨system, hrun, hseen⟩ := exists_ok_of_observed
    (show ((Transition.run step (new simL0Params none)
      [requestLine .readExReq 0x200]).toOption.map fun system =>
        ((system.delivered answerLine).isSome, (system.step answerLine).toOption.map fun next =>
          next.cache.tempBlock.blk.valid)) = some (true, some true) by decide +kernel)
  obtain ⟨hdelivered, hstep⟩ := Prod.mk.inj hseen
  obtain ⟨delivery, hdelivery⟩ := Option.isSome_iff_exists.mp hdelivered
  obtain ⟨next, hnext, hvalid⟩ := exists_ok_of_observed hstep
  obtain ⟨hinvalid, -⟩ := Transition.stepwise_last hgiven hrun hnext delivery hdelivery
  rw [hvalid] at hinvalid
  cases hinvalid

end KuiperCache.System
