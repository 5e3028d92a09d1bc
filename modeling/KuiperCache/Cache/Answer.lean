import KuiperCache.Cache.Frame

/-! What a response does.  Its MSHR is drained and freed, and every target from
the CPU side is answered; the rest of the queue stays as it is. -/
namespace KuiperCache

open Checked

/-- A packet and the response it was turned into. -/
structure Packet.Answered (pkt resp : Packet) : Prop where
  same : resp = { pkt with cmd := resp.cmd }
  cmd : resp.cmd = pkt.cmd.responseCommand ∨ resp.cmd.isError = true

theorem Packet.makeTimingResponse_eq_ok {pkt resp : Packet}
    (h : pkt.makeTimingResponse = .ok resp) :
    resp = { pkt with cmd := pkt.cmd.responseCommand } := by
  simp only [makeTimingResponse, bind_eq_ok, check_eq_ok, exists_const, pure_eq_ok] at h
  exact h.2.2.symm

/-- The packets of the targets that expect an answer, in order. -/
def cpuPackets (targets : List Target) : List Packet :=
  (targets.filter fun target => target.source == .fromCPU).map Target.pkt

namespace Cache

variable {config : CacheConfig}

theorem serviceTarget_eq_ok {pkt : Packet} {blk : Option (BlkRef config.geometry)}
    {serviced next : Serviced config} {target : Target}
    (h : serviceTarget pkt blk serviced target = .ok next) :
    ∃ answers, List.Forall₂ Packet.Answered (cpuPackets [target]) answers ∧
      next.cache =
        { serviced.cache with responses := serviced.cache.responses ++ answers } := by
  unfold serviceTarget at h
  split at h
  · rename_i hsource
    simp only [satisfyRequest, bind_eq_ok, check_eq_ok, exists_const, pure_eq_ok, Prod.mk.injEq,
      Prod.exists] at h
    obtain ⟨tgtPkt, cache, ⟨-, rfl, rfl⟩, made, hmade, resp, hresp, rfl⟩ := h
    have hmade := Packet.makeTimingResponse_eq_ok hmade
    refine ⟨[resp], ?_, rfl⟩
    simp only [cpuPackets, hsource, List.filter_cons, beq_self_eq_true, ↓reduceIte,
      List.filter_nil, List.map_cons, List.map_nil, List.forall₂_cons, List.forall₂_nil_left_iff,
      and_true]
    split at hresp
    · simp only [Packet.copyError, bind_eq_ok, check_eq_ok, exists_const, pure_eq_ok] at hresp
      obtain ⟨herror, rfl⟩ := hresp
      exact ⟨by rw [hmade], .inr herror⟩
    · cases hresp
      exact ⟨by rw [hmade], .inl (by rw [hmade])⟩
  · rename_i hsource
    simp only [bind_eq_ok, check_eq_ok, exists_const, pure_eq_ok] at h
    obtain ⟨-, rfl⟩ := h
    refine ⟨[], ?_, by simp⟩
    simp [cpuPackets, hsource]
  · cases h

/-- Servicing a list of targets answers those from the CPU side, in order. -/
theorem serviceTargets_eq_ok {pkt : Packet} {blk : Option (BlkRef config.geometry)}
    {list : List Target} {serviced final : Serviced config}
    (h : list.foldlM (serviceTarget pkt blk) serviced = .ok final) :
    ∃ answers, List.Forall₂ Packet.Answered (cpuPackets list) answers ∧
      final.cache =
        { serviced.cache with responses := serviced.cache.responses ++ answers } := by
  induction list generalizing serviced with
  | nil =>
      rw [List.foldlM_nil, pure_eq_ok] at h
      subst h
      exact ⟨[], .nil, by simp⟩
  | cons target rest ih =>
      simp only [List.foldlM_cons, bind_eq_ok] at h
      obtain ⟨next, hnext, hrest⟩ := h
      obtain ⟨first, hfirst, hcache⟩ := serviceTarget_eq_ok hnext
      obtain ⟨others, hothers, hfinal⟩ := ih hrest
      refine ⟨first ++ others, ?_, by rw [hfinal, hcache, List.append_assoc]⟩
      have hsplit : cpuPackets (target :: rest) = cpuPackets [target] ++ cpuPackets rest := by
        simp only [cpuPackets, List.filter_cons, List.filter_nil]
        split <;> rfl
      rw [hsplit]
      exact List.rel_append hfirst hothers

/-- The entry of one MSHR changed, answers were logged, and apart from that
only blocks changed, without losing a line. -/
structure Serving (before after : Cache config) (index : Fin config.mshrs) (mshr : Mshr)
    (answers : List Packet) : Prop where
  mshrQueue : after.mshrQueue = before.mshrQueue.setEntry index mshr
  responses : after.responses = before.responses ++ answers
  kept : Kept before
    { after with mshrQueue := before.mshrQueue, responses := before.responses }

theorem Serving.of_kept {before after : Cache config} (h : Kept before after)
    (index : Fin config.mshrs) :
    Serving before after index (before.mshrQueue.entries index) [] := by
  refine ⟨?_, by rw [h.responses, List.append_nil], ?_⟩
  · rw [h.mshrQueue]
    unfold MshrQueue.setEntry MshrQueue.withQueue Queue.setEntry
    rw [Function.update_eq_self]
  · obtain ⟨⟨-, hbuffer, hallocator, hblocked, -, hevents, hptr, hrepl⟩, hlines⟩ := h
    exact ⟨⟨rfl, hbuffer, hallocator, hblocked, rfl, hevents, hptr, hrepl⟩, hlines⟩

theorem Serving.trans {a b c : Cache config} {index : Fin config.mshrs} {mshr mshr' : Mshr}
    {answers answers' : List Packet} (hab : Serving a b index mshr answers)
    (hbc : Serving b c index mshr' answers') :
    Serving a c index mshr' (answers ++ answers') := by
  refine ⟨?_, ?_, ?_⟩
  · rw [hbc.mshrQueue, hab.mshrQueue]
    unfold MshrQueue.setEntry MshrQueue.withQueue Queue.setEntry
    rw [Function.update_idem]
  · rw [hbc.responses, hab.responses, List.append_assoc]
  · obtain ⟨⟨-, hbuffer, hallocator, hblocked, -, hevents, hptr, hrepl⟩, hlines⟩ := hab.kept
    obtain ⟨⟨-, hbuffer', hallocator', hblocked', -, hevents', hptr', hrepl'⟩, hlines'⟩ := hbc.kept
    exact ⟨⟨rfl, hbuffer'.trans hbuffer, fun h => hallocator' (hallocator h),
      hblocked'.trans hblocked, rfl, hevents'.trans hevents, hptr.trans hptr',
      fun h => hrepl' (hrepl h)⟩, fun set way => (hlines set way).trans (hlines' set way)⟩

/-- Replacing the entry alone. -/
theorem Serving.setEntry (cache : Cache config) (index : Fin config.mshrs) (mshr : Mshr) :
    Serving cache { cache with mshrQueue := cache.mshrQueue.setEntry index mshr } index mshr [] :=
  ⟨rfl, by simp, Kept.refl cache⟩

theorem promoteTargets_serving {cache next : Cache config} {index : Fin config.mshrs}
    {pkt : Packet} {blk : Option (BlkRef config.geometry)}
    (h : cache.promoteTargets index pkt blk = .ok next) :
    ∃ mshr, Mshr.Rearranged (cache.mshrQueue.entries index) mshr ∧
      Serving cache next index mshr [] := by
  unfold promoteTargets at h
  split at h
  · cases h
    exact ⟨_, .refl _, .of_kept (.refl cache) index⟩
  · simp only [bind_eq_ok] at h
    obtain ⟨middle, hmiddle, h⟩ := h
    have hreadable : ∃ mshr, Mshr.Rearranged (cache.mshrQueue.entries index) mshr ∧
        Serving cache middle index mshr [] := by
      split at hmiddle
      · simp only [bind_eq_ok, pure_eq_ok] at hmiddle
        obtain ⟨readable, hbits, mshr, hpromote, rfl⟩ := hmiddle
        have hkept := setCoherenceBits_kept hbits
        have hrearranged := (Mshr.promoteReadable_rearranged hpromote).1
        rw [hkept.mshrQueue] at hrearranged
        exact ⟨mshr, hrearranged,
          (Serving.of_kept hkept index).trans (.setEntry readable index mshr)⟩
      · cases hmiddle
        exact ⟨_, .refl _, .of_kept (.refl cache) index⟩
    obtain ⟨mshr, hrearranged, hserving⟩ := hreadable
    split at h
    · simp only [bind_eq_ok, pure_eq_ok] at h
      obtain ⟨mshr', hpromote, rfl⟩ := h
      have hrearranged' := (Mshr.promoteWritable_rearranged hpromote).1
      rw [hserving.mshrQueue, MshrQueue.setEntry_entries_self] at hrearranged'
      exact ⟨mshr', hrearranged.trans hrearranged', hserving.trans (.setEntry middle index mshr')⟩
    · rw [pure_eq_ok] at h
      exact h ▸ ⟨mshr, hrearranged, hserving⟩

/-- Servicing empties the MSHR: its last assertion says so. -/
theorem serviceMSHRTargets_serving {cache next : Cache config} {index : Fin config.mshrs}
    {pkt : Packet} {blk : Option (BlkRef config.geometry)}
    (h : cache.serviceMSHRTargets index pkt blk = .ok next) :
    ∃ ready left answers,
      (cache.mshrQueue.entries index).extractServiceableTargets pkt.cmd = .ok (ready, left) ∧
      left.waiting = [] ∧ List.Forall₂ Packet.Answered (cpuPackets ready.list) answers ∧
      Serving cache next index left answers := by
  simp only [serviceMSHRTargets, bind_eq_ok, check_eq_ok, exists_const, pure_eq_ok,
    beq_iff_eq] at h
  obtain ⟨-, -, ⟨ready, left⟩, hextract, serviced, hserviced, hnone, hnext⟩ := h
  obtain ⟨answers, hanswers, hcache⟩ := serviceTargets_eq_ok hserviced
  rw [Mshr.getNumTargets_eq_length, List.length_eq_zero_iff] at hnone
  refine ⟨ready, left, answers, hextract, hnone, hanswers, ?_⟩
  have hserving : Serving cache serviced.cache index left answers := by
    rw [hcache]
    exact ⟨rfl, rfl, .refl cache⟩
  rw [← hnext]
  split
  · have hkept := Serving.of_kept (setPrefetched_kept serviced.cache blk) index
    have hentry : serviced.cache.mshrQueue.entries index = left := by
      rw [hserving.mshrQueue, MshrQueue.setEntry_entries_self]
    rw [hentry] at hkept
    rw [← List.append_nil answers]
    exact hserving.trans hkept
  · exact hserving

/-- An MSHR was freed; nothing else changed but the flag that says whether the
queue is full, and a notification. -/
structure Freed (before after : Cache config) (index : Fin config.mshrs) (free : Mshr) : Prop where
  released : MshrQueue.ReleasedAt before.mshrQueue after.mshrQueue index free
  waiting : free.waiting = []
  postInvalidate : free.postInvalidate = (before.mshrQueue.entries index).postInvalidate
  noMSHRs : after.blocked.noMSHRs =
    if before.mshrQueue.isFull && !after.mshrQueue.isFull then false else before.blocked.noMSHRs
  kept : Kept before
    { after with
      mshrQueue := before.mshrQueue, blocked := before.blocked, sendEvents := before.sendEvents }

theorem mshrFreed_freed {cache : Cache config} {mshrQueue : MshrQueue config.mshrs}
    {index : Fin config.mshrs} {free : Mshr} (hwaiting : free.waiting = [])
    (hpost : free.postInvalidate = (cache.mshrQueue.entries index).postInvalidate)
    (h : MshrQueue.ReleasedAt cache.mshrQueue mshrQueue index free) :
    Freed cache (cache.mshrFreed mshrQueue) index free := by
  unfold mshrFreed
  dsimp only
  split
  · rename_i hroom
    split
    · exact ⟨h, hwaiting, hpost, (if_pos hroom).symm, .refl cache⟩
    · exact ⟨h, hwaiting, hpost, (if_pos hroom).symm, .refl cache⟩
  · rename_i hroom
    split
    · exact ⟨h, hwaiting, hpost, (if_neg hroom).symm, .refl cache⟩
    · exact ⟨h, hwaiting, hpost, (if_neg hroom).symm, .refl cache⟩

theorem freeMSHR_freed {cache next : Cache config} {index : Fin config.mshrs}
    (hempty : (cache.mshrQueue.entries index).waiting = [])
    (h : cache.freeMSHR index = .ok next) : ∃ free, Freed cache next index free := by
  simp only [freeMSHR, bind_eq_ok, pure_eq_ok] at h
  obtain ⟨mshrQueue, hdeallocate, rfl⟩ := h
  obtain ⟨free, hfree, hreleased⟩ := MshrQueue.deallocate_spec hdeallocate
  obtain ⟨-, hfree⟩ := Mshr.deallocate_eq_ok hfree
  have hwaiting : free.waiting = [] := by
    rw [hfree]
    exact hempty
  exact ⟨free, mshrFreed_freed hwaiting (by rw [hfree]) hreleased⟩

theorem Freed.trans {before middle after : Cache config} {index : Fin config.mshrs} {free : Mshr}
    (h : Freed before middle index free) (hkept : Kept middle after) :
    Freed before after index free := by
  have hallocator : before.writeAllocator = none → after.writeAllocator = none :=
    fun hnone => hkept.writeAllocator (h.kept.writeAllocator hnone)
  have hrepl : before.tags.Replaceable → after.tags.Replaceable :=
    fun hold => hkept.replaceable (h.kept.replaceable hold)
  refine ⟨hkept.mshrQueue ▸ h.released, h.waiting, h.postInvalidate, ?_,
    ⟨⟨rfl, hkept.writeBuffer.trans h.kept.writeBuffer, hallocator, rfl,
        hkept.responses.trans h.kept.responses, rfl, h.kept.nextPtr.trans hkept.nextPtr, hrepl⟩,
      fun set way => (h.kept.lines set way).trans (hkept.lines set way)⟩⟩
  rw [hkept.noMSHRs, hkept.mshrQueue, h.noMSHRs]

/-- A drained MSHR is freed, and the temporary block evicted if it was used. -/
theorem retireMSHR_freed {cache next : Cache config} {index : Fin config.mshrs}
    {blk : Option (BlkRef config.geometry)} {writebacks writebacks' : List Packet}
    (hempty : (cache.mshrQueue.entries index).waiting = [])
    (h : cache.retireMSHR index blk writebacks = .ok (next, writebacks')) :
    ∃ free, Freed cache next index free := by
  obtain ⟨htargets, hdeferred⟩ := Mshr.waiting_eq_nil.mp hempty
  have hlocked : (cache.mshrQueue.entries index).hasLockedRMWReadTarget = false := by
    simp [Mshr.hasLockedRMWReadTarget, htargets]
  have hpromote : (cache.mshrQueue.entries index).promoteDeferredTargets curTick =
      .ok (false, cache.mshrQueue.entries index) := by
    simp [Mshr.promoteDeferredTargets, htargets, hdeferred]
  have hsame : cache.mshrQueue.setEntry index (cache.mshrQueue.entries index) =
      cache.mshrQueue := by
    unfold MshrQueue.setEntry MshrQueue.withQueue Queue.setEntry
    rw [Function.update_eq_self]
  simp only [retireMSHR, hlocked, hpromote, hsame, Bool.false_eq_true, ↓reduceIte, ok_bind,
    bind_eq_ok] at h
  obtain ⟨freed, hfreed, h⟩ := h
  obtain ⟨free, hfreed⟩ := freeMSHR_freed hempty hfreed
  refine ⟨free, ?_⟩
  split at h
  · exact hfreed.trans (evictBlock_temp_kept h)
  · rw [pure_eq_ok, Prod.mk.injEq] at h
    exact h.1 ▸ hfreed

/-- One response, from the state after the fill to the end. -/
structure Responded (before after : Cache config) (index : Fin config.mshrs)
    (answers : List Packet) : Prop where
  released : ∃ free, MshrQueue.ReleasedAt before.mshrQueue after.mshrQueue index free ∧
    free.waiting = [] ∧ free.postInvalidate = (before.mshrQueue.entries index).postInvalidate
  noMSHRs : after.blocked.noMSHRs =
    if before.mshrQueue.isFull && !after.mshrQueue.isFull then false else before.blocked.noMSHRs
  responses : after.responses = before.responses ++ answers
  writeBuffer : after.writeBuffer = before.writeBuffer
  writeAllocator : before.writeAllocator = none → after.writeAllocator = none
  nextPtr : before.nextPtr ≤ after.nextPtr
  replaceable : before.tags.Replaceable → after.tags.Replaceable
  lines : ∀ set way, CacheBlk.LineKept (before.tags.blks set way) (after.tags.blks set way)

/-- Releasing an entry that was edited before is releasing the original one. -/
theorem releasedAt_of_setEntry {numEntries : Nat} {queue next : MshrQueue numEntries}
    {index : Fin numEntries} {mshr free : Mshr}
    (hservice : mshr.inService = (queue.entries index).inService)
    (h : MshrQueue.ReleasedAt (queue.setEntry index mshr) next index free) :
    MshrQueue.ReleasedAt queue next index free := by
  have hedited := MshrQueue.setEntry_edited queue index mshr
  refine ⟨⟨h.numReserve.trans hedited.numReserve, h.demandReserve.trans hedited.demandReserve⟩,
    ?_, h.freeList, h.allocatedList, ?_, h.allocated, ?_⟩
  · rw [h.entries, hedited.entries, Function.update_idem]
  · rw [h.readyList, MshrQueue.setEntry_entries_self, hservice, MshrQueue.setEntry_readyList]
  · rw [h.numInService, MshrQueue.setEntry_entries_self, hservice,
      MshrQueue.setEntry_numInService]

theorem Serving.responded {before middle after : Cache config} {index : Fin config.mshrs}
    {mshr free : Mshr} {answers : List Packet}
    (hservice : mshr.inService = (before.mshrQueue.entries index).inService)
    (hpost : mshr.postInvalidate = (before.mshrQueue.entries index).postInvalidate)
    (hserving : Serving before middle index mshr answers) (hfreed : Freed middle after index free) :
    Responded before after index answers := by
  have hreleased := hfreed.released
  have hpost' := hfreed.postInvalidate
  rw [hserving.mshrQueue] at hreleased hpost'
  rw [MshrQueue.setEntry_entries_self, hpost] at hpost'
  obtain ⟨⟨-, hbuffer, hallocator, hblocked, -, -, hptr, hrepl⟩, hlines⟩ := hserving.kept
  obtain ⟨⟨-, hbuffer', hallocator', -, hresponses', -, hptr', hrepl'⟩, hlines'⟩ := hfreed.kept
  refine ⟨⟨free, releasedAt_of_setEntry hservice hreleased, hfreed.waiting, hpost'⟩, ?_, ?_,
    hbuffer'.trans hbuffer, fun h => hallocator' (hallocator h), hptr.trans hptr',
    fun h => hrepl' (hrepl h), fun set way => (hlines set way).trans (hlines' set way)⟩
  · have hfull : middle.mshrQueue.isFull = before.mshrQueue.isFull := by
      rw [hserving.mshrQueue]
      rfl
    have hsame : middle.blocked.noMSHRs = before.blocked.noMSHRs := hblocked
    rw [hfreed.noMSHRs, hfull, hsame]
  · have hsame : after.responses = middle.responses := hresponses'
    rw [hsame, hserving.responses]

/-- A response either concerns an uncacheable write and does nothing, or it
fills a block, drains one MSHR that held targets, and frees it. -/
theorem recvTimingRespBase_cases {cache next : Cache config} {pkt : Packet}
    {random : Fin config.geometry.assoc} (h : cache.recvTimingRespBase pkt random = .ok next) :
    (pkt.cmd.isWrite = true ∧ next = cache) ∨
      ∃ index blk filled writebacks mshr ready left answers, popMSHR pkt = .ok index ∧
      (cache.mshrQueue.entries index).targets.list ≠ [] ∧
      (cache.unblockTargets index).fillFromResponse index pkt random =
        .ok (blk, filled, writebacks) ∧
      Mshr.Rearranged (cache.mshrQueue.entries index) mshr ∧
      mshr.extractServiceableTargets pkt.cmd = .ok (ready, left) ∧ left.waiting = [] ∧
      List.Forall₂ Packet.Answered (cpuPackets ready.list) answers ∧
      Responded filled next index answers := by
  simp only [recvTimingRespBase, bind_eq_ok, check_eq_ok, exists_const] at h
  obtain ⟨-, -, h⟩ := h
  split at h
  · rename_i hwrite
    simp only [bind_eq_ok, check_eq_ok, exists_const, pure_eq_ok] at h
    exact .inl ⟨(Bool.and_eq_true_iff.mp hwrite).1, h.2.symm⟩
  · simp only [bind_eq_ok, pure_eq_ok] at h
    obtain ⟨index, hpop, first, hfirst, ⟨blk, filled, writebacks⟩, hfill, promoted, hpromote,
      serviced, hservice, ⟨retired, dropped⟩, hretire, rfl⟩ := h
    have hqueue : filled.mshrQueue = cache.mshrQueue :=
      (fillFromResponse_touched hfill).mshrQueue.trans (unblockTargets_kept cache index).mshrQueue
    rw [(unblockTargets_kept cache index).mshrQueue] at hfirst
    obtain ⟨rest, hcons⟩ := Mshr.getTarget_eq_ok.mp hfirst
    obtain ⟨mshr, hrearranged, hserving⟩ := promoteTargets_serving hpromote
    obtain ⟨ready, left, answers, hextract, hleft, hanswers, hserving'⟩ :=
      serviceMSHRTargets_serving hservice
    have hentry : promoted.mshrQueue.entries index = mshr := by
      rw [hserving.mshrQueue, MshrQueue.setEntry_entries_self]
    have hentry' : serviced.mshrQueue.entries index = left := by
      rw [hserving'.mshrQueue, MshrQueue.setEntry_entries_self]
    obtain ⟨free, hfreed⟩ := retireMSHR_freed (by rw [hentry', hleft]) hretire
    rw [hentry] at hextract
    have hsame : left.inService = (filled.mshrQueue.entries index).inService ∧
        left.postInvalidate = (filled.mshrQueue.entries index).postInvalidate := by
      obtain ⟨served, rest, targets, -, -, -, rfl⟩ := Mshr.extractServiceableTargets_eq_ok hextract
      exact ⟨hrearranged.inService, hrearranged.postInvalidate⟩
    have hresponded := (hserving.trans hserving').responded hsame.1 hsame.2 hfreed
    rw [List.nil_append] at hresponded
    rw [hqueue] at hrearranged
    exact .inr ⟨index, blk, filled, writebacks, mshr, ready, left, answers, hpop, by simp [hcons],
      hfill, hrearranged, hextract, hleft, hanswers, hresponded⟩

end Cache

end KuiperCache
