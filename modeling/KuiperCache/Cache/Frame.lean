import KuiperCache.Cache.Request

/-! What the functions that work on blocks leave alone.  They never touch the
queues, the flags or the logs; the finer frame says that no line is lost and no
permission is taken away. -/
namespace KuiperCache

open Checked

/-- The replacement data of every block knows whether the block is valid. -/
def Tags.Replaceable {geometry : Geometry} (tags : Tags geometry) : Prop :=
  ∀ set way, (tags.blks set way).replValid = (tags.blks set way).valid

/-- The block still holds its line, with at least the permissions it had. -/
structure CacheBlk.LineKept (before after : CacheBlk) : Prop where
  valid : after.valid = before.valid
  tag : after.tag = before.tag
  secure : after.secure = before.secure
  replValid : after.replValid = before.replValid
  readable : before.readable = true → after.readable = true
  writable : before.writable = true → after.writable = true

theorem CacheBlk.LineKept.refl (blk : CacheBlk) : LineKept blk blk :=
  ⟨rfl, rfl, rfl, rfl, id, id⟩

theorem CacheBlk.LineKept.trans {a b c : CacheBlk} (hab : LineKept a b) (hbc : LineKept b c) :
    LineKept a c :=
  ⟨hbc.valid.trans hab.valid, hbc.tag.trans hab.tag, hbc.secure.trans hab.secure,
    hbc.replValid.trans hab.replValid, fun h => hbc.readable (hab.readable h),
    fun h => hbc.writable (hab.writable h)⟩

theorem CacheBlk.setCoherenceBits_kept {blk next : CacheBlk} {bit : CoherenceBit}
    (h : blk.setCoherenceBits bit = .ok next) : LineKept blk next := by
  simp only [setCoherenceBits, bind_eq_ok, check_eq_ok, exists_const, pure_eq_ok] at h
  obtain ⟨-, rfl⟩ := h
  cases bit
  · exact ⟨rfl, rfl, rfl, rfl, id, fun _ => rfl⟩
  · exact ⟨rfl, rfl, rfl, rfl, fun _ => rfl, id⟩
  · exact ⟨rfl, rfl, rfl, rfl, id, id⟩

theorem CacheBlk.matchTag_kept {before after : CacheBlk} (h : LineKept before after) (tag : Addr)
    (secure : Bool) : after.matchTag tag secure = before.matchTag tag secure := by
  simp only [matchTag, h.valid, h.tag, h.secure]

theorem Tags.findBlock_kept {geometry : Geometry} {before after : Tags geometry}
    (h : ∀ set way, CacheBlk.LineKept (before.blks set way) (after.blks set way)) (addr : Addr)
    (secure : Bool) : after.findBlock addr secure = before.findBlock addr secure := by
  simp only [findBlock, CacheBlk.matchTag_kept (h _ _)]

namespace Cache

variable {config : CacheConfig}

/-- Only blocks changed, and each kept its replacement data in step. -/
structure Touched (before after : Cache config) : Prop where
  mshrQueue : after.mshrQueue = before.mshrQueue
  writeBuffer : after.writeBuffer = before.writeBuffer
  writeAllocator : before.writeAllocator = none → after.writeAllocator = none
  noMSHRs : after.blocked.noMSHRs = before.blocked.noMSHRs
  responses : after.responses = before.responses
  sendEvents : after.sendEvents = before.sendEvents
  nextPtr : before.nextPtr ≤ after.nextPtr
  replaceable : before.tags.Replaceable → after.tags.Replaceable

/-- Moreover every line is kept. -/
structure Kept (before after : Cache config) : Prop extends Touched before after where
  lines : ∀ set way, CacheBlk.LineKept (before.tags.blks set way) (after.tags.blks set way)

theorem Touched.refl (cache : Cache config) : Touched cache cache :=
  ⟨rfl, rfl, id, rfl, rfl, rfl, le_rfl, id⟩

theorem Touched.trans {a b c : Cache config} (hab : Touched a b) (hbc : Touched b c) :
    Touched a c :=
  ⟨hbc.mshrQueue.trans hab.mshrQueue, hbc.writeBuffer.trans hab.writeBuffer,
    fun h => hbc.writeAllocator (hab.writeAllocator h), hbc.noMSHRs.trans hab.noMSHRs,
    hbc.responses.trans hab.responses, hbc.sendEvents.trans hab.sendEvents,
    hab.nextPtr.trans hbc.nextPtr, fun h => hbc.replaceable (hab.replaceable h)⟩

theorem Kept.refl (cache : Cache config) : Kept cache cache :=
  ⟨Touched.refl cache, fun _ _ => .refl _⟩

theorem Kept.trans {a b c : Cache config} (hab : Kept a b) (hbc : Kept b c) : Kept a c :=
  ⟨hab.toTouched.trans hbc.toTouched, fun set way => (hab.lines set way).trans (hbc.lines set way)⟩

/-- A change that leaves tags, queues, flags and logs as they are. -/
theorem Kept.of_same {before after : Cache config} (hqueue : after.mshrQueue = before.mshrQueue)
    (hbuffer : after.writeBuffer = before.writeBuffer)
    (hallocator : before.writeAllocator = none → after.writeAllocator = none)
    (hblocked : after.blocked.noMSHRs = before.blocked.noMSHRs)
    (hresponses : after.responses = before.responses)
    (hevents : after.sendEvents = before.sendEvents) (hptr : before.nextPtr ≤ after.nextPtr)
    (htags : after.tags = before.tags) : Kept before after :=
  ⟨⟨hqueue, hbuffer, hallocator, hblocked, hresponses, hevents, hptr, by rw [htags]; exact id⟩,
    fun set way => by rw [htags]; exact .refl _⟩

theorem setBlk_touched (cache : Cache config) (ref : BlkRef config.geometry) (blk : CacheBlk)
    (hvalid : blk.valid = (cache.getBlk ref).valid)
    (hrepl : blk.replValid = (cache.getBlk ref).replValid) :
    Touched cache (cache.setBlk ref blk) := by
  cases ref with
  | temp => exact ⟨rfl, rfl, id, rfl, rfl, rfl, le_rfl, id⟩
  | slot set way =>
      refine ⟨rfl, rfl, id, rfl, rfl, rfl, le_rfl, ?_⟩
      intro hreplaceable other way'
      simp only [setBlk, Tags.setBlk_blks]
      split
      · rw [hvalid, hrepl]
        exact hreplaceable set way
      · exact hreplaceable other way'

theorem setBlk_kept (cache : Cache config) (ref : BlkRef config.geometry) {blk : CacheBlk}
    (h : CacheBlk.LineKept (cache.getBlk ref) blk) : Kept cache (cache.setBlk ref blk) := by
  refine ⟨setBlk_touched cache ref blk h.valid h.replValid, ?_⟩
  cases ref with
  | temp => exact fun _ _ => .refl _
  | slot set way =>
      intro other way'
      simp only [setBlk, Tags.setBlk_blks]
      split
      · rename_i heq
        rw [heq.1, heq.2]
        exact h
      · exact .refl _

theorem setCoherenceBits_kept {cache next : Cache config} {ref : BlkRef config.geometry}
    {bit : CoherenceBit} (h : cache.setCoherenceBits ref bit = .ok next) : Kept cache next := by
  simp only [setCoherenceBits, map_eq_ok] at h
  obtain ⟨blk, hblk, rfl⟩ := h
  exact setBlk_kept cache ref (CacheBlk.setCoherenceBits_kept hblk)

/-- Setting a bit of a block of the tag store. -/
theorem setCoherenceBits_slot {cache next : Cache config} {set : Fin config.geometry.numSets}
    {way : Fin config.geometry.assoc} {bit : CoherenceBit}
    (h : cache.setCoherenceBits (.slot set way) bit = .ok next) :
    (cache.tags.blks set way).setCoherenceBits bit = .ok (next.tags.blks set way) := by
  simp only [Cache.setCoherenceBits, map_eq_ok] at h
  obtain ⟨blk, hblk, rfl⟩ := h
  simp only [setBlk, Tags.setBlk_blks, and_self, ↓reduceIte]
  exact hblk

theorem setCoherenceBits_bit {blk next : CacheBlk} {bit : CoherenceBit}
    (h : blk.setCoherenceBits bit = .ok next) :
    (bit = .readableBit → next.readable = true) ∧ (bit = .writableBit → next.writable = true) := by
  simp only [CacheBlk.setCoherenceBits, bind_eq_ok, check_eq_ok, exists_const, pure_eq_ok] at h
  obtain ⟨-, rfl⟩ := h
  cases bit with
  | writableBit => simp
  | readableBit => simp
  | dirtyBit => simp

theorem clearCoherenceBits_touched (cache : Cache config) (ref : BlkRef config.geometry)
    (bit : CoherenceBit) : Touched cache (cache.clearCoherenceBits ref bit) := by
  apply setBlk_touched
  · cases bit <;> rfl
  · cases bit <;> rfl

theorem newPtr_kept (cache : Cache config) : Kept cache cache.newPtr.2 :=
  .of_same rfl rfl id rfl rfl rfl (Nat.le_succ _) rfl

/-- `allocateBlock` always returns the victim, into which the packet's block was
inserted. -/
theorem allocateBlock_eq_ok {cache next : Cache config} {pkt : Packet}
    {writebacks writebacks' : List Packet} {random : Fin config.geometry.assoc}
    {found : Option (BlkRef config.geometry)}
    (h : cache.allocateBlock pkt writebacks random = .ok (found, next, writebacks')) :
    found = some (.slot (config.geometry.extractSet pkt.addr)
      (cache.tags.findVictim pkt.addr random)) ∧ writebacks' = writebacks ∧
      ∃ tags, cache.tags.insertBlock pkt (cache.tags.findVictim pkt.addr random) = .ok tags ∧
        next = { cache with tags } := by
  simp only [allocateBlock, handleEvictions, Bool.not_true, Bool.false_eq_true, ↓reduceIte,
    bind_eq_ok, pure_eq_ok, Prod.mk.injEq] at h
  obtain ⟨tags, htags, hfound, hnext, hwritebacks⟩ := h
  exact ⟨hfound.symm, hwritebacks.symm, tags, htags, hnext.symm⟩

theorem allocateBlock_touched {cache next : Cache config} {pkt : Packet}
    {writebacks writebacks' : List Packet} {random : Fin config.geometry.assoc}
    {found : Option (BlkRef config.geometry)}
    (h : cache.allocateBlock pkt writebacks random = .ok (found, next, writebacks')) :
    Touched cache next := by
  obtain ⟨-, -, tags, htags, rfl⟩ := allocateBlock_eq_ok h
  obtain ⟨-, blk, rfl, hvalid, hrepl, -, -⟩ := Tags.insertBlock_eq_ok htags
  refine ⟨rfl, rfl, id, rfl, rfl, rfl, le_rfl, ?_⟩
  intro hreplaceable other way
  simp only [Tags.setBlk_blks]
  split
  · rw [hvalid, hrepl]
  · exact hreplaceable other way

theorem fillTarget_touched {cache next : Cache config} {pkt : Packet}
    {blk : Option (BlkRef config.geometry)} {writebacks writebacks' : List Packet}
    {allocate : Bool} {random : Fin config.geometry.assoc} {ref : BlkRef config.geometry}
    (h : cache.fillTarget pkt blk writebacks allocate random = .ok (ref, next, writebacks')) :
    Touched cache next := by
  unfold fillTarget at h
  split at h
  · cases h
    exact .refl cache
  · simp only [bind_eq_ok, check_eq_ok, exists_const] at h
    obtain ⟨-, ⟨found, middle, wbs⟩, hallocate, h⟩ := h
    have hmiddle : Touched cache middle := by
      split at hallocate
      · exact allocateBlock_touched hallocate
      · cases hallocate
        exact .refl cache
    cases found with
    | some ref =>
        simp only [pure_eq_ok, Prod.mk.injEq] at h
        rw [← h.2.1]
        exact hmiddle
    | none =>
        simp only [bind_eq_ok, pure_eq_ok, Prod.mk.injEq] at h
        obtain ⟨temp, -, -, rfl, -⟩ := h
        exact hmiddle.trans ⟨rfl, rfl, id, rfl, rfl, rfl, le_rfl, id⟩

theorem passWritable_kept {cache next : Cache config} {pkt : Packet}
    {ref : BlkRef config.geometry} (h : cache.passWritable pkt ref = .ok next) :
    Kept cache next := by
  unfold passWritable at h
  split at h
  · cases h
    exact .refl cache
  · simp only [bind_eq_ok] at h
    obtain ⟨writable, hwritable, h⟩ := h
    have hkept := setCoherenceBits_kept hwritable
    split at h
    · simp only [bind_eq_ok, check_eq_ok, exists_const, pure_eq_ok] at h
      obtain ⟨dirty, hdirty, -, rfl⟩ := h
      exact hkept.trans (setCoherenceBits_kept hdirty)
    · rw [pure_eq_ok] at h
      exact h ▸ hkept

/-- A successful fill: the target, then the readable bit, then what the
response passes on. -/
theorem handleFill_eq_ok {cache next : Cache config} {pkt : Packet}
    {blk : Option (BlkRef config.geometry)} {writebacks writebacks' : List Packet}
    {allocate : Bool} {random : Fin config.geometry.assoc} {ref : BlkRef config.geometry}
    (h : cache.handleFill pkt blk writebacks allocate random = .ok (ref, next, writebacks')) :
    ∃ target readable, cache.fillTarget pkt blk writebacks allocate random =
        .ok (ref, target, writebacks') ∧ (target.getBlk ref).secure = pkt.isSecure ∧
      target.setCoherenceBits ref .readableBit = .ok readable ∧
      readable.passWritable pkt ref = .ok next := by
  simp only [handleFill, updateBlockData, ite_self, bind_eq_ok, check_eq_ok, exists_const,
    pure_eq_ok, Prod.mk.injEq, beq_iff_eq] at h
  obtain ⟨-, -, conflict, -, -, ⟨ref', target, wbs⟩, htarget, -, hsecure, -, readable, hreadable,
    -, final, hfinal, -, rfl, rfl, rfl⟩ := h
  exact ⟨target, readable, htarget, hsecure, hreadable, hfinal⟩

theorem handleFill_touched {cache next : Cache config} {pkt : Packet}
    {blk : Option (BlkRef config.geometry)} {writebacks writebacks' : List Packet}
    {allocate : Bool} {random : Fin config.geometry.assoc} {ref : BlkRef config.geometry}
    (h : cache.handleFill pkt blk writebacks allocate random = .ok (ref, next, writebacks')) :
    Touched cache next := by
  obtain ⟨target, readable, htarget, -, hreadable, hnext⟩ := handleFill_eq_ok h
  have htouched := (fillTarget_touched htarget).trans (setCoherenceBits_kept hreadable).toTouched
  exact htouched.trans (passWritable_kept hnext).toTouched

theorem fillFromResponse_touched {cache next : Cache config} {index : Fin config.mshrs}
    {pkt : Packet} {random : Fin config.geometry.assoc}
    {blk : Option (BlkRef config.geometry)} {writebacks : List Packet}
    (h : cache.fillFromResponse index pkt random = .ok (blk, next, writebacks)) :
    Touched cache next := by
  simp only [fillFromResponse, bind_eq_ok, check_eq_ok, exists_const] at h
  obtain ⟨-, h⟩ := h
  split at h
  · simp only [bind_eq_ok, pure_eq_ok, Prod.mk.injEq] at h
    obtain ⟨⟨ref, filled, wbs⟩, hfill, -, rfl, -⟩ := h
    exact handleFill_touched hfill
  · simp only [pure_eq_ok, Prod.mk.injEq] at h
    exact h.2.1 ▸ .refl cache

/-- A read response fills, unless it is an error or was only forwarded; the line
is kept when the MSHR asks for it. -/
theorem fillFromResponse_read {cache next : Cache config} {index : Fin config.mshrs}
    {pkt : Packet} {random : Fin config.geometry.assoc}
    {blk : Option (BlkRef config.geometry)} {writebacks : List Packet}
    (hread : pkt.cmd.isRead = true) (hinvalidate : pkt.cmd.isInvalidate = false)
    (h : cache.fillFromResponse index pkt random = .ok (blk, next, writebacks)) :
    ((!(cache.mshrQueue.entries index).isForward && !pkt.cmd.isError) = true ∧
      ∃ ref, blk = some ref ∧
        cache.handleFill pkt (cache.findBlock pkt.addr pkt.isSecure) []
          (cache.mshrQueue.entries index).allocOnFill random = .ok (ref, next, writebacks)) ∨
    ((!(cache.mshrQueue.entries index).isForward && !pkt.cmd.isError) = false ∧
      blk = cache.findBlock pkt.addr pkt.isSecure ∧ next = cache) := by
  simp only [fillFromResponse, bind_eq_ok, check_eq_ok, exists_const, hread, Bool.true_or,
    Bool.and_true] at h
  obtain ⟨hcheck, h⟩ := h
  have hpartial : (cache.mshrQueue.entries index).wasWholeLineWrite = false := by
    simpa [hinvalidate] using hcheck
  split at h
  · next hfill =>
      simp only [bind_eq_ok, pure_eq_ok, Prod.mk.injEq] at h
      obtain ⟨⟨ref, filled, wbs⟩, hhandle, rfl, rfl, rfl⟩ := h
      refine .inl ⟨hfill, ref, rfl, ?_⟩
      -- the write allocator is asked about whole-line writes only
      cases hallocator : cache.writeAllocator with
      | none => simpa [hallocator] using hhandle
      | some allocator => simpa [hallocator, hpartial] using hhandle
  · next hfill =>
      simp only [pure_eq_ok, Prod.mk.injEq] at h
      exact .inr ⟨by simpa using hfill, h.1.symm, h.2.1.symm⟩

/-- Evicting the temporary block leaves the tag store alone. -/
theorem evictBlock_temp_kept {cache next : Cache config} {writebacks writebacks' : List Packet}
    (h : cache.evictBlock .temp writebacks = .ok (next, writebacks')) : Kept cache next := by
  unfold evictBlock at h
  split at h
  · simp only [writebackBlk, invalidateBlock, bind_eq_ok, check_eq_ok, exists_const, pure_eq_ok,
      Prod.mk.injEq] at h
    obtain ⟨⟨pkt, written⟩, ⟨-, -, -, rfl⟩, rfl, -⟩ := h
    exact .of_same rfl rfl id rfl rfl rfl (Nat.le_succ _) rfl
  · simp only [invalidateBlock, pure_eq_ok, Prod.mk.injEq] at h
    exact h.1 ▸ .refl cache

theorem setPrefetched_kept (cache : Cache config) (blk : Option (BlkRef config.geometry)) :
    Kept cache (cache.setPrefetched blk) := by
  cases blk with
  | none => exact .refl cache
  | some ref => exact setBlk_kept cache ref ⟨rfl, rfl, rfl, rfl, id, id⟩

theorem clearPrefetched_kept (cache : Cache config) (blk : Option (BlkRef config.geometry)) :
    Kept cache (cache.clearPrefetched blk) := by
  unfold clearPrefetched
  split
  · split
    · exact setBlk_kept cache _ ⟨rfl, rfl, rfl, rfl, id, id⟩
    · exact .refl cache
  · exact .refl cache

theorem accessBlock_kept (cache : Cache config) (pkt : Packet) :
    Kept cache (cache.accessBlock pkt).2 := by
  unfold accessBlock
  split
  · exact .refl cache
  · exact setBlk_kept cache _ ⟨rfl, rfl, rfl, rfl, id, id⟩

theorem reopenLine_kept {cache next : Cache config} {pkt : Packet}
    (h : cache.reopenLine pkt = .ok next) : Kept cache next := by
  unfold reopenLine at h
  split at h
  · cases h
    exact .refl cache
  · split at h
    · cases h
    · simp only [bind_eq_ok, check_eq_ok, exists_const] at h
      obtain ⟨-, -, readable, hreadable, hwritable⟩ := h
      exact (setCoherenceBits_kept hreadable).trans (setCoherenceBits_kept hwritable)

theorem closeLine_touched {cache next : Cache config} {pkt : Packet}
    {blk : Option (BlkRef config.geometry)} (h : cache.closeLine pkt blk = .ok next) :
    Touched cache next ∧ (blk = none → next = cache) := by
  cases blk with
  | none =>
      cases h
      exact ⟨.refl cache, fun _ => rfl⟩
  | some ref =>
      simp only [closeLine] at h
      split at h
      · cases h
        exact ⟨.refl cache, fun _ => rfl⟩
      · simp only [bind_eq_ok, check_eq_ok, exists_const, pure_eq_ok] at h
        obtain ⟨-, -, -, rfl⟩ := h
        exact ⟨clearCoherenceBits_touched cache _ _, by simp⟩

theorem updateWriteMode_kept (cache : Cache config) (pkt : Packet) :
    Kept cache (cache.updateWriteMode pkt) := by
  unfold updateWriteMode
  split
  · exact .refl cache
  · rename_i allocator hallocator
    split
    · exact .of_same rfl rfl (by simp [hallocator]) rfl rfl rfl le_rfl rfl
    · exact .refl cache

theorem coalesceDelay_kept (cache : Cache config) (index : Fin config.mshrs) (pkt : Packet) :
    Kept cache (cache.coalesceDelay index pkt).2 := by
  unfold coalesceDelay
  split
  · exact .refl cache
  · rename_i allocator hallocator
    split
    · dsimp only
      split
      · exact .of_same rfl rfl (by simp [hallocator]) rfl rfl rfl le_rfl rfl
      · exact .of_same rfl rfl (by simp [hallocator]) rfl rfl rfl le_rfl rfl
    · exact .refl cache

theorem unblockTargets_kept (cache : Cache config) (index : Fin config.mshrs) :
    Kept cache (cache.unblockTargets index) := by
  unfold unblockTargets
  split
  · exact .of_same rfl rfl id rfl rfl rfl le_rfl rfl
  · exact .refl cache

theorem createMissPacket_eq_ok {cache next : Cache config} {cpuPkt pkt : Packet}
    {blk : Option (BlkRef config.geometry)}
    (h : cache.createMissPacket cpuPkt blk = .ok (pkt, next)) :
    pkt = (Packet.ofBlock cache.nextPtr cpuPkt.req .readReq config.blkSize).allocate ∧
      Kept cache next := by
  simp only [createMissPacket, newPtr, bind_eq_ok, check_eq_ok, exists_const, pure_eq_ok,
    Prod.mk.injEq] at h
  obtain ⟨-, -, -, rfl, rfl⟩ := h
  exact ⟨rfl, newPtr_kept cache⟩

/-- Nothing ever enters the write buffer, so the lookups find nothing. -/
theorem findMatch_writeBuffer {cache : Cache config} (hempty : cache.writeBuffer.allocatedList = [])
    (addr : Addr) (secure ignoreUncacheable : Bool) :
    cache.writeBuffer.findMatch addr secure ignoreUncacheable = .ok none := by
  rw [Queue.findMatch, hempty]
  rfl

theorem meetWriteBuffer_eq {cache : Cache config} (hempty : cache.writeBuffer.allocatedList = [])
    (pkt : Packet) : cache.meetWriteBuffer pkt = .ok (false, cache) := by
  unfold meetWriteBuffer
  split
  · rfl
  · rw [findMatch_writeBuffer hempty]
    rfl

theorem writebackTarget_touched {cache next : Cache config} {pkt : Packet}
    {blk found : Option (BlkRef config.geometry)} {random : Fin config.geometry.assoc}
    {writebacks : List Packet}
    (h : cache.writebackTarget pkt blk random = .ok (found, next, writebacks)) :
    Touched cache next := by
  unfold writebackTarget at h
  split at h
  · cases h
    exact .refl cache
  · simp only [bind_eq_ok] at h
    obtain ⟨⟨allocated, middle, wbs⟩, hallocate, h⟩ := h
    have hmiddle := allocateBlock_touched hallocate
    split at h
    · simp only [pure_eq_ok, Prod.mk.injEq] at h
      exact h.2.1 ▸ hmiddle
    · simp only [bind_eq_ok, pure_eq_ok, Prod.mk.injEq] at h
      obtain ⟨readable, hreadable, -, rfl, -⟩ := h
      exact hmiddle.trans (setCoherenceBits_kept hreadable).toTouched

/-- Optionally setting a bit. -/
theorem setCoherenceBits_if_kept {cache next : Cache config} {ref : BlkRef config.geometry}
    {bit : CoherenceBit} {condition : Bool}
    (h : (if condition then cache.setCoherenceBits ref bit else .ok cache) = .ok next) :
    Kept cache next := by
  split at h
  · exact setCoherenceBits_kept h
  · cases h
    exact .refl cache

theorem accessWriteback_touched {cache : Cache config} {pkt : Packet}
    {blk : Option (BlkRef config.geometry)} {random : Fin config.geometry.assoc}
    {accessed : Accessed config} (h : cache.accessWriteback pkt blk random = .ok accessed) :
    Touched cache accessed.cache := by
  simp only [accessWriteback, bind_eq_ok, check_eq_ok, exists_const] at h
  obtain ⟨-, pending, -, h⟩ := h
  split at h
  · rw [pure_eq_ok] at h
    exact h ▸ .refl cache
  · rw [bind_eq_ok] at h
    obtain ⟨⟨found, target, wbs⟩, htarget, h⟩ := h
    have htouched := writebackTarget_touched htarget
    cases found with
    | none =>
        rw [pure_eq_ok] at h
        exact h ▸ htouched
    | some ref =>
        simp only [updateBlockData, bind_eq_ok, check_eq_ok, exists_const, pure_eq_ok] at h
        obtain ⟨dirty, hdirty, writable, hwritable, -, rfl⟩ := h
        have hkept : Kept dirty writable := by
          split at hwritable
          · cases hwritable
            exact .refl dirty
          · exact setCoherenceBits_kept hwritable
        exact htouched.trans ((setCoherenceBits_if_kept hdirty).trans hkept).toTouched

/-- A plain access changes no block, only the request of a failed conditional store. -/
theorem accessLine_eq_ok {cache : Cache config} {pkt : Packet}
    {blk : Option (BlkRef config.geometry)} {accessed : Accessed config}
    (h : cache.accessLine pkt blk = .ok accessed) :
    accessed.cache = cache ∧ accessed.blk = blk ∧
      (pkt.cmd.isLLSC = false → accessed.pkt = pkt ∧
        cache.permits pkt blk = .ok accessed.satisfied) := by
  simp only [accessLine, satisfyRequest, bind_eq_ok] at h
  obtain ⟨permitted, hpermits, h⟩ := h
  cases permitted with
  | true =>
      simp only [↓reduceIte, bind_eq_ok, check_eq_ok, exists_const, pure_eq_ok, Prod.mk.injEq,
        Prod.exists] at h
      obtain ⟨pkt', cache', ⟨-, rfl, rfl⟩, rfl⟩ := h
      exact ⟨rfl, rfl, fun _ => ⟨rfl, hpermits⟩⟩
  | false =>
      simp only [Bool.false_eq_true, ↓reduceIte] at h
      split at h
      · rename_i hconditional
        rw [pure_eq_ok] at h
        subst h
        refine ⟨rfl, rfl, ?_⟩
        intro hllsc
        simp [hllsc] at hconditional
      · rw [pure_eq_ok] at h
        subst h
        exact ⟨rfl, rfl, fun _ => ⟨rfl, hpermits⟩⟩

theorem accessBase_touched {cache : Cache config} (hempty : cache.writeBuffer.allocatedList = [])
    {pkt : Packet} {random : Fin config.geometry.assoc} {accessed : Accessed config}
    (h : cache.accessBase pkt random = .ok accessed) : Touched cache accessed.cache := by
  have hblock := accessBlock_kept cache pkt
  simp only [accessBase, bind_eq_ok, check_eq_ok, exists_const] at h
  obtain ⟨-, -, ⟨absorbed, met⟩, hmeet, h⟩ := h
  rw [meetWriteBuffer_eq (by rw [hblock.writeBuffer, hempty]), Except.ok.injEq,
    Prod.mk.injEq] at hmeet
  obtain ⟨rfl, rfl⟩ := hmeet
  simp only [Bool.false_eq_true, ↓reduceIte] at h
  split at h
  · exact hblock.toTouched.trans (accessWriteback_touched h)
  · split at h
    · rw [pure_eq_ok] at h
      exact h ▸ hblock.toTouched
    · rw [(accessLine_eq_ok h).1]
      exact hblock.toTouched

theorem access_touched {cache : Cache config} (hempty : cache.writeBuffer.allocatedList = [])
    {pkt : Packet} {random : Fin config.geometry.assoc} {accessed : Accessed config}
    (h : cache.access pkt random = .ok accessed) : Touched cache accessed.cache := by
  simp only [access, bind_eq_ok] at h
  obtain ⟨base, hbase, h⟩ := h
  have htouched := accessBase_touched hempty hbase
  split at h
  · split at h
    · cases h
    · simp only [bind_eq_ok, pure_eq_ok] at h
      obtain ⟨writable, hwritable, rfl⟩ := h
      exact htouched.trans (setCoherenceBits_kept hwritable).toTouched
  · rw [pure_eq_ok] at h
    exact h ▸ htouched

end Cache

end KuiperCache
