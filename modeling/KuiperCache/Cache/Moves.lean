import KuiperCache.Cache.Sound

/-! What the cache can do, whatever is asked of it.  Blocks get and lose bits, count
references, may be marked as prefetched, and take a line while they are invalid;
the order counter counts up and the write allocator adapts.  Queues, flags and logs
change in any way, and packets get new identities. -/
namespace KuiperCache.Cache

open Checked

variable {config : CacheConfig}

/-- A preorder that admits what is done to the blocks, apart from setting the dirty
bit and marking prefetched lines, and whatever is done to the queues, flags and logs. -/
structure Quiet (R : Cache config → Cache config → Prop) : Prop where
  refl : ∀ cache, R cache cache
  trans : ∀ {a b c}, R a b → R b c → R a c
  besides : ∀ {before after}, after.tags = before.tags →
    after.tempBlock.blk = before.tempBlock.blk → after.order = before.order →
    after.writeAllocator = before.writeAllocator → before.nextPtr ≤ after.nextPtr → R before after
  setReadable : ∀ cache ref, R cache (cache.setBlk ref { cache.getBlk ref with readable := true })
  setWritable : ∀ cache ref, R cache (cache.setBlk ref { cache.getBlk ref with writable := true })
  clear : ∀ cache ref bit, R cache (cache.clearCoherenceBits ref bit)
  count : ∀ cache ref, R cache
    (cache.setBlk ref { cache.getBlk ref with refCount := (cache.getBlk ref).refCount + 1 })
  tag : ∀ cache ref tag secure, (cache.getBlk ref).valid = false → R cache
    (cache.setBlk ref { cache.getBlk ref with
      valid := true, tag, secure := (cache.getBlk ref).secure || secure })
  insert : ∀ cache ref tag secure srcRequestorId taskId, (cache.getBlk ref).valid = false →
    R cache (cache.setBlk ref { cache.getBlk ref with
      valid := true, tag, secure := (cache.getBlk ref).secure || secure, srcRequestorId, taskId
      refCount := (cache.getBlk ref).refCount + 1, replValid := true })

/-- It also admits the marks of prefetched lines. -/
structure Moves (R : Cache config → Cache config → Prop) : Prop extends Quiet R where
  mark : ∀ cache ref mark, R cache
    (cache.setBlk ref { cache.getBlk ref with prefetched := mark })

/-- It also admits setting the dirty bit. -/
def Dirties (R : Cache config → Cache config → Prop) : Prop :=
  ∀ cache ref, R cache (cache.setBlk ref { cache.getBlk ref with dirty := true })

/-- It also admits counting up. -/
def Counts (R : Cache config → Cache config → Prop) : Prop :=
  ∀ cache, R cache { cache with order := cache.order + 1 }

/-- It also admits a new state of the write allocator. -/
def Adapts (R : Cache config → Cache config → Prop) : Prop :=
  ∀ cache writeAllocator, R cache { cache with writeAllocator }

variable {R : Cache config → Cache config → Prop}

theorem Quiet.setCoherenceBits (hR : Quiet R) {cache next : Cache config}
    {ref : BlkRef config.geometry} {bit : CoherenceBit} (hbit : bit = .dirtyBit → Dirties R)
    (h : cache.setCoherenceBits ref bit = .ok next) : R cache next := by
  simp only [Cache.setCoherenceBits, map_eq_ok, CacheBlk.setCoherenceBits, bind_eq_ok, check_eq_ok,
    exists_const, pure_eq_ok] at h
  obtain ⟨blk, ⟨-, rfl⟩, rfl⟩ := h
  cases bit with
  | writableBit => exact hR.setWritable cache ref
  | readableBit => exact hR.setReadable cache ref
  | dirtyBit => exact hbit rfl cache ref

theorem Quiet.readable (hR : Quiet R) {cache next : Cache config}
    {ref : BlkRef config.geometry} (h : cache.setCoherenceBits ref .readableBit = .ok next) :
    R cache next := hR.setCoherenceBits (fun hbit => by cases hbit) h

theorem Quiet.writable (hR : Quiet R) {cache next : Cache config}
    {ref : BlkRef config.geometry} (h : cache.setCoherenceBits ref .writableBit = .ok next) :
    R cache next := hR.setCoherenceBits (fun hbit => by cases hbit) h

theorem Quiet.allocateBlock (hR : Quiet R) {cache next : Cache config} {pkt : Packet}
    {writebacks writebacks' : List Packet} {random : Fin config.geometry.assoc}
    {found : Option (BlkRef config.geometry)}
    (h : cache.allocateBlock pkt writebacks random = .ok (found, next, writebacks')) :
    R cache next := by
  obtain ⟨-, -, tags, htags, rfl⟩ := allocateBlock_eq_ok h
  simp only [Tags.insertBlock, CacheBlk.insert, CacheBlk.insertTag, bind_eq_ok, check_eq_ok,
    exists_const, pure_eq_ok, Bool.not_eq_true'] at htags
  obtain ⟨hinvalid, -, ⟨-, ⟨-, rfl⟩, rfl⟩, rfl⟩ := htags
  exact hR.insert cache (.slot _ _) _ _ _ _ hinvalid

/-! Responses. -/

theorem Quiet.fillTarget (hR : Quiet R) {cache next : Cache config} {pkt : Packet}
    {blk : Option (BlkRef config.geometry)} {writebacks writebacks' : List Packet}
    {allocate : Bool} {random : Fin config.geometry.assoc} {ref : BlkRef config.geometry}
    (h : cache.fillTarget pkt blk writebacks allocate random = .ok (ref, next, writebacks')) :
    R cache next := by
  unfold Cache.fillTarget at h
  split at h
  · cases h
    exact hR.refl cache
  · simp only [bind_eq_ok, check_eq_ok, exists_const] at h
    obtain ⟨-, ⟨found, middle, wbs⟩, hallocate, h⟩ := h
    have hmiddle : R cache middle := by
      split at hallocate
      · exact hR.allocateBlock hallocate
      · cases hallocate
        exact hR.refl cache
    cases found with
    | some ref =>
        simp only [pure_eq_ok, Prod.mk.injEq] at h
        exact h.2.1 ▸ hmiddle
    | none =>
        simp only [CacheBlk.insertTag, bind_eq_ok, check_eq_ok, exists_const, pure_eq_ok,
          Prod.mk.injEq, Bool.not_eq_true'] at h
        obtain ⟨temp, ⟨hinvalid, rfl⟩, -, rfl, -⟩ := h
        exact hR.trans hmiddle
          (hR.trans (hR.tag middle .temp _ _ hinvalid) (hR.besides rfl rfl rfl rfl le_rfl))

theorem Quiet.passWritable (hR : Quiet R) {cache next : Cache config} {pkt : Packet}
    {ref : BlkRef config.geometry} (hdirty : pkt.cacheResponding = true → Dirties R)
    (h : cache.passWritable pkt ref = .ok next) : R cache next := by
  unfold Cache.passWritable at h
  split at h
  · cases h
    exact hR.refl cache
  · simp only [bind_eq_ok] at h
    obtain ⟨writable, hwritable, h⟩ := h
    have hwritable := hR.writable hwritable
    split at h
    · rename_i hresponding
      simp only [bind_eq_ok, check_eq_ok, exists_const, pure_eq_ok] at h
      obtain ⟨dirty, hset, -, rfl⟩ := h
      exact hR.trans hwritable (hR.setCoherenceBits (fun _ => hdirty hresponding) hset)
    · rw [pure_eq_ok] at h
      exact h ▸ hwritable

theorem Quiet.fillFromResponse (hR : Quiet R) {cache next : Cache config}
    {index : Fin config.mshrs} {pkt : Packet} {random : Fin config.geometry.assoc}
    {blk : Option (BlkRef config.geometry)} {writebacks : List Packet}
    (hdirty : pkt.cacheResponding = true → Dirties R)
    (h : cache.fillFromResponse index pkt random = .ok (blk, next, writebacks)) :
    R cache next := by
  simp only [Cache.fillFromResponse, bind_eq_ok, check_eq_ok, exists_const] at h
  obtain ⟨-, h⟩ := h
  split at h
  · simp only [bind_eq_ok, pure_eq_ok, Prod.mk.injEq] at h
    obtain ⟨⟨ref, filled, wbs⟩, hfill, -, rfl, -⟩ := h
    obtain ⟨target, readable, htarget, -, hreadable, hnext⟩ := handleFill_eq_ok hfill
    exact hR.trans (hR.fillTarget htarget)
      (hR.trans (hR.readable hreadable) (hR.passWritable hdirty hnext))
  · simp only [pure_eq_ok, Prod.mk.injEq] at h
    exact h.2.1 ▸ hR.refl cache

theorem Quiet.evictBlock (hR : Quiet R) {cache next : Cache config}
    {ref : BlkRef config.geometry} {writebacks writebacks' : List Packet}
    (h : cache.evictBlock ref writebacks = .ok (next, writebacks')) : R cache next := by
  unfold Cache.evictBlock at h
  split at h
  · simp only [writebackBlk, invalidateBlock, bind_eq_ok, check_eq_ok, exists_const, pure_eq_ok,
      Prod.mk.injEq] at h
    obtain ⟨⟨written, cleared⟩, ⟨-, -, -, rfl⟩, rfl, -⟩ := h
    have hfresh : R cache cache.newPtr.2 := hR.besides rfl rfl rfl rfl (Nat.le_succ _)
    exact hR.trans hfresh (hR.trans (hR.clear _ ref .writableBit) (hR.clear _ ref .dirtyBit))
  · simp only [invalidateBlock, pure_eq_ok, Prod.mk.injEq] at h
    exact h.1 ▸ hR.refl cache

theorem Quiet.promoteTargets (hR : Quiet R) {cache next : Cache config}
    {index : Fin config.mshrs} {pkt : Packet} {blk : Option (BlkRef config.geometry)}
    (h : cache.promoteTargets index pkt blk = .ok next) : R cache next := by
  unfold Cache.promoteTargets at h
  split at h
  · cases h
    exact hR.refl cache
  · simp only [bind_eq_ok] at h
    obtain ⟨middle, hmiddle, h⟩ := h
    have hmiddle : R cache middle := by
      split at hmiddle
      · simp only [bind_eq_ok, pure_eq_ok] at hmiddle
        obtain ⟨readable, hbits, mshr, -, rfl⟩ := hmiddle
        exact hR.trans (hR.readable hbits) (hR.besides rfl rfl rfl rfl le_rfl)
      · cases hmiddle
        exact hR.refl cache
    split at h
    · simp only [bind_eq_ok, pure_eq_ok] at h
      obtain ⟨mshr, -, rfl⟩ := h
      exact hR.trans hmiddle (hR.besides rfl rfl rfl rfl le_rfl)
    · rw [pure_eq_ok] at h
      exact h ▸ hmiddle

theorem Moves.serviceMSHRTargets (hR : Moves R) {cache next : Cache config}
    {index : Fin config.mshrs} {pkt : Packet} {blk : Option (BlkRef config.geometry)}
    (h : cache.serviceMSHRTargets index pkt blk = .ok next) : R cache next := by
  simp only [Cache.serviceMSHRTargets, bind_eq_ok, check_eq_ok, exists_const, pure_eq_ok] at h
  obtain ⟨-, -, ⟨ready, left⟩, -, serviced, hserviced, -, rfl⟩ := h
  obtain ⟨answers, -, hcache⟩ := serviceTargets_eq_ok hserviced
  have hserviced : R cache serviced.cache := by
    rw [hcache]
    exact hR.besides rfl rfl rfl rfl le_rfl
  split
  · refine hR.trans hserviced ?_
    cases blk with
    | none => exact hR.refl _
    | some ref => exact hR.mark _ ref true
  · exact hserviced

theorem mshrFreed_besides (cache : Cache config) (mshrQueue : MshrQueue config.mshrs) :
    (cache.mshrFreed mshrQueue).tags = cache.tags ∧
      (cache.mshrFreed mshrQueue).tempBlock = cache.tempBlock ∧
      (cache.mshrFreed mshrQueue).order = cache.order ∧
      (cache.mshrFreed mshrQueue).writeAllocator = cache.writeAllocator ∧
      cache.nextPtr ≤ (cache.mshrFreed mshrQueue).nextPtr := by
  unfold mshrFreed
  dsimp only
  split
  · split <;> exact ⟨rfl, rfl, rfl, rfl, le_rfl⟩
  · split <;> exact ⟨rfl, rfl, rfl, rfl, le_rfl⟩

theorem Quiet.retireMSHR (hR : Quiet R) {cache next : Cache config} {index : Fin config.mshrs}
    {blk : Option (BlkRef config.geometry)} {writebacks writebacks' : List Packet}
    (h : cache.retireMSHR index blk writebacks = .ok (next, writebacks')) :
    R cache next := by
  unfold Cache.retireMSHR at h
  split at h
  · cases h
    exact hR.refl cache
  · simp only [bind_eq_ok] at h
    obtain ⟨⟨promoted, mshr⟩, -, retired, hretired, h⟩ := h
    have hedited : R cache
        { cache with mshrQueue := cache.mshrQueue.setEntry index mshr } :=
      hR.besides rfl rfl rfl rfl le_rfl
    have hretired : R cache retired := by
      split at hretired
      · simp only [bind_eq_ok, pure_eq_ok] at hretired
        obtain ⟨mshrQueue, -, rfl⟩ := hretired
        cases blk with
        | none => exact hR.trans hedited (hR.besides rfl rfl rfl rfl le_rfl)
        | some ref =>
            have hcleared :=
              hR.trans hedited (hR.clear _ ref .readableBit)
            exact hR.trans hcleared (hR.besides rfl rfl rfl rfl le_rfl)
      · simp only [freeMSHR, bind_eq_ok, pure_eq_ok] at hretired
        obtain ⟨mshrQueue, -, rfl⟩ := hretired
        obtain ⟨htags, htemp, horder, hallocator, hptr⟩ := mshrFreed_besides
          { cache with mshrQueue := cache.mshrQueue.setEntry index mshr } mshrQueue
        exact hR.trans hedited (hR.besides htags (by rw [htemp]) horder hallocator hptr)
    split at h
    · exact hR.trans hretired (hR.evictBlock h)
    · simp only [pure_eq_ok, Prod.mk.injEq] at h
      exact h.1 ▸ hretired

/-- A response taken apart: it is ignored, or it fills its line and serves its MSHR. -/
theorem recvTimingResp_stages {cache next : Cache config} {pkt : Packet}
    {random : Fin config.geometry.assoc} (h : cache.recvTimingResp pkt random = .ok next) :
    (pkt.cmd.isWrite = true ∧ next = cache) ∨
      ∃ index blk filled writebacks promoted serviced dropped,
        popMSHR pkt = .ok index ∧
        (cache.unblockTargets index).fillFromResponse index pkt random =
          .ok (blk, filled, writebacks) ∧
        filled.promoteTargets index pkt blk = .ok promoted ∧
        promoted.serviceMSHRTargets index pkt blk = .ok serviced ∧
        serviced.retireMSHR index blk writebacks = .ok (next, dropped) := by
  obtain ⟨-, -, -, h⟩ := recvTimingResp_base h
  simp only [recvTimingRespBase, bind_eq_ok, check_eq_ok, exists_const] at h
  obtain ⟨-, -, h⟩ := h
  split at h
  · rename_i hwrite
    simp only [bind_eq_ok, check_eq_ok, exists_const, pure_eq_ok] at h
    rw [Bool.and_eq_true] at hwrite
    exact .inl ⟨hwrite.1, h.2.symm⟩
  · simp only [bind_eq_ok, pure_eq_ok] at h
    obtain ⟨index, hpop, -, -, ⟨blk, filled, writebacks⟩, hfill, promoted, hpromote, serviced,
      hservice, ⟨retired, dropped⟩, hretire, rfl⟩ := h
    exact .inr ⟨index, blk, filled, writebacks, promoted, serviced, dropped, hpop, hfill, hpromote,
      hservice, hretire⟩

theorem Quiet.unblockTargets (hR : Quiet R) (cache : Cache config) (index : Fin config.mshrs) :
    R cache (cache.unblockTargets index) := by
  unfold Cache.unblockTargets
  split <;> exact hR.besides rfl rfl rfl rfl le_rfl

theorem Moves.recvTimingResp (hR : Moves R) {cache next : Cache config} {pkt : Packet}
    {random : Fin config.geometry.assoc} (hdirty : pkt.cacheResponding = true → Dirties R)
    (h : cache.recvTimingResp pkt random = .ok next) : R cache next := by
  obtain ⟨-, rfl⟩ | ⟨index, blk, filled, writebacks, promoted, serviced, dropped, -, hfill,
    hpromote, hservice, hretire⟩ := recvTimingResp_stages h
  · exact hR.refl next
  · have hfilled := hR.trans (hR.unblockTargets cache index) (hR.fillFromResponse hdirty hfill)
    have hserviced := hR.trans (hR.promoteTargets hpromote) (hR.serviceMSHRTargets hservice)
    exact hR.trans hfilled (hR.trans hserviced (hR.retireMSHR hretire))

/-- The response built for a packet that was answered has no owner above. -/
theorem Moves.handleTimingRes (hR : Moves R) {cache next : Cache config} {pkt : Packet}
    {random : Fin config.geometry.assoc} (h : cache.handleTimingRes pkt random = .ok next) :
    R cache next := by
  have hfresh : R cache cache.newPtr.2 := hR.besides rfl rfl rfl rfl (Nat.le_succ _)
  exact hR.trans hfresh (hR.recvTimingResp (fun hresponding => by cases hresponding) h)

/-! Requests. -/

theorem Quiet.reopenLine (hR : Quiet R) {cache next : Cache config} {pkt : Packet}
    (h : cache.reopenLine pkt = .ok next) : R cache next := by
  unfold Cache.reopenLine at h
  split at h
  · cases h
    exact hR.refl cache
  · split at h
    · cases h
    · simp only [bind_eq_ok, check_eq_ok, exists_const] at h
      obtain ⟨-, -, readable, hreadable, hwritable⟩ := h
      exact hR.trans (hR.readable hreadable) (hR.writable hwritable)

theorem Quiet.accessWriteback (hR : Quiet R) {cache : Cache config} {pkt : Packet}
    {blk : Option (BlkRef config.geometry)} {random : Fin config.geometry.assoc}
    {accessed : Accessed config} (hdirty : pkt.cmd = .writebackDirty → Dirties R)
    (h : cache.accessWriteback pkt blk random = .ok accessed) :
    R cache accessed.cache := by
  simp only [Cache.accessWriteback, bind_eq_ok, check_eq_ok, exists_const] at h
  obtain ⟨-, pending, -, h⟩ := h
  split at h
  · rw [pure_eq_ok] at h
    exact h ▸ hR.refl cache
  · rw [bind_eq_ok] at h
    obtain ⟨⟨found, target, wbs⟩, htarget, h⟩ := h
    have hkept : R cache target := by
      unfold writebackTarget at htarget
      split at htarget
      · cases htarget
        exact hR.refl cache
      · simp only [bind_eq_ok] at htarget
        obtain ⟨⟨allocated, middle, wbs'⟩, hallocate, htarget⟩ := htarget
        have hmiddle := hR.allocateBlock hallocate
        split at htarget
        · simp only [pure_eq_ok, Prod.mk.injEq] at htarget
          exact htarget.2.1 ▸ hmiddle
        · simp only [bind_eq_ok, pure_eq_ok, Prod.mk.injEq] at htarget
          obtain ⟨readable, hreadable, -, rfl, -⟩ := htarget
          exact hR.trans hmiddle (hR.readable hreadable)
    cases found with
    | none =>
        rw [pure_eq_ok] at h
        exact h ▸ hkept
    | some ref =>
        simp only [updateBlockData, bind_eq_ok, check_eq_ok, exists_const, pure_eq_ok] at h
        obtain ⟨dirty, hset, writable, hwritable, -, rfl⟩ := h
        have hset : R target dirty := by
          split at hset
          · rename_i hcmd
            exact hR.setCoherenceBits (fun _ => hdirty (by simpa using hcmd)) hset
          · cases hset
            exact hR.refl target
        have hwritable : R dirty writable := by
          split at hwritable
          · cases hwritable
            exact hR.refl dirty
          · exact hR.writable hwritable
        exact hR.trans hkept (hR.trans hset hwritable)

theorem Quiet.access (hR : Quiet R) {cache : Cache config}
    (hempty : cache.writeBuffer.allocatedList = []) {pkt : Packet}
    {random : Fin config.geometry.assoc} {accessed : Accessed config}
    (hdirty : pkt.cmd = .writebackDirty → Dirties R)
    (h : cache.access pkt random = .ok accessed) : R cache accessed.cache := by
  simp only [Cache.access, bind_eq_ok] at h
  obtain ⟨base, hbase, h⟩ := h
  have hblock : R cache (cache.accessBlock pkt).2 := by
    unfold accessBlock
    split
    · exact hR.refl cache
    · exact hR.count cache _
  have hbase : R cache base.cache := by
    simp only [accessBase, bind_eq_ok, check_eq_ok, exists_const] at hbase
    obtain ⟨-, -, ⟨absorbed, met⟩, hmeet, hbase⟩ := hbase
    rw [meetWriteBuffer_eq (by rw [(accessBlock_kept cache pkt).writeBuffer, hempty]),
      Except.ok.injEq, Prod.mk.injEq] at hmeet
    obtain ⟨rfl, rfl⟩ := hmeet
    simp only [Bool.false_eq_true, ↓reduceIte] at hbase
    split at hbase
    · exact hR.trans hblock (hR.accessWriteback hdirty hbase)
    · split at hbase
      · rw [pure_eq_ok] at hbase
        exact hbase ▸ hblock
      · rw [(accessLine_eq_ok hbase).1]
        exact hblock
  split at h
  · split at h
    · cases h
    · simp only [bind_eq_ok, pure_eq_ok] at h
      obtain ⟨writable, hwritable, rfl⟩ := h
      exact hR.trans hbase (hR.writable hwritable)
  · rw [pure_eq_ok] at h
    exact h ▸ hbase

theorem Quiet.allocateMissBuffer (hR : Quiet R) (hcounts : Counts R)
    {cache next : Cache config} {pkt : Packet}
    {time : Tick} {schedSend : Bool} {index : Fin config.mshrs}
    (h : cache.allocateMissBuffer pkt time schedSend = .ok (index, next)) :
    R cache next := by
  simp only [Cache.allocateMissBuffer, bind_eq_ok, pure_eq_ok, Prod.mk.injEq] at h
  obtain ⟨⟨index', mshrQueue⟩, -, -, rfl⟩ := h
  refine hR.trans (hcounts cache) ?_
  unfold missBufferAllocated
  dsimp only
  split
  · split <;> exact hR.besides rfl rfl rfl rfl le_rfl
  · split <;> exact hR.besides rfl rfl rfl rfl le_rfl

theorem Quiet.lockLine (hR : Quiet R) (hcounts : Counts R)
    {cache next : Cache config} {pkt : Packet}
    {blk : Option (BlkRef config.geometry)} (h : cache.lockLine pkt blk = .ok next) :
    R cache next := by
  simp only [Cache.lockLine, bind_eq_ok, check_eq_ok, exists_const] at h
  obtain ⟨-, -, -, ⟨index, missed⟩, hallocate, marked, hmark, h⟩ := h
  obtain ⟨mshrQueue, -, rfl⟩ := markInService_eq_ok hmark
  have hfresh : R cache cache.newPtr.2 := hR.besides rfl rfl rfl rfl (Nat.le_succ _)
  have hmissed := hR.trans hfresh (hR.allocateMissBuffer hcounts hallocate)
  cases blk with
  | none => cases h
  | some ref =>
      rw [pure_eq_ok] at h
      rw [← h]
      have hcleared := hR.trans (hR.clear { missed with mshrQueue } ref
        .readableBit) (hR.clear _ ref .writableBit)
      have hmarked : R missed { missed with mshrQueue } := hR.besides rfl rfl rfl rfl le_rfl
      exact hR.trans (hR.trans hmissed hmarked) hcleared

theorem Quiet.handleTimingReqHit (hR : Quiet R) (hcounts : Counts R)
    {cache next : Cache config} {pkt : Packet}
    {blk : Option (BlkRef config.geometry)} {random : Fin config.geometry.assoc}
    (h : cache.handleTimingReqHit pkt blk random = .ok next) : R cache next := by
  simp only [Cache.handleTimingReqHit, bind_eq_ok] at h
  obtain ⟨locked, hlocked, h⟩ := h
  have hlocked : R cache locked := by
    split at hlocked
    · cases hlocked
      exact hR.refl cache
    · split at hlocked
      · exact hR.lockLine hcounts hlocked
      · exact absurd hlocked (unlockLine_fails cache locked pkt random)
  split at h
  · simp only [bind_eq_ok, pure_eq_ok] at h
    obtain ⟨resp, -, rfl⟩ := h
    exact hR.trans hlocked (hR.besides rfl rfl rfl rfl le_rfl)
  · rw [pure_eq_ok] at h
    exact h ▸ hR.trans hlocked (hR.besides rfl rfl rfl rfl le_rfl)

theorem Quiet.coalesce (hR : Quiet R) (hcounts : Counts R)
    {cache next : Cache config} {pkt : Packet}
    {index : Fin config.mshrs} (h : cache.coalesce pkt index = .ok next) :
    R cache next := by
  simp only [Cache.coalesce, bind_eq_ok, check_eq_ok, exists_const] at h
  obtain ⟨-, h⟩ := h
  split at h
  · rw [pure_eq_ok] at h
    exact h ▸ hR.besides rfl rfl rfl rfl le_rfl
  · split at h
    · exact absurd h (allocateWriteBuffer_fails cache next pkt curTick)
    · simp only [bind_eq_ok, pure_eq_ok] at h
      obtain ⟨mshr, -, rfl⟩ := h
      refine hR.trans (hcounts cache) ?_
      split <;> exact hR.besides rfl rfl rfl rfl le_rfl

theorem Quiet.closeLine (hR : Quiet R) {cache next : Cache config} {pkt : Packet}
    {blk : Option (BlkRef config.geometry)} (h : cache.closeLine pkt blk = .ok next) :
    R cache next := by
  cases blk with
  | none =>
      cases h
      exact hR.refl cache
  | some ref =>
      simp only [Cache.closeLine] at h
      split at h
      · cases h
        exact hR.refl cache
      · simp only [bind_eq_ok, check_eq_ok, exists_const, pure_eq_ok] at h
        obtain ⟨-, -, -, rfl⟩ := h
        exact hR.clear cache ref _

theorem Quiet.startMiss (hR : Quiet R) (hcounts : Counts R)
    {cache next : Cache config} {pkt : Packet}
    {blk : Option (BlkRef config.geometry)} (h : cache.startMiss pkt blk = .ok next) :
    R cache next := by
  unfold Cache.startMiss at h
  split at h
  · exact absurd h (allocateWriteBuffer_fails cache next pkt curTick)
  · simp only [bind_eq_ok, pure_eq_ok] at h
    obtain ⟨closed, hclose, ⟨index, missed⟩, hallocate, rfl⟩ := h
    exact hR.trans (hR.closeLine hclose) (hR.allocateMissBuffer hcounts hallocate)

theorem Quiet.updateWriteMode (hR : Quiet R) (hadapts : Adapts R) (cache : Cache config)
    (pkt : Packet) : R cache (cache.updateWriteMode pkt) := by
  unfold Cache.updateWriteMode
  split
  · exact hR.refl cache
  · split
    · exact hadapts cache _
    · exact hR.refl cache

theorem Quiet.handleTimingReqMiss (hR : Quiet R) (hcounts : Counts R) (hadapts : Adapts R)
    {cache next : Cache config} {pkt : Packet}
    {blk : Option (BlkRef config.geometry)} (h : cache.handleTimingReqMiss pkt blk = .ok next) :
    R cache next := by
  simp only [Cache.handleTimingReqMiss, bind_eq_ok, check_eq_ok, exists_const] at h
  obtain ⟨found, -, -, h⟩ := h
  have hmode := hR.updateWriteMode hadapts cache pkt
  cases found with
  | none => exact hR.trans hmode (hR.startMiss hcounts h)
  | some index => exact hR.trans hmode (hR.coalesce hcounts h)

theorem Moves.clearPrefetched (hR : Moves R) (cache : Cache config)
    (blk : Option (BlkRef config.geometry)) : R cache (cache.clearPrefetched blk) := by
  unfold Cache.clearPrefetched
  split
  · split
    · exact hR.mark _ _ false
    · exact hR.refl _
  · exact hR.refl _

/-- A request taken apart: until it is known to hit or to miss only blocks change. -/
theorem recvTimingReq_parts {cache next : Cache config}
    (hempty : cache.writeBuffer.allocatedList = []) {pkt : Packet}
    {random : Fin config.geometry.assoc} (h : cache.recvTimingReq pkt random = .ok next) :
    ∃ (reopened : Cache config) (accessed : Accessed config) (handled : Cache config),
      (pkt.cmd ≠ .lockedRMWWriteReq → reopened = cache) ∧
      reopened.access pkt random = .ok accessed ∧
      Touched cache accessed.cache ∧
      (∀ R : Cache config → Cache config → Prop, Quiet R →
        (pkt.cmd = .writebackDirty → Dirties R) → R cache accessed.cache) ∧
      (if accessed.satisfied then
        (accessed.cache.clearPrefetched accessed.blk).handleTimingReqHit accessed.pkt accessed.blk
          random = .ok handled
      else accessed.cache.handleTimingReqMiss accessed.pkt accessed.blk = .ok handled) ∧
      next = if config.hasPrefetcher then handled.schedMemSideSendEvent else handled := by
  simp only [Cache.recvTimingReq, bind_eq_ok, check_eq_ok, exists_const, pure_eq_ok] at h
  obtain ⟨-, -, reopened, hreopen, accessed, haccess, handled, hhandled, hnext⟩ := h
  have hkept := reopenLine_kept hreopen
  have hempty' : reopened.writeBuffer.allocatedList = [] := by
    rw [hkept.writeBuffer, hempty]
  refine ⟨reopened, accessed, handled, ?_, haccess,
    hkept.toTouched.trans (access_touched hempty' haccess), ?_, ?_, hnext.symm⟩
  · intro hcmd
    rw [Cache.reopenLine, if_pos (bne_iff_ne.mpr hcmd), Except.ok.injEq] at hreopen
    exact hreopen.symm
  · intro R hR hdirty
    exact hR.trans (hR.reopenLine hreopen) (hR.access hempty' hdirty haccess)
  · cases hsatisfied : accessed.satisfied with
    | true => simpa only [hsatisfied, ↓reduceIte] using hhandled
    | false => simpa only [hsatisfied, Bool.false_eq_true, ↓reduceIte] using hhandled

theorem Moves.recvTimingReq (hR : Moves R) (hcounts : Counts R) (hadapts : Adapts R)
    {cache next : Cache config} (hempty : cache.writeBuffer.allocatedList = []) {pkt : Packet}
    {random : Fin config.geometry.assoc} (hdirty : pkt.cmd = .writebackDirty → Dirties R)
    (h : cache.recvTimingReq pkt random = .ok next) : R cache next := by
  obtain ⟨reopened, accessed, handled, -, -, -, hquiet, hhandled, rfl⟩ :=
    recvTimingReq_parts hempty h
  have haccessed := hquiet R hR.toQuiet hdirty
  have hhandled : R accessed.cache handled := by
    split at hhandled
    · exact hR.trans (hR.clearPrefetched _ _) (hR.handleTimingReqHit hcounts hhandled)
    · exact hR.handleTimingReqMiss hcounts hadapts hhandled
  split
  · exact hR.trans (hR.trans haccessed hhandled) (hR.besides rfl rfl rfl rfl le_rfl)
  · exact hR.trans haccessed hhandled

/-- What had to hold for a prefetch to take an MSHR. -/
structure PrefetchStarted (cache next : Cache config) (pkt : Packet)
    (index : Fin config.mshrs) : Prop where
  hasPrefetcher : config.hasPrefetcher = true
  room : cache.mshrQueue.canPrefetch = true
  unblocked : cache.blocked.any = false
  idle : cache.mshrQueue.getNext curTick = none
  uncached : cache.findBlock (pkt.getBlockAddr config.blkSize) pkt.isSecure = none
  unasked : cache.mshrQueue.findMatch (pkt.getBlockAddr config.blkSize) pkt.isSecure true = .ok none
  allocated : cache.allocateMissBuffer pkt curTick false = .ok (index, next)

/-- Choosing an entry changes nothing, unless a prefetch takes an MSHR. -/
theorem getNextQueueEntry_parts {cache next : Cache config}
    (hready : cache.writeBuffer.readyList = []) {prefetch : Option Packet}
    {entry : Option (EntryRef config)} (h : cache.getNextQueueEntry prefetch = .ok (entry, next)) :
    (next = cache ∧ entry = (cache.mshrQueue.getNext curTick).map .miss) ∨
      ∃ pkt index, prefetch = some pkt ∧ entry = some (.miss index) ∧
        PrefetchStarted cache next pkt index := by
  simp only [Cache.getNextQueueEntry, getNext_writeBuffer hready] at h
  cases hmiss : cache.mshrQueue.getNext curTick with
  | some index =>
      simp only [hmiss, nextMiss, findPending_writeBuffer hready, ok_bind, pure_eq_ok,
        Prod.mk.injEq] at h
      exact .inl ⟨h.2.symm, h.1.symm⟩
  | none =>
      simp only [hmiss] at h
      split at h
      · rename_i hmay
        simp only [Bool.and_eq_true, Bool.not_eq_true'] at hmay
        cases prefetch with
        | none =>
            simp only [Except.ok.injEq, Prod.mk.injEq] at h
            exact .inl ⟨h.2.symm, h.1.symm⟩
        | some pkt =>
            obtain ⟨rfl, hsame⟩ | ⟨index, hchosen, hblock, hfound, -, hallocate⟩ :=
              allocatePrefetch_cases h
            · exact .inl ⟨hsame, rfl⟩
            · exact .inr ⟨pkt, index, rfl, hchosen,
                hmay.1.1, hmay.1.2, hmay.2, hmiss, hblock, hfound, hallocate⟩
      · simp only [Except.ok.injEq, Prod.mk.injEq] at h
        exact .inl ⟨h.2.symm, h.1.symm⟩

theorem Quiet.getNextQueueEntry (hR : Quiet R) (hcounts : Counts R) {cache next : Cache config}
    (hready : cache.writeBuffer.readyList = []) {prefetch : Option Packet}
    {entry : Option (EntryRef config)} (h : cache.getNextQueueEntry prefetch = .ok (entry, next)) :
    R cache next := by
  obtain ⟨rfl, -⟩ | ⟨pkt, index, -, -, hstarted⟩ := getNextQueueEntry_parts hready h
  · exact hR.refl next
  · exact hR.allocateMissBuffer hcounts hstarted.allocated

/-- Building the packet for an entry first asks the write allocator, with the packet of
its first target. -/
theorem Quiet.issueMSHR_parts (hR : Quiet R) {cache next : Cache config}
    {index : Fin config.mshrs} {sent : Option Packet}
    (h : cache.issueMSHR index = .ok (sent, next)) :
    ∃ target, (cache.mshrQueue.entries index).getTarget = .ok target ∧
      R (cache.coalesceDelay index target.pkt).2 next := by
  simp only [issueMSHR, bind_eq_ok] at h
  obtain ⟨target, htarget, h⟩ := h
  refine ⟨target, htarget, ?_⟩
  split at h
  · simp only [pure_eq_ok, Prod.mk.injEq] at h
    exact h.2 ▸ hR.refl _
  · simp only [createMissPacket, bind_eq_ok, check_eq_ok, exists_const, pure_eq_ok,
      Prod.mk.injEq] at h
    obtain ⟨⟨pkt, created⟩, ⟨-, -, -, -, rfl⟩, -, rfl⟩ := h
    exact hR.besides rfl rfl rfl rfl (Nat.le_succ _)

/-- What is done with the packet does not touch the allocator any more. -/
theorem Moves.sendMSHRQueuePacket_parts (hR : Moves R) {cache next : Cache config}
    {index : Fin config.mshrs} {reply : Option (List UInt8)} {random : Fin config.geometry.assoc}
    {waiting : Bool} {flight : Option Packet}
    (h : cache.sendMSHRQueuePacket index reply random = .ok (waiting, next, flight)) :
    ∃ target, (cache.mshrQueue.entries index).getTarget = .ok target ∧
      R (cache.coalesceDelay index target.pkt).2 next := by
  obtain ⟨-, hissue⟩ | ⟨sent, issued, hissue, hreply⟩ := sendMSHRQueuePacket_issued h
  · exact hR.issueMSHR_parts hissue
  · obtain ⟨target, htarget, hissued⟩ := hR.issueMSHR_parts hissue
    refine ⟨target, htarget, hR.trans hissued ?_⟩
    obtain ⟨data, -, -, hres⟩ | ⟨-, -, modified, hmarked⟩ := hreply
    · exact hR.handleTimingRes hres
    · obtain ⟨mshrQueue, -, rfl⟩ := markInService_eq_ok hmarked
      exact hR.besides rfl rfl rfl rfl le_rfl

theorem Quiet.coalesceDelay (hR : Quiet R) (hadapts : Adapts R) (cache : Cache config)
    (index : Fin config.mshrs) (pkt : Packet) : R cache (cache.coalesceDelay index pkt).2 := by
  unfold Cache.coalesceDelay
  dsimp only
  split
  · exact hR.refl cache
  · split
    · split <;> exact hadapts cache _
    · exact hR.refl cache

theorem Moves.sendMSHRQueuePacket (hR : Moves R) (hadapts : Adapts R) {cache next : Cache config}
    {index : Fin config.mshrs} {reply : Option (List UInt8)} {random : Fin config.geometry.assoc}
    {waiting : Bool} {flight : Option Packet}
    (h : cache.sendMSHRQueuePacket index reply random = .ok (waiting, next, flight)) :
    R cache next := by
  obtain ⟨target, -, hsent⟩ := hR.sendMSHRQueuePacket_parts h
  exact hR.trans (hR.coalesceDelay hadapts cache index target.pkt) hsent

/-- What depends on the order counter and the write allocator alone stays. -/
theorem moves_of_view {α : Type} (view : Nat → Option WriteAllocator → α) :
    Moves fun before after : Cache config =>
      view after.order after.writeAllocator = view before.order before.writeAllocator := by
  have hblk : ∀ (cache : Cache config) ref blk, (cache.setBlk ref blk).order = cache.order ∧
      (cache.setBlk ref blk).writeAllocator = cache.writeAllocator := by
    intro cache ref blk
    cases ref <;> exact ⟨rfl, rfl⟩
  have hset : ∀ (cache : Cache config) ref blk,
      view (cache.setBlk ref blk).order (cache.setBlk ref blk).writeAllocator =
        view cache.order cache.writeAllocator := by
    intro cache ref blk
    rw [(hblk cache ref blk).1, (hblk cache ref blk).2]
  exact
    { refl := fun _ => rfl
      trans := fun hab hbc => hbc.trans hab
      besides := fun _ _ horder hallocator _ => by rw [horder, hallocator]
      setReadable := fun cache ref => hset cache ref _
      setWritable := fun cache ref => hset cache ref _
      clear := fun cache ref _ => hset cache ref _
      count := fun cache ref => hset cache ref _
      mark := fun cache ref _ => hset cache ref _
      tag := fun cache ref _ _ _ => hset cache ref _
      insert := fun cache ref _ _ _ _ _ => hset cache ref _ }

def SameOrder (before after : Cache config) : Prop := after.order = before.order

theorem sameOrder_moves : Moves (@SameOrder config) := moves_of_view fun order _ => order

theorem sameOrder_adapts : Adapts (@SameOrder config) := fun _ _ => rfl

theorem sameOrder_dirties : Dirties (@SameOrder config) := by
  intro cache ref
  cases ref <;> rfl

def SameAllocator (before after : Cache config) : Prop :=
  after.writeAllocator = before.writeAllocator

theorem sameAllocator_moves : Moves (@SameAllocator config) :=
  moves_of_view fun _ writeAllocator => writeAllocator

theorem sameAllocator_counts : Counts (@SameAllocator config) := fun _ => rfl

theorem sameAllocator_dirties : Dirties (@SameAllocator config) := by
  intro cache ref
  cases ref <;> rfl

/-- Identities are given out once. -/
def Newer (before after : Cache config) : Prop := before.nextPtr ≤ after.nextPtr

theorem setBlk_newer (cache : Cache config) (ref : BlkRef config.geometry) (blk : CacheBlk) :
    Newer cache (cache.setBlk ref blk) := by
  cases ref <;> exact le_refl cache.nextPtr

theorem newer_moves : Moves (@Newer config) where
  refl cache := le_refl cache.nextPtr
  trans hab hbc := le_trans (α := Nat) hab hbc
  besides _ _ _ _ hptr := hptr
  setReadable cache ref := setBlk_newer cache ref _
  setWritable cache ref := setBlk_newer cache ref _
  clear cache ref _ := setBlk_newer cache ref _
  count cache ref := setBlk_newer cache ref _
  mark cache ref _ := setBlk_newer cache ref _
  tag cache ref _ _ _ := setBlk_newer cache ref _
  insert cache ref _ _ _ _ _ := setBlk_newer cache ref _

theorem newer_counts : Counts (@Newer config) := fun cache => le_refl cache.nextPtr

theorem newer_adapts : Adapts (@Newer config) := fun cache _ => le_refl cache.nextPtr

theorem newer_dirties : Dirties (@Newer config) := fun cache ref => setBlk_newer cache ref _

end KuiperCache.Cache
