import KuiperCache.Cache.Response

/-! The request side: access, hit and miss handling, and the choice of the next
entry to send. -/
namespace KuiperCache.Cache

open Checked

variable {config : CacheConfig}

/-- What `access` reports: the packet may have changed, and the writebacks it
collects are dropped by its caller. -/
structure Accessed (config : CacheConfig) where
  satisfied : Bool
  blk : Option (BlkRef config.geometry)
  pkt : Packet
  cache : Cache config
  writebacks : List Packet

/-- Look the packet up; a hit counts as a reference. -/
def accessBlock (cache : Cache config) (pkt : Packet) :
    Option (BlkRef config.geometry) × Cache config :=
  match cache.findBlock pkt.addr pkt.isSecure with
  | none => (none, cache)
  | some ref =>
      let blk := cache.getBlk ref
      (some ref, cache.setBlk ref { blk with refCount := blk.refCount + 1 })

/-- An eviction meets a writeback of its block in the write buffer: a clean one
is absorbed, a dirty one replaces it.  Returns whether the packet is done. -/
def meetWriteBuffer (cache : Cache config) (pkt : Packet) :
    Except Assertion (Bool × Cache config) :=
  if !pkt.cmd.isEviction then .ok (false, cache)
  else do
    match ← cache.writeBuffer.findMatch pkt.addr pkt.isSecure true with
    | none => pure (false, cache)
    | some index => do
        let entry := cache.writeBuffer.entries index
        check (entry.getNumTargets == 1) .multipleWriteTargets
        let target ← entry.getTarget
        check target.pkt.cmd.isWriteback .writebackExpected
        if pkt.cmd.isCleanEviction then
          let cleared := { target with pkt := { target.pkt with blockCached := false } }
          pure (true, { cache with writeBuffer :=
            cache.writeBuffer.setEntry index { entry with targets := [cleared] } })
        else do
          check (pkt.cmd == .writebackDirty) .writebackExpected
          let cache ← cache.markWriteInService index
          pure (false, cache)

/-- The block a writeback goes to, allocated and readable if it was absent. -/
def writebackTarget (cache : Cache config) (pkt : Packet)
    (blk : Option (BlkRef config.geometry)) (random : Fin config.geometry.assoc) :
    Except Assertion (Option (BlkRef config.geometry) × Cache config × List Packet) :=
  match blk with
  | some ref => .ok (some ref, cache, [])
  | none => do
      let (found, cache, writebacks) ← cache.allocateBlock pkt [] random
      match found with
      | none => pure (none, cache, writebacks)
      | some ref => do
          let cache ← cache.setCoherenceBits ref .readableBit
          pure (some ref, cache, writebacks)

def accessWriteback (cache : Cache config) (pkt : Packet)
    (blk : Option (BlkRef config.geometry)) (random : Fin config.geometry.assoc) :
    Except Assertion (Accessed config) := do
  check (config.blkSize == pkt.size) .blockSizeExpected
  let pending ← (if pkt.cmd == .writebackClean then
      cache.mshrQueue.findMatch pkt.addr pkt.isSecure true
    else .ok none)
  if pending.isSome then
    pure { satisfied := true, blk, pkt, cache, writebacks := [] }
  else do
    let hasOldData := blk.any fun ref => (cache.getBlk ref).valid
    match ← cache.writebackTarget pkt blk random with
    | (none, cache, writebacks) =>
        pure { satisfied := false, blk := none, pkt, cache, writebacks }
    | (some ref, cache, writebacks) => do
        let cache ← (if pkt.cmd == .writebackDirty then cache.setCoherenceBits ref .dirtyBit
          else .ok cache)
        let cache ← (if pkt.hasSharers then .ok cache
          else cache.setCoherenceBits ref .writableBit)
        check (!pkt.cmd.needsResponse) .needsNoResponse
        pure { satisfied := true, blk := some ref, pkt,
               cache := cache.updateBlockData ref pkt hasOldData, writebacks }

/-- Whether the block found has the permission the packet needs. -/
def permits (cache : Cache config) (pkt : Packet) (blk : Option (BlkRef config.geometry)) :
    Except Assertion Bool :=
  match blk with
  | none => .ok false
  | some ref => do
      let needsWritable ← pkt.needsWritable
      pure ((cache.getBlk ref).isSet (if needsWritable then .writableBit else .readableBit))

/-- A read or write that neither evicts nor writes back. -/
def accessLine (cache : Cache config) (pkt : Packet) (blk : Option (BlkRef config.geometry)) :
    Except Assertion (Accessed config) := do
  if ← cache.permits pkt blk then do
    let (pkt, cache) ← cache.satisfyRequest pkt blk
    pure { satisfied := true, blk, pkt, cache, writebacks := [] }
  else if blk.isNone && pkt.cmd.isLLSC && pkt.cmd.isWrite then
    -- a store-conditional to an absent block fails at once
    pure { satisfied := true, blk, cache, writebacks := [],
           pkt := { pkt with req := { pkt.req with extraData := 0 } } }
  else pure { satisfied := false, blk, pkt, cache, writebacks := [] }

/-- `BaseCache::access`. -/
def accessBase (cache : Cache config) (pkt : Packet) (random : Fin config.geometry.assoc) :
    Except Assertion (Accessed config) := do
  check pkt.cmd.isRequest .notARequest
  check (!(config.isReadOnly && pkt.cmd.isWrite)) .readOnlyCache
  let (blk, cache) := cache.accessBlock pkt
  let (absorbed, cache) ← cache.meetWriteBuffer pkt
  if absorbed then pure { satisfied := true, blk, pkt, cache, writebacks := [] }
  else if pkt.cmd.isWriteback then cache.accessWriteback pkt blk random
  else if pkt.cmd == .cleanEvict then
    pure { satisfied := blk.isSome, blk, pkt, cache, writebacks := [] }
  else cache.accessLine pkt blk

/-- `NoncoherentCache::access`. -/
def access (cache : Cache config) (pkt : Packet) (random : Fin config.geometry.assoc) :
    Except Assertion (Accessed config) := do
  let accessed ← cache.accessBase pkt random
  if pkt.cmd.isWriteback || pkt.cmd == .writeClean then
    match accessed.blk with
    | none => .error .blockExpected
    | some ref => do
        let cache ← accessed.cache.setCoherenceBits ref .writableBit
        pure { accessed with cache }
  else pure accessed

/-- A locked read hit fakes the MSHR that holds the line until the write. -/
def lockLine (cache : Cache config) (pkt : Packet) (blk : Option (BlkRef config.geometry)) :
    Except Assertion (Cache config) := do
  let pending ← cache.mshrQueue.findMatch (pkt.getBlockAddr config.blkSize) pkt.isSecure true
  check pending.isNone .mshrUnexpected
  let (ptr, cache) := cache.newPtr
  let (index, cache) ← cache.allocateMissBuffer (Packet.ofRequest ptr pkt.req pkt.cmd) curTick true
  let cache ← cache.markInService index false
  match blk with
  | none => .error .blockExpected
  | some ref =>
      pure ((cache.clearCoherenceBits ref .readableBit).clearCoherenceBits ref .writableBit)

/-- A locked write answers the locked read that still waits. -/
def unlockLine (cache : Cache config) (pkt : Packet) (random : Fin config.geometry.assoc) :
    Except Assertion (Cache config) := do
  check pkt.cmd.isWrite .unexpectedCommand
  match ← cache.mshrQueue.findMatch (pkt.getBlockAddr config.blkSize) pkt.isSecure true with
  | none => .error .mshrExpected
  | some index =>
      let (ptr, cache) := cache.newPtr
      cache.recvTimingResp { Packet.ofRequest ptr pkt.req .lockedRMWWriteResp with
        senderState := [.mshr index] } random

def handleTimingReqHit (cache : Cache config) (pkt : Packet)
    (blk : Option (BlkRef config.geometry)) (random : Fin config.geometry.assoc) :
    Except Assertion (Cache config) := do
  let cache ← (if !pkt.cmd.isLockedRMW then .ok cache
    else if pkt.cmd.isRead then cache.lockLine pkt blk
    else cache.unlockLine pkt random)
  if pkt.cmd.needsResponse then do
    let resp ← pkt.makeTimingResponse
    pure { cache with responses := cache.responses ++ [resp] }
  else pure { cache with pendingDelete := some pkt }

def updateWriteMode (cache : Cache config) (pkt : Packet) : Cache config :=
  match cache.writeAllocator with
  | none => cache
  | some allocator =>
      if pkt.cmd.isWrite && !pkt.req.isUncacheable then
        { cache with
          writeAllocator :=
            some (allocator.updateMode pkt.addr pkt.size (pkt.getBlockAddr config.blkSize)) }
      else cache

/-- The packet waits in an MSHR that already exists for its block. -/
def coalesce (cache : Cache config) (pkt : Packet) (index : Fin config.mshrs) :
    Except Assertion (Cache config) := do
  check (!pkt.cmd.isWriteback) .unexpectedCommand
  if pkt.cmd == .cleanEvict then pure { cache with pendingDelete := some pkt }
  else if pkt.cmd == .writeClean then cache.allocateWriteBuffer pkt curTick
  else do
    let mshr ← (cache.mshrQueue.entries index).allocateTarget pkt curTick cache.order
      (allocOnFill pkt.cmd)
    let added := { cache with
      mshrQueue := cache.mshrQueue.setEntry index mshr, order := cache.order + 1 }
    pure (if mshr.getNumTargets ≥ config.tgtsPerMshr then
        { added.setBlocked .noTargets with noTargetMSHR := some index }
      else added)

/-- A valid block that lacks the permission asked for is not readable any more
while the miss is on its way. -/
def closeLine (cache : Cache config) (pkt : Packet) :
    Option (BlkRef config.geometry) → Except Assertion (Cache config)
  | none => .ok cache
  | some ref =>
      if !(cache.getBlk ref).valid then .ok cache
      else do
        let needsWritable ← pkt.needsWritable
        check ((needsWritable && !(cache.getBlk ref).isSet .writableBit) ||
          pkt.req.isCacheMaintenance) .blockUnexpected
        pure (cache.clearCoherenceBits ref .readableBit)

/-- The packet starts a miss of its own. -/
def startMiss (cache : Cache config) (pkt : Packet) (blk : Option (BlkRef config.geometry)) :
    Except Assertion (Cache config) := do
  if pkt.cmd.isEviction then cache.allocateWriteBuffer pkt curTick
  else do
    let cache ← cache.closeLine pkt blk
    let (_, cache) ← cache.allocateMissBuffer pkt curTick true
    pure cache

/-- `NoncoherentCache::handleTimingReqMiss` and the base class version. -/
def handleTimingReqMiss (cache : Cache config) (pkt : Packet)
    (blk : Option (BlkRef config.geometry)) : Except Assertion (Cache config) := do
  let found ← cache.mshrQueue.findMatch (pkt.getBlockAddr config.blkSize) pkt.isSecure false
  check (found.isSome || blk.all fun ref => !(cache.getBlk ref).valid) .blockUnexpected
  let cache := cache.updateWriteMode pkt
  match found with
  | some index => cache.coalesce pkt index
  | none => cache.startMiss pkt blk

/-- The locked write makes its block accessible again before the access. -/
def reopenLine (cache : Cache config) (pkt : Packet) : Except Assertion (Cache config) :=
  if pkt.cmd != .lockedRMWWriteReq then .ok cache
  else match cache.findBlock pkt.addr pkt.isSecure with
    | none => .error .blockExpected
    | some ref => do
        check (cache.getBlk ref).valid .blockExpected
        check (!(cache.getBlk ref).isSet .writableBit && !(cache.getBlk ref).isSet .readableBit)
          .lockedBlock
        let cache ← cache.setCoherenceBits ref .readableBit
        cache.setCoherenceBits ref .writableBit

/-- A hit on a prefetched block uses the prefetch up. -/
def clearPrefetched (cache : Cache config) : Option (BlkRef config.geometry) → Cache config
  | some ref =>
      if config.hasPrefetcher && (cache.getBlk ref).prefetched then
        cache.setBlk ref { cache.getBlk ref with prefetched := false }
      else cache
  | none => cache

/-- `NoncoherentCache::recvTimingReq` and the base class version. -/
def recvTimingReq (cache : Cache config) (pkt : Packet) (random : Fin config.geometry.assoc) :
    Except Assertion (Cache config) := do
  check (!pkt.cacheResponding) .unexpectedCommand
  check (pkt.cmd.isRead || pkt.cmd.isWrite) .unexpectedCommand
  let cache ← cache.reopenLine pkt
  let accessed ← cache.access pkt random
  let cache ← (if accessed.satisfied then
      (accessed.cache.clearPrefetched accessed.blk).handleTimingReqHit accessed.pkt accessed.blk
        random
    else accessed.cache.handleTimingReqMiss accessed.pkt accessed.blk)
  pure (if config.hasPrefetcher then cache.schedMemSideSendEvent else cache)

/-- An entry of one of the two queues. -/
inductive EntryRef (config : CacheConfig) where
  | miss (index : Fin config.mshrs)
  | write (index : Fin (config.writeBuffers + config.mshrs))
deriving DecidableEq

/-- A prefetch is dropped when its block is cached or already asked for. -/
def allocatePrefetch (cache : Cache config) (pkt : Packet) :
    Except Assertion (Option (EntryRef config) × Cache config) := do
  let addr := pkt.getBlockAddr config.blkSize
  if (cache.findBlock addr pkt.isSecure).isSome then pure (none, cache)
  else if (← cache.mshrQueue.findMatch addr pkt.isSecure true).isSome then pure (none, cache)
  else if (← cache.writeBuffer.findMatch addr pkt.isSecure true).isSome then pure (none, cache)
  else do
    let (index, cache) ← cache.allocateMissBuffer pkt curTick false
    pure (some (.miss index), cache)

/-- A ready miss goes first, unless an earlier write to its block is pending. -/
def nextMiss (cache : Cache config) :
    Option (Fin config.mshrs) → Except Assertion (Option (EntryRef config) × Cache config)
  | none => .ok (none, cache)
  | some index => do
      match ← cache.writeBuffer.findPending (cache.mshrQueue.entries index) with
      | some conflict => pure (some (.write conflict), cache)
      | none => pure (some (.miss index), cache)

/-- `getNextQueueEntry`; `prefetch` is the packet the prefetcher would hand out. -/
def getNextQueueEntry (cache : Cache config) (prefetch : Option Packet) :
    Except Assertion (Option (EntryRef config) × Cache config) :=
  match cache.mshrQueue.getNext curTick, cache.writeBuffer.getNext curTick with
  | miss, some write =>
      if cache.writeBuffer.isFull || miss.isNone then do
        let conflict ← cache.mshrQueue.findPending (cache.writeBuffer.entries write)
        match conflict with
        | some index =>
            if (cache.mshrQueue.entries index).order < (cache.writeBuffer.entries write).order then
              pure (some (.miss index), cache)
            else pure (some (.write write), cache)
        | none => pure (some (.write write), cache)
      else cache.nextMiss miss
  | some miss, none => cache.nextMiss (some miss)
  | none, none =>
      if config.hasPrefetcher && cache.mshrQueue.canPrefetch && !cache.blocked.any then
        match prefetch with
        | some pkt => cache.allocatePrefetch pkt
        | none => .ok (none, cache)
      else .ok (none, cache)

end KuiperCache.Cache
