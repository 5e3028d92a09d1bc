import KuiperCache.Cache.State

/-! The response side: filling a block, servicing the targets of an MSHR, and
sending an MSHR downstream. -/
namespace KuiperCache.Cache

open Checked

variable {config : CacheConfig}

/-- The block a fill goes to: the one found, a newly allocated one, or the
temporary block. -/
def fillTarget (cache : Cache config) (pkt : Packet) (blk : Option (BlkRef config.geometry))
    (writebacks : List Packet) (allocate : Bool) (random : Fin config.geometry.assoc) :
    Except Assertion (BlkRef config.geometry × Cache config × List Packet) :=
  match blk with
  | some ref => .ok (ref, cache, writebacks)
  | none => do
      check (pkt.cmd.hasData || pkt.cmd == .invalidateResp) .unexpectedResponse
      let (found, cache, writebacks) ← (if allocate then
          cache.allocateBlock pkt writebacks random
        else .ok (none, cache, writebacks))
      match found with
      | some ref => pure (ref, cache, writebacks)
      | none => do
          let temp ← cache.tempBlock.blk.insertTag pkt.addr pkt.isSecure
          pure (.temp, { cache with tempBlock := { blk := temp, addr := pkt.addr } }, writebacks)

/-- A response without sharers passes a writable line, and a dirty one when a
cache responded. -/
def passWritable (cache : Cache config) (pkt : Packet) (ref : BlkRef config.geometry) :
    Except Assertion (Cache config) :=
  if pkt.hasSharers then .ok cache
  else do
    let cache ← cache.setCoherenceBits ref .writableBit
    if pkt.cacheResponding then do
      let cache ← cache.setCoherenceBits ref .dirtyBit
      check (!config.isReadOnly) .readOnlyCache
      pure cache
    else pure cache

def handleFill (cache : Cache config) (pkt : Packet) (blk : Option (BlkRef config.geometry))
    (writebacks : List Packet) (allocate : Bool) (random : Fin config.geometry.assoc) :
    Except Assertion (BlkRef config.geometry × Cache config × List Packet) := do
  check pkt.cmd.isResponse .unexpectedResponse
  let hasOldData := blk.any fun ref => (cache.getBlk ref).valid
  check (pkt.addr == pkt.getBlockAddr config.blkSize) .unalignedFill
  let conflict ← cache.writeBuffer.findMatch pkt.addr pkt.isSecure true
  check conflict.isNone .writeBufferConflict
  let (ref, cache, writebacks) ← cache.fillTarget pkt blk writebacks allocate random
  check (cache.getBlk ref).valid .blockExpected
  check ((cache.getBlk ref).secure == pkt.isSecure) .tagMismatch
  check (cache.regenerateBlkAddr ref == pkt.addr) .tagMismatch
  let cache ← cache.setCoherenceBits ref .readableBit
  check (pkt.cmd != .invalidateResp || !pkt.hasSharers) .unexpectedResponse
  let cache ← cache.passWritable pkt ref
  check (!pkt.cmd.isRead || (pkt.cmd.hasData && pkt.size == config.blkSize)) .blockSizeExpected
  pure (ref, if pkt.cmd.isRead then cache.updateBlockData ref pkt hasOldData else cache,
    writebacks)

/-- What has been seen while servicing targets. -/
structure Serviced (config : CacheConfig) where
  cache : Cache config
  fromCore : Bool
  fromPref : Bool

def serviceTarget (pkt : Packet) (blk : Option (BlkRef config.geometry))
    (serviced : Serviced config) (target : Target) : Except Assertion (Serviced config) :=
  match target.source with
  | .fromCPU => do
      let (tgtPkt, cache) ← serviced.cache.satisfyRequest target.pkt blk
      let resp ← tgtPkt.makeTimingResponse
      let resp ← (if pkt.cmd.isError then resp.copyError pkt else .ok resp)
      pure { serviced with
        cache := { cache with responses := cache.responses ++ [resp] }, fromCore := true }
  | .fromPrefetcher => do
      check (target.pkt.cmd == .hardPFReq) .hardwarePrefetchExpected
      pure { serviced with fromPref := true }
  | .fromSnoop => .error .cpuOrPrefetcherTargetExpected

def setPrefetched (cache : Cache config) : Option (BlkRef config.geometry) → Cache config
  | some ref => cache.setBlk ref { cache.getBlk ref with prefetched := true }
  | none => cache

def serviceMSHRTargets (cache : Cache config) (index : Fin config.mshrs) (pkt : Packet)
    (blk : Option (BlkRef config.geometry)) : Except Assertion (Cache config) := do
  let _ ← (cache.mshrQueue.entries index).getTarget
  let (targets, mshr) ← (cache.mshrQueue.entries index).extractServiceableTargets pkt.cmd
  let extracted := { cache with mshrQueue := cache.mshrQueue.setEntry index mshr }
  let serviced ← targets.list.foldlM (serviceTarget pkt blk)
    { cache := extracted, fromCore := false, fromPref := false }
  let cache := if !serviced.fromCore && serviced.fromPref then
      serviced.cache.setPrefetched blk
    else serviced.cache
  check (mshr.getNumTargets == 0) .targetsLeft
  pure cache

/-- The promotions of `recvTimingResp`, unless a locked read holds the line. -/
def promoteTargets (cache : Cache config) (index : Fin config.mshrs) (pkt : Packet)
    (blk : Option (BlkRef config.geometry)) : Except Assertion (Cache config) :=
  if (cache.mshrQueue.entries index).hasLockedRMWReadTarget then .ok cache
  else do
    let clean := blk.any (fun ref => (cache.getBlk ref).valid) && pkt.cmd.isClean &&
      !pkt.cmd.isInvalidate
    let cache ← (match clean, blk with
      | true, some ref => do
          let cache ← cache.setCoherenceBits ref .readableBit
          let mshr ← (cache.mshrQueue.entries index).promoteReadable
          pure { cache with mshrQueue := cache.mshrQueue.setEntry index mshr }
      | _, _ => .ok cache)
    let writable := blk.any (fun ref => (cache.getBlk ref).isSet .writableBit) &&
      !pkt.req.isCacheInvalidate
    if writable then do
      let mshr ← (cache.mshrQueue.entries index).promoteWritable
      pure { cache with mshrQueue := cache.mshrQueue.setEntry index mshr }
    else pure cache

/-- The bookkeeping after an MSHR was freed: it may unblock the cache, and make
room for a prefetch. -/
def mshrFreed (cache : Cache config) (mshrQueue : MshrQueue config.mshrs) : Cache config :=
  let freed := { cache with mshrQueue }
  let cleared := if cache.mshrQueue.isFull && !mshrQueue.isFull then freed.clearBlocked .noMSHRs
    else freed
  if config.hasPrefetcher && mshrQueue.canPrefetch && !cleared.blocked.any then
    cleared.schedMemSideSendEvent
  else cleared

/-- Free an MSHR that has nothing left to wait for. -/
def freeMSHR (cache : Cache config) (index : Fin config.mshrs) :
    Except Assertion (Cache config) := do
  let mshrQueue ← cache.mshrQueue.deallocate index
  pure (cache.mshrFreed mshrQueue)

/-- What happens to the MSHR after its targets were serviced. -/
def retireMSHR (cache : Cache config) (index : Fin config.mshrs)
    (blk : Option (BlkRef config.geometry)) (writebacks : List Packet) :
    Except Assertion (Cache config × List Packet) :=
  if (cache.mshrQueue.entries index).hasLockedRMWReadTarget then .ok (cache, writebacks)
  else do
    let (promoted, mshr) ← (cache.mshrQueue.entries index).promoteDeferredTargets curTick
    let cache := { cache with mshrQueue := cache.mshrQueue.setEntry index mshr }
    let cache ← (if promoted then do
        let mshrQueue ← cache.mshrQueue.markPending index
        let unreadable := match blk with
          | some ref => cache.clearCoherenceBits ref .readableBit
          | none => cache
        pure { unreadable with mshrQueue }
      else cache.freeMSHR index)
    if blk = some .temp && cache.tempBlock.blk.valid then
      cache.evictBlock .temp writebacks
    else pure (cache, writebacks)

/-- The MSHR on top of a response's sender-state stack. -/
def popMSHR (pkt : Packet) : Except Assertion (Fin config.mshrs) :=
  match pkt.senderState with
  | [] => .error .noSenderState
  | .other :: _ => .error .mshrExpected
  | .mshr handle :: _ =>
      if h : handle < config.mshrs then .ok ⟨handle, h⟩ else .error .mshrExpected

/-- An MSHR that had run out of targets is about to be served. -/
def unblockTargets (cache : Cache config) (index : Fin config.mshrs) : Cache config :=
  if cache.noTargetMSHR = some index then
    { cache.clearBlocked .noTargets with noTargetMSHR := none }
  else cache

/-- Fill the block if the response is a fill, otherwise keep the one found. -/
def fillFromResponse (cache : Cache config) (index : Fin config.mshrs) (pkt : Packet)
    (random : Fin config.geometry.assoc) :
    Except Assertion (Option (BlkRef config.geometry) × Cache config × List Packet) := do
  let mshr := cache.mshrQueue.entries index
  let isFill := !mshr.isForward &&
    (pkt.cmd.isRead || pkt.cmd == .upgradeResp || mshr.wasWholeLineWrite)
  check (!mshr.wasWholeLineWrite || pkt.cmd.isInvalidate) .unexpectedResponse
  let blk := cache.findBlock pkt.addr pkt.isSecure
  if isFill && !pkt.cmd.isError then do
    let allocate := match cache.writeAllocator, mshr.wasWholeLineWrite with
      | some allocator, true => allocator.allocate
      | _, _ => mshr.allocOnFill
    let (ref, cache, writebacks) ← cache.handleFill pkt blk [] allocate random
    pure (some ref, cache, writebacks)
  else pure (blk, cache, [])

/-- `BaseCache::recvTimingResp`.  The writebacks it collects are dropped: the
call that would put them into the write buffer is commented out. -/
def recvTimingRespBase (cache : Cache config) (pkt : Packet)
    (random : Fin config.geometry.assoc) : Except Assertion (Cache config) := do
  check pkt.cmd.isResponse .unexpectedResponse
  check (pkt.cmd != .hardPFResp) .unexpectedResponse
  if pkt.cmd.isWrite && pkt.cmd != .lockedRMWWriteResp then do
    check pkt.req.isUncacheable .unexpectedResponse
    pure cache
  else do
    let index ← popMSHR pkt
    let cache := cache.unblockTargets index
    let _ ← (cache.mshrQueue.entries index).getTarget
    let (blk, cache, writebacks) ← cache.fillFromResponse index pkt random
    let cache ← cache.promoteTargets index pkt blk
    let cache ← cache.serviceMSHRTargets index pkt blk
    let (cache, _) ← cache.retireMSHR index blk writebacks
    pure cache

/-- `NoncoherentCache::recvTimingResp`. -/
def recvTimingResp (cache : Cache config) (pkt : Packet) (random : Fin config.geometry.assoc) :
    Except Assertion (Cache config) := do
  check pkt.cmd.isResponse .unexpectedResponse
  check pkt.cmd.isRead .unexpectedResponse
  check (pkt.cmd != .upgradeResp) .unexpectedResponse
  check (!pkt.cmd.isInvalidate) .unexpectedResponse
  check (!pkt.hasSharers) .unexpectedResponse
  cache.recvTimingRespBase pkt random

/-- Build the response to a packet that was answered downstream, and receive it. -/
def handleTimingRes (cache : Cache config) (pkt : Packet) (random : Fin config.geometry.assoc) :
    Except Assertion (Cache config) :=
  let cmd := if pkt.cmd.isRead then MemCmd.readExResp else MemCmd.writeResp
  let (ptr, cache) := cache.newPtr
  cache.recvTimingResp { Packet.ofBlock ptr pkt.req cmd pkt.size with
    data := pkt.data, senderState := pkt.senderState } random

/-- `NoncoherentCache::createMissPacket`: always a read of the whole block. -/
def createMissPacket (cache : Cache config) (cpuPkt : Packet)
    (blk : Option (BlkRef config.geometry)) : Except Assertion (Packet × Cache config) := do
  check cpuPkt.cmd.needsResponse .needsNoResponse
  check (blk.all fun ref => !(cache.getBlk ref).valid) .blockUnexpected
  let (ptr, cache) := cache.newPtr
  let pkt := Packet.ofBlock ptr cpuPkt.req .readReq config.blkSize
  check (pkt.addr == pkt.getBlockAddr config.blkSize) .unalignedMiss
  pure (pkt.allocate, cache)

/-- Whether write coalescing holds an MSHR back, and the allocator after asking. -/
def coalesceDelay (cache : Cache config) (index : Fin config.mshrs) (tgtPkt : Packet) :
    Bool × Cache config :=
  let mshr := cache.mshrQueue.entries index
  match cache.writeAllocator with
  | none => (false, cache)
  | some allocator =>
      if allocator.coalesce && tgtPkt.cmd.isWrite then
        if mshr.isWholeLineWrite then
          (false, { cache with writeAllocator := some (allocator.resetDelay mshr.blkAddr) })
        else
          let (delayed, next) := allocator.delay mshr.blkAddr
          (delayed, { cache with
            writeAllocator := some (if delayed then next else next.reset) })
      else (false, cache)

/-- The response will be for the block itself. -/
def markIssued (cache : Cache config) (index : Fin config.mshrs) (mshr : Mshr) : Cache config :=
  { cache with mshrQueue := cache.mshrQueue.setEntry index { mshr with isForward := false } }

/-- `sendMSHRQueuePacket` up to `sendTimingReq`: the packet, unless write coalescing
holds the MSHR back. -/
def issueMSHR (cache : Cache config) (index : Fin config.mshrs) :
    Except Assertion (Option Packet × Cache config) := do
  let target ← (cache.mshrQueue.entries index).getTarget
  let (delayed, cache) := cache.coalesceDelay index target.pkt
  if delayed then pure (none, cache)
  else do
    let mshr := cache.mshrQueue.entries index
    let blk := cache.findBlock mshr.blkAddr mshr.isSecure
    let (pkt, cache) ← cache.createMissPacket target.pkt blk
    -- a miss packet is a plain read, so the branch for cleaning requests is not taken
    pure (some (pkt.pushSenderState (.mshr index)), cache.markIssued index mshr)

/-- `sendMSHRQueuePacket`.  The reply stands for `sendTimingReq`: bytes when the
request was taken and answered, `none` when it was not.  Returns the value the
source returns and the packet that is left in flight. -/
def sendMSHRQueuePacket (cache : Cache config) (index : Fin config.mshrs)
    (reply : Option (List UInt8)) (random : Fin config.geometry.assoc) :
    Except Assertion (Bool × Cache config × Option Packet) := do
  let (issued, cache) ← cache.issueMSHR index
  match issued, reply with
  | none, _ => pure (false, cache, none)
  | some sent, some data => do
      let cache ← cache.handleTimingRes { sent with data } random
      pure (true, cache, none)
  | some sent, none => do
      let cache ← cache.markInService index (!sent.hasSharers && sent.cacheResponding)
      pure (false, cache, some sent)

end KuiperCache.Cache
