import KuiperCache.Cache.WriteAllocator
import KuiperCache.Queue.Spec
import KuiperCache.Queue.WriteQueue
import KuiperCache.Tags.Tags

/-! The state of the non-coherent cache and the small operations on it. -/
namespace KuiperCache

open Checked Cells

/-- The tick counter is never written, so the current tick is always zero. -/
def curTick : Tick := 0

/-- The parameters of a cache, which has at least one MSHR, and what its two arrays hold
when they are allocated: the storage of the blocks and the data of the temporary one. -/
structure CacheConfig where
  geometry : Geometry
  mshrs : Nat
  mshrs_pos : 0 < mshrs
  writeBuffers : Nat
  demandMshrReserve : Nat
  tgtsPerMshr : Nat
  isReadOnly : Bool
  writebackClean : Bool
  hasPrefetcher : Bool
  dataBlks : Nat → UInt8
  tempData : Nat → UInt8

def CacheConfig.blkSize (config : CacheConfig) : Nat := config.geometry.blkSize

/-- The L0 cache of the simulation: 256 KiB in four ways, lines of 512 bytes, in memory
that happens to be clear. -/
def simL0Params : CacheConfig :=
  { geometry :=
      { blkBits := 9, setBits := 7, assoc := 4, blkBits_lt := by decide, setBits_lt := by decide,
        assoc_pos := by decide }
    mshrs := 12
    mshrs_pos := by decide
    writeBuffers := 12
    demandMshrReserve := 1
    tgtsPerMshr := 1
    isReadOnly := false
    writebackClean := false
    hasPrefetcher := false
    dataBlks := fun _ => 0
    tempData := fun _ => 0 }

inductive BlockedCause where
  | noMSHRs
  | noWBBuffers
  | noTargets
deriving DecidableEq, Repr

/-- The bits of `blocked`. -/
structure Blocked where
  noMSHRs : Bool
  noWBBuffers : Bool
  noTargets : Bool
deriving DecidableEq, Repr

namespace Blocked

def none : Blocked := { noMSHRs := false, noWBBuffers := false, noTargets := false }

def assign (blocked : Blocked) (value : Bool) : BlockedCause → Blocked
  | .noMSHRs => { blocked with noMSHRs := value }
  | .noWBBuffers => { blocked with noWBBuffers := value }
  | .noTargets => { blocked with noTargets := value }

def any (blocked : Blocked) : Bool :=
  blocked.noMSHRs || blocked.noWBBuffers || blocked.noTargets

end Blocked

/-- A pointer to a block: a slot of the tag store or the temporary block. -/
inductive BlkRef (geometry : Geometry) where
  | slot (set : Fin geometry.numSets) (way : Fin geometry.assoc)
  | temp
deriving DecidableEq

/-- The temporary block remembers its own address. -/
structure TempCacheBlk where
  blk : CacheBlk
  addr : Addr

/-- `responses` logs the packets turned into responses, `sendEvents` counts the
notifications of `sendEvent` and `nextPtr` is the next fresh packet identity. -/
structure Cache (config : CacheConfig) where
  mshrQueue : MshrQueue config.mshrs
  writeBuffer : WriteQueue (config.writeBuffers + config.mshrs)
  tags : Tags config.geometry
  tempBlock : TempCacheBlk
  writeAllocator : Option WriteAllocator
  blocked : Blocked
  order : Nat
  noTargetMSHR : Option (Fin config.mshrs)
  pendingDelete : Option Packet
  responses : List Packet
  sendEvents : Nat
  nextPtr : Nat

namespace Cache

variable {config : CacheConfig}

/-- The constructor; a write allocator is optional. -/
def new (config : CacheConfig) (writeAllocator : Option WriteAllocator) : Cache config :=
  { mshrQueue := MshrQueue.new config.mshrs 0 config.demandMshrReserve
    writeBuffer := Queue.new (config.writeBuffers + config.mshrs) config.mshrs
      WriteQueueEntry.empty
    tags := Tags.tagsInit config.geometry config.dataBlks
    tempBlock :=
      { blk := CacheBlk.empty (slice config.tempData 0 config.blkSize)
        addr := BitVec.allOnes 64 }
    writeAllocator
    blocked := Blocked.none
    order := 0
    noTargetMSHR := none
    pendingDelete := none
    responses := []
    sendEvents := 0
    nextPtr := 0 }

def getBlk (cache : Cache config) : BlkRef config.geometry → CacheBlk
  | .slot set way => cache.tags.blks set way
  | .temp => cache.tempBlock.blk

def setBlk (cache : Cache config) (ref : BlkRef config.geometry) (blk : CacheBlk) :
    Cache config :=
  match ref with
  | .slot set way => { cache with tags := cache.tags.setBlk set way blk }
  | .temp => { cache with tempBlock := { cache.tempBlock with blk } }

def setCoherenceBits (cache : Cache config) (ref : BlkRef config.geometry)
    (bit : CoherenceBit) : Except Assertion (Cache config) :=
  cache.setBlk ref <$> (cache.getBlk ref).setCoherenceBits bit

def clearCoherenceBits (cache : Cache config) (ref : BlkRef config.geometry)
    (bit : CoherenceBit) : Cache config :=
  cache.setBlk ref ((cache.getBlk ref).clearCoherenceBits bit)

/-- `tags->findBlock`, as a pointer. -/
def findBlock (cache : Cache config) (addr : Addr) (secure : Bool) :
    Option (BlkRef config.geometry) :=
  (cache.tags.findBlock addr secure).map (BlkRef.slot (config.geometry.extractSet addr))

def regenerateBlkAddr (cache : Cache config) : BlkRef config.geometry → Addr
  | .slot set way => cache.tags.regenerateBlkAddr set way
  | .temp => cache.tempBlock.addr

def setBlocked (cache : Cache config) (cause : BlockedCause) : Cache config :=
  { cache with blocked := cache.blocked.assign true cause }

def clearBlocked (cache : Cache config) (cause : BlockedCause) : Cache config :=
  { cache with blocked := cache.blocked.assign false cause }

/-- `sendEvent.notify()`, whatever the requested time. -/
def schedMemSideSendEvent (cache : Cache config) : Cache config :=
  { cache with sendEvents := cache.sendEvents + 1 }

/-- Take a fresh packet identity. -/
def newPtr (cache : Cache config) : Nat × Cache config :=
  (cache.nextPtr, { cache with nextPtr := cache.nextPtr + 1 })

def allocOnFill (cmd : MemCmd) : Bool :=
  cmd == .writeLineReq || cmd == .readReq || cmd == .writeReq || cmd.isPrefetch

/-- The bookkeeping after an MSHR was allocated. -/
def missBufferAllocated (cache : Cache config) (mshrQueue : MshrQueue config.mshrs)
    (schedSend : Bool) : Cache config :=
  let counted := { cache with mshrQueue, order := cache.order + 1 }
  let marked := if mshrQueue.isFull then counted.setBlocked .noMSHRs else counted
  if schedSend then marked.schedMemSideSendEvent else marked

def allocateMissBuffer (cache : Cache config) (pkt : Packet) (time : Tick) (schedSend : Bool) :
    Except Assertion (Fin config.mshrs × Cache config) := do
  let (index, mshrQueue) ← cache.mshrQueue.allocate (pkt.getBlockAddr config.blkSize)
    config.blkSize pkt time cache.order (allocOnFill pkt.cmd)
  pure (index, cache.missBufferAllocated mshrQueue schedSend)

def allocateWriteBuffer (cache : Cache config) (pkt : Packet) (time : Tick) :
    Except Assertion (Cache config) := do
  check (pkt.cmd.isWrite || pkt.cmd == .cleanEvict) .unexpectedCommand
  let blkAddr := pkt.getBlockAddr config.blkSize
  let _ ← cache.writeBuffer.findMatch blkAddr pkt.isSecure true
  let (_, writeBuffer) ← WriteQueue.allocate cache.writeBuffer blkAddr config.blkSize pkt time
    cache.order
  let counted := { cache with writeBuffer, order := cache.order + 1 }
  let marked := if writeBuffer.isFull then counted.setBlocked .noWBBuffers else counted
  pure marked.schedMemSideSendEvent

/-- Mark an MSHR in service; the queue cannot become less full by it. -/
def markInService (cache : Cache config) (index : Fin config.mshrs)
    (pendingModifiedResp : Bool) : Except Assertion (Cache config) := do
  let mshrQueue ← cache.mshrQueue.markInService index pendingModifiedResp
  let marked := { cache with mshrQueue }
  pure (if cache.mshrQueue.isFull && !mshrQueue.isFull then marked.clearBlocked .noMSHRs
    else marked)

/-- Mark a write-buffer entry in service, which frees it. -/
def markWriteInService (cache : Cache config)
    (index : Fin (config.writeBuffers + config.mshrs)) : Except Assertion (Cache config) := do
  let writeBuffer ← WriteQueue.markInService cache.writeBuffer index
  let marked := { cache with writeBuffer }
  pure (if cache.writeBuffer.isFull && !writeBuffer.isFull then marked.clearBlocked .noWBBuffers
    else marked)

/-- The body that would evict the victims is commented out: nothing happens and
the allocation goes ahead. -/
def handleEvictions (cache : Cache config) (_evictBlks : List (BlkRef config.geometry))
    (writebacks : List Packet) : Bool × Cache config × List Packet :=
  (true, cache, writebacks)

def allocateBlock (cache : Cache config) (pkt : Packet) (writebacks : List Packet)
    (random : Fin config.geometry.assoc) :
    Except Assertion (Option (BlkRef config.geometry) × Cache config × List Packet) := do
  let victim := cache.tags.findVictim pkt.addr random
  let ref := BlkRef.slot (config.geometry.extractSet pkt.addr) victim
  let (evicted, cache, writebacks) := cache.handleEvictions [ref] writebacks
  if !evicted then pure (none, cache, writebacks)
  else do
    let tags ← cache.tags.insertBlock pkt victim
    pure (some ref, { cache with tags }, writebacks)

/-- The data update is commented out. -/
def updateBlockData (cache : Cache config) (_ref : BlkRef config.geometry) (_pkt : Packet)
    (_hasOldData : Bool) : Cache config := cache

/-- `NoncoherentCache::satisfyRequest`: an assertion, and then the base class
body, which is commented out, so neither packet nor block changes. -/
def satisfyRequest (cache : Cache config) (pkt : Packet) (_ref : Option (BlkRef config.geometry)) :
    Except Assertion (Packet × Cache config) := do
  check (pkt.cmd.isRead || pkt.cmd.isWrite) .unexpectedCommand
  pure (pkt, cache)

/-- The body is commented out. -/
def invalidateBlock (cache : Cache config) (_ref : BlkRef config.geometry) : Cache config := cache

def writebackBlk (cache : Cache config) (ref : BlkRef config.geometry) :
    Except Assertion (Packet × Cache config) := do
  let blk := cache.getBlk ref
  check (!config.isReadOnly || config.writebackClean) .readOnlyCache
  check (blk.valid && (blk.isSet .dirtyBit || config.writebackClean)) .blockExpected
  let flags := if blk.secure then Request.secure else 0
  let req := { Request.physical (cache.regenerateBlkAddr ref) config.blkSize flags 0 with
    taskId := blk.taskId }
  let cmd := if blk.isSet .dirtyBit then MemCmd.writebackDirty else MemCmd.writebackClean
  let (ptr, cache) := cache.newPtr
  let pkt := { Packet.ofRequest ptr req cmd with
    hasSharers := !blk.isSet .writableBit, data := blk.data }
  pure (pkt, (cache.clearCoherenceBits ref .writableBit).clearCoherenceBits ref .dirtyBit)

/-- `NoncoherentCache::evictBlock`: only a dirty block is written back, unless
clean writebacks are turned on. -/
def evictBlock (cache : Cache config) (ref : BlkRef config.geometry)
    (writebacks : List Packet) : Except Assertion (Cache config × List Packet) :=
  if (cache.getBlk ref).isSet .dirtyBit || config.writebackClean then do
    let (pkt, cache) ← cache.writebackBlk ref
    pure (cache.invalidateBlock ref, writebacks ++ [pkt])
  else pure (cache.invalidateBlock ref, writebacks)

end Cache

end KuiperCache
