import KuiperCache.Packet.Packet

/-! The write allocator watches the stream of cacheable write misses and decides
when to hold a write back for coalescing and when not to allocate. -/
namespace KuiperCache

inductive WriteMode where
  | allocate
  | coalesce
  | noAllocate
deriving DecidableEq, Repr

/-- `delayCtr` maps a block address to its remaining delays; absent is zero. -/
structure WriteAllocator where
  mode : WriteMode
  nextAddr : Addr
  byteCount : BitVec 32
  coalesceLimit : BitVec 32
  noAllocateLimit : BitVec 32
  delayThreshold : Nat
  delayCtr : Addr → Nat

namespace WriteAllocator

def coalesce (allocator : WriteAllocator) : Bool := allocator.mode != .allocate

def allocate (allocator : WriteAllocator) : Bool := allocator.mode != .noAllocate

def reset (allocator : WriteAllocator) : WriteAllocator :=
  { allocator with mode := .allocate, byteCount := 0, nextAddr := 0 }

/-- Use up one delay of the block, if it has any left. -/
def delay (allocator : WriteAllocator) (blkAddr : Addr) : Bool × WriteAllocator :=
  if allocator.delayCtr blkAddr > 0 then
    (true, { allocator with
      delayCtr := Function.update allocator.delayCtr blkAddr (allocator.delayCtr blkAddr - 1) })
  else (false, allocator)

def resetDelay (allocator : WriteAllocator) (blkAddr : Addr) : WriteAllocator :=
  { allocator with delayCtr := Function.update allocator.delayCtr blkAddr 0 }

/-- The mode after one more write of the current stream. -/
def nextMode (allocator : WriteAllocator) (byteCount : BitVec 32) : WriteMode :=
  match allocator.mode with
  | .allocate => if byteCount > allocator.coalesceLimit then .coalesce else .allocate
  | .coalesce => if byteCount > allocator.noAllocateLimit then .noAllocate else .coalesce
  | .noAllocate => .noAllocate

def updateMode (allocator : WriteAllocator) (writeAddr : Addr) (writeSize : Nat)
    (blkAddr : Addr) : WriteAllocator :=
  let nextAddr := writeAddr + BitVec.ofNat 64 writeSize
  if allocator.nextAddr = writeAddr then
    let byteCount := if allocator.mode = .noAllocate then allocator.byteCount
      else allocator.byteCount + BitVec.ofNat 32 writeSize
    { allocator with
      delayCtr := Function.update allocator.delayCtr blkAddr allocator.delayThreshold
      mode := allocator.nextMode byteCount
      byteCount, nextAddr }
  else
    { allocator.resetDelay blkAddr with
      byteCount := BitVec.ofNat 32 writeSize, mode := .allocate, nextAddr }

end WriteAllocator

end KuiperCache
