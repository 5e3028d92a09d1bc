import Mathlib.Data.BitVec
import KuiperCache.Library.Checked
import KuiperCache.Packet.Command

/-! Requests and packets.  A request is what the issuer asked for; a packet is
the object that travels through the hierarchy and is turned, in place, from a
request into a response. -/
namespace KuiperCache

open Checked

abbrev Addr := BitVec 64

/-- The assertions of the source that a modelled function can violate, and the
accesses outside an object's bounds that it does not guard. -/
inductive Assertion where
  | notARequest
  | needsNoResponse
  | errorExpected
  | noSenderState
  | noTargets
  | notInService
  | alreadyInService
  | targetsLeft
  | deferredFlagsSet
  | hardwarePrefetchTarget
  | snoopTargetExpected
  | cpuTargetExpected
  | cpuOrPrefetcherTargetExpected
  | downstreamPending
  | notDownstreamPending
  | targetsNeedWritable
  | targetBlockMismatch
  | unexpectedData
  | writesBitmapOverrun
  | freeListEmpty
  | writeFreeListEmpty
  | entryStillHoldsTargets
  | readyListExhausted
  | notReadyYet
  | writeQueueEntryEmpty
  | writeQueueEntryCommand
  | multipleWriteTargets
  | writebackExpected
  | blockSizeExpected
  | readOnlyCache
  | victimStillValid
  | tagMismatch
  | blockExpected
  | blockUnexpected
  | unexpectedCommand
  | unexpectedResponse
  | lockedBlock
  | mshrExpected
  | mshrUnexpected
  | writeBufferConflict
  | waitingOnRetry
  | unalignedMiss
  | unalignedFill
  | hardwarePrefetchExpected
  | powerOfTwoExpected
  | positiveExpected
  | setOutOfRange
  | contextIdExpected
  | llscExpected
  | writeExpected
  | packetExpected
  | memoryWidthExpected
  | memMgmtExpected
  | vaddrExpected
  | paddrExpected
  | paddrUnexpected
  | pcExpected
  | splitOutOfRange
  | maskSizeExpected
  | packetQueueOverflow
  | deferredPacketExpected
  | translationExpected
  | addrExpected
  | sizeExpected
  | dataExpected
  | maskedWriteUnexpected
  | copyOntoItself
  | undefinedBehaviour
deriving DecidableEq, Repr

/-- `context` is the id of the issuing thread context, once one was set. -/
structure Request where
  paddr : Addr
  size : Nat
  byteEnable : List Bool
  flags : BitVec 64
  requestorId : Nat
  taskId : Nat
  extraData : Nat
  context : Option Int
deriving DecidableEq, Repr

namespace Request

def uncacheable : BitVec 64 := 0x00000400
def strictOrder : BitVec 64 := 0x00000800
def privileged : BitVec 64 := 0x00008000
def lockedRMW : BitVec 64 := 0x00100000
def llsc : BitVec 64 := 0x00200000
def memSwap : BitVec 64 := 0x00400000
def memSwapCond : BitVec 64 := 0x00800000
def secure : BitVec 64 := 0x10000000
def invalidate : BitVec 64 := 0x0000000100000000
def clean : BitVec 64 := 0x0000000200000000

/-- The constructor for physical requests: every byte is enabled. -/
def physical (paddr : Addr) (size : Nat) (flags : BitVec 64) (requestorId : Nat) : Request :=
  { paddr, size, flags, requestorId, byteEnable := List.replicate size true, taskId := 1024,
    extraData := 0, context := none }

/-- Whether any bit of the mask is set. -/
def isSet (req : Request) (mask : BitVec 64) : Bool := req.flags &&& mask != 0

def isUncacheable (req : Request) : Bool := req.isSet uncacheable
def isLLSC (req : Request) : Bool := req.isSet llsc
def isSecure (req : Request) : Bool := req.isSet secure
def isCacheInvalidate (req : Request) : Bool := req.isSet invalidate
def isCacheMaintenance (req : Request) : Bool := req.isSet (clean ||| invalidate)

/-- A request is masked when at least one of its bytes is disabled. -/
def isMasked (req : Request) : Bool := req.byteEnable.contains false

/-- An invalidating request is a maintenance request. -/
theorem isCacheInvalidate_of_not_maintenance (req : Request)
    (h : req.isCacheMaintenance = false) : req.isCacheInvalidate = false := by
  have hzero : req.flags &&& (clean ||| invalidate) = 0 := by
    simpa [isCacheMaintenance, isSet] using h
  have hsplit : invalidate = (clean ||| invalidate) &&& invalidate := by decide
  have hinvalidate : req.flags &&& invalidate = 0 := by
    rw [hsplit, ← BitVec.and_assoc, hzero]
    exact BitVec.zero_and
  simp [isCacheInvalidate, isSet, hinvalidate]

end Request

/-- One entry of a packet's sender-state stack: an MSHR of some cache, or the
bookkeeping of another component. -/
inductive SenderState where
  | mshr (handle : Nat)
  | other
deriving DecidableEq, Repr

/-- `ptr` is the identity of the packet object: two packets with equal fields
are still different objects. -/
structure Packet where
  ptr : Nat
  cmd : MemCmd
  req : Request
  addr : Addr
  size : Nat
  isSecure : Bool
  hasSharers : Bool
  cacheResponding : Bool
  satisfied : Bool
  blockCached : Bool
  data : List UInt8
  senderState : List SenderState
deriving DecidableEq, Repr

namespace Packet

def needsWritable (pkt : Packet) : Except Assertion Bool := do
  check pkt.cmd.isRequest .notARequest
  pure pkt.cmd.needsWritable

def isMaskedWrite (pkt : Packet) : Bool := pkt.cmd == .writeReq && pkt.req.isMasked

/-- `addr & Addr(blk_size - 1)`. -/
def getOffset (pkt : Packet) (blkSize : Nat) : Addr :=
  pkt.addr &&& BitVec.ofNat 64 (blkSize - 1)

/-- `addr & ~Addr(blk_size - 1)`. -/
def getBlockAddr (pkt : Packet) (blkSize : Nat) : Addr :=
  pkt.addr &&& ~~~ BitVec.ofNat 64 (blkSize - 1)

def isWholeLineWrite (pkt : Packet) (blkSize : Nat) : Bool :=
  (pkt.cmd == .writeReq || pkt.cmd == .writeLineReq) &&
    pkt.getOffset blkSize == 0 && pkt.size == blkSize && !pkt.isMaskedWrite

def matchBlockAddr (pkt : Packet) (addr : Addr) (isSecure : Bool) (blkSize : Nat) : Bool :=
  pkt.getBlockAddr blkSize == addr && pkt.isSecure == isSecure

/-- The constructor that takes the request's own address and size. -/
def ofRequest (ptr : Nat) (req : Request) (cmd : MemCmd) : Packet :=
  { ptr, cmd, req, addr := req.paddr, size := req.size, isSecure := req.isSecure,
    hasSharers := false, cacheResponding := false, satisfied := false, blockCached := false,
    data := [], senderState := [] }

/-- The constructor for a whole block, aligning the request's address. -/
def ofBlock (ptr : Nat) (req : Request) (cmd : MemCmd) (blkSize : Nat) : Packet :=
  { ofRequest ptr req cmd with
    addr := req.paddr &&& ~~~ BitVec.ofNat 64 (blkSize - 1), size := blkSize }

def pushSenderState (pkt : Packet) (state : SenderState) : Packet :=
  { pkt with senderState := state :: pkt.senderState }

/-- The topmost MSHR of the sender-state stack. -/
def findNextSenderState (pkt : Packet) : Option Nat :=
  pkt.senderState.findSome? fun
    | .mshr handle => some handle
    | .other => none

/-- Turn a request into its response, in place. -/
def makeTimingResponse (pkt : Packet) : Except Assertion Packet := do
  check pkt.cmd.needsResponse .needsNoResponse
  check pkt.cmd.isRequest .notARequest
  pure { pkt with cmd := pkt.cmd.responseCommand }

def copyError (pkt error : Packet) : Except Assertion Packet := do
  check error.cmd.isError .errorExpected
  pure { pkt with cmd := error.cmd }

end Packet

end KuiperCache
