import Mathlib.Logic.Function.Basic
import KuiperCache.Library.SlotPool
import KuiperCache.Mshr.Mshr

/-! The queue template: a fixed array of entries, three lists of pointers into
it and two counters.  A pointer is an index of the array. -/
namespace KuiperCache

open Checked

/-- What a queue needs to know of its entries. -/
class QueueEntry (Entry : Type) where
  readyTime : Entry → Tick
  isUncacheable : Entry → Bool
  inService : Entry → Bool
  order : Entry → Nat
  blkAddr : Entry → Addr
  isSecure : Entry → Bool
  hasTargets : Entry → Bool
  deallocate : Entry → Except Assertion Entry

namespace QueueEntry

variable {Entry Other : Type} [QueueEntry Entry] [QueueEntry Other]

def matchBlockAddr (entry : Entry) (addr : Addr) (secure : Bool) : Except Assertion Bool := do
  check (hasTargets entry) .noTargets
  pure (blkAddr entry == addr && isSecure entry == secure)

def conflictAddr (entry : Entry) (other : Other) : Except Assertion Bool := do
  check (hasTargets entry) .noTargets
  matchBlockAddr other (blkAddr entry) (isSecure entry)

theorem matchBlockAddr_eq_ok {entry : Entry} {addr : Addr} {secure answer : Bool}
    (h : matchBlockAddr entry addr secure = .ok answer) :
    answer = true ↔ blkAddr entry = addr ∧ isSecure entry = secure := by
  simp only [matchBlockAddr, bind_eq_ok, check_eq_ok, exists_const, pure_eq_ok] at h
  obtain ⟨-, rfl⟩ := h
  simp

end QueueEntry

instance : QueueEntry Mshr where
  readyTime := Mshr.readyTime
  isUncacheable := Mshr.isUncacheable
  inService := Mshr.inService
  order := Mshr.order
  blkAddr := Mshr.blkAddr
  isSecure := Mshr.isSecure
  hasTargets := Mshr.hasTargets
  deallocate := Mshr.deallocate

structure Queue (Entry : Type) (numEntries : Nat) where
  numReserve : Nat
  entries : Fin numEntries → Entry
  allocatedList : List (Fin numEntries)
  readyList : List (Fin numEntries)
  freeList : List (Fin numEntries)
  numInService : Int
  allocated : Int

namespace Queue

variable {Entry : Type} {numEntries : Nat}

/-- The constructor: all entries are free, in array order. -/
def new (numEntries numReserve : Nat) (entry : Entry) : Queue Entry numEntries :=
  { numReserve, entries := fun _ => entry, allocatedList := [], readyList := [],
    freeList := List.finRange numEntries, numInService := 0, allocated := 0 }

def isFull (queue : Queue Entry numEntries) : Bool :=
  decide (queue.allocated ≥ (numEntries : Int) - queue.numReserve)

/-- Overwrite one entry of the array. -/
def setEntry (queue : Queue Entry numEntries) (index : Fin numEntries) (entry : Entry) :
    Queue Entry numEntries :=
  { queue with entries := Function.update queue.entries index entry }

variable [QueueEntry Entry]

def readyTime (queue : Queue Entry numEntries) (index : Fin numEntries) : Tick :=
  QueueEntry.readyTime (queue.entries index)

/-- The ready list with an entry inserted by ready time, behind its equals. -/
def addToReadyList (queue : Queue Entry numEntries) (index : Fin numEntries) :
    Except Assertion (List (Fin numEntries)) :=
  if queue.readyList.getLast?.all fun last => queue.readyTime last ≤ queue.readyTime index then
    .ok (queue.readyList ++ [index])
  else
    match SlotPool.insertBefore (fun i => queue.readyTime index < queue.readyTime i) index
      queue.readyList with
    | some readyList => .ok readyList
    | none => .error .readyListExhausted

/-- The first allocated entry for a block; uncacheable entries are skipped when
asked to. -/
def findMatch (queue : Queue Entry numEntries) (addr : Addr) (secure : Bool)
    (ignoreUncacheable : Bool) : Except Assertion (Option (Fin numEntries)) :=
  findFirst (fun index =>
    if ignoreUncacheable && QueueEntry.isUncacheable (queue.entries index) then .ok false
    else QueueEntry.matchBlockAddr (queue.entries index) addr secure) queue.allocatedList

/-- The first ready entry for the block of another entry. -/
def findPending {Other : Type} [QueueEntry Other] (queue : Queue Entry numEntries)
    (other : Other) : Except Assertion (Option (Fin numEntries)) :=
  findFirst (fun index => QueueEntry.conflictAddr (queue.entries index) other) queue.readyList

def getNext (queue : Queue Entry numEntries) (now : Tick) : Option (Fin numEntries) :=
  match queue.readyList with
  | [] => none
  | index :: _ => if queue.readyTime index > now then none else some index

/-- `MaxTick` when nothing is ready. -/
def nextReadyTime (queue : Queue Entry numEntries) : Tick :=
  match queue.readyList with
  | [] => 2 ^ 64 - 1
  | index :: _ => queue.readyTime index

def deallocate (queue : Queue Entry numEntries) (index : Fin numEntries) :
    Except Assertion (Queue Entry numEntries) := do
  let serviced := QueueEntry.inService (queue.entries index)
  let entry ← QueueEntry.deallocate (queue.entries index)
  pure { queue.setEntry index entry with
    allocatedList := queue.allocatedList.erase index
    freeList := index :: queue.freeList
    allocated := queue.allocated - 1
    numInService := if serviced then queue.numInService - 1 else queue.numInService
    readyList := if serviced then queue.readyList else queue.readyList.erase index }

end Queue

/-- The MSHR queue; `demandReserve` entries are kept from the prefetcher. -/
structure MshrQueue (numEntries : Nat) extends Queue Mshr numEntries where
  demandReserve : Nat

namespace MshrQueue

variable {numEntries : Nat}

def new (numEntries numReserve demandReserve : Nat) : MshrQueue numEntries :=
  { Queue.new numEntries numReserve Mshr.empty with demandReserve }

/-- Continue with another state of the underlying queue. -/
def withQueue (queue : MshrQueue numEntries) (next : Queue Mshr numEntries) :
    MshrQueue numEntries :=
  { next with demandReserve := queue.demandReserve }

/-- Replace one entry of the array, as the cache does through a pointer. -/
def setEntry (queue : MshrQueue numEntries) (index : Fin numEntries) (mshr : Mshr) :
    MshrQueue numEntries :=
  queue.withQueue (queue.toQueue.setEntry index mshr)

def canPrefetch (queue : MshrQueue numEntries) : Bool :=
  decide (queue.allocated < (numEntries : Int) - (queue.numReserve + 1 + queue.demandReserve))

def allocate (queue : MshrQueue numEntries) (blkAddr : Addr) (blkSize : Nat) (pkt : Packet)
    (whenReady : Tick) (order : Nat) (allocOnFill : Bool) :
    Except Assertion (Fin numEntries × MshrQueue numEntries) :=
  match queue.freeList with
  | [] => .error .freeListEmpty
  | index :: freeList => do
      check ((queue.entries index).getNumTargets == 0) .entryStillHoldsTargets
      let mshr ← (queue.entries index).allocate blkAddr blkSize pkt whenReady order allocOnFill
      let filled := queue.toQueue.setEntry index mshr
      let readyList ← filled.addToReadyList index
      pure (index, queue.withQueue { filled with
        freeList, readyList
        allocatedList := queue.allocatedList ++ [index]
        allocated := queue.allocated + 1 })

def deallocate (queue : MshrQueue numEntries) (index : Fin numEntries) :
    Except Assertion (MshrQueue numEntries) := do
  let next ← queue.toQueue.deallocate index
  pure (queue.withQueue next)

def moveToFront (queue : MshrQueue numEntries) (index : Fin numEntries) :
    MshrQueue numEntries :=
  if (queue.entries index).inService then queue
  else queue.withQueue { queue.toQueue with
    readyList := index :: queue.readyList.erase index }

def markInService (queue : MshrQueue numEntries) (index : Fin numEntries)
    (pendingModifiedResp : Bool) : Except Assertion (MshrQueue numEntries) := do
  let mshr ← (queue.entries index).markInService pendingModifiedResp
  pure (queue.withQueue { queue.toQueue.setEntry index mshr with
    readyList := queue.readyList.erase index
    numInService := queue.numInService + 1 })

def markPending (queue : MshrQueue numEntries) (index : Fin numEntries) :
    Except Assertion (MshrQueue numEntries) := do
  check (queue.entries index).inService .notInService
  let pending := queue.toQueue.setEntry index { queue.entries index with inService := false }
  let readyList ← pending.addToReadyList index
  pure (queue.withQueue { pending with readyList, numInService := queue.numInService - 1 })

/-- Delay a ready MSHR and splice it in front of the first entry, from its own
position on, that is not ready later than it. -/
def delay (queue : MshrQueue numEntries) (index : Fin numEntries) (now delayTicks : Tick) :
    Except Assertion (MshrQueue numEntries) := do
  let mshr ← (queue.entries index).delay now delayTicks
  let delayed := queue.toQueue.setEntry index mshr
  let position := (queue.readyList.dropWhile (· != index)).find? fun i =>
    decide (mshr.readyTime ≥ (delayed.entries i).readyTime)
  pure (queue.withQueue { delayed with
    readyList := SlotPool.spliceBefore queue.readyList index position })

/-- Drop the first target of an MSHR, and the MSHR with its last one.  Returns
whether the queue is no longer full. -/
def forceDeallocateTarget (queue : MshrQueue numEntries) (index : Fin numEntries) (now : Tick) :
    Except Assertion (Bool × MshrQueue numEntries) := do
  check (queue.entries index).hasTargets .noTargets
  let popped := queue.setEntry index (queue.entries index).popTarget
  if (popped.entries index).hasTargets then pure (queue.isFull && !popped.isFull, popped)
  else do
    let (promoted, mshr) ← (popped.entries index).promoteDeferredTargets now
    let rest := popped.setEntry index mshr
    if promoted then pure (queue.isFull && !rest.isFull, rest)
    else do
      let next ← rest.deallocate index
      pure (queue.isFull && !next.isFull, next)

end MshrQueue

end KuiperCache
