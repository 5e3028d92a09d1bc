import KuiperCache.Queue.Queue

/-! The write queue: writebacks, clean evictions and uncacheable writes on their
way down.  An entry is done, and freed, as soon as it is sent. -/
namespace KuiperCache

open Checked

structure WriteTarget where
  pkt : Packet
  readyTime : Tick
  order : Nat
deriving DecidableEq, Repr

structure WriteQueueEntry where
  readyTime : Tick
  isUncacheable : Bool
  inService : Bool
  order : Nat
  blkAddr : Addr
  blkSize : Nat
  isSecure : Bool
  targets : List WriteTarget
deriving DecidableEq, Repr

namespace WriteQueueEntry

def empty : WriteQueueEntry :=
  { readyTime := 0, isUncacheable := false, inService := false, order := 0, blkAddr := 0,
    blkSize := 0, isSecure := false, targets := [] }

def hasTargets (entry : WriteQueueEntry) : Bool := !entry.targets.isEmpty

def getNumTargets (entry : WriteQueueEntry) : Nat := entry.targets.length

def getTarget (entry : WriteQueueEntry) : Except Assertion WriteTarget :=
  match entry.targets with
  | [] => .error .noTargets
  | first :: _ => .ok first

def allocate (entry : WriteQueueEntry) (blkAddr : Addr) (blkSize : Nat) (pkt : Packet)
    (whenReady : Tick) (order : Nat) : Except Assertion WriteQueueEntry := do
  let isUncacheable := pkt.req.isUncacheable
  -- both assertions state the condition for refusing the packet, not for accepting it
  check (!isUncacheable && !entry.targets.isEmpty) .writeQueueEntryEmpty
  check (!((pkt.cmd.isWrite && isUncacheable) || (pkt.cmd.isEviction && !isUncacheable) ||
    pkt.cmd == .writeClean)) .writeQueueEntryCommand
  let targets := entry.targets ++ [{ pkt, readyTime := whenReady, order }]
  check (targets.head?.any fun front =>
    pkt.matchBlockAddr (front.pkt.getBlockAddr blkSize) front.pkt.isSecure blkSize)
    .targetBlockMismatch
  pure { entry with
    blkAddr, blkSize, order, targets, isUncacheable
    isSecure := pkt.isSecure
    readyTime := whenReady
    inService := false }

def deallocate (entry : WriteQueueEntry) : Except Assertion WriteQueueEntry := do
  check entry.targets.isEmpty .targetsLeft
  pure { entry with inService := false }

def popTarget (entry : WriteQueueEntry) : WriteQueueEntry :=
  { entry with targets := entry.targets.tail }

end WriteQueueEntry

instance : QueueEntry WriteQueueEntry where
  readyTime := WriteQueueEntry.readyTime
  isUncacheable := WriteQueueEntry.isUncacheable
  inService := WriteQueueEntry.inService
  order := WriteQueueEntry.order
  blkAddr := WriteQueueEntry.blkAddr
  isSecure := WriteQueueEntry.isSecure
  hasTargets := WriteQueueEntry.hasTargets
  deallocate := WriteQueueEntry.deallocate

abbrev WriteQueue (numEntries : Nat) := Queue WriteQueueEntry numEntries

namespace WriteQueue

variable {numEntries : Nat}

def allocate (queue : WriteQueue numEntries) (blkAddr : Addr) (blkSize : Nat) (pkt : Packet)
    (whenReady : Tick) (order : Nat) :
    Except Assertion (Fin numEntries × WriteQueue numEntries) :=
  match queue.freeList with
  | [] => .error .writeFreeListEmpty
  | index :: freeList => do
      check ((queue.entries index).getNumTargets == 0) .entryStillHoldsTargets
      let entry ← (queue.entries index).allocate blkAddr blkSize pkt whenReady order
      let filled := queue.setEntry index entry
      let readyList ← filled.addToReadyList index
      pure (index, { filled with
        freeList, readyList
        allocatedList := queue.allocatedList ++ [index]
        allocated := queue.allocated + 1 })

def markInService (queue : WriteQueue numEntries) (index : Fin numEntries) :
    Except Assertion (WriteQueue numEntries) :=
  (queue.setEntry index (queue.entries index).popTarget).deallocate index

/-- An entry taken from the free list holds no target, and the first assertion
of `allocate` demands one: nothing ever enters the write queue. -/
theorem allocate_fails (queue : WriteQueue numEntries) (blkAddr : Addr) (blkSize : Nat)
    (pkt : Packet) (whenReady : Tick) (order : Nat)
    (result : Fin numEntries × WriteQueue numEntries) :
    queue.allocate blkAddr blkSize pkt whenReady order ≠ .ok result := by
  intro h
  unfold allocate at h
  split at h
  · cases h
  · simp only [WriteQueueEntry.allocate, WriteQueueEntry.getNumTargets, bind_eq_ok, check_eq_ok,
      exists_const, pure_eq_ok, beq_iff_eq, List.length_eq_zero_iff, Bool.and_eq_true,
      Bool.not_eq_true', List.isEmpty_eq_false_iff] at h
    obtain ⟨hempty, entry, ⟨⟨-, hnonempty⟩, -⟩, -⟩ := h
    exact hnonempty hempty

end WriteQueue

end KuiperCache
