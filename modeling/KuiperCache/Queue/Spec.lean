import KuiperCache.Queue.Queue
import KuiperCache.Mshr.Waiting

/-! What each operation of the MSHR queue does to the lists, the counters and
the entry it works on. -/
namespace KuiperCache.MshrQueue

open Checked

variable {numEntries : Nat} {queue next : MshrQueue numEntries} {index : Fin numEntries}

theorem addToReadyList_perm {queue : Queue Mshr numEntries} {readyList : List (Fin numEntries)}
    (h : queue.addToReadyList index = .ok readyList) :
    readyList.Perm (index :: queue.readyList) := by
  unfold Queue.addToReadyList at h
  split at h
  · cases h
    exact List.perm_append_singleton index _
  · split at h
    · rename_i inserted hinsert
      cases h
      exact SlotPool.insertBefore_perm hinsert
    · cases h

/-- The fields no operation changes. -/
structure SameLimits (queue next : MshrQueue numEntries) : Prop where
  numReserve : next.numReserve = queue.numReserve
  demandReserve : next.demandReserve = queue.demandReserve

/-- An entry of the array changes and the bookkeeping does not. -/
structure Edited (queue next : MshrQueue numEntries) (index : Fin numEntries) (mshr : Mshr) : Prop
    extends SameLimits queue next where
  entries : next.entries = Function.update queue.entries index mshr
  allocatedList : next.allocatedList = queue.allocatedList
  freeList : next.freeList = queue.freeList
  allocated : next.allocated = queue.allocated

structure AllocatedAt (queue next : MshrQueue numEntries) (index : Fin numEntries)
    (mshr : Mshr) : Prop extends SameLimits queue next where
  entries : next.entries = Function.update queue.entries index mshr
  empty : (queue.entries index).waiting = []
  freeList : queue.freeList = index :: next.freeList
  allocatedList : next.allocatedList = queue.allocatedList ++ [index]
  readyList : next.readyList.Perm (index :: queue.readyList)
  allocated : next.allocated = queue.allocated + 1
  numInService : next.numInService = queue.numInService

theorem allocate_spec {blkAddr : Addr} {blkSize : Nat} {pkt : Packet} {whenReady : Tick}
    {order : Nat} {onFill : Bool}
    (h : queue.allocate blkAddr blkSize pkt whenReady order onFill = .ok (index, next)) :
    ∃ mshr, (queue.entries index).allocate blkAddr blkSize pkt whenReady order onFill =
      .ok mshr ∧ AllocatedAt queue next index mshr := by
  unfold allocate at h
  split at h
  · cases h
  · rename_i head freeList hfree
    simp only [bind_eq_ok, check_eq_ok, exists_const, pure_eq_ok, beq_iff_eq,
      Prod.mk.injEq] at h
    obtain ⟨hempty, mshr, halloc, readyList, hready, rfl, rfl⟩ := h
    rw [Mshr.getNumTargets_eq_length, List.length_eq_zero_iff] at hempty
    have hperm := addToReadyList_perm hready
    exact ⟨mshr, halloc, ⟨rfl, rfl⟩, rfl, hempty, hfree, rfl, hperm, rfl, rfl⟩

structure ReleasedAt (queue next : MshrQueue numEntries) (index : Fin numEntries)
    (mshr : Mshr) : Prop extends SameLimits queue next where
  entries : next.entries = Function.update queue.entries index mshr
  freeList : next.freeList = index :: queue.freeList
  allocatedList : next.allocatedList = queue.allocatedList.erase index
  readyList : next.readyList = if (queue.entries index).inService then queue.readyList
    else queue.readyList.erase index
  allocated : next.allocated = queue.allocated - 1
  numInService : next.numInService = if (queue.entries index).inService
    then queue.numInService - 1 else queue.numInService

theorem deallocate_spec (h : queue.deallocate index = .ok next) :
    ∃ mshr, (queue.entries index).deallocate = .ok mshr ∧ ReleasedAt queue next index mshr := by
  simp only [deallocate, Queue.deallocate, bind_eq_ok, pure_eq_ok] at h
  obtain ⟨released, ⟨mshr, hmshr, rfl⟩, rfl⟩ := h
  exact ⟨mshr, hmshr, ⟨rfl, rfl⟩, rfl, rfl, rfl, rfl, rfl, rfl⟩

theorem markInService_spec {pendingModified : Bool}
    (h : queue.markInService index pendingModified = .ok next) :
    ∃ mshr, (queue.entries index).markInService pendingModified = .ok mshr ∧
      Edited queue next index mshr ∧ next.readyList = queue.readyList.erase index ∧
      next.numInService = queue.numInService + 1 := by
  simp only [markInService, bind_eq_ok, pure_eq_ok] at h
  obtain ⟨mshr, hmshr, rfl⟩ := h
  exact ⟨mshr, hmshr, ⟨⟨rfl, rfl⟩, rfl, rfl, rfl, rfl⟩, rfl, rfl⟩

theorem markPending_spec (h : queue.markPending index = .ok next) :
    (queue.entries index).inService = true ∧
      Edited queue next index { queue.entries index with inService := false } ∧
      next.readyList.Perm (index :: queue.readyList) ∧
      next.numInService = queue.numInService - 1 := by
  simp only [markPending, bind_eq_ok, check_eq_ok, exists_const, pure_eq_ok] at h
  obtain ⟨hservice, readyList, hready, rfl⟩ := h
  have hperm := addToReadyList_perm hready
  exact ⟨hservice, ⟨⟨rfl, rfl⟩, rfl, rfl, rfl, rfl⟩, hperm, rfl⟩

theorem setEntry_edited (queue : MshrQueue numEntries) (index : Fin numEntries) (mshr : Mshr) :
    Edited queue (queue.setEntry index mshr) index mshr :=
  ⟨⟨rfl, rfl⟩, rfl, rfl, rfl, rfl⟩

@[simp] theorem setEntry_readyList (mshr : Mshr) :
    (queue.setEntry index mshr).readyList = queue.readyList := rfl

@[simp] theorem setEntry_numInService (mshr : Mshr) :
    (queue.setEntry index mshr).numInService = queue.numInService := rfl

@[simp] theorem setEntry_entries_self (mshr : Mshr) :
    (queue.setEntry index mshr).entries index = mshr := by
  rw [(setEntry_edited queue index mshr).entries, Function.update_self]

end KuiperCache.MshrQueue
