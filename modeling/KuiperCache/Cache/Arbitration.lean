import KuiperCache.Cache.Request

/-! The choice between the MSHR queue and the write buffer.  Requests to one
block go out in order of age, except that a write goes before the miss at the
head of the ready list when both are for the same block. -/
namespace KuiperCache

open Checked

namespace QueueEntry

variable {Entry Other : Type} [QueueEntry Entry] [QueueEntry Other]

/-- Two entries for the same block of the same memory space. -/
def Conflicts (entry : Entry) (other : Other) : Prop :=
  blkAddr entry = blkAddr other ∧ isSecure entry = isSecure other

theorem Conflicts.symm {entry : Entry} {other : Other} (h : Conflicts entry other) :
    Conflicts other entry :=
  ⟨h.1.symm, h.2.symm⟩

theorem Conflicts.trans {Third : Type} [QueueEntry Third] {entry : Entry} {other : Other}
    {third : Third} (h : Conflicts entry other) (h' : Conflicts other third) :
    Conflicts entry third :=
  ⟨h.1.trans h'.1, h.2.trans h'.2⟩

theorem conflictAddr_eq_ok {entry : Entry} {other : Other} {answer : Bool}
    (h : conflictAddr entry other = .ok answer) : answer = true ↔ Conflicts entry other := by
  simp only [conflictAddr, bind_eq_ok, check_eq_ok, exists_const] at h
  rw [matchBlockAddr_eq_ok h.2, Conflicts, eq_comm, @eq_comm _ (isSecure other)]

end QueueEntry

open QueueEntry

namespace Queue

variable {Entry Other : Type} {numEntries : Nat} [QueueEntry Entry] [QueueEntry Other]
  {queue : Queue Entry numEntries} {other : Other} {index : Fin numEntries}

theorem findPending_eq_some (h : queue.findPending other = .ok (some index)) :
    index ∈ queue.readyList ∧ Conflicts (queue.entries index) other := by
  obtain ⟨hmem, hfound⟩ := findFirst_eq_some h
  exact ⟨hmem, (conflictAddr_eq_ok hfound).mp rfl⟩

theorem findPending_eq_none (h : queue.findPending other = .ok none) :
    ∀ index ∈ queue.readyList, ¬ Conflicts (queue.entries index) other := by
  intro index hindex hconflict
  have hmissed := findFirst_eq_none h index hindex
  cases (conflictAddr_eq_ok hmissed).mpr hconflict

theorem head_of_getNext {now : Tick} (h : queue.getNext now = some index) :
    queue.readyList.head? = some index := by
  unfold getNext at h
  split at h
  · cases h
  · next head tail hlist =>
      split at h
      · cases h
      · rw [hlist, List.head?_cons]
        exact h

end Queue

namespace Cache

variable {config : CacheConfig} {cache next : Cache config} {prefetch : Option Packet}
  {entry : EntryRef config}

/-- The first ready miss is sent, or a pending write to its block instead. -/
theorem nextMiss_cases {head : Fin config.mshrs}
    (h : cache.nextMiss (some head) = .ok (some entry, next)) :
    (∃ write ∈ cache.writeBuffer.readyList, entry = .write write ∧
      Conflicts (cache.writeBuffer.entries write) (cache.mshrQueue.entries head)) ∨
    (entry = .miss head ∧ ∀ write ∈ cache.writeBuffer.readyList,
      ¬ Conflicts (cache.writeBuffer.entries write) (cache.mshrQueue.entries head)) := by
  simp only [nextMiss, bind_eq_ok] at h
  obtain ⟨conflict, hfind, h⟩ := h
  cases conflict with
  | some write =>
      simp only [pure_eq_ok, Prod.mk.injEq, Option.some.injEq] at h
      obtain ⟨hmem, hconflict⟩ := Queue.findPending_eq_some hfind
      exact .inl ⟨write, hmem, h.1.symm, hconflict⟩
  | none =>
      simp only [pure_eq_ok, Prod.mk.injEq, Option.some.injEq] at h
      exact .inr ⟨h.1.symm, Queue.findPending_eq_none hfind⟩

/-- A prefetch is dropped, or neither the tag store nor one of the queues has its
block and it takes an MSHR. -/
theorem allocatePrefetch_cases {pkt : Packet} {chosen : Option (EntryRef config)}
    (h : cache.allocatePrefetch pkt = .ok (chosen, next)) :
    (chosen = none ∧ next = cache) ∨
    ∃ index, chosen = some (.miss index) ∧
      cache.findBlock (pkt.getBlockAddr config.blkSize) pkt.isSecure = none ∧
      cache.mshrQueue.findMatch (pkt.getBlockAddr config.blkSize) pkt.isSecure true = .ok none ∧
      cache.writeBuffer.findMatch (pkt.getBlockAddr config.blkSize) pkt.isSecure true = .ok none ∧
      cache.allocateMissBuffer pkt curTick false = .ok (index, next) := by
  simp only [allocatePrefetch] at h
  split at h
  · simp only [pure_eq_ok, Prod.mk.injEq] at h
    exact .inl ⟨h.1.symm, h.2.symm⟩
  next hblock =>
  simp only [bind_eq_ok] at h
  obtain ⟨miss, hmiss, h⟩ := h
  split at h
  · simp only [pure_eq_ok, Prod.mk.injEq] at h
    exact .inl ⟨h.1.symm, h.2.symm⟩
  next hnoMiss =>
  simp only [bind_eq_ok] at h
  obtain ⟨write, hwrite, h⟩ := h
  split at h
  · simp only [pure_eq_ok, Prod.mk.injEq] at h
    exact .inl ⟨h.1.symm, h.2.symm⟩
  next hnoWrite =>
  simp only [bind_eq_ok, pure_eq_ok, Prod.mk.injEq] at h
  obtain ⟨⟨index, allocated⟩, hallocate, rfl, rfl⟩ := h
  rw [Bool.not_eq_true, Option.isSome_eq_false_iff, Option.isNone_iff_eq_none] at *
  subst hnoMiss hnoWrite
  exact .inr ⟨index, rfl, hblock, hmiss, hwrite, hallocate⟩

/-- The lookup passes over uncacheable entries only. -/
theorem no_cacheable_write {addr : Addr} {secure : Bool}
    (h : cache.writeBuffer.findMatch addr secure true = .ok none) :
    ∀ write ∈ cache.writeBuffer.allocatedList,
      (cache.writeBuffer.entries write).isUncacheable = false →
      ¬ ((cache.writeBuffer.entries write).blkAddr = addr ∧
        (cache.writeBuffer.entries write).isSecure = secure) := by
  intro write hwrite hcacheable hblock
  have hmissed := findFirst_eq_none h write hwrite
  rw [show QueueEntry.isUncacheable (cache.writeBuffer.entries write) = false from hcacheable,
    Bool.and_false, if_neg Bool.false_ne_true] at hmissed
  cases (matchBlockAddr_eq_ok hmissed).mpr hblock

/-- The three ways in which an entry is chosen: the first ready write or an older
miss for its block, the first ready miss, or a prefetch. -/
theorem getNextQueueEntry_branches
    (h : cache.getNextQueueEntry prefetch = .ok (some entry, next)) :
    (∃ write conflict, cache.writeBuffer.getNext curTick = some write ∧
      cache.mshrQueue.findPending (cache.writeBuffer.entries write) = .ok conflict ∧
      ((∃ index, conflict = some index ∧ entry = .miss index ∧
          (cache.mshrQueue.entries index).order < (cache.writeBuffer.entries write).order) ∨
        (entry = .write write ∧ ∀ index, conflict = some index →
          ¬ (cache.mshrQueue.entries index).order < (cache.writeBuffer.entries write).order))) ∨
    (∃ head, cache.mshrQueue.getNext curTick = some head ∧
      cache.nextMiss (some head) = .ok (some entry, next)) ∨
    (∃ pkt, prefetch = some pkt ∧ cache.mshrQueue.getNext curTick = none ∧
      cache.writeBuffer.getNext curTick = none ∧
      cache.allocatePrefetch pkt = .ok (some entry, next)) := by
  unfold getNextQueueEntry at h
  split at h
  · next write hwrite =>
      split at h
      · simp only [bind_eq_ok] at h
        obtain ⟨conflict, hfind, h⟩ := h
        refine .inl ⟨write, conflict, hwrite, hfind, ?_⟩
        cases conflict with
        | none =>
            simp only [pure_eq_ok, Prod.mk.injEq, Option.some.injEq] at h
            exact .inr ⟨h.1.symm, by simp⟩
        | some index =>
            dsimp only at h
            split at h
            · next hold =>
                simp only [pure_eq_ok, Prod.mk.injEq, Option.some.injEq] at h
                exact .inl ⟨index, rfl, h.1.symm, hold⟩
            · next hyoung =>
                simp only [pure_eq_ok, Prod.mk.injEq, Option.some.injEq] at h
                refine .inr ⟨h.1.symm, ?_⟩
                rintro found heq
                cases heq
                exact hyoung
      · cases hhead : cache.mshrQueue.getNext curTick with
        | none =>
            rw [hhead] at h
            cases h
        | some head =>
            rw [hhead] at h
            exact .inr (.inl ⟨head, rfl, h⟩)
  · next head hmiss hwrite => exact .inr (.inl ⟨head, hmiss, h⟩)
  · next hmiss hwrite =>
      split at h
      · split at h
        · next pkt => exact .inr (.inr ⟨pkt, rfl, hmiss, hwrite, h⟩)
        · cases h
      · cases h

/-- The head of a list in increasing order has the least order number. -/
theorem first_is_oldest {first write : Fin (config.writeBuffers + config.mshrs)}
    (hwrites : cache.writeBuffer.readyList.Pairwise fun first second =>
      (cache.writeBuffer.entries first).order < (cache.writeBuffer.entries second).order)
    (hfirst : cache.writeBuffer.readyList.head? = some first)
    (hwrite : write ∈ cache.writeBuffer.readyList) :
    (cache.writeBuffer.entries first).order ≤ (cache.writeBuffer.entries write).order := by
  obtain ⟨rest, hlist⟩ := List.head?_eq_some_iff.mp hfirst
  rw [hlist] at hwrites hwrite
  obtain rfl | hwrite := List.mem_cons.mp hwrite
  · exact le_rfl
  · exact ((List.pairwise_cons.mp hwrites).1 write hwrite).le

/-- A miss that is sent from the queue has no older write to its block pending,
and a write that is sent has no older miss, or is sent in place of the miss at
the head of the ready list.  Only a prefetch comes from nowhere. -/
theorem arbitration_keeps_block_order
    (hwrites : cache.writeBuffer.readyList.Pairwise fun first second =>
      (cache.writeBuffer.entries first).order < (cache.writeBuffer.entries second).order)
    (hmisses : ∀ first ∈ cache.mshrQueue.readyList, ∀ second ∈ cache.mshrQueue.readyList,
      Conflicts (cache.mshrQueue.entries first) (cache.mshrQueue.entries second) → first = second)
    (h : cache.getNextQueueEntry prefetch = .ok (some entry, next)) :
    (∀ index, entry = .miss index →
      (index ∈ cache.mshrQueue.readyList ∧ ∀ write ∈ cache.writeBuffer.readyList,
        Conflicts (cache.writeBuffer.entries write) (cache.mshrQueue.entries index) →
        ¬ (cache.writeBuffer.entries write).order < (cache.mshrQueue.entries index).order) ∨
      ∃ pkt, prefetch = some pkt ∧ cache.mshrQueue.getNext curTick = none ∧
        cache.writeBuffer.getNext curTick = none ∧
        cache.allocateMissBuffer pkt curTick false = .ok (index, next) ∧
        ∀ write ∈ cache.writeBuffer.allocatedList,
          (cache.writeBuffer.entries write).isUncacheable = false →
          ¬ ((cache.writeBuffer.entries write).blkAddr = pkt.getBlockAddr config.blkSize ∧
            (cache.writeBuffer.entries write).isSecure = pkt.isSecure)) ∧
    ∀ write, entry = .write write →
      write ∈ cache.writeBuffer.readyList ∧
      ((∀ index ∈ cache.mshrQueue.readyList,
        Conflicts (cache.mshrQueue.entries index) (cache.writeBuffer.entries write) →
        ¬ (cache.mshrQueue.entries index).order < (cache.writeBuffer.entries write).order) ∨
      ∃ head, cache.mshrQueue.readyList.head? = some head ∧
        Conflicts (cache.writeBuffer.entries write) (cache.mshrQueue.entries head)) := by
  obtain ⟨first, conflict, hfirst, hfind, hchosen⟩ | ⟨head, hhead, hmiss⟩ |
    ⟨pkt, hpkt, hnoMiss, hnoWrite, hprefetch⟩ := getNextQueueEntry_branches h
  · have hlisted := Queue.head_of_getNext hfirst
    obtain ⟨index, rfl, rfl, hold⟩ | ⟨rfl, hyoung⟩ := hchosen
    · refine ⟨?_, by simp⟩
      rintro _ ⟨rfl⟩
      refine .inl ⟨(Queue.findPending_eq_some hfind).1, ?_⟩
      intro write hwrite _
      have hle := first_is_oldest hwrites hlisted hwrite
      omega
    · refine ⟨by simp, ?_⟩
      rintro _ ⟨rfl⟩
      refine ⟨List.mem_of_head? hlisted, .inl ?_⟩
      intro index hindex hconflict
      cases conflict with
      | none => exact absurd hconflict (Queue.findPending_eq_none hfind index hindex)
      | some found =>
          obtain ⟨hfound, hfoundConflict⟩ := Queue.findPending_eq_some hfind
          rw [hmisses index hindex found hfound (hconflict.trans hfoundConflict.symm)]
          exact hyoung found rfl
  · have hlisted := Queue.head_of_getNext hhead
    obtain ⟨write, hwrite, rfl, hconflict⟩ | ⟨rfl, hnone⟩ := nextMiss_cases hmiss
    · refine ⟨by simp, ?_⟩
      rintro _ ⟨rfl⟩
      exact ⟨hwrite, .inr ⟨head, hlisted, hconflict⟩⟩
    · refine ⟨?_, by simp⟩
      rintro _ ⟨rfl⟩
      refine .inl ⟨List.mem_of_head? hlisted, ?_⟩
      intro write hwrite hconflict
      exact absurd hconflict (hnone write hwrite)
  · obtain ⟨hnone, -⟩ | ⟨index, hentry, -, -, hmatch, hallocate⟩ :=
      allocatePrefetch_cases hprefetch
    · cases hnone
    · cases hentry
      refine ⟨?_, by simp⟩
      rintro _ ⟨rfl⟩
      exact .inr ⟨pkt, hpkt, hnoMiss, hnoWrite, hallocate, no_cacheable_write hmatch⟩

def firstMshr : Fin simL0Params.mshrs := ⟨0, simL0Params.mshrs_pos⟩

def firstWrite : Fin (simL0Params.writeBuffers + simL0Params.mshrs) :=
  ⟨0, Nat.add_pos_right _ simL0Params.mshrs_pos⟩

/-- A writeback is ready; an older miss for its block is ready at tick 5 only. -/
def olderMiss : Cache simL0Params :=
  let packet ptr cmd := Packet.ofRequest ptr (Request.physical 0x200 512 0 0) cmd
  let miss : Mshr := { Mshr.empty with
    readyTime := 5, order := 0, blkAddr := 0x200, blkSize := 512
    targets := { TargetList.empty with list := [Mshr.firstTarget (packet 0 .readReq) 5 0 true] } }
  let write : WriteQueueEntry := { WriteQueueEntry.empty with
    order := 1, blkAddr := 0x200, blkSize := 512
    targets := [{ pkt := packet 1 .writebackDirty, readyTime := 0, order := 1 }] }
  let cache := Cache.new simL0Params none
  { cache with
    mshrQueue := cache.mshrQueue.withQueue { cache.mshrQueue.toQueue.setEntry firstMshr miss with
      readyList := [firstMshr], allocatedList := [firstMshr]
      freeList := cache.mshrQueue.freeList.tail, allocated := 1 }
    writeBuffer := { cache.writeBuffer.setEntry firstWrite write with
      readyList := [firstWrite], allocatedList := [firstWrite]
      freeList := cache.writeBuffer.freeList.tail, allocated := 1 }
    order := 2 }

theorem arbitration_keeps_block_order_olderMiss :
    ∃ next, olderMiss.getNextQueueEntry none = .ok (some (.miss firstMshr), next) ∧
      ∀ write ∈ olderMiss.writeBuffer.readyList,
        Conflicts (olderMiss.writeBuffer.entries write) (olderMiss.mshrQueue.entries firstMshr) →
        ¬ (olderMiss.writeBuffer.entries write).order <
          (olderMiss.mshrQueue.entries firstMshr).order := by
  obtain ⟨⟨chosen, next⟩, hnext, hchosen⟩ := exists_ok_of_observed
    (show (olderMiss.getNextQueueEntry none).toOption.map Prod.fst =
      some (some (.miss firstMshr)) by decide +kernel)
  cases hchosen
  refine ⟨next, hnext, ?_⟩
  have hmisses : ∀ first ∈ olderMiss.mshrQueue.readyList,
      ∀ second ∈ olderMiss.mshrQueue.readyList,
      Conflicts (olderMiss.mshrQueue.entries first) (olderMiss.mshrQueue.entries second) →
        first = second := by
    intro first hfirst second hsecond _
    rw [List.mem_singleton.mp hfirst, List.mem_singleton.mp hsecond]
  obtain ⟨hmiss, -⟩ :=
    arbitration_keeps_block_order (List.pairwise_singleton _ _) hmisses hnext
  obtain ⟨-, hwrites⟩ | ⟨pkt, hpkt, -⟩ := hmiss firstMshr rfl
  · exact hwrites
  · cases hpkt

end Cache

end KuiperCache
