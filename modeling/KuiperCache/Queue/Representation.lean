import KuiperCache.Library.Transition
import KuiperCache.Queue.Spec

/-! The representation invariant of the MSHR queue: free and allocated entries
partition the array, the ready list selects the allocated entries that are not
in service, and the counters count. -/
namespace KuiperCache.MshrQueue

open Checked SlotPool

variable {numEntries : Nat} {queue next : MshrQueue numEntries} {index : Fin numEntries}

/-- Whether the entry behind a pointer is in service. -/
def busy (queue : MshrQueue numEntries) (index : Fin numEntries) : Bool :=
  (queue.entries index).inService

structure Represents (queue : MshrQueue numEntries) : Prop where
  partition : Partition queue.freeList queue.allocatedList
  ready : Selects queue.allocatedList queue.readyList queue.busy
  allocated : queue.allocated = queue.allocatedList.length
  numInService : queue.numInService = queue.allocatedList.countP queue.busy

theorem represents_new (numEntries numReserve demandReserve : Nat) :
    Represents (new numEntries numReserve demandReserve) := by
  refine ⟨⟨List.nodup_finRange numEntries, List.nodup_nil, by simp [new, Queue.new], ?_⟩,
    ⟨List.nodup_nil, by simp [new, Queue.new]⟩, rfl, rfl⟩
  exact fun slot => .inl (List.mem_finRange slot)

theorem busy_update {mshr : Mshr}
    (h : next.entries = Function.update queue.entries index mshr) (other : Fin numEntries) :
    next.busy other = if other = index then mshr.inService else queue.busy other := by
  unfold busy
  rw [h, Function.update_apply]
  split <;> rfl

theorem busy_other {mshr : Mshr} (h : next.entries = Function.update queue.entries index mshr)
    (other : Fin numEntries) (hne : other ≠ index) : next.busy other = queue.busy other := by
  rw [busy_update h, if_neg hne]

theorem Represents.ne_of_free (h : Represents queue) {other : Fin numEntries}
    (hfree : other ∈ queue.freeList) (hmem : index ∈ queue.allocatedList) : other ≠ index := by
  rintro rfl
  exact h.partition.disjoint other hfree hmem

theorem Represents.others_allocated {mshr : Mshr} (h : Represents queue)
    (halloc : AllocatedAt queue next index mshr) {other : Fin numEntries}
    (hother : other ∈ queue.allocatedList) : next.entries other = queue.entries other := by
  have hne := h.ne_of_free (by rw [halloc.freeList]; exact List.mem_cons_self) hother
  rw [halloc.entries, Function.update_of_ne hne.symm]

/-- What is allocated after an allocation. -/
theorem Represents.allocated_cases {mshr : Mshr} (h : Represents queue)
    (halloc : AllocatedAt queue next index mshr) {other : Fin numEntries}
    (hother : other ∈ next.allocatedList) :
    (other ∈ queue.allocatedList ∧ next.entries other = queue.entries other) ∨
      (other = index ∧ next.entries other = mshr) := by
  rw [halloc.allocatedList, List.mem_append, List.mem_singleton] at hother
  obtain hold | rfl := hother
  · exact .inl ⟨hold, h.others_allocated halloc hold⟩
  · exact .inr ⟨rfl, by rw [halloc.entries, Function.update_self]⟩

/-- What is still allocated after an entry was freed. -/
theorem Represents.released_cases {mshr : Mshr} (h : Represents queue)
    (hreleased : ReleasedAt queue next index mshr) {other : Fin numEntries}
    (hother : other ∈ next.allocatedList) :
    other ≠ index ∧ other ∈ queue.allocatedList ∧ next.entries other = queue.entries other := by
  rw [hreleased.allocatedList, h.partition.used_nodup.mem_erase_iff] at hother
  exact ⟨hother.1, hother.2, by rw [hreleased.entries, Function.update_of_ne hother.1]⟩

theorem Represents.allocate {mshr : Mshr} (h : Represents queue)
    (halloc : AllocatedAt queue next index mshr) (hidle : mshr.inService = false) :
    Represents next := by
  have hpartition := h.partition
  rw [halloc.freeList] at hpartition
  have hfresh : index ∉ queue.allocatedList := hpartition.disjoint index (by simp)
  have hother := busy_other halloc.entries
  have hself : next.busy index = false := by rw [busy_update halloc.entries, if_pos rfl, hidle]
  refine ⟨?_, ?_, ?_, ?_⟩
  · rw [halloc.allocatedList]
    exact hpartition.take
  · apply h.ready.add _ halloc.readyList hself hother
    · intro other
      rw [halloc.allocatedList, List.mem_append, List.mem_singleton]
    · rw [h.ready.mem]
      exact fun hmem => hfresh hmem.1
  · rw [halloc.allocated, h.allocated, halloc.allocatedList, List.length_append]
    rfl
  · rw [halloc.numInService, h.numInService, halloc.allocatedList, List.countP_append,
      List.countP_singleton, hself]
    congr 1
    apply List.countP_congr
    intro other hmem
    rw [hother other]
    rintro rfl
    exact hfresh hmem

/-- The entry is edited in place and stays in or out of service. -/
theorem Represents.edit {mshr : Mshr} (h : Represents queue)
    (hedit : Edited queue next index mshr) (hready : next.readyList.Perm queue.readyList)
    (hcount : next.numInService = queue.numInService)
    (hbusy : mshr.inService = queue.busy index) : Represents next := by
  have hsame : ∀ other, next.busy other = queue.busy other := by
    intro other
    rw [busy_update hedit.entries]
    split
    · rename_i heq
      rw [heq, hbusy]
    · rfl
  refine ⟨?_, ?_, ?_, ?_⟩
  · rw [hedit.freeList, hedit.allocatedList]
    exact h.partition
  · rw [hedit.allocatedList]
    exact (h.ready.perm hready).congr hsame
  · rw [hedit.allocated, hedit.allocatedList, h.allocated]
  · rw [hcount, hedit.allocatedList, h.numInService]
    congr 1
    exact (List.countP_congr fun other _ => by rw [hsame]).symm

theorem Represents.start {mshr : Mshr} (h : Represents queue)
    (hmem : index ∈ queue.allocatedList) (hidle : queue.busy index = false)
    (hedit : Edited queue next index mshr) (hready : next.readyList = queue.readyList.erase index)
    (hcount : next.numInService = queue.numInService + 1) (hbusy : mshr.inService = true) :
    Represents next := by
  have hother := busy_other hedit.entries
  have hself : next.busy index = true := by rw [busy_update hedit.entries, if_pos rfl, hbusy]
  refine ⟨?_, ?_, ?_, ?_⟩
  · rw [hedit.freeList, hedit.allocatedList]
    exact h.partition
  · rw [hedit.allocatedList, hready]
    apply h.ready.remove
    intro other
    by_cases heq : other = index
    · subst heq
      simp [hself]
    · simp [heq, hother other heq]
  · rw [hedit.allocated, hedit.allocatedList, h.allocated]
  · rw [hcount, h.numInService, hedit.allocatedList, countP_eq_erase hmem,
      countP_eq_erase hmem, hidle, hself,
      countP_erase_congr h.partition.used_nodup hother]
    simp

theorem Represents.stop {mshr : Mshr} (h : Represents queue)
    (hmem : index ∈ queue.allocatedList) (hbusy : queue.busy index = true)
    (hedit : Edited queue next index mshr)
    (hready : next.readyList.Perm (index :: queue.readyList))
    (hcount : next.numInService = queue.numInService - 1) (hidle : mshr.inService = false) :
    Represents next := by
  have hother := busy_other hedit.entries
  have hself : next.busy index = false := by rw [busy_update hedit.entries, if_pos rfl, hidle]
  refine ⟨?_, ?_, ?_, ?_⟩
  · rw [hedit.freeList, hedit.allocatedList]
    exact h.partition
  · rw [hedit.allocatedList]
    apply h.ready.add _ hready hself hother
    · intro other
      constructor
      · exact .inl
      · rintro (hother | rfl)
        · exact hother
        · exact hmem
    · rw [h.ready.mem, hbusy]
      simp
  · rw [hedit.allocated, hedit.allocatedList, h.allocated]
  · rw [hcount, h.numInService, hedit.allocatedList, countP_eq_erase hmem,
      countP_eq_erase hmem, hbusy, hself,
      countP_erase_congr h.partition.used_nodup hother]
    simp

/-- A freed entry is not ready any more, whether it was in service or not. -/
theorem Represents.readyList_released {mshr : Mshr} (h : Represents queue)
    (hreleased : ReleasedAt queue next index mshr) :
    next.readyList = queue.readyList.erase index := by
  rw [hreleased.readyList]
  split
  · rename_i hservice
    rw [List.erase_of_not_mem]
    rw [h.ready.mem, busy, hservice]
    simp
  · rfl

theorem Represents.release {mshr : Mshr} (h : Represents queue)
    (hmem : index ∈ queue.allocatedList) (hrelease : ReleasedAt queue next index mshr) :
    Represents next := by
  have hother := busy_other hrelease.entries
  have hused := h.partition.used_nodup
  have hpositive : 0 < queue.allocatedList.length := List.length_pos_of_mem hmem
  have hmembers : ∀ other, other ∈ next.allocatedList ∧ next.busy other = false ↔
      other ≠ index ∧ other ∈ queue.allocatedList ∧ queue.busy other = false := by
    intro other
    rw [hrelease.allocatedList, hused.mem_erase_iff]
    by_cases heq : other = index
    · simp [heq]
    · simp [heq, hother other heq]
  refine ⟨?_, ?_, ?_, ?_⟩
  · rw [hrelease.freeList, hrelease.allocatedList]
    exact h.partition.release hmem
  · rw [h.readyList_released hrelease]
    exact h.ready.remove hmembers
  · rw [hrelease.allocated, h.allocated, hrelease.allocatedList, List.length_erase_of_mem hmem]
    omega
  · rw [hrelease.numInService, h.numInService, hrelease.allocatedList,
      countP_erase_congr hused hother, countP_eq_erase hmem]
    change (if queue.busy index = true then _ else _) = _
    split <;> simp_all

theorem Represents.bounds (h : Represents queue) :
    0 ≤ queue.numInService ∧ queue.numInService ≤ queue.allocated ∧
      queue.allocated ≤ numEntries := by
  have hlength := h.partition.used_length_le
  rw [Fintype.card_fin] at hlength
  have hcount : queue.allocatedList.countP queue.busy ≤ queue.allocatedList.length :=
    List.countP_le_length
  rw [h.numInService, h.allocated]
  omega

/-- The calls the cache makes on an allocated MSHR between queue operations. -/
inductive Edit where
  | allocateTarget (pkt : Packet) (whenReady : Tick) (order : Nat) (allocOnFill : Bool)
  | promoteReadable
  | promoteWritable
  | extractServiceableTargets (resp : MemCmd)
  | promoteDeferredTargets (now : Tick)
  | setForward (isForward : Bool)
  | setDownstreamPending (pending : Bool)

def Edit.apply (mshr : Mshr) : Edit → Except Assertion Mshr
  | .allocateTarget pkt whenReady order allocOnFill =>
      mshr.allocateTarget pkt whenReady order allocOnFill
  | .promoteReadable => mshr.promoteReadable
  | .promoteWritable => mshr.promoteWritable
  | .extractServiceableTargets resp => do
      let (_, rest) ← mshr.extractServiceableTargets resp
      pure rest
  | .promoteDeferredTargets now => do
      let (_, rest) ← mshr.promoteDeferredTargets now
      pure rest
  | .setForward isForward => .ok { mshr with isForward }
  | .setDownstreamPending pending => .ok { mshr with downstreamPending := pending }

theorem allocateTarget_kept {mshr mshr' : Mshr} {pkt : Packet} {whenReady : Tick}
    {order : Nat} {onFill : Bool} (h : mshr.allocateTarget pkt whenReady order onFill = .ok mshr') :
    mshr'.inService = mshr.inService ∧ mshr'.readyTime = mshr.readyTime := by
  obtain ⟨-, ⟨-, h⟩ | ⟨-, h⟩⟩ := Mshr.allocateTarget_cases h
  · simp only [Mshr.deferTarget, bind_eq_ok, pure_eq_ok] at h
    obtain ⟨deferred, -, targets, -, rfl⟩ := h
    exact ⟨rfl, rfl⟩
  · have hkept := (Mshr.appendTarget_spec h).2.2
    exact ⟨hkept.inService, hkept.readyTime⟩

theorem Edit.apply_inService {mshr mshr' : Mshr} {edit : Edit} (h : edit.apply mshr = .ok mshr') :
    mshr'.inService = mshr.inService := by
  cases edit with
  | allocateTarget pkt whenReady order onFill => exact (allocateTarget_kept h).1
  | promoteReadable => exact (Mshr.promoteReadable_rearranged h).1.inService
  | promoteWritable => exact (Mshr.promoteWritable_rearranged h).1.inService
  | extractServiceableTargets resp =>
      simp only [apply, bind_eq_ok, pure_eq_ok] at h
      obtain ⟨⟨ready, rest⟩, hextract, rfl⟩ := h
      obtain ⟨served, left, targets, -, -, -, rfl⟩ :=
        Mshr.extractServiceableTargets_eq_ok hextract
      rfl
  | promoteDeferredTargets now =>
      simp only [apply, bind_eq_ok, pure_eq_ok] at h
      obtain ⟨⟨promoted, rest⟩, hpromote, rfl⟩ := h
      exact (Mshr.promoteDeferredTargets_cases hpromote).1.inService
  | setForward isForward =>
      cases h
      rfl
  | setDownstreamPending pending =>
      cases h
      rfl

inductive Operation (numEntries : Nat) where
  | allocate (blkAddr : Addr) (blkSize : Nat) (pkt : Packet) (whenReady : Tick) (order : Nat)
      (allocOnFill : Bool)
  | markInService (index : Fin numEntries) (pendingModified : Bool)
  | markPending (index : Fin numEntries)
  | deallocate (index : Fin numEntries)
  | forceDeallocateTarget (index : Fin numEntries) (now : Tick)
  | moveToFront (index : Fin numEntries)
  | delay (index : Fin numEntries) (now delayTicks : Tick)
  | edit (index : Fin numEntries) (edit : Edit)

/-- The entry an operation is applied to; callers only hold pointers to
allocated entries. -/
def Operation.subject : Operation numEntries → Option (Fin numEntries)
  | .allocate .. => none
  | .markInService index _ => some index
  | .markPending index => some index
  | .deallocate index => some index
  | .forceDeallocateTarget index _ => some index
  | .moveToFront index => some index
  | .delay index .. => some index
  | .edit index _ => some index

def perform (queue : MshrQueue numEntries) (operation : Operation numEntries) :
    Except Assertion (MshrQueue numEntries) := do
  check (operation.subject.all fun index => queue.allocatedList.contains index) .mshrExpected
  match operation with
  | .allocate blkAddr blkSize pkt whenReady order allocOnFill =>
      Prod.snd <$> queue.allocate blkAddr blkSize pkt whenReady order allocOnFill
  | .markInService index pendingModified => queue.markInService index pendingModified
  | .markPending index => queue.markPending index
  | .deallocate index => queue.deallocate index
  | .forceDeallocateTarget index now => Prod.snd <$> queue.forceDeallocateTarget index now
  | .moveToFront index => pure (queue.moveToFront index)
  | .delay index now delayTicks => do
      check (!(queue.entries index).inService) .alreadyInService
      queue.delay index now delayTicks
  | .edit index edit => queue.setEntry index <$> edit.apply (queue.entries index)

theorem Represents.forceDeallocateTarget {now : Tick} {freed : Bool} (h : Represents queue)
    (hmem : index ∈ queue.allocatedList)
    (hforce : queue.forceDeallocateTarget index now = .ok (freed, next)) : Represents next := by
  have hpopped : Represents (queue.setEntry index (queue.entries index).popTarget) :=
    h.edit (setEntry_edited queue index _) (List.Perm.refl _) rfl rfl
  simp only [MshrQueue.forceDeallocateTarget, bind_eq_ok, check_eq_ok, exists_const] at hforce
  obtain ⟨-, hforce⟩ := hforce
  split at hforce
  · rw [pure_eq_ok, Prod.mk.injEq] at hforce
    rw [← hforce.2]
    exact hpopped
  · simp only [bind_eq_ok] at hforce
    obtain ⟨⟨promoted, mshr⟩, hpromote, hforce⟩ := hforce
    have hservice := (Mshr.promoteDeferredTargets_cases hpromote).1.inService
    have hrest := hpopped.edit (setEntry_edited _ index mshr) (List.Perm.refl _) rfl hservice
    split at hforce
    · rw [pure_eq_ok, Prod.mk.injEq] at hforce
      rw [← hforce.2]
      exact hrest
    · simp only [bind_eq_ok, pure_eq_ok, Prod.mk.injEq] at hforce
      obtain ⟨released, hrelease, -, rfl⟩ := hforce
      obtain ⟨free, -, hreleased⟩ := deallocate_spec hrelease
      exact hrest.release hmem hreleased

theorem Represents.moveToFront (h : Represents queue) (hmem : index ∈ queue.allocatedList) :
    Represents (queue.moveToFront index) := by
  unfold MshrQueue.moveToFront
  split
  · exact h
  · rename_i hidle
    have hready : index ∈ queue.readyList := by
      rw [h.ready.mem]
      exact ⟨hmem, by simpa [busy] using hidle⟩
    have hsame : queue.entries = Function.update queue.entries index (queue.entries index) :=
      (Function.update_eq_self index queue.entries).symm
    exact h.edit ⟨⟨rfl, rfl⟩, hsame, rfl, rfl, rfl⟩ (List.perm_cons_erase hready).symm rfl rfl

theorem Represents.delay {now delayTicks : Tick} (h : Represents queue)
    (hmem : index ∈ queue.allocatedList) (hidle : (queue.entries index).inService = false)
    (hdelay : queue.delay index now delayTicks = .ok next) : Represents next := by
  simp only [MshrQueue.delay, Mshr.delay, bind_eq_ok, check_eq_ok, exists_const,
    pure_eq_ok] at hdelay
  obtain ⟨mshr, ⟨-, rfl⟩, rfl⟩ := hdelay
  have hready : index ∈ queue.readyList := by
    rw [h.ready.mem]
    exact ⟨hmem, hidle⟩
  exact h.edit ⟨⟨rfl, rfl⟩, rfl, rfl, rfl, rfl⟩ (spliceBefore_perm hready _) rfl rfl

/-- Every operation keeps the representation invariant. -/
theorem perform_represents {operation : Operation numEntries} (h : Represents queue)
    (hperform : queue.perform operation = .ok next) : Represents next := by
  simp only [perform, bind_eq_ok, check_eq_ok, exists_const] at hperform
  obtain ⟨hsubject, hperform⟩ := hperform
  cases operation with
  | allocate blkAddr blkSize pkt whenReady order onFill =>
      rw [map_eq_ok] at hperform
      obtain ⟨⟨index, queue'⟩, halloc, rfl⟩ := hperform
      obtain ⟨mshr, hmshr, hspec⟩ := allocate_spec halloc
      exact h.allocate hspec (Mshr.allocate_spec hmshr).inService
  | markInService index pendingModified =>
      obtain ⟨mshr, hmshr, hedit, hready, hcount⟩ := markInService_spec hperform
      have hspec := Mshr.markInService_spec hmshr
      exact h.start (by simpa [Operation.subject] using hsubject) hspec.pending hedit hready hcount
        hspec.inService
  | markPending index =>
      obtain ⟨hbusy, hedit, hready, hcount⟩ := markPending_spec hperform
      exact h.stop (by simpa [Operation.subject] using hsubject) hbusy hedit hready hcount rfl
  | deallocate index =>
      obtain ⟨mshr, -, hrelease⟩ := deallocate_spec hperform
      exact h.release (by simpa [Operation.subject] using hsubject) hrelease
  | forceDeallocateTarget index now =>
      rw [map_eq_ok] at hperform
      obtain ⟨⟨freed, queue'⟩, hforce, rfl⟩ := hperform
      exact h.forceDeallocateTarget (by simpa [Operation.subject] using hsubject) hforce
  | moveToFront index =>
      rw [pure_eq_ok] at hperform
      subst hperform
      exact h.moveToFront (by simpa [Operation.subject] using hsubject)
  | delay index now delayTicks =>
      simp only [bind_eq_ok, check_eq_ok, exists_const, Bool.not_eq_true'] at hperform
      exact h.delay (by simpa [Operation.subject] using hsubject) hperform.1 hperform.2
  | edit index edit =>
      rw [map_eq_ok] at hperform
      obtain ⟨mshr, hedit, rfl⟩ := hperform
      exact h.edit (setEntry_edited queue index mshr) (List.Perm.refl _) rfl
        (Edit.apply_inService hedit)

/-- In every state the queue operations reach from the constructor, the lists,
the counters and the entries agree. -/
theorem lists_and_counters_agree {numReserve demandReserve : Nat}
    {operations : List (Operation numEntries)} {final : MshrQueue numEntries}
    (hrun : Transition.run perform (new numEntries numReserve demandReserve) operations =
      .ok final) :
    (∀ index, (index ∈ final.freeList ∧ index ∉ final.allocatedList) ∨
      (index ∉ final.freeList ∧ index ∈ final.allocatedList)) ∧
    final.freeList.Nodup ∧ final.allocatedList.Nodup ∧ final.readyList.Nodup ∧
    (∀ index, index ∈ final.readyList ↔
      index ∈ final.allocatedList ∧ (final.entries index).inService = false) ∧
    final.allocated = final.allocatedList.length ∧
    final.numInService =
      (final.allocatedList.filter fun index => (final.entries index).inService).length ∧
    0 ≤ final.numInService ∧ final.numInService ≤ final.allocated ∧
    final.allocated ≤ numEntries := by
  have h := Transition.run_invariant (fun _ => True)
    (fun _ _ _ _ hinv hstep => perform_represents hinv hstep) (fun _ _ => trivial) hrun
    (represents_new numEntries numReserve demandReserve)
  refine ⟨?_, h.partition.free_nodup, h.partition.used_nodup, h.ready.nodup, h.ready.mem,
    h.allocated, ?_, h.bounds⟩
  · intro index
    by_cases hfree : index ∈ final.freeList
    · exact .inl ⟨hfree, h.partition.disjoint index hfree⟩
    · exact .inr ⟨hfree, (h.partition.complete index).resolve_left hfree⟩
  · rw [h.numInService, List.countP_eq_length_filter]
    rfl

/-- Two misses are allocated, one is sent and answered and goes back to pending,
the other loses its only target. -/
def pendingAgain : List (Operation 2) :=
  let packet ptr addr cmd := Packet.ofRequest ptr (Request.physical addr 4 0 0) cmd
  [.allocate 0x40 4 (packet 0 0x40 .readReq) 0 0 true,
    .allocate 0x44 4 (packet 1 0x44 .readReq) 0 1 true, .markInService 0 false,
    .edit 0 (.allocateTarget (packet 2 0x40 .writeReq) 0 2 true),
    .edit 0 (.extractServiceableTargets .readResp), .edit 0 (.promoteDeferredTargets 0),
    .markPending 0, .moveToFront 1, .forceDeallocateTarget 1 0]

theorem lists_and_counters_agree_pendingAgain :
    ∃ final, Transition.run perform (new 2 0 1) pendingAgain = .ok final ∧
      final.readyList = [0] ∧ final.freeList = [1] ∧
      0 ≤ final.numInService ∧ final.numInService ≤ final.allocated ∧ final.allocated ≤ 2 := by
  obtain ⟨final, hrun, hseen⟩ := exists_ok_of_observed
    (show ((Transition.run perform (new 2 0 1) pendingAgain).toOption.map fun final =>
      (final.readyList, final.freeList)) = some ([0], [1]) by decide +kernel)
  obtain ⟨hready, hfree⟩ := Prod.mk.inj hseen
  obtain ⟨-, -, -, -, -, -, -, hbounds⟩ := lists_and_counters_agree hrun
  exact ⟨final, hrun, hready, hfree, hbounds⟩

end KuiperCache.MshrQueue
