import KuiperCache.Library.StableOrder
import KuiperCache.Mshr.Failures
import KuiperCache.Queue.Representation

/-! The order of the ready list.  Entries stand by ready time, equal times in
the order in which they were put on the list, so that its head is the entry to
send next. -/
namespace KuiperCache

open Checked StableOrder

namespace Queue

variable {Entry : Type} {numEntries : Nat} [QueueEntry Entry]

/-- Ordered by ready time, and for equal times by the moment of insertion. -/
def Ordered (queue : Queue Entry numEntries) (inserted : Fin numEntries → Nat) : Prop :=
  queue.readyList.Pairwise (Precedes queue.readyTime inserted)

variable {queue next : Queue Entry numEntries} {index : Fin numEntries}
  {inserted inserted' : Fin numEntries → Nat}

/-- The scan always finds an entry when the fast path does not apply: the last
one is such an entry. -/
theorem addToReadyList_total (queue : Queue Entry numEntries) (index : Fin numEntries) :
    ∃ readyList, queue.addToReadyList index = .ok readyList := by
  unfold addToReadyList
  split
  · exact ⟨_, rfl⟩
  · next hlast =>
      cases hinsert : SlotPool.insertBefore
          (fun i => decide (queue.readyTime index < queue.readyTime i)) index queue.readyList with
      | some readyList => exact ⟨readyList, rfl⟩
      | none =>
          have hnone := SlotPool.insertBefore_eq_none hinsert
          refine absurd ?_ hlast
          rw [Option.all_eq_true]
          intro last hmem
          simpa using hnone last (List.mem_of_getLast? hmem)

/-- An entry goes behind those that are ready no later than it. -/
theorem Ordered.addToReadyList {readyList : List (Fin numEntries)} (h : queue.Ordered inserted)
    (hnew : ∀ other ∈ queue.readyList, inserted other < inserted index)
    (hadd : queue.addToReadyList index = .ok readyList) :
    readyList.Pairwise (Precedes queue.readyTime inserted) := by
  unfold Queue.addToReadyList at hadd
  split at hadd
  · next hlast =>
      cases hadd
      apply pairwise_insert
      · rw [List.append_nil]
        exact h
      · intro other hother
        cases hback : queue.readyList.getLast? with
        | none =>
            rw [List.getLast?_eq_none_iff.mp hback] at hother
            cases hother
        | some last =>
            rw [hback, Option.all_some, decide_eq_true_eq] at hlast
            exact (key_le_last h hback other hother).trans hlast
      · simp
      · exact hnew
  · split at hadd
    · next readyList' hinsert =>
        cases hadd
        obtain ⟨front, head, tail, hlist, rfl, hhead, hfront⟩ := SlotPool.insertBefore_split hinsert
        simp only [decide_eq_true_eq, decide_eq_false_iff_not, not_lt] at hhead hfront
        rw [Ordered, hlist] at h
        apply pairwise_insert h hfront
        · intro other hother
          obtain rfl | hother := List.mem_cons.mp hother
          · exact hhead
          · have hbehind := (List.pairwise_cons.mp (List.pairwise_append.mp h).2.1).1 other hother
            exact hhead.trans_le hbehind.key_le
        · intro other hother
          exact hnew other (by simp [hlist, hother])
    · cases hadd

/-- The order only depends on the listed entries. -/
theorem Ordered.congr (h : queue.Ordered inserted)
    (hlist : next.readyList.Sublist queue.readyList)
    (hsame : ∀ other ∈ next.readyList, next.readyTime other = queue.readyTime other ∧
      inserted' other = inserted other) : next.Ordered inserted' := by
  apply List.Pairwise.imp_of_mem _ (List.Pairwise.sublist hlist h)
  intro first second hfirst hsecond hprecedes
  obtain ⟨htime, hmoment⟩ := hsame first hfirst
  obtain ⟨htime', hmoment'⟩ := hsame second hsecond
  rw [Precedes, htime, htime', hmoment, hmoment']
  exact hprecedes

/-- The head is the entry to send next, and nothing is when the head is not
ready. -/
theorem Ordered.getNext_eq_none (h : queue.Ordered inserted) {now : Tick} :
    queue.getNext now = none ↔ ∀ index ∈ queue.readyList, now < queue.readyTime index := by
  unfold getNext
  split
  · next hlist => simp [hlist]
  · next head tail hlist =>
      rw [Ordered, hlist, List.pairwise_cons] at h
      rw [hlist, ite_eq_left_iff]
      constructor
      · intro hnone index hindex
        have hhead : now < queue.readyTime head := by
          by_contra hlate
          cases hnone hlate
        obtain rfl | hindex := List.mem_cons.mp hindex
        · exact hhead
        · exact hhead.trans_le (h.1 index hindex).key_le
      · intro hall hlate
        exact absurd (hall head List.mem_cons_self) hlate

theorem Ordered.getNext_eq_some (h : queue.Ordered inserted) {now : Tick}
    (hnext : queue.getNext now = some index) :
    index ∈ queue.readyList ∧ queue.readyTime index ≤ now ∧
      ∀ other ∈ queue.readyList, other ≠ index →
        Precedes queue.readyTime inserted index other := by
  unfold getNext at hnext
  split at hnext
  · cases hnext
  · next head tail hlist =>
      rw [Ordered, hlist, List.pairwise_cons] at h
      split at hnext
      · cases hnext
      · next hready =>
          cases hnext
          rw [hlist]
          refine ⟨List.mem_cons_self, not_lt.mp hready, ?_⟩
          intro other hother hne
          exact h.1 other ((List.mem_cons.mp hother).resolve_left hne)

/-- The time of the head is the least of all. -/
theorem Ordered.nextReadyTime_le (h : queue.Ordered inserted) (hindex : index ∈ queue.readyList) :
    queue.nextReadyTime ≤ queue.readyTime index := by
  unfold nextReadyTime
  split
  · next hlist =>
      rw [hlist] at hindex
      cases hindex
  · next head tail hlist =>
      rw [Ordered, hlist, List.pairwise_cons] at h
      rw [hlist] at hindex
      obtain rfl | hindex := List.mem_cons.mp hindex
      · exact le_rfl
      · exact (h.1 index hindex).key_le

theorem nextReadyTime_attained (hindex : index ∈ queue.readyList) :
    ∃ first ∈ queue.readyList, queue.nextReadyTime = queue.readyTime first := by
  unfold nextReadyTime
  split
  · next hlist =>
      rw [hlist] at hindex
      cases hindex
  · next head tail hlist => exact ⟨head, by rw [hlist]; exact List.mem_cons_self, rfl⟩

theorem nextReadyTime_of_nil (hnil : queue.readyList = []) :
    queue.nextReadyTime = 2 ^ 64 - 1 := by
  rw [nextReadyTime, hnil]

end Queue

/-- A queue with the moments at which its entries were put on the ready list. -/
structure TimedQueue (numEntries : Nat) where
  queue : MshrQueue numEntries
  inserted : Fin numEntries → Nat
  clock : Nat

namespace MshrQueue

variable {numEntries : Nat}

/-- The entry that an operation puts on the ready list. -/
def readied (queue : MshrQueue numEntries) : Operation numEntries → Option (Fin numEntries)
  | .allocate .. => queue.freeList.head?
  | .markPending index => some index
  | _ => none

/-- The operations that keep the list in order: allocation, service, return and
release, and edits that change the ready time of entries in service only. -/
def keepsOrder (queue : MshrQueue numEntries) : Operation numEntries → Bool
  | .allocate .. | .markInService .. | .markPending .. | .deallocate .. => true
  | .edit index (.promoteDeferredTargets _) => (queue.entries index).inService
  | .edit .. => true
  | .forceDeallocateTarget .. | .moveToFront .. | .delay .. => false

/-- Promotion by a response does nothing to an entry that is not in service. -/
theorem promoteReadable_idle {mshr mshr' : Mshr} (hidle : mshr.inService = false)
    (h : mshr.promoteReadable = .ok mshr') : mshr' = mshr := by
  unfold Mshr.promoteReadable at h
  split at h
  · cases h
    rfl
  · rw [hidle] at h
    cases h

theorem promoteWritable_idle {mshr mshr' : Mshr} (hidle : mshr.inService = false)
    (h : mshr.promoteWritable = .ok mshr') : mshr' = mshr := by
  unfold Mshr.promoteWritable at h
  split at h
  · cases h
    rfl
  · split at h
    · cases h
      rfl
    · rw [hidle] at h
      cases h

/-- The edits that keep the list in order leave the ready time of a waiting
entry alone. -/
theorem Edit.apply_readyTime {queue : MshrQueue numEntries} {index : Fin numEntries} {edit : Edit}
    {mshr : Mshr} (hkeeps : queue.keepsOrder (.edit index edit) = true)
    (hidle : queue.busy index = false) (h : edit.apply (queue.entries index) = .ok mshr) :
    mshr.readyTime = (queue.entries index).readyTime := by
  unfold busy at hidle
  cases edit with
  | allocateTarget pkt whenReady order onFill => exact (allocateTarget_kept h).2
  | promoteReadable => rw [promoteReadable_idle hidle h]
  | promoteWritable => rw [promoteWritable_idle hidle h]
  | extractServiceableTargets resp =>
      simp only [apply, bind_eq_ok, pure_eq_ok] at h
      obtain ⟨⟨ready, rest⟩, hextract, rfl⟩ := h
      obtain ⟨served, left, targets, -, -, -, rfl⟩ :=
        Mshr.extractServiceableTargets_eq_ok hextract
      rfl
  | promoteDeferredTargets now =>
      rw [keepsOrder, hidle] at hkeeps
      cases hkeeps
  | setForward isForward =>
      cases h
      rfl
  | setDownstreamPending pending =>
      cases h
      rfl

/-- An allocation inserts the filled entry into the ready list. -/
theorem allocate_readyList {queue next : MshrQueue numEntries} {index : Fin numEntries}
    {blkAddr : Addr} {blkSize : Nat} {pkt : Packet} {whenReady : Tick} {order : Nat} {onFill : Bool}
    (h : queue.allocate blkAddr blkSize pkt whenReady order onFill = .ok (index, next)) :
    ∃ mshr, queue.freeList.head? = some index ∧
      next.entries = Function.update queue.entries index mshr ∧
      (queue.toQueue.setEntry index mshr).addToReadyList index = .ok next.readyList := by
  unfold allocate at h
  split at h
  · cases h
  · next head freeList hfree =>
      simp only [bind_eq_ok, check_eq_ok, exists_const, pure_eq_ok, Prod.mk.injEq] at h
      obtain ⟨-, mshr, -, readyList, hready, rfl, rfl⟩ := h
      exact ⟨mshr, by rw [hfree, List.head?_cons], rfl, hready⟩

theorem markPending_readyList {queue next : MshrQueue numEntries} {index : Fin numEntries}
    (h : queue.markPending index = .ok next) :
    ∃ mshr, (queue.entries index).inService = true ∧
      next.entries = Function.update queue.entries index mshr ∧
      (queue.toQueue.setEntry index mshr).addToReadyList index = .ok next.readyList := by
  simp only [markPending, bind_eq_ok, check_eq_ok, exists_const, pure_eq_ok] at h
  obtain ⟨hservice, readyList, hready, rfl⟩ := h
  exact ⟨_, hservice, rfl, hready⟩

/-- Falling off the scan is none of the assertions an MSHR makes. -/
@[simp] theorem readyListExhausted_ofTargets :
    Assertion.readyListExhausted.ofTargets = false := by
  decide

theorem addToReadyList_avoids_exhaustion (queue : Queue Mshr numEntries) (index : Fin numEntries) :
    Avoids .readyListExhausted (queue.addToReadyList index) := by
  obtain ⟨readyList, hadd⟩ := queue.addToReadyList_total index
  rw [hadd]
  exact avoids_ok readyList

theorem Edit.apply_avoids_exhaustion (mshr : Mshr) (edit : Edit) :
    Avoids .readyListExhausted (edit.apply mshr) := by
  cases edit <;> simp [apply]

theorem deallocate_avoids_exhaustion (queue : MshrQueue numEntries) (index : Fin numEntries) :
    Avoids .readyListExhausted (queue.deallocate index) := by
  simp [deallocate, Queue.deallocate, QueueEntry.deallocate, Mshr.deallocate]

/-- No operation falls off the end of the scan. -/
theorem perform_avoids_exhaustion (queue : MshrQueue numEntries)
    (operation : Operation numEntries) :
    Avoids .readyListExhausted (queue.perform operation) := by
  unfold perform
  simp only [avoids_bind, avoids_check, ne_eq, reduceCtorEq, not_false_eq_true, or_true, true_and]
  intro _ _
  cases operation with
  | allocate blkAddr blkSize pkt whenReady order onFill =>
      rw [avoids_map, allocate]
      split
      · simp
      · simp [addToReadyList_avoids_exhaustion]
  | markInService index pendingModified => simp [markInService]
  | markPending index => simp [markPending, addToReadyList_avoids_exhaustion]
  | deallocate index => exact deallocate_avoids_exhaustion queue index
  | forceDeallocateTarget index now =>
      simp [forceDeallocateTarget, deallocate_avoids_exhaustion]
  | moveToFront index => exact avoids_pure _
  | delay index now delayTicks => simp [delay, Mshr.delay]
  | edit index edit => simp [Edit.apply_avoids_exhaustion]

end MshrQueue

namespace TimedQueue

open MshrQueue SlotPool

variable {numEntries : Nat}

def new (numEntries numReserve demandReserve : Nat) : TimedQueue numEntries :=
  { queue := MshrQueue.new numEntries numReserve demandReserve, inserted := fun _ => 0, clock := 1 }

/-- The moments after an operation. -/
def moments (state : TimedQueue numEntries) (operation : Operation numEntries) :
    Fin numEntries → Nat :=
  match state.queue.readied operation with
  | some index => Function.update state.inserted index state.clock
  | none => state.inserted

def step (state : TimedQueue numEntries) (operation : Operation numEntries) :
    Except Assertion (TimedQueue numEntries) := do
  let queue ← state.queue.perform operation
  pure { queue, inserted := state.moments operation, clock := state.clock + 1 }

def keepsOrder (state : TimedQueue numEntries) (operation : Operation numEntries) : Bool :=
  state.queue.keepsOrder operation

/-- The invariant: the lists agree with the entries, and the ready list is in
order. -/
structure InOrder (state : TimedQueue numEntries) : Prop where
  represents : state.queue.Represents
  ordered : state.queue.toQueue.Ordered state.inserted
  past : ∀ index, state.inserted index < state.clock

theorem inOrder_new (numEntries numReserve demandReserve : Nat) :
    (new numEntries numReserve demandReserve).InOrder :=
  ⟨represents_new numEntries numReserve demandReserve, List.Pairwise.nil, fun _ => Nat.one_pos⟩

variable {state next : TimedQueue numEntries} {index : Fin numEntries} {mshr : Mshr}

/-- An entry that is not listed is inserted now. -/
theorem InOrder.insert (h : InOrder state) (hindex : index ∉ state.queue.readyList)
    (hentries : next.queue.entries = Function.update state.queue.entries index mshr)
    (hadd : (state.queue.toQueue.setEntry index mshr).addToReadyList index =
      .ok next.queue.readyList)
    (hinserted : next.inserted = Function.update state.inserted index state.clock) :
    next.queue.toQueue.Ordered next.inserted := by
  have hne : ∀ other ∈ state.queue.readyList, other ≠ index := by
    rintro other hother rfl
    exact hindex hother
  have hfilled : (state.queue.toQueue.setEntry index mshr).Ordered next.inserted := by
    refine h.ordered.congr ?_ ?_
    · exact List.Sublist.refl _
    intro other hother
    have hother := hne other hother
    rw [hinserted]
    exact ⟨by simp [Queue.readyTime, Queue.setEntry, hother], by simp [hother]⟩
  have hordered := hfilled.addToReadyList (fun other hother => ?_) hadd
  · have htimes : next.queue.toQueue.readyTime =
        (state.queue.toQueue.setEntry index mshr).readyTime := by
      funext other
      rw [Queue.readyTime, hentries]
      rfl
    rw [Queue.Ordered, htimes]
    exact hordered
  · have hother := hne other hother
    rw [hinserted, Function.update_self, Function.update_of_ne hother]
    exact h.past other

/-- An entry that is not listed, or keeps its ready time, changes. -/
theorem InOrder.change (h : InOrder state)
    (hlist : next.queue.readyList.Sublist state.queue.readyList)
    (hentries : next.queue.entries = Function.update state.queue.entries index mshr)
    (htime : index ∈ next.queue.readyList →
      mshr.readyTime = (state.queue.entries index).readyTime)
    (hinserted : next.inserted = state.inserted) :
    next.queue.toQueue.Ordered next.inserted := by
  apply h.ordered.congr hlist
  intro other hother
  refine ⟨?_, by rw [hinserted]⟩
  rw [Queue.readyTime, Queue.readyTime, hentries]
  by_cases heq : other = index
  · subst heq
    rw [Function.update_self]
    exact htime hother
  · rw [Function.update_of_ne heq]

/-- An entry leaves the list. -/
theorem InOrder.remove (h : InOrder state)
    (hlist : next.queue.readyList = state.queue.readyList.erase index)
    (hentries : next.queue.entries = Function.update state.queue.entries index mshr)
    (hinserted : next.inserted = state.inserted) :
    next.queue.toQueue.Ordered next.inserted := by
  refine h.change ?_ hentries ?_ hinserted
  · rw [hlist]
    exact List.erase_sublist
  · intro hmem
    rw [hlist] at hmem
    exact absurd hmem h.represents.ready.nodup.not_mem_erase

theorem InOrder.past_moments (h : InOrder state) (operation : Operation numEntries)
    (index : Fin numEntries) : state.moments operation index < state.clock + 1 := by
  have hpast := h.past index
  unfold moments
  cases state.queue.readied operation with
  | none => exact hpast.trans (Nat.lt_succ_self _)
  | some added =>
      dsimp only
      rw [Function.update_apply]
      split <;> omega

/-- Every operation that keeps the order keeps the invariant. -/
theorem InOrder.step {operation : Operation numEntries} (h : InOrder state)
    (hkeeps : state.keepsOrder operation = true)
    (hstep : state.step operation = .ok next) : InOrder next := by
  simp only [TimedQueue.step, bind_eq_ok, pure_eq_ok] at hstep
  obtain ⟨queue, hperform, rfl⟩ := hstep
  refine ⟨perform_represents h.represents hperform, ?_, h.past_moments operation⟩
  simp only [perform, bind_eq_ok, check_eq_ok, exists_const] at hperform
  obtain ⟨-, hperform⟩ := hperform
  have hready := h.represents.ready
  cases operation with
  | allocate blkAddr blkSize pkt whenReady order onFill =>
      rw [map_eq_ok] at hperform
      obtain ⟨⟨index, queue'⟩, halloc, rfl⟩ := hperform
      obtain ⟨mshr, hfree, hentries, hadd⟩ := allocate_readyList halloc
      refine h.insert ?_ hentries hadd (by simp only [moments, readied, hfree])
      rw [hready.mem]
      exact fun hmem => h.represents.partition.disjoint index (List.mem_of_head? hfree) hmem.1
  | markInService index pendingModified =>
      obtain ⟨mshr, hmshr, hedit, hlist, -⟩ := markInService_spec hperform
      exact h.remove hlist hedit.entries rfl
  | markPending index =>
      obtain ⟨mshr, hservice, hentries, hadd⟩ := markPending_readyList hperform
      refine h.insert ?_ hentries hadd rfl
      rw [hready.mem, busy, hservice]
      simp
  | deallocate index =>
      obtain ⟨mshr, -, hreleased⟩ := deallocate_spec hperform
      exact h.remove (h.represents.readyList_released hreleased) hreleased.entries rfl
  | edit index edit =>
      rw [map_eq_ok] at hperform
      obtain ⟨mshr, hedit, rfl⟩ := hperform
      refine h.change (List.Sublist.refl _) (setEntry_edited _ index mshr).entries ?_ rfl
      intro hmem
      exact Edit.apply_readyTime hkeeps ((hready.mem index).mp hmem).2 hedit
  | forceDeallocateTarget index now => cases hkeeps
  | moveToFront index => cases hkeeps
  | delay index now delayTicks => cases hkeeps

theorem step_avoids (state : TimedQueue numEntries) (operation : Operation numEntries) :
    Avoids .readyListExhausted (state.step operation) := by
  simp [step, perform_avoids_exhaustion]

/-- Allocated and not in service. -/
def Pending (queue : MshrQueue numEntries) (index : Fin numEntries) : Prop :=
  index ∈ queue.allocatedList ∧ (queue.entries index).inService = false

/-- In every state that allocation, service, return and release reach, the
ready list is in order, and so the next entry to send and the time at which it
is ready are read off its head. -/
theorem ready_list_is_ordered {numReserve demandReserve : Nat}
    {operations : List (Operation numEntries)}
    (hkeeps : Transition.meets step keepsOrder (new numEntries numReserve demandReserve)
      operations = true) :
    Avoids .readyListExhausted
      (Transition.run step (new numEntries numReserve demandReserve) operations) ∧
    ∀ final, Transition.run step (new numEntries numReserve demandReserve) operations = .ok final →
      final.queue.readyList.Pairwise (Precedes final.queue.readyTime final.inserted) ∧
      (∀ now, final.queue.getNext now = none ↔
        ¬ ∃ index, Pending final.queue index ∧ (final.queue.entries index).readyTime ≤ now) ∧
      (∀ now index, final.queue.getNext now = some index →
        Pending final.queue index ∧ (final.queue.entries index).readyTime ≤ now ∧
        ∀ other, Pending final.queue other → other ≠ index →
          (final.queue.entries index).readyTime < (final.queue.entries other).readyTime ∨
          ((final.queue.entries index).readyTime = (final.queue.entries other).readyTime ∧
            final.inserted index < final.inserted other)) ∧
      (∀ index, Pending final.queue index →
        final.queue.nextReadyTime ≤ (final.queue.entries index).readyTime) ∧
      ((∃ index, Pending final.queue index ∧
          final.queue.nextReadyTime = (final.queue.entries index).readyTime) ∨
        ((∀ index, ¬ Pending final.queue index) ∧
          final.queue.nextReadyTime = 2 ^ 64 - 1)) := by
  have hnew := inOrder_new numEntries numReserve demandReserve
  have hpreserved : ∀ (state : TimedQueue numEntries) operation next,
      state.keepsOrder operation = true → InOrder state →
      state.step operation = .ok next → InOrder next :=
    fun _ _ _ hkeeps h hstep => h.step hkeeps hstep
  refine ⟨Transition.run_avoids hpreserved (fun state operation _ _ => state.step_avoids operation)
    hkeeps hnew, ?_⟩
  intro final hrun
  have hfinal := Transition.run_meets hpreserved hkeeps hrun hnew
  have hmem := hfinal.represents.ready.mem
  refine ⟨hfinal.ordered, ?_, ?_, ?_, ?_⟩
  · intro now
    rw [hfinal.ordered.getNext_eq_none]
    simp only [not_exists, not_and, not_le, hmem]
    rfl
  · intro now index hnext
    obtain ⟨hindex, hready, hfirst⟩ := hfinal.ordered.getNext_eq_some hnext
    refine ⟨(hmem index).mp hindex, hready, ?_⟩
    intro other hother hne
    exact hfirst other ((hmem other).mpr hother) hne
  · intro index hindex
    exact hfinal.ordered.nextReadyTime_le ((hmem index).mpr hindex)
  · cases hlist : final.queue.readyList with
    | nil =>
        refine .inr ⟨?_, Queue.nextReadyTime_of_nil hlist⟩
        intro index hindex
        have hlisted := (hmem index).mpr hindex
        rw [hlist] at hlisted
        cases hlisted
    | cons head tail =>
        have hhead : head ∈ final.queue.readyList := by simp [hlist]
        obtain ⟨first, hfirst, htime⟩ := Queue.nextReadyTime_attained hhead
        exact .inl ⟨first, (hmem first).mp hfirst, htime⟩

/-- Two misses are ready at tick 5.  The first one is sent, answered with another
target behind it and promoted at tick 7, so that it returns behind the second. -/
def returnsLater (first : Fin 2) : List (Operation 2) :=
  let packet ptr addr cmd := Packet.ofRequest ptr (Request.physical addr 4 0 0) cmd
  [.allocate 0x40 4 (packet 0 0x40 .readReq) 5 0 true,
    .allocate 0x44 4 (packet 1 0x44 .readReq) 5 1 true, .markInService first false,
    .edit first (.allocateTarget (packet 2 0x40 .writeReq) 6 2 true),
    .edit first (.extractServiceableTargets .readResp),
    .edit first (.promoteDeferredTargets 7), .markPending first]

theorem ready_list_is_ordered_returnsLater :
    ∃ final, Transition.run step (new 2 0 1) (returnsLater 0) = .ok final ∧
      final.queue.readyList = [1, 0] ∧ final.queue.getNext 6 = some 1 ∧
      (final.queue.entries 1).readyTime ≤ 6 ∧ final.queue.getNext 4 = none ∧
      ¬ ∃ index, Pending final.queue index ∧ (final.queue.entries index).readyTime ≤ 4 := by
  obtain ⟨final, hrun, hseen⟩ := exists_ok_of_observed
    (show ((Transition.run step (new 2 0 1) (returnsLater 0)).toOption.map fun final =>
      (final.queue.readyList, final.queue.getNext 6, final.queue.getNext 4)) =
        some ([1, 0], some 1, none) by decide +kernel)
  obtain ⟨hlist, hsecond⟩ := Prod.mk.inj hseen
  obtain ⟨hnext, hnone⟩ := Prod.mk.inj hsecond
  obtain ⟨-, hempty, hfirst, -⟩ := (ready_list_is_ordered (by decide +kernel)).2 final hrun
  exact ⟨final, hrun, hlist, hnext, (hfirst 6 1 hnext).2.1, hnone, (hempty 4).mp hnone⟩

end TimedQueue

end KuiperCache
