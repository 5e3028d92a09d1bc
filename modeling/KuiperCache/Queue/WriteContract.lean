import KuiperCache.Library.Transition
import KuiperCache.Queue.WriteQueue

/-! What the write queue promises, and that it cannot keep it: the assertions
that should refuse the wrong packets refuse all of them. -/
namespace KuiperCache.WriteQueue

open Checked

variable {numEntries : Nat}

/-- The calls on the write queue; a packet is entered under its own block. -/
inductive Operation (numEntries : Nat) where
  | allocate (blkSize : Nat) (pkt : Packet) (whenReady : Tick) (order : Nat)
  | markInService (index : Fin numEntries)

def perform (queue : WriteQueue numEntries) :
    Operation numEntries → Except Assertion (WriteQueue numEntries)
  | .allocate blkSize pkt whenReady order =>
      Prod.snd <$> allocate queue (pkt.getBlockAddr blkSize) blkSize pkt whenReady order
  | .markInService index => markInService queue index

/-- An uncacheable write, a cacheable eviction or a `WriteClean`. -/
def admissible (pkt : Packet) : Bool :=
  (pkt.cmd.isWrite && pkt.req.isUncacheable) || (pkt.cmd.isEviction && !pkt.req.isUncacheable) ||
    pkt.cmd == .writeClean

/-- The calls the queue is made for. -/
def callable (queue : WriteQueue numEntries) : Operation numEntries → Bool
  | .allocate _ pkt _ _ => !queue.freeList.isEmpty && admissible pkt
  | .markInService index => queue.allocatedList.contains index

structure Contract (queue : WriteQueue numEntries) : Prop where
  partition : SlotPool.Partition queue.freeList queue.allocatedList
  ready : queue.readyList.Perm queue.allocatedList
  allocated : queue.allocated = queue.allocatedList.length
  single : ∀ index ∈ queue.allocatedList, ∃ target,
    (queue.entries index).targets = [target] ∧
      target.pkt.getBlockAddr (queue.entries index).blkSize = (queue.entries index).blkAddr ∧
      target.pkt.isSecure = (queue.entries index).isSecure

theorem contract_new (numEntries numReserve : Nat) :
    Contract (Queue.new numEntries numReserve WriteQueueEntry.empty) := by
  refine ⟨⟨List.nodup_finRange numEntries, List.nodup_nil, by simp [Queue.new], ?_⟩,
    List.Perm.refl _, rfl, ?_⟩
  · exact fun slot => .inl (List.mem_finRange slot)
  · intro index hindex
    cases hindex

/-- A call that is made as it should be fails when the queue is empty. -/
theorem perform_fails {queue : WriteQueue numEntries} {operation : Operation numEntries}
    (hempty : queue.allocatedList = []) (hcallable : callable queue operation = true)
    (next : WriteQueue numEntries) : perform queue operation ≠ .ok next := by
  intro h
  cases operation with
  | allocate blkSize pkt whenReady order =>
      simp only [perform, map_eq_ok] at h
      obtain ⟨result, hallocate, -⟩ := h
      exact allocate_fails queue _ blkSize pkt whenReady order result hallocate
  | markInService index =>
      simp [callable, hempty] at hcallable

theorem entry_allocate_fails {entry : WriteQueueEntry} (hempty : entry.targets = [])
    (blkAddr : Addr) (blkSize : Nat) (pkt : Packet) (whenReady : Tick) (order : Nat) :
    entry.allocate blkAddr blkSize pkt whenReady order = .error .writeQueueEntryEmpty := by
  simp [WriteQueueEntry.allocate, hempty]

/-- The contract is kept by the empty sequence of calls alone.  What should be
rejected is rejected, as everything else is. -/
theorem contract_kept_iff_never_called (numReserve : Nat)
    (operations : List (Operation numEntries))
    (hcallable : Transition.meets perform callable
      (Queue.new numEntries numReserve WriteQueueEntry.empty) operations = true) :
    ((∃ final, Transition.run perform (Queue.new numEntries numReserve WriteQueueEntry.empty)
        operations = .ok final ∧ Contract final) ↔ operations = []) ∧
      ∀ entry pkt, entry.targets = [] → pkt.req.isUncacheable = false →
        pkt.cmd.isEviction = false → pkt.cmd ≠ .writeClean →
        ∀ blkAddr blkSize whenReady order,
          WriteQueueEntry.allocate entry blkAddr blkSize pkt whenReady order =
            .error .writeQueueEntryEmpty := by
  refine ⟨⟨?_, ?_⟩, ?_⟩
  · rintro ⟨final, hrun, -⟩
    cases operations with
    | nil => rfl
    | cons operation operations =>
        obtain ⟨next, hstep, -⟩ := Transition.run_cons_eq_ok.mp hrun
        have hfirst := (Transition.meets_cons.mp hcallable).1
        exact absurd hstep (perform_fails rfl hfirst next)
  · rintro rfl
    exact ⟨_, rfl, contract_new numEntries numReserve⟩
  · intro entry pkt hempty _ _ _ blkAddr blkSize whenReady order
    exact entry_allocate_fails hempty blkAddr blkSize pkt whenReady order

/-- One writeback for a queue of four entries. -/
def oneWriteback : List (Operation 4) :=
  [.allocate 64 (Packet.ofRequest 0 (Request.physical 0x40 64 0 0) .writebackDirty) 0 0]

theorem contract_kept_iff_never_called_writeback :
    ¬ ∃ final, Transition.run perform (Queue.new 4 1 WriteQueueEntry.empty) oneWriteback =
      .ok final ∧ Contract final := by
  rw [(contract_kept_iff_never_called 1 oneWriteback (by decide)).1]
  simp [oneWriteback]

theorem first_writeback_fails_allocate :
    Transition.meets perform callable (Queue.new 4 1 WriteQueueEntry.empty) oneWriteback = true ∧
      Transition.run perform (Queue.new 4 1 WriteQueueEntry.empty) oneWriteback =
        .error .writeQueueEntryEmpty :=
  ⟨by decide, failure_eq_some.mp (by decide)⟩

end KuiperCache.WriteQueue
