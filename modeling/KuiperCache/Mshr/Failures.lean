import KuiperCache.Library.Avoids
import KuiperCache.Mshr.Mshr

/-! Which assertions the operations of an MSHR make.  All but its release only
make assertions about packets and targets, and fail for no other reason. -/
namespace KuiperCache

open Checked

namespace Assertion

/-- The assertions about packets and targets. -/
def ofTargets : Assertion → Bool
  | .notARequest | .noTargets | .notInService | .alreadyInService | .hardwarePrefetchTarget
  | .snoopTargetExpected | .cpuTargetExpected | .cpuOrPrefetcherTargetExpected
  | .downstreamPending | .targetsNeedWritable | .targetBlockMismatch | .unexpectedData
  | .writesBitmapOverrun => true
  | _ => false

theorem distinct {reason : Assertion} (h : reason.ofTargets = false) (other : Assertion)
    (hother : other.ofTargets = true) : other ≠ reason := by
  rintro rfl
  rw [h] at hother
  cases hother

end Assertion

open Assertion

variable {reason : Assertion}

@[simp] theorem Packet.needsWritable_avoids (h : reason.ofTargets = false) (pkt : Packet) :
    Avoids reason pkt.needsWritable := by
  simp [needsWritable, distinct h .notARequest rfl]

namespace TargetList

theorem updateWriteFlags_avoids (h : reason.ofTargets = false) (targets : TargetList)
    (pkt : Packet) : Avoids reason (targets.updateWriteFlags pkt) := by
  simp [updateWriteFlags, fillWrites, distinct h .writesBitmapOverrun rfl]

theorem updateFlags_avoids (h : reason.ofTargets = false) (targets : TargetList) (pkt : Packet)
    (source : Source) (allocOnFill : Bool) :
    Avoids reason (targets.updateFlags pkt source allocOnFill) := by
  simp [updateFlags, updateWriteFlags_avoids, h]

@[simp] theorem populateFlags_avoids (h : reason.ofTargets = false) (targets : TargetList) :
    Avoids reason targets.populateFlags :=
  avoids_foldlM (fun _ _ => updateFlags_avoids h _ _ _ _) _ _

@[simp] theorem add_avoids (h : reason.ofTargets = false) (targets : TargetList)
    (target : Target) : Avoids reason (targets.add target) := by
  simp [add, updateFlags_avoids, h]

end TargetList

namespace Mshr

@[simp] theorem getTarget_avoids (h : reason.ofTargets = false) (mshr : Mshr) :
    Avoids reason mshr.getTarget := by
  unfold getTarget
  split
  · simp [distinct h .noTargets rfl]
  · simp

@[simp] theorem allocate_avoids (h : reason.ofTargets = false) (mshr : Mshr) (blkAddr : Addr)
    (blkSize : Nat) (pkt : Packet) (whenReady : Tick) (order : Nat) (onFill : Bool) :
    Avoids reason (mshr.allocate blkAddr blkSize pkt whenReady order onFill) := by
  simp [allocate, h, distinct h .targetBlockMismatch rfl]

@[simp] theorem markInService_avoids (h : reason.ofTargets = false) (mshr : Mshr)
    (pendingModified : Bool) : Avoids reason (mshr.markInService pendingModified) := by
  simp [markInService, distinct h .alreadyInService rfl]

@[simp] theorem allocateTarget_avoids (h : reason.ofTargets = false) (mshr : Mshr) (pkt : Packet)
    (whenReady : Tick) (order : Nat) (onFill : Bool) :
    Avoids reason (mshr.allocateTarget pkt whenReady order onFill) := by
  simp [allocateTarget, defers, deferTarget, appendTarget, replaceUpgrade, h,
    distinct h .hardwarePrefetchTarget rfl, distinct h .unexpectedData rfl]

theorem splitSnoops_avoids (h : reason.ofTargets = false) (list : List Target) :
    Avoids reason (splitSnoops list) := by
  induction list with
  | nil => simp [splitSnoops]
  | cons target rest ih =>
      simp only [splitSnoops, avoids_bind, ih, Prod.forall, true_and]
      intro snoops waiting hsplit
      cases target.source <;> simp [distinct h .snoopTargetExpected rfl]

@[simp] theorem extractServiceableTargets_avoids (h : reason.ofTargets = false) (mshr : Mshr)
    (resp : MemCmd) : Avoids reason (mshr.extractServiceableTargets resp) := by
  have hserviceable : Avoids reason (serviceable mshr.targets.list resp) := by
    unfold serviceable
    split
    · split
      · simp [distinct h .noTargets rfl]
      · simp [splitSnoops_avoids h, distinct h .cpuOrPrefetcherTargetExpected rfl]
    · simp
  simp [extractServiceableTargets, hserviceable, h]

@[simp] theorem promoteDeferredTargets_avoids (h : reason.ofTargets = false) (mshr : Mshr)
    (now : Tick) : Avoids reason (mshr.promoteDeferredTargets now) := by
  simp [promoteDeferredTargets, h]

theorem promoteIf_avoids (h : reason.ofTargets = false) (mshr : Mshr)
    {test : Target → Except Assertion Bool} (htest : ∀ target, Avoids reason (test target)) :
    Avoids reason (mshr.promoteIf test) := by
  simp [promoteIf, avoids_splitWhile htest, h, distinct h .downstreamPending rfl]

@[simp] theorem promoteReadable_avoids (h : reason.ofTargets = false) (mshr : Mshr) :
    Avoids reason mshr.promoteReadable := by
  have htest : ∀ target, Avoids reason (promotesReadable target) := by
    simp [promotesReadable, h, distinct h .cpuTargetExpected rfl]
  simp [promoteReadable, promoteIf_avoids h mshr htest, distinct h .notInService rfl]

@[simp] theorem promoteWritable_avoids (h : reason.ofTargets = false) (mshr : Mshr) :
    Avoids reason mshr.promoteWritable := by
  have htest : ∀ target, Avoids reason (promotesWritable target) := by
    simp [promotesWritable, distinct h .cpuTargetExpected rfl]
  unfold promoteWritable
  split
  · simp
  · simp [promoteIf_avoids h mshr.askWritable htest, distinct h .notInService rfl,
      distinct h .targetsNeedWritable rfl]

end Mshr

end KuiperCache
