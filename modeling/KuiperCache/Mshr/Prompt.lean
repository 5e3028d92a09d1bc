import KuiperCache.Mshr.Coverage
import KuiperCache.Mshr.Flags

/-! MSHRs that are answered the moment they are sent.  They are never in service, so
nothing is deferred, and none of their operations can fail. -/
namespace KuiperCache

open Checked

/-- The bytes of a packet lie in one line. -/
def Packet.withinLine (pkt : Packet) (blkSize : Nat) : Bool :=
  decide ((pkt.getOffset blkSize).toNat + pkt.size ≤ blkSize)

/-- A packet that no assertion of the MSHRs objects to. -/
structure Packet.Orderly (pkt : Packet) (blkSize : Nat) : Prop where
  maintenance : pkt.req.isCacheMaintenance = false
  within : pkt.withinLine blkSize = true

/-- A read or write from above, or a hardware prefetch. -/
structure Target.Serviceable (target : Target) (blkSize : Nat) : Prop where
  orderly : target.pkt.Orderly blkSize
  origin : (target.source = .fromCPU ∧ target.pkt.cmd.isPlain = true) ∨
    (target.source = .fromPrefetcher ∧ target.pkt.cmd = .hardPFReq)

/-- What servicing a target asks of its command. -/
theorem Target.Serviceable.attributes {target : Target} {blkSize : Nat}
    (h : target.Serviceable blkSize) :
    target.pkt.cmd.isRequest = true ∧ target.pkt.cmd.needsResponse = true ∧
      (target.pkt.cmd == .lockedRMWReadReq) = false ∧
      (target.pkt.cmd.isRead || target.pkt.cmd.isWrite) = true := by
  obtain ⟨-, hplain⟩ | ⟨-, hcmd⟩ := h.origin
  · obtain hcmd | hcmd | hcmd := MemCmd.isPlain_cases hplain
    · rw [hcmd]
      decide
    · rw [hcmd]
      decide
    · rw [hcmd]
      decide
  · rw [hcmd]
    decide

theorem Target.Serviceable.fits {target : Target} {blkSize : Nat}
    (h : target.Serviceable blkSize) : target.Fits blkSize :=
  ⟨fun _ => h.attributes.1, by simpa [Packet.withinLine] using h.orderly.within⟩

theorem Target.Serviceable.notSnoop {target : Target} {blkSize : Nat}
    (h : target.Serviceable blkSize) : (target.source != .fromSnoop) = true := by
  obtain ⟨hsource, -⟩ | ⟨hsource, -⟩ := h.origin
  · rw [hsource]
    rfl
  · rw [hsource]
    rfl

/-- A serviceable target joins any list of its line. -/
theorem TargetList.OfBlock.join {targets : TargetList} {blkAddr : Addr} {blkSize : Nat}
    {target : Target} (h : targets.OfBlock blkAddr blkSize)
    (htarget : target.Serviceable blkSize) (hfill : target.allocOnFill = true) :
    ∃ added, targets.add target = .ok added ∧ added.OfBlock blkAddr blkSize ∧
      added.list = targets.list ++ [target] ∧ added.allocOnFill = true := by
  obtain ⟨added, hadd, hblock⟩ := h.add htarget.fits
  have hflags := congrArg Flags.allocOnFill (add_flags hadd)
  refine ⟨added, hadd, hblock, (add_spec hadd).1, ?_⟩
  simpa [flags, Flags.join, Flags.summary, Target.asksAllocation, htarget.notSnoop, hfill]
    using hflags

theorem TargetList.OfBlock.repopulate {targets : TargetList} {blkAddr : Addr} {blkSize : Nat}
    {list : List Target} (h : targets.OfBlock blkAddr blkSize)
    (hlist : ∀ target ∈ list, target.Serviceable blkSize) :
    ∃ flagged, ({ targets with list } : TargetList).populateFlags = .ok flagged ∧
      flagged.list = list := by
  have hblock : ({ targets with list } : TargetList).resetFlags.OfBlock blkAddr blkSize :=
    ⟨h.blkAddr, h.blkSize, by
      simpa [Sized, TargetList.resetFlags] using h.sized⟩
  obtain ⟨flagged, hflags⟩ := hblock.updateAllFlags fun target htarget =>
    (hlist target htarget).fits
  exact ⟨flagged, hflags, (populateFlags_spec hflags).1.list⟩

namespace Mshr

/-- An MSHR that has not been sent without being answered. -/
structure Prompt (lineSize : Nat) (mshr : Mshr) : Prop where
  inService : mshr.inService = false
  wasWholeLineWrite : mshr.wasWholeLineWrite = false
  blkSize : mshr.blkSize = lineSize
  block : mshr.targets.OfBlock mshr.blkAddr lineSize
  allocOnFill : mshr.targets.allocOnFill = true
  serviceable : ∀ target ∈ mshr.targets.list, target.Serviceable lineSize
  deferred : mshr.deferredTargets.list = [] ∧ mshr.deferredTargets.isReset = true

theorem prompt_allocate {mshr : Mshr} {blkSize : Nat} {pkt : Packet}
    (hfree : mshr.waiting = []) (hpkt : pkt.Orderly blkSize)
    (hcmd : pkt.cmd.isPlain = true ∨ pkt.cmd = .hardPFReq) (whenReady : Tick) (order : Nat) :
    ∃ mshr', mshr.allocate (pkt.getBlockAddr blkSize) blkSize pkt whenReady order true =
      .ok mshr' ∧ Prompt blkSize mshr' := by
  obtain ⟨htargets, hdeferred⟩ := waiting_eq_nil.mp hfree
  have hfirst : (firstTarget pkt whenReady order true).Serviceable blkSize := by
    refine ⟨hpkt, ?_⟩
    obtain hplain | hcmd := hcmd
    · refine .inl ⟨?_, hplain⟩
      obtain hcmd | hcmd | hcmd := MemCmd.isPlain_cases hplain
      · simp [firstTarget, TargetList.newTarget, hcmd]
      · simp [firstTarget, TargetList.newTarget, hcmd]
      · simp [firstTarget, TargetList.newTarget, hcmd]
    · exact .inr ⟨by simp [firstTarget, TargetList.newTarget, hcmd], hcmd⟩
  have hinit : (mshr.targets.init (pkt.getBlockAddr blkSize) blkSize).OfBlock
      (pkt.getBlockAddr blkSize) blkSize :=
    ⟨rfl, rfl, by simp [TargetList.Sized, TargetList.init, TargetList.resetFlags]⟩
  obtain ⟨added, hadd, hblock, hlist, hfill⟩ := hinit.join hfirst rfl
  rw [TargetList.init_list, htargets, List.nil_append] at hlist
  have hmatch : (added.list.head?.any fun front => pkt.matchBlockAddr
      (front.pkt.getBlockAddr blkSize) front.pkt.isSecure blkSize) = true := by
    rw [hlist]
    simp [firstTarget, TargetList.newTarget, Packet.matchBlockAddr]
  refine ⟨_, by rw [allocate, hadd, ok_bind, hmatch, check_true, ok_bind]; rfl, ?_⟩
  refine ⟨rfl, rfl, rfl, hblock, hfill, ?_, hdeferred, rfl⟩
  intro target htarget
  rw [hlist, List.mem_singleton] at htarget
  exact htarget ▸ hfirst

/-- Nothing is deferred, so a new target joins the line of an MSHR that waits. -/
theorem Prompt.allocateTarget {mshr : Mshr} {blkSize : Nat} {pkt : Packet}
    (h : Prompt blkSize mshr) (hheld : mshr.targets.list ≠ []) (hpkt : pkt.Orderly blkSize)
    (hplain : pkt.cmd.isPlain = true) (whenReady : Tick) (order : Nat) :
    ∃ mshr', mshr.allocateTarget pkt whenReady order true = .ok mshr' ∧ Prompt blkSize mshr' := by
  obtain ⟨first, rest, hcons⟩ := List.exists_cons_of_ne_nil hheld
  have hcmd : (pkt.cmd != .hardPFReq) = true := by
    obtain hcmd | hcmd | hcmd := MemCmd.isPlain_cases hplain
    · rw [hcmd]
      rfl
    · rw [hcmd]
      rfl
    · rw [hcmd]
      rfl
  have hfirst := (h.serviceable first (by simp [hcons])).orderly.maintenance
  have hdefers : mshr.defers pkt = .ok false := by
    simp [defers, getTarget, hcons, hpkt.maintenance, hfirst, h.deferred.1, h.inService]
  have htarget : (TargetList.newTarget pkt whenReady order .fromCPU (!mshr.inService)
      true).Serviceable blkSize := ⟨hpkt, .inl ⟨rfl, hplain⟩⟩
  obtain ⟨added, hadd, hblock, hlist, hfill⟩ := h.block.join htarget rfl
  refine ⟨_, by rw [Mshr.allocateTarget, hcmd, check_true, ok_bind, hdefers, ok_bind,
    if_neg Bool.false_ne_true, appendTarget, hadd]; rfl, ?_⟩
  refine ⟨h.inService, h.wasWholeLineWrite, h.blkSize, hblock, hfill, ?_, h.deferred⟩
  intro target hmem
  rw [hlist, List.mem_append, List.mem_singleton] at hmem
  obtain hold | rfl := hmem
  · exact h.serviceable target hold
  · exact htarget

theorem Prompt.issued {mshr : Mshr} {blkSize : Nat} (h : Prompt blkSize mshr) :
    Prompt blkSize { mshr with isForward := false } :=
  ⟨h.inService, h.wasWholeLineWrite, h.blkSize, h.block, h.allocOnFill, h.serviceable, h.deferred⟩

theorem Prompt.notLocked {mshr : Mshr} {blkSize : Nat} (h : Prompt blkSize mshr) :
    mshr.hasLockedRMWReadTarget = false := by
  unfold hasLockedRMWReadTarget
  cases hlist : mshr.targets.list with
  | nil => rfl
  | cons first rest => exact (h.serviceable first (by simp [hlist])).attributes.2.2.1

theorem Prompt.promoteWritable {mshr : Mshr} {blkSize : Nat} (h : Prompt blkSize mshr) :
    mshr.promoteWritable = .ok mshr := by
  rw [Mshr.promoteWritable, h.deferred.1]

theorem splitAtLocked_serviceable {list : List Target} {blkSize : Nat}
    (h : ∀ target ∈ list, target.Serviceable blkSize) : splitAtLocked list = (list, []) := by
  induction list with
  | nil => rfl
  | cons target list ih =>
      have hcmd := (h target List.mem_cons_self).attributes.2.2.1
      rw [splitAtLocked, hcmd, if_neg Bool.false_ne_true,
        ih fun other hother => h other (List.mem_cons_of_mem target hother)]

/-- One response serves every target. -/
theorem Prompt.extractServiceableTargets {mshr : Mshr} {blkSize : Nat} (h : Prompt blkSize mshr)
    {resp : MemCmd} (hresp : resp ≠ .readRespWithInvalidate) :
    ∃ ready targets, mshr.extractServiceableTargets resp = .ok (ready, { mshr with targets }) ∧
      ready.list = mshr.targets.list ∧ targets.list = [] := by
  have hserviceable : Mshr.serviceable mshr.targets.list resp = .ok (mshr.targets.list, []) := by
    unfold Mshr.serviceable
    rw [if_neg hresp, splitAtLocked_serviceable h.serviceable]
  obtain ⟨ready, hready, hserved⟩ :=
    (TargetList.ofBlock_init mshr.blkAddr blkSize).repopulate h.serviceable
  obtain ⟨left, hleft, hempty⟩ := h.block.repopulate (fun _ => List.not_mem_nil.elim)
  refine ⟨ready, left, ?_, hserved, hempty⟩
  rw [Mshr.extractServiceableTargets, hserviceable, ok_bind]
  simp only [h.blkSize, hready, hleft, ok_bind]
  rfl

end Mshr

end KuiperCache
