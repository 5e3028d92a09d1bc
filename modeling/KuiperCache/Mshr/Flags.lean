import KuiperCache.Mshr.Failures
import KuiperCache.Mshr.ServiceOrder

/-! The flags of a target list are a summary of its targets.  They are raised
one target at a time, recomputed when targets move, and once set by hand; after
every complete step they say again what the targets in the list ask for. -/
namespace KuiperCache

open Checked

/-- What the four flags of a list say about requests. -/
structure Flags where
  needsWritable : Bool
  hasUpgrade : Bool
  allocOnFill : Bool
  hasFromCache : Bool
deriving DecidableEq, Repr

namespace Target

/-- A store conditional in an MSHR is an upgrade: without a copy it would have
failed already. -/
def isUpgrade (target : Target) : Bool :=
  target.source != .fromSnoop &&
    (target.pkt.cmd.isUpgrade || target.pkt.cmd == .storeCondReq)

def asksAllocation (target : Target) : Bool :=
  target.source != .fromSnoop && target.allocOnFill

def isFromCache (target : Target) : Bool :=
  target.source != .fromSnoop && target.source != .fromPrefetcher && target.pkt.cmd.fromCache

end Target

namespace Flags

/-- The flags a list of targets should have. -/
def summary (list : List Target) : Flags :=
  { needsWritable := list.any Target.asksWritable
    hasUpgrade := list.any Target.isUpgrade
    allocOnFill := list.any Target.asksAllocation
    hasFromCache := list.any Target.isFromCache }

def join (first second : Flags) : Flags :=
  { needsWritable := first.needsWritable || second.needsWritable
    hasUpgrade := first.hasUpgrade || second.hasUpgrade
    allocOnFill := first.allocOnFill || second.allocOnFill
    hasFromCache := first.hasFromCache || second.hasFromCache }

theorem join_assoc (a b c : Flags) : (a.join b).join c = a.join (b.join c) := by
  simp [join, Bool.or_assoc]

@[simp] theorem join_summary_nil (flags : Flags) : flags.join (summary []) = flags := by
  simp [join, summary]

@[simp] theorem summary_nil_join (flags : Flags) : (summary []).join flags = flags := by
  simp [join, summary]

theorem summary_append (first second : List Target) :
    summary (first ++ second) = (summary first).join (summary second) := by
  simp [summary, join]

/-- The summary does not look at the marks. -/
theorem summary_unmarked (list : List Target) :
    summary (list.map Target.unmarked) = summary list := by
  simp only [summary, List.any_map, Function.comp_def]
  rfl

end Flags

namespace TargetList

def flags (targets : TargetList) : Flags :=
  { needsWritable := targets.needsWritable, hasUpgrade := targets.hasUpgrade,
    allocOnFill := targets.allocOnFill, hasFromCache := targets.hasFromCache }

theorem updateWriteFlags_flags {targets flagged : TargetList} {pkt : Packet}
    (h : targets.updateWriteFlags pkt = .ok flagged) : flagged.flags = targets.flags := by
  unfold updateWriteFlags at h
  split at h
  · cases h
    rfl
  · split at h
    · split at h
      · cases h
        rfl
      · simp only [bind_eq_ok, pure_eq_ok] at h
        obtain ⟨bitmap, -, rfl⟩ := h
        rfl
    · cases h
      rfl

theorem updateFlags_flags {targets flagged : TargetList} {target : Target}
    (h : targets.updateFlags target.pkt target.source target.allocOnFill = .ok flagged) :
    flagged.flags = targets.flags.join (.summary [target]) := by
  unfold updateFlags Packet.needsWritable at h
  split at h
  case isTrue hsnoop =>
    cases h
    simp [flags, Flags.join, Flags.summary, Target.asksWritable, Target.isUpgrade,
      Target.asksAllocation, Target.isFromCache, hsnoop]
  case isFalse hrequest =>
    replace hrequest : (target.source != .fromSnoop) = true := bne_iff_ne.mpr hrequest
    simp only [bind_eq_ok, pure_eq_ok] at h
    obtain ⟨writable, ⟨-, -, rfl⟩, h⟩ := h
    split at h
    case isTrue hprefetch =>
      rw [pure_eq_ok] at h
      subst h
      rw [hprefetch] at hrequest
      simp [flags, flagRequest, Flags.join, Flags.summary, Target.asksWritable,
        Target.isUpgrade, Target.asksAllocation, Target.isFromCache, hprefetch, hrequest]
    case isFalse hprocessor =>
      replace hprocessor : (target.source != .fromPrefetcher) = true :=
        bne_iff_ne.mpr hprocessor
      rw [updateWriteFlags_flags h]
      simp [flags, flagRequest, flagFromCache, Flags.join, Flags.summary, Target.asksWritable,
        Target.isUpgrade, Target.asksAllocation, Target.isFromCache, hrequest, hprocessor]

theorem updateAllFlags_flags {list : List Target} {targets flagged : TargetList}
    (h : targets.updateAllFlags list = .ok flagged) :
    flagged.flags = targets.flags.join (.summary list) := by
  induction list generalizing targets with
  | nil =>
      simp only [updateAllFlags, List.foldlM_nil, pure_eq_ok] at h
      subst h
      rw [Flags.join_summary_nil]
  | cons target list ih =>
      simp only [updateAllFlags, List.foldlM_cons, bind_eq_ok] at h
      obtain ⟨next, hstep, hrest⟩ := h
      rw [ih hrest, updateFlags_flags hstep, Flags.join_assoc, ← Flags.summary_append,
        List.singleton_append]

/-- The flags say what the targets of the list ask for. -/
def Summarized (targets : TargetList) : Prop := targets.flags = .summary targets.list

/-- A list without targets is ready to merge writes. -/
def Mergeable (targets : TargetList) : Prop :=
  targets.list = [] → targets.canMergeWrites = true

/-- A new target adds what it asks for. -/
theorem add_flags {targets added : TargetList} {target : Target}
    (h : targets.add target = .ok added) :
    added.flags = targets.flags.join (.summary [target]) := by
  simp only [add, bind_eq_ok, pure_eq_ok] at h
  obtain ⟨flagged, hflags, rfl⟩ := h
  have hjoin : flagged.flags = targets.flags.join (.summary [target]) := updateFlags_flags hflags
  exact hjoin

theorem add_summarized {targets added : TargetList} {target : Target}
    (hsummarized : targets.Summarized) (h : targets.add target = .ok added) :
    added.Summarized := by
  unfold Summarized at hsummarized ⊢
  rw [(add_spec h).1, Flags.summary_append, ← hsummarized]
  exact add_flags h

/-- Recomputing the flags of a list makes them right, whatever they were. -/
theorem populateFlags_summarized {targets flagged : TargetList}
    (h : targets.populateFlags = .ok flagged) : flagged.Summarized := by
  have hlist := (populateFlags_spec h).1.list
  have hjoin := updateAllFlags_flags h
  have hreset : targets.resetFlags.flags = .summary [] := rfl
  rw [hreset, Flags.summary_nil_join] at hjoin
  rw [Summarized, hlist, hjoin]

theorem populateFlags_mergeable {targets flagged : TargetList}
    (h : targets.populateFlags = .ok flagged) : flagged.Mergeable := by
  intro hempty
  rw [(populateFlags_spec h).1.list] at hempty
  simp only [populateFlags, hempty, updateAllFlags, List.foldlM_nil, pure_eq_ok] at h
  subst h
  rfl

/-- An empty list with the right flags is as `resetFlags` leaves it. -/
theorem isReset_of_empty {targets : TargetList} (hsummarized : targets.Summarized)
    (hmergeable : targets.Mergeable) (hempty : targets.list = []) : targets.isReset = true := by
  have hmerge := hmergeable hempty
  rw [Summarized, hempty] at hsummarized
  simp only [flags, Flags.summary, List.any_nil, Flags.mk.injEq] at hsummarized
  obtain ⟨hwritable, hupgrade, halloc, hcache⟩ := hsummarized
  simp [isReset, hwritable, hupgrade, halloc, hcache, hmerge]

/-- The four flags, each with the targets it stands for. -/
structure Described (targets : TargetList) : Prop where
  needsWritable : targets.needsWritable = true ↔ ∃ target ∈ targets.list,
    target.source ≠ .fromSnoop ∧ target.pkt.cmd.needsWritable = true
  hasUpgrade : targets.hasUpgrade = true ↔ ∃ target ∈ targets.list,
    target.source ≠ .fromSnoop ∧
      (target.pkt.cmd.isUpgrade = true ∨ target.pkt.cmd = .storeCondReq)
  allocOnFill : targets.allocOnFill = true ↔ ∃ target ∈ targets.list,
    target.source ≠ .fromSnoop ∧ target.allocOnFill = true
  hasFromCache : targets.hasFromCache = true ↔ ∃ target ∈ targets.list,
    target.source ≠ .fromSnoop ∧ target.source ≠ .fromPrefetcher ∧
      target.pkt.cmd.fromCache = true

theorem Summarized.described {targets : TargetList} (h : targets.Summarized) :
    targets.Described := by
  simp only [Summarized, flags, Flags.summary, Flags.mk.injEq] at h
  obtain ⟨hwritable, hupgrade, halloc, hcache⟩ := h
  constructor
  · simp [hwritable, Target.asksWritable]
  · simp [hupgrade, Target.isUpgrade]
  · simp [halloc, Target.asksAllocation]
  · simp [hcache, Target.isFromCache, and_assoc]

end TargetList

namespace Mshr

/-- The deferred targets have the right flags, and none are left over when
there are no deferred targets. -/
structure DeferredFlagged (mshr : Mshr) : Prop where
  summarized : mshr.deferredTargets.Summarized
  mergeable : mshr.deferredTargets.Mergeable

theorem DeferredFlagged.promoteIf {mshr mshr' : Mshr} {test : Target → Except Assertion Bool}
    (h : mshr.promoteIf test = .ok mshr') : DeferredFlagged mshr' := by
  simp only [Mshr.promoteIf, bind_eq_ok, pure_eq_ok] at h
  obtain ⟨-, -, split, -, deferred, hdeferred, rfl⟩ := h
  exact ⟨TargetList.populateFlags_summarized hdeferred,
    TargetList.populateFlags_mergeable hdeferred⟩

theorem DeferredFlagged.promoteReadable {mshr mshr' : Mshr} (hflagged : DeferredFlagged mshr)
    (h : mshr.promoteReadable = .ok mshr') : DeferredFlagged mshr' := by
  unfold Mshr.promoteReadable at h
  split at h
  · cases h
    exact hflagged
  · simp only [bind_eq_ok, check_eq_ok, exists_const] at h
    obtain ⟨-, h⟩ := h
    split at h
    · rw [pure_eq_ok] at h
      exact h ▸ hflagged
    · exact .promoteIf h

theorem DeferredFlagged.promoteWritable {mshr mshr' : Mshr} (hflagged : DeferredFlagged mshr)
    (h : mshr.promoteWritable = .ok mshr') : DeferredFlagged mshr' := by
  unfold Mshr.promoteWritable at h
  split at h
  · cases h
    exact hflagged
  · split at h
    · cases h
      exact hflagged
    · simp only [bind_eq_ok, check_eq_ok, exists_const] at h
      obtain ⟨-, h⟩ := h
      split at h
      · rw [pure_eq_ok] at h
        exact h ▸ hflagged
      · simp only [bind_eq_ok, check_eq_ok, exists_const] at h
        exact .promoteIf h.2

theorem DeferredFlagged.readable {mshr mshr' : Mshr} {readable : Bool}
    (hflagged : DeferredFlagged mshr)
    (h : (if readable then mshr.promoteReadable else .ok mshr) = .ok mshr') :
    DeferredFlagged mshr' := by
  split at h
  · exact hflagged.promoteReadable h
  · cases h
    exact hflagged

theorem DeferredFlagged.writable {mshr mshr' : Mshr} {writable : Bool}
    (hflagged : DeferredFlagged mshr)
    (h : (if writable then mshr.promoteWritable else .ok mshr) = .ok mshr') :
    DeferredFlagged mshr' := by
  split at h
  · exact hflagged.promoteWritable h
  · cases h
    exact hflagged

/-- Extraction repopulates the targets, whatever the promotions did to their
flags. -/
theorem extractServiceableTargets_flagged {mshr mshr' : Mshr} {ready : TargetList}
    {resp : MemCmd} (hflagged : DeferredFlagged mshr)
    (h : mshr.extractServiceableTargets resp = .ok (ready, mshr')) :
    mshr'.targets.Summarized ∧ DeferredFlagged mshr' := by
  obtain ⟨served, left, targets, -, -, htargets, rfl⟩ := extractServiceableTargets_eq_ok h
  exact ⟨TargetList.populateFlags_summarized htargets, hflagged.summarized, hflagged.mergeable⟩

theorem promoteDeferredTargets_flagged {mshr mshr' : Mshr} {now : Tick} {promoted : Bool}
    (htargets : mshr.targets.Summarized) (hflagged : DeferredFlagged mshr)
    (h : mshr.promoteDeferredTargets now = .ok (promoted, mshr')) :
    mshr'.targets.Summarized ∧ DeferredFlagged mshr' := by
  unfold promoteDeferredTargets at h
  split at h
  · cases h
    exact ⟨htargets, hflagged⟩
  · simp only [bind_eq_ok, pure_eq_ok, Prod.mk.injEq] at h
    obtain ⟨deferred, hdeferred, targets, htargets, first, -, rfl, rfl⟩ := h
    exact ⟨TargetList.populateFlags_summarized htargets,
      TargetList.populateFlags_summarized hdeferred,
      TargetList.populateFlags_mergeable hdeferred⟩

/-- A list that is released has nothing to say. -/
theorem resetFlags_summarized {targets : TargetList} (hempty : targets.list = []) :
    targets.resetFlags.Summarized := by
  have hlist : targets.resetFlags.list = [] := hempty
  rw [TargetList.Summarized, hlist]
  rfl

/-- What `deallocate` asserts holds once nothing waits. -/
theorem DeferredFlagged.deallocate_avoids {mshr : Mshr} {reason : Assertion}
    (hflagged : DeferredFlagged mshr) (hempty : mshr.waiting = []) :
    Avoids reason mshr.deallocate := by
  obtain ⟨htargets, hdeferred⟩ := waiting_eq_nil.mp hempty
  have hreset := TargetList.isReset_of_empty hflagged.summarized hflagged.mergeable hdeferred
  simp [Mshr.deallocate, htargets, hreset]

/-- A fresh miss resets both lists before its target is added. -/
theorem Allocated.flagged {mshr mshr' : Mshr} {blkAddr : Addr} {blkSize : Nat} {pkt : Packet}
    {first : Target} (h : Allocated mshr mshr' blkAddr blkSize pkt first)
    (hfree : mshr.waiting = []) : mshr'.targets.Summarized ∧ DeferredFlagged mshr' := by
  obtain ⟨htargets, hdeferred⟩ := waiting_eq_nil.mp hfree
  have hreset : (mshr.targets.init blkAddr blkSize).Summarized := resetFlags_summarized htargets
  refine ⟨TargetList.add_summarized hreset h.targets, ?_, ?_⟩
  · rw [h.deferredTargets]
    exact resetFlags_summarized hdeferred
  · rw [h.deferredTargets]
    exact fun _ => rfl

theorem MarkedInService.flagged {mshr mshr' : Mshr} {pendingModified : Bool}
    (h : MarkedInService mshr mshr' pendingModified) (htargets : mshr.targets.Summarized) :
    mshr'.targets.Summarized := by
  obtain hsame | hcleared := h.targets
  · rw [hsame]
    exact htargets
  · rw [hcleared, TargetList.Summarized, TargetList.clearDownstreamPending,
      Flags.summary_unmarked]
    exact htargets

theorem allocateTarget_flagged {mshr mshr' : Mshr} {pkt : Packet} {whenReady : Tick}
    {order : Nat} {onFill : Bool} (hpost : mshr.postInvalidate = false)
    (htargets : mshr.targets.Summarized) (hflagged : DeferredFlagged mshr)
    (h : mshr.allocateTarget pkt whenReady order onFill = .ok mshr') :
    mshr'.targets.Summarized ∧ DeferredFlagged mshr' := by
  obtain ⟨-, ⟨-, h⟩ | ⟨-, h⟩⟩ := allocateTarget_cases h
  · obtain ⟨hadd, hsame, -⟩ := deferTarget_spec (by simp [hpost]) h
    refine ⟨hsame ▸ htargets, TargetList.add_summarized hflagged.summarized hadd, ?_⟩
    intro hempty
    rw [(TargetList.add_spec hadd).1] at hempty
    simp at hempty
  · obtain ⟨hadd, hsame, -⟩ := appendTarget_spec h
    exact ⟨TargetList.add_summarized htargets hadd, hsame ▸ hflagged.summarized,
      hsame ▸ hflagged.mergeable⟩

end Mshr

namespace ServiceOrder

open Mshr

section Respond

variable {mshr : Mshr} {readable writable : Bool} {resp : MemCmd} {now : Tick}

theorem respond_flagged {mshr' : Mshr} {allocated : Bool} {ready : List Target}
    (hflagged : DeferredFlagged mshr)
    (h : respond mshr readable writable resp now = .ok (ready, allocated, mshr')) :
    mshr'.targets.Summarized ∧ DeferredFlagged mshr' := by
  simp only [respond, bind_eq_ok] at h
  obtain ⟨afterReadable, hreadable, afterWritable, hwritable, ⟨readyTargets, left⟩, hextract,
    ⟨promoted, next⟩, hpromote, h⟩ := h
  have hafterWritable := (hflagged.readable hreadable).writable hwritable
  obtain ⟨hleft, hleftDeferred⟩ := extractServiceableTargets_flagged hafterWritable hextract
  obtain ⟨hnext, hnextDeferred⟩ := promoteDeferredTargets_flagged hleft hleftDeferred hpromote
  cases promoted with
  | true =>
      simp only [↓reduceIte, bind_eq_ok, check_eq_ok, exists_const, pure_eq_ok,
        Prod.mk.injEq] at h
      obtain ⟨-, rfl, rfl, rfl⟩ := h
      exact ⟨hnext, hnextDeferred.summarized, hnextDeferred.mergeable⟩
  | false =>
      simp only [Bool.false_eq_true, ↓reduceIte, bind_eq_ok, pure_eq_ok, Prod.mk.injEq] at h
      obtain ⟨freed, hfreed, rfl, rfl, rfl⟩ := h
      obtain ⟨hempty, rfl⟩ := deallocate_eq_ok hfreed
      exact ⟨resetFlags_summarized hempty, hnextDeferred.summarized, hnextDeferred.mergeable⟩

/-- A response never fails for what only the release asserts. -/
theorem respond_avoids {reason : Assertion} (hreason : reason.ofTargets = false)
    (hflagged : DeferredFlagged mshr) :
    Avoids reason (respond mshr readable writable resp now) := by
  rw [respond, avoids_bind]
  refine ⟨by simp [hreason], ?_⟩
  intro afterReadable hreadable
  rw [avoids_bind]
  refine ⟨by simp [hreason], ?_⟩
  intro afterWritable hwritable
  have hafterWritable := (hflagged.readable hreadable).writable hwritable
  rw [avoids_bind]
  refine ⟨by simp [hreason], ?_⟩
  rintro ⟨readyTargets, left⟩ hextract
  obtain ⟨hleft, hleftDeferred⟩ := extractServiceableTargets_flagged hafterWritable hextract
  rw [avoids_bind]
  refine ⟨by simp [hreason], ?_⟩
  rintro ⟨promoted, next⟩ hpromote
  obtain ⟨-, hnextDeferred⟩ := promoteDeferredTargets_flagged hleft hleftDeferred hpromote
  obtain ⟨-, hcase⟩ := promoteDeferredTargets_cases hpromote
  cases promoted with
  | true => simp [Assertion.distinct hreason .notInService rfl]
  | false =>
      simp only [Bool.false_eq_true, ↓reduceIte] at hcase ⊢
      obtain ⟨rfl, hempty⟩ := hcase
      simp [hnextDeferred.deallocate_avoids hempty]

end Respond

/-- The flags of both lists are right; while the MSHR is free, the deferred
list may still wait for its first `init`. -/
structure Flagged (life : Lifetime) : Prop where
  ordered : Ordered life
  targets : life.mshr.targets.Summarized
  deferred : life.mshr.deferredTargets.Summarized
  mergeable : life.allocated = true → life.mshr.deferredTargets.Mergeable

theorem Flagged.deferredFlagged {life : Lifetime} (h : Flagged life)
    (hbusy : life.allocated = true) : DeferredFlagged life.mshr :=
  ⟨h.deferred, h.mergeable hbusy⟩

theorem step_flagged (life : Lifetime) (event : Event) (next : Lifetime)
    (hunlocked : event.unlocked = true) (hflagged : Flagged life)
    (h : step life event = .ok next) : Flagged next := by
  have hordered := step_ordered life event next hunlocked hflagged.ordered h
  cases event with
  | allocate blkAddr blkSize pkt whenReady order onFill =>
      simp only [step, bind_eq_ok, check_eq_ok, exists_const, pure_eq_ok,
        Bool.not_eq_true'] at h
      obtain ⟨hidle, -, mshr, halloc, rfl⟩ := h
      obtain ⟨htargets, hdeferred⟩ :=
        (allocate_spec halloc).flagged (hflagged.ordered.free hidle)
      exact ⟨hordered, htargets, hdeferred.summarized, fun _ => hdeferred.mergeable⟩
  | allocateTarget pkt whenReady order onFill =>
      simp only [step, bind_eq_ok, check_eq_ok, exists_const, pure_eq_ok] at h
      obtain ⟨hbusy, mshr, halloc, rfl⟩ := h
      obtain ⟨htargets, hdeferred⟩ :=
        allocateTarget_flagged hflagged.ordered.queued.postInvalidate hflagged.targets
          (hflagged.deferredFlagged hbusy) halloc
      exact ⟨hordered, htargets, hdeferred.summarized, fun _ => hdeferred.mergeable⟩
  | setForward isForward =>
      simp only [step, bind_eq_ok, check_eq_ok, exists_const, pure_eq_ok] at h
      obtain ⟨-, rfl⟩ := h
      exact ⟨hordered, hflagged.targets, hflagged.deferred, hflagged.mergeable⟩
  | setDownstreamPending pending =>
      simp only [step, bind_eq_ok, check_eq_ok, exists_const, pure_eq_ok] at h
      obtain ⟨-, rfl⟩ := h
      exact ⟨hordered, hflagged.targets, hflagged.deferred, hflagged.mergeable⟩
  | markInService pendingModified =>
      simp only [step, bind_eq_ok, check_eq_ok, exists_const, pure_eq_ok] at h
      obtain ⟨hbusy, mshr, hmark, rfl⟩ := h
      have hspec := markInService_spec hmark
      refine ⟨hordered, hspec.flagged hflagged.targets, ?_, ?_⟩
      · exact hspec.deferredTargets ▸ hflagged.deferred
      · exact fun _ => hspec.deferredTargets ▸ hflagged.mergeable hbusy
  | response readable writable resp now =>
      simp only [step, bind_eq_ok, check_eq_ok, exists_const, pure_eq_ok] at h
      obtain ⟨hbusy, ⟨ready, allocated, mshr⟩, hrespond, rfl⟩ := h
      obtain ⟨htargets, hdeferred⟩ :=
        respond_flagged (hflagged.deferredFlagged hbusy) hrespond
      exact ⟨hordered, htargets, hdeferred.summarized, fun _ => hdeferred.mergeable⟩

/-- The assertions of `deallocate`, which no other operation of an MSHR makes. -/
def releaseAssertions : List Assertion := [.targetsLeft, .deferredFlagsSet]

theorem step_avoids (life : Lifetime) (event : Event) {reason : Assertion}
    (hreason : reason ∈ releaseAssertions) (hflagged : Flagged life) :
    Avoids reason (step life event) := by
  have hforeign : reason.ofTargets = false ∧ reason ≠ .mshrExpected ∧ reason ≠ .mshrUnexpected ∧
      reason ≠ .entryStillHoldsTargets := by
    revert reason
    decide
  obtain ⟨htargets, hexpected, hunexpected, hholds⟩ := hforeign
  cases event with
  | allocate blkAddr blkSize pkt whenReady order onFill =>
      simp [step, htargets, hunexpected.symm, hholds.symm]
  | allocateTarget pkt whenReady order onFill => simp [step, htargets, hexpected.symm]
  | setForward isForward => simp [step, hexpected.symm]
  | setDownstreamPending pending => simp [step, hexpected.symm]
  | markInService pendingModified => simp [step, htargets, hexpected.symm]
  | response readable writable resp now =>
      rw [step, avoids_bind]
      refine ⟨by simp [hexpected.symm], ?_⟩
      intro _ hbusy
      rw [check_eq_ok] at hbusy
      simp [respond_avoids htargets (hflagged.deferredFlagged hbusy)]

/-- In every state of every life of an MSHR without locked pairs, the flags of
both lists say what their targets ask for, and releasing it never fails. -/
theorem flags_describe_targets {events : List Event}
    (hunlocked : ∀ event ∈ events, event.unlocked = true) :
    (∀ final, Transition.run step initial events = .ok final →
      final.mshr.targets.Described ∧ final.mshr.deferredTargets.Described) ∧
    ∀ reason ∈ releaseAssertions, Avoids reason (Transition.run step initial events) := by
  have hinitial : Flagged initial :=
    ⟨initial_ordered, rfl, rfl, by simp [initial]⟩
  refine ⟨?_, ?_⟩
  · intro final hrun
    have hflagged := Transition.run_invariant (fun event => event.unlocked = true) step_flagged
      hunlocked hrun hinitial
    exact ⟨hflagged.targets.described, hflagged.deferred.described⟩
  · intro reason hreason
    exact Transition.run_avoids (fun life event next => step_flagged life event next)
      (fun life event _ hflagged => step_avoids life event hreason hflagged)
      (Transition.meets_of_labels hunlocked initial) hinitial

theorem flags_describe_targets_deferredWrite :
    (∃ final, Transition.run step initial (deferredWrite.take 4) = .ok final ∧
      final.mshr.deferredTargets.needsWritable = true ∧ final.mshr.deferredTargets.Described) ∧
    Avoids .deferredFlagsSet (Transition.run step initial deferredWrite) := by
  obtain ⟨final, hrun, hwritable⟩ := exists_ok_of_observed
    (show ((Transition.run step initial (deferredWrite.take 4)).toOption.map fun final =>
      final.mshr.deferredTargets.needsWritable) = some true by decide +kernel)
  exact ⟨⟨final, hrun, hwritable, ((flags_describe_targets (by decide)).1 final hrun).2⟩,
    (flags_describe_targets (by decide)).2 .deferredFlagsSet (by decide)⟩

end ServiceOrder

end KuiperCache
