import Mathlib.Algebra.BigOperators.Fin
import Mathlib.Logic.Relation
import KuiperCache.Mshr.Waiting

/-! The handshake between cache levels.  A target that comes from an MSHR of the
cache above marks that MSHR as pending downstream; the mark is taken back, level
by level, when the request reaches a cache that answers it. -/
namespace KuiperCache

open Checked

namespace Target

/-- The MSHR whose flag the target holds up. -/
def holdsUp (target : Target) : Option Nat :=
  if target.markedPending then target.pkt.findNextSenderState else none

theorem raisePending_eq (target : Target) :
    target.raisePending = (target.holdsUp.map .setDownstreamPending).toList := by
  unfold raisePending holdsUp
  split <;> rfl

theorem lowerPending_eq (target : Target) :
    target.lowerPending = (target.holdsUp.map .clearDownstreamPending).toList := by
  unfold lowerPending holdsUp
  split <;> rfl

@[simp] theorem unmarked_holdsUp (target : Target) : target.unmarked.holdsUp = none := rfl

theorem holdsUp_eq_some {target : Target} {handle : Nat} :
    target.holdsUp = some handle ↔
      target.markedPending = true ∧ target.pkt.findNextSenderState = some handle := by
  unfold holdsUp
  split <;> simp_all

/-- A target that `add` made is marked only if an MSHR is there to be marked. -/
theorem newTarget_holdsUp (pkt : Packet) (readyTime : Tick) (order : Nat) (source : Source)
    (markPending onFill : Bool) :
    (TargetList.newTarget pkt readyTime order source markPending onFill).holdsUp =
      if markPending then pkt.findNextSenderState else none := by
  unfold holdsUp TargetList.newTarget
  cases markPending with
  | false => rfl
  | true => cases pkt.findNextSenderState <;> rfl

end Target

namespace Mshr

/-- Every target of the MSHR, marks included. -/
def line (mshr : Mshr) : List Target := mshr.targets.list ++ mshr.deferredTargets.list

/-- The MSHRs that a list of targets holds up, one entry for each marked target. -/
def heldUp (list : List Target) : List Nat := list.filterMap Target.holdsUp

/-- How many targets of the MSHR are marked for another one. -/
def marks (mshr : Mshr) (handle : Nat) : Nat :=
  mshr.line.countP fun target => target.holdsUp == some handle

theorem count_heldUp (list : List Target) (handle : Nat) :
    (heldUp list).count handle = list.countP fun target => target.holdsUp == some handle := by
  induction list with
  | nil => rfl
  | cons target rest ih =>
      rw [heldUp, List.filterMap_cons, List.countP_cons, ← ih]
      cases target.holdsUp with
      | none => simp [heldUp]
      | some other => simp [heldUp, List.count_cons]

theorem marks_eq (mshr : Mshr) (handle : Nat) :
    mshr.marks handle = (heldUp mshr.targets.list).count handle +
      (heldUp mshr.deferredTargets.list).count handle := by
  rw [marks, line, List.countP_append, count_heldUp, count_heldUp]

theorem heldUp_append (first second : List Target) :
    heldUp (first ++ second) = heldUp first ++ heldUp second :=
  List.filterMap_append

theorem heldUp_unmarked (list : List Target) : heldUp (list.map Target.unmarked) = [] := by
  induction list with
  | nil => rfl
  | cons target rest ih => simp [heldUp]

theorem lowerPending_heldUp (list : List Target) :
    list.flatMap Target.lowerPending = (heldUp list).map .clearDownstreamPending := by
  induction list with
  | nil => rfl
  | cons target rest ih =>
      rw [List.flatMap_cons, ih, Target.lowerPending_eq]
      unfold heldUp
      rw [List.filterMap_cons]
      cases target.holdsUp <;> rfl

theorem mem_heldUp {list : List Target} {handle : Nat} (h : handle ∈ heldUp list) :
    ∃ target ∈ list, target.holdsUp = some handle := List.mem_filterMap.mp h

/-- The MSHR with nothing left to ask of the others. -/
def quiet (mshr : Mshr) : Mshr := { mshr with upstream := [] }

@[simp] theorem quiet_targets (mshr : Mshr) : mshr.quiet.targets = mshr.targets := rfl

@[simp] theorem quiet_marks (mshr : Mshr) (handle : Nat) :
    mshr.quiet.marks handle = mshr.marks handle := rfl

/-- What an operation does to the marks: it adds some and takes some back, and
asks the MSHRs above for exactly that. -/
structure Handed (mshr mshr' : Mshr) (raised lowered : List Nat) : Prop where
  upstream : mshr'.upstream = mshr.upstream ++ raised.map .setDownstreamPending ++
    lowered.map .clearDownstreamPending
  balance : ∀ handle, mshr'.marks handle + lowered.count handle =
    mshr.marks handle + raised.count handle
  downstreamPending : mshr'.downstreamPending = mshr.downstreamPending

/-- A list that takes a new target holds up what the target does. -/
theorem add_heldUp {targets added : TargetList} {target : Target}
    (h : targets.add target = .ok added) :
    heldUp added.list = heldUp targets.list ++ target.holdsUp.toList := by
  rw [(TargetList.add_spec h).1, heldUp_append]
  unfold heldUp
  cases hholds : target.holdsUp <;> simp [hholds]

theorem raised_upstream {pkt : Packet} {readyTime : Tick} {order : Nat} {source : Source}
    {markPending onFill : Bool} :
    (TargetList.newTarget pkt readyTime order source markPending onFill).raisePending =
      (if markPending then pkt.findNextSenderState else none).toList.map
        .setDownstreamPending := by
  rw [Target.raisePending_eq, Target.newTarget_holdsUp]
  split
  · cases pkt.findNextSenderState <;> rfl
  · rfl

/-- A miss raises the flag of the MSHR its packet came from. -/
theorem allocate_handed {mshr mshr' : Mshr} {blkAddr : Addr} {blkSize : Nat} {pkt : Packet}
    {whenReady : Tick} {order : Nat} {onFill : Bool} (hpending : mshr.downstreamPending = false)
    (h : mshr.allocate blkAddr blkSize pkt whenReady order onFill = .ok mshr') :
    Handed mshr mshr' pkt.findNextSenderState.toList [] := by
  have hspec := allocate_spec h
  have hadd := add_heldUp hspec.targets
  simp only [firstTarget, Target.newTarget_holdsUp, TargetList.init_list, ↓reduceIte] at hadd
  simp only [allocate, bind_eq_ok, pure_eq_ok] at h
  obtain ⟨targets, -, -, -, rfl⟩ := h
  refine ⟨by simp [firstTarget, raised_upstream], ?_, hpending.symm⟩
  intro handle
  simp only [marks_eq, hadd, TargetList.init_list, List.count_append, List.count_nil]
  omega

theorem deferTarget_handed {mshr mshr' : Mshr} {pkt : Packet} {whenReady : Tick} {order : Nat}
    {onFill : Bool} (h : mshr.deferTarget pkt whenReady order onFill = .ok mshr') :
    Handed mshr mshr' pkt.findNextSenderState.toList [] := by
  simp only [deferTarget, bind_eq_ok, pure_eq_ok] at h
  obtain ⟨sent, hsent, deferred, hdeferred, rfl⟩ := h
  have hstate : sent.findNextSenderState = pkt.findNextSenderState := by
    split at hsent
    · unfold Packet.findNextSenderState
      rw [(replaceUpgrade_same hsent).2]
    · cases hsent
      rfl
  have hadd := add_heldUp hdeferred
  rw [Target.newTarget_holdsUp, if_pos rfl, hstate] at hadd
  refine ⟨by simp [raised_upstream, hstate], ?_, rfl⟩
  intro handle
  simp only [marks_eq, hadd, List.count_append, List.count_nil]
  omega

/-- Once in service, the MSHR has let the caches above know: no mark is added. -/
theorem appendTarget_handed {mshr mshr' : Mshr} {pkt : Packet} {whenReady : Tick} {order : Nat}
    {onFill : Bool} (h : mshr.appendTarget pkt whenReady order onFill = .ok mshr') :
    Handed mshr mshr' (if !mshr.inService then pkt.findNextSenderState else none).toList [] := by
  have hadd := add_heldUp (appendTarget_spec h).1
  rw [Target.newTarget_holdsUp] at hadd
  simp only [appendTarget, bind_eq_ok, pure_eq_ok] at h
  obtain ⟨targets, -, rfl⟩ := h
  refine ⟨by simp [raised_upstream], ?_, rfl⟩
  intro handle
  simp only [marks_eq, hadd, List.count_append, List.count_nil]
  omega

theorem allocateTarget_handed {mshr mshr' : Mshr} {pkt : Packet} {whenReady : Tick} {order : Nat}
    {onFill : Bool} (h : mshr.allocateTarget pkt whenReady order onFill = .ok mshr') :
    Handed mshr mshr' pkt.findNextSenderState.toList [] ∨ Handed mshr mshr' [] [] := by
  obtain ⟨-, ⟨-, h⟩ | ⟨-, h⟩⟩ := allocateTarget_cases h
  · exact .inl (deferTarget_handed h)
  · have hhanded := appendTarget_handed h
    split at hhanded
    · exact .inl hhanded
    · exact .inr hhanded

theorem tellUpstream_handed (mshr : Mshr) :
    Handed mshr mshr.tellUpstream []
      (if mshr.downstreamPending then [] else heldUp mshr.targets.list) := by
  unfold tellUpstream
  split
  · exact ⟨by simp, by simp, rfl⟩
  · refine ⟨by simp [lowerPending_heldUp], ?_, rfl⟩
    intro handle
    simp only [marks_eq, TargetList.clearDownstreamPending, heldUp_unmarked, List.count_nil]
    omega

theorem markInService_handed {mshr mshr' : Mshr} {pendingModified : Bool}
    (h : mshr.markInService pendingModified = .ok mshr') :
    Handed mshr mshr' []
      (if mshr.downstreamPending then [] else heldUp mshr.targets.list) := by
  simp only [markInService, bind_eq_ok, check_eq_ok, exists_const, pure_eq_ok] at h
  obtain ⟨-, rfl⟩ := h
  have hhanded := tellUpstream_handed mshr
  exact ⟨hhanded.upstream, hhanded.balance, hhanded.downstreamPending⟩

/-- An MSHR that is not itself pending goes into service with no target marked. -/
theorem markInService_unmarked {mshr mshr' : Mshr} {pendingModified : Bool}
    (hidle : mshr.downstreamPending = false) (h : mshr.markInService pendingModified = .ok mshr') :
    ∀ target ∈ mshr'.targets.list, target.markedPending = false := by
  simp only [markInService, tellUpstream, hidle, bind_eq_ok, check_eq_ok, exists_const,
    pure_eq_ok] at h
  obtain ⟨-, rfl⟩ := h
  intro target htarget
  obtain ⟨original, -, rfl⟩ := List.mem_map.mp htarget
  rfl

/-- Marks of the targets that move up are taken back; the others stay. -/
theorem promoteIf_handed {mshr mshr' : Mshr} {test : Target → Except Assertion Bool}
    (h : mshr.promoteIf test = .ok mshr') :
    ∃ moved left, mshr.deferredTargets.list = moved ++ left ∧
      Handed mshr mshr' [] (heldUp moved) := by
  simp only [promoteIf, bind_eq_ok, check_eq_ok, exists_const, pure_eq_ok] at h
  obtain ⟨-, ⟨moved, left⟩, hsplit, deferred, hdeferred, rfl⟩ := h
  have hlist := (TargetList.populateFlags_spec hdeferred).1.list
  have happend := splitWhile_append hsplit
  refine ⟨moved, left, happend.symm, by simp [lowerPending_heldUp], ?_, rfl⟩
  intro handle
  simp only [marks_eq, hlist, ← happend, heldUp_append, heldUp_unmarked, List.count_append,
    List.count_nil]
  omega

/-- Deferred targets keep their marks when the whole line moves up. -/
theorem promoteDeferredTargets_handed {mshr mshr' : Mshr} {now : Tick} {promoted : Bool}
    (h : mshr.promoteDeferredTargets now = .ok (promoted, mshr')) : Handed mshr mshr' [] [] := by
  unfold promoteDeferredTargets at h
  split at h
  · cases h
    exact ⟨by simp, by simp, rfl⟩
  · simp only [bind_eq_ok, pure_eq_ok, Prod.mk.injEq] at h
    obtain ⟨deferred, hdeferred, targets, htargets, first, -, -, rfl⟩ := h
    have hdeferredList := (TargetList.populateFlags_spec hdeferred).1.list
    have htargetsList := (TargetList.populateFlags_spec htargets).1.list
    refine ⟨by simp, ?_, rfl⟩
    intro handle
    have happend := congrArg heldUp
      (promotable_append mshr.targets.list mshr.deferredTargets.list)
    simp only [marks_eq, hdeferredList, htargetsList, heldUp_append, List.count_append,
      List.count_nil, ← happend]
    omega

/-- The MSHR once its flag is down and its targets are unmarked. -/
def lowered (mshr : Mshr) : Mshr :=
  { mshr with
    downstreamPending := false
    targets := mshr.targets.clearDownstreamPending
    upstream := [] }

theorem lowered_marks (mshr : Mshr) (handle : Nat) :
    mshr.lowered.marks handle + (heldUp mshr.targets.list).count handle = mshr.marks handle := by
  simp only [marks_eq, lowered, TargetList.clearDownstreamPending, heldUp_unmarked,
    List.count_nil]
  omega

end Mshr

/-- The MSHRs of a cache hierarchy; a handle is an index. -/
abbrev Network (n : Nat) := Fin n → Mshr

namespace Network

variable {n : Nat}

def setDownstreamPending (net : Network n) (handle : Nat) : Except Assertion (Network n) :=
  if h : handle < n then do
    check (!(net ⟨handle, h⟩).downstreamPending) .downstreamPending
    pure (Function.update net ⟨handle, h⟩ { net ⟨handle, h⟩ with downstreamPending := true })
  else .error .undefinedBehaviour

/-- The recursion through the levels, at most `depth` calls deep.  The source
follows each marked target while it walks the list; an MSHR that is being walked
is not pending, so no call below it comes back, and what its targets ask for can
be done after the walk. -/
def clearDownstreamPending : Nat → Network n → Nat → Except Assertion (Network n)
  | 0, _, _ => .error .undefinedBehaviour
  | depth + 1, net, handle =>
      if h : handle < n then do
        let mshr ← (net ⟨handle, h⟩).quiet.clearDownstreamPending
        mshr.upstream.foldlM (fun net call => match call with
          | .setDownstreamPending handle => net.setDownstreamPending handle
          | .clearDownstreamPending handle => clearDownstreamPending depth net handle)
          (Function.update net ⟨handle, h⟩ mshr.quiet)
      else .error .undefinedBehaviour

/-- One request of an MSHR to the cache above. -/
def answer (depth : Nat) (net : Network n) : UpstreamCall → Except Assertion (Network n)
  | .setDownstreamPending handle => net.setDownstreamPending handle
  | .clearDownstreamPending handle => net.clearDownstreamPending depth handle

/-- An operation on one MSHR, with everything it asks of the others. -/
def perform (depth : Nat) (net : Network n) (m : Fin n) (op : Mshr → Except Assertion Mshr) :
    Except Assertion (Network n) := do
  let mshr ← op (net m).quiet
  mshr.upstream.foldlM (answer depth) (Function.update net m mshr.quiet)

/-- How many targets, anywhere, are marked for an MSHR. -/
def marks (net : Network n) (handle : Nat) : Nat := ∑ m, (net m).marks handle

/-- Exactly one marked target while the flag is up, and none while it is down. -/
def Paired (net : Network n) : Prop :=
  ∀ m : Fin n, net.marks m = if (net m).downstreamPending then 1 else 0

instance (net : Network n) : Decidable net.Paired := Fintype.decidableForallFintype

/-- The MSHR `above` is the topmost one of a packet that waits in the other. -/
def Feeds (net : Network n) (above m : Fin n) : Prop :=
  ∃ target ∈ (net m).line, target.pkt.findNextSenderState = some above.val

/-- The packets come from MSHRs of the network, and no chain of them comes back. -/
structure Linked (net : Network n) : Prop where
  inside : ∀ m, ∀ target ∈ (net m).line, ∀ handle,
    target.pkt.findNextSenderState = some handle → handle < n
  acyclic : ∀ m, ¬ Relation.TransGen net.Feeds m m

/-- The MSHRs the recursion goes through from a given one. -/
def Visits (net : Network n) : Fin n → Fin n → Prop :=
  Relation.ReflTransGen fun m above =>
    ∃ target ∈ (net m).targets.list, target.holdsUp = some above.val

/-- How many MSHRs are waiting for a request that has not been issued below. -/
def pendingCount (net : Network n) : Nat :=
  (Finset.univ.filter fun m => (net m).downstreamPending = true).card

theorem pendingCount_le (net : Network n) : net.pendingCount ≤ n := by
  unfold pendingCount
  exact (Finset.card_le_univ _).trans (Fintype.card_fin n).le

theorem marks_update (net : Network n) (m : Fin n) (mshr : Mshr) (handle : Nat) :
    marks (Function.update net m mshr) handle + (net m).marks handle =
      net.marks handle + mshr.marks handle := by
  have hrest : ∑ i ∈ Finset.univ.erase m, (Function.update net m mshr i).marks handle =
      ∑ i ∈ Finset.univ.erase m, (net i).marks handle := by
    apply Finset.sum_congr rfl
    intro i hi
    rw [Function.update_of_ne (Finset.ne_of_mem_erase hi)]
  unfold marks
  rw [← Finset.add_sum_erase _ _ (Finset.mem_univ m),
    ← Finset.add_sum_erase _ (fun i => (net i).marks handle) (Finset.mem_univ m), hrest,
    Function.update_self]
  omega

end Network

end KuiperCache
