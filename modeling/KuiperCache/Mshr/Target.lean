import KuiperCache.Packet.Packet

/-! The targets of an MSHR: the packets that wait for one line, and the flags
the list keeps about them. -/
namespace KuiperCache

open Checked

/-- Simulation time.  It only grows by explicit delays, which wrap at 64 bits. -/
abbrev Tick := Nat

/-- Where a target's packet came from. -/
inductive Source where
  | fromCPU
  | fromSnoop
  | fromPrefetcher
deriving DecidableEq, Repr

structure Target where
  pkt : Packet
  readyTime : Tick
  order : Nat
  source : Source
  markedPending : Bool
  allocOnFill : Bool
deriving DecidableEq, Repr

/-- What an operation asks of the MSHRs of the cache above, in order. -/
inductive UpstreamCall where
  | setDownstreamPending (handle : Nat)
  | clearDownstreamPending (handle : Nat)
deriving DecidableEq, Repr

namespace Target

/-- The target with its mark cleared.  The mark is the only field that changes
while a list holds a target. -/
def unmarked (target : Target) : Target := { target with markedPending := false }

@[simp] theorem unmarked_pkt (target : Target) : target.unmarked.pkt = target.pkt := rfl

@[simp] theorem unmarked_source (target : Target) : target.unmarked.source = target.source := rfl

@[simp] theorem unmarked_unmarked (target : Target) :
    target.unmarked.unmarked = target.unmarked := rfl

/-- Whether servicing the target takes a writable block. -/
def asksWritable (target : Target) : Bool :=
  target.source != .fromSnoop && target.pkt.cmd.needsWritable

/-- The upstream flag that adding a marked target raises. -/
def raisePending (target : Target) : List UpstreamCall :=
  if target.markedPending then
    (target.pkt.findNextSenderState.map .setDownstreamPending).toList
  else []

/-- The upstream flag that clearing a marked target lowers. -/
def lowerPending (target : Target) : List UpstreamCall :=
  if target.markedPending then
    (target.pkt.findNextSenderState.map .clearDownstreamPending).toList
  else []

end Target

structure TargetList where
  list : List Target
  needsWritable : Bool
  hasUpgrade : Bool
  allocOnFill : Bool
  hasFromCache : Bool
  canMergeWrites : Bool
  writesBitmap : List Bool
  blkAddr : Addr
  blkSize : Nat
deriving DecidableEq, Repr

/-- `std::fill` over a subrange; past the end of the bitmap it is undefined. -/
def fillWrites (bitmap : List Bool) (offset size : Nat) : Except Assertion (List Bool) := do
  check (offset + size ≤ bitmap.length) .writesBitmapOverrun
  pure (bitmap.take offset ++ List.replicate size true ++ bitmap.drop (offset + size))

/-- Requests with one of these flags are not merged into a whole-line write. -/
def noMergeFlags : BitVec 64 :=
  Request.uncacheable ||| Request.strictOrder ||| Request.privileged ||| Request.llsc |||
    Request.memSwap ||| Request.memSwapCond ||| Request.secure ||| Request.lockedRMW

namespace TargetList

/-- A constructed list, before `init` gives it a block. -/
def empty : TargetList :=
  { list := [], needsWritable := false, hasUpgrade := false, allocOnFill := false,
    hasFromCache := false, canMergeWrites := false, writesBitmap := [], blkAddr := 0,
    blkSize := 0 }

def resetFlags (targets : TargetList) : TargetList :=
  { targets with
    canMergeWrites := true
    writesBitmap := targets.writesBitmap.map fun _ => false
    needsWritable := false
    hasUpgrade := false
    allocOnFill := false
    hasFromCache := false }

def init (targets : TargetList) (blkAddr : Addr) (blkSize : Nat) : TargetList :=
  resetFlags { targets with blkAddr, blkSize, writesBitmap := List.replicate blkSize false }

def isReset (targets : TargetList) : Bool :=
  !targets.needsWritable && !targets.hasUpgrade && !targets.allocOnFill &&
    !targets.hasFromCache && targets.canMergeWrites

def isWholeLineWrite (targets : TargetList) : Bool := targets.writesBitmap.all id

def updateWriteFlags (targets : TargetList) (pkt : Packet) : Except Assertion TargetList :=
  -- once the writes seen cover the line, later requests cannot uncover it
  if targets.isWholeLineWrite then .ok targets
  else if targets.canMergeWrites then
    if !pkt.cmd.isWrite then .ok { targets with canMergeWrites := false }
    else do
      let compatWrite := !pkt.req.isSet noMergeFlags
      let firstWrite := targets.list.isEmpty
      let bitmap ← (if !pkt.isMaskedWrite && (firstWrite || compatWrite) then
          fillWrites targets.writesBitmap (pkt.getOffset targets.blkSize).toNat pkt.size
        else .ok targets.writesBitmap)
      pure { targets with
        writesBitmap := bitmap, canMergeWrites := targets.canMergeWrites && compatWrite }
  else .ok targets

/-- The flags every target sets that is not a snoop. -/
def flagRequest (targets : TargetList) (pkt : Packet) (needsWritable allocOnFill : Bool) :
    TargetList :=
  { targets with
    needsWritable := targets.needsWritable || needsWritable
    hasUpgrade := targets.hasUpgrade || (pkt.cmd.isUpgrade || pkt.cmd == .storeCondReq)
    allocOnFill := targets.allocOnFill || allocOnFill }

def flagFromCache (targets : TargetList) (pkt : Packet) : TargetList :=
  { targets with hasFromCache := targets.hasFromCache || pkt.cmd.fromCache }

def updateFlags (targets : TargetList) (pkt : Packet) (source : Source) (allocOnFill : Bool) :
    Except Assertion TargetList :=
  if source = .fromSnoop then .ok targets
  else do
    let needsWritable ← pkt.needsWritable
    let flagged := targets.flagRequest pkt needsWritable allocOnFill
    if source = .fromPrefetcher then pure flagged
    else (flagged.flagFromCache pkt).updateWriteFlags pkt

def updateAllFlags (targets : TargetList) (list : List Target) : Except Assertion TargetList :=
  list.foldlM (fun flags target =>
    flags.updateFlags target.pkt target.source target.allocOnFill) targets

def populateFlags (targets : TargetList) : Except Assertion TargetList :=
  targets.resetFlags.updateAllFlags targets.list

/-- The target `add` appends: it is marked only if the packet passed through an
MSHR of the cache above. -/
def newTarget (pkt : Packet) (readyTime : Tick) (order : Nat) (source : Source)
    (markPending allocOnFill : Bool) : Target :=
  { pkt, readyTime, order, source, allocOnFill,
    markedPending := markPending && pkt.findNextSenderState.isSome }

def add (targets : TargetList) (target : Target) : Except Assertion TargetList := do
  let flagged ← targets.updateFlags target.pkt target.source target.allocOnFill
  pure { flagged with list := flagged.list ++ [target] }

def clearDownstreamPending (targets : TargetList) : TargetList :=
  { targets with list := targets.list.map Target.unmarked }

/-- What `populateFlags` and its pieces leave alone. -/
structure Frame (targets flagged : TargetList) : Prop where
  list : flagged.list = targets.list
  blkAddr : flagged.blkAddr = targets.blkAddr
  blkSize : flagged.blkSize = targets.blkSize

theorem updateWriteFlags_frame {targets flagged : TargetList} {pkt : Packet}
    (h : targets.updateWriteFlags pkt = .ok flagged) :
    Frame targets flagged ∧ flagged.needsWritable = targets.needsWritable := by
  unfold updateWriteFlags at h
  split at h
  · cases h
    exact ⟨⟨rfl, rfl, rfl⟩, rfl⟩
  · split at h
    · split at h
      · cases h
        exact ⟨⟨rfl, rfl, rfl⟩, rfl⟩
      · simp only [bind_eq_ok, pure_eq_ok] at h
        obtain ⟨bitmap, -, rfl⟩ := h
        exact ⟨⟨rfl, rfl, rfl⟩, rfl⟩
    · cases h
      exact ⟨⟨rfl, rfl, rfl⟩, rfl⟩

theorem updateFlags_frame {targets flagged : TargetList} {target : Target}
    (h : targets.updateFlags target.pkt target.source target.allocOnFill = .ok flagged) :
    Frame targets flagged ∧
      flagged.needsWritable = (targets.needsWritable || target.asksWritable) := by
  unfold updateFlags Packet.needsWritable at h
  split at h
  case isTrue hsnoop =>
    cases h
    refine ⟨⟨rfl, rfl, rfl⟩, ?_⟩
    simp [Target.asksWritable, hsnoop]
  case isFalse hsnoop =>
    have hasks : target.asksWritable = target.pkt.cmd.needsWritable := by
      simp [Target.asksWritable, hsnoop]
    simp only [bind_eq_ok, pure_eq_ok] at h
    obtain ⟨writable, ⟨-, -, rfl⟩, h⟩ := h
    rw [hasks]
    split at h
    · rw [pure_eq_ok] at h
      subst h
      exact ⟨⟨rfl, rfl, rfl⟩, rfl⟩
    · obtain ⟨hframe, hwritable⟩ := updateWriteFlags_frame h
      exact ⟨⟨hframe.list, hframe.blkAddr, hframe.blkSize⟩, hwritable⟩

theorem updateAllFlags_frame {list : List Target} {targets flagged : TargetList}
    (h : targets.updateAllFlags list = .ok flagged) :
    Frame targets flagged ∧
      flagged.needsWritable = (targets.needsWritable || list.any Target.asksWritable) := by
  induction list generalizing targets with
  | nil =>
      simp only [updateAllFlags, List.foldlM_nil, pure_eq_ok] at h
      subst h
      exact ⟨⟨rfl, rfl, rfl⟩, by simp⟩
  | cons target list ih =>
      simp only [updateAllFlags, List.foldlM_cons, bind_eq_ok] at h
      obtain ⟨next, hstep, hrest⟩ := h
      obtain ⟨hframe, hwritable⟩ := updateFlags_frame hstep
      obtain ⟨hframe', hwritable'⟩ := ih hrest
      refine ⟨⟨hframe'.list.trans hframe.list, hframe'.blkAddr.trans hframe.blkAddr,
        hframe'.blkSize.trans hframe.blkSize⟩, ?_⟩
      rw [hwritable', hwritable, List.any_cons, Bool.or_assoc]

/-- Repopulating the flags keeps the targets and makes `needsWritable` say
whether one of them asks for a writable block. -/
theorem populateFlags_spec {targets flagged : TargetList}
    (h : targets.populateFlags = .ok flagged) :
    Frame targets flagged ∧ flagged.needsWritable = targets.list.any Target.asksWritable := by
  obtain ⟨hframe, hwritable⟩ := updateAllFlags_frame h
  exact ⟨⟨hframe.list, hframe.blkAddr, hframe.blkSize⟩, by simpa [resetFlags] using hwritable⟩

theorem add_spec {targets added : TargetList} {target : Target}
    (h : targets.add target = .ok added) :
    added.list = targets.list ++ [target] ∧ added.blkAddr = targets.blkAddr ∧
      added.blkSize = targets.blkSize ∧
      added.needsWritable = (targets.needsWritable || target.asksWritable) := by
  simp only [add, bind_eq_ok, pure_eq_ok] at h
  obtain ⟨flagged, hflags, rfl⟩ := h
  obtain ⟨hframe, hwritable⟩ := updateFlags_frame hflags
  exact ⟨by rw [hframe.list], hframe.blkAddr, hframe.blkSize, hwritable⟩

@[simp] theorem init_list (targets : TargetList) (blkAddr : Addr) (blkSize : Nat) :
    (targets.init blkAddr blkSize).list = targets.list := rfl

end TargetList

end KuiperCache
