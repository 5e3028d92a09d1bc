import KuiperCache.Mshr.Target

/-! Miss status and handling registers.  An MSHR collects the targets of one
line; those it cannot serve with the response it waits for are deferred. -/
namespace KuiperCache

open Checked

structure Mshr where
  readyTime : Tick
  isUncacheable : Bool
  inService : Bool
  order : Nat
  blkAddr : Addr
  blkSize : Nat
  isSecure : Bool
  downstreamPending : Bool
  pendingModified : Bool
  postInvalidate : Bool
  postDowngrade : Bool
  wasWholeLineWrite : Bool
  isForward : Bool
  targets : TargetList
  deferredTargets : TargetList
  upstream : List UpstreamCall
deriving DecidableEq, Repr

/-- Allocate a payload for a packet that has none; its contents are unspecified
and taken to be zero. -/
def Packet.allocate (pkt : Packet) : Packet :=
  if (pkt.cmd.hasData || pkt.cmd.hasRespData) && pkt.data.isEmpty then
    { pkt with data := List.replicate pkt.size 0 }
  else pkt

/-- Allocating a payload changes the data only. -/
theorem Packet.allocate_eq (pkt : Packet) :
    pkt.allocate = { pkt with data := pkt.allocate.data } := by
  unfold Packet.allocate
  split <;> rfl

/-- Convert an upgrade into the request for a line that is no longer there. -/
def replaceUpgrade (pkt : Packet) : Except Assertion Packet := do
  let hadData := pkt.cmd.hasData || pkt.cmd.hasRespData
  let replaced := { pkt with cmd := match pkt.cmd with
    | .upgradeReq => .readExReq
    | .scUpgradeReq => .scUpgradeFailReq
    | .storeCondReq => .storeCondFailReq
    | cmd => cmd }
  check (hadData || !replaced.cmd.hasData) .unexpectedData
  pure (if !hadData && replaced.cmd.hasRespData then replaced.allocate else replaced)

namespace Mshr

/-- A constructed MSHR, before its first allocation. -/
def empty : Mshr :=
  { readyTime := 0, isUncacheable := false, inService := false, order := 0, blkAddr := 0,
    blkSize := 0, isSecure := false, downstreamPending := false, pendingModified := false,
    postInvalidate := false, postDowngrade := false, wasWholeLineWrite := false,
    isForward := false, targets := .empty, deferredTargets := .empty, upstream := [] }

def hasTargets (mshr : Mshr) : Bool := !mshr.targets.list.isEmpty

def getNumTargets (mshr : Mshr) : Nat :=
  mshr.targets.list.length + mshr.deferredTargets.list.length

def allocOnFill (mshr : Mshr) : Bool := mshr.targets.allocOnFill

def needsWritable (mshr : Mshr) : Bool := mshr.targets.needsWritable

def isWholeLineWrite (mshr : Mshr) : Bool := mshr.targets.isWholeLineWrite

def hasLockedRMWReadTarget (mshr : Mshr) : Bool :=
  mshr.targets.list.head?.any fun first => first.pkt.cmd == .lockedRMWReadReq

def getTarget (mshr : Mshr) : Except Assertion Target :=
  match mshr.targets.list with
  | [] => .error .noTargets
  | first :: _ => .ok first

/-- The target a fresh miss starts with. -/
def firstTarget (pkt : Packet) (whenReady : Tick) (order : Nat) (allocOnFill : Bool) : Target :=
  TargetList.newTarget pkt whenReady order
    (if pkt.cmd == .hardPFReq then .fromPrefetcher else .fromCPU) true allocOnFill

def allocate (mshr : Mshr) (blkAddr : Addr) (blkSize : Nat) (pkt : Packet) (whenReady : Tick)
    (order : Nat) (allocOnFill : Bool) : Except Assertion Mshr := do
  let first := firstTarget pkt whenReady order allocOnFill
  let targets ← (mshr.targets.init blkAddr blkSize).add first
  check (targets.list.head?.any fun front =>
    pkt.matchBlockAddr (front.pkt.getBlockAddr blkSize) front.pkt.isSecure blkSize)
    .targetBlockMismatch
  pure { mshr with
    blkAddr, blkSize, order, targets
    isSecure := pkt.isSecure
    readyTime := whenReady
    isForward := false
    wasWholeLineWrite := false
    isUncacheable := pkt.req.isUncacheable
    inService := false
    downstreamPending := false
    deferredTargets := mshr.deferredTargets.init blkAddr blkSize
    upstream := mshr.upstream ++ first.raisePending }

/-- Called by the cache below once it has issued the request. -/
def clearDownstreamPending (mshr : Mshr) : Except Assertion Mshr := do
  check mshr.downstreamPending .notDownstreamPending
  pure { mshr with
    downstreamPending := false
    targets := mshr.targets.clearDownstreamPending
    upstream := mshr.upstream ++ mshr.targets.list.flatMap Target.lowerPending }

/-- Let the caches above know that the request has made it to a level where it
is going to get a response. -/
def tellUpstream (mshr : Mshr) : Mshr :=
  if mshr.downstreamPending then mshr
  else { mshr with
    targets := mshr.targets.clearDownstreamPending
    upstream := mshr.upstream ++ mshr.targets.list.flatMap Target.lowerPending }

def markInService (mshr : Mshr) (pendingModifiedResp : Bool) : Except Assertion Mshr := do
  check (!mshr.inService) .alreadyInService
  pure { mshr.tellUpstream with
    inService := true
    pendingModified := mshr.targets.needsWritable || pendingModifiedResp
    postInvalidate := false
    postDowngrade := false
    wasWholeLineWrite := mshr.isWholeLineWrite }

def deallocate (mshr : Mshr) : Except Assertion Mshr := do
  check mshr.targets.list.isEmpty .targetsLeft
  check mshr.deferredTargets.isReset .deferredFlagsSet
  pure { mshr with targets := mshr.targets.resetFlags, inService := false }

/-- Whether a new target has to wait for another request than the one in
service. -/
def defers (mshr : Mshr) (pkt : Packet) : Except Assertion Bool := do
  let first ← mshr.getTarget
  if pkt.req.isCacheMaintenance || first.pkt.req.isCacheMaintenance ||
      !mshr.deferredTargets.list.isEmpty then pure true
  else if mshr.inService then
    if mshr.postInvalidate then pure true
    else do
      let needsWritable ← pkt.needsWritable
      pure (needsWritable && (!mshr.pendingModified || mshr.postDowngrade || mshr.isForward))
  else pure false

def deferTarget (mshr : Mshr) (pkt : Packet) (whenReady : Tick) (order : Nat)
    (allocOnFill : Bool) : Except Assertion Mshr := do
  let pkt ← (if mshr.inService && mshr.postInvalidate then replaceUpgrade pkt else .ok pkt)
  let target := TargetList.newTarget pkt whenReady order .fromCPU true allocOnFill
  let deferredTargets ← mshr.deferredTargets.add target
  pure { mshr with deferredTargets, upstream := mshr.upstream ++ target.raisePending }

def appendTarget (mshr : Mshr) (pkt : Packet) (whenReady : Tick) (order : Nat)
    (allocOnFill : Bool) : Except Assertion Mshr := do
  -- only mark pending while the request has not been issued
  let target := TargetList.newTarget pkt whenReady order .fromCPU (!mshr.inService) allocOnFill
  let targets ← mshr.targets.add target
  pure { mshr with targets, upstream := mshr.upstream ++ target.raisePending }

def allocateTarget (mshr : Mshr) (pkt : Packet) (whenReady : Tick) (order : Nat)
    (allocOnFill : Bool) : Except Assertion Mshr := do
  check (pkt.cmd != .hardPFReq) .hardwarePrefetchTarget
  if ← mshr.defers pkt then mshr.deferTarget pkt whenReady order allocOnFill
  else mshr.appendTarget pkt whenReady order allocOnFill

/-- The targets behind the first one that an invalidating response also
serves, and those that have to ask again. -/
def splitSnoops : List Target → Except Assertion (List Target × List Target)
  | [] => .ok ([], [])
  | target :: rest => do
      let (snoops, waiting) ← splitSnoops rest
      match target.source with
      | .fromCPU => pure (snoops, target :: waiting)
      | .fromSnoop => pure (target :: snoops, waiting)
      | .fromPrefetcher => .error .snoopTargetExpected

/-- The targets up to and including the first locked read, which also stays
behind until the locked write comes in. -/
def splitAtLocked : List Target → List Target × List Target
  | [] => ([], [])
  | target :: rest =>
      if target.pkt.cmd == .lockedRMWReadReq then ([target], target :: rest)
      else ((target :: (splitAtLocked rest).1), (splitAtLocked rest).2)

/-- What a response serves and what it leaves, as lists. -/
def serviceable (list : List Target) (resp : MemCmd) :
    Except Assertion (List Target × List Target) :=
  if resp = .readRespWithInvalidate then
    match list with
    | [] => .error .noTargets
    | first :: rest => do
        check (first.source == .fromCPU || first.source == .fromPrefetcher)
          .cpuOrPrefetcherTargetExpected
        if first.pkt.cmd == .lockedRMWReadReq then pure ([first], first :: rest)
        else do
          let (snoops, waiting) ← splitSnoops rest
          pure (first :: snoops, waiting)
  else .ok (splitAtLocked list)

def extractServiceableTargets (mshr : Mshr) (resp : MemCmd) :
    Except Assertion (TargetList × Mshr) := do
  let (served, left) ← serviceable mshr.targets.list resp
  let readyTargets ←
    { TargetList.empty.init mshr.blkAddr mshr.blkSize with list := served }.populateFlags
  let targets ← { mshr.targets with list := left }.populateFlags
  pure (readyTargets, { mshr with targets })

/-- The deferred targets that move up: everything before the first maintenance
request, or that request alone when nothing else waits. -/
def promotable (targets deferred : List Target) : List Target × List Target :=
  match deferred.span fun target => !target.pkt.req.isCacheMaintenance with
  | ([], _) => if targets.isEmpty then deferred.splitAt 1 else ([], deferred)
  | split => split

def promoteDeferredTargets (mshr : Mshr) (now : Tick) : Except Assertion (Bool × Mshr) :=
  if mshr.targets.list.isEmpty && mshr.deferredTargets.list.isEmpty then .ok (false, mshr)
  else do
    let (moved, left) := promotable mshr.targets.list mshr.deferredTargets.list
    let deferredTargets ← { mshr.deferredTargets with list := left }.populateFlags
    let targets ←
      { mshr.targets with list := mshr.targets.list ++ moved }.populateFlags
    let first ← { mshr with targets }.getTarget
    pure (true, { mshr with
      targets, deferredTargets, order := first.order, readyTime := max now first.readyTime })

/-- Move the longest prefix of the deferred targets that passes the test. -/
def promoteIf (mshr : Mshr) (test : Target → Except Assertion Bool) : Except Assertion Mshr := do
  check (!mshr.downstreamPending) .downstreamPending
  let (moved, left) ← splitWhile test mshr.deferredTargets.list
  let deferredTargets ← { mshr.deferredTargets with list := left }.populateFlags
  pure { mshr with
    deferredTargets
    targets := { mshr.targets with
      list := mshr.targets.list ++ moved.map Target.unmarked }
    upstream := mshr.upstream ++ moved.flatMap Target.lowerPending }

def promotesReadable (target : Target) : Except Assertion Bool := do
  check (target.source == .fromCPU) .cpuTargetExpected
  if target.pkt.req.isCacheInvalidate then pure false
  else do
    let needsWritable ← target.pkt.needsWritable
    pure !needsWritable

def promotesWritable (target : Target) : Except Assertion Bool := do
  check (target.source == .fromCPU) .cpuTargetExpected
  pure !target.pkt.req.isCacheInvalidate

def promoteReadable (mshr : Mshr) : Except Assertion Mshr :=
  if mshr.deferredTargets.list.isEmpty then .ok mshr
  else do
    check mshr.inService .notInService
    if mshr.postInvalidate then pure mshr else mshr.promoteIf promotesReadable

/-- The response was writable, so the targets count as having asked for it. -/
def askWritable (mshr : Mshr) : Mshr :=
  { mshr with targets := { mshr.targets with needsWritable := true } }

def promoteWritable (mshr : Mshr) : Except Assertion Mshr :=
  match mshr.deferredTargets.list with
  | [] => .ok mshr
  | first :: _ =>
      if !mshr.deferredTargets.needsWritable then .ok mshr
      else do
        check mshr.inService .notInService
        if mshr.postInvalidate || mshr.postDowngrade || first.pkt.req.isCacheInvalidate then
          pure mshr
        else do
          check (!mshr.targets.needsWritable) .targetsNeedWritable
          mshr.askWritable.promoteIf promotesWritable

/-- Drop the first target without serving it. -/
def popTarget (mshr : Mshr) : Mshr :=
  { mshr with targets := { mshr.targets with list := mshr.targets.list.tail } }

/-- Push the entry's ready time into the future; ticks are 64-bit. -/
def delay (mshr : Mshr) (now delayTicks : Tick) : Except Assertion Mshr := do
  check (mshr.readyTime ≤ now) .notReadyYet
  pure { mshr with readyTime := (now + delayTicks) % 2 ^ 64 }

end Mshr

end KuiperCache
