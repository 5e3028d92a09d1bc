import KuiperCache.Library.Alignment
import KuiperCache.Mshr.Mshr
import KuiperCache.Packet.Data
import KuiperCache.Packet.RequestObject
import KuiperCache.Prefetch.AlreadyQueued
import KuiperCache.Tags.Store

/-! The prefetcher at work: an access notifies it, the candidates it calculates are
filtered, given a physical address if they stay on the page, and queued; the others
wait for a translation. -/
namespace KuiperCache

open Checked Alignment

/-- The parameters of the base and the queued prefetcher. -/
structure PrefetchParams where
  blkSize : Nat
  pageBytes : Nat
  onMiss : Bool
  onRead : Bool
  onWrite : Bool
  onData : Bool
  onInst : Bool
  prefetchOnAccess : Bool
  prefetchOnPfHit : Bool
  useVirtualAddresses : Bool
  queueSize : Nat
  queueSquash : Bool
  queueFilter : Bool
  cacheSnoop : Bool
  throttleControlPct : Nat
deriving DecidableEq, Repr

/-- What the cache answers a prefetcher. -/
structure CacheAccessor where
  inCache : Addr → Bool → Bool
  inMissQueue : Addr → Bool → Bool
  hasBeenPrefetched : Addr → Bool → Bool
  coalesce : Bool

/-- An access: its packet, the request object the packet points to, and the cache. -/
structure CacheAccessProbeArg where
  pkt : PacketObject
  req : RequestObject
  cache : CacheAccessor
  shared : req.toRequest = pkt.req

namespace RequestObject

def prefetch : BitVec 64 := 0x01000000

def getSize (req : RequestObject) : Except Assertion Nat := do
  check req.hasSize .sizeExpected
  pure req.size

def getVaddr (req : RequestObject) : Except Assertion Addr := do
  check req.hasVaddr .vaddrExpected
  pure req.vaddr

def getPaddr (req : RequestObject) : Except Assertion Addr := do
  check req.hasPaddr .paddrExpected
  pure req.paddr

def contextId (req : RequestObject) : Except Assertion Int :=
  match req.context with
  | none => .error .contextIdExpected
  | some context => .ok context

def isInstFetch (req : RequestObject) : Bool := req.isSet instFetch

end RequestObject

/-- What starts a calculation.  The program counter is there if the request had one,
and the data are if they were there to be copied. -/
structure TriggerInfo extends PrefetchInfo where
  pc : Option Addr
  requestorId : Nat
  size : Nat
  write : Bool
  paddress : Addr
  cacheMiss : Bool
  data : Option (List UInt8)
deriving DecidableEq, Repr

namespace TriggerInfo

/-- What the constructor copies: of a read that missed nothing, else the bytes of the
request among those of its packet.  The offset is a 64-bit difference. -/
def copyData (acc : CacheAccessProbeArg) (size : Nat) (write miss : Bool) :
    Except Assertion (Option (List UInt8)) :=
  if !write && miss then .ok none
  else do
    let paddr ← acc.req.getPaddr
    let addr ← acc.pkt.getAddr
    let offset := (paddr - addr).toNat
    let _ ← acc.pkt.getConstPtr
    check (offset + size ≤ acc.pkt.data.length) .undefinedBehaviour
    pure (some ((acc.pkt.data.drop offset).take size))

/-- The constructor. -/
def ofPacket (acc : CacheAccessProbeArg) (address : Addr) (miss : Bool) :
    Except Assertion TriggerInfo := do
  -- `isSecure` asserts that there is an address
  check acc.pkt.validAddr .addrExpected
  let size ← acc.req.getSize
  let write := acc.pkt.cmd.isWrite
  let paddress ← acc.req.getPaddr
  let data ← copyData acc size write miss
  pure { address, secure := acc.pkt.isSecure, pc := if acc.req.hasPC then some acc.req.pc else none,
         requestorId := acc.req.requestorId, size, write, paddress, cacheMiss := miss, data }

/-- The same trigger for another address, without its data. -/
def forAddress (pfi : TriggerInfo) (address : Addr) : TriggerInfo :=
  { pfi with address, data := none }

def getPC (pfi : TriggerInfo) : Except Assertion Addr :=
  match pfi.pc with
  | none => .error .pcExpected
  | some pc => .ok pc

/-- A trigger for an address, with the security of the access. -/
structure Describes (acc : CacheAccessProbeArg) (address : Addr) (pfi : TriggerInfo) : Prop where
  address : pfi.address = address
  secure : pfi.secure = acc.pkt.isSecure

variable {acc : CacheAccessProbeArg} {address : Addr} {miss : Bool} {pfi : TriggerInfo}

theorem ofPacket_describes (h : ofPacket acc address miss = .ok pfi) :
    Describes acc address pfi := by
  simp only [ofPacket, bind_eq_ok, check_eq_ok, exists_const, pure_eq_ok] at h
  obtain ⟨-, size, -, paddress, -, data, -, rfl⟩ := h
  exact ⟨rfl, rfl⟩

/-- The data that a write or a hit needs: the packet has some, and those of the request
are among them. -/
def HasData (acc : CacheAccessProbeArg) : Prop :=
  (acc.pkt.staticData || acc.pkt.dynamicData) = true ∧
    (acc.req.paddr - acc.pkt.addr).toNat + acc.req.size ≤ acc.pkt.data.length

theorem exists_copyData_iff {write : Bool} (haddr : acc.pkt.validAddr = true)
    (hpaddr : acc.req.hasPaddr = true) :
    (∃ data, copyData acc acc.req.size write miss = .ok data) ↔
      (write = true ∨ miss = false → HasData acc) := by
  unfold copyData
  split
  · rename_i hread
    simp only [Bool.and_eq_true, Bool.not_eq_true'] at hread
    simp [hread.1, hread.2]
  · rename_i hneeded
    have hcopies : write = true ∨ miss = false := by
      cases write <;> cases miss <;> simp at hneeded ⊢
    simp only [RequestObject.getPaddr, hpaddr, PacketObject.getAddr, haddr, check_true, ok_bind,
      pure_bind, PacketObject.getConstPtr, bind_eq_ok, check_eq_ok, exists_const, pure_eq_ok,
      decide_eq_true_eq, hcopies, true_imp_iff]
    constructor
    · rintro ⟨data, -, ⟨hdata, -⟩, hinside, -⟩
      exact ⟨hdata, hinside⟩
    · rintro ⟨hdata, hinside⟩
      exact ⟨_, _, ⟨hdata, rfl⟩, hinside, rfl⟩

/-- The constructor aborts exactly if an address or a size is missing, or the data of a
write or of a hit are. -/
theorem exists_ofPacket_iff : (∃ pfi, ofPacket acc address miss = .ok pfi) ↔
    acc.pkt.validAddr = true ∧ acc.req.hasSize = true ∧ acc.req.hasPaddr = true ∧
      (acc.pkt.cmd.isWrite = true ∨ miss = false → HasData acc) := by
  simp only [ofPacket, RequestObject.getSize, RequestObject.getPaddr, bind_eq_ok, check_eq_ok,
    exists_const, pure_eq_ok]
  constructor
  · rintro ⟨pfi, haddr, size, ⟨hsize, rfl⟩, paddress, ⟨hpaddr, -⟩, data, hdata, -⟩
    exact ⟨haddr, hsize, hpaddr, (exists_copyData_iff haddr hpaddr).mp ⟨data, hdata⟩⟩
  · rintro ⟨haddr, hsize, hpaddr, hneeded⟩
    obtain ⟨data, hdata⟩ := (exists_copyData_iff haddr hpaddr).mpr hneeded
    exact ⟨_, haddr, _, ⟨hsize, rfl⟩, _, ⟨hpaddr, rfl⟩, data, hdata, rfl⟩

end TriggerInfo

/-- Candidates with their priorities. -/
abbrev AddrPriority := Addr × Int

namespace PrefetchParams

variable (params : PrefetchParams)

def blockAddress (a : Addr) : Addr := alignDown a (BitVec.ofNat 64 params.blkSize)

def roundDown (val : Addr) (align : Nat) : Except Assertion Addr := do
  check (isPowerOf2 align) .powerOfTwoExpected
  pure (alignDown val (BitVec.ofNat 64 align))

def samePage (a b : Addr) : Except Assertion Bool := do
  let pageA ← roundDown a params.pageBytes
  let pageB ← roundDown b params.pageBytes
  pure (pageA == pageB)

/-- The prefetch request for a block.  The requestor of a prefetcher is 0; that the
request may be tagged with a program counter is left out, nothing reads it. -/
def createPkt (ptr : Nat) (pfInfo : PrefetchInfo) (paddr : Addr) : Packet :=
  let flags := if pfInfo.secure then Request.secure else 0
  let req := { Request.physical paddr params.blkSize flags 0 with taskId := 1022 }
  (Packet.ofRequest ptr req .hardPFReq).allocate

/-- The request for a translation. -/
def createPrefetchRequest (addr : Addr) (pfi : TriggerInfo) (acc : CacheAccessProbeArg) :
    Except Assertion RequestObject := do
  let pc ← pfi.getPC
  let context ← acc.req.contextId
  let req := RequestObject.virtual addr (BitVec.ofNat 32 params.blkSize) acc.pkt.req.flags 0 pc
    context
  pure { req with flags := req.flags ||| RequestObject.prefetch }

/-- Where a candidate goes: nowhere, to a physical address, or to the queue of
pending translations. -/
inductive Destination where
  | dropped
  | physical (paddr : Addr)
  | translation (request : RequestObject)

/-- The address of the access that the prefetcher is trained on. -/
def origAddr (req : RequestObject) : Except Assertion Addr :=
  if params.useVirtualAddresses then req.getVaddr else req.getPaddr

/-- The address computation of `insert`; strides wrap around as addresses do. -/
def destination (acc : CacheAccessProbeArg) (newPfi : TriggerInfo) :
    Except Assertion Destination := do
  let origAddr ← params.origAddr acc.req
  let positiveStride := origAddr ≤ newPfi.address
  let stride := if positiveStride then newPfi.address - origAddr else origAddr - newPfi.address
  if ← params.samePage origAddr newPfi.address then
    if params.useVirtualAddresses then do
      let paddr ← acc.req.getPaddr
      pure (.physical (if positiveStride then paddr + stride else paddr - stride))
    else pure (.physical newPfi.address)
  else if acc.req.context.isNone then pure .dropped
  else if params.useVirtualAddresses then do
    let request ← params.createPrefetchRequest newPfi.address newPfi acc
    pure (.translation request)
  else if acc.req.hasVaddr then do
    let targetVaddr := if positiveStride then acc.req.vaddr + stride else acc.req.vaddr - stride
    let request ← params.createPrefetchRequest targetVaddr newPfi acc
    pure (.translation request)
  else pure .dropped

/-- Whether the cache makes a prefetch redundant. -/
def redundant (cache : CacheAccessor) (paddr : Addr) (secure : Bool) : Bool :=
  params.cacheSnoop && (cache.inCache paddr secure || cache.inMissQueue paddr secure)

end PrefetchParams

/-- The prefetcher with its counters.  `added` records every entry that was put into
`pfq`, in this order; the code does not keep it and nothing below reads more of it
than its length. -/
structure Prefetcher extends Queued where
  usefulPrefetches : Nat
  added : List DeferredPacket

namespace Prefetcher

def new (params : PrefetchParams) : Prefetcher :=
  { queueSize := params.queueSize, pfq := [], pfqMissingTranslation := [], issuedPrefetches := 0,
    usefulPrefetches := 0, added := [] }

/-- Put an entry with a packet into `pfq`. -/
def enqueue (state : Prefetcher) (params : PrefetchParams) (pfInfo : PrefetchInfo)
    (priority : Int) (paddr : Addr) : Except Assertion Prefetcher := do
  let arrival := state.added.length
  let dpp := { pfInfo, pkt := some (params.createPkt arrival pfInfo paddr), priority, arrival }
  let pfq ← Queued.addToQueue state.queueSize state.pfq dpp
  pure { state with pfq, added := state.added ++ [dpp] }

/-- Put an entry into the queue of pending translations.  It has the size of `pfq`. -/
def enqueueMissing (state : Prefetcher) (pfInfo : PrefetchInfo) (priority : Int) :
    Except Assertion Prefetcher := do
  let dpp := { pfInfo, pkt := none, priority, arrival := state.added.length }
  let pfqMissingTranslation ← Queued.addToQueue state.queueSize state.pfqMissingTranslation dpp
  pure { state with pfqMissingTranslation }

/-- The part of `insert` behind the filter. -/
def insertNew (state : Prefetcher) (params : PrefetchParams) (acc : CacheAccessProbeArg)
    (newPfi : TriggerInfo) (priority : Int) : Except Assertion Prefetcher := do
  match ← params.destination acc newPfi with
  | .dropped => pure state
  | .physical paddr =>
      if params.redundant acc.cache paddr newPfi.secure then pure state
      else state.enqueue params newPfi.toPrefetchInfo priority paddr
  | .translation _ => state.enqueueMissing newPfi.toPrefetchInfo priority

def insert (state : Prefetcher) (params : PrefetchParams) (acc : CacheAccessProbeArg)
    (newPfi : TriggerInfo) (priority : Int) : Except Assertion Prefetcher :=
  if params.queueFilter then
    let (found, pfq) := Queued.alreadyInQueue state.pfq newPfi.toPrefetchInfo priority
    if found then .ok { state with pfq }
    else
      let (found, pfqMissingTranslation) :=
        Queued.alreadyInQueue state.pfqMissingTranslation newPfi.toPrefetchInfo priority
      if found then .ok { state with pfq, pfqMissingTranslation }
      else { state with pfq, pfqMissingTranslation }.insertNew params acc newPfi priority
  else state.insertNew params acc newPfi priority

/-- How many prefetches an access may generate, from the accuracy so far.  All
quantities are 64-bit, and a percentage above 100 wraps around. -/
def getMaxPermittedPrefetches (state : Prefetcher) (params : PrefetchParams) (total : Nat) : Nat :=
  let issued := state.issuedPrefetches % 2 ^ 64
  if 0 < total && 0 < issued then
    let throttlePfs := total * params.throttleControlPct % 2 ^ 64 / 100
    let unthrottled := (total + 2 ^ 64 - throttlePfs) % 2 ^ 64
    let minPfs := if unthrottled == 0 then 1 else unthrottled
    let more := (total + 2 ^ 64 - minPfs) % 2 ^ 64
    (minPfs + more * (state.usefulPrefetches % 2 ^ 64) % 2 ^ 64 / issued) % 2 ^ 64
  else total

/-- The loop that erases the queued prefetches of a demanded block. -/
def squash (blkAddr : Addr) (secure : Bool) : List DeferredPacket → List DeferredPacket
  | [] => []
  | itr :: rest =>
      if itr.pfInfo.address == blkAddr && itr.pfInfo.secure == secure then
        squash blkAddr secure rest
      else itr :: squash blkAddr secure rest

/-- The loop over the candidates: those of the page of the access are inserted until
the permitted number is reached. -/
def queueCandidates (params : PrefetchParams) (acc : CacheAccessProbeArg) (pfi : TriggerInfo)
    (maxPfs : Nat) : Nat → List AddrPriority → Prefetcher → Except Assertion Prefetcher
  | _, [], state => .ok state
  | numPfs, (address, priority) :: rest, state => do
      let address := params.blockAddress address
      if ← params.samePage address pfi.address then do
        let state ← state.insert params acc (pfi.forAddress address) priority
        if numPfs + 1 == maxPfs then pure state
        else queueCandidates params acc pfi maxPfs (numPfs + 1) rest state
      else queueCandidates params acc pfi maxPfs numPfs rest state

/-- `notify`, for the candidates that the prefetcher calculates. -/
def notify (state : Prefetcher) (params : PrefetchParams) (acc : CacheAccessProbeArg)
    (pfi : TriggerInfo) (addresses : List AddrPriority) : Except Assertion Prefetcher :=
  let squashed := if params.queueSquash then
      { state with pfq := squash (params.blockAddress pfi.address) pfi.secure state.pfq }
    else state
  queueCandidates params acc pfi (squashed.getMaxPermittedPrefetches params addresses.length) 0
    addresses squashed

/-- Whether the prefetcher looks at accesses of this kind. -/
def observeAccess (params : PrefetchParams) (acc : CacheAccessProbeArg) (miss prefetched : Bool) :
    Bool :=
  let fetch := acc.req.isInstFetch
  let read := acc.pkt.cmd.isRead
  if !miss && params.prefetchOnPfHit then prefetched
  else if !miss && !params.prefetchOnAccess then false
  else if acc.pkt.req.isUncacheable then false
  else if fetch && !params.onInst then false
  else if !fetch && !params.onData then false
  else if !fetch && read && !params.onRead then false
  else if !fetch && !read && !params.onWrite then false
  else if !fetch && !read && acc.pkt.cmd.isInvalidate then false
  else if acc.pkt.cmd == .cleanEvict then false
  else if params.onMiss then miss
  else true

/-- An access to a block that was prefetched counts for the accuracy. -/
def countUseful (state : Prefetcher) (prefetched : Bool) : Prefetcher :=
  if prefetched then { state with usefulPrefetches := state.usefulPrefetches + 1 } else state

/-- The probe of the cache, for a prefetcher that calculates its candidates so. -/
def probeNotify (state : Prefetcher) (params : PrefetchParams)
    (calculatePrefetch : TriggerInfo → Except Assertion (List AddrPriority))
    (acc : CacheAccessProbeArg) (miss : Bool) : Except Assertion Prefetcher :=
  if acc.pkt.cmd.testCmdAttrib .isSWPrefetch || acc.pkt.req.isCacheMaintenance ||
      acc.pkt.cmd.isWrite && acc.cache.coalesce then .ok state
  else do
    check acc.req.hasPaddr .paddrExpected
    let addr ← acc.pkt.getAddr
    let prefetched := acc.cache.hasBeenPrefetched addr acc.pkt.isSecure
    let state := state.countUseful prefetched
    if observeAccess params acc miss prefetched then
      if params.useVirtualAddresses then
        if acc.req.hasVaddr then do
          let pfi ← TriggerInfo.ofPacket acc acc.req.vaddr miss
          let addresses ← calculatePrefetch pfi
          state.notify params acc pfi addresses
        else pure state
      else do
        let pfi ← TriggerInfo.ofPacket acc acc.req.paddr miss
        let addresses ← calculatePrefetch pfi
        state.notify params acc pfi addresses
    else pure state

/-- A translation is over; `paddr` is what the translation request holds then, if it
did not fail. -/
def translationComplete (state : Prefetcher) (params : PrefetchParams) (dp : Nat)
    (paddr : Option Addr) (cache : CacheAccessor) : Except Assertion Prefetcher :=
  match state.pfqMissingTranslation[dp]? with
  | none => .error .translationExpected
  | some it => do
      let state ← (match paddr with
        | none => .ok state
        | some targetPaddr =>
            if params.redundant cache targetPaddr it.pfInfo.secure then .ok state
            else state.enqueue params it.pfInfo it.priority targetPaddr)
      pure { state with pfqMissingTranslation := state.pfqMissingTranslation.eraseIdx dp }

/-- `getPacket`; the counters stay with the queues. -/
def getPacket (state : Prefetcher) : Except Assertion (Option Packet × Prefetcher) := do
  let (pkt, queues) ← state.toQueued.getPacket
  pure (pkt, { state with toQueued := queues })

section Spec

variable {params : PrefetchParams} {acc : CacheAccessProbeArg} {pfi newPfi : TriggerInfo}
  {priority : Int} {state next : Prefetcher} {queue : List DeferredPacket}

theorem squash_eq_filter (blkAddr : Addr) (secure : Bool) (queue : List DeferredPacket) :
    squash blkAddr secure queue = queue.filter fun entry =>
      !(entry.pfInfo.address == blkAddr && entry.pfInfo.secure == secure) := by
  induction queue with
  | nil => rfl
  | cons itr rest ih =>
      rw [squash, List.filter_cons, ih]
      cases itr.pfInfo.address == blkAddr && itr.pfInfo.secure == secure <;> rfl

/-- What is asked for and not there leaves the queue as it is. -/
theorem alreadyInQueue_none {pfInfo : PrefetchInfo}
    (h : ∀ entry ∈ queue, entry.pfInfo.sameAddr pfInfo = false) :
    Queued.alreadyInQueue queue pfInfo priority = (false, queue) := by
  rw [Queued.alreadyInQueue, Queued.searchQueue_none h]

theorem alreadyInQueue_some {pfInfo : PrefetchInfo}
    (h : ∃ entry ∈ queue, entry.pfInfo.sameAddr pfInfo = true) :
    (Queued.alreadyInQueue queue pfInfo priority).1 = true := by
  obtain hnone | ⟨front, entry, back, rfl, hentry, hfront⟩ := Queued.exists_match queue pfInfo
  · obtain ⟨entry, hmem, hsame⟩ := h
    rw [hnone entry hmem] at hsame
    cases hsame
  · rw [Queued.alreadyInQueue, Queued.searchQueue_match hfront hentry]
    cases back with
    | nil => rfl
    | cons behind back =>
        simp only
        split <;> rfl

/-- Everything `insert` can do: raise an entry of one of the queues, or go on with an
address that is in neither. -/
theorem insert_cases (h : state.insert params acc newPfi priority = .ok next) :
    next = { state with
      pfq := (Queued.alreadyInQueue state.pfq newPfi.toPrefetchInfo priority).2 } ∨
    next = { state with
      pfqMissingTranslation := (Queued.alreadyInQueue state.pfqMissingTranslation
        newPfi.toPrefetchInfo priority).2 } ∨
    ((params.queueFilter = true → ∀ entry ∈ state.pfq ++ state.pfqMissingTranslation,
        entry.pfInfo.sameAddr newPfi.toPrefetchInfo = false) ∧
      state.insertNew params acc newPfi priority = .ok next) := by
  have hdecide : ∀ queue : List DeferredPacket,
      (∀ entry ∈ queue, entry.pfInfo.sameAddr newPfi.toPrefetchInfo = false) ∨
        ∃ entry ∈ queue, entry.pfInfo.sameAddr newPfi.toPrefetchInfo = true := by
    intro queue
    by_cases hall : ∀ entry ∈ queue, entry.pfInfo.sameAddr newPfi.toPrefetchInfo = false
    · exact .inl hall
    · exact .inr (by simpa using hall)
  unfold insert at h
  by_cases hfilter : params.queueFilter = true
  · simp only [hfilter, ↓reduceIte] at h
    obtain hpfq | hpfq := hdecide state.pfq
    · simp only [alreadyInQueue_none hpfq, Bool.false_eq_true, ↓reduceIte] at h
      obtain hmissing | hmissing := hdecide state.pfqMissingTranslation
      · simp only [alreadyInQueue_none hmissing, Bool.false_eq_true, ↓reduceIte] at h
        refine .inr (.inr ⟨fun _ entry hentry => ?_, h⟩)
        exact (List.mem_append.mp hentry).elim (hpfq entry) (hmissing entry)
      · simp only [alreadyInQueue_some hmissing, ↓reduceIte, Except.ok.injEq] at h
        exact .inr (.inl h.symm)
    · simp only [alreadyInQueue_some hpfq, ↓reduceIte, Except.ok.injEq] at h
      exact .inl h.symm
  · simp only [hfilter, Bool.false_eq_true, ↓reduceIte] at h
    exact .inr (.inr ⟨fun htrue => absurd htrue hfilter, h⟩)

theorem insertNew_cases (h : state.insertNew params acc newPfi priority = .ok next) :
    next = state ∨
    (∃ paddr, params.destination acc newPfi = .ok (.physical paddr) ∧
      state.enqueue params newPfi.toPrefetchInfo priority paddr = .ok next) ∨
    (∃ request, params.destination acc newPfi = .ok (.translation request) ∧
      state.enqueueMissing newPfi.toPrefetchInfo priority = .ok next) := by
  simp only [insertNew, bind_eq_ok] at h
  obtain ⟨destination, hdestination, h⟩ := h
  cases destination with
  | dropped =>
      rw [pure_eq_ok] at h
      exact .inl h.symm
  | physical paddr =>
      simp only at h
      split at h
      · rw [pure_eq_ok] at h
        exact .inl h.symm
      · exact .inr (.inl ⟨paddr, hdestination, h⟩)
  | translation request => exact .inr (.inr ⟨request, hdestination, h⟩)

/-- The rule for the loop over the candidates: what every insertion of a candidate of
the page preserves, the loop preserves. -/
theorem queueCandidates_invariant {inv : Prefetcher → Prop} {addresses : List AddrPriority}
    {maxPfs numPfs : Nat}
    (hinsert : ∀ candidate ∈ addresses, ∀ before after : Prefetcher,
      params.samePage (params.blockAddress candidate.1) pfi.address = .ok true → inv before →
      before.insert params acc (pfi.forAddress (params.blockAddress candidate.1)) candidate.2 =
        .ok after → inv after)
    (h : queueCandidates params acc pfi maxPfs numPfs addresses state = .ok next)
    (hinv : inv state) : inv next := by
  induction addresses generalizing numPfs state with
  | nil =>
      cases h
      exact hinv
  | cons candidate rest ih =>
      have hrest := fun other hother => hinsert other (List.mem_cons_of_mem candidate hother)
      simp only [queueCandidates, bind_eq_ok] at h
      obtain ⟨same, hsame, h⟩ := h
      cases same with
      | false => exact ih hrest h hinv
      | true =>
          simp only [↓reduceIte, bind_eq_ok] at h
          obtain ⟨inserted, hinserted, h⟩ := h
          have hnext := hinsert candidate List.mem_cons_self state inserted hsame hinv hinserted
          split at h
          · rw [pure_eq_ok] at h
            exact h ▸ hnext
          · exact ih hrest h hnext

/-- The queue after the demanded block was squashed, if that is asked for. -/
def demanded (state : Prefetcher) (params : PrefetchParams) (pfi : TriggerInfo) : Prefetcher :=
  if params.queueSquash then
    { state with pfq := squash (params.blockAddress pfi.address) pfi.secure state.pfq }
  else state

theorem notify_eq {addresses : List AddrPriority} :
    state.notify params acc pfi addresses =
      queueCandidates params acc pfi
        ((state.demanded params pfi).getMaxPermittedPrefetches params addresses.length) 0 addresses
        (state.demanded params pfi) := rfl

theorem countUseful_eq (state : Prefetcher) (prefetched : Bool) :
    ∃ useful, state.countUseful prefetched = { state with usefulPrefetches := useful } := by
  cases prefetched with
  | false => exact ⟨state.usefulPrefetches, rfl⟩
  | true => exact ⟨state.usefulPrefetches + 1, rfl⟩

/-- The probe counts at most, or notifies with the address the prefetcher is trained
on. -/
theorem probeNotify_cases {calculate : TriggerInfo → Except Assertion (List AddrPriority)}
    {miss : Bool} (h : state.probeNotify params calculate acc miss = .ok next) :
    ∃ useful, next = { state with usefulPrefetches := useful } ∨ ∃ address pfi addresses,
      TriggerInfo.ofPacket acc address miss = .ok pfi ∧ calculate pfi = .ok addresses ∧
      { state with usefulPrefetches := useful }.notify params acc pfi addresses = .ok next := by
  unfold probeNotify at h
  split at h
  · cases h
    exact ⟨state.usefulPrefetches, .inl rfl⟩
  · simp only [bind_eq_ok, check_eq_ok, exists_const] at h
    obtain ⟨-, addr, -, h⟩ := h
    obtain ⟨useful, hcount⟩ := state.countUseful_eq
      (acc.cache.hasBeenPrefetched addr acc.pkt.isSecure)
    rw [hcount] at h
    refine ⟨useful, ?_⟩
    split at h
    · split at h
      · split at h
        · simp only [bind_eq_ok] at h
          obtain ⟨pfi, hpfi, addresses, hcalculate, hnotify⟩ := h
          exact .inr ⟨acc.req.vaddr, pfi, addresses, hpfi, hcalculate, hnotify⟩
        · rw [pure_eq_ok] at h
          exact .inl h.symm
      · simp only [bind_eq_ok] at h
        obtain ⟨pfi, hpfi, addresses, hcalculate, hnotify⟩ := h
        exact .inr ⟨acc.req.paddr, pfi, addresses, hpfi, hcalculate, hnotify⟩
    · rw [pure_eq_ok] at h
      exact .inl h.symm

theorem getPacket_eq_ok {pkt : Option Packet} (h : state.getPacket = .ok (pkt, next)) :
    next.pfq = state.pfq.tail ∧ pkt = state.pfq.head?.bind DeferredPacket.pkt ∧
      next.pfqMissingTranslation = state.pfqMissingTranslation ∧
      next.queueSize = state.queueSize ∧ next.added = state.added := by
  simp only [getPacket, Queued.getPacket, Queued.processMissingTranslations, ite_self, bind_eq_ok,
    pure_eq_ok, Prod.mk.injEq] at h
  obtain ⟨⟨pkt, queues⟩, hget, rfl, rfl⟩ := h
  cases hpfq : state.pfq with
  | nil =>
      simp only [hpfq, pure_eq_ok, Prod.mk.injEq] at hget
      obtain ⟨rfl, rfl⟩ := hget
      exact ⟨hpfq, rfl, rfl, rfl, rfl⟩
  | cons front rest =>
      simp only [hpfq, bind_eq_ok, check_eq_ok, pure_eq_ok, Prod.mk.injEq] at hget
      obtain ⟨-, -, rfl, rfl⟩ := hget
      exact ⟨rfl, rfl, rfl, rfl, rfl⟩

end Spec

end Prefetcher

end KuiperCache
