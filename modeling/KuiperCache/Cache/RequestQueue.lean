import KuiperCache.Cache.Sound

/-! The request queue of the L0 cache.  Port threads hand requests to the cache;
the thread of the queue sleeps on `sendEvent` and sends one entry each time it is
woken.  Threads run until their next wait. -/
namespace KuiperCache

open Checked

/-- Where `pktQueueProcess` is: not yet run, asleep on `sendEvent`, or woken. -/
inductive QueueThread where
  | unstarted
  | suspended
  | runnable
deriving DecidableEq, Repr

/-- An immediate notification wakes the thread only while it sleeps on the event. -/
def QueueThread.notify (thread : QueueThread) : QueueThread :=
  if thread = .suspended then .runnable else thread

/-- The L0 cache and its request queue; it has no write allocator. -/
structure L0 (config : CacheConfig) where
  cache : Cache config
  thread : QueueThread
  waitingOnRetry : Bool

/-- A port thread hands over a request, or the kernel runs the queue thread.
`data` is the line memory answers with. -/
inductive L0.Event (config : CacheConfig) where
  | port (pkt : Packet) (random : Fin config.geometry.assoc)
  | kernel (data : List UInt8) (random : Fin config.geometry.assoc)

namespace L0

variable {config : CacheConfig}

def new (config : CacheConfig) : L0 config :=
  { cache := Cache.new config none, thread := .unstarted, waitingOnRetry := false }

/-- `ReqMonitor` with one packet. -/
def reqMonitor (l0 : L0 config) (pkt : Packet) (random : Fin config.geometry.assoc) :
    Except Assertion (L0 config) := do
  let (ptr, cache) := l0.cache.newPtr
  let cache ← cache.recvTimingReq { pkt with ptr } random
  pure { l0 with
    cache
    thread := if cache.sendEvents = l0.cache.sendEvents then l0.thread else l0.thread.notify }

/-- `entry->sendPacket(cache)`.  `sendWriteQueuePacket` has lost its body and with
it the value it should return. -/
def sendPacket (cache : Cache config) (entry : Cache.EntryRef config) (data : List UInt8)
    (random : Fin config.geometry.assoc) : Except Assertion (Bool × Cache config) :=
  match entry with
  | .miss index => do
      let (waitingOnRetry, cache, _) ← cache.sendMSHRQueuePacket index (some data) random
      pure (waitingOnRetry, cache)
  | .write index => do
      let _ ← (cache.writeBuffer.entries index).getTarget
      .error .undefinedBehaviour

/-- `CacheReqPacketQueue::sendDeferredPacket`. -/
def sendDeferredPacket (l0 : L0 config) (data : List UInt8)
    (random : Fin config.geometry.assoc) : Except Assertion (L0 config) := do
  check (!l0.waitingOnRetry) .waitingOnRetry
  let (entry, cache) ← l0.cache.getNextQueueEntry none
  let (waitingOnRetry, cache) ← (match entry with
    | none => .ok (l0.waitingOnRetry, cache)
    | some entry => sendPacket cache entry data random)
  pure { l0 with
    waitingOnRetry
    cache := if waitingOnRetry then cache else cache.schedMemSideSendEvent }

def processSendEvent (l0 : L0 config) (data : List UInt8) (random : Fin config.geometry.assoc) :
    Except Assertion (L0 config) := do
  check (!l0.waitingOnRetry) .waitingOnRetry
  l0.sendDeferredPacket data random

/-- `pktQueueProcess` up to its next wait.  Whatever it notifies while it runs
finds nobody asleep. -/
def pktQueueProcess (l0 : L0 config) (data : List UInt8) (random : Fin config.geometry.assoc) :
    Except Assertion (L0 config) :=
  match l0.thread with
  | .unstarted => .ok { l0 with thread := .suspended }
  | .suspended => .ok l0
  | .runnable => do
      let l0 ← l0.processSendEvent data random
      pure { l0 with thread := .suspended }

def step (l0 : L0 config) : Event config → Except Assertion (L0 config)
  | .port pkt random => l0.reqMonitor pkt random
  | .kernel data random => l0.pktQueueProcess data random

end L0

namespace Cache

variable {config : CacheConfig}

/-- The ready list changes only together with a notification. -/
structure Announced (before after : Cache config) : Prop where
  writeAllocator : before.writeAllocator = none → after.writeAllocator = none
  announced : before.sendEvents < after.sendEvents ∨
    (after.sendEvents = before.sendEvents ∧
      after.mshrQueue.readyList = before.mshrQueue.readyList)

theorem Announced.of_touched {before after : Cache config} (h : Touched before after) :
    Announced before after :=
  ⟨h.writeAllocator, .inr ⟨h.sendEvents, by rw [h.mshrQueue]⟩⟩

theorem Announced.trans {a b c : Cache config} (hab : Announced a b) (hbc : Announced b c) :
    Announced a c := by
  refine ⟨fun h => hbc.writeAllocator (hab.writeAllocator h), ?_⟩
  obtain hlt | ⟨heq, hready⟩ := hab.announced
  · obtain hlt' | ⟨heq', -⟩ := hbc.announced
    · exact .inl (hlt.trans hlt')
    · exact .inl (heq' ▸ hlt)
  · obtain hlt' | ⟨heq', hready'⟩ := hbc.announced
    · exact .inl (heq ▸ hlt')
    · exact .inr ⟨heq'.trans heq, hready'.trans hready⟩

theorem Announced.finished {before after : Cache config} {pkt : Packet}
    (h : Finished before after pkt) : Announced before after := by
  have hqueue : after.mshrQueue = before.mshrQueue := h.kept.mshrQueue
  exact ⟨h.kept.writeAllocator, .inr ⟨h.kept.sendEvents, by rw [hqueue]⟩⟩

theorem Announced.serving {before after : Cache config} {index : Fin config.mshrs} {mshr : Mshr}
    {answers : List Packet} (h : Serving before after index mshr answers) :
    Announced before after := by
  have hready : after.mshrQueue.readyList = before.mshrQueue.readyList := by
    rw [h.mshrQueue]
    rfl
  exact ⟨h.kept.writeAllocator, .inr ⟨h.kept.sendEvents, hready⟩⟩

theorem Announced.startMiss {cache next : Cache config} {pkt : Packet}
    {blk : Option (BlkRef config.geometry)} (h : cache.startMiss pkt blk = .ok next) :
    Announced cache next := by
  obtain ⟨-, middle, index, mshr, htouched, -, -, hmissed, hevents⟩ := startMiss_cases h
  exact ⟨fun hnone => hmissed.kept.writeAllocator (htouched.writeAllocator hnone),
    .inl (by omega)⟩

theorem Announced.lockLine {cache next : Cache config} {pkt : Packet}
    {blk : Option (BlkRef config.geometry)} (h : cache.lockLine pkt blk = .ok next) :
    Announced cache next := by
  obtain ⟨fresh, missed, marked, locking, index, mshr, mshrQueue, hfresh, -, hmissed, hevents, -,
    rfl, htouched⟩ := lockLine_cases h
  have hnotified : next.sendEvents = missed.sendEvents := htouched.sendEvents
  refine ⟨fun hnone => ?_, .inl (by omega)⟩
  exact htouched.writeAllocator (hmissed.kept.writeAllocator (hfresh.writeAllocator hnone))

/-- A request that puts an MSHR on the ready list notifies the queue. -/
theorem recvTimingReq_announced {cache next : Cache config} (hsound : Sound cache) {pkt : Packet}
    {random : Fin config.geometry.assoc} (h : cache.recvTimingReq pkt random = .ok next) :
    Announced cache next := by
  obtain ⟨reopened, accessed, handled, hkept, -, -, htouched, hhandled, rfl⟩ :=
    recvTimingReq_cases hsound.writeBuffer.1 h
  have haccessed := Announced.of_touched (hkept.toTouched.trans htouched)
  have hhandled : Announced accessed.cache handled := by
    split at hhandled
    · have hcleared := Announced.of_touched
        (clearPrefetched_kept accessed.cache accessed.blk).toTouched
      obtain ⟨locked, hfinished, ⟨-, rfl⟩ | ⟨-, -, hlock⟩⟩ := handleTimingReqHit_cases hhandled
      · exact hcleared.trans (.finished hfinished)
      · exact hcleared.trans ((Announced.lockLine hlock).trans (.finished hfinished))
    · obtain ⟨found, updated, hupdated, -, hmiss⟩ := handleTimingReqMiss_cases hhandled
      refine (Announced.of_touched hupdated.toTouched).trans ?_
      cases found with
      | none => exact .startMiss hmiss
      | some index =>
          obtain ⟨-, hkept⟩ | ⟨mshr, -, hserving⟩ := coalesce_cases hmiss
          · exact .of_touched hkept.toTouched
          · exact .serving hserving
  have hall := haccessed.trans hhandled
  split
  · refine ⟨hall.writeAllocator, .inl ?_⟩
    have hmono : cache.sendEvents ≤ handled.sendEvents := by
      obtain hlt | ⟨heq, -⟩ := hall.announced
      · exact hlt.le
      · exact heq.ge
    exact Nat.lt_succ_of_le hmono
  · exact hall

/-- A line that memory answers at once is taken off the ready list, and the value
returned is the one that stands for waiting. -/
theorem sendMSHRQueuePacket_answered {cache next : Cache config} (hsound : Sound cache)
    (hnone : cache.writeAllocator = none) {index : Fin config.mshrs} {data : List UInt8}
    {random : Fin config.geometry.assoc} {waiting : Bool} {flight : Option Packet}
    (h : cache.sendMSHRQueuePacket index (some data) random = .ok (waiting, next, flight)) :
    waiting = true ∧ next.writeAllocator = none ∧
      next.mshrQueue.readyList = cache.mshrQueue.readyList.erase index := by
  obtain ⟨target, htarget, ⟨hdelayed, -, -⟩ | ⟨issued, ptr, hserving, hwaiting, hres⟩⟩ :=
    sendMSHRQueuePacket_cases h
  · exact absurd hnone hdelayed
  · obtain ⟨rest, hcons⟩ := Mshr.getTarget_eq_ok.mp htarget
    have hmem : index ∈ cache.mshrQueue.allocatedList := hsound.mem_allocatedList (by simp [hcons])
    have hissued := hsound.serving hmem hserving rfl rfl
    obtain ⟨fresh, resp, hfresh, hresp, -, -, hcmd, hpop⟩ := missPacket_answered hres
    obtain ⟨-, -, -, hbase⟩ := recvTimingResp_base hresp
    obtain ⟨hwrite, -⟩ | ⟨index', blk, filled, writebacks, mshr, ready, left, answers, hpop', -,
      hfill, -, -, -, -, hresponded⟩ := recvTimingRespBase_cases hbase
    · rw [hcmd] at hwrite
      cases hwrite
    · rw [hpop] at hpop'
      obtain rfl := Except.ok.inj hpop'
      have htouched := hfresh.toTouched.trans ((unblockTargets_kept fresh index).toTouched.trans
        (fillFromResponse_touched hfill))
      have hsound' := hissued.touched htouched
      have hallocator := htouched.writeAllocator (hserving.kept.writeAllocator hnone)
      refine ⟨hwaiting, hresponded.writeAllocator hallocator, ?_⟩
      obtain ⟨free, hreleased, -, -⟩ := hresponded.released
      rw [hsound'.represents.readyList_released hreleased, htouched.mshrQueue, hserving.mshrQueue]
      rfl

end Cache

namespace L0

open Cache

variable {config : CacheConfig}

/-- What every step keeps. -/
structure Steady (l0 : L0 config) : Prop where
  sound : l0.cache.Sound
  writeAllocator : l0.cache.writeAllocator = none

theorem steady_new (config : CacheConfig) : Steady (new config) := ⟨sound_new config none, rfl⟩

/-- A request changes the ready list only if it wakes a sleeping thread. -/
theorem reqMonitor_cases {l0 next : L0 config} (h : Steady l0) {pkt : Packet}
    {random : Fin config.geometry.assoc} (hreq : l0.reqMonitor pkt random = .ok next) :
    Steady next ∧ next.waitingOnRetry = l0.waitingOnRetry ∧
      (next.thread = .suspended → l0.thread = .suspended ∧
        next.cache.mshrQueue.readyList = l0.cache.mshrQueue.readyList) := by
  simp only [reqMonitor, bind_eq_ok, pure_eq_ok] at hreq
  obtain ⟨cache, hreq, rfl⟩ := hreq
  have hfresh := newPtr_kept l0.cache
  have hsound := h.sound.touched hfresh.toTouched
  have hannounced := recvTimingReq_announced hsound hreq
  refine ⟨⟨hsound.recvTimingReq hreq, hannounced.writeAllocator h.writeAllocator⟩, rfl, ?_⟩
  intro hsuspended
  obtain hlt | ⟨heq, hready⟩ := hannounced.announced
  · have hne : cache.sendEvents ≠ l0.cache.sendEvents := hlt.ne'
    simp only [if_neg hne, QueueThread.notify] at hsuspended
    split at hsuspended
    · cases hsuspended
    · contradiction
  · have heq : cache.sendEvents = l0.cache.sendEvents := heq
    simp only [if_pos heq] at hsuspended
    exact ⟨hsuspended, hready⟩

/-- The entry sent is the first of the ready list: all of them are due. -/
theorem getNext_eq_head {cache : Cache config} (h : Sound cache) :
    cache.mshrQueue.getNext curTick = cache.mshrQueue.readyList.head? := by
  unfold Queue.getNext
  split
  · rename_i hnil
    rw [hnil]
    rfl
  · rename_i index rest hcons
    have hdue : cache.mshrQueue.readyTime index = curTick := h.due index (by simp [hcons])
    rw [hdue, if_neg (lt_irrefl curTick), hcons]
    rfl

/-- One wake-up sends one entry, and then waits for a retry that nobody makes. -/
theorem sendDeferredPacket_cases {l0 next : L0 config} (h : Steady l0) {data : List UInt8}
    {random : Fin config.geometry.assoc} (hsend : l0.sendDeferredPacket data random = .ok next) :
    Steady next ∧ next.waitingOnRetry = !l0.cache.mshrQueue.readyList.isEmpty ∧
      next.cache.mshrQueue.readyList = l0.cache.mshrQueue.readyList.tail := by
  simp only [sendDeferredPacket, bind_eq_ok, check_eq_ok, exists_const, pure_eq_ok,
    Bool.not_eq_true'] at hsend
  obtain ⟨hretry, ⟨entry, cache⟩, hentry, ⟨waiting, sent⟩, hsent, rfl⟩ := hsend
  obtain ⟨rfl, hnext⟩ | ⟨pkt, index, mshr, hprefetch, -⟩ :=
    getNextQueueEntry_cases h.sound.writeBuffer.2 hentry
  · rw [getNext_eq_head h.sound] at hnext
    cases hready : l0.cache.mshrQueue.readyList with
    | nil =>
        rw [hready] at hnext
        subst hnext
        simp only [List.head?_nil, Option.map_none, Except.ok.injEq, Prod.mk.injEq] at hsent
        obtain ⟨rfl, rfl⟩ := hsent
        simp only [hretry, Bool.false_eq_true, ↓reduceIte]
        exact ⟨⟨h.sound.schedMemSideSendEvent, h.writeAllocator⟩, rfl, hready⟩
    | cons index rest =>
        rw [hready] at hnext
        subst hnext
        simp only [List.head?_cons, Option.map_some, sendPacket, bind_eq_ok, pure_eq_ok,
          Prod.mk.injEq] at hsent
        obtain ⟨⟨waiting', cache', flight⟩, hsent, rfl, rfl⟩ := hsent
        obtain ⟨rfl, hnone, hreadyList⟩ :=
          sendMSHRQueuePacket_answered h.sound h.writeAllocator hsent
        simp only [↓reduceIte]
        refine ⟨⟨h.sound.sendMSHRQueuePacket hsent, hnone⟩, rfl, ?_⟩
        rw [hreadyList, hready, List.erase_cons_head]
        rfl
  · cases hprefetch

/-- What the kernel does when it runs the queue thread. -/
theorem pktQueueProcess_cases {l0 next : L0 config} (h : Steady l0) {data : List UInt8}
    {random : Fin config.geometry.assoc} (hrun : l0.pktQueueProcess data random = .ok next) :
    Steady next ∧ next.thread = .suspended ∧
      if l0.thread = .runnable then
        next.waitingOnRetry = !l0.cache.mshrQueue.readyList.isEmpty ∧
          next.cache.mshrQueue.readyList = l0.cache.mshrQueue.readyList.tail
      else next.waitingOnRetry = l0.waitingOnRetry ∧
        next.cache.mshrQueue.readyList = l0.cache.mshrQueue.readyList := by
  unfold pktQueueProcess at hrun
  cases hthread : l0.thread with
  | unstarted =>
      simp only [hthread, Except.ok.injEq] at hrun
      subst hrun
      exact ⟨⟨h.sound, h.writeAllocator⟩, rfl, rfl, rfl⟩
  | suspended =>
      simp only [hthread, Except.ok.injEq] at hrun
      subst hrun
      exact ⟨h, hthread, rfl, rfl⟩
  | runnable =>
      simp only [hthread, processSendEvent, bind_eq_ok, check_eq_ok, exists_const,
        pure_eq_ok] at hrun
      obtain ⟨sent, ⟨-, hsent⟩, rfl⟩ := hrun
      obtain ⟨hsteady, hwaiting, hready⟩ := sendDeferredPacket_cases h hsent
      exact ⟨⟨hsteady.sound, hsteady.writeAllocator⟩, rfl, hwaiting, hready⟩

theorem step_steady (l0 : L0 config) (event : Event config) (next : L0 config)
    (h : Steady l0) (hstep : l0.step event = .ok next) : Steady next := by
  cases event with
  | port pkt random => exact (reqMonitor_cases h hstep).1
  | kernel data random => exact (pktQueueProcess_cases h hstep).1

end L0

end KuiperCache
