import KuiperCache.Cache.Sound

/-! Properties of the MSHRs in use.  A call works on one MSHR at a time: it takes
one, adds a target to one, sends one or frees one, and the others stay as they
are. -/
namespace KuiperCache

open Checked

namespace Cache

variable {config : CacheConfig} {P : Mshr → Prop}

/-- Every MSHR in use has the property. -/
def Entrywise (P : Mshr → Prop) (cache : Cache config) : Prop :=
  ∀ index ∈ cache.mshrQueue.allocatedList, P (cache.mshrQueue.entries index)

theorem entrywise_new (config : CacheConfig) (writeAllocator : Option WriteAllocator) :
    Entrywise P (Cache.new config writeAllocator) := by
  intro index hindex
  cases hindex

theorem Entrywise.sameQueue {before after : Cache config} (h : Entrywise P before)
    (hqueue : after.mshrQueue = before.mshrQueue) : Entrywise P after := by
  unfold Entrywise
  rw [hqueue]
  exact h

theorem Entrywise.missed {before after : Cache config} {index : Fin config.mshrs} {mshr : Mshr}
    (hsound : Sound before) (h : Entrywise P before) (hmissed : Missed before after index mshr)
    (hmshr : P mshr) : Entrywise P after := by
  intro other hother
  obtain ⟨hold, hentry⟩ | ⟨-, hentry⟩ :=
    hsound.represents.allocated_cases hmissed.allocated hother
  · rw [hentry]
    exact h other hold
  · rw [hentry]
    exact hmshr

/-- One entry was replaced. -/
theorem Entrywise.edited {before after : Cache config} {index : Fin config.mshrs} {mshr : Mshr}
    (h : Entrywise P before)
    (hedited : MshrQueue.Edited before.mshrQueue after.mshrQueue index mshr) (hmshr : P mshr) :
    Entrywise P after := by
  intro other hother
  rw [hedited.allocatedList] at hother
  rw [hedited.entries, Function.update_apply]
  split
  · exact hmshr
  · exact h other hother

theorem Entrywise.serving {before after : Cache config} {index : Fin config.mshrs} {mshr : Mshr}
    {answers : List Packet} (h : Entrywise P before)
    (hserving : Serving before after index mshr answers) (hmshr : P mshr) :
    Entrywise P after := by
  have hedited := MshrQueue.setEntry_edited before.mshrQueue index mshr
  rw [← hserving.mshrQueue] at hedited
  exact h.edited hedited hmshr

theorem Entrywise.marked {before after : Cache config} {index : Fin config.mshrs}
    {pendingModified : Bool} (h : Entrywise P before)
    (hmark : before.markInService index pendingModified = .ok after)
    (hmshr : ∀ mshr, (before.mshrQueue.entries index).markInService pendingModified = .ok mshr →
      P mshr) : Entrywise P after := by
  obtain ⟨mshrQueue, hqueue, rfl⟩ := markInService_eq_ok hmark
  obtain ⟨mshr, hmarked, hedited, -, -⟩ := MshrQueue.markInService_spec hqueue
  exact h.edited hedited (hmshr mshr hmarked)

theorem Entrywise.recvTimingResp {cache next : Cache config} (hsound : Sound cache)
    (h : Entrywise P cache) {pkt : Packet} {random : Fin config.geometry.assoc}
    (hresp : cache.recvTimingResp pkt random = .ok next) : Entrywise P next := by
  obtain ⟨-, -, -, hbase⟩ := recvTimingResp_base hresp
  obtain ⟨-, rfl⟩ | ⟨index, blk, filled, writebacks, mshr, ready, left, answers, -, -, hfill, -, -,
    -, -, hresponded⟩ := recvTimingRespBase_cases hbase
  · exact h
  · have htouched := (unblockTargets_kept cache index).toTouched.trans
      (fillFromResponse_touched hfill)
    obtain ⟨free, hreleased, -, -⟩ := hresponded.released
    have hfilled := h.sameQueue htouched.mshrQueue
    intro other hother
    obtain ⟨-, hold, hentry⟩ :=
      (hsound.touched htouched).represents.released_cases hreleased hother
    rw [hentry]
    exact hfilled other hold

theorem Entrywise.handleTimingRes {cache next : Cache config} (hsound : Sound cache)
    (h : Entrywise P cache) {pkt : Packet} {random : Fin config.geometry.assoc}
    (hres : cache.handleTimingRes pkt random = .ok next) : Entrywise P next := by
  have hfresh := (newPtr_kept cache).toTouched
  exact (h.sameQueue hfresh.mshrQueue).recvTimingResp (hsound.touched hfresh) hres

theorem Entrywise.sendMSHRQueuePacket {cache next : Cache config} (hsound : Sound cache)
    (h : Entrywise P cache) {index : Fin config.mshrs} {reply : Option (List UInt8)}
    {random : Fin config.geometry.assoc} {waiting : Bool} {flight : Option Packet}
    (hforward : ∀ mshr, P mshr → P { mshr with isForward := false })
    (hmark : ∀ mshr mshr' modified, P mshr → mshr.markInService modified = .ok mshr' → P mshr')
    (hsend : cache.sendMSHRQueuePacket index reply random = .ok (waiting, next, flight)) :
    Entrywise P next := by
  obtain ⟨target, htarget, ⟨-, -, hkept⟩ | ⟨issued, ptr, hserving, hreply⟩⟩ :=
    sendMSHRQueuePacket_cases hsend
  · exact h.sameQueue hkept.mshrQueue
  · obtain ⟨rest, hcons⟩ := Mshr.getTarget_eq_ok.mp htarget
    have hmem : index ∈ cache.mshrQueue.allocatedList :=
      hsound.mem_allocatedList (by simp [hcons])
    have hissued := h.serving hserving (hforward _ (h index hmem))
    cases reply with
    | some data => exact hissued.handleTimingRes (hsound.serving hmem hserving rfl rfl) hreply.2
    | none =>
        obtain ⟨-, modified, hmarked⟩ := hreply
        have hmem' : index ∈ issued.mshrQueue.allocatedList := by
          rw [hserving.mshrQueue]
          exact hmem
        exact hissued.marked hmarked fun mshr => hmark _ mshr modified (hissued index hmem')

/-- A request that misses makes an MSHR for its block or joins the one found. -/
theorem Entrywise.handleTimingReqMiss {cache next : Cache config} (hsound : Sound cache)
    (h : Entrywise P cache) {pkt : Packet} {blk : Option (BlkRef config.geometry)}
    (hfresh : ∀ (mshr mshr' : Mshr) order, mshr.waiting = [] →
      mshr.allocate (pkt.getBlockAddr config.blkSize) config.blkSize pkt curTick order
        (allocOnFill pkt.cmd) = .ok mshr' → P mshr')
    (hjoin : ∀ index mshr order,
      cache.mshrQueue.findMatch (pkt.getBlockAddr config.blkSize) pkt.isSecure false =
        .ok (some index) → P (cache.mshrQueue.entries index) →
      (cache.mshrQueue.entries index).allocateTarget pkt curTick order (allocOnFill pkt.cmd) =
        .ok mshr → P mshr)
    (hmiss : cache.handleTimingReqMiss pkt blk = .ok next) : Entrywise P next := by
  obtain ⟨found, updated, hkept, hfound, hmiss⟩ := handleTimingReqMiss_cases hmiss
  have hupdated := h.sameQueue hkept.mshrQueue
  have hsound' := hsound.touched hkept.toTouched
  cases found with
  | none =>
      obtain ⟨-, middle, index, mshr, htouched, -, hallocate, hmissed, -⟩ := startMiss_cases hmiss
      exact (hupdated.sameQueue htouched.mshrQueue).missed (hsound'.touched htouched) hmissed
        (hfresh _ mshr _ hmissed.allocated.empty hallocate)
  | some index =>
      obtain ⟨-, hsame⟩ | ⟨mshr, hallocate, hserving⟩ := coalesce_cases hmiss
      · exact hupdated.sameQueue hsame.mshrQueue
      · rw [hkept.mshrQueue] at hallocate
        have hmem := (findMatch_eq_some hfound).1
        exact hupdated.serving hserving (hjoin index mshr _ hfound (h index hmem) hallocate)

/-- Every operation on a single MSHR keeps the property. -/
structure Stable (P : Mshr → Prop) : Prop where
  allocate : ∀ {mshr mshr' : Mshr} {blkAddr : Addr} {blkSize : Nat} {pkt : Packet}
    {whenReady : Tick} {order : Nat} {onFill : Bool}, mshr.waiting = [] →
    mshr.allocate blkAddr blkSize pkt whenReady order onFill = .ok mshr' → P mshr'
  allocateTarget : ∀ {mshr mshr' : Mshr} {pkt : Packet} {whenReady : Tick} {order : Nat}
    {onFill : Bool}, P mshr → mshr.allocateTarget pkt whenReady order onFill = .ok mshr' → P mshr'
  issued : ∀ {mshr : Mshr}, P mshr → P { mshr with isForward := false }
  markInService : ∀ {mshr mshr' : Mshr} {pendingModified : Bool}, P mshr →
    mshr.markInService pendingModified = .ok mshr' → P mshr'

theorem Entrywise.lockLine {cache next : Cache config} (hstable : Stable P) (hsound : Sound cache)
    (h : Entrywise P cache) {pkt : Packet} {blk : Option (BlkRef config.geometry)}
    (hlock : cache.lockLine pkt blk = .ok next) : Entrywise P next := by
  obtain ⟨fresh, missed, marked, locking, index, mshr, mshrQueue, hkept, hallocate, hmissed, -,
    hmark, rfl, htouched⟩ := lockLine_cases hlock
  have hnew := hstable.allocate hmissed.allocated.empty hallocate
  have hmissed' := (h.sameQueue hkept.mshrQueue).missed (hsound.touched hkept.toTouched) hmissed
    hnew
  obtain ⟨mshr', hmarked, hedited, -, -⟩ := MshrQueue.markInService_spec hmark
  have hmem : index ∈ missed.mshrQueue.allocatedList := by
    rw [hmissed.allocated.allocatedList]
    simp
  have hmarked' := hstable.markInService (hmissed' index hmem) hmarked
  have hlocked : Entrywise P { missed with mshrQueue } := hmissed'.edited hedited hmarked'
  exact hlocked.sameQueue htouched.mshrQueue

theorem Entrywise.recvTimingReq {cache next : Cache config} (hstable : Stable P)
    (hsound : Sound cache) (h : Entrywise P cache) {pkt : Packet}
    {random : Fin config.geometry.assoc} (hreq : cache.recvTimingReq pkt random = .ok next) :
    Entrywise P next := by
  obtain ⟨reopened, accessed, handled, hkept, -, -, htouched, hhandled, rfl⟩ :=
    recvTimingReq_cases hsound.writeBuffer.1 hreq
  have htouched := hkept.toTouched.trans htouched
  have haccessed := h.sameQueue htouched.mshrQueue
  have hsound' := hsound.touched htouched
  have hhandled : Entrywise P handled := by
    split at hhandled
    · have hcleared := (clearPrefetched_kept accessed.cache accessed.blk).toTouched
      have hopen := haccessed.sameQueue hcleared.mshrQueue
      obtain ⟨locked, hfinished, ⟨-, rfl⟩ | ⟨-, -, hlock⟩⟩ := handleTimingReqHit_cases hhandled
      · exact hopen.sameQueue hfinished.kept.mshrQueue
      · exact (hopen.lockLine hstable (hsound'.touched hcleared) hlock).sameQueue
          hfinished.kept.mshrQueue
    · exact haccessed.handleTimingReqMiss hsound' (fun _ _ _ => hstable.allocate)
        (fun _ _ _ _ => hstable.allocateTarget) hhandled
  exact hhandled.sameQueue (notified_mshrQueue handled _)

theorem Entrywise.getNextQueueEntry {cache next : Cache config} (hstable : Stable P)
    (hsound : Sound cache) (h : Entrywise P cache) {prefetch : Option Packet}
    {entry : Option (EntryRef config)}
    (hnext : cache.getNextQueueEntry prefetch = .ok (entry, next)) : Entrywise P next := by
  obtain ⟨rfl, -⟩ | ⟨pkt, index, mshr, -, -, -, -, -, hallocate, hmissed⟩ :=
    getNextQueueEntry_cases hsound.writeBuffer.2 hnext
  · exact h
  · exact h.missed hsound hmissed (hstable.allocate hmissed.allocated.empty hallocate)

theorem Entrywise.step (hstable : Stable P) {system next : System config} {label : Label config}
    (hsound : system.cache.Sound) (h : Entrywise P system.cache)
    (hstep : system.step label = .ok next) : Entrywise P next.cache := by
  have hfresh := (newPtr_kept system.cache).toTouched
  cases label with
  | recvTimingReq pkt random =>
      obtain ⟨cache, hreq, rfl⟩ := System.step_recvTimingReq hstep
      exact (h.sameQueue hfresh.mshrQueue).recvTimingReq hstable (hsound.touched hfresh) hreq
  | getNextQueueEntry prefetch =>
      obtain ⟨entry, cache, hnext, rfl⟩ := System.step_getNextQueueEntry hstep
      exact (h.sameQueue hfresh.mshrQueue).getNextQueueEntry hstable (hsound.touched hfresh) hnext
  | sendMSHRQueuePacket index reply random =>
      obtain ⟨waiting, cache, flight, hsend, rfl⟩ := System.step_sendMSHRQueuePacket hstep
      exact h.sendMSHRQueuePacket hsound (fun _ => hstable.issued)
        (fun _ _ _ => hstable.markInService) hsend
  | handleTimingRes pkt random =>
      obtain ⟨cache, hres, rfl⟩ := System.step_handleTimingRes hstep
      exact h.handleTimingRes hsound hres
  | recvTimingResp pkt random =>
      obtain ⟨cache, hresp, rfl⟩ := System.step_recvTimingResp hstep
      exact h.recvTimingResp hsound hresp

/-- A property that the single operations keep holds of the MSHRs of every
reachable cache. -/
theorem run_entrywise (hstable : Stable P) {writeAllocator : Option WriteAllocator}
    {labels : List (Label config)} {final : System config}
    (hrun : Transition.run System.step (System.new config writeAllocator) labels = .ok final) :
    Entrywise P final.cache := by
  have hinit : Sound (new config writeAllocator) ∧ Entrywise P (new config writeAllocator) :=
    ⟨sound_new config writeAllocator, entrywise_new config writeAllocator⟩
  have hpreserved : ∀ (system : System config) (label : Label config) (next : System config),
      True → system.cache.Sound ∧ Entrywise P system.cache → system.step label = .ok next →
      next.cache.Sound ∧ Entrywise P next.cache := by
    intro system label next _ hinv hstep
    exact ⟨System.step_sound system label next hinv.1 hstep, hinv.2.step hstable hinv.1 hstep⟩
  exact (Transition.run_invariant (fun _ => True) hpreserved (fun _ _ => trivial) hrun hinit).2

/-- An MSHR in use holds at least one target. -/
def Held (mshr : Mshr) : Prop := mshr.targets.list ≠ []

theorem held_stable : Stable Held where
  allocate := by
    intro mshr mshr' blkAddr blkSize pkt whenReady order onFill hfree h
    have hlist := ((Mshr.allocate_spec h).lists hfree).1
    simp [Held, hlist]
  allocateTarget := by
    intro mshr mshr' pkt whenReady order onFill _ h
    exact (Mshr.allocateTarget_joined h).2.1
  issued := fun h => h
  markInService := by
    intro mshr mshr' pendingModified hheld h
    exact (Mshr.markInService_spec h).held hheld

/-- The search asserts that every entry it meets has a target. -/
theorem Entrywise.findMatch {cache : Cache config} (h : Entrywise Held cache) (addr : Addr)
    (secure ignoreUncacheable : Bool) :
    ∃ found, cache.mshrQueue.findMatch addr secure ignoreUncacheable = .ok found := by
  apply findFirst_total
  intro index hindex
  have hheld : QueueEntry.hasTargets (cache.mshrQueue.entries index) = true := by
    have hlist := h index hindex
    simpa [QueueEntry.hasTargets, Mshr.hasTargets, Held] using hlist
  split
  · exact ⟨false, rfl⟩
  · rw [QueueEntry.matchBlockAddr, hheld, check_true, ok_bind]
    exact ⟨_, rfl⟩

end Cache

end KuiperCache
