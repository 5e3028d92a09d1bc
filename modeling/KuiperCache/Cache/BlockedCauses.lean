import KuiperCache.Cache.TempBlock
import KuiperCache.Library.LastMark

/-! Why the cache is blocked.  Whether the MSHRs are used up is asked again each
time one is taken or freed; that one of them has no room for another target is
remembered through a single pointer. -/
namespace KuiperCache.Cache

open Checked

variable {config : CacheConfig} {cache before after next : Cache config} {pkt : Packet}
  {blk : Option (BlkRef config.geometry)} {random : Fin config.geometry.assoc}
  {index : Fin config.mshrs}

/-- An allocated MSHR has as many targets as it may have, and got there by
coalescing: the first target is the packet it was allocated for. -/
def saturated (cache : Cache config) (index : Fin config.mshrs) : Bool :=
  cache.mshrQueue.allocatedList.contains index &&
    decide (config.tgtsPerMshr ≤ (cache.mshrQueue.entries index).getNumTargets) &&
    decide (2 ≤ (cache.mshrQueue.entries index).getNumTargets)

/-- The two causes say what they stand for. -/
def causesMirror (cache : Cache config) : Bool :=
  cache.blocked.noMSHRs == cache.mshrQueue.isFull &&
    cache.blocked.noTargets == cache.mshrQueue.allocatedList.any cache.saturated

theorem saturated_eq_true : cache.saturated index = true ↔
    index ∈ cache.mshrQueue.allocatedList ∧
      config.tgtsPerMshr ≤ (cache.mshrQueue.entries index).getNumTargets ∧
      2 ≤ (cache.mshrQueue.entries index).getNumTargets := by
  simp [saturated, and_assoc]

section Saturation

theorem saturated_same (h : after.mshrQueue = before.mshrQueue) :
    after.saturated = before.saturated := by
  funext index
  rw [saturated, saturated, h]

/-- A change to one MSHR concerns no other. -/
theorem saturated_update {mshr : Mshr}
    (hentries : after.mshrQueue.entries = Function.update before.mshrQueue.entries index mshr)
    (hlist : ∀ other, other ≠ index →
      (other ∈ after.mshrQueue.allocatedList ↔ other ∈ before.mshrQueue.allocatedList)) :
    after.saturated = Function.update before.saturated index (after.saturated index) := by
  rw [Function.eq_update_iff]
  refine ⟨rfl, ?_⟩
  intro other hne
  rw [Bool.eq_iff_iff, saturated_eq_true, saturated_eq_true, hlist other hne, hentries,
    Function.update_of_ne hne]

/-- An edit that keeps the number of targets. -/
theorem saturated_edited {mshr : Mshr}
    (hentries : after.mshrQueue.entries = Function.update before.mshrQueue.entries index mshr)
    (hlist : after.mshrQueue.allocatedList = before.mshrQueue.allocatedList)
    (hcount : mshr.getNumTargets = (before.mshrQueue.entries index).getNumTargets) :
    after.saturated = before.saturated := by
  rw [saturated_update hentries fun other _ => by rw [hlist]]
  have hself : after.saturated index = before.saturated index := by
    rw [saturated, saturated, hlist, hentries, Function.update_self, hcount]
  rw [hself, Function.update_eq_self]

theorem saturated_serving {mshr : Mshr} {answers : List Packet}
    (h : Serving before after index mshr answers)
    (hcount : mshr.getNumTargets = (before.mshrQueue.entries index).getNumTargets) :
    after.saturated = before.saturated := by
  have hedited := MshrQueue.setEntry_edited before.mshrQueue index mshr
  rw [← h.mshrQueue] at hedited
  exact saturated_edited hedited.entries hedited.allocatedList hcount

theorem saturated_marked {pendingModified : Bool}
    (h : before.mshrQueue.markInService index pendingModified = .ok after.mshrQueue) :
    after.saturated = before.saturated := by
  obtain ⟨mshr, hmshr, hedited, -, -⟩ := MshrQueue.markInService_spec h
  have hcount : mshr.getNumTargets = (before.mshrQueue.entries index).getNumTargets := by
    rw [Mshr.getNumTargets_eq_length, Mshr.getNumTargets_eq_length,
      (Mshr.markInService_spec hmshr).waiting]
  exact saturated_edited hedited.entries hedited.allocatedList hcount

/-- A new MSHR has a single target, so it is not saturated. -/
theorem saturated_missed {mshr : Mshr} {blkAddr : Addr} {blkSize order : Nat} {time : Tick}
    {onFill : Bool} (hsound : Sound before) (h : Missed before after index mshr)
    (hallocate : (before.mshrQueue.entries index).allocate blkAddr blkSize pkt time order onFill =
      .ok mshr) : after.saturated = before.saturated := by
  have hallocated := h.allocated
  have hlist : ∀ other, other ≠ index →
      (other ∈ after.mshrQueue.allocatedList ↔ other ∈ before.mshrQueue.allocatedList) := by
    intro other hne
    rw [hallocated.allocatedList]
    simp [hne]
  rw [saturated_update hallocated.entries hlist]
  obtain ⟨-, -, hwaiting⟩ := (Mshr.allocate_spec hallocate).lists hallocated.empty
  have hafter : after.saturated index = false := by
    rw [Bool.eq_false_iff, Ne, saturated_eq_true]
    rintro ⟨-, -, htwo⟩
    rw [hallocated.entries, Function.update_self, Mshr.getNumTargets_eq_length, hwaiting,
      List.length_singleton] at htwo
    exact absurd htwo (by decide)
  have hbefore : before.saturated index = false := by
    rw [Bool.eq_false_iff, Ne, saturated_eq_true]
    rintro ⟨hmem, -⟩
    refine hsound.represents.partition.disjoint index ?_ hmem
    rw [hallocated.freeList]
    exact List.mem_cons_self
  rw [hafter, ← hbefore, Function.update_eq_self]

theorem saturated_responded {answers : List Packet} (hsound : Sound before)
    (h : Responded before after index answers) :
    after.saturated = Function.update before.saturated index false := by
  obtain ⟨free, hreleased, -, -⟩ := h.released
  have hnodup := hsound.represents.partition.used_nodup
  have hlist : ∀ other, other ≠ index →
      (other ∈ after.mshrQueue.allocatedList ↔ other ∈ before.mshrQueue.allocatedList) := by
    intro other hne
    rw [hreleased.allocatedList, List.mem_erase_of_ne hne]
  rw [saturated_update hreleased.entries hlist]
  have hgone : after.saturated index = false := by
    rw [Bool.eq_false_iff, Ne, saturated_eq_true, hreleased.allocatedList]
    rintro ⟨hmem, -⟩
    exact hnodup.not_mem_erase hmem
  rw [hgone]

end Saturation

/-- The cache remembers the marks: the saturated MSHRs are marked, the pointer names
the one remembered, and the bit is set when there is one. -/
structure Remembers (cache : Cache config) (state : LastMark (Fin config.mshrs)) : Prop where
  marked : cache.saturated = state.marked
  last : cache.noTargetMSHR = state.last
  noTargets : cache.blocked.noTargets = state.last.isSome

section Remembering

variable {state : LastMark (Fin config.mshrs)}

theorem remembers_new (config : CacheConfig) (writeAllocator : Option WriteAllocator) :
    Remembers (Cache.new config writeAllocator) (LastMark.unmarked (Fin config.mshrs)) :=
  ⟨rfl, rfl, rfl⟩

theorem Remembers.steady (h : Remembers before state) (hsteady : Steady before after)
    (hsame : after.saturated = before.saturated) : Remembers after state :=
  ⟨hsame.trans h.marked, hsteady.noTargetMSHR.trans h.last, hsteady.noTargets.trans h.noTargets⟩

theorem Remembers.touched (h : Remembers before state) (hsteady : Steady before after)
    (htouched : Touched before after) : Remembers after state :=
  h.steady hsteady (saturated_same htouched.mshrQueue)

theorem causesMirror_iff (hsound : Sound cache) (h : Remembers cache state) :
    cache.causesMirror = true ↔ state.Exact := by
  have hany : cache.mshrQueue.allocatedList.any cache.saturated = true ↔
      ∃ index, state.marked index = true := by
    rw [List.any_eq_true, ← h.marked]
    constructor
    · rintro ⟨index, -, hsaturated⟩
      exact ⟨index, hsaturated⟩
    · rintro ⟨index, hsaturated⟩
      exact ⟨index, (saturated_eq_true.mp hsaturated).1, hsaturated⟩
  rw [LastMark.Exact, ← hany, ← h.noTargets, ← Bool.eq_iff_iff]
  simp [causesMirror, hsound.noMSHRs]

/-- A coalesced packet is one target more, and the MSHR that is full by it is
remembered. -/
theorem coalesce_joined (h : cache.coalesce pkt index = .ok next) :
    (next.mshrQueue = cache.mshrQueue ∧ Steady cache next) ∨
    ∃ mshr, (cache.mshrQueue.entries index).getNumTargets + 1 = mshr.getNumTargets ∧
      2 ≤ mshr.getNumTargets ∧ next.mshrQueue = cache.mshrQueue.setEntry index mshr ∧
      ((config.tgtsPerMshr ≤ mshr.getNumTargets ∧ next.blocked.noTargets = true ∧
          next.noTargetMSHR = some index) ∨
        (¬ config.tgtsPerMshr ≤ mshr.getNumTargets ∧ Steady cache next)) := by
  simp only [coalesce, bind_eq_ok, check_eq_ok, exists_const] at h
  obtain ⟨-, h⟩ := h
  split at h
  · rw [pure_eq_ok] at h
    subst h
    exact .inl ⟨rfl, rfl, rfl⟩
  · split at h
    · exact absurd h (allocateWriteBuffer_fails cache next pkt curTick)
    · simp only [bind_eq_ok, pure_eq_ok] at h
      obtain ⟨mshr, hallocate, hnext⟩ := h
      obtain ⟨hheld, -, -, -, target, -, -, hwaiting, -⟩ := Mshr.allocateTarget_joined hallocate
      have hcount : (cache.mshrQueue.entries index).getNumTargets + 1 = mshr.getNumTargets := by
        rw [Mshr.getNumTargets_eq_length, Mshr.getNumTargets_eq_length, hwaiting,
          List.length_append, List.length_singleton]
      have hpos : 1 ≤ (cache.mshrQueue.entries index).getNumTargets := by
        have hlength := List.length_pos_of_ne_nil hheld
        rw [Mshr.getNumTargets]
        omega
      refine .inr ⟨mshr, hcount, by omega, ?_⟩
      subst hnext
      split
      · rename_i hfull
        exact ⟨rfl, .inl ⟨hfull, rfl, rfl⟩⟩
      · rename_i hroom
        exact ⟨rfl, .inr ⟨hroom, rfl, rfl⟩⟩

theorem Remembers.coalesce (h : Remembers cache state)
    (hmem : index ∈ cache.mshrQueue.allocatedList) (hcoalesce : cache.coalesce pkt index = .ok next) :
    ∃ state', Remembers next state' ∧ state.MayMark state' := by
  obtain ⟨hqueue, hsteady⟩ | ⟨mshr, hcount, htwo, hqueue, hpointer⟩ := coalesce_joined hcoalesce
  · exact ⟨state, h.steady hsteady (saturated_same hqueue), .inl rfl⟩
  · have hedited := MshrQueue.setEntry_edited cache.mshrQueue index mshr
    rw [← hqueue] at hedited
    have hupdate : next.saturated = Function.update cache.saturated index (next.saturated index) :=
      saturated_update hedited.entries fun other _ => by rw [hedited.allocatedList]
    have hself : next.saturated index = true ↔ config.tgtsPerMshr ≤ mshr.getNumTargets := by
      rw [saturated_eq_true, hedited.allocatedList, hedited.entries, Function.update_self]
      exact ⟨fun hall => hall.2.1, fun hfull => ⟨hmem, hfull, htwo⟩⟩
    obtain ⟨hfull, hbit, hlast⟩ | ⟨hroom, hsteady⟩ := hpointer
    · refine ⟨state.mark index, ⟨?_, hlast, hbit⟩, .inr ⟨index, rfl⟩⟩
      rw [hupdate, hself.mpr hfull, h.marked]
      rfl
    · have hafter : next.saturated index = false := by
        rw [Bool.eq_false_iff, Ne, hself]
        exact hroom
      have hbefore : cache.saturated index = false := by
        rw [Bool.eq_false_iff, Ne, saturated_eq_true]
        rintro ⟨-, hfull, -⟩
        exact hroom (by omega)
      have hsame : next.saturated = cache.saturated := by
        rw [hupdate, hafter, ← hbefore, Function.update_eq_self]
      exact ⟨state, h.steady hsteady hsame, .inl rfl⟩

theorem Remembers.lockLine (hsound : Sound cache) (h : Remembers cache state)
    (hlock : cache.lockLine pkt blk = .ok next) : Remembers next state := by
  have hsteady := (lockLine_still hlock).toSteady
  obtain ⟨fresh, missed, marked, locking, index, mshr, mshrQueue, hfresh, hallocate, hmissed, -,
    hmark, rfl, htouched⟩ := lockLine_cases hlock
  have hmarked : ({ missed with mshrQueue } : Cache config).saturated = missed.saturated :=
    saturated_marked hmark
  have hmiss := saturated_missed (hsound.touched hfresh.toTouched) hmissed hallocate
  refine h.steady hsteady ?_
  calc next.saturated
      = missed.saturated := (saturated_same htouched.mshrQueue).trans hmarked
    _ = fresh.saturated := hmiss
    _ = cache.saturated := saturated_same hfresh.mshrQueue

theorem Remembers.handleTimingReqHit (hsound : Sound cache) (h : Remembers cache state)
    (hhit : cache.handleTimingReqHit pkt blk random = .ok next) : Remembers next state := by
  have hsteady := (handleTimingReqHit_still hhit).toSteady
  obtain ⟨locked, hfinished, ⟨-, rfl⟩ | ⟨-, -, hlock⟩⟩ := handleTimingReqHit_cases hhit
  · exact h.steady hsteady (saturated_same hfinished.kept.mshrQueue)
  · have hlocked := h.lockLine hsound hlock
    have hqueue : next.mshrQueue = locked.mshrQueue := hfinished.kept.mshrQueue
    refine h.steady hsteady ?_
    rw [saturated_same hqueue, hlocked.marked, h.marked]

theorem Remembers.handleTimingReqMiss (hsound : Sound cache) (h : Remembers cache state)
    (hmiss : cache.handleTimingReqMiss pkt blk = .ok next) :
    ∃ state', Remembers next state' ∧ state.MayMark state' := by
  simp only [Cache.handleTimingReqMiss, bind_eq_ok, check_eq_ok, exists_const] at hmiss
  obtain ⟨found, hfound, -, hmiss⟩ := hmiss
  have hkept := updateWriteMode_kept cache pkt
  have hupdated := h.touched (updateWriteMode_still cache pkt).toSteady hkept.toTouched
  cases found with
  | some index =>
      have hmem := (findMatch_eq_some hfound).1
      rw [← hkept.mshrQueue] at hmem
      exact hupdated.coalesce hmem hmiss
  | none =>
      have hsteady := (startMiss_still hmiss).toSteady
      obtain ⟨-, middle, index, mshr, htouched, -, hallocate, hmissed, -⟩ := startMiss_cases hmiss
      have hmiddle := (hsound.touched hkept.toTouched).touched htouched
      have hsame := (saturated_missed hmiddle hmissed hallocate).trans
        (saturated_same htouched.mshrQueue)
      exact ⟨state, hupdated.steady hsteady hsame, .inl rfl⟩

/-- A request marks at most the MSHR it joins. -/
theorem Remembers.recvTimingReq (hsound : Sound cache) (h : Remembers cache state)
    (hreq : cache.recvTimingReq pkt random = .ok next) :
    ∃ state', Remembers next state' ∧ state.MayMark state' := by
  simp only [Cache.recvTimingReq, bind_eq_ok, check_eq_ok, exists_const, pure_eq_ok] at hreq
  obtain ⟨-, -, reopened, hreopen, accessed, haccess, handled, hhandled, rfl⟩ := hreq
  have hkept := reopenLine_kept hreopen
  have hempty : reopened.writeBuffer.allocatedList = [] := by
    rw [hkept.writeBuffer, hsound.writeBuffer.1]
  have htouched := hkept.toTouched.trans (access_touched hempty haccess)
  have hstill := (reopenLine_still hreopen).trans (access_still hempty haccess)
  have hhandled : ∃ state', Remembers handled state' ∧ state.MayMark state' := by
    split at hhandled
    · have hcleared := clearPrefetched_kept accessed.cache accessed.blk
      have hsteady := hstill.trans (clearPrefetched_still accessed.cache accessed.blk)
      have hready := htouched.trans hcleared.toTouched
      exact ⟨state, (h.touched hsteady.toSteady hready).handleTimingReqHit (hsound.touched hready)
        hhandled, .inl rfl⟩
    · exact (h.touched hstill.toSteady htouched).handleTimingReqMiss (hsound.touched htouched)
        hhandled
  obtain ⟨state', hremembers, hmay⟩ := hhandled
  refine ⟨state', ?_, hmay⟩
  split
  · exact hremembers.steady ⟨rfl, rfl⟩ (saturated_same rfl)
  · exact hremembers

theorem Remembers.getNextQueueEntry {prefetch : Option Packet} {entry : Option (EntryRef config)}
    (hsound : Sound cache) (h : Remembers cache state)
    (hnext : cache.getNextQueueEntry prefetch = .ok (entry, next)) : Remembers next state := by
  have hsteady := (getNextQueueEntry_still hsound.writeBuffer.2 hnext).toSteady
  obtain ⟨rfl, -⟩ | ⟨pkt, index, mshr, -, -, -, -, -, hallocate, hmissed⟩ :=
    getNextQueueEntry_cases hsound.writeBuffer.2 hnext
  · exact h
  · exact h.steady hsteady (saturated_missed hsound hmissed hallocate)

/-- The MSHR that a response is for.  Responses that are also writes are not
looked at. -/
def servedMSHR (config : CacheConfig) (pkt : Packet) : Option (Fin config.mshrs) :=
  if pkt.cmd.isWrite then none else (popMSHR pkt).toOption

/-- A response frees the MSHR it is for, which it unblocks first. -/
theorem recvTimingResp_served (h : cache.recvTimingResp pkt random = .ok next) :
    (servedMSHR config pkt = none ∧ next = cache) ∨
    ∃ index filled answers, servedMSHR config pkt = some index ∧ Touched cache filled ∧
      Responded filled next index answers ∧ Steady (cache.unblockTargets index) next := by
  obtain ⟨-, -, -, hbase⟩ := recvTimingResp_base h
  obtain ⟨hwrite, rfl⟩ | ⟨hplain, index, blk, filled, writebacks, hpop, hfill, hstill⟩ :=
    recvTimingResp_parts h
  · exact .inl ⟨if_pos hwrite, rfl⟩
  · obtain ⟨hwrite, -⟩ | ⟨index', blk', filled', writebacks', mshr, ready, left, answers, hpop', -,
      hfill', -, -, -, -, hresponded⟩ := recvTimingRespBase_cases hbase
    · rw [hplain] at hwrite
      cases hwrite
    · rw [hpop, Except.ok.injEq] at hpop'
      subst hpop'
      have htouched := (unblockTargets_kept cache index).toTouched.trans
        (fillFromResponse_touched hfill')
      have hserved : servedMSHR config pkt = some index := by
        simp [servedMSHR, hplain, hpop, Except.toOption]
      exact .inr ⟨index, filled', answers, hserved, htouched, hresponded,
        (fillFromResponse_steady hfill).trans hstill.toSteady⟩

/-- A response takes the mark off its MSHR. -/
theorem Remembers.recvTimingResp (hsound : Sound cache) (h : Remembers cache state)
    (hresp : cache.recvTimingResp pkt random = .ok next) :
    Remembers next ((servedMSHR config pkt).elim state state.clear) := by
  obtain ⟨hserved, rfl⟩ | ⟨index, filled, answers, hserved, htouched, hresponded, hsteady⟩ :=
    recvTimingResp_served hresp
  · rw [hserved]
    exact h
  · rw [hserved, Option.elim_some]
    have hsaturated := saturated_responded (hsound.touched htouched) hresponded
    rw [saturated_same htouched.mshrQueue, h.marked] at hsaturated
    have hlast : next.noTargetMSHR = if state.last = some index then none else state.last := by
      rw [hsteady.noTargetMSHR, ← h.last]
      unfold unblockTargets
      split <;> rfl
    have hbit : next.blocked.noTargets =
        (if state.last = some index then none else state.last).isSome := by
      rw [hsteady.noTargets, ← h.last]
      unfold unblockTargets
      split
      · rfl
      · rw [h.noTargets, h.last]
    exact ⟨hsaturated, hlast, hbit⟩

end Remembering

end KuiperCache.Cache

namespace KuiperCache.System

open Checked Cache

variable {config : CacheConfig} {system next : System config} {label : Label config}
  {state : LastMark (Fin config.mshrs)}

/-- The MSHR that the response delivered by a call is for. -/
def respondedMSHR (system : System config) (label : Label config) : Option (Fin config.mshrs) :=
  (system.delivered label).bind fun delivery => servedMSHR config delivery.pkt

/-- Up to the point where its response is received, a call saturates no MSHR. -/
theorem delivered_ready {delivery : Delivery config} (hsound : system.cache.Sound)
    (hdelivered : system.delivered label = some delivery) :
    delivery.cache.Sound ∧ delivery.cache.saturated = system.cache.saturated := by
  have hptr : ∀ cache : Cache config, cache.Sound →
      cache.newPtr.2.Sound ∧ cache.newPtr.2.saturated = cache.saturated :=
    fun cache hcache => ⟨hcache.touched (newPtr_kept cache).toTouched, saturated_same rfl⟩
  cases label with
  | recvTimingReq pkt random => cases hdelivered
  | getNextQueueEntry prefetch => cases hdelivered
  | handleTimingRes pkt random =>
      cases hdelivered
      exact hptr system.cache hsound
  | recvTimingResp pkt random =>
      cases hdelivered
      exact ⟨hsound, rfl⟩
  | sendMSHRQueuePacket index reply random =>
      cases reply with
      | none => cases hdelivered
      | some data =>
          simp only [delivered] at hdelivered
          split at hdelivered
          · rename_i sent issued hissue
            cases hdelivered
            obtain ⟨target, ptr, htarget, -, hserving⟩ := issueMSHR_serving hissue
            obtain ⟨rest, hcons⟩ := Mshr.getTarget_eq_ok.mp htarget
            have hheld : (system.cache.mshrQueue.entries index).targets.list ≠ [] := by simp [hcons]
            have hmem := hsound.mem_allocatedList hheld
            obtain ⟨hready, hsame⟩ := hptr issued (hsound.serving hmem hserving rfl rfl)
            exact ⟨hready, hsame.trans (saturated_serving hserving rfl)⟩
          · cases hdelivered

/-- A call that delivers a response takes the mark off the MSHR it is for. -/
theorem step_responded {delivery : Delivery config} (hsound : system.cache.Sound)
    (h : Remembers system.cache state) (hdelivered : system.delivered label = some delivery)
    (hstep : system.step label = .ok next) :
    Remembers next.cache ((system.respondedMSHR label).elim state state.clear) := by
  obtain ⟨hstill, hresp⟩ := step_delivered hdelivered hstep
  obtain ⟨hready, hsame⟩ := delivered_ready hsound hdelivered
  rw [respondedMSHR, hdelivered, Option.bind_some]
  exact (h.steady hstill.toSteady hsame).recvTimingResp hready hresp

/-- Any other call marks at most one MSHR. -/
theorem step_unanswered (hsound : system.cache.Sound) (h : Remembers system.cache state)
    (hdelivered : system.delivered label = none) (hstep : system.step label = .ok next) :
    ∃ state', Remembers next.cache state' ∧ state.MayMark state' := by
  have hptr : Remembers system.cache.newPtr.2 state := h.steady ⟨rfl, rfl⟩ (saturated_same rfl)
  have hfresh : system.cache.newPtr.2.Sound := hsound.touched (newPtr_kept _).toTouched
  cases label with
  | recvTimingReq pkt random =>
      obtain ⟨cache, hreq, rfl⟩ := step_recvTimingReq hstep
      exact hptr.recvTimingReq hfresh hreq
  | getNextQueueEntry prefetch =>
      obtain ⟨entry, cache, hnext, rfl⟩ := step_getNextQueueEntry hstep
      exact ⟨state, hptr.getNextQueueEntry hfresh hnext, .inl rfl⟩
  | handleTimingRes pkt random => cases hdelivered
  | recvTimingResp pkt random => cases hdelivered
  | sendMSHRQueuePacket index reply random =>
      obtain ⟨waiting, cache, flight, hsend, rfl⟩ := step_sendMSHRQueuePacket hstep
      obtain ⟨-, hissue⟩ | ⟨sent, issued, hissue, ⟨data, rfl, -⟩ | ⟨-, -, modified, hmark⟩⟩ :=
        sendMSHRQueuePacket_issued hsend
      · have hkept := h.touched (issueMSHR_still hissue).toSteady (issueMSHR_kept hissue).toTouched
        exact ⟨state, hkept, .inl rfl⟩
      · rw [delivered, hissue] at hdelivered
        cases hdelivered
      · obtain ⟨target, ptr, -, -, hserving⟩ := issueMSHR_serving hissue
        have hissued := h.steady (issueMSHR_still hissue).toSteady (saturated_serving hserving rfl)
        have hmarked : cache.saturated = issued.saturated := by
          obtain ⟨mshrQueue, hqueue, rfl⟩ := markInService_eq_ok hmark
          exact saturated_marked hqueue
        exact ⟨state, hissued.steady (markInService_still hmark).toSteady hmarked, .inl rfl⟩

/-- Both causes mirror the resources. -/
def causesMirror (system : System config) : Bool := system.cache.causesMirror

/-- A response for the MSHR that is remembered leaves no other one saturated. -/
def leavesNoneSaturated (system : System config) (label : Label config) : Bool :=
  (system.respondedMSHR label).all fun index =>
    system.cache.noTargetMSHR != some index ||
      system.cache.mshrQueue.allocatedList.all fun other =>
        other == index || !system.cache.saturated other

theorem leavesNoneSaturated_iff (h : Remembers system.cache state) :
    system.leavesNoneSaturated label = true ↔ ∀ index, system.respondedMSHR label = some index →
      state.last = some index → ∀ other, state.marked other = true → other = index := by
  rw [leavesNoneSaturated, ← h.last, ← h.marked, Option.all_eq_true]
  refine forall_congr' fun index => imp_congr_right fun _ => ?_
  rw [Bool.or_eq_true, bne_iff_ne, Ne, ← imp_iff_not_or, List.all_eq_true]
  refine imp_congr_right fun _ => ?_
  constructor
  · intro hall other hother
    have hsole := hall other (saturated_eq_true.mp hother).1
    simpa [hother] using hsole
  · intro hall other _
    cases hother : system.cache.saturated other with
    | false => simp
    | true => simp [hall other hother]

/-- Every call does to the marks what the response it delivers says: that takes one
off, and without it at most one is set. -/
theorem step_remembers (hsound : system.cache.Sound) (h : Remembers system.cache state)
    (hstep : system.step label = .ok next) : ∃ state', Remembers next.cache state' ∧
      match system.respondedMSHR label with
      | some index => state' = state.clear index
      | none => state.MayMark state' := by
  cases hdelivered : system.delivered label with
  | none =>
      have hnone : system.respondedMSHR label = none := by
        rw [respondedMSHR, hdelivered, Option.bind_none]
      rw [hnone]
      exact step_unanswered hsound h hdelivered hstep
  | some delivery =>
      refine ⟨_, step_responded hsound h hdelivered hstep, ?_⟩
      cases system.respondedMSHR label with
      | none => exact .inl rfl
      | some index => rfl

/-- One call: the causes go on mirroring the resources exactly when no saturated MSHR
is forgotten. -/
theorem step_mirrors_iff (hsound : system.cache.Sound) (h : Remembers system.cache state)
    (hmirror : system.causesMirror = true) (hstep : system.step label = .ok next) :
    next.causesMirror = true ↔ system.leavesNoneSaturated label = true := by
  have hexact : state.Exact := (causesMirror_iff hsound h).mp hmirror
  obtain ⟨state', hremembers, heffect⟩ := step_remembers hsound h hstep
  have hnext := step_sound system label next hsound hstep
  rw [leavesNoneSaturated_iff h, causesMirror, causesMirror_iff hnext hremembers]
  cases hresponded : system.respondedMSHR label with
  | none =>
      rw [hresponded] at heffect
      simp [heffect.exact hexact]
  | some index =>
      rw [hresponded] at heffect
      rw [heffect, LastMark.clear_exact_iff hexact]
      simp

/-- Through a whole run the causes mirror the resources exactly when no response for
the remembered MSHR comes while another one is saturated. -/
theorem blocked_causes_mirror_iff {writeAllocator : Option WriteAllocator}
    {labels : List (Label config)} {final : System config}
    (hrun : Transition.run step (new config writeAllocator) labels = .ok final) :
    Transition.always step causesMirror (new config writeAllocator) labels = true ↔
      Transition.meets step leavesNoneSaturated (new config writeAllocator) labels = true := by
  have hsound := sound_new config writeAllocator
  have hremembers := remembers_new config writeAllocator
  have hpreserved : ∀ (system : System config) label next,
      system.leavesNoneSaturated label = true →
      (system.cache.Sound ∧ ∃ state, Remembers system.cache state) →
      system.step label = .ok next → next.cache.Sound ∧ ∃ state, Remembers next.cache state := by
    rintro system label next - ⟨hsound, state, hstate⟩ hstep
    obtain ⟨state', hstate', -⟩ := step_remembers hsound hstate hstep
    exact ⟨step_sound system label next hsound hstep, state', hstate'⟩
  have hexact : ∀ (system : System config) label next,
      (system.cache.Sound ∧ ∃ state, Remembers system.cache state) →
      system.causesMirror = true → system.step label = .ok next →
      (next.causesMirror = true ↔ system.leavesNoneSaturated label = true) := by
    rintro system label next ⟨hsound, state, hstate⟩ hmirror hstep
    exact step_mirrors_iff hsound hstate hmirror hstep
  exact Transition.always_iff_meets hpreserved hexact hrun
    ⟨hsound, LastMark.unmarked (Fin config.mshrs), hremembers⟩
    ((causesMirror_iff hsound hremembers).mpr (LastMark.unmarked_exact _))

/-- Two reads of a line and its answer. -/
theorem blocked_causes_mirror_iff_joined :
    ∃ final, Transition.run step (new simL0Params none)
        [requestLine .readReq 0x200, requestLine .readReq 0x200, answerLine] = .ok final ∧
      Transition.always step causesMirror (new simL0Params none)
        [requestLine .readReq 0x200, requestLine .readReq 0x200, answerLine] = true := by
  obtain ⟨final, hrun, -⟩ := exists_ok_of_observed
    (show (Transition.run step (new simL0Params none)
      [requestLine .readReq 0x200, requestLine .readReq 0x200, answerLine]).toOption.map
        (fun final => final.cache.responses.length) = some 2 by decide +kernel)
  exact ⟨final, hrun, (blocked_causes_mirror_iff hrun).mpr (by decide +kernel)⟩

/-- Two lines are read twice, the first line last.  Its answer unblocks the cache,
although the MSHR of the other line is saturated. -/
theorem saturated_mshr_forgotten :
    (Transition.run step (new simL0Params none)
      [requestLine .readReq 0x200, requestLine .readReq 0x400, requestLine .readReq 0x400,
        requestLine .readReq 0x200, answerLine]).toOption.map (fun final =>
          (final.cache.blocked.noTargets,
            final.cache.mshrQueue.allocatedList.any final.cache.saturated)) = some (false, true) ∧
    Transition.always step causesMirror (new simL0Params none)
      [requestLine .readReq 0x200, requestLine .readReq 0x400, requestLine .readReq 0x400,
        requestLine .readReq 0x200, answerLine] = false := by
  constructor
  · decide +kernel
  · decide +kernel

end KuiperCache.System
