import KuiperCache.Memory.Downstream
import KuiperCache.Top.Ports

/-! The L0 cache waits for a retry after the first line it has sent, and nobody ever
makes one.  So it serves one line, whatever is asked of it, and stops with the next. -/
namespace KuiperCache.OneLine

open Checked Cache Conservation MissTracking Shortage Ports

variable {config : CacheConfig}

/-- An orderly read or write that no owner has answered. -/
def servable (config : CacheConfig) (pkt : Packet) : Bool :=
  pkt.cmd.isPlain && !pkt.cacheResponding && orderly config pkt

def servableEvent : L0.Event config → Bool
  | .port pkt _ => servable config pkt
  | .kernel .. => true

/-- What a turn of the thread of the request queue lacks. -/
def kernelShortage (l0 : L0 config) : Option Assertion :=
  if l0.thread != .runnable then none
  else if l0.waitingOnRetry then some .waitingOnRetry
  else l0.cache.mshrQueue.readyList.head?.bind fun index =>
    lineShortage l0.cache.tags (l0.cache.mshrQueue.entries index).blkAddr

def shortage (l0 : L0 config) : L0.Event config → Option Assertion
  | .port pkt _ => requestShortage l0.cache pkt
  | .kernel .. => kernelShortage l0

/-- The line the L0 has served, if it has sent one: no other line is cached, and no
request for another line was answered. -/
structure Serves (l0 : L0 config) (line : Option (Addr × Bool)) : Prop where
  ready : Ready l0.cache
  writeAllocator : l0.cache.writeAllocator = none
  waiting : l0.waitingOnRetry = line.isSome
  cached : ∀ addr secure, (l0.cache.findBlock addr secure).isSome = true ↔
    line = some (config.geometry.lineAddr addr, secure)
  answered : ∀ resp ∈ l0.cache.responses,
    line = some (config.geometry.lineAddr resp.addr, resp.isSecure)

theorem findBlock_isSome_kept {before after : Cache config}
    (hlines : ∀ set way, CacheBlk.LineKept (before.tags.blks set way) (after.tags.blks set way))
    (addr : Addr) (secure : Bool) :
    (after.findBlock addr secure).isSome = (before.findBlock addr secure).isSome := by
  rw [Cache.findBlock, Cache.findBlock, Tags.findBlock_kept hlines]

/-- A request is answered at once exactly when its line is the one that was served. -/
theorem Serves.reqMonitor {l0 next : L0 config} {line : Option (Addr × Bool)}
    (h : Serves l0 line) {pkt : Packet} (hpkt : servable config pkt = true)
    {random : Fin config.geometry.assoc} (hreq : l0.reqMonitor pkt random = .ok next) :
    Serves next line := by
  simp only [servable, Bool.and_eq_true] at hpkt
  obtain ⟨⟨hplain, -⟩, horderly⟩ := hpkt
  simp only [L0.reqMonitor, bind_eq_ok, pure_eq_ok] at hreq
  obtain ⟨cache, hreq, rfl⟩ := hreq
  have hfresh := h.ready.kept (newPtr_kept l0.cache)
  have hpkt : orderly config { pkt with ptr := l0.cache.nextPtr } = true := horderly
  have hplain : ({ pkt with ptr := l0.cache.nextPtr } : Packet).cmd.isPlain = true := hplain
  have hready := hfresh.recvTimingReq_next hplain hpkt hreq
  have hlines := hfresh.recvTimingReq_lines hplain hreq
  have hnone := (recvTimingReq_announced hfresh.sound hreq).writeAllocator h.writeAllocator
  refine ⟨hready, hnone, h.waiting, ?_, ?_⟩
  · intro addr secure
    rw [findBlock_isSome_kept hlines]
    exact h.cached addr secure
  · intro resp hresp
    obtain ⟨seen, handled, hkept, rfl, houtcome⟩ := recvTimingReq_plain hfresh.sound hplain hreq
    have hresponses : resp ∈ handled.responses := by
      split at hresp
      · exact hresp
      · exact hresp
    have hseen : seen.responses = l0.cache.responses := hkept.responses
    obtain ⟨hpermits, hfinished⟩ | ⟨-, hmiss⟩ := houtcome
    · rw [hfinished.responses, (isPlain_attributes hplain).2.2.2.2.2.2.1, if_pos rfl, hseen,
        List.mem_append, List.mem_singleton] at hresponses
      obtain hold | rfl := hresponses
      · exact h.answered resp hold
      · apply (h.cached pkt.addr pkt.isSecure).mp
        cases hfind : l0.cache.findBlock pkt.addr pkt.isSecure with
        | some ref => rfl
        | none =>
            have hfind' : l0.cache.newPtr.2.findBlock pkt.addr pkt.isSecure = none := hfind
            simp [hfind', Cache.permits] at hpermits
    · rw [Uncacheable.handleTimingReqMiss_responses hmiss, hseen] at hresponses
      exact h.answered resp hresponses

/-- What is answered when a line comes in are the targets that waited for it. -/
theorem sendMSHRQueuePacket_responses {cache next : Cache config} {accepted : List Packet}
    (hsound : Sound cache) (h : Conserved accepted [] cache) (hnone : cache.writeAllocator = none)
    {index : Fin config.mshrs} {data : List UInt8} {random : Fin config.geometry.assoc}
    {waiting : Bool} {flight : Option Packet}
    (hsend : cache.sendMSHRQueuePacket index (some data) random = .ok (waiting, next, flight)) :
    ∀ resp ∈ next.responses, resp ∈ cache.responses ∨
      ∃ target ∈ (cache.mshrQueue.entries index).waiting, target.pkt.Answered resp := by
  obtain ⟨target, htarget, ⟨hdelayed, -, -⟩ | ⟨issued, ptr, hserving, -, hres⟩⟩ :=
    Cache.sendMSHRQueuePacket_cases hsend
  · exact absurd hnone hdelayed
  · obtain ⟨rest, hcons⟩ := Mshr.getTarget_eq_ok.mp htarget
    have hmem : index ∈ cache.mshrQueue.allocatedList := hsound.mem_allocatedList (by simp [hcons])
    obtain ⟨fresh, answer, hfresh, hanswer, -, -, hcmd, hpop⟩ := missPacket_answered hres
    obtain ⟨-, -, -, hbase⟩ := recvTimingResp_base hanswer
    have hqueue : fresh.mshrQueue.entries index =
        { cache.mshrQueue.entries index with isForward := false } := by
      rw [hfresh.mshrQueue, hserving.mshrQueue, MshrQueue.setEntry_entries_self]
    have hresponses : fresh.responses = cache.responses := by
      rw [hfresh.responses, hserving.responses, List.append_nil]
    obtain ⟨hwrite, -⟩ | ⟨index', blk, filled, writebacks, mshr, ready, left, answers, hpop', -,
      hfill, hrearranged, hextract, hleft, hanswers, hresponded⟩ := recvTimingRespBase_cases hbase
    · rw [hcmd] at hwrite
      cases hwrite
    · rw [hpop] at hpop'
      obtain rfl := Except.ok.inj hpop'
      have hwaiting : (fresh.mshrQueue.entries index).waiting =
          (cache.mshrQueue.entries index).waiting := by
        rw [hqueue]
        rfl
      have haccounted := h.accounted index hmem
      rw [← hwaiting] at haccounted
      have hserved := drained_waiting haccounted hrearranged hextract hleft
      have hfilled : filled.responses = cache.responses := by
        rw [(fillFromResponse_touched hfill).responses, (unblockTargets_kept fresh index).responses,
          hresponses]
      intro resp hresp
      rw [hresponded.responses, hfilled, List.mem_append] at hresp
      obtain hold | hnew := hresp
      · exact .inl hold
      · obtain ⟨pkt, hpkt, hanswered⟩ := exists_answered hanswers resp hnew
        simp only [cpuPackets, List.mem_map, List.mem_filter] at hpkt
        obtain ⟨served, ⟨hready, -⟩, rfl⟩ := hpkt
        refine .inr ⟨served.unmarked, ?_, hanswered⟩
        rw [← hwaiting, ← hserved]
        exact List.mem_map_of_mem hready

/-- The first entry that is sent brings the line in; its answer is taken for a refusal. -/
theorem Serves.sent {l0 : L0 config} (h : Serves l0 none) {accepted : List Packet}
    (hconserved : Conserved accepted [] l0.cache) {index : Fin config.mshrs}
    {data : List UInt8} {random : Fin config.geometry.assoc} {waiting : Bool}
    {sent : Cache config} {flight : Option Packet}
    (hsend : l0.cache.sendMSHRQueuePacket index (some data) random = .ok (waiting, sent, flight))
    (thread : QueueThread) :
    waiting = true ∧ Serves { l0 with cache := sent, thread, waitingOnRetry := true }
      (some ((l0.cache.mshrQueue.entries index).blkAddr,
        (l0.cache.mshrQueue.entries index).isSecure)) := by
  obtain ⟨hwaiting, hnone, -⟩ :=
    sendMSHRQueuePacket_answered h.ready.sound h.writeAllocator hsend
  obtain ⟨hmem, ⟨hallocator, -⟩ | ⟨-, way, free, -, hinvalid, hinstalled⟩⟩ :=
    h.ready.sendMSHRQueuePacket_cases hsend
  · exact absurd h.writeAllocator hallocator
  · have hwaits := h.ready.tracked.waits index hmem
    refine ⟨hwaiting, h.ready.sendMSHRQueuePacket_next hsend, hnone, rfl, ?_, ?_⟩
    · intro addr secure
      have hbefore : ¬ (l0.cache.findBlock addr secure).isSome = true := by
        rw [h.cached addr secure]
        simp
      rw [Cache.findBlock, Option.isSome_map] at hbefore ⊢
      rw [findBlock_installed hinstalled hinvalid, hwaits.aligned]
      simp only [hbefore, Bool.false_eq_true, false_or, Option.some.injEq, Prod.mk.injEq]
      exact and_congr eq_comm eq_comm
    · intro resp hresp
      obtain hold | ⟨target, htarget, hanswered⟩ :=
        sendMSHRQueuePacket_responses h.ready.sound hconserved h.writeAllocator hsend resp hresp
      · cases h.answered resp hold
      · obtain ⟨-, hline, hsecure⟩ := hwaits.line target htarget
        rw [hanswered.same, ← hline, ← hsecure]

/-- A turn of the queue sends the first entry if nothing was sent before, and fails if
something was. -/
theorem Serves.pktQueueProcess {l0 next : L0 config} {line : Option (Addr × Bool)}
    (h : Serves l0 line) {accepted : List Packet} (hconserved : Conserved accepted [] l0.cache)
    {data : List UInt8} {random : Fin config.geometry.assoc}
    (hrun : l0.pktQueueProcess data random = .ok next) : ∃ line', Serves next line' := by
  unfold L0.pktQueueProcess at hrun
  cases hthread : l0.thread with
  | unstarted =>
      simp only [hthread, Except.ok.injEq] at hrun
      subst hrun
      exact ⟨line, h.ready, h.writeAllocator, h.waiting, h.cached, h.answered⟩
  | suspended =>
      simp only [hthread, Except.ok.injEq] at hrun
      subst hrun
      exact ⟨line, h⟩
  | runnable =>
      simp only [hthread, L0.processSendEvent, L0.sendDeferredPacket, bind_eq_ok, check_eq_ok,
        exists_const, pure_eq_ok, Bool.not_eq_true'] at hrun
      obtain ⟨woken, ⟨-, hidle, ⟨entry, chosen⟩, hentry, ⟨waiting, sent⟩, hsent, rfl⟩, rfl⟩ := hrun
      have hline : line = none := by
        rw [h.waiting, Option.isSome_eq_false_iff, Option.isNone_iff_eq_none] at hidle
        exact hidle
      subst hline
      obtain ⟨rfl, hchosen⟩ | ⟨pkt, index, mshr, hprefetch, -⟩ :=
        getNextQueueEntry_cases h.ready.sound.writeBuffer.2 hentry
      · cases hnext : l0.cache.mshrQueue.getNext curTick with
        | none =>
            rw [hnext] at hchosen
            subst hchosen
            simp only [Option.map_none, Except.ok.injEq, Prod.mk.injEq] at hsent
            obtain ⟨rfl, rfl⟩ := hsent
            rw [hidle, if_neg Bool.false_ne_true]
            have hready := h.ready
            exact ⟨none, ⟨hready.sound.schedMemSideSendEvent,
              hready.tracked.schedMemSideSendEvent, hready.prompt, hready.blank⟩,
              h.writeAllocator, rfl, h.cached, h.answered⟩
        | some index =>
            rw [hnext] at hchosen
            subst hchosen
            simp only [Option.map_some, L0.sendPacket, bind_eq_ok, pure_eq_ok,
              Prod.mk.injEq] at hsent
            obtain ⟨⟨waiting', cache, flight⟩, hsend, rfl, rfl⟩ := hsent
            obtain ⟨rfl, hserves⟩ := h.sent hconserved hsend .suspended
            exact ⟨_, hserves⟩
      · cases hprefetch

/-- A step of the L0 fails with what is short, and only with that. -/
theorem Serves.failure {l0 : L0 config} {line : Option (Addr × Bool)} (h : Serves l0 line)
    {event : L0.Event config} (hevent : servableEvent event = true) :
    failure (l0.step event) = shortage l0 event := by
  cases event with
  | port pkt random =>
      simp only [servableEvent, servable, Bool.and_eq_true, Bool.not_eq_true'] at hevent
      have hfresh := h.ready.kept (newPtr_kept l0.cache)
      have hpkt : orderly config { pkt with ptr := l0.cache.nextPtr } = true := hevent.2
      have hplain : ({ pkt with ptr := l0.cache.nextPtr } : Packet).cmd.isPlain = true :=
        hevent.1.1
      have hreq := hfresh.recvTimingReq hplain hevent.1.2 (orderly_eq hpkt).2 random
      exact (failure_bind_pure _ _).trans hreq
  | kernel data random =>
      simp only [L0.step, shortage, kernelShortage, L0.pktQueueProcess]
      cases hthread : l0.thread with
      | unstarted => rfl
      | suspended => rfl
      | runnable =>
          have hnone : ∀ pkt, (none : Option Packet) = some pkt →
              pkt.cmd = .hardPFReq ∧ orderly config pkt = true := by
            intro pkt hpkt
            cases hpkt
          obtain ⟨⟨entry, chosen⟩, hentry⟩ := h.ready.getNextQueueEntry hnone
          dsimp only
          rw [failure_bind_pure]
          cases hwaiting : l0.waitingOnRetry with
          | true =>
              rw [L0.processSendEvent, hwaiting]
              rfl
          | false =>
              simp only [L0.processSendEvent, L0.sendDeferredPacket, hwaiting, hentry, ok_bind,
                Bool.not_false, check_true, bne_self_eq_false, Bool.false_eq_true, ↓reduceIte]
              rw [failure_bind_pure]
              obtain ⟨rfl, hchosen⟩ | ⟨pkt, index, mshr, hprefetch, -⟩ :=
                getNextQueueEntry_cases h.ready.sound.writeBuffer.2 hentry
              · rw [hchosen, L0.getNext_eq_head h.ready.sound]
                cases hhead : l0.cache.mshrQueue.readyList.head? with
                | none => rfl
                | some index =>
                    have hready : index ∈ l0.cache.mshrQueue.readyList :=
                      List.mem_of_mem_head? hhead
                    have hmem := ((h.ready.sound.represents.ready.mem index).mp hready).1
                    have hsend := h.ready.sendMSHRQueuePacket hmem data random
                    rw [heldBack_of_none h.writeAllocator, if_neg Bool.false_ne_true] at hsend
                    exact (failure_bind_pure _ _).trans hsend
              · cases hprefetch

/-! Runs. -/

/-- Two lines are read, one through each load port, and the first is read again; a store
to a third line wakes the queue. -/
def threeLines : List (Ports.Event simL0Params) :=
  let request addr := Request.physical addr 4 0 0
  let way := simL0Params.geometry.firstWay
  [.kernel [] way,
    .write .load0 (Packet.ofRequest 0 (request 0x200) .readReq),
    .write .load1 (Packet.ofRequest 0 (request 0x600) .readReq),
    .write .load0 (Packet.ofRequest 0 (request 0x204) .readReq),
    .write .store (Packet.ofRequest 0 (request 0xa00) .writeReq),
    .update, .monitor .load0 way, .monitor .load1 way, .kernel (List.replicate 512 0) way,
    .monitor .load0 way, .monitor .store way]

end KuiperCache.OneLine
