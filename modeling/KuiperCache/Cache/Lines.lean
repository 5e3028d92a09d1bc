import KuiperCache.Cache.FlowControl
import KuiperCache.Cache.MissTracking
import KuiperCache.Cache.Moves
import KuiperCache.Cache.RequestQueue
import KuiperCache.Queue.ReadyOrder

/-! The lines of targets that wait in the MSHRs.  Whatever the cache does, entries
leave with their whole line, or one target comes to the end of one line. -/
namespace KuiperCache.Turns

open Checked Cache MissTracking

variable {config : CacheConfig}

/-- The targets of an entry, in the order in which they came in. -/
def targetsOf (cache : Cache config) (index : Fin config.mshrs) : List Target :=
  (cache.mshrQueue.entries index).waiting

/-- Entries may leave; those that stay keep their targets and their places. -/
structure Shrunk (before after : Cache config) : Prop where
  stays : ∀ index ∈ after.mshrQueue.allocatedList, index ∈ before.mshrQueue.allocatedList ∧
    targetsOf after index = targetsOf before index ∧
    (after.mshrQueue.entries index).order = (before.mshrQueue.entries index).order
  ready : after.mshrQueue.readyList.Sublist before.mshrQueue.readyList
  order : before.order ≤ after.order
  reserve : after.mshrQueue.demandReserve = before.mshrQueue.demandReserve

/-- One target came to the end of the line of one entry, which was listed or takes
the last place of both lists. -/
structure Came (before after : Cache config) (index : Fin config.mshrs) (mshr : Mshr)
    (target : Target) : Prop where
  entries : after.mshrQueue.entries = Function.update before.mshrQueue.entries index mshr
  waiting : mshr.waiting = targetsOf before index ++ [target]
  numbered : target.order = before.order
  order : before.order < after.order
  reserve : after.mshrQueue.demandReserve = before.mshrQueue.demandReserve
  place : (index ∈ before.mshrQueue.allocatedList ∧
      after.mshrQueue.allocatedList = before.mshrQueue.allocatedList ∧
      after.mshrQueue.readyList = before.mshrQueue.readyList ∧
      mshr.order = (before.mshrQueue.entries index).order) ∨
    (index ∉ before.mshrQueue.allocatedList ∧ targetsOf before index = [] ∧
      after.mshrQueue.allocatedList = before.mshrQueue.allocatedList ++ [index] ∧
      after.mshrQueue.readyList = before.mshrQueue.readyList ++ [index] ∧
      mshr.order = target.order)

/-- A target that waits now waited before, or it is the one that came. -/
theorem Came.cases {before after : Cache config} {index : Fin config.mshrs} {mshr : Mshr}
    {target : Target} (hcame : Came before after index mshr target) {other : Fin config.mshrs}
    (hother : other ∈ after.mshrQueue.allocatedList) {waiting : Target}
    (hwaiting : waiting ∈ targetsOf after other) :
    (other ∈ before.mshrQueue.allocatedList ∧ waiting ∈ targetsOf before other) ∨
      (other = index ∧ waiting = target) := by
  have hlisted : other ∈ before.mshrQueue.allocatedList ∨
      (other = index ∧ targetsOf before index = []) := by
    obtain ⟨-, hlist, -, -⟩ | ⟨-, hnone, hlist, -, -⟩ := hcame.place
    · exact .inl (hlist ▸ hother)
    · rw [hlist, List.mem_append, List.mem_singleton] at hother
      exact hother.imp_right fun heq => ⟨heq, hnone⟩
  rw [targetsOf, hcame.entries, Function.update_apply] at hwaiting
  split at hwaiting
  · rename_i heq
    rw [hcame.waiting, List.mem_append, List.mem_singleton] at hwaiting
    obtain hold | hnew := hwaiting
    · obtain hlisted | ⟨-, hnone⟩ := hlisted
      · exact .inl ⟨hlisted, heq ▸ hold⟩
      · rw [hnone] at hold
        cases hold
    · exact .inr ⟨heq, hnew⟩
  · rename_i hne
    exact .inl ⟨hlisted.resolve_right fun h => hne h.1, hwaiting⟩

theorem Came.listed {before after : Cache config} {index : Fin config.mshrs} {mshr : Mshr}
    {target : Target} (hcame : Came before after index mshr target) (other : Fin config.mshrs) :
    other ∈ after.mshrQueue.allocatedList ↔
      other ∈ before.mshrQueue.allocatedList ∨ other = index := by
  obtain ⟨hold, hlist, -, -⟩ | ⟨-, -, hlist, -, -⟩ := hcame.place
  · rw [hlist]
    exact ⟨.inl, fun h => h.elim id fun heq => heq ▸ hold⟩
  · rw [hlist, List.mem_append, List.mem_singleton]

/-- The target that the packet became, at the end of the line. -/
theorem Came.mem {before after : Cache config} {index : Fin config.mshrs} {mshr : Mshr}
    {target : Target} (hcame : Came before after index mshr target) :
    target ∈ (after.mshrQueue.entries index).waiting := by
  rw [hcame.entries, Function.update_self, hcame.waiting]
  exact List.mem_append_right _ (List.mem_singleton_self _)

/-! What the functions of the cache do to the lines. -/

/-- Nothing changed in the queue. -/
theorem Shrunk.of_queue {before after : Cache config} (hqueue : after.mshrQueue = before.mshrQueue)
    (horder : after.order = before.order) : Shrunk before after := by
  refine ⟨fun index hindex => ?_, ?_, horder.ge, by rw [hqueue]⟩
  · rw [targetsOf, targetsOf, hqueue]
    exact ⟨hqueue ▸ hindex, rfl, rfl⟩
  · rw [hqueue]

theorem Shrunk.of_touched {before after : Cache config} (h : Touched before after)
    (horder : SameOrder before after) : Shrunk before after :=
  .of_queue h.mshrQueue horder

theorem Shrunk.trans {a b c : Cache config} (hab : Shrunk a b) (hbc : Shrunk b c) :
    Shrunk a c := by
  refine ⟨fun index hindex => ?_, hbc.ready.trans hab.ready, hab.order.trans hbc.order,
    hbc.reserve.trans hab.reserve⟩
  obtain ⟨hlisted, htargets, horder⟩ := hbc.stays index hindex
  obtain ⟨hlisted', htargets', horder'⟩ := hab.stays index hlisted
  exact ⟨hlisted', htargets.trans htargets', horder.trans horder'⟩

/-- An entry was replaced by one with the same line. -/
theorem Shrunk.edited {before after : Cache config} {index : Fin config.mshrs} {mshr : Mshr}
    (hedited : MshrQueue.Edited before.mshrQueue after.mshrQueue index mshr)
    (hready : after.mshrQueue.readyList.Sublist before.mshrQueue.readyList)
    (hwaiting : mshr.waiting = targetsOf before index)
    (hentry : mshr.order = (before.mshrQueue.entries index).order)
    (horder : SameOrder before after) : Shrunk before after := by
  refine ⟨fun other hother => ⟨hedited.allocatedList ▸ hother, ?_⟩, hready, horder.ge,
    hedited.demandReserve⟩
  rw [targetsOf, hedited.entries, Function.update_apply]
  split
  · rename_i heq
    rw [heq]
    exact ⟨hwaiting, hentry⟩
  · exact ⟨rfl, rfl⟩

theorem markInService_order {mshr mshr' : Mshr} {pendingModified : Bool}
    (h : mshr.markInService pendingModified = .ok mshr') : mshr'.order = mshr.order := by
  simp only [Mshr.markInService, bind_eq_ok, pure_eq_ok] at h
  obtain ⟨-, -, rfl⟩ := h
  exact (Mshr.tellUpstream_spec mshr).1.order

theorem Shrunk.marked {before after : Cache config} {index : Fin config.mshrs}
    {pendingModified : Bool} (h : before.markInService index pendingModified = .ok after) :
    Shrunk before after := by
  obtain ⟨mshrQueue, hqueue, rfl⟩ := markInService_eq_ok h
  obtain ⟨mshr, hmshr, hedited, hready, -⟩ := MshrQueue.markInService_spec hqueue
  have hsublist : mshrQueue.readyList.Sublist before.mshrQueue.readyList := by
    rw [hready]
    exact List.erase_sublist
  exact .edited hedited hsublist (Mshr.markInService_spec hmshr).waiting
    (markInService_order hmshr) rfl

theorem Shrunk.recvTimingResp {cache next : Cache config} (hsound : Sound cache) {pkt : Packet}
    {random : Fin config.geometry.assoc} (h : cache.recvTimingResp pkt random = .ok next) :
    Shrunk cache next := by
  have horder := sameOrder_moves.recvTimingResp (fun _ => sameOrder_dirties) h
  obtain ⟨-, -, -, hbase⟩ := recvTimingResp_base h
  obtain ⟨-, rfl⟩ | ⟨index, blk, filled, writebacks, mshr, ready, left, answers, -, -, hfill, -, -,
    -, -, hresponded⟩ := recvTimingRespBase_cases hbase
  · exact .of_touched (.refl next) rfl
  · have htouched := (unblockTargets_kept cache index).toTouched.trans
      (fillFromResponse_touched hfill)
    have hrepresents := (hsound.touched htouched).represents
    obtain ⟨free, hreleased, -, -⟩ := hresponded.released
    refine ⟨?_, ?_, horder.ge, ?_⟩
    · intro other hother
      obtain ⟨-, hold, hentry⟩ := hrepresents.released_cases hreleased hother
      rw [targetsOf, targetsOf, hentry, htouched.mshrQueue]
      exact ⟨htouched.mshrQueue ▸ hold, rfl, rfl⟩
    · rw [hrepresents.readyList_released hreleased, htouched.mshrQueue]
      exact List.erase_sublist
    · rw [hreleased.demandReserve, htouched.mshrQueue]

/-- Nothing on the ready list is due later than a new entry. -/
theorem addToReadyList_due {numEntries : Nat} {queue : Queue Mshr numEntries}
    {index : Fin numEntries}
    (hdue : ∀ other ∈ queue.readyList, other ≠ index → queue.readyTime other = 0) :
    queue.addToReadyList index = .ok (queue.readyList ++ [index]) := by
  unfold Queue.addToReadyList
  rw [if_pos]
  cases hlast : queue.readyList.getLast? with
  | none => rfl
  | some last =>
      rw [Option.all_some, decide_eq_true_eq]
      by_cases heq : last = index
      · rw [heq]
      · rw [hdue last (List.mem_of_getLast? hlast) heq]
        exact Nat.zero_le _

/-- The target a packet became. -/
structure Stands (target : Target) (pkt : Packet) : Prop where
  ptr : target.pkt.ptr = pkt.ptr
  addr : target.pkt.addr = pkt.addr
  secure : target.pkt.isSecure = pkt.isSecure

/-- The entry that a packet came to waits for its line. -/
theorem Came.block {before after : Cache config} {index : Fin config.mshrs} {mshr : Mshr}
    {target : Target} (hcame : Came before after index mshr target) {pkt : Packet}
    (hstands : Stands target pkt) (hwaits : Waits config (after.mshrQueue.entries index)) :
    (after.mshrQueue.entries index).blkAddr = config.geometry.lineAddr pkt.addr ∧
      (after.mshrQueue.entries index).isSecure = pkt.isSecure := by
  obtain ⟨-, hline, hsecure⟩ := hwaits.line target hcame.mem
  rw [hstands.addr] at hline
  exact ⟨hline.symm, hsecure.symm.trans hstands.secure⟩

/-- An entry that was listed stays, and waits for the same line as before. -/
theorem Came.stays {cache before after : Cache config} {index : Fin config.mshrs} {mshr : Mshr}
    {target : Target} (hcame : Came before after index mshr target)
    (hqueue : before.mshrQueue = cache.mshrQueue) (hcache : Tracked cache)
    (hafter : Tracked after) {other : Fin config.mshrs}
    (hother : other ∈ cache.mshrQueue.allocatedList) :
    other ∈ after.mshrQueue.allocatedList ∧
      (after.mshrQueue.entries other).blkAddr = (cache.mshrQueue.entries other).blkAddr ∧
      (after.mshrQueue.entries other).isSecure = (cache.mshrQueue.entries other).isSecure := by
  have hlisted : other ∈ after.mshrQueue.allocatedList :=
    (hcame.listed other).mpr (.inl (hqueue ▸ hother))
  have hwaits := hcache.waits other hother
  obtain ⟨first, rest, hcons⟩ := List.exists_cons_of_ne_nil hwaits.held
  have hfirst : first.unmarked ∈ (cache.mshrQueue.entries other).waiting := by
    simp [Mshr.waiting, hcons]
  -- the target at the head of its line still waits
  have hstill : first.unmarked ∈ (after.mshrQueue.entries other).waiting := by
    rw [hcame.entries, Function.update_apply]
    split
    · rename_i heq
      rw [hcame.waiting, targetsOf, ← heq, hqueue]
      exact List.mem_append_left _ hfirst
    · rw [hqueue]
      exact hfirst
  obtain ⟨-, hline, hsecure⟩ := hwaits.line _ hfirst
  obtain ⟨-, hline', hsecure'⟩ := (hafter.waits other hlisted).line _ hstill
  exact ⟨hlisted, hline'.symm.trans hline, hsecure'.symm.trans hsecure⟩

/-- A new miss takes the last place of both lists. -/
theorem came_of_missBuffer {cache next : Cache config} (hsound : Sound cache) {pkt : Packet}
    {schedSend : Bool} {index : Fin config.mshrs}
    (h : cache.allocateMissBuffer pkt curTick schedSend = .ok (index, next)) :
    ∃ mshr target, Stands target pkt ∧ (target.source = .fromPrefetcher ↔ pkt.cmd = .hardPFReq) ∧
      Came cache next index mshr target := by
  obtain ⟨mshr, hmshr, hmissed, -⟩ := allocateMissBuffer_missed h
  have halloc := hmissed.allocated
  simp only [Cache.allocateMissBuffer, bind_eq_ok, pure_eq_ok, Prod.mk.injEq] at h
  obtain ⟨⟨index', mshrQueue⟩, hallocate, rfl, hnext⟩ := h
  obtain ⟨entry, -, -, hready⟩ := MshrQueue.allocate_readyList hallocate
  have hsame : next.mshrQueue = mshrQueue ∧ next.order = cache.order + 1 := by
    rw [← hnext]
    unfold missBufferAllocated
    dsimp only
    split <;> split <;> exact ⟨rfl, rfl⟩
  have hlast : next.mshrQueue.readyList = cache.mshrQueue.readyList ++ [index'] := by
    rw [addToReadyList_due, Except.ok.injEq] at hready
    · rw [hsame.1, ← hready]
      rfl
    · intro other hother hne
      have hentry : (cache.mshrQueue.toQueue.setEntry index' entry).entries other =
          cache.mshrQueue.entries other := Function.update_of_ne hne _ _
      rw [Queue.readyTime, hentry]
      exact hsound.due other hother
  have hfresh : index' ∉ cache.mshrQueue.allocatedList :=
    hsound.represents.partition.disjoint index' (by simp [halloc.freeList])
  have hspec := Mshr.allocate_spec hmshr
  refine ⟨mshr, (Mshr.firstTarget pkt curTick cache.order (allocOnFill pkt.cmd)).unmarked,
    ⟨rfl, rfl, rfl⟩, ?_, halloc.entries, ?_, rfl, ?_, halloc.demandReserve,
    .inr ⟨hfresh, halloc.empty, halloc.allocatedList, hlast, ?_⟩⟩
  · have hsource : (Mshr.firstTarget pkt curTick cache.order
        (allocOnFill pkt.cmd)).unmarked.source =
        if pkt.cmd == .hardPFReq then .fromPrefetcher else .fromCPU := rfl
    rw [hsource]
    by_cases hcmd : pkt.cmd = .hardPFReq <;> simp [hcmd]
  · rw [targetsOf, halloc.empty, (hspec.lists halloc.empty).2.2]
    rfl
  · rw [hsame.2]
    exact Nat.lt_succ_self _
  · exact hspec.order

/-- The target that a coalesced packet becomes, a replaced upgrade included. -/
theorem allocateTarget_came {mshr mshr' : Mshr} {pkt : Packet} {whenReady : Tick} {order : Nat}
    {onFill : Bool} (h : mshr.allocateTarget pkt whenReady order onFill = .ok mshr') :
    mshr'.order = mshr.order ∧ ∃ target : Target, target.order = order ∧ Stands target pkt ∧
      target.source = .fromCPU ∧ mshr'.waiting = mshr.waiting ++ [target] := by
  obtain ⟨-, ⟨-, h⟩ | ⟨hdefers, h⟩⟩ := Mshr.allocateTarget_cases h
  · simp only [Mshr.deferTarget, bind_eq_ok, pure_eq_ok] at h
    obtain ⟨sent, hsent, deferred, hadd, rfl⟩ := h
    have hsame : sent.ptr = pkt.ptr ∧ sent.addr = pkt.addr ∧ sent.isSecure = pkt.isSecure := by
      split at hsent
      · simp only [replaceUpgrade, bind_eq_ok, check_eq_ok, exists_const, pure_eq_ok] at hsent
        obtain ⟨-, rfl⟩ := hsent
        rw [apply_ite Packet.ptr, apply_ite Packet.addr, apply_ite Packet.isSecure,
          Packet.allocate_eq]
        exact ⟨ite_self _, ite_self _, ite_self _⟩
      · cases hsent
        exact ⟨rfl, rfl, rfl⟩
    refine ⟨rfl, (TargetList.newTarget sent whenReady order .fromCPU true onFill).unmarked, rfl,
      ⟨hsame.1, hsame.2.1, hsame.2.2⟩, rfl, ?_⟩
    simp [Mshr.waiting, (TargetList.add_spec hadd).1]
  · obtain ⟨hadd, hdeferred, hkept⟩ := Mshr.appendTarget_spec h
    refine ⟨hkept.order, (TargetList.newTarget pkt whenReady order .fromCPU (!mshr.inService)
      onFill).unmarked, rfl, ⟨rfl, rfl, rfl⟩, rfl, ?_⟩
    simp [Mshr.waiting, (TargetList.add_spec hadd).1, hdeferred, Mshr.defers_eq_false hdefers]

/-- A packet that joins an entry comes last in its line. -/
theorem came_of_coalesce {cache next : Cache config} {pkt : Packet} {index : Fin config.mshrs}
    (hmem : index ∈ cache.mshrQueue.allocatedList) (h : cache.coalesce pkt index = .ok next) :
    (pkt.cmd = .cleanEvict ∧ Touched cache next ∧ SameOrder cache next) ∨
      ∃ mshr target, Stands target pkt ∧ target.source = .fromCPU ∧
        Came cache next index mshr target := by
  simp only [coalesce, bind_eq_ok, check_eq_ok, exists_const] at h
  obtain ⟨-, h⟩ := h
  split at h
  · rename_i hcmd
    rw [pure_eq_ok] at h
    exact .inl ⟨beq_iff_eq.mp hcmd, h ▸ ⟨⟨rfl, rfl, id, rfl, rfl, rfl, le_rfl, id⟩, rfl⟩⟩
  · split at h
    · exact absurd h (allocateWriteBuffer_fails cache next pkt curTick)
    · simp only [bind_eq_ok, pure_eq_ok] at h
      obtain ⟨mshr, hallocate, hnext⟩ := h
      obtain ⟨horder, target, hnumber, hstands, hsource, hwaiting⟩ := allocateTarget_came hallocate
      have hsame : next.mshrQueue = cache.mshrQueue.setEntry index mshr ∧
          next.order = cache.order + 1 := by
        rw [← hnext]
        split <;> exact ⟨rfl, rfl⟩
      refine .inr ⟨mshr, target, hstands, hsource, ?_, hwaiting, hnumber, ?_, ?_,
        .inl ⟨hmem, ?_, ?_, horder⟩⟩
      · rw [hsame.1]
        exact (MshrQueue.setEntry_edited cache.mshrQueue index mshr).entries
      · rw [hsame.2]
        exact Nat.lt_succ_self _
      · rw [hsame.1]
        rfl
      · rw [hsame.1]
        rfl
      · rw [hsame.1]
        rfl

/-- A request that has to wait comes last in the line of one entry. -/
theorem came_of_miss {cache next : Cache config} (hsound : Sound cache) {pkt : Packet}
    {blk : Option (BlkRef config.geometry)} (h : cache.handleTimingReqMiss pkt blk = .ok next) :
    ∃ before, Touched cache before ∧ SameOrder cache before ∧
      ((pkt.cmd = .cleanEvict ∧ Touched before next ∧ SameOrder before next) ∨
        ∃ index mshr target, Stands target pkt ∧
          (target.source = .fromPrefetcher → pkt.cmd = .hardPFReq) ∧
          Came before next index mshr target) := by
  simp only [Cache.handleTimingReqMiss, bind_eq_ok, check_eq_ok, exists_const] at h
  obtain ⟨found, hfound, -, h⟩ := h
  have hupdated := (updateWriteMode_kept cache pkt).toTouched
  have horder : SameOrder cache (cache.updateWriteMode pkt) :=
    sameOrder_moves.updateWriteMode sameOrder_adapts cache pkt
  cases found with
  | none =>
      simp only [startMiss] at h
      split at h
      · exact absurd h (allocateWriteBuffer_fails _ next pkt curTick)
      · simp only [bind_eq_ok, pure_eq_ok] at h
        obtain ⟨closed, hclose, ⟨index, missed⟩, hallocate, rfl⟩ := h
        have hclosed := hupdated.trans (closeLine_touched hclose).1
        obtain ⟨mshr, target, hstands, hsource, hcame⟩ :=
          came_of_missBuffer (hsound.touched hclosed) hallocate
        exact ⟨closed, hclosed, sameOrder_moves.trans horder (sameOrder_moves.closeLine hclose),
          .inr ⟨index, mshr, target, hstands, hsource.mp, hcame⟩⟩
  | some index =>
      have hmem : index ∈ (cache.updateWriteMode pkt).mshrQueue.allocatedList := by
        rw [hupdated.mshrQueue]
        exact (findMatch_eq_some hfound).1
      refine ⟨_, hupdated, horder, ?_⟩
      obtain hdropped | ⟨mshr, target, hstands, hsource, hcame⟩ := came_of_coalesce hmem h
      · exact .inl hdropped
      · refine .inr ⟨index, mshr, target, hstands, fun hother => ?_, hcame⟩
        rw [hsource] at hother
        cases hother

/-! What is kept along the lines. -/

/-- A property of the cache and of a bound on the identities that wait, which is kept
when entries leave and when a target that is admitted comes in. -/
structure Lines (admits : Cache config → Target → Prop) (P : Cache config → Nat → Prop) :
    Prop where
  mono : ∀ {cache bound bound'}, P cache bound → bound ≤ bound' → P cache bound'
  shrunk : ∀ {before after bound}, P before bound → Sound after → Shrunk before after →
    P after bound
  came : ∀ {before after bound index mshr target}, P before bound → Sound before →
    bound ≤ target.pkt.ptr → admits before target → Came before after index mshr target →
    P after (target.pkt.ptr + 1)

/-- Every target that a packet with the command can become is admitted. -/
def Lets (admits : Cache config → Target → Prop) (cmd : MemCmd) : Prop :=
  ∀ cache target, (target.source = .fromPrefetcher → cmd = .hardPFReq) → admits cache target

variable {admits : Cache config → Target → Prop} {P : Cache config → Nat → Prop}

theorem Lines.touched (hP : Lines admits P) {before after : Cache config} {bound : Nat}
    (h : P before bound) (hsound : Sound before) (htouched : Touched before after)
    (horder : SameOrder before after) : P after bound :=
  hP.shrunk h (hsound.touched htouched) (.of_touched htouched horder)

theorem Lines.recvTimingResp (hP : Lines admits P) {cache next : Cache config} {bound : Nat}
    (h : P cache bound) (hsound : Sound cache) {pkt : Packet} {random : Fin config.geometry.assoc}
    (hresp : cache.recvTimingResp pkt random = .ok next) : P next bound :=
  hP.shrunk h (hsound.recvTimingResp hresp) (.recvTimingResp hsound hresp)

theorem Lines.handleTimingRes (hP : Lines admits P) {cache next : Cache config} {bound : Nat}
    (h : P cache bound) (hsound : Sound cache) {pkt : Packet} {random : Fin config.geometry.assoc}
    (hres : cache.handleTimingRes pkt random = .ok next) : P next bound := by
  have hfresh := (newPtr_kept cache).toTouched
  exact hP.recvTimingResp (hP.touched h hsound hfresh rfl) (hsound.touched hfresh) hres

theorem Lines.sendMSHRQueuePacket (hP : Lines admits P) {cache next : Cache config}
    {bound : Nat} (h : P cache bound) (hsound : Sound cache) {index : Fin config.mshrs}
    {reply : Option (List UInt8)} {random : Fin config.geometry.assoc} {waiting : Bool}
    {flight : Option Packet}
    (hsend : cache.sendMSHRQueuePacket index reply random = .ok (waiting, next, flight)) :
    P next bound := by
  have horder := sameOrder_moves.sendMSHRQueuePacket sameOrder_adapts hsend
  have hafter := hsound.sendMSHRQueuePacket hsend
  obtain ⟨target, htarget, ⟨-, -, hkept⟩ | ⟨issued, ptr, hserving, hreply⟩⟩ :=
    sendMSHRQueuePacket_cases hsend
  · exact hP.touched h hsound hkept.toTouched horder
  · obtain ⟨rest, hcons⟩ := Mshr.getTarget_eq_ok.mp htarget
    have hmem : index ∈ cache.mshrQueue.allocatedList := hsound.mem_allocatedList (by simp [hcons])
    have hissued := hsound.serving hmem hserving rfl rfl
    have hedited := MshrQueue.setEntry_edited cache.mshrQueue index
      { cache.mshrQueue.entries index with isForward := false }
    rw [← hserving.mshrQueue] at hedited
    have hready : issued.mshrQueue.readyList.Sublist cache.mshrQueue.readyList := by
      rw [hserving.mshrQueue]
      exact List.Sublist.refl _
    cases reply with
    | some data =>
        have hsame := sameOrder_moves.handleTimingRes hreply.2
        have hshrunk : Shrunk cache issued :=
          .edited hedited hready rfl rfl (hsame.symm.trans horder)
        exact hP.handleTimingRes (hP.shrunk h hissued hshrunk) hissued hreply.2
    | none =>
        obtain ⟨-, modified, hmarked⟩ := hreply
        obtain ⟨mshrQueue, -, hnext⟩ := markInService_eq_ok hmarked
        have hsame : SameOrder issued next := by rw [hnext]; rfl
        have hshrunk : Shrunk cache issued :=
          .edited hedited hready rfl rfl (hsame.symm.trans horder)
        exact hP.shrunk h hafter (hshrunk.trans (.marked hmarked))

/-- A new miss leaves every packet that waits with an identity given out before. -/
theorem Lines.allocateMissBuffer (hP : Lines admits P) {cache next : Cache config}
    {pkt : Packet} (h : P cache pkt.ptr) (hsound : Sound cache)
    (hlets : ∀ target : Target, (target.source = .fromPrefetcher → pkt.cmd = .hardPFReq) →
      admits cache target) {schedSend : Bool} {index : Fin config.mshrs}
    (hallocate : cache.allocateMissBuffer pkt curTick schedSend = .ok (index, next)) :
    P next (pkt.ptr + 1) := by
  obtain ⟨mshr, target, hstands, hsource, hcame⟩ := came_of_missBuffer hsound hallocate
  rw [← hstands.ptr]
  exact hP.came h hsound hstands.ptr.ge (hlets target hsource.mp) hcame

/-- One packet waits more, with an identity that no waiting packet has. -/
theorem Lines.handleTimingReqMiss (hP : Lines admits P) {cache next : Cache config}
    {pkt : Packet} (h : P cache pkt.ptr) (hsound : Sound cache) (hlets : Lets admits pkt.cmd)
    {blk : Option (BlkRef config.geometry)}
    (hmiss : cache.handleTimingReqMiss pkt blk = .ok next) : P next (pkt.ptr + 1) := by
  obtain ⟨before, htouched, horder, hcase⟩ := came_of_miss hsound hmiss
  have hbefore := hP.touched h hsound htouched horder
  have hsound' := hsound.touched htouched
  obtain ⟨-, hsame, horder'⟩ | ⟨index, mshr, target, hstands, hsource, hcame⟩ := hcase
  · exact hP.mono (hP.touched hbefore hsound' hsame horder') (Nat.le_succ _)
  · rw [← hstands.ptr]
    exact hP.came hbefore hsound' hstands.ptr.ge (hlets before target hsource) hcame

/-- The entry that a locked read hit takes is in service at once. -/
theorem Lines.lockLine (hP : Lines admits P) {cache next : Cache config}
    (h : P cache cache.nextPtr) (hsound : Sound cache) {pkt : Packet}
    (hlets : Lets admits pkt.cmd) {blk : Option (BlkRef config.geometry)}
    (hlock : cache.lockLine pkt blk = .ok next) : P next next.nextPtr := by
  have hafter := hsound.lockLine hlock
  simp only [Cache.lockLine, bind_eq_ok, check_eq_ok, exists_const] at hlock
  obtain ⟨-, -, -, ⟨index, missed⟩, hallocate, marked, hmark, hlock⟩ := hlock
  have hfresh := (newPtr_kept cache).toTouched
  have hmissed : P missed (cache.nextPtr + 1) := by
    refine hP.allocateMissBuffer ?_ (hsound.touched hfresh) ?_ hallocate
    · exact hP.touched h hsound hfresh rfl
    · exact hlets _
  have hptr : cache.nextPtr + 1 ≤ missed.nextPtr :=
    newer_moves.allocateMissBuffer newer_counts hallocate
  cases blk with
  | none => cases hlock
  | some ref =>
      rw [pure_eq_ok] at hlock
      have hcleared : Touched marked next :=
        hlock ▸ (clearCoherenceBits_touched _ _ _).trans (clearCoherenceBits_touched _ _ _)
      have horder : SameOrder marked next :=
        hlock ▸ sameOrder_moves.trans (sameOrder_moves.clear _ _ _) (sameOrder_moves.clear _ _ _)
      obtain ⟨mshrQueue, -, heq⟩ := markInService_eq_ok hmark
      have hshrunk : Shrunk missed next := (Shrunk.marked hmark).trans (.of_touched hcleared horder)
      have hlast : marked.nextPtr ≤ next.nextPtr := hcleared.nextPtr
      rw [heq] at hlast
      exact hP.mono (hP.shrunk hmissed hafter hshrunk) (hptr.trans hlast)

theorem Lines.handleTimingReqHit (hP : Lines admits P) {cache next : Cache config}
    (h : P cache cache.nextPtr) (hsound : Sound cache) {pkt : Packet}
    (hlets : Lets admits pkt.cmd) {blk : Option (BlkRef config.geometry)}
    {random : Fin config.geometry.assoc}
    (hhit : cache.handleTimingReqHit pkt blk random = .ok next) : P next next.nextPtr := by
  have hafter := hsound.handleTimingReqHit hhit
  simp only [Cache.handleTimingReqHit, bind_eq_ok] at hhit
  obtain ⟨locked, hlocked, hhit⟩ := hhit
  have hopen : P locked locked.nextPtr := by
    split at hlocked
    · cases hlocked
      exact h
    · split at hlocked
      · exact hP.lockLine h hsound hlets hlocked
      · exact absurd hlocked (unlockLine_fails cache locked pkt random)
  have hsame : next.mshrQueue = locked.mshrQueue ∧ next.order = locked.order ∧
      next.nextPtr = locked.nextPtr := by
    split at hhit
    · simp only [bind_eq_ok, pure_eq_ok] at hhit
      obtain ⟨resp, -, rfl⟩ := hhit
      exact ⟨rfl, rfl, rfl⟩
    · rw [pure_eq_ok] at hhit
      exact hhit ▸ ⟨rfl, rfl, rfl⟩
  obtain ⟨hqueue, horder, hptr⟩ := hsame
  rw [hptr]
  exact hP.shrunk hopen hafter (.of_queue hqueue horder)

/-- A request whose packet has the identity given out last. -/
theorem Lines.recvTimingReq (hP : Lines admits P) {cache next : Cache config} {pkt : Packet}
    (h : P cache pkt.ptr) (hptr : cache.nextPtr = pkt.ptr + 1) (hsound : Sound cache)
    (hlets : Lets admits pkt.cmd) {random : Fin config.geometry.assoc}
    (hreq : cache.recvTimingReq pkt random = .ok next) : P next next.nextPtr := by
  have hafter := hsound.recvTimingReq hreq
  obtain ⟨reopened, accessed, handled, -, haccess, htouched, hquiet, hhandled, rfl⟩ :=
    recvTimingReq_parts hsound.writeBuffer.1 hreq
  have hsound' := hsound.touched htouched
  have haccessed := hP.touched h hsound htouched
    (hquiet SameOrder sameOrder_moves.toQuiet fun _ => sameOrder_dirties)
  have hlast : pkt.ptr + 1 ≤ accessed.cache.nextPtr := hptr ▸ htouched.nextPtr
  have hpkt := access_pkt haccess
  have hlets' : Lets admits accessed.pkt.cmd := by
    rw [hpkt]
    exact hlets
  have hhandled : P handled handled.nextPtr := by
    split at hhandled
    · have hcleared := (clearPrefetched_kept accessed.cache accessed.blk).toTouched
      have hopen := hP.mono (hP.touched haccessed hsound' hcleared
        (sameOrder_moves.clearPrefetched _ _))
        ((Nat.le_succ _).trans (hlast.trans hcleared.nextPtr))
      exact hP.handleTimingReqHit hopen (hsound'.touched hcleared) hlets' hhandled
    · have hsame : accessed.pkt.ptr = pkt.ptr := by rw [hpkt]
      rw [← hsame] at haccessed hlast
      have hle := newer_moves.handleTimingReqMiss newer_counts newer_adapts hhandled
      exact hP.mono (hP.handleTimingReqMiss haccessed hsound' hlets' hhandled) (hlast.trans hle)
  split
  · rename_i hsend
    rw [if_pos hsend] at hafter
    exact hP.shrunk hhandled hafter (.of_queue rfl rfl)
  · exact hhandled

theorem Lines.getNextQueueEntry (hP : Lines admits P) {cache next : Cache config}
    {bound : Nat} (h : P cache bound) (hsound : Sound cache) {prefetch : Option Packet}
    (hprefetch : ∀ pkt ∈ prefetch, pkt.ptr = bound)
    (hlets : cache.mshrQueue.canPrefetch = true → ∀ target, admits cache target)
    {entry : Option (EntryRef config)}
    (hnext : cache.getNextQueueEntry prefetch = .ok (entry, next)) : P next (bound + 1) := by
  obtain ⟨rfl, -⟩ | ⟨pkt, index, rfl, -, hstarted⟩ :=
    getNextQueueEntry_parts hsound.writeBuffer.2 hnext
  · exact hP.mono h (Nat.le_succ bound)
  · obtain rfl := hprefetch pkt rfl
    exact hP.allocateMissBuffer h hsound (fun target _ => hlets hstarted.room target)
      hstarted.allocated

/-- Identities are given out upwards. -/
theorem step_newer {system next : System config} {label : Label config}
    (hsound : Sound system.cache) (hstep : system.step label = .ok next) :
    Newer system.cache next.cache := by
  have hfresh : Newer system.cache system.cache.newPtr.2 := Nat.le_succ system.cache.nextPtr
  have hempty := (hsound.touched (newPtr_kept system.cache).toTouched).writeBuffer
  cases label with
  | recvTimingReq pkt random =>
      obtain ⟨cache, hreq, rfl⟩ := System.step_recvTimingReq hstep
      exact hfresh.trans (newer_moves.recvTimingReq newer_counts newer_adapts hempty.1
        (fun _ => newer_dirties) hreq)
  | getNextQueueEntry prefetch =>
      obtain ⟨entry, cache, hnext, rfl⟩ := System.step_getNextQueueEntry hstep
      exact hfresh.trans (newer_moves.getNextQueueEntry newer_counts hempty.2 hnext)
  | sendMSHRQueuePacket index reply random =>
      obtain ⟨waiting, cache, flight, hsend, rfl⟩ := System.step_sendMSHRQueuePacket hstep
      exact newer_moves.sendMSHRQueuePacket newer_adapts hsend
  | handleTimingRes pkt random =>
      obtain ⟨cache, hres, rfl⟩ := System.step_handleTimingRes hstep
      exact newer_moves.handleTimingRes hres
  | recvTimingResp pkt random =>
      obtain ⟨cache, hresp, rfl⟩ := System.step_recvTimingResp hstep
      exact newer_moves.recvTimingResp (fun _ => newer_dirties) hresp

/-- What is kept along the lines is kept by every call whose packet is admitted. -/
theorem Lines.step (hP : Lines admits P) {system next : System config} {label : Label config}
    (h : P system.cache system.cache.nextPtr) (hsound : Sound system.cache)
    (hlets : ∀ pkt random, label = .recvTimingReq pkt random → Lets admits pkt.cmd)
    (hprefetch : ∀ (cache : Cache config) target, cache.mshrQueue.canPrefetch = true →
      admits cache target)
    (hstep : system.step label = .ok next) : P next.cache next.cache.nextPtr := by
  have hnewer := step_newer hsound hstep
  have hfresh := (newPtr_kept system.cache).toTouched
  have hsound' := hsound.touched hfresh
  have hstart : P system.cache.newPtr.2 system.cache.nextPtr := hP.touched h hsound hfresh rfl
  cases label with
  | recvTimingReq pkt random =>
      obtain ⟨cache, hreq, rfl⟩ := System.step_recvTimingReq hstep
      have hadmits : Lets admits ({ pkt with ptr := system.cache.nextPtr } : Packet).cmd :=
        hlets pkt random rfl
      refine hP.recvTimingReq ?_ ?_ hsound' hadmits hreq
      · exact hstart
      · rfl
  | getNextQueueEntry prefetch =>
      obtain ⟨entry, cache, hnext, rfl⟩ := System.step_getNextQueueEntry hstep
      have hlt : system.cache.nextPtr + 1 ≤ cache.nextPtr :=
        newer_moves.getNextQueueEntry newer_counts hsound'.writeBuffer.2 hnext
      refine hP.mono (hP.getNextQueueEntry hstart hsound' ?_ ?_ hnext) hlt
      · intro pkt hpkt
        obtain ⟨asked, -, rfl⟩ := Option.map_eq_some_iff.mp hpkt
        rfl
      · intro hmay target
        exact hprefetch _ target hmay
  | sendMSHRQueuePacket index reply random =>
      obtain ⟨waiting, cache, flight, hsend, rfl⟩ := System.step_sendMSHRQueuePacket hstep
      exact hP.mono (hP.sendMSHRQueuePacket h hsound hsend) hnewer
  | handleTimingRes pkt random =>
      obtain ⟨cache, hres, rfl⟩ := System.step_handleTimingRes hstep
      exact hP.mono (hP.handleTimingRes h hsound hres) hnewer
  | recvTimingResp pkt random =>
      obtain ⟨cache, hresp, rfl⟩ := System.step_recvTimingResp hstep
      exact hP.mono (hP.recvTimingResp h hsound hresp) hnewer

end KuiperCache.Turns
