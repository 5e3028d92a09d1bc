import KuiperCache.Cache.PlainAccess

/-! No request is lost or answered twice.  Every accepted packet has been
answered or sits in one MSHR, once. -/
namespace KuiperCache.Conservation

open Checked Cache

variable {config : CacheConfig}

/-- The identities of the packets an MSHR holds. -/
def ptrs (mshr : Mshr) : List Nat := mshr.waiting.map fun target => target.pkt.ptr

/-- The identities of the packets all allocated MSHRs hold. -/
def heldPtrs (queue : MshrQueue config.mshrs) : List Nat :=
  queue.allocatedList.flatMap fun index => ptrs (queue.entries index)

/-- A target that stands for an accepted plain packet. -/
structure Accounted (accepted : List Packet) (target : Target) : Prop where
  source : target.source = .fromCPU
  plain : target.pkt.cmd.isPlain = true
  mem : target.pkt ∈ accepted

/-- The accepted packets are those in hand, those answered and those held.  A
packet is in hand while its request is being processed. -/
structure Conserved (accepted inHand : List Packet) (cache : Cache config) : Prop where
  balance : (accepted.map Packet.ptr).Perm
    (inHand.map Packet.ptr ++ (cache.responses.map Packet.ptr ++ heldPtrs cache.mshrQueue))
  distinct : (accepted.map Packet.ptr).Nodup
  known : ∀ pkt ∈ accepted, pkt.ptr < cache.nextPtr
  answered : ∀ resp ∈ cache.responses, ∃ pkt ∈ accepted, pkt.Answered resp
  accounted : ∀ index ∈ cache.mshrQueue.allocatedList,
    ∀ target ∈ (cache.mshrQueue.entries index).waiting, Accounted accepted target
  postInvalidate : ∀ index, (cache.mshrQueue.entries index).postInvalidate = false

theorem conserved_new (config : CacheConfig) (writeAllocator : Option WriteAllocator) :
    Conserved [] [] (Cache.new config writeAllocator) := by
  refine ⟨List.Perm.refl _, List.nodup_nil, ?_, ?_, ?_, fun _ => rfl⟩
  · intro pkt hpkt
    cases hpkt
  · intro resp hresp
    cases hresp
  · intro index hindex
    cases hindex

theorem Conserved.touched {accepted inHand : List Packet} {before after : Cache config}
    (h : Conserved accepted inHand before) (htouched : Touched before after) :
    Conserved accepted inHand after := by
  refine ⟨?_, h.distinct, fun pkt hpkt => (h.known pkt hpkt).trans_le htouched.nextPtr, ?_, ?_, ?_⟩
  · rw [htouched.responses, htouched.mshrQueue]
    exact h.balance
  · rw [htouched.responses]
    exact h.answered
  · rw [htouched.mshrQueue]
    exact h.accounted
  · rw [htouched.mshrQueue]
    exact h.postInvalidate

/-- A packet with a fresh identity is accepted. -/
theorem Conserved.accept {accepted : List Packet} {cache : Cache config}
    (h : Conserved accepted [] cache) (pkt : Packet) :
    Conserved (accepted ++ [{ pkt with ptr := cache.nextPtr }])
      [{ pkt with ptr := cache.nextPtr }] cache.newPtr.2 := by
  have hmono : ∀ target, Accounted accepted target →
      Accounted (accepted ++ [{ pkt with ptr := cache.nextPtr }]) target :=
    fun target htarget => ⟨htarget.source, htarget.plain, List.mem_append_left _ htarget.mem⟩
  refine ⟨?_, ?_, ?_, ?_, ?_, h.postInvalidate⟩
  · rw [List.map_append]
    exact (List.perm_append_comm).trans (h.balance.append_left _)
  · rw [List.map_append, List.nodup_append]
    refine ⟨h.distinct, List.nodup_singleton _, ?_⟩
    intro a ha b hb
    obtain ⟨old, hold, rfl⟩ := List.mem_map.mp ha
    rw [List.map_singleton, List.mem_singleton] at hb
    have hlt := h.known old hold
    simp only at hb
    omega
  · intro other hother
    rw [List.mem_append, List.mem_singleton] at hother
    obtain hold | rfl := hother
    · exact (h.known other hold).trans (Nat.lt_succ_self _)
    · exact Nat.lt_succ_self _
  · intro resp hresp
    obtain ⟨old, hold, hanswered⟩ := h.answered resp hresp
    exact ⟨old, List.mem_append_left _ hold, hanswered⟩
  · intro index hindex target htarget
    exact hmono target (h.accounted index hindex target htarget)

/-- The packet in hand is answered. -/
theorem Conserved.finished {accepted : List Packet} {before after : Cache config} {pkt : Packet}
    (h : Conserved accepted [pkt] before) (hneeds : pkt.cmd.needsResponse = true)
    (hmem : pkt ∈ accepted) (hfinished : Finished before after pkt) :
    Conserved accepted [] after := by
  have hresponses := hfinished.responses
  rw [hneeds, if_pos rfl] at hresponses
  have hqueue : after.mshrQueue = before.mshrQueue := hfinished.kept.mshrQueue
  have hptr : before.nextPtr ≤ after.nextPtr := hfinished.kept.nextPtr
  refine ⟨?_, h.distinct, fun other hother => (h.known other hother).trans_le hptr, ?_, ?_, ?_⟩
  · rw [hresponses, hqueue, List.map_append, List.append_assoc, List.map_singleton]
    refine h.balance.trans ?_
    simp only [List.map_singleton, List.map_nil, List.nil_append]
    exact (List.perm_append_comm_assoc _ _ _)
  · intro resp hresp
    rw [hresponses, List.mem_append, List.mem_singleton] at hresp
    obtain hold | rfl := hresp
    · exact h.answered resp hold
    · exact ⟨pkt, hmem, rfl, .inl rfl⟩
  · rw [hqueue]
    exact h.accounted
  · rw [hqueue]
    exact h.postInvalidate

/-- The contents of one MSHR change. -/
theorem heldPtrs_update {queue next : MshrQueue config.mshrs} {index : Fin config.mshrs}
    {mshr : Mshr} (hnodup : queue.allocatedList.Nodup) (hmem : index ∈ queue.allocatedList)
    (hentries : next.entries = Function.update queue.entries index mshr)
    (hlist : next.allocatedList = queue.allocatedList) :
    ∃ rest, (heldPtrs queue).Perm (ptrs (queue.entries index) ++ rest) ∧
      (heldPtrs next).Perm (ptrs mshr ++ rest) := by
  have hrest : (queue.allocatedList.erase index).flatMap (fun i => ptrs (next.entries i)) =
      (queue.allocatedList.erase index).flatMap fun i => ptrs (queue.entries i) := by
    apply SlotPool.flatMap_erase_congr hnodup
    intro other hne
    rw [hentries, Function.update_of_ne hne]
  refine ⟨(queue.allocatedList.erase index).flatMap fun i => ptrs (queue.entries i),
    SlotPool.flatMap_perm_erase _ hmem, ?_⟩
  unfold heldPtrs
  rw [hlist, ← hrest]
  refine (SlotPool.flatMap_perm_erase _ hmem).trans ?_
  rw [hentries, Function.update_self]

/-- The packets in hand join the line of an MSHR. -/
theorem Conserved.update {accepted inHand : List Packet} {before after : Cache config}
    {index : Fin config.mshrs} {mshr : Mshr} {added : List Target} (hsound : Sound before)
    (h : Conserved accepted inHand before) (hmem : index ∈ before.mshrQueue.allocatedList)
    (hentries : after.mshrQueue.entries = Function.update before.mshrQueue.entries index mshr)
    (hlist : after.mshrQueue.allocatedList = before.mshrQueue.allocatedList)
    (hresponses : after.responses = before.responses) (hptr : before.nextPtr ≤ after.nextPtr)
    (hwaiting : mshr.waiting = (before.mshrQueue.entries index).waiting ++ added)
    (hadded : added.map Target.pkt = inHand)
    (haccounted : ∀ target ∈ added, Accounted accepted target)
    (hpost : mshr.postInvalidate = false) : Conserved accepted [] after := by
  obtain ⟨rest, hbefore, hafter⟩ :=
    heldPtrs_update hsound.represents.partition.used_nodup hmem hentries hlist
  have hptrs : ptrs mshr = ptrs (before.mshrQueue.entries index) ++ inHand.map Packet.ptr := by
    rw [ptrs, hwaiting, List.map_append, ← hadded, List.map_map]
    rfl
  refine ⟨?_, h.distinct, fun pkt hpkt => (h.known pkt hpkt).trans_le hptr, ?_, ?_, ?_⟩
  · rw [hresponses, List.map_nil, List.nil_append]
    calc List.Perm (accepted.map Packet.ptr) (inHand.map Packet.ptr ++
            (before.responses.map Packet.ptr ++ (ptrs (before.mshrQueue.entries index) ++ rest))) :=
          h.balance.trans ((hbefore.append_left _).append_left _)
      List.Perm _ (before.responses.map Packet.ptr ++ (inHand.map Packet.ptr ++
            (ptrs (before.mshrQueue.entries index) ++ rest))) := List.perm_append_comm_assoc _ _ _
      List.Perm _ (before.responses.map Packet.ptr ++ (ptrs mshr ++ rest)) := by
          rw [hptrs, List.append_assoc]
          exact (List.perm_append_comm_assoc _ _ _).append_left _
      List.Perm _ (before.responses.map Packet.ptr ++ heldPtrs after.mshrQueue) :=
          (hafter.symm).append_left _
  · rw [hresponses]
    exact h.answered
  · intro other hother target htarget
    rw [hlist] at hother
    rw [hentries, Function.update_apply] at htarget
    split at htarget
    · rw [hwaiting, List.mem_append] at htarget
      obtain hold | hnew := htarget
      · exact h.accounted index hmem target hold
      · exact haccounted target hnew
    · exact h.accounted other hother target htarget
  · rw [hentries]
    apply (Function.forall_update_iff _ fun _ (entry : Mshr) => entry.postInvalidate = false).mpr
    exact ⟨hpost, fun i _ => h.postInvalidate i⟩

/-- The packet in hand starts a new MSHR. -/
theorem Conserved.missed {accepted : List Packet} {before after : Cache config}
    {index : Fin config.mshrs} {mshr : Mshr} {pkt : Packet} {blkAddr : Addr} {blkSize : Nat}
    {time : Tick} {order : Nat} {onFill : Bool} (hsound : Sound before)
    (h : Conserved accepted [pkt] before) (hplain : pkt.cmd.isPlain = true)
    (hpkt : pkt ∈ accepted) (hmissed : Missed before after index mshr)
    (hallocate : (before.mshrQueue.entries index).allocate blkAddr blkSize pkt time order onFill =
      .ok mshr) : Conserved accepted [] after := by
  have halloc := hmissed.allocated
  have hspec := Mshr.allocate_spec hallocate
  have hwaiting := (hspec.lists halloc.empty).2.2
  have hresponses : after.responses = before.responses := hmissed.kept.responses
  have hptr : before.nextPtr ≤ after.nextPtr := hmissed.kept.nextPtr
  have hself : after.mshrQueue.entries index = mshr := by
    rw [halloc.entries, Function.update_self]
  have hheld : heldPtrs after.mshrQueue = heldPtrs before.mshrQueue ++ [pkt.ptr] := by
    unfold heldPtrs
    rw [halloc.allocatedList, List.flatMap_append, List.flatMap_singleton, hself]
    congr 1
    · apply List.flatMap_congr
      intro i hi
      rw [hsound.represents.others_allocated halloc hi]
    · rw [ptrs, hwaiting]
      rfl
  have hsource : (Mshr.firstTarget pkt time order onFill).source = .fromCPU := by
    obtain hcmd | hcmd | hcmd := MemCmd.isPlain_cases hplain
    · simp [Mshr.firstTarget, TargetList.newTarget, hcmd]
    · simp [Mshr.firstTarget, TargetList.newTarget, hcmd]
    · simp [Mshr.firstTarget, TargetList.newTarget, hcmd]
  refine ⟨?_, h.distinct, fun other hmem => (h.known other hmem).trans_le hptr, ?_, ?_, ?_⟩
  · rw [hresponses, hheld]
    refine h.balance.trans ?_
    rw [List.map_singleton, List.map_nil, List.nil_append]
    exact List.perm_append_comm.trans (.of_eq (List.append_assoc _ _ _))
  · rw [hresponses]
    exact h.answered
  · intro i hi target htarget
    obtain ⟨hi, hentry⟩ | ⟨-, hentry⟩ := hsound.represents.allocated_cases halloc hi
    · rw [hentry] at htarget
      exact h.accounted i hi target htarget
    · rw [hentry, hwaiting, List.mem_singleton] at htarget
      subst htarget
      exact ⟨hsource, hplain, hpkt⟩
  · rw [halloc.entries]
    apply (Function.forall_update_iff _ fun _ (entry : Mshr) => entry.postInvalidate = false).mpr
    exact ⟨hspec.postInvalidate.trans (h.postInvalidate index), fun i _ => h.postInvalidate i⟩

theorem Conserved.handleTimingReqMiss {accepted : List Packet} {cache next : Cache config}
    (hsound : Sound cache) {pkt : Packet} (h : Conserved accepted [pkt] cache)
    (hplain : pkt.cmd.isPlain = true) (hpkt : pkt ∈ accepted)
    {blk : Option (BlkRef config.geometry)} (hmiss : cache.handleTimingReqMiss pkt blk = .ok next) :
    Conserved accepted [] next := by
  obtain ⟨found, updated, hkept, hfound, hmiss⟩ := handleTimingReqMiss_cases hmiss
  have hsound' := hsound.touched hkept.toTouched
  have hupdated := h.touched hkept.toTouched
  rw [← hkept.mshrQueue] at hfound
  cases found with
  | some index =>
      obtain ⟨hmem, -, -⟩ := findMatch_eq_some hfound
      obtain ⟨hevict, -⟩ | ⟨mshr, hallocate, hserving⟩ := coalesce_cases hmiss
      · rw [hevict] at hplain
        cases hplain
      · have hpost := hupdated.postInvalidate index
        obtain ⟨hwaiting, hkept', -⟩ := Mshr.allocateTarget_waiting (by simp [hpost]) hallocate
        have hptr : updated.nextPtr ≤ next.nextPtr := hserving.kept.nextPtr
        refine hupdated.update hsound' hmem ?_ ?_ ?_ hptr hwaiting rfl ?_
          (hkept'.postInvalidate.trans hpost)
        · rw [hserving.mshrQueue]
          rfl
        · rw [hserving.mshrQueue]
          rfl
        · rw [hserving.responses, List.append_nil]
        · intro target htarget
          rw [List.mem_singleton] at htarget
          subst htarget
          exact ⟨rfl, hplain, hpkt⟩
  | none =>
      obtain ⟨-, middle, index, mshr, htouched, -, hallocate, hmissed, -⟩ := startMiss_cases hmiss
      exact (hupdated.touched htouched).missed (hsound'.touched htouched) hplain hpkt hmissed
        hallocate

theorem Conserved.schedMemSideSendEvent {accepted inHand : List Packet} {cache : Cache config}
    (h : Conserved accepted inHand cache) : Conserved accepted inHand cache.schedMemSideSendEvent :=
  ⟨h.balance, h.distinct, h.known, h.answered, h.accounted, h.postInvalidate⟩

theorem Conserved.recvTimingReq {accepted : List Packet} {cache next : Cache config}
    (hsound : Sound cache) {pkt : Packet} (h : Conserved accepted [pkt] cache)
    (hplain : pkt.cmd.isPlain = true) (hpkt : pkt ∈ accepted)
    {random : Fin config.geometry.assoc} (hreq : cache.recvTimingReq pkt random = .ok next) :
    Conserved accepted [] next := by
  obtain ⟨seen, handled, hkept, rfl, houtcome⟩ := recvTimingReq_plain hsound hplain hreq
  have hseen := h.touched hkept.toTouched
  have hhandled : Conserved accepted [] handled := by
    obtain ⟨-, hfinished⟩ | ⟨-, hmiss⟩ := houtcome
    · exact hseen.finished (isPlain_attributes hplain).2.2.2.2.2.2.1 hpkt hfinished
    · exact hseen.handleTimingReqMiss (hsound.touched hkept.toTouched) hplain hpkt hmiss
  split
  · exact hhandled.schedMemSideSendEvent
  · exact hhandled

theorem cpuPackets_eq_map {targets : List Target}
    (h : ∀ target ∈ targets, target.source = .fromCPU) :
    cpuPackets targets = targets.map Target.pkt := by
  unfold cpuPackets
  rw [List.filter_eq_self.mpr]
  intro target htarget
  rw [h target htarget]
  rfl

theorem answered_ptrs {pkts answers : List Packet}
    (h : List.Forall₂ Packet.Answered pkts answers) :
    answers.map Packet.ptr = pkts.map Packet.ptr := by
  induction h with
  | nil => rfl
  | cons hhead _ ih => rw [List.map_cons, List.map_cons, ih, hhead.same]

theorem exists_answered {pkts answers : List Packet}
    (h : List.Forall₂ Packet.Answered pkts answers) :
    ∀ resp ∈ answers, ∃ pkt ∈ pkts, pkt.Answered resp := by
  induction h with
  | nil => simp
  | cons hhead _ ih =>
      intro resp hresp
      rw [List.mem_cons] at hresp
      obtain rfl | hrest := hresp
      · exact ⟨_, List.mem_cons_self, hhead⟩
      · obtain ⟨pkt, hpkt, hanswered⟩ := ih resp hrest
        exact ⟨pkt, List.mem_cons_of_mem _ hpkt, hanswered⟩

/-- Extraction that leaves nothing behind takes the whole line. -/
theorem drained_waiting {accepted : List Packet} {mshr mshr' left : Mshr} {ready : TargetList}
    {resp : MemCmd} (haccounted : ∀ target ∈ mshr.waiting, Accounted accepted target)
    (hrearranged : Mshr.Rearranged mshr mshr')
    (hextract : mshr'.extractServiceableTargets resp = .ok (ready, left))
    (hleft : left.waiting = []) : ready.list.map Target.unmarked = mshr.waiting := by
  rw [← hrearranged.waiting] at haccounted
  have htargets : ∀ target ∈ mshr'.targets.list, Accounted accepted target.unmarked :=
    fun target htarget =>
      haccounted _ (List.mem_map_of_mem (List.mem_append_left _ htarget))
  have hserved := (Mshr.extractServiceableTargets_waiting
    (fun target htarget => (htargets target (List.mem_of_mem_tail htarget)).source)
    (fun target htarget hlocked => by
      have hplain := (htargets target htarget).plain
      rw [Target.unmarked_pkt, hlocked] at hplain
      cases hplain) hextract).1
  rw [hleft, List.append_nil, hrearranged.waiting] at hserved
  exact hserved

/-- Everything that waits in an MSHR is answered when it is drained. -/
theorem Conserved.responded {accepted : List Packet} {before after : Cache config}
    {index : Fin config.mshrs} {mshr left : Mshr} {ready : TargetList} {resp : MemCmd}
    {answers : List Packet} (hsound : Sound before) (h : Conserved accepted [] before)
    (hmem : index ∈ before.mshrQueue.allocatedList)
    (hrearranged : Mshr.Rearranged (before.mshrQueue.entries index) mshr)
    (hextract : mshr.extractServiceableTargets resp = .ok (ready, left))
    (hleft : left.waiting = [])
    (hanswers : List.Forall₂ Packet.Answered (cpuPackets ready.list) answers)
    (hresponded : Responded before after index answers) : Conserved accepted [] after := by
  obtain ⟨free, hreleased, -, hpost⟩ := hresponded.released
  have hserved := drained_waiting (h.accounted index hmem) hrearranged hextract hleft
  have hready : ∀ target ∈ ready.list, Accounted accepted target.unmarked := by
    intro target htarget
    apply h.accounted index hmem
    rw [← hserved]
    exact List.mem_map_of_mem htarget
  rw [cpuPackets_eq_map fun target htarget => (hready target htarget).source] at hanswers
  have hptrs : answers.map Packet.ptr = ptrs (before.mshrQueue.entries index) := by
    rw [answered_ptrs hanswers, ptrs, ← hserved, List.map_map, List.map_map]
    rfl
  have hnodup := hsound.represents.partition.used_nodup
  have hheld : (heldPtrs before.mshrQueue).Perm
      (answers.map Packet.ptr ++ heldPtrs after.mshrQueue) := by
    unfold heldPtrs
    rw [hptrs, hreleased.allocatedList, SlotPool.flatMap_erase_congr hnodup
      (fun other hne => by rw [hreleased.entries, Function.update_of_ne hne])]
    exact SlotPool.flatMap_perm_erase _ hmem
  refine ⟨?_, h.distinct, fun pkt hpkt => (h.known pkt hpkt).trans_le hresponded.nextPtr, ?_, ?_,
    ?_⟩
  · rw [hresponded.responses, List.map_append, List.append_assoc]
    exact h.balance.trans ((hheld.append_left _).append_left _)
  · intro answer hanswer
    rw [hresponded.responses, List.mem_append] at hanswer
    obtain hold | hnew := hanswer
    · exact h.answered answer hold
    · obtain ⟨pkt, hpkt, hanswered⟩ := exists_answered hanswers answer hnew
      obtain ⟨target, htarget, rfl⟩ := List.mem_map.mp hpkt
      exact ⟨target.pkt, (hready target htarget).mem, hanswered⟩
  · intro other hother target htarget
    obtain ⟨-, hold, hentry⟩ := hsound.represents.released_cases hreleased hother
    rw [hentry] at htarget
    exact h.accounted other hold target htarget
  · rw [hreleased.entries]
    apply (Function.forall_update_iff _ fun _ (entry : Mshr) => entry.postInvalidate = false).mpr
    exact ⟨hpost.trans (h.postInvalidate index), fun i _ => h.postInvalidate i⟩

theorem Conserved.recvTimingResp {accepted : List Packet} {cache next : Cache config}
    (hsound : Sound cache) (h : Conserved accepted [] cache) {pkt : Packet}
    {random : Fin config.geometry.assoc} (hresp : cache.recvTimingResp pkt random = .ok next) :
    Conserved accepted [] next := by
  obtain ⟨-, -, -, hbase⟩ := recvTimingResp_base hresp
  obtain ⟨-, rfl⟩ | ⟨index, blk, filled, writebacks, mshr, ready, left, answers, -, hheld, hfill,
    hrearranged, hextract, hleft, hanswers, hresponded⟩ := recvTimingRespBase_cases hbase
  · exact h
  · have htouched := (unblockTargets_kept cache index).toTouched.trans
      (fillFromResponse_touched hfill)
    have hmem := hsound.mem_allocatedList hheld
    rw [← htouched.mshrQueue] at hmem hrearranged
    exact (h.touched htouched).responded (hsound.touched htouched) hmem hrearranged hextract hleft
      hanswers hresponded

theorem Conserved.handleTimingRes {accepted : List Packet} {cache next : Cache config}
    (hsound : Sound cache) (h : Conserved accepted [] cache) {pkt : Packet}
    {random : Fin config.geometry.assoc} (hres : cache.handleTimingRes pkt random = .ok next) :
    Conserved accepted [] next := by
  obtain ⟨fresh, resp, hkept, hresp, -, -, -, -⟩ := handleTimingRes_cases hres
  exact (h.touched hkept.toTouched).recvTimingResp (hsound.touched hkept.toTouched) hresp

theorem Conserved.sendMSHRQueuePacket {accepted : List Packet} {cache next : Cache config}
    (hsound : Sound cache) (h : Conserved accepted [] cache) {index : Fin config.mshrs}
    {reply : Option (List UInt8)} {random : Fin config.geometry.assoc} {waiting : Bool}
    {flight : Option Packet}
    (hsend : cache.sendMSHRQueuePacket index reply random = .ok (waiting, next, flight)) :
    Conserved accepted [] next := by
  obtain ⟨target, htarget, ⟨-, -, hkept⟩ | ⟨issued, ptr, hserving, hreply⟩⟩ :=
    sendMSHRQueuePacket_cases hsend
  · exact h.touched hkept.toTouched
  · obtain ⟨rest, hcons⟩ := Mshr.getTarget_eq_ok.mp htarget
    have hmem : index ∈ cache.mshrQueue.allocatedList :=
      hsound.mem_allocatedList (by simp [hcons])
    have hsound' := hsound.serving hmem hserving rfl rfl
    have hentries : issued.mshrQueue.entries = Function.update cache.mshrQueue.entries index
        { cache.mshrQueue.entries index with isForward := false } := by
      rw [hserving.mshrQueue]
      rfl
    have hissued : Conserved accepted [] issued := by
      have hptr : cache.nextPtr ≤ issued.nextPtr := hserving.kept.nextPtr
      refine h.update hsound hmem hentries ?_ ?_ hptr (List.append_nil _).symm rfl
        (by simp) (h.postInvalidate index)
      · rw [hserving.mshrQueue]
        rfl
      · rw [hserving.responses, List.append_nil]
    cases reply with
    | some data => exact hissued.handleTimingRes hsound' hreply.2
    | none =>
        obtain ⟨-, modified, hmarked⟩ := hreply
        obtain ⟨mshrQueue, hqueue, rfl⟩ := markInService_eq_ok hmarked
        obtain ⟨mshr, hmshr, hedited, -, -⟩ := MshrQueue.markInService_spec hqueue
        have hspec := Mshr.markInService_spec hmshr
        have hmem : index ∈ issued.mshrQueue.allocatedList := by
          rw [hserving.mshrQueue]
          exact hmem
        exact hissued.update hsound' hmem hedited.entries hedited.allocatedList rfl le_rfl
          (by rw [hspec.waiting, List.append_nil]) rfl (by simp) hspec.postInvalidate

/-- Plain requests, sends and responses of any kind; the prefetcher is not
consulted. -/
def plainStep : Label config → Bool
  | .recvTimingReq pkt _ => pkt.cmd.isPlain
  | .getNextQueueEntry prefetch => prefetch.isNone
  | .sendMSHRQueuePacket .. => true
  | .handleTimingRes .. => true
  | .recvTimingResp .. => true

theorem step_conserved (system : System config) (label : Label config) (next : System config)
    (hlabel : plainStep label = true)
    (hinv : system.cache.Sound ∧ Conserved system.accepted [] system.cache)
    (h : system.step label = .ok next) :
    next.cache.Sound ∧ Conserved next.accepted [] next.cache := by
  obtain ⟨hsound, hconserved⟩ := hinv
  refine ⟨System.step_sound system label next hsound h, ?_⟩
  have hfresh := (newPtr_kept system.cache).toTouched
  cases label with
  | recvTimingReq pkt random =>
      obtain ⟨cache, hreq, rfl⟩ := System.step_recvTimingReq h
      refine (hconserved.accept pkt).recvTimingReq (hsound.touched hfresh) ?_ ?_ hreq
      · exact hlabel
      · exact List.mem_append_right _ (List.mem_singleton_self _)
  | getNextQueueEntry prefetch =>
      rw [plainStep, Option.isNone_iff_eq_none] at hlabel
      subst hlabel
      obtain ⟨entry, cache, hnext, rfl⟩ := System.step_getNextQueueEntry h
      have hsound' := hsound.touched hfresh
      obtain ⟨rfl, -⟩ | ⟨pkt, index, mshr, hprefetch, -⟩ :=
        getNextQueueEntry_cases hsound'.writeBuffer.2 hnext
      · exact hconserved.touched hfresh
      · cases hprefetch
  | sendMSHRQueuePacket index reply random =>
      obtain ⟨waiting, cache, flight, hsend, rfl⟩ := System.step_sendMSHRQueuePacket h
      exact hconserved.sendMSHRQueuePacket hsound hsend
  | handleTimingRes pkt random =>
      obtain ⟨cache, hres, rfl⟩ := System.step_handleTimingRes h
      exact hconserved.handleTimingRes hsound hres
  | recvTimingResp pkt random =>
      obtain ⟨cache, hresp, rfl⟩ := System.step_recvTimingResp h
      exact hconserved.recvTimingResp hsound hresp

theorem run_conserved {writeAllocator : Option WriteAllocator} {labels : List (Label config)}
    {final : System config} (hlabels : ∀ label ∈ labels, plainStep label = true)
    (hrun : Transition.run System.step (System.new config writeAllocator) labels = .ok final) :
    final.cache.Sound ∧ Conserved final.accepted [] final.cache :=
  Transition.run_invariant (fun label => plainStep label = true) step_conserved hlabels hrun
    ⟨sound_new config writeAllocator, conserved_new config writeAllocator⟩

/-- How often a packet occurs among the targets and the deferred targets. -/
def occurrences (mshr : Mshr) (ptr : Nat) : Nat :=
  (mshr.targets.list ++ mshr.deferredTargets.list).countP fun target => target.pkt.ptr == ptr

theorem count_ptrs (mshr : Mshr) (ptr : Nat) : (ptrs mshr).count ptr = occurrences mshr ptr := by
  unfold ptrs Mshr.waiting occurrences
  rw [List.map_map, List.count_eq_countP, List.countP_map]
  rfl

/-- How often `makeTimingResponse` was applied to a packet. -/
def answers (cache : Cache config) (ptr : Nat) : Nat :=
  cache.responses.countP fun resp => resp.ptr == ptr

theorem count_responses (cache : Cache config) (ptr : Nat) :
    (cache.responses.map Packet.ptr).count ptr = answers cache ptr := by
  rw [List.count_eq_countP, List.countP_map]
  rfl

/-- A packet sits in no MSHR when no allocated one holds it: free entries are empty. -/
theorem occurrences_of_allocated {cache : Cache config} (hsound : Sound cache) {ptr : Nat}
    {index : Fin config.mshrs}
    (h : index ∈ cache.mshrQueue.allocatedList →
      occurrences (cache.mshrQueue.entries index) ptr = 0) :
    occurrences (cache.mshrQueue.entries index) ptr = 0 := by
  obtain hfree | hused := hsound.represents.partition.complete index
  · rw [← count_ptrs, ptrs, hsound.free index hfree]
    rfl
  · exact h hused

/-- Every accepted packet is an object of its own, and it is either answered, once,
and in no MSHR, or not answered and once in exactly one allocated MSHR. -/
theorem accepted_is_answered_or_waits_once {writeAllocator : Option WriteAllocator}
    {labels : List (Label config)} {final : System config}
    (hlabels : ∀ label ∈ labels, plainStep label = true)
    (hrun : Transition.run System.step (System.new config writeAllocator) labels = .ok final) :
    (final.accepted.map Packet.ptr).Nodup ∧ ∀ pkt ∈ final.accepted,
      (answers final.cache pkt.ptr = 1 ∧
        ∀ index, occurrences (final.cache.mshrQueue.entries index) pkt.ptr = 0) ∨
      (answers final.cache pkt.ptr = 0 ∧ ∃ index ∈ final.cache.mshrQueue.allocatedList,
        occurrences (final.cache.mshrQueue.entries index) pkt.ptr = 1 ∧
        ∀ other, other ≠ index →
          occurrences (final.cache.mshrQueue.entries other) pkt.ptr = 0) := by
  obtain ⟨hsound, hconserved⟩ := run_conserved hlabels hrun
  refine ⟨hconserved.distinct, ?_⟩
  intro pkt hpkt
  have hone : (final.accepted.map Packet.ptr).count pkt.ptr = 1 :=
    List.count_eq_one_of_mem hconserved.distinct (List.mem_map_of_mem hpkt)
  rw [hconserved.balance.count_eq, List.map_nil, List.nil_append, List.count_append,
    count_responses] at hone
  have hcases : (answers final.cache pkt.ptr = 1 ∧
      (heldPtrs final.cache.mshrQueue).count pkt.ptr = 0) ∨
      (answers final.cache pkt.ptr = 0 ∧
        (heldPtrs final.cache.mshrQueue).count pkt.ptr = 1) := by omega
  obtain ⟨hanswered, hnone⟩ | ⟨hanswered, hheld⟩ := hcases
  · refine .inl ⟨hanswered, fun index => occurrences_of_allocated hsound fun hindex => ?_⟩
    rw [← count_ptrs, List.count_eq_zero]
    intro hmem
    exact List.count_eq_zero.mp hnone (List.mem_flatMap.mpr ⟨index, hindex, hmem⟩)
  · obtain ⟨index, hindex, hcount, hrest⟩ :=
      SlotPool.holder_of_count_eq_one hsound.represents.partition.used_nodup hheld
    rw [count_ptrs] at hcount
    refine .inr ⟨hanswered, index, hindex, hcount, fun other hne => ?_⟩
    apply occurrences_of_allocated hsound
    intro hother
    rw [← count_ptrs]
    exact hrest other hother hne

/-- A read misses and is sent, a write to its line arrives before the response and
is deferred, the response comes back, and a third request misses elsewhere. -/
def deferredThenAnswered : List (Label simL0Params) :=
  let request addr := Request.physical addr 4 0 0
  let way := simL0Params.geometry.firstWay
  [.recvTimingReq (Packet.ofRequest 0 (request 0x200) .readReq) way,
    .sendMSHRQueuePacket ⟨0, by decide⟩ none way,
    .recvTimingReq (Packet.ofRequest 0 (request 0x204) .writeReq) way,
    .handleTimingRes (missPacket simL0Params ⟨0, by decide⟩ (request 0x200) 0) way,
    .recvTimingReq (Packet.ofRequest 0 (request 0x600) .readReq) way]

theorem accepted_is_answered_or_waits_once_deferred :
    ∃ final, Transition.run System.step (System.new simL0Params none) deferredThenAnswered =
        .ok final ∧
      final.accepted.map (fun pkt => answers final.cache pkt.ptr) = [1, 1, 0] ∧
      (final.accepted.map Packet.ptr).Nodup := by
  obtain ⟨final, hrun, hseen⟩ := exists_ok_of_observed
    (show ((Transition.run System.step (System.new simL0Params none)
      deferredThenAnswered).toOption.map fun final =>
        final.accepted.map fun pkt => answers final.cache pkt.ptr) =
      some [1, 1, 0] by decide +kernel)
  exact ⟨final, hrun, hseen, (accepted_is_answered_or_waits_once (by decide +kernel) hrun).1⟩

end KuiperCache.Conservation
