import KuiperCache.Cache.FlowControl
import KuiperCache.Cache.LineFill

/-! Orderly runs: plain cacheable requests to the address they ask for, each inside its
line and no maintenance, hardware prefetches of this kind, and sends that are answered
at once.  A step of such a run can only fail for want of a free MSHR or of a free way,
and it says so exactly when one of them is missing. -/
namespace KuiperCache.Shortage

open Checked Cache MissTracking

variable {config : CacheConfig}

/-- A cacheable packet at the address of its own request, which is no maintenance
operation, and inside one line. -/
def orderly (config : CacheConfig) (pkt : Packet) : Bool :=
  atRequest pkt && !pkt.req.isCacheMaintenance && pkt.withinLine config.blkSize

/-- Reads and writes and prefetches that are orderly, and sends that are answered. -/
def orderlyStep : Label config → Bool
  | .recvTimingReq pkt _ => pkt.cmd.isPlain && !pkt.cacheResponding && orderly config pkt
  | .getNextQueueEntry prefetch =>
      prefetch.all fun pkt => pkt.cmd == .hardPFReq && orderly config pkt
  | .sendMSHRQueuePacket _ reply _ => reply.isSome
  | .handleTimingRes .. => false
  | .recvTimingResp .. => false

/-- Some MSHR waits for the line of the packet. -/
def awaited (cache : Cache config) (pkt : Packet) : Bool :=
  cache.mshrQueue.allocatedList.any fun index =>
    (cache.mshrQueue.entries index).blkAddr == pkt.getBlockAddr config.blkSize &&
      (cache.mshrQueue.entries index).isSecure == pkt.isSecure

/-- What a plain request lacks: its line is neither cached nor awaited and no
MSHR is free. -/
def requestShortage (cache : Cache config) (pkt : Packet) : Option Assertion :=
  if config.isReadOnly && pkt.cmd.isWrite then some .readOnlyCache
  else if (cache.findBlock pkt.addr pkt.isSecure).isSome || awaited cache pkt ||
      !cache.mshrQueue.freeList.isEmpty then none
  else some .freeListEmpty

/-- Write coalescing holds the MSHR back. -/
def heldBack (cache : Cache config) (index : Fin config.mshrs) : Bool :=
  (cache.mshrQueue.entries index).targets.list.head?.any fun first =>
    (cache.coalesceDelay index first.pkt).1

/-- What an entry that is sent lacks: a place for its line. -/
def sendShortage (cache : Cache config) (index : Fin config.mshrs) : Option Assertion :=
  if !cache.mshrQueue.readyList.contains index then some .mshrExpected
  else if heldBack cache index then none
  else lineShortage cache.tags (cache.mshrQueue.entries index).blkAddr

def shortage (system : System config) : Label config → Option Assertion
  | .recvTimingReq pkt _ => requestShortage system.cache pkt
  | .sendMSHRQueuePacket index _ _ => sendShortage system.cache index
  | _ => none

/-- What holds of the cache in every orderly run. -/
structure Ready (cache : Cache config) : Prop where
  sound : Sound cache
  tracked : Tracked cache
  prompt : Entrywise (Mshr.Prompt config.blkSize) cache
  blank : Blank cache.tags

theorem ready_new (config : CacheConfig) (writeAllocator : Option WriteAllocator) :
    Ready (Cache.new config writeAllocator) :=
  ⟨sound_new config writeAllocator, tracked_new config writeAllocator,
    entrywise_new config writeAllocator, fun _ _ _ => rfl⟩

theorem Ready.kept {before after : Cache config} (h : Ready before) (hkept : Kept before after) :
    Ready after :=
  ⟨h.sound.touched hkept.toTouched, h.tracked.kept hkept, h.prompt.sameQueue hkept.mshrQueue,
    h.blank.kept hkept.lines⟩

theorem Ready.held {cache : Cache config} (h : Ready cache) : Entrywise Held cache :=
  fun index hindex => (h.tracked.waits index hindex).held

theorem orderly_eq {pkt : Packet} (h : orderly config pkt = true) :
    atRequest pkt = true ∧ pkt.Orderly config.blkSize := by
  simp only [orderly, Bool.and_eq_true, Bool.not_eq_true'] at h
  exact ⟨h.1.1, h.1.2, h.2⟩

theorem allocOnFill_eq {cmd : MemCmd} (h : cmd.isPlain = true ∨ cmd = .hardPFReq) :
    allocOnFill cmd = true := by
  obtain hplain | rfl := h
  · obtain rfl | rfl | rfl := MemCmd.isPlain_cases hplain
    · rfl
    · rfl
    · rfl
  · rfl

/-! The request side. -/

theorem permits_total (cache : Cache config) {pkt : Packet} (hrequest : pkt.cmd.isRequest = true)
    (blk : Option (BlkRef config.geometry)) :
    ∃ permitted, cache.permits pkt blk = .ok permitted := by
  cases blk with
  | none => exact ⟨false, rfl⟩
  | some ref =>
      simp only [permits, Packet.needsWritable, hrequest, check_true, ok_bind]
      exact ⟨_, rfl⟩

theorem access_total {cache : Cache config} (hempty : cache.writeBuffer.allocatedList = [])
    {pkt : Packet} (hplain : pkt.cmd.isPlain = true)
    (hwritable : (config.isReadOnly && pkt.cmd.isWrite) = false)
    (random : Fin config.geometry.assoc) :
    ∃ accessed, cache.access pkt random = .ok accessed := by
  obtain ⟨-, hwriteback, hevict, hclean, hllsc, -, -, -, hrequest⟩ := isPlain_attributes hplain
  have hbuffer : (cache.accessBlock pkt).2.writeBuffer.allocatedList = [] := by
    rw [(accessBlock_kept cache pkt).writeBuffer, hempty]
  obtain ⟨permitted, hpermits⟩ :=
    permits_total (cache.accessBlock pkt).2 hrequest (cache.accessBlock pkt).1
  have hline : ∃ accessed,
      (cache.accessBlock pkt).2.accessLine pkt (cache.accessBlock pkt).1 = .ok accessed := by
    rw [accessLine, hpermits, ok_bind]
    cases permitted with
    | true =>
        simp only [satisfyRequest, (isPlain_access hplain).1, check_true, ok_bind, ↓reduceIte]
        exact ⟨_, rfl⟩
    | false =>
        simp only [hllsc, Bool.and_false, Bool.false_and, Bool.false_eq_true, ↓reduceIte]
        exact ⟨_, rfl⟩
  obtain ⟨accessed, hline⟩ := hline
  refine ⟨accessed, ?_⟩
  simp only [access, accessBase, hrequest, hwritable, hwriteback, hevict, hclean, Bool.not_false,
    check_true, ok_bind, meetWriteBuffer_eq hbuffer, Bool.false_eq_true, ↓reduceIte, hline,
    Bool.or_self]
  rfl

/-- A plain access is satisfied exactly when it finds a block. -/
theorem Ready.access {cache : Cache config} (h : Ready cache) {pkt : Packet}
    (hplain : pkt.cmd.isPlain = true) {random : Fin config.geometry.assoc}
    {accessed : Accessed config} (haccess : cache.access pkt random = .ok accessed) :
    accessed.pkt = pkt ∧ accessed.blk = cache.findBlock pkt.addr pkt.isSecure ∧
      Ready accessed.cache ∧ cache.Kept accessed.cache ∧
      accessed.satisfied = (cache.findBlock pkt.addr pkt.isSecure).isSome := by
  obtain ⟨hpkt, hblk, hkept, hpermits⟩ := access_plain h.sound.writeBuffer.1 hplain haccess
  refine ⟨hpkt, hblk, h.kept hkept, hkept, ?_⟩
  cases hfind : cache.tags.findBlock pkt.addr pkt.isSecure with
  | none =>
      rw [findBlock, hfind, Option.map_none, Cache.permits, Except.ok.injEq] at hpermits
      rw [findBlock, hfind, ← hpermits]
      rfl
  | some way =>
      rw [findBlock, hfind, Option.map_some] at hpermits
      rw [findBlock, hfind, h.tracked.permits (Tags.findBlock_eq_some hfind) hpermits]
      rfl

/-- With a free entry the allocation goes through: all entries are due, so the new
one goes to the end of the ready list. -/
theorem Ready.allocateMissBuffer {cache : Cache config} (h : Ready cache)
    (hfree : cache.mshrQueue.freeList ≠ []) {pkt : Packet} (hpkt : pkt.Orderly config.blkSize)
    (hcmd : pkt.cmd.isPlain = true ∨ pkt.cmd = .hardPFReq) (schedSend : Bool) :
    ∃ result, cache.allocateMissBuffer pkt curTick schedSend = .ok result := by
  obtain ⟨index, rest, hcons⟩ := List.exists_cons_of_ne_nil hfree
  have hempty := h.sound.free index (by simp [hcons])
  have hnone : ((cache.mshrQueue.entries index).getNumTargets == 0) = true := by
    rw [Mshr.getNumTargets_eq_length, hempty]
    rfl
  obtain ⟨mshr, hmshr, -⟩ := Mshr.prompt_allocate hempty hpkt hcmd curTick cache.order
  have hready : mshr.readyTime = curTick := (Mshr.allocate_spec hmshr).readyTime
  have hlast : ((cache.mshrQueue.toQueue.setEntry index mshr).readyList.getLast?.all fun last =>
      decide ((cache.mshrQueue.toQueue.setEntry index mshr).readyTime last ≤
        (cache.mshrQueue.toQueue.setEntry index mshr).readyTime index)) = true := by
    have hdue : ∀ last ∈ cache.mshrQueue.readyList,
        (cache.mshrQueue.toQueue.setEntry index mshr).readyTime last = curTick := by
      intro last hmem
      simp only [Queue.readyTime, Queue.setEntry, Function.update_apply]
      split
      · exact hready
      · exact h.sound.due last hmem
    rw [Option.all_eq_true]
    intro last hmem
    rw [hdue last (List.mem_of_getLast? hmem)]
    exact decide_eq_true (Nat.zero_le _)
  simp only [Cache.allocateMissBuffer, MshrQueue.allocate, hcons, hnone, allocOnFill_eq hcmd,
    hmshr, Queue.addToReadyList, hlast, check_true, ok_bind, ↓reduceIte]
  exact ⟨_, rfl⟩

/-- A miss fails for want of an MSHR and for nothing else. -/
theorem Ready.handleTimingReqMiss {cache : Cache config} (h : Ready cache) {pkt : Packet}
    (hplain : pkt.cmd.isPlain = true) (hpkt : pkt.Orderly config.blkSize) :
    failure (cache.handleTimingReqMiss pkt none) =
      if awaited cache pkt || !cache.mshrQueue.freeList.isEmpty then none
      else some .freeListEmpty := by
  obtain ⟨hdemand, hwriteback, hevict, hclean, -, -, -, -, -⟩ := isPlain_attributes hplain
  obtain ⟨found, hfound⟩ :=
    h.held.findMatch (pkt.getBlockAddr config.blkSize) pkt.isSecure false
  have hupdated := h.kept (updateWriteMode_kept cache pkt)
  have hqueue := (updateWriteMode_kept cache pkt).mshrQueue
  simp only [Cache.handleTimingReqMiss, hfound, ok_bind, Option.all_none, Bool.or_true, check_true]
  cases found with
  | some index =>
      obtain ⟨hmem, haddr, hsecure⟩ := findMatch_eq_some hfound
      have hawaited : awaited cache pkt = true := by
        rw [awaited, List.any_eq_true]
        exact ⟨index, hmem, by simp [haddr, hsecure]⟩
      have hmem' : index ∈ (cache.updateWriteMode pkt).mshrQueue.allocatedList := hqueue ▸ hmem
      obtain ⟨mshr, hmshr, -⟩ := (hupdated.prompt index hmem').allocateTarget
        (hupdated.held index hmem') hpkt hplain curTick (cache.updateWriteMode pkt).order
      simp only [hawaited, Bool.true_or, ↓reduceIte, coalesce, hwriteback, hevict, hclean,
        Bool.not_false, check_true, ok_bind, Bool.false_eq_true, allocOnFill_eq (.inl hplain),
        hmshr]
      rfl
  | none =>
      have hunasked : awaited cache pkt = false := by
        rw [Bool.eq_false_iff, Ne, awaited, List.any_eq_true]
        rintro ⟨index, hmem, hsame⟩
        simp only [Bool.and_eq_true, beq_iff_eq] at hsame
        exact findMatch_eq_none hfound index hmem (by simp) hsame
      simp only [hunasked, Bool.false_or, Bool.not_eq_true']
      by_cases hfree : cache.mshrQueue.freeList = []
      · rw [startMiss_starved (by rw [hqueue, hfree]) hdemand, hfree]
        rfl
      · obtain ⟨⟨index, allocated⟩, hallocate⟩ :=
          hupdated.allocateMissBuffer (by rw [hqueue]; exact hfree) hpkt (.inl hplain) true
        rw [if_pos (by simpa using hfree), startMiss, hdemand, if_neg Bool.false_ne_true]
        simp only [closeLine, ok_bind, hallocate]
        rfl

/-- A plain request fails for want of an MSHR and for nothing else. -/
theorem Ready.recvTimingReq {cache : Cache config} (h : Ready cache) {pkt : Packet}
    (hplain : pkt.cmd.isPlain = true) (hresponding : pkt.cacheResponding = false)
    (hpkt : pkt.Orderly config.blkSize) (random : Fin config.geometry.assoc) :
    failure (cache.recvTimingReq pkt random) = requestShortage cache pkt := by
  obtain ⟨-, -, -, -, -, hunlocked, hneeds, hcmd, hrequest⟩ := isPlain_attributes hplain
  have hreopen : cache.reopenLine pkt = .ok cache := by
    rw [reopenLine, if_pos (by simpa using hcmd)]
  unfold Cache.recvTimingReq requestShortage
  simp only [hresponding, (isPlain_access hplain).1, hreopen, Bool.not_false, check_true, ok_bind]
  by_cases hreadOnly : (config.isReadOnly && pkt.cmd.isWrite) = true
  · have hrefused : cache.access pkt random = .error .readOnlyCache := by
      simp only [Cache.access, accessBase, hrequest, hreadOnly, check_true, ok_bind, Bool.not_true,
        check_false, error_bind]
    rw [hrefused, if_pos hreadOnly]
    rfl
  · rw [if_neg hreadOnly]
    obtain ⟨accessed, haccess⟩ := access_total h.sound.writeBuffer.1 hplain
      (by simpa using hreadOnly) random
    obtain ⟨hsame, hblk, hready, hkept, hsatisfied⟩ := h.access hplain haccess
    rw [haccess, ok_bind, hsame, hblk, hsatisfied]
    cases hfind : cache.findBlock pkt.addr pkt.isSecure with
    | some ref =>
        have hmade : pkt.makeTimingResponse =
            .ok { pkt with cmd := pkt.cmd.responseCommand } := by
          rw [Packet.makeTimingResponse, hneeds, hrequest]
          rfl
        simp only [Option.isSome_some, ↓reduceIte, Bool.true_or, handleTimingReqHit, hunlocked,
          Bool.not_false, ok_bind, hneeds, hmade]
        rfl
    | none =>
        have hmiss := hready.handleTimingReqMiss hplain hpkt
        have hsameQueue : awaited accessed.cache pkt = awaited cache pkt := by
          rw [awaited, hkept.mshrQueue]
          rfl
        rw [hsameQueue, hkept.mshrQueue] at hmiss
        simp only [Option.isSome_none, Bool.false_eq_true, ↓reduceIte, Bool.false_or]
        rw [← hmiss]
        cases accessed.cache.handleTimingReqMiss pkt none <;> rfl

/-! The memory side. -/

/-- The write buffer is empty and an entry is free whenever the prefetcher may be
consulted, so nothing fails. -/
theorem Ready.getNextQueueEntry {cache : Cache config} (h : Ready cache) {prefetch : Option Packet}
    (hprefetch : ∀ pkt, prefetch = some pkt → pkt.cmd = .hardPFReq ∧ orderly config pkt = true) :
    ∃ result, cache.getNextQueueEntry prefetch = .ok result := by
  obtain ⟨hallocated, hready⟩ := h.sound.writeBuffer
  have hnoWrite : cache.writeBuffer.getNext curTick = none := by
    rw [Queue.getNext, hready]
  unfold Cache.getNextQueueEntry
  rw [hnoWrite]
  cases cache.mshrQueue.getNext curTick with
  | some miss =>
      simp only [nextMiss, Queue.findPending, hready, findFirst, ok_bind]
      exact ⟨_, rfl⟩
  | none =>
      dsimp only
      split
      · rename_i hmay
        simp only [Bool.and_eq_true] at hmay
        cases prefetch with
        | none => exact ⟨_, rfl⟩
        | some pkt =>
            obtain ⟨hcmd, horderly⟩ := hprefetch pkt rfl
            obtain ⟨found, hfound⟩ :=
              h.held.findMatch (pkt.getBlockAddr config.blkSize) pkt.isSecure true
            obtain ⟨⟨index, allocated⟩, hallocate⟩ := h.allocateMissBuffer
              (freeList_of_canPrefetch h.sound hmay.1.2) (orderly_eq horderly).2 (.inr hcmd) false
            simp only [allocatePrefetch, hfound, findMatch_writeBuffer hallocated, ok_bind,
              hallocate]
            split
            · exact ⟨_, rfl⟩
            · split
              · exact ⟨_, rfl⟩
              · exact ⟨_, rfl⟩
      · exact ⟨_, rfl⟩

/-- The response to the read sent for an MSHR is for the line of the MSHR. -/
structure Answers (config : CacheConfig) (cache fresh : Cache config) (index : Fin config.mshrs)
    (resp : Packet) : Prop where
  line : IsLine config resp
  pop : popMSHR resp = (.ok index : Except Assertion (Fin config.mshrs))
  addr : resp.addr = (cache.mshrQueue.entries index).blkAddr
  secure : resp.isSecure = (cache.mshrQueue.entries index).isSecure
  sound : Sound fresh
  lines : ∀ set way, CacheBlk.LineKept (cache.tags.blks set way) (fresh.tags.blks set way)
  entry : fresh.mshrQueue = cache.mshrQueue.setEntry index
    { cache.mshrQueue.entries index with isForward := false }

theorem Ready.handleTimingRes_answers {cache issued : Cache config} (h : Ready cache)
    {index : Fin config.mshrs} (hmem : index ∈ cache.mshrQueue.allocatedList)
    (hserving : Serving cache issued index
      { cache.mshrQueue.entries index with isForward := false } [])
    {first : Target} {rest : List Target}
    (hcons : (cache.mshrQueue.entries index).targets.list = first :: rest) (ptr : Nat)
    (data : List UInt8) :
    ∃ fresh resp, Answers config cache fresh index resp ∧ fresh.tags = issued.tags ∧
      ∀ random, issued.handleTimingRes
        { missPacket config index first.pkt.req ptr with data } random =
          fresh.recvTimingResp resp random := by
  have hwaits := h.tracked.waits index hmem
  have hfirst : first.unmarked ∈ (cache.mshrQueue.entries index).waiting := by
    simp [Mshr.waiting, hcons]
  obtain ⟨hat, hline, hsecure⟩ := hwaits.line _ hfirst
  obtain ⟨-, haddr, hreq⟩ := atRequest_eq hat
  rw [Target.unmarked_pkt] at hline hsecure haddr hreq
  rw [haddr] at hline
  have hsent : missPacket config index first.pkt.req ptr =
      { Packet.ofBlock ptr first.pkt.req .readReq config.blkSize with
        data := (missPacket config index first.pkt.req ptr).data
        senderState := [.mshr index] } := by
    rw [missPacket, Packet.allocate_eq]
    rfl
  rw [hsent]
  refine ⟨issued.newPtr.2, _, ⟨?_, ?_, hline, hreq.symm.trans hsecure, ?_, ?_, ?_⟩, rfl,
    fun random => rfl⟩
  · exact ⟨rfl, Geometry.lineAddr_lineAddr config.geometry _, rfl, rfl, rfl⟩
  · simp [popMSHR]
  · exact (h.sound.serving hmem hserving rfl rfl).touched (newPtr_kept issued).toTouched
  · exact hserving.kept.lines
  · exact (newPtr_kept issued).mshrQueue.trans hserving.mshrQueue

theorem Answers.entries {cache fresh : Cache config} {index : Fin config.mshrs} {resp : Packet}
    (h : Answers config cache fresh index resp) :
    fresh.mshrQueue.entries index = { cache.mshrQueue.entries index with isForward := false } := by
  rw [h.entry, MshrQueue.setEntry_entries_self]

theorem Answers.absent {cache fresh : Cache config} {index : Fin config.mshrs} {resp : Packet}
    (h : Answers config cache fresh index resp) (htracked : Tracked cache)
    (hmem : index ∈ cache.mshrQueue.allocatedList) :
    fresh.findBlock resp.addr resp.isSecure = none := by
  rw [Cache.findBlock, Tags.findBlock_kept h.lines, h.addr, h.secure, htracked.absent index hmem]
  rfl

/-- The answer fails only if the line has no place. -/
theorem Ready.answered {cache fresh : Cache config} (h : Ready cache) {index : Fin config.mshrs}
    (hmem : index ∈ cache.mshrQueue.allocatedList) {resp : Packet}
    (hresp : Answers config cache fresh index resp) (random : Fin config.geometry.assoc) :
    failure (fresh.recvTimingResp resp random) =
      lineShortage cache.tags (cache.mshrQueue.entries index).blkAddr := by
  have hentry := hresp.entries
  rw [← hresp.addr, ← lineShortage_kept hresp.lines]
  refine recvTimingResp_line hresp.sound (h.blank.kept hresp.lines) hresp.line hresp.pop ?_ ?_ ?_
    (hresp.absent h.tracked hmem) random
  · rw [hentry]
    exact (h.prompt index hmem).issued
  · rw [hentry]
    exact (h.tracked.waits index hmem).held
  · rw [hentry]

theorem heldBack_eq {cache : Cache config} {index : Fin config.mshrs} {first : Target}
    (hfirst : (cache.mshrQueue.entries index).getTarget = .ok first) :
    heldBack cache index = (cache.coalesceDelay index first.pkt).1 := by
  obtain ⟨rest, hcons⟩ := Mshr.getTarget_eq_ok.mp hfirst
  rw [heldBack, hcons]
  rfl

theorem heldBack_of_none {cache : Cache config} (hnone : cache.writeAllocator = none)
    (index : Fin config.mshrs) : heldBack cache index = false := by
  unfold heldBack coalesceDelay
  rw [hnone]
  cases (cache.mshrQueue.entries index).targets.list.head? <;> rfl

/-- The packet built for an entry that is not held back. -/
theorem Ready.createMissPacket {cache after : Cache config} (h : Ready cache)
    {index : Fin config.mshrs} (hmem : index ∈ cache.mshrQueue.allocatedList) {first : Target}
    (hfirst : (cache.mshrQueue.entries index).getTarget = .ok first) (hkept : Kept cache after) :
    after.createMissPacket first.pkt (after.findBlock (cache.mshrQueue.entries index).blkAddr
        (cache.mshrQueue.entries index).isSecure) =
      .ok ((Packet.ofBlock after.nextPtr first.pkt.req .readReq config.blkSize).allocate,
        after.newPtr.2) := by
  obtain ⟨rest, hcons⟩ := Mshr.getTarget_eq_ok.mp hfirst
  have hneeds := ((h.prompt index hmem).serviceable first (by simp [hcons])).attributes.2.1
  have habsent : after.findBlock (cache.mshrQueue.entries index).blkAddr
      (cache.mshrQueue.entries index).isSecure = none := by
    rw [Cache.findBlock, Tags.findBlock_kept hkept.lines, h.tracked.absent index hmem]
    rfl
  have haligned : ((Packet.ofBlock after.nextPtr first.pkt.req .readReq config.blkSize).addr ==
      (Packet.ofBlock after.nextPtr first.pkt.req .readReq config.blkSize).getBlockAddr
        config.blkSize) = true :=
    beq_iff_eq.mpr (Geometry.lineAddr_lineAddr config.geometry _).symm
  simp only [habsent, Cache.createMissPacket, hneeds, Option.all_none, check_true, ok_bind, newPtr,
    haligned]
  rfl

/-- The cache with the packet for an entry on its way. -/
def issued (after : Cache config) (index : Fin config.mshrs) : Cache config :=
  { after.newPtr.2 with
    mshrQueue := after.newPtr.2.mshrQueue.setEntry index
      { after.newPtr.2.mshrQueue.entries index with isForward := false } }

theorem issued_serving {cache after : Cache config} (hkept : Kept cache after)
    (index : Fin config.mshrs) : Serving cache (issued after index) index
      { cache.mshrQueue.entries index with isForward := false } [] := by
  have hfresh := hkept.trans (newPtr_kept after)
  have hserving := (Serving.of_kept hfresh index).trans (Serving.setEntry after.newPtr.2 index
    { cache.mshrQueue.entries index with isForward := false })
  rw [issued, hfresh.mshrQueue]
  rw [hfresh.mshrQueue] at hserving
  exact hserving

/-- The packet of an entry that is not held back goes out. -/
theorem Ready.issueMSHR_eq {cache after : Cache config} (h : Ready cache)
    {index : Fin config.mshrs} (hmem : index ∈ cache.mshrQueue.allocatedList) {first : Target}
    (hfirst : (cache.mshrQueue.entries index).getTarget = .ok first)
    (hdelay : cache.coalesceDelay index first.pkt = (false, after)) :
    cache.issueMSHR index =
      .ok (some (missPacket config index first.pkt.req after.nextPtr), issued after index) := by
  have hkept := coalesceDelay_kept cache index first.pkt
  rw [hdelay] at hkept
  have hentry : after.mshrQueue.entries index = cache.mshrQueue.entries index := by
    rw [hkept.mshrQueue]
  simp only [issueMSHR, hfirst, hdelay, Bool.false_eq_true, ↓reduceIte, hentry,
    h.createMissPacket hmem hfirst hkept, ok_bind]
  rw [← hentry]
  rfl

/-- An entry that is not held back is answered with the given data. -/
theorem Ready.sendMSHRQueuePacket_eq {cache after : Cache config} (h : Ready cache)
    {index : Fin config.mshrs} (hmem : index ∈ cache.mshrQueue.allocatedList) {first : Target}
    (hfirst : (cache.mshrQueue.entries index).getTarget = .ok first)
    (hdelay : cache.coalesceDelay index first.pkt = (false, after)) (data : List UInt8)
    (random : Fin config.geometry.assoc) :
    cache.sendMSHRQueuePacket index (some data) random = (do
      let next ← (issued after index).handleTimingRes
        { missPacket config index first.pkt.req after.nextPtr with data } random
      pure (true, next, none)) := by
  rw [Cache.sendMSHRQueuePacket, h.issueMSHR_eq hmem hfirst hdelay]
  rfl

/-- The value returned says whether the entry was held back. -/
theorem Ready.sendMSHRQueuePacket_waiting {cache next : Cache config} (h : Ready cache)
    {index : Fin config.mshrs} (hmem : index ∈ cache.mshrQueue.allocatedList) {data : List UInt8}
    {random : Fin config.geometry.assoc} {waiting : Bool} {flight : Option Packet}
    (hsend : cache.sendMSHRQueuePacket index (some data) random = .ok (waiting, next, flight)) :
    waiting = !heldBack cache index := by
  obtain ⟨first, rest, hcons⟩ := List.exists_cons_of_ne_nil (h.tracked.waits index hmem).held
  have hfirst : (cache.mshrQueue.entries index).getTarget = .ok first :=
    Mshr.getTarget_eq_ok.mpr ⟨rest, hcons⟩
  rw [heldBack_eq hfirst]
  cases hdelay : cache.coalesceDelay index first.pkt with
  | mk delayed after =>
      cases delayed with
      | true =>
          rw [Cache.sendMSHRQueuePacket, issueMSHR_eq_none.mpr ⟨first, hfirst, hdelay⟩] at hsend
          exact (Prod.mk.inj (Except.ok.inj hsend)).1.symm
      | false =>
          simp only [h.sendMSHRQueuePacket_eq hmem hfirst hdelay, bind_eq_ok, pure_eq_ok,
            Prod.mk.injEq] at hsend
          obtain ⟨answered, -, hwaiting, -⟩ := hsend
          exact hwaiting.symm

/-- An entry that is sent is held back, or fails only if its line has no place. -/
theorem Ready.sendMSHRQueuePacket {cache : Cache config} (h : Ready cache)
    {index : Fin config.mshrs} (hmem : index ∈ cache.mshrQueue.allocatedList) (data : List UInt8)
    (random : Fin config.geometry.assoc) :
    failure (cache.sendMSHRQueuePacket index (some data) random) =
      if heldBack cache index then none
      else lineShortage cache.tags (cache.mshrQueue.entries index).blkAddr := by
  obtain ⟨first, rest, hcons⟩ := List.exists_cons_of_ne_nil (h.tracked.waits index hmem).held
  have hfirst : (cache.mshrQueue.entries index).getTarget = .ok first :=
    Mshr.getTarget_eq_ok.mpr ⟨rest, hcons⟩
  have hkept := coalesceDelay_kept cache index first.pkt
  rw [heldBack_eq hfirst]
  cases hdelay : cache.coalesceDelay index first.pkt with
  | mk delayed after =>
      rw [hdelay] at hkept
      cases delayed with
      | true =>
          rw [Cache.sendMSHRQueuePacket, issueMSHR_eq_none.mpr ⟨first, hfirst, hdelay⟩]
          rfl
      | false =>
          obtain ⟨fresh, resp, hresp, -, hissued⟩ := h.handleTimingRes_answers hmem
            (issued_serving hkept index) hcons after.nextPtr data
          rw [h.sendMSHRQueuePacket_eq hmem hfirst hdelay, hissued random, failure_bind_pure,
            h.answered hmem hresp random]
          rfl

/-! Orderly runs. -/

/-- A miss on an absent line keeps every line. -/
theorem handleTimingReqMiss_lines {cache next : Cache config} {pkt : Packet}
    (h : cache.handleTimingReqMiss pkt none = .ok next) (set : Fin config.geometry.numSets)
    (way : Fin config.geometry.assoc) :
    CacheBlk.LineKept (cache.tags.blks set way) (next.tags.blks set way) := by
  obtain ⟨found, updated, hkept, -, hmiss⟩ := handleTimingReqMiss_cases h
  refine (hkept.lines set way).trans ?_
  cases found with
  | some index =>
      obtain ⟨-, hsame⟩ | ⟨mshr, -, hserving⟩ := coalesce_cases hmiss
      · exact hsame.lines set way
      · exact hserving.kept.lines set way
  | none =>
      obtain ⟨-, middle, index, mshr, -, hsame, -, hmissed, -⟩ := startMiss_cases hmiss
      rw [hsame rfl] at hmissed
      exact hmissed.kept.lines set way

/-- A plain request keeps every line. -/
theorem Ready.recvTimingReq_lines {cache next : Cache config} (h : Ready cache) {pkt : Packet}
    (hplain : pkt.cmd.isPlain = true) {random : Fin config.geometry.assoc}
    (hreq : cache.recvTimingReq pkt random = .ok next) (set : Fin config.geometry.numSets)
    (way : Fin config.geometry.assoc) :
    CacheBlk.LineKept (cache.tags.blks set way) (next.tags.blks set way) := by
  obtain ⟨seen, handled, hkept, rfl, houtcome⟩ := recvTimingReq_plain h.sound hplain hreq
  have hhandled : CacheBlk.LineKept (seen.tags.blks set way) (handled.tags.blks set way) := by
    obtain ⟨-, hfinished⟩ | ⟨hrefused, hmiss⟩ := houtcome
    · exact hfinished.kept.lines set way
    · rw [Cache.findBlock, h.tracked.absent_of_refused hrefused] at hmiss
      exact handleTimingReqMiss_lines hmiss set way
  refine (hkept.lines set way).trans ?_
  split
  · exact hhandled
  · exact hhandled

theorem Ready.recvTimingReq_next {cache next : Cache config} (h : Ready cache) {pkt : Packet}
    (hplain : pkt.cmd.isPlain = true) (hpkt : orderly config pkt = true)
    {random : Fin config.geometry.assoc} (hreq : cache.recvTimingReq pkt random = .ok next) :
    Ready next := by
  obtain ⟨hat, horderly⟩ := orderly_eq hpkt
  have hprompt : Entrywise (Mshr.Prompt config.blkSize) next := by
    obtain ⟨seen, handled, hkept, rfl, houtcome⟩ := recvTimingReq_plain h.sound hplain hreq
    have hseen := h.kept hkept
    have hhandled : Entrywise (Mshr.Prompt config.blkSize) handled := by
      obtain ⟨-, hfinished⟩ | ⟨hrefused, hmiss⟩ := houtcome
      · exact hseen.prompt.sameQueue hfinished.kept.mshrQueue
      · rw [Cache.findBlock, h.tracked.absent_of_refused hrefused] at hmiss
        refine hseen.prompt.handleTimingReqMiss hseen.sound ?_ ?_ hmiss
        · intro mshr mshr' order hfree hallocate
          obtain ⟨fresh, hfresh, hprompt⟩ :=
            Mshr.prompt_allocate hfree horderly (.inl hplain) curTick order
          rw [allocOnFill_eq (.inl hplain), hfresh, Except.ok.injEq] at hallocate
          exact hallocate ▸ hprompt
        · intro index mshr order hfound hprompt hallocate
          obtain ⟨joined, hjoined, hprompt'⟩ := hprompt.allocateTarget
            (hseen.held index (findMatch_eq_some hfound).1) horderly hplain curTick order
          rw [allocOnFill_eq (.inl hplain), hjoined, Except.ok.injEq] at hallocate
          exact hallocate ▸ hprompt'
    split
    · exact hhandled
    · exact hhandled
  exact ⟨h.sound.recvTimingReq hreq, h.tracked.recvTimingReq h.sound hplain hat hreq, hprompt,
    h.blank.kept (h.recvTimingReq_lines hplain hreq)⟩

theorem Ready.getNextQueueEntry_next {cache next : Cache config} (h : Ready cache)
    {prefetch : Option Packet} {entry : Option (EntryRef config)}
    (hprefetch : ∀ pkt, prefetch = some pkt → pkt.cmd = .hardPFReq ∧ orderly config pkt = true)
    (hnext : cache.getNextQueueEntry prefetch = .ok (entry, next)) : Ready next := by
  obtain ⟨rfl, -⟩ | ⟨pkt, index, mshr, hpkt, -, -, -, -, hallocate, hmissed⟩ :=
    getNextQueueEntry_cases h.sound.writeBuffer.2 hnext
  · exact h
  · obtain ⟨hcmd, horderly⟩ := hprefetch pkt hpkt
    obtain ⟨fresh, hfresh, hprompt⟩ := Mshr.prompt_allocate hmissed.allocated.empty
      (orderly_eq horderly).2 (.inr hcmd) curTick cache.order
    rw [allocOnFill_eq (.inr hcmd), hfresh, Except.ok.injEq] at hallocate
    exact ⟨h.sound.getNextQueueEntry hnext, h.tracked.getNextQueueEntry h.sound
        (fun pkt hpkt => (orderly_eq (hprefetch pkt hpkt).2).1) hnext,
      h.prompt.missed h.sound hmissed (hallocate ▸ hprompt), h.blank.kept hmissed.kept.lines⟩

/-- An entry that was sent: held back, or freed with its line in a way that was
free. -/
theorem Ready.sendMSHRQueuePacket_cases {cache next : Cache config} (h : Ready cache)
    {index : Fin config.mshrs} {data : List UInt8} {random : Fin config.geometry.assoc}
    {waiting : Bool} {flight : Option Packet}
    (hsend : cache.sendMSHRQueuePacket index (some data) random = .ok (waiting, next, flight)) :
    index ∈ cache.mshrQueue.allocatedList ∧
      ((cache.writeAllocator ≠ none ∧ waiting = false ∧ Kept cache next) ∨
        waiting = true ∧ ∃ way free,
          MshrQueue.ReleasedAt cache.mshrQueue next.mshrQueue index free ∧
          (cache.tags.blks (config.geometry.extractSet (cache.mshrQueue.entries index).blkAddr)
            way).valid = false ∧
          Installed cache.tags next.tags (cache.mshrQueue.entries index).blkAddr
            (cache.mshrQueue.entries index).isSecure way) := by
  obtain ⟨target, htarget, hcase⟩ := Cache.sendMSHRQueuePacket_cases hsend
  obtain ⟨rest, hcons⟩ := Mshr.getTarget_eq_ok.mp htarget
  have hmem : index ∈ cache.mshrQueue.allocatedList := h.sound.mem_allocatedList (by simp [hcons])
  refine ⟨hmem, ?_⟩
  obtain ⟨hallocator, hwaiting, hkept⟩ | ⟨issued, ptr, hserving, hwaiting, hres⟩ := hcase
  · exact .inl ⟨hallocator, hwaiting, hkept⟩
  · obtain ⟨fresh, resp, hresp, -, hissued⟩ := h.handleTimingRes_answers hmem hserving hcons ptr
      data
    rw [hissued random] at hres
    have hprompt : Mshr.Prompt config.blkSize (fresh.mshrQueue.entries index) :=
      hresp.entries ▸ (h.prompt index hmem).issued
    have hforward : (fresh.mshrQueue.entries index).isForward = false := by rw [hresp.entries]
    obtain ⟨way, free, hreleased, hinvalid, hinstalled⟩ := recvTimingResp_installed
      hresp.line hresp.pop hprompt hforward (hresp.absent h.tracked hmem) hres
    rw [hresp.entry] at hreleased
    rw [hresp.addr] at hinvalid hinstalled
    rw [hresp.secure] at hinstalled
    refine .inr ⟨hwaiting, way, free, releasedAt_of_setEntry (by rfl) hreleased, ?_,
      installed_of_kept hresp.lines hinstalled⟩
    rw [← (hresp.lines _ _).valid]
    exact hinvalid

theorem Ready.sendMSHRQueuePacket_next {cache next : Cache config} (h : Ready cache)
    {index : Fin config.mshrs} {data : List UInt8} {random : Fin config.geometry.assoc}
    {waiting : Bool} {flight : Option Packet}
    (hsend : cache.sendMSHRQueuePacket index (some data) random = .ok (waiting, next, flight)) :
    Ready next := by
  have hsound := h.sound.sendMSHRQueuePacket hsend
  have htracked := h.tracked.sendMSHRQueuePacket h.sound hsend
  obtain ⟨hmem, ⟨-, -, hkept⟩ | ⟨-, way, free, hreleased, -, hinstalled⟩⟩ :=
    h.sendMSHRQueuePacket_cases hsend
  · exact h.kept hkept
  · refine ⟨hsound, htracked, ?_, h.blank.filled (.inr ⟨way, hinstalled⟩)⟩
    intro other hother
    obtain ⟨-, hold, hentry⟩ := h.sound.represents.released_cases hreleased hother
    rw [hentry]
    exact h.prompt other hold

theorem prefetch_orderly (ptr : Nat) {prefetch : Option Packet}
    (h : (prefetch.all fun pkt => pkt.cmd == .hardPFReq && orderly config pkt) = true)
    (pkt : Packet) (hpkt : (prefetch.map fun pkt => { pkt with ptr }) = some pkt) :
    pkt.cmd = .hardPFReq ∧ orderly config pkt = true := by
  rw [Option.map_eq_some_iff] at hpkt
  obtain ⟨original, rfl, rfl⟩ := hpkt
  simp only [Option.all_some, Bool.and_eq_true, beq_iff_eq] at h
  exact h

theorem step_ready (system : System config) (label : Label config) (next : System config)
    (hlabel : orderlyStep label = true) (h : Ready system.cache)
    (hstep : system.step label = .ok next) : Ready next.cache := by
  have hfresh := h.kept (newPtr_kept system.cache)
  cases label with
  | recvTimingReq pkt random =>
      simp only [orderlyStep, Bool.and_eq_true] at hlabel
      obtain ⟨cache, hreq, rfl⟩ := System.step_recvTimingReq hstep
      have hpkt : orderly config { pkt with ptr := system.cache.nextPtr } = true := hlabel.2
      exact hfresh.recvTimingReq_next (by exact hlabel.1.1) hpkt hreq
  | getNextQueueEntry prefetch =>
      obtain ⟨entry, cache, hnext, rfl⟩ := System.step_getNextQueueEntry hstep
      exact hfresh.getNextQueueEntry_next (prefetch_orderly _ hlabel) hnext
  | sendMSHRQueuePacket index reply random =>
      obtain ⟨data, rfl⟩ := Option.isSome_iff_exists.mp hlabel
      obtain ⟨waiting, cache, flight, hsend, rfl⟩ := System.step_sendMSHRQueuePacket hstep
      exact h.sendMSHRQueuePacket_next hsend
  | handleTimingRes pkt random => cases hlabel
  | recvTimingResp pkt random => cases hlabel

/-- One orderly step fails with what is short, and only with that. -/
theorem step_failure (system : System config) (label : Label config)
    (hlabel : orderlyStep label = true) (h : Ready system.cache) :
    failure (system.step label) = shortage system label := by
  have hfresh := h.kept (newPtr_kept system.cache)
  cases label with
  | recvTimingReq pkt random =>
      simp only [orderlyStep, Bool.and_eq_true, Bool.not_eq_true'] at hlabel
      have hpkt : orderly config { pkt with ptr := system.cache.nextPtr } = true := hlabel.2
      have hplain : ({ pkt with ptr := system.cache.nextPtr } : Packet).cmd.isPlain = true :=
        hlabel.1.1
      have hreq := hfresh.recvTimingReq hplain hlabel.1.2 (orderly_eq hpkt).2 random
      exact (failure_bind_pure _ _).trans hreq
  | getNextQueueEntry prefetch =>
      obtain ⟨result, hnext⟩ := hfresh.getNextQueueEntry
        (prefetch_orderly system.cache.nextPtr hlabel)
      exact (failure_bind_pure _ _).trans (failure_eq_none.mpr ⟨result, hnext⟩)
  | sendMSHRQueuePacket index reply random =>
      obtain ⟨data, rfl⟩ := Option.isSome_iff_exists.mp hlabel
      simp only [System.step, shortage, sendShortage]
      by_cases hready : system.cache.mshrQueue.readyList.contains index = true
      · have hmem : index ∈ system.cache.mshrQueue.allocatedList :=
          ((h.sound.represents.ready.mem index).mp (by simpa using hready)).1
        rw [hready, check_true, ok_bind, Bool.not_true, if_neg Bool.false_ne_true,
          ← h.sendMSHRQueuePacket hmem data random]
        exact failure_bind_pure _ _
      · rw [Bool.not_eq_true] at hready
        rw [hready]
        rfl
  | handleTimingRes pkt random => cases hlabel
  | recvTimingResp pkt random => cases hlabel

theorem step_ok_iff (system : System config) (label : Label config)
    (hlabel : orderlyStep label = true) (h : Ready system.cache) :
    (∃ next, system.step label = .ok next) ↔ (shortage system label).isNone = true := by
  rw [← failure_eq_none, step_failure system label hlabel h, Option.isNone_iff_eq_none]

end KuiperCache.Shortage
