import KuiperCache.Cache.FreeList
import KuiperCache.Cache.PlainAccess

/-! Flow control.  The cache says that it is blocked when its last MSHR is taken,
but the port does not look: a request that needs an MSHR of its own then finds
the free list empty. -/
namespace KuiperCache.Cache

open Checked

variable {config : CacheConfig}

/-- Commands that fetch a block that is not cached.  Evictions go to the write
buffer, a store-conditional is answered at once, and the other two need a block. -/
def fetchesAbsent (cmd : MemCmd) : Bool :=
  !cmd.isEviction && cmd != .writeClean && cmd != .lockedRMWWriteReq &&
    !(cmd.isLLSC && cmd.isWrite)

/-- The request will ask for an MSHR of its own: its block is neither cached nor
asked for, or it is a locked read that hits. -/
def needsMSHR (cache : Cache config) (pkt : Packet) : Bool :=
  let awaited ignoreUncacheable :=
    cache.mshrQueue.findMatch (pkt.getBlockAddr config.blkSize) pkt.isSecure ignoreUncacheable
  match cache.findBlock pkt.addr pkt.isSecure with
  | none => fetchesAbsent pkt.cmd && (awaited false).toOption == some none
  | some ref => pkt.cmd == .lockedRMWReadReq && (cache.getBlk ref).isSet .writableBit &&
      (awaited true).toOption == some none

/-- The locked read is the only command that locks a line as it reads. -/
theorem eq_lockedRMWReadReq {cmd : MemCmd} (hrequest : cmd.isRequest = true)
    (hlocked : cmd.isLockedRMW = true) (hread : cmd.isRead = true) : cmd = .lockedRMWReadReq := by
  revert hrequest hlocked hread
  cases cmd <;> decide

/-- An access that is no eviction: the block looked up is reported, and whether
it permits the packet decides. -/
theorem access_demand {cache : Cache config} (hempty : cache.writeBuffer.allocatedList = [])
    {pkt : Packet} (hdemand : pkt.cmd.isEviction = false) {random : Fin config.geometry.assoc}
    {accessed : Accessed config} (h : cache.access pkt random = .ok accessed) :
    pkt.cmd.isRequest = true ∧ accessed.blk = cache.findBlock pkt.addr pkt.isSecure ∧
      Kept cache accessed.cache ∧ (accessed.blk = none → pkt.cmd ≠ .writeClean) ∧
      ∃ line, (cache.accessBlock pkt).2.accessLine pkt (cache.findBlock pkt.addr pkt.isSecure) =
        .ok line ∧ accessed.satisfied = line.satisfied ∧ accessed.pkt = line.pkt := by
  have hwriteback : pkt.cmd.isWriteback = false := by
    revert hdemand
    cases pkt.cmd <;> decide
  have hevict : (pkt.cmd == .cleanEvict) = false := by
    revert hdemand
    cases pkt.cmd <;> decide
  have hblock := accessBlock_kept cache pkt
  simp only [access, accessBase, hwriteback, hevict, Bool.false_or, Bool.false_eq_true,
    ↓reduceIte, bind_eq_ok, check_eq_ok, exists_const,
    meetWriteBuffer_eq (show (cache.accessBlock pkt).2.writeBuffer.allocatedList = [] by
      rw [hblock.writeBuffer, hempty]), ok_bind] at h
  obtain ⟨line, ⟨hrequest, -, hline⟩, h⟩ := h
  obtain ⟨hcache, hblk, -⟩ := accessLine_eq_ok hline
  rw [accessBlock_fst] at hline hblk
  refine ⟨hrequest, ?_⟩
  split at h
  · rename_i hclean
    split at h
    · cases h
    · rename_i ref hsome
      simp only [bind_eq_ok, pure_eq_ok] at h
      obtain ⟨next, hbits, rfl⟩ := h
      have hkept := setCoherenceBits_kept hbits
      rw [hcache] at hkept
      exact ⟨hblk, hblock.trans hkept, by simp [hsome], line, hline, rfl, rfl⟩
  · rename_i hclean
    rw [pure_eq_ok] at h
    subst h
    exact ⟨hblk, hcache ▸ hblock, fun _ => by simpa using hclean, line, hline, rfl, rfl⟩

theorem accessLine_pkt {cache : Cache config} {pkt : Packet}
    {blk : Option (BlkRef config.geometry)} {accessed : Accessed config}
    (h : cache.accessLine pkt blk = .ok accessed) :
    accessed.pkt = { pkt with req := accessed.pkt.req } := by
  simp only [accessLine, satisfyRequest, bind_eq_ok] at h
  obtain ⟨permitted, -, h⟩ := h
  split at h
  · simp only [bind_eq_ok, check_eq_ok, exists_const, pure_eq_ok, Prod.mk.injEq,
      Prod.exists] at h
    obtain ⟨same, cache', ⟨-, rfl, rfl⟩, rfl⟩ := h
    rfl
  · split at h
    · rw [pure_eq_ok] at h
      exact h ▸ rfl
    · rw [pure_eq_ok] at h
      exact h ▸ rfl

/-- A refused access has found no permission, and is no store-conditional to an
absent block. -/
theorem accessLine_refused {cache : Cache config} {pkt : Packet}
    {blk : Option (BlkRef config.geometry)} {accessed : Accessed config}
    (h : cache.accessLine pkt blk = .ok accessed) (hrefused : accessed.satisfied = false) :
    (blk.isNone && pkt.cmd.isLLSC && pkt.cmd.isWrite) = false := by
  simp only [accessLine, satisfyRequest, bind_eq_ok] at h
  obtain ⟨permitted, -, h⟩ := h
  split at h
  · simp only [bind_eq_ok, check_eq_ok, exists_const, pure_eq_ok, Prod.exists] at h
    obtain ⟨same, cache', -, rfl⟩ := h
    cases hrefused
  · split at h
    · rw [pure_eq_ok] at h
      subst h
      cases hrefused
    · rename_i hconditional
      exact Bool.eq_false_iff.mpr hconditional

/-- Whatever the access does to the packet, it changes the request data only. -/
theorem access_pkt {cache : Cache config} {pkt : Packet} {random : Fin config.geometry.assoc}
    {accessed : Accessed config} (h : cache.access pkt random = .ok accessed) :
    accessed.pkt = { pkt with req := accessed.pkt.req } := by
  simp only [access, bind_eq_ok] at h
  obtain ⟨base, hbase, h⟩ := h
  have hsame : accessed.pkt = base.pkt := by
    split at h
    · split at h
      · cases h
      · simp only [bind_eq_ok, pure_eq_ok] at h
        obtain ⟨next, -, rfl⟩ := h
        rfl
    · rw [pure_eq_ok] at h
      exact h ▸ rfl
  rw [hsame]
  simp only [accessBase, bind_eq_ok, check_eq_ok, exists_const] at hbase
  obtain ⟨-, -, ⟨absorbed, met⟩, -, hbase⟩ := hbase
  split at hbase
  · rw [pure_eq_ok] at hbase
    exact hbase ▸ rfl
  · split at hbase
    · simp only [accessWriteback, bind_eq_ok] at hbase
      obtain ⟨-, -, pending, -, hbase⟩ := hbase
      split at hbase
      · rw [pure_eq_ok] at hbase
        exact hbase ▸ rfl
      · simp only [bind_eq_ok] at hbase
        obtain ⟨⟨found, filled, dropped⟩, -, hbase⟩ := hbase
        cases found with
        | none =>
            rw [pure_eq_ok] at hbase
            exact hbase ▸ rfl
        | some ref =>
            simp only [bind_eq_ok, pure_eq_ok] at hbase
            obtain ⟨-, -, -, -, -, -, rfl⟩ := hbase
            rfl
    · split at hbase
      · rw [pure_eq_ok] at hbase
        exact hbase ▸ rfl
      · exact accessLine_pkt hbase

/-- A refused demand access that could start a miss has found no block at all. -/
theorem needsMSHR_of_refused {cache reopened : Cache config} {pkt : Packet}
    {random : Fin config.geometry.assoc} {accessed : Accessed config}
    (hempty : cache.writeBuffer.allocatedList = [])
    (hreopen : cache.reopenLine pkt = .ok reopened)
    (haccess : reopened.access pkt random = .ok accessed) (hrefused : accessed.satisfied = false)
    (hdemand : pkt.cmd.isEviction = false)
    (hinvalid : accessed.blk.all (fun ref => !(accessed.cache.getBlk ref).valid) = true)
    (hnone : cache.mshrQueue.findMatch (pkt.getBlockAddr config.blkSize) pkt.isSecure false =
      .ok none) : cache.needsMSHR pkt = true := by
  have hkept := reopenLine_kept hreopen
  obtain ⟨-, hblk, haccessed, hclean, line, hline, hsatisfied, -⟩ :=
    access_demand (by rw [hkept.writeBuffer, hempty]) hdemand haccess
  have hsame :
      reopened.findBlock pkt.addr pkt.isSecure = cache.findBlock pkt.addr pkt.isSecure := by
    unfold findBlock
    rw [Tags.findBlock_kept hkept.lines]
  rw [hsame] at hblk hline
  -- a block that was found would still be valid
  have habsent : cache.findBlock pkt.addr pkt.isSecure = none := by
    cases hfind : cache.tags.findBlock pkt.addr pkt.isSecure with
    | none => simp [findBlock, hfind]
    | some way =>
        have hvalid := Tags.findBlock_eq_some hfind
        have hlines := hkept.lines (config.geometry.extractSet pkt.addr) way
        have hlines' := haccessed.lines (config.geometry.extractSet pkt.addr) way
        rw [← hlines.valid, ← hlines'.valid] at hvalid
        rw [hblk, findBlock, hfind] at hinvalid
        simp only [Option.map_some, Option.all_some, getBlk, hvalid, Bool.not_true,
          Bool.false_eq_true] at hinvalid
  have hlocked : pkt.cmd ≠ .lockedRMWWriteReq := by
    intro hcmd
    simp [reopenLine, hcmd, habsent] at hreopen
  have hconditional := accessLine_refused hline (hsatisfied ▸ hrefused)
  rw [habsent] at hconditional hblk
  have hclean := hclean hblk
  simp only [Option.isNone_none, Bool.true_and] at hconditional
  simp [needsMSHR, habsent, fetchesAbsent, hdemand, hclean, hlocked, hconditional, hnone,
    Except.toOption]

/-- Counting a reference does not change the permissions of a block. -/
theorem accessBlock_isSet {cache : Cache config} {pkt : Packet} {ref : BlkRef config.geometry}
    (h : cache.findBlock pkt.addr pkt.isSecure = some ref) (bit : CoherenceBit) :
    ((cache.accessBlock pkt).2.getBlk ref).isSet bit = (cache.getBlk ref).isSet bit := by
  simp only [accessBlock, h]
  cases ref with
  | temp => cases bit <;> rfl
  | slot set way =>
      simp only [setBlk, getBlk, Tags.setBlk_blks, and_self, ↓reduceIte]
      cases bit <;> rfl

/-- A locked read that hits has found its block writable. -/
theorem needsMSHR_of_locked {cache reopened : Cache config} {pkt : Packet}
    {random : Fin config.geometry.assoc} {accessed : Accessed config}
    (hempty : cache.writeBuffer.allocatedList = [])
    (hreopen : cache.reopenLine pkt = .ok reopened)
    (haccess : reopened.access pkt random = .ok accessed) (hsatisfied : accessed.satisfied = true)
    (hlocked : pkt.cmd.isLockedRMW = true) (hread : pkt.cmd.isRead = true)
    (hnone : cache.mshrQueue.findMatch (pkt.getBlockAddr config.blkSize) pkt.isSecure true =
      .ok none) : cache.needsMSHR pkt = true := by
  have hkept := reopenLine_kept hreopen
  have hdemand : pkt.cmd.isEviction = false := by
    revert hlocked
    cases pkt.cmd <;> decide
  obtain ⟨hrequest, -, -, -, line, hline, hsame, -⟩ :=
    access_demand (by rw [hkept.writeBuffer, hempty]) hdemand haccess
  have hcmd := eq_lockedRMWReadReq hrequest hlocked hread
  have hsameCache : reopened = cache := by simpa [reopenLine, hcmd] using hreopen.symm
  subst hsameCache
  have hpermits := ((accessLine_eq_ok hline).2.2 (by rw [hcmd]; decide)).2
  rw [← hsame, hsatisfied] at hpermits
  cases hfind : reopened.findBlock pkt.addr pkt.isSecure with
  | none =>
      rw [hfind] at hpermits
      cases hpermits
  | some ref =>
      have hneeds : pkt.cmd.needsWritable = true := by
        rw [hcmd]
        decide
      simp only [hfind, permits, Packet.needsWritable, hneeds, bind_eq_ok, pure_eq_ok,
        check_eq_ok] at hpermits
      obtain ⟨-, ⟨-, -, rfl⟩, hset⟩ := hpermits
      rw [if_pos rfl, accessBlock_isSet hfind] at hset
      simp [needsMSHR, hfind, hcmd, hset, hnone, Except.toOption]

/-- A request finds the free list empty only if it needs an MSHR of its own. -/
theorem recvTimingReq_avoids {cache : Cache config} (hsound : Sound cache) {pkt : Packet}
    (random : Fin config.geometry.assoc)
    (h : cache.needsMSHR pkt = true → cache.mshrQueue.freeList ≠ []) :
    Avoids .freeListEmpty (cache.recvTimingReq pkt random) := by
  simp only [recvTimingReq, avoids_bind, avoids_check, avoids_ite]
  refine ⟨by simp, fun _ _ => ⟨by simp, fun _ _ => ⟨reopenLine_avoids cache pkt, ?_⟩⟩⟩
  intro reopened hreopen
  refine ⟨access_avoids reopened pkt random, ?_⟩
  intro accessed haccess
  have hempty := hsound.writeBuffer.1
  have hkept := reopenLine_kept hreopen
  have htouched := access_touched (by rw [hkept.writeBuffer, hempty]) haccess
  have hqueue : accessed.cache.mshrQueue = cache.mshrQueue :=
    htouched.mshrQueue.trans hkept.mshrQueue
  rw [access_pkt haccess]
  refine ⟨⟨fun hsatisfied => ?_, fun hrefused => ?_⟩, by simp⟩
  · apply handleTimingReqHit_avoids
    intro hlocked hread hnone
    rw [(clearPrefetched_kept accessed.cache accessed.blk).mshrQueue, hqueue] at hnone ⊢
    exact h (needsMSHR_of_locked hempty hreopen haccess hsatisfied hlocked hread hnone)
  · apply handleTimingReqMiss_avoids
    intro hnone hinvalid hevict
    rw [hqueue] at hnone ⊢
    exact h (needsMSHR_of_refused hempty hreopen haccess (Bool.eq_false_iff.mpr hrefused) hevict
      hinvalid hnone)

theorem nextMiss_avoids (cache : Cache config) (miss : Option (Fin config.mshrs)) :
    Avoids .freeListEmpty (cache.nextMiss miss) := by
  cases miss with
  | none => simp [nextMiss]
  | some index =>
      simp only [nextMiss, avoids_bind]
      refine ⟨by simp, fun conflict _ => ?_⟩
      cases conflict <;> simp

/-- The prefetcher is consulted only while an entry is free. -/
theorem freeList_of_canPrefetch {cache : Cache config} (hsound : Sound cache)
    (h : cache.mshrQueue.canPrefetch = true) : cache.mshrQueue.freeList ≠ [] := by
  rw [Ne, ← hsound.isFull_iff, Queue.isFull, decide_eq_true_eq]
  rw [MshrQueue.canPrefetch, decide_eq_true_eq] at h
  omega

theorem getNextQueueEntry_avoids {cache : Cache config} (hsound : Sound cache)
    (prefetch : Option Packet) : Avoids .freeListEmpty (cache.getNextQueueEntry prefetch) := by
  unfold getNextQueueEntry
  split
  · simp only [avoids_ite, avoids_bind]
    refine ⟨fun _ => ⟨by simp, fun conflict _ => ?_⟩, fun _ => nextMiss_avoids cache _⟩
    cases conflict <;> simp
  · exact nextMiss_avoids cache _
  · simp only [avoids_ite, Bool.and_eq_true]
    refine ⟨fun hroom => ?_, by simp⟩
    have hfree := freeList_of_canPrefetch hsound hroom.1.2
    cases prefetch with
    | none => simp
    | some pkt => simp [allocatePrefetch, hfree]

/-- The port would have to ask before it hands over a request that needs an
MSHR; every other call is allowed. -/
def mayDeliver (system : System config) : Label config → Bool
  | .recvTimingReq pkt _ => !(system.cache.blocked.noMSHRs && system.cache.needsMSHR pkt)
  | .getNextQueueEntry _ => true
  | .sendMSHRQueuePacket .. => true
  | .handleTimingRes .. => true
  | .recvTimingResp .. => true

theorem step_avoids (system : System config) (label : Label config)
    (hmay : mayDeliver system label = true) (hsound : system.cache.Sound) :
    Avoids .freeListEmpty (system.step label) := by
  have hfresh := hsound.touched (newPtr_kept system.cache).toTouched
  cases label with
  | recvTimingReq pkt random =>
      simp only [System.step, avoids_bind, avoids_pure, implies_true, and_true]
      apply recvTimingReq_avoids hfresh
      intro hneeds
      have hneeds : system.cache.needsMSHR pkt = true := hneeds
      simp only [mayDeliver, hneeds, Bool.and_true, Bool.not_eq_true'] at hmay
      show system.cache.mshrQueue.freeList ≠ []
      rw [Ne, ← hsound.isFull_iff, ← hsound.noMSHRs, hmay]
      exact Bool.false_ne_true
  | getNextQueueEntry prefetch =>
      simp only [System.step, avoids_bind, avoids_pure, implies_true, and_true]
      exact getNextQueueEntry_avoids hfresh _
  | sendMSHRQueuePacket index reply random => simp [System.step]
  | handleTimingRes pkt random => simp [System.step]
  | recvTimingResp pkt random => simp [System.step]

/-- Allocating with nothing free fails at the first assertion. -/
theorem startMiss_starved {cache : Cache config} (hfull : cache.mshrQueue.freeList = [])
    {pkt : Packet} (hdemand : pkt.cmd.isEviction = false) :
    cache.startMiss pkt none = .error .freeListEmpty := by
  simp [startMiss, hdemand, closeLine, allocateMissBuffer, MshrQueue.allocate, hfull]

theorem isPlain_access {cmd : MemCmd} (h : cmd.isPlain = true) :
    (cmd.isRead || cmd.isWrite) = true ∧ (cmd == .lockedRMWReadReq) = false := by
  obtain rfl | rfl | rfl := MemCmd.isPlain_cases h
  · decide
  · decide
  · decide

/-- A plain request that needs an MSHR while none is free fails. -/
theorem recvTimingReq_starved {cache : Cache config} (hsound : Sound cache)
    (hfull : cache.mshrQueue.freeList = []) {pkt : Packet} (hplain : pkt.cmd.isPlain = true)
    (hresponding : pkt.cacheResponding = false)
    (hwritable : (config.isReadOnly && pkt.cmd.isWrite) = false)
    (random : Fin config.geometry.assoc) (hneeds : cache.needsMSHR pkt = true) :
    cache.recvTimingReq pkt random = .error .freeListEmpty := by
  obtain ⟨hdemand, hwriteback, hevict, hclean, hllsc, -, -, hcmd, hrequest⟩ :=
    isPlain_attributes hplain
  obtain ⟨haccess, hlocked⟩ := isPlain_access hplain
  have habsent : cache.findBlock pkt.addr pkt.isSecure = none := by
    cases hfind : cache.findBlock pkt.addr pkt.isSecure with
    | none => rfl
    | some ref => simp [needsMSHR, hfind, hlocked] at hneeds
  have hnone : cache.mshrQueue.findMatch (pkt.getBlockAddr config.blkSize) pkt.isSecure false =
      .ok none := by
    simp only [needsMSHR, habsent, Bool.and_eq_true, beq_iff_eq] at hneeds
    cases hmatch : cache.mshrQueue.findMatch (pkt.getBlockAddr config.blkSize) pkt.isSecure
      false with
    | error reason =>
        rw [hmatch] at hneeds
        cases hneeds.2
    | ok found =>
        rw [hmatch] at hneeds
        exact congrArg _ (Option.some.inj hneeds.2)
  have hrefused : cache.access pkt random =
      .ok { satisfied := false, blk := none, pkt, cache, writebacks := [] } := by
    simp [access, accessBase, accessBlock, habsent, meetWriteBuffer_eq hsound.writeBuffer.1,
      hrequest, hwritable, hwriteback, hevict, hclean, hllsc, accessLine, permits]
  have hmiss : cache.handleTimingReqMiss pkt none = .error .freeListEmpty := by
    have hfull' : (cache.updateWriteMode pkt).mshrQueue.freeList = [] := by
      rw [(updateWriteMode_kept cache pkt).mshrQueue, hfull]
    simp [handleTimingReqMiss, hnone, startMiss_starved hfull' hdemand]
  simp [recvTimingReq, hresponding, haccess, reopenLine, hcmd, hrefused, hmiss]

/-- No allocation finds the free list empty in a run that hands over a request
only while it is allowed, and in every state reached by any calls a plain request
fails so exactly when it is not. -/
theorem mshr_available_iff_delivery_allowed {writeAllocator : Option WriteAllocator}
    (labels : List (Label config)) :
    (Transition.meets System.step mayDeliver (System.new config writeAllocator) labels = true →
      Transition.run System.step (System.new config writeAllocator) labels ≠
        .error .freeListEmpty) ∧
    ∀ system, Transition.run System.step (System.new config writeAllocator) labels = .ok system →
      ∀ pkt random, pkt.cmd.isPlain = true → pkt.cacheResponding = false →
        (config.isReadOnly && pkt.cmd.isWrite) = false →
        (system.step (.recvTimingReq pkt random) = .error .freeListEmpty ↔
          mayDeliver system (.recvTimingReq pkt random) = false) := by
  have hnew := sound_new config writeAllocator
  refine ⟨fun hmeets => ?_, ?_⟩
  · exact Transition.run_avoids
      (fun system label next _ hsound h => System.step_sound system label next hsound h)
      step_avoids hmeets hnew
  · intro system hrun pkt random hplain hresponding hwritable
    have hsound : system.cache.Sound := System.run_sound hrun
    constructor
    · intro hstarved
      rw [Bool.eq_false_iff]
      intro hmay
      exact step_avoids system _ hmay hsound hstarved
    · intro hmay
      simp only [mayDeliver, Bool.not_eq_eq_eq_not, Bool.not_false, Bool.and_eq_true] at hmay
      have hfull : system.cache.mshrQueue.freeList = [] := by
        rw [← hsound.isFull_iff, ← hsound.noMSHRs]
        exact hmay.1
      have hfresh := hsound.touched (newPtr_kept system.cache).toTouched
      have hstarved : system.cache.newPtr.2.recvTimingReq
          { pkt with ptr := system.cache.newPtr.1 } random = .error .freeListEmpty := by
        apply recvTimingReq_starved hfresh hfull
        · exact hplain
        · exact hresponding
        · exact hwritable
        · exact hmay.2
      simp only [System.step, hstarved, error_bind]

/-- A read of four bytes of the given line. -/
def readLine (line : Nat) : Label simL0Params :=
  .recvTimingReq
    (Packet.ofRequest 0 (Request.physical (BitVec.ofNat 64 (512 * line)) 4 0 0) .readReq)
    simL0Params.geometry.firstWay

/-- Twelve reads of different lines take every MSHR and block the cache; the
thirteenth is handed over all the same. -/
theorem thirteenth_miss_finds_no_mshr :
    ∃ system, Transition.run System.step (System.new simL0Params none)
        ((List.range 12).map readLine) = .ok system ∧
      system.cache.blocked.noMSHRs = true ∧
      system.step (readLine 12) = .error .freeListEmpty := by
  obtain ⟨system, hrun, hseen⟩ := exists_ok_of_observed
    (show ((Transition.run System.step (System.new simL0Params none)
      ((List.range 12).map readLine)).toOption.map fun system =>
        (system.cache.blocked.noMSHRs, failure (system.step (readLine 12)))) =
      some (true, some .freeListEmpty) by decide +kernel)
  obtain ⟨hblocked, hfailure⟩ := Prod.mk.inj hseen
  exact ⟨system, hrun, hblocked, failure_eq_some.mp hfailure⟩

/-- The thirteenth request is a second read of a line that is already asked for. -/
theorem mshr_available_iff_delivery_allowed_awaited :
    Transition.run System.step (System.new simL0Params none)
      ((List.range 12).map readLine ++ [readLine 3]) ≠ .error .freeListEmpty :=
  (mshr_available_iff_delivery_allowed ((List.range 12).map readLine ++ [readLine 3])).1
    (by decide +kernel)

end KuiperCache.Cache
