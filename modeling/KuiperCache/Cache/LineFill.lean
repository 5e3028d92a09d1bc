import KuiperCache.Cache.Eviction
import KuiperCache.Cache.MissTracking
import KuiperCache.Cache.Uncacheable
import KuiperCache.Mshr.Prompt
import KuiperCache.Tags.Lookup

/-! The answer to a line read.  It fills an absent line and serves an MSHR with
nothing deferred; the only thing that can be missing is room in the tag store. -/
namespace KuiperCache.Cache

open Checked

variable {config : CacheConfig}

/-- Why a line cannot be put into the tag store: its set is full, or the address
cannot be told from its tag and set. -/
def lineShortage {geometry : Geometry} (tags : Tags geometry) (addr : Addr) : Option Assertion :=
  if (List.finRange geometry.assoc).all
      fun way => (tags.blks (geometry.extractSet addr) way).valid then
    some .victimStillValid
  else if geometry.regenerateAddr (geometry.extractTag addr) (geometry.extractSet addr) !=
      geometry.lineAddr addr then
    some .tagMismatch
  else none

theorem lineShortage_kept {geometry : Geometry} {before after : Tags geometry}
    (h : ∀ set way, CacheBlk.LineKept (before.blks set way) (after.blks set way)) (addr : Addr) :
    lineShortage after addr = lineShortage before addr := by
  simp only [lineShortage, (h _ _).valid]

/-- Blocks that hold no line belong to the non-secure memory space. -/
def Blank {geometry : Geometry} (tags : Tags geometry) : Prop :=
  ∀ set way, (tags.blks set way).valid = false → (tags.blks set way).secure = false

theorem Blank.kept {geometry : Geometry} {before after : Tags geometry} (h : Blank before)
    (hlines : ∀ set way, CacheBlk.LineKept (before.blks set way) (after.blks set way)) :
    Blank after := by
  intro set way hinvalid
  rw [(hlines set way).valid] at hinvalid
  rw [(hlines set way).secure]
  exact h set way hinvalid

theorem Blank.filled {before after : Tags config.geometry} {addr : Addr} {secure : Bool}
    (h : Blank before) (hfilled : MissTracking.Filled before after addr secure) : Blank after := by
  obtain hkept | ⟨way', hinstalled⟩ := hfilled
  · exact h.kept hkept
  · intro set way hinvalid
    by_cases hself : set = config.geometry.extractSet addr ∧ way = way'
    · rw [hself.1, hself.2, hinstalled.valid] at hinvalid
      cases hinvalid
    · have hline := hinstalled.others set way hself
      rw [hline.valid] at hinvalid
      rw [hline.secure]
      exact h set way hinvalid

theorem installed_of_kept {before middle after : Tags config.geometry} {addr : Addr}
    {secure : Bool} {way : Fin config.geometry.assoc}
    (hlines : ∀ set way, CacheBlk.LineKept (before.blks set way) (middle.blks set way))
    (h : MissTracking.Installed middle after addr secure way) :
    MissTracking.Installed before after addr secure way :=
  ⟨h.valid, h.tag, h.secure, h.readable, h.writable,
    fun set way' hne => (hlines set way').trans (h.others set way' hne)⟩

theorem setCoherenceBits_total {cache : Cache config} {ref : BlkRef config.geometry}
    (hvalid : (cache.getBlk ref).valid = true) (bit : CoherenceBit) :
    ∃ next, cache.setCoherenceBits ref bit = .ok next ∧ (next.getBlk ref).valid = true := by
  have hcheck : check (cache.getBlk ref).valid Assertion.blockExpected = .ok () := by
    rw [hvalid]
    rfl
  obtain ⟨blk, hblk⟩ : ∃ blk, (cache.getBlk ref).setCoherenceBits bit = .ok blk := by
    unfold CacheBlk.setCoherenceBits
    rw [hcheck]
    exact ⟨_, rfl⟩
  refine ⟨cache.setBlk ref blk, by rw [setCoherenceBits, hblk]; rfl, ?_⟩
  rw [getBlk_setBlk, if_pos rfl, (CacheBlk.setCoherenceBits_kept hblk).valid, hvalid]

/-- The answer to a read of a whole line. -/
structure IsLine (config : CacheConfig) (pkt : Packet) : Prop where
  cmd : pkt.cmd = .readExResp
  aligned : config.geometry.lineAddr pkt.addr = pkt.addr
  size : pkt.size = config.blkSize
  exclusive : pkt.hasSharers = false ∧ pkt.cacheResponding = false

/-- Inserting the line fails when the set is full. -/
theorem allocateBlock_full {cache : Cache config} {pkt : Packet}
    (hfull : (List.finRange config.geometry.assoc).all
      fun way => (cache.tags.blks (config.geometry.extractSet pkt.addr) way).valid)
    (writebacks : List Packet) (random : Fin config.geometry.assoc) :
    cache.allocateBlock pkt writebacks random = .error .victimStillValid := by
  have hvictim : (cache.tags.blks (config.geometry.extractSet pkt.addr)
      (cache.tags.findVictim pkt.addr random)).valid = true := by
    rw [List.all_eq_true] at hfull
    exact hfull _ (List.mem_finRange _)
  simp [allocateBlock, handleEvictions, Tags.insertBlock, hvictim]

/-- With a free way the line goes into it. -/
theorem allocateBlock_room {cache : Cache config} (hreplaceable : cache.tags.Replaceable)
    (hblank : Blank cache.tags) {pkt : Packet}
    (hroom : ¬ (List.finRange config.geometry.assoc).all fun way =>
      (cache.tags.blks (config.geometry.extractSet pkt.addr) way).valid)
    (writebacks : List Packet) (random : Fin config.geometry.assoc) :
    ∃ way tags, cache.allocateBlock pkt writebacks random =
        .ok (some (.slot (config.geometry.extractSet pkt.addr) way), { cache with tags },
          writebacks) ∧
      (tags.blks (config.geometry.extractSet pkt.addr) way).valid = true ∧
      (tags.blks (config.geometry.extractSet pkt.addr) way).tag =
        config.geometry.extractTag pkt.addr ∧
      (tags.blks (config.geometry.extractSet pkt.addr) way).secure = pkt.isSecure := by
  have hfree : ∃ way,
      (cache.tags.blks (config.geometry.extractSet pkt.addr) way).valid = false := by
    simpa using hroom
  have hvictim := (findVictim_valid hreplaceable pkt.addr random).mpr hfree
  have hinvalid : (cache.getBlk (cache.victim pkt random)).valid = false := hvictim
  obtain ⟨⟨found, next, writebacks'⟩, hok⟩ :
      ∃ result, cache.allocateBlock pkt writebacks random = .ok result :=
    allocateBlock_ok_iff.mpr hinvalid
  obtain ⟨rfl, rfl, tags, htags, rfl⟩ := allocateBlock_eq_ok hok
  obtain ⟨-, blk, rfl, hvalid, -, htag, hsecure⟩ := Tags.insertBlock_eq_ok htags
  refine ⟨_, _, hok, ?_⟩
  rw [hblank _ _ hvictim, Bool.false_or] at hsecure
  simp only [Tags.setBlk_blks, and_self, ↓reduceIte]
  exact ⟨hvalid, htag, hsecure⟩

/-- Filling an absent line fails for lack of room and for nothing else. -/
theorem handleFill_line {cache : Cache config} (hsound : Sound cache) (hblank : Blank cache.tags)
    {pkt : Packet} (hpkt : IsLine config pkt) (random : Fin config.geometry.assoc) :
    Settles (lineShortage cache.tags pkt.addr)
      (fun (filled, _, writebacks) => (∃ set way, filled = .slot set way) ∧ writebacks = [])
      (cache.handleFill pkt none [] true random) := by
  have hconflict := findMatch_writeBuffer hsound.writeBuffer.1 pkt.addr pkt.isSecure true
  have haligned : (pkt.addr == pkt.getBlockAddr config.blkSize) = true :=
    beq_iff_eq.mpr hpkt.aligned.symm
  have hresponse : MemCmd.readExResp.isResponse = true := rfl
  have hdata : MemCmd.readExResp.hasData = true := rfl
  have hread : MemCmd.readExResp.isRead = true := rfl
  simp only [lineShortage, handleFill, fillTarget, hpkt.cmd, hresponse, hdata, hread, haligned,
    hconflict, check_true, ok_bind, Option.isNone_none, Bool.true_or, ↓reduceIte]
  by_cases hfull : (List.finRange config.geometry.assoc).all fun way =>
      (cache.tags.blks (config.geometry.extractSet pkt.addr) way).valid
  · rw [if_pos hfull, settles_some, allocateBlock_full hfull]
    rfl
  · rw [if_neg hfull]
    obtain ⟨way, tags, hallocate, hvalid, htag, hsecure⟩ :=
      allocateBlock_room hsound.replaceable hblank hfull [] random
    have hblk : getBlk { cache with tags } (.slot (config.geometry.extractSet pkt.addr) way) =
      tags.blks (config.geometry.extractSet pkt.addr) way := rfl
    rw [hallocate, hpkt.aligned]
    simp only [ok_bind, pure, Except.pure, hblk, hvalid, hsecure, beq_self_eq_true, check_true,
      regenerateBlkAddr, Tags.regenerateBlkAddr, htag]
    by_cases hmismatch : config.geometry.regenerateAddr (config.geometry.extractTag pkt.addr)
        (config.geometry.extractSet pkt.addr) = pkt.addr
    · obtain ⟨readable, hreadable, hvalid'⟩ := setCoherenceBits_total
        (show (getBlk { cache with tags } (.slot (config.geometry.extractSet pkt.addr)
          way)).valid = true from hvalid) .readableBit
      obtain ⟨writable, hwritable, -⟩ := setCoherenceBits_total hvalid' .writableBit
      simp only [hmismatch, bne_self_eq_false, Bool.false_eq_true, ↓reduceIte, beq_self_eq_true,
        check_true, ok_bind, hreadable, passWritable, hpkt.exclusive.1, hpkt.exclusive.2,
        hwritable, hpkt.size, Bool.not_true, Bool.not_false, Bool.false_or, updateBlockData]
      exact settles_none.mpr ⟨_, rfl, ⟨_, _, rfl⟩, rfl⟩
    · have hbeq : (config.geometry.regenerateAddr (config.geometry.extractTag pkt.addr)
          (config.geometry.extractSet pkt.addr) == pkt.addr) = false := by simpa using hmismatch
      simp only [bne, hbeq, Bool.not_false, ↓reduceIte, check_false, error_bind]
      exact settles_some.mpr rfl

theorem fillFromResponse_line {cache : Cache config} (hsound : Sound cache)
    (hblank : Blank cache.tags) {pkt : Packet} (hpkt : IsLine config pkt)
    {index : Fin config.mshrs}
    (hprompt : Mshr.Prompt config.blkSize (cache.mshrQueue.entries index))
    (hissued : (cache.mshrQueue.entries index).isForward = false)
    (habsent : cache.findBlock pkt.addr pkt.isSecure = none)
    (random : Fin config.geometry.assoc) :
    Settles (lineShortage cache.tags pkt.addr)
      (fun (blk, _, writebacks) => (∃ set way, blk = some (.slot set way)) ∧ writebacks = [])
      (cache.fillFromResponse index pkt random) := by
  have hread : MemCmd.readExResp.isRead = true := rfl
  have herror : MemCmd.readExResp.isError = false := rfl
  have hstart : cache.fillFromResponse index pkt random = (do
      let (ref, filled, writebacks) ← cache.handleFill pkt none [] true random
      pure (some ref, filled, writebacks)) := by
    have hpartial := hprompt.wasWholeLineWrite
    have hkeep : (cache.mshrQueue.entries index).allocOnFill = true := hprompt.allocOnFill
    simp only [fillFromResponse, habsent, hpartial, hpkt.cmd, hread, herror, hissued, hkeep,
      Bool.not_false, Bool.true_or, Bool.and_self, check_true, ok_bind, ↓reduceIte]
    -- the write allocator is asked about whole-line writes only
    cases cache.writeAllocator <;> rfl
  rw [hstart]
  refine (handleFill_line hsound hblank hpkt random).bind ?_
  rintro ⟨filled, next, writebacks⟩ - ⟨⟨set, way, rfl⟩, rfl⟩
  exact ⟨_, rfl, ⟨set, way, rfl⟩, rfl⟩

theorem promoteTargets_prompt {cache : Cache config} {index : Fin config.mshrs} {pkt : Packet}
    (hcmd : pkt.cmd = .readExResp)
    (hprompt : Mshr.Prompt config.blkSize (cache.mshrQueue.entries index))
    (blk : Option (BlkRef config.geometry)) :
    ∃ next, cache.promoteTargets index pkt blk = .ok next ∧
      next.mshrQueue.entries index = cache.mshrQueue.entries index := by
  have hclean : (blk.any (fun ref => (cache.getBlk ref).valid) && pkt.cmd.isClean &&
      !pkt.cmd.isInvalidate) = false := by
    rw [hcmd, show MemCmd.readExResp.isClean = false from rfl, Bool.and_false, Bool.false_and]
  unfold promoteTargets
  rw [hprompt.notLocked, if_neg Bool.false_ne_true]
  simp only [hclean, ok_bind, hprompt.promoteWritable]
  split
  · exact ⟨_, rfl, MshrQueue.setEntry_entries_self _⟩
  · exact ⟨_, rfl, rfl⟩

/-- Every target of such an MSHR can be answered. -/
theorem serviceTargets_total {pkt : Packet} (hcmd : pkt.cmd = .readExResp)
    (blk : Option (BlkRef config.geometry)) {list : List Target} {blkSize : Nat}
    (hlist : ∀ target ∈ list, target.Serviceable blkSize) (serviced : Serviced config) :
    ∃ final, list.foldlM (serviceTarget pkt blk) serviced = .ok final := by
  induction list generalizing serviced with
  | nil => exact ⟨serviced, rfl⟩
  | cons target rest ih =>
      have htarget := hlist target List.mem_cons_self
      obtain ⟨hrequest, hresponse, -, haccess⟩ := htarget.attributes
      obtain ⟨next, hnext⟩ : ∃ next, serviceTarget pkt blk serviced target = .ok next := by
        obtain ⟨hsource, -⟩ | ⟨hsource, hprefetch⟩ := htarget.origin
        · have hmade : target.pkt.makeTimingResponse =
              .ok { target.pkt with cmd := target.pkt.cmd.responseCommand } := by
            rw [Packet.makeTimingResponse, hresponse, hrequest]
            rfl
          have herror : MemCmd.readExResp.isError = false := rfl
          simp only [serviceTarget, hsource, satisfyRequest, haccess, hmade, hcmd, herror,
            check_true, ok_bind, pure_bind, Bool.false_eq_true, ↓reduceIte]
          exact ⟨_, rfl⟩
        · simp only [serviceTarget, hsource, hprefetch, beq_self_eq_true, check_true, ok_bind]
          exact ⟨_, rfl⟩
      rw [List.foldlM_cons, hnext, ok_bind]
      exact ih (fun other hother => hlist other (List.mem_cons_of_mem target hother)) next

theorem serviceMSHRTargets_prompt {cache : Cache config} {index : Fin config.mshrs} {pkt : Packet}
    (hcmd : pkt.cmd = .readExResp)
    (hprompt : Mshr.Prompt config.blkSize (cache.mshrQueue.entries index))
    (hheld : (cache.mshrQueue.entries index).targets.list ≠ [])
    (blk : Option (BlkRef config.geometry)) :
    ∃ next, cache.serviceMSHRTargets index pkt blk = .ok next ∧
      (next.mshrQueue.entries index).waiting = [] ∧
      (next.mshrQueue.entries index).deferredTargets.isReset = true := by
  obtain ⟨first, rest, hcons⟩ := List.exists_cons_of_ne_nil hheld
  have hfirst : (cache.mshrQueue.entries index).getTarget = .ok first :=
    Mshr.getTarget_eq_ok.mpr ⟨rest, hcons⟩
  obtain ⟨ready, targets, hextract, hready, hleft⟩ :=
    hprompt.extractServiceableTargets (show pkt.cmd ≠ .readRespWithInvalidate by simp [hcmd])
  have hserviceable : ∀ target ∈ ready.list, target.Serviceable config.blkSize := by
    rw [hready]
    exact hprompt.serviceable
  obtain ⟨final, hfinal⟩ := serviceTargets_total hcmd blk hserviceable
    { cache :=
        { cache with
          mshrQueue := cache.mshrQueue.setEntry index
            { cache.mshrQueue.entries index with targets } }
      fromCore := false, fromPref := false }
  have hok : ∃ next, cache.serviceMSHRTargets index pkt blk = .ok next := by
    simp only [serviceMSHRTargets, hfirst, hextract, hfinal, ok_bind, Mshr.getNumTargets, hleft,
      hprompt.deferred.1, List.length_nil, Nat.add_zero, beq_self_eq_true, check_true]
    exact ⟨_, rfl⟩
  obtain ⟨next, hnext⟩ := hok
  obtain ⟨ready', left, answers, hextract', hempty, -, hserving⟩ :=
    serviceMSHRTargets_serving hnext
  rw [hextract, Except.ok.injEq, Prod.mk.injEq] at hextract'
  have hentry : next.mshrQueue.entries index = left := by
    rw [hserving.mshrQueue, MshrQueue.setEntry_entries_self]
  refine ⟨next, hnext, hentry ▸ hempty, ?_⟩
  rw [hentry, ← hextract'.2]
  exact hprompt.deferred.2

/-- A drained MSHR is freed. -/
theorem retireMSHR_total {cache : Cache config} {index : Fin config.mshrs}
    (hempty : (cache.mshrQueue.entries index).waiting = [])
    (hreset : (cache.mshrQueue.entries index).deferredTargets.isReset = true)
    (set : Fin config.geometry.numSets) (way : Fin config.geometry.assoc)
    (writebacks : List Packet) :
    ∃ result, cache.retireMSHR index (some (.slot set way)) writebacks = .ok result := by
  obtain ⟨htargets, hdeferred⟩ := Mshr.waiting_eq_nil.mp hempty
  have hpromote : (cache.mshrQueue.entries index).promoteDeferredTargets curTick =
      .ok (false, cache.mshrQueue.entries index) := by
    simp [Mshr.promoteDeferredTargets, htargets, hdeferred]
  have hlocked : (cache.mshrQueue.entries index).hasLockedRMWReadTarget = false := by
    simp [Mshr.hasLockedRMWReadTarget, htargets]
  have hsame : cache.mshrQueue.setEntry index (cache.mshrQueue.entries index) =
      cache.mshrQueue := by
    unfold MshrQueue.setEntry MshrQueue.withQueue Queue.setEntry
    rw [Function.update_eq_self]
  obtain ⟨freed, hfreed⟩ : ∃ freed, cache.freeMSHR index = .ok freed := by
    have hdeallocate : ∃ free, (cache.mshrQueue.entries index).deallocate = .ok free := by
      simp only [Mshr.deallocate, htargets, hreset, List.isEmpty_nil, check_true, ok_bind]
      exact ⟨_, rfl⟩
    obtain ⟨free, hfree⟩ := hdeallocate
    have hfree : QueueEntry.deallocate (cache.mshrQueue.entries index) = .ok free := hfree
    simp only [freeMSHR, MshrQueue.deallocate, Queue.deallocate, hfree, ok_bind]
    exact ⟨_, rfl⟩
  refine ⟨(freed, writebacks), ?_⟩
  simp only [retireMSHR, hlocked, hpromote, hsame, hfreed, Bool.false_eq_true, ↓reduceIte, ok_bind,
    Option.some.injEq, reduceCtorEq, false_and, Bool.and_eq_true, decide_eq_true_eq]
  rfl

/-- A line read is answered unless the line has no place in the tag store. -/
theorem recvTimingResp_line {cache : Cache config} (hsound : Sound cache)
    (hblank : Blank cache.tags) {pkt : Packet} (hpkt : IsLine config pkt)
    {index : Fin config.mshrs} (hpop : popMSHR pkt = .ok index)
    (hprompt : Mshr.Prompt config.blkSize (cache.mshrQueue.entries index))
    (hheld : (cache.mshrQueue.entries index).targets.list ≠ [])
    (hissued : (cache.mshrQueue.entries index).isForward = false)
    (habsent : cache.findBlock pkt.addr pkt.isSecure = none)
    (random : Fin config.geometry.assoc) :
    failure (cache.recvTimingResp pkt random) = lineShortage cache.tags pkt.addr := by
  obtain ⟨first, rest, hcons⟩ := List.exists_cons_of_ne_nil hheld
  have hfirst : (cache.mshrQueue.entries index).getTarget = .ok first :=
    Mshr.getTarget_eq_ok.mpr ⟨rest, hcons⟩
  have hkept := unblockTargets_kept cache index
  have hqueue := hkept.mshrQueue
  have htags := Uncacheable.unblockTargets_tags cache index
  have hbase : cache.recvTimingResp pkt random = (do
      let filled ← (cache.unblockTargets index).fillFromResponse index pkt random
      let promoted ← filled.2.1.promoteTargets index pkt filled.1
      let serviced ← promoted.serviceMSHRTargets index pkt filled.1
      let retired ← serviced.retireMSHR index filled.1 filled.2.2
      pure retired.1) := by
    have hresponse : MemCmd.readExResp.isResponse = true := rfl
    have hread : MemCmd.readExResp.isRead = true := rfl
    have hinvalidate : MemCmd.readExResp.isInvalidate = false := rfl
    have hwrite : MemCmd.readExResp.isWrite = false := rfl
    have hupgrade : (MemCmd.readExResp != .upgradeResp) = true := rfl
    have hprefetch : (MemCmd.readExResp != .hardPFResp) = true := rfl
    simp only [recvTimingResp, recvTimingRespBase, hpkt.cmd, hresponse, hread, hinvalidate, hwrite,
      hupgrade, hprefetch, hpkt.exclusive.1, hpop, hqueue, hfirst, Bool.not_false, Bool.false_and,
      Bool.false_eq_true, ↓reduceIte, check_true, ok_bind]
  have hfill := fillFromResponse_line (hsound.touched hkept.toTouched) (htags.symm ▸ hblank) hpkt
    (hqueue.symm ▸ hprompt) (hqueue.symm ▸ hissued)
    (show (cache.unblockTargets index).findBlock pkt.addr pkt.isSecure = none by
      rw [Cache.findBlock, htags]
      exact habsent) random
  rw [htags] at hfill
  rw [hbase]
  refine (hfill.bind ?_ : Settles _ (fun _ => True) _).1
  rintro ⟨blk, filled, writebacks⟩ hfilled ⟨⟨set, way, rfl⟩, rfl⟩
  have hentry : filled.mshrQueue.entries index = cache.mshrQueue.entries index := by
    rw [(fillFromResponse_touched hfilled).mshrQueue, hqueue]
  obtain ⟨promoted, hpromote, hsame⟩ := promoteTargets_prompt hpkt.cmd
    (hentry.symm ▸ hprompt) (some (.slot set way))
  rw [hentry] at hsame
  obtain ⟨serviced, hservice, hempty, hreset⟩ := serviceMSHRTargets_prompt hpkt.cmd
    (hsame.symm ▸ hprompt) (hsame.symm ▸ hheld) (some (.slot set way))
  obtain ⟨⟨retired, dropped⟩, hretire⟩ := retireMSHR_total hempty hreset set way []
  simp only [hpromote, hservice, hretire, ok_bind]
  exact ⟨_, rfl, trivial⟩

/-- A line put into a free way is found, and so is what was found before. -/
theorem findBlock_installed {before after : Tags config.geometry} {addr : Addr} {secure : Bool}
    {way : Fin config.geometry.assoc} (h : MissTracking.Installed before after addr secure way)
    (hinvalid : (before.blks (config.geometry.extractSet addr) way).valid = false) (addr' : Addr)
    (secure' : Bool) : (after.findBlock addr' secure').isSome = true ↔
      (before.findBlock addr' secure').isSome = true ∨
        config.geometry.lineAddr addr' = config.geometry.lineAddr addr ∧ secure' = secure := by
  constructor
  · intro hafter
    by_contra hnot
    rw [not_or, Bool.not_eq_true, Option.isSome_eq_false_iff, Option.isNone_iff_eq_none] at hnot
    rw [h.findBlock_none hnot.1 hnot.2] at hafter
    cases hafter
  · intro hbefore
    rw [Option.isSome_iff_ne_none, Ne, Tags.findBlock_eq_none]
    intro hnone
    obtain hfound | ⟨hline, rfl⟩ := hbefore
    · obtain ⟨way', hway'⟩ := Option.isSome_iff_exists.mp hfound
      have hmatch := Tags.findBlock_matches hway'
      have hother : ¬ (config.geometry.extractSet addr' = config.geometry.extractSet addr ∧
          way' = way) := by
        rintro ⟨hset, rfl⟩
        have hvalid := Tags.findBlock_eq_some hway'
        rw [hset, hinvalid] at hvalid
        cases hvalid
      rw [← CacheBlk.matchTag_kept (h.others _ way' hother), hnone way'] at hmatch
      cases hmatch
    · have hset : config.geometry.extractSet addr' = config.geometry.extractSet addr := by
        rw [← Geometry.extractSet_lineAddr, hline, Geometry.extractSet_lineAddr]
      have htag : config.geometry.extractTag addr' = config.geometry.extractTag addr := by
        rw [← Geometry.extractTag_lineAddr, hline, Geometry.extractTag_lineAddr]
      have hself := hnone way
      rw [hset, htag] at hself
      simp [CacheBlk.matchTag, h.valid, h.tag, h.secure] at hself

/-- Addresses of one line are looked up alike. -/
theorem findBlock_of_lineAddr {addr addr' : Addr} (tags : Tags config.geometry)
    (h : config.geometry.lineAddr addr = config.geometry.lineAddr addr') (secure : Bool) :
    tags.findBlock addr secure = tags.findBlock addr' secure := by
  rw [← MissTracking.findBlock_lineAddr tags addr, h, MissTracking.findBlock_lineAddr]

/-- A line that comes in is found in the way it was put into. -/
theorem findBlock_installed_self {before after : Tags config.geometry} {addr : Addr}
    {secure : Bool} {way : Fin config.geometry.assoc}
    (h : MissTracking.Installed before after addr secure way)
    (hinvalid : (before.blks (config.geometry.extractSet addr) way).valid = false)
    (habsent : before.findBlock addr secure = none) : after.findBlock addr secure = some way := by
  obtain ⟨found, hfound⟩ := Option.isSome_iff_exists.mp
    ((findBlock_installed h hinvalid addr secure).mpr (.inr ⟨rfl, rfl⟩))
  rw [hfound, Option.some.injEq]
  by_contra hne
  have hmatch := Tags.findBlock_matches hfound
  rw [CacheBlk.matchTag_kept (h.others _ found fun heq => hne heq.2),
    Tags.findBlock_eq_none.mp habsent found] at hmatch
  cases hmatch

/-- Other lines are found where they were. -/
theorem findBlock_installed_other {before after : Tags config.geometry} {addr : Addr}
    {secure : Bool} {way : Fin config.geometry.assoc}
    (h : MissTracking.Installed before after addr secure way)
    (hinvalid : (before.blks (config.geometry.extractSet addr) way).valid = false) {addr' : Addr}
    {secure' : Bool} (hne : ¬ (config.geometry.lineAddr addr' = config.geometry.lineAddr addr ∧
      secure' = secure)) : after.findBlock addr' secure' = before.findBlock addr' secure' := by
  unfold Tags.findBlock
  congr 1
  funext way'
  by_cases hself : config.geometry.extractSet addr' = config.geometry.extractSet addr ∧ way' = way
  · obtain ⟨hset, rfl⟩ := hself
    have hbefore : (before.blks (config.geometry.extractSet addr) way').matchTag
        (config.geometry.extractTag addr') secure' = false := by
      simp [CacheBlk.matchTag, hinvalid]
    rw [hset, hbefore, Bool.eq_false_iff]
    intro hmatch
    obtain ⟨-, htag, hsecure⟩ := Tags.matchTag_eq_true.mp hmatch
    exact hne ⟨Geometry.lineAddr_eq_of_extract_eq config.geometry hset (htag.symm.trans h.tag),
      hsecure.symm.trans h.secure⟩
  · exact CacheBlk.matchTag_kept (h.others _ way' hself) _ _

/-- The line goes into a way that was free. -/
theorem handleFill_installed {cache next : Cache config} {pkt : Packet}
    {writebacks writebacks' : List Packet} {random : Fin config.geometry.assoc}
    {ref : BlkRef config.geometry} (hsharers : pkt.hasSharers = false)
    (h : cache.handleFill pkt none writebacks true random = .ok (ref, next, writebacks')) :
    ∃ way, ref = .slot (config.geometry.extractSet pkt.addr) way ∧
      (cache.tags.blks (config.geometry.extractSet pkt.addr) way).valid = false ∧
      MissTracking.Installed cache.tags next.tags pkt.addr pkt.isSecure way := by
  obtain ⟨target, readable, htarget, -, hreadable, hnext⟩ := handleFill_eq_ok h
  have hafter := (setCoherenceBits_kept hreadable).trans (passWritable_kept hnext)
  simp only [fillTarget, ↓reduceIte, bind_eq_ok, check_eq_ok, exists_const] at htarget
  obtain ⟨-, ⟨found, allocated, wbs⟩, hallocate, htarget⟩ := htarget
  obtain ⟨rfl, -, tags, htags, rfl⟩ := allocateBlock_eq_ok hallocate
  simp only [pure_eq_ok, Prod.mk.injEq] at htarget
  obtain ⟨rfl, rfl, -⟩ := htarget
  obtain ⟨hvictim, blk, rfl, hvalid, -, -, -⟩ := Tags.insertBlock_eq_ok htags
  refine ⟨_, rfl, hvictim, ?_⟩
  have hvalid' : (next.tags.blks (config.geometry.extractSet pkt.addr)
      (cache.tags.findVictim pkt.addr random)).valid = true := by
    rw [(hafter.lines _ _).valid]
    simpa [Tags.setBlk_blks] using hvalid
  obtain hkept | ⟨way', hinstalled⟩ := MissTracking.handleFill_filled hsharers h
  · rw [(hkept _ _).valid, hvictim] at hvalid'
    cases hvalid'
  · obtain rfl : cache.tags.findVictim pkt.addr random = way' := by
      by_contra hne
      rw [(hinstalled.others _ _ fun heq => hne heq.2).valid, hvictim] at hvalid'
      cases hvalid'
    exact hinstalled

/-- What a line read leaves behind when it is answered: its MSHR is free and its
line in a way that was free. -/
theorem recvTimingResp_installed {cache next : Cache config} {pkt : Packet}
    (hpkt : IsLine config pkt) {index : Fin config.mshrs}
    (hpop : popMSHR pkt = .ok index)
    (hprompt : Mshr.Prompt config.blkSize (cache.mshrQueue.entries index))
    (hissued : (cache.mshrQueue.entries index).isForward = false)
    (habsent : cache.findBlock pkt.addr pkt.isSecure = none) {random : Fin config.geometry.assoc}
    (h : cache.recvTimingResp pkt random = .ok next) :
    ∃ way free, MshrQueue.ReleasedAt cache.mshrQueue next.mshrQueue index free ∧
      (cache.tags.blks (config.geometry.extractSet pkt.addr) way).valid = false ∧
      MissTracking.Installed cache.tags next.tags pkt.addr pkt.isSecure way := by
  have hkept := unblockTargets_kept cache index
  have hqueue := hkept.mshrQueue
  have htags := Uncacheable.unblockTargets_tags cache index
  obtain ⟨-, -, -, hbase⟩ := recvTimingResp_base h
  obtain ⟨hwrite, -⟩ | ⟨index', blk, filled, writebacks, mshr, ready, left, answers, hpop', -,
    hfill, -, -, -, -, hresponded⟩ := recvTimingRespBase_cases hbase
  · rw [hpkt.cmd] at hwrite
    cases hwrite
  · rw [hpop, Except.ok.injEq] at hpop'
    subst hpop'
    have hread : pkt.cmd.isRead = true := by rw [hpkt.cmd]; rfl
    have hinvalidate : pkt.cmd.isInvalidate = false := by rw [hpkt.cmd]; rfl
    have herror : pkt.cmd.isError = false := by rw [hpkt.cmd]; rfl
    have hfilled := (fillFromResponse_touched hfill).mshrQueue
    obtain ⟨-, ref, -, hhandle⟩ | ⟨hskip, -, -⟩ := fillFromResponse_read hread hinvalidate hfill
    · have hkeep : ((cache.unblockTargets index).mshrQueue.entries index).allocOnFill = true := by
        rw [hqueue]
        exact hprompt.allocOnFill
      rw [Cache.findBlock, htags] at hhandle
      rw [Cache.findBlock] at habsent
      rw [habsent, hkeep] at hhandle
      obtain ⟨way, -, hinvalid, hinstalled⟩ := handleFill_installed hpkt.exclusive.1 hhandle
      rw [htags] at hinvalid hinstalled
      obtain ⟨free, hreleased, -, -⟩ := hresponded.released
      rw [hfilled, hqueue] at hreleased
      exact ⟨way, free, hreleased, hinvalid, hinstalled.kept hresponded.lines⟩
    · rw [hqueue, hissued, herror] at hskip
      cases hskip

end KuiperCache.Cache
