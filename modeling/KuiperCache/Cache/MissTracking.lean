import KuiperCache.Cache.PlainAccess
import KuiperCache.Tags.Address

/-! Miss tracking.  A line is in the tag store or waited for by one MSHR, never
both, and every line in the tag store can be read and written. -/
namespace KuiperCache.MissTracking

open Checked Cache

variable {config : CacheConfig}

/-- A cacheable packet at the address of its own request. -/
def atRequest (pkt : Packet) : Bool :=
  !pkt.req.isUncacheable && pkt.addr == pkt.req.paddr && pkt.isSecure == pkt.req.isSecure

theorem atRequest_eq {pkt : Packet} (h : atRequest pkt = true) :
    pkt.req.isUncacheable = false ∧ pkt.addr = pkt.req.paddr ∧
      pkt.isSecure = pkt.req.isSecure := by
  simpa [atRequest, and_assoc] using h

/-- An MSHR whose targets all wait for its line. -/
structure Waits (config : CacheConfig) (mshr : Mshr) : Prop where
  held : mshr.targets.list ≠ []
  cacheable : mshr.isUncacheable = false
  line : ∀ target ∈ mshr.waiting, atRequest target.pkt = true ∧
    config.geometry.lineAddr target.pkt.addr = mshr.blkAddr ∧
    target.pkt.isSecure = mshr.isSecure

structure Tracked (cache : Cache config) : Prop where
  unique : ∀ i ∈ cache.mshrQueue.allocatedList, ∀ j ∈ cache.mshrQueue.allocatedList,
    (cache.mshrQueue.entries i).blkAddr = (cache.mshrQueue.entries j).blkAddr →
    (cache.mshrQueue.entries i).isSecure = (cache.mshrQueue.entries j).isSecure → i = j
  absent : ∀ i ∈ cache.mshrQueue.allocatedList,
    cache.tags.findBlock (cache.mshrQueue.entries i).blkAddr (cache.mshrQueue.entries i).isSecure =
      none
  permitted : ∀ set way, (cache.tags.blks set way).valid = true →
    (cache.tags.blks set way).readable = true ∧ (cache.tags.blks set way).writable = true
  waits : ∀ i ∈ cache.mshrQueue.allocatedList, Waits config (cache.mshrQueue.entries i)
  postInvalidate : ∀ i, (cache.mshrQueue.entries i).postInvalidate = false

theorem tracked_new (config : CacheConfig) (writeAllocator : Option WriteAllocator) :
    Tracked (Cache.new config writeAllocator) := by
  refine ⟨?_, ?_, ?_, ?_, fun _ => rfl⟩
  · intro i hi
    cases hi
  · intro i hi
    cases hi
  · intro set way hvalid
    cases hvalid
  · intro i hi
    cases hi

/-- The lookup only depends on the line of the address. -/
theorem findBlock_lineAddr (tags : Tags config.geometry) (addr : Addr) (secure : Bool) :
    tags.findBlock (config.geometry.lineAddr addr) secure = tags.findBlock addr secure := by
  simp only [Tags.findBlock, Geometry.extractSet_lineAddr, Geometry.extractTag_lineAddr]

theorem permitted_kept {before after : CacheBlk} (hline : CacheBlk.LineKept before after)
    (h : before.valid = true → before.readable = true ∧ before.writable = true)
    (hvalid : after.valid = true) : after.readable = true ∧ after.writable = true := by
  rw [hline.valid] at hvalid
  obtain ⟨hreadable, hwritable⟩ := h hvalid
  exact ⟨hline.readable hreadable, hline.writable hwritable⟩

theorem Waits.aligned {mshr : Mshr} (h : Waits config mshr) :
    config.geometry.lineAddr mshr.blkAddr = mshr.blkAddr := by
  obtain ⟨first, rest, hcons⟩ := List.exists_cons_of_ne_nil h.held
  have hfirst : first.unmarked ∈ mshr.waiting := by
    simp [Mshr.waiting, hcons]
  rw [← (h.line _ hfirst).2.1]
  exact Geometry.lineAddr_lineAddr config.geometry _

theorem Tracked.kept {before after : Cache config} (h : Tracked before)
    (hkept : Kept before after) : Tracked after := by
  refine ⟨?_, ?_, ?_, ?_, ?_⟩
  · rw [hkept.mshrQueue]
    exact h.unique
  · intro i hi
    rw [hkept.mshrQueue] at hi ⊢
    rw [Tags.findBlock_kept hkept.lines]
    exact h.absent i hi
  · intro set way
    exact permitted_kept (hkept.lines set way) (h.permitted set way)
  · rw [hkept.mshrQueue]
    exact h.waits
  · rw [hkept.mshrQueue]
    exact h.postInvalidate

/-- A miss for a line that nobody has and nobody waits for. -/
theorem Tracked.missed {before after : Cache config} {index : Fin config.mshrs} {mshr : Mshr}
    {pkt : Packet} {time : Tick} {order : Nat} {onFill : Bool} (hsound : Sound before)
    (h : Tracked before) (hmissed : Missed before after index mshr)
    (hallocate : (before.mshrQueue.entries index).allocate (pkt.getBlockAddr config.blkSize)
      config.blkSize pkt time order onFill = .ok mshr) (hpkt : atRequest pkt = true)
    (hblock : before.tags.findBlock pkt.addr pkt.isSecure = none)
    (hnone : ∀ i ∈ before.mshrQueue.allocatedList,
      ¬ ((before.mshrQueue.entries i).blkAddr = pkt.getBlockAddr config.blkSize ∧
        (before.mshrQueue.entries i).isSecure = pkt.isSecure)) : Tracked after := by
  have halloc := hmissed.allocated
  have hspec := Mshr.allocate_spec hallocate
  obtain ⟨htargets, -, hwaiting⟩ := hspec.lists halloc.empty
  have htags : ∀ addr secure,
      after.tags.findBlock addr secure = before.tags.findBlock addr secure :=
    Tags.findBlock_kept hmissed.kept.lines
  refine ⟨?_, ?_, (h.kept hmissed.kept).permitted, ?_, ?_⟩
  · intro i hi j hj haddr hsecure
    obtain ⟨hi, hentry⟩ | ⟨rfl, hentry⟩ := hsound.represents.allocated_cases halloc hi
    · rw [hentry] at haddr hsecure
      obtain ⟨hj, hentry'⟩ | ⟨rfl, hentry'⟩ := hsound.represents.allocated_cases halloc hj
      · rw [hentry'] at haddr hsecure
        exact h.unique i hi j hj haddr hsecure
      · rw [hentry', hspec.blkAddr] at haddr
        rw [hentry', hspec.isSecure] at hsecure
        exact absurd ⟨haddr, hsecure⟩ (hnone i hi)
    · rw [hentry, hspec.blkAddr] at haddr
      rw [hentry, hspec.isSecure] at hsecure
      obtain ⟨hj, hentry'⟩ | ⟨rfl, -⟩ := hsound.represents.allocated_cases halloc hj
      · rw [hentry'] at haddr hsecure
        exact absurd ⟨haddr.symm, hsecure.symm⟩ (hnone j hj)
      · rfl
  · intro i hi
    rw [htags]
    obtain ⟨hi, hentry⟩ | ⟨-, hentry⟩ := hsound.represents.allocated_cases halloc hi
    · rw [hentry]
      exact h.absent i hi
    · rw [hentry, hspec.blkAddr, hspec.isSecure]
      exact (findBlock_lineAddr before.tags pkt.addr pkt.isSecure).trans hblock
  · intro i hi
    obtain ⟨hi, hentry⟩ | ⟨-, hentry⟩ := hsound.represents.allocated_cases halloc hi
    · rw [hentry]
      exact h.waits i hi
    · rw [hentry]
      refine ⟨by simp [htargets], ?_, ?_⟩
      · rw [hspec.isUncacheable, (atRequest_eq hpkt).1]
      · rw [hwaiting]
        simp only [List.mem_singleton, forall_eq]
        exact ⟨hpkt, hspec.blkAddr.symm, hspec.isSecure.symm⟩
  · rw [halloc.entries]
    apply (Function.forall_update_iff _ fun _ (entry : Mshr) => entry.postInvalidate = false).mpr
    exact ⟨hspec.postInvalidate.trans (h.postInvalidate index), fun i _ => h.postInvalidate i⟩

/-- An MSHR was edited and still waits for its line. -/
theorem Tracked.serving {before after : Cache config} {index : Fin config.mshrs} {mshr : Mshr}
    {answers : List Packet} (h : Tracked before)
    (hserving : Serving before after index mshr answers)
    (hblock : Mshr.SameBlock (before.mshrQueue.entries index) mshr)
    (hpost : mshr.postInvalidate = false) (hwaits : Waits config mshr) : Tracked after := by
  have hentries : ∀ i, after.mshrQueue.entries i =
      if i = index then mshr else before.mshrQueue.entries i := by
    intro i
    rw [hserving.mshrQueue, (MshrQueue.setEntry_edited before.mshrQueue index mshr).entries,
      Function.update_apply]
  have hlist : after.mshrQueue.allocatedList = before.mshrQueue.allocatedList := by
    rw [hserving.mshrQueue]
    rfl
  have haddr : ∀ i, (after.mshrQueue.entries i).blkAddr = (before.mshrQueue.entries i).blkAddr ∧
      (after.mshrQueue.entries i).isSecure = (before.mshrQueue.entries i).isSecure := by
    intro i
    rw [hentries]
    split
    · rename_i heq
      rw [heq]
      exact ⟨hblock.blkAddr, hblock.isSecure⟩
    · exact ⟨rfl, rfl⟩
  refine ⟨?_, ?_, (h.kept hserving.kept).permitted, ?_, ?_⟩
  · intro i hi j hj hsame hsecure
    rw [hlist] at hi hj
    rw [(haddr i).1, (haddr j).1] at hsame
    rw [(haddr i).2, (haddr j).2] at hsecure
    exact h.unique i hi j hj hsame hsecure
  · intro i hi
    rw [hlist] at hi
    rw [(haddr i).1, (haddr i).2]
    exact (Tags.findBlock_kept hserving.kept.lines _ _).trans (h.absent i hi)
  · intro i hi
    rw [hlist] at hi
    rw [hentries]
    split
    · exact hwaits
    · exact h.waits i hi
  · intro i
    rw [hentries]
    split
    · exact hpost
    · exact h.postInvalidate i

/-- A line was brought in, readable and writable, and no other line was lost. -/
structure Installed (before after : Tags config.geometry) (addr : Addr) (secure : Bool)
    (way : Fin config.geometry.assoc) : Prop where
  valid : (after.blks (config.geometry.extractSet addr) way).valid = true
  tag : (after.blks (config.geometry.extractSet addr) way).tag = config.geometry.extractTag addr
  secure : (after.blks (config.geometry.extractSet addr) way).secure = secure
  readable : (after.blks (config.geometry.extractSet addr) way).readable = true
  writable : (after.blks (config.geometry.extractSet addr) way).writable = true
  others : ∀ set way', ¬ (set = config.geometry.extractSet addr ∧ way' = way) →
    CacheBlk.LineKept (before.blks set way') (after.blks set way')

theorem Installed.kept {before middle after : Tags config.geometry} {addr : Addr} {secure : Bool}
    {way : Fin config.geometry.assoc} (h : Installed before middle addr secure way)
    (hlines : ∀ set way, CacheBlk.LineKept (middle.blks set way) (after.blks set way)) :
    Installed before after addr secure way := by
  have hline := hlines (config.geometry.extractSet addr) way
  exact ⟨hline.valid.trans h.valid, hline.tag.trans h.tag, hline.secure.trans h.secure,
    hline.readable h.readable, hline.writable h.writable,
    fun set way' hne => (h.others set way' hne).trans (hlines set way')⟩

/-- What a fill does to the tag store: it keeps every line, and may bring one in. -/
def Filled (before after : Tags config.geometry) (addr : Addr) (secure : Bool) : Prop :=
  (∀ set way, CacheBlk.LineKept (before.blks set way) (after.blks set way)) ∨
    ∃ way, Installed before after addr secure way

theorem Filled.kept {before middle after : Tags config.geometry} {addr : Addr} {secure : Bool}
    (h : Filled before middle addr secure)
    (hlines : ∀ set way, CacheBlk.LineKept (middle.blks set way) (after.blks set way)) :
    Filled before after addr secure := by
  obtain hkept | ⟨way, hinstalled⟩ := h
  · exact .inl fun set way => (hkept set way).trans (hlines set way)
  · exact .inr ⟨way, hinstalled.kept hlines⟩

theorem passWritable_writable {cache next : Cache config} {pkt : Packet}
    {set : Fin config.geometry.numSets} {way : Fin config.geometry.assoc}
    (hsharers : pkt.hasSharers = false)
    (h : cache.passWritable pkt (.slot set way) = .ok next) :
    (next.tags.blks set way).writable = true := by
  simp only [passWritable, hsharers, Bool.false_eq_true, ↓reduceIte, bind_eq_ok] at h
  obtain ⟨writable, hwritable, h⟩ := h
  have hbit := (setCoherenceBits_bit (setCoherenceBits_slot hwritable)).2 rfl
  split at h
  · simp only [bind_eq_ok, check_eq_ok, exists_const, pure_eq_ok] at h
    obtain ⟨dirty, hdirty, -, rfl⟩ := h
    exact ((setCoherenceBits_kept hdirty).lines set way).writable hbit
  · rw [pure_eq_ok] at h
    exact h ▸ hbit

/-- A fill of an absent line goes to the temporary block, or installs the line. -/
theorem handleFill_filled {cache next : Cache config} {pkt : Packet}
    {writebacks writebacks' : List Packet} {allocate : Bool}
    {random : Fin config.geometry.assoc} {ref : BlkRef config.geometry}
    (hsharers : pkt.hasSharers = false)
    (h : cache.handleFill pkt none writebacks allocate random = .ok (ref, next, writebacks')) :
    Filled cache.tags next.tags pkt.addr pkt.isSecure := by
  obtain ⟨target, readable, htarget, hsecure, hreadable, hnext⟩ := handleFill_eq_ok h
  have hafter := (setCoherenceBits_kept hreadable).trans (passWritable_kept hnext)
  simp only [fillTarget, bind_eq_ok, check_eq_ok, exists_const] at htarget
  obtain ⟨-, ⟨found, allocated, wbs⟩, hallocate, htarget⟩ := htarget
  cases found with
  | none =>
      simp only [bind_eq_ok, pure_eq_ok, Prod.mk.injEq] at htarget
      obtain ⟨temp, -, -, rfl, -⟩ := htarget
      split at hallocate
      · cases (allocateBlock_eq_ok hallocate).1
      · cases hallocate
        exact .inl hafter.lines
  | some found =>
      simp only [pure_eq_ok, Prod.mk.injEq] at htarget
      obtain ⟨rfl, rfl, rfl⟩ := htarget
      split at hallocate
      · obtain ⟨hfound, -, tags, htags, rfl⟩ := allocateBlock_eq_ok hallocate
        rw [Option.some.injEq] at hfound
        subst hfound
        obtain ⟨-, blk, rfl, hvalid, -, htag, -⟩ := Tags.insertBlock_eq_ok htags
        have hself := fun way' => Tags.setBlk_blks cache.tags
          (config.geometry.extractSet pkt.addr) (config.geometry.extractSet pkt.addr)
          (cache.tags.findVictim pkt.addr random) way' blk
        have hbit := (setCoherenceBits_bit (setCoherenceBits_slot hreadable)).1 rfl
        refine .inr ⟨cache.tags.findVictim pkt.addr random, ?_⟩
        have hline := hafter.lines (config.geometry.extractSet pkt.addr)
          (cache.tags.findVictim pkt.addr random)
        simp only [Tags.setBlk_blks, and_self, ↓reduceIte] at hline
        simp only [getBlk, Tags.setBlk_blks, and_self, ↓reduceIte] at hsecure
        refine ⟨hline.valid.trans hvalid, hline.tag.trans htag, hline.secure.trans hsecure,
          ((passWritable_kept hnext).lines _ _).readable hbit,
          passWritable_writable hsharers hnext, ?_⟩
        intro set way' hne
        have hother := hafter.lines set way'
        simp only [Tags.setBlk_blks, hne, ↓reduceIte] at hother
        exact hother
      · cases hallocate

theorem fillFromResponse_filled {cache next : Cache config} {index : Fin config.mshrs}
    {pkt : Packet} {random : Fin config.geometry.assoc}
    {blk : Option (BlkRef config.geometry)} {writebacks : List Packet}
    (habsent : cache.tags.findBlock pkt.addr pkt.isSecure = none)
    (hsharers : pkt.hasSharers = false)
    (h : cache.fillFromResponse index pkt random = .ok (blk, next, writebacks)) :
    Filled cache.tags next.tags pkt.addr pkt.isSecure := by
  have hfind : cache.findBlock pkt.addr pkt.isSecure = none := by
    rw [Cache.findBlock, habsent]
    rfl
  simp only [fillFromResponse, hfind, bind_eq_ok, check_eq_ok, exists_const] at h
  obtain ⟨-, h⟩ := h
  split at h
  · simp only [bind_eq_ok, pure_eq_ok, Prod.mk.injEq] at h
    obtain ⟨⟨ref, filled, wbs⟩, hfill, -, rfl, -⟩ := h
    exact handleFill_filled hsharers hfill
  · simp only [pure_eq_ok, Prod.mk.injEq] at h
    exact .inl fun set way => h.2.1 ▸ .refl _

/-- Other lines stay absent when a line is installed. -/
theorem Installed.findBlock_none {before after : Tags config.geometry} {addr addr' : Addr}
    {secure secure' : Bool} {way : Fin config.geometry.assoc}
    (h : Installed before after addr secure way) (hbefore : before.findBlock addr' secure' = none)
    (hne : ¬ (config.geometry.lineAddr addr' = config.geometry.lineAddr addr ∧
      secure' = secure)) : after.findBlock addr' secure' = none := by
  rw [Tags.findBlock_eq_none] at hbefore ⊢
  intro way'
  by_cases hself : config.geometry.extractSet addr' = config.geometry.extractSet addr ∧ way' = way
  · obtain ⟨hset, rfl⟩ := hself
    rw [Bool.eq_false_iff]
    intro hmatch
    rw [hset] at hmatch
    simp only [CacheBlk.matchTag, Bool.and_eq_true, beq_iff_eq, h.tag, h.secure] at hmatch
    exact hne ⟨Geometry.lineAddr_eq_of_extract_eq config.geometry hset hmatch.1.2.symm,
      hmatch.2.symm⟩
  · rw [CacheBlk.matchTag_kept (h.others _ way' hself)]
    exact hbefore way'

theorem Filled.findBlock_none {before after : Tags config.geometry} {addr addr' : Addr}
    {secure secure' : Bool} (h : Filled before after addr secure)
    (hbefore : before.findBlock addr' secure' = none)
    (hne : ¬ (config.geometry.lineAddr addr' = config.geometry.lineAddr addr ∧
      secure' = secure)) : after.findBlock addr' secure' = none := by
  obtain hkept | ⟨way, hinstalled⟩ := h
  · exact (Tags.findBlock_kept hkept _ _).trans hbefore
  · exact hinstalled.findBlock_none hbefore hne

theorem Tracked.filled_permitted {cache : Cache config} {tags : Tags config.geometry}
    {addr : Addr} {secure : Bool} (h : Tracked cache)
    (hfilled : Filled cache.tags tags addr secure) (set : Fin config.geometry.numSets)
    (way : Fin config.geometry.assoc) (hvalid : (tags.blks set way).valid = true) :
    (tags.blks set way).readable = true ∧ (tags.blks set way).writable = true := by
  obtain hkept | ⟨way', hinstalled⟩ := hfilled
  · exact permitted_kept (hkept set way) (h.permitted set way) hvalid
  · by_cases hself : set = config.geometry.extractSet addr ∧ way = way'
    · rw [hself.1, hself.2]
      exact ⟨hinstalled.readable, hinstalled.writable⟩
    · exact permitted_kept (hinstalled.others set way hself) (h.permitted set way) hvalid

/-- The MSHR of a line is freed after the line was filled, if it was. -/
theorem Tracked.responded {before filled after : Cache config} {index : Fin config.mshrs}
    {answers : List Packet} {addr : Addr} {secure : Bool} (hsound : Sound before)
    (h : Tracked before) (hmem : index ∈ before.mshrQueue.allocatedList)
    (haddr : config.geometry.lineAddr addr = (before.mshrQueue.entries index).blkAddr)
    (hsecure : secure = (before.mshrQueue.entries index).isSecure)
    (hqueue : filled.mshrQueue = before.mshrQueue)
    (hlines : Filled before.tags filled.tags addr secure)
    (hresponded : Responded filled after index answers) : Tracked after := by
  obtain ⟨free, hreleased, -, hpost⟩ := hresponded.released
  rw [hqueue] at hreleased hpost
  have hfilled := hlines.kept hresponded.lines
  refine ⟨?_, ?_, ?_, ?_, ?_⟩
  · intro i hi j hj hsame hsecure
    obtain ⟨-, hi, hentry⟩ := hsound.represents.released_cases hreleased hi
    obtain ⟨-, hj, hentry'⟩ := hsound.represents.released_cases hreleased hj
    rw [hentry, hentry'] at hsame hsecure
    exact h.unique i hi j hj hsame hsecure
  · intro i hi
    obtain ⟨hne, hi, hentry⟩ := hsound.represents.released_cases hreleased hi
    rw [hentry]
    apply hfilled.findBlock_none (h.absent i hi)
    rintro ⟨hline, hsame⟩
    -- the two MSHRs would wait for the same line
    rw [(h.waits i hi).aligned, haddr] at hline
    exact hne (h.unique i hi index hmem hline (hsame.trans hsecure))
  · exact h.filled_permitted hfilled
  · intro i hi
    obtain ⟨-, hi, hentry⟩ := hsound.represents.released_cases hreleased hi
    rw [hentry]
    exact h.waits i hi
  · rw [hreleased.entries]
    apply (Function.forall_update_iff _ fun _ (entry : Mshr) => entry.postInvalidate = false).mpr
    exact ⟨hpost.trans (h.postInvalidate index), fun i _ => h.postInvalidate i⟩

theorem findMatch_eq_none {queue : MshrQueue config.mshrs} {addr : Addr}
    {secure ignoreUncacheable : Bool}
    (h : queue.findMatch addr secure ignoreUncacheable = .ok none) (i : Fin config.mshrs)
    (hi : i ∈ queue.allocatedList)
    (hcacheable : ignoreUncacheable = true → (queue.entries i).isUncacheable = false) :
    ¬ ((queue.entries i).blkAddr = addr ∧ (queue.entries i).isSecure = secure) := by
  have htest := findFirst_eq_none h i hi
  split at htest
  · rename_i hskip
    rw [Bool.and_eq_true] at hskip
    have hnot := hcacheable hskip.1
    have hyes : (queue.entries i).isUncacheable = true := hskip.2
    rw [hnot] at hyes
    cases hyes
  · intro hsame
    exact Bool.false_ne_true ((QueueEntry.matchBlockAddr_eq_ok htest).mpr hsame)

/-- A block that is present permits every plain access. -/
theorem Tracked.permits {cache : Cache config} (h : Tracked cache) {pkt : Packet}
    {set : Fin config.geometry.numSets} {way : Fin config.geometry.assoc} {permitted : Bool}
    (hvalid : (cache.tags.blks set way).valid = true)
    (hpermits : cache.permits pkt (some (.slot set way)) = .ok permitted) : permitted = true := by
  obtain ⟨hreadable, hwritable⟩ := h.permitted set way hvalid
  simp only [Cache.permits, bind_eq_ok, pure_eq_ok] at hpermits
  obtain ⟨needsWritable, -, rfl⟩ := hpermits
  cases needsWritable with
  | true => simp [getBlk, CacheBlk.isSet, hvalid, hwritable]
  | false => simp [getBlk, CacheBlk.isSet, hvalid, hreadable]

/-- So a plain access that is not permitted finds no block. -/
theorem Tracked.absent_of_refused {cache : Cache config} (h : Tracked cache) {pkt : Packet}
    (hrefused : cache.permits pkt (cache.findBlock pkt.addr pkt.isSecure) = .ok false) :
    cache.tags.findBlock pkt.addr pkt.isSecure = none := by
  cases hfind : cache.tags.findBlock pkt.addr pkt.isSecure with
  | none => rfl
  | some way =>
      rw [Cache.findBlock, hfind, Option.map_some] at hrefused
      have hyes := h.permits (Tags.findBlock_eq_some hfind) hrefused
      cases hyes

theorem Tracked.coalesce {cache next : Cache config} (h : Tracked cache) {pkt : Packet}
    {index : Fin config.mshrs} (hpkt : atRequest pkt = true)
    (hmem : index ∈ cache.mshrQueue.allocatedList)
    (haddr : (cache.mshrQueue.entries index).blkAddr = pkt.getBlockAddr config.blkSize)
    (hsecure : (cache.mshrQueue.entries index).isSecure = pkt.isSecure)
    (hcoalesce : cache.coalesce pkt index = .ok next) : Tracked next := by
  obtain ⟨-, hkept⟩ | ⟨mshr, hallocate, hserving⟩ := coalesce_cases hcoalesce
  · exact h.kept hkept
  · obtain ⟨hwaiting, hkept, hheld⟩ :=
      Mshr.allocateTarget_waiting (by simp [h.postInvalidate index]) hallocate
    have hwaits := h.waits index hmem
    refine h.serving hserving hkept.toSameBlock
      (hkept.postInvalidate.trans (h.postInvalidate index))
      ⟨hheld, hkept.isUncacheable.trans hwaits.cacheable, ?_⟩
    intro target htarget
    rw [hwaiting, List.mem_append, List.mem_singleton] at htarget
    rw [hkept.blkAddr, hkept.isSecure]
    obtain hold | rfl := htarget
    · exact hwaits.line target hold
    · exact ⟨hpkt, haddr.symm, hsecure.symm⟩

theorem Tracked.handleTimingReqMiss {cache next : Cache config} (hsound : Sound cache)
    (h : Tracked cache) {pkt : Packet} (hpkt : atRequest pkt = true)
    (habsent : cache.tags.findBlock pkt.addr pkt.isSecure = none)
    (hmiss : cache.handleTimingReqMiss pkt none = .ok next) : Tracked next := by
  obtain ⟨found, updated, hkept, hfound, hmiss⟩ := handleTimingReqMiss_cases hmiss
  have hupdated := h.kept hkept
  have hsound' := hsound.touched hkept.toTouched
  rw [← hkept.mshrQueue] at hfound
  cases found with
  | some index =>
      obtain ⟨hmem, haddr, hsecure⟩ := findMatch_eq_some hfound
      exact hupdated.coalesce hpkt hmem haddr hsecure hmiss
  | none =>
      obtain ⟨-, middle, index, mshr, -, hsame, hallocate, hmissed, -⟩ := startMiss_cases hmiss
      rw [hsame rfl] at hallocate hmissed
      refine hupdated.missed hsound' hmissed hallocate hpkt ?_ ?_
      · rw [Tags.findBlock_kept hkept.lines, habsent]
      · exact fun i hi => findMatch_eq_none hfound i hi (by simp)

/-- Only the notification count differs. -/
theorem Tracked.schedMemSideSendEvent {cache : Cache config} (h : Tracked cache) :
    Tracked cache.schedMemSideSendEvent :=
  ⟨h.unique, h.absent, h.permitted, h.waits, h.postInvalidate⟩

theorem Tracked.recvTimingReq {cache next : Cache config} (hsound : Sound cache)
    (h : Tracked cache) {pkt : Packet} (hplain : pkt.cmd.isPlain = true)
    (hpkt : atRequest pkt = true) {random : Fin config.geometry.assoc}
    (hreq : cache.recvTimingReq pkt random = .ok next) : Tracked next := by
  obtain ⟨seen, handled, hkept, rfl, houtcome⟩ := recvTimingReq_plain hsound hplain hreq
  have hseen := h.kept hkept
  have hhandled : Tracked handled := by
    obtain ⟨-, hfinished⟩ | ⟨hrefused, hmiss⟩ := houtcome
    · have hanswered := hseen.kept hfinished.kept
      exact ⟨hanswered.unique, hanswered.absent, hanswered.permitted, hanswered.waits,
        hanswered.postInvalidate⟩
    · have habsent := h.absent_of_refused hrefused
      rw [Cache.findBlock, habsent] at hmiss
      exact hseen.handleTimingReqMiss (hsound.touched hkept.toTouched) hpkt
        (by rw [Tags.findBlock_kept hkept.lines, habsent]) hmiss
  split
  · exact hhandled.schedMemSideSendEvent
  · exact hhandled

theorem Tracked.getNextQueueEntry {cache next : Cache config} (hsound : Sound cache)
    (h : Tracked cache) {prefetch : Option Packet} {entry : Option (EntryRef config)}
    (hpkt : ∀ pkt, prefetch = some pkt → atRequest pkt = true)
    (hnext : cache.getNextQueueEntry prefetch = .ok (entry, next)) : Tracked next := by
  obtain ⟨rfl, -⟩ | ⟨pkt, index, mshr, hprefetch, -, -, hblock, hfound, hallocate, hmissed⟩ :=
    getNextQueueEntry_cases hsound.writeBuffer.2 hnext
  · exact h
  · refine h.missed hsound hmissed hallocate (hpkt pkt hprefetch) ?_ ?_
    · have hnone : cache.tags.findBlock (pkt.getBlockAddr config.blkSize) pkt.isSecure = none := by
        simpa [Cache.findBlock] using hblock
      exact (findBlock_lineAddr cache.tags pkt.addr pkt.isSecure).symm.trans hnone
    · exact fun i hi => findMatch_eq_none hfound i hi fun _ => (h.waits i hi).cacheable

/-- A response for the line of its MSHR. -/
theorem Tracked.recvTimingResp {cache next : Cache config} (hsound : Sound cache)
    (h : Tracked cache) {pkt : Packet} {random : Fin config.geometry.assoc}
    {index : Fin config.mshrs} (hpop : popMSHR pkt = .ok index)
    (haddr : config.geometry.lineAddr pkt.addr = (cache.mshrQueue.entries index).blkAddr)
    (hsecure : pkt.isSecure = (cache.mshrQueue.entries index).isSecure)
    (hresp : cache.recvTimingResp pkt random = .ok next) : Tracked next := by
  obtain ⟨-, -, hsharers, hbase⟩ := recvTimingResp_base hresp
  obtain ⟨-, rfl⟩ | ⟨index', blk, filled, writebacks, mshr, ready, left, answers, hpop', hheld,
    hfill, -, -, -, -, hresponded⟩ := recvTimingRespBase_cases hbase
  · exact h
  · rw [hpop, Except.ok.injEq] at hpop'
    subst hpop'
    have hmem := hsound.mem_allocatedList hheld
    have hunblocked := unblockTargets_kept cache index
    have habsent : (cache.unblockTargets index).tags.findBlock pkt.addr pkt.isSecure = none := by
      rw [Tags.findBlock_kept hunblocked.lines, ← findBlock_lineAddr, haddr, hsecure]
      exact h.absent index hmem
    have hqueue : filled.mshrQueue = (cache.unblockTargets index).mshrQueue :=
      (fillFromResponse_touched hfill).mshrQueue
    have hfilled := fillFromResponse_filled habsent hsharers hfill
    refine (h.kept hunblocked).responded (hsound.touched hunblocked.toTouched) ?_ ?_ ?_ hqueue
      hfilled hresponded
    · rw [hunblocked.mshrQueue]
      exact hmem
    · rw [hunblocked.mshrQueue]
      exact haddr
    · rw [hunblocked.mshrQueue]
      exact hsecure

/-- A line read that is answered at once: the packet built from the first target
is for the line of the MSHR. -/
theorem Tracked.sendMSHRQueuePacket {cache next : Cache config} (hsound : Sound cache)
    (h : Tracked cache) {index : Fin config.mshrs} {data : List UInt8}
    {random : Fin config.geometry.assoc} {waiting : Bool} {flight : Option Packet}
    (hsend : cache.sendMSHRQueuePacket index (some data) random = .ok (waiting, next, flight)) :
    Tracked next := by
  obtain ⟨target, htarget, ⟨-, -, hkept⟩ | ⟨issued, ptr, hserving, -, hres⟩⟩ :=
    sendMSHRQueuePacket_cases hsend
  · exact h.kept hkept
  · obtain ⟨rest, hcons⟩ := Mshr.getTarget_eq_ok.mp htarget
    have hmem : index ∈ cache.mshrQueue.allocatedList :=
      hsound.mem_allocatedList (by simp [hcons])
    have hwaits := h.waits index hmem
    have hfirst : target.unmarked ∈ (cache.mshrQueue.entries index).waiting := by
      simp [Mshr.waiting, hcons]
    obtain ⟨hat, hline, hsecure⟩ := hwaits.line _ hfirst
    obtain ⟨-, haddr, hreq⟩ := atRequest_eq hat
    rw [Target.unmarked_pkt] at hline hsecure haddr hreq
    have hissued := h.serving hserving ⟨rfl, rfl, rfl, rfl⟩ (h.postInvalidate index)
      ⟨hwaits.held, hwaits.cacheable, hwaits.line⟩
    have hsound' := hsound.serving hmem hserving rfl rfl
    obtain ⟨fresh, resp, hfresh, hresp, hrespAddr, hrespSecure, hcmd, hpop⟩ :=
      missPacket_answered hres
    have hrespLine : resp.addr = config.geometry.lineAddr target.pkt.addr := by
      rw [hrespAddr, haddr]
      rfl
    have hentry : fresh.mshrQueue.entries index =
        { cache.mshrQueue.entries index with isForward := false } := by
      rw [hfresh.mshrQueue, hserving.mshrQueue, MshrQueue.setEntry_entries_self]
    apply (hissued.kept hfresh).recvTimingResp (hsound'.touched hfresh.toTouched) hpop
      _ _ hresp
    · rw [hrespLine, Geometry.lineAddr_lineAddr, hline, hentry]
    · rw [hrespSecure, ← hreq, hsecure, hentry]

/-- The steps of a cacheable run: plain requests, prefetches, and sends that
memory answers. -/
def cacheableStep : Label config → Bool
  | .recvTimingReq pkt _ => pkt.cmd.isPlain && atRequest pkt
  | .getNextQueueEntry prefetch => prefetch.all atRequest
  | .sendMSHRQueuePacket _ reply _ => reply.isSome
  | .handleTimingRes .. => false
  | .recvTimingResp .. => false

theorem step_tracked (system : System config) (label : Label config) (next : System config)
    (hlabel : cacheableStep label = true)
    (hinv : system.cache.Sound ∧ Tracked system.cache) (h : system.step label = .ok next) :
    next.cache.Sound ∧ Tracked next.cache := by
  obtain ⟨hsound, htracked⟩ := hinv
  refine ⟨System.step_sound system label next hsound h, ?_⟩
  have hfresh := newPtr_kept system.cache
  have hsound' := hsound.touched hfresh.toTouched
  cases label with
  | recvTimingReq pkt random =>
      simp only [cacheableStep, Bool.and_eq_true] at hlabel
      obtain ⟨cache, hreq, rfl⟩ := System.step_recvTimingReq h
      refine (htracked.kept hfresh).recvTimingReq hsound' ?_ ?_ hreq
      · exact hlabel.1
      · exact hlabel.2
  | getNextQueueEntry prefetch =>
      obtain ⟨entry, cache, hnext, rfl⟩ := System.step_getNextQueueEntry h
      refine (htracked.kept hfresh).getNextQueueEntry hsound' ?_ hnext
      intro pkt hpkt
      rw [Option.map_eq_some_iff] at hpkt
      obtain ⟨original, rfl, rfl⟩ := hpkt
      exact hlabel
  | sendMSHRQueuePacket index reply random =>
      obtain ⟨data, rfl⟩ := Option.isSome_iff_exists.mp hlabel
      obtain ⟨waiting, cache, flight, hsend, rfl⟩ := System.step_sendMSHRQueuePacket h
      exact htracked.sendMSHRQueuePacket hsound hsend
  | handleTimingRes pkt random => cases hlabel
  | recvTimingResp pkt random => cases hlabel

/-- In every state of every cacheable run: at most one MSHR waits for a line, no
MSHR waits for a line that is in the tag store, every line in the tag store is
readable and writable, and so a plain access that is not satisfied has found no
valid block, which is what `handleTimingReqMiss` asserts. -/
theorem line_is_cached_or_awaited_once {writeAllocator : Option WriteAllocator}
    {labels : List (Label config)} {final : System config}
    (hlabels : ∀ label ∈ labels, cacheableStep label = true)
    (hrun : Transition.run System.step (System.new config writeAllocator) labels = .ok final) :
    (∀ i ∈ final.cache.mshrQueue.allocatedList, ∀ j ∈ final.cache.mshrQueue.allocatedList,
      (final.cache.mshrQueue.entries i).blkAddr = (final.cache.mshrQueue.entries j).blkAddr →
      (final.cache.mshrQueue.entries i).isSecure = (final.cache.mshrQueue.entries j).isSecure →
      i = j) ∧
    (∀ i ∈ final.cache.mshrQueue.allocatedList, final.cache.tags.findBlock
      (final.cache.mshrQueue.entries i).blkAddr (final.cache.mshrQueue.entries i).isSecure =
        none) ∧
    (∀ set way, (final.cache.tags.blks set way).valid = true →
      (final.cache.tags.blks set way).isSet .readableBit = true ∧
      (final.cache.tags.blks set way).isSet .writableBit = true) ∧
    (∀ pkt random accessed, pkt.cmd.isPlain = true →
      final.cache.access pkt random = .ok accessed → accessed.satisfied = false →
      accessed.blk.all (fun ref => !(accessed.cache.getBlk ref).valid) = true) := by
  obtain ⟨hsound, htracked⟩ := Transition.run_invariant
    (fun label => cacheableStep label = true) step_tracked hlabels hrun
    ⟨sound_new config writeAllocator, tracked_new config writeAllocator⟩
  refine ⟨htracked.unique, htracked.absent, ?_, ?_⟩
  · intro set way hvalid
    obtain ⟨hreadable, hwritable⟩ := htracked.permitted set way hvalid
    simp [CacheBlk.isSet, hvalid, hreadable, hwritable]
  · intro pkt random accessed hplain haccess hrefused
    obtain ⟨-, hblk, -, hpermits⟩ := access_plain hsound.writeBuffer.1 hplain haccess
    rw [hrefused] at hpermits
    have habsent := htracked.absent_of_refused hpermits
    rw [hblk, Cache.findBlock, habsent]
    rfl

/-- A small cache with a prefetcher. -/
def prefetchingParams : CacheConfig :=
  { geometry :=
      { blkBits := 4, setBits := 1, assoc := 2, blkBits_lt := by decide, setBits_lt := by decide,
        assoc_pos := Nat.two_pos }
    mshrs := 4
    mshrs_pos := Nat.succ_pos _
    writeBuffers := 2
    demandMshrReserve := 1
    tgtsPerMshr := 4
    isReadOnly := false
    writebackClean := false
    hasPrefetcher := true
    dataBlks := fun _ => 0
    tempData := fun _ => 0 }

/-- A read miss is sent and filled, the next line is prefetched, and a write to it
joins the prefetch. -/
def prefetchNextLine : List (Label prefetchingParams) :=
  let packet addr cmd := Packet.ofRequest 0 (Request.physical addr 4 0 0) cmd
  let way := prefetchingParams.geometry.firstWay
  [.recvTimingReq (packet 0x40 .readReq) way,
    .sendMSHRQueuePacket ⟨0, by decide⟩ (some (List.replicate 16 7)) way,
    .getNextQueueEntry (some (packet 0x50 .hardPFReq)),
    .recvTimingReq (packet 0x54 .writeReq) way, .recvTimingReq (packet 0x44 .writeReq) way]

theorem line_is_cached_or_awaited_once_prefetch :
    ∃ final, Transition.run System.step (System.new prefetchingParams none) prefetchNextLine =
        .ok final ∧ final.cache.mshrQueue.allocatedList = [⟨0, by decide⟩] ∧
      (final.cache.tags.blks ⟨0, by decide⟩ ⟨0, by decide⟩).valid = true ∧
      (final.cache.tags.blks ⟨0, by decide⟩ ⟨0, by decide⟩).isSet .writableBit = true := by
  obtain ⟨final, hrun, hseen⟩ := exists_ok_of_observed
    (show ((Transition.run System.step (System.new prefetchingParams none)
      prefetchNextLine).toOption.map fun final => (final.cache.mshrQueue.allocatedList,
        (final.cache.tags.blks ⟨0, by decide⟩ ⟨0, by decide⟩).valid)) =
      some ([⟨0, by decide⟩], true) by decide +kernel)
  obtain ⟨hlist, hvalid⟩ := Prod.mk.inj hseen
  obtain ⟨-, -, hpermitted, -⟩ :=
    line_is_cached_or_awaited_once (by decide +kernel) hrun
  exact ⟨final, hrun, hlist, hvalid, (hpermitted _ _ hvalid).2⟩

end KuiperCache.MissTracking
