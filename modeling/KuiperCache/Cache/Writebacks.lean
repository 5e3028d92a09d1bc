import KuiperCache.Cache.Entries
import KuiperCache.Cache.Eviction
import KuiperCache.Cache.PlainAccess

/-! Writes of whole lines that expect no response.  The base class has exits
without a block for them, and the non-coherent cache asserts a block after all
of these exits; the write buffer, the other way out, takes nothing. -/
namespace KuiperCache.Writebacks

open Checked Cache

variable {config : CacheConfig}

/-- The commands that write a line and expect no response. -/
def isLineWrite (cmd : MemCmd) : Bool :=
  cmd == .writebackDirty || cmd == .writebackClean || cmd == .writeClean

/-- A way of the packet's set holds its line. -/
structure HoldsLine (cache : Cache config) (pkt : Packet) (way : Fin config.geometry.assoc) :
    Prop where
  valid : (cache.tags.blks (config.geometry.extractSet pkt.addr) way).valid = true
  tag : (cache.tags.blks (config.geometry.extractSet pkt.addr) way).tag =
    config.geometry.extractTag pkt.addr
  secure : pkt.isSecure = true →
    (cache.tags.blks (config.geometry.extractSet pkt.addr) way).secure = true

/-- Moreover the block is dirty if the packet brings dirty data. -/
structure TookLine (cache : Cache config) (pkt : Packet) (way : Fin config.geometry.assoc) : Prop
    extends HoldsLine cache pkt way where
  dirty : pkt.cmd = .writebackDirty →
    (cache.tags.blks (config.geometry.extractSet pkt.addr) way).isSet .dirtyBit = true

/-- The packet went into a valid block, which may now be written; nothing is left
to do but to delete it. -/
def Absorbed (cache : Cache config) (pkt : Packet) : Prop :=
  cache.pendingDelete = some pkt ∧ ∃ way, TookLine cache pkt way ∧
    (cache.tags.blks (config.geometry.extractSet pkt.addr) way).isSet .writableBit = true

/-- The packet is in exactly one entry of the write buffer. -/
def Buffered (cache : Cache config) (pkt : Packet) : Prop :=
  ∃! index, index ∈ cache.writeBuffer.allocatedList ∧
    ∃ target ∈ (cache.writeBuffer.entries index).targets, target.pkt = pkt

/-- One of the queues has an entry for the packet's block. -/
def Outstanding (cache : Cache config) (pkt : Packet) : Prop :=
  (∃ index ∈ cache.mshrQueue.allocatedList, (cache.mshrQueue.entries index).blkAddr = pkt.addr ∧
    (cache.mshrQueue.entries index).isSecure = pkt.isSecure) ∨
  (∃ index ∈ cache.writeBuffer.allocatedList,
    (cache.writeBuffer.entries index).blkAddr = pkt.addr ∧
    (cache.writeBuffer.entries index).isSecure = pkt.isSecure)

/-- A clean eviction is deleted because its block is on its way already. -/
def Dropped (cache next : Cache config) (pkt : Packet) : Prop :=
  pkt.cmd.isCleanEviction = true ∧ Outstanding cache pkt ∧ next.pendingDelete = some pkt

/-- The request finishes without a failed assertion, in one of the three ways and
never in an MSHR. -/
def Routed (cache : Cache config) (pkt : Packet) (random : Fin config.geometry.assoc) : Prop :=
  ∃ next, cache.recvTimingReq pkt random = .ok next ∧ next.mshrQueue = cache.mshrQueue ∧
    (Absorbed next pkt ∨ Buffered next pkt ∨ Dropped cache next pkt)

/-- The set of the packet has an invalid way. -/
def HasRoom (cache : Cache config) (pkt : Packet) : Prop :=
  ∃ way, (cache.tags.blks (config.geometry.extractSet pkt.addr) way).valid = false

/-- The line is cached, or can be allocated; a clean writeback is not allocated
while an MSHR waits for the line, and a clean write never is. -/
def LineReady (cache : Cache config) (pkt : Packet) : Prop :=
  match cache.findBlock pkt.addr pkt.isSecure with
  | some ref => pkt.cmd = .writeClean → (cache.getBlk ref).isSet .readableBit = true
  | none => pkt.cmd ≠ .writeClean ∧ HasRoom cache pkt ∧
      (pkt.cmd = .writebackClean →
        cache.mshrQueue.findMatch pkt.addr pkt.isSecure true = .ok none)

/-- Nobody else answers the packet, the cache may be written and the line is ready. -/
structure Routable (cache : Cache config) (pkt : Packet) : Prop where
  cacheResponding : pkt.cacheResponding = false
  isReadOnly : config.isReadOnly = false
  line : LineReady cache pkt

theorem isLineWrite_cases {cmd : MemCmd} (h : isLineWrite cmd = true) :
    cmd = .writebackDirty ∨ cmd = .writebackClean ∨ cmd = .writeClean := by
  simpa only [isLineWrite, Bool.or_eq_true, beq_iff_eq, or_assoc] using h

/-- What the request path asks of such a command. -/
theorem isLineWrite_attributes {cmd : MemCmd} (h : isLineWrite cmd = true) :
    cmd.isRequest = true ∧ cmd.isWrite = true ∧ cmd.needsResponse = false ∧
      cmd.isLockedRMW = false ∧ cmd ≠ .lockedRMWWriteReq ∧
      (cmd.isWriteback || cmd == .writeClean) = true := by
  obtain rfl | rfl | rfl := isLineWrite_cases h
  · decide
  · decide
  · decide

theorem HoldsLine.kept {before after : Cache config} {pkt : Packet}
    {way : Fin config.geometry.assoc} (h : HoldsLine before pkt way) (hkept : Kept before after) :
    HoldsLine after pkt way := by
  have hline := hkept.lines (config.geometry.extractSet pkt.addr) way
  refine ⟨hline.valid.trans h.valid, hline.tag.trans h.tag, ?_⟩
  intro hsecure
  rw [hline.secure]
  exact h.secure hsecure

theorem findBlock_cases {cache : Cache config} {pkt : Packet} {ref : BlkRef config.geometry}
    (h : cache.findBlock pkt.addr pkt.isSecure = some ref) :
    ∃ way, ref = .slot (config.geometry.extractSet pkt.addr) way ∧ HoldsLine cache pkt way := by
  simp only [Cache.findBlock, Option.map_eq_some_iff] at h
  obtain ⟨way, hway, rfl⟩ := h
  have hmatch := List.find?_some hway
  simp only [CacheBlk.matchTag, Bool.and_eq_true, beq_iff_eq] at hmatch
  obtain ⟨⟨hvalid, htag⟩, hsecure⟩ := hmatch
  exact ⟨way, rfl, hvalid, htag, fun hpkt => hsecure.trans hpkt⟩

/-- Setting a bit of the block succeeds and takes no bit away. -/
theorem HoldsLine.setCoherenceBits {cache : Cache config} {pkt : Packet}
    {way : Fin config.geometry.assoc} (h : HoldsLine cache pkt way) (bit : CoherenceBit) :
    ∃ next, cache.setCoherenceBits (.slot (config.geometry.extractSet pkt.addr) way) bit =
        .ok next ∧ HoldsLine next pkt way ∧
      (next.tags.blks (config.geometry.extractSet pkt.addr) way).isSet bit = true ∧
      ∀ other, (cache.tags.blks (config.geometry.extractSet pkt.addr) way).isSet other = true →
        (next.tags.blks (config.geometry.extractSet pkt.addr) way).isSet other = true := by
  have hok : ∃ next, cache.setCoherenceBits
      (.slot (config.geometry.extractSet pkt.addr) way) bit = .ok next := by
    simp only [Cache.setCoherenceBits, getBlk, CacheBlk.setCoherenceBits, h.valid, check_true,
      ok_bind]
    exact ⟨_, rfl⟩
  obtain ⟨next, hnext⟩ := hok
  have hslot := setCoherenceBits_slot hnext
  simp only [CacheBlk.setCoherenceBits, h.valid, check_true, ok_bind, pure_eq_ok] at hslot
  refine ⟨next, hnext, h.kept (setCoherenceBits_kept hnext), ?_, ?_⟩
  · rw [← hslot]
    cases bit <;> simp [CacheBlk.isSet]
  · intro other hother
    rw [← hslot]
    cases bit <;> cases other <;> simp_all [CacheBlk.isSet]

theorem TookLine.setCoherenceBits {cache : Cache config} {pkt : Packet}
    {way : Fin config.geometry.assoc} (h : TookLine cache pkt way) (bit : CoherenceBit) :
    ∃ next, cache.setCoherenceBits (.slot (config.geometry.extractSet pkt.addr) way) bit =
        .ok next ∧ TookLine next pkt way ∧
      (next.tags.blks (config.geometry.extractSet pkt.addr) way).isSet bit = true := by
  obtain ⟨next, hnext, hline, hbit, hbits⟩ := h.toHoldsLine.setCoherenceBits bit
  exact ⟨next, hnext, ⟨hline, fun hcmd => hbits _ (h.dirty hcmd)⟩, hbit⟩

/-- The access put the packet into the block at a way. -/
structure Taken (accessed : Accessed config) (pkt : Packet) (way : Fin config.geometry.assoc) :
    Prop extends TookLine accessed.cache pkt way where
  satisfied : accessed.satisfied = true
  same : accessed.pkt = pkt
  blk : accessed.blk = some (.slot (config.geometry.extractSet pkt.addr) way)

theorem insertBlock_holdsLine {cache : Cache config} {tags : Tags config.geometry} {pkt : Packet}
    {way : Fin config.geometry.assoc} (h : cache.tags.insertBlock pkt way = .ok tags) :
    HoldsLine { cache with tags } pkt way := by
  obtain ⟨-, blk, rfl, hvalid, -, htag, hsecure⟩ := Tags.insertBlock_eq_ok h
  have hblk : (cache.tags.setBlk (config.geometry.extractSet pkt.addr) way blk).blks
      (config.geometry.extractSet pkt.addr) way = blk := by
    simp [Tags.setBlk_blks]
  refine ⟨by rw [hblk, hvalid], by rw [hblk, htag], ?_⟩
  intro hpkt
  rw [hblk, hsecure, hpkt, Bool.or_true]

/-- The target of a writeback is the block found, or the victim of a set with room. -/
theorem writebackTarget_ok {cache : Cache config} (hreplaceable : cache.tags.Replaceable)
    {pkt : Packet} {blk : Option (BlkRef config.geometry)} (random : Fin config.geometry.assoc)
    (hfound : ∀ ref ∈ blk, ∃ way, ref = .slot (config.geometry.extractSet pkt.addr) way ∧
      HoldsLine cache pkt way)
    (hroom : blk = none → HasRoom cache pkt) :
    ∃ way target writebacks, cache.writebackTarget pkt blk random =
      .ok (some (.slot (config.geometry.extractSet pkt.addr) way), target, writebacks) ∧
      HoldsLine target pkt way := by
  cases blk with
  | some ref =>
      obtain ⟨way, rfl, hline⟩ := hfound ref rfl
      exact ⟨way, cache, [], rfl, hline⟩
  | none =>
      have hvictim := (findVictim_valid hreplaceable pkt.addr random).mpr (hroom rfl)
      have hok : ∃ result, cache.allocateBlock pkt [] random = .ok result :=
        allocateBlock_ok_iff.mpr hvictim
      obtain ⟨⟨found, allocated, writebacks⟩, hallocate⟩ := hok
      obtain ⟨rfl, -, tags, htags, rfl⟩ := allocateBlock_eq_ok hallocate
      obtain ⟨readable, hreadable, hline, -⟩ :=
        (insertBlock_holdsLine htags).setCoherenceBits .readableBit
      refine ⟨_, readable, writebacks, ?_, hline⟩
      simp only [writebackTarget, hallocate, ok_bind, hreadable]
      rfl

/-- Without an MSHR in the way the packet goes into its target. -/
theorem accessWriteback_stored {cache : Cache config} (hreplaceable : cache.tags.Replaceable)
    {pkt : Packet} {blk : Option (BlkRef config.geometry)} (random : Fin config.geometry.assoc)
    (hcmd : isLineWrite pkt.cmd = true) (hsize : pkt.size = config.blkSize)
    (hpending : (if pkt.cmd == .writebackClean then
      cache.mshrQueue.findMatch pkt.addr pkt.isSecure true else .ok none) = .ok none)
    (hfound : ∀ ref ∈ blk, ∃ way, ref = .slot (config.geometry.extractSet pkt.addr) way ∧
      HoldsLine cache pkt way)
    (hroom : blk = none → HasRoom cache pkt) :
    ∃ accessed way, cache.accessWriteback pkt blk random = .ok accessed ∧
      Taken accessed pkt way := by
  obtain ⟨-, -, hresponse, -, -, -⟩ := isLineWrite_attributes hcmd
  obtain ⟨way, target, writebacks, htarget, hline⟩ :=
    writebackTarget_ok hreplaceable random hfound hroom
  have hdirty : ∃ dirty, (if pkt.cmd == .writebackDirty then target.setCoherenceBits
      (.slot (config.geometry.extractSet pkt.addr) way) .dirtyBit else .ok target) = .ok dirty ∧
      TookLine dirty pkt way := by
    by_cases hdirty : pkt.cmd = .writebackDirty
    · obtain ⟨dirty, hset, hline', hbit, -⟩ := hline.setCoherenceBits .dirtyBit
      exact ⟨dirty, by simpa [hdirty] using hset, hline', fun _ => hbit⟩
    · exact ⟨target, by simp [hdirty], hline, fun h => absurd h hdirty⟩
  obtain ⟨dirty, hdirty, htook⟩ := hdirty
  have hwritable : ∃ writable, (if pkt.hasSharers then .ok dirty else dirty.setCoherenceBits
      (.slot (config.geometry.extractSet pkt.addr) way) .writableBit) = .ok writable ∧
      TookLine writable pkt way := by
    cases pkt.hasSharers with
    | true => exact ⟨dirty, rfl, htook⟩
    | false =>
        obtain ⟨writable, hset, htook', -⟩ := htook.setCoherenceBits .writableBit
        exact ⟨writable, hset, htook'⟩
  obtain ⟨writable, hwritable, htook⟩ := hwritable
  have haccess : cache.accessWriteback pkt blk random = .ok
      { satisfied := true, blk := some (.slot (config.geometry.extractSet pkt.addr) way), pkt,
        cache := writable, writebacks } := by
    simp only [accessWriteback, hsize, BEq.rfl, check_true, ok_bind, hpending, Option.isSome_none,
      Bool.false_eq_true, ↓reduceIte, htarget, hdirty, hwritable, hresponse, Bool.not_false,
      updateBlockData]
    rfl
  exact ⟨_, way, haccess, htook, rfl, rfl, rfl⟩

/-- Past the write buffer, which is empty, the base class looks the block up and
goes on with the writeback or with a plain access. -/
theorem accessBase_lineWrite {cache : Cache config}
    (hempty : cache.writeBuffer.allocatedList = []) (hreadOnly : config.isReadOnly = false)
    {pkt : Packet} (hcmd : isLineWrite pkt.cmd = true) (random : Fin config.geometry.assoc) :
    cache.accessBase pkt random = if pkt.cmd = .writeClean then
        (cache.accessBlock pkt).2.accessLine pkt (cache.findBlock pkt.addr pkt.isSecure)
      else (cache.accessBlock pkt).2.accessWriteback pkt (cache.findBlock pkt.addr pkt.isSecure)
        random := by
  have hmeet : (cache.accessBlock pkt).2.meetWriteBuffer pkt =
      .ok (false, (cache.accessBlock pkt).2) :=
    meetWriteBuffer_eq (by rw [(accessBlock_kept cache pkt).writeBuffer, hempty]) pkt
  obtain ⟨hrequest, -⟩ := isLineWrite_attributes hcmd
  simp only [accessBase, hrequest, hreadOnly, Bool.false_and, Bool.not_false, check_true, ok_bind,
    hmeet, Bool.false_eq_true, ↓reduceIte, accessBlock_fst]
  obtain hdirty | hclean | hwrite := isLineWrite_cases hcmd
  · rw [hdirty]
    rfl
  · rw [hclean]
    rfl
  · rw [hwrite]
    rfl

/-- A clean writeback that is dropped still finds its line here. -/
theorem accessWriteback_dropped {cache : Cache config} {pkt : Packet}
    {way : Fin config.geometry.assoc} (random : Fin config.geometry.assoc)
    (hcmd : pkt.cmd = .writebackClean) (hsize : pkt.size = config.blkSize)
    {index : Fin config.mshrs}
    (hpending : cache.mshrQueue.findMatch pkt.addr pkt.isSecure true = .ok (some index))
    (hline : HoldsLine cache pkt way) :
    ∃ accessed, cache.accessWriteback pkt
        (some (.slot (config.geometry.extractSet pkt.addr) way)) random = .ok accessed ∧
      Taken accessed pkt way := by
  have haccess : cache.accessWriteback pkt
      (some (.slot (config.geometry.extractSet pkt.addr) way)) random = .ok
      { satisfied := true, blk := some (.slot (config.geometry.extractSet pkt.addr) way), pkt,
        cache, writebacks := [] } := by
    simp only [accessWriteback, hsize, hcmd, BEq.rfl, check_true, ok_bind, ↓reduceIte, hpending,
      Option.isSome_some]
    rfl
  refine ⟨_, haccess, ⟨hline, ?_⟩, rfl, rfl, rfl⟩
  rw [hcmd]
  rintro ⟨⟩

/-- A clean write hits if its line is readable. -/
theorem accessLine_taken {cache : Cache config} {pkt : Packet} {way : Fin config.geometry.assoc}
    (hcmd : pkt.cmd = .writeClean) (hline : HoldsLine cache pkt way)
    (hreadable : (cache.tags.blks (config.geometry.extractSet pkt.addr) way).isSet .readableBit =
      true) :
    ∃ accessed, cache.accessLine pkt
        (some (.slot (config.geometry.extractSet pkt.addr) way)) = .ok accessed ∧
      Taken accessed pkt way := by
  have hpermits : cache.permits pkt (some (.slot (config.geometry.extractSet pkt.addr) way)) =
      .ok true := by
    simp only [permits, Packet.needsWritable, hcmd]
    exact congrArg Except.ok hreadable
  have haccess : cache.accessLine pkt
      (some (.slot (config.geometry.extractSet pkt.addr) way)) = .ok
      { satisfied := true, blk := some (.slot (config.geometry.extractSet pkt.addr) way), pkt,
        cache, writebacks := [] } := by
    simp only [accessLine, hpermits, ok_bind, ↓reduceIte, satisfyRequest, hcmd]
    rfl
  refine ⟨_, haccess, ⟨hline, ?_⟩, rfl, rfl, rfl⟩
  rw [hcmd]
  rintro ⟨⟩

/-- A writeback to a line that is here goes into its block, unless it is dropped. -/
theorem accessWriteback_found {cache : Cache config} (hreplaceable : cache.tags.Replaceable)
    (hheld : Entrywise Held cache) {pkt : Packet} {way : Fin config.geometry.assoc}
    (hcmd : isLineWrite pkt.cmd = true) (hsize : pkt.size = config.blkSize)
    (hline : HoldsLine cache pkt way) (random : Fin config.geometry.assoc) :
    ∃ accessed way', cache.accessWriteback pkt
        (some (.slot (config.geometry.extractSet pkt.addr) way)) random = .ok accessed ∧
      Taken accessed pkt way' := by
  have hfound : ∀ ref ∈ some (BlkRef.slot (config.geometry.extractSet pkt.addr) way),
      ∃ way', ref = .slot (config.geometry.extractSet pkt.addr) way' ∧
        HoldsLine cache pkt way' := by
    rintro ref ⟨⟩
    exact ⟨way, rfl, hline⟩
  obtain ⟨pending, hpending⟩ := hheld.findMatch pkt.addr pkt.isSecure true
  by_cases hclean : pkt.cmd = .writebackClean
  · cases pending with
    | some index =>
        obtain ⟨accessed, haccess, htaken⟩ :=
          accessWriteback_dropped random hclean hsize hpending hline
        exact ⟨accessed, way, haccess, htaken⟩
    | none =>
        exact accessWriteback_stored hreplaceable random hcmd hsize
          (by simpa [hclean] using hpending) hfound (by simp)
  · exact accessWriteback_stored hreplaceable random hcmd hsize (by simp [hclean]) hfound (by simp)

theorem accessBase_taken {cache : Cache config} (hsound : Sound cache)
    (hheld : Entrywise Held cache) {pkt : Packet} (hcmd : isLineWrite pkt.cmd = true)
    (hsize : pkt.size = config.blkSize) (hreadOnly : config.isReadOnly = false)
    (hready : LineReady cache pkt) (random : Fin config.geometry.assoc) :
    ∃ accessed way, cache.accessBase pkt random = .ok accessed ∧ Taken accessed pkt way := by
  have hkept := accessBlock_kept cache pkt
  have hreplaceable := hkept.replaceable hsound.replaceable
  rw [accessBase_lineWrite hsound.writeBuffer.1 hreadOnly hcmd]
  unfold LineReady at hready
  cases hblk : cache.findBlock pkt.addr pkt.isSecure with
  | none =>
      rw [hblk] at hready
      obtain ⟨hwrite, ⟨way, hway⟩, hpending⟩ := hready
      rw [if_neg hwrite]
      refine accessWriteback_stored hreplaceable random hcmd hsize ?_ (by simp) ?_
      · by_cases hclean : pkt.cmd = .writebackClean
        · simpa [hclean, hkept.mshrQueue] using hpending hclean
        · simp [hclean]
      · intro _
        exact ⟨way, (hkept.lines _ way).valid.trans hway⟩
  | some ref =>
      rw [hblk] at hready
      obtain ⟨way, rfl, hline⟩ := findBlock_cases hblk
      by_cases hwrite : pkt.cmd = .writeClean
      · rw [if_pos hwrite]
        have hreadable : ((cache.accessBlock pkt).2.getBlk
            (.slot (config.geometry.extractSet pkt.addr) way)).isSet .readableBit = true := by
          rw [isSet_accessBlock]
          exact hready hwrite
        obtain ⟨accessed, haccess, htaken⟩ := accessLine_taken hwrite (hline.kept hkept) hreadable
        exact ⟨accessed, way, haccess, htaken⟩
      · rw [if_neg hwrite]
        exact accessWriteback_found hreplaceable (hheld.sameQueue hkept.mshrQueue) hcmd hsize
          (hline.kept hkept) random

/-- The assertion after the base class is met, and the block may be written. -/
theorem access_taken {cache : Cache config} (hsound : Sound cache)
    (hheld : Entrywise Held cache) {pkt : Packet} (hcmd : isLineWrite pkt.cmd = true)
    (hsize : pkt.size = config.blkSize) (hreadOnly : config.isReadOnly = false)
    (hready : LineReady cache pkt) (random : Fin config.geometry.assoc) :
    ∃ accessed way, cache.access pkt random = .ok accessed ∧ Taken accessed pkt way ∧
      (accessed.cache.tags.blks (config.geometry.extractSet pkt.addr) way).isSet .writableBit =
        true := by
  obtain ⟨base, way, hbase, htaken⟩ :=
    accessBase_taken hsound hheld hcmd hsize hreadOnly hready random
  obtain ⟨-, -, -, -, -, hkind⟩ := isLineWrite_attributes hcmd
  obtain ⟨writable, hwritable, htook, hbit⟩ := htaken.toTookLine.setCoherenceBits .writableBit
  refine ⟨{ base with cache := writable }, way, ?_,
    ⟨htook, htaken.satisfied, htaken.same, htaken.blk⟩, hbit⟩
  simp only [access, hbase, ok_bind, hkind, ↓reduceIte, htaken.blk, hwritable]
  rfl

/-- The packet is absorbed by the block it found or was given. -/
theorem recvTimingReq_absorbed {cache : Cache config} (hsound : Sound cache)
    (hheld : Entrywise Held cache) {pkt : Packet} (hcmd : isLineWrite pkt.cmd = true)
    (hsize : pkt.size = config.blkSize) (hroutable : Routable cache pkt)
    (random : Fin config.geometry.assoc) :
    ∃ next, cache.recvTimingReq pkt random = .ok next ∧ next.mshrQueue = cache.mshrQueue ∧
      Absorbed next pkt := by
  obtain ⟨-, hwrite, hresponse, hunlocked, hreopen, -⟩ := isLineWrite_attributes hcmd
  obtain ⟨accessed, way, haccess, htaken, hbit⟩ :=
    access_taken hsound hheld hcmd hsize hroutable.isReadOnly hroutable.line random
  have htouched := access_touched hsound.writeBuffer.1 haccess
  have hcleared := clearPrefetched_kept accessed.cache accessed.blk
  have hbits := isSet_clearPrefetched accessed.cache accessed.blk
    (.slot (config.geometry.extractSet pkt.addr) way)
  have hfinal : ∃ next, cache.recvTimingReq pkt random = .ok next ∧
      next.mshrQueue = (accessed.cache.clearPrefetched accessed.blk).mshrQueue ∧
      next.tags = (accessed.cache.clearPrefetched accessed.blk).tags ∧
      next.pendingDelete = some pkt := by
    have hline : cache.reopenLine pkt = .ok cache := by
      simp [reopenLine, hreopen]
    simp only [recvTimingReq, hroutable.cacheResponding, hwrite, Bool.not_false, Bool.or_true,
      check_true, ok_bind, hline, haccess, htaken.satisfied, ↓reduceIte, handleTimingReqHit,
      htaken.same, hunlocked, hresponse, Bool.false_eq_true]
    cases config.hasPrefetcher with
    | true => exact ⟨_, rfl, rfl, rfl, rfl⟩
    | false => exact ⟨_, rfl, rfl, rfl, rfl⟩
  obtain ⟨next, hnext, hqueue, htags, hdelete⟩ := hfinal
  refine ⟨next, hnext, ?_, hdelete, way, ⟨?_, ?_⟩, ?_⟩
  · rw [hqueue, hcleared.mshrQueue, htouched.mshrQueue]
  · have hline := htaken.toHoldsLine.kept hcleared
    exact ⟨by rw [htags, hline.valid], by rw [htags, hline.tag],
      fun hpkt => by rw [htags, hline.secure hpkt]⟩
  · intro hdirty
    rw [htags]
    exact (hbits .dirtyBit).trans (htaken.dirty hdirty)
  · rw [htags]
    exact (hbits .writableBit).trans hbit

/-- A writeback that gets through found its line, or room for it. -/
theorem accessWriteback_ready {cache : Cache config} {pkt : Packet}
    {random : Fin config.geometry.assoc} {accessed : Accessed config}
    (h : cache.accessWriteback pkt none random = .ok accessed) (hblk : accessed.blk ≠ none) :
    HasRoom cache pkt ∧ (pkt.cmd = .writebackClean →
      cache.mshrQueue.findMatch pkt.addr pkt.isSecure true = .ok none) := by
  simp only [accessWriteback, bind_eq_ok, check_eq_ok, exists_const] at h
  obtain ⟨-, pending, hpending, h⟩ := h
  cases pending with
  | some index =>
      rw [Option.isSome_some, if_pos rfl, pure_eq_ok] at h
      rw [← h] at hblk
      exact absurd rfl hblk
  | none =>
      simp only [Option.isSome_none, Bool.false_eq_true, ↓reduceIte, bind_eq_ok] at h
      obtain ⟨⟨found, target, writebacks⟩, htarget, -⟩ := h
      simp only [writebackTarget, bind_eq_ok] at htarget
      obtain ⟨⟨allocated, middle, wbs⟩, hallocate, -⟩ := htarget
      have hvictim := allocateBlock_ok_iff.mp ⟨_, hallocate⟩
      refine ⟨⟨_, hvictim⟩, ?_⟩
      intro hclean
      simpa [hclean] using hpending

/-- A clean write to a line it may not read has nowhere to go: a valid block is
not to miss, and the write buffer would refuse the packet anyway. -/
theorem handleTimingReqMiss_writeClean_fails {cache next : Cache config} {pkt : Packet}
    (hcmd : pkt.cmd = .writeClean) {way : Fin config.geometry.assoc}
    (hline : HoldsLine cache pkt way) :
    cache.handleTimingReqMiss pkt (some (.slot (config.geometry.extractSet pkt.addr) way)) ≠
      .ok next := by
  intro h
  have hvalid : (cache.getBlk (.slot (config.geometry.extractSet pkt.addr) way)).valid = true :=
    hline.valid
  simp only [handleTimingReqMiss, bind_eq_ok, check_eq_ok, exists_const, Option.all_some, hvalid,
    Bool.not_true, Bool.or_false] at h
  obtain ⟨found, -, hsome, h⟩ := h
  cases found with
  | none => cases hsome
  | some index =>
      simp only [coalesce, hcmd, bind_eq_ok] at h
      obtain ⟨-, -, h⟩ := h
      exact allocateWriteBuffer_fails _ _ _ _ h

theorem accessWriteback_lineReady {cache : Cache config} {pkt : Packet}
    {random : Fin config.geometry.assoc} {accessed : Accessed config}
    (hcmd : pkt.cmd ≠ .writeClean)
    (h : (cache.accessBlock pkt).2.accessWriteback pkt (cache.findBlock pkt.addr pkt.isSecure)
      random = .ok accessed) (hblk : accessed.blk ≠ none) : LineReady cache pkt := by
  have hkept := accessBlock_kept cache pkt
  unfold LineReady
  cases hfound : cache.findBlock pkt.addr pkt.isSecure with
  | some found =>
      intro hclean
      exact absurd hclean hcmd
  | none =>
      rw [hfound] at h
      obtain ⟨⟨way, hway⟩, hpending⟩ := accessWriteback_ready h hblk
      rw [hkept.mshrQueue] at hpending
      exact ⟨hcmd, ⟨way, (hkept.lines _ way).valid.symm.trans hway⟩, hpending⟩

/-- A clean write that leaves a block found its line, and is satisfied only if it
may read it. -/
theorem accessLine_lineReady {cache : Cache config} {pkt : Packet} {accessed : Accessed config}
    (hcmd : pkt.cmd = .writeClean)
    (h : (cache.accessBlock pkt).2.accessLine pkt (cache.findBlock pkt.addr pkt.isSecure) =
      .ok accessed) {ref : BlkRef config.geometry} (hblk : accessed.blk = some ref) :
    accessed.pkt = pkt ∧ (accessed.satisfied = true → LineReady cache pkt) ∧
      ∃ way, ref = .slot (config.geometry.extractSet pkt.addr) way ∧
        HoldsLine accessed.cache pkt way := by
  obtain ⟨hcache, hsame, hrest⟩ := accessLine_eq_ok h
  obtain ⟨hpkt, hpermits⟩ := hrest (by rw [hcmd]; rfl)
  rw [hblk] at hsame
  obtain ⟨way, rfl, hline⟩ := findBlock_cases hsame.symm
  rw [permits_accessBlock, ← hsame] at hpermits
  simp only [permits, Packet.needsWritable, hcmd] at hpermits
  refine ⟨hpkt, ?_, way, rfl, ?_⟩
  · intro hsatisfied
    unfold LineReady
    rw [← hsame]
    intro _
    rw [hsatisfied] at hpermits
    exact Except.ok.inj hpermits
  · rw [hcache]
    exact hline.kept (accessBlock_kept cache pkt)

/-- The access leaves a block, so the line is ready or the packet goes on as a
clean write that missed. -/
theorem access_ready {cache : Cache config} (hempty : cache.writeBuffer.allocatedList = [])
    {pkt : Packet} (hcmd : isLineWrite pkt.cmd = true) {random : Fin config.geometry.assoc}
    {accessed : Accessed config} (h : cache.access pkt random = .ok accessed) :
    config.isReadOnly = false ∧ (LineReady cache pkt ∨
      pkt.cmd = .writeClean ∧ accessed.satisfied = false ∧ accessed.pkt = pkt ∧
        ∃ way, accessed.blk = some (.slot (config.geometry.extractSet pkt.addr) way) ∧
          HoldsLine accessed.cache pkt way) := by
  obtain ⟨-, hwrite, -, -, -, hkind⟩ := isLineWrite_attributes hcmd
  simp only [access, bind_eq_ok, hkind, ↓reduceIte] at h
  obtain ⟨base, hbase, h⟩ := h
  have hreadOnly : config.isReadOnly = false := by
    simp only [accessBase, bind_eq_ok, check_eq_ok, exists_const, hwrite, Bool.and_true,
      Bool.not_eq_true'] at hbase
    exact hbase.2.1
  refine ⟨hreadOnly, ?_⟩
  rw [accessBase_lineWrite hempty hreadOnly hcmd] at hbase
  cases hblk : base.blk with
  | none =>
      simp only [hblk] at h
      cases h
  | some ref =>
      simp only [hblk, bind_eq_ok, pure_eq_ok] at h
      obtain ⟨writable, hwritable, rfl⟩ := h
      by_cases hclean : pkt.cmd = .writeClean
      · rw [if_pos hclean] at hbase
        obtain ⟨hpkt, hready, way, rfl, hline⟩ := accessLine_lineReady hclean hbase hblk
        cases hsatisfied : base.satisfied with
        | true => exact .inl (hready hsatisfied)
        | false =>
            exact .inr ⟨hclean, rfl, hpkt, way, rfl, hline.kept (setCoherenceBits_kept hwritable)⟩
      · rw [if_neg hclean] at hbase
        exact .inl (accessWriteback_lineReady hclean hbase (by simp [hblk]))

theorem recvTimingReq_routable {cache next : Cache config} (hsound : Sound cache) {pkt : Packet}
    (hcmd : isLineWrite pkt.cmd = true) {random : Fin config.geometry.assoc}
    (h : cache.recvTimingReq pkt random = .ok next) : Routable cache pkt := by
  obtain ⟨-, -, -, -, hreopen, -⟩ := isLineWrite_attributes hcmd
  have hforeign : pkt.cacheResponding = false := by
    simp only [recvTimingReq, bind_eq_ok, check_eq_ok, exists_const, Bool.not_eq_true'] at h
    exact h.1
  obtain ⟨reopened, accessed, handled, -, hsame, haccess, -, hhandled, -⟩ :=
    recvTimingReq_cases hsound.writeBuffer.1 h
  rw [hsame hreopen] at haccess
  obtain ⟨hreadOnly, hready | ⟨hclean, hmissed, hpkt, way, hblk, hline⟩⟩ :=
    access_ready hsound.writeBuffer.1 hcmd haccess
  · exact ⟨hforeign, hreadOnly, hready⟩
  · rw [hmissed, if_neg Bool.false_ne_true, hpkt, hblk] at hhandled
    exact absurd hhandled (handleTimingReqMiss_writeClean_fails hclean hline)

/-- In every reachable cache, a line write is routed exactly when its line is
ready for it. -/
theorem line_write_routed_iff {writeAllocator : Option WriteAllocator}
    {labels : List (Label config)} {final : System config}
    (hrun : Transition.run System.step (System.new config writeAllocator) labels = .ok final)
    {pkt : Packet} (hcmd : isLineWrite pkt.cmd = true) (hsize : pkt.size = config.blkSize)
    (random : Fin config.geometry.assoc) :
    Routed final.cache pkt random ↔ Routable final.cache pkt := by
  have hsound := System.run_sound hrun
  constructor
  · rintro ⟨next, hnext, -, -⟩
    exact recvTimingReq_routable hsound hcmd hnext
  · intro hroutable
    obtain ⟨next, hnext, hqueue, habsorbed⟩ := recvTimingReq_absorbed hsound
      (run_entrywise held_stable hrun) hcmd hsize hroutable random
    exact ⟨next, hnext, hqueue, .inl habsorbed⟩

/-- The fourth dirty line of a set of four still finds a way. -/
theorem line_write_routed_fourth :
    ∃ final, Transition.run System.step (System.new simL0Params none)
        (writebacksToOneSet [0, 1, 2]) = .ok final ∧
      Routed final.cache (conflictingWriteback 3) simL0Params.geometry.firstWay := by
  obtain ⟨final, hrun, hseen⟩ := exists_ok_of_observed
    (show ((Transition.run System.step (System.new simL0Params none)
      (writebacksToOneSet [0, 1, 2])).toOption.map fun final =>
        (final.cache.findBlock (conflictingWriteback 3).addr (conflictingWriteback 3).isSecure,
          (final.cache.tags.blks (simL0Params.geometry.extractSet (conflictingWriteback 3).addr)
            ⟨3, by decide⟩).valid)) = some (none, false) by decide +kernel)
  simp only [Prod.mk.injEq] at hseen
  obtain ⟨habsent, hinvalid⟩ := hseen
  refine ⟨final, hrun, (line_write_routed_iff hrun (by decide) (by decide) _).mpr
    ⟨by decide, rfl, ?_⟩⟩
  unfold LineReady
  rw [habsent]
  exact ⟨by decide, ⟨⟨3, by decide⟩, hinvalid⟩, by rintro ⟨⟩⟩

/-- The line at 0x200 is asked for. -/
def askForLine : List (Label simL0Params) :=
  [.recvTimingReq (Packet.ofRequest 0 (Request.physical 0x200 4 0 0) .readReq)
    simL0Params.geometry.firstWay]

/-- The whole line at 0x200, written by a cache above. -/
def writeLine (cmd : MemCmd) : Packet :=
  { Packet.ofRequest 0 (Request.physical 0x200 512 0 0) cmd with data := List.replicate 512 1 }

/-- A clean writeback that meets an MSHR for its line is to be dropped, and a clean
write that misses is to go to the write buffer; the block they do not have is
asserted first.  The write buffer is empty. -/
theorem line_write_without_block_fails :
    ∃ final, Transition.run System.step (System.new simL0Params none) askForLine = .ok final ∧
      final.cache.writeBuffer.isFull = false ∧
      (writeLine .writebackClean).size = simL0Params.blkSize ∧
      Outstanding final.cache (writeLine .writebackClean) ∧
      ¬ Routed final.cache (writeLine .writebackClean) simL0Params.geometry.firstWay ∧
      ¬ Routed final.cache (writeLine .writeClean) simL0Params.geometry.firstWay := by
  obtain ⟨final, hrun, hseen⟩ := exists_ok_of_observed
    (show ((Transition.run System.step (System.new simL0Params none) askForLine).toOption.map
      fun final => (final.cache.writeBuffer.isFull,
        decide (∃ index ∈ final.cache.mshrQueue.allocatedList,
          (final.cache.mshrQueue.entries index).blkAddr = (writeLine .writebackClean).addr ∧
          (final.cache.mshrQueue.entries index).isSecure = (writeLine .writebackClean).isSecure),
        failure (final.cache.recvTimingReq (writeLine .writebackClean)
          simL0Params.geometry.firstWay),
        failure (final.cache.recvTimingReq (writeLine .writeClean)
          simL0Params.geometry.firstWay))) =
      some (false, true, some .blockExpected, some .blockExpected) by decide +kernel)
  simp only [Prod.mk.injEq, decide_eq_true_eq, failure_eq_some] at hseen
  obtain ⟨hroom, hwaiting, hdropped, hclean⟩ := hseen
  refine ⟨final, hrun, hroom, by decide, .inl hwaiting, ?_, ?_⟩
  · rintro ⟨next, hnext, -⟩
    rw [hdropped] at hnext
    cases hnext
  · rintro ⟨next, hnext, -⟩
    rw [hclean] at hnext
    cases hnext

end KuiperCache.Writebacks
