import KuiperCache.Cache.Moves
import KuiperCache.Cache.MissTracking

/-! What a block keeps for good.  A line that has come in stays, no block ever gets
other data or a lock, and dirty lines come from above or from an owner, never from a
write. -/
namespace KuiperCache.Permanent

open Checked Cells Cache MissTracking

variable {config : CacheConfig}

/-- The calls that may bring in a dirty line. -/
def bringsDirty : Label config → Bool
  | .recvTimingReq pkt _ => pkt.cmd == .writebackDirty
  | .getNextQueueEntry _ => false
  | .sendMSHRQueuePacket .. => false
  | .handleTimingRes .. => false
  | .recvTimingResp pkt _ => pkt.cacheResponding

/-- `anyBlk`: the blocks one after the other, set by set. -/
def anyBlk {geometry : Geometry} (tags : Tags geometry) (visitor : CacheBlk → Bool) : Bool :=
  (List.finRange geometry.numSets).any fun set =>
    (List.finRange geometry.assoc).any fun way => visitor (tags.blks set way)

def isDirty (cache : Cache config) : Bool := anyBlk cache.tags fun blk => blk.isSet .dirtyBit

/-- The bytes that a block's data pointer is given when the cache is built. -/
def storage (config : CacheConfig) : BlkRef config.geometry → List UInt8
  | .slot set way => blkData config.dataBlks config.blkSize (config.geometry.slot set way)
  | .temp => slice config.tempData 0 config.blkSize

/-- A preorder on blocks that admits all that is done to a block but setting its
dirty bit and marking it as prefetched. -/
structure QuietEdits (R : CacheBlk → CacheBlk → Prop) : Prop where
  refl : ∀ blk, R blk blk
  trans : ∀ a b c, R a b → R b c → R a c
  readable : ∀ blk, R blk { blk with readable := true }
  writable : ∀ blk, R blk { blk with writable := true }
  cleared : ∀ blk bit, R blk (blk.clearCoherenceBits bit)
  counted : ∀ blk, R blk { blk with refCount := blk.refCount + 1 }
  tagged : ∀ blk tag secure, blk.valid = false →
    R blk { blk with valid := true, tag, secure := blk.secure || secure }
  inserted : ∀ blk tag secure srcRequestorId taskId, blk.valid = false →
    R blk { blk with
      valid := true, tag, secure := blk.secure || secure, srcRequestorId, taskId
      refCount := blk.refCount + 1, replValid := true }

/-- It also admits the mark. -/
structure Edits (R : CacheBlk → CacheBlk → Prop) : Prop extends QuietEdits R where
  prefetched : ∀ blk mark, R blk { blk with prefetched := mark }

/-- Every block, the temporary one included, changes as the relation allows. -/
def Blockwise (R : CacheBlk → CacheBlk → Prop) (before after : Cache config) : Prop :=
  ∀ ref, R (before.getBlk ref) (after.getBlk ref)

theorem getBlk_setBlk_cases (cache : Cache config) (ref other : BlkRef config.geometry)
    (blk : CacheBlk) : (other = ref ∧ (cache.setBlk ref blk).getBlk other = blk) ∨
      (cache.setBlk ref blk).getBlk other = cache.getBlk other := by
  cases ref with
  | temp =>
      cases other with
      | temp => exact .inl ⟨rfl, rfl⟩
      | slot set way => exact .inr rfl
  | slot set way =>
      cases other with
      | temp => exact .inr rfl
      | slot set' way' =>
          simp only [setBlk, getBlk, Tags.setBlk_blks]
          split
          · rename_i hself
            exact .inl ⟨by rw [hself.1, hself.2], rfl⟩
          · exact .inr rfl

section

variable {R : CacheBlk → CacheBlk → Prop}

theorem Blockwise.setBlk (hR : QuietEdits R) (cache : Cache config) (ref : BlkRef config.geometry)
    {blk : CacheBlk} (h : R (cache.getBlk ref) blk) : Blockwise R cache (cache.setBlk ref blk) := by
  intro other
  obtain ⟨rfl, hself⟩ | hother := getBlk_setBlk_cases cache ref other blk
  · rw [hself]
    exact h
  · rw [hother]
    exact hR.refl _

theorem blockwise_quiet (hR : QuietEdits R) : Quiet (@Blockwise config R) where
  refl _ _ := hR.refl _
  trans hab hbc ref := hR.trans _ _ _ (hab ref) (hbc ref)
  besides := by
    intro before after htags htemp _ _ _ ref
    cases ref with
    | slot set way =>
        simp only [getBlk, htags]
        exact hR.refl _
    | temp =>
        simp only [getBlk, htemp]
        exact hR.refl _
  setReadable cache ref := .setBlk hR cache ref (hR.readable _)
  setWritable cache ref := .setBlk hR cache ref (hR.writable _)
  clear cache ref bit := .setBlk hR cache ref (hR.cleared _ bit)
  count cache ref := .setBlk hR cache ref (hR.counted _)
  tag cache ref _ _ hinvalid := .setBlk hR cache ref (hR.tagged _ _ _ hinvalid)
  insert cache ref _ _ _ _ hinvalid := .setBlk hR cache ref (hR.inserted _ _ _ _ _ hinvalid)

theorem blockwise_moves (hR : Edits R) : Moves (@Blockwise config R) where
  toQuiet := blockwise_quiet hR.toQuietEdits
  mark cache ref mark := .setBlk hR.toQuietEdits cache ref (hR.prefetched _ mark)

theorem blockwise_counts (hR : QuietEdits R) : Counts (@Blockwise config R) := by
  intro cache ref
  cases ref <;> exact hR.refl _

theorem blockwise_adapts (hR : QuietEdits R) : Adapts (@Blockwise config R) := by
  intro cache writeAllocator ref
  cases ref <;> exact hR.refl _

end

/-- The data and the locks stay as they are, and so does a line that is there. -/
structure Lasting (before after : CacheBlk) : Prop where
  data : after.data = before.data
  lockList : after.lockList = before.lockList
  line : before.valid = true →
    after.valid = true ∧ after.tag = before.tag ∧ after.secure = before.secure

theorem lasting_edits : Edits Lasting where
  refl _ := ⟨rfl, rfl, fun h => ⟨h, rfl, rfl⟩⟩
  trans a b c hab hbc := by
    refine ⟨hbc.data.trans hab.data, hbc.lockList.trans hab.lockList, ?_⟩
    intro hvalid
    obtain ⟨hb, htag, hsecure⟩ := hab.line hvalid
    obtain ⟨hc, htag', hsecure'⟩ := hbc.line hb
    exact ⟨hc, htag'.trans htag, hsecure'.trans hsecure⟩
  readable _ := ⟨rfl, rfl, fun h => ⟨h, rfl, rfl⟩⟩
  writable _ := ⟨rfl, rfl, fun h => ⟨h, rfl, rfl⟩⟩
  cleared blk bit := by
    cases bit <;> exact ⟨rfl, rfl, fun h => ⟨h, rfl, rfl⟩⟩
  counted _ := ⟨rfl, rfl, fun h => ⟨h, rfl, rfl⟩⟩
  prefetched _ _ := ⟨rfl, rfl, fun h => ⟨h, rfl, rfl⟩⟩
  tagged blk tag secure hinvalid := by
    refine ⟨rfl, rfl, fun hvalid => ?_⟩
    rw [hinvalid] at hvalid
    cases hvalid
  inserted blk tag secure srcRequestorId taskId hinvalid := by
    refine ⟨rfl, rfl, fun hvalid => ?_⟩
    rw [hinvalid] at hvalid
    cases hvalid

theorem lasting_dirties : Dirties (@Blockwise config Lasting) :=
  fun cache ref => .setBlk lasting_edits.toQuietEdits cache ref ⟨rfl, rfl, fun h => ⟨h, rfl, rfl⟩⟩

/-- A block that is not dirty stays so. -/
def Clean (before after : CacheBlk) : Prop := before.dirty = false → after.dirty = false

theorem clean_edits : Edits Clean where
  refl _ := id
  trans _ _ _ hab hbc := hbc ∘ hab
  readable _ := id
  writable _ := id
  cleared blk bit := by
    cases bit with
    | writableBit => exact id
    | readableBit => exact id
    | dirtyBit => exact fun _ => rfl
  counted _ := id
  prefetched _ _ := id
  tagged _ _ _ _ := id
  inserted _ _ _ _ _ _ := id

/-- One call changes the blocks as the relation allows. -/
theorem step_blockwise {R : CacheBlk → CacheBlk → Prop} (hR : Edits R) {system next : System config}
    {label : Label config} (hdirty : bringsDirty label = true → Dirties (@Blockwise config R))
    (hsound : Sound system.cache) (hstep : system.step label = .ok next) :
    Blockwise R system.cache next.cache := by
  have hmoves := @blockwise_moves config R hR
  have hcounts := @blockwise_counts config R hR.toQuietEdits
  have hadapts := @blockwise_adapts config R hR.toQuietEdits
  have hfresh : Blockwise R system.cache system.cache.newPtr.2 :=
    hmoves.besides rfl rfl rfl rfl (Nat.le_succ _)
  obtain ⟨hallocated, hready⟩ := hsound.writeBuffer
  cases label with
  | recvTimingReq pkt random =>
      obtain ⟨cache, hreq, rfl⟩ := System.step_recvTimingReq hstep
      refine hmoves.trans hfresh (hmoves.recvTimingReq hcounts hadapts ?_ ?_ hreq)
      · exact hallocated
      · exact fun hcmd => hdirty (beq_iff_eq.mpr hcmd)
  | getNextQueueEntry prefetch =>
      obtain ⟨entry, cache, hnext, rfl⟩ := System.step_getNextQueueEntry hstep
      exact hmoves.trans hfresh (hmoves.getNextQueueEntry hcounts hready hnext)
  | sendMSHRQueuePacket index reply random =>
      obtain ⟨waiting, cache, flight, hsend, rfl⟩ := System.step_sendMSHRQueuePacket hstep
      exact hmoves.sendMSHRQueuePacket hadapts hsend
  | handleTimingRes pkt random =>
      obtain ⟨cache, hres, rfl⟩ := System.step_handleTimingRes hstep
      exact hmoves.handleTimingRes hres
  | recvTimingResp pkt random =>
      obtain ⟨cache, hresp, rfl⟩ := System.step_recvTimingResp hstep
      exact hmoves.recvTimingResp hdirty hresp

/-- And so does a run of any calls. -/
theorem run_blockwise {R : CacheBlk → CacheBlk → Prop} (hR : Edits R) {start final : System config}
    {labels : List (Label config)}
    (hdirty : ∀ label ∈ labels, bringsDirty label = true → Dirties (@Blockwise config R))
    (hsound : Sound start.cache) (hrun : Transition.run System.step start labels = .ok final) :
    Blockwise R start.cache final.cache := by
  have hpreserved : ∀ (system : System config) (label : Label config) (next : System config),
      (bringsDirty label = true → Dirties (@Blockwise config R)) →
      Sound system.cache ∧ Blockwise R start.cache system.cache →
      system.step label = .ok next → Sound next.cache ∧ Blockwise R start.cache next.cache := by
    intro system label next hlabel hinv hstep
    exact ⟨System.step_sound system label next hinv.1 hstep,
      (blockwise_moves hR).trans hinv.2 (step_blockwise hR hlabel hinv.1 hstep)⟩
  exact (Transition.run_invariant _ hpreserved hdirty hrun
    ⟨hsound, (blockwise_moves hR).refl start.cache⟩).2

/-- In every run of any calls, whatever the packets, a line that has come in is never
replaced or invalidated, every block keeps the bytes that its storage held when it was
allocated and has no lock, and when no dirty writeback and no response of an owner came
in, no block is dirty. -/
theorem lines_last_and_writes_never_dirty {writeAllocator : Option WriteAllocator}
    {before after : List (Label config)} {middle final : System config}
    (hbefore : Transition.run System.step (System.new config writeAllocator) before = .ok middle)
    (hafter : Transition.run System.step middle after = .ok final) :
    (∀ ref, (middle.cache.getBlk ref).valid = true → (final.cache.getBlk ref).valid = true ∧
      (final.cache.getBlk ref).tag = (middle.cache.getBlk ref).tag ∧
      (final.cache.getBlk ref).secure = (middle.cache.getBlk ref).secure) ∧
    (∀ ref, (final.cache.getBlk ref).data = storage config ref ∧
      (final.cache.getBlk ref).lockList = []) ∧
    ((∀ label ∈ before ++ after, bringsDirty label = false) →
      (∀ ref, (final.cache.getBlk ref).dirty = false) ∧ isDirty final.cache = false) := by
  have hnew := sound_new config writeAllocator
  have hsound : Sound middle.cache := Transition.run_invariant (fun _ => True)
    (fun system label next _ => System.step_sound system label next) (fun _ _ => trivial)
    hbefore hnew
  have hlasting := run_blockwise lasting_edits (fun _ _ _ => lasting_dirties) hsound hafter
  have hstart := run_blockwise lasting_edits (fun _ _ _ => lasting_dirties) hnew hbefore
  have hbuilt : ∀ ref, ((System.new config writeAllocator).cache.getBlk ref) =
      CacheBlk.empty (storage config ref) := by
    intro ref
    cases ref <;> rfl
  refine ⟨fun ref => (hlasting ref).line, ?_, ?_⟩
  · intro ref
    rw [(hlasting ref).data, (hstart ref).data, (hlasting ref).lockList, (hstart ref).lockList,
      hbuilt]
    exact ⟨rfl, rfl⟩
  · intro hlabels
    have hnone : ∀ labels : List (Label config), (∀ label ∈ labels, bringsDirty label = false) →
        ∀ label ∈ labels, bringsDirty label = true → Dirties (@Blockwise config Clean) := by
      intro labels hall label hlabel hdirty
      rw [hall label hlabel] at hdirty
      cases hdirty
    have hclean : ∀ ref, (final.cache.getBlk ref).dirty = false := by
      intro ref
      refine run_blockwise clean_edits (hnone after fun label h => hlabels label (by simp [h]))
        hsound hafter ref ?_
      refine run_blockwise clean_edits (hnone before fun label h => hlabels label (by simp [h]))
        hnew hbefore ref ?_
      rw [hbuilt]
      rfl
    refine ⟨hclean, ?_⟩
    have hslot : ∀ set way, (final.cache.tags.blks set way).dirty = false :=
      fun set way => hclean (.slot set way)
    simp [isDirty, anyBlk, CacheBlk.isSet, hslot]

/-- The line read first is still there after the next one was prefetched and written. -/
theorem lines_last_and_writes_never_dirty_prefetch :
    ∃ middle final, Transition.run System.step (System.new prefetchingParams none)
        (prefetchNextLine.take 2) = .ok middle ∧
      Transition.run System.step middle (prefetchNextLine.drop 2) = .ok final ∧
      (middle.cache.tags.blks ⟨0, Nat.two_pos⟩ ⟨0, Nat.two_pos⟩).valid = true ∧
      (final.cache.tags.blks ⟨0, Nat.two_pos⟩ ⟨0, Nat.two_pos⟩).valid = true ∧
      isDirty final.cache = false := by
  obtain ⟨middle, hmiddle, hfirst⟩ := exists_ok_of_observed
    (show ((Transition.run System.step (System.new prefetchingParams none)
      (prefetchNextLine.take 2)).toOption.map fun middle =>
        ((middle.cache.tags.blks ⟨0, Nat.two_pos⟩ ⟨0, Nat.two_pos⟩).valid,
          (Transition.run System.step middle (prefetchNextLine.drop 2)).toOption.isSome)) =
      some (true, true) by decide +kernel)
  obtain ⟨hvalid, hrest⟩ := Prod.mk.inj hfirst
  obtain ⟨final, hfinal⟩ := Option.isSome_iff_exists.mp hrest
  have hrun : Transition.run System.step middle (prefetchNextLine.drop 2) = .ok final := by
    cases hresult : Transition.run System.step middle (prefetchNextLine.drop 2) with
    | error _ => rw [hresult] at hfinal; cases hfinal
    | ok other => rw [hresult] at hfinal; cases hfinal; rfl
  obtain ⟨hlast, -, hclean⟩ := lines_last_and_writes_never_dirty hmiddle hrun
  exact ⟨middle, final, hmiddle, hrun, hvalid,
    (hlast (.slot ⟨0, Nat.two_pos⟩ ⟨0, Nat.two_pos⟩) hvalid).1, (hclean (by decide +kernel)).2⟩

end KuiperCache.Permanent
