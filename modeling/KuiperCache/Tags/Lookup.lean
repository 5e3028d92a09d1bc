import KuiperCache.Tags.Store

/-! The tag store is a map from lines to blocks.  The sets and ways carry the
argument: a tag comes from an address, no two ways of a set hold one line, and an
invalid block is not secure.  The array of blocks refines that picture. -/
namespace KuiperCache

open Checked

namespace Tags

variable {geometry : Geometry}

def invalidate (tags : Tags geometry) (set : Fin geometry.numSets) (way : Fin geometry.assoc) :
    Except Assertion (Tags geometry) := do
  let blk := tags.blks set way
  check blk.valid .blockExpected
  pure (tags.setBlk set way { blk.invalidate with replValid := false })

/-- What ties the stored tags to lines. -/
structure Mapped (tags : Tags geometry) : Prop where
  blank : ∀ set way, (tags.blks set way).valid = false → (tags.blks set way).secure = false
  canonical : ∀ set way, (tags.blks set way).valid = true →
    ∃ addr, (tags.blks set way).tag = geometry.extractTag addr
  distinct : ∀ set way other tag secure, (tags.blks set way).matchTag tag secure = true →
    (tags.blks set other).matchTag tag secure = true → way = other

theorem matchTag_eq_true {blk : CacheBlk} {tag : Addr} {secure : Bool} :
    blk.matchTag tag secure = true ↔ blk.valid = true ∧ blk.tag = tag ∧ blk.secure = secure := by
  simp [CacheBlk.matchTag, and_assoc]

theorem mapped_tagsInit (geometry : Geometry) (dataBlks : Nat → UInt8) :
    Mapped (tagsInit geometry dataBlks) := by
  refine ⟨fun _ _ _ => rfl, ?_, ?_⟩
  · intro set way hvalid
    cases hvalid
  · intro set way other tag secure hmatch
    rw [matchTag_eq_true] at hmatch
    cases hmatch.1

/-- Overwriting a block by one that nothing else matches keeps the map. -/
theorem Mapped.setBlk {tags : Tags geometry} (h : Mapped tags) {set : Fin geometry.numSets}
    {way : Fin geometry.assoc} {blk : CacheBlk}
    (hblank : blk.valid = false → blk.secure = false)
    (hcanonical : blk.valid = true → ∃ addr, blk.tag = geometry.extractTag addr)
    (hdistinct : blk.valid = true → ∀ other,
      (tags.blks set other).matchTag blk.tag blk.secure = false) :
    Mapped (tags.setBlk set way blk) := by
  refine ⟨?_, ?_, ?_⟩
  · intro set' way' hinvalid
    rw [setBlk_blks] at hinvalid ⊢
    split at hinvalid
    · rename_i hhere
      rw [if_pos hhere]
      exact hblank hinvalid
    · rename_i hhere
      rw [if_neg hhere]
      exact h.blank set' way' hinvalid
  · intro set' way' hvalid
    rw [setBlk_blks] at hvalid ⊢
    split at hvalid
    · rename_i hhere
      rw [if_pos hhere]
      exact hcanonical hvalid
    · rename_i hhere
      rw [if_neg hhere]
      exact h.canonical set' way' hvalid
  · intro set' way' other tag secure hmatch hother
    rw [setBlk_blks] at hmatch hother
    -- the overwritten block differs from every other block of its set
    split at hmatch
    · rename_i hhere
      split at hother
      · rename_i hthere
        rw [hhere.2, hthere.2]
      · rw [matchTag_eq_true] at hmatch
        obtain ⟨hvalid, htag, hsecure⟩ := hmatch
        have hnone := hdistinct hvalid other
        rw [htag, hsecure, ← hhere.1, hother] at hnone
        cases hnone
    · split at hother
      · rename_i hthere
        rw [matchTag_eq_true] at hother
        obtain ⟨hvalid, htag, hsecure⟩ := hother
        have hnone := hdistinct hvalid way'
        rw [htag, hsecure, ← hthere.1, hmatch] at hnone
        cases hnone
      · exact h.distinct set' way' other tag secure hmatch hother

theorem Mapped.insertBlock {tags tags' : Tags geometry} {pkt : Packet} {way : Fin geometry.assoc}
    (h : Mapped tags) (hmiss : tags.findBlock pkt.addr pkt.isSecure = none)
    (hinsert : tags.insertBlock pkt way = .ok tags') : Mapped tags' := by
  obtain ⟨hinvalid, blk, rfl, hvalid, -, htag, hsecure⟩ := insertBlock_eq_ok hinsert
  rw [h.blank _ _ hinvalid, Bool.false_or] at hsecure
  rw [findBlock_eq_none] at hmiss
  refine h.setBlk (by simp [hvalid]) (fun _ => ⟨pkt.addr, htag⟩) ?_
  intro _ other
  rw [htag, hsecure]
  exact hmiss other

theorem Mapped.invalidate {tags tags' : Tags geometry} {set : Fin geometry.numSets}
    {way : Fin geometry.assoc} (h : Mapped tags) (hinv : tags.invalidate set way = .ok tags') :
    Mapped tags' := by
  simp only [Tags.invalidate, bind_eq_ok, check_eq_ok, exists_const, pure_eq_ok] at hinv
  obtain ⟨-, rfl⟩ := hinv
  exact h.setBlk (fun _ => rfl) (by simp [CacheBlk.invalidate]) (by simp [CacheBlk.invalidate])

theorem findBlock_matches {tags : Tags geometry} {addr : Addr} {secure : Bool}
    {way : Fin geometry.assoc} (h : tags.findBlock addr secure = some way) :
    (tags.blks (geometry.extractSet addr) way).matchTag (geometry.extractTag addr) secure =
      true := by
  unfold findBlock at h
  have hmatch := List.find?_some h
  exact hmatch

/-- A lookup finds the way that matches, and there is at most one. -/
theorem Mapped.findBlock_iff {tags : Tags geometry} (h : Mapped tags) {addr : Addr}
    {secure : Bool} {way : Fin geometry.assoc} : tags.findBlock addr secure = some way ↔
      (tags.blks (geometry.extractSet addr) way).matchTag (geometry.extractTag addr) secure =
        true := by
  constructor
  · exact findBlock_matches
  · intro hmatch
    cases hfound : tags.findBlock addr secure with
    | none =>
        rw [findBlock_eq_none.mp hfound way] at hmatch
        cases hmatch
    | some other =>
        rw [h.distinct _ way other _ _ hmatch (findBlock_matches hfound)]

/-- The block in a way holds the line of an address. -/
structure Holds (tags : Tags geometry) (set : Fin geometry.numSets) (way : Fin geometry.assoc)
    (addr : Addr) (secure : Bool) : Prop where
  valid : (tags.blks set way).valid = true
  line : tags.regenerateBlkAddr set way = geometry.lineAddr addr
  secure : (tags.blks set way).secure = secure

/-- The regenerated address tells which set and tag a block was stored under. -/
theorem Mapped.holds_iff {tags : Tags geometry} (h : Mapped tags)
    (hnarrow : geometry.tagShift ≤ 32) {set : Fin geometry.numSets} {way : Fin geometry.assoc}
    {addr : Addr} {secure : Bool} : tags.Holds set way addr secure ↔
      set = geometry.extractSet addr ∧ tags.findBlock addr secure = some way := by
  constructor
  · rintro ⟨hvalid, hline, hsecure⟩
    obtain ⟨other, htag⟩ := h.canonical set way hvalid
    rw [regenerateBlkAddr, htag, Geometry.regenerateAddr_eq_lineAddr hnarrow] at hline
    obtain ⟨hother, rfl⟩ := hline
    refine ⟨rfl, h.findBlock_iff.mpr ?_⟩
    exact matchTag_eq_true.mpr ⟨hvalid, htag.trans hother, hsecure⟩
  · rintro ⟨rfl, hfound⟩
    obtain ⟨hvalid, htag, hsecure⟩ := matchTag_eq_true.mp (h.findBlock_iff.mp hfound)
    refine ⟨hvalid, ?_, hsecure⟩
    rw [regenerateBlkAddr, htag]
    exact Geometry.regenerateAddr_extract hnarrow addr

end Tags

end KuiperCache
