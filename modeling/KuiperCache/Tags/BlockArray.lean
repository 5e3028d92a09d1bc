import Mathlib.Data.List.FinRange
import KuiperCache.Tags.Lookup

/-! The array of blocks refines the sets and ways.  Block `set * assoc + way`
stands in its slot for good, so that a lookup in the table of the indexing policy
is a lookup in the set. -/
namespace KuiperCache

open Checked

namespace Geometry

variable (geometry : Geometry)

theorem slot_div (set : Fin geometry.numSets) (way : Fin geometry.assoc) :
    geometry.slot set way / geometry.assoc = set.val := by
  rw [slot, Nat.mul_comm, Nat.mul_add_div geometry.assoc_pos, Nat.div_eq_of_lt way.isLt,
    Nat.add_zero]

theorem slot_mod (set : Fin geometry.numSets) (way : Fin geometry.assoc) :
    geometry.slot set way % geometry.assoc = way.val := by
  rw [slot, Nat.mul_comm, Nat.mul_add_mod, Nat.mod_eq_of_lt way.isLt]

theorem slot_lt (set : Fin geometry.numSets) (way : Fin geometry.assoc) :
    geometry.slot set way < geometry.numSets * geometry.assoc := by
  have hset : (set.val + 1) * geometry.assoc ≤ geometry.numSets * geometry.assoc :=
    Nat.mul_le_mul_right _ set.isLt
  rw [Nat.add_mul, Nat.one_mul] at hset
  have hway := way.isLt
  unfold slot
  omega

theorem slot_inj {set set' : Fin geometry.numSets} {way way' : Fin geometry.assoc} :
    geometry.slot set way = geometry.slot set' way' ↔ set = set' ∧ way = way' := by
  constructor
  · intro h
    constructor
    · apply Fin.ext
      rw [← geometry.slot_div set way, h, slot_div]
    · apply Fin.ext
      rw [← geometry.slot_mod set way, h, slot_mod]
  · rintro ⟨rfl, rfl⟩
    rfl

/-- Every index below the number of blocks is the index of a slot. -/
theorem exists_slot {index : Nat} (h : index < geometry.numSets * geometry.assoc) :
    ∃ set way, geometry.slot set way = index := by
  refine ⟨⟨index / geometry.assoc, Nat.div_lt_of_lt_mul (Nat.mul_comm _ _ ▸ h)⟩,
    ⟨index % geometry.assoc, Nat.mod_lt _ geometry.assoc_pos⟩, ?_⟩
  exact Nat.div_add_mod' index geometry.assoc

end Geometry

namespace BaseSetAssoc

variable {geometry : Geometry}

/-- The fields that are fixed when the store is built. -/
structure Shaped (geometry : Geometry) (store : BaseSetAssoc) : Prop where
  assoc : store.indexingPolicy.assoc = geometry.assoc
  numSets : store.indexingPolicy.numSets = geometry.numSets
  setShift : store.indexingPolicy.setShift = geometry.blkBits
  setMask : store.indexingPolicy.setMask = geometry.numSets - 1
  tagShift : store.indexingPolicy.tagShift = geometry.tagShift
  numBlocks : store.numBlocks = geometry.numSets * geometry.assoc

/-- The blocks with an index below the bound stand in their slots. -/
structure LinkedBelow (bound : Nat) (geometry : Geometry) (store : BaseSetAssoc) : Prop
    extends Shaped geometry store where
  entry : ∀ set way, geometry.slot set way < bound →
    store.indexingPolicy.sets set.val way.val = some (geometry.slot set way)
  position : ∀ set way, geometry.slot set way < bound →
    (store.blks (geometry.slot set way)).set = set.val ∧
      (store.blks (geometry.slot set way)).way = way.val

/-- All blocks stand in their slots. -/
abbrev Linked (geometry : Geometry) (store : BaseSetAssoc) : Prop :=
  LinkedBelow (geometry.numSets * geometry.assoc) geometry store

/-- The blocks by set and way. -/
def view (geometry : Geometry) (store : BaseSetAssoc) : Tags geometry :=
  { blks := fun set way => (store.blks (geometry.slot set way)).blk }

theorem setEntry_linked {bound : Nat} {store : BaseSetAssoc} (h : LinkedBelow bound geometry store)
    (hbound : bound < geometry.numSets * geometry.assoc) :
    ∃ next, store.setEntry bound = .ok next ∧ LinkedBelow (bound + 1) geometry next ∧
      next.view geometry = store.view geometry := by
  obtain ⟨set, way, rfl⟩ := geometry.exists_slot hbound
  have hset : set.val < geometry.numSets := set.isLt
  simp only [setEntry, h.assoc, h.numSets, geometry.slot_div, geometry.slot_mod, hset,
    decide_true, check_true, ok_bind]
  refine ⟨_, rfl, ⟨⟨rfl, rfl, h.setShift, h.setMask, h.tagShift, h.numBlocks⟩, ?_, ?_⟩, ?_⟩
  · intro other way' hlt
    simp only [update_update_apply]
    by_cases hhere : other = set ∧ way' = way
    · obtain ⟨rfl, rfl⟩ := hhere
      simp
    · have hne : geometry.slot other way' ≠ geometry.slot set way :=
        fun heq => hhere (geometry.slot_inj.mp heq)
      have hvals : ¬(other.val = set.val ∧ way'.val = way.val) := by
        simpa [← Fin.ext_iff] using hhere
      rw [if_neg hvals]
      exact h.entry other way' (by omega)
  · intro other way' hlt
    by_cases hhere : other = set ∧ way' = way
    · obtain ⟨rfl, rfl⟩ := hhere
      simp
    · have hne : geometry.slot other way' ≠ geometry.slot set way :=
        fun heq => hhere (geometry.slot_inj.mp heq)
      simp only [Function.update_of_ne hne]
      exact h.position other way' (by omega)
  · simp only [view, Tags.mk.injEq]
    funext other way'
    by_cases hhere : geometry.slot other way' = geometry.slot set way
    · rw [hhere, Function.update_self]
    · rw [Function.update_of_ne hhere]

/-- Linking the blocks one after the other links them all. -/
theorem tagsInit_linked {store : BaseSetAssoc} (h : LinkedBelow 0 geometry store) :
    ∃ next, store.tagsInit = .ok next ∧ Linked geometry next ∧
      next.view geometry = store.view geometry := by
  have hprefix : ∀ bound ≤ geometry.numSets * geometry.assoc,
      ∃ next, (List.range bound).foldlM setEntry store = .ok next ∧
        LinkedBelow bound geometry next ∧ next.view geometry = store.view geometry := by
    intro bound hbound
    induction bound with
    | zero => exact ⟨store, rfl, h, rfl⟩
    | succ bound ih =>
        obtain ⟨before, hbefore, hlinked, hview⟩ := ih (by omega)
        obtain ⟨next, hnext, hlinked', hview'⟩ := setEntry_linked hlinked (by omega)
        refine ⟨next, ?_, hlinked', hview'.trans hview⟩
        rw [List.range_succ, List.foldlM_append, hbefore, ok_bind, List.foldlM_cons, hnext]
        rfl
  rw [tagsInit, h.numBlocks]
  exact hprefix _ le_rfl

section Linked

variable {store : BaseSetAssoc} (h : Linked geometry store)
include h

theorem Linked.extractSet (addr : Addr) :
    store.indexingPolicy.extractSet addr = (geometry.extractSet addr).val := by
  rw [IndexingPolicy.extractSet, h.setShift, h.setMask]
  rfl

theorem Linked.extractTag (addr : Addr) :
    store.indexingPolicy.extractTag addr = geometry.extractTag addr := by
  rw [IndexingPolicy.extractTag, h.tagShift]
  rfl

theorem Linked.getPossibleEntries (addr : Addr) :
    store.indexingPolicy.getPossibleEntries addr =
      (List.finRange geometry.assoc).map fun way =>
        some (geometry.slot (geometry.extractSet addr) way) := by
  rw [IndexingPolicy.getPossibleEntries, h.assoc, ← List.map_coe_finRange_eq_range, List.map_map]
  apply List.map_congr_left
  intro way _
  simp only [Function.comp_apply]
  rw [h.extractSet]
  exact h.entry _ way (geometry.slot_lt _ _)

/-- A search through the entries is a search through the ways. -/
theorem Linked.findFirst (test : CacheBlk → Bool) (addr : Addr) :
    Checked.findFirst (store.testEntry test) (store.indexingPolicy.getPossibleEntries addr) =
      .ok (((List.finRange geometry.assoc).find? fun way =>
        test ((store.view geometry).blks (geometry.extractSet addr) way)).map fun way =>
          some (geometry.slot (geometry.extractSet addr) way)) := by
  rw [h.getPossibleEntries, findFirst_map]
  intro way
  rfl

theorem Linked.findBlock (addr : Addr) (secure : Bool) :
    store.findBlock addr secure = .ok (((store.view geometry).findBlock addr secure).map
      (geometry.slot (geometry.extractSet addr))) := by
  simp only [BaseSetAssoc.findBlock, h.extractTag, h.findFirst, ok_bind, Tags.findBlock]
  cases (List.finRange geometry.assoc).find? _ <;> rfl

theorem Linked.findVictim (addr : Addr) (random : Nat) :
    store.findVictim addr random = .ok (geometry.slot (geometry.extractSet addr)
      ((store.view geometry).findVictim addr
        ⟨random % geometry.assoc, Nat.mod_lt _ geometry.assoc_pos⟩)) := by
  have hentries := h.getPossibleEntries addr
  have hlength : (store.indexingPolicy.getPossibleEntries addr).length = geometry.assoc := by
    rw [hentries, List.length_map, List.length_finRange]
  have hsome : (store.indexingPolicy.getPossibleEntries addr).isEmpty = false := by
    have hpos := geometry.assoc_pos
    rw [List.isEmpty_eq_false_iff, ← List.length_pos_iff]
    omega
  have hrandom := Nat.mod_lt random geometry.assoc_pos
  simp only [BaseSetAssoc.findVictim, h.findFirst, ok_bind, hsome, hlength, Bool.not_false,
    check_true, Tags.findVictim]
  cases (List.finRange geometry.assoc).find? _ with
  | some way => rfl
  | none => simp [hentries, hrandom, deref]

/-- Blocks are overwritten in place. -/
theorem Linked.setBlk (index : Nat) (blk : CacheBlk) :
    Linked geometry (store.setBlk index blk) := by
  refine ⟨⟨h.assoc, h.numSets, h.setShift, h.setMask, h.tagShift, h.numBlocks⟩, h.entry, ?_⟩
  intro set way hlt
  unfold BaseSetAssoc.setBlk
  by_cases hhere : geometry.slot set way = index
  · subst hhere
    simpa using h.position set way hlt
  · simpa [Function.update_of_ne hhere] using h.position set way hlt

omit h in
theorem view_setBlk (set : Fin geometry.numSets) (way : Fin geometry.assoc) (blk : CacheBlk) :
    (store.setBlk (geometry.slot set way) blk).view geometry =
      (store.view geometry).setBlk set way blk := by
  have hblks : ((store.setBlk (geometry.slot set way) blk).view geometry).blks =
      ((store.view geometry).setBlk set way blk).blks := by
    funext set' way'
    rw [Tags.setBlk_blks]
    by_cases hhere : set' = set ∧ way' = way
    · obtain ⟨rfl, rfl⟩ := hhere
      simp [view, BaseSetAssoc.setBlk]
    · have hne : geometry.slot set' way' ≠ geometry.slot set way :=
        fun heq => hhere (geometry.slot_inj.mp heq)
      simp [view, BaseSetAssoc.setBlk, hhere, Function.update_of_ne hne]
  exact congrArg Tags.mk hblks

theorem Linked.insertBlock {next : BaseSetAssoc} {pkt : Packet} {way : Fin geometry.assoc}
    (hinsert : store.insertBlock pkt (geometry.slot (geometry.extractSet pkt.addr) way) =
      .ok next) :
    Linked geometry next ∧
      (store.view geometry).insertBlock pkt way = .ok (next.view geometry) := by
  simp only [BaseSetAssoc.insertBlock, h.extractTag, bind_eq_ok, check_eq_ok, exists_const,
    pure_eq_ok] at hinsert
  obtain ⟨hinvalid, inserted, hblk, rfl⟩ := hinsert
  refine ⟨h.setBlk _ _, ?_⟩
  rw [view_setBlk]
  simp only [Tags.insertBlock, bind_eq_ok, check_eq_ok, exists_const, pure_eq_ok]
  exact ⟨hinvalid, inserted, hblk, rfl⟩

theorem Linked.invalidate {next : BaseSetAssoc} {set : Fin geometry.numSets}
    {way : Fin geometry.assoc}
    (hinvalidate : store.invalidate (geometry.slot set way) = .ok next) :
    Linked geometry next ∧
      (store.view geometry).invalidate set way = .ok (next.view geometry) := by
  simp only [BaseSetAssoc.invalidate, bind_eq_ok, check_eq_ok, exists_const,
    pure_eq_ok] at hinvalidate
  obtain ⟨hvalid, rfl⟩ := hinvalidate
  refine ⟨h.setBlk _ _, ?_⟩
  rw [view_setBlk]
  simp only [Tags.invalidate, bind_eq_ok, check_eq_ok, exists_const, pure_eq_ok]
  exact ⟨hvalid, rfl⟩

end Linked

/-- The array refines a tag store in which tags and lines correspond. -/
structure Refines (geometry : Geometry) (store : BaseSetAssoc) : Prop where
  linked : Linked geometry store
  mapped : (store.view geometry).Mapped

theorem step_refines (store : BaseSetAssoc) (event : Event) (next : BaseSetAssoc)
    (h : Refines geometry store) (hstep : store.step event = .ok next) :
    Refines geometry next := by
  obtain ⟨hlinked, hmapped⟩ := h
  cases event with
  | insert pkt random =>
      simp only [step, hlinked.findBlock, hlinked.findVictim, ok_bind, bind_eq_ok, check_eq_ok,
        exists_const, Option.isNone_map, Option.isNone_iff_eq_none] at hstep
      obtain ⟨hmiss, hinsert⟩ := hstep
      obtain ⟨hlinked', htags⟩ := hlinked.insertBlock hinsert
      exact ⟨hlinked', hmapped.insertBlock hmiss htags⟩
  | invalidate index =>
      simp only [step, bind_eq_ok, check_eq_ok, exists_const, decide_eq_true_eq,
        hlinked.numBlocks] at hstep
      obtain ⟨hindex, hinvalidate⟩ := hstep
      obtain ⟨set, way, rfl⟩ := geometry.exists_slot hindex
      obtain ⟨hlinked', htags⟩ := hlinked.invalidate hinvalidate
      exact ⟨hlinked', hmapped.invalidate htags⟩

theorem floorLog2_two_pow : ∀ bits < 32, floorLog2 (2 ^ bits) = .ok bits := by
  decide

theorem isPowerOf2_two_pow : ∀ bits < 32, isPowerOf2 (2 ^ bits) = true := by
  decide

/-- The parameters of a store with the given block size, sets and ways. -/
def params (geometry : Geometry) : SetAssocParams :=
  { blockSize := geometry.blkSize, assoc := geometry.assoc,
    size := geometry.numSets * geometry.assoc * geometry.blkSize }

/-- While the bytes of a set and the blocks can be counted in 32 bits, the store
that is built has the shape its parameters ask for. -/
theorem new_linked (hset : geometry.blkSize * geometry.assoc < 2 ^ 32)
    (hblocks : geometry.numSets * geometry.assoc < 2 ^ 32) (dataBlks : Nat → UInt8) :
    ∃ built, new (params geometry) dataBlks = .ok built ∧ LinkedBelow 0 geometry built ∧
      built.view geometry = Tags.tagsInit geometry dataBlks := by
  have hassoc := geometry.assoc_pos
  have hblk : 0 < geometry.blkSize := Nat.two_pow_pos _
  have hblkBits := geometry.blkBits_lt
  have hsetSize : geometry.blkSize * geometry.assoc ≠ 0 := (Nat.mul_pos hblk hassoc).ne'
  have hnumSets : geometry.numSets * geometry.assoc * geometry.blkSize /
      (geometry.blkSize * geometry.assoc) = geometry.numSets := by
    rw [Nat.mul_assoc, Nat.mul_comm geometry.assoc,
      Nat.mul_div_cancel _ (Nat.pos_of_ne_zero hsetSize)]
  have hword : geometry.numSets % 2 ^ 32 = geometry.numSets :=
    Nat.mod_eq_of_lt (Nat.pow_lt_pow_right (by decide) geometry.setBits_lt)
  have hsetShift : floorLog2 geometry.blkSize = .ok geometry.blkBits :=
    floorLog2_two_pow _ (by omega)
  have hsetBits : floorLog2 geometry.numSets = .ok geometry.setBits :=
    floorLog2_two_pow _ geometry.setBits_lt
  have hblkPower : isPowerOf2 geometry.blkSize = true := isPowerOf2_two_pow _ (by omega)
  have hsetPower : isPowerOf2 geometry.numSets = true :=
    isPowerOf2_two_pow _ geometry.setBits_lt
  have hcount : geometry.numSets * geometry.assoc * geometry.blkSize / geometry.blkSize % 2 ^ 32 =
      geometry.numSets * geometry.assoc := by
    rw [Nat.mul_div_cancel _ hblk, Nat.mod_eq_of_lt hblocks]
  simp only [new, IndexingPolicy.new, params, Nat.mod_eq_of_lt hset, hnumSets, hword, hsetShift,
    hsetBits, hblkPower, hsetPower, hcount, hassoc, bne_iff_ne.mpr hsetSize, decide_true,
    Bool.or_true, check_true, ok_bind, pure_bind]
  refine ⟨_, rfl, ⟨⟨rfl, rfl, rfl, rfl, rfl, rfl⟩, ?_, ?_⟩, rfl⟩
  · intro set way hlt
    omega
  · intro set way hlt
    omega

/-- The block at an index holds the line of an address. -/
structure Holds (store : BaseSetAssoc) (blkSize index : Nat) (addr : Addr) (secure : Bool) :
    Prop where
  stored : index < store.numBlocks
  valid : (store.blks index).blk.valid = true
  line : store.regenerateBlkAddr index = addr &&& ~~~ BitVec.ofNat 64 (blkSize - 1)
  secure : (store.blks index).blk.secure = secure

/-- The store is a map from lines to blocks: a lookup finds exactly the block that
holds the line, and no two blocks hold one line. -/
structure IsMap (store : BaseSetAssoc) (blkSize : Nat) : Prop where
  found : ∀ addr secure, ∃ result, store.findBlock addr secure = .ok result ∧
    ∀ index, result = some index ↔ store.Holds blkSize index addr secure
  unique : ∀ addr secure index other, store.Holds blkSize index addr secure →
    store.Holds blkSize other addr secure → index = other

/-- Every slot has one block, and the block knows its slot. -/
def SlotsFilled (store : BaseSetAssoc) : Prop :=
  ∀ set < store.indexingPolicy.numSets, ∀ way < store.indexingPolicy.assoc,
    ∃ index < store.numBlocks, store.indexingPolicy.sets set way = some index ∧
      ∀ other < store.numBlocks,
        ((store.blks other).set = set ∧ (store.blks other).way = way) ↔ other = index

theorem Linked.slotsFilled {store : BaseSetAssoc} (h : Linked geometry store) :
    store.SlotsFilled := by
  intro set hset way hway
  rw [h.numSets] at hset
  rw [h.assoc] at hway
  have hslot := geometry.slot_lt ⟨set, hset⟩ ⟨way, hway⟩
  refine ⟨geometry.slot ⟨set, hset⟩ ⟨way, hway⟩, h.numBlocks ▸ hslot,
    h.entry ⟨set, hset⟩ ⟨way, hway⟩ hslot, ?_⟩
  intro other hother
  rw [h.numBlocks] at hother
  obtain ⟨set', way', rfl⟩ := geometry.exists_slot hother
  obtain ⟨hset', hway'⟩ := h.position set' way' hother
  rw [hset', hway', geometry.slot_inj, Fin.ext_iff, Fin.ext_iff]

theorem Linked.holds_slot {store : BaseSetAssoc} (h : Linked geometry store)
    {set : Fin geometry.numSets} {way : Fin geometry.assoc} {addr : Addr} {secure : Bool} :
    store.Holds geometry.blkSize (geometry.slot set way) addr secure ↔
      (store.view geometry).Holds set way addr secure := by
  have hline : store.regenerateBlkAddr (geometry.slot set way) =
      (store.view geometry).regenerateBlkAddr set way := by
    have hset := (h.position set way (geometry.slot_lt set way)).1
    simp only [regenerateBlkAddr, IndexingPolicy.regenerateAddr, h.tagShift, h.setShift, hset]
    rfl
  constructor
  · rintro ⟨-, hvalid, hheld, hsecure⟩
    exact ⟨hvalid, hline ▸ hheld, hsecure⟩
  · rintro ⟨hvalid, hheld, hsecure⟩
    exact ⟨h.numBlocks ▸ geometry.slot_lt set way, hvalid, hline ▸ hheld, hsecure⟩

theorem Refines.isMap {store : BaseSetAssoc} (h : Refines geometry store)
    (hnarrow : geometry.tagShift ≤ 32) : store.IsMap geometry.blkSize := by
  have hiff : ∀ addr secure index,
      ((store.view geometry).findBlock addr secure).map
          (geometry.slot (geometry.extractSet addr)) = some index ↔
        store.Holds geometry.blkSize index addr secure := by
    intro addr secure index
    rw [Option.map_eq_some_iff]
    constructor
    · rintro ⟨way, hfound, rfl⟩
      rw [h.linked.holds_slot, h.mapped.holds_iff hnarrow]
      exact ⟨rfl, hfound⟩
    · intro hholds
      obtain ⟨set, way, rfl⟩ := geometry.exists_slot (h.linked.numBlocks ▸ hholds.stored)
      rw [h.linked.holds_slot, h.mapped.holds_iff hnarrow] at hholds
      obtain ⟨rfl, hfound⟩ := hholds
      exact ⟨way, hfound, rfl⟩
  refine ⟨fun addr secure => ⟨_, h.linked.findBlock addr secure, hiff addr secure⟩, ?_⟩
  intro addr secure index other hindex hother
  rw [← hiff addr secure] at hindex hother
  exact Option.some.inj (hindex.symm.trans hother)

/-- After any run of insertions and invalidations the store is a map from lines to
blocks, and every slot has its block from the start, as long as the blocks and the
bytes of a set can be counted in 32 bits. -/
theorem store_is_map (geometry : Geometry) (dataBlks : Nat → UInt8)
    (hnarrow : geometry.numSets * geometry.blkSize ≤ 2 ^ 32)
    (hset : geometry.blkSize * geometry.assoc < 2 ^ 32)
    (hblocks : geometry.numSets * geometry.assoc < 2 ^ 32) :
    ∃ built store, new (params geometry) dataBlks = .ok built ∧ built.tagsInit = .ok store ∧
      store.SlotsFilled ∧
      ∀ events final, Transition.run step store events = .ok final →
        final.IsMap geometry.blkSize := by
  have hshift : geometry.tagShift ≤ 32 := by
    rw [Geometry.numSets, Geometry.blkSize, ← Nat.pow_add,
      Nat.pow_le_pow_iff_right (by decide)] at hnarrow
    unfold Geometry.tagShift
    omega
  obtain ⟨built, hbuilt, hunlinked, hempty⟩ := new_linked hset hblocks dataBlks
  obtain ⟨store, hstore, hlinked, hview⟩ := tagsInit_linked hunlinked
  have hrefines : Refines geometry store :=
    ⟨hlinked, hview.trans hempty ▸ Tags.mapped_tagsInit geometry dataBlks⟩
  refine ⟨built, store, hbuilt, hstore, hlinked.slotsFilled, ?_⟩
  intro events final hrun
  have hfinal := Transition.run_invariant (fun _ => True)
    (fun store event next _ => step_refines store event next) (by simp) hrun hrefines
  exact hfinal.isMap hshift

/-- Four sets of two blocks of 64 bytes. -/
def small : Geometry :=
  { blkBits := 6, setBits := 2, assoc := 2, blkBits_lt := by decide, setBits_lt := by decide,
    assoc_pos := Nat.two_pos }

/-- Two lines of one set, secure and not, and the first of them leaves again. -/
def twoLines : List Event :=
  let packet addr flags :=
    Packet.ofRequest 0 { Request.physical addr 4 0 0 with flags } .readReq
  [.insert (packet 0x1040 0) 0, .insert (packet 0x2044 Request.secure) 1, .invalidate 2]

/-- Build a store and run it. -/
def runFrom (p : SetAssocParams) (dataBlks : Nat → UInt8) (events : List Event) :
    Except Assertion BaseSetAssoc := do
  let built ← new p dataBlks
  let store ← built.tagsInit
  Transition.run step store events

theorem store_is_map_twoLines :
    ∃ final, runFrom (params small) (fun _ => 0) twoLines = .ok final ∧
      ((final.blks 2).blk.valid, (final.blks 3).blk.valid) = (false, true) ∧
      final.IsMap 64 := by
  obtain ⟨final, hrun, hseen⟩ := exists_ok_of_observed
    (show ((runFrom (params small) (fun _ => 0) twoLines).toOption.map fun final =>
      ((final.blks 2).blk.valid, (final.blks 3).blk.valid)) = some (false, true)
      by decide +kernel)
  refine ⟨final, hrun, hseen, ?_⟩
  obtain ⟨built, store, hbuilt, hstore, -, hmap⟩ :=
    store_is_map small (fun _ => 0) (by decide) (by decide) (by decide)
  rw [runFrom, hbuilt, ok_bind, hstore, ok_bind] at hrun
  exact hmap twoLines final hrun

/-- One set of four blocks of 2^30 bytes: the bytes of a set overflow to zero, by
which the size is divided.  2^31 sets of two blocks: the number of blocks overflows
to zero, and no slot gets a block. -/
theorem wide_stores_are_not_filled :
    new { blockSize := 2 ^ 30, assoc := 4, size := 1 * 4 * 2 ^ 30 } (fun _ => 0) =
        .error .undefinedBehaviour ∧
      ∃ built, new { blockSize := 2, assoc := 2, size := 2 ^ 31 * 2 * 2 } (fun _ => 0) =
          .ok built ∧
        built.indexingPolicy.numSets = 2 ^ 31 ∧ built.tagsInit = .ok built ∧
        ∀ set way, built.indexingPolicy.sets set way = none := by
  refine ⟨by rfl, _, rfl, by decide, ?_, fun _ _ => rfl⟩
  rfl

end BaseSetAssoc

end KuiperCache
