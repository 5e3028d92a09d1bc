import KuiperCache.Tags.Store

/-! Free ways are used before anything is evicted.  A block and its replacement
data both know whether the block is valid; insertion, invalidation and moving keep
the two together, so that the scan of the replacement policy finds the free ways. -/
namespace KuiperCache

open Checked

/-- The move assignment of a block.  Only the contents move: the data and the
place of both blocks stay. -/
def CacheBlk.moveFrom (blk other : CacheBlk) : Except Assertion (CacheBlk × CacheBlk) := do
  check (!blk.valid) .victimStillValid
  check other.valid .blockExpected
  let tagged ← blk.insertTag other.tag other.secure
  -- setCoherenceBits asserts that the block is valid by now
  check tagged.valid .blockExpected
  let moved := { tagged with
    prefetched := tagged.prefetched || other.prefetched
    writable := tagged.writable || other.writable
    readable := tagged.readable || other.readable
    dirty := tagged.dirty || other.dirty
    taskId := other.taskId
    refCount := other.refCount
    srcRequestorId := other.srcRequestorId
    lockList := other.lockList }
  pure (moved, { other with lockList := tagged.lockList }.invalidate)

theorem CacheBlk.moveFrom_eq_ok {blk other moved left : CacheBlk}
    (h : blk.moveFrom other = .ok (moved, left)) :
    blk.valid = false ∧ other.valid = true ∧ moved.valid = true ∧ left.valid = false := by
  simp only [moveFrom, insertTag, bind_eq_ok, check_eq_ok, exists_const, pure_eq_ok,
    Bool.not_eq_true', Prod.mk.injEq] at h
  obtain ⟨hfree, hvalid, tagged, ⟨-, rfl⟩, -, rfl, rfl⟩ := h
  exact ⟨hfree, hvalid, rfl, rfl⟩

namespace BaseSetAssoc

def moveBlock (store : BaseSetAssoc) (src dest : Nat) : Except Assertion BaseSetAssoc := do
  check (!(store.blks dest).blk.valid) .victimStillValid
  check (store.blks src).blk.valid .blockExpected
  let (destBlk, srcBlk) ← (store.blks dest).blk.moveFrom (store.blks src).blk
  check destBlk.valid .blockExpected
  check (!srcBlk.valid) .victimStillValid
  pure ((store.setBlk src { srcBlk with replValid := false }).setBlk dest
    { destBlk with replValid := true })

/-- The calls that change which blocks are valid, on any block of the array. -/
inductive BlockCall where
  | insertBlock (pkt : Packet) (index : Nat)
  | invalidate (index : Nat)
  | moveBlock (src dest : Nat)

def call (store : BaseSetAssoc) : BlockCall → Except Assertion BaseSetAssoc
  | .insertBlock pkt index => do
      check (index < store.numBlocks) .undefinedBehaviour
      store.insertBlock pkt index
  | .invalidate index => do
      check (index < store.numBlocks) .undefinedBehaviour
      store.invalidate index
  | .moveBlock src dest => do
      check (src < store.numBlocks && dest < store.numBlocks) .undefinedBehaviour
      store.moveBlock src dest

/-- The replacement data of every block says whether the block is valid. -/
def Mirrored (store : BaseSetAssoc) : Prop :=
  ∀ index, (store.blks index).blk.replValid = (store.blks index).blk.valid

/-- What no call changes: the table, the counts and where the blocks stand. -/
structure SamePlaces (store next : BaseSetAssoc) : Prop where
  policy : next.indexingPolicy = store.indexingPolicy
  numBlocks : next.numBlocks = store.numBlocks
  set : ∀ index, (next.blks index).set = (store.blks index).set

theorem SamePlaces.refl (store : BaseSetAssoc) : SamePlaces store store :=
  ⟨rfl, rfl, fun _ => rfl⟩

theorem SamePlaces.trans {store next last : BaseSetAssoc} (h : SamePlaces store next)
    (h' : SamePlaces next last) : SamePlaces store last :=
  ⟨h'.policy.trans h.policy, h'.numBlocks.trans h.numBlocks,
    fun index => (h'.set index).trans (h.set index)⟩

theorem setBlk_samePlaces (store : BaseSetAssoc) (index : Nat) (blk : CacheBlk) :
    SamePlaces store (store.setBlk index blk) := by
  refine ⟨rfl, rfl, fun other => ?_⟩
  by_cases hhere : other = index
  · subst hhere
    simp [setBlk]
  · simp [setBlk, Function.update_of_ne hhere]

theorem Mirrored.setBlk {store : BaseSetAssoc} (h : store.Mirrored) (index : Nat)
    {blk : CacheBlk} (hblk : blk.replValid = blk.valid) :
    (store.setBlk index blk).Mirrored := by
  intro other
  by_cases hhere : other = index
  · subst hhere
    simpa [BaseSetAssoc.setBlk] using hblk
  · simpa [BaseSetAssoc.setBlk, Function.update_of_ne hhere] using h other

section Calls

variable {store next : BaseSetAssoc} {pkt : Packet} {index src dest : Nat}

theorem insertBlock_mirrored (h : store.Mirrored)
    (hinsert : store.insertBlock pkt index = .ok next) :
    next.Mirrored ∧ SamePlaces store next := by
  simp only [insertBlock, CacheBlk.insert, CacheBlk.insertTag, bind_eq_ok, check_eq_ok,
    exists_const, pure_eq_ok] at hinsert
  obtain ⟨-, inserted, ⟨tagged, ⟨-, rfl⟩, rfl⟩, rfl⟩ := hinsert
  exact ⟨h.setBlk index rfl, setBlk_samePlaces store index _⟩

theorem invalidate_mirrored (h : store.Mirrored)
    (hinvalidate : store.invalidate index = .ok next) :
    next.Mirrored ∧ SamePlaces store next := by
  simp only [invalidate, bind_eq_ok, check_eq_ok, exists_const, pure_eq_ok] at hinvalidate
  obtain ⟨-, rfl⟩ := hinvalidate
  exact ⟨h.setBlk index rfl, setBlk_samePlaces store index _⟩

/-- The source gives up both copies of its validity, and the destination takes
both. -/
theorem moveBlock_mirrored (h : store.Mirrored) (hmove : store.moveBlock src dest = .ok next) :
    next.Mirrored ∧ SamePlaces store next := by
  simp only [moveBlock, bind_eq_ok, check_eq_ok, exists_const, pure_eq_ok] at hmove
  obtain ⟨-, -, ⟨destBlk, srcBlk⟩, hmoved, -, -, rfl⟩ := hmove
  obtain ⟨-, -, hdest, hsrc⟩ := CacheBlk.moveFrom_eq_ok hmoved
  exact ⟨(h.setBlk src hsrc.symm).setBlk dest hdest.symm,
    (setBlk_samePlaces store src _).trans (setBlk_samePlaces _ dest _)⟩

theorem call_mirrored {event : BlockCall} (h : store.Mirrored)
    (hcall : store.call event = .ok next) : next.Mirrored ∧ SamePlaces store next := by
  cases event with
  | insertBlock pkt index =>
      simp only [call, bind_eq_ok, check_eq_ok, exists_const] at hcall
      exact insertBlock_mirrored h hcall.2
  | invalidate index =>
      simp only [call, bind_eq_ok, check_eq_ok, exists_const] at hcall
      exact invalidate_mirrored h hcall.2
  | moveBlock src dest =>
      simp only [call, bind_eq_ok, check_eq_ok, exists_const] at hcall
      exact moveBlock_mirrored h hcall.2

theorem run_mirrored {events : List BlockCall} {final : BaseSetAssoc} (h : store.Mirrored)
    (hrun : Transition.run call store events = .ok final) :
    final.Mirrored ∧ SamePlaces store final := by
  have hpreserved : ∀ current event next, True → (Mirrored current ∧ SamePlaces store current) →
      current.call event = .ok next → Mirrored next ∧ SamePlaces store next := by
    rintro current event next - ⟨hmirrored, hplaces⟩ hcall
    obtain ⟨hnext, hsame⟩ := call_mirrored hmirrored hcall
    exact ⟨hnext, hplaces.trans hsame⟩
  exact Transition.run_invariant (fun _ => True) hpreserved (fun _ _ => trivial) hrun
    ⟨h, SamePlaces.refl store⟩

end Calls

/-- A store being linked: the blocks below the bound stand in their slots, and no
block is valid yet. -/
structure Linking (bound : Nat) (store : BaseSetAssoc) : Prop where
  assoc_pos : 0 < store.indexingPolicy.assoc
  numSets_pos : 0 < store.indexingPolicy.numSets
  setMask : store.indexingPolicy.setMask = store.indexingPolicy.numSets - 1
  inside : ∀ index < bound, index / store.indexingPolicy.assoc < store.indexingPolicy.numSets
  entry : ∀ index < bound, store.indexingPolicy.sets (index / store.indexingPolicy.assoc)
    (index % store.indexingPolicy.assoc) = some index
  set : ∀ index < bound, (store.blks index).set = index / store.indexingPolicy.assoc
  free : ∀ index, (store.blks index).blk.valid = false ∧ (store.blks index).blk.replValid = false

theorem isPowerOf2_pos {n : Nat} (h : isPowerOf2 n = true) : 0 < n := by
  rw [isPowerOf2, Bool.and_eq_true, bne_iff_ne] at h
  exact Nat.pos_of_ne_zero h.1

theorem new_linking {p : SetAssocParams} {dataBlks : Nat → UInt8} {built : BaseSetAssoc}
    (h : new p dataBlks = .ok built) :
    Linking 0 built ∧ built.indexingPolicy.assoc = p.assoc ∧
      built.indexingPolicy.numSets = p.size / (p.blockSize * p.assoc % 2 ^ 32) % 2 ^ 32 ∧
      built.numBlocks = p.size / p.blockSize % 2 ^ 32 := by
  simp only [new, IndexingPolicy.new, bind_eq_ok, check_eq_ok, exists_const, pure_eq_ok,
    decide_eq_true_eq] at h
  obtain ⟨policy, ⟨-, setShift, -, setBits, -, hpower, hassoc, rfl⟩, -, rfl⟩ := h
  refine ⟨⟨hassoc, isPowerOf2_pos hpower, rfl, ?_, ?_, ?_, fun _ => ⟨rfl, rfl⟩⟩, rfl, rfl, rfl⟩
  · intro index hindex
    exact absurd hindex (Nat.not_lt_zero index)
  · intro index hindex
    exact absurd hindex (Nat.not_lt_zero index)
  · intro index hindex
    exact absurd hindex (Nat.not_lt_zero index)

/-- What linking leaves as it was built. -/
structure SameShape (store next : BaseSetAssoc) : Prop where
  assoc : next.indexingPolicy.assoc = store.indexingPolicy.assoc
  numSets : next.indexingPolicy.numSets = store.indexingPolicy.numSets
  numBlocks : next.numBlocks = store.numBlocks

theorem Linking.setEntry {bound : Nat} {store next : BaseSetAssoc} (h : Linking bound store)
    (hentry : store.setEntry bound = .ok next) :
    Linking (bound + 1) next ∧ SameShape store next := by
  simp only [BaseSetAssoc.setEntry, bind_eq_ok, check_eq_ok, exists_const, pure_eq_ok,
    decide_eq_true_eq] at hentry
  obtain ⟨hset, rfl⟩ := hentry
  refine ⟨⟨h.assoc_pos, h.numSets_pos, h.setMask, ?_, ?_, ?_, ?_⟩, rfl, rfl, rfl⟩
  · intro index hindex
    rcases Nat.lt_succ_iff_lt_or_eq.mp hindex with hindex | rfl
    · exact h.inside index hindex
    · exact hset
  · intro index hindex
    simp only [update_update_apply]
    split
    case isTrue hhere =>
      -- quotient and remainder give the index back
      rw [← Nat.div_add_mod' index store.indexingPolicy.assoc,
        ← Nat.div_add_mod' bound store.indexingPolicy.assoc, hhere.1, hhere.2]
    case isFalse hhere =>
      apply h.entry index
      rcases Nat.lt_succ_iff_lt_or_eq.mp hindex with hindex | rfl
      · exact hindex
      · exact absurd ⟨rfl, rfl⟩ hhere
  · intro index hindex
    by_cases hhere : index = bound
    · subst hhere
      simp
    · simp only [Function.update_of_ne hhere]
      exact h.set index (by omega)
  · intro index
    by_cases hhere : index = bound
    · subst hhere
      simpa using h.free index
    · simpa only [Function.update_of_ne hhere] using h.free index

theorem Linking.tagsInit {store next : BaseSetAssoc} (h : Linking 0 store)
    (hinit : store.tagsInit = .ok next) :
    Linking store.numBlocks next ∧ SameShape store next := by
  have hprefix : ∀ bound linked, (List.range bound).foldlM BaseSetAssoc.setEntry store =
      .ok linked → Linking bound linked ∧ SameShape store linked := by
    intro bound
    induction bound with
    | zero =>
        intro linked hlinked
        cases hlinked
        exact ⟨h, rfl, rfl, rfl⟩
    | succ bound ih =>
        intro linked hlinked
        rw [List.range_succ, List.foldlM_append, bind_eq_ok] at hlinked
        obtain ⟨before, hbefore, hlast⟩ := hlinked
        simp only [List.foldlM_cons, List.foldlM_nil, bind_eq_ok, pure_eq_ok] at hlast
        obtain ⟨last, hentry, rfl⟩ := hlast
        obtain ⟨hlinking, hshape⟩ := ih before hbefore
        obtain ⟨hnext, hshape'⟩ := hlinking.setEntry hentry
        exact ⟨hnext, hshape'.assoc.trans hshape.assoc, hshape'.numSets.trans hshape.numSets,
          hshape'.numBlocks.trans hshape.numBlocks⟩
  exact hprefix store.numBlocks next hinit

/-- Every way of every set has the block that stands there. -/
structure Filled (store : BaseSetAssoc) : Prop where
  assoc_pos : 0 < store.indexingPolicy.assoc
  numSets_pos : 0 < store.indexingPolicy.numSets
  setMask : store.indexingPolicy.setMask = store.indexingPolicy.numSets - 1
  numBlocks : store.numBlocks = store.indexingPolicy.numSets * store.indexingPolicy.assoc
  entry : ∀ index < store.numBlocks,
    store.indexingPolicy.sets (index / store.indexingPolicy.assoc)
      (index % store.indexingPolicy.assoc) = some index
  set : ∀ index < store.numBlocks, (store.blks index).set = index / store.indexingPolicy.assoc

theorem Filled.of_samePlaces {store next : BaseSetAssoc} (h : store.Filled)
    (hplaces : SamePlaces store next) : next.Filled := by
  obtain ⟨hpolicy, hblocks, hset⟩ := hplaces
  refine ⟨?_, ?_, ?_, ?_, ?_, ?_⟩ <;> rw [hpolicy]
  · exact h.assoc_pos
  · exact h.numSets_pos
  · exact h.setMask
  · exact hblocks.trans h.numBlocks
  · rw [hblocks]
    exact h.entry
  · intro index hindex
    exact (hset index).trans (h.set index (hblocks ▸ hindex))

/-- While the bytes of a set and the blocks can be counted in 32 bits, a store whose
blocks are all linked has none to spare and no way without a block. -/
theorem tagsInit_filled {p : SetAssocParams} {dataBlks : Nat → UInt8}
    {built store : BaseSetAssoc} (hset : p.blockSize * p.assoc < 2 ^ 32)
    (hblocks : p.size / p.blockSize < 2 ^ 32)
    (hnew : new p dataBlks = .ok built) (hinit : built.tagsInit = .ok store) :
    store.Filled ∧ store.Mirrored := by
  obtain ⟨hbuilt, hassoc, hnumSets, hnumBlocks⟩ := new_linking hnew
  obtain ⟨hlinking, hshape⟩ := hbuilt.tagsInit hinit
  rw [Nat.mod_eq_of_lt hset, ← Nat.div_div_eq_div_mul,
    Nat.mod_eq_of_lt (lt_of_le_of_lt (Nat.div_le_self _ _) hblocks)] at hnumSets
  rw [Nat.mod_eq_of_lt hblocks] at hnumBlocks
  have hcount : built.numBlocks = built.indexingPolicy.numSets * built.indexingPolicy.assoc := by
    apply Nat.le_antisymm
    · -- the block after the last set would have failed the assertion of `setEntry`
      rw [← Nat.not_lt]
      intro hspare
      have hinside := hlinking.inside _ hspare
      rw [hshape.assoc, hshape.numSets, Nat.mul_div_cancel _ hbuilt.assoc_pos] at hinside
      exact absurd hinside (Nat.lt_irrefl _)
    · rw [hnumSets, hassoc, hnumBlocks]
      exact Nat.div_mul_le_self _ _
  have hmirrored : store.Mirrored := fun index => by
    rw [(hlinking.free index).1, (hlinking.free index).2]
  refine ⟨⟨hlinking.assoc_pos, hlinking.numSets_pos, hlinking.setMask, ?_, ?_, ?_⟩, hmirrored⟩
  · rw [hshape.numBlocks, hshape.numSets, hshape.assoc]
    exact hcount
  · rw [hshape.numBlocks]
    exact hlinking.entry
  · rw [hshape.numBlocks]
    exact hlinking.set

/-- The block in a way of the set of an address. -/
def candidate (store : BaseSetAssoc) (addr : Addr) (way : Nat) : Nat :=
  store.indexingPolicy.extractSet addr * store.indexingPolicy.assoc + way

section Victims

variable {store : BaseSetAssoc} (h : store.Filled)
include h

theorem Filled.extractSet_lt (addr : Addr) :
    store.indexingPolicy.extractSet addr < store.indexingPolicy.numSets := by
  have hpos := h.numSets_pos
  have hmask := Nat.mod_le (store.indexingPolicy.numSets - 1) (2 ^ 64)
  have hand : (addr >>> store.indexingPolicy.setShift).toNat &&&
      (store.indexingPolicy.numSets - 1) % 2 ^ 64 ≤
        (store.indexingPolicy.numSets - 1) % 2 ^ 64 := Nat.and_le_right
  rw [IndexingPolicy.extractSet, h.setMask, BitVec.toNat_and, BitVec.toNat_ofNat]
  omega

/-- The block in a way of a set. -/
theorem Filled.slot {set way : Nat} (hset : set < store.indexingPolicy.numSets)
    (hway : way < store.indexingPolicy.assoc) :
    set * store.indexingPolicy.assoc + way < store.numBlocks ∧
      store.indexingPolicy.sets set way = some (set * store.indexingPolicy.assoc + way) ∧
      (store.blks (set * store.indexingPolicy.assoc + way)).set = set := by
  have hlt : set * store.indexingPolicy.assoc + way < store.numBlocks := by
    have hle : (set + 1) * store.indexingPolicy.assoc ≤
        store.indexingPolicy.numSets * store.indexingPolicy.assoc := Nat.mul_le_mul_right _ hset
    rw [Nat.add_mul, Nat.one_mul] at hle
    rw [h.numBlocks]
    omega
  have hdiv : (set * store.indexingPolicy.assoc + way) / store.indexingPolicy.assoc = set := by
    rw [Nat.mul_comm, Nat.mul_add_div h.assoc_pos, Nat.div_eq_of_lt hway, Nat.add_zero]
  have hmod : (set * store.indexingPolicy.assoc + way) % store.indexingPolicy.assoc = way := by
    rw [Nat.mul_comm, Nat.mul_add_mod, Nat.mod_eq_of_lt hway]
  have hentry := h.entry _ hlt
  have hplace := h.set _ hlt
  rw [hdiv, hmod] at hentry
  rw [hdiv] at hplace
  exact ⟨hlt, hentry, hplace⟩

theorem Filled.getPossibleEntries (addr : Addr) :
    store.indexingPolicy.getPossibleEntries addr =
      (List.range store.indexingPolicy.assoc).map fun way => some (store.candidate addr way) := by
  rw [IndexingPolicy.getPossibleEntries]
  apply List.map_congr_left
  intro way hway
  exact (h.slot (h.extractSet_lt addr) (List.mem_range.mp hway)).2.1

/-- The victim stands in one of the ways, and its replacement data is invalid if
that of a way of the set is. -/
theorem Filled.findVictim (addr : Addr) (random : Nat) :
    ∃ way < store.indexingPolicy.assoc,
      store.findVictim addr random = .ok (store.candidate addr way) ∧
      ((∃ other < store.indexingPolicy.assoc,
          (store.blks (store.candidate addr other)).blk.replValid = false) →
        (store.blks (store.candidate addr way)).blk.replValid = false) := by
  have hassoc := h.assoc_pos
  have hentries := h.getPossibleEntries addr
  have hlength : (store.indexingPolicy.getPossibleEntries addr).length =
      store.indexingPolicy.assoc := by
    rw [hentries, List.length_map, List.length_range]
  have hsome : (store.indexingPolicy.getPossibleEntries addr).isEmpty = false := by
    rw [List.isEmpty_eq_false_iff, ← List.length_pos_iff]
    omega
  have hscan : findFirst (store.testEntry fun blk => !blk.replValid)
      (store.indexingPolicy.getPossibleEntries addr) =
        .ok (((List.range store.indexingPolicy.assoc).find? fun way =>
          !(store.blks (store.candidate addr way)).blk.replValid).map fun way =>
            some (store.candidate addr way)) := by
    rw [hentries, findFirst_map]
    intro way
    rfl
  have hrandom : random % store.indexingPolicy.assoc < store.indexingPolicy.assoc :=
    Nat.mod_lt random hassoc
  simp only [BaseSetAssoc.findVictim, hsome, hscan, hlength, Bool.not_false, check_true, ok_bind]
  cases hfound : (List.range store.indexingPolicy.assoc).find? fun way =>
      !(store.blks (store.candidate addr way)).blk.replValid with
  | some way =>
      refine ⟨way, List.mem_range.mp (List.mem_of_find?_eq_some hfound), rfl, fun _ => ?_⟩
      simpa using List.find?_some hfound
  | none =>
      refine ⟨random % store.indexingPolicy.assoc, hrandom, ?_, ?_⟩
      · simp [hentries, hrandom, deref]
      · rintro ⟨other, hother, hfree⟩
        rw [List.find?_eq_none] at hfound
        simpa [hfree] using hfound other (List.mem_range.mpr hother)

/-- The blocks of the set of an address are its candidates. -/
theorem Filled.exists_candidate {addr : Addr} {index : Nat} (hindex : index < store.numBlocks)
    (hset : (store.blks index).set = store.indexingPolicy.extractSet addr) :
    ∃ way < store.indexingPolicy.assoc, store.candidate addr way = index := by
  refine ⟨index % store.indexingPolicy.assoc, Nat.mod_lt _ h.assoc_pos, ?_⟩
  rw [candidate, ← hset, h.set index hindex]
  exact Nat.div_add_mod' index store.indexingPolicy.assoc

end Victims

/-- After any run of insertions, invalidations and moves, replacement data and blocks
agree on which blocks are valid, and the victim for an address is a free block of its
set if there is one. -/
theorem free_ways_are_used_first {p : SetAssocParams} {dataBlks : Nat → UInt8}
    {built store final : BaseSetAssoc} {events : List BlockCall}
    (hset : p.blockSize * p.assoc < 2 ^ 32) (hblocks : p.size / p.blockSize < 2 ^ 32)
    (hnew : new p dataBlks = .ok built)
    (hinit : built.tagsInit = .ok store) (hrun : Transition.run call store events = .ok final) :
    (∀ index < final.numBlocks,
      (final.blks index).blk.replValid = (final.blks index).blk.valid) ∧
    ∀ addr random, ∃ victim < final.numBlocks, final.findVictim addr random = .ok victim ∧
      (final.blks victim).set = final.indexingPolicy.extractSet addr ∧
      ((∃ index < final.numBlocks,
          (final.blks index).set = final.indexingPolicy.extractSet addr ∧
          (final.blks index).blk.valid = false) →
        (final.blks victim).blk.valid = false) := by
  obtain ⟨hfilled, hmirrored⟩ := tagsInit_filled hset hblocks hnew hinit
  obtain ⟨hfinal, hplaces⟩ := run_mirrored hmirrored hrun
  have hready := hfilled.of_samePlaces hplaces
  refine ⟨fun index _ => hfinal index, ?_⟩
  intro addr random
  obtain ⟨way, hway, hvictim, hfree⟩ := hready.findVictim addr random
  obtain ⟨hlt, -, hplace⟩ := hready.slot (hready.extractSet_lt addr) hway
  refine ⟨final.candidate addr way, hlt, hvictim, hplace, ?_⟩
  rintro ⟨index, hindex, hsame, hinvalid⟩
  obtain ⟨other, hother, rfl⟩ := hready.exists_candidate hindex hsame
  rw [← hfinal]
  apply hfree
  exact ⟨other, hother, (hfinal _).trans hinvalid⟩

/-- Two sets of two blocks of 64 bytes. -/
def fourBlocks : SetAssocParams := { blockSize := 64, assoc := 2, size := 256 }

/-- Both ways of a set are filled, and one line moves to the other set. -/
def moveAway : List BlockCall :=
  let packet addr := Packet.ofRequest 0 (Request.physical addr 4 0 0) .readReq
  [.insertBlock (packet 0x000) 0, .insertBlock (packet 0x080) 1, .moveBlock 0 2]

/-- Build a store and call it. -/
def callFrom (p : SetAssocParams) (dataBlks : Nat → UInt8) (events : List BlockCall) :
    Except Assertion BaseSetAssoc := do
  let built ← new p dataBlks
  let store ← built.tagsInit
  Transition.run call store events

theorem free_ways_are_used_first_moveAway :
    ∃ final, callFrom fourBlocks (fun _ => 0) moveAway = .ok final ∧
      (final.blks 0).blk.valid = false ∧ (final.blks 1).blk.valid = true ∧
      ∃ victim < final.numBlocks, final.findVictim 0 1 = .ok victim ∧
        (final.blks victim).blk.valid = false := by
  obtain ⟨final, hcalls, hseen⟩ := exists_ok_of_observed
    (show ((callFrom fourBlocks (fun _ => 0) moveAway).toOption.map fun final =>
      ([(final.blks 0).blk.valid, (final.blks 1).blk.valid],
        [final.numBlocks, (final.blks 0).set, final.indexingPolicy.extractSet 0])) =
      some ([false, true], [4, 0, 0]) by decide +kernel)
  simp only [Prod.mk.injEq, List.cons.injEq, and_true] at hseen
  obtain ⟨⟨hfirst, hsecond⟩, hcount, hplace, hset⟩ := hseen
  refine ⟨final, hcalls, hfirst, hsecond, ?_⟩
  simp only [callFrom, bind_eq_ok] at hcalls
  obtain ⟨built, hnew, store, hinit, hrun⟩ := hcalls
  obtain ⟨victim, hlt, hvictim, -, hfree⟩ :=
    (free_ways_are_used_first (by decide) (by decide) hnew hinit hrun).2 0 1
  exact ⟨victim, hlt, hvictim, hfree ⟨0, by omega, hplace.trans hset.symm, hfirst⟩⟩

/-- In a set none of whose slots has a block, a null pointer is looked at. -/
theorem findVictim_unlinked {store : BaseSetAssoc} {addr : Addr}
    (hassoc : 0 < store.indexingPolicy.assoc)
    (hsets : ∀ way, store.indexingPolicy.sets (store.indexingPolicy.extractSet addr) way = none)
    (random : Nat) : store.findVictim addr random = .error .undefinedBehaviour := by
  obtain ⟨ways, hways⟩ := Nat.exists_eq_succ_of_ne_zero hassoc.ne'
  have hentries : store.indexingPolicy.getPossibleEntries addr =
      none :: (List.range ways).map fun _ => none := by
    rw [IndexingPolicy.getPossibleEntries, hways, List.range_succ_eq_map, List.map_cons,
      List.map_map, hsets]
    exact congrArg _ (List.map_congr_left fun way _ => hsets _)
  rw [findVictim, hentries]
  rfl

/-- Eight blocks of a mebibyte in a store asked for 4097 ways: the bytes of a set
overflow to one block, by which the store has eight sets, and all blocks stand in the
first.  2^31 sets of two blocks of 64 bytes: the number of blocks overflows to zero, and
no slot gets a block.  The victim is looked for in null pointers. -/
theorem wide_store_has_no_victim :
    (∃ built store,
      new { blockSize := 2 ^ 20, assoc := 4097, size := 2 ^ 23 } (fun _ => 0) = .ok built ∧
      built.tagsInit = .ok store ∧
      store.findVictim (2 ^ 20) 0 = .error .undefinedBehaviour) ∧
    ∃ built, new { blockSize := 64, assoc := 2, size := 2 ^ 38 } (fun _ => 0) = .ok built ∧
      built.tagsInit = .ok built ∧ built.findVictim 0 0 = .error .undefinedBehaviour := by
  constructor
  · exact ⟨_, _, rfl, rfl, findVictim_unlinked (by decide) (fun _ => rfl) 0⟩
  · exact ⟨_, rfl, rfl, findVictim_unlinked (by decide) (fun _ => rfl) 0⟩

end BaseSetAssoc

end KuiperCache
