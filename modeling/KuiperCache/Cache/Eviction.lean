import KuiperCache.Cache.Sound

/-! Allocation into the tag store.  Nothing evicts the victim, so a line can only
be allocated while its set has an invalid way. -/
namespace KuiperCache.Cache

open Checked

variable {config : CacheConfig}

/-- The block `findVictim` chooses for the line of a packet. -/
def victim (cache : Cache config) (pkt : Packet) (random : Fin config.geometry.assoc) :
    BlkRef config.geometry :=
  .slot (config.geometry.extractSet pkt.addr) (cache.tags.findVictim pkt.addr random)

/-- Before the insertion the victim is invalid: it was so from the start, or it
has been evicted, and a dirty one has been written back exactly once. -/
def VictimCleared (cache : Cache config) (pkt : Packet) (writebacks : List Packet)
    (random : Fin config.geometry.assoc) : Prop :=
  let ref := cache.victim pkt random
  let evicted := cache.handleEvictions [ref] writebacks
  (cache.getBlk ref).valid = false ∨
    ((evicted.2.1.getBlk ref).valid = false ∧
      ((cache.getBlk ref).isSet .dirtyBit = true → ∃ writeback : Packet,
        evicted.2.2 = writebacks ++ [writeback] ∧ writeback.cmd = .writebackDirty ∧
        writeback.addr = cache.regenerateBlkAddr ref ∧
        writeback.data = (cache.getBlk ref).data))

theorem findVictim_valid {tags : Tags config.geometry} (hreplaceable : tags.Replaceable)
    (addr : Addr) (random : Fin config.geometry.assoc) :
    (tags.blks (config.geometry.extractSet addr) (tags.findVictim addr random)).valid = false ↔
      ∃ way, (tags.blks (config.geometry.extractSet addr) way).valid = false := by
  constructor
  · intro hvictim
    exact ⟨_, hvictim⟩
  · rintro ⟨way, hway⟩
    unfold Tags.findVictim
    cases hfind : (List.finRange config.geometry.assoc).find? fun way =>
        !(tags.blks (config.geometry.extractSet addr) way).replValid with
    | some found =>
        have hfound := List.find?_some hfind
        rw [Bool.not_eq_true', hreplaceable] at hfound
        exact hfound
    | none =>
        rw [List.find?_eq_none] at hfind
        have hnone := hfind way (List.mem_finRange way)
        rw [hreplaceable, hway] at hnone
        exact absurd rfl hnone

theorem allocateBlock_ok_iff {cache : Cache config} {pkt : Packet} {writebacks : List Packet}
    {random : Fin config.geometry.assoc} :
    (∃ result, cache.allocateBlock pkt writebacks random = .ok result) ↔
      (cache.getBlk (cache.victim pkt random)).valid = false := by
  constructor
  · rintro ⟨⟨found, next, writebacks'⟩, h⟩
    obtain ⟨-, -, tags, htags, -⟩ := allocateBlock_eq_ok h
    exact (Tags.insertBlock_eq_ok htags).1
  · intro hinvalid
    have hblk : (cache.tags.blks (config.geometry.extractSet pkt.addr)
        (cache.tags.findVictim pkt.addr random)).valid = false := hinvalid
    simp only [allocateBlock, handleEvictions, Bool.not_true, Bool.false_eq_true, ↓reduceIte,
      Tags.insertBlock, CacheBlk.insert, CacheBlk.insertTag, hblk, Bool.not_false, check_true,
      ok_bind]
    exact ⟨_, rfl⟩

/-- `handleEvictions` does nothing, so the victim is invalid after it only if it
was invalid before. -/
theorem victimCleared_iff {cache : Cache config} {pkt : Packet} {writebacks : List Packet}
    {random : Fin config.geometry.assoc} :
    VictimCleared cache pkt writebacks random ↔
      (cache.getBlk (cache.victim pkt random)).valid = false := by
  constructor
  · rintro (hinvalid | ⟨hinvalid, -⟩)
    · exact hinvalid
    · exact hinvalid
  · exact .inl

/-- In every reachable cache an allocation finds its victim cleared, and goes
through, exactly when the set of the address still has an invalid way. -/
theorem victim_cleared_iff_free_way {writeAllocator : Option WriteAllocator}
    {labels : List (Label config)} {final : System config}
    (hrun : Transition.run System.step (System.new config writeAllocator) labels = .ok final)
    (pkt : Packet) (writebacks : List Packet) (random : Fin config.geometry.assoc) :
    (VictimCleared final.cache pkt writebacks random ↔
      ∃ way, (final.cache.tags.blks (config.geometry.extractSet pkt.addr) way).valid = false) ∧
    ((∃ result, final.cache.allocateBlock pkt writebacks random = .ok result) ↔
      ∃ way, (final.cache.tags.blks (config.geometry.extractSet pkt.addr) way).valid = false) := by
  have hsound := System.run_sound hrun
  have hvictim := findVictim_valid hsound.replaceable pkt.addr random
  exact ⟨victimCleared_iff.trans hvictim, allocateBlock_ok_iff.trans hvictim⟩

/-- A dirty line of the L0 cache, written back from above; lines that are a
multiple of 64 KiB apart share a set. -/
def conflictingWriteback (line : Nat) : Packet :=
  { Packet.ofRequest 0 (Request.physical (BitVec.ofNat 64 (line * 0x10000)) 512 0 0)
      .writebackDirty with data := List.replicate 512 1 }

/-- The first lines of one set arrive. -/
def writebacksToOneSet (lines : List Nat) : List (Label simL0Params) :=
  lines.map fun line => .recvTimingReq (conflictingWriteback line) simL0Params.geometry.firstWay

/-- With three lines the set has room, and the next allocation goes through. -/
theorem victim_cleared_iff_free_way_fourth :
    ∃ final, Transition.run System.step (System.new simL0Params none)
        (writebacksToOneSet [0, 1, 2]) = .ok final ∧
      VictimCleared final.cache (conflictingWriteback 3) [] simL0Params.geometry.firstWay := by
  obtain ⟨final, hrun, hseen⟩ := exists_ok_of_observed
    (show ((Transition.run System.step (System.new simL0Params none)
      (writebacksToOneSet [0, 1, 2])).toOption.map fun final =>
        (final.cache.tags.blks (simL0Params.geometry.extractSet (conflictingWriteback 3).addr)
          ⟨3, by decide⟩).valid) = some false by decide +kernel)
  exact ⟨final, hrun, (victim_cleared_iff_free_way hrun (conflictingWriteback 3) []
    simL0Params.geometry.firstWay).1.mpr ⟨⟨3, by decide⟩, hseen⟩⟩

/-- The fifth line of a set of four meets a valid, dirty victim that nobody
evicted, and the assertion of `insertBlock` fails. -/
theorem fifth_conflicting_line_meets_valid_victim :
    ∃ final, Transition.run System.step (System.new simL0Params none)
        (writebacksToOneSet [0, 1, 2, 3]) = .ok final ∧
      final.cache.findBlock (conflictingWriteback 4).addr (conflictingWriteback 4).isSecure =
        none ∧
      ¬ VictimCleared final.cache (conflictingWriteback 4) [] simL0Params.geometry.firstWay ∧
      final.cache.recvTimingReq (conflictingWriteback 4) simL0Params.geometry.firstWay =
        .error .victimStillValid := by
  obtain ⟨final, hrun, hseen⟩ := exists_ok_of_observed
    (show ((Transition.run System.step (System.new simL0Params none)
      (writebacksToOneSet [0, 1, 2, 3])).toOption.map fun final =>
        (final.cache.findBlock (conflictingWriteback 4).addr (conflictingWriteback 4).isSecure,
          (final.cache.getBlk (final.cache.victim (conflictingWriteback 4)
            simL0Params.geometry.firstWay)).valid,
          failure (final.cache.recvTimingReq (conflictingWriteback 4)
            simL0Params.geometry.firstWay))) =
        some (none, true, some .victimStillValid) by decide +kernel)
  simp only [Prod.mk.injEq] at hseen
  obtain ⟨habsent, hvalid, hfails⟩ := hseen
  refine ⟨final, hrun, habsent, ?_, failure_eq_some.mp hfails⟩
  rw [victimCleared_iff, hvalid]
  simp

end KuiperCache.Cache
