import KuiperCache.Tags.BlockArray

/-! How much of an address its tag and set give back.  The tag is a 64-bit
value and the set a 32-bit one, which is shifted before it is widened. -/
namespace KuiperCache

open Checked

theorem exists_two_pow_of_isPowerOf2 {n : Nat} (h : isPowerOf2 n = true) :
    ∃ bits, n = 2 ^ bits := by
  simp only [isPowerOf2, Bool.and_eq_true, bne_iff_ne, beq_iff_eq] at h
  exact (Nat.and_sub_one_eq_zero_iff_isPowerOfTwo h.1).mp h.2

namespace IndexingPolicy

/-- The policy indexes as the geometry says. -/
structure Follows (policy : IndexingPolicy) (geometry : Geometry) : Prop where
  numSets : policy.numSets = geometry.numSets
  setShift : policy.setShift = geometry.blkBits
  setMask : policy.setMask = geometry.numSets - 1
  tagShift : policy.tagShift = geometry.tagShift

/-- The constructor computes the shifts and the mask of a geometry. -/
theorem new_follows {p : SetAssocParams} {policy : IndexingPolicy}
    (hentry : isPowerOf2 p.blockSize = true) (hint : p.blockSize < 2 ^ 31)
    (hnew : IndexingPolicy.new p = .ok policy) :
    ∃ geometry, policy.Follows geometry ∧ geometry.blkSize = p.blockSize := by
  obtain ⟨blkBits, hblk⟩ := exists_two_pow_of_isPowerOf2 hentry
  have hblkBits : blkBits < 31 := by
    rw [hblk] at hint
    exact (Nat.pow_lt_pow_iff_right (by decide)).mp hint
  simp only [IndexingPolicy.new, bind_eq_ok, check_eq_ok, exists_const, pure_eq_ok,
    decide_eq_true_eq] at hnew
  obtain ⟨-, setShift, hsetShift, setBits, hsetBits, hpower, hassoc, rfl⟩ := hnew
  obtain ⟨bits, hsets⟩ := exists_two_pow_of_isPowerOf2 hpower
  have hbits : bits < 32 := by
    have hlt : p.size / (p.blockSize * p.assoc % 2 ^ 32) % 2 ^ 32 < 2 ^ 32 :=
      Nat.mod_lt _ (Nat.two_pow_pos 32)
    rw [hsets] at hlt
    exact (Nat.pow_lt_pow_iff_right (by decide)).mp hlt
  rw [hblk, BaseSetAssoc.floorLog2_two_pow blkBits (by omega), Except.ok.injEq] at hsetShift
  rw [hsets, BaseSetAssoc.floorLog2_two_pow bits hbits, Except.ok.injEq] at hsetBits
  subst hsetShift hsetBits
  refine ⟨⟨blkBits, bits, p.assoc, hblkBits, hbits, hassoc⟩, ⟨hsets, rfl, ?_, rfl⟩, hblk.symm⟩
  rw [hsets]
  rfl

variable {policy : IndexingPolicy} {geometry : Geometry}

theorem Follows.extractTag (h : policy.Follows geometry) (addr : Addr) :
    policy.extractTag addr = geometry.extractTag addr := by
  rw [IndexingPolicy.extractTag, h.tagShift]
  rfl

theorem Follows.extractSet (h : policy.Follows geometry) (addr : Addr) :
    policy.extractSet addr = (geometry.extractSet addr).val := by
  rw [IndexingPolicy.extractSet, h.setShift, h.setMask]
  rfl

theorem Follows.regenerateAddr (h : policy.Follows geometry) (tag : Addr)
    (set : Fin geometry.numSets) :
    policy.regenerateAddr tag set.val = geometry.regenerateAddr tag set := by
  rw [IndexingPolicy.regenerateAddr, h.tagShift, h.setShift]
  rfl

/-- The address with its low `setShift` bits cleared. -/
def blockAddr (policy : IndexingPolicy) (addr : Addr) : Addr :=
  addr &&& ~~~ BitVec.ofNat 64 (2 ^ policy.setShift - 1)

theorem Follows.blockAddr (h : policy.Follows geometry) (addr : Addr) :
    policy.blockAddr addr = geometry.lineAddr addr := by
  rw [IndexingPolicy.blockAddr, h.setShift]
  rfl

/-- The highest bit of the set is lost when it does not fit into 32 bits. -/
theorem regenerateAddr_wide (hwide : 32 < geometry.tagShift) :
    geometry.regenerateAddr (geometry.extractTag (BitVec.twoPow 64 (geometry.tagShift - 1)))
        (geometry.extractSet (BitVec.twoPow 64 (geometry.tagShift - 1))) ≠
      geometry.lineAddr (BitVec.twoPow 64 (geometry.tagShift - 1)) := by
  intro hsame
  have hblk := geometry.blkBits_lt
  have hset := geometry.setBits_lt
  have hshift : geometry.tagShift = geometry.blkBits + geometry.setBits := rfl
  have hi : geometry.tagShift - 1 < 64 := by omega
  have hbit := congrArg (fun addr => addr.getLsbD (geometry.tagShift - 1)) hsame
  simp only [Geometry.getLsbD_regenerateAddr _ _ _ hi, Geometry.getLsbD_lineAddr,
    BitVec.getLsbD_twoPow] at hbit
  have hword : ¬ geometry.tagShift - 1 < 32 := by omega
  have hlow : geometry.tagShift - 1 < geometry.tagShift := by omega
  have hoffset : ¬ geometry.tagShift - 1 < geometry.blkBits := by omega
  simp [hword, hlow, hoffset, hi] at hbit

/-- Tag and set give the block's address back for every address exactly when a
way holds at most 4 GiB; they always tell two blocks apart. -/
theorem regenerates_every_block_iff (p : SetAssocParams) (policy : IndexingPolicy)
    (hentry : isPowerOf2 p.blockSize = true) (hint : p.blockSize < 2 ^ 31)
    (hnew : IndexingPolicy.new p = .ok policy) :
    ((∀ addr, policy.regenerateAddr (policy.extractTag addr) (policy.extractSet addr) =
        policy.blockAddr addr) ↔ p.blockSize * policy.numSets ≤ 2 ^ 32) ∧
      ∀ addr other, policy.blockAddr addr ≠ policy.blockAddr other →
        ¬ (policy.extractTag addr = policy.extractTag other ∧
          policy.extractSet addr = policy.extractSet other) := by
  obtain ⟨geometry, hfollows, hblk⟩ := new_follows hentry hint hnew
  have hbytes : p.blockSize * policy.numSets = 2 ^ geometry.tagShift := by
    rw [← hblk, hfollows.numSets, Geometry.blkSize, Geometry.numSets, ← Nat.pow_add]
    rfl
  simp only [hbytes, hfollows.extractTag, hfollows.extractSet, hfollows.regenerateAddr,
    hfollows.blockAddr, Nat.pow_le_pow_iff_right (show 1 < 2 by decide)]
  refine ⟨⟨?_, ?_⟩, ?_⟩
  · intro hevery
    by_contra hwide
    exact regenerateAddr_wide (by omega) (hevery _)
  · intro hnarrow addr
    exact Geometry.regenerateAddr_extract hnarrow addr
  · rintro addr other hdifferent ⟨htag, hset⟩
    exact hdifferent (geometry.lineAddr_eq_of_extract_eq (Fin.ext hset) htag)

/-- A small cache regenerates every address; one of 8 GiB for each way does not. -/
theorem regenerates_every_block_iff_bothSides :
    (∃ policy, IndexingPolicy.new ⟨64, 4, 32768⟩ = .ok policy ∧
      ∀ addr, policy.regenerateAddr (policy.extractTag addr) (policy.extractSet addr) =
        policy.blockAddr addr) ∧
    ∃ policy, IndexingPolicy.new ⟨4096, 1, 2 ^ 33⟩ = .ok policy ∧
      ¬ ∀ addr, policy.regenerateAddr (policy.extractTag addr) (policy.extractSet addr) =
        policy.blockAddr addr := by
  obtain ⟨small, hsmall, hsets⟩ := exists_ok_of_observed
    (show (IndexingPolicy.new ⟨64, 4, 32768⟩).toOption.map numSets = some 128 by decide)
  obtain ⟨large, hlarge, hsets'⟩ := exists_ok_of_observed
    (show (IndexingPolicy.new ⟨4096, 1, 2 ^ 33⟩).toOption.map numSets = some (2 ^ 21) by decide)
  refine ⟨⟨small, hsmall, ?_⟩, large, hlarge, ?_⟩
  · apply (regenerates_every_block_iff _ small (by decide) (by decide) hsmall).1.mpr
    rw [hsets]
    decide
  · intro hevery
    have hbound := (regenerates_every_block_iff _ large (by decide) (by decide) hlarge).1.mp hevery
    rw [hsets'] at hbound
    exact absurd hbound (by decide)

end IndexingPolicy

end KuiperCache
