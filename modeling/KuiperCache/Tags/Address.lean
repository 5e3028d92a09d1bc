import KuiperCache.Tags.Tags

/-! Addresses of a tag store.  Set and tag do not depend on the offset in the
line, and together they determine the line. -/
namespace KuiperCache.Geometry

/-- The address of the line, `addr & ~(blkSize - 1)`. -/
def lineAddr (geometry : Geometry) (addr : Addr) : Addr :=
  addr &&& ~~~ BitVec.ofNat 64 (geometry.blkSize - 1)

theorem getLsbD_lowMask (bits i : Nat) :
    (BitVec.ofNat 64 (2 ^ bits - 1)).getLsbD i = (decide (i < 64) && decide (i < bits)) := by
  rw [BitVec.getLsbD_ofNat, Nat.testBit_two_pow_sub_one]

theorem getLsbD_lineAddr (geometry : Geometry) (addr : Addr) (i : Nat) :
    (geometry.lineAddr addr).getLsbD i =
      (addr.getLsbD i && !decide (i < geometry.blkBits)) := by
  rw [lineAddr, blkSize, BitVec.getLsbD_and, BitVec.getLsbD_not, getLsbD_lowMask]
  by_cases hi : i < 64
  · simp [hi]
  · simp [BitVec.getLsbD_of_ge addr i (by omega)]

theorem lineAddr_lineAddr (geometry : Geometry) (addr : Addr) :
    geometry.lineAddr (geometry.lineAddr addr) = geometry.lineAddr addr := by
  rw [lineAddr, lineAddr, BitVec.and_assoc, BitVec.and_self]

theorem extractTag_lineAddr (geometry : Geometry) (addr : Addr) :
    geometry.extractTag (geometry.lineAddr addr) = geometry.extractTag addr := by
  apply BitVec.eq_of_getLsbD_eq
  intro i hi
  have hnot : ¬ geometry.tagShift + i < geometry.blkBits := by
    unfold tagShift
    omega
  simp [extractTag, BitVec.getLsbD_ushiftRight, getLsbD_lineAddr, hnot]

theorem extractSet_lineAddr (geometry : Geometry) (addr : Addr) :
    geometry.extractSet (geometry.lineAddr addr) = geometry.extractSet addr := by
  have hshift : geometry.lineAddr addr >>> geometry.blkBits = addr >>> geometry.blkBits := by
    apply BitVec.eq_of_getLsbD_eq
    intro i hi
    simp [BitVec.getLsbD_ushiftRight, getLsbD_lineAddr]
  simp only [extractSet, hshift]

/-- Two addresses with the same set and tag are on the same line. -/
theorem lineAddr_eq_of_extract_eq (geometry : Geometry) {a b : Addr}
    (hset : geometry.extractSet a = geometry.extractSet b)
    (htag : geometry.extractTag a = geometry.extractTag b) :
    geometry.lineAddr a = geometry.lineAddr b := by
  apply BitVec.eq_of_getLsbD_eq
  intro i hi
  rw [getLsbD_lineAddr, getLsbD_lineAddr]
  by_cases hoffset : i < geometry.blkBits
  · simp [hoffset]
  · have hbit : a.getLsbD i = b.getLsbD i := by
      by_cases hindex : i < geometry.blkBits + geometry.setBits
      · -- the bit is one of the set bits
        have hbits : (a >>> geometry.blkBits) &&& BitVec.ofNat 64 (2 ^ geometry.setBits - 1) =
            (b >>> geometry.blkBits) &&& BitVec.ofNat 64 (2 ^ geometry.setBits - 1) := by
          apply BitVec.eq_of_toNat_eq
          exact Fin.mk.inj hset
        have hat := congrArg (fun bits => bits.getLsbD (i - geometry.blkBits)) hbits
        simp only [BitVec.getLsbD_and, BitVec.getLsbD_ushiftRight, getLsbD_lowMask] at hat
        have hback : geometry.blkBits + (i - geometry.blkBits) = i := by omega
        have hlow : i - geometry.blkBits < geometry.setBits := by omega
        have hwidth : i - geometry.blkBits < 64 := by omega
        simpa [hback, hlow, hwidth] using hat
      · have hat := congrArg (fun bits => bits.getLsbD (i - geometry.tagShift)) htag
        simp only [extractTag, BitVec.getLsbD_ushiftRight] at hat
        have hback : geometry.tagShift + (i - geometry.tagShift) = i := by
          unfold tagShift
          omega
        rwa [hback] at hat
    rw [hbit]

/-- The bits of a regenerated address; of the set, those above bit 31 are lost. -/
theorem getLsbD_regenerateAddr (geometry : Geometry) (tag : Addr) (set : Fin geometry.numSets)
    {i : Nat} (hi : i < 64) :
    (geometry.regenerateAddr tag set).getLsbD i =
      ((!decide (i < geometry.tagShift) && tag.getLsbD (i - geometry.tagShift)) ||
        (decide (i < 32) && !decide (i < geometry.blkBits) &&
          set.val.testBit (i - geometry.blkBits))) := by
  rw [regenerateAddr, BitVec.getLsbD_or, BitVec.getLsbD_shiftLeft, BitVec.getLsbD_setWidth,
    BitVec.getLsbD_shiftLeft, BitVec.getLsbD_ofNat]
  by_cases h : i < 32
  · have h' : i - geometry.blkBits < 32 := by omega
    simp [h, h', hi]
  · simp [h, hi]

theorem set_testBit (geometry : Geometry) (set : Fin geometry.numSets) {i : Nat}
    (hi : geometry.setBits ≤ i) : set.val.testBit i = false := by
  apply Nat.testBit_lt_two_pow
  exact lt_of_lt_of_le set.isLt (Nat.pow_le_pow_right (by decide) hi)

theorem getLsbD_extractTag (geometry : Geometry) (addr : Addr) (i : Nat) :
    (geometry.extractTag addr).getLsbD i = addr.getLsbD (geometry.tagShift + i) := by
  rw [extractTag, BitVec.getLsbD_ushiftRight]

theorem extractSet_testBit (geometry : Geometry) (addr : Addr) {i : Nat}
    (hi : i < geometry.setBits) :
    (geometry.extractSet addr).val.testBit i = addr.getLsbD (geometry.blkBits + i) := by
  have hlt := geometry.setBits_lt
  have hwidth : i < 64 := by omega
  change ((addr >>> geometry.blkBits) &&& BitVec.ofNat 64 (2 ^ geometry.setBits - 1)).getLsbD i = _
  rw [BitVec.getLsbD_and, getLsbD_lowMask, BitVec.getLsbD_ushiftRight]
  simp [hi, hwidth]

theorem extractTag_regenerateAddr {geometry : Geometry} (addr : Addr) (set : Fin geometry.numSets) :
    geometry.extractTag (geometry.regenerateAddr (geometry.extractTag addr) set) =
      geometry.extractTag addr := by
  apply BitVec.eq_of_getLsbD_eq
  intro i hi
  rw [getLsbD_extractTag]
  have hshift : geometry.tagShift = geometry.blkBits + geometry.setBits := rfl
  by_cases hin : geometry.tagShift + i < 64
  · have hhigh : geometry.setBits ≤ geometry.tagShift + i - geometry.blkBits := by omega
    have hback : geometry.tagShift + i - geometry.tagShift = i := by omega
    have hnot : ¬ geometry.tagShift + i < geometry.tagShift := by omega
    rw [getLsbD_regenerateAddr _ _ _ hin, set_testBit _ _ hhigh, hback]
    simp
  · rw [BitVec.getLsbD_of_ge _ _ (by omega), getLsbD_extractTag,
      BitVec.getLsbD_of_ge _ _ (by omega)]

section Narrow

/-! While the set is shifted inside its 32 bits, nothing is lost. -/

variable {geometry : Geometry} (hnarrow : geometry.tagShift ≤ 32)
include hnarrow

/-- Putting tag and set of an address together gives its line. -/
theorem regenerateAddr_extract (addr : Addr) :
    geometry.regenerateAddr (geometry.extractTag addr) (geometry.extractSet addr) =
      geometry.lineAddr addr := by
  apply BitVec.eq_of_getLsbD_eq
  intro i hi
  rw [getLsbD_regenerateAddr _ _ _ hi, getLsbD_lineAddr, getLsbD_extractTag]
  have hshift : geometry.tagShift = geometry.blkBits + geometry.setBits := rfl
  by_cases hoffset : i < geometry.blkBits
  · have htag : i < geometry.tagShift := by omega
    simp [hoffset, htag]
  · by_cases hset : i < geometry.tagShift
    · have hlow : i - geometry.blkBits < geometry.setBits := by omega
      have hword : i < 32 := by omega
      have hback : geometry.blkBits + (i - geometry.blkBits) = i := by omega
      simp [hoffset, hset, hword, extractSet_testBit _ _ hlow, hback]
    · have hhigh : geometry.setBits ≤ i - geometry.blkBits := by omega
      have hback : geometry.tagShift + (i - geometry.tagShift) = i := by omega
      simp [hoffset, hset, set_testBit _ _ hhigh, hback]

theorem extractSet_regenerateAddr (tag : Addr) (set : Fin geometry.numSets) :
    geometry.extractSet (geometry.regenerateAddr tag set) = set := by
  apply Fin.ext
  apply Nat.eq_of_testBit_eq
  intro i
  have hshift : geometry.tagShift = geometry.blkBits + geometry.setBits := rfl
  by_cases hi : i < geometry.setBits
  · have hin : geometry.blkBits + i < 64 := by omega
    have hlow : geometry.blkBits + i < geometry.tagShift := by omega
    have hword : geometry.blkBits + i < 32 := by omega
    rw [extractSet_testBit _ _ hi, getLsbD_regenerateAddr _ _ _ hin]
    simp [hlow, hword]
  · rw [set_testBit _ _ (by omega), set_testBit _ _ (by omega)]

/-- A tag that came from an address and a set name exactly one line. -/
theorem regenerateAddr_eq_lineAddr {addr other : Addr} {set : Fin geometry.numSets} :
    geometry.regenerateAddr (geometry.extractTag other) set = geometry.lineAddr addr ↔
      geometry.extractTag other = geometry.extractTag addr ∧ set = geometry.extractSet addr := by
  constructor
  · intro h
    constructor
    · rw [← extractTag_lineAddr geometry addr, ← h, extractTag_regenerateAddr]
    · rw [← extractSet_lineAddr geometry addr, ← h, extractSet_regenerateAddr hnarrow]
  · rintro ⟨htag, rfl⟩
    rw [htag, regenerateAddr_extract hnarrow]

end Narrow
end KuiperCache.Geometry
