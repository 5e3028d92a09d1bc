import Mathlib.Data.Nat.Bitwise

/-! Rounding a machine word down to a power of two, and taking what is left, by
a mask. -/
namespace Alignment

variable {w bits : Nat}

/-- `word & ~(align - 1)`. -/
def alignDown (word align : BitVec w) : BitVec w := word &&& ~~~(align - 1)

theorem ofNat_two_pow_sub_one (bits : Nat) :
    BitVec.ofNat w (2 ^ bits) - 1 = BitVec.ofNat w (2 ^ bits - 1) := by
  have hpos : 0 < 2 ^ bits := Nat.two_pow_pos bits
  have hsum : BitVec.ofNat w (2 ^ bits) = BitVec.ofNat w (2 ^ bits - 1) + 1 := by
    conv_lhs => rw [← Nat.sub_add_cancel hpos, BitVec.ofNat_add]
    rfl
  rw [hsum, BitVec.add_sub_cancel]

/-- The mask clears the bits that shifting down and up again clears. -/
theorem alignDown_two_pow (word : BitVec w) (bits : Nat) :
    alignDown word (BitVec.ofNat w (2 ^ bits)) = word >>> bits <<< bits := by
  apply BitVec.eq_of_getLsbD_eq
  intro i hi
  rw [alignDown, ofNat_two_pow_sub_one, BitVec.getLsbD_and, BitVec.getLsbD_not,
    BitVec.getLsbD_ofNat, Nat.testBit_two_pow_sub_one, BitVec.getLsbD_shiftLeft,
    BitVec.getLsbD_ushiftRight]
  by_cases hlow : i < bits
  · simp [hi, hlow]
  · have hback : bits + (i - bits) = i := by omega
    simp [hi, hlow, hback]

/-- Rounding down to a power of two takes the quotient. -/
theorem toNat_alignDown (word : BitVec w) (bits : Nat) :
    (alignDown word (BitVec.ofNat w (2 ^ bits))).toNat = word.toNat / 2 ^ bits * 2 ^ bits := by
  have hle : word.toNat / 2 ^ bits * 2 ^ bits ≤ word.toNat := Nat.div_mul_le_self _ _
  rw [alignDown_two_pow, BitVec.toNat_shiftLeft, BitVec.toNat_ushiftRight, Nat.shiftRight_eq_div_pow,
    Nat.shiftLeft_eq, Nat.mod_eq_of_lt (Nat.lt_of_le_of_lt hle word.isLt)]

/-- The mask of the low bits takes the remainder. -/
theorem toNat_and_two_pow_sub_one (word : BitVec w) (bits : Nat) :
    (word &&& BitVec.ofNat w (2 ^ bits - 1)).toNat = word.toNat % 2 ^ bits := by
  apply Nat.eq_of_testBit_eq
  intro i
  rw [BitVec.toNat_and, BitVec.toNat_ofNat, Nat.testBit_and, Nat.testBit_mod_two_pow,
    Nat.testBit_two_pow_sub_one, Nat.testBit_mod_two_pow]
  by_cases hi : i < w
  · simp [hi, Bool.and_comm]
  · have hhigh : word.toNat.testBit i = false := by
      apply Nat.testBit_lt_two_pow
      exact Nat.lt_of_lt_of_le word.isLt (Nat.pow_le_pow_right Nat.two_pos (Nat.le_of_not_lt hi))
    simp [hhigh]

end Alignment
