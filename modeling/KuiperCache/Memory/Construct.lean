import KuiperCache.Memory.Memory

/-! Building the memory.  The loop that initialises it goes up to the size, that
one included, in steps of four and with a counter of 32 bits. -/
namespace KuiperCache.Memory

open Checked

/-- `for (i = 0; i <= m_memory_size; i += 4) m_memory[i] = i / 4`, from a value
of the counter on; `none` when it has not ended after so many passes. -/
def initialise : Nat → Memory → BitVec 32 → Except Assertion (Option Memory)
  | 0, _, _ => .ok none
  | passes + 1, mem, i =>
      if i.setWidth 64 ≤ mem.memorySize then do
        check (i.setWidth 64 < mem.memorySize) .undefinedBehaviour
        let byte := UInt8.ofNat (i.toNat / 4)
        initialise passes { mem with memory := Function.update mem.memory i.toNat byte } (i + 4)
      else .ok (some mem)

/-- The memory before the loop, cleared by `memset`. -/
def zeroed (memorySize : BitVec 64) : Memory := { memorySize, memory := fun _ => 0 }

/-- The constructor.  The parameters are only checked once the loop has ended. -/
def new (passes : Nat) (memorySize : BitVec 64) (memoryWidth : BitVec 32) :
    Except Assertion (Option Memory) := do
  match ← initialise passes (zeroed memorySize) 0 with
  | none => pure none
  | some mem => do
      check (0 < memoryWidth) .memoryWidthExpected
      check (memorySize % memoryWidth.setWidth 64 == 0) .memoryWidthExpected
      check (memoryWidth.setWidth 64 ≤ memorySize) .memoryWidthExpected
      pure (some mem)

/-- The parameters that pass the checks of the constructor. -/
structure Accepted (memorySize : BitVec 64) (memoryWidth : BitVec 32) : Prop where
  positive : 0 < memoryWidth
  multiple : memorySize % memoryWidth.setWidth 64 = 0
  fits : memoryWidth.setWidth 64 ≤ memorySize

variable {mem : Memory} {i : BitVec 32}

theorem counter_le_iff : i.setWidth 64 ≤ mem.memorySize ↔ i.toNat ≤ mem.memorySize.toNat := by
  have hi := i.isLt
  rw [BitVec.le_def, BitVec.toNat_setWidth, Nat.mod_eq_of_lt (by omega)]

theorem counter_lt_iff : i.setWidth 64 < mem.memorySize ↔ i.toNat < mem.memorySize.toNat := by
  have hi := i.isLt
  rw [BitVec.lt_def, BitVec.toNat_setWidth, Nat.mod_eq_of_lt (by omega)]

/-- One pass writes inside the memory and goes on. -/
theorem initialise_pass (passes : Nat) (h : i.toNat < mem.memorySize.toNat) :
    initialise (passes + 1) mem i =
      initialise passes { mem with
        memory := Function.update mem.memory i.toNat (UInt8.ofNat (i.toNat / 4)) } (i + 4) := by
  rw [initialise, if_pos (counter_le_iff.mpr h.le), decide_eq_true (counter_lt_iff.mpr h),
    check_true, ok_bind]

theorem toNat_counter_add (i : BitVec 32) : (i + 4).toNat = (i.toNat + 4) % 2 ^ 32 := by
  rw [BitVec.toNat_add]
  rfl

/-- A size between two values of the counter ends the loop behind the last one
below it. -/
theorem initialise_ends (hsize : mem.memorySize.toNat % 4 ≠ 0)
    (hbound : mem.memorySize.toNat < 2 ^ 32 - 4) (hcounter : i.toNat % 4 = 0) (passes : Nat)
    (hpasses : mem.memorySize.toNat < i.toNat + 4 * passes) :
    ∃ final, initialise (passes + 1) mem i = .ok (some final) := by
  induction passes generalizing mem i with
  | zero =>
      have hend : ¬ i.setWidth 64 ≤ mem.memorySize := by
        rw [counter_le_iff]
        omega
      exact ⟨mem, by rw [initialise, if_neg hend]⟩
  | succ passes ih =>
      by_cases hend : mem.memorySize.toNat < i.toNat
      · have hend' : ¬ i.setWidth 64 ≤ mem.memorySize := by
          rw [counter_le_iff]
          omega
        exact ⟨mem, by rw [initialise, if_neg hend']⟩
      · have hnext := toNat_counter_add i
        have hlt : i.toNat < mem.memorySize.toNat := by omega
        rw [initialise_pass _ hlt]
        apply ih
        · exact hsize
        · exact hbound
        · omega
        · show mem.memorySize.toNat < (i + 4).toNat + 4 * passes
          omega

/-- Any other size is written to at its end, or never passed. -/
theorem initialise_never_ends
    (hsize : mem.memorySize.toNat % 4 = 0 ∨ 2 ^ 32 - 4 ≤ mem.memorySize.toNat)
    (hcounter : i.toNat % 4 = 0) (hbefore : i.toNat ≤ mem.memorySize.toNat) (passes : Nat)
    (final : Memory) : initialise passes mem i ≠ .ok (some final) := by
  induction passes generalizing mem i with
  | zero =>
      intro h
      cases h
  | succ passes ih =>
      by_cases hlast : i.toNat = mem.memorySize.toNat
      · have hout : ¬ i.setWidth 64 < mem.memorySize := by
          rw [counter_lt_iff]
          omega
        rw [initialise, if_pos (counter_le_iff.mpr hbefore), decide_eq_false hout, check_false]
        intro h
        cases h
      · have hnext := toNat_counter_add i
        have hi := i.isLt
        rw [initialise_pass _ (by omega)]
        apply ih
        · exact hsize
        · omega
        · show (i + 4).toNat ≤ mem.memorySize.toNat
          omega

/-- The size is not a multiple of four and the counter can get past it. -/
def initialisable (memorySize : BitVec 64) : Bool :=
  memorySize.toNat % 4 != 0 && memorySize.toNat < 2 ^ 32 - 4

theorem not_ends_of_not_initialisable {memorySize : BitVec 64} {memoryWidth : BitVec 32}
    (hsize : initialisable memorySize = false) (passes : Nat) (mem : Memory) :
    new passes memorySize memoryWidth ≠ .ok (some mem) := by
  have hcases : memorySize.toNat % 4 = 0 ∨ 2 ^ 32 - 4 ≤ memorySize.toNat := by
    simp only [initialisable, Bool.and_eq_false_iff, bne_eq_false_iff_eq, decide_eq_false_iff_not,
      not_lt] at hsize
    exact hsize
  intro h
  rw [new, bind_eq_ok] at h
  obtain ⟨result, hloop, h⟩ := h
  cases result with
  | none => cases h
  | some filled =>
      have hstart : (0 : BitVec 32).toNat ≤ (zeroed memorySize).memorySize.toNat := Nat.zero_le _
      exact initialise_never_ends hcases rfl hstart passes filled hloop

/-- The constructor ends without a write outside the memory exactly when the
size lies strictly between two values of the counter. -/
theorem construction_ends_iff {memorySize : BitVec 64} {memoryWidth : BitVec 32}
    (haccepted : Accepted memorySize memoryWidth) :
    (∃ passes mem, new passes memorySize memoryWidth = .ok (some mem)) ↔
      initialisable memorySize = true := by
  constructor
  · rintro ⟨passes, mem, h⟩
    by_contra hsize
    exact not_ends_of_not_initialisable (Bool.eq_false_iff.mpr hsize) passes mem h
  · intro hsize
    simp only [initialisable, Bool.and_eq_true, bne_iff_ne, decide_eq_true_eq] at hsize
    have hpasses : (zeroed memorySize).memorySize.toNat <
        (0 : BitVec 32).toNat + 4 * memorySize.toNat := by
      show memorySize.toNat < 0 + 4 * memorySize.toNat
      omega
    obtain ⟨mem, hloop⟩ := initialise_ends hsize.1 hsize.2 rfl memorySize.toNat hpasses
    refine ⟨memorySize.toNat + 1, mem, ?_⟩
    rw [new, hloop, ok_bind]
    simp only [haccepted.positive, haccepted.multiple, haccepted.fits, decide_true, beq_self_eq_true,
      check_true, ok_bind]
    rfl

/-- Ten bytes in words of two. -/
theorem construction_ends_iff_ten :
    Accepted 10 2 ∧ ∃ passes mem, new passes 10 2 = .ok (some mem) := by
  have haccepted : Accepted 10 2 := ⟨by decide, by decide, by decide⟩
  exact ⟨haccepted, (construction_ends_iff haccepted).mpr (by decide)⟩

/-- The global memory of the simulation, 512 MiB, is written to behind its end. -/
theorem simulation_memory_is_overrun :
    Accepted 0x20000000 1024 ∧ ¬ ∃ passes mem, new passes 0x20000000 1024 = .ok (some mem) := by
  refine ⟨⟨by decide, by decide, by decide⟩, ?_⟩
  rintro ⟨passes, mem, h⟩
  exact not_ends_of_not_initialisable (by decide) passes mem h

end KuiperCache.Memory
