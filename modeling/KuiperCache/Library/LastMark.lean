import Mathlib.Logic.Function.Basic

/-! Marks of which only the last one set is remembered.  The record says that
something is marked; it is right until the mark it remembers is taken off. -/

/-- The members that are marked and the one remembered, which is among them. -/
structure LastMark (ι : Type) where
  marked : ι → Bool
  last : Option ι
  remembered : ∀ i, last = some i → marked i = true

namespace LastMark

variable {ι : Type}

/-- Nothing is marked. -/
def unmarked (ι : Type) : LastMark ι where
  marked := fun _ => false
  last := none
  remembered := by
    intro i hi
    cases hi

/-- The record is empty exactly when nothing is marked. -/
def Exact (state : LastMark ι) : Prop :=
  state.last.isSome = true ↔ ∃ i, state.marked i = true

theorem unmarked_exact (ι : Type) : (unmarked ι).Exact := by simp [Exact, unmarked]

variable [DecidableEq ι]

def mark (state : LastMark ι) (i : ι) : LastMark ι where
  marked := Function.update state.marked i true
  last := some i
  remembered := by
    intro j hj
    cases hj
    exact Function.update_self i true state.marked

def clear (state : LastMark ι) (i : ι) : LastMark ι where
  marked := Function.update state.marked i false
  last := if state.last = some i then none else state.last
  remembered := by
    intro j hj
    split at hj
    · cases hj
    · rename_i hother
      have hne : j ≠ i := fun heq => hother (heq ▸ hj)
      rw [Function.update_of_ne hne]
      exact state.remembered j hj

/-- What is marked last is remembered. -/
theorem mark_exact (state : LastMark ι) (i : ι) : (state.mark i).Exact := by
  have hmarked : (state.mark i).marked i = true := (state.mark i).remembered i rfl
  exact ⟨fun _ => ⟨i, hmarked⟩, fun _ => rfl⟩

/-- At most one more mark was set. -/
def MayMark (before after : LastMark ι) : Prop :=
  after = before ∨ ∃ i, after = before.mark i

theorem MayMark.exact {before after : LastMark ι} (h : MayMark before after)
    (hexact : before.Exact) : after.Exact := by
  obtain rfl | ⟨i, rfl⟩ := h
  · exact hexact
  · exact mark_exact before i

theorem clear_marked {state : LastMark ι} {i j : ι} :
    (state.clear i).marked j = true ↔ j ≠ i ∧ state.marked j = true := by
  simp only [clear, Function.update_apply]
  split
  · rename_i heq
    simp [heq]
  · rename_i hne
    simp [hne]

/-- Taking a mark off keeps the record right, unless it is the one remembered and
another mark is left. -/
theorem clear_exact_iff {state : LastMark ι} (h : state.Exact) (i : ι) :
    (state.clear i).Exact ↔ (state.last = some i → ∀ j, state.marked j = true → j = i) := by
  unfold Exact
  simp only [clear_marked]
  by_cases hlast : state.last = some i
  · have hnone : (state.clear i).last = none := if_pos hlast
    rw [hnone]
    constructor
    · intro hexact _ j hj
      by_contra hne
      exact absurd (hexact.mpr ⟨j, hne, hj⟩) (by simp)
    · intro hsole
      have hleft : ¬ ∃ j, j ≠ i ∧ state.marked j = true := by
        rintro ⟨j, hne, hj⟩
        exact hne (hsole hlast j hj)
      simp [hleft]
  · have hsame : (state.clear i).last = state.last := if_neg hlast
    rw [hsame]
    refine ⟨fun _ heq => absurd heq hlast, fun _ => ?_⟩
    constructor
    · intro hsome
      obtain ⟨j, hj⟩ := Option.isSome_iff_exists.mp hsome
      exact ⟨j, fun heq => hlast (heq ▸ hj), state.remembered j hj⟩
    · rintro ⟨j, -, hj⟩
      exact h.mpr ⟨j, hj⟩

end LastMark
