import KuiperCache.Library.Checked

/-! Computations that never stop with a given failure.  Every construct of a
checked computation has one rule, so that a function avoids a failure when all
the functions it calls do. -/
namespace Checked

variable {ε α β : Type} {reason : ε}

/-- The computation does not stop with the given failure. -/
def Avoids (reason : ε) (computation : Except ε α) : Prop := computation ≠ .error reason

@[simp] theorem avoids_ok (value : α) : Avoids reason (.ok value) := by
  unfold Avoids
  simp

@[simp] theorem avoids_pure (value : α) : Avoids reason (pure value) := avoids_ok value

@[simp] theorem avoids_error {other : ε} :
    Avoids reason (.error other : Except ε α) ↔ other ≠ reason := by
  unfold Avoids
  simp

@[simp] theorem avoids_check {condition : Bool} {other : ε} :
    Avoids reason (check condition other) ↔ (condition = true ∨ other ≠ reason) := by
  cases condition <;> simp

@[simp] theorem avoids_bind {first : Except ε α} {next : α → Except ε β} :
    Avoids reason (first >>= next) ↔
      Avoids reason first ∧ ∀ value, first = .ok value → Avoids reason (next value) := by
  cases first <;> simp

@[simp] theorem avoids_map {first : Except ε α} {f : α → β} :
    Avoids reason (f <$> first) ↔ Avoids reason first := by
  cases first <;> simp [Functor.map, Except.map]

@[simp] theorem avoids_ite {condition : Prop} [Decidable condition] {first second : Except ε α} :
    Avoids reason (if condition then first else second) ↔
      (condition → Avoids reason first) ∧ (¬condition → Avoids reason second) := by
  by_cases h : condition
  · simp [h]
  · simp [h]

theorem avoids_foldlM {step : β → α → Except ε β} (h : ∀ state x, Avoids reason (step state x))
    (list : List α) (state : β) : Avoids reason (list.foldlM step state) := by
  induction list generalizing state with
  | nil => simp
  | cons head tail ih => simp [h, ih]

theorem avoids_splitWhile {test : α → Except ε Bool} (h : ∀ x, Avoids reason (test x))
    (list : List α) : Avoids reason (splitWhile test list) := by
  induction list with
  | nil => simp [splitWhile]
  | cons head tail ih => simp [splitWhile, h, ih]

theorem avoids_findFirst {test : α → Except ε Bool} (h : ∀ x, Avoids reason (test x))
    (list : List α) : Avoids reason (findFirst test list) := by
  induction list with
  | nil => simp [findFirst]
  | cons head tail ih => simp [findFirst, h, ih]

end Checked
