import Mathlib.Data.List.Basic

/-! Computations that stop at the first failed assertion.  A step either
returns the next value or the assertion it violated; the lemmas below take a
successful run apart into the successful runs of its pieces. -/
namespace Checked

variable {ε α β : Type}

/-- Continue when the condition holds, otherwise stop with the failure. -/
def check (condition : Bool) (failure : ε) : Except ε Unit :=
  if condition then .ok () else .error failure

@[simp] theorem bind_eq_ok {first : Except ε α} {next : α → Except ε β} {result : β} :
    (first >>= next) = .ok result ↔ ∃ value, first = .ok value ∧ next value = .ok result := by
  cases first <;> simp [bind, Except.bind]

@[simp] theorem pure_eq_ok {value result : α} :
    (pure value : Except ε α) = .ok result ↔ value = result := by
  simp [pure, Except.pure]

@[simp] theorem map_eq_ok {first : Except ε α} {f : α → β} {result : β} :
    (f <$> first) = .ok result ↔ ∃ value, first = .ok value ∧ f value = result := by
  cases first <;> simp [Functor.map, Except.map]

@[simp] theorem check_eq_ok {condition : Bool} {failure : ε} {result : Unit} :
    check condition failure = .ok result ↔ condition = true := by
  cases condition <;> simp [check]

@[simp] theorem ok_bind (value : α) (next : α → Except ε β) :
    ((.ok value : Except ε α) >>= next) = next value := rfl

@[simp] theorem error_bind (failure : ε) (next : α → Except ε β) :
    ((.error failure : Except ε α) >>= next) = .error failure := rfl

@[simp] theorem check_true (failure : ε) : check true failure = .ok () := rfl

@[simp] theorem check_false (failure : ε) : check false failure = .error failure := rfl

/-- What evaluating an observation of a computation says about its result. -/
theorem exists_ok_of_observed {first : Except ε α} {observe : α → β} {seen : β}
    (h : first.toOption.map observe = some seen) :
    ∃ value, first = .ok value ∧ observe value = seen := by
  cases first with
  | error failure => cases h
  | ok value => exact ⟨value, rfl, Option.some.inj h⟩

/-- The failure a computation stops with, if it does. -/
def failure : Except ε α → Option ε
  | .ok _ => none
  | .error reason => some reason

theorem failure_eq_some {first : Except ε α} {reason : ε} :
    failure first = some reason ↔ first = .error reason := by
  cases first <;> simp [failure]

theorem failure_eq_none {first : Except ε α} :
    failure first = none ↔ ∃ value, first = .ok value := by
  cases first <;> simp [failure]

/-- What follows and cannot fail does not change the failure. -/
theorem failure_bind_pure (first : Except ε α) (f : α → β) :
    failure (first >>= fun value => pure (f value)) = failure first := by
  cases first <;> rfl

/-- The computation stops with the given failure or, where none is given, succeeds
with a good value. -/
def Settles (short : Option ε) (good : α → Prop) (first : Except ε α) : Prop :=
  failure first = short ∧ ∀ value, first = .ok value → good value

theorem settles_some {reason : ε} {good : α → Prop} {first : Except ε α} :
    Settles (some reason) good first ↔ first = .error reason := by
  rw [Settles, failure_eq_some]
  exact ⟨And.left, fun h => ⟨h, fun value hvalue => by rw [h] at hvalue; cases hvalue⟩⟩

theorem settles_none {good : α → Prop} {first : Except ε α} :
    Settles none good first ↔ ∃ value, first = .ok value ∧ good value := by
  rw [Settles, failure_eq_none]
  constructor
  · rintro ⟨⟨value, hvalue⟩, hgood⟩
    exact ⟨value, hvalue, hgood value hvalue⟩
  · rintro ⟨value, rfl, hgood⟩
    exact ⟨⟨value, rfl⟩, fun other hother => Except.ok.inj hother ▸ hgood⟩

/-- What follows a good value and then succeeds adds no failure. -/
theorem Settles.bind {short : Option ε} {good : α → Prop} {good' : β → Prop} {first : Except ε α}
    {next : α → Except ε β} (h : Settles short good first)
    (hnext : ∀ value, first = .ok value → good value →
      ∃ result, next value = .ok result ∧ good' result) :
    Settles short good' (first >>= next) := by
  cases short with
  | some reason =>
      rw [settles_some.mp h]
      exact settles_some.mpr rfl
  | none =>
      obtain ⟨value, hvalue, hgood⟩ := settles_none.mp h
      rw [hvalue]
      exact settles_none.mpr (hnext value hvalue hgood)

/-- The longest prefix on which a fallible test answers `true`, and the rest.
The test is not run past the first element that fails it. -/
def splitWhile (test : α → Except ε Bool) : List α → Except ε (List α × List α)
  | [] => .ok ([], [])
  | head :: tail => do
      if ← test head then
        let (front, rest) ← splitWhile test tail
        pure (head :: front, rest)
      else
        pure ([], head :: tail)

theorem splitWhile_append {test : α → Except ε Bool} {list front rest : List α}
    (h : splitWhile test list = .ok (front, rest)) : front ++ rest = list := by
  induction list generalizing front rest with
  | nil =>
      simp only [splitWhile, Except.ok.injEq, Prod.mk.injEq] at h
      rw [← h.1, ← h.2]
      rfl
  | cons head tail ih =>
      simp only [splitWhile, bind_eq_ok] at h
      obtain ⟨answer, -, h⟩ := h
      cases answer with
      | false =>
          simp only [Bool.false_eq_true, ↓reduceIte, pure_eq_ok, Prod.mk.injEq] at h
          rw [← h.1, ← h.2]
          rfl
      | true =>
          simp only [↓reduceIte, bind_eq_ok, pure_eq_ok, Prod.mk.injEq] at h
          obtain ⟨⟨front', rest'⟩, htail, hfront, hrest⟩ := h
          rw [← hfront, ← hrest, List.cons_append, ih htail]

/-- A test that answers like a predicate splits like that predicate. -/
theorem splitWhile_eq_takeWhile {test : α → Except ε Bool} {p : α → Bool} {list front rest : List α}
    (htest : ∀ x answer, test x = .ok answer → answer = p x)
    (h : splitWhile test list = .ok (front, rest)) :
    front = list.takeWhile p ∧ rest = list.dropWhile p := by
  induction list generalizing front rest with
  | nil =>
      simp only [splitWhile, Except.ok.injEq, Prod.mk.injEq] at h
      exact ⟨h.1.symm, h.2.symm⟩
  | cons head tail ih =>
      simp only [splitWhile, bind_eq_ok] at h
      obtain ⟨answer, hanswer, h⟩ := h
      have hhead := htest head answer hanswer
      rw [List.takeWhile_cons, List.dropWhile_cons, ← hhead]
      cases answer with
      | false =>
          simp only [Bool.false_eq_true, ↓reduceIte, pure_eq_ok, Prod.mk.injEq] at h ⊢
          exact ⟨h.1.symm, h.2.symm⟩
      | true =>
          simp only [↓reduceIte, bind_eq_ok, pure_eq_ok, Prod.mk.injEq] at h ⊢
          obtain ⟨⟨front', rest'⟩, htail, rfl, rfl⟩ := h
          obtain ⟨hfront, hrest⟩ := ih htail
          exact ⟨by rw [hfront], hrest⟩

/-- A test that holds of every element splits off the whole list. -/
theorem splitWhile_all {test : α → Except ε Bool} {list : List α}
    (h : ∀ x ∈ list, test x = .ok true) : splitWhile test list = .ok (list, []) := by
  induction list with
  | nil => rfl
  | cons head tail ih =>
      have hhead := h head (by simp)
      have htail := ih fun x hx => h x (by simp [hx])
      simp only [splitWhile, hhead, htail, ok_bind, ↓reduceIte]
      rfl

/-- The first element on which a fallible test answers `true`. -/
def findFirst (test : α → Except ε Bool) : List α → Except ε (Option α)
  | [] => .ok none
  | head :: tail => do
      if ← test head then pure (some head) else findFirst test tail

/-- A test that never fails on the elements of a list finds what `find?` does. -/
theorem findFirst_map {test : β → Except ε Bool} {f : α → β} {p : α → Bool}
    (htest : ∀ x, test (f x) = .ok (p x)) (list : List α) :
    findFirst test (list.map f) = .ok ((list.find? p).map f) := by
  induction list with
  | nil => rfl
  | cons head tail ih =>
      rw [List.map_cons, findFirst, htest, ok_bind, List.find?_cons]
      cases p head with
      | true => rfl
      | false => simpa using ih

/-- A test that fails on no element of the list lets the search finish. -/
theorem findFirst_total {test : α → Except ε Bool} {list : List α}
    (h : ∀ x ∈ list, ∃ answer, test x = .ok answer) : ∃ found, findFirst test list = .ok found := by
  induction list with
  | nil => exact ⟨none, rfl⟩
  | cons head tail ih =>
      obtain ⟨answer, hanswer⟩ := h head List.mem_cons_self
      rw [findFirst, hanswer, ok_bind]
      cases answer with
      | true => exact ⟨some head, rfl⟩
      | false => exact ih fun x hx => h x (List.mem_cons_of_mem head hx)

theorem findFirst_eq_some {test : α → Except ε Bool} {list : List α} {found : α}
    (h : findFirst test list = .ok (some found)) : found ∈ list ∧ test found = .ok true := by
  induction list with
  | nil => cases h
  | cons head tail ih =>
      simp only [findFirst, bind_eq_ok] at h
      obtain ⟨answer, hanswer, h⟩ := h
      cases answer with
      | false =>
          obtain ⟨hmem, hfound⟩ := ih h
          exact ⟨List.mem_cons_of_mem head hmem, hfound⟩
      | true =>
          simp only [↓reduceIte, pure_eq_ok, Option.some.injEq] at h
          subst h
          exact ⟨List.mem_cons_self, hanswer⟩

theorem findFirst_eq_none {test : α → Except ε Bool} {list : List α}
    (h : findFirst test list = .ok none) : ∀ x ∈ list, test x = .ok false := by
  induction list with
  | nil => simp
  | cons head tail ih =>
      simp only [findFirst, bind_eq_ok] at h
      obtain ⟨answer, hanswer, h⟩ := h
      cases answer with
      | false =>
          intro x hx
          rw [List.mem_cons] at hx
          obtain rfl | hx := hx
          · exact hanswer
          · exact ih h x hx
      | true => simp at h

/-- Erase every element on which a fallible test answers `true`. -/
def eraseWhere (test : α → Except ε Bool) : List α → Except ε (List α)
  | [] => .ok []
  | head :: tail => do
      let erased ← test head
      let rest ← eraseWhere test tail
      pure (if erased then rest else head :: rest)

/-- A test that answers like a predicate erases like the filter. -/
theorem eraseWhere_map {test : β → Except ε Bool} {f : α → β} {p : α → Bool} {list : List α}
    (htest : ∀ x ∈ list, test (f x) = .ok (p x)) :
    eraseWhere test (list.map f) = .ok ((list.filter fun x => !p x).map f) := by
  induction list with
  | nil => rfl
  | cons head tail ih =>
      rw [List.map_cons, eraseWhere, htest head List.mem_cons_self, ok_bind,
        ih fun x hx => htest x (List.mem_cons_of_mem head hx), ok_bind, List.filter_cons]
      cases p head <;> rfl

/-- Erase the first element on which a fallible test answers `true`, and say
whether there was one.  The test is not run past that element. -/
def eraseFirst (test : α → Except ε Bool) : List α → Except ε (Bool × List α)
  | [] => .ok (false, [])
  | head :: tail => do
      if ← test head then
        pure (true, tail)
      else
        let (found, rest) ← eraseFirst test tail
        pure (found, head :: rest)

theorem eraseFirst_map {test : β → Except ε Bool} {f : α → β} {p : α → Bool} {list : List α}
    (htest : ∀ x ∈ list, test (f x) = .ok (p x)) :
    eraseFirst test (list.map f) = .ok (list.any p, (list.eraseP p).map f) := by
  induction list with
  | nil => rfl
  | cons head tail ih =>
      have htail := ih fun x hx => htest x (List.mem_cons_of_mem head hx)
      rw [List.map_cons, eraseFirst, htest head List.mem_cons_self, ok_bind, List.any_cons,
        List.eraseP_cons]
      cases p head with
      | true => rfl
      | false =>
          rw [htail]
          rfl

end Checked
