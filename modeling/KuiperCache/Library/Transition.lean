import KuiperCache.Library.Avoids

/-! Labelled transition systems whose steps may fail.  A run is a list of
labels; it reaches a state when every step succeeds. -/
namespace Transition

open Checked

variable {σ ι ε : Type}

/-- Take the labelled steps in order, stopping at the first failure. -/
def run (step : σ → ι → Except ε σ) : σ → List ι → Except ε σ
  | state, [] => .ok state
  | state, label :: labels => do
      let next ← step state label
      run step next labels

@[simp] theorem run_nil (step : σ → ι → Except ε σ) (state : σ) :
    run step state [] = .ok state := rfl

theorem run_cons_eq_ok {step : σ → ι → Except ε σ} {state final : σ} {label : ι}
    {labels : List ι} : run step state (label :: labels) = .ok final ↔
      ∃ next, step state label = .ok next ∧ run step next labels = .ok final := by
  simp only [run, bind_eq_ok]

/-- The invariant rule: what every allowed step preserves, every run preserves. -/
theorem run_invariant {step : σ → ι → Except ε σ} (allowed : ι → Prop) {inv : σ → Prop}
    (preserved : ∀ state label next, allowed label → inv state →
      step state label = .ok next → inv next)
    {state final : σ} {labels : List ι} (hallowed : ∀ label ∈ labels, allowed label)
    (hrun : run step state labels = .ok final) (hinv : inv state) : inv final := by
  induction labels generalizing state with
  | nil =>
      rw [run_nil, Except.ok.injEq] at hrun
      exact hrun ▸ hinv
  | cons label labels ih =>
      obtain ⟨next, hstep, hrest⟩ := run_cons_eq_ok.mp hrun
      exact ih (fun l hl => hallowed l (by simp [hl])) hrest
        (preserved state label next (hallowed label (by simp)) hinv hstep)

/-- Allowed steps that never fail and keep an invariant make such a run. -/
theorem run_total {step : σ → ι → Except ε σ} {allowed : ι → Prop} {inv : σ → Prop}
    (progress : ∀ state label, allowed label → inv state →
      ∃ next, step state label = .ok next ∧ inv next)
    {state : σ} {labels : List ι} (hallowed : ∀ label ∈ labels, allowed label) (hinv : inv state) :
    ∃ final, run step state labels = .ok final ∧ inv final := by
  induction labels generalizing state with
  | nil => exact ⟨state, rfl, hinv⟩
  | cons label labels ih =>
      obtain ⟨next, hstep, hnext⟩ := progress state label (hallowed label (by simp)) hinv
      obtain ⟨final, hrun, hfinal⟩ := ih (fun l hl => hallowed l (by simp [hl])) hnext
      exact ⟨final, run_cons_eq_ok.mpr ⟨next, hstep, hrun⟩, hfinal⟩

/-- Every step, up to the first one that fails, is taken in a state where the
condition allows it. -/
def meets (step : σ → ι → Except ε σ) (condition : σ → ι → Bool) : σ → List ι → Bool
  | _, [] => true
  | state, label :: labels => condition state label &&
      match step state label with
      | .ok next => meets step condition next labels
      | .error _ => true

theorem meets_cons {step : σ → ι → Except ε σ} {condition : σ → ι → Bool} {state : σ} {label : ι}
    {labels : List ι} : meets step condition state (label :: labels) = true ↔
      condition state label = true ∧
        ∀ next, step state label = .ok next → meets step condition next labels = true := by
  rw [meets, Bool.and_eq_true]
  cases step state label <;> simp

/-- A condition on the labels alone is met when every label meets it. -/
theorem meets_of_labels {step : σ → ι → Except ε σ} {allowed : ι → Bool} {labels : List ι}
    (hallowed : ∀ label ∈ labels, allowed label = true) (state : σ) :
    meets step (fun _ label => allowed label) state labels = true := by
  induction labels generalizing state with
  | nil => rfl
  | cons label labels ih =>
      rw [meets_cons]
      refine ⟨hallowed label (by simp), ?_⟩
      intro next _
      exact ih (fun l hl => hallowed l (by simp [hl])) next

/-- The property holds in every state of the run, the first one included. -/
def always (step : σ → ι → Except ε σ) (good : σ → Bool) : σ → List ι → Bool
  | state, [] => good state
  | state, label :: labels => good state &&
      match step state label with
      | .ok next => always step good next labels
      | .error _ => true

/-- Every step of the run, up to the first one that fails, has the property. -/
def stepwise (step : σ → ι → Except ε σ) (good : σ → ι → σ → Prop) : σ → List ι → Prop
  | _, [] => True
  | state, label :: labels => ∀ next, step state label = .ok next →
      good state label next ∧ stepwise step good next labels

/-- What a stepwise property says about the last step of a run. -/
theorem stepwise_last {step : σ → ι → Except ε σ} {good : σ → ι → σ → Prop} {state reached next : σ}
    {labels : List ι} {label : ι} (h : stepwise step good state (labels ++ [label]))
    (hrun : run step state labels = .ok reached) (hstep : step reached label = .ok next) :
    good reached label next := by
  induction labels generalizing state with
  | nil =>
      rw [run_nil, Except.ok.injEq] at hrun
      subst hrun
      exact (h next hstep).1
  | cons first labels ih =>
      obtain ⟨middle, hfirst, hrest⟩ := run_cons_eq_ok.mp hrun
      exact ih (h middle hfirst).2 hrest

/-- What every allowed step from a state with the invariant does, it does at every
point of a run. -/
theorem stepwise_of_invariant {step : σ → ι → Except ε σ} {allowed : ι → Prop} {inv : σ → Prop}
    {good : σ → ι → σ → Prop}
    (preserved : ∀ state label next, allowed label → inv state → step state label = .ok next →
      inv next ∧ good state label next)
    {state : σ} {labels : List ι} (hallowed : ∀ label ∈ labels, allowed label)
    (hinv : inv state) : stepwise step good state labels := by
  induction labels generalizing state with
  | nil => exact trivial
  | cons label labels ih =>
      intro next hstep
      obtain ⟨hnext, hgood⟩ := preserved state label next (hallowed label List.mem_cons_self) hinv
        hstep
      exact ⟨hgood, ih (fun l hl => hallowed l (List.mem_cons_of_mem label hl)) hnext⟩

section Conditions

variable {step : σ → ι → Except ε σ} {condition : σ → ι → Bool} {inv : σ → Prop}

/-- A failure that no allowed step raises in a state with the invariant is not
raised by a run. -/
theorem run_avoids {reason : ε}
    (preserved : ∀ state label next, condition state label = true → inv state →
      step state label = .ok next → inv next)
    (avoided : ∀ state label, condition state label = true → inv state →
      Avoids reason (step state label))
    {state : σ} {labels : List ι} (hmeets : meets step condition state labels = true)
    (hinv : inv state) : Avoids reason (run step state labels) := by
  induction labels generalizing state with
  | nil => exact avoids_ok state
  | cons label labels ih =>
      obtain ⟨hcondition, hrest⟩ := meets_cons.mp hmeets
      rw [run, avoids_bind]
      refine ⟨avoided state label hcondition hinv, ?_⟩
      intro next hstep
      exact ih (hrest next hstep) (preserved state label next hcondition hinv hstep)

/-- What every allowed step preserves, a run that meets the condition preserves. -/
theorem run_meets
    (preserved : ∀ state label next, condition state label = true → inv state →
      step state label = .ok next → inv next)
    {state final : σ} {labels : List ι} (hmeets : meets step condition state labels = true)
    (hrun : run step state labels = .ok final) (hinv : inv state) : inv final := by
  induction labels generalizing state with
  | nil =>
      rw [run_nil, Except.ok.injEq] at hrun
      exact hrun ▸ hinv
  | cons label labels ih =>
      obtain ⟨hcondition, hothers⟩ := meets_cons.mp hmeets
      obtain ⟨next, hstep, hrest⟩ := run_cons_eq_ok.mp hrun
      exact ih (hothers next hstep) hrest (preserved state label next hcondition hinv hstep)

/-- When the condition says exactly which steps keep the property, a run that
does not fail has it throughout exactly when it meets the condition. -/
theorem always_iff_meets {good : σ → Bool}
    (preserved : ∀ state label next, condition state label = true → inv state →
      step state label = .ok next → inv next)
    (exact : ∀ state label next, inv state → good state = true → step state label = .ok next →
      (good next = true ↔ condition state label = true))
    {state final : σ} {labels : List ι} (hrun : run step state labels = .ok final)
    (hinv : inv state) (hgood : good state = true) :
    always step good state labels = true ↔ meets step condition state labels = true := by
  induction labels generalizing state with
  | nil => simp [always, meets, hgood]
  | cons label labels ih =>
      obtain ⟨next, hstep, hrest⟩ := run_cons_eq_ok.mp hrun
      have hnext := exact state label next hinv hgood hstep
      simp only [always, meets, hgood, hstep, Bool.true_and, Bool.and_eq_true]
      constructor
      · intro halways
        have hgood' : good next = true := by
          cases labels with
          | nil => exact halways
          | cons label' labels' =>
              rw [always, Bool.and_eq_true] at halways
              exact halways.1
        have hcondition := hnext.mp hgood'
        have hinv' := preserved state label next hcondition hinv hstep
        exact ⟨hcondition, (ih hrest hinv' hgood').mp halways⟩
      · rintro ⟨hcondition, hmeets⟩
        have hinv' := preserved state label next hcondition hinv hstep
        exact (ih hrest hinv' (hnext.mpr hcondition)).mpr hmeets

/-- When the condition says exactly which steps have the property, a run that
does not fail has it at every step exactly when it meets the condition. -/
theorem stepwise_iff_meets {allowed : ι → Prop} {good : σ → ι → σ → Prop}
    (preserved : ∀ state label next, allowed label → condition state label = true → inv state →
      step state label = .ok next → inv next)
    (exact : ∀ state label next, allowed label → inv state → step state label = .ok next →
      (good state label next ↔ condition state label = true))
    {state final : σ} {labels : List ι} (hallowed : ∀ label ∈ labels, allowed label)
    (hrun : run step state labels = .ok final) (hinv : inv state) :
    stepwise step good state labels ↔ meets step condition state labels = true := by
  induction labels generalizing state with
  | nil => simp [stepwise, meets]
  | cons label labels ih =>
      obtain ⟨next, hstep, hrest⟩ := run_cons_eq_ok.mp hrun
      have hlabel := hallowed label (by simp)
      have hnext := exact state label next hlabel hinv hstep
      have hrec := fun hcondition => ih (fun l hl => hallowed l (by simp [hl])) hrest
        (preserved state label next hlabel hcondition hinv hstep)
      rw [meets_cons]
      constructor
      · intro hgood
        obtain ⟨hfirst, hothers⟩ := hgood next hstep
        have hcondition := hnext.mp hfirst
        refine ⟨hcondition, ?_⟩
        intro other hother
        rw [hstep, Except.ok.injEq] at hother
        exact hother ▸ (hrec hcondition).mp hothers
      · rintro ⟨hcondition, hmeets⟩ other hother
        rw [hstep, Except.ok.injEq] at hother
        subst hother
        exact ⟨hnext.mpr hcondition, (hrec hcondition).mpr (hmeets next hstep)⟩

end Conditions

end Transition
