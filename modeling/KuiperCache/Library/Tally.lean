import KuiperCache.Library.Transition
import Mathlib.Algebra.GroupWithZero.Nat

/-! How often something happens in a run, and how to bound it.  Steps pay for what
happens in them out of a potential, and the credit that labels bring fills it up. -/
namespace Transition

variable {σ ι ε : Type} {step : σ → ι → Except ε σ}

/-- The sum over the steps of a run, up to the first one that fails. -/
def tally (step : σ → ι → Except ε σ) (count : σ → ι → Nat) : σ → List ι → Nat
  | _, [] => 0
  | state, label :: labels =>
      match step state label with
      | .ok next => count state label + tally step count next labels
      | .error _ => 0

/-- A run happens no more often than its potential and its credit can pay for. -/
theorem tally_le {count : σ → ι → Nat} {inv : σ → Prop} {potential : σ → Nat} {credit : ι → Nat}
    (paid : ∀ state label next, inv state → step state label = .ok next →
      inv next ∧ count state label + potential next ≤ potential state + credit label)
    (labels : List ι) {state : σ} (hinv : inv state) :
    tally step count state labels ≤ potential state + (labels.map credit).sum := by
  induction labels generalizing state with
  | nil => exact Nat.zero_le _
  | cons label labels ih =>
      rw [List.map_cons, List.sum_cons, tally]
      cases hstep : step state label with
      | error reason => exact Nat.zero_le _
      | ok next =>
          obtain ⟨hnext, hpaid⟩ := paid state label next hinv hstep
          have hrest := ih hnext
          dsimp only
          omega

end Transition
