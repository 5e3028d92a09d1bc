import KuiperCache.Library.SlotPool
import KuiperCache.Library.Transition

/-! Pending jobs that need a place each.  A step does one of the jobs and takes a
place of its kind for good.  Whether all of them can be done does not depend on the
order: it depends on the number of places of each kind. -/
namespace Places

variable {σ ι ε κ : Type} {job : Type} [DecidableEq job] [DecidableEq κ]

/-- What the steps of a system mean to its jobs. -/
structure Jobs (σ ι job κ : Type) where
  /-- The job that a step does. -/
  does : ι → job
  pending : σ → List job
  /-- The kind of place a job needs. -/
  kind : σ → job → κ
  /-- The job can be done at all. -/
  possible : σ → job → Prop
  /-- The number of free places of each kind. -/
  free : σ → κ → Nat

variable {step : σ → ι → Except ε σ} {allowed : ι → Prop} {inv : σ → Prop}
  {jobs : Jobs σ ι job κ}

/-- The pending jobs can be done and there is a place for each of them. -/
def Jobs.Room (jobs : Jobs σ ι job κ) (state : σ) : Prop :=
  (∀ j ∈ jobs.pending state, jobs.possible state j) ∧
    ∀ key, (jobs.pending state).countP (fun j => jobs.kind state j = key) ≤ jobs.free state key

/-- One job is done: it is no longer pending and has taken a place. -/
structure Jobs.Done (jobs : Jobs σ ι job κ) (state next : σ) (j : job) : Prop where
  pending : jobs.pending next = (jobs.pending state).erase j
  kind : ∀ other ∈ jobs.pending next, jobs.kind next other = jobs.kind state other
  possible : ∀ other ∈ jobs.pending next, jobs.possible next other ↔ jobs.possible state other
  free : ∀ key, jobs.free state key =
    jobs.free next key + if jobs.kind state j = key then 1 else 0

/-- A step does a pending job exactly when it can be done and has a place. -/
structure Jobs.Takes (jobs : Jobs σ ι job κ) (step : σ → ι → Except ε σ) (allowed : ι → Prop)
    (inv : σ → Prop) : Prop where
  ok_iff : ∀ state label, allowed label → inv state → jobs.does label ∈ jobs.pending state →
    ((∃ next, step state label = .ok next) ↔ jobs.possible state (jobs.does label) ∧
      0 < jobs.free state (jobs.kind state (jobs.does label)))
  step : ∀ state label next, allowed label → inv state →
    jobs.does label ∈ jobs.pending state → step state label = .ok next →
    inv next ∧ jobs.Done state next (jobs.does label)

theorem Jobs.Done.count {state next : σ} {j : job} (h : jobs.Done state next j)
    (hmem : j ∈ jobs.pending state) (key : κ) :
    (jobs.pending state).countP (fun other => jobs.kind state other = key) =
      (jobs.pending next).countP (fun other => jobs.kind next other = key) +
        if jobs.kind state j = key then 1 else 0 := by
  rw [SlotPool.countP_eq_erase hmem, h.pending]
  congr 1
  · apply List.countP_congr
    intro other hother
    rw [← h.pending] at hother
    rw [h.kind other hother]
  · simp only [decide_eq_true_eq]

/-- Doing a job neither makes room nor takes it away. -/
theorem Jobs.Done.room {state next : σ} {j : job} (h : jobs.Done state next j)
    (hmem : j ∈ jobs.pending state) (hpossible : jobs.possible state j) :
    jobs.Room next ↔ jobs.Room state := by
  have hmore : (∀ other ∈ jobs.pending next, jobs.possible next other) ↔
      ∀ other ∈ jobs.pending state, jobs.possible state other := by
    constructor
    · intro hnext other hother
      by_cases hself : other = j
      · exact hself ▸ hpossible
      · have hother' : other ∈ jobs.pending next := by
          rw [h.pending]
          exact (List.mem_erase_of_ne hself).mpr hother
        exact (h.possible other hother').mp (hnext other hother')
    · intro hstate other hother
      rw [h.possible other hother]
      exact hstate other (List.mem_of_mem_erase (h.pending ▸ hother))
  rw [Jobs.Room, Jobs.Room, hmore, and_congr_right_iff]
  intro _
  apply forall_congr'
  intro key
  rw [h.count hmem key, h.free key]
  omega

omit [DecidableEq job] in
/-- A job has a place when there is room. -/
theorem Jobs.Room.place {state : σ} {j : job} (h : jobs.Room state)
    (hmem : j ∈ jobs.pending state) :
    jobs.possible state j ∧ 0 < jobs.free state (jobs.kind state j) := by
  refine ⟨h.1 j hmem, lt_of_lt_of_le ?_ (h.2 _)⟩
  rw [List.countP_pos_iff]
  exact ⟨j, hmem, decide_eq_true rfl⟩

/-- Whatever the order, all pending jobs get done exactly when there is room. -/
theorem Jobs.Takes.run_ok_iff_room (h : jobs.Takes step allowed inv) {state : σ}
    {labels : List ι} (hallowed : ∀ label ∈ labels, allowed label) (hinv : inv state)
    (horder : (labels.map jobs.does).Perm (jobs.pending state)) :
    (∃ final, Transition.run step state labels = .ok final) ↔ jobs.Room state := by
  induction labels generalizing state with
  | nil =>
      have hnone : jobs.pending state = [] := List.Perm.nil_eq horder |>.symm
      constructor
      · intro _
        rw [Jobs.Room, hnone]
        simp
      · intro _
        exact ⟨state, rfl⟩
  | cons label labels ih =>
      have hlabel := hallowed label (by simp)
      have hmem : jobs.does label ∈ jobs.pending state := horder.subset (by simp)
      have hrest : ∀ next, step state label = .ok next →
          ((∃ final, Transition.run step next labels = .ok final) ↔ jobs.Room next) := by
        intro next hstep
        obtain ⟨hnext, hdone⟩ := h.step state label next hlabel hinv hmem hstep
        refine ih (fun l hl => hallowed l (by simp [hl])) hnext ?_
        rw [hdone.pending]
        have hperm := horder.erase (jobs.does label)
        rwa [List.map_cons, List.erase_cons_head] at hperm
      constructor
      · rintro ⟨final, hrun⟩
        obtain ⟨next, hstep, hfinal⟩ := Transition.run_cons_eq_ok.mp hrun
        obtain ⟨-, hdone⟩ := h.step state label next hlabel hinv hmem hstep
        have hpossible := ((h.ok_iff state label hlabel hinv hmem).mp ⟨next, hstep⟩).1
        exact (hdone.room hmem hpossible).mp ((hrest next hstep).mp ⟨final, hfinal⟩)
      · intro hroom
        obtain ⟨next, hstep⟩ := (h.ok_iff state label hlabel hinv hmem).mpr (hroom.place hmem)
        obtain ⟨-, hdone⟩ := h.step state label next hlabel hinv hmem hstep
        obtain ⟨final, hfinal⟩ :=
          (hrest next hstep).mpr ((hdone.room hmem (hroom.place hmem).1).mpr hroom)
        exact ⟨final, Transition.run_cons_eq_ok.mpr ⟨next, hstep, hfinal⟩⟩

/-- When all have been done, none is pending. -/
theorem Jobs.Takes.run_pending (h : jobs.Takes step allowed inv) {state final : σ}
    {labels : List ι} (hallowed : ∀ label ∈ labels, allowed label) (hinv : inv state)
    (horder : (labels.map jobs.does).Perm (jobs.pending state))
    (hrun : Transition.run step state labels = .ok final) :
    inv final ∧ jobs.pending final = [] := by
  induction labels generalizing state with
  | nil =>
      rw [Transition.run_nil, Except.ok.injEq] at hrun
      subst hrun
      exact ⟨hinv, (List.Perm.nil_eq horder).symm⟩
  | cons label labels ih =>
      have hmem : jobs.does label ∈ jobs.pending state := horder.subset (by simp)
      obtain ⟨next, hstep, hfinal⟩ := Transition.run_cons_eq_ok.mp hrun
      obtain ⟨hnext, hdone⟩ := h.step state label next (hallowed label (by simp)) hinv hmem hstep
      refine ih (fun l hl => hallowed l (by simp [hl])) hnext ?_ hfinal
      rw [hdone.pending]
      have hperm := horder.erase (jobs.does label)
      rwa [List.map_cons, List.erase_cons_head] at hperm

end Places
