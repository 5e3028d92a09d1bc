import Mathlib.Data.Fintype.Card
import Mathlib.Data.List.Nodup
import Mathlib.Data.List.Perm.Basic

/-! Fixed pools of slots.  Every slot is free or used; a list of ready slots
selects the used slots that are not busy.  The lemmas say how these facts follow
a slot through being taken, started, stopped and released. -/
namespace SlotPool

variable {α : Type}

/-- Insert in front of the first element that passes the test. -/
def insertBefore (test : α → Bool) (slot : α) : List α → Option (List α)
  | [] => none
  | head :: tail =>
      if test head then some (slot :: head :: tail)
      else (insertBefore test slot tail).map (head :: ·)

theorem insertBefore_perm {test : α → Bool} {slot : α} {list inserted : List α}
    (h : insertBefore test slot list = some inserted) : inserted.Perm (slot :: list) := by
  induction list generalizing inserted with
  | nil => cases h
  | cons head tail ih =>
      unfold insertBefore at h
      split at h
      · cases h
        exact List.Perm.refl _
      · rw [Option.map_eq_some_iff] at h
        obtain ⟨rest, hrest, rfl⟩ := h
        exact ((ih hrest).cons head).trans (List.Perm.swap slot head tail)

/-- Where the slot went. -/
theorem insertBefore_split {test : α → Bool} {slot : α} {list inserted : List α}
    (h : insertBefore test slot list = some inserted) :
    ∃ front head tail, list = front ++ head :: tail ∧ inserted = front ++ slot :: head :: tail ∧
      test head = true ∧ ∀ x ∈ front, test x = false := by
  induction list generalizing inserted with
  | nil => cases h
  | cons head tail ih =>
      unfold insertBefore at h
      split at h
      · next hhead =>
          cases h
          exact ⟨[], head, tail, rfl, rfl, hhead, by simp⟩
      · next hhead =>
          rw [Option.map_eq_some_iff] at h
          obtain ⟨rest, hrest, rfl⟩ := h
          obtain ⟨front, other, others, rfl, rfl, hother, hfront⟩ := ih hrest
          exact ⟨head :: front, other, others, rfl, rfl, hother, by simpa [hhead] using hfront⟩

theorem insertBefore_eq_none {test : α → Bool} {slot : α} {list : List α}
    (h : insertBefore test slot list = none) : ∀ x ∈ list, test x = false := by
  induction list with
  | nil => simp
  | cons head tail ih =>
      unfold insertBefore at h
      split at h
      · cases h
      · next hhead =>
          rw [Option.map_eq_none_iff] at h
          simpa [hhead] using ih h

/-- Every slot is in exactly one of the two lists, once. -/
structure Partition (free used : List α) : Prop where
  free_nodup : free.Nodup
  used_nodup : used.Nodup
  disjoint : ∀ slot ∈ free, slot ∉ used
  complete : ∀ slot, slot ∈ free ∨ slot ∈ used

theorem Partition.used_length_le [Fintype α] {free used : List α} (h : Partition free used) :
    used.length ≤ Fintype.card α :=
  h.used_nodup.length_le_card

theorem Partition.length_add_length [Fintype α] [DecidableEq α] {free used : List α}
    (h : Partition free used) : free.length + used.length = Fintype.card α := by
  have hnodup : (free ++ used).Nodup :=
    List.nodup_append.mpr ⟨h.free_nodup, h.used_nodup, fun a ha b hb heq =>
      h.disjoint a ha (heq ▸ hb)⟩
  have hall : (free ++ used).toFinset = Finset.univ := by
    rw [Finset.eq_univ_iff_forall]
    intro slot
    rw [List.mem_toFinset, List.mem_append]
    exact h.complete slot
  rw [← List.length_append, ← List.toFinset_card_of_nodup hnodup, hall, Finset.card_univ]

theorem Partition.take {slot : α} {free used : List α} (h : Partition (slot :: free) used) :
    Partition free (used ++ [slot]) := by
  obtain ⟨hfree, hused, hdisjoint, hcomplete⟩ := h
  rw [List.nodup_cons] at hfree
  have hslot : slot ∉ used := hdisjoint slot (by simp)
  constructor
  · exact hfree.2
  · exact List.nodup_append.mpr ⟨hused, List.nodup_singleton slot, by
      intro a ha b hb
      rw [List.mem_singleton] at hb
      rintro rfl
      exact hslot (hb ▸ ha)⟩
  · intro other hother
    rw [List.mem_append, List.mem_singleton, not_or]
    refine ⟨hdisjoint other (by simp [hother]), ?_⟩
    rintro rfl
    exact hfree.1 hother
  · intro other
    obtain hother | hother := hcomplete other
    · rw [List.mem_cons] at hother
      obtain rfl | hother := hother
      · exact .inr (by simp)
      · exact .inl hother
    · exact .inr (by simp [hother])

/-- The ready list holds the used slots that are not busy, each once. -/
structure Selects (used ready : List α) (busy : α → Bool) : Prop where
  nodup : ready.Nodup
  mem : ∀ slot, slot ∈ ready ↔ slot ∈ used ∧ busy slot = false

variable {used ready ready' : List α} {busy busy' : α → Bool} {slot : α}

theorem Selects.perm (h : Selects used ready busy) (hperm : ready'.Perm ready) :
    Selects used ready' busy :=
  ⟨hperm.nodup_iff.mpr h.nodup, fun slot => hperm.mem_iff.trans (h.mem slot)⟩

theorem Selects.congr (h : Selects used ready busy)
    (hbusy : ∀ other, busy' other = busy other) : Selects used ready busy' :=
  ⟨h.nodup, fun other => by rw [h.mem, hbusy]⟩

/-- A slot that is not listed becomes ready. -/
theorem Selects.add (h : Selects used ready busy) (hslot : slot ∉ ready)
    (hperm : ready'.Perm (slot :: ready)) (hidle : busy' slot = false)
    (hother : ∀ other, other ≠ slot → busy' other = busy other) {used' : List α}
    (hused : ∀ other, other ∈ used' ↔ other ∈ used ∨ other = slot) :
    Selects used' ready' busy' := by
  refine ⟨hperm.nodup_iff.mpr (List.nodup_cons.mpr ⟨hslot, h.nodup⟩), ?_⟩
  intro other
  rw [hperm.mem_iff, List.mem_cons, h.mem, hused]
  by_cases heq : other = slot
  · subst heq
    simp [hidle]
  · simp [heq, hother other heq]

variable [DecidableEq α]

/-- Move a listed slot in front of a position, or to the end. -/
def spliceBefore (list : List α) (slot : α) : Option α → List α
  | none => list.erase slot ++ [slot]
  | some position =>
      if position = slot then list
      else (insertBefore (· == position) slot (list.erase slot)).getD list

theorem spliceBefore_perm {list : List α} {slot : α} (hslot : slot ∈ list)
    (position : Option α) : (spliceBefore list slot position).Perm list := by
  have hback : (slot :: list.erase slot).Perm list := (List.perm_cons_erase hslot).symm
  cases position with
  | none => exact (List.perm_append_singleton slot _).trans hback
  | some position =>
      rw [spliceBefore]
      by_cases heq : position = slot
      · rw [if_pos heq]
      · rw [if_neg heq]
        cases hinsert : insertBefore (· == position) slot (list.erase slot) with
        | none => exact List.Perm.refl list
        | some inserted => exact (insertBefore_perm hinsert).trans hback

theorem Partition.release {slot : α} {free used : List α} (h : Partition free used)
    (hslot : slot ∈ used) : Partition (slot :: free) (used.erase slot) := by
  obtain ⟨hfree, hused, hdisjoint, hcomplete⟩ := h
  have hnotFree : slot ∉ free := fun hmem => hdisjoint slot hmem hslot
  constructor
  · exact List.nodup_cons.mpr ⟨hnotFree, hfree⟩
  · exact hused.erase slot
  · intro other hother
    rw [hused.mem_erase_iff, not_and]
    rw [List.mem_cons] at hother
    obtain rfl | hother := hother
    · exact fun hne => absurd rfl hne
    · exact fun _ => hdisjoint other hother
  · intro other
    rw [List.mem_cons, hused.mem_erase_iff]
    obtain hother | hother := hcomplete other
    · exact .inl (.inr hother)
    · by_cases heq : other = slot
      · exact .inl (.inl heq)
      · exact .inr ⟨heq, hother⟩

/-- A listed slot becomes busy, or leaves. -/
theorem Selects.remove (h : Selects used ready busy) {used' : List α}
    (hused : ∀ other, other ∈ used' ∧ busy' other = false ↔
      other ≠ slot ∧ other ∈ used ∧ busy other = false) :
    Selects used' (ready.erase slot) busy' := by
  refine ⟨h.nodup.erase slot, ?_⟩
  intro other
  rw [h.nodup.mem_erase_iff, h.mem, hused]

theorem countP_erase_congr (hused : used.Nodup)
    (hother : ∀ other, other ≠ slot → busy' other = busy other) :
    (used.erase slot).countP busy' = (used.erase slot).countP busy := by
  apply List.countP_congr
  intro other hmem
  rw [hother other (hused.mem_erase_iff.mp hmem).1]

/-- What the slots hold together, with one slot set apart. -/
theorem flatMap_perm_erase {β : Type} (held : α → List β) (hslot : slot ∈ used) :
    (used.flatMap held).Perm (held slot ++ (used.erase slot).flatMap held) := by
  have hperm := (List.perm_cons_erase hslot).flatMap_right held
  rwa [List.flatMap_cons] at hperm

theorem flatMap_erase_congr {β : Type} {held held' : α → List β} (hused : used.Nodup)
    (hother : ∀ other, other ≠ slot → held' other = held other) :
    (used.erase slot).flatMap held' = (used.erase slot).flatMap held := by
  apply List.flatMap_congr
  intro other hmem
  exact hother other (hused.mem_erase_iff.mp hmem).1

/-- What the slots hold once together, one of them holds once and no other does. -/
theorem holder_of_count_eq_one {β : Type} [DecidableEq β] {held : α → List β} {item : β}
    (hused : used.Nodup) (h : (used.flatMap held).count item = 1) :
    ∃ slot ∈ used, (held slot).count item = 1 ∧
      ∀ other ∈ used, other ≠ slot → (held other).count item = 0 := by
  have hmem : item ∈ used.flatMap held := List.count_pos_iff.mp (by omega)
  obtain ⟨slot, hslot, hheld⟩ := List.mem_flatMap.mp hmem
  have hpos : 0 < (held slot).count item := List.count_pos_iff.mpr hheld
  rw [(flatMap_perm_erase held hslot).count_eq, List.count_append] at h
  refine ⟨slot, hslot, by omega, ?_⟩
  intro other hother hne
  rw [List.count_eq_zero]
  intro hitem
  have hrest : item ∈ (used.erase slot).flatMap held :=
    List.mem_flatMap.mpr ⟨other, hused.mem_erase_iff.mpr ⟨hne, hother⟩, hitem⟩
  have hrestPos := List.count_pos_iff.mpr hrest
  omega

/-- The number of busy slots, with one of them set apart. -/
theorem countP_eq_erase (hslot : slot ∈ used) :
    used.countP busy = (used.erase slot).countP busy + if busy slot then 1 else 0 := by
  rw [(List.perm_cons_erase hslot).countP_eq, List.countP_cons]

end SlotPool
