import Mathlib.Data.List.Basic

/-! Arrays of cells.  A write replaces a run of cells, a read returns one, and
the contents after some writes are found by looking for the last write to each
cell.  A write need not reach every cell of its run. -/
namespace Cells

variable {α : Type}

/-- Replace the cells from `start` on by the values. -/
def overwrite (cells : Nat → α) (start : Nat) (values : List α) : Nat → α := fun i =>
  if start ≤ i then (values[i - start]?).getD (cells i) else cells i

def slice (cells : Nat → α) (start length : Nat) : List α :=
  (List.range length).map fun i => cells (start + i)

/-- A write that says of each cell what it puts there, if anything. -/
def patch (cells : Nat → α) (write : Nat → Option α) : Nat → α := fun i =>
  (write i).getD (cells i)

/-- The write, with its first cell moved to `start`. -/
def placed (start : Nat) (write : Nat → Option α) : Nat → Option α := fun i =>
  if start ≤ i then write (i - start) else none

/-- The value that the last write to put one there left in the cell. -/
def lastPatch (cells : Nat → α) (writes : List (Nat → Option α)) : Nat → α := fun i =>
  (writes.reverse.findSome? fun write => write i).getD (cells i)

/-- The value that the last write covering the cell left there. -/
def latest (cells : Nat → α) (writes : List (Nat × List α)) (i : Nat) : α :=
  (writes.reverse.findSome? fun write =>
    if write.1 ≤ i then write.2[i - write.1]? else none).getD (cells i)

theorem overwrite_nil (cells : Nat → α) (start : Nat) : overwrite cells start [] = cells := by
  funext i
  simp [overwrite]

/-- Overwriting a run of cells is a write of its values. -/
theorem overwrite_eq_patch (cells : Nat → α) (start : Nat) (values : List α) :
    overwrite cells start values = patch cells (placed start fun i => values[i]?) := by
  funext i
  unfold overwrite patch placed
  split
  · rfl
  · rfl

/-- A write puts its first cell before the others. -/
theorem patch_placed_succ (cells : Nat → α) (start : Nat) (write : Nat → Option α) :
    patch cells (placed start write) =
      patch (Function.update cells start ((write 0).getD (cells start)))
        (placed (start + 1) fun i => write (i + 1)) := by
  funext i
  unfold patch placed
  by_cases heq : i = start
  · subst heq
    have hnext : ¬ i + 1 ≤ i := by omega
    rw [if_pos (Nat.le_refl i), if_neg hnext, Nat.sub_self, Function.update_self]
    rfl
  · rw [Function.update_of_ne heq]
    by_cases hle : start ≤ i
    · have hnext : start + 1 ≤ i := by omega
      have hoffset : i - start = (i - (start + 1)) + 1 := by omega
      rw [if_pos hle, if_pos hnext, hoffset]
    · have hnext : ¬ start + 1 ≤ i := by omega
      rw [if_neg hle, if_neg hnext]

/-- Writing one cell after the other. -/
theorem overwrite_cons (cells : Nat → α) (start : Nat) (value : α) (values : List α) :
    overwrite cells start (value :: values) =
      overwrite (Function.update cells start value) (start + 1) values := by
  rw [overwrite_eq_patch, patch_placed_succ, overwrite_eq_patch]
  rfl

theorem slice_succ (cells : Nat → α) (start length : Nat) :
    slice cells start (length + 1) = cells start :: slice cells (start + 1) length := by
  unfold slice
  rw [List.range_succ_eq_map, List.map_cons, List.map_map]
  congr 1
  apply List.map_congr_left
  intro i _
  simp only [Function.comp_apply]
  congr 1
  omega

theorem slice_congr {cells cells' : Nat → α} {start start' length : Nat}
    (h : ∀ i < length, cells (start + i) = cells' (start' + i)) :
    slice cells start length = slice cells' start' length := by
  apply List.map_congr_left
  intro i hi
  exact h i (List.mem_range.mp hi)

theorem getElem?_slice (cells : Nat → α) (start length i : Nat) :
    (slice cells start length)[i]? = if i < length then some (cells (start + i)) else none := by
  rw [slice, List.getElem?_map]
  by_cases hlt : i < length
  · rw [if_pos hlt, List.getElem?_range hlt]
    rfl
  · rw [if_neg hlt, List.getElem?_eq_none (by simpa using hlt)]
    rfl

theorem length_slice (cells : Nat → α) (start length : Nat) :
    (slice cells start length).length = length := by
  rw [slice, List.length_map, List.length_range]

/-- A run that was overwritten reads as the values. -/
theorem slice_overwrite (cells : Nat → α) (start : Nat) (values : List α) :
    slice (overwrite cells start values) start values.length = values := by
  apply List.ext_getElem?
  intro i
  rw [getElem?_slice, overwrite, if_pos (Nat.le_add_right start i), Nat.add_sub_cancel_left]
  by_cases hlt : i < values.length
  · rw [if_pos hlt, List.getElem?_eq_getElem hlt]
    rfl
  · rw [if_neg hlt, List.getElem?_eq_none (Nat.le_of_not_lt hlt)]

/-- The cells from `start` on see a placed write as it was. -/
theorem patch_placed (cells : Nat → α) (start : Nat) (write : Nat → Option α) (i : Nat) :
    patch cells (placed start write) (start + i) = patch (fun i => cells (start + i)) write i := by
  rw [patch, placed, if_pos (Nat.le_add_right start i), Nat.add_sub_cancel_left]
  rfl

theorem placed_add (start offset : Nat) (write : Nat → Option α) :
    placed (start + offset) write = placed start (placed offset write) := by
  funext i
  unfold placed
  by_cases hstart : start ≤ i
  · by_cases hoffset : offset ≤ i - start
    · rw [if_pos (by omega), if_pos hstart, if_pos hoffset, Nat.sub_sub]
    · rw [if_neg (by omega), if_pos hstart, if_neg hoffset]
  · rw [if_neg (by omega), if_neg hstart]

/-- The oldest write acts as if the array had started with it. -/
theorem lastPatch_cons (cells : Nat → α) (write : Nat → Option α)
    (writes : List (Nat → Option α)) :
    lastPatch cells (write :: writes) = lastPatch (patch cells write) writes := by
  funext i
  unfold lastPatch
  rw [List.reverse_cons, List.findSome?_append, Option.getD_or]
  congr 1
  rw [List.findSome?_singleton]
  rfl

/-- Cells that agree before some writes agree after them. -/
theorem lastPatch_congr {cells cells' : Nat → α} {i : Nat} (h : cells i = cells' i)
    (writes : List (Nat → Option α)) : lastPatch cells writes i = lastPatch cells' writes i := by
  rw [lastPatch, lastPatch, h]

theorem latest_eq_lastPatch (cells : Nat → α) (writes : List (Nat × List α)) :
    latest cells writes =
      lastPatch cells (writes.map fun write => placed write.1 fun i => write.2[i]?) := by
  funext i
  rw [lastPatch, ← List.map_reverse, List.findSome?_map]
  rfl

theorem latest_nil (cells : Nat → α) : latest cells [] = cells := rfl

theorem latest_cons (cells : Nat → α) (write : Nat × List α) (writes : List (Nat × List α)) :
    latest cells (write :: writes) = latest (overwrite cells write.1 write.2) writes := by
  rw [latest_eq_lastPatch, List.map_cons, lastPatch_cons, ← overwrite_eq_patch,
    ← latest_eq_lastPatch]

end Cells
