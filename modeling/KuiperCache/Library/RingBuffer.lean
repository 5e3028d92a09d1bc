import Mathlib.Data.Nat.ModEq
import Mathlib.Logic.Function.Basic

/-! Items kept in a circle of cells.  They stand one after the other from a start on,
and the index wraps around at the size. -/
namespace RingBuffer

variable {α : Type}

/-- The items of the circle, the first one first. -/
def window (cells : Nat → α) (size : Nat) : Nat → Nat → List α
  | _, 0 => []
  | start, count + 1 => cells start :: window cells size ((start + 1) % size) count

@[simp] theorem window_zero (cells : Nat → α) (size start : Nat) :
    window cells size start 0 = [] := rfl

theorem window_succ (cells : Nat → α) (size start count : Nat) :
    window cells size start (count + 1) =
      cells start :: window cells size ((start + 1) % size) count := rfl

@[simp] theorem length_window (cells : Nat → α) (size start count : Nat) :
    (window cells size start count).length = count := by
  induction count generalizing start with
  | zero => rfl
  | succ count ih => rw [window_succ, List.length_cons, ih]

/-- Two places of the circle that are less than a turn apart are different cells. -/
theorem add_mod_ne {size i j : Nat} (start : Nat) (hi : i < size) (hj : j < size)
    (hne : i ≠ j) : (start + i) % size ≠ (start + j) % size := by
  intro heq
  have hmod : i % size = j % size := Nat.ModEq.add_left_cancel' start heq
  rw [Nat.mod_eq_of_lt hi, Nat.mod_eq_of_lt hj] at hmod
  exact hne hmod

theorem next_add (size start count : Nat) :
    ((start + 1) % size + count) % size = (start + (count + 1)) % size := by
  rw [Nat.mod_add_mod, Nat.add_assoc, Nat.add_comm 1 count]

/-- Only the cells of the window matter. -/
theorem window_congr {cells cells' : Nat → α} {size start count : Nat} (hstart : start < size)
    (h : ∀ i < count, cells' ((start + i) % size) = cells ((start + i) % size)) :
    window cells' size start count = window cells size start count := by
  induction count generalizing start with
  | zero => rfl
  | succ count ih =>
      have hfirst := h 0 (Nat.succ_pos count)
      rw [Nat.add_zero, Nat.mod_eq_of_lt hstart] at hfirst
      rw [window_succ, window_succ, hfirst]
      congr 1
      apply ih (Nat.mod_lt _ (Nat.zero_lt_of_lt hstart))
      intro i hi
      rw [next_add]
      exact h (i + 1) (Nat.succ_lt_succ hi)

/-- The last item of a window stands where the shorter window ends. -/
theorem window_snoc {cells : Nat → α} {size start : Nat} (hstart : start < size) (count : Nat) :
    window cells size start (count + 1) =
      window cells size start count ++ [cells ((start + count) % size)] := by
  induction count generalizing start with
  | zero => rw [window_succ, window_zero, window_zero, Nat.add_zero, Nat.mod_eq_of_lt hstart,
      List.nil_append]
  | succ count ih =>
      rw [window_succ, ih (Nat.mod_lt _ (Nat.zero_lt_of_lt hstart)), window_succ, next_add,
        List.cons_append]

/-- Writing the cell behind the last item appends to the items. -/
theorem window_write {cells : Nat → α} {size start count : Nat} (hstart : start < size)
    (hroom : count < size) (val : α) :
    window (Function.update cells ((start + count) % size) val) size start (count + 1) =
      window cells size start count ++ [val] := by
  rw [window_snoc hstart, Function.update_self, window_congr hstart]
  intro i hi
  exact Function.update_of_ne (add_mod_ne start (hi.trans hroom) hroom hi.ne) _ _

/-- Taking the first item, and clearing its cell, leaves the others. -/
theorem window_read {cells : Nat → α} {size start count : Nat} (hstart : start < size)
    (hcount : count < size) (val : α) :
    window (Function.update cells start val) size ((start + 1) % size) count =
      (window cells size start (count + 1)).tail := by
  rw [window_succ, List.tail_cons]
  apply window_congr (Nat.mod_lt _ (Nat.zero_lt_of_lt hstart))
  intro i hi
  rw [next_add]
  apply Function.update_of_ne
  intro heq
  have hsame : (start + (i + 1)) % size = (start + 0) % size := by
    rw [heq, Nat.add_zero, Nat.mod_eq_of_lt hstart]
  exact add_mod_ne start (Nat.lt_of_le_of_lt hi hcount) (Nat.zero_lt_of_lt hstart)
    (Nat.succ_ne_zero i) hsame

end RingBuffer
