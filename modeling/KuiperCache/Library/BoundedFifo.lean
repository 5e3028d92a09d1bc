import Mathlib.Data.List.Basic

/-! A bounded queue that makes room by dropping its oldest element. -/
namespace BoundedFifo

variable {α : Type} {capacity : Nat} {queue : List α}

/-- A new element goes to the end; a full queue gives up the one in front. -/
def push (capacity : Nat) (queue : List α) (x : α) : List α :=
  (if queue.length = capacity then queue.tail else queue) ++ [x]

def pushAll (capacity : Nat) (queue xs : List α) : List α := xs.foldl (push capacity) queue

@[simp] theorem pushAll_nil (capacity : Nat) (queue : List α) :
    pushAll capacity queue [] = queue := rfl

theorem pushAll_append (capacity : Nat) (queue xs ys : List α) :
    pushAll capacity queue (xs ++ ys) = pushAll capacity (pushAll capacity queue xs) ys :=
  List.foldl_append

theorem push_length_le (hpos : 1 ≤ capacity) (h : queue.length ≤ capacity) (x : α) :
    (push capacity queue x).length ≤ capacity := by
  rw [push, List.length_append, List.length_singleton]
  split
  · rw [List.length_tail]
    omega
  · omega

theorem push_sublist (capacity : Nat) (queue : List α) (x : α) :
    (push capacity queue x).Sublist (queue ++ [x]) := by
  apply List.Sublist.append_right
  split
  · exact List.tail_sublist queue
  · exact List.Sublist.refl queue

/-- What is left is in the order in which it came. -/
theorem pushAll_sublist (capacity : Nat) (queue xs : List α) :
    (pushAll capacity queue xs).Sublist (queue ++ xs) := by
  induction xs generalizing queue with
  | nil => rw [List.append_nil, pushAll_nil]
  | cons x xs ih =>
      apply (ih (push capacity queue x)).trans
      rw [← List.singleton_append, ← List.append_assoc]
      exact (push_sublist capacity queue x).append_right xs

theorem pushAll_length_le (hpos : 1 ≤ capacity) (h : queue.length ≤ capacity) (xs : List α) :
    (pushAll capacity queue xs).length ≤ capacity := by
  induction xs generalizing queue with
  | nil => exact h
  | cons x xs ih => exact ih (push_length_le hpos h x)

end BoundedFifo
