import Mathlib.Data.List.Basic
import Mathlib.Order.Lattice

/-! Lists ordered by a key, with equal keys in order of arrival. -/
namespace StableOrder

variable {α κ : Type} [LinearOrder κ]

/-- A smaller key comes first, and of two equal keys the earlier one. -/
def Precedes (key : α → κ) (stamp : α → Nat) (x y : α) : Prop :=
  key x < key y ∨ (key x = key y ∧ stamp x < stamp y)

variable {key : α → κ} {stamp : α → Nat} {x y : α} {list front back : List α}

theorem Precedes.key_le (h : Precedes key stamp x y) : key x ≤ key y := by
  obtain hlt | ⟨heq, -⟩ := h
  · exact hlt.le
  · exact heq.le

/-- Nothing goes before an earlier element of at most its key. -/
theorem not_precedes_of_newer (hkey : key y ≤ key x) (hstamp : stamp y < stamp x) :
    ¬ Precedes key stamp x y := by
  rintro (hlt | ⟨-, hlt⟩)
  · exact absurd hkey (not_le.mpr hlt)
  · omega

/-- The last element of an ordered list has the greatest key. -/
theorem key_le_last (h : list.Pairwise (Precedes key stamp)) (hlast : y ∈ list.getLast?) :
    ∀ x ∈ list, key x ≤ key y := by
  obtain ⟨front, rfl⟩ := List.getLast?_eq_some_iff.mp hlast
  intro x hx
  obtain hx | hx := List.mem_append.mp hx
  · exact ((List.pairwise_append.mp h).2.2 x hx y (by simp)).key_le
  · rw [List.mem_singleton.mp hx]

/-- A new element is rightly placed behind those of at most its key. -/
theorem pairwise_insert (h : (front ++ back).Pairwise (Precedes key stamp))
    (hfront : ∀ y ∈ front, key y ≤ key x) (hback : ∀ y ∈ back, key x < key y)
    (hnew : ∀ y ∈ front, stamp y < stamp x) :
    (front ++ x :: back).Pairwise (Precedes key stamp) := by
  rw [List.pairwise_append] at h
  obtain ⟨hinFront, hinBack, hacross⟩ := h
  rw [List.pairwise_append, List.pairwise_cons]
  refine ⟨hinFront, ⟨fun y hy => .inl (hback y hy), hinBack⟩, ?_⟩
  intro y hy z hz
  obtain rfl | hz := List.mem_cons.mp hz
  · obtain hlt | heq := (hfront y hy).lt_or_eq
    · exact .inl hlt
    · exact .inr ⟨heq, hnew y hy⟩
  · exact hacross y hy z hz

/-- An ordered list ends with its elements of greatest key, the earliest of
them first. -/
theorem exists_last_group (h : list.Pairwise (Precedes key stamp)) (hne : list ≠ []) :
    ∃ front first rest, list = front ++ first :: rest ∧ (∀ y ∈ front, key y < key first) ∧
      ∀ y ∈ rest, key y = key first ∧ stamp first < stamp y := by
  induction list with
  | nil => exact absurd rfl hne
  | cons x list ih =>
      rw [List.pairwise_cons] at h
      by_cases hnil : list = []
      · exact ⟨[], x, [], by rw [hnil]; rfl, by simp, by simp⟩
      obtain ⟨front, first, rest, rfl, hfront, hrest⟩ := ih h.2 hnil
      have hfirst := h.1 first (by simp)
      cases front with
      | nil =>
          obtain hlt | ⟨heq, hstamp⟩ := hfirst
          · exact ⟨[x], first, rest, rfl, by simpa using hlt, hrest⟩
          · refine ⟨[], x, first :: rest, rfl, by simp, ?_⟩
            intro y hy
            obtain rfl | hy := List.mem_cons.mp hy
            · exact ⟨heq.symm, hstamp⟩
            · obtain ⟨hkey, hlater⟩ := hrest y hy
              exact ⟨hkey.trans heq.symm, Nat.lt_trans hstamp hlater⟩
      | cons z front =>
          refine ⟨x :: z :: front, first, rest, rfl, ?_, hrest⟩
          intro y hy
          obtain rfl | hy := List.mem_cons.mp hy
          · exact (h.1 z (by simp)).key_le.trans_lt (hfront z (by simp))
          · exact hfront y hy

/-- In an ordered list an element fits in when it fits its two neighbours. -/
theorem pairwise_le_middle_iff (h : (front ++ back).Pairwise fun a b => key a ≤ key b) :
    ((front ++ x :: back).Pairwise fun a b => key a ≤ key b) ↔
      (∀ last ∈ front.getLast?, key last ≤ key x) ∧ ∀ head ∈ back.head?, key x ≤ key head := by
  rw [List.pairwise_append] at h
  obtain ⟨hfront, hback, hacross⟩ := h
  rw [List.pairwise_append, List.pairwise_cons]
  constructor
  · rintro ⟨-, ⟨hbehind, -⟩, hahead⟩
    refine ⟨?_, ?_⟩
    · intro last hlast
      exact hahead last (List.mem_of_getLast? hlast) x List.mem_cons_self
    · intro head hhead
      exact hbehind head (List.mem_of_head? hhead)
  · rintro ⟨hlast, hhead⟩
    have hbehind : ∀ y ∈ back, key x ≤ key y := by
      cases back with
      | nil => simp
      | cons head tail =>
          have hle := hhead head rfl
          intro y hy
          obtain rfl | hy := List.mem_cons.mp hy
          · exact hle
          · exact hle.trans ((List.pairwise_cons.mp hback).1 y hy)
    have hahead : ∀ y ∈ front, key y ≤ key x := by
      obtain rfl | ⟨first, last, rfl⟩ := front.eq_nil_or_concat'
      · simp
      · have hle := hlast last List.getLast?_concat
        intro y hy
        obtain hy | hy := List.mem_append.mp hy
        · exact ((List.pairwise_append.mp hfront).2.2 y hy last (by simp)).trans hle
        · rwa [List.mem_singleton.mp hy]
    refine ⟨hfront, ⟨hbehind, hback⟩, ?_⟩
    intro y hy z hz
    obtain rfl | hz := List.mem_cons.mp hz
    · exact hahead y hy
    · exact hacross y hy z hz

end StableOrder
