/-
  How many are in a state, when one of them changes its state.
-/
import Mathlib.Data.Set.Card

namespace Mik.Lib

section

variable {G : Type} {g : Nat → G} {i : Nat} {x y : G}

/-- Those that are in the state `y`. -/
def holders (g : Nat → G) (y : G) : Set Nat := {i | g i = y}

/-- One of them changes its state. -/
def moved (g : Nat → G) (i : Nat) (x : G) : Nat → G := fun j => if j = i then x else g j

@[simp] theorem moved_self (g : Nat → G) (i : Nat) (x : G) : moved g i x i = x := if_pos rfl

theorem moved_of_ne {j : Nat} (h : j ≠ i) (x : G) : moved g i x j = g j := if_neg h

theorem moved_eq_self (h : g i = x) : moved g i x = g := by
  funext j
  by_cases hj : j = i
  · rw [hj, moved_self, h]
  · exact moved_of_ne hj x

theorem holders_moved_of_ne (h : g i ≠ y) (hx : x ≠ y) : holders (moved g i x) y = holders g y := by
  ext j
  show moved g i x j = y ↔ g j = y
  by_cases hj : j = i
  · rw [hj, moved_self]
    exact iff_of_false hx h
  · rw [moved_of_ne hj]

theorem holders_enter : holders (moved g i y) y = insert i (holders g y) := by
  ext j
  show moved g i y j = y ↔ j = i ∨ g j = y
  by_cases hj : j = i
  · rw [hj, moved_self]
    simp
  · rw [moved_of_ne hj]
    simp [hj]

theorem holders_leave (hx : x ≠ y) : holders (moved g i x) y = holders g y \ {i} := by
  ext j
  show moved g i x j = y ↔ g j = y ∧ j ≠ i
  by_cases hj : j = i
  · rw [hj, moved_self]
    simp [hx]
  · rw [moved_of_ne hj]
    simp [hj]

theorem finite_holders_moved (h : (holders g y).Finite) : (holders (moved g i x) y).Finite := by
  refine (h.insert i).subset fun j hj => ?_
  by_cases hji : j = i
  · exact Or.inl hji
  · exact Or.inr ((moved_of_ne hji x).symm.trans hj)

theorem ncard_enter (hfin : (holders g y).Finite) (h : g i ≠ y) :
    (holders (moved g i y) y).ncard = (holders g y).ncard + 1 := by
  rw [holders_enter]
  exact Set.ncard_insert_of_notMem h hfin

theorem ncard_leave (hfin : (holders g y).Finite) (h : g i = y) (hx : x ≠ y) :
    (holders (moved g i x) y).ncard + 1 = (holders g y).ncard := by
  rw [holders_leave hx]
  exact Set.ncard_sdiff_singleton_add_one h hfin

end

end Mik.Lib
