/-
  Loops that acquire one resource after the other and stop at the first refusal.

  `acquireAll acquire i n` asks for the resources from `i` on, `n` of them, and returns the first
  refusal as it is: nothing is given back. `Acquires` is the contract of one acquisition, in terms
  of how many resources are held, and `acquireAll_run` is what the loop leaves behind: all of them,
  or those before the first one refused.
-/
import Mik.Lib.Prog

namespace Mik.Lib

section

variable {A : Type} {R : A → Type} {S α ε : Type}

def acquireAll (acquire : Nat → Prog A R (Except ε α)) :
    Nat → Nat → Prog A R (Except ε (List α))
  | _, 0 => pure (.ok [])
  | i, n + 1 => do
    match ← acquire i with
    | .error e => return .error e
    | .ok x =>
      match ← acquireAll acquire (i + 1) n with
      | .error e => return .error e
      | .ok xs => return .ok (x :: xs)

/-- Of the first `n` resources, `k` is the first that is refused. -/
def FirstRefused (grants : Nat → Prop) (n k : Nat) : Prop :=
  k < n ∧ ¬ grants k ∧ ∀ j, j < k → grants j

theorem FirstRefused.eq {grants : Nat → Prop} {n k l : Nat} (hk : FirstRefused grants n k)
    (hl : FirstRefused grants n l) : k = l := by
  rcases Nat.lt_trichotomy k l with h | h | h
  · exact absurd (hl.2.2 k h) hk.2.1
  · exact h
  · exact absurd (hk.2.2 l h) hl.2.1

/-- Where `Inv` holds, resource `held s` is acquired if it is granted, and nothing else is. -/
structure Acquires (answer : (a : A) → S → R a × S) (held : S → Nat) (Inv : S → Prop)
    (grants : Nat → Prop) (acquire : Nat → Prog A R (Except ε α)) : Prop where
  granted : ∀ s, Inv s → grants (held s) → ∃ x s',
    (acquire (held s)).runOn answer s = (.ok x, s') ∧ held s' = held s + 1 ∧ Inv s'
  refused : ∀ s, Inv s → ¬ grants (held s) → ∃ e s',
    (acquire (held s)).runOn answer s = (.error e, s') ∧ held s' = held s ∧ Inv s'

variable {answer : (a : A) → S → R a × S} {held : S → Nat} {Inv : S → Prop} {grants : Nat → Prop}
  {acquire : Nat → Prog A R (Except ε α)}

theorem acquireAll_from (h : Acquires answer held Inv grants acquire) (n : Nat) {s : S}
    (hs : Inv s) :
    ((∀ j, held s ≤ j → j < held s + n → grants j) ∧ ∃ xs s',
      (acquireAll acquire (held s) n).runOn answer s = (.ok xs, s') ∧
        held s' = held s + n ∧ Inv s') ∨
    ∃ k, held s ≤ k ∧ k < held s + n ∧ ¬ grants k ∧ (∀ j, held s ≤ j → j < k → grants j) ∧
      ∃ e s', (acquireAll acquire (held s) n).runOn answer s = (.error e, s') ∧
        held s' = k ∧ Inv s' := by
  induction n generalizing s with
  | zero => exact Or.inl ⟨fun j _ _ => by omega, [], s, rfl, rfl, hs⟩
  | succ n ih =>
    rw [acquireAll, Prog.runOn_bind]
    by_cases hg : grants (held s)
    · obtain ⟨x, s', hrun, hheld, hs'⟩ := h.granted s hs hg
      have hrest := ih hs'
      rw [hheld] at hrest
      rw [hrun]
      dsimp only
      rw [Prog.runOn_bind]
      rcases hrest with ⟨hall, xs, s'', hrun', hheld', hs''⟩ |
        ⟨k, hle, hlt, hnot, hbefore, e, s'', hrun', hheld', hs''⟩
      · rw [hrun']
        refine Or.inl ⟨fun j hle hlt => ?_, x :: xs, s'', rfl, by omega, hs''⟩
        by_cases hj : j = held s
        · rw [hj]
          exact hg
        · exact hall j (by omega) (by omega)
      · rw [hrun']
        refine Or.inr ⟨k, by omega, by omega, hnot, fun j hle' hlt' => ?_, e, s'', rfl, hheld',
          hs''⟩
        by_cases hj : j = held s
        · rw [hj]
          exact hg
        · exact hbefore j (by omega) hlt'
    · obtain ⟨e, s', hrun, hheld, hs'⟩ := h.refused s hs hg
      rw [hrun]
      exact Or.inr ⟨held s, by omega, by omega, hg, fun j _ _ => by omega, e, s', rfl, hheld, hs'⟩

/-- From nothing held: all is acquired, or what comes before the first refusal. -/
theorem acquireAll_run (h : Acquires answer held Inv grants acquire) (n : Nat) {s : S}
    (hs : Inv s) (hnone : held s = 0) :
    ((∀ j, j < n → grants j) ∧ ∃ xs s', (acquireAll acquire 0 n).runOn answer s = (.ok xs, s') ∧
      held s' = n ∧ Inv s') ∨
    ∃ k, FirstRefused grants n k ∧ ∃ e s',
      (acquireAll acquire 0 n).runOn answer s = (.error e, s') ∧ held s' = k ∧ Inv s' := by
  have hfrom := acquireAll_from h n hs
  rw [hnone] at hfrom
  rcases hfrom with ⟨hall, xs, s', hrun, hheld, hs'⟩ |
    ⟨k, _, hlt, hnot, hbefore, hrefused⟩
  · exact Or.inl ⟨fun j hj => hall j (by omega) (by omega), xs, s', hrun, by omega, hs'⟩
  · exact Or.inr ⟨k, ⟨by omega, hnot, fun j hj => hbefore j (by omega) hj⟩, hrefused⟩

end

end Mik.Lib
