/-
  Fair infinite runs, and what they lead to.

  `trace step s turns` is the run in which turn `n` is `turns n`. A party that is never left out
  for good has its turns `Often`. `LeadsTo P Q` says that from every state of the run with `P` a
  later one has `Q`; it chains (`LeadsTo.trans`), and `leadsTo_of_turn` is where fairness is used:
  if every turn keeps `P` or brings about `Q`, and those of one party bring about `Q`, then `P`
  leads to `Q`. Most often the other parties change nothing meanwhile (`leadsTo_of_waiting`).
-/
import Mik.Lib.Run

namespace Mik.Lib

section

variable {S E : Type} {step : S → E → S} {s : S} {turns : Nat → E} {P Q R : S → Prop}

/-- The state after the first `n` turns. -/
def trace (step : S → E → S) (s : S) (turns : Nat → E) : Nat → S
  | 0 => s
  | n + 1 => step (trace step s turns n) (turns n)

theorem trace_eq_run (n : Nat) :
    trace step s turns n = run step s ((List.range n).map turns) := by
  induction n with
  | zero => rfl
  | succ n ih =>
    rw [List.range_succ, List.map_append, List.map_singleton, run_snoc, ← ih]
    rfl

/-- Turns of the kind `K` come again and again. -/
def Often (K : E → Prop) (turns : Nat → E) : Prop := ∀ n, ∃ m, n ≤ m ∧ K (turns m)

/-- Turns that come round with a period. -/
theorem often_of_period {K : E → Prop} (period offset : Nat) (hp : 0 < period)
    (h : ∀ n, K (turns (n * period + offset))) : Often K turns := by
  intro n
  have hn : n ≤ n * period := Nat.le_mul_of_pos_right n hp
  exact ⟨n * period + offset, by omega, h n⟩

def LeadsTo (step : S → E → S) (s : S) (turns : Nat → E) (P Q : S → Prop) : Prop :=
  ∀ n, P (trace step s turns n) → ∃ m, n ≤ m ∧ Q (trace step s turns m)

theorem LeadsTo.trans (hpq : LeadsTo step s turns P Q) (hqr : LeadsTo step s turns Q R) :
    LeadsTo step s turns P R := by
  intro n hn
  obtain ⟨m, hnm, hm⟩ := hpq n hn
  obtain ⟨l, hml, hl⟩ := hqr m hm
  exact ⟨l, by omega, hl⟩

/-- A family of states that leads to one goal. -/
theorem LeadsTo.exists {ι : Sort*} {P : ι → S → Prop} (h : ∀ i, LeadsTo step s turns (P i) Q) :
    LeadsTo step s turns (fun t => ∃ i, P i t) Q := by
  rintro n ⟨i, hi⟩
  exact h i n hi

/-- The rule for one turn of a party that gets its turns. -/
theorem leadsTo_of_turn {K : E → Prop} (hoften : Often K turns)
    (hkeep : ∀ t e, P t → P (step t e) ∨ Q (step t e)) (hturn : ∀ t e, P t → K e → Q (step t e)) :
    LeadsTo step s turns P Q := by
  intro n hn
  obtain ⟨m, hnm, hm⟩ := hoften n
  -- up to turn `m` either `P` has held on, or `Q` has come about before
  have hupto : ∀ d, (∃ l, n ≤ l ∧ Q (trace step s turns l)) ∨ P (trace step s turns (n + d)) := by
    intro d
    induction d with
    | zero => exact Or.inr hn
    | succ d ih =>
      rcases ih with hdone | hp
      · exact Or.inl hdone
      · rcases hkeep _ (turns (n + d)) hp with hp' | hq
        · exact Or.inr hp'
        · exact Or.inl ⟨n + d + 1, by omega, hq⟩
  rcases hupto (m - n) with hdone | hp
  · exact hdone
  · rw [Nat.add_sub_cancel' hnm] at hp
    exact ⟨m + 1, by omega, hturn _ _ hp hm⟩

/-- The rule for a state that only the turns of one party leave. -/
theorem leadsTo_of_waiting {K : E → Prop} (hoften : Often K turns)
    (hwaits : ∀ t e, P t → ¬ K e → step t e = t) (hturn : ∀ t e, P t → K e → Q (step t e)) :
    LeadsTo step s turns P Q := by
  refine leadsTo_of_turn hoften (fun t e ht => ?_) hturn
  by_cases he : K e
  · exact Or.inr (hturn t e ht he)
  · rw [hwaits t e ht he]
    exact Or.inl ht

end

end Mik.Lib
