/-
  A switch with hysteresis, and what is observed of a run.

  A `Switch` leaves the side it is on after so many readings against it in a row: `down` of them
  turn it off and `up` turn it on again. A flag that follows the last reading is such a switch
  only where both counts are 1, as far as the readings try them out (`follows_last_iff`).

  `observed_throughout_iff` is for observations that a run adds one by one: what holds of them in
  every state of the run holds of all their beginnings.
-/
import Mathlib.Data.List.Induction
import Mathlib.Data.List.Infix
import Mik.Lib.Run

namespace Mik.Lib

/-- The side the switch is on, and the readings against it in a row. -/
inductive Switch where
  | on (against : Nat)
  | off (against : Nat)
  deriving DecidableEq, Repr

namespace Switch

def next (down up : Nat) : Switch → Bool → Switch
  | on _, true => on 0
  | on n, false => if down ≤ n + 1 then off 0 else on (n + 1)
  | off _, false => off 0
  | off n, true => if up ≤ n + 1 then on 0 else off (n + 1)

def isOn : Switch → Bool
  | on _ => true
  | off _ => false

/-- The switch after some readings, on at first. -/
def after (down up : Nat) (readings : List Bool) : Switch := run (next down up) (on 0) readings

/-- The switch that has had no reading against the side it is on. -/
def settled (side : Bool) : Switch := if side then on 0 else off 0

end Switch

/-- What the last reading says; on at first. -/
def lastReading (readings : List Bool) : Bool := readings.getLast?.getD true

@[simp] theorem lastReading_snoc (readings : List Bool) (r : Bool) :
    lastReading (readings ++ [r]) = r := by
  unfold lastReading
  rw [List.getLast?_concat]
  rfl

theorem mem_of_lastReading {readings : List Bool} (h : lastReading readings = false) :
    false ∈ readings := by
  induction readings using List.reverseRecOn with
  | nil => exact absurd h (by decide)
  | append_singleton rs r _ =>
    rw [lastReading_snoc] at h
    rw [h]
    exact List.mem_append_right rs List.mem_cons_self

/-- The counts are 1 where the readings try them out: `down` if one is against the switch, and
    `up` if one after that is for it again. -/
def TriesOnlyOnes (down up : Nat) (readings : List Bool) : Prop :=
  (false ∈ readings → down = 1) ∧ (List.Sublist [false, true] readings → up = 1)

instance (down up : Nat) (readings : List Bool) : Decidable (TriesOnlyOnes down up readings) :=
  inferInstanceAs (Decidable (_ ∧ _))

theorem back_snoc_true {readings : List Bool} :
    List.Sublist [false, true] (readings ++ [true]) ↔ false ∈ readings := by
  rw [show [false, true] = [false] ++ [true] from rfl, List.append_sublist_append_right]
  exact List.singleton_sublist

theorem back_snoc_false {readings : List Bool}
    (h : List.Sublist [false, true] (readings ++ [false])) :
    List.Sublist [false, true] readings := by
  obtain ⟨front, back, heq, hfront, hback⟩ := List.sublist_append_iff.mp h
  rcases List.sublist_singleton.mp hback with rfl | rfl
  · rw [List.append_nil] at heq
    rwa [heq]
  · have hlast := congrArg List.getLast? heq
    rw [List.getLast?_concat] at hlast
    exact absurd hlast (by decide)

section

variable {down up : Nat} {readings : List Bool}

theorem after_snoc (r : Bool) :
    Switch.after down up (readings ++ [r]) = (Switch.after down up readings).next down up r :=
  run_snoc _ _ _

theorem tries_of_snoc {r : Bool} (h : TriesOnlyOnes down up (readings ++ [r])) :
    TriesOnlyOnes down up readings :=
  ⟨fun hmem => h.1 (List.mem_append_left _ hmem),
    fun hsub => h.2 (hsub.trans (List.sublist_append_left _ _))⟩

/-- As long as only ones are tried, the switch is settled where the last reading says. -/
theorem after_of_tries (h : TriesOnlyOnes down up readings) :
    Switch.after down up readings = .settled (lastReading readings) := by
  induction readings using List.reverseRecOn with
  | nil => rfl
  | append_singleton rs r ih =>
    rw [after_snoc, ih (tries_of_snoc h), lastReading_snoc]
    cases r with
    | true =>
      by_cases hlast : lastReading rs = true
      · rw [hlast]
        rfl
      · have hmem := mem_of_lastReading (Bool.eq_false_iff.mpr hlast)
        have hone : up ≤ 0 + 1 := Nat.le_of_eq (h.2 (back_snoc_true.mpr hmem))
        rw [Bool.eq_false_iff.mpr hlast]
        exact if_pos hone
    | false =>
      by_cases hlast : lastReading rs = true
      · have hone : down ≤ 0 + 1 := Nat.le_of_eq (h.1 (by simp))
        rw [hlast]
        exact if_pos hone
      · rw [Bool.eq_false_iff.mpr hlast]
        rfl

/-- The reading that is the first to try a count shows whether it is 1. -/
theorem tries_snoc (hdown : 0 < down) (hup : 0 < up) {r : Bool}
    (h : TriesOnlyOnes down up readings)
    (hnext : ((Switch.settled (lastReading readings)).next down up r).isOn = r) :
    TriesOnlyOnes down up (readings ++ [r]) := by
  cases r with
  | true =>
    refine ⟨fun hmem => h.1 (by simpa using hmem), fun hsub => ?_⟩
    have hmem := back_snoc_true.mp hsub
    by_cases hlast : lastReading readings = true
    · -- it has been tried already
      refine h.2 ?_
      rcases List.eq_nil_or_concat readings with rfl | ⟨rs, r, rfl⟩
      · exact absurd hmem (by simp)
      · rw [List.concat_eq_append, lastReading_snoc] at hlast
        rw [List.concat_eq_append, hlast] at hmem ⊢
        exact back_snoc_true.mpr (by simpa using hmem)
    · rw [Bool.eq_false_iff.mpr hlast] at hnext
      by_contra hno
      have hmore : ¬ up ≤ 0 + 1 := by omega
      simp [Switch.settled, Switch.next, Switch.isOn, hmore] at hnext
  | false =>
    refine ⟨fun _ => ?_, fun hsub => h.2 (back_snoc_false hsub)⟩
    by_cases hlast : lastReading readings = true
    · rw [hlast] at hnext
      by_contra hno
      have hmore : ¬ down ≤ 0 + 1 := by omega
      simp [Switch.settled, Switch.next, Switch.isOn, hmore] at hnext
    · exact h.1 (mem_of_lastReading (Bool.eq_false_iff.mpr hlast))

/-- The switch is where the last reading says, after every one, exactly when only ones are
    tried. -/
theorem follows_last_iff (hdown : 0 < down) (hup : 0 < up) :
    (∀ pre, pre <+: readings → (Switch.after down up pre).isOn = lastReading pre) ↔
      TriesOnlyOnes down up readings := by
  induction readings using List.reverseRecOn with
  | nil =>
    refine ⟨fun _ => ⟨by simp, by simp⟩, fun _ pre hpre => ?_⟩
    rw [List.prefix_nil.mp hpre]
    rfl
  | append_singleton rs r ih =>
    constructor
    · intro h
      have hbefore := ih.mp fun pre hpre => h pre (hpre.trans (List.prefix_append rs [r]))
      have hnow := h _ (List.prefix_refl _)
      rw [after_snoc, after_of_tries hbefore, lastReading_snoc] at hnow
      exact tries_snoc hdown hup hbefore hnow
    · intro h pre hpre
      rcases List.prefix_concat_iff.mp hpre with rfl | hpre
      · rw [after_of_tries h]
        cases lastReading (rs ++ [r]) with
        | true => rfl
        | false => rfl
      · exact ih.mpr (tries_of_snoc h) pre hpre

end

/-! ## What is observed of a run -/

section

variable {S E R : Type} {step : S → E → S}

/-- What holds of the observations in every state of a run, which adds at most one at a step, holds
    of all beginnings of the last ones. -/
theorem observed_throughout_iff {P : List R → Prop} (seen : S → List R) {s : S} (h0 : seen s = [])
    (hstep : ∀ s e, seen (step s e) = seen s ∨ ∃ r, seen (step s e) = seen s ++ [r])
    (es : List E) :
    (∀ pre, pre <+: es → P (seen (run step s pre))) ↔
      ∀ rs, rs <+: seen (run step s es) → P rs := by
  induction es using List.reverseRecOn with
  | nil =>
    rw [run_nil, h0]
    simp only [List.prefix_nil, forall_eq, run_nil, h0]
  | append_singleton es e ih =>
    rw [run_snoc]
    simp only [List.prefix_concat_iff, or_imp, forall_and, forall_eq, run_snoc, ih]
    rcases hstep (run step s es) e with hsame | ⟨r, hmore⟩
    · rw [hsame]
      exact ⟨And.right, fun h => ⟨h _ (List.prefix_refl _), h⟩⟩
    · rw [hmore]
      simp only [List.prefix_concat_iff, or_imp, forall_and, forall_eq]

end

end Mik.Lib
