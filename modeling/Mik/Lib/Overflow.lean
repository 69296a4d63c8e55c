/-
  Unsigned machine integers of `w` bits, in a build that checks for overflow and in one that does
  not. A result that does not fit is a panic (`none`) in the one and taken modulo `2 ^ w` in the
  other. So an operation wraps exactly where it panics in the build that checks, and the result is
  the exact one in both where it fits (`fit_of_lt`).

  The operands are numbers below `2 ^ w`.
-/
import Mathlib.Algebra.BigOperators.Group.List.Basic
import Mathlib.Algebra.GroupWithZero.Nat

namespace Mik.Lib

inductive Overflow where
  | panics
  | wraps
  deriving DecidableEq, Repr

namespace Overflow

/-- An exact result in `w` bits. -/
def fit (o : Overflow) (w n : Nat) : Option Nat :=
  if n < 2 ^ w then some n
  else
    match o with
    | panics => none
    | wraps => some (n % 2 ^ w)

def add (o : Overflow) (w a b : Nat) : Option Nat := o.fit w (a + b)

def mul (o : Overflow) (w a b : Nat) : Option Nat := o.fit w (a * b)

def pow (o : Overflow) (w a n : Nat) : Option Nat := o.fit w (a ^ n)

def sub (o : Overflow) (w a b : Nat) : Option Nat :=
  if b ≤ a then some (a - b)
  else
    match o with
    | panics => none
    | wraps => some ((a + (2 ^ w - b % 2 ^ w)) % 2 ^ w)

/-- `Iterator::sum`, from the left. -/
def sum (o : Overflow) (w : Nat) (ns : List Nat) : Option Nat := ns.foldlM (o.add w) 0

section

variable {o : Overflow} {w a b n : Nat}

theorem fit_of_lt (h : n < 2 ^ w) : o.fit w n = some n := if_pos h

theorem fit_panics_iff : panics.fit w n = some a ↔ n < 2 ^ w ∧ a = n := by
  unfold fit
  split
  · rename_i h
    exact ⟨fun heq => ⟨h, (Option.some.inj heq).symm⟩, fun heq => congrArg some heq.2.symm⟩
  · rename_i h
    exact ⟨nofun, fun heq => absurd heq.1 h⟩

theorem fit_panics_eq_none_iff : panics.fit w n = none ↔ ¬ n < 2 ^ w := by
  unfold fit
  split
  · rename_i h
    exact ⟨nofun, fun hno => absurd h hno⟩
  · rename_i h
    exact ⟨fun _ => h, fun _ => rfl⟩

theorem fit_wraps : wraps.fit w n = some (n % 2 ^ w) := by
  unfold fit
  split
  · rename_i h
    rw [Nat.mod_eq_of_lt h]
  · rfl

theorem sub_panics_eq_none_iff : panics.sub w a b = none ↔ a < b := by
  unfold sub
  split
  · rename_i h
    exact ⟨nofun, fun hlt => absurd h (Nat.not_le.mpr hlt)⟩
  · rename_i h
    exact ⟨fun _ => Nat.not_le.mp h, fun _ => rfl⟩

/-- The result of either build. -/
theorem eq_of_fit (h : o.fit w n = some a) : a = n % 2 ^ w := by
  cases o with
  | panics =>
    obtain ⟨hlt, rfl⟩ := fit_panics_iff.mp h
    rw [Nat.mod_eq_of_lt hlt]
  | wraps =>
    rw [fit_wraps] at h
    exact (Option.some.inj h).symm

/-! ## Modulo `2 ^ w` -/

/-- Adding to a result that was taken modulo. -/
theorem add_mod (h : o = panics → n + b < 2 ^ w) :
    o.add w (n % 2 ^ w) b = some ((n + b) % 2 ^ w) := by
  unfold add
  cases o with
  | panics =>
    have hlt := h rfl
    rw [Nat.mod_eq_of_lt (Nat.lt_of_le_of_lt (Nat.le_add_right n b) hlt), Nat.mod_eq_of_lt hlt,
      fit_of_lt hlt]
  | wraps => rw [fit_wraps, Nat.mod_add_mod]

/-- Subtracting from one, no more than the exact result was. -/
theorem sub_mod (hle : b ≤ n) (h : o = panics → n < 2 ^ w) :
    o.sub w (n % 2 ^ w) b = some ((n - b) % 2 ^ w) := by
  unfold sub
  split
  · rename_i hsub
    have hsplit : n - b = 2 ^ w * (n / 2 ^ w) + (n % 2 ^ w - b) := by
      rw [← Nat.add_sub_assoc hsub, Nat.div_add_mod]
    have hlt : n % 2 ^ w - b < 2 ^ w :=
      Nat.lt_of_le_of_lt (Nat.sub_le _ b) (Nat.mod_lt n (Nat.two_pow_pos w))
    rw [hsplit, Nat.mul_add_mod, Nat.mod_eq_of_lt hlt]
  · rename_i hsub
    cases o with
    | panics =>
      rw [Nat.mod_eq_of_lt (h rfl)] at hsub
      exact absurd hle hsub
    | wraps =>
      have hb : b % 2 ^ w ≤ 2 ^ w := Nat.le_of_lt (Nat.mod_lt b (Nat.two_pow_pos w))
      have hmod : (n - b + b + (2 ^ w - b % 2 ^ w)) % 2 ^ w = (n - b) % 2 ^ w := by
        have hwhole : b + (2 ^ w - b % 2 ^ w) = 2 ^ w * (b / 2 ^ w + 1) := by
          have hdiv := Nat.div_add_mod b (2 ^ w)
          rw [Nat.mul_add, Nat.mul_one]
          omega
        rw [Nat.add_assoc, hwhole, Nat.add_mul_mod_self_left]
      dsimp only
      rw [Nat.mod_add_mod, ← hmod, Nat.sub_add_cancel hle]

/-- A sum wraps once, or panics. -/
theorem sum_eq (o : Overflow) (w : Nat) (ns : List Nat) :
    o.sum w ns = o.fit w ns.sum := by
  suffices h : ∀ start, start < 2 ^ w →
      ns.foldlM (o.add w) start = o.fit w (start + ns.sum) by
    have hsum := h 0 (Nat.two_pow_pos w)
    rwa [Nat.zero_add] at hsum
  induction ns with
  | nil =>
    intro start hstart
    exact (fit_of_lt hstart).symm
  | cons n rest ih =>
    intro start hstart
    rw [List.foldlM_cons, List.sum_cons, ← Nat.add_assoc]
    unfold add
    by_cases hlt : start + n < 2 ^ w
    · rw [fit_of_lt hlt]
      exact ih _ hlt
    · cases o with
      | panics =>
        rw [fit_panics_eq_none_iff.mpr hlt, fit_panics_eq_none_iff.mpr (by omega)]
        rfl
      | wraps =>
        rw [fit_wraps]
        refine (ih _ (Nat.mod_lt _ (Nat.two_pow_pos w))).trans ?_
        rw [fit_wraps, fit_wraps, Nat.mod_add_mod]

end

end Overflow

end Mik.Lib
