/-
  The arithmetic of the restart backoff (`src/daemon/http/mod.rs`).

  `BASE_BACKOFF_SECS * 2u64.pow(restart_count)` is computed in 64 bits before the cap is applied.
  The product fits up to 61 restarts; from there on a build with overflow checks panics. Without
  them the cap hides it for two more restarts, and then the power is 0 and so is the backoff
  (`backoff_law_iff`).
-/
import Mik.Daemon.Handlers
import Mik.Lib.Overflow

namespace Mik.Daemon

open Mik.Lib Prog

/-- The backoff that `attempt_auto_restart` computes; `none` is a panic. -/
def backoff (o : Overflow) (restartCount : Nat) : Option Nat := do
  let power ← o.pow 64 2 restartCount
  let secs ← o.mul 64 baseBackoffSecs power
  return min secs maxBackoffSecs

/-- `should_restart_now` with the backoff it is given. -/
def restartNowAfter (i : Instance) (backoffSecs : Nat) : Task Bool :=
  match i.lastRestartAt with
  | none => ret true
  | some last => onSystem .now >>= fun now =>
    ret (decide ((backoffSecs : Int) ≤ (now - last).tdiv nanosPerSec))

/-- `attempt_auto_restart`, in either build. -/
def attemptAutoRestartIn (o : Overflow) (maxAutoRestarts : Nat) (i : Instance) :
    Option (Task Unit) :=
  if maxAutoRestarts ≤ i.restartCount then some (ret ())
  else (backoff o i.restartCount).map fun backoffSecs =>
    restartNowAfter i backoffSecs >>= fun now =>
      if now then spawnAndSaveRestartedInstance i else ret ()

theorem backoff_wraps (restartCount : Nat) :
    backoff .wraps restartCount = some (backoffSecs restartCount) := by
  unfold backoff Overflow.pow Overflow.mul
  rw [Overflow.fit_wraps, Option.bind_eq_bind, Option.bind_some, Overflow.fit_wraps]
  rfl

/-- The model of the health check is the one of a build without overflow checks. -/
theorem attemptAutoRestartIn_wraps (maxAutoRestarts : Nat) (i : Instance) :
    attemptAutoRestartIn .wraps maxAutoRestarts i = some (attemptAutoRestart maxAutoRestarts i) := by
  unfold attemptAutoRestartIn attemptAutoRestart
  split
  · rfl
  · rw [backoff_wraps]
    unfold restartNowAfter shouldRestartNow backoffPassed
    cases i.lastRestartAt with
    | none => rfl
    | some last => rfl

/-- Where the product fits, both builds compute it. -/
theorem backoff_of_fits {o : Overflow} {restartCount : Nat} (h : 5 * 2 ^ restartCount < 2 ^ 64) :
    backoff o restartCount = some (min (5 * 2 ^ restartCount) 300) := by
  have hpow : 2 ^ restartCount < 2 ^ 64 := by omega
  unfold backoff Overflow.pow Overflow.mul
  rw [Overflow.fit_of_lt hpow, Option.bind_eq_bind, Option.bind_some]
  exact congrArg (Option.bind · _) (Overflow.fit_of_lt h)

theorem fits_iff (restartCount : Nat) : 5 * 2 ^ restartCount < 2 ^ 64 ↔ restartCount ≤ 61 := by
  constructor
  · intro h
    by_contra hno
    have hpow : 2 ^ 62 ≤ 2 ^ restartCount := Nat.pow_le_pow_right (by decide) (by omega)
    omega
  · intro h
    have hpow : 2 ^ restartCount ≤ 2 ^ 61 := Nat.pow_le_pow_right (by decide) h
    omega

theorem backoff_panics_iff (restartCount : Nat) :
    backoff .panics restartCount = none ↔ 61 < restartCount := by
  constructor
  · intro h
    by_contra hno
    have hfits := (fits_iff restartCount).mpr (Nat.le_of_not_lt hno)
    rw [backoff_of_fits hfits] at h
    nomatch h
  · intro h
    have hfits : ¬ 5 * 2 ^ restartCount < 2 ^ 64 := fun hlt =>
      absurd ((fits_iff restartCount).mp hlt) (Nat.not_le.mpr h)
    unfold backoff Overflow.pow Overflow.mul
    by_cases hpow : 2 ^ restartCount < 2 ^ 64
    · rw [Overflow.fit_of_lt hpow, Option.bind_eq_bind, Option.bind_some]
      exact congrArg (Option.bind · _) (Overflow.fit_panics_eq_none_iff.mpr hfits)
    · rw [Overflow.fit_panics_eq_none_iff.mpr hpow]
      rfl

/-- Without the checks the cap hides the first two wraps. -/
theorem backoffSecs_eq_iff (restartCount : Nat) :
    backoffSecs restartCount = min (5 * 2 ^ restartCount) 300 ↔ restartCount ≤ 63 := by
  constructor
  · intro h
    by_contra hno
    obtain ⟨k, rfl⟩ := Nat.exists_eq_add_of_le (Nat.lt_of_not_le hno)
    have hzero : 2 ^ (64 + k) % 2 ^ 64 = 0 := by
      rw [Nat.pow_add]
      exact Nat.mul_mod_right _ _
    have hpos : 0 < 2 ^ (64 + k) := Nat.pow_pos (by decide)
    unfold backoffSecs baseBackoffSecs maxBackoffSecs at h
    rw [show Nat.succ 63 + k = 64 + k from rfl, hzero] at h
    omega
  · intro h
    by_cases hfits : restartCount ≤ 61
    · have hexact := @backoff_of_fits .wraps _ ((fits_iff restartCount).mpr hfits)
      rw [backoff_wraps] at hexact
      exact Option.some.inj hexact
    · have hcases : restartCount = 62 ∨ restartCount = 63 := by omega
      rcases hcases with rfl | rfl
      · rfl
      · rfl

/-! ## The law -/

/-- The backoff is the number of seconds it is meant to be, and its computation neither panics nor
    wraps: it would panic in the build that checks. -/
structure ExactBackoff (o : Overflow) (restartCount : Nat) : Prop where
  value : backoff o restartCount = some (min (5 * 2 ^ restartCount) 300)
  fits : backoff .panics restartCount ≠ none

/-- For every count below the configured maximum the backoff is exact, and it does not decrease. -/
structure BackoffLaw (o : Overflow) (maxAutoRestarts : UInt32) : Prop where
  exact : ∀ count, count < maxAutoRestarts.toNat → ExactBackoff o count
  mono : ∀ count count' secs secs', count ≤ count' → count' < maxAutoRestarts.toNat →
    backoff o count = some secs → backoff o count' = some secs' → secs ≤ secs'

theorem exactBackoff_iff (o : Overflow) (restartCount : Nat) :
    ExactBackoff o restartCount ↔ restartCount ≤ 61 := by
  constructor
  · intro h
    by_contra hno
    exact h.fits ((backoff_panics_iff restartCount).mpr (Nat.lt_of_not_le hno))
  · intro h
    have hfits := (fits_iff restartCount).mpr h
    refine ⟨backoff_of_fits hfits, fun hnone => ?_⟩
    exact absurd ((backoff_panics_iff restartCount).mp hnone) (Nat.not_lt.mpr h)

/-- The backoff is exact up to 61 restarts and no further, so the law holds for the maxima up to 62
    and for no other. Its value is right up to 63 restarts in a build that wraps. -/
theorem backoff_law_iff (o : Overflow) :
    (∀ count, ExactBackoff o count ↔ count ≤ 61) ∧
    (∀ maxAutoRestarts, BackoffLaw o maxAutoRestarts ↔ maxAutoRestarts.toNat ≤ 62) ∧
    ∀ count, backoff .wraps count = some (min (5 * 2 ^ count) 300) ↔ count ≤ 63 := by
  refine ⟨exactBackoff_iff o, fun maxAutoRestarts => ⟨fun h => ?_, fun h => ⟨?_, ?_⟩⟩, ?_⟩
  · by_contra hno
    have hexact := h.exact 62 (Nat.lt_of_not_le hno)
    exact absurd ((exactBackoff_iff o 62).mp hexact) (by decide)
  · intro count hlt
    exact (exactBackoff_iff o count).mpr (by omega)
  · intro count count' secs secs' hle hlt hsecs hsecs'
    have hexact := ((exactBackoff_iff o count).mpr (by omega)).value
    have hexact' := ((exactBackoff_iff o count').mpr (by omega)).value
    rw [hexact] at hsecs
    rw [hexact'] at hsecs'
    rw [← Option.some.inj hsecs, ← Option.some.inj hsecs']
    have hpow : 2 ^ count ≤ 2 ^ count' := Nat.pow_le_pow_right (by decide) hle
    omega
  · intro count
    rw [backoff_wraps, Option.some.injEq]
    exact backoffSecs_eq_iff count

/-- An instance that has been restarted 64 times, with a maximum of 100. -/
theorem backoff_gone :
    ¬ BackoffLaw .wraps 100 ∧ ¬ BackoffLaw .panics 100 ∧
      backoff .wraps 64 = some 0 ∧ backoff .panics 64 = none ∧ min (5 * 2 ^ 64) 300 = 300 := by
  refine ⟨fun h => ?_, fun h => ?_, by decide, by decide, by decide⟩
  · exact absurd (h.exact 64 (by decide)).value (by decide)
  · exact absurd (h.exact 64 (by decide)).value (by decide)

end Mik.Daemon
