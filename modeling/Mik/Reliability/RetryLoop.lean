/-
  The loop of `retry_sync` (`src/reliability/retry.rs`).

  The operation is called, and after a transient error slept for the delay and called again, up to
  `max_retries` times more. Two things are computed besides: the number of attempts for the log,
  in 32 bits, and the next delay, with `f32` and before the cap is applied. Either can panic. The
  first does in a build with overflow checks when the last call is number 2^32 and its event is
  recorded, the second where `Duration::from_secs_f32` does not take the product.

  Otherwise the calls are those of `retrySync` in `Mik.Reliability.Retry`, and the last one is the
  first that succeeds or fails for good, or the one after `max_retries` retries
  (`retry_law_iff`).

  Parameters are `str::to_lowercase` and the arithmetic on `f32`. Delays are in nanoseconds.
-/
import Mathlib.Data.List.Basic
import Mik.Lib.Overflow
import Mik.Lib.Prog
import Mik.Reliability.Retry

namespace Mik.Reliability

open Mik.Lib Prog

/-! ## Configurations -/

/-- `RetryConfig`, without the jitter: `retry_sync` does not use it. -/
structure RetryConfig (Factor : Type) where
  maxRetries : UInt32
  initialDelay : Nat
  maxDelay : Nat
  factor : Factor

def millis (n : Nat) : Nat := n * 1000000

def secs (n : Nat) : Nat := n * 1000000000

namespace RetryConfig

section

variable {Factor : Type} (two : Factor)

/-- `RetryConfig::default`; `two` is 2.0. -/
def default : RetryConfig Factor := ⟨3, millis 500, secs 10, two⟩

def quick : RetryConfig Factor := ⟨2, millis 100, secs 1, two⟩

def network : RetryConfig Factor := ⟨3, millis 100, secs 20, two⟩

def critical : RetryConfig Factor := ⟨5, secs 1, secs 30, two⟩

end

section

variable {Factor : Type}

def withMaxRetries (config : RetryConfig Factor) (maxRetries : UInt32) : RetryConfig Factor :=
  { config with maxRetries }

def withInitialDelay (config : RetryConfig Factor) (delay : Nat) : RetryConfig Factor :=
  { config with initialDelay := delay }

/-- The delay after `delay`; `scaled` is `Duration::from_secs_f32(delay.as_secs_f32() * factor)`,
    `none` where this panics. -/
def nextDelay (scaled : Factor → Nat → Option Nat) (config : RetryConfig Factor) (delay : Nat) :
    Option Nat :=
  (scaled config.factor delay).map fun delay => min delay config.maxDelay

/-- The delay after so many retries. -/
def delayAfter (scaled : Factor → Nat → Option Nat) (config : RetryConfig Factor) :
    Nat → Option Nat
  | 0 => some config.initialDelay
  | retries + 1 => (config.delayAfter scaled retries).bind (config.nextDelay scaled)

end

end RetryConfig

/-! ## The loop -/

inductive RetryAction where
  | operation
  /-- `std::thread::sleep`. -/
  | sleep (nanos : Nat)

abbrev RetryAction.Reply (T : Type) : RetryAction → Type
  | .operation => Except AnyError T
  | .sleep _ => Unit

/-- The levels that the log records. The fields of an event are computed if it is recorded. -/
structure Recorded where
  debug : Bool
  warn : Bool

/-- The field `attempt + 1` of an event; `none` is a panic. -/
def attemptsField (o : Overflow) (recorded : Bool) (attempt : Nat) : Option Unit :=
  if recorded then (o.add 32 attempt 1).map fun _ => () else some ()

section

variable {Factor T : Type} (o : Overflow) (recorded : Recorded) (lower : String → String)
  (scaled : Factor → Nat → Option Nat) (config : RetryConfig Factor)

/-- The loop of `retry_sync`, from an attempt on; `none` is a panic. -/
def retryLoop (attempt delay : Nat) :
    Prog RetryAction (RetryAction.Reply T) (Option (Except AnyError T)) :=
  act .operation fun outcome =>
    match (outcome : Except AnyError T) with
    | .ok result =>
      if 0 < attempt then
        match attemptsField o recorded.debug attempt with
        | none => ret none
        | some _ => ret (some (.ok result))
      else ret (some (.ok result))
    | .error e =>
      if !isTransientError lower e then ret (some (.error e))
      else if config.maxRetries.toNat ≤ attempt then
        match attemptsField o recorded.warn attempt with
        | none => ret none
        | some _ => ret (some (.error e))
      else
        match attemptsField o recorded.warn attempt with
        | none => ret none
        | some _ =>
          act (.sleep delay) fun _ =>
            -- `attempt += 1` fits, as the attempt is below `max_retries`
            match config.nextDelay scaled delay with
            | none => ret none
            | some delay => retryLoop (attempt + 1) delay
termination_by config.maxRetries.toNat - attempt

/-- `retry_sync`, in either build. -/
def retrySyncIn : Prog RetryAction (RetryAction.Reply T) (Option (Except AnyError T)) :=
  retryLoop o recorded lower scaled config 0 config.initialDelay

end

/-- The operation that comes to `outcomes 0`, `outcomes 1`, ... at its calls. The state is the
    number of calls so far. -/
def answerCalls {T : Type} (outcomes : Nat → Except AnyError T) :
    (a : RetryAction) → Nat → RetryAction.Reply T a × Nat
  | .operation, calls => (outcomes calls, calls + 1)
  | .sleep _, calls => ((), calls)

/-! ## The last call -/

/-- A success, or an error that is not transient. -/
def stops {T : Type} (lower : String → String) : Except AnyError T → Bool
  | .ok _ => true
  | .error e => !isTransientError lower e

/-- The first call below `maxRetries` that stops, or else `maxRetries`. -/
def lastCall {T : Type} (lower : String → String) (outcomes : Nat → Except AnyError T)
    (maxRetries : Nat) : Nat :=
  ((List.range maxRetries).find? fun i => stops lower (outcomes i)).getD maxRetries

def RetryConfig.lastCall {Factor T : Type} (lower : String → String)
    (outcomes : Nat → Except AnyError T) (config : RetryConfig Factor) : Nat :=
  Reliability.lastCall lower outcomes config.maxRetries.toNat

section

variable {T : Type} {lower : String → String} {outcomes : Nat → Except AnyError T}
  {maxRetries : Nat}

theorem lastCall_cases (lower : String → String) (outcomes : Nat → Except AnyError T)
    (maxRetries : Nat) :
    (lastCall lower outcomes maxRetries < maxRetries ∧
      stops lower (outcomes (lastCall lower outcomes maxRetries)) = true ∨
      lastCall lower outcomes maxRetries = maxRetries) ∧
    ∀ i < lastCall lower outcomes maxRetries, stops lower (outcomes i) = false := by
  unfold lastCall
  cases hfind : (List.range maxRetries).find? fun i => stops lower (outcomes i) with
  | none =>
    refine ⟨Or.inr rfl, fun i hi => ?_⟩
    exact Bool.eq_false_iff.mpr (List.find?_eq_none.mp hfind i (List.mem_range.mpr hi))
  | some k =>
    obtain ⟨hstops, hmem, hbefore⟩ := List.find?_range_eq_some.mp hfind
    refine ⟨Or.inl ⟨List.mem_range.mp hmem, hstops⟩, fun i hi => ?_⟩
    exact Bool.eq_false_iff.mpr fun h => absurd h (by simpa using hbefore i hi)

theorem lastCall_le (lower : String → String) (outcomes : Nat → Except AnyError T)
    (maxRetries : Nat) : lastCall lower outcomes maxRetries ≤ maxRetries := by
  rcases (lastCall_cases lower outcomes maxRetries).1 with ⟨hlt, -⟩ | heq
  · exact Nat.le_of_lt hlt
  · exact Nat.le_of_eq heq

/-- A call before the last one neither stops nor is out of retries. -/
theorem again_of_lt {k : Nat} (h : k < lastCall lower outcomes maxRetries) :
    k < maxRetries ∧ stops lower (outcomes k) = false :=
  ⟨Nat.lt_of_lt_of_le h (lastCall_le lower outcomes maxRetries),
    (lastCall_cases lower outcomes maxRetries).2 k h⟩

/-- An error stops the calls exactly if it is not transient. -/
theorem stops_error {e : AnyError} {b : Bool}
    (h : stops lower (.error e : Except AnyError T) = b) : isTransientError lower e = !b := by
  rw [← h]
  exact (Bool.not_not _).symm

/-- The calls of `retrySync`, from one that is not past the last. -/
theorem retrySync_from {k left : Nat} (hk : k ≤ lastCall lower outcomes maxRetries)
    (hleft : k + left = maxRetries) :
    retrySync (isTransientError lower) outcomes k left =
      ⟨lastCall lower outcomes maxRetries - k + 1,
        outcomes (lastCall lower outcomes maxRetries)⟩ := by
  induction left generalizing k with
  | zero =>
    have hlast : lastCall lower outcomes maxRetries = k :=
      Nat.le_antisymm (hleft ▸ lastCall_le lower outcomes maxRetries) hk
    rw [hlast, Nat.sub_self]
    rfl
  | succ left ih =>
    unfold retrySync
    rcases Nat.eq_or_lt_of_le hk with rfl | hlt
    · have hstops := (lastCall_cases lower outcomes maxRetries).1
      rcases hstops with ⟨-, hstops⟩ | heq
      · rw [Nat.sub_self]
        cases houtcome : outcomes (lastCall lower outcomes maxRetries) with
        | ok result => rfl
        | error e =>
          rw [houtcome] at hstops
          have htransient : isTransientError lower e = false := stops_error hstops
          dsimp only
          rw [htransient]
          rfl
      · omega
    · obtain ⟨-, hagain⟩ := again_of_lt hlt
      cases houtcome : outcomes k with
      | ok result =>
        rw [houtcome] at hagain
        cases hagain
      | error e =>
        rw [houtcome] at hagain
        have htransient : isTransientError lower e = true := stops_error hagain
        dsimp only
        rw [if_pos htransient, ih hlt (by omega)]
        have hcount : lastCall lower outcomes maxRetries - (k + 1) + 1 =
            lastCall lower outcomes maxRetries - k := by omega
        exact congrArg (fun n => Calls.mk (n + 1) _) hcount

/-- `retrySync` ends with the last call. -/
theorem retrySync_eq (lower : String → String) (outcomes : Nat → Except AnyError T)
    (maxRetries : Nat) :
    retrySync (isTransientError lower) outcomes 0 maxRetries =
      ⟨lastCall lower outcomes maxRetries + 1,
        outcomes (lastCall lower outcomes maxRetries)⟩ :=
  retrySync_from (Nat.zero_le _) (Nat.zero_add _)

end

/-! ## The calls of the loop -/

theorem attemptsField_of_lt {attempt : Nat} (h : attempt + 1 < 2 ^ 32) (o : Overflow)
    (recorded : Bool) : attemptsField o recorded attempt = some () := by
  unfold attemptsField Overflow.add
  rw [Overflow.fit_of_lt h]
  split <;> rfl

/-- The field is left out, or fits, or wraps. -/
theorem attemptsField_eq_none_iff {o : Overflow} {recorded : Bool} {attempt : Nat} :
    attemptsField o recorded attempt = none ↔
      o = .panics ∧ recorded = true ∧ ¬ attempt + 1 < 2 ^ 32 := by
  cases recorded with
  | false => simp [attemptsField]
  | true =>
    unfold attemptsField Overflow.add
    rw [if_pos rfl, Option.map_eq_none_iff]
    cases o with
    | panics => simp [Overflow.fit_panics_eq_none_iff]
    | wraps => simp [Overflow.fit_wraps]

/-- The event after the last call is recorded, with the number of attempts in it. -/
def countsAttempts {T : Type} (recorded : Recorded) (lower : String → String) :
    Except AnyError T → Bool
  | .ok _ => recorded.debug
  | .error e => isTransientError lower e && recorded.warn

section

variable {Factor T : Type} {o : Overflow} {recorded : Recorded} {lower : String → String}
  {scaled : Factor → Nat → Option Nat} {config : RetryConfig Factor}
  {outcomes : Nat → Except AnyError T}

/-- After a call that stops, or without a retry left, the loop ends. -/
theorem runOn_stops {k : Nat}
    (h : stops lower (outcomes k) = true ∨ config.maxRetries.toNat ≤ k) (delay : Nat) :
    runOn (answerCalls outcomes) (retryLoop o recorded lower scaled config k delay) k =
      ((attemptsField o (countsAttempts recorded lower (outcomes k)) k).map fun _ => outcomes k,
        k + 1) := by
  rw [retryLoop, runOn_act]
  show runOn (answerCalls outcomes) _ (k + 1) = _
  dsimp only [answerCalls]
  cases houtcome : outcomes k with
  | ok result =>
    dsimp only [countsAttempts]
    by_cases hk : 0 < k
    · rw [if_pos hk]
      cases attemptsField o recorded.debug k <;> rfl
    · have hfield : attemptsField o recorded.debug k = some () :=
        attemptsField_of_lt (by omega) o recorded.debug
      rw [if_neg hk, hfield]
      rfl
  | error e =>
    dsimp only [countsAttempts]
    cases htransient : isTransientError lower e with
    | false => rfl
    | true =>
      rw [houtcome] at h
      have hleft : config.maxRetries.toNat ≤ k := by simpa [stops, htransient] using h
      simp only [Bool.not_true, Bool.false_eq_true, if_false, if_pos hleft, Bool.true_and]
      cases attemptsField o recorded.warn k <;> rfl

/-- After a transient error and with a retry left, the loop goes on with the next delay. -/
theorem runOn_again {k : Nat} (hstops : stops lower (outcomes k) = false)
    (hk : k < config.maxRetries.toNat) (delay : Nat) :
    runOn (answerCalls outcomes) (retryLoop o recorded lower scaled config k delay) k =
      match config.nextDelay scaled delay with
      | none => (none, k + 1)
      | some delay =>
        runOn (answerCalls outcomes) (retryLoop o recorded lower scaled config (k + 1) delay)
          (k + 1) := by
  have hfield : attemptsField o recorded.warn k = some () :=
    attemptsField_of_lt (by have := config.maxRetries.toNat_lt; omega) o recorded.warn
  rw [retryLoop, runOn_act]
  show runOn (answerCalls outcomes) _ (k + 1) = _
  dsimp only [answerCalls]
  cases houtcome : outcomes k with
  | ok result =>
    rw [houtcome] at hstops
    cases hstops
  | error e =>
    rw [houtcome] at hstops
    have htransient : isTransientError lower e = true := stops_error hstops
    simp only [htransient, Bool.not_true, Bool.false_eq_true, if_false,
      if_neg (Nat.not_le.mpr hk), hfield]
    show runOn (answerCalls outcomes) _ (k + 1) = _
    cases config.nextDelay scaled delay <;> rfl

theorem delayAfter_none {retries retries' : Nat}
    (h : config.delayAfter scaled retries = none) (hle : retries ≤ retries') :
    config.delayAfter scaled retries' = none := by
  induction retries', hle using Nat.le_induction with
  | base => exact h
  | succ retries' hle ih =>
    show (config.delayAfter scaled retries').bind _ = none
    rw [ih]
    rfl

/-- From a call that is not past the last one on: the loop gets to the last one if all delays up
    to it can be computed, and panics otherwise. -/
theorem runOn_retryLoop {k delay : Nat} (hk : k ≤ config.lastCall lower outcomes)
    (hdelay : config.delayAfter scaled k = some delay) :
    (config.delayAfter scaled (config.lastCall lower outcomes) = none →
      (runOn (answerCalls outcomes) (retryLoop o recorded lower scaled config k delay) k).1
        = none) ∧
    (config.delayAfter scaled (config.lastCall lower outcomes) ≠ none →
      runOn (answerCalls outcomes) (retryLoop o recorded lower scaled config k delay) k =
        ((attemptsField o
            (countsAttempts recorded lower (outcomes (config.lastCall lower outcomes)))
            (config.lastCall lower outcomes)).map
              fun _ => outcomes (config.lastCall lower outcomes),
          config.lastCall lower outcomes + 1)) := by
  induction hleft : config.lastCall lower outcomes - k generalizing k delay with
  | zero =>
    have hlast : k = config.lastCall lower outcomes := by omega
    subst hlast
    have hends : stops lower (outcomes (config.lastCall lower outcomes)) = true ∨
        config.maxRetries.toNat ≤ config.lastCall lower outcomes := by
      rcases (lastCall_cases lower outcomes config.maxRetries.toNat).1 with ⟨-, hstops⟩ | heq
      · exact Or.inl hstops
      · exact Or.inr (Nat.le_of_eq heq.symm)
    refine ⟨fun hnone => ?_, fun _ => runOn_stops hends delay⟩
    rw [hdelay] at hnone
    cases hnone
  | succ left ih =>
    have hlt : k < config.lastCall lower outcomes := by omega
    obtain ⟨hretry, hagain⟩ := again_of_lt hlt
    have hnext : config.delayAfter scaled (k + 1) = config.nextDelay scaled delay := by
      show (config.delayAfter scaled k).bind _ = _
      rw [hdelay]
      rfl
    rw [runOn_again hagain hretry]
    cases hcomputed : config.nextDelay scaled delay with
    | none =>
      rw [hcomputed] at hnext
      exact ⟨fun _ => rfl, fun h => absurd (delayAfter_none hnext hlt) h⟩
    | some delay' => exact ih hlt (hnext.trans hcomputed) (by omega)

/-! ## The law -/

/-- `retry_sync` calls the operation up to the last call, returns what that came to, and does not
    panic. -/
def FollowsLaw (o : Overflow) (recorded : Recorded) (lower : String → String)
    (scaled : Factor → Nat → Option Nat) (config : RetryConfig Factor)
    (outcomes : Nat → Except AnyError T) : Prop :=
  runOn (answerCalls outcomes) (retrySyncIn o recorded lower scaled config) 0 =
    (some (outcomes (config.lastCall lower outcomes)), config.lastCall lower outcomes + 1)

/-- The law in terms of `retrySync`. -/
theorem followsLaw_iff_retrySync :
    FollowsLaw o recorded lower scaled config outcomes ↔
      runOn (answerCalls outcomes) (retrySyncIn o recorded lower scaled config) 0 =
        (some (retrySync (isTransientError lower) outcomes 0 config.maxRetries.toNat).result,
          (retrySync (isTransientError lower) outcomes 0 config.maxRetries.toNat).count) := by
  rw [retrySync_eq]
  rfl

theorem followsLaw_iff_attemptsField :
    FollowsLaw o recorded lower scaled config outcomes ↔
      config.delayAfter scaled (config.lastCall lower outcomes) ≠ none ∧
      attemptsField o (countsAttempts recorded lower (outcomes (config.lastCall lower outcomes)))
        (config.lastCall lower outcomes) ≠ none := by
  obtain ⟨hpanics, hreturns⟩ := @runOn_retryLoop Factor T o recorded lower scaled config outcomes
    0 config.initialDelay (Nat.zero_le _) rfl
  unfold FollowsLaw retrySyncIn
  by_cases hdelay : config.delayAfter scaled (config.lastCall lower outcomes) = none
  · refine ⟨fun h => ?_, fun h => absurd hdelay h.1⟩
    have hnone := hpanics hdelay
    rw [h] at hnone
    cases hnone
  · rw [hreturns hdelay]
    cases attemptsField o _ (config.lastCall lower outcomes) with
    | none => exact ⟨fun h => (by cases h), fun h => absurd rfl h.2⟩
    | some field => exact ⟨fun _ => ⟨hdelay, by simp⟩, fun _ => rfl⟩

end

/-- The law holds exactly where neither computation panics: the delays up to the last call can be
    computed, and that call is not number 2^32 with a count of the attempts in the log of a build
    with overflow checks. -/
theorem retry_law_iff {Factor T : Type} (o : Overflow) (recorded : Recorded)
    (lower : String → String) (scaled : Factor → Nat → Option Nat) (config : RetryConfig Factor)
    (outcomes : Nat → Except AnyError T) :
    FollowsLaw o recorded lower scaled config outcomes ↔
      config.delayAfter scaled (config.lastCall lower outcomes) ≠ none ∧
      ¬ (o = .panics ∧ config.lastCall lower outcomes = 2 ^ 32 - 1 ∧
        countsAttempts recorded lower (outcomes (config.lastCall lower outcomes)) = true) := by
  have hle : config.lastCall lower outcomes ≤ config.maxRetries.toNat := lastCall_le ..
  have hmax := config.maxRetries.toNat_lt
  rw [followsLaw_iff_attemptsField]
  refine and_congr_right fun _ => not_congr ?_
  rw [attemptsField_eq_none_iff]
  constructor
  · rintro ⟨ho, hcounts, hlast⟩
    exact ⟨ho, by omega, hcounts⟩
  · rintro ⟨ho, hlast, hcounts⟩
    exact ⟨ho, hcounts, by omega⟩

/-! ## The configurations of the source -/

section

variable {Factor T : Type} {scaled : Factor → Nat → Option Nat} {config : RetryConfig Factor}

/-- Where the short delays can be scaled, all delays of a configuration can be computed. -/
theorem delayAfter_ne_none
    (h : ∀ delay ≤ max config.initialDelay config.maxDelay, scaled config.factor delay ≠ none)
    (retries : Nat) : config.delayAfter scaled retries ≠ none := by
  suffices hbounded : ∃ delay ≤ max config.initialDelay config.maxDelay,
      config.delayAfter scaled retries = some delay by
    obtain ⟨delay, -, hdelay⟩ := hbounded
    rw [hdelay]
    exact Option.some_ne_none delay
  induction retries with
  | zero => exact ⟨config.initialDelay, Nat.le_max_left _ _, rfl⟩
  | succ retries ih =>
    obtain ⟨delay, hle, hdelay⟩ := ih
    obtain ⟨product, hproduct⟩ := Option.ne_none_iff_exists'.mp (h delay hle)
    refine ⟨min product config.maxDelay,
      Nat.le_trans (Nat.min_le_right _ _) (Nat.le_max_right _ _), ?_⟩
    show (config.delayAfter scaled retries).bind _ = _
    rw [hdelay]
    show (scaled config.factor delay).map _ = _
    rw [hproduct]
    rfl

/-- The presets follow the law in both builds, if doubling a delay of half a minute at most does
    not panic. -/
theorem followsLaw_of_preset {two : Factor} (htwo : ∀ delay ≤ secs 30, scaled two delay ≠ none)
    (hpreset : config ∈ [RetryConfig.default two, .quick two, .network two, .critical two])
    (o : Overflow) (recorded : Recorded) (lower : String → String)
    (outcomes : Nat → Except AnyError T) :
    FollowsLaw o recorded lower scaled config outcomes := by
  have hshort : config.factor = two ∧ max config.initialDelay config.maxDelay ≤ secs 30 ∧
      config.maxRetries.toNat ≤ 5 := by
    simp only [List.mem_cons, List.not_mem_nil, or_false] at hpreset
    rcases hpreset with rfl | rfl | rfl | rfl <;>
      simp [RetryConfig.default, RetryConfig.quick, RetryConfig.network, RetryConfig.critical,
        millis, secs]
  obtain ⟨hfactor, hmax, hretries⟩ := hshort
  have hle : config.lastCall lower outcomes ≤ config.maxRetries.toNat := lastCall_le ..
  refine followsLaw_iff_attemptsField.mpr ⟨?_, ?_⟩
  · refine delayAfter_ne_none (fun delay hdelay => ?_) _
    rw [hfactor]
    exact htwo delay (Nat.le_trans hdelay hmax)
  · rw [attemptsField_of_lt (by omega)]
    exact Option.some_ne_none ()

end

/-! ## Two ways out of the law -/

/-- Products of whole factors, refused from 2^64 seconds on. -/
def wholeScaled (factor delay : Nat) : Option Nat :=
  if factor * delay < secs (2 ^ 64) then some (factor * delay) else none

/-- A connection that is reset at the first call. -/
def resetOnce (call : Nat) : Except AnyError Unit :=
  if call = 0 then .error ⟨"connection reset by peer", []⟩ else .ok ()

theorem lastCall_of_never {T : Type} {lower : String → String} {outcomes : Nat → Except AnyError T}
    (h : ∀ i, stops lower (outcomes i) = false) (maxRetries : Nat) :
    lastCall lower outcomes maxRetries = maxRetries := by
  rcases (lastCall_cases lower outcomes maxRetries).1 with ⟨-, hstops⟩ | heq
  · rw [h] at hstops
    cases hstops
  · exact heq

/-- The log of the last of 2^32 calls without a pause panics, and so does the delay after the first
    call with a factor of 2^100, long before the cap of ten seconds. -/
theorem retry_law_broken :
    ¬ FollowsLaw .panics ⟨true, true⟩ toAsciiLowercase wholeScaled
      (((RetryConfig.quick 2).withInitialDelay 0).withMaxRetries 0xFFFFFFFF) connectionReset ∧
    ∀ o, ¬ FollowsLaw o ⟨true, true⟩ toAsciiLowercase wholeScaled (RetryConfig.default (2 ^ 100))
      resetOnce := by
  have hreset : isTransientError toAsciiLowercase ⟨"connection reset by peer", []⟩ = true := by
    decide
  have hagain : stops toAsciiLowercase
      (.error ⟨"connection reset by peer", []⟩ : Except AnyError Unit) = false :=
    congrArg (!·) hreset
  constructor
  · have hnever : ∀ i, stops toAsciiLowercase (connectionReset i) = false := fun _ => hagain
    intro h
    refine (followsLaw_iff_attemptsField.mp h).2 (attemptsField_eq_none_iff.mpr ⟨rfl, ?_, ?_⟩)
    · show (isTransientError toAsciiLowercase ⟨"connection reset by peer", []⟩ && true) = true
      rw [hreset]
      rfl
    · rw [RetryConfig.lastCall, lastCall_of_never hnever]
      have hmax : (0xFFFFFFFF : UInt32).toNat = 2 ^ 32 - 1 := by simp
      show ¬ (0xFFFFFFFF : UInt32).toNat + 1 < 2 ^ 32
      rw [hmax]
      simp
  · intro o h
    have hlast : (RetryConfig.default (2 ^ 100)).lastCall toAsciiLowercase resetOnce = 1 := by
      have hfirst : stops toAsciiLowercase (resetOnce 0) = false := hagain
      show ((([0, 1, 2] : List Nat).find? fun i => stops toAsciiLowercase (resetOnce i)).getD 3) = 1
      rw [List.find?_cons_of_neg (by rw [hfirst]; decide), List.find?_cons_of_pos (by rfl)]
      rfl
    have hdelay := (followsLaw_iff_attemptsField.mp h).1
    rw [hlast] at hdelay
    refine hdelay ?_
    have hrefused : wholeScaled (2 ^ 100) (millis 500) = none := by
      simp [wholeScaled, millis, secs]
    show (wholeScaled (2 ^ 100) (millis 500)).map (fun delay => min delay (secs 10)) = none
    rw [hrefused]
    rfl

end Mik.Reliability
