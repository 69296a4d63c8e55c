/-
  The circuit breaker of one load-balancer backend (`src/runtime/lb/circuit_breaker.rs`), and
  the automaton its documentation draws.

  Times are nanoseconds; `Nat` subtraction is `Instant::elapsed`, which saturates. `state` is
  lazy: it turns Open into HalfOpen when it is asked after the timeout. A call reads the clock
  for that (`elapsedAt`) and once more when it opens the circuit (`now`). The counters are
  atomics of 32 bits; a failure count stays at most the threshold, so they are `Nat` here.

  `Automaton` is the diagram: Closed counts failures, Open remembers when it opened, HalfOpen
  counts successes. Every operation of the code is the one of the automaton (`abs_state`,
  `abs_recordSuccess`, `abs_recordFailure`).
-/
import Mathlib.Data.List.Basic

namespace Mik.Lb

structure CircuitBreakerConfig where
  failureThreshold : Nat
  successThreshold : Nat
  timeout : Nat
  deriving DecidableEq, Repr

/-- `CircuitBreakerConfig::new`. -/
def CircuitBreakerConfig.new (failureThreshold successThreshold timeout : Nat) :
    CircuitBreakerConfig :=
  ⟨max failureThreshold 1, max successThreshold 1, timeout⟩

inductive CircuitBreakerState where
  | closed
  | opened
  | halfOpen
  deriving DecidableEq, Repr

structure CircuitBreaker where
  config : CircuitBreakerConfig
  state : CircuitBreakerState
  failureCount : Nat
  successCount : Nat
  openedAt : Option Nat
  /-- An open circuit knows when it was opened. -/
  opened_isSome : state = .opened → openedAt.isSome

namespace CircuitBreaker

def new (config : CircuitBreakerConfig) : CircuitBreaker where
  config := config
  state := .closed
  failureCount := 0
  successCount := 0
  openedAt := none
  opened_isSome := by simp

/-! ## Transitions -/

def transitionToOpen (cb : CircuitBreaker) (now : Nat) : CircuitBreaker where
  config := cb.config
  state := .opened
  failureCount := cb.failureCount
  successCount := 0
  openedAt := some now
  opened_isSome := fun _ => rfl

def transitionToHalfOpen (cb : CircuitBreaker) : CircuitBreaker where
  config := cb.config
  state := .halfOpen
  failureCount := 0
  successCount := 0
  openedAt := cb.openedAt
  opened_isSome := by simp

def transitionToClosed (cb : CircuitBreaker) : CircuitBreaker where
  config := cb.config
  state := .closed
  failureCount := 0
  successCount := 0
  openedAt := none
  opened_isSome := by simp

/-- `state()`: the current state, and the breaker it leaves. -/
def currentState (cb : CircuitBreaker) (elapsedAt : Nat) : CircuitBreakerState × CircuitBreaker :=
  match cb.state, cb.openedAt with
  | .opened, some openedAt =>
    if cb.config.timeout ≤ elapsedAt - openedAt then (.halfOpen, cb.transitionToHalfOpen)
    else (.opened, cb)
  | state, _ => (state, cb)

def isAvailable (cb : CircuitBreaker) (elapsedAt : Nat) : Bool × CircuitBreaker :=
  ((cb.currentState elapsedAt).1 ≠ .opened, (cb.currentState elapsedAt).2)

/-- `failure_count.store(n)`. -/
def setFailureCount (cb : CircuitBreaker) (n : Nat) : CircuitBreaker :=
  { cb with failureCount := n }

/-- `success_count.fetch_add(1)`, as a store. -/
def setSuccessCount (cb : CircuitBreaker) (n : Nat) : CircuitBreaker :=
  { cb with successCount := n }

def recordSuccess (cb : CircuitBreaker) (elapsedAt : Nat) : CircuitBreaker :=
  let cb' := (cb.currentState elapsedAt).2
  match (cb.currentState elapsedAt).1 with
  | .closed => cb'.setFailureCount 0
  | .halfOpen =>
    let successes := cb'.successCount + 1
    if cb'.config.successThreshold ≤ successes then
      (cb'.setSuccessCount successes).transitionToClosed
    else cb'.setSuccessCount successes
  | .opened => cb'

def recordFailure (cb : CircuitBreaker) (elapsedAt now : Nat) : CircuitBreaker :=
  let cb' := (cb.currentState elapsedAt).2
  match (cb.currentState elapsedAt).1 with
  | .closed =>
    let failures := cb'.failureCount + 1
    if cb'.config.failureThreshold ≤ failures then
      (cb'.setFailureCount failures).transitionToOpen now
    else cb'.setFailureCount failures
  | .halfOpen => cb'.transitionToOpen now
  | .opened => cb'

end CircuitBreaker

/-! ## The documented automaton -/

inductive Automaton where
  | closed (failures : Nat)
  | opened (since : Nat)
  | halfOpen (successes : Nat)
  deriving DecidableEq, Repr

namespace Automaton

def kind : Automaton → CircuitBreakerState
  | closed _ => .closed
  | opened _ => .opened
  | halfOpen _ => .halfOpen

/-- The timeout may have elapsed by `t`. -/
def tick (config : CircuitBreakerConfig) (t : Nat) : Automaton → Automaton
  | opened s => if config.timeout ≤ t - s then halfOpen 0 else opened s
  | a => a

/-- A success, observed at `t`. -/
def success (config : CircuitBreakerConfig) (t : Nat) (a : Automaton) : Automaton :=
  match a.tick config t with
  | closed _ => closed 0
  | halfOpen n => if config.successThreshold ≤ n + 1 then closed 0 else halfOpen (n + 1)
  | opened s => opened s

/-- A failure, observed at `t` and recorded at `now`. -/
def failure (config : CircuitBreakerConfig) (t now : Nat) (a : Automaton) : Automaton :=
  match a.tick config t with
  | closed n => if config.failureThreshold ≤ n + 1 then opened now else closed (n + 1)
  | halfOpen _ => opened now
  | opened s => opened s

end Automaton

/-- The automaton state a breaker stands for. -/
def CircuitBreaker.abs (cb : CircuitBreaker) : Automaton :=
  match cb.state with
  | .closed => .closed cb.failureCount
  | .opened => .opened (cb.openedAt.getD 0)
  | .halfOpen => .halfOpen cb.successCount

@[simp] theorem config_currentState (cb : CircuitBreaker) (t : Nat) :
    (cb.currentState t).2.config = cb.config := by
  unfold CircuitBreaker.currentState
  split
  · split
    · rfl
    · rfl
  · rfl

/-- Asking for the state lets the timeout pass in the automaton, and reports its kind. -/
theorem abs_currentState (cb : CircuitBreaker) (t : Nat) :
    (cb.currentState t).2.abs = cb.abs.tick cb.config t ∧
      (cb.currentState t).1 = (cb.abs.tick cb.config t).kind := by
  cases hstate : cb.state with
  | closed => simp [CircuitBreaker.currentState, CircuitBreaker.abs, hstate, Automaton.tick,
      Automaton.kind]
  | halfOpen => simp [CircuitBreaker.currentState, CircuitBreaker.abs, hstate, Automaton.tick,
      Automaton.kind]
  | opened =>
    obtain ⟨s, hs⟩ := Option.isSome_iff_exists.mp (cb.opened_isSome hstate)
    have habs : cb.abs = .opened s := by simp [CircuitBreaker.abs, hstate, hs]
    unfold CircuitBreaker.currentState
    rw [hstate, hs, habs]
    by_cases ht : cb.config.timeout ≤ t - s
    · simp [Automaton.tick, ht, CircuitBreaker.abs, CircuitBreaker.transitionToHalfOpen,
        Automaton.kind]
    · simp [Automaton.tick, ht, habs, Automaton.kind]

/-- The reported state is the stored one of the breaker that is left. -/
theorem currentState_fst (cb : CircuitBreaker) (t : Nat) :
    (cb.currentState t).1 = (cb.currentState t).2.state := by
  unfold CircuitBreaker.currentState
  split
  · next h _ =>
    split
    · rfl
    · exact h.symm
  · rfl

theorem abs_recordSuccess (cb : CircuitBreaker) (t : Nat) :
    (cb.recordSuccess t).abs = cb.abs.success cb.config t := by
  have hfst := currentState_fst cb t
  have hconfig := config_currentState cb t
  unfold CircuitBreaker.recordSuccess Automaton.success
  rw [← (abs_currentState cb t).1, hfst]
  cases hs : (cb.currentState t).2.state with
  | closed => simp [CircuitBreaker.abs, hs, CircuitBreaker.setFailureCount]
  | opened => simp [CircuitBreaker.abs, hs]
  | halfOpen =>
    simp only [CircuitBreaker.abs, hs, hconfig]
    by_cases hle : cb.config.successThreshold ≤ (cb.currentState t).2.successCount + 1
    · simp [hle, CircuitBreaker.transitionToClosed]
    · simp [hle, CircuitBreaker.setSuccessCount, hs]

theorem abs_recordFailure (cb : CircuitBreaker) (t now : Nat) :
    (cb.recordFailure t now).abs = cb.abs.failure cb.config t now := by
  have hfst := currentState_fst cb t
  have hconfig := config_currentState cb t
  unfold CircuitBreaker.recordFailure Automaton.failure
  rw [← (abs_currentState cb t).1, hfst]
  cases hs : (cb.currentState t).2.state with
  | closed =>
    simp only [CircuitBreaker.abs, hs, hconfig]
    by_cases hle : cb.config.failureThreshold ≤ (cb.currentState t).2.failureCount + 1
    · simp [hle, CircuitBreaker.transitionToOpen]
    · simp [hle, CircuitBreaker.setFailureCount, hs]
  | opened => simp [CircuitBreaker.abs, hs]
  | halfOpen => simp [CircuitBreaker.abs, hs, CircuitBreaker.transitionToOpen]

end Mik.Lb
