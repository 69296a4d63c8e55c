/-
  The breaker of a load-balancer backend as the cells it is kept in
  (`src/runtime/lb/circuit_breaker.rs`): one atomic byte for the state, two atomic counters of 32
  bits, and the instant behind a lock.

  `CircuitBreaker` has the counters as numbers. Here they are as wide as in the source, and what
  `fetch_add(1) + 1` cannot represent is no value: an operation that overflows returns `none`.
  `Stands` says which automaton the cells stand for, and so which of them are stale: while the
  circuit is closed the successes and the instant, while it is open both counters, while it is half
  open the failures. A counter that counts is below its threshold, so it can be increased.
-/
import Mik.Lb.CircuitBreaker

namespace Mik.Lb

/-! ## The cells -/

/-- `CircuitBreakerConfig` with the widths of the source. -/
structure CellsConfig where
  failureThreshold : UInt32
  successThreshold : UInt32
  timeout : Nat

/-- The same configuration in numbers. -/
def CellsConfig.toConfig (config : CellsConfig) : CircuitBreakerConfig :=
  ⟨config.failureThreshold.toNat, config.successThreshold.toNat, config.timeout⟩

/-- `CircuitBreakerState as u8`. -/
def CircuitBreakerState.toU8 : CircuitBreakerState → UInt8
  | closed => 0
  | opened => 1
  | halfOpen => 2

/-- `From<u8> for CircuitBreakerState`. -/
def CircuitBreakerState.ofU8 (value : UInt8) : CircuitBreakerState :=
  if value = 1 then opened else if value = 2 then halfOpen else closed

@[simp] theorem CircuitBreakerState.ofU8_toU8 (s : CircuitBreakerState) : ofU8 s.toU8 = s := by
  cases s <;> rfl

structure BreakerCells where
  state : UInt8
  failureCount : UInt32
  successCount : UInt32
  openedAt : Option Nat

/-- `fetch_add(1) + 1`; the sum may not fit. -/
def increased (count : UInt32) : Option UInt32 :=
  if count.toNat + 1 < UInt32.size then some (count + 1) else none

namespace BreakerCells

def new : BreakerCells := ⟨CircuitBreakerState.closed.toU8, 0, 0, none⟩

def transitionToOpen (c : BreakerCells) (now : Nat) : BreakerCells :=
  { c with state := CircuitBreakerState.opened.toU8, successCount := 0, openedAt := some now }

def transitionToHalfOpen (c : BreakerCells) : BreakerCells :=
  { c with state := CircuitBreakerState.halfOpen.toU8, successCount := 0, failureCount := 0 }

def transitionToClosed (_ : BreakerCells) : BreakerCells :=
  ⟨CircuitBreakerState.closed.toU8, 0, 0, none⟩

/-- `state()`: the state it returns, and the cells it leaves. -/
def currentState (config : CellsConfig) (c : BreakerCells) (elapsedAt : Nat) :
    CircuitBreakerState × BreakerCells :=
  match CircuitBreakerState.ofU8 c.state, c.openedAt with
  | .opened, some openedAt =>
    if config.timeout ≤ elapsedAt - openedAt then (.halfOpen, c.transitionToHalfOpen)
    else (.opened, c)
  | state, _ => (state, c)

def isAvailable (config : CellsConfig) (c : BreakerCells) (elapsedAt : Nat) :
    Bool × BreakerCells :=
  ((c.currentState config elapsedAt).1 ≠ .opened, (c.currentState config elapsedAt).2)

def recordSuccess (config : CellsConfig) (c : BreakerCells) (elapsedAt : Nat) :
    Option BreakerCells :=
  let c' := (c.currentState config elapsedAt).2
  match (c.currentState config elapsedAt).1 with
  | .closed => some { c' with failureCount := 0 }
  | .halfOpen =>
    match increased c'.successCount with
    | none => none
    | some successes =>
      if config.successThreshold ≤ successes then
        some { c' with successCount := successes }.transitionToClosed
      else some { c' with successCount := successes }
  | .opened => some c'

def recordFailure (config : CellsConfig) (c : BreakerCells) (elapsedAt now : Nat) :
    Option BreakerCells :=
  let c' := (c.currentState config elapsedAt).2
  match (c.currentState config elapsedAt).1 with
  | .closed =>
    match increased c'.failureCount with
    | none => none
    | some failures =>
      if config.failureThreshold ≤ failures then
        some ({ c' with failureCount := failures }.transitionToOpen now)
      else some { c' with failureCount := failures }
  | .halfOpen => some (c'.transitionToOpen now)
  | .opened => some c'

def reset (c : BreakerCells) : BreakerCells := c.transitionToClosed

end BreakerCells

/-! ## Histories -/

inductive BreakerCall where
  | state
  | isAvailable
  | recordSuccess
  | recordFailure
  | reset
  deriving DecidableEq, Repr

/-- A call with the readings of the clock: the one of `elapsed`, and the one that a circuit which
    opens is stamped with. -/
structure TimedCall where
  call : BreakerCall
  elapsedAt : Nat
  now : Nat
  deriving DecidableEq, Repr

inductive BreakerReply where
  | state (s : CircuitBreakerState)
  | available (yes : Bool)
  | done
  deriving DecidableEq, Repr

/-- One call on the cells. -/
def BreakerCells.step (config : CellsConfig) (c : BreakerCells) (e : TimedCall) :
    Option (BreakerReply × BreakerCells) :=
  match e.call with
  | .state =>
    some (.state (c.currentState config e.elapsedAt).1, (c.currentState config e.elapsedAt).2)
  | .isAvailable =>
    some (.available (c.isAvailable config e.elapsedAt).1, (c.isAvailable config e.elapsedAt).2)
  | .recordSuccess => (c.recordSuccess config e.elapsedAt).map fun c' => (.done, c')
  | .recordFailure => (c.recordFailure config e.elapsedAt e.now).map fun c' => (.done, c')
  | .reset => some (.done, c.reset)

/-- One call on the documented automaton. -/
def Automaton.step (config : CircuitBreakerConfig) (a : Automaton) (e : TimedCall) :
    BreakerReply × Automaton :=
  match e.call with
  | .state => (.state (a.tick config e.elapsedAt).kind, a.tick config e.elapsedAt)
  | .isAvailable =>
    (.available ((a.tick config e.elapsedAt).kind ≠ .opened), a.tick config e.elapsedAt)
  | .recordSuccess => (.done, a.success config e.elapsedAt)
  | .recordFailure => (.done, a.failure config e.elapsedAt e.now)
  | .reset => (.done, .closed 0)

/-- The replies of a history of calls, and the cells it leaves; none if an operation overflows. -/
def BreakerCells.history (config : CellsConfig) (c : BreakerCells) :
    List TimedCall → Option (List BreakerReply × BreakerCells)
  | [] => some ([], c)
  | e :: es =>
    match c.step config e with
    | none => none
    | some (reply, c') => (c'.history config es).map fun r => (reply :: r.1, r.2)

def Automaton.history (config : CircuitBreakerConfig) (a : Automaton) :
    List TimedCall → List BreakerReply × Automaton
  | [] => ([], a)
  | e :: es =>
    ((a.step config e).1 :: ((a.step config e).2.history config es).1,
      ((a.step config e).2.history config es).2)

/-! ## What the cells stand for -/

/-- The cells and the automaton they stand for. -/
inductive Stands (config : CellsConfig) (c : BreakerCells) : Automaton → Prop where
  | closed (hstate : c.state = CircuitBreakerState.closed.toU8)
      (hcount : c.failureCount < config.failureThreshold) :
      Stands config c (.closed c.failureCount.toNat)
  | opened {since : Nat} (hstate : c.state = CircuitBreakerState.opened.toU8)
      (hopened : c.openedAt = some since) : Stands config c (.opened since)
  | halfOpen (hstate : c.state = CircuitBreakerState.halfOpen.toU8)
      (hcount : c.successCount < config.successThreshold) :
      Stands config c (.halfOpen c.successCount.toNat)

/-- A counter below a threshold can be increased. -/
theorem increased_of_lt {count threshold : UInt32} (h : count < threshold) :
    ∃ next, increased count = some next ∧ next.toNat = count.toNat + 1 := by
  have hlt : count.toNat < threshold.toNat := h
  have hsize := threshold.toNat_lt
  have hfits : count.toNat + 1 < UInt32.size := by
    have hval : UInt32.size = 2 ^ 32 := rfl
    omega
  refine ⟨count + 1, if_pos hfits, ?_⟩
  rw [UInt32.toNat_add]
  exact Nat.mod_eq_of_lt hfits

section

variable {config : CellsConfig} {c : BreakerCells} {a : Automaton}

/-- Asking for the state lets the timeout pass in the automaton, and tells its kind. -/
theorem stands_currentState (hsuccess : 1 ≤ config.successThreshold) (h : Stands config c a)
    (t : Nat) :
    (c.currentState config t).1 = (a.tick config.toConfig t).kind ∧
      Stands config (c.currentState config t).2 (a.tick config.toConfig t) := by
  cases h with
  | closed hstate hcount =>
    have hcurrent : c.currentState config t = (.closed, c) := by
      unfold BreakerCells.currentState
      rw [hstate, CircuitBreakerState.ofU8_toU8]
    rw [hcurrent]
    exact ⟨rfl, .closed hstate hcount⟩
  | halfOpen hstate hcount =>
    have hcurrent : c.currentState config t = (.halfOpen, c) := by
      unfold BreakerCells.currentState
      rw [hstate, CircuitBreakerState.ofU8_toU8]
    rw [hcurrent]
    exact ⟨rfl, .halfOpen hstate hcount⟩
  | @opened since hstate hopened =>
    unfold BreakerCells.currentState Automaton.tick
    rw [hstate, CircuitBreakerState.ofU8_toU8, hopened]
    dsimp only
    have htimeout : config.toConfig.timeout = config.timeout := rfl
    rw [htimeout]
    by_cases hpassed : config.timeout ≤ t - since
    · rw [if_pos hpassed, if_pos hpassed]
      exact ⟨rfl, .halfOpen rfl hsuccess⟩
    · rw [if_neg hpassed, if_neg hpassed]
      exact ⟨rfl, .opened hstate hopened⟩

theorem stands_recordSuccess (hfailure : 1 ≤ config.failureThreshold)
    (hsuccess : 1 ≤ config.successThreshold) (h : Stands config c a) (t : Nat) :
    ∃ c', c.recordSuccess config t = some c' ∧
      Stands config c' (a.success config.toConfig t) := by
  obtain ⟨hfst, hstands⟩ := stands_currentState hsuccess h t
  unfold BreakerCells.recordSuccess Automaton.success
  rw [hfst]
  revert hstands
  generalize (c.currentState config t).2 = c'
  generalize a.tick config.toConfig t = a'
  intro hstands
  cases hstands with
  | closed hstate hcount => exact ⟨_, rfl, .closed hstate hfailure⟩
  | opened hstate hopened => exact ⟨_, rfl, .opened hstate hopened⟩
  | halfOpen hstate hcount =>
    obtain ⟨next, hnext, hval⟩ := increased_of_lt hcount
    dsimp only [Automaton.kind]
    rw [hnext]
    dsimp only
    have hle : config.successThreshold ≤ next ↔
        config.toConfig.successThreshold ≤ c'.successCount.toNat + 1 := by
      rw [← hval]
      exact Iff.rfl
    by_cases hreached : config.successThreshold ≤ next
    · rw [if_pos hreached, if_pos (hle.mp hreached)]
      exact ⟨_, rfl, .closed rfl hfailure⟩
    · rw [if_neg hreached, if_neg fun hno => hreached (hle.mpr hno), ← hval]
      exact ⟨_, rfl, .halfOpen hstate (UInt32.not_le.mp hreached)⟩

theorem stands_recordFailure (hsuccess : 1 ≤ config.successThreshold) (h : Stands config c a)
    (t now : Nat) :
    ∃ c', c.recordFailure config t now = some c' ∧
      Stands config c' (a.failure config.toConfig t now) := by
  obtain ⟨hfst, hstands⟩ := stands_currentState hsuccess h t
  unfold BreakerCells.recordFailure Automaton.failure
  rw [hfst]
  revert hstands
  generalize (c.currentState config t).2 = c'
  generalize a.tick config.toConfig t = a'
  intro hstands
  cases hstands with
  | halfOpen hstate hcount => exact ⟨_, rfl, .opened rfl rfl⟩
  | opened hstate hopened => exact ⟨_, rfl, .opened hstate hopened⟩
  | closed hstate hcount =>
    obtain ⟨next, hnext, hval⟩ := increased_of_lt hcount
    dsimp only [Automaton.kind]
    rw [hnext]
    dsimp only
    have hle : config.failureThreshold ≤ next ↔
        config.toConfig.failureThreshold ≤ c'.failureCount.toNat + 1 := by
      rw [← hval]
      exact Iff.rfl
    by_cases hreached : config.failureThreshold ≤ next
    · rw [if_pos hreached, if_pos (hle.mp hreached)]
      exact ⟨_, rfl, .opened rfl rfl⟩
    · rw [if_neg hreached, if_neg fun hno => hreached (hle.mpr hno), ← hval]
      exact ⟨_, rfl, .closed hstate (UInt32.not_le.mp hreached)⟩

/-- One call on the cells is the call on the automaton, and does not overflow. -/
theorem step_stands (hfailure : 1 ≤ config.failureThreshold)
    (hsuccess : 1 ≤ config.successThreshold) (h : Stands config c a) (e : TimedCall) :
    ∃ c', c.step config e = some ((a.step config.toConfig e).1, c') ∧
      Stands config c' (a.step config.toConfig e).2 := by
  obtain ⟨call, t, now⟩ := e
  cases call with
  | state =>
    obtain ⟨hfst, hstands⟩ := stands_currentState hsuccess h t
    refine ⟨_, ?_, hstands⟩
    unfold BreakerCells.step Automaton.step
    dsimp only
    rw [hfst]
  | isAvailable =>
    obtain ⟨hfst, hstands⟩ := stands_currentState hsuccess h t
    refine ⟨_, ?_, hstands⟩
    unfold BreakerCells.step BreakerCells.isAvailable Automaton.step
    dsimp only
    rw [hfst]
  | recordSuccess =>
    obtain ⟨c', hc', hstands⟩ := stands_recordSuccess hfailure hsuccess h t
    refine ⟨c', ?_, hstands⟩
    unfold BreakerCells.step
    dsimp only
    rw [hc']
    rfl
  | recordFailure =>
    obtain ⟨c', hc', hstands⟩ := stands_recordFailure hsuccess h t now
    refine ⟨c', ?_, hstands⟩
    unfold BreakerCells.step
    dsimp only
    rw [hc']
    rfl
  | reset => exact ⟨_, rfl, .closed rfl hfailure⟩

/-- So is a history of calls. -/
theorem history_stands (hfailure : 1 ≤ config.failureThreshold)
    (hsuccess : 1 ≤ config.successThreshold) (h : Stands config c a) (es : List TimedCall) :
    ∃ c', c.history config es = some ((a.history config.toConfig es).1, c') ∧
      Stands config c' (a.history config.toConfig es).2 := by
  induction es generalizing c a with
  | nil => exact ⟨c, rfl, h⟩
  | cons e es ih =>
    obtain ⟨c₁, hstep, hstands⟩ := step_stands hfailure hsuccess h e
    obtain ⟨c', hrest, hlast⟩ := ih hstands
    refine ⟨c', ?_, hlast⟩
    unfold BreakerCells.history Automaton.history
    rw [hstep]
    dsimp only
    rw [hrest]
    rfl

end

/-- The breaker is the documented automaton: whatever the calls and the readings of the clock, no
    counter overflows, every call replies what the automaton does, and at any time after them the
    state and the availability are those of the automaton. -/
theorem breaker_documented (config : CellsConfig) (hfailure : 1 ≤ config.failureThreshold)
    (hsuccess : 1 ≤ config.successThreshold) (es : List TimedCall) :
    ∃ c, BreakerCells.new.history config es =
        some (((Automaton.closed 0).history config.toConfig es).1, c) ∧
      ∀ t, (c.currentState config t).1 =
          (((Automaton.closed 0).history config.toConfig es).2.tick config.toConfig t).kind ∧
        ((c.isAvailable config t).1 = true ↔
          (((Automaton.closed 0).history config.toConfig es).2.tick config.toConfig t).kind ≠
            .opened) := by
  have hnew : Stands config .new (.closed 0) := .closed rfl hfailure
  obtain ⟨c, hhistory, hstands⟩ := history_stands hfailure hsuccess hnew es
  refine ⟨c, hhistory, fun t => ?_⟩
  have hstate := (stands_currentState hsuccess hstands t).1
  refine ⟨hstate, ?_⟩
  unfold BreakerCells.isAvailable
  rw [hstate, decide_eq_true_iff]

/-- Two failures open the circuit, a success after the timeout leaves it half open, a failure opens
    it again with a new timer, and two successes close it. -/
theorem breaker_documented_round :
    ∃ c, BreakerCells.new.history ⟨2, 2, 10⟩
        [⟨.recordFailure, 0, 1⟩, ⟨.recordFailure, 2, 3⟩, ⟨.isAvailable, 12, 12⟩,
          ⟨.recordSuccess, 13, 13⟩, ⟨.recordFailure, 14, 15⟩, ⟨.state, 24, 24⟩,
          ⟨.recordSuccess, 25, 25⟩, ⟨.recordSuccess, 26, 26⟩] =
        some ([.done, .done, .available false, .done, .done, .state .opened, .done, .done], c) ∧
      (c.currentState ⟨2, 2, 10⟩ 26).1 = .closed := by
  obtain ⟨c, hhistory, hlater⟩ := breaker_documented ⟨2, 2, 10⟩ (by decide) (by decide)
    [⟨.recordFailure, 0, 1⟩, ⟨.recordFailure, 2, 3⟩, ⟨.isAvailable, 12, 12⟩,
      ⟨.recordSuccess, 13, 13⟩, ⟨.recordFailure, 14, 15⟩, ⟨.state, 24, 24⟩,
      ⟨.recordSuccess, 25, 25⟩, ⟨.recordSuccess, 26, 26⟩]
  exact ⟨c, hhistory, (hlater 26).1⟩

end Mik.Lb
