/-
  The per-key circuit breaker of `reliability::CircuitBreaker`
  (`src/reliability/circuit_breaker/`).

  The moka cache `states` is a finite map; `andComputeWith` is its per-entry compute, one
  atomic step. Instants and durations are nanoseconds. `checkRequest` reads the clock twice:
  `elapsedAt` for the age of the stored state, `startedAt` for the probe it may start; `Nat`
  subtraction is `Instant::elapsed`, which saturates at zero. `recordFailure` reads it once.
  Failure counts are `u32` with `saturating_add`.

  `Call` is one call on the breaker and `exec` its effect; `evict` is moka dropping an entry
  (capacity or idle time), which no call of the API asks for. `lookup_exec_of_ne` is the frame
  fact: a call changes the entry of its own key only.
-/
import Mathlib.Data.List.AList
import Mik.Lib.Run

namespace Mik.Reliability

open Mik.Lib

/-- `u32::MAX`. -/
def u32Max : Nat := 4294967295

/-- `u32::saturating_add`. -/
def saturatingAdd (a b : Nat) : Nat := min (a + b) u32Max

structure CircuitBreakerConfig where
  failureThreshold : Nat
  timeout : Nat
  probeTimeout : Nat
  maxTrackedKeys : Nat
  idleTimeout : Nat
  thresholdFits : failureThreshold ≤ u32Max

/-- `CircuitBreakerConfig::default`. -/
def CircuitBreakerConfig.default : CircuitBreakerConfig where
  failureThreshold := 5
  timeout := 60 * 1000000000
  probeTimeout := 60 * 1000000000
  maxTrackedKeys := 1000
  idleTimeout := 600 * 1000000000
  thresholdFits := by decide

inductive CircuitState where
  | closed (failureCount : Nat)
  | opened (openedAt : Nat) (failureCount : Nat)
  | halfOpen (startedAt : Nat)
  deriving DecidableEq, Repr

inductive CircuitOpenReason where
  | opened
  | probeInFlight
  deriving DecidableEq, Repr

structure CircuitOpenError where
  key : String
  failureCount : Nat
  reason : CircuitOpenReason
  deriving DecidableEq, Repr

/-- The `Display` text of a `CircuitOpenError`. -/
def CircuitOpenError.toString (e : CircuitOpenError) : String :=
  match e.reason with
  | .opened =>
    "Circuit breaker open for '" ++ e.key ++ "' (failures: " ++ e.failureCount.repr ++ ")"
  | .probeInFlight =>
    "Circuit breaker for '" ++ e.key ++ "' is testing recovery (probe in flight)"

/-- moka's `Op`, the verdict of a compute closure (the breaker never removes an entry). -/
inductive Op where
  | nop
  | put (state : CircuitState)
  deriving DecidableEq, Repr

abbrev States := AList fun _ : String => CircuitState

/-- moka's `entry_by_ref(key).and_compute_with(f)`. -/
def andComputeWith (states : States) (key : String) (f : Option CircuitState → Op) : States :=
  match f (states.lookup key) with
  | .nop => states
  | .put s => states.insert key s

structure CircuitBreaker where
  states : States
  config : CircuitBreakerConfig

/-- `CircuitBreaker::with_config`. -/
def CircuitBreaker.withConfig (config : CircuitBreakerConfig) : CircuitBreaker :=
  ⟨∅, config⟩

/-! ## The operations -/

/-- The compute closure of `check_request`: the entry's new state and, when the request is
    not allowed, the `error_info` of the rejection. -/
def checkDecision (config : CircuitBreakerConfig) (elapsedAt startedAt : Nat) :
    Option CircuitState → Op × Option (Nat × CircuitOpenReason)
  | none => (.nop, none)
  | some (.closed _) => (.nop, none)
  | some (.opened openedAt failureCount) =>
    if config.timeout ≤ elapsedAt - openedAt then
      -- the timeout has elapsed and this request becomes the probe
      (.put (.halfOpen startedAt), none)
    else (.nop, some (failureCount, .opened))
  | some (.halfOpen probeStart) =>
    if config.probeTimeout ≤ elapsedAt - probeStart then
      (.put (.halfOpen startedAt), none)
    else (.nop, some (0, .probeInFlight))

def CircuitBreaker.checkRequest (cb : CircuitBreaker) (key : String)
    (elapsedAt startedAt : Nat) : Except CircuitOpenError Unit × CircuitBreaker :=
  let decide := checkDecision cb.config elapsedAt startedAt
  let cb' := { cb with states := andComputeWith cb.states key fun entry => (decide entry).1 }
  match (decide (cb.states.lookup key)).2 with
  | none => (.ok (), cb')
  | some (failureCount, reason) => (.error ⟨key, failureCount, reason⟩, cb')

/-- The compute closure of `record_success`. -/
def successOp : Option CircuitState → Op
  | none => .nop
  | some (.closed 0) => .nop
  | some (.closed _) => .put (.closed 0)
  | some (.halfOpen _) => .put (.closed 0)
  | some (.opened _ _) => .nop

def CircuitBreaker.recordSuccess (cb : CircuitBreaker) (key : String) : CircuitBreaker :=
  { cb with states := andComputeWith cb.states key successOp }

/-- The compute closure of `record_failure`. -/
def failureOp (threshold : Nat) (now : Nat) : Option CircuitState → Op
  | none => if threshold ≤ 1 then .put (.opened now 1) else .put (.closed 1)
  | some (.closed failureCount) =>
    if threshold ≤ saturatingAdd failureCount 1 then
      .put (.opened now (saturatingAdd failureCount 1))
    else .put (.closed (saturatingAdd failureCount 1))
  | some (.halfOpen _) => .put (.opened now 1)
  | some (.opened _ failureCount) => .put (.opened now (saturatingAdd failureCount 1))

def CircuitBreaker.recordFailure (cb : CircuitBreaker) (key : String) (now : Nat) :
    CircuitBreaker :=
  { cb with states := andComputeWith cb.states key (failureOp cb.config.failureThreshold now) }

/-- The compute closure of `reset`. -/
def resetOp : Option CircuitState → Op
  | none => .nop
  | some _ => .put (.closed 0)

def CircuitBreaker.reset (cb : CircuitBreaker) (key : String) : CircuitBreaker :=
  { cb with states := andComputeWith cb.states key resetOp }

/-- moka drops the entry of `key`. -/
def CircuitBreaker.evict (cb : CircuitBreaker) (key : String) : CircuitBreaker :=
  { cb with states := cb.states.erase key }

/-- moka drops the entries of `keys`. -/
def CircuitBreaker.evictAll (cb : CircuitBreaker) (keys : List String) : CircuitBreaker :=
  keys.foldl CircuitBreaker.evict cb

/-- What an `Op` leaves in the entry it was computed for. -/
def Op.apply : Op → Option CircuitState → Option CircuitState
  | .nop, s => s
  | .put s, _ => some s

/-! ## The entry of one key -/

theorem lookup_andComputeWith (states : States) (key : String) (f : Option CircuitState → Op) :
    (andComputeWith states key f).lookup key =
      (f (states.lookup key)).apply (states.lookup key) := by
  unfold andComputeWith
  cases f (states.lookup key) with
  | nop => rfl
  | put s => exact AList.lookup_insert states

theorem lookup_andComputeWith_of_ne (states : States) {key key' : String}
    (f : Option CircuitState → Op) (h : key' ≠ key) :
    (andComputeWith states key f).lookup key' = states.lookup key' := by
  unfold andComputeWith
  cases f (states.lookup key) with
  | nop => rfl
  | put s => exact AList.lookup_insert_ne h

section

variable (cb : CircuitBreaker) (key : String) (elapsedAt startedAt now : Nat)

@[simp] theorem checkRequest_config :
    (cb.checkRequest key elapsedAt startedAt).2.config = cb.config := by
  unfold CircuitBreaker.checkRequest
  dsimp only
  split <;> rfl

theorem checkRequest_states :
    (cb.checkRequest key elapsedAt startedAt).2.states =
      andComputeWith cb.states key fun entry =>
        (checkDecision cb.config elapsedAt startedAt entry).1 := by
  unfold CircuitBreaker.checkRequest
  dsimp only
  split <;> rfl

/-- `check_request` answers `Ok` exactly when the closure set no `error_info`. -/
theorem checkRequest_ok_iff :
    (cb.checkRequest key elapsedAt startedAt).1 = .ok () ↔
      (checkDecision cb.config elapsedAt startedAt (cb.states.lookup key)).2 = none := by
  unfold CircuitBreaker.checkRequest
  dsimp only
  split
  · next h => simp [h]
  · next h => simp [h]

theorem lookup_checkRequest :
    (cb.checkRequest key elapsedAt startedAt).2.states.lookup key =
      (checkDecision cb.config elapsedAt startedAt (cb.states.lookup key)).1.apply
        (cb.states.lookup key) := by
  rw [checkRequest_states, lookup_andComputeWith]

/-- A call on a key with no entry, or a closed one, is admitted and changes nothing. -/
theorem checkDecision_of_closed {s : Option CircuitState}
    (h : s = none ∨ ∃ n, s = some (.closed n)) :
    checkDecision cb.config elapsedAt startedAt s = (.nop, none) := by
  rcases h with rfl | ⟨n, rfl⟩ <;> rfl

/-- After a call that was admitted the entry is not open. -/
theorem checkDecision_apply_of_ok {s : Option CircuitState}
    (h : (checkDecision cb.config elapsedAt startedAt s).2 = none) :
    ((checkDecision cb.config elapsedAt startedAt s).1.apply s = s ∧
        (s = none ∨ ∃ n, s = some (.closed n))) ∨
      (checkDecision cb.config elapsedAt startedAt s).1.apply s = some (.halfOpen startedAt) := by
  match s with
  | none => exact Or.inl ⟨rfl, Or.inl rfl⟩
  | some (.closed n) => exact Or.inl ⟨rfl, Or.inr ⟨n, rfl⟩⟩
  | some (.opened openedAt n) =>
    by_cases hle : cb.config.timeout ≤ elapsedAt - openedAt
    · exact Or.inr (by simp [checkDecision, hle, Op.apply])
    · simp [checkDecision, hle] at h
  | some (.halfOpen probeStart) =>
    by_cases hle : cb.config.probeTimeout ≤ elapsedAt - probeStart
    · exact Or.inr (by simp [checkDecision, hle, Op.apply])
    · simp [checkDecision, hle] at h

end

/-! ## Histories -/

/-- One call on the breaker with the clock readings it makes, or an eviction. -/
inductive Call where
  | checkRequest (key : String) (elapsedAt startedAt : Nat)
  | recordSuccess (key : String)
  | recordFailure (key : String) (now : Nat)
  | reset (key : String)
  | evict (key : String)
  deriving DecidableEq, Repr

def Call.key : Call → String
  | .checkRequest key _ _ => key
  | .recordSuccess key => key
  | .recordFailure key _ => key
  | .reset key => key
  | .evict key => key

/-- The clock readings of a call, in the order it makes them. -/
def Call.reads : Call → List Nat
  | .checkRequest _ elapsedAt startedAt => [elapsedAt, startedAt]
  | .recordFailure _ now => [now]
  | _ => []

/-- The call decides the fate of an admitted request on `key`, or clears the circuit. -/
def Call.Settles (key : String) : Call → Prop
  | .recordSuccess k => k = key
  | .recordFailure k _ => k = key
  | .reset k => k = key
  | _ => False

def CircuitBreaker.exec (cb : CircuitBreaker) : Call → CircuitBreaker
  | .checkRequest key elapsedAt startedAt => (cb.checkRequest key elapsedAt startedAt).2
  | .recordSuccess key => cb.recordSuccess key
  | .recordFailure key now => cb.recordFailure key now
  | .reset key => cb.reset key
  | .evict key => cb.evict key

/-- The clock never goes back along the history. -/
def ClockMonotone (calls : List Call) : Prop :=
  (calls.flatMap Call.reads).Pairwise (· ≤ ·)

instance (calls : List Call) : Decidable (ClockMonotone calls) :=
  inferInstanceAs (Decidable (List.Pairwise _ _))

@[simp] theorem exec_config (cb : CircuitBreaker) (c : Call) : (cb.exec c).config = cb.config := by
  cases c <;> first | rfl | exact checkRequest_config ..

@[simp] theorem run_exec_config (cb : CircuitBreaker) (calls : List Call) :
    (run CircuitBreaker.exec cb calls).config = cb.config := by
  induction calls generalizing cb with
  | nil => rfl
  | cons c calls ih => rw [run_cons, ih, exec_config]

/-- A call leaves the entries of all other keys alone. -/
theorem lookup_exec_of_ne (cb : CircuitBreaker) (c : Call) {key : String} (h : key ≠ c.key) :
    (cb.exec c).states.lookup key = cb.states.lookup key := by
  cases c with
  | checkRequest k a b =>
    simp only [CircuitBreaker.exec, checkRequest_states]
    exact lookup_andComputeWith_of_ne _ _ h
  | recordSuccess k => exact lookup_andComputeWith_of_ne _ _ h
  | recordFailure k t => exact lookup_andComputeWith_of_ne _ _ h
  | reset k => exact lookup_andComputeWith_of_ne _ _ h
  | evict k => exact AList.lookup_erase_ne h

theorem lookup_evictAll_of_notMem (cb : CircuitBreaker) {keys : List String} {key : String}
    (h : key ∉ keys) : (cb.evictAll keys).states.lookup key = cb.states.lookup key := by
  induction keys generalizing cb with
  | nil => rfl
  | cons k keys ih =>
    rw [List.mem_cons, not_or] at h
    have hrest := ih (cb.evict k) h.2
    exact hrest.trans (lookup_exec_of_ne cb (.evict k) h.1)

@[simp] theorem evictAll_config (cb : CircuitBreaker) (keys : List String) :
    (cb.evictAll keys).config = cb.config := by
  induction keys generalizing cb with
  | nil => rfl
  | cons k keys ih => exact ih (cb.evict k)

/-- Evictions keep an entry or drop it. -/
theorem lookup_evictAll (cb : CircuitBreaker) (keys : List String) (key : String) :
    (cb.evictAll keys).states.lookup key = cb.states.lookup key ∨
      (cb.evictAll keys).states.lookup key = none := by
  induction keys generalizing cb with
  | nil => exact Or.inl rfl
  | cons k keys ih =>
    have hone : (cb.evict k).states.lookup key = cb.states.lookup key ∨
        (cb.evict k).states.lookup key = none := by
      by_cases hk : key = k
      · rw [hk]
        exact Or.inr (AList.lookup_erase k cb.states)
      · exact Or.inl (lookup_exec_of_ne cb (.evict k) hk)
    rcases ih (cb.evict k) with h | h
    · rcases hone with h' | h'
      · exact Or.inl (h.trans h')
      · exact Or.inr (h.trans h')
    · exact Or.inr h

/-! ## What a call leaves in the entry of its key -/

/-- The entry admits any request, whatever the clock says. -/
def Lenient (entry : Option CircuitState) : Prop := entry = none ∨ ∃ n, entry = some (.closed n)

def IsOpen (entry : Option CircuitState) : Prop := ∃ t n, entry = some (.opened t n)

def IsHalfOpen (entry : Option CircuitState) : Prop := ∃ t, entry = some (.halfOpen t)

section

variable (cb : CircuitBreaker) (key : String) (elapsedAt startedAt now : Nat)

theorem lookup_recordSuccess :
    (cb.recordSuccess key).states.lookup key =
      (successOp (cb.states.lookup key)).apply (cb.states.lookup key) :=
  lookup_andComputeWith ..

theorem lookup_recordFailure :
    (cb.recordFailure key now).states.lookup key =
      (failureOp cb.config.failureThreshold now (cb.states.lookup key)).apply
        (cb.states.lookup key) :=
  lookup_andComputeWith ..

/-- A recorded success leaves no probe, and opens nothing. -/
theorem successOp_apply (s : Option CircuitState) :
    ¬ IsHalfOpen ((successOp s).apply s) ∧ (IsOpen ((successOp s).apply s) → IsOpen s) ∧
      (Lenient s → Lenient ((successOp s).apply s)) := by
  match s with
  | none => simp [successOp, Op.apply, IsHalfOpen, IsOpen, Lenient]
  | some (.closed 0) => simp [successOp, Op.apply, IsHalfOpen, IsOpen, Lenient]
  | some (.closed (n + 1)) => simp [successOp, Op.apply, IsHalfOpen, IsOpen, Lenient]
  | some (.opened t n) => simp [successOp, Op.apply, IsHalfOpen, IsOpen, Lenient]
  | some (.halfOpen t) => simp [successOp, Op.apply, IsHalfOpen, IsOpen, Lenient]

/-- A recorded failure leaves no probe. -/
theorem failureOp_apply (threshold : Nat) (s : Option CircuitState) :
    ¬ IsHalfOpen ((failureOp threshold now s).apply s) := by
  match s with
  | none =>
    unfold failureOp
    dsimp only
    split <;> simp [Op.apply, IsHalfOpen]
  | some (.closed n) =>
    unfold failureOp
    dsimp only
    split <;> simp [Op.apply, IsHalfOpen]
  | some (.opened t n) => simp [failureOp, Op.apply, IsHalfOpen]
  | some (.halfOpen t) => simp [failureOp, Op.apply, IsHalfOpen]

/-- A check opens nothing. -/
theorem isOpen_of_checkRequest
    (h : IsOpen ((cb.checkRequest key elapsedAt startedAt).2.states.lookup key)) :
    IsOpen (cb.states.lookup key) := by
  rw [lookup_checkRequest] at h
  cases hd : (checkDecision cb.config elapsedAt startedAt (cb.states.lookup key)).2 with
  | none =>
    rcases checkDecision_apply_of_ok cb elapsedAt startedAt hd with ⟨he, -⟩ | he
    · rwa [he] at h
    · rw [he] at h
      obtain ⟨t, n, h⟩ := h
      cases h
  | some refusal =>
    have hnop : (checkDecision cb.config elapsedAt startedAt (cb.states.lookup key)).1 = .nop := by
      revert hd
      unfold checkDecision
      split
      · simp
      · simp
      · split <;> simp
      · split <;> simp
    rwa [hnop] at h

end

/-! ## One probe at a time -/

/-- The stored state of `key` is Open or HalfOpen. -/
def CircuitBreaker.Guarded (cb : CircuitBreaker) (key : String) : Prop :=
  (∃ t n, cb.states.lookup key = some (.opened t n)) ∨
    ∃ t, cb.states.lookup key = some (.halfOpen t)

/-- A call admitted on a guarded key leaves its own start as the probe's start. -/
theorem lookup_of_probe {cb : CircuitBreaker} {key : String} {elapsedAt startedAt : Nat}
    (hg : cb.Guarded key) (hok : (cb.checkRequest key elapsedAt startedAt).1 = .ok ()) :
    (cb.checkRequest key elapsedAt startedAt).2.states.lookup key = some (.halfOpen startedAt) := by
  rw [lookup_checkRequest]
  rcases checkDecision_apply_of_ok cb elapsedAt startedAt ((checkRequest_ok_iff ..).mp hok) with
    ⟨-, hn | ⟨n, hn⟩⟩ | h
  · rcases hg with ⟨t, m, hs⟩ | ⟨t, hs⟩ <;> simp [hs] at hn
  · rcases hg with ⟨t, m, hs⟩ | ⟨t, hs⟩ <;> simp [hs] at hn
  · exact h

/-- While the probe is younger than `probe_timeout`, a call that settles nothing and evicts
    nothing keeps it. -/
theorem exec_keeps_probe {cb : CircuitBreaker} {key : String} {start : Nat} {c : Call}
    (hs : cb.states.lookup key = some (.halfOpen start)) (hset : ¬ c.Settles key)
    (hev : c ≠ .evict key)
    (hyoung : ∀ t ∈ c.reads, start ≤ t ∧ t < start + cb.config.probeTimeout) :
    (cb.exec c).states.lookup key = some (.halfOpen start) := by
  by_cases hk : key = c.key
  · cases c with
    | checkRequest k a b =>
      obtain rfl : key = k := hk
      have ha := hyoung a (by simp [Call.reads])
      have hnot : ¬ cb.config.probeTimeout ≤ a - start := by omega
      simp only [CircuitBreaker.exec, lookup_checkRequest, hs, checkDecision, if_neg hnot, Op.apply]
    | recordSuccess k => exact absurd hk.symm hset
    | recordFailure k t => exact absurd hk.symm hset
    | reset k => exact absurd hk.symm hset
    | evict k => exact absurd (by rw [show key = k from hk]) hev
  · rw [lookup_exec_of_ne cb c hk, hs]

/-- The invariant of the window between two probes: the stored probe start is the first
    probe's, as long as the clock stays below its timeout. -/
theorem run_keeps_probe {cb : CircuitBreaker} {key : String} {start : Nat} {calls : List Call}
    (hs : cb.states.lookup key = some (.halfOpen start))
    (hset : ∀ c ∈ calls, ¬ c.Settles key) (hev : Call.evict key ∉ calls)
    (hyoung : ∀ t ∈ calls.flatMap Call.reads, start ≤ t ∧ t < start + cb.config.probeTimeout) :
    (run CircuitBreaker.exec cb calls).states.lookup key = some (.halfOpen start) := by
  induction calls generalizing cb with
  | nil => exact hs
  | cons c calls ih =>
    rw [run_cons]
    apply ih
    · exact exec_keeps_probe hs (hset c List.mem_cons_self)
        (fun h => hev (by rw [← h]; exact List.mem_cons_self))
        (fun t ht => hyoung t (by simp [ht]))
    · exact fun c' hc' => hset c' (List.mem_cons_of_mem _ hc')
    · exact fun h => hev (List.mem_cons_of_mem _ h)
    · intro t ht
      rw [exec_config]
      exact hyoung t (by rw [List.flatMap_cons]; exact List.mem_append_right _ ht)

/-- Along a history the clock readings between two of its calls lie between the readings of those
    calls, and so do the readings of the second lie after those of the first. -/
theorem clock_window {pre mid : List Call} {c c' : Call}
    (h : ClockMonotone (pre ++ c :: mid ++ [c'])) {b a' : Nat} (hb : b ∈ c.reads)
    (ha' : a' ∈ c'.reads) : (∀ t ∈ mid.flatMap Call.reads, b ≤ t ∧ t ≤ a') ∧ b ≤ a' := by
  unfold ClockMonotone at h
  simp only [List.flatMap_append, List.flatMap_cons, List.flatMap_nil, List.append_nil,
    List.pairwise_append, List.mem_append] at h
  obtain ⟨⟨-, ⟨-, -, hmid⟩, -⟩, -, hlast⟩ := h
  refine ⟨fun t ht => ⟨hmid b hb t ht, ?_⟩, ?_⟩
  · exact hlast t (Or.inr (Or.inr ht)) a' ha'
  · exact hlast b (Or.inr (Or.inl hb)) a' ha'

/-- In a history with two `check_request` calls, the clock readings between them, and the
    first reading of the second call, lie after the last reading of the first call. -/
theorem clock_between {pre mid : List Call} {key : String} {a b a' b' : Nat}
    (h : ClockMonotone (pre ++ .checkRequest key a b :: mid ++ [.checkRequest key a' b'])) :
    (∀ t ∈ mid.flatMap Call.reads, b ≤ t ∧ t ≤ a') ∧ b ≤ a' :=
  clock_window h (by simp [Call.reads]) (by simp [Call.reads])

/-- Single probe. Take any history, from any stored states, in which a `check_request` on
    `key` is admitted while the stored state is Open or HalfOpen, and a later one is admitted
    too (in whatever stored state, so in particular in Open or HalfOpen). If the later one
    reads the clock less than `probe_timeout` after the first one started its probe, then a
    `record_success`, `record_failure` or `reset` on `key` lies between them. -/
theorem single_probe (cb : CircuitBreaker) (pre mid : List Call) (key : String)
    (elapsedAt startedAt elapsedAt' startedAt' : Nat)
    (hclock : ClockMonotone (pre ++ .checkRequest key elapsedAt startedAt :: mid ++
      [.checkRequest key elapsedAt' startedAt']))
    (hevict : Call.evict key ∉ mid)
    (hg : (run CircuitBreaker.exec cb pre).Guarded key)
    (hok : ((run CircuitBreaker.exec cb pre).checkRequest key elapsedAt startedAt).1 = .ok ())
    (hok' : ((run CircuitBreaker.exec cb
      (pre ++ .checkRequest key elapsedAt startedAt :: mid)).checkRequest key
        elapsedAt' startedAt').1 = .ok ())
    (hwindow : elapsedAt' < startedAt + cb.config.probeTimeout) :
    ∃ c ∈ mid, c.Settles key := by
  by_contra hno
  have hset : ∀ c ∈ mid, ¬ c.Settles key := fun c hc h => hno ⟨c, hc, h⟩
  have hprobe := lookup_of_probe hg hok
  obtain ⟨hmid, hlast⟩ := clock_between hclock
  have hyoung : ∀ t ∈ mid.flatMap Call.reads,
      startedAt ≤ t ∧ t < startedAt + cb.config.probeTimeout := by
    intro t ht
    have := hmid t ht
    omega
  have hkeep : (run CircuitBreaker.exec cb
      (pre ++ .checkRequest key elapsedAt startedAt :: mid)).states.lookup key =
        some (.halfOpen startedAt) := by
    rw [run_append, run_cons]
    dsimp only [CircuitBreaker.exec]
    apply run_keeps_probe hprobe hset hevict
    intro t ht
    rw [checkRequest_config, run_exec_config]
    exact hyoung t ht
  rw [checkRequest_ok_iff, hkeep, run_exec_config] at hok'
  have hnot : ¬ cb.config.probeTimeout ≤ elapsedAt' - startedAt := by omega
  simp [checkDecision, hnot] at hok'

/-- The failed probe in the middle of this history is what lets the second probe through:
    `timeout` 10, `probe_timeout` 100, probes at 50 and 70. -/
theorem single_probe_reopened :
    ∃ c ∈ [Call.recordFailure "db" 55], c.Settles "db" :=
  single_probe
    ⟨AList.singleton "db" (.opened 0 3), ⟨3, 10, 100, 1000, 600, by decide⟩⟩ []
    [.recordFailure "db" 55] "db" 50 50 70 71 (by decide) (by decide)
    (Or.inl ⟨0, 3, by decide⟩) (by decide) (by decide) (by decide)

end Mik.Reliability
