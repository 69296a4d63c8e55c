/-
  The load-balancing proxy (`src/runtime/lb/proxy.rs`, `backend.rs`, `selection.rs`).

  `select_backend` hands back `backends[idx].clone()`, and `Clone` for a backend copies the
  atomics, breaker included. So a `forward` works on a `Backend` value of its own: the one in its
  `InFlight` record. `start_request`, `end_request`, `record_success` and `record_failure` change
  that copy, and nothing but a health-check cycle and the lazy `state()` of a breaker ever
  changes a backend of the shared list.

  A `forward` is four steps (select, start, finish, record), and any interleaving of the steps of
  any number of them is a list of `Event`s. HTTP and runtime backends have the same fields and
  the same methods; latencies, metrics and the forwarding itself are left out, its outcome is an
  input.
-/
import Mik.Lb.CircuitBreaker
import Mik.Lib.Run

namespace Mik.Lb

open Mik.Lib

/-! ## Backends -/

structure Backend where
  id : String
  weight : Nat
  maxConnections : Nat
  healthy : Bool
  failureCount : Nat
  successCount : Nat
  totalRequests : Nat
  activeRequests : Nat
  circuitBreaker : Option CircuitBreaker
  /-- Both constructors see to it. -/
  maxConnections_pos : 0 < maxConnections

namespace Backend

def withOptions (id : String) (weight maxConnections : Nat) : Backend where
  id := id
  weight := max weight 1
  maxConnections := max maxConnections 1
  healthy := true
  failureCount := 0
  successCount := 0
  totalRequests := 0
  activeRequests := 0
  circuitBreaker := none
  maxConnections_pos := by omega

/-- `with_circuit_breaker`, with `DEFAULT_MAX_CONNECTIONS`. -/
def withCircuitBreaker (id : String) (config : CircuitBreakerConfig) : Backend where
  id := id
  weight := 1
  maxConnections := 100
  healthy := true
  failureCount := 0
  successCount := 0
  totalRequests := 0
  activeRequests := 0
  circuitBreaker := some (.new config)
  maxConnections_pos := by omega

def setCircuitBreaker (b : Backend) (cb : Option CircuitBreaker) : Backend :=
  { b with circuitBreaker := cb }

/-- `is_available`, with the backend the lazy breaker leaves. -/
def isAvailable (b : Backend) (elapsedAt : Nat) : Bool × Backend :=
  if !b.healthy then (false, b)
  else
    match b.circuitBreaker with
    | some cb =>
      ((cb.isAvailable elapsedAt).1, b.setCircuitBreaker (some (cb.isAvailable elapsedAt).2))
    | none => (true, b)

def hasCapacity (b : Backend) : Bool := b.activeRequests < b.maxConnections

def markHealthy (b : Backend) : Backend :=
  { b with healthy := true, failureCount := 0, successCount := b.successCount + 1 }

def markUnhealthy (b : Backend) : Backend :=
  { b with healthy := false, successCount := 0, failureCount := b.failureCount + 1 }

def startRequest (b : Backend) : Backend := { b with activeRequests := b.activeRequests + 1 }

def endRequest (b : Backend) : Backend := { b with activeRequests := b.activeRequests - 1 }

def recordSuccess (b : Backend) (elapsedAt : Nat) : Backend :=
  { b with
    totalRequests := b.totalRequests + 1
    circuitBreaker := b.circuitBreaker.map fun cb => cb.recordSuccess elapsedAt }

def recordFailure (b : Backend) (elapsedAt now : Nat) : Backend :=
  { b with
    totalRequests := b.totalRequests + 1
    circuitBreaker := b.circuitBreaker.map fun cb => cb.recordFailure elapsedAt now }

end Backend

/-! ## Selection -/

structure RoundRobin where
  current : Nat
  total : Nat
  deriving DecidableEq, Repr

/-- `next_index`; the counter is a `usize`. -/
def RoundRobin.nextIndex (rr : RoundRobin) : Nat × RoundRobin :=
  if rr.total = 0 then (0, rr)
  else (rr.current % rr.total, { rr with current := (rr.current + 1) % 0x10000000000000000 })

def RoundRobin.select (rr : RoundRobin) (healthyIndices : List Nat) : Option Nat × RoundRobin :=
  if healthyIndices = [] then (none, rr)
  else (healthyIndices[rr.nextIndex.1 % healthyIndices.length]?, rr.nextIndex.2)

structure Proxy where
  backends : List Backend
  strategy : RoundRobin

/-- `ProxyBuilder::build`; it refuses an empty list. -/
def Proxy.build (backends : List Backend) : Option Proxy :=
  if backends = [] then none else some ⟨backends, ⟨0, backends.length⟩⟩

inductive SelectResult where
  | selected (index : Nat) (backend : Backend)
  | noHealthyBackends
  | allAtCapacity

/-- The indices of the backends that are healthy and whose breaker allows requests. -/
def Proxy.availableIndices (p : Proxy) (elapsedAt : Nat) : List Nat :=
  (List.range p.backends.length).filter fun i =>
    (p.backends[i]?.map fun b => (b.isAvailable elapsedAt).1).getD false

/-- The backends as asking all of them leaves them. -/
def Proxy.polled (p : Proxy) (elapsedAt : Nat) : List Backend :=
  p.backends.map fun b => (b.isAvailable elapsedAt).2

/-- Those of the available indices whose backend, in the shared list, has capacity. -/
def Proxy.capacityIndices (p : Proxy) (elapsedAt : Nat) : List Nat :=
  (p.availableIndices elapsedAt).filter fun i =>
    ((p.polled elapsedAt)[i]?.map Backend.hasCapacity).getD false

def Proxy.selectBackend (p : Proxy) (elapsedAt : Nat) : SelectResult × Proxy :=
  let backends := p.polled elapsedAt
  if p.availableIndices elapsedAt = [] then (.noHealthyBackends, { p with backends := backends })
  else if p.capacityIndices elapsedAt = [] then (.allAtCapacity, { p with backends := backends })
  else
    let chosen := p.strategy.select (p.capacityIndices elapsedAt)
    match chosen.1.bind fun idx => backends[idx]?.map fun b => (idx, b) with
    | none => (.allAtCapacity, ⟨backends, chosen.2⟩)
    | some (idx, b) => (.selected idx b, ⟨backends, chosen.2⟩)

/-! ## Concurrent forwards -/

inductive Phase where
  | selected
  | started
  | finished (ok : Bool)
  | recorded
  deriving DecidableEq, Repr

/-- A `forward` that has selected: the index it was given and its own copy of the backend. -/
structure InFlight where
  index : Nat
  backend : Backend
  phase : Phase

/-- Selected, and not yet past `end_request`. -/
def InFlight.counts (f : InFlight) (index : Nat) : Bool :=
  f.index = index && (f.phase = .selected || f.phase = .started)

structure System where
  proxy : Proxy
  forwards : List InFlight

def System.inFlight (s : System) (index : Nat) : Nat := s.forwards.countP fun f => f.counts index

/-- One step of some `forward`, the `i`-th of the list, or the write-back of a health-check
    cycle with its verdicts. -/
inductive Event where
  | select (elapsedAt : Nat)
  | start (i : Nat)
  | finish (i : Nat) (ok : Bool)
  | record (i : Nat) (elapsedAt now : Nat)
  | healthCheck (verdicts : List Bool)
  deriving DecidableEq, Repr

/-- The write-back of a health-check cycle. -/
def applyVerdicts : List Backend → List Bool → List Backend
  | b :: bs, v :: vs => (if v then b.markHealthy else b.markUnhealthy) :: applyVerdicts bs vs
  | bs, _ => bs

/-- The next step of a `forward`; a step out of order is none. -/
def InFlight.start (f : InFlight) : InFlight :=
  match f.phase with
  | .selected => { f with backend := f.backend.startRequest, phase := .started }
  | _ => f

def InFlight.finish (f : InFlight) (ok : Bool) : InFlight :=
  match f.phase with
  | .started => { f with backend := f.backend.endRequest, phase := .finished ok }
  | _ => f

def InFlight.record (f : InFlight) (elapsedAt now : Nat) : InFlight :=
  match f.phase with
  | .finished true => { f with backend := f.backend.recordSuccess elapsedAt, phase := .recorded }
  | .finished false =>
    { f with backend := f.backend.recordFailure elapsedAt now, phase := .recorded }
  | _ => f

def System.step (s : System) : Event → System
  | .select elapsedAt =>
    match s.proxy.selectBackend elapsedAt with
    | (.selected index backend, proxy) => ⟨proxy, s.forwards ++ [⟨index, backend, .selected⟩]⟩
    | (_, proxy) => ⟨proxy, s.forwards⟩
  | .start i => { s with forwards := s.forwards.modify i InFlight.start }
  | .finish i ok => { s with forwards := s.forwards.modify i fun f => f.finish ok }
  | .record i elapsedAt now =>
    { s with forwards := s.forwards.modify i fun f => f.record elapsedAt now }
  | .healthCheck verdicts =>
    { s with proxy := { s.proxy with backends := applyVerdicts s.proxy.backends verdicts } }

end Mik.Lb
