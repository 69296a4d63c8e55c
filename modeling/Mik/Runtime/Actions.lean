/-
  The atomic actions of a request on the shared runtime state.

  A handler is a `Prog` over these actions: a breaker call (one moka compute), one lock section
  of `get_module_semaphore`, taking or dropping a semaphore permit, a load, an execution. `Env`
  is what the outside world contributes to one action: the clock, the I/O of a load, the
  outcome of an execution, the text of a script file, and the entries moka's housekeeping drops
  meanwhile. `answer` performs an action on the state.

  A load is one action although it awaits: its steps touch the component and AOT caches only,
  never the circuit breaker or the semaphores.
-/
import Mik.Lib.Prog
import Mik.Runtime.Http

namespace Mik.Runtime

open Mik.Lib Mik.Reliability

inductive Action (Comp : Type) where
  | checkRequest (key : String)
  | recordSuccess (key : String)
  | recordFailure (key : String)
  /-- The fast path of `get_module_semaphore`. -/
  | findSemaphore (key : String)
  /-- Its slow path: look again, and insert a new semaphore if there is still none. -/
  | createSemaphore (key : String)
  | tryAcquire (semaphore : Nat)
  /-- A permit is dropped. -/
  | release (semaphore : Nat)
  | getOrLoad (name : String)
  | getOrLoadModulePath (p : ModulePath)
  | execute (component : Comp) (req : Request)
  | readScript (path : String)
  /-- A route outside the model: static files, the gateway API, OpenAPI schemas. -/
  | serveOther (path : String)

/-- The outcome of `execute_wasm_request`, and how long it took. -/
structure Execution where
  result : Except Error Response
  durationMs : Nat

abbrev Answer (Comp : Type) : Action Comp → Type
  | .checkRequest _ => Except CircuitOpenError Unit
  | .recordSuccess _ => Unit
  | .recordFailure _ => Unit
  | .findSemaphore _ => Option Nat
  | .createSemaphore _ => Nat
  | .tryAcquire _ => Bool
  | .release _ => Unit
  | .getOrLoad _ => Except Error Comp
  | .getOrLoadModulePath _ => Except Error Comp
  | .execute _ _ => Execution
  | .readScript _ => Option String
  | .serveOther _ => Except Error Response

abbrev Handler (Comp α : Type) := Prog (Action Comp) (Answer Comp) α

structure Env where
  elapsedAt : Nat
  startedAt : Nat
  now : Nat
  io : LoadIo
  execution : Execution
  scriptText : Option String
  served : Except Error Response
  /-- The circuit entries moka drops with this action. -/
  evicted : List String
  /-- The components moka drops with this action. -/
  evictedModules : List String

section

variable {Comp : Type}

def SharedState.setBreaker (s : SharedState Comp) (cb : CircuitBreaker) : SharedState Comp :=
  { s with circuitBreaker := cb }

def SharedState.setSemaphores (s : SharedState Comp) (sems : Semaphores) : SharedState Comp :=
  { s with moduleSemaphores := sems }

/-- moka's housekeeping. -/
def SharedState.housekeeping (s : SharedState Comp) (env : Env) : SharedState Comp :=
  { s with
    circuitBreaker := s.circuitBreaker.evictAll env.evicted
    cache := env.evictedModules.foldl (fun m k => m.erase k) s.cache }

/-- The effect of an action itself, before any housekeeping. -/
def perform (host : Host Comp) (env : Env) (s : SharedState Comp) :
    (a : Action Comp) → Answer Comp a × SharedState Comp
  | .checkRequest key =>
    let r := s.circuitBreaker.checkRequest key env.elapsedAt env.startedAt
    (r.1, s.setBreaker r.2)
  | .recordSuccess key => ((), s.setBreaker (s.circuitBreaker.recordSuccess key))
  | .recordFailure key => ((), s.setBreaker (s.circuitBreaker.recordFailure key env.now))
  | .findSemaphore key => (s.moduleSemaphores.table.lookup key, s)
  | .createSemaphore key =>
    let sems := s.moduleSemaphores
    match sems.table.lookup key with
    | some semaphore => (semaphore, s)
    | none => (sems.next, s.setSemaphores (sems.insertNew key host.maxPerModuleRequests))
  | .tryAcquire semaphore =>
    let sems := s.moduleSemaphores
    if sems.permits semaphore = 0 then (false, s)
    else (true, s.setSemaphores (sems.setPermits semaphore (sems.permits semaphore - 1)))
  | .release semaphore =>
    let sems := s.moduleSemaphores
    ((), s.setSemaphores (sems.setPermits semaphore (sems.permits semaphore + 1)))
  | .getOrLoad name => getOrLoad host env.io s name
  | .getOrLoadModulePath p => getOrLoadModulePath host env.io s p
  | .execute _ _ => (env.execution, s)
  | .readScript _ => (env.scriptText, s)
  | .serveOther _ => (env.served, s)

def answer (host : Host Comp) (env : Env) (a : Action Comp) (s : SharedState Comp) :
    Answer Comp a × SharedState Comp :=
  ((perform host env s a).1, (perform host env s a).2.housekeeping env)

/-! ## The circuit of one key -/

/-- The entry of a key in the circuit breaker. -/
def SharedState.entry (s : SharedState Comp) (key : String) : Option CircuitState :=
  s.circuitBreaker.states.lookup key

/-- The breaker call an action makes. -/
def Action.breakerCall (env : Env) : Action Comp → Option Call
  | .checkRequest key => some (.checkRequest key env.elapsedAt env.startedAt)
  | .recordSuccess key => some (.recordSuccess key)
  | .recordFailure key => some (.recordFailure key env.now)
  | _ => none

/-- The key it makes it on. -/
def Action.breakerKey : Action Comp → Option String
  | .checkRequest key => some key
  | .recordSuccess key => some key
  | .recordFailure key => some key
  | _ => none

theorem breakerKey_of_breakerCall {env : Env} {a : Action Comp} {c : Call}
    (h : a.breakerCall env = some c) : a.breakerKey = some c.key := by
  cases a <;> cases h <;> rfl

theorem breaker_eq_of_guards {s s' : SharedState Comp} (h : s'.guards = s.guards) :
    s'.circuitBreaker = s.circuitBreaker := congrArg Prod.fst h

theorem breaker_perform (host : Host Comp) (env : Env) (s : SharedState Comp) (a : Action Comp) :
    (perform host env s a).2.circuitBreaker =
      match a.breakerCall env with
      | some c => s.circuitBreaker.exec c
      | none => s.circuitBreaker := by
  cases a with
  | createSemaphore key =>
    unfold perform
    dsimp only
    split
    · rfl
    · rfl
  | tryAcquire semaphore =>
    unfold perform
    dsimp only
    split
    · rfl
    · rfl
  | getOrLoad name => exact breaker_eq_of_guards (guards_getOrLoad host env.io s name)
  | getOrLoadModulePath p => exact breaker_eq_of_guards (guards_getOrLoadModulePath host env.io s p)
  | _ => rfl

/-- What an action can do to the semaphores: nothing, create the one of a key that has none, or
    change the permits of one. -/
theorem semaphores_cases (host : Host Comp) (env : Env) (s : SharedState Comp) (a : Action Comp) :
    (perform host env s a).2.moduleSemaphores = s.moduleSemaphores ∨
    (∃ key, a = .createSemaphore key ∧ s.moduleSemaphores.table.lookup key = none ∧
      (perform host env s a).2.moduleSemaphores =
        s.moduleSemaphores.insertNew key host.maxPerModuleRequests) ∨
    ∃ semaphore n, (a = .tryAcquire semaphore ∨ a = .release semaphore) ∧
      (perform host env s a).2.moduleSemaphores = s.moduleSemaphores.setPermits semaphore n := by
  cases a with
  | createSemaphore key =>
    unfold perform
    dsimp only
    split
    · exact Or.inl rfl
    · next hnone => exact Or.inr (Or.inl ⟨key, rfl, hnone, rfl⟩)
  | tryAcquire semaphore =>
    unfold perform
    dsimp only
    split
    · exact Or.inl rfl
    · exact Or.inr (Or.inr ⟨semaphore, _, Or.inl rfl, rfl⟩)
  | release semaphore => exact Or.inr (Or.inr ⟨semaphore, _, Or.inr rfl, rfl⟩)
  | getOrLoad name => exact Or.inl (congrArg Prod.snd (guards_getOrLoad host env.io s name))
  | getOrLoadModulePath p =>
    exact Or.inl (congrArg Prod.snd (guards_getOrLoadModulePath host env.io s p))
  | _ => exact Or.inl rfl

/-- An action with no breaker call on `key` keeps its entry, unless moka drops it. -/
theorem entry_answer_of_ne {host : Host Comp} {env : Env} {s : SharedState Comp}
    {a : Action Comp} {key : String} (hne : a.breakerKey ≠ some key) (hev : key ∉ env.evicted) :
    (answer host env a s).2.entry key = s.entry key := by
  have hkeep := lookup_evictAll_of_notMem (perform host env s a).2.circuitBreaker hev
  refine Eq.trans hkeep ?_
  rw [breaker_perform]
  cases hc : a.breakerCall env with
  | none => rfl
  | some c =>
    refine lookup_exec_of_ne _ c fun hk => hne ?_
    rw [breakerKey_of_breakerCall hc, hk]

/-- With moka's housekeeping, an entry is what the action left or nothing. -/
theorem entry_answer (host : Host Comp) (env : Env) (s : SharedState Comp) (a : Action Comp)
    (key : String) :
    (answer host env a s).2.entry key = (perform host env s a).2.entry key ∨
      (answer host env a s).2.entry key = none :=
  lookup_evictAll _ _ _

/-- Only a failure recorded on the key itself opens a circuit, or makes a lenient one strict. -/
theorem entry_answer_of_not_failure {host : Host Comp} {env : Env} {s : SharedState Comp}
    {a : Action Comp} {key : String} (ha : a ≠ .recordFailure key) :
    (IsOpen ((answer host env a s).2.entry key) → IsOpen (s.entry key)) ∧
      (Lenient (s.entry key) → Lenient ((answer host env a s).2.entry key)) := by
  have hperform : (IsOpen ((perform host env s a).2.entry key) → IsOpen (s.entry key)) ∧
      (Lenient (s.entry key) → Lenient ((perform host env s a).2.entry key)) := by
    unfold SharedState.entry
    rw [breaker_perform]
    cases hc : a.breakerCall env with
    | none => exact ⟨id, id⟩
    | some c =>
      dsimp only
      by_cases hk : key = c.key
      · cases a with
        | checkRequest k =>
          cases hc
          obtain rfl : key = k := hk
          refine ⟨isOpen_of_checkRequest _ _ _ _, fun hl => ?_⟩
          have hd := checkDecision_of_closed s.circuitBreaker env.elapsedAt env.startedAt hl
          simp only [CircuitBreaker.exec, lookup_checkRequest, hd]
          exact hl
        | recordSuccess k =>
          cases hc
          obtain rfl : key = k := hk
          simp only [CircuitBreaker.exec, lookup_recordSuccess]
          exact (successOp_apply _).2
        | recordFailure k =>
          cases hc
          exact absurd (congrArg Action.recordFailure hk.symm) ha
        | _ => cases hc
      · rw [lookup_exec_of_ne _ c hk]
        exact ⟨id, id⟩
  rcases entry_answer host env s a key with h | h
  · rw [h]
    exact hperform
  · rw [h]
    refine ⟨?_, fun _ => Or.inl rfl⟩
    rintro ⟨t, n, he⟩
    cases he

/-- No action but a check on the key itself starts a probe, and a record ends it. -/
theorem not_halfOpen_answer {host : Host Comp} {env : Env} {s : SharedState Comp}
    {a : Action Comp} {key : String} (ha : a ≠ .checkRequest key)
    (h : a.breakerKey = some key ∨ ¬ IsHalfOpen (s.entry key)) :
    ¬ IsHalfOpen ((answer host env a s).2.entry key) := by
  have hperform : ¬ IsHalfOpen ((perform host env s a).2.entry key) := by
    unfold SharedState.entry at h ⊢
    rw [breaker_perform]
    by_cases hk : a.breakerKey = some key
    · cases a with
      | checkRequest k =>
        cases hk
        exact absurd rfl ha
      | recordSuccess k =>
        cases hk
        simp only [Action.breakerCall, CircuitBreaker.exec, lookup_recordSuccess]
        exact (successOp_apply _).1
      | recordFailure k =>
        cases hk
        simp only [Action.breakerCall, CircuitBreaker.exec, lookup_recordFailure]
        exact failureOp_apply _ _ _
      | _ => cases hk
    · have h := h.resolve_left hk
      cases hc : a.breakerCall env with
      | none => exact h
      | some c =>
        have hne : key ≠ c.key := by
          intro he
          apply hk
          rw [breakerKey_of_breakerCall hc, he]
        rw [lookup_exec_of_ne _ c hne]
        exact h
  rcases entry_answer host env s a key with he | he
  · rw [he]
    exact hperform
  · rw [he]
    rintro ⟨t, ht⟩
    cases ht

/-! ## Running alone -/

/-- A state with the contributions of the outside world to the actions to come. -/
abbrev Machine (Comp : Type) := SharedState Comp × (Nat → Env)

/-- Perform an action with the next contribution of the outside world. -/
def answerNext (host : Host Comp) (a : Action Comp) (m : Machine Comp) :
    Answer Comp a × Machine Comp :=
  ((answer host (m.2 0) a m.1).1, ((answer host (m.2 0) a m.1).2, fun i => m.2 (i + 1)))

/-- The actions of a trace performed one after the other. -/
def replay (host : Host Comp) (m : Machine Comp)
    (tr : List (Prog.Event (Action Comp) (Answer Comp))) : Machine Comp :=
  tr.foldl (fun m ev => (answerNext host ev.1 m).2) m

theorem entry_replay_of_ne {host : Host Comp} {m : Machine Comp}
    {tr : List (Prog.Event (Action Comp) (Answer Comp))} {key : String}
    (htr : ∀ ev ∈ tr, ev.1.breakerKey ≠ some key) (hev : ∀ i, key ∉ (m.2 i).evicted) :
    (replay host m tr).1.entry key = m.1.entry key := by
  induction tr generalizing m with
  | nil => rfl
  | cons ev tr ih =>
    have hrest := @ih (answerNext host ev.1 m).2 (fun e he => htr e (List.mem_cons_of_mem _ he))
      (fun i => hev (i + 1))
    exact hrest.trans (entry_answer_of_ne (htr ev List.mem_cons_self) (hev 0))

/-- A trace with no check on `key` leaves no probe if there was none, or if it records on it. -/
theorem not_halfOpen_replay {host : Host Comp} {m : Machine Comp}
    {tr : List (Prog.Event (Action Comp) (Answer Comp))} {key : String}
    (htr : ∀ ev ∈ tr, ev.1 ≠ .checkRequest key)
    (h : (∃ ev ∈ tr, ev.1.breakerKey = some key) ∨ ¬ IsHalfOpen (m.1.entry key)) :
    ¬ IsHalfOpen ((replay host m tr).1.entry key) := by
  induction tr generalizing m with
  | nil =>
    rcases h with ⟨ev, hev, -⟩ | h
    · cases hev
    · exact h
  | cons ev tr ih =>
    refine @ih (answerNext host ev.1 m).2 (fun e he => htr e (List.mem_cons_of_mem _ he)) ?_
    have hhead := htr ev List.mem_cons_self
    rcases h with ⟨e, he, hk⟩ | h
    · rcases List.mem_cons.mp he with rfl | he
      · exact Or.inr (not_halfOpen_answer hhead (Or.inl hk))
      · exact Or.inl ⟨e, he, hk⟩
    · exact Or.inr (not_halfOpen_answer hhead (Or.inr h))

/-- Without a failure recorded on `key`, a trace opens nothing and keeps a lenient entry. -/
theorem entry_replay_of_not_failure {host : Host Comp} {m : Machine Comp}
    {tr : List (Prog.Event (Action Comp) (Answer Comp))} {key : String}
    (htr : ∀ ev ∈ tr, ev.1 ≠ .recordFailure key) :
    (IsOpen ((replay host m tr).1.entry key) → IsOpen (m.1.entry key)) ∧
      (Lenient (m.1.entry key) → Lenient ((replay host m tr).1.entry key)) := by
  induction tr generalizing m with
  | nil => exact ⟨id, id⟩
  | cons ev tr ih =>
    obtain ⟨hopen, hlenient⟩ := @ih (answerNext host ev.1 m).2
      (fun e he => htr e (List.mem_cons_of_mem _ he))
    obtain ⟨hopen', hlenient'⟩ := @entry_answer_of_not_failure _ host (m.2 0) m.1 ev.1 key
      (htr ev List.mem_cons_self)
    exact ⟨fun h => hopen' (hopen h), fun h => hlenient (hlenient' h)⟩

/-! ## Gated paths -/

/-- One action as a handler. -/
def call (a : Action Comp) : Handler Comp (Answer Comp a) := Prog.perform a

/-- `get_module_semaphore`: two lock sections. -/
def getModuleSemaphore (key : String) : Handler Comp Nat := do
  match ← call (.findSemaphore key) with
  | some semaphore => pure semaphore
  | none => call (.createSemaphore key)

/-- How every gated path begins: the circuit check, then `try_acquire` on the semaphore of the
    same key. `go` continues with the permit. -/
def passGate {α : Type} (key : String) (blocked : CircuitOpenError → α) (overloaded : α)
    (go : Nat → Handler Comp α) : Handler Comp α := do
  match ← call (.checkRequest key) with
  | .error e => return blocked e
  | .ok () =>
    let semaphore ← getModuleSemaphore key
    match ← call (.tryAcquire semaphore) with
    | false => return overloaded
    | true => go semaphore

end

end Mik.Runtime
