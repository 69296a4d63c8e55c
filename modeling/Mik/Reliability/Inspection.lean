/-
  The inspection methods of `reliability::CircuitBreaker`, and what they leave behind.

  `is_open`, `get_state`, `failure_count` and `get_all_states` read the cache. `is_blocking` is
  `check_request(key).is_err()`, so it goes through the entry's compute closure and may start a
  probe. A history with inspections is a list of `Event`s, and `callsOf` is what is left of it when
  they are taken out; `Unnoticed` compares the two runs at every point. They agree throughout
  exactly when no inserted `is_blocking` finds its key due for a probe.
-/
import Mik.Reliability.CircuitBreaker

namespace Mik.Reliability

open Mik.Lib

/-! ## The methods -/

def CircuitBreaker.isBlocking (cb : CircuitBreaker) (key : String) (elapsedAt startedAt : Nat) :
    Bool × CircuitBreaker :=
  match cb.checkRequest key elapsedAt startedAt with
  | (.ok (), cb') => (false, cb')
  | (.error _, cb') => (true, cb')

def CircuitBreaker.isOpen (cb : CircuitBreaker) (key : String) : Bool :=
  match cb.states.lookup key with
  | some (.opened _ _) => true
  | _ => false

/-- `get_state`: a key with no entry reads as the default state. -/
def CircuitBreaker.getState (cb : CircuitBreaker) (key : String) : CircuitState :=
  (cb.states.lookup key).getD (.closed 0)

def CircuitBreaker.failureCount (cb : CircuitBreaker) (key : String) : Nat :=
  match cb.states.lookup key with
  | some (.closed failureCount) => failureCount
  | some (.opened _ failureCount) => failureCount
  | _ => 0

def CircuitState.name : CircuitState → String
  | .closed _ => "closed"
  | .opened _ _ => "open"
  | .halfOpen _ => "half_open"

def CircuitBreaker.getAllStates (cb : CircuitBreaker) : List (String × String) :=
  cb.states.entries.map fun e => (e.1, e.2.name)

inductive Inspection where
  | isBlocking (key : String) (elapsedAt startedAt : Nat)
  | isOpen (key : String)
  | getState (key : String)
  | failureCount (key : String)
  | getAllStates
  deriving DecidableEq, Repr

/-- What an inspection answers. -/
inductive Answer where
  | flag (b : Bool)
  | state (s : CircuitState)
  | count (n : Nat)
  | names (l : List (String × String))
  deriving DecidableEq, Repr

def CircuitBreaker.inspect (cb : CircuitBreaker) : Inspection → Answer × CircuitBreaker
  | .isBlocking key elapsedAt startedAt =>
    let r := cb.isBlocking key elapsedAt startedAt
    (.flag r.1, r.2)
  | .isOpen key => (.flag (cb.isOpen key), cb)
  | .getState key => (.state (cb.getState key), cb)
  | .failureCount key => (.count (cb.failureCount key), cb)
  | .getAllStates => (.names cb.getAllStates, cb)

/-! ## Histories with inspections -/

inductive Event where
  | call (c : Call)
  | inspect (i : Inspection)
  deriving DecidableEq, Repr

def CircuitBreaker.handle (cb : CircuitBreaker) : Event → CircuitBreaker
  | .call c => cb.exec c
  | .inspect i => (cb.inspect i).2

/-- The history with its inspections taken out. -/
def callsOf (events : List Event) : List Call :=
  events.filterMap fun
    | .call c => some c
    | .inspect _ => none

/-- What a call answers; only `check_request` answers anything. -/
def CircuitBreaker.answer (cb : CircuitBreaker) : Call → Option (Except CircuitOpenError Unit)
  | .checkRequest key elapsedAt startedAt => some (cb.checkRequest key elapsedAt startedAt).1
  | _ => none

def SameStates (cb cb' : CircuitBreaker) : Prop :=
  ∀ key, cb.states.lookup key = cb'.states.lookup key

/-- Nothing shows that the inspections were made: at every point of the history the stored states,
    and what the next call answers, are those of the history without them. -/
def Unnoticed (cb : CircuitBreaker) (events : List Event) : Prop :=
  ∀ pre, pre <+: events →
    SameStates (run CircuitBreaker.handle cb pre) (run CircuitBreaker.exec cb (callsOf pre)) ∧
      ∀ c, pre ++ [.call c] <+: events →
        (run CircuitBreaker.handle cb pre).answer c =
          (run CircuitBreaker.exec cb (callsOf pre)).answer c

/-- A `check_request` on `key` would start a probe: the circuit is Open and its timeout has
    elapsed, or it is HalfOpen and its probe, started at another instant, has timed out. -/
def CircuitBreaker.DueForProbe (cb : CircuitBreaker) (key : String) (elapsedAt startedAt : Nat) :
    Prop :=
  (∃ openedAt n, cb.states.lookup key = some (.opened openedAt n) ∧
      cb.config.timeout ≤ elapsedAt - openedAt) ∨
    ∃ probeStart, cb.states.lookup key = some (.halfOpen probeStart) ∧ probeStart ≠ startedAt ∧
      cb.config.probeTimeout ≤ elapsedAt - probeStart

/-- The inspection is made at a moment at which it only observes. -/
def OnlyObserves (cb : CircuitBreaker) : Event → Prop
  | .inspect (.isBlocking key elapsedAt startedAt) => ¬ cb.DueForProbe key elapsedAt startedAt
  | _ => True

/-! ## What one inspection changes -/

@[simp] theorem isBlocking_snd (cb : CircuitBreaker) (key : String) (elapsedAt startedAt : Nat) :
    (cb.isBlocking key elapsedAt startedAt).2 = (cb.checkRequest key elapsedAt startedAt).2 := by
  unfold CircuitBreaker.isBlocking
  split <;> next h => rw [h]

@[simp] theorem handle_config (cb : CircuitBreaker) (e : Event) :
    (cb.handle e).config = cb.config := by
  cases e with
  | call c => exact exec_config cb c
  | inspect i =>
    cases i with
    | isBlocking key a b =>
      show (cb.isBlocking key a b).2.config = cb.config
      rw [isBlocking_snd, checkRequest_config]
    | isOpen key => rfl
    | getState key => rfl
    | failureCount key => rfl
    | getAllStates => rfl

/-- A check keeps the entry of its key exactly when it starts no probe. -/
theorem lookup_checkRequest_eq_iff (cb : CircuitBreaker) (key : String)
    (elapsedAt startedAt : Nat) :
    (cb.checkRequest key elapsedAt startedAt).2.states.lookup key = cb.states.lookup key ↔
      ¬ cb.DueForProbe key elapsedAt startedAt := by
  rw [lookup_checkRequest]
  unfold CircuitBreaker.DueForProbe
  match cb.states.lookup key with
  | none => simp [checkDecision, Op.apply]
  | some (.closed n) => simp [checkDecision, Op.apply]
  | some (.opened openedAt n) =>
    by_cases hle : cb.config.timeout ≤ elapsedAt - openedAt
    · simp [checkDecision, Op.apply, hle]
    · simp [checkDecision, Op.apply, hle]
  | some (.halfOpen probeStart) =>
    by_cases hle : cb.config.probeTimeout ≤ elapsedAt - probeStart
    · simp [checkDecision, Op.apply, hle, eq_comm]
    · simp [checkDecision, Op.apply, hle]

theorem sameStates_checkRequest_iff (cb : CircuitBreaker) (key : String)
    (elapsedAt startedAt : Nat) :
    SameStates (cb.checkRequest key elapsedAt startedAt).2 cb ↔
      ¬ cb.DueForProbe key elapsedAt startedAt := by
  rw [← lookup_checkRequest_eq_iff]
  constructor
  · intro h
    exact h key
  · intro h key'
    by_cases hk : key' = key
    · rw [hk, h]
    · exact lookup_exec_of_ne cb (.checkRequest key elapsedAt startedAt) hk

/-- An inspection keeps the stored states exactly when it only observes. -/
theorem sameStates_inspect_iff (cb : CircuitBreaker) (i : Inspection) :
    SameStates (cb.handle (.inspect i)) cb ↔ OnlyObserves cb (.inspect i) := by
  cases i with
  | isBlocking key a b =>
    show SameStates (cb.isBlocking key a b).2 cb ↔ ¬ cb.DueForProbe key a b
    rw [isBlocking_snd]
    exact sameStates_checkRequest_iff cb key a b
  | isOpen key => exact ⟨fun _ => trivial, fun _ _ => rfl⟩
  | getState key => exact ⟨fun _ => trivial, fun _ _ => rfl⟩
  | failureCount key => exact ⟨fun _ => trivial, fun _ _ => rfl⟩
  | getAllStates => exact ⟨fun _ => trivial, fun _ _ => rfl⟩

/-! ## Two breakers side by side -/

section

variable {cb cb' : CircuitBreaker}

theorem SameStates.symm (h : SameStates cb cb') : SameStates cb' cb := fun key => (h key).symm

theorem SameStates.trans {cb'' : CircuitBreaker} (h : SameStates cb cb')
    (h' : SameStates cb' cb'') : SameStates cb cb'' :=
  fun key => (h key).trans (h' key)

/-- Breakers with one configuration and the same stored states answer alike. -/
theorem SameStates.answer (h : SameStates cb cb') (hconf : cb.config = cb'.config) (c : Call) :
    cb.answer c = cb'.answer c := by
  cases c with
  | checkRequest key a b =>
    simp only [CircuitBreaker.answer, CircuitBreaker.checkRequest, h key, hconf]
    split <;> rfl
  | recordSuccess key => rfl
  | recordFailure key t => rfl
  | reset key => rfl
  | evict key => rfl

theorem sameStates_andComputeWith (h : SameStates cb cb') (key : String)
    (f : Option CircuitState → Op) (key' : String) :
    (andComputeWith cb.states key f).lookup key' =
      (andComputeWith cb'.states key f).lookup key' := by
  by_cases hk : key' = key
  · rw [hk, lookup_andComputeWith, lookup_andComputeWith, h key]
  · rw [lookup_andComputeWith_of_ne _ f hk, lookup_andComputeWith_of_ne _ f hk, h key']

/-- A call takes them to the same stored states. -/
theorem SameStates.exec (h : SameStates cb cb') (hconf : cb.config = cb'.config) (c : Call) :
    SameStates (cb.exec c) (cb'.exec c) := by
  intro key'
  cases c with
  | checkRequest key a b =>
    simp only [CircuitBreaker.exec, checkRequest_states, hconf]
    exact sameStates_andComputeWith h key _ key'
  | recordSuccess key => exact sameStates_andComputeWith h key successOp key'
  | recordFailure key t =>
    simp only [CircuitBreaker.exec, CircuitBreaker.recordFailure, hconf]
    exact sameStates_andComputeWith h key _ key'
  | reset key => exact sameStates_andComputeWith h key resetOp key'
  | evict key =>
    show (cb.states.erase key).lookup key' = (cb'.states.erase key).lookup key'
    by_cases hk : key' = key
    · rw [hk, AList.lookup_erase, AList.lookup_erase]
    · rw [AList.lookup_erase_ne hk, AList.lookup_erase_ne hk, h key']

/-- Run side by side, one with the inspections and one without, the breakers store the same states
    at every point exactly when all inspections only observe. -/
theorem sameStates_throughout_iff (events : List Event) (h : SameStates cb cb')
    (hconf : cb.config = cb'.config) :
    (∀ pre, pre <+: events → SameStates (run CircuitBreaker.handle cb pre)
        (run CircuitBreaker.exec cb' (callsOf pre))) ↔
      Along CircuitBreaker.handle OnlyObserves cb events := by
  induction events generalizing cb cb' with
  | nil =>
    refine ⟨fun _ => trivial, fun _ pre hpre => ?_⟩
    rw [List.prefix_nil.mp hpre]
    exact h
  | cons e events ih =>
    -- the event's effect on the run without inspections
    have hnext : ∀ cb₁, SameStates (cb.handle e) cb₁ → cb.config = cb₁.config →
        (∀ pre, run CircuitBreaker.exec cb' (callsOf (e :: pre)) =
          run CircuitBreaker.exec cb₁ (callsOf pre)) →
        ((∀ pre, pre <+: e :: events → SameStates (run CircuitBreaker.handle cb pre)
            (run CircuitBreaker.exec cb' (callsOf pre))) ↔
          Along CircuitBreaker.handle OnlyObserves (cb.handle e) events) := by
      intro cb₁ hsame hc hcalls
      rw [← ih hsame (by rw [handle_config, hc])]
      constructor
      · intro hall pre hpre
        have := hall (e :: pre) (List.cons_prefix_cons.mpr ⟨rfl, hpre⟩)
        rwa [hcalls] at this
      · intro hall pre hpre
        cases pre with
        | nil => exact h
        | cons e' pre =>
          obtain ⟨rfl, hpre'⟩ := List.cons_prefix_cons.mp hpre
          rw [run_cons, hcalls]
          exact hall pre hpre'
    cases e with
    | call c =>
      rw [hnext (cb'.exec c) (h.exec hconf c) (by rw [exec_config, hconf]) (fun _ => rfl)]
      exact ⟨fun hrest => ⟨trivial, hrest⟩, fun hall => hall.2⟩
    | inspect i =>
      have hiff := sameStates_inspect_iff cb i
      constructor
      · intro hall
        have hone : SameStates (cb.handle (.inspect i)) cb' :=
          hall [.inspect i] (List.cons_prefix_cons.mpr ⟨rfl, List.nil_prefix⟩)
        exact ⟨hiff.mp (hone.trans h.symm), (hnext cb' hone hconf (fun _ => rfl)).mp hall⟩
      · rintro ⟨hobs, hrest⟩
        exact (hnext cb' ((hiff.mpr hobs).trans h) hconf (fun _ => rfl)).mpr hrest

end

/-- Inspection is observation only, for a history of any calls with any inspections inserted,
    exactly when no inserted `is_blocking` comes at a moment at which its key is due for a probe. -/
theorem inspection_unnoticed_iff (cb : CircuitBreaker) (events : List Event) :
    Unnoticed cb events ↔ Along CircuitBreaker.handle OnlyObserves cb events := by
  rw [← sameStates_throughout_iff events (fun _ => rfl) rfl]
  constructor
  · intro h pre hpre
    exact (h pre hpre).1
  · intro h pre hpre
    refine ⟨h pre hpre, fun c _ => (h pre hpre).answer ?_ c⟩
    rw [run_exec_config]
    exact run_keeps (fun cb₁ : CircuitBreaker => cb₁.config = cb.config)
      (fun cb₁ e he => (handle_config cb₁ e).trans he) rfl pre

/-- The circuit opens at 0 with a timeout of 10. The `is_blocking` at 10 takes the probe, and the
    request at 11, which would have been the probe, is refused. -/
theorem isBlocking_takes_probe :
    ¬ Unnoticed (.withConfig ⟨1, 10, 100, 1000, 600, by decide⟩)
      [.call (.recordFailure "db" 0), .inspect (.isBlocking "db" 10 10),
        .call (.checkRequest "db" 11 11)] := by
  intro h
  have hanswer := (h [.call (.recordFailure "db" 0), .inspect (.isBlocking "db" 10 10)]
    ⟨[.call (.checkRequest "db" 11 11)], rfl⟩).2 (.checkRequest "db" 11 11) (List.prefix_refl _)
  revert hanswer
  decide

end Mik.Reliability
