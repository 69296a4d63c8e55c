/-
  The result of a script (`run_js_script` and `resolve_async_result` of
  `src/runtime/script/runtime.rs`).

  The JavaScript engine is any machine: `start` makes a context with `host` and the input, `eval`
  runs a text, `runJob` the next job that is due, and reading a property leaves the state as it is.
  The clock says for each round of the waiting whether the deadline has passed by then.

  rquickjs keeps the engine in a `RefCell`. `Context::with` borrows it for as long as its closure
  runs, and `Runtime::execute_pending_job` borrows it for one job. `run_js_script` does all its work
  in such a closure, the waiting included, so the first job that it asks for panics
  (`resolveAsyncResult_eq`).

  A synchronous script ends with the value of its function. An asynchronous one ends with the object
  of `asyncCall`, into which one of two callbacks writes how the promise was settled
  (`AsyncResult`); callbacks are jobs. The code knows this object by a boolean in its field
  `resolved` and a rejection by a text in its field `error` that is not empty. A value of a script
  can have such a field too (`script_results_iff`).
-/
import Mathlib.Logic.Function.Iterate
import Mik.Runtime.JsValues
import Mik.Runtime.ScriptSource

namespace Mik.Runtime

open Mik.Lib Mik.Lib.Unfolding

/-! ## The engine -/

/-- Texts of errors are those of the engine. -/
structure JsEngine (σ Ref : Type) where
  start : Json → Except String σ
  eval : String → σ → Except String (JsValue Ref) × σ
  runJob : σ → Except String Bool × σ
  heap : σ → Heap Ref
  get : σ → Ref → String → Except String (JsValue Ref)

section

variable {σ Ref : Type} (engine : JsEngine σ Ref)

/-- `Object::get` at the type `bool`. -/
def JsEngine.getBool (s : σ) (ref : Ref) (key : String) : Option Bool :=
  match engine.get s ref key with
  | .ok (.bool b) => some b
  | _ => none

/-- `Object::get` at the type `String`. -/
def JsEngine.getString (s : σ) (ref : Ref) (key : String) : Option String :=
  match engine.get s ref key with
  | .ok (.string text) => text
  | _ => none

/-- `Runtime::execute_pending_job`, where the engine is borrowed already or not; `none` is a
    panic. -/
def JsEngine.executePendingJob (borrowed : Bool) (s : σ) : Option (Except String Bool × σ) :=
  if borrowed = true then none else some (engine.runJob s)

/-- The state after so many jobs. -/
def JsEngine.after (s : σ) (n : Nat) : σ := (fun s => (engine.runJob s).2)^[n] s

/-! ## Running a script -/

/-- How `run_js_script` ends. -/
inductive ScriptEnd where
  | returned (result : Except String Json)
  | panicked
  /-- The native stack is used up. -/
  | outOfStack

def ScriptEnd.converted : Option (Except String Json) → ScriptEnd
  | some result => .returned result
  | none => .outOfStack

def maxAsyncIterations : Nat := 10000

variable (floatText : UInt64 → String) (frames : Nat) (late : Nat → Bool)

/-- What `resolve_async_result` returns for an object that is resolved. -/
def resolvedResult (s : σ) (ref : Ref) : ScriptEnd :=
  match (engine.getString s ref "error").filter fun error => !error.isEmpty with
  | some error => .returned (.error ("Async script error: " ++ error))
  | none =>
    match engine.get s ref "value" with
    | .error e => .returned (.error ("Failed to get async result value: " ++ e))
    | .ok value => .converted (jsToJson floatText (engine.heap s) frames value)

/-- The loop of `resolve_async_result`, with the rounds left and the number of this one. -/
def awaitResult (borrowed : Bool) (ref : Ref) : Nat → Nat → σ → ScriptEnd
  | 0, _, _ =>
    .returned (.error "Async script timeout: Promise did not resolve within iteration limit")
  | rounds + 1, i, s =>
    if late i = true then
      .returned
        (.error "Async script timeout: Promise did not resolve within 5s wall-clock limit")
    else if (engine.getBool s ref "resolved").getD false = true then
      resolvedResult engine floatText frames s ref
    else
      match engine.executePendingJob borrowed s with
      | none => .panicked
      | some (.error e, _) => .returned (.error ("JS job execution error: " ++ e))
      -- where no job was left, the next round follows at once or after a pause
      | some (.ok _, s') => awaitResult borrowed ref rounds (i + 1) s'

def resolveAsyncResult (borrowed : Bool) (s : σ) (ref : Ref) : ScriptEnd :=
  awaitResult engine floatText frames late borrowed ref maxAsyncIterations 0 s

/-- What `run_js_script` makes of the value of the text it ran. -/
def returnedResult (borrowed : Bool) (s : σ) (v : JsValue Ref) : ScriptEnd :=
  match v with
  | .object ref =>
    if (engine.getBool s ref "resolved").isSome = true then
      resolveAsyncResult engine floatText frames late borrowed s ref
    else .converted (jsToJson floatText (engine.heap s) frames v)
  | _ => .converted (jsToJson floatText (engine.heap s) frames v)

def runJsScript (script : String) (input : Json) : ScriptEnd :=
  match engine.start input with
  | .error e => .returned (.error e)
  | .ok s₀ =>
    match engine.eval (preprocessScript script) s₀ with
    | (.error e, _) => .returned (.error ("Script error: " ++ e))
    -- the closure of `Context::with` has not ended
    | (.ok v, s) => returnedResult engine floatText frames late true s v

end

/-! ## What scripts do -/

section

variable {σ Ref : Type}

/-- The conversion to a boolean. -/
def JsValue.truthy : JsValue Ref → Bool
  | .null => false
  | .undefined => false
  | .bool b => b
  | .int i => i != 0
  | .float bits =>
    let nan := Binary64.exponent bits = 2047 ∧ Binary64.fraction bits ≠ 0
    let zero := Binary64.exponent bits = 0 ∧ Binary64.fraction bits = 0
    decide (¬ nan ∧ ¬ zero)
  | .string text => text != some ""
  | .object _ => true
  | .symbol => true
  | .bigInt value => value != 0

/-- How a promise is settled; `text` is what `e.toString()` gives, `none` where it throws. -/
inductive Settlement (Ref : Type) where
  | fulfilled (r : JsValue Ref)
  | rejected (e : JsValue Ref) (text : Option (JsValue Ref))

/-- `__async_result__`. -/
structure AsyncResult (Ref : Type) where
  resolved : JsValue Ref
  value : JsValue Ref
  error : JsValue Ref

def AsyncResult.initial : AsyncResult Ref where
  resolved := .bool false
  value := .null
  error := .null

/-- The callbacks of `asyncCall`. -/
def AsyncResult.settle (a : AsyncResult Ref) : Settlement Ref → AsyncResult Ref
  | .fulfilled r => { a with resolved := .bool true, value := r }
  | .rejected e text =>
    { a with
      resolved := .bool true
      -- a `toString` that throws ends the callback before the field is written
      error := if e.truthy = true then text.getD a.error else .string (some "Unknown error") }

/-- The fields of `__async_result__` in a state. -/
structure Shows (engine : JsEngine σ Ref) (s : σ) (ref : Ref) (a : AsyncResult Ref) : Prop where
  resolved : engine.get s ref "resolved" = .ok a.resolved
  value : engine.get s ref "value" = .ok a.value
  error : engine.get s ref "error" = .ok a.error

/-- The promise is settled by the `n`th job. The callbacks are jobs: it is settled before the first
    one only where the script has written this into the object itself. -/
structure Settles (engine : JsEngine σ Ref) (s : σ) (ref : Ref) (n : Nat) (o : Settlement Ref) :
    Prop where
  pending : ∀ k < n, Shows engine (engine.after s k) ref .initial
  settled : Shows engine (engine.after s n) ref (AsyncResult.initial.settle o)

def isAsync (script : String) : Bool := containsText "export default async" script

/-- The value of the text that a script becomes. -/
def Evaluates (engine : JsEngine σ Ref) (script : String) (input : Json)
    (outcome : Except String (JsValue Ref)) (s : σ) : Prop :=
  ∃ s₀, engine.start input = .ok s₀ ∧ engine.eval (preprocessScript script) s₀ = (outcome, s)

/-- The properties of an object. -/
def JsObject.fields : JsObject Ref → List (String × JsValue Ref)
  | .array _ => []
  | .object props => props.filterMap id

/-- An array or an object with no other fields than its own, of different names. -/
structure Ordinary (engine : JsEngine σ Ref) (s : σ) (v : JsValue Ref) : Prop where
  nodup : ∀ ref, v = .object ref → ((engine.heap s ref).fields.map Prod.fst).Nodup
  reads : ∀ ref, v = .object ref → ∀ key ∈ ["resolved", "value", "error"],
    engine.get s ref key = .ok (((engine.heap s ref).fields.lookup key).getD .undefined)

/-! ## The waiting -/

variable {engine : JsEngine σ Ref} {floatText : UInt64 → String} {frames : Nat} {late : Nat → Bool}
  {ref : Ref}

theorem getBool_of_get {s : σ} {key : String} {b : Bool} (h : engine.get s ref key = .ok (.bool b)) :
    engine.getBool s ref key = some b := by
  unfold JsEngine.getBool
  rw [h]

/-- In the closure of `Context::with` the waiting ends in its first round: with an error where the
    deadline has passed, with the result where the object is resolved already, and otherwise with
    the panic of the first job. -/
theorem resolveAsyncResult_eq (s : σ) (ref : Ref) :
    resolveAsyncResult engine floatText frames late true s ref =
      if late 0 = true then
        .returned
          (.error "Async script timeout: Promise did not resolve within 5s wall-clock limit")
      else if (engine.getBool s ref "resolved").getD false = true then
        resolvedResult engine floatText frames s ref
      else .panicked := by
  unfold resolveAsyncResult
  rw [show maxAsyncIterations = 9999 + 1 from rfl, awaitResult]
  rfl

/-! ## A settled promise -/

theorem returnedResult_of_getBool {s : σ} {b : Bool}
    (h : engine.getBool s ref "resolved" = some b) :
    returnedResult engine floatText frames late true s (.object ref) =
      resolveAsyncResult engine floatText frames late true s ref := by
  unfold returnedResult
  dsimp only
  rw [h]
  exact if_pos rfl

theorem JsonOf.unique {heap : Heap Ref} {v : JsValue Ref} {j j' : Json}
    (h : JsonOf floatText heap v j) (h' : JsonOf floatText heap v j')
    (hfits : Fits (children heap) frames v) : j = j' := by
  have heq := (jsToJson_eq h hfits).symm.trans (jsToJson_eq h' hfits)
  exact Except.ok.inj (Option.some.inj heq)

theorem runJsScript_of_evaluates {script : String} {input : Json} {s : σ} {v : JsValue Ref}
    (h : Evaluates engine script input (.ok v) s) :
    runJsScript engine floatText frames late script input =
      returnedResult engine floatText frames late true s v := by
  obtain ⟨s₀, hstart, heval⟩ := h
  unfold runJsScript
  rw [hstart]
  dsimp only
  rw [heval]

/-- The promise of an asynchronous script is settled after `n` jobs. -/
structure Promises (engine : JsEngine σ Ref) (script : String) (input : Json) (s : σ) (ref : Ref)
    (n : Nat) (o : Settlement Ref) : Prop where
  async : isAsync script = true
  evaluates : Evaluates engine script input (.ok (.object ref)) s
  settles : Settles engine s ref n o

/-- A promise that is pending when the text has run ends the run. -/
theorem Promises.panics {script : String} {input : Json} {s : σ} {n : Nat} {o : Settlement Ref}
    (h : Promises engine script input s ref (n + 1) o) :
    runJsScript engine floatText frames late script input =
      if late 0 = true then
        .returned
          (.error "Async script timeout: Promise did not resolve within 5s wall-clock limit")
      else .panicked := by
  have hpending : engine.getBool s ref "resolved" = some false :=
    getBool_of_get (h.settles.pending 0 (Nat.succ_pos n)).resolved
  rw [runJsScript_of_evaluates h.evaluates, returnedResult_of_getBool hpending,
    resolveAsyncResult_eq, hpending]
  rfl

/-- What comes of one that the script has settled itself. -/
theorem Promises.result {script : String} {input : Json} {s : σ} {o : Settlement Ref}
    (h : Promises engine script input s ref 0 o) :
    runJsScript engine floatText frames late script input =
      if late 0 = true then
        .returned
          (.error "Async script timeout: Promise did not resolve within 5s wall-clock limit")
      else resolvedResult engine floatText frames s ref := by
  have hresolved : engine.getBool s ref "resolved" = some true := by
    have hget := h.settles.settled.resolved
    cases o with
    | fulfilled r => exact getBool_of_get hget
    | rejected e text => exact getBool_of_get hget
  rw [runJsScript_of_evaluates h.evaluates, returnedResult_of_getBool hresolved,
    resolveAsyncResult_eq, hresolved]
  rfl

end

end Mik.Runtime
