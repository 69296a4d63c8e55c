/-
  Script orchestration (`src/runtime/script/`).

  `executeHandlerCall` is one `host.call()`: circuit check, permit, load, execution. A script is
  known only through what it asks of the host, so `JsRun` is the tree of its `host.call()`s: the
  JS thread blocks on each answer, so the next call comes after the previous one was answered.
  QuickJS and serde_json are the parameters `ScriptLib`; JSON values are kept as their text.
-/
import Mik.Runtime.Actions

namespace Mik.Runtime

open Mik.Lib

/-- The arguments of a `host.call()`; `body` is the JSON text, if there is one. -/
structure HostCall where
  module : String
  method : String
  path : String
  headers : List (String × String)
  body : Option String
  deriving DecidableEq, Repr

/-- The body of a result: `{"error": .., "message": ..}`, the handler's own body, or null. -/
inductive HostCallBody where
  | failure (code message : String)
  | handler (bytes : Bytes)
  | null
  deriving DecidableEq, Repr

structure HostCallResult where
  status : Nat
  headers : List (String × String)
  body : HostCallBody
  error : Option String
  deriving DecidableEq, Repr

/-- The result of a call that the host refuses or that fails. -/
def HostCallResult.failed (status : Nat) (code message : String) : HostCallResult :=
  ⟨status, [], .failure code message, some code⟩

/-- A run of `run_js_script`. -/
inductive JsRun where
  | finish (result : Except String String)
  | crash (message : String)
  | hostCall (c : HostCall) (k : HostCallResult → JsRun)

structure ScriptLib where
  /-- `serde_json::from_slice`, the value as text. -/
  parseJson : Bytes → Except String String
  run : String → String → JsRun

/-- `http::request::Builder`: method, URI and every header must parse. -/
def buildRequest (http : HttpLib) (method uri : String) (headers : List (String × String))
    (body : Bytes) : Option Request := do
  let method ← http.parseMethod method
  let uri ← http.parseUri uri
  let headers ← headers.mapM fun h => do
    let name ← http.parseHeaderName h.1
    if http.headerValueOk h.2 then some (name, utf8 h.2) else none
  return ⟨method, uri, headers, ⟨[body], none⟩⟩

/-- The request `execute_handler_call` builds for a call. -/
def handlerCallRequest (http : HttpLib) (c : HostCall) (traceId : String) : Option Request :=
  let bodyBytes := (c.body.map utf8).getD []
  buildRequest http c.method ("http://localhost" ++ c.path)
    ([("host", "localhost"), ("traceparent", traceId)] ++ c.headers ++
      (if bodyBytes = [] then [] else [("content-type", "application/json")])) bodyBytes

section

variable {Comp : Type}

def executeHandlerCall (http : HttpLib) (c : HostCall) (traceId : String) :
    Handler Comp (Except Error HostCallResult) :=
  passGate c.module (fun e => .ok (.failed 503 "CIRCUIT_OPEN" e.toString))
    (.ok (.failed 429 "RATE_LIMITED" "Module overloaded")) fun semaphore => do
  match ← call (.getOrLoad c.module) with
  | .error e =>
    call (.recordFailure c.module)
    call (.release semaphore)
    return .ok (.failed 404 "MODULE_NOT_FOUND" e.toString)
  | .ok component =>
    match handlerCallRequest http c traceId with
    | none =>
      -- `?` on the builder: the permit is dropped, nothing is recorded
      call (.release semaphore)
      return .error (.other "Failed to build request")
    | some req =>
      match (← call (.execute component req)).result with
      | .ok response =>
        call (.recordSuccess c.module)
        call (.release semaphore)
        return .ok ⟨response.status, response.headers, .handler response.body, none⟩
      | .error e =>
        call (.recordFailure c.module)
        call (.release semaphore)
        return .ok (.failed 500 "HANDLER_ERROR" e.toString)

/-- The loop of `execute_script`: `lastError` is the last handler call that returned `Err`. -/
def executeScript (http : HttpLib) (traceId : String) :
    JsRun → Option String → Nat → Handler Comp (Except Error (String × Nat))
  | .finish (.ok result), none, callsExecuted => pure (.ok (result, callsExecuted))
  | .finish (.ok _), some err, _ => pure (.error (.other ("Handler error: " ++ err)))
  | .finish (.error e), _, _ => pure (.error (.other ("Script error: " ++ e)))
  | .crash e, _, _ => pure (.error (.other ("Script panicked: " ++ e)))
  | .hostCall c k, lastError, callsExecuted => do
    match ← executeHandlerCall http c traceId with
    | .ok resp => executeScript http traceId (k resp) lastError (callsExecuted + 1)
    | .error e =>
      executeScript http traceId (k ⟨500, [], .null, some e.toString⟩) (some e.toString)
        (callsExecuted + 1)

/-- The script a path names: the first segment after `/script/`, sanitised. -/
def scriptName (path : String) : Except Error String :=
  let scriptPath := ((stripPrefix "/script/" path).getD path).toList.dropWhile (· = '/')
  match String.ofList (scriptPath.takeWhile (· ≠ '/')) with
  | "" => .error (.other "Missing script name")
  | name =>
    match sanitizeModuleName name with
    | .error e => .error (.other ("Invalid script name: " ++ e.toString))
    | .ok name => .ok name

def bodyTooLarge (size maxBody : Nat) : Error :=
  .other ("Request body too large: " ++ size.repr ++ " bytes (max: " ++ maxBody.repr ++ " bytes)")

/-- The JSON input of a script request. -/
def scriptInput (lib : ScriptLib) (req : Request) (maxBody : Nat) : Except Error String := do
  let declared := (contentLength req.headers).getD 0
  if maxBody < declared then throw (bodyTooLarge declared maxBody)
  if req.body.failure.isSome then throw (.other "Failed to read request body")
  let bodyBytes := req.body.frames.flatten
  if maxBody < bodyBytes.length then throw (bodyTooLarge bodyBytes.length maxBody)
  if bodyBytes = [] then return "null"
  match lib.parseJson bodyBytes with
  | .ok input => return input
  | .error e => throw (.other ("Invalid JSON in request body: " ++ e))

def handleScriptRequest (host : Host Comp) (http : HttpLib) (lib : ScriptLib) (req : Request)
    (path traceId : String) : Handler Comp (Except Error Response) := do
  match scriptName path with
  | .error e => return .error e
  | .ok name =>
    match host.scriptsDir with
    | none => return .error (.other "Scripts not enabled (no scripts_dir configured)")
    | some scriptsDir =>
      match ← call (.readScript (join scriptsDir (name ++ ".js"))) with
      | none => return .error (.other ("Script not found: " ++ name))
      | some script =>
        match scriptInput lib req host.maxBodySizeBytes with
        | .error e => return .error e
        | .ok input =>
          match ← executeScript http traceId (lib.run script input) none 0 with
          | .error e => return .error e
          | .ok (result, callsExecuted) =>
            return .ok ⟨200, [("content-type", "application/json")],
              utf8 ("\x7b\"result\":" ++ result ++ ",\"calls_executed\":" ++
                callsExecuted.repr ++ "\x7d")⟩

end

end Mik.Runtime
