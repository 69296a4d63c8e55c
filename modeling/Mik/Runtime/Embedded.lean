/-
  Requests handled without a network (`Runtime::handle_request_internal` of
  `src/runtime/mod.rs`), against `handle_request_inner`.

  The embedded handler is a copy of the platform branch of the network handler. Its request has
  the body in one piece (`Full<Bytes>`), and it hands that body to the execution as it is: the
  limit of `collect_request_body` is missing. `observe` is what the two are compared by, and
  `embedded_agrees_iff` says exactly which requests they treat alike. Both are a continuation of
  `resolve_module` (`handleRequestInternal_eq`), so the proof compares the two continuations.

  Compression is `compressResponse` here, with the gzip encoder as the only parameter: the two
  handlers compress responses whose headers differ by the gateway headers.
-/
import Mik.Runtime.Settlement

namespace Mik.Runtime

open Mik.Lib Mik.Lib.Prog Mik.Reliability

/-! ## Compression -/

def gzipMinSize : Nat := 1024

def isCompressibleContentType (contentType : String) : Bool :=
  startsWith "text/" contentType || containsText "json" contentType ||
    containsText "xml" contentType || containsText "javascript" contentType ||
    contentType == "image/svg+xml"

/-- The `Content-Type` of a response, empty if it is absent or unreadable. -/
def Response.contentType (resp : Response) : String :=
  ((resp.headers.lookup "content-type").bind fun value => headerToStr (utf8 value)).getD ""

/-- The body to send and its encoding; `gzip` is the encoder, which may fail. -/
def maybeCompressBody (gzip : Bytes → Option Bytes) (body : Bytes) (contentType : String)
    (clientAcceptsGzip : Bool) : Bytes × Option String :=
  if !clientAcceptsGzip then (body, none)
  else if body.length < gzipMinSize then (body, none)
  else if !isCompressibleContentType contentType then (body, none)
  else
    match gzip body with
    | none => (body, none)
    | some compressed =>
      if body.length ≤ compressed.length then (body, none) else (compressed, some "gzip")

/-- `maybe_compress_response` for a client that accepts gzip. -/
def compressResponse (gzip : Bytes → Option Bytes) (resp : Response) : Response :=
  if resp.body.length < gzipMinSize then resp
  else if !isCompressibleContentType resp.contentType then resp
  else
    match maybeCompressBody gzip resp.body resp.contentType true with
    | (_, none) => resp
    | (compressed, some encoding) =>
      { resp with
        headers := resp.headers.filter (fun h => h.1 ≠ "content-length") ++
          [("content-encoding", encoding), ("content-length", compressed.length.repr)]
        body := compressed }

def HttpLib.withGzip (http : HttpLib) (gzip : Bytes → Option Bytes) : HttpLib :=
  { http with compress := compressResponse gzip }

/-- `accepts_gzip`. -/
def acceptsGzip (headers : List (String × Bytes)) : Bool :=
  match (headers.lookup "accept-encoding").bind headerToStr with
  | none => false
  | some value => containsText "gzip" value

theorem lookup_insertHeader_ne {name key : String} (value : String) (resp : Response)
    (h : key ≠ name) :
    (insertHeader name value resp).headers.lookup key = resp.headers.lookup key := by
  unfold insertHeader
  dsimp only
  induction resp.headers with
  | nil => simp [h]
  | cons hd tl ih =>
    obtain ⟨k, v⟩ := hd
    by_cases hk : k = name
    · rw [List.filter_cons_of_neg (by simp [hk]), ih, List.lookup_cons]
      have hne : (key == k) = false := by simp [hk, h]
      rw [hne]
    · rw [List.filter_cons_of_pos (by simp [hk]), List.cons_append, List.lookup_cons,
        List.lookup_cons, ih]

/-- What a response shows is compressed alike under any other headers but the content type. -/
theorem compressResponse_congr (gzip : Bytes → Option Bytes) {resp resp' : Response}
    (hstatus : resp'.status = resp.status) (hbody : resp'.body = resp.body)
    (htype : resp'.contentType = resp.contentType) :
    (compressResponse gzip resp').status = (compressResponse gzip resp).status ∧
      (compressResponse gzip resp').body = (compressResponse gzip resp).body := by
  unfold compressResponse
  rw [hbody, htype]
  split
  · exact ⟨hstatus, hbody⟩
  split
  · exact ⟨hstatus, hbody⟩
  split
  · exact ⟨hstatus, hbody⟩
  · exact ⟨hstatus, rfl⟩

/-! ## The embedded handler -/

/-- `hyper::Request<Full<Bytes>>`. -/
structure FullRequest where
  method : String
  uri : Uri
  headers : List (String × Bytes)
  body : Bytes
  deriving DecidableEq, Repr

/-- The request with its body wrapped for the execution. -/
def FullRequest.toRequest (req : FullRequest) : Request :=
  ⟨req.method, req.uri, req.headers, ⟨[req.body], none⟩⟩

/-- The ways a body can be cut into frames. -/
abbrev Framing (body : Bytes) := { frames : List Bytes // frames.flatten = body }

/-- The same request as a connection delivers it. -/
def FullRequest.overWire (req : FullRequest) (wire : Framing req.body) : Request :=
  ⟨req.method, req.uri, req.headers, ⟨wire.val, none⟩⟩

section

variable {Comp : Type}

/-- From a resolved module on: rebuild the request with the new path, execute, record. -/
def executeFull (http : HttpLib) (req : FullRequest) (clientAcceptsGzip : Bool)
    (component : Comp) (handlerPath : String) (moduleName : Option String)
    (modulePermit : Option Nat) : Handler Comp (Except Error Response) := do
  match rewriteRequestPath http req.toRequest handlerPath with
  | .error e =>
    dropPermit modulePermit
    return .error e
  | .ok req =>
    let exec ← call (.execute component req)
    recordOutcome moduleName exec.result
    dropPermit modulePermit
    match exec.result with
    | .error e => return .error e
    | .ok resp => return .ok (maybeCompressResponse http resp clientAcceptsGzip)

/-- The `/run/` route of `handle_request_internal`, from the module route on. -/
def handleRun (host : Host Comp) (http : HttpLib) (req : FullRequest)
    (module handlerPath : String) : Handler Comp (Except Error Response) :=
  let clientAcceptsGzip := acceptsGzip req.headers
  if module = "" then return .ok (notFound "No module specified. Use /run/<module>/")
  else
    match host.singleComponent with
    | some (expectedName, comp) =>
      if module = expectedName then
        executeFull http req clientAcceptsGzip comp handlerPath (some module) none
      else return .ok (errorResponse (.moduleNotFound module))
    | none =>
      passGate module
        (fun _ => .ok (insertHeader "retry-after" "30"
          (errorResponse (.circuitBreakerOpen module))))
        (.ok (insertHeader "retry-after" "5" (errorResponse (.rateLimitExceeded
          ("Module '" ++ module ++ "' overloaded (max " ++ host.maxPerModuleRequests.repr ++
            " concurrent)"))))) fun semaphore => do
      match ← call (.getOrLoad module) with
      | .ok comp =>
        executeFull http req clientAcceptsGzip comp handlerPath (some module) (some semaphore)
      | .error _ =>
        call (.recordFailure module)
        call (.release semaphore)
        return .ok (errorResponse (.moduleNotFound module))

/-- `Runtime::handle_request_internal`. The built-in endpoints are routes outside the model, as
    the static files are. -/
def handleRequestInternal (host : Host Comp) (http : HttpLib) (req : FullRequest) :
    Handler Comp (Except Error Response) :=
  let path := req.uri.path
  if path = "/health" ∨ path = "/metrics" then call (.serveOther path)
  else
    match validatePathLength path with
    | some resp => return .ok resp
    | none =>
      match validateContentLength req.headers host.maxBodySizeBytes with
      | some resp => return .ok resp
      | none =>
        if startsWith "/static/" path then call (.serveOther path)
        else
          match stripPrefix "/run/" path with
          | none =>
            return .ok (notFound "Not found. WASM modules are served at /run/<module>/")
          | some runPath =>
            let route := parseModuleRoute runPath
            handleRun host http req route.1 route.2

/-! ## What is compared -/

/-- The executions of a trace: the component and the request it is given. -/
def executions (tr : List (HandlerEvent Comp)) : List (Comp × Request) :=
  tr.filterMap fun ev =>
    match ev.1 with
    | .execute component req => some (component, req)
    | _ => none

/-- Status and body of a response, or the error in its place. -/
def seen : Except Error Response → Except Error (Nat × Bytes)
  | .ok resp => .ok (resp.status, resp.body)
  | .error e => .error e

/-- What a handler shows for: its answer, the executions and the circuit breaker it leaves. -/
structure Observed (Comp : Type) where
  answer : Except Error (Nat × Bytes)
  executed : List (Comp × Request)
  breaker : CircuitBreaker

def observe (host : Host Comp) (p : Handler Comp (Except Error Response)) (m : Machine Comp) :
    Observed Comp where
  answer := seen (runOn (answerNext host) p m).1
  executed := executions (traceOn (answerNext host) p m)
  breaker := (runOn (answerNext host) p m).2.1.circuitBreaker

/-- The state once a permit was asked for, and the world from there on. -/
def afterPermit (host : Host Comp) (module : String) (m : Machine Comp) : Machine Comp :=
  let m := (answerNext host (.checkRequest module) m).2
  let found := runOn (answerNext host) (getModuleSemaphore module) m
  (answerNext host (.tryAcquire found.1) found.2).2

/-- The circuit lets the request pass, a permit is left and the module loads. -/
structure Runnable (host : Host Comp) (m : Machine Comp) (module : String) : Prop where
  circuit : (m.1.circuitBreaker.checkRequest module (m.2 0).elapsedAt (m.2 0).startedAt).1 = .ok ()
  permit : 0 < permitsFor host m.1 module
  loads : ∃ comp, (getOrLoad host ((afterPermit host module m).2 0).io
    (afterPermit host module m).1 module).1 = .ok comp

/-- The module is named, and is the single component or can be run. -/
def Resolves (host : Host Comp) (m : Machine Comp) (module : String) : Prop :=
  module ≠ "" ∧
    match host.singleComponent with
    | some (expectedName, _) => module = expectedName
    | none => Runnable host m module

/-- Nothing answers the request before its body is looked at: no limit, no other route, no gate,
    and the module is there. -/
structure ReachesBody (host : Host Comp) (http : HttpLib) (m : Machine Comp) (req : FullRequest)
    (runPath : String) : Prop where
  pathLength : validatePathLength req.uri.path = none
  declared : validateContentLength req.headers host.maxBodySizeBytes = none
  route : stripPrefix "/run/" req.uri.path = some runPath
  resolves : Resolves host m (parseModuleRoute runPath).1
  rewrites : http.withPathAndQuery req.uri (parseModuleRoute runPath).2 ≠ none

/-- The gateway headers do not show in status and body, compressed or not. -/
theorem seen_gatewayHeaders (http : HttpLib) (gzip : Bytes → Option Bytes) (durationMs : Nat)
    (moduleName : Option String) (resp : Response) (clientAcceptsGzip : Bool) :
    seen (.ok (maybeCompressResponse (http.withGzip gzip)
        (gatewayHeaders (http.withGzip gzip) durationMs moduleName resp) clientAcceptsGzip)) =
      seen (.ok (maybeCompressResponse (http.withGzip gzip) resp clientAcceptsGzip)) := by
  have hsame : ∀ {resp' : Response} (name value : String), "content-type" ≠ name →
      (insertHeader name value resp').contentType = resp'.contentType := by
    intro resp' name value hne
    unfold Response.contentType
    rw [lookup_insertHeader_ne value resp' hne]
  have hheaders : ∀ resp', resp' = gatewayHeaders (http.withGzip gzip) durationMs moduleName resp →
      resp'.status = resp.status ∧ resp'.body = resp.body ∧
        resp'.contentType = resp.contentType := by
    rintro resp' rfl
    unfold gatewayHeaders
    cases moduleName with
    | none => exact ⟨rfl, rfl, hsame _ _ (by decide)⟩
    | some handlerName =>
      dsimp only
      split
      · exact ⟨rfl, rfl, (hsame _ _ (by decide)).trans (hsame _ _ (by decide))⟩
      · exact ⟨rfl, rfl, hsame _ _ (by decide)⟩
  obtain ⟨hstatus, hbody, htype⟩ := hheaders _ rfl
  unfold maybeCompressResponse
  cases clientAcceptsGzip with
  | false =>
    show Except.ok _ = Except.ok _
    rw [if_neg (by decide), if_neg (by decide), hstatus, hbody]
  | true =>
    obtain ⟨hs, hb⟩ := compressResponse_congr gzip hstatus hbody htype
    show Except.ok (_, _) = Except.ok (_, _)
    exact congrArg Except.ok (Prod.ext hs hb)

/-! ## Two continuations of one resolution -/

/-- What the embedded handler does with a resolution. -/
def continueFull (http : HttpLib) (req : FullRequest) :
    ModuleResolution Comp → Handler Comp (Except Error Response)
  | .response resp => .ret (.ok resp)
  | .success component handlerPath moduleName modulePermit =>
    executeFull http req (acceptsGzip req.headers) component handlerPath moduleName modulePermit

/-- What the network handler does with it. -/
def continueWire (host : Host Comp) (http : HttpLib) (req : Request) (clientAcceptsGzip : Bool) :
    ModuleResolution Comp → Handler Comp (Except Error Response)
  | .response resp => .ret (.ok resp)
  | .success component handlerPath moduleName modulePermit =>
    executeResolved host http req clientAcceptsGzip component handlerPath moduleName modulePermit

theorem passGate_bind {α β : Type} {key : String} {blocked : CircuitOpenError → α} {overloaded : α}
    {go : Nat → Handler Comp α} {f : α → Handler Comp β} {blocked' : CircuitOpenError → β}
    {overloaded' : β} (hb : ∀ e, f (blocked e) = .ret (blocked' e))
    (ho : f overloaded = .ret overloaded') :
    passGate key blocked overloaded go >>= f =
      passGate key blocked' overloaded' fun semaphore => go semaphore >>= f := by
  unfold passGate
  rw [call_bind, call_bind, act_bind]
  congr 1
  funext r
  cases r with
  | error e => exact hb e
  | ok u =>
    dsimp only
    rw [bind_assoc]
    congr 1
    funext semaphore
    rw [call_bind, call_bind, act_bind]
    congr 1
    funext acquired
    cases acquired with
    | false => exact ho
    | true => rfl

/-- The embedded `/run/` route is `resolve_module` and its continuation. -/
theorem handleRun_eq (host : Host Comp) (http : HttpLib) (req : FullRequest) {path runPath : String}
    (h : stripPrefix "/run/" path = some runPath) :
    handleRun host http req (parseModuleRoute runPath).1 (parseModuleRoute runPath).2 =
      resolveModule host path >>= continueFull http req := by
  unfold handleRun resolveModule
  rw [h]
  dsimp only
  split
  · rfl
  cases hs : host.singleComponent with
  | some single =>
    dsimp only
    split
    · rfl
    · rfl
  | none =>
    unfold resolveMultiModule resolveKeyed
    dsimp only
    rw [passGate_bind (f := continueFull http req) (fun e => rfl) rfl]
    congr 1
    funext semaphore
    rw [bind_assoc]
    refine congrArg (Prog.act (Action.getOrLoad (parseModuleRoute runPath).1)) ?_
    funext loaded
    cases loaded with
    | ok comp => rfl
    | error e => rfl

theorem startsWith_of_run {path runPath : String} (h : stripPrefix "/run/" path = some runPath) :
    startsWith "/run/" path = true ∧ startsWith "/static/" path = false ∧
      startsWith "/_mik/" path = false ∧ startsWith "/openapi/" path = false ∧
      startsWith "/script/" path = false ∧ startsWith "/tenant/" path = false := by
  obtain rfl := stripPrefix_eq_some_iff.mp h
  unfold startsWith
  rw [String.toList_append]
  exact ⟨rfl, rfl, rfl, rfl, rfl, rfl⟩

/-- The paths that are compared. -/
abbrev Routed (path : String) : Prop :=
  startsWith "/run/" path = true ∨ startsWith "/static/" path = true

theorem not_builtin {path : String} (h : Routed path) :
    ¬ (path = "/health" ∨ path = "/metrics") := by
  rintro (rfl | rfl)
  · revert h
    decide
  · revert h
    decide

/-- A program and two continuations of it show the same exactly when the continuations do. -/
theorem observe_bind_iff {α : Type} (host : Host Comp) (p : Handler Comp α)
    (f g : α → Handler Comp (Except Error Response)) (m : Machine Comp) :
    observe host (p >>= f) m = observe host (p >>= g) m ↔
      observe host (f (runOn (answerNext host) p m).1) (runOn (answerNext host) p m).2 =
        observe host (g (runOn (answerNext host) p m).1) (runOn (answerNext host) p m).2 := by
  unfold observe executions
  simp only [runOn_bind, traceOn_bind, List.filterMap_append, Observed.mk.injEq,
    List.append_cancel_left_eq]

/-- The network handler on a `/run/` path within the limits. -/
theorem handleRequestInner_eq {host : Host Comp} (http : HttpLib) (lib : ScriptLib) (req : Request)
    (clientAcceptsGzip : Bool) (traceId : String) {runPath : String}
    (hlen : validatePathLength req.uri.path = none)
    (hdeclared : validateContentLength req.headers host.maxBodySizeBytes = none)
    (h : stripPrefix "/run/" req.uri.path = some runPath) :
    handleRequestInner host http lib req clientAcceptsGzip traceId =
      resolveModule host req.uri.path >>= continueWire host http req clientAcceptsGzip := by
  obtain ⟨-, hstatic, hmik, hopenapi, hscript, htenant⟩ := startsWith_of_run h
  unfold handleRequestInner
  dsimp only
  rw [hlen, hdeclared, hstatic, hmik, hopenapi, hscript]
  show handleModuleRequest host http req clientAcceptsGzip = _
  unfold handleModuleRequest resolvePath
  rw [htenant]
  rfl

/-- The embedded handler there. -/
theorem handleRequestInternal_eq {host : Host Comp} (http : HttpLib) {req : FullRequest}
    {runPath : String} (hlen : validatePathLength req.uri.path = none)
    (hdeclared : validateContentLength req.headers host.maxBodySizeBytes = none)
    (h : stripPrefix "/run/" req.uri.path = some runPath) :
    handleRequestInternal host http req =
      resolveModule host req.uri.path >>= continueFull http req := by
  obtain ⟨hrun, hstatic, -⟩ := startsWith_of_run h
  unfold handleRequestInternal
  dsimp only
  rw [if_neg (not_builtin (Or.inl hrun)), hlen, hdeclared, hstatic, h]
  exact handleRun_eq host http req h

/-! ## From a resolved module on -/

theorem collectLimited_whole (remaining : Nat) (frames : List Bytes) :
    collectLimited remaining none frames =
      if frames.flatten.length ≤ remaining then .ok frames.flatten
      else .error ["length limit exceeded"] := by
  induction frames generalizing remaining with
  | nil => rfl
  | cons frame frames ih =>
    rw [collectLimited, List.flatten_cons, List.length_append, ih]
    by_cases hfirst : remaining < frame.length
    · rw [if_pos hfirst, if_neg (by omega)]
    · rw [if_neg hfirst]
      by_cases hrest : frames.flatten.length ≤ remaining - frame.length
      · rw [if_pos hrest, if_pos (by omega)]
      · rw [if_neg hrest, if_neg (by omega)]

/-- The answer of `collect_request_body` to a body over the limit. -/
def oversizeResponse (maxBody : Nat) : Response :=
  ⟨413, [("content-type", "application/json")],
    utf8 ("\x7b\"error\":\"Request body too large\",\"max\":" ++ maxBody.repr ++ "\x7d")⟩

theorem collectRequestBody_whole {body : Bytes} (wire : Framing body) (maxBody : Nat) :
    collectRequestBody ⟨wire.val, none⟩ maxBody =
      .ok (if body.length ≤ maxBody then .ok body else .error (oversizeResponse maxBody)) := by
  have hlimit : ["length limit exceeded"].any (containsText "length limit") = true := by
    decide
  unfold collectRequestBody
  rw [collectLimited_whole, wire.property]
  by_cases h : body.length ≤ maxBody
  · rw [if_pos h, if_pos h]
  · rw [if_neg h, if_neg h]
    dsimp only
    rw [if_pos hlimit]
    rfl

theorem observe_ret {host : Host Comp} {m : Machine Comp} {x y : Except Error Response}
    (h : seen x = seen y) :
    observe host (.ret x : Handler Comp _) m = observe host (.ret y : Handler Comp _) m := by
  unfold observe
  rw [runOn_ret, runOn_ret, h]
  rfl

theorem executions_dropPermit (host : Host Comp) (modulePermit : Option Nat)
    (x : Except Error Response) (m : Machine Comp) :
    (observe host (dropPermit modulePermit >>= fun _ => .ret x) m).executed = [] := by
  cases modulePermit with
  | none => rfl
  | some semaphore => rfl

theorem rewriteRequestPath_of_some {http : HttpLib} {gzip : Bytes → Option Bytes} {req : Request}
    {handlerPath : String} {uri : Uri} (h : http.withPathAndQuery req.uri handlerPath = some uri) :
    rewriteRequestPath (http.withGzip gzip) req handlerPath = .ok { req with uri := uri } := by
  have hsame : (http.withGzip gzip).withPathAndQuery req.uri handlerPath = some uri := h
  unfold rewriteRequestPath
  rw [hsame]

theorem rewriteRequestPath_of_none {http : HttpLib} {gzip : Bytes → Option Bytes} {req : Request}
    {handlerPath : String} (h : http.withPathAndQuery req.uri handlerPath = none) :
    rewriteRequestPath (http.withGzip gzip) req handlerPath = .error (.other "invalid uri") := by
  have hsame : (http.withGzip gzip).withPathAndQuery req.uri handlerPath = none := h
  unfold rewriteRequestPath
  rw [hsame]

/-- With a body within the limit the two execute the same and show the same. -/
theorem observe_executeResolved {host : Host Comp} (http : HttpLib)
    (gzip : Bytes → Option Bytes) {req : FullRequest} (wire : Framing req.body) {uri : Uri}
    (clientAcceptsGzip : Bool) (component : Comp) {handlerPath : String}
    (moduleName : Option String) (modulePermit : Option Nat) (m : Machine Comp)
    (hbody : req.body.length ≤ host.maxBodySizeBytes)
    (huri : http.withPathAndQuery req.uri handlerPath = some uri) :
    observe host (executeResolved host (http.withGzip gzip) (req.overWire wire) clientAcceptsGzip
        component handlerPath moduleName modulePermit) m =
      observe host (executeFull (http.withGzip gzip) req clientAcceptsGzip component handlerPath
        moduleName modulePermit) m := by
  have hcollect : collectRequestBody (req.overWire wire).body host.maxBodySizeBytes =
      .ok (.ok req.body) := by
    refine (collectRequestBody_whole wire _).trans ?_
    rw [if_pos hbody]
  unfold executeResolved executeFull
  rw [rewriteRequestPath_of_some huri,
    rewriteRequestPath_of_some huri]
  dsimp only
  rw [hcollect]
  dsimp only
  refine (observe_bind_iff host (call (.execute component _)) _ _ m).mpr ?_
  refine (observe_bind_iff host (recordOutcome moduleName _) _ _ _).mpr ?_
  refine (observe_bind_iff host (dropPermit modulePermit) _ _ _).mpr ?_
  have hfinish : ∀ (result : Except Error Response) (durationMs : Nat) (m : Machine Comp),
      observe host (match result with
        | .error e => .ret (.error e)
        | .ok resp => .ret (.ok (maybeCompressResponse (http.withGzip gzip)
            (gatewayHeaders (http.withGzip gzip) durationMs moduleName resp)
            clientAcceptsGzip))) m =
        observe host (match result with
          | .error e => .ret (.error e)
          | .ok resp => .ret (.ok (maybeCompressResponse (http.withGzip gzip) resp
              clientAcceptsGzip))) m := by
    intro result durationMs m
    cases result with
    | error e => rfl
    | ok resp =>
      exact observe_ret (seen_gatewayHeaders http gzip durationMs moduleName resp clientAcceptsGzip)
  exact hfinish _ _ _

/-- From a resolved module on, the two show the same exactly when the body is within the limit or
    the path cannot be rewritten. -/
theorem observe_executeResolved_iff {host : Host Comp} (http : HttpLib)
    (gzip : Bytes → Option Bytes) {req : FullRequest} (wire : Framing req.body)
    (clientAcceptsGzip : Bool) (component : Comp) (handlerPath : String)
    (moduleName : Option String) (modulePermit : Option Nat) (m : Machine Comp) :
    observe host (executeResolved host (http.withGzip gzip) (req.overWire wire) clientAcceptsGzip
        component handlerPath moduleName modulePermit) m =
      observe host (executeFull (http.withGzip gzip) req clientAcceptsGzip component handlerPath
        moduleName modulePermit) m ↔
      req.body.length ≤ host.maxBodySizeBytes ∨
        http.withPathAndQuery req.uri handlerPath = none := by
  cases huri : http.withPathAndQuery req.uri handlerPath with
  | none =>
    unfold executeResolved executeFull
    rw [rewriteRequestPath_of_none huri,
      rewriteRequestPath_of_none huri]
    exact ⟨fun _ => Or.inr rfl, fun _ => rfl⟩
  | some uri =>
    constructor
    · intro h
      refine Or.inl (Nat.le_of_not_lt fun hover => ?_)
      -- The network handler executes nothing, the embedded one does.
      have hexecuted := congrArg Observed.executed h
      have hcollect : collectRequestBody (req.overWire wire).body host.maxBodySizeBytes =
          .ok (.error (oversizeResponse host.maxBodySizeBytes)) := by
        refine (collectRequestBody_whole wire _).trans ?_
        rw [if_neg (Nat.not_le_of_lt hover)]
      have hwire : (observe host (executeResolved host (http.withGzip gzip) (req.overWire wire)
          clientAcceptsGzip component handlerPath moduleName modulePermit) m).executed = [] := by
        unfold executeResolved
        rw [rewriteRequestPath_of_some huri]
        dsimp only
        rw [hcollect]
        exact executions_dropPermit host modulePermit _ m
      rw [hwire] at hexecuted
      unfold executeFull at hexecuted
      rw [rewriteRequestPath_of_some huri] at hexecuted
      cases hexecuted
    · rintro (hbody | hnone)
      · exact observe_executeResolved http gzip wire clientAcceptsGzip component moduleName
          modulePermit m hbody huri
      · cases hnone

/-! ## Which modules resolve -/

theorem runOn_passGate {α : Type} (host : Host Comp) (key : String)
    (blocked : CircuitOpenError → α) (overloaded : α) (go : Nat → Handler Comp α)
    (m : Machine Comp) :
    runOn (answerNext host) (passGate key blocked overloaded go) m =
      match (answerNext host (.checkRequest key) m).1 with
      | .error e => (blocked e, (answerNext host (.checkRequest key) m).2)
      | .ok () =>
        let found := runOn (answerNext host) (getModuleSemaphore key)
          (answerNext host (.checkRequest key) m).2
        match (answerNext host (.tryAcquire found.1) found.2).1 with
        | false => (overloaded, afterPermit host key m)
        | true => runOn (answerNext host) (go found.1) (afterPermit host key m) := by
  unfold passGate
  rw [call_bind, runOn_act]
  cases (answerNext host (.checkRequest key) m).1 with
  | error e => rfl
  | ok u =>
    dsimp only
    rw [runOn_bind, call_bind, runOn_act]
    unfold afterPermit
    dsimp only
    cases (answerNext host (.tryAcquire (runOn (answerNext host) (getModuleSemaphore key)
      (answerNext host (.checkRequest key) m).2).1) (runOn (answerNext host)
        (getModuleSemaphore key) (answerNext host (.checkRequest key) m).2).2).1 with
    | false => rfl
    | true => rfl

theorem resolveMultiModule_outcome (host : Host Comp) (m : Machine Comp)
    (module handlerPath : String) :
    (Runnable host m module ∧ ∃ component modulePermit,
        (runOn (answerNext host) (resolveMultiModule host module handlerPath) m).1 =
          .success component handlerPath (some module) modulePermit) ∨
      (¬ Runnable host m module ∧ ∃ resp,
        (runOn (answerNext host) (resolveMultiModule host module handlerPath) m).1 =
          .response resp ∧ resp.status ≠ 413) := by
  unfold resolveMultiModule resolveKeyed
  rw [runOn_passGate]
  cases hcheck : (answerNext host (.checkRequest module) m).1 with
  | error e =>
    refine Or.inr ⟨fun hr => ?_, _, rfl, (by decide : (503 : Nat) ≠ 413)⟩
    cases hcheck.symm.trans hr.circuit
  | ok u =>
    dsimp only
    have hpermit := tryAcquire_iff host module (answerNext host (.checkRequest module) m).2 rfl
    cases hacquired : (answerNext host (.tryAcquire (runOn (answerNext host)
        (getModuleSemaphore module) (answerNext host (.checkRequest module) m).2).1) (runOn
        (answerNext host) (getModuleSemaphore module)
          (answerNext host (.checkRequest module) m).2).2).1 with
    | false =>
      refine Or.inr ⟨fun hr => ?_, _, rfl, (by decide : (429 : Nat) ≠ 413)⟩
      cases hacquired.symm.trans (hpermit.mpr hr.permit)
    | true =>
      dsimp only
      rw [call_bind, runOn_act]
      have hfree := hpermit.mp hacquired
      cases hload : (answerNext host (.getOrLoad module) (afterPermit host module m)).1 with
      | ok comp => exact Or.inl ⟨⟨hcheck, hfree, comp, hload⟩, _, _, rfl⟩
      | error e =>
        refine Or.inr ⟨fun hr => ?_, _, rfl, (by decide : (404 : Nat) ≠ 413)⟩
        obtain ⟨comp, hcomp⟩ := hr.loads
        cases hload.symm.trans hcomp

/-- A module that resolves goes on with the path of its route, any other request is answered, and
    not with the status of a body over the limit. -/
theorem resolveModule_outcome (host : Host Comp) (m : Machine Comp) {path runPath : String}
    (h : stripPrefix "/run/" path = some runPath) :
    (Resolves host m (parseModuleRoute runPath).1 ∧ ∃ component modulePermit,
        (runOn (answerNext host) (resolveModule host path) m).1 =
          .success component (parseModuleRoute runPath).2 (some (parseModuleRoute runPath).1)
            modulePermit) ∨
      (¬ Resolves host m (parseModuleRoute runPath).1 ∧ ∃ resp,
        (runOn (answerNext host) (resolveModule host path) m).1 = .response resp ∧
          resp.status ≠ 413) := by
  unfold resolveModule Resolves
  rw [h]
  dsimp only
  by_cases hempty : (parseModuleRoute runPath).1 = ""
  · rw [if_pos hempty]
    exact Or.inr ⟨fun hr => hr.1 hempty, _, rfl, by decide⟩
  rw [if_neg hempty]
  cases hs : host.singleComponent with
  | some single =>
    dsimp only
    by_cases hname : (parseModuleRoute runPath).1 = single.1
    · rw [if_pos hname]
      exact Or.inl ⟨⟨hempty, hname⟩, _, _, rfl⟩
    · rw [if_neg hname]
      exact Or.inr ⟨fun hr => hname hr.2, _, rfl, (by decide : (404 : Nat) ≠ 413)⟩
  | none =>
    dsimp only
    rcases resolveMultiModule_outcome host m (parseModuleRoute runPath).1
      (parseModuleRoute runPath).2 with ⟨hrun, hres⟩ | ⟨hrun, hres⟩
    · exact Or.inl ⟨⟨hempty, hrun⟩, hres⟩
    · exact Or.inr ⟨fun hr => hrun hr.2, hres⟩

/-! ## Agreement -/

/-- What a request shows when it comes over a connection. -/
def overNetwork (host : Host Comp) (http : HttpLib) (lib : ScriptLib) (traceId : String)
    (req : FullRequest) (wire : Framing req.body) (m : Machine Comp) : Observed Comp :=
  observe host (handleRequestInner host http lib (req.overWire wire) (acceptsGzip req.headers)
    traceId) m

/-- What it shows when it is embedded. -/
def embedded (host : Host Comp) (http : HttpLib) (req : FullRequest) (m : Machine Comp) :
    Observed Comp :=
  observe host (handleRequestInternal host http req) m

variable {host : Host Comp} {m : Machine Comp} {req : FullRequest} {runPath : String}

/-- Within the limits, a `/run/` request shows the same exactly when its body is short enough or
    something else answers it. -/
theorem run_agrees_iff (m : Machine Comp) (http : HttpLib) (gzip : Bytes → Option Bytes)
    (lib : ScriptLib) (traceId : String) (wire : Framing req.body)
    (hlen : validatePathLength req.uri.path = none)
    (hdeclared : validateContentLength req.headers host.maxBodySizeBytes = none)
    (hroute : stripPrefix "/run/" req.uri.path = some runPath) :
    overNetwork host (http.withGzip gzip) lib traceId req wire m =
        embedded host (http.withGzip gzip) req m ↔
      req.body.length ≤ host.maxBodySizeBytes ∨ ¬ ReachesBody host http m req runPath := by
  unfold overNetwork embedded
  rw [handleRequestInner_eq (http.withGzip gzip) lib (req.overWire wire)
      (acceptsGzip req.headers) traceId hlen hdeclared hroute,
    handleRequestInternal_eq (http.withGzip gzip) hlen hdeclared hroute]
  refine (observe_bind_iff host (resolveModule host req.uri.path) _ _ m).trans ?_
  rcases resolveModule_outcome host m hroute with ⟨hres, component, modulePermit, hx⟩ |
    ⟨hres, resp, hx, -⟩
  · rw [hx]
    refine (observe_executeResolved_iff http gzip wire _ component _ _ modulePermit _).trans ?_
    constructor
    · rintro (hbody | hnone)
      · exact Or.inl hbody
      · exact Or.inr fun h => h.rewrites hnone
    · rintro (hbody | hreach)
      · exact Or.inl hbody
      · exact Or.inr (by_contra fun h => hreach ⟨hlen, hdeclared, hroute, hres, h⟩)
  · rw [hx]
    exact ⟨fun _ => Or.inr fun h => hres h.resolves, fun _ => rfl⟩

/-- A `/run/` request within the limits that something else answers is not answered 413. -/
theorem run_not_tooLarge (http : HttpLib) (gzip : Bytes → Option Bytes)
    (hlen : validatePathLength req.uri.path = none)
    (hdeclared : validateContentLength req.headers host.maxBodySizeBytes = none)
    (hroute : stripPrefix "/run/" req.uri.path = some runPath)
    (hreach : ¬ ReachesBody host http m req runPath) (body : Bytes) :
    (embedded host (http.withGzip gzip) req m).answer ≠ .ok (413, body) := by
  unfold embedded observe
  dsimp only
  rw [handleRequestInternal_eq (http.withGzip gzip) hlen hdeclared hroute, runOn_bind]
  rcases resolveModule_outcome host m hroute with ⟨hres, component, modulePermit, hx⟩ |
    ⟨-, resp, hx, hstatus⟩
  · have hnone : http.withPathAndQuery req.uri (parseModuleRoute runPath).2 = none :=
      by_contra fun h => hreach ⟨hlen, hdeclared, hroute, hres, h⟩
    rw [hx]
    unfold continueFull executeFull
    dsimp only
    rw [rewriteRequestPath_of_none hnone]
    dsimp only
    rw [runOn_bind]
    intro h
    cases h
  · rw [hx]
    intro h
    exact hstatus (Prod.mk.inj (Except.ok.inj h)).1

/-- Before the route is looked at, the limits answer both handlers alike. -/
theorem limits_agree (m : Machine Comp) (http : HttpLib) (lib : ScriptLib) (traceId : String)
    (wire : Framing req.body) (hroute : Routed req.uri.path)
    {resp : Response} (h : validatePathLength req.uri.path = some resp ∨
      (validatePathLength req.uri.path = none ∧
        validateContentLength req.headers host.maxBodySizeBytes = some resp)) :
    overNetwork host http lib traceId req wire m = embedded host http req m ∧
      (embedded host http req m).answer = .ok (resp.status, resp.body) := by
  have hinner : handleRequestInner host http lib (req.overWire wire) (acceptsGzip req.headers)
      traceId = .ret (.ok resp) := by
    unfold handleRequestInner
    dsimp only
    show (match validatePathLength req.uri.path with | some _ => _ | none => _) = _
    rcases h with h | ⟨hlen, h⟩
    · rw [h]
      rfl
    · rw [hlen]
      show (match validateContentLength req.headers host.maxBodySizeBytes with
        | some _ => _ | none => _) = _
      rw [h]
      rfl
  have hinternal : handleRequestInternal host http req = .ret (.ok resp) := by
    unfold handleRequestInternal
    dsimp only
    rw [if_neg (not_builtin hroute)]
    rcases h with h | ⟨hlen, h⟩
    · rw [h]
      rfl
    · rw [hlen, h]
      rfl
  unfold overNetwork embedded
  rw [hinner, hinternal]
  exact ⟨rfl, rfl⟩

/-- Static files are served by both alike. -/
theorem static_agrees (m : Machine Comp) (http : HttpLib) (lib : ScriptLib) (traceId : String)
    (wire : Framing req.body) (hlen : validatePathLength req.uri.path = none)
    (hdeclared : validateContentLength req.headers host.maxBodySizeBytes = none)
    (hstatic : startsWith "/static/" req.uri.path = true) :
    overNetwork host http lib traceId req wire m = embedded host http req m := by
  unfold overNetwork embedded handleRequestInner handleRequestInternal
  dsimp only
  rw [if_neg (not_builtin (Or.inr hstatic)), hlen, hdeclared, if_pos hstatic]
  show observe host (match validatePathLength req.uri.path with | some _ => _ | none => _) m = _
  rw [hlen]
  show observe host (match validateContentLength req.headers host.maxBodySizeBytes with
    | some _ => _ | none => _) m = _
  rw [hdeclared]
  show observe host (if (startsWith "/static/" req.uri.path || _ || _) = true then _ else _) m = _
  rw [hstatic]
  rfl

/-- The limit on the declared length is a 413, that on the path is not. -/
theorem validateContentLength_iff {headers : List (String × Bytes)} {maxBody : Nat} :
    (∃ resp, validateContentLength headers maxBody = some resp) ↔
      ∃ len, contentLength headers = some len ∧ maxBody < len := by
  unfold validateContentLength
  cases contentLength headers with
  | none =>
    constructor
    · rintro ⟨resp, h⟩
      cases h
    · rintro ⟨len, h, -⟩
      cases h
  | some len =>
    dsimp only
    split
    · next hover => exact ⟨fun _ => ⟨len, rfl, hover⟩, fun _ => ⟨_, rfl⟩⟩
    · next hunder =>
      constructor
      · rintro ⟨resp, h⟩
        cases h
      · rintro ⟨len', h, hover⟩
        cases h
        exact absurd hover hunder

theorem status_of_validateContentLength {headers : List (String × Bytes)} {maxBody : Nat}
    {resp : Response} (h : validateContentLength headers maxBody = some resp) :
    resp.status = 413 := by
  unfold validateContentLength at h
  split at h
  · cases h
  split at h
  · cases h
    rfl
  · cases h

theorem status_of_validatePathLength {path : String} {resp : Response}
    (h : validatePathLength path = some resp) : resp.status = 414 := by
  unfold validatePathLength at h
  split at h
  · cases h
    rfl
  · cases h

/-- The two handlers agree exactly on the requests with a body within the limit and on those that
    are answered before their body is looked at. A body over the limit is answered 413 by both
    exactly when its `Content-Length` says so. -/
theorem embedded_agrees_iff (host : Host Comp) (http : HttpLib) (gzip : Bytes → Option Bytes)
    (lib : ScriptLib) (traceId : String) (m : Machine Comp) (req : FullRequest)
    (wire : Framing req.body) (hroute : Routed req.uri.path) :
    (overNetwork host (http.withGzip gzip) lib traceId req wire m =
        embedded host (http.withGzip gzip) req m ↔
      req.body.length ≤ host.maxBodySizeBytes ∨ ¬ ∃ runPath, ReachesBody host http m req runPath) ∧
    (startsWith "/run/" req.uri.path = true → host.maxBodySizeBytes < req.body.length →
      ((overNetwork host (http.withGzip gzip) lib traceId req wire m =
          embedded host (http.withGzip gzip) req m ∧
        ∃ body, (embedded host (http.withGzip gzip) req m).answer = .ok (413, body)) ↔
      validatePathLength req.uri.path = none ∧
        ∃ len, contentLength req.headers = some len ∧ host.maxBodySizeBytes < len)) := by
  cases hlen : validatePathLength req.uri.path with
  | some resp =>
    obtain ⟨hagree, hanswer⟩ := limits_agree m (http.withGzip gzip) lib traceId wire
      hroute (Or.inl hlen)
    refine ⟨⟨fun _ => Or.inr ?_, fun _ => hagree⟩, fun _ _ => ⟨?_, ?_⟩⟩
    · rintro ⟨runPath, h⟩
      cases hlen.symm.trans h.pathLength
    · rintro ⟨-, body, h⟩
      have hstatus := (Prod.mk.inj (Except.ok.inj (hanswer.symm.trans h))).1
      rw [status_of_validatePathLength hlen] at hstatus
      cases hstatus
    · rintro ⟨h, -⟩
      cases h
  | none =>
  rw [← validateContentLength_iff]
  cases hdeclared : validateContentLength req.headers host.maxBodySizeBytes with
  | some resp =>
    obtain ⟨hagree, hanswer⟩ := limits_agree m (http.withGzip gzip) lib traceId wire
      hroute (Or.inr ⟨hlen, hdeclared⟩)
    refine ⟨⟨fun _ => Or.inr ?_, fun _ => hagree⟩,
      fun _ _ => ⟨fun _ => ⟨rfl, resp, rfl⟩, fun _ => ⟨hagree, resp.body, ?_⟩⟩⟩
    · rintro ⟨runPath, h⟩
      cases hdeclared.symm.trans h.declared
    · rw [hanswer, status_of_validateContentLength hdeclared]
  | none =>
  cases hrun : stripPrefix "/run/" req.uri.path with
  | none =>
    have hnot : ¬ startsWith "/run/" req.uri.path = true := by
      intro h
      obtain ⟨rest, hrest⟩ := startsWith_iff.mp h
      cases hrun.symm.trans (stripPrefix_eq_some_iff.mpr hrest)
    have hagree := static_agrees m (http.withGzip gzip) lib traceId wire hlen hdeclared
      (hroute.resolve_left hnot)
    refine ⟨⟨fun _ => Or.inr ?_, fun _ => hagree⟩, fun h => absurd h hnot⟩
    rintro ⟨runPath, h⟩
    cases hrun.symm.trans h.route
  | some runPath =>
    have hiff := run_agrees_iff m http gzip lib traceId wire hlen hdeclared hrun
    have hreach : (∃ runPath, ReachesBody host http m req runPath) ↔
        ReachesBody host http m req runPath := by
      refine ⟨?_, fun h => ⟨runPath, h⟩⟩
      rintro ⟨runPath', h⟩
      obtain rfl := Option.some.inj (hrun.symm.trans h.route)
      exact h
    rw [hreach]
    refine ⟨hiff, fun _ hover => ⟨?_, ?_⟩⟩
    · rintro ⟨hagree, body, hanswer⟩
      have hearly := (hiff.mp hagree).resolve_left (Nat.not_le_of_lt hover)
      exact absurd hanswer (run_not_tooLarge http gzip hlen hdeclared hrun hearly body)
    · rintro ⟨-, resp, h⟩
      cases h

end

/-! ## Samples -/

/-- `POST /run/orders` without a `Content-Length`. -/
def undeclared (body : Bytes) : FullRequest :=
  ⟨"POST", ⟨none, none, "/run/orders", none⟩, [], body⟩

/-- A body one byte over the limit is answered 413 over the network, and executes nothing.
    Embedded it is executed, and when the module traps on it the circuit opens. -/
theorem undeclared_body_over_limit :
    ¬ (overNetwork sampleHost (sampleHttp.withGzip some) sampleScripts "t"
        (undeclared (List.replicate 11 0)) ⟨[List.replicate 11 0], rfl⟩
        (freshState, fun _ => failingEnv 5) =
      embedded sampleHost (sampleHttp.withGzip some) (undeclared (List.replicate 11 0))
        (freshState, fun _ => failingEnv 5)) ∧
    (overNetwork sampleHost (sampleHttp.withGzip some) sampleScripts "t"
      (undeclared (List.replicate 11 0)) ⟨[List.replicate 11 0], rfl⟩
      (freshState, fun _ => failingEnv 5)).answer =
        .ok (413, utf8 "\x7b\"error\":\"Request body too large\",\"max\":10\x7d") ∧
    (embedded sampleHost (sampleHttp.withGzip some) (undeclared (List.replicate 11 0))
      (freshState, fun _ => failingEnv 5)).answer = .error (.other "trap") ∧
    (embedded sampleHost (sampleHttp.withGzip some) (undeclared (List.replicate 11 0))
      (freshState, fun _ => failingEnv 5)).executed =
        [([0], sampleRequest "/" (List.replicate 11 0))] ∧
    (overNetwork sampleHost (sampleHttp.withGzip some) sampleScripts "t"
      (undeclared (List.replicate 11 0)) ⟨[List.replicate 11 0], rfl⟩
      (freshState, fun _ => failingEnv 5)).breaker.states.lookup "orders" = none ∧
    (embedded sampleHost (sampleHttp.withGzip some) (undeclared (List.replicate 11 0))
      (freshState, fun _ => failingEnv 5)).breaker.states.lookup "orders" =
        some (.opened 5 1) := by
  refine ⟨fun h => ?_, by rfl, by rfl, by rfl, by rfl, by rfl⟩
  have hexecuted := congrArg (fun o => o.executed.length) h
  exact absurd hexecuted (by decide)

theorem embedded_agrees_iff_fitting :
    overNetwork sampleHost (sampleHttp.withGzip some) sampleScripts "t" (undeclared [1])
        ⟨[[1]], rfl⟩ (freshState, fun _ => failingEnv 5) =
      embedded sampleHost (sampleHttp.withGzip some) (undeclared [1])
        (freshState, fun _ => failingEnv 5) :=
  (embedded_agrees_iff sampleHost sampleHttp some sampleScripts "t"
    (freshState, fun _ => failingEnv 5) (undeclared [1]) ⟨[[1]], rfl⟩
    (Or.inl (by decide))).1.mpr (Or.inl (by decide))

end Mik.Runtime
