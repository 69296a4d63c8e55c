/-
  `handle_request_inner` and the module resolution it rests on
  (`src/runtime/request_handler.rs`).

  `resolveMultiModule` and `resolveMultiModulePath` are one algorithm, `resolveKeyed`, at two
  triples: the key of the circuit and of the semaphore, the name that is shown, the load. For a
  platform module key and name are the same string. For a tenant module the key is
  `cacheKey` and the name, which is also what `handle_request_inner` records the outcome on, is
  `handlerName`.

  Logging, spans and request ids are left out; compression is `HttpLib.compress`.
-/
import Mik.Runtime.Script

namespace Mik.Runtime

open Mik.Lib

/-! ## Routes -/

/-- A path segment, decoded if it has a `%`. -/
def decodeSegment (s : String) : String :=
  if containsChar '%' s then percentDecodeStr s else s

/-- The module name and handler path of the text after `/run/`. -/
def parseModuleRoute (runPath : String) : String × String :=
  if runPath = "" then ("", "/")
  else
    match splitAtChar '/' runPath with
    | some (modulePart, rest) => (decodeSegment modulePart, decodeSegment rest)
    | none => (decodeSegment runPath, "/")

/-- The module path and handler path of the text after `/tenant/`. -/
def parseModulePathRoute (runPath : String) : Option (ModulePath × String) :=
  if runPath = "" then none
  else
    match (splitChar '/' runPath).filter (· ≠ "") with
    | [] => none
    | [name] => some (.platform (decodeSegment name), "/")
    | tenantId :: name :: rest =>
      some (.tenant (decodeSegment tenantId) (decodeSegment name),
        if rest = [] then "/" else "/" ++ String.intercalate "/" rest)

/-! ## Resolution -/

inductive ModuleResolution (Comp : Type) where
  | success (component : Comp) (handlerPath : String) (moduleName : Option String)
      (modulePermit : Option Nat)
  | response (resp : Response)

section

variable {Comp : Type}

/-- 503 with `Retry-After: 30`. -/
def circuitOpenResponse (shown : String) : Response :=
  insertHeader "retry-after" "30" (errorResponse (.circuitBreakerOpen shown))

/-- 429 with `Retry-After: 5`. -/
def overloadResponse (host : Host Comp) (shown : String) : Response :=
  insertHeader "retry-after" "5" (errorResponse (.rateLimitExceeded
    ("Module '" ++ shown ++ "' overloaded (max " ++ host.maxPerModuleRequests.repr ++
      " concurrent)")))

/-- Circuit check and permit on `key`, then the load; `shown` names the module in responses. -/
def resolveKeyed (host : Host Comp) (key shown : String)
    (load : Handler Comp (Except Error Comp)) (handlerPath : String) :
    Handler Comp (ModuleResolution Comp) :=
  passGate key (fun _ => .response (circuitOpenResponse shown))
    (.response (overloadResponse host shown)) fun semaphore => do
  match ← load with
  | .ok component => return .success component handlerPath (some shown) (some semaphore)
  | .error _ =>
    call (.recordFailure key)
    call (.release semaphore)
    return .response (errorResponse (.moduleNotFound shown))

def resolveMultiModule (host : Host Comp) (module handlerPath : String) :
    Handler Comp (ModuleResolution Comp) :=
  resolveKeyed host module module (call (.getOrLoad module)) handlerPath

def resolveMultiModulePath (host : Host Comp) (modulePath : ModulePath) (handlerPath : String) :
    Handler Comp (ModuleResolution Comp) :=
  resolveKeyed host modulePath.cacheKey modulePath.handlerName
    (call (.getOrLoadModulePath modulePath)) handlerPath

def resolveModule (host : Host Comp) (path : String) : Handler Comp (ModuleResolution Comp) :=
  match stripPrefix "/run/" path with
  | none =>
    return .response (notFound ("Not found. Platform modules: /run/<module>/, " ++
      "Tenant modules: /tenant/<tenant-id>/<module>/"))
  | some runPath =>
    let route := parseModuleRoute runPath
    if route.1 = "" then
      return .response (notFound "No module specified. Use /run/<module>/")
    else
      match host.singleComponent with
      | some (expectedName, comp) =>
        if route.1 = expectedName then return .success comp route.2 (some route.1) none
        else return .response (errorResponse (.moduleNotFound route.1))
      | none => resolveMultiModule host route.1 route.2

def resolveTenantModule (host : Host Comp) (path : String) :
    Handler Comp (ModuleResolution Comp) :=
  match stripPrefix "/tenant/" path with
  | none => return .response (notFound "Not found. Tenant modules: /tenant/<tenant-id>/<module>/")
  | some tenantPath =>
    if host.userModulesDir.isNone then
      return .response (errorResponse (.invalidRequest "Tenant modules not configured"))
    else
      match parseModulePathRoute tenantPath with
      | none =>
        return .response (notFound "Invalid tenant path. Use /tenant/<tenant-id>/<module>/")
      | some (modulePath, handlerPath) =>
        if modulePath.isTenant then resolveMultiModulePath host modulePath handlerPath
        else return .response (notFound "Invalid tenant path. Use /tenant/<tenant-id>/<module>/")

/-! ## The handler -/

/-- Dropping a permit, if there is one. -/
def dropPermit : Option Nat → Handler Comp Unit
  | none => pure ()
  | some semaphore => call (.release semaphore)

def recordOutcome (moduleName : Option String) (result : Except Error Response) :
    Handler Comp Unit :=
  match moduleName, result with
  | none, _ => pure ()
  | some module, .ok _ => call (.recordSuccess module)
  | some module, .error _ => call (.recordFailure module)

/-- The gateway headers of an executed request. -/
def gatewayHeaders (http : HttpLib) (durationMs : Nat) (moduleName : Option String)
    (resp : Response) : Response :=
  let resp := insertHeader "x-mik-duration-ms" durationMs.repr resp
  match moduleName with
  | none => resp
  | some handlerName =>
    if http.headerValueOk handlerName then insertHeader "x-mik-handler" handlerName resp else resp

/-- From a resolved module on: rewrite the URI, collect the body, execute, record. -/
def executeResolved (host : Host Comp) (http : HttpLib) (req : Request) (clientAcceptsGzip : Bool)
    (component : Comp) (handlerPath : String) (moduleName : Option String)
    (modulePermit : Option Nat) : Handler Comp (Except Error Response) := do
  match rewriteRequestPath http req handlerPath with
  | .error e =>
    dropPermit modulePermit
    return .error e
  | .ok req =>
    match collectRequestBody req.body host.maxBodySizeBytes with
    | .error e =>
      dropPermit modulePermit
      return .error e
    | .ok (.error resp) =>
      dropPermit modulePermit
      return .ok resp
    | .ok (.ok bodyBytes) =>
      let exec ← call (.execute component { req with body := ⟨[bodyBytes], none⟩ })
      recordOutcome moduleName exec.result
      dropPermit modulePermit
      match exec.result with
      | .error e => return .error e
      | .ok resp =>
        return .ok (maybeCompressResponse http
          (gatewayHeaders http exec.durationMs moduleName resp) clientAcceptsGzip)

/-- The platform or tenant branch of `handle_request_inner`. -/
def resolvePath (host : Host Comp) (path : String) : Handler Comp (ModuleResolution Comp) :=
  if startsWith "/tenant/" path then resolveTenantModule host path else resolveModule host path

/-- The module route of `handle_request_inner`. -/
def handleModuleRequest (host : Host Comp) (http : HttpLib) (req : Request)
    (clientAcceptsGzip : Bool) : Handler Comp (Except Error Response) := do
  match ← resolvePath host req.uri.path with
  | .response resp => return .ok resp
  | .success component handlerPath moduleName modulePermit =>
    executeResolved host http req clientAcceptsGzip component handlerPath moduleName modulePermit

def handleRequestInner (host : Host Comp) (http : HttpLib) (lib : ScriptLib) (req : Request)
    (clientAcceptsGzip : Bool) (traceId : String) : Handler Comp (Except Error Response) := do
  let path := req.uri.path
  match validatePathLength path with
  | some resp => return .ok resp
  | none =>
    match validateContentLength req.headers host.maxBodySizeBytes with
    | some resp => return .ok resp
    | none =>
      if startsWith "/static/" path || startsWith "/_mik/" path || startsWith "/openapi/" path then
        call (.serveOther path)
      else if startsWith "/script/" path then
        match ← handleScriptRequest host http lib req path traceId with
        | .ok resp => return .ok (maybeCompressResponse http resp clientAcceptsGzip)
        | .error e => return .ok (errorResponse (.scriptError path e.toString))
      else handleModuleRequest host http req clientAcceptsGzip

end

end Mik.Runtime
