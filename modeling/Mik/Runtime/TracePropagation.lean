/-
  The trace of a request on its way through a script (`handle_request`, `execute_script`,
  `execute_handler_call`).

  `handle_request` has the context of the request, and hands on `traceCtx.traceId`: 32 hexadecimal
  digits. `execute_handler_call` writes them as they are into the `traceparent` header of what it
  builds. A `traceparent` has four parts (`parse_eq_some_iff`), so that header is never one
  (`trace_never_propagated`).

  Spans and logging are left out. A new context is made from two UUIDs, which are random: they are
  parameters. Health and metrics are routes outside the model.
-/
import Mik.Lib.HeaderMap
import Mik.Runtime.Embedded
import Mik.Runtime.TraceContext

namespace Mik.Runtime

open Mik.Lib Mik.Lib.Prog Mik.Lib.HeaderMap

/-! ## The context of a request -/

/-- A `Uuid` of version 4, the bytes as they are written. -/
structure Uuid where
  bytes : List UInt8
  length : bytes.length = 16
  version : ∃ b, bytes[6]? = some b ∧ b.toNat / 16 = 4
  variant : ∃ b, bytes[8]? = some b ∧ b.toNat / 64 = 2

/-- `Uuid::to_string`, in five groups. -/
def Uuid.toString (u : Uuid) : String :=
  String.intercalate "-" [hexText (u.bytes.take 4), hexText ((u.bytes.drop 4).take 2),
    hexText ((u.bytes.drop 6).take 2), hexText ((u.bytes.drop 8).take 2),
    hexText (u.bytes.drop 10)]

def generateTraceId (u : Uuid) : String := hexText u.bytes

def generateSpanId (u : Uuid) : String := hexText (u.bytes.take 8)

def TraceContext.new (forTrace forSpan : Uuid) : TraceContext :=
  ⟨generateTraceId forTrace, generateSpanId forSpan, true⟩

/-- `extract_trace_context`; `fresh` is the context made when there is none. -/
def extractTraceContext (headers : HeaderMap Bytes) (fresh : TraceContext) : TraceContext :=
  (((headers.lookup "traceparent").bind headerToStr).bind TraceContext.parse).getD fresh

/-- The version is written as a 4, so the text is not zero. -/
theorem hexText_ne {bytes : List UInt8} {b : UInt8} (hb : b ∈ bytes) (h : b.toNat / 16 = 4) :
    ∃ c ∈ (hexText bytes).toList, c ≠ '0' := by
  refine ⟨'4', ?_, by decide⟩
  rw [toList_hexText]
  refine List.mem_flatMap.mpr ⟨b, hb, ?_⟩
  unfold hexByte
  rw [h]
  exact List.mem_cons_self

theorem wellFormed_new (forTrace forSpan : Uuid) :
    (TraceContext.new forTrace forSpan).WellFormed where
  traceId := by
    have hhex := hexOf_hexText forTrace.bytes
    rw [forTrace.length] at hhex
    exact hhex
  traceId_lower := hexText_lower _
  traceId_ne := by
    obtain ⟨b, hb, hversion⟩ := forTrace.version
    exact hexText_ne (List.mem_of_getElem? hb) hversion
  parentId := by
    have hhex := hexOf_hexText (forSpan.bytes.take 8)
    rw [List.length_take, forSpan.length] at hhex
    exact hhex
  parentId_lower := hexText_lower _
  parentId_ne := by
    obtain ⟨b, hb, hversion⟩ := forSpan.version
    have htake : (forSpan.bytes.take 8)[6]? = some b := by
      rw [List.getElem?_take_of_lt (by decide)]
      exact hb
    exact hexText_ne (List.mem_of_getElem? htake) hversion

/-- Every request has a context in the form in which it is written. -/
theorem wellFormed_extract (headers : HeaderMap Bytes) (forTrace forSpan : Uuid) :
    (extractTraceContext headers (TraceContext.new forTrace forSpan)).WellFormed := by
  unfold extractTraceContext
  cases hread : ((headers.lookup "traceparent").bind headerToStr).bind TraceContext.parse with
  | none => exact wellFormed_new forTrace forSpan
  | some ctx =>
    obtain ⟨s, -, hparse⟩ := Option.bind_eq_some_iff.mp hread
    exact TraceContext.wellFormed_of_parse hparse

/-! ## The request of a call -/

/-- `HeaderName::from_str` on the names that `execute_handler_call` uses. -/
structure KnownNames (http : HttpLib) : Prop where
  host : http.parseHeaderName "host" = some "host"
  traceparent : http.parseHeaderName "traceparent" = some "traceparent"
  contentType : http.parseHeaderName "content-type" = some "content-type"

/-- The call comes without a `traceparent` of its own, in any case of the letters. -/
def NoOwnTraceparent (http : HttpLib) (c : HostCall) : Prop :=
  ∀ h ∈ c.headers, http.parseHeaderName h.1 ≠ some "traceparent"

/-- A request carries a `traceparent` with the trace id of a context. -/
def Propagates (ctx : TraceContext) (req : Request) : Prop :=
  ∃ value ∈ values "traceparent" req.headers, ∃ s c, headerToStr value = some s ∧
    TraceContext.parse s = some c ∧ c.traceId = ctx.traceId

/-- What `Builder::header` adds. -/
def builtHeader (http : HttpLib) (h : String × String) : Option (String × Bytes) :=
  (http.parseHeaderName h.1).bind fun name =>
    if http.headerValueOk h.2 then some (name, utf8 h.2) else none

theorem buildRequest_headers {http : HttpLib} {method uri : String}
    {headers : List (String × String)} {body : Bytes} {req : Request}
    (h : buildRequest http method uri headers body = some req) :
    headers.mapM (builtHeader http) = some req.headers := by
  unfold buildRequest at h
  obtain ⟨m, -, h⟩ := Option.bind_eq_some_iff.mp h
  obtain ⟨u, -, h⟩ := Option.bind_eq_some_iff.mp h
  obtain ⟨hs, hhs, h⟩ := Option.bind_eq_some_iff.mp h
  rw [← Option.some.inj h]
  exact hhs

/-- The headers built under a name are those whose name is read as it. -/
theorem values_mapM {http : HttpLib} {name : String} {headers : List (String × String)}
    {built : HeaderMap Bytes} (h : headers.mapM (builtHeader http) = some built) :
    values name built =
      (headers.filter fun h => http.parseHeaderName h.1 = some name).map fun h => utf8 h.2 := by
  induction headers generalizing built with
  | nil =>
    cases h
    rfl
  | cons hd headers ih =>
    rw [List.mapM_cons] at h
    obtain ⟨x, hx, h⟩ := Option.bind_eq_some_iff.mp h
    obtain ⟨rest, hrest, h⟩ := Option.bind_eq_some_iff.mp h
    rw [← Option.some.inj h]
    unfold builtHeader at hx
    obtain ⟨name', hname', hx⟩ := Option.bind_eq_some_iff.mp hx
    split at hx
    · rw [← Option.some.inj hx]
      by_cases heq : name' = name
      · subst heq
        rw [values_cons_self, ih hrest, List.filter_cons_of_pos (by simpa using hname')]
        rfl
      · rw [values_cons_ne heq, ih hrest,
          List.filter_cons_of_neg (by simpa [hname'] using heq)]
    · cases hx

/-- A call without a `traceparent` of its own is sent with the trace id in its place. -/
theorem values_handlerCallRequest {http : HttpLib} (known : KnownNames http) {c : HostCall}
    {traceId : String} {req : Request} (hown : NoOwnTraceparent http c)
    (h : handlerCallRequest http c traceId = some req) :
    values "traceparent" req.headers = [utf8 traceId] := by
  rw [values_mapM (buildRequest_headers h)]
  have hnone : (c.headers.filter fun h => http.parseHeaderName h.1 = some "traceparent") = [] := by
    rw [List.filter_eq_nil_iff]
    intro x hx
    simpa using hown x hx
  rw [List.filter_append, List.filter_append, hnone]
  split
  · simp [known.host, known.traceparent]
  · simp [known.host, known.traceparent, known.contentType]

/-- Digits only are no `traceparent`. -/
theorem TraceContext.parse_of_hex {n : Nat} {s : String} (h : HexOf n s) : parse s = none := by
  unfold parse splitChar
  rw [List.splitOn_eq_singleton (dash_notMem h)]
  rfl

/-- What is sent for such a call does not carry the trace. -/
theorem not_propagates {http : HttpLib} (known : KnownNames http) {ctx : TraceContext}
    (hctx : ctx.WellFormed) {c : HostCall} {req : Request} (hown : NoOwnTraceparent http c)
    (h : handlerCallRequest http c ctx.traceId = some req) : ¬ Propagates ctx req := by
  rintro ⟨value, hvalue, s, read, hs, hparse, -⟩
  rw [values_handlerCallRequest known hown h] at hvalue
  rw [List.mem_singleton.mp hvalue] at hs
  rw [utf8_injective (utf8_of_headerToStr hs), TraceContext.parse_of_hex hctx.traceId] at hparse
  cases hparse

/-! ## From the request to the call -/

section

variable {Comp : Type} {http : HttpLib} {traceId : String}

/-- `handle_request`. -/
def handleRequest (host : Host Comp) (http : HttpLib) (lib : ScriptLib)
    (requestId forTrace forSpan : Uuid) (req : Request) : Handler Comp (Except Error Response) :=
  let traceCtx := extractTraceContext req.headers (TraceContext.new forTrace forSpan)
  let clientAcceptsGzip := acceptsGzip req.headers
  let path := req.uri.path
  if path = "/health" ∨ path = "/metrics" then call (.serveOther path)
  else do
    let result ← handleRequestInner host http lib req clientAcceptsGzip traceCtx.traceId
    return result.map fun resp =>
      insertHeader "traceparent" traceCtx.toTraceparent
        (insertHeader "x-request-id" requestId.toString resp)

/-- Every request a program hands to a component is built for a call, with this trace id. -/
structure HandsCalls {α : Type} (http : HttpLib) (traceId : String) (p : Handler Comp α) :
    Prop where
  within : p.Within (fun _ _ => True)
    (fun a => ∀ component req, a = .execute component req →
      ∃ c, handlerCallRequest http c traceId = some req) fun _ => True

theorem handsCalls_ret {α : Type} (x : α) : HandsCalls http traceId (.ret x : Handler Comp α) :=
  ⟨True.intro⟩

theorem HandsCalls.bind {α β : Type} {p : Handler Comp α} {f : α → Handler Comp β}
    (hp : HandsCalls http traceId p) (hf : ∀ x, HandsCalls http traceId (f x)) :
    HandsCalls http traceId (p >>= f) := ⟨hp.within.bind fun x _ => (hf x).within⟩

theorem handsCalls_call {a : Action Comp} (h : ∀ component req, a ≠ .execute component req) :
    HandsCalls http traceId (call a) :=
  ⟨fun component req heq => absurd heq (h component req), fun _ _ => True.intro⟩

theorem handsCalls_execute {c : HostCall} {req : Request} (component : Comp)
    (h : handlerCallRequest http c traceId = some req) :
    HandsCalls http traceId (call (.execute component req)) := by
  refine ⟨fun component' req' heq => ?_, fun _ _ => True.intro⟩
  cases heq
  exact ⟨c, h⟩

theorem handsCalls_getModuleSemaphore (key : String) :
    HandsCalls http traceId (getModuleSemaphore key : Handler Comp Nat) := by
  refine (handsCalls_call (by simp)).bind fun found => ?_
  cases found with
  | some semaphore => exact handsCalls_ret semaphore
  | none => exact handsCalls_call (by simp)

/-- What is done after a load or an execution: a record, and the permit is dropped. -/
theorem handsCalls_settle {α : Type} {record : Action Comp} (semaphore : Nat) (x : α)
    (h : ∀ component req, record ≠ .execute component req) :
    HandsCalls http traceId (do
      let _ ← call record
      let _ ← call (.release semaphore)
      return x : Handler Comp α) :=
  (handsCalls_call h).bind fun _ => (handsCalls_call (by simp)).bind fun _ => handsCalls_ret x

theorem handsCalls_executeHandlerCall (c : HostCall) :
    HandsCalls http traceId (executeHandlerCall http c traceId :
      Handler Comp (Except Error HostCallResult)) := by
  unfold executeHandlerCall passGate
  refine (handsCalls_call (by simp)).bind fun checked => ?_
  cases checked with
  | error e => exact handsCalls_ret _
  | ok u =>
    refine (handsCalls_getModuleSemaphore c.module).bind fun semaphore => ?_
    refine (handsCalls_call (by simp)).bind fun acquired => ?_
    cases acquired with
    | false => exact handsCalls_ret _
    | true =>
      refine (handsCalls_call (by simp)).bind fun loaded => ?_
      cases loaded with
      | error e => exact handsCalls_settle semaphore _ (by simp)
      | ok component =>
        dsimp only
        cases hreq : handlerCallRequest http c traceId with
        | none => exact (handsCalls_call (by simp)).bind fun _ => handsCalls_ret _
        | some req =>
          refine (handsCalls_execute component hreq).bind fun execution => ?_
          cases execution.result with
          | ok response => exact handsCalls_settle semaphore _ (by simp)
          | error e => exact handsCalls_settle semaphore _ (by simp)

/-- By induction on the calls of the script. -/
theorem handsCalls_executeScript (js : JsRun) (lastError : Option String) (calls : Nat) :
    HandsCalls http traceId (executeScript http traceId js lastError calls :
      Handler Comp (Except Error (String × Nat))) := by
  induction js generalizing lastError calls with
  | finish result =>
    cases result with
    | error e => exact handsCalls_ret _
    | ok result =>
      cases lastError with
      | none => exact handsCalls_ret _
      | some err => exact handsCalls_ret _
  | crash e => exact handsCalls_ret _
  | hostCall c k ih =>
    unfold executeScript
    refine (handsCalls_executeHandlerCall c).bind fun answer => ?_
    cases answer with
    | ok resp => exact ih resp lastError (calls + 1)
    | error e => exact ih _ _ _

theorem handsCalls_handleScriptRequest (host : Host Comp) (lib : ScriptLib) (req : Request)
    (path : String) : HandsCalls http traceId
      (handleScriptRequest host http lib req path traceId) := by
  unfold handleScriptRequest
  cases scriptName path with
  | error e => exact handsCalls_ret _
  | ok name =>
  cases host.scriptsDir with
  | none => exact handsCalls_ret _
  | some scriptsDir =>
  refine (handsCalls_call (by simp)).bind fun read => ?_
  cases read with
  | none => exact handsCalls_ret _
  | some script =>
  dsimp only
  cases scriptInput lib req host.maxBodySizeBytes with
  | error e => exact handsCalls_ret _
  | ok input =>
    refine (handsCalls_executeScript (lib.run script input) none 0).bind fun result => ?_
    cases result with
    | error e => exact handsCalls_ret _
    | ok result => exact handsCalls_ret _

/-- On the script route nothing else is executed. -/
theorem handsCalls_handleRequestInner (host : Host Comp) (lib : ScriptLib) {req : Request}
    (gzip : Bool) (hscript : startsWith "/script/" req.uri.path = true) :
    HandsCalls http traceId (handleRequestInner host http lib req gzip traceId) := by
  unfold handleRequestInner
  dsimp only
  split
  · exact handsCalls_ret _
  split
  · exact handsCalls_ret _
  rw [if_pos hscript]
  split
  · exact handsCalls_call (by simp)
  · refine (handsCalls_handleScriptRequest host lib req req.uri.path).bind fun result => ?_
    cases result with
    | ok resp => exact handsCalls_ret _
    | error e => exact handsCalls_ret _

/-- What is executed in a run of such a program. -/
theorem executions_calls {α : Type} {p : Handler Comp α} (hp : HandsCalls http traceId p)
    {tr : List (HandlerEvent Comp)} {out : α} (h : Exec p tr out) :
    ∀ e ∈ executions tr, ∃ c, handlerCallRequest http c traceId = some e.2 := by
  intro e he
  obtain ⟨ev, hev, hexec⟩ := List.mem_filterMap.mp he
  have hall := Within.of_exec hp.within h ev hev
  split at hexec
  · next component req heq =>
    cases hexec
    exact hall component req heq
  · cases hexec

end

/-- A trace never goes through a script. Whatever a request brings, and whatever its script calls
    without a `traceparent` of its own, the request built for the call carries no `traceparent`;
    and nothing but such requests is executed when the script route is served. -/
theorem trace_never_propagated {Comp : Type} (host : Host Comp) (http : HttpLib)
    (known : KnownNames http) (lib : ScriptLib) (requestId forTrace forSpan : Uuid)
    (incoming : Request) :
    (∀ c req, NoOwnTraceparent http c →
      handlerCallRequest http c
        (extractTraceContext incoming.headers (.new forTrace forSpan)).traceId = some req →
      ¬ Propagates (extractTraceContext incoming.headers (.new forTrace forSpan)) req) ∧
    ∀ tr out, startsWith "/script/" incoming.uri.path = true →
      Exec (handleRequest host http lib requestId forTrace forSpan incoming) tr out →
      ∀ e ∈ executions tr, ∃ c,
        handlerCallRequest http c
          (extractTraceContext incoming.headers (.new forTrace forSpan)).traceId = some e.2 ∧
        (NoOwnTraceparent http c →
          ¬ Propagates (extractTraceContext incoming.headers (.new forTrace forSpan)) e.2) := by
  have hctx := wellFormed_extract incoming.headers forTrace forSpan
  refine ⟨fun c req hown h => not_propagates known hctx hown h, fun tr out hscript h e he => ?_⟩
  have hroute : ¬ (incoming.uri.path = "/health" ∨ incoming.uri.path = "/metrics") := by
    rintro (heq | heq)
    · rw [heq] at hscript
      exact absurd hscript (by decide)
    · rw [heq] at hscript
      exact absurd hscript (by decide)
  have hhands : HandsCalls http
      (extractTraceContext incoming.headers (.new forTrace forSpan)).traceId
      (handleRequest host http lib requestId forTrace forSpan incoming) := by
    unfold handleRequest
    rw [if_neg hroute]
    exact (handsCalls_handleRequestInner host lib _ hscript).bind fun result => handsCalls_ret _
  obtain ⟨c, hc⟩ := executions_calls hhands h e he
  exact ⟨c, hc, fun hown => not_propagates known hctx hown hc⟩

/-! ## A sample -/

/-- It reads the one URI of the sample. -/
def traceHttp : HttpLib where
  withPathAndQuery _ _ := none
  parseUri text :=
    if text = "http://localhost/" then some ⟨some "http", some "localhost", "/", none⟩ else none
  parseMethod := some
  parseHeaderName name := some (toAsciiLowercase name)
  headerValueOk value := value.toList.all fun c => 0x20 ≤ c.toNat && c.toNat < 0x7F
  compress := id

/-- A script that calls one module. -/
def callingLib : ScriptLib where
  parseJson _ := .ok "null"
  run _ _ := .hostCall ⟨"orders", "POST", "/", [], none⟩ fun _ => .finish (.ok "null")

def sampleUuid : Uuid where
  bytes := [0x4B, 0xF9, 0x2F, 0x35, 0x77, 0xB3, 0x4D, 0xA6, 0xA3, 0xCE, 0x92, 0x9D, 0x0E, 0x0E,
    0x47, 0x36]
  length := rfl
  version := ⟨0x4D, rfl, rfl⟩
  variant := ⟨0xA3, rfl, rfl⟩

def tracedRequest : Request where
  method := "POST"
  uri := ⟨none, none, "/script/pay", none⟩
  headers := [("traceparent", utf8 "00-4bf92f3577b34da6a3ce929d0e0e4736-00f067aa0ba902b7-01")]
  body := ⟨[], none⟩

/-- Every module answers. -/
def readyAnswer : (a : Action Bytes) → Unit → Answer Bytes a × Unit
  | .checkRequest _, s => (.ok (), s)
  | .recordSuccess _, s => ((), s)
  | .recordFailure _, s => ((), s)
  | .findSemaphore _, s => (some 0, s)
  | .createSemaphore _, s => (0, s)
  | .tryAcquire _, s => (true, s)
  | .release _, s => ((), s)
  | .getOrLoad _, s => (.ok [0], s)
  | .getOrLoadModulePath _, s => (.ok [0], s)
  | .execute _ _, s => (⟨.ok ⟨200, [], []⟩, 1⟩, s)
  | .readScript _, s => (some "export default function() \x7b return host.call('orders'); \x7d", s)
  | .serveOther _, s => (.error (.other "not served"), s)

/-- The handler of the sample. -/
def tracedHandler : Handler Bytes (Except Error Response) :=
  handleRequest { sampleHost with scriptsDir := some "scripts" } traceHttp callingLib sampleUuid
    sampleUuid sampleUuid tracedRequest

def sampleCall : HostCall := ⟨"orders", "POST", "/", [], none⟩

/-- The header is the trace id alone. -/
def sentRequest : Request where
  method := "POST"
  uri := ⟨some "http", some "localhost", "/", none⟩
  headers := [("host", utf8 "localhost"), ("traceparent", utf8 "4bf92f3577b34da6a3ce929d0e0e4736")]
  body := ⟨[[]], none⟩

theorem knownNames_traceHttp : KnownNames traceHttp := ⟨by decide, by decide, by decide⟩

theorem sentRequest_built : handlerCallRequest traceHttp sampleCall
    (extractTraceContext tracedRequest.headers (.new sampleUuid sampleUuid)).traceId =
      some sentRequest := by decide +kernel

theorem trace_never_propagated_call :
    NoOwnTraceparent traceHttp sampleCall ∧
      handlerCallRequest traceHttp sampleCall
        (extractTraceContext tracedRequest.headers (.new sampleUuid sampleUuid)).traceId =
          some sentRequest ∧
      ¬ Propagates (extractTraceContext tracedRequest.headers (.new sampleUuid sampleUuid))
        sentRequest := by
  have hown : NoOwnTraceparent traceHttp sampleCall := nofun
  exact ⟨hown, sentRequest_built, (trace_never_propagated sampleHost traceHttp
    knownNames_traceHttp callingLib sampleUuid sampleUuid sampleUuid tracedRequest).1 sampleCall
      sentRequest hown sentRequest_built⟩

/-- A request with a `traceparent` whose script makes one call: what is executed for the call has no
    `traceparent` of that trace. -/
theorem trace_lost :
    TraceContext.parse "00-4bf92f3577b34da6a3ce929d0e0e4736-00f067aa0ba902b7-01" =
        some (extractTraceContext tracedRequest.headers (.new sampleUuid sampleUuid)) ∧
      ∃ tr out, Exec tracedHandler tr out ∧ executions tr = [([0], sentRequest)] ∧
        ¬ Propagates (extractTraceContext tracedRequest.headers (.new sampleUuid sampleUuid))
          sentRequest := by
  have hown : NoOwnTraceparent traceHttp sampleCall := nofun
  refine ⟨by decide +kernel, _, _, exec_traceOn readyAnswer tracedHandler (), by decide +kernel, ?_⟩
  exact not_propagates knownNames_traceHttp
    (wellFormed_extract tracedRequest.headers sampleUuid sampleUuid) hown sentRequest_built

end Mik.Runtime
