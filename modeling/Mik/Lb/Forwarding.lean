/-
  What the load balancer hands on (`handle_request` of `src/runtime/lb/server.rs`,
  `HttpBackend::forward` of `backend.rs`).

  In both directions headers pass through `Vec<(String, String)>`: a value is read with
  `to_str().unwrap_or_default()` and written back as a header. So a value that is no text arrives
  empty, and nothing else is changed (`kept_iff`). Hop-by-hop headers are dropped.

  hyper and reqwest are taken to transmit what they are given: `send` is the backend as reqwest shows
  it, any function of the outgoing request. That includes responses with a 3xx status, although the
  client is built with reqwest's default policy, which follows redirects itself. Header names are in
  lower case, the way `http` stores them, also those that the source writes with capitals.
-/
import Mik.Lib.HeaderMap
import Mik.Lib.HostName
import Mik.Runtime.HeaderText

namespace Mik.Lb

open Mik.Lib Mik.Lib.HeaderMap
open Mik.Runtime (Bytes headerToStr Readable utf8_getD_iff)

/-! ## Messages -/

/-- A request as hyper delivers it; the body is what collecting it gives. -/
structure WireRequest where
  method : String
  pathAndQuery : Option String
  headers : HeaderMap Bytes
  body : Except String Bytes

/-- A response as hyper sends it. -/
structure WireResponse where
  status : Nat
  headers : HeaderMap Bytes
  body : Bytes
  deriving DecidableEq, Repr

/-- `runtime::request::Request`. -/
structure Request where
  method : String
  path : String
  headers : HeaderMap String
  body : Bytes
  deriving DecidableEq, Repr

/-- `runtime::request::Response`. -/
structure Response where
  status : Nat
  headers : HeaderMap String
  body : Bytes
  deriving DecidableEq, Repr

/-- What reqwest is given to send. -/
structure Outgoing where
  method : String
  url : String
  headers : HeaderMap Bytes
  body : Option Bytes
  deriving DecidableEq, Repr

/-- What reqwest returns; reading the body may fail. -/
structure BackendReply where
  status : Nat
  headers : HeaderMap Bytes
  body : Except String Bytes

/-! ## Conversions -/

def isHopByHopHeader (name : String) : Bool :=
  toAsciiLowercase name ∈ ["connection", "keep-alive", "proxy-authenticate",
    "proxy-authorization", "te", "trailers", "transfer-encoding", "upgrade"]

/-- `(name.to_string(), value.to_str().unwrap_or_default().to_string())`. -/
def readHeaders (headers : HeaderMap Bytes) : HeaderMap String :=
  headers.map fun h => (h.1, (headerToStr h.2).getD "")

/-- Headers given to a builder as `&str`s. -/
def writeHeaders (headers : HeaderMap String) : HeaderMap Bytes :=
  headers.map fun h => (h.1, utf8 h.2)

/-- The headers that are handed on. -/
def endToEnd {β : Type} (headers : HeaderMap β) : HeaderMap β :=
  headers.filter fun h => !isHopByHopHeader h.1

/-! ## Forwarding -/

section

variable (parseMethod : String → Option String) (send : Outgoing → Except String BackendReply)

/-- The request that `HttpBackend::forward` builds. -/
def outgoingRequest (address : String) (req : Request) : Outgoing where
  method := (parseMethod req.method).getD "GET"
  url := "http://" ++ address ++ req.path
  headers := writeHeaders (endToEnd req.headers)
  body := if req.body = [] then none else some req.body

/-- `HttpBackend::forward`. -/
def HttpBackend.forward (address : String) (req : Request) : Except String Response :=
  match send (outgoingRequest parseMethod address req) with
  | .error e => .error e
  | .ok reply =>
    match reply.body with
    | .error e => .error e
    | .ok body => .ok ⟨reply.status, readHeaders (endToEnd reply.headers), body⟩

/-- What `select_backend` comes to. -/
inductive Selected where
  | backend (address : String)
  | noHealthyBackends
  | allAtCapacity
  deriving DecidableEq, Repr

/-- `Proxy::forward`. -/
def Proxy.forward (selected : Selected) (req : Request) : Response :=
  match selected with
  | .noHealthyBackends =>
    ⟨503, [("content-type", "text/plain")], utf8 "No healthy backends available"⟩
  | .allAtCapacity =>
    ⟨503, [("content-type", "text/plain")], utf8 "All backends at connection capacity"⟩
  | .backend address =>
    match HttpBackend.forward parseMethod send address req with
    | .ok response => response
    | .error e => ⟨502, [("content-type", "text/plain")], utf8 ("Backend error: " ++ e)⟩

/-- The request that `handle_request` hands to the proxy. -/
def toRequest (req : WireRequest) (body : Bytes) : Request where
  method := req.method
  path := req.pathAndQuery.getD "/"
  headers := readHeaders req.headers
  body := body

/-- `handle_request`. -/
def handleRequest (selected : Selected) (req : WireRequest) : WireResponse :=
  match req.body with
  | .error e => ⟨400, [], utf8 ("Failed to read body: " ++ e)⟩
  | .ok body =>
    let response := Proxy.forward parseMethod send selected (toRequest req body)
    ⟨response.status, writeHeaders response.headers, response.body⟩

end

/-! ## What arrives -/

/-- The end-to-end headers have arrived: each name with its values, in their order. -/
def Kept (sent received : HeaderMap Bytes) : Prop :=
  ∀ name, isHopByHopHeader name = false → values name received = values name sent

/-- The end-to-end headers can be read as text. -/
def AllReadable (headers : HeaderMap Bytes) : Prop :=
  ∀ h ∈ headers, isHopByHopHeader h.1 = false → Readable h.2

instance (headers : HeaderMap Bytes) : Decidable (AllReadable headers) :=
  inferInstanceAs (Decidable (∀ h ∈ headers, _ → _))

/-- Which headers are handed on does not depend on their values. -/
theorem endToEnd_map {β γ : Type} (f : β → γ) (headers : HeaderMap β) :
    endToEnd (headers.map fun h => (h.1, f h.2)) = (endToEnd headers).map fun h => (h.1, f h.2) := by
  unfold endToEnd
  rw [List.filter_map]
  rfl

/-- A value goes through text. -/
def throughText (value : Bytes) : Bytes := utf8 ((headerToStr value).getD "")

theorem map_throughText_iff (vs : List Bytes) :
    vs.map throughText = vs ↔ ∀ value ∈ vs, Readable value := by
  induction vs with
  | nil => simp
  | cons value vs ih =>
    rw [List.map_cons, List.cons.injEq, ih, List.forall_mem_cons]
    exact and_congr_left' (utf8_getD_iff value)

theorem writeHeaders_readHeaders (headers : HeaderMap Bytes) :
    writeHeaders (readHeaders headers) = headers.map fun h => (h.1, throughText h.2) := by
  unfold writeHeaders readHeaders
  rw [List.map_map]
  rfl

/-- Headers that go through text arrive exactly when all of them can be read. -/
theorem kept_iff (headers : HeaderMap Bytes) :
    Kept headers ((endToEnd headers).map fun h => (h.1, throughText h.2)) ↔
      AllReadable headers := by
  have hvalues : ∀ name, isHopByHopHeader name = false →
      values name ((endToEnd headers).map fun h => (h.1, throughText h.2)) =
        (values name headers).map throughText := by
    intro name hname
    rw [values_map]
    congr 1
    refine @values_filter_of_keep _ (fun name => !isHopByHopHeader name) name ?_ headers
    rw [hname]
    rfl
  constructor
  · intro h x hx hname
    have hkept := h x.1 hname
    rw [hvalues x.1 hname, map_throughText_iff] at hkept
    exact hkept x.2 (mem_values_iff.mpr hx)
  · intro h name hname
    rw [hvalues name hname, map_throughText_iff]
    intro value hvalue
    exact h (name, value) (mem_values_iff.mp hvalue) hname

/-- What reqwest is given for a request. -/
theorem headers_outgoingRequest (parseMethod : String → Option String) (address : String)
    (req : WireRequest) (body : Bytes) :
    (outgoingRequest parseMethod address (toRequest req body)).headers =
      (endToEnd req.headers).map fun h => (h.1, throughText h.2) := by
  unfold outgoingRequest toRequest
  dsimp only
  rw [← writeHeaders_readHeaders]
  exact congrArg writeHeaders (endToEnd_map (fun value => (headerToStr value).getD "") req.headers)

/-- What the client gets for the reply of a backend. -/
theorem handleRequest_of_reply {parseMethod : String → Option String}
    {send : Outgoing → Except String BackendReply} {address : String} {req : WireRequest}
    {body replyBody : Bytes} {reply : BackendReply} (hbody : req.body = .ok body)
    (hsend : send (outgoingRequest parseMethod address (toRequest req body)) = .ok reply)
    (hreply : reply.body = .ok replyBody) :
    handleRequest parseMethod send (.backend address) req =
      ⟨reply.status, (endToEnd reply.headers).map fun h => (h.1, throughText h.2), replyBody⟩ := by
  unfold handleRequest Proxy.forward HttpBackend.forward
  rw [hbody]
  dsimp only
  rw [hsend]
  dsimp only
  rw [hreply]
  dsimp only
  rw [writeHeaders_readHeaders]

/-- An exchange is transparent when the backend gets the end-to-end headers and the body of the
    request, and the client status, end-to-end headers and body of the reply. -/
structure Transparent (req : WireRequest) (body : Bytes) (out : Outgoing) (reply : BackendReply)
    (replyBody : Bytes) (resp : WireResponse) : Prop where
  request : Kept req.headers out.headers
  body : out.body.getD [] = body
  status : resp.status = reply.status
  response : Kept reply.headers resp.headers
  replyBody : resp.body = replyBody

/-- The exchange with a backend is transparent exactly when the end-to-end headers of the request
    and of the reply can be read as text. -/
theorem transparent_iff (parseMethod : String → Option String)
    (send : Outgoing → Except String BackendReply) (address : String) (req : WireRequest)
    (body replyBody : Bytes) (reply : BackendReply) (hbody : req.body = .ok body)
    (hsend : send (outgoingRequest parseMethod address (toRequest req body)) = .ok reply)
    (hreply : reply.body = .ok replyBody) :
    Transparent req body (outgoingRequest parseMethod address (toRequest req body)) reply
        replyBody (handleRequest parseMethod send (.backend address) req) ↔
      AllReadable req.headers ∧ AllReadable reply.headers := by
  have hresp := handleRequest_of_reply hbody hsend hreply
  constructor
  · intro h
    have hrequest := h.request
    have hresponse := h.response
    rw [headers_outgoingRequest, kept_iff] at hrequest
    rw [hresp, kept_iff] at hresponse
    exact ⟨hrequest, hresponse⟩
  · rintro ⟨hrequest, hresponse⟩
    refine ⟨?_, ?_, ?_, ?_, ?_⟩
    · rw [headers_outgoingRequest]
      exact (kept_iff _).mpr hrequest
    · unfold outgoingRequest toRequest
      dsimp only
      split
      · next hempty => exact hempty.symm
      · rfl
    · rw [hresp]
    · rw [hresp]
      exact (kept_iff _).mpr hresponse
    · rw [hresp]

/-- A name in Latin-1 in a header of the request. -/
def latinRequest : WireRequest where
  method := "GET"
  pathAndQuery := some "/"
  headers := [("host", [0x61]), ("x-name", [0xE9])]
  body := .ok []

/-- A header that is sent twice, and one that belongs to the connection. -/
def textRequest : WireRequest where
  method := "GET"
  pathAndQuery := some "/"
  headers := [("x-tag", [0x61]), ("connection", [0xE9]), ("x-tag", [0x62, 0x09])]
  body := .ok [1]

def emptyReply : BackendReply := ⟨204, [], .ok []⟩

theorem transparent_text :
    Transparent textRequest [1]
      (outgoingRequest some "127.0.0.1:3001" (toRequest textRequest [1])) emptyReply []
      (handleRequest some (fun _ => .ok emptyReply) (.backend "127.0.0.1:3001") textRequest) :=
  (transparent_iff some (fun _ => .ok emptyReply) "127.0.0.1:3001" textRequest [1] [] emptyReply
    rfl rfl rfl).mpr ⟨by decide +kernel, by decide +kernel⟩

/-- The value of `x-name` arrives empty. -/
theorem latin_value_lost :
    values "x-name"
        (outgoingRequest some "127.0.0.1:3001" (toRequest latinRequest [])).headers = [[]] ∧
      ¬ Transparent latinRequest []
        (outgoingRequest some "127.0.0.1:3001" (toRequest latinRequest [])) emptyReply []
        (handleRequest some (fun _ => .ok emptyReply) (.backend "127.0.0.1:3001")
          latinRequest) := by
  refine ⟨by decide, fun h => ?_⟩
  have hkept := h.request "x-name" (by decide)
  revert hkept
  decide

end Mik.Lb
