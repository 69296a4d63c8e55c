/-
  Requests and responses as the handlers of `src/runtime/request_handler.rs` see them.

  Header names are in lower case, the way `http` stores them. A request body is the list of
  frames that will arrive, with the error that ends it early, if any; `collectRequestBody` is
  `Limited` around it. The parsers of the `http` crate and the gzip encoder are the parameters
  `HttpLib`: nothing below depends on which strings they accept.
-/
import Mathlib.Data.List.Infix
import Mik.Lib.Text
import Mik.Runtime.Cache

namespace Mik.Runtime

open Mik.Lib

structure Uri where
  scheme : Option String
  authority : Option String
  path : String
  query : Option String
  deriving DecidableEq, Repr

/-- A body on the wire: its frames, and the texts of the error chain it breaks off with. -/
structure Incoming where
  frames : List Bytes
  failure : Option (List String)
  deriving DecidableEq, Repr

structure Request where
  method : String
  uri : Uri
  headers : List (String × Bytes)
  body : Incoming
  deriving DecidableEq, Repr

structure Response where
  status : Nat
  headers : List (String × String)
  body : Bytes
  deriving DecidableEq, Repr

structure HttpLib where
  /-- `PathAndQuery::from_str`, then `Uri::from_parts` with the other parts of the URI. -/
  withPathAndQuery : Uri → String → Option Uri
  parseUri : String → Option Uri
  parseMethod : String → Option String
  parseHeaderName : String → Option String
  headerValueOk : String → Bool
  /-- `maybe_compress_response` for a client that accepts gzip. -/
  compress : Response → Response

/-- `HeaderMap::insert`. -/
def insertHeader (name value : String) (resp : Response) : Response :=
  { resp with headers := resp.headers.filter (fun h => h.1 ≠ name) ++ [(name, value)] }

def maybeCompressResponse (http : HttpLib) (resp : Response) (clientAcceptsGzip : Bool) :
    Response :=
  if clientAcceptsGzip then http.compress resp else resp

/-! ## Canned responses -/

/-- A character inside a JSON string, escaped as `serde_json` does. -/
def jsonEscape (c : Char) : List Char :=
  if c = '"' then ['\\', '"']
  else if c = '\\' then ['\\', '\\']
  else if c.toNat = 0x08 then ['\\', 'b']
  else if c.toNat = 0x09 then ['\\', 't']
  else if c.toNat = 0x0A then ['\\', 'n']
  else if c.toNat = 0x0C then ['\\', 'f']
  else if c.toNat = 0x0D then ['\\', 'r']
  else if c.toNat < 0x20 then ['\\', 'u', '0', '0'] ++ hexByte c.toNat
  else [c]

def jsonString (s : String) : String :=
  "\"" ++ String.ofList (s.toList.flatMap jsonEscape) ++ "\""

def notFound (message : String) : Response := ⟨404, [], utf8 message⟩

def errorResponse (err : Error) : Response where
  status := err.statusCode
  headers := [("content-type", "application/json")]
  body := utf8 ("\x7b\"error\":" ++ jsonString err.toString ++ ",\"status\":" ++
    err.statusCode.repr ++ "\x7d")

/-! ## Limits -/

def maxPathLength : Nat := 4096

def validatePathLength (path : String) : Option Response :=
  if maxPathLength < path.utf8ByteSize then
    some ⟨414, [("content-type", "application/json")],
      utf8 ("\x7b\"error\":\"URI too long\",\"length\":" ++ path.utf8ByteSize.repr ++
        ",\"max\":" ++ maxPathLength.repr ++ "\x7d")⟩
  else none

/-- `HeaderValue::to_str`: visible ASCII and tabs only. -/
def headerToStr (value : Bytes) : Option String :=
  if value.all fun b => (0x20 ≤ b && b < 0x7F) || b == 0x09 then
    some (String.ofList (value.map Char.ofUInt8))
  else none

/-- `str::parse::<usize>` on a 64-bit target. -/
def parseUsize (s : String) : Option Nat :=
  let digits := match s.toList with
    | '+' :: rest => rest
    | cs => cs
  if digits ≠ [] ∧ digits.all Char.isDigit then
    let n := digits.foldl (fun n c => n * 10 + (c.toNat - '0'.toNat)) 0
    if n < 0x10000000000000000 then some n else none
  else none

/-- The length a request declares, when the header is readable. -/
def contentLength (headers : List (String × Bytes)) : Option Nat :=
  (headers.lookup "content-length").bind fun value => (headerToStr value).bind parseUsize

def validateContentLength (headers : List (String × Bytes)) (maxBody : Nat) : Option Response :=
  match contentLength headers with
  | none => none
  | some len =>
    if maxBody < len then
      some ⟨413, [("content-type", "application/json")],
        utf8 ("\x7b\"error\":\"Request body too large\",\"size\":" ++ len.repr ++ ",\"max\":" ++
          maxBody.repr ++ "\x7d")⟩
    else none

/-- `Limited::collect`: the bytes of the body, or the texts of the error chain. -/
def collectLimited (remaining : Nat) (failure : Option (List String)) :
    List Bytes → Except (List String) Bytes
  | [] =>
    match failure with
    | none => .ok []
    | some chain => .error chain
  | frame :: frames =>
    if remaining < frame.length then .error ["length limit exceeded"]
    else
      match collectLimited (remaining - frame.length) failure frames with
      | .ok rest => .ok (frame ++ rest)
      | .error chain => .error chain

/-- `str::contains`. -/
def containsText (needle s : String) : Bool :=
  s.toList.tails.any fun t => needle.toList.isPrefixOf t

theorem containsText_iff (needle s : String) :
    containsText needle s = true ↔ needle.toList <:+: s.toList := by
  unfold containsText
  rw [List.any_eq_true]
  constructor
  · rintro ⟨t, ht, hprefix⟩
    exact List.infix_iff_prefix_suffix.mpr
      ⟨t, List.isPrefixOf_iff_prefix.mp hprefix, (List.mem_tails t s.toList).mp ht⟩
  · intro h
    obtain ⟨t, hprefix, hsuffix⟩ := List.infix_iff_prefix_suffix.mp h
    exact ⟨t, (List.mem_tails t s.toList).mpr hsuffix, List.isPrefixOf_iff_prefix.mpr hprefix⟩

/-- The error of the outer `Result` is a body that could not be read; the response of the inner
    one is the 413 of a body over the limit. -/
def collectRequestBody (body : Incoming) (maxBody : Nat) :
    Except Error (Except Response Bytes) :=
  match collectLimited maxBody body.failure body.frames with
  | .ok bytes => .ok (.ok bytes)
  | .error chain =>
    if chain.any (containsText "length limit") then
      .ok (.error ⟨413, [("content-type", "application/json")],
        utf8 ("\x7b\"error\":\"Request body too large\",\"max\":" ++ maxBody.repr ++ "\x7d")⟩)
    else .error (.other ("Failed to read request body: " ++ chain.headD ""))

/-- `rewrite_request_path`. -/
def rewriteRequestPath (http : HttpLib) (req : Request) (newPath : String) :
    Except Error Request :=
  match http.withPathAndQuery req.uri newPath with
  | some uri => .ok { req with uri := uri }
  | none => .error (.other "invalid uri")

end Mik.Runtime
