/-
  Gzip responses (`src/runtime/compression.rs`): when a client is taken to accept them, and what
  compression does to a response.

  `accepts_gzip` looks for the letters `gzip` anywhere in the header. Read as a list, the header may
  name them without accepting gzip: in a refusal, in another coding, in an element that is no coding
  (`acceptsGzip_justified_iff`). `Runtime::handle_request_internal` has the same expression.

  `maybe_compress_response` is over the header map as it is, values as bytes. The encoder is the
  parameter `gzip`, which may fail, and `fits` says whether the builder takes all headers; where it
  does not, the original is returned. HTTP version and extensions of the response are left out.
-/
import Mik.Lib.AcceptEncoding
import Mik.Lib.HeaderMap
import Mik.Runtime.Embedded
import Mik.Runtime.HeaderText

namespace Mik.Runtime

open Mik.Lib Mik.Lib.HeaderMap Mik.Lib.AcceptEncoding

/-! ## Accepting gzip -/

/-- An element of the list has the letters `gzip` in it. -/
def MentionsGzip (element : List Char) : Prop := "gzip".toList <:+: element

theorem acceptsGzip_iff {headers : HeaderMap Bytes} {v : Bytes}
    (hv : headers.lookup "accept-encoding" = some v) :
    acceptsGzip headers = true ↔
      ∃ value, headerToStr v = some value ∧ ∃ element ∈ elements value, MentionsGzip element := by
  have hread : (headers.lookup "accept-encoding").bind headerToStr = headerToStr v := by
    rw [hv]
    rfl
  unfold acceptsGzip
  rw [hread]
  cases headerToStr v with
  | none => simp
  | some value =>
    dsimp only
    rw [containsText_iff, infix_iff_elements (by decide)]
    simp [MentionsGzip]

/-- Gzip is taken to be accepted only when it is, exactly if the header has no element that mentions
    it, or accepts it. -/
theorem acceptsGzip_justified_iff (headers : HeaderMap Bytes) (v : Bytes)
    (hv : headers.lookup "accept-encoding" = some v) :
    (acceptsGzip headers = true → ∃ value, headerToStr v = some value ∧ AcceptsGzip value) ↔
      ∀ value, headerToStr v = some value →
        (∀ element ∈ elements value, ¬ MentionsGzip element) ∨ AcceptsGzip value := by
  rw [acceptsGzip_iff hv]
  constructor
  · intro h value hvalue
    by_cases hmention : ∃ element ∈ elements value, MentionsGzip element
    · obtain ⟨value', hvalue', haccepts⟩ := h ⟨value, hvalue, hmention⟩
      rw [hvalue] at hvalue'
      rw [Option.some.inj hvalue']
      exact Or.inr haccepts
    · exact Or.inl fun element helement hgzip => hmention ⟨element, helement, hgzip⟩
  · rintro h ⟨value, hvalue, element, helement, hgzip⟩
    rcases h value hvalue with hnone | haccepts
    · exact absurd hgzip (hnone element helement)
    · exact ⟨value, hvalue, haccepts⟩

theorem acceptsGzip_justified_weight :
    ∃ value, headerToStr (utf8 "br, gzip;q=0.5") = some value ∧ AcceptsGzip value := by
  have hread : headerToStr (utf8 "br, gzip;q=0.5") = some "br, gzip;q=0.5" := by decide
  refine (acceptsGzip_justified_iff [("accept-encoding", utf8 "br, gzip;q=0.5")] _ rfl).mpr
    (fun value hvalue => ?_) (by decide)
  rw [hread] at hvalue
  rw [← Option.some.inj hvalue]
  exact Or.inr (by decide)

/-- A client that refuses gzip, and one that names another coding. -/
theorem refused_gzip_accepted :
    (acceptsGzip [("accept-encoding", utf8 "gzip;q=0")] = true ∧ ¬ AcceptsGzip "gzip;q=0") ∧
      acceptsGzip [("accept-encoding", utf8 "xgzip")] = true ∧ ¬ AcceptsGzip "xgzip" := by
  decide

/-! ## Compressing a response -/

/-- `hyper::Response<Full<Bytes>>`. -/
structure FullResponse where
  status : Nat
  headers : HeaderMap Bytes
  body : Bytes
  deriving DecidableEq, Repr

namespace FullResponse

def contentType (resp : FullResponse) : String :=
  ((resp.headers.lookup "content-type").bind headerToStr).getD ""

/-- `poll_frame` on `Full<Bytes>`: its bytes in one frame, if there are any. -/
def pollFrame (body : Bytes) : Option Bytes := if body = [] then none else some body

def maybeCompressResponse (gzip : Bytes → Option Bytes) (fits : HeaderMap Bytes → Bool)
    (response : FullResponse) (clientAcceptsGzip : Bool) : FullResponse :=
  if !clientAcceptsGzip then response
  else if response.body.length < gzipMinSize then response
  else if !isCompressibleContentType response.contentType then response
  else
    match pollFrame response.body with
    | none => { response with body := [] }
    | some bodyBytes =>
      match maybeCompressBody gzip bodyBytes response.contentType true with
      | (_, none) => { response with body := bodyBytes }
      | (compressedBytes, some _) =>
        let headers := response.headers.filter (fun h => h.1 ≠ "content-length") ++
          [("content-encoding", utf8 "gzip"),
            ("content-length", utf8 compressedBytes.length.repr)]
        if fits headers then ⟨response.status, headers, compressedBytes⟩
        else { response with body := bodyBytes }

/-- The response as it is sent once its body is compressed. -/
def compressed (response : FullResponse) (bytes : Bytes) : FullResponse where
  status := response.status
  headers := response.headers.filter (fun h => h.1 ≠ "content-length") ++
    [("content-encoding", utf8 "gzip"), ("content-length", utf8 bytes.length.repr)]
  body := bytes

section

variable {gzip gunzip : Bytes → Option Bytes} {fits : HeaderMap Bytes → Bool}
  {response : FullResponse} {clientAcceptsGzip : Bool}

/-- What can become of a response: it stays, or its body is replaced by a shorter one. -/
theorem maybeCompressResponse_cases (gzip : Bytes → Option Bytes) (fits : HeaderMap Bytes → Bool)
    (response : FullResponse) (clientAcceptsGzip : Bool) :
    maybeCompressResponse gzip fits response clientAcceptsGzip = response ∨
      ∃ bytes, gzip response.body = some bytes ∧ bytes.length < response.body.length ∧
        maybeCompressResponse gzip fits response clientAcceptsGzip = response.compressed bytes := by
  unfold maybeCompressResponse
  split
  · exact Or.inl rfl
  split
  · exact Or.inl rfl
  next hsize =>
  split
  · exact Or.inl rfl
  next htype =>
  -- a body of this size has a frame
  have hframe : pollFrame response.body = some response.body := by
    unfold pollFrame
    rw [if_neg]
    intro hempty
    rw [hempty] at hsize
    exact hsize (by decide)
  rw [hframe]
  dsimp only
  unfold maybeCompressBody
  rw [if_neg (by decide), if_neg hsize, if_neg htype]
  cases hgzip : gzip response.body with
  | none => exact Or.inl rfl
  | some bytes =>
    dsimp only
    by_cases hlong : response.body.length ≤ bytes.length
    · rw [if_pos hlong]
      exact Or.inl rfl
    · rw [if_neg hlong]
      dsimp only
      split
      · exact Or.inr ⟨bytes, rfl, Nat.lt_of_not_le hlong, rfl⟩
      · exact Or.inl rfl

/-- What undoing a list of codings makes of a body; the last one was applied last. -/
def undo (gunzip : Bytes → Option Bytes) (codings : List Bytes) (body : Bytes) : Option Bytes :=
  codings.foldr (fun coding decoded => decoded.bind fun bytes =>
    if coding = utf8 "gzip" then gunzip bytes else none) (some body)

/-- A response that stands for another. -/
structure Transparent (gunzip : Bytes → Option Bytes) (before after : FullResponse) : Prop where
  status : after.status = before.status
  decoded : ∃ added, values "content-encoding" after.headers =
    values "content-encoding" before.headers ++ added ∧
      undo gunzip added after.body = some before.body
  kept : ∀ name, name ≠ "content-length" → name ≠ "content-encoding" →
    values name after.headers = values name before.headers
  contentLength : after.body ≠ before.body →
    values "content-length" after.headers = [utf8 after.body.length.repr]
  shorter : after.body.length ≤ before.body.length

theorem Transparent.refl (gunzip : Bytes → Option Bytes) (response : FullResponse) :
    Transparent gunzip response response where
  status := rfl
  decoded := ⟨[], (List.append_nil _).symm, rfl⟩
  kept _ _ _ := rfl
  contentLength h := absurd rfl h
  shorter := Nat.le_refl _

theorem values_compressed (name : String) (response : FullResponse) (bytes : Bytes) :
    values name (response.compressed bytes).headers =
      values name (response.headers.filter fun h => h.1 ≠ "content-length") ++
        values name [("content-encoding", utf8 "gzip"),
          ("content-length", utf8 bytes.length.repr)] := values_append _ _ _

/-- The headers of other names are those of the response. -/
theorem values_otherHeaders {name : String} (h : name ≠ "content-length")
    (response : FullResponse) :
    values name (response.headers.filter fun h => h.1 ≠ "content-length") =
      values name response.headers :=
  @values_filter_of_keep _ (fun name => name ≠ "content-length") name (decide_eq_true h)
    response.headers

theorem transparent_compressed {bytes : Bytes} (h : gunzip bytes = some response.body)
    (hshorter : bytes.length < response.body.length) :
    Transparent gunzip response (response.compressed bytes) where
  status := rfl
  decoded := by
    refine ⟨[utf8 "gzip"], ?_, ?_⟩
    · rw [values_compressed, values_otherHeaders (by decide) response,
        values_cons_self, values_cons_ne (by decide), values_nil]
    · exact h
  kept name hlength hencoding := by
    rw [values_compressed, values_otherHeaders hlength response,
      values_cons_ne (Ne.symm hencoding), values_cons_ne (Ne.symm hlength), values_nil,
      List.append_nil]
  contentLength _ := by
    have hdropped : values "content-length"
        (response.headers.filter fun h => h.1 ≠ "content-length") = [] :=
      @values_filter_of_drop _ (fun name => name ≠ "content-length") "content-length" (by decide)
        response.headers
    rw [values_compressed, hdropped, List.nil_append, values_cons_ne (by decide),
      values_cons_self, values_nil]
    rfl
  shorter := Nat.le_of_lt hshorter

end

/-! ## Responses with text headers -/

/-- The response of the handlers as hyper has it. -/
def ofResponse (resp : Response) : FullResponse where
  status := resp.status
  headers := resp.headers.map fun h => (h.1, utf8 h.2)
  body := resp.body

theorem contentType_ofResponse (resp : Response) :
    (ofResponse resp).contentType = resp.contentType := by
  unfold contentType Response.contentType ofResponse
  dsimp only
  rw [lookup_eq_head?, values_map, List.head?_map, lookup_eq_head?, Option.bind_map]
  rfl

theorem encoding_maybeCompressBody {gzip : Bytes → Option Bytes} {body bytes : Bytes}
    {contentType encoding : String} {clientAcceptsGzip : Bool}
    (h : maybeCompressBody gzip body contentType clientAcceptsGzip = (bytes, some encoding)) :
    encoding = "gzip" := by
  unfold maybeCompressBody at h
  split at h
  · cases h
  split at h
  · cases h
  split at h
  · cases h
  split at h
  · cases h
  split at h
  · cases h
  · cases h
    rfl

/-- On such responses it is the compression that the handlers are modelled with. -/
theorem maybeCompressResponse_ofResponse (gzip : Bytes → Option Bytes) (resp : Response) :
    maybeCompressResponse gzip (fun _ => true) (ofResponse resp) true =
      ofResponse (compressResponse gzip resp) := by
  unfold maybeCompressResponse compressResponse
  rw [contentType_ofResponse, if_neg (by decide)]
  show (if resp.body.length < gzipMinSize then _ else _) = _
  split
  · rfl
  next hsize =>
  split
  · rfl
  have hframe : pollFrame (ofResponse resp).body = some resp.body := by
    unfold pollFrame
    refine if_neg fun hempty => hsize ?_
    have hbody : resp.body = [] := hempty
    rw [hbody]
    decide
  rw [hframe]
  dsimp only
  cases hcompressed : maybeCompressBody gzip resp.body resp.contentType true with
  | mk bytes encoding =>
    cases encoding with
    | none => rfl
    | some encoding =>
      rw [encoding_maybeCompressBody hcompressed]
      dsimp only
      rw [if_pos rfl]
      unfold ofResponse
      dsimp only
      rw [List.filter_map, List.map_append]
      rfl

end FullResponse

/-- Compression is transparent. Whatever the response, its headers and the flag, what is sent has its
    status, decodes to its body, keeps its other headers, says its own length and is not longer. -/
theorem compression_transparent (gzip gunzip : Bytes → Option Bytes)
    (law : ∀ body bytes, gzip body = some bytes → gunzip bytes = some body)
    (fits : HeaderMap Bytes → Bool) (response : FullResponse) (clientAcceptsGzip : Bool) :
    response.Transparent gunzip
      (response.maybeCompressResponse gzip fits clientAcceptsGzip) := by
  rcases FullResponse.maybeCompressResponse_cases gzip fits response clientAcceptsGzip with
    hsame | ⟨bytes, hgzip, hshorter, hcompressed⟩
  · rw [hsame]
    exact FullResponse.Transparent.refl gunzip response
  · rw [hcompressed]
    exact FullResponse.transparent_compressed (law response.body bytes hgzip) hshorter

/-- A text of 1024 letters `a`, and what gzip makes of it. -/
def longText : Bytes := List.replicate 1024 0x61

def longTextGzipped : Bytes :=
  [0x1F, 0x8B, 0x08, 0x00, 0x00, 0x00, 0x00, 0x00, 0x04, 0xFF, 0x4B, 0x4C, 0x1C, 0x05, 0xA3, 0x21,
    0x30, 0x1A, 0x02, 0x23, 0x35, 0x04, 0x00, 0xB9, 0x97, 0x55, 0x7C, 0x00, 0x04, 0x00, 0x00]

/-- It compresses this text. -/
def longTextGzip (body : Bytes) : Option Bytes :=
  if body = longText then some longTextGzipped else none

def longTextGunzip (bytes : Bytes) : Option Bytes :=
  if bytes = longTextGzipped then some longText else none

/-- A response with two cookies and a length. -/
def longTextResponse : FullResponse where
  status := 200
  headers := [("content-type", utf8 "text/plain"), ("set-cookie", utf8 "a=1"),
    ("content-length", utf8 "1024"), ("set-cookie", utf8 "b=2")]
  body := longText

theorem compression_transparent_text :
    (longTextResponse.maybeCompressResponse longTextGzip (fun _ => true) true).body =
        longTextGzipped ∧
      longTextResponse.Transparent longTextGunzip
        (longTextResponse.maybeCompressResponse longTextGzip (fun _ => true) true) := by
  refine ⟨by decide +kernel, compression_transparent longTextGzip longTextGunzip
    (fun body bytes h => ?_) (fun _ => true) longTextResponse true⟩
  unfold longTextGzip at h
  split at h
  · next hbody =>
    rw [← Option.some.inj h, hbody]
    exact if_pos rfl
  · cases h

end Mik.Runtime
