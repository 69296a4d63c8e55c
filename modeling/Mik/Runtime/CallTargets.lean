/-
  Where a `host.call()` goes (`native_host_call`, `execute_handler_call`).

  The URI of the request is `http://localhost` with the path of the options behind it. What a path
  begins with decides where the authority ends: only a `/` leaves it at `localhost`, and a `#` cuts
  off what follows (`confined_iff`). The parser of the `http` crate is a parameter that reads what it
  accepts as RFC 3986 does; which texts it accepts is left open. As `Uri::path` has it, the path of a
  URI without one is `/`.
-/
import Mik.Lib.Uri
import Mik.Runtime.HostCalls
import Mik.Runtime.Settlement

namespace Mik.Runtime

open Mik.Lib Mik.Lib.Prog

/-! ## Reading a URI -/

/-- The parts of a text as `http` shows them. -/
def readUri (text : String) : Uri :=
  let uri := Lib.Uri.split text.toList
  { scheme := uri.scheme.map String.ofList
    authority := uri.authority.map fun a => String.ofList a.recompose
    path := if uri.path = [] then "/" else String.ofList uri.path
    query := uri.query.map String.ofList }

/-- What `Uri::from_str` accepts it reads as these parts. -/
structure UriLaws (http : HttpLib) : Prop where
  reads : ∀ text uri, http.parseUri text = some uri → uri = readUri text

/-- Path and query of a URI. -/
def Uri.target (uri : Uri) : String :=
  uri.path ++ match uri.query with
    | none => ""
    | some query => "?" ++ query

/-- The path of the options. -/
def optionsPath (lib : OptionsLib) (optionsJson : String) : String :=
  (((lib.parse optionsJson).getD (.obj [])).get "path" |>.bind Json.asStr).getD "/"

/-- The request goes to `localhost`, with this path and query. -/
structure ConfinedTo (path : String) (req : Request) : Prop where
  authority : req.uri.authority = some "localhost"
  target : req.uri.target = path

/-- A path that begins with a slash and has no fragment. -/
structure Rooted (path : String) : Prop where
  slash : startsWith "/" path = true
  noFragment : containsChar '#' path = false

instance (path : String) : Decidable (Rooted path) :=
  decidable_of_iff (startsWith "/" path = true ∧ containsChar '#' path = false)
    ⟨fun h => ⟨h.1, h.2⟩, fun h => ⟨h.slash, h.noFragment⟩⟩

/-! ## Where the authority ends -/

section

variable {p front : List Char} {query fragment : Option (List Char)}

/-- The parts of a path in front of its fragment make up the path exactly when it has none. -/
theorem parts_eq_iff (hfragment : Lib.Uri.cutFirst '#' p = (front, fragment)) :
    front = p ↔ '#' ∉ p := by
  have hnot := Lib.Uri.notMem_cutFirst '#' p
  rw [hfragment] at hnot
  constructor
  · rintro rfl
    exact hnot
  · intro h
    rw [Lib.Uri.cutFirst_of_notMem h] at hfragment
    exact (congrArg Prod.fst hfragment).symm

/-- Nothing goes to the authority, and path and query are `p`, exactly when `p` begins with a slash
    and has no fragment. -/
theorem target_eq_iff {unqueried : List Char}
    (hfragment : Lib.Uri.cutFirst '#' p = (unqueried, fragment))
    (hquery : Lib.Uri.cutFirst '?' unqueried = (front, query)) :
    ((front.span (· ≠ '/')).1 = [] ∧
      (if (front.span (· ≠ '/')).2 = [] then ['/'] else (front.span (· ≠ '/')).2) ++
        Lib.Uri.behind '?' query = p) ↔ p.head? = some '/' ∧ '#' ∉ p := by
  have hwhole := Lib.Uri.cutFirst_append '#' p
  have hpart := Lib.Uri.cutFirst_append '?' unqueried
  have hspan := Lib.Uri.span_append_eq (· ≠ '/') front
  rw [hfragment] at hwhole
  rw [hquery] at hpart
  dsimp only at hwhole hpart
  rw [← parts_eq_iff hfragment]
  constructor
  · rintro ⟨hauthority, htarget⟩
    rw [hauthority, List.nil_append] at hspan
    rw [hspan] at htarget
    by_cases hempty : front = []
    · -- then `p` would begin with `?` or `#`, or be empty
      rw [if_pos hempty] at htarget
      rw [hempty, List.nil_append] at hpart
      rw [← hpart, ← htarget] at hwhole
      cases query with
      | none => cases fragment <;> cases hwhole
      | some q => cases hwhole
    · rw [if_neg hempty, hpart] at htarget
      refine ⟨?_, htarget⟩
      cases hback : (front.span (· ≠ '/')).2 with
      | nil => exact absurd (hspan.symm.trans hback) hempty
      | cons c back =>
        have hslash : c = '/' := by
          have hrest := Lib.Uri.span_rest (Prod.ext rfl hback)
          simpa using hrest
        rw [← htarget, ← hpart, ← hspan, hback, hslash]
        rfl
  · rintro ⟨hhead, hsame⟩
    rw [hsame] at hpart
    have hfront : ∃ back, front = '/' :: back := by
      cases front with
      | nil =>
        rw [← hpart] at hhead
        cases query with
        | none => cases hhead
        | some q => exact absurd (Option.some.inj hhead) (by decide)
      | cons c back =>
        rw [← hpart] at hhead
        rw [Option.some.inj hhead]
        exact ⟨back, rfl⟩
    obtain ⟨back, rfl⟩ := hfront
    have hnone : ('/' :: back).span (· ≠ '/') = ([], '/' :: back) := by
      simp [List.span_eq_takeWhile_dropWhile]
    rw [hnone]
    exact ⟨rfl, hpart⟩

end

theorem rooted_iff {path : String} :
    Rooted path ↔ path.toList.head? = some '/' ∧ '#' ∉ path.toList := by
  have hslash : startsWith "/" path = true ↔ path.toList.head? = some '/' := by
    unfold startsWith
    cases path.toList with
    | nil => decide
    | cons c cs =>
      simp only [String.reduceToList, List.isPrefixOf_cons_cons, List.isPrefixOf_nil_left,
        Bool.and_true, beq_iff_eq, List.head?_cons, Option.some.injEq]
      exact eq_comm
  have hhash : containsChar '#' path = false ↔ '#' ∉ path.toList := by
    unfold containsChar
    simp
  rw [← hslash, ← hhash]
  exact ⟨fun h => ⟨h.slash, h.noFragment⟩, fun h => ⟨h.1, h.2⟩⟩

/-- The parts of the URI that is built. -/
theorem readUri_localhost (path : String) {unqueried front : List Char}
    {query fragment : Option (List Char)}
    (hfragment : Lib.Uri.cutFirst '#' path.toList = (unqueried, fragment))
    (hquery : Lib.Uri.cutFirst '?' unqueried = (front, query)) :
    readUri ("http://localhost" ++ path) =
      { scheme := some "http"
        authority := some (String.ofList ("localhost".toList ++ (front.span (· ≠ '/')).1))
        path := if (front.span (· ≠ '/')).2 = [] then "/"
          else String.ofList (front.span (· ≠ '/')).2
        query := query.map String.ofList } := by
  have htext : ("http://localhost" ++ path).toList =
      "http".toList ++ ':' :: '/' :: '/' :: ("localhost".toList ++ path.toList) := by
    rw [String.toList_append]
    rfl
  have hquery' : Lib.Uri.cutFirst '?' (Lib.Uri.cutFirst '#' path.toList).1 = (front, query) := by
    rw [hfragment]
    exact hquery
  -- decided along the list, since there are too many characters
  have hhttp : ∀ c ∈ "http".toList, c ∉ [':', '/', '?', '#'] :=
    @of_decide_eq_true _ (List.decidableBAll _ _) rfl
  have hlocalhost : ∀ c ∈ "localhost".toList, c ∉ ['/', '?', '#'] :=
    @of_decide_eq_true _ (List.decidableBAll _ _) rfl
  obtain ⟨hscheme, hauthority, hpath, hq, -⟩ := @Lib.Uri.split_behind_host "http".toList
    "localhost".toList (by decide) hhttp hlocalhost path.toList _ _ _ rfl hquery'
  unfold readUri
  dsimp only
  rw [htext, hscheme, hauthority, hpath, hq, Option.map_some, Option.map_some,
    Lib.Uri.recompose_splitAuthority, String.ofList_toList]

/-- The built URI stays with `localhost` and has the path exactly when the path is rooted. -/
theorem confined_iff (path : String) :
    ((readUri ("http://localhost" ++ path)).authority = some "localhost" ∧
      (readUri ("http://localhost" ++ path)).target = path) ↔ Rooted path := by
  cases hfragment : Lib.Uri.cutFirst '#' path.toList with
  | mk unqueried fragment =>
  cases hquery : Lib.Uri.cutFirst '?' unqueried with
  | mk front query =>
  rw [rooted_iff, ← target_eq_iff hfragment hquery, readUri_localhost path hfragment hquery]
  dsimp only [Uri.target]
  refine and_congr ?_ ?_
  · rw [Option.some.injEq, ← String.toList_inj, String.toList_ofList]
    exact List.append_right_eq_self
  · rw [← String.toList_inj, String.toList_append]
    have hpath : (if (front.span (· ≠ '/')).2 = [] then "/"
        else String.ofList (front.span (· ≠ '/')).2).toList =
        if (front.span (· ≠ '/')).2 = [] then ['/'] else (front.span (· ≠ '/')).2 := by
      split
      · rfl
      · exact String.toList_ofList
    have hq : (match query.map String.ofList with
        | none => ""
        | some q => "?" ++ q).toList = Lib.Uri.behind '?' query := by
      cases query with
      | none => rfl
      | some q => simp [Lib.Uri.behind, String.toList_append]
    rw [hpath, hq]

/-! ## The call -/

section

variable {Comp : Type} {http : HttpLib} {c : HostCall} {traceId : String}

theorem uri_handlerCallRequest {req : Request} (h : handlerCallRequest http c traceId = some req) :
    http.parseUri ("http://localhost" ++ c.path) = some req.uri := by
  unfold handlerCallRequest buildRequest at h
  obtain ⟨m, -, h⟩ := Option.bind_eq_some_iff.mp h
  obtain ⟨uri, huri, h⟩ := Option.bind_eq_some_iff.mp h
  obtain ⟨hs, -, h⟩ := Option.bind_eq_some_iff.mp h
  rw [← Option.some.inj h]
  exact huri

/-- A call whose request cannot be built is answered with an error. -/
theorem error_of_unbuilt (h : handlerCallRequest http c traceId = none)
    {tr : List (HandlerEvent Comp)} {r : Except Error HostCallResult}
    (hexec : Exec (executeHandlerCall http c traceId) tr r) : (respond r).error ≠ none := by
  rcases exec_passGate hexec with ⟨e, -, rfl⟩ | ⟨sems, semaphore, -, ⟨-, rfl⟩ | ⟨rest, -, h'⟩⟩
  · exact Option.some_ne_none _
  · exact Option.some_ne_none _
  · rw [call_bind] at h'
    obtain ⟨loaded, tr₂, -, h2⟩ := exec_act_iff.mp h'
    cases loaded with
    | error e =>
      obtain ⟨_, tr₃, -, h3⟩ := exec_act_iff.mp h2
      obtain ⟨_, tr₄, -, h4⟩ := exec_act_iff.mp h3
      obtain ⟨-, rfl⟩ := exec_ret_iff.mp h4
      exact Option.some_ne_none _
    | ok component =>
      dsimp only at h2
      rw [h] at h2
      obtain ⟨_, tr₃, -, h3⟩ := exec_act_iff.mp h2
      obtain ⟨-, rfl⟩ := exec_ret_iff.mp h3
      exact Option.some_ne_none _

end

/-- The target of a call, for every options object. What is built goes to `localhost` with the path
    of the options exactly when that path begins with a slash and has no `#`; when nothing can be
    built, the script gets an error. -/
theorem call_confined_iff (http : HttpLib) (laws : UriLaws http) (lib : OptionsLib)
    (module optionsJson traceId : String) :
    (∀ req, handlerCallRequest http (hostCallOf lib module optionsJson) traceId = some req →
      (ConfinedTo (optionsPath lib optionsJson) req ↔ Rooted (optionsPath lib optionsJson))) ∧
    (handlerCallRequest http (hostCallOf lib module optionsJson) traceId = none →
      ∀ (Comp : Type) (tr : List (HandlerEvent Comp)) (r : Except Error HostCallResult),
        Exec (executeHandlerCall http (hostCallOf lib module optionsJson) traceId) tr r →
        (respond r).error ≠ none) := by
  refine ⟨fun req h => ?_, fun h Comp tr r hexec => error_of_unbuilt h hexec⟩
  have huri := laws.reads _ _ (uri_handlerCallRequest h)
  rw [← confined_iff]
  constructor
  · rintro ⟨hauthority, htarget⟩
    rw [huri] at hauthority htarget
    exact ⟨hauthority, htarget⟩
  · rintro ⟨hauthority, htarget⟩
    refine ⟨?_, ?_⟩
    · rw [huri]
      exact hauthority
    · rw [huri]
      exact htarget

/-! ## Samples -/

/-- It accepts URIs of these characters. -/
def uriHttp : HttpLib where
  withPathAndQuery _ _ := none
  parseUri text :=
    if text.toList.all fun c => c.isAlphanum || c ∈ [':', '/', '.', '@', '?', '=', '-'] then
      some (readUri text)
    else none
  parseMethod := some
  parseHeaderName := some
  headerValueOk _ := true
  compress := id

theorem uriLaws_uriHttp : UriLaws uriHttp where
  reads text uri h := by
    unfold uriHttp at h
    dsimp only at h
    split at h
    · exact (Option.some.inj h).symm
    · cases h

/-- Options with a path and nothing else. -/
def pathOptions (path : String) : OptionsLib where
  parse _ := some (.obj [("path", .str path)])
  text _ := "null"

theorem call_confined_query :
    ∃ req, handlerCallRequest uriHttp (hostCallOf (pathOptions "/orders?page=2") "orders" "") "t" =
        some req ∧ ConfinedTo "/orders?page=2" req := by
  have hbuilt : (handlerCallRequest uriHttp (hostCallOf (pathOptions "/orders?page=2") "orders" "")
      "t").isSome = true := by decide
  obtain ⟨req, hreq⟩ := Option.isSome_iff_exists.mp hbuilt
  exact ⟨req, hreq, ((call_confined_iff uriHttp uriLaws_uriHttp (pathOptions "/orders?page=2")
    "orders" "" "t").1 req hreq).mpr (by decide)⟩

/-- A path that begins with `@` names another host: `localhost` has become user information. -/
theorem call_escapes :
    ∃ req, handlerCallRequest uriHttp (hostCallOf (pathOptions "@evil.example/x") "orders" "") "t" =
        some req ∧ req.uri.authority = some "localhost@evil.example" ∧ req.uri.path = "/x" ∧
      ¬ ConfinedTo (optionsPath (pathOptions "@evil.example/x") "") req := by
  refine ⟨⟨"POST", ⟨some "http", some "localhost@evil.example", "/x", none⟩,
    [("host", utf8 "localhost"), ("traceparent", utf8 "t")], ⟨[[]], none⟩⟩, by decide,
    rfl, rfl, fun h => ?_⟩
  exact absurd h.authority (by decide)

end Mik.Runtime
