/-
  What a request makes the server load and execute (`src/runtime/request_handler.rs`).

  `Serves` says it of all requests with one path: the file of one module is all that is loaded, and
  what is executed is the request with another path, the one the module is handed. A path is plain
  when it has no escapes; `platform_serves` and `tenant_serves` are about the plain paths of the two
  routes.
-/
import Mik.Gateway.Routing
import Mik.Runtime.RequestTarget

namespace Mik.Gateway

open Mik.Lib Prog Mik.Runtime

/-! ## Plain paths -/

/-- A character that stands for itself in a path. -/
def plainChar (c : Char) : Bool := pathChar c && c != '%'

/-- The library takes every plain path as the path of a URI. -/
def TakesPlain (http : HttpLib) : Prop :=
  ∀ uri text, uri.scheme.isSome = uri.authority.isSome → startsWith "/" text = true →
    text.toList.all plainChar = true →
    http.withPathAndQuery uri text = some { uri with path := text, query := none }

theorem takesPlain_of_laws {http : HttpLib} {pathByte : UInt8 → Bool}
    (laws : PathAndQueryLaws http pathByte)
    (hbytes : ∀ c, pathChar c = true → ∀ b ∈ String.utf8EncodeChar c, pathByte b = true) :
    TakesPlain http := by
  intro uri text hauthority hslash hplain
  refine laws.accepts uri text hauthority hslash fun b hb => ?_
  obtain ⟨c, hc, hbyte⟩ := List.mem_flatMap.mp hb
  have hchar := List.all_eq_true.mp hplain c hc
  exact hbytes c (Bool.and_eq_true_iff.mp hchar).1 b hbyte

theorem toNat_of_pathChar {c : Char} (h : pathChar c = true) : c.toNat < 128 := by
  unfold pathChar at h
  have below (last : Char) (hle : c.val ≤ last.val) (hlast : last.toNat < 128) :
      c.toNat < 128 := Nat.lt_of_le_of_lt (UInt32.le_iff_toNat_le.mp hle) hlast
  rcases Bool.or_eq_true_iff.mp h with halnum | hmem
  · rcases Bool.or_eq_true_iff.mp (show (c.isAlpha || c.isDigit) = true from halnum) with
      halpha | hdigit
    · rcases Bool.or_eq_true_iff.mp (show (c.isUpper || c.isLower) = true from halpha) with
        hupper | hlower
      · exact below 'Z' (of_decide_eq_true hupper).2 (by decide)
      · exact below 'z' (of_decide_eq_true (Bool.and_eq_true_iff.mp hlower).2) (by decide)
    · exact below '9' (of_decide_eq_true (Bool.and_eq_true_iff.mp hdigit).2) (by decide)
  · have hall : ("-._~!$&'()*+,;=:@%/".toList.all fun c => c.toNat < 128) = true := by decide
    exact of_decide_eq_true (List.all_eq_true.mp hall c (List.contains_iff_mem.mp hmem))

theorem uriPathByte_of_pathChar {c : Char} (h : pathChar c = true) :
    ∀ b ∈ String.utf8EncodeChar c, uriPathByte b = true := by
  have htable : ∀ n < 128, pathChar (Char.ofNat n) = true →
      (String.utf8EncodeChar (Char.ofNat n)).all uriPathByte = true := by decide +kernel
  have hbytes := htable c.toNat (toNat_of_pathChar h)
  rw [Char.ofNat_toNat] at hbytes
  exact List.all_eq_true.mp (hbytes h)

theorem plainHttp_takesPlain : TakesPlain plainHttp :=
  takesPlain_of_laws plainHttp_laws fun _ h => uriPathByte_of_pathChar h

/-- What the requests with a path come to: `p` is all that is loaded, and what is executed is the
    request with the path `handed` and without a query. -/
def Serves {Comp : Type} (host : Host Comp) (http : HttpLib) (path : String) (p : ModulePath)
    (handed : String) : Prop :=
  RoutesTo host path p ∧
  ∀ lib (req : Runtime.Request) gzip traceId tr out, req.uri.path = path →
    req.uri.scheme.isSome = req.uri.authority.isSome →
    Exec (handleRequestInner host http lib req gzip traceId) tr out →
    (∀ ev ∈ tr, ∀ q, loadedModule ev.1 = some q → q = p) ∧
    ∀ e ∈ executions tr, e.2.method = req.method ∧ e.2.headers = req.headers ∧
      e.2.uri = { req.uri with path := handed, query := none }

section

variable {Comp : Type} {host : Host Comp} {http : HttpLib} {name tenantId rest : String}

theorem decodeSegment_of_plain (h : name.toList.all plainChar = true) :
    decodeSegment name = name := by
  have hplain : containsChar '%' name = false := by
    unfold containsChar
    rw [Bool.eq_false_iff]
    intro hmem
    have hchar := List.all_eq_true.mp h '%' (List.contains_iff_mem.mp hmem)
    exact absurd hchar (by decide)
  unfold decodeSegment
  rw [hplain]
  rfl

theorem percentDecodeStr_of_plain (h : rest.toList.all plainChar = true) :
    percentDecodeStr rest = rest :=
  (decodeSegment_eq rest).symm.trans (decodeSegment_of_plain h)

theorem plain_restPath (h : rest.toList.all plainChar = true) :
    (restPath rest).toList.all plainChar = true := by
  unfold restPath
  split
  · decide
  · exact h

theorem startsWith_restPath (hrest : PathRest rest) : startsWith "/" (restPath rest) = true := by
  obtain ⟨cs, hcs⟩ := startsWith_slash_restPath hrest
  unfold startsWith
  rw [hcs]
  rfl

/-! ## Routing -/

theorem parseModuleRoute_name (hname : PathSegment name) (hrest : PathRest rest) :
    (parseModuleRoute (name ++ rest)).1 = decodeSegment name := by
  rcases hrest.cases with rfl | ⟨cs, hcs⟩
  · rw [String.append_empty, parseModuleRoute_noSlash hname.1 hname.2]
  · have htext : name ++ rest = String.ofList (name.toList ++ '/' :: cs) := by
      refine String.toList_inj.mp ?_
      rw [String.toList_append, String.toList_ofList, hcs]
    have hne : String.ofList (name.toList ++ '/' :: cs) ≠ "" := fun h => by
      have := congrArg String.toList h
      simp at this
    unfold parseModuleRoute
    rw [htext, if_neg hne, splitAtChar_append hname.2]

theorem routeOf_run (host : Host Comp) (hname : PathSegment name)
    (hrest : PathRest rest) (hplain : name.toList.all plainChar = true) :
    routeOf host ("/run/" ++ (name ++ rest)) = some (.platform name) := by
  have htenant : startsWith "/tenant/" ("/run/" ++ (name ++ rest)) = false :=
    not_startsWith_tenant (String.append_empty).symm
  unfold routeOf
  rw [htenant, if_neg Bool.false_ne_true, stripPrefix_eq_some_iff.mpr rfl]
  dsimp only
  rw [parseModuleRoute_name hname hrest, decodeSegment_of_plain hplain, if_neg hname.1]

theorem parseModulePathRoute_names (htenant : PathSegment tenantId) (hname : PathSegment name)
    (hrest : PathRest rest) :
    ∃ handlerPath, parseModulePathRoute (tenantId ++ "/" ++ name ++ rest) =
      some (.tenant (decodeSegment tenantId) (decodeSegment name), handlerPath) := by
  have hsegments : ∃ more,
      segments (tenantId ++ "/" ++ name ++ rest) = tenantId :: name :: more := by
    rw [String.append_assoc, segments_cons htenant.1 htenant.2]
    rcases hrest with rfl | hslash
    · exact ⟨[], by rw [String.append_empty, segments_noSlash hname.1 hname.2]⟩
    · obtain ⟨r, rfl⟩ := startsWith_iff.mp hslash
      exact ⟨segments r, by rw [← String.append_assoc, segments_cons hname.1 hname.2]⟩
  obtain ⟨more, hmore⟩ := hsegments
  have hne : tenantId ++ "/" ++ name ++ rest ≠ "" := fun heq => by
    rw [heq, segments_empty] at hmore
    nomatch hmore
  unfold segments at hmore
  unfold parseModulePathRoute
  rw [if_neg hne, hmore]
  exact ⟨_, rfl⟩

theorem routeOf_tenant_rest (host : Host Comp) {dir : String}
    (hdir : host.userModulesDir = some dir) (htenant : PathSegment tenantId)
    (hname : PathSegment name) (hrest : PathRest rest)
    (hplain : tenantId.toList.all plainChar = true) (hplain' : name.toList.all plainChar = true) :
    routeOf host ("/tenant/" ++ (tenantId ++ "/" ++ name ++ rest)) =
      some (.tenant tenantId name) := by
  obtain ⟨handlerPath, hparse⟩ := parseModulePathRoute_names htenant hname hrest
  unfold routeOf
  rw [if_pos (startsWith_iff.mpr ⟨_, rfl⟩), stripPrefix_eq_some_iff.mpr rfl, hdir]
  dsimp only
  rw [hparse, decodeSegment_of_plain hplain, decodeSegment_of_plain hplain']
  rfl

/-- A path with a route is none of those that are not for modules. -/
theorem special_of_routeOf {path : String} {p : ModulePath} (h : routeOf host path = some p) :
    startsWith "/static/" path = false ∧ startsWith "/_mik/" path = false ∧
      startsWith "/openapi/" path = false ∧ startsWith "/script/" path = false := by
  unfold routeOf at h
  split at h
  · next htenant =>
    obtain ⟨r, rfl⟩ := startsWith_iff.mp htenant
    unfold startsWith
    rw [String.toList_append]
    exact ⟨rfl, rfl, rfl, rfl⟩
  · cases hrun : stripPrefix "/run/" path with
    | none =>
      rw [hrun] at h
      nomatch h
    | some runPath =>
      obtain ⟨-, hstatic, hmik, hopenapi, hscript, -⟩ := startsWith_of_run hrun
      exact ⟨hstatic, hmik, hopenapi, hscript⟩

/-! ## What the module is handed -/

/-- From a resolved module on nothing is loaded, and what is executed is the request with its path
    replaced. -/
def HandsOn (http : HttpLib) (req : Runtime.Request) (handlerPath : String)
    (a : Runtime.Action Comp) : Prop :=
  loadedModule a = none ∧ ∀ component req', a = .execute component req' →
    req'.method = req.method ∧ req'.headers = req.headers ∧
      http.withPathAndQuery req.uri handlerPath = some req'.uri

theorem handsOn_of_not_execute {req : Runtime.Request} {handlerPath : String}
    {a : Runtime.Action Comp} (hload : loadedModule a = none)
    (h : ∀ component req', a ≠ .execute component req') :
    HandsOn http req handlerPath a :=
  ⟨hload, fun component req' heq => absurd heq (h component req')⟩

theorem handsOn_executeResolved (host : Host Comp) (http : HttpLib) (req : Runtime.Request)
    (gzip : Bool) (component : Comp) (handlerPath : String) (moduleName : Option String)
    (permit : Option Nat) :
    (executeResolved host http req gzip component handlerPath moduleName permit).Within
      (fun _ _ => True) (HandsOn http req handlerPath) fun _ => True := by
  have hdrop : (dropPermit permit : Runtime.Handler Comp Unit).Within (fun _ _ => True)
      (HandsOn http req handlerPath) fun _ => True := by
    cases permit with
    | none => trivial
    | some semaphore => exact ⟨handsOn_of_not_execute rfl nofun, fun _ _ => trivial⟩
  have hrecord (result : Except Error Runtime.Response) :
      (recordOutcome moduleName result : Runtime.Handler Comp Unit).Within (fun _ _ => True)
        (HandsOn http req handlerPath) fun _ => True := by
    unfold recordOutcome
    split
    · trivial
    · exact ⟨handsOn_of_not_execute rfl nofun, fun _ _ => trivial⟩
    · exact ⟨handsOn_of_not_execute rfl nofun, fun _ _ => trivial⟩
  unfold executeResolved rewriteRequestPath
  cases huri : http.withPathAndQuery req.uri handlerPath with
  | none => exact hdrop.bind fun _ _ => trivial
  | some uri =>
    dsimp only
    split
    · exact hdrop.bind fun _ _ => trivial
    · exact hdrop.bind fun _ _ => trivial
    · refine ⟨⟨rfl, fun component' req' heq => ?_⟩, fun x _ => ?_⟩
      · obtain ⟨-, rfl⟩ := Runtime.Action.execute.inj heq
        exact ⟨rfl, rfl, huri⟩
      · refine (hrecord x.result).bind fun _ _ => hdrop.bind fun _ _ => ?_
        split
        · trivial
        · trivial

/-- A library that takes no path. -/
def refusing (http : HttpLib) : HttpLib := { http with withPathAndQuery := fun _ _ => none }

theorem not_isRewritten_refusing (http : HttpLib) (req : Runtime.Request) (uri : Runtime.Uri) :
    ¬ IsRewritten (refusing http) req uri := fun ⟨_, _, _, hok, _⟩ => nomatch hok

/-- A resolution executes nothing, since what it executed would be rewritten by any library. -/
theorem executions_resolvePath (http : HttpLib) (req : Runtime.Request) {path : String}
    {tr' : List (HandlerEvent Comp)} {res : ModuleResolution Comp}
    (h : Exec (resolvePath host path) tr' res) : executions tr' = [] ∧ RoutedAs path res := by
  have hwithin : HandsRewritten (refusing http) req (RoutedAs path) (resolvePath host path) :=
    handsRewritten_resolvePath host path
  refine ⟨List.eq_nil_iff_forall_not_mem.mpr fun e he => ?_, hwithin.result_of_exec h⟩
  exact not_isRewritten_refusing http req _ (executions_rewritten hwithin h e he)

theorem executions_append (tr₁ tr₂ : List (HandlerEvent Comp)) :
    executions (tr₁ ++ tr₂) = executions tr₁ ++ executions tr₂ := List.filterMap_append

/-- Each execution of a module request is one of the request with its path replaced, and the module
    of the route is all that is loaded. -/
theorem exec_handleModuleRequest {p : ModulePath} {handlerPath : String} {req : Runtime.Request}
    (hroutes : RoutesTo host req.uri.path p)
    (hpath : handlerPathOf req.uri.path = some handlerPath) {gzip : Bool}
    {tr' : List (HandlerEvent Comp)} {out : Except Error Runtime.Response}
    (h : Exec (handleModuleRequest host http req gzip) tr' out) :
    (∀ ev ∈ tr', ∀ q, loadedModule ev.1 = some q → q = p) ∧
    ∀ e ∈ executions tr', e.2.method = req.method ∧ e.2.headers = req.headers ∧
      http.withPathAndQuery req.uri handlerPath = some e.2.uri := by
  obtain ⟨tr₁, tr₂, res, rfl, hresolve, hrest⟩ := exec_bind_iff.mp h
  obtain ⟨hnone, hres⟩ := executions_resolvePath http req hresolve
  rw [executions_append, hnone, List.nil_append]
  cases res with
  | response resp =>
    obtain ⟨rfl, -⟩ := exec_ret_iff.mp hrest
    rw [List.append_nil]
    exact ⟨hroutes.1 _ _ hresolve, fun e he => absurd he List.not_mem_nil⟩
  | success component handlerPath' moduleName permit =>
    obtain rfl : handlerPath' = handlerPath := Option.some.inj (hres.symm.trans hpath)
    have hands := (handsOn_executeResolved host http req gzip component handlerPath' moduleName
      permit).of_exec hrest
    refine ⟨fun ev hev q hq => ?_, fun e he => ?_⟩
    · rcases List.mem_append.mp hev with hfirst | hlast
      · exact hroutes.1 _ _ hresolve ev hfirst q hq
      · rw [(hands ev hlast).1] at hq
        nomatch hq
    · obtain ⟨ev, hev, hexec⟩ := List.mem_filterMap.mp he
      have hhands := (hands ev hev).2
      split at hexec
      · next component' req' heq =>
        obtain rfl := Option.some.inj hexec
        exact hhands component' req' heq
      · nomatch hexec

/-- A request with a route is refused at once or goes to the module route. -/
theorem exec_handleRequestInner {lib : ScriptLib} {req : Runtime.Request} {p : ModulePath}
    {traceId : String} {gzip : Bool} (hroute : routeOf host req.uri.path = some p)
    {tr' : List (HandlerEvent Comp)} {out : Except Error Runtime.Response}
    (h : Exec (handleRequestInner host http lib req gzip traceId) tr' out) :
    tr' = [] ∨ Exec (handleModuleRequest host http req gzip) tr' out := by
  obtain ⟨hstatic, hmik, hopenapi, hscript⟩ := special_of_routeOf hroute
  unfold handleRequestInner at h
  dsimp only at h
  rw [hstatic, hmik, hopenapi, hscript] at h
  split at h
  · exact Or.inl (exec_ret_iff.mp h).1
  · split at h
    · exact Or.inl (exec_ret_iff.mp h).1
    · exact Or.inr h

/-- A path with a route and a plain handler path is served by the module of the route. -/
theorem serves_of_route (hmulti : host.singleComponent = none) (htakes : TakesPlain http)
    {path handed : String} {p : ModulePath} (hroute : routeOf host path = some p)
    (hpath : ∀ req : Runtime.Request, req.uri.path = path →
      handlerPathOf req.uri.path = some handed)
    (hslash : startsWith "/" handed = true) (hplain : handed.toList.all plainChar = true) :
    Serves host http path p handed := by
  refine ⟨(routesTo_iff host hmulti path p).mpr hroute, ?_⟩
  intro lib req gzip traceId tr out hreq hauthority hexec
  have hroutes : RoutesTo host req.uri.path p :=
    (routesTo_iff host hmulti _ p).mpr (hreq ▸ hroute)
  rcases exec_handleRequestInner (hreq ▸ hroute) hexec with rfl | hmodule
  · exact ⟨fun ev hev => absurd hev List.not_mem_nil, fun e he => absurd he List.not_mem_nil⟩
  obtain ⟨hloads, hexecutes⟩ := exec_handleModuleRequest hroutes (hpath req hreq) hmodule
  refine ⟨hloads, fun e he => ?_⟩
  obtain ⟨hmethod, hheaders, huri⟩ := hexecutes e he
  rw [htakes req.uri handed hauthority hslash hplain] at huri
  exact ⟨hmethod, hheaders, (Option.some.inj huri).symm⟩

theorem platform_serves (hmulti : host.singleComponent = none) (htakes : TakesPlain http)
    (hname : PathSegment name) (hrest : PathRest rest)
    (hplainName : name.toList.all plainChar = true) (hplain : rest.toList.all plainChar = true) :
    Serves host http ("/run/" ++ (name ++ rest)) (.platform name) (restPath rest) := by
  have hplain' := plain_restPath hplain
  refine serves_of_route hmulti htakes (routeOf_run host hname hrest hplainName)
    (fun req hreq => ?_) (startsWith_restPath hrest) hplain'
  rw [handlerPathOf_platform hname hrest hreq, percentDecodeStr_of_plain hplain']

/-- The tenant route drops empty segments, so only a rest without them is handed on. -/
theorem tenant_serves (hmulti : host.singleComponent = none) (htakes : TakesPlain http)
    {dir : String} (hdir : host.userModulesDir = some dir) (htenant : PathSegment tenantId)
    (hname : PathSegment name) (hrest : PathRest rest)
    (hplainTenant : tenantId.toList.all plainChar = true)
    (hplainName : name.toList.all plainChar = true) (hplain : rest.toList.all plainChar = true)
    (hkept : NothingDropped rest) :
    Serves host http ("/tenant/" ++ (tenantId ++ "/" ++ name ++ rest)) (.tenant tenantId name)
      (restPath rest) := by
  refine serves_of_route hmulti htakes
    (routeOf_tenant_rest host hdir htenant hname hrest hplainTenant hplainName) (fun req hreq => ?_)
    (startsWith_restPath hrest) (plain_restPath hplain)
  rw [handlerPathOf_tenant htenant hname hrest hreq, (nothingDropped_iff hrest).mp hkept,
    slashed_restSegments hrest]

end

end Mik.Gateway
