/-
  Discovery and routing: a handler's link is requested as it is given, and must lead to the file it
  was listed for (`gateway/mod.rs` against `request_handler.rs`).

  The links hold the names as they are, while the router decodes every `%` escape of a segment and
  checks the names again, and a URI ends its path at a `?` or `#`. So a link works for the names
  that the server reads whole, that do not change when they are decoded, and that the sanitiser
  accepts (`platform_reached_iff`, `tenant_reached_iff`). Nothing else can lead to the file by
  accident, because decoding makes no text longer.

  How a request target becomes the path of a request is up to `hyper` and `http`: `TargetReader`.
-/
import Mik.Gateway.Discovery
import Mik.Lib.Decoding

namespace Mik.Gateway

open Mik.Lib Mik.Lib.Prog Mik.Reliability Mik.Runtime

/-! ## From a link to the path of a request -/

/-- What a path may hold without an escape, and `%` and `/`. -/
def pathChar (c : Char) : Bool := c.isAlphanum || "-._~!$&'()*+,;=:@%/".toList.contains c

/-- `Uri::path` of the request that a target makes when it is put on the wire as it is, or nothing
    where the request is refused. A path is cut off somewhere, at the latest at a `?` or `#`;
    nothing is cut from a target of characters that a path may hold. -/
structure TargetReader where
  read : String → Option String
  cut : ∀ target p, read target = some p → ∃ rest, target = p ++ rest
  ended : ∀ target p, read target = some p → '?' ∉ p.toList ∧ '#' ∉ p.toList
  kept : ∀ target, startsWith "/" target = true → target.toList.all pathChar = true →
    read target = some target

/-- The server reads at least `whole` from the link. -/
def ReadsThrough (reader : TargetReader) (link whole : String) : Prop :=
  ∃ p, reader.read link = some p ∧ startsWith whole p = true

section

variable {Comp : Type}

/-! ## What a resolution loads -/

/-- The module that an action loads. -/
def loadedModule : Action Comp → Option ModulePath
  | .getOrLoad name => some (.platform name)
  | .getOrLoadModulePath p => some p
  | _ => none

/-- The file that a load of the module reads, unless its names are refused. -/
def loadFile (host : Host Comp) (p : ModulePath) : Option String :=
  match checkNames p with
  | .error _ => none
  | .ok () => p.wasmPath host.modulesDir host.userModulesDir

/-- Whatever else happens to a request with this path, the only module it loads is `p`, and it
    does load it when the gate lets it pass. -/
def RoutesTo (host : Host Comp) (path : String) (p : ModulePath) : Prop :=
  (∀ tr x, Exec (resolvePath host path) tr x →
    ∀ ev ∈ tr, ∀ q, loadedModule ev.1 = some q → q = p) ∧
  ∃ tr x, Exec (resolvePath host path) tr x ∧ ∃ ev ∈ tr, loadedModule ev.1 = some p

/-- A request with this path loads exactly this file. -/
def RoutedTo (host : Host Comp) (path file : String) : Prop :=
  ∃ p, RoutesTo host path p ∧ loadFile host p = some file

/-- The link, put on the wire as it is, leads to the file. -/
def Reached (host : Host Comp) (reader : TargetReader) (link file : String) : Prop :=
  ∃ path, reader.read link = some path ∧ RoutedTo host path file

/-- The module that the path of a request asks for. -/
def routeOf (host : Host Comp) (path : String) : Option ModulePath :=
  if startsWith "/tenant/" path then
    match stripPrefix "/tenant/" path with
    | none => none
    | some tenantPath =>
      if host.userModulesDir.isNone then none
      else
        match parseModulePathRoute tenantPath with
        | none => none
        | some (modulePath, _) => if modulePath.isTenant then some modulePath else none
  else
    match stripPrefix "/run/" path with
    | none => none
    | some runPath =>
      if (parseModuleRoute runPath).1 = "" then none
      else some (.platform (parseModuleRoute runPath).1)

/-- The actions that load nothing else than `p`. -/
def LoadsOnly (p : ModulePath) (a : Action Comp) : Prop := ∀ q, loadedModule a = some q → q = p

theorem within_passGate {α : Type} {p : ModulePath} {key : String} {blocked : CircuitOpenError → α}
    {overloaded : α} {go : Nat → Runtime.Handler Comp α}
    (hgo : ∀ semaphore, (go semaphore).Within (fun _ _ => True) (LoadsOnly p) fun _ => True) :
    (passGate key blocked overloaded go).Within (fun _ _ => True) (LoadsOnly p) fun _ => True := by
  refine ⟨nofun, fun checked _ => ?_⟩
  cases checked with
  | error e => trivial
  | ok u =>
    have hsem : (getModuleSemaphore key : Runtime.Handler Comp Nat).Within (fun _ _ => True)
        (LoadsOnly p) fun _ => True := by
      refine ⟨nofun, fun found _ => ?_⟩
      cases found with
      | some semaphore => trivial
      | none => exact ⟨nofun, fun _ _ => trivial⟩
    refine Within.bind (p := getModuleSemaphore key) hsem fun semaphore _ =>
      ⟨nofun, fun acquired _ => ?_⟩
    cases acquired with
    | false => trivial
    | true => exact hgo semaphore

theorem within_resolveKeyed (host : Host Comp) (key shown : String) {p : ModulePath}
    {load : Runtime.Handler Comp (Except Error Comp)} (handlerPath : String)
    (hload : load.Within (fun _ _ => True) (LoadsOnly p) fun _ => True) :
    (resolveKeyed host key shown load handlerPath).Within (fun _ _ => True) (LoadsOnly p)
      fun _ => True := by
  refine within_passGate fun semaphore => Within.bind hload fun loaded _ => ?_
  cases loaded with
  | ok component => trivial
  | error e => exact ⟨nofun, fun _ _ => ⟨nofun, fun _ _ => trivial⟩⟩

/-- The request that passes the gate loads. -/
theorem exec_resolveKeyed (host : Host Comp) (key shown : String)
    {load : Runtime.Handler Comp (Except Error Comp)}
    {tr : List (Event (Action Comp) (Answer Comp))} {e : Error} (handlerPath : String)
    (hload : Exec load tr (.error e)) :
    ∃ before after x, Exec (resolveKeyed host key shown load handlerPath)
      (before ++ tr ++ after) x := by
  refine ⟨[⟨.checkRequest key, .ok ()⟩, ⟨.findSemaphore key, some 0⟩, ⟨.tryAcquire 0, true⟩],
    [⟨.recordFailure key, ()⟩, ⟨.release 0, ()⟩], .response (errorResponse (.moduleNotFound shown)),
    Exec.act (Exec.act (Exec.act ?_))⟩
  exact (exec_bind_iff (p := load)).mpr ⟨tr, _, _, rfl, hload, Exec.act (Exec.act (Exec.ret _))⟩

/-- A resolution goes for one module, or ends without an action. -/
theorem resolvePath_cases (host : Host Comp) (hmulti : host.singleComponent = none)
    (path : String) :
    (∃ p key shown load handlerPath tr e, routeOf host path = some p ∧
      resolvePath host path = resolveKeyed host key shown load handlerPath ∧
      load.Within (fun _ _ => True) (LoadsOnly p) (fun _ => True) ∧ Exec load tr (.error e) ∧
      ∃ ev ∈ tr, loadedModule ev.1 = some p) ∨
    routeOf host path = none ∧ ∃ resp, resolvePath host path = .ret (.response resp) := by
  unfold resolvePath routeOf
  split
  · unfold resolveTenantModule
    cases hstrip : stripPrefix "/tenant/" path with
    | none => exact Or.inr ⟨rfl, _, rfl⟩
    | some tenantPath =>
      dsimp only
      split
      · exact Or.inr ⟨rfl, _, rfl⟩
      cases hparse : parseModulePathRoute tenantPath with
      | none => exact Or.inr ⟨rfl, _, rfl⟩
      | some route =>
        dsimp only
        split
        · refine Or.inl ⟨route.1, _, _, call (.getOrLoadModulePath route.1), route.2,
            [⟨.getOrLoadModulePath route.1, .error (.other "")⟩], _, rfl, rfl, ?_,
            Exec.act (Exec.ret _), _, List.mem_singleton_self _, rfl⟩
          exact ⟨fun q hq => (Option.some.inj hq).symm, fun _ _ => trivial⟩
        · exact Or.inr ⟨rfl, _, rfl⟩
  · unfold resolveModule
    cases hstrip : stripPrefix "/run/" path with
    | none => exact Or.inr ⟨rfl, _, rfl⟩
    | some runPath =>
      dsimp only
      split
      · exact Or.inr ⟨rfl, _, rfl⟩
      · rw [hmulti]
        refine Or.inl ⟨_, _, _, call (.getOrLoad (parseModuleRoute runPath).1), _,
          [⟨.getOrLoad (parseModuleRoute runPath).1, .error (.other "")⟩], _, rfl, rfl, ?_,
          Exec.act (Exec.ret _), _, List.mem_singleton_self _, rfl⟩
        exact ⟨fun q hq => (Option.some.inj hq).symm, fun _ _ => trivial⟩

theorem routesTo_iff (host : Host Comp) (hmulti : host.singleComponent = none) (path : String)
    (p : ModulePath) : RoutesTo host path p ↔ routeOf host path = some p := by
  rcases resolvePath_cases host hmulti path with
    ⟨q, key, shown, load, handlerPath, tr, e, hroute, hresolve, hwithin, hexec, ev, hev, hload⟩ |
      ⟨hroute, resp, hresolve⟩
  · obtain ⟨before, after, x, hrun⟩ := exec_resolveKeyed host key shown handlerPath hexec
    have hmem : ev ∈ before ++ tr ++ after :=
      List.mem_append_left _ (List.mem_append_right _ hev)
    unfold RoutesTo
    rw [hroute, hresolve]
    constructor
    · intro ⟨honly, _⟩
      exact congrArg some (honly _ x hrun ev hmem q hload)
    · intro heq
      cases heq
      refine ⟨fun tr' x' hexec' ev' hev' => ?_, _, x, hrun, ev, hmem, hload⟩
      exact (within_resolveKeyed host key shown handlerPath hwithin).of_exec hexec' ev' hev'
  · unfold RoutesTo
    rw [hroute, hresolve]
    constructor
    · intro ⟨_, tr, x, hexec, ev, hev, _⟩
      obtain ⟨rfl, -⟩ := exec_ret_iff.mp hexec
      cases hev
    · intro h
      cases h

/-! ## Names and files -/

theorem checkNames_iff {p : ModulePath} : checkNames p = .ok () ↔ p.NamesAccepted := by
  refine ⟨checkNames_ok, fun h => ?_⟩
  unfold checkNames
  match p with
  | .platform name =>
    have hname : sanitizeModuleName name = .ok name := h
    rw [ModulePath.name, hname]
    rfl
  | .tenant tenantId name =>
    have htenant : sanitizeModuleName tenantId = .ok tenantId := h.1
    have hname : sanitizeModuleName name = .ok name := h.2
    rw [ModulePath.name, hname]
    dsimp only [ModulePath.tenantId]
    rw [htenant]

theorem loadFile_eq_some_iff {host : Host Comp} {p : ModulePath} {file : String} :
    loadFile host p = some file ↔
      p.NamesAccepted ∧ p.wasmPath host.modulesDir host.userModulesDir = some file := by
  unfold loadFile
  rw [← checkNames_iff]
  cases checkNames p with
  | error e => exact ⟨fun h => (by cases h), fun h => (by cases h.1)⟩
  | ok u => exact ⟨fun h => ⟨rfl, h⟩, fun h => h.2⟩

theorem join_inj {dir name name' : String} (h : Plain name) (h' : Plain name')
    (heq : join dir name = join dir name') : name = name' := by
  have hfile := fileName_join dir h
  rw [heq, fileName_join dir h'] at hfile
  exact (Option.some.inj hfile).symm

theorem wasm_inj {name name' : String} (h : name ++ ".wasm" = name' ++ ".wasm") : name = name' :=
  (String.append_left_inj ".wasm").mp h

theorem join_join_inj {dir t t' name name' : String} (ht : Plain t) (ht' : Plain t')
    (h : Plain name) (h' : Plain name')
    (heq : join (join dir t) name = join (join dir t') name') : t = t' ∧ name = name' := by
  have hcomponents := congrArg components heq
  rw [components_join _ h, components_join _ h', components_join dir ht, components_join dir ht',
    List.append_assoc, List.append_assoc, List.append_cancel_left_eq] at hcomponents
  simp only [List.cons_append, List.nil_append, List.cons.injEq, Component.normal.injEq,
    and_true] at hcomponents
  exact hcomponents

/-! ## Routes of links that are cut -/

theorem length_decodeSegment_le (s : String) :
    (decodeSegment s).toList.length ≤ s.toList.length := by
  unfold decodeSegment
  split
  · exact length_percentDecodeStr_le s
  · exact Nat.le_refl _

/-- A piece of a name is not decoded to the whole of it. -/
theorem piece_eq_of_decoded {piece rest : String} (h : decodeSegment piece = piece ++ rest) :
    rest = "" := by
  have hlength := length_decodeSegment_le piece
  rw [h, String.toList_append, List.length_append] at hlength
  exact String.toList_inj.mp (List.length_eq_zero_iff.mp (by omega))

theorem parseModuleRoute_noSlash {piece : String} (hne : piece ≠ "") (h : '/' ∉ piece.toList) :
    (parseModuleRoute piece).1 = decodeSegment piece := by
  unfold parseModuleRoute
  rw [if_neg hne, splitAtChar_of_notMem h]

theorem toList_slash (name : String) : (name ++ "/").toList = name.toList ++ ['/'] := by
  rw [String.toList_append]
  rfl

theorem parseModuleRoute_slash {name : String} (h : '/' ∉ name.toList) :
    (parseModuleRoute (name ++ "/")).1 = decodeSegment name := by
  have hne : name ++ "/" ≠ "" := fun heq => by
    have hlist := toList_slash name
    rw [heq] at hlist
    simp at hlist
  have hsplit := splitAtChar_append h []
  rw [← toList_slash, String.ofList_toList] at hsplit
  unfold parseModuleRoute
  rw [if_neg hne, hsplit]

/-- What is left of a name and a slash, when it is cut. -/
theorem cut_cases {name r rest : String} (h : name ++ "/" = r ++ rest) :
    r = name ++ "/" ∨ ∃ s, name = r ++ s := by
  rcases append_cut h with ⟨r', hr, hslash⟩ | ⟨s, hname, -⟩
  · have hlist := congrArg String.toList hslash
    rw [String.toList_append, toList_separator] at hlist
    cases hr' : r'.toList with
    | nil =>
      have hempty : r' = "" := String.toList_inj.mp hr'
      refine Or.inr ⟨"", ?_⟩
      rw [hr, hempty, String.append_empty, String.append_empty]
    | cons c cs =>
      rw [hr'] at hlist
      have hc := (List.cons.inj hlist).1
      have hcs := (List.append_eq_nil_iff.mp (List.cons.inj hlist).2.symm).1
      refine Or.inl ?_
      rw [hr]
      refine congrArg (name ++ ·) (String.toList_inj.mp ?_)
      rw [hr', ← hc, hcs]
      rfl
  · exact Or.inr ⟨s, hname⟩

/-- The links of the two routes differ in their second character. -/
theorem run_ne_tenant (x y : String) : "/run/" ++ x ≠ "/tenant/" ++ y := by
  intro h
  have hlist := congrArg String.toList h
  simp only [String.toList_append] at hlist
  rw [show "/run/".toList = ['/', 'r', 'u', 'n', '/'] by decide,
    show "/tenant/".toList = ['/', 't', 'e', 'n', 'a', 'n', 't', '/'] by decide] at hlist
  simp at hlist

theorem not_startsWith_tenant {x p rest : String} (h : "/run/" ++ x = p ++ rest) :
    startsWith "/tenant/" p = false := by
  rw [Bool.eq_false_iff]
  intro hstarts
  obtain ⟨y, rfl⟩ := startsWith_iff.mp hstarts
  rw [String.append_assoc] at h
  exact run_ne_tenant x _ h

theorem noSlash_of_append {piece s : String} (h : '/' ∉ (piece ++ s).toList) :
    '/' ∉ piece.toList ∧ '/' ∉ s.toList := by
  rw [String.toList_append, List.mem_append, not_or] at h
  exact h

/-- A link of the platform, however it is cut, asks for the decoded rest of the name. -/
theorem routeOf_platform (host : Host Comp) {name p rest : String} (hname : '/' ∉ name.toList)
    (hlink : "/run/" ++ (name ++ "/") = p ++ rest) {q : ModulePath}
    (h : routeOf host p = some q) :
    ∃ piece s, name = piece ++ s ∧ q = .platform (decodeSegment piece) ∧
      startsWith ("/run/" ++ piece) p = true := by
  unfold routeOf at h
  rw [not_startsWith_tenant hlink, if_neg Bool.false_ne_true] at h
  cases hstrip : stripPrefix "/run/" p with
  | none =>
    rw [hstrip] at h
    cases h
  | some r =>
    rw [hstrip] at h
    obtain rfl := stripPrefix_eq_some_iff.mp hstrip
    dsimp only at h
    split at h
    · cases h
    · next hroute =>
      rw [String.append_assoc] at hlink
      have hcut : name ++ "/" = r ++ rest := (String.append_right_inj "/run/").mp hlink
      rcases cut_cases hcut with rfl | ⟨s, rfl⟩
      · refine ⟨name, "", String.append_empty.symm, ?_, ?_⟩
        · rw [← parseModuleRoute_slash hname]
          exact (Option.some.inj h).symm
        · exact startsWith_iff.mpr ⟨"/", (String.append_assoc).symm⟩
      · have hne : r ≠ "" := fun heq => hroute (by rw [heq]; rfl)
        refine ⟨r, s, rfl, ?_, startsWith_iff.mpr ⟨"", String.append_empty.symm⟩⟩
        rw [← parseModuleRoute_noSlash hne (noSlash_of_append hname).1]
        exact (Option.some.inj h).symm

/-- Where it is not cut before the end of the name, it asks for the decoded name. -/
theorem routeOf_platform_whole (host : Host Comp) {name p rest : String}
    (hname : '/' ∉ name.toList) (hne : name ≠ "") (hdecoded : decodeSegment name ≠ "")
    (hlink : "/run/" ++ (name ++ "/") = p ++ rest)
    (hwhole : startsWith ("/run/" ++ name) p = true) :
    routeOf host p = some (.platform (decodeSegment name)) := by
  obtain ⟨x, rfl⟩ := startsWith_iff.mp hwhole
  unfold routeOf
  rw [not_startsWith_tenant hlink, if_neg Bool.false_ne_true, String.append_assoc,
    stripPrefix_eq_some_iff.mpr rfl]
  have hroute : (parseModuleRoute (name ++ x)).1 = decodeSegment name := by
    have hcut : "" ++ "/" = x ++ rest := by
      rw [String.append_assoc, String.append_assoc, String.append_right_inj,
        String.append_right_inj] at hlink
      exact hlink
    rcases cut_cases hcut with rfl | ⟨s, hempty⟩
    · exact parseModuleRoute_slash hname
    · have hx : x = "" := (String.append_eq_empty_iff.mp hempty.symm).1
      rw [hx, String.append_empty]
      exact parseModuleRoute_noSlash hne hname
  dsimp only
  rw [hroute, if_neg hdecoded]

/-- The segments of a tenant route. -/
def segments (s : String) : List String := (splitChar '/' s).filter (· ≠ "")

theorem segments_empty : segments "" = [] := by decide

theorem segments_noSlash {s : String} (hne : s ≠ "") (h : '/' ∉ s.toList) : segments s = [s] := by
  unfold segments splitChar
  rw [List.splitOn_eq_singleton h, List.map_singleton, String.ofList_toList,
    List.filter_cons_of_pos (by simpa using hne), List.filter_nil]

theorem segments_cons {a : String} (hne : a ≠ "") (h : '/' ∉ a.toList) (b : String) :
    segments (a ++ "/" ++ b) = a :: segments b := by
  have hlist : (a ++ "/" ++ b).toList = a.toList ++ '/' :: b.toList := by
    rw [String.toList_append, toList_slash, List.append_assoc, List.singleton_append]
  unfold segments splitChar
  rw [hlist, List.splitOn_append_cons_self, List.splitOn_eq_singleton h, List.singleton_append,
    List.map_cons, String.ofList_toList, List.filter_cons_of_pos (by simpa using hne)]

theorem parseModulePathRoute_tenant {r tenantId name : String} (h : segments r = [tenantId, name]) :
    parseModulePathRoute r =
      some (.tenant (decodeSegment tenantId) (decodeSegment name), "/") := by
  have hne : r ≠ "" := fun heq => by
    rw [heq, segments_empty] at h
    cases h
  unfold parseModulePathRoute
  rw [if_neg hne]
  unfold segments at h
  rw [h]
  rfl

theorem parseModulePathRoute_short {r : String} (h : (segments r).length ≤ 1)
    {route : ModulePath × String} (hparse : parseModulePathRoute r = some route) :
    route.1.isTenant = false := by
  unfold segments at h
  unfold parseModulePathRoute at hparse
  split at hparse
  · cases hparse
  split at hparse
  · cases hparse
  · rw [← Option.some.inj hparse]
    rfl
  · next hsegments =>
    rw [hsegments] at h
    simp at h

theorem not_startsWith_run {x p rest : String} (h : "/tenant/" ++ x = p ++ rest) :
    stripPrefix "/run/" p = none := by
  cases hstrip : stripPrefix "/run/" p with
  | none => rfl
  | some y =>
    obtain rfl := stripPrefix_eq_some_iff.mp hstrip
    rw [String.append_assoc] at h
    exact absurd h.symm (run_ne_tenant _ x)

/-- The segments of a tenant link that is cut: the second one is there when something is left of
    the module's name. -/
theorem segments_cut {tenantId name r rest : String} (htenant : '/' ∉ tenantId.toList)
    (htne : tenantId ≠ "") (hname : '/' ∉ name.toList) (hne : name ≠ "")
    (hcut : tenantId ++ "/" ++ (name ++ "/") = r ++ rest) :
    (segments r).length ≤ 1 ∨
      ∃ piece s, name = piece ++ s ∧ segments r = [tenantId, piece] ∧
        startsWith (tenantId ++ "/" ++ piece) r = true := by
  have hsingle : (segments (tenantId ++ "/")).length ≤ 1 := by
    have h := segments_cons htne htenant ""
    rw [String.append_empty, segments_empty] at h
    rw [h]
    exact Nat.le_refl 1
  rcases append_cut hcut with ⟨r', rfl, hrest⟩ | ⟨s, htid, -⟩
  · rcases cut_cases hrest with rfl | ⟨s, rfl⟩
    · refine Or.inr ⟨name, "", String.append_empty.symm, ?_, ?_⟩
      · have h := segments_cons hne hname ""
        rw [String.append_empty, segments_empty] at h
        rw [segments_cons htne htenant, h]
      · exact startsWith_iff.mpr ⟨"/", by rw [String.append_assoc, String.append_assoc,
          String.append_assoc]⟩
    · by_cases hpiece : r' = ""
      · left
        rw [hpiece, String.append_empty]
        exact hsingle
      · refine Or.inr ⟨r', s, rfl, ?_, startsWith_iff.mpr ⟨"", String.append_empty.symm⟩⟩
        rw [segments_cons htne htenant, segments_noSlash hpiece (noSlash_of_append hname).1]
  · left
    rcases cut_cases htid with rfl | ⟨s', rfl⟩
    · exact hsingle
    · by_cases hr : r = ""
      · rw [hr, segments_empty]
        exact Nat.zero_le 1
      · rw [segments_noSlash hr (noSlash_of_append htenant).1]
        exact Nat.le_refl 1

/-- A link of a tenant, however it is cut, asks for the tenant and the decoded rest of the name. -/
theorem routeOf_tenant (host : Host Comp) {tenantId name p rest : String}
    (htenant : '/' ∉ tenantId.toList) (htne : tenantId ≠ "") (hname : '/' ∉ name.toList)
    (hne : name ≠ "") (hlink : "/tenant/" ++ (tenantId ++ "/" ++ (name ++ "/")) = p ++ rest)
    {q : ModulePath} (h : routeOf host p = some q) :
    ∃ piece s, name = piece ++ s ∧ q = .tenant (decodeSegment tenantId) (decodeSegment piece) ∧
      startsWith ("/tenant/" ++ (tenantId ++ "/" ++ piece)) p = true := by
  unfold routeOf at h
  split at h
  · next hstarts =>
    obtain ⟨r, rfl⟩ := startsWith_iff.mp hstarts
    rw [stripPrefix_eq_some_iff.mpr rfl] at h
    dsimp only at h
    split at h
    · cases h
    have hcut : tenantId ++ "/" ++ (name ++ "/") = r ++ rest := by
      have hassoc : "/tenant/" ++ r ++ rest = "/tenant/" ++ (r ++ rest) := String.append_assoc
      rw [hassoc] at hlink
      exact (String.append_right_inj "/tenant/").mp hlink
    rcases segments_cut htenant htne hname hne hcut with hshort | ⟨piece, s, hs, hsegments, hr⟩
    · split at h
      · cases h
      · next route hparse =>
        rw [parseModulePathRoute_short hshort hparse] at h
        cases h
    · rw [parseModulePathRoute_tenant hsegments] at h
      refine ⟨piece, s, hs, (Option.some.inj h).symm, ?_⟩
      obtain ⟨x, rfl⟩ := startsWith_iff.mp hr
      exact startsWith_iff.mpr ⟨x, (String.append_assoc).symm⟩
  · rw [not_startsWith_run hlink] at h
    cases h

/-- Where it is not cut before the end of the name, it asks for the decoded names. -/
theorem routeOf_tenant_whole (host : Host Comp) {tenantId name p rest dir : String}
    (hdir : host.userModulesDir = some dir) (htenant : '/' ∉ tenantId.toList) (htne : tenantId ≠ "")
    (hname : '/' ∉ name.toList) (hne : name ≠ "")
    (hlink : "/tenant/" ++ (tenantId ++ "/" ++ (name ++ "/")) = p ++ rest)
    (hwhole : startsWith ("/tenant/" ++ (tenantId ++ "/" ++ name)) p = true) :
    routeOf host p = some (.tenant (decodeSegment tenantId) (decodeSegment name)) := by
  obtain ⟨x, rfl⟩ := startsWith_iff.mp hwhole
  have hstarts : startsWith "/tenant/" ("/tenant/" ++ (tenantId ++ "/" ++ name) ++ x) = true :=
    startsWith_iff.mpr ⟨tenantId ++ "/" ++ name ++ x, String.append_assoc⟩
  have hcut : "" ++ "/" = x ++ rest := by
    simp only [String.append_assoc, String.append_right_inj] at hlink
    exact hlink
  have hsegments : segments (tenantId ++ "/" ++ name ++ x) = [tenantId, name] := by
    rw [String.append_assoc, segments_cons htne htenant]
    rcases cut_cases hcut with rfl | ⟨s, hempty⟩
    · have h := segments_cons hne hname ""
      rw [String.append_empty, segments_empty] at h
      rw [String.empty_append, h]
    · have hx : x = "" := (String.append_eq_empty_iff.mp hempty.symm).1
      rw [hx, String.append_empty, segments_noSlash hne hname]
  unfold routeOf
  rw [if_pos hstarts, String.append_assoc, stripPrefix_eq_some_iff.mpr rfl, hdir]
  dsimp only
  rw [Option.isNone_some, if_neg Bool.false_ne_true, parseModulePathRoute_tenant hsegments]
  rfl

/-! ## Links that work -/

/-- A name in a link of the platform: read whole, the same when decoded, and accepted. -/
structure PlatformLinkable (reader : TargetReader) (name : String) : Prop where
  whole : ReadsThrough reader ("/run/" ++ name ++ "/") ("/run/" ++ name)
  decoded : decodeSegment name = name
  accepted : Accepted name

/-- The two names in a link of a tenant. -/
structure TenantLinkable (reader : TargetReader) (tenantId name : String) : Prop where
  whole : ReadsThrough reader ("/tenant/" ++ tenantId ++ "/" ++ name ++ "/")
    ("/tenant/" ++ tenantId ++ "/" ++ name)
  tenantDecoded : decodeSegment tenantId = tenantId
  nameDecoded : decodeSegment name = name
  tenantAccepted : Accepted tenantId
  nameAccepted : Accepted name

/-- The accepted names of characters that a path may hold can stand in a link, up to escapes. -/
theorem platformLinkable_of_chars (reader : TargetReader) {name : String} (h : Accepted name)
    (hchars : name.toList.all pathChar = true) (hdecoded : decodeSegment name = name) :
    PlatformLinkable reader name := by
  refine ⟨⟨_, reader.kept _ ?_ ?_, startsWith_iff.mpr ⟨"/", rfl⟩⟩, hdecoded, h⟩
  · rw [String.append_assoc]
    exact startsWith_iff.mpr ⟨"run/" ++ (name ++ "/"), by rw [← String.append_assoc]; rfl⟩
  · rw [String.toList_append, String.toList_append, List.all_append, List.all_append, hchars]
    decide

theorem noSlash_of_plain_wasm {name : String} (h : Plain (name ++ ".wasm")) :
    '/' ∉ name.toList := (noSlash_of_append h.noSlash).1

theorem platform_reached_iff (host : Host Comp) (hmulti : host.singleComponent = none)
    (reader : TargetReader) {name : String} (hplain : Plain (name ++ ".wasm")) (hne : name ≠ "") :
    Reached host reader ("/run/" ++ name ++ "/") (join host.modulesDir (name ++ ".wasm")) ↔
      PlatformLinkable reader name := by
  have hname := noSlash_of_plain_wasm hplain
  have hassoc : "/run/" ++ name ++ "/" = "/run/" ++ (name ++ "/") := String.append_assoc
  constructor
  · intro ⟨p, hread, q, hroutes, hfile⟩
    obtain ⟨rest, hcut⟩ := reader.cut _ p hread
    rw [hassoc] at hcut
    obtain ⟨piece, s, heq, rfl, hstarts⟩ :=
      routeOf_platform host hname hcut ((routesTo_iff host hmulti p q).mp hroutes)
    obtain ⟨haccepted, hpath⟩ := loadFile_eq_some_iff.mp hfile
    have hsame : decodeSegment piece = name :=
      wasm_inj (join_inj (Accepted.plain_wasm haccepted) hplain (Option.some.inj hpath))
    have hempty := piece_eq_of_decoded (hsame.trans heq)
    rw [hempty, String.append_empty] at heq
    subst heq
    exact ⟨⟨p, hread, hstarts⟩, hsame, hsame ▸ haccepted⟩
  · intro ⟨⟨p, hread, hwhole⟩, hdecoded, haccepted⟩
    obtain ⟨rest, hcut⟩ := reader.cut _ p hread
    rw [hassoc] at hcut
    have hroute := routeOf_platform_whole host hname hne (hdecoded.symm ▸ hne) hcut hwhole
    rw [hdecoded] at hroute
    exact ⟨p, hread, _, (routesTo_iff host hmulti p _).mpr hroute,
      loadFile_eq_some_iff.mpr ⟨haccepted, rfl⟩⟩

theorem tenant_reached_iff (host : Host Comp) (hmulti : host.singleComponent = none)
    (reader : TargetReader) {dir tenantId name : String} (hdir : host.userModulesDir = some dir)
    (htenant : Plain tenantId) (hplain : Plain (name ++ ".wasm")) (hne : name ≠ "") :
    Reached host reader ("/tenant/" ++ tenantId ++ "/" ++ name ++ "/")
        (join (join dir tenantId) (name ++ ".wasm")) ↔
      TenantLinkable reader tenantId name := by
  have hname := noSlash_of_plain_wasm hplain
  have hassoc : "/tenant/" ++ tenantId ++ "/" ++ name ++ "/" =
      "/tenant/" ++ (tenantId ++ "/" ++ (name ++ "/")) := by
    simp only [String.append_assoc]
  have hwholeAssoc : ∀ piece, "/tenant/" ++ tenantId ++ "/" ++ piece =
      "/tenant/" ++ (tenantId ++ "/" ++ piece) := fun piece => by
    simp only [String.append_assoc]
  constructor
  · intro ⟨p, hread, q, hroutes, hfile⟩
    obtain ⟨rest, hcut⟩ := reader.cut _ p hread
    rw [hassoc] at hcut
    obtain ⟨piece, s, heq, rfl, hstarts⟩ := routeOf_tenant host htenant.noSlash htenant.nonempty
      hname hne hcut ((routesTo_iff host hmulti p q).mp hroutes)
    obtain ⟨haccepted, hpath⟩ := loadFile_eq_some_iff.mp hfile
    unfold ModulePath.wasmPath at hpath
    rw [hdir] at hpath
    obtain ⟨htid, hwasm⟩ := join_join_inj haccepted.1.plain htenant haccepted.2.plain_wasm hplain
      (Option.some.inj hpath)
    have hsame := wasm_inj hwasm
    have hempty := piece_eq_of_decoded (hsame.trans heq)
    rw [hempty, String.append_empty] at heq
    subst heq
    exact ⟨⟨p, hread, (hwholeAssoc name).symm ▸ hstarts⟩, htid, hsame, htid ▸ haccepted.1,
      hsame ▸ haccepted.2⟩
  · intro ⟨⟨p, hread, hwhole⟩, htid, hdecoded, htaccepted, haccepted⟩
    obtain ⟨rest, hcut⟩ := reader.cut _ p hread
    rw [hassoc] at hcut
    rw [hwholeAssoc] at hwhole
    have hroute := routeOf_tenant_whole host hdir htenant.noSlash htenant.nonempty hname hne hcut
      hwhole
    rw [htid, hdecoded] at hroute
    refine ⟨p, hread, _, (routesTo_iff host hmulti p _).mpr hroute,
      loadFile_eq_some_iff.mpr ⟨⟨htaccepted, haccepted⟩, ?_⟩⟩
    unfold ModulePath.wasmPath
    rw [hdir]
    rfl

/-! ## The documents -/

theorem platform_openapi (host : Host Comp) (dirs : DirReader host.fs)
    (parseSpec : Bytes → Option Json) (timestamp : String) :
    (handleGatewayRequest host dirs parseSpec timestamp "/_mik/openapi/platform").status = 200 := by
  unfold handleGatewayRequest
  rw [show stripPrefix "/_mik/" "/_mik/openapi/platform" = some "openapi/platform" by
    decide]
  dsimp only
  rw [if_neg (by decide), if_pos rfl]

/-- The document of a listed tenant is served when the characters of its ID are let pass. -/
theorem tenant_openapi_iff (host : Host Comp) (dirs : DirReader host.fs)
    (parseSpec : Bytes → Option Json) (timestamp : String) {dir : String} {t : DiscoveredTenant}
    (hdir : host.userModulesDir = some dir) (ht : t ∈ discoverTenants host.fs dirs dir) :
    (handleGatewayRequest host dirs parseSpec timestamp
        ("/_mik/openapi/tenant/" ++ t.id)).status = 200 ↔
      t.id.toList.all tenantIdChar = true := by
  obtain ⟨hplain, hpath, hisDir, huser⟩ := mem_discoverTenants ht
  have hmik : stripPrefix "/_mik/" ("/_mik/openapi/tenant/" ++ t.id) =
      some ("openapi/tenant/" ++ t.id) := by
    rw [stripPrefix_eq_some_iff, ← String.append_assoc]
    rfl
  have hother : ∀ text, text.toList.take 9 ≠ "openapi/t".toList →
      "openapi/tenant/" ++ t.id ≠ text := by
    intro text htext heq
    apply htext
    rw [← heq, String.toList_append]
    rfl
  unfold handleGatewayRequest
  rw [hmik]
  dsimp only
  rw [if_neg (hother "handlers" (by decide)), if_neg (hother "openapi/platform" (by decide)),
    stripPrefix_eq_some_iff.mpr rfl]
  dsimp only
  unfold handleTenantOpenapi
  rw [if_neg hplain.nonempty]
  cases hall : t.id.toList.all tenantIdChar with
  | false =>
    rw [Bool.not_false, if_pos rfl]
    exact ⟨fun h => absurd (show 400 = 200 from h) (by decide), fun h => (by cases h)⟩
  | true =>
    refine ⟨fun _ => rfl, fun _ => ?_⟩
    unfold aggregateTenantSpec
    rw [hpath] at hisDir
    dsimp only
    rw [hdir]
    dsimp only
    rw [if_pos huser, if_pos hisDir]
    rfl

/-! ## Ids and links are apart -/

theorem name_of_mem {fs : String → Option Entry} {dirs : DirReader fs} {dir : String}
    {tenantId : Option String} {m : DiscoveredModule}
    (h : m ∈ discoverModules fs dirs dir tenantId) :
    '/' ∉ m.name.toList ∧ m.tenantId = tenantId := by
  obtain ⟨hplain, -, hm⟩ := mem_discoverModules h
  exact ⟨noSlash_of_plain_wasm hplain, by rw [hm]; rfl⟩

theorem tenantHandler_id {fs : String → Option Entry} {dirs : DirReader fs} {dir tid : String}
    {m : DiscoveredModule} (h : m ∈ discoverModules fs dirs dir (some tid)) :
    (tenantHandler m).id = tid ++ "/" ++ m.name := by
  unfold tenantHandler
  rw [(name_of_mem h).2]
  rfl

/-- The IDs of the tenants' handlers are apart. -/
theorem nodup_tenantIds {fs : String → Option Entry} (dirs : DirReader fs) (modulesDir : String)
    (userModulesDir : Option String) :
    ((discoverAllModules fs dirs modulesDir userModulesDir).2.map fun m =>
      (tenantHandler m).id).Nodup := by
  unfold discoverAllModules
  cases userModulesDir with
  | none => exact List.nodup_nil
  | some dir =>
    dsimp only
    rw [List.map_flatMap, List.nodup_flatMap]
    constructor
    · intro t _
      have hids : (discoverModules fs dirs t.path (some t.id)).map (fun m => (tenantHandler m).id) =
          ((discoverModules fs dirs t.path (some t.id)).map DiscoveredModule.name).map fun name =>
            t.id ++ "/" ++ name := by
        rw [List.map_map]
        exact List.map_congr_left fun m hm => tenantHandler_id hm
      rw [hids]
      exact (nodup_discoverModules dirs t.path (some t.id)).map
        fun name name' h => (String.append_right_inj _).mp h
    · have hnodup := nodup_discoverTenants dirs dir
      rw [List.Nodup, List.pairwise_map] at hnodup
      refine hnodup.imp_of_mem fun {t t'} ht ht' hne => ?_
      intro id hid hid'
      obtain ⟨m, hm, heq⟩ := List.mem_map.mp hid
      obtain ⟨m', hm', heq'⟩ := List.mem_map.mp hid'
      have hsame : t.id ++ "/" ++ m.name = t'.id ++ "/" ++ m'.name := by
        rw [← tenantHandler_id hm, ← tenantHandler_id hm']
        exact heq.trans heq'.symm
      have hlist := congrArg String.toList hsame
      simp only [String.toList_append, List.append_assoc, toList_separator,
        List.singleton_append] at hlist
      have hids := append_sep_inj (mem_discoverTenants ht).1.noSlash
        (mem_discoverTenants ht').1.noSlash hlist
      exact hne (String.toList_inj.mp hids.1)

theorem slash_mem_tenantId {fs : String → Option Entry} {dirs : DirReader fs} {modulesDir : String}
    {userModulesDir : Option String} {m : DiscoveredModule}
    (h : m ∈ (discoverAllModules fs dirs modulesDir userModulesDir).2) :
    '/' ∈ (tenantHandler m).id.toList := by
  obtain ⟨dir, -, t, -, hm⟩ := mem_tenantModules_iff.mp h
  rw [tenantHandler_id hm, String.toList_append, toList_slash]
  simp

theorem nodup_ids (host : Host Comp) (dirs : DirReader host.fs) (timestamp : String) :
    ((handlersResponse host dirs timestamp).data.map HandlerInfo.id).Nodup := by
  unfold handlersResponse
  rw [List.map_append, List.map_map, List.map_map, List.nodup_append']
  refine ⟨nodup_discoverModules dirs host.modulesDir none,
    nodup_tenantIds dirs host.modulesDir host.userModulesDir, ?_⟩
  intro id hid hid'
  obtain ⟨m, hm, rfl⟩ := List.mem_map.mp hid
  obtain ⟨m', hm', heq⟩ := List.mem_map.mp hid'
  have hslash := slash_mem_tenantId hm'
  have heq' : (tenantHandler m').id = m.name := heq
  rw [heq'] at hslash
  exact (name_of_mem hm).1 hslash

/-- A link is made of the ID. -/
theorem nodup_links (host : Host Comp) (dirs : DirReader host.fs) (timestamp : String) :
    ((handlersResponse host dirs timestamp).data.map fun h => h.links.selfLink).Nodup := by
  unfold handlersResponse
  rw [List.map_append, List.map_map, List.map_map, List.nodup_append']
  refine ⟨?_, ?_, ?_⟩
  · have hlinks : (discoverAllModules host.fs dirs host.modulesDir host.userModulesDir).1.map
        ((fun h => h.links.selfLink) ∘ platformHandler) =
        ((discoverModules host.fs dirs host.modulesDir none).map DiscoveredModule.name).map
          fun name => "/run/" ++ name ++ "/" := by
      rw [List.map_map]
      rfl
    rw [hlinks]
    refine (nodup_discoverModules dirs host.modulesDir none).map fun name name' h => ?_
    exact (String.append_right_inj _).mp ((String.append_left_inj _).mp h)
  · have hlinks : (discoverAllModules host.fs dirs host.modulesDir host.userModulesDir).2.map
        ((fun h => h.links.selfLink) ∘ tenantHandler) =
        ((discoverAllModules host.fs dirs host.modulesDir host.userModulesDir).2.map fun m =>
          (tenantHandler m).id).map fun id => "/tenant/" ++ id ++ "/" := by
      rw [List.map_map]
      refine List.map_congr_left fun m _ => ?_
      simp only [Function.comp_apply, tenantHandler, String.append_assoc]
    rw [hlinks]
    refine (nodup_tenantIds dirs host.modulesDir host.userModulesDir).map fun id id' h => ?_
    exact (String.append_right_inj _).mp ((String.append_left_inj _).mp h)
  · intro link hlink hlink'
    obtain ⟨m, -, rfl⟩ := List.mem_map.mp hlink
    obtain ⟨m', -, heq⟩ := List.mem_map.mp hlink'
    simp only [Function.comp_apply, tenantHandler, platformHandler, String.append_assoc] at heq
    exact run_ne_tenant _ _ heq.symm

/-! ## Discovery and routing agree -/

/-- Every listed handler is reached by its link, its document is served, and no two handlers have
    the same ID or link. -/
structure Agrees (host : Host Comp) (dirs : DirReader host.fs) (parseSpec : Bytes → Option Json)
    (timestamp : String) (reader : TargetReader) : Prop where
  platform : ∀ m ∈ (discoverAllModules host.fs dirs host.modulesDir host.userModulesDir).1,
    Reached host reader (platformHandler m).links.selfLink m.wasmPath
  tenants : ∀ m ∈ (discoverAllModules host.fs dirs host.modulesDir host.userModulesDir).2,
    Reached host reader (tenantHandler m).links.selfLink m.wasmPath
  openapi : ∀ h ∈ (handlersResponse host dirs timestamp).data, ∀ link,
    h.links.openapi = some link →
      (handleGatewayRequest host dirs parseSpec timestamp link).status = 200
  ids : ((handlersResponse host dirs timestamp).data.map HandlerInfo.id).Nodup
  selfLinks : ((handlersResponse host dirs timestamp).data.map fun h => h.links.selfLink).Nodup

/-- The names of the modules, and of the tenants that have one, can stand in links; and a tenant
    whose module has a document has an ID that is let pass. -/
structure NamesLinkable (host : Host Comp) (dirs : DirReader host.fs) (reader : TargetReader) :
    Prop where
  platform : ∀ m ∈ discoverModules host.fs dirs host.modulesDir none,
    PlatformLinkable reader m.name
  tenants : ∀ dir, host.userModulesDir = some dir → ∀ t ∈ discoverTenants host.fs dirs dir,
    ∀ m ∈ discoverModules host.fs dirs t.path (some t.id), TenantLinkable reader t.id m.name
  documents : ∀ dir, host.userModulesDir = some dir → ∀ t ∈ discoverTenants host.fs dirs dir,
    ∀ m ∈ discoverModules host.fs dirs t.path (some t.id), m.openapiPath.isSome = true →
      t.id.toList.all tenantIdChar = true

theorem platform_module_reached_iff (host : Host Comp) (hmulti : host.singleComponent = none)
    {dirs : DirReader host.fs} (reader : TargetReader) {m : DiscoveredModule}
    (hm : m ∈ discoverModules host.fs dirs host.modulesDir none) :
    Reached host reader (platformHandler m).links.selfLink m.wasmPath ↔
      PlatformLinkable reader m.name := by
  obtain ⟨hplain, hne, heq⟩ := mem_discoverModules hm
  have hpath : m.wasmPath = join host.modulesDir (m.name ++ ".wasm") := by rw [heq]; rfl
  rw [hpath]
  exact platform_reached_iff host hmulti reader hplain hne

theorem tenant_module_reached_iff (host : Host Comp) (hmulti : host.singleComponent = none)
    {dirs : DirReader host.fs} (reader : TargetReader) {dir : String} {t : DiscoveredTenant}
    {m : DiscoveredModule} (hdir : host.userModulesDir = some dir)
    (ht : t ∈ discoverTenants host.fs dirs dir)
    (hm : m ∈ discoverModules host.fs dirs t.path (some t.id)) :
    Reached host reader (tenantHandler m).links.selfLink m.wasmPath ↔
      TenantLinkable reader t.id m.name := by
  obtain ⟨hplain, hne, heq⟩ := mem_discoverModules hm
  obtain ⟨htplain, htpath, -⟩ := mem_discoverTenants ht
  have hpath : m.wasmPath = join (join dir t.id) (m.name ++ ".wasm") := by rw [heq, ← htpath]; rfl
  have hlink : (tenantHandler m).links.selfLink =
      "/tenant/" ++ t.id ++ "/" ++ m.name ++ "/" := by
    unfold tenantHandler
    rw [(name_of_mem hm).2]
    rfl
  rw [hpath, hlink]
  exact tenant_reached_iff host hmulti reader hdir htplain hplain hne

/-- For every content of the two directories: discovery and routing agree exactly when the names
    found in them can stand in links. -/
theorem discovery_agrees_iff (host : Host Comp) (dirs : DirReader host.fs)
    (parseSpec : Bytes → Option Json) (timestamp : String) (reader : TargetReader)
    (hmulti : host.singleComponent = none) :
    Agrees host dirs parseSpec timestamp reader ↔ NamesLinkable host dirs reader := by
  constructor
  · intro h
    refine ⟨fun m hm => ?_, fun dir hdir t ht m hm => ?_, fun dir hdir t ht m hm hdoc => ?_⟩
    · exact (platform_module_reached_iff host hmulti reader hm).mp (h.platform m hm)
    · exact (tenant_module_reached_iff host hmulti reader hdir ht hm).mp
        (h.tenants m (mem_tenantModules_iff.mpr ⟨dir, hdir, t, ht, hm⟩))
    · refine (tenant_openapi_iff host dirs parseSpec timestamp hdir ht).mp
        (h.openapi (tenantHandler m) ?_ _ ?_)
      · exact List.mem_append_right _ (List.mem_map_of_mem
          (mem_tenantModules_iff.mpr ⟨dir, hdir, t, ht, hm⟩))
      · obtain ⟨path, hpath⟩ := Option.isSome_iff_exists.mp hdoc
        unfold tenantHandler
        rw [(name_of_mem hm).2, hpath]
        rfl
  · intro h
    refine ⟨fun m hm => ?_, fun m hm => ?_, fun handler hmem link hlink => ?_,
      nodup_ids host dirs timestamp, nodup_links host dirs timestamp⟩
    · exact (platform_module_reached_iff host hmulti reader hm).mpr (h.platform m hm)
    · obtain ⟨dir, hdir, t, ht, hm'⟩ := mem_tenantModules_iff.mp hm
      exact (tenant_module_reached_iff host hmulti reader hdir ht hm').mpr
        (h.tenants dir hdir t ht m hm')
    · rcases List.mem_append.mp hmem with hplatform | htenant
      · obtain ⟨m, -, rfl⟩ := List.mem_map.mp hplatform
        obtain ⟨path, -, rfl⟩ := Option.map_eq_some_iff.mp hlink
        exact platform_openapi host dirs parseSpec timestamp
      · obtain ⟨m, hm, rfl⟩ := List.mem_map.mp htenant
        obtain ⟨dir, hdir, t, ht, hm'⟩ := mem_tenantModules_iff.mp hm
        obtain ⟨path, hpath, rfl⟩ := Option.map_eq_some_iff.mp hlink
        rw [(name_of_mem hm').2]
        exact (tenant_openapi_iff host dirs parseSpec timestamp hdir ht).mpr
          (h.documents dir hdir t ht m hm' (by rw [hpath]; rfl))

end

/-- A server that refuses every target with other characters than a path may hold. -/
def strictReader : TargetReader where
  read := fun target => if target.toList.all pathChar then some target else none
  cut := by
    intro target p h
    split at h
    · exact ⟨"", by rw [← Option.some.inj h, String.append_empty]⟩
    · cases h
  ended := by
    intro target p h
    split at h
    · next hall =>
      rw [← Option.some.inj h]
      rw [List.all_eq_true] at hall
      exact ⟨fun hc => absurd (hall _ hc) (by decide),
        fun hc => absurd (hall _ hc) (by decide)⟩
    · cases h
  kept := fun target _ hall => if_pos hall

/-- One module of the platform, and no tenants. -/
def oneModule (file : String) : Host Nat where
  engine := ⟨fun bytes => some bytes.length, fun _ => none, fun _ => none⟩
  blake3 := fun _ => Vector.replicate 32 0
  fs := fun path =>
    if path = "modules" then some .directory
    else if path = "modules/" ++ file then some (.file [])
    else none
  modulesDir := "modules"
  userModulesDir := none
  scriptsDir := none
  maxPerModuleRequests := 10
  maxBodySizeBytes := 1024
  singleComponent := none

def oneModuleDirs (file : String) (h : Plain file) : DirReader (oneModule file).fs where
  readDir := fun dir => if dir = "modules" then some [file] else none
  directory := by
    intro dir names hread
    split at hread
    · next heq =>
      rw [heq]
      rfl
    · cases hread
  plain := by
    intro dir names hread name hname
    split at hread
    · rw [← Option.some.inj hread, List.mem_singleton] at hname
      exact hname ▸ h
    · cases hread
  nodup := by
    intro dir names hread
    split at hread
    · rw [← Option.some.inj hread]
      exact List.nodup_singleton file
    · cases hread

theorem plain_hello : Plain "hello.wasm" := ⟨by decide, by decide, by decide, by decide⟩

theorem plain_escaped : Plain "a%20b.wasm" := ⟨by decide, by decide, by decide, by decide⟩

/-- A plain name is found and reached. -/
theorem hello_agrees :
    Agrees (oneModule "hello.wasm") (oneModuleDirs "hello.wasm" plain_hello) (fun _ => none) ""
      strictReader := by
  refine (discovery_agrees_iff _ _ _ _ _ rfl).mpr ⟨fun m hm => ?_, nofun, nofun⟩
  have hone : discoverModules (oneModule "hello.wasm").fs
      (oneModuleDirs "hello.wasm" plain_hello) (oneModule "hello.wasm").modulesDir none =
      [moduleAt (oneModule "hello.wasm").fs "modules" none "hello"] := by
    decide
  rw [hone, List.mem_singleton] at hm
  rw [hm]
  exact platformLinkable_of_chars strictReader (by decide) (by decide)
    (by decide)

/-- The link of a file named `a%20b.wasm` asks for another one. -/
theorem escaped_name_unreachable :
    ¬ ∀ (host : Host Nat) (dirs : DirReader host.fs) (parseSpec : Bytes → Option Json)
      (timestamp : String) (reader : TargetReader), host.singleComponent = none →
      Agrees host dirs parseSpec timestamp reader := by
  intro h
  have hmem : moduleAt (oneModule "a%20b.wasm").fs "modules" none "a%20b" ∈
      discoverModules (oneModule "a%20b.wasm").fs (oneModuleDirs "a%20b.wasm" plain_escaped)
        (oneModule "a%20b.wasm").modulesDir none := by
    decide
  have hreached := (h (oneModule "a%20b.wasm") (oneModuleDirs "a%20b.wasm" plain_escaped)
    (fun _ => none) "" strictReader rfl).platform _ hmem
  have hlinkable := (platform_module_reached_iff _ rfl strictReader hmem).mp hreached
  exact absurd hlinkable.decoded (by decide)

end Mik.Gateway
