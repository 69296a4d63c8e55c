/-
  The documented API is the one that is served (`src/runtime/gateway/openapi.rs`, `discovery.rs`,
  `src/runtime/request_handler.rs`).

  The gateway puts the documents of the discovered modules together: the paths of a module go under
  its route. The other side is the request handler, which takes the path of a request apart again.
  A path is documented when it fills a template of the document. `documented_served` says that a
  request for such a path loads the file of the module that documents it, and hands the module what
  fills the module's own template.
-/
import Mik.Gateway.Handover

namespace Mik.Gateway

open Mik.Lib Mik.Runtime

/-! ## Templates -/

/-- The path has a text without slashes in place of each part of the template in braces. -/
inductive Fills : List Char → List Char → Prop where
  | nil : Fills [] []
  | char (c : Char) {template path : List Char} :
      Fills template path → Fills (c :: template) (c :: path)
  | parameter {name value template path : List Char} : '}' ∉ name → value ≠ [] → '/' ∉ value →
      Fills template path → Fills ('{' :: (name ++ '}' :: template)) (value ++ path)

/-- A beginning without parameters is the beginning of the path. -/
theorem Fills.append {front template path : List Char} (hfront : '{' ∉ front)
    (h : Fills (front ++ template) path) : ∃ rest, path = front ++ rest ∧ Fills template rest := by
  induction front generalizing path with
  | nil => exact ⟨path, rfl, h⟩
  | cons c front ih =>
    obtain ⟨hc, hfront'⟩ := List.ne_and_not_mem_of_not_mem_cons hfront
    generalize hwhole : c :: front ++ template = whole at h
    cases h with
    | nil => nomatch hwhole
    | char c' h =>
      obtain ⟨rfl, rfl⟩ := List.cons.inj hwhole
      obtain ⟨rest, rfl, hrest⟩ := ih hfront' h
      exact ⟨rest, rfl, hrest⟩
    | parameter => exact absurd (List.cons.inj hwhole).1.symm hc

theorem Fills.front (front : List Char) {template path : List Char} (h : Fills template path) :
    Fills (front ++ template) (front ++ path) := by
  induction front with
  | nil => exact h
  | cons c front ih => exact .char c ih

/-! ## Documents -/

section

variable {Comp : Type} {host : Host Comp} {http : HttpLib} {parseSpec : Bytes → Option Json}

/-- The document of a module, if it has one that can be read. -/
def specOf (host : Host Comp) (parseSpec : Bytes → Option Json) (m : DiscoveredModule) :
    Option Json :=
  m.openapiPath.bind (readOpenapiSpec host parseSpec)

/-- What the aggregate takes over from the paths of a document. -/
def specEntries (routePrefix : String) (spec : String × Json) : List (String × Json) :=
  (specPaths spec.2).map fun e => (fullPath routePrefix spec.1 e.1, updateSchemaRefs spec.1 e.2)

theorem mem_moduleSpecs_iff {modules : List DiscoveredModule} {spec : String × Json} :
    spec ∈ moduleSpecs host parseSpec modules ↔
      ∃ m ∈ modules, m.name = spec.1 ∧ specOf host parseSpec m = some spec.2 := by
  unfold moduleSpecs specOf
  rw [List.mem_filterMap]
  refine exists_congr fun m => and_congr_right fun _ => ?_
  cases m.openapiPath with
  | none => exact ⟨nofun, fun h => nomatch h.2⟩
  | some path =>
    rw [Option.bind_some, Option.bind_some, Option.map_eq_some_iff]
    constructor
    · rintro ⟨own, hown, rfl⟩
      exact ⟨rfl, hown⟩
    · rintro ⟨hname, hown⟩
      exact ⟨spec.2, hown, Prod.ext hname rfl⟩

theorem paths_foldl_add (routePrefix : String) (specs : List (String × Json)) (merged : Merged) :
    (specs.foldl (Merged.add routePrefix) merged).paths =
      insertFields (specs.flatMap (specEntries routePrefix)) merged.paths := by
  induction specs generalizing merged with
  | nil => rfl
  | cons spec specs ih =>
    have hmerge : mergePaths merged.paths (specPaths spec.2) spec.1 routePrefix =
        insertFields (specEntries routePrefix spec) merged.paths := by
      unfold mergePaths specEntries insertFields
      rw [List.foldl_map]
    rw [List.foldl_cons, ih, List.flatMap_cons, insertFields_append, ← hmerge]
    rfl

theorem pathAt_aggregateSpecs (title : String) (specs : List (String × Json))
    (routePrefix key : String) :
    pathAt (aggregateSpecs title specs routePrefix) key =
      (insertFields (specs.flatMap (specEntries routePrefix)) []).lookup key :=
  congrArg (List.lookup key) (paths_foldl_add routePrefix specs ⟨[], []⟩)

/-- Each path of a module is in the aggregate of its directory. -/
theorem pathAt_of_module {modules : List DiscoveredModule} {m : DiscoveredModule}
    (hm : m ∈ modules) {spec own : Json} {template : String}
    (hspec : specOf host parseSpec m = some spec) (hown : (template, own) ∈ specPaths spec)
    (title routePrefix : String) :
    ∃ item, pathAt (aggregateSpecs title (moduleSpecs host parseSpec modules) routePrefix)
      (fullPath routePrefix m.name template) = some item := by
  have hentry : (fullPath routePrefix m.name template, updateSchemaRefs m.name own) ∈
      (moduleSpecs host parseSpec modules).flatMap (specEntries routePrefix) :=
    List.mem_flatMap.mpr ⟨(m.name, spec), mem_moduleSpecs_iff.mpr ⟨m, hm, rfl, hspec⟩,
      List.mem_map.mpr ⟨(template, own), hown, rfl⟩⟩
  rw [pathAt_aggregateSpecs]
  exact exists_lookup_insertFields [] hentry

/-- Each path of the aggregate is one of a module. -/
theorem module_of_pathAt {modules : List DiscoveredModule} {title routePrefix key : String}
    {item : Json}
    (h : pathAt (aggregateSpecs title (moduleSpecs host parseSpec modules) routePrefix) key =
      some item) :
    ∃ m ∈ modules, ∃ spec template own, specOf host parseSpec m = some spec ∧
      (template, own) ∈ specPaths spec ∧ key = fullPath routePrefix m.name template ∧
      item = updateSchemaRefs m.name own := by
  rw [pathAt_aggregateSpecs] at h
  rcases lookup_insertFields_cases h with hmem | hempty
  · obtain ⟨spec, hspec, hentry⟩ := List.mem_flatMap.mp hmem
    obtain ⟨⟨template, own⟩, hown, heq⟩ := List.mem_map.mp hentry
    obtain ⟨m, hm, hname, hread⟩ := mem_moduleSpecs_iff.mp hspec
    cases heq
    exact ⟨m, hm, spec.2, template, own, hread, hown, by rw [hname], by rw [hname]⟩
  · cases hempty

/-- `doc` is the document of the paths under `front`, which lead to the modules by `route`. A name
    can stand in a path when it is accepted and needs no escapes; `Kept` are the paths that the
    route hands on as they are. -/
structure Describes (host : Host Comp) (http : HttpLib) (parseSpec : Bytes → Option Json)
    (modules : List DiscoveredModule) (front routePrefix : String) (route : String → ModulePath)
    (Kept : String → Prop) (doc : Json) : Prop where
  /-- What a module documents is in the document. -/
  complete : ∀ m ∈ modules, ∀ spec, specOf host parseSpec m = some spec →
    ∀ template own, (template, own) ∈ specPaths spec →
      ∃ item, pathAt doc (fullPath routePrefix m.name template) = some item
  /-- What is in the document is a path of one of the modules, and a request for it reaches that
      module, with a path that the module documents itself. -/
  served : ∀ key item, pathAt doc key = some item →
    ∃ m ∈ modules, ∃ spec template own, specOf host parseSpec m = some spec ∧
      (template, own) ∈ specPaths spec ∧ key = fullPath routePrefix m.name template ∧
      item = updateSchemaRefs m.name own ∧
      (Accepted m.name → m.name.toList.all plainChar = true →
        ∀ path : String, path.toList.all plainChar = true → Fills key.toList path.toList →
          ∃ rest, path = routePrefix ++ "/" ++ m.name ++ rest ∧
            Fills (normalizedPath template).toList rest.toList ∧
            (Kept rest → loadFile host (route m.name) = some m.wasmPath ∧
              Serves host http (front ++ path) (route m.name) rest))

/-- A plain path that fills a path of the document is that of the module with what fills the
    module's own template, which starts with a slash. -/
theorem rest_of_fills {routePrefix name template : String} {path : String}
    (hbraces : '{' ∉ routePrefix.toList) (hname : name.toList.all plainChar = true)
    (h : Fills (fullPath routePrefix name template).toList path.toList) :
    ∃ rest, path = routePrefix ++ "/" ++ name ++ rest ∧
      Fills (normalizedPath template).toList rest.toList ∧ startsWith "/" rest = true := by
  have hfront : '{' ∉ (routePrefix ++ "/" ++ name).toList := by
    rw [String.toList_append, String.toList_append, List.mem_append, List.mem_append]
    rintro ((hmem | hmem) | hmem)
    · exact hbraces hmem
    · exact absurd hmem (by decide)
    · exact absurd (List.all_eq_true.mp hname _ hmem) (by decide)
  unfold fullPath at h
  rw [String.toList_append] at h
  obtain ⟨rest, hpath, hrest⟩ := h.append hfront
  refine ⟨String.ofList rest, String.toList_inj.mp ?_, ?_, ?_⟩
  · rw [String.toList_append, String.toList_ofList]
    exact hpath
  · rw [String.toList_ofList]
    exact hrest
  · obtain ⟨more, hmore⟩ := startsWith_normalizedPath template
    rw [hmore, String.toList_append, toList_separator] at hrest
    obtain ⟨rest', rfl, -⟩ := Fills.append (by decide : '{' ∉ ['/']) hrest
    refine startsWith_iff.mpr ⟨String.ofList rest', String.toList_inj.mp ?_⟩
    rw [String.toList_append, toList_separator, String.toList_ofList, String.toList_ofList]

/-- A document put together from a directory describes what is served, when the requests that fill
    its paths are. -/
theorem describes_aggregate {modules : List DiscoveredModule} {front routePrefix : String}
    {route : String → ModulePath} {Kept : String → Prop} (title : String)
    (hbraces : '{' ∉ routePrefix.toList)
    (hserves : ∀ m ∈ modules, Accepted m.name → m.name.toList.all plainChar = true →
      ∀ rest, startsWith "/" rest = true → rest.toList.all plainChar = true → Kept rest →
        loadFile host (route m.name) = some m.wasmPath ∧
          Serves host http (front ++ (routePrefix ++ "/" ++ m.name ++ rest)) (route m.name) rest) :
    Describes host http parseSpec modules front routePrefix route Kept
      (aggregateSpecs title (moduleSpecs host parseSpec modules) routePrefix) where
  complete m hm spec hspec template own hown :=
    pathAt_of_module hm hspec hown title routePrefix
  served key item hitem := by
    obtain ⟨m, hm, spec, template, own, hspec, hown, rfl, rfl⟩ := module_of_pathAt hitem
    refine ⟨m, hm, spec, template, own, hspec, hown, rfl, rfl, fun haccepted hname path hplain
      hfills => ?_⟩
    obtain ⟨rest, rfl, hrest, hslash⟩ := rest_of_fills hbraces hname hfills
    rw [String.toList_append, List.all_append, Bool.and_eq_true] at hplain
    exact ⟨rest, rfl, hrest, hserves m hm haccepted hname rest hslash hplain.2⟩

theorem restPath_of_slash {rest : String} (h : startsWith "/" rest = true) :
    restPath rest = rest := by
  refine if_neg ?_
  rintro rfl
  exact absurd h (by decide)

theorem platform_describes (hmulti : host.singleComponent = none) (htakes : TakesPlain http)
    (dirs : DirReader host.fs) :
    Describes host http parseSpec (discoverModules host.fs dirs host.modulesDir none) "" "/run"
      .platform (fun _ => True) (aggregatePlatformSpec host dirs parseSpec) := by
  refine describes_aggregate "Platform API" (by decide) fun m hm haccepted hname rest hslash hplain
    _ => ⟨?_, ?_⟩
  · rw [(mem_discoverModules hm).2.2]
    exact loadFile_eq_some_iff.mpr ⟨haccepted, rfl⟩
  · have hserves := platform_serves hmulti htakes
      ⟨haccepted.plain.nonempty, haccepted.plain.noSlash⟩ (Or.inr hslash) hname hplain
    rw [restPath_of_slash hslash] at hserves
    have hpath : "" ++ ("/run" ++ "/" ++ m.name ++ rest) = "/run/" ++ (m.name ++ rest) := by
      rw [String.empty_append, String.append_assoc]
      rfl
    rw [hpath]
    exact hserves

theorem plainChar_of_tenantIdChar {c : Char} (h : tenantIdChar c = true) : plainChar c = true := by
  unfold tenantIdChar at h
  unfold plainChar pathChar
  rcases Bool.or_eq_true_iff.mp h with h | h
  · rcases Bool.or_eq_true_iff.mp h with h | h
    · rw [h, Bool.true_or, Bool.true_and, bne_iff_ne]
      rintro rfl
      exact absurd h (by decide)
    · rw [beq_iff_eq.mp h]
      decide
  · rw [beq_iff_eq.mp h]
    decide

/-- A tenant's document is answered for an ID of the characters it may have, and is put together
    from the tenant's directory. -/
theorem spec_of_handleTenantOpenapi {dirs : DirReader host.fs} {tenantId : String} {doc : Json}
    (h : handleTenantOpenapi host dirs parseSpec tenantId = ⟨200, .spec doc⟩) :
    tenantId.toList.all tenantIdChar = true ∧ ∃ dir, host.userModulesDir = some dir ∧
      aggregateTenantSpec host dirs parseSpec dir tenantId = some doc := by
  unfold handleTenantOpenapi at h
  split at h
  · cases h
  split at h
  · cases h
  next hchars =>
  refine ⟨?_, ?_⟩
  · simpa only [Bool.not_eq_true, Bool.not_eq_false'] using hchars
  cases hdir : host.userModulesDir with
  | none =>
    simp only [hdir] at h
    cases h
  | some dir =>
    simp only [hdir] at h
    split at h
    · next spec hspec =>
      cases h
      split at hspec
      · exact ⟨dir, rfl, hspec⟩
      · cases hspec
    · cases h

theorem tenant_describes (hmulti : host.singleComponent = none) (htakes : TakesPlain http)
    {dirs : DirReader host.fs} {dir tenantId : String} (hdir : host.userModulesDir = some dir)
    (hchars : tenantId.toList.all tenantIdChar = true) {doc : Json}
    (hdoc : aggregateTenantSpec host dirs parseSpec dir tenantId = some doc) :
    Describes host http parseSpec
      (discoverModules host.fs dirs (join dir tenantId) (some tenantId)) ("/tenant/" ++ tenantId) ""
      (.tenant tenantId) (fun rest => Accepted tenantId ∧ NothingDropped rest) doc := by
  unfold aggregateTenantSpec at hdoc
  dsimp only at hdoc
  split at hdoc
  case isFalse => nomatch hdoc
  case isTrue =>
  obtain rfl := Option.some.inj hdoc
  have htplain : tenantId.toList.all plainChar = true :=
    List.all_eq_true.mpr fun c hc =>
      plainChar_of_tenantIdChar (List.all_eq_true.mp hchars c hc)
  refine describes_aggregate _ (by decide) fun m hm haccepted hname rest hslash hplain hkept =>
    ⟨?_, ?_⟩
  · rw [(mem_discoverModules hm).2.2]
    refine loadFile_eq_some_iff.mpr ⟨⟨hkept.1, haccepted⟩, ?_⟩
    unfold ModulePath.wasmPath
    rw [hdir]
    rfl
  · have hserves := tenant_serves hmulti htakes hdir
      ⟨hkept.1.plain.nonempty, hkept.1.plain.noSlash⟩
      ⟨haccepted.plain.nonempty, haccepted.plain.noSlash⟩ (Or.inr hslash) htplain hname hplain
      hkept.2
    rw [restPath_of_slash hslash] at hserves
    have hpath : "/tenant/" ++ tenantId ++ ("" ++ "/" ++ m.name ++ rest) =
        "/tenant/" ++ (tenantId ++ "/" ++ m.name ++ rest) := by
      simp only [String.empty_append, String.append_assoc]
    rw [hpath]
    exact hserves

end

/-- What the gateway documents is what is served. Every document it answers with, of the platform or
    of a tenant, has all the paths that the modules in the directory document and no others; and a
    plain request path that fills one of them, where the module's name can stand in a path, loads
    the file of that module and nothing else, and hands it a path that fills the template in the
    module's own document. -/
theorem documented_served {Comp : Type} {host : Host Comp} (hmulti : host.singleComponent = none)
    {http : HttpLib} (htakes : TakesPlain http) (dirs : DirReader host.fs)
    {parseSpec : Bytes → Option Json} {timestamp path : String} {doc : Json}
    (h : handleGatewayRequest host dirs parseSpec timestamp path = ⟨200, .spec doc⟩) :
    (path = "/_mik/openapi/platform" ∧
      Describes host http parseSpec (discoverModules host.fs dirs host.modulesDir none) "" "/run"
        .platform (fun _ => True) doc) ∨
    ∃ dir tenantId, host.userModulesDir = some dir ∧ path = "/_mik/openapi/tenant/" ++ tenantId ∧
      Describes host http parseSpec
        (discoverModules host.fs dirs (join dir tenantId) (some tenantId))
        ("/tenant/" ++ tenantId) "" (.tenant tenantId)
        (fun rest => Accepted tenantId ∧ NothingDropped rest) doc := by
  unfold handleGatewayRequest at h
  cases hstrip : stripPrefix "/_mik/" path with
  | none =>
    rw [hstrip] at h
    cases h
  | some apiPath =>
    obtain rfl := stripPrefix_eq_some_iff.mp hstrip
    rw [hstrip] at h
    dsimp only at h
    split at h
    · cases h
    split at h
    · next hplatform =>
      cases h
      rw [hplatform]
      exact Or.inl ⟨rfl, platform_describes hmulti htakes dirs⟩
    cases htenant : stripPrefix "openapi/tenant/" apiPath with
    | none =>
      rw [htenant] at h
      cases h
    | some tenantId =>
      obtain rfl := stripPrefix_eq_some_iff.mp htenant
      rw [htenant] at h
      obtain ⟨hchars, dir, hdir, hdoc⟩ := spec_of_handleTenantOpenapi h
      exact Or.inr ⟨dir, tenantId, hdir, (String.append_assoc).symm,
        tenant_describes hmulti htakes hdir hchars hdoc⟩

/-- One module with a document. -/
def documentedModule : Host Nat :=
  { oneModule "hello.wasm" with
    fs := fun path =>
      if path = "modules" then some .directory
      else if path = "modules/hello.wasm" then some (.file [])
      else if path = "modules/hello.openapi.json" then some (.file [])
      else none }

def documentedDirs : DirReader documentedModule.fs where
  readDir := fun dir =>
    if dir = "modules" then some ["hello.openapi.json", "hello.wasm"] else none
  directory := by
    intro dir names hread
    split at hread
    · next heq =>
      rw [heq]
      rfl
    · cases hread
  plain := by
    intro dir names hread name hname
    split at hread
    · rw [← Option.some.inj hread] at hname
      rcases List.mem_pair.mp hname with rfl | rfl
      · exact ⟨by decide, by decide, by decide, by decide⟩
      · exact plain_hello
    · cases hread
  nodup := by
    intro dir names hread
    split at hread
    · rw [← Option.some.inj hread]
      decide
    · cases hread

/-- A document with one path. -/
def itemsSpec : Json := .obj [("paths", .obj [("/items/{id}", .obj [])])]

/-- The path of an item fills `/items/{id}`. -/
theorem documented_hello :
    loadFile documentedModule (.platform "hello") = some (join "modules" "hello.wasm") ∧
      Serves documentedModule plainHttp "/run/hello/items/7" (.platform "hello") "/items/7" := by
  have hdoc : handleGatewayRequest documentedModule documentedDirs (fun _ => some itemsSpec) ""
      "/_mik/openapi/platform" = ⟨200, .spec (aggregatePlatformSpec documentedModule documentedDirs
        fun _ => some itemsSpec)⟩ := rfl
  have hone : discoverModules documentedModule.fs documentedDirs "modules" none =
      [moduleAt documentedModule.fs "modules" none "hello"] := by
    decide
  rcases documented_served rfl plainHttp_takesPlain documentedDirs hdoc with
    ⟨-, hdescribes⟩ | ⟨_, _, hnone, _⟩
  · have hm : moduleAt documentedModule.fs "modules" none "hello" ∈
        discoverModules documentedModule.fs documentedDirs "modules" none := by
      rw [hone]
      exact List.mem_singleton_self _
    obtain ⟨item, hitem⟩ := hdescribes.complete _ hm itemsSpec rfl "/items/{id}" (.obj [])
      (List.mem_singleton_self _)
    obtain ⟨m, hm', _, _, _, _, _, _, _, hserved⟩ := hdescribes.served _ item hitem
    rw [show documentedModule.modulesDir = "modules" from rfl, hone, List.mem_singleton] at hm'
    obtain rfl := hm'
    have hfills : Fills (fullPath "/run" "hello" "/items/{id}").toList
        "/run/hello/items/7".toList := by
      have hid : Fills ['{', 'i', 'd', '}'] ['7'] :=
        @Fills.parameter ['i', 'd'] ['7'] [] [] (by decide) (by decide) (by decide) .nil
      have hfront := hid.front "/run/hello/items/".toList
      rwa [show "/run/hello/items/".toList ++ ['{', 'i', 'd', '}'] =
          (fullPath "/run" "hello" "/items/{id}").toList by decide,
        show "/run/hello/items/".toList ++ ['7'] = "/run/hello/items/7".toList by decide] at hfront
    obtain ⟨rest, hpath, -, hrest⟩ := hserved (by decide) (by decide) "/run/hello/items/7"
      (by decide) hfills
    have hsame : rest = "/items/7" :=
      (String.append_right_inj _).mp (hpath.symm.trans
        (by decide : "/run/hello/items/7" = "/run" ++ "/" ++ "hello" ++ "/items/7"))
    rw [hsame] at hrest
    exact hrest trivial
  · nomatch hnone

end Mik.Gateway
