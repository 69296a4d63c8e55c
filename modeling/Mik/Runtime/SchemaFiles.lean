/-
  Static OpenAPI schemas (`src/runtime/schema_handler.rs` and the `/openapi/` branch of
  `handle_request_inner`).

  The module name of the URL is put in front of `.openapi.json` and joined to the directory of the
  modules, without the sanitiser of the static route and without the decoding of the module route.
  `schema_confined_iff`: where the request passes the checks of any request, the file lies directly
  in the directory exactly when the name has no directory part that leads elsewhere.
-/
import Mik.Lib.Symlinks
import Mik.Runtime.Http

namespace Mik.Runtime

open Mik.Lib FileSystem

def schemaExtension : String := ".openapi.json"

def getSchemaPath (modulesDir moduleName : String) : String :=
  join modulesDir (moduleName ++ schemaExtension)

def schemaHeaders : List (String × String) :=
  [("content-type", "application/json"), ("x-schema-source", "static")]

def serveStaticSchema (fs : FileSystem Bytes) (schemaPath : String) : Response :=
  match fs.read schemaPath with
  | .ok content => ⟨200, schemaHeaders, content⟩
  | .error _ => ⟨404, schemaHeaders, utf8 "\x7b\"error\":\"Schema not available\"\x7d"⟩

/-- The module name in the URL, without slashes at its end. -/
def openapiModule (path : String) : Option String :=
  (stripPrefix "/openapi/" path).map (trimEndMatches "/")

/-- The path that is passed to `serve_static_schema`, if a module is named. -/
def schemaPathOf (modulesDir path : String) : Option String :=
  match openapiModule path with
  | none => none
  | some name => if name = "" then none else some (getSchemaPath modulesDir name)

/-- The checks of `handle_request_inner` and its `/openapi/` branch: the path that is passed to
    `serve_static_schema`, or the answer where none is. -/
def openapiTarget (modulesDir : String) (maxBodySizeBytes : Nat) (req : Request) :
    Except Response String :=
  match validatePathLength req.uri.path with
  | some resp => .error resp
  | none =>
    match validateContentLength req.headers maxBodySizeBytes with
    | some resp => .error resp
    | none =>
      match schemaPathOf modulesDir req.uri.path with
      | none => .error (notFound "No module specified. Use /openapi/<module>")
      | some schemaPath => .ok schemaPath

def handleOpenapiRequest (fs : FileSystem Bytes) (modulesDir : String) (maxBodySizeBytes : Nat)
    (req : Request) : Response :=
  match openapiTarget modulesDir maxBodySizeBytes req with
  | .error resp => resp
  | .ok schemaPath => serveStaticSchema fs schemaPath

/-- Whatever file the request leads to lies directly in the directory of the modules. -/
def SchemaConfined (modulesDir : String) (maxBodySizeBytes : Nat) (req : Request) : Prop :=
  ∀ schemaPath, openapiTarget modulesDir maxBodySizeBytes req = .ok schemaPath →
    DirectlyIn modulesDir schemaExtension schemaPath

/-- The checks that every request passes before it is routed. -/
structure PassesChecks (maxBodySizeBytes : Nat) (req : Request) : Prop where
  path : req.uri.path.utf8ByteSize ≤ maxPathLength
  body : validateContentLength req.headers maxBodySizeBytes = none

theorem openapiTarget_eq_ok_iff {modulesDir : String} {maxBodySizeBytes : Nat} {req : Request}
    {schemaPath : String} :
    openapiTarget modulesDir maxBodySizeBytes req = .ok schemaPath ↔
      PassesChecks maxBodySizeBytes req ∧
        schemaPathOf modulesDir req.uri.path = some schemaPath := by
  unfold openapiTarget validatePathLength
  by_cases hpath : maxPathLength < req.uri.path.utf8ByteSize
  · rw [if_pos hpath]
    exact ⟨nofun, fun ⟨hchecks, _⟩ => absurd hpath (Nat.not_lt.mpr hchecks.path)⟩
  rw [if_neg hpath]
  dsimp only
  cases hbody : validateContentLength req.headers maxBodySizeBytes with
  | some resp =>
    refine ⟨nofun, fun ⟨hchecks, _⟩ => ?_⟩
    have hpassed := hchecks.body
    rw [hbody] at hpassed
    cases hpassed
  | none =>
    have hchecks : PassesChecks maxBodySizeBytes req := ⟨Nat.not_lt.mp hpath, hbody⟩
    dsimp only
    cases schemaPathOf modulesDir req.uri.path with
    | none => exact ⟨nofun, fun ⟨_, hno⟩ => nomatch hno⟩
    | some schemaPath' =>
      exact ⟨fun h => ⟨hchecks, by rw [Except.ok.inj h]⟩, fun ⟨_, h⟩ => by rw [Option.some.inj h]⟩

/-- The module named has no directory part that leads elsewhere. -/
def ModuleStaysIn (modulesDir path : String) : Prop :=
  ∀ name, openapiModule path = some name → name = "" ∨ StaysIn modulesDir (upToLast '/' name)

/-- The schema file lies directly in the directory of the modules exactly when the directory part
    of the module name stays there, or the request does not pass the checks; and in the first case
    it is an entry of that directory, wherever links lead on the way to it. -/
theorem schema_confined_iff (modulesDir : String) (maxBodySizeBytes : Nat) (req : Request) :
    (SchemaConfined modulesDir maxBodySizeBytes req ↔
      (PassesChecks maxBodySizeBytes req → ModuleStaysIn modulesDir req.uri.path)) ∧
      (ModuleStaysIn modulesDir req.uri.path → ∀ (fs : FileSystem Bytes) (loc : List String)
        (name : String), openapiModule req.uri.path = some name → name ≠ "" →
        fs.resolve modulesDir = .ok loc →
        fs.resolve (getSchemaPath modulesDir name) =
          fs.walk fs.follow loc [.normal (lastPiece '/' name ++ schemaExtension)]) := by
  refine ⟨?_, ?_⟩
  · have hconfined : (∀ schemaPath, schemaPathOf modulesDir req.uri.path = some schemaPath →
        DirectlyIn modulesDir schemaExtension schemaPath) ↔
        ModuleStaysIn modulesDir req.uri.path := by
      unfold ModuleStaysIn schemaPathOf
      cases openapiModule req.uri.path with
      | none => simp
      | some name =>
        have hiff : DirectlyIn modulesDir schemaExtension (getSchemaPath modulesDir name) ↔
            StaysIn modulesDir (upToLast '/' name) := directlyIn_join_iff (by decide) (by decide)
        by_cases hempty : name = ""
        · simp [hempty]
        · simp [hempty, hiff]
    unfold SchemaConfined
    simp only [openapiTarget_eq_ok_iff, ← hconfined]
    exact ⟨fun h hchecks p hp => h p ⟨hchecks, hp⟩, fun h p ⟨hchecks, hp⟩ => h hchecks p hp⟩
  · intro hstays fs loc name hname hne hresolve
    rcases hstays name hname with hempty | hfront
    · exact absurd hempty hne
    · refine resolve_of_staysIn (by decide) (by decide) ?_ hresolve
      assumption

/-- The modules in `/srv/modules`, and a schema beside the directory. -/
def schemaTree : FileSystem Bytes :=
  ofEntries 40
    [(["srv"], .dir), (["srv", "modules"], .dir),
      (["srv", "modules", "api.openapi.json"], .file (.content (utf8 "api"))),
      (["srv", "admin.openapi.json"], .file (.content (utf8 "admin")))]

def openapiRequest (path : String) : Request := ⟨"GET", ⟨none, none, path, none⟩, [], ⟨[], none⟩⟩

example : handleOpenapiRequest schemaTree "/srv/modules" 1024 (openapiRequest "/openapi/api/") =
    ⟨200, schemaHeaders, utf8 "api"⟩ := by decide

/-- A file outside is served, through `..` and through an absolute path. -/
theorem schema_outside_served :
    handleOpenapiRequest schemaTree "/srv/modules" 1024 (openapiRequest "/openapi/../admin") =
        ⟨200, schemaHeaders, utf8 "admin"⟩ ∧
      handleOpenapiRequest schemaTree "/srv/modules" 1024 (openapiRequest "/openapi//srv/admin") =
        ⟨200, schemaHeaders, utf8 "admin"⟩ ∧
      ¬ SchemaConfined "/srv/modules" 1024 (openapiRequest "/openapi/../admin") := by
  refine ⟨by decide +kernel, by decide, fun h => ?_⟩
  have hpath : openapiTarget "/srv/modules" 1024 (openapiRequest "/openapi/../admin") =
      .ok "/srv/modules/../admin.openapi.json" := by decide +kernel
  have hparent := (h _ hpath).inDir
  exact absurd hparent (by decide)

end Mik.Runtime
