/-
  The gateway API: which handlers there are, and their OpenAPI documents
  (`src/runtime/gateway/mod.rs`, `discovery.rs`).

  The file system answers through `Host.fs`; `DirReader` is `read_dir` on it. A module is a file of
  a directory whose name ends in `.wasm` after something (`mem_discoverModules_iff`), so a
  directory has one module of a name at most. Handlers carry links: `/run/{name}/`, or
  `/tenant/{tenant}/{name}/`, and where the OpenAPI document of the platform or tenant is.

  Reading a document as text and parsing it is `parseSpec`; logging is left out.
-/
import Mathlib.Data.List.Sort
import Mathlib.Data.String.Basic
import Mik.Gateway.OpenApi
import Mik.Runtime.RequestHandler

namespace Mik.Gateway

open Mik.Lib Mik.Runtime

/-- Listing a directory: the names in it, each once, without `.` and `..`. -/
structure DirReader (fs : String → Option Entry) where
  readDir : String → Option (List String)
  directory : ∀ dir names, readDir dir = some names → fs dir = some .directory
  plain : ∀ dir names, readDir dir = some names → ∀ name ∈ names, Plain name
  nodup : ∀ dir names, readDir dir = some names → names.Nodup

def isFile (fs : String → Option Entry) (path : String) : Bool :=
  match fs path with
  | some (.file _) => true
  | _ => false

def isDir (fs : String → Option Entry) (path : String) : Bool :=
  match fs path with
  | some .directory => true
  | _ => false

/-- The length that `metadata` gives, or 0. -/
def fileSize (fs : String → Option Entry) (path : String) : Nat :=
  match fs path with
  | some (.file bytes) => bytes.length
  | _ => 0

/-! ## Discovery -/

structure DiscoveredModule where
  name : String
  wasmPath : String
  sizeBytes : Nat
  openapiPath : Option String
  tenantId : Option String
  deriving DecidableEq, Repr

structure DiscoveredTenant where
  id : String
  path : String
  moduleCount : Nat
  deriving DecidableEq, Repr

/-- `sort_by` on a text of each element; the sort is stable. -/
def sortByText {α : Type} (text : α → String) (l : List α) : List α :=
  l.insertionSort fun a b => text a ≤ text b

section

variable (fs : String → Option Entry) (dirs : DirReader fs)

/-- One round of the loop of `discover_modules`. -/
def discoverEntry (dir : String) (tenantId : Option String) (entry : String) :
    Option DiscoveredModule :=
  let path := join dir entry
  if isFile fs path then
    if extension path = some "wasm" then
      match fileStem path with
      | none => none
      | some name =>
        let openapiPath := join dir (name ++ ".openapi.json")
        some {
          name
          wasmPath := path
          sizeBytes := fileSize fs path
          openapiPath := if isFile fs openapiPath then some openapiPath else none
          tenantId }
    else none
  else none

def discoverModules (dir : String) (tenantId : Option String) : List DiscoveredModule :=
  match dirs.readDir dir with
  | none => []
  | some entries =>
    sortByText DiscoveredModule.name (entries.filterMap (discoverEntry fs dir tenantId))

/-- One round of the loop of `discover_tenants`. -/
def discoverTenant (userModulesDir entry : String) : Option DiscoveredTenant :=
  let path := join userModulesDir entry
  if isDir fs path then
    match fileName path with
    | none => none
    | some id => some ⟨id, path, (discoverModules fs dirs path (some id)).length⟩
  else none

def discoverTenants (userModulesDir : String) : List DiscoveredTenant :=
  if (fs userModulesDir).isNone then []
  else
    match dirs.readDir userModulesDir with
    | none => []
    | some entries =>
      sortByText DiscoveredTenant.id (entries.filterMap (discoverTenant fs dirs userModulesDir))

/-- The modules of the platform, and those of all tenants. -/
def discoverAllModules (modulesDir : String) (userModulesDir : Option String) :
    List DiscoveredModule × List DiscoveredModule :=
  (discoverModules fs dirs modulesDir none,
    match userModulesDir with
    | none => []
    | some dir =>
      (discoverTenants fs dirs dir).flatMap fun tenant =>
        discoverModules fs dirs tenant.path (some tenant.id))

end

/-! ## The list of handlers -/

structure HandlerAttributes where
  name : String
  sizeBytes : Nat
  hasOpenapi : Bool
  tenantId : Option String
  deriving DecidableEq, Repr

structure HandlerLinks where
  selfLink : String
  openapi : Option String
  deriving DecidableEq, Repr

structure HandlerInfo where
  id : String
  handlerType : String
  attributes : HandlerAttributes
  links : HandlerLinks
  deriving DecidableEq, Repr

structure HandlersMetadata where
  total : Nat
  platformCount : Nat
  tenantCount : Nat
  timestamp : String
  deriving DecidableEq, Repr

structure HandlersResponse where
  data : List HandlerInfo
  metadata : HandlersMetadata
  deriving DecidableEq, Repr

def platformHandler (module : DiscoveredModule) : HandlerInfo where
  id := module.name
  handlerType := "wasm"
  attributes := ⟨module.name, module.sizeBytes, module.openapiPath.isSome, none⟩
  links := ⟨"/run/" ++ module.name ++ "/",
    module.openapiPath.map fun _ => "/_mik/openapi/platform"⟩

def tenantHandler (module : DiscoveredModule) : HandlerInfo :=
  let tid := module.tenantId.getD ""
  { id := tid ++ "/" ++ module.name
    handlerType := "wasm"
    attributes := ⟨module.name, module.sizeBytes, module.openapiPath.isSome, some tid⟩
    links := ⟨"/tenant/" ++ tid ++ "/" ++ module.name ++ "/",
      module.openapiPath.map fun _ => "/_mik/openapi/tenant/" ++ tid⟩ }

/-! ## The endpoints -/

structure ErrorResponse where
  error : String
  message : String
  requestId : Option String
  deriving DecidableEq, Repr

def ErrorResponse.notFound (message : String) : ErrorResponse := ⟨"not_found", message, none⟩

/-- What a reply serialises; its content type is always `application/json`. -/
inductive GatewayBody where
  | handlers (response : HandlersResponse)
  | spec (document : Json)
  | error (response : ErrorResponse)

structure GatewayReply where
  status : Nat
  body : GatewayBody

def jsonError (status : Nat) (error : ErrorResponse) : GatewayReply := ⟨status, .error error⟩

section

variable {Comp : Type} (host : Host Comp) (dirs : DirReader host.fs)
  (parseSpec : Bytes → Option Json) (timestamp : String)

/-- What `handle_handlers` serialises. -/
def handlersResponse : HandlersResponse :=
  let discovered := discoverAllModules host.fs dirs host.modulesDir host.userModulesDir
  let platformCount := discovered.1.length
  let tenantCount := discovered.2.length
  { data := discovered.1.map platformHandler ++ discovered.2.map tenantHandler
    metadata := ⟨platformCount + tenantCount, platformCount, tenantCount, timestamp⟩ }

def handleHandlers : GatewayReply := ⟨200, .handlers (handlersResponse host dirs timestamp)⟩

def readOpenapiSpec (path : String) : Option Json :=
  match host.fs path with
  | some (.file bytes) => parseSpec bytes
  | _ => none

/-- The documents of the modules that have one that can be read. -/
def moduleSpecs (modules : List DiscoveredModule) : List (String × Json) :=
  modules.filterMap fun m =>
    m.openapiPath.bind fun path => (readOpenapiSpec host parseSpec path).map fun spec =>
      (m.name, spec)

def aggregatePlatformSpec : Json :=
  aggregateSpecs "Platform API"
    (moduleSpecs host parseSpec (discoverModules host.fs dirs host.modulesDir none)) "/run"

def aggregateTenantSpec (userModulesDir tenantId : String) : Option Json :=
  let tenantDir := join userModulesDir tenantId
  if isDir host.fs tenantDir then
    some (aggregateSpecs ("Tenant " ++ tenantId ++ " API")
      (moduleSpecs host parseSpec (discoverModules host.fs dirs tenantDir (some tenantId))) "")
  else none

/-- The characters a tenant ID may have here. -/
def tenantIdChar (c : Char) : Bool := c.isAlphanum || c == '-' || c == '_'

def handleTenantOpenapi (tenantId : String) : GatewayReply :=
  if tenantId = "" then jsonError 400 ⟨"invalid_request", "Tenant ID is required", none⟩
  else if !tenantId.toList.all tenantIdChar then
    jsonError 400 ⟨"invalid_request", "Invalid tenant ID format", none⟩
  else
    let spec :=
      match host.userModulesDir with
      | some dir =>
        if isDir host.fs dir then aggregateTenantSpec host dirs parseSpec dir tenantId else none
      | none => none
    match spec with
    | some s => ⟨200, .spec s⟩
    | none => jsonError 404 (.notFound ("Tenant not found: " ++ tenantId))

def handleGatewayRequest (path : String) : GatewayReply :=
  match stripPrefix "/_mik/" path with
  | none => jsonError 404 (.notFound "Invalid gateway API path")
  | some apiPath =>
    if apiPath = "handlers" then handleHandlers host dirs timestamp
    else if apiPath = "openapi/platform" then
      ⟨200, .spec (aggregatePlatformSpec host dirs parseSpec)⟩
    else
      match stripPrefix "openapi/tenant/" apiPath with
      | some tenantId => handleTenantOpenapi host dirs parseSpec tenantId
      | none => jsonError 404 (.notFound ("Unknown gateway endpoint: " ++ apiPath))

end

/-! ## What is discovered -/

/-- The module of a name in a directory. -/
def moduleAt (fs : String → Option Entry) (dir : String) (tenantId : Option String)
    (name : String) : DiscoveredModule where
  name
  wasmPath := join dir (name ++ ".wasm")
  sizeBytes := fileSize fs (join dir (name ++ ".wasm"))
  openapiPath :=
    if isFile fs (join dir (name ++ ".openapi.json")) then
      some (join dir (name ++ ".openapi.json"))
    else none
  tenantId

theorem sortByText_perm {α : Type} (text : α → String) (l : List α) :
    (sortByText text l).Perm l := List.perm_insertionSort _ l

section

variable {fs : String → Option Entry}

theorem wasm_name (name : String) : name ++ "." ++ "wasm" = name ++ ".wasm" := by
  rw [String.append_assoc]
  rfl

/-- An entry is a module when it is a file named `{name}.wasm`. -/
theorem discoverEntry_eq_some_iff {dir entry : String} {tenantId : Option String}
    (hentry : Plain entry) {m : DiscoveredModule} :
    discoverEntry fs dir tenantId entry = some m ↔
      entry = m.name ++ ".wasm" ∧ m.name ≠ "" ∧ isFile fs (join dir entry) = true ∧
        m = moduleAt fs dir tenantId m.name := by
  have hname := fileName_join dir hentry
  unfold discoverEntry extension fileStem
  dsimp only
  rw [hname, Option.bind_some, Option.map_some]
  constructor
  · intro h
    split at h
    · next hfile =>
      split at h
      · next hext =>
        obtain ⟨heq, hstem, -⟩ := splitExtension_eq_iff.mp
          (Prod.ext rfl hext : splitExtension entry = ((splitExtension entry).1, some "wasm"))
        have hm := Option.some.inj h
        have hmname : m.name = (splitExtension entry).1 := by rw [← hm]
        have hwasm : entry = m.name ++ ".wasm" := by
          rw [hmname]
          exact heq.trans (wasm_name _)
        refine ⟨hwasm, hmname ▸ hstem, hfile, ?_⟩
        rw [hmname, ← hm]
        unfold moduleAt
        rw [← hmname, ← hwasm]
      · cases h
    · cases h
  · intro ⟨heq, hne, hfile, hm⟩
    have hsplit : splitExtension entry = (m.name, some "wasm") :=
      splitExtension_eq_iff.mpr ⟨heq.trans (wasm_name _).symm, hne, by decide⟩
    rw [if_pos hfile, hsplit, if_pos rfl]
    conv_rhs => rw [hm]
    unfold moduleAt
    rw [← heq]

theorem mem_discoverModules {dirs : DirReader fs} {dir : String} {tenantId : Option String}
    {m : DiscoveredModule} (h : m ∈ discoverModules fs dirs dir tenantId) :
    Plain (m.name ++ ".wasm") ∧ m.name ≠ "" ∧ m = moduleAt fs dir tenantId m.name := by
  unfold discoverModules at h
  split at h
  · cases h
  · next entries hread =>
    obtain ⟨entry, hentry, hm⟩ := List.mem_filterMap.mp ((sortByText_perm _ _).mem_iff.mp h)
    have hplain := dirs.plain dir entries hread entry hentry
    obtain ⟨heq, hne, -, hmodule⟩ := (discoverEntry_eq_some_iff hplain).mp hm
    exact ⟨heq ▸ hplain, hne, hmodule⟩

/-- A directory has one module of a name. -/
theorem nodup_discoverModules (dirs : DirReader fs) (dir : String) (tenantId : Option String) :
    ((discoverModules fs dirs dir tenantId).map DiscoveredModule.name).Nodup := by
  unfold discoverModules
  split
  · exact List.nodup_nil
  · next entries hread =>
    rw [((sortByText_perm _ _).map _).nodup_iff, List.Nodup, List.pairwise_map,
      List.pairwise_filterMap]
    refine (dirs.nodup dir entries hread).imp_of_mem fun {entry entry'} hmem hmem' hne => ?_
    intro m hm m' hm' hname
    obtain ⟨heq, -⟩ := (discoverEntry_eq_some_iff (dirs.plain dir entries hread entry hmem)).mp hm
    obtain ⟨heq', -⟩ :=
      (discoverEntry_eq_some_iff (dirs.plain dir entries hread entry' hmem')).mp hm'
    exact hne (by rw [heq, heq', hname])

theorem discoverTenant_eq_some_iff {dirs : DirReader fs} {dir entry : String}
    (hentry : Plain entry) {t : DiscoveredTenant} :
    discoverTenant fs dirs dir entry = some t ↔
      isDir fs (join dir entry) = true ∧
        t = ⟨entry, join dir entry,
          (discoverModules fs dirs (join dir entry) (some entry)).length⟩ := by
  unfold discoverTenant
  dsimp only
  rw [fileName_join dir hentry]
  split
  · next hdir => exact ⟨fun h => ⟨hdir, (Option.some.inj h).symm⟩, fun h => congrArg some h.2.symm⟩
  · next hdir => exact ⟨fun h => (by cases h), fun h => absurd h.1 hdir⟩

theorem mem_discoverTenants {dirs : DirReader fs} {dir : String} {t : DiscoveredTenant}
    (h : t ∈ discoverTenants fs dirs dir) :
    Plain t.id ∧ t.path = join dir t.id ∧ isDir fs t.path = true ∧ isDir fs dir = true := by
  unfold discoverTenants at h
  split at h
  · cases h
  split at h
  · cases h
  · next entries hread =>
    obtain ⟨entry, hentry, ht⟩ := List.mem_filterMap.mp ((sortByText_perm _ _).mem_iff.mp h)
    have hplain := dirs.plain dir entries hread entry hentry
    obtain ⟨hdir, rfl⟩ := (discoverTenant_eq_some_iff hplain).mp ht
    refine ⟨hplain, rfl, hdir, ?_⟩
    unfold isDir
    rw [dirs.directory dir entries hread]

/-- A tenant is listed once. -/
theorem nodup_discoverTenants (dirs : DirReader fs) (dir : String) :
    ((discoverTenants fs dirs dir).map DiscoveredTenant.id).Nodup := by
  unfold discoverTenants
  split
  · exact List.nodup_nil
  split
  · exact List.nodup_nil
  · next entries hread =>
    rw [((sortByText_perm _ _).map _).nodup_iff, List.Nodup, List.pairwise_map,
      List.pairwise_filterMap]
    refine (dirs.nodup dir entries hread).imp_of_mem fun {entry entry'} hmem hmem' hne => ?_
    intro t ht t' ht' hid
    obtain ⟨-, rfl⟩ := (discoverTenant_eq_some_iff (dirs.plain dir entries hread entry hmem)).mp ht
    obtain ⟨-, rfl⟩ :=
      (discoverTenant_eq_some_iff (dirs.plain dir entries hread entry' hmem')).mp ht'
    exact hne hid

/-- A module of a tenant, with the tenant it is of. -/
theorem mem_tenantModules_iff {dirs : DirReader fs} {modulesDir : String}
    {userModulesDir : Option String} {m : DiscoveredModule} :
    m ∈ (discoverAllModules fs dirs modulesDir userModulesDir).2 ↔
      ∃ dir, userModulesDir = some dir ∧ ∃ t ∈ discoverTenants fs dirs dir,
        m ∈ discoverModules fs dirs t.path (some t.id) := by
  unfold discoverAllModules
  cases userModulesDir with
  | none => exact ⟨fun h => (by cases h), fun ⟨_, h, _⟩ => (by cases h)⟩
  | some dir =>
    rw [List.mem_flatMap]
    exact ⟨fun h => ⟨dir, rfl, h⟩, fun ⟨_, heq, h⟩ => Option.some.inj heq ▸ h⟩

end

end Mik.Gateway
