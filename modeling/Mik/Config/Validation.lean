/-
  The validation of a manifest (`manifest/validation.rs`), and loading one (`manifest/mod.rs`).

  What the code asks of other crates and of the file system is an `Env`: `validVersion` is
  `semver::Version::parse(..).is_ok()`, `parseUrl` is `url::Url::parse` as far as it is looked at
  (the scheme, and whether there is a host), and the two questions about paths are `Path::exists`
  and `Path::is_dir`. `accepts_iff` states what a manifest that validates satisfies.
-/
import Mathlib.Data.List.Infix
import Mik.Config.Manifest
import Mik.Lib.UnixPath

namespace Mik.Config

open Mik.Lib

structure Env where
  validVersion : String → Bool
  parseUrl : String → Option (String × Bool)
  pathExists : String → Bool
  isDir : String → Bool

inductive ValidationError where
  | emptyProjectName
  | invalidProjectName (name : String)
  | emptyVersion
  | invalidVersion (version : String)
  | invalidPort
  | emptyModulesDir
  | dependencyError (message : String)
  deriving DecidableEq, Repr

/-- The `Display` text. -/
def ValidationError.toString : ValidationError → String
  | .emptyProjectName => "Project name is required in [project] section"
  | .invalidProjectName name =>
    "Invalid project name '" ++ name ++ "'. Names must:\n  " ++
      "- Start with a letter or underscore\n  " ++
      "- Contain only letters, numbers, hyphens, and underscores\n  " ++
      "- Be between 1 and 64 characters\n  " ++
      "Example: 'my-component' or 'my_component'"
  | .emptyVersion => "Project version is required in [project] section"
  | .invalidVersion version =>
    "Invalid version '" ++ version ++
      "'. Version must follow semantic versioning (e.g., '0.1.0', '1.2.3')\n  " ++
      "Format: MAJOR.MINOR.PATCH\n  " ++ "See: https://semver.org/"
  | .invalidPort =>
    "Server port cannot be 0. Use a valid port number (1-65535)\n  " ++
      "Common ports: 3000 (default), 8080, 8000"
  | .emptyModulesDir =>
    "Server modules directory cannot be empty\n  " ++
      "Fix: Set modules = \"modules/\" in [server] section"
  | .dependencyError message => message

/-! ## Names, versions and URLs -/

def isAsciiAlphabetic (c : Char) : Bool := 'a' ≤ c ∧ c ≤ 'z' ∨ 'A' ≤ c ∧ c ≤ 'Z'

def isAsciiAlphanumeric (c : Char) : Bool := isAsciiAlphabetic c || ('0' ≤ c ∧ c ≤ '9' : Bool)

/-- `Manifest::is_valid_name`. -/
def isValidName (name : String) : Bool :=
  if name = "" ∨ 64 < (utf8 name).length then false
  else if containsChar '/' name ∨ containsChar '\\' name ∨ ['.', '.'] <:+: name.toList then false
  else
    match name.toList with
    | [] => false
    | first :: rest =>
      (isAsciiAlphabetic first || first == '_') &&
        rest.all fun c => isAsciiAlphanumeric c || c == '-' || c == '_'

/-- `is_valid_git_url`. -/
def isValidGitUrl (env : Env) (git : String) : Bool :=
  if startsWith "git@" git then
    match splitAtChar ':' git with
    | none => false
    | some (_, rest) => 1 < (utf8 rest).length
  else
    match env.parseUrl git with
    | none => false
    | some (scheme, host) => ["http", "https", "git", "ssh"].contains scheme && host

/-! ## Dependencies -/

/-- A field that is there must not be empty. -/
def checkNotEmpty (field : Option String) (message : String) : Except String Unit :=
  match field with
  | some "" => .error message
  | _ => .ok ()

def validateDetailEmptyFields (name : String) (detail : DependencyDetail) (depType : String) :
    Except String Unit := do
  checkNotEmpty detail.version
    (depType ++ " '" ++ name ++ "' has empty version string\n  " ++
      "Fix: Specify a version like: " ++ name ++ " = \"1.0\"")
  checkNotEmpty detail.git
    (depType ++ " '" ++ name ++ "' has empty git URL\n  " ++
      "Fix: Specify a git URL like: git = \"https://github.com/user/repo.git\"")
  checkNotEmpty detail.path
    (depType ++ " '" ++ name ++ "' has empty path\n  " ++
      "Fix: Specify a path like: path = \"../component.wasm\"")
  checkNotEmpty detail.registry
    (depType ++ " '" ++ name ++ "' has empty registry URL\n  " ++
      "Fix: Specify a registry like: registry = \"ghcr.io/user/component\"")

/-- `is_some_and(|v| !v.is_empty())`. -/
def given (field : Option String) : Bool :=
  match field with
  | some value => value != ""
  | none => false

def validateDependencySources (name : String) (detail : DependencyDetail) (depType : String) :
    Except String Unit :=
  let hasVersion := given detail.version
  let hasGit := given detail.git
  let hasPath := given detail.path
  let hasRegistry := given detail.registry
  match hasVersion, hasGit, hasPath, hasRegistry with
  | true, false, false, _ => .ok ()
  | false, true, false, false => .ok ()
  | false, false, true, false => .ok ()
  | false, false, false, true => .ok ()
  | false, false, false, false =>
    .error (depType ++ " '" ++ name ++ "' must specify at least one source:\n  " ++
      "- version = \"1.0\" (from default registry)\n  " ++
      "- git = \"https://github.com/...\"\n  " ++
      "- path = \"../local/path\"\n  " ++
      "- registry = \"ghcr.io/user/component\" (requires version)")
  | _, _, _, _ =>
    let sources := (if hasVersion then ["version"] else []) ++ (if hasGit then ["git"] else []) ++
      (if hasPath then ["path"] else []) ++ (if hasRegistry then ["registry"] else [])
    if hasRegistry && hasVersion && !hasGit && !hasPath then .ok ()
    else
      .error (depType ++ " '" ++ name ++ "' specifies multiple sources: " ++
        String.intercalate ", " sources ++ "\n  " ++
        "Only one source type is allowed per dependency\n  " ++
        "Note: registry requires both 'registry' and 'version' fields")

def validatePathDependency (env : Env) (name path manifestDir depType : String) :
    Except String Unit :=
  let depPath := join manifestDir path
  if env.pathExists depPath then
    let hasWasmExt := (extension path).any fun e => e.toLower == "wasm"
    if !hasWasmExt && !env.isDir depPath then
      .error (depType ++ " '" ++ name ++ "' path '" ++ path ++
        "' should be a .wasm file or directory\n  " ++
        "Current: " ++ depPath ++ "\n  Expected: " ++ name ++
        ".wasm or a directory containing mik.toml")
    else .ok ()
  else
    .error (depType ++ " '" ++ name ++ "' references non-existent path: " ++ path ++ "\n  " ++
      "Current directory: " ++ manifestDir ++ "\n  Resolved path: " ++ depPath ++ "\n  " ++
      "Fix: Ensure the component file exists or update the path")

def validateGitDependency (env : Env) (name : String) (detail : DependencyDetail)
    (depType : String) : Except String Unit :=
  match detail.git with
  | none => .ok ()
  | some git =>
    if isValidGitUrl env git then
      let gitRefs := (if detail.branch.isSome then ["branch"] else []) ++
        (if detail.tag.isSome then ["tag"] else []) ++ (if detail.rev.isSome then ["rev"] else [])
      if 1 < gitRefs.length then
        .error (depType ++ " '" ++ name ++ "' specifies multiple git refs: " ++
          String.intercalate ", " gitRefs ++ "\n  " ++
          "Only one of branch, tag, or rev is allowed")
      else .ok ()
    else
      .error (depType ++ " '" ++ name ++ "' has invalid git URL: " ++ git ++ "\n  " ++
        "Valid formats:\n  " ++
        "- https://github.com/user/repo.git\n  " ++
        "- git://github.com/user/repo.git\n  " ++
        "- ssh://git@github.com/user/repo.git\n  " ++
        "- git@github.com:user/repo.git")

def validateDependency (env : Env) (name : String) (dep : Dependency) (manifestDir : String)
    (isDev : Bool) : Except String Unit :=
  let depType := if isDev then "dev-dependency" else "dependency"
  if name = "" then
    .error ("Empty " ++ depType ++ " name found. Dependency names must be non-empty")
  else
    match dep with
    | .simple version =>
      checkNotEmpty (some version)
        (depType ++ " '" ++ name ++ "' has empty version string\n  " ++
          "Fix: Specify a version like: " ++ name ++ " = \"1.0\"")
    | .detailed detail => do
      validateDetailEmptyFields name detail depType
      validateDependencySources name detail depType
      match detail.path with
      | some path => validatePathDependency env name path manifestDir depType
      | none => pure ()
      validateGitDependency env name detail depType
      if detail.registry.isSome && !given detail.version then
        .error (depType ++ " '" ++ name ++ "' with registry must specify a version\n  " ++
          "Fix: Add version = \"1.0\" alongside registry")
      else .ok ()

/-! ## The manifest -/

def nameErrors (name : String) : List ValidationError :=
  if name = "" then [.emptyProjectName]
  else if isValidName name then [] else [.invalidProjectName name]

def versionErrors (env : Env) (version : String) : List ValidationError :=
  if version = "" then [.emptyVersion]
  else if env.validVersion version then [] else [.invalidVersion version]

def serverErrors (server : ServerConfig) : List ValidationError :=
  (if server.port = 0 then [.invalidPort] else []) ++
    if server.modules = "" then [.emptyModulesDir] else []

def dependencyErrors (env : Env) (manifestDir : String) (isDev : Bool)
    (deps : Table Dependency) : List ValidationError :=
  deps.entries.filterMap fun entry =>
    match validateDependency env entry.1 entry.2 manifestDir isDev with
    | .ok () => none
    | .error e => some (.dependencyError e)

/-- The errors that `Manifest::validate` collects. -/
def Manifest.errors (env : Env) (manifestPath : String) (m : Manifest) : List ValidationError :=
  let manifestDir := (parent manifestPath).getD "."
  nameErrors m.project.name ++ versionErrors env m.project.version ++ serverErrors m.server ++
    dependencyErrors env manifestDir false m.dependencies ++
    dependencyErrors env manifestDir true m.devDependencies

/-- `Manifest::validate`. -/
def Manifest.validate (env : Env) (manifestPath : String) (m : Manifest) : Except String Unit :=
  match m.errors env manifestPath with
  | [] => .ok ()
  | errors =>
    let errorList := String.intercalate "\n\n"
      (errors.zipIdx.map fun e => "  " ++ (e.2 + 1).repr ++ ". " ++ e.1.toString)
    .error ("Validation failed for " ++ manifestPath ++ ":\n\n" ++ errorList ++ "\n\n" ++
      "Run 'mik new --help' to see valid configuration options.")

/-- `Manifest::load_from`, for a file that holds the document `d`. -/
def Manifest.loadFrom (env : Env) (path : String) (d : Toml) : Except String Manifest :=
  match Manifest.codec.read d with
  | none => .error ("Failed to parse " ++ path)
  | some m => (m.validate env path).map fun _ => m

/-- `Manifest::load`. -/
def Manifest.load (env : Env) (d : Toml) : Except String Manifest := loadFrom env "mik.toml" d

/-! ## What validates -/

theorem validate_ok_iff (env : Env) (path : String) (m : Manifest) :
    m.validate env path = .ok () ↔ m.errors env path = [] := by
  unfold Manifest.validate
  split
  · next h => simp [h]
  · next h =>
    constructor
    · intro hok
      cases hok
    · intro hnil
      exact absurd hnil h

theorem dependencyErrors_eq_nil_iff (env : Env) (manifestDir : String) (isDev : Bool)
    (deps : Table Dependency) :
    dependencyErrors env manifestDir isDev deps = [] ↔
      ∀ name dep, deps.lookup name = some dep →
        validateDependency env name dep manifestDir isDev = .ok () := by
  unfold dependencyErrors
  rw [List.filterMap_eq_nil_iff]
  constructor
  · intro h name dep hlookup
    have hentry := h (name, dep) (Table.lookup_eq_some_iff.mp hlookup)
    dsimp only at hentry
    split at hentry
    · next hok => exact hok
    · cases hentry
  · intro h entry hentry
    rw [h entry.1 entry.2 (Table.lookup_eq_some_iff.mpr hentry)]

/-- What the parts of a manifest other than its dependencies have to satisfy. -/
def HeaderAccepted (env : Env) (m : Manifest) : Prop :=
  nameErrors m.project.name = [] ∧ versionErrors env m.project.version = [] ∧
    serverErrors m.server = []

/-- A manifest validates when its header does, and each dependency by itself. -/
theorem accepts_iff (env : Env) (path : String) (m : Manifest) :
    m.validate env path = .ok () ↔
      HeaderAccepted env m ∧
        (∀ name dep, m.dependencies.lookup name = some dep →
          validateDependency env name dep ((parent path).getD ".") false = .ok ()) ∧
        ∀ name dep, m.devDependencies.lookup name = some dep →
          validateDependency env name dep ((parent path).getD ".") true = .ok () := by
  rw [validate_ok_iff, ← dependencyErrors_eq_nil_iff, ← dependencyErrors_eq_nil_iff]
  unfold Manifest.errors HeaderAccepted
  simp only [List.append_eq_nil_iff, and_assoc]

/-! ## What a dependency has to satisfy -/

theorem bind_ok_iff {ε : Type} {x : Except ε Unit} {f : Unit → Except ε Unit} :
    (x >>= f) = .ok () ↔ x = .ok () ∧ f () = .ok () := by
  cases x with
  | error e => exact ⟨fun h => (by cases h), fun h => (by cases h.1)⟩
  | ok u => exact ⟨fun h => ⟨rfl, h⟩, fun h => h.2⟩

theorem checkNotEmpty_ok_iff (field : Option String) (message : String) :
    checkNotEmpty field message = .ok () ↔ field ≠ some "" := by
  unfold checkNotEmpty
  split
  · exact ⟨fun h => (by cases h), fun h => absurd rfl h⟩
  · next h => exact ⟨fun _ => h, fun _ => rfl⟩

/-- None of the fields that name a source is empty. -/
structure DependencyDetail.NoEmptyField (detail : DependencyDetail) : Prop where
  version : detail.version ≠ some ""
  git : detail.git ≠ some ""
  path : detail.path ≠ some ""
  registry : detail.registry ≠ some ""

/-- A source by itself, or a version with a registry. -/
def DependencyDetail.oneSource (detail : DependencyDetail) : Bool :=
  match given detail.version, given detail.git, given detail.path with
  | true, false, false => true
  | false, true, false => !given detail.registry
  | false, false, true => !given detail.registry
  | false, false, false => given detail.registry
  | _, _, _ => false

theorem emptyFields_ok_iff (name : String) (detail : DependencyDetail) (depType : String) :
    validateDetailEmptyFields name detail depType = .ok () ↔ detail.NoEmptyField := by
  unfold validateDetailEmptyFields
  rw [bind_ok_iff, bind_ok_iff, bind_ok_iff, checkNotEmpty_ok_iff, checkNotEmpty_ok_iff,
    checkNotEmpty_ok_iff, checkNotEmpty_ok_iff]
  exact ⟨fun ⟨h1, h2, h3, h4⟩ => ⟨h1, h2, h3, h4⟩, fun ⟨h1, h2, h3, h4⟩ => ⟨h1, h2, h3, h4⟩⟩

theorem sources_ok_iff (name : String) (detail : DependencyDetail) (depType : String) :
    validateDependencySources name detail depType = .ok () ↔ detail.oneSource = true := by
  unfold validateDependencySources DependencyDetail.oneSource
  cases given detail.version <;> cases given detail.git <;> cases given detail.path <;>
    cases given detail.registry <;> simp

/-- What a local path has to satisfy. -/
def PathAccepted (env : Env) (manifestDir path : String) : Prop :=
  env.pathExists (join manifestDir path) = true ∧
    ((extension path).any (fun e => e.toLower == "wasm") = true ∨
      env.isDir (join manifestDir path) = true)

theorem path_ok_iff (env : Env) (name path manifestDir depType : String) :
    validatePathDependency env name path manifestDir depType = .ok () ↔
      PathAccepted env manifestDir path := by
  unfold validatePathDependency PathAccepted
  dsimp only
  cases hexists : env.pathExists (join manifestDir path) with
  | false =>
    rw [if_neg Bool.false_ne_true]
    exact ⟨fun h => (by cases h), fun h => absurd h.1 Bool.false_ne_true⟩
  | true =>
    cases (extension path).any (fun e => e.toLower == "wasm") <;>
      cases env.isDir (join manifestDir path) <;> simp

/-- The refs that a detail gives. -/
def DependencyDetail.refs (detail : DependencyDetail) : Nat :=
  detail.branch.isSome.toNat + detail.tag.isSome.toNat + detail.rev.isSome.toNat

theorem git_ok_iff (env : Env) (name : String) (detail : DependencyDetail) (depType : String) :
    validateGitDependency env name detail depType = .ok () ↔
      ∀ url, detail.git = some url → isValidGitUrl env url = true ∧ detail.refs ≤ 1 := by
  unfold validateGitDependency DependencyDetail.refs
  cases detail.git with
  | none => simp
  | some url =>
    cases hvalid : isValidGitUrl env url with
    | false => simp [hvalid]
    | true =>
      cases detail.branch.isSome <;> cases detail.tag.isSome <;> cases detail.rev.isSome <;>
        simp [hvalid]

/-- What a detailed dependency has to satisfy. -/
structure DetailAccepted (env : Env) (manifestDir name : String) (detail : DependencyDetail) :
    Prop where
  named : name ≠ ""
  fields : detail.NoEmptyField
  source : detail.oneSource = true
  path : ∀ path, detail.path = some path → PathAccepted env manifestDir path
  git : ∀ url, detail.git = some url → isValidGitUrl env url = true ∧ detail.refs ≤ 1
  registry : detail.registry.isSome = true → given detail.version = true

theorem detailed_ok_iff (env : Env) (name : String) (detail : DependencyDetail)
    (manifestDir : String) (isDev : Bool) :
    validateDependency env name (.detailed detail) manifestDir isDev = .ok () ↔
      DetailAccepted env manifestDir name detail := by
  unfold validateDependency
  dsimp only
  by_cases hname : name = ""
  · rw [if_pos hname]
    exact ⟨fun h => (by cases h), fun h => absurd hname h.named⟩
  rw [if_neg hname, bind_ok_iff, bind_ok_iff, emptyFields_ok_iff, sources_ok_iff]
  have hregistry : (if detail.registry.isSome && !given detail.version then
        Except.error ((if isDev then "dev-dependency" else "dependency") ++ " '" ++ name ++
          "' with registry must specify a version\n  " ++
          "Fix: Add version = \"1.0\" alongside registry")
      else .ok ()) = .ok () ↔ (detail.registry.isSome = true → given detail.version = true) := by
    cases detail.registry.isSome <;> cases given detail.version <;> simp
  cases hpath : detail.path with
  | none =>
    dsimp only
    rw [bind_ok_iff, git_ok_iff, hregistry]
    constructor
    · intro ⟨h1, h2, h3, h4⟩
      exact ⟨hname, h1, h2, fun path h => (by rw [hpath] at h; cases h), h3, h4⟩
    · intro h
      exact ⟨h.fields, h.source, h.git, h.registry⟩
  | some path =>
    dsimp only
    rw [bind_ok_iff, bind_ok_iff, path_ok_iff, git_ok_iff, hregistry]
    constructor
    · intro ⟨h1, h2, h3, h4, h5⟩
      refine ⟨hname, h1, h2, fun path' h => ?_, h4, h5⟩
      rw [hpath] at h
      cases h
      exact h3
    · intro h
      exact ⟨h.fields, h.source, h.path path hpath, h.git, h.registry⟩

end Mik.Config
