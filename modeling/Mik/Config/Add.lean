/-
  `mik add` (`commands/add.rs`): a dependency is made from the package and the flags, inserted in
  the manifest, and the file is saved and synced.

  The command writes one of four kinds of source, and the validation asks for more than it writes:
  a URL and an OCI reference become a `registry` without a `version`, which
  `validate_dependency_sources` lists as a source of its own and the end of `validate_dependency`
  refuses. What is left are the flags (`add_keeps_valid_iff`).
-/
import Mik.Config.Sync

namespace Mik.Config

open Mik.Lib

structure Flags where
  git : Option String := none
  path : Option String := none
  tag : Option String := none
  branch : Option String := none

/-- `extract_name_from_url`. -/
def extractNameFromUrl (url : String) : Option String :=
  let name := trimEndMatches ".wasm" (lastPiece '/' url)
  if name = "" then none else some name

/-- `split_tag`: the last colon counts, after the last slash. -/
def splitTag (spec : String) : String × Option String :=
  match rsplitOnce '/' spec with
  | some (before, last) =>
    match rsplitOnce ':' last with
    | some (piece, tag) => (before ++ "/" ++ piece, some tag)
    | none => (spec, none)
  | none =>
    match rsplitOnce ':' spec with
    | some (piece, tag) => (piece, some tag)
    | none => (spec, none)

/-- A full reference names its registry: there is a dot before the first slash. -/
def isFullRef (spec : String) : Bool :=
  (splitOnce '/' spec).any fun parts => containsChar '.' parts.1

def parseOciReference (spec : String) (explicitTag : Option String) :
    Except String (String × String) := do
  let (registry, path, tag) ←
    if isFullRef spec then
      let (refWithoutTag, tag) := splitTag spec
      match splitOnce '/' refWithoutTag with
      | none => .error "Invalid OCI reference: missing path separator"
      | some (registry, path) => .ok (registry, path, tag)
    else
      let (path, tag) := splitTag spec
      .ok ("ghcr.io", path, tag)
  let finalTag := explicitTag.getD (tag.getD "latest")
  let name := lastPiece '/' path
  let fullRef := registry ++ "/" ++ path ++ ":" ++ finalTag
  return (name, fullRef)

/-- The name and the dependency of a `--git` flag. -/
def gitName (package gitUrl : String) : String := (extractNameFromUrl gitUrl).getD package

def gitDependency (gitUrl : String) (flags : Flags) : Dependency :=
  .detailed { git := some gitUrl, tag := flags.tag, branch := flags.branch }

def parseAndCreateDep (package : String) (flags : Flags) : Except String (String × Dependency) :=
  match flags.git with
  | some gitUrl => .ok (gitName package gitUrl, gitDependency gitUrl flags)
  | none =>
    match flags.path with
    | some localPath =>
      .ok ((fileName localPath).getD package, .detailed { path := some localPath })
    | none =>
      if startsWith "http://" package || startsWith "https://" package then
        match extractNameFromUrl package with
        | none => .error ("Could not extract name from URL: " ++ package)
        | some name => .ok (name, .detailed { registry := some package })
      else if containsChar '/' package then do
        let (name, ociRef) ← parseOciReference package flags.tag
        return (name, .detailed { registry := some ociRef })
      else
        .error ("Invalid package '" ++ package ++ "'. Use one of:\n  " ++
          "mik add user/repo              # OCI (ghcr.io/user/repo:latest)\n  " ++
          "mik add user/repo:v1.0         # OCI with tag\n  " ++
          "mik add ghcr.io/user/repo:tag  # Full OCI reference\n  " ++
          "mik add https://host/pkg.wasm  # HTTP URL\n  " ++
          "mik add pkg --path ../pkg      # Local path\n  " ++
          "mik add pkg --git <url>        # Git repository")

/-- The manifest with the dependencies of these packages, or the error of the first one that has
    none. -/
def Manifest.addAll (m : Manifest) (flags : Flags) (isDev : Bool) :
    List String → Except String Manifest
  | [] => .ok m
  | package :: packages => do
    let (name, dep) ← parseAndCreateDep package flags
    (m.edit (.insert isDev name dep)).addAll flags isDev packages

/-- `add::execute`: the file that is left, and what the sync at the end attempts to pull. -/
def execute (env : Env) (modules : ModulesDir) (d : Toml) (packages : List String) (flags : Flags)
    (isDev : Bool) : Except String (Toml × Option (List (String × Dependency))) := do
  if packages = [] then .error "No packages specified"
  else
    match Manifest.load env d with
    | .error _ => .error "No mik.toml found. Run 'mik init' first."
    | .ok m => do
      let m' ← m.addAll flags isDev packages
      return (m'.save, sync env modules m'.save)

/-! ## Inserting one dependency -/

/-- A manifest that validates still does with one more dependency, if that one does. -/
theorem validate_insert_iff {env : Env} {m : Manifest} (hm : m.validate env "mik.toml" = .ok ())
    (isDev : Bool) (name : String) (dep : Dependency) :
    (m.edit (.insert isDev name dep)).validate env "mik.toml" = .ok () ↔
      validateDependency env name dep "" isDev = .ok () := by
  have hdir : (parent "mik.toml").getD "." = "" := by decide
  obtain ⟨hheader, hdeps, hdevs⟩ := (accepts_iff env "mik.toml" m).mp hm
  rw [accepts_iff]
  rw [hdir] at hdeps hdevs ⊢
  cases isDev with
  | false =>
    constructor
    · rintro ⟨-, hnew, -⟩
      exact hnew name dep (by rw [Manifest.edit, Table.lookup_insert, if_pos rfl])
    · intro hdep
      refine ⟨hheader, fun name' dep' h => ?_, hdevs⟩
      rw [Manifest.edit, Table.lookup_insert] at h
      split at h
      · next heq =>
        cases h
        rw [heq]
        exact hdep
      · exact hdeps name' dep' h
  | true =>
    constructor
    · rintro ⟨-, -, hnew⟩
      exact hnew name dep (by rw [Manifest.edit, Table.lookup_insert, if_pos rfl])
    · intro hdep
      refine ⟨hheader, hdeps, fun name' dep' h => ?_⟩
      rw [Manifest.edit, Table.lookup_insert] at h
      split at h
      · next heq =>
        cases h
        rw [heq]
        exact hdep
      · exact hdevs name' dep' h

/-- The dependency is among those that are pulled, when it is in the first table. -/
theorem lookup_inserted_iff (m : Manifest) (isDev : Bool) (name : String) (dep : Dependency) :
    (m.edit (.insert isDev name dep)).dependencies.lookup name = some dep ↔
      isDev = false ∨ m.dependencies.lookup name = some dep := by
  cases isDev with
  | false =>
    rw [Manifest.edit, Table.lookup_insert, if_pos rfl]
    exact ⟨fun _ => Or.inl rfl, fun _ => rfl⟩
  | true => exact ⟨Or.inr, fun h => h.resolve_left Bool.true_eq_false.mp⟩

/-! ## The dependencies that are made -/

theorem extractNameFromUrl_ne_empty {url name : String} (h : extractNameFromUrl url = some name) :
    name ≠ "" := by
  unfold extractNameFromUrl at h
  dsimp only at h
  split at h
  · cases h
  · next hne => exact Option.some.inj h ▸ hne

/-- A `--git` flag decides the name and the dependency. -/
theorem parse_of_git {package name gitUrl : String} {flags : Flags} {dep : Dependency}
    (hgit : flags.git = some gitUrl) (h : parseAndCreateDep package flags = .ok (name, dep)) :
    name = gitName package gitUrl ∧ dep = gitDependency gitUrl flags := by
  unfold parseAndCreateDep at h
  rw [hgit] at h
  obtain ⟨hname, hdep⟩ := Prod.mk.inj (Except.ok.inj h)
  exact ⟨hname.symm, hdep.symm⟩

/-- Without it, a `--path` flag does. -/
theorem parse_of_path {package name path : String} {flags : Flags} {dep : Dependency}
    (hgit : flags.git = none) (hpath : flags.path = some path)
    (h : parseAndCreateDep package flags = .ok (name, dep)) :
    name = (fileName path).getD package ∧ dep = .detailed { path := some path } := by
  unfold parseAndCreateDep at h
  rw [hgit, hpath] at h
  obtain ⟨hname, hdep⟩ := Prod.mk.inj (Except.ok.inj h)
  exact ⟨hname.symm, hdep.symm⟩

theorem fileName_ne_empty {path name : String} (h : fileName path = some name) : name ≠ "" := by
  unfold fileName at h
  split at h
  · next last hlast =>
    cases h
    exact (plain_of_mem_components (List.mem_of_getLast? hlast)).nonempty
  · cases h

/-- A name with a fallback is empty only when the fallback is used, and is. -/
theorem getD_ne_empty_iff {found : Option String} (hfound : ∀ name, found = some name → name ≠ "")
    (package : String) : found.getD package ≠ "" ↔ found.isSome = true ∨ package ≠ "" := by
  cases found with
  | none => simp
  | some name => exact ⟨fun _ => Or.inl rfl, fun _ => hfound name rfl⟩

/-- A package without flags becomes a registry reference. -/
theorem dep_of_package {package name : String} {flags : Flags} {dep : Dependency}
    (hgit : flags.git = none) (hpath : flags.path = none)
    (h : parseAndCreateDep package flags = .ok (name, dep)) :
    ∃ reg, dep = .detailed { registry := some reg } := by
  unfold parseAndCreateDep at h
  rw [hgit, hpath] at h
  dsimp only at h
  split at h
  · split at h
    · cases h
    · cases h
      exact ⟨package, rfl⟩
  split at h
  · cases hparse : parseOciReference package flags.tag with
    | error e =>
      rw [hparse] at h
      cases h
    | ok result =>
      rw [hparse] at h
      cases h
      exact ⟨result.2, rfl⟩
  · cases h

/-- A registry reference alone is refused. -/
theorem registry_refused (env : Env) (manifestDir name reg : String) :
    ¬ DetailAccepted env manifestDir name { registry := some reg } :=
  fun h => absurd (h.registry rfl) Bool.false_ne_true

/-- The values of `--git` that give a dependency that validates. -/
def GitAccepted (env : Env) (package gitUrl : String) (flags : Flags) : Prop :=
  gitUrl ≠ "" ∧ isValidGitUrl env gitUrl = true ∧
    ((extractNameFromUrl gitUrl).isSome = true ∨ package ≠ "") ∧
    ¬ (flags.tag.isSome = true ∧ flags.branch.isSome = true)

/-- The values of `--path` that do. -/
def LocalAccepted (env : Env) (package path : String) : Prop :=
  path ≠ "" ∧ PathAccepted env "" path ∧ ((fileName path).isSome = true ∨ package ≠ "")

/-- A package with these flags gives a dependency that validates; without them, none does. -/
def FlagsAccepted (env : Env) (package : String) (flags : Flags) : Prop :=
  match flags.git, flags.path with
  | some gitUrl, _ => GitAccepted env package gitUrl flags
  | none, some path => LocalAccepted env package path
  | none, none => False

theorem given_some (value : String) : given (some value) = true ↔ value ≠ "" := by
  unfold given
  exact bne_iff_ne

theorem gitDetail_accepted_iff (env : Env) (name gitUrl : String) (flags : Flags) :
    DetailAccepted env "" name { git := some gitUrl, tag := flags.tag, branch := flags.branch } ↔
      name ≠ "" ∧ gitUrl ≠ "" ∧ isValidGitUrl env gitUrl = true ∧
        ¬ (flags.tag.isSome = true ∧ flags.branch.isSome = true) := by
  have hrefs : ({ git := some gitUrl, tag := flags.tag, branch := flags.branch } :
      DependencyDetail).refs ≤ 1 ↔ ¬ (flags.tag.isSome = true ∧ flags.branch.isSome = true) := by
    unfold DependencyDetail.refs
    cases flags.tag.isSome <;> cases flags.branch.isSome <;> simp
  constructor
  · intro h
    obtain ⟨hvalid, hone⟩ := h.git gitUrl rfl
    exact ⟨h.named, fun heq => h.fields.git (congrArg some heq), hvalid, hrefs.mp hone⟩
  · intro ⟨hname, hurl, hvalid, hone⟩
    refine ⟨hname, ⟨nofun, fun h => hurl (Option.some.inj h), nofun, nofun⟩, ?_, nofun, ?_, nofun⟩
    · unfold DependencyDetail.oneSource
      rw [(given_some gitUrl).mpr hurl]
      rfl
    · intro url heq
      cases heq
      exact ⟨hvalid, hrefs.mpr hone⟩

theorem pathDetail_accepted_iff (env : Env) (name path : String) :
    DetailAccepted env "" name { path := some path } ↔
      name ≠ "" ∧ path ≠ "" ∧ PathAccepted env "" path := by
  constructor
  · intro h
    exact ⟨h.named, fun heq => h.fields.path (congrArg some heq), h.path path rfl⟩
  · intro ⟨hname, hpath, haccepted⟩
    refine ⟨hname, ⟨nofun, nofun, fun h => hpath (Option.some.inj h), nofun⟩, ?_, ?_, nofun, nofun⟩
    · unfold DependencyDetail.oneSource
      rw [(given_some path).mpr hpath]
      rfl
    · intro path' heq
      cases heq
      exact haccepted

/-- What `mik add` inserts validates exactly with the flags that do. -/
theorem validate_parsed_iff (env : Env) {package name : String} {flags : Flags} {dep : Dependency}
    (h : parseAndCreateDep package flags = .ok (name, dep)) (isDev : Bool) :
    validateDependency env name dep "" isDev = .ok () ↔ FlagsAccepted env package flags := by
  unfold FlagsAccepted
  cases hgit : flags.git with
  | some gitUrl =>
    obtain ⟨hname, hdep⟩ := parse_of_git hgit h
    rw [hname, hdep, gitDependency, detailed_ok_iff, gitDetail_accepted_iff, gitName,
      getD_ne_empty_iff fun _ => extractNameFromUrl_ne_empty]
    exact ⟨fun ⟨hnamed, hurl, hvalid, hone⟩ => ⟨hurl, hvalid, hnamed, hone⟩,
      fun ⟨hurl, hvalid, hnamed, hone⟩ => ⟨hnamed, hurl, hvalid, hone⟩⟩
  | none =>
    cases hpath : flags.path with
    | some path =>
      obtain ⟨hname, hdep⟩ := parse_of_path hgit hpath h
      rw [hname, hdep, detailed_ok_iff, pathDetail_accepted_iff,
        getD_ne_empty_iff fun _ => fileName_ne_empty]
      exact ⟨fun ⟨hnamed, hpath, haccepted⟩ => ⟨hpath, haccepted, hnamed⟩,
        fun ⟨hpath, haccepted, hnamed⟩ => ⟨hnamed, hpath, haccepted⟩⟩
    | none =>
      obtain ⟨reg, rfl⟩ := dep_of_package hgit hpath h
      rw [detailed_ok_iff]
      exact ⟨registry_refused env "" name reg, False.elim⟩

/-! ## `mik add` and the sync that follows -/

/-- For every manifest that validates and every package that is accepted: the manifest with the new
    dependency validates again exactly when the dependency comes from the flags that `FlagsAccepted`
    names; and it does, and the sync that follows attempts to pull it, exactly for a `--git`
    dependency of the first table whose module is not there. -/
theorem add_keeps_valid_iff (env : Env) (modules : ModulesDir) (m : Manifest) (package : String)
    (flags : Flags) (isDev : Bool) (name : String) (dep : Dependency)
    (hm : m.validate env "mik.toml" = .ok ())
    (hadd : parseAndCreateDep package flags = .ok (name, dep)) :
    ((m.edit (.insert isDev name dep)).validate env "mik.toml" = .ok () ↔
      FlagsAccepted env package flags) ∧
    ((m.edit (.insert isDev name dep)).validate env "mik.toml" = .ok () ∧
        PullAttempted env modules (m.edit (.insert isDev name dep)).save name dep ↔
      ∃ gitUrl, flags.git = some gitUrl ∧ GitAccepted env package gitUrl flags ∧
        (isDev = false ∨
          m.dependencies.lookup (gitName package gitUrl) = some (gitDependency gitUrl flags)) ∧
        modules.holds (m.edit (.insert isDev (gitName package gitUrl)
          (gitDependency gitUrl flags))).expected (gitName package gitUrl) = false) := by
  have hvalid := (validate_insert_iff hm isDev name dep).trans (validate_parsed_iff env hadd isDev)
  refine ⟨hvalid, ?_⟩
  rw [pullAttempted_save_iff, mem_missing_iff, lookup_inserted_iff, and_self_left, hvalid]
  unfold FlagsAccepted
  cases hgit : flags.git with
  | some gitUrl =>
    obtain ⟨hname, hdep⟩ := parse_of_git hgit hadd
    rw [hname, hdep]
    constructor
    · intro ⟨haccepted, hlookup, _, hmissing⟩
      exact ⟨gitUrl, rfl, haccepted, hlookup, hmissing⟩
    · intro ⟨gitUrl', heq, haccepted, hlookup, hmissing⟩
      cases heq
      exact ⟨haccepted, hlookup, rfl, hmissing⟩
  | none =>
    cases hpath : flags.path with
    | some path =>
      -- a local dependency is copied at build time and never pulled
      obtain ⟨hname, hdep⟩ := parse_of_path hgit hpath hadd
      rw [hname, hdep]
      exact ⟨fun h => absurd h.2.2.1 Bool.true_eq_false.mp, fun ⟨_, h, _⟩ => (by cases h)⟩
    | none => exact ⟨fun h => h.1.elim, fun ⟨_, h, _⟩ => (by cases h)⟩

/-- The packages are added one after the other; what each of them inserts keeps the manifest valid
    when its flags are accepted. -/
theorem addAll_valid {env : Env} {flags : Flags} {isDev : Bool} {packages : List String}
    {m m' : Manifest} (hm : m.validate env "mik.toml" = .ok ())
    (hflags : ∀ package ∈ packages, FlagsAccepted env package flags)
    (h : m.addAll flags isDev packages = .ok m') : m'.validate env "mik.toml" = .ok () := by
  induction packages generalizing m with
  | nil => exact Except.ok.inj h ▸ hm
  | cons package packages ih =>
    unfold Manifest.addAll at h
    cases hparse : parseAndCreateDep package flags with
    | error e =>
      rw [hparse] at h
      cases h
    | ok parsed =>
      rw [hparse] at h
      refine ih ?_ (fun package' hmem => hflags package' (List.mem_cons_of_mem _ hmem)) h
      exact (validate_insert_iff hm isDev parsed.1 parsed.2).mpr
        ((validate_parsed_iff env hparse isDev).mpr (hflags package List.mem_cons_self))

/-- Then the file that the command leaves is loaded and synced. -/
theorem execute_syncs {env : Env} {modules : ModulesDir} {d file : Toml} {packages : List String}
    {flags : Flags} {isDev : Bool} {pulls : Option (List (String × Dependency))}
    (hflags : ∀ package ∈ packages, FlagsAccepted env package flags)
    (h : execute env modules d packages flags isDev = .ok (file, pulls)) : pulls.isSome = true := by
  unfold execute at h
  split at h
  · cases h
  cases hload : Manifest.load env d with
  | error e =>
    rw [hload] at h
    cases h
  | ok m =>
    rw [hload] at h
    dsimp only at h
    cases hadd : m.addAll flags isDev packages with
    | error e =>
      rw [hadd] at h
      cases h
    | ok m' =>
      rw [hadd] at h
      obtain ⟨-, hpulls⟩ := Prod.mk.inj (Except.ok.inj h)
      have hvalid := addAll_valid (load_ok_iff.mp hload).2 hflags hadd
      rw [← hpulls, sync_of_load ((load_save_iff env m').mpr hvalid)]
      rfl

/-- A repository given by its URL is pulled. -/
theorem git_dependency_pulled :
    PullAttempted
      ⟨fun version => version == "0.1.0", fun _ => some ("https", true), fun _ => false,
        fun _ => false⟩
      ⟨none, fun _ _ => false⟩
      (Manifest.edit
        ⟨⟨"app", "0.1.0", none, [], none⟩, .default, .default, .default, none, .empty, .empty⟩
        (.insert false "router" (.detailed { git := some "https://github.com/mik/router" }))).save
      "router" (.detailed { git := some "https://github.com/mik/router" }) :=
  ((add_keeps_valid_iff _ _ _ "router" { git := some "https://github.com/mik/router" } false _ _
    (by rfl) (by rfl)).2.mpr ⟨_, rfl,
      ⟨by decide, by decide, Or.inl (by decide), by decide⟩, Or.inl rfl, rfl⟩).2

/-- `mik add user/repo` leaves a file that no longer validates. -/
theorem shorthand_invalidates :
    ¬ ∀ (env : Env) (modules : ModulesDir) (m : Manifest) (package : String) (flags : Flags)
      (isDev : Bool) (name : String) (dep : Dependency),
      m.validate env "mik.toml" = .ok () → parseAndCreateDep package flags = .ok (name, dep) →
      (∀ path, flags.path = some path → env.pathExists path = true) →
      (∀ gitUrl, flags.git = some gitUrl → isValidGitUrl env gitUrl = true) →
      (m.edit (.insert isDev name dep)).validate env "mik.toml" = .ok () ∧
        PullAttempted env modules (m.edit (.insert isDev name dep)).save name dep := by
  intro h
  have hvalid := (h
    ⟨fun version => version == "0.1.0", fun _ => none, fun _ => false, fun _ => false⟩
    ⟨none, fun _ _ => false⟩
    ⟨⟨"app", "0.1.0", none, [], none⟩, .default, .default, .default, none, .empty, .empty⟩
    "user/repo" {} false "repo" (.detailed { registry := some "ghcr.io/user/repo:latest" })
    (by rfl) (by rfl) nofun nofun).1
  rw [validate_insert_iff (by rfl), detailed_ok_iff] at hvalid
  exact registry_refused _ _ _ _ hvalid

end Mik.Config
