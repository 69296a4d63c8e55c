/-
  Bringing `modules/` up to date with `mik.toml` (`commands/pull.rs`).

  `sync` reads the manifest again, removes the modules that no dependency asks for, and pulls the
  dependencies whose module is not there. A file that does not load ends it without an error, and
  without a pull: this is how a manifest that an edit has made invalid shows
  (`pullAttempted_save_iff`).
-/
import Mik.Config.Save

namespace Mik.Config

open Mik.Lib

/-- What `sync` finds in the project directory: the names in `modules/`, when it is a directory that
    can be read, and whether a path exists once the files of some of these names are removed. -/
structure ModulesDir where
  entries : Option (List String)
  existsWithout : List String → String → Bool

/-- `is_local_path_dependency`. -/
def isLocalPathDependency : Dependency → Bool
  | .simple _ => false
  | .detailed detail => detail.path.isSome

/-- The names in `modules/` whose files `remove_stale_modules` removes. -/
def staleModules (expected entries : List String) : List String :=
  entries.filter fun entry =>
    let path := join "modules" entry
    extension path == some "wasm" && (fileStem path).any fun stem => !expected.contains stem

def modulePath (name : String) : String := "modules/" ++ name ++ ".wasm"

/-- The names that the modules may have. -/
def Manifest.expected (m : Manifest) : List String :=
  m.dependencies.entries.map Prod.fst ++ m.devDependencies.entries.map Prod.fst

/-- The module of a dependency is there when the stale ones are gone. -/
def ModulesDir.holds (modules : ModulesDir) (expected : List String) (name : String) : Bool :=
  modules.existsWithout (staleModules expected (modules.entries.getD [])) (modulePath name)

/-- The dependencies that are missing. -/
def Manifest.missing (modules : ModulesDir) (m : Manifest) : List (String × Dependency) :=
  (m.dependencies.entries.filter fun entry => !isLocalPathDependency entry.2).filter fun entry =>
    !modules.holds m.expected entry.1

/-- `sync`, where `mik.toml` holds the document `d` and `modules/` can be created: what
    `pull_dependency` is called with, or `none` when there is nothing to sync. -/
def sync (env : Env) (modules : ModulesDir) (d : Toml) : Option (List (String × Dependency)) :=
  match Manifest.load env d with
  | .error _ => none
  | .ok m => some (m.missing modules)

/-- After the sync of the document, a pull of the dependency was attempted. -/
def PullAttempted (env : Env) (modules : ModulesDir) (d : Toml) (name : String)
    (dep : Dependency) : Prop :=
  ∃ pulls, sync env modules d = some pulls ∧ (name, dep) ∈ pulls

theorem sync_of_load {env : Env} {modules : ModulesDir} {d : Toml} {m : Manifest}
    (h : Manifest.load env d = .ok m) : sync env modules d = some (m.missing modules) := by
  unfold sync
  rw [h]

theorem mem_missing_iff {modules : ModulesDir} {m : Manifest} {name : String} {dep : Dependency} :
    (name, dep) ∈ m.missing modules ↔
      m.dependencies.lookup name = some dep ∧ isLocalPathDependency dep = false ∧
        modules.holds m.expected name = false := by
  unfold Manifest.missing
  rw [List.mem_filter, List.mem_filter, Bool.not_eq_true', Bool.not_eq_true', and_assoc,
    Table.lookup_eq_some_iff]

/-- A saved manifest is synced exactly when it validates. -/
theorem pullAttempted_save_iff {env : Env} {modules : ModulesDir} {m : Manifest} {name : String}
    {dep : Dependency} :
    PullAttempted env modules m.save name dep ↔
      m.validate env "mik.toml" = .ok () ∧ (name, dep) ∈ m.missing modules := by
  constructor
  · rintro ⟨pulls, hsync, hmem⟩
    unfold sync at hsync
    split at hsync
    · cases hsync
    · next m' hload =>
      cases hsync
      obtain ⟨hread, hvalid⟩ := load_ok_iff.mp hload
      rw [Manifest.save, Manifest.codec.read_write] at hread
      cases hread
      exact ⟨hvalid, hmem⟩
  · rintro ⟨hvalid, hmem⟩
    exact ⟨_, sync_of_load ((load_save_iff env m).mpr hvalid), hmem⟩

end Mik.Config
