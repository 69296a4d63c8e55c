/-
  Module names: `sanitize_module_name` (`src/runtime/security/module.rs`) and `ModulePath`
  (`src/runtime/module_path.rs`).

  A tenant module has two textual names. `cacheKey` is `tenant:{id}/{name}`, the key of the
  component cache, of the circuit check and of the semaphore; `handlerName` is `{id}/{name}`,
  the name shown in `X-Mik-Handler`. They differ for every tenant module
  (`cacheKey_ne_handlerName`), and agree for every platform module.

  Over names that `sanitizeModuleName` accepts, `cacheKey` is injective (`cacheKey_injective`):
  an accepted name has no `/`, so a platform key has none and a tenant key has exactly one.
-/
import Mik.Lib.UnixPath

namespace Mik.Runtime

open Mik.Lib

/-! ## Sanitising a name -/

inductive ModuleNameError where
  | emptyName
  | nullByte
  | pathSeparator
  | specialDirectory
  | tooLong
  | controlCharacter
  deriving DecidableEq, Repr

def ModuleNameError.toString : ModuleNameError → String
  | .emptyName => "Module name is empty"
  | .nullByte => "Module name contains null bytes"
  | .pathSeparator => "Module name contains path separators"
  | .specialDirectory => "Module name cannot be '.' or '..'"
  | .tooLong => "Module name is too long (max 255 characters)"
  | .controlCharacter => "Module name contains control characters"

/-- `char::is_control`, the category Cc. -/
def isControl (c : Char) : Bool :=
  decide (c.toNat < 0x20) || (decide (0x7F ≤ c.toNat) && decide (c.toNat ≤ 0x9F))

def sanitizeModuleName (name : String) : Except ModuleNameError String :=
  if name = "" then .error .emptyName
  else if containsChar (Char.ofNat 0) name then .error .nullByte
  else if containsChar '/' name || containsChar '\\' name then .error .pathSeparator
  else if name = "." ∨ name = ".." then .error .specialDirectory
  else if 255 < name.utf8ByteSize then .error .tooLong
  else if name.toList.any isControl then .error .controlCharacter
  else .ok name

/-- The names `sanitize_module_name` accepts. -/
def Accepted (name : String) : Prop := sanitizeModuleName name = .ok name

instance (name : String) : Decidable (Accepted name) :=
  inferInstanceAs (Decidable (sanitizeModuleName name = .ok name))

/-- The sanitiser returns its input or rejects it. -/
theorem sanitizeModuleName_ok {name out : String} (h : sanitizeModuleName name = .ok out) :
    out = name ∧ Accepted name := by
  have heq : out = name := by
    unfold sanitizeModuleName at h
    repeat' split at h
    all_goals first | exact (Except.ok.inj h).symm | cases h
  exact ⟨heq, by rw [Accepted, h, heq]⟩

/-- An accepted name is one normal path component. -/
theorem Accepted.plain {name : String} (h : Accepted name) : Plain name := by
  unfold Accepted sanitizeModuleName at h
  split at h
  · cases h
  next hne =>
  split at h
  · cases h
  split at h
  · cases h
  next hsep =>
  split at h
  · cases h
  next hdot =>
  have hslash : '/' ∉ name.toList := by
    intro hmem
    apply hsep
    simp [containsChar, hmem]
  exact ⟨hslash, hne, fun h => hdot (Or.inl h), fun h => hdot (Or.inr h)⟩

/-- So is the file name built from it. -/
theorem Accepted.plain_wasm {name : String} (h : Accepted name) : Plain (name ++ ".wasm") := by
  have hl : (name ++ ".wasm").toList = name.toList ++ ['.', 'w', 'a', 's', 'm'] := by
    rw [String.toList_append]
    rfl
  have hlen : 5 < (name ++ ".wasm").toList.length := by
    have := List.length_pos_iff.mpr (toList_ne_nil h.plain.nonempty)
    rw [hl, List.length_append]
    simp only [List.length_cons, List.length_nil]
    omega
  refine ⟨?_, ?_, ?_, ?_⟩
  · rw [hl, List.mem_append]
    rintro (hm | hm)
    · exact h.plain.noSlash hm
    · exact absurd hm (by decide)
  · intro he
    rw [he] at hlen
    exact absurd hlen (by decide)
  · intro he
    rw [he] at hlen
    exact absurd hlen (by decide)
  · intro he
    rw [he] at hlen
    exact absurd hlen (by decide)

/-! ## Module paths -/

inductive ModulePath where
  | platform (name : String)
  | tenant (tenantId name : String)
  deriving DecidableEq, Repr

namespace ModulePath

def cacheKey : ModulePath → String
  | platform name => name
  | tenant tenantId name => "tenant:" ++ tenantId ++ "/" ++ name

def name : ModulePath → String
  | platform name => name
  | tenant _ name => name

def tenantId : ModulePath → Option String
  | platform _ => none
  | tenant tenantId _ => some tenantId

def isTenant : ModulePath → Bool
  | platform _ => false
  | tenant _ _ => true

def wasmPath (p : ModulePath) (modulesDir : String) (userModulesDir : Option String) :
    Option String :=
  match p with
  | platform name => some (join modulesDir (name ++ ".wasm"))
  | tenant tenantId name =>
    userModulesDir.map fun dir => join (join dir tenantId) (name ++ ".wasm")

def handlerName : ModulePath → String
  | platform name => name
  | tenant tenantId name => tenantId ++ "/" ++ name

/-- The `Display` text. -/
def display : ModulePath → String
  | platform name => name
  | tenant tenantId name => tenantId ++ "/" ++ name

/-- The directory a module's file lies in: `modules_dir`, or the tenant's own subdirectory. -/
def ownDir (p : ModulePath) (modulesDir : String) (userModulesDir : Option String) :
    Option (List Component) :=
  match p with
  | platform _ => some (components modulesDir)
  | tenant tenantId _ => userModulesDir.map fun dir => components dir ++ [.normal tenantId]

/-- Every name of the path is accepted. -/
def NamesAccepted : ModulePath → Prop
  | platform name => Accepted name
  | tenant tenantId name => Accepted tenantId ∧ Accepted name

end ModulePath

open ModulePath

/-! ## The two names of a tenant module -/

theorem cacheKey_toList (tenantId name : String) :
    (cacheKey (.tenant tenantId name)).toList =
      "tenant:".toList ++ tenantId.toList ++ '/' :: name.toList := by
  simp only [cacheKey, String.toList_append]
  simp

theorem cacheKey_ne_handlerName (tenantId name : String) :
    cacheKey (.tenant tenantId name) ≠ handlerName (.tenant tenantId name) := by
  intro h
  have hlen := congrArg (fun s => s.toList.length) h
  simp only [cacheKey, handlerName, String.toList_append, List.length_append] at hlen
  have : "tenant:".toList.length = 7 := by decide
  omega

/-! ## Distinct modules have distinct keys -/

theorem slash_mem_tenant_key (tenantId name : String) :
    '/' ∈ (cacheKey (.tenant tenantId name)).toList := by
  rw [cacheKey_toList]
  simp

/-- A platform name that was accepted is no tenant key. -/
theorem platform_ne_tenant_key {name : String} (h : Accepted name) (tenantId other : String) :
    cacheKey (.platform name) ≠ cacheKey (.tenant tenantId other) := by
  intro heq
  apply h.plain.noSlash
  have := slash_mem_tenant_key tenantId other
  rwa [← heq] at this

theorem cacheKey_injective {p q : ModulePath} (hp : p.NamesAccepted) (hq : q.NamesAccepted)
    (h : p.cacheKey = q.cacheKey) : p = q := by
  match p, q with
  | .platform n, .platform m => exact congrArg ModulePath.platform h
  | .platform n, .tenant t m => exact absurd h (platform_ne_tenant_key hp t m)
  | .tenant t n, .platform m => exact absurd h.symm (platform_ne_tenant_key hq t n)
  | .tenant t n, .tenant u m =>
    have hl := congrArg String.toList h
    rw [cacheKey_toList, cacheKey_toList, List.append_assoc, List.append_assoc,
      List.append_cancel_left_eq] at hl
    obtain ⟨h1, -, h2⟩ := (List.append_cons_inj_of_notMem hp.1.plain.noSlash
      hp.2.plain.noSlash).mp hl
    rw [String.toList_inj.mp h1, String.toList_inj.mp h2]

/-! ## Where the file lies -/

/-- The file of a module with accepted names lies directly in the module's own directory. -/
theorem wasmPath_confined {p : ModulePath} (hp : p.NamesAccepted) {modulesDir : String}
    {userModulesDir : Option String} {path : String}
    (h : p.wasmPath modulesDir userModulesDir = some path) :
    ∃ dir, p.ownDir modulesDir userModulesDir = some dir ∧
      components path = dir ++ [.normal (p.name ++ ".wasm")] := by
  match p with
  | .platform n =>
    obtain rfl : join modulesDir (n ++ ".wasm") = path := Option.some.inj h
    exact ⟨_, rfl, components_join modulesDir (Accepted.plain_wasm hp)⟩
  | .tenant t n =>
    obtain ⟨dir, rfl, rfl⟩ := Option.map_eq_some_iff.mp h
    refine ⟨_, rfl, ?_⟩
    rw [components_join _ hp.2.plain_wasm, components_join dir hp.1.plain]
    rfl

end Mik.Runtime
