/-
  Object paths (`src/daemon/services/storage/validation.rs`).

  `validate_path` normalises a path to the list of its normal components, and refuses what could
  leave the storage directory. The text of a normalised path (`pathText`) is accepted again and
  normalises to itself (`validatePath_pathText`), so it is one of the spellings of the path, the
  canonical one. `validatePathBuf` is the path as it is pushed together (`validatePathBuf_eq`).
-/
import Mik.Lib.UnixPath

namespace Mik.Storage

open Mik.Lib

/-- The loop over the components, from the components pushed so far. -/
def normalizeComponents (path : String) :
    (normalized : List String) → List Component → Except String (List String)
  | normalized, [] => .ok normalized
  | normalized, .normal name :: rest => normalizeComponents path (normalized ++ [name]) rest
  | normalized, .curDir :: rest => normalizeComponents path normalized rest
  | _, .parentDir :: _ => .error ("Object path cannot contain '..': " ++ path)
  | _, .rootDir :: _ => .error ("Object path cannot contain root or prefix: " ++ path)

/-- `validate_path`: the names of the normalised path. -/
def validatePath (path : String) : Except String (List String) :=
  if path = "" then .error "Object path cannot be empty"
  else if isAbsolute path then .error ("Object path cannot be absolute: " ++ path)
  else
    match normalizeComponents path [] (components path) with
    | .error e => .error e
    | .ok [] => .error "Object path normalized to empty path"
    | .ok normalized => .ok normalized

/-- `to_string_lossy` of a normalised path. -/
def pathText (names : List String) : String := "/".intercalate names

/-- The location a path means. -/
def resolve (path : String) : Option (List String) := (validatePath path).toOption

theorem resolve_eq_some_iff {path : String} {names : List String} :
    resolve path = some names ↔ validatePath path = .ok names := by
  unfold resolve
  cases validatePath path with
  | error e => simp [Except.toOption]
  | ok names' => simp [Except.toOption]

theorem validatePath_ne_nil (path : String) : validatePath path ≠ .ok [] := by
  unfold validatePath
  split
  · simp
  split
  · simp
  split
  · simp
  · simp
  · next names hnil _ =>
    intro heq
    cases heq
    exact hnil rfl

theorem names_ne_nil {path : String} {names : List String} (h : validatePath path = .ok names) :
    names ≠ [] := by
  rintro rfl
  exact validatePath_ne_nil path h

/-- A path means one location. -/
theorem names_unique {path : String} {names names' : List String}
    (h : validatePath path = .ok names) (h' : validatePath path = .ok names') : names = names' :=
  Except.ok.inj (h.symm.trans h')

theorem forall_names_iff {path : String} {names : List String} {P : List String → Prop}
    (h : validatePath path = .ok names) :
    (∀ names', validatePath path = .ok names' → P names') ↔ P names := by
  constructor
  · intro hall
    exact hall names h
  · intro hp names' h'
    exact names_unique h h' ▸ hp

/-! ## The canonical spelling -/

theorem normalizeComponents_normal (path : String) (normalized names : List String) :
    normalizeComponents path normalized (names.map .normal) = .ok (normalized ++ names) := by
  induction names generalizing normalized with
  | nil => simp [normalizeComponents]
  | cons name names ih => simp [normalizeComponents, ih]

/-- Whatever the loop pushes is one of the normal components. -/
theorem mem_of_normalizeComponents {path : String} {normalized names : List String}
    {cs : List Component} (h : normalizeComponents path normalized cs = .ok names) :
    ∀ name ∈ names, name ∈ normalized ∨ .normal name ∈ cs := by
  induction cs generalizing normalized with
  | nil =>
    cases h
    exact fun name hname => Or.inl hname
  | cons c cs ih =>
    intro name hname
    cases c with
    | normal n =>
      rcases ih h name hname with hmem | hmem
      · rcases List.mem_append.mp hmem with hmem | hmem
        · exact Or.inl hmem
        · rw [List.mem_singleton.mp hmem]
          exact Or.inr List.mem_cons_self
      · exact Or.inr (List.mem_cons_of_mem _ hmem)
    | curDir =>
      rcases ih h name hname with hmem | hmem
      · exact Or.inl hmem
      · exact Or.inr (List.mem_cons_of_mem _ hmem)
    | parentDir => cases h
    | rootDir => cases h

theorem normalizeComponents_of_validatePath {path : String} {names : List String}
    (h : validatePath path = .ok names) :
    normalizeComponents path [] (components path) = .ok names := by
  unfold validatePath at h
  split at h
  · cases h
  split at h
  · cases h
  split at h
  · cases h
  · cases h
  · next hok =>
    rw [hok]
    exact h

/-- The names of a validated path are plain. -/
theorem plain_of_validatePath {path : String} {names : List String}
    (h : validatePath path = .ok names) : ∀ name ∈ names, Plain name := by
  intro name hname
  rcases mem_of_normalizeComponents (normalizeComponents_of_validatePath h) name hname with
    hmem | hmem
  · cases hmem
  · exact plain_of_mem_components hmem

/-- Plain names are what their text normalises to. -/
theorem validatePath_pathText {names : List String} (hne : names ≠ [])
    (h : ∀ name ∈ names, Plain name) : validatePath (pathText names) = .ok names := by
  unfold validatePath pathText
  rw [if_neg (intercalate_ne_empty hne h), intercalate_not_absolute hne h,
    components_intercalate hne h, normalizeComponents_normal, List.nil_append]
  cases names with
  | nil => exact absurd rfl hne
  | cons name names => rfl

/-- Normalising is idempotent on texts. -/
theorem validatePath_of_ok {path : String} {names : List String}
    (h : validatePath path = .ok names) : validatePath (pathText names) = .ok names := by
  exact validatePath_pathText (names_ne_nil h) (plain_of_validatePath h)

/-! ## The path itself -/

/-- The loop over the components, with the `PathBuf` that the names are pushed on. -/
def pushComponents (path : String) :
    (normalized : String) → List Component → Except String String
  | normalized, [] => .ok normalized
  | normalized, .normal name :: rest => pushComponents path (join normalized name) rest
  | normalized, .curDir :: rest => pushComponents path normalized rest
  | _, .parentDir :: _ => .error ("Object path cannot contain '..': " ++ path)
  | _, .rootDir :: _ => .error ("Object path cannot contain root or prefix: " ++ path)

/-- `validate_path`: the normalised path. -/
def validatePathBuf (path : String) : Except String String :=
  if path = "" then .error "Object path cannot be empty"
  else if isAbsolute path then .error ("Object path cannot be absolute: " ++ path)
  else
    match pushComponents path "" (components path) with
    | .error e => .error e
    | .ok normalized =>
      if normalized = "" then .error "Object path normalized to empty path" else .ok normalized

def objectPath (baseDir path : String) : Except String String := do
  return join baseDir (← validatePathBuf path)

/-- The normal components, in order. -/
def normalNames (cs : List Component) : List String :=
  cs.filterMap fun
    | .normal name => some name
    | _ => none

/-- `path` is below `baseDir`, by at least one name and without going up. -/
def StrictlyBelow (baseDir path : String) : Prop :=
  ∃ names, names ≠ [] ∧ (∀ name ∈ names, Plain name) ∧
    components path = components baseDir ++ names.map .normal

theorem mem_normalNames {cs : List Component} {name : String} :
    name ∈ normalNames cs ↔ .normal name ∈ cs := by
  unfold normalNames
  rw [List.mem_filterMap]
  constructor
  · rintro ⟨c, hc, hname⟩
    cases c with
    | normal n =>
      rw [← Option.some.inj hname]
      exact hc
    | curDir => cases hname
    | parentDir => cases hname
    | rootDir => cases hname
  · intro h
    exact ⟨.normal name, h, rfl⟩

theorem plain_of_mem_normalNames {path name : String} (h : name ∈ normalNames (components path)) :
    Plain name := plain_of_mem_components (mem_normalNames.mp h)

theorem normalNames_map (names : List String) : normalNames (names.map .normal) = names := by
  unfold normalNames
  rw [List.filterMap_map]
  exact List.filterMap_some

/-- The loop fails where there is something other than names and dots, and only there. -/
theorem pushComponents_ok_iff (path : String) (pushed : List String) (cs : List Component)
    (q : String) :
    pushComponents path (pathOfNames pushed) cs = .ok q ↔
      (.parentDir ∉ cs ∧ .rootDir ∉ cs) ∧ q = pathOfNames (pushed ++ normalNames cs) := by
  induction cs generalizing pushed with
  | nil => simp [pushComponents, normalNames, eq_comm]
  | cons c cs ih =>
    cases c with
    | normal name =>
      rw [pushComponents, ← pathOfNames_snoc, ih]
      simp [normalNames]
    | curDir =>
      rw [pushComponents, ih]
      simp [normalNames]
    | parentDir => simp [pushComponents]
    | rootDir => simp [pushComponents]

/-- `Ok`, for exactly the paths that are not empty, not absolute, go nowhere up and have a name. -/
theorem validatePathBuf_ok_iff (path q : String) :
    validatePathBuf path = .ok q ↔
      (path ≠ "" ∧ isAbsolute path = false ∧ .parentDir ∉ components path ∧
        normalNames (components path) ≠ []) ∧
      q = pathOfNames (normalNames (components path)) := by
  have hplain : ∀ name ∈ normalNames (components path), Plain name :=
    fun name => plain_of_mem_normalNames
  have hpush := pushComponents_ok_iff path [] (components path)
  rw [pathOfNames_nil, List.nil_append] at hpush
  unfold validatePathBuf
  by_cases hempty : path = ""
  · rw [if_pos hempty]
    exact iff_of_false nofun fun h => h.1.1 hempty
  by_cases habs : isAbsolute path = true
  · rw [if_neg hempty, if_pos habs]
    exact iff_of_false nofun fun h => absurd h.1.2.1 (by simp [habs])
  have hrel := Bool.eq_false_iff.mpr habs
  have hroot := rootDir_notMem_of_relative hrel
  rw [if_neg hempty, if_neg habs]
  cases hloop : pushComponents path "" (components path) with
  | error e =>
    refine iff_of_false nofun fun h => ?_
    rw [(hpush q).mpr ⟨⟨h.1.2.2.1, hroot⟩, h.2⟩] at hloop
    cases hloop
  | ok normalized =>
    obtain ⟨⟨hparent, -⟩, rfl⟩ := (hpush normalized).mp hloop
    dsimp only
    by_cases hnone : normalNames (components path) = []
    · rw [if_pos ((pathOfNames_eq_empty_iff hplain).mpr hnone)]
      exact iff_of_false nofun fun h => h.1.2.2.2 hnone
    · rw [if_neg (mt (pathOfNames_eq_empty_iff hplain).mp hnone), Except.ok.injEq, eq_comm]
      exact ⟨fun heq => ⟨⟨hempty, hrel, hparent, hnone⟩, heq⟩, And.right⟩

theorem pushComponents_eq (path : String) (pushed : List String) (cs : List Component) :
    pushComponents path (pathOfNames pushed) cs
      = (normalizeComponents path pushed cs).map pathOfNames := by
  induction cs generalizing pushed with
  | nil => rfl
  | cons c cs ih =>
    cases c with
    | normal name =>
      rw [pushComponents, ← pathOfNames_snoc, ih]
      rfl
    | curDir => exact ih pushed
    | parentDir => rfl
    | rootDir => rfl

/-- The path is the text of the names of `validatePath`. -/
theorem validatePathBuf_eq (path : String) :
    validatePathBuf path = (validatePath path).map pathText := by
  have hpush := pushComponents_eq path [] (components path)
  rw [pathOfNames_nil] at hpush
  unfold validatePathBuf validatePath
  split
  · rfl
  split
  · rfl
  rw [hpush]
  cases hloop : normalizeComponents path [] (components path) with
  | error e => rfl
  | ok names =>
    have hplain : ∀ name ∈ names, Plain name := by
      intro name hname
      rcases mem_of_normalizeComponents hloop name hname with hmem | hmem
      · cases hmem
      · exact plain_of_mem_components hmem
    cases names with
    | nil => rfl
    | cons name names =>
      have hne : pathOfNames (name :: names) ≠ "" := fun hempty =>
        absurd ((pathOfNames_eq_empty_iff hplain).mp hempty) (List.cons_ne_nil _ _)
      show (if pathOfNames (name :: names) = "" then _ else _) = _
      rw [if_neg hne, pathOfNames_eq_intercalate hplain]
      rfl

/-- What `validate_path` accepts, what it returns, and where that leads: the normal components of
    the path in order, strictly below whatever directory they are joined to, and normalised once and
    for all. -/
theorem validatePath_normalizes (baseDir path q : String) :
    (validatePathBuf path = .ok q ↔
      (path ≠ "" ∧ isAbsolute path = false ∧ .parentDir ∉ components path ∧
        normalNames (components path) ≠ []) ∧
      q = pathOfNames (normalNames (components path))) ∧
    (validatePathBuf path = .ok q →
      components q = (normalNames (components path)).map .normal ∧
      objectPath baseDir path = .ok (join baseDir q) ∧
      StrictlyBelow baseDir (join baseDir q) ∧
      validatePathBuf q = .ok q) := by
  refine ⟨validatePathBuf_ok_iff path q, fun h => ?_⟩
  obtain ⟨⟨-, -, -, hnames⟩, hq⟩ := (validatePathBuf_ok_iff path q).mp h
  have hplain : ∀ name ∈ normalNames (components path), Plain name :=
    fun name => plain_of_mem_normalNames
  have hcomponents : components q = (normalNames (components path)).map .normal := by
    rw [hq]
    exact components_pathOfNames hplain
  refine ⟨hcomponents, ?_, ⟨_, hnames, hplain, ?_⟩, ?_⟩
  · unfold objectPath
    rw [h]
    rfl
  · rw [hq]
    by_cases hbase : baseDir = ""
    · rw [hbase, join_empty (pathOfNames_relative hplain), components_pathOfNames hplain]
      rfl
    · exact components_join_names hbase hplain
  · refine (validatePathBuf_ok_iff q q).mpr ⟨⟨?_, ?_, ?_, ?_⟩, ?_⟩
    · rw [hq]
      exact mt (pathOfNames_eq_empty_iff hplain).mp hnames
    · rw [hq]
      exact pathOfNames_relative hplain
    · rw [hcomponents]
      simp
    · rw [hcomponents, normalNames_map]
      exact hnames
    · rw [hcomponents, normalNames_map]
      exact hq

theorem validatePath_normalizes_dots :
    validatePathBuf "a/b" = .ok "a/b" ∧ StrictlyBelow "/srv" (join "/srv" "a/b") :=
  have h := (validatePath_normalizes "/srv" "./a//b/." "a/b").2 (by decide)
  ⟨h.2.2.2, h.2.2.1⟩

end Mik.Storage
