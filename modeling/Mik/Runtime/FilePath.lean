/-
  Sanitised file paths (`src/runtime/security/path/mod.rs` and `windows.rs`), with `std::path` as
  it is on Unix.

  `sanitizeFilePath` is a chain of checks on the text, then a loop that pushes and pops the
  components of the path on the text it returns. A path that is accepted is the text of plain
  names (`sanitizeFilePath_ok`), and these are what a stack makes of the segments of the input
  (`sanitizeFilePath_meaning`).
-/
import Mik.Lib.UnixPath

namespace Mik.Runtime

open Mik.Lib

inductive PathTraversalError where
  | nullByte
  | emptyPath
  | absolutePath
  | escapesBaseDirectory
  | reservedWindowsName
  | uncPath
  | alternateDataStream
  deriving DecidableEq, Repr

/-! ## Checks on the text -/

def windowsReservedNames : List String :=
  ["CON", "PRN", "AUX", "NUL", "COM1", "COM2", "COM3", "COM4", "COM5", "COM6", "COM7", "COM8",
    "COM9", "LPT1", "LPT2", "LPT3", "LPT4", "LPT5", "LPT6", "LPT7", "LPT8", "LPT9"]

/-- The stem of a component in upper case is reserved. The characters outside ASCII whose upper
    case is ASCII have an `F`, an `I` or an `S` in it, which no reserved name has, so the upper
    case of ASCII is enough. -/
def isReservedName (component : List Char) : Bool :=
  windowsReservedNames.contains
    (String.ofList ((component.takeWhile (· ≠ '.')).map Char.toUpper))

def validateWindowsPath (path : String) : Except PathTraversalError Unit :=
  if startsWith "\\\\" path || startsWith "//" path then .error .uncPath
  -- a colon is let through where a drive letter would have it
  else if (splitOnce ':' path).any fun cut => cut.1.utf8ByteSize ≠ 1 then
    .error .alternateDataStream
  else if (path.toList.splitOnP fun c => c == '/' || c == '\\').any isReservedName then
    .error .reservedWindowsName
  else .ok ()

/-! ## The loop -/

/-- The loop over the components, from the path pushed so far. -/
def pushComponents (normalized : String) : List Component → Except PathTraversalError String
  | [] => .ok normalized
  | .normal part :: rest =>
    if containsChar (Char.ofNat 0) part then .error .nullByte
    else if startsWith ".." part then .error .escapesBaseDirectory
    else pushComponents (join normalized part) rest
  | .curDir :: rest => pushComponents normalized rest
  | .parentDir :: rest =>
    match parent normalized with
    | none => .error .escapesBaseDirectory
    | some popped => pushComponents popped rest
  | .rootDir :: _ => .error .absolutePath

def sanitizeFilePath (path : String) : Except PathTraversalError String :=
  if containsChar (Char.ofNat 0) path then .error .nullByte
  else if path = "" then .error .emptyPath
  else
    match validateWindowsPath path with
    | .error e => .error e
    | .ok _ =>
      if isAbsolute path then .error .absolutePath
      else
        match pushComponents "" (components path) with
        | .error e => .error e
        | .ok normalized => if normalized = "" then .error .emptyPath else .ok normalized

example : sanitizeFilePath "./a//b/../c/." = .ok "a/c" := by decide

/-! ## The stack -/

/-- What a segment does to a stack of names: an empty one and `.` nothing, `..` pops. -/
def stackStep (stack : List String) (segment : String) : Option (List String) :=
  if segment = "" ∨ segment = "." then some stack
  else if segment = ".." then (if stack = [] then none else some stack.dropLast)
  else some (stack ++ [segment])

/-- The names that segments leave on the stack, unless one of them pops below the root. -/
def resolveSegments (segments : List String) : Option (List String) :=
  segments.foldlM stackStep []

/-- The same for a component. -/
def stackComponent (stack : List String) : Component → Option (List String)
  | .rootDir => none
  | .curDir => some stack
  | .parentDir => if stack = [] then none else some stack.dropLast
  | .normal name => some (stack ++ [name])

/-- A segment does what its component does. -/
theorem stackStep_ofList (stack : List String) (seg : List Char) :
    stackStep stack (String.ofList seg) =
      match innerComponent seg with
      | none => some stack
      | some c => stackComponent stack c := by
  have hempty : String.ofList seg = "" ↔ seg = [] := by
    rw [← String.toList_inj, String.toList_ofList]
    rfl
  have hdot : String.ofList seg = "." ↔ seg = ['.'] := by
    rw [← String.toList_inj, String.toList_ofList, show ".".toList = ['.'] by decide]
  have hdotdot : String.ofList seg = ".." ↔ seg = ['.', '.'] := by
    rw [← String.toList_inj, String.toList_ofList, show "..".toList = ['.', '.'] by decide]
  unfold stackStep innerComponent
  simp only [hempty, hdot, hdotdot]
  by_cases hskip : seg = [] ∨ seg = ['.']
  · rw [if_pos hskip, if_pos hskip]
  · rw [if_neg hskip, if_neg hskip]
    by_cases hpop : seg = ['.', '.']
    · rw [if_pos hpop, if_pos hpop]
      rfl
    · rw [if_neg hpop, if_neg hpop]
      rfl

/-- `.` does nothing to the stack. -/
theorem foldlM_filter_curDir (stack : List String) (cs : List Component) :
    (cs.filter (· ≠ .curDir)).foldlM stackComponent stack = cs.foldlM stackComponent stack := by
  induction cs generalizing stack with
  | nil => rfl
  | cons c cs ih =>
    by_cases hc : c = .curDir
    · rw [hc, List.filter_cons_of_neg (by simp), List.foldlM_cons]
      exact ih stack
    · rw [List.filter_cons_of_pos (by simp [hc]), List.foldlM_cons, List.foldlM_cons]
      congr 1
      funext stack'
      exact ih stack'

/-- On a relative path the components leave what the segments leave. -/
theorem resolveSegments_splitChar {path : String} (h : isAbsolute path = false) :
    resolveSegments (splitChar '/' path) = (components path).foldlM stackComponent [] := by
  rw [← foldlM_filter_curDir, components_relative h]
  unfold resolveSegments splitChar
  generalize path.toList.splitOn '/' = segs
  generalize ([] : List String) = stack
  induction segs generalizing stack with
  | nil => rfl
  | cons seg segs ih =>
    rw [List.map_cons, List.foldlM_cons, stackStep_ofList]
    cases hinner : innerComponent seg with
    | none =>
      rw [List.filterMap_cons_none hinner]
      exact ih stack
    | some c =>
      rw [List.filterMap_cons_some hinner, List.foldlM_cons]
      dsimp only
      congr 1
      funext stack'
      exact ih stack'

/-- Below the root is a place no further segment leads back from. -/
theorem resolveSegments_eq_none {pre segments : List String} (hpre : pre <+: segments)
    (h : resolveSegments pre = none) : resolveSegments segments = none := by
  obtain ⟨rest, rfl⟩ := hpre
  unfold resolveSegments at h ⊢
  rw [List.foldlM_append, h]
  rfl

/-! ## What is accepted -/

/-- The names on the stack of the loop. -/
def NamesOk (names : List String) : Prop :=
  ∀ name ∈ names, Plain name ∧ Char.ofNat 0 ∉ name.toList

theorem NamesOk.plain {names : List String} (h : NamesOk names) : ∀ name ∈ names, Plain name :=
  fun name hname => (h name hname).1

theorem NamesOk.snoc {names : List String} {name : String} (h : NamesOk names)
    (hname : Plain name) (hnull : Char.ofNat 0 ∉ name.toList) : NamesOk (names ++ [name]) := by
  intro n hn
  rcases List.mem_append.mp hn with hn | hn
  · exact h n hn
  · rw [List.mem_singleton.mp hn]
    exact ⟨hname, hnull⟩

theorem NamesOk.dropLast {names : List String} (h : NamesOk names) : NamesOk names.dropLast :=
  fun name hname => h name (List.dropLast_subset _ hname)

/-- The loop keeps the text of the names that are on the stack. -/
theorem pushComponents_ok {names : List String} {cs : List Component} {q : String}
    (hnames : NamesOk names) (hcs : ∀ name, .normal name ∈ cs → Plain name)
    (h : pushComponents (pathOfNames names) cs = .ok q) :
    ∃ names', q = pathOfNames names' ∧ NamesOk names' ∧
      cs.foldlM stackComponent names = some names' := by
  induction cs generalizing names with
  | nil =>
    cases h
    exact ⟨names, rfl, hnames, rfl⟩
  | cons c cs ih =>
    have hrest : ∀ name, .normal name ∈ cs → Plain name :=
      fun name hname => hcs name (List.mem_cons_of_mem _ hname)
    cases c with
    | rootDir => cases h
    | curDir => exact ih hnames hrest h
    | parentDir =>
      unfold pushComponents at h
      rw [parent_pathOfNames hnames.plain] at h
      by_cases hnil : names = []
      · rw [if_pos hnil] at h
        cases h
      · rw [if_neg hnil] at h
        obtain ⟨names', hq, hok, hfold⟩ := ih hnames.dropLast hrest h
        refine ⟨names', hq, hok, ?_⟩
        rw [List.foldlM_cons, stackComponent, if_neg hnil]
        exact hfold
    | normal part =>
      unfold pushComponents at h
      split at h
      · cases h
      next hnull =>
      split at h
      · cases h
      · rw [← pathOfNames_snoc] at h
        have hpart : Char.ofNat 0 ∉ part.toList := fun hmem => hnull (by simp [containsChar, hmem])
        exact ih (hnames.snoc (hcs part List.mem_cons_self) hpart) hrest h

/-- An accepted path is the text of plain names, those its components leave on a stack. -/
theorem sanitizeFilePath_ok {path q : String} (h : sanitizeFilePath path = .ok q) :
    isAbsolute path = false ∧ ∃ names, q = pathOfNames names ∧ names ≠ [] ∧ NamesOk names ∧
      (components path).foldlM stackComponent [] = some names := by
  unfold sanitizeFilePath at h
  split at h
  · cases h
  split at h
  · cases h
  split at h
  · cases h
  split at h
  · cases h
  next habs =>
  split at h
  · cases h
  next normalized hloop =>
  split at h
  · cases h
  next hempty =>
  cases h
  obtain ⟨names, rfl, hok, hfold⟩ := @pushComponents_ok [] _ _
    (fun name hname => absurd hname List.not_mem_nil)
    (fun name hname => plain_of_mem_components hname) hloop
  refine ⟨eq_false_of_ne_true habs, names, rfl, ?_, hok, hfold⟩
  rintro rfl
  exact hempty rfl

/-- A relative path of normal components, without null bytes. -/
structure Confined (q : String) : Prop where
  nonempty : q ≠ ""
  relative : isAbsolute q = false
  normal : ∀ c ∈ components q, ∃ name, c = .normal name ∧ Plain name
  noNull : Char.ofNat 0 ∉ q.toList

theorem confined_pathOfNames {names : List String} (hne : names ≠ []) (h : NamesOk names) :
    Confined (pathOfNames names) where
  nonempty := fun hempty => hne ((pathOfNames_eq_empty_iff h.plain).mp hempty)
  relative := pathOfNames_relative h.plain
  normal := by
    intro c hc
    rw [components_pathOfNames h.plain] at hc
    obtain ⟨name, hname, rfl⟩ := List.mem_map.mp hc
    exact ⟨name, rfl, h.plain name hname⟩
  noNull := by
    intro hmem
    obtain ⟨name, hname, hnull⟩ := mem_pathOfNames (by decide) hmem
    exact (h name hname).2 hnull

/-- `sanitize_file_path` returns a confined path with the components that the segments of its
    input leave on a stack, and rejects every input that pops below the root on the way. -/
theorem sanitizeFilePath_meaning (path : String) :
    (∀ q, sanitizeFilePath path = .ok q → Confined q ∧
      ∃ names, resolveSegments (splitChar '/' path) = some names ∧
        components q = names.map .normal) ∧
    ((∃ pre, pre <+: splitChar '/' path ∧ resolveSegments pre = none) →
      ∃ e, sanitizeFilePath path = .error e) := by
  have hok : ∀ q, sanitizeFilePath path = .ok q → Confined q ∧
      ∃ names, resolveSegments (splitChar '/' path) = some names ∧
        components q = names.map .normal := by
    intro q hq
    obtain ⟨habs, names, rfl, hne, hnames, hfold⟩ := sanitizeFilePath_ok hq
    refine ⟨confined_pathOfNames hne hnames, names, ?_, components_pathOfNames hnames.plain⟩
    rw [resolveSegments_splitChar habs, hfold]
  refine ⟨hok, ?_⟩
  rintro ⟨pre, hpre, hnone⟩
  cases hresult : sanitizeFilePath path with
  | error e => exact ⟨e, rfl⟩
  | ok q =>
    obtain ⟨-, names, hsome, -⟩ := hok q hresult
    rw [resolveSegments_eq_none hpre hnone] at hsome
    cases hsome

end Mik.Runtime
