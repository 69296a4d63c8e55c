/-
  A directory tree with symbolic links, and how paths are resolved in it.

  A link is a leaf of a `FileTree` that holds the text of its target. A path is resolved one
  component after the other; a link is resolved in the directory it lies in, and over the links on
  its own way, up to `nesting` of them inside one another: with as many as the tree has links,
  what is cut off is a loop. What a path leads to is a location, names below the root with no link
  on the way; `canonicalize` is its text.

  `resolve_join_names`: names below a directory are walked from where the directory is, however it
  was spelled.
-/
import Mik.Lib.FileTree
import Mik.Lib.UnixPath

namespace Mik.Lib

inductive Leaf (α : Type) where
  | content (bytes : α)
  | link (target : String)
  deriving DecidableEq, Repr

/-- The errors of the system that tell apart why a path has no content. -/
inductive IoErrorKind where
  | notFound
  | notADirectory
  | isADirectory
  | filesystemLoop
  deriving DecidableEq, Repr

structure FileSystem (α : Type) where
  tree : FileTree (Leaf α)
  plain : ∀ loc, tree.lookup loc ≠ none → ∀ name ∈ loc, Plain name
  /-- The current directory. -/
  cwd : List String
  cwd_dir : tree.lookup cwd = some .dir
  nesting : Nat

namespace FileSystem

variable {α : Type} (fs : FileSystem α)

def isDirAt (loc : List String) : Bool :=
  match fs.tree.lookup loc with
  | some .dir => true
  | _ => false

/-- One component from the location `loc`; `follow` resolves a link's target in a directory. -/
def step (follow : List String → String → Except IoErrorKind (List String))
    (loc : List String) : Component → Except IoErrorKind (List String)
  | .rootDir => .ok []
  | .curDir => if fs.isDirAt loc then .ok loc else .error .notADirectory
  | .parentDir => if fs.isDirAt loc then .ok loc.dropLast else .error .notADirectory
  | .normal name =>
    if fs.isDirAt loc then
      match fs.tree.lookup (loc ++ [name]) with
      | none => .error .notFound
      | some (.file (.link target)) => follow loc target
      | some _ => .ok (loc ++ [name])
    else .error .notADirectory

def walk (follow : List String → String → Except IoErrorKind (List String))
    (loc : List String) (cs : List Component) : Except IoErrorKind (List String) :=
  cs.foldlM (fs.step follow) loc

/-- The path ends in a separator or in `.`, which only a directory can have after it. -/
def demandsDirectory (path : String) : Bool :=
  match (path.toList.splitOn '/').getLast? with
  | some seg => seg == [] || seg == ['.']
  | none => false

/-- A path resolved from the directory `loc`. -/
def resolveWith (follow : List String → String → Except IoErrorKind (List String))
    (loc : List String) (path : String) : Except IoErrorKind (List String) :=
  if path = "" then .error .notFound
  else
    match fs.walk follow loc (components path) with
    | .error e => .error e
    | .ok found =>
      if demandsDirectory path && !fs.isDirAt found then .error .notADirectory else .ok found

/-- A link's target, over links up to `n` inside one another. -/
def followUpTo : Nat → List String → String → Except IoErrorKind (List String)
  | 0, _, _ => .error .filesystemLoop
  | n + 1, loc, target => fs.resolveWith (fun loc' target' => followUpTo n loc' target') loc target

def follow : List String → String → Except IoErrorKind (List String) := fs.followUpTo fs.nesting

/-- The location a path leads to. -/
def resolve (path : String) : Except IoErrorKind (List String) :=
  fs.resolveWith fs.follow fs.cwd path

/-- `Path::exists`. -/
def pathExists (path : String) : Bool := (fs.resolve path).isOk

/-- `metadata` answers, with a directory. -/
def isDir (path : String) : Bool :=
  match fs.resolve path with
  | .ok loc => fs.isDirAt loc
  | .error _ => false

/-- `Path::canonicalize`. -/
def canonicalize (path : String) : Except IoErrorKind String := (fs.resolve path).map absolutePath

/-- `fs::read`. -/
def read (path : String) : Except IoErrorKind α :=
  match fs.resolve path with
  | .error e => .error e
  | .ok loc =>
    match fs.tree.lookup loc with
    | some (.file (.content bytes)) => .ok bytes
    | some .dir => .error .isADirectory
    | _ => .error .notFound

/-! ## Locations -/

/-- Something is there, and it is no link. -/
def Settled (loc : List String) : Prop :=
  fs.tree.lookup loc = some .dir ∨ ∃ bytes, fs.tree.lookup loc = some (.file (.content bytes))

variable {fs} {loc : List String} {follow : List String → String → Except IoErrorKind (List String)}

theorem isDirAt_iff : fs.isDirAt loc = true ↔ fs.tree.lookup loc = some .dir := by
  unfold isDirAt
  split
  · next h => simp [h]
  · next h => simpa using h

theorem Settled.ne_none (h : fs.Settled loc) : fs.tree.lookup loc ≠ none := by
  rcases h with h | ⟨bytes, h⟩
  · simp [h]
  · simp [h]

theorem Settled.plain (h : fs.Settled loc) : ∀ name ∈ loc, Plain name := fs.plain loc h.ne_none

theorem settled_root : fs.Settled [] := Or.inl rfl

/-- The directory a directory lies in. -/
theorem lookup_dropLast_dir (h : fs.tree.lookup loc = some .dir) :
    fs.tree.lookup loc.dropLast = some .dir := by
  by_cases hnil : loc = []
  · rw [hnil]
    rfl
  · refine FileTree.lookup_of_append (List.cons_ne_nil (loc.getLast hnil) []) ?_
    rw [List.dropLast_append_getLast hnil, h]
    simp

theorem step_curDir : fs.step follow loc .curDir =
    if fs.isDirAt loc then .ok loc else .error .notADirectory := rfl

theorem step_parentDir : fs.step follow loc .parentDir =
    if fs.isDirAt loc then .ok loc.dropLast else .error .notADirectory := rfl

theorem step_normal (name : String) : fs.step follow loc (.normal name) =
    if fs.isDirAt loc then
      match fs.tree.lookup (loc ++ [name]) with
      | none => .error .notFound
      | some (.file (.link target)) => follow loc target
      | some _ => .ok (loc ++ [name])
    else .error .notADirectory := rfl

theorem settled_step (hfollow : ∀ loc target found, fs.tree.lookup loc = some .dir →
    follow loc target = .ok found → fs.Settled found) {c : Component} {found : List String}
    (h : fs.step follow loc c = .ok found) : fs.Settled found := by
  cases c with
  | rootDir =>
    cases h
    exact settled_root
  | curDir =>
    rw [step_curDir] at h
    split at h
    · next hdir =>
      cases h
      exact Or.inl (isDirAt_iff.mp hdir)
    · cases h
  | parentDir =>
    rw [step_parentDir] at h
    split at h
    · next hdir =>
      cases h
      exact Or.inl (lookup_dropLast_dir (isDirAt_iff.mp hdir))
    · cases h
  | normal name =>
    rw [step_normal] at h
    split at h
    · next hdir =>
      split at h
      · cases h
      · exact hfollow _ _ _ (isDirAt_iff.mp hdir) h
      · next node hnotLink hnode =>
        cases h
        cases node with
        | dir => exact Or.inl hnode
        | file leaf =>
          cases leaf with
          | content bytes => exact Or.inr ⟨bytes, hnode⟩
          | link target => exact absurd rfl (hnotLink target)
    · cases h

theorem settled_walk (hfollow : ∀ loc target found, fs.tree.lookup loc = some .dir →
    follow loc target = .ok found → fs.Settled found) {cs : List Component} {found : List String}
    (hloc : fs.Settled loc) (h : fs.walk follow loc cs = .ok found) : fs.Settled found := by
  induction cs generalizing loc with
  | nil =>
    cases h
    exact hloc
  | cons c cs ih =>
    unfold walk at h
    rw [List.foldlM_cons] at h
    cases hstep : fs.step follow loc c with
    | error e =>
      rw [hstep] at h
      cases h
    | ok next =>
      rw [hstep] at h
      exact ih (settled_step hfollow hstep) h

theorem settled_resolveWith (hfollow : ∀ loc target found, fs.tree.lookup loc = some .dir →
    follow loc target = .ok found → fs.Settled found) {path : String} {found : List String}
    (hloc : fs.tree.lookup loc = some .dir) (h : fs.resolveWith follow loc path = .ok found) :
    fs.Settled found := by
  unfold resolveWith at h
  split at h
  · cases h
  split at h
  · cases h
  next hwalk =>
  split at h
  · cases h
  · cases h
    exact settled_walk hfollow (Or.inl hloc) hwalk

theorem settled_followUpTo (n : Nat) {target : String} {found : List String}
    (hloc : fs.tree.lookup loc = some .dir) (h : fs.followUpTo n loc target = .ok found) :
    fs.Settled found := by
  induction n generalizing loc target found with
  | zero => cases h
  | succ n ih => exact settled_resolveWith (fun _ _ _ hdir hf => ih hdir hf) hloc h

/-- A path leads to a directory or to content. -/
theorem settled_resolve {path : String} {found : List String} (h : fs.resolve path = .ok found) :
    fs.Settled found :=
  settled_resolveWith (fun _ _ _ hdir hf => settled_followUpTo fs.nesting hdir hf) fs.cwd_dir h

/-! ## Walking names -/

theorem walk_append (cs ds : List Component) :
    fs.walk follow loc (cs ++ ds) =
      (fs.walk follow loc cs).bind fun found => fs.walk follow found ds :=
  List.foldlM_append

/-- No link lies on the way to a location. -/
theorem walk_settled {names : List String}
    (h : fs.Settled (loc ++ names)) :
    fs.walk follow loc (names.map .normal) = .ok (loc ++ names) := by
  induction names using List.reverseRecOn with
  | nil =>
    rw [List.append_nil]
    rfl
  | append_singleton names name ih =>
    rw [← List.append_assoc] at h ⊢
    have hdir : fs.tree.lookup (loc ++ names) = some .dir :=
      FileTree.lookup_of_append (List.cons_ne_nil name []) h.ne_none
    rw [List.map_append, walk_append, ih (Or.inl hdir)]
    show fs.step follow (loc ++ names) (.normal name) >>= pure = _
    rw [step_normal, if_pos (isDirAt_iff.mpr hdir)]
    rcases h with h | ⟨bytes, h⟩
    · rw [h]
      rfl
    · rw [h]
      rfl

/-- Without links, names lead to where they say. -/
theorem walk_of_no_link (hlinks : ∀ q target, fs.tree.lookup q ≠ some (.file (.link target)))
    {names found : List String} (h : fs.walk follow loc (names.map .normal) = .ok found) :
    found = loc ++ names := by
  induction names generalizing loc with
  | nil =>
    cases h
    exact (List.append_nil _).symm
  | cons name names ih =>
    unfold walk at h
    rw [List.map_cons, List.foldlM_cons, step_normal] at h
    split at h
    · split at h
      · cases h
      · next target hlink => exact absurd hlink (hlinks _ target)
      · rw [ih h, List.append_assoc, List.singleton_append]
    · cases h

theorem demandsDirectory_front {front name : String} (hfront : Front front) (h : Plain name) :
    demandsDirectory (front ++ name) = false := by
  have hname : (name.toList == [] || name.toList == ['.']) = false := by
    simp [h.toList_ne.1, h.toList_ne.2.1]
  have hlast : ((front ++ name).toList.splitOn '/').getLast? = some name.toList := by
    rcases hfront with rfl | hslash
    · rw [show "" ++ name = name by simp, h.splitOn_eq]
      rfl
    · obtain ⟨init, hinit⟩ : ∃ init, front.toList = init ++ ['/'] :=
        List.getLast?_eq_some_iff.mp hslash
      rw [String.toList_append, hinit, List.append_assoc, List.singleton_append,
        List.splitOn_append_cons_self, h.splitOn_eq, List.getLast?_concat]
  unfold demandsDirectory
  rw [hlast]
  exact hname

theorem demandsDirectory_join {name : String} (base : String) (h : Plain name) :
    demandsDirectory (join base name) = false := by
  obtain ⟨front, hjoin, hfront⟩ := join_front base (Or.inl rfl : Front "") h
  rw [show "" ++ name = name by simp] at hjoin
  rw [hjoin]
  exact demandsDirectory_front hfront h

/-- A path that demands nothing is walked from its components alone. -/
theorem resolveWith_of_walk {path : String} (hne : path ≠ "")
    (hdemands : demandsDirectory path = false) :
    fs.resolveWith follow loc path = fs.walk follow loc (components path) := by
  unfold resolveWith
  rw [if_neg hne, hdemands]
  cases fs.walk follow loc (components path) with
  | error e => rfl
  | ok found => rfl

theorem walk_of_resolve {path : String} {found : List String}
    (h : fs.resolve path = .ok found) :
    path ≠ "" ∧ fs.walk fs.follow fs.cwd (components path) = .ok found := by
  unfold resolve resolveWith at h
  split at h
  · cases h
  next hne =>
  split at h
  · cases h
  next hwalk =>
  split at h
  · cases h
  · cases h
    exact ⟨hne, hwalk⟩

/-- Whatever a path that leads to a directory demands, it has. -/
theorem resolve_of_walk_dir {path : String} {found : List String} (hne : path ≠ "")
    (hwalk : fs.walk fs.follow fs.cwd (components path) = .ok found)
    (hdir : fs.tree.lookup found = some .dir) : fs.resolve path = .ok found := by
  unfold resolve resolveWith
  rw [if_neg hne, hwalk]
  dsimp only
  rw [isDirAt_iff.mpr hdir, Bool.not_true, Bool.and_false]
  rfl

theorem demandsDirectory_join_names (base : String) {names : List String} (hnames : names ≠ [])
    (hplain : ∀ name ∈ names, Plain name) :
    demandsDirectory (join base (pathOfNames names)) = false := by
  obtain ⟨init, name, rfl⟩ := List.eq_nil_or_concat names |>.resolve_left hnames
  rw [List.concat_eq_append] at hplain ⊢
  have hname : Plain name := hplain name (by simp)
  have hinit : ∀ n ∈ init, Plain n := fun n hn => hplain n (by simp [hn])
  rw [pathOfNames_snoc]
  by_cases hnil : init = []
  · rw [hnil, pathOfNames_nil, join_empty hname.not_absolute]
    exact demandsDirectory_join base hname
  · rw [join_assoc (fun hempty => hnil ((pathOfNames_eq_empty_iff hinit).mp hempty))
      (pathOfNames_relative hinit) hname.not_absolute]
    exact demandsDirectory_join _ hname

/-- Names below a directory are walked from where it is, however it is spelled. -/
theorem resolve_join_names {base : String} {names : List String} (hnames : names ≠ [])
    (hplain : ∀ name ∈ names, Plain name) (h : fs.resolve base = .ok loc) :
    fs.resolve (join base (pathOfNames names)) =
      fs.walk fs.follow loc (names.map .normal) := by
  obtain ⟨hne, hwalk⟩ := walk_of_resolve h
  have hcomponents := components_join_names hne hplain
  have hjoined : join base (pathOfNames names) ≠ "" := by
    intro hempty
    rw [hempty, components_empty] at hcomponents
    exact hnames (List.map_eq_nil_iff.mp (List.append_eq_nil_iff.mp hcomponents.symm).2)
  unfold resolve
  rw [resolveWith_of_walk hjoined (demandsDirectory_join_names base hnames hplain), hcomponents,
    walk_append, hwalk]
  rfl

/-- A name below a directory. -/
theorem resolve_join_name {base name : String} (hname : Plain name)
    (h : fs.resolve base = .ok loc) :
    fs.resolve (join base name) = fs.walk fs.follow loc [.normal name] := by
  have hone : pathOfNames [name] = name := join_empty hname.not_absolute
  have hplain : ∀ n ∈ [name], Plain n := fun n hn => by
    rw [List.mem_singleton.mp hn]
    exact hname
  have hresolve := resolve_join_names (List.cons_ne_nil name []) hplain h
  rw [hone] at hresolve
  exact hresolve

/-! ## Canonical paths -/

theorem resolve_absolutePath (h : fs.Settled loc) : fs.resolve (absolutePath loc) = .ok loc := by
  have hcomponents := components_absolutePath h.plain
  have hne : absolutePath loc ≠ "" := by
    intro hempty
    rw [hempty, components_empty] at hcomponents
    cases hcomponents
  have hwalk : fs.walk fs.follow fs.cwd (components (absolutePath loc)) = .ok loc := by
    rw [hcomponents]
    exact @walk_settled α fs [] fs.follow loc h
  by_cases hnil : loc = []
  · exact resolve_of_walk_dir hne hwalk (by rw [hnil]; rfl)
  · obtain ⟨init, name, rfl⟩ := List.eq_nil_or_concat loc |>.resolve_left hnil
    rw [List.concat_eq_append] at h hwalk hne ⊢
    have hname : Plain name := h.plain name (by simp)
    have hdemands : demandsDirectory (absolutePath (init ++ [name])) = false := by
      rw [absolutePath_snoc]
      exact demandsDirectory_join _ hname
    unfold resolve
    rw [resolveWith_of_walk hne hdemands, hwalk]

theorem canonicalize_ok_iff {path c : String} :
    fs.canonicalize path = .ok c ↔
      ∃ found, fs.resolve path = .ok found ∧ c = absolutePath found := by
  unfold canonicalize
  cases fs.resolve path with
  | error e => simp [Except.map]
  | ok found => simp [Except.map, eq_comm]

/-- What is read under a path is the content at the location it leads to. -/
theorem read_ok_iff {path : String} {bytes : α} :
    fs.read path = .ok bytes ↔
      ∃ found, fs.resolve path = .ok found ∧
        fs.tree.lookup found = some (.file (.content bytes)) := by
  unfold read
  cases fs.resolve path with
  | error e => simp
  | ok found =>
    dsimp only
    split
    · next hlookup => simp [hlookup]
    · next hlookup => simp [hlookup]
    · next hcontent _ =>
      constructor
      · simp
      · rintro ⟨found', heq, hlookup⟩
        cases heq
        exact absurd hlookup (hcontent bytes)

theorem read_of_error {path : String} {e : IoErrorKind} (h : fs.resolve path = .error e) :
    fs.read path = .error e := by
  unfold read
  rw [h]

/-! ## A path and its parent -/

/-- A file is looked up in what its parent leads to. -/
theorem resolve_of_parent {path up name : String} (hup : parent path = some up)
    (hname : fileName path = some name) (hdemands : demandsDirectory path = false)
    (h : fs.resolve up = .ok loc) :
    fs.resolve path = fs.walk fs.follow loc [.normal name] := by
  obtain ⟨hne, hwalk⟩ := walk_of_resolve h
  unfold fileName at hname
  unfold parent at hup
  cases hlast : (components path).getLast? with
  | none =>
    rw [hlast] at hname
    cases hname
  | some last =>
    obtain ⟨cs, hcs⟩ := List.getLast?_eq_some_iff.mp hlast
    rw [hlast] at hname hup
    obtain rfl : last = .normal name := by
      cases last with
      | normal n =>
        cases hname
        rfl
      | rootDir => cases hname
      | curDir => cases hname
      | parentDir => cases hname
    rw [hcs, List.dropLast_concat] at hup
    obtain rfl := Option.some.inj hup
    have hcomponents : components (pathOf cs) = cs := by
      cases cs with
      | nil => exact absurd rfl hne
      | cons c cs =>
        obtain ⟨hc, hinner⟩ := inner_of_components hcs
        exact components_pathOf hc fun d hd => hinner d (by simp [hd])
    have hpath : path ≠ "" := by
      rintro rfl
      rw [components_empty] at hcs
      simp at hcs
    rw [hcomponents] at hwalk
    unfold resolve
    rw [resolveWith_of_walk hpath hdemands, hcs, walk_append, hwalk]
    rfl

/-- A name that stays in a directory is an entry of it, wherever the directory is. -/
theorem resolve_of_staysIn {dir name ext : String} (hext : '/' ∉ ext.toList)
    (hlength : 2 < ext.toList.length) (hstays : StaysIn dir (upToLast '/' name))
    (h : fs.resolve dir = .ok loc) :
    fs.resolve (join dir (name ++ ext)) =
      fs.walk fs.follow loc [.normal (lastPiece '/' name ++ ext)] := by
  obtain ⟨hne, hwalk⟩ := walk_of_resolve h
  have hfront : Front (upToLast '/' name) := upToLast_cases '/' name
  have hplain : Plain (lastPiece '/' name ++ ext) :=
    plain_append_ext (notMem_lastPiece '/' name) hext hlength
  have hcomponents := components_join_staysIn hplain hfront @hstays
  obtain ⟨front, hjoin, hfront'⟩ := join_front dir hfront hplain
  have hname : name ++ ext = upToLast '/' name ++ (lastPiece '/' name ++ ext) := by
    rw [← String.append_assoc, upToLast_append_lastPiece]
  rw [hname]
  have hdemands : demandsDirectory
      (join dir (upToLast '/' name ++ (lastPiece '/' name ++ ext))) = false := by
    rw [hjoin]
    exact demandsDirectory_front hfront' hplain
  have hpath : join dir (upToLast '/' name ++ (lastPiece '/' name ++ ext)) ≠ "" := by
    intro hempty
    rw [hempty, components_empty] at hcomponents
    simp at hcomponents
  unfold resolve
  rw [resolveWith_of_walk hpath hdemands, hcomponents, walk_append, hwalk]
  rfl

/-- The parent of names below a directory, however that is spelled. -/
theorem resolve_pathOf_join {base : String} {names : List String}
    (hplain : ∀ name ∈ names, Plain name) (h : fs.resolve base = .ok loc)
    (hdir : fs.tree.lookup loc = some .dir) :
    fs.resolve (pathOf (components base ++ names.map .normal)) =
      fs.walk fs.follow loc (names.map .normal) := by
  obtain ⟨hne, hwalk⟩ := walk_of_resolve h
  have hcomponents : components (pathOf (components base ++ names.map .normal)) =
      components base ++ names.map .normal := by
    rw [← components_join_names hne hplain]
    exact components_pathOf_components _
  have hpath : pathOf (components base ++ names.map .normal) ≠ "" := by
    intro hempty
    have hnil := hcomponents
    rw [hempty, components_empty] at hnil
    obtain ⟨hbase, -⟩ := List.append_eq_nil_iff.mp hnil.symm
    exact components_ne_nil hne hbase
  by_cases hnil : names = []
  · rw [hnil] at hcomponents hpath ⊢
    rw [List.map_nil, List.append_nil] at hcomponents hpath ⊢
    exact resolve_of_walk_dir hpath (by rw [hcomponents]; exact hwalk) hdir
  · obtain ⟨init, name, rfl⟩ := List.eq_nil_or_concat names |>.resolve_left hnil
    rw [List.concat_eq_append] at hplain hcomponents hpath ⊢
    have hdemands : demandsDirectory
        (pathOf (components base ++ (init ++ [name]).map .normal)) = false := by
      rw [List.map_append, List.map_cons, List.map_nil, ← List.append_assoc, pathOf_snoc]
      exact demandsDirectory_join _ (hplain name (by simp))
    unfold resolve
    rw [resolveWith_of_walk hpath hdemands, hcomponents, walk_append, hwalk]
    rfl

/-! ## Building a tree -/

variable [DecidableEq α]

def empty (nesting : Nat) : FileSystem α where
  tree := .empty
  plain := fun loc hloc name hname => by
    have hnil : loc = [] := by
      by_contra hne
      exact hloc (FileTree.lookup_eq_none_iff.mpr ⟨hne, List.not_mem_nil⟩)
    rw [hnil] at hname
    exact absurd hname List.not_mem_nil
  cwd := []
  cwd_dir := rfl
  nesting

/-- The tree after a call that put one node at `loc`, which is no directory that was there. -/
def withTree (fs : FileSystem α) (t : FileTree (Leaf α)) (loc : List String) (node : Node (Leaf α))
    (hplain : ∀ name ∈ loc, Plain name) (hkeep : node = .dir ∨ fs.tree.lookup loc ≠ some .dir)
    (h : ∀ q, t.lookup q = if q = loc then some node else fs.tree.lookup q) : FileSystem α where
  tree := t
  plain := fun q hq => by
    rw [h] at hq
    split at hq
    · next heq => exact heq ▸ hplain
    · exact fs.plain q hq
  cwd := fs.cwd
  cwd_dir := by
    rw [h]
    split
    · next heq =>
      rcases hkeep with rfl | hnot
      · rfl
      · exact absurd (heq ▸ fs.cwd_dir) hnot
    · exact fs.cwd_dir
  nesting := fs.nesting

/-- A node added where the tree takes one. -/
def add (fs : FileSystem α) (loc : List String) (node : Node (Leaf α)) : FileSystem α :=
  if hplain : ∀ name ∈ loc, Plain name then
    match node with
    | .dir =>
      match h : fs.tree.mkdir loc with
      | some t => fs.withTree t loc .dir hplain (Or.inl rfl) (FileTree.lookup_mkdir h)
      | none => fs
    | .file leaf =>
      match h : fs.tree.write loc leaf with
      | some t => fs.withTree t loc (.file leaf) hplain
          (Or.inr ((FileTree.isSome_write leaf).mp (by rw [h]; rfl)).2.2) (FileTree.lookup_write h)
      | none => fs
  else fs

def ofEntries (nesting : Nat) (entries : List (List String × Node (Leaf α))) : FileSystem α :=
  entries.foldl (fun fs entry => fs.add entry.1 entry.2) (empty nesting)

/-- There is a tree of the directories on the way to one of them. -/
theorem exists_directories {names : List String} (hplain : ∀ name ∈ names, Plain name) :
    ∃ fs : FileSystem α, ∀ q node, fs.tree.lookup q = some node ↔ q <+: names ∧ node = .dir := by
  induction names using List.reverseRecOn with
  | nil =>
    refine ⟨empty 0, fun q node => ?_⟩
    rw [List.prefix_nil]
    by_cases hq : q = []
    · rw [hq]
      exact ⟨fun h => ⟨rfl, (Option.some.inj h).symm⟩, fun h => by rw [h.2]; rfl⟩
    · refine iff_of_false ?_ fun h => hq h.1
      rw [show (empty (α := α) 0).tree.lookup q = none from
        FileTree.lookup_eq_none_iff.mpr ⟨hq, List.not_mem_nil⟩]
      simp
  | append_singleton names name ih =>
    obtain ⟨fs, hfs⟩ := ih fun n hn => hplain n (by simp [hn])
    have hmk : (fs.tree.mkdir (names ++ [name])).isSome = true := by
      have hparent : fs.tree.lookup names = some .dir := (hfs names .dir).mpr ⟨List.prefix_rfl, rfl⟩
      have hnone : fs.tree.lookup (names ++ [name]) = none := by
        refine Option.eq_none_iff_forall_ne_some.mpr fun node hnode => ?_
        have := ((hfs _ node).mp hnode).1.length_le
        rw [List.length_append, List.length_singleton] at this
        omega
      unfold FileTree.mkdir
      rw [dif_pos ⟨by simp, by rw [List.dropLast_concat]; exact hparent, hnone⟩]
      rfl
    obtain ⟨t, ht⟩ := Option.isSome_iff_exists.mp hmk
    refine ⟨fs.withTree t _ .dir hplain (Or.inl rfl) (FileTree.lookup_mkdir ht), fun q node => ?_⟩
    show t.lookup q = some node ↔ _
    rw [FileTree.lookup_mkdir ht, List.prefix_concat_iff]
    split
    · next hq => simp [hq, eq_comm]
    · next hq => simp [hq, hfs]

/-- There is a tree of one file and the directories it is in. -/
theorem exists_one_file {names : List String} (hne : names ≠ [])
    (hplain : ∀ name ∈ names, Plain name) (bytes : α) :
    ∃ fs : FileSystem α, ∀ q leaf,
      fs.tree.lookup q = some (.file leaf) ↔ q = names ∧ leaf = .content bytes := by
  obtain ⟨init, name, rfl⟩ := List.eq_nil_or_concat names |>.resolve_left hne
  rw [List.concat_eq_append] at hplain ⊢
  obtain ⟨fs, hfs⟩ := @exists_directories α _ init fun n hn => hplain n (by simp [hn])
  have hparent : fs.tree.lookup init = some .dir := (hfs init .dir).mpr ⟨List.prefix_rfl, rfl⟩
  have hdir : fs.tree.lookup (init ++ [name]) ≠ some .dir := by
    intro h
    have := ((hfs _ _).mp h).1.length_le
    rw [List.length_append, List.length_singleton] at this
    omega
  have hwrite : (fs.tree.write (init ++ [name]) (.content bytes)).isSome = true :=
    (FileTree.isSome_write _).mpr ⟨by simp, by rw [List.dropLast_concat]; exact hparent, hdir⟩
  obtain ⟨t, ht⟩ := Option.isSome_iff_exists.mp hwrite
  refine ⟨fs.withTree t _ (.file (.content bytes)) hplain (Or.inr hdir) (FileTree.lookup_write ht),
    fun q leaf => ?_⟩
  show t.lookup q = some (.file leaf) ↔ _
  rw [FileTree.lookup_write ht]
  split
  · next hq => simp [hq, eq_comm]
  · next hq => simp [hq, hfs]

end FileSystem

end Mik.Lib
