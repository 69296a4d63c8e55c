/-
  Pulls on the tree of the project (`commands/pull.rs`).

  The project is a tree of directories and files, without symbolic links. The directory of a module
  is made by some of the ways to pull, and has to be there for the others. In `treeWorld` only this
  and the creation of files matter: whatever else a pull is answered, if it succeeds it has made its
  module and what leads to it, and nothing else (`pullDependency_addsModule`).
-/
import Mathlib.Logic.Function.Basic
import Mik.Config.PullPlaces

namespace Mik.Config

open Mik.Lib Prog Function

/-! ## The tree -/

inductive Kind where
  | file
  | directory
  deriving DecidableEq, Repr

/-- What there is at a place. -/
abbrev Tree := List String → Option Kind

/-- The place that a component leads to. -/
def follow (place : List String) : Component → List String
  | .rootDir => []
  | .curDir => place
  | .parentDir => place.dropLast
  | .normal name => place ++ [name]

namespace Tree

/-- The place that components lead to; what they go through has to be directories. -/
def walk (t : Tree) : List String → List Component → Option (List String)
  | place, [] => some place
  | place, c :: cs => if t place = some .directory then walk t (follow place c) cs else none

/-- `Path::exists`. -/
def has (t : Tree) (cwd : List String) (path : String) : Bool :=
  (t.walk cwd (components path)).any fun place => (t place).isSome

/-- `fs::create_dir_all`. -/
def makeDirs (t : Tree) (place : List String) : List Component → Option Tree
  | [] => if t place = some .directory then some t else none
  | c :: cs =>
    if t place = some .directory then
      match t (follow place c) with
      | some _ => makeDirs t (follow place c) cs
      | none => makeDirs (update t (follow place c) (some .directory)) (follow place c) cs
    else none

/-- `File::create`. -/
def createFile (t : Tree) (cwd : List String) (path : String) : Option Tree :=
  (t.walk cwd (components path)).bind fun place =>
    if t place = some .directory then none else some (update t place (some .file))

/-- The tree without those files of `modules/`. -/
def without (t : Tree) (cwd names : List String) : Tree := fun place =>
  if t place = some .file ∧ place ∈ names.map fun entry => cwd ++ ["modules", entry] then none
  else t place

/-- What a call makes of the tree when it succeeds, or nothing when it cannot. Only the files of the
    cache directory have absolute paths, and they are not in the tree. -/
def onCall (t : Tree) (cwd : List String) : PullAct → Option Tree
  | .createDirAll path => if isAbsolute path then some t else t.makeDirs cwd (components path)
  | .create path => if isAbsolute path then some t else t.createFile cwd path
  | _ => some t

end Tree

/-- The world of a pull, as far as the project is concerned. -/
def treeWorld (cwd : List String) : Outside PullAct PullAct.Answer Tree where
  may t
    | .cacheDir, r => ∀ dir, r = some dir → isAbsolute dir = true
    | .createDirAll path, .ok () => (t.onCall cwd (.createDirAll path)).isSome = true
    | .create path, .ok () => (t.onCall cwd (.create path)).isSome = true
    | _, _ => True
  effect t
    | .createDirAll path, .ok () => (t.onCall cwd (.createDirAll path)).getD t
    | .create path, .ok () => (t.onCall cwd (.create path)).getD t
    | _, _ => t

/-! ## Ways -/

/-- The places that components go through, to the last. -/
def way : List String → List Component → List (List String)
  | place, [] => [place]
  | place, c :: cs => place :: way (follow place c) cs

/-- The directories that the path of a module goes through. -/
def moduleWay (cwd : List String) (name : String) : List (List String) :=
  way cwd (components (modulePath name)).dropLast

/-! ## Trees that grow -/

/-- The tree is the other one with these directories and files. -/
structure Adds (t t' : Tree) (dirs files : List String → Prop) : Prop where
  directory : ∀ p, t' p = some .directory ↔ t p = some .directory ∨ dirs p
  file : ∀ p, t' p = some .file ↔ t p = some .file ∨ files p

/-- The tree is the other one with the module and the directories on its way. -/
abbrev AddsModule (cwd : List String) (name : String) (t t' : Tree) : Prop :=
  Adds t t' (· ∈ moduleWay cwd name) (· = locate cwd (modulePath name))

section

variable {t t' t'' : Tree} {cwd place place' : List String} {cs : List Component} {c : Component}
  {dirs dirs' files files' : List String → Prop}

theorem ne_none_iff (p : List String) :
    t p ≠ none ↔ t p = some .directory ∨ t p = some .file := by
  cases t p with
  | none => exact iff_of_false (fun h => h rfl) (by rintro (h | h) <;> cases h)
  | some kind =>
    refine iff_of_true nofun ?_
    cases kind with
    | file => exact Or.inr rfl
    | directory => exact Or.inl rfl

theorem Adds.ne_none_iff (h : Adds t t' dirs files) (p : List String) :
    t' p ≠ none ↔ t p ≠ none ∨ dirs p ∨ files p := by
  rw [Config.ne_none_iff, Config.ne_none_iff, h.directory, h.file]
  exact or_or_or_comm

theorem Adds.trans (h : Adds t t' dirs files) (h' : Adds t' t'' dirs' files') :
    Adds t t'' (fun p => dirs p ∨ dirs' p) fun p => files p ∨ files' p where
  directory p := by rw [h'.directory, h.directory, or_assoc]
  file p := by rw [h'.file, h.file, or_assoc]

/-- Only the directories that were not there count. -/
theorem Adds.congr (h : Adds t t' dirs files)
    (hdirs : ∀ p, t p = some .directory ∨ dirs' p ↔ t p = some .directory ∨ dirs p)
    (hfiles : ∀ p, files' p ↔ files p) : Adds t t' dirs' files' where
  directory p := by rw [hdirs, h.directory]
  file p := by rw [hfiles, h.file]

theorem adds_update_directory (h : t place = none) :
    Adds t (update t place (some .directory)) (· = place) fun _ => False where
  directory p := by
    by_cases hp : p = place
    · subst hp
      rw [update_self]
      exact iff_of_true rfl (Or.inr rfl)
    · rw [update_of_ne hp]
      exact (or_iff_left hp).symm
  file p := by
    by_cases hp : p = place
    · subst hp
      rw [update_self, h]
      exact iff_of_false nofun (by rintro (h | h) <;> cases h)
    · rw [update_of_ne hp]
      exact (or_iff_left not_false).symm

theorem adds_update_file (h : t place ≠ some .directory) :
    Adds t (update t place (some .file)) (fun _ => False) (· = place) where
  directory p := by
    by_cases hp : p = place
    · subst hp
      rw [update_self]
      exact iff_of_false nofun (not_or.mpr ⟨h, not_false⟩)
    · rw [update_of_ne hp]
      exact (or_iff_left not_false).symm
  file p := by
    by_cases hp : p = place
    · subst hp
      rw [update_self]
      exact iff_of_true rfl (Or.inr rfl)
    · rw [update_of_ne hp]
      exact (or_iff_left hp).symm

/-! ## Walking -/

theorem first_mem_way (place : List String) (cs : List Component) : place ∈ way place cs := by
  cases cs with
  | nil => exact List.mem_singleton_self _
  | cons c cs => exact List.mem_cons_self

/-- A path is walked exactly through directories. -/
theorem walk_snoc_iff : t.walk place (cs ++ [c]) = some place' ↔
    (∀ p ∈ way place cs, t p = some .directory) ∧ (cs ++ [c]).foldl follow place = place' := by
  induction cs generalizing place with
  | nil =>
    show (if t place = some .directory then some (follow place c) else none) = some place' ↔ _
    unfold way
    rw [List.forall_mem_singleton]
    split
    · next h =>
      rw [Option.some.injEq]
      exact (and_iff_right h).symm
    · next h => exact iff_of_false nofun fun hboth => h hboth.1
  | cons c' cs ih =>
    show (if t place = some .directory then t.walk (follow place c') (cs ++ [c]) else none)
      = some place' ↔ _
    unfold way
    rw [List.forall_mem_cons]
    split
    · next h =>
      rw [ih, and_iff_right h]
      rfl
    · next h => exact iff_of_false nofun fun hboth => h hboth.1.1

/-- The directories of the way are there afterwards, and nothing else is new. -/
theorem makeDirs_adds (h : t.makeDirs place cs = some t') :
    Adds t t' (· ∈ way place cs) fun _ => False := by
  induction cs generalizing t place with
  | nil =>
    unfold Tree.makeDirs at h
    split at h
    · next hplace =>
      cases h
      refine ⟨fun p => (or_iff_left_of_imp fun hp => ?_).symm,
        fun p => (or_iff_left not_false).symm⟩
      rw [List.mem_singleton.mp hp]
      exact hplace
    · cases h
  | cons c cs ih =>
    unfold Tree.makeDirs at h
    split at h
    · next hplace =>
      have hfirst : ∀ p, t p = some .directory ∨ p ∈ way place (c :: cs) ↔
          t p = some .directory ∨ p ∈ way (follow place c) cs := by
        intro p
        show _ ∨ p ∈ place :: way (follow place c) cs ↔ _
        rw [List.mem_cons, ← or_assoc]
        refine or_congr_left (or_iff_left_of_imp ?_)
        rintro rfl
        exact hplace
      split at h
      · exact (ih h).congr hfirst fun _ => Iff.rfl
      · next hnone =>
        refine ((adds_update_directory hnone).trans (ih h)).congr (fun p => ?_) fun p => ?_
        · rw [hfirst]
          refine or_congr_right (or_iff_right_of_imp ?_).symm
          rintro rfl
          exact first_mem_way _ _
        · exact (or_self_iff).symm
    · cases h

theorem locate_eq (cwd : List String) (path : String) :
    locate cwd path = (components path).foldl follow cwd := rfl

/-- A file is created exactly in a directory. -/
theorem createFile_adds {path : String} (hpath : components path = cs ++ [c])
    (h : t.createFile cwd path = some t') :
    Adds t t' (· ∈ way cwd cs) (· = locate cwd path) := by
  unfold Tree.createFile at h
  rw [hpath] at h
  obtain ⟨place, hwalk, hplace⟩ := Option.bind_eq_some_iff.mp h
  obtain ⟨hway, rfl⟩ := walk_snoc_iff.mp hwalk
  rw [locate_eq, hpath]
  split at hplace
  · cases hplace
  · next hfile =>
    cases hplace
    refine (adds_update_file hfile).congr (fun p => ?_) fun p => Iff.rfl
    rw [or_iff_left not_false]
    exact or_iff_left_of_imp fun hp => hway p hp

/-! ## A module -/

theorem isAbsolute_modulePath (name : String) : isAbsolute (modulePath name) = false := by
  unfold modulePath
  rw [String.append_assoc, isAbsolute_append (by decide)]
  decide

/-- The components of a module: its directory, and a name. -/
theorem components_modulePath_eq (name : String) : ∃ file,
    components (modulePath name) = (components (modulePath name)).dropLast ++ [.normal file] := by
  obtain ⟨stem, hstem⟩ := components_modulePath name
  refine ⟨stem ++ ".wasm", ?_⟩
  rw [hstem, List.dropLast_concat]

theorem has_module_iff (name : String) : t.has cwd (modulePath name) = true ↔
    (∀ p ∈ moduleWay cwd name, t p = some .directory) ∧
      t (locate cwd (modulePath name)) ≠ none := by
  obtain ⟨file, hfile⟩ := components_modulePath_eq name
  have hwalk (place : List String) :
      t.walk cwd (components (modulePath name)) = some place ↔
        (∀ p ∈ moduleWay cwd name, t p = some .directory) ∧
          locate cwd (modulePath name) = place := by
    rw [locate_eq, hfile, walk_snoc_iff, ← hfile]
    rfl
  unfold Tree.has
  rw [Option.any_eq_true]
  constructor
  · rintro ⟨place, hplace, hsome⟩
    obtain ⟨hway, rfl⟩ := (hwalk place).mp hplace
    exact ⟨hway, Option.isSome_iff_ne_none.mp hsome⟩
  · rintro ⟨hway, hne⟩
    exact ⟨_, (hwalk _).mpr ⟨hway, rfl⟩, Option.isSome_iff_ne_none.mpr hne⟩

/-- What is there stays there. -/
theorem Adds.has_module_iff (h : Adds t t' dirs files) (name : String) :
    t'.has cwd (modulePath name) = true ↔
      (∀ p ∈ moduleWay cwd name, t p = some .directory ∨ dirs p) ∧
        (t (locate cwd (modulePath name)) ≠ none ∨ dirs (locate cwd (modulePath name)) ∨
          files (locate cwd (modulePath name))) := by
  rw [Config.has_module_iff, h.ne_none_iff]
  simp only [h.directory]

end

/-! ## What a pull makes -/

section

variable {cwd : List String} {t : Tree} {name : String} {α β : Type} {Q : Tree → Prop}

/-- Where the program succeeds, the tree is such. -/
def Yields (cwd : List String) (t : Tree) (p : PullProg (Result α)) (Q : Tree → Prop) : Prop :=
  p.Safe (treeWorld cwd) (fun _ => True) (Ends (fun _ => True) fun _ => Q) t

/-- The program leaves the tree as it is. -/
def Idle (cwd : List String) (t : Tree) (p : PullProg α) : Prop :=
  p.Safe (treeWorld cwd) (fun _ => True) (fun _ t' => t' = t) t

theorem Idle.yields {p : PullProg (Result α)} (h : Idle cwd t p) : Yields cwd t p (· = t) :=
  h.mono fun _ _ heq => ⟨trivial, fun _ _ => heq⟩

theorem Idle.bind {p : PullProg α} {f : α → PullProg β} (hp : Idle cwd t p)
    (hf : ∀ x, Idle cwd t (f x)) : Idle cwd t (p >>= f) :=
  Safe.bind hp fun x _ heq => heq ▸ hf x

theorem Idle.andThen {p : PullProg (Result α)} {f : α → PullProg (Result β)} (hp : Idle cwd t p)
    (hf : ∀ x, Idle cwd t (f x)) : Idle cwd t (p.andThen f) :=
  hp.bind fun r =>
    match r with
    | .ok x => hf x
    | .error _ => rfl

theorem Idle.context {p : PullProg (Result α)} (hp : Idle cwd t p) (error : String) :
    Idle cwd t (p.context error) :=
  hp.bind fun _ => rfl

theorem Yields.andThen {p : PullProg (Result α)} {f : α → PullProg (Result β)} {Mid : Tree → Prop}
    (hp : Yields cwd t p Mid) (hf : ∀ x t', Mid t' → Yields cwd t' (f x) Q) :
    Yields cwd t (p.andThen f) Q :=
  Safe.andThen hp fun x t' h => hf x t' h

theorem Yields.context {p : PullProg (Result α)} (hp : Yields cwd t p Q) (error : String) :
    Yields cwd t (p.context error) Q :=
  Safe.context hp error

theorem yields_error (error : String) :
    Yields cwd t (pure (.error error) : PullProg (Result α)) Q :=
  ⟨trivial, nofun⟩

/-- Something that leaves the tree as it is, first. -/
theorem Idle.before {p : PullProg (Result α)} {f : α → PullProg (Result β)} (hp : Idle cwd t p)
    (hf : ∀ x, Yields cwd t (f x) Q) : Yields cwd t (p.andThen f) Q :=
  hp.yields.andThen fun x _ heq => heq ▸ hf x

theorem idle_act (a : PullAct) (h : ∀ r, (treeWorld cwd).effect t a r = t) :
    Idle cwd t (perform (R := PullAct.Answer) a) :=
  fun r _ => ⟨trivial, h r⟩

theorem idle_pathExists (path : String) : Idle cwd t (pathExists path) := idle_act _ fun _ => rfl

theorem idle_openRead (path : String) : Idle cwd t (openRead path) := idle_act _ fun _ => rfl

theorem idle_git (call : GitCall) : Idle cwd t (git call) := idle_act _ fun _ => rfl

theorem idle_fill (path : String) (origin : Origin) : Idle cwd t (fill path origin) :=
  (idle_act (.fill path origin) fun _ => rfl).bind fun _ => rfl

/-- What lies at an absolute path is not in the tree. -/
theorem idle_createDirAll {path : String} (h : isAbsolute path = true) :
    Idle cwd t (createDirAll path) := by
  refine idle_act _ fun r => ?_
  cases r with
  | error e => rfl
  | ok u =>
    show (if isAbsolute path then some t else t.makeDirs cwd (components path)).getD t = t
    rw [if_pos h]
    rfl

theorem idle_fsWrite {path : String} (h : isAbsolute path = true) (data : Bytes) :
    Idle cwd t (fsWrite path data) := by
  refine Idle.andThen (idle_act _ fun r => ?_) fun _ => idle_fill _ _
  cases r with
  | error e => rfl
  | ok u =>
    show (if isAbsolute path then some t else t.createFile cwd path).getD t = t
    rw [if_pos h]
    rfl

theorem isAbsolute_blobPath {dir digest path : String} (hdir : isAbsolute dir = true)
    (h : blobPath (some dir) digest = .ok path) : isAbsolute path = true := by
  unfold blobPath at h
  dsimp only at h
  split at h
  · cases h
  · cases h
    exact isAbsolute_join (isAbsolute_join (isAbsolute_join (isAbsolute_join
      (isAbsolute_join hdir _) _) _) _) _

/-- The directory of the cache is absolute, if there is one. -/
theorem safe_cacheDir : cacheDir.Safe (treeWorld cwd) (fun _ => True)
    (fun r t' => t' = t ∧ ∀ dir, r = some dir → isAbsolute dir = true) t :=
  fun _ hr => ⟨trivial, rfl, hr⟩

theorem idle_getCachedBlob (digest : String) : Idle cwd t (getCachedBlob digest) := by
  refine Safe.bind safe_cacheDir fun r t' h => ?_
  obtain ⟨rfl, -⟩ := h
  cases blobPath r digest with
  | error e => rfl
  | ok path => exact (idle_pathExists path).bind fun _ => rfl

theorem idle_cacheBlob (digest : String) (data : Bytes) : Idle cwd t (cacheBlob digest data) := by
  refine Safe.bind safe_cacheDir fun r t' h => ?_
  obtain ⟨rfl, habs⟩ := h
  cases hpath : blobPath r digest with
  | error e => rfl
  | ok path =>
    have hpathAbs : isAbsolute path = true := by
      cases r with
      | none => cases hpath
      | some dir => exact isAbsolute_blobPath (habs dir rfl) hpath
    cases hparent : parent path with
    | none =>
      dsimp only
      rw [hparent]
      exact idle_fsWrite hpathAbs data
    | some dir =>
      dsimp only
      rw [hparent]
      exact (idle_createDirAll (isAbsolute_of_parent hparent hpathAbs)).andThen fun _ =>
        idle_fsWrite hpathAbs data

theorem idle_findWasm (repoDir name : String) : Idle cwd t (findWasm repoDir name) :=
  idle_act _ fun _ => rfl

/-! ### Making the module -/

theorem yields_createFile {path : String} (h : isAbsolute path = false) :
    Yields cwd t (createFile path) fun t' => t.createFile cwd path = some t' := by
  have hcall : t.onCall cwd (.create path) = t.createFile cwd path :=
    if_neg (ne_true_of_eq_false h)
  intro r hr
  refine ⟨trivial, trivial, fun x hx => ?_⟩
  cases r with
  | error e => cases hx
  | ok u =>
    obtain ⟨t', ht'⟩ := Option.isSome_iff_exists.mp hr
    show t.createFile cwd path = some ((t.onCall cwd (.create path)).getD t)
    rw [ht', ← hcall, ht']
    rfl

theorem yields_createDirAll {path : String} (h : isAbsolute path = false) :
    Yields cwd t (createDirAll path) fun t' => t.makeDirs cwd (components path) = some t' := by
  have hcall : t.onCall cwd (.createDirAll path) = t.makeDirs cwd (components path) :=
    if_neg (ne_true_of_eq_false h)
  intro r hr
  refine ⟨trivial, trivial, fun x hx => ?_⟩
  cases r with
  | error e => cases hx
  | ok u =>
    obtain ⟨t', ht'⟩ := Option.isSome_iff_exists.mp hr
    show t.makeDirs cwd (components path) = some ((t.onCall cwd (.createDirAll path)).getD t)
    rw [ht', ← hcall, ht']
    rfl

theorem Yields.mono {p : PullProg (Result α)} {Q' : Tree → Prop} (hp : Yields cwd t p Q)
    (h : ∀ t', Q t' → Q' t') : Yields cwd t p Q' :=
  Safe.mono hp fun _ t' hends => ⟨trivial, fun x hx => h t' (hends.2 x hx)⟩

/-- The module is created, in a directory that is there. -/
theorem yields_createModule (name : String) :
    Yields cwd t (createFile (modulePath name)) (AddsModule cwd name t) := by
  obtain ⟨file, hfile⟩ := components_modulePath_eq name
  exact (yields_createFile (isAbsolute_modulePath name)).mono fun t' h => createFile_adds hfile h

/-- The directory of the module is made. -/
theorem yields_createParent (name : String) : Yields cwd t (createParent (modulePath name))
    fun t' => Adds t t' (· ∈ moduleWay cwd name) fun _ => False := by
  obtain ⟨file, hfile⟩ := components_modulePath_eq name
  have hparent := (parent_of_components hfile).1
  obtain ⟨dir, hdir, hcomponents⟩ := Option.map_eq_some_iff.mp hparent
  have hrelative : isAbsolute dir = false := by
    refine eq_false_of_ne_true fun habs => ?_
    rw [isAbsolute_iff, hcomponents] at habs
    exact rootDir_notMem_of_relative (isAbsolute_modulePath name) (List.mem_of_mem_dropLast habs)
  unfold createParent
  rw [hdir]
  refine (yields_createDirAll hrelative).mono fun t' h => ?_
  rw [hcomponents] at h
  exact makeDirs_adds h

/-- With its directory made first. -/
theorem yields_inParent {f : Unit → PullProg (Result α)}
    (hf : ∀ t', Yields cwd t' (f ()) (AddsModule cwd name t')) :
    Yields cwd t ((createParent (modulePath name)).andThen f) (AddsModule cwd name t) := by
  refine (yields_createParent name).andThen fun _ t' hparent => ?_
  refine (hf t').mono fun t'' hmodule => (hparent.trans hmodule).congr (fun p => ?_) fun p => ?_
  · rw [or_self_iff]
  · exact (or_iff_right not_false).symm

theorem yields_fillModule (name : String) (origin : Origin) :
    Yields cwd t ((createFile (modulePath name)).andThen fun _ => fill (modulePath name) origin)
      (AddsModule cwd name t) :=
  (yields_createModule name).andThen fun _ _ h =>
    (idle_fill _ _).yields.mono fun _ heq => heq ▸ h

theorem yields_fsCopy (source name : String) :
    Yields cwd t (fsCopy source (modulePath name)) (AddsModule cwd name t) :=
  (idle_openRead source).before fun _ => yields_fillModule name _

theorem yields_pullOci (parse : String → Option OciReference) (ociRef name : String) :
    Yields cwd t (pullOci parse ociRef (modulePath name)) (AddsModule cwd name t) := by
  unfold pullOci
  cases parse ociRef with
  | none => exact yields_error _
  | some _ =>
  refine yields_inParent fun t' => ?_
  refine ((idle_act (.pullManifest ociRef) fun _ => rfl).context _).before fun manifest => ?_
  cases layerOf ociRef manifest with
  | error e => exact yields_error e
  | ok layer =>
  refine Safe.bind (idle_getCachedBlob layer.digest) fun cached t'' heq => ?_
  subst heq
  cases cached with
  | some cachedPath => exact (yields_fsCopy cachedPath name).context _
  | none =>
    refine ((idle_act (.pullBlob ociRef layer.digest) fun _ => rfl).context _).before fun data => ?_
    refine Safe.bind (idle_cacheBlob layer.digest data) fun _ t'' heq => ?_
    subst heq
    exact ((yields_createModule name).context _).andThen fun _ _ h =>
      (idle_fill _ _).yields.mono fun _ heq => heq ▸ h

theorem yields_download (url name : String) :
    Yields cwd t (download url (modulePath name)) (AddsModule cwd name t) := by
  refine yields_inParent fun t' => ?_
  refine ((idle_act (.httpGet url) fun _ => rfl).context _).before fun _ => ?_
  exact ((yields_createModule name).context _).andThen fun _ _ h =>
    (idle_fill _ _).yields.mono fun _ heq => heq ▸ h

theorem idle_prepareRepo (found : Bool) {dir : String} (hdir : isAbsolute dir = true)
    (gitUrl repoDir : String) : Idle cwd t (prepareRepo found dir gitUrl repoDir) := by
  unfold prepareRepo
  split
  · exact ((idle_git _).context _).andThen fun _ => idle_git _
  · exact (idle_createDirAll (isAbsolute_join (isAbsolute_join hdir _) _)).andThen fun _ =>
      (idle_git _).context _

theorem yields_pullGitDependency (hash : String → String) (gitUrl : String) (gitRef : GitRef)
    (name : String) : Yields cwd t (pullGitDependency hash gitUrl gitRef name (modulePath name))
      (AddsModule cwd name t) := by
  refine Safe.bind safe_cacheDir fun r t' h => ?_
  obtain ⟨rfl, habs⟩ := h
  cases r with
  | none => exact yields_error _
  | some dir =>
  refine Safe.bind (idle_pathExists _) fun found t'' heq => ?_
  subst heq
  exact (idle_prepareRepo found (habs dir rfl) _ _).before fun _ => (idle_git _).before fun _ =>
    (idle_findWasm _ name).before fun wasmPath => (yields_fsCopy wasmPath name).context _

theorem yields_pullPath (path name : String) :
    Yields cwd t (pullPath path name (modulePath name)) (AddsModule cwd name t) := by
  unfold pullPath
  split
  · exact yields_fsCopy path name
  · refine Safe.bind (idle_pathExists _) fun found t' heq => ?_
    subst heq
    cases found with
    | true => exact yields_fsCopy _ name
    | false => exact yields_error _

/-- A pull that succeeds has made its module, and the directories on the way to it. -/
theorem pullDependency_addsModule {parse : String → Option OciReference} {hash : String → String}
    {dep : Dependency} {path : String} {t' : Tree}
    (h : Finishes (treeWorld cwd) (pullDependency parse hash name dep) t (.ok path) t') :
    AddsModule cwd name t t' := by
  have hpulled : Yields cwd t (pullDependency parse hash name dep) (AddsModule cwd name t) := by
    refine Yields.andThen ?_ fun _ _ hadds => ⟨trivial, fun _ _ => hadds⟩
    cases selectSource name dep with
    | error e => exact yields_error e
    | ok source =>
      cases source with
      | oci reference => exact yields_pullOci parse reference name
      | http url => exact yields_download url name
      | git url ref => exact yields_pullGitDependency hash url ref name
      | localPath path => exact yields_pullPath path name
  exact (hpulled.of_finishes h).2 path rfl

end

end Mik.Config
