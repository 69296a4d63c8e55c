/-
  Where `sync` writes (`commands/pull.rs`).

  A pull writes the module of its dependency, and below the cache directory blobs and repositories
  (`pullDependency_within`); what `sync` removes are entries of `modules/`. The name of a dependency
  goes into the path of the module as it is, and its segments are walked from there (`moduleDir`,
  `locate_modulePath`): a `..` in a name leads out. `sync_places_iff` says which names do not.
-/
import Mik.Config.PullDamage

namespace Mik.Config

open Mik.Lib Prog

/-! ## Places -/

/-- The place is below the directory. -/
def Inside (dir place : List String) : Prop := dir <+: place ∧ dir ≠ place

theorem inside_snoc_iff {dir place : List String} {name : String} :
    Inside dir (place ++ [name]) ↔ dir <+: place := by
  unfold Inside
  rw [List.prefix_concat_iff]
  constructor
  · rintro ⟨heq | hprefix, hne⟩
    · exact absurd heq hne
    · exact hprefix
  · intro hprefix
    refine ⟨Or.inr hprefix, fun heq => ?_⟩
    have hlength := hprefix.length_le
    rw [heq, List.length_append, List.length_singleton] at hlength
    omega

theorem inside_trans {dir place place' : List String} (h : Inside dir place)
    (h' : place <+: place') : Inside dir place' := by
  refine ⟨h.1.trans h', fun heq => h.2 ?_⟩
  rw [heq] at h ⊢
  exact (List.IsPrefix.eq_of_length h' (Nat.le_antisymm h'.length_le h.1.length_le)).symm

/-- One segment of a path, from a place on. -/
def descend (place : List String) (seg : List Char) : List String :=
  if seg = [] ∨ seg = ['.'] then place
  else if seg = ['.', '.'] then place.dropLast
  else place ++ [String.ofList seg]

/-- The segments of a name in front of its last slash. -/
def dirSegments (name : String) : List (List Char) := (name.toList.splitOn '/').dropLast

/-- The directory of the module of that name. -/
def moduleDir (cwd : List String) (name : String) : List String :=
  (dirSegments name).foldl descend (cwd ++ ["modules"])

/-- Walking the segments never leads above the directory from which it has gone down `depth`
    times. -/
def staysBelow : Nat → List (List Char) → Bool
  | _, [] => true
  | depth, seg :: segs =>
    if seg = [] ∨ seg = ['.'] then staysBelow depth segs
    else if seg = ['.', '.'] then
      match depth with
      | 0 => false
      | depth + 1 => staysBelow depth segs
    else staysBelow (depth + 1) segs

/-! ## What calls write -/

/-- The call creates the file of that path, or writes to it. -/
def WritesFile (path : String) : Event PullAct PullAct.Answer → Prop
  | ⟨.create p, .ok _⟩ => p = path
  | ⟨.fill p _, _⟩ => p = path
  | _ => False

/-- The call works on the repository in that directory. -/
def WritesRepo (dir : String) : Event PullAct PullAct.Answer → Prop
  | ⟨.git (.fetch d), _⟩ => d = dir
  | ⟨.git (.clone _ d), _⟩ => d = dir
  | ⟨.git (.checkout d _), _⟩ => d = dir
  | _ => False

namespace PullWorld

variable (w : PullWorld)

/-- The place is in the cache directory of the user. -/
def InCache (place : List String) : Prop :=
  ∃ dir, w.cacheDir = some dir ∧ Inside (locate w.cwd dir) place

/-- The place is in the modules directory of the project, or in the cache directory. -/
def Allowed (place : List String) : Prop := Inside (w.cwd ++ ["modules"]) place ∨ w.InCache place

/-- A file at the place is created, overwritten or removed. -/
def Touches : Visit → List String → Prop
  | .pull _ _ calls, place => ∃ ev ∈ calls,
      (∃ path, WritesFile path ev ∧ locate w.cwd path = place) ∨
        ∃ dir, WritesRepo dir ev ∧ locate w.cwd dir <+: place
  | .remove path, place => locate w.cwd path = place

/-- The directory of the module is the modules directory or below, or one of the cache. -/
def Confined (name : String) : Prop :=
  w.cwd ++ ["modules"] <+: moduleDir w.cwd name ∨
    ∃ dir, w.cacheDir = some dir ∧ locate w.cwd dir <+: moduleDir w.cwd name

end PullWorld

/-- The pull gets as far as writing the module of its dependency. -/
def WritesModule (name : String) : Visit → Prop
  | .pull name' _ calls => name' = name ∧ ∃ ev ∈ calls, WritesFile (modulePath name) ev
  | .remove _ => False

/-! ## A run of `sync` -/

/-- The calls that a pull has made. -/
abbrev Calls := List (Event PullAct PullAct.Answer)

/-- What `sync` does to files: it removes entries of `modules/`, and then pulls dependencies. -/
def syncVisits (removed : List String) (pulls : List ((String × Dependency) × Calls)) :
    List Visit :=
  removed.map (fun entry => .remove (join "modules" entry)) ++
    pulls.map fun pull => .pull pull.1.1 pull.1.2 pull.2

/-- A run of `sync`, up to some point, where `mik.toml` holds the document: stale modules that could
    be removed are, and the missing dependencies are pulled in their order. -/
structure IsSync (env : Env) (w : PullWorld) (modules : ModulesDir) (d : Toml) (m : Manifest)
    (disk : List String → Option Bytes) (removed : List String)
    (pulls : List ((String × Dependency) × Calls)) : Prop where
  loads : Manifest.load env d = .ok m
  stale : List.Sublist removed (staleModules m.expected (modules.entries.getD []))
  missing : pulls.map Prod.fst <+: m.missing modules
  runs : Along w.visit w.CanVisit disk (syncVisits removed pulls)

/-! ## The place of a module -/

/-- Walking segments is walking the components that they stand for. -/
theorem foldl_descend (place : List String) (segs : List (List Char)) :
    (segs.filterMap innerComponent).foldl (fun place c =>
      match c with
      | .rootDir => []
      | .curDir => place
      | .parentDir => place.dropLast
      | .normal name => place ++ [name]) place = segs.foldl descend place := by
  induction segs generalizing place with
  | nil => rfl
  | cons seg segs ih =>
    rw [List.filterMap_cons, List.foldl_cons, ← ih]
    unfold innerComponent descend
    by_cases hskip : seg = [] ∨ seg = ['.']
    · rw [if_pos hskip, if_pos hskip]
    rw [if_neg hskip, if_neg hskip]
    by_cases hup : seg = ['.', '.']
    · rw [if_pos hup, if_pos hup]
      rfl
    · rw [if_neg hup, if_neg hup]
      rfl

/-- A module lies in the directory that the segments of its name lead to. -/
theorem locate_modulePath (cwd : List String) (name : String) :
    ∃ file, locate cwd (modulePath name) = moduleDir cwd name ++ [file] := by
  obtain ⟨stem, hstem⟩ := components_modulePath name
  refine ⟨stem ++ ".wasm", ?_⟩
  unfold locate moduleDir dirSegments
  rw [hstem, List.cons_append, List.foldl_cons, List.foldl_append]
  exact congrArg (· ++ [stem ++ ".wasm"]) (foldl_descend (cwd ++ ["modules"]) _)

/-- Segments that never lead above the directory stay in it. -/
theorem prefix_foldl_descend {base rest : List String} {segs : List (List Char)}
    (h : staysBelow rest.length segs = true) : base <+: segs.foldl descend (base ++ rest) := by
  induction segs generalizing rest with
  | nil => exact List.prefix_append base rest
  | cons seg segs ih =>
    unfold staysBelow at h
    rw [List.foldl_cons]
    unfold descend
    by_cases hskip : seg = [] ∨ seg = ['.']
    · rw [if_pos hskip] at h ⊢
      exact ih h
    rw [if_neg hskip] at h ⊢
    by_cases hup : seg = ['.', '.']
    · rw [if_pos hup] at h ⊢
      -- there is a name to take away
      cases hrest : rest using List.reverseRecOn with
      | nil =>
        rw [hrest] at h
        exact absurd h Bool.false_ne_true
      | append_singleton rest' name =>
        rw [hrest, List.length_append] at h
        rw [← List.append_assoc, List.dropLast_concat]
        exact ih h
    · rw [if_neg hup] at h ⊢
      rw [List.append_assoc]
      exact ih (by rw [List.length_append]; exact h)

/-! ## What a pull may do -/

namespace PullWorld

variable (w : PullWorld) (name : String)

/-- Some state allows the answer. -/
def Answers (a : PullAct) (r : a.Answer) : Prop := ∃ s, w.may s a r

/-- The call writes nothing but the module and in the cache directory. -/
def Stays : PullAct → Prop
  | .create path => path = modulePath name ∨ w.InCache (locate w.cwd path)
  | .fill path _ => path = modulePath name ∨ w.InCache (locate w.cwd path)
  | .git (.fetch dir) => w.InCache (locate w.cwd dir)
  | .git (.clone _ dir) => w.InCache (locate w.cwd dir)
  | .git (.checkout dir _) => w.InCache (locate w.cwd dir)
  | _ => True

end PullWorld

section

variable {w : PullWorld} {name : String}

theorem inside_join {cwd : List String} {dir base part : String}
    (h : locate cwd dir <+: locate cwd base) (hpart : Plain part) :
    Inside (locate cwd dir) (locate cwd (join base part)) := by
  rw [locate_join cwd base hpart]
  exact inside_snoc_iff.mpr h

theorem inCache_blob {dir algo hash : String} (hdir : w.cacheDir = some dir) (halgo : Plain algo)
    (hhash : Plain hash) : w.InCache (locate w.cwd (join (join (blobsDir dir) algo) hash)) := by
  have hmik := @inside_join w.cwd dir dir "mik" (List.prefix_refl _) (by decide)
  have hoci := @inside_join w.cwd dir (join dir "mik") "oci" hmik.1 (by decide)
  have hblobs := @inside_join w.cwd dir (join (join dir "mik") "oci") "blobs" hoci.1 (by decide)
  exact ⟨dir, hdir, inside_join (inside_join hblobs.1 halgo).1 hhash⟩

/-- The directory of a repository has a name of its own, with a hyphen in it. -/
theorem inCache_repo {dir url : String} (hdir : w.cacheDir = some dir)
    (hhash : '/' ∉ (w.hash url).toList) :
    w.InCache (locate w.cwd (repoCacheDir w.hash dir url)) := by
  have hhyphen : '-' ∈ (sanitizeUrlForPath w.hash url).toList := by
    unfold sanitizeUrlForPath
    simp
  have hplain : Plain (sanitizeUrlForPath w.hash url) := by
    refine ⟨?_, ?_, ?_, ?_⟩
    · have hpiece := notMem_lastPiece '/' (trimEndMatches ".git" (trimEndMatches "/" url))
      unfold sanitizeUrlForPath
      simp [hpiece, hhash]
    · intro heq
      rw [heq] at hhyphen
      exact absurd hhyphen (by decide)
    · intro heq
      rw [heq] at hhyphen
      exact absurd hhyphen (by decide)
    · intro heq
      rw [heq] at hhyphen
      exact absurd hhyphen (by decide)
  have hmik := @inside_join w.cwd dir dir "mik" (List.prefix_refl _) (by decide)
  have hgit := @inside_join w.cwd dir (join dir "mik") "git" hmik.1 (by decide)
  exact ⟨dir, hdir, inside_join hgit.1 hplain⟩

/-- A call by itself. -/
theorem within_call (a : PullAct) (h : w.Stays name a) {Q : a.Answer → Prop}
    (hQ : ∀ r, w.Answers a r → Q r) :
    (perform (R := PullAct.Answer) a).Within w.Answers (w.Stays name) Q :=
  ⟨h, hQ⟩

theorem within_createDirAll (path : String) :
    (createDirAll path).Within w.Answers (w.Stays name) (IfOk fun _ => True) :=
  within_call (.createDirAll path) trivial fun _ _ _ _ => trivial

theorem within_git (call : GitCall) (h : w.Stays name (.git call)) :
    (git call).Within w.Answers (w.Stays name) (IfOk fun _ => True) :=
  within_call (.git call) h fun _ _ _ _ => trivial

theorem within_createFile {path : String}
    (h : path = modulePath name ∨ w.InCache (locate w.cwd path)) :
    (createFile path).Within w.Answers (w.Stays name) (IfOk fun _ => True) :=
  within_call (.create path) h fun _ _ _ _ => trivial

theorem within_fill {path : String} (origin : Origin)
    (h : path = modulePath name ∨ w.InCache (locate w.cwd path)) :
    (fill path origin).Within w.Answers (w.Stays name) (IfOk fun _ => True) :=
  (within_call (Q := fun _ => True) (.fill path origin) h fun _ _ => trivial).bind
    fun _ _ _ _ => trivial

theorem within_fsCopy (source : String) {path : String}
    (h : path = modulePath name ∨ w.InCache (locate w.cwd path)) :
    (fsCopy source path).Within w.Answers (w.Stays name) (IfOk fun _ => True) := by
  have hopen : (openRead source).Within w.Answers (w.Stays name) (IfOk fun _ => True) :=
    within_call (.openRead source) trivial fun _ _ _ _ => trivial
  exact hopen.andThen fun _ _ => (within_createFile h).andThen fun _ _ => within_fill _ h

theorem within_cacheDir :
    (cacheDir).Within w.Answers (w.Stays name) (· = w.cacheDir) :=
  within_call .cacheDir trivial fun _ ⟨_, hr⟩ => hr

theorem within_pathExists (path : String) :
    (pathExists path).Within w.Answers (w.Stays name) fun _ => True :=
  within_call (.pathExists path) trivial fun _ _ => trivial

theorem within_createParent (path : String) :
    (createParent path).Within w.Answers (w.Stays name) (IfOk fun _ => True) := by
  unfold createParent
  cases parent path with
  | none => exact fun _ _ => trivial
  | some dir => exact within_createDirAll dir

theorem within_getCachedBlob (digest : String) :
    (getCachedBlob digest).Within w.Answers (w.Stays name) fun _ => True := by
  refine within_cacheDir.bind fun dir _ => ?_
  cases blobPath dir digest with
  | error e => trivial
  | ok path => exact (within_pathExists path).bind fun _ _ => trivial

/-- A blob goes into the cache directory. -/
theorem within_cacheBlob {digest : String} {data : Bytes} (h : w.blob digest = some data) :
    (cacheBlob digest data).Within w.Answers (w.Stays name) fun _ => True := by
  refine within_cacheDir.bind fun dir hdir => ?_
  subst hdir
  obtain ⟨algo, hash, hdigest⟩ := w.blob_digest digest data h
  cases hcache : w.cacheDir with
  | none => trivial
  | some cache =>
    have hin := inCache_blob hcache hdigest.plainAlgo hdigest.plainHash
    have hwrite : ∀ path, path = join (join (blobsDir cache) algo) hash →
        (fsWrite path data).Within w.Answers (w.Stays name) (IfOk fun _ => True) := by
      rintro path rfl
      exact (within_createFile (Or.inr hin)).andThen fun _ _ => within_fill _ (Or.inr hin)
    rw [blobPath_of_digest hdigest]
    dsimp only
    cases parent (join (join (blobsDir cache) algo) hash) with
    | none => exact (hwrite _ rfl).mono (fun _ h => h) fun _ _ => trivial
    | some dir =>
      exact ((within_createDirAll dir).andThen fun _ _ => hwrite _ rfl).mono (fun _ h => h)
        fun _ _ => trivial

/-! ## The ways to pull -/

theorem within_pullOci (parse : String → Option OciReference) (reference : String) :
    (pullOci parse reference (modulePath name)).Within w.Answers (w.Stays name)
      (IfOk fun _ => True) := by
  have hblob : ∀ digest, (pullBlob reference digest).Within w.Answers (w.Stays name)
      (IfOk fun data => w.blob digest = some data) := fun digest =>
    within_call (.pullBlob reference digest) trivial fun _ ⟨_, hr⟩ => hr
  have hmanifest : (pullManifest reference).Within w.Answers (w.Stays name)
      (IfOk fun _ => True) :=
    within_call (.pullManifest reference) trivial fun _ _ _ _ => trivial
  unfold pullOci
  cases parse reference with
  | none => exact fun _ _ => trivial
  | some r =>
  dsimp only
  refine (within_createParent _).andThen fun _ _ => ?_
  refine (hmanifest.context _).andThen fun manifest _ => ?_
  cases layerOf reference manifest with
  | error e => exact fun _ _ => trivial
  | ok layer =>
  refine (within_getCachedBlob layer.digest).bind fun cached _ => ?_
  cases cached with
  | some cachedPath => exact (within_fsCopy cachedPath (Or.inl rfl)).context _
  | none =>
    refine ((hblob layer.digest).context _).andThen fun data hdata => ?_
    refine (within_cacheBlob hdata).bind fun _ _ => ?_
    exact ((within_createFile (Or.inl rfl)).context _).andThen fun _ _ =>
      within_fill _ (Or.inl rfl)

theorem within_download (url : String) :
    (download url (modulePath name)).Within w.Answers (w.Stays name) (IfOk fun _ => True) := by
  have hget : (httpGet url).Within w.Answers (w.Stays name) (IfOk fun _ => True) :=
    within_call (.httpGet url) trivial fun _ _ _ _ => trivial
  exact (within_createParent _).andThen fun _ _ => (hget.context _).andThen fun _ _ =>
    ((within_createFile (Or.inl rfl)).context _).andThen fun _ _ => within_fill _ (Or.inl rfl)

theorem within_prepareRepo (found : Bool) (dir : String) {url repoDir : String}
    (h : w.InCache (locate w.cwd repoDir)) :
    (prepareRepo found dir url repoDir).Within w.Answers (w.Stays name) (IfOk fun _ => True) := by
  cases found with
  | true =>
    exact ((within_git (.openRepo repoDir) trivial).context _).andThen fun _ _ =>
      within_git (.fetch repoDir) h
  | false =>
    exact (within_createDirAll _).andThen fun _ _ => (within_git (.clone url repoDir) h).context _

theorem within_pullGitDependency {url : String} (ref : GitRef)
    (hhash : '/' ∉ (w.hash url).toList) :
    (pullGitDependency w.hash url ref name (modulePath name)).Within w.Answers (w.Stays name)
      (IfOk fun _ => True) := by
  refine within_cacheDir.bind fun cached hcached => ?_
  subst hcached
  cases hdir : w.cacheDir with
  | none => exact fun _ _ => trivial
  | some dir =>
  have hrepo := inCache_repo hdir hhash
  have hfind : (findWasm (repoCacheDir w.hash dir url) name).Within w.Answers (w.Stays name)
      (IfOk fun _ => True) :=
    within_call (.findWasm _ name) trivial fun _ _ _ _ => trivial
  refine (within_pathExists _).bind fun found _ => ?_
  exact (within_prepareRepo found dir hrepo).andThen fun _ _ =>
    (within_git (.checkout _ ref) hrepo).andThen fun _ _ => hfind.andThen fun wasmPath _ =>
      (within_fsCopy wasmPath (Or.inl rfl)).context _

theorem within_pullPath (path : String) :
    (pullPath path name (modulePath name)).Within w.Answers (w.Stays name)
      (IfOk fun _ => True) := by
  unfold pullPath
  split
  · exact within_fsCopy path (Or.inl rfl)
  · refine (within_pathExists _).bind fun found _ => ?_
    cases found with
    | true => exact within_fsCopy _ (Or.inl rfl)
    | false => exact fun _ _ => trivial

/-- A pull writes nothing but its module and in the cache directory. -/
theorem pullDependency_within (hhash : ∀ url, '/' ∉ (w.hash url).toList) (name : String)
    (dep : Dependency) :
    (pullDependency w.parse w.hash name dep).Within w.Answers (w.Stays name) fun _ => True := by
  have hend : ∀ {p : PullProg (Result Unit)},
      p.Within w.Answers (w.Stays name) (IfOk fun _ => True) →
      (p.andThen fun _ => pure (.ok (modulePath name))).Within w.Answers (w.Stays name)
        fun _ => True := by
    intro p hp
    exact hp.bind fun r _ => by cases r <;> trivial
  refine hend ?_
  cases selectSource name dep with
  | error e => exact fun _ _ => trivial
  | ok source =>
    cases source with
    | oci reference => exact within_pullOci w.parse reference
    | http url => exact within_download url
    | git url ref => exact within_pullGitDependency ref (hhash url)
    | localPath path => exact within_pullPath path

end

/-! ## Runs -/

section

variable {w : PullWorld}

/-- Names that lead nowhere above the modules directory are confined. -/
theorem confined_of_staysBelow {name : String} (h : staysBelow 0 (dirSegments name) = true) :
    w.Confined name := by
  have hprefix := @prefix_foldl_descend (w.cwd ++ ["modules"]) [] _ h
  rw [List.append_nil] at hprefix
  exact Or.inl hprefix

theorem allowed_modulePath_iff (name : String) :
    w.Allowed (locate w.cwd (modulePath name)) ↔ w.Confined name := by
  obtain ⟨file, hfile⟩ := locate_modulePath w.cwd name
  unfold PullWorld.Allowed PullWorld.InCache PullWorld.Confined
  rw [hfile]
  simp only [inside_snoc_iff]

theorem allowed_remove {entry : String} (h : Plain entry) :
    w.Allowed (locate w.cwd (join "modules" entry)) := by
  have hmodules : components "modules" = [.normal "modules"] := by decide
  have hdir : locate w.cwd "modules" = w.cwd ++ ["modules"] := by
    unfold locate
    rw [hmodules]
    rfl
  rw [locate_join _ _ h, hdir]
  exact Or.inl (inside_snoc_iff.mpr (List.prefix_refl _))

/-- What a call of a pull writes is allowed, if its module is. -/
theorem allowed_of_stays {name : String} {ev : Event PullAct PullAct.Answer} {place : List String}
    (hstays : w.Stays name ev.1)
    (hmodule : WritesFile (modulePath name) ev → w.Confined name)
    (h : (∃ path, WritesFile path ev ∧ locate w.cwd path = place) ∨
      ∃ dir, WritesRepo dir ev ∧ locate w.cwd dir <+: place) : w.Allowed place := by
  rcases h with ⟨path, hwrites, rfl⟩ | ⟨dir, hrepo, hplace⟩
  · have hpath : path = modulePath name ∨ w.InCache (locate w.cwd path) := by
      unfold WritesFile at hwrites
      split at hwrites
      · rw [← hwrites]
        exact hstays
      · rw [← hwrites]
        exact hstays
      · exact hwrites.elim
    rcases hpath with rfl | hcache
    · exact (allowed_modulePath_iff name).mpr (hmodule hwrites)
    · exact Or.inr hcache
  · have hdir : w.InCache (locate w.cwd dir) := by
      unfold WritesRepo at hrepo
      split at hrepo
      · rw [← hrepo]
        exact hstays
      · rw [← hrepo]
        exact hstays
      · rw [← hrepo]
        exact hstays
      · exact hrepo.elim
    obtain ⟨cache, hcache, hinside⟩ := hdir
    exact Or.inr ⟨cache, hcache, inside_trans hinside hplace⟩

/-- A pull that can happen touches allowed places exactly when it does not write its module, or the
    name is confined. -/
theorem pull_allowed_iff (hhash : ∀ url, '/' ∉ (w.hash url).toList)
    {disk : List String → Option Bytes} {name : String} {dep : Dependency} {calls : Calls}
    (hcan : w.CanVisit disk (.pull name dep calls)) :
    (∀ place, w.Touches (.pull name dep calls) place → w.Allowed place) ↔
      (WritesModule name (.pull name dep calls) → w.Confined name) := by
  constructor
  · rintro h ⟨-, ev, hev, hwrites⟩
    rw [← allowed_modulePath_iff]
    exact h _ ⟨ev, hev, Or.inl ⟨_, hwrites, rfl⟩⟩
  · rintro h place ⟨ev, hev, hplace⟩
    have hstays := Within.of_partial (fun s a r hr => ⟨s, hr⟩)
      (pullDependency_within hhash name dep) hcan ev hev
    exact allowed_of_stays hstays (fun hwrites => h ⟨rfl, ev, hev, hwrites⟩) hplace

theorem canVisit_of_mem {disk : List String → Option Bytes} {visits : List Visit}
    (h : Along w.visit w.CanVisit disk visits) {v : Visit} (hv : v ∈ visits) :
    ∃ disk', w.CanVisit disk' v := by
  obtain ⟨before, behind, rfl⟩ := List.append_of_mem hv
  exact ⟨_, (along_append.mp h).2.1⟩

/-- In a run of `sync`, every file that is created, overwritten or removed is in the modules
    directory or in the cache directory exactly when every dependency whose module the run writes
    has a confined name; so it is where the names of the manifest never lead above. -/
theorem sync_places_iff (hhash : ∀ url, '/' ∉ (w.hash url).toList) {env : Env}
    {modules : ModulesDir} {d : Toml} {m : Manifest} {disk : List String → Option Bytes}
    {removed : List String} {pulls : List ((String × Dependency) × Calls)}
    (hentries : ∀ entry ∈ modules.entries.getD [], Plain entry)
    (hsync : IsSync env w modules d m disk removed pulls) :
    ((∀ v ∈ syncVisits removed pulls, ∀ place, w.Touches v place → w.Allowed place) ↔
        ∀ v ∈ syncVisits removed pulls, ∀ name, WritesModule name v → w.Confined name) ∧
      ((∀ name dep, m.dependencies.lookup name = some dep → isLocalPathDependency dep = false →
          staysBelow 0 (dirSegments name) = true) →
        ∀ v ∈ syncVisits removed pulls, ∀ place, w.Touches v place → w.Allowed place) := by
  have hiff : (∀ v ∈ syncVisits removed pulls, ∀ place, w.Touches v place → w.Allowed place) ↔
      ∀ v ∈ syncVisits removed pulls, ∀ name, WritesModule name v → w.Confined name := by
    refine forall₂_congr fun v hv => ?_
    obtain ⟨disk', hcan⟩ := canVisit_of_mem hsync.runs hv
    rcases List.mem_append.mp hv with hremove | hpull
    · obtain ⟨entry, hentry, rfl⟩ := List.mem_map.mp hremove
      have hplain := hentries entry (List.mem_of_mem_filter (hsync.stale.mem hentry))
      constructor
      · exact fun _ _ hnone => hnone.elim
      · rintro - place rfl
        exact allowed_remove hplain
    · obtain ⟨⟨⟨name, dep⟩, calls⟩, -, rfl⟩ := List.mem_map.mp hpull
      rw [pull_allowed_iff hhash hcan]
      constructor
      · rintro h name' ⟨rfl, hwrites⟩
        exact h ⟨rfl, hwrites⟩
      · exact fun h => h name
  refine ⟨hiff, fun hnames => hiff.mpr fun v hv name hwrites => ?_⟩
  rcases List.mem_append.mp hv with hremove | hpull
  · obtain ⟨entry, -, rfl⟩ := List.mem_map.mp hremove
    exact hwrites.elim
  · obtain ⟨pull, hmem, rfl⟩ := List.mem_map.mp hpull
    obtain ⟨rfl, -⟩ := hwrites
    have hmissing := hsync.missing.mem (List.mem_map_of_mem hmem)
    obtain ⟨hlookup, hlocal, -⟩ := mem_missing_iff.mp hmissing
    exact confined_of_staysBelow (hnames _ _ hlookup hlocal)

end

/-! ## A download -/

/-- The world of a download, with hashes as they are written. -/
def hashedWorld : PullWorld := { plainWorld with hash := fun _ => "9ae16a3b2f90404f" }

def plainEnv : Env := ⟨fun version => version == "0.1.0", fun _ => none, fun _ => false,
  fun _ => false⟩

def urlDependency : Dependency :=
  .detailed { version := some "1.0", registry := some "http://host/a" }

/-- A manifest with one dependency, of that name. -/
def manifestWith (name : String) : Manifest :=
  Manifest.edit
    ⟨⟨"app", "0.1.0", none, [], none⟩, .default, .default, .default, none, .empty, .empty⟩
    (.insert false name urlDependency)

/-- A modules directory with one stale module. -/
def oldModules : ModulesDir := ⟨some ["old.wasm"], fun _ _ => false⟩

/-- The calls of a download into the directory `dir`. -/
def callsInto (dir name : String) : Calls :=
  [⟨.createDirAll dir, .ok ()⟩, ⟨.httpGet "http://host/a", .ok ()⟩,
    ⟨.create (modulePath name), .ok ()⟩,
    ⟨.fill (modulePath name) (.body "http://host/a"), wholeBody⟩]

theorem isSync_download {dir name : String} (hparent : parent (modulePath name) = some dir)
    (hvalid : (manifestWith name).validate plainEnv "mik.toml" = .ok ())
    (hmissing : (manifestWith name).missing oldModules = [(name, urlDependency)])
    (hstale : staleModules (manifestWith name).expected ["old.wasm"] = ["old.wasm"]) :
    IsSync plainEnv hashedWorld oldModules (manifestWith name).save (manifestWith name)
      (fun _ => none) ["old.wasm"] [((name, urlDependency), callsInto dir name)] where
  loads := (load_save_iff plainEnv (manifestWith name)).mpr hvalid
  stale := by
    have hentries : oldModules.entries.getD [] = ["old.wasm"] := rfl
    rw [hentries, hstale]
  missing := by
    rw [hmissing]
    exact ⟨[], rfl⟩
  runs := by
    have hsource : selectSource name urlDependency = .ok (.http "http://host/a") := by rfl
    have hpull : ∀ disk, hashedWorld.CanVisit disk
        (.pull name urlDependency (callsInto dir name)) := by
      intro disk
      show Partial hashedWorld.outside (pullDependency _ _ name urlDependency) _ _
      unfold pullDependency
      rw [hsource]
      unfold download createParent
      dsimp only
      rw [hparent]
      exact .act trivial <| .act trivial <| .act trivial <| .act ⟨⟨rfl, rfl⟩, nofun⟩ <|
        .stopped _ _
    exact ⟨trivial, hpull _, trivial⟩

theorem sync_places_download : hashedWorld.Allowed ["work", "modules", "a.wasm"] := by
  have hhash : ∀ url, '/' ∉ (hashedWorld.hash url).toList := fun _ =>
    show '/' ∉ "9ae16a3b2f90404f".toList by decide
  have hnames : ∀ name dep, (manifestWith "a").dependencies.lookup name = some dep →
      isLocalPathDependency dep = false → staysBelow 0 (dirSegments name) = true := by
    intro name dep hlookup _
    have hmem := Table.lookup_eq_some_iff.mp hlookup
    have hone : (manifestWith "a").dependencies.entries = [("a", urlDependency)] := by rfl
    rw [hone, List.mem_singleton] at hmem
    rw [(Prod.mk.inj hmem).1]
    decide
  have hplace : locate ["work"] (modulePath "a") = ["work", "modules", "a.wasm"] := by
    decide
  refine (sync_places_iff hhash (by decide) (@isSync_download "modules" "a" (by decide) (by rfl)
    (by rfl) (by decide))).2 hnames (.pull "a" urlDependency (callsInto "modules" "a"))
    (.tail _ (.head _)) _ ?_
  exact ⟨_, .tail _ (.tail _ (.head _)), Or.inl ⟨_, rfl, hplace⟩⟩

/-- The name `../evil` validates, and its module is written beside the modules directory. -/
theorem sync_places_left :
    IsSync plainEnv hashedWorld oldModules (manifestWith "../evil").save (manifestWith "../evil")
        (fun _ => none) ["old.wasm"]
        [(("../evil", urlDependency), callsInto "modules/.." "../evil")] ∧
      hashedWorld.Touches (.pull "../evil" urlDependency (callsInto "modules/.." "../evil"))
        ["work", "evil.wasm"] ∧
      ¬ hashedWorld.Allowed ["work", "evil.wasm"] := by
  have hplace : locate ["work"] (modulePath "../evil") = ["work", "evil.wasm"] := by
    decide
  refine ⟨isSync_download (by decide) (by rfl) (by rfl) (by decide), ?_, ?_⟩
  · exact ⟨_, .tail _ (.tail _ (.head _)), Or.inl ⟨_, rfl, hplace⟩⟩
  · rintro (hinside | ⟨dir, hdir, -⟩)
    · exact absurd hinside.1 (by decide)
    · exact absurd hdir nofun

end Mik.Config
