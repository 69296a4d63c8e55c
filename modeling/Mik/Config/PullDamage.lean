/-
  What a pull that fails or is stopped leaves behind (`commands/pull.rs`, `registry.rs`).

  A pull leaves all files complete but those that it has torn, wherever it ends
  (`pullDependency_safe`: one lemma for each of the ways to pull). Later pulls and `sync` look only
  at whether a file exists, so a torn file stays. `no_damage_iff` says in which runs no module and
  no cached blob is ever damaged.
-/
import Mik.Config.PullFiles

namespace Mik.Config

open Mik.Lib Prog

section

variable (w : PullWorld)

/-! ## What a pull leaves complete -/

/-- Only the torn files may be damaged. -/
def OnlyTorn (s : PullState) : Prop :=
  ∀ place data, s.disk place = some data → place ∈ s.torn ∨ w.Whole place data

variable {w} {s : PullState}

theorem onlyTorn_of_noDamage (h : w.NoDamage s.disk) : OnlyTorn w s := fun place data hplace =>
  Or.inr (h place data hplace)

/-- A call that does not write. -/
theorem safe_quiet (a : PullAct) (hquiet : ∀ s r, w.effect s a r = s) (hs : OnlyTorn w s) :
    (perform (R := PullAct.Answer) a).Safe w.outside (OnlyTorn w)
      (fun r s' => s' = s ∧ w.may s a r) s := by
  intro r hr
  have heffect : w.outside.effect s a r = s := hquiet s r
  rw [heffect]
  exact ⟨hs, rfl, hr⟩

theorem ends_of_same {α : Type} {r : Result α} {s' : PullState} {P : α → Prop} (hs : OnlyTorn w s)
    (h : s' = s) (hP : ∀ x, r = .ok x → P x) :
    Ends (OnlyTorn w) (fun x s' => s' = s ∧ P x) r s' := by
  rw [h]
  exact ⟨hs, fun x hx => ⟨rfl, hP x hx⟩⟩

theorem safe_createDirAll (path : String) (hs : OnlyTorn w s) :
    (createDirAll path).Safe w.outside (OnlyTorn w)
      (Ends (OnlyTorn w) fun _ s' => s' = s ∧ True) s :=
  (safe_quiet (.createDirAll path) (fun _ _ => rfl) hs).mono fun _ _ h =>
    ends_of_same hs h.1 fun _ _ => trivial

theorem safe_openRead (path : String) (hs : OnlyTorn w s) :
    (openRead path).Safe w.outside (OnlyTorn w)
      (Ends (OnlyTorn w) fun _ s' => s' = s ∧ True) s :=
  (safe_quiet (.openRead path) (fun _ _ => rfl) hs).mono fun _ _ h =>
    ends_of_same hs h.1 fun _ _ => trivial

theorem safe_httpGet (url : String) (hs : OnlyTorn w s) :
    (httpGet url).Safe w.outside (OnlyTorn w)
      (Ends (OnlyTorn w) fun _ s' => s' = s ∧ True) s :=
  (safe_quiet (.httpGet url) (fun _ _ => rfl) hs).mono fun _ _ h =>
    ends_of_same hs h.1 fun _ _ => trivial

theorem safe_git (call : GitCall) (hs : OnlyTorn w s) :
    (git call).Safe w.outside (OnlyTorn w)
      (Ends (OnlyTorn w) fun _ s' => s' = s ∧ True) s :=
  (safe_quiet (.git call) (fun _ _ => rfl) hs).mono fun _ _ h =>
    ends_of_same hs h.1 fun _ _ => trivial

theorem safe_pullManifest (ociRef : String) (hs : OnlyTorn w s) :
    (pullManifest ociRef).Safe w.outside (OnlyTorn w)
      (Ends (OnlyTorn w) fun manifest s' => s' = s ∧ w.serves ociRef manifest) s :=
  (safe_quiet (.pullManifest ociRef) (fun _ _ => rfl) hs).mono fun _ _ h =>
    ends_of_same hs h.1 h.2

theorem safe_pullBlob (ociRef digest : String) (hs : OnlyTorn w s) :
    (pullBlob ociRef digest).Safe w.outside (OnlyTorn w)
      (Ends (OnlyTorn w) fun data s' => s' = s ∧ w.blob digest = some data) s :=
  (safe_quiet (.pullBlob ociRef digest) (fun _ _ => rfl) hs).mono fun _ _ h =>
    ends_of_same hs h.1 h.2

theorem safe_findWasm (repoDir name : String) (hs : OnlyTorn w s) :
    (findWasm repoDir name).Safe w.outside (OnlyTorn w)
      (Ends (OnlyTorn w) fun path s' => s' = s ∧ w.found repoDir name path) s :=
  (safe_quiet (.findWasm repoDir name) (fun _ _ => rfl) hs).mono fun _ _ h =>
    ends_of_same hs h.1 h.2

/-- A file was emptied, and is torn from then on. -/
def PullState.opened (s : PullState) (place : List String) : PullState where
  disk := Function.update s.disk place (some [])
  torn := place :: s.torn

theorem OnlyTorn.opened (hs : OnlyTorn w s) (place : List String) :
    OnlyTorn w (s.opened place) := by
  intro place' data hplace
  by_cases heq : place' = place
  · exact Or.inl (heq ▸ List.mem_cons_self)
  · have hold : s.disk place' = some data := by
      rw [← hplace]
      exact (Function.update_of_ne heq _ _).symm
    exact (hs place' data hold).imp_left fun hmem => List.mem_cons_of_mem _ hmem

theorem safe_createFile (path : String) (hs : OnlyTorn w s) :
    (createFile path).Safe w.outside (OnlyTorn w)
      (Ends (OnlyTorn w) fun _ s' => s' = s.opened (locate w.cwd path)) s := by
  intro r _
  cases r with
  | error e => exact ⟨hs, hs, nofun⟩
  | ok u => exact ⟨hs.opened _, hs.opened _, fun _ _ => rfl⟩

/-- Filling it to the end with what is whole. -/
theorem safe_fill (path : String) (origin : Origin) (hs : OnlyTorn w s)
    (hopen : locate w.cwd path ∈ s.torn)
    (hdata : ∀ data, w.MayGive s.disk path origin data → w.copiesItself path origin = false →
      w.Whole (locate w.cwd path) data) :
    (fill path origin).Safe w.outside (OnlyTorn w) (Ends (OnlyTorn w) fun _ _ => True) s := by
  intro r hr
  have hnext : OnlyTorn w (w.effect s (.fill path origin) r) := by
    intro place data hplace
    dsimp only [PullWorld.effect] at hplace ⊢
    by_cases heq : place = locate w.cwd path
    · subst heq
      rw [Function.update_self] at hplace
      split
      · next hdone =>
        refine Or.inr ?_
        have hwritten : r.written = r.data := by
          unfold Filled.written
          rw [hdone.1]
        rw [← Option.some.inj hplace, hwritten]
        exact hdata r.data hr.1 hdone.2
      · exact Or.inl hopen
    · rw [Function.update_of_ne heq] at hplace
      refine (hs place data hplace).imp_left fun hmem => ?_
      split
      · exact List.mem_filter.mpr ⟨hmem, by simpa using heq⟩
      · exact hmem
  exact ⟨hnext, hnext, fun _ _ => trivial⟩

/-- Writing a file anew, with what is whole. -/
theorem safe_replace {create : PullProg (Result Unit)} (path : String) (origin : Origin)
    (hs : OnlyTorn w s)
    (hcreate : create.Safe w.outside (OnlyTorn w)
      (Ends (OnlyTorn w) fun _ s' => s' = s.opened (locate w.cwd path)) s)
    (hdata : ∀ data, w.MayGive (s.opened (locate w.cwd path)).disk path origin data →
      w.copiesItself path origin = false → w.Whole (locate w.cwd path) data) :
    (create.andThen fun _ => fill path origin).Safe w.outside (OnlyTorn w)
      (Ends (OnlyTorn w) fun _ _ => True) s := by
  refine hcreate.andThen fun _ s' hs' => ?_
  rw [hs']
  exact safe_fill path origin (hs.opened _) List.mem_cons_self hdata

theorem safe_fsWrite (path : String) {data : Bytes} (hs : OnlyTorn w s)
    (hwhole : w.Whole (locate w.cwd path) data) :
    (fsWrite path data).Safe w.outside (OnlyTorn w) (Ends (OnlyTorn w) fun _ _ => True) s := by
  refine safe_replace path (.bytes data) hs (safe_createFile path hs) fun data' hdata _ => ?_
  rw [show data' = data from hdata]
  exact hwhole

/-- Where nothing is damaged, a file that is copied is whole. -/
theorem fileContent_of_mayGive (hclean : w.NoDamage s.disk) {source path : String} {data : Bytes}
    (h : w.MayGive (s.opened (locate w.cwd path)).disk path (.file source) data)
    (hself : w.copiesItself path (.file source) = false) :
    w.FileContent (locate w.cwd source) data := by
  have hne : locate w.cwd source ≠ locate w.cwd path := by
    simpa [PullWorld.copiesItself] using hself
  unfold PullWorld.MayGive at h
  dsimp only at h
  rw [if_neg hne] at h
  rcases h with ⟨hblob, hdisk⟩ | hlocal
  · have hold : s.disk (locate w.cwd source) = some data := by
      rw [← hdisk]
      exact (Function.update_of_ne hne _ _).symm
    exact Or.inl ⟨hblob, (hclean _ data hold).blob⟩
  · exact Or.inr hlocal

theorem safe_fsCopy (source path : String) (hclean : w.NoDamage s.disk)
    (hwhole : ∀ data, w.FileContent (locate w.cwd source) data →
      w.Whole (locate w.cwd path) data) :
    (fsCopy source path).Safe w.outside (OnlyTorn w) (Ends (OnlyTorn w) fun _ _ => True) s := by
  have hs : OnlyTorn w s := onlyTorn_of_noDamage hclean
  refine (safe_openRead source hs).andThen fun _ s' hs' => ?_
  rw [hs'.1]
  exact safe_replace path (.file source) hs (safe_createFile path hs) fun data hdata hself =>
    hwhole data (fileContent_of_mayGive hclean hdata hself)

theorem safe_createParent (path : String) (hs : OnlyTorn w s) :
    (createParent path).Safe w.outside (OnlyTorn w)
      (Ends (OnlyTorn w) fun _ s' => s' = s ∧ True) s := by
  unfold createParent
  cases parent path with
  | none => exact ⟨hs, fun _ _ => ⟨rfl, trivial⟩⟩
  | some dir => exact safe_createDirAll dir hs

theorem safe_getCachedBlob (digest : String) (hs : OnlyTorn w s) :
    (getCachedBlob digest).Safe w.outside (OnlyTorn w)
      (fun r s' => s' = s ∧ ∀ path, r = some path → blobPath w.cacheDir digest = .ok path) s := by
  refine (safe_quiet .cacheDir (fun _ _ => rfl) hs).bind fun dir s' h => ?_
  rw [h.1, show dir = w.cacheDir from h.2]
  cases hpath : blobPath w.cacheDir digest with
  | error e => exact ⟨rfl, nofun⟩
  | ok path =>
    refine (safe_quiet (.pathExists path) (fun _ _ => rfl) hs).bind fun found s'' h' => ?_
    rw [h'.1]
    cases show Bool from found with
    | false => exact ⟨rfl, nofun⟩
    | true => exact ⟨rfl, fun path' hpath' => congrArg Except.ok (Option.some.inj hpath')⟩

theorem safe_cacheBlob {digest : String} {data : Bytes} (h : w.blob digest = some data)
    (hs : OnlyTorn w s) :
    (cacheBlob digest data).Safe w.outside (OnlyTorn w) (fun _ s' => OnlyTorn w s') s := by
  refine (safe_quiet .cacheDir (fun _ _ => rfl) hs).bind fun dir s' h' => ?_
  rw [h'.1, show dir = w.cacheDir from h'.2]
  cases hpath : blobPath w.cacheDir digest with
  | error e => exact hs
  | ok path =>
    have hwhole := whole_of_blob w h hpath
    dsimp only
    cases parent path with
    | none => exact (safe_fsWrite path hs hwhole).mono fun _ _ hend => hend.1
    | some dir' =>
      have hwrite : ((createDirAll dir').andThen fun _ => fsWrite path data).Safe w.outside
          (OnlyTorn w) (Ends (OnlyTorn w) fun _ _ => True) s := by
        refine (safe_createDirAll dir' hs).andThen fun _ s'' hs'' => ?_
        rw [hs''.1]
        exact safe_fsWrite path hs hwhole
      exact hwrite.mono fun _ _ hend => hend.1

/-! ## The ways to pull -/

theorem mem_of_wasmLayer {layers : List OciLayer} {layer : OciLayer}
    (h : wasmLayer layers = some layer) : layer ∈ layers := by
  rcases Option.or_eq_some_iff.mp h with hfind | ⟨-, hhead⟩
  · exact List.mem_of_find?_eq_some hfind
  · exact List.mem_of_head? hhead

theorem image_of_layerOf {reference : String} {manifest : OciManifest} {layer : OciLayer}
    (h : layerOf reference manifest = .ok layer) :
    ∃ layers, manifest = .image layers ∧ wasmLayer layers = some layer := by
  cases manifest with
  | imageIndex => cases h
  | image layers =>
    unfold layerOf at h
    dsimp only at h
    split at h
    · cases h
    · split at h
      · cases h
      · next hwasm =>
        cases h
        exact ⟨layers, rfl, hwasm⟩

section

variable {name : String} {dep : Dependency}

theorem safe_pullOci {reference : String} (hclean : w.NoDamage s.disk)
    (hsource : selectSource name dep = .ok (.oci reference)) :
    (pullOci w.parse reference (modulePath name)).Safe w.outside (OnlyTorn w)
      (Ends (OnlyTorn w) fun _ _ => True) s := by
  have hs : OnlyTorn w s := onlyTorn_of_noDamage hclean
  unfold pullOci
  cases w.parse reference with
  | none => exact ⟨hs, fun _ _ => trivial⟩
  | some r =>
  dsimp only
  refine (safe_createParent _ hs).andThen fun _ s' hs' => ?_
  rw [hs'.1]
  refine ((safe_pullManifest reference hs).context _).andThen fun manifest s' hmanifest => ?_
  rw [hmanifest.1]
  cases hlayer : layerOf reference manifest with
  | error e => exact ⟨hs, fun _ _ => trivial⟩
  | ok layer =>
  -- the layer is one of a manifest that was served
  obtain ⟨layers, rfl, hwasm⟩ := image_of_layerOf hlayer
  have hoffer : ∀ data, w.blob layer.digest = some data →
      w.Whole (locate w.cwd (modulePath name)) data := fun data hdata =>
    whole_of_offer w hsource ⟨layers, layer, hmanifest.2, hwasm, hdata⟩
  dsimp only
  refine (safe_getCachedBlob layer.digest hs).bind fun cached s' hcached => ?_
  rw [hcached.1]
  cases cached with
  | some cachedPath =>
    have hat : w.BlobAt (locate w.cwd cachedPath) layer.digest :=
      ⟨w.layer_digest reference layers hmanifest.2 layer (mem_of_wasmLayer hwasm), cachedPath,
        hcached.2 cachedPath rfl, rfl⟩
    refine (safe_fsCopy cachedPath (modulePath name) hclean fun data hdata => ?_).context _
    rcases hdata with ⟨-, hblob⟩ | ⟨hno, -⟩
    · exact hoffer data (hblob layer.digest hat)
    · exact absurd hat (hno layer.digest)
  | none =>
    refine ((safe_pullBlob reference layer.digest hs).context _).andThen fun data s' hdata => ?_
    rw [hdata.1]
    refine (safe_cacheBlob hdata.2 hs).bind fun _ s' hs' => ?_
    refine safe_replace (modulePath name) (.bytes data) hs'
      ((safe_createFile (modulePath name) hs').context _) fun data' hdata' _ => ?_
    rw [show data' = data from hdata']
    exact hoffer data hdata.2

theorem safe_download {url : String} (hs : OnlyTorn w s)
    (hsource : selectSource name dep = .ok (.http url)) :
    (download url (modulePath name)).Safe w.outside (OnlyTorn w)
      (Ends (OnlyTorn w) fun _ _ => True) s := by
  refine (safe_createParent _ hs).andThen fun _ s' hs' => ?_
  rw [hs'.1]
  refine ((safe_httpGet url hs).context _).andThen fun _ s' hs' => ?_
  rw [hs'.1]
  exact safe_replace (modulePath name) (.body url) hs
    ((safe_createFile (modulePath name) hs).context _) fun data hdata _ =>
      whole_of_offer w hsource hdata

theorem safe_prepareRepo (found : Bool) (dir gitUrl repoDir : String) (hs : OnlyTorn w s) :
    (prepareRepo found dir gitUrl repoDir).Safe w.outside (OnlyTorn w)
      (Ends (OnlyTorn w) fun _ s' => s' = s ∧ True) s := by
  cases found with
  | true =>
    refine ((safe_git (.openRepo repoDir) hs).context _).andThen fun _ s' hs' => ?_
    rw [hs'.1]
    exact safe_git (.fetch repoDir) hs
  | false =>
    refine (safe_createDirAll _ hs).andThen fun _ s' hs' => ?_
    rw [hs'.1]
    exact (safe_git (.clone gitUrl repoDir) hs).context _

theorem safe_pullGitDependency {url : String} {ref : GitRef} (hclean : w.NoDamage s.disk)
    (hsource : selectSource name dep = .ok (.git url ref)) :
    (pullGitDependency w.hash url ref name (modulePath name)).Safe w.outside (OnlyTorn w)
      (Ends (OnlyTorn w) fun _ _ => True) s := by
  have hs : OnlyTorn w s := onlyTorn_of_noDamage hclean
  refine (safe_quiet .cacheDir (fun _ _ => rfl) hs).bind fun cached s' h => ?_
  rw [h.1, show cached = w.cacheDir from h.2]
  cases hdir : w.cacheDir with
  | none => exact ⟨hs, fun _ _ => trivial⟩
  | some dir =>
  refine (safe_quiet (.pathExists _) (fun _ _ => rfl) hs).bind fun found s' h => ?_
  rw [h.1]
  refine (safe_prepareRepo found dir url _ hs).andThen fun _ s' hs' => ?_
  rw [hs'.1]
  refine (safe_git _ hs).andThen fun _ s' hs' => ?_
  rw [hs'.1]
  refine (safe_findWasm _ name hs).andThen fun wasmPath s' hfound => ?_
  rw [hfound.1]
  exact (safe_fsCopy wasmPath (modulePath name) hclean fun data hdata =>
    whole_of_offer w hsource ⟨dir, wasmPath, hdir, hfound.2, hdata⟩).context _

theorem safe_pullPath {path : String} (hclean : w.NoDamage s.disk)
    (hsource : selectSource name dep = .ok (.localPath path)) :
    (pullPath path name (modulePath name)).Safe w.outside (OnlyTorn w)
      (Ends (OnlyTorn w) fun _ _ => True) s := by
  have hs : OnlyTorn w s := onlyTorn_of_noDamage hclean
  have hcopy : (fsCopy (localWasm path name) (modulePath name)).Safe w.outside (OnlyTorn w)
      (Ends (OnlyTorn w) fun _ _ => True) s :=
    safe_fsCopy _ _ hclean fun data hdata => whole_of_offer w hsource hdata
  unfold pullPath
  split
  · next hwasm =>
    rw [localWasm, if_pos hwasm] at hcopy
    exact hcopy
  · refine (safe_quiet (.pathExists _) (fun _ _ => rfl) hs).bind fun found s' h => ?_
    rw [h.1]
    cases show Bool from found with
    | true => exact hcopy
    | false => exact ⟨hs, fun _ _ => trivial⟩

/-- At whatever point a pull ends, only the files that it leaves torn may be damaged. -/
theorem pullDependency_safe (name : String) (dep : Dependency) (hclean : w.NoDamage s.disk) :
    (pullDependency w.parse w.hash name dep).Safe w.outside (OnlyTorn w)
      (Ends (OnlyTorn w) fun _ _ => True) s := by
  have hs : OnlyTorn w s := onlyTorn_of_noDamage hclean
  have hend : ∀ {p : PullProg (Result Unit)},
      p.Safe w.outside (OnlyTorn w) (Ends (OnlyTorn w) fun _ _ => True) s →
      (p.andThen fun _ => pure (.ok (modulePath name))).Safe w.outside (OnlyTorn w)
        (Ends (OnlyTorn w) fun _ _ => True) s := by
    intro p hp
    refine hp.bind fun r s' h => ?_
    cases r with
    | error e => exact ⟨h.1, fun _ _ => trivial⟩
    | ok x => exact ⟨h.1, fun _ _ => trivial⟩
  refine hend ?_
  cases hsource : selectSource name dep with
  | error e => exact ⟨hs, fun _ _ => trivial⟩
  | ok source =>
    cases source with
    | oci reference => exact safe_pullOci hclean hsource
    | http url => exact safe_download hs hsource
    | git url ref => exact safe_pullGitDependency hclean hsource
    | localPath path => exact safe_pullPath hclean hsource

end

end

/-! ## Runs -/

/-- What happens to the files: a pull, by the calls it made before it returned or was stopped, or
    the removal of a file. -/
inductive Visit where
  | pull (name : String) (dep : Dependency) (calls : List (Event PullAct PullAct.Answer))
  | remove (path : String)

namespace PullWorld

variable (w : PullWorld)

/-- The files after the calls of a pull, and those among them that it leaves torn. -/
def afterCalls (disk : List String → Option Bytes)
    (calls : List (Event PullAct PullAct.Answer)) : PullState :=
  after w.outside ⟨disk, []⟩ calls

/-- The files after a visit. -/
def visit (disk : List String → Option Bytes) : Visit → List String → Option Bytes
  | .pull _ _ calls => (w.afterCalls disk calls).disk
  | .remove path => Function.update disk (locate w.cwd path) none

/-- The calls are those of the pull up to some point. -/
def CanVisit (disk : List String → Option Bytes) : Visit → Prop
  | .pull name dep calls =>
    Partial w.outside (pullDependency w.parse w.hash name dep) ⟨disk, []⟩ calls
  | .remove _ => True

/-- The pull does not stop between emptying a file and the end of writing it, and copies no file
    to itself. -/
def TearsNothing (disk : List String → Option Bytes) : Visit → Prop
  | .pull _ _ calls => (w.afterCalls disk calls).torn = []
  | .remove _ => True

/-- Where the pull tears a file, what is in it happens to be all. -/
def KeepsWhole (disk : List String → Option Bytes) : Visit → Prop
  | .pull _ _ calls => ∀ place ∈ (w.afterCalls disk calls).torn, ∀ data,
      (w.afterCalls disk calls).disk place = some data → w.Whole place data
  | .remove _ => True

variable {w}

theorem noDamage_empty : w.NoDamage fun _ => none := nofun

theorem keepsWhole_of_tearsNothing {disk : List String → Option Bytes} {v : Visit}
    (h : w.TearsNothing disk v) : w.KeepsWhole disk v := by
  cases v with
  | pull name dep calls =>
    intro place hplace
    rw [show (w.afterCalls disk calls).torn = [] from h] at hplace
    exact absurd hplace List.not_mem_nil
  | remove path => trivial

/-- A step from undamaged files leaves them undamaged exactly when what it tears is whole. -/
theorem noDamage_visit_iff {disk : List String → Option Bytes} {v : Visit}
    (hclean : w.NoDamage disk) (hcan : w.CanVisit disk v) :
    w.NoDamage (w.visit disk v) ↔ w.KeepsWhole disk v := by
  cases v with
  | pull name dep calls =>
    have htorn : OnlyTorn w (w.afterCalls disk calls) :=
      Safe.of_partial (onlyTorn_of_noDamage hclean) (pullDependency_safe name dep hclean) hcan
    constructor
    · exact fun h place _ data hdata => h place data hdata
    · intro h place data hdata
      exact (htorn place data hdata).elim (fun hmem => h place hmem data hdata) id
  | remove path =>
    refine ⟨fun _ => trivial, fun _ place data hdata => ?_⟩
    by_cases heq : place = locate w.cwd path
    · rw [heq] at hdata
      exact absurd ((Function.update_self _ _ _).symm.trans hdata) nofun
    · exact hclean place data ((Function.update_of_ne heq _ _).symm.trans hdata)

/-- In a run from undamaged files, modules and cached blobs stay absent or complete throughout
    exactly when whatever a pull tears happens to be complete; so they do when nothing is torn. -/
theorem no_damage_iff {disk : List String → Option Bytes} {visits : List Visit}
    (hclean : w.NoDamage disk) (hruns : Along w.visit w.CanVisit disk visits) :
    ((∀ done, done <+: visits → w.NoDamage (run w.visit disk done)) ↔
        Along w.visit w.KeepsWhole disk visits) ∧
      (Along w.visit w.TearsNothing disk visits →
        ∀ done, done <+: visits → w.NoDamage (run w.visit disk done)) := by
  have hiff : (∀ done, done <+: visits → w.NoDamage (run w.visit disk done)) ↔
      Along w.visit w.KeepsWhole disk visits :=
    seen_throughout_iff w.NoDamage w.NoDamage hclean (fun _ h => h)
      (fun _ _ hgood hcan hok => (noDamage_visit_iff hgood hcan).mpr hok)
      (fun _ _ hgood hcan hseen => (noDamage_visit_iff hgood hcan).mp hseen) hruns
  refine ⟨hiff, fun h => hiff.mpr ?_⟩
  exact along_of_invariant (fun _ => True) trivial
    (fun _ _ _ hok => ⟨keepsWhole_of_tearsNothing hok, trivial⟩) h

end PullWorld

/-! ## A download -/

/-- One server, with a file of two bytes, and neither registries nor a cache directory. -/
def plainWorld : PullWorld where
  cwd := ["work"]
  cacheDir := none
  parse _ := none
  hash url := url
  blob _ := none
  blob_digest _ _ h := nomatch h
  serves _ _ := False
  layer_digest _ _ h := h.elim
  body url data := url = "http://host/a" ∧ data = [0, 97]
  found _ _ _ := False
  localFile _ _ := False

def plainDependency : Dependency := .detailed { registry := some "http://host/a" }

/-- The calls of a download whose body arrives as `filled` says. -/
def downloadCalls (filled : Filled) : List (Event PullAct PullAct.Answer) :=
  [⟨.createDirAll "modules", .ok ()⟩, ⟨.httpGet "http://host/a", .ok ()⟩,
    ⟨.create "modules/a.wasm", .ok ()⟩, ⟨.fill "modules/a.wasm" (.body "http://host/a"), filled⟩]

theorem canVisit_download {disk : List String → Option Bytes} {filled : Filled}
    (hdata : filled.data = [0, 97])
    (hstop : ∀ n, filled.stoppedAt = some n → n < filled.data.length ∧ filled.result.isOk = false) :
    plainWorld.CanVisit disk (.pull "a" plainDependency (downloadCalls filled)) := by
  have hsource : selectSource "a" plainDependency = .ok (.http "http://host/a") := by decide
  have hparent : parent (modulePath "a") = some "modules" := by decide
  show Partial plainWorld.outside (pullDependency _ _ "a" plainDependency) _ _
  unfold pullDependency
  rw [hsource]
  unfold download createParent
  dsimp only
  rw [hparent]
  exact .act trivial <| .act trivial <| .act trivial <| .act ⟨⟨rfl, hdata⟩, hstop⟩ <| .stopped _ _

def wholeBody : Filled := ⟨[0, 97], none, .ok ()⟩

/-- The connection ends after the first byte. -/
def cutBody : Filled := ⟨[0, 97], some 1, .error "unexpected end of file"⟩

/-- A complete download, the removal of the module, and a download that gets no answer. -/
def plainVisits : List Visit :=
  [.pull "a" plainDependency (downloadCalls wholeBody), .remove "modules/a.wasm",
    .pull "a" plainDependency []]

theorem no_damage_download :
    plainWorld.NoDamage (run plainWorld.visit (fun _ => none) plainVisits) := by
  refine (PullWorld.no_damage_iff PullWorld.noDamage_empty ?_).2 ?_ plainVisits
    (List.prefix_refl plainVisits)
  · exact ⟨canVisit_download rfl nofun, trivial, .stopped _ _, trivial⟩
  · have htorn : (plainWorld.afterCalls (fun _ => none) (downloadCalls wholeBody)).torn = [] := by
      decide
    exact ⟨htorn, trivial, rfl, trivial⟩

/-- Nothing that a pull could have left there is one byte long. -/
theorem not_whole_cut : ¬ plainWorld.Whole ["work", "modules", "a.wasm"] [0] := by
  intro h
  have hplace : locate plainWorld.cwd (modulePath "a") = ["work", "modules", "a.wasm"] := by
    decide
  obtain ⟨name, dep, source, -, -, hoffer⟩ := h.module ⟨"a", hplace⟩
  have hnofile : ∀ place data, ¬ plainWorld.FileContent place data := by
    intro place data hfile
    rcases hfile with ⟨⟨digest, hat⟩, hblob⟩ | ⟨-, hlocal⟩
    · exact absurd (hblob digest hat) nofun
    · exact hlocal
  cases source with
  | oci reference =>
    obtain ⟨_, _, hserved, -⟩ := hoffer
    exact hserved
  | http url => exact absurd hoffer.2 (by decide)
  | git url ref =>
    obtain ⟨_, _, hdir, -⟩ := hoffer
    exact absurd hdir nofun
  | localPath path => exact hnofile _ _ hoffer

/-- A download that fails in the middle leaves a truncated module, and `sync` finds it there. -/
theorem download_cut_short :
    plainWorld.NoDamage (fun _ => none) ∧
      plainWorld.CanVisit (fun _ => none) (.pull "a" plainDependency (downloadCalls cutBody)) ∧
      plainWorld.visit (fun _ => none) (.pull "a" plainDependency (downloadCalls cutBody))
        ["work", "modules", "a.wasm"] = some [0] ∧
      ¬ plainWorld.NoDamage
        (plainWorld.visit (fun _ => none) (.pull "a" plainDependency (downloadCalls cutBody))) := by
  have hleft : plainWorld.visit (fun _ => none)
      (.pull "a" plainDependency (downloadCalls cutBody)) ["work", "modules", "a.wasm"] =
        some [0] := by decide
  refine ⟨PullWorld.noDamage_empty, canVisit_download rfl ?_, hleft, fun h => ?_⟩
  · intro n hn
    rw [← Option.some.inj hn]
    exact ⟨by decide, rfl⟩
  · exact not_whole_cut (h _ _ hleft)

end Mik.Config
