/-
  The files that a pull writes (`commands/pull.rs`, `registry.rs`).

  A pull is a program of calls to the system, the registries and `git2`. `File::create` empties a
  file, and what is copied or written to it afterwards may stop short: with an error, or because
  the process ends there. The files that a pull has opened and not written to the end are `torn`.
  `PullWorld.Whole` says which content is complete, by the location of a file: a module lies in a
  file with a dot in its name, and a blob does not.

  A location is a path resolved from the working directory, without symbolic links. The retries of
  a call are one call. `find_wasm_file` only looks for a file, and its answer is an input.
-/
import Mathlib.Data.List.Infix
import Mik.Config.Pull
import Mik.Lib.Interrupt

namespace Mik.Config

open Mik.Lib Prog

abbrev Bytes := List UInt8

/-! ## Calls -/

structure OciLayer where
  mediaType : String
  digest : String
  deriving DecidableEq, Repr

/-- `oci_client::manifest::OciManifest`. -/
inductive OciManifest where
  | image (layers : List OciLayer)
  | imageIndex
  deriving DecidableEq, Repr

/-- Where the bytes come from that are written to a file: memory, a response body, another file. -/
inductive Origin where
  | bytes (data : Bytes)
  | body (url : String)
  | file (path : String)
  deriving DecidableEq, Repr

inductive GitCall where
  | openRepo (dir : String)
  | fetch (dir : String)
  | clone (url dir : String)
  | checkout (dir : String) (ref : GitRef)
  deriving DecidableEq, Repr

inductive PullAct where
  | cacheDir
  | pathExists (path : String)
  | createDirAll (path : String)
  | openRead (path : String)
  | create (path : String)
  | fill (path : String) (origin : Origin)
  | pullManifest (reference : String)
  | pullBlob (reference digest : String)
  | httpGet (url : String)
  | git (call : GitCall)
  | findWasm (repoDir name : String)
  deriving DecidableEq, Repr

/-- What the origin had to give, how much of it was written if not all, and the result. -/
structure Filled where
  data : Bytes
  stoppedAt : Option Nat
  result : Except String Unit

/-- What was written to the file. -/
def Filled.written (r : Filled) : Bytes :=
  match r.stoppedAt with
  | none => r.data
  | some n => r.data.take n

abbrev PullAct.Answer : PullAct → Type
  | .cacheDir => Option String
  | .pathExists _ => Bool
  | .fill _ _ => Filled
  | .pullManifest _ => Except String OciManifest
  | .pullBlob _ _ => Except String Bytes
  | .findWasm _ _ => Except String String
  | .createDirAll _ | .openRead _ | .create _ | .httpGet _ | .git _ => Except String Unit

abbrev PullProg := Prog PullAct PullAct.Answer

/-- `anyhow::Result`, with the text of the error. -/
abbrev Result := Except String

def cacheDir : PullProg (Option String) := perform (R := PullAct.Answer) .cacheDir

def pathExists (path : String) : PullProg Bool := perform (R := PullAct.Answer) (.pathExists path)

def createDirAll (path : String) : PullProg (Result Unit) :=
  perform (R := PullAct.Answer) (.createDirAll path)

def openRead (path : String) : PullProg (Result Unit) :=
  perform (R := PullAct.Answer) (.openRead path)

def createFile (path : String) : PullProg (Result Unit) :=
  perform (R := PullAct.Answer) (.create path)

/-- The bytes of the origin, to a file that is open. -/
def fill (path : String) (origin : Origin) : PullProg (Result Unit) := do
  let filled ← perform (R := PullAct.Answer) (.fill path origin)
  return filled.result

def pullManifest (ociRef : String) : PullProg (Result OciManifest) :=
  perform (R := PullAct.Answer) (.pullManifest ociRef)

def pullBlob (ociRef digest : String) : PullProg (Result Bytes) :=
  perform (R := PullAct.Answer) (.pullBlob ociRef digest)

def httpGet (url : String) : PullProg (Result Unit) := perform (R := PullAct.Answer) (.httpGet url)

def git (call : GitCall) : PullProg (Result Unit) := perform (R := PullAct.Answer) (.git call)

def findWasm (repoDir name : String) : PullProg (Result String) :=
  perform (R := PullAct.Answer) (.findWasm repoDir name)

/-- `fs::write`. -/
def fsWrite (path : String) (data : Bytes) : PullProg (Result Unit) :=
  (createFile path).andThen fun _ => fill path (.bytes data)

/-- `fs::copy`: both files are opened, which empties the second, before the first is read. -/
def fsCopy (source destination : String) : PullProg (Result Unit) :=
  (openRead source).andThen fun _ =>
  (createFile destination).andThen fun _ =>
  fill destination (.file source)

/-! ## The blob cache -/

/-- `get_oci_cache_dir`. -/
def blobsDir (cacheDir : String) : String := join (join (join cacheDir "mik") "oci") "blobs"

/-- `get_cached_blob_path`, in the cache directory of the user. -/
def blobPath (cacheDir : Option String) (digest : String) : Except String String :=
  match cacheDir with
  | none => .error "Failed to determine cache directory"
  | some dir =>
    match splitOnce ':' digest with
    | none => .error ("Invalid digest format: " ++ digest)
    | some (algo, hash) => .ok (join (join (blobsDir dir) algo) hash)

/-- `get_cached_blob`. -/
def getCachedBlob (digest : String) : PullProg (Option String) := do
  match blobPath (← cacheDir) digest with
  | .error _ => return none
  | .ok path =>
    let found ← pathExists path
    return if found then some path else none

/-- `cache_blob`. -/
def cacheBlob (digest : String) (data : Bytes) : PullProg (Result Unit) := do
  match blobPath (← cacheDir) digest with
  | .error e => return .error e
  | .ok path =>
    match parent path with
    | none => fsWrite path data
    | some dir => (createDirAll dir).andThen fun _ => fsWrite path data

/-! ## The three ways to pull -/

/-- `str::contains` of a text. -/
def containsText (text s : String) : Bool := decide (text.toList <:+: s.toList)

def OciLayer.suits (layer : OciLayer) : Bool :=
  containsText "wasm" layer.mediaType || containsText "octet-stream" layer.mediaType ||
    layer.mediaType == ""

/-- The layer that is pulled: the first that may be WASM, or else the first. -/
def wasmLayer (layers : List OciLayer) : Option OciLayer :=
  (layers.find? OciLayer.suits).or layers.head?

/-- The layer of the manifest to pull. -/
def layerOf (ociRef : String) : OciManifest → Except String OciLayer
  | .imageIndex => .error "Image index not supported, expected single image"
  | .image layers =>
    if layers = [] then .error ("No layers found in manifest for " ++ ociRef)
    else
      match wasmLayer layers with
      | none => .error ("No suitable layer found in " ++ ociRef)
      | some layer => .ok layer

/-- Making the directory that a path lies in. -/
def createParent (path : String) : PullProg (Result Unit) :=
  match parent path with
  | none => pure (.ok ())
  | some dir => createDirAll dir

/-- `pull_oci`. -/
def pullOci (parse : String → Option OciReference) (ociRef outputPath : String) :
    PullProg (Result Unit) :=
  match parse ociRef with
  | none => pure (.error ("Invalid OCI reference: " ++ ociRef))
  | some _ =>
    (createParent outputPath).andThen fun _ =>
    ((pullManifest ociRef).context
      ("Failed to pull manifest for " ++ ociRef)).andThen fun manifest =>
    match layerOf ociRef manifest with
    | .error e => pure (.error e)
    | .ok layer => do
      match ← getCachedBlob layer.digest with
      | some cachedPath =>
        (fsCopy cachedPath outputPath).context ("Failed to copy cached blob to " ++ outputPath)
      | none =>
        ((pullBlob ociRef layer.digest).context
          ("Failed to pull blob from " ++ ociRef)).andThen fun blobData => do
        -- a failure is logged only
        let _ ← cacheBlob layer.digest blobData
        ((createFile outputPath).context ("Failed to create " ++ outputPath)).andThen fun _ =>
        fill outputPath (.bytes blobData)

/-- `registry::download`. -/
def download (url outputPath : String) : PullProg (Result Unit) :=
  (createParent outputPath).andThen fun _ =>
  ((httpGet url).context "HTTP request failed").andThen fun _ =>
  ((createFile outputPath).context "Failed to create output file").andThen fun _ =>
  fill outputPath (.body url)

/-- `sanitize_url_for_path`, with the hexadecimal hash of the text. -/
def sanitizeUrlForPath (hash : String → String) (url : String) : String :=
  lastPiece '/' (trimEndMatches ".git" (trimEndMatches "/" url)) ++ "-" ++ hash url

/-- The directory of a repository in the git cache. -/
def repoCacheDir (hash : String → String) (cacheDir url : String) : String :=
  join (join (join cacheDir "mik") "git") (sanitizeUrlForPath hash url)

/-- The repository is opened and brought up to date, or cloned. -/
def prepareRepo (found : Bool) (dir gitUrl repoDir : String) : PullProg (Result Unit) :=
  if found then
    ((git (.openRepo repoDir)).context "Failed to open cached git repository").andThen fun _ =>
    git (.fetch repoDir)
  else
    (createDirAll (join (join dir "mik") "git")).andThen fun _ =>
    (git (.clone gitUrl repoDir)).context ("Failed to clone git repository: " ++ gitUrl)

/-- `pull_git_dependency`. -/
def pullGitDependency (hash : String → String) (gitUrl : String) (gitRef : GitRef)
    (name outputPath : String) : PullProg (Result Unit) := do
  match ← cacheDir with
  | none => return .error "Failed to determine cache directory"
  | some dir =>
    let repoDir := repoCacheDir hash dir gitUrl
    (prepareRepo (← pathExists repoDir) dir gitUrl repoDir).andThen fun _ =>
    (git (.checkout repoDir gitRef)).andThen fun _ =>
    (findWasm repoDir name).andThen fun wasmPath =>
    (fsCopy wasmPath outputPath).context ("Failed to copy " ++ wasmPath ++ " to " ++ outputPath)

/-- The file that a local path stands for: itself, or what is built in that directory. -/
def localWasm (path name : String) : String :=
  if (extension path).any fun e => e.toLower == "wasm" then path
  else path ++ "/target/wasm32-wasip2/release/" ++ replaceChar '-' '_' name ++ ".wasm"

def pullPath (path name outputPath : String) : PullProg (Result Unit) :=
  if (extension path).any fun e => e.toLower == "wasm" then fsCopy path outputPath
  else do
    let wasm := localWasm path name
    if ← pathExists wasm then fsCopy wasm outputPath
    else return .error ("Not found: " ++ wasm)

/-- `pull_dependency`, with `parse` and `hash` as above. -/
def pullDependency (parse : String → Option OciReference) (hash : String → String)
    (name : String) (dep : Dependency) : PullProg (Result String) :=
  let outputPath := modulePath name
  let pulled : PullProg (Result Unit) :=
    match selectSource name dep with
    | .error e => pure (.error e)
    | .ok (.oci reference) => pullOci parse reference outputPath
    | .ok (.http url) => download url outputPath
    | .ok (.git url ref) => pullGitDependency hash url ref name outputPath
    | .ok (.localPath path) => pullPath path name outputPath
  pulled.andThen fun _ => pure (.ok outputPath)

/-! ## The world around a pull -/

/-- The location that a path means, from the working directory. -/
def locate (cwd : List String) (path : String) : List String :=
  (components path).foldl (fun place c =>
    match c with
    | .rootDir => []
    | .curDir => place
    | .parentDir => place.dropLast
    | .normal name => place ++ [name]) cwd

/-- A digest as registries write it: an algorithm and the encoded hash. -/
structure IsDigest (digest algo hash : String) : Prop where
  eq : digest = algo ++ ":" ++ hash
  noColon : ':' ∉ algo.toList
  noDot : '.' ∉ hash.toList
  plainAlgo : Plain algo
  plainHash : Plain hash

structure PullWorld where
  cwd : List String
  /-- `dirs::cache_dir()`. -/
  cacheDir : Option String
  parse : String → Option OciReference
  hash : String → String
  /-- The content of a digest; `pull_blob` compares the digest of what it has received. -/
  blob : String → Option Bytes
  blob_digest : ∀ digest data, blob digest = some data → ∃ algo hash, IsDigest digest algo hash
  /-- The manifests that may be served for a reference; their digests are digests. -/
  serves : String → OciManifest → Prop
  layer_digest : ∀ reference layers, serves reference (.image layers) →
    ∀ layer ∈ layers, ∃ algo hash, IsDigest layer.digest algo hash
  /-- What may be the whole body of a response. -/
  body : String → Bytes → Prop
  /-- What `find_wasm_file` may find in a repository for a name. -/
  found : String → String → String → Prop
  /-- The whole contents that a file outside the blob cache may have. -/
  localFile : List String → Bytes → Prop

/-- The files, by location, and the locations of those that are open for writing or were left so. -/
structure PullState where
  disk : List String → Option Bytes
  torn : List (List String)

namespace PullWorld

variable (w : PullWorld)

/-- The location is that of the blob of a digest. -/
def BlobAt (place : List String) (digest : String) : Prop :=
  (∃ algo hash, IsDigest digest algo hash) ∧
    ∃ path, blobPath w.cacheDir digest = .ok path ∧ locate w.cwd path = place

/-- The whole content of a file: of the blob cache, or elsewhere. -/
def FileContent (place : List String) (data : Bytes) : Prop :=
  ((∃ digest, w.BlobAt place digest) ∧
      ∀ digest, w.BlobAt place digest → w.blob digest = some data) ∨
    ((∀ digest, ¬ w.BlobAt place digest) ∧ w.localFile place data)

/-- What an origin may have to give for the file `path`. A file copied to itself is empty by
    then. -/
def MayGive (disk : List String → Option Bytes) (path : String) : Origin → Bytes → Prop
  | .bytes written, data => data = written
  | .body url, data => w.body url data
  | .file source, data =>
    if locate w.cwd source = locate w.cwd path then data = []
    else
      (∃ digest, w.BlobAt (locate w.cwd source) digest) ∧
          disk (locate w.cwd source) = some data ∨
        (∀ digest, ¬ w.BlobAt (locate w.cwd source) digest) ∧
          w.localFile (locate w.cwd source) data

/-- The answers that a call may get. -/
def may (s : PullState) : (a : PullAct) → a.Answer → Prop
  | .cacheDir, r => r = w.cacheDir
  | .pullManifest reference, r => ∀ manifest, r = .ok manifest → w.serves reference manifest
  | .pullBlob _ digest, r => ∀ data, r = .ok data → w.blob digest = some data
  | .findWasm repoDir name, r => ∀ path, r = .ok path → w.found repoDir name path
  | .fill path origin, r => w.MayGive s.disk path origin r.data ∧
      ∀ n, r.stoppedAt = some n → n < r.data.length ∧ r.result.isOk = false
  | _, _ => True

/-- The file is the one that is read. -/
def copiesItself (path : String) : Origin → Bool
  | .file source => locate w.cwd source == locate w.cwd path
  | _ => false

/-- What a call changes. -/
def effect (s : PullState) : (a : PullAct) → a.Answer → PullState
  | .create path, .ok () =>
    { disk := Function.update s.disk (locate w.cwd path) (some [])
      torn := locate w.cwd path :: s.torn }
  | .fill path origin, r =>
    { disk := Function.update s.disk (locate w.cwd path) (some r.written)
      torn :=
        if r.stoppedAt = none ∧ copiesItself w path origin = false then
          s.torn.filter (· ≠ locate w.cwd path)
        else s.torn }
  | _, _ => s

def outside : Outside PullAct PullAct.Answer PullState := ⟨w.may, w.effect⟩

/-! ## Complete files -/

/-- The content that a successful pull of the dependency `name` from a source leaves. -/
def Offers (name : String) : Source → Bytes → Prop
  | .oci reference, data => ∃ layers layer, w.serves reference (.image layers) ∧
      wasmLayer layers = some layer ∧ w.blob layer.digest = some data
  | .http url, data => w.body url data
  | .git url _, data => ∃ dir path, w.cacheDir = some dir ∧
      w.found (repoCacheDir w.hash dir url) name path ∧ w.FileContent (locate w.cwd path) data
  | .localPath path, data => w.FileContent (locate w.cwd (localWasm path name)) data

/-- The content is complete for the file at a location: that of a successful pull where a module
    lies, and that of the digest where a blob lies. -/
structure Whole (place : List String) (data : Bytes) : Prop where
  module : (∃ name, locate w.cwd (modulePath name) = place) →
    ∃ name dep source, locate w.cwd (modulePath name) = place ∧
      selectSource name dep = .ok source ∧ w.Offers name source data
  blob : ∀ digest, w.BlobAt place digest → w.blob digest = some data

/-- Every module is absent or complete, and so is every blob of the cache. -/
def NoDamage (disk : List String → Option Bytes) : Prop :=
  ∀ place data, disk place = some data → w.Whole place data

end PullWorld

theorem locate_join (cwd : List String) (base : String) {name : String} (h : Plain name) :
    locate cwd (join base name) = locate cwd base ++ [name] := by
  unfold locate
  rw [components_join base h, List.foldl_append]
  rfl

/-- A blob lies under its algorithm, in a file named by its hash. -/
theorem blobPath_of_digest {digest algo hash : String} (h : IsDigest digest algo hash)
    (dir : String) :
    blobPath (some dir) digest = .ok (join (join (blobsDir dir) algo) hash) := by
  have hsplit : splitOnce ':' digest = some (algo, hash) := by
    unfold splitOnce
    rw [h.eq, String.toList_append, String.toList_append, show ":".toList = [':'] by decide,
      List.append_assoc, List.singleton_append, span_append h.noColon]
    simp
  unfold blobPath
  dsimp only
  rw [hsplit]

section

variable (w : PullWorld)

/-- A place of the cache is that of one digest. -/
theorem blobAt_unique {place : List String} {digest digest' : String} (h : w.BlobAt place digest)
    (h' : w.BlobAt place digest') : digest = digest' := by
  obtain ⟨⟨algo, hash, hd⟩, path, hpath, hplace⟩ := h
  obtain ⟨⟨algo', hash', hd'⟩, path', hpath', hplace'⟩ := h'
  cases hdir : w.cacheDir with
  | none =>
    rw [hdir] at hpath
    cases hpath
  | some dir =>
    rw [hdir, blobPath_of_digest hd] at hpath
    rw [hdir, blobPath_of_digest hd'] at hpath'
    rw [← Except.ok.inj hpath, locate_join _ _ hd.plainHash, locate_join _ _ hd.plainAlgo]
      at hplace
    rw [← Except.ok.inj hpath', locate_join _ _ hd'.plainHash, locate_join _ _ hd'.plainAlgo,
      ← hplace] at hplace'
    obtain ⟨hleft, hhash⟩ := List.append_inj' hplace' rfl
    obtain ⟨-, halgo⟩ := List.append_inj' hleft rfl
    rw [hd.eq, hd'.eq, List.singleton_inj.mp hhash, List.singleton_inj.mp halgo]

/-- The components of the path of a module: the segments of its name below `modules`, with the
    ending put to the last. -/
theorem components_modulePath (name : String) : ∃ stem, components (modulePath name) =
    .normal "modules" :: (name.toList.splitOn '/').dropLast.filterMap innerComponent ++
      [.normal (stem ++ ".wasm")] := by
  have hwasm : '/' ∉ ".wasm".toList := by decide
  obtain ⟨init, last, hname, hfile⟩ := splitOn_append_of_notMem hwasm name.toList
  have hlast : '/' ∉ last := by
    refine @slash_notMem_of_mem_splitOn name.toList last ?_
    rw [hname]
    exact List.mem_append_right _ (List.mem_singleton_self _)
  have hplain : Plain (String.ofList last ++ ".wasm") := by
    refine plain_append_ext ?_ hwasm (by decide)
    rw [String.toList_ofList]
    exact hlast
  have hinner : innerComponent (last ++ ".wasm".toList) =
      some (.normal (String.ofList last ++ ".wasm")) := by
    have heq := hplain.innerComponent_eq
    rwa [String.toList_append, String.toList_ofList] at heq
  have hmodules : '/' ∉ "modules".toList := by decide
  have hcut : "modules/".toList = "modules".toList ++ ['/'] := by decide
  have hsegments : (modulePath name).toList.splitOn '/' =
      "modules".toList :: (init ++ [last ++ ".wasm".toList]) := by
    unfold modulePath
    rw [String.toList_append, String.toList_append, hcut, List.append_assoc, List.append_assoc,
      List.singleton_append, List.splitOn_append_cons_self, List.splitOn_eq_singleton hmodules,
      hfile, List.singleton_append]
  have hfirst : firstComponent "modules".toList (init ++ [last ++ ".wasm".toList]) =
      some (.normal "modules") := by rfl
  refine ⟨String.ofList last, ?_⟩
  unfold components
  rw [hsegments]
  dsimp only
  rw [hfirst, hname, List.dropLast_concat, List.filterMap_append, Option.toList_some,
    List.singleton_append, List.cons_append, List.filterMap_cons, hinner, List.filterMap_nil]

/-- A module lies in a file with a dot in its name. -/
theorem dot_mem_modulePath (cwd : List String) (name : String) :
    ∃ rest file, locate cwd (modulePath name) = rest ++ [file] ∧ '.' ∈ file.toList := by
  obtain ⟨stem, hstem⟩ := components_modulePath name
  refine ⟨_, stem ++ ".wasm", by rw [locate, hstem, List.foldl_append]; rfl, ?_⟩
  rw [String.toList_append]
  exact List.mem_append_right _ (by decide)

theorem not_blobAt_module {digest name : String} :
    ¬ w.BlobAt (locate w.cwd (modulePath name)) digest := by
  intro ⟨⟨algo, hash, hd⟩, path, hpath, hplace⟩
  obtain ⟨rest, file, hfile, hdot⟩ := dot_mem_modulePath w.cwd name
  cases hdir : w.cacheDir with
  | none =>
    rw [hdir] at hpath
    cases hpath
  | some dir =>
    rw [hdir, blobPath_of_digest hd] at hpath
    rw [hfile, ← Except.ok.inj hpath, locate_join _ _ hd.plainHash] at hplace
    obtain ⟨-, hhash⟩ := List.append_inj' hplace rfl
    rw [← List.singleton_inj.mp hhash] at hdot
    exact hd.noDot hdot

theorem whole_of_blob {digest path : String} {data : Bytes} (h : w.blob digest = some data)
    (hpath : blobPath w.cacheDir digest = .ok path) : w.Whole (locate w.cwd path) data := by
  have hat : w.BlobAt (locate w.cwd path) digest := ⟨w.blob_digest digest data h, path, hpath, rfl⟩
  refine ⟨fun ⟨name, hname⟩ => ?_, fun digest' hat' => ?_⟩
  · rw [← hname] at hat
    exact absurd hat (not_blobAt_module w)
  · rw [← blobAt_unique w hat hat', h]

theorem whole_of_offer {name : String} {dep : Dependency} {source : Source} {data : Bytes}
    (hsource : selectSource name dep = .ok source) (h : w.Offers name source data) :
    w.Whole (locate w.cwd (modulePath name)) data :=
  ⟨fun _ => ⟨name, dep, source, rfl, hsource, h⟩, fun _ hat => absurd hat (not_blobAt_module w)⟩

end

end Mik.Config
