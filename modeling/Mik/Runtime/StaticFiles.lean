/-
  Static files (`src/runtime/static_files.rs`, `validate_path_within_base` of
  `src/runtime/security/path/base.rs`, and the static branch of `handle_request_inner`).

  The file system is a `FileSystem` with any symbolic links, which does not change while one
  request is served. The table of MIME types is another package: `mimeFromPath`.

  `static_confined`: what is served is the content of a file below the canonical base.
  `verdict_independent_iff`: the check of a path depends on how its base is spelled exactly where
  the parent of the file is missing, since there the base is compared as it is written.
  `static_reachable_iff`: the path of a request is never decoded, so the files that are found under
  their encoded names are those whose names need no encoding.
-/
import Mik.Lib.Encoding
import Mik.Lib.Symlinks
import Mik.Runtime.FilePath
import Mik.Runtime.Http

namespace Mik.Runtime

open Mik.Lib FileSystem

/-! ## The check of a path -/

/-- The path that is compared with the base: canonical if the file exists, below the canonical
    parent if only that exists, else as it is. -/
def canonicalCandidate (fs : FileSystem Bytes) (fullPath : String) :
    Except PathTraversalError String :=
  if fs.pathExists fullPath then
    match fs.canonicalize fullPath with
    | .ok canonical => .ok canonical
    | .error _ => .error .escapesBaseDirectory
  else
    match parent fullPath, fileName fullPath with
    | some parent, some filename =>
      if fs.pathExists parent then
        match fs.canonicalize parent with
        | .ok canonicalParent => .ok (join canonicalParent filename)
        | .error _ => .error .escapesBaseDirectory
      else .ok fullPath
    | _, _ => .error .emptyPath

def validatePathWithinBase (fs : FileSystem Bytes) (baseDir filePath : String) :
    Except PathTraversalError String :=
  match canonicalCandidate fs (join baseDir filePath) with
  | .error e => .error e
  | .ok canonical =>
    match fs.canonicalize baseDir with
    | .error _ => .error .escapesBaseDirectory
    | .ok canonicalBase =>
      if startsWithPath canonical canonicalBase then .ok canonical
      else .error .escapesBaseDirectory

/-! ## Serving a file -/

def staticCacheControl : String := "public, max-age=3600"

/-- The types that `guess_content_type` adds a character set to by name. -/
def charsetTypes : List String :=
  ["text/html", "text/css", "text/javascript", "application/javascript", "application/json",
    "text/plain", "text/xml", "application/xml"]

/-- The types it leaves alone by name. -/
def bareTypes : List String :=
  ["image/png", "image/jpeg", "image/gif", "image/svg+xml", "image/webp", "image/x-icon",
    "application/pdf", "application/wasm"]

def guessContentType (mimeFromPath : String → Option String) (path : String) : String :=
  match mimeFromPath path with
  | none => "application/octet-stream"
  | some mime =>
    if charsetTypes.contains mime then mime ++ "; charset=utf-8"
    else if bareTypes.contains mime then mime
    else if startsWith "text/" mime || containsText "json" mime || containsText "xml" mime then
      mime ++ "; charset=utf-8"
    else mime

/-- The path that is looked up: of a directory, its `index.html`. -/
def targetPath (fs : FileSystem Bytes) (staticDir sanitized : String) : String :=
  if fs.isDir (join staticDir sanitized) then join sanitized "index.html" else sanitized

def invalidPath : Response := ⟨400, [], utf8 "Invalid path"⟩

def serveStaticFile (fs : FileSystem Bytes) (mimeFromPath : String → Option String)
    (staticDir path : String) : Response :=
  match sanitizeFilePath ((stripPrefix "/static/" path).getD path) with
  | .error _ => invalidPath
  | .ok sanitized =>
    match validatePathWithinBase fs staticDir (targetPath fs staticDir sanitized) with
    | .error _ => invalidPath
    | .ok fullPath =>
      match fs.read fullPath with
      | .ok contents =>
        ⟨200, [("content-type", guessContentType mimeFromPath fullPath),
          ("cache-control", staticCacheControl)], contents⟩
      | .error .notFound => notFound "File not found"
      | .error _ => ⟨500, [], utf8 "Internal server error"⟩

/-- The checks of `handle_request_inner` and its static branch. -/
def handleStaticRequest (fs : FileSystem Bytes) (mimeFromPath : String → Option String)
    (http : HttpLib) (staticDir : Option String) (maxBodySizeBytes : Nat) (req : Request)
    (clientAcceptsGzip : Bool) : Response :=
  match validatePathLength req.uri.path with
  | some resp => resp
  | none =>
    match validateContentLength req.headers maxBodySizeBytes with
    | some resp => resp
    | none =>
      match staticDir with
      | some dir =>
        maybeCompressResponse http (serveStaticFile fs mimeFromPath dir req.uri.path)
          clientAcceptsGzip
      | none => notFound "Static file serving not enabled"

/-! ## Confinement -/

section

variable {fs : FileSystem Bytes} {mimeFromPath : String → Option String}
  {staticDir path base p q fullPath : String} {names loc found : List String} {bytes : Bytes}

theorem pathExists_iff : fs.pathExists p = true ↔ ∃ found, fs.resolve p = .ok found := by
  unfold FileSystem.pathExists
  cases fs.resolve p with
  | ok found => simp [Except.isOk, Except.toBool]
  | error e => simp [Except.isOk, Except.toBool]

/-- What is looked up is the text of plain names. -/
theorem targetPath_names (h : sanitizeFilePath p = .ok q) :
    ∃ names, targetPath fs staticDir q = pathOfNames names ∧ names ≠ [] ∧
      ∀ name ∈ names, Plain name := by
  obtain ⟨-, names, rfl, hne, hnames, -⟩ := sanitizeFilePath_ok h
  unfold targetPath
  split
  · refine ⟨names ++ ["index.html"], (pathOfNames_snoc _ _).symm, by simp, fun name hname => ?_⟩
    rcases List.mem_append.mp hname with hname | hname
    · exact hnames.plain name hname
    · rw [List.mem_singleton.mp hname]
      decide
  · exact ⟨names, rfl, hne, hnames.plain⟩

/-- A path that was checked has content only where the file itself exists, and then it is
    canonical: below a parent there is still no such file. -/
theorem read_candidate (hdemands : demandsDirectory p = false)
    (h : canonicalCandidate fs p = .ok q) (hread : fs.read q = .ok bytes) :
    ∃ found, fs.resolve p = .ok found ∧ q = absolutePath found ∧
      fs.tree.lookup found = some (.file (.content bytes)) := by
  obtain ⟨loc, hloc, hcontent⟩ := read_ok_iff.mp hread
  unfold canonicalCandidate at h
  split at h
  · split at h
    · next canonical hcanonical =>
      cases h
      obtain ⟨found, hfound, rfl⟩ := canonicalize_ok_iff.mp hcanonical
      rw [resolve_absolutePath (settled_resolve hfound)] at hloc
      cases hloc
      exact ⟨loc, hfound, rfl, hcontent⟩
    · cases h
  next hmissing =>
  split at h
  · next up name hup hname =>
    split at h
    · split at h
      · next canonicalParent hcanonical =>
        cases h
        obtain ⟨ploc, hploc, rfl⟩ := canonicalize_ok_iff.mp hcanonical
        have hplain : Plain name := plain_of_fileName hname
        rw [resolve_join_name hplain (resolve_absolutePath (settled_resolve hploc)),
          ← resolve_of_parent hup hname hdemands hploc] at hloc
        exact absurd (pathExists_iff.mpr ⟨loc, hloc⟩) hmissing
      · cases h
    · cases h
      exact absurd (pathExists_iff.mpr ⟨loc, hloc⟩) hmissing
  · cases h

theorem validatePathWithinBase_ok (h : validatePathWithinBase fs staticDir p = .ok q) :
    canonicalCandidate fs (join staticDir p) = .ok q ∧
      ∃ base, fs.canonicalize staticDir = .ok base ∧ startsWithPath q base = true := by
  unfold validatePathWithinBase at h
  split at h
  · cases h
  next canonical hcandidate =>
  split at h
  · cases h
  next canonicalBase hbase =>
  split at h
  · next hstarts =>
    cases h
    exact ⟨hcandidate, canonicalBase, hbase, hstarts⟩
  · cases h

/-- What is served was found under the path that was looked up. -/
theorem serveStaticFile_ok (h : (serveStaticFile fs mimeFromPath staticDir path).status = 200) :
    ∃ sanitized base found,
      sanitizeFilePath ((stripPrefix "/static/" path).getD path) = .ok sanitized ∧
      fs.resolve (join staticDir (targetPath fs staticDir sanitized)) = .ok found ∧
      fs.tree.lookup found =
        some (.file (.content (serveStaticFile fs mimeFromPath staticDir path).body)) ∧
      fs.canonicalize staticDir = .ok base ∧ startsWithPath (absolutePath found) base = true := by
  generalize hresp : serveStaticFile fs mimeFromPath staticDir path = resp at h ⊢
  unfold serveStaticFile at hresp
  split at hresp
  · rw [← hresp] at h
    cases h
  next sanitized hsanitized =>
  split at hresp
  · rw [← hresp] at h
    cases h
  next fullPath hvalid =>
  split at hresp
  · next contents hread =>
    obtain ⟨names, htarget, hne, hplain⟩ := @targetPath_names fs staticDir _ _ hsanitized
    obtain ⟨hcandidate, base, hbase, hstarts⟩ := validatePathWithinBase_ok hvalid
    have hdemands :
        demandsDirectory (join staticDir (targetPath fs staticDir sanitized)) = false := by
      rw [htarget]
      exact demandsDirectory_join_names _ hne hplain
    obtain ⟨found, hfound, rfl, hcontent⟩ := read_candidate hdemands hcandidate hread
    rw [← hresp]
    exact ⟨sanitized, base, found, hsanitized, hfound, hcontent, hbase, hstarts⟩
  · rw [← hresp] at h
    cases h
  · rw [← hresp] at h
    cases h

/-- Whatever is served is the content of a regular file, and its canonical path lies below the
    canonical path of the static directory. -/
theorem static_confined (fs : FileSystem Bytes) (mimeFromPath : String → Option String)
    (staticDir path : String) (h : (serveStaticFile fs mimeFromPath staticDir path).status = 200) :
    ∃ base loc, fs.canonicalize staticDir = .ok base ∧
      fs.tree.lookup loc =
        some (.file (.content (serveStaticFile fs mimeFromPath staticDir path).body)) ∧
      fs.canonicalize (absolutePath loc) = .ok (absolutePath loc) ∧
      startsWithPath (absolutePath loc) base = true := by
  obtain ⟨-, base, found, -, -, hcontent, hbase, hstarts⟩ := serveStaticFile_ok h
  have hcanonical : fs.canonicalize (absolutePath found) = .ok (absolutePath found) :=
    canonicalize_ok_iff.mpr ⟨found, resolve_absolutePath (Or.inr ⟨_, hcontent⟩), rfl⟩
  exact ⟨base, found, hbase, hcontent, hcanonical, hstarts⟩

/-- `/srv/site` with a page under two names, and `/srv/www`, which is a link to it. -/
def siteTree : FileSystem Bytes :=
  ofEntries 40
    [(["srv"], .dir), (["srv", "site"], .dir), (["srv", "www"], .file (.link "site")),
      (["srv", "site", "index.html"], .file (.content (utf8 "home"))),
      (["srv", "site", "home"], .file (.link "./index.html")),
      (["srv", "site", "up"], .file (.link "../secret")),
      (["srv", "secret"], .file (.content (utf8 "secret"))),
      (["srv", "site", "a b.txt"], .file (.content (utf8 "text")))]

theorem static_confined_behind_links :
    ∃ base loc, siteTree.canonicalize "/srv/www" = .ok base ∧
      siteTree.tree.lookup loc = some (.file (.content
        (serveStaticFile siteTree (fun _ => none) "/srv/www" "/static/home").body)) ∧
      siteTree.canonicalize (absolutePath loc) = .ok (absolutePath loc) ∧
      startsWithPath (absolutePath loc) base = true :=
  static_confined siteTree (fun _ => none) "/srv/www" "/static/home" (by decide +kernel)

example : (serveStaticFile siteTree (fun _ => none) "/srv/www" "/static/up").status = 400 := by
  decide +kernel

/-! ## The spelling of the base -/

theorem components_of_base (hbase : fs.resolve base = .ok loc)
    (h : components base <+: .rootDir :: loc.map .normal) :
    components base = .rootDir :: loc.map .normal := by
  obtain ⟨hne, hwalk⟩ := walk_of_resolve hbase
  obtain ⟨rest, hrest⟩ := h
  cases hcs : components base with
  | nil => exact absurd hcs (components_ne_nil hne)
  | cons c cs =>
    rw [hcs, List.cons_append] at hrest
    obtain ⟨rfl, htail⟩ := List.cons.inj hrest
    obtain ⟨pre, post, rfl, rfl, -⟩ := List.map_eq_append_iff.mp htail.symm
    have hpre : fs.Settled pre := by
      by_cases hpost : post = []
      · have hsettled := settled_resolve hbase
        rwa [hpost, List.append_nil] at hsettled
      · exact Or.inl (FileTree.lookup_of_append hpost (settled_resolve hbase).ne_none)
    -- the base leads where its components say, which is the whole location only at its end
    have hwhole : fs.walk fs.follow fs.cwd (.rootDir :: pre.map .normal) = .ok pre :=
      @walk_settled _ fs [] fs.follow pre hpre
    rw [hcs, hwhole] at hwalk
    have heq := Except.ok.inj hwalk
    rw [← heq]

/-- Names below the base do not help it start with its canonical path. -/
theorem startsWithPath_join (hbase : fs.resolve base = .ok loc)
    (hplain : ∀ name ∈ names, Plain name) :
    startsWithPath (join base (pathOfNames names)) (absolutePath loc) =
      startsWithPath base (absolutePath loc) := by
  have hcanonical := components_absolutePath (settled_resolve hbase).plain
  unfold startsWithPath
  rw [components_join_names (walk_of_resolve hbase).1 hplain, hcanonical, Bool.eq_iff_iff,
    List.isPrefixOf_iff_prefix, List.isPrefixOf_iff_prefix]
  constructor
  · intro h
    rcases List.prefix_or_prefix_of_prefix h (List.prefix_append _ _) with hpre | hpre
    · exact hpre
    · exact ⟨[], by rw [List.append_nil, components_of_base hbase hpre]⟩
  · exact fun h => h.trans (List.prefix_append _ _)

theorem isOk_validate_of_candidate (hbase : fs.resolve base = .ok loc)
    (hcandidate : canonicalCandidate fs (join base p) = .ok q) :
    (validatePathWithinBase fs base p).isOk = startsWithPath q (absolutePath loc) := by
  unfold validatePathWithinBase
  rw [hcandidate, canonicalize_ok_iff.mpr ⟨loc, hbase, rfl⟩]
  dsimp only
  split
  · next h => rw [h]; rfl
  · next h => rw [eq_false_of_ne_true h]; rfl

/-- Where the parent is found, the verdict is one about the location of the base alone. -/
def verdictAt (fs : FileSystem Bytes) (loc init : List String) (name : String) : Bool :=
  match fs.walk fs.follow loc ((init ++ [name]).map .normal),
      fs.walk fs.follow loc (init.map .normal) with
  | .ok found, _ => startsWithPath (absolutePath found) (absolutePath loc)
  | .error _, .ok found => startsWithPath (join (absolutePath found) name) (absolutePath loc)
  | .error _, .error _ => false

/-- The directory the file would be in is there. -/
def parentExists (fs : FileSystem Bytes) (base p : String) : Bool :=
  (parent (join base p)).any fs.pathExists

/-- Both spellings get the same verdict, and a file whose parent is missing is not found through
    either of them. -/
def SpellingIrrelevant (fs : FileSystem Bytes) (mimeFromPath : String → Option String)
    (b₁ b₂ raw p : String) : Prop :=
  (validatePathWithinBase fs b₁ p).isOk = (validatePathWithinBase fs b₂ p).isOk ∧
    ∀ b, b = b₁ ∨ b = b₂ → parentExists fs b p = false →
      (serveStaticFile fs mimeFromPath b ("/static/" ++ raw)).status = 404

section

variable {init : List String} {name raw : String} {e : IoErrorKind}
  (hbase : fs.resolve base = .ok loc) (hdir : fs.tree.lookup loc = some .dir)
  (hplain : ∀ n ∈ init ++ [name], Plain n)

include hbase hplain

theorem resolve_target :
    fs.resolve (join base (pathOfNames (init ++ [name]))) =
      fs.walk fs.follow loc ((init ++ [name]).map .normal) :=
  resolve_join_names (by simp) hplain hbase

theorem candidate_of_found
    (h : fs.walk fs.follow loc ((init ++ [name]).map .normal) = .ok found) :
    canonicalCandidate fs (join base (pathOfNames (init ++ [name]))) =
      .ok (absolutePath found) := by
  have hresolve := resolve_target hbase hplain
  rw [h] at hresolve
  unfold canonicalCandidate
  rw [if_pos (pathExists_iff.mpr ⟨found, hresolve⟩),
    canonicalize_ok_iff.mpr ⟨found, hresolve, rfl⟩]

theorem not_exists_of_error
    (h : fs.walk fs.follow loc ((init ++ [name]).map .normal) = .error e) :
    ¬ fs.pathExists (join base (pathOfNames (init ++ [name]))) = true := by
  rw [pathExists_iff, resolve_target hbase hplain, h]
  simp

include hdir

theorem resolve_up :
    fs.resolve (pathOf (components base ++ init.map .normal)) =
      fs.walk fs.follow loc (init.map .normal) :=
  resolve_pathOf_join (fun n hn => hplain n (by simp [hn])) hbase hdir

theorem candidate_of_parent
    (h : fs.walk fs.follow loc ((init ++ [name]).map .normal) = .error e)
    (hup : fs.walk fs.follow loc (init.map .normal) = .ok found) :
    canonicalCandidate fs (join base (pathOfNames (init ++ [name]))) =
      .ok (join (absolutePath found) name) := by
  have hresolve := resolve_up hbase hdir hplain
  rw [hup] at hresolve
  obtain ⟨hparent, hname⟩ := parent_join_names (walk_of_resolve hbase).1 hplain
  unfold canonicalCandidate
  rw [if_neg (not_exists_of_error hbase hplain h), hparent, hname]
  dsimp only
  rw [if_pos (pathExists_iff.mpr ⟨found, hresolve⟩),
    canonicalize_ok_iff.mpr ⟨found, hresolve, rfl⟩]

/-- Without a parent the path is left as it was made from the base. -/
theorem candidate_of_nothing
    (h : fs.walk fs.follow loc ((init ++ [name]).map .normal) = .error e)
    (hup : ∀ found, fs.walk fs.follow loc (init.map .normal) ≠ .ok found) :
    canonicalCandidate fs (join base (pathOfNames (init ++ [name]))) =
      .ok (join base (pathOfNames (init ++ [name]))) := by
  have hmissing : ¬ fs.pathExists (pathOf (components base ++ init.map .normal)) = true := by
    rw [pathExists_iff, resolve_up hbase hdir hplain]
    rintro ⟨found, hfound⟩
    exact hup found hfound
  obtain ⟨hparent, hname⟩ := parent_join_names (walk_of_resolve hbase).1 hplain
  unfold canonicalCandidate
  rw [if_neg (not_exists_of_error hbase hplain h), hparent, hname]
  dsimp only
  rw [if_neg hmissing]

theorem isOk_validate (hup : fs.walk fs.follow loc (init.map .normal) = .ok found) :
    (validatePathWithinBase fs base (pathOfNames (init ++ [name]))).isOk =
      verdictAt fs loc init name := by
  unfold verdictAt
  cases h : fs.walk fs.follow loc ((init ++ [name]).map .normal) with
  | ok target =>
    exact isOk_validate_of_candidate hbase (candidate_of_found hbase hplain h)
  | error e =>
    rw [hup]
    exact isOk_validate_of_candidate hbase (candidate_of_parent hbase hdir hplain h hup)

theorem parentExists_iff :
    parentExists fs base (pathOfNames (init ++ [name])) = true ↔
      ∃ found, fs.walk fs.follow loc (init.map .normal) = .ok found := by
  unfold parentExists
  rw [(parent_join_names (walk_of_resolve hbase).1 hplain).1, Option.any_some, pathExists_iff,
    resolve_up hbase hdir hplain]

/-- What is answered where the parent is missing. -/
theorem status_of_nothing (hraw : sanitizeFilePath raw = .ok (pathOfNames (init ++ [name])))
    (h : fs.walk fs.follow loc ((init ++ [name]).map .normal) = .error e)
    (hup : ∀ found, fs.walk fs.follow loc (init.map .normal) ≠ .ok found) :
    (serveStaticFile fs mimeFromPath base ("/static/" ++ raw)).status = 404 ↔
      startsWithPath base (absolutePath loc) = true ∧ e = .notFound := by
  have hresolve := resolve_target hbase hplain
  rw [h] at hresolve
  have htarget : targetPath fs base (pathOfNames (init ++ [name])) =
      pathOfNames (init ++ [name]) := by
    unfold targetPath isDir
    rw [hresolve]
    rfl
  have hstrip : stripPrefix "/static/" ("/static/" ++ raw) = some raw :=
    stripPrefix_eq_some_iff.mpr rfl
  unfold serveStaticFile
  rw [hstrip, Option.getD_some, hraw]
  dsimp only
  rw [htarget]
  unfold validatePathWithinBase
  rw [candidate_of_nothing hbase hdir hplain h hup, canonicalize_ok_iff.mpr ⟨loc, hbase, rfl⟩]
  dsimp only
  rw [startsWithPath_join hbase hplain]
  by_cases hstarts : startsWithPath base (absolutePath loc) = true
  · rw [if_pos hstarts]
    dsimp only
    rw [read_of_error hresolve]
    cases e with
    | notFound => simp [notFound, hstarts]
    | notADirectory => simp
    | isADirectory => simp
    | filesystemLoop => simp
  · rw [if_neg hstarts]
    simp [invalidPath, hstarts]

end

/-- `validate_path_within_base` judges a sanitised path alike under two spellings of a directory,
    and a file without a parent is not found under both, exactly when there is a parent, or both
    spellings start with the canonical path and a name of the path is missing. -/
theorem verdict_independent_iff {fs : FileSystem Bytes} {mimeFromPath : String → Option String}
    {b₁ b₂ raw p : String} {loc : List String} (hraw : sanitizeFilePath raw = .ok p)
    (h₁ : fs.resolve b₁ = .ok loc) (h₂ : fs.resolve b₂ = .ok loc)
    (hdir : fs.tree.lookup loc = some .dir) :
    SpellingIrrelevant fs mimeFromPath b₁ b₂ raw p ↔
      parentExists fs b₁ p = true ∨
        startsWithPath b₁ (absolutePath loc) = true ∧ startsWithPath b₂ (absolutePath loc) = true ∧
          fs.resolve (join b₁ p) = .error .notFound := by
  obtain ⟨-, names, rfl, hne, hnames, -⟩ := sanitizeFilePath_ok hraw
  obtain ⟨init, name, rfl⟩ := List.eq_nil_or_concat names |>.resolve_left hne
  rw [List.concat_eq_append] at hraw hnames ⊢
  have hplain := hnames.plain
  have hexists₁ := parentExists_iff h₁ hdir hplain
  have hexists₂ := parentExists_iff h₂ hdir hplain
  by_cases hup : ∃ found, fs.walk fs.follow loc (init.map .normal) = .ok found
  · have hparent₁ := hexists₁.mpr hup
    have hparent₂ := hexists₂.mpr hup
    obtain ⟨found, hfound⟩ := hup
    refine iff_of_true ⟨?_, ?_⟩ (Or.inl hparent₁)
    · rw [isOk_validate h₁ hdir hplain hfound, isOk_validate h₂ hdir hplain hfound]
    · intro b hb hmissing
      rcases hb with rfl | rfl
      · rw [hparent₁] at hmissing
        cases hmissing
      · rw [hparent₂] at hmissing
        cases hmissing
  · have hnone : ∀ found, fs.walk fs.follow loc (init.map .normal) ≠ .ok found :=
      fun found hfound => hup ⟨found, hfound⟩
    have hmissing₁ : parentExists fs b₁ (pathOfNames (init ++ [name])) = false :=
      eq_false_of_ne_true fun h => hup (hexists₁.mp h)
    have hmissing₂ : parentExists fs b₂ (pathOfNames (init ++ [name])) = false :=
      eq_false_of_ne_true fun h => hup (hexists₂.mp h)
    obtain ⟨e, he⟩ : ∃ e, fs.walk fs.follow loc ((init ++ [name]).map .normal) = .error e := by
      cases h : fs.walk fs.follow loc (init.map .normal) with
      | ok found => exact absurd h (hnone found)
      | error e =>
        refine ⟨e, ?_⟩
        rw [List.map_append, walk_append, h]
        rfl
    have hstatus₁ := @status_of_nothing fs mimeFromPath b₁ loc init name raw e h₁ hdir hplain
      hraw he hnone
    have hstatus₂ := @status_of_nothing fs mimeFromPath b₂ loc init name raw e h₂ hdir hplain
      hraw he hnone
    have hverdict₁ : (validatePathWithinBase fs b₁ (pathOfNames (init ++ [name]))).isOk =
        startsWithPath b₁ (absolutePath loc) := by
      rw [isOk_validate_of_candidate h₁ (candidate_of_nothing h₁ hdir hplain he hnone),
        startsWithPath_join h₁ hplain]
    have hverdict₂ : (validatePathWithinBase fs b₂ (pathOfNames (init ++ [name]))).isOk =
        startsWithPath b₂ (absolutePath loc) := by
      rw [isOk_validate_of_candidate h₂ (candidate_of_nothing h₂ hdir hplain he hnone),
        startsWithPath_join h₂ hplain]
    have hresolve := resolve_target h₁ hplain
    rw [he] at hresolve
    unfold SpellingIrrelevant
    rw [hverdict₁, hverdict₂, hmissing₁, hresolve]
    constructor
    · rintro ⟨-, h⟩
      obtain ⟨hstarts₁, rfl⟩ := hstatus₁.mp (h b₁ (Or.inl rfl) hmissing₁)
      obtain ⟨hstarts₂, -⟩ := hstatus₂.mp (h b₂ (Or.inr rfl) hmissing₂)
      exact Or.inr ⟨hstarts₁, hstarts₂, rfl⟩
    · rintro (h | ⟨hstarts₁, hstarts₂, herror⟩)
      · cases h
      · cases herror
        refine ⟨by rw [hstarts₁, hstarts₂], fun b hb _ => ?_⟩
        rcases hb with rfl | rfl
        · exact hstatus₁.mpr ⟨hstarts₁, rfl⟩
        · exact hstatus₂.mpr ⟨hstarts₂, rfl⟩

theorem verdict_independent_of_link :
    SpellingIrrelevant siteTree (fun _ => none) "/srv/site" "/srv/www" "home" "home" ↔
      parentExists siteTree "/srv/site" "home" = true ∨
        startsWithPath "/srv/site" (absolutePath ["srv", "site"]) = true ∧
          startsWithPath "/srv/www" (absolutePath ["srv", "site"]) = true ∧
            siteTree.resolve (join "/srv/site" "home") = .error .notFound :=
  verdict_independent_iff (by decide +kernel) (by decide +kernel) (by decide +kernel)
    (by decide +kernel)

/-- A file in a directory that is not there: 404 under the canonical path of the base, 400 behind
    a link to it. -/
theorem link_to_base_refused :
    siteTree.resolve "/srv/site" = .ok ["srv", "site"] ∧
      siteTree.resolve "/srv/www" = .ok ["srv", "site"] ∧
      sanitizeFilePath "docs/a.txt" = .ok "docs/a.txt" ∧
      (serveStaticFile siteTree (fun _ => none) "/srv/site" "/static/docs/a.txt").status = 404 ∧
      (serveStaticFile siteTree (fun _ => none) "/srv/www" "/static/docs/a.txt").status = 400 ∧
      ¬ SpellingIrrelevant siteTree (fun _ => none) "/srv/site" "/srv/www" "docs/a.txt"
        "docs/a.txt" := by
  refine ⟨by decide +kernel, by decide +kernel, by decide +kernel, by decide +kernel,
    by decide +kernel, fun h => ?_⟩
  exact absurd h.1 (by decide +kernel)

end

/-! ## Files under their encoded names -/

/-- Every regular file with the relative path `p`, and no link among its names, is served under
    the encoding of `p`. -/
def ReachableEncoded (set : EncodeSet) (headers : List (String × Bytes)) (maxBodySizeBytes : Nat)
    (p : String) : Prop :=
  ∀ (fs : FileSystem Bytes) (mimeFromPath : String → Option String) (http : HttpLib)
    (staticDir : String) (loc names : List String) (bytes : Bytes) (req : Request) (gzip : Bool),
    fs.resolve staticDir = .ok loc → components p = names.map .normal →
    fs.tree.lookup (loc ++ names) = some (.file (.content bytes)) →
    req.uri.path = "/static/" ++ percentEncode set p → req.headers = headers →
    ∃ shown, handleStaticRequest fs mimeFromPath http (some staticDir) maxBodySizeBytes req gzip =
      maybeCompressResponse http ⟨200, shown, bytes⟩ gzip

theorem handleStaticRequest_of_checks {fs : FileSystem Bytes}
    {mimeFromPath : String → Option String} {http : HttpLib} {staticDir : String}
    {maxBodySizeBytes : Nat} {req : Request} {gzip : Bool}
    (hlength : req.uri.path.utf8ByteSize ≤ maxPathLength)
    (hbody : validateContentLength req.headers maxBodySizeBytes = none) :
    handleStaticRequest fs mimeFromPath http (some staticDir) maxBodySizeBytes req gzip =
      maybeCompressResponse http (serveStaticFile fs mimeFromPath staticDir req.uri.path) gzip := by
  unfold handleStaticRequest validatePathLength
  rw [if_neg (by omega), hbody]

/-- A request that is answered with 200 passed the checks. -/
theorem checks_of_handleStaticRequest {fs : FileSystem Bytes}
    {mimeFromPath : String → Option String} {http : HttpLib} {staticDir : String}
    {maxBodySizeBytes : Nat} {req : Request}
    (h : (handleStaticRequest fs mimeFromPath http (some staticDir) maxBodySizeBytes req
      false).status = 200) :
    req.uri.path.utf8ByteSize ≤ maxPathLength ∧
      validateContentLength req.headers maxBodySizeBytes = none := by
  unfold handleStaticRequest validatePathLength at h
  split at h
  · next resp hlong =>
    split at hlong
    · cases hlong
      cases h
    · cases hlong
  next hshort =>
  split at h
  · next resp hlarge =>
    unfold validateContentLength at hlarge
    split at hlarge
    · cases hlarge
    split at hlarge
    · cases hlarge
      cases h
    · cases hlarge
  next hbody =>
  refine ⟨?_, hbody⟩
  by_contra hlong
  rw [if_pos (by omega)] at hshort
  cases hshort

theorem serveStaticFile_found {fs : FileSystem Bytes} {mimeFromPath : String → Option String}
    {staticDir : String} {loc names : List String} {bytes : Bytes}
    (hbase : fs.resolve staticDir = .ok loc) (hne : names ≠ [])
    (hfile : fs.tree.lookup (loc ++ names) = some (.file (.content bytes)))
    (hsanitized : sanitizeFilePath (pathOfNames names) = .ok (pathOfNames names)) :
    ∃ shown, serveStaticFile fs mimeFromPath staticDir ("/static/" ++ pathOfNames names) =
      ⟨200, shown, bytes⟩ := by
  have hsettled : fs.Settled (loc ++ names) := Or.inr ⟨bytes, hfile⟩
  have hwalk := @walk_settled _ fs loc fs.follow names hsettled
  have hplain : ∀ n ∈ names, Plain n := fun n hn => hsettled.plain n (by simp [hn])
  have hresolve := resolve_join_names hne hplain hbase
  rw [hwalk] at hresolve
  have htarget : targetPath fs staticDir (pathOfNames names) = pathOfNames names := by
    have hdir : fs.isDir (join staticDir (pathOfNames names)) = false := by
      unfold isDir isDirAt
      simp only [hresolve, hfile]
    unfold targetPath
    rw [hdir, if_neg Bool.false_ne_true]
  have hcandidate : canonicalCandidate fs (join staticDir (pathOfNames names)) =
      .ok (absolutePath (loc ++ names)) := by
    unfold canonicalCandidate
    rw [if_pos (pathExists_iff.mpr ⟨_, hresolve⟩), canonicalize_ok_iff.mpr ⟨_, hresolve, rfl⟩]
  have hstarts : startsWithPath (absolutePath (loc ++ names)) (absolutePath loc) = true := by
    unfold startsWithPath
    rw [components_absolutePath hsettled.plain,
      components_absolutePath (settled_resolve hbase).plain, List.map_append, ← List.cons_append,
      List.isPrefixOf_iff_prefix]
    exact List.prefix_append _ _
  have hvalid : validatePathWithinBase fs staticDir (pathOfNames names) =
      .ok (absolutePath (loc ++ names)) := by
    unfold validatePathWithinBase
    rw [hcandidate, canonicalize_ok_iff.mpr ⟨loc, hbase, rfl⟩]
    dsimp only
    rw [if_pos hstarts]
  have hread : fs.read (absolutePath (loc ++ names)) = .ok bytes :=
    read_ok_iff.mpr ⟨_, resolve_absolutePath hsettled, hfile⟩
  have hstrip : stripPrefix "/static/" ("/static/" ++ pathOfNames names) =
      some (pathOfNames names) := stripPrefix_eq_some_iff.mpr rfl
  unfold serveStaticFile
  rw [hstrip, Option.getD_some, hsanitized]
  dsimp only
  rw [htarget, hvalid]
  dsimp only
  rw [hread]
  exact ⟨_, rfl⟩

/-- Normal components are pushed one after the other. -/
theorem foldlM_normal (stack names : List String) :
    (names.map .normal).foldlM stackComponent stack = some (stack ++ names) := by
  induction names generalizing stack with
  | nil => simp
  | cons name names ih =>
    rw [List.map_cons, List.foldlM_cons, stackComponent]
    show (names.map Component.normal).foldlM stackComponent (stack ++ [name]) = _
    rw [ih, List.append_assoc, List.singleton_append]

/-- In the tree of one file, the names of a request that is served are those of the file. -/
theorem names_of_served {fs : FileSystem Bytes} {mimeFromPath : String → Option String}
    {names raw : List String} {bytes : Bytes}
    (hfs : ∀ q leaf, fs.tree.lookup q = some (.file leaf) ↔ q = names ∧ leaf = .content bytes)
    (hraw : ∀ name ∈ raw, Plain name)
    (h : (serveStaticFile fs mimeFromPath "/" ("/static/" ++ pathOfNames raw)).status = 200) :
    names = raw ∨ names = raw ++ ["index.html"] := by
  have hroot : fs.resolve "/" = .ok [] := resolve_absolutePath settled_root
  have hstrip : stripPrefix "/static/" ("/static/" ++ pathOfNames raw) = some (pathOfNames raw) :=
    stripPrefix_eq_some_iff.mpr rfl
  obtain ⟨sanitized, -, found, hsanitized, hfound, hcontent, -⟩ := serveStaticFile_ok h
  rw [hstrip, Option.getD_some] at hsanitized
  obtain ⟨-, names', rfl, hne, hok, hfold⟩ := sanitizeFilePath_ok hsanitized
  rw [components_pathOfNames hraw, foldlM_normal, List.nil_append] at hfold
  obtain rfl := Option.some.inj hfold
  obtain ⟨rfl, -⟩ := (hfs _ _).mp hcontent
  have hwalked : ∀ target : List String, target ≠ [] → (∀ name ∈ target, Plain name) →
      fs.resolve (join "/" (pathOfNames target)) = .ok found → found = target := by
    intro target htarget hplain hresolve
    rw [resolve_join_names htarget hplain hroot] at hresolve
    have hno : ∀ q link, fs.tree.lookup q ≠ some (.file (.link link)) := fun q link hlink => by
      cases ((hfs q _).mp hlink).2
    rw [walk_of_no_link hno hresolve, List.nil_append]
  unfold targetPath at hfound
  split at hfound
  · rw [← pathOfNames_snoc] at hfound
    refine Or.inr (hwalked _ (by simp) (fun name hname => ?_) hfound)
    rcases List.mem_append.mp hname with hname | hname
    · exact hraw name hname
    · rw [List.mem_singleton.mp hname]
      decide
  · exact Or.inl (hwalked _ hne hraw hfound)

/-- The static route finds every file under the encoding of its path exactly when the path needs
    no encoding, as the route does not decode, and the request passes the checks of any request. -/
theorem static_reachable_iff {set : EncodeSet} {headers : List (String × Bytes)}
    {maxBodySizeBytes : Nat} {p : String} (hp : sanitizeFilePath p = .ok p) :
    ReachableEncoded set headers maxBodySizeBytes p ↔
      (∀ b ∈ utf8 p, set.keep b = true) ∧ ("/static/" ++ p).utf8ByteSize ≤ maxPathLength ∧
        validateContentLength headers maxBodySizeBytes = none := by
  obtain ⟨-, names, rfl, hne, hok, -⟩ := sanitizeFilePath_ok hp
  have hencoded : ∀ name ∈ names.map (percentEncode set), Plain name := by
    intro name hname
    obtain ⟨name', hname', rfl⟩ := List.mem_map.mp hname
    exact plain_percentEncode set (hok.plain name' hname')
  constructor
  · intro h
    obtain ⟨fs, hfs⟩ := @exists_one_file Bytes _ names hne hok.plain []
    let http : HttpLib := ⟨fun _ _ => none, fun _ => none, fun _ => none, fun _ => none,
      fun _ => false, id⟩
    let req : Request := ⟨"GET", ⟨none, none, "/static/" ++ percentEncode set (pathOfNames names),
      none⟩, headers, ⟨[], none⟩⟩
    obtain ⟨shown, hshown⟩ := h fs (fun _ => none) http "/" [] names [] req false
      (resolve_absolutePath settled_root) (components_pathOfNames hok.plain)
      ((hfs _ _).mpr ⟨rfl, rfl⟩) rfl rfl
    have hstatus := congrArg Response.status hshown
    obtain ⟨hlength, hbody⟩ := checks_of_handleStaticRequest hstatus
    rw [handleStaticRequest_of_checks hlength hbody] at hstatus
    have hpath : req.uri.path = "/static/" ++ pathOfNames (names.map (percentEncode set)) := by
      rw [← percentEncode_pathOfNames set hok.plain]
    have hunchanged : ∀ r, maybeCompressResponse http r false = r := fun _ => rfl
    rw [hpath, hunchanged, hunchanged] at hstatus
    have hnames : names.map (percentEncode set) = names := by
      rcases names_of_served hfs hencoded hstatus with hsame | hindex
      · exact hsame.symm
      · have hlengths := congrArg List.length hindex
        rw [List.length_append, List.length_map, List.length_singleton] at hlengths
        omega
    have hself : percentEncode set (pathOfNames names) = pathOfNames names := by
      rw [percentEncode_pathOfNames set hok.plain, hnames]
    rw [hpath, hnames] at hlength
    exact ⟨percentEncode_eq_self_iff.mp hself, hlength, hbody⟩
  · intro ⟨hkeep, hlength, hbody⟩ fs mimeFromPath http staticDir loc names' bytes req gzip hbase
      hcomponents hfile hpath hheaders
    obtain rfl : names = names' := by
      rw [components_pathOfNames hok.plain] at hcomponents
      exact List.map_injective_iff.mpr (fun _ _ heq => Component.normal.inj heq) hcomponents
    rw [percentEncode_eq_self_iff.mpr hkeep] at hpath
    obtain ⟨shown, hserved⟩ :=
      @serveStaticFile_found fs mimeFromPath staticDir loc names bytes hbase hne hfile hp
    rw [← hpath] at hlength
    rw [← hheaders] at hbody
    rw [handleStaticRequest_of_checks hlength hbody, hpath, hserved]
    exact ⟨shown, rfl⟩

theorem static_reachable_of_index :
    ReachableEncoded pathSet [] 1024 "docs/index.html" ↔
      (∀ b ∈ utf8 "docs/index.html", pathSet.keep b = true) ∧
        ("/static/" ++ "docs/index.html").utf8ByteSize ≤ maxPathLength ∧
          validateContentLength [] 1024 = none :=
  static_reachable_iff (by decide +kernel)

/-- A file with a blank in its name is there, and its encoding decodes to it, but it is not
    found. -/
theorem space_not_reachable :
    sanitizeFilePath "a b.txt" = .ok "a b.txt" ∧
      siteTree.tree.lookup (["srv", "site"] ++ ["a b.txt"]) =
        some (.file (.content (utf8 "text"))) ∧
      percentEncode pathSet "a b.txt" = "a%20b.txt" ∧ percentDecodeStr "a%20b.txt" = "a b.txt" ∧
      (serveStaticFile siteTree (fun _ => none) "/srv/site" "/static/a%20b.txt").status = 404 ∧
      ¬ ReachableEncoded pathSet [] 1024 "a b.txt" := by
  refine ⟨by decide +kernel, by decide +kernel, by decide +kernel, by decide +kernel,
    by decide +kernel, fun h => ?_⟩
  obtain ⟨shown, hshown⟩ := h siteTree (fun _ => none)
    ⟨fun _ _ => none, fun _ => none, fun _ => none, fun _ => none, fun _ => false, id⟩ "/srv/site"
    ["srv", "site"] ["a b.txt"] (utf8 "text")
    ⟨"GET", ⟨none, none, "/static/a%20b.txt", none⟩, [], ⟨[], none⟩⟩ false (by decide +kernel)
    (by decide +kernel) (by decide +kernel) (by decide +kernel) rfl
  have hstatus := (congrArg Response.status hshown).trans (rfl : _ = 200)
  exact absurd hstatus (by decide +kernel)

end Mik.Runtime
