/-
  What `pull_dependency` pulls a dependency from (`commands/pull.rs`).

  The puller looks at a dependency in an order of its own: a path, a registry, a git URL; and a
  version by itself, which the validation takes for a source, is one only in the short form and
  under a name with a `/`. The version beside a registry is not looked at. So not every dependency
  that validates can be pulled, or is pulled in its version: `validated_pullable_iff` says which.
  `parse` is the parser of `oci_client`, which gives a reference without tag and digest the tag
  `latest`.
-/
import Mik.Config.Sync

namespace Mik.Config

open Mik.Lib

inductive GitRef where
  | branch (name : String)
  | tag (name : String)
  | rev (name : String)
  | default
  deriving DecidableEq, Repr

/-- `GitRef::from_detail`. -/
def GitRef.fromDetail (detail : DependencyDetail) : GitRef :=
  match detail.branch with
  | some name => .branch name
  | none =>
    match detail.tag with
    | some name => .tag name
    | none =>
      match detail.rev with
      | some name => .rev name
      | none => .default

/-- What a dependency is pulled from. -/
inductive Source where
  | oci (reference : String)
  | http (url : String)
  | git (url : String) (ref : GitRef)
  | localPath (path : String)
  deriving DecidableEq, Repr

/-- `is_oci_reference`. -/
def isOciReference (registry : String) : Bool :=
  !startsWith "http://" registry && !startsWith "https://" registry

/-- The branches of `pull_dependency`. -/
def selectSource (name : String) : Dependency → Except String Source
  | .simple version =>
    if containsChar '/' name then .ok (.oci ("ghcr.io/" ++ name ++ ":" ++ version))
    else
      .error ("Dependency '" ++ name ++ "' requires namespace (e.g., 'user/" ++ name ++ "').\n" ++
        "Use: \"" ++ name ++ "\" = \x7b registry = \"ghcr.io/user/" ++ name ++
        ":latest\" \x7d")
  | .detailed d =>
    match d.path with
    | some path => .ok (.localPath path)
    | none =>
      match d.registry with
      | some reg => .ok (if isOciReference reg then .oci reg else .http reg)
      | none =>
        match d.git with
        | some gitUrl => .ok (.git gitUrl (.fromDetail d))
        | none => .error "No source specified for dependency"

/-! ## What validates and what can be pulled -/

/-- `oci_client::Reference`. -/
structure OciReference where
  registry : String
  repository : String
  tag : Option String
  digest : Option String
  deriving DecidableEq, Repr

/-- The reference is of that version. -/
def Designates (parse : String → Option OciReference) (reference version : String) : Prop :=
  ∃ r, parse reference = some r ∧ r.tag = some version

/-- The puller finds a source, and what it hands to `pull_oci` is of the version that the
    dependency gives beside its registry. -/
def Pullable (parse : String → Option OciReference) (name : String) (dep : Dependency) : Prop :=
  ∃ source, selectSource name dep = .ok source ∧
    ∀ detail reg version reference, dep = .detailed detail → detail.registry = some reg →
      detail.version = some version → source = .oci reference →
        Designates parse reference version

/-- A short form has its namespace in the name; a table has a git URL, or a registry that is a URL
    or is itself of the version beside it. -/
def PullCondition (parse : String → Option OciReference) (name : String) : Dependency → Prop
  | .simple _ => containsChar '/' name = true
  | .detailed d => d.git.isSome = true ∨
      ∃ reg, d.registry = some reg ∧
        (isOciReference reg = true → ∀ version, d.version = some version →
          Designates parse reg version)

theorem given_of_some {field : Option String} {value : String} (h : field = some value)
    (hne : field ≠ some "") : given field = true := by
  rw [h] at hne ⊢
  exact bne_iff_ne.mpr fun heq => hne (congrArg some heq)

/-- With a git URL there is no registry. -/
theorem DetailAccepted.no_registry {env : Env} {manifestDir name : String}
    {detail : DependencyDetail} (h : DetailAccepted env manifestDir name detail)
    (hgit : detail.git.isSome = true) : detail.registry = none := by
  obtain ⟨url, hurl⟩ := Option.isSome_iff_exists.mp hgit
  have hgiven := given_of_some hurl h.fields.git
  cases hreg : detail.registry with
  | none => rfl
  | some reg =>
    have hversion := h.registry (by rw [hreg]; rfl)
    have hsource := h.source
    unfold DependencyDetail.oneSource at hsource
    rw [hversion, hgiven] at hsource
    cases hpath : given detail.path with
    | true =>
      rw [hpath] at hsource
      cases hsource
    | false =>
      rw [hpath] at hsource
      cases hsource

theorem pullable_simple_iff (parse : String → Option OciReference) (name version : String) :
    Pullable parse name (.simple version) ↔ containsChar '/' name = true := by
  unfold Pullable selectSource
  cases hname : containsChar '/' name with
  | true =>
    refine ⟨fun _ => rfl, fun _ => ⟨_, rfl, fun detail reg v reference hdep => ?_⟩⟩
    cases hdep
  | false =>
    refine ⟨?_, fun h => absurd h Bool.false_ne_true⟩
    intro ⟨source, hsource, _⟩
    cases hsource

theorem pullable_detailed_iff (parse : String → Option OciReference) {env : Env}
    {manifestDir name : String} {detail : DependencyDetail}
    (h : DetailAccepted env manifestDir name detail) (hpath : detail.path = none) :
    Pullable parse name (.detailed detail) ↔ PullCondition parse name (.detailed detail) := by
  unfold Pullable PullCondition selectSource
  dsimp only
  rw [hpath]
  cases hreg : detail.registry with
  | some reg =>
    have hgit : detail.git.isSome = false := by
      by_contra hsome
      rw [h.no_registry (eq_true_of_ne_false hsome)] at hreg
      cases hreg
    rw [hgit]
    constructor
    · intro ⟨source, hsource, hversion⟩
      refine Or.inr ⟨reg, rfl, fun hoci version hv => ?_⟩
      dsimp only at hsource
      rw [if_pos hoci] at hsource
      exact hversion detail reg version reg rfl hreg hv (Except.ok.inj hsource).symm
    · intro hcondition
      rcases hcondition with hfalse | ⟨reg', hreg', hversion⟩
      · cases hfalse
      · cases hreg'
        refine ⟨_, rfl, fun detail' reg' version reference hdep hreg' hv hsource => ?_⟩
        cases hdep
        split at hsource
        · next hoci =>
          cases hsource
          exact hversion hoci version hv
        · cases hsource
  | none =>
    cases hgit : detail.git with
    | some url =>
      refine ⟨fun _ => Or.inl rfl,
        fun _ => ⟨_, rfl, fun detail' reg version reference hdep hr => ?_⟩⟩
      cases hdep
      rw [hreg] at hr
      cases hr
    | none =>
      constructor
      · intro ⟨source, hsource, _⟩
        cases hsource
      · intro hcondition
        rcases hcondition with hfalse | ⟨reg, hr, _⟩
        · cases hfalse
        · cases hr

/-- The dependency is one of the manifest, in either of the two tables. -/
def Manifest.DependsOn (m : Manifest) (name : String) (dep : Dependency) : Prop :=
  m.dependencies.lookup name = some dep ∨ m.devDependencies.lookup name = some dep

/-- The dependencies of a valid manifest, apart from local paths, that can be pulled. -/
theorem validated_pullable_iff (env : Env) (parse : String → Option OciReference) (path : String)
    (m : Manifest) (hvalid : m.validate env path = .ok ()) (name : String) (dep : Dependency)
    (hdep : m.DependsOn name dep) (hpath : isLocalPathDependency dep = false) :
    Pullable parse name dep ↔ PullCondition parse name dep := by
  obtain ⟨-, hdeps, hdevs⟩ := (accepts_iff env path m).mp hvalid
  cases dep with
  | simple version => exact pullable_simple_iff parse name version
  | detailed detail =>
    have haccepted : DetailAccepted env ((parent path).getD ".") name detail := by
      rcases hdep with hdep | hdep
      · exact (detailed_ok_iff env name detail _ false).mp (hdeps name _ hdep)
      · exact (detailed_ok_iff env name detail _ true).mp (hdevs name _ hdep)
    exact pullable_detailed_iff parse haccepted (Option.not_isSome_iff_eq_none.mp
      (Bool.not_eq_true _ ▸ hpath))

/-- A manifest with one dependency on a repository. -/
theorem repository_pullable :
    Pullable (fun _ => none) "router" (.detailed { git := some "https://github.com/mik/router" }) ↔
      PullCondition (fun _ => none) "router"
        (.detailed { git := some "https://github.com/mik/router" }) :=
  validated_pullable_iff
    ⟨fun version => version == "0.1.0", fun _ => some ("https", true), fun _ => false,
      fun _ => false⟩
    (fun _ => none) "mik.toml"
    (Manifest.edit
      ⟨⟨"app", "0.1.0", none, [], none⟩, .default, .default, .default, none, .empty, .empty⟩
      (.insert false "router" (.detailed { git := some "https://github.com/mik/router" })))
    (by rfl) "router" _ (Or.inl (by rfl)) rfl

/-- `util = "1.0"` validates and has no source; `codec` from the registry reference
    `ghcr.io/user/codec` in version `1.0` validates and is pulled as `latest`. -/
theorem validated_not_pullable :
    ∃ (env : Env) (parse : String → Option OciReference) (m : Manifest),
      m.validate env "mik.toml" = .ok () ∧
      m.DependsOn "util" (.simple "1.0") ∧ ¬ Pullable parse "util" (.simple "1.0") ∧
      m.DependsOn "codec" (.detailed
        { version := some "1.0", registry := some "ghcr.io/user/codec" }) ∧
      ¬ Pullable parse "codec" (.detailed
        { version := some "1.0", registry := some "ghcr.io/user/codec" }) := by
  refine ⟨⟨fun version => version == "0.1.0", fun _ => none, fun _ => false, fun _ => false⟩,
    fun _ => some ⟨"ghcr.io", "user/codec", some "latest", none⟩,
    (Manifest.edit
      ⟨⟨"app", "0.1.0", none, [], none⟩, .default, .default, .default, none, .empty, .empty⟩
      (.insert false "util" (.simple "1.0"))).edit (.insert true "codec" (.detailed
        { version := some "1.0", registry := some "ghcr.io/user/codec" })),
    by rfl, Or.inl (by rfl), ?_, Or.inr (by rfl), ?_⟩
  · rw [pullable_simple_iff]
    decide
  · intro ⟨source, hsource, hversion⟩
    have hselected : selectSource "codec" (.detailed
        { version := some "1.0", registry := some "ghcr.io/user/codec" }) =
          .ok (.oci "ghcr.io/user/codec") := by decide
    rw [hselected] at hsource
    obtain ⟨r, hr, htag⟩ := hversion _ _ _ _ rfl rfl rfl (Except.ok.inj hsource).symm
    rw [← Option.some.inj hr] at htag
    exact absurd htag (by decide)

end Mik.Config
