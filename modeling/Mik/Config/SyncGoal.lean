/-
  What a sync is for (`sync` and `remove_stale_modules` in `commands/pull.rs`): the modules of all
  dependencies are there, and no others.

  `SyncsTo` is a whole sync whose pulls all succeed, on the tree of the project: the stale modules
  that can be removed are, and then the missing dependencies are pulled.

  `sync_goal_iff` says when the goal is reached. Only the missing among the ordinary dependencies
  are pulled, so the modules of dev-dependencies, which are not removed, are not pulled either.
  Without slashes in the names the condition is a simple one (`syncCondition_iff_of_noSlash`).
-/
import Mik.Config.PullTree

namespace Mik.Config

open Mik.Lib Prog Function

/-! ## A sync on the tree -/

/-- What the outside world contributes to a sync. -/
structure SyncEnv where
  parse : String → Option OciReference
  hash : String → String
  /-- What `read_dir` yields of `modules/`, without the entries that cannot be read and those whose
      name is not UTF-8. -/
  listing : Option (List String)
  listing_plain : ∀ names, listing = some names → ∀ entry ∈ names, Plain entry
  /-- The removal of the entry works, if it is a file. -/
  removable : String → Bool

namespace SyncEnv

variable (env : SyncEnv) (t : Tree) (cwd : List String) (m : Manifest)

/-- What the sync finds. -/
def modulesDir : ModulesDir where
  entries := if t (cwd ++ ["modules"]) = some .directory then env.listing else none
  existsWithout names path := (t.without cwd (names.filter env.removable)).has cwd path

/-- The entries that can be removed of those that `remove_stale_modules` wants to. -/
def sweepable : List String :=
  (staleModules m.expected ((env.modulesDir t cwd).entries.getD [])).filter env.removable

/-- The tree without the stale modules. -/
def swept : Tree := t.without cwd (env.sweepable t cwd m)

/-- The files that `remove_stale_modules` removes. -/
def removed : List String :=
  (env.sweepable t cwd m).filter fun entry => t (cwd ++ ["modules", entry]) = some .file

/-- The dependencies that are pulled. -/
def pulls : List (String × Dependency) := m.missing (env.modulesDir t cwd)

/-- The pulls of the dependencies, in their order, all succeed. -/
inductive PullsTo : Tree → List (String × Dependency) → Tree → Prop where
  | done (t : Tree) : PullsTo t [] t
  | pull {t t' t'' : Tree} {name path : String} {dep : Dependency}
      {rest : List (String × Dependency)} :
      Finishes (treeWorld cwd) (pullDependency env.parse env.hash name dep) t (.ok path) t' →
        PullsTo t' rest t'' → PullsTo t ((name, dep) :: rest) t''

/-- A sync whose pulls all succeed, and the tree after it. -/
inductive SyncsTo : Tree → Prop where
  | upToDate : env.pulls t cwd m = [] → SyncsTo (env.swept t cwd m)
  | pulling {t' t'' : Tree} : env.pulls t cwd m ≠ [] →
      (env.swept t cwd m).makeDirs cwd (components "modules") = some t' →
        env.PullsTo cwd t' (env.pulls t cwd m) t'' → SyncsTo t''

end SyncEnv

/-! ## The goal -/

/-- The name of the file, in bytes, ends in `.wasm`. -/
def EndsInWasm (name : Bytes) : Prop := ".wasm".toUTF8.toList <:+ name

/-- What is to be after a sync, with the names of the files in `modules/` that are not UTF-8: the
    modules are there, no other module is, and there is nothing left to do. -/
structure SyncGoal (d : Toml) (m : Manifest) (cwd : List String) (foreign : List Bytes) (t : Tree) :
    Prop where
  there : ∀ name dep,
    m.dependencies.lookup name = some dep ∨ m.devDependencies.lookup name = some dep →
      isLocalPathDependency dep = false → t.has cwd (modulePath name) = true
  clean : ∀ entry stem, Plain entry → t (cwd ++ ["modules", entry]) = some .file →
    splitExtension entry = (stem, some "wasm") → stem ∈ m.expected
  foreign_clean : ∀ name ∈ foreign, ¬ EndsInWasm name
  again : ∀ menv m' (env : SyncEnv), Manifest.load menv d = .ok m' →
    env.pulls t cwd m' = [] ∧ env.removed t cwd m' = []

namespace SyncEnv

variable (env : SyncEnv) (t : Tree) (cwd : List String) (m : Manifest)

/-- The pulls need a directory there. -/
def Paves (place : List String) : Prop := ∃ entry ∈ env.pulls t cwd m, place ∈ moduleWay cwd entry.1

/-- The pulls write a module there. -/
def Writes (place : List String) : Prop :=
  ∃ entry ∈ env.pulls t cwd m, place = locate cwd (modulePath entry.1)

end SyncEnv

/-- When a sync reaches its goal: the dev-dependencies have their modules already, or get them from
    the pulls of the others; the stale modules can be removed; and no dependency is named so that
    its module is one of another name. -/
structure SyncCondition (env : SyncEnv) (t : Tree) (cwd : List String) (m : Manifest)
    (foreign : List Bytes) : Prop where
  dev : ∀ name dep, m.devDependencies.lookup name = some dep → isLocalPathDependency dep = false →
    (∀ p ∈ moduleWay cwd name,
        env.swept t cwd m p = some .directory ∨ env.Paves t cwd m p) ∧
      (env.swept t cwd m (locate cwd (modulePath name)) ≠ none ∨
        env.Paves t cwd m (locate cwd (modulePath name)) ∨
        env.Writes t cwd m (locate cwd (modulePath name)))
  stale : ∀ entry stem, Plain entry → t (cwd ++ ["modules", entry]) = some .file →
    splitExtension entry = (stem, some "wasm") → stem ∉ m.expected →
      entry ∈ (env.modulesDir t cwd).entries.getD [] ∧ env.removable entry = true
  foreign : ∀ name ∈ foreign, ¬ EndsInWasm name
  names : ∀ entry stem, Plain entry → env.Writes t cwd m (cwd ++ ["modules", entry]) →
    splitExtension entry = (stem, some "wasm") → stem ∈ m.expected

/-! ## What a sync makes -/

section

variable {env : SyncEnv} {t t' : Tree} {cwd : List String} {m : Manifest}

theorem pullsTo_adds {entries : List (String × Dependency)} (h : env.PullsTo cwd t entries t') :
    Adds t t' (fun p => ∃ entry ∈ entries, p ∈ moduleWay cwd entry.1)
      fun p => ∃ entry ∈ entries, p = locate cwd (modulePath entry.1) := by
  induction h with
  | done t => exact ⟨fun p => by simp, fun p => by simp⟩
  | pull hpull _ ih =>
    refine ((pullDependency_addsModule hpull).trans ih).congr (fun p => ?_) fun p => ?_
    · rw [List.exists_mem_cons_iff]
    · rw [List.exists_mem_cons_iff]

/-- The modules directory is on the way of every module. -/
theorem mem_moduleWay (name : String) {p : List String} (h : p ∈ way cwd (components "modules")) :
    p ∈ moduleWay cwd name := by
  obtain ⟨stem, hstem⟩ := components_modulePath name
  have hmodules : components "modules" = [.normal "modules"] := by decide
  rw [hmodules] at h
  unfold moduleWay
  rw [hstem, List.dropLast_concat]
  rcases List.mem_cons.mp h with rfl | h
  · exact List.mem_cons_self
  · rw [List.mem_singleton.mp h]
    exact List.mem_cons_of_mem _ (first_mem_way _ _)

theorem syncsTo_adds (h : env.SyncsTo t cwd m t') :
    Adds (env.swept t cwd m) t' (env.Paves t cwd m) (env.Writes t cwd m) := by
  cases h with
  | upToDate hpulls =>
    unfold SyncEnv.Paves SyncEnv.Writes
    rw [hpulls]
    exact ⟨fun p => by simp, fun p => by simp⟩
  | pulling hpulls hmodules hall =>
    obtain ⟨entry, hentry⟩ := List.exists_mem_of_ne_nil _ hpulls
    refine ((makeDirs_adds hmodules).trans (pullsTo_adds hall)).congr (fun p => ?_) fun p => ?_
    · refine or_congr_right (or_iff_right_of_imp fun hp => ?_).symm
      exact ⟨entry, hentry, mem_moduleWay entry.1 hp⟩
    · exact (or_iff_right not_false).symm

/-! ## What a sync removes -/

theorem without_file_iff {names : List String} {entry : String} :
    t.without cwd names (cwd ++ ["modules", entry]) = some .file ↔
      t (cwd ++ ["modules", entry]) = some .file ∧ entry ∉ names := by
  have hmem : cwd ++ ["modules", entry] ∈ names.map (fun entry => cwd ++ ["modules", entry]) ↔
      entry ∈ names := by
    refine List.mem_map_of_injective ?_
    intro a b hab
    exact List.head_eq_of_cons_eq (List.tail_eq_of_cons_eq (List.append_cancel_left hab))
  unfold Tree.without
  split
  · next h => exact iff_of_false nofun fun hboth => hboth.2 (hmem.mp h.2)
  · next h => exact (and_iff_left_of_imp fun hfile hentry => h ⟨hfile, hmem.mpr hentry⟩).symm

theorem mem_staleModules_iff {expected entries : List String} {entry : String}
    (hplain : Plain entry) : entry ∈ staleModules expected entries ↔
      entry ∈ entries ∧ ∃ stem, splitExtension entry = (stem, some "wasm") ∧ stem ∉ expected := by
  have hext : extension (join "modules" entry) = (splitExtension entry).2 := by
    unfold extension
    rw [fileName_join _ hplain]
    rfl
  have hstem : fileStem (join "modules" entry) = some (splitExtension entry).1 := by
    unfold fileStem
    rw [fileName_join _ hplain]
    rfl
  unfold staleModules
  rw [List.mem_filter]
  dsimp only
  rw [hext, hstem, Bool.and_eq_true, beq_iff_eq, Option.any_some, Bool.not_eq_true',
    ← Bool.not_eq_true, List.contains_iff_mem]
  refine and_congr_right fun _ => ?_
  constructor
  · rintro ⟨hwasm, hnot⟩
    exact ⟨_, Prod.ext rfl hwasm, hnot⟩
  · rintro ⟨stem, heq, hnot⟩
    rw [heq]
    exact ⟨rfl, hnot⟩

theorem mem_sweepable_iff {entry : String} (hplain : Plain entry) :
    entry ∈ env.sweepable t cwd m ↔
      (entry ∈ (env.modulesDir t cwd).entries.getD [] ∧ env.removable entry = true) ∧
        ∃ stem, splitExtension entry = (stem, some "wasm") ∧ stem ∉ m.expected := by
  unfold SyncEnv.sweepable
  rw [List.mem_filter, mem_staleModules_iff hplain, and_right_comm]

/-- Every entry that the sync finds is a name. -/
theorem plain_of_sweepable {entry : String} (h : entry ∈ env.sweepable t cwd m) : Plain entry := by
  have hentries : entry ∈ (env.modulesDir t cwd).entries.getD [] :=
    List.mem_of_mem_filter (List.mem_of_mem_filter h)
  unfold SyncEnv.modulesDir at hentries
  dsimp only at hentries
  split at hentries
  · cases hlisting : env.listing with
    | none =>
      rw [hlisting] at hentries
      cases hentries
    | some names =>
      rw [hlisting] at hentries
      exact env.listing_plain names hlisting entry hentries
  · cases hentries

/-! ## The goal and its condition -/

/-- The dependencies that are not missing are there, and the missing are pulled. -/
theorem has_dependency (hsync : env.SyncsTo t cwd m t') {name : String} {dep : Dependency}
    (hlookup : m.dependencies.lookup name = some dep) (hlocal : isLocalPathDependency dep = false) :
    t'.has cwd (modulePath name) = true := by
  rw [(syncsTo_adds hsync).has_module_iff]
  cases hholds : (env.modulesDir t cwd).holds m.expected name with
  | true =>
    have hhas : (env.swept t cwd m).has cwd (modulePath name) = true := hholds
    obtain ⟨hway, hplace⟩ := (has_module_iff name).mp hhas
    exact ⟨fun p hp => Or.inl (hway p hp), Or.inl hplace⟩
  | false =>
    have hpulled : (name, dep) ∈ env.pulls t cwd m := mem_missing_iff.mpr ⟨hlookup, hlocal, hholds⟩
    exact ⟨fun p hp => Or.inr ⟨_, hpulled, hp⟩, Or.inr (Or.inr ⟨_, hpulled, rfl⟩)⟩

/-- What is left in `modules/` is what was not removed, and what was pulled. -/
theorem clean_iff (hsync : env.SyncsTo t cwd m t') {entry stem : String} (hplain : Plain entry)
    (hwasm : splitExtension entry = (stem, some "wasm")) :
    (t' (cwd ++ ["modules", entry]) = some .file → stem ∈ m.expected) ↔
      (t (cwd ++ ["modules", entry]) = some .file → stem ∉ m.expected →
        entry ∈ (env.modulesDir t cwd).entries.getD [] ∧ env.removable entry = true) ∧
      (env.Writes t cwd m (cwd ++ ["modules", entry]) → stem ∈ m.expected) := by
  rw [(syncsTo_adds hsync).file, or_imp]
  refine and_congr_left fun _ => ?_
  unfold SyncEnv.swept
  rw [without_file_iff, mem_sweepable_iff hplain, and_imp]
  refine forall_congr' fun _ => ?_
  constructor
  · intro h hnot
    by_contra hkept
    exact hnot (h fun hswept => hkept hswept.1)
  · intro h hkept
    by_contra hnot
    exact hkept ⟨h hnot, stem, hwasm, hnot⟩

/-- Where all modules are there and no others, a sync does nothing. -/
theorem nothing_left
    (hthere : ∀ name dep, m.dependencies.lookup name = some dep →
      isLocalPathDependency dep = false → t.has cwd (modulePath name) = true)
    (hclean : ∀ entry stem, Plain entry → t (cwd ++ ["modules", entry]) = some .file →
      splitExtension entry = (stem, some "wasm") → stem ∈ m.expected) :
    env.pulls t cwd m = [] ∧ env.removed t cwd m = [] := by
  have hkept : ∀ entry ∈ env.sweepable t cwd m, t (cwd ++ ["modules", entry]) ≠ some .file := by
    intro entry hentry hfile
    have hplain := plain_of_sweepable hentry
    obtain ⟨-, stem, hwasm, hnot⟩ := (mem_sweepable_iff hplain).mp hentry
    exact hnot (hclean entry stem hplain hfile hwasm)
  have hswept : env.swept t cwd m = t := by
    funext place
    unfold SyncEnv.swept Tree.without
    refine if_neg fun ⟨hfile, hplace⟩ => ?_
    obtain ⟨entry, hentry, rfl⟩ := List.mem_map.mp hplace
    exact hkept entry hentry hfile
  constructor
  · refine List.eq_nil_iff_forall_not_mem.mpr fun entry hentry => ?_
    obtain ⟨hlookup, hlocal, hholds⟩ := mem_missing_iff.mp hentry
    have hhas : (env.swept t cwd m).has cwd (modulePath entry.1) = false := hholds
    rw [hswept, hthere entry.1 entry.2 hlookup hlocal] at hhas
    cases hhas
  · refine List.filter_eq_nil_iff.mpr fun entry hentry => ?_
    rw [decide_eq_true_eq]
    exact hkept entry hentry

/-- A sync of a valid manifest whose pulls all succeed reaches its goal exactly when the condition
    holds. -/
theorem sync_goal_iff (env : SyncEnv) {menv : Env} {d : Toml} {foreign : List Bytes}
    (hload : Manifest.load menv d = .ok m) (hsync : env.SyncsTo t cwd m t') :
    SyncGoal d m cwd foreign t' ↔ SyncCondition env t cwd m foreign := by
  have hadds := syncsTo_adds hsync
  constructor
  · intro h
    have hclean (entry stem : String) (hplain : Plain entry)
        (hwasm : splitExtension entry = (stem, some "wasm")) :=
      (clean_iff hsync hplain hwasm).mp fun hfile => h.clean entry stem hplain hfile hwasm
    constructor
    case dev =>
      intro name dep hlookup hlocal
      exact (hadds.has_module_iff name).mp (h.there name dep (Or.inr hlookup) hlocal)
    case stale =>
      intro entry stem hplain hfile hwasm hnot
      exact (hclean entry stem hplain hwasm).1 hfile hnot
    case foreign => exact h.foreign_clean
    case names =>
      intro entry stem hplain hwrites hwasm
      exact (hclean entry stem hplain hwasm).2 hwrites
  · intro h
    have hthere (name : String) (dep : Dependency)
        (hlookup : m.dependencies.lookup name = some dep ∨
          m.devDependencies.lookup name = some dep) (hlocal : isLocalPathDependency dep = false) :
        t'.has cwd (modulePath name) = true := by
      rcases hlookup with hlookup | hlookup
      · exact has_dependency hsync hlookup hlocal
      · exact (hadds.has_module_iff name).mpr (h.dev name dep hlookup hlocal)
    have hclean (entry stem : String) (hplain : Plain entry)
        (hfile : t' (cwd ++ ["modules", entry]) = some .file)
        (hwasm : splitExtension entry = (stem, some "wasm")) : stem ∈ m.expected :=
      (clean_iff hsync hplain hwasm).mpr
        ⟨fun hfile hnot => h.stale entry stem hplain hfile hwasm hnot,
          fun hwrites => h.names entry stem hplain hwrites hwasm⟩ hfile
    refine ⟨hthere, hclean, h.foreign, fun menv' m' env' hload' => ?_⟩
    obtain rfl : m' = m := by
      refine Option.some.inj ?_
      rw [← (load_ok_iff.mp hload').1, ← (load_ok_iff.mp hload).1]
    exact nothing_left (fun name dep hlookup => hthere name dep (Or.inl hlookup)) hclean

/-! ## Names without a slash -/

/-- What is in a directory is in a directory. -/
def Closed (t : Tree) : Prop := ∀ place name, t (place ++ [name]) ≠ none → t place = some .directory

theorem components_of_noSlash {name : String} (h : '/' ∉ name.toList) :
    components (modulePath name) = [.normal "modules", .normal (name ++ ".wasm")] := by
  have hplain : Plain (name ++ ".wasm") := plain_append_ext h (by decide) (by decide)
  have hpath : modulePath name = "modules" ++ "/" ++ (name ++ ".wasm") :=
    String.append_assoc
  have hmodules : components "modules" = [.normal "modules"] := by decide
  rw [hpath, components_append_slash _ _ (by decide) hplain, hmodules]
  rfl

theorem moduleWay_of_noSlash {name : String} (h : '/' ∉ name.toList) :
    moduleWay cwd name = [cwd, cwd ++ ["modules"]] := by
  unfold moduleWay
  rw [components_of_noSlash h]
  rfl

theorem locate_of_noSlash {name : String} (h : '/' ∉ name.toList) :
    locate cwd (modulePath name) = cwd ++ ["modules", name ++ ".wasm"] := by
  rw [locate_eq, components_of_noSlash h]
  exact List.append_assoc _ _ _

/-- The name of a module without a slash is what its file is called. -/
theorem stem_of_noSlash {name stem : String}
    (h : splitExtension (name ++ ".wasm") = (stem, some "wasm")) : stem = name := by
  have heq := (splitExtension_eq_iff.mp h).1
  rw [String.append_assoc, show "." ++ "wasm" = ".wasm" by decide] at heq
  exact (String.append_left_inj _).mp heq.symm

/-- Only stale modules are removed. -/
theorem swept_of_expected {name : String} (h : name ∈ m.expected) :
    env.swept t cwd m (cwd ++ ["modules", name ++ ".wasm"]) =
      t (cwd ++ ["modules", name ++ ".wasm"]) := by
  unfold SyncEnv.swept Tree.without
  refine if_neg fun ⟨_, hplace⟩ => ?_
  obtain ⟨entry, hentry, heq⟩ := List.mem_map.mp hplace
  have hsame : entry = name ++ ".wasm" :=
    List.head_eq_of_cons_eq (List.tail_eq_of_cons_eq (List.append_cancel_left heq))
  obtain ⟨-, stem, hwasm, hnot⟩ := (mem_sweepable_iff (plain_of_sweepable hentry)).mp hentry
  rw [hsame] at hwasm
  rw [stem_of_noSlash hwasm] at hnot
  exact hnot h

theorem swept_directory_iff (p : List String) :
    env.swept t cwd m p = some .directory ↔ t p = some .directory := by
  unfold SyncEnv.swept Tree.without
  split
  · next h =>
    rw [h.1]
    exact iff_of_false nofun nofun
  · exact Iff.rfl

theorem mem_expected {name : String} {dep : Dependency}
    (h : m.dependencies.lookup name = some dep ∨ m.devDependencies.lookup name = some dep) :
    name ∈ m.expected := by
  unfold Manifest.expected
  rw [List.mem_append]
  exact h.imp (fun h => List.mem_map_of_mem (Table.lookup_eq_some_iff.mp h))
    fun h => List.mem_map_of_mem (Table.lookup_eq_some_iff.mp h)

theorem noSlash_of_pulled (hnames : ∀ name ∈ m.expected, '/' ∉ name.toList)
    {entry : String × Dependency} (h : entry ∈ env.pulls t cwd m) : '/' ∉ entry.1.toList :=
  hnames _ (mem_expected (Or.inl (mem_missing_iff.mp h).1))

theorem writes_iff_of_noSlash (hnames : ∀ name ∈ m.expected, '/' ∉ name.toList) {file : String} :
    env.Writes t cwd m (cwd ++ ["modules", file]) ↔
      ∃ entry ∈ env.pulls t cwd m, file = entry.1 ++ ".wasm" := by
  refine exists_congr fun entry => and_congr_right fun hentry => ?_
  rw [locate_of_noSlash (noSlash_of_pulled hnames hentry), List.append_cancel_left_eq]
  simp

/-- The module of a dev-dependency is there after the sync if it was, or if the dependency is also
    an ordinary one that is missing. -/
theorem dev_iff_of_noSlash (hclosed : Closed t) (hnames : ∀ name ∈ m.expected, '/' ∉ name.toList)
    {name : String} (hname : name ∈ m.expected) :
    (∀ p ∈ moduleWay cwd name,
        env.swept t cwd m p = some .directory ∨ env.Paves t cwd m p) ∧
      (env.swept t cwd m (locate cwd (modulePath name)) ≠ none ∨
        env.Paves t cwd m (locate cwd (modulePath name)) ∨
        env.Writes t cwd m (locate cwd (modulePath name))) ↔
    t.has cwd (modulePath name) = true ∨ ∃ entry ∈ env.pulls t cwd m, entry.1 = name := by
  have hslash := hnames name hname
  rw [has_module_iff, moduleWay_of_noSlash hslash, locate_of_noSlash hslash,
    swept_of_expected hname, writes_iff_of_noSlash hnames]
  simp only [swept_directory_iff]
  constructor
  · rintro ⟨-, hthere | ⟨entry, hentry, hpaved⟩ | ⟨entry, hentry, hfile⟩⟩
    · have hmodules : t (cwd ++ ["modules"]) = some .directory :=
        hclosed _ (name ++ ".wasm") (by rw [List.append_assoc]; exact hthere)
      have hcwd : t cwd = some .directory := hclosed _ "modules" (by rw [hmodules]; nofun)
      refine Or.inl ⟨fun p hp => ?_, hthere⟩
      rcases List.mem_pair.mp hp with rfl | rfl
      · exact hcwd
      · exact hmodules
    · rw [moduleWay_of_noSlash (noSlash_of_pulled hnames hentry)] at hpaved
      simp at hpaved
    · exact Or.inr ⟨entry, hentry, ((String.append_left_inj _).mp hfile).symm⟩
  · rintro (⟨hway, hthere⟩ | ⟨entry, hentry, rfl⟩)
    · exact ⟨fun p hp => Or.inl (hway p hp), Or.inl hthere⟩
    · refine ⟨fun p hp => Or.inr ⟨entry, hentry, ?_⟩, Or.inr (Or.inr ⟨entry, hentry, rfl⟩)⟩
      rw [moduleWay_of_noSlash hslash]
      exact hp

/-- Without slashes in the names, a sync reaches its goal exactly when the modules of the
    dev-dependencies are there already, or theirs are ordinary dependencies too, and all that is
    stale can be removed. -/
theorem syncCondition_iff_of_noSlash {foreign : List Bytes} (hclosed : Closed t)
    (hnames : ∀ name ∈ m.expected, '/' ∉ name.toList) :
    SyncCondition env t cwd m foreign ↔
      (∀ name dep, m.devDependencies.lookup name = some dep → isLocalPathDependency dep = false →
        t.has cwd (modulePath name) = true ∨ ∃ entry ∈ env.pulls t cwd m, entry.1 = name) ∧
      (∀ entry stem, Plain entry → t (cwd ++ ["modules", entry]) = some .file →
        splitExtension entry = (stem, some "wasm") → stem ∉ m.expected →
          entry ∈ (env.modulesDir t cwd).entries.getD [] ∧ env.removable entry = true) ∧
      ∀ name ∈ foreign, ¬ EndsInWasm name := by
  have hdev (name : String) (dep : Dependency)
      (hlookup : m.devDependencies.lookup name = some dep) :=
    @dev_iff_of_noSlash env t cwd m hclosed hnames name (mem_expected (Or.inr hlookup))
  constructor
  · intro h
    exact ⟨fun name dep hlookup hlocal =>
      (hdev name dep hlookup).mp (h.dev name dep hlookup hlocal), h.stale, h.foreign⟩
  · rintro ⟨hmodules, hstale, hforeign⟩
    refine ⟨fun name dep hlookup hlocal =>
      (hdev name dep hlookup).mpr (hmodules name dep hlookup hlocal), hstale, hforeign, ?_⟩
    intro file stem _ hwrites hwasm
    obtain ⟨entry, hentry, rfl⟩ := (writes_iff_of_noSlash hnames).mp hwrites
    rw [stem_of_noSlash hwasm]
    exact mem_expected (Or.inl (mem_missing_iff.mp hentry).1)

end

/-! ## Two syncs -/

/-- A project with a modules directory, and these files in it. -/
def projectWith (files : List String) : Tree := fun place =>
  if place = [] ∨ place = ["work"] ∨ place = ["work", "modules"] then some .directory
  else if files.any fun file => place == ["work", "modules", file] then some .file
  else none

/-- What is listed are these names, and all of them can be removed. -/
def plainSyncEnv (names : List String) (h : ∀ entry ∈ names, Plain entry) : SyncEnv where
  parse _ := none
  hash _ := "9ae16a3b2f90404f"
  listing := some names
  listing_plain _ heq := Option.some.inj heq ▸ h
  removable _ := true

theorem finishes_createDirAll {t t' : Tree} {cwd : List String} {path : String}
    (h : t.onCall cwd (.createDirAll path) = some t') :
    Finishes (treeWorld cwd) (createDirAll path) t (.ok ()) t' := by
  have heffect : (treeWorld cwd).effect t (.createDirAll path) (.ok ()) = t' := by
    show (t.onCall cwd (.createDirAll path)).getD t = t'
    rw [h]
    rfl
  have hmay : (treeWorld cwd).may t (.createDirAll path) (.ok ()) :=
    Option.isSome_iff_exists.mpr ⟨t', h⟩
  exact .act hmay (heffect ▸ .ret _ _)

theorem finishes_createFile {t t' : Tree} {cwd : List String} {path : String}
    (h : t.onCall cwd (.create path) = some t') :
    Finishes (treeWorld cwd) (createFile path) t (.ok ()) t' := by
  have heffect : (treeWorld cwd).effect t (.create path) (.ok ()) = t' := by
    show (t.onCall cwd (.create path)).getD t = t'
    rw [h]
    rfl
  have hmay : (treeWorld cwd).may t (.create path) (.ok ()) :=
    Option.isSome_iff_exists.mpr ⟨t', h⟩
  exact .act hmay (heffect ▸ .ret _ _)

theorem projectWith_file_iff {files : List String} {file : String} :
    projectWith files ["work", "modules", file] = some .file ↔ file ∈ files := by
  have hmem : (files.any fun other => ["work", "modules", file] == ["work", "modules", other]) =
      true ↔ file ∈ files := by
    simp
  unfold projectWith
  rw [if_neg (by simp)]
  split
  · next h => exact iff_of_true rfl (hmem.mp h)
  · next h => exact iff_of_false nofun fun hfile => h (hmem.mpr hfile)

theorem closed_projectWith (files : List String) : Closed (projectWith files) := by
  intro place name h
  have hplace : place = [] ∨ place = ["work"] ∨ place = ["work", "modules"] := by
    unfold projectWith at h
    split at h
    · next hdir =>
      rcases hdir with heq | heq | heq
      · exact absurd heq (List.append_ne_nil_of_right_ne_nil _ (List.cons_ne_nil _ _))
      · exact Or.inl (@List.append_inj_left' _ place [name] [] ["work"] heq rfl)
      · exact Or.inr (Or.inl (@List.append_inj_left' _ place [name] ["work"] ["modules"] heq rfl))
    split at h
    · next hfile =>
      obtain ⟨file, -, heq⟩ := List.any_eq_true.mp hfile
      exact Or.inr (Or.inr (@List.append_inj_left' _ place [name] ["work", "modules"] [file]
        (beq_iff_eq.mp heq) rfl))
    · exact absurd rfl h
  exact if_pos hplace

/-- The pull of the dependency `a` from its URL. -/
theorem finishes_download {t : Tree} (hwork : t ["work"] = some .directory)
    (hmodules : t ["work", "modules"] = some .directory)
    (hfile : t ["work", "modules", "a.wasm"] ≠ some .directory)
    (parse : String → Option OciReference) (hash : String → String) :
    Finishes (treeWorld ["work"]) (pullDependency parse hash "a" urlDependency) t
      (.ok (modulePath "a")) (update t ["work", "modules", "a.wasm"] (some .file)) := by
  have hsource : selectSource "a" urlDependency = .ok (.http "http://host/a") := by rfl
  have hparent : parent (modulePath "a") = some "modules" := by decide
  have hdir : components "modules" = [.normal "modules"] := by decide
  have hmodule : components (modulePath "a") = [.normal "modules", .normal "a.wasm"] := by decide
  have hmade : t.onCall ["work"] (.createDirAll "modules") = some t := by
    show (if isAbsolute "modules" then some t else t.makeDirs ["work"] (components "modules")) = _
    rw [if_neg (by decide), hdir]
    simp [Tree.makeDirs, follow, hwork, hmodules]
  have hcreated : t.onCall ["work"] (.create (modulePath "a")) =
      some (update t ["work", "modules", "a.wasm"] (some .file)) := by
    show (if isAbsolute (modulePath "a") then some t
      else t.createFile ["work"] (modulePath "a")) = _
    unfold Tree.createFile
    rw [if_neg (by decide), hmodule]
    simp [Tree.walk, follow, hwork, hmodules, hfile]
  unfold pullDependency
  rw [hsource]
  unfold download createParent
  dsimp only
  rw [hparent]
  have hget : Finishes (treeWorld ["work"]) (httpGet "http://host/a") t (.ok ()) t :=
    .act (r := .ok ()) trivial (.ret _ _)
  have hfill (t : Tree) : Finishes (treeWorld ["work"])
      (fill (modulePath "a") (.body "http://host/a")) t (.ok ()) t :=
    .act (r := wholeBody) trivial (.ret _ _)
  exact Finishes.andThen ((finishes_createDirAll hmade).andThen <| (hget.context _).andThen <|
    ((finishes_createFile hcreated).context _).andThen (hfill _)) (.ret _ _)

/-- A missing dependency is pulled, and a stale module is removed. -/
theorem sync_goal_small : ∃ t', (plainSyncEnv ["old.wasm"] (by decide)).SyncsTo
      (projectWith ["old.wasm"]) ["work"] (manifestWith "a") t' ∧
    SyncGoal (manifestWith "a").save (manifestWith "a") ["work"] [] t' := by
  have hplain : ∀ entry ∈ ["old.wasm"], Plain entry := by decide
  have hload := (load_save_iff plainEnv (manifestWith "a")).mpr (by rfl)
  have hpulls : (plainSyncEnv ["old.wasm"] hplain).pulls (projectWith ["old.wasm"]) ["work"]
      (manifestWith "a") = [("a", urlDependency)] := by rfl
  have hclosed := closed_projectWith ["old.wasm"]
  have hexpected : (manifestWith "a").expected = ["a"] := by rfl
  have hnames : ∀ name ∈ (manifestWith "a").expected, '/' ∉ name.toList := by
    rw [hexpected]
    decide
  generalize hswept : (plainSyncEnv ["old.wasm"] hplain).swept (projectWith ["old.wasm"]) ["work"]
      (manifestWith "a") = t
  have hmodules : t ["work", "modules"] = some .directory := by
    rw [← hswept]
    exact (swept_directory_iff _).mpr rfl
  have hwork : t ["work"] = some .directory := by
    rw [← hswept]
    exact (swept_directory_iff _).mpr rfl
  have hfile : t ["work", "modules", "a.wasm"] ≠ some .directory := by
    rw [← hswept]
    exact fun h => absurd ((swept_directory_iff _).mp h) (by decide)
  have hsync : (plainSyncEnv ["old.wasm"] hplain).SyncsTo (projectWith ["old.wasm"]) ["work"]
      (manifestWith "a") (update t ["work", "modules", "a.wasm"] (some .file)) := by
    have hdir : components "modules" = [.normal "modules"] := by decide
    have hmade : t.makeDirs ["work"] (components "modules") = some t := by
      rw [hdir]
      simp [Tree.makeDirs, follow, hwork, hmodules]
    rw [← hswept] at hmade
    refine .pulling (by rw [hpulls]; nofun) hmade ?_
    rw [hpulls, hswept]
    exact .pull (finishes_download hwork hmodules hfile _ _) (.done _)
  refine ⟨_, hsync, (sync_goal_iff _ hload hsync).mpr ?_⟩
  refine (syncCondition_iff_of_noSlash hclosed hnames).mpr ⟨nofun, ?_, nofun⟩
  intro entry stem _ hentry _ _
  exact ⟨projectWith_file_iff.mp hentry, rfl⟩

/-- A manifest with one dev-dependency, of that name. -/
def devManifestWith (name : String) : Manifest :=
  Manifest.edit
    ⟨⟨"app", "0.1.0", none, [], none⟩, .default, .default, .default, none, .empty, .empty⟩
    (.insert true name urlDependency)

/-- The module of a dev-dependency is never pulled. -/
theorem dev_dependency_not_pulled :
    ¬ ∀ (menv : Env) (d : Toml) (m : Manifest) (env : SyncEnv) (t t' : Tree) (cwd : List String)
        (foreign : List Bytes), Manifest.load menv d = .ok m → env.SyncsTo t cwd m t' →
          SyncGoal d m cwd foreign t' := by
  intro h
  have hload := (load_save_iff plainEnv (devManifestWith "a")).mpr (by rfl)
  have hsync : (plainSyncEnv [] (by decide)).SyncsTo (projectWith []) ["work"] (devManifestWith "a")
      _ := .upToDate (by rfl)
  have hthere := (h _ _ _ _ _ _ _ [] hload hsync).there "a" urlDependency (Or.inr (by rfl)) (by rfl)
  exact absurd hthere (by decide)

end Mik.Config
