/-
  Reconciling the metadata table with the directory (`src/daemon/services/storage/metadata.rs`).

  `scan_directory` collects the relative paths of the files, `reconcile` compares them with the
  table and then removes, adds and updates entries, one transaction each. A `HashSet` of paths is
  a list without repetition, visited in the order of the list. What an operation does to the entry
  of a path is `repaired` (`reconcile_ok`), and all else follows from that: the table afterwards
  (`reconcile_repairs`), and that reconciling again does nothing (`reconcile_of_covers`).

  Where the system does not say what a path is, or how long a file is, the code passes the path
  over. A file whose length was not to be had is left with the entry that it had, or with none.
-/
import Mik.Storage.DatabaseFile

namespace Mik.Storage

open Mik.Lib

/-! ## The directory walk -/

/-- Names that the walk leaves out: the database, and redb's lock files. -/
def skipped (name : String) : Bool :=
  name == "metadata.redb" || (splitExtension name).2 == some "lock"

/-- `relative.to_string_lossy().replace('\\', "/")`. -/
def relativeKey (names : List String) : String := replaceChar '\\' '/' (pathText names)

/-- What the system answers while the store reconciles. -/
structure ReconcileHost where
  baseDir : String
  /-- `exists`, `is_dir` and `is_file` get an answer in the walk; an error counts as no. -/
  stat : List String → Bool
  /-- `fs::read_dir` of a directory, and each entry that it yields. -/
  readDir : List String → Bool
  readEntry : List String → Bool
  /-- The read transaction of the comparison, and the table of a database that was written over. -/
  scanTxn : Option TxnStage
  damaged : MetadataTable
  /-- The host of the calls about one path. -/
  load : String → Host
  call : String → Host
  /-- `fs::metadata` for a key that is not the text of a path. -/
  elsewhere : String → Option Nat

/-- A host that lets everything through, with the clock at `now`. -/
def ReconcileHost.willing (now : Nat) : ReconcileHost where
  baseDir := "storage"
  stat := fun _ => true
  readDir := fun _ => true
  readEntry := fun _ => true
  scanTxn := none
  damaged := .empty
  load := fun _ => .willing now
  call := fun _ => .willing now
  elsewhere := fun _ => none

/-- What the walk takes a path for. -/
def ReconcileHost.look (host : ReconcileHost) (tree : FileTree Content) (names : List String) :
    Option (Node Content) :=
  if host.stat names = true then tree.lookup names else none

/-- `scan_directory`, at most `limit` directories deep, on top of the files found so far. -/
def scanDirectory (host : ReconcileHost) (tree : FileTree Content) :
    (limit : Nat) → (dir : List String) → (files : List String) → Except String (List String)
  | 0, _, files => .ok files
  | limit + 1, dir, files =>
    if host.look tree dir ≠ some .dir then .ok files
    else if host.readDir dir then
      (tree.children dir).foldlM (fun files name =>
        if host.readEntry (dir ++ [name]) then
          if skipped name then .ok files
          else
            match host.look tree (dir ++ [name]) with
            | some .dir => scanDirectory host tree limit (dir ++ [name]) files
            | some (.file _) => .ok (files.insert (relativeKey (dir ++ [name])))
            | none => .ok files
        else .error "Failed to read directory entry") files
    else .error ("Failed to read directory: " ++ dir.foldl join host.baseDir)

/-- The files of the storage directory. -/
def scanned (host : ReconcileHost) (tree : FileTree Content) : Except String (List String) :=
  scanDirectory host tree (tree.depth + 1) [] []

/-- `fs::metadata(base_dir.join(path))`, as far as its length. -/
def fileLen (host : ReconcileHost) (tree : FileTree Content) (path : String) : Option Nat :=
  if (host.call path).metadata = true then
    match resolve path with
    | none => host.elsewhere path
    | some names =>
      if pathText names = path then
        (tree.lookup names).map (FilesystemBackend.nodeLen (host.call path))
      else host.elsewhere path
  else none

/-! ## Reconciling -/

/-- The files without an entry so far, the entries without a file, and those with the size of the
    file where it is another one. -/
structure Findings where
  files : List String
  orphaned : List String
  stale : List (String × Nat)
  deriving DecidableEq, Repr

/-- Phase 2, for one entry of the table. -/
def checkEntry (host : ReconcileHost) (tree : FileTree Content) (found : Findings)
    (entry : Σ _ : String, ObjectMeta) : Findings :=
  if entry.1 ∈ found.files then
    { found with
      files := found.files.filter (· ≠ entry.1)
      stale :=
        match fileLen host tree entry.1 with
        | none => found.stale
        | some len =>
          if len ≠ entry.2.size then found.stale ++ [(entry.1, len)] else found.stale }
  else { found with orphaned := found.orphaned ++ [entry.1] }

/-- A loop whose body may end it with an error. -/
def forEach {α : Type} (body : FilesystemBackend → α → Except String Unit × FilesystemBackend) :
    List α → FilesystemBackend → Except String Unit × FilesystemBackend
  | [], b => (.ok (), b)
  | x :: xs, b =>
    match body b x with
    | (.error e, b) => (.error e, b)
    | (.ok _, b) => forEach body xs b

/-- Phase 3. -/
def removeOrphaned (host : ReconcileHost) (b : FilesystemBackend) (path : String) :
    Except String Unit × FilesystemBackend :=
  b.removeMetadata (host.call path) path

/-- The metadata of a file without an entry. -/
def untracked (mime : MimeGuess) (host : ReconcileHost) (path : String) (len : Nat) : ObjectMeta :=
  ⟨path, len, contentTypeOf mime [(fileName path).getD ""] none, (host.call path).now,
    (host.call path).now⟩

/-- Phase 4. -/
def createMissing (mime : MimeGuess) (host : ReconcileHost) (b : FilesystemBackend)
    (path : String) : Except String Unit × FilesystemBackend :=
  match fileLen host b.tree path with
  | none => (.ok (), b)
  | some len => b.saveMetadata (host.call path) (untracked mime host path len)

/-- Phase 5. -/
def updateStale (host : ReconcileHost) (b : FilesystemBackend) (stale : String × Nat) :
    Except String Unit × FilesystemBackend :=
  match b.loadMetadata (host.load stale.1) stale.1 with
  | .error e => (.error e, b)
  | .ok none => (.ok (), b)
  | .ok (some m) =>
    b.saveMetadata (host.call stale.1)
      { m with size := stale.2, modifiedAt := (host.call stale.1).now }

def reconcileTexts : TxnTexts where
  beginTxn := "Failed to begin read transaction for reconciliation"
  openTable := "Failed to open objects table for reconciliation"
  access := "Failed to iterate objects table"
  finish := "Failed to read object entry"

/-- Phases 3 to 5, on what the comparison found. -/
def repair (mime : MimeGuess) (host : ReconcileHost) (found : Findings) (b : FilesystemBackend) :
    Except String Unit × FilesystemBackend :=
  match forEach (removeOrphaned host) found.orphaned b with
  | (.error e, b) => (.error e, b)
  | (.ok _, b) =>
    match forEach (createMissing mime host) found.files b with
    | (.error e, b) => (.error e, b)
    | (.ok _, b) => forEach (updateStale host) found.stale b

/-- What phase 2 finds, for the files that the walk collected. -/
def FilesystemBackend.findings (b : FilesystemBackend) (host : ReconcileHost)
    (files : List String) : Findings :=
  (b.db.getD host.damaged).entries.entries.foldl (checkEntry host b.tree) ⟨files, [], []⟩

/-- `reconcile`. -/
def FilesystemBackend.reconcile (mime : MimeGuess) (host : ReconcileHost)
    (b : FilesystemBackend) : Except String Unit × FilesystemBackend :=
  match scanned host b.tree with
  | .error e => (.error e, b)
  | .ok files =>
    match host.scanTxn with
    | some stage => (.error (reconcileTexts.error stage), b)
    | none => repair mime host (b.findings host files) b

/-! ## What the walk collects -/

/-- A file below `dir`, under names that the walk does not leave out, has the key `p`. -/
def Walked (tree : FileTree Content) (dir : List String) (p : String) : Prop :=
  ∃ rest content, rest ≠ [] ∧ tree.lookup (dir ++ rest) = some (.file content) ∧
    (∀ name ∈ rest, skipped name = false) ∧ p = relativeKey (dir ++ rest)

/-- What the walk comes by below `dir`. -/
inductive Collected (host : ReconcileHost) (tree : FileTree Content) :
    List String → String → Prop where
  | file {dir : List String} {name : String} {content : Content} (hname : skipped name = false)
      (hfile : host.look tree (dir ++ [name]) = some (.file content)) :
      Collected host tree dir (relativeKey (dir ++ [name]))
  | inside {dir : List String} {name p : String} (hname : skipped name = false)
      (hdir : host.look tree (dir ++ [name]) = some .dir)
      (hp : Collected host tree (dir ++ [name]) p) : Collected host tree dir p

/-- A loop that adds what `P` says of each element. -/
theorem mem_foldlM {α β ε : Type} {body : List β → α → Except ε (List β)} {P : α → Prop} {p : β}
    {xs : List α}
    (hbody : ∀ x ∈ xs, ∀ s s', body s x = .ok s' → (p ∈ s' ↔ p ∈ s ∨ P x)) {s s' : List β}
    (h : xs.foldlM body s = .ok s') : p ∈ s' ↔ p ∈ s ∨ ∃ x ∈ xs, P x := by
  induction xs generalizing s with
  | nil =>
    cases h
    simp
  | cons x xs ih =>
    rw [List.foldlM_cons] at h
    cases hx : body s x with
    | error e =>
      rw [hx] at h
      cases h
    | ok next =>
      rw [hx] at h
      rw [ih (fun y hy => hbody y (List.mem_cons_of_mem _ hy)) h,
        hbody x List.mem_cons_self s next hx, or_assoc, List.exists_mem_cons_iff]

/-- What the walk collects below a child of `dir`. -/
def CollectedChild (host : ReconcileHost) (tree : FileTree Content) (dir : List String)
    (p name : String) : Prop :=
  skipped name = false ∧
    ((∃ content, host.look tree (dir ++ [name]) = some (.file content) ∧
        p = relativeKey (dir ++ [name])) ∨
      host.look tree (dir ++ [name]) = some .dir ∧ Collected host tree (dir ++ [name]) p)

theorem lookup_of_look {host : ReconcileHost} {tree : FileTree Content} {names : List String}
    {node : Node Content} (h : host.look tree names = some node) :
    tree.lookup names = some node := by
  unfold ReconcileHost.look at h
  split at h
  · exact h
  · cases h

theorem collected_iff_child {host : ReconcileHost} {tree : FileTree Content} {dir : List String}
    {p : String} :
    Collected host tree dir p ↔
      ∃ name ∈ tree.children dir, CollectedChild host tree dir p name := by
  have hchild {name : String} {node : Node Content}
      (h : host.look tree (dir ++ [name]) = some node) : name ∈ tree.children dir := by
    rw [FileTree.mem_children_iff, lookup_of_look h]
    simp
  constructor
  · intro h
    cases h with
    | file hname hfile => exact ⟨_, hchild hfile, hname, .inl ⟨_, hfile, rfl⟩⟩
    | inside hname hdir hp => exact ⟨_, hchild hdir, hname, .inr ⟨hdir, hp⟩⟩
  · rintro ⟨name, -, hname, ⟨content, hfile, rfl⟩ | ⟨hdir, hp⟩⟩
    · exact .file hname hfile
    · exact .inside hname hdir hp

/-- Whatever the walk comes by is a file. -/
theorem Collected.walked {host : ReconcileHost} {tree : FileTree Content} {dir : List String}
    {p : String} (h : Collected host tree dir p) : Walked tree dir p := by
  induction h with
  | @file dir name content hname hfile =>
    refine ⟨[name], content, by simp, lookup_of_look hfile, fun n hn => ?_, rfl⟩
    rw [List.mem_singleton.mp hn]
    exact hname
  | @inside dir name p hname _ _ ih =>
    obtain ⟨rest, content, -, hfile, hshown, rfl⟩ := ih
    rw [← List.append_cons] at hfile ⊢
    refine ⟨name :: rest, content, by simp, hfile, fun n hn => ?_, rfl⟩
    rcases List.mem_cons.mp hn with rfl | hn
    · exact hname
    · exact hshown n hn

/-- The walk gets an answer about every path. -/
def ReconcileHost.Sees (host : ReconcileHost) : Prop := ∀ names, host.stat names = true

theorem ReconcileHost.Sees.look_eq {host : ReconcileHost} (h : host.Sees)
    (tree : FileTree Content) (names : List String) : host.look tree names = tree.lookup names :=
  if_pos (h names)

/-- And then it comes by every file. -/
theorem Walked.collected {host : ReconcileHost} (hsees : host.Sees) {tree : FileTree Content}
    {dir : List String} {p : String} (h : Walked tree dir p) : Collected host tree dir p := by
  obtain ⟨rest, content, hrest, hfile, hshown, rfl⟩ := h
  induction rest generalizing dir with
  | nil => exact absurd rfl hrest
  | cons name rest ih =>
    rw [List.append_cons] at hfile ⊢
    have hname := hshown name List.mem_cons_self
    by_cases hnil : rest = []
    · rw [hnil, List.append_nil] at hfile ⊢
      exact .file hname ((hsees.look_eq tree _).trans hfile)
    · have hdir : tree.lookup (dir ++ [name]) = some .dir :=
        FileTree.lookup_of_append hnil (by rw [hfile]; simp)
      exact .inside hname ((hsees.look_eq tree _).trans hdir)
        (ih hnil hfile fun n hn => hshown n (List.mem_cons_of_mem _ hn))

/-- A walk that ends has collected the files it comes by below `dir`, and a limit above the depth of
    the tree is enough for all of them. -/
theorem mem_scanDirectory {host : ReconcileHost} {tree : FileTree Content} {limit : Nat}
    {dir files files' : List String} (hdir : host.look tree dir = some .dir)
    (hlimit : tree.depth < dir.length + limit)
    (h : scanDirectory host tree limit dir files = .ok files') (p : String) :
    p ∈ files' ↔ p ∈ files ∨ Collected host tree dir p := by
  induction limit generalizing dir files files' with
  | zero =>
    have hdepth := FileTree.length_le_depth (t := tree) (q := dir)
      (by rw [lookup_of_look hdir]; simp)
    omega
  | succ limit ih =>
    unfold scanDirectory at h
    rw [if_neg (not_not_intro hdir)] at h
    split at h
    · rw [collected_iff_child]
      refine mem_foldlM (fun name hname s s' hs => ?_) h
      have hlimit' : tree.depth < (dir ++ [name]).length + limit := by
        rw [List.length_append, List.length_singleton]
        omega
      unfold CollectedChild
      split at hs
      · split at hs
        · next hskip =>
          cases hs
          simp [hskip]
        · next hskip =>
          split at hs
          · next hsub =>
            rw [ih hsub hlimit' hs]
            simp [hsub, hskip]
          · next content hfile =>
            cases hs
            rw [List.mem_insert_iff]
            simp [hfile, hskip, or_comm]
          · next hnone =>
            cases hs
            simp [hnone]
      · cases hs
    · cases h

theorem walked_of_mem_scanned {host : ReconcileHost} {tree : FileTree Content}
    {files : List String} (h : scanned host tree = .ok files) {p : String} (hp : p ∈ files) :
    Walked tree [] p := by
  by_cases hdir : host.look tree [] = some .dir
  · rcases (mem_scanDirectory hdir (by simp) h p).mp hp with hno | hcollected
    · cases hno
    · exact hcollected.walked
  · unfold scanned scanDirectory at h
    rw [if_pos hdir] at h
    cases h
    cases hp

theorem mem_scanned {host : ReconcileHost} (hsees : host.Sees) {tree : FileTree Content}
    {files : List String} (h : scanned host tree = .ok files) (p : String) :
    p ∈ files ↔ Walked tree [] p := by
  refine ⟨walked_of_mem_scanned h, fun hw => ?_⟩
  exact (mem_scanDirectory (hsees.look_eq tree []) (by simp) h p).mpr (.inr (hw.collected hsees))

/-- The walk ends without an error where every directory can be read. -/
theorem scanDirectory_of_readable {host : ReconcileHost} {tree : FileTree Content}
    (hdir : ∀ dir, host.readDir dir = true) (hentry : ∀ names, host.readEntry names = true)
    (limit : Nat) (dir files : List String) :
    ∃ files', scanDirectory host tree limit dir files = .ok files' := by
  induction limit generalizing dir files with
  | zero => exact ⟨files, rfl⟩
  | succ limit ih =>
    unfold scanDirectory
    simp only [hdir, hentry, if_true]
    split
    · exact ⟨files, rfl⟩
    · generalize tree.children dir = names
      induction names generalizing files with
      | nil => exact ⟨files, rfl⟩
      | cons name names ihNames =>
        rw [List.foldlM_cons]
        split
        · exact ihNames files
        · split
          · obtain ⟨next, hnext⟩ := ih (dir ++ [name]) files
            rw [hnext]
            exact ihNames next
          · exact ihNames _
          · exact ihNames files

/-! ## What the comparison finds -/

/-- The size of the file that phase 2 notes for an entry. -/
def noteOf (host : ReconcileHost) (tree : FileTree Content) (path : String) (m : ObjectMeta) :
    Option Nat :=
  (fileLen host tree path).filter (· ≠ m.size)

/-- Two findings say the same about a path. -/
structure SameAt (p : String) (found found' : Findings) : Prop where
  files : p ∈ found'.files ↔ p ∈ found.files
  orphaned : p ∈ found'.orphaned ↔ p ∈ found.orphaned
  stale : ∀ len, (p, len) ∈ found'.stale ↔ (p, len) ∈ found.stale

theorem checkEntry_other (host : ReconcileHost) (tree : FileTree Content) (found : Findings)
    {entry : Σ _ : String, ObjectMeta} {p : String} (hp : p ≠ entry.1) :
    SameAt p found (checkEntry host tree found entry) := by
  unfold checkEntry
  by_cases hmem : entry.1 ∈ found.files
  · rw [if_pos hmem]
    refine ⟨by simp [hp], Iff.rfl, fun len => ?_⟩
    dsimp only
    cases fileLen host tree entry.1 with
    | none => rfl
    | some len' =>
      dsimp only
      split
      · simp [hp]
      · rfl
  · rw [if_neg hmem]
    exact ⟨Iff.rfl, by simp [hp], fun len => Iff.rfl⟩

theorem checkEntries_other (host : ReconcileHost) (tree : FileTree Content)
    {entries : List (Σ _ : String, ObjectMeta)} {p : String} (hp : p ∉ entries.map Sigma.fst)
    (found : Findings) : SameAt p found (entries.foldl (checkEntry host tree) found) := by
  induction entries generalizing found with
  | nil => exact ⟨Iff.rfl, Iff.rfl, fun _ => Iff.rfl⟩
  | cons entry entries ih =>
    rw [List.map_cons, List.mem_cons, not_or] at hp
    have hone := checkEntry_other host tree found hp.1
    have hrest := ih hp.2 (checkEntry host tree found entry)
    exact ⟨hrest.files.trans hone.files, hrest.orphaned.trans hone.orphaned,
      fun len => (hrest.stale len).trans (hone.stale len)⟩

/-- The comparison of a path with its entry. -/
theorem checkEntry_self (host : ReconcileHost) (tree : FileTree Content) (found : Findings)
    (p : String) (m : ObjectMeta) (horphaned : p ∉ found.orphaned)
    (hstale : ∀ len, (p, len) ∉ found.stale) :
    p ∉ (checkEntry host tree found ⟨p, m⟩).files ∧
      (p ∈ (checkEntry host tree found ⟨p, m⟩).orphaned ↔ p ∉ found.files) ∧
      ∀ len, (p, len) ∈ (checkEntry host tree found ⟨p, m⟩).stale ↔
        p ∈ found.files ∧ noteOf host tree p m = some len := by
  unfold checkEntry noteOf
  by_cases hmem : p ∈ found.files
  · rw [if_pos hmem]
    refine ⟨by simp, by simp [hmem, horphaned], fun len => ?_⟩
    dsimp only
    cases fileLen host tree p with
    | none => simp [hstale]
    | some len' =>
      dsimp only
      by_cases hsize : len' = m.size
      · simp [hsize, hstale, Option.filter]
      · simp [hsize, hstale, hmem, Option.filter, eq_comm]
  · rw [if_neg hmem]
    exact ⟨hmem, by simp [hmem], fun len => by simp [hmem, hstale]⟩

/-- What phase 2 finds about a path, from its entry and from whether the walk came by it. -/
theorem mem_findings_iff (host : ReconcileHost) {b : FilesystemBackend} {table : MetadataTable}
    (hdb : b.db = some table) (files : List String) (p : String) :
    (p ∈ (b.findings host files).files ↔ p ∈ files ∧ table.lookup p = none) ∧
      (p ∈ (b.findings host files).orphaned ↔ p ∉ files ∧ table.lookup p ≠ none) ∧
      ∀ len, (p, len) ∈ (b.findings host files).stale ↔
        p ∈ files ∧ ∃ m, table.lookup p = some m ∧ noteOf host b.tree p m = some len := by
  unfold FilesystemBackend.findings
  rw [hdb, Option.getD_some]
  cases hlookup : table.lookup p with
  | none =>
    have hkeys : p ∉ table.entries.entries.map Sigma.fst := AList.lookup_eq_none.mp hlookup
    obtain ⟨hfiles, horphaned, hstale⟩ := checkEntries_other host b.tree hkeys ⟨files, [], []⟩
    rw [hfiles, horphaned]
    simp only [hstale]
    simp
  | some m =>
    -- the one entry of the path, and the entries before and after it
    have hmem : ⟨p, m⟩ ∈ table.entries.entries := AList.mem_lookup_iff.mp hlookup
    obtain ⟨before, after, hentries⟩ := List.append_of_mem hmem
    have hkeys := table.entries.nodupKeys
    unfold List.NodupKeys List.keys at hkeys
    rw [hentries, List.map_append, List.map_cons, List.nodup_append, List.nodup_cons] at hkeys
    have hbefore : p ∉ before.map Sigma.fst := fun h =>
      hkeys.2.2 p h p List.mem_cons_self rfl
    obtain ⟨hfiles, horphaned, hstale⟩ := checkEntries_other host b.tree hbefore ⟨files, [], []⟩
    obtain ⟨hfiles', horphaned', hstale'⟩ := checkEntry_self host b.tree
      (before.foldl (checkEntry host b.tree) ⟨files, [], []⟩) p m (by simp [horphaned])
      (fun len => by simp [hstale])
    have hafter := checkEntries_other host b.tree hkeys.2.1.1
      (checkEntry host b.tree (before.foldl (checkEntry host b.tree) ⟨files, [], []⟩) ⟨p, m⟩)
    rw [hentries, List.foldl_append, List.foldl_cons, hafter.files, hafter.orphaned, horphaned',
      hfiles]
    simp only [hafter.stale, hstale', hfiles]
    simp [hfiles']

/-! ## What the repairs do -/

/-- The entry of one path becomes what `f` says, and nothing else changes. -/
def SetsEntry (f : String → Option ObjectMeta → Option ObjectMeta) (path : String)
    (b b' : FilesystemBackend) : Prop :=
  b'.tree = b.tree ∧ ∀ table, b.db = some table → ∃ table', b'.db = some table' ∧
    ∀ p, table'.lookup p = if p = path then f p (table.lookup p) else table.lookup p

/-- A loop that ends sets the entries of the paths that it visits, if setting one twice is the same
    as setting it once. -/
theorem forEach_ok {α : Type}
    {body : FilesystemBackend → α → Except String Unit × FilesystemBackend} (key : α → String)
    {f : String → Option ObjectMeta → Option ObjectMeta} (hidem : ∀ p o, f p (f p o) = f p o)
    (tree : FileTree Content) {xs : List α}
    (hbody : ∀ x ∈ xs, ∀ b b', b.tree = tree → body b x = (.ok (), b') → SetsEntry f (key x) b b')
    {b b' : FilesystemBackend} {table : MetadataTable} (htree : b.tree = tree)
    (hdb : b.db = some table) (h : forEach body xs b = (.ok (), b')) :
    b'.tree = tree ∧ ∃ table', b'.db = some table' ∧
      ∀ p, table'.lookup p = if p ∈ xs.map key then f p (table.lookup p) else table.lookup p := by
  induction xs generalizing b table with
  | nil =>
    cases h
    exact ⟨htree, table, hdb, fun p => by simp⟩
  | cons x xs ih =>
    unfold forEach at h
    cases hx : body b x with
    | mk r next =>
    rw [hx] at h
    cases r with
    | error e => cases h
    | ok u =>
      obtain ⟨hnext, hset⟩ := hbody x List.mem_cons_self b next htree hx
      obtain ⟨table₁, hdb₁, hone⟩ := hset table hdb
      obtain ⟨hend, table', hdb', hrest⟩ := ih
        (fun y hy => hbody y (List.mem_cons_of_mem _ hy)) (hnext.trans htree) hdb₁ h
      refine ⟨hend, table', hdb', fun p => ?_⟩
      rw [hrest, hone, List.map_cons]
      by_cases hp : p = key x
      · subst hp
        simp [hidem]
      · simp [hp]

theorem saveMetadata_sets {b b' : FilesystemBackend} {host : Host} {m : ObjectMeta}
    (f : String → Option ObjectMeta → Option ObjectMeta)
    (hf : ∀ table, b.db = some table → f m.path (table.lookup m.path) = some m)
    (h : b.saveMetadata host m = (.ok (), b')) : SetsEntry f m.path b b' := by
  obtain rfl := FilesystemBackend.saveMetadata_ok h
  refine ⟨rfl, fun table hdb => ⟨table.save m, by rw [hdb]; rfl, fun p => ?_⟩⟩
  rw [MetadataTable.lookup_save]
  split
  · next hp => rw [hp, hf table hdb]
  · rfl

theorem removeOrphaned_sets {host : ReconcileHost} {b b' : FilesystemBackend} {path : String}
    (h : removeOrphaned host b path = (.ok (), b')) : SetsEntry (fun _ _ => none) path b b' := by
  unfold removeOrphaned at h
  obtain rfl := FilesystemBackend.removeMetadata_ok h
  exact ⟨rfl, fun table hdb => ⟨table.remove path, by rw [hdb]; rfl,
    fun p => MetadataTable.lookup_remove table path p⟩⟩

/-- The entry that phase 4 leaves, where the length can be had. -/
def created (mime : MimeGuess) (host : ReconcileHost) (tree : FileTree Content) (path : String)
    (o : Option ObjectMeta) : Option ObjectMeta :=
  ((fileLen host tree path).map (untracked mime host path)).orElse fun _ => o

theorem createMissing_sets {mime : MimeGuess} {host : ReconcileHost} {b b' : FilesystemBackend}
    {path : String} (h : createMissing mime host b path = (.ok (), b')) :
    SetsEntry (created mime host b.tree) path b b' := by
  unfold createMissing at h
  cases hlen : fileLen host b.tree path with
  | none =>
    rw [hlen] at h
    cases h
    refine ⟨rfl, fun table hdb => ⟨table, hdb, fun p => ?_⟩⟩
    split
    · next hp => simp [hp, created, hlen]
    · rfl
  | some len =>
    rw [hlen] at h
    exact saveMetadata_sets (m := untracked mime host path len) _
      (fun table _ => by simp [created, untracked, hlen]) h

/-- The entry that phase 5 leaves. -/
def refreshed (host : ReconcileHost) (tree : FileTree Content) (path : String)
    (o : Option ObjectMeta) : Option ObjectMeta :=
  o.map fun m =>
    { m with size := (fileLen host tree path).getD 0, modifiedAt := (host.call path).now }

theorem updateStale_sets {host : ReconcileHost} {b b' : FilesystemBackend} {stale : String × Nat}
    (hlen : fileLen host b.tree stale.1 = some stale.2)
    (h : updateStale host b stale = (.ok (), b')) :
    SetsEntry (refreshed host b.tree) stale.1 b b' := by
  unfold updateStale FilesystemBackend.loadMetadata at h
  cases htxn : (host.load stale.1).txn with
  | some stage =>
    rw [htxn] at h
    cases h
  | none =>
    rw [htxn] at h
    dsimp only at h
    split at h
    · cases h
    · next hload =>
      cases h
      refine ⟨rfl, fun table hdb => ⟨table, hdb, fun p => ?_⟩⟩
      rw [hdb] at hload
      have hnone : table.lookup stale.1 = none := Except.ok.inj hload
      split
      · next hp => rw [hp, refreshed, hnone, Option.map_none]
      · rfl
    · next m hload =>
      have hpath : m.path = stale.1 :=
        MetadataTable.own_path _ stale.1 m (Except.ok.inj hload)
      have hsets := saveMetadata_sets (m := { m with
        size := stale.2, modifiedAt := (host.call stale.1).now }) (refreshed host b.tree)
        (fun table hdb => ?_) h
      · rw [← hpath]
        exact hsets
      · rw [hdb] at hload
        have hentry : table.lookup stale.1 = some m := Except.ok.inj hload
        simp [refreshed, hpath, hentry, hlen]

/-- The entry of a path after `reconcile`. -/
def repaired (mime : MimeGuess) (host : ReconcileHost) (tree : FileTree Content)
    (files : List String) (p : String) (o : Option ObjectMeta) : Option ObjectMeta :=
  if p ∈ files then
    match o with
    | none => (fileLen host tree p).map (untracked mime host p)
    | some m =>
      match noteOf host tree p m with
      | none => some m
      | some len => some { m with size := len, modifiedAt := (host.call p).now }
  else none

/-- What `reconcile` does when it succeeds. -/
theorem reconcile_ok {mime : MimeGuess} {host : ReconcileHost} {b b' : FilesystemBackend}
    {table : MetadataTable} (hdb : b.db = some table)
    (h : b.reconcile mime host = (.ok (), b')) :
    ∃ files, scanned host b.tree = .ok files ∧ b'.tree = b.tree ∧ ∃ table', b'.db = some table' ∧
      ∀ p, table'.lookup p = repaired mime host b.tree files p (table.lookup p) := by
  unfold FilesystemBackend.reconcile at h
  split at h
  · cases h
  next files hfiles =>
  split at h
  · cases h
  unfold repair at h
  split at h
  · cases h
  next b₁ hremove =>
  split at h
  · cases h
  next b₂ hcreate =>
  have hfound := mem_findings_iff host hdb files
  have hstale : ∀ stale ∈ (b.findings host files).stale,
      fileLen host b.tree stale.1 = some stale.2 := by
    intro stale hstale
    obtain ⟨-, m, -, hnote⟩ := ((hfound stale.1).2.2 stale.2).mp hstale
    exact (Option.filter_eq_some_iff.mp hnote).1
  obtain ⟨htree₁, table₁, hdb₁, h₁⟩ := forEach_ok id (by simp) b.tree
    (fun path _ b b' _ hbody => removeOrphaned_sets hbody) rfl hdb hremove
  obtain ⟨htree₂, table₂, hdb₂, h₂⟩ := forEach_ok id (f := created mime host b.tree)
    (fun p o => by unfold created; cases fileLen host b.tree p <;> rfl) b.tree
    (fun path _ b b' ht hbody => by rw [← ht]; exact createMissing_sets hbody) htree₁ hdb₁ hcreate
  obtain ⟨htree₃, table₃, hdb₃, h₃⟩ := forEach_ok Prod.fst
    (f := refreshed host b.tree) (fun p o => by unfold refreshed; cases o <;> rfl) b.tree
    (fun stale hmem b b' ht hbody => by
      rw [← ht]
      exact updateStale_sets (by rw [ht]; exact hstale stale hmem) hbody) htree₂ hdb₂ h
  refine ⟨files, hfiles, htree₃, table₃, hdb₃, fun p => ?_⟩
  have hkeys : p ∈ (b.findings host files).stale.map Prod.fst ↔
      p ∈ files ∧ ((table.lookup p).bind (noteOf host b.tree p)).isSome := by
    simp only [List.mem_map, Prod.exists, exists_and_right, exists_eq_right, (hfound p).2.2,
      exists_and_left, Option.isSome_iff_exists, Option.bind_eq_some_iff]
  rw [h₃, h₂, h₁, List.map_id, List.map_id, if_congr hkeys rfl rfl, if_congr (hfound p).1 rfl rfl,
    if_congr (hfound p).2.1 rfl rfl]
  unfold repaired
  by_cases hp : p ∈ files
  · cases hlookup : table.lookup p with
    | none => simp [hp, created]
    | some m =>
      cases hnote : noteOf host b.tree p m with
      | none => simp [hp, hnote]
      | some len =>
        have hlen := (Option.filter_eq_some_iff.mp hnote).1
        simp [hp, hnote, refreshed, hlen]
  · cases hlookup : table.lookup p with
    | none => simp [hp]
    | some m => simp [hp]

/-! ## Directories with ordinary names -/

/-- The names are names of files without `\`, and the database is nowhere but in its place. -/
structure WellNamed (tree : FileTree Content) : Prop where
  plain : ∀ names, tree.lookup names ≠ none → ∀ name ∈ names, Plain name
  noBackslash : ∀ names, tree.lookup names ≠ none → ∀ name ∈ names, '\\' ∉ name.toList
  database : ∀ names, tree.lookup names = some (.file .database) → names = databasePath

theorem mem_pathText_iff {c : Char} (hc : c ≠ '/') {names : List String} :
    c ∈ (pathText names).toList ↔ ∃ name ∈ names, c ∈ name.toList := by
  unfold pathText
  exact mem_intercalate_iff (by simpa using hc)

theorem relativeKey_eq {names : List String} (h : ∀ name ∈ names, '\\' ∉ name.toList) :
    relativeKey names = pathText names := by
  refine replaceChar_of_notMem fun hmem => ?_
  obtain ⟨name, hname, hc⟩ := (mem_pathText_iff (by decide)).mp hmem
  exact h name hname hc

/-- The file that the walk collected under a key: an object at the path that the key is the text
    of. -/
theorem WellNamed.object_of_walked {tree : FileTree Content} (hn : WellNamed tree) {p : String}
    (h : Walked tree [] p) :
    ∃ names data, resolve p = some names ∧ pathText names = p ∧
      tree.lookup names = some (.file (.object data)) := by
  obtain ⟨names, content, hne, hfile, hshown, rfl⟩ := h
  rw [List.nil_append] at hfile ⊢
  have hthere : tree.lookup names ≠ none := by
    rw [hfile]
    simp
  rw [relativeKey_eq (hn.noBackslash names hthere)]
  cases content with
  | database =>
    have hskip := hshown "metadata.redb" (by rw [hn.database names hfile]; exact List.mem_cons_self)
    exact absurd hskip (by decide)
  | object data =>
    exact ⟨names, data, resolve_eq_some_iff.mpr (validatePath_pathText hne (hn.plain names hthere)),
      rfl, hfile⟩

theorem fileLen_of_object (host : ReconcileHost) {tree : FileTree Content} {p : String}
    {names : List String} {data : Bytes} (hresolve : resolve p = some names)
    (htext : pathText names = p) (hfile : tree.lookup names = some (.file (.object data))) :
    fileLen host tree p =
      if (host.call p).metadata = true then some data.length else none := by
  unfold fileLen
  rw [hresolve]
  dsimp only
  rw [if_pos htext, hfile]
  rfl

/-- What becomes of the entry of an object that the walk has collected. -/
theorem repaired_of_object (mime : MimeGuess) (host : ReconcileHost) {tree : FileTree Content}
    {files : List String} {p : String} (hp : p ∈ files) {names : List String} {data : Bytes}
    (hresolve : resolve p = some names) (htext : pathText names = p)
    (hfile : tree.lookup names = some (.file (.object data))) (o : Option ObjectMeta) :
    repaired mime host tree files p o =
      if (host.call p).metadata = true then
        some ((o.map fun m => if m.size = data.length then m
          else { m with size := data.length, modifiedAt := (host.call p).now }).getD
            (untracked mime host p data.length))
      else o := by
  unfold repaired noteOf
  rw [if_pos hp, fileLen_of_object host hresolve htext hfile]
  cases (host.call p).metadata with
  | false => cases o with
    | none => rfl
    | some m => rfl
  | true =>
    cases o with
    | none => rfl
    | some m =>
      by_cases hsize : m.size = data.length
      · simp [Option.filter, hsize]
      · simp [Option.filter, hsize, Ne.symm hsize]

/-- The table has an entry for each of these files and for nothing else, each with the length of the
    file. -/
def Covers (files : List String) (b : FilesystemBackend) : Prop :=
  ∃ table, b.db = some table ∧ ∀ p,
    (table.lookup p ≠ none ↔ p ∈ files) ∧
    ∀ m names data, table.lookup p = some m → resolve p = some names →
      b.tree.lookup names = some (.file (.object data)) → m.size = data.length

/-- The table has an entry for each file that a walk comes by which sees all, and for nothing else,
    each with the length of the file. -/
def Matching (b : FilesystemBackend) : Prop :=
  ∃ table, b.db = some table ∧ ∀ p,
    (table.lookup p ≠ none ↔ Walked b.tree [] p) ∧
    ∀ m names data, table.lookup p = some m → resolve p = some names →
      b.tree.lookup names = some (.file (.object data)) → m.size = data.length

theorem Matching.covers {host : ReconcileHost} (hsees : host.Sees) {b : FilesystemBackend}
    (h : Matching b) {files : List String} (hfiles : scanned host b.tree = .ok files) :
    Covers files b := by
  obtain ⟨table, hdb, hmatch⟩ := h
  exact ⟨table, hdb, fun p =>
    ⟨(hmatch p).1.trans (mem_scanned hsees hfiles p).symm, (hmatch p).2⟩⟩

/-- Where the table covers the files collected, the comparison finds nothing. -/
theorem findings_of_covers {host : ReconcileHost} {b : FilesystemBackend} {files : List String}
    (hn : WellNamed b.tree) (hfiles : scanned host b.tree = .ok files) (h : Covers files b) :
    b.findings host files = ⟨[], [], []⟩ := by
  obtain ⟨table, hdb, hmatch⟩ := h
  have hfound := mem_findings_iff host hdb files
  have hfilesNil : (b.findings host files).files = [] := by
    refine List.eq_nil_iff_forall_not_mem.mpr fun p hp => ?_
    obtain ⟨hmem, hnone⟩ := (hfound p).1.mp hp
    exact (hmatch p).1.mpr hmem hnone
  have horphanedNil : (b.findings host files).orphaned = [] := by
    refine List.eq_nil_iff_forall_not_mem.mpr fun p hp => ?_
    obtain ⟨hmem, hsome⟩ := (hfound p).2.1.mp hp
    exact hmem ((hmatch p).1.mp hsome)
  have hstaleNil : (b.findings host files).stale = [] := by
    refine List.eq_nil_iff_forall_not_mem.mpr fun stale hp => ?_
    obtain ⟨hmem, m, hm, hnote⟩ := ((hfound stale.1).2.2 stale.2).mp hp
    obtain ⟨names, data, hresolve, htext, hfile⟩ :=
      hn.object_of_walked (walked_of_mem_scanned hfiles hmem)
    obtain ⟨hlen, hne⟩ := Option.filter_eq_some_iff.mp hnote
    rw [fileLen_of_object host hresolve htext hfile] at hlen
    split at hlen
    · rw [← Option.some.inj hlen, (hmatch _).2 m names data hm hresolve hfile] at hne
      simp at hne
    · cases hlen
  calc b.findings host files
      = ⟨(b.findings host files).files, (b.findings host files).orphaned,
          (b.findings host files).stale⟩ := rfl
    _ = ⟨[], [], []⟩ := by rw [hfilesNil, horphanedNil, hstaleNil]

/-- So `reconcile` changes nothing there, whether it succeeds or not. -/
theorem reconcile_of_covers (mime : MimeGuess) (host : ReconcileHost) {b : FilesystemBackend}
    (hn : WellNamed b.tree)
    (h : ∀ files, scanned host b.tree = .ok files → Covers files b) :
    (b.reconcile mime host).2 = b := by
  unfold FilesystemBackend.reconcile
  split
  · rfl
  next files hfiles =>
  split
  · rfl
  rw [findings_of_covers hn hfiles (h files hfiles)]
  rfl

/-- And it succeeds when the directory and the table can be read. -/
theorem reconcile_succeeds (mime : MimeGuess) {host : ReconcileHost} {b : FilesystemBackend}
    (hn : WellNamed b.tree) (h : Matching b) (hsees : host.Sees)
    (hdir : ∀ dir, host.readDir dir = true) (hentry : ∀ names, host.readEntry names = true)
    (htxn : host.scanTxn = none) : b.reconcile mime host = (.ok (), b) := by
  obtain ⟨files, hfiles⟩ := scanDirectory_of_readable hdir hentry (b.tree.depth + 1) [] []
  have hscanned : scanned host b.tree = .ok files := hfiles
  unfold FilesystemBackend.reconcile
  rw [hscanned, htxn]
  dsimp only
  rw [findings_of_covers hn hscanned (h.covers hsees hscanned)]
  rfl

/-- What `reconcile` should make of the store, whose walk collected `files`: the keys of the table
    are these files, with their lengths; an entry that had its file's length is as it was, one with
    another length keeps its content type and creation time; and reconciling again changes nothing
    where the walk collects the same files. -/
structure Repairs (mime : MimeGuess) (files : List String) (table table' : MetadataTable)
    (b b' : FilesystemBackend) : Prop where
  tree : b'.tree = b.tree
  db : b'.db = some table'
  keys : ∀ p, table'.lookup p ≠ none ↔ p ∈ files
  entries : ∀ p ∈ files, ∃ names data m', resolve p = some names ∧
    b.tree.lookup names = some (.file (.object data)) ∧
    table'.lookup p = some m' ∧ m'.size = data.length ∧
    ∀ m, table.lookup p = some m → (m.size = data.length → m' = m) ∧
      m'.contentType = m.contentType ∧ m'.createdAt = m.createdAt
  again : ∀ host,
    (∀ files', scanned host b.tree = .ok files' → ∀ p, p ∈ files' ↔ p ∈ files) →
      (b'.reconcile mime host).2 = b'

/-- The entry of a path has the length of the object there. -/
def UpToDate (tree : FileTree Content) (table : MetadataTable) (p : String) : Prop :=
  ∃ m names data, table.lookup p = some m ∧ resolve p = some names ∧
    tree.lookup names = some (.file (.object data)) ∧ m.size = data.length

/-- `fs::metadata` answers for every collected file whose entry is not up to date. -/
def Measured (host : ReconcileHost) (tree : FileTree Content) (files : List String)
    (table : MetadataTable) : Prop :=
  ∀ p ∈ files, ¬ UpToDate tree table p → (host.call p).metadata = true

section

variable {mime : MimeGuess} {host : ReconcileHost} {b b' : FilesystemBackend}
  {files : List String} {table table' : MetadataTable}

theorem upToDate_iff {tree : FileTree Content} {p : String} {names : List String} {data : Bytes}
    (hresolve : resolve p = some names)
    (hfile : tree.lookup names = some (.file (.object data))) :
    UpToDate tree table p ↔ ∃ m, table.lookup p = some m ∧ m.size = data.length := by
  constructor
  · rintro ⟨m, names', data', hm, hresolve', hfile', hsize⟩
    rw [hresolve] at hresolve'
    cases hresolve'
    rw [hfile] at hfile'
    cases hfile'
    exact ⟨m, hm, hsize⟩
  · rintro ⟨m, hm, hsize⟩
    exact ⟨m, names, data, hm, hresolve, hfile, hsize⟩

/-- The table has an entry for each collected file afterwards, if those without a right one are
    measured. -/
theorem entry_of_measured (hn : WellNamed b.tree) (hfiles : scanned host b.tree = .ok files)
    (hlookup : ∀ p, table'.lookup p = repaired mime host b.tree files p (table.lookup p))
    (hmeasured : Measured host b.tree files table) {p : String} (hp : p ∈ files) :
    ∃ names data m', resolve p = some names ∧
      b.tree.lookup names = some (.file (.object data)) ∧
      table'.lookup p = some m' ∧ m'.size = data.length ∧
      ∀ m, table.lookup p = some m → (m.size = data.length → m' = m) ∧
        m'.contentType = m.contentType ∧ m'.createdAt = m.createdAt := by
  obtain ⟨names, data, hresolve, htext, hfile⟩ :=
    hn.object_of_walked (walked_of_mem_scanned hfiles hp)
  have hafter := hlookup p
  rw [repaired_of_object mime host hp hresolve htext hfile] at hafter
  have hstale : ¬ (∃ m, table.lookup p = some m ∧ m.size = data.length) →
      (host.call p).metadata = true :=
    fun hno => hmeasured p hp fun hyes => hno ((upToDate_iff hresolve hfile).mp hyes)
  cases hold : table.lookup p with
  | none =>
    have hno : ¬ ∃ m, table.lookup p = some m ∧ m.size = data.length := by
      rintro ⟨m, hm, -⟩
      rw [hold] at hm
      cases hm
    rw [if_pos (hstale hno), hold] at hafter
    exact ⟨names, data, _, hresolve, hfile, hafter, rfl, nofun⟩
  | some m =>
    by_cases hsize : m.size = data.length
    · have hsame : table'.lookup p = some m := by simpa [hold, hsize] using hafter
      refine ⟨names, data, m, hresolve, hfile, hsame, hsize, fun m₀ hm₀ => ?_⟩
      cases hm₀
      exact ⟨fun _ => rfl, rfl, rfl⟩
    · have hno : ¬ ∃ m, table.lookup p = some m ∧ m.size = data.length := by
        rintro ⟨m₀, hm₀, hsize₀⟩
        rw [hold] at hm₀
        cases hm₀
        exact hsize hsize₀
      rw [if_pos (hstale hno), hold, Option.map_some, if_neg hsize] at hafter
      refine ⟨names, data, _, hresolve, hfile, hafter, rfl, fun m₀ hm₀ => ?_⟩
      cases hm₀
      exact ⟨fun hno => absurd hno hsize, rfl, rfl⟩

/-- Where the files are measured that have to be, everything is repaired. -/
theorem repairs_of_measured (hn : WellNamed b.tree) (hfiles : scanned host b.tree = .ok files)
    (htree : b'.tree = b.tree) (hdb' : b'.db = some table')
    (hlookup : ∀ p, table'.lookup p = repaired mime host b.tree files p (table.lookup p))
    (hmeasured : Measured host b.tree files table) : Repairs mime files table table' b b' := by
  have hentry {p : String} (hp : p ∈ files) :=
    entry_of_measured hn hfiles hlookup hmeasured hp
  have hkeys : ∀ p, table'.lookup p ≠ none ↔ p ∈ files := by
    intro p
    constructor
    · intro hsome
      by_contra hp
      have hafter := hlookup p
      unfold repaired at hafter
      rw [if_neg hp] at hafter
      exact hsome hafter
    · intro hp
      obtain ⟨names, data, m', -, -, hm', -⟩ := hentry hp
      rw [hm']
      simp
  refine ⟨htree, hdb', hkeys, fun p hp => hentry hp, fun host' hsame => ?_⟩
  refine reconcile_of_covers mime host' (htree ▸ hn) fun files' hfiles' =>
    ⟨table', hdb', fun p => ⟨?_, ?_⟩⟩
  · rw [htree] at hfiles'
    exact (hkeys p).trans (hsame files' hfiles' p).symm
  · intro m names data hm hresolve hfile
    have hp : p ∈ files := (hkeys p).mp (by rw [hm]; simp)
    obtain ⟨names', data', m', hresolve', hfile', hm', hsize, -⟩ := hentry hp
    rw [hresolve] at hresolve'
    cases hresolve'
    rw [htree, hfile'] at hfile
    cases hfile
    rw [hm] at hm'
    cases hm'
    exact hsize

/-- A file that is not measured is left with the entry that it had. -/
theorem repaired_unmeasured (hn : WellNamed b.tree) (hfiles : scanned host b.tree = .ok files)
    {p : String} (hp : p ∈ files) (hmetadata : (host.call p).metadata = false)
    (o : Option ObjectMeta) : repaired mime host b.tree files p o = o := by
  obtain ⟨names, data, hresolve, htext, hfile⟩ :=
    hn.object_of_walked (walked_of_mem_scanned hfiles hp)
  rw [repaired_of_object mime host hp hresolve htext hfile, hmetadata]
  rfl

theorem measured_of_repairs (hn : WellNamed b.tree) (hfiles : scanned host b.tree = .ok files)
    (hlookup : ∀ p, table'.lookup p = repaired mime host b.tree files p (table.lookup p))
    (h : Repairs mime files table table' b b') : Measured host b.tree files table := by
  intro p hp hstale
  by_contra hno
  obtain ⟨names, data, m', hresolve, hfile, hm', hsize, -⟩ := h.entries p hp
  have hsame := hlookup p
  rw [repaired_unmeasured hn hfiles hp (Bool.eq_false_of_not_eq_true hno), hm'] at hsame
  exact hstale ⟨m', names, data, hsame.symm, hresolve, hfile, hsize⟩

end

/-- A `reconcile` that succeeds repairs the table exactly when `fs::metadata` answers for every
    collected file that has no entry or one with another length. Otherwise such a file is left with
    the entry that it had, or with none. Entries without a file are gone in any case. -/
theorem reconcile_repairs (mime : MimeGuess) (host : ReconcileHost) (b b' : FilesystemBackend)
    (table : MetadataTable) (hn : WellNamed b.tree) (hdb : b.db = some table)
    (h : b.reconcile mime host = (.ok (), b')) :
    ∃ files table', scanned host b.tree = .ok files ∧ b'.db = some table' ∧
      (Repairs mime files table table' b b' ↔ Measured host b.tree files table) ∧
      (∀ p, p ∉ files → table'.lookup p = none) ∧
      ∀ p ∈ files, (host.call p).metadata = false → table'.lookup p = table.lookup p := by
  obtain ⟨files, hfiles, htree, table', hdb', hlookup⟩ := reconcile_ok hdb h
  refine ⟨files, table', hfiles, hdb', ⟨measured_of_repairs hn hfiles hlookup,
    repairs_of_measured hn hfiles htree hdb' hlookup⟩, fun p hp => ?_, fun p hp hmetadata => ?_⟩
  · rw [hlookup]
    exact if_neg hp
  · rw [hlookup, repaired_unmeasured hn hfiles hp hmetadata]

theorem wellNamed_empty : WellNamed (FileTree.empty : FileTree Content) := by
  have hnil : ∀ names, (FileTree.empty : FileTree Content).lookup names ≠ none → names = [] := by
    intro names hthere
    by_contra hne
    rw [FileTree.lookup_of_ne hne] at hthere
    exact hthere rfl
  refine ⟨fun names hthere name hname => ?_, fun names hthere name hname => ?_,
    fun names hfile => ?_⟩
  · rw [hnil names hthere] at hname
    cases hname
  · rw [hnil names hthere] at hname
    cases hname
  · rw [hnil names (by rw [hfile]; simp)] at hfile
    cases hfile

theorem WellNamed.createDirAll {tree : FileTree Content} (hn : WellNamed tree) (limit : Nat)
    {names : List String} (hnames : ∀ name ∈ names, Plain name ∧ '\\' ∉ name.toList) :
    WellNamed (FileTree.createDirAll limit [] names tree).2 := by
  have hname : ∀ q, (FileTree.createDirAll limit [] names tree).2.lookup q ≠ none →
      ∀ name ∈ q, Plain name ∧ '\\' ∉ name.toList := by
    intro q hq name hname
    rcases FileTree.lookup_createDirAll limit [] names tree q with hsame | ⟨hpre, -, -⟩
    · rw [hsame] at hq
      exact ⟨hn.plain q hq name hname, hn.noBackslash q hq name hname⟩
    · exact hnames name (hpre.subset hname)
  refine ⟨fun q hq name h => (hname q hq name h).1, fun q hq name h => (hname q hq name h).2,
    fun q hfile => hn.database q ?_⟩
  exact (FileTree.createDirAll_file_iff ..).mp hfile

theorem WellNamed.write {tree tree' : FileTree Content} (hn : WellNamed tree)
    (names : List String) (content : Content) (h : tree.write names content = some tree')
    (hnames : ∀ name ∈ names, Plain name ∧ '\\' ∉ name.toList)
    (hcontent : content = .database → names = databasePath) : WellNamed tree' := by
  have hlookup := FileTree.lookup_write h
  have hthere : ∀ q, tree'.lookup q ≠ none → q = names ∨ tree.lookup q ≠ none := by
    intro q hq
    rw [hlookup] at hq
    split at hq
    · next heq => exact Or.inl heq
    · exact Or.inr hq
  refine ⟨fun q hq name hname => ?_, fun q hq name hname => ?_, fun q hfile => ?_⟩
  · rcases hthere q hq with rfl | hq
    · exact (hnames name hname).1
    · exact hn.plain q hq name hname
  · rcases hthere q hq with rfl | hq
    · exact (hnames name hname).2
    · exact hn.noBackslash q hq name hname
  · rw [hlookup] at hfile
    split at hfile
    · next heq =>
      rw [heq]
      exact hcontent (by simpa using hfile)
    · exact hn.database q hfile

theorem plain_databasePath : ∀ name ∈ databasePath, Plain name ∧ '\\' ∉ name.toList := by
  intro name hname
  rw [List.mem_singleton.mp hname]
  exact ⟨⟨by decide, by decide, by decide, by decide⟩, by decide⟩

/-- A store in whose directory there is one file besides the database, `a`, where the table has an
    entry for `a` with another length and one for a file `b`. -/
def disturbedTable : MetadataTable :=
  (MetadataTable.empty.save ⟨"a", 5, "text/plain", 1, 1⟩).save ⟨"b", 0, "text/plain", 1, 1⟩

def disturbed : FilesystemBackend where
  tree := (FilesystemBackend.openEmpty.tree.write ["a"] (.object [1])).getD .empty
  db := some disturbedTable

theorem reconcile_repairs_disturbed :
    ∃ files table', scanned (.willing 2) disturbed.tree = .ok files ∧
      Repairs (fun _ => none) files disturbedTable table' disturbed
        (disturbed.reconcile (fun _ => none) (.willing 2)).2 := by
  have hempty : WellNamed FilesystemBackend.openEmpty.tree :=
    wellNamed_empty.write databasePath .database rfl plain_databasePath fun _ => rfl
  have hnamed : WellNamed disturbed.tree := by
    refine hempty.write ["a"] (.object [1]) rfl (fun name hname => ?_) fun hno => (by cases hno)
    rw [List.mem_singleton.mp hname]
    exact ⟨⟨by decide, by decide, by decide, by decide⟩, by decide⟩
  obtain ⟨files, table', hfiles, -, hiff, -⟩ := reconcile_repairs (fun _ => none) (.willing 2)
    disturbed _ disturbedTable hnamed rfl (Prod.ext (by decide) rfl)
  exact ⟨files, table', hfiles, hiff.mpr fun _ _ _ => rfl⟩

/-- A host on which no file can be measured. -/
def unmeasuring : ReconcileHost :=
  { ReconcileHost.willing 2 with call := fun _ => { Host.willing 2 with metadata := false } }

/-- A host on which the walk gets no answer about `a`. -/
def unseeing : ReconcileHost :=
  { ReconcileHost.willing 2 with stat := fun names => names ≠ ["a"] }

/-- There the entry for `a` keeps its wrong length, and reconciling succeeds. And where a second walk
    gets no answer about `a`, reconciling again succeeds too and the entry is gone. -/
theorem unmeasured_kept :
    (disturbed.reconcile (fun _ => none) unmeasuring).1 = .ok () ∧
      (¬ ∃ files table', scanned unmeasuring disturbed.tree = .ok files ∧
        Repairs (fun _ => none) files disturbedTable table' disturbed
          (disturbed.reconcile (fun _ => none) unmeasuring).2) ∧
      (disturbed.reconcile (fun _ => none) (.willing 2)).1 = .ok () ∧
      ∃ b, (disturbed.reconcile (fun _ => none) (.willing 2)).2 = b ∧
        (b.reconcile (fun _ => none) unseeing).1 = .ok () ∧
        (b.reconcile (fun _ => none) unseeing).2 ≠ b := by
  refine ⟨by decide, ?_, by decide, _, rfl, by decide, fun hsame => ?_⟩
  rotate_left
  · have hkept := congrArg (fun b => b.db.map fun table => table.lookup "a") hsame
    exact absurd hkept (by decide)
  rintro ⟨files, table', hfiles, hrepairs⟩
  have hcollected : scanned unmeasuring disturbed.tree = .ok ["a"] := by rfl
  rw [hcollected] at hfiles
  cases hfiles
  obtain ⟨names, data, m', hresolve, hfile, hm', hsize, -⟩ := hrepairs.entries "a" (by decide)
  have hnames : resolve "a" = some ["a"] := by decide
  rw [hnames] at hresolve
  cases hresolve
  have hdata : disturbed.tree.lookup ["a"] = some (.file (.object [1])) := by decide
  rw [hdata] at hfile
  cases hfile
  have hlookup : ((disturbed.reconcile (fun _ => none) unmeasuring).2.db.map
      fun table => table.lookup "a") = some (some ⟨"a", 5, "text/plain", 1, 1⟩) := by decide
  rw [hrepairs.db, Option.map_some, hm'] at hlookup
  cases hlookup
  exact absurd hsize (by decide)

end Mik.Storage
