/-
  Closing a store and opening it again (`FilesystemBackend::open`).

  Opening finds the database in the file `metadata.redb`, makes one where there is none, and
  reconciles. A file under that name that the store did not write is read by redb, which is an
  input (`readDatabase`). `ReopensSame` says that a store opened again answers every `list`,
  `head` and `get` as before, unless the walk got no answer about a path; the bytes of the database
  file are the host's and taken to be the same. `reopening_unnoticed_iff` says in which runs this
  holds throughout.
-/
import Mik.Storage.Consistency
import Mik.Storage.Reconcile

namespace Mik.Storage

open Mik.Lib

/-! ## Opening -/

structure OpenHost where
  reconcile : ReconcileHost
  /-- `fs::create_dir_all` of the base directory, and `Database::create`. -/
  createDir : Bool
  create : Bool
  /-- What redb makes of a file that is not the database it wrote itself. -/
  readDatabase : Bytes → Option MetadataTable
  initTxn : Option TxnStage

/-- All calls that may fail by themselves succeed. -/
structure OpenHost.Willing (host : OpenHost) : Prop where
  createDir : host.createDir = true
  create : host.create = true
  initTxn : host.initTxn = none
  readDir : ∀ dir, host.reconcile.readDir dir = true
  sees : host.reconcile.Sees
  readEntry : ∀ names, host.reconcile.readEntry names = true
  scanTxn : host.reconcile.scanTxn = none

def initTexts : TxnTexts where
  beginTxn := "Failed to begin initialization transaction"
  openTable := "Failed to initialize objects table"
  access := "Failed to initialize objects table"
  finish := "Failed to commit initialization transaction"

/-- `Database::create`: the directory with a database in it, and its table. `stored` is what the
    database holds that the store wrote. -/
def openDatabase (host : OpenHost) (tree : FileTree Content) (stored : Option MetadataTable) :
    Option (FileTree Content × MetadataTable) :=
  match tree.lookup databasePath with
  | none => (tree.write databasePath .database).map fun tree => (tree, .empty)
  | some .dir => none
  | some (.file .database) => stored.map fun table => (tree, table)
  | some (.file (.object data)) =>
    (host.readDatabase data).bind fun table =>
      (tree.write databasePath .database).map fun tree => (tree, table)

namespace FilesystemBackend

/-- `FilesystemBackend::open`. -/
def openAt (mime : MimeGuess) (host : OpenHost) (tree : FileTree Content)
    (stored : Option MetadataTable) : Except String FilesystemBackend :=
  let baseDir := host.reconcile.baseDir
  if !host.createDir then .error ("Failed to create storage directory: " ++ baseDir)
  else
    match if host.create then openDatabase host tree stored else none with
    | none =>
      .error ("Failed to open storage metadata database: " ++ join baseDir "metadata.redb")
    | some (tree, table) =>
      match host.initTxn with
      | some stage => .error (initTexts.error stage)
      | none =>
        match reconcile mime host.reconcile ⟨tree, some table⟩ with
        | (.error e, _) => .error e
        | (.ok _, b) => .ok b

/-- Closing the store and opening it again. -/
def reopen (mime : MimeGuess) (host : OpenHost) (b : FilesystemBackend) :
    Except String FilesystemBackend :=
  openAt mime host b.tree b.db

end FilesystemBackend

/-- The same answers to `list`, `head` and `get`, under every host. -/
def SameAnswers (mime : MimeGuess) (b b' : FilesystemBackend) : Prop :=
  ∀ host, (∀ pre, b'.list host pre = b.list host pre) ∧
    ∀ path, b'.head mime host path = b.head mime host path ∧
      b'.get mime host path = b.get mime host path

/-- Opening the store again succeeds where the host is willing, and changes no answer where the walk
    sees every path. -/
def ReopensSame (mime : MimeGuess) (b : FilesystemBackend) : Prop :=
  ∀ host : OpenHost, (host.Willing → ∃ b', b.reopen mime host = .ok b') ∧
    (host.reconcile.Sees → ∀ b', b.reopen mime host = .ok b' → SameAnswers mime b b')

/-- Every question about a file is answered while the store reconciles. -/
structure ReconcileHost.Answers (host : ReconcileHost) : Prop where
  sees : host.Sees
  metadata : ∀ path, (host.call path).metadata = true

/-- A store that has just been opened, or that behaves as if it had. -/
structure Settled (b : FilesystemBackend) : Prop where
  named : WellNamed b.tree
  holds : HoldsDatabase b
  matching : Matching b

/-- What an open did that succeeded. -/
theorem openAt_ok {mime : MimeGuess} {host : OpenHost} {tree : FileTree Content}
    {stored : Option MetadataTable} {b : FilesystemBackend}
    (h : FilesystemBackend.openAt mime host tree stored = .ok b) :
    ∃ tree' table, openDatabase host tree stored = some (tree', table) ∧
      FilesystemBackend.reconcile mime host.reconcile ⟨tree', some table⟩ = (.ok (), b) := by
  unfold FilesystemBackend.openAt at h
  dsimp only at h
  split at h
  · cases h
  split at h
  · cases h
  next tree' table hopen =>
  split at h
  · cases h
  split at h
  · cases h
  next b' hreconcile =>
  cases h
  split at hopen
  · exact ⟨tree', table, hopen, hreconcile⟩
  · cases hopen

/-- What `Database::create` leaves in the directory. -/
theorem openDatabase_tree {host : OpenHost} {tree tree' : FileTree Content}
    {stored : Option MetadataTable} {table : MetadataTable}
    (h : openDatabase host tree stored = some (tree', table)) (names : List String) :
    tree'.lookup names =
      if names = databasePath then some (.file .database) else tree.lookup names := by
  have hwritten : tree.write databasePath .database = some tree' → tree'.lookup names =
      if names = databasePath then some (.file .database) else tree.lookup names :=
    fun hwrite => FileTree.lookup_write hwrite names
  unfold openDatabase at h
  split at h
  · obtain ⟨tree₁, hwrite, hpair⟩ := Option.map_eq_some_iff.mp h
    cases hpair
    exact hwritten hwrite
  · cases h
  · next hplace =>
    obtain ⟨table₁, -, hpair⟩ := Option.map_eq_some_iff.mp h
    cases hpair
    split
    · next hnames => rw [hnames, hplace]
    · rfl
  · obtain ⟨table₁, -, hmap⟩ := Option.bind_eq_some_iff.mp h
    obtain ⟨tree₁, hwrite, hpair⟩ := Option.map_eq_some_iff.mp hmap
    cases hpair
    exact hwritten hwrite

/-- The directory of an opened store has ordinary names, and its database in it. -/
theorem openDatabase_named {host : OpenHost} {tree tree' : FileTree Content}
    {stored : Option MetadataTable} {table : MetadataTable} (hn : WellNamed tree)
    (h : openDatabase host tree stored = some (tree', table)) :
    WellNamed tree' ∧
      ∀ names, tree'.lookup names = some (.file .database) ↔ names = databasePath := by
  have hlookup := openDatabase_tree h
  have hthere : ∀ names, tree'.lookup names ≠ none →
      ∀ name ∈ names, Plain name ∧ '\\' ∉ name.toList := by
    intro names hnames name hname
    rw [hlookup] at hnames
    split at hnames
    · next heq =>
      rw [heq] at hname
      exact plain_databasePath name hname
    · exact ⟨hn.plain names hnames name hname, hn.noBackslash names hnames name hname⟩
  have hdatabase : ∀ names, tree'.lookup names = some (.file .database) ↔ names = databasePath := by
    intro names
    rw [hlookup]
    split
    · next heq => exact ⟨fun _ => heq, fun _ => rfl⟩
    · next hne => exact ⟨fun hfile => hn.database names hfile, fun heq => absurd heq hne⟩
  exact ⟨⟨fun names hnames name hname => (hthere names hnames name hname).1,
    fun names hnames name hname => (hthere names hnames name hname).2,
    fun names => (hdatabase names).mp⟩, hdatabase⟩

theorem opened_of_openAt {mime : MimeGuess} {host : OpenHost} {tree : FileTree Content}
    {stored : Option MetadataTable} {b : FilesystemBackend} (hn : WellNamed tree)
    (h : FilesystemBackend.openAt mime host tree stored = .ok b) :
    WellNamed b.tree ∧ HoldsDatabase b ∧ ∃ table, b.db = some table := by
  obtain ⟨tree', table, hopen, hreconcile⟩ := openAt_ok h
  obtain ⟨hn', hdatabase⟩ := openDatabase_named hn hopen
  obtain ⟨files, -, htree, table', hdb, -⟩ := reconcile_ok rfl hreconcile
  refine ⟨htree ▸ hn', ?_, table', hdb⟩
  unfold HoldsDatabase
  rw [htree]
  exact hdatabase

/-- Opening settles the store where every question about a file is answered. -/
theorem settled_of_openAt {mime : MimeGuess} {host : OpenHost} {tree : FileTree Content}
    {stored : Option MetadataTable} {b : FilesystemBackend} (hn : WellNamed tree)
    (hanswers : host.reconcile.Answers)
    (h : FilesystemBackend.openAt mime host tree stored = .ok b) : Settled b := by
  obtain ⟨hnamed, hholds, -⟩ := opened_of_openAt hn h
  obtain ⟨tree', table, hopen, hreconcile⟩ := openAt_ok h
  obtain ⟨hn', -⟩ := openDatabase_named hn hopen
  obtain ⟨files, hscan, htree, table', hdb, hlookup⟩ := reconcile_ok rfl hreconcile
  obtain ⟨-, -, hkeys, hentries, -⟩ := repairs_of_measured hn' hscan htree hdb hlookup
    fun p _ _ => hanswers.metadata p
  have hwalked := mem_scanned hanswers.sees hscan
  refine ⟨hnamed, hholds, table', hdb, fun p => ⟨?_, fun m names data hm hresolve hfile => ?_⟩⟩
  · rw [hkeys, hwalked, htree]
  · obtain ⟨names', data', m', hresolve', hfile', hm', hsize, -⟩ :=
      hentries p ((hkeys p).mp (by rw [hm]; simp))
    rw [hresolve] at hresolve'
    cases hresolve'
    rw [htree, hfile'] at hfile
    cases hfile
    rw [hm] at hm'
    cases hm'
    exact hsize

/-- The database of a settled store is found in its place. -/
theorem Settled.openDatabase_eq {b : FilesystemBackend} (hb : Settled b) (host : OpenHost) :
    ∃ table, b = ⟨b.tree, some table⟩ ∧ openDatabase host b.tree b.db = some (b.tree, table) := by
  obtain ⟨table, hdb, -⟩ := hb.matching
  refine ⟨table, by rw [← hdb], ?_⟩
  unfold openDatabase
  rw [(hb.holds databasePath).mpr rfl, hdb]
  rfl

/-- A settled store is opened again as it is. -/
theorem reopen_of_settled (mime : MimeGuess) {host : OpenHost} (hsees : host.reconcile.Sees)
    {b b' : FilesystemBackend} (hb : Settled b) (h : b.reopen mime host = .ok b') : b' = b := by
  obtain ⟨tree', table', hopen, hreconcile⟩ := openAt_ok h
  obtain ⟨table, hself, hfound⟩ := hb.openDatabase_eq host
  rw [hfound] at hopen
  cases hopen
  rw [← hself] at hreconcile
  have hsame := reconcile_of_covers mime host.reconcile hb.named
    fun files hfiles => hb.matching.covers hsees hfiles
  rw [hreconcile] at hsame
  exact hsame

theorem reopen_succeeds (mime : MimeGuess) {host : OpenHost} (hhost : host.Willing)
    {b : FilesystemBackend} (hb : Settled b) : b.reopen mime host = .ok b := by
  obtain ⟨table, hself, hfound⟩ := hb.openDatabase_eq host
  have hreconcile := reconcile_succeeds mime hb.named hb.matching hhost.sees hhost.readDir
    hhost.readEntry hhost.scanTxn
  unfold FilesystemBackend.reopen FilesystemBackend.openAt
  simp only [hhost.createDir, hhost.create, if_true, hfound, hhost.initTxn, Bool.not_true,
    Bool.false_eq_true, if_false]
  rw [← hself, hreconcile]

theorem Settled.reopensSame (mime : MimeGuess) {b : FilesystemBackend} (hb : Settled b) :
    ReopensSame mime b := by
  refine fun host => ⟨fun hhost => ⟨b, reopen_succeeds mime hhost hb⟩, fun hsees b' h host' => ?_⟩
  rw [reopen_of_settled mime hsees hb h]
  exact ⟨fun _ => rfl, fun _ => ⟨rfl, rfl⟩⟩

/-! ## What shows when the store is opened again -/

/-- In a well-named directory the walk collects the texts of the object files that it does not
    leave out. -/
theorem WellNamed.walked_iff {tree : FileTree Content} (hn : WellNamed tree) {p : String} :
    Walked tree [] p ↔ ∃ names data, names ≠ [] ∧ pathText names = p ∧
      tree.lookup names = some (.file (.object data)) ∧ ∀ name ∈ names, skipped name = false := by
  constructor
  · rintro ⟨names, content, hne, hfile, hshown, rfl⟩
    rw [List.nil_append] at hfile ⊢
    rw [relativeKey_eq (hn.noBackslash names (by rw [hfile]; simp))]
    cases content with
    | object data => exact ⟨names, data, hne, rfl, hfile, hshown⟩
    | database =>
      have hskip := hshown "metadata.redb"
        (by rw [hn.database names hfile]; exact List.mem_cons_self)
      exact absurd hskip (by decide)
  · rintro ⟨names, data, hne, rfl, hfile, hshown⟩
    refine ⟨names, .object data, hne, hfile, hshown, ?_⟩
    exact (relativeKey_eq (hn.noBackslash names (by rw [hfile]; simp))).symm

/-- A host that lets everything through. -/
def OpenHost.willing (now : Nat) : OpenHost where
  reconcile := .willing now
  createDir := true
  create := true
  readDatabase := fun _ => none
  initTxn := none

theorem OpenHost.willing_willing (now : Nat) : (OpenHost.willing now).Willing :=
  ⟨rfl, rfl, rfl, fun _ => rfl, fun _ => rfl, fun _ => rfl, rfl⟩

theorem OpenHost.willing_answers (now : Nat) : (OpenHost.willing now).reconcile.Answers :=
  ⟨fun _ => rfl, fun _ => rfl⟩

/-- Equal listings come from tables with the same entries. -/
theorem lookup_eq_of_listed {table table' : MetadataTable}
    (h : listed table'.entries.entries none = listed table.entries.entries none) (p : String) :
    table'.lookup p = table.lookup p := by
  have hsub : ∀ t t' : MetadataTable, listed t'.entries.entries none =
      listed t.entries.entries none → ∀ m, t.lookup p = some m → t'.lookup p = some m := by
    intro t t' heq m hm
    have hpath := t.own_path p m hm
    have hmem : m ∈ listed t'.entries.entries none := by
      rw [heq, mem_listed, hpath]
      exact hm
    rw [← hpath]
    exact mem_listed.mp hmem
  cases hold : table.lookup p with
  | some m => exact hsub table table' h m hold
  | none =>
    cases hnew : table'.lookup p with
    | none => rfl
    | some m =>
      have := hsub table' table h.symm m hnew
      rw [hold] at this
      cases this

section

variable {mime : MimeGuess} {b : FilesystemBackend} {table : MetadataTable}

/-- When opening the store again is not noticed, reconciling leaves every entry as it is. -/
theorem repaired_of_reopensSame (h : ReopensSame mime b) (hdb : b.db = some table)
    (hplace : b.tree.lookup databasePath = some (.file .database)) :
    ∃ files, (∀ p, p ∈ files ↔ Walked b.tree [] p) ∧
      ∀ p, repaired mime (.willing 0) b.tree files p (table.lookup p) = table.lookup p := by
  have hwilling := OpenHost.willing_willing 0
  obtain ⟨b', hreopen⟩ := (h (.willing 0)).1 hwilling
  have hlist := ((h (.willing 0)).2 hwilling.sees b' hreopen (.willing 0)).1 none
  obtain ⟨tree', table₀, hopen, hreconcile⟩ := openAt_ok hreopen
  unfold openDatabase at hopen
  rw [hplace, hdb] at hopen
  cases hopen
  obtain ⟨files, hfiles, htree, table', hdb', hlookup⟩ := reconcile_ok rfl hreconcile
  refine ⟨files, mem_scanned hwilling.sees hfiles, fun p => ?_⟩
  have hsame : table'.lookup p = table.lookup p := by
    refine lookup_eq_of_listed ?_ p
    have htxn : (Host.willing 0).txn = none := rfl
    simp only [FilesystemBackend.list, htxn, hdb, hdb', Option.getD_some, Except.ok.injEq] at hlist
    exact hlist
  exact (hlookup p).symm.trans hsame

/-- Then the table has an entry for what the walk collects and for nothing else. -/
theorem keys_of_reopensSame (h : ReopensSame mime b) (hdb : b.db = some table)
    (hplace : b.tree.lookup databasePath = some (.file .database)) (p : String) :
    (table.lookup p ≠ none → Walked b.tree [] p) ∧
      (WellNamed b.tree → Walked b.tree [] p → table.lookup p ≠ none) := by
  obtain ⟨files, hwalked, hsame⟩ := repaired_of_reopensSame h hdb hplace
  have hafter := hsame p
  constructor
  · intro hsome
    by_contra hno
    unfold repaired at hafter
    rw [if_neg (fun hmem => hno ((hwalked p).mp hmem))] at hafter
    exact hsome hafter.symm
  · intro hn hw hnone
    obtain ⟨names, data, hresolve, htext, hfile⟩ := hn.object_of_walked hw
    rw [repaired_of_object _ _ ((hwalked p).mpr hw) hresolve htext hfile, hnone] at hafter
    cases hafter

/-- And each entry has the length of its file. -/
theorem matching_of_reopensSame (h : ReopensSame mime b) (hn : WellNamed b.tree)
    (hdb : b.db = some table) (hplace : b.tree.lookup databasePath = some (.file .database)) :
    Matching b := by
  obtain ⟨files, hwalked, hsame⟩ := repaired_of_reopensSame h hdb hplace
  have hkeys := keys_of_reopensSame h hdb hplace
  refine ⟨table, hdb, fun p => ⟨⟨(hkeys p).1, (hkeys p).2 hn⟩, ?_⟩⟩
  intro m names data hm hresolve hfile
  have hw := (hkeys p).1 (by rw [hm]; simp)
  obtain ⟨names', data', hresolve', htext, hfile'⟩ := hn.object_of_walked hw
  rw [hresolve] at hresolve'
  cases hresolve'
  by_contra hsize
  have hafter := hsame p
  have hmetadata : ((ReconcileHost.willing 0).call p).metadata = true := rfl
  rw [repaired_of_object _ _ ((hwalked p).mpr hw) hresolve htext hfile, hm, if_pos hmetadata,
    Option.map_some, Option.getD_some, if_neg hsize] at hafter
  exact hsize (congrArg ObjectMeta.size (Option.some.inj hafter)).symm

end

/-- A store whose database was written over, or is no longer in its place, is not. -/
theorem not_reopensSame_of_lost {mime : MimeGuess} {b : FilesystemBackend}
    (h : b.db = none ∨ b.tree.lookup databasePath = none) : ¬ ReopensSame mime b := by
  intro hsame
  have hwilling := OpenHost.willing_willing 0
  obtain ⟨b', hreopen⟩ := (hsame (.willing 0)).1 hwilling
  have hanswers := (hsame (.willing 0)).2 hwilling.sees b' hreopen
  obtain ⟨tree', table, hopen, hreconcile⟩ := openAt_ok hreopen
  obtain ⟨files, -, htree, table', hdb', -⟩ := reconcile_ok rfl hreconcile
  rcases h with hdb | hgone
  · -- what the lost table answers is not fixed
    have hlist : ∀ damaged : MetadataTable, listed table'.entries.entries none =
        listed damaged.entries.entries none := by
      intro damaged
      have hone := (hanswers { Host.willing 0 with damaged := damaged }).1 none
      have htxn : (Host.willing 0).txn = none := rfl
      simp only [FilesystemBackend.list, htxn, hdb, hdb', Option.getD_some, Option.getD_none,
        Except.ok.injEq] at hone
      exact hone
    have hlookup := lookup_eq_of_listed ((hlist .empty).symm.trans
      (hlist (MetadataTable.empty.save ⟨"a", 0, "", 0, 0⟩))) "a"
    exact absurd hlookup (by decide)
  · -- a head of the database file finds nothing before, and the new database after
    have hhead := ((hanswers (.willing 0)).2 "metadata.redb").1
    have hvalid : validatePath "metadata.redb" = .ok databasePath := by decide
    have hthere : b'.tree.lookup databasePath = some (.file .database) := by
      rw [htree, openDatabase_tree hopen, if_pos rfl]
    have hhost : (Host.willing 0).stat = true ∧ (Host.willing 0).txn = none ∧
        (Host.willing 0).metadata = true := ⟨rfl, rfl, rfl⟩
    simp only [FilesystemBackend.head, hvalid, FilesystemBackend.find, hhost.1, if_true, hgone,
      hthere, FilesystemBackend.metaOf, FilesystemBackend.loadMetadata, hhost.2.1, hdb',
      Option.getD_some, hhost.2.2] at hhead
    cases hlookup : table'.lookup "metadata.redb" with
    | none =>
      rw [hlookup] at hhead
      cases hhead
    | some m =>
      rw [hlookup] at hhead
      cases hhead

/-! ## Calls that succeed -/

def Reply.isOk : Reply → Bool
  | .put result => result.isOk
  | .get result => result.isOk
  | .delete result => result.isOk
  | .head result => result.isOk
  | .list result => result.isOk

/-- The call is answered without an error. -/
def Succeeds (mime : MimeGuess) (b : FilesystemBackend) (e : Host × Op) : Prop :=
  (b.call mime e.1 e.2).1.isOk = true

instance (mime : MimeGuess) (b : FilesystemBackend) (e : Host × Op) :
    Decidable (Succeeds mime b e) := inferInstanceAs (Decidable (_ = _))

/-- What a put leaves that succeeds. -/
theorem put_ok {mime : MimeGuess} {b b' : FilesystemBackend} {host : Host} {path : String}
    {data : Bytes} {contentType : Option String} {m : ObjectMeta}
    (h : b.put mime host path data contentType = (.ok m, b')) :
    ∃ names, validatePath path = .ok names ∧
      (FileTree.createDirAll host.mkdirLimit [] names.dropLast b.tree).2.write names
        (.object data) = some b'.tree ∧
      m.path = path ∧ m.size = data.length ∧
      b'.db = if b.tree.lookup names = some (.file .database) then none
        else b.db.map fun table => table.save m := by
  unfold FilesystemBackend.put at h
  split at h
  · cases h
  next names hvalid =>
  have hdatabase := FileTree.createDirAll_file_iff host.mkdirLimit [] names.dropLast b.tree
    names .database
  split at h
  · cases h
  next tree hdirs =>
  rw [hdirs] at hdatabase
  unfold FilesystemBackend.writeObject at h
  cases hwritten : host.write.written data with
  | none =>
    rw [hwritten] at h
    cases h
  | some bytes =>
  rw [hwritten] at h
  cases hwrite : tree.write names (.object bytes) with
  | none =>
    dsimp only at h
    rw [hwrite] at h
    cases h
  | some tree' =>
  dsimp only at h
  rw [hwrite] at h
  dsimp only at h
  split at h
  · cases h
  next b₁ hpair =>
  obtain ⟨hcomplete, rfl⟩ := Prod.mk.inj hpair
  have hbytes : bytes = data := by
    rw [of_decide_eq_true hcomplete] at hwritten
    exact (Option.some.inj hwritten).symm
  split at h
  · cases h
  next b₂ hsaved =>
  obtain rfl := FilesystemBackend.saveMetadata_ok hsaved
  cases h
  refine ⟨names, hvalid, by rw [hdirs, ← hbytes]; exact hwrite, rfl, rfl, ?_⟩
  simp only [hdatabase]
  split
  · rfl
  · rfl

/-- What a delete leaves that succeeds: with or without a file at its path. -/
theorem delete_ok {b b' : FilesystemBackend} {host : Host} {path : String} {r : Bool}
    (h : b.delete host path = (.ok r, b')) :
    ∃ names, validatePath path = .ok names ∧
      b'.db = b.db.map (fun table => table.remove path) ∧
      ((b.find host names = none ∧ b'.tree = b.tree) ∨
        (host.stat = true ∧ ∃ content, b.tree.lookup names = some (.file content) ∧
          ∀ q, b'.tree.lookup q = if q = names then none else b.tree.lookup q)) := by
  unfold FilesystemBackend.delete at h
  split at h
  · cases h
  next names hvalid =>
  split at h
  · next hfind =>
    split at h
    · cases h
    · next b₁ hremoved =>
      obtain rfl := FilesystemBackend.removeMetadata_ok hremoved
      cases h
      exact ⟨names, hvalid, rfl, Or.inl ⟨hfind, rfl⟩⟩
  · next node hfind =>
    split at h
    · cases h
    · next tree htree =>
      split at h
      · cases h
      · next b₁ hremoved =>
        obtain rfl := FilesystemBackend.removeMetadata_ok hremoved
        cases h
        have hstat : host.stat = true := by
          by_contra hno
          unfold FilesystemBackend.find at hfind
          rw [if_neg hno] at hfind
          cases hfind
        refine ⟨names, hvalid, rfl, Or.inr ⟨hstat, ?_⟩⟩
        split at htree
        · by_cases hfile : ∃ content, b.tree.lookup names = some (.file content)
          · obtain ⟨content, hcontent⟩ := hfile
            obtain ⟨tree', htree', hlookup⟩ := FileTree.removeFile_of_file hcontent
            rw [htree] at htree'
            cases htree'
            exact ⟨content, hcontent, hlookup⟩
          · rw [not_exists] at hfile
            rw [FileTree.removeFile_of_not_file hfile] at htree
            cases htree
        · cases htree

/-! ## When a call keeps the store settled -/

/-- The condition on a call and the state before it. A put is given the text of its normalised
    path, which has no `\` and no name that the walk leaves out. A delete that removes a file does
    not remove the database, and is given the text of the path if the walk collects the file; one
    whose existence check fails is not given the path of an entry. -/
def KeepsTable (b : FilesystemBackend) : Host × Op → Prop
  | (_, .put path _ _) => ∀ names, validatePath path = .ok names → pathText names = path ∧
      ∀ name ∈ names, skipped name = false ∧ '\\' ∉ name.toList
  | (host, .delete path) => ∀ names, validatePath path = .ok names →
      (host.stat = false → b.recorded path = none) ∧
      (host.stat = true → ∀ content, b.tree.lookup names = some (.file content) →
        names ≠ databasePath ∧
        ((∀ name ∈ names, skipped name = false) → pathText names = path))
  | _ => True

/-- Names that have one text are the same. -/
theorem pathText_inj {names names' : List String} (hne : names ≠ []) (hne' : names' ≠ [])
    (h : ∀ name ∈ names, Plain name) (h' : ∀ name ∈ names', Plain name)
    (heq : pathText names = pathText names') : names = names' := by
  have hvalid := validatePath_pathText hne h
  rw [heq, validatePath_pathText hne' h'] at hvalid
  exact (Except.ok.inj hvalid).symm

section

variable {mime : MimeGuess} {b b' : FilesystemBackend} {host : Host} {path : String}

/-- Saving the entry of a file along with the file keeps the table right. -/
theorem matching_of_saved {data : Bytes} {m : ObjectMeta} {names : List String}
    {table : MetadataTable} (hb : Settled b) (hn' : WellNamed b'.tree) (hne : names ≠ [])
    (hvalid : validatePath path = .ok names) (htext : pathText names = path)
    (hshown : ∀ name ∈ names, skipped name = false) (htable : b.db = some table)
    (hdb' : b'.db = some (table.save m)) (hpath : m.path = path) (hsize : m.size = data.length)
    (hfiles : ∀ q content, b'.tree.lookup q = some (.file content) ↔
      if q = names then content = .object data else b.tree.lookup q = some (.file content)) :
    Matching b' := by
  obtain ⟨table₀, htable₀, hmatch⟩ := hb.matching
  rw [htable] at htable₀
  cases htable₀
  refine ⟨table.save m, hdb', fun p => ?_⟩
  rw [MetadataTable.lookup_save, hpath, hn'.walked_iff]
  by_cases hp : p = path
  · rw [if_pos hp, hp]
    constructor
    · exact ⟨fun _ => ⟨names, data, hne, htext, (hfiles _ _).mpr (by rw [if_pos rfl]), hshown⟩,
        fun _ => by simp⟩
    · intro m' names' data' hm' hresolve hfile
      rw [resolve_eq_some_iff, hvalid] at hresolve
      cases hresolve
      cases hm'
      rw [hfiles, if_pos rfl] at hfile
      cases hfile
      exact hsize
  · rw [if_neg hp]
    have hdiffers : ∀ names', pathText names' = p → names' ≠ names := by
      rintro names' hp' rfl
      exact hp (hp'.symm.trans htext)
    constructor
    · rw [(hmatch p).1, hb.named.walked_iff]
      constructor
      · rintro ⟨names', data', hne', htext', hfile, hshown'⟩
        refine ⟨names', data', hne', htext', (hfiles _ _).mpr ?_, hshown'⟩
        rw [if_neg (hdiffers names' htext')]
        exact hfile
      · rintro ⟨names', data', hne', htext', hfile, hshown'⟩
        rw [hfiles, if_neg (hdiffers names' htext')] at hfile
        exact ⟨names', data', hne', htext', hfile, hshown'⟩
    · intro m' names' data' hm' hresolve hfile
      have hwalked := (hmatch p).1.mp (by rw [hm']; simp)
      obtain ⟨names₂, data₂, hresolve₂, htext₂, -⟩ := hb.named.object_of_walked hwalked
      rw [hresolve] at hresolve₂
      cases hresolve₂
      rw [hfiles, if_neg (hdiffers names' htext₂)] at hfile
      exact (hmatch p).2 m' names' data' hm' hresolve hfile

theorem settled_put {data : Bytes} {contentType : Option String} {m : ObjectMeta}
    (hb : Settled b) (h : b.put mime host path data contentType = (.ok m, b'))
    (hk : KeepsTable b (host, .put path data contentType)) : Settled b' := by
  obtain ⟨names, hvalid, hwrite, hpath, hsize, hdb⟩ := put_ok h
  obtain ⟨htext, hshown⟩ := hk names hvalid
  have hne := names_ne_nil hvalid
  have hplain := plain_of_validatePath hvalid
  have hlookup := FileTree.lookup_write hwrite
  have hother : names ≠ databasePath := by
    rintro rfl
    exact absurd (hshown "metadata.redb" List.mem_cons_self).1 (by decide)
  have hfiles : ∀ q content, b'.tree.lookup q = some (.file content) ↔
      if q = names then content = .object data else b.tree.lookup q = some (.file content) := by
    intro q content
    rw [hlookup]
    split
    · simp [eq_comm]
    · exact FileTree.createDirAll_file_iff ..
  have hnames : ∀ name ∈ names, Plain name ∧ '\\' ∉ name.toList :=
    fun name hname => ⟨hplain name hname, (hshown name hname).2⟩
  have hparents : WellNamed (FileTree.createDirAll host.mkdirLimit [] names.dropLast b.tree).2 :=
    hb.named.createDirAll host.mkdirLimit fun name hname =>
      hnames name ((List.dropLast_prefix names).subset hname)
  have hn' : WellNamed b'.tree := hparents.write names (.object data) hwrite hnames nofun
  have hholds : HoldsDatabase b' := by
    intro q
    rw [hfiles]
    split
    · next heq => simp [heq, hother]
    · exact hb.holds q
  obtain ⟨table, htable, -⟩ := hb.matching
  rw [if_neg (fun hfile => hother ((hb.holds names).mp hfile)), htable] at hdb
  exact ⟨hn', hholds, matching_of_saved hb hn' hne hvalid htext
    (fun name hname => (hshown name hname).1) htable hdb hpath hsize hfiles⟩

/-- The keys of a settled store are the texts of what the walk collects. -/
theorem Settled.text_of_recorded (hb : Settled b) {table : MetadataTable} {names : List String}
    (hdb : b.db = some table) (hvalid : validatePath path = .ok names)
    (hentry : table.lookup path ≠ none) :
    pathText names = path ∧ (∃ data, b.tree.lookup names = some (.file (.object data))) ∧
      ∀ name ∈ names, skipped name = false := by
  obtain ⟨table₀, hdb₀, hmatch⟩ := hb.matching
  rw [hdb] at hdb₀
  cases hdb₀
  obtain ⟨names', data, hne, htext, hfile, hshown⟩ :=
    hb.named.walked_iff.mp ((hmatch path).1.mp hentry)
  have hvalid' := validatePath_pathText hne (hb.named.plain names' (by rw [hfile]; simp))
  rw [htext, hvalid] at hvalid'
  cases hvalid'
  exact ⟨htext, ⟨data, hfile⟩, hshown⟩

theorem recorded_eq_none_iff {table : MetadataTable} (hdb : b.db = some table) :
    b.recorded path = none ↔ table.lookup path = none := by
  rw [recorded_of_db hdb]
  exact Option.map_eq_none_iff

/-- Removing an entry that is not there. -/
theorem Settled.remove_absent (hb : Settled b) (htree : b'.tree = b.tree)
    (hdb' : b'.db = b.db.map fun table => table.remove path) (hnone : b.recorded path = none) :
    Settled b' := by
  obtain ⟨table, hdb, hmatch⟩ := hb.matching
  rw [recorded_eq_none_iff hdb] at hnone
  refine ⟨by rw [htree]; exact hb.named, by unfold HoldsDatabase; rw [htree]; exact hb.holds,
    table.remove path, by rw [hdb', hdb]; rfl, fun p => ?_⟩
  have hsame : (table.remove path).lookup p = table.lookup p := by
    rw [MetadataTable.lookup_remove]
    split
    · next hp => rw [hp, hnone]
    · rfl
  rw [hsame, htree]
  exact hmatch p

theorem settled_delete {r : Bool} (hb : Settled b) (h : b.delete host path = (.ok r, b'))
    (hk : KeepsTable b (host, .delete path)) : Settled b' := by
  obtain ⟨names, hvalid, hdb', hcase⟩ := delete_ok h
  obtain ⟨table, hdb, hmatch⟩ := hb.matching
  obtain ⟨hunseen, hseen⟩ := hk names hvalid
  rcases hcase with ⟨hfind, htree⟩ | ⟨hstat, content, hfile, hlookup⟩
  · refine hb.remove_absent htree hdb' ?_
    cases hstat : host.stat with
    | false => exact hunseen hstat
    | true =>
      rw [recorded_eq_none_iff hdb]
      by_contra hentry
      obtain ⟨-, ⟨data, hthere⟩, -⟩ := hb.text_of_recorded hdb hvalid hentry
      unfold FilesystemBackend.find at hfind
      rw [if_pos hstat, hthere] at hfind
      cases hfind
  · obtain ⟨hother, htext⟩ := hseen hstat content hfile
    have hsub : ∀ q node, b'.tree.lookup q = some node ↔
        q ≠ names ∧ b.tree.lookup q = some node := by
      intro q node
      rw [hlookup]
      split
      · next heq => simp [heq]
      · next hne => simp [hne]
    have hthere : ∀ q, b'.tree.lookup q ≠ none → b.tree.lookup q ≠ none := by
      intro q hq
      obtain ⟨node, hnode⟩ := Option.ne_none_iff_exists'.mp hq
      rw [((hsub q node).mp hnode).2]
      simp
    have hholds : HoldsDatabase b' := by
      intro q
      rw [hsub, hb.holds q]
      exact ⟨fun h => h.2, fun heq => ⟨heq ▸ hother.symm, heq⟩⟩
    have hn' : WellNamed b'.tree := ⟨fun q hq => hb.named.plain q (hthere q hq),
      fun q hq => hb.named.noBackslash q (hthere q hq), fun q => (hholds q).mp⟩
    refine ⟨hn', hholds, table.remove path, by rw [hdb', hdb]; rfl, fun p => ?_⟩
    rw [MetadataTable.lookup_remove, hn'.walked_iff]
    by_cases hp : p = path
    · rw [if_pos hp, hp]
      refine ⟨⟨fun hno => absurd rfl hno, ?_⟩, fun m _ _ hm => (by cases hm)⟩
      rintro ⟨names', data, hne, htext', hfile', -⟩
      have hthere' := (hsub names' _).mp hfile'
      have hvalid' := validatePath_pathText hne (hb.named.plain names' (by rw [hthere'.2]; simp))
      rw [htext', hvalid] at hvalid'
      exact absurd (Except.ok.inj hvalid').symm hthere'.1
    · rw [if_neg hp]
      constructor
      · rw [(hmatch p).1, hb.named.walked_iff]
        constructor
        · rintro ⟨names', data, hne, htext', hfile', hshown⟩
          refine ⟨names', data, hne, htext', (hsub _ _).mpr ⟨?_, hfile'⟩, hshown⟩
          rintro rfl
          exact hp (htext'.symm.trans (htext hshown))
        · rintro ⟨names', data, hne, htext', hfile', hshown⟩
          exact ⟨names', data, hne, htext', ((hsub _ _).mp hfile').2, hshown⟩
      · intro m names' data hm hresolve hfile'
        exact (hmatch p).2 m names' data hm hresolve ((hsub _ _).mp hfile').2

/-! ## What a call breaks that does not meet the condition -/

theorem keeps_of_put {data : Bytes} {contentType : Option String} {m : ObjectMeta}
    (hb : Settled b) (h : b.put mime host path data contentType = (.ok m, b'))
    (hsame : ReopensSame mime b') : KeepsTable b (host, .put path data contentType) := by
  obtain ⟨names, hvalid, hwrite, hpath, -, hdb'⟩ := put_ok h
  obtain ⟨table, hdb, -⟩ := hb.matching
  have hlookup := FileTree.lookup_write hwrite
  have hother : names ≠ databasePath := by
    intro heq
    rw [if_pos ((hb.holds names).mpr heq)] at hdb'
    exact not_reopensSame_of_lost (Or.inl hdb') hsame
  rw [if_neg (fun hfile => hother ((hb.holds names).mp hfile)), hdb] at hdb'
  have hplace : b'.tree.lookup databasePath = some (.file .database) := by
    rw [hlookup, if_neg hother.symm, FileTree.createDirAll_file_iff]
    exact (hb.holds databasePath).mpr rfl
  have hentry : (table.save m).lookup path ≠ none := by
    rw [MetadataTable.lookup_save, if_pos hpath.symm]
    simp
  -- the new entry belongs to a file that the walk collects
  obtain ⟨names', content, hne', hfile, hshown, hkey⟩ :=
    (keys_of_reopensSame hsame hdb' hplace path).1 hentry
  rw [List.nil_append] at hfile hkey
  have hnoBackslash : '\\' ∉ path.toList := by
    rw [hkey]
    exact notMem_replaceChar (by decide) _
  have hchars : ∀ name ∈ names, '\\' ∉ name.toList := by
    intro name hname hc
    rcases mem_of_normalizeComponents (normalizeComponents_of_validatePath hvalid) name hname with
      hmem | hmem
    · cases hmem
    · exact hnoBackslash (mem_of_mem_components hmem hc)
  have hnames : names' = names := by
    by_contra hne
    rw [hlookup, if_neg hne, FileTree.createDirAll_file_iff] at hfile
    have hthere : b.tree.lookup names' ≠ none := by
      rw [hfile]
      simp
    rw [relativeKey_eq (hb.named.noBackslash names' hthere)] at hkey
    have hvalid' := validatePath_pathText hne' (hb.named.plain names' hthere)
    rw [← hkey, hvalid] at hvalid'
    exact hne (Except.ok.inj hvalid').symm
  subst hnames
  rw [relativeKey_eq hchars] at hkey
  intro names₁ hvalid₁
  obtain rfl := names_unique hvalid hvalid₁
  exact ⟨hkey.symm, fun name hname => ⟨hshown name hname, hchars name hname⟩⟩

theorem keeps_of_delete {r : Bool} (hb : Settled b) (h : b.delete host path = (.ok r, b'))
    (hsame : ReopensSame mime b') : KeepsTable b (host, .delete path) := by
  obtain ⟨names, hvalid, hdb', hcase⟩ := delete_ok h
  obtain ⟨table, hdb, hmatch⟩ := hb.matching
  rw [hdb] at hdb'
  intro names₁ hvalid₁
  obtain rfl := names_unique hvalid hvalid₁
  rcases hcase with ⟨hfind, htree⟩ | ⟨hstat, content, hfile, hlookup⟩
  · have hplace : b'.tree.lookup databasePath = some (.file .database) := by
      rw [htree]
      exact (hb.holds databasePath).mpr rfl
    refine ⟨fun _ => ?_, fun hstat content' hfile' => ?_⟩
    · rw [recorded_eq_none_iff hdb]
      by_contra hentry
      have hwalked : Walked b'.tree [] path := by
        rw [htree]
        exact (hmatch path).1.mp hentry
      refine (keys_of_reopensSame hsame hdb' hplace path).2 (by rw [htree]; exact hb.named)
        hwalked ?_
      rw [MetadataTable.lookup_remove, if_pos rfl]
    · unfold FilesystemBackend.find at hfind
      rw [if_pos hstat, hfile'] at hfind
      cases hfind
  · refine ⟨fun hno => absurd (hno.symm.trans hstat) (by decide), fun _ content' hfile' => ?_⟩
    have hother : names ≠ databasePath := by
      intro heq
      refine not_reopensSame_of_lost (Or.inr ?_) hsame
      rw [hlookup, if_pos heq.symm]
    refine ⟨hother, fun hshown => ?_⟩
    have hplace : b'.tree.lookup databasePath = some (.file .database) := by
      rw [hlookup, if_neg hother.symm]
      exact (hb.holds databasePath).mpr rfl
    have hthere : b.tree.lookup names ≠ none := by
      rw [hfile]
      simp
    have hne := names_ne_nil hvalid
    have hplain := plain_of_validatePath hvalid
    by_contra htext
    -- the entry of the removed file is still in the table
    have hwalked : Walked b.tree [] (pathText names) :=
      ⟨names, content, hne, hfile, hshown,
        (relativeKey_eq (hb.named.noBackslash names hthere)).symm⟩
    have hentry : (table.remove path).lookup (pathText names) ≠ none := by
      rw [MetadataTable.lookup_remove, if_neg htext]
      exact (hmatch _).1.mpr hwalked
    obtain ⟨names', content₁, hne', hfile₁, -, hkey⟩ :=
      (keys_of_reopensSame hsame hdb' hplace _).1 hentry
    rw [List.nil_append] at hfile₁ hkey
    rw [hlookup] at hfile₁
    split at hfile₁
    · cases hfile₁
    · next hdiffers =>
      have hthere' : b.tree.lookup names' ≠ none := by
        rw [hfile₁]
        simp
      rw [relativeKey_eq (hb.named.noBackslash names' hthere')] at hkey
      exact hdiffers (pathText_inj hne hne' hplain (hb.named.plain names' hthere') hkey).symm

end

/-! ## Runs -/

/-- A put that succeeds, with the state that it leads to. -/
theorem put_of_succeeds {mime : MimeGuess} {b : FilesystemBackend} {host : Host} {path : String}
    {data : Bytes} {contentType : Option String}
    (h : Succeeds mime b (host, .put path data contentType)) :
    ∃ m, b.put mime host path data contentType =
      (.ok m, b.step mime (host, .put path data contentType)) := by
  have hok : (b.put mime host path data contentType).1.isOk = true := h
  cases hput : b.put mime host path data contentType with
  | mk result b' =>
  rw [hput] at hok
  cases result with
  | error e => cases hok
  | ok m =>
    refine ⟨m, congrArg (Prod.mk (Except.ok m)) ?_⟩
    exact (congrArg Prod.snd hput).symm

theorem delete_of_succeeds {mime : MimeGuess} {b : FilesystemBackend} {host : Host} {path : String}
    (h : Succeeds mime b (host, .delete path)) :
    ∃ r, b.delete host path = (.ok r, b.step mime (host, .delete path)) := by
  have hok : (b.delete host path).1.isOk = true := h
  cases hdelete : b.delete host path with
  | mk result b' =>
  rw [hdelete] at hok
  cases result with
  | error e => cases hok
  | ok r =>
    refine ⟨r, congrArg (Prod.mk (Except.ok r)) ?_⟩
    exact (congrArg Prod.snd hdelete).symm

theorem settled_step {mime : MimeGuess} {b : FilesystemBackend} {e : Host × Op} (hb : Settled b)
    (hok : Succeeds mime b e) (hk : KeepsTable b e) : Settled (b.step mime e) := by
  obtain ⟨host, op⟩ := e
  cases op with
  | put path data contentType =>
    obtain ⟨m, hput⟩ := put_of_succeeds hok
    exact settled_put hb hput hk
  | delete path =>
    obtain ⟨r, hdelete⟩ := delete_of_succeeds hok
    exact settled_delete hb hdelete hk
  | get path => exact hb
  | head path => exact hb
  | list pre => exact hb

theorem keeps_of_step {mime : MimeGuess} {b : FilesystemBackend} {e : Host × Op} (hb : Settled b)
    (hok : Succeeds mime b e) (hsame : ReopensSame mime (b.step mime e)) : KeepsTable b e := by
  obtain ⟨host, op⟩ := e
  cases op with
  | put path data contentType =>
    obtain ⟨m, hput⟩ := put_of_succeeds hok
    exact keeps_of_put hb hput hsame
  | delete path =>
    obtain ⟨r, hdelete⟩ := delete_of_succeeds hok
    exact keeps_of_delete hb hdelete hsame
  | get path => trivial
  | head path => trivial
  | list pre => trivial

/-- In a run of calls that succeed, on a store opened on a well-named directory, opening the store
    again after any of them changes no answer if and only if the first opening left an entry of the
    right length for each file and for nothing else, and every call meets `KeepsTable`. The first
    opening leaves that where every question about a file is answered. -/
theorem reopening_unnoticed_iff (mime : MimeGuess) (host : OpenHost) (tree : FileTree Content)
    (stored : Option MetadataTable) (b : FilesystemBackend) (hn : WellNamed tree)
    (hopen : FilesystemBackend.openAt mime host tree stored = .ok b) (calls : List (Host × Op))
    (hok : Along (FilesystemBackend.step mime) (Succeeds mime) b calls) :
    ((∀ pre, pre <+: calls → ReopensSame mime (run (FilesystemBackend.step mime) b pre)) ↔
      Matching b ∧ Along (FilesystemBackend.step mime) KeepsTable b calls) ∧
      (host.reconcile.Answers → Matching b) := by
  obtain ⟨hnamed, hholds, table, hdb⟩ := opened_of_openAt hn hopen
  have hthroughout (hmatching : Matching b) :=
    seen_throughout_iff Settled (ReopensSame mime) ⟨hnamed, hholds, hmatching⟩
      (fun _ hb => hb.reopensSame mime) (fun _ _ hb hok hk => settled_step hb hok hk)
      (fun _ _ hb hok hsame => keeps_of_step hb hok hsame) hok
  refine ⟨⟨fun hsame => ?_, fun ⟨hmatching, hkeeps⟩ => (hthroughout hmatching).mpr hkeeps⟩,
    fun hanswers => (settled_of_openAt hn hanswers hopen).matching⟩
  have hmatching : Matching b := matching_of_reopensSame (hsame [] List.nil_prefix) hnamed hdb
    ((hholds databasePath).mpr rfl)
  exact ⟨hmatching, (hthroughout hmatching).mp hsame⟩

/-- A new store. -/
theorem openAt_empty (mime : MimeGuess) (now : Nat) :
    FilesystemBackend.openAt mime (.willing now) .empty none = .ok .openEmpty := rfl

/-- A file that is written twice, one below a directory, and one that is removed. -/
theorem reopening_unnoticed_plain_run :
    ReopensSame (fun _ => none) (run (FilesystemBackend.step fun _ => none) .openEmpty
      [(.willing 1, .put "a.txt" [1] none), (.willing 2, .put "a.txt" [] none),
        (.willing 3, .put "logs/b" [2] none), (.willing 4, .delete "a.txt")]) := by
  have hput : ∀ (b : FilesystemBackend) (now : Nat) (path : String) (data : Bytes)
      (names : List String), validatePath path = .ok names → pathText names = path →
      (∀ name ∈ names, skipped name = false ∧ '\\' ∉ name.toList) →
      KeepsTable b (.willing now, .put path data none) := by
    intro b now path data names hvalid htext hshown names' hvalid'
    obtain rfl := names_unique hvalid hvalid'
    exact ⟨htext, hshown⟩
  obtain ⟨hiff, hmatching⟩ := reopening_unnoticed_iff (fun _ => none) (.willing 0) .empty none
    .openEmpty wellNamed_empty (openAt_empty _ 0)
    [(.willing 1, .put "a.txt" [1] none), (.willing 2, .put "a.txt" [] none),
      (.willing 3, .put "logs/b" [2] none), (.willing 4, .delete "a.txt")] (by decide)
  refine hiff.mpr ⟨hmatching (OpenHost.willing_answers 0),
      hput _ 1 "a.txt" [1] ["a.txt"] (by decide) (by decide) (by decide),
      hput _ 2 "a.txt" [] ["a.txt"] (by decide) (by decide) (by decide),
      hput _ 3 "logs/b" [2] ["logs", "b"] (by decide) (by decide) (by decide), ?_, trivial⟩
    _ (List.prefix_refl _)
  intro names hvalid
  rw [show validatePath "a.txt" = .ok ["a.txt"] by decide] at hvalid
  cases hvalid
  exact ⟨fun hno => absurd hno (by decide), fun _ _ _ => ⟨by decide, fun _ => by decide⟩⟩

/-- An object whose name ends in `.lock` is stored, and its metadata are gone after the store was
    opened again. -/
theorem lock_file_forgotten :
    Succeeds (fun _ => none) .openEmpty (.willing 1, .put "jobs.lock" [1] (some "text/plain")) ∧
      ¬ ReopensSame (fun _ => none) (run (FilesystemBackend.step fun _ => none) .openEmpty
        [(.willing 1, .put "jobs.lock" [1] (some "text/plain"))]) := by
  have hok : Succeeds (fun _ => none) .openEmpty
      (.willing 1, .put "jobs.lock" [1] (some "text/plain")) := by decide
  refine ⟨hok, fun hsame => ?_⟩
  have hsettled := settled_of_openAt wellNamed_empty (OpenHost.willing_answers 0)
    (openAt_empty (fun _ => none) 0)
  have hkeeps := keeps_of_step hsettled hok hsame
  have hshown := (hkeeps ["jobs.lock"] (by decide)).2 "jobs.lock" List.mem_cons_self
  exact absurd hshown.1 (by decide)

end Mik.Storage
