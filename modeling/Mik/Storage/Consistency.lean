/-
  The metadata table and the object files of the filesystem backend.

  A file lies at the normalised path and its entry under the path as written, so two spellings of
  one path share a file and have an entry each. The table is an index of the files in the sense
  of `Mik.Lib.Paired`, with `validate_path` as the resolution of keys, and what each call does to
  the two sides is one of the index operations there. `consistency_iff` says in which runs the
  two agree throughout.
-/
import Mik.Lib.Index
import Mik.Storage.Filesystem

namespace Mik.Storage

open Mik.Lib Function

/-- The size of the object file at a location. -/
def objectSize (t : FileTree Content) (names : List String) : Option Nat :=
  match t.lookup names with
  | some (.file (.object data)) => some data.length
  | _ => none

/-- The size a path is recorded with. -/
def MetadataTable.recorded (table : MetadataTable) (path : String) : Option Nat :=
  (table.lookup path).map ObjectMeta.size

/-- Keys of the table and object files correspond one to one, with the sizes recorded. -/
def Consistent (b : FilesystemBackend) : Prop :=
  ∃ table, b.db = some table ∧ Paired resolve (objectSize b.tree) table.recorded

/-! ## The two sides after an operation -/

theorem objectSize_object {t : FileTree Content} {names : List String} {data : Bytes}
    (h : t.lookup names = some (.file (.object data))) :
    objectSize t names = some data.length := by
  unfold objectSize
  rw [h]

theorem objectSize_eq_none {t : FileTree Content} {names : List String}
    (h : ∀ data, t.lookup names ≠ some (.file (.object data))) : objectSize t names = none := by
  unfold objectSize
  split
  · next data hfile => exact absurd hfile (h data)
  · rfl

theorem objectSize_congr {t t' : FileTree Content}
    (h : ∀ names content, t'.lookup names = some (.file content) ↔
      t.lookup names = some (.file content)) : objectSize t' = objectSize t := by
  funext names
  unfold objectSize
  cases hn : t.lookup names with
  | none =>
    cases hn' : t'.lookup names with
    | none => rfl
    | some node =>
      cases node with
      | dir => rfl
      | file content =>
        rw [(h names content).mp hn'] at hn
        cases hn
  | some node =>
    cases node with
    | file content => rw [(h names content).mpr hn]
    | dir =>
      cases hn' : t'.lookup names with
      | none => rfl
      | some node' =>
        cases node' with
        | dir => rfl
        | file content =>
          rw [(h names content).mp hn'] at hn
          cases hn

theorem objectSize_write {t t' : FileTree Content} {names : List String} {bytes : Bytes}
    (h : t.write names (.object bytes) = some t') :
    objectSize t' = update (objectSize t) names (some bytes.length) := by
  funext names'
  unfold objectSize
  rw [FileTree.lookup_write h]
  by_cases heq : names' = names
  · rw [if_pos heq, heq, update_self]
  · rw [if_neg heq, update_of_ne heq]

theorem objectSize_remove {t t' : FileTree Content} {names : List String}
    (h : ∀ names', t'.lookup names' = if names' = names then none else t.lookup names') :
    objectSize t' = update (objectSize t) names none := by
  funext names'
  unfold objectSize
  rw [h]
  by_cases heq : names' = names
  · rw [if_pos heq, heq, update_self]
  · rw [if_neg heq, update_of_ne heq]

theorem recorded_save (table : MetadataTable) (m : ObjectMeta) :
    (table.save m).recorded = update table.recorded m.path (some m.size) := by
  funext path
  unfold MetadataTable.recorded
  rw [MetadataTable.lookup_save]
  by_cases heq : path = m.path
  · rw [if_pos heq, heq, update_self]
    rfl
  · rw [if_neg heq, update_of_ne heq]

theorem recorded_remove (table : MetadataTable) (path : String) :
    (table.remove path).recorded = update table.recorded path none := by
  funext path'
  unfold MetadataTable.recorded
  rw [MetadataTable.lookup_remove]
  by_cases heq : path' = path
  · rw [if_pos heq, heq, update_self]
    rfl
  · rw [if_neg heq, update_of_ne heq]

/-! ## What a put does -/

/-- A put gets as far as opening the file at `names`, and leaves `bytes` there. -/
structure Touches (b : FilesystemBackend) (host : Host) (path : String) (data : Bytes)
    (names : List String) (bytes : Bytes) : Prop where
  valid : validatePath path = .ok names
  parent : (FileTree.createDirAll host.mkdirLimit [] names.dropLast b.tree).1 = true
  notDir : (FileTree.createDirAll host.mkdirLimit [] names.dropLast b.tree).2.lookup names ≠
    some .dir
  written : host.write.written data = some bytes

/-- The put went through to the end. -/
def Host.commits (host : Host) : Prop := host.write = .complete ∧ host.txn = none

instance (host : Host) : Decidable host.commits := inferInstanceAs (Decidable (_ ∧ _))

/-- The database after a put that wrote the file at `names`. -/
def dbAfterPut (b : FilesystemBackend) (host : Host) (names : List String) (m : ObjectMeta) :
    Option MetadataTable :=
  if b.tree.lookup names = some (.file .database) then none
  else if host.commits then b.db.map fun table => table.save m
  else b.db

/-- What a put answers and leaves that opened the file. -/
theorem put_of_write {mime : MimeGuess} {b : FilesystemBackend} {host : Host} {path : String}
    {data : Bytes} {contentType : Option String} {names : List String} {bytes : Bytes}
    {tree tree' : FileTree Content} (hvalid : validatePath path = .ok names)
    (hdirs : FileTree.createDirAll host.mkdirLimit [] names.dropLast b.tree = (true, tree))
    (hwritten : host.write.written data = some bytes)
    (hwrite : tree.write names (.object bytes) = some tree')
    (hdatabase : tree.lookup names = some (.file .database) ↔
      b.tree.lookup names = some (.file .database)) :
    ((∃ e, (b.put mime host path data contentType).1 = .error e) ↔ ¬ host.commits) ∧
      (b.put mime host path data contentType).2 =
        ⟨tree', dbAfterPut b host names
          ⟨path, data.length, contentTypeOf mime names contentType, host.now, host.now⟩⟩ := by
  unfold dbAfterPut Host.commits
  simp only [FilesystemBackend.put, hvalid, hdirs, FilesystemBackend.writeObject, hwritten, hwrite,
    hdatabase]
  by_cases hcomplete : host.write = .complete
  · by_cases htxn : host.txn = none
    · by_cases hdb : b.tree.lookup names = some (.file .database)
      · simp [hcomplete, FilesystemBackend.saveMetadata, htxn, hdb]
      · simp [hcomplete, FilesystemBackend.saveMetadata, htxn, hdb]
    · obtain ⟨stage, hstage⟩ := Option.ne_none_iff_exists'.mp htxn
      simp [hcomplete, FilesystemBackend.saveMetadata, hstage]
  · simp [hcomplete]

/-- A put that does not open the file fails, and may have made directories; one that does has
    written the file, and the table as the database allows. -/
theorem put_state (mime : MimeGuess) (b : FilesystemBackend) (host : Host) (data : Bytes)
    (contentType : Option String) {path : String} {names : List String}
    (hvalid : validatePath path = .ok names) :
    ((∀ bytes, ¬ Touches b host path data names bytes) ∧
        (∃ e, (b.put mime host path data contentType).1 = .error e) ∧
        (b.put mime host path data contentType).2 = { b with
          tree := (FileTree.createDirAll host.mkdirLimit [] names.dropLast b.tree).2 }) ∨
      ∃ bytes tree m, Touches b host path data names bytes ∧ m.path = path ∧
        m.size = data.length ∧
        (FileTree.createDirAll host.mkdirLimit [] names.dropLast b.tree).2.write names
          (.object bytes) = some tree ∧
        ((∃ e, (b.put mime host path data contentType).1 = .error e) ↔ ¬ host.commits) ∧
        (b.put mime host path data contentType).2 = ⟨tree, dbAfterPut b host names m⟩ := by
  have hdatabase := FileTree.createDirAll_file_iff host.mkdirLimit [] names.dropLast b.tree
    names .database
  cases hdirs : FileTree.createDirAll host.mkdirLimit [] names.dropLast b.tree with
  | mk made tree =>
  rw [hdirs] at hdatabase
  cases made with
  | false =>
    refine Or.inl ⟨fun bytes ht => ?_, ?_⟩
    · have hparent := ht.parent
      rw [hdirs] at hparent
      cases hparent
    · simp [FilesystemBackend.put, hvalid, hdirs]
  | true =>
    cases hwritten : host.write.written data with
    | none =>
      refine Or.inl ⟨fun bytes ht => ?_, ?_⟩
      · have hbytes := ht.written
        rw [hwritten] at hbytes
        cases hbytes
      · simp [FilesystemBackend.put, hvalid, hdirs, FilesystemBackend.writeObject, hwritten]
    | some bytes =>
      cases hwrite : tree.write names (.object bytes) with
      | none =>
        refine Or.inl ⟨fun bytes' ht => ?_, ?_⟩
        · have hne := names_ne_nil hvalid
          have hparent := @FileTree.createDirAll_dir _ _ host.mkdirLimit [] names.dropLast b.tree
            rfl ht.parent
          have hnotDir := ht.notDir
          rw [hdirs] at hparent hnotDir
          have hsome := (FileTree.isSome_write (.object bytes)).mpr ⟨hne, hparent, hnotDir⟩
          rw [hwrite] at hsome
          cases hsome
        · simp [FilesystemBackend.put, hvalid, hdirs, FilesystemBackend.writeObject, hwritten,
            hwrite]
      | some tree' =>
        have hnotDir := ((FileTree.isSome_write _).mp (Option.isSome_of_eq_some hwrite)).2.2
        exact Or.inr ⟨bytes, tree',
          ⟨path, data.length, contentTypeOf mime names contentType, host.now, host.now⟩,
          ⟨hvalid, by rw [hdirs], by rw [hdirs]; exact hnotDir, hwritten⟩, rfl, rfl, hwrite,
          put_of_write hvalid hdirs hwritten hwrite hdatabase⟩

/-- A put that does not touch the file leaves all objects alone; one that does changes that file,
    and the table as the database allows. -/
theorem put_cases (mime : MimeGuess) (b : FilesystemBackend) (host : Host) (path : String)
    (data : Bytes) (contentType : Option String) :
    ((∀ names bytes, ¬ Touches b host path data names bytes) ∧
        objectSize (b.put mime host path data contentType).2.tree = objectSize b.tree ∧
        (b.put mime host path data contentType).2.db = b.db) ∨
      ∃ names bytes m, Touches b host path data names bytes ∧ m.path = path ∧
        m.size = data.length ∧
        objectSize (b.put mime host path data contentType).2.tree =
          update (objectSize b.tree) names (some bytes.length) ∧
        (b.put mime host path data contentType).2.db = dbAfterPut b host names m := by
  cases hvalid : validatePath path with
  | error e =>
    refine Or.inl ⟨fun names bytes ht => ?_, ?_⟩
    · rw [ht.valid] at hvalid
      cases hvalid
    · simp only [FilesystemBackend.put, hvalid, and_self]
  | ok names =>
    have hsame : objectSize (FileTree.createDirAll host.mkdirLimit [] names.dropLast b.tree).2 =
        objectSize b.tree :=
      objectSize_congr fun names' content => FileTree.createDirAll_file_iff ..
    rcases put_state mime b host data contentType hvalid with
      ⟨hnot, -, hstate⟩ | ⟨bytes, tree, m, ht, hmpath, hmsize, hwrite, -, hstate⟩
    · refine Or.inl ⟨fun names' bytes ht => ?_, by rw [hstate, hsame], by rw [hstate]⟩
      have hnames := ht.valid
      rw [hvalid] at hnames
      cases hnames
      exact hnot bytes ht
    · refine Or.inr ⟨names, bytes, m, ht, hmpath, hmsize, ?_, by rw [hstate]⟩
      rw [hstate, objectSize_write hwrite, hsame]

/-! ## What a delete does -/

/-- The database after a delete that got as far as its metadata. -/
def dbAfterDelete (b : FilesystemBackend) (host : Host) (path : String) : Option MetadataTable :=
  if host.txn = none then b.db.map fun table => table.remove path else b.db

theorem delete_of_absent {b : FilesystemBackend} {host : Host} {path : String}
    {names : List String} (hvalid : validatePath path = .ok names)
    (hfind : b.find host names = none) :
    (b.delete host path).2 = { b with db := dbAfterDelete b host path } := by
  unfold dbAfterDelete
  simp only [FilesystemBackend.delete, hvalid, hfind, FilesystemBackend.removeMetadata]
  cases htxn : host.txn with
  | none => rfl
  | some stage => rfl

theorem delete_of_file {b : FilesystemBackend} {host : Host} {path : String}
    {names : List String} {content : Content} (hvalid : validatePath path = .ok names)
    (hstat : host.stat = true) (hremove : host.remove = true)
    (hfile : b.tree.lookup names = some (.file content)) :
    ∃ tree, ((∃ e, (b.delete host path).1 = .error e) ↔ host.txn ≠ none) ∧
      (b.delete host path).2 = ⟨tree, dbAfterDelete b host path⟩ ∧
      ∀ names', tree.lookup names' = if names' = names then none else b.tree.lookup names' := by
  obtain ⟨tree, htree, hlookup⟩ := FileTree.removeFile_of_file hfile
  unfold dbAfterDelete
  simp only [FilesystemBackend.delete, hvalid, FilesystemBackend.find, hstat, if_true, hfile,
    hremove, htree, FilesystemBackend.removeMetadata]
  cases htxn : host.txn with
  | none => exact ⟨tree, by simp, rfl, hlookup⟩
  | some stage => exact ⟨tree, by simp, rfl, hlookup⟩

theorem delete_of_kept {b : FilesystemBackend} {host : Host} {path : String}
    {names : List String} {node : Node Content} (hvalid : validatePath path = .ok names)
    (hfind : b.find host names = some node)
    (hkept : host.remove = false ∨ b.tree.lookup names = some .dir) :
    (b.delete host path).2 = b := by
  have hnone : (if host.remove then b.tree.removeFile names else none) = none := by
    rcases hkept with hremove | hdir
    · rw [hremove]
      rfl
    · rw [FileTree.removeFile_of_not_file (by rw [hdir]; simp), ite_self]
  simp only [FilesystemBackend.delete, hvalid, hfind, hnone]

/-! ## When a call keeps the two sides together -/

/-- The size a path is recorded with, in a database that can be read. -/
def FilesystemBackend.recorded (b : FilesystemBackend) (path : String) : Option Nat :=
  b.db.bind fun table => table.recorded path

theorem recorded_of_db {b : FilesystemBackend} {table : MetadataTable} (hdb : b.db = some table)
    (path : String) : b.recorded path = table.recorded path := by
  unfold FilesystemBackend.recorded
  rw [hdb]
  rfl

/-- The condition on a call and the state before it. A put that touches a file spares the database,
    and either commits with no other spelling of that file in the table, or stops short where the
    entry of the file already has the size the file now has. A delete that removes an object is
    given the spelling of its entry and commits; one whose existence check fails is not given the
    spelling of any entry. -/
def KeepsPairing (b : FilesystemBackend) : Host × Op → Prop
  | (host, .put path data _) => ∀ names bytes, Touches b host path data names bytes →
      b.tree.lookup names ≠ some (.file .database) ∧
      if host.commits then
        ∀ path', b.recorded path' ≠ none → resolve path' = some names → path' = path
      else ∃ path', b.recorded path' = some bytes.length ∧ resolve path' = some names
  | (host, .delete path) => ∀ names, validatePath path = .ok names →
      (host.stat = false → host.txn = none → b.recorded path = none) ∧
      (host.stat = true → host.remove = true → objectSize b.tree names ≠ none →
        host.txn = none ∧ b.recorded path ≠ none)
  | _ => True

/-- The state after a call. -/
def FilesystemBackend.step (mime : MimeGuess) (b : FilesystemBackend) (e : Host × Op) :
    FilesystemBackend := (b.call mime e.1 e.2).2

theorem consistent_put_iff (mime : MimeGuess) {b : FilesystemBackend} (h : Consistent b)
    (host : Host) (path : String) (data : Bytes) (contentType : Option String) :
    Consistent (b.put mime host path data contentType).2 ↔
      KeepsPairing b (host, .put path data contentType) := by
  obtain ⟨table, hdb, hpaired⟩ := h
  rcases put_cases mime b host path data contentType with
    ⟨hnot, hobjects, hdb'⟩ | ⟨names, bytes, m, ht, hmpath, hmsize, hobjects, hdb'⟩
  · unfold Consistent
    rw [hobjects, hdb']
    exact ⟨fun _ names bytes ht => absurd ht (hnot names bytes), fun _ => ⟨table, hdb, hpaired⟩⟩
  · have hresolve : resolve path = some names := resolve_eq_some_iff.mpr ht.valid
    -- a put touches one file only
    have hcondition : KeepsPairing b (host, .put path data contentType) ↔
        b.tree.lookup names ≠ some (.file .database) ∧
        if host.commits then
          ∀ path', table.recorded path' ≠ none → resolve path' = some names → path' = path
        else ∃ path', table.recorded path' = some bytes.length ∧ resolve path' = some names := by
      simp only [← recorded_of_db hdb]
      constructor
      · intro hk
        exact hk names bytes ht
      · intro hk names' bytes' ht'
        have hb := ht'.written
        rw [ht.written] at hb
        obtain rfl := names_unique ht.valid ht'.valid
        cases hb
        exact hk
    rw [hcondition]
    unfold Consistent
    rw [hobjects, hdb']
    unfold dbAfterPut
    by_cases hdatabase : b.tree.lookup names = some (.file .database)
    · rw [if_pos hdatabase]
      refine ⟨?_, fun hk => absurd hdatabase hk.1⟩
      rintro ⟨t, hnone, -⟩
      cases hnone
    · rw [if_neg hdatabase]
      by_cases hcommits : host.commits
      · have hbytes : bytes = data := by
          have := ht.written
          rw [hcommits.1] at this
          exact (Option.some.inj this).symm
        rw [if_pos hcommits, if_pos hcommits, hdb, hbytes,
          ← hpaired.write_both_iff hresolve data.length]
        simp only [Option.map_some, Option.some.injEq, exists_eq_left', recorded_save, hmpath,
          hmsize, ne_eq, hdatabase, not_false_eq_true, true_and]
      · rw [if_neg hcommits, if_neg hcommits, hdb, ← hpaired.write_store_iff]
        simp only [Option.some.injEq, exists_eq_left', ne_eq, hdatabase, not_false_eq_true,
          true_and]

/-- Taking the entry of a path away, when its file is not touched. -/
theorem paired_dbAfterDelete_iff {b : FilesystemBackend} {table : MetadataTable}
    (hdb : b.db = some table) (hpaired : Paired resolve (objectSize b.tree) table.recorded)
    (host : Host) (path : String) :
    (∃ t, dbAfterDelete b host path = some t ∧
        Paired resolve (objectSize b.tree) t.recorded) ↔
      (host.txn = none → table.recorded path = none) := by
  unfold dbAfterDelete
  by_cases htxn : host.txn = none
  · rw [if_pos htxn, hdb]
    simp only [Option.map_some, Option.some.injEq, exists_eq_left', recorded_remove,
      hpaired.remove_index_iff, htxn, true_imp_iff]
  · rw [if_neg htxn]
    exact ⟨fun _ hno => absurd hno htxn, fun _ => ⟨table, hdb, hpaired⟩⟩

theorem consistent_delete_iff {b : FilesystemBackend} (h : Consistent b) (host : Host)
    (path : String) : Consistent (b.delete host path).2 ↔ KeepsPairing b (host, .delete path) := by
  have hconsistent := h
  obtain ⟨table, hdb, hpaired⟩ := h
  unfold KeepsPairing
  simp only [recorded_of_db hdb]
  cases hvalid : validatePath path with
  | error e =>
    simp only [FilesystemBackend.delete, hvalid, hconsistent, true_iff]
    intro names hnames
    cases hnames
  | ok names =>
    have hresolve : resolve path = some names := resolve_eq_some_iff.mpr hvalid
    have hindex := paired_dbAfterDelete_iff hdb hpaired host path
    simp only [Except.ok.injEq, forall_eq']
    cases hstat : host.stat with
    | false =>
      have hfind : b.find host names = none := by
        unfold FilesystemBackend.find
        rw [hstat]
        rfl
      rw [delete_of_absent hvalid hfind]
      unfold Consistent
      rw [hindex]
      simp
    | true =>
      have hfind : b.find host names = b.tree.lookup names := by
        unfold FilesystemBackend.find
        rw [hstat]
        rfl
      cases hnode : b.tree.lookup names with
      | none =>
        have hobject : objectSize b.tree names = none := objectSize_eq_none (by simp [hnode])
        rw [delete_of_absent hvalid (hfind.trans hnode)]
        unfold Consistent
        rw [hindex]
        simp [hobject, hpaired.index_eq_none hresolve hobject]
      | some node =>
        cases hremove : host.remove with
        | false =>
          rw [delete_of_kept hvalid (hfind.trans hnode) (Or.inl hremove)]
          simp [hconsistent]
        | true =>
          cases node with
          | dir =>
            have hobject : objectSize b.tree names = none := objectSize_eq_none (by simp [hnode])
            rw [delete_of_kept hvalid (hfind.trans hnode) (Or.inr hnode)]
            simp [hconsistent, hobject]
          | file content =>
            obtain ⟨tree, -, hstate, hlookup⟩ := delete_of_file hvalid hstat hremove hnode
            rw [hstate]
            unfold Consistent
            rw [objectSize_remove hlookup]
            cases content with
            | database =>
              have hobject : objectSize b.tree names = none := objectSize_eq_none (by simp [hnode])
              have hsame : update (objectSize b.tree) names none = objectSize b.tree := by
                rw [update_eq_self_iff]
                exact hobject.symm
              rw [hsame, hindex]
              simp [hobject, hpaired.index_eq_none hresolve hobject]
            | object data =>
              have hobject := objectSize_object hnode
              unfold dbAfterDelete
              by_cases htxn : host.txn = none
              · rw [if_pos htxn, hdb]
                simp [recorded_remove, hpaired.remove_both_iff hresolve hobject, htxn, hobject]
              · rw [if_neg htxn, hdb]
                simp [hpaired.not_remove_store hobject, htxn, hobject]

theorem consistent_step_iff (mime : MimeGuess) {b : FilesystemBackend} (h : Consistent b)
    (e : Host × Op) : Consistent (b.step mime e) ↔ KeepsPairing b e := by
  obtain ⟨host, op⟩ := e
  cases op with
  | put path data contentType => exact consistent_put_iff mime h host path data contentType
  | delete path => exact consistent_delete_iff h host path
  | get path => exact ⟨fun _ => trivial, fun _ => h⟩
  | head path => exact ⟨fun _ => trivial, fun _ => h⟩
  | list pre => exact ⟨fun _ => trivial, fun _ => h⟩

/-! ## Listing -/

theorem mem_listed {table : MetadataTable} {m : ObjectMeta} :
    m ∈ listed table.entries.entries none ↔ table.lookup m.path = some m := by
  unfold listed
  rw [List.mem_insertionSort]
  simp only [Option.map_none, Option.getD_none, List.filter_true, List.mem_map]
  constructor
  · rintro ⟨⟨path, m'⟩, hmem, rfl⟩
    have hlookup : table.lookup path = some m' := AList.mem_lookup_iff.mpr hmem
    rw [table.own_path path m' hlookup]
    exact hlookup
  · intro hlookup
    exact ⟨⟨m.path, m⟩, AList.mem_lookup_iff.mp hlookup, rfl⟩

theorem nodup_listed (table : MetadataTable) : (listed table.entries.entries none).Nodup := by
  unfold listed
  rw [(List.perm_insertionSort _ _).nodup_iff]
  simp only [Option.map_none, Option.getD_none, List.filter_true]
  -- the keys are distinct, and every entry has its key as path
  refine List.Nodup.of_map ObjectMeta.path ?_
  have hkeys : (table.entries.entries.map Sigma.snd).map ObjectMeta.path = table.entries.keys := by
    unfold AList.keys List.keys
    rw [List.map_map]
    apply List.map_congr_left
    rintro ⟨path, m⟩ hmem
    exact table.own_path path m (AList.mem_lookup_iff.mpr hmem)
  rw [hkeys]
  exact table.entries.keys_nodup

/-- `list` returns every stored object once, with its size, and nothing else. -/
def ListsOnce (b : FilesystemBackend) : Prop :=
  ∀ host, host.txn = none → ∃ objects, b.list host none = .ok objects ∧ objects.Nodup ∧
    (∀ m ∈ objects, ∃ names, resolve m.path = some names ∧
      objectSize b.tree names = some m.size) ∧
    ∀ names, objectSize b.tree names ≠ none → ∃! m, m ∈ objects ∧ resolve m.path = some names

theorem Consistent.listsOnce {b : FilesystemBackend} (h : Consistent b) : ListsOnce b := by
  obtain ⟨table, hdb, hpaired⟩ := h
  intro host htxn
  refine ⟨listed table.entries.entries none, ?_, nodup_listed table, ?_, ?_⟩
  · unfold FilesystemBackend.list
    rw [htxn, hdb]
    rfl
  · intro m hm
    refine hpaired.resolves m.path m.size ?_
    unfold MetadataTable.recorded
    rw [mem_listed.mp hm]
    rfl
  · intro names hobject
    obtain ⟨size, hsize⟩ := Option.ne_none_iff_exists'.mp hobject
    obtain ⟨path, hrecorded, hresolve⟩ := hpaired.keyed names size hsize
    obtain ⟨m, hm, -⟩ := Option.map_eq_some_iff.mp hrecorded
    have hpath := table.own_path path m hm
    refine ⟨m, ⟨mem_listed.mpr (by rw [hpath]; exact hm), by rw [hpath]; exact hresolve⟩, ?_⟩
    rintro m' ⟨hm', hresolve'⟩
    have hlookup' := mem_listed.mp hm'
    have hsame : m'.path = path := by
      refine hpaired.unique m'.path path names ?_ ?_ hresolve' hresolve
      · unfold MetadataTable.recorded
        rw [hlookup']
        simp
      · rw [hrecorded]
        simp
    rw [hsame, hm] at hlookup'
    exact (Option.some.inj hlookup').symm

/-! ## Runs -/

/-- Consistency over whole runs, with every call succeeding or failing as its host lets it: after
    every call the table and the object files correspond one to one and `list` returns each object
    once, if and only if every call of the run meets `KeepsPairing`. -/
theorem consistency_iff (mime : MimeGuess) (b : FilesystemBackend) (hb : Consistent b)
    (calls : List (Host × Op)) :
    (∀ pre, pre <+: calls → Consistent (run (FilesystemBackend.step mime) b pre) ∧
        ListsOnce (run (FilesystemBackend.step mime) b pre)) ↔
      Along (FilesystemBackend.step mime) KeepsPairing b calls := by
  rw [← good_throughout_iff (fun _ => True) Consistent trivial hb (fun _ _ _ => trivial)
    (fun b e _ h => consistent_step_iff mime h e)]
  apply forall_congr'
  intro pre
  apply imp_congr_right
  intro _
  exact ⟨fun h => h.1, fun h => ⟨h, h.listsOnce⟩⟩

theorem consistent_openEmpty : Consistent .openEmpty := by
  have hnone : ∀ names, objectSize FilesystemBackend.openEmpty.tree names = none := by
    intro names
    have hlookup := @FileTree.lookup_write _ _ FileTree.empty FilesystemBackend.openEmpty.tree
      ["metadata.redb"] Content.database rfl names
    refine objectSize_eq_none fun data hfile => ?_
    rw [hlookup] at hfile
    split at hfile
    · cases hfile
    · exact absurd hfile (FileTree.lookup_empty_file names _)
  have hempty : ∀ path, MetadataTable.empty.recorded path = none := fun path => rfl
  refine ⟨.empty, rfl, fun path size h => ?_, fun names size h => ?_, fun path _ _ h => ?_⟩
  · rw [hempty] at h
    cases h
  · rw [hnone] at h
    cases h
  · exact absurd (hempty path) h

/-- Two spellings of one path: one file, two entries, the older one with a size that is not the
    file's. -/
theorem two_spellings_one_file :
    ¬ Consistent (run (FilesystemBackend.step fun _ => none) .openEmpty
      [(.willing 0, .put "a" [1] none), (.willing 1, .put "./a" [1, 2] none)]) := by
  rintro ⟨table, hdb, hpaired⟩
  have hsame := hpaired.unique "a" "./a" ["a"] (by rw [← recorded_of_db hdb]; decide)
    (by rw [← recorded_of_db hdb]; decide) (by decide) (by decide)
  exact absurd hsame (by decide)

/-- A put, a put under a name below it that the system refuses, a put elsewhere and a delete. -/
theorem consistency_iff_plain_run :
    Consistent .openEmpty ∧
      ∀ pre, pre <+: [(Host.willing 0, Op.put "a" [1] none), (.willing 1, .put "a/b" [2] none),
          (.willing 2, .put "c/d" [1, 2] none), (.willing 3, .delete "a")] →
        Consistent (run (FilesystemBackend.step fun _ => none) .openEmpty pre) ∧
          ListsOnce (run (FilesystemBackend.step fun _ => none) .openEmpty pre) := by
  -- with a willing host it is enough to look at the keys of the table
  have hput : ∀ (b : FilesystemBackend) (now : Nat) (path : String) (data : Bytes)
      (names : List String), validatePath path = .ok names →
      b.tree.lookup names ≠ some (.file .database) →
      (∀ path' ∈ (b.db.map fun table => table.entries.keys).getD [],
        resolve path' = some names → path' = path) →
      KeepsPairing b (.willing now, .put path data none) := by
    intro b now path data names hvalid hdatabase hkeys names' bytes ht
    obtain rfl := names_unique hvalid ht.valid
    refine ⟨hdatabase, ?_⟩
    rw [if_pos ⟨rfl, rfl⟩]
    intro path' hrecorded
    refine hkeys path' ?_
    unfold FilesystemBackend.recorded at hrecorded
    cases hdb : b.db with
    | none =>
      rw [hdb] at hrecorded
      exact absurd rfl hrecorded
    | some table =>
      rw [hdb] at hrecorded
      refine AList.lookup_isSome.mp ?_
      cases hlookup : table.entries.lookup path' with
      | some m => rfl
      | none =>
        refine absurd ?_ hrecorded
        show (table.entries.lookup path').map ObjectMeta.size = none
        rw [hlookup]
        rfl
  refine ⟨consistent_openEmpty,
    (consistency_iff (fun _ => none) .openEmpty consistent_openEmpty _).mpr ?_⟩
  refine ⟨hput _ 0 "a" [1] ["a"] (by decide) (by decide) (by decide), ?_,
    hput _ 2 "c/d" [1, 2] ["c", "d"] (by decide) (by decide) (by decide), ?_, trivial⟩
  · intro names bytes ht
    have hnames := ht.valid
    rw [show validatePath "a/b" = .ok ["a", "b"] by decide] at hnames
    cases hnames
    exact absurd ht.parent (by decide)
  · intro names hvalid
    exact ⟨fun hstat => absurd hstat (by decide), fun _ _ _ => ⟨rfl, by decide⟩⟩

end Mik.Storage
