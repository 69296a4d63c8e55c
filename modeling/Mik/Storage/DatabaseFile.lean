/-
  Objects and the file of the metadata database.

  The database of a backend is the file `metadata.redb` of the directory that the objects lie in,
  and `validate_path` does not know that name. So a path that normalises to it is a spelling of
  the database: `database_untouched_iff` says that `put`, `get` and `delete` leave the file alone
  under every other path, and under none of these. What a call reads of the file shows in the
  answer it gives for different contents of the file.
-/
import Mik.Storage.Filesystem

namespace Mik.Storage

open Mik.Lib

/-- `base_dir.join("metadata.redb")`. -/
def databasePath : List String := ["metadata.redb"]

/-- The database lies in its place, and nowhere else. -/
def HoldsDatabase (b : FilesystemBackend) : Prop :=
  ∀ names, b.tree.lookup names = some (.file .database) ↔ names = databasePath

/-! ## Files under other paths -/

@[simp] theorem saveMetadata_tree (b : FilesystemBackend) (host : Host) (m : ObjectMeta) :
    (b.saveMetadata host m).2.tree = b.tree := by
  unfold FilesystemBackend.saveMetadata
  split <;> rfl

@[simp] theorem removeMetadata_tree (b : FilesystemBackend) (host : Host) (path : String) :
    (b.removeMetadata host path).2.tree = b.tree := by
  unfold FilesystemBackend.removeMetadata
  split <;> rfl

theorem writeObject_elsewhere (b : FilesystemBackend) (host : Host) {names names' : List String}
    (hne : names' ≠ names) (data : Bytes) :
    (b.writeObject host names data).2.tree.lookup names' = b.tree.lookup names' := by
  unfold FilesystemBackend.writeObject
  split
  · rfl
  · split
    · rfl
    · next tree hwrite =>
      show tree.lookup names' = b.tree.lookup names'
      rw [FileTree.lookup_write hwrite, if_neg hne]

/-- A put touches no file but the one at its own path. -/
theorem put_elsewhere (mime : MimeGuess) (b : FilesystemBackend) (host : Host) {path : String}
    {names names' : List String} (hvalid : validatePath path = .ok names) (hne : names' ≠ names)
    (data : Bytes) (contentType : Option String) (content : Content) :
    (b.put mime host path data contentType).2.tree.lookup names' = some (.file content) ↔
      b.tree.lookup names' = some (.file content) := by
  have hdirs := FileTree.createDirAll_file_iff host.mkdirLimit [] names.dropLast b.tree names'
    content
  simp only [FilesystemBackend.put, hvalid]
  cases hmade : FileTree.createDirAll host.mkdirLimit [] names.dropLast b.tree with
  | mk made tree =>
  rw [hmade] at hdirs
  cases made with
  | false => exact hdirs
  | true =>
    have hwritten := writeObject_elsewhere { b with tree := tree } host hne data
    dsimp only
    cases hobject : FilesystemBackend.writeObject { b with tree := tree } host names data with
    | mk ok b' =>
    rw [hobject] at hwritten
    have hfile : b'.tree.lookup names' = some (.file content) ↔
        b.tree.lookup names' = some (.file content) := by
      rw [hwritten]
      exact hdirs
    cases ok with
    | false => exact hfile
    | true =>
      have hsaved := saveMetadata_tree b' host
        ⟨path, data.length, contentTypeOf mime names contentType, host.now, host.now⟩
      dsimp only
      split
      · next hsave =>
        rw [hsave] at hsaved
        rw [hsaved]
        exact hfile
      · next hsave =>
        rw [hsave] at hsaved
        rw [hsaved]
        exact hfile

/-- A delete touches nothing but what is at its own path. -/
theorem delete_elsewhere (b : FilesystemBackend) (host : Host) {path : String}
    {names names' : List String} (hvalid : validatePath path = .ok names)
    (hne : names' ≠ names) :
    (b.delete host path).2.tree.lookup names' = b.tree.lookup names' := by
  simp only [FilesystemBackend.delete, hvalid]
  split
  · have hremoved := removeMetadata_tree b host path
    split
    · next h =>
      rw [h] at hremoved
      rw [hremoved]
    · next h =>
      rw [h] at hremoved
      rw [hremoved]
  · split
    · rfl
    · next tree htree =>
      have hother : tree.lookup names' = b.tree.lookup names' := by
        cases hremove : host.remove with
        | false => simp [hremove] at htree
        | true =>
          rw [hremove, if_pos rfl] at htree
          by_cases hfile : ∃ content, b.tree.lookup names = some (.file content)
          · obtain ⟨content, hcontent⟩ := hfile
            obtain ⟨tree', htree', hlookup⟩ := FileTree.removeFile_of_file hcontent
            rw [htree] at htree'
            rw [Option.some.inj htree', hlookup, if_neg hne]
          · rw [not_exists] at hfile
            rw [FileTree.removeFile_of_not_file hfile] at htree
            cases htree
      have hremoved := removeMetadata_tree { b with tree := tree } host path
      split
      · next h =>
        rw [h] at hremoved
        rw [hremoved]
        exact hother
      · next h =>
        rw [h] at hremoved
        rw [hremoved]
        exact hother

/-- What a call that names an object leaves at other paths. -/
theorem call_elsewhere (mime : MimeGuess) (b : FilesystemBackend) (host : Host) {path : String}
    {names names' : List String} (hvalid : validatePath path = .ok names) (hne : names' ≠ names)
    {op : Op} (hop : op = .get path ∨ op = .delete path ∨
      ∃ data contentType, op = .put path data contentType) (content : Content) :
    (b.call mime host op).2.tree.lookup names' = some (.file content) ↔
      b.tree.lookup names' = some (.file content) := by
  rcases hop with rfl | rfl | ⟨data, contentType, rfl⟩
  · exact Iff.rfl
  · show (b.delete host path).2.tree.lookup names' = some (.file content) ↔ _
    rw [delete_elsewhere b host hvalid hne]
  · exact put_elsewhere mime b host hvalid hne data contentType content

/-! ## The database file -/

/-- Under every host, the call leaves the file of the database where it is, and answers the same
    whatever bytes the file holds. -/
def SparesDatabase (mime : MimeGuess) (b : FilesystemBackend) (op : Op) : Prop :=
  ∀ host, (b.call mime host op).2.tree.lookup databasePath = some (.file .database) ∧
    ∀ image, (b.call mime { host with databaseImage := image } op).1 = (b.call mime host op).1

/-- A read of another file does not depend on the database file. -/
theorem get_elsewhere (mime : MimeGuess) {b : FilesystemBackend} (hb : HoldsDatabase b)
    (host : Host) {path : String} {names : List String} (hvalid : validatePath path = .ok names)
    (hne : names ≠ databasePath) (image : Bytes) :
    b.get mime { host with databaseImage := image } path = b.get mime host path := by
  have hnode : b.tree.lookup names ≠ some (.file .database) := fun h => hne ((hb names).mp h)
  simp only [FilesystemBackend.get, hvalid, FilesystemBackend.find, FilesystemBackend.metaOf,
    FilesystemBackend.loadMetadata]
  cases hstat : host.stat with
  | false => rfl
  | true =>
    cases hlookup : b.tree.lookup names with
    | none => rfl
    | some node =>
      cases node with
      | dir => rfl
      | file content =>
        cases content with
        | object data => rfl
        | database => exact absurd hlookup hnode

/-- Read, overwritten and removed: what the three calls do to the file under its own path. -/
theorem get_database (mime : MimeGuess) {b : FilesystemBackend} (hb : HoldsDatabase b)
    {path : String} (hvalid : validatePath path = .ok databasePath) (host : Host)
    (hstat : host.stat = true) (hread : host.read = true) (hmetadata : host.metadata = true)
    (htxn : host.txn = none) :
    ∃ m, b.get mime host path = .ok (some (host.databaseImage, m)) := by
  have hlookup := (hb databasePath).mpr rfl
  simp only [FilesystemBackend.get, hvalid, FilesystemBackend.find, hstat, if_true, hlookup,
    FilesystemBackend.readObject, hread, Content.bytes, FilesystemBackend.metaOf,
    FilesystemBackend.loadMetadata, htxn, hmetadata]
  cases (b.db.getD host.damaged).lookup path with
  | none => exact ⟨_, rfl⟩
  | some m => exact ⟨m, rfl⟩

theorem put_database (mime : MimeGuess) {b : FilesystemBackend} (hb : HoldsDatabase b)
    {path : String} (hvalid : validatePath path = .ok databasePath) (now : Nat) (data : Bytes)
    (contentType : Option String) :
    (b.put mime (.willing now) path data contentType).2.tree.lookup databasePath =
      some (.file (.object data)) := by
  have hlookup := (hb databasePath).mpr rfl
  have hsome : (b.tree.write databasePath (.object data)).isSome :=
    (FileTree.isSome_write _).mpr ⟨by decide, rfl, by rw [hlookup]; simp⟩
  obtain ⟨tree, hwrite⟩ := Option.isSome_iff_exists.mp hsome
  have hdirs : FileTree.createDirAll (Host.willing now).mkdirLimit [] databasePath.dropLast b.tree =
      (true, b.tree) := rfl
  have hwritten : (Host.willing now).write.written data = some data := rfl
  have htxn : (Host.willing now).txn = none := rfl
  simp only [FilesystemBackend.put, hvalid, hdirs, FilesystemBackend.writeObject, hwritten, hwrite,
    FilesystemBackend.saveMetadata, htxn]
  show tree.lookup databasePath = _
  rw [FileTree.lookup_write hwrite, if_pos rfl]

theorem delete_database {b : FilesystemBackend} (hb : HoldsDatabase b) {path : String}
    (hvalid : validatePath path = .ok databasePath) (now : Nat) :
    (b.delete (.willing now) path).2.tree.lookup databasePath = none := by
  have hlookup := (hb databasePath).mpr rfl
  obtain ⟨tree, htree, hother⟩ := FileTree.removeFile_of_file hlookup
  have hhost : (Host.willing now).stat = true ∧ (Host.willing now).remove = true ∧
      (Host.willing now).txn = none := ⟨rfl, rfl, rfl⟩
  simp only [FilesystemBackend.delete, hvalid, FilesystemBackend.find, hhost.1, if_true, hlookup,
    hhost.2.1, htree, FilesystemBackend.removeMetadata, hhost.2.2]
  show tree.lookup databasePath = none
  rw [hother, if_pos rfl]

/-- `put`, `get` and `delete` neither read, overwrite nor remove the database file, exactly for the
    paths that do not normalise to it. -/
theorem database_untouched_iff (mime : MimeGuess) (b : FilesystemBackend) (hb : HoldsDatabase b)
    (path : String) (names : List String) (hvalid : validatePath path = .ok names) :
    (SparesDatabase mime b (.get path) ↔ names ≠ databasePath) ∧
      (SparesDatabase mime b (.delete path) ↔ names ≠ databasePath) ∧
      ∀ data contentType,
        SparesDatabase mime b (.put path data contentType) ↔ names ≠ databasePath := by
  have hlookup : b.tree.lookup databasePath = some (.file .database) := (hb databasePath).mpr rfl
  have hkept : ∀ op, (op = .get path ∨ op = .delete path ∨
      ∃ data contentType, op = .put path data contentType) → names ≠ databasePath →
      ∀ host, (b.call mime host op).2.tree.lookup databasePath = some (.file .database) := by
    intro op hop hne host
    exact (call_elsewhere mime b host hvalid hne.symm hop .database).mpr hlookup
  refine ⟨⟨?_, ?_⟩, ⟨?_, ?_⟩, fun data contentType => ⟨?_, ?_⟩⟩
  · rintro hspares rfl
    -- two contents of the file, two answers
    obtain ⟨m, hm⟩ := get_database mime hb hvalid (.willing 0) rfl rfl rfl rfl
    obtain ⟨m', hm'⟩ := get_database mime hb hvalid { Host.willing 0 with databaseImage := [0] }
      rfl rfl rfl rfl
    have hsame := Reply.get.inj ((hspares (.willing 0)).2 [0])
    rw [hm, hm'] at hsame
    have hbytes : ([0] : Bytes) = [] := congrArg Prod.fst (Option.some.inj (Except.ok.inj hsame))
    cases hbytes
  · intro hne host
    refine ⟨hkept _ (Or.inl rfl) hne host, fun image => ?_⟩
    exact congrArg Reply.get (get_elsewhere mime hb host hvalid hne image)
  · rintro hspares rfl
    have hgone := delete_database hb hvalid 0
    have hthere := (hspares (.willing 0)).1
    rw [show (b.call mime (.willing 0) (.delete path)).2 = (b.delete (.willing 0) path).2 from rfl,
      hgone] at hthere
    cases hthere
  · intro hne host
    exact ⟨hkept _ (Or.inr (Or.inl rfl)) hne host, fun image => rfl⟩
  · rintro hspares rfl
    have hover := put_database mime hb hvalid 0 data contentType
    have hthere := (hspares (.willing 0)).1
    rw [show (b.call mime (.willing 0) (.put path data contentType)).2 =
      (b.put mime (.willing 0) path data contentType).2 from rfl, hover] at hthere
    cases hthere
  · intro hne host
    exact ⟨hkept _ (Or.inr (Or.inr ⟨data, contentType, rfl⟩)) hne host, fun image => rfl⟩

theorem holdsDatabase_openEmpty : HoldsDatabase .openEmpty := by
  intro names
  have hlookup := @FileTree.lookup_write _ _ FileTree.empty FilesystemBackend.openEmpty.tree
    databasePath Content.database rfl names
  rw [hlookup]
  by_cases heq : names = databasePath
  · rw [if_pos heq]
    exact ⟨fun _ => heq, fun _ => rfl⟩
  · rw [if_neg heq]
    exact ⟨fun h => absurd h (FileTree.lookup_empty_file names _), fun h => absurd h heq⟩

/-- A new store, and a path of two names, the second of which is that of the database file. -/
theorem database_untouched_below :
    (SparesDatabase (fun _ => none) .openEmpty (.get "logs/metadata.redb") ↔
        ["logs", "metadata.redb"] ≠ databasePath) ∧
      (SparesDatabase (fun _ => none) .openEmpty (.delete "logs/metadata.redb") ↔
        ["logs", "metadata.redb"] ≠ databasePath) ∧
      ∀ data contentType,
        SparesDatabase (fun _ => none) .openEmpty (.put "logs/metadata.redb" data contentType) ↔
          ["logs", "metadata.redb"] ≠ databasePath :=
  database_untouched_iff (fun _ => none) .openEmpty holdsDatabase_openEmpty "logs/metadata.redb"
    ["logs", "metadata.redb"] (by decide)

/-- `./metadata.redb` is accepted, and a delete of it takes the database of a new store away. -/
theorem delete_removes_database :
    validatePath "./metadata.redb" = .ok databasePath ∧
      ¬ SparesDatabase (fun _ => none) .openEmpty (.delete "./metadata.redb") := by
  refine ⟨by decide, fun h => absurd (h (.willing 0)).1 ?_⟩
  decide

end Mik.Storage
