/-
  The object store on a directory (`src/daemon/services/storage/filesystem.rs`, `metadata.rs`,
  `types.rs`).

  Object data lie in the directory tree, at the normalised path. Their metadata lie in a redb
  table, under the path as the caller wrote it. The database is itself a file of the tree,
  `metadata.redb`: an operation can remove its name, which leaves the open database as it is, or
  write over it, after which nothing is known of what the database answers (`db = none`).

  Each call has an input `Host`: how far the operating system and the database let it go, and
  what they answer where the model does not say. `FilesystemBackend::open` finds an empty
  directory here; with one it only creates the database. A value of the table is kept as the
  metadata itself and not as JSON, and timestamps are numbers.
-/
import Mathlib.Data.List.Sort
import Mik.Lib.FileTree
import Mik.Lib.Run
import Mik.Lib.Txn
import Mik.Storage.Validation

namespace Mik.Storage

open Mik.Lib

abbrev Bytes := List UInt8

structure ObjectMeta where
  path : String
  size : Nat
  contentType : String
  createdAt : Nat
  modifiedAt : Nat
  deriving DecidableEq, Repr

/-! ## The metadata table -/

structure MetadataTable where
  entries : AList fun _ : String => ObjectMeta
  /-- Metadata are stored under their own path. -/
  own_path : ∀ path m, entries.lookup path = some m → m.path = path

namespace MetadataTable

def empty : MetadataTable := ⟨∅, fun path m h => by rw [AList.lookup_empty] at h; cases h⟩

def lookup (table : MetadataTable) (path : String) : Option ObjectMeta := table.entries.lookup path

def save (table : MetadataTable) (m : ObjectMeta) : MetadataTable where
  entries := table.entries.insert m.path m
  own_path := by
    intro path m' h
    by_cases heq : path = m.path
    · rw [heq, AList.lookup_insert] at h
      cases h
      exact heq.symm
    · rw [AList.lookup_insert_ne heq] at h
      exact table.own_path path m' h

def remove (table : MetadataTable) (path : String) : MetadataTable where
  entries := table.entries.erase path
  own_path := by
    intro path' m h
    by_cases heq : path' = path
    · rw [heq, AList.lookup_erase] at h
      cases h
    · rw [AList.lookup_erase_ne heq] at h
      exact table.own_path path' m h

theorem lookup_save (table : MetadataTable) (m : ObjectMeta) (path : String) :
    (table.save m).lookup path = if path = m.path then some m else table.lookup path := by
  by_cases heq : path = m.path
  · rw [if_pos heq, heq]
    exact AList.lookup_insert table.entries
  · rw [if_neg heq]
    exact AList.lookup_insert_ne heq

theorem lookup_remove (table : MetadataTable) (removed path : String) :
    (table.remove removed).lookup path = if path = removed then none else table.lookup path := by
  by_cases heq : path = removed
  · rw [if_pos heq, heq]
    exact AList.lookup_erase removed table.entries
  · rw [if_neg heq]
    exact AList.lookup_erase_ne heq

end MetadataTable

/-! ## The host -/

/-- How `fs::write` ends: all written, refused before the file is opened, or an error after the
    file was truncated and its first bytes written. -/
inductive WriteOutcome where
  | complete
  | refused
  | short (n : Nat)
  deriving DecidableEq, Repr

/-- What is in the file afterwards, when it was opened at all. -/
def WriteOutcome.written (data : Bytes) : WriteOutcome → Option Bytes
  | complete => some data
  | refused => none
  | short n => some (data.take n)

structure Host where
  now : Nat
  /-- How many directories `create_dir_all` may make. -/
  mkdirLimit : Nat
  write : WriteOutcome
  /-- `Path::exists` gets an answer; an error counts as no. -/
  stat : Bool
  read : Bool
  metadata : Bool
  remove : Bool
  /-- Where the transaction of the call fails, if it does. -/
  txn : Option TxnStage
  /-- The bytes of the database file. -/
  databaseImage : Bytes
  /-- The length a directory reports. -/
  dirLen : Nat
  /-- The table a database shows after its file was written over. -/
  damaged : MetadataTable

/-- A host that lets everything through. -/
def Host.willing (now : Nat) : Host where
  now := now
  mkdirLimit := 4096
  write := .complete
  stat := true
  read := true
  metadata := true
  remove := true
  txn := none
  databaseImage := []
  dirLen := 4096
  damaged := .empty

def saveTexts (path : String) : TxnTexts where
  beginTxn := "Failed to begin write transaction"
  openTable := "Failed to open objects table"
  access := "Failed to insert object metadata: " ++ path
  finish := "Failed to commit metadata save transaction"

def loadTexts (path : String) : TxnTexts where
  beginTxn := "Failed to begin read transaction"
  openTable := "Failed to open objects table"
  access := "Failed to read object metadata: " ++ path
  finish := "Failed to deserialize object metadata: " ++ path

def removeTexts (path : String) : TxnTexts where
  beginTxn := "Failed to begin write transaction"
  openTable := "Failed to open objects table"
  access := "Failed to remove object metadata: " ++ path
  finish := "Failed to commit metadata removal transaction"

def listTexts : TxnTexts where
  beginTxn := "Failed to begin read transaction"
  openTable := "Failed to open objects table"
  access := "Failed to iterate objects table"
  finish := "Failed to read object entry"

/-! ## The backend -/

/-- What a file of the storage directory holds. -/
inductive Content where
  | object (data : Bytes)
  | database
  deriving DecidableEq, Repr

def Content.bytes (host : Host) : Content → Bytes
  | object data => data
  | database => host.databaseImage

structure FilesystemBackend where
  tree : FileTree Content
  /-- The table of the open database, until its file is written over. -/
  db : Option MetadataTable

/-- `mime_guess::from_path(..).first()`, as a function of the file name. -/
abbrev MimeGuess := String → Option String

def contentTypeOf (mime : MimeGuess) (names : List String) (contentType : Option String) : String :=
  (contentType.orElse fun _ => mime (names.getLast?.getD "")).getD "application/octet-stream"

/-- The metadata of the entries whose key has the wanted beginning, by path. -/
def listed (entries : List (Σ _ : String, ObjectMeta)) (pre : Option String) : List ObjectMeta :=
  ((entries.filter fun entry => (pre.map fun p => startsWith p entry.1).getD true).map
    Sigma.snd).insertionSort fun a b => a.path ≤ b.path

namespace FilesystemBackend

/-- `FilesystemBackend::open` on a directory that is empty or not there yet. -/
def openEmpty : FilesystemBackend where
  tree := (FileTree.empty.write ["metadata.redb"] .database).getD .empty
  db := some .empty

/-- `save_metadata`. -/
def saveMetadata (b : FilesystemBackend) (host : Host) (m : ObjectMeta) :
    Except String Unit × FilesystemBackend :=
  match host.txn with
  | some stage => (.error ((saveTexts m.path).error stage), b)
  | none => (.ok (), { b with db := b.db.map fun table => table.save m })

/-- `load_metadata`. -/
def loadMetadata (b : FilesystemBackend) (host : Host) (path : String) :
    Except String (Option ObjectMeta) :=
  match host.txn with
  | some stage => .error ((loadTexts path).error stage)
  | none => .ok ((b.db.getD host.damaged).lookup path)

/-- `remove_metadata`. -/
def removeMetadata (b : FilesystemBackend) (host : Host) (path : String) :
    Except String Unit × FilesystemBackend :=
  match host.txn with
  | some stage => (.error ((removeTexts path).error stage), b)
  | none => (.ok (), { b with db := b.db.map fun table => table.remove path })

/-- `Path::exists`, with what is there. -/
def find (b : FilesystemBackend) (host : Host) (names : List String) : Option (Node Content) :=
  if host.stat then b.tree.lookup names else none

/-- `fs::write` of an object. -/
def writeObject (b : FilesystemBackend) (host : Host) (names : List String) (data : Bytes) :
    Bool × FilesystemBackend :=
  match host.write.written data with
  | none => (false, b)
  | some bytes =>
    match b.tree.write names (.object bytes) with
    | none => (false, b)
    | some tree =>
      (host.write = .complete,
        { tree := tree, db := if b.tree.lookup names = some (.file .database) then none else b.db })

/-- `fs::read`. -/
def readObject (host : Host) : Node Content → Option Bytes
  | .dir => none
  | .file content => if host.read then some (content.bytes host) else none

def nodeLen (host : Host) : Node Content → Nat
  | .dir => host.dirLen
  | .file content => (content.bytes host).length

def put (mime : MimeGuess) (b : FilesystemBackend) (host : Host) (path : String) (data : Bytes)
    (contentType : Option String) : Except String ObjectMeta × FilesystemBackend :=
  match validatePath path with
  | .error e => (.error e, b)
  | .ok names =>
    match FileTree.createDirAll host.mkdirLimit [] names.dropLast b.tree with
    | (false, tree) =>
      (.error ("Failed to create parent directories for: " ++ path), { b with tree := tree })
    | (true, tree) =>
      match writeObject { b with tree := tree } host names data with
      | (false, b) => (.error ("Failed to write object: " ++ path), b)
      | (true, b) =>
        let m : ObjectMeta :=
          ⟨path, data.length, contentTypeOf mime names contentType, host.now, host.now⟩
        match b.saveMetadata host m with
        | (.error e, b) => (.error e, b)
        | (.ok _, b) => (.ok m, b)

/-- The metadata of what is at `path`: the stored ones, or made up from the file. -/
def metaOf (mime : MimeGuess) (b : FilesystemBackend) (host : Host) (path : String)
    (names : List String) (node : Node Content) : Except String ObjectMeta :=
  match b.loadMetadata host path with
  | .error e => .error e
  | .ok (some m) => .ok m
  | .ok none =>
    if host.metadata then
      .ok ⟨path, nodeLen host node, contentTypeOf mime names none, host.now, host.now⟩
    else .error ("Failed to get file metadata: " ++ path)

def get (mime : MimeGuess) (b : FilesystemBackend) (host : Host) (path : String) :
    Except String (Option (Bytes × ObjectMeta)) :=
  match validatePath path with
  | .error e => .error e
  | .ok names =>
    match b.find host names with
    | none => .ok none
    | some node =>
      match readObject host node with
      | none => .error ("Failed to read object: " ++ path)
      | some data =>
        match b.metaOf mime host path names node with
        | .error e => .error e
        | .ok m => .ok (some (data, m))

def delete (b : FilesystemBackend) (host : Host) (path : String) :
    Except String Bool × FilesystemBackend :=
  match validatePath path with
  | .error e => (.error e, b)
  | .ok names =>
    match b.find host names with
    | none =>
      match b.removeMetadata host path with
      | (.error e, b) => (.error e, b)
      | (.ok _, b) => (.ok false, b)
    | some _ =>
      match if host.remove then b.tree.removeFile names else none with
      | none => (.error ("Failed to delete object: " ++ path), b)
      | some tree =>
        match removeMetadata { b with tree := tree } host path with
        | (.error e, b) => (.error e, b)
        | (.ok _, b) => (.ok true, b)

def head (mime : MimeGuess) (b : FilesystemBackend) (host : Host) (path : String) :
    Except String (Option ObjectMeta) :=
  match validatePath path with
  | .error e => .error e
  | .ok names =>
    match b.find host names with
    | none => .ok none
    | some node =>
      match b.metaOf mime host path names node with
      | .error e => .error e
      | .ok m => .ok (some m)

def list (b : FilesystemBackend) (host : Host) (pre : Option String) :
    Except String (List ObjectMeta) :=
  match host.txn with
  | some stage => .error (listTexts.error stage)
  | none => .ok (listed (b.db.getD host.damaged).entries.entries pre)

section

variable {b b' : FilesystemBackend} {host : Host}

/-- Metadata that are saved are in the table. -/
theorem saveMetadata_ok {m : ObjectMeta} (h : b.saveMetadata host m = (.ok (), b')) :
    b' = { b with db := b.db.map fun table => table.save m } := by
  unfold saveMetadata at h
  cases htxn : host.txn with
  | some stage =>
    rw [htxn] at h
    cases h
  | none =>
    rw [htxn] at h
    exact (Prod.mk.inj h).2.symm

theorem removeMetadata_ok {path : String} (h : b.removeMetadata host path = (.ok (), b')) :
    b' = { b with db := b.db.map fun table => table.remove path } := by
  unfold removeMetadata at h
  cases htxn : host.txn with
  | some stage =>
    rw [htxn] at h
    cases h
  | none =>
    rw [htxn] at h
    exact (Prod.mk.inj h).2.symm

end

end FilesystemBackend

/-! ## Calls -/

/-- A call of the `StorageBackend` trait. -/
inductive Op where
  | put (path : String) (data : Bytes) (contentType : Option String)
  | get (path : String)
  | delete (path : String)
  | head (path : String)
  | list (pre : Option String)
  deriving DecidableEq, Repr

inductive Reply where
  | put (result : Except String ObjectMeta)
  | get (result : Except String (Option (Bytes × ObjectMeta)))
  | delete (result : Except String Bool)
  | head (result : Except String (Option ObjectMeta))
  | list (result : Except String (List ObjectMeta))

def FilesystemBackend.call (mime : MimeGuess) (b : FilesystemBackend) (host : Host) :
    Op → Reply × FilesystemBackend
  | .put path data contentType =>
    ((.put (b.put mime host path data contentType).1), (b.put mime host path data contentType).2)
  | .get path => (.get (b.get mime host path), b)
  | .delete path => (.delete (b.delete host path).1, (b.delete host path).2)
  | .head path => (.head (b.head mime host path), b)
  | .list pre => (.list (b.list host pre), b)

end Mik.Storage
