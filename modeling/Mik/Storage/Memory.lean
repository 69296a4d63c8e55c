/-
  The object store in memory (`src/daemon/services/storage/memory.rs`).

  The map is keyed by the text of the normalised path, with `\` replaced by `/`. The guess of a
  content type sees the normalised path, of which it only uses the file name.
-/
import Mik.Storage.Filesystem

namespace Mik.Storage

open Mik.Lib

structure MemoryObject where
  data : Bytes
  info : ObjectMeta
  deriving DecidableEq, Repr

structure MemoryStorageBackend where
  data : AList fun _ : String => MemoryObject

/-- `normalized.to_string_lossy().replace('\\', "/")`. -/
def memoryKey (names : List String) : String := replaceChar '\\' '/' (pathText names)

namespace MemoryStorageBackend

def new : MemoryStorageBackend := ⟨∅⟩

def put (mime : MimeGuess) (b : MemoryStorageBackend) (now : Nat) (path : String) (data : Bytes)
    (contentType : Option String) : Except String ObjectMeta × MemoryStorageBackend :=
  match validatePath path with
  | .error e => (.error e, b)
  | .ok names =>
    let m : ObjectMeta :=
      ⟨memoryKey names, data.length, contentTypeOf mime names contentType, now, now⟩
    (.ok m, ⟨b.data.insert (memoryKey names) ⟨data, m⟩⟩)

def get (b : MemoryStorageBackend) (path : String) : Except String (Option (Bytes × ObjectMeta)) :=
  match validatePath path with
  | .error e => .error e
  | .ok names => .ok ((b.data.lookup (memoryKey names)).map fun obj => (obj.data, obj.info))

def delete (b : MemoryStorageBackend) (path : String) :
    Except String Bool × MemoryStorageBackend :=
  match validatePath path with
  | .error e => (.error e, b)
  | .ok names =>
    (.ok (b.data.lookup (memoryKey names)).isSome, ⟨b.data.erase (memoryKey names)⟩)

def head (b : MemoryStorageBackend) (path : String) : Except String (Option ObjectMeta) :=
  match validatePath path with
  | .error e => .error e
  | .ok names => .ok ((b.data.lookup (memoryKey names)).map MemoryObject.info)

def list (b : MemoryStorageBackend) (pre : Option String) : Except String (List ObjectMeta) :=
  .ok (listed (b.data.entries.map fun entry => ⟨entry.1, entry.2.info⟩) pre)

def call (mime : MimeGuess) (b : MemoryStorageBackend) (now : Nat) :
    Op → Reply × MemoryStorageBackend
  | .put path data contentType =>
    (.put (b.put mime now path data contentType).1, (b.put mime now path data contentType).2)
  | .get path => (.get (b.get path), b)
  | .delete path => (.delete (b.delete path).1, (b.delete path).2)
  | .head path => (.head (b.head path), b)
  | .list pre => (.list (b.list pre), b)

end MemoryStorageBackend

end Mik.Storage
