/-
  The cache of compiled modules (`src/runtime/aot_cache.rs`, and its use in `get_or_load` of
  `src/runtime/cache.rs`).

  The threads and processes that share a cache directory are a pool of tasks; opening and
  truncating a file, each partial write, a rename, an open for reading are one action each.
  `OnlyComplete` says of a state that every file that was opened for deserialisation holds the
  bytes of a put for its key, and nothing else.

  `Stage` says how far a task has come with the put it makes, and `putting` is the protocol of it:
  a put creates its temporary file, writes all bytes to it, and then renames it. All calls obey it
  (`obeys_call`), under whatever interference.
-/
import Mik.Lib.Inodes
import Mik.Lib.Protocol
import Mik.Lib.UnixPath

namespace Mik.Runtime

open Mik.Lib Prog

/-- The settings of a cache; all caches are over one directory. -/
structure AotCacheConfig where
  maxSizeBytes : Nat
  bypass : Bool
  deriving DecidableEq, Repr

namespace Aot

/-! ## Actions on the directory -/

/-- An entry of `read_dir`: the name, and its length and time of access if they can be read. -/
structure DirEntry where
  name : String
  metadata : Option (Nat × Nat)

/-- What the outside world contributes to one action. -/
structure Outside where
  fault : Option String
  /-- How many bytes a write takes. -/
  written : Nat
  /-- The entries whose metadata cannot be read. -/
  unreadable : List String
  accessed : String → Nat

inductive FileAction where
  | pathExists (name : String)
  | create (name : String)
  | write (ino offset : Nat) (bytes : List UInt8)
  | rename (name name' : String)
  | removeFile (name : String)
  | readDir
  | openFile (name : String)
  | deserialize (ino : Nat)

abbrev FileReply : FileAction → Type
  | .pathExists _ => Bool
  | .create _ => Except String Nat
  | .write _ _ _ => Except String Nat
  | .rename _ _ => Except String Unit
  | .removeFile _ => Except String Unit
  | .readDir => Except String (List DirEntry)
  | .openFile _ => Except String Nat
  | .deserialize _ => Except String Unit

/-- The directory, and the files that were opened for deserialisation, by the name they had. -/
structure Shared where
  dir : Directory
  opened : List (String × Nat)

def noSuchFile : String := "No such file or directory"

def entries (e : Outside) (d : Directory) : List DirEntry :=
  d.names.entries.map fun (name, ino) =>
    ⟨name, if name ∈ e.unreadable then none else some ((d.content ino).length, e.accessed name)⟩

/-- A failed action changes nothing; whether an artifact can be deserialised is up to the engine. -/
def answer (e : Outside) : (a : FileAction) → Shared → FileReply a × Shared
  | .pathExists name, s => (e.fault.isNone && (s.dir.lookup name).isSome, s)
  | .create name, s =>
    match e.fault with
    | some text => (.error text, s)
    | none => (.ok (s.dir.createdInode name), { s with dir := s.dir.create name })
  | .write ino offset bytes, s =>
    match e.fault with
    | some text => (.error text, s)
    | none =>
      (.ok (min e.written bytes.length),
        { s with dir := s.dir.writeAt ino offset (bytes.take e.written) })
  | .rename name name', s =>
    match e.fault with
    | some text => (.error text, s)
    | none =>
      match s.dir.rename name name' with
      | none => (.error noSuchFile, s)
      | some dir => (.ok (), { s with dir })
  | .removeFile name, s =>
    match e.fault with
    | some text => (.error text, s)
    | none =>
      match s.dir.lookup name with
      | none => (.error noSuchFile, s)
      | some _ => (.ok (), { s with dir := s.dir.unlink name })
  | .readDir, s =>
    match e.fault with
    | some text => (.error text, s)
    | none => (.ok (entries e s.dir), s)
  | .openFile name, s =>
    match e.fault with
    | some text => (.error text, s)
    | none =>
      match s.dir.lookup name with
      | none => (.error noSuchFile, s)
      | some ino => (.ok ino, { s with opened := (name, ino) :: s.opened })
  | .deserialize _, s =>
    match e.fault with
    | some text => (.error text, s)
    | none => (.ok (), s)

/-! ## The operations -/

abbrev Task (α : Type) := Prog FileAction FileReply α

def onDir (a : FileAction) : Task (FileReply a) := act a ret

/-- `write_all`, from `offset` on; every write takes a byte at least, so as many writes as there are
    bytes are enough. -/
def writeFrom (ino : Nat) : Nat → Nat → List UInt8 → Task (Except String Unit)
  | 0, _, _ => ret (.ok ())
  | fuel + 1, offset, bytes =>
    if bytes = [] then ret (.ok ())
    else onDir (.write ino offset bytes) >>= fun
      | .error e => ret (.error e)
      | .ok 0 => ret (.error "failed to write whole buffer")
      | .ok (n + 1) => writeFrom ino fuel (offset + (n + 1)) (bytes.drop (n + 1))

/-- `fs::write`. -/
def fsWrite (name : String) (bytes : List UInt8) : Task (Except String Unit) :=
  onDir (.create name) >>= fun
    | .error e => ret (.error e)
    | .ok ino => writeFrom ino bytes.length 0 bytes

/-- The file of an artifact, in the cache directory. -/
def aotName (key : String) : String := key ++ ".aot"

def tempName (key : String) : String := key ++ ".aot.tmp"

/-- The entries with the extension `aot` whose metadata can be read, as name, length and time of
    access. -/
def artifacts (listed : List DirEntry) : List (String × Nat × Nat) :=
  listed.filterMap fun entry =>
    if (splitExtension entry.name).2 = some "aot" then entry.metadata.map fun m => (entry.name, m)
    else none

def totalSize (l : List (String × Nat × Nat)) : Nat := l.foldl (fun size a => size + a.2.1) 0

/-- Removes the oldest artifacts until the size is within the limit. -/
def removeOldest (maxSize : Nat) : List (String × Nat × Nat) → Nat → Task Unit
  | [], _ => ret ()
  | oldest :: rest, size =>
    if maxSize < size then
      onDir (.removeFile oldest.1) >>= fun
        | .error _ => removeOldest maxSize rest size
        | .ok _ => removeOldest maxSize rest (size - oldest.2.1)
    else ret ()

def cleanup (config : AotCacheConfig) : Task Unit :=
  onDir .readDir >>= fun
    | .error _ => ret ()
    | .ok listed =>
      let found := (artifacts listed).mergeSort fun a b => a.2.2 ≤ b.2.2
      removeOldest config.maxSizeBytes found (totalSize found)

/-- `maybe_cleanup`; its errors are only logged. -/
def maybeCleanup (config : AotCacheConfig) : Task Unit :=
  onDir .readDir >>= fun
    | .error _ => ret ()
    | .ok listed =>
      if config.maxSizeBytes < totalSize (artifacts listed) then cleanup config else ret ()

section

variable (computeKey : List UInt8 → String)

def get (config : AotCacheConfig) (wasm : List UInt8) : Task (Option String) :=
  if config.bypass then ret none
  else onDir (.pathExists (aotName (computeKey wasm))) >>= fun present =>
    ret (if present then some (aotName (computeKey wasm)) else none)

def put (config : AotCacheConfig) (wasm compiled : List UInt8) : Task (Except String String) :=
  if config.bypass then ret (.error "Cannot store in cache when bypass is enabled")
  else
    fsWrite (tempName (computeKey wasm)) compiled >>= fun
      | .error _ => ret (.error "Failed to write cache temp file")
      | .ok _ =>
        onDir (.rename (tempName (computeKey wasm)) (aotName (computeKey wasm))) >>= fun
          | .error _ => ret (.error "Failed to rename cache file")
          | .ok _ => maybeCleanup config >>= fun _ => ret (.ok (aotName (computeKey wasm)))

def remove (config : AotCacheConfig) (wasm : List UInt8) : Task (Except String Bool) :=
  if config.bypass then ret (.ok false)
  else onDir (.pathExists (aotName (computeKey wasm))) >>= fun
    | false => ret (.ok false)
    | true => onDir (.removeFile (aotName (computeKey wasm))) >>= fun
      | .error _ => ret (.error "Failed to remove cache file")
      | .ok _ => ret (.ok true)

/-- `Component::deserialize_file`. -/
def deserializeFile (name : String) : Task (Except String Unit) :=
  onDir (.openFile name) >>= fun
    | .error e => ret (.error e)
    | .ok ino => onDir (.deserialize ino)

/-- Stores what the compiler made of a module, if it made something. -/
def storeCompiled (config : AotCacheConfig) (wasm : List UInt8) : Option (List UInt8) → Task Unit
  | none => ret ()
  | some compiled =>
    if config.bypass then ret () else put computeKey config wasm compiled >>= fun _ => ret ()

/-- The blocking part of `get_or_load`; `compiled` is what compiling and serialising come to. -/
def loadComponent (config : AotCacheConfig) (wasm : List UInt8) (compiled : Option (List UInt8)) :
    Task Unit :=
  get computeKey config wasm >>= fun
    | none => storeCompiled computeKey config wasm compiled
    | some path => deserializeFile path >>= fun
      | .ok _ => ret ()
      | .error _ => remove computeKey config wasm >>= fun _ =>
        storeCompiled computeKey config wasm compiled

/-! ## The tasks on one directory -/

inductive Call where
  | put (config : AotCacheConfig) (wasm compiled : List UInt8)
  | load (config : AotCacheConfig) (wasm : List UInt8) (compiled : Option (List UInt8))

def Call.program : Call → Task Unit
  | .put config wasm compiled => Aot.put computeKey config wasm compiled >>= fun _ => ret ()
  | .load config wasm compiled => loadComponent computeKey config wasm compiled

/-- The key and the bytes of the put that a call may come to. -/
def Call.stores : Call → Option (String × List UInt8)
  | .put _ wasm compiled => some (computeKey wasm, compiled)
  | .load _ wasm compiled => compiled.map fun bytes => (computeKey wasm, bytes)

/-- The calls in progress with the directory; the call that was last started under each number; and
    the puts that have begun, each as its key and its bytes. -/
structure System where
  pool : Pool FileAction FileReply Unit Shared
  calls : Nat → Option Call
  puts : List (String × List UInt8)

/-- The action that a task is about to perform. -/
def nextAction (w : System) (i : Nat) : Option FileAction :=
  match w.pool.tasks i with
  | some (.act a _) => some a
  | _ => none

/-- A call is started, or performs its next action. -/
inductive Event where
  | start (i : Nat) (call : Call)
  | advance (i : Nat) (outside : Outside)

/-- A put begins with the opening of its temporary file. -/
def step (w : System) : Event → System
  | .start i call =>
    { w with
      pool := Pool.step answer w.pool (.spawn i (call.program computeKey))
      calls := fun j =>
        if j = i ∧ (w.pool.tasks i).isNone then some call else w.calls j }
  | .advance i outside =>
    { w with
      pool := Pool.step answer w.pool (.advance i outside)
      puts :=
        match nextAction w i with
        | some (.create _) => ((w.calls i).bind (Call.stores computeKey)).toList ++ w.puts
        | _ => w.puts }

/-- An empty directory, and no calls. -/
def newSystem : System := ⟨⟨fun _ => none, .empty, []⟩, fun _ => none, []⟩

/-- The bytes are all of one put for the key of the artifact. -/
def Complete (puts : List (String × List UInt8)) (name : String) (bytes : List UInt8) : Prop :=
  ∃ key, (key, bytes) ∈ puts ∧ name = aotName key

end

/-- Every file opened for deserialisation is complete. -/
def OnlyComplete (w : System) : Prop :=
  ∀ name ino, (name, ino) ∈ w.pool.state.opened →
    Complete w.puts name (w.pool.state.dir.content ino)

/-! ## The condition -/

/-- The task is writing the file of that name, or about to rename it. -/
def Busy (w : System) (i : Nat) (name : String) : Prop :=
  (∃ ino offset bytes, nextAction w i = some (.write ino offset bytes) ∧
      w.pool.state.dir.lookup name = some ino) ∨
    ∃ name', nextAction w i = some (.rename name name')

/-- No put creates a temporary file that another one is busy with. -/
def CreatesUndisturbed (w : System) : Event → Prop
  | .start _ _ => True
  | .advance i _ => ∀ name, nextAction w i = some (.create name) → ∀ j, j ≠ i → ¬ Busy w j name

/-! ## Names -/

theorem splitExtension_tempName (key : String) :
    splitExtension (tempName key) = (key ++ ".aot", some "tmp") := by
  refine splitExtension_eq_iff.mpr ⟨?_, fun hempty => ?_, by decide⟩
  · unfold tempName
    rw [String.append_assoc, String.append_assoc]
    rfl
  · have hlength := congrArg String.length hempty
    simp at hlength

/-- The file is not a temporary one. -/
def Kept (name : String) : Prop := ∀ key, name ≠ tempName key

theorem kept_of_extension {name : String} (h : (splitExtension name).2 = some "aot") :
    Kept name := by
  intro key hname
  rw [hname, splitExtension_tempName] at h
  exact absurd (Option.some.inj h) (by decide)

theorem kept_aotName (key : String) : Kept (aotName key) := by
  intro key' hname
  have hlast := congrArg (fun name => name.toList.getLast?) hname
  simp [aotName, tempName, String.toList_append] at hlast

/-! ## How far a put has come -/

inductive Stage where
  | idle
  /-- The put has not created its file yet. -/
  | ready (key : String) (bytes : List UInt8)
  /-- So many bytes have been written. -/
  | writing (key : String) (bytes : List UInt8) (ino written : Nat)

namespace Stage

/-- There is no file that is being written. -/
def Resting : Stage → Prop
  | writing _ _ _ _ => False
  | _ => True

def Allows (stage : Stage) : FileAction → Prop
  | .create name => ∃ key bytes, stage = ready key bytes ∧ name = tempName key
  | .write ino offset rest =>
    ∃ key bytes, stage = writing key bytes ino offset ∧ rest = bytes.drop offset
  | .rename name name' => ∃ key bytes ino, stage = writing key bytes ino bytes.length ∧
      name = tempName key ∧ name' = aotName key
  | .removeFile name => stage.Resting ∧ Kept name
  | .openFile name => stage.Resting ∧ Kept name
  | .pathExists _ => stage.Resting
  | .readDir => stage.Resting
  | .deserialize _ => stage.Resting

def next : Stage → (a : FileAction) → FileReply a → Stage
  | ready key bytes, .create _, .ok ino => writing key bytes ino 0
  | ready _ _, .create _, .error _ => idle
  | writing key bytes ino n, .write _ _ _, .ok (m + 1) => writing key bytes ino (n + (m + 1))
  | writing _ _ _ _, .write _ _ _, _ => idle
  | writing _ _ _ _, .rename _ _, _ => idle
  | stage, _, _ => stage

end Stage

abbrev putting : Protocol FileAction FileReply where
  State := Stage
  allows := Stage.Allows
  next := Stage.next

/-- A write takes no more than there is. -/
def Answered : (a : FileAction) → FileReply a → Prop
  | .write _ _ bytes, r => ∀ n, r = .ok n → n ≤ bytes.length
  | _, _ => True

/-- What is done at rest. -/
def Rests : FileAction → Prop
  | .removeFile name | .openFile name => Kept name
  | .pathExists _ | .readDir | .deserialize _ => True
  | _ => False

section

variable {computeKey : List UInt8 → String} {α : Type} {config : AotCacheConfig}
  {wasm : List UInt8}

theorem next_of_rests {stage : Stage} {a : FileAction} (hstage : stage.Resting) (ha : Rests a)
    (r : FileReply a) : stage.next a r = stage := by
  cases stage with
  | writing key bytes ino n => exact hstage.elim
  | idle => rfl
  | ready key bytes =>
    cases a with
    | create name => exact ha.elim
    | _ => rfl

/-- What only does what is done at rest leaves the stage. -/
theorem obeys_rests {Q : α → Prop} {p : Task α} {stage : Stage} (hp : p.Within Answered Rests Q)
    (hstage : stage.Resting) :
    p.Obeys putting Answered (fun q x => q = stage ∧ Q x) stage := by
  refine Obeys.of_within (P := putting) (S := fun q => q = stage) hp rfl ?_ ?_
  · rintro q a rfl ha
    cases a with
    | removeFile name => exact ⟨hstage, ha⟩
    | openFile name => exact ⟨hstage, ha⟩
    | pathExists name => exact hstage
    | readDir => exact hstage
    | deserialize ino => exact hstage
    | _ => exact ha.elim
  · rintro q a r rfl ha
    exact next_of_rests hstage ha r

theorem within_get : (get computeKey config wasm).Within Answered Rests fun r =>
    ∀ path, r = some path → Kept path := by
  unfold get
  split
  · exact nofun
  · refine ⟨trivial, fun present _ => ?_⟩
    intro path hpath
    split at hpath
    · rw [← Option.some.inj hpath]
      exact kept_aotName _
    · cases hpath

theorem within_deserializeFile {path : String} (h : Kept path) :
    (deserializeFile path).Within Answered Rests fun _ => True := by
  refine ⟨h, fun r _ => ?_⟩
  cases r with
  | error e => trivial
  | ok ino => exact ⟨trivial, fun _ _ => trivial⟩

theorem within_remove : (remove computeKey config wasm).Within Answered Rests fun _ => True := by
  unfold remove
  split
  · trivial
  · refine ⟨trivial, fun present _ => ?_⟩
    cases present with
    | false => trivial
    | true =>
      refine ⟨kept_aotName _, fun r _ => ?_⟩
      cases r with
      | error e => trivial
      | ok _ => trivial

theorem within_removeOldest {maxSize : Nat} {l : List (String × Nat × Nat)}
    (h : ∀ a ∈ l, Kept a.1) (size : Nat) :
    (removeOldest maxSize l size).Within Answered Rests fun _ => True := by
  induction l generalizing size with
  | nil => trivial
  | cons oldest rest ih =>
    have hrest := ih fun a ha => h a (List.mem_cons_of_mem _ ha)
    unfold removeOldest
    split
    · refine ⟨h oldest List.mem_cons_self, fun r _ => ?_⟩
      cases r with
      | error e => exact hrest _
      | ok _ => exact hrest _
    · trivial

theorem kept_of_mem_artifacts {listed : List DirEntry} {a : String × Nat × Nat}
    (h : a ∈ artifacts listed) : Kept a.1 := by
  obtain ⟨entry, -, hentry⟩ := List.mem_filterMap.mp h
  split at hentry
  · next hext =>
    obtain ⟨m, -, rfl⟩ := Option.map_eq_some_iff.mp hentry
    exact kept_of_extension hext
  · cases hentry

theorem within_maybeCleanup : (maybeCleanup config).Within Answered Rests fun _ => True := by
  have hcleanup : (cleanup config).Within Answered Rests fun _ => True := by
    refine ⟨trivial, fun r _ => ?_⟩
    cases r with
    | error e => trivial
    | ok listed =>
      refine within_removeOldest (fun a ha => ?_) _
      exact kept_of_mem_artifacts (List.mem_mergeSort.mp ha)
  refine ⟨trivial, fun r _ => ?_⟩
  cases r with
  | error e => trivial
  | ok listed =>
    show (if _ then cleanup config else ret ()).Within _ _ _
    split
    · exact hcleanup
    · trivial

/-- The writes of a put go on until all is written. -/
theorem obeys_writeFrom (key : String) (bytes : List UInt8) (ino fuel offset : Nat)
    (hoffset : offset ≤ bytes.length) (hfuel : bytes.length ≤ offset + fuel) :
    (writeFrom ino fuel offset (bytes.drop offset)).Obeys putting Answered
      (fun q r => (r = .ok () → q = .writing key bytes ino bytes.length) ∧
        ∀ e, r = .error e → q = .idle)
      (.writing key bytes ino offset) := by
  induction fuel generalizing offset with
  | zero =>
    have hall : offset = bytes.length := by omega
    refine ⟨fun _ => ?_, nofun⟩
    rw [hall]
  | succ fuel ih =>
    unfold writeFrom
    split
    · next hnil =>
      have hall : bytes.length ≤ offset := List.drop_eq_nil_iff.mp hnil
      refine ⟨fun _ => ?_, nofun⟩
      rw [Nat.le_antisymm hoffset hall]
    · refine ⟨⟨key, bytes, rfl, rfl⟩, fun r hr => ?_⟩
      cases r with
      | error e => exact ⟨nofun, fun _ _ => rfl⟩
      | ok n =>
        cases n with
        | zero => exact ⟨nofun, fun _ _ => rfl⟩
        | succ n =>
          have hle : n + 1 ≤ (bytes.drop offset).length := hr _ rfl
          rw [List.length_drop] at hle
          have hrest := ih (offset + (n + 1)) (by omega) (by omega)
          rw [← List.drop_drop] at hrest
          exact hrest

theorem obeys_put {compiled : List UInt8} :
    (put computeKey config wasm compiled).Obeys putting Answered (fun q _ => q.Resting)
      (.ready (computeKey wasm) compiled) := by
  unfold put
  split
  · trivial
  · have hwrite : (fsWrite (tempName (computeKey wasm)) compiled).Obeys putting Answered
        (fun q r => (r = .ok () → ∃ ino,
            q = .writing (computeKey wasm) compiled ino compiled.length) ∧
          ∀ e, r = .error e → q = .idle)
        (.ready (computeKey wasm) compiled) := by
      refine ⟨⟨_, _, rfl, rfl⟩, fun r _ => ?_⟩
      cases r with
      | error e => exact ⟨nofun, fun _ _ => rfl⟩
      | ok ino =>
        refine (obeys_writeFrom _ compiled ino compiled.length 0 (Nat.zero_le _) (by omega)).mono ?_
        exact fun q r h => ⟨fun hr => ⟨ino, h.1 hr⟩, h.2⟩
    refine hwrite.bind fun q r hr => ?_
    cases r with
    | error e =>
      rw [hr.2 e rfl]
      trivial
    | ok _ =>
      obtain ⟨ino, rfl⟩ := hr.1 rfl
      refine ⟨⟨_, _, _, rfl, rfl, rfl⟩, fun r _ => ?_⟩
      cases r with
      | error e => trivial
      | ok _ =>
        have hidle : Stage.idle.Resting := trivial
        refine (obeys_rests within_maybeCleanup hidle).bind fun q _ hq => ?_
        rw [hq.1]
        trivial

/-- Where a call begins. -/
def Call.begins (computeKey : List UInt8 → String) (call : Call) : Stage :=
  match call.stores computeKey with
  | some (key, bytes) => .ready key bytes
  | none => .idle

theorem obeys_storeCompiled {compiled : Option (List UInt8)} :
    (storeCompiled computeKey config wasm compiled).Obeys putting Answered (fun q _ => q.Resting)
      (Call.begins computeKey (.load config wasm compiled)) := by
  cases compiled with
  | none => trivial
  | some bytes =>
    unfold storeCompiled
    dsimp only
    split
    · trivial
    · refine obeys_put.bind fun q _ hq => ?_
      exact hq

theorem resting_begins (computeKey : List UInt8 → String) (call : Call) :
    (call.begins computeKey).Resting := by
  unfold Call.begins
  split
  · trivial
  · trivial

/-- Every call goes the way of a put. -/
theorem obeys_call (computeKey : List UInt8 → String) (call : Call) :
    (call.program computeKey).Obeys putting Answered (fun q _ => q.Resting)
      (call.begins computeKey) := by
  have hresting := resting_begins computeKey call
  cases call with
  | put config wasm compiled =>
    refine obeys_put.bind fun q _ hq => ?_
    exact hq
  | load config wasm compiled =>
    refine (obeys_rests within_get hresting).bind fun q found hfound => ?_
    obtain ⟨rfl, hkept⟩ := hfound
    cases found with
    | none => exact obeys_storeCompiled
    | some path =>
      refine (obeys_rests (within_deserializeFile (hkept path rfl)) hresting).bind fun q r hr => ?_
      rw [hr.1]
      cases r with
      | ok _ => exact hresting
      | error e =>
        refine (obeys_rests within_remove hresting).bind fun q _ hq => ?_
        rw [hq.1]
        exact obeys_storeCompiled

end

end Aot

end Mik.Runtime
