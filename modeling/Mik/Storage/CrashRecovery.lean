/-
  The object store across crashes (`src/daemon/services/storage/filesystem.rs`, `metadata.rs`).

  A put makes directories, truncates the file and writes it, and commits a transaction; a delete
  removes the file and commits a transaction; opening the store makes the database and repairs its
  table entry by entry. The process may end between any two of these steps. What it leaves on disk
  then is what a host leaves that lets the call come as far and no further, so a crash in the middle
  of a call is a call whose answer nobody has seen, and a crash in the middle of opening is an
  opening that fails. What a transaction has committed and what a write has taken survives the
  process.

  `Fate` is what a client may rely on for one path, from its own calls and the answers it has seen.
  `Recoverable` says that the store bears it out, together with what the repair needs; every call
  and every opening keeps it, however far it comes.
-/
import Mik.Storage.Reopen

namespace Mik.Storage

open Mik.Lib

/-! ## What a client may rely on -/

/-- The object of a path: not there, as an answered put left it, or one of several. -/
inductive Fate where
  | gone
  | kept (data : Bytes) (m : ObjectMeta)
  | doubtful (may : Option Bytes → Prop)

/-- The bytes that may be found. -/
def Fate.Allows : Fate → Option Bytes → Prop
  | gone, found => found = none
  | kept data _, found => found = some data
  | doubtful may, found => may found

/-- After a call on the path, with the answer if it was seen. A put that was not answered may have
    left any part of the file; a delete that found nothing may not have been able to look. -/
def Fate.after (fate : Fate) (op : Op) (seen : Option Reply) : Fate :=
  match op, seen with
  | .put _ data _, some (.put (.ok m)) => kept data m
  | .put _ data _, _ =>
    doubtful fun found => fate.Allows found ∨ ∃ n, found = some (data.take n)
  | .delete _, some (.delete (.ok true)) => gone
  | .delete _, some (.delete (.ok false)) => doubtful fate.Allows
  | .delete _, _ => doubtful fun found => fate.Allows found ∨ found = none
  | _, _ => fate

/-- The path of a call that changes something. -/
def Op.target : Op → Option String
  | .put path _ _ => some path
  | .delete path => some path
  | _ => none

/-- A path under which everything is found again: the text of its normalised path, without `\` and
    without a name that the walk leaves out. -/
structure Canonical (path : String) (names : List String) : Prop where
  valid : validatePath path = .ok names
  text : pathText names = path
  shown : ∀ name ∈ names, skipped name = false
  noBackslash : ∀ name ∈ names, '\\' ∉ name.toList

/-! ## A store that is opened again and again -/

/-- `FilesystemBackend::open` on what is on disk, as far as the host lets it go: whether it
    succeeds, and what is on disk then. -/
def attemptOpen (mime : MimeGuess) (host : OpenHost) (b : FilesystemBackend) :
    Bool × FilesystemBackend :=
  if !host.createDir then (false, b)
  else
    match if host.create then openDatabase host b.tree b.db else none with
    | none => (false, b)
    | some (tree, table) =>
      match host.initTxn with
      | some _ => (false, ⟨tree, some table⟩)
      | none =>
        match FilesystemBackend.reconcile mime host.reconcile ⟨tree, some table⟩ with
        | (.error _, b) => (false, b)
        | (.ok _, b) => (true, b)

/-- The disk, whether a process has the store open, and what the client may rely on. -/
structure Store where
  disk : FilesystemBackend
  serving : Bool
  fates : String → Fate

inductive StoreEvent where
  | call (host : Host) (op : Op) (answered : Bool)
  | crash
  | start (host : OpenHost)

/-- A call, with its answer if the client sees it. -/
def Store.call (mime : MimeGuess) (s : Store) (host : Host) (op : Op) (answered : Bool) : Store :=
  let result := s.disk.call mime host op
  { s with
    disk := result.2
    fates := fun path =>
      if op.target = some path then
        (s.fates path).after op (if answered then some result.1 else none)
      else s.fates path }

def Store.step (mime : MimeGuess) (s : Store) : StoreEvent → Store
  | .call host op answered => if s.serving then s.call mime host op answered else s
  | .crash => { s with serving := false }
  | .start host =>
    if s.serving then s
    else
      let opened := attemptOpen mime host s.disk
      { s with disk := opened.2, serving := opened.1 }

/-- A new store in an empty directory. -/
def Store.fresh : Store := ⟨.openEmpty, true, fun _ => .gone⟩

/-- Puts and deletes are given canonical paths, or ones that are refused, and the walk of an opening
    gets an answer about every path. -/
def StoreEvent.Plain : StoreEvent → Prop
  | .call _ op _ => ∀ path, op.target = some path → ∀ names, validatePath path = .ok names →
      Canonical path names
  | .start host => host.reconcile.Sees
  | .crash => True

theorem attemptOpen_iff (mime : MimeGuess) (host : OpenHost) (b b' : FilesystemBackend) :
    attemptOpen mime host b = (true, b') ↔ b.reopen mime host = .ok b' := by
  unfold attemptOpen FilesystemBackend.reopen FilesystemBackend.openAt
  cases host.createDir with
  | false => exact ⟨nofun, nofun⟩
  | true =>
  cases (if host.create then openDatabase host b.tree b.db else none) with
  | none => exact ⟨nofun, nofun⟩
  | some place =>
  obtain ⟨tree, table⟩ := place
  cases host.initTxn with
  | some stage => exact ⟨nofun, nofun⟩
  | none =>
  cases hreconcile : FilesystemBackend.reconcile mime host.reconcile ⟨tree, some table⟩ with
  | mk result after =>
  cases result with
  | error e => simp [hreconcile]
  | ok u => simp [hreconcile]

/-! ## What is on disk -/

/-- The object at a path. -/
def objectAt (tree : FileTree Content) (names : List String) : Option Bytes :=
  match tree.lookup names with
  | some (.file (.object data)) => some data
  | _ => none

theorem objectAt_eq_some_iff {tree : FileTree Content} {names : List String} {data : Bytes} :
    objectAt tree names = some data ↔ tree.lookup names = some (.file (.object data)) := by
  unfold objectAt
  split
  · next data' hfile =>
    rw [hfile]
    exact ⟨fun h => by rw [Option.some.inj h], fun h => by cases h; rfl⟩
  · next hno => exact ⟨nofun, fun h => absurd h (hno data)⟩

theorem objectAt_congr {tree tree' : FileTree Content} {names : List String}
    (h : ∀ content, tree'.lookup names = some (.file content) ↔
      tree.lookup names = some (.file content)) : objectAt tree' names = objectAt tree names := by
  refine Option.ext fun data => ?_
  rw [objectAt_eq_some_iff, objectAt_eq_some_iff]
  exact h (.object data)

/-- Only the entry of the path may have changed in the table. -/
def TableOnly (path : String) (b b' : FilesystemBackend) : Prop :=
  ∀ table, b.db = some table → ∃ table', b'.db = some table' ∧
    ∀ p, p ≠ path → table'.lookup p = table.lookup p

/-- Only the object of the path may have changed, and its entry. -/
structure Confined (path : String) (names : List String) (b b' : FilesystemBackend) : Prop where
  named : WellNamed b'.tree
  holds : HoldsDatabase b'
  table : TableOnly path b b'
  others : ∀ names', names' ≠ names → objectAt b'.tree names' = objectAt b.tree names'

/-- The store bears out what the client relies on. -/
structure Recoverable (fates : String → Fate) (b : FilesystemBackend) : Prop where
  named : WellNamed b.tree
  holds : HoldsDatabase b
  opened : b.db ≠ none
  entries : ∀ path data m, fates path = .kept data m → m.size = data.length ∧
    (∃ names, Canonical path names) ∧ ∃ table, b.db = some table ∧ table.lookup path = some m
  allows : ∀ path names, Canonical path names → (fates path).Allows (objectAt b.tree names)

section

variable {mime : MimeGuess} {b b' : FilesystemBackend} {host : Host} {path path' : String}
  {names names' : List String}

theorem Canonical.ne_database (h : Canonical path names) : names ≠ databasePath := by
  rintro rfl
  exact absurd (h.shown "metadata.redb" List.mem_cons_self) (by decide)

theorem Canonical.plain (h : Canonical path names) :
    ∀ name ∈ names, Plain name ∧ '\\' ∉ name.toList :=
  fun name hname => ⟨plain_of_validatePath h.valid name hname, h.noBackslash name hname⟩

theorem Canonical.ne_of_ne (h : Canonical path names) (h' : Canonical path' names')
    (hne : path' ≠ path) : names' ≠ names := by
  rintro rfl
  exact hne (h'.text.symm.trans h.text)

theorem Canonical.walked (h : Canonical path names) {tree : FileTree Content} {data : Bytes}
    (hn : WellNamed tree) (hfile : tree.lookup names = some (.file (.object data))) :
    Walked tree [] path :=
  hn.walked_iff.mpr ⟨names, data, names_ne_nil h.valid, h.text, hfile, h.shown⟩

theorem TableOnly.refl (path : String) (b : FilesystemBackend) : TableOnly path b b :=
  fun table hdb => ⟨table, hdb, fun _ _ => rfl⟩

theorem TableOnly.trans (h : TableOnly path b b') {b'' : FilesystemBackend}
    (h' : TableOnly path b' b'') : TableOnly path b b'' := by
  intro table hdb
  obtain ⟨table', hdb', hsame⟩ := h table hdb
  obtain ⟨table'', hdb'', hsame'⟩ := h' table' hdb'
  exact ⟨table'', hdb'', fun p hp => (hsame' p hp).trans (hsame p hp)⟩

theorem tableOnly_save {m : ObjectMeta} (hpath : m.path = path) :
    TableOnly path b { b with db := b.db.map fun table => table.save m } := by
  intro table hdb
  refine ⟨table.save m, by rw [hdb]; rfl, fun p hp => ?_⟩
  rw [MetadataTable.lookup_save, hpath, if_neg hp]

theorem tableOnly_remove (path : String) (b : FilesystemBackend) :
    TableOnly path b { b with db := b.db.map fun table => table.remove path } := by
  intro table hdb
  refine ⟨table.remove path, by rw [hdb]; rfl, fun p hp => ?_⟩
  rw [MetadataTable.lookup_remove, if_neg hp]

/-- A call on one path carries the rest along. -/
theorem Recoverable.call {fates fates' : String → Fate} (hb : Recoverable fates b)
    (hpath : Canonical path names) (hconfined : Confined path names b b')
    (hsame : ∀ p, p ≠ path → fates' p = fates p)
    (hallows : (fates' path).Allows (objectAt b'.tree names))
    (hentry : ∀ data m, fates' path = .kept data m → m.size = data.length ∧
      ∃ table, b'.db = some table ∧ table.lookup path = some m) : Recoverable fates' b' := by
  refine ⟨hconfined.named, hconfined.holds, fun hnone => ?_, fun p data m hkept => ?_,
    fun p names' hcanonical => ?_⟩
  · obtain ⟨table, hdb⟩ := Option.ne_none_iff_exists'.mp hb.opened
    obtain ⟨table', hdb', -⟩ := hconfined.table table hdb
    rw [hnone] at hdb'
    cases hdb'
  · by_cases hp : p = path
    · subst hp
      obtain ⟨hsize, hlookup⟩ := hentry data m hkept
      exact ⟨hsize, ⟨names, hpath⟩, hlookup⟩
    · rw [hsame p hp] at hkept
      obtain ⟨hsize, hcanonical, table, hdb, hlookup⟩ := hb.entries p data m hkept
      obtain ⟨table', hdb', hothers⟩ := hconfined.table table hdb
      exact ⟨hsize, hcanonical, table', hdb', (hothers p hp).trans hlookup⟩
  · by_cases hp : p = path
    · subst hp
      obtain rfl := names_unique hpath.valid hcanonical.valid
      exact hallows
    · rw [hsame p hp, hconfined.others names' (hpath.ne_of_ne hcanonical hp)]
      exact hb.allows p names' hcanonical

/-! ## Puts -/

theorem written_eq {outcome : WriteOutcome} {data bytes : Bytes}
    (h : outcome.written data = some bytes) : ∃ n, bytes = data.take n := by
  cases outcome with
  | complete => exact ⟨data.length, (Option.some.inj h).symm.trans List.take_length.symm⟩
  | refused => cases h
  | short n => exact ⟨n, (Option.some.inj h).symm⟩

theorem WellNamed.parents (hn : WellNamed b.tree) (hpath : Canonical path names) (limit : Nat) :
    WellNamed (FileTree.createDirAll limit [] names.dropLast b.tree).2 :=
  hn.createDirAll limit fun name hname =>
    hpath.plain name ((List.dropLast_prefix names).subset hname)

/-- What any put leaves of the file: what was there, or a beginning of the new bytes. -/
theorem confined_put (mime : MimeGuess) (host : Host) (data : Bytes) (contentType : Option String)
    (hn : WellNamed b.tree) (hholds : HoldsDatabase b) (hpath : Canonical path names) :
    let b' := (b.put mime host path data contentType).2
    Confined path names b b' ∧ (objectAt b'.tree names = objectAt b.tree names ∨
      ∃ n, objectAt b'.tree names = some (data.take n)) := by
  intro b'
  have hparents := hn.parents hpath host.mkdirLimit
  have hfile (names' : List String) (content : Content) :=
    FileTree.createDirAll_file_iff host.mkdirLimit [] names.dropLast b.tree names' content
  rcases put_state mime b host data contentType hpath.valid with
    ⟨-, -, hstate⟩ | ⟨bytes, tree, m, htouches, hmpath, -, hwrite, -, hstate⟩
  · have hb' : b' = { b with
        tree := (FileTree.createDirAll host.mkdirLimit [] names.dropLast b.tree).2 } := hstate
    have hsame (names' : List String) : objectAt b'.tree names' = objectAt b.tree names' := by
      rw [hb']
      exact objectAt_congr (hfile names')
    refine ⟨⟨hb' ▸ hparents, fun names' => ?_, fun table hdb => ⟨table, ?_, fun _ _ => rfl⟩,
      fun names' _ => hsame names'⟩, Or.inl (hsame names)⟩
    · rw [hb']
      exact (hfile names' .database).trans (hholds names')
    · rw [hb']
      exact hdb
  · have hb' : b' = ⟨tree, dbAfterPut b host names m⟩ := hstate
    have hlookup := FileTree.lookup_write hwrite
    obtain ⟨n, rfl⟩ := written_eq htouches.written
    have hhere : objectAt b'.tree names = some (data.take n) := by
      rw [hb']
      exact objectAt_eq_some_iff.mpr ((hlookup names).trans (if_pos rfl))
    have hnotDatabase : b.tree.lookup names ≠ some (.file .database) := fun hdatabase =>
      hpath.ne_database ((hholds names).mp hdatabase)
    refine ⟨⟨?_, fun names' => ?_, fun table hdb => ?_, fun names' hne => ?_⟩,
      Or.inr ⟨n, hhere⟩⟩
    · rw [hb']
      exact hparents.write names _ hwrite hpath.plain nofun
    · rw [hb', hlookup]
      split
      · next heq =>
        rw [heq]
        exact ⟨nofun, fun hno => absurd hno hpath.ne_database⟩
      · exact (hfile names' .database).trans (hholds names')
    · rw [hb']
      unfold dbAfterPut
      rw [if_neg hnotDatabase]
      split
      · exact tableOnly_save hmpath table hdb
      · exact TableOnly.refl path b table hdb
    · rw [hb']
      refine objectAt_congr fun content => ?_
      rw [hlookup, if_neg hne]
      exact hfile names' content

/-- What an answered put leaves. -/
theorem kept_of_put {data : Bytes} {contentType : Option String} {m : ObjectMeta}
    (hb : b.db ≠ none) (hholds : HoldsDatabase b) (hpath : Canonical path names)
    (h : b.put mime host path data contentType = (.ok m, b')) :
    objectAt b'.tree names = some data ∧ m.size = data.length ∧
      ∃ table, b'.db = some table ∧ table.lookup path = some m := by
  obtain ⟨names', hvalid, hwrite, hmpath, hsize, hdb'⟩ := put_ok h
  obtain rfl := names_unique hpath.valid hvalid
  obtain ⟨table, hdb⟩ := Option.ne_none_iff_exists'.mp hb
  rw [if_neg fun hfile => hpath.ne_database ((hholds names).mp hfile), hdb] at hdb'
  refine ⟨objectAt_eq_some_iff.mpr ((FileTree.lookup_write hwrite names).trans (if_pos rfl)),
    hsize, table.save m, hdb', ?_⟩
  rw [MetadataTable.lookup_save, if_pos hmpath.symm]

/-! ## Deletes -/

theorem tableOnly_dbAfterDelete (host : Host) (path : String) (tree : FileTree Content) :
    TableOnly path b ⟨tree, dbAfterDelete b host path⟩ := by
  unfold dbAfterDelete
  split
  · exact tableOnly_remove path b
  · exact TableOnly.refl path b

/-- What any delete leaves of the file: what was there, or nothing. -/
theorem confined_delete (host : Host) (hn : WellNamed b.tree) (hholds : HoldsDatabase b)
    (hpath : Canonical path names) :
    let b' := (b.delete host path).2
    Confined path names b b' ∧ (objectAt b'.tree names = objectAt b.tree names ∨
      objectAt b'.tree names = none) := by
  intro b'
  have hsame (db : Option MetadataTable) (hdb : TableOnly path b ⟨b.tree, db⟩)
      (hb' : b' = ⟨b.tree, db⟩) : Confined path names b b' ∧
        (objectAt b'.tree names = objectAt b.tree names ∨ objectAt b'.tree names = none) := by
    rw [hb']
    exact ⟨⟨hn, hholds, hdb, fun _ _ => rfl⟩, Or.inl rfl⟩
  cases hfind : b.find host names with
  | none =>
    exact hsame _ (tableOnly_dbAfterDelete host path b.tree) (delete_of_absent hpath.valid hfind)
  | some node =>
  cases hremove : host.remove with
  | false =>
    exact hsame _ (TableOnly.refl path b) (delete_of_kept hpath.valid hfind (Or.inl hremove))
  | true =>
  have hstat : host.stat = true := by
    by_contra hno
    unfold FilesystemBackend.find at hfind
    rw [if_neg hno] at hfind
    cases hfind
  have hthere : b.tree.lookup names = some node := by
    unfold FilesystemBackend.find at hfind
    rwa [if_pos hstat] at hfind
  cases node with
  | dir =>
    exact hsame _ (TableOnly.refl path b) (delete_of_kept hpath.valid hfind (Or.inr hthere))
  | file content =>
    obtain ⟨tree, -, hstate, hlookup⟩ := delete_of_file hpath.valid hstat hremove hthere
    have hb' : b' = ⟨tree, dbAfterDelete b host path⟩ := hstate
    have hother (names' : List String) (hne : names' ≠ names) :
        tree.lookup names' = b.tree.lookup names' := (hlookup names').trans (if_neg hne)
    have hstays (names' : List String) (h : tree.lookup names' ≠ none) :
        b.tree.lookup names' ≠ none := by
      rw [hlookup] at h
      split at h
      · exact absurd rfl h
      · exact h
    have hplace : HoldsDatabase ⟨tree, dbAfterDelete b host path⟩ := by
      intro names'
      by_cases heq : names' = names
      · rw [heq, hlookup, if_pos rfl]
        exact ⟨nofun, fun hno => absurd hno hpath.ne_database⟩
      · rw [hother names' heq]
        exact hholds names'
    rw [hb']
    refine ⟨⟨⟨fun names' h => hn.plain names' (hstays names' h),
      fun names' h => hn.noBackslash names' (hstays names' h), fun names' => (hplace names').mp⟩,
      hplace, tableOnly_dbAfterDelete host path tree,
      fun names' hne => objectAt_congr fun content => by rw [hother names' hne]⟩, Or.inr ?_⟩
    unfold objectAt
    rw [hlookup, if_pos rfl]

/-- What an answered delete leaves: no file if it says that it removed one, and otherwise all
    files. -/
theorem told_of_delete {removed : Bool} (hpath : Canonical path names)
    (h : b.delete host path = (.ok removed, b')) :
    (removed = true → objectAt b'.tree names = none) ∧ (removed = false → b'.tree = b.tree) := by
  unfold FilesystemBackend.delete at h
  rw [hpath.valid] at h
  dsimp only at h
  split at h
  · split at h
    · cases h
    · next b₁ hmetadata =>
      obtain rfl := FilesystemBackend.removeMetadata_ok hmetadata
      cases h
      exact ⟨nofun, fun _ => rfl⟩
  · split at h
    · cases h
    next tree hremoved =>
    split at h
    · cases h
    next b₁ hmetadata =>
    obtain rfl := FilesystemBackend.removeMetadata_ok hmetadata
    cases h
    refine ⟨fun _ => ?_, nofun⟩
    split at hremoved
    · by_cases hfile : ∃ content, b.tree.lookup names = some (.file content)
      · obtain ⟨content, hcontent⟩ := hfile
        obtain ⟨tree', htree', hlookup⟩ := FileTree.removeFile_of_file hcontent
        obtain rfl := Option.some.inj (hremoved.symm.trans htree')
        unfold objectAt
        rw [hlookup, if_pos rfl]
      · rw [FileTree.removeFile_of_not_file (not_exists.mp hfile)] at hremoved
        cases hremoved
    · cases hremoved

/-! ## Openings -/

/-- A loop keeps what its body keeps, also where it ends with an error. -/
theorem forEach_keeps {α : Type}
    {body : FilesystemBackend → α → Except String Unit × FilesystemBackend}
    {P : FilesystemBackend → Prop} {xs : List α} (hbody : ∀ x ∈ xs, ∀ b, P b → P (body b x).2)
    {b : FilesystemBackend} (hb : P b) : P (forEach body xs b).2 := by
  induction xs generalizing b with
  | nil => exact hb
  | cons x xs ih =>
    have hnext := hbody x List.mem_cons_self b hb
    unfold forEach
    cases hx : body b x with
    | mk result b' =>
    rw [hx] at hnext
    cases result with
    | error e => exact hnext
    | ok u => exact ih (fun y hy => hbody y (List.mem_cons_of_mem _ hy)) hnext

/-- A loop that never meets an error. -/
theorem forEach_succeeds {α : Type}
    {body : FilesystemBackend → α → Except String Unit × FilesystemBackend}
    (hbody : ∀ b x, (body b x).1 = .ok ()) (xs : List α) (b : FilesystemBackend) :
    (forEach body xs b).1 = .ok () := by
  induction xs generalizing b with
  | nil => rfl
  | cons x xs ih =>
    have hfirst := hbody b x
    unfold forEach
    cases hx : body b x with
    | mk result b' =>
    rw [hx] at hfirst
    cases hfirst
    exact ih b'

/-- A repair touches one entry and no file. -/
def Repaired (path : String) (b b' : FilesystemBackend) : Prop :=
  b'.tree = b.tree ∧ TableOnly path b b'

theorem repaired_save (b : FilesystemBackend) (host : Host) (m : ObjectMeta) :
    Repaired m.path b (b.saveMetadata host m).2 := by
  unfold FilesystemBackend.saveMetadata
  split
  · exact ⟨rfl, TableOnly.refl _ _⟩
  · exact ⟨rfl, tableOnly_save rfl⟩

theorem repaired_removeOrphaned (host : ReconcileHost) (b : FilesystemBackend) (path : String) :
    Repaired path b (removeOrphaned host b path).2 := by
  unfold removeOrphaned FilesystemBackend.removeMetadata
  split
  · exact ⟨rfl, TableOnly.refl _ _⟩
  · exact ⟨rfl, tableOnly_remove path b⟩

theorem repaired_createMissing (mime : MimeGuess) (host : ReconcileHost) (b : FilesystemBackend)
    (path : String) : Repaired path b (createMissing mime host b path).2 := by
  unfold createMissing
  split
  · exact ⟨rfl, TableOnly.refl _ _⟩
  · next len _ => exact repaired_save b (host.call path) (untracked mime host path len)

theorem repaired_updateStale (host : ReconcileHost) (b : FilesystemBackend)
    (stale : String × Nat) : Repaired stale.1 b (updateStale host b stale).2 := by
  unfold updateStale
  split
  · exact ⟨rfl, TableOnly.refl _ _⟩
  · exact ⟨rfl, TableOnly.refl _ _⟩
  · next m hload =>
    have hpath : m.path = stale.1 := by
      unfold FilesystemBackend.loadMetadata at hload
      split at hload
      · cases hload
      · exact MetadataTable.own_path _ stale.1 m (Except.ok.inj hload)
    rw [← hpath]
    exact repaired_save b (host.call m.path)
      { m with size := stale.2, modifiedAt := (host.call m.path).now }

/-- The entry of a file that has the length it says. -/
def Exact (b : FilesystemBackend) (path : String) (m : ObjectMeta) : Prop :=
  ∃ names data, Canonical path names ∧ b.tree.lookup names = some (.file (.object data)) ∧
    m.size = data.length ∧ ∃ table, b.db = some table ∧ table.lookup path = some m

theorem Exact.walked {m : ObjectMeta} (h : Exact b path m) (hn : WellNamed b.tree) :
    Walked b.tree [] path := by
  obtain ⟨names, data, hpath, hfile, -⟩ := h
  exact hpath.walked hn hfile

/-- The files are as they were, and so are the entries that are exact. -/
structure Spares (b b' : FilesystemBackend) : Prop where
  tree : b'.tree = b.tree
  opened : b'.db ≠ none
  exact : ∀ path m, Exact b path m → ∃ table, b'.db = some table ∧ table.lookup path = some m

theorem Spares.refl (hdb : b.db ≠ none) : Spares b b :=
  ⟨rfl, hdb, fun _ _ ⟨_, _, _, _, _, htable⟩ => htable⟩

theorem Spares.repaired {b'' : FilesystemBackend} (h : Spares b b')
    (hrepaired : Repaired path b' b'') (hpath : ∀ m, ¬ Exact b path m) : Spares b b'' := by
  obtain ⟨htree, honly⟩ := hrepaired
  refine ⟨htree.trans h.tree, fun hnone => ?_, fun p m hexact => ?_⟩
  · obtain ⟨table, hdb⟩ := Option.ne_none_iff_exists'.mp h.opened
    obtain ⟨table', hdb', -⟩ := honly table hdb
    rw [hnone] at hdb'
    cases hdb'
  · obtain ⟨table, hdb, hlookup⟩ := h.exact p m hexact
    obtain ⟨table', hdb', hsame⟩ := honly table hdb
    refine ⟨table', hdb', (hsame p ?_).trans hlookup⟩
    rintro rfl
    exact hpath m hexact

/-- However far reconciling comes, it does not touch an exact entry. -/
theorem spares_reconcile (mime : MimeGuess) {host : ReconcileHost} (hsees : host.Sees)
    (hn : WellNamed b.tree) (hdb : b.db ≠ none) : Spares b (b.reconcile mime host).2 := by
  obtain ⟨table, htable⟩ := Option.ne_none_iff_exists'.mp hdb
  unfold FilesystemBackend.reconcile
  split
  · exact .refl hdb
  next files hfiles =>
  split
  · exact .refl hdb
  have hfound := mem_findings_iff host htable files
  have hscan := mem_scanned hsees hfiles
  have hentry {p : String} {m : ObjectMeta} (h : Exact b p m) : table.lookup p = some m := by
    obtain ⟨_, _, _, _, _, table', hdb', hlookup⟩ := h
    rw [htable] at hdb'
    rwa [Option.some.inj hdb']
  have hremove : Spares b (forEach (removeOrphaned host) (b.findings host files).orphaned b).2 :=
    forEach_keeps (fun p hp b' hb' => hb'.repaired (repaired_removeOrphaned host b' p)
      fun m hexact => ((hfound p).2.1.mp hp).1 ((hscan p).mpr (hexact.walked hn))) (.refl hdb)
  unfold repair
  cases hone : forEach (removeOrphaned host) (b.findings host files).orphaned b with
  | mk result b₁ =>
  rw [hone] at hremove
  cases result with
  | error e => exact hremove
  | ok u =>
  have hcreate : Spares b (forEach (createMissing mime host) (b.findings host files).files b₁).2 :=
    forEach_keeps (fun p hp b' hb' => hb'.repaired (repaired_createMissing mime host b' p)
      fun m hexact => by
        have hnone := ((hfound p).1.mp hp).2
        rw [hentry hexact] at hnone
        cases hnone) hremove
  dsimp only
  cases htwo : forEach (createMissing mime host) (b.findings host files).files b₁ with
  | mk result b₂ =>
  rw [htwo] at hcreate
  cases result with
  | error e => exact hcreate
  | ok u =>
  refine forEach_keeps (fun stale hstale b' hb' => hb'.repaired
    (repaired_updateStale host b' stale) fun m hexact => ?_) hcreate
  obtain ⟨-, m', hlookup, hnote⟩ := ((hfound stale.1).2.2 stale.2).mp hstale
  rw [hentry hexact] at hlookup
  cases hlookup
  obtain ⟨names, data, hpath, hfile, hsize, -⟩ := hexact
  unfold noteOf at hnote
  rw [fileLen_of_object host (resolve_eq_some_iff.mpr hpath.valid) hpath.text hfile, hsize] at hnote
  split at hnote
  · simp [Option.filter] at hnote
  · cases hnote

theorem Recoverable.exact {fates : String → Fate} (hb : Recoverable fates b) {data : Bytes}
    {m : ObjectMeta} (hkept : fates path = .kept data m) : Exact b path m := by
  obtain ⟨hsize, ⟨names, hpath⟩, htable⟩ := hb.entries path data m hkept
  have hallowed := hb.allows path names hpath
  rw [hkept] at hallowed
  exact ⟨names, data, hpath, objectAt_eq_some_iff.mp hallowed, hsize, htable⟩

theorem Recoverable.spared {fates : String → Fate} (hb : Recoverable fates b) (h : Spares b b') :
    Recoverable fates b' := by
  refine ⟨h.tree ▸ hb.named, fun names => h.tree ▸ hb.holds names, h.opened,
    fun path data m hkept => ?_, fun path names hpath => h.tree ▸ hb.allows path names hpath⟩
  obtain ⟨hsize, hpath, -⟩ := hb.entries path data m hkept
  exact ⟨hsize, hpath, h.exact path m (hb.exact hkept)⟩

/-- Opening finds the database in its place. -/
theorem Recoverable.openDatabase_eq {fates : String → Fate} (hb : Recoverable fates b)
    (host : OpenHost) :
    ∃ table, b = ⟨b.tree, some table⟩ ∧ openDatabase host b.tree b.db = some (b.tree, table) := by
  obtain ⟨table, hdb⟩ := Option.ne_none_iff_exists'.mp hb.opened
  refine ⟨table, by rw [← hdb], ?_⟩
  unfold openDatabase
  rw [(hb.holds databasePath).mpr rfl, hdb]
  rfl

/-- An opening carries everything along, also one that does not come to its end. -/
theorem recoverable_attemptOpen {fates : String → Fate} (mime : MimeGuess) {host : OpenHost}
    (hsees : host.reconcile.Sees) (hb : Recoverable fates b) :
    Recoverable fates (attemptOpen mime host b).2 := by
  obtain ⟨table, hself, hfound⟩ := hb.openDatabase_eq host
  unfold attemptOpen
  split
  · exact hb
  rw [hfound]
  cases host.create with
  | false => exact hb
  | true =>
  rw [if_pos rfl]
  dsimp only
  rw [← hself]
  split
  · exact hb
  · have hspared := spares_reconcile mime hsees hb.named hb.opened
    cases hreconcile : b.reconcile mime host.reconcile with
    | mk result b' =>
    rw [hreconcile] at hspared
    cases result with
    | error e => exact hb.spared hspared
    | ok u => exact hb.spared hspared

/-- A host on which every call of an opening succeeds, whatever there is to repair. -/
structure OpenHost.Works (host : OpenHost) : Prop extends host.Willing where
  callTxn : ∀ path, (host.reconcile.call path).txn = none
  loadTxn : ∀ path, (host.reconcile.load path).txn = none

theorem repair_succeeds (mime : MimeGuess) {host : OpenHost} (hhost : host.Works)
    (found : Findings) (b : FilesystemBackend) :
    (repair mime host.reconcile found b).1 = .ok () := by
  have hremove (b : FilesystemBackend) (path : String) :
      (removeOrphaned host.reconcile b path).1 = .ok () := by
    unfold removeOrphaned FilesystemBackend.removeMetadata
    rw [hhost.callTxn path]
  have hsave (b : FilesystemBackend) (path : String) (m : ObjectMeta) :
      (b.saveMetadata (host.reconcile.call path) m).1 = .ok () := by
    unfold FilesystemBackend.saveMetadata
    rw [hhost.callTxn path]
  have hcreate (b : FilesystemBackend) (path : String) :
      (createMissing mime host.reconcile b path).1 = .ok () := by
    unfold createMissing
    split
    · rfl
    · exact hsave b path _
  have hupdate (b : FilesystemBackend) (stale : String × Nat) :
      (updateStale host.reconcile b stale).1 = .ok () := by
    unfold updateStale FilesystemBackend.loadMetadata
    rw [hhost.loadTxn stale.1]
    dsimp only
    split
    · next hload => cases hload
    · rfl
    · exact hsave b stale.1 _
  have hfirst := forEach_succeeds hremove found.orphaned b
  unfold repair
  cases hone : forEach (removeOrphaned host.reconcile) found.orphaned b with
  | mk result b₁ =>
  rw [hone] at hfirst
  cases hfirst
  have hsecond := forEach_succeeds hcreate found.files b₁
  dsimp only
  cases htwo : forEach (createMissing mime host.reconcile) found.files b₁ with
  | mk result b₂ =>
  rw [htwo] at hsecond
  cases hsecond
  exact forEach_succeeds hupdate found.stale b₂

/-- So the store can always be opened again. -/
theorem attemptOpen_succeeds {fates : String → Fate} (mime : MimeGuess) {host : OpenHost}
    (hhost : host.Works) (hb : Recoverable fates b) : (attemptOpen mime host b).1 = true := by
  obtain ⟨table, hself, hfound⟩ := hb.openDatabase_eq host
  obtain ⟨files, hfiles⟩ := scanDirectory_of_readable hhost.readDir hhost.readEntry
    (b.tree.depth + 1) [] []
  have hrepair := repair_succeeds mime hhost (b.findings host.reconcile files) b
  unfold attemptOpen
  simp only [hhost.createDir, hhost.create, if_true, hfound, hhost.initTxn, Bool.not_true,
    Bool.false_eq_true, if_false]
  rw [← hself]
  unfold FilesystemBackend.reconcile scanned
  rw [hfiles, hhost.scanTxn]
  dsimp only
  cases hresult : repair mime host.reconcile (b.findings host.reconcile files) b with
  | mk result b' =>
  rw [hresult] at hrepair
  cases hrepair
  rfl

/-! ## Runs -/

theorem recoverable_put {fates fates' : String → Fate} (mime : MimeGuess) (host : Host)
    (data : Bytes) (contentType : Option String) (answered : Bool) (hb : Recoverable fates b)
    (hpath : Canonical path names) (hsame : ∀ p, p ≠ path → fates' p = fates p)
    (hfate : fates' path = (fates path).after (.put path data contentType)
      (if answered then some (.put (b.put mime host path data contentType).1) else none)) :
    Recoverable fates' (b.put mime host path data contentType).2 := by
  obtain ⟨hconfined, hleft⟩ := confined_put mime host data contentType hb.named hb.holds hpath
  have hold := hb.allows path names hpath
  have hunseen (h : fates' path =
      .doubtful fun found => (fates path).Allows found ∨ ∃ n, found = some (data.take n)) :
      Recoverable fates' (b.put mime host path data contentType).2 := by
    refine hb.call hpath hconfined hsame ?_ fun data m hkept => ?_
    · rw [h]
      rcases hleft with heq | htaken
      · exact Or.inl (heq ▸ hold)
      · exact Or.inr htaken
    · rw [h] at hkept
      cases hkept
  cases answered with
  | false => exact hunseen hfate
  | true =>
  cases hput : b.put mime host path data contentType with
  | mk result b' =>
  rw [hput] at hfate hunseen hconfined
  cases result with
  | error e => exact hunseen hfate
  | ok m =>
    have hkept : fates' path = .kept data m := hfate
    obtain ⟨hobject, hsize, hlookup⟩ := kept_of_put hb.opened hb.holds hpath hput
    refine hb.call hpath hconfined hsame ?_ fun data' m' hkept' => ?_
    · rw [hkept]
      exact hobject
    · rw [hkept] at hkept'
      cases hkept'
      exact ⟨hsize, hlookup⟩

theorem recoverable_delete {fates fates' : String → Fate} (host : Host) (answered : Bool)
    (hb : Recoverable fates b) (hpath : Canonical path names)
    (hsame : ∀ p, p ≠ path → fates' p = fates p)
    (hfate : fates' path = (fates path).after (.delete path)
      (if answered then some (.delete (b.delete host path).1) else none)) :
    Recoverable fates' (b.delete host path).2 := by
  obtain ⟨hconfined, hleft⟩ := confined_delete host hb.named hb.holds hpath
  have hold := hb.allows path names hpath
  have hdoubtful (may : Option Bytes → Prop) (h : fates' path = .doubtful may)
      (hmay : may (objectAt (b.delete host path).2.tree names)) :
      Recoverable fates' (b.delete host path).2 := by
    refine hb.call hpath hconfined hsame (h ▸ hmay) fun data m hkept => ?_
    rw [h] at hkept
    cases hkept
  have hunseen (h : fates' path =
      .doubtful fun found => (fates path).Allows found ∨ found = none) :
      Recoverable fates' (b.delete host path).2 := by
    refine hdoubtful _ h ?_
    rcases hleft with heq | hnone
    · exact Or.inl (heq ▸ hold)
    · exact Or.inr hnone
  cases answered with
  | false => exact hunseen hfate
  | true =>
  cases hdelete : b.delete host path with
  | mk result b' =>
  rw [hdelete] at hfate hunseen hconfined hdoubtful
  cases result with
  | error e => exact hunseen hfate
  | ok removed =>
    obtain ⟨hgone, hstays⟩ := told_of_delete hpath hdelete
    cases removed with
    | true =>
      have hfate' : fates' path = .gone := hfate
      refine hb.call hpath hconfined hsame (hfate' ▸ hgone rfl) fun data m hkept => ?_
      rw [hfate'] at hkept
      cases hkept
    | false =>
      refine hdoubtful _ hfate ?_
      rw [hstays rfl]
      exact hold

/-- What is not canonical does not matter. -/
theorem Recoverable.congr {fates fates' : String → Fate} (hb : Recoverable fates b)
    (hsame : ∀ p names, Canonical p names → fates' p = fates p)
    (hkept : ∀ p data m, fates' p = .kept data m → ∃ names, Canonical p names) :
    Recoverable fates' b := by
  refine ⟨hb.named, hb.holds, hb.opened, fun p data m h => ?_, fun p names hpath => ?_⟩
  · obtain ⟨names, hpath⟩ := hkept p data m h
    exact hb.entries p data m ((hsame p names hpath).symm.trans h)
  · rw [hsame p names hpath]
    exact hb.allows p names hpath

end

section

variable {mime : MimeGuess} {s : Store}

/-- A call on a path that is refused changes nothing on disk, and promises nothing. -/
theorem recoverable_refused {fates' : String → Fate} {path e : String}
    (hs : Recoverable s.fates s.disk) (hinvalid : validatePath path = .error e)
    (hsame : ∀ p, p ≠ path → fates' p = s.fates p)
    (hfate : ∀ data m, fates' path ≠ .kept data m) : Recoverable fates' s.disk := by
  refine hs.congr (fun p names hpath => hsame p ?_) fun p data m hkept => ?_
  · rintro rfl
    have hvalid := hpath.valid
    rw [hinvalid] at hvalid
    cases hvalid
  · have hp : p ≠ path := by
      rintro rfl
      exact hfate data m hkept
    rw [hsame p hp] at hkept
    exact (hs.entries p data m hkept).2.1

theorem recoverable_call (hs : Recoverable s.fates s.disk) (host : Host) (op : Op)
    (answered : Bool) (hplain : (StoreEvent.call host op answered).Plain) :
    Recoverable (s.call mime host op answered).fates (s.call mime host op answered).disk := by
  have hother {path p : String} (htarget : op.target = some path) (hp : p ≠ path) :
      (s.call mime host op answered).fates p = s.fates p := by
    refine if_neg fun htarget' => hp ?_
    rw [htarget] at htarget'
    exact (Option.some.inj htarget').symm
  -- a call that only reads promises what was promised before
  have hreads (htarget : op.target = none) :
      Recoverable (s.call mime host op answered).fates s.disk := by
    have hidle (p : String) : (s.call mime host op answered).fates p = s.fates p := by
      refine if_neg fun htarget' => ?_
      rw [htarget] at htarget'
      cases htarget'
    exact hs.congr (fun p _ _ => hidle p) fun p data m hkept =>
      (hs.entries p data m ((hidle p).symm.trans hkept)).2.1
  cases op with
  | put path data contentType =>
    have hfate : (s.call mime host (.put path data contentType) answered).fates path =
        (s.fates path).after (.put path data contentType)
          (if answered then some (.put (s.disk.put mime host path data contentType).1) else none) :=
      if_pos rfl
    cases hvalid : validatePath path with
    | ok names =>
      exact recoverable_put mime host data contentType answered hs (hplain path rfl names hvalid)
        (fun p hp => hother rfl hp) hfate
    | error e =>
      have hput : s.disk.put mime host path data contentType = (.error e, s.disk) := by
        unfold FilesystemBackend.put
        rw [hvalid]
      have hdisk : (s.call mime host (.put path data contentType) answered).disk = s.disk :=
        congrArg Prod.snd hput
      rw [hput] at hfate
      rw [hdisk]
      refine recoverable_refused hs hvalid (fun p hp => hother rfl hp) fun data' m => ?_
      rw [hfate]
      cases answered with
      | false => nofun
      | true => nofun
  | delete path =>
    have hfate : (s.call mime host (.delete path) answered).fates path =
        (s.fates path).after (.delete path)
          (if answered then some (.delete (s.disk.delete host path).1) else none) := if_pos rfl
    cases hvalid : validatePath path with
    | ok names =>
      exact recoverable_delete host answered hs (hplain path rfl names hvalid)
        (fun p hp => hother rfl hp) hfate
    | error e =>
      have hdelete : s.disk.delete host path = (.error e, s.disk) := by
        unfold FilesystemBackend.delete
        rw [hvalid]
      have hdisk : (s.call mime host (.delete path) answered).disk = s.disk :=
        congrArg Prod.snd hdelete
      rw [hdelete] at hfate
      rw [hdisk]
      refine recoverable_refused hs hvalid (fun p hp => hother rfl hp) fun data m => ?_
      rw [hfate]
      cases answered with
      | false => nofun
      | true => nofun
  | get path => exact hreads rfl
  | head path => exact hreads rfl
  | list pre => exact hreads rfl

theorem recoverable_step (hs : Recoverable s.fates s.disk) (e : StoreEvent) (hplain : e.Plain) :
    Recoverable (s.step mime e).fates (s.step mime e).disk := by
  cases hserving : s.serving with
  | true =>
    cases e with
    | call host op answered =>
      rw [show s.step mime (.call host op answered) = s.call mime host op answered from
        if_pos hserving]
      exact recoverable_call hs host op answered hplain
    | crash => exact hs
    | start host =>
      rw [show s.step mime (.start host) = s from if_pos hserving]
      exact hs
  | false =>
    have hnot : ¬ s.serving = true := by
      rw [hserving]
      exact Bool.false_ne_true
    cases e with
    | call host op answered =>
      rw [show s.step mime (.call host op answered) = s from if_neg hnot]
      exact hs
    | crash => exact hs
    | start host =>
      rw [show s.step mime (.start host) = { s with
        disk := (attemptOpen mime host s.disk).2, serving := (attemptOpen mime host s.disk).1 }
        from if_neg hnot]
      exact recoverable_attemptOpen mime hplain hs

theorem recoverable_fresh : Recoverable (fun _ => .gone) .openEmpty := by
  have hsettled := settled_of_openAt wellNamed_empty (OpenHost.willing_answers 0)
    (openAt_empty (fun _ => none) 0)
  refine ⟨hsettled.named, hsettled.holds, nofun, nofun, fun path names hpath => ?_⟩
  refine Option.eq_none_iff_forall_ne_some.mpr fun data hobject => ?_
  have hfile := objectAt_eq_some_iff.mp hobject
  have hlookup := openDatabase_tree
    (show openDatabase (.willing 0) .empty none =
      some (FilesystemBackend.openEmpty.tree, .empty) from rfl) names
  rw [if_neg hpath.ne_database, hfile] at hlookup
  exact FileTree.lookup_empty_file names _ hlookup.symm

theorem recoverable_run (mime : MimeGuess) (events : List StoreEvent)
    (hplain : ∀ e ∈ events, e.Plain) :
    let s := run (Store.step mime) .fresh events
    Recoverable s.fates s.disk :=
  @run_invariant _ _ (Store.step mime) (fun _ e => e.Plain) (fun s => Recoverable s.fates s.disk)
    .fresh events recoverable_fresh (fun _ e hs he => recoverable_step hs e he)
    (along_of_mem fun e he _ => hplain e he)

/-! ## What is found again -/

/-- The host lets a client read. -/
structure Host.Reads (host : Host) : Prop where
  stat : host.stat = true
  read : host.read = true
  txn : host.txn = none

/-- An object that was put, and its metadata, as every read gives them. -/
structure Found (mime : MimeGuess) (b : FilesystemBackend) (path : String) (data : Bytes)
    (m : ObjectMeta) : Prop where
  get : ∀ host : Host, host.Reads → b.get mime host path = .ok (some (data, m))
  head : ∀ host : Host, host.Reads → b.head mime host path = .ok (some m)
  list : ∀ host : Host, host.Reads → ∃ listed, b.list host none = .ok listed ∧ m ∈ listed

theorem Exact.found {b : FilesystemBackend} {path : String} {names : List String} {data : Bytes}
    {m : ObjectMeta} (hpath : Canonical path names) (hobject : objectAt b.tree names = some data)
    (hexact : Exact b path m) : Found mime b path data m := by
  obtain ⟨names', data', hpath', hfile, -, table, hdb, hlookup⟩ := hexact
  obtain rfl := names_unique hpath.valid hpath'.valid
  rw [objectAt_eq_some_iff, hfile] at hobject
  cases hobject
  have hfind {host : Host} (h : host.Reads) :
      b.find host names = some (.file (.object data)) := by
    unfold FilesystemBackend.find
    rw [if_pos h.stat, hfile]
  have hmeta {host : Host} (h : host.Reads) (node : Node Content) :
      b.metaOf mime host path names node = .ok m := by
    unfold FilesystemBackend.metaOf FilesystemBackend.loadMetadata
    rw [h.txn, hdb, Option.getD_some, hlookup]
  refine ⟨fun host h => ?_, fun host h => ?_, fun host h =>
    ⟨listed table.entries.entries none, ?_, ?_⟩⟩
  · unfold FilesystemBackend.get FilesystemBackend.readObject
    rw [hpath.valid]
    dsimp only
    rw [hfind h]
    dsimp only
    rw [if_pos h.read]
    dsimp only
    rw [hmeta h]
    rfl
  · unfold FilesystemBackend.head
    rw [hpath.valid]
    dsimp only
    rw [hfind h]
    dsimp only
    rw [hmeta h]
  · unfold FilesystemBackend.list
    rw [h.txn, hdb, Option.getD_some]
  · rw [mem_listed, table.own_path path m hlookup]
    exact hlookup

/-- Whatever a get returns is the object. -/
theorem objectAt_of_get {b : FilesystemBackend} (hholds : HoldsDatabase b) {path : String}
    {names : List String} (hpath : Canonical path names) {host : Host} {data : Bytes}
    {m : ObjectMeta} (h : b.get mime host path = .ok (some (data, m))) :
    objectAt b.tree names = some data := by
  unfold FilesystemBackend.get at h
  rw [hpath.valid] at h
  dsimp only at h
  split at h
  · cases h
  next node hfind =>
  split at h
  · cases h
  next bytes hread =>
  split at h
  · cases h
  cases h
  have hthere : b.tree.lookup names = some node := by
    unfold FilesystemBackend.find at hfind
    split at hfind
    · exact hfind
    · cases hfind
  refine objectAt_eq_some_iff.mpr (hthere.trans ?_)
  cases node with
  | dir => cases hread
  | file content =>
  cases content with
  | database => exact absurd ((hholds names).mp hthere) hpath.ne_database
  | object data' =>
    have hbytes : (if host.read then some data' else none) = some data := hread
    split at hbytes
    · rw [Option.some.inj hbytes]
    · cases hbytes

/-- The store recovers from every crash. However many calls are made, answered or not, wherever the
    process ends in the middle of a call or of opening the store again: what the last put of a path
    left that was answered is found with its metadata, until the path is put or deleted again; a
    get returns nothing but what the calls on its path allow; and the store can be opened again,
    with a table that has an entry of the right length for each object and for nothing else where
    every question about a file was answered. -/
theorem acknowledged_survives (mime : MimeGuess) (events : List StoreEvent)
    (hplain : ∀ e ∈ events, e.Plain) :
    let s := run (Store.step mime) .fresh events
    (∀ path data m, s.fates path = .kept data m → Found mime s.disk path data m) ∧
    (∀ path names host data m, Canonical path names →
      s.disk.get mime host path = .ok (some (data, m)) → (s.fates path).Allows (some data)) ∧
    ∀ host, s.serving = false →
      (host.Works → (s.step mime (.start host)).serving = true) ∧
      ((s.step mime (.start host)).serving = true → host.reconcile.Answers →
        Settled (s.step mime (.start host)).disk) := by
  intro s
  have hs : Recoverable s.fates s.disk := recoverable_run mime events hplain
  refine ⟨fun path data m hkept => ?_, fun path names host data m hpath hget => ?_,
    fun host hcrashed => ?_⟩
  · obtain ⟨-, ⟨names, hpath⟩, -⟩ := hs.entries path data m hkept
    have hobject := hs.allows path names hpath
    rw [hkept] at hobject
    exact (hs.exact hkept).found hpath hobject
  · have hallowed := hs.allows path names hpath
    rwa [objectAt_of_get hs.holds hpath hget] at hallowed
  · have hstart : s.step mime (.start host) = { s with
        disk := (attemptOpen mime host s.disk).2, serving := (attemptOpen mime host s.disk).1 } :=
      if_neg fun hserving => absurd (hcrashed.symm.trans hserving) Bool.false_ne_true
    rw [hstart]
    refine ⟨fun hhost => attemptOpen_succeeds mime hhost hs, fun hopened hanswers => ?_⟩
    exact settled_of_openAt hs.named hanswers
      ((attemptOpen_iff mime host s.disk _).mp (Prod.ext hopened rfl))

/-- The process ends while it writes `b`, and once more while it opens the store. -/
theorem object_survives_crashes :
    let short : Host := { Host.willing 2 with write := .short 1 }
    let stuck : OpenHost := { OpenHost.willing 3 with initTxn := some .finish }
    let s := run (Store.step fun _ => none) .fresh
      [.call (.willing 1) (.put "a" [1] none) true, .call short (.put "b" [2, 3] none) false,
        .crash, .start stuck, .start (.willing 4)]
    Found (fun _ => none) s.disk "a" [1] ⟨"a", 1, "application/octet-stream", 1, 1⟩ := by
  have ha : Canonical "a" ["a"] := ⟨by decide, by decide, by decide, by decide⟩
  have hb : Canonical "b" ["b"] := ⟨by decide, by decide, by decide, by decide⟩
  have hplain {path : String} {names : List String} (h : Canonical path names) (host : Host)
      (data : Bytes) (answered : Bool) :
      (StoreEvent.call host (.put path data none) answered).Plain := by
    intro path' htarget names' hvalid
    cases htarget
    obtain rfl := names_unique h.valid hvalid
    exact h
  refine (acknowledged_survives (fun _ => none) [_, _, _, _, _] ?_).1 "a" [1] _ rfl
  intro e he
  simp only [List.mem_cons, List.not_mem_nil, or_false] at he
  rcases he with rfl | rfl | rfl | rfl | rfl
  · exact hplain ha _ _ _
  · exact hplain hb _ _ _
  · trivial
  · exact fun _ => rfl
  · exact fun _ => rfl

end

end Mik.Storage
