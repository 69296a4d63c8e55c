/-
  Exchanging the two object stores.

  The memory backend stores and reports an object under the text of its normalised path, the
  filesystem backend under the path as written, and only the filesystem has directories and a
  database file in its name space. `Agrees` relates the two stores as long as every object was put
  under its canonical spelling. A call that meets `Substitutable` is then answered alike and keeps
  the relation (`agrees_step`), and so is every call of a run (`substitutable_replies`).
-/
import Mathlib.Data.List.Infix
import Mik.Storage.Consistency
import Mik.Storage.Memory

namespace Mik.Storage

open Mik.Lib

/-! ## Replies -/

/-- Metadata without the timestamps. -/
def ObjectMeta.untimed (m : ObjectMeta) : String × Nat × String := (m.path, m.size, m.contentType)

/-- Both fail, or both succeed with related values. -/
def SameResult {α : Type} (Same : α → α → Prop) : Except String α → Except String α → Prop
  | .ok a, .ok b => Same a b
  | .error _, .error _ => True
  | _, _ => False

/-- The same reply, up to timestamps and the order of a listing. -/
def Reply.Same : Reply → Reply → Prop
  | .put r, .put r' => SameResult (fun m m' => m.untimed = m'.untimed) r r'
  | .get r, .get r' => SameResult (fun o o' => o.map (fun x => (x.1, x.2.untimed)) =
      o'.map fun x => (x.1, x.2.untimed)) r r'
  | .delete r, .delete r' => SameResult Eq r r'
  | .head r, .head r' =>
    SameResult (fun o o' => o.map ObjectMeta.untimed = o'.map ObjectMeta.untimed) r r'
  | .list r, .list r' =>
    SameResult (fun l l' => (l.map ObjectMeta.untimed).Perm (l'.map ObjectMeta.untimed)) r r'
  | _, _ => False

/-! ## The relation between the stores -/

structure Agrees (mem : MemoryStorageBackend) (b : FilesystemBackend) (table : MetadataTable) :
    Prop where
  db : b.db = some table
  /-- The same keys, with the same metadata up to timestamps. -/
  infos : ∀ key, (mem.data.lookup key).map (fun obj => obj.info.untimed) =
    (table.lookup key).map ObjectMeta.untimed
  /-- Every key is the canonical spelling of a path with the object's file. -/
  stored : ∀ key obj, mem.data.lookup key = some obj → ∃ names, validatePath key = .ok names ∧
    memoryKey names = key ∧ b.tree.lookup names = some (.file (.object obj.data))
  /-- Every object file has its key. -/
  filed : ∀ names data, b.tree.lookup names = some (.file (.object data)) →
    validatePath (memoryKey names) = .ok names ∧ mem.data.lookup (memoryKey names) ≠ none

theorem agrees_empty : Agrees .new .openEmpty .empty where
  db := rfl
  infos := fun key => rfl
  stored := by
    intro key obj h
    cases h
  filed := by
    intro names data h
    obtain ⟨table, hdb, hpaired⟩ := consistent_openEmpty
    cases hdb
    have hsize := objectSize_object h
    obtain ⟨path, hpath, -⟩ := hpaired.keyed names data.length hsize
    cases hpath

/-- No component has a backslash. -/
def NoBackslash (names : List String) : Prop := memoryKey names = pathText names

instance (names : List String) : Decidable (NoBackslash names) :=
  inferInstanceAs (Decidable (_ = _))

section

variable {mem : MemoryStorageBackend} {b : FilesystemBackend} {table : MetadataTable}

/-- The object of a file, found under the path's canonical spelling. -/
theorem Agrees.object_of_file (h : Agrees mem b table) {names : List String} {data : Bytes}
    (hfile : b.tree.lookup names = some (.file (.object data))) :
    ∃ obj m, mem.data.lookup (memoryKey names) = some obj ∧ obj.data = data ∧
      table.lookup (memoryKey names) = some m ∧ obj.info.untimed = m.untimed := by
  obtain ⟨hvalid, hmem⟩ := h.filed names data hfile
  obtain ⟨obj, hobj⟩ := Option.ne_none_iff_exists'.mp hmem
  obtain ⟨names', hvalid', -, hfile'⟩ := h.stored _ obj hobj
  obtain rfl := names_unique hvalid hvalid'
  rw [hfile] at hfile'
  have hinfo := h.infos (memoryKey names)
  rw [hobj, Option.map_some] at hinfo
  obtain ⟨m, hm, huntimed⟩ := Option.map_eq_some_iff.mp hinfo.symm
  refine ⟨obj, m, hobj, ?_, hm, huntimed.symm⟩
  simp only [Option.some.injEq, Node.file.injEq, Content.object.injEq] at hfile'
  exact hfile'.symm

/-- Where there is no object file, the memory has nothing under any spelling. -/
theorem Agrees.absent (h : Agrees mem b table) {path : String} {names : List String}
    (hvalid : validatePath path = .ok names)
    (hno : ∀ data, b.tree.lookup names ≠ some (.file (.object data))) :
    mem.data.lookup path = none := by
  cases hobj : mem.data.lookup path with
  | none => rfl
  | some obj =>
    obtain ⟨names', hvalid', -, hfile⟩ := h.stored path obj hobj
    obtain rfl := names_unique hvalid hvalid'
    exact absurd hfile (hno obj.data)

theorem Agrees.table_absent (h : Agrees mem b table) {path : String}
    (hmem : mem.data.lookup path = none) : table.lookup path = none := by
  have hinfo := h.infos path
  rw [hmem, Option.map_none] at hinfo
  exact Option.map_eq_none_iff.mp hinfo.symm

/-! ## The condition -/

/-- What a call that reads or removes asks of the path: nothing is there, or an object under the
    canonical spelling, and the host does its part. -/
def FoundAlike (b : FilesystemBackend) (path : String) (ifAbsent ifObject : Prop) : Prop :=
  ∀ names, validatePath path = .ok names → NoBackslash names ∧
    match b.tree.lookup names with
    | none => ifAbsent
    | some (.file (.object _)) => memoryKey names = path ∧ ifObject
    | some _ => False

def Substitutable (b : FilesystemBackend) (host : Host) : Op → Prop
  | .put path _ _ => ∀ names, validatePath path = .ok names →
      memoryKey names = path ∧
      b.tree.lookup names ≠ some .dir ∧ b.tree.lookup names ≠ some (.file .database) ∧
      (∀ pre content, pre <+: names.dropLast → b.tree.lookup pre ≠ some (.file content)) ∧
      names.dropLast.length ≤ host.mkdirLimit ∧ host.commits
  | .get path => FoundAlike b path True (host.stat = true ∧ host.read = true ∧ host.txn = none)
  | .delete path =>
    FoundAlike b path (host.txn = none)
      (host.stat = true ∧ host.remove = true ∧ host.txn = none)
  | .head path => FoundAlike b path True (host.stat = true ∧ host.txn = none)
  | .list _ => host.txn = none

theorem FoundAlike.cases {path : String} {ifAbsent ifObject : Prop}
    (h : FoundAlike b path ifAbsent ifObject) {names : List String}
    (hvalid : validatePath path = .ok names) :
    NoBackslash names ∧ ((b.tree.lookup names = none ∧ ifAbsent) ∨
      ∃ data, b.tree.lookup names = some (.file (.object data)) ∧ memoryKey names = path ∧
        ifObject) := by
  obtain ⟨hplain, hmatch⟩ := h names hvalid
  refine ⟨hplain, ?_⟩
  cases hnode : b.tree.lookup names with
  | none =>
    rw [hnode] at hmatch
    exact Or.inl ⟨rfl, hmatch⟩
  | some node =>
    rw [hnode] at hmatch
    cases node with
    | dir => exact absurd hmatch not_false
    | file content =>
      cases content with
      | database => exact absurd hmatch not_false
      | object data => exact Or.inr ⟨data, rfl, hmatch⟩

/-- Nothing at a path means nothing under the key of the memory. -/
theorem Agrees.key_absent (h : Agrees mem b table) {path : String} {names : List String}
    (hvalid : validatePath path = .ok names) (hplain : NoBackslash names)
    (hnone : b.tree.lookup names = none) : mem.data.lookup (memoryKey names) = none := by
  have hkey : validatePath (memoryKey names) = .ok names := by
    rw [hplain]
    exact validatePath_of_ok hvalid
  exact h.absent hkey fun data => by rw [hnone]; simp

/-! ## Replies of related stores -/

theorem find_of_stat {host : Host} (hstat : host.stat = true) (names : List String) :
    b.find host names = b.tree.lookup names := if_pos hstat

theorem find_of_none {host : Host} {names : List String} (hnone : b.tree.lookup names = none) :
    b.find host names = none := by
  unfold FilesystemBackend.find
  rw [hnone, ite_self]

/-- The stored metadata of an object, when the database answers. -/
theorem Agrees.metaOf_eq (h : Agrees mem b table) (mime : MimeGuess) {host : Host}
    (htxn : host.txn = none) {path : String} {m : ObjectMeta} (hm : table.lookup path = some m)
    (names : List String) (node : Node Content) : b.metaOf mime host path names node = .ok m := by
  unfold FilesystemBackend.metaOf FilesystemBackend.loadMetadata
  rw [htxn, h.db]
  dsimp only [Option.getD_some]
  rw [hm]

theorem same_get (h : Agrees mem b table) (mime : MimeGuess) (host : Host) (path : String)
    (hok : Substitutable b host (.get path)) :
    Reply.Same (.get (mem.get path)) (.get (b.get mime host path)) := by
  cases hvalid : validatePath path with
  | error e =>
    simp only [MemoryStorageBackend.get, FilesystemBackend.get, hvalid]
    trivial
  | ok names =>
    obtain ⟨hplain, ⟨hnone, -⟩ | ⟨data, hfile, hkey, hstat, hread, htxn⟩⟩ :=
      FoundAlike.cases hok hvalid
    · simp only [MemoryStorageBackend.get, FilesystemBackend.get, hvalid, find_of_none hnone,
        h.key_absent hvalid hplain hnone]
      rfl
    · obtain ⟨obj, m, hobj, rfl, hm, huntimed⟩ := h.object_of_file hfile
      have hmeta := h.metaOf_eq mime htxn hm names (.file (.object obj.data))
      rw [hkey] at hmeta
      simp only [MemoryStorageBackend.get, FilesystemBackend.get, hvalid, find_of_stat hstat, hfile,
        FilesystemBackend.readObject, hread, if_true, Content.bytes, hmeta, hobj]
      simp only [Reply.Same, SameResult, Option.map_some, huntimed]

theorem same_head (h : Agrees mem b table) (mime : MimeGuess) (host : Host) (path : String)
    (hok : Substitutable b host (.head path)) :
    Reply.Same (.head (mem.head path)) (.head (b.head mime host path)) := by
  cases hvalid : validatePath path with
  | error e =>
    simp only [MemoryStorageBackend.head, FilesystemBackend.head, hvalid]
    trivial
  | ok names =>
    obtain ⟨hplain, ⟨hnone, -⟩ | ⟨data, hfile, hkey, hstat, htxn⟩⟩ := FoundAlike.cases hok hvalid
    · simp only [MemoryStorageBackend.head, FilesystemBackend.head, hvalid, find_of_none hnone,
        h.key_absent hvalid hplain hnone]
      rfl
    · obtain ⟨obj, m, hobj, -, hm, huntimed⟩ := h.object_of_file hfile
      have hmeta := h.metaOf_eq mime htxn hm names (.file (.object data))
      rw [hkey] at hmeta
      simp only [MemoryStorageBackend.head, FilesystemBackend.head, hvalid, find_of_stat hstat,
        hfile, hmeta, hobj]
      simp only [Reply.Same, SameResult, Option.map_some, huntimed]

/-! ## Listing -/

/-- A listing without the timestamps, up to order: the wanted entries of the map. -/
theorem untimed_listed (entries : List (Σ _ : String, ObjectMeta)) (pre : Option String) :
    ((listed entries pre).map ObjectMeta.untimed).Perm
      (((entries.map fun entry => (entry.1, entry.2.untimed)).filter
        fun entry => (pre.map fun p => startsWith p entry.1).getD true).map Prod.snd) := by
  unfold listed
  refine ((List.perm_insertionSort _ _).map _).trans ?_
  rw [List.filter_map, List.map_map, List.map_map]
  exact List.Perm.refl _

theorem nodup_untimed {α : Type} (entries : AList fun _ : String => α)
    (f : α → String × Nat × String) :
    (entries.entries.map fun entry => (entry.1, f entry.2)).Nodup := by
  refine List.Nodup.of_map Prod.fst ?_
  rw [List.map_map]
  exact entries.keys_nodup

theorem mem_untimed {α : Type} (entries : AList fun _ : String => α)
    (f : α → String × Nat × String) (key : String) (x : String × Nat × String) :
    (key, x) ∈ entries.entries.map (fun entry => (entry.1, f entry.2)) ↔
      (entries.lookup key).map f = some x := by
  rw [List.mem_map, Option.map_eq_some_iff]
  constructor
  · rintro ⟨⟨key', a⟩, hmem, heq⟩
    cases heq
    exact ⟨a, AList.mem_lookup_iff.mpr hmem, rfl⟩
  · rintro ⟨a, ha, rfl⟩
    exact ⟨⟨key, a⟩, AList.mem_lookup_iff.mp ha, rfl⟩

theorem same_list (h : Agrees mem b table) (host : Host) (pre : Option String)
    (hok : Substitutable b host (.list pre)) :
    Reply.Same (.list (mem.list pre)) (.list (b.list host pre)) := by
  have htxn : host.txn = none := hok
  have hentries : ((mem.data.entries.map fun entry => (entry.1, entry.2.info.untimed)) :
      List (String × String × Nat × String)).Perm
      (table.entries.entries.map fun entry => (entry.1, entry.2.untimed)) := by
    refine (List.perm_ext_iff_of_nodup (nodup_untimed mem.data fun obj => obj.info.untimed)
      (nodup_untimed table.entries ObjectMeta.untimed)).mpr ?_
    rintro ⟨key, x⟩
    rw [mem_untimed mem.data (fun obj => obj.info.untimed), mem_untimed table.entries, h.infos]
    exact Iff.rfl
  unfold MemoryStorageBackend.list FilesystemBackend.list
  rw [htxn, h.db]
  refine (untimed_listed _ pre).trans (List.Perm.trans ?_ (untimed_listed _ pre).symm)
  rw [List.map_map]
  exact (hentries.filter _).map _

/-! ## Putting -/

/-- A put that nothing stands in the way of. -/
theorem put_of_free {mime : MimeGuess} {host : Host} {path : String} {data : Bytes}
    {contentType : Option String} {names : List String} (hdb : b.db = some table)
    (hvalid : validatePath path = .ok names)
    (hok : Substitutable b host (.put path data contentType)) :
    ∃ tree, b.put mime host path data contentType =
        (.ok ⟨path, data.length, contentTypeOf mime names contentType, host.now, host.now⟩,
          ⟨tree, some (table.save
            ⟨path, data.length, contentTypeOf mime names contentType, host.now, host.now⟩)⟩) ∧
      ∀ names' content, tree.lookup names' = some (.file content) ↔
        if names' = names then content = .object data
        else b.tree.lookup names' = some (.file content) := by
  obtain ⟨-, hnotDir, hnotDatabase, hfree, hlimit, hcomplete, htxn⟩ := hok names hvalid
  have hne := names_ne_nil hvalid
  have hmade := @FileTree.createDirAll_of_no_file _ _ host.mkdirLimit [] names.dropLast b.tree
    rfl hlimit hfree
  have hparent := @FileTree.createDirAll_dir _ _ host.mkdirLimit [] names.dropLast b.tree rfl hmade
  have hfiles := FileTree.createDirAll_file_iff host.mkdirLimit [] names.dropLast b.tree
  have hstill : (FileTree.createDirAll host.mkdirLimit [] names.dropLast b.tree).2.lookup names ≠
      some .dir := by
    rcases FileTree.lookup_createDirAll host.mkdirLimit [] names.dropLast b.tree names with
      hsame | ⟨hpre, -⟩
    · rw [hsame]
      exact hnotDir
    · -- the directories made are shorter than `names`
      have hlen := hpre.length_le
      rw [List.nil_append, List.length_dropLast] at hlen
      have := List.length_pos_iff.mpr hne
      omega
  cases hdirs : FileTree.createDirAll host.mkdirLimit [] names.dropLast b.tree with
  | mk made tree =>
  rw [hdirs] at hmade hparent hfiles hstill
  have hmade : made = true := hmade
  subst hmade
  obtain ⟨tree', htree'⟩ := Option.isSome_iff_exists.mp
    ((FileTree.isSome_write (.object data)).mpr ⟨hne, hparent, hstill⟩)
  have hdatabase : tree.lookup names ≠ some (.file .database) :=
    fun h => hnotDatabase ((hfiles names _).mp h)
  refine ⟨tree', ?_, fun names' content => ?_⟩
  · simp only [FilesystemBackend.put, hvalid, hdirs, FilesystemBackend.writeObject, hcomplete,
      WriteOutcome.written, htree', hdatabase, decide_true, if_false,
      FilesystemBackend.saveMetadata, htxn, hdb, Option.map_some]
  · rw [FileTree.lookup_write htree']
    by_cases heq : names' = names
    · rw [if_pos heq, if_pos heq]
      simp only [Option.some.injEq, Node.file.injEq]
      exact eq_comm
    · rw [if_neg heq, if_neg heq]
      exact hfiles names' content

theorem agrees_put (h : Agrees mem b table) (mime : MimeGuess) (now : Nat) (host : Host)
    (path : String) (data : Bytes) (contentType : Option String)
    (hok : Substitutable b host (.put path data contentType)) :
    Reply.Same (.put (mem.put mime now path data contentType).1)
        (.put (b.put mime host path data contentType).1) ∧
      ∃ table', Agrees (mem.put mime now path data contentType).2
        (b.put mime host path data contentType).2 table' := by
  cases hvalid : validatePath path with
  | error e =>
    simp only [MemoryStorageBackend.put, FilesystemBackend.put, hvalid]
    exact ⟨trivial, table, h⟩
  | ok names =>
    have hkey : memoryKey names = path := (hok names hvalid).1
    obtain ⟨tree, hput, hfiles⟩ := put_of_free h.db hvalid hok
    rw [hput]
    simp only [MemoryStorageBackend.put, hvalid, hkey]
    refine ⟨rfl, _, rfl, fun key => ?_, fun key obj hobj => ?_, fun names' data' hfile => ?_⟩
    · rw [MetadataTable.lookup_save]
      by_cases heq : key = path
      · rw [heq, AList.lookup_insert, if_pos rfl]
        rfl
      · rw [AList.lookup_insert_ne heq, if_neg heq]
        exact h.infos key
    · by_cases heq : key = path
      · rw [heq, AList.lookup_insert] at hobj
        cases hobj
        exact ⟨names, by rw [heq, hvalid], by rw [heq, hkey], (hfiles _ _).mpr (by rw [if_pos rfl])⟩
      · rw [AList.lookup_insert_ne heq] at hobj
        obtain ⟨names', hvalid', hkey', hfile⟩ := h.stored key obj hobj
        have hne : names' ≠ names := by
          rintro rfl
          exact heq (hkey'.symm.trans hkey)
        exact ⟨names', hvalid', hkey', (hfiles _ _).mpr (by rw [if_neg hne]; exact hfile)⟩
    · rw [hfiles] at hfile
      by_cases heq : names' = names
      · rw [heq, hkey, AList.lookup_insert]
        exact ⟨hvalid, by simp⟩
      · rw [if_neg heq] at hfile
        obtain ⟨hvalid', hmem⟩ := h.filed names' data' hfile
        have hne : memoryKey names' ≠ path := by
          intro hsame
          rw [hsame, hvalid] at hvalid'
          cases hvalid'
          exact heq rfl
        rw [AList.lookup_insert_ne hne]
        exact ⟨hvalid', hmem⟩

/-! ## Deleting -/

theorem agrees_delete (h : Agrees mem b table) (host : Host) (path : String)
    (hok : Substitutable b host (.delete path)) :
    Reply.Same (.delete (mem.delete path).1) (.delete (b.delete host path).1) ∧
      ∃ table', Agrees (mem.delete path).2 (b.delete host path).2 table' := by
  cases hvalid : validatePath path with
  | error e =>
    simp only [MemoryStorageBackend.delete, FilesystemBackend.delete, hvalid]
    exact ⟨trivial, table, h⟩
  | ok names =>
    obtain ⟨hplain, ⟨hnone, htxn⟩ | ⟨data, hfile, hkey, hstat, hremove, htxn⟩⟩ :=
      FoundAlike.cases hok hvalid
    · have hmem := h.key_absent hvalid hplain hnone
      have hmem' : mem.data.lookup path = none :=
        h.absent hvalid fun data => by rw [hnone]; simp
      -- neither removal changes a lookup
      have herase : ∀ key, (mem.data.erase (memoryKey names)).lookup key = mem.data.lookup key := by
        intro key
        by_cases heq : key = memoryKey names
        · rw [heq, AList.lookup_erase, hmem]
        · exact AList.lookup_erase_ne heq
      have htable : ∀ key, (table.remove path).lookup key = table.lookup key := by
        intro key
        rw [MetadataTable.lookup_remove]
        by_cases heq : key = path
        · rw [if_pos heq, heq, h.table_absent hmem']
        · rw [if_neg heq]
      simp only [MemoryStorageBackend.delete, FilesystemBackend.delete, hvalid, find_of_none hnone,
        FilesystemBackend.removeMetadata, htxn, hmem, h.db, Option.map_some]
      refine ⟨rfl, table.remove path, rfl, fun key => ?_, fun key obj hobj => ?_,
        fun names' data' => ?_⟩
      · rw [herase, htable]
        exact h.infos key
      · rw [herase] at hobj
        exact h.stored key obj hobj
      · rw [herase]
        exact h.filed names' data'
    · obtain ⟨obj, m, hobj, rfl, hm, -⟩ := h.object_of_file hfile
      obtain ⟨tree, htree, hlookup⟩ := FileTree.removeFile_of_file hfile
      simp only [MemoryStorageBackend.delete, FilesystemBackend.delete, hvalid,
        find_of_stat hstat, hfile, hremove, if_true, htree, FilesystemBackend.removeMetadata, htxn,
        hobj, h.db, Option.map_some]
      rw [hkey]
      refine ⟨rfl, table.remove path, rfl, fun key => ?_, fun key obj' hobj' => ?_,
        fun names' data' hfile' => ?_⟩
      · rw [MetadataTable.lookup_remove]
        by_cases heq : key = path
        · rw [if_pos heq, heq, AList.lookup_erase]
          rfl
        · rw [if_neg heq, AList.lookup_erase_ne heq]
          exact h.infos key
      · have heq : key ≠ path := by
          rintro rfl
          rw [AList.lookup_erase] at hobj'
          cases hobj'
        rw [AList.lookup_erase_ne heq] at hobj'
        obtain ⟨names', hvalid', hkey', hfile'⟩ := h.stored key obj' hobj'
        have hne : names' ≠ names := by
          rintro rfl
          exact heq (hkey'.symm.trans hkey)
        exact ⟨names', hvalid', hkey', by rw [hlookup, if_neg hne]; exact hfile'⟩
      · have hne : names' ≠ names := by
          rintro rfl
          rw [hlookup, if_pos rfl] at hfile'
          cases hfile'
        rw [hlookup, if_neg hne] at hfile'
        obtain ⟨hvalid', hmem⟩ := h.filed names' data' hfile'
        have hother : memoryKey names' ≠ path := by
          intro hsame
          rw [hsame, hvalid] at hvalid'
          cases hvalid'
          exact hne rfl
        rw [AList.lookup_erase_ne hother]
        exact ⟨hvalid', hmem⟩

end

/-! ## Runs -/

/-- The two stores side by side. -/
structure Both where
  mem : MemoryStorageBackend
  fs : FilesystemBackend

/-- One call on both: the clock of the first, the host of the second, and the call. -/
abbrev BothCall := Nat × Host × Op

def Both.step (mime : MimeGuess) (s : Both) (e : BothCall) : Both :=
  ⟨(s.mem.call mime e.1 e.2.2).2, (s.fs.call mime e.2.1 e.2.2).2⟩

def SameReply (mime : MimeGuess) (s : Both) (e : BothCall) : Prop :=
  Reply.Same (s.mem.call mime e.1 e.2.2).1 (s.fs.call mime e.2.1 e.2.2).1

theorem agrees_step (mime : MimeGuess) (s : Both) (e : BothCall)
    (h : ∃ table, Agrees s.mem s.fs table) (hok : Substitutable s.fs e.2.1 e.2.2) :
    SameReply mime s e ∧ ∃ table, Agrees (s.step mime e).mem (s.step mime e).fs table := by
  obtain ⟨now, host, op⟩ := e
  obtain ⟨table, h⟩ := h
  cases op with
  | put path data contentType => exact agrees_put h mime now host path data contentType hok
  | get path => exact ⟨same_get h mime host path hok, table, h⟩
  | delete path => exact agrees_delete h host path hok
  | head path => exact ⟨same_head h mime host path hok, table, h⟩
  | list pre => exact ⟨same_list h host pre hok, table, h⟩

/-- Substitutability over whole runs: from the empty stores on, every call of a run gets the same
    reply from both, as long as each one meets `Substitutable` in the state it finds. -/
theorem substitutable_replies (mime : MimeGuess) (calls : List BothCall)
    (h : Along (Both.step mime) (fun s e => Substitutable s.fs e.2.1 e.2.2)
      ⟨.new, .openEmpty⟩ calls) :
    Along (Both.step mime) (SameReply mime) ⟨.new, .openEmpty⟩ calls :=
  along_of_invariant (fun s : Both => ∃ table, Agrees s.mem s.fs table) ⟨.empty, agrees_empty⟩
    (agrees_step mime) h

/-- Already the reply to a put names different paths. -/
theorem dotted_path_replies_differ :
    ¬ Along (Both.step fun _ => none) (SameReply fun _ => none) ⟨.new, .openEmpty⟩
      [(0, .willing 0, .put "./a" [1] none)] := by
  rintro ⟨h, -⟩
  have hpaths : ("a", 1, "application/octet-stream") = ("./a", 1, "application/octet-stream") := h
  exact absurd hpaths (by decide)

/-- A put, a get and a listing of it, a head of another spelling of nothing, and a delete. -/
theorem substitutable_replies_plain_run :
    Along (Both.step fun _ => none) (SameReply fun _ => none) ⟨.new, .openEmpty⟩
      [(0, .willing 5, .put "a/b" [1] none), (1, .willing 6, .get "a/b"),
        (2, .willing 7, .list (some "a")), (3, .willing 8, .head "./c"),
        (4, .willing 9, .delete "a/b")] := by
  have hab : validatePath "a/b" = .ok ["a", "b"] := by decide
  have hc : validatePath "./c" = .ok ["c"] := by decide
  refine substitutable_replies (fun _ => none) _ ⟨?_, ?_, rfl, ?_, ?_, trivial⟩
  · intro names hvalid
    rw [hab] at hvalid
    cases hvalid
    refine ⟨by decide, by decide, by decide, fun pre content hpre => ?_, by decide, rfl, rfl⟩
    have hmem := (List.mem_inits pre ["a"]).mpr hpre
    intro hfile
    rcases List.mem_cons.mp hmem with rfl | hmem
    · cases hfile
    · rw [List.mem_singleton.mp hmem] at hfile
      cases hfile
  · intro names hvalid
    rw [hab] at hvalid
    cases hvalid
    exact ⟨by decide, by decide, rfl, rfl, rfl⟩
  · intro names hvalid
    rw [hc] at hvalid
    cases hvalid
    exact ⟨by decide, trivial⟩
  · intro names hvalid
    rw [hab] at hvalid
    cases hvalid
    exact ⟨by decide, by decide, rfl, rfl, rfl⟩

end Mik.Storage
