/-
  What a failed `put` or `delete` leaves behind.

  Both change the tree first and the metadata second, and take nothing back. `ReadsSame` compares
  two states through `get`, `head` and `list` of every path, whatever the host lets these do;
  objects and directories are all seen there (`lookup_of_readsSame`). So a failed `put` is clean
  only when it made no directory and did not open the file, or found in it what it wrote, and a
  failed `delete` when it did not get as far as removing the file (`failsClean_iff`).
-/
import Mik.Storage.Consistency

namespace Mik.Storage

open Mik.Lib

/-- Every `get`, `head` and `list` answers the same. -/
structure ReadsSame (mime : MimeGuess) (b b' : FilesystemBackend) : Prop where
  get : ∀ host path, b'.get mime host path = b.get mime host path
  head : ∀ host path, b'.head mime host path = b.head mime host path
  list : ∀ host pre, b'.list host pre = b.list host pre

/-- A put or delete that returned an error. -/
def Reply.Failed : Reply → Prop
  | .put (.error _) => True
  | .delete (.error _) => True
  | _ => False

/-! ## What reads show -/

theorem ReadsSame.refl (mime : MimeGuess) (b : FilesystemBackend) : ReadsSame mime b b :=
  ⟨fun _ _ => rfl, fun _ _ => rfl, fun _ _ => rfl⟩

theorem readsSame_of_lookup (mime : MimeGuess) {b b' : FilesystemBackend}
    (htree : ∀ names, b'.tree.lookup names = b.tree.lookup names) (hdb : b'.db = b.db) :
    ReadsSame mime b b' := by
  have hfind : ∀ host names, b'.find host names = b.find host names := fun host names => by
    unfold FilesystemBackend.find
    rw [htree]
  have hmeta : ∀ host path names node,
      b'.metaOf mime host path names node = b.metaOf mime host path names node :=
    fun host path names node => by
      unfold FilesystemBackend.metaOf FilesystemBackend.loadMetadata
      rw [hdb]
  refine ⟨fun host path => ?_, fun host path => ?_, fun host pre => ?_⟩
  · simp only [FilesystemBackend.get, hfind, hmeta]
  · simp only [FilesystemBackend.head, hfind, hmeta]
  · simp only [FilesystemBackend.list, hdb]

/-- The data a `get` returns that nothing keeps from the file. -/
def shown (path : String) (image : Bytes) : Option (Node Content) → Except String (Option Bytes)
  | none => .ok none
  | some .dir => .error ("Failed to read object: " ++ path)
  | some (.file content) =>
    .ok (some (content.bytes { Host.willing 0 with databaseImage := image }))

theorem get_shows (mime : MimeGuess) (b : FilesystemBackend) {path : String} {names : List String}
    (hvalid : validatePath path = .ok names) (image : Bytes) :
    (b.get mime { Host.willing 0 with databaseImage := image } path).map (Option.map Prod.fst) =
      shown path image (b.tree.lookup names) := by
  simp only [FilesystemBackend.get, hvalid, FilesystemBackend.find, Host.willing, if_true]
  cases b.tree.lookup names with
  | none => rfl
  | some node =>
    cases node with
    | dir => rfl
    | file content =>
      simp only [FilesystemBackend.readObject, FilesystemBackend.metaOf,
        FilesystemBackend.loadMetadata]
      cases (b.db.getD .empty).lookup path with
      | none => rfl
      | some m => rfl

/-- What lies at a path can be told from what is shown of it. -/
theorem shown_injective {path : String} {node node' : Option (Node Content)}
    (h : ∀ image, shown path image node = shown path image node') : node = node' := by
  have hbytes : ∀ data : Bytes, (0 :: data) ≠ data := fun data heq => by
    have := congrArg List.length heq
    rw [List.length_cons] at this
    omega
  rcases node with _ | _ | content
  · rcases node' with _ | _ | content'
    · rfl
    · cases h []
    · cases h []
  · rcases node' with _ | _ | content'
    · cases h []
    · rfl
    · cases h []
  · rcases node' with _ | _ | content'
    · cases h []
    · cases h []
    · have hsame : ∀ image, content.bytes { Host.willing 0 with databaseImage := image } =
          content'.bytes { Host.willing 0 with databaseImage := image } :=
        fun image => Option.some.inj (Except.ok.inj (h image))
      -- the bytes of the database are not known
      cases content with
      | object data =>
        cases content' with
        | object data' => rw [show data = data' from hsame []]
        | database => exact absurd (hsame (0 :: data)).symm (hbytes data)
      | database =>
        cases content' with
        | object data' => exact absurd (hsame (0 :: data')) (hbytes data')
        | database => rfl

theorem lookup_of_readsSame {mime : MimeGuess} {b b' : FilesystemBackend}
    (h : ReadsSame mime b b') {names : List String} (hne : names ≠ [])
    (hplain : ∀ name ∈ names, Plain name) : b'.tree.lookup names = b.tree.lookup names := by
  have hvalid := validatePath_pathText hne hplain
  refine @shown_injective (pathText names) _ _ fun image => ?_
  rw [← get_shows mime b' hvalid, h.get, get_shows mime b hvalid]

/-! ## Failures -/

/-- What a put that fails must not do: make a directory, or open a file, unless the file holds the
    bytes that the put writes. -/
def PutSpares (b : FilesystemBackend) (host : Host) (path : String) (data : Bytes)
    (names : List String) : Prop :=
  (host.mkdirLimit = 0 ∨ ¬ b.tree.Missing [] names.dropLast) ∧
    ∀ bytes, Touches b host path data names bytes →
      b.tree.lookup names = some (.file (.object bytes))

/-- The condition on a call and the state before it: a put goes through, or spares what there is;
    a delete that finds a file and may remove it gets its transaction through. -/
def SparesReads (b : FilesystemBackend) : Host × Op → Prop
  | (host, .put path data _) => ∀ names, validatePath path = .ok names →
      (host.commits ∧ ∃ bytes, Touches b host path data names bytes) ∨
        PutSpares b host path data names
  | (host, .delete path) => ∀ names content, validatePath path = .ok names →
      host.stat = true → host.remove = true → b.tree.lookup names = some (.file content) →
      host.txn = none
  | _ => True

/-- If the call fails, reads answer what they did before it. -/
def FailsClean (mime : MimeGuess) (b : FilesystemBackend) (e : Host × Op) : Prop :=
  (b.call mime e.1 e.2).1.Failed → ReadsSame mime b (b.call mime e.1 e.2).2

theorem failed_put {mime : MimeGuess} {b : FilesystemBackend} {host : Host} {path : String}
    {data : Bytes} {contentType : Option String} :
    (b.call mime host (.put path data contentType)).1.Failed ↔
      ∃ e, (b.put mime host path data contentType).1 = .error e := by
  change (Reply.put (b.put mime host path data contentType).1).Failed ↔ _
  cases (b.put mime host path data contentType).1 with
  | ok m => simp [Reply.Failed]
  | error e => simp [Reply.Failed]

theorem failed_delete {mime : MimeGuess} {b : FilesystemBackend} {host : Host} {path : String} :
    (b.call mime host (.delete path)).1.Failed ↔ ∃ e, (b.delete host path).1 = .error e := by
  change (Reply.delete (b.delete host path).1).Failed ↔ _
  cases (b.delete host path).1 with
  | ok found => simp [Reply.Failed]
  | error e => simp [Reply.Failed]

/-- The directories that appear are all seen. -/
theorem dirs_same_iff (mime : MimeGuess) {b : FilesystemBackend} {host : Host} {path : String}
    {names : List String} (hvalid : validatePath path = .ok names) {b' : FilesystemBackend}
    (htree : ∀ q, q <+: names.dropLast → b'.tree.lookup q =
      (FileTree.createDirAll host.mkdirLimit [] names.dropLast b.tree).2.lookup q)
    (h : ReadsSame mime b b') : host.mkdirLimit = 0 ∨ ¬ b.tree.Missing [] names.dropLast := by
  rw [← FileTree.createDirAll_same_iff rfl]
  intro q
  rcases FileTree.lookup_createDirAll host.mkdirLimit [] names.dropLast b.tree q with
    hsame | ⟨hpre, hnone, -⟩
  · exact hsame
  · rw [List.nil_append] at hpre
    have hne : q ≠ [] := by
      rintro rfl
      cases hnone
    have hplain : ∀ name ∈ q, Plain name := fun name hname =>
      plain_of_validatePath hvalid name (List.dropLast_subset _ (hpre.subset hname))
    rw [← htree q hpre]
    exact lookup_of_readsSame h hne hplain

theorem failsClean_put_iff (mime : MimeGuess) (b : FilesystemBackend) (host : Host)
    (path : String) (data : Bytes) (contentType : Option String) :
    FailsClean mime b (host, .put path data contentType) ↔
      SparesReads b (host, .put path data contentType) := by
  unfold FailsClean
  rw [failed_put]
  cases hvalid : validatePath path with
  | error e =>
    refine ⟨fun _ names hnames => ?_, fun _ _ => ?_⟩
    · rw [hvalid] at hnames
      cases hnames
    · have hstate : (b.call mime host (.put path data contentType)).2 = b := by
        simp only [FilesystemBackend.call, FilesystemBackend.put, hvalid]
      rw [hstate]
      exact .refl mime b
  | ok names =>
    have hcondition : SparesReads b (host, .put path data contentType) ↔
        (host.commits ∧ ∃ bytes, Touches b host path data names bytes) ∨
          PutSpares b host path data names :=
      forall_names_iff hvalid
    have hne := names_ne_nil hvalid
    rw [hcondition]
    change ((∃ e, (b.put mime host path data contentType).1 = .error e) →
      ReadsSame mime b (b.put mime host path data contentType).2) ↔ _
    rcases put_state mime b host data contentType hvalid with
      ⟨hnot, herror, hstate⟩ | ⟨bytes, tree, m, ht, -, -, hwrite, herror, hstate⟩
    · rw [hstate]
      constructor
      · intro h
        exact Or.inr ⟨dirs_same_iff mime hvalid (fun q _ => rfl) (h herror),
          fun bytes ht => absurd ht (hnot bytes)⟩
      · rintro (⟨-, bytes, ht⟩ | ⟨hdirs, -⟩) -
        · exact absurd ht (hnot bytes)
        · exact readsSame_of_lookup mime ((FileTree.createDirAll_same_iff rfl).mpr hdirs) rfl
    · have hlookup := FileTree.lookup_write hwrite
      rw [hstate, herror]
      constructor
      · intro h
        by_cases hcommits : host.commits
        · exact Or.inl ⟨hcommits, bytes, ht⟩
        · have hreads := h hcommits
          refine Or.inr ⟨dirs_same_iff mime hvalid (fun q hpre => ?_) hreads, fun bytes' ht' => ?_⟩
          · have hother : q ≠ names := by
              rintro rfl
              exact FileTree.dropLast_ne_self hne (hpre.eq_of_length_le (by simp)).symm
            rw [hlookup, if_neg hother]
          · -- what the put wrote was there before
            have hbytes := ht.written
            rw [ht'.written] at hbytes
            cases hbytes
            have hfile := lookup_of_readsSame hreads hne (plain_of_validatePath hvalid)
            rw [hlookup, if_pos rfl] at hfile
            exact hfile.symm
      · rintro (⟨hcommits, -⟩ | ⟨hdirs, hsame⟩) hfails
        · exact absurd hcommits hfails
        · have hfile := hsame bytes ht
          refine readsSame_of_lookup mime (fun q => ?_) ?_
          · rw [hlookup]
            by_cases hq : q = names
            · rw [if_pos hq, hq, hfile]
            · rw [if_neg hq]
              exact (FileTree.createDirAll_same_iff rfl).mpr hdirs q
          · unfold dbAfterPut
            rw [hfile, if_neg (by simp), if_neg hfails]

theorem failsClean_delete_iff (mime : MimeGuess) (b : FilesystemBackend) (host : Host)
    (path : String) :
    FailsClean mime b (host, .delete path) ↔ SparesReads b (host, .delete path) := by
  unfold FailsClean
  rw [failed_delete]
  change ((∃ e, (b.delete host path).1 = .error e) → ReadsSame mime b (b.delete host path).2) ↔ _
  have hkept : (b.delete host path).2 = b → ((∃ e, (b.delete host path).1 = .error e) →
      ReadsSame mime b (b.delete host path).2) := fun hstate _ => by
    rw [hstate]
    exact .refl mime b
  cases hvalid : validatePath path with
  | error e =>
    refine ⟨fun _ names content hnames => ?_, fun _ => hkept ?_⟩
    · rw [hvalid] at hnames
      cases hnames
    · simp only [FilesystemBackend.delete, hvalid]
  | ok names =>
    have hcondition : SparesReads b (host, .delete path) ↔ ∀ content, host.stat = true →
        host.remove = true → b.tree.lookup names = some (.file content) → host.txn = none := by
      refine ⟨fun h content => h names content hvalid, fun h names' content hnames' => ?_⟩
      obtain rfl := names_unique hvalid hnames'
      exact h content
    have hne := names_ne_nil hvalid
    rw [hcondition]
    by_cases hfile : host.stat = true ∧ host.remove = true ∧
        ∃ content, b.tree.lookup names = some (.file content)
    · obtain ⟨hstat, hremove, content, hcontent⟩ := hfile
      obtain ⟨tree, herror, hstate, hlookup⟩ := delete_of_file hvalid hstat hremove hcontent
      rw [herror, hstate]
      refine ⟨fun h content' _ _ _ => ?_,
        fun h htxn => absurd (h content hstat hremove hcontent) htxn⟩
      by_contra htxn
      have hgone := lookup_of_readsSame (h htxn) hne (plain_of_validatePath hvalid)
      rw [hlookup, if_pos rfl, hcontent] at hgone
      cases hgone
    · refine ⟨fun _ content hstat hremove hcontent =>
        absurd ⟨hstat, hremove, content, hcontent⟩ hfile, fun _ => ?_⟩
      cases hfind : b.find host names with
      | none =>
        -- only the entry goes, and only if the call succeeds
        cases htxn : host.txn with
        | none =>
          simp [FilesystemBackend.delete, hvalid, hfind, FilesystemBackend.removeMetadata, htxn]
        | some stage =>
          refine hkept ?_
          simp only [FilesystemBackend.delete, hvalid, hfind, FilesystemBackend.removeMetadata,
            htxn]
      | some node =>
        refine hkept (delete_of_kept hvalid hfind ?_)
        unfold FilesystemBackend.find at hfind
        by_cases hstat : host.stat = true
        · rw [if_pos hstat] at hfind
          by_cases hremove : host.remove = true
          · cases node with
            | dir => exact Or.inr hfind
            | file content => exact absurd ⟨hstat, hremove, content, hfind⟩ hfile
          · exact Or.inl (eq_false_of_ne_true hremove)
        · rw [if_neg hstat] at hfind
          cases hfind

/-- One call, from any state. -/
theorem failsClean_iff (mime : MimeGuess) (b : FilesystemBackend) (e : Host × Op) :
    FailsClean mime b e ↔ SparesReads b e := by
  obtain ⟨host, op⟩ := e
  cases op with
  | put path data contentType => exact failsClean_put_iff mime b host path data contentType
  | delete path => exact failsClean_delete_iff mime b host path
  | get path => exact ⟨fun _ => trivial, fun _ _ => .refl mime b⟩
  | head path => exact ⟨fun _ => trivial, fun _ _ => .refl mime b⟩
  | list pre => exact ⟨fun _ => trivial, fun _ _ => .refl mime b⟩

/-- In a run from any state, with every call failing where its host lets it, the calls that fail
    all leave the reads as they were exactly when every call meets `SparesReads`. -/
theorem failures_clean_iff (mime : MimeGuess) (b : FilesystemBackend) (calls : List (Host × Op)) :
    (∀ done e, done ++ [e] <+: calls →
        FailsClean mime (run (FilesystemBackend.step mime) b done) e) ↔
      Along (FilesystemBackend.step mime) SparesReads b calls := by
  rw [← along_iff_forall]
  exact along_congr fun b e _ => failsClean_iff mime b e

/-- A directory with the object `a`. -/
def oneObject : FilesystemBackend :=
  run (FilesystemBackend.step fun _ => none) .openEmpty [(.willing 0, .put "a" [1] none)]

/-- An overwritten object whose metadata are not stored, one cut short, and one that is gone though
    its delete has failed. -/
theorem failures_leave_traces :
    ¬ FailsClean (fun _ => none) oneObject
        ({ Host.willing 1 with txn := some .beginTxn }, .put "a" [2] none) ∧
      ¬ FailsClean (fun _ => none) oneObject
        ({ Host.willing 1 with write := .short 0 }, .put "a" [2] none) ∧
      ¬ FailsClean (fun _ => none) oneObject
        ({ Host.willing 1 with txn := some .finish }, .delete "a") := by
  refine ⟨fun h => ?_, fun h => ?_, fun h => ?_⟩
  · have hget := (h trivial).get (.willing 2) "a"
    exact absurd hget (by decide)
  · have hget := (h trivial).get (.willing 2) "a"
    exact absurd hget (by decide)
  · have hget := (h trivial).get (.willing 2) "a"
    exact absurd hget (by decide)

end Mik.Storage
