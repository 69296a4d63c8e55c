/-
  The rotation of the logs of instances (`src/daemon/process/log_rotation.rs`, and the part of
  `spawn_instance_with_rotation` of `lifecycle.rs` that prepares the log).

  The process of an instance appends to `<name>.log`. A start of the instance renames a log that
  is too long to `<name>.log.<timestamp>`, deletes all but the newest renamed ones and opens the
  log anew. `Segments` is what this is for: closed pieces, oldest first, and the current one. The
  files of the directory that belong to a name stand for the segments of its log (`Views`), the
  calls do to them what they are meant to do, and so what is kept of a log is always the end of
  all that was logged (`logs_keep_newest`). Instances without a dot in their names, which is all
  that the daemon accepts, do not touch each other's files (`logs_isolated`).

  A process that is still alive when its instance is started again would write to the renamed
  file; here a process has ended by then.
-/
import Mik.Daemon.Logs
import Mik.Lib.Newest
import Mik.Lib.OrderedTable

namespace Mik.Daemon

open Mik.Lib

/-! ## The directory of the logs -/

/-- The content of a file and when it was last written. -/
structure LogFile where
  content : List UInt8
  modified : Nat
  deriving DecidableEq, Repr

/-- The files of the directory, by name. -/
abbrev LogDir := Table LogFile

structure LogRotationConfig where
  maxSize : Nat
  maxFiles : Nat
  deriving DecidableEq, Repr

/-- `LogRotationConfig::default`. -/
def LogRotationConfig.default : LogRotationConfig := ⟨10 * 1024 * 1024, 5⟩

/-- A call that fails. -/
inductive LogFault where
  | metadata
  | rename
  | openFile
  deriving DecidableEq, Repr

/-- What the outside world contributes to a start: the text of the time, the order in which
    `read_dir` lists the directory, what fails and which files cannot be deleted. -/
structure LogWorld where
  timestamp : String
  listing : List (String × LogFile) → List (String × LogFile)
  listing_perm : ∀ files, (listing files).Perm files
  fault : Option LogFault
  unremovable : List String

/-! ## Rotation -/

/-- A file of the pattern `{log_name}.{timestamp}`. -/
def isRotated (logName fileName : String) : Bool :=
  startsWith (logName ++ ".") fileName && fileName != logName

/-- Deletes the files one after the other; a failure is only logged. -/
def removeFiles (unremovable : List String) (dir : LogDir) (files : List (String × LogFile)) :
    LogDir :=
  files.foldl (fun dir file => if file.1 ∈ unremovable then dir else dir.remove file.1) dir

def cleanupOldLogs (w : LogWorld) (maxFiles : Nat) (dir : LogDir) (logName : String) : LogDir :=
  let rotatedFiles := (w.listing dir.entries).filter fun file => isRotated logName file.1
  let sorted := newestFirst (fun file => file.2.modified) rotatedFiles
  removeFiles w.unremovable dir (sorted.drop maxFiles)

def rotateLogIfNeeded (w : LogWorld) (config : LogRotationConfig) (dir : LogDir)
    (logDir logName : String) : Except String Bool × LogDir :=
  match dir.lookup logName with
  | none => (.ok false, dir)
  | some file =>
    if w.fault = some .metadata then (.error "Failed to get log file metadata", dir)
    else if file.content.length < config.maxSize then (.ok false, dir)
    else
      let rotatedName := logName ++ "." ++ w.timestamp
      if w.fault = some .rename then
        (.error ("Failed to rotate log file to " ++ join logDir rotatedName), dir)
      else
        -- a file of that name is replaced
        (.ok true, cleanupOldLogs w config.maxFiles
          ((dir.remove logName).insert rotatedName file) logName)

def logFileName (name : String) : String := name ++ ".log"

/-- `create(true)` and `append(true)`. -/
def openLog (now : Nat) (dir : LogDir) (logName : String) : LogDir :=
  match dir.lookup logName with
  | some _ => dir
  | none => dir.insert logName ⟨[], now⟩

/-- The part of `spawn_instance_with_rotation` before the process is started. -/
def prepareLog (w : LogWorld) (config : LogRotationConfig) (now : Nat) (dir : LogDir)
    (logDir name : String) : Except String Unit × LogDir :=
  let logName := logFileName name
  match rotateLogIfNeeded w config dir logDir logName with
  | (.error e, dir) => (.error e, dir)
  | (.ok _, dir) =>
    if w.fault = some .openFile then
      (.error ("Failed to open log file: " ++ join logDir logName), dir)
    else (.ok (), openLog now dir logName)

/-! ## Runs -/

inductive LogCall where
  /-- The process of the instance writes. -/
  | append (name : String) (bytes : List UInt8)
  | start (name : String) (w : LogWorld)

structure LogEvent where
  now : Nat
  call : LogCall

/-- The directory, and the time of the last event. -/
structure Logs where
  dir : LogDir
  clock : Nat

def Logs.empty : Logs := ⟨.empty, 0⟩

/-- Writes at the end of a file. -/
def appendTo (now : Nat) (bytes : List UInt8) (dir : LogDir) (logName : String) : LogDir :=
  match dir.lookup logName with
  | some file => dir.insert logName ⟨file.content ++ bytes, now⟩
  | none => dir

def logStep (config : LogRotationConfig) (logDir : String) (s : Logs) (e : LogEvent) : Logs where
  dir :=
    match e.call with
    | .append name bytes => appendTo e.now bytes s.dir (logFileName name)
    | .start name w => (prepareLog w config e.now s.dir logDir name).2
  clock := e.now

def LogCall.name : LogCall → String
  | .append name _ => name
  | .start name _ => name

/-- The name has no dot, as the names that are accepted for instances. -/
def NoDot (name : String) : Prop := '.' ∉ name.toList

theorem noDot_of_validateInstanceName {name : String} (h : validateInstanceName name = .ok ()) :
    NoDot name := by
  intro hdot
  unfold validateInstanceName at h
  split at h
  · cases h
  split at h
  · cases h
  split at h
  · cases h
  next hchars =>
  rw [not_not, List.all_eq_true] at hchars
  exact absurd (hchars '.' hdot) (by decide)

/-- The file belongs to the log of the name. -/
def Owns (name fileName : String) : Prop :=
  fileName = logFileName name ∨ isRotated (logFileName name) fileName = true

/-- Two names without dots do not own one file. -/
theorem owns_unique {name name' fileName : String} (hname : NoDot name) (hname' : NoDot name')
    (h : Owns name fileName) (h' : Owns name' fileName) : name = name' := by
  have hcut : ∀ {name : String}, Owns name fileName →
      ∃ rest, fileName.toList = name.toList ++ '.' :: rest := by
    rintro name (rfl | hrotated)
    · refine ⟨"log".toList, ?_⟩
      unfold logFileName
      rw [String.toList_append]
      rfl
    · unfold isRotated at hrotated
      obtain ⟨rest, rfl⟩ := startsWith_iff.mp (Bool.and_eq_true_iff.mp hrotated).1
      refine ⟨"log.".toList ++ rest.toList, ?_⟩
      unfold logFileName
      rw [String.toList_append, String.toList_append, String.toList_append, List.append_assoc,
        List.append_assoc]
      rfl
  obtain ⟨rest, hrest⟩ := hcut h
  obtain ⟨rest', hrest'⟩ := hcut h'
  rw [hrest] at hrest'
  exact String.toList_inj.mp (append_sep_inj hname hname' hrest').1

/-! ## The files of other logs -/

section

variable {w : LogWorld} {config : LogRotationConfig} {dir : LogDir} {logDir logName : String}
  {fileName name : String} {now : Nat}

theorem lookup_removeFiles (unremovable : List String) (files : List (String × LogFile))
    (h : ∀ file ∈ files, file.1 ≠ fileName) :
    (removeFiles unremovable dir files).lookup fileName = dir.lookup fileName := by
  unfold removeFiles
  induction files generalizing dir with
  | nil => rfl
  | cons file rest ih =>
    rw [List.foldl_cons, ih fun file' hfile' => h file' (List.mem_cons_of_mem _ hfile')]
    split
    · rfl
    · rw [Table.lookup_remove, if_neg (h file List.mem_cons_self).symm]

theorem isRotated_timestamp (logName timestamp : String) :
    isRotated logName (logName ++ "." ++ timestamp) = true := by
  refine Bool.and_eq_true_iff.mpr
    ⟨startsWith_iff.mpr ⟨timestamp, rfl⟩, bne_iff_ne.mpr fun heq => ?_⟩
  have hlength := congrArg (fun s : String => s.toList.length) heq
  simp only [String.toList_append, List.length_append] at hlength
  have hdot : ".".toList.length = 1 := rfl
  omega

theorem lookup_cleanupOldLogs (maxFiles : Nat) (h : isRotated logName fileName = false) :
    (cleanupOldLogs w maxFiles dir logName).lookup fileName = dir.lookup fileName := by
  refine lookup_removeFiles _ _ fun file hfile heq => ?_
  have hmem := newestFirst_perm.mem_iff.mp (List.mem_of_mem_drop hfile)
  have hrotated := (List.mem_filter.mp hmem).2
  rw [heq, h] at hrotated
  cases hrotated

theorem lookup_rotate (hlog : fileName ≠ logName) (h : isRotated logName fileName = false) :
    (rotateLogIfNeeded w config dir logDir logName).2.lookup fileName = dir.lookup fileName := by
  unfold rotateLogIfNeeded
  split
  · rfl
  · split
    · rfl
    split
    · rfl
    dsimp only
    split
    · rfl
    have hne : fileName ≠ logName ++ "." ++ w.timestamp := by
      rintro rfl
      rw [isRotated_timestamp] at h
      cases h
    rw [lookup_cleanupOldLogs _ h, Table.lookup_insert, if_neg hne, Table.lookup_remove,
      if_neg hlog]

theorem lookup_openLog (hlog : fileName ≠ logName) :
    (openLog now dir logName).lookup fileName = dir.lookup fileName := by
  unfold openLog
  split
  · rfl
  · rw [Table.lookup_insert, if_neg hlog]

theorem lookup_prepareLog (hother : ¬ Owns name fileName) :
    (prepareLog w config now dir logDir name).2.lookup fileName = dir.lookup fileName := by
  have hlog : fileName ≠ logFileName name := fun heq => hother (Or.inl heq)
  have hrotated : isRotated (logFileName name) fileName = false :=
    Bool.eq_false_iff.mpr fun h => hother (Or.inr h)
  have hkept := @lookup_rotate w config dir logDir _ _ hlog hrotated
  unfold prepareLog
  dsimp only
  generalize rotateLogIfNeeded w config dir logDir (logFileName name) = r at hkept
  obtain ⟨reply, dir'⟩ := r
  cases reply with
  | error e => exact hkept
  | ok rotated =>
    dsimp only
    split
    · exact hkept
    · exact (lookup_openLog hlog).trans hkept

theorem lookup_appendTo (bytes : List UInt8) (hlog : fileName ≠ logName) :
    (appendTo now bytes dir logName).lookup fileName = dir.lookup fileName := by
  unfold appendTo
  split
  · rw [Table.lookup_insert, if_neg hlog]
  · rfl

theorem lookup_logStep {s : Logs} {e : LogEvent} (hother : ¬ Owns e.call.name fileName) :
    (logStep config logDir s e).dir.lookup fileName = s.dir.lookup fileName := by
  unfold logStep
  obtain ⟨now, call⟩ := e
  cases call with
  | append name bytes => exact lookup_appendTo bytes fun heq => hother (Or.inl heq)
  | start name w => exact lookup_prepareLog hother

end

/-- Whatever fails, what the other instances do leaves the files of a log alone. -/
theorem logs_isolated (config : LogRotationConfig) (logDir : String) (s : Logs)
    (es : List LogEvent) (name fileName : String) (hname : NoDot name)
    (hothers : ∀ e ∈ es, NoDot e.call.name ∧ e.call.name ≠ name) (howns : Owns name fileName) :
    (run (logStep config logDir) s es).dir.lookup fileName = s.dir.lookup fileName := by
  induction es generalizing s with
  | nil => rfl
  | cons e es ih =>
    obtain ⟨hdot, hne⟩ := hothers e List.mem_cons_self
    rw [run_cons, ih _ fun e' he' => hothers e' (List.mem_cons_of_mem _ he')]
    exact lookup_logStep fun howns' => hne (owns_unique hdot hname howns' howns)

/-- A start in which nothing fails. -/
def startAt (timestamp : String) : LogWorld := ⟨timestamp, id, fun _ => .refl _, none, []⟩

theorem web_isolated : (run (logStep ⟨4, 1⟩ "/logs") .empty
    [⟨1, .start "api" (startAt "a")⟩]).dir.lookup "web.log" = none := by
  refine logs_isolated ⟨4, 1⟩ "/logs" .empty [⟨1, .start "api" (startAt "a")⟩] "web" "web.log"
    (by unfold NoDot; decide) (fun e he => ?_) (Or.inl rfl)
  obtain rfl := List.mem_singleton.mp he
  exact ⟨by unfold NoDot; decide, by decide⟩

/-! ## Segments -/

/-- A log in pieces: the closed ones, the oldest first, and the one that is written to. -/
structure Segments where
  closed : List LogFile
  current : Option LogFile

namespace Segments

def all (s : Segments) : List LogFile := s.closed ++ s.current.toList

def text (s : Segments) : List UInt8 := s.all.flatMap LogFile.content

/-- The next bytes. -/
def append (now : Nat) (bytes : List UInt8) (s : Segments) : Segments :=
  { s with current := s.current.map fun file => ⟨file.content ++ bytes, now⟩ }

/-- Closes the current piece, and keeps so many of the closed ones. -/
def roll (maxFiles : Nat) (s : Segments) : Segments :=
  ⟨s.all.drop (s.all.length - maxFiles), none⟩

/-- A current piece. -/
def openNew (now : Nat) (s : Segments) : Segments :=
  { s with current := some (s.current.getD ⟨[], now⟩) }

/-- Each piece is newer than the one before it. -/
def Ordered (s : Segments) : Prop := s.all.Pairwise fun a b => a.modified < b.modified

/-- What is kept of all that was written by the time `clock`. -/
structure Ledger (maxFiles : Nat) (written : List UInt8) (clock : Nat) (s : Segments) : Prop where
  ordered : s.Ordered
  past : ∀ file ∈ s.all, file.modified ≤ clock
  bounded : s.closed.length ≤ maxFiles
  suffix : s.text <:+ written
  complete : s.closed.length < maxFiles → s.text = written

variable {s : Segments} {maxFiles clock now : Nat} {written bytes : List UInt8}

theorem ledger_start : Ledger maxFiles [] clock ⟨[], none⟩ where
  ordered := List.Pairwise.nil
  past file hfile := by cases hfile
  bounded := Nat.zero_le _
  suffix := List.suffix_refl _
  complete _ := rfl

theorem Ledger.later (h : Ledger maxFiles written clock s) (hnow : clock ≤ now) :
    Ledger maxFiles written now s :=
  { h with past := fun file hfile => Nat.le_trans (h.past file hfile) hnow }

/-- A current piece that is newer than the closed ones. -/
theorem ordered_of_closed {closed : List LogFile} {file : LogFile}
    (hclosed : closed.Pairwise fun a b => a.modified < b.modified)
    (hlater : ∀ f ∈ closed, f.modified < file.modified) :
    (⟨closed, some file⟩ : Segments).Ordered := by
  refine List.pairwise_append.mpr ⟨hclosed, List.pairwise_singleton _ _, fun f hf f' hf' => ?_⟩
  rw [List.mem_singleton.mp hf']
  exact hlater f hf

theorem Ledger.append (h : Ledger maxFiles written clock s) (hnow : clock < now)
    (hcurrent : s.current.isSome = true) (bytes : List UInt8) :
    Ledger maxFiles (written ++ bytes) now (s.append now bytes) := by
  obtain ⟨closed, current⟩ := s
  obtain ⟨file, rfl⟩ := Option.isSome_iff_exists.mp hcurrent
  have hpast : ∀ f ∈ closed, f.modified ≤ clock := fun f hf =>
    h.past f (List.mem_append_left _ hf)
  have htext : (Segments.append now bytes ⟨closed, some file⟩).text =
      (⟨closed, some file⟩ : Segments).text ++ bytes := by
    simp [text, all, Segments.append]
  refine ⟨?_, fun f hf => ?_, h.bounded, ?_, fun hfew => ?_⟩
  · exact ordered_of_closed (List.pairwise_append.mp h.ordered).1 fun f hf =>
      Nat.lt_of_le_of_lt (hpast f hf) hnow
  · rcases List.mem_append.mp hf with hf | hf
    · exact Nat.le_of_lt (Nat.lt_of_le_of_lt (hpast f hf) hnow)
    · rw [List.mem_singleton.mp hf]
  · rw [htext]
    obtain ⟨lost, hlost⟩ := h.suffix
    exact ⟨lost, by rw [← List.append_assoc, hlost]⟩
  · rw [htext, h.complete hfew]

theorem Ledger.roll (h : Ledger maxFiles written clock s) (hcurrent : s.current.isSome = true) :
    Ledger maxFiles written clock (s.roll maxFiles) := by
  have hall : (s.roll maxFiles).all = s.all.drop (s.all.length - maxFiles) :=
    List.append_nil _
  have hlength : s.all.length = s.closed.length + 1 := by
    obtain ⟨file, hfile⟩ := Option.isSome_iff_exists.mp hcurrent
    unfold all
    rw [hfile, List.length_append]
    rfl
  have hkept : (s.roll maxFiles).closed.length = s.all.length - (s.all.length - maxFiles) :=
    List.length_drop
  refine ⟨?_, fun f hf => ?_, by omega, ?_, fun hfew => ?_⟩
  · unfold Ordered
    rw [hall]
    exact h.ordered.sublist (List.drop_sublist _ _)
  · rw [hall] at hf
    exact h.past f (List.mem_of_mem_drop hf)
  · refine List.IsSuffix.trans ?_ h.suffix
    refine ⟨(s.all.take (s.all.length - maxFiles)).flatMap LogFile.content, ?_⟩
    unfold text
    rw [hall, ← List.flatMap_append, List.take_append_drop]
  · -- as long as there is room, nothing is dropped
    have hzero : s.all.length - maxFiles = 0 := by omega
    unfold text
    rw [hall, hzero, List.drop_zero]
    exact h.complete (by omega)

theorem Ledger.openNew (h : Ledger maxFiles written clock s) (hnow : clock < now) :
    Ledger maxFiles written now (s.openNew now) := by
  obtain ⟨closed, current⟩ := s
  cases current with
  | some file => exact h.later (Nat.le_of_lt hnow)
  | none =>
    have hall : (⟨closed, none⟩ : Segments).all = closed := List.append_nil _
    have htext : (Segments.openNew now ⟨closed, none⟩).text =
        (⟨closed, none⟩ : Segments).text := by
      simp [text, all, Segments.openNew]
    have hpast : ∀ f ∈ closed, f.modified < now := fun f hf =>
      Nat.lt_of_le_of_lt (h.past f (List.mem_append_left _ hf)) hnow
    refine ⟨?_, fun f hf => ?_, h.bounded, htext ▸ h.suffix, fun hfew => ?_⟩
    · exact ordered_of_closed (hall ▸ h.ordered) hpast
    · rcases List.mem_append.mp hf with hf | hf
      · exact Nat.le_of_lt (hpast f hf)
      · rw [List.mem_singleton.mp hf]
        exact Nat.le_refl now
    · rw [htext, h.complete hfew]

end Segments

/-! ## The files of a log stand for its segments -/

/-- The renamed files of a log. -/
def rotatedFiles (dir : LogDir) (logName : String) : List (String × LogFile) :=
  dir.entries.filter fun file => isRotated logName file.1

/-- The renamed files of a log are the closed segments, and the log itself is the current one. -/
structure Views (dir : LogDir) (logName : String) (s : Segments) : Prop where
  closed : ∃ files, (rotatedFiles dir logName).Perm files ∧ files.map Prod.snd = s.closed
  current : dir.lookup logName = s.current

section

variable {w : LogWorld} {config : LogRotationConfig} {dir dir' : LogDir} {logDir logName : String}
  {name : String} {now clock : Nat} {s : Segments} {written : List UInt8}

theorem mem_rotatedFiles {file : String × LogFile} :
    file ∈ rotatedFiles dir logName ↔
      dir.lookup file.1 = some file.2 ∧ isRotated logName file.1 = true := by
  unfold rotatedFiles
  rw [List.mem_filter, Table.lookup_eq_some_iff]

theorem nodup_rotatedFiles (dir : LogDir) (logName : String) :
    (rotatedFiles dir logName).Nodup :=
  (List.Nodup.of_map _ dir.nodup_keys).filter _

/-- Directories with the same renamed files. -/
theorem rotatedFiles_perm (h : ∀ fileName, isRotated logName fileName = true →
    dir'.lookup fileName = dir.lookup fileName) :
    (rotatedFiles dir' logName).Perm (rotatedFiles dir logName) := by
  refine (List.perm_ext_iff_of_nodup (nodup_rotatedFiles _ _) (nodup_rotatedFiles _ _)).mpr
    fun file => ?_
  rw [mem_rotatedFiles, mem_rotatedFiles]
  exact and_congr_left fun hrotated => by rw [h _ hrotated]

theorem Views.same (h : Views dir logName s) (hcurrent : dir'.lookup logName = dir.lookup logName)
    (hrotated : ∀ fileName, isRotated logName fileName = true →
      dir'.lookup fileName = dir.lookup fileName) : Views dir' logName s := by
  obtain ⟨files, hperm, hfiles⟩ := h.closed
  exact ⟨⟨files, (rotatedFiles_perm hrotated).trans hperm, hfiles⟩, hcurrent.trans h.current⟩

theorem not_isRotated_self (logName : String) : isRotated logName logName = false := by
  unfold isRotated
  rw [bne_self_eq_false, Bool.and_false]

theorem ne_of_isRotated {fileName : String} (h : isRotated logName fileName = true) :
    fileName ≠ logName := by
  rintro rfl
  rw [not_isRotated_self] at h
  cases h

theorem views_appendTo (h : Views dir logName s) (bytes : List UInt8) :
    Views (appendTo now bytes dir logName) logName (s.append now bytes) where
  closed := by
    refine h.closed.imp fun files hfiles => ⟨?_, hfiles.2⟩
    exact (rotatedFiles_perm fun fileName hrotated =>
      lookup_appendTo bytes (ne_of_isRotated hrotated)).trans hfiles.1
  current := by
    have hcurrent := h.current
    unfold appendTo Segments.append
    cases hlog : dir.lookup logName with
    | none =>
      rw [hlog] at hcurrent
      dsimp only
      rw [hlog, ← hcurrent]
      rfl
    | some file =>
      rw [hlog] at hcurrent
      dsimp only
      rw [Table.lookup_insert, if_pos rfl, ← hcurrent]
      rfl

theorem views_openLog (h : Views dir logName s) :
    Views (openLog now dir logName) logName (s.openNew now) where
  closed := by
    refine h.closed.imp fun files hfiles => ⟨?_, hfiles.2⟩
    exact (rotatedFiles_perm fun fileName hrotated =>
      lookup_openLog (ne_of_isRotated hrotated)).trans hfiles.1
  current := by
    have hcurrent := h.current
    unfold openLog Segments.openNew
    cases hlog : dir.lookup logName with
    | none =>
      rw [hlog] at hcurrent
      dsimp only
      rw [Table.lookup_insert, if_pos rfl, ← hcurrent]
      rfl
    | some file =>
      rw [hlog] at hcurrent
      dsimp only
      rw [hlog, ← hcurrent]
      rfl

/-! ## Cleaning up -/

theorem lookup_removeFiles_all (files : List (String × LogFile)) (fileName : String) :
    (removeFiles [] dir files).lookup fileName =
      if fileName ∈ files.map Prod.fst then none else dir.lookup fileName := by
  unfold removeFiles
  induction files generalizing dir with
  | nil => rfl
  | cons file rest ih =>
    rw [List.foldl_cons, ih, if_neg List.not_mem_nil, Table.lookup_remove, List.map_cons]
    by_cases hrest : fileName ∈ rest.map Prod.fst
    · rw [if_pos hrest, if_pos (List.mem_cons_of_mem _ hrest)]
    · rw [if_neg hrest]
      by_cases hfile : fileName = file.1
      · rw [if_pos hfile, if_pos (hfile ▸ List.mem_cons_self)]
      · rw [if_neg hfile, if_neg fun hmem => (List.mem_cons.mp hmem).elim hfile hrest]

/-- Of the renamed files in the order of their times, the last ones are kept. -/
theorem rotatedFiles_cleanup {files : List (String × LogFile)} (maxFiles : Nat)
    (hw : w.unremovable = []) (hperm : (rotatedFiles dir logName).Perm files)
    (horder : files.Pairwise fun a b => a.2.modified < b.2.modified) :
    (rotatedFiles (cleanupOldLogs w maxFiles dir logName) logName).Perm
      (files.drop (files.length - maxFiles)) := by
  have hlisted : ((w.listing dir.entries).filter fun file => isRotated logName file.1).Perm files :=
    ((w.listing_perm dir.entries).filter _).trans hperm
  have hsorted := newestFirst_eq_reverse (fun file : String × LogFile => file.2.modified)
    horder hlisted
  have hnodup : (files.map Prod.fst).Nodup :=
    (hperm.map Prod.fst).nodup_iff.mp
      (dir.nodup_keys.sublist (List.filter_sublist.map Prod.fst))
  refine (List.perm_ext_iff_of_nodup (nodup_rotatedFiles _ _) ?_).mpr fun file => ?_
  · exact (hnodup.of_map).sublist (List.drop_sublist _ _)
  rw [mem_rotatedFiles]
  unfold cleanupOldLogs
  dsimp only
  rw [hsorted, hw, lookup_removeFiles_all, List.drop_reverse, List.map_reverse]
  have hmem : file ∈ files ↔ dir.lookup file.1 = some file.2 ∧ isRotated logName file.1 = true :=
    hperm.mem_iff.symm.trans mem_rotatedFiles
  have hsplit : files.take (files.length - maxFiles) ++ files.drop (files.length - maxFiles) =
      files := List.take_append_drop _ _
  constructor
  · rintro ⟨hlookup, hrotated⟩
    split at hlookup
    · cases hlookup
    · next hnotin =>
      have hfile : file ∈ files := hmem.mpr ⟨hlookup, hrotated⟩
      rw [← hsplit] at hfile
      refine (List.mem_append.mp hfile).resolve_left fun htake => hnotin ?_
      exact List.mem_reverse.mpr (List.mem_map_of_mem htake)
  · intro hdrop
    have hfile := hmem.mp (List.mem_of_mem_drop hdrop)
    refine ⟨?_, hfile.2⟩
    rw [if_neg]
    · exact hfile.1
    · intro hin
      have htake := List.mem_reverse.mp hin
      rw [← hsplit, List.map_append] at hnodup
      exact (List.nodup_append'.mp hnodup).2.2 htake (List.mem_map_of_mem hdrop)

/-- The log under its new name is one more renamed file. -/
theorem rotatedFiles_rename (file : LogFile) {rotatedName : String}
    (hrotated : isRotated logName rotatedName = true) (hfresh : dir.lookup rotatedName = none) :
    (rotatedFiles ((dir.remove logName).insert rotatedName file) logName).Perm
      (rotatedFiles dir logName ++ [(rotatedName, file)]) := by
  have hlookup : ∀ fileName, isRotated logName fileName = true →
      ((dir.remove logName).insert rotatedName file).lookup fileName =
        if fileName = rotatedName then some file else dir.lookup fileName := by
    intro fileName hfile
    rw [Table.lookup_insert, Table.lookup_remove, if_neg (ne_of_isRotated hfile)]
  have hnotin : (rotatedName, file) ∉ rotatedFiles dir logName := by
    intro hmem
    have hlookup := (mem_rotatedFiles.mp hmem).1
    rw [hfresh] at hlookup
    cases hlookup
  refine (List.perm_ext_iff_of_nodup (nodup_rotatedFiles _ _) ?_).mpr fun entry => ?_
  · refine List.nodup_append'.mpr ⟨nodup_rotatedFiles _ _, List.nodup_singleton _, ?_⟩
    intro entry hentry hsame
    exact hnotin (List.mem_singleton.mp hsame ▸ hentry)
  rw [mem_rotatedFiles, List.mem_append, List.mem_singleton, mem_rotatedFiles]
  obtain ⟨fileName, content⟩ := entry
  constructor
  · rintro ⟨hentry, hname⟩
    have hcases := (hlookup fileName hname).symm.trans hentry
    split at hcases
    · next heq =>
      cases hcases
      exact Or.inr (Prod.ext heq rfl)
    · exact Or.inl ⟨hcases, hname⟩
  · rintro (⟨hentry, hname⟩ | heq)
    · refine ⟨(hlookup fileName hname).trans ?_, hname⟩
      rw [if_neg]
      · exact hentry
      · rintro rfl
        rw [hfresh] at hentry
        cases hentry
    · obtain ⟨rfl, rfl⟩ := Prod.mk.inj heq
      exact ⟨(hlookup fileName hrotated).trans (if_pos rfl), hrotated⟩

/-- A rotation closes the current segment, or leaves the log as it is. -/
theorem views_rotate (config : LogRotationConfig) (logDir : String) (h : Views dir logName s)
    (horder : s.Ordered) (hw : w.unremovable = [])
    (hfresh : dir.lookup (logName ++ "." ++ w.timestamp) = none) :
    Views (rotateLogIfNeeded w config dir logDir logName).2 logName s ∨
      s.current.isSome = true ∧
        Views (rotateLogIfNeeded w config dir logDir logName).2 logName
          (s.roll config.maxFiles) := by
  unfold rotateLogIfNeeded
  cases hlog : dir.lookup logName with
  | none => exact Or.inl h
  | some file =>
    dsimp only
    split
    · exact Or.inl h
    split
    · exact Or.inl h
    split
    · exact Or.inl h
    right
    have hcurrent : s.current = some file := h.current.symm.trans hlog
    have hsome : s.current.isSome = true := by rw [hcurrent]; rfl
    obtain ⟨files, hperm, hfiles⟩ := h.closed
    have hall : (files ++ [(logName ++ "." ++ w.timestamp, file)]).map Prod.snd = s.all := by
      unfold Segments.all
      rw [List.map_append, hfiles, hcurrent]
      rfl
    have hrenamed := (rotatedFiles_rename file
      (isRotated_timestamp logName w.timestamp) hfresh).trans (hperm.append_right _)
    have hmodified : (files ++ [(logName ++ "." ++ w.timestamp, file)]).Pairwise
        fun a b => a.2.modified < b.2.modified := by
      have hpairs := horder
      unfold Segments.Ordered at hpairs
      rw [← hall] at hpairs
      exact (List.pairwise_map (f := Prod.snd)).mp hpairs
    have hkept := rotatedFiles_cleanup config.maxFiles hw hrenamed hmodified
    refine ⟨hsome, ⟨⟨_, hkept, ?_⟩, ?_⟩⟩
    · have hlength := congrArg List.length hall
      rw [List.length_map] at hlength
      rw [List.map_drop, hall, hlength]
      rfl
    · rw [lookup_cleanupOldLogs _ (not_isRotated_self logName), Table.lookup_insert, if_neg,
        Table.lookup_remove, if_pos rfl]
      · rfl
      · exact (ne_of_isRotated (isRotated_timestamp logName w.timestamp)).symm

/-- A start of the instance carries the ledger of its log on. -/
theorem ledger_prepareLog (logDir : String) (h : Views dir (logFileName name) s)
    (hs : s.Ledger config.maxFiles written clock) (hnow : clock < now) (hw : w.unremovable = [])
    (hfresh : dir.lookup (logFileName name ++ "." ++ w.timestamp) = none) :
    ∃ s' : Segments, Views (prepareLog w config now dir logDir name).2 (logFileName name) s' ∧
      s'.Ledger config.maxFiles written now := by
  obtain ⟨s₁, hviews, hledger⟩ : ∃ s₁ : Segments,
      Views (rotateLogIfNeeded w config dir logDir (logFileName name)).2 (logFileName name) s₁ ∧
        s₁.Ledger config.maxFiles written clock := by
    rcases views_rotate config logDir h hs.ordered hw hfresh with
      hsame | ⟨hcurrent, hrolled⟩
    · exact ⟨s, hsame, hs⟩
    · exact ⟨_, hrolled, hs.roll hcurrent⟩
  unfold prepareLog
  dsimp only
  generalize rotateLogIfNeeded w config dir logDir (logFileName name) = r at hviews
  obtain ⟨reply, dir'⟩ := r
  cases reply with
  | error e => exact ⟨s₁, hviews, hledger.later (Nat.le_of_lt hnow)⟩
  | ok rotated =>
    dsimp only
    split
    · exact ⟨s₁, hviews, hledger.later (Nat.le_of_lt hnow)⟩
    · exact ⟨_, views_openLog hviews, hledger.openNew hnow⟩

end

/-! ## What is kept -/

/-- What the process of the instance writes. -/
def LogCall.bytes (name : String) : LogCall → List UInt8
  | .append name' bytes => if name' = name then bytes else []
  | .start _ _ => []

/-- All that the processes of the instance have written. -/
def written (name : String) (es : List LogEvent) : List UInt8 :=
  es.flatMap fun e => e.call.bytes name

/-- What a reader finds of a log, the oldest file first. -/
def retained (dir : LogDir) (name : String) : List UInt8 :=
  (newestFirst (fun file : String × LogFile => file.2.modified)
    (rotatedFiles dir (logFileName name))).reverse.flatMap (fun file => file.2.content) ++
      ((dir.lookup (logFileName name)).elim [] LogFile.content)

/-- Time goes on, a process writes to a log that was opened for it, and a start does not find a
    file under the name it gives to the old log; files can be deleted. -/
def Steady (s : Logs) (e : LogEvent) : Prop :=
  s.clock < e.now ∧ NoDot e.call.name ∧
    match e.call with
    | .append name _ => (s.dir.lookup (logFileName name)).isSome = true
    | .start name w =>
      w.unremovable = [] ∧ s.dir.lookup (logFileName name ++ "." ++ w.timestamp) = none

section

variable {config : LogRotationConfig} {logDir name : String} {s : Logs} {e : LogEvent}
  {before : List UInt8}

/-- The log of the name is kept as its ledger says. -/
def LogKept (config : LogRotationConfig) (name : String) (written : List UInt8) (s : Logs) : Prop :=
  ∃ segments : Segments, Views s.dir (logFileName name) segments ∧
    segments.Ledger config.maxFiles written s.clock

theorem logKept_empty : LogKept config name [] .empty :=
  ⟨⟨[], none⟩, ⟨⟨[], List.Perm.refl _, rfl⟩, rfl⟩, Segments.ledger_start⟩

theorem logKept_step (h : LogKept config name before s) (hname : NoDot name) (he : Steady s e) :
    LogKept config name (before ++ e.call.bytes name) (logStep config logDir s e) := by
  obtain ⟨segments, hviews, hledger⟩ := h
  obtain ⟨now, call⟩ := e
  obtain ⟨hclock, hdot, hcall⟩ := he
  by_cases hsame : call.name = name
  · cases call with
    | append name' bytes =>
      obtain rfl : name' = name := hsame
      refine ⟨_, views_appendTo hviews bytes, ?_⟩
      rw [show (LogCall.append name' bytes).bytes name' = bytes from if_pos rfl]
      exact hledger.append hclock (hviews.current ▸ hcall) bytes
    | start name' w =>
      obtain rfl : name' = name := hsame
      obtain ⟨hw, hfresh⟩ := hcall
      obtain ⟨segments', hviews', hledger'⟩ :=
        ledger_prepareLog logDir hviews hledger hclock hw hfresh
      refine ⟨segments', hviews', ?_⟩
      rw [show (LogCall.start name' w).bytes name' = [] from rfl, List.append_nil]
      exact hledger'
  · -- another instance
    have hkept : ∀ fileName, Owns name fileName →
        (logStep config logDir s ⟨now, call⟩).dir.lookup fileName = s.dir.lookup fileName :=
      fun fileName howns =>
        lookup_logStep fun howns' => hsame (owns_unique hdot hname howns' howns)
    have hnothing : call.bytes name = [] := by
      cases call with
      | append name' bytes => exact if_neg hsame
      | start name' w => rfl
    refine ⟨segments, hviews.same (hkept _ (Or.inl rfl)) fun fileName hrotated =>
      hkept fileName (Or.inr hrotated), ?_⟩
    rw [hnothing, List.append_nil]
    exact hledger.later (Nat.le_of_lt hclock)

theorem logKept_run {es : List LogEvent} (h : LogKept config name before s) (hname : NoDot name)
    (hes : Along (logStep config logDir) Steady s es) :
    LogKept config name (before ++ written name es) (run (logStep config logDir) s es) := by
  induction es generalizing s before with
  | nil =>
    rw [show written name [] = [] from rfl, List.append_nil]
    exact h
  | cons e es ih =>
    rw [run_cons, show written name (e :: es) = e.call.bytes name ++ written name es from rfl,
      ← List.append_assoc]
    exact ih (logKept_step h hname hes.1) hes.2

/-- A reader finds the segments of the log. -/
theorem retained_eq {dir : LogDir} {segments : Segments}
    (h : Views dir (logFileName name) segments) (horder : segments.Ordered) :
    retained dir name = segments.text := by
  obtain ⟨files, hperm, hfiles⟩ := h.closed
  have hmodified : files.Pairwise fun a b => a.2.modified < b.2.modified := by
    have hclosed := (List.pairwise_append.mp horder).1
    rw [← hfiles] at hclosed
    exact (List.pairwise_map (f := Prod.snd)).mp hclosed
  unfold retained Segments.text Segments.all
  rw [newestFirst_eq_reverse (fun file : String × LogFile => file.2.modified) hmodified
    hperm, List.reverse_reverse, List.flatMap_append, h.current, ← hfiles, List.flatMap_map]
  cases segments.current with
  | none => rfl
  | some file => exact congrArg _ (List.append_nil _).symm

end

/-- What is kept of a log is the end of all that the instance has written, in files of which no
    more than `max_files` are renamed ones; and it is all of it as long as there are fewer. -/
theorem logs_keep_newest (config : LogRotationConfig) (logDir : String) (es : List LogEvent)
    (name : String) (hname : NoDot name) (hes : Along (logStep config logDir) Steady .empty es) :
    let dir := (run (logStep config logDir) .empty es).dir
    retained dir name <:+ written name es ∧
      (rotatedFiles dir (logFileName name)).length ≤ config.maxFiles ∧
      ((rotatedFiles dir (logFileName name)).length < config.maxFiles →
        retained dir name = written name es) := by
  intro dir
  obtain ⟨segments, hviews, hledger⟩ := logKept_run logKept_empty hname hes
  have hretained : retained dir name = segments.text := retained_eq hviews hledger.ordered
  have hlength : (rotatedFiles dir (logFileName name)).length = segments.closed.length := by
    obtain ⟨files, hperm, hfiles⟩ := hviews.closed
    rw [hperm.length_eq, ← hfiles, List.length_map]
  rw [hretained, hlength]
  exact ⟨hledger.suffix, hledger.bounded, hledger.complete⟩

instance instDecidableNoDot (name : String) : Decidable (NoDot name) :=
  inferInstanceAs (Decidable (¬ '.' ∈ name.toList))

instance instDecidableSteady (s : Logs) : (e : LogEvent) → Decidable (Steady s e)
  | ⟨now, .append name _⟩ => inferInstanceAs (Decidable (s.clock < now ∧ NoDot name ∧
      (s.dir.lookup (logFileName name)).isSome = true))
  | ⟨now, .start name w⟩ => inferInstanceAs (Decidable (s.clock < now ∧ NoDot name ∧
      w.unremovable = [] ∧ s.dir.lookup (logFileName name ++ "." ++ w.timestamp) = none))

/-- Three starts of `web`, with four bytes after each of the first two. -/
def threeStarts : List LogEvent :=
  [⟨1, .start "web" (startAt "a")⟩, ⟨2, .append "web" [1, 2, 3, 4]⟩,
    ⟨3, .start "web" (startAt "b")⟩, ⟨4, .append "web" [5, 6, 7, 8]⟩,
    ⟨5, .start "web" (startAt "c")⟩, ⟨6, .append "web" [9]⟩]

example : retained (run (logStep ⟨4, 1⟩ "/logs") .empty threeStarts).dir "web" =
    [5, 6, 7, 8, 9] := by decide

theorem web_keeps_newest :
    retained (run (logStep ⟨4, 1⟩ "/logs") .empty threeStarts).dir "web" <:+
      written "web" threeStarts :=
  (logs_keep_newest ⟨4, 1⟩ "/logs" threeStarts "web" (by decide) (by decide)).1

end Mik.Daemon
