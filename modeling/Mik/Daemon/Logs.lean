/-
  Logs of an instance (`get_logs` of `src/daemon/http/handlers/instances.rs`, the paths of
  `src/daemon/paths.rs` and `tail_log` of `src/daemon/process/health.rs`).

  The router decodes the name, so any text can be one, and `get_logs` does not check it:
  `log_confined_iff`. A name that `start_instance` takes is confined; one that it rejects can reach
  any `.log` file.
-/
import Mik.Daemon.Handlers
import Mik.Lib.Symlinks

namespace Mik.Daemon

open Mik.Lib FileSystem

/-! ## Paths -/

/-- `MIK_HOME`, if it is set to something, or `.mik` in the home directory. -/
def getMikDir (mikHome homeDir : Option String) : Except String String :=
  match mikHome.filter (· ≠ ""), homeDir with
  | some dir, _ => .ok dir
  | none, some home => .ok (join home ".mik")
  | none, none => .error "Failed to get home directory"

def getLogsDir (mikDir : String) : String := join mikDir "logs"

def getLogPath (mikDir name : String) : String := join (getLogsDir mikDir) (name ++ ".log")

/-! ## Reading -/

/-- `String::from_utf8`. -/
def fromUtf8 (bytes : List UInt8) : Option String :=
  if utf8 (String.ofList (fromUtf8Lossy bytes)) = bytes then
    some (String.ofList (fromUtf8Lossy bytes))
  else none

/-- `BufRead::lines`: a line that is ended loses a carriage return before its end. -/
def readLines (content : List UInt8) : Option (List String) :=
  let pieces := content.splitOn 0x0A
  let ended := pieces.dropLast.map fun line =>
    if line.getLast? = some 0x0D then line.dropLast else line
  (ended ++ (pieces.getLast?.filter (· ≠ [])).toList).mapM fromUtf8

/-- `tail_log`: the last lines of a file. -/
def tailLog (fs : FileSystem (List UInt8)) (logPath : String) (lines : Nat) :
    Except String (List String) :=
  match fs.read logPath with
  | .error .isADirectory => .error "Failed to read log file"
  | .error _ => .error ("Failed to open log file: " ++ logPath)
  | .ok content =>
    match readLines content with
    | none => .error "Failed to read log file"
    | some all => .ok (all.drop (all.length - lines))

structure LogsResponse where
  name : String
  lines : List String
  deriving DecidableEq, Repr

def getLogs (fs : FileSystem (List UInt8)) (mikHome homeDir : Option String) (name : String)
    (lines : Option Nat) : Result LogsResponse :=
  match getMikDir mikHome homeDir with
  | .error e => .error (.internal e)
  | .ok mikDir =>
    if fs.pathExists (getLogPath mikDir name) then
      match tailLog fs (getLogPath mikDir name) (lines.getD 50) with
      | .error e => .error (.internal e)
      | .ok lines => .ok ⟨name, lines⟩
    else .ok ⟨name, []⟩

/-! ## Confinement -/

/-- The file that is read for a name lies directly in the directory of the logs. -/
def LogConfined (mikDir name : String) : Prop :=
  DirectlyIn (getLogsDir mikDir) ".log" (getLogPath mikDir name)

theorem noSlash_of_validateInstanceName {name : String} (h : validateInstanceName name = .ok ()) :
    '/' ∉ name.toList := by
  intro hslash
  unfold validateInstanceName at h
  split at h
  · cases h
  split at h
  · cases h
  split at h
  · cases h
  next hchars =>
  rw [not_not, List.all_eq_true] at hchars
  exact absurd (hchars '/' hslash) (by decide)

theorem getLogsDir_ne_empty (mikDir : String) : getLogsDir mikDir ≠ "" := by
  intro hempty
  have hcomponents := components_join mikDir (by decide : Plain "logs")
  unfold getLogsDir at hempty
  rw [hempty, components_empty] at hcomponents
  simp at hcomponents

/-- A log file lies directly in the directory of the logs exactly when the directory part of the
    name stays there, as it does for the names that are accepted for instances; and then it is an
    entry of that directory, wherever links lead on the way to it. -/
theorem log_confined_iff (mikDir name : String) :
    (LogConfined mikDir name ↔ StaysIn (getLogsDir mikDir) (upToLast '/' name)) ∧
      (validateInstanceName name = .ok () → LogConfined mikDir name) ∧
        (StaysIn (getLogsDir mikDir) (upToLast '/' name) →
          ∀ (fs : FileSystem (List UInt8)) (loc : List String),
            fs.resolve (getLogsDir mikDir) = .ok loc →
            fs.resolve (getLogPath mikDir name) =
              fs.walk fs.follow loc [.normal (lastPiece '/' name ++ ".log")]) := by
  have hiff : LogConfined mikDir name ↔ StaysIn (getLogsDir mikDir) (upToLast '/' name) :=
    directlyIn_join_iff (by decide) (by decide)
  refine ⟨hiff, fun h => hiff.mpr ?_, fun hstays fs loc hresolve => ?_⟩
  · rw [upToLast_of_notMem (noSlash_of_validateInstanceName h)]
    unfold StaysIn
    rw [if_neg (by rw [not_or]; exact ⟨by decide, getLogsDir_ne_empty mikDir⟩)]
    decide
  · exact resolve_of_staysIn (by decide) (by decide) @hstays hresolve

/-- The logs in `/mik/logs`, and another one beside the directory. -/
def logTree : FileSystem (List UInt8) :=
  ofEntries 40
    [(["mik"], .dir), (["mik", "logs"], .dir),
      (["mik", "logs", "web.log"], .file (.content (utf8 "started\nready\n"))),
      (["mik", "audit.log"], .file (.content (utf8 "secret\n")))]

example : getLogs logTree (some "/mik") none "web" (some 1) = .ok ⟨"web", ["ready"]⟩ := by
  decide +kernel

/-- A name that no instance can have is read outside of the directory. -/
theorem log_outside_read :
    validateInstanceName "../audit" = .error
        "Instance name can only contain alphanumeric characters, hyphens, and underscores" ∧
      getLogs logTree (some "/mik") none "../audit" none = .ok ⟨"../audit", ["secret"]⟩ ∧
      ¬ LogConfined "/mik" "../audit" := by
  refine ⟨by decide, by decide +kernel, fun h => ?_⟩
  exact absurd h.inDir (by decide)

end Mik.Daemon
