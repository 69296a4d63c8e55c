/-
  The cron scheduler of the daemon (`src/daemon/cron/scheduler.rs`, `execution.rs`).

  `CronScheduler` has two stores: the map of the jobs by name, and the live entries of the
  scheduler it drives, which is another package. `JobScheduler` is what is assumed of that: `add`
  makes one live entry under an id never used before, and `remove` ends exactly the entry with the
  given id. A live entry knows the name of its job and looks it up in the map when it fires.

  The order in which the map lists its jobs is that of their names here; nothing depends on it.
-/
import Mik.Daemon.Store

namespace Mik.Daemon

open Mik.Lib

/-! ## The scheduler that is driven -/

structure LiveEntry where
  id : Nat
  name : String
  deriving DecidableEq, Repr

structure JobScheduler where
  live : List LiveEntry
  nextId : Nat
  nodup : (live.map LiveEntry.id).Nodup
  fresh : ∀ entry ∈ live, entry.id < nextId

namespace JobScheduler

def empty : JobScheduler := ⟨[], 0, List.nodup_nil, fun _ h => absurd h List.not_mem_nil⟩

/-- A new live entry for the job `name`, under the id `nextId`. -/
def add (s : JobScheduler) (name : String) : JobScheduler where
  live := s.live ++ [⟨s.nextId, name⟩]
  nextId := s.nextId + 1
  nodup := by
    rw [List.map_append, List.nodup_append']
    refine ⟨s.nodup, List.nodup_singleton _, fun id hid hnew => ?_⟩
    obtain ⟨entry, hentry, rfl⟩ := List.mem_map.mp hid
    have hlt := s.fresh entry hentry
    rw [List.mem_singleton.mp hnew] at hlt
    exact lt_irrefl _ hlt
  fresh := by
    intro entry hentry
    rcases List.mem_append.mp hentry with hentry | hentry
    · have hlt := s.fresh entry hentry
      omega
    · rw [List.mem_singleton.mp hentry]
      exact Nat.lt_succ_self _

def remove (s : JobScheduler) (id : Nat) : JobScheduler where
  live := s.live.filter fun entry => entry.id ≠ id
  nextId := s.nextId
  nodup := s.nodup.sublist (List.filter_sublist.map LiveEntry.id)
  fresh := fun entry hentry => s.fresh entry (List.mem_of_mem_filter hentry)

/-- The live entries of one job. -/
def entriesOf (s : JobScheduler) (name : String) : List LiveEntry :=
  s.live.filter fun entry => entry.name = name

variable {s : JobScheduler} {name : String} {entry : LiveEntry}

theorem mem_entriesOf : entry ∈ s.entriesOf name ↔ entry ∈ s.live ∧ entry.name = name := by
  rw [entriesOf, List.mem_filter, decide_eq_true_eq]

theorem entriesOf_add (name' : String) :
    (s.add name).entriesOf name' =
      s.entriesOf name' ++ if name = name' then [⟨s.nextId, name⟩] else [] := by
  show (s.live ++ [_]).filter _ = _
  rw [List.filter_append]
  congr 1
  by_cases hname : name = name'
  · rw [if_pos hname]
    exact List.filter_cons_of_pos (decide_eq_true hname)
  · rw [if_neg hname]
    exact List.filter_cons_of_neg (by simp [hname])

theorem entriesOf_remove (id : Nat) (name : String) :
    (s.remove id).entriesOf name = (s.entriesOf name).filter fun entry => entry.id ≠ id := by
  show (s.live.filter _).filter _ = (s.live.filter _).filter _
  rw [List.filter_filter, List.filter_filter]
  exact List.filter_congr fun entry _ => Bool.and_comm _ _

/-- Live entries with the same id are the same. -/
theorem unique {entry' : LiveEntry} (h : entry ∈ s.live) (h' : entry' ∈ s.live)
    (hid : entry.id = entry'.id) : entry = entry' :=
  List.inj_on_of_nodup_map s.nodup h h' hid

end JobScheduler

/-! ## The jobs -/

/-- `MAX_HISTORY_ENTRIES`. -/
def maxHistoryEntries : Nat := 100

def ScheduleConfig.withEnabled (config : ScheduleConfig) (enabled : Bool) : ScheduleConfig :=
  { config with enabled }

structure JobState where
  config : ScheduleConfig
  jobId : Option Nat
  history : List JobExecution
  executionCount : Nat
  successCount : Nat
  failureCount : Nat
  deriving DecidableEq

namespace JobState

def new (config : ScheduleConfig) (jobId : Option Nat) : JobState where
  config := config
  jobId := jobId
  history := []
  executionCount := 0
  successCount := 0
  failureCount := 0

def name (state : JobState) : String := state.config.name

/-- The job paused or resumed. -/
def withEnabled (state : JobState) (enabled : Bool) : JobState :=
  { state with config := state.config.withEnabled enabled }

end JobState

structure CronScheduler where
  scheduler : JobScheduler
  jobs : Records JobState.name

namespace CronScheduler

def empty : CronScheduler := ⟨.empty, .empty⟩

/-- `validCron` is the reading of a cron expression, `fault` a failure of the scheduler. -/
def addJob (validCron : String → Bool) (fault : Option String) (c : CronScheduler)
    (config : ScheduleConfig) : Except String Unit × CronScheduler :=
  if validCron config.cron then
    match fault with
    | some _ => (.error "Failed to add job to scheduler", c)
    | none =>
      (.ok (), {
        scheduler := c.scheduler.add config.name
        jobs := c.jobs.put (.new config (some c.scheduler.nextId)) })
  else (.error ("Invalid cron expression: " ++ config.cron), c)

/-- The entry of the map is removed before the scheduler is asked. -/
def removeJob (fault : Option String) (c : CronScheduler) (name : String) :
    Except String Bool × CronScheduler :=
  match c.jobs.lookup name with
  | none => (.ok false, c)
  | some state =>
    match state.jobId with
    | none => (.ok true, { c with jobs := c.jobs.remove name })
    | some id =>
      match fault with
      | some _ => (.error "Failed to remove job from scheduler",
          { c with jobs := c.jobs.remove name })
      | none => (.ok true, {
          scheduler := c.scheduler.remove id
          jobs := c.jobs.remove name })

def setEnabled (c : CronScheduler) (name : String) (enabled : Bool) :
    Option Bool × CronScheduler :=
  match c.jobs.lookup name with
  | none => (none, c)
  | some state => (some enabled, { c with jobs := c.jobs.put (state.withEnabled enabled) })

def getConfig (c : CronScheduler) (name : String) : Option ScheduleConfig :=
  (c.jobs.lookup name).map JobState.config

/-- The names that `list_jobs` gives. -/
def listJobs (c : CronScheduler) : List String := c.jobs.values.map JobState.name

def getJob (c : CronScheduler) (name : String) : Option JobState := c.jobs.lookup name

end CronScheduler

namespace JobState

/-- What `record_execution` does to the state of its job. -/
def record (state : JobState) (execution : JobExecution) (success : Bool) : JobState where
  config := state.config
  jobId := state.jobId
  history :=
    (if maxHistoryEntries ≤ state.history.length then state.history.tail else state.history) ++
      [execution]
  executionCount := state.executionCount + 1
  successCount := if success then state.successCount + 1 else state.successCount
  failureCount := if success then state.failureCount else state.failureCount + 1

end JobState

def CronScheduler.recordExecution (c : CronScheduler) (name : String) (execution : JobExecution)
    (success : Bool) : CronScheduler :=
  match c.jobs.lookup name with
  | none => c
  | some state => { c with jobs := c.jobs.put (state.record execution success) }

/-! ## What the calls do to the map -/

namespace CronScheduler

variable {validCron : String → Bool} {fault : Option String} {c : CronScheduler}
  {config : ScheduleConfig} {name : String}

/-- A job that is added has a new live entry and takes the place of the job of that name. -/
theorem addJob_cases (validCron : String → Bool) (fault : Option String) (c : CronScheduler)
    (config : ScheduleConfig) :
    ((addJob validCron fault c config).1.isOk = false ∧
        (addJob validCron fault c config).2 = c) ∨
      validCron config.cron = true ∧ fault = none ∧
        addJob validCron fault c config =
          (.ok (), { scheduler := c.scheduler.add config.name
                     jobs := c.jobs.put (.new config (some c.scheduler.nextId)) }) := by
  unfold addJob
  by_cases hvalid : validCron config.cron = true
  · rw [if_pos hvalid]
    cases fault with
    | some text => exact Or.inl ⟨rfl, rfl⟩
    | none => exact Or.inr ⟨hvalid, rfl, rfl⟩
  · rw [if_neg hvalid]
    exact Or.inl ⟨rfl, rfl⟩

@[simp] theorem removeJob_jobs_lookup (name' : String) :
    (removeJob fault c name).2.jobs.lookup name' =
      if name' = name then none else c.jobs.lookup name' := by
  unfold removeJob
  cases hstate : c.jobs.lookup name with
  | none =>
    dsimp only
    split
    · next heq => rw [heq, hstate]
    · rfl
  | some state =>
    dsimp only
    split
    · exact Records.lookup_remove _ _
    · split
      · exact Records.lookup_remove _ _
      · exact Records.lookup_remove _ _

theorem name_of_lookup {state : JobState} (h : c.jobs.lookup name = some state) :
    state.config.name = name :=
  show state.name = name from Records.key_of_lookup h

end CronScheduler

end Mik.Daemon
