/-
  The handlers of the daemon as programs of atomic actions
  (`src/daemon/http/handlers`, the job execution of `src/daemon/cron/execution.rs`, and the
  restoring of jobs and the health check of `src/daemon/http/mod.rs`).

  Where a response only repeats fields of a record, the record is returned. Errors that a handler
  merely logs end its step and nothing else.

  `Event` is what can happen to the daemon: an `Activity`, which runs to its end, a process that
  ends, or a restart, which loses the scheduler and rebuilds it from the store. `step` is what an
  event does to the daemon. `Traffic` is the same without the runs to the end: activities are
  started, and take their actions one by one in any order (`interleave`).
-/
import Mik.Daemon.Actions
import Mik.Lib.UnixPath

namespace Mik.Daemon

open Mik.Lib Prog

inductive AppError where
  | notFound (message : String)
  | badRequest (message : String)
  | conflict (message : String)
  | internal (message : String)
  | serviceUnavailable (message : String)
  deriving DecidableEq, Repr

abbrev Task (α : Type) := Prog Action Reply α

abbrev Result (α : Type) := Except AppError α

def onCron (a : CronAction) : Task (CronReply a) := act (.cron a) ret

def onStore (a : StoreAction) : Task (StoreReply a) := act (.store a) ret

def onSystem (a : SystemAction) : Task (SystemReply a) := act (.system a) ret

/-- `p.map_err(err)?`, then `k`. -/
def orFail {α β : Type} (p : Task (Except String α)) (err : String → AppError)
    (k : α → Task (Result β)) : Task (Result β) :=
  p >>= fun
    | .error e => ret (.error (err e))
    | .ok x => k x

/-- `p?` on an error of `anyhow`. -/
def orInternal {α β : Type} (p : Task (Except String α)) (k : α → Task (Result β)) :
    Task (Result β) :=
  orFail p .internal k

def jobNotFound (name : String) : AppError := .notFound ("Cron job '" ++ name ++ "' not found")

def instanceNotFound (name : String) : AppError :=
  .notFound ("Instance '" ++ name ++ "' not found")

/-! ## Cron jobs -/

/-- `POST /cron`; the request has the fields of the configuration made of it. -/
def cronCreate (config : ScheduleConfig) : Task (Result String) :=
  orFail (onCron (.addJob config))
    (fun e => .badRequest ("Failed to create cron job: " ++ e)) fun _ =>
  orFail (onStore (.saveCronJob config))
    (fun e => .internal ("Failed to persist cron job: " ++ e)) fun _ =>
  ret (.ok config.name)

def cronDelete (name : String) : Task (Result String) :=
  orFail (onCron (.removeJob name))
    (fun e => .internal ("Failed to delete cron job: " ++ e)) fun deleted =>
  if deleted then
    orFail (onStore (.removeCronJob name))
      (fun e => .internal ("Failed to remove cron job from database: " ++ e)) fun _ =>
    ret (.ok name)
  else ret (.error (jobNotFound name))

/-- Returns the new value of `enabled`. -/
def cronUpdate (name : String) (enabled : Option Bool) : Task (Result Bool) :=
  match enabled with
  | none => ret (.error (.badRequest "No fields to update. Provide 'enabled' field."))
  | some enabled =>
    onCron (.setEnabled name enabled) >>= fun
      | none => ret (.error (jobNotFound name))
      | some newEnabled =>
        onCron (.getConfig name) >>= fun
          | none => ret (.ok newEnabled)
          | some config =>
            orFail (onStore (.saveCronJob config))
              (fun e => .internal ("Failed to persist cron job update: " ++ e)) fun _ =>
            ret (.ok newEnabled)

/-! ## Executions -/

/-- The success and the error of a result. -/
def outcome : Except String Unit → Bool × Option String
  | .ok _ => (true, none)
  | .error e => (false, some e)

def newExecution (id : Uuid) (jobName : String) (startedAt completedAt : Int) (durationMs : Nat)
    (result : Bool × Option String) (manual : Bool) : JobExecution where
  id := id.text
  jobName := jobName
  startedAt := startedAt
  completedAt := some completedAt
  durationMs := some durationMs
  success := result.1
  error := result.2
  manual := manual
  noColon := id.noColon

/-- Calls the module of a job that was found, and takes the time. -/
def executeConfig : Option ScheduleConfig → Task ((Bool × Option String) × Nat)
  | some config => onSystem (.executeWasmModule config) >>= fun r => ret (outcome r.1, r.2)
  | none => ret ((false, some "Job not found"), 0)

def executeJob (name : String) (manual : Bool) : Task JobExecution := do
  let executionId ← onSystem .newUuid
  let startedAt ← onSystem .now
  let config ← onCron (.getConfig name)
  let executed ← executeConfig config
  let completedAt ← onSystem .now
  let execution := newExecution executionId name startedAt completedAt executed.2 executed.1 manual
  let _ ← onCron (.recordExecution name execution executed.1.1)
  ret execution

/-- A tick of a job. -/
def executeJobInternal (name : String) : Task Unit := do
  let executionId ← onSystem .newUuid
  let startedAt ← onSystem .now
  let config ← onCron (.getConfig name)
  match config with
  | none => ret ()
  | some config =>
    if config.enabled then do
      let executed ← onSystem (.executeWasmModule config)
      let completedAt ← onSystem .now
      let execution :=
        newExecution executionId name startedAt completedAt executed.2 (outcome executed.1) false
      onCron (.recordExecution name execution (outcome executed.1).1)
    else ret ()

/-- `trigger_job`. -/
def triggerJob (name : String) : Task (Except String JobExecution) := do
  let execution ← executeJob name true
  if execution.success = false ∧ execution.error = some "Job not found" then
    ret (.error ("Job '" ++ name ++ "' not found"))
  else ret (.ok execution)

/-- Returns the id of the execution. -/
def cronTrigger (name : String) : Task (Result String) :=
  onCron (.getJob name) >>= fun
    | none => ret (.error (jobNotFound name))
    | some _ =>
      orFail (triggerJob name) (fun e => .internal ("Failed to trigger job: " ++ e))
        fun execution => do
      let _ ← onStore (.saveJobExecution execution)
      let _ ← onStore (.cleanupJobExecutions name 100)
      ret (.ok execution.id)

def cronHistory (name : String) : Task (Result (List JobExecution)) :=
  onCron (.getJob name) >>= fun
    | none => ret (.error (jobNotFound name))
    | some _ =>
      orFail (onStore (.listJobExecutions name (some 100)))
        (fun e => .internal ("Failed to read job history: " ++ e)) fun history =>
      ret (.ok history)

/-! ## Instances -/

/-- `validate_instance_name`. -/
def validateInstanceName (name : String) : Except String Unit :=
  if name = "" then .error "Instance name cannot be empty"
  else if 64 < name.utf8ByteSize then .error "Instance name must be 64 characters or less"
  else if ¬ name.toList.all fun c => c.isAlphanum || c == '-' || c == '_' then
    .error "Instance name can only contain alphanumeric characters, hyphens, and underscores"
  else if startsWith "-" name || startsWith "_" name then
    .error "Instance name cannot start with a hyphen or underscore"
  else .ok ()

structure StartInstanceRequest where
  name : String
  port : Option Nat
  config : Option String
  workingDir : Option String
  autoRestart : Bool
  deriving DecidableEq, Repr

/-- The instance is recorded as running and its process is there. -/
def isAlive (i : Instance) : Task (Except String Bool) :=
  if i.status = .running then onSystem (.isRunning i.pid) else ret (.ok false)

/-- `status == Running && is_running(pid)?` of a record, if there is one. -/
def runningInstance (existing : Option Instance) : Task (Except String (Option Instance)) :=
  match existing with
  | none => ret (.ok none)
  | some i => isAlive i >>= fun
    | .error e => ret (.error e)
    | .ok alive => ret (.ok (if alive then some i else none))

/-- The path a request gives, or one made of the current directory. -/
def pathOr (given : Option String) (make : String → String) : Task (Except String String) :=
  match given with
  | some path => ret (.ok path)
  | none => onSystem .currentDir >>= fun
    | .error e => ret (.error e)
    | .ok dir => ret (.ok (make dir))

/-- The job of an instance: its name is scoped, and the default port is that of the instance. -/
def scopedSchedule (name : String) (port : Nat) (schedule : ScheduleConfig) : ScheduleConfig :=
  { schedule with
    name := name ++ ":" ++ schedule.name
    port := if schedule.port = 3000 then port else schedule.port }

/-- Adds jobs to the scheduler, and persists those it takes. -/
def registerJobs : List ScheduleConfig → Task Unit
  | [] => ret ()
  | config :: rest =>
    onCron (.addJob config) >>= fun
      | .error _ => registerJobs rest
      | .ok _ => do
        let _ ← onStore (.saveCronJob config)
        registerJobs rest

/-- Loads the schedules of the manifest of an instance. -/
def registerSchedules (name : String) (port : Nat) (config : String) : Task Unit :=
  onSystem (.parseSchedules config) >>= fun
    | .error _ => ret ()
    | .ok schedules => registerJobs (schedules.map (scopedSchedule name port))

/-- Removes jobs from the scheduler, and from the store those it removed. -/
def removeJobs : List String → Task Unit
  | [] => ret ()
  | job :: rest =>
    onCron (.removeJob job) >>= fun
      | .error _ => removeJobs rest
      | .ok _ => do
        let _ ← onStore (.removeCronJob job)
        removeJobs rest

/-- Removes the jobs of an instance. -/
def removeScopedJobs (name : String) : Task Unit := do
  let jobs ← onCron .listJobs
  removeJobs (jobs.filter (startsWith (name ++ ":")))

def startInstance (req : StartInstanceRequest) : Task (Result Instance) :=
  match validateInstanceName req.name with
  | .error e => ret (.error (.badRequest e))
  | .ok _ =>
    orInternal (onStore (.getInstance req.name)) fun existing =>
    orInternal (runningInstance existing) fun
      | some existing => ret (.error (.conflict ("Instance '" ++ req.name ++
          "' is already running on port " ++ toString existing.port)))
      | none =>
        orInternal (pathOr req.config fun dir => join dir "mik.toml") fun configPath =>
        onSystem (.fileExists configPath) >>= fun
          | false => ret (.error (.badRequest ("Config file not found: " ++ configPath)))
          | true =>
            orInternal (pathOr req.workingDir fun dir => dir) fun _ =>
            orInternal (onSystem (.spawnInstance
              { name := req.name, port := req.port.getD 3000, configPath })) fun pid =>
            onSystem .now >>= fun now =>
            let i : Instance := {
              name := req.name
              port := req.port.getD 3000
              pid
              status := .running
              config := configPath
              startedAt := now
              modules := []
              autoRestart := req.autoRestart
              restartCount := 0
              lastRestartAt := none }
            orInternal (onStore (.saveInstance i)) fun _ => do
            registerSchedules req.name i.port i.config
            ret (.ok i)

/-- The recorded instance, or an error. -/
def orNotFound {α : Type} (name : String) (k : Instance → Task (Result α)) : Task (Result α) :=
  orInternal (onStore (.getInstance name)) fun
    | none => ret (.error (instanceNotFound name))
    | some i => k i

/-- Ends the process of an instance if it is there. -/
def killIfAlive (i : Instance) : Task (Except String Unit) :=
  isAlive i >>= fun
    | .error e => ret (.error e)
    | .ok false => ret (.ok ())
    | .ok true => onSystem (.killInstance i.pid)

def stopInstance (name : String) : Task (Result Instance) :=
  orNotFound name fun i =>
  if i.status = .running then
    orInternal (killIfAlive i) fun _ => do
    removeScopedJobs name
    let updated := { i with status := .stopped }
    orInternal (onStore (.saveInstance updated)) fun _ => ret (.ok updated)
  else ret (.error (.badRequest ("Instance '" ++ name ++ "' is not running (status: " ++
    i.status.debug ++ ")")))

def restartInstance (name : String) : Task (Result Instance) :=
  orNotFound name fun i =>
  orInternal (killIfAlive i) fun _ => do
  removeScopedJobs name
  orInternal (onSystem (.spawnInstance
    { name := i.name, port := i.port, configPath := i.config })) fun pid =>
    onSystem .now >>= fun now =>
    let updated := { i with pid, status := .running, startedAt := now }
    orInternal (onStore (.saveInstance updated)) fun _ => do
    registerSchedules name i.port i.config
    ret (.ok updated)

/-! ## The start of the daemon and the health check -/

/-- Adds the persisted jobs to the scheduler, as far as it takes them. -/
def addJobs : List ScheduleConfig → Task Unit
  | [] => ret ()
  | config :: rest => do
    let _ ← onCron (.addJob config)
    addJobs rest

def restoreJobs : Task (Except String Unit) :=
  onStore .listCronJobs >>= fun
    | .error _ => ret (.error "Failed to load persisted cron jobs")
    | .ok jobs => do
      addJobs jobs
      ret (.ok ())

/-- `BASE_BACKOFF_SECS`. -/
def baseBackoffSecs : Nat := 5

/-- `MAX_BACKOFF_SECS`. -/
def maxBackoffSecs : Nat := 300

/-- The backoff after `count` restarts, in seconds; the product is one of 64-bit numbers. -/
def backoffSecs (count : Nat) : Nat :=
  min (baseBackoffSecs * (2 ^ count % 2 ^ 64) % 2 ^ 64) maxBackoffSecs

def nanosPerSec : Int := 1000000000

/-- Enough time has passed at `now` since the last restart. -/
def backoffPassed (i : Instance) (now : Int) : Bool :=
  match i.lastRestartAt with
  | none => true
  | some last => backoffSecs i.restartCount ≤ (now - last).tdiv nanosPerSec

/-- `should_restart_now`; the clock is read only after an earlier restart. -/
def shouldRestartNow (i : Instance) : Task Bool :=
  match i.lastRestartAt with
  | none => ret true
  | some _ => onSystem .now >>= fun now => ret (backoffPassed i now)

def spawnAndSaveRestartedInstance (i : Instance) : Task Unit :=
  onSystem (.spawnInstance { name := i.name, port := i.port, configPath := i.config }) >>=
    fun
    | .error _ => ret ()
    | .ok pid => do
      let startedAt ← onSystem .now
      let restartedAt ← onSystem .now
      let _ ← onStore (.saveInstance { i with
        pid
        status := .running
        startedAt
        autoRestart := true
        restartCount := i.restartCount + 1
        lastRestartAt := some restartedAt })
      ret ()

def attemptAutoRestart (maxAutoRestarts : Nat) (i : Instance) : Task Unit :=
  if maxAutoRestarts ≤ i.restartCount then ret ()
  else shouldRestartNow i >>= fun now => if now then spawnAndSaveRestartedInstance i else ret ()

def handleCrashedInstance (maxAutoRestarts : Nat) (i : Instance) : Task Unit :=
  onStore (.saveInstance { i with status := .crashed (-1) }) >>= fun
    | .error _ => ret ()
    | .ok _ => if i.autoRestart then attemptAutoRestart maxAutoRestarts i else ret ()

def checkAndRecoverSingleInstance (maxAutoRestarts : Nat) (i : Instance) : Task Unit :=
  if i.status = .running then
    onSystem (.isRunning i.pid) >>= fun
      | .error _ => ret ()
      | .ok true => ret ()
      | .ok false => handleCrashedInstance maxAutoRestarts i
  else ret ()

def checkAndRecoverEach (maxAutoRestarts : Nat) : List Instance → Task Unit
  | [] => ret ()
  | i :: rest => do
    checkAndRecoverSingleInstance maxAutoRestarts i
    checkAndRecoverEach maxAutoRestarts rest

def checkAndRecoverInstances (maxAutoRestarts : Nat) : Task Unit :=
  onStore .listInstances >>= fun
    | .error _ => ret ()
    | .ok instances => checkAndRecoverEach maxAutoRestarts instances

/-! ## Runs of the daemon -/

/-- What the daemon does: answer a request, run a tick of a job, check its instances. -/
inductive Activity where
  | cronCreate (config : ScheduleConfig)
  | cronDelete (name : String)
  | cronUpdate (name : String) (enabled : Option Bool)
  | cronTrigger (name : String)
  | cronHistory (name : String)
  | startInstance (req : StartInstanceRequest)
  | stopInstance (name : String)
  | restartInstance (name : String)
  | tick (name : String)
  | healthCheck (maxAutoRestarts : Nat)

/-- Whether a handler returned a response, or its error. -/
def discard {α : Type} (p : Task (Result α)) : Task (Result Unit) :=
  p >>= fun r => ret (r.map fun _ => ())

def Activity.program : Activity → Task (Result Unit)
  | .cronCreate config => discard (Daemon.cronCreate config)
  | .cronDelete name => discard (Daemon.cronDelete name)
  | .cronUpdate name enabled => discard (Daemon.cronUpdate name enabled)
  | .cronTrigger name => discard (Daemon.cronTrigger name)
  | .cronHistory name => discard (Daemon.cronHistory name)
  | .startInstance req => discard (Daemon.startInstance req)
  | .stopInstance name => discard (Daemon.stopInstance name)
  | .restartInstance name => discard (Daemon.restartInstance name)
  | .tick name => executeJobInternal name >>= fun _ => ret (.ok ())
  | .healthCheck maxAutoRestarts =>
    checkAndRecoverInstances maxAutoRestarts >>= fun _ => ret (.ok ())

/-- The outside world, action by action, and the daemon. -/
abbrev World := (Nat → Outside) × AppState

inductive Event where
  | perform (outside : Nat → Outside) (activity : Activity)
  | crash (pids : List Nat)
  | restart (outside : Nat → Outside)

section

variable (validCron : String → Bool)

/-- The answer to an action of a program that runs alone. -/
abbrev answerAlone : (a : Action) → World → Reply a × World := alone (answer validCron)

/-- The scheduler of a new process is empty; the processes of the instances live on. -/
def AppState.reboot (d : AppState) : AppState := { d with cron := .empty }

def step (d : AppState) : Event → AppState
  | .perform outside activity =>
    if d.serving then (runOn (answerAlone validCron) activity.program (outside, d)).2.2 else d
  | .crash pids => d.reap pids
  | .restart outside =>
    let r := runOn (answerAlone validCron) restoreJobs (outside, d.reboot)
    { r.2.2 with serving := r.1.isOk }

/-! ## Interleavings -/

/-- The activities in progress, and the daemon. -/
abbrev Tasks := Pool Action Reply (Result Unit) AppState

/-- An activity is started, or takes its next action. -/
inductive Traffic where
  | start (i : Nat) (activity : Activity)
  | advance (i : Nat) (outside : Outside)

def Traffic.move : Traffic → Pool.Move Action Reply (Result Unit) Outside
  | .start i activity => .spawn i activity.program
  | .advance i outside => .advance i outside

def interleave (w : Tasks) (t : Traffic) : Tasks := Pool.step (answer validCron) w t.move

/-- Nothing is in progress. -/
def Tasks.idle (d : AppState) : Tasks := ⟨fun _ => none, d⟩

/-- All activities have finished. -/
def Tasks.Quiet (w : Tasks) : Prop := ∀ i p, w.tasks i = some p → ∃ x, p = ret x

/-- The action that a task is about to perform. -/
def nextAction (w : Tasks) (i : Nat) : Option Action :=
  match w.tasks i with
  | some (.act a _) => some a
  | _ => none

def Traffic.index : Traffic → Nat
  | .start i _ => i
  | .advance i _ => i

variable {validCron : String → Bool} {w : Tasks}

/-- A move leaves the other tasks alone. -/
theorem tasks_interleave_of_ne {t : Traffic} {j : Nat} (h : j ≠ t.index) :
    (interleave validCron w t).tasks j = w.tasks j := by
  cases t with
  | start i activity =>
    show (Pool.step _ w (.spawn i activity.program)).tasks j = _
    cases hi : w.tasks i with
    | some p => rw [Pool.step_spawn_of_some _ hi]
    | none =>
      rw [Pool.step_spawn_of_none _ hi]
      exact if_neg h
  | advance i outside =>
    show (Pool.step _ w (.advance i outside)).tasks j = _
    cases hi : w.tasks i with
    | none => rw [Pool.step_advance_of_none _ hi]
    | some p =>
      cases p with
      | ret x =>
        rw [Pool.step_advance_ret _ hi]
        exact if_neg h
      | act a k =>
        rw [Pool.step_advance_act _ hi]
        exact if_neg h

/-- Only tasks of the numbers that are used can be in progress. -/
theorem quiet_of_indices {d : AppState} {ts : List Traffic} {l : List Nat}
    (h : ∀ t ∈ ts, t.index ∈ l)
    (hdone : ∀ i ∈ l, ((run (interleave validCron) (.idle d) ts).tasks i).isNone = true) :
    (run (interleave validCron) (.idle d) ts).Quiet := by
  have hother : ∀ (ts : List Traffic) (w : Tasks) (j : Nat), (∀ t ∈ ts, t.index ∈ l) → j ∉ l →
      (run (interleave validCron) w ts).tasks j = w.tasks j := by
    intro ts
    induction ts with
    | nil => exact fun _ _ _ _ => rfl
    | cons t ts ih =>
      intro w j hts hj
      rw [run_cons, ih _ j (fun t ht => hts t (List.mem_cons_of_mem _ ht)) hj]
      refine tasks_interleave_of_ne fun heq => hj ?_
      rw [heq]
      exact hts t List.mem_cons_self
  intro j p hp
  by_cases hj : j ∈ l
  · have hnone := hdone j hj
    rw [hp] at hnone
    cases hnone
  · rw [hother ts _ j h hj] at hp
    cases hp

end

end Mik.Daemon
