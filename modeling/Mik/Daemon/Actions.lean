/-
  The atomic actions of the daemon's handlers, and what each does to the daemon.

  A handler is a `Prog` of actions on the cron scheduler, on the state store and on the system:
  the processes, the clock, the files, a call of a module over HTTP. `Outside` is what the outside
  world contributes to one action: whether and how it fails, what the clock and the files say, and
  which processes have ended by themselves by then.

  The lock around the daemon's state is left out: it only forbids some interleavings.
-/
import Mik.Daemon.Cron
import Mik.Lib.Hoare

namespace Mik.Daemon

open Mik.Lib

/-! ## The daemon -/

/-- A live process that was started for the instance `owner`. -/
structure Process where
  pid : Nat
  owner : String
  deriving DecidableEq, Repr

/-- `serving` is false between a start that failed and the next one. -/
structure AppState where
  cron : CronScheduler
  store : StateStore
  procs : List Process
  serving : Bool

namespace AppState

def empty : AppState := ⟨.empty, .empty, [], true⟩

/-- Before the first start. -/
def off : AppState := ⟨.empty, .empty, [], false⟩

def alive (d : AppState) (pid : Nat) : Bool := d.procs.any fun p => p.pid == pid

end AppState

structure SpawnConfig where
  name : String
  port : Nat
  configPath : String
  deriving DecidableEq, Repr

/-- The text of a UUID. -/
structure Uuid where
  text : String
  noColon : ':' ∉ text.toList

/-- What the outside world contributes to one action. -/
structure Outside where
  txn : Option TxnStage
  history : HistoryFaults
  fault : Option String
  /-- The processes that have ended by themselves. -/
  ended : List Nat
  pid : Nat
  now : Int
  uuid : Uuid
  fileExists : Bool
  currentDir : Except String String
  schedules : Except String (List ScheduleConfig)
  executed : Except String Unit
  durationMs : Nat

/-- Nothing fails and nothing ends. -/
def Outside.calm : Outside where
  txn := none
  history := noFaults
  fault := none
  ended := []
  pid := 1
  now := 0
  uuid := ⟨"0", by decide⟩
  fileExists := true
  currentDir := .ok "/srv"
  schedules := .ok []
  executed := .ok ()
  durationMs := 1

/-! ## Actions and replies -/

inductive CronAction where
  | addJob (config : ScheduleConfig)
  | removeJob (name : String)
  | setEnabled (name : String) (enabled : Bool)
  | getConfig (name : String)
  | listJobs
  | getJob (name : String)
  | recordExecution (name : String) (execution : JobExecution) (success : Bool)

inductive StoreAction where
  | saveCronJob (config : ScheduleConfig)
  | removeCronJob (name : String)
  | listCronJobs
  | saveInstance (i : Instance)
  | getInstance (name : String)
  | listInstances
  | saveJobExecution (execution : JobExecution)
  | listJobExecutions (jobName : String) (limit : Option Nat)
  | cleanupJobExecutions (jobName : String) (keep : Nat)

inductive SystemAction where
  | isRunning (pid : Nat)
  | killInstance (pid : Nat)
  | spawnInstance (config : SpawnConfig)
  | fileExists (path : String)
  | currentDir
  | parseSchedules (path : String)
  | now
  | newUuid
  | executeWasmModule (config : ScheduleConfig)

inductive Action where
  | cron (a : CronAction)
  | store (a : StoreAction)
  | system (a : SystemAction)

abbrev CronReply : CronAction → Type
  | .addJob _ => Except String Unit
  | .removeJob _ => Except String Bool
  | .setEnabled _ _ => Option Bool
  | .getConfig _ => Option ScheduleConfig
  | .listJobs => List String
  | .getJob _ => Option JobState
  | .recordExecution _ _ _ => Unit

abbrev StoreReply : StoreAction → Type
  | .saveCronJob _ => Except String Unit
  | .removeCronJob _ => Except String Bool
  | .listCronJobs => Except String (List ScheduleConfig)
  | .saveInstance _ => Except String Unit
  | .getInstance _ => Except String (Option Instance)
  | .listInstances => Except String (List Instance)
  | .saveJobExecution _ => Except String Unit
  | .listJobExecutions _ _ => Except String (List JobExecution)
  | .cleanupJobExecutions _ _ => Except String Nat

abbrev SystemReply : SystemAction → Type
  | .isRunning _ => Except String Bool
  | .killInstance _ => Except String Unit
  | .spawnInstance _ => Except String Nat
  | .fileExists _ => Bool
  | .currentDir => Except String String
  | .parseSchedules _ => Except String (List ScheduleConfig)
  | .now => Int
  | .newUuid => Uuid
  | .executeWasmModule _ => Except String Unit × Nat

abbrev Reply : Action → Type
  | .cron a => CronReply a
  | .store a => StoreReply a
  | .system a => SystemReply a

/-! ## Performing an action -/

def CronScheduler.answer (validCron : String → Bool) (e : Outside) :
    (a : CronAction) → CronScheduler → CronReply a × CronScheduler
  | .addJob config, c => c.addJob validCron e.fault config
  | .removeJob name, c => c.removeJob e.fault name
  | .setEnabled name enabled, c => c.setEnabled name enabled
  | .getConfig name, c => (c.getConfig name, c)
  | .listJobs, c => (c.listJobs, c)
  | .getJob name, c => (c.getJob name, c)
  | .recordExecution name execution success, c => ((), c.recordExecution name execution success)

def StateStore.answer (e : Outside) : (a : StoreAction) → StateStore → StoreReply a × StateStore
  | .saveCronJob config, s => s.saveCronJob e.txn config
  | .removeCronJob name, s => s.removeCronJob e.txn name
  | .listCronJobs, s => s.listCronJobs e.txn
  | .saveInstance i, s => s.saveInstance e.txn i
  | .getInstance name, s => s.getInstance e.txn name
  | .listInstances, s => s.listInstances e.txn
  | .saveJobExecution execution, s =>
    let r := saveJobExecution e.history s.history execution
    (r.1, { s with history := r.2 })
  | .listJobExecutions jobName limit, s =>
    (listJobExecutions e.history s.history jobName limit, s)
  | .cleanupJobExecutions jobName keep, s =>
    let r := cleanupJobExecutions e.history s.history jobName keep
    (r.1, { s with history := r.2 })

/-- `procs` are the live processes; no process is started under the id of a live one. -/
def answerSystem (e : Outside) :
    (a : SystemAction) → List Process → SystemReply a × List Process
  | .isRunning pid, procs =>
    match e.fault with
    | some text => (.error text, procs)
    | none => (.ok (procs.any fun p => p.pid == pid), procs)
  | .killInstance pid, procs =>
    match e.fault with
    | some text => (.error text, procs)
    | none =>
      if procs.any fun p => p.pid == pid then (.ok (), procs.filter fun p => p.pid ≠ pid)
      else (.error ("Failed to send SIGTERM to process " ++ toString pid), procs)
  | .spawnInstance config, procs =>
    match e.fault with
    | some text => (.error text, procs)
    | none =>
      if procs.any fun p => p.pid == e.pid then
        (.error "Failed to spawn mik server process", procs)
      else (.ok e.pid, procs ++ [⟨e.pid, config.name⟩])
  | .fileExists _, procs => (e.fileExists, procs)
  | .currentDir, procs => (e.currentDir, procs)
  | .parseSchedules _, procs => (e.schedules, procs)
  | .now, procs => (e.now, procs)
  | .newUuid, procs => (e.uuid, procs)
  | .executeWasmModule _, procs => ((e.executed, e.durationMs), procs)

/-- The processes of `ended` are gone. -/
def AppState.reap (d : AppState) (ended : List Nat) : AppState :=
  { d with procs := d.procs.filter fun p => p.pid ∉ ended }

def answer (validCron : String → Bool) (e : Outside) : (a : Action) → AppState → Reply a × AppState
  | .cron a, d =>
    let r := d.cron.answer validCron e a
    (r.1, { d.reap e.ended with cron := r.2 })
  | .store a, d =>
    let r := d.store.answer e a
    (r.1, { d.reap e.ended with store := r.2 })
  | .system a, d =>
    let r := answerSystem e a (d.reap e.ended).procs
    (r.1, { d.reap e.ended with procs := r.2 })

end Mik.Daemon
