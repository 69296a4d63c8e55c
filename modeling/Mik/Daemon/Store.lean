/-
  The state store of the daemon (`src/daemon/state`): the instances, the cron jobs and the job
  history, each a table of records under their own keys.

  Every call is one transaction, but for `cleanupJobExecutions`, which reads in one and writes in
  another; the two are one action here. `txn` is the step at which a transaction fails, if it does.
  A transaction that failed has changed nothing.
-/
import Mik.Daemon.History

namespace Mik.Daemon

open Mik.Lib

/-! ## Records -/

/-- `ScheduleConfig`; the body is the text of its JSON. -/
structure ScheduleConfig where
  name : String
  module : String
  cron : String
  method : String
  path : String
  enabled : Bool
  port : Nat
  body : Option String
  headers : Option (List (String × String))
  healthPath : String
  deriving DecidableEq, Repr

/-- A job at midnight with the defaults of a manifest. -/
def dailyJob (name : String) : ScheduleConfig where
  name := name
  module := "modules/backup.wasm"
  cron := "0 0 0 * * * *"
  method := "GET"
  path := "/"
  enabled := true
  port := 3000
  body := none
  headers := none
  healthPath := "/health"

inductive Status where
  | running
  | stopped
  | crashed (exitCode : Int)
  deriving DecidableEq, Repr

/-- The text of `{:?}`. -/
def Status.debug : Status → String
  | .running => "Running"
  | .stopped => "Stopped"
  | .crashed exitCode => "Crashed \x7b exit_code: " ++ toString exitCode ++ " \x7d"

/-- `Instance`; times are nanoseconds. -/
structure Instance where
  name : String
  port : Nat
  pid : Nat
  status : Status
  config : String
  startedAt : Int
  modules : List String
  autoRestart : Bool
  restartCount : Nat
  lastRestartAt : Option Int
  deriving DecidableEq, Repr

/-- The tables `cron_jobs`, `instances` and `cron_history`. -/
structure StateStore where
  cronJobs : Records ScheduleConfig.name
  instances : Records Instance.name
  history : HistoryTable

def StateStore.empty : StateStore := ⟨.empty, .empty, .empty⟩

/-! ## The calls -/

/-- A transaction that does not fail performs its access. -/
def transact {S α : Type} (txn : Option TxnStage) (texts : TxnTexts) (access : S → α × S) (s : S) :
    Except String α × S :=
  match txn with
  | some stage => (.error (texts.error stage), s)
  | none => (.ok (access s).1, (access s).2)

/-- What the access leaves alone, the transaction leaves alone. -/
theorem transact_same {S α β : Type} (g : S → β) {txn : Option TxnStage} {texts : TxnTexts}
    {access : S → α × S} {s : S} (h : g (access s).2 = g s) :
    g (transact txn texts access s).2 = g s := by
  cases txn with
  | none => exact h
  | some stage => rfl

def writeTexts (table access finish : String) : TxnTexts where
  beginTxn := "Failed to begin write transaction"
  openTable := "Failed to open " ++ table ++ " table"
  access := access
  finish := finish

def readTexts (table access finish : String) : TxnTexts where
  beginTxn := "Failed to begin read transaction"
  openTable := "Failed to open " ++ table ++ " table"
  access := access
  finish := finish

namespace StateStore

def saveCronJob (txn : Option TxnStage) (s : StateStore) (config : ScheduleConfig) :
    Except String Unit × StateStore :=
  transact txn
    (writeTexts "cron_jobs" ("Failed to insert cron job '" ++ config.name ++ "'")
      "Failed to commit cron job save transaction")
    (fun s => ((), { s with cronJobs := s.cronJobs.put config })) s

/-- Whether there was such a job. -/
def removeCronJob (txn : Option TxnStage) (s : StateStore) (name : String) :
    Except String Bool × StateStore :=
  transact txn
    (writeTexts "cron_jobs" ("Failed to remove cron job '" ++ name ++ "'")
      "Failed to commit cron job remove transaction")
    (fun s => ((s.cronJobs.lookup name).isSome,
      { s with cronJobs := s.cronJobs.remove name })) s

def listCronJobs (txn : Option TxnStage) (s : StateStore) :
    Except String (List ScheduleConfig) × StateStore :=
  transact txn
    (readTexts "cron_jobs" "Failed to iterate cron_jobs table" "Failed to read cron job entry")
    (fun s => (s.cronJobs.values, s)) s

def saveInstance (txn : Option TxnStage) (s : StateStore) (i : Instance) :
    Except String Unit × StateStore :=
  transact txn
    (writeTexts "instances" ("Failed to insert instance '" ++ i.name ++ "'")
      "Failed to commit instance save transaction")
    (fun s => ((), { s with instances := s.instances.put i })) s

def getInstance (txn : Option TxnStage) (s : StateStore) (name : String) :
    Except String (Option Instance) × StateStore :=
  transact txn
    (readTexts "instances" ("Failed to read instance '" ++ name ++ "'")
      ("Failed to deserialize instance '" ++ name ++ "'"))
    (fun s => (s.instances.lookup name, s)) s

def listInstances (txn : Option TxnStage) (s : StateStore) :
    Except String (List Instance) × StateStore :=
  transact txn
    (readTexts "instances" "Failed to iterate instances table" "Failed to read instance entry")
    (fun s => (s.instances.values, s)) s

end StateStore

end Mik.Daemon
