/-
  How far a task has come with one instance.

  The handlers of an instance and the ticks of the health check go the same way: they read the
  record, find out that the process it names is gone or end it, and then start a new process and
  record it, or record that there is none. `Stage` says how far a task is on that way, and
  `handling` is the protocol of it: a process is started, and a record saved, only after the
  process of the record that was read was found to be gone. All of them obey it
  (`obeys_activity`), under whatever interference.
-/
import Mik.Lib.Protocol
import Mik.Daemon.Handlers

namespace Mik.Daemon

open Mik.Lib Prog

/-! ## Stages -/

/-- The records are those that were read, of an instance that is running by it. The last three are
    stages of a tick, `respawned` is that of a restarted process which is not yet recorded. -/
inductive Stage where
  | idle
  | read (i : Instance)
  | clear
  | spawned (pid : Nat)
  | saved
  | halted
  | listed (i : Instance)
  | dead
  | respawned (pid : Nat)

namespace Stage

/-- A process was started and is not recorded yet. -/
def Unrecorded : Stage → Prop
  | spawned _ | respawned _ => True
  | _ => False

def afterRead : Option Instance → Stage
  | some i => if i.status = .running then read i else clear
  | none => clear

/-- A tick looks at running instances only. -/
def afterList (name : String) (instances : List Instance) : Stage :=
  match instances.find? fun i => i.name = name ∧ i.status = .running with
  | some i => listed i
  | none => idle

/-- The process `pid` is gone. -/
def afterGone (pid : Nat) : Stage → Stage
  | read i => if i.pid = pid then clear else read i
  | listed i => if i.pid = pid then dead else listed i
  | stage => stage

def afterSpawn (pid : Nat) : Stage → Stage
  | clear => spawned pid
  | dead => respawned pid
  | stage => stage

def afterSave : Stage → Stage
  | clear => halted
  | spawned _ => saved
  | respawned _ => idle
  | stage => stage

def next (name : String) (stage : Stage) : (a : Action) → Reply a → Stage
  | .store (.getInstance name'), .ok record => if name' = name then afterRead record else stage
  | .store .listInstances, .ok instances => afterList name instances
  | .store (.saveInstance i), .ok _ => if i.name = name then stage.afterSave else stage
  | .system (.isRunning pid), .ok false => stage.afterGone pid
  | .system (.killInstance pid), .ok _ => stage.afterGone pid
  | .system (.spawnInstance config), .ok pid =>
    if config.name = name then stage.afterSpawn pid else stage
  | _, _ => stage

/-- The records that are saved at a stage. -/
def Saves : Stage → Instance → Prop
  | clear, i => i.status = .stopped
  | spawned pid, i => i.status = .running ∧ i.pid = pid
  | dead, i => i.status ≠ .stopped
  | respawned pid, i => i.status = .running ∧ i.pid = pid
  | _, _ => False

def Allows (name : String) (stage : Stage) (a : Action) : Prop :=
  stage ≠ halted ∧
  match a with
  | .store (.getInstance name') => name' = name → stage = idle
  | .store .listInstances => stage = idle
  | .store (.saveInstance i) => i.name = name → stage.Saves i
  | .system (.spawnInstance config) => config.name = name → stage = clear ∨ stage = dead
  | _ => True

end Stage

/-- What a task was started for, and how far it has come. -/
structure Progress where
  activity : Activity
  stage : Stage

abbrev handling (name : String) : Protocol Action Reply where
  State := Progress
  allows q a := q.stage.Allows name a
  next q a r := { q with stage := q.stage.next name a r }

/-- Of the instances, the action is about this one. -/
def Only (name : String) : Action → Prop
  | .store (.getInstance name') => name' = name
  | .store .listInstances => False
  | .store (.saveInstance i) => i.name = name
  | .system (.spawnInstance config) => config.name = name
  | _ => True

/-- The action is about no instance. -/
def Neutral : Action → Prop
  | .store (.getInstance _) | .store .listInstances | .store (.saveInstance _) => False
  | .system (.isRunning _) | .system (.killInstance _) | .system (.spawnInstance _) => False
  | _ => True

/-- The answers that come: accesses to the instances and to the processes succeed, and records are
    under their names. -/
def Granted : (a : Action) → Reply a → Prop
  | .store (.getInstance name), r => ∃ record, r = .ok record ∧ ∀ i, record = some i → i.name = name
  | .store .listInstances, r =>
    ∃ instances, r = .ok instances ∧ (instances.map Instance.name).Nodup
  | .store (.saveInstance _), r => r = .ok ()
  | .system (.isRunning _), r => ∃ running, r = .ok running
  | .system (.killInstance _), r => r = .ok ()
  | .system (.spawnInstance _), r => ∃ pid, r = .ok pid
  | _, _ => True

/-- The request starts or restarts the instance. -/
def Activity.revives (name : String) : Activity → Bool
  | .startInstance req => req.name == name
  | .restartInstance name' => name' == name
  | _ => false

/-- How a task ends: every process it started is recorded, and what it has recorded is what it
    was started for. -/
structure Ends (name : String) (q : Progress) (ok : Bool) : Prop where
  recorded : ¬ q.stage.Unrecorded
  revived : q.stage = .saved → ok = true ∧ q.activity.revives name = true
  stopped : ok = true → q.activity = .stopInstance name → q.stage = .halted

/-! ## Steps of the protocol -/

section

variable {name : String} {α β : Type} {activity : Activity}

/-- The protocol of a task that is about one instance only. -/
abbrev handlingOnly (name : String) : Protocol Action Reply := (handling name).restrict (Only name)

/-- What is about no instance leaves the stage. -/
theorem obeys_neutral {Q : α → Prop} {p : Task α} (hp : p.Within Granted Neutral Q) {stage : Stage}
    (hstage : stage ≠ .halted) :
    p.Obeys (handlingOnly name) Granted (fun q x => q = ⟨activity, stage⟩ ∧ Q x)
      ⟨activity, stage⟩ := by
  refine Obeys.of_within (P := handlingOnly name) (S := fun q => q = ⟨activity, stage⟩) hp rfl ?_ ?_
  · rintro q a rfl ha
    cases a with
    | cron a => exact ⟨⟨hstage, trivial⟩, trivial⟩
    | store a =>
      cases a with
      | getInstance _ | listInstances | saveInstance _ => exact ha.elim
      | _ => exact ⟨⟨hstage, trivial⟩, trivial⟩
    | system a =>
      cases a with
      | isRunning _ | killInstance _ | spawnInstance _ => exact ha.elim
      | _ => exact ⟨⟨hstage, trivial⟩, trivial⟩
  · rintro q a r rfl ha
    cases a with
    | cron a => rfl
    | store a =>
      cases a with
      | getInstance _ | listInstances | saveInstance _ => exact ha.elim
      | _ => rfl
    | system a =>
      cases a with
      | isRunning _ | killInstance _ | spawnInstance _ => exact ha.elim
      | _ => rfl

/-! ## The steps of a request -/

theorem obeys_discard_ends {p : Task (Result α)} {q : Progress}
    (hp : p.Obeys (handlingOnly name) Granted (fun q x => Ends name q x.isOk) q) :
    (discard p).Obeys (handlingOnly name) Granted (fun q x => Ends name q x.isOk) q := by
  refine hp.bind fun q x hx => ?_
  cases x with
  | error e => exact hx
  | ok x => exact hx

/-- `p?` in a handler: an error is returned at a stage where the handler may end with one. -/
theorem obeys_orFail {Q : Progress → Except String α → Prop} {p : Task (Except String α)}
    {err : String → AppError} {k : α → Task (Result β)} {q : Progress}
    (hp : p.Obeys (handlingOnly name) Granted Q q)
    (hfail : ∀ q e, Q q (.error e) → Ends name q false)
    (hk : ∀ q x, Q q (.ok x) →
      (k x).Obeys (handlingOnly name) Granted (fun q x => Ends name q x.isOk) q) :
    (orFail p err k).Obeys (handlingOnly name) Granted (fun q x => Ends name q x.isOk) q := by
  refine hp.bind fun q x hx => ?_
  cases x with
  | error e => exact hfail q e hx
  | ok x => exact hk q x hx

/-- A handler may end with an error before it has started or recorded anything. -/
theorem ends_early {stage : Stage} (h : stage = .idle ∨ stage = .clear ∨ ∃ i, stage = .read i) :
    Ends name ⟨activity, stage⟩ false := by
  rcases h with rfl | rfl | ⟨i, rfl⟩
  · exact ⟨id, (fun h => by cases h), fun h => by cases h⟩
  · exact ⟨id, (fun h => by cases h), fun h => by cases h⟩
  · exact ⟨id, (fun h => by cases h), fun h => by cases h⟩

/-- The record is read first. -/
theorem obeys_getInstance :
    (onStore (.getInstance name)).Obeys (handlingOnly name) Granted
      (fun q r => ∃ record, r = .ok record ∧ (∀ i, record = some i → i.name = name) ∧
        q = ⟨activity, .afterRead record⟩) ⟨activity, .idle⟩ := by
  refine (obeys_perform (P := handlingOnly name) ?_).mono ?_
  · exact ⟨⟨(fun h => by cases h), fun _ => rfl⟩, rfl⟩
  · rintro q r ⟨rfl, record, rfl, hname⟩
    exact ⟨record, rfl, hname, congrArg (Progress.mk activity) (if_pos rfl)⟩

/-- A process that was started for the record that was read is there, or none is. -/
theorem obeys_isAlive {i : Instance} :
    (isAlive i).Obeys (handlingOnly name) Granted
      (fun q r => r = .ok true ∧ q = ⟨activity, .read i⟩ ∨ r = .ok false ∧ q = ⟨activity, .clear⟩)
      ⟨activity, .afterRead (some i)⟩ := by
  unfold isAlive Stage.afterRead
  dsimp only
  by_cases hrun : i.status = .running
  · rw [if_pos hrun, if_pos hrun]
    refine (obeys_perform (P := handlingOnly name) ?_).mono ?_
    · exact ⟨⟨(fun h => by cases h), trivial⟩, trivial⟩
    · rintro q r ⟨rfl, running, rfl⟩
      cases running with
      | true => exact Or.inl ⟨rfl, rfl⟩
      | false => exact Or.inr ⟨rfl, congrArg (Progress.mk activity) (if_pos rfl)⟩
  · rw [if_neg hrun, if_neg hrun]
    exact Or.inr ⟨rfl, rfl⟩

theorem obeys_runningInstance {record : Option Instance} :
    (runningInstance record).Obeys (handlingOnly name) Granted
      (fun q r => (∃ i, r = .ok (some i) ∧ q = ⟨activity, .read i⟩) ∨
        r = .ok none ∧ q = ⟨activity, .clear⟩) ⟨activity, .afterRead record⟩ := by
  cases record with
  | none => exact Or.inr ⟨rfl, rfl⟩
  | some i =>
    refine obeys_isAlive.bind ?_
    rintro q r (⟨rfl, rfl⟩ | ⟨rfl, rfl⟩)
    · exact Or.inl ⟨i, rfl, rfl⟩
    · exact Or.inr ⟨rfl, rfl⟩

theorem obeys_killIfAlive {i : Instance} :
    (killIfAlive i).Obeys (handlingOnly name) Granted
      (fun q r => r = .ok () ∧ q = ⟨activity, .clear⟩) ⟨activity, .afterRead (some i)⟩ := by
  refine obeys_isAlive.bind ?_
  rintro q r (⟨rfl, rfl⟩ | ⟨rfl, rfl⟩)
  · refine (obeys_perform (P := handlingOnly name) ?_).mono ?_
    · exact ⟨⟨(fun h => by cases h), trivial⟩, trivial⟩
    · rintro q r ⟨rfl, rfl⟩
      exact ⟨rfl, congrArg (Progress.mk activity) (if_pos rfl)⟩
  · exact ⟨rfl, rfl⟩

/-- A process is started once none is there. -/
theorem obeys_spawn {config : SpawnConfig} (hname : config.name = name) :
    (onSystem (.spawnInstance config)).Obeys (handlingOnly name) Granted
      (fun q r => ∃ pid, r = .ok pid ∧ q = ⟨activity, .spawned pid⟩) ⟨activity, .clear⟩ := by
  refine (obeys_perform (P := handlingOnly name) ?_).mono ?_
  · exact ⟨⟨(fun h => by cases h), fun _ => Or.inl rfl⟩, hname⟩
  · rintro q r ⟨rfl, pid, rfl⟩
    exact ⟨pid, rfl, congrArg (Progress.mk activity) (if_pos hname)⟩

theorem Stage.Saves.ne_halted {stage : Stage} {i : Instance} (h : stage.Saves i) :
    stage ≠ .halted := by
  rintro rfl
  exact h

theorem obeys_save {i : Instance} {stage : Stage} (hsaves : stage.Saves i) (hname : i.name = name) :
    (onStore (.saveInstance i)).Obeys (handlingOnly name) Granted
      (fun q r => r = .ok () ∧ q = ⟨activity, stage.afterSave⟩) ⟨activity, stage⟩ := by
  refine (obeys_perform (P := handlingOnly name) ?_).mono ?_
  · exact ⟨⟨hsaves.ne_halted, fun _ => hsaves⟩, hname⟩
  · rintro q r ⟨rfl, rfl⟩
    exact ⟨rfl, congrArg (Progress.mk activity) (if_pos hname)⟩

theorem within_pathOr (given : Option String) (make : String → String) :
    (pathOr given make).Within Granted Neutral fun _ => True := by
  cases given with
  | some path => trivial
  | none =>
    refine ⟨trivial, fun r _ => ?_⟩
    cases r with
    | error e => trivial
    | ok dir => trivial

theorem within_registerJobs (configs : List ScheduleConfig) :
    (registerJobs configs).Within Granted Neutral fun _ => True := by
  induction configs with
  | nil => trivial
  | cons config rest ih =>
    refine ⟨trivial, fun r _ => ?_⟩
    cases r with
    | error e => exact ih
    | ok _ => exact ⟨trivial, fun _ _ => ih⟩

theorem within_registerSchedules (job : String) (port : Nat) (config : String) :
    (registerSchedules job port config).Within Granted Neutral fun _ => True := by
  refine ⟨trivial, fun r _ => ?_⟩
  cases r with
  | error e => trivial
  | ok schedules => exact within_registerJobs _

theorem within_removeJobs (jobs : List String) :
    (removeJobs jobs).Within Granted Neutral fun _ => True := by
  induction jobs with
  | nil => trivial
  | cons job rest ih =>
    refine ⟨trivial, fun r _ => ?_⟩
    cases r with
    | error e => exact ih
    | ok _ => exact ⟨trivial, fun _ _ => ih⟩

theorem within_removeScopedJobs (job : String) :
    (removeScopedJobs job).Within Granted Neutral fun _ => True :=
  ⟨trivial, fun _ _ => within_removeJobs _⟩

theorem obeys_pathOr (given : Option String) (make : String → String) {stage : Stage}
    (hstage : stage ≠ .halted) :
    (pathOr given make).Obeys (handlingOnly name) Granted (fun q _ => q = ⟨activity, stage⟩)
      ⟨activity, stage⟩ :=
  (obeys_neutral (within_pathOr given make) hstage).mono fun _ _ h => h.1

/-! ## The handlers -/

theorem obeys_startInstance (req : StartInstanceRequest) :
    (startInstance req).Obeys (handlingOnly req.name) Granted
      (fun q x => Ends req.name q x.isOk) ⟨.startInstance req, .idle⟩ := by
  unfold startInstance
  split
  · exact ends_early (Or.inl rfl)
  · refine obeys_orFail obeys_getInstance (by rintro q e ⟨_, h, -⟩; cases h) ?_
    rintro q _ ⟨record, h, -, rfl⟩
    cases h
    refine obeys_orFail obeys_runningInstance
      (by rintro q e (⟨_, h, -⟩ | ⟨h, -⟩) <;> cases h) ?_
    rintro q running (⟨i, h, rfl⟩ | ⟨h, rfl⟩)
    · cases h
      exact ends_early (Or.inr (Or.inr ⟨i, rfl⟩))
    · cases h
      refine obeys_orFail (obeys_pathOr _ _ (by rintro ⟨⟩)) ?_ ?_
      · rintro q e rfl
        exact ends_early (Or.inr (Or.inl rfl))
      · rintro q configPath rfl
        refine ⟨⟨⟨(fun h => by cases h), trivial⟩, trivial⟩, fun exists' _ => ?_⟩
        cases exists' with
        | false => exact ends_early (Or.inr (Or.inl rfl))
        | true =>
          refine obeys_orFail (obeys_pathOr _ _ (by rintro ⟨⟩)) ?_ ?_
          · rintro q e rfl
            exact ends_early (Or.inr (Or.inl rfl))
          · rintro q _ rfl
            refine obeys_orFail (obeys_spawn rfl) (by rintro q e ⟨_, h, -⟩; cases h) ?_
            rintro q _ ⟨pid, h, rfl⟩
            cases h
            refine ⟨⟨⟨(fun h => by cases h), trivial⟩, trivial⟩, fun now _ => ?_⟩
            refine obeys_orFail (obeys_save ⟨rfl, rfl⟩ rfl)
              (by rintro q e ⟨h, -⟩; cases h) ?_
            rintro q _ ⟨-, rfl⟩
            refine (obeys_neutral (within_registerSchedules _ _ _) fun h => by cases h).bind ?_
            rintro q _ ⟨rfl, -⟩
            exact ⟨id, fun _ => ⟨rfl, beq_self_eq_true _⟩, fun _ h => by cases h⟩

theorem obeys_stopInstance (name : String) :
    (stopInstance name).Obeys (handlingOnly name) Granted
      (fun q x => Ends name q x.isOk) ⟨.stopInstance name, .idle⟩ := by
  refine obeys_orFail obeys_getInstance (by rintro q e ⟨_, h, -⟩; cases h) ?_
  rintro q record ⟨_, h, hname, rfl⟩
  cases h
  cases record with
  | none => exact ends_early (Or.inr (Or.inl rfl))
  | some i =>
    by_cases hrun : i.status = .running
    · dsimp only
      rw [if_pos hrun]
      refine obeys_orFail obeys_killIfAlive (by rintro q e ⟨h, -⟩; cases h) ?_
      rintro q _ ⟨-, rfl⟩
      refine (obeys_neutral (within_removeScopedJobs _) (fun h => by cases h)).bind ?_
      rintro q _ ⟨rfl, -⟩
      refine obeys_orFail (obeys_save rfl (hname i rfl))
        (by rintro q e ⟨h, -⟩; cases h) ?_
      rintro q _ ⟨-, rfl⟩
      exact ⟨id, (fun h => by cases h), fun _ _ => rfl⟩
    · dsimp only
      unfold Stage.afterRead
      dsimp only
      rw [if_neg hrun, if_neg hrun]
      exact ends_early (Or.inr (Or.inl rfl))

theorem obeys_restartInstance (name : String) :
    (restartInstance name).Obeys (handlingOnly name) Granted
      (fun q x => Ends name q x.isOk) ⟨.restartInstance name, .idle⟩ := by
  refine obeys_orFail obeys_getInstance (by rintro q e ⟨_, h, -⟩; cases h) ?_
  rintro q record ⟨_, h, hname, rfl⟩
  cases h
  cases record with
  | none => exact ends_early (Or.inr (Or.inl rfl))
  | some i =>
    refine obeys_orFail obeys_killIfAlive (by rintro q e ⟨h, -⟩; cases h) ?_
    rintro q _ ⟨-, rfl⟩
    refine (obeys_neutral (within_removeScopedJobs _) (fun h => by cases h)).bind ?_
    rintro q _ ⟨rfl, -⟩
    refine obeys_orFail (obeys_spawn (hname i rfl)) (by rintro q e ⟨_, h, -⟩; cases h) ?_
    rintro q _ ⟨pid, h, rfl⟩
    cases h
    refine ⟨⟨⟨(fun h => by cases h), trivial⟩, trivial⟩, fun now _ => ?_⟩
    refine obeys_orFail (obeys_save ⟨rfl, rfl⟩ (hname i rfl))
      (by rintro q e ⟨h, -⟩; cases h) ?_
    rintro q _ ⟨-, rfl⟩
    refine (obeys_neutral (within_registerSchedules _ _ _) (fun h => by cases h)).bind ?_
    rintro q _ ⟨rfl, -⟩
    exact ⟨id, fun _ => ⟨rfl, beq_self_eq_true _⟩, fun _ h => by cases h⟩

/-! ## The health check -/

/-- A tick is at this stage between two instances. -/
def Stage.Resting : Stage → Prop
  | idle | listed _ | dead => True
  | _ => False

theorem resting_afterGone {stage : Stage} (h : stage.Resting) (pid : Nat) :
    (stage.afterGone pid).Resting := by
  cases stage with
  | listed i =>
    show (if i.pid = pid then Stage.dead else .listed i).Resting
    split
    · trivial
    · trivial
  | idle | dead => trivial
  | _ => exact h.elim

theorem within_shouldRestartNow (i : Instance) :
    (shouldRestartNow i).Within Granted Neutral fun _ => True := by
  unfold shouldRestartNow
  split
  · trivial
  · exact ⟨trivial, fun _ _ => trivial⟩

theorem obeys_respawn {i : Instance} (hname : i.name = name) :
    (spawnAndSaveRestartedInstance i).Obeys (handlingOnly name) Granted
      (fun q _ => q.activity = activity ∧ q.stage.Resting) ⟨activity, .dead⟩ := by
  refine ⟨⟨⟨(fun h => by cases h), fun _ => Or.inr rfl⟩, hname⟩, fun r hr => ?_⟩
  obtain ⟨pid, rfl⟩ := hr
  have hstage : Stage.next name .dead (.system (.spawnInstance
      { name := i.name, port := i.port, configPath := i.config })) (.ok pid) = .respawned pid :=
    if_pos hname
  show Obeys (handlingOnly name) _ _ ⟨activity, Stage.next name .dead _ _⟩ _
  rw [hstage]
  refine ⟨⟨⟨(fun h => by cases h), trivial⟩, trivial⟩, fun startedAt _ => ?_⟩
  refine ⟨⟨⟨(fun h => by cases h), trivial⟩, trivial⟩, fun restartedAt _ => ?_⟩
  have hsaves : (Stage.respawned pid).Saves { i with
      pid
      status := .running
      startedAt
      autoRestart := true
      restartCount := i.restartCount + 1
      lastRestartAt := some restartedAt } := ⟨rfl, rfl⟩
  refine (obeys_save hsaves hname).bind ?_
  rintro q _ ⟨-, rfl⟩
  exact ⟨rfl, trivial⟩

/-- The check of the instance, from the listing of its record on. -/
theorem obeys_check {maxAutoRestarts : Nat} {i : Instance} (hname : i.name = name) {stage : Stage}
    (hstage : stage = .listed i ∨ stage = .dead) :
    (checkAndRecoverSingleInstance maxAutoRestarts i).Obeys (handlingOnly name) Granted
      (fun q _ => q.activity = activity ∧ q.stage.Resting) ⟨activity, stage⟩ := by
  have hresting : stage.Resting := by
    rcases hstage with rfl | rfl
    · trivial
    · trivial
  have hhalted : stage ≠ .halted := by
    rcases hstage with rfl | rfl
    · exact fun h => by cases h
    · exact fun h => by cases h
  unfold checkAndRecoverSingleInstance
  by_cases hrun : i.status = .running
  swap
  · rw [if_neg hrun]
    exact ⟨rfl, hresting⟩
  rw [if_pos hrun]
  refine ⟨⟨⟨hhalted, trivial⟩, trivial⟩, fun r hr => ?_⟩
  obtain ⟨running, rfl⟩ := hr
  cases running with
  | true => exact ⟨rfl, hresting⟩
  | false =>
    have hdead : stage.next name (.system (.isRunning i.pid)) (.ok false) = .dead := by
      rcases hstage with rfl | rfl
      · exact if_pos rfl
      · rfl
    show Obeys (handlingOnly name) _ _ ⟨activity, stage.next name _ _⟩
      (handleCrashedInstance maxAutoRestarts i)
    rw [hdead]
    have hsaves : Stage.dead.Saves { i with status := .crashed (-1) } := fun h => by cases h
    refine (obeys_save hsaves hname).bind ?_
    rintro q _ ⟨rfl, rfl⟩
    show Obeys (handlingOnly name) _ _ ⟨activity, .dead⟩
      (if i.autoRestart then attemptAutoRestart maxAutoRestarts i else ret ())
    split
    · unfold attemptAutoRestart
      split
      · exact ⟨rfl, trivial⟩
      · refine (obeys_neutral (within_shouldRestartNow i) (fun h => by cases h)).bind ?_
        rintro q now ⟨rfl, -⟩
        cases now with
        | false => exact ⟨rfl, trivial⟩
        | true => exact obeys_respawn hname
    · exact ⟨rfl, trivial⟩

/-- Work on another instance may find the process gone that this one was recorded with, but does
    no more to the stage. -/
theorem obeys_other {name' : String} (hname : name' ≠ name) {Q : α → Prop} {p : Task α}
    (hp : p.Within Granted (Only name') Q) {S : Stage → Prop} (hhalted : ∀ stage, S stage →
      stage ≠ .halted) (hgone : ∀ stage pid, S stage → S (stage.afterGone pid)) {stage : Stage}
    (hstage : S stage) :
    p.Obeys (handling name) Granted (fun q x => (q.activity = activity ∧ S q.stage) ∧ Q x)
      ⟨activity, stage⟩ := by
  refine Obeys.of_within (P := handling name) (S := fun q => q.activity = activity ∧ S q.stage) hp
    ⟨rfl, hstage⟩ ?_ ?_
  · rintro q a ⟨-, hq⟩ ha
    refine ⟨hhalted _ hq, ?_⟩
    cases a with
    | cron a => trivial
    | store a =>
      cases a with
      | getInstance _ | saveInstance _ => exact fun h => absurd (ha.symm.trans h) hname
      | listInstances => exact ha.elim
      | _ => trivial
    | system a =>
      cases a with
      | spawnInstance config => exact fun h => absurd (ha.symm.trans h) hname
      | _ => trivial
  · rintro q a r ⟨hactivity, hq⟩ ha
    refine ⟨hactivity, ?_⟩
    show S (q.stage.next name a r)
    unfold Stage.next
    split
    · rw [if_neg fun h => hname (ha.symm.trans h)]
      exact hq
    · exact ha.elim
    · rw [if_neg fun h => hname (ha.symm.trans h)]
      exact hq
    · exact hgone _ _ hq
    · exact hgone _ _ hq
    · rw [if_neg fun h => hname (ha.symm.trans h)]
      exact hq
    · exact hq

/-- The stage is right for the instances that are still to be checked. -/
def Ready (name : String) (instances : List Instance) (stage : Stage) : Prop :=
  stage.Resting ∧
    ∀ i ∈ instances, i.name = name → i.status = .running → stage = .listed i ∨ stage = .dead

theorem ready_afterGone {instances : List Instance} {stage : Stage}
    (h : Ready name instances stage) (pid : Nat) : Ready name instances (stage.afterGone pid) := by
  refine ⟨resting_afterGone h.1 pid, fun i hi hname hrun => ?_⟩
  rcases h.2 i hi hname hrun with rfl | rfl
  · by_cases hpid : i.pid = pid
    · exact Or.inr (if_pos hpid)
    · exact Or.inl (if_neg hpid)
  · exact Or.inr rfl

theorem Ready.tail {instances : List Instance} {stage : Stage} {i : Instance}
    (h : Ready name (i :: instances) stage) : Ready name instances stage :=
  ⟨h.1, fun i' hi' => h.2 i' (List.mem_cons_of_mem _ hi')⟩

theorem obeys_checkEach {maxAutoRestarts : Nat} {instances : List Instance}
    (hnodup : (instances.map Instance.name).Nodup) {stage : Stage}
    (h : Ready name instances stage) :
    (checkAndRecoverEach maxAutoRestarts instances).Obeys (handling name) Granted
      (fun q _ => q.activity = activity ∧ q.stage.Resting) ⟨activity, stage⟩ := by
  induction instances generalizing stage with
  | nil => exact ⟨rfl, h.1⟩
  | cons i rest ih =>
    obtain ⟨hfirst, hrest⟩ := List.nodup_cons.mp hnodup
    by_cases hname : i.name = name
    · -- Its turn; the instance does not come again.
      have hnone : ∀ stage : Stage, stage.Resting → Ready name rest stage := by
        refine fun stage hstage => ⟨hstage, fun i' hi' hname' _ => absurd ?_ hfirst⟩
        rw [hname, ← hname']
        exact List.mem_map_of_mem hi'
      by_cases hrun : i.status = .running
      · have hcheck : (checkAndRecoverSingleInstance maxAutoRestarts i).Obeys (handlingOnly name)
            Granted (fun q _ => q.activity = activity ∧ q.stage.Resting) ⟨activity, stage⟩ :=
          obeys_check hname (h.2 i List.mem_cons_self hname hrun)
        refine hcheck.of_restrict.bind ?_
        rintro ⟨activity', stage'⟩ _ ⟨hactivity, hstage⟩
        obtain rfl : activity' = activity := hactivity
        exact ih hrest (hnone stage' hstage)
      · have hskip : checkAndRecoverSingleInstance maxAutoRestarts i = ret () := if_neg hrun
        show (checkAndRecoverSingleInstance maxAutoRestarts i >>= fun _ => _).Obeys _ _ _ _
        rw [hskip]
        exact ih hrest (hnone stage h.1)
    · have hown : (checkAndRecoverSingleInstance maxAutoRestarts i).Obeys (handlingOnly i.name)
          Granted (fun q _ => q.activity = activity ∧ q.stage.Resting) ⟨activity, .dead⟩ :=
        obeys_check rfl (Or.inr rfl)
      have hcheck := hown.within
      refine (obeys_other hname hcheck (S := Ready name (i :: rest)) ?_ ?_ h).bind ?_
      · rintro stage ⟨hresting, -⟩ rfl
        exact hresting
      · exact fun stage pid hstage => ready_afterGone hstage pid
      · rintro ⟨activity', stage'⟩ _ ⟨⟨hactivity, hready⟩, -⟩
        obtain rfl : activity' = activity := hactivity
        exact ih hrest hready.tail

/-- What a tick makes of the list: a running instance of this name, or there is none. -/
theorem Stage.afterList_cases (name : String) (instances : List Instance) :
    (∃ i ∈ instances, (i.name = name ∧ i.status = .running) ∧
      Stage.afterList name instances = .listed i) ∨
    ((∀ i ∈ instances, i.name = name → i.status ≠ .running) ∧
      Stage.afterList name instances = .idle) := by
  unfold Stage.afterList
  split
  · next i hi =>
    have hfound := List.find?_some hi
    exact Or.inl ⟨i, List.mem_of_find?_eq_some hi, of_decide_eq_true hfound, rfl⟩
  · next hnone =>
    refine Or.inr ⟨fun i hi hname hrun => ?_, rfl⟩
    exact absurd (decide_eq_true ⟨hname, hrun⟩) (List.find?_eq_none.mp hnone i hi)

theorem ready_afterList {instances : List Instance}
    (hnodup : (instances.map Instance.name).Nodup) :
    Ready name instances (.afterList name instances) := by
  rcases Stage.afterList_cases name instances with ⟨i, hi, hfound, heq⟩ | ⟨hnone, heq⟩
  · rw [heq]
    refine ⟨trivial, fun i' hi' hname' _ => Or.inl (congrArg Stage.listed ?_)⟩
    exact List.inj_on_of_nodup_map hnodup hi hi' (hfound.1.trans hname'.symm)
  · rw [heq]
    exact ⟨trivial, fun i hi hname hrun => absurd hrun (hnone i hi hname)⟩

theorem obeys_checkAndRecoverInstances (maxAutoRestarts : Nat) :
    (checkAndRecoverInstances maxAutoRestarts).Obeys (handling name) Granted
      (fun q _ => q.activity = activity ∧ q.stage.Resting) ⟨activity, .idle⟩ := by
  refine ⟨⟨(fun h => by cases h), rfl⟩, fun r hr => ?_⟩
  obtain ⟨instances, rfl, hnodup⟩ := hr
  exact obeys_checkEach hnodup (ready_afterList hnodup)

/-! ## All of them -/

/-- The handlers of the instances, and the ticks of the health check. -/
def Activity.handlesInstances : Activity → Bool
  | .startInstance _ | .stopInstance _ | .restartInstance _ | .healthCheck _ => true
  | _ => false

/-- A handler of an instance obeys the protocol of that one and, since it leaves the others alone,
    of every other. -/
theorem obeys_handler {name' : String} {p : Task (Result Unit)}
    (hp : p.Obeys (handlingOnly name') Granted (fun q x => Ends name' q x.isOk) ⟨activity, .idle⟩)
    (hstop : activity = .stopInstance name → name' = name) :
    p.Obeys (handling name) Granted (fun q x => Ends name q x.isOk) ⟨activity, .idle⟩ := by
  by_cases hname : name' = name
  · rw [← hname]
    exact hp.of_restrict
  · refine (obeys_other hname hp.within (S := fun stage => stage = .idle) ?_ ?_ rfl).mono ?_
    · rintro _ rfl h
      cases h
    · rintro _ pid rfl
      rfl
    · rintro ⟨activity', stage⟩ x ⟨⟨hactivity, hstage⟩, -⟩
      obtain rfl : activity' = activity := hactivity
      obtain rfl : stage = .idle := hstage
      exact ⟨id, (fun h => by cases h), fun _ h => absurd (hstop h) hname⟩

theorem obeys_activity (h : activity.handlesInstances = true) :
    activity.program.Obeys (handling name) Granted (fun q x => Ends name q x.isOk)
      ⟨activity, .idle⟩ := by
  cases activity with
  | startInstance req =>
    exact obeys_handler (obeys_discard_ends (obeys_startInstance req)) fun h => by cases h
  | stopInstance name' =>
    refine obeys_handler (obeys_discard_ends (obeys_stopInstance name')) fun h => ?_
    cases h
    rfl
  | restartInstance name' =>
    exact obeys_handler (obeys_discard_ends (obeys_restartInstance name')) fun h => by cases h
  | healthCheck maxAutoRestarts =>
    refine (obeys_checkAndRecoverInstances maxAutoRestarts).bind ?_
    rintro ⟨activity, stage⟩ _ ⟨rfl, hstage⟩
    cases stage with
    | idle | listed _ | dead => exact ⟨id, (fun h => by cases h), fun _ h => by cases h⟩
    | _ => exact hstage.elim
  | _ => cases h

end

end Mik.Daemon
