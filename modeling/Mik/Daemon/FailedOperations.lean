/-
  What a start or a restart of an instance leaves when it fails
  (`start_instance` and `restart_instance` of `src/daemon/http/handlers/instances.rs`).

  Both change four kinds of state one after the other, the processes, the record, the jobs of the
  scheduler and the persisted jobs, and return early from the middle. `Undamaged` is what should
  be true then. It is not, in three cases, and `undamaged_iff` says that these are all:

  * a start, or a restart, whose record cannot be saved leaves the new process to nobody;
  * a restart that has ended the process and cannot start the new one leaves a record that says
    Running;
  * a restart that fails after it has removed the jobs leaves the instance without them.

  A call runs alone, and no process ends by itself during it (`Uninterrupted`), except that the
  process of a failed kill may be gone. `Exact` carries the exact condition through a handler.
-/
import Mik.Daemon.Processes

namespace Mik.Daemon

open Mik.Lib Prog

/-! ## What a failure should leave -/

inductive Operation where
  | start (req : StartInstanceRequest)
  | restart (name : String)

namespace Operation

def name : Operation → String
  | start req => req.name
  | restart name => name

def program : Operation → Task (Result Instance)
  | start req => startInstance req
  | restart name => restartInstance name

end Operation

/-- The record says Running only if its process is there. -/
def TrueRecord (name : String) (d : AppState) : Prop :=
  ∀ i ∈ d.store.instances.lookup name, i.status = .running → d.alive i.pid = true

instance instDecidableTrueRecord (name : String) (d : AppState) : Decidable (TrueRecord name d) :=
  inferInstanceAs (Decidable (∀ i ∈ d.store.instances.lookup name, _ → _ = true))

/-- Some record has the process. -/
def Recorded (d : AppState) (pid : Nat) : Prop := ∃ i ∈ d.store.instances.values, i.pid = pid

/-- The scheduled jobs of the instance are the same. -/
def SameScopedJobs (name : String) (d d' : AppState) : Prop :=
  ∀ job, startsWith (name ++ ":") job = true →
    d'.cron.jobs.lookup job = d.cron.jobs.lookup job ∧
      d'.store.cronJobs.lookup job = d.store.cronJobs.lookup job

/-- The trace has the start of a process. -/
def Started (tr : List (Prog.Event Action Reply)) (pid : Nat) : Prop :=
  ∃ config, (⟨.system (.spawnInstance config), .ok pid⟩ : Prog.Event Action Reply) ∈ tr

/-- What is true of `d'` if a call from `d` with the trace `tr` has done no harm. -/
structure Undamaged (name : String) (d : AppState) (tr : List (Prog.Event Action Reply))
    (d' : AppState) : Prop where
  record : TrueRecord name d'
  recorded : ∀ pid, Started tr pid → d'.alive pid = true → Recorded d' pid
  jobs : SameScopedJobs name d d'

/-- A call that fails has done no harm. -/
def FailsUndamaged (name : String) (d : AppState) (r : Result Instance)
    (tr : List (Prog.Event Action Reply)) (w : World) : Prop :=
  r.isOk = false → Undamaged name d tr w.2

/-- No process ends by itself; that of a kill may be gone before the kill is over. -/
def Uninterrupted (a : Action) (w : World) : Prop :=
  match a with
  | .system (.killInstance pid) => ∀ ended ∈ (w.1 0).ended, ended = pid
  | _ => (w.1 0).ended = []

/-! ## The condition -/

/-- The system starts a process. -/
def Spawns (w : World) : Prop := (w.1 0).fault = none ∧ w.2.alive (w.1 0).pid = false

/-- The scheduler has no jobs of the instance. -/
def NoScopedJobs (name : String) (d : AppState) : Prop :=
  ∀ job ∈ d.cron.listJobs, startsWith (name ++ ":") job = false

/-- The new process is recorded, or some record has its id already. -/
def StartHolds (a : Action) (w : World) : Prop :=
  match a with
  | .store (.saveInstance i) => (w.1 0).txn = none ∨ Recorded w.2 i.pid
  | _ => True

/-- Every step that comes after the first change of something holds; `d` is the daemon before the
    call. -/
def RestartStepHolds (name : String) (d : AppState) (a : Action) (w : World) : Prop :=
  match a with
  | .system (.killInstance pid) => pid ∉ (w.1 0).ended
  | .system (.spawnInstance _) =>
    Spawns w ∨
      (∀ i ∈ d.store.instances.lookup name, i.status ≠ .running) ∧ NoScopedJobs name d
  | .store (.saveInstance updated) =>
    (w.1 0).txn = none ∨
      (∀ i ∈ d.store.instances.lookup name, i.status = .running → i.pid = updated.pid) ∧
        Recorded w.2 updated.pid ∧ NoScopedJobs name d
  | _ => True

/-- The steps of the call that the handler does not undo hold. -/
def Operation.StepHolds (d : AppState) : Operation → Action → World → Prop
  | .start _ => StartHolds
  | .restart name => RestartStepHolds name d

/-! ## Single actions -/

section

variable {validCron : String → Bool} {name : String} {d d₁ : AppState} {w : World} {a : Action}
  {tr : List (Prog.Event Action Reply)}

@[simp] theorem reap_nil (d : AppState) : d.reap [] = d := by
  simp [AppState.reap]

/-- What only looks at the daemon. -/
def Looks : Action → Prop
  | .store (.getInstance _) => True
  | .system (.isRunning _) | .system (.fileExists _) | .system .currentDir | .system .now => True
  | _ => False

/-- When nothing ends by itself, an action only changes what it is about. -/
theorem answer_store {e : Outside} {a : StoreAction} (hended : e.ended = []) :
    answer validCron e (.store a) d =
      ((d.store.answer e a).1, { d with store := (d.store.answer e a).2 }) := by
  simp only [answer, hended, reap_nil]

theorem answer_system {e : Outside} {a : SystemAction} (hended : e.ended = []) :
    answer validCron e (.system a) d =
      ((answerSystem e a d.procs).1, { d with procs := (answerSystem e a d.procs).2 }) := by
  simp only [answer, hended, reap_nil]

theorem look_same (ha : Looks a) (hended : (w.1 0).ended = []) :
    (answerAlone validCron a w).2.2 = w.2 := by
  show (answer validCron (w.1 0) a w.2).2 = w.2
  cases a with
  | cron a => exact ha.elim
  | store a =>
    rw [answer_store hended]
    cases a with
    | getInstance name =>
      have hstore : (w.2.store.getInstance (w.1 0).txn name).2 = w.2.store :=
        transact_same id rfl
      exact congrArg (fun store => { w.2 with store }) hstore
    | _ => exact ha.elim
  | system a =>
    rw [answer_system hended]
    cases a with
    | isRunning pid =>
      unfold answerSystem
      cases (w.1 0).fault with
      | none => rfl
      | some text => rfl
    | fileExists path => rfl
    | currentDir => rfl
    | now => rfl
    | _ => exact ha.elim

theorem uninterrupted_look (ha : Looks a) (h : Uninterrupted a w) : (w.1 0).ended = [] := by
  cases a with
  | cron a => exact ha.elim
  | store a => exact h
  | system a =>
    cases a with
    | killInstance pid => exact ha.elim
    | _ => exact h

theorem uninterrupted_neutral (ha : Neutral a) (h : Uninterrupted a w) : (w.1 0).ended = [] := by
  cases a with
  | cron a => exact h
  | store a => exact h
  | system a =>
    cases a with
    | killInstance pid => exact ha.elim
    | _ => exact h

theorem not_spawn_of_looks (ha : Looks a) (config : SpawnConfig) :
    a ≠ .system (.spawnInstance config) := by
  intro heq
  rw [heq] at ha
  exact ha

theorem not_spawn_of_neutral (ha : Neutral a) (config : SpawnConfig) :
    a ≠ .system (.spawnInstance config) := by
  intro heq
  rw [heq] at ha
  exact ha

/-- What is about no instance leaves the records and the processes alone. -/
theorem neutral_same (ha : Neutral a) (hended : (w.1 0).ended = []) :
    (answerAlone validCron a w).2.2.store.instances = w.2.store.instances ∧
      (answerAlone validCron a w).2.2.procs = w.2.procs := by
  have hreap : w.2.reap (w.1 0).ended = w.2 := by rw [hended, reap_nil]
  have hprocs : (w.2.reap (w.1 0).ended).procs = w.2.procs := by rw [hreap]
  cases a with
  | cron a => exact ⟨rfl, hprocs⟩
  | store a =>
    refine ⟨?_, hprocs⟩
    cases a with
    | saveCronJob config => exact transact_same StateStore.instances rfl
    | removeCronJob name => exact transact_same StateStore.instances rfl
    | listCronJobs => exact transact_same StateStore.instances rfl
    | saveJobExecution _ | listJobExecutions _ _ | cleanupJobExecutions _ _ => rfl
    | _ => exact ha.elim
  | system a =>
    refine ⟨rfl, ?_⟩
    cases a with
    | isRunning _ | killInstance _ | spawnInstance _ => exact ha.elim
    | _ => exact hprocs

theorem spawn_succeeds {config : SpawnConfig} (hended : (w.1 0).ended = []) (h : Spawns w) :
    answerAlone validCron (.system (.spawnInstance config)) w =
      (Except.ok (w.1 0).pid, fun n => w.1 (n + 1),
        { w.2 with procs := w.2.procs ++ [⟨(w.1 0).pid, config.name⟩] }) := by
  obtain ⟨hfault, hfree⟩ := h
  have hany : ¬ (w.2.procs.any fun p => p.pid == (w.1 0).pid) = true := by
    rw [Bool.not_eq_true]
    exact hfree
  have hanswer : answer validCron (w.1 0) (.system (.spawnInstance config)) w.2 =
      (Except.ok (w.1 0).pid,
        { w.2 with procs := w.2.procs ++ [⟨(w.1 0).pid, config.name⟩] }) := by
    rw [answer_system hended]
    unfold answerSystem
    simp only [hfault, if_neg hany]
  show ((answer validCron _ _ w.2).1, _, (answer validCron _ _ w.2).2) = _
  rw [hanswer]

theorem spawn_fails {config : SpawnConfig} (hended : (w.1 0).ended = []) (h : ¬ Spawns w) :
    ∃ text, answerAlone validCron (.system (.spawnInstance config)) w =
      (Except.error text, fun n => w.1 (n + 1), w.2) := by
  have hanswer : ∃ text, answer validCron (w.1 0) (.system (.spawnInstance config)) w.2 =
      (Except.error text, w.2) := by
    rw [answer_system hended]
    unfold answerSystem
    dsimp only
    cases hfault : (w.1 0).fault with
    | some text => exact ⟨text, rfl⟩
    | none =>
      have hany : (w.2.procs.any fun p => p.pid == (w.1 0).pid) = true := by
        rw [← Bool.not_eq_false]
        exact fun hfree => h ⟨hfault, hfree⟩
      dsimp only
      rw [if_pos hany]
      exact ⟨_, rfl⟩
  obtain ⟨text, hanswer⟩ := hanswer
  refine ⟨text, ?_⟩
  show ((answer validCron _ _ w.2).1, _, (answer validCron _ _ w.2).2) = _
  rw [hanswer]

/-! ## Traces -/

theorem started_append {tr₁ tr₂ : List (Prog.Event Action Reply)} {pid : Nat} :
    Started (tr₁ ++ tr₂) pid ↔ Started tr₁ pid ∨ Started tr₂ pid := by
  constructor
  · rintro ⟨config, hmem⟩
    exact (List.mem_append.mp hmem).imp (fun h => ⟨config, h⟩) fun h => ⟨config, h⟩
  · rintro (⟨config, h⟩ | ⟨config, h⟩)
    · exact ⟨config, List.mem_append_left _ h⟩
    · exact ⟨config, List.mem_append_right _ h⟩

theorem not_started (h : ∀ ev ∈ tr, ∀ config, ev.1 ≠ .system (.spawnInstance config))
    (pid : Nat) : ¬ Started tr pid := by
  rintro ⟨config, hmem⟩
  exact h _ hmem config rfl

/-- The processes a trace starts are those of its first part. -/
theorem started_snoc {P : Nat → Prop} {r : Reply a}
    (ha : ∀ config, a ≠ .system (.spawnInstance config)) (htr : ∀ pid, Started tr pid ↔ P pid)
    (pid : Nat) : Started (tr ++ [⟨a, r⟩]) pid ↔ P pid := by
  have hlast : ¬ Started [⟨a, r⟩] pid := by
    refine not_started (fun ev hev => ?_) pid
    rw [List.mem_singleton.mp hev]
    exact ha
  rw [started_append, htr]
  exact or_iff_left hlast

theorem started_spawn {config : SpawnConfig} {pid pid' : Nat} :
    Started [⟨.system (.spawnInstance config), (Except.ok pid : Except String Nat)⟩] pid' ↔
      pid' = pid := by
  constructor
  · rintro ⟨config', hmem⟩
    cases List.mem_singleton.mp hmem
    rfl
  · rintro rfl
    exact ⟨config, List.mem_singleton.mpr rfl⟩

theorem not_started_spawn {config : SpawnConfig} {text : String} {pid : Nat} :
    ¬ Started [⟨.system (.spawnInstance config), (Except.error text : Except String Nat)⟩] pid := by
  rintro ⟨config', hmem⟩
  cases List.mem_singleton.mp hmem

theorem granted_of_neutral (ha : Neutral a) (r : Reply a) : Granted a r := by
  cases a with
  | cron a => trivial
  | store a =>
    cases a with
    | getInstance _ | listInstances | saveInstance _ => exact ha.elim
    | _ => trivial
  | system a =>
    cases a with
    | isRunning _ | killInstance _ | spawnInstance _ => exact ha.elim
    | _ => trivial

/-- What is about no instance is so whatever it is answered. -/
theorem within_neutral {α : Type} {Q : α → Prop} {p : Task α} (hp : p.Within Granted Neutral Q) :
    p.Within (fun _ _ => True) Neutral Q := by
  induction p with
  | ret x => exact hp
  | act a k ih => exact ⟨hp.1, fun r _ => ih r (hp.2 r (granted_of_neutral hp.1 r))⟩

/-! ## The exact condition, step by step -/

section

variable {Ok : Action → World → Prop} {P : Nat → Prop} {α : Type}

/-- Nothing was started. -/
theorem undamaged_idle (htr : ∀ pid, ¬ Started tr pid) :
    Undamaged name d tr d₁ ↔ TrueRecord name d₁ ∧ SameScopedJobs name d d₁ := by
  constructor
  · intro h
    exact ⟨h.record, h.jobs⟩
  · rintro ⟨hrecord, hjobs⟩
    exact ⟨hrecord, fun pid hstarted => absurd hstarted (htr pid), hjobs⟩

/-- One process was started, and it is there. -/
theorem undamaged_started {pid : Nat} (htr : ∀ pid', Started tr pid' ↔ pid' = pid)
    (halive : d₁.alive pid = true) :
    Undamaged name d tr d₁ ↔
      TrueRecord name d₁ ∧ Recorded d₁ pid ∧ SameScopedJobs name d d₁ := by
  constructor
  · intro h
    exact ⟨h.record, h.recorded pid ((htr pid).mpr rfl) halive, h.jobs⟩
  · rintro ⟨hrecord, hrecorded, hjobs⟩
    refine ⟨hrecord, fun pid' hstarted _ => ?_, hjobs⟩
    rw [(htr pid').mp hstarted]
    exact hrecorded

theorem failsUndamaged_error {e : AppError} :
    FailsUndamaged name d (.error e) tr w ↔ Undamaged name d tr w.2 :=
  ⟨fun h => h rfl, fun h _ => h⟩

/-- A refusal before anything has changed. -/
theorem exact_refuse (hstate : w.2 = d) (htrue : TrueRecord name d)
    (htr : ∀ pid, ¬ Started tr pid) (e : AppError) :
    Exact (answerAlone validCron) Ok (FailsUndamaged name d) (ret (.error e)) tr w := by
  refine Exact.ret fun _ => ?_
  rw [hstate]
  exact (undamaged_idle htr).mpr ⟨htrue, fun _ _ => ⟨rfl, rfl⟩⟩

theorem exact_look {k : Reply a → Task (Result Instance)} (ha : Looks a) (hok : Ok a w)
    (htr : ∀ pid, Started tr pid ↔ P pid)
    (hcalm : Meets (answerAlone validCron) Uninterrupted (act a k) w)
    (hk : ∀ w' tr', w'.2 = w.2 → (∀ pid, Started tr' pid ↔ P pid) →
      Meets (answerAlone validCron) Uninterrupted (k (answerAlone validCron a w).1) w' →
      Exact (answerAlone validCron) Ok (FailsUndamaged name d)
        (k (answerAlone validCron a w).1) tr' w') :
    Exact (answerAlone validCron) Ok (FailsUndamaged name d) (act a k) tr w :=
  Exact.act hok (hk _ _ (look_same ha (uninterrupted_look ha hcalm.1))
    (started_snoc (not_spawn_of_looks ha) htr) hcalm.2)

/-- What is about no instance comes last. -/
theorem exact_finish {p : Task α} (hneutral : ∀ a w, Neutral a → Ok a w)
    (hp : p.Within (fun _ _ => True) Neutral fun _ => True) (i : Instance) :
    Exact (answerAlone validCron) Ok (FailsUndamaged name d) (p >>= fun _ => ret (.ok i)) tr w :=
  Exact.bind (hp.meets hneutral w) (Exact.ret fun h => by cases h)

/-! ## The new process -/

/-- The record of the new process, and the schedules. -/
def saveAndRegister (i : Instance) (name : String) (port : Nat) (path : String) :
    Task (Result Instance) :=
  orInternal (onStore (.saveInstance i)) fun _ => do
  registerSchedules name port path
  ret (.ok i)

/-- The end of both handlers. -/
def spawnAndSave (config : SpawnConfig) (make : Nat → Int → Instance) (name : String) (port : Nat)
    (path : String) : Task (Result Instance) :=
  orInternal (onSystem (.spawnInstance config)) fun pid =>
    onSystem .now >>= fun now => saveAndRegister (make pid now) name port path

/-- The daemon with a new process. -/
def AppState.withProcess (d : AppState) (p : Process) : AppState :=
  { d with procs := d.procs ++ [p] }

theorem alive_withProcess {p : Process} {pid : Nat} :
    (d.withProcess p).alive pid = (d.alive pid || p.pid == pid) := by
  unfold AppState.withProcess AppState.alive
  rw [List.any_append]
  simp

/-- With the process there, the save decides. -/
theorem exact_saveAndRegister {i : Instance} {job : String} {port : Nat} {path : String}
    (hneutral : ∀ a w, Neutral a → Ok a w)
    (hsaved : (w.1 0).txn = none → Ok (.store (.saveInstance i)) w)
    (hsave : (w.1 0).txn ≠ none →
      (TrueRecord name w.2 ∧ Recorded w.2 i.pid ∧ SameScopedJobs name d w.2 ↔
        Ok (.store (.saveInstance i)) w))
    (halive : w.2.alive i.pid = true) (htr : ∀ pid, Started tr pid ↔ pid = i.pid)
    (hcalm : Meets (answerAlone validCron) Uninterrupted (saveAndRegister i job port path) w) :
    Exact (answerAlone validCron) Ok (FailsUndamaged name d) (saveAndRegister i job port path)
      tr w := by
  cases htxn : (w.1 0).txn with
  | none =>
    have hreply : (answerAlone validCron (.store (.saveInstance i)) w).1 = Except.ok () := by
      show (w.2.store.saveInstance (w.1 0).txn i).1 = _
      rw [htxn]
      rfl
    refine Exact.act (hsaved htxn) ?_
    rw [hreply]
    exact exact_finish hneutral (within_neutral (within_registerSchedules _ _ _)) _
  | some stage =>
    obtain ⟨text, hanswer⟩ : ∃ text,
        w.2.store.saveInstance (w.1 0).txn i = (Except.error text, w.2.store) := by
      rw [htxn]
      exact ⟨_, rfl⟩
    have hreply : (answerAlone validCron (.store (.saveInstance i)) w).1 = Except.error text :=
      congrArg Prod.fst hanswer
    have hafter : (answerAlone validCron (.store (.saveInstance i)) w).2.2 = w.2 := by
      show (answer validCron (w.1 0) (.store (.saveInstance i)) w.2).2 = w.2
      rw [answer_store hcalm.1]
      exact congrArg (fun r => { w.2 with store := r.2 }) hanswer
    have htxn' : (w.1 0).txn ≠ none := by
      rw [htxn]
      exact Option.some_ne_none _
    refine Exact.last (show _ = ret (.error (.internal text)) from ?_) ?_
    · rw [hreply]
      rfl
    · rw [failsUndamaged_error, hafter,
        undamaged_started (started_snoc (fun _ h => by cases h) htr) halive]
      exact hsave htxn'

/-- The failures of the process and of the save decide. -/
theorem exact_spawnAndSave {config : SpawnConfig} {make : Nat → Int → Instance} {job : String}
    {port : Nat} {path : String} (hmake : ∀ pid now, (make pid now).pid = pid)
    (hneutral : ∀ a w, Neutral a → Ok a w)
    (hspawns : ∀ w, Spawns w → Ok (.system (.spawnInstance config)) w)
    (hspawn : ∀ w, ¬ Spawns w →
      (TrueRecord name d₁ ∧ SameScopedJobs name d d₁ ↔ Ok (.system (.spawnInstance config)) w))
    (hsaved : ∀ i w, (w.1 0).txn = none → Ok (.store (.saveInstance i)) w)
    (hsave : ∀ i w owner, w.2 = d₁.withProcess ⟨i.pid, owner⟩ → (w.1 0).txn ≠ none →
      (TrueRecord name w.2 ∧ Recorded w.2 i.pid ∧ SameScopedJobs name d w.2 ↔
        Ok (.store (.saveInstance i)) w))
    (hstate : w.2 = d₁) (htr : ∀ pid, Started tr pid ↔ False)
    (hcalm : Meets (answerAlone validCron) Uninterrupted
      (spawnAndSave config make job port path) w) :
    Exact (answerAlone validCron) Ok (FailsUndamaged name d)
      (spawnAndSave config make job port path) tr w := by
  have hended : (w.1 0).ended = [] := hcalm.1
  by_cases hw : Spawns w
  · -- The process is there; the clock, then the save.
    have hreply := @spawn_succeeds validCron w config hended hw
    refine Exact.act (hspawns w hw) ?_
    have hrest := hcalm.2
    rw [hreply] at hrest ⊢
    have htr' : ∀ pid, Started (tr ++ [⟨.system (.spawnInstance config),
        (Except.ok (w.1 0).pid : Except String Nat)⟩]) pid ↔ pid = (w.1 0).pid := by
      intro pid
      rw [started_append, htr, started_spawn]
      exact or_iff_right id
    refine exact_look trivial (hneutral _ _ trivial) htr' hrest fun w' tr' hw' htr' hrest => ?_
    generalize (answerAlone validCron (.system .now) _).1 = now at hrest ⊢
    have hpid : (make (w.1 0).pid now).pid = (w.1 0).pid := hmake _ _
    have hstate' : w'.2 = d₁.withProcess ⟨(make (w.1 0).pid now).pid, config.name⟩ := by
      rw [hw', hpid, ← hstate]
      rfl
    refine exact_saveAndRegister hneutral (hsaved _ w') (hsave _ w' config.name hstate') ?_ ?_ hrest
    · rw [hstate', alive_withProcess]
      simp
    · rw [hpid]
      exact htr'
  · obtain ⟨text, hreply⟩ := @spawn_fails validCron w config hended hw
    have hidle : ∀ pid, ¬ Started (tr ++ [⟨.system (.spawnInstance config),
        (Except.error text : Except String Nat)⟩]) pid := by
      intro pid
      rw [started_append, htr]
      exact fun h => h.elim id not_started_spawn
    refine Exact.last (show _ = ret (.error (.internal text)) from ?_) ?_
    · rw [hreply]
      rfl
    · rw [failsUndamaged_error, hreply, undamaged_idle hidle, hstate]
      exact hspawn w hw

/-! ## A start -/

/-- What only looks may fail, and then nothing has changed. -/
theorem exact_orInternal_look (a : Action) (r : Reply a → Except String α)
    {k : α → Task (Result Instance)} {p : Task (Except String α)}
    (hp : p = act a fun x => ret (r x)) (ha : Looks a) (hok : ∀ w, Ok a w) (hstate : w.2 = d)
    (htrue : TrueRecord name d) (htr : ∀ pid, Started tr pid ↔ False)
    (hcalm : Meets (answerAlone validCron) Uninterrupted (orInternal p k) w)
    (hk : ∀ x w' tr', r (answerAlone validCron a w).1 = .ok x → w'.2 = d →
      (∀ pid, Started tr' pid ↔ False) →
      Meets (answerAlone validCron) Uninterrupted (k x) w' →
      Exact (answerAlone validCron) Ok (FailsUndamaged name d) (k x) tr' w') :
    Exact (answerAlone validCron) Ok (FailsUndamaged name d) (orInternal p k) tr w := by
  subst hp
  refine exact_look ha (hok w) htr hcalm fun w' tr' hw' htr' hrest => ?_
  change Exact _ _ _ (ret (r _) >>= _) tr' w'
  change Meets _ _ (ret (r _) >>= _) w' at hrest
  rw [ret_bind] at hrest ⊢
  cases hr : r (answerAlone validCron a w).1 with
  | error e => exact exact_refuse (hw'.trans hstate) htrue (fun pid => (htr' pid).mp) _
  | ok x =>
    rw [hr] at hrest
    exact hk x w' tr' hr (hw'.trans hstate) htr' hrest

theorem exact_pathOr {given : Option String} {make : String → String}
    {k : String → Task (Result Instance)} (hok : ∀ a w, Looks a → Ok a w) (hstate : w.2 = d)
    (htrue : TrueRecord name d) (htr : ∀ pid, Started tr pid ↔ False)
    (hcalm : Meets (answerAlone validCron) Uninterrupted (orInternal (pathOr given make) k) w)
    (hk : ∀ path w' tr', w'.2 = d → (∀ pid, Started tr' pid ↔ False) →
      Meets (answerAlone validCron) Uninterrupted (k path) w' →
      Exact (answerAlone validCron) Ok (FailsUndamaged name d) (k path) tr' w') :
    Exact (answerAlone validCron) Ok (FailsUndamaged name d) (orInternal (pathOr given make) k)
      tr w := by
  cases given with
  | some path => exact hk path w tr hstate htr hcalm
  | none =>
    refine exact_orInternal_look (.system .currentDir) (fun x => x.map make) ?_ trivial
      (fun w => hok _ w trivial) hstate htrue htr hcalm fun path w' tr' _ => hk path w' tr'
    refine congrArg (act _) ?_
    funext x
    cases x with
    | error e => rfl
    | ok dir => rfl

theorem isAlive_running {i : Instance} (h : i.status = .running) :
    isAlive i = onSystem (.isRunning i.pid) := if_pos h

theorem isAlive_stopped {i : Instance} (h : i.status ≠ .running) :
    isAlive i = ret (.ok false) := if_neg h

theorem runningInstance_running {i : Instance} (h : i.status = .running) :
    runningInstance (some i) = act (Action.system (.isRunning i.pid)) fun x =>
      ret (x.map fun alive => if alive then some i else none) := by
  show isAlive i >>= _ = _
  rw [isAlive_running h]
  refine congrArg (act _) ?_
  funext x
  cases x with
  | error e => rfl
  | ok alive => rfl

theorem runningInstance_stopped {i : Instance} (h : i.status ≠ .running) :
    runningInstance (some i) = ret (.ok none) := by
  show isAlive i >>= _ = _
  rw [isAlive_stopped h]
  rfl

/-- A start that has found no process of the instance. -/
def startFresh (req : StartInstanceRequest) : Task (Result Instance) :=
  orInternal (pathOr req.config fun dir => join dir "mik.toml") fun configPath =>
  onSystem (.fileExists configPath) >>= fun
    | false => ret (.error (.badRequest ("Config file not found: " ++ configPath)))
    | true =>
      orInternal (pathOr req.workingDir fun dir => dir) fun _ =>
      spawnAndSave { name := req.name, port := req.port.getD 3000, configPath }
        (fun pid now => {
          name := req.name
          port := req.port.getD 3000
          pid
          status := .running
          config := configPath
          startedAt := now
          modules := []
          autoRestart := req.autoRestart
          restartCount := 0
          lastRestartAt := none })
        req.name (req.port.getD 3000) configPath

/-- Only a save can fail a start with harm. -/
theorem startHolds_of_not_save (h : ∀ i, a ≠ .store (.saveInstance i)) (w : World) :
    StartHolds a w := by
  unfold StartHolds
  split
  · next i => exact absurd rfl (h i)
  · trivial

theorem startHolds_look (a : Action) (w : World) (ha : Looks a) : StartHolds a w := by
  refine startHolds_of_not_save (fun i heq => ?_) w
  rw [heq] at ha
  exact ha

theorem startHolds_neutral (a : Action) (w : World) (ha : Neutral a) : StartHolds a w := by
  refine startHolds_of_not_save (fun i heq => ?_) w
  rw [heq] at ha
  exact ha

/-- A new process makes no record wrong. -/
theorem trueRecord_withProcess {p : Process} (h : TrueRecord name d) :
    TrueRecord name (d.withProcess p) := by
  intro i hi hrunning
  rw [alive_withProcess, h i hi hrunning]
  rfl

theorem exact_startFresh {req : StartInstanceRequest} (hstate : w.2 = d)
    (htrue : TrueRecord req.name d) (htr : ∀ pid, Started tr pid ↔ False)
    (hcalm : Meets (answerAlone validCron) Uninterrupted (startFresh req) w) :
    Exact (answerAlone validCron) StartHolds (FailsUndamaged req.name d) (startFresh req) tr w := by
  refine exact_pathOr startHolds_look hstate htrue htr hcalm fun configPath w₁ tr₁ hw₁ htr₁ h₁ => ?_
  refine exact_look trivial trivial htr₁ h₁ fun w₂ tr₂ hw₂ htr₂ h₂ => ?_
  generalize (answerAlone validCron (.system (.fileExists configPath)) w₁).1 = present at h₂ ⊢
  have hw₂ := hw₂.trans hw₁
  cases present with
  | false => exact exact_refuse hw₂ htrue (fun pid => (htr₂ pid).mp) _
  | true =>
    refine exact_pathOr startHolds_look hw₂ htrue htr₂ h₂ fun _ w₃ tr₃ hw₃ htr₃ h₃ => ?_
    refine exact_spawnAndSave (fun _ _ => rfl) startHolds_neutral (fun _ _ => trivial) ?_
      (fun _ _ => Or.inl) ?_ hw₃ htr₃ h₃
    · exact fun _ _ => iff_of_true ⟨htrue, fun _ _ => ⟨rfl, rfl⟩⟩ trivial
    · intro i w owner hw htxn
      constructor
      · exact fun h => Or.inr h.2.1
      · intro h
        have hrecorded := h.resolve_left htxn
        refine ⟨?_, hrecorded, ?_⟩
        · rw [hw]
          exact trueRecord_withProcess htrue
        · rw [hw]
          exact fun _ _ => ⟨rfl, rfl⟩

theorem exact_startInstance {req : StartInstanceRequest} (htrue : TrueRecord req.name w.2)
    (hcalm : Meets (answerAlone validCron) Uninterrupted (startInstance req) w) :
    Exact (answerAlone validCron) StartHolds (FailsUndamaged req.name w.2) (startInstance req)
      [] w := by
  have htr : ∀ pid, Started [] pid ↔ False := by
    intro pid
    exact iff_false_intro (not_started (fun _ h => absurd h List.not_mem_nil) pid)
  unfold startInstance at hcalm ⊢
  cases hvalid : validateInstanceName req.name with
  | error e => exact exact_refuse rfl htrue (fun pid => (htr pid).mp) _
  | ok _ =>
    rw [hvalid] at hcalm
    refine exact_orInternal_look (.store (.getInstance req.name)) (fun x => x) rfl trivial
      (fun _ => trivial) rfl htrue htr hcalm fun existing w₁ tr₁ _ hw₁ htr₁ h₁ => ?_
    cases existing with
    | none => exact exact_startFresh hw₁ htrue htr₁ h₁
    | some i =>
      by_cases hrunning : i.status = .running
      · refine exact_orInternal_look (.system (.isRunning i.pid))
          (fun x => x.map fun alive => if alive then some i else none) ?_ trivial
          (fun _ => trivial) hw₁ htrue htr₁ h₁ fun found w₂ tr₂ _ hw₂ htr₂ h₂ => ?_
        · exact runningInstance_running hrunning
        · cases found with
          | some i => exact exact_refuse hw₂ htrue (fun pid => (htr₂ pid).mp) _
          | none => exact exact_startFresh hw₂ htrue htr₂ h₂
      · rw [runningInstance_stopped hrunning] at h₁ ⊢
        exact exact_startFresh hw₁ htrue htr₁ h₁

/-! ## A restart -/

/-- What is about no instance leaves the records and the processes alone. -/
theorem run_neutral {Q : α → Prop} {p : Task α} (hp : p.Within (fun _ _ => True) Neutral Q)
    (hcalm : Meets (answerAlone validCron) Uninterrupted p w) :
    (runOn (answerAlone validCron) p w).2.2.store.instances = w.2.store.instances ∧
      (runOn (answerAlone validCron) p w).2.2.procs = w.2.procs := by
  induction p generalizing w with
  | ret x => exact ⟨rfl, rfl⟩
  | act a k ih =>
    obtain ⟨hinstances, hprocs⟩ := ih _ (hp.2 _ trivial) hcalm.2
    obtain ⟨hfirst, hfirst'⟩ := @neutral_same validCron w a hp.1
      (uninterrupted_neutral hp.1 hcalm.1)
    exact ⟨hinstances.trans hfirst, hprocs.trans hfirst'⟩

theorem not_started_neutral {Q : α → Prop} {p : Task α}
    (hp : p.Within (fun _ _ => True) Neutral Q) (pid : Nat) :
    ¬ Started (traceOn (answerAlone validCron) p w) pid :=
  not_started (fun ev hev => not_spawn_of_neutral (hp.of_traceOn ev hev)) pid

/-- The jobs that are removed are gone from the scheduler, the others stay. -/
theorem lookup_removeJobs (jobs : List String) (job : String) :
    (runOn (answerAlone validCron) (removeJobs jobs) w).2.2.cron.jobs.lookup job =
      if job ∈ jobs then none else w.2.cron.jobs.lookup job := by
  induction jobs generalizing w with
  | nil => simp [removeJobs]
  | cons first rest ih =>
    have hrest : ∀ w' : World,
        w'.2.cron.jobs.lookup job = (if job = first then none else w.2.cron.jobs.lookup job) →
        (runOn (answerAlone validCron) (removeJobs rest) w').2.2.cron.jobs.lookup job =
          if job ∈ first :: rest then none else w.2.cron.jobs.lookup job := by
      intro w' hw'
      rw [ih, hw']
      by_cases hfirst : job = first
      · simp [hfirst]
      · simp [hfirst]
    have hremoved : (answerAlone validCron (.cron (.removeJob first)) w).2.2.cron.jobs.lookup job =
        if job = first then none else w.2.cron.jobs.lookup job :=
      CronScheduler.removeJob_jobs_lookup job
    unfold removeJobs onCron
    rw [act_bind, runOn_act]
    cases (answerAlone validCron (.cron (.removeJob first)) w).1 with
    | error e => exact hrest _ hremoved
    | ok _ => exact hrest _ hremoved

theorem lookup_of_mem_listJobs {c : CronScheduler} {job : String} (h : job ∈ c.listJobs) :
    c.jobs.lookup job ≠ none := by
  obtain ⟨state, hstate, rfl⟩ := List.mem_map.mp h
  rw [Records.mem_values_iff_lookup.mp hstate]
  exact Option.some_ne_none _

/-- A restart keeps the jobs of the instance until it adds the new ones only if it has none. -/
theorem sameScopedJobs_removed_iff (hcron : w.2.cron = d.cron)
    (hjobs : w.2.store.cronJobs = d.store.cronJobs)
    (hcalm : Meets (answerAlone validCron) Uninterrupted (removeScopedJobs name) w) :
    SameScopedJobs name d (runOn (answerAlone validCron) (removeScopedJobs name) w).2.2 ↔
      NoScopedJobs name d := by
  constructor
  · intro hsame job hjob
    rw [← Bool.not_eq_true]
    intro hscoped
    refine lookup_of_mem_listJobs hjob ?_
    rw [← (hsame job hscoped).1]
    refine (lookup_removeJobs _ job).trans (if_pos ?_)
    rw [List.mem_filter]
    refine ⟨?_, hscoped⟩
    show job ∈ w.2.cron.listJobs
    rw [hcron]
    exact hjob
  · intro hnone job _
    have hfilter : w.2.cron.listJobs.filter (startsWith (name ++ ":")) = [] := by
      rw [List.filter_eq_nil_iff, hcron]
      intro job hjob
      rw [hnone job hjob]
      exact Bool.false_ne_true
    have hrun : (runOn (answerAlone validCron) (removeScopedJobs name) w).2.2 =
        w.2.reap (w.1 0).ended := by
      show (runOn (answerAlone validCron) (removeJobs (w.2.cron.listJobs.filter _)) _).2.2 = _
      rw [hfilter]
      rfl
    have hended : (w.1 0).ended = [] := hcalm.1
    rw [hrun, hended, reap_nil, hcron, hjobs]
    exact ⟨rfl, rfl⟩

/-- A restart that has ended the process. -/
def restartDown (name : String) (i : Instance) : Task (Result Instance) :=
  removeScopedJobs name >>= fun _ =>
  spawnAndSave { name := i.name, port := i.port, configPath := i.config }
    (fun pid now => { i with pid, status := .running, startedAt := now }) name i.port i.config

/-- The record of the instance is true exactly when its process is there if it says Running. -/
theorem trueRecord_iff {i : Instance} (hi : d.store.instances.lookup name = some i)
    (hinstances : d₁.store.instances = d.store.instances) :
    TrueRecord name d₁ ↔ (i.status = .running → d₁.alive i.pid = true) := by
  unfold TrueRecord
  rw [hinstances, hi]
  constructor
  · exact fun h => h i rfl
  · intro h i' hi'
    cases hi'
    exact h

theorem restartStepHolds_neutral (a : Action) (w : World) (ha : Neutral a) :
    RestartStepHolds name d a w := by
  cases a with
  | cron a => trivial
  | store a =>
    cases a with
    | saveInstance i => exact ha.elim
    | _ => trivial
  | system a =>
    cases a with
    | killInstance pid | spawnInstance config => exact ha.elim
    | _ => trivial

theorem exact_restartDown {i : Instance} (hi : d.store.instances.lookup name = some i)
    (hinstances : w.2.store.instances = d.store.instances) (hcron : w.2.cron = d.cron)
    (hjobs : w.2.store.cronJobs = d.store.cronJobs)
    (hdown : i.status = .running → w.2.alive i.pid = false)
    (htr : ∀ pid, Started tr pid ↔ False)
    (hcalm : Meets (answerAlone validCron) Uninterrupted (restartDown name i) w) :
    Exact (answerAlone validCron) (RestartStepHolds name d) (FailsUndamaged name d)
      (restartDown name i) tr w := by
  obtain ⟨hremove, hrest⟩ := meets_bind.mp hcalm
  have hwithin := within_neutral (within_removeScopedJobs name)
  have hneutral := @restartStepHolds_neutral name d
  refine Exact.bind (hwithin.meets hneutral w) ?_
  obtain ⟨hinstances', hprocs'⟩ := run_neutral hwithin hremove
  have hscoped := sameScopedJobs_removed_iff hcron hjobs hremove
  generalize hafter : runOn (answerAlone validCron) (removeScopedJobs name) w = r at *
  have hrecord := hinstances'.trans hinstances
  have hgone : i.status = .running → r.2.2.alive i.pid = false := by
    intro hrunning
    unfold AppState.alive
    rw [hprocs']
    exact hdown hrunning
  refine exact_spawnAndSave (fun _ _ => rfl) hneutral (fun _ => Or.inl) ?_ (fun _ _ => Or.inl) ?_
    rfl ?_ hrest
  · intro w' hw'
    rw [trueRecord_iff hi hrecord, hscoped]
    constructor
    · rintro ⟨htrue, hnone⟩
      refine Or.inr ⟨fun i' hi' hrunning => ?_, hnone⟩
      obtain rfl : i = i' := Option.some.inj (hi.symm.trans hi')
      exact Bool.false_ne_true ((hgone hrunning).symm.trans (htrue hrunning))
    · intro h
      obtain ⟨hstopped, hnone⟩ := h.resolve_left hw'
      exact ⟨fun hrunning => absurd hrunning (hstopped i hi), hnone⟩
  · intro i' w' owner hw' htxn
    have hjobs' : SameScopedJobs name d w'.2 ↔ NoScopedJobs name d := by
      rw [hw']
      exact hscoped
    have halive : ∀ hrunning : i.status = .running,
        (w'.2.alive i.pid = true ↔ i.pid = i'.pid) := by
      intro hrunning
      rw [hw', alive_withProcess, hgone hrunning, Bool.false_or, beq_iff_eq]
      exact eq_comm
    rw [trueRecord_iff hi (by rw [hw']; exact hrecord), hjobs']
    constructor
    · rintro ⟨htrue, hrecorded, hnone⟩
      refine Or.inr ⟨fun i'' hi'' hrunning => ?_, hrecorded, hnone⟩
      obtain rfl : i = i'' := Option.some.inj (hi.symm.trans hi'')
      exact (halive hrunning).mp (htrue hrunning)
    · intro h
      obtain ⟨hsame, hrecorded, hnone⟩ := h.resolve_left htxn
      exact ⟨fun hrunning => (halive hrunning).mpr (hsame i hi hrunning), hrecorded, hnone⟩
  · intro pid
    rw [started_append, htr]
    exact or_iff_right id |>.trans (iff_false_intro (not_started_neutral hwithin pid))

theorem alive_reap_of_mem (d : AppState) {ended : List Nat} {pid : Nat} (h : pid ∈ ended) :
    (d.reap ended).alive pid = false := by
  refine List.any_eq_false.mpr fun p hp heq => ?_
  have hout := of_decide_eq_true (List.mem_filter.mp hp).2
  rw [beq_iff_eq.mp heq] at hout
  exact hout h

/-- A kill fails when the process has ended. -/
theorem kill_missing {e : Outside} {pid : Nat} (h : (d.reap e.ended).alive pid = false) :
    ∃ text, answer validCron e (.system (.killInstance pid)) d =
      (Except.error text, d.reap e.ended) := by
  have hany : ¬ ((d.reap e.ended).procs.any fun p => p.pid == pid) = true := by
    rw [Bool.not_eq_true]
    exact h
  unfold answer answerSystem
  dsimp only
  cases e.fault with
  | some text => exact ⟨text, rfl⟩
  | none =>
    simp only [if_neg hany]
    exact ⟨_, rfl⟩

/-- A kill of a process that is there ends it, or changes nothing. -/
theorem kill_present {pid : Nat} (hended : (w.1 0).ended = []) (h : w.2.alive pid = true) :
    (∃ text, answerAlone validCron (.system (.killInstance pid)) w =
      (Except.error text, fun n => w.1 (n + 1), w.2)) ∨
    answerAlone validCron (.system (.killInstance pid)) w =
      (Except.ok (), fun n => w.1 (n + 1),
        { w.2 with procs := w.2.procs.filter fun p => p.pid ≠ pid }) := by
  have hany : (w.2.procs.any fun p => p.pid == pid) = true := h
  have hpair : ∀ r : Except String Unit × AppState,
      answer validCron (w.1 0) (.system (.killInstance pid)) w.2 = r →
      answerAlone validCron (.system (.killInstance pid)) w =
        (r.1, fun n => w.1 (n + 1), r.2) := by
    rintro r rfl
    rfl
  rw [answer_system hended] at hpair
  unfold answerSystem at hpair
  dsimp only at hpair
  cases hfault : (w.1 0).fault with
  | some text =>
    rw [hfault] at hpair
    exact Or.inl ⟨text, hpair _ rfl⟩
  | none =>
    rw [hfault] at hpair
    simp only [if_pos hany] at hpair
    exact Or.inr (hpair _ rfl)

/-- The kill of a process that is there. -/
theorem exact_kill {i : Instance} (hi : w.2.store.instances.lookup name = some i)
    (htrue : TrueRecord name w.2) (hrunning : i.status = .running)
    (htr : ∀ pid, Started tr pid ↔ False)
    (hcalm : Meets (answerAlone validCron) Uninterrupted
      (orInternal (onSystem (.killInstance i.pid)) fun _ => restartDown name i) w) :
    Exact (answerAlone validCron) (RestartStepHolds name w.2) (FailsUndamaged name w.2)
      (orInternal (onSystem (.killInstance i.pid)) fun _ => restartDown name i) tr w := by
  have halive : w.2.alive i.pid = true := htrue i hi hrunning
  have htr' : ∀ r : Except String Unit, ∀ pid,
      Started (tr ++ [⟨.system (.killInstance i.pid), r⟩]) pid ↔ False :=
    fun r => started_snoc (fun _ h => by cases h) htr
  by_cases hended : i.pid ∈ (w.1 0).ended
  · -- The process has ended, and the kill has failed: the record is wrong.
    have hgone := alive_reap_of_mem w.2 hended
    obtain ⟨text, hanswer⟩ := @kill_missing validCron w.2 _ _ hgone
    have hreply : (answerAlone validCron (.system (.killInstance i.pid)) w).1 =
        Except.error text := congrArg Prod.fst hanswer
    have hafter : (answerAlone validCron (.system (.killInstance i.pid)) w).2.2 =
        w.2.reap (w.1 0).ended := congrArg Prod.snd hanswer
    refine Exact.last (show _ = ret (.error (.internal text)) from ?_) ?_
    · rw [hreply]
      rfl
    · rw [failsUndamaged_error, hafter]
      refine iff_of_false (fun h => ?_) fun h => h hended
      exact Bool.false_ne_true (hgone.symm.trans (h.record i hi hrunning))
  · have hnil : (w.1 0).ended = [] :=
      List.eq_nil_iff_forall_not_mem.mpr fun pid hpid => hended (hcalm.1 pid hpid ▸ hpid)
    have hrest := hcalm.2
    refine Exact.act hended ?_
    rcases @kill_present validCron w _ hnil halive with ⟨text, hreply⟩ | hreply
    · rw [hreply]
      show Exact _ _ _ (ret (Except.error (AppError.internal text))) _ _
      refine exact_refuse ?_ htrue (fun pid => (htr' _ pid).mp) _
      rfl
    · rw [hreply] at hrest ⊢
      refine exact_restartDown hi rfl rfl rfl (fun _ => ?_) (htr' _) hrest
      refine List.any_eq_false.mpr fun p hp heq => ?_
      exact of_decide_eq_true (List.mem_filter.mp hp).2 (beq_iff_eq.mp heq)

/-- The process of a true record that says Running is there. -/
theorem isRunning_present {pid : Nat} (hended : (w.1 0).ended = []) (h : w.2.alive pid = true) :
    (∃ text, (answerAlone validCron (.system (.isRunning pid)) w).1 = Except.error text) ∨
      (answerAlone validCron (.system (.isRunning pid)) w).1 = Except.ok true := by
  have hreply : (answerAlone validCron (.system (.isRunning pid)) w).1 =
      (answerSystem (w.1 0) (.isRunning pid) w.2.procs).1 := by
    show (answer validCron (w.1 0) (.system (.isRunning pid)) w.2).1 = _
    rw [answer_system hended]
  rw [hreply]
  unfold answerSystem
  cases (w.1 0).fault with
  | some text => exact Or.inl ⟨text, rfl⟩
  | none => exact Or.inr (congrArg Except.ok h)

theorem exact_restartInstance (htrue : TrueRecord name w.2)
    (hcalm : Meets (answerAlone validCron) Uninterrupted (restartInstance name) w) :
    Exact (answerAlone validCron) (RestartStepHolds name w.2) (FailsUndamaged name w.2)
      (restartInstance name) [] w := by
  have htr : ∀ pid, Started [] pid ↔ False := by
    intro pid
    exact iff_false_intro (not_started (fun _ h => absurd h List.not_mem_nil) pid)
  refine exact_orInternal_look (.store (.getInstance name)) (fun x => x) rfl trivial
    (fun _ => trivial) rfl htrue htr hcalm fun existing w₁ tr₁ hread hw₁ htr₁ h₁ => ?_
  cases existing with
  | none => exact exact_refuse hw₁ htrue (fun pid => (htr₁ pid).mp) _
  | some i =>
    have hi : w.2.store.instances.lookup name = some i :=
      @get_answer validCron _ _ _ _ hread
    rw [← hw₁] at hi htrue ⊢
    by_cases hrunning : i.status = .running
    · have halive : w₁.2.alive i.pid = true := htrue i hi hrunning
      change Meets _ _ (orInternal (killIfAlive i) fun _ => restartDown name i) w₁ at h₁
      change Exact _ _ _ (orInternal (killIfAlive i) fun _ => restartDown name i) tr₁ w₁
      unfold killIfAlive at h₁ ⊢
      rw [isAlive_running hrunning] at h₁ ⊢
      refine exact_look trivial trivial htr₁ h₁ fun w₂ tr₂ hw₂ htr₂ h₂ => ?_
      have hended : (w₁.1 0).ended = [] := h₁.1
      rcases @isRunning_present validCron w₁ _ hended halive with ⟨text, hreply⟩ | hreply
      · rw [hreply]
        show Exact _ _ _ (ret (Except.error (AppError.internal text))) _ _
        exact exact_refuse hw₂ htrue (fun pid => (htr₂ pid).mp) _
      · rw [hreply] at h₂ ⊢
        rw [← hw₂] at hi htrue ⊢
        exact exact_kill hi htrue hrunning htr₂ h₂
    · have hdone : killIfAlive i = ret (.ok ()) := by
        show isAlive i >>= _ = _
        rw [isAlive_stopped hrunning]
        rfl
      change Meets _ _ (orInternal (killIfAlive i) fun _ => restartDown name i) w₁ at h₁
      change Exact _ _ _ (orInternal (killIfAlive i) fun _ => restartDown name i) tr₁ w₁
      rw [hdone] at h₁ ⊢
      exact exact_restartDown hi rfl rfl rfl (fun h => absurd h hrunning) htr₁ h₁


end

end

/-! ## The operations -/

section

variable (validCron : String → Bool)

/-- The call has done no harm if it fails. -/
def HarmlessIfFailed (op : Operation) (outside : Nat → Outside) (d : AppState) : Prop :=
  FailsUndamaged op.name d (runOn (answerAlone validCron) op.program (outside, d)).1
    (traceOn (answerAlone validCron) op.program (outside, d))
    (runOn (answerAlone validCron) op.program (outside, d)).2

/-- Nothing ends by itself in a world where nothing does. -/
theorem meets_uninterrupted {α : Type} {p : Task α} {w : World} (h : ∀ n, (w.1 n).ended = []) :
    Meets (answerAlone validCron) Uninterrupted p w := by
  induction p generalizing w with
  | ret x => trivial
  | act a k ih =>
    refine ⟨?_, ih _ fun n => h (n + 1)⟩
    unfold Uninterrupted
    split
    · intro ended hended
      rw [h 0] at hended
      exact absurd hended List.not_mem_nil
    · exact h 0

/-- Exactly when its steps hold, a call that fails has done no harm. -/
theorem undamaged_iff (op : Operation) (outside : Nat → Outside) (d : AppState)
    (htrue : TrueRecord op.name d)
    (halone : Meets (answerAlone validCron) Uninterrupted op.program (outside, d)) :
    HarmlessIfFailed validCron op outside d ↔
      Meets (answerAlone validCron) (op.StepHolds d) op.program (outside, d) := by
  cases op with
  | start req => exact exact_startInstance htrue halone
  | restart name => exact exact_restartInstance htrue halone

end

/-- A daemon that has started the instance web. -/
def webStarted : AppState :=
  run (step fun _ => true) .off [.restart fun _ => .calm,
    .perform (fun _ => .calm) (.startInstance ⟨"web", none, none, none, false⟩)]

/-- The action with the number fails. -/
def failsAt (i n : Nat) : Outside :=
  { Outside.calm with fault := if n = i then some "Failed" else none }

theorem undamaged_iff_check_fails :
    (runOn (answerAlone fun _ => true) (restartInstance "web")
      (failsAt 1, webStarted)).1.isOk = false ∧
    HarmlessIfFailed (fun _ => true) (.restart "web") (failsAt 1) webStarted := by
  refine ⟨by decide, ?_⟩
  refine (undamaged_iff _ (.restart "web") (failsAt 1) webStarted (by decide)
    (meets_uninterrupted _ fun _ => rfl)).mpr ?_
  exact ⟨trivial, trivial, trivial⟩

theorem restart_leaves_false_record :
    ¬ ∀ (validCron : String → Bool) (events : List Event) (op : Operation)
        (outside : Nat → Outside),
      let d := run (step validCron) .off events
      d.serving = true → TrueRecord op.name d →
        Meets (answerAlone validCron) Uninterrupted op.program (outside, d) →
        HarmlessIfFailed validCron op outside d := by
  intro h
  have hrestart := h (fun _ => true) [.restart fun _ => .calm,
    .perform (fun _ => .calm) (.startInstance ⟨"web", none, none, none, false⟩)]
    (.restart "web") (failsAt 4) (by decide) (by decide)
    (meets_uninterrupted _ fun _ => rfl) (by decide)
  have hrecord := hrestart.record
  revert hrecord
  decide

end Mik.Daemon
