/-
  The counters of a cron job, its history in memory, and what is read of them (`src/daemon/cron/`).

  The counters are `u64` and each recording adds one to two of them. `recordIn` has this
  arithmetic: in a build with overflow checks a count that does not fit is a panic, which ends the
  task before anything is changed, in one without it wraps. `Ledger` is what has been recorded of a
  job since it was created. In every interleaving of ticks, triggers and all other activities, in
  either build, the counters, the history and the three readers agree with the ledger as long as it
  has less than 2^64 entries (`counters_agree`).
-/
import Mik.Daemon.CronHistory
import Mik.Lib.Overflow

namespace Mik.Daemon

open Mik.Lib Prog

/-! ## Recording in 64 bits -/

/-- `count += 1`, if it is counted here. -/
def addIf (o : Overflow) (counted : Bool) (count : Nat) : Option Nat :=
  if counted then o.add 64 count 1 else some count

/-- `record_execution` on the state of its job; `none` is a panic. The other two counts are no
    larger than the first, so it is this one that overflows, before anything has been changed. -/
def JobState.recordIn (o : Overflow) (state : JobState) (execution : JobExecution)
    (success : Bool) : Option JobState := do
  let executionCount ← o.add 64 state.executionCount 1
  let successCount ← addIf o success state.successCount
  let failureCount ← addIf o (!success) state.failureCount
  return { state.record execution success with executionCount, successCount, failureCount }

def CronScheduler.recordExecutionIn (o : Overflow) (c : CronScheduler) (name : String)
    (execution : JobExecution) (success : Bool) : Option CronScheduler :=
  match c.jobs.lookup name with
  | none => some c
  | some state =>
    (state.recordIn o execution success).map fun state => { c with jobs := c.jobs.put state }

/-- `answer`, in either build; `none` is a panic. -/
def answerIn (o : Overflow) (validCron : String → Bool) (e : Outside) :
    (a : Action) → AppState → Option (Reply a × AppState)
  | .cron (.recordExecution name execution success), d =>
    (d.cron.recordExecutionIn o name execution success).map fun c =>
      ((), { d.reap e.ended with cron := c })
  | a, d => some (answer validCron e a d)

/-- `interleave`, in either build. A task that panics is gone. -/
def interleaveIn (o : Overflow) (validCron : String → Bool) (w : Tasks) : Traffic → Tasks
  | .start i activity => interleave validCron w (.start i activity)
  | .advance i e =>
    match w.tasks i with
    | some (.act a k) =>
      match answerIn o validCron e a w.state with
      | some (r, d) => ⟨fun j => if j = i then some (k r) else w.tasks j, d⟩
      | none => ⟨fun j => if j = i then none else w.tasks j, w.state⟩
    | _ => interleave validCron w (.advance i e)

/-! ## The readers -/

/-- `JobInfo`. The path of the module is a text already. -/
structure JobInfo where
  name : String
  cron : String
  module : String
  method : String
  path : String
  enabled : Bool
  nextRun : Option Int
  lastExecution : Option JobExecution
  executionCount : Nat
  successCount : Nat
  failureCount : Nat

def JobState.toJobInfo (state : JobState) : JobInfo where
  name := state.config.name
  cron := state.config.cron
  module := state.config.module
  method := state.config.method
  path := state.config.path
  enabled := state.config.enabled
  nextRun := none
  lastExecution := state.history.getLast?
  executionCount := state.executionCount
  successCount := state.successCount
  failureCount := state.failureCount

namespace CronScheduler

/-- `list_jobs`, with all it gives of a job. -/
def listJobInfos (c : CronScheduler) : List JobInfo := c.jobs.values.map JobState.toJobInfo

/-- `get_job`. -/
def getJobInfo (c : CronScheduler) (name : String) : Option JobInfo :=
  (c.jobs.lookup name).map JobState.toJobInfo

def getHistory (c : CronScheduler) (name : String) (limit : Option Nat) :
    Option (List JobExecution) :=
  (c.jobs.lookup name).map fun state =>
    state.history.reverse.take (min (limit.getD 50) maxHistoryEntries)

end CronScheduler

/-! ## The ledger -/

/-- What has been recorded of a job since it was created, and whether it succeeded; `none` while
    there is no such job. -/
abbrev Ledger := Option (List (JobExecution × Bool))

/-- The ledger of `name` after an action: a job that is added starts a new one. -/
def Ledger.next (validCron : String → Bool) (name : String) (e : Outside) (ledger : Ledger) :
    Action → Ledger
  | .cron (.addJob config) =>
    if config.name = name ∧ validCron config.cron = true ∧ e.fault = none then some [] else ledger
  | .cron (.removeJob job) => if job = name then none else ledger
  | .cron (.recordExecution job execution success) =>
    if job = name then ledger.map (· ++ [(execution, success)]) else ledger
  | _ => ledger

/-- The tasks and the ledger of `name` after a move. -/
def watched (o : Overflow) (validCron : String → Bool) (name : String) (p : Tasks × Ledger)
    (t : Traffic) : Tasks × Ledger :=
  (interleaveIn o validCron p.1 t,
    match t with
    | .start _ _ => p.2
    | .advance i e =>
      match nextAction p.1 i with
      | none => p.2
      | some a => p.2.next validCron name e a)

/-- The ledger of `name` after a run from tasks whose daemon has not run the job. -/
def ledgerOf (o : Overflow) (validCron : String → Bool) (name : String) (w : Tasks)
    (ts : List Traffic) : Ledger :=
  (run (watched o validCron name) (w, (w.state.cron.jobs.lookup name).map fun _ => []) ts).2

/-- What a ledger says of the state of its job. -/
structure Counted (entries : List (JobExecution × Bool)) (state : JobState) : Prop where
  history : state.history = recent (entries.map Prod.fst)
  executions : state.executionCount = entries.length
  successes : state.successCount = entries.countP fun entry => entry.2
  failures : state.failureCount = entries.countP fun entry => !entry.2

/-- The ledger of `name` agrees with the daemon, while it has less than 2^64 entries. -/
def Agrees (name : String) (ledger : Ledger) (d : AppState) : Prop :=
  match ledger with
  | none => d.cron.jobs.lookup name = none
  | some entries => ∃ state, d.cron.jobs.lookup name = some state ∧
      (entries.length < 2 ^ 64 → Counted entries state)

/-! ## One action -/

section

variable {o : Overflow} {validCron : String → Bool} {name : String} {e : Outside}
  {entries : List (JobExecution × Bool)} {state : JobState} {ledger : Ledger} {d : AppState}

theorem Counted.new (config : ScheduleConfig) (jobId : Option Nat) :
    Counted [] (.new config jobId) := ⟨rfl, rfl, rfl, rfl⟩

/-- Every entry is a success or a failure. -/
theorem Counted.total (h : Counted entries state) :
    state.executionCount = state.successCount + state.failureCount := by
  rw [h.executions, h.successes, h.failures]
  have hsplit := List.length_eq_countP_add_countP (l := entries) fun entry => entry.2
  simpa using hsplit

theorem Counted.record (h : Counted entries state) (execution : JobExecution) (success : Bool) :
    Counted (entries ++ [(execution, success)]) (state.record execution success) := by
  refine ⟨?_, ?_, ?_, ?_⟩
  · rw [List.map_append]
    exact history_record h.history execution success
  · rw [List.length_append, ← h.executions]
    rfl
  · rw [List.countP_append, ← h.successes]
    cases success <;> rfl
  · rw [List.countP_append, ← h.failures]
    cases success <;> rfl

/-- Where the counts can be increased, recording neither panics nor wraps. -/
theorem recordIn_of_room (hexecutions : state.executionCount + 1 < 2 ^ 64)
    (hsuccesses : state.successCount + 1 < 2 ^ 64) (hfailures : state.failureCount + 1 < 2 ^ 64)
    {execution : JobExecution} {success : Bool} :
    state.recordIn o execution success = some (state.record execution success) := by
  have hadd : ∀ n, n + 1 < 2 ^ 64 → o.add 64 n 1 = some (n + 1) := fun n hn =>
    Overflow.fit_of_lt hn
  unfold JobState.recordIn addIf
  rw [hadd _ hexecutions, hadd _ hsuccesses, hadd _ hfailures]
  cases success <;> rfl

theorem recordIn_of_counted (h : Counted entries state) (hroom : entries.length + 1 < 2 ^ 64)
    (o : Overflow) (execution : JobExecution) (success : Bool) :
    state.recordIn o execution success = some (state.record execution success) := by
  have htotal := h.total
  have hcount := h.executions
  exact recordIn_of_room (by omega) (by omega) (by omega)

/-- A build that does not panic keeps the job, under its name. -/
theorem config_recordIn {state' : JobState} {execution : JobExecution} {success : Bool}
    (h : state.recordIn o execution success = some state') : state'.config = state.config := by
  obtain ⟨executionCount, -, h⟩ := Option.bind_eq_some_iff.mp h
  obtain ⟨successCount, -, h⟩ := Option.bind_eq_some_iff.mp h
  obtain ⟨failureCount, -, h⟩ := Option.bind_eq_some_iff.mp h
  rw [← Option.some.inj h]
  rfl

/-- The daemon after an action; a panic leaves it as it was. -/
def stateAfter (o : Overflow) (validCron : String → Bool) (e : Outside) (a : Action)
    (d : AppState) : AppState :=
  ((answerIn o validCron e a d).map Prod.snd).getD d

/-- A job that is found has a ledger. -/
theorem Agrees.counted (h : Agrees name ledger d)
    (hjob : d.cron.jobs.lookup name = some state) :
    ∃ entries, ledger = some entries ∧ (entries.length < 2 ^ 64 → Counted entries state) := by
  cases ledger with
  | none => cases hjob.symm.trans h
  | some entries =>
    obtain ⟨state', hstate, hcounted⟩ := h
    cases hjob.symm.trans hstate
    exact ⟨entries, rfl, hcounted⟩

/-- A job that is not found has none. -/
theorem Agrees.eq_none (h : Agrees name ledger d) (hjob : d.cron.jobs.lookup name = none) :
    ledger = none := by
  cases ledger with
  | none => rfl
  | some entries =>
    obtain ⟨state, hstate, -⟩ := h
    cases hjob.symm.trans hstate

theorem agrees_of_lookup {d' : AppState} (h : Agrees name ledger d)
    (hsame : d'.cron.jobs.lookup name = d.cron.jobs.lookup name) : Agrees name ledger d' := by
  unfold Agrees at h ⊢
  rw [hsame]
  exact h

theorem agrees_addJob (h : Agrees name ledger d) (o : Overflow) (validCron : String → Bool)
    (e : Outside) (config : ScheduleConfig) :
    Agrees name (ledger.next validCron name e (.cron (.addJob config)))
      (stateAfter o validCron e (.cron (.addJob config)) d) := by
  have hafter : (stateAfter o validCron e (.cron (.addJob config)) d).cron =
      (d.cron.addJob validCron e.fault config).2 := rfl
  show Agrees name (if config.name = name ∧ validCron config.cron = true ∧ e.fault = none then
    some [] else ledger) _
  rcases CronScheduler.addJob_cases validCron e.fault d.cron config with
    ⟨hfailed, hsame⟩ | ⟨hvalid, hfault, hadded⟩
  · have hnot : ¬ (config.name = name ∧ validCron config.cron = true ∧ e.fault = none) := by
      rintro ⟨-, hvalid, hfault⟩
      unfold CronScheduler.addJob at hfailed
      rw [if_pos hvalid, hfault] at hfailed
      cases hfailed
    rw [if_neg hnot]
    refine agrees_of_lookup h ?_
    rw [hafter, hsame]
  · have hlookup : (stateAfter o validCron e (.cron (.addJob config)) d).cron.jobs.lookup name =
        if name = config.name then some (.new config (some d.cron.scheduler.nextId))
        else d.cron.jobs.lookup name := by
      rw [hafter, hadded]
      exact Records.lookup_put _ _
    by_cases hname : config.name = name
    · rw [if_pos ⟨hname, hvalid, hfault⟩]
      refine ⟨_, hlookup.trans (if_pos hname.symm), fun _ => Counted.new _ _⟩
    · rw [if_neg fun hall => hname hall.1]
      exact agrees_of_lookup h (hlookup.trans (if_neg fun heq => hname heq.symm))

theorem agrees_removeJob (h : Agrees name ledger d) (o : Overflow) (validCron : String → Bool)
    (e : Outside) (job : String) :
    Agrees name (ledger.next validCron name e (.cron (.removeJob job)))
      (stateAfter o validCron e (.cron (.removeJob job)) d) := by
  have hlookup : (stateAfter o validCron e (.cron (.removeJob job)) d).cron.jobs.lookup name =
      if name = job then none else d.cron.jobs.lookup name :=
    CronScheduler.removeJob_jobs_lookup name
  show Agrees name (if job = name then none else ledger) _
  by_cases hjob : job = name
  · rw [if_pos hjob]
    exact hlookup.trans (if_pos hjob.symm)
  · rw [if_neg hjob]
    exact agrees_of_lookup h (hlookup.trans (if_neg fun heq => hjob heq.symm))

theorem agrees_setEnabled (h : Agrees name ledger d) (o : Overflow) (validCron : String → Bool)
    (e : Outside) (job : String) (enabled : Bool) :
    Agrees name ledger (stateAfter o validCron e (.cron (.setEnabled job enabled)) d) := by
  have hafter : (stateAfter o validCron e (.cron (.setEnabled job enabled)) d).cron =
      (d.cron.setEnabled job enabled).2 := rfl
  unfold CronScheduler.setEnabled at hafter
  cases hjob : d.cron.jobs.lookup job with
  | none =>
    rw [hjob] at hafter
    exact agrees_of_lookup h (by rw [hafter])
  | some other =>
    rw [hjob] at hafter
    have hname : other.config.name = job := CronScheduler.name_of_lookup hjob
    have hlookup :
        (stateAfter o validCron e (.cron (.setEnabled job enabled)) d).cron.jobs.lookup name =
          if name = job then some (other.withEnabled enabled) else d.cron.jobs.lookup name := by
      rw [hafter, ← hname]
      exact Records.lookup_put _ _
    by_cases hsame : name = job
    · subst hsame
      rw [if_pos rfl] at hlookup
      obtain ⟨entries, rfl, hcounted⟩ := h.counted hjob
      refine ⟨_, hlookup, fun hroom => ?_⟩
      have hbefore := hcounted hroom
      exact ⟨hbefore.history, hbefore.executions, hbefore.successes, hbefore.failures⟩
    · exact agrees_of_lookup h (hlookup.trans (if_neg hsame))

theorem agrees_recordExecution (h : Agrees name ledger d) (o : Overflow)
    (validCron : String → Bool) (e : Outside) (job : String) (execution : JobExecution)
    (success : Bool) :
    Agrees name (ledger.next validCron name e (.cron (.recordExecution job execution success)))
      (stateAfter o validCron e (.cron (.recordExecution job execution success)) d) := by
  show Agrees name (if job = name then ledger.map (· ++ [(execution, success)]) else ledger)
    (((((d.cron.recordExecutionIn o job execution success).map fun c =>
      (((), { d.reap e.ended with cron := c }) : Unit × AppState)).map Prod.snd).getD d))
  unfold CronScheduler.recordExecutionIn
  cases hjob : d.cron.jobs.lookup job with
  | none =>
    by_cases hname : job = name
    · subst hname
      rw [if_pos rfl, h.eq_none hjob]
      exact hjob
    · rw [if_neg hname]
      exact agrees_of_lookup h rfl
  | some state =>
    dsimp only
    cases hrecord : state.recordIn o execution success with
    | none =>
      -- no panic while the ledger has room
      by_cases hname : job = name
      · subst hname
        rw [if_pos rfl]
        obtain ⟨entries, rfl, hcounted⟩ := h.counted hjob
        refine ⟨state, hjob, fun hroom => ?_⟩
        rw [List.length_append, List.length_singleton] at hroom
        have hbefore := hcounted (Nat.lt_of_succ_lt hroom)
        have hfits := recordIn_of_counted hbefore hroom o execution success
        cases hrecord.symm.trans hfits
      · rw [if_neg hname]
        exact h
    | some state' =>
      have hkey : state'.name = job := by
        show state'.config.name = job
        rw [config_recordIn hrecord]
        exact CronScheduler.name_of_lookup hjob
      have hlookup : (d.cron.jobs.put state').lookup name =
          if name = job then some state' else d.cron.jobs.lookup name := by
        rw [Records.lookup_put, hkey]
      by_cases hname : job = name
      · subst hname
        rw [if_pos rfl] at hlookup ⊢
        obtain ⟨entries, rfl, hcounted⟩ := h.counted hjob
        refine ⟨state', hlookup, fun hroom => ?_⟩
        rw [List.length_append, List.length_singleton] at hroom
        have hbefore := hcounted (Nat.lt_of_succ_lt hroom)
        have hfits := recordIn_of_counted hbefore hroom o execution success
        cases hrecord.symm.trans hfits
        exact hbefore.record execution success
      · rw [if_neg hname]
        exact agrees_of_lookup h (hlookup.trans (if_neg fun heq => hname heq.symm))

/-- Every action keeps the agreement. -/
theorem agrees_next (h : Agrees name ledger d) (o : Overflow) (validCron : String → Bool)
    (e : Outside) (a : Action) :
    Agrees name (ledger.next validCron name e a) (stateAfter o validCron e a d) := by
  cases a with
  | store a => exact agrees_of_lookup h rfl
  | system a => exact agrees_of_lookup h rfl
  | cron a =>
    cases a with
    | addJob config => exact agrees_addJob h o validCron e config
    | removeJob job => exact agrees_removeJob h o validCron e job
    | setEnabled job enabled => exact agrees_setEnabled h o validCron e job enabled
    | getConfig job | listJobs | getJob job => exact agrees_of_lookup h rfl
    | recordExecution job execution success =>
      exact agrees_recordExecution h o validCron e job execution success

end

/-! ## Runs -/

section

variable {o : Overflow} {validCron : String → Bool} {name : String}

theorem interleaveIn_start {w : Tasks} {i : Nat} (hi : w.tasks i = none) (activity : Activity) :
    interleaveIn o validCron w (.start i activity) =
      ⟨fun j => if j = i then some activity.program else w.tasks j, w.state⟩ := by
  show Pool.step (answer validCron) w (.spawn i activity.program) = _
  exact Pool.step_spawn_of_none _ hi

theorem interleaveIn_ret {w : Tasks} {i : Nat} {x : Result Unit} (hi : w.tasks i = some (.ret x))
    (e : Outside) :
    interleaveIn o validCron w (.advance i e) =
      ⟨fun j => if j = i then none else w.tasks j, w.state⟩ := by
  unfold interleaveIn
  dsimp only
  rw [hi]
  exact Pool.step_advance_ret e hi

theorem interleaveIn_act {w : Tasks} {i : Nat} {a : Action} {k : Reply a → Task (Result Unit)}
    (hi : w.tasks i = some (.act a k)) {e : Outside} {r : Reply a} {d : AppState}
    (h : answerIn o validCron e a w.state = some (r, d)) :
    interleaveIn o validCron w (.advance i e) =
      ⟨fun j => if j = i then some (k r) else w.tasks j, d⟩ := by
  unfold interleaveIn
  dsimp only
  rw [hi]
  dsimp only
  rw [h]

/-- A task that panics is gone, and the daemon is as before. -/
theorem interleaveIn_panic {w : Tasks} {i : Nat} {a : Action} {k : Reply a → Task (Result Unit)}
    (hi : w.tasks i = some (.act a k)) {e : Outside}
    (h : answerIn o validCron e a w.state = none) :
    interleaveIn o validCron w (.advance i e) =
      ⟨fun j => if j = i then none else w.tasks j, w.state⟩ := by
  unfold interleaveIn
  dsimp only
  rw [hi]
  dsimp only
  rw [h]

/-- Every count can be increased once more. -/
def HasRoom (d : AppState) : Prop :=
  ∀ name state, d.cron.jobs.lookup name = some state → state.executionCount + 1 < 2 ^ 64 ∧
    state.successCount + 1 < 2 ^ 64 ∧ state.failureCount + 1 < 2 ^ 64

/-- While the counts have room, either build does what `interleave` does. -/
theorem interleaveIn_eq_interleave {w : Tasks} (h : HasRoom w.state) (t : Traffic) :
    interleaveIn o validCron w t = interleave validCron w t := by
  have hanswer : ∀ e a, answerIn o validCron e a w.state = some (answer validCron e a w.state) := by
    intro e a
    cases a with
    | store a | system a => rfl
    | cron a =>
      cases a with
      | recordExecution job execution success =>
        show (w.state.cron.recordExecutionIn o job execution success).map _ = some ((),
          { w.state.reap e.ended with
            cron := w.state.cron.recordExecution job execution success })
        unfold CronScheduler.recordExecutionIn CronScheduler.recordExecution
        cases hjob : w.state.cron.jobs.lookup job with
        | none => rfl
        | some state =>
          obtain ⟨hexecutions, hsuccesses, hfailures⟩ := h job state hjob
          dsimp only
          rw [recordIn_of_room hexecutions hsuccesses hfailures]
          rfl
      | _ => rfl
  cases t with
  | start i activity => rfl
  | advance i e =>
    cases hi : w.tasks i with
    | none =>
      unfold interleaveIn
      dsimp only
      rw [hi]
    | some p =>
      cases p with
      | ret x =>
        unfold interleaveIn
        dsimp only
        rw [hi]
      | act a k =>
        rw [interleaveIn_act hi (r := (answer validCron e a w.state).1)
          (d := (answer validCron e a w.state).2) (hanswer e a)]
        show _ = Pool.step (answer validCron) w (.advance i e)
        rw [Pool.step_advance_act _ hi]

theorem state_interleaveIn (o : Overflow) (validCron : String → Bool) (w : Tasks) (i : Nat)
    (e : Outside) :
    (interleaveIn o validCron w (.advance i e)).state =
      match nextAction w i with
      | none => w.state
      | some a => stateAfter o validCron e a w.state := by
  unfold nextAction
  cases hi : w.tasks i with
  | none =>
    unfold interleaveIn
    dsimp only
    rw [hi]
    show (Pool.step (answer validCron) w (.advance i e)).state = w.state
    rw [Pool.step_advance_of_none _ hi]
  | some p =>
    cases p with
    | ret x => rw [interleaveIn_ret hi]
    | act a k =>
      dsimp only
      unfold stateAfter
      cases hanswer : answerIn o validCron e a w.state with
      | none =>
        rw [interleaveIn_panic hi hanswer]
        rfl
      | some result =>
        rw [interleaveIn_act hi (r := result.1) (d := result.2) hanswer]
        rfl

/-- Every move keeps the agreement. -/
theorem agrees_watched (o : Overflow) (validCron : String → Bool) (p : Tasks × Ledger) (t : Traffic)
    (h : Agrees name p.2 p.1.state) :
    Agrees name (watched o validCron name p t).2 (watched o validCron name p t).1.state := by
  cases t with
  | start i activity =>
    show Agrees name p.2 (Pool.step (answer validCron) p.1 (.spawn i activity.program)).state
    cases hi : p.1.tasks i with
    | none =>
      rw [Pool.step_spawn_of_none _ hi]
      exact h
    | some q =>
      rw [Pool.step_spawn_of_some _ hi]
      exact h
  | advance i e =>
    unfold watched
    dsimp only
    rw [state_interleaveIn]
    cases nextAction p.1 i with
    | none => exact h
    | some a => exact agrees_next h o validCron e a

theorem run_watched_fst (p : Tasks × Ledger) (ts : List Traffic) :
    (run (watched o validCron name) p ts).1 = run (interleaveIn o validCron) p.1 ts := by
  induction ts generalizing p with
  | nil => rfl
  | cons t ts ih => exact ih (watched o validCron name p t)

/-- Every run from a daemon that has not run the job keeps it. -/
theorem agrees_run (o : Overflow) (validCron : String → Bool) {w : Tasks}
    (hfresh : ∀ state, w.state.cron.jobs.lookup name = some state →
      state = .new state.config state.jobId) (ts : List Traffic) :
    Agrees name (ledgerOf o validCron name w ts)
      (run (interleaveIn o validCron) w ts).state := by
  have hstart : Agrees name ((w.state.cron.jobs.lookup name).map fun _ => []) w.state := by
    cases hjob : w.state.cron.jobs.lookup name with
    | none => exact hjob
    | some state =>
      refine ⟨state, hjob, fun _ => ?_⟩
      rw [hfresh state hjob]
      exact Counted.new _ _
  have hend := run_keeps (fun p : Tasks × Ledger => Agrees name p.2 p.1.state)
    (agrees_watched o validCron) (s := (w, (w.state.cron.jobs.lookup name).map fun _ => []))
    hstart ts
  rw [run_watched_fst] at hend
  exact hend

end

/-! ## What is read -/

/-- What the counters, the history and the readers tell of a job after its executions. -/
structure JobViews (c : CronScheduler) (name : String) (executions : List JobExecution)
    (state : JobState) : Prop where
  count : state.executionCount = executions.length
  total : state.executionCount = state.successCount + state.failureCount
  length : state.history.length = min state.executionCount 100
  /-- The history is the end of all executions. -/
  newest : state.history = executions.drop (executions.length - 100)
  job : c.getJobInfo name = some state.toJobInfo
  jobs : ∀ info, info ∈ c.listJobInfos ∧ info.name = name ↔ info = state.toJobInfo
  last : state.toJobInfo.lastExecution = executions.getLast?
  limited : ∀ limit, c.getHistory name limit =
    some (executions.reverse.take (min (limit.getD 50) (min 100 state.executionCount)))

theorem length_recent (executions : List JobExecution) :
    (recent executions).length = min executions.length 100 := by
  unfold recent maxHistoryEntries
  rw [List.length_drop]
  omega

theorem getLast?_recent (executions : List JobExecution) :
    (recent executions).getLast? = executions.getLast? := by
  unfold recent maxHistoryEntries
  rw [List.getLast?_drop]
  split
  · next h =>
    have hempty : executions = [] := List.length_eq_zero_iff.mp (by omega)
    rw [hempty]
    rfl
  · rfl

/-- Newest first, the last hundred are the first hundred. -/
theorem reverse_recent (executions : List JobExecution) :
    (recent executions).reverse = executions.reverse.take 100 := by
  unfold recent maxHistoryEntries
  rw [List.reverse_drop]
  by_cases h : 100 ≤ executions.length
  · rw [Nat.sub_sub_self h]
  · have hshort : executions.reverse.length ≤ 100 := by
      rw [List.length_reverse]
      omega
    have hall : executions.reverse.length ≤ executions.length - (executions.length - 100) := by
      rw [List.length_reverse]
      omega
    rw [List.take_of_length_le hshort, List.take_of_length_le hall]

/-- The jobs that are listed under a name are the one that is found under it. -/
theorem mem_listJobInfos_iff {c : CronScheduler} {name : String} {info : JobInfo} :
    info ∈ c.listJobInfos ∧ info.name = name ↔ c.getJobInfo name = some info := by
  unfold CronScheduler.listJobInfos CronScheduler.getJobInfo
  rw [List.mem_map, Option.map_eq_some_iff]
  constructor
  · rintro ⟨⟨state, hstate, rfl⟩, rfl⟩
    exact ⟨state, Records.mem_values_iff_lookup.mp hstate, rfl⟩
  · rintro ⟨state, hstate, rfl⟩
    have hname : state.config.name = name := CronScheduler.name_of_lookup hstate
    refine ⟨⟨state, Records.mem_values_iff_lookup.mpr ?_, rfl⟩, hname⟩
    rw [show state.name = name from hname]
    exact hstate

theorem Counted.views {entries : List (JobExecution × Bool)} {state : JobState}
    (h : Counted entries state) {c : CronScheduler} {name : String}
    (hjob : c.jobs.lookup name = some state) :
    JobViews c name (entries.map Prod.fst) state := by
  have hcount : state.executionCount = (entries.map Prod.fst).length := by
    rw [List.length_map, h.executions]
  have hinfo : c.getJobInfo name = some state.toJobInfo := by
    unfold CronScheduler.getJobInfo
    rw [hjob, Option.map_some]
  refine ⟨hcount, h.total, ?_, h.history, hinfo, fun info => ?_, ?_, fun limit => ?_⟩
  · rw [h.history, length_recent, hcount]
  · rw [mem_listJobInfos_iff, hinfo, Option.some_inj]
    exact eq_comm
  · show state.history.getLast? = _
    rw [h.history, getLast?_recent]
  · unfold CronScheduler.getHistory maxHistoryEntries
    rw [hjob, Option.map_some, h.history, reverse_recent, List.take_take, hcount]
    refine congrArg some ?_
    have hlength : (entries.map Prod.fst).length = (entries.map Prod.fst).reverse.length :=
      List.length_reverse.symm
    rw [hlength, ← Nat.min_assoc, List.take_eq_take_min, Nat.min_assoc (limit.getD 50) 100 100,
      Nat.min_self]

/-! ## A tick of a disabled job -/

/-- The configuration that a tick has read is the one in its third event. -/
theorem tick_reads {name : String} {found : Option ScheduleConfig} {config : ScheduleConfig}
    {executionId : Uuid} {startedAt : Int} {tr : List (Prog.Event Action Reply)}
    (hrest : ∀ ev ∈ tr, ev.1 ≠ .cron (.getConfig name))
    (hread : (⟨.cron (.getConfig name), some config⟩ : Prog.Event Action Reply) ∈
      ⟨.system .newUuid, executionId⟩ :: ⟨.system .now, startedAt⟩ ::
        ⟨.cron (.getConfig name), found⟩ :: tr) : found = some config := by
  rcases List.mem_cons.mp hread with heq | hread
  · cases heq
  · rcases List.mem_cons.mp hread with heq | hread
    · cases heq
    · rcases List.mem_cons.mp hread with heq | hread
      · cases heq
        rfl
      · exact absurd rfl (hrest _ hread)

/-- The actions of a tick that finds its job disabled only read. -/
theorem tick_disabled {name : String} {config : ScheduleConfig}
    {tr : List (Prog.Event Action Reply)} (h : Exec (executeJobInternal name) tr ())
    (hread : (⟨.cron (.getConfig name), some config⟩ : Prog.Event Action Reply) ∈ tr)
    (hdisabled : config.enabled = false) (o : Overflow) (validCron : String → Bool) :
    ∀ ev ∈ tr, ∀ e d, stateAfter o validCron e ev.1 d = d.reap e.ended := by
  obtain ⟨executionId, tr, rfl, h1⟩ := exec_act_iff.mp h
  obtain ⟨startedAt, tr, rfl, h2⟩ := exec_act_iff.mp h1
  obtain ⟨found, tr, rfl, h3⟩ := exec_act_iff.mp h2
  have hnone : tr = [] := by
    cases found with
    | none => exact (exec_ret_iff.mp h3).1
    | some config' =>
      replace h3 : Exec (if config'.enabled then _ else ret ()) tr () := h3
      by_cases henabled : config'.enabled = true
      · rw [if_pos henabled] at h3
        obtain ⟨executed, tr, rfl, h4⟩ := exec_act_iff.mp h3
        obtain ⟨completedAt, tr, rfl, h5⟩ := exec_act_iff.mp h4
        obtain ⟨recorded, tr, rfl, h6⟩ := exec_act_iff.mp h5
        obtain ⟨rfl, -⟩ := exec_ret_iff.mp h6
        have hsame := tick_reads (by simp) hread
        cases hsame
        rw [hdisabled] at henabled
        cases henabled
      · rw [if_neg henabled] at h3
        exact (exec_ret_iff.mp h3).1
  subst hnone
  intro ev hev e d
  simp only [List.mem_cons, List.not_mem_nil, or_false] at hev
  rcases hev with rfl | rfl | rfl <;> rfl

/-! ## Past 2^64 executions -/

/-- One task run to its end with nothing else in between: the number of its moves, the last of which
    ends it, and the daemon it leaves. -/
def solo (o : Overflow) (validCron : String → Bool) (e : Outside) :
    Task (Result Unit) → AppState → Nat × AppState
  | ret _, d => (1, d)
  | act a k, d =>
    match answerIn o validCron e a d with
    | none => (1, d)
    | some (r, d) => ((solo o validCron e (k r) d).1 + 1, (solo o validCron e (k r) d).2)

theorem run_solo (o : Overflow) (validCron : String → Bool) (e : Outside)
    (p : Task (Result Unit)) {w : Tasks} {i : Nat} (hi : w.tasks i = some p) :
    (run (interleaveIn o validCron) w
      (List.replicate (solo o validCron e p w.state).1 (.advance i e))).tasks i = none ∧
    (run (interleaveIn o validCron) w
      (List.replicate (solo o validCron e p w.state).1 (.advance i e))).state =
        (solo o validCron e p w.state).2 := by
  induction p generalizing w with
  | ret x =>
    show (interleaveIn o validCron w (.advance i e)).tasks i = none ∧
      (interleaveIn o validCron w (.advance i e)).state = w.state
    rw [interleaveIn_ret hi]
    exact ⟨if_pos rfl, rfl⟩
  | act a k ih =>
    unfold solo
    cases hanswer : answerIn o validCron e a w.state with
    | none =>
      show (interleaveIn o validCron w (.advance i e)).tasks i = none ∧
        (interleaveIn o validCron w (.advance i e)).state = w.state
      rw [interleaveIn_panic hi hanswer]
      exact ⟨if_pos rfl, rfl⟩
    | some result =>
      obtain ⟨r, d⟩ := result
      dsimp only
      rw [List.replicate_succ, run_cons, interleaveIn_act hi hanswer]
      exact ih r (w := ⟨fun j => if j = i then some (k r) else w.tasks j, d⟩) (if_pos rfl)

/-- Without overflow checks every recording succeeds. -/
theorem recordIn_wraps (state : JobState) (execution : JobExecution) :
    ∃ state', state.recordIn .wraps execution true = some state' ∧
      state'.config = state.config ∧
      state'.executionCount = (state.executionCount + 1) % 2 ^ 64 ∧
      state'.history = (state.record execution true).history := by
  have hadd : ∀ n, Overflow.wraps.add 64 n 1 = some ((n + 1) % 2 ^ 64) := fun n =>
    Overflow.fit_wraps
  unfold JobState.recordIn addIf
  rw [hadd, hadd, hadd]
  exact ⟨_, rfl, rfl, rfl, rfl⟩

/-- A tick of the enabled job `daily` takes seven moves and records its execution. -/
theorem solo_tick (validCron : String → Bool) (now : Int) {d : AppState} {state : JobState}
    (hjob : d.cron.jobs.lookup "daily" = some state) (henabled : state.config.enabled = true) :
    ∃ execution state',
      (solo .wraps validCron { Outside.calm with now := now }
        (Activity.tick "daily").program d).1 = 7 ∧
      state.recordIn .wraps execution true = some state' ∧
      (solo .wraps validCron { Outside.calm with now := now }
        (Activity.tick "daily").program d).2.cron.jobs.lookup "daily" = some state' := by
  have hconfig : d.cron.getConfig "daily" = some state.config := by
    unfold CronScheduler.getConfig
    rw [hjob, Option.map_some]
  obtain ⟨state', hrecord, hsame, -⟩ := recordIn_wraps state
    (newExecution ⟨"0", by decide⟩ "daily" now now 1 (true, none) false)
  have hname : state'.name = "daily" := by
    show state'.config.name = "daily"
    rw [hsame]
    exact CronScheduler.name_of_lookup hjob
  have hrecorded : d.cron.recordExecutionIn .wraps "daily"
      (newExecution ⟨"0", by decide⟩ "daily" now now 1 (true, none) false) true =
        some { d.cron with jobs := d.cron.jobs.put state' } := by
    unfold CronScheduler.recordExecutionIn
    rw [hjob]
    dsimp only
    rw [hrecord, Option.map_some]
  have hruns : solo .wraps validCron { Outside.calm with now := now }
      (Activity.tick "daily").program d =
        (7, { d.reap [] with cron := { d.cron with jobs := d.cron.jobs.put state' } }) := by
    simp [solo, Activity.program, executeJobInternal, onSystem, onCron, answerIn, answer,
      CronScheduler.answer, answerSystem, hconfig, henabled, Outside.calm, AppState.reap, outcome,
      hrecorded]
  refine ⟨_, state', ?_, hrecord, ?_⟩
  · rw [hruns]
  · rw [hruns]
    exact (Records.lookup_put _ _).trans (if_pos hname.symm)

/-- The job `daily` ticks so many times, one after the other. -/
def ticks : Nat → List Traffic
  | 0 => []
  | n + 1 => ticks n ++ runOne (.tick "daily") 7 5

theorem length_record {state : JobState} {n : Nat} (h : state.history.length = min n 100)
    (execution : JobExecution) (success : Bool) :
    (state.record execution success).history.length = min (n + 1) 100 := by
  show ((if maxHistoryEntries ≤ state.history.length then state.history.tail else state.history) ++
    [execution]).length = _
  unfold maxHistoryEntries
  rw [List.length_append, List.length_singleton]
  split
  · rw [List.length_tail]
    omega
  · omega

/-- Without overflow checks the count is taken modulo 2^64 and the history is not. -/
theorem run_ticks (validCron : String → Bool) (n : Nat) :
    (run (interleaveIn .wraps validCron) (.idle dailyDaemon) (ticks n)).tasks 0 = none ∧
    ∃ state, (run (interleaveIn .wraps validCron) (.idle dailyDaemon)
        (ticks n)).state.cron.jobs.lookup "daily" = some state ∧
      state.config.enabled = true ∧ state.executionCount = n % 2 ^ 64 ∧
      state.history.length = min n 100 := by
  induction n with
  | zero =>
    have hjob : dailyDaemon.cron.jobs.lookup "daily" =
        some (.new (dailyJob "daily") (some 0)) := by decide
    exact ⟨rfl, _, hjob, rfl, rfl, rfl⟩
  | succ n ih =>
    obtain ⟨hidle, state, hjob, henabled, hcount, hlength⟩ := ih
    unfold ticks runOne
    rw [run_append, run_cons]
    generalize hw : run (interleaveIn .wraps validCron) (.idle dailyDaemon) (ticks n) = w
      at hidle hjob
    obtain ⟨execution, state', hseven, hrecord, hjob'⟩ :=
      solo_tick validCron 5 hjob henabled
    obtain ⟨hdone, hstate⟩ := run_solo .wraps validCron { Outside.calm with now := 5 }
      (Activity.tick "daily").program (i := 0)
      (w := ⟨fun j => if j = 0 then some (Activity.tick "daily").program else w.tasks j, w.state⟩)
      rfl
    rw [hseven] at hdone hstate
    rw [interleaveIn_start hidle]
    refine ⟨hdone, state', ?_, ?_⟩
    · rw [hstate]
      exact hjob'
    · obtain ⟨state₁, hrecord₁, hconfig, hcount₁, hhistory⟩ := recordIn_wraps state execution
      cases hrecord.symm.trans hrecord₁
      refine ⟨hconfig ▸ henabled, ?_, ?_⟩
      · rw [hcount₁, hcount, Nat.mod_add_mod]
      · rw [hhistory]
        exact length_record hlength execution true

/-! ## The law -/

/-- In every interleaving, and in either build, the counters, the history and the readers of a job
    agree with what has been recorded since it was created, while this is less than 2^64. A tick
    that finds its job disabled changes nothing. -/
theorem counters_agree (o : Overflow) (validCron : String → Bool) (name : String) (w : Tasks)
    (hfresh : ∀ state, w.state.cron.jobs.lookup name = some state →
      state = .new state.config state.jobId) (ts : List Traffic) :
    (ledgerOf o validCron name w ts = none →
      (run (interleaveIn o validCron) w ts).state.cron.getJobInfo name = none) ∧
    (∀ entries, ledgerOf o validCron name w ts = some entries → entries.length < 2 ^ 64 →
      ∃ state, (run (interleaveIn o validCron) w ts).state.cron.jobs.lookup name = some state ∧
        JobViews (run (interleaveIn o validCron) w ts).state.cron name (entries.map Prod.fst)
          state) ∧
    ∀ (tr : List (Prog.Event Action Reply)) (config : ScheduleConfig),
      Exec (executeJobInternal name) tr () →
      (⟨.cron (.getConfig name), some config⟩ : Prog.Event Action Reply) ∈ tr →
      config.enabled = false →
      ∀ ev ∈ tr, ∀ e d, stateAfter o validCron e ev.1 d = d.reap e.ended := by
  have hend := agrees_run o validCron hfresh ts
  refine ⟨fun hnone => ?_, fun entries hentries hroom => ?_, fun tr config h hread hdisabled =>
    tick_disabled h hread hdisabled o validCron⟩
  · rw [hnone] at hend
    have hjob : (run (interleaveIn o validCron) w ts).state.cron.jobs.lookup name = none := hend
    unfold CronScheduler.getJobInfo
    rw [hjob, Option.map_none]
  · rw [hentries] at hend
    obtain ⟨state, hjob, hcounted⟩ := hend
    exact ⟨state, hjob, (hcounted hroom).views hjob⟩

/-- One tick of the job `daily`, and one while it is disabled. -/
theorem counters_agree_tick :
    (∃ state, (run (interleaveIn .panics fun _ => true) (.idle dailyDaemon)
        (runOne (.tick "daily") 7 5)).state.cron.jobs.lookup "daily" = some state ∧
      state.executionCount = 1 ∧ state.history.length = 1) ∧
    stateAfter .panics (fun _ => true) Outside.calm (.cron (.getConfig "daily")) dailyDaemon =
      dailyDaemon.reap [] := by
  have hjob : dailyDaemon.cron.jobs.lookup "daily" =
      some (.new (dailyJob "daily") (some 0)) := by decide
  have hfresh : ∀ state, dailyDaemon.cron.jobs.lookup "daily" = some state →
      state = .new state.config state.jobId := by
    intro state hstate
    cases hjob.symm.trans hstate
    rfl
  obtain ⟨-, hcounts, hdisabled⟩ := counters_agree .panics (fun _ => true) "daily"
    (.idle dailyDaemon) hfresh (runOne (.tick "daily") 7 5)
  constructor
  · have hone : (ledgerOf .panics (fun _ => true) "daily" (.idle dailyDaemon)
        (runOne (.tick "daily") 7 5)).map List.length = some 1 := by decide
    obtain ⟨entries, hentries, hlength⟩ := Option.map_eq_some_iff.mp hone
    obtain ⟨state, hstate, hviews⟩ := hcounts entries hentries (by omega)
    have hcount : state.executionCount = 1 := by rw [hviews.count, List.length_map, hlength]
    refine ⟨state, hstate, hcount, ?_⟩
    rw [hviews.length, hcount]
    rfl
  · exact hdisabled
      [⟨.system .newUuid, (⟨"0", by decide⟩ : Uuid)⟩, ⟨.system .now, (5 : Int)⟩,
        ⟨.cron (.getConfig "daily"), some ((dailyJob "daily").withEnabled false)⟩]
      ((dailyJob "daily").withEnabled false) (.act (.act (.act (.ret ())))) (by simp) rfl
      ⟨.cron (.getConfig "daily"), some ((dailyJob "daily").withEnabled false)⟩ (by simp)
      Outside.calm dailyDaemon

/-- After 2^64 ticks the count is zero and the history full. -/
theorem count_wraps :
    ∃ state, (run (interleaveIn .wraps fun _ => true) (.idle dailyDaemon)
        (ticks (2 ^ 64))).state.cron.jobs.lookup "daily" = some state ∧
      state.executionCount = 0 ∧ state.history.length = 100 ∧
      state.history.length ≠ min state.executionCount 100 := by
  obtain ⟨-, state, hjob, -, hcount, hlength⟩ := run_ticks (fun _ => true) (2 ^ 64)
  rw [Nat.mod_self] at hcount
  have hfull : state.history.length = 100 := by
    rw [hlength]
    decide
  refine ⟨state, hjob, hcount, hfull, ?_⟩
  rw [hfull, hcount]
  decide

end Mik.Daemon
