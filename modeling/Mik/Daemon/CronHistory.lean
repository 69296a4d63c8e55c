/-
  The two histories of a cron job: `JobState.history` in memory, and the table that
  `GET /cron/{name}/history` reads.

  `record_execution` puts every execution into the first. Only `cron_trigger` puts it into the
  second, so a tick is missing there. For a job whose ticks do not execute, the two agree, however
  the triggers of all jobs and the ticks of other jobs interleave (`history_complete`): a trigger
  saves what it has recorded (`persisting`), and what a cleanup removes is older than a hundred
  executions that stay (`Backed`).
-/
import Mik.Daemon.Handlers
import Mik.Lib.Protocol

namespace Mik.Daemon

open Mik.Lib Prog

/-! ## What is claimed of a run -/

/-- The execution of `name` that an action records. -/
def Action.recorded (name : String) : Action → List JobExecution
  | .cron (.recordExecution job execution _) => if job = name then [execution] else []
  | _ => []

def recordedBy (name : String) (w : Tasks) : Traffic → List JobExecution
  | .start _ _ => []
  | .advance i _ =>
    match nextAction w i with
    | some a => a.recorded name
    | none => []

/-- All executions of `name` in a run, scheduled and manual, in the order they were recorded. -/
def executionsOf (validCron : String → Bool) (name : String) : Tasks → List Traffic →
    List JobExecution
  | _, [] => []
  | w, t :: ts => recordedBy name w t ++ executionsOf validCron name (interleave validCron w t) ts

/-- Ticks, triggers and requests for a history; a tick of `name` finds it disabled. -/
def StartOk (name : String) (d : AppState) : Activity → Prop
  | .cronTrigger _ => True
  | .cronHistory _ => True
  | .tick job => job = name → ∀ config ∈ d.cron.getConfig job, config.enabled = false
  | _ => False

instance (name : String) (d : AppState) (activity : Activity) :
    Decidable (StartOk name d activity) :=
  match activity with
  | .cronTrigger _ => isTrue trivial
  | .cronHistory _ => isTrue trivial
  | .tick job => inferInstanceAs
      (Decidable (job = name → ∀ config ∈ d.cron.getConfig job, config.enabled = false))
  | .cronCreate _ => isFalse id
  | .cronDelete _ => isFalse id
  | .cronUpdate _ _ => isFalse id
  | .startInstance _ => isFalse id
  | .stopInstance _ => isFalse id
  | .restartInstance _ => isFalse id
  | .healthCheck _ => isFalse id

/-- A cleanup finds only the keys of its own job. -/
def CleansOwn (d : AppState) (faults : HistoryFaults) : Action → Prop
  | .store (.cleanupJobExecutions job keep) =>
    OwnKeys d.store.history (faults, .cleanup job keep)
  | _ => True

instance (d : AppState) (faults : HistoryFaults) (a : Action) :
    Decidable (CleansOwn d faults a) :=
  match a with
  | .store (.cleanupJobExecutions job keep) =>
    inferInstanceAs (Decidable (OwnKeys d.store.history (faults, .cleanup job keep)))
  | .store (.saveCronJob _) | .store (.removeCronJob _) | .store .listCronJobs
  | .store (.saveInstance _) | .store (.getInstance _) | .store .listInstances
  | .store (.saveJobExecution _) | .store (.listJobExecutions _ _) | .cron _ | .system _ =>
    isTrue trivial

/-- The moves of the runs in question: store writes succeed, an error of an execution is none of
    the daemon's own, and a cleanup finds only the keys of its own job. -/
def HistoryOk (name : String) (w : Tasks) : Traffic → Prop
  | .start _ activity => StartOk name w.state activity
  | .advance i outside =>
    outside.history.write = none ∧ outside.executed ≠ .error "Job not found" ∧
      ∀ a ∈ nextAction w i, CleansOwn w.state outside.history a

instance (name : String) (w : Tasks) (t : Traffic) : Decidable (HistoryOk name w t) :=
  match t with
  | .start _ activity => inferInstanceAs (Decidable (StartOk name w.state activity))
  | .advance i outside => inferInstanceAs (Decidable (outside.history.write = none ∧
      outside.executed ≠ .error "Job not found" ∧
      ∀ a ∈ nextAction w i, CleansOwn w.state outside.history a))

/-- The last hundred executions, which is what memory keeps. -/
def recent (executions : List JobExecution) : List JobExecution :=
  executions.drop (executions.length - maxHistoryEntries)

/-! ## The protocol of recording and saving -/

/-- A task that has recorded an execution of `name` saves it next; else it saves executions of
    other jobs only, and cleans up to a hundred. The state is the execution to be saved. -/
abbrev persisting (name : String) : Protocol Action Reply where
  State := Option JobExecution
  allows
    | none, .cron (.getJob _) => True
    | none, .cron (.getConfig _) => True
    | none, .cron (.recordExecution job execution _) => execution.jobName = job
    | none, .store (.saveJobExecution execution) => execution.jobName ≠ name
    | none, .store (.listJobExecutions _ _) => True
    | none, .store (.cleanupJobExecutions _ keep) => keep = 100
    | none, .system .now => True
    | none, .system .newUuid => True
    | none, .system (.executeWasmModule _) => True
    | some execution, .store (.saveJobExecution execution') => execution' = execution
    | _, _ => False
  next
    | _, .cron (.recordExecution job execution _), _ => if job = name then some execution else none
    | _, _, _ => none

/-- The answers that come: the configuration of `name` is `config`. -/
def Answers (name : String) (config : ScheduleConfig) : (a : Action) → Reply a → Prop
  | .cron (.getConfig job), r => job = name → r = some config
  | .system (.executeWasmModule _), r => r.1 ≠ .error "Job not found"
  | _, _ => True

/-- Nothing is left to be saved. -/
def Settled {name : String} {α : Type} (q : (persisting name).State) (_ : α) : Prop :=
  q = (none : Option JobExecution)

section

variable {name : String} {config : ScheduleConfig}

theorem obeys_discard {α : Type} {p : Task (Result α)} {q : (persisting name).State}
    (hp : p.Obeys (persisting name) (Answers name config) Settled q) :
    (discard p).Obeys (persisting name) (Answers name config) Settled q :=
  hp.bind fun _ _ hq => hq

theorem obeys_cronHistory (job : String) :
    (cronHistory job).Obeys (persisting name) (Answers name config) Settled none := by
  refine ⟨trivial, fun r _ => ?_⟩
  cases r with
  | none => rfl
  | some state =>
    refine ⟨trivial, fun r _ => ?_⟩
    cases r with
    | error e => rfl
    | ok history => rfl

theorem obeys_tick {job : String} (hoff : job = name → config.enabled = false) :
    (executeJobInternal job).Obeys (persisting name) (Answers name config) Settled none := by
  refine ⟨trivial, fun executionId _ => ⟨trivial, fun startedAt _ => ⟨trivial, fun r hr => ?_⟩⟩⟩
  cases r with
  | none => rfl
  | some config' =>
    show Obeys (persisting name) _ Settled none (if config'.enabled then _ else _)
    by_cases henabled : config'.enabled = true
    · rw [if_pos henabled]
      have hjob : job ≠ name := by
        intro hjob
        obtain rfl := Option.some.inj (hr hjob)
        rw [hoff hjob] at henabled
        cases henabled
      refine ⟨trivial, fun executed _ => ⟨trivial, fun completedAt _ => ⟨rfl, fun _ _ => ?_⟩⟩⟩
      exact if_neg hjob
    · rw [if_neg henabled]
      rfl

theorem obeys_executeConfig (config' : Option ScheduleConfig) :
    (executeConfig config').Obeys (persisting name) (Answers name config)
      (fun q r => q = (none : Option JobExecution) ∧
        (config'.isSome = true → r.1.2 ≠ some "Job not found")) none := by
  cases config' with
  | none => exact ⟨rfl, fun h => by cases h⟩
  | some config' =>
    refine ⟨trivial, fun r hr => ⟨rfl, fun _ => ?_⟩⟩
    cases hresult : r.1 with
    | ok u => exact fun h => by cases h
    | error e =>
      intro h
      obtain rfl := Option.some.inj h
      exact hr hresult

/-- What a trigger does once it has an execution that is not one of a missing job. -/
theorem obeys_saved {job : String} {execution : JobExecution} {q : (persisting name).State}
    (hjob : execution.jobName = job)
    (hq : q = if job = name then some execution else (none : Option JobExecution)) :
    Obeys (persisting name) (Answers name config) Settled q
      (onStore (.saveJobExecution execution) >>= fun _ =>
        onStore (.cleanupJobExecutions job 100) >>= fun _ =>
          (ret (.ok execution.id) : Task (Result String))) := by
  refine ⟨?_, fun _ _ => ⟨?_, fun _ _ => rfl⟩⟩
  · by_cases heq : job = name
    · rw [hq, if_pos heq]
    · rw [hq, if_neg heq]
      exact fun h => heq (hjob.symm.trans h)
  · cases q with
    | none => rfl
    | some e => rfl

theorem obeys_executeJob (job : String) (manual : Bool) :
    (executeJob job manual).Obeys (persisting name) (Answers name config)
      (fun q execution => execution.jobName = job ∧
        q = (if job = name then some execution else (none : Option JobExecution)) ∧
        (job = name → execution.error ≠ some "Job not found")) none := by
  refine ⟨trivial, fun executionId _ => ⟨trivial, fun startedAt _ => ⟨trivial, fun r hr => ?_⟩⟩⟩
  refine (obeys_executeConfig r).bind ?_
  rintro q executed ⟨rfl, herror⟩
  refine ⟨trivial, fun completedAt _ => ⟨rfl, fun _ _ => ⟨rfl, rfl, fun hjob => ?_⟩⟩⟩
  rw [hr hjob] at herror
  exact herror rfl

/-- A trigger of `name` always goes on with the execution it has recorded. -/
theorem obeys_triggerJob (job : String) :
    (triggerJob job).Obeys (persisting name) (Answers name config)
      (fun q r => (∃ e, r = .error e ∧ q = (none : Option JobExecution)) ∨
        ∃ execution, r = .ok execution ∧ execution.jobName = job ∧
          q = if job = name then some execution else (none : Option JobExecution)) none := by
  refine (obeys_executeJob job true).bind ?_
  rintro q execution ⟨hname, hq, herror⟩
  by_cases hfound : execution.success = false ∧ execution.error = some "Job not found"
  · rw [if_pos hfound]
    refine Or.inl ⟨_, rfl, ?_⟩
    rw [hq, if_neg fun hjob => herror hjob hfound.2]
  · rw [if_neg hfound]
    exact Or.inr ⟨execution, rfl, hname, hq⟩

theorem obeys_cronTrigger (job : String) :
    (cronTrigger job).Obeys (persisting name) (Answers name config) Settled none := by
  refine ⟨trivial, fun r _ => ?_⟩
  cases r with
  | none => rfl
  | some state =>
    refine (obeys_triggerJob job).bind ?_
    rintro q r (⟨e, rfl, hq⟩ | ⟨execution, rfl, hname, hq⟩)
    · exact hq
    · exact obeys_saved hname hq

/-- The activities of these runs obey the protocol. -/
theorem obeys_program {d : AppState} {activity : Activity} (hok : StartOk name d activity)
    (hconfig : d.cron.getConfig name = some config) :
    activity.program.Obeys (persisting name) (Answers name config) Settled none := by
  cases activity with
  | cronTrigger job => exact obeys_discard (obeys_cronTrigger job)
  | cronHistory job => exact obeys_discard (obeys_cronHistory job)
  | tick job =>
    have hoff : job = name → config.enabled = false := by
      intro hjob
      refine hok hjob config ?_
      rw [hjob]
      exact hconfig
    exact (obeys_tick hoff).bind fun _ _ hq => hq
  | _ => exact absurd hok id

end

/-! ## The executions that are persisted -/

/-- The executions of a job in the table. -/
def persisted (name : String) (d : AppState) : List JobExecution :=
  ofJob name d.store.history.values

section

variable {name : String} {h : HistoryTable}

theorem nodup_ofJob (name : String) (h : HistoryTable) : (ofJob name h.values).Nodup :=
  h.nodup_values.filter _

theorem mem_ofJob_put {x y : JobExecution} :
    y ∈ ofJob name (h.put x).values ↔
      (y = x ∧ x.jobName = name) ∨ (y ∈ ofJob name h.values ∧ ¬ y.SameRun x) := by
  have hperm := HistoryTable.values_save (h := h) x
  unfold ofJob
  rw [List.mem_filter, hperm.mem_iff, List.mem_cons, List.mem_filter, List.mem_filter,
    decide_eq_true_eq, decide_eq_true_eq]
  constructor
  · rintro ⟨rfl | ⟨hy, hnot⟩, hname⟩
    · exact Or.inl ⟨rfl, hname⟩
    · exact Or.inr ⟨⟨hy, hname⟩, hnot⟩
  · rintro (⟨rfl, hname⟩ | ⟨⟨hy, hname⟩, hnot⟩)
    · exact ⟨Or.inl rfl, hname⟩
    · exact ⟨Or.inr ⟨hy, hnot⟩, hname⟩

/-- An execution of another job changes nothing. -/
theorem mem_ofJob_put_foreign {x y : JobExecution} (hx : x.jobName ≠ name) :
    y ∈ ofJob name (h.put x).values ↔ y ∈ ofJob name h.values := by
  rw [mem_ofJob_put]
  constructor
  · rintro (⟨-, hname⟩ | ⟨hy, -⟩)
    · exact absurd hname hx
    · exact hy
  · intro hy
    refine Or.inr ⟨hy, fun hsame => hx ?_⟩
    rw [← hsame.1]
    exact (HistoryTable.mem_ofJob.mp hy).2

/-- A cleanup of the job keeps the newest of its executions, one of another job all of them. -/
theorem cleanup_effect {faults : HistoryFaults} {job : String} {keep : Nat}
    (hown : OwnKeys h (faults, .cleanup job keep)) :
    (∀ y, y ∈ ofJob name (cleanupJobExecutions faults h job keep).2.values ↔
        y ∈ ofJob name h.values) ∨
      job = name ∧ ∃ kept, Newest JobExecution.startedAt (ofJob name h.values) kept keep ∧
        ∀ y, y ∈ ofJob name (cleanupJobExecutions faults h job keep).2.values ↔ y ∈ kept := by
  have hspec := HistoryTable.call_spec (faults, .cleanup job keep) hown
  unfold MeetsSpec HistoryTable.step HistoryTable.call at hspec
  dsimp only at hspec
  cases hresult : cleanupJobExecutions faults h job keep with
  | mk result h' =>
    rw [hresult] at hspec
    cases result with
    | error e =>
      have hsame : h'.values = h.values := hspec
      refine Or.inl fun y => ?_
      dsimp only
      rw [hsame]
    | ok removed =>
      obtain ⟨kept, hnewest, hperm, -⟩ := hspec
      have hmem : ∀ y, y ∈ h'.values ↔ y ∈ kept ∨ (y ∈ h.values ∧ y.jobName ≠ job) := by
        intro y
        rw [hperm.mem_iff, List.mem_append, List.mem_filter, decide_eq_true_eq]
      have hkept : ∀ y ∈ kept, y ∈ h.values ∧ y.jobName = job := fun y hy =>
        HistoryTable.mem_ofJob.mp (hnewest.subperm.subset hy)
      by_cases hjob : job = name
      · subst hjob
        refine Or.inr ⟨rfl, kept, hnewest, fun y => ?_⟩
        rw [HistoryTable.mem_ofJob, hmem]
        exact ⟨fun hy => hy.1.resolve_right fun hother => hother.2 hy.2,
          fun hy => ⟨Or.inl hy, (hkept y hy).2⟩⟩
      · refine Or.inl fun y => ?_
        rw [HistoryTable.mem_ofJob, HistoryTable.mem_ofJob, hmem]
        constructor
        · rintro ⟨hy | hy, hname⟩
          · exact absurd ((hkept y hy).2.symm.trans hname) hjob
          · exact ⟨hy.1, hname⟩
        · rintro ⟨hy, hname⟩
          exact ⟨Or.inr ⟨hy, fun heq => hjob (heq.symm.trans hname)⟩, hname⟩

theorem cleanup_subset {faults : HistoryFaults} {job : String} {keep : Nat}
    (hown : OwnKeys h (faults, .cleanup job keep)) {y : JobExecution}
    (hy : y ∈ ofJob name (cleanupJobExecutions faults h job keep).2.values) :
    y ∈ ofJob name h.values := by
  rcases cleanup_effect hown with hsame | ⟨-, kept, hnewest, hmem⟩
  · exact (hsame y).mp hy
  · exact hnewest.subperm.subset ((hmem y).mp hy)

/-- What a cleanup takes away is backed by what it leaves. -/
theorem cleanup_backed {faults : HistoryFaults} {job : String} {keep : Nat}
    (hown : OwnKeys h (faults, .cleanup job keep)) {y : JobExecution}
    (hy : y ∈ ofJob name h.values ∨
      Backed JobExecution.startedAt keep (ofJob name h.values) y) :
    y ∈ ofJob name (cleanupJobExecutions faults h job keep).2.values ∨
      Backed JobExecution.startedAt keep
        (ofJob name (cleanupJobExecutions faults h job keep).2.values) y := by
  have hnodup := nodup_ofJob name h
  rcases cleanup_effect hown with hsame | ⟨-, kept, hnewest, hmem⟩
  · rcases hy with hin | hback
    · exact Or.inl ((hsame y).mpr hin)
    · exact Or.inr (hback.mono hnodup fun z hz => (hsame z).mpr hz)
  · have hback : ∀ z, Backed JobExecution.startedAt keep kept z →
        Backed JobExecution.startedAt keep _ z := fun z hz =>
      hz.mono (hnewest.nodup hnodup) fun c hc => (hmem c).mpr hc
    rcases hy with hin | hold
    · by_cases hkept : y ∈ kept
      · exact Or.inl ((hmem y).mpr hkept)
      · exact Or.inr (hback y (hnewest.backed_of_cut hnodup hin hkept))
    · exact Or.inr (hback y (hnewest.backed_of_backed hnodup hold))

end

/-! ## The executions in memory -/

/-- Recording one more execution keeps the last hundred. -/
theorem history_record {state : JobState} {executions : List JobExecution}
    (h : state.history = recent executions) (execution : JobExecution) (success : Bool) :
    (state.record execution success).history = recent (executions ++ [execution]) := by
  have hlength : (recent executions).length = min executions.length maxHistoryEntries := by
    unfold recent
    rw [List.length_drop]
    omega
  show (if maxHistoryEntries ≤ state.history.length then state.history.tail else state.history) ++
    [execution] = _
  rw [h, hlength]
  unfold recent
  have hcap : executions.length + 1 - maxHistoryEntries ≤ executions.length := by
    unfold maxHistoryEntries
    omega
  rw [List.length_append, List.length_singleton, List.drop_append_of_le_length hcap]
  by_cases hfull : maxHistoryEntries ≤ executions.length
  · rw [if_pos (by omega), List.tail_drop]
    congr 2
    omega
  · rw [if_neg (by omega)]
    congr 2
    omega

/-- What the actions of these runs do to the job in memory. -/
def InMemory (name : String) (config : ScheduleConfig) (executions : List JobExecution)
    (d : AppState) : Prop :=
  ∃ state, d.cron.jobs.lookup name = some state ∧ state.config = config ∧
    state.history = recent executions

theorem getConfig_of_inMemory {name : String} {config : ScheduleConfig}
    {executions : List JobExecution} {d : AppState} (h : InMemory name config executions d) :
    d.cron.getConfig name = some config := by
  obtain ⟨state, hstate, hconfig, -⟩ := h
  unfold CronScheduler.getConfig
  rw [hstate, Option.map_some, hconfig]

theorem inMemory_recordExecution {validCron : String → Bool} {e : Outside} {name : String}
    {config : ScheduleConfig} {executions : List JobExecution} {d : AppState}
    (h : InMemory name config executions d) (job : String) (execution : JobExecution)
    (success : Bool) :
    InMemory name config (executions ++ if job = name then [execution] else [])
      (answer validCron e (.cron (.recordExecution job execution success)) d).2 := by
  obtain ⟨state, hstate, hconfig, hhistory⟩ := h
  show ∃ state, (d.cron.recordExecution job execution success).jobs.lookup name = some state ∧ _
  unfold CronScheduler.recordExecution
  by_cases hjob : job = name
  · subst hjob
    rw [hstate, if_pos rfl]
    refine ⟨state.record execution success, ?_, hconfig, history_record hhistory _ _⟩
    have hname : state.config.name = job := CronScheduler.name_of_lookup hstate
    exact (Records.lookup_put _ _).trans (if_pos hname.symm)
  · rw [if_neg hjob, List.append_nil]
    refine ⟨state, ?_, hconfig, hhistory⟩
    cases hother : d.cron.jobs.lookup job with
    | none => exact hstate
    | some other =>
      have hname : other.config.name = job := CronScheduler.name_of_lookup hother
      refine ((Records.lookup_put _ _).trans (if_neg fun heq => hjob ?_)).trans hstate
      exact (heq.trans hname).symm

/-! ## The invariant -/

/-- What holds of the tasks, in the states `q` of the protocol, and of the daemon after the job
    has run `executions`. -/
structure Tracked (name : String) (config : ScheduleConfig) (executions : List JobExecution)
    (w : Tasks) (q : Nat → (persisting name).State) : Prop where
  obeying : Pool.Obeying (persisting name) (Answers name config) Settled w q
  inMemory : InMemory name config executions w.state
  own : ∀ x ∈ executions, x.jobName = name
  pending : ∀ i p x, w.tasks i = some p → q i = some x → x ∈ executions
  saved : ∀ x ∈ persisted name w.state, x ∈ executions
  kept : ∀ x ∈ executions, x ∈ persisted name w.state ∨
    (∃ i p, w.tasks i = some p ∧ q i = some x) ∨
    Backed JobExecution.startedAt 100 (persisted name w.state) x

section

variable {validCron : String → Bool} {name : String} {config : ScheduleConfig}
  {executions executions' : List JobExecution} {w : Tasks} {q : Nat → (persisting name).State}

/-- What a task of the protocol does next: nothing to the job or its history, or record, save or
    clean up. -/
theorem allowed_cases (validCron : String → Bool) {s : (persisting name).State} {a : Action}
    (h : (persisting name).allows s a) :
    (s = (none : Option JobExecution) ∧
      (∀ e d, (answer validCron e a d).2.cron = d.cron ∧
        (answer validCron e a d).2.store = d.store) ∧
      (∀ r, (persisting name).next s a r = (none : Option JobExecution)) ∧
      ∀ job x success, a ≠ .cron (.recordExecution job x success)) ∨
    (∃ job x success, s = (none : Option JobExecution) ∧
      a = .cron (.recordExecution job x success) ∧ x.jobName = job) ∨
    (∃ x, a = .store (.saveJobExecution x) ∧
      ((s = (none : Option JobExecution) ∧ x.jobName ≠ name) ∨ s = some x)) ∨
    ∃ job, s = (none : Option JobExecution) ∧ a = .store (.cleanupJobExecutions job 100) := by
  cases s with
  | some x =>
    cases a with
    | store a =>
      cases a with
      | saveJobExecution y =>
        obtain rfl : y = x := h
        exact Or.inr (Or.inr (Or.inl ⟨y, rfl, Or.inr rfl⟩))
      | _ => exact absurd h id
    | _ => exact absurd h id
  | none =>
    cases a with
    | cron a =>
      cases a with
      | getJob job =>
        exact Or.inl ⟨rfl, fun _ _ => ⟨rfl, rfl⟩, fun _ => rfl, fun _ _ _ h => by cases h⟩
      | getConfig job =>
        exact Or.inl ⟨rfl, fun _ _ => ⟨rfl, rfl⟩, fun _ => rfl, fun _ _ _ h => by cases h⟩
      | recordExecution job x success => exact Or.inr (Or.inl ⟨job, x, success, rfl, rfl, h⟩)
      | _ => exact absurd h id
    | store a =>
      cases a with
      | saveJobExecution x => exact Or.inr (Or.inr (Or.inl ⟨x, rfl, Or.inl ⟨rfl, h⟩⟩))
      | listJobExecutions job limit =>
        exact Or.inl ⟨rfl, fun _ _ => ⟨rfl, rfl⟩, fun _ => rfl, fun _ _ _ h => by cases h⟩
      | cleanupJobExecutions job keep =>
        obtain rfl : keep = 100 := h
        exact Or.inr (Or.inr (Or.inr ⟨job, rfl, rfl⟩))
      | _ => exact absurd h id
    | system a =>
      cases a with
      | now => exact Or.inl ⟨rfl, fun _ _ => ⟨rfl, rfl⟩, fun _ => rfl, fun _ _ _ h => by cases h⟩
      | newUuid =>
        exact Or.inl ⟨rfl, fun _ _ => ⟨rfl, rfl⟩, fun _ => rfl, fun _ _ _ h => by cases h⟩
      | executeWasmModule c =>
        exact Or.inl ⟨rfl, fun _ _ => ⟨rfl, rfl⟩, fun _ => rfl, fun _ _ _ h => by cases h⟩
      | _ => exact absurd h id

theorem answers_answer {e : Outside} {d : AppState} (hmem : InMemory name config executions d)
    (hexecuted : e.executed ≠ .error "Job not found") (a : Action) :
    Answers name config a (answer validCron e a d).1 := by
  cases a with
  | cron a =>
    cases a with
    | getConfig job =>
      rintro rfl
      exact getConfig_of_inMemory hmem
    | _ => trivial
  | store a => trivial
  | system a =>
    cases a with
    | executeWasmModule c => exact hexecuted
    | _ => trivial

/-- A task performs an action: what has to be known of its effect. -/
theorem Tracked.act (h : Tracked name config executions w q) {i : Nat} {e : Outside} {a : Action}
    {k : Reply a → Task (Result Unit)} (hi : w.tasks i = some (.act a k))
    (hexecuted : e.executed ≠ .error "Job not found")
    (hmem : InMemory name config executions' (answer validCron e a w.state).2)
    (hown : ∀ x ∈ executions', x.jobName = name) (hsub : ∀ x ∈ executions, x ∈ executions')
    (hnew : ∀ x ∈ executions', x ∈ executions ∨
      (persisting name).next (q i) a (answer validCron e a w.state).1 = some x)
    (hpending : ∀ x, (persisting name).next (q i) a (answer validCron e a w.state).1 = some x →
      x ∈ executions')
    (hsaved : ∀ x ∈ persisted name (answer validCron e a w.state).2, x ∈ executions')
    (hkept : ∀ x ∈ executions, (x ∈ persisted name w.state ∨ q i = some x ∨
        Backed JobExecution.startedAt 100 (persisted name w.state) x) →
      x ∈ persisted name (answer validCron e a w.state).2 ∨
        Backed JobExecution.startedAt 100 (persisted name (answer validCron e a w.state).2) x) :
    ∃ q', Tracked name config executions' (Pool.step (answer validCron) w (.advance i e)) q' := by
  have hobey := h.obeying.step (answer validCron) none (.advance i e)
    (fun _ _ hm => by cases hm) fun i' e' a' k' hm _ => by
      cases hm
      exact answers_answer h.inMemory hexecuted a'
  rw [Pool.track_advance_act _ _ hi, Pool.step_advance_act _ hi] at hobey
  rw [Pool.step_advance_act _ hi]
  refine ⟨_, hobey, hmem, hown, ?_, hsaved, ?_⟩
  · intro j p x hp hx
    dsimp only at hp hx
    by_cases hj : j = i
    · rw [if_pos hj] at hx
      exact hpending x hx
    · rw [if_neg hj] at hp hx
      exact hsub x (h.pending j p x hp hx)
  · intro x hx
    dsimp only
    rcases hnew x hx with hold | hnext
    · have hhere : x ∈ persisted name w.state ∨ q i = some x ∨
          Backed JobExecution.startedAt 100 (persisted name w.state) x ∨
          ∃ j p, j ≠ i ∧ w.tasks j = some p ∧ q j = some x := by
        rcases h.kept x hold with hin | ⟨j, p, hp, hq⟩ | hback
        · exact Or.inl hin
        · by_cases hj : j = i
          · rw [hj] at hq
            exact Or.inr (Or.inl hq)
          · exact Or.inr (Or.inr (Or.inr ⟨j, p, hj, hp, hq⟩))
        · exact Or.inr (Or.inr (Or.inl hback))
      rcases hhere with hin | hq | hback | ⟨j, p, hj, hp, hq⟩
      · exact (hkept x hold (Or.inl hin)).imp_right Or.inr
      · exact (hkept x hold (Or.inr (Or.inl hq))).imp_right Or.inr
      · exact (hkept x hold (Or.inr (Or.inr hback))).imp_right Or.inr
      · refine Or.inr (Or.inl ⟨j, p, ?_, ?_⟩)
        · rw [if_neg hj]
          exact hp
        · rw [if_neg hj]
          exact hq
    · refine Or.inr (Or.inl ⟨i, _, if_pos rfl, ?_⟩)
      rw [if_pos rfl]
      exact hnext

/-- The same of a task that has nothing to save, neither before nor after. -/
theorem Tracked.act_idle (h : Tracked name config executions w q) {i : Nat} {e : Outside}
    {a : Action} {k : Reply a → Task (Result Unit)} (hi : w.tasks i = some (.act a k))
    (hexecuted : e.executed ≠ .error "Job not found") (hq : q i = (none : Option JobExecution))
    (hnext : (persisting name).next (q i) a (answer validCron e a w.state).1 =
      (none : Option JobExecution))
    (hmem : InMemory name config executions (answer validCron e a w.state).2)
    (hsaved : ∀ x ∈ persisted name (answer validCron e a w.state).2, x ∈ persisted name w.state)
    (hkept : ∀ x, (x ∈ persisted name w.state ∨
        Backed JobExecution.startedAt 100 (persisted name w.state) x) →
      x ∈ persisted name (answer validCron e a w.state).2 ∨
        Backed JobExecution.startedAt 100 (persisted name (answer validCron e a w.state).2) x) :
    ∃ q', Tracked name config executions (Pool.step (answer validCron) w (.advance i e)) q' := by
  refine h.act hi hexecuted hmem h.own (fun _ hx => hx) (fun _ hx => Or.inl hx) ?_
    (fun x hx => h.saved x (hsaved x hx)) ?_
  · intro x hx
    rw [hnext] at hx
    cases hx
  · intro x _ hx
    refine hkept x (hx.imp_right fun hx => hx.resolve_left fun hpend => ?_)
    rw [hq] at hpend
    cases hpend

theorem eq_of_id {L : List JobExecution} (hids : (L.map JobExecution.id).Nodup) {x y : JobExecution}
    (hx : x ∈ L) (hy : y ∈ L) (h : x.id = y.id) : x = y :=
  List.inj_on_of_nodup_map hids hx hy h

/-- A task records an execution, of the job or of another one. -/
theorem Tracked.record (h : Tracked name config executions w q) {i : Nat} {e : Outside}
    {job : String} {x : JobExecution} {success : Bool}
    {k : Reply (.cron (.recordExecution job x success)) → Task (Result Unit)}
    (hi : w.tasks i = some (.act (.cron (.recordExecution job x success)) k))
    (hexecuted : e.executed ≠ .error "Job not found") (hq : q i = (none : Option JobExecution))
    (hjob : x.jobName = job) :
    ∃ q', Tracked name config (executions ++ if job = name then [x] else [])
      (Pool.step (answer validCron) w (.advance i e)) q' := by
  have hnext : (persisting name).next (q i) (.cron (.recordExecution job x success))
      (answer validCron e (.cron (.recordExecution job x success)) w.state).1 =
      if job = name then some x else (none : Option JobExecution) := rfl
  have hadded : ∀ y, y ∈ executions ++ (if job = name then [x] else []) ↔
      y ∈ executions ∨ (job = name ∧ y = x) := by
    intro y
    rw [List.mem_append]
    by_cases heq : job = name
    · rw [if_pos heq, List.mem_singleton]
      simp only [heq, true_and]
    · rw [if_neg heq]
      simp only [List.not_mem_nil, heq, false_and]
  refine h.act hi hexecuted (inMemory_recordExecution h.inMemory job x success) ?_
    (fun y hy => (hadded y).mpr (Or.inl hy)) ?_ ?_
    (fun y hy => (hadded y).mpr (Or.inl (h.saved y hy))) ?_
  · intro y hy
    rcases (hadded y).mp hy with hy | ⟨heq, rfl⟩
    · exact h.own y hy
    · exact hjob.trans heq
  · intro y hy
    rcases (hadded y).mp hy with hy | ⟨heq, rfl⟩
    · exact Or.inl hy
    · rw [hnext, if_pos heq]
      exact Or.inr rfl
  · intro y hy
    rw [hnext] at hy
    by_cases heq : job = name
    · rw [if_pos heq] at hy
      exact (hadded y).mpr (Or.inr ⟨heq, (Option.some.inj hy).symm⟩)
    · rw [if_neg heq] at hy
      cases hy
  · intro y _ hy
    refine hy.imp_right fun hy => hy.resolve_left fun hpend => ?_
    rw [hq] at hpend
    cases hpend

/-- A task saves an execution: one of another job, or the one it has recorded before. -/
theorem Tracked.save (h : Tracked name config executions w q) {i : Nat} {e : Outside}
    {x : JobExecution} {k : Reply (.store (.saveJobExecution x)) → Task (Result Unit)}
    (hi : w.tasks i = some (.act (.store (.saveJobExecution x)) k))
    (hexecuted : e.executed ≠ .error "Job not found") (hwrite : e.history.write = none)
    (hids : (executions.map JobExecution.id).Nodup)
    (hcase : (q i = (none : Option JobExecution) ∧ x.jobName ≠ name) ∨ q i = some x) :
    ∃ q', Tracked name config executions (Pool.step (answer validCron) w (.advance i e)) q' := by
  have hput : persisted name (answer validCron e (.store (.saveJobExecution x)) w.state).2 =
      ofJob name (w.state.store.history.put x).values := by
    show ofJob name (saveJobExecution e.history w.state.store.history x).2.values = _
    unfold saveJobExecution
    rw [hwrite]
  rcases hcase with ⟨hq, hforeign⟩ | hq
  · refine h.act_idle hi hexecuted hq ?_ h.inMemory ?_ ?_
    · rw [hq]
    · rw [hput]
      exact fun y hy => (mem_ofJob_put_foreign hforeign).mp hy
    · rw [hput]
      exact fun y => Or.imp (mem_ofJob_put_foreign hforeign).mpr fun hback =>
        hback.mono (nodup_ofJob name _) fun z hz => (mem_ofJob_put_foreign hforeign).mpr hz
  · have hx := h.pending i _ x hi hq
    have hstays : ∀ y ∈ persisted name w.state,
        y ∈ ofJob name (w.state.store.history.put x).values := by
      intro y hy
      refine mem_ofJob_put.mpr ?_
      by_cases hsame : y.SameRun x
      · exact Or.inl ⟨eq_of_id hids (h.saved y hy) hx hsame.2.2, h.own x hx⟩
      · exact Or.inr ⟨hy, hsame⟩
    refine h.act hi hexecuted h.inMemory h.own (fun y hy => hy) (fun y hy => Or.inl hy) ?_ ?_ ?_
    · intro y hy
      rw [hq] at hy
      cases hy
    · rw [hput]
      intro y hy
      rcases mem_ofJob_put.mp hy with ⟨rfl, -⟩ | ⟨hy, -⟩
      · exact hx
      · exact h.saved y hy
    · rw [hput]
      intro y _ hy
      rcases hy with hin | hpend | hback
      · exact Or.inl (hstays y hin)
      · obtain rfl := Option.some.inj (hq.symm.trans hpend)
        exact Or.inl (mem_ofJob_put.mpr (Or.inl ⟨rfl, h.own x hx⟩))
      · exact Or.inr (hback.mono (nodup_ofJob name _) hstays)

/-- One action of a task keeps the invariant, with the execution it records. -/
theorem Tracked.advance (h : Tracked name config executions w q) {i : Nat} {e : Outside}
    {a : Action} {k : Reply a → Task (Result Unit)} (hi : w.tasks i = some (.act a k))
    (hok : HistoryOk name w (.advance i e)) (hids : (executions.map JobExecution.id).Nodup) :
    ∃ q', Tracked name config (executions ++ recordedBy name w (.advance i e))
      (Pool.step (answer validCron) w (.advance i e)) q' := by
  obtain ⟨hwrite, hexecuted, hkeys⟩ := hok
  have hnext : nextAction w i = some a := by
    unfold nextAction
    rw [hi]
  have hkeys : CleansOwn w.state e.history a := hkeys a hnext
  have hrecorded : recordedBy name w (.advance i e) = a.recorded name := by
    unfold recordedBy
    dsimp only
    rw [hnext]
  rw [hrecorded]
  rcases allowed_cases validCron (h.obeying i _ hi).1 with
    ⟨hq, hsame, hnext, hother⟩ | ⟨job, x, success, hq, rfl, hjob⟩ | ⟨x, rfl, hcase⟩ | ⟨job, hq, rfl⟩
  · have hnone : a.recorded name = [] := by
      unfold Action.recorded
      split
      · exact absurd rfl (hother _ _ _)
      · rfl
    have hstore : persisted name (answer validCron e a w.state).2 = persisted name w.state := by
      unfold persisted
      rw [(hsame e w.state).2]
    rw [hnone, List.append_nil]
    refine h.act_idle hi hexecuted hq (hnext _) ?_ ?_ ?_
    · obtain ⟨state, hstate, hrest⟩ := h.inMemory
      refine ⟨state, ?_, hrest⟩
      rw [(hsame e w.state).1]
      exact hstate
    · rw [hstore]
      exact fun x hx => hx
    · rw [hstore]
      exact fun x hx => hx
  · exact h.record hi hexecuted hq hjob
  · have hnone : Action.recorded name (.store (.saveJobExecution x)) = [] := rfl
    rw [hnone, List.append_nil]
    exact h.save hi hexecuted hwrite hids hcase
  · have hnone : Action.recorded name (.store (.cleanupJobExecutions job 100)) = [] := rfl
    rw [hnone, List.append_nil]
    refine h.act_idle hi hexecuted hq ?_ h.inMemory
      (fun y hy => cleanup_subset hkeys hy) (fun y hy => cleanup_backed hkeys hy)
    rw [hq]

/-- Tasks that only come or go keep the invariant, if none that goes had something to save. -/
theorem Tracked.of_tasks (h : Tracked name config executions w q) {w' : Tasks}
    {q' : Nat → (persisting name).State} (hstate : w'.state = w.state)
    (hobey : Pool.Obeying (persisting name) (Answers name config) Settled w' q')
    (hpending : ∀ x, (∃ i p, w'.tasks i = some p ∧ q' i = some x) ↔
      ∃ i p, w.tasks i = some p ∧ q i = some x) :
    Tracked name config executions w' q' where
  obeying := hobey
  inMemory := by
    rw [hstate]
    exact h.inMemory
  own := h.own
  pending := by
    intro i p x hp hq
    obtain ⟨i', p', hp', hq'⟩ := (hpending x).mp ⟨i, p, hp, hq⟩
    exact h.pending i' p' x hp' hq'
  saved := by
    rw [hstate]
    exact h.saved
  kept := by
    intro x hx
    rw [hstate, hpending]
    exact h.kept x hx

/-- Every move of these runs keeps the invariant. -/
theorem Tracked.step (h : Tracked name config executions w q) (validCron : String → Bool)
    (t : Traffic) (hok : HistoryOk name w t) (hids : (executions.map JobExecution.id).Nodup) :
    ∃ q', Tracked name config (executions ++ recordedBy name w t) (interleave validCron w t)
      q' := by
  cases t with
  | start i activity =>
    have hnone : recordedBy name w (.start i activity) = [] := rfl
    have hobey := h.obeying.step (answer validCron) none (.spawn i activity.program)
      (fun _ _ hm => by
        cases hm
        exact obeys_program hok (getConfig_of_inMemory h.inMemory))
      (fun _ _ _ _ hm => by cases hm)
    rw [hnone, List.append_nil]
    show ∃ q', Tracked name config executions
      (Pool.step (answer validCron) w (.spawn i activity.program)) q'
    cases hi : w.tasks i with
    | some p =>
      rw [Pool.step_spawn_of_some _ hi]
      exact ⟨q, h⟩
    | none =>
      rw [Pool.step_spawn_of_none _ hi, Pool.track_spawn_of_none _ _ hi] at hobey
      rw [Pool.step_spawn_of_none _ hi]
      refine ⟨_, h.of_tasks rfl hobey fun x => ?_⟩
      dsimp only
      constructor
      · rintro ⟨j, p, hp, hq⟩
        by_cases hj : j = i
        · rw [if_pos hj] at hq
          cases hq
        · rw [if_neg hj] at hp hq
          exact ⟨j, p, hp, hq⟩
      · rintro ⟨j, p, hp, hq⟩
        have hj : j ≠ i := by
          rintro rfl
          rw [hi] at hp
          cases hp
        refine ⟨j, p, ?_, ?_⟩
        · rw [if_neg hj]
          exact hp
        · rw [if_neg hj]
          exact hq
  | advance i e =>
    show ∃ q', Tracked name config _ (Pool.step (answer validCron) w (.advance i e)) q'
    cases hi : w.tasks i with
    | none =>
      have hnone : recordedBy name w (.advance i e) = [] := by
        unfold recordedBy nextAction
        dsimp only
        rw [hi]
      rw [hnone, List.append_nil, Pool.step_advance_of_none _ hi]
      exact ⟨q, h⟩
    | some p =>
      cases p with
      | act a k => exact h.advance hi hok hids
      | ret x =>
        have hnone : recordedBy name w (.advance i e) = [] := by
          unfold recordedBy nextAction
          dsimp only
          rw [hi]
        have hdone : q i = none := h.obeying i _ hi
        have hobey := h.obeying.step (answer validCron) none (.advance i e)
          (fun _ _ hm => by cases hm) fun i' e' a' k' hm hact => by
            cases hm
            rw [hi] at hact
            cases hact
        rw [Pool.step_advance_ret _ hi, Pool.track_advance_ret _ _ hi] at hobey
        rw [hnone, List.append_nil, Pool.step_advance_ret _ hi]
        refine ⟨_, h.of_tasks rfl hobey fun x => ?_⟩
        dsimp only
        constructor
        · rintro ⟨j, p, hp, hq⟩
          by_cases hj : j = i
          · rw [if_pos hj] at hp
            cases hp
          · rw [if_neg hj] at hp
            exact ⟨j, p, hp, hq⟩
        · rintro ⟨j, p, hp, hq⟩
          have hj : j ≠ i := by
            rintro rfl
            rw [hdone] at hq
            cases hq
          refine ⟨j, p, ?_, hq⟩
          rw [if_neg hj]
          exact hp

/-- Every run of such moves keeps it. -/
theorem Tracked.run {ts : List Traffic} (h : Tracked name config executions w q)
    (hok : Along (interleave validCron) (HistoryOk name) w ts)
    (hids : ((executions ++ executionsOf validCron name w ts).map JobExecution.id).Nodup) :
    ∃ q', Tracked name config (executions ++ executionsOf validCron name w ts)
      (Lib.run (interleave validCron) w ts) q' := by
  induction ts generalizing w q executions with
  | nil =>
    rw [executionsOf, List.append_nil]
    exact ⟨q, h⟩
  | cons t ts ih =>
    have hbefore : (executions.map JobExecution.id).Nodup := by
      rw [List.map_append] at hids
      exact (List.nodup_append'.mp hids).1
    obtain ⟨q', h'⟩ := h.step validCron t hok.1 hbefore
    rw [executionsOf, ← List.append_assoc] at hids ⊢
    exact ih h' hok.2 hids

/-- When all tasks have finished, what is not in the table is backed by what is. -/
theorem Tracked.kept_of_quiet (h : Tracked name config executions w q) (hquiet : w.Quiet) :
    ∀ x ∈ executions, x ∈ persisted name w.state ∨
      Backed JobExecution.startedAt 100 (persisted name w.state) x := by
  intro x hx
  refine (h.kept x hx).imp_right fun hrest => hrest.resolve_left ?_
  rintro ⟨i, p, hp, hq⟩
  obtain ⟨y, rfl⟩ := hquiet i p hp
  have hdone : q i = none := h.obeying i _ hp
  rw [hdone] at hq
  cases hq

end

/-! ## The history that is returned -/

/-- `GET /cron/{name}/history` returns the newest hundred of the executions in the table. -/
theorem cronHistory_newest (validCron : String → Bool) {name : String} {d : AppState}
    {state : JobState} (hjob : d.cron.jobs.lookup name = some state) {outside : Nat → Outside}
    (hread : (outside 1).history.read = none)
    (hown : OwnKeys d.store.history ((outside 1).history, .list name 100)) :
    ∃ result, (runOn (answerAlone validCron) (cronHistory name) (outside, d)).1 = .ok result ∧
      Newest JobExecution.startedAt (persisted name d) result 100 := by
  have hspec := HistoryTable.call_spec ((outside 1).history, .list name 100) hown
  unfold MeetsSpec HistoryTable.step HistoryTable.call at hspec
  dsimp only at hspec
  have hlist := HistoryTable.listJobExecutions_eq hread hown (some 100)
  rw [hlist] at hspec
  refine ⟨_, ?_, hspec.2⟩
  have hfirst : (answerAlone validCron (.cron (.getJob name)) (outside, d)).1 = some state := hjob
  unfold cronHistory onCron
  rw [act_bind, runOn_act, hfirst]
  show (runOn (answerAlone validCron) (orFail (onStore (.listJobExecutions name (some 100))) _ _)
    _).1 = _
  unfold orFail onStore
  rw [act_bind, runOn_act]
  have hsecond : (answerAlone validCron (.store (.listJobExecutions name (some 100)))
      (answerAlone validCron (.cron (.getJob name)) (outside, d)).2).1 =
      listJobExecutions (outside 1).history d.store.history name (some 100) := rfl
  rw [hsecond, hlist]
  rfl

/-- Persistent job history: from a job that has not run yet, in every interleaving of triggers,
    ticks and requests whose ticks of the job find it disabled, when all have finished, the
    history that is returned is the newest hundred of all executions of the job. Memory has the
    last hundred, which are the same if there are no more, or if they finished in the order in
    which they began. -/
theorem history_complete (validCron : String → Bool) (name : String) (d : AppState)
    (state : JobState) (hjob : d.cron.jobs.lookup name = some state) (hnew : state.history = [])
    (hempty : persisted name d = []) (ts : List Traffic)
    (hok : Along (interleave validCron) (HistoryOk name) (.idle d) ts)
    (huuid : ((executionsOf validCron name (.idle d) ts).map JobExecution.id).Nodup)
    (hquiet : (run (interleave validCron) (.idle d) ts).Quiet) (outside : Nat → Outside)
    (hread : (outside 1).history.read = none)
    (hown : OwnKeys (run (interleave validCron) (.idle d) ts).state.store.history
      ((outside 1).history, .list name 100)) :
    ∃ result state', (runOn (answerAlone validCron) (cronHistory name)
        (outside, (run (interleave validCron) (.idle d) ts).state)).1 = .ok result ∧
      Newest JobExecution.startedAt (executionsOf validCron name (.idle d) ts) result 100 ∧
      (run (interleave validCron) (.idle d) ts).state.cron.jobs.lookup name = some state' ∧
      state'.history = recent (executionsOf validCron name (.idle d) ts) ∧
      (((executionsOf validCron name (.idle d) ts).length ≤ 100 ∨
          (executionsOf validCron name (.idle d) ts).Pairwise
            fun x y => x.startedAt < y.startedAt) →
        ∀ x, x ∈ result ↔ x ∈ state'.history) := by
  have hstart : Tracked name state.config [] (.idle d) fun _ => (none : Option JobExecution) := by
    refine ⟨?_, ⟨state, hjob, rfl, hnew⟩, fun x hx => absurd hx List.not_mem_nil, ?_, ?_,
      fun x hx => absurd hx List.not_mem_nil⟩
    · intro i p hp
      cases hp
    · intro i p x hp
      cases hp
    · show ∀ x ∈ persisted name d, x ∈ []
      rw [hempty]
      exact fun x hx => hx
  obtain ⟨q, hend⟩ := hstart.run hok huuid
  rw [List.nil_append] at hend
  obtain ⟨state', hjob', -, hhistory⟩ := hend.inMemory
  obtain ⟨result, hresult, hnewest⟩ := cronHistory_newest validCron hjob' hread hown
  have hall : (executionsOf validCron name (.idle d) ts).Nodup := huuid.of_map
  have htotal := hnewest.of_kept (nodup_ofJob name _) hall hend.saved (hend.kept_of_quiet hquiet)
  refine ⟨result, state', hresult, htotal, hjob', hhistory, fun hcase x => ?_⟩
  rw [hhistory]
  rcases hcase with hfew | horder
  · have hlength := htotal.length
    have hperm : result.Perm (executionsOf validCron name (.idle d) ts) :=
      htotal.subperm.perm_of_length_le (by omega)
    have hrecent : recent (executionsOf validCron name (.idle d) ts) =
        executionsOf validCron name (.idle d) ts := by
      unfold recent maxHistoryEntries
      rw [Nat.sub_eq_zero_of_le hfew, List.drop_zero]
    rw [hrecent]
    exact hperm.mem_iff
  · exact htotal.mem_iff_mem_drop horder x

/-- A daemon with the job `daily`, which is enabled and has not run. -/
def dailyDaemon : AppState :=
  { AppState.empty with cron := (CronScheduler.addJob (fun _ => true) none .empty
      (dailyJob "daily")).2 }

/-- Activity 0, and as many of its actions as it takes, with the clock at `now`. -/
def runOne (activity : Activity) (actions : Nat) (now : Int) : List Traffic :=
  .start 0 activity :: List.replicate actions (.advance 0 { Outside.calm with now := now })

/-- One tick of an enabled job: memory has its execution, the history that is returned has not. -/
theorem tick_missing_in_history :
    ((run (interleave fun _ => true) (.idle dailyDaemon)
      (runOne (.tick "daily") 7 5)).tasks 0).isNone = true ∧
    (executionsOf (fun _ => true) "daily" (.idle dailyDaemon) (runOne (.tick "daily") 7 5)).length =
      1 ∧
    ((run (interleave fun _ => true) (.idle dailyDaemon)
      (runOne (.tick "daily") 7 5)).state.cron.getJob "daily").map (fun s => s.history.length) =
        some 1 ∧
    (runOn (answerAlone fun _ => true) (cronHistory "daily") (fun _ => Outside.calm,
      (run (interleave fun _ => true) (.idle dailyDaemon)
        (runOne (.tick "daily") 7 5)).state)).1 = .ok [] ∧
    ¬ Newest JobExecution.startedAt
      (executionsOf (fun _ => true) "daily" (.idle dailyDaemon) (runOne (.tick "daily") 7 5))
      [] 100 := by
  have hone : (executionsOf (fun _ => true) "daily" (.idle dailyDaemon)
      (runOne (.tick "daily") 7 5)).length = 1 := by decide
  refine ⟨by decide, hone, by decide, by decide, fun hnewest => ?_⟩
  have hlength := hnewest.length
  rw [hone] at hlength
  exact absurd hlength (by decide)

/-- One trigger of the job, which saves what it records. -/
theorem history_complete_trigger :
    ∃ result, (runOn (answerAlone fun _ => true) (cronHistory "daily") (fun _ => Outside.calm,
        (run (interleave fun _ => true) (.idle dailyDaemon)
          (runOne (.cronTrigger "daily") 10 5)).state)).1 = .ok result ∧
      Newest JobExecution.startedAt
        (executionsOf (fun _ => true) "daily" (.idle dailyDaemon)
          (runOne (.cronTrigger "daily") 10 5)) result 100 := by
  have hok : Along (interleave fun _ => true) (HistoryOk "daily") (.idle dailyDaemon)
      (runOne (.cronTrigger "daily") 10 5) := by
    decide
  have hquiet : (run (interleave fun _ => true) (.idle dailyDaemon)
      (runOne (.cronTrigger "daily") 10 5)).Quiet := by
    exact quiet_of_indices (l := [0]) (by decide) (by decide)
  obtain ⟨result, -, hresult, hnewest, -⟩ := history_complete (fun _ => true) "daily" dailyDaemon
    (.new (dailyJob "daily") (some 0)) (by decide) rfl (by decide) _ hok
    (by decide) hquiet (fun _ => Outside.calm) rfl (by decide)
  exact ⟨result, hresult, hnewest⟩

end Mik.Daemon
