/-
  The scheduler and the store have the same jobs, and a call that failed did nothing.

  `cron_create`, `cron_update` and `cron_delete` change the scheduler first and the store after
  it, and nothing takes the first change back when the second fails. So a call is atomic as long
  as what comes second goes through (`WriteHolds`): the write of a job, its removal from the
  store, and, since a removal takes the job out of the map before it asks the scheduler, the
  removal from the scheduler as well. The handlers of the instances log such failures and go on,
  which is where the two come to disagree without any call that failed.

  `Consistent` is kept by every activity of the daemon under that condition (`Keeps`), and each of
  the three calls from a consistent state is atomic (`atomic_throughout`).
-/
import Mik.Daemon.LiveEntries

namespace Mik.Daemon

open Mik.Lib Prog

/-! ## The property and its condition -/

/-- The map of the scheduler and the store have the same jobs. -/
def Agree (d : AppState) : Prop := ∀ name, d.cron.getConfig name = d.store.cronJobs.lookup name

structure Consistent (validCron : String → Bool) (d : AppState) : Prop where
  agree : Agree d
  valid : ∀ name config, d.store.cronJobs.lookup name = some config → validCron config.cron = true

/-- The calls that the property is about. -/
def Activity.changesJob : Activity → Bool
  | .cronCreate _ | .cronUpdate _ _ | .cronDelete _ => true
  | _ => false

/-- A call that returns a response leaves the map and the store in agreement, one that returns an
    error leaves both, and the live entries, as they were. -/
def AtomicCall (validCron : String → Bool) (d : AppState) : Event → Prop
  | .perform outside activity => d.serving = true → activity.changesJob = true →
    let r := runOn (answerAlone validCron) activity.program (outside, d)
    match r.1 with
    | .ok _ => Agree r.2.2
    | .error _ => r.2.2.cron = d.cron ∧ r.2.2.store = d.store
  | _ => True

/-- What is done second goes through, or would change nothing. Saving a job again that is there as
    it is does no harm, unless the job was added anew before (`again` is false). -/
def WriteHolds (again : Bool) (a : Action) (w : World) : Prop :=
  match a with
  | .cron (.removeJob name) => (w.1 0).fault = none ∨ w.2.cron.jobs.lookup name = none
  | .store (.saveCronJob config) => (w.1 0).txn = none ∨
      again = true ∧ w.2.store.cronJobs.lookup config.name = some config
  | .store (.removeCronJob name) => (w.1 0).txn = none ∨ w.2.store.cronJobs.lookup name = none
  | _ => True

instance instDecidableWriteHolds (again : Bool) (a : Action) (w : World) :
    Decidable (WriteHolds again a w) :=
  match a with
  | .cron (.removeJob _) => inferInstanceAs (Decidable (_ ∨ _))
  | .store (.saveCronJob _) => inferInstanceAs (Decidable (_ ∨ _ ∧ _))
  | .store (.removeCronJob _) => inferInstanceAs (Decidable (_ ∨ _))
  | .cron (.addJob _) | .cron (.setEnabled _ _) | .cron (.getConfig _) | .cron .listJobs
  | .cron (.getJob _) | .cron (.recordExecution _ _ _) => isTrue trivial
  | .store .listCronJobs | .store (.saveInstance _) | .store (.getInstance _)
  | .store .listInstances | .store (.saveJobExecution _) | .store (.listJobExecutions _ _)
  | .store (.cleanupJobExecutions _ _) => isTrue trivial
  | .system _ => isTrue trivial

/-- The scheduler takes the jobs that are restored. -/
def AddHolds (a : Action) (w : World) : Prop :=
  match a with
  | .cron (.addJob _) => (w.1 0).fault = none
  | _ => True

instance instDecidableAddHolds (a : Action) (w : World) : Decidable (AddHolds a w) :=
  match a with
  | .cron (.addJob _) => inferInstanceAs (Decidable (_ = none))
  | .cron (.removeJob _) | .cron (.setEnabled _ _) | .cron (.getConfig _) | .cron .listJobs
  | .cron (.getJob _) | .cron (.recordExecution _ _ _) | .store _ | .system _ => isTrue trivial

/-- A job that is created has a new live entry. -/
def Activity.again : Activity → Bool
  | .cronCreate _ => false
  | _ => true

def WritesGoThrough (validCron : String → Bool) (d : AppState) : Event → Prop
  | .perform outside activity => d.serving = true →
      Meets (answerAlone validCron) (WriteHolds activity.again) activity.program (outside, d)
  | .crash _ => True
  | .restart outside => Meets (answerAlone validCron) AddHolds restoreJobs (outside, d.reboot)

/-! ## What the actions do to the jobs -/

/-- The jobs are the same, in the map and in the store. -/
def SameJobs (d d' : AppState) : Prop :=
  (∀ name, d'.cron.getConfig name = d.cron.getConfig name) ∧
    d'.store.cronJobs = d.store.cronJobs

/-- The actions that touch the jobs neither in the map nor in the store. -/
def Quiet : Action → Prop
  | .cron (.addJob _) | .cron (.removeJob _) | .cron (.setEnabled _ _) => False
  | .store (.saveCronJob _) | .store (.removeCronJob _) => False
  | _ => True

variable {validCron : String → Bool} {d d' : AppState} {c : CronScheduler} {w : World}
  {config : ScheduleConfig} {name : String} {again : Bool}

theorem Consistent.of_same (h : SameJobs d d') (hd : Consistent validCron d) :
    Consistent validCron d' where
  agree := by
    intro name
    rw [h.1, h.2]
    exact hd.agree name
  valid := by
    intro name config hconfig
    rw [h.2] at hconfig
    exact hd.valid name config hconfig

theorem getConfig_put (state : JobState) (name : String) :
    ({ c with jobs := c.jobs.put state } : CronScheduler).getConfig name =
      if name = state.config.name then some state.config else c.getConfig name := by
  show ((c.jobs.put state).lookup name).map JobState.config = _
  rw [Records.lookup_put, apply_ite (Option.map JobState.config)]
  rfl

theorem getConfig_recordExecution (execution : JobExecution) (success : Bool) (name' : String) :
    (c.recordExecution name execution success).getConfig name' = c.getConfig name' := by
  unfold CronScheduler.recordExecution
  split
  · rfl
  · next state hstate =>
    have hname := CronScheduler.name_of_lookup hstate
    rw [getConfig_put]
    split
    · next heq =>
      show some state.config = (c.jobs.lookup name').map JobState.config
      rw [heq, show (state.record execution success).config = state.config from rfl, hname, hstate]
      rfl
    · rfl

theorem sameJobs_of_quiet {a : Action} (h : Quiet a) (w : World) :
    SameJobs w.2 (answerAlone validCron a w).2.2 := by
  cases a with
  | cron a =>
    cases a with
    | addJob config => exact h.elim
    | removeJob name => exact h.elim
    | setEnabled name enabled => exact h.elim
    | recordExecution name execution success =>
      exact ⟨getConfig_recordExecution execution success, rfl⟩
    | getConfig name => exact ⟨fun _ => rfl, rfl⟩
    | listJobs => exact ⟨fun _ => rfl, rfl⟩
    | getJob name => exact ⟨fun _ => rfl, rfl⟩
  | store a =>
    refine ⟨fun _ => rfl, ?_⟩
    show (w.2.store.answer (w.1 0) a).2.cronJobs = _
    cases a with
    | saveCronJob config => exact h.elim
    | removeCronJob name => exact h.elim
    | saveJobExecution execution => rfl
    | listJobExecutions jobName limit => rfl
    | cleanupJobExecutions jobName keep => rfl
    | listCronJobs => exact transact_same StateStore.cronJobs rfl
    | saveInstance i => exact transact_same StateStore.cronJobs rfl
    | getInstance name => exact transact_same StateStore.cronJobs rfl
    | listInstances => exact transact_same StateStore.cronJobs rfl
  | system a => exact ⟨fun _ => rfl, rfl⟩

/-! ## The jobs after a change of both -/

/-- The map and the store after `config` was put into both. -/
theorem consistent_put (h : Consistent validCron d) (hvalid : validCron config.cron = true)
    (hmap : ∀ name, d'.cron.getConfig name =
      if name = config.name then some config else d.cron.getConfig name)
    (hstore : ∀ name, d'.store.cronJobs.lookup name =
      if name = config.name then some config else d.store.cronJobs.lookup name) :
    Consistent validCron d' where
  agree := by
    intro name
    rw [hmap, hstore, h.agree]
  valid := by
    intro name config' hconfig'
    rw [hstore] at hconfig'
    split at hconfig'
    · cases hconfig'
      exact hvalid
    · exact h.valid name config' hconfig'

/-- The map and the store after the job `name` was removed from both. -/
theorem consistent_remove (h : Consistent validCron d)
    (hmap : ∀ name', d'.cron.getConfig name' =
      if name' = name then none else d.cron.getConfig name')
    (hstore : ∀ name', d'.store.cronJobs.lookup name' =
      if name' = name then none else d.store.cronJobs.lookup name') :
    Consistent validCron d' where
  agree := by
    intro name'
    rw [hmap, hstore, h.agree]
  valid := by
    intro name' config hconfig
    rw [hstore] at hconfig
    split at hconfig
    · cases hconfig
    · exact h.valid name' config hconfig

theorem getConfig_added (name : String) :
    (c.added config).getConfig name =
      if name = config.name then some config else c.getConfig name := by
  show ((c.added config).jobs.lookup name).map JobState.config = _
  rw [lookup_added, apply_ite (Option.map JobState.config)]
  rfl

theorem getConfig_removeJob (fault : Option String) (name' : String) :
    (c.removeJob fault name).2.getConfig name' =
      if name' = name then none else c.getConfig name' := by
  show ((c.removeJob fault name).2.jobs.lookup name').map JobState.config = _
  rw [CronScheduler.removeJob_jobs_lookup, apply_ite (Option.map JobState.config)]
  rfl

/-- A save that goes through, or changes nothing, leaves the job in the store. -/
theorem lookup_saveCronJob {txn : Option TxnStage} {s : StateStore}
    (h : txn = none ∨ s.cronJobs.lookup config.name = some config) (name : String) :
    (s.saveCronJob txn config).2.cronJobs.lookup name =
      if name = config.name then some config else s.cronJobs.lookup name := by
  cases txn with
  | none => exact Records.lookup_put _ _
  | some stage =>
    have hsame := h.resolve_left (by simp)
    show s.cronJobs.lookup name = _
    split
    · next heq => rw [heq, hsame]
    · rfl

theorem lookup_removeCronJob {txn : Option TxnStage} {s : StateStore}
    (h : txn = none ∨ s.cronJobs.lookup name = none) (name' : String) :
    (s.removeCronJob txn name).2.cronJobs.lookup name' =
      if name' = name then none else s.cronJobs.lookup name' := by
  cases txn with
  | none => exact Records.lookup_remove _ _
  | some stage =>
    have hnone := h.resolve_left (by simp)
    show s.cronJobs.lookup name' = _
    split
    · next heq => rw [heq, hnone]
    · rfl

/-! ## The three calls -/

/-- How a call ends that started in the state `d`. -/
def Atomic {α : Type} (validCron : String → Bool) (d : AppState) (r : Result α × World) : Prop :=
  match r.1 with
  | .ok _ => Consistent validCron r.2.2
  | .error _ => r.2.2.cron = d.cron ∧ r.2.2.store = d.store

theorem atomic_orFail {α β : Type} {p : Task (Except String α)} {err : String → AppError}
    {k : α → Task (Result β)}
    (hmeets : Meets (answerAlone validCron) (WriteHolds again) (orFail p err k) w)
    (herror : ∀ e, Meets (answerAlone validCron) (WriteHolds again) p w →
      (runOn (answerAlone validCron) p w).1 = .error e →
      (runOn (answerAlone validCron) p w).2.2.cron = d.cron ∧
        (runOn (answerAlone validCron) p w).2.2.store = d.store)
    (hok : ∀ x, Meets (answerAlone validCron) (WriteHolds again) p w →
      (runOn (answerAlone validCron) p w).1 = .ok x →
      Meets (answerAlone validCron) (WriteHolds again) (k x)
        (runOn (answerAlone validCron) p w).2 →
      Atomic validCron d
        (runOn (answerAlone validCron) (k x) (runOn (answerAlone validCron) p w).2)) :
    Atomic validCron d (runOn (answerAlone validCron) (orFail p err k) w) := by
  unfold orFail at hmeets ⊢
  obtain ⟨hfirst, hrest⟩ := meets_bind.mp hmeets
  rw [runOn_bind]
  cases hresult : (runOn (answerAlone validCron) p w).1 with
  | error e => exact herror e hfirst hresult
  | ok x =>
    rw [hresult] at hrest
    exact hok x hfirst hresult hrest

theorem cronCreate_atomic (hd : Consistent validCron w.2)
    (hmeets : Meets (answerAlone validCron) (WriteHolds false) (cronCreate config) w) :
    Atomic validCron w.2 (runOn (answerAlone validCron) (cronCreate config) w) := by
  have hadd := CronScheduler.addJob_cases validCron (w.1 0).fault w.2.cron config
  refine atomic_orFail hmeets (fun e _ he => ?_) fun _ _ hx hmeets => ?_
  · rcases hadd with ⟨-, hsame⟩ | ⟨-, -, hadded⟩
    · exact ⟨hsame, rfl⟩
    · have he' : (w.2.cron.addJob validCron (w.1 0).fault config).1 = .error e := he
      rw [hadded] at he'
      cases he'
  · have hx' : (w.2.cron.addJob validCron (w.1 0).fault config).1 = .ok () := hx
    obtain ⟨hvalid, hadded⟩ : validCron config.cron = true ∧
        (w.2.cron.addJob validCron (w.1 0).fault config).2 = w.2.cron.added config := by
      rcases hadd with ⟨hfail, -⟩ | ⟨hvalid, -, hadded⟩
      · rw [hx'] at hfail
        cases hfail
      · exact ⟨hvalid, congrArg Prod.snd hadded⟩
    -- A new live entry is there, so only a save that goes through will do.
    have hwrite : ∀ (h : WriteHolds false (.store (.saveCronJob config))
        (runOn (answerAlone validCron) (onCron (.addJob config)) w).2), (w.1 1).txn = none :=
      fun h => h.resolve_right (by simp)
    refine atomic_orFail hmeets (fun e hsave he => ?_) fun _ hsave _ _ => ?_
    · have he' : (w.2.store.saveCronJob (w.1 1).txn config).1 = .error e := he
      rw [hwrite hsave.1] at he'
      cases he'
    · refine consistent_put hd hvalid (fun name => ?_) fun name => ?_
      · show (w.2.cron.addJob validCron (w.1 0).fault config).2.getConfig name = _
        rw [hadded, getConfig_added]
      · exact lookup_saveCronJob (Or.inl (hwrite hsave.1)) name

theorem cronDelete_atomic (hd : Consistent validCron w.2)
    (hmeets : Meets (answerAlone validCron) (WriteHolds again) (cronDelete name) w) :
    Atomic validCron w.2 (runOn (answerAlone validCron) (cronDelete name) w) := by
  cases hstate : w.2.cron.jobs.lookup name with
  | none =>
    have hresult : w.2.cron.removeJob (w.1 0).fault name = (.ok false, w.2.cron) := by
      unfold CronScheduler.removeJob
      rw [hstate]
    refine atomic_orFail hmeets (fun e _ he => ?_) fun deleted _ hdeleted _ => ?_
    · have he' : (w.2.cron.removeJob (w.1 0).fault name).1 = .error e := he
      rw [hresult] at he'
      cases he'
    · have hdeleted' : (w.2.cron.removeJob (w.1 0).fault name).1 = .ok deleted := hdeleted
      rw [hresult] at hdeleted'
      cases hdeleted'
      exact ⟨congrArg Prod.snd hresult, rfl⟩
  | some state =>
    have hpresent : w.2.store.cronJobs.lookup name ≠ none := by
      rw [← hd.agree name]
      show (w.2.cron.jobs.lookup name).map JobState.config ≠ none
      rw [hstate]
      exact Option.some_ne_none _
    have hresult : ∀ (h : WriteHolds again (.cron (.removeJob name)) w),
        (w.2.cron.removeJob (w.1 0).fault name).1 = .ok true := by
      intro h
      have hfault : (w.1 0).fault = none := by
        refine h.resolve_right ?_
        rw [hstate]
        exact Option.some_ne_none _
      unfold CronScheduler.removeJob
      rw [hstate, hfault]
      dsimp only
      split
      · rfl
      · rfl
    refine atomic_orFail hmeets (fun e hremove he => ?_) fun deleted hremove hdeleted hmeets => ?_
    · have he' : (w.2.cron.removeJob (w.1 0).fault name).1 = .error e := he
      rw [hresult hremove.1] at he'
      cases he'
    · have hdeleted' : (w.2.cron.removeJob (w.1 0).fault name).1 = .ok deleted := hdeleted
      rw [hresult hremove.1] at hdeleted'
      cases hdeleted'
      refine atomic_orFail hmeets (fun e hstore he => ?_) fun _ hstore _ _ => ?_
      · have htxn : (w.1 1).txn = none := hstore.1.resolve_right hpresent
        have he' : (w.2.store.removeCronJob (w.1 1).txn name).1 = .error e := he
        rw [htxn] at he'
        cases he'
      · exact consistent_remove hd (getConfig_removeJob (w.1 0).fault)
          (lookup_removeCronJob hstore.1)

theorem setEnabled_present {state : JobState} (hstate : c.jobs.lookup name = some state)
    (enabled : Bool) :
    c.setEnabled name enabled =
      (some enabled, { c with jobs := c.jobs.put (state.withEnabled enabled) }) := by
  unfold CronScheduler.setEnabled
  rw [hstate]

theorem getConfig_setEnabled {state : JobState} (hstate : c.jobs.lookup name = some state)
    (enabled : Bool) (name' : String) :
    (c.setEnabled name enabled).2.getConfig name' =
      if name' = name then some (state.config.withEnabled enabled) else c.getConfig name' := by
  have hold := CronScheduler.name_of_lookup hstate
  have hname : (state.withEnabled enabled).config.name = name := hold
  rw [setEnabled_present hstate, getConfig_put, hname]
  rfl

theorem cronUpdate_atomic (hd : Consistent validCron w.2) (enabled : Option Bool)
    (hmeets : Meets (answerAlone validCron) (WriteHolds true) (cronUpdate name enabled) w) :
    Atomic validCron w.2 (runOn (answerAlone validCron) (cronUpdate name enabled) w) := by
  cases enabled with
  | none => exact ⟨rfl, rfl⟩
  | some enabled =>
    unfold cronUpdate at hmeets ⊢
    dsimp only at hmeets ⊢
    replace hmeets := (meets_bind.mp hmeets).2
    rw [runOn_bind]
    cases hstate : w.2.cron.jobs.lookup name with
    | none =>
      have hset : w.2.cron.setEnabled name enabled = (none, w.2.cron) := by
        unfold CronScheduler.setEnabled
        rw [hstate]
      have hfirst : (runOn (answerAlone validCron) (onCron (.setEnabled name enabled)) w).1 =
        none := congrArg Prod.fst hset
      rw [hfirst]
      exact ⟨congrArg Prod.snd hset, rfl⟩
    | some state =>
      have hkey := CronScheduler.name_of_lookup hstate
      have hname : (state.config.withEnabled enabled).name = name := hkey
      have hold : w.2.store.cronJobs.lookup name = some state.config := by
        rw [← hd.agree name]
        show (w.2.cron.jobs.lookup name).map JobState.config = _
        rw [hstate]
        rfl
      have hfirst : (runOn (answerAlone validCron) (onCron (.setEnabled name enabled)) w).1 =
        some enabled := congrArg Prod.fst (setEnabled_present hstate enabled)
      have hcron : (runOn (answerAlone validCron) (onCron (.setEnabled name enabled)) w).2.2.cron =
        (w.2.cron.setEnabled name enabled).2 := rfl
      have hstore :
        (runOn (answerAlone validCron) (onCron (.setEnabled name enabled)) w).2.2.store =
          w.2.store := rfl
      rw [hfirst] at hmeets ⊢
      generalize (runOn (answerAlone validCron) (onCron (.setEnabled name enabled)) w).2 = w₁
        at hcron hstore hmeets ⊢
      have hsecond : (runOn (answerAlone validCron) (onCron (.getConfig name)) w₁).1 =
          some (state.config.withEnabled enabled) := by
        show w₁.2.cron.getConfig name = _
        rw [hcron, getConfig_setEnabled hstate, if_pos rfl]
      replace hmeets := (meets_bind.mp hmeets).2
      rw [hsecond] at hmeets
      rw [runOn_bind, hsecond]
      refine atomic_orFail hmeets (fun e hsave he => ?_) fun _ hsave _ _ => ?_
      · have he' : (w₁.2.store.saveCronJob (w₁.1 1).txn (state.config.withEnabled enabled)).1 =
          .error e := he
        rcases hsave.1 with htxn | ⟨-, hsame⟩
        · have htxn' : (w₁.1 1).txn = none := htxn
          rw [htxn'] at he'
          cases he'
        · -- Nothing was written and nothing changed: the job was paused or resumed already.
          have hsame' : w₁.2.store.cronJobs.lookup (state.config.withEnabled enabled).name =
            some (state.config.withEnabled enabled) := hsame
          rw [hstore, hname, hold, Option.some.injEq] at hsame'
          have hstate' : state.withEnabled enabled = state := by
            unfold JobState.withEnabled
            rw [← hsame']
          constructor
          · show w₁.2.cron = w.2.cron
            rw [hcron, setEnabled_present hstate, hstate']
            dsimp only
            rw [Records.put_of_lookup]
            exact (congrArg w.2.cron.jobs.lookup hkey).trans hstate
          · show (w₁.2.store.saveCronJob (w₁.1 1).txn (state.config.withEnabled enabled)).2 = _
            rw [← hstore]
            cases htxn : (w₁.1 1).txn with
            | some stage => rfl
            | none =>
              rw [htxn] at he'
              cases he'
      · have hvalid : validCron (state.config.withEnabled enabled).cron = true :=
          hd.valid name state.config hold
        refine consistent_put hd hvalid (fun name' => ?_) fun name' => ?_
        · show w₁.2.cron.getConfig name' = _
          rw [hcron, getConfig_setEnabled hstate, hname]
        · rw [← hstore]
          exact lookup_saveCronJob (hsave.1.imp id And.right) name'

/-! ## The activities of the daemon -/

/-- The program keeps the map and the store consistent. -/
def Keeps {α : Type} (validCron : String → Bool) (p : Task α) : Prop :=
  Triple (answerAlone validCron) (WriteHolds true) (fun w => Consistent validCron w.2) p
    fun _ w => Consistent validCron w.2

section

variable {α β : Type} {p : Task α}

theorem keeps_ret (x : α) : Keeps validCron (ret x : Task α) := Triple.ret fun _ h => h

theorem keeps_bind {f : α → Task β} (hp : Keeps validCron p) (hf : ∀ x, Keeps validCron (f x)) :
    Keeps validCron (p >>= f) := Triple.bind hp hf

theorem keeps_act {a : Action} {k : Reply a → Task α} (ha : Quiet a)
    (hk : ∀ r, Keeps validCron (k r)) : Keeps validCron (act a k) :=
  Triple.act (fun w h _ => h.of_same (sameJobs_of_quiet ha w)) hk

theorem keeps_onCron {a : CronAction} (ha : Quiet (.cron a)) : Keeps validCron (onCron a) :=
  keeps_act ha keeps_ret

theorem keeps_onStore {a : StoreAction} (ha : Quiet (.store a)) : Keeps validCron (onStore a) :=
  keeps_act ha keeps_ret

theorem keeps_onSystem (a : SystemAction) : Keeps validCron (onSystem a) :=
  keeps_act trivial keeps_ret

theorem keeps_orFail {p : Task (Except String α)} {err : String → AppError}
    {k : α → Task (Result β)} (hp : Keeps validCron p) (hk : ∀ x, Keeps validCron (k x)) :
    Keeps validCron (orFail p err k) := by
  refine keeps_bind hp fun r => ?_
  cases r with
  | error e => exact keeps_ret _
  | ok x => exact hk x

end

/-! ### Instances -/

theorem keeps_isAlive (i : Instance) : Keeps validCron (isAlive i) := by
  unfold isAlive
  split
  · exact keeps_onSystem _
  · exact keeps_ret _

theorem keeps_runningInstance (existing : Option Instance) :
    Keeps validCron (runningInstance existing) := by
  cases existing with
  | none => exact keeps_ret _
  | some i =>
    refine keeps_bind (keeps_isAlive i) fun r => ?_
    cases r with
    | error e => exact keeps_ret _
    | ok alive => exact keeps_ret _

theorem keeps_killIfAlive (i : Instance) : Keeps validCron (killIfAlive i) := by
  refine keeps_bind (keeps_isAlive i) fun r => ?_
  match r with
  | .error e => exact keeps_ret _
  | .ok false => exact keeps_ret _
  | .ok true => exact keeps_onSystem _

theorem keeps_pathOr (given : Option String) (make : String → String) :
    Keeps validCron (pathOr given make) := by
  cases given with
  | some path => exact keeps_ret _
  | none =>
    refine keeps_bind (keeps_onSystem _) fun r => ?_
    match r with
    | .error e => exact keeps_ret _
    | .ok dir => exact keeps_ret _

/-- Between the two steps of `registerJobs`. -/
def AfterAdd (validCron : String → Bool) (config : ScheduleConfig) (r : Except String Unit)
    (w : World) : Prop :=
  match r with
  | .error _ => Consistent validCron w.2
  | .ok _ => ∃ d, Consistent validCron d ∧ validCron config.cron = true ∧
      w.2.cron = d.cron.added config ∧ w.2.store = d.store

theorem afterAdd_addJob (config : ScheduleConfig) :
    Triple (answerAlone validCron) (WriteHolds true) (fun w => Consistent validCron w.2)
      (onCron (.addJob config)) (AfterAdd validCron config) := by
  intro w hw _
  show AfterAdd validCron config (w.2.cron.addJob validCron (w.1 0).fault config).1 _
  rcases CronScheduler.addJob_cases validCron (w.1 0).fault w.2.cron config with
    ⟨hfail, hsame⟩ | ⟨hvalid, -, hadded⟩
  · cases hresult : (w.2.cron.addJob validCron (w.1 0).fault config).1 with
    | ok x =>
      rw [hresult] at hfail
      cases hfail
    | error e =>
      refine Consistent.of_same (d := w.2) ⟨fun name => ?_, rfl⟩ hw
      show (w.2.cron.addJob validCron (w.1 0).fault config).2.getConfig name = _
      rw [hsame]
  · rw [congrArg Prod.fst hadded]
    exact ⟨w.2, hw, hvalid, congrArg Prod.snd hadded, rfl⟩

theorem saved_afterAdd (config : ScheduleConfig) :
    Triple (answerAlone validCron) (WriteHolds true) (AfterAdd validCron config (.ok ()))
      (onStore (.saveCronJob config)) fun _ w => Consistent validCron w.2 := by
  rintro w ⟨d, hd, hvalid, hcron, hstore⟩ ⟨hsave, -⟩
  refine consistent_put hd hvalid (fun name => ?_) fun name => ?_
  · show w.2.cron.getConfig name = _
    rw [hcron, getConfig_added]
  · rw [← hstore]
    exact lookup_saveCronJob (hsave.imp id And.right) name

theorem keeps_registerJobs (configs : List ScheduleConfig) :
    Keeps validCron (registerJobs configs) := by
  induction configs with
  | nil => exact keeps_ret _
  | cons config rest ih =>
    refine Triple.bind (afterAdd_addJob config) fun r => ?_
    cases r with
    | error e => exact ih
    | ok x => exact Triple.bind (saved_afterAdd config) fun _ => ih

theorem keeps_registerSchedules (name : String) (port : Nat) (config : String) :
    Keeps validCron (registerSchedules name port config) := by
  refine keeps_bind (keeps_onSystem _) fun r => ?_
  match r with
  | .error e => exact keeps_ret _
  | .ok schedules => exact keeps_registerJobs _

/-- Between the two steps of `removeJobs`, whose first one does not fail. -/
def AfterRemove (validCron : String → Bool) (job : String) (r : Except String Bool)
    (w : World) : Prop :=
  match r with
  | .error _ => False
  | .ok _ => ∃ d, Consistent validCron d ∧
      (∀ name, w.2.cron.getConfig name = if name = job then none else d.cron.getConfig name) ∧
      w.2.store = d.store

theorem afterRemove_removeJob (job : String) :
    Triple (answerAlone validCron) (WriteHolds true) (fun w => Consistent validCron w.2)
      (onCron (.removeJob job)) (AfterRemove validCron job) := by
  intro w hw hmeets
  show AfterRemove validCron job (w.2.cron.removeJob (w.1 0).fault job).1 _
  have hremove : (w.1 0).fault = none ∨ w.2.cron.jobs.lookup job = none := hmeets.1
  have hok : (w.2.cron.removeJob (w.1 0).fault job).1.isOk = true := by
    unfold CronScheduler.removeJob
    rcases hremove with hfault | habsent
    · rw [hfault]
      split
      · rfl
      · split
        · rfl
        · rfl
    · rw [habsent]
      rfl
  cases hresult : (w.2.cron.removeJob (w.1 0).fault job).1 with
  | error e =>
    rw [hresult] at hok
    cases hok
  | ok x => exact ⟨w.2, hw, getConfig_removeJob (w.1 0).fault, rfl⟩

theorem removed_afterRemove (job : String) (x : Bool) :
    Triple (answerAlone validCron) (WriteHolds true) (AfterRemove validCron job (.ok x))
      (onStore (.removeCronJob job)) fun _ w => Consistent validCron w.2 := by
  rintro w ⟨d, hd, hmap, hstore⟩ ⟨hremove, -⟩
  refine consistent_remove hd hmap fun name => ?_
  rw [← hstore]
  exact lookup_removeCronJob hremove name

theorem keeps_removeJobs (jobs : List String) : Keeps validCron (removeJobs jobs) := by
  induction jobs with
  | nil => exact keeps_ret _
  | cons job rest ih =>
    refine Triple.bind (afterRemove_removeJob job) fun r => ?_
    cases r with
    | error e => exact fun _ h => h.elim
    | ok x => exact Triple.bind (removed_afterRemove job x) fun _ => ih

theorem keeps_removeScopedJobs (name : String) : Keeps validCron (removeScopedJobs name) :=
  keeps_bind (keeps_onCron trivial) fun _ => keeps_removeJobs _

theorem keeps_startInstance (req : StartInstanceRequest) :
    Keeps validCron (startInstance req) := by
  unfold startInstance
  split
  · exact keeps_ret _
  · refine keeps_orFail (keeps_onStore trivial) fun existing => ?_
    refine keeps_orFail (keeps_runningInstance existing) fun running => ?_
    cases running with
    | some i => exact keeps_ret _
    | none =>
      refine keeps_orFail (keeps_pathOr _ _) fun configPath => ?_
      refine keeps_bind (keeps_onSystem _) fun there => ?_
      match there with
      | false => exact keeps_ret _
      | true =>
        refine keeps_orFail (keeps_pathOr _ _) fun _ => ?_
        refine keeps_orFail (keeps_onSystem _) fun pid => ?_
        refine keeps_bind (keeps_onSystem _) fun now => ?_
        refine keeps_orFail (keeps_onStore trivial) fun _ => ?_
        exact keeps_bind (keeps_registerSchedules _ _ _) fun _ => keeps_ret _

theorem keeps_orNotFound {α : Type} {k : Instance → Task (Result α)}
    (hk : ∀ i, Keeps validCron (k i)) : Keeps validCron (orNotFound name k) := by
  refine keeps_orFail (keeps_onStore trivial) fun found => ?_
  cases found with
  | none => exact keeps_ret _
  | some i => exact hk i

theorem keeps_stopInstance (name : String) : Keeps validCron (stopInstance name) := by
  refine keeps_orNotFound fun i => ?_
  split
  · refine keeps_orFail (keeps_killIfAlive i) fun _ => ?_
    refine keeps_bind (keeps_removeScopedJobs name) fun _ => ?_
    exact keeps_orFail (keeps_onStore trivial) fun _ => keeps_ret _
  · exact keeps_ret _

theorem keeps_restartInstance (name : String) : Keeps validCron (restartInstance name) := by
  refine keeps_orNotFound fun i => ?_
  refine keeps_orFail (keeps_killIfAlive i) fun _ => ?_
  refine keeps_bind (keeps_removeScopedJobs name) fun _ => ?_
  refine keeps_orFail (keeps_onSystem _) fun pid => ?_
  refine keeps_bind (keeps_onSystem _) fun now => ?_
  refine keeps_orFail (keeps_onStore trivial) fun _ => ?_
  exact keeps_bind (keeps_registerSchedules _ _ _) fun _ => keeps_ret _

/-! ### Executions and the health check -/

theorem keeps_executeJob (name : String) (manual : Bool) :
    Keeps validCron (executeJob name manual) := by
  refine keeps_bind (keeps_onSystem _) fun id => ?_
  refine keeps_bind (keeps_onSystem _) fun startedAt => ?_
  refine keeps_bind (keeps_onCron trivial) fun config => ?_
  refine keeps_bind ?_ fun executed => ?_
  · cases config with
    | none => exact keeps_ret _
    | some config => exact keeps_bind (keeps_onSystem _) fun _ => keeps_ret _
  · refine keeps_bind (keeps_onSystem _) fun completedAt => ?_
    exact keeps_bind (keeps_onCron trivial) fun _ => keeps_ret _

theorem keeps_executeJobInternal (name : String) :
    Keeps validCron (executeJobInternal name) := by
  refine keeps_bind (keeps_onSystem _) fun id => ?_
  refine keeps_bind (keeps_onSystem _) fun startedAt => ?_
  refine keeps_bind (keeps_onCron trivial) fun config => ?_
  cases config with
  | none => exact keeps_ret _
  | some config =>
    dsimp only
    split
    · refine keeps_bind (keeps_onSystem _) fun executed => ?_
      refine keeps_bind (keeps_onSystem _) fun completedAt => ?_
      exact keeps_onCron trivial
    · exact keeps_ret _

theorem keeps_cronTrigger (name : String) : Keeps validCron (cronTrigger name) := by
  refine keeps_bind (keeps_onCron trivial) fun job => ?_
  cases job with
  | none => exact keeps_ret _
  | some job =>
    refine keeps_orFail ?_ fun execution => ?_
    · refine keeps_bind (keeps_executeJob name true) fun execution => ?_
      split
      · exact keeps_ret _
      · exact keeps_ret _
    · refine keeps_bind (keeps_onStore trivial) fun _ => ?_
      exact keeps_bind (keeps_onStore trivial) fun _ => keeps_ret _

theorem keeps_cronHistory (name : String) : Keeps validCron (cronHistory name) := by
  refine keeps_bind (keeps_onCron trivial) fun job => ?_
  cases job with
  | none => exact keeps_ret _
  | some job => exact keeps_orFail (keeps_onStore trivial) fun _ => keeps_ret _

theorem keeps_checkAndRecoverSingleInstance (maxAutoRestarts : Nat) (i : Instance) :
    Keeps validCron (checkAndRecoverSingleInstance maxAutoRestarts i) := by
  have hspawn : Keeps validCron (spawnAndSaveRestartedInstance i) := by
    refine keeps_bind (keeps_onSystem _) fun r => ?_
    match r with
    | .error e => exact keeps_ret _
    | .ok pid =>
      refine keeps_bind (keeps_onSystem _) fun startedAt => ?_
      refine keeps_bind (keeps_onSystem _) fun restartedAt => ?_
      exact keeps_bind (keeps_onStore trivial) fun _ => keeps_ret _
  have hattempt : Keeps validCron (attemptAutoRestart maxAutoRestarts i) := by
    unfold attemptAutoRestart
    split
    · exact keeps_ret _
    · refine keeps_bind ?_ fun now => ?_
      · unfold shouldRestartNow
        split
        · exact keeps_ret _
        · exact keeps_bind (keeps_onSystem _) fun _ => keeps_ret _
      · split
        · exact hspawn
        · exact keeps_ret _
  have hcrashed : Keeps validCron (handleCrashedInstance maxAutoRestarts i) := by
    refine keeps_bind (keeps_onStore trivial) fun r => ?_
    cases r with
    | error e => exact keeps_ret _
    | ok x =>
      dsimp only
      split
      · exact hattempt
      · exact keeps_ret _
  unfold checkAndRecoverSingleInstance
  split
  · refine keeps_bind (keeps_onSystem _) fun r => ?_
    match r with
    | .error e => exact keeps_ret _
    | .ok true => exact keeps_ret _
    | .ok false => exact hcrashed
  · exact keeps_ret _

theorem keeps_checkAndRecoverInstances (maxAutoRestarts : Nat) :
    Keeps validCron (checkAndRecoverInstances maxAutoRestarts) := by
  refine keeps_bind (keeps_onStore trivial) fun r => ?_
  match r with
  | .error e => exact keeps_ret _
  | .ok instances =>
    induction instances with
    | nil => exact keeps_ret _
    | cons i rest ih =>
      exact keeps_bind (keeps_checkAndRecoverSingleInstance maxAutoRestarts i) fun _ => ih

/-! ## Runs -/

theorem writeHolds_true {a : Action} (h : WriteHolds again a w) : WriteHolds true a w := by
  cases a with
  | cron a =>
    cases a with
    | removeJob name => exact h
    | _ => trivial
  | system a => trivial
  | store a =>
    cases a with
    | saveCronJob config => exact h.imp id fun hsame => ⟨rfl, hsame.2⟩
    | removeCronJob name => exact h
    | _ => trivial

theorem Atomic.consistent {α : Type} {r : Result α × World} (hd : Consistent validCron d)
    (h : Atomic validCron d r) : Consistent validCron r.2.2 := by
  obtain ⟨result, w⟩ := r
  cases result with
  | ok x => exact h
  | error e =>
    obtain ⟨hcron, hstore⟩ := h
    refine hd.of_same ⟨fun name => ?_, ?_⟩
    · dsimp only at hcron
      rw [hcron]
    · dsimp only at hstore
      rw [hstore]

theorem Atomic.discard {α : Type} {p : Task (Result α)}
    (h : Atomic validCron d (runOn (answerAlone validCron) p w)) :
    Atomic validCron d (runOn (answerAlone validCron) (discard p) w) := by
  unfold Daemon.discard
  rw [runOn_bind]
  generalize runOn (answerAlone validCron) p w = r at h ⊢
  obtain ⟨result, w'⟩ := r
  cases result with
  | ok x => exact h
  | error e => exact h

theorem meets_of_discard {α : Type} {Ok : Action → World → Prop} {p : Task (Result α)}
    (h : Meets (answerAlone validCron) Ok (discard p) w) : Meets (answerAlone validCron) Ok p w :=
  (meets_bind.mp h).1

/-- Each of the three calls is atomic in a consistent state. -/
theorem atomic_of_changesJob {activity : Activity} (hd : Consistent validCron w.2)
    (hchanges : activity.changesJob = true)
    (hmeets : Meets (answerAlone validCron) (WriteHolds activity.again) activity.program w) :
    Atomic validCron w.2 (runOn (answerAlone validCron) activity.program w) := by
  cases activity with
  | cronCreate config => exact (cronCreate_atomic hd (meets_of_discard hmeets)).discard
  | cronDelete name => exact (cronDelete_atomic hd (meets_of_discard hmeets)).discard
  | cronUpdate name enabled =>
    exact (cronUpdate_atomic hd enabled (meets_of_discard hmeets)).discard
  | _ => cases hchanges

/-- Every activity keeps the map and the store consistent. -/
theorem consistent_activity (activity : Activity) (hd : Consistent validCron w.2)
    (hmeets : Meets (answerAlone validCron) (WriteHolds activity.again) activity.program w) :
    Consistent validCron (runOn (answerAlone validCron) activity.program w).2.2 := by
  have hkeeps : ∀ {α : Type} {p : Task (Result α)}, Keeps validCron p →
      Keeps validCron (discard p) := fun hp => keeps_bind hp fun _ => keeps_ret _
  have hmeets' := Meets.mono (fun a w h => writeHolds_true h) hmeets
  cases activity with
  | cronCreate config => exact (atomic_of_changesJob hd rfl hmeets).consistent hd
  | cronDelete name => exact (atomic_of_changesJob hd rfl hmeets).consistent hd
  | cronUpdate name enabled => exact (atomic_of_changesJob hd rfl hmeets).consistent hd
  | cronTrigger name => exact hkeeps (keeps_cronTrigger name) w hd hmeets'
  | cronHistory name => exact hkeeps (keeps_cronHistory name) w hd hmeets'
  | startInstance req => exact hkeeps (keeps_startInstance req) w hd hmeets'
  | stopInstance name => exact hkeeps (keeps_stopInstance name) w hd hmeets'
  | restartInstance name => exact hkeeps (keeps_restartInstance name) w hd hmeets'
  | tick name =>
    exact keeps_bind (keeps_executeJobInternal name) (fun _ => keeps_ret _) w hd hmeets'
  | healthCheck maxAutoRestarts =>
    exact keeps_bind (keeps_checkAndRecoverInstances maxAutoRestarts) (fun _ => keeps_ret _)
      w hd hmeets'

/-- Restoring jobs of different names makes the map hold exactly these, over what it held. -/
theorem addJobs_spec (configs : List ScheduleConfig)
    (hnodup : (configs.map ScheduleConfig.name).Nodup)
    (hvalid : ∀ config ∈ configs, validCron config.cron = true)
    (hmeets : Meets (answerAlone validCron) AddHolds (addJobs configs) w) :
    let d := (runOn (answerAlone validCron) (addJobs configs) w).2.2
    d.store = w.2.store ∧ (∀ config ∈ configs, d.cron.getConfig config.name = some config) ∧
      ∀ name, (∀ config ∈ configs, config.name ≠ name) →
        d.cron.getConfig name = w.2.cron.getConfig name := by
  induction configs generalizing w with
  | nil => exact ⟨rfl, fun _ h => absurd h List.not_mem_nil, fun _ _ => rfl⟩
  | cons config rest ih =>
    rw [List.map_cons, List.nodup_cons] at hnodup
    obtain ⟨hnew, hnodup'⟩ := hnodup
    obtain ⟨hfault, hrest⟩ := hmeets
    have hadded : (answerAlone validCron (.cron (.addJob config)) w).2.2.cron =
        w.2.cron.added config := by
      show (w.2.cron.addJob validCron (w.1 0).fault config).2 = _
      have hfault' : (w.1 0).fault = none := hfault
      rw [hfault', addJob_ok (hvalid config List.mem_cons_self)]
    obtain ⟨hstore, hthere, hothers⟩ := ih hnodup'
      (fun config' h => hvalid config' (List.mem_cons_of_mem _ h)) hrest
    have hhead : ∀ config' ∈ rest, config'.name ≠ config.name := by
      intro config' hconfig' heq
      exact hnew (heq ▸ List.mem_map_of_mem hconfig')
    refine ⟨hstore, fun config' hconfig' => ?_, fun name hname => ?_⟩
    · rcases List.mem_cons.mp hconfig' with rfl | hconfig'
      · refine (hothers _ hhead).trans ?_
        rw [hadded, getConfig_added, if_pos rfl]
      · exact hthere config' hconfig'
    · refine (hothers name fun config' h => hname config' (List.mem_cons_of_mem _ h)).trans ?_
      rw [hadded, getConfig_added, if_neg (Ne.symm (hname config List.mem_cons_self))]

/-- What holds between the events of a run. -/
def Restored (validCron : String → Bool) (d : AppState) : Prop :=
  (d.serving = true → Agree d) ∧
    ∀ name config, d.store.cronJobs.lookup name = some config → validCron config.cron = true

/-- A start that comes through has the jobs of the store in the map. -/
theorem restoreJobs_spec (outside : Nat → Outside)
    (hvalid : ∀ config ∈ d.store.cronJobs.values, validCron config.cron = true)
    (hmeets : Meets (answerAlone validCron) AddHolds restoreJobs (outside, d.reboot)) :
    let r := runOn (answerAlone validCron) restoreJobs (outside, d.reboot)
    r.2.2.store = d.store ∧
      (r.1.isOk = true → ∀ name, r.2.2.cron.getConfig name = d.store.cronJobs.lookup name) := by
  have hkept :
      (runOn (answerAlone validCron) (onStore .listCronJobs) (outside, d.reboot)).2.2.store =
        d.store := by
    show (d.store.listCronJobs (outside 0).txn).2 = d.store
    exact transact_same id rfl
  unfold restoreJobs at hmeets ⊢
  dsimp only at hmeets ⊢
  replace hmeets := (meets_bind.mp hmeets).2
  rw [runOn_bind]
  cases htxn : (outside 0).txn with
  | some stage =>
    have hread : (runOn (answerAlone validCron) (onStore .listCronJobs) (outside, d.reboot)).1 =
        .error ((readTexts "cron_jobs" "Failed to iterate cron_jobs table"
          "Failed to read cron job entry").error stage) := by
      show (d.store.listCronJobs (outside 0).txn).1 = _
      rw [htxn]
      rfl
    rw [hread]
    refine ⟨hkept, fun h => ?_⟩
    cases h
  | none =>
    have hread : (runOn (answerAlone validCron) (onStore .listCronJobs) (outside, d.reboot)).1 =
        .ok d.store.cronJobs.values := by
      show (d.store.listCronJobs (outside 0).txn).1 = _
      rw [htxn]
      rfl
    rw [hread] at hmeets ⊢
    dsimp only at hmeets ⊢
    have hnodup : (d.store.cronJobs.values.map ScheduleConfig.name).Nodup := by
      rw [Records.map_key_values]
      exact d.store.cronJobs.table.nodup_keys
    obtain ⟨hstore, hthere, hothers⟩ := addJobs_spec _ hnodup hvalid (meets_bind.mp hmeets).1
    rw [runOn_bind]
    refine ⟨hstore.trans hkept, fun _ name => ?_⟩
    cases hlookup : d.store.cronJobs.lookup name with
    | some config =>
      have hname : config.name = name := Records.key_of_lookup hlookup
      have hmem : config ∈ d.store.cronJobs.values :=
        Records.mem_values_iff_lookup.mpr (hname.symm ▸ hlookup)
      rw [← hname]
      exact hthere config hmem
    | none =>
      refine hothers name fun config hconfig heq => ?_
      have hlookup' := Records.mem_values_iff_lookup.mp hconfig
      rw [heq, hlookup] at hlookup'
      cases hlookup'

theorem restored_restart (outside : Nat → Outside) (hd : Restored validCron d)
    (hmeets : Meets (answerAlone validCron) AddHolds restoreJobs (outside, d.reboot)) :
    Restored validCron (step validCron d (.restart outside)) := by
  have hvalid : ∀ config ∈ d.store.cronJobs.values, validCron config.cron = true :=
    fun config h => hd.2 config.name config (Records.mem_values_iff_lookup.mp h)
  obtain ⟨hstore, hagree⟩ := restoreJobs_spec outside hvalid hmeets
  refine ⟨fun hserving name => ?_, fun name config hconfig => ?_⟩
  · exact (hagree hserving name).trans (congrArg (fun s => s.cronJobs.lookup name) hstore.symm)
  · have hlookup := congrArg (fun s => s.cronJobs.lookup name) hstore
    exact hd.2 name config (hlookup.symm.trans hconfig)

theorem restored_step {d : AppState} {e : Event} (hd : Restored validCron d)
    (he : WritesGoThrough validCron d e) :
    AtomicCall validCron d e ∧ Restored validCron (step validCron d e) := by
  cases e with
  | crash pids => exact ⟨trivial, hd⟩
  | restart outside => exact ⟨trivial, restored_restart outside hd he⟩
  | perform outside activity =>
    constructor
    · intro hserving hchanges
      have hconsistent : Consistent validCron d := ⟨hd.1 hserving, hd.2⟩
      have hatomic := atomic_of_changesJob (w := (outside, d)) hconsistent hchanges (he hserving)
      dsimp only
      revert hatomic
      generalize runOn (answerAlone validCron) activity.program (outside, d) = r
      obtain ⟨result, w⟩ := r
      cases result with
      | ok x => exact fun h => h.agree
      | error e => exact id
    · unfold step
      dsimp only
      split
      · next hserving =>
        have hconsistent : Consistent validCron d := ⟨hd.1 hserving, hd.2⟩
        have hafter := consistent_activity (w := (outside, d)) activity hconsistent (he hserving)
        exact ⟨fun _ => hafter.agree, hafter.valid⟩
      · exact hd

/-- Failures are atomic, and after a success the scheduler and the store agree: in every run from
    the first start of the daemon in which what is done second goes through, each call that
    creates, updates or deletes a job returns a response with both in agreement, or an error with
    the map, the live entries and the store as they were. -/
theorem atomic_throughout (validCron : String → Bool) (events : List Event)
    (h : Along (step validCron) (WritesGoThrough validCron) .off events) :
    Along (step validCron) (AtomicCall validCron) .off events := by
  refine along_of_invariant (Restored validCron) ⟨fun h => ?_, fun name config h => ?_⟩
    (fun _ _ hd he => restored_step hd he) h
  · cases h
  · cases h

/-- The write of a new job fails after the scheduler has taken it. -/
theorem failed_create_leaves_job :
    ¬ Along (step fun _ => true) (AtomicCall fun _ => true) .off
      [.restart fun _ => .calm,
        .perform (fun n => if n = 1 then { Outside.calm with txn := some .finish } else .calm)
          (.cronCreate (dailyJob "backup"))] := by
  rintro ⟨-, hcreate, -⟩
  obtain ⟨hcron, -⟩ := hcreate rfl rfl
  have hlive := congrArg (fun c => c.scheduler.live.length) hcron
  exact absurd hlive (by decide)

/-- A job is created, paused and deleted, while an instance with a job of its own comes and goes. -/
theorem atomic_throughout_one_job :
    Along (step fun _ => true) (AtomicCall fun _ => true) .off
      [.restart fun _ => .calm,
        .perform (fun _ => .calm) (.cronCreate (dailyJob "backup")),
        .perform (fun _ => .calm) (.cronUpdate "backup" (some false)),
        .perform (fun _ => { Outside.calm with schedules := .ok [dailyJob "sync"] })
          (.startInstance ⟨"web", none, some "mik.toml", none, true⟩),
        .perform (fun _ => .calm) (.cronDelete "backup"),
        .perform (fun _ => .calm) (.stopInstance "web")] := by
  refine atomic_throughout _ _ ⟨?_, ?_, ?_, ?_, ?_, ?_, trivial⟩
  · show Meets _ AddHolds restoreJobs _
    decide
  · exact fun _ => by decide
  · exact fun _ => by decide
  · exact fun _ => by decide
  · exact fun _ => by decide
  · exact fun _ => by decide

end Mik.Daemon
