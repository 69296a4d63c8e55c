/-
  Every live process of an instance is the one that its record names.

  The handlers of the instances and the ticks of the health check read the record of an instance,
  look after its processes and write the whole record back, and nothing keeps two of them apart.
  Two requests that start an instance at once both find none and both start a process, of which
  one is recorded; a tick that has found the old process gone goes on to restart an instance that
  has been stopped meanwhile.

  Each of them is right as long as what it has read is up to date (`Undisturbed`): no other task
  has saved the record, or started a process, between its reading the record and its own saving or
  starting. Then, whenever all have finished, there are no orphans, and an instance that was
  stopped last is stopped (`no_orphans_undisturbed`).
-/
import Mik.Daemon.Stages

namespace Mik.Daemon

open Mik.Lib Prog

/-! ## The property -/

/-- The instance has no live process. -/
def Gone (name : String) (d : AppState) : Prop := ∀ p ∈ d.procs, p.owner ≠ name

/-- Every live process of the instance is the one recorded, with the status Running. -/
def NoOrphans (name : String) (d : AppState) : Prop :=
  ∀ p ∈ d.procs, p.owner = name →
    ∃ i, d.store.instances.lookup name = some i ∧ i.status = .running ∧ i.pid = p.pid

/-- The instance is recorded as stopped, and has no live process. -/
def IsStopped (name : String) (d : AppState) : Prop :=
  Gone name d ∧ ∃ i, d.store.instances.lookup name = some i ∧ i.status = .stopped

/-- The tasks of a run, with what they were started for, the actions they have performed and the
    activities that have returned a response, both with the last one first. -/
structure Observed where
  tasks : Tasks
  requests : Nat → Option Activity
  performed : List (Nat × Action)
  completed : List Activity

def Observed.idle (d : AppState) : Observed := ⟨.idle d, fun _ => none, [], []⟩

/-- The activity of a task that has come to a response. -/
def completing : Option Activity → Task (Result Unit) → List Activity
  | some activity, .ret (.ok _) => [activity]
  | _, _ => []

/-- The request is about the instance. -/
def Activity.concerns (name : String) : Activity → Bool
  | .startInstance req => req.name == name
  | .stopInstance name' | .restartInstance name' => name' == name
  | _ => false

/-- The request on the instance that was the last to return a response. -/
def Observed.lastRequest (w : Observed) (name : String) : Option Activity :=
  w.completed.find? fun activity => activity.concerns name

/-- The accesses to the records of instances and to their processes succeed. -/
def Succeeds : (a : Action) → Reply a → Bool
  | .store (.getInstance _), r | .store .listInstances, r | .store (.saveInstance _), r => r.isOk
  | .system (.isRunning _), r | .system (.killInstance _), r => r.isOk
  | .system (.spawnInstance _), r => r.isOk
  | _, _ => true

section

variable (validCron : String → Bool)

def observe (w : Observed) : Traffic → Observed
  | .start i activity =>
    match w.tasks.tasks i with
    | some _ => w
    | none =>
      { w with
        tasks := interleave validCron w.tasks (.start i activity)
        requests := fun j => if j = i then some activity else w.requests j }
  | .advance i outside =>
    match w.tasks.tasks i with
    | some (.act a k) =>
      { w with
        tasks := interleave validCron w.tasks (.advance i outside)
        performed := (i, a) :: w.performed
        completed := completing (w.requests i) (k (answer validCron outside a w.tasks.state).1) ++
          w.completed }
    | _ => { w with tasks := interleave validCron w.tasks (.advance i outside) }

/-- The runs in question: handlers of instances and ticks of the health check, whose accesses
    succeed. -/
def Succeeding (w : Observed) : Traffic → Prop
  | .start _ activity => activity.handlesInstances = true
  | .advance i outside => ∀ a ∈ nextAction w.tasks i,
      Succeeds a (answer validCron outside a w.tasks.state).1 = true

/-- No orphan processes and no resurrection: whenever all tasks of such a run have finished, every
    live process of the instance is the one recorded, and after a stop there is none. -/
def KeepsTrack (name : String) (d : AppState) (ts : List Traffic) : Prop :=
  Along (observe validCron) (Succeeding validCron) (.idle d) ts →
    ∀ pre, pre <+: ts →
      let w := run (observe validCron) (.idle d) pre
      w.tasks.Quiet → NoOrphans name w.tasks.state ∧
        (w.lastRequest name = some (.stopInstance name) → IsStopped name w.tasks.state)

end

theorem tasks_observe (validCron : String → Bool) (w : Observed) (t : Traffic) :
    (observe validCron w t).tasks = interleave validCron w.tasks t := by
  cases t with
  | start i activity =>
    unfold observe
    dsimp only
    split
    · next p hp => exact (Pool.step_spawn_of_some _ hp).symm
    · rfl
  | advance i outside =>
    unfold observe
    dsimp only
    split
    · rfl
    · rfl

/-- To be observed does nothing to a run. -/
theorem tasks_run_observe (validCron : String → Bool) (w : Observed) (ts : List Traffic) :
    (run (observe validCron) w ts).tasks = run (interleave validCron) w.tasks ts := by
  induction ts generalizing w with
  | nil => rfl
  | cons t ts ih =>
    rw [run_cons, run_cons, ih, tasks_observe]

instance instDecidableSucceeding (validCron : String → Bool) (w : Observed) (t : Traffic) :
    Decidable (Succeeding validCron w t) :=
  match t with
  | .start _ activity => inferInstanceAs (Decidable (activity.handlesInstances = true))
  | .advance i outside => inferInstanceAs (Decidable (∀ a ∈ nextAction w.tasks i,
      Succeeds a (answer validCron outside a w.tasks.state).1 = true))

/-! ## The condition -/

/-- The action saves the record of the instance, or starts a process for it. -/
def Touches (name : String) : Action → Bool
  | .store (.saveInstance i) => i.name == name
  | .system (.spawnInstance config) => config.name == name
  | _ => false

/-- The action reads the record of the instance. -/
def Reads (name : String) : Action → Bool
  | .store (.getInstance name') => name' == name
  | .store .listInstances => true
  | _ => false

/-- Task `i` has read the record, and no other task has touched the instance since. -/
def Fresh (name : String) (i : Nat) : List (Nat × Action) → Prop
  | [] => False
  | (j, a) :: rest =>
    (j = i ∧ Reads name a = true) ∨ ((Touches name a = true → j = i) ∧ Fresh name i rest)

instance instDecidableFresh (name : String) (i : Nat) :
    (performed : List (Nat × Action)) → Decidable (Fresh name i performed)
  | [] => isFalse id
  | (_, _) :: rest =>
    @instDecidableOr _ _ _ (@instDecidableAnd _ _ _ (instDecidableFresh name i rest))

/-- A task that touches the instance has read its record after all others have touched it. -/
def Undisturbed (name : String) (w : Observed) : Traffic → Prop
  | .start _ _ => True
  | .advance i _ => ∀ a ∈ nextAction w.tasks i,
      Touches name a = true → Fresh name i w.performed

instance instDecidableUndisturbed (name : String) (w : Observed) (t : Traffic) :
    Decidable (Undisturbed name w t) :=
  match t with
  | .start _ _ => isTrue trivial
  | .advance i _ => inferInstanceAs (Decidable (∀ a ∈ nextAction w.tasks i,
      Touches name a = true → Fresh name i w.performed))

/-! ## What an action does to the instance -/

/-- The record is the same, and there are no new processes. -/
structure Calm (name : String) (d d' : AppState) : Prop where
  record : d'.store.instances.lookup name = d.store.instances.lookup name
  procs : ∀ p ∈ d'.procs, p.owner = name → p ∈ d.procs

section

variable {validCron : String → Bool} {e : Outside} {a : Action} {d d' : AppState} {name : String}

theorem mem_reap {ended : List Nat} {p : Process} (h : p ∈ (d.reap ended).procs) : p ∈ d.procs :=
  (List.mem_filter.mp h).1

theorem calm_answer (h : Touches name a = false) :
    Calm name d (answer validCron e a d).2 := by
  cases a with
  | cron a => exact ⟨rfl, fun _ hp _ => mem_reap hp⟩
  | store a =>
    refine ⟨?_, fun _ hp _ => mem_reap hp⟩
    cases a with
    | saveInstance i =>
      have hname : name ≠ i.name := fun heq => beq_eq_false_iff_ne.mp h heq.symm
      show (d.store.saveInstance e.txn i).2.instances.lookup name = _
      unfold StateStore.saveInstance
      refine transact_same (fun s : StateStore => s.instances.lookup name) ?_
      exact (Records.lookup_put _ _).trans (if_neg hname)
    | saveCronJob config => exact transact_same (fun s : StateStore => s.instances.lookup name) rfl
    | removeCronJob name' => exact transact_same (fun s : StateStore => s.instances.lookup name) rfl
    | listCronJobs => exact transact_same (fun s : StateStore => s.instances.lookup name) rfl
    | getInstance name' => exact transact_same (fun s : StateStore => s.instances.lookup name) rfl
    | listInstances => exact transact_same (fun s : StateStore => s.instances.lookup name) rfl
    | saveJobExecution _ | listJobExecutions _ _ | cleanupJobExecutions _ _ => rfl
  | system a =>
    refine ⟨rfl, fun p hp howner => ?_⟩
    have hmem : p ∈ (answerSystem e a (d.reap e.ended).procs).2 := hp
    cases a with
    | killInstance pid =>
      unfold answerSystem at hmem
      dsimp only at hmem
      split at hmem
      · exact mem_reap hmem
      · split at hmem
        · exact mem_reap (List.mem_filter.mp hmem).1
        · exact mem_reap hmem
    | spawnInstance config =>
      unfold answerSystem at hmem
      dsimp only at hmem
      split at hmem
      · exact mem_reap hmem
      · split at hmem
        · exact mem_reap hmem
        · rcases List.mem_append.mp hmem with hold | hnew
          · exact mem_reap hold
          · rw [List.mem_singleton.mp hnew] at howner
            exact absurd howner (beq_eq_false_iff_ne.mp h)
    | isRunning pid =>
      unfold answerSystem at hmem
      dsimp only at hmem
      split at hmem
      · exact mem_reap hmem
      · exact mem_reap hmem
    | _ => exact mem_reap hmem

theorem save_answer {i : Instance}
    (h : (answer validCron e (.store (.saveInstance i)) d).1 = Except.ok ()) :
    (answer validCron e (.store (.saveInstance i)) d).2.store.instances.lookup i.name = some i ∧
      ∀ p ∈ (answer validCron e (.store (.saveInstance i)) d).2.procs, p ∈ d.procs := by
  refine ⟨?_, fun _ hp => mem_reap hp⟩
  have hreply : (d.store.saveInstance e.txn i).1 = .ok () := h
  show (d.store.saveInstance e.txn i).2.instances.lookup i.name = _
  cases htxn : e.txn with
  | some stage =>
    rw [htxn] at hreply
    cases hreply
  | none => exact (Records.lookup_put _ _).trans (if_pos rfl)

theorem spawn_answer {config : SpawnConfig} {pid : Nat}
    (h : (answer validCron e (.system (.spawnInstance config)) d).1 = Except.ok pid) :
    ∀ p ∈ (answer validCron e (.system (.spawnInstance config)) d).2.procs,
      p ∈ d.procs ∨ p = ⟨pid, config.name⟩ := by
  intro p hp
  have hreply : (answerSystem e (.spawnInstance config) (d.reap e.ended).procs).1 = .ok pid := h
  have hmem : p ∈ (answerSystem e (.spawnInstance config) (d.reap e.ended).procs).2 := hp
  unfold answerSystem at hreply hmem
  dsimp only at hreply hmem
  split at hreply
  · cases hreply
  · next hfault =>
    rw [hfault] at hmem
    dsimp only at hmem
    split at hreply
    · cases hreply
    · next hfree =>
      obtain rfl : e.pid = pid := Except.ok.inj hreply
      rw [if_neg hfree] at hmem
      exact (List.mem_append.mp hmem).imp mem_reap List.mem_singleton.mp

theorem isRunning_answer {pid : Nat}
    (h : (answer validCron e (.system (.isRunning pid)) d).1 = Except.ok false) :
    ∀ p ∈ (answer validCron e (.system (.isRunning pid)) d).2.procs, p.pid ≠ pid := by
  intro p hp hpid
  have hreply : (answerSystem e (.isRunning pid) (d.reap e.ended).procs).1 = .ok false := h
  have hmem : p ∈ (answerSystem e (.isRunning pid) (d.reap e.ended).procs).2 := hp
  unfold answerSystem at hreply hmem
  dsimp only at hreply hmem
  split at hreply
  · cases hreply
  · next hfault =>
    rw [hfault] at hmem
    have hnone := List.any_eq_false.mp (Except.ok.inj hreply) p hmem
    exact hnone (beq_iff_eq.mpr hpid)

theorem kill_answer {pid : Nat}
    (h : (answer validCron e (.system (.killInstance pid)) d).1 = Except.ok ()) :
    ∀ p ∈ (answer validCron e (.system (.killInstance pid)) d).2.procs, p.pid ≠ pid := by
  intro p hp
  have hreply : (answerSystem e (.killInstance pid) (d.reap e.ended).procs).1 = .ok () := h
  have hmem : p ∈ (answerSystem e (.killInstance pid) (d.reap e.ended).procs).2 := hp
  unfold answerSystem at hreply hmem
  dsimp only at hreply hmem
  split at hreply
  · cases hreply
  · next hfault =>
    rw [hfault] at hmem
    dsimp only at hmem
    split at hreply
    · next hany =>
      rw [if_pos hany] at hmem
      exact of_decide_eq_true (List.mem_filter.mp hmem).2
    · cases hreply

theorem get_answer {name' : String} {record : Option Instance}
    (h : (answer validCron e (.store (.getInstance name')) d).1 = Except.ok record) :
    d.store.instances.lookup name' = record := by
  have hreply : (d.store.getInstance e.txn name').1 = .ok record := h
  cases htxn : e.txn with
  | some stage =>
    rw [htxn] at hreply
    cases hreply
  | none =>
    rw [htxn] at hreply
    exact Except.ok.inj hreply

theorem list_answer {instances : List Instance}
    (h : (answer validCron e (.store .listInstances) d).1 = Except.ok instances) :
    d.store.instances.values = instances := by
  have hreply : (d.store.listInstances e.txn).1 = .ok instances := h
  cases htxn : e.txn with
  | some stage =>
    rw [htxn] at hreply
    cases hreply
  | none =>
    rw [htxn] at hreply
    exact Except.ok.inj hreply

/-- What succeeds is granted. -/
theorem granted_answer (h : Succeeds a (answer validCron e a d).1 = true) :
    Granted a (answer validCron e a d).1 := by
  have hok : ∀ {α : Type} {r : Except String α}, r.isOk = true → ∃ x, r = .ok x := by
    intro α r hr
    cases r with
    | error e => cases hr
    | ok x => exact ⟨x, rfl⟩
  cases a with
  | cron a => trivial
  | store a =>
    cases a with
    | getInstance name' =>
      obtain ⟨record, hrecord⟩ := hok h
      refine ⟨record, hrecord, fun i hi => Records.key_of_lookup ((get_answer hrecord).trans hi)⟩
    | listInstances =>
      obtain ⟨instances, hinstances⟩ := hok h
      refine ⟨instances, hinstances, ?_⟩
      rw [← list_answer hinstances, Records.map_key_values]
      exact d.store.instances.table.nodup_keys
    | saveInstance i => exact (hok h).choose_spec
    | _ => trivial
  | system a =>
    cases a with
    | isRunning pid => exact hok h
    | killInstance pid => exact (hok h).choose_spec
    | spawnInstance config => exact hok h
    | _ => trivial

end

/-! ## What the stages tell -/

/-- The only live process of the instance, if there is one. -/
def OnlyProcess (name : String) (pid : Nat) (d : AppState) : Prop :=
  ∀ p ∈ d.procs, p.owner = name → p.pid = pid

def NotStopped (name : String) (d : AppState) : Prop :=
  ∀ i, d.store.instances.lookup name = some i → i.status ≠ .stopped

/-- What a task knows at a stage if what it has read is up to date, and no other task has started
    a process that is not recorded yet. -/
def Facts (name : String) (d : AppState) : Stage → Prop
  | .idle | .saved | .halted => True
  | .read i => d.store.instances.lookup name = some i
  | .clear => Gone name d
  | .spawned pid => OnlyProcess name pid d
  | .listed i => d.store.instances.lookup name = some i ∧ i.status = .running
  | .dead => Gone name d ∧ NotStopped name d
  | .respawned pid => OnlyProcess name pid d ∧ NotStopped name d

section

variable {validCron : String → Bool} {e : Outside} {a : Action} {d d' : AppState} {name : String}
  {stage : Stage} {pid : Nat}

theorem Gone.calm (h : Gone name d) (hcalm : Calm name d d') : Gone name d' :=
  fun p hp howner => h p (hcalm.procs p hp howner) howner

theorem OnlyProcess.calm (h : OnlyProcess name pid d) (hcalm : Calm name d d') :
    OnlyProcess name pid d' := fun p hp howner => h p (hcalm.procs p hp howner) howner

theorem NotStopped.calm (h : NotStopped name d) (hcalm : Calm name d d') : NotStopped name d' :=
  fun i hi => h i (hcalm.record.symm.trans hi)

theorem NoOrphans.calm (h : NoOrphans name d) (hcalm : Calm name d d') : NoOrphans name d' := by
  intro p hp howner
  rw [hcalm.record]
  exact h p (hcalm.procs p hp howner) howner

theorem IsStopped.calm (h : IsStopped name d) (hcalm : Calm name d d') : IsStopped name d' := by
  refine ⟨h.1.calm hcalm, ?_⟩
  rw [hcalm.record]
  exact h.2

theorem Facts.calm (h : Facts name d stage) (hcalm : Calm name d d') : Facts name d' stage := by
  cases stage with
  | idle | saved | halted => trivial
  | read i => exact hcalm.record.trans h
  | clear => exact Gone.calm h hcalm
  | spawned pid => exact OnlyProcess.calm h hcalm
  | listed i => exact ⟨hcalm.record.trans h.1, h.2⟩
  | dead => exact ⟨h.1.calm hcalm, h.2.calm hcalm⟩
  | respawned pid => exact ⟨h.1.calm hcalm, h.2.calm hcalm⟩

/-- When the recorded process is gone, all are. -/
theorem gone_of_recorded {i : Instance} (h : NoOrphans name d)
    (hrecord : d.store.instances.lookup name = some i) (hcalm : Calm name d d')
    (hgone : ∀ p ∈ d'.procs, p.pid ≠ i.pid) : Gone name d' := by
  intro p hp howner
  obtain ⟨i', hi', -, hpid⟩ := h p (hcalm.procs p hp howner) howner
  obtain rfl : i = i' := Option.some.inj (hrecord.symm.trans hi')
  exact hgone p hp hpid.symm

/-- Without a running record there are no processes. -/
theorem gone_of_notRunning (h : NoOrphans name d)
    (hrecord : ∀ i, d.store.instances.lookup name = some i → i.status ≠ .running) :
    Gone name d := by
  intro p hp howner
  obtain ⟨i, hi, hrun, -⟩ := h p hp howner
  exact hrecord i hi hrun

theorem facts_afterGone (hfacts : Facts name d stage)
    (horphans : ¬ stage.Unrecorded → NoOrphans name d) (hcalm : Calm name d d')
    (hgone : ∀ p ∈ d'.procs, p.pid ≠ pid) : Facts name d' (stage.afterGone pid) := by
  cases stage with
  | read i =>
    show Facts name d' (if i.pid = pid then .clear else .read i)
    split
    · next hpid =>
      rw [← hpid] at hgone
      exact gone_of_recorded (horphans id) hfacts hcalm hgone
    · exact hfacts.calm hcalm
  | listed i =>
    show Facts name d' (if i.pid = pid then .dead else .listed i)
    split
    · next hpid =>
      rw [← hpid] at hgone
      refine ⟨gone_of_recorded (horphans id) hfacts.1 hcalm hgone, fun i' hi' => ?_⟩
      have hsame := (hfacts.calm hcalm).1.symm.trans hi'
      rw [← Option.some.inj hsame, hfacts.2]
      exact fun h => by cases h
    · exact hfacts.calm hcalm
  | _ => exact hfacts.calm hcalm

theorem facts_afterRead {record : Option Instance} (horphans : NoOrphans name d)
    (hrecord : d.store.instances.lookup name = record) (hcalm : Calm name d d') :
    Facts name d' (.afterRead record) := by
  have hclear : (∀ i, record = some i → i.status ≠ .running) → Gone name d' := by
    refine fun hnot => (gone_of_notRunning horphans fun i hi => ?_).calm hcalm
    exact hnot i (hrecord.symm.trans hi)
  cases record with
  | none => exact hclear fun i hi => by cases hi
  | some i =>
    show Facts name d' (if i.status = .running then .read i else .clear)
    split
    · exact hcalm.record.trans hrecord
    · next hrun =>
      refine hclear fun i' hi' => ?_
      rw [← Option.some.inj hi']
      exact hrun

theorem facts_afterSave {i : Instance} (hsaves : stage.Saves i) (hfacts : Facts name d stage)
    (hrecord : d'.store.instances.lookup name = some i) (hprocs : ∀ p ∈ d'.procs, p ∈ d.procs) :
    Facts name d' stage.afterSave := by
  cases stage with
  | clear => trivial
  | spawned pid => trivial
  | respawned pid => trivial
  | dead =>
    refine ⟨fun p hp => hfacts.1 p (hprocs p hp), fun i' hi' => ?_⟩
    rw [← Option.some.inj (hrecord.symm.trans hi')]
    exact hsaves
  | _ => exact hsaves.elim

/-- What the task knows after an action of its own. -/
theorem facts_next (hgranted : Granted a (answer validCron e a d).1)
    (hallows : stage.Allows name a) (horphans : ¬ stage.Unrecorded → NoOrphans name d)
    (hfacts : Reads name a = false → Facts name d stage) :
    Facts name (answer validCron e a d).2 (stage.next name a (answer validCron e a d).1) := by
  have hquiet : Touches name a = false → Reads name a = false →
      Facts name (answer validCron e a d).2 stage :=
    fun htouch hread => (hfacts hread).calm (calm_answer htouch)
  cases a with
  | cron a => exact hquiet rfl rfl
  | store a =>
    cases a with
    | getInstance name' =>
      obtain ⟨record, hreply, -⟩ := hgranted
      rw [hreply]
      show Facts name _ (if name' = name then .afterRead record else stage)
      split
      · next hname =>
        obtain rfl : stage = .idle := hallows.2 hname
        subst hname
        exact facts_afterRead (horphans id) (get_answer hreply) (calm_answer rfl)
      · next hname => exact hquiet rfl (beq_eq_false_iff_ne.mpr hname)
    | listInstances =>
      obtain ⟨instances, hreply, -⟩ := hgranted
      rw [hreply]
      show Facts name _ (.afterList name instances)
      rcases Stage.afterList_cases name instances with ⟨i, hmem, hfound, heq⟩ | ⟨-, heq⟩
      · rw [heq]
        rw [← list_answer hreply, Records.mem_values_iff_lookup, hfound.1] at hmem
        have hcalm : Calm name d (answer validCron e (.store .listInstances) d).2 :=
          calm_answer rfl
        exact ⟨hcalm.record.trans hmem, hfound.2⟩
      · rw [heq]
        trivial
    | saveInstance i =>
      have hreply : (answer validCron e (.store (.saveInstance i)) d).1 = Except.ok () := hgranted
      rw [hreply]
      show Facts name _ (if i.name = name then stage.afterSave else stage)
      split
      · next hname =>
        subst hname
        obtain ⟨hrecord, hprocs⟩ := save_answer hreply
        exact facts_afterSave (hallows.2 rfl) (hfacts rfl) hrecord hprocs
      · next hname => exact hquiet (beq_eq_false_iff_ne.mpr hname) rfl
    | _ => exact hquiet rfl rfl
  | system a =>
    cases a with
    | isRunning pid =>
      obtain ⟨running, hreply⟩ := hgranted
      rw [hreply]
      cases running with
      | true => exact hquiet rfl rfl
      | false =>
        exact facts_afterGone (hfacts rfl) horphans (calm_answer rfl) (isRunning_answer hreply)
    | killInstance pid =>
      have hreply : (answer validCron e (.system (.killInstance pid)) d).1 = Except.ok () :=
        hgranted
      rw [hreply]
      exact facts_afterGone (hfacts rfl) horphans (calm_answer rfl) (kill_answer hreply)
    | spawnInstance config =>
      obtain ⟨pid, hreply⟩ := hgranted
      rw [hreply]
      show Facts name _ (if config.name = name then stage.afterSpawn pid else stage)
      split
      · next hname =>
        have honly : Gone name d →
            OnlyProcess name pid (answer validCron e (.system (.spawnInstance config)) d).2 := by
          intro hgone p hp howner
          rcases spawn_answer hreply p hp with hold | rfl
          · exact absurd howner (hgone p hold)
          · rfl
        rcases hallows.2 hname with rfl | rfl
        · exact honly (hfacts rfl)
        · exact ⟨honly (hfacts rfl).1, (hfacts rfl).2⟩
      · next hname => exact hquiet (beq_eq_false_iff_ne.mpr hname) rfl
    | _ => exact hquiet rfl rfl

theorem touches_cases (h : Touches name a = true) :
    (∃ i, a = .store (.saveInstance i) ∧ i.name = name) ∨
      ∃ config, a = .system (.spawnInstance config) ∧ config.name = name := by
  unfold Touches at h
  split at h
  · next i => exact Or.inl ⟨i, rfl, beq_iff_eq.mp h⟩
  · next config => exact Or.inr ⟨config, rfl, beq_iff_eq.mp h⟩
  · cases h

/-- A process was started, whether it is recorded or not. -/
def Stage.Started : Stage → Prop
  | spawned _ | saved | respawned _ => True
  | _ => False

theorem Stage.Unrecorded.started (h : stage.Unrecorded) : stage.Started := by
  cases stage with
  | spawned pid | respawned pid => trivial
  | _ => exact h.elim

/-- Then the stage only changes when the process is recorded, and the record is not read again. -/
theorem next_started (hstage : stage.Started) (hallows : stage.Allows name a)
    (htouch : Touches name a = false) (r : Reply a) :
    stage.next name a r = stage ∧ Reads name a = false := by
  have hidle : stage ≠ .idle := by
    rintro rfl
    exact hstage
  have hgone : ∀ pid, stage.afterGone pid = stage := by
    intro pid
    cases stage with
    | read i | listed i => exact hstage.elim
    | _ => rfl
  cases a with
  | cron a => exact ⟨rfl, rfl⟩
  | store a =>
    cases a with
    | getInstance name' =>
      have hname : name' ≠ name := fun h => hidle (hallows.2 h)
      refine ⟨?_, beq_eq_false_iff_ne.mpr hname⟩
      cases r with
      | error e => rfl
      | ok record => exact if_neg hname
    | listInstances => exact absurd hallows.2 hidle
    | saveInstance i =>
      refine ⟨?_, rfl⟩
      cases r with
      | error e => rfl
      | ok _ => exact if_neg (beq_eq_false_iff_ne.mp htouch)
    | _ => exact ⟨rfl, rfl⟩
  | system a =>
    cases a with
    | isRunning pid =>
      refine ⟨?_, rfl⟩
      cases r with
      | error e => rfl
      | ok running =>
        cases running with
        | true => rfl
        | false => exact hgone pid
    | killInstance pid =>
      refine ⟨?_, rfl⟩
      cases r with
      | error e => rfl
      | ok _ => exact hgone pid
    | spawnInstance config =>
      refine ⟨?_, rfl⟩
      cases r with
      | error e => rfl
      | ok pid => exact if_neg (beq_eq_false_iff_ne.mp htouch)
    | _ => exact ⟨rfl, rfl⟩

/-- There are no orphans after an action of a task, unless it has to record a process. -/
theorem noOrphans_next (hgranted : Granted a (answer validCron e a d).1)
    (hallows : stage.Allows name a) (horphans : ¬ stage.Unrecorded → NoOrphans name d)
    (hfacts : Touches name a = true → Facts name d stage)
    (hrecorded : ¬ (stage.next name a (answer validCron e a d).1).Unrecorded) :
    NoOrphans name (answer validCron e a d).2 := by
  cases htouch : Touches name a with
  | false =>
    refine (horphans fun h => hrecorded ?_).calm (calm_answer htouch)
    rw [(next_started h.started hallows htouch _).1]
    exact h
  | true =>
    replace hfacts := hfacts htouch
    rcases touches_cases htouch with ⟨i, rfl, hname⟩ | ⟨config, rfl, hname⟩
    · have hreply : (answer validCron e (.store (.saveInstance i)) d).1 = Except.ok () := hgranted
      have hsaves : stage.Saves i := hallows.2 hname
      obtain ⟨hrecord, hprocs⟩ := save_answer hreply
      rw [hname] at hrecord
      -- Nothing lives but what is recorded now.
      have honly : ∀ pid, i.status = .running ∧ i.pid = pid → OnlyProcess name pid d →
          NoOrphans name (answer validCron e (.store (.saveInstance i)) d).2 := by
        rintro pid ⟨hrun, rfl⟩ h p hp howner
        exact ⟨i, hrecord, hrun, (h p (hprocs p hp) howner).symm⟩
      have hgone : Gone name d →
          NoOrphans name (answer validCron e (.store (.saveInstance i)) d).2 :=
        fun h p hp howner => absurd howner (h p (hprocs p hp))
      cases stage with
      | clear => exact hgone hfacts
      | dead => exact hgone hfacts.1
      | spawned pid => exact honly pid hsaves hfacts
      | respawned pid => exact honly pid hsaves hfacts.1
      | _ => exact hsaves.elim
    · obtain ⟨pid, hreply⟩ := hgranted
      rw [hreply] at hrecorded
      have hnext : stage.next name (.system (.spawnInstance config)) (.ok pid) =
          stage.afterSpawn pid := if_pos hname
      rw [hnext] at hrecorded
      rcases hallows.2 hname with rfl | rfl
      · exact absurd trivial hrecorded
      · exact absurd trivial hrecorded

/-- What has halted has saved its record once the process was gone. -/
theorem next_halted {r : Reply a} (hstage : stage ≠ .halted)
    (h : stage.next name a r = .halted) :
    ∃ i, a = .store (.saveInstance i) ∧ i.name = name ∧ stage = .clear := by
  have hgone : ∀ pid, stage.afterGone pid ≠ .halted := by
    intro pid hpid
    unfold Stage.afterGone at hpid
    split at hpid
    · split at hpid
      · cases hpid
      · cases hpid
    · split at hpid
      · cases hpid
      · cases hpid
    · exact hstage hpid
  unfold Stage.next at h
  split at h
  · next record =>
    split at h
    · cases record with
      | none => cases h
      | some i =>
        unfold Stage.afterRead at h
        dsimp only at h
        split at h
        · cases h
        · cases h
    · exact absurd h hstage
  · unfold Stage.afterList at h
    split at h
    · cases h
    · cases h
  · next i _ =>
    split at h
    · next hname =>
      refine ⟨i, rfl, hname, ?_⟩
      cases stage with
      | clear => rfl
      | halted => exact absurd rfl hstage
      | _ => cases h
    · exact absurd h hstage
  · exact absurd h (hgone _)
  · exact absurd h (hgone _)
  · split at h
    · cases stage with
      | halted => exact absurd rfl hstage
      | _ => cases h
    · exact absurd h hstage
  · exact absurd h hstage

/-- A stop that comes to its end has recorded that the instance is stopped. -/
theorem isStopped_next (hgranted : Granted a (answer validCron e a d).1)
    (hallows : stage.Allows name a)
    (hhalted : stage.next name a (answer validCron e a d).1 = .halted) :
    Touches name a = true ∧ (Facts name d stage → IsStopped name (answer validCron e a d).2) := by
  obtain ⟨i, rfl, hname, rfl⟩ := next_halted hallows.1 hhalted
  refine ⟨beq_iff_eq.mpr hname, fun hgone => ?_⟩
  have hreply : (answer validCron e (.store (.saveInstance i)) d).1 = Except.ok () := hgranted
  obtain ⟨hrecord, hprocs⟩ := save_answer hreply
  rw [hname] at hrecord
  have hstatus : i.status = .stopped := hallows.2 hname
  exact ⟨fun p hp => hgone p (hprocs p hp), i, hrecord, hstatus⟩

end

/-! ## The invariant -/

/-- Every process that another task has started is recorded. -/
def OthersRecorded (q : Nat → Progress) (i : Nat) : Prop :=
  ∀ j, j ≠ i → ¬ (q j).stage.Unrecorded

/-- A request that has started the instance again has not come to its response, or a tick has
    started it and will not get to record it. -/
def StartsAgain (name : String) (w : Observed) (q : Nat → Progress) : Prop :=
  (∃ j a k, w.tasks.tasks j = some (.act a k) ∧
    ((∃ pid, (q j).stage = .spawned pid) ∨ (q j).stage = .saved)) ∨
  ∃ j pid, (q j).stage = .respawned pid ∧ ¬ Fresh name j w.performed

/-- What holds of the tasks, which are as far as `q` says, and of the daemon. -/
structure Accounted (name : String) (w : Observed) (q : Nat → Progress) : Prop where
  obeying : Pool.Obeying (handling name) Granted (fun q x => Ends name q x.isOk) w.tasks q
  requests : ∀ i p, w.tasks.tasks i = some p → w.requests i = some (q i).activity
  recorded : ∀ i, w.tasks.tasks i = none → ¬ (q i).stage.Unrecorded
  facts : ∀ i, Fresh name i w.performed → OthersRecorded q i →
    Facts name w.tasks.state (q i).stage
  noOrphans : (∀ i, ¬ (q i).stage.Unrecorded) → NoOrphans name w.tasks.state
  stopped : w.lastRequest name = some (.stopInstance name) →
    IsStopped name w.tasks.state ∨ StartsAgain name w q

section

variable {validCron : String → Bool} {name : String} {w w' : Observed} {q q' : Nat → Progress}
  {i : Nat} {e : Outside} {a : Action} {k : Reply a → Task (Result Unit)}

theorem observe_start (activity : Activity) (h : w.tasks.tasks i = none) :
    observe validCron w (.start i activity) =
      { w with
        tasks := interleave validCron w.tasks (.start i activity)
        requests := fun j => if j = i then some activity else w.requests j } := by
  unfold observe
  dsimp only
  rw [h]

theorem observe_taken (activity : Activity) {p : Task (Result Unit)}
    (h : w.tasks.tasks i = some p) : observe validCron w (.start i activity) = w := by
  unfold observe
  dsimp only
  rw [h]

theorem observe_gone (h : w.tasks.tasks i = none) :
    observe validCron w (.advance i e) =
      { w with tasks := interleave validCron w.tasks (.advance i e) } := by
  unfold observe
  dsimp only
  rw [h]

theorem observe_ret {x : Result Unit} (h : w.tasks.tasks i = some (.ret x)) :
    observe validCron w (.advance i e) =
      { w with tasks := interleave validCron w.tasks (.advance i e) } := by
  unfold observe
  dsimp only
  rw [h]

theorem observe_act (h : w.tasks.tasks i = some (.act a k)) :
    observe validCron w (.advance i e) =
      { w with
        tasks := interleave validCron w.tasks (.advance i e)
        performed := (i, a) :: w.performed
        completed := completing (w.requests i) (k (answer validCron e a w.tasks.state).1) ++
          w.completed } := by
  unfold observe
  dsimp only
  rw [h]

/-- A process that a task of the pool has yet to record, and cannot any more once another one has
    touched the instance. -/
theorem startsAgain_of_unrecorded (h : Accounted name w q) {j : Nat} (hj : j ≠ i)
    (hunrecorded : (q j).stage.Unrecorded) (htouch : Touches name a = true)
    (htasks : w'.tasks.tasks j = w.tasks.tasks j) (hq : q' j = q j)
    (hperformed : w'.performed = (i, a) :: w.performed) : StartsAgain name w' q' := by
  cases hstage : (q j).stage with
  | spawned pid =>
    cases hp : w.tasks.tasks j with
    | none => exact absurd hunrecorded (h.recorded j hp)
    | some p =>
      cases p with
      | ret x =>
        have hends : Ends name (q j) x.isOk := h.obeying j _ hp
        exact absurd hunrecorded hends.recorded
      | act a' k' => exact Or.inl ⟨j, a', k', htasks.trans hp, Or.inl ⟨pid, by rw [hq, hstage]⟩⟩
  | respawned pid =>
    refine Or.inr ⟨j, pid, by rw [hq, hstage], ?_⟩
    rw [hperformed]
    rintro (⟨hij, -⟩ | ⟨hij, -⟩)
    · exact hj hij.symm
    · exact hj (hij htouch).symm
  | _ =>
    rw [hstage] at hunrecorded
    exact hunrecorded.elim

/-- Who else has started the instance again still has, after an action of task `i`. -/
theorem startsAgain_of_other (h : StartsAgain name w q)
    (hnot : ¬ (q i).stage.Started ∨ Fresh name i w.performed ∧ ∃ pid, (q i).stage = .respawned pid)
    (htasks : ∀ j, j ≠ i → w'.tasks.tasks j = w.tasks.tasks j) (hq : ∀ j, j ≠ i → q' j = q j)
    (hperformed : w'.performed = (i, a) :: w.performed) : StartsAgain name w' q' := by
  have hstarted : ∀ pid, (q i).stage ≠ .spawned pid ∧ (q i).stage ≠ .saved := by
    intro pid
    rcases hnot with hnot | ⟨-, pid', hstage⟩
    · refine ⟨fun hstage => hnot ?_, fun hstage => hnot ?_⟩
      · rw [hstage]
        trivial
      · rw [hstage]
        trivial
    · rw [hstage]
      exact ⟨(fun h => by cases h), fun h => by cases h⟩
  rcases h with ⟨j, a', k', hp, hstage⟩ | ⟨j, pid, hstage, hstale⟩
  · have hj : j ≠ i := by
      rintro rfl
      rcases hstage with ⟨pid, hstage⟩ | hstage
      · exact (hstarted pid).1 hstage
      · exact (hstarted 0).2 hstage
    refine Or.inl ⟨j, a', k', (htasks j hj).trans hp, ?_⟩
    rw [hq j hj]
    exact hstage
  · have hj : j ≠ i := by
      rintro rfl
      rcases hnot with hnot | ⟨hfresh, -⟩
      · rw [hstage] at hnot
        exact hnot trivial
      · exact hstale hfresh
    refine Or.inr ⟨j, pid, ?_, ?_⟩
    · rw [hq j hj]
      exact hstage
    · rw [hperformed]
      rintro (⟨hij, -⟩ | ⟨-, hfresh⟩)
      · exact hj hij.symm
      · exact hstale hfresh

theorem Accounted.noOrphans_of_others (h : Accounted name w q) (hothers : OthersRecorded q i)
    (hrecorded : ¬ (q i).stage.Unrecorded) : NoOrphans name w.tasks.state := by
  refine h.noOrphans fun j => ?_
  by_cases hj : j = i
  · rw [hj]
    exact hrecorded
  · exact hothers j hj

theorem concerns_of_revives {activity : Activity} (h : activity.revives name = true) :
    activity.concerns name = true := by
  cases activity with
  | startInstance req => exact h
  | restartInstance name' => exact h
  | _ => cases h

/-- What is different when task `i` has performed its next action. -/
structure Performs (validCron : String → Bool) (name : String) (w w' : Observed)
    (q q' : Nat → Progress) (i : Nat) (e : Outside) (a : Action)
    (k : Reply a → Task (Result Unit)) : Prop where
  task : w.tasks.tasks i = some (.act a k)
  next : w'.tasks.tasks i = some (k (answer validCron e a w.tasks.state).1)
  others : ∀ j, j ≠ i → w'.tasks.tasks j = w.tasks.tasks j
  state : w'.tasks.state = (answer validCron e a w.tasks.state).2
  requests : w'.requests = w.requests
  performed : w'.performed = (i, a) :: w.performed
  completed : w'.completed =
    completing (w.requests i) (k (answer validCron e a w.tasks.state).1) ++ w.completed
  progress : q' i =
    ⟨(q i).activity, (q i).stage.next name a (answer validCron e a w.tasks.state).1⟩
  rest : ∀ j, j ≠ i → q' j = q j
  granted : Granted a (answer validCron e a w.tasks.state).1
  fresh : Touches name a = true → Fresh name i w.performed

namespace Performs

variable (hstep : Performs validCron name w w' q q' i e a k)
include hstep

theorem allows (h : Accounted name w q) : (q i).stage.Allows name a :=
  (h.obeying i _ hstep.task).1

theorem othersRecorded_iff : OthersRecorded q' i ↔ OthersRecorded q i := by
  constructor
  · intro h j hj
    rw [← hstep.rest j hj]
    exact h j hj
  · intro h j hj
    rw [hstep.rest j hj]
    exact h j hj

/-- What the task knows when it touches the instance. -/
theorem known (h : Accounted name w q) (hothers : OthersRecorded q i)
    (htouch : Touches name a = true) : Facts name w.tasks.state (q i).stage :=
  h.facts i (hstep.fresh htouch) hothers

theorem facts (h : Accounted name w q) (j : Nat) (hfresh : Fresh name j w'.performed)
    (hothers : OthersRecorded q' j) : Facts name w'.tasks.state (q' j).stage := by
  rw [hstep.performed] at hfresh
  rw [hstep.state]
  by_cases hj : j = i
  · rw [hj] at hfresh hothers ⊢
    rw [hstep.othersRecorded_iff] at hothers
    rw [hstep.progress]
    refine facts_next hstep.granted (hstep.allows h) (h.noOrphans_of_others hothers) ?_
    intro hread
    rcases hfresh with ⟨-, hread'⟩ | ⟨-, hfresh⟩
    · rw [hread] at hread'
      cases hread'
    · exact h.facts i hfresh hothers
  · rcases hfresh with ⟨hij, -⟩ | ⟨hij, hfresh⟩
    · exact absurd hij.symm hj
    · have htouch : Touches name a = false := Bool.eq_false_iff.mpr fun ht => hj (hij ht).symm
      rw [hstep.rest j hj]
      refine (h.facts j hfresh fun l hl => ?_).calm (calm_answer htouch)
      have hafter := hothers l hl
      by_cases hl' : l = i
      · rw [hl', hstep.progress] at hafter
        rw [hl']
        intro hunrecorded
        rw [(next_started hunrecorded.started (hstep.allows h) htouch _).1] at hafter
        exact hafter hunrecorded
      · rw [hstep.rest l hl'] at hafter
        exact hafter

theorem noOrphans (h : Accounted name w q) (hrecorded : ∀ j, ¬ (q' j).stage.Unrecorded) :
    NoOrphans name w'.tasks.state := by
  have hothers : OthersRecorded q i := hstep.othersRecorded_iff.mp fun j _ => hrecorded j
  rw [hstep.state]
  refine noOrphans_next hstep.granted (hstep.allows h) (h.noOrphans_of_others hothers)
    (hstep.known h hothers) ?_
  have hi := hrecorded i
  rw [hstep.progress] at hi
  exact hi

/-- If another task has yet to record a process, it will not be able to. -/
theorem startsAgain_of_not (h : Accounted name w q) (hothers : ¬ OthersRecorded q i)
    (htouch : Touches name a = true) : StartsAgain name w' q' := by
  obtain ⟨j, hother⟩ := not_forall.mp hothers
  obtain ⟨hj, hunrecorded⟩ := Classical.not_imp.mp hother
  exact startsAgain_of_unrecorded h hj (not_not.mp hunrecorded) htouch (hstep.others j hj)
    (hstep.rest j hj) hstep.performed

theorem obeys (h : Accounted name w q) :
    (k (answer validCron e a w.tasks.state).1).Obeys (handling name) Granted
      (fun q x => Ends name q x.isOk) (q' i) := by
  rw [hstep.progress]
  exact (h.obeying i _ hstep.task).2 _ hstep.granted

/-- The task has not ended, or with what the protocol says. -/
theorem ends (h : Accounted name w q) :
    (∃ a' k', w'.tasks.tasks i = some (.act a' k')) ∨
      ∃ x, k (answer validCron e a w.tasks.state).1 = .ret x ∧ Ends name (q' i) x.isOk := by
  have hobeys := hstep.obeys h
  have hnext := hstep.next
  cases hk : k (answer validCron e a w.tasks.state).1 with
  | act a' k' =>
    rw [hk] at hnext
    exact Or.inl ⟨a', k', hnext⟩
  | ret x =>
    rw [hk] at hobeys
    exact Or.inr ⟨x, rfl, hobeys⟩

/-- Either the task has come to the response of a request on the instance, or the last such
    request is still the same. A task that has recorded a process it was to start is of the first
    kind, or has not ended. -/
theorem lastRequest_cases (h : Accounted name w q) :
    (∃ ok, ok = true ∧ Ends name (q' i) ok ∧ w'.lastRequest name = some (q' i).activity) ∨
      w'.lastRequest name = w.lastRequest name ∧
        ((q' i).stage = .saved → ∃ a' k', w'.tasks.tasks i = some (.act a' k')) := by
  have hcompleted := hstep.completed
  rw [h.requests i _ hstep.task] at hcompleted
  have hactivity : (q' i).activity = (q i).activity := by rw [hstep.progress]
  unfold Observed.lastRequest
  rw [hcompleted]
  rcases hstep.ends h with ⟨a', k', hact⟩ | ⟨x, hret, hends⟩
  · refine Or.inr ⟨?_, fun _ => ⟨a', k', hact⟩⟩
    rw [hstep.next] at hact
    rw [Option.some.inj hact]
    rfl
  · rw [hret]
    cases x with
    | error error =>
      refine Or.inr ⟨rfl, fun hsaved => ?_⟩
      cases (hends.revived hsaved).1
    | ok u =>
      have hcons : completing (some (q i).activity) (.ret (.ok u)) ++ w.completed =
          (q i).activity :: w.completed := rfl
      rw [hcons]
      cases hconcerns : (q i).activity.concerns name with
      | true =>
        refine Or.inl ⟨true, rfl, hends, ?_⟩
        rw [List.find?_cons_of_pos hconcerns, hactivity]
      | false =>
        refine Or.inr ⟨List.find?_cons_of_neg (Bool.eq_false_iff.mp hconcerns), fun hsaved => ?_⟩
        have hrevives := (hends.revived hsaved).2
        rw [hactivity] at hrevives
        rw [concerns_of_revives hrevives] at hconcerns
        cases hconcerns

/-- The stop that the request was is recorded. -/
theorem stopped_of_halted (h : Accounted name w q) (hhalted : (q' i).stage = .halted) :
    IsStopped name w'.tasks.state ∨ StartsAgain name w' q' := by
  rw [hstep.progress] at hhalted
  obtain ⟨htouch, hstopped⟩ := isStopped_next hstep.granted (hstep.allows h) hhalted
  by_cases hothers : OthersRecorded q i
  · left
    rw [hstep.state]
    exact hstopped (hstep.known h hothers htouch)
  · exact Or.inr (hstep.startsAgain_of_not h hothers htouch)

/-- An action that does not touch the instance leaves it to who is at it. -/
theorem stopped_of_untouched (h : Accounted name w q) (htouch : Touches name a = false)
    (hsaved : (q' i).stage = .saved → ∃ a' k', w'.tasks.tasks i = some (.act a' k'))
    (hprev : IsStopped name w.tasks.state ∨ StartsAgain name w q) :
    IsStopped name w'.tasks.state ∨ StartsAgain name w' q' := by
  rcases hprev with hprev | hprev
  · left
    rw [hstep.state]
    exact hprev.calm (calm_answer htouch)
  · right
    by_cases hstarted : (q i).stage.Started
    swap
    · exact startsAgain_of_other hprev (Or.inl hstarted) hstep.others hstep.rest hstep.performed
    obtain ⟨hnext, hread⟩ := next_started hstarted (hstep.allows h) htouch
      (answer validCron e a w.tasks.state).1
    have hsame : ∀ j, (q' j).stage = (q j).stage := by
      intro j
      by_cases hj : j = i
      · rw [hj, hstep.progress]
        exact hnext
      · rw [hstep.rest j hj]
    rcases hprev with ⟨j, a', k', hp, hstage⟩ | ⟨j, pid, hstage, hstale⟩
    · by_cases hj : j = i
      · rw [hj, ← hsame] at hstage
        have hact : ∃ a' k', w'.tasks.tasks i = some (.act a' k') := by
          rcases hstage with ⟨pid, hstage⟩ | hstage
          · refine (hstep.ends h).resolve_right ?_
            rintro ⟨x, -, hends⟩
            apply hends.recorded
            rw [hstage]
            trivial
          · exact hsaved hstage
        obtain ⟨a'', k'', hact⟩ := hact
        exact Or.inl ⟨i, a'', k'', hact, hstage⟩
      · refine Or.inl ⟨j, a', k', (hstep.others j hj).trans hp, ?_⟩
        rw [hsame]
        exact hstage
    · refine Or.inr ⟨j, pid, (hsame j).trans hstage, ?_⟩
      rw [hstep.performed]
      rintro (⟨-, hread'⟩ | ⟨-, hfresh⟩)
      · rw [hread] at hread'
        cases hread'
      · exact hstale hfresh

/-- An action that touches the instance either comes from a request that starts it again, or
    finds it not stopped. -/
theorem stopped_of_touched (h : Accounted name w q) (htouch : Touches name a = true)
    (hsaved : (q' i).stage = .saved → ∃ a' k', w'.tasks.tasks i = some (.act a' k'))
    (hprev : IsStopped name w.tasks.state ∨ StartsAgain name w q) :
    IsStopped name w'.tasks.state ∨ StartsAgain name w' q' := by
  by_cases hothers : OthersRecorded q i
  swap
  · exact Or.inr (hstep.startsAgain_of_not h hothers htouch)
  have hallows := hstep.allows h
  have hfacts := hstep.known h hothers htouch
  have hprogress := hstep.progress
  -- A tick has read a record that is not one of a stopped instance.
  have htick : NotStopped name w.tasks.state → ¬ (q i).stage.Started ∨
        Fresh name i w.performed ∧ (∃ pid, (q i).stage = .respawned pid) →
      IsStopped name w'.tasks.state ∨ StartsAgain name w' q' := by
    intro hnot hstage
    rcases hprev with ⟨-, i', hi', hstopped⟩ | hprev
    · exact absurd hstopped (hnot i' hi')
    · exact Or.inr (startsAgain_of_other hprev hstage hstep.others hstep.rest hstep.performed)
  have hspawned : ∀ pid, (q' i).stage = .spawned pid →
      IsStopped name w'.tasks.state ∨ StartsAgain name w' q' := by
    intro pid hstage
    have hact := (hstep.ends h).resolve_right (by
      rintro ⟨x, -, hends⟩
      apply hends.recorded
      rw [hstage]
      trivial)
    obtain ⟨a', k', hact⟩ := hact
    exact Or.inr (Or.inl ⟨i, a', k', hact, Or.inl ⟨pid, hstage⟩⟩)
  cases hstage : (q i).stage with
  | clear =>
    rcases touches_cases htouch with ⟨i', rfl, hname⟩ | ⟨config, rfl, hname⟩
    · apply hstep.stopped_of_halted h
      have hreply : (answer validCron e (.store (.saveInstance i')) w.tasks.state).1 =
        Except.ok () := hstep.granted
      rw [hprogress, hreply, hstage]
      exact if_pos hname
    · obtain ⟨pid, hreply⟩ := hstep.granted
      apply hspawned pid
      rw [hprogress, hreply, hstage]
      exact if_pos hname
  | spawned pid =>
    rcases touches_cases htouch with ⟨i', rfl, hname⟩ | ⟨config, rfl, hname⟩
    · have hreply : (answer validCron e (.store (.saveInstance i')) w.tasks.state).1 =
        Except.ok () := hstep.granted
      have hafter : (q' i).stage = .saved := by
        rw [hprogress, hreply, hstage]
        exact if_pos hname
      obtain ⟨a', k', hact⟩ := hsaved hafter
      exact Or.inr (Or.inl ⟨i, a', k', hact, Or.inr hafter⟩)
    · rw [hstage] at hallows
      rcases hallows.2 hname with hnot | hnot
      · cases hnot
      · cases hnot
  | dead =>
    rw [hstage] at hfacts
    refine htick hfacts.2 (Or.inl ?_)
    rw [hstage]
    exact id
  | respawned pid =>
    rw [hstage] at hfacts
    exact htick hfacts.2 (Or.inr ⟨hstep.fresh htouch, pid, hstage⟩)
  | _ =>
    rw [hstage] at hallows
    rcases touches_cases htouch with ⟨i', rfl, hname⟩ | ⟨config, rfl, hname⟩
    · exact (hallows.2 hname).elim
    · rcases hallows.2 hname with hnot | hnot
      · cases hnot
      · cases hnot

theorem stopped (h : Accounted name w q)
    (hlast : w'.lastRequest name = some (.stopInstance name)) :
    IsStopped name w'.tasks.state ∨ StartsAgain name w' q' := by
  rcases hstep.lastRequest_cases h with ⟨ok, hok, hends, hrequest⟩ | ⟨hsame, hsaved⟩
  · rw [hlast] at hrequest
    exact hstep.stopped_of_halted h (hends.stopped hok (Option.some.inj hrequest).symm)
  · have hprev := h.stopped (hsame.symm.trans hlast)
    cases htouch : Touches name a with
    | false => exact hstep.stopped_of_untouched h htouch hsaved hprev
    | true => exact hstep.stopped_of_touched h htouch hsaved hprev

end Performs

/-- An action of a task keeps the invariant. -/
theorem Accounted.act (h : Accounted name w q) (hi : w.tasks.tasks i = some (.act a k))
    (hgranted : Granted a (answer validCron e a w.tasks.state).1)
    (hfresh : Touches name a = true → Fresh name i w.performed) :
    ∃ q', Accounted name (observe validCron w (.advance i e)) q' := by
  have hpool : interleave validCron w.tasks (.advance i e) =
      { tasks := fun j => if j = i then some (k (answer validCron e a w.tasks.state).1)
          else w.tasks.tasks j
        state := (answer validCron e a w.tasks.state).2 } := Pool.step_advance_act _ hi
  have hobey := h.obeying.step (answer validCron) (q i) (.advance i e)
    (fun _ _ hm => by cases hm) fun i' e' a' k' hm hact => by
      cases hm
      rw [hi] at hact
      cases hact
      exact hgranted
  rw [Pool.track_advance_act _ _ hi] at hobey
  rw [observe_act hi]
  have hstep : Performs validCron name w { w with
      tasks := interleave validCron w.tasks (.advance i e)
      performed := (i, a) :: w.performed
      completed := completing (w.requests i) (k (answer validCron e a w.tasks.state).1) ++
        w.completed } q (fun j => if j = i then
          ⟨(q i).activity, (q i).stage.next name a (answer validCron e a w.tasks.state).1⟩
        else q j) i e a k := by
    refine ⟨hi, ?_, fun j hj => ?_, ?_, rfl, rfl, rfl, if_pos rfl, fun j hj => if_neg hj, hgranted,
      hfresh⟩
    · rw [hpool]
      exact if_pos rfl
    · rw [hpool]
      exact if_neg hj
    · rw [hpool]
  refine ⟨_, hobey, fun j p hp => ?_, fun j hp => ?_, hstep.facts h, hstep.noOrphans h,
    hstep.stopped h⟩
  · rw [hpool] at hp
    dsimp only at hp ⊢
    by_cases hj : j = i
    · rw [if_pos hj, hj]
      exact h.requests i _ hi
    · rw [if_neg hj] at hp ⊢
      exact h.requests j p hp
  · rw [hpool] at hp
    dsimp only at hp ⊢
    by_cases hj : j = i
    · rw [if_pos hj] at hp
      cases hp
    · rw [if_neg hj] at hp ⊢
      exact h.recorded j hp

/-- A new task has read nothing yet. -/
theorem Accounted.start (h : Accounted name w q) (hi : w.tasks.tasks i = none)
    {activity : Activity} (hactivity : activity.handlesInstances = true) :
    ∃ q', Accounted name (observe validCron w (.start i activity)) q' := by
  have hpool : interleave validCron w.tasks (.start i activity) =
      { w.tasks with
        tasks := fun j => if j = i then some activity.program else w.tasks.tasks j } :=
    Pool.step_spawn_of_none _ hi
  have hobey := h.obeying.step (answer validCron) ⟨activity, .idle⟩ (.spawn i activity.program)
    (fun _ _ hm => by
      cases hm
      exact obeys_activity hactivity)
    (fun _ _ _ _ hm => by cases hm)
  rw [Pool.track_spawn_of_none _ _ hi] at hobey
  rw [observe_start activity hi]
  have hunrecorded : ∀ j, (if j = i then (⟨activity, .idle⟩ : Progress) else q j).stage.Unrecorded ↔
      (q j).stage.Unrecorded := by
    intro j
    by_cases hj : j = i
    · rw [if_pos hj, hj]
      exact ⟨fun h => h.elim, fun hq => absurd hq (h.recorded i hi)⟩
    · rw [if_neg hj]
  refine ⟨_, hobey, fun j p hp => ?_, fun j hp => ?_, fun j hfresh hothers => ?_, fun hall => ?_,
    fun hlast => ?_⟩
  · rw [hpool] at hp
    dsimp only at hp ⊢
    by_cases hj : j = i
    · rw [if_pos hj, if_pos hj]
    · rw [if_neg hj] at hp
      rw [if_neg hj, if_neg hj]
      exact h.requests j p hp
  · rw [hpool] at hp
    dsimp only at hp ⊢
    by_cases hj : j = i
    · rw [if_pos hj] at hp
      cases hp
    · rw [if_neg hj] at hp
      rw [hunrecorded]
      exact h.recorded j hp
  · rw [hpool]
    dsimp only
    by_cases hj : j = i
    · rw [if_pos hj]
      trivial
    · rw [if_neg hj]
      exact h.facts j hfresh fun l hl hq => hothers l hl ((hunrecorded l).mpr hq)
  · rw [hpool]
    exact h.noOrphans fun j hq => hall j ((hunrecorded j).mpr hq)
  · have hne : ∀ {j p}, w.tasks.tasks j = some p → j ≠ i := by
      rintro j p hp rfl
      rw [hi] at hp
      cases hp
    rw [hpool]
    refine (h.stopped hlast).imp id fun hstarts => ?_
    rcases hstarts with ⟨j, a', k', hp, hstage⟩ | ⟨j, pid, hstage, hstale⟩
    · refine Or.inl ⟨j, a', k', ?_, ?_⟩
      · exact (if_neg (hne hp)).trans hp
      · dsimp only
        rw [if_neg (hne hp)]
        exact hstage
    · refine Or.inr ⟨j, pid, ?_, hstale⟩
      dsimp only
      have hj : j ≠ i := by
        rintro rfl
        apply h.recorded j hi
        rw [hstage]
        trivial
      rw [if_neg hj]
      exact hstage

/-- A task that has ended leaves no process unrecorded. -/
theorem Accounted.ret (h : Accounted name w q) {x : Result Unit}
    (hi : w.tasks.tasks i = some (.ret x)) :
    Accounted name (observe validCron w (.advance i e)) q := by
  have hpool : interleave validCron w.tasks (.advance i e) =
      { w.tasks with tasks := fun j => if j = i then none else w.tasks.tasks j } :=
    Pool.step_advance_ret _ hi
  have hobey := h.obeying.step (answer validCron) (q i) (.advance i e)
    (fun _ _ hm => by cases hm) fun i' e' a' k' hm hact => by
      cases hm
      rw [hi] at hact
      cases hact
  rw [Pool.track_advance_ret _ _ hi] at hobey
  rw [observe_ret hi]
  refine ⟨hobey, fun j p hp => ?_, fun j hp => ?_, ?_, ?_, fun hlast => ?_⟩
  · rw [hpool] at hp
    dsimp only at hp
    by_cases hj : j = i
    · rw [if_pos hj] at hp
      cases hp
    · rw [if_neg hj] at hp
      exact h.requests j p hp
  · by_cases hj : j = i
    · have hends : Ends name (q i) x.isOk := h.obeying i _ hi
      rw [hj]
      exact hends.recorded
    · rw [hpool] at hp
      dsimp only at hp
      rw [if_neg hj] at hp
      exact h.recorded j hp
  · rw [hpool]
    exact h.facts
  · rw [hpool]
    exact h.noOrphans
  · rw [hpool]
    refine (h.stopped hlast).imp id fun hstarts => hstarts.imp_left ?_
    rintro ⟨j, a', k', hp, hstage⟩
    have hj : j ≠ i := by
      rintro rfl
      rw [hi] at hp
      cases hp
    exact ⟨j, a', k', (if_neg hj).trans hp, hstage⟩

/-- Every move of these runs keeps the invariant. -/
theorem Accounted.step (h : Accounted name w q) (t : Traffic) (hok : Succeeding validCron w t)
    (hfresh : Undisturbed name w t) : ∃ q', Accounted name (observe validCron w t) q' := by
  cases t with
  | start i activity =>
    cases hi : w.tasks.tasks i with
    | none => exact h.start hi hok
    | some p =>
      rw [observe_taken activity hi]
      exact ⟨q, h⟩
  | advance i e =>
    cases hi : w.tasks.tasks i with
    | none =>
      have hpool : interleave validCron w.tasks (.advance i e) = w.tasks :=
        Pool.step_advance_of_none _ hi
      rw [observe_gone hi, hpool]
      exact ⟨q, h⟩
    | some p =>
      cases p with
      | ret x => exact ⟨q, h.ret hi⟩
      | act a k =>
        have hnext : a ∈ nextAction w.tasks i := by
          unfold nextAction
          rw [hi]
          rfl
        exact h.act hi (granted_answer (hok a hnext)) (hfresh a hnext)

theorem Accounted.run {ts : List Traffic} (h : Accounted name w q)
    (hok : Along (observe validCron) (Succeeding validCron) w ts)
    (hfresh : Along (observe validCron) (Undisturbed name) w ts) :
    ∃ q', Accounted name (Lib.run (observe validCron) w ts) q' := by
  induction ts generalizing w q with
  | nil => exact ⟨q, h⟩
  | cons t ts ih =>
    obtain ⟨q', h'⟩ := h.step t hok.1 hfresh.1
    exact ih h' hok.2 hfresh.2

theorem Accounted.idle {d : AppState} (h : NoOrphans name d) :
    Accounted name (.idle d) fun _ => ⟨.healthCheck 0, .idle⟩ where
  obeying i p hp := by cases hp
  requests i p hp := by cases hp
  recorded i hp hstage := hstage
  facts i hfresh := hfresh.elim
  noOrphans _ := h
  stopped hlast := by cases hlast

/-- When all tasks have finished, every process that was started is recorded. -/
theorem Accounted.recorded_of_quiet (h : Accounted name w q) (hquiet : w.tasks.Quiet) (i : Nat) :
    ¬ (q i).stage.Unrecorded := by
  cases hi : w.tasks.tasks i with
  | none => exact h.recorded i hi
  | some p =>
    obtain ⟨x, rfl⟩ := hquiet i p hi
    have hends : Ends name (q i) x.isOk := h.obeying i _ hi
    exact hends.recorded

end

/-! ## Runs -/

/-- No orphan processes and no resurrection, in every run in which no task touches the instance
    after another one has touched it since its reading of the record. -/
theorem no_orphans_undisturbed (validCron : String → Bool) (name : String) (d : AppState)
    (h0 : NoOrphans name d) (ts : List Traffic)
    (hfresh : Along (observe validCron) (Undisturbed name) (.idle d) ts) :
    KeepsTrack validCron name d ts := by
  intro hok pre hpre w hquiet
  obtain ⟨q, h⟩ := (Accounted.idle h0).run (along_upto hok hpre) (along_upto hfresh hpre)
  have hrecorded := h.recorded_of_quiet hquiet
  refine ⟨h.noOrphans hrecorded, fun hlast => (h.stopped hlast).resolve_right ?_⟩
  rintro (⟨j, a, k, hp, -⟩ | ⟨j, pid, hstage, -⟩)
  · obtain ⟨x, hx⟩ := hquiet j _ hp
    cases hx
  · apply hrecorded j
    rw [hstage]
    trivial

/-! ## Tasks in each other's way -/

/-- A request to start the instance `web`. -/
def startWeb : Activity := .startInstance {
  name := "web"
  port := none
  config := some "/srv/mik.toml"
  workingDir := some "/srv"
  autoRestart := true }

/-- The next action of a task, with the process id `pid` if it starts a process. -/
def nextOf (i pid : Nat) : Traffic := .advance i { Outside.calm with pid := pid }

/-- Two requests that go on in turns, both from the reading of the record on. -/
def twoStarts : List Traffic :=
  .start 0 startWeb :: .start 1 startWeb :: (List.replicate 7 [nextOf 0 1, nextOf 1 2]).flatten

/-- Both start a process, and the first one is lost. -/
theorem two_starts_orphan : ¬ KeepsTrack (fun _ => true) "web" .empty twoStarts := by
  intro h
  have hquiet : (run (observe fun _ => true) (.idle .empty) twoStarts).tasks.Quiet := by
    rw [tasks_run_observe]
    exact quiet_of_indices (l := [0, 1]) (by decide) (by decide)
  obtain ⟨horphans, -⟩ := h (by decide) twoStarts List.prefix_rfl hquiet
  obtain ⟨i, hi, -, hpid⟩ := horphans ⟨1, "web"⟩ (by decide) rfl
  have hrecord : ((run (observe fun _ => true) (.idle .empty)
      twoStarts).tasks.state.store.instances.lookup "web").map Instance.pid = some 2 := by
    decide
  rw [hi, Option.map_some, hpid] at hrecord
  cases hrecord

/-- A start, and then a stop while a tick looks on. -/
def startThenStop : List Traffic :=
  .start 0 startWeb :: List.replicate 7 (nextOf 0 1) ++
    .start 1 (.healthCheck 10) :: .start 2 (.stopInstance "web") ::
      [2, 1, 1, 2, 2, 2, 2, 2, 1].map (nextOf · 2)

theorem no_orphans_start_stop :
    IsStopped "web" (run (observe fun _ => true) (.idle .empty) startThenStop).tasks.state := by
  have hquiet : (run (observe fun _ => true) (.idle .empty) startThenStop).tasks.Quiet := by
    rw [tasks_run_observe]
    exact quiet_of_indices (l := [0, 1, 2]) (by decide) (by decide)
  have hkeeps := no_orphans_undisturbed (fun _ => true) "web" .empty
    (fun p hp => absurd hp List.not_mem_nil) startThenStop (by decide)
  exact (hkeeps (by decide) _ List.prefix_rfl hquiet).2 rfl

end Mik.Daemon
