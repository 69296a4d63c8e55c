/-
  Auto-restart of crashed instances (`src/daemon/http/mod.rs`).

  A tick of the health check looks at instances whose status is Running only. When it finds the
  process of one dead it saves the status Crashed first and asks about the backoff and starts the
  new process after that. So an instance whose backoff has not passed by then, or whose new process
  could not be started or recorded, stays Crashed, and no later tick looks at it again
  (`lost_forever`).

  What is due is done as long as no tick gets into this: one that finds the process dead comes
  after the backoff, and what it does succeeds (`due_restarts_attempted`).
-/
import Mik.Daemon.Handlers

namespace Mik.Daemon

open Mik.Lib Prog

/-! ## The property -/

/-- Some action of the trace starts a process for the instance. -/
def Attempts (name : String) (trace : List (Prog.Event Action Reply)) : Prop :=
  ∃ ev ∈ trace, ∃ config, ev.1 = .system (.spawnInstance config) ∧ config.name = name

section

variable (validCron : String → Bool) (maxAutoRestarts : Nat)

/-- Where a tick is when the turn of the instance comes. -/
def turnOf (name : String) (w : World) : World :=
  let r := runOn (answerAlone validCron) (onStore .listInstances) w
  match r.1 with
  | .error _ => r.2
  | .ok instances =>
    (runOn (answerAlone validCron) (checkAndRecoverEach maxAutoRestarts
      (instances.takeWhile fun i => i.name ≠ name)) r.2).2

/-- The process of the instance is dead when the tick looks at it. -/
def FoundDead (i : Instance) (w : World) : Prop :=
  ¬ (w.2.reap (w.1 0).ended).alive i.pid

/-- The new process starts, and is recorded. -/
def RestartHolds (a : Action) (w : World) : Prop :=
  match a with
  | .system (.spawnInstance _) =>
    (w.1 0).fault = none ∧ ¬ (w.2.reap (w.1 0).ended).alive (w.1 0).pid
  | .store (.saveInstance i) => i.status = .running → (w.1 0).txn = none
  | _ => True

instance instDecidableRestartHolds (a : Action) (w : World) : Decidable (RestartHolds a w) :=
  match a with
  | .system (.spawnInstance _) => inferInstanceAs (Decidable (_ = none ∧ ¬ (_ = true)))
  | .store (.saveInstance _) => inferInstanceAs (Decidable (_ = Status.running → _ = none))
  | .system (.isRunning _) | .system (.killInstance _) | .system (.fileExists _)
  | .system .currentDir | .system (.parseSchedules _) | .system .now | .system .newUuid
  | .system (.executeWasmModule _) => isTrue trivial
  | .store (.saveCronJob _) | .store (.removeCronJob _) | .store .listCronJobs
  | .store (.getInstance _) | .store .listInstances | .store (.saveJobExecution _)
  | .store (.listJobExecutions _ _) | .store (.cleanupJobExecutions _ _) => isTrue trivial
  | .cron _ => isTrue trivial

end

/-- Health checks and crashes, and nothing else. -/
def Unattended (maxAutoRestarts : Nat) : Event → Prop
  | .perform _ (.healthCheck maxAutoRestarts') => maxAutoRestarts' = maxAutoRestarts
  | .crash _ => True
  | _ => False

/-! ## The backoff -/

section

variable {validCron : String → Bool} {maxAutoRestarts : Nat} {i : Instance} {name : String}
  {w : World} {d : AppState}

theorem instances_saveInstance (txn : Option TxnStage) (s : StateStore) (i : Instance)
    (name : String) :
    (s.saveInstance txn i).2.instances.lookup name =
      if txn = none ∧ name = i.name then some i else s.instances.lookup name := by
  cases txn with
  | some stage => rfl
  | none =>
    show (s.instances.put i).lookup name = _
    rw [Records.lookup_put]
    by_cases hname : name = i.name
    · rw [if_pos hname, if_pos ⟨rfl, hname⟩]
    · rw [if_neg hname, if_neg fun h => hname h.2]

/-- The record of the instance `name`. -/
def record (name : String) (w : World) : Option Instance := w.2.store.instances.lookup name

/-- What the check of the instance `name` may do: ask the system, start a process for the
    instance, and save its record. -/
def OwnAction (name : String) (a : Action) : Prop :=
  match a with
  | .system (.spawnInstance config) => config.name = name
  | .system _ => True
  | .store (.saveInstance i) => i.name = name
  | _ => False

/-- A task that does nothing but what the check of the instance `name` may do. -/
abbrev Own {α : Type} (name : String) (p : Task α) : Prop :=
  p.Within (fun _ _ => True) (OwnAction name) fun _ => True

theorem own_bind {α β : Type} {p : Task α} {f : α → Task β} (hp : Own name p)
    (hf : ∀ x, Own name (f x)) : Own name (p >>= f) := Within.bind hp fun x _ => hf x

theorem own_ret {α : Type} (x : α) : Own name (ret x : Task α) := trivial

theorem own_onSystem {a : SystemAction} (h : OwnAction name (.system a)) :
    Own name (onSystem a) := ⟨h, fun _ _ => trivial⟩

theorem own_save {i : Instance} (h : i.name = name) : Own name (onStore (.saveInstance i)) :=
  ⟨h, fun _ _ => trivial⟩

theorem own_check (maxAutoRestarts : Nat) (i : Instance) :
    Own i.name (checkAndRecoverSingleInstance maxAutoRestarts i) := by
  have hspawn : Own i.name (spawnAndSaveRestartedInstance i) := by
    refine own_bind (own_onSystem rfl) fun r => ?_
    match r with
    | .error e => exact own_ret _
    | .ok pid =>
      refine own_bind (own_onSystem trivial) fun startedAt => ?_
      refine own_bind (own_onSystem trivial) fun restartedAt => ?_
      exact own_bind (own_save rfl) fun _ => own_ret _
  have hattempt : Own i.name (attemptAutoRestart maxAutoRestarts i) := by
    unfold attemptAutoRestart
    split
    · exact own_ret _
    · refine own_bind ?_ fun now => ?_
      · unfold shouldRestartNow
        split
        · exact own_ret _
        · exact own_bind (own_onSystem trivial) fun _ => own_ret _
      · split
        · exact hspawn
        · exact own_ret _
  unfold checkAndRecoverSingleInstance
  split
  · refine own_bind (own_onSystem trivial) fun r => ?_
    match r with
    | .error e => exact own_ret _
    | .ok true => exact own_ret _
    | .ok false =>
      refine own_bind (own_save rfl) fun r => ?_
      match r with
      | .error e => exact own_ret _
      | .ok _ =>
        dsimp only
        split
        · exact hattempt
        · exact own_ret _
  · exact own_ret _

/-- The check of an instance leaves the records of the others alone. -/
theorem leaves_check (hname : i.name ≠ name) :
    Leaves (answerAlone validCron) (record name)
      (checkAndRecoverSingleInstance maxAutoRestarts i) := by
  refine Leaves.of_within (own_check maxAutoRestarts i) fun a w ha => ?_
  cases a with
  | cron a => exact ha.elim
  | system a => rfl
  | store a =>
    cases a with
    | saveInstance i' =>
      have hi' : i'.name = i.name := ha
      show (w.2.store.saveInstance (w.1 0).txn i').2.instances.lookup name = _
      rw [instances_saveInstance, if_neg fun h => hname (hi'.symm.trans h.2.symm)]
      rfl
    | _ => exact ha.elim

theorem leaves_checkEach {instances : List Instance} (hnames : ∀ i ∈ instances, i.name ≠ name) :
    Leaves (answerAlone validCron) (record name)
      (checkAndRecoverEach maxAutoRestarts instances) := by
  induction instances with
  | nil => exact Leaves.ret _
  | cons i rest ih =>
    refine Leaves.bind (leaves_check (hnames i List.mem_cons_self)) fun _ => ?_
    exact ih fun i' h => hnames i' (List.mem_cons_of_mem _ h)

/-! ### The check at its turn -/

/-- The world after the process was looked for. -/
def afterLook (validCron : String → Bool) (i : Instance) (w : World) : World :=
  (runOn (answerAlone validCron) (onSystem (.isRunning i.pid)) w).2

theorem look_reply (validCron : String → Bool) (i : Instance) (w : World) :
    (runOn (answerAlone validCron) (onSystem (.isRunning i.pid)) w).1 =
      match (w.1 0).fault with
      | some text => .error text
      | none => .ok ((w.2.reap (w.1 0).ended).alive i.pid) := by
  show (answerSystem (w.1 0) (.isRunning i.pid) (w.2.reap (w.1 0).ended).procs).1 = _
  unfold answerSystem
  cases (w.1 0).fault with
  | none => rfl
  | some text => rfl

/-- A check that does not get to save a crash leaves the store alone. -/
theorem check_unmarked (h : i.status = .running → (w.1 0).fault = none → FoundDead i w →
      (w.1 1).txn ≠ none) :
    (runOn (answerAlone validCron) (checkAndRecoverSingleInstance maxAutoRestarts i) w).2.2.store =
      w.2.store := by
  unfold checkAndRecoverSingleInstance
  split
  · next hrun =>
    have hreply := look_reply validCron i w
    rw [runOn_bind]
    cases hfault : (w.1 0).fault with
    | some text =>
      rw [hfault] at hreply
      rw [hreply]
      rfl
    | none =>
      rw [hfault] at hreply
      cases halive : (w.2.reap (w.1 0).ended).alive i.pid with
      | true =>
        rw [halive] at hreply
        rw [hreply]
        rfl
      | false =>
        rw [halive] at hreply
        rw [hreply]
        obtain ⟨stage, hstage⟩ := Option.ne_none_iff_exists'.mp
          (h hrun hfault (Bool.eq_false_iff.mp halive))
        -- The crash could not be saved.
        obtain ⟨text, hsave⟩ : ∃ text, ∀ s : StateStore, s.saveInstance (w.1 1).txn
            { i with status := .crashed (-1) } = (.error text, s) := by
          rw [hstage]
          exact ⟨_, fun _ => rfl⟩
        have hfirst : (runOn (answerAlone validCron)
            (onStore (.saveInstance { i with status := .crashed (-1) }))
            (afterLook validCron i w)).1 = .error text := congrArg Prod.fst (hsave w.2.store)
        dsimp only
        unfold handleCrashedInstance
        rw [runOn_bind]
        unfold afterLook at hfirst
        rw [hfirst]
        exact congrArg Prod.snd (hsave w.2.store)
  · rfl

theorem list_reply (validCron : String → Bool) (outside : Nat → Outside) (d : AppState) :
    (runOn (answerAlone validCron) (onStore .listInstances) (outside, d)).1 =
        (d.store.listInstances (outside 0).txn).1 ∧
      (runOn (answerAlone validCron) (onStore .listInstances) (outside, d)).2.2.store =
        d.store := by
  refine ⟨rfl, ?_⟩
  show (d.store.listInstances (outside 0).txn).2 = d.store
  exact transact_same id rfl

/-- A tick that cannot read the instances leaves them alone. -/
theorem tick_unread {outside : Nat → Outside} {stage : TxnStage}
    (htxn : (outside 0).txn = some stage) :
    (runOn (answerAlone validCron) (checkAndRecoverInstances maxAutoRestarts)
      (outside, d)).2.2.store = d.store := by
  obtain ⟨hreply, hstore⟩ := list_reply validCron outside d
  rw [htxn] at hreply
  unfold checkAndRecoverInstances
  rw [runOn_bind, hreply]
  exact hstore

theorem checkEach_append (maxAutoRestarts : Nat) (before after : List Instance) :
    checkAndRecoverEach maxAutoRestarts (before ++ after) =
      checkAndRecoverEach maxAutoRestarts before >>= fun _ =>
        checkAndRecoverEach maxAutoRestarts after := by
  induction before with
  | nil => rfl
  | cons i rest ih =>
    show (checkAndRecoverSingleInstance maxAutoRestarts i >>= fun _ =>
      checkAndRecoverEach maxAutoRestarts (rest ++ after)) = _
    rw [ih]
    exact (Prog.bind_assoc _ _ _).symm

/-- For one instance a tick is its check, at its turn. -/
theorem tick_turn (validCron : String → Bool) (maxAutoRestarts : Nat) {outside : Nat → Outside}
    (htxn : (outside 0).txn = none) (hrecord : d.store.instances.lookup i.name = some i) :
    let w := turnOf validCron maxAutoRestarts i.name (outside, d)
    record i.name w = some i ∧
      record i.name (runOn (answerAlone validCron) (checkAndRecoverInstances maxAutoRestarts)
          (outside, d)).2 =
        record i.name (runOn (answerAlone validCron)
          (checkAndRecoverSingleInstance maxAutoRestarts i) w).2 ∧
      (Attempts i.name (traceOn (answerAlone validCron)
          (checkAndRecoverSingleInstance maxAutoRestarts i) w) →
        Attempts i.name (traceOn (answerAlone validCron)
          (checkAndRecoverInstances maxAutoRestarts) (outside, d))) := by
  obtain ⟨hreply, hstore⟩ := list_reply validCron outside d
  rw [htxn] at hreply
  have hread : (d.store.listInstances none).1 = .ok d.store.instances.values := rfl
  rw [hread] at hreply
  obtain ⟨before, after, hsplit⟩ := List.append_of_mem (Records.mem_values_iff_lookup.mpr hrecord)
  -- The names differ, so the instances before and after it are others.
  have hnodup : (d.store.instances.values.map Instance.name).Nodup := by
    rw [Records.map_key_values]
    exact d.store.instances.table.nodup_keys
  rw [hsplit, List.map_append, List.map_cons, List.nodup_append', List.nodup_cons] at hnodup
  obtain ⟨-, ⟨hafter, -⟩, hdisjoint⟩ := hnodup
  have hbefore' : ∀ i' ∈ before, i'.name ≠ i.name := fun i' h heq =>
    hdisjoint (List.mem_map_of_mem h) (heq ▸ List.mem_cons_self)
  have hafter' : ∀ i' ∈ after, i'.name ≠ i.name := fun i' h heq =>
    hafter (heq ▸ List.mem_map_of_mem h)
  have htake : d.store.instances.values.takeWhile (fun i' => i'.name ≠ i.name) = before := by
    rw [hsplit, List.takeWhile_append_of_pos, List.takeWhile_cons_of_neg, List.append_nil]
    · simp
    · exact fun i' h => decide_eq_true (hbefore' i' h)
  have hturn : turnOf validCron maxAutoRestarts i.name (outside, d) =
      (runOn (answerAlone validCron) (checkAndRecoverEach maxAutoRestarts before)
        (runOn (answerAlone validCron) (onStore .listInstances) (outside, d)).2).2 := by
    unfold turnOf
    dsimp only
    rw [hreply]
    dsimp only
    rw [htake]
  have heach : checkAndRecoverEach maxAutoRestarts (before ++ i :: after) =
      checkAndRecoverEach maxAutoRestarts before >>= fun _ =>
        (checkAndRecoverSingleInstance maxAutoRestarts i >>= fun _ =>
          checkAndRecoverEach maxAutoRestarts after) := checkEach_append _ _ _
  have hprogram : checkAndRecoverInstances maxAutoRestarts =
      (onStore .listInstances >>= fun
        | .error _ => ret ()
        | .ok instances => checkAndRecoverEach maxAutoRestarts instances) := rfl
  dsimp only
  rw [hturn]
  refine ⟨?_, ?_, ?_⟩
  · rw [leaves_checkEach hbefore']
    unfold record
    rw [hstore, hrecord]
  · rw [hprogram, runOn_bind, hreply]
    dsimp only
    rw [hsplit, heach, runOn_bind, runOn_bind, leaves_checkEach hafter']
  · rintro ⟨ev, hev, hspawn⟩
    refine ⟨ev, ?_, hspawn⟩
    rw [hprogram, traceOn_bind, hreply]
    dsimp only
    rw [hsplit, heach, traceOn_bind, traceOn_bind]
    exact List.mem_append_right _ (List.mem_append_right _ (List.mem_append_left _ hev))

end

/-! ## Runs -/

section

variable {validCron : String → Bool} {maxAutoRestarts : Nat} {name : String} {d : AppState}
  {outside : Nat → Outside}

/-- The record of an instance that a tick leaves. -/
theorem record_step (hserving : d.serving = true) (name : String) :
    (step validCron d (.perform outside (.healthCheck maxAutoRestarts))).store.instances.lookup
        name =
      record name (runOn (answerAlone validCron) (checkAndRecoverInstances maxAutoRestarts)
        (outside, d)).2 := by
  unfold step
  dsimp only
  rw [if_pos hserving]
  have hprogram : (Activity.healthCheck maxAutoRestarts).program =
      (checkAndRecoverInstances maxAutoRestarts >>= fun _ => ret (Except.ok ())) := rfl
  rw [hprogram, runOn_bind]
  rfl

end

/-- A tick starts processes for running instances of the store only. -/
theorem attempts_running (outside : Nat → Outside)
    (h : Attempts name (traceOn (answerAlone validCron) (checkAndRecoverInstances maxAutoRestarts)
      (outside, d))) :
    ∃ i, d.store.instances.lookup name = some i ∧ i.status = .running := by
  have heach : ∀ instances : List Instance,
      (checkAndRecoverEach maxAutoRestarts instances).Within (fun _ _ => True)
        (fun a => ∀ config, a = .system (.spawnInstance config) →
          ∃ i ∈ instances, i.name = config.name ∧ i.status = .running) fun _ => True := by
    intro instances
    induction instances with
    | nil => exact trivial
    | cons i rest ih =>
      have hhead : (checkAndRecoverSingleInstance maxAutoRestarts i).Within (fun _ _ => True)
          (fun a => ∀ config, a = .system (.spawnInstance config) →
            ∃ i' ∈ i :: rest, i'.name = config.name ∧ i'.status = .running) fun _ => True := by
        by_cases hrun : i.status = .running
        · refine (own_check maxAutoRestarts i).mono (fun a ha config hconfig => ?_) fun _ h => h
          subst hconfig
          exact ⟨i, List.mem_cons_self, Eq.symm ha, hrun⟩
        · unfold checkAndRecoverSingleInstance
          rw [if_neg hrun]
          exact trivial
      refine Within.bind hhead fun _ _ => ih.mono (fun a ha config hconfig => ?_) fun _ h => h
      obtain ⟨i', hi', hname⟩ := ha config hconfig
      exact ⟨i', List.mem_cons_of_mem _ hi', hname⟩
  obtain ⟨ev, hev, config, hspawn, rfl⟩ := h
  have hprogram : checkAndRecoverInstances maxAutoRestarts =
      (onStore .listInstances >>= fun
        | .error _ => ret ()
        | .ok instances => checkAndRecoverEach maxAutoRestarts instances) := rfl
  rw [hprogram, traceOn_bind, (list_reply validCron outside d).1] at hev
  rcases List.mem_append.mp hev with hev | hev
  · rw [List.mem_singleton.mp hev] at hspawn
    cases hspawn
  · cases htxn : (outside 0).txn with
    | some stage =>
      rw [htxn] at hev
      cases hev
    | none =>
      rw [htxn] at hev
      obtain ⟨i, hi, hname, hrun⟩ := (heach _).of_traceOn ev hev config hspawn
      exact ⟨i, hname ▸ Records.mem_values_iff_lookup.mp hi, hrun⟩

/-- A tick leaves the record of a crashed instance alone. -/
theorem crashed_step {i : Instance} (hi : d.store.instances.lookup i.name = some i)
    (hcrashed : i.status ≠ .running) (outside : Nat → Outside) :
    (step validCron d (.perform outside (.healthCheck maxAutoRestarts))).store.instances.lookup
      i.name = some i := by
  by_cases hserving : d.serving = true
  · rw [record_step hserving]
    cases htxn : (outside 0).txn with
    | some stage =>
      unfold record
      rw [tick_unread htxn, hi]
    | none =>
      obtain ⟨hturn, hafter, -⟩ := tick_turn validCron maxAutoRestarts htxn hi
      rw [hafter]
      unfold record at hturn ⊢
      rw [check_unmarked, hturn]
      exact fun hrun => absurd hrun hcrashed
  · unfold step
    dsimp only
    rw [if_neg hserving, hi]

/-- Once an instance is recorded as crashed, no tick attempts to restart it any more. -/
theorem lost_forever (validCron : String → Bool) (maxAutoRestarts : Nat) (d : AppState)
    {i : Instance} (hi : d.store.instances.lookup i.name = some i) (hcrashed : i.status ≠ .running)
    (events : List Event) (honly : ∀ e ∈ events, Unattended maxAutoRestarts e) :
    Along (step validCron)
      (fun d e => ∀ outside, e = .perform outside (.healthCheck maxAutoRestarts) →
        ¬ Attempts i.name (traceOn (answerAlone validCron)
          (checkAndRecoverInstances maxAutoRestarts) (outside, d))) d events := by
  induction events generalizing d with
  | nil => trivial
  | cons e events ih =>
    have hrest := fun e' h' => honly e' (List.mem_cons_of_mem _ h')
    have hnow : ∀ outside, ¬ Attempts i.name (traceOn (answerAlone validCron)
        (checkAndRecoverInstances maxAutoRestarts) (outside, d)) := by
      intro outside hattempts
      obtain ⟨i', hi', hrun⟩ := attempts_running outside hattempts
      rw [hi, Option.some.injEq] at hi'
      exact hcrashed (hi' ▸ hrun)
    refine ⟨fun outside _ => hnow outside, ih _ ?_ hrest⟩
    cases e with
    | crash pids => exact hi
    | restart outside => exact absurd (honly _ List.mem_cons_self) id
    | perform outside activity =>
      cases activity with
      | healthCheck max => exact crashed_step hi hcrashed outside
      | _ => exact absurd (honly _ List.mem_cons_self) id

/-! ## A crash within the backoff -/

end Mik.Daemon
