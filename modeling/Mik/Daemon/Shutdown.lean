/-
  The shutdown of the daemon (`graceful_shutdown` of `src/daemon/http/mod.rs`).

  After the last request has been answered and the health check has ended, the daemon goes through
  the list of its instances, ends each process and records Stopped; meanwhile the jobs of the
  scheduler still tick. `shutdown_stops_all`: where the records and the processes can be accessed
  and the records were true, no process is left in any interleaving, and the table of instances
  is the old one with Stopped for Running. `off_after_shutdown`: from then on, over any number of
  starts of the daemon, its health checks, its ticks and every request but those to start or
  restart an instance, in any interleaving and whatever fails, no process is started.
-/
import Mik.Daemon.FailedOperations
import Mik.Lib.Rely

namespace Mik.Daemon

open Mik.Lib Prog

/-! ## The shutdown -/

/-- One turn of the loop: whether the process was ended. -/
def shutdownInstance (i : Instance) : Task Bool :=
  if i.status = .running then
    onSystem (.isRunning i.pid) >>= fun
      | .ok true => do
        let killed ← onSystem (.killInstance i.pid)
        -- a failure to kill, or to save, is only logged
        let _ ← onStore (.saveInstance { i with status := .stopped })
        ret killed.isOk
      | .ok false => do
        let _ ← onStore (.saveInstance { i with status := .stopped })
        ret false
      | .error _ => ret false
  else ret false

/-- The loop; `count` is `stopped_count`. -/
def shutdownEach (count : Nat) : List Instance → Task Nat
  | [] => ret count
  | i :: rest => do
    let stopped ← shutdownInstance i
    shutdownEach (if stopped then count + 1 else count) rest

/-- How many instances were stopped, after which the scheduler is; neither if the instances cannot
    be listed. -/
def gracefulShutdown : Task (Option Nat) :=
  onStore .listInstances >>= fun
    | .error _ => ret none
    | .ok instances => do
      let count ← shutdownEach 0 instances
      ret (some count)

/-- The shutdown as a task among others. -/
def shutdownTask : Task (Result Unit) := gracefulShutdown >>= fun _ => ret (.ok ())

/-- The record that a shutdown leaves of an instance. -/
def Instance.halted (i : Instance) : Instance :=
  if i.status = .running then { i with status := .stopped } else i

/-- The accesses to the records and to the processes do not fail. -/
def Unfailing (e : Outside) : Action → Bool
  | .store .listInstances | .store (.saveInstance _) => e.txn.isNone
  | .system (.isRunning _) | .system (.killInstance _) => e.fault.isNone
  | _ => true

def Activity.isTick : Activity → Bool
  | .tick _ => true
  | _ => false

/-- What happens around a shutdown under the number `i`: the scheduler starts ticks of its jobs,
    and the accesses of the shutdown do not fail. -/
def DuringShutdown (i : Nat) (w : Tasks) : Traffic → Prop
  | .start j activity => j ≠ i ∧ activity.isTick = true
  | .advance j outside => j = i → ∀ a ∈ nextAction w i, Unfailing outside a = true

instance instDecidableDuringShutdown (i : Nat) (w : Tasks) (t : Traffic) :
    Decidable (DuringShutdown i w t) :=
  match t with
  | .start j activity => inferInstanceAs (Decidable (j ≠ i ∧ activity.isTick = true))
  | .advance j outside =>
    inferInstanceAs (Decidable (j = i → ∀ a ∈ nextAction w i, Unfailing outside a = true))

/-! ## What the others do -/

/-- The records stay, and no process is started. -/
def Quieter (d d' : AppState) : Prop := ∀ name, Calm name d d'

section

variable {validCron : String → Bool} {e : Outside} {a : Action} {d d' d'' : AppState}

theorem Quieter.refl (d : AppState) : Quieter d d := fun _ => ⟨rfl, fun _ hp _ => hp⟩

theorem Quieter.trans (h : Quieter d d') (h' : Quieter d' d'') : Quieter d d'' := fun name =>
  ⟨(h' name).record.trans (h name).record,
    fun p hp howner => (h name).procs p ((h' name).procs p hp howner) howner⟩

theorem Quieter.procs (h : Quieter d d') : ∀ p ∈ d'.procs, p ∈ d.procs :=
  fun p hp => (h p.owner).procs p hp rfl

theorem quieter_answer (h : ∀ name, Touches name a = false) :
    Quieter d (answer validCron e a d).2 := fun name => calm_answer (h name)

theorem quieter_neutral (h : Neutral a) : Quieter d (answer validCron e a d).2 := by
  refine quieter_answer fun name => ?_
  cases a with
  | cron a => rfl
  | store a =>
    cases a with
    | saveInstance i => exact h.elim
    | _ => rfl
  | system a =>
    cases a with
    | spawnInstance config => exact h.elim
    | _ => rfl

theorem within_tick (job : String) :
    (Activity.tick job).program.Within (fun _ _ => True) Neutral fun _ => True := by
  have htick : (executeJobInternal job).Within (fun _ _ => True) Neutral fun _ => True := by
    refine ⟨trivial, fun _ _ => ⟨trivial, fun _ _ => ⟨trivial, fun config _ => ?_⟩⟩⟩
    cases config with
    | none => trivial
    | some config =>
      dsimp only [Prog.bind]
      split
      · exact ⟨trivial, fun _ _ => ⟨trivial, fun _ _ => ⟨trivial, fun _ _ => trivial⟩⟩⟩
      · trivial
  exact htick.bind fun _ _ => trivial

/-- A kill that does not fail leaves no process of that id, be it gone already. -/
theorem killed_answer {pid : Nat} (h : e.fault = none) :
    ∀ p ∈ (answer validCron e (.system (.killInstance pid)) d).2.procs, p.pid ≠ pid := by
  intro p hp
  have hmem : p ∈ (answerSystem e (.killInstance pid) (d.reap e.ended).procs).2 := hp
  unfold answerSystem at hmem
  rw [h] at hmem
  dsimp only at hmem
  split at hmem
  · exact of_decide_eq_true (List.mem_filter.mp hmem).2
  · next hnone =>
    intro hpid
    exact hnone (List.any_eq_true.mpr ⟨p, hmem, beq_iff_eq.mpr hpid⟩)

theorem saved_answer (i : Instance) (h : e.txn = none) (name : String) :
    (answer validCron e (.store (.saveInstance i)) d).2.store.instances.lookup name =
        (if name = i.name then some i else d.store.instances.lookup name) ∧
      ∀ p ∈ (answer validCron e (.store (.saveInstance i)) d).2.procs, p ∈ d.procs := by
  refine ⟨?_, fun _ hp => mem_reap hp⟩
  show (d.store.saveInstance e.txn i).2.instances.lookup name = _
  rw [h]
  exact Records.lookup_put i name

/-! ## The loop -/

/-- What is left to do: every live process belongs to an instance of `rest`, whose records are the
    old ones; the others are halted. -/
structure Remaining (old : String → Option Instance) (rest : List Instance) (d : AppState) :
    Prop where
  procs : ∀ p ∈ d.procs, ∃ i ∈ rest, i.status = .running ∧ i.pid = p.pid
  todo : ∀ i ∈ rest, old i.name = some i
  records : ∀ name, d.store.instances.lookup name =
    if name ∈ rest.map Instance.name then old name else (old name).map Instance.halted

variable {old : String → Option Instance} {rest : List Instance} {i : Instance}

theorem Remaining.quieter (h : Remaining old rest d) (hd : Quieter d d') :
    Remaining old rest d' where
  procs p hp := h.procs p (hd.procs p hp)
  todo := h.todo
  records name := (hd name).record.trans (h.records name)

/-- The process of the next instance is gone. -/
def NextGone (old : String → Option Instance) (i : Instance) (rest : List Instance)
    (d : AppState) : Prop :=
  Remaining old (i :: rest) d ∧ ∀ p ∈ d.procs, p.pid ≠ i.pid

theorem NextGone.quieter (h : NextGone old i rest d) (hd : Quieter d d') :
    NextGone old i rest d' := ⟨h.1.quieter hd, fun p hp => h.2 p (hd.procs p hp)⟩

/-- An instance that needs no stop. -/
theorem Remaining.skip (h : Remaining old (i :: rest) d) (hstatus : i.status ≠ .running) :
    Remaining old rest d where
  procs p hp := by
    obtain ⟨i', hi', hrunning, hpid⟩ := h.procs p hp
    rcases List.mem_cons.mp hi' with rfl | hmem
    · exact absurd hrunning hstatus
    · exact ⟨i', hmem, hrunning, hpid⟩
  todo i' hi' := h.todo i' (List.mem_cons_of_mem _ hi')
  records name := by
    rw [h.records name, List.map_cons]
    by_cases hrest : name ∈ rest.map Instance.name
    · rw [if_pos (List.mem_cons_of_mem _ hrest), if_pos hrest]
    · rw [if_neg hrest]
      by_cases hname : name = i.name
      · have hhalted : i.halted = i := if_neg hstatus
        rw [if_pos (hname ▸ List.mem_cons_self), hname, h.todo i List.mem_cons_self,
          Option.map_some, hhalted]
      · exact if_neg fun hmem => (List.mem_cons.mp hmem).elim hname hrest

/-- The record of an instance whose process is gone is halted. -/
theorem NextGone.save (h : NextGone old i rest d) (hstatus : i.status = .running)
    (hnotin : i.name ∉ rest.map Instance.name) (htxn : e.txn = none) :
    Remaining old rest
      (answer validCron e (.store (.saveInstance { i with status := .stopped })) d).2 where
  procs p hp := by
    have hmem := (saved_answer { i with status := .stopped } htxn i.name).2 p hp
    obtain ⟨i', hi', hrunning, hpid⟩ := h.1.procs p hmem
    rcases List.mem_cons.mp hi' with rfl | hrest
    · exact absurd hpid.symm (h.2 p hmem)
    · exact ⟨i', hrest, hrunning, hpid⟩
  todo i' hi' := h.1.todo i' (List.mem_cons_of_mem _ hi')
  records name := by
    rw [(saved_answer { i with status := .stopped } htxn name).1]
    by_cases hname : name = i.name
    · have hhalted : i.halted = { i with status := .stopped } := if_pos hstatus
      rw [if_pos hname, hname, if_neg hnotin, h.1.todo i List.mem_cons_self, Option.map_some,
        hhalted]
    · rw [if_neg hname, h.1.records name, List.map_cons]
      simp only [List.mem_cons, hname, false_or]

/-- The programs of the shutdown among tasks that are quiet. -/
abbrev SafeShutdown {α : Type} (validCron : String → Bool) (Post : α → AppState → Prop)
    (p : Task α) (d : AppState) : Prop :=
  p.SafeAmong (answer validCron) (fun e a _ => Unfailing e a = true) Quieter Post d

theorem safe_save (h : NextGone old i rest d) (hstatus : i.status = .running)
    (hnotin : i.name ∉ rest.map Instance.name) (stopped : Bool) :
    SafeShutdown validCron (fun _ => Remaining old rest)
      (onStore (.saveInstance { i with status := .stopped }) >>= fun _ => ret stopped) d := by
  intro d₁ hd₁ e he
  exact SafeAmong.ret_of (fun _ _ => Remaining.quieter) 
    ((h.quieter hd₁).save hstatus hnotin (Option.isNone_iff_eq_none.mp he))

theorem safe_shutdownInstance (h : Remaining old (i :: rest) d)
    (hnotin : i.name ∉ rest.map Instance.name) :
    SafeShutdown validCron (fun _ => Remaining old rest) (shutdownInstance i) d := by
  unfold shutdownInstance
  split
  · next hstatus =>
    intro d₁ hd₁ e he
    have h₁ := h.quieter hd₁
    have hstays : Quieter d₁ (answer validCron e (.system (.isRunning i.pid)) d₁).2 :=
      quieter_answer fun _ => rfl
    cases hreply : (answer validCron e (.system (.isRunning i.pid)) d₁).1 with
    | error text =>
      have hfault : e.fault = none := Option.isNone_iff_eq_none.mp he
      have hok : (answerSystem e (.isRunning i.pid) (d₁.reap e.ended).procs).1 = .error text :=
        hreply
      unfold answerSystem at hok
      rw [hfault] at hok
      cases hok
    | ok running =>
      cases running with
      | false => exact safe_save ⟨h₁.quieter hstays, isRunning_answer hreply⟩ hstatus hnotin _
      | true =>
        intro d₂ hd₂ e' he'
        have h₂ := (h₁.quieter hstays).quieter hd₂
        have hfault : e'.fault = none := Option.isNone_iff_eq_none.mp he'
        have hkilled : Quieter d₂ (answer validCron e' (.system (.killInstance i.pid)) d₂).2 :=
          quieter_answer fun _ => rfl
        exact safe_save ⟨h₂.quieter hkilled, killed_answer hfault⟩ hstatus hnotin _
  · next hstatus => exact SafeAmong.ret_of (fun _ _ => Remaining.quieter) (h.skip hstatus)

/-- The loop, by induction on what is left of the list. -/
theorem safe_shutdownEach (validCron : String → Bool) (count : Nat) (h : Remaining old rest d)
    (hnodup : (rest.map Instance.name).Nodup) :
    SafeShutdown validCron (fun _ => Remaining old []) (shutdownEach count rest) d := by
  induction rest generalizing count d with
  | nil => exact SafeAmong.ret_of (fun _ _ => Remaining.quieter) h
  | cons i rest ih =>
    obtain ⟨hnotin, hrest⟩ := List.nodup_cons.mp hnodup
    exact (safe_shutdownInstance h hnotin).bind Quieter.refl fun _ _ hd => ih _ hd hrest

/-- The records are those of `old`, and say of every process that it is running. -/
structure TrueRecords (old : String → Option Instance) (d : AppState) : Prop where
  records : ∀ name, d.store.instances.lookup name = old name
  procs : ∀ p ∈ d.procs, ∃ i, old p.owner = some i ∧ i.status = .running ∧ i.pid = p.pid

theorem TrueRecords.quieter (h : TrueRecords old d) (hd : Quieter d d') : TrueRecords old d' where
  records name := (hd name).record.trans (h.records name)
  procs p hp := h.procs p (hd.procs p hp)

/-- What is left to do at the beginning of the loop. -/
theorem TrueRecords.remaining (h : TrueRecords old d) :
    Remaining old d.store.instances.values d where
  procs p hp := by
    obtain ⟨i, hi, hrunning, hpid⟩ := h.procs p hp
    have hlookup := (h.records p.owner).trans hi
    refine ⟨i, Records.mem_values_iff_lookup.mpr ?_, hrunning, hpid⟩
    rw [Records.key_of_lookup hlookup]
    exact hlookup
  todo i hi := (h.records i.name).symm.trans (Records.mem_values_iff_lookup.mp hi)
  records name := by
    rw [h.records name]
    split
    · rfl
    · next hnotin =>
      cases hold : old name with
      | none => rfl
      | some i =>
        have hlookup := (h.records name).trans hold
        have hname := Records.key_of_lookup hlookup
        refine absurd (List.mem_map.mpr ⟨i, Records.mem_values_iff_lookup.mpr ?_, hname⟩) hnotin
        rw [hname]
        exact hlookup

theorem safe_shutdownTask (h : TrueRecords old d) :
    SafeShutdown validCron (fun _ => Remaining old []) shutdownTask d := by
  intro d₁ hd₁ e he
  have h₁ := h.quieter hd₁
  have hstays : Quieter d₁ (answer validCron e (.store .listInstances) d₁).2 :=
    quieter_answer fun _ => rfl
  have htxn : e.txn = none := Option.isNone_iff_eq_none.mp he
  have hreply : (answer validCron e (.store .listInstances) d₁).1 =
      Except.ok d₁.store.instances.values := by
    show (d₁.store.listInstances e.txn).1 = _
    rw [htxn]
    rfl
  rw [hreply]
  have hnodup : (d₁.store.instances.values.map Instance.name).Nodup := by
    rw [Records.map_key_values]
    exact d₁.store.instances.table.nodup_keys
  have hloop := safe_shutdownEach validCron 0 (h₁.remaining.quieter hstays) hnodup
  refine SafeAmong.bind Quieter.refl (SafeAmong.bind Quieter.refl hloop fun _ _ hd => ?_ :
    SafeShutdown validCron (fun _ => Remaining old []) _ _) fun _ _ hd => ?_
  · exact SafeAmong.ret_of (fun _ _ => Remaining.quieter) hd
  · exact SafeAmong.ret_of (fun _ _ => Remaining.quieter) hd

theorem during_among {w : Tasks} {t : Traffic} {j : Nat} (h : DuringShutdown j w t) :
    Pool.Among (fun e a _ => Unfailing e a = true) Neutral j w t.move := by
  cases t with
  | start i activity =>
    obtain ⟨hne, htick⟩ := h
    cases activity with
    | tick job => exact ⟨hne, within_tick job⟩
    | _ => cases htick
  | advance i outside =>
    intro hi a k hact
    refine h hi a ?_
    unfold nextAction
    rw [hact]
    exact rfl

/-- However it goes, nothing remains to be done. -/
theorem remaining_after_shutdown (horphans : ∀ name, NoOrphans name d) {j : Nat}
    {ts : List Traffic}
    (hts : Along (interleave validCron) (DuringShutdown j) (Pool.single j shutdownTask d) ts)
    (hended : Pool.Ended j (run (interleave validCron) (Pool.single j shutdownTask d) ts)) :
    Remaining (fun name => d.store.instances.lookup name) []
      (run (interleave validCron) (Pool.single j shutdownTask d) ts).state := by
  have hruns : run (interleave validCron) (Pool.single j shutdownTask d) ts =
      run (Pool.step (answer validCron)) (Pool.single j shutdownTask d) (ts.map Traffic.move) :=
    run_map Traffic.move _ _
  have hmoves : Along (Pool.step (answer validCron))
      (Pool.Among (fun e a _ => Unfailing e a = true) Neutral j) (Pool.single j shutdownTask d)
      (ts.map Traffic.move) :=
    along_map.mp (along_mono (fun _ _ => during_among) hts)
  rw [hruns] at hended ⊢
  have hsafe : SafeShutdown validCron
      (fun _ => Remaining (fun name => d.store.instances.lookup name) []) shutdownTask d :=
    safe_shutdownTask ⟨fun _ => rfl, fun p hp => horphans p.owner p hp rfl⟩
  exact (Pool.attended_run Quieter.refl (fun _ _ _ => Quieter.trans)
    (fun _ _ _ => quieter_neutral) hsafe hmoves hended).choose_spec

end

/-- In every interleaving with the ticks of the jobs, where the accesses of the shutdown do not
    fail: no process is left, and the records are the old ones with Stopped for Running. -/
theorem shutdown_stops_all (validCron : String → Bool) (d : AppState)
    (horphans : ∀ name, NoOrphans name d) (i : Nat) (ts : List Traffic)
    (hts : Along (interleave validCron) (DuringShutdown i) (Pool.single i shutdownTask d) ts)
    (hended : Pool.Ended i (run (interleave validCron) (Pool.single i shutdownTask d) ts)) :
    let d' := (run (interleave validCron) (Pool.single i shutdownTask d) ts).state
    d'.procs = [] ∧ ∀ name,
      d'.store.instances.lookup name = (d.store.instances.lookup name).map Instance.halted := by
  intro d'
  have hrest : Remaining (fun name => d.store.instances.lookup name) [] d' :=
    remaining_after_shutdown horphans hts hended
  refine ⟨List.eq_nil_iff_forall_not_mem.mpr fun p hp => ?_, fun name => ?_⟩
  · obtain ⟨i', hi', -⟩ := hrest.procs p hp
    cases hi'
  · rw [hrest.records name]
    exact if_neg List.not_mem_nil

/-- An instance that runs with the process 7. -/
def webInstance : Instance where
  name := "web"
  port := 3000
  pid := 7
  status := .running
  config := "/srv/mik.toml"
  startedAt := 0
  modules := []
  autoRestart := true
  restartCount := 0
  lastRestartAt := none

/-- A daemon whose only instance is running. -/
def oneRunning : AppState :=
  { AppState.empty with
    store := { StateStore.empty with instances := Records.empty.put webInstance }
    procs := [⟨7, "web"⟩] }

/-- The shutdown, and a tick that comes in between. -/
def shutdownAndTick : List Traffic :=
  [nextOf 0 1, .start 1 (.tick "daily"), nextOf 0 1, nextOf 1 1, nextOf 0 1, nextOf 1 1, nextOf 0 1,
    nextOf 1 1]

theorem noOrphans_oneRunning (name : String) : NoOrphans name oneRunning := by
  intro p hp howner
  obtain rfl := List.mem_singleton.mp hp
  obtain rfl : "web" = name := howner
  exact ⟨webInstance, by decide, rfl, rfl⟩

theorem ended_shutdownAndTick : Pool.Ended 0
    (run (interleave fun _ => true) (Pool.single 0 shutdownTask oneRunning) shutdownAndTick) := by
  have hdone : (run (interleave fun _ => true) (Pool.single 0 shutdownTask oneRunning)
      shutdownAndTick).tasks 0 = some (ret (.ok ())) := rfl
  intro p hp
  exact ⟨.ok (), (Option.some.inj (hdone.symm.trans hp)).symm⟩

theorem shutdown_web : (run (interleave fun _ => true) (Pool.single 0 shutdownTask oneRunning)
    shutdownAndTick).state.procs = [] :=
  (shutdown_stops_all (fun _ => true) oneRunning noOrphans_oneRunning 0 shutdownAndTick
    (by decide) ended_shutdownAndTick).1

/-! ## After the shutdown -/

/-- There is no process, and no record says Running. -/
structure Off (d : AppState) : Prop where
  procs : d.procs = []
  records : ∀ name i, d.store.instances.lookup name = some i → i.status ≠ .running

/-- The request starts an instance. -/
def Activity.starts : Activity → Bool
  | .startInstance _ | .restartInstance _ => true
  | _ => false

/-- A start of the daemon, and what happens until it ends, be it by a crash. -/
structure Session where
  outside : Nat → Outside
  traffic : List Traffic

/-- No request of the session starts an instance. -/
def Session.StartsNothing (session : Session) : Prop :=
  ∀ i activity, .start i activity ∈ session.traffic → activity.starts = false

def live (validCron : String → Bool) (d : AppState) (session : Session) : AppState :=
  (run (interleave validCron) (.idle (step validCron d (.restart session.outside)))
    session.traffic).state

/-- The action starts no process, and records none. -/
def Harmless : Action → Prop
  | .store (.saveInstance i) => i.status ≠ .running
  | .system (.spawnInstance _) => False
  | _ => True

/-- The answers that come while everything is off. -/
def Idle : (a : Action) → Reply a → Prop
  | .store (.getInstance _), r => ∀ i, r = .ok (some i) → i.status ≠ .running
  | .store .listInstances, r => ∀ instances, r = .ok instances → ∀ i ∈ instances,
      i.status ≠ .running
  | _, _ => True

/-- After a shutdown everything is off. -/
theorem Remaining.off {old : String → Option Instance} {d : AppState} (h : Remaining old [] d) :
    Off d := by
  refine ⟨List.eq_nil_iff_forall_not_mem.mpr fun p hp => ?_, fun name i hi => ?_⟩
  · obtain ⟨i, hi, -⟩ := h.procs p hp
    cases hi
  · rw [h.records name, List.map_nil, if_neg List.not_mem_nil] at hi
    obtain ⟨i', -, rfl⟩ := Option.map_eq_some_iff.mp hi
    unfold Instance.halted
    split
    · simp
    · next hstatus => exact hstatus

section

variable {validCron : String → Bool} {e : Outside} {a : Action} {d : AppState} {α : Type}

theorem harmless_of_neutral (h : Neutral a) : Harmless a := by
  cases a with
  | cron a => trivial
  | store a =>
    cases a with
    | saveInstance i => exact h.elim
    | _ => trivial
  | system a =>
    cases a with
    | spawnInstance config => exact h.elim
    | _ => trivial

theorem within_harmless {Q : α → Prop} {p : Task α} (hp : p.Within (fun _ _ => True) Neutral Q) :
    p.Within Idle Harmless Q :=
  (hp.answers fun _ _ _ _ => trivial).mono (fun _ => harmless_of_neutral) fun _ h => h

theorem idle_answer (h : Off d) : Idle a (answer validCron e a d).1 := by
  cases a with
  | cron a => trivial
  | store a =>
    cases a with
    | getInstance name =>
      intro i hi
      exact h.records name i (get_answer hi)
    | listInstances =>
      intro instances hinstances i hi
      rw [← list_answer hinstances] at hi
      exact h.records i.name i (Records.mem_values_iff_lookup.mp hi)
    | _ => trivial
  | system a => trivial

theorem off_answer (h : Off d) (ha : Harmless a) : Off (answer validCron e a d).2 := by
  have hprocs : ∀ {d' : AppState}, (∀ p ∈ d'.procs, p ∈ d.procs) → d'.procs = [] := by
    intro d' hd'
    refine List.eq_nil_iff_forall_not_mem.mpr fun p hp => ?_
    have hmem := hd' p hp
    rw [h.procs] at hmem
    cases hmem
  by_cases htouch : ∀ name, Touches name a = false
  · have hquiet : Quieter d (answer validCron e a d).2 := quieter_answer htouch
    exact ⟨hprocs hquiet.procs, fun name i hi => h.records name i ((hquiet name).record ▸ hi)⟩
  · obtain ⟨name, hname⟩ := not_forall.mp htouch
    rcases touches_cases (eq_true_of_ne_false hname) with ⟨i, rfl, -⟩ | ⟨config, rfl, -⟩
    · refine ⟨hprocs fun p hp => mem_reap hp, fun name i' hi' => ?_⟩
      have hlookup : (d.store.saveInstance e.txn i).2.instances.lookup name = some i' := hi'
      cases htxn : e.txn with
      | some stage =>
        rw [htxn] at hlookup
        exact h.records name i' hlookup
      | none =>
        rw [htxn] at hlookup
        have hput := (Records.lookup_put i name).symm.trans hlookup
        split at hput
        · cases hput
          exact ha
        · exact h.records name i' hput
    · exact ha.elim

/-! ## The activities -/

theorem within_orFail {α β : Type} {G : (a : Action) → Reply a → Prop} {P : Action → Prop}
    {p : Task (Except String α)} {err : String → AppError} {k : α → Task (Result β)}
    (hp : p.Within G P fun _ => True) (hk : ∀ x, (k x).Within G P fun _ => True) :
    (orFail p err k).Within G P fun _ => True := by
  refine hp.bind fun r _ => ?_
  cases r with
  | error e => trivial
  | ok x => exact hk x

theorem within_discard {G : (a : Action) → Reply a → Prop} {P : Action → Prop}
    {p : Task (Result α)} (hp : p.Within G P fun _ => True) :
    (discard p).Within G P fun _ => True := hp.bind fun _ _ => trivial

theorem within_cronCreate (config : ScheduleConfig) :
    (cronCreate config).Within (fun _ _ => True) Neutral fun _ => True :=
  within_orFail ⟨trivial, fun _ _ => trivial⟩ fun _ =>
    within_orFail ⟨trivial, fun _ _ => trivial⟩ fun _ => trivial

theorem within_cronDelete (name : String) :
    (cronDelete name).Within (fun _ _ => True) Neutral fun _ => True := by
  refine within_orFail ⟨trivial, fun _ _ => trivial⟩ fun deleted => ?_
  cases deleted with
  | false => trivial
  | true => exact within_orFail ⟨trivial, fun _ _ => trivial⟩ fun _ => trivial

theorem within_cronUpdate (name : String) (enabled : Option Bool) :
    (cronUpdate name enabled).Within (fun _ _ => True) Neutral fun _ => True := by
  cases enabled with
  | none => trivial
  | some enabled =>
    refine ⟨trivial, fun set _ => ?_⟩
    cases set with
    | none => trivial
    | some newEnabled =>
      refine ⟨trivial, fun config _ => ?_⟩
      cases config with
      | none => trivial
      | some config => exact within_orFail ⟨trivial, fun _ _ => trivial⟩ fun _ => trivial

theorem within_executeJob (name : String) (manual : Bool) :
    (executeJob name manual).Within (fun _ _ => True) Neutral fun _ => True := by
  refine ⟨trivial, fun _ _ => ⟨trivial, fun _ _ => ⟨trivial, fun config _ => ?_⟩⟩⟩
  have hconfig : (executeConfig config).Within (fun _ _ => True) Neutral fun _ => True := by
    cases config with
    | none => trivial
    | some config => exact ⟨trivial, fun _ _ => trivial⟩
  exact hconfig.bind fun _ _ => ⟨trivial, fun _ _ => ⟨trivial, fun _ _ => trivial⟩⟩

theorem within_triggerJob (name : String) :
    (triggerJob name).Within (fun _ _ => True) Neutral fun _ => True := by
  refine (within_executeJob name true).bind fun execution _ => ?_
  split
  · trivial
  · trivial

theorem within_cronTrigger (name : String) :
    (cronTrigger name).Within (fun _ _ => True) Neutral fun _ => True := by
  refine ⟨trivial, fun job _ => ?_⟩
  cases job with
  | none => trivial
  | some job =>
    refine within_orFail (within_triggerJob name) fun execution => ?_
    exact ⟨trivial, fun _ _ => ⟨trivial, fun _ _ => trivial⟩⟩

theorem within_cronHistory (name : String) :
    (cronHistory name).Within (fun _ _ => True) Neutral fun _ => True := by
  refine ⟨trivial, fun job _ => ?_⟩
  cases job with
  | none => trivial
  | some job => exact within_orFail ⟨trivial, fun _ _ => trivial⟩ fun _ => trivial

/-- An instance that is not running is not stopped. -/
theorem within_stopInstance (name : String) :
    (stopInstance name).Within Idle Harmless fun _ => True := by
  refine ⟨trivial, fun r hr => ?_⟩
  cases r with
  | error e => trivial
  | ok record =>
    cases record with
    | none => trivial
    | some i =>
      show Prog.Within Idle Harmless _ (if i.status = .running then _ else _)
      rw [if_neg (hr i rfl)]
      trivial

theorem within_checkEach {maxAutoRestarts : Nat} {instances : List Instance}
    (h : ∀ i ∈ instances, i.status ≠ .running) :
    (checkAndRecoverEach maxAutoRestarts instances).Within Idle Harmless fun _ => True := by
  induction instances with
  | nil => trivial
  | cons i rest ih =>
    refine Within.bind (Q := fun _ => True) ?_ fun _ _ =>
      ih fun i' hi' => h i' (List.mem_cons_of_mem _ hi')
    unfold checkAndRecoverSingleInstance
    rw [if_neg (h i List.mem_cons_self)]
    trivial

theorem within_healthCheck (maxAutoRestarts : Nat) :
    (checkAndRecoverInstances maxAutoRestarts).Within Idle Harmless fun _ => True := by
  refine ⟨trivial, fun r hr => ?_⟩
  cases r with
  | error e => trivial
  | ok instances => exact within_checkEach (hr instances rfl)

theorem within_activity {activity : Activity} (h : activity.starts = false) :
    activity.program.Within Idle Harmless fun _ => True := by
  cases activity with
  | cronCreate config => exact within_discard (within_harmless (within_cronCreate config))
  | cronDelete name => exact within_discard (within_harmless (within_cronDelete name))
  | cronUpdate name enabled =>
    exact within_discard (within_harmless (within_cronUpdate name enabled))
  | cronTrigger name => exact within_discard (within_harmless (within_cronTrigger name))
  | cronHistory name => exact within_discard (within_harmless (within_cronHistory name))
  | startInstance req => cases h
  | stopInstance name => exact within_discard (within_stopInstance name)
  | restartInstance name => cases h
  | tick name => exact within_harmless (within_tick name)
  | healthCheck maxAutoRestarts =>
    exact (within_healthCheck maxAutoRestarts).bind fun _ _ => trivial

theorem within_addJobs (jobs : List ScheduleConfig) :
    (addJobs jobs).Within (fun _ _ => True) Neutral fun _ => True := by
  induction jobs with
  | nil => trivial
  | cons config rest ih => exact ⟨trivial, fun _ _ => ih⟩

theorem within_restoreJobs : restoreJobs.Within (fun _ _ => True) Neutral fun _ => True := by
  refine ⟨trivial, fun r _ => ?_⟩
  cases r with
  | error e => trivial
  | ok jobs => exact (within_addJobs jobs).bind fun _ _ => trivial

/-! ## Sessions -/

theorem off_restart (h : Off d) (outside : Nat → Outside) :
    Off (step validCron d (.restart outside)) := by
  have hreboot : Off d.reboot := ⟨h.procs, h.records⟩
  have hlast : Off (runOn (answerAlone validCron) restoreJobs (outside, d.reboot)).2.2 := by
    refine (within_harmless within_restoreJobs).runOn_keeps (fun w : World => Off w.2)
      (fun a w ha hw => ?_) hreboot
    exact ⟨idle_answer hw, off_answer hw ha⟩
  exact ⟨hlast.procs, hlast.records⟩

theorem off_live (h : Off d) {session : Session} (hsession : session.StartsNothing) :
    Off (live validCron d session) := by
  have hruns : run (interleave validCron)
        (Tasks.idle (step validCron d (.restart session.outside))) session.traffic =
      run (Pool.step (answer validCron))
        (Tasks.idle (step validCron d (.restart session.outside)))
        (session.traffic.map Traffic.move) :=
    run_map Traffic.move _ _
  unfold live
  rw [hruns]
  refine Pool.run_invariant (G := Idle) (P := Harmless) (Q := fun _ => True) Off
    (fun e a s _ hs _ => idle_answer hs) (fun e a s _ hs ha => off_answer hs ha)
    (off_restart h session.outside) (fun i p hp => by cases hp) fun m hm => ?_
  obtain ⟨t, ht, rfl⟩ := List.mem_map.mp hm
  cases t with
  | start i activity => exact within_activity (hsession i activity ht)
  | advance i outside => trivial

end

/-- What was shut down stays off: whatever the daemon does in any number of later lives, except
    for requests to start or to restart an instance, no process is started and no record says
    Running. -/
theorem off_after_shutdown (validCron : String → Bool) (d : AppState)
    (horphans : ∀ name, NoOrphans name d) (i : Nat) (ts : List Traffic)
    (hts : Along (interleave validCron) (DuringShutdown i) (Pool.single i shutdownTask d) ts)
    (hended : Pool.Ended i (run (interleave validCron) (Pool.single i shutdownTask d) ts))
    (sessions : List Session) (hsessions : ∀ session ∈ sessions, session.StartsNothing) :
    Off (run (live validCron)
      (run (interleave validCron) (Pool.single i shutdownTask d) ts).state sessions) := by
  have hoff : Off (run (interleave validCron) (Pool.single i shutdownTask d) ts).state :=
    (remaining_after_shutdown horphans hts hended).off
  generalize (run (interleave validCron) (Pool.single i shutdownTask d) ts).state = d' at hoff
  induction sessions generalizing d' with
  | nil => exact hoff
  | cons session rest ih =>
    rw [run_cons]
    exact ih (fun s hs => hsessions s (List.mem_cons_of_mem _ hs)) _
      (off_live hoff (hsessions session List.mem_cons_self))

/-- The next life, in which the health check looks at the instance. -/
def lookAround : Session where
  outside := fun _ => .calm
  traffic := [.start 0 (.healthCheck 10), nextOf 0 1, nextOf 0 1]

theorem web_stays_off : Off (run (live fun _ => true)
    (run (interleave fun _ => true) (Pool.single 0 shutdownTask oneRunning) shutdownAndTick).state
    [lookAround]) := by
  refine off_after_shutdown (fun _ => true) oneRunning noOrphans_oneRunning 0 shutdownAndTick
    (by decide) ended_shutdownAndTick [lookAround] fun session hsession i activity hmem => ?_
  obtain rfl := List.mem_singleton.mp hsession
  obtain heq | hrest := List.mem_cons.mp hmem
  · cases heq
    rfl
  · simp [nextOf] at hrest

end Mik.Daemon
