/-
  Each scheduled job has one live entry.

  The map of the jobs and the scheduler agree (`OneEntryEach`) when every job of the map has one
  live entry, under the id stored for it, and there is no other live entry. An entry whose id is
  not the one stored for its name is an orphan: it fires at every tick of its schedule, and since
  only stored ids are ever removed, it is there for good (`orphan_step`).

  `add_job` does not look whether the map has the name already. Adding a job of a name that is
  there leaves an orphan, and so does a removal at which the scheduler fails. Nothing else does:
  after a run, `OneEntryEach` has held throughout exactly when every job that was added was new
  to the map and every removal went through (`one_entry_throughout_iff`).
-/
import Mik.Daemon.Handlers

namespace Mik.Daemon

open Mik.Lib Prog

/-! ## One live entry for each job -/

/-- Each job of the map has one live entry, under its stored id; every live entry is of a job of
    the map. -/
def OneEntryEach (c : CronScheduler) : Prop :=
  (∀ name state, c.jobs.lookup name = some state →
    ∃ id, state.jobId = some id ∧ c.scheduler.entriesOf name = [⟨id, name⟩]) ∧
  ∀ entry ∈ c.scheduler.live, (c.jobs.lookup entry.name).isSome

/-- The ids in the map were given out by the scheduler, to entries of the same name. -/
def IdsOwned (c : CronScheduler) : Prop :=
  ∀ name state id, c.jobs.lookup name = some state → state.jobId = some id →
    id < c.scheduler.nextId ∧ ∀ entry ∈ c.scheduler.live, entry.id = id → entry.name = name

/-- A live entry under an id that is not the one stored for its name. -/
def HasOrphan (c : CronScheduler) : Prop :=
  ∃ entry ∈ c.scheduler.live, ∀ state, c.jobs.lookup entry.name = some state →
    state.jobId ≠ some entry.id

/-- What keeps the agreement: a job that is added is new to the map, a removal goes through. -/
def KeepsOneEntry (validCron : String → Bool) (a : Action) (w : World) : Prop :=
  match a with
  | .cron (.addJob config) => validCron config.cron = true → (w.1 0).fault = none →
      w.2.cron.jobs.lookup config.name = none
  | .cron (.removeJob name) => (w.1 0).fault = none ∨ w.2.cron.jobs.lookup name = none
  | _ => True

/-! ## What the calls do to ids and entries -/

/-- The live entries and the stored ids are the same. -/
def SameIds (c c' : CronScheduler) : Prop :=
  c'.scheduler = c.scheduler ∧
    ∀ name, (c'.jobs.lookup name).map JobState.jobId = (c.jobs.lookup name).map JobState.jobId

/-- The job `config` was added. -/
def CronScheduler.added (c : CronScheduler) (config : ScheduleConfig) : CronScheduler where
  scheduler := c.scheduler.add config.name
  jobs := c.jobs.put (.new config (some c.scheduler.nextId))

variable {validCron : String → Bool} {fault : Option String} {c c' : CronScheduler}
  {config : ScheduleConfig} {name : String} {state : JobState} {id : Nat}

theorem lookup_added (name : String) :
    (c.added config).jobs.lookup name =
      if name = config.name then some (.new config (some c.scheduler.nextId))
      else c.jobs.lookup name := Records.lookup_put _ _

theorem sameIds_refl (c : CronScheduler) : SameIds c c := ⟨rfl, fun _ => rfl⟩

theorem sameIds_put (hstate : c.jobs.lookup name = some state) {state' : JobState}
    (hname : state'.config.name = name) (hid : state'.jobId = state.jobId) :
    SameIds c { c with jobs := c.jobs.put state' } := by
  refine ⟨rfl, fun name' => ?_⟩
  show ((c.jobs.put state').lookup name').map _ = _
  rw [Records.lookup_put]
  split
  · next heq =>
    have hname' : name' = name := heq.trans hname
    rw [hname', hstate]
    exact congrArg some hid
  · rfl

theorem sameIds_setEnabled (enabled : Bool) : SameIds c (c.setEnabled name enabled).2 := by
  unfold CronScheduler.setEnabled
  split
  · exact sameIds_refl c
  · next hstate =>
    have hname := CronScheduler.name_of_lookup hstate
    exact sameIds_put hstate hname rfl

theorem sameIds_recordExecution (execution : JobExecution) (success : Bool) :
    SameIds c (c.recordExecution name execution success) := by
  unfold CronScheduler.recordExecution
  split
  · exact sameIds_refl c
  · next hstate =>
    have hname := CronScheduler.name_of_lookup hstate
    exact sameIds_put hstate hname rfl

theorem SameIds.state_of (h : SameIds c c') (hstate : c'.jobs.lookup name = some state) :
    ∃ state₀, c.jobs.lookup name = some state₀ ∧ state₀.jobId = state.jobId := by
  have hmap := h.2 name
  rw [hstate] at hmap
  exact Option.map_eq_some_iff.mp hmap.symm

theorem SameIds.symm (h : SameIds c c') : SameIds c' c := ⟨h.1.symm, fun name => (h.2 name).symm⟩

theorem removeJob_absent (h : c.jobs.lookup name = none) : (c.removeJob fault name).2 = c := by
  unfold CronScheduler.removeJob
  rw [h]

theorem removeJob_ok (h : c.jobs.lookup name = some state) (hid : state.jobId = some id) :
    (c.removeJob none name).2 =
      { scheduler := c.scheduler.remove id, jobs := c.jobs.remove name } := by
  unfold CronScheduler.removeJob
  rw [h]
  dsimp only
  rw [hid]

/-- A removal that fails has removed the entry of the map all the same. -/
theorem removeJob_failed (h : c.jobs.lookup name = some state) {text : String} :
    (c.removeJob (some text) name).2 = { c with jobs := c.jobs.remove name } := by
  unfold CronScheduler.removeJob
  rw [h]
  dsimp only
  split
  · rfl
  · rfl

theorem addJob_ok (hvalid : validCron config.cron = true) :
    (c.addJob validCron none config).2 = c.added config := by
  unfold CronScheduler.addJob
  rw [if_pos hvalid]
  rfl

theorem addJob_skipped (h : ¬ (validCron config.cron = true ∧ fault = none)) :
    (c.addJob validCron fault config).2 = c := by
  rcases CronScheduler.addJob_cases validCron fault c config with ⟨-, hsame⟩ | ⟨hvalid, hfault, -⟩
  · exact hsame
  · exact absurd ⟨hvalid, hfault⟩ h

/-! ## Stored ids -/

theorem idsOwned_same (h : SameIds c c') (hown : IdsOwned c) : IdsOwned c' := by
  intro name state id hstate hid
  obtain ⟨state₀, hstate₀, hid₀⟩ := h.state_of hstate
  rw [h.1]
  exact hown name state₀ id hstate₀ (hid₀.trans hid)

theorem idsOwned_added (hown : IdsOwned c) (config : ScheduleConfig) :
    IdsOwned (c.added config) := by
  intro name state id hstate hid
  rw [lookup_added] at hstate
  split at hstate
  · next hname =>
    cases hstate
    cases hid
    refine ⟨Nat.lt_succ_self _, fun entry hentry heq => ?_⟩
    rcases List.mem_append.mp hentry with hentry | hentry
    · have hlt := c.scheduler.fresh entry hentry
      omega
    · rw [List.mem_singleton.mp hentry]
      exact hname.symm
  · obtain ⟨hlt, hentries⟩ := hown name state id hstate hid
    refine ⟨Nat.lt_succ_of_lt hlt, fun entry hentry heq => ?_⟩
    rcases List.mem_append.mp hentry with hentry | hentry
    · exact hentries entry hentry heq
    · rw [List.mem_singleton.mp hentry] at heq
      have hnext : c.scheduler.nextId = id := heq
      omega

/-- Removing a job of the map, with or without live entries. -/
theorem idsOwned_removed (hown : IdsOwned c) {scheduler : JobScheduler}
    (hnext : scheduler.nextId = c.scheduler.nextId)
    (hlive : ∀ entry ∈ scheduler.live, entry ∈ c.scheduler.live) :
    IdsOwned { scheduler, jobs := c.jobs.remove name } := by
  intro name' state id hstate hid
  rw [Records.lookup_remove] at hstate
  split at hstate
  · cases hstate
  · obtain ⟨hlt, hentries⟩ := hown name' state id hstate hid
    refine ⟨?_, fun entry hentry => hentries entry (hlive entry hentry)⟩
    show id < scheduler.nextId
    rw [hnext]
    exact hlt

/-! ## Orphans -/

theorem HasOrphan.not_oneEntryEach (h : HasOrphan c) : ¬ OneEntryEach c := by
  obtain ⟨entry, hentry, horphan⟩ := h
  rintro ⟨hone, hcovered⟩
  obtain ⟨state, hstate⟩ := Option.isSome_iff_exists.mp (hcovered entry hentry)
  obtain ⟨id, hid, hentries⟩ := hone entry.name state hstate
  have hmem : entry ∈ c.scheduler.entriesOf entry.name :=
    JobScheduler.mem_entriesOf.mpr ⟨hentry, rfl⟩
  rw [hentries, List.mem_singleton] at hmem
  apply horphan state hstate
  rw [hid, hmem]

theorem hasOrphan_same (h : SameIds c c') (horphan : HasOrphan c) : HasOrphan c' := by
  obtain ⟨entry, hentry, horphan⟩ := horphan
  refine ⟨entry, h.1.symm ▸ hentry, fun state hstate => ?_⟩
  obtain ⟨state₀, hstate₀, hid₀⟩ := h.state_of hstate
  rw [← hid₀]
  exact horphan state₀ hstate₀

theorem hasOrphan_added (h : HasOrphan c) (config : ScheduleConfig) :
    HasOrphan (c.added config) := by
  obtain ⟨entry, hentry, horphan⟩ := h
  refine ⟨entry, List.mem_append_left _ hentry, fun state hstate => ?_⟩
  rw [lookup_added] at hstate
  split at hstate
  · cases hstate
    intro hid
    have hlt := c.scheduler.fresh entry hentry
    have heq : c.scheduler.nextId = entry.id := Option.some.inj hid
    omega
  · exact horphan state hstate

/-- A removal takes away a stored id only, never that of an orphan. -/
theorem hasOrphan_removed (hown : IdsOwned c) (h : HasOrphan c)
    (hstate : c.jobs.lookup name = some state) (hid : state.jobId = some id) :
    HasOrphan { scheduler := c.scheduler.remove id, jobs := c.jobs.remove name } := by
  obtain ⟨entry, hentry, horphan⟩ := h
  have hne : entry.id ≠ id := by
    intro heq
    have hname := (hown name state id hstate hid).2 entry hentry heq
    rw [← hname] at hstate
    exact horphan state hstate (hid.trans (congrArg some heq.symm))
  refine ⟨entry, List.mem_filter.mpr ⟨hentry, decide_eq_true hne⟩, fun state' hstate' => ?_⟩
  rw [Records.lookup_remove] at hstate'
  split at hstate'
  · cases hstate'
  · exact horphan state' hstate'

theorem hasOrphan_unmapped (h : HasOrphan c) :
    HasOrphan { c with jobs := c.jobs.remove name } := by
  obtain ⟨entry, hentry, horphan⟩ := h
  refine ⟨entry, hentry, fun state hstate => ?_⟩
  rw [Records.lookup_remove] at hstate
  split at hstate
  · cases hstate
  · exact horphan state hstate

/-- A job of the map that loses its entry of the map, but not its live entry. -/
theorem hasOrphan_of_failed (hone : OneEntryEach c) (hstate : c.jobs.lookup name = some state) :
    HasOrphan { c with jobs := c.jobs.remove name } := by
  obtain ⟨id, -, hentries⟩ := hone.1 name state hstate
  have hmem : ⟨id, name⟩ ∈ c.scheduler.entriesOf name := by
    rw [hentries]
    exact List.mem_singleton_self _
  refine ⟨⟨id, name⟩, (JobScheduler.mem_entriesOf.mp hmem).1, fun state' hstate' => ?_⟩
  rw [Records.lookup_remove, if_pos rfl] at hstate'
  cases hstate'

/-- A job added under a name that is in the map. -/
theorem hasOrphan_of_added (hone : OneEntryEach c)
    (hstate : c.jobs.lookup config.name = some state) : HasOrphan (c.added config) := by
  obtain ⟨id, -, hentries⟩ := hone.1 config.name state hstate
  have hmem : ⟨id, config.name⟩ ∈ c.scheduler.entriesOf config.name := by
    rw [hentries]
    exact List.mem_singleton_self _
  have hlive := (JobScheduler.mem_entriesOf.mp hmem).1
  refine ⟨⟨id, config.name⟩, List.mem_append_left _ hlive, fun state' hstate' => ?_⟩
  rw [lookup_added, if_pos rfl] at hstate'
  cases hstate'
  intro hid
  have hlt := c.scheduler.fresh _ hlive
  have heq : c.scheduler.nextId = id := Option.some.inj hid
  dsimp only at hlt
  omega

/-! ## The agreement -/

theorem oneEntryEach_empty : OneEntryEach .empty := by
  refine ⟨fun name state hstate => ?_, fun _ h => absurd h List.not_mem_nil⟩
  cases hstate

theorem oneEntryEach_same (h : SameIds c c') (hone : OneEntryEach c) : OneEntryEach c' := by
  constructor
  · intro name state hstate
    obtain ⟨state₀, hstate₀, hid₀⟩ := h.state_of hstate
    rw [h.1, ← hid₀]
    exact hone.1 name state₀ hstate₀
  · intro entry hentry
    rw [h.1] at hentry
    obtain ⟨state₀, hstate₀⟩ := Option.isSome_iff_exists.mp (hone.2 entry hentry)
    obtain ⟨state, hstate, -⟩ := h.symm.state_of hstate₀
    rw [hstate]
    rfl

/-- A name that is not in the map has no live entries. -/
theorem entriesOf_absent (hone : OneEntryEach c) (h : c.jobs.lookup name = none) :
    c.scheduler.entriesOf name = [] := by
  refine List.eq_nil_iff_forall_not_mem.mpr fun entry hentry => ?_
  obtain ⟨hlive, rfl⟩ := JobScheduler.mem_entriesOf.mp hentry
  have hsome := hone.2 entry hlive
  rw [h] at hsome
  cases hsome

theorem oneEntryEach_added (hone : OneEntryEach c) (h : c.jobs.lookup config.name = none) :
    OneEntryEach (c.added config) := by
  constructor
  · intro name state hstate
    rw [lookup_added] at hstate
    show ∃ id, _ ∧ (c.scheduler.add config.name).entriesOf name = _
    rw [JobScheduler.entriesOf_add]
    split at hstate
    · next hname =>
      cases hstate
      refine ⟨_, rfl, ?_⟩
      rw [hname, entriesOf_absent hone h, if_pos rfl]
      rfl
    · next hname =>
      rw [if_neg (Ne.symm hname), List.append_nil]
      exact hone.1 name state hstate
  · intro entry hentry
    rw [lookup_added]
    split
    · rfl
    · next hname =>
      rcases List.mem_append.mp hentry with hentry | hentry
      · exact hone.2 entry hentry
      · rw [List.mem_singleton.mp hentry] at hname
        exact absurd rfl hname

theorem oneEntryEach_removed (hone : OneEntryEach c) (hstate : c.jobs.lookup name = some state)
    (hid : state.jobId = some id) :
    OneEntryEach { scheduler := c.scheduler.remove id, jobs := c.jobs.remove name } := by
  obtain ⟨id', hid', hentries⟩ := hone.1 name state hstate
  rw [hid, Option.some.injEq] at hid'
  subst hid'
  -- The entry under the id that is removed is that of the name.
  have hname : ∀ entry ∈ c.scheduler.live, entry.id = id → entry.name = name := by
    intro entry hentry heq
    have hmem : ⟨id, name⟩ ∈ c.scheduler.entriesOf name := by
      rw [hentries]
      exact List.mem_singleton_self _
    rw [JobScheduler.unique hentry (JobScheduler.mem_entriesOf.mp hmem).1 heq]
  constructor
  · intro name' state' hstate'
    rw [Records.lookup_remove] at hstate'
    split at hstate'
    · cases hstate'
    · next hne =>
      obtain ⟨id', hid', hentries'⟩ := hone.1 name' state' hstate'
      refine ⟨id', hid', ?_⟩
      show (c.scheduler.remove id).entriesOf name' = _
      rw [JobScheduler.entriesOf_remove, ← hentries']
      refine List.filter_eq_self.mpr fun entry hentry => decide_eq_true fun heq => ?_
      obtain ⟨hlive, hentryName⟩ := JobScheduler.mem_entriesOf.mp hentry
      exact hne (hentryName.symm.trans (hname entry hlive heq))
  · intro entry hentry
    obtain ⟨hlive, hne⟩ := List.mem_filter.mp hentry
    rw [Records.lookup_remove]
    split
    · next heq =>
      have hmem : entry ∈ c.scheduler.entriesOf name := JobScheduler.mem_entriesOf.mpr ⟨hlive, heq⟩
      rw [hentries, List.mem_singleton] at hmem
      rw [hmem] at hne
      exact absurd rfl (of_decide_eq_true hne)
    · exact hone.2 entry hlive

/-! ## One action -/

theorem idsOwned_answer (e : Outside) (a : CronAction) (hown : IdsOwned c) :
    IdsOwned (c.answer validCron e a).2 := by
  cases a with
  | addJob config =>
    by_cases hok : validCron config.cron = true ∧ e.fault = none
    · obtain ⟨hvalid, hfault⟩ := hok
      show IdsOwned (c.addJob validCron e.fault config).2
      rw [hfault, addJob_ok hvalid]
      exact idsOwned_added hown config
    · show IdsOwned (c.addJob validCron e.fault config).2
      rw [addJob_skipped hok]
      exact hown
  | removeJob name =>
    show IdsOwned (c.removeJob e.fault name).2
    unfold CronScheduler.removeJob
    split
    · exact hown
    · split
      · exact idsOwned_removed hown rfl fun _ h => h
      · split
        · exact idsOwned_removed hown rfl fun _ h => h
        · exact idsOwned_removed hown rfl fun _ h => List.mem_of_mem_filter h
  | setEnabled name enabled => exact idsOwned_same (sameIds_setEnabled enabled) hown
  | recordExecution name execution success =>
    exact idsOwned_same (sameIds_recordExecution execution success) hown
  | getConfig name => exact hown
  | listJobs => exact hown
  | getJob name => exact hown

theorem hasOrphan_answer (e : Outside) (a : CronAction) (hown : IdsOwned c) (h : HasOrphan c) :
    HasOrphan (c.answer validCron e a).2 := by
  cases a with
  | addJob config =>
    show HasOrphan (c.addJob validCron e.fault config).2
    by_cases hok : validCron config.cron = true ∧ e.fault = none
    · rw [hok.2, addJob_ok hok.1]
      exact hasOrphan_added h config
    · rw [addJob_skipped hok]
      exact h
  | removeJob name =>
    show HasOrphan (c.removeJob e.fault name).2
    unfold CronScheduler.removeJob
    split
    · exact h
    · next hstate =>
      split
      · exact hasOrphan_unmapped h
      · next hid =>
        split
        · exact hasOrphan_unmapped h
        · exact hasOrphan_removed hown h hstate hid
  | setEnabled name enabled => exact hasOrphan_same (sameIds_setEnabled enabled) h
  | recordExecution name execution success =>
    exact hasOrphan_same (sameIds_recordExecution execution success) h
  | getConfig name => exact h
  | listJobs => exact h
  | getJob name => exact h

theorem oneEntryEach_answer {a : Action} {w : World} (hone : OneEntryEach w.2.cron)
    (hkeeps : KeepsOneEntry validCron a w) : OneEntryEach (answerAlone validCron a w).2.2.cron := by
  cases a with
  | store a => exact hone
  | system a => exact hone
  | cron a =>
    show OneEntryEach (w.2.cron.answer validCron (w.1 0) a).2
    cases a with
    | addJob config =>
      show OneEntryEach (w.2.cron.addJob validCron (w.1 0).fault config).2
      by_cases hok : validCron config.cron = true ∧ (w.1 0).fault = none
      · have habsent := hkeeps hok.1 hok.2
        rw [hok.2, addJob_ok hok.1]
        exact oneEntryEach_added hone habsent
      · rw [addJob_skipped hok]
        exact hone
    | removeJob name =>
      show OneEntryEach (w.2.cron.removeJob (w.1 0).fault name).2
      cases hstate : w.2.cron.jobs.lookup name with
      | none =>
        rw [removeJob_absent hstate]
        exact hone
      | some state =>
        obtain ⟨id, hid, -⟩ := hone.1 name state hstate
        have hfault : (w.1 0).fault = none := by
          refine hkeeps.resolve_right fun habsent => ?_
          rw [hstate] at habsent
          cases habsent
        rw [hfault, removeJob_ok hstate hid]
        exact oneEntryEach_removed hone hstate hid
    | setEnabled name enabled => exact oneEntryEach_same (sameIds_setEnabled enabled) hone
    | recordExecution name execution success =>
      exact oneEntryEach_same (sameIds_recordExecution execution success) hone
    | getConfig name => exact hone
    | listJobs => exact hone
    | getJob name => exact hone

theorem hasOrphan_of_not_keeps {a : Action} {w : World} (hone : OneEntryEach w.2.cron)
    (hkeeps : ¬ KeepsOneEntry validCron a w) : HasOrphan (answerAlone validCron a w).2.2.cron := by
  cases a with
  | store a => exact absurd trivial hkeeps
  | system a => exact absurd trivial hkeeps
  | cron a =>
    show HasOrphan (w.2.cron.answer validCron (w.1 0) a).2
    cases a with
    | addJob config =>
      show HasOrphan (w.2.cron.addJob validCron (w.1 0).fault config).2
      unfold KeepsOneEntry at hkeeps
      simp only [not_forall] at hkeeps
      obtain ⟨hvalid, hfault, hpresent⟩ := hkeeps
      obtain ⟨state, hstate⟩ := Option.ne_none_iff_exists'.mp hpresent
      rw [hfault, addJob_ok hvalid]
      exact hasOrphan_of_added hone hstate
    | removeJob name =>
      show HasOrphan (w.2.cron.removeJob (w.1 0).fault name).2
      obtain ⟨hfault, hpresent⟩ := not_or.mp hkeeps
      obtain ⟨text, htext⟩ := Option.ne_none_iff_exists'.mp hfault
      obtain ⟨state, hstate⟩ := Option.ne_none_iff_exists'.mp hpresent
      rw [htext, removeJob_failed hstate]
      exact hasOrphan_of_failed hone hstate
    | setEnabled name enabled => exact absurd trivial hkeeps
    | recordExecution name execution success => exact absurd trivial hkeeps
    | getConfig name => exact absurd trivial hkeeps
    | listJobs => exact absurd trivial hkeeps
    | getJob name => exact absurd trivial hkeeps

theorem idsOwned_answerAlone (a : Action) (w : World) (hown : IdsOwned w.2.cron) :
    IdsOwned (answerAlone validCron a w).2.2.cron := by
  cases a with
  | cron a => exact idsOwned_answer (w.1 0) a hown
  | store a => exact hown
  | system a => exact hown

/-- A program that starts where the map and the scheduler agree ends so exactly when all its
    actions keep the agreement. -/
theorem oneEntryEach_runOn_iff {α : Type} (p : Task α) {w : World} (hown : IdsOwned w.2.cron)
    (hone : OneEntryEach w.2.cron) :
    OneEntryEach (runOn (answerAlone validCron) p w).2.2.cron ↔
      Meets (answerAlone validCron) (KeepsOneEntry validCron) p w := by
  refine meets_iff_good (fun w => IdsOwned w.2.cron) (fun w => OneEntryEach w.2.cron)
    (fun w => HasOrphan w.2.cron) (fun a w h => idsOwned_answerAlone a w h)
    (fun a w _ h hok => oneEntryEach_answer h hok) (fun a w _ h hok => hasOrphan_of_not_keeps h hok)
    (fun a w hown h => ?_) (fun w h => h.not_oneEntryEach) p hown hone
  cases a with
  | cron a => exact hasOrphan_answer (w.1 0) a hown h
  | store a => exact h
  | system a => exact h

/-! ## The restoring of jobs -/

/-- Jobs of different names, none of them in the map, can be added one after the other. -/
theorem addJobs_meets (configs : List ScheduleConfig) {w : World}
    (hnodup : (configs.map ScheduleConfig.name).Nodup)
    (habsent : ∀ config ∈ configs, w.2.cron.jobs.lookup config.name = none) :
    Meets (answerAlone validCron) (KeepsOneEntry validCron) (addJobs configs) w := by
  induction configs generalizing w with
  | nil => trivial
  | cons config rest ih =>
    rw [List.map_cons, List.nodup_cons] at hnodup
    obtain ⟨hnew, hnodup'⟩ := hnodup
    refine ⟨fun _ _ => habsent config List.mem_cons_self, ih hnodup' fun config' hconfig' => ?_⟩
    have habsent' := habsent config' (List.mem_cons_of_mem _ hconfig')
    show (w.2.cron.addJob validCron (w.1 0).fault config).2.jobs.lookup config'.name = none
    by_cases hok : validCron config.cron = true ∧ (w.1 0).fault = none
    · rw [hok.2, addJob_ok hok.1, lookup_added, if_neg, habsent']
      intro hname
      exact hnew (hname ▸ List.mem_map_of_mem hconfig')
    · rw [addJob_skipped hok, habsent']

/-- The jobs of the store have different names, and the scheduler starts empty. -/
theorem restoreJobs_meets (outside : Nat → Outside) (d : AppState) :
    Meets (answerAlone validCron) (KeepsOneEntry validCron) restoreJobs (outside, d.reboot) := by
  refine ⟨trivial, ?_⟩
  show Meets _ _ (match (d.store.listCronJobs (outside 0).txn).1 with
    | .error _ => ret _
    | .ok jobs => _) _
  cases hjobs : (d.store.listCronJobs (outside 0).txn).1 with
  | error e => trivial
  | ok jobs =>
    have heq : jobs = d.store.cronJobs.values := by
      unfold StateStore.listCronJobs at hjobs
      cases htxn : (outside 0).txn with
      | none =>
        rw [htxn] at hjobs
        exact (Except.ok.inj hjobs).symm
      | some stage =>
        rw [htxn] at hjobs
        cases hjobs
    refine meets_bind.mpr ⟨addJobs_meets jobs ?_ fun _ _ => rfl, trivial⟩
    rw [heq, Records.map_key_values]
    exact d.store.cronJobs.table.nodup_keys

/-! ## Runs -/

/-- Every job that the event adds is new to the map, and every removal goes through. -/
def AddsNewJobs (validCron : String → Bool) (d : AppState) : Event → Prop
  | .perform outside activity => d.serving = true →
      Meets (answerAlone validCron) (KeepsOneEntry validCron) activity.program (outside, d)
  | .crash _ => True
  | .restart _ => True

theorem idsOwned_step (d : AppState) (e : Event) (hown : IdsOwned d.cron) :
    IdsOwned (step validCron d e).cron := by
  have hkeeps : ∀ {α : Type} (p : Task α) (w : World), IdsOwned w.2.cron →
      IdsOwned (runOn (answerAlone validCron) p w).2.2.cron :=
    fun p w h => runOn_keeps (fun a w h => idsOwned_answerAlone a w h) p h
  cases e with
  | perform outside activity =>
    unfold step
    dsimp only
    split
    · exact hkeeps _ _ hown
    · exact hown
  | crash pids => exact hown
  | restart outside =>
    refine hkeeps restoreJobs (outside, d.reboot) fun name state id hstate => ?_
    cases hstate

theorem oneEntryEach_step_iff {d : AppState} (e : Event) (hown : IdsOwned d.cron)
    (hone : OneEntryEach d.cron) :
    OneEntryEach (step validCron d e).cron ↔ AddsNewJobs validCron d e := by
  cases e with
  | perform outside activity =>
    unfold step AddsNewJobs
    dsimp only
    split
    · next hserving =>
      rw [oneEntryEach_runOn_iff activity.program (w := (outside, d)) hown hone]
      exact ⟨fun h _ => h, fun h => h hserving⟩
    · next hserving => exact ⟨fun _ h => absurd h hserving, fun _ => hone⟩
  | crash pids => exact ⟨fun _ => trivial, fun _ => hone⟩
  | restart outside =>
    refine ⟨fun _ => trivial, fun _ => ?_⟩
    refine (oneEntryEach_runOn_iff restoreJobs (w := (outside, d.reboot)) ?_ oneEntryEach_empty).mpr
      (restoreJobs_meets outside d)
    intro name state id hstate
    cases hstate

/-- Each scheduled job has one live entry in every state of a run of the daemon, from its start
    with any store on, exactly when, in this run, every job that was added was new to the map and
    every removal went through. -/
theorem one_entry_throughout_iff (validCron : String → Bool) (d : AppState) (events : List Event) :
    (∀ pre, pre <+: events → OneEntryEach (run (step validCron) d.reboot pre).cron) ↔
      Along (step validCron) (AddsNewJobs validCron) d.reboot events := by
  refine good_throughout_iff (fun d : AppState => IdsOwned d.cron)
    (fun d : AppState => OneEntryEach d.cron) ?_ oneEntryEach_empty idsOwned_step
    fun _ e hown hone => oneEntryEach_step_iff e hown hone
  intro name state id hstate
  cases hstate

/-- A job created again has two live entries. -/
theorem created_again_has_two_entries :
    ¬ OneEntryEach (run (step fun _ => true) AppState.empty.reboot
      [.perform (fun _ => .calm) (.cronCreate (dailyJob "backup")),
        .perform (fun _ => .calm) (.cronCreate (dailyJob "backup"))]).cron := by
  refine HasOrphan.not_oneEntryEach ⟨⟨0, "backup"⟩, by decide, fun state hstate => ?_⟩
  have hsecond : state = .new (dailyJob "backup") (some 1) := by
    rw [← Option.some.injEq, ← hstate]
    decide
  rw [hsecond]
  decide

end Mik.Daemon
