/-
  Starting the workers of a cluster (`src/runtime/cluster/`, `src/commands/run.rs`).

  Four functions start workers in a loop: as processes whose handles go to a global list, as tokio
  tasks, and as the children of `mik run`, with and without the load balancer. A worker has the
  number of those that this call started before it. The environment says how each start goes and
  which workers have ended by themselves when the call returns; neither dropping a `Child` nor
  dropping a `JoinHandle` ends one, and what ends a task is the `shutdown` flag of its runtime,
  which dropping the runtime does not set.

  `all_or_nothing_iff` says exactly when a failed call leaves no worker running.
  `killAllWorkers_after` is what is left to the callers of the process loop: every child it started
  is on the list.
-/
import Mik.Lib.Acquire

namespace Mik.Cluster

open Mik.Lib Mik.Lib.Prog

/-! ## What the functions ask of the system -/

inductive Stdio where
  | inherit
  | null
  deriving DecidableEq, Repr

structure Command where
  exe : String
  args : List String
  envs : List (String × String)
  stdin : Stdio := .inherit
  stdout : Stdio := .inherit
  stderr : Stdio := .inherit
  deriving DecidableEq, Repr

/-- A child process, or the handle of a task: the number of the worker, and its id. -/
structure Child where
  worker : Nat
  pid : Nat
  deriving DecidableEq, Repr

structure SocketAddr where
  host : String
  port : UInt16
  deriving DecidableEq, Repr

inductive WorkerHandle where
  | process (pid : Nat) (port : UInt16) (addr : SocketAddr)
  | task (runtime : Nat) (handle : Option Child) (port : UInt16)
  deriving DecidableEq, Repr

/-- An `anyhow` error, the outermost context first. -/
abbrev Chain := List String

inductive Action where
  | currentExe
  | spawn (cmd : Command)
  /-- `CHILD_PROCESSES.lock()` and `push`. -/
  | storeChild (child : Child)
  /-- `CHILD_PROCESSES.lock()` and `drain`. -/
  | drainChildren
  | factory
  /-- `tokio::spawn` of the task that watches the runtime. -/
  | spawnTask (runtime : Nat) (port : UInt16)
  | sleep (millis : Nat)
  | ctrlC
  /-- The load balancer serves until it fails or Ctrl+C comes; its error is only printed. -/
  | serveLb (addr : SocketAddr) (backends : List String)
  /-- `child.kill()` and, but for `kill_all_workers`, `child.wait()`. -/
  | kill (child : Child)

abbrev Answer : Action → Type
  | .currentExe => Except String String
  | .spawn _ => Except String Child
  | .storeChild _ => Unit
  | .drainChildren => List Child
  | .factory => Except Chain Nat
  | .spawnTask _ _ => Child
  | .sleep _ => Unit
  | .ctrlC => Except String Unit
  | .serveLb _ _ => Unit
  | .kill _ => Unit

abbrev Spawning (α : Type) := Prog Action Answer α

def ask (a : Action) : Spawning (Answer a) := perform a

/-- How the system answers, by the number of the worker being started. -/
structure Env where
  currentExe : Nat → Except String String
  spawn : Nat → Command → Except String Nat
  factory : Nat → Except Chain Nat
  ctrlC : Except String Unit
  /-- The worker has ended by itself when the call returns. -/
  ended : Nat → Bool

structure World where
  /-- How many workers the call has started. -/
  started : Nat
  killed : List Nat
  /-- `CHILD_PROCESSES`, unless its lock is poisoned. -/
  childProcesses : Option (List Child)

def World.start (childProcesses : Option (List Child)) : World := ⟨0, [], childProcesses⟩

def answer (env : Env) : (a : Action) → World → Answer a × World
  | .currentExe, w => (env.currentExe w.started, w)
  | .spawn cmd, w =>
    match env.spawn w.started cmd with
    | .error e => (.error e, w)
    | .ok pid => (.ok ⟨w.started, pid⟩, { w with started := w.started + 1 })
  | .storeChild child, w => ((), { w with childProcesses := w.childProcesses.map (· ++ [child]) })
  | .drainChildren, w =>
    (w.childProcesses.getD [], { w with childProcesses := w.childProcesses.map fun _ => [] })
  | .factory, w => (env.factory w.started, w)
  | .spawnTask _ _, w => (⟨w.started, w.started⟩, { w with started := w.started + 1 })
  | .sleep _, w => ((), w)
  | .ctrlC, w => (env.ctrlC, w)
  | .serveLb _ _, w => ((), w)
  | .kill child, w => ((), { w with killed := child.worker :: w.killed })

/-- The workers that the call has started and that are still running. -/
def World.running (env : Env) (w : World) : List Nat :=
  (List.range w.started).filter fun i => i ∉ w.killed ∧ env.ended i = false

/-! ## The four loops -/

/-- A number added to a port, which wraps in a release build. -/
def portAt (basePort : UInt16) (i : Nat) : UInt16 := basePort + i.toUInt16

/-- `with_context`. -/
def withContext {α : Type} (message : String) : Except Chain α → Except Chain α
  | .ok x => .ok x
  | .error e => .error (message :: e)

def workerCommand (exe : String) (port : UInt16) (manifestPath : String) : Command where
  exe := exe
  args := ["run", "--port", port.toNat.repr, "--manifest", manifestPath]
  envs := [("MIK_WORKER", "1"), ("MIK_WORKER_PORT", port.toNat.repr)]
  stdin := .null

/-- `process::spawn_worker`. -/
def spawnWorker (port : UInt16) (manifestPath : String) :
    Spawning (Except Chain WorkerHandle) := do
  match ← ask .currentExe with
  | .error e => return .error ["Failed to get current executable path", e]
  | .ok exe =>
    match ← ask (.spawn (workerCommand exe port manifestPath)) with
    | .error e => return .error ["Failed to spawn worker process on port " ++ port.toNat.repr, e]
    | .ok child =>
      ask (.storeChild child)
      return .ok (.process child.pid port ⟨"127.0.0.1", port⟩)

namespace Process

/-- The body of the loop of `process::spawn_workers`. -/
def startWorker (basePort : UInt16) (manifestPath : String) (i : Nat) :
    Spawning (Except Chain WorkerHandle) := do
  let port := portAt basePort i
  return withContext ("Failed to spawn worker " ++ i.repr ++ " on port " ++ port.toNat.repr)
    (← spawnWorker port manifestPath)

def spawnWorkers (count : Nat) (basePort : UInt16) (manifestPath : String) :
    Spawning (Except Chain (List WorkerHandle)) :=
  acquireAll (startWorker basePort manifestPath) 0 count

end Process

/-- The loops over children that end them. -/
def killEach : List Child → Spawning Unit
  | [] => pure ()
  | child :: rest => do
    ask (.kill child)
    killEach rest

/-- `kill_all_workers`; on a poisoned lock it does nothing. -/
def killAllWorkers : Spawning Unit := do
  killEach (← ask .drainChildren)

namespace Task

/-- The body of the loop of `task::spawn_workers`. -/
def startWorker (basePort : UInt16) (i : Nat) : Spawning (Except Chain WorkerHandle) := do
  let port := portAt basePort i
  match ← ask .factory with
  | .error e => return .error e
  | .ok runtime =>
    let handle ← ask (.spawnTask runtime port)
    return .ok (.task runtime (some handle) port)

def spawnWorkers (count : Nat) (basePort : UInt16) : Spawning (Except Chain (List WorkerHandle)) :=
  acquireAll (startWorker basePort) 0 count

end Task

/-- The command of a child of `mik run`. -/
def childCommand (exe : String) (componentPath : Option String) (localOnly : Bool)
    (port : UInt16) (i : Nat) : Command where
  exe := exe
  args := ["run"] ++ componentPath.toList ++ ["--port", port.toNat.repr]
  envs := [("MIK_WORKER_ID", i.repr)] ++ if localOnly then [("MIK_LOCAL", "1")] else []
  stdout := .null

/-- The body of the loop in `run_multi_worker` and `run_with_lb`, where worker `i` gets a port
    of its own. -/
def startChild (exe : String) (componentPath : Option String) (localOnly : Bool)
    (port : Nat → UInt16) (i : Nat) : Spawning (Except Chain Child) := do
  match ← ask (.spawn (childCommand exe componentPath localOnly (port i) i)) with
  | .error e => return .error ["Failed to spawn worker " ++ i.repr, e]
  | .ok child => return .ok child

def defaultPort : UInt16 := 3000

/-- The base port: `--port`, `mik.toml`, or the default. -/
def basePortOf (portOverride manifestPort : Option UInt16) : UInt16 :=
  (portOverride.orElse fun _ => manifestPort).getD defaultPort

/-- The end of `run_multi_worker`: wait for Ctrl+C and kill all workers. -/
def waitForCtrlC (children : List Child) : Spawning (Except Chain Unit) := do
  match ← ask .ctrlC with
  | .error e => return .error [e]
  | .ok () =>
    killEach children
    return .ok ()

/-- The end of `run_with_lb`: run the load balancer and kill all workers. Its address, an IPv4
    literal and a port, always parses. -/
def balance (workers basePort : UInt16) (localOnly : Bool) (children : List Child) :
    Spawning (Except Chain Unit) := do
  ask (.sleep 500)
  let bindAddr := if localOnly then "127.0.0.1" else "0.0.0.0"
  ask (.serveLb ⟨bindAddr, basePort⟩ ((List.range workers.toNat).map fun i =>
    "127.0.0.1:" ++ (portAt (basePort + 1) i).toNat.repr))
  killEach children
  return .ok ()

/-- `run_multi_worker` and `run_with_lb`: start worker `i` on `port i`, then go on to `rest`. -/
def runChildren (componentPath : Option String) (workers : UInt16) (localOnly : Bool)
    (port : Nat → UInt16) (rest : List Child → Spawning (Except Chain Unit)) :
    Spawning (Except Chain Unit) := do
  match ← ask .currentExe with
  | .error e => return .error ["Failed to get current executable", e]
  | .ok exe =>
    match ← acquireAll (startChild exe componentPath localOnly port) 0 workers.toNat with
    | .error e => return .error e
    | .ok children => rest children

def runMultiWorker (componentPath : Option String) (workers : UInt16)
    (portOverride manifestPort : Option UInt16) (localOnly : Bool) :
    Spawning (Except Chain Unit) :=
  let basePort := basePortOf portOverride manifestPort
  runChildren componentPath workers localOnly (portAt basePort) waitForCtrlC

/-- The workers get the ports after the one of the load balancer. -/
def runWithLb (componentPath : Option String) (workers : UInt16)
    (portOverride manifestPort : Option UInt16) (localOnly : Bool) :
    Spawning (Except Chain Unit) :=
  let basePort := basePortOf portOverride manifestPort
  runChildren componentPath workers localOnly (portAt (basePort + 1))
    (balance workers basePort localOnly)

/-! ## How one start goes -/

/-- The start of worker `i` succeeds in the process loop. -/
def Env.processStarts (env : Env) (basePort : UInt16) (manifestPath : String) (i : Nat) : Prop :=
  ∃ exe pid, env.currentExe i = .ok exe ∧
    env.spawn i (workerCommand exe (portAt basePort i) manifestPath) = .ok pid

def Env.taskStarts (env : Env) (i : Nat) : Prop := ∃ runtime, env.factory i = .ok runtime

/-- The start of worker `i` succeeds in the loops of `mik run`. -/
def Env.childStarts (env : Env) (exe : String) (componentPath : Option String) (localOnly : Bool)
    (port : Nat → UInt16) (i : Nat) : Prop :=
  ∃ pid, env.spawn i (childCommand exe componentPath localOnly (port i) i) = .ok pid

section

variable {env : Env} {α β : Type} {w : World}

/-- No worker has been killed, and the children started are all on the list, if its lock can be
    taken. -/
structure Listed (usable : Bool) (w : World) : Prop where
  unharmed : w.killed = []
  lock : w.childProcesses.isSome = usable
  listed : ∀ children, w.childProcesses = some children →
    ∀ i, i < w.started → ∃ child ∈ children, child.worker = i

/-- The list after one more child. -/
theorem Listed.store {usable : Bool} (h : Listed usable w) (pid : Nat) :
    Listed usable ⟨w.started + 1, w.killed, w.childProcesses.map (· ++ [⟨w.started, pid⟩])⟩ where
  unharmed := h.unharmed
  lock := by
    rw [Option.isSome_map]
    exact h.lock
  listed children hchildren i hi := by
    obtain ⟨before, hbefore, rfl⟩ := Option.map_eq_some_iff.mp hchildren
    by_cases hlast : i = w.started
    · exact ⟨⟨w.started, pid⟩, List.mem_append_right _ List.mem_cons_self, hlast.symm⟩
    · have hi' : i < w.started + 1 := hi
      obtain ⟨child, hmem, hworker⟩ := h.listed before hbefore i (by omega)
      exact ⟨child, List.mem_append_left _ hmem, hworker⟩

theorem listed_start (childProcesses : Option (List Child)) :
    Listed childProcesses.isSome (World.start childProcesses) :=
  ⟨rfl, rfl, fun _ _ i hi => absurd hi (Nat.not_lt_zero i)⟩

theorem process_acquires (usable : Bool) (basePort : UInt16) (manifestPath : String) :
    Acquires (answer env) World.started (Listed usable) (env.processStarts basePort manifestPath)
      (Process.startWorker basePort manifestPath) where
  granted w hw hstart := by
    obtain ⟨exe, pid, hexe, hspawn⟩ := hstart
    refine ⟨.process pid (portAt basePort w.started) ⟨"127.0.0.1", portAt basePort w.started⟩,
      ⟨w.started + 1, w.killed, w.childProcesses.map (· ++ [⟨w.started, pid⟩])⟩, ?_, rfl,
      hw.store pid⟩
    simp only [Process.startWorker, spawnWorker, runOn_bind, ask, perform_bind, runOn_act, answer,
      hexe, hspawn, pure_eq, runOn_ret, withContext]
  refused w hw hfail := by
    cases hexe : env.currentExe w.started with
    | error e =>
      refine ⟨["Failed to spawn worker " ++ w.started.repr ++ " on port " ++
          (portAt basePort w.started).toNat.repr, "Failed to get current executable path", e],
        w, ?_, rfl, hw⟩
      simp only [Process.startWorker, spawnWorker, runOn_bind, ask, perform_bind, runOn_act,
        answer, hexe, pure_eq, runOn_ret, withContext]
    | ok exe =>
      cases hspawn : env.spawn w.started
          (workerCommand exe (portAt basePort w.started) manifestPath) with
      | error e =>
        refine ⟨["Failed to spawn worker " ++ w.started.repr ++ " on port " ++
            (portAt basePort w.started).toNat.repr, "Failed to spawn worker process on port " ++
            (portAt basePort w.started).toNat.repr, e], w, ?_, rfl, hw⟩
        simp only [Process.startWorker, spawnWorker, runOn_bind, ask, perform_bind, runOn_act,
          answer, hexe, hspawn, pure_eq, runOn_ret, withContext]
      | ok pid => exact absurd ⟨exe, pid, hexe, hspawn⟩ hfail

theorem task_acquires (basePort : UInt16) :
    Acquires (answer env) World.started (fun w => w.killed = []) env.taskStarts
      (Task.startWorker basePort) where
  granted w hw hstart := by
    obtain ⟨runtime, hruntime⟩ := hstart
    refine ⟨.task runtime (some ⟨w.started, w.started⟩) (portAt basePort w.started),
      { w with started := w.started + 1 }, ?_, rfl, hw⟩
    simp only [Task.startWorker, ask, perform_bind, runOn_act, answer, hruntime, pure_eq, runOn_ret]
  refused w hw hfail := by
    cases hruntime : env.factory w.started with
    | error e =>
      refine ⟨e, w, ?_, rfl, hw⟩
      simp only [Task.startWorker, ask, perform_bind, runOn_act, answer, hruntime, pure_eq,
        runOn_ret]
    | ok runtime => exact absurd ⟨runtime, hruntime⟩ hfail

theorem child_acquires (exe : String) (componentPath : Option String) (localOnly : Bool)
    (port : Nat → UInt16) :
    Acquires (answer env) World.started (fun w => w.killed = [])
      (env.childStarts exe componentPath localOnly port)
      (startChild exe componentPath localOnly port) where
  granted w hw hstart := by
    obtain ⟨pid, hspawn⟩ := hstart
    refine ⟨⟨w.started, pid⟩, { w with started := w.started + 1 }, ?_, rfl, hw⟩
    simp only [startChild, ask, perform_bind, runOn_act, answer, hspawn, pure_eq, runOn_ret]
  refused w hw hfail := by
    cases hspawn : env.spawn w.started
        (childCommand exe componentPath localOnly (port w.started) w.started) with
    | error e =>
      refine ⟨["Failed to spawn worker " ++ w.started.repr, e], w, ?_, rfl, hw⟩
      simp only [startChild, ask, perform_bind, runOn_act, answer, hspawn, pure_eq, runOn_ret]
    | ok pid => exact absurd ⟨pid, hspawn⟩ hfail

/-! ## What a failed call leaves running -/

/-- If the call returns an error, none of the workers it has started is running. -/
def AllOrNothing (env : Env) (childProcesses : Option (List Child))
    (p : Spawning (Except Chain α)) : Prop :=
  ∀ e, (p.runOn (answer env) (World.start childProcesses)).1 = .error e →
    (p.runOn (answer env) (World.start childProcesses)).2.running env = []

/-- When a start is the first to fail, the workers before it have ended by themselves. -/
def EndedBefore (env : Env) (starts : Nat → Prop) (count : Nat) : Prop :=
  ∀ k, FirstRefused starts count k → ∀ j, j < k → env.ended j = true

theorem running_eq_nil_iff (hw : w.killed = []) :
    w.running env = [] ↔ ∀ j, j < w.started → env.ended j = true := by
  simp [World.running, List.filter_eq_nil_iff, hw]

/-- Where all start, none is the first to fail. -/
theorem endedBefore_of_all {starts : Nat → Prop} {count : Nat} (h : ∀ j, j < count → starts j) :
    EndedBefore env starts count :=
  fun k hk => absurd (h k hk.1) hk.2.1

/-- What a loop has left behind that stopped at worker `k`. -/
theorem left_behind_iff {starts : Nat → Prop} {count k : Nat} (hk : FirstRefused starts count k)
    (hheld : w.started = k) (hw : w.killed = []) :
    w.running env = [] ↔ EndedBefore env starts count := by
  rw [running_eq_nil_iff hw, hheld]
  constructor
  · intro hended l hl
    rw [hl.eq hk]
    exact hended
  · intro hended
    exact hended k hk

theorem loop_allOrNothing_iff {Inv : World → Prop} {starts : Nat → Prop}
    {start : Nat → Spawning (Except Chain α)} {childProcesses : Option (List Child)}
    (h : Acquires (answer env) World.started Inv starts start)
    (hunharmed : ∀ w, Inv w → w.killed = []) (hstart : Inv (World.start childProcesses))
    (count : Nat) :
    AllOrNothing env childProcesses (acquireAll start 0 count) ↔
      EndedBefore env starts count := by
  unfold AllOrNothing
  rcases acquireAll_run h count hstart rfl with ⟨hall, xs, w', hrun, _, _⟩ |
    ⟨k, hk, e, w', hrun, hheld, hw'⟩
  · rw [hrun]
    exact iff_of_true nofun (endedBefore_of_all hall)
  · rw [hrun, ← left_behind_iff hk hheld (hunharmed w' hw')]
    exact ⟨fun hnone => hnone e rfl, fun hleft _ _ => hleft⟩

theorem processes_allOrNothing_iff (childProcesses : Option (List Child)) (count : Nat)
    (basePort : UInt16) (manifestPath : String) :
    AllOrNothing env childProcesses (Process.spawnWorkers count basePort manifestPath) ↔
      EndedBefore env (env.processStarts basePort manifestPath) count :=
  loop_allOrNothing_iff (process_acquires _ basePort manifestPath)
    (fun _ hw => hw.unharmed) (listed_start childProcesses) count

theorem tasks_allOrNothing_iff (childProcesses : Option (List Child)) (count : Nat)
    (basePort : UInt16) :
    AllOrNothing env childProcesses (Task.spawnWorkers count basePort) ↔
      EndedBefore env env.taskStarts count :=
  loop_allOrNothing_iff (task_acquires basePort) (fun _ hw => hw) rfl count

/-- The functions of `mik run`: nothing is left behind when their loop fails, nor when what follows
    it does after all children were started. -/
theorem runChildren_allOrNothing_iff (childProcesses : Option (List Child))
    (componentPath : Option String) (workers : UInt16) (localOnly : Bool) (port : Nat → UInt16)
    (rest : List Child → Spawning (Except Chain Unit)) (fails : Prop)
    (hrest : ∀ children w, w.killed = [] → w.started = workers.toNat →
      ((∀ e, ((rest children).runOn (answer env) w).1 = .error e →
        ((rest children).runOn (answer env) w).2.running env = []) ↔
      (fails → ∀ j, j < workers.toNat → env.ended j = true))) :
    AllOrNothing env childProcesses (runChildren componentPath workers localOnly port rest) ↔
      ∀ exe, env.currentExe 0 = .ok exe →
        EndedBefore env (env.childStarts exe componentPath localOnly port) workers.toNat ∧
        ((∀ j, j < workers.toNat → env.childStarts exe componentPath localOnly port j) →
          fails → ∀ j, j < workers.toNat → env.ended j = true) := by
  unfold AllOrNothing
  simp only [runChildren, ask, perform_bind, runOn_act, answer]
  have hnumber : (World.start childProcesses).started = 0 := rfl
  rw [hnumber]
  cases hexe : env.currentExe 0 with
  | error e => exact iff_of_true (fun _ _ => rfl) nofun
  | ok exe =>
    simp only [Except.ok.injEq, forall_eq', runOn_bind]
    have hunharmed : (World.start childProcesses).killed = [] := rfl
    rcases acquireAll_run (child_acquires exe componentPath localOnly port) workers.toNat
      hunharmed hnumber with ⟨hall, children, w', hrun, hheld, hw'⟩ |
        ⟨k, hk, e, w', hrun, hheld, hw'⟩
    · rw [hrun]
      dsimp only
      rw [hrest children w' hw' hheld]
      exact ⟨fun hended => ⟨endedBefore_of_all hall, fun _ => hended⟩,
        fun hended => hended.2 hall⟩
    · rw [hrun, ← left_behind_iff hk hheld hw']
      constructor
      · intro hnone
        exact ⟨hnone e rfl, fun hall => absurd (hall k hk.1) hk.2.1⟩
      · intro hleft e' _
        exact hleft.1

theorem waitForCtrlC_leaves_iff (children : List Child) {count : Nat} (hw : w.killed = [])
    (hheld : w.started = count) :
    (∀ e, ((waitForCtrlC children).runOn (answer env) w).1 = .error e →
      ((waitForCtrlC children).runOn (answer env) w).2.running env = []) ↔
    ((∃ e, env.ctrlC = .error e) → ∀ j, j < count → env.ended j = true) := by
  cases hctrl : env.ctrlC with
  | error e =>
    have hrun : (waitForCtrlC children).runOn (answer env) w = (.error [e], w) := by
      simp only [waitForCtrlC, ask, perform_bind, runOn_act, answer, hctrl, pure_eq, runOn_ret]
    rw [hrun, ← hheld, ← running_eq_nil_iff hw]
    exact ⟨fun hnone _ => hnone [e] rfl, fun hleft _ _ => hleft ⟨e, rfl⟩⟩
  | ok u =>
    have hrun : ((waitForCtrlC children).runOn (answer env) w).1 = .ok () := by
      simp only [waitForCtrlC, ask, perform_bind, runOn_act, answer, hctrl, runOn_bind, pure_eq,
        runOn_ret]
    rw [hrun]
    exact iff_of_true nofun nofun

/-- Once the children are started, `run_with_lb` never fails. -/
theorem balance_ok (workers basePort : UInt16) (localOnly : Bool) (children : List Child) :
    ((balance workers basePort localOnly children).runOn (answer env) w).1 = .ok () := by
  simp only [balance, ask, perform_bind, runOn_act, runOn_bind, pure_eq, runOn_ret]

end

/-- Exactly when starting a cluster is all or nothing: for each of the four functions, a start that
    is the first to fail finds all workers before it ended by themselves, and where
    `run_multi_worker` fails to wait for Ctrl+C all its workers have. -/
theorem all_or_nothing_iff (env : Env) (childProcesses : Option (List Child)) (count : Nat)
    (basePort : UInt16) (manifestPath : String) (componentPath : Option String) (workers : UInt16)
    (portOverride manifestPort : Option UInt16) (localOnly : Bool) :
    (AllOrNothing env childProcesses (Process.spawnWorkers count basePort manifestPath) ↔
      EndedBefore env (env.processStarts basePort manifestPath) count) ∧
    (AllOrNothing env childProcesses (Task.spawnWorkers count basePort) ↔
      EndedBefore env env.taskStarts count) ∧
    (AllOrNothing env childProcesses
        (runMultiWorker componentPath workers portOverride manifestPort localOnly) ↔
      ∀ exe, env.currentExe 0 = .ok exe →
        EndedBefore env (env.childStarts exe componentPath localOnly
          (portAt (basePortOf portOverride manifestPort))) workers.toNat ∧
        ((∀ j, j < workers.toNat → env.childStarts exe componentPath localOnly
            (portAt (basePortOf portOverride manifestPort)) j) →
          (∃ e, env.ctrlC = .error e) → ∀ j, j < workers.toNat → env.ended j = true)) ∧
    (AllOrNothing env childProcesses
        (runWithLb componentPath workers portOverride manifestPort localOnly) ↔
      ∀ exe, env.currentExe 0 = .ok exe →
        EndedBefore env (env.childStarts exe componentPath localOnly
          (portAt (basePortOf portOverride manifestPort + 1))) workers.toNat) := by
  refine ⟨processes_allOrNothing_iff childProcesses count basePort manifestPath,
    tasks_allOrNothing_iff childProcesses count basePort, ?_, ?_⟩
  · exact runChildren_allOrNothing_iff childProcesses componentPath workers localOnly _
      waitForCtrlC _ fun children w hw hheld => waitForCtrlC_leaves_iff children hw hheld
  · unfold runWithLb
    rw [runChildren_allOrNothing_iff childProcesses componentPath workers localOnly _ _ False]
    · simp
    · intro children w _ _
      rw [balance_ok]
      exact iff_of_true nofun nofun

/-- The second worker cannot be spawned, nor the second runtime made, and no worker ends. -/
def secondFails : Env where
  currentExe _ := .ok "mik"
  spawn i _ := if i = 1 then .error "Resource temporarily unavailable" else .ok (100 + i)
  factory i := if i = 1 then .error ["no modules directory"] else .ok i
  ctrlC := .ok ()
  ended _ := false

theorem first_worker_left :
    ¬ AllOrNothing secondFails (some []) (Process.spawnWorkers 2 3001 "mik.toml") ∧
    ¬ AllOrNothing secondFails (some []) (Task.spawnWorkers 2 3001) ∧
    ¬ AllOrNothing secondFails (some []) (runMultiWorker none 2 none none false) ∧
    ¬ AllOrNothing secondFails (some []) (runWithLb none 2 none none false) := by
  refine ⟨fun h => ?_, fun h => ?_, fun h => ?_, fun h => ?_⟩
  · exact absurd (h _ rfl) (by decide)
  · exact absurd (h _ rfl) (by decide)
  · exact absurd (h _ rfl) (by decide)
  · exact absurd (h _ rfl) (by decide)

/-! ## What is left to the caller -/

section

variable {env : Env}

theorem killEach_run (children : List Child) (w : World) :
    (killEach children).runOn (answer env) w =
      ((), { w with killed := (children.map Child.worker).reverse ++ w.killed }) := by
  induction children generalizing w with
  | nil => rfl
  | cons child children ih =>
    show (killEach children).runOn (answer env) { w with killed := child.worker :: w.killed } = _
    rw [ih, List.map_cons, List.reverse_cons, List.append_assoc]
    rfl

/-- Workers that are all on the list are ended by `kill_all_workers`. -/
theorem Listed.running_after_kill {w : World} (h : Listed true w) :
    (killAllWorkers.runOn (answer env) w).2.running env = [] := by
  obtain ⟨children, hchildren⟩ := Option.isSome_iff_exists.mp h.lock
  have hrun : killAllWorkers.runOn (answer env) w =
      ((), { w with
        killed := (children.map Child.worker).reverse ++ w.killed
        childProcesses := some [] }) := by
    simp only [killAllWorkers, ask, perform_bind, runOn_act, answer, hchildren,
      Option.getD_some, Option.map_some, killEach_run]
  rw [hrun, World.running, List.filter_eq_nil_iff]
  intro i hi
  obtain ⟨child, hmem, hworker⟩ := h.listed children hchildren i (List.mem_range.mp hi)
  have hkilled : i ∈ (children.map Child.worker).reverse ++ w.killed := by
    rw [List.mem_append, List.mem_reverse, List.mem_map]
    exact Or.inl ⟨child, hmem, hworker⟩
  simp [hkilled]

/-- Whatever became of `process::spawn_workers`, `kill_all_workers` ends every worker it started,
    if the lock of the list can be taken. -/
theorem killAllWorkers_after (children : List Child) (count : Nat) (basePort : UInt16)
    (manifestPath : String) :
    ((Process.spawnWorkers count basePort manifestPath >>= fun _ => killAllWorkers).runOn
      (answer env) (World.start (some children))).2.running env = [] := by
  have hloop : Acquires (answer env) World.started (Listed true) _ _ :=
    process_acquires true basePort manifestPath
  rw [runOn_bind]
  rcases acquireAll_run hloop count (listed_start (some children)) rfl with
    ⟨_, _, w', hrun, _, hw'⟩ | ⟨_, _, _, w', hrun, _, hw'⟩
  · rw [Process.spawnWorkers, hrun]
    exact hw'.running_after_kill
  · rw [Process.spawnWorkers, hrun]
    exact hw'.running_after_kill

end

end Mik.Cluster
