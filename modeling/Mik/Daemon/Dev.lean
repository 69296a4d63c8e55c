/-
  `mik dev` (`src/commands/dev.rs`): one server, restarted when the sources have changed.

  The command starts a server, hands every event of the watch loop to `handleWatchEvent`, and ends
  the server when it is interrupted. Between two actions of the command time passes and servers may
  end by themselves. A server that has ended may still be listed as a process, since nobody waits
  for it, and no server is started under the id of a live one. The servers outlive the command.

  `dev_one_server`: at every moment of a run at most one server is alive, whatever fails, and none
  is left if the command returns without an error. `dev_fresh`: once what was last recorded for a
  module or the configuration has been drained, the server is no older than that record.
-/
import Mik.Daemon.Actions
import Mik.Daemon.Watch

namespace Mik.Daemon.Dev

open Mik.Lib Prog Debounce

/-! ## The world -/

/-- A live server of the command, and when it was started. -/
structure Server where
  pid : Nat
  since : Nat
  deriving DecidableEq, Repr

structure World where
  clock : Nat
  servers : List Server
  store : StateStore

/-- What the outside world contributes to one action. -/
structure Outside where
  elapsed : Nat
  /-- The servers that have ended by themselves. -/
  ended : List Nat
  /-- A process that has ended is still listed. -/
  listed : Bool
  fault : Option String
  txn : Option TxnStage
  pid : Nat
  now : Int
  daemonPid : Option Nat

/-- Nothing fails and nothing ends. -/
def Outside.calm (pid : Nat) : Outside where
  elapsed := 0
  ended := []
  listed := false
  fault := none
  txn := none
  pid := pid
  now := 0
  daemonPid := none

inductive Action where
  | isRunning (pid : Nat)
  | killInstance (pid : Nat)
  | spawnInstance (config : SpawnConfig)
  | openStore
  | newWatcher
  | now
  | saveInstance (i : Instance)
  | getInstance (name : String)
  | listInstances
  | getDaemonPid

abbrev Reply : Action → Type
  | .isRunning _ => Except String Bool
  | .killInstance _ => Except String Unit
  | .spawnInstance _ => Except String Nat
  | .openStore => Except String Unit
  | .newWatcher => Except String Unit
  | .now => Int
  | .saveInstance _ => Except String Unit
  | .getInstance _ => Except String (Option Instance)
  | .listInstances => Except String (List Instance)
  | .getDaemonPid => Option Nat

namespace World

def alive (w : World) (pid : Nat) : Bool := w.servers.any fun p => p.pid == pid

/-- Time passes, and the servers of `ended` end. -/
def pass (w : World) (elapsed : Nat) (ended : List Nat) : World :=
  { w with clock := w.clock + elapsed, servers := w.servers.filter fun p => p.pid ∉ ended }

end World

/-- `is_running` itself never fails. -/
def answerNow (e : Outside) : (a : Action) → World → Reply a × World
  | .isRunning pid, w => (.ok (w.alive pid || e.listed), w)
  | .killInstance pid, w =>
    match e.fault with
    | some text => (.error text, w)
    | none => (.ok (), { w with servers := w.servers.filter fun p => p.pid ≠ pid })
  | .spawnInstance _, w =>
    match e.fault with
    | some text => (.error text, w)
    | none =>
      if w.alive e.pid then (.error "Failed to spawn mik server process", w)
      else (.ok e.pid, { w with servers := w.servers ++ [⟨e.pid, w.clock⟩] })
  | .openStore, w => (e.fault.elim (.ok ()) .error, w)
  | .newWatcher, w => (e.fault.elim (.ok ()) .error, w)
  | .now, w => (e.now, w)
  | .saveInstance i, w =>
    let r := w.store.saveInstance e.txn i
    (r.1, { w with store := r.2 })
  | .getInstance name, w => ((w.store.getInstance e.txn name).1, w)
  | .listInstances, w => ((w.store.listInstances e.txn).1, w)
  | .getDaemonPid, w => (e.daemonPid, w)

def answer (e : Outside) (a : Action) (w : World) : Reply a × World :=
  answerNow e a (w.pass e.elapsed e.ended)

/-! ## The command -/

abbrev Task (α : Type) := Prog Action Reply α

def on (a : Action) : Task (Reply a) := act a ret

/-- `Instance::new`, at the time `now`. -/
def newInstance (name : String) (port pid : Nat) (config : String) (now : Int) : Instance where
  name := name
  port := port
  pid := pid
  status := .running
  config := config
  startedAt := now
  modules := []
  autoRestart := false
  restartCount := 0
  lastRestartAt := none

def saveInstanceState (name : String) (port pid : Nat) (config : String) :
    Task (Except String Unit) := do
  let now ← on .now
  on (.saveInstance (newInstance name port pid config now))

def killIf (running : Bool) (pid : Nat) : Task (Except String Unit) :=
  if running then on (.killInstance pid) else ret (.ok ())

/-- The first half of `restart_instance`: the old process is killed if it is running. -/
def stopOld (oldPid : Nat) : Task (Except String Unit) :=
  on (.isRunning oldPid) >>= fun running => killIf (running.toOption.getD false) oldPid

/-- The state is updated; that it could not be is not seen. -/
def recordNew (name : String) (config : SpawnConfig) (pid : Nat) : Task Nat :=
  on .openStore >>= fun
    | .error _ => ret pid
    | .ok _ => do
      let _ ← saveInstanceState name config.port pid config.configPath
      ret pid

/-- The second half, with the id that is stored afterwards. -/
def startNew (name : String) (config : SpawnConfig) (oldPid : Nat) : Task Nat :=
  on (.spawnInstance config) >>= fun
    | .error _ => ret oldPid
    | .ok pid => recordNew name config pid

def restartInstance (name : String) (config : SpawnConfig) (oldPid : Nat) : Task Nat :=
  stopOld oldPid >>= fun
    | .error _ => ret oldPid
    | .ok _ => startNew name config oldPid

def handleWatchEvent (name : String) (config : SpawnConfig) (pid : Nat) : WatchEvent → Task Nat
  | .moduleChanged _ => restartInstance name config pid
  | .configChanged => restartInstance name config pid
  | .moduleRemoved _ => ret pid
  | .error _ => ret pid

/-- `on_reload` for the events of a drain, one after the other. -/
def reloadAll (name : String) (config : SpawnConfig) : List WatchEvent → Nat → Task Nat
  | [], pid => ret pid
  | event :: events, pid => handleWatchEvent name config pid event >>= reloadAll name config events

/-- `execute` after the first server has been started, up to the watch loop. -/
def beginWatch (name : String) (config : SpawnConfig) (pid : Nat) : Task (Except String Nat) :=
  on .openStore >>= fun
    | .error text => ret (.error text)
    | .ok _ => saveInstanceState name config.port pid config.configPath >>= fun
      | .error text => ret (.error text)
      | .ok _ => on .newWatcher >>= fun
        | .error text => ret (.error text)
        | .ok _ => ret (.ok pid)

/-- `execute` from the start of the first server to that of the watch loop. -/
def startServer (name : String) (config : SpawnConfig) : Task (Except String Nat) :=
  on (.spawnInstance config) >>= fun
    | .error text => ret (.error text)
    | .ok pid => beginWatch name config pid

def isAlive (i : Instance) : Task (Except String Bool) :=
  if i.status = .running then on (.isRunning i.pid) else ret (.ok false)

/-- How many of the instances are running. -/
def countRunning : List Instance → Task Nat
  | [] => ret 0
  | i :: rest => do
    let running ← isAlive i
    let count ← countRunning rest
    ret (if running.toOption.getD false then count + 1 else count)

def checkAndStopDaemon : Task (Except String Unit) :=
  on .listInstances >>= fun
    | .error text => ret (.error text)
    | .ok instances => do
      let running ← countRunning instances
      if running = 0 then
        on .getDaemonPid >>= fun
          | some pid => on (.killInstance pid)
          | none => ret (.ok ())
      else ret (.ok ())

/-- The update of the state at the end, which may fail unseen. -/
def markStopped (name : String) : Task Unit :=
  on (.getInstance name) >>= fun
    | .ok (some i) => do
      let _ ← on (.saveInstance { i with status := .stopped })
      ret ()
    | _ => ret ()

/-- What comes after the server has been stopped. -/
def finish (noServices : Bool) (name : String) : Task Unit := do
  markStopped name
  if noServices then ret ()
  else do
    let _ ← checkAndStopDaemon
    ret ()

/-- `execute` after the watch loop. -/
def cleanup (noServices : Bool) (name : String) (finalPid : Nat) : Task (Except String Unit) :=
  on (.isRunning finalPid) >>= fun
    | .error text => ret (.error text)
    | .ok running => killIf running finalPid >>= fun
      | .error text => ret (.error text)
      | .ok _ => finish noServices name >>= fun _ => ret (.ok ())

/-! ## The watch loop -/

/-- `pid` is what `current_pid` holds. -/
structure State where
  debouncer : DebouncedEvents
  pid : Nat
  world : World

inductive Event where
  | pass (elapsed : Nat) (ended : List Nat)
  /-- The loop receives an event, and records it. -/
  | receive (event : WatchEvent)
  /-- The loop drains, and calls `on_reload` for what comes of it. -/
  | drain (outside : Nat → Outside)

/-- What a drain gives now. -/
def State.ready (s : State) : List WatchEvent := (s.debouncer.drainReady s.world.clock).1

section

variable (noServices : Bool) (name : String) (config : SpawnConfig)

/-- The reloads of a drain. -/
def State.reloads (s : State) (outside : Nat → Outside) : Nat × ((Nat → Outside) × World) :=
  runOn (alone answer) (reloadAll name config s.ready s.pid) (outside, s.world)

def step (s : State) : Event → State
  | .pass elapsed ended => { s with world := s.world.pass elapsed ended }
  | .receive event => { s with debouncer := s.debouncer.record s.world.clock event }
  | .drain outside =>
    let r := s.reloads name config outside
    ⟨(s.debouncer.drainReady s.world.clock).2, r.1, r.2.2⟩

/-- How the start ends. -/
def launch (starting : Nat → Outside) (w : World) : Except String Nat × World :=
  let r := runOn (alone answer) (startServer name config) (starting, w)
  (r.1, r.2.2)

/-- The loop is about to run. -/
def State.first (debounceMs : UInt64) (pid : Nat) (w : World) : State :=
  ⟨.new debounceMs, pid, w⟩

/-- The loop runs over the events and is interrupted then. -/
def execute (debounceMs : UInt64) (starting : Nat → Outside) (events : List Event)
    (ending : Nat → Outside) (w : World) : Except String Unit × World :=
  match launch name config starting w with
  | (.error text, w') => (.error text, w')
  | (.ok pid, w') =>
    let s := run (step name config) (.first debounceMs pid w') events
    let r := runOn (alone answer) (cleanup noServices name s.pid) (ending, s.world)
    (r.1, r.2.2)

end

/-! ## At most one server -/

/-- At most one server is alive; it is the held one, and was started at the time `t` or later. -/
def Only (t pid : Nat) (w : World) : Prop :=
  w.servers = [] ∨ ∃ since, t ≤ since ∧ w.servers = [⟨pid, since⟩]

def AtMostOne (w : World) : Prop := w.servers.length ≤ 1

def Action.spawns : Action → Bool
  | .spawnInstance _ => true
  | _ => false

def Action.kills : Action → Bool
  | .killInstance _ => true
  | _ => false

/-- Neither starts a server nor kills one. -/
def Quiet (a : Action) : Prop := a.spawns = false ∧ a.kills = false

section

variable {t u pid : Nat} {w w' : World} {e : Outside} {a : Action}

theorem Only.sublist (h : Only t pid w) (hsub : w'.servers.Sublist w.servers) :
    Only t pid w' := by
  rcases h with hnone | ⟨since, htime, hone⟩
  · rw [hnone] at hsub
    exact Or.inl (List.sublist_nil.mp hsub)
  · rw [hone, List.sublist_singleton] at hsub
    exact hsub.imp id fun h => ⟨since, htime, h⟩

theorem Only.atMostOne (h : Only t pid w) : AtMostOne w := by
  unfold AtMostOne
  rcases h with hnone | ⟨since, -, hone⟩
  · rw [hnone]
    exact Nat.zero_le 1
  · rw [hone]
    exact Nat.le_refl 1

theorem Only.earlier (h : Only t pid w) (hle : u ≤ t) : Only u pid w :=
  h.imp id fun ⟨since, htime, hone⟩ => ⟨since, hle.trans htime, hone⟩

theorem Only.since_le (h : Only t pid w) : ∀ p ∈ w.servers, p.pid = pid ∧ t ≤ p.since := by
  intro p hp
  rcases h with hnone | ⟨since, htime, hone⟩
  · rw [hnone] at hp
    exact absurd hp List.not_mem_nil
  · rw [hone] at hp
    rw [List.mem_singleton.mp hp]
    exact ⟨rfl, htime⟩

theorem Only.none_of_not_alive (h : Only t pid w) (hdead : w.alive pid = false) :
    w.servers = [] := by
  rcases h with hnone | ⟨since, -, hone⟩
  · exact hnone
  · unfold World.alive at hdead
    rw [hone] at hdead
    simp at hdead

theorem sublist_pass (w : World) (elapsed : Nat) (ended : List Nat) :
    (w.pass elapsed ended).servers.Sublist w.servers := List.filter_sublist

theorem servers_pass_nil (w : World) (elapsed : Nat) : (w.pass elapsed []).servers = w.servers :=
  List.filter_eq_self.mpr fun _ _ => rfl

/-- Only a start of a process adds a server. -/
theorem sublist_answer (h : a.spawns = false) : (answer e a w).2.servers.Sublist w.servers := by
  have hpass := sublist_pass w e.elapsed e.ended
  cases a with
  | spawnInstance config => nomatch h
  | killInstance pid =>
    unfold answer answerNow
    dsimp only
    split
    · exact hpass
    · exact List.filter_sublist.trans hpass
  | isRunning pid => exact hpass
  | openStore => exact hpass
  | newWatcher => exact hpass
  | now => exact hpass
  | saveInstance i => exact hpass
  | getInstance name => exact hpass
  | listInstances => exact hpass
  | getDaemonPid => exact hpass

theorem clock_answerNow (e : Outside) (a : Action) (w : World) :
    (answerNow e a w).2.clock = w.clock := by
  cases a with
  | spawnInstance config =>
    unfold answerNow
    dsimp only
    split
    · rfl
    · split
      · rfl
      · rfl
  | killInstance pid =>
    unfold answerNow
    dsimp only
    split
    · rfl
    · rfl
  | _ => rfl

/-- The clock does not go back. -/
theorem clock_answer (h : t ≤ w.clock) : t ≤ (answer e a w).2.clock := by
  have hclock := clock_answerNow e a (w.pass e.elapsed e.ended)
  have hpass : w.clock ≤ (w.pass e.elapsed e.ended).clock := Nat.le_add_right _ _
  exact (h.trans hpass).trans hclock.ge

/-- What `is_running` says of the held server: if it is not running, none is alive. -/
theorem none_of_not_running (h : Only u pid w)
    (hreply : (answer e (.isRunning pid) w).1.toOption.getD false = false) :
    (answer e (.isRunning pid) w).2.servers = [] := by
  have hor : ((w.pass e.elapsed e.ended).alive pid || e.listed) = false := hreply
  exact (h.sublist (sublist_pass w _ _)).none_of_not_alive (Bool.or_eq_false_iff.mp hor).1

/-- After an attempt to stop the held server. -/
def Stopped (u pid : Nat) (r : Except String Unit) (w : World) : Prop :=
  match r with
  | .error _ => Only u pid w
  | .ok _ => w.servers = []

theorem stopped_killInstance (h : Only u pid w) :
    Stopped u pid (answer e (.killInstance pid) w).1 (answer e (.killInstance pid) w).2 := by
  have hpass := h.sublist (sublist_pass w e.elapsed e.ended)
  unfold answer answerNow
  cases e.fault with
  | some text => exact hpass
  | none =>
    show (w.pass e.elapsed e.ended).servers.filter (fun p => p.pid ≠ pid) = []
    refine List.filter_eq_nil_iff.mpr fun p hp => ?_
    simpa using (hpass.since_le p hp).1

/-- After an attempt to start a server where there was none. -/
def Spawned (t : Nat) (r : Except String Nat) (w : World) : Prop :=
  match r with
  | .error _ => w.servers = []
  | .ok pid => Only t pid w

theorem spawned_spawnInstance (config : SpawnConfig) (h : w.servers = []) (htime : t ≤ w.clock) :
    Spawned t (answer e (.spawnInstance config) w).1 (answer e (.spawnInstance config) w).2 := by
  have hpass : (w.pass e.elapsed e.ended).servers = [] :=
    List.sublist_nil.mp (h ▸ sublist_pass w e.elapsed e.ended)
  unfold answer answerNow
  cases e.fault with
  | some text => exact hpass
  | none =>
    dsimp only
    split
    · exact hpass
    · refine Or.inr ⟨w.clock + e.elapsed, htime.trans (Nat.le_add_right _ _), ?_⟩
      show (w.pass e.elapsed e.ended).servers ++ [_] = _
      rw [hpass]
      rfl

end

/-! ## The programs -/

/-- The held server may be alive, and no other one is; the time is `t` or later. -/
def Held (u t pid : Nat) (w : World) : Prop := Only u pid w ∧ t ≤ w.clock

/-- An outline in which at most one server is alive at each action. -/
def Outlined {α : Type} (Pre : World → Prop) (p : Task α) (Post : α → World → Prop) : Prop :=
  Outline (alone answer) (fun w => AtMostOne w.2) (fun w => Pre w.2) p fun x w => Post x w.2

section

variable {t u pid : Nat} {w : World} {e : Outside} {a : Action} {α : Type} {p : Task α}
  {Q : α → Prop} {name : String} {config : SpawnConfig}

theorem Held.answer (h : Held u t pid w) (ha : a.spawns = false) :
    Held u t pid (answer e a w).2 := ⟨h.1.sublist (sublist_answer ha), clock_answer h.2⟩

/-- What starts no process keeps the held server. -/
theorem outlined_of_within (hp : p.Within (fun _ _ => True) (fun a => a.spawns = false) Q) :
    Outlined (Held u t pid) p fun x w => Q x ∧ Held u t pid w :=
  Outline.of_within hp (fun _ h => h.1.atMostOne) fun _ _ ha h => h.answer ha

theorem outlined_killIf (running : Bool) :
    Outlined (fun w => Held u t pid w ∧ (running = false → w.servers = [])) (killIf running pid)
      fun r w => Stopped u pid r w ∧ t ≤ w.clock := by
  unfold killIf
  split
  · exact Outline.act (fun r w => Stopped u pid r w.2 ∧ t ≤ w.2.clock)
      (fun _ h => h.1.1.atMostOne)
      (fun _ h => ⟨stopped_killInstance h.1.1, clock_answer h.1.2⟩)
      fun r => Outline.ret fun _ h => h
  · next hno => exact Outline.ret fun _ h => ⟨h.2 (Bool.eq_false_iff.mpr hno), h.1.2⟩

theorem outlined_stopOld :
    Outlined (Held u t pid) (stopOld pid) fun r w => Stopped u pid r w ∧ t ≤ w.clock :=
  Outline.act (fun r w => Held u t pid w.2 ∧ (r.toOption.getD false = false → w.2.servers = []))
    (fun _ h => h.1.atMostOne) (fun _ h => ⟨h.answer rfl, none_of_not_running h.1⟩)
    fun _ => outlined_killIf _

/-- Nothing is alive; the time is `t` or later. -/
def Empty (t : Nat) (w : World) : Prop := w.servers = [] ∧ t ≤ w.clock

theorem Empty.held (h : Empty t w) (u pid : Nat) : Held u t pid w := ⟨Or.inl h.1, h.2⟩

theorem Empty.answer (h : Empty t w) (ha : a.spawns = false) : Empty t (answer e a w).2 :=
  ⟨List.sublist_nil.mp (h.1 ▸ sublist_answer ha), clock_answer h.2⟩

theorem within_saveInstanceState (name : String) (port pid : Nat) (config : String) :
    (saveInstanceState name port pid config).Within (fun _ _ => True) Quiet fun _ => True :=
  ⟨⟨rfl, rfl⟩, fun _ _ => ⟨⟨rfl, rfl⟩, fun _ _ => trivial⟩⟩

theorem within_recordNew (name : String) (config : SpawnConfig) (pid : Nat) :
    (recordNew name config pid).Within (fun _ _ => True) Quiet fun r => r = pid := by
  refine ⟨⟨rfl, rfl⟩, fun opened _ => ?_⟩
  cases opened with
  | error text => rfl
  | ok x => exact (within_saveInstanceState _ _ _ _).bind fun _ _ => rfl

theorem outlined_startNew : Outlined (Empty t) (startNew name config pid) (Held t t) := by
  refine Outline.act (fun r w => Spawned t r w.2 ∧ t ≤ w.2.clock)
    (fun _ h => (h.held t pid).1.atMostOne)
    (fun _ h => ⟨spawned_spawnInstance config h.1 h.2, clock_answer h.2⟩) fun spawned => ?_
  cases spawned with
  | error text => exact Outline.ret fun _ h => ⟨Or.inl h.1, h.2⟩
  | ok pid' =>
    have hrecord : (recordNew name config pid').Within (fun _ _ => True)
        (fun a => a.spawns = false) fun r => r = pid' :=
      (within_recordNew name config pid').mono (fun _ h => h.1) fun _ h => h
    exact (outlined_of_within hrecord).consequence (fun _ h => h) fun r _ h => h.1 ▸ h.2

theorem outlined_restartInstance (hle : u ≤ t) :
    Outlined (Held u t pid) (restartInstance name config pid) (Held u t) := by
  refine Outline.bind outlined_stopOld fun stopped => ?_
  cases stopped with
  | error text => exact Outline.ret fun _ h => h
  | ok x =>
    exact outlined_startNew.consequence (fun _ h => h) fun pid' w h => ⟨h.1.earlier hle, h.2⟩

theorem outlined_handleWatchEvent (event : WatchEvent) (hle : u ≤ t) :
    Outlined (Held u t pid) (handleWatchEvent name config pid event) (Held u t) := by
  cases event with
  | moduleChanged path => exact outlined_restartInstance hle
  | configChanged => exact outlined_restartInstance hle
  | moduleRemoved path => exact Outline.ret fun _ h => h
  | error message => exact Outline.ret fun _ h => h

theorem outlined_reloadAll (events : List WatchEvent) (hle : u ≤ t) :
    Outlined (Held u t pid) (reloadAll name config events pid) (Held u t) := by
  induction events generalizing pid with
  | nil => exact Outline.ret fun _ h => h
  | cons event events ih =>
    exact Outline.bind (outlined_handleWatchEvent event hle) fun pid' => ih

/-- What the start of the command leaves. -/
def Launched (t : Nat) (r : Except String Nat) (w : World) : Prop :=
  ∃ pid, (∀ pid', r = .ok pid' → pid' = pid) ∧ Held t t pid w

theorem within_beginWatch (name : String) (config : SpawnConfig) (pid : Nat) :
    (beginWatch name config pid).Within (fun _ _ => True) (fun a => a.spawns = false)
      fun r => ∀ pid', r = .ok pid' → pid' = pid := by
  refine ⟨rfl, fun opened _ => ?_⟩
  cases opened with
  | error text => exact nofun
  | ok x =>
    refine ((within_saveInstanceState _ _ _ _).mono (fun _ h => h.1) fun _ h => h).bind
      fun saved _ => ?_
    cases saved with
    | error text => exact nofun
    | ok x =>
      refine ⟨rfl, fun watching _ => ?_⟩
      cases watching with
      | error text => exact nofun
      | ok x => exact fun pid' h => (Except.ok.inj h).symm

theorem outlined_startServer :
    Outlined (Empty t) (startServer name config) (Launched t) := by
  refine Outline.act (fun r w => Spawned t r w.2 ∧ t ≤ w.2.clock)
    (fun _ h => (h.held t 0).1.atMostOne)
    (fun _ h => ⟨spawned_spawnInstance config h.1 h.2, clock_answer h.2⟩) fun spawned => ?_
  cases spawned with
  | error text => exact Outline.ret fun _ h => ⟨0, nofun, Or.inl h.1, h.2⟩
  | ok pid =>
    exact (outlined_of_within (within_beginWatch name config pid)).consequence
      (fun _ h => h) fun r w h => ⟨pid, h⟩

theorem within_countRunning (instances : List Instance) :
    (countRunning instances).Within (fun _ _ => True) (fun a => a.spawns = false)
      fun _ => True := by
  induction instances with
  | nil => trivial
  | cons i rest ih =>
    have halive : (isAlive i).Within (fun _ _ => True) (fun a => a.spawns = false)
        fun _ => True := by
      unfold isAlive
      split
      · exact ⟨rfl, fun _ _ => trivial⟩
      · trivial
    exact halive.bind fun running _ => ih.bind fun count _ => trivial

theorem within_finish (noServices : Bool) (name : String) :
    (finish noServices name).Within (fun _ _ => True) (fun a => a.spawns = false)
      fun _ => True := by
  have hmark : (markStopped name).Within (fun _ _ => True) (fun a => a.spawns = false)
      fun _ => True := by
    refine ⟨rfl, fun found _ => ?_⟩
    match found with
    | .error _ => trivial
    | .ok none => trivial
    | .ok (some i) => exact ⟨rfl, fun _ _ => trivial⟩
  have hstop : checkAndStopDaemon.Within (fun _ _ => True) (fun a => a.spawns = false)
      fun _ => True := by
    refine ⟨rfl, fun instances _ => ?_⟩
    cases instances with
    | error text => trivial
    | ok instances =>
      refine (within_countRunning instances).bind fun running _ => ?_
      split
      · refine ⟨rfl, fun pid _ => ?_⟩
        cases pid with
        | none => trivial
        | some pid => exact ⟨rfl, fun _ _ => trivial⟩
      · trivial
  refine hmark.bind fun _ _ => ?_
  split
  · trivial
  · exact hstop.bind fun _ _ => trivial

/-- What the command leaves: no server unless it fails. -/
def Ended (r : Except String Unit) (w : World) : Prop :=
  AtMostOne w ∧ (r = .ok () → w.servers = [])

theorem outlined_cleanup (noServices : Bool) :
    Outlined (Held u t pid) (cleanup noServices name pid) Ended := by
  refine Outline.act
    (fun r w => Held u t pid w.2 ∧ (r.toOption.getD false = false → w.2.servers = []))
    (fun _ h => h.1.atMostOne) (fun _ h => ⟨h.answer rfl, none_of_not_running h.1⟩)
    fun running => ?_
  cases running with
  | error text => exact Outline.ret fun _ h => ⟨h.1.1.atMostOne, nofun⟩
  | ok running =>
    dsimp only [Prog.bind]
    refine Outline.bind (outlined_killIf running) fun killed => ?_
    cases killed with
    | error text => exact Outline.ret fun _ h => ⟨Only.atMostOne h.1, nofun⟩
    | ok x =>
      have hrest : Outline (alone answer) (fun w => AtMostOne w.2) (fun w => Empty t w.2)
          (finish noServices name) fun _ w => True ∧ Empty t w.2 :=
        Outline.of_within (within_finish noServices name)
          (fun _ h => (h.held t 0).1.atMostOne) fun _ _ ha h => h.answer ha
      exact Outline.bind hrest fun _ =>
        Outline.ret fun _ h => ⟨(h.2.held t 0).1.atMostOne, fun _ => h.2.1⟩

end

/-! ## Runs -/

section

variable (name : String) (config : SpawnConfig)

/-- `Good` holds before the event, and at each action of the reloads of a drain. -/
def GoodAt (Good : World → Prop) (s : State) : Event → Prop
  | .drain outside => Good s.world ∧
      Meets (alone answer) (fun _ w => Good w.2) (reloadAll name config s.ready s.pid)
        (outside, s.world)
  | _ => Good s.world

variable {name : String} {config : SpawnConfig} {t u : Nat} {s : State}

theorem held_step (h : Held u t s.pid s.world) (hle : u ≤ t) (e : Event) :
    Held u t (step name config s e).pid (step name config s e).world := by
  cases e with
  | pass elapsed ended =>
    exact ⟨h.1.sublist (sublist_pass _ _ _), h.2.trans (Nat.le_add_right _ _)⟩
  | receive event => exact h
  | drain outside => exact (outlined_reloadAll s.ready hle (outside, s.world) h).2

theorem goodAt_of_held (h : Held 0 0 s.pid s.world) (e : Event) :
    GoodAt name config AtMostOne s e := by
  cases e with
  | pass elapsed ended => exact h.1.atMostOne
  | receive event => exact h.1.atMostOne
  | drain outside =>
    exact ⟨h.1.atMostOne, (outlined_reloadAll s.ready (Nat.le_refl 0) (outside, s.world) h).1⟩

theorem held_run (h : Held 0 0 s.pid s.world) (es : List Event) :
    Held 0 0 (run (step name config) s es).pid (run (step name config) s es).world :=
  run_keeps (fun s : State => Held 0 0 s.pid s.world)
    (fun _ e hs => held_step hs (Nat.le_refl 0) e) h es

variable {starting : Nat → Outside} {clock pid : Nat} {store : StateStore} {w : World}

theorem empty_at (clock : Nat) (store : StateStore) : Empty 0 ⟨clock, [], store⟩ :=
  ⟨rfl, Nat.zero_le _⟩

theorem launched (name : String) (config : SpawnConfig) (starting : Nat → Outside) (clock : Nat)
    (store : StateStore) :
    Launched 0 (launch name config starting ⟨clock, [], store⟩).1
      (launch name config starting ⟨clock, [], store⟩).2 :=
  (outlined_startServer (starting, ⟨clock, [], store⟩) (empty_at clock store)).2

theorem held_launch (h : launch name config starting ⟨clock, [], store⟩ = (.ok pid, w)) :
    Held 0 0 pid w := by
  obtain ⟨pid', hpid, hheld⟩ := launched name config starting clock store
  rw [h] at hpid hheld
  rw [hpid pid rfl]
  exact hheld

theorem ended_execute (noServices : Bool) (debounceMs : UInt64) (events : List Event)
    (ending : Nat → Outside) :
    Ended (execute noServices name config debounceMs starting events ending ⟨clock, [], store⟩).1
      (execute noServices name config debounceMs starting events ending ⟨clock, [], store⟩).2 := by
  unfold execute
  have hlaunched := launched name config starting clock store
  split
  · next text w' hlaunch =>
    obtain ⟨pid, -, hheld⟩ := hlaunched
    rw [hlaunch] at hheld
    exact ⟨hheld.1.atMostOne, nofun⟩
  · next pid w' hlaunch =>
    have hlast := @held_run name config (.first debounceMs pid w') (held_launch hlaunch) events
    exact (outlined_cleanup noServices (ending, _) hlast).2

end

/-- At every moment of a run at most one server of the command is alive, whatever fails and
    whichever servers end by themselves; between the reloads it is the one the command holds, and
    the command leaves none unless it returns an error. -/
theorem dev_one_server (noServices : Bool) (name : String) (config : SpawnConfig)
    (debounceMs : UInt64) (starting : Nat → Outside) (events : List Event)
    (ending : Nat → Outside) (clock : Nat) (store : StateStore) :
    let w : World := ⟨clock, [], store⟩
    let ended := execute noServices name config debounceMs starting events ending w
    Meets (alone answer) (fun _ w => AtMostOne w.2) (startServer name config) (starting, w) ∧
    (∀ pid w', launch name config starting w = (.ok pid, w') →
      let first := State.first debounceMs pid w'
      let last := run (step name config) first events
      Along (step name config) (GoodAt name config AtMostOne) first events ∧
      (∀ pre, pre <+: events → ∀ p ∈ (run (step name config) first pre).world.servers,
        p.pid = (run (step name config) first pre).pid) ∧
      Meets (alone answer) (fun _ w => AtMostOne w.2) (cleanup noServices name last.pid)
        (ending, last.world)) ∧
    AtMostOne ended.2 ∧ (ended.1 = .ok () → ended.2.servers = []) := by
  intro w ended
  have hended : Ended ended.1 ended.2 := ended_execute noServices debounceMs events ending
  refine ⟨(outlined_startServer (starting, w) (empty_at clock store)).1, ?_, hended⟩
  intro pid w' hlaunch first last
  have hrun := @held_run name config first (held_launch hlaunch)
  refine ⟨?_, fun pre _ p hp => ((hrun pre).1.since_le p hp).1, ?_⟩
  · exact along_iff_forall.mpr fun done e _ => goodAt_of_held (hrun done) e
  · exact (outlined_cleanup noServices (ending, last.world) (hrun events)).1

/-! ## Fresh servers -/

/-- The command restarts the server for the event. -/
def restarts : WatchEvent → Bool
  | .moduleChanged _ | .configChanged => true
  | .moduleRemoved _ | .error _ => false

/-- A kill does not fail. -/
def KillHolds (a : Action) (w : (Nat → Outside) × World) : Prop :=
  a.kills = true → (w.1 0).fault = none

/-- A kill does not fail, a start succeeds, and no server ends by itself. -/
def Smooth (a : Action) (w : (Nat → Outside) × World) : Prop :=
  (w.1 0).ended = [] ∧ (a.kills = true → (w.1 0).fault = none) ∧
    (a.spawns = true → (w.1 0).fault = none ∧ w.2.alive (w.1 0).pid = false)

section

variable (name : String) (config : SpawnConfig)

/-- The actions of the reloads of a drain meet `Ok`. -/
def OnDrain (Ok : Action → (Nat → Outside) × World → Prop) (s : State) : Event → Prop
  | .drain outside =>
    Meets (alone answer) Ok (reloadAll name config s.ready s.pid) (outside, s.world)
  | _ => True

def endsNone : Event → Prop
  | .pass _ ended => ended = []
  | _ => True

/-- Some drain comes at the time or later. -/
def DrainedFrom (time : Nat) : State → List Event → Prop
  | _, [] => False
  | s, e :: es =>
    (∃ outside, e = .drain outside ∧ time ≤ s.world.clock) ∨
      DrainedFrom time (step name config s e) es

end

instance instDecidableKillHolds (a : Action) (w : (Nat → Outside) × World) :
    Decidable (KillHolds a w) := inferInstanceAs (Decidable (_ = true → _ = none))

instance instDecidableSmooth (a : Action) (w : (Nat → Outside) × World) :
    Decidable (Smooth a w) :=
  inferInstanceAs (Decidable (_ = [] ∧ (_ = true → _ = none) ∧ (_ = true → _ = none ∧ _ = false)))

instance instDecidableOnDrain (name : String) (config : SpawnConfig)
    (Ok : Action → (Nat → Outside) × World → Prop) [∀ a w, Decidable (Ok a w)] (s : State)
    (e : Event) : Decidable (OnDrain name config Ok s e) :=
  match e with
  | .drain _ => inferInstanceAs (Decidable (Meets _ _ _ _))
  | .pass _ _ | .receive _ => isTrue trivial

instance instDecidableEndsNone (e : Event) : Decidable (endsNone e) :=
  match e with
  | .pass _ _ => inferInstanceAs (Decidable (_ = []))
  | .receive _ | .drain _ => isTrue trivial

/-- The event records something about the target. -/
def Event.recordsFor (target : Target) : Event → Bool
  | .receive event => event.concerns target
  | _ => false

section

variable {t u pid : Nat} {name : String} {config : SpawnConfig}

theorem triple_killIf (running : Bool) :
    Triple (alone answer) KillHolds (fun _ => True) (killIf running pid) fun r _ => r = .ok () := by
  unfold killIf
  split
  · refine fun w _ hmeets => ?_
    have hfault : (w.1 0).fault = none := hmeets.1 rfl
    show (answer (w.1 0) (.killInstance pid) w.2).1 = .ok ()
    unfold answer answerNow
    rw [hfault]
  · exact Triple.ret fun _ _ => rfl

theorem triple_stopOld :
    Triple (alone answer) KillHolds (fun _ => True) (stopOld pid) fun r _ => r = .ok () :=
  Triple.bind (fun _ _ _ => trivial) fun _ => triple_killIf _

/-- The old server has been killed, so what is alive after the restart is new. -/
theorem triple_restartInstance :
    Triple (alone answer) KillHolds (fun w => Held u t pid w.2) (restartInstance name config pid)
      fun pid' w => Held t t pid' w.2 := by
  have hstop : Triple (alone answer) KillHolds (fun w => Held u t pid w.2) (stopOld pid)
      fun r w => (Stopped u pid r w.2 ∧ t ≤ w.2.clock) ∧ r = .ok () :=
    fun w hw hmeets => ((outlined_stopOld.triple).and triple_stopOld) w ⟨hw, trivial⟩ hmeets
  refine Triple.bind hstop fun stopped => ?_
  cases stopped with
  | error text => exact Triple.ret fun _ h => nomatch h.2
  | ok x => exact fun w hw hmeets => outlined_startNew.triple w hw.1 hmeets

theorem triple_reloadAll {events : List WatchEvent} (h : ∃ event ∈ events, restarts event = true)
    (hle : u ≤ t) :
    Triple (alone answer) KillHolds (fun w => Held u t pid w.2)
      (reloadAll name config events pid) fun pid' w => Held t t pid' w.2 := by
  induction events generalizing pid with
  | nil =>
    obtain ⟨event, hmem, -⟩ := h
    exact absurd hmem List.not_mem_nil
  | cons event events ih =>
    have hfirst (hrestarts : restarts event = true) :
        Triple (alone answer) KillHolds (fun w => Held u t pid w.2)
          (handleWatchEvent name config pid event) fun pid' w => Held t t pid' w.2 := by
      cases event with
      | moduleChanged path => exact triple_restartInstance
      | configChanged => exact triple_restartInstance
      | moduleRemoved path => nomatch hrestarts
      | error message => nomatch hrestarts
    by_cases hrestarts : restarts event = true
    · exact Triple.bind (hfirst hrestarts) fun _ =>
        (outlined_reloadAll events (Nat.le_refl t)).triple
    · have hrest : ∃ event' ∈ events, restarts event' = true := by
        obtain ⟨event', hmem, hrestarts'⟩ := h
        rcases List.mem_cons.mp hmem with rfl | hmem
        · exact absurd hrestarts' hrestarts
        · exact ⟨event', hmem, hrestarts'⟩
      exact Triple.bind (outlined_handleWatchEvent event hle).triple fun _ => ih hrest

/-! ### That there is one -/

theorem killHolds_of_smooth (a : Action) (w : (Nat → Outside) × World) (h : Smooth a w) :
    KillHolds a w := h.2.1

/-- Nothing happens to the servers where none ends and the action is quiet. -/
theorem servers_of_quiet {a : Action} {e : Outside} {w : World} (ha : Quiet a)
    (hended : e.ended = []) : (answer e a w).2.servers = w.servers := by
  have hpass : (w.pass e.elapsed e.ended).servers = w.servers :=
    hended ▸ servers_pass_nil w e.elapsed
  cases a with
  | spawnInstance config => nomatch ha.1
  | killInstance pid => nomatch ha.2
  | isRunning pid => exact hpass
  | openStore => exact hpass
  | newWatcher => exact hpass
  | now => exact hpass
  | saveInstance i => exact hpass
  | getInstance name => exact hpass
  | listInstances => exact hpass
  | getDaemonPid => exact hpass

theorem triple_spawn :
    Triple (alone answer) Smooth (fun _ => True) (on (.spawnInstance config))
      fun r w => r.isOk = true ∧ w.2.servers ≠ [] := by
  intro w _ hmeets
  obtain ⟨hended, -, hspawn⟩ := hmeets.1
  obtain ⟨hfault, hfree⟩ := hspawn rfl
  have hpass : (w.2.pass (w.1 0).elapsed (w.1 0).ended).alive (w.1 0).pid = false := by
    unfold World.alive
    rw [hended, servers_pass_nil]
    exact hfree
  show (answer (w.1 0) (.spawnInstance config) w.2).1.isOk = true ∧
    (answer (w.1 0) (.spawnInstance config) w.2).2.servers ≠ []
  unfold answer answerNow
  rw [hfault]
  dsimp only
  rw [if_neg (Bool.eq_false_iff.mp hpass)]
  exact ⟨rfl, List.append_ne_nil_of_right_ne_nil _ (List.cons_ne_nil _ _)⟩

theorem triple_startNew :
    Triple (alone answer) Smooth (fun _ => True) (startNew name config pid)
      fun _ w => w.2.servers ≠ [] := by
  refine Triple.bind triple_spawn fun spawned => ?_
  cases spawned with
  | error text => exact fun _ h => nomatch h.1
  | ok pid' =>
    have hkeep := @Triple.of_within _ _ _ _ (alone answer) Smooth _ _ _
      (fun w : (Nat → Outside) × World => w.2.servers ≠ []) (within_recordNew name config pid')
      fun a w ha hok hw => (servers_of_quiet ha hok.1).symm ▸ hw
    exact fun w hw hmeets => hkeep w hw.2 hmeets

/-- A restart leaves a server. -/
theorem nonempty_restartInstance :
    Triple (alone answer) Smooth (fun _ => True) (restartInstance name config pid)
      fun _ w => w.2.servers ≠ [] := by
  refine Triple.bind (triple_stopOld.restrict killHolds_of_smooth) fun stopped => ?_
  cases stopped with
  | error text => exact fun _ h => nomatch h
  | ok x => exact fun w _ hmeets => triple_startNew w trivial hmeets

theorem nonempty_reloadAll (events : List WatchEvent) :
    Triple (alone answer) Smooth
      (fun w => w.2.servers ≠ [] ∨ ∃ event ∈ events, restarts event = true)
      (reloadAll name config events pid) fun _ w => w.2.servers ≠ [] := by
  induction events generalizing pid with
  | nil =>
    exact Triple.ret fun w h => h.elim id fun ⟨_, hmem, _⟩ => absurd hmem List.not_mem_nil
  | cons event events ih =>
    have hfirst : Triple (alone answer) Smooth
        (fun w => w.2.servers ≠ [] ∨ ∃ event' ∈ event :: events, restarts event' = true)
        (handleWatchEvent name config pid event)
        fun _ w => w.2.servers ≠ [] ∨ ∃ event' ∈ events, restarts event' = true := by
      have hleft (hno : restarts event = false) (w : (Nat → Outside) × World)
          (h : w.2.servers ≠ [] ∨ ∃ event' ∈ event :: events, restarts event' = true) :
          w.2.servers ≠ [] ∨ ∃ event' ∈ events, restarts event' = true := by
        refine h.imp id fun ⟨event', hmem, hrestarts⟩ => ⟨event', ?_, hrestarts⟩
        rcases List.mem_cons.mp hmem with rfl | hmem
        · rw [hno] at hrestarts
          nomatch hrestarts
        · exact hmem
      cases event with
      | moduleChanged path =>
        exact fun w _ hmeets => Or.inl (nonempty_restartInstance w trivial hmeets)
      | configChanged =>
        exact fun w _ hmeets => Or.inl (nonempty_restartInstance w trivial hmeets)
      | moduleRemoved path => exact Triple.ret (hleft rfl)
      | error message => exact Triple.ret (hleft rfl)
    exact Triple.bind hfirst fun _ => ih

end

/-! ### Over a run -/

/-- The loop runs with the debounce time `ms`; the time is `t` or later. -/
structure Watching (ms : UInt64) (t : Nat) (s : State) : Prop where
  keyed : Keyed s.debouncer.pending
  duration : s.debouncer.debounceDuration = debounceNanos ms
  held : Held 0 t s.pid s.world

section

variable {ms : UInt64} {t : Nat} {s : State} {name : String} {config : SpawnConfig}
  {event : WatchEvent} {target : Target}

theorem watching_step (h : Watching ms t s) (e : Event) : Watching ms t (step name config s e) := by
  have hheld := @held_step name config t 0 s h.held (Nat.zero_le t) e
  cases e with
  | pass elapsed ended => exact ⟨h.keyed, h.duration, hheld⟩
  | receive event =>
    obtain ⟨hkeyed, hduration, -⟩ :=
      DebouncedEvents.refines_slots h.keyed (s.world.clock, .record event)
    exact ⟨hkeyed, hduration.trans h.duration, hheld⟩
  | drain outside =>
    obtain ⟨hkeyed, hduration, -⟩ := DebouncedEvents.refines_slots h.keyed (s.world.clock, .drain)
    exact ⟨hkeyed, hduration.trans h.duration, hheld⟩

/-- What waits for the target goes on waiting until a drain is late enough. -/
theorem waiting_step (h : Watching ms t s)
    (hslot : s.debouncer.slot target.key = some (event, t)) {e : Event}
    (hquiet : e.recordsFor target = false)
    (hearly : ∀ outside, e = .drain outside → s.world.clock < t + debounceNanos ms) :
    (step name config s e).debouncer.slot target.key = some (event, t) := by
  cases e with
  | pass elapsed ended => exact hslot
  | receive event' =>
    have hne : ¬ event'.key = target.key :=
      of_decide_eq_false ((concerns_eq event' target).symm.trans hquiet)
    show (s.debouncer.record s.world.clock event').slot target.key = _
    rw [DebouncedEvents.slot_record, if_neg hne]
    exact hslot
  | drain outside =>
    have hlt := hearly outside rfl
    have htime : t ≤ s.world.clock := h.held.2
    show (s.debouncer.drainReady s.world.clock).2.slot target.key = _
    rw [DebouncedEvents.slot_drainReady, hslot, h.duration]
    exact if_neg (by omega)

/-- A late drain hands it to the command. -/
theorem mem_ready (h : Watching ms t s)
    (hslot : s.debouncer.slot target.key = some (event, t))
    (hlate : t + debounceNanos ms ≤ s.world.clock) : event ∈ s.ready := by
  have hdue := DebouncedEvents.filter_drainReady h.keyed s.world.clock target.key
  rw [hslot, h.duration] at hdue
  have hone : due (debounceNanos ms) (some (event, t)) s.world.clock = [event] :=
    if_pos (by omega)
  have hmem : event ∈ (s.debouncer.drainReady s.world.clock).1.filter
      (fun event => event.key = target.key) := by
    rw [hdue, hone]
    exact List.mem_singleton_self event
  exact (List.mem_filter.mp hmem).1

/-- What a reload brings about, and every step keeps, holds after a late drain. -/
theorem settles {G : State → Event → Prop} (P : State → Prop) (hrestarts : restarts event = true)
    (hkeep : ∀ s e, Watching ms t s → G s e → P s → P (step name config s e))
    (hreload : ∀ s outside, Watching ms t s → G s (.drain outside) →
      (∃ event ∈ s.ready, restarts event = true) → P (step name config s (.drain outside)))
    {es : List Event} (h : Watching ms t s)
    (hslot : s.debouncer.slot target.key = some (event, t))
    (hquiet : ∀ e ∈ es, e.recordsFor target = false)
    (hdrained : DrainedFrom name config (t + debounceNanos ms) s es)
    (hes : Along (step name config) G s es) : P (run (step name config) s es) := by
  induction es generalizing s with
  | nil => exact hdrained.elim
  | cons e es ih =>
    have hnext := @watching_step ms t s name config h e
    by_cases hlate : ∃ outside, e = .drain outside ∧ t + debounceNanos ms ≤ s.world.clock
    · obtain ⟨outside, rfl, hle⟩ := hlate
      have hfirst := hreload s outside h hes.1 ⟨event, mem_ready h hslot hle, hrestarts⟩
      have hall := @run_invariant _ _ (step name config) G (fun s => Watching ms t s ∧ P s) _ es
        ⟨hnext, hfirst⟩ (fun s e hs hG => ⟨watching_step hs.1 e, hkeep s e hs.1 hG hs.2⟩) hes.2
      exact hall.2
    · have hearly : ∀ outside, e = .drain outside → s.world.clock < t + debounceNanos ms :=
        fun outside heq => Nat.lt_of_not_le fun hle => hlate ⟨outside, heq, hle⟩
      exact ih hnext (waiting_step h hslot (hquiet e List.mem_cons_self) hearly)
        (fun e' he' => hquiet e' (List.mem_cons_of_mem _ he')) (hdrained.resolve_left hlate) hes.2

theorem fresh_drain {outside : Nat → Outside} (h : Watching ms t s)
    (hkills : OnDrain name config KillHolds s (.drain outside))
    (hready : ∃ event ∈ s.ready, restarts event = true) :
    Held t t (step name config s (.drain outside)).pid
      (step name config s (.drain outside)).world :=
  triple_reloadAll hready (Nat.zero_le t) (outside, s.world) h.held hkills

/-- A server that is alive stays so, or another one takes its place. -/
theorem nonempty_step {e : Event} (hended : endsNone e)
    (hsmooth : OnDrain name config Smooth s e) (h : s.world.servers ≠ []) :
    (step name config s e).world.servers ≠ [] := by
  cases e with
  | pass elapsed ended =>
    have hnil : ended = [] := hended
    show (s.world.pass elapsed ended).servers ≠ []
    rw [hnil, servers_pass_nil]
    exact h
  | receive event => exact h
  | drain outside => exact nonempty_reloadAll s.ready (outside, s.world) (Or.inl h) hsmooth

theorem watching_first (ms : UInt64) {pid : Nat} {w : World} (h : Held 0 0 pid w) :
    Watching ms 0 (.first ms pid w) := ⟨keyed_new ms, rfl, h⟩

end

/-- Once a drain has come as late as the debounce time after the last change of a module or of the
    configuration was recorded, every live server has been started since then, in every run in
    which no kill fails; where the starts succeed as well and no server ends by itself, there is
    exactly one, and it is the one the command holds. -/
theorem dev_fresh (name : String) (config : SpawnConfig) (ms : UInt64)
    (starting : Nat → Outside) (clock : Nat) (store : StateStore) (before mid : List Event)
    {pid : Nat} {w : World} {event : WatchEvent} {target : Target}
    (hlaunch : launch name config starting ⟨clock, [], store⟩ = (.ok pid, w))
    (hrestarts : restarts event = true) (hconcerns : event.concerns target = true)
    (hquiet : ∀ e ∈ mid, e.recordsFor target = false) :
    let s := run (step name config) (.first ms pid w) before
    let recorded := step name config s (.receive event)
    let s' := run (step name config) recorded mid
    DrainedFrom name config (s.world.clock + debounceNanos ms) recorded mid →
    Along (step name config) (OnDrain name config KillHolds) recorded mid →
      (∀ p ∈ s'.world.servers, p.pid = s'.pid ∧ s.world.clock ≤ p.since) ∧
      (Along (step name config) (fun s e => endsNone e ∧ OnDrain name config Smooth s e)
        recorded mid →
        ∃ since, s.world.clock ≤ since ∧ s'.world.servers = [⟨s'.pid, since⟩]) := by
  intro s recorded s' hdrained hkills
  have hwatching : Watching ms 0 s :=
    run_keeps (Watching ms 0) (fun _ e hs => watching_step hs e)
      (watching_first ms (held_launch hlaunch)) before
  have hnow : Watching ms s.world.clock s :=
    ⟨hwatching.keyed, hwatching.duration, hwatching.held.1, Nat.le_refl _⟩
  have hrecorded : Watching ms s.world.clock recorded := watching_step hnow (.receive event)
  have hslot : recorded.debouncer.slot target.key = some (event, s.world.clock) :=
    (DebouncedEvents.slot_record s.debouncer s.world.clock event target.key).trans
      (if_pos (key_of_concerns hconcerns))
  have hfresh : Held s.world.clock s.world.clock s'.pid s'.world :=
    settles (fun s' => Held s.world.clock s.world.clock s'.pid s'.world) hrestarts
      (fun _ e _ _ h => held_step h (Nat.le_refl _) e)
      (fun _ _ h hG hready => fresh_drain h hG hready) hrecorded hslot hquiet hdrained hkills
  refine ⟨hfresh.1.since_le, fun hsmooth => ?_⟩
  have hsome : s'.world.servers ≠ [] :=
    settles (fun s' => s'.world.servers ≠ []) hrestarts
      (fun _ _ _ hG h => nonempty_step hG.1 hG.2 h)
      (fun s outside _ hG hready =>
        nonempty_reloadAll s.ready (outside, s.world) (Or.inr hready) hG.2)
      hrecorded hslot hquiet hdrained hsmooth
  exact hfresh.1.resolve_left hsome

/-- A change of the configuration at the time 5, and a drain 300 ms later. -/
theorem dev_fresh_config :
    let config : SpawnConfig := ⟨"dev", 3000, "mik.toml"⟩
    let w := (launch "dev" config (fun _ => .calm 1) ⟨0, [], .empty⟩).2
    let s' := run (step "dev" config) (.first 300 1 w)
      [.pass 5 [], .receive .configChanged, .pass 300000000 [], .drain fun _ => .calm 2]
    ∃ since, 5 ≤ since ∧ s'.world.servers = [⟨s'.pid, since⟩] :=
  ((dev_fresh "dev" ⟨"dev", 3000, "mik.toml"⟩ 300 (fun _ => .calm 1) 0 .empty [.pass 5 []]
    [.pass 300000000 [], .drain fun _ => .calm 2] rfl rfl
    (show WatchEvent.configChanged.concerns .config = true from rfl) (by decide)
    (Or.inr (Or.inl ⟨_, rfl, by decide⟩)) (by decide)).2 (by decide))

end Mik.Daemon.Dev
