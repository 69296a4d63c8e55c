/-
  The cap on concurrent requests per module.

  A request looks its semaphore up, creates it if there is none, takes a permit, and gives it back
  when its handler returns; a request that is dropped gives back what it holds. `permitProtocol` is
  the order in which a request does this, and every path through `handleRequestInner` keeps to it
  (`keeps_handleRequestInner`), scripts included. From this `permits_capped` counts permits over
  every interleaving: what is left in the semaphore of a key and the requests that hold one of its
  permits are together always `max_per_module_requests`.
-/
import Mik.Lib.Holders
import Mik.Lib.Protocol
import Mik.Runtime.RequestHandler

namespace Mik.Runtime

open Mik.Lib Mik.Lib.Prog Mik.Reliability

/-- Where a request stands with the semaphores. -/
inductive Gate where
  | idle
  /-- It has got the semaphore of a key. -/
  | found (key : String) (semaphore : Nat)
  | holding (key : String) (semaphore : Nat)
  deriving DecidableEq, Repr

section

variable {Comp : Type}

/-- What a request may do there. Only a request that holds a permit executes a module, but for the
    platform requests of the single-module mode. -/
def Gate.allows (host : Host Comp) (gate : Gate) : Action Comp → Prop
  | .findSemaphore _ => gate = .idle
  | .createSemaphore _ => gate = .idle
  | .tryAcquire semaphore => ∃ key, gate = .found key semaphore
  | .release semaphore => ∃ key, gate = .holding key semaphore
  | .execute _ _ =>
    host.singleComponent.isSome = true ∨ ∃ key semaphore, gate = .holding key semaphore
  | _ => True

def Gate.acquired (gate : Gate) : Bool → Gate
  | false => .idle
  | true =>
    match gate with
    | .found key semaphore => .holding key semaphore
    | _ => .idle

/-- Where it stands after an action. -/
def Gate.next (gate : Gate) : (a : Action Comp) → Answer Comp a → Gate
  | .findSemaphore key, some semaphore => .found key semaphore
  | .createSemaphore key, semaphore => .found key semaphore
  | .tryAcquire _, acquired => gate.acquired acquired
  | .release _, _ => .idle
  | _, _ => gate

abbrev permitProtocol (host : Host Comp) : Protocol (Action Comp) (Answer Comp) where
  State := Gate
  allows gate a := gate.allows host a
  next gate a r := gate.next a r

/-- From `gate` on the handler keeps to the protocol, and returns what `Q` says. -/
def Keeps {α : Type} (host : Host Comp) (Q : Gate → α → Prop) (gate : Gate)
    (p : Handler Comp α) : Prop :=
  p.Obeys (permitProtocol host) (fun _ _ => True) Q gate

variable {host : Host Comp} {α : Type}

theorem Keeps.bind {β : Type} {Q : Gate → α → Prop} {Q' : Gate → β → Prop} {gate : Gate}
    {p : Handler Comp α} {f : α → Handler Comp β} (hp : Keeps host Q gate p)
    (hf : ∀ gate x, Q gate x → Keeps host Q' gate (f x)) : Keeps host Q' gate (p >>= f) :=
  Obeys.bind hp hf

/-- An action that has nothing to do with permits. -/
theorem keeps_call {gate : Gate} {a : Action Comp} (hallows : gate.allows host a)
    (hnext : ∀ r, gate.next a r = gate) :
    Keeps host (fun gate' _ => gate' = gate) gate (call a) := ⟨hallows, fun r _ => hnext r⟩

/-- The semaphore of a key is found. -/
theorem keeps_getModuleSemaphore (key : String) :
    Keeps host (fun gate semaphore => gate = .found key semaphore) .idle
      (getModuleSemaphore key : Handler Comp Nat) := by
  refine ⟨rfl, fun r _ => ?_⟩
  cases r with
  | some semaphore => rfl
  | none => exact ⟨rfl, fun _ _ => rfl⟩

theorem keeps_passGate {key : String} {Q : Gate → α → Prop} {blocked : CircuitOpenError → α}
    {overloaded : α} {go : Nat → Handler Comp α} (hblocked : ∀ e, Q .idle (blocked e))
    (hoverloaded : Q .idle overloaded)
    (hgo : ∀ semaphore, Keeps host Q (.holding key semaphore) (go semaphore)) :
    Keeps host Q .idle (passGate key blocked overloaded go) := by
  refine Keeps.bind (keeps_call trivial fun _ => rfl) fun gate r hgate => ?_
  rw [show gate = Gate.idle from hgate]
  cases r with
  | error e => exact hblocked e
  | ok u =>
    refine Keeps.bind (keeps_getModuleSemaphore key) fun gate semaphore hgate => ?_
    rw [show gate = Gate.found key semaphore from hgate]
    refine ⟨⟨key, rfl⟩, fun acquired _ => ?_⟩
    cases acquired with
    | false => exact hoverloaded
    | true => exact hgo semaphore

/-- The request holds nothing. -/
def AtRest (gate : Gate) (_ : α) : Prop := gate = .idle

theorem keeps_executeHandlerCall (http : HttpLib) (c : HostCall) (traceId : String) :
    Keeps host AtRest .idle (executeHandlerCall http c traceId : Handler Comp _) := by
  refine keeps_passGate (fun _ => rfl) rfl fun semaphore => ?_
  refine ⟨trivial, fun loaded _ => ?_⟩
  cases loaded with
  | error e => exact ⟨trivial, fun _ _ => ⟨⟨_, rfl⟩, fun _ _ => rfl⟩⟩
  | ok component =>
    show Keeps host _ _ _
    dsimp only
    split
    · exact ⟨⟨_, rfl⟩, fun _ _ => rfl⟩
    · refine ⟨Or.inr ⟨_, _, rfl⟩, fun x _ => ?_⟩
      show Keeps host _ _ _
      dsimp only [Prog.bind]
      split
      · exact ⟨trivial, fun _ _ => ⟨⟨_, rfl⟩, fun _ _ => rfl⟩⟩
      · exact ⟨trivial, fun _ _ => ⟨⟨_, rfl⟩, fun _ _ => rfl⟩⟩

theorem keeps_executeScript (http : HttpLib) (traceId : String) (js : JsRun)
    (lastError : Option String) (callsExecuted : Nat) :
    Keeps host AtRest .idle
      (executeScript http traceId js lastError callsExecuted : Handler Comp _) := by
  induction js generalizing lastError callsExecuted with
  | finish result =>
    cases result with
    | error e => exact rfl
    | ok result =>
      cases lastError with
      | none => exact rfl
      | some err => exact rfl
  | crash message => exact rfl
  | hostCall c k ih =>
    unfold executeScript
    refine Keeps.bind (keeps_executeHandlerCall http c traceId) fun gate result hgate => ?_
    rw [show gate = Gate.idle from hgate]
    cases result with
    | ok resp => exact ih resp lastError (callsExecuted + 1)
    | error e => exact ih _ _ _

theorem keeps_handleScriptRequest (http : HttpLib) (lib : ScriptLib) (req : Request)
    (path traceId : String) :
    Keeps host AtRest .idle (handleScriptRequest host http lib req path traceId) := by
  unfold handleScriptRequest
  cases scriptName path with
  | error e => exact rfl
  | ok name =>
  cases host.scriptsDir with
  | none => exact rfl
  | some scriptsDir =>
  refine Keeps.bind (keeps_call trivial fun _ => rfl) fun gate text hgate => ?_
  rw [show gate = Gate.idle from hgate]
  cases text with
  | none => exact rfl
  | some script =>
  dsimp only
  cases scriptInput lib req host.maxBodySizeBytes with
  | error e => exact rfl
  | ok input =>
    refine Keeps.bind (keeps_executeScript http traceId (lib.run script input) none 0)
      fun gate result hgate => ?_
    rw [show gate = Gate.idle from hgate]
    cases result with
    | error e => exact rfl
    | ok result => exact rfl

/-! ## Module requests -/

/-- What a resolved module request holds: the permit it carries, which only the single-module mode
    does without. -/
def Carries (host : Host Comp) (gate : Gate) : ModuleResolution Comp → Prop
  | .success _ _ _ none => gate = .idle ∧ host.singleComponent.isSome = true
  | .success _ _ _ (some semaphore) => ∃ key, gate = .holding key semaphore
  | .response _ => gate = .idle

theorem keeps_resolveKeyed {key shown : String} {load : Handler Comp (Except Error Comp)}
    (handlerPath : String)
    (hload : ∀ gate, Keeps host (fun gate' _ => gate' = gate) gate load) :
    Keeps host (Carries host) .idle (resolveKeyed host key shown load handlerPath) := by
  refine keeps_passGate (fun _ => rfl) rfl fun semaphore => ?_
  refine Keeps.bind (hload _) fun gate loaded hgate => ?_
  rw [show gate = Gate.holding key semaphore from hgate]
  cases loaded with
  | ok component => exact ⟨key, rfl⟩
  | error e => exact ⟨trivial, fun _ _ => ⟨⟨key, rfl⟩, fun _ _ => rfl⟩⟩

theorem keeps_resolveModule (path : String) :
    Keeps host (Carries host) .idle (resolveModule host path) := by
  unfold resolveModule
  split
  · exact rfl
  · dsimp only
    split
    · exact rfl
    · split
      · next hsingle =>
        split
        · exact ⟨rfl, by rw [hsingle]; rfl⟩
        · exact rfl
      · exact keeps_resolveKeyed _ fun gate => ⟨trivial, fun _ _ => rfl⟩

theorem keeps_resolveTenantModule (path : String) :
    Keeps host (Carries host) .idle (resolveTenantModule host path) := by
  unfold resolveTenantModule
  split
  · exact rfl
  split
  · exact rfl
  split
  · exact rfl
  split
  · exact keeps_resolveKeyed _ fun gate => ⟨trivial, fun _ _ => rfl⟩
  · exact rfl

theorem keeps_dropPermit {gate : Gate} {component : Comp} {handlerPath : String}
    {moduleName : Option String} {permit : Option Nat}
    (h : Carries host gate (.success component handlerPath moduleName permit)) :
    Keeps host AtRest gate (dropPermit permit) := by
  cases permit with
  | none => exact h.1
  | some semaphore => exact ⟨h, fun _ _ => rfl⟩

theorem keeps_recordOutcome (gate : Gate) (moduleName : Option String)
    (result : Except Error Response) :
    Keeps host (fun gate' _ => gate' = gate) gate (recordOutcome moduleName result) := by
  cases moduleName with
  | none => exact rfl
  | some module =>
    cases result with
    | ok resp => exact ⟨trivial, fun _ _ => rfl⟩
    | error e => exact ⟨trivial, fun _ _ => rfl⟩

/-- A permit is given back on every way through the execution. -/
theorem keeps_executeResolved (http : HttpLib) (req : Request) (gzip : Bool) {gate : Gate}
    {component : Comp} {handlerPath : String} {moduleName : Option String} {permit : Option Nat}
    (h : Carries host gate (.success component handlerPath moduleName permit)) :
    Keeps host AtRest gate
      (executeResolved host http req gzip component handlerPath moduleName permit) := by
  have hdrop := keeps_dropPermit h
  have hexecute : host.singleComponent.isSome = true ∨
      ∃ key semaphore, gate = .holding key semaphore := by
    cases permit with
    | none => exact Or.inl h.2
    | some semaphore => exact Or.inr ⟨_, semaphore, h.choose_spec⟩
  unfold executeResolved
  split
  · exact Keeps.bind hdrop fun _ _ hgate => hgate
  split
  · exact Keeps.bind hdrop fun _ _ hgate => hgate
  · exact Keeps.bind hdrop fun _ _ hgate => hgate
  · refine Keeps.bind (keeps_call hexecute fun _ => rfl) fun gate' exec hgate' => ?_
    rw [show gate' = gate from hgate']
    refine Keeps.bind (keeps_recordOutcome gate moduleName exec.result) fun gate' _ hgate' => ?_
    rw [show gate' = gate from hgate']
    refine Keeps.bind hdrop fun gate'' _ hgate'' => ?_
    cases exec.result with
    | error e => exact hgate''
    | ok resp => exact hgate''

section

-- the elaborator would evaluate the script's handler to see what it keeps to
attribute [local irreducible] handleScriptRequest

/-- Every request keeps to the protocol, and holds nothing when it returns. -/
theorem keeps_handleRequestInner (http : HttpLib) (lib : ScriptLib) (req : Request) (gzip : Bool)
    (traceId : String) :
    Keeps host AtRest .idle (handleRequestInner host http lib req gzip traceId) := by
  unfold handleRequestInner
  dsimp only
  split
  · exact rfl
  split
  · exact rfl
  split
  · exact keeps_call trivial fun _ => rfl
  split
  · have hscript : Keeps host AtRest .idle
        (handleScriptRequest host http lib req req.uri.path traceId) :=
      keeps_handleScriptRequest http lib req req.uri.path traceId
    refine Keeps.bind hscript fun gate result hgate => ?_
    cases result with
    | ok resp => exact hgate
    | error e => exact hgate
  · unfold handleModuleRequest
    have hresolve : Keeps host (Carries host) .idle (resolvePath host req.uri.path) := by
      unfold resolvePath
      split
      · exact keeps_resolveTenantModule _
      · exact keeps_resolveModule _
    refine Keeps.bind hresolve fun gate resolution hgate => ?_
    cases resolution with
    | response resp => exact hgate
    | success component handlerPath moduleName permit =>
      exact keeps_executeResolved http req gzip hgate

end

/-! ## Counting permits -/

/-- The semaphore it has got for a key. -/
def Gate.at (key : String) (semaphore : Nat) (gate : Gate) : Prop :=
  gate = .found key semaphore ∨ gate = .holding key semaphore

/-- Whoever has got a semaphore for a key has got the one of the table, and what is left in it and
    those who hold a permit are together `max`. -/
structure Counted (max : Nat) (sems : Semaphores) (gates : Nat → Gate) : Prop where
  located : ∀ i key a, (gates i).at key a → sems.table.lookup key = some a
  finite : ∀ key a, (holders gates (.holding key a)).Finite
  counted : ∀ key a, sems.table.lookup key = some a →
    sems.permits a + (holders gates (.holding key a)).ncard = max

section

variable {max : Nat} {sems : Semaphores} {gates : Nat → Gate} {i : Nat}

theorem not_holding_of_idle {gate : Gate} (h : gate = .idle) (key : String) (a : Nat) :
    gate ≠ .holding key a := by
  rw [h]
  exact nofun

/-- A request that neither gets nor gives back a permit. -/
theorem Counted.pass (h : Counted max sems gates) {gate : Gate}
    (hold : ∀ key a, gates i ≠ .holding key a) (hnew : ∀ key a, gate ≠ .holding key a)
    (hat : ∀ key a, gate.at key a → sems.table.lookup key = some a) :
    Counted max sems (moved gates i gate) where
  located j key a hj := by
    by_cases hji : j = i
    · rw [hji, moved_self] at hj
      exact hat key a hj
    · rw [moved_of_ne hji] at hj
      exact h.located j key a hj
  finite key a := finite_holders_moved (h.finite key a)
  counted key a hlookup := by
    rw [holders_moved_of_ne (hold key a) (hnew key a)]
    exact h.counted key a hlookup

/-- A new semaphore, of which nobody holds a permit. -/
theorem Counted.insertNew (h : Counted max sems gates) {key : String}
    (hnone : sems.table.lookup key = none) : Counted max (sems.insertNew key max) gates where
  located j k a hj := by
    have hlookup := h.located j k a hj
    have hne : k ≠ key := by
      intro heq
      rw [heq, hnone] at hlookup
      cases hlookup
    exact (AList.lookup_insert_ne hne).trans hlookup
  finite := h.finite
  counted k a hlookup := by
    have hlookup : (sems.table.insert key sems.next).lookup k = some a := hlookup
    show (if a = sems.next then max else sems.permits a) + _ = max
    by_cases hk : k = key
    · rw [hk, AList.lookup_insert] at hlookup
      have hempty : holders gates (.holding k a) = ∅ := by
        refine Set.eq_empty_of_forall_notMem fun j hj => ?_
        have hheld := h.located j k a (Or.inr hj)
        rw [hk, hnone] at hheld
        cases hheld
      rw [if_pos (Option.some.inj hlookup).symm, hempty, Set.ncard_empty, Nat.add_zero]
    · rw [AList.lookup_insert_ne hk] at hlookup
      have hbelow := sems.allocated k a hlookup
      rw [if_neg (by omega)]
      exact h.counted k a hlookup

/-- A permit is taken. -/
theorem Counted.acquire (h : Counted max sems gates) {key : String} {a : Nat}
    (hfound : gates i = .found key a) (hleft : sems.permits a ≠ 0) :
    Counted max (sems.setPermits a (sems.permits a - 1)) (moved gates i (.holding key a)) where
  located j k b hj := by
    by_cases hji : j = i
    · rw [hji, moved_self] at hj
      rcases hj with hj | hj
      · cases hj
      · cases hj
        exact h.located i key a (Or.inl hfound)
    · rw [moved_of_ne hji] at hj
      exact h.located j k b hj
  finite k b := finite_holders_moved (h.finite k b)
  counted k b hlookup := by
    have hcount := h.counted k b hlookup
    show (if b = a then sems.permits a - 1 else sems.permits b) + _ = max
    by_cases hb : b = a
    · have hk : k = key :=
        sems.distinct k key a (hb ▸ hlookup) (h.located i key a (Or.inl hfound))
      rw [hk, hb] at hcount ⊢
      rw [if_pos rfl, ncard_enter (h.finite key a) (by rw [hfound]; exact nofun)]
      omega
    · have hother : gates i ≠ .holding k b := by
        rw [hfound]
        exact nofun
      rw [if_neg hb, holders_moved_of_ne hother (by simp [Ne.symm hb])]
      exact hcount

/-- A permit is given back. -/
theorem Counted.release (h : Counted max sems gates) {key : String} {a : Nat}
    (hheld : gates i = .holding key a) :
    Counted max (sems.setPermits a (sems.permits a + 1)) (moved gates i .idle) where
  located j k b hj := by
    by_cases hji : j = i
    · rw [hji, moved_self] at hj
      rcases hj with hj | hj
      · cases hj
      · cases hj
    · rw [moved_of_ne hji] at hj
      exact h.located j k b hj
  finite k b := finite_holders_moved (h.finite k b)
  counted k b hlookup := by
    have hcount := h.counted k b hlookup
    show (if b = a then sems.permits a + 1 else sems.permits b) + _ = max
    by_cases hb : b = a
    · have hk : k = key :=
        sems.distinct k key a (hb ▸ hlookup) (h.located i key a (Or.inr hheld))
      rw [hk, hb] at hcount ⊢
      have hleave := ncard_leave (h.finite key a) hheld (x := .idle) nofun
      rw [if_pos rfl]
      omega
    · have hother : gates i ≠ .holding k b := by
        rw [hheld]
        simp [Ne.symm hb]
      have hsame : holders (moved gates i .idle) (.holding k b) = holders gates (.holding k b) :=
        holders_moved_of_ne hother nofun
      rw [if_neg hb, hsame]
      exact hcount

/-- The step lemma: an action that the protocol allows keeps the count. -/
theorem counted_perform {s : SharedState Comp} (env : Env) {a : Action Comp}
    (h : Counted host.maxPerModuleRequests s.moduleSemaphores gates)
    (hallows : (gates i).allows host a) :
    Counted host.maxPerModuleRequests (perform host env s a).2.moduleSemaphores
      (moved gates i ((gates i).next a (perform host env s a).1)) := by
  have hother : ∀ {sems : Semaphores}, sems = s.moduleSemaphores →
      Counted host.maxPerModuleRequests sems (moved gates i (gates i)) := by
    intro sems heq
    rw [moved_eq_self rfl, heq]
    exact h
  have hguards : ∀ {s' : SharedState Comp}, s'.guards = s.guards →
      Counted host.maxPerModuleRequests s'.moduleSemaphores (moved gates i (gates i)) :=
    fun heq => hother (congrArg Prod.snd heq)
  have hgot : ∀ {sems : Semaphores} {key : String} {b : Nat},
      Counted host.maxPerModuleRequests sems gates → gates i = .idle →
      sems.table.lookup key = some b →
      Counted host.maxPerModuleRequests sems (moved gates i (.found key b)) := by
    intro sems key b hsems hidle hlookup
    refine hsems.pass (not_holding_of_idle hidle) (fun _ _ => nofun) fun k a hat => ?_
    rcases hat with hat | hat
    · cases hat
      exact hlookup
    · cases hat
  cases a with
  | findSemaphore key =>
    show Counted _ s.moduleSemaphores (moved gates i ((gates i).next
      (.findSemaphore key : Action Comp) (s.moduleSemaphores.table.lookup key)))
    cases hlookup : s.moduleSemaphores.table.lookup key with
    | none => exact hother rfl
    | some b => exact hgot h hallows hlookup
  | createSemaphore key =>
    show Counted _ (perform host env s (.createSemaphore key)).2.moduleSemaphores
      (moved gates i (.found key (perform host env s (.createSemaphore key)).1))
    unfold perform
    dsimp only
    split
    · next b hlookup => exact hgot h hallows hlookup
    · next hnone => exact hgot (h.insertNew hnone) hallows (AList.lookup_insert _)
  | tryAcquire b =>
    obtain ⟨key, hfound⟩ := hallows
    show Counted _ (perform host env s (.tryAcquire b)).2.moduleSemaphores
      (moved gates i ((gates i).acquired (perform host env s (.tryAcquire b)).1))
    unfold perform
    dsimp only
    split
    · refine h.pass (fun k a => ?_) (fun _ _ => nofun) fun k a hat => ?_
      · rw [hfound]
        exact nofun
      · rcases hat with hat | hat
        · cases hat
        · cases hat
    · next hleft =>
      have hholding : (gates i).acquired true = .holding key b := by
        rw [hfound]
        rfl
      rw [hholding]
      exact h.acquire hfound hleft
  | release b =>
    obtain ⟨key, hheld⟩ := hallows
    exact h.release hheld
  | getOrLoad name => exact hguards (guards_getOrLoad host env.io s name)
  | getOrLoadModulePath p => exact hguards (guards_getOrLoadModulePath host env.io s p)
  | _ => exact hother rfl

end

/-! ## Every interleaving -/

/-- The requests being served with the state they share, and where each stands. -/
structure Serving (Comp : Type) where
  pool : Pool (Action Comp) (Answer Comp) (Except Error Response) (SharedState Comp)
  gates : Nat → Gate

/-- A request arrives, performs its next action, or is dropped with its connection. -/
inductive Turn where
  | start (i : Nat) (req : Request) (clientAcceptsGzip : Bool) (traceId : String)
  | advance (i : Nat) (env : Env)
  | drop (i : Nat)

/-- A dropped request gives back its permit. -/
def SharedState.giveBack (s : SharedState Comp) : Gate → SharedState Comp
  | .holding _ semaphore =>
    s.setSemaphores (s.moduleSemaphores.setPermits semaphore
      (s.moduleSemaphores.permits semaphore + 1))
  | _ => s

/-- A move of the pool, with the gates along. -/
def Serving.move (host : Host Comp) (w : Serving Comp)
    (m : Pool.Move (Action Comp) (Answer Comp) (Except Error Response) Env) : Serving Comp where
  pool := Pool.step (answer host) w.pool m
  gates := Pool.track (permitProtocol host) (answer host) w.pool w.gates .idle m

def Serving.step (host : Host Comp) (http : HttpLib) (lib : ScriptLib) (w : Serving Comp) :
    Turn → Serving Comp
  | .start i req gzip traceId => w.move host (.spawn i (handleRequestInner host http lib req gzip
      traceId))
  | .advance i env => w.move host (.advance i env)
  | .drop i =>
    { pool :=
        { tasks := fun j => if j = i then none else w.pool.tasks j
          state := w.pool.state.giveBack (w.gates i) }
      gates := moved w.gates i .idle }

/-- No request, and no semaphores yet. -/
def Serving.start (s : SharedState Comp) : Serving Comp :=
  ⟨⟨fun _ => none, s.setSemaphores .empty⟩, fun _ => .idle⟩

/-- The invariant of a run. -/
structure Capped (host : Host Comp) (w : Serving Comp) : Prop where
  obeying : Pool.Obeying (permitProtocol host) (fun _ _ => True) AtRest w.pool w.gates
  gone : ∀ i, w.pool.tasks i = none → w.gates i = .idle
  counted : Counted host.maxPerModuleRequests w.pool.state.moduleSemaphores w.gates

theorem capped_start (s : SharedState Comp) : Capped host (.start s) where
  obeying _ _ h := nomatch h
  gone _ _ := rfl
  counted :=
    { located := fun _ _ _ h => h.elim nofun nofun
      finite := fun _ _ => Set.Finite.subset Set.finite_empty fun _ h => nomatch h
      counted := nofun }

/-- A move of the pool in which a new task is a request. -/
theorem capped_move {w : Serving Comp} (h : Capped host w)
    (m : Pool.Move (Action Comp) (Answer Comp) (Except Error Response) Env)
    (hspawn : ∀ i p, m = .spawn i p → Keeps host AtRest .idle p) : Capped host (w.move host m) := by
  have htracked : Pool.Tracked (permitProtocol host) (fun _ _ => True) AtRest (· = Gate.idle)
      w.pool w.gates := ⟨h.obeying, h.gone⟩
  have hmoved := htracked.step (fun _ _ hq => hq) (answer host) Gate.idle m hspawn
    fun _ _ _ _ _ _ => trivial
  unfold Serving.move
  refine ⟨hmoved.obeying, hmoved.gone, ?_⟩
  dsimp only
  cases Pool.moveCase w.pool m with
  | taken hi =>
    rw [Pool.step_spawn_of_some _ hi, Pool.track_spawn_of_some _ _ hi]
    exact h.counted
  | gone hi =>
    rw [Pool.step_advance_of_none _ hi, Pool.track_advance_of_none _ _ hi]
    exact h.counted
  | @spawn i p hi =>
    rw [Pool.step_spawn_of_none _ hi, Pool.track_spawn_of_none _ _ hi]
    have hsame : moved w.gates i .idle = w.gates := moved_eq_self (h.gone i hi)
    show Counted _ _ (moved w.gates i .idle)
    rw [hsame]
    exact h.counted
  | @ret i env x hi =>
    rw [Pool.step_advance_ret _ hi, Pool.track_advance_ret _ _ hi]
    exact h.counted
  | @act i env a k hi =>
    rw [Pool.step_advance_act _ hi, Pool.track_advance_act _ _ hi]
    exact counted_perform env h.counted (h.obeying i _ hi).1

theorem capped_step (http : HttpLib) (lib : ScriptLib) {w : Serving Comp} (t : Turn)
    (h : Capped host w) : Capped host (w.step host http lib t) := by
  cases t with
  | start i req gzip traceId =>
    refine capped_move h _ fun j p hp => ?_
    cases hp
    exact keeps_handleRequestInner http lib req gzip traceId
  | advance i env => exact capped_move h _ nofun
  | drop i =>
    refine ⟨fun j p hp => ?_, fun j hj => ?_, ?_⟩
    · have hp : (if j = i then none else w.pool.tasks j) = some p := hp
      by_cases hji : j = i
      · rw [if_pos hji] at hp
        cases hp
      · rw [if_neg hji] at hp
        show Keeps host AtRest (moved w.gates i .idle j) p
        rw [moved_of_ne hji]
        exact h.obeying j p hp
    · by_cases hji : j = i
      · exact if_pos hji
      · have hj : (if j = i then none else w.pool.tasks j) = none := hj
        rw [if_neg hji] at hj
        exact (if_neg hji).trans (h.gone j hj)
    · show Counted _ (w.pool.state.giveBack (w.gates i)).moduleSemaphores (moved w.gates i .idle)
      cases hgate : w.gates i with
      | holding key a => exact h.counted.release hgate
      | idle =>
        have hsame : moved w.gates i .idle = w.gates := moved_eq_self hgate
        rw [hsame]
        exact h.counted
      | found key a =>
        refine h.counted.pass (fun k b => ?_) (fun _ _ => nofun) fun k b hat => ?_
        · rw [hgate]
          exact nofun
        · exact hat.elim nofun nofun

theorem capped_run (http : HttpLib) (lib : ScriptLib) (s : SharedState Comp) (ts : List Turn) :
    Capped host (run (Serving.step host http lib) (.start s) ts) :=
  run_keeps (Capped host) (fun _ t => capped_step http lib t) (capped_start s) ts

theorem lookup_perform (host : Host Comp) (env : Env) {s : SharedState Comp} (a : Action Comp)
    {key : String} {b : Nat} (h : s.moduleSemaphores.table.lookup key = some b) :
    (perform host env s a).2.moduleSemaphores.table.lookup key = some b := by
  rcases semaphores_cases host env s a with heq | ⟨key', _, hnone, heq⟩ | ⟨_, _, _, heq⟩
  · rw [heq]
    exact h
  · have hne : key ≠ key' := by
      intro hkey
      rw [hkey, hnone] at h
      cases h
    rw [heq]
    exact (AList.lookup_insert_ne hne).trans h
  · rw [heq]
    exact h

/-- A semaphore stays the one of its key. -/
theorem lookup_step (http : HttpLib) (lib : ScriptLib) {w : Serving Comp} (t : Turn) {key : String}
    {a : Nat} (h : w.pool.state.moduleSemaphores.table.lookup key = some a) :
    (w.step host http lib t).pool.state.moduleSemaphores.table.lookup key = some a := by
  have hmove : ∀ m, (w.move host m).pool.state.moduleSemaphores.table.lookup key = some a := by
    intro m
    unfold Serving.move
    cases Pool.moveCase w.pool m with
    | taken hi =>
      rw [Pool.step_spawn_of_some _ hi]
      exact h
    | gone hi =>
      rw [Pool.step_advance_of_none _ hi]
      exact h
    | spawn hi =>
      rw [Pool.step_spawn_of_none _ hi]
      exact h
    | ret hi =>
      rw [Pool.step_advance_ret _ hi]
      exact h
    | @act i env a k hi =>
      rw [Pool.step_advance_act _ hi]
      exact lookup_perform host env a h
  cases t with
  | start i req gzip traceId => exact hmove _
  | advance i env => exact hmove _
  | drop i =>
    show (w.pool.state.giveBack (w.gates i)).moduleSemaphores.table.lookup key = some a
    cases w.gates i with
    | holding k b => exact h
    | idle => exact h
    | found k b => exact h

/-- The requests that hold a permit for a key. -/
def Serving.holding (w : Serving Comp) (key : String) : Set Nat :=
  {i | ∃ a, w.gates i = .holding key a}

/-- Over every interleaving of any requests and drops: a key has one semaphore for good, which is
    the one that all requests for the key get; at most `max_per_module_requests` hold a permit for
    it, and the permits left in it are exactly the others; and in multi-module mode only a request
    that holds a permit executes a module. -/
theorem permits_capped (host : Host Comp) (http : HttpLib) (lib : ScriptLib)
    (s : SharedState Comp) (ts : List Turn) (key : String) :
    let w := run (Serving.step host http lib) (.start s) ts
    (∀ a, w.pool.state.moduleSemaphores.table.lookup key = some a → ∀ ts',
      (run (Serving.step host http lib) w ts').pool.state.moduleSemaphores.table.lookup key =
        some a) ∧
    (∀ i a, (w.gates i).at key a →
      w.pool.state.moduleSemaphores.table.lookup key = some a) ∧
    (w.holding key).Finite ∧ (w.holding key).ncard ≤ host.maxPerModuleRequests ∧
    (∀ a, w.pool.state.moduleSemaphores.table.lookup key = some a →
      w.pool.state.moduleSemaphores.permits a + (w.holding key).ncard =
          host.maxPerModuleRequests ∧
        (w.holding key = ∅ →
          w.pool.state.moduleSemaphores.permits a = host.maxPerModuleRequests)) ∧
    ∀ i component req k, host.singleComponent = none →
      w.pool.tasks i = some (.act (.execute component req) k) → ∃ key', i ∈ w.holding key' := by
  intro w
  have hw : Capped host w := capped_run http lib s ts
  have hholding : ∀ a, w.pool.state.moduleSemaphores.table.lookup key = some a →
      w.holding key = holders w.gates (.holding key a) := by
    intro a ha
    ext i
    constructor
    · rintro ⟨b, hb⟩
      have hsame := hw.counted.located i key b (Or.inr hb)
      rw [ha] at hsame
      rw [Option.some.inj hsame]
      exact hb
    · exact fun hi => ⟨a, hi⟩
  have hcount : ∀ a, w.pool.state.moduleSemaphores.table.lookup key = some a →
      w.pool.state.moduleSemaphores.permits a + (w.holding key).ncard =
        host.maxPerModuleRequests := by
    intro a ha
    rw [hholding a ha]
    exact hw.counted.counted key a ha
  have hcap : (w.holding key).Finite ∧ (w.holding key).ncard ≤ host.maxPerModuleRequests := by
    cases hlookup : w.pool.state.moduleSemaphores.table.lookup key with
    | some a =>
      have hsum := hcount a hlookup
      refine ⟨?_, by omega⟩
      rw [hholding a hlookup]
      exact hw.counted.finite key a
    | none =>
      have hempty : w.holding key = ∅ := by
        refine Set.eq_empty_of_forall_notMem fun i hi => ?_
        obtain ⟨b, hb⟩ := hi
        have hsome := hw.counted.located i key b (Or.inr hb)
        rw [hlookup] at hsome
        cases hsome
      rw [hempty]
      exact ⟨Set.finite_empty, by simp⟩
  refine ⟨fun a ha ts' => ?_, fun i a => hw.counted.located i key a, hcap.1, hcap.2,
    fun a ha => ⟨hcount a ha, fun hempty => ?_⟩, fun i component req k hmulti hi => ?_⟩
  · exact run_keeps
      (fun w : Serving Comp => w.pool.state.moduleSemaphores.table.lookup key = some a)
      (fun _ t h => lookup_step http lib t h) ha ts'
  · have hsum := hcount a ha
    rw [hempty, Set.ncard_empty] at hsum
    exact hsum
  · have hallows : (w.gates i).allows host (.execute component req) := (hw.obeying i _ hi).1
    rcases hallows with hsingle | ⟨key', a, hheld⟩
    · rw [hmulti] at hsingle
      cases hsingle
    · exact ⟨key', a, hheld⟩

end

end Mik.Runtime
