/-
  What platform traffic can do to the guards of a tenant module.

  The circuit breaker and the semaphore table have one string key space for platform names and
  tenant cache keys, and a `/run/` segment is decoded, checked and recorded on before any name is
  validated. So `/run/tenant:acme%2Forders` and `host.call("tenant:acme/orders")` work on the
  guards of the tenant module `acme/orders`. That is the only way in: `guards_untouched` is about
  every interleaving of platform requests and host calls, and needs just that none of them is
  keyed by the cache key (and that moka does not drop the entry).

  `Untouched` is the invariant. A task that is keyed elsewhere only learns addresses of other
  semaphores, which is the answer condition `ForeignAnswer`.
-/
import Mik.Runtime.Settlement

namespace Mik.Runtime

open Mik.Lib Mik.Lib.Prog Mik.Reliability

/-- A platform request, or a `host.call()` of a script. -/
inductive Task where
  | platform (req : Request) (clientAcceptsGzip : Bool) (traceId : String)
  | hostCall (c : HostCall) (traceId : String)

section

variable {Comp : Type}

def Task.program (host : Host Comp) (http : HttpLib) (lib : ScriptLib) : Task → Handler Comp Unit
  | .platform req gzip traceId => do
    let _ ← handleRequestInner host http lib req gzip traceId
  | .hostCall c traceId => do
    let _ ← executeHandlerCall http c traceId

/-- The key a platform path works on: the decoded module segment, unless the path is answered
    without one. -/
def platformKey (host : Host Comp) (path : String) : Option String :=
  match stripPrefix "/run/" path with
  | none => none
  | some runPath =>
    let module := (parseModuleRoute runPath).1
    if module = "" then none
    else
      match host.singleComponent with
      | some (expectedName, _) => if module = expectedName then some module else none
      | none => some module

/-- The key of the circuit and the semaphore a task works on, if any. -/
def Task.key (host : Host Comp) : Task → Option String
  | .platform req _ _ =>
    if (validatePathLength req.uri.path).isSome then none
    else if (validateContentLength req.headers host.maxBodySizeBytes).isSome then none
    else platformKey host req.uri.path
  | .hostCall c _ => some c.module

/-- The path of a platform request starts with `/run/`. -/
def Task.IsPlatform : Task → Prop
  | .platform req _ _ => startsWith "/run/" req.uri.path = true
  | .hostCall _ _ => True

/-! ## The invariant -/

/-- The guards of `key` are those of `s₀`. -/
structure Untouched (key : String) (s₀ s : SharedState Comp) : Prop where
  entry : s.entry key = s₀.entry key
  config : s.circuitBreaker.config = s₀.circuitBreaker.config
  semaphore : s.moduleSemaphores.table.lookup key = s₀.moduleSemaphores.table.lookup key
  permits : ∀ a, s₀.moduleSemaphores.table.lookup key = some a →
    s.moduleSemaphores.permits a = s₀.moduleSemaphores.permits a

/-- `a` is not the semaphore of `key`. -/
def Foreign (key : String) (s₀ : SharedState Comp) (a : Nat) : Prop :=
  s₀.moduleSemaphores.table.lookup key ≠ some a

/-- Actions that leave the guards of `key` alone. -/
def ForeignAction (key : String) (s₀ : SharedState Comp) : Action Comp → Prop
  | .checkRequest k => k ≠ key
  | .recordSuccess k => k ≠ key
  | .recordFailure k => k ≠ key
  | .findSemaphore k => k ≠ key
  | .createSemaphore k => k ≠ key
  | .tryAcquire a => Foreign key s₀ a
  | .release a => Foreign key s₀ a
  | _ => True

/-- The addresses such actions are told. -/
def ForeignAnswer (key : String) (s₀ : SharedState Comp) : (a : Action Comp) → Answer Comp a → Prop
  | .findSemaphore _, r => ∀ a ∈ r, Foreign key s₀ a
  | .createSemaphore _, a => Foreign key s₀ a
  | _, _ => True

theorem Untouched.refl (key : String) (s : SharedState Comp) : Untouched key s s :=
  ⟨rfl, rfl, rfl, fun _ _ => rfl⟩

/-- The semaphore of another key is foreign. -/
theorem Untouched.foreign_of_lookup {key k : String} {s₀ s : SharedState Comp}
    (h : Untouched key s₀ s) (hk : k ≠ key) {a : Nat}
    (ha : s.moduleSemaphores.table.lookup k = some a) : Foreign key s₀ a := by
  intro h0
  rw [← h.semaphore] at h0
  exact hk (s.moduleSemaphores.distinct k key a ha h0)

/-- So is a semaphore that is about to be created. -/
theorem Untouched.foreign_next {key : String} {s₀ s : SharedState Comp}
    (h : Untouched key s₀ s) : Foreign key s₀ s.moduleSemaphores.next := by
  intro h0
  rw [← h.semaphore] at h0
  have := s.moduleSemaphores.allocated key _ h0
  omega

theorem foreignAnswer_answer {key : String} {s₀ s : SharedState Comp} (host : Host Comp) (env : Env)
    (a : Action Comp) (h : Untouched key s₀ s) (ha : ForeignAction key s₀ a) :
    ForeignAnswer key s₀ a (answer host env a s).1 := by
  cases a with
  | findSemaphore k =>
    intro a hmem
    exact h.foreign_of_lookup ha hmem
  | createSemaphore k =>
    show Foreign key s₀ (perform host env s (.createSemaphore k)).1
    unfold perform
    dsimp only
    split
    · next a hlookup => exact h.foreign_of_lookup ha hlookup
    · exact h.foreign_next
  | _ => trivial

/-- A foreign action keeps the semaphore of `key` and its permits. -/
theorem semaphores_perform {key : String} {s₀ s : SharedState Comp} (host : Host Comp) (env : Env)
    (a : Action Comp) (h : Untouched key s₀ s) (ha : ForeignAction key s₀ a) :
    (perform host env s a).2.moduleSemaphores.table.lookup key =
        s.moduleSemaphores.table.lookup key ∧
      ∀ addr, s₀.moduleSemaphores.table.lookup key = some addr →
        (perform host env s a).2.moduleSemaphores.permits addr =
          s.moduleSemaphores.permits addr := by
  rcases semaphores_cases host env s a with heq | ⟨k, rfl, _, heq⟩ | ⟨b, n, hb, heq⟩
  · rw [heq]
    exact ⟨rfl, fun _ _ => rfl⟩
  · rw [heq]
    refine ⟨AList.lookup_insert_ne (Ne.symm ha), fun addr haddr => ?_⟩
    have hne : addr ≠ s.moduleSemaphores.next := by
      rintro rfl
      exact h.foreign_next haddr
    exact if_neg hne
  · have hforeign : Foreign key s₀ b := by
      rcases hb with rfl | rfl
      · exact ha
      · exact ha
    rw [heq]
    refine ⟨rfl, fun addr haddr => if_neg ?_⟩
    rintro rfl
    exact hforeign haddr

theorem ForeignAction.breakerKey_ne {key : String} {s₀ : SharedState Comp} {a : Action Comp}
    (ha : ForeignAction key s₀ a) : a.breakerKey ≠ some key := by
  cases a with
  | checkRequest k => exact fun h => ha (Option.some.inj h)
  | recordSuccess k => exact fun h => ha (Option.some.inj h)
  | recordFailure k => exact fun h => ha (Option.some.inj h)
  | _ => exact fun h => nomatch h

theorem config_answer (host : Host Comp) (env : Env) (s : SharedState Comp) (a : Action Comp) :
    (answer host env a s).2.circuitBreaker.config = s.circuitBreaker.config := by
  show ((perform host env s a).2.circuitBreaker.evictAll env.evicted).config = _
  rw [evictAll_config, breaker_perform]
  split
  · exact exec_config _ _
  · rfl

/-- The step lemma: a foreign action keeps the guards of `key`. -/
theorem untouched_answer {key : String} {s₀ s : SharedState Comp} (host : Host Comp) (env : Env)
    (a : Action Comp) (hev : key ∉ env.evicted) (h : Untouched key s₀ s)
    (ha : ForeignAction key s₀ a) : Untouched key s₀ (answer host env a s).2 := by
  obtain ⟨hsem, hpermits⟩ := semaphores_perform host env a h ha
  rw [← semaphores_answer] at hsem hpermits
  refine ⟨?_, ?_, hsem.trans h.semaphore, fun addr haddr => ?_⟩
  · rw [entry_answer_of_ne ha.breakerKey_ne hev]
    exact h.entry
  · rw [config_answer]
    exact h.config
  · exact (hpermits addr haddr).trans (h.permits addr haddr)

/-! ## Tasks keyed elsewhere -/

/-- A handler that works on foreign guards only, and returns results satisfying `Q`. -/
def StaysForeign {α : Type} (key : String) (s₀ : SharedState Comp) (Q : α → Prop)
    (p : Handler Comp α) : Prop :=
  p.Within (ForeignAnswer key s₀) (ForeignAction key s₀) Q

section

variable {key : String} {s₀ : SharedState Comp} {α : Type}

theorem staysForeign_getModuleSemaphore {k : String} (hk : k ≠ key) :
    StaysForeign key s₀ (Foreign key s₀) (getModuleSemaphore k : Handler Comp Nat) := by
  refine ⟨hk, fun r hr => ?_⟩
  cases r with
  | some a => exact hr a rfl
  | none => exact ⟨hk, fun a ha => ha⟩

theorem staysForeign_passGate {k : String} {Q : α → Prop} {blocked : CircuitOpenError → α}
    {overloaded : α} {go : Nat → Handler Comp α} (hk : k ≠ key) (hblocked : ∀ e, Q (blocked e))
    (hoverloaded : Q overloaded) (hgo : ∀ a, Foreign key s₀ a → StaysForeign key s₀ Q (go a)) :
    StaysForeign key s₀ Q (passGate k blocked overloaded go) := by
  refine ⟨hk, fun r _ => ?_⟩
  cases r with
  | error e => exact hblocked e
  | ok u =>
    have hsem := @staysForeign_getModuleSemaphore _ key s₀ k hk
    refine Within.bind (p := getModuleSemaphore k) hsem fun a ha => ⟨ha, fun acquired _ => ?_⟩
    cases acquired with
    | false => exact hoverloaded
    | true => exact hgo a ha

theorem staysForeign_executeHandlerCall (http : HttpLib) {c : HostCall} (traceId : String)
    (hk : c.module ≠ key) :
    StaysForeign key s₀ (fun _ => True) (executeHandlerCall http c traceId : Handler Comp _) := by
  refine staysForeign_passGate hk (fun _ => trivial) trivial fun a ha =>
    ⟨trivial, fun loaded _ => ?_⟩
  cases loaded with
  | error e => exact ⟨hk, fun _ _ => ⟨ha, fun _ _ => trivial⟩⟩
  | ok component =>
    show StaysForeign key s₀ _ _
    dsimp only
    split
    · exact ⟨ha, fun _ _ => trivial⟩
    · refine ⟨trivial, fun x _ => ?_⟩
      show StaysForeign key s₀ _ _
      dsimp only [Prog.bind]
      split
      · exact ⟨hk, fun _ _ => ⟨ha, fun _ _ => trivial⟩⟩
      · exact ⟨hk, fun _ _ => ⟨ha, fun _ _ => trivial⟩⟩

theorem staysForeign_dropPermit {permit : Option Nat} (hp : ∀ a ∈ permit, Foreign key s₀ a) :
    StaysForeign key s₀ (fun _ => True) (dropPermit permit : Handler Comp Unit) := by
  cases permit with
  | none => trivial
  | some a => exact ⟨hp a rfl, fun _ _ => trivial⟩

/-- A resolution that works on foreign guards also hands over foreign ones. -/
def ForeignResolution (key : String) (s₀ : SharedState Comp) : ModuleResolution Comp → Prop
  | .success _ _ moduleName permit =>
    (∀ k ∈ moduleName, k ≠ key) ∧ ∀ a ∈ permit, Foreign key s₀ a
  | .response _ => True

theorem staysForeign_executeResolved (host : Host Comp) (http : HttpLib) (req : Request)
    (gzip : Bool) (component : Comp) (handlerPath : String) {moduleName : Option String}
    {permit : Option Nat} (hn : ∀ k ∈ moduleName, k ≠ key) (hp : ∀ a ∈ permit, Foreign key s₀ a) :
    StaysForeign key s₀ (fun _ => True)
      (executeResolved host http req gzip component handlerPath moduleName permit) := by
  have hdrop := staysForeign_dropPermit hp
  have hrecord : ∀ result, StaysForeign key s₀ (fun _ => True)
      (recordOutcome moduleName result : Handler Comp Unit) := by
    intro result
    cases moduleName with
    | none => trivial
    | some k =>
      cases result with
      | ok resp => exact ⟨hn k rfl, fun _ _ => trivial⟩
      | error e => exact ⟨hn k rfl, fun _ _ => trivial⟩
  unfold executeResolved
  split
  · exact hdrop.bind fun _ _ => trivial
  split
  · exact hdrop.bind fun _ _ => trivial
  · exact hdrop.bind fun _ _ => trivial
  · refine ⟨trivial, fun x _ => ?_⟩
    refine (hrecord x.result).bind fun _ _ => hdrop.bind fun _ _ => ?_
    split
    · trivial
    · trivial

theorem staysForeign_resolveModule (host : Host Comp) {path : String}
    (hk : platformKey host path ≠ some key) :
    StaysForeign key s₀ (ForeignResolution key s₀) (resolveModule host path) := by
  unfold platformKey at hk
  unfold resolveModule
  cases hrun : stripPrefix "/run/" path with
  | none => trivial
  | some runPath =>
    rw [hrun] at hk
    dsimp only at hk ⊢
    by_cases hempty : (parseModuleRoute runPath).1 = ""
    · rw [if_pos hempty]
      trivial
    rw [if_neg hempty] at hk ⊢
    cases hsingle : host.singleComponent with
    | some single =>
      rw [hsingle] at hk
      dsimp only at hk ⊢
      split
      · next heq =>
        rw [if_pos heq] at hk
        exact ⟨fun k hmem he => hk (by rw [← he]; exact hmem), fun a ha => nomatch ha⟩
      · trivial
    | none =>
      rw [hsingle] at hk
      have hk : (parseModuleRoute runPath).1 ≠ key := fun he => hk (congrArg some he)
      refine staysForeign_passGate hk (fun _ => trivial) trivial fun a ha =>
        ⟨trivial, fun loaded _ => ?_⟩
      cases loaded with
      | ok component =>
        exact ⟨fun k hmem => Option.some.inj hmem ▸ hk, fun a' hmem => Option.some.inj hmem ▸ ha⟩
      | error e => exact ⟨hk, fun _ _ => ⟨ha, fun _ _ => trivial⟩⟩

theorem staysForeign_platform (host : Host Comp) (http : HttpLib) (lib : ScriptLib) {req : Request}
    (gzip : Bool) (traceId : String) (hrun : startsWith "/run/" req.uri.path = true)
    (hk : (Task.platform req gzip traceId).key host ≠ some key) :
    StaysForeign key s₀ (fun _ => True)
      (handleRequestInner host http lib req gzip traceId) := by
  obtain ⟨rest, hrest⟩ := List.isPrefixOf_iff_prefix.mp hrun
  have hroute : startsWith "/static/" req.uri.path = false ∧
      startsWith "/_mik/" req.uri.path = false ∧ startsWith "/openapi/" req.uri.path = false ∧
      startsWith "/script/" req.uri.path = false ∧ startsWith "/tenant/" req.uri.path = false := by
    unfold startsWith
    rw [← hrest]
    exact ⟨rfl, rfl, rfl, rfl, rfl⟩
  obtain ⟨hstatic, hmik, hopenapi, hscript, htenant⟩ := hroute
  unfold handleRequestInner
  unfold Task.key at hk
  dsimp only at hk ⊢
  split
  · trivial
  next hlen =>
  rw [hlen] at hk
  split
  · trivial
  next hbody =>
  rw [hbody] at hk
  rw [hstatic, hmik, hopenapi, hscript]
  show StaysForeign key s₀ _ (handleModuleRequest host http req gzip)
  unfold handleModuleRequest resolvePath
  rw [if_neg (by simp [htenant])]
  refine (staysForeign_resolveModule host hk).bind fun res hres => ?_
  cases res with
  | response resp => trivial
  | success component handlerPath moduleName permit =>
    exact staysForeign_executeResolved host http req gzip component handlerPath hres.1 hres.2

theorem staysForeign_task (host : Host Comp) (http : HttpLib) (lib : ScriptLib) {t : Task}
    (hplatform : t.IsPlatform) (hk : t.key host ≠ some key) :
    StaysForeign key s₀ (fun _ => True) (t.program host http lib) := by
  cases t with
  | platform req gzip traceId =>
    exact (staysForeign_platform host http lib gzip traceId hplatform hk).bind fun _ _ => trivial
  | hostCall c traceId =>
    have hk : c.module ≠ key := fun he => hk (congrArg some he)
    exact (staysForeign_executeHandlerCall http traceId hk).bind fun _ _ => trivial

end

/-! ## The verdict of the gate -/

/-- What becomes of a request at the gate of its module. -/
inductive Verdict where
  | blocked (e : CircuitOpenError)
  | overloaded
  | passed
  deriving DecidableEq, Repr

/-- The gate of `resolve_multi_module_path` on `key`. -/
def gateVerdict (key : String) : Handler Comp Verdict :=
  passGate key .blocked .overloaded fun _ => pure .passed

theorem runOn_gateVerdict (host : Host Comp) (key : String) (s : SharedState Comp)
    (envs : Nat → Env) :
    (runOn (answerNext host) (gateVerdict key) (s, envs)).1 =
      match (s.circuitBreaker.checkRequest key (envs 0).elapsedAt (envs 0).startedAt).1 with
      | .error e => .blocked e
      | .ok () => if permitsFor host s key = 0 then .overloaded else .passed := by
  unfold gateVerdict passGate
  rw [call_bind, runOn_act]
  have hanswer : (answerNext host (.checkRequest key) (s, envs)).1 =
      (s.circuitBreaker.checkRequest key (envs 0).elapsedAt (envs 0).startedAt).1 := rfl
  rw [hanswer]
  cases (s.circuitBreaker.checkRequest key (envs 0).elapsedAt (envs 0).startedAt).1 with
  | error e => rfl
  | ok u =>
    dsimp only
    rw [runOn_bind, call_bind, runOn_act, tryAcquire_answer, permits_getModuleSemaphore]
    have hsame : permitsFor host (answerNext host (.checkRequest key) (s, envs)).2.1 key =
        permitsFor host s key := rfl
    rw [hsame]
    by_cases hp : permitsFor host s key = 0
    · simp [hp]
    · simp [hp]

/-- The gate answers alike in states with the same guards. -/
theorem Untouched.verdict_eq {key : String} {s₀ s : SharedState Comp} (h : Untouched key s₀ s)
    (host : Host Comp) (envs : Nat → Env) :
    (runOn (answerNext host) (gateVerdict key) (s, envs)).1 =
      (runOn (answerNext host) (gateVerdict key) (s₀, envs)).1 := by
  have hcheck : (s.circuitBreaker.checkRequest key (envs 0).elapsedAt (envs 0).startedAt).1 =
      (s₀.circuitBreaker.checkRequest key (envs 0).elapsedAt (envs 0).startedAt).1 := by
    have hentry : s.circuitBreaker.states.lookup key =
        s₀.circuitBreaker.states.lookup key := h.entry
    unfold CircuitBreaker.checkRequest
    dsimp only
    rw [hentry, h.config]
    split
    · rfl
    · rfl
  have hpermits : permitsFor host s key = permitsFor host s₀ key := by
    unfold permitsFor
    rw [h.semaphore]
    cases hlookup : s₀.moduleSemaphores.table.lookup key with
    | none => rfl
    | some a => exact h.permits a hlookup
  rw [runOn_gateVerdict, runOn_gateVerdict, hcheck, hpermits]

/-! ## Every interleaving -/

/-- A task arrives, or a running one performs its next action. -/
inductive Traffic where
  | start (i : Nat) (t : Task)
  | advance (i : Nat) (env : Env)

def Traffic.move (host : Host Comp) (http : HttpLib) (lib : ScriptLib) :
    Traffic → Pool.Move (Action Comp) (Answer Comp) Unit Env
  | .start i t => .spawn i (t.program host http lib)
  | .advance i env => .advance i env

/-- The shared state after the traffic `ms`, with no task running in `s`. -/
def afterTraffic (host : Host Comp) (http : HttpLib) (lib : ScriptLib) (s : SharedState Comp)
    (ms : List Traffic) : SharedState Comp :=
  (run (Pool.step (answer host)) ⟨fun _ => none, s⟩ (ms.map (Traffic.move host http lib))).state

/-- Only platform requests and host calls arrive. -/
def Traffic.IsPlatform : Traffic → Prop
  | .start _ t => t.IsPlatform
  | .advance _ _ => True

/-- The task is not keyed by `key`, and moka does not drop the entry of `key`. -/
def Traffic.Avoids (host : Host Comp) (key : String) : Traffic → Prop
  | .start _ t => t.key host ≠ some key
  | .advance _ env => key ∉ env.evicted

/-- As long as no platform request and no host call is keyed by the cache key of a tenant module,
    its circuit entry and its semaphore stay as they were in every state of every interleaving,
    and the gate answers a later request as if nothing had happened. -/
theorem guards_untouched (host : Host Comp) (http : HttpLib) (lib : ScriptLib)
    (tenantId name : String) (s : SharedState Comp) (ms : List Traffic)
    (hplatform : ∀ m ∈ ms, m.IsPlatform)
    (havoid : ∀ m ∈ ms, m.Avoids host (ModulePath.cacheKey (.tenant tenantId name))) :
    ∀ ms', ms' <+: ms →
      Untouched (ModulePath.cacheKey (.tenant tenantId name)) s
        (afterTraffic host http lib s ms') ∧
      ∀ envs, (runOn (answerNext host)
          (gateVerdict (ModulePath.cacheKey (.tenant tenantId name)))
          (afterTraffic host http lib s ms', envs)).1 =
        (runOn (answerNext host) (gateVerdict (ModulePath.cacheKey (.tenant tenantId name)))
          (s, envs)).1 := by
  intro ms' hpre
  have huntouched : Untouched (ModulePath.cacheKey (.tenant tenantId name)) s
      (afterTraffic host http lib s ms') := by
    unfold afterTraffic
    refine Pool.run_invariant (Untouched (ModulePath.cacheKey (.tenant tenantId name)) s)
      (fun env a s' _ hs' ha => foreignAnswer_answer host env a hs' ha)
      (fun env a s' hq hs' ha => untouched_answer host env a hq hs' ha)
      (Untouched.refl _ s) (fun i p hp => by cases hp) ?_
    intro m hm
    obtain ⟨traffic, htraffic, rfl⟩ := List.mem_map.mp hm
    have hmem := hpre.subset htraffic
    have hp := hplatform traffic hmem
    have ha := havoid traffic hmem
    cases traffic with
    | start i t => exact staysForeign_task host http lib hp ha
    | advance i env => exact ha
  exact ⟨huntouched, huntouched.verdict_eq host⟩

end

/-! ## Samples -/

/-- One platform request, started and then run for eight actions at time 5. -/
def platformTraffic (path : String) : List Traffic :=
  .start 0 (.platform (sampleRequest path [1]) false "t") ::
    List.replicate 8 (.advance 0 (failingEnv 5))

/-- `/run/tenant:acme%2Forders` fails to load, which opens the circuit of the tenant module
    `acme/orders`: its next request is refused, and would have passed. -/
theorem encoded_segment_opens_tenant_circuit :
    (∀ m ∈ platformTraffic "/run/tenant:acme%2Forders", m.IsPlatform) ∧
    (afterTraffic sampleHost sampleHttp sampleScripts freshState
      (platformTraffic "/run/tenant:acme%2Forders")).entry "tenant:acme/orders" =
        some (.opened 5 1) ∧
    (runOn (answerNext sampleHost) (gateVerdict "tenant:acme/orders")
      (afterTraffic sampleHost sampleHttp sampleScripts freshState
        (platformTraffic "/run/tenant:acme%2Forders"), fun _ => failingEnv 6)).1 =
        .blocked ⟨"tenant:acme/orders", 1, .opened⟩ ∧
    (runOn (answerNext sampleHost) (gateVerdict "tenant:acme/orders")
      (freshState, fun _ => failingEnv 6)).1 = .passed := by
  refine ⟨?_, by decide +kernel, by decide +kernel, by decide +kernel⟩
  intro m hm
  rcases List.mem_cons.mp hm with rfl | hm
  · show startsWith "/run/" "/run/tenant:acme%2Forders" = true
    decide
  · rw [List.eq_of_mem_replicate hm]
    trivial

theorem guards_untouched_orders :
    (afterTraffic sampleHost sampleHttp sampleScripts freshState
      (platformTraffic "/run/orders")).entry "tenant:acme/orders" = none := by
  have h := (guards_untouched sampleHost sampleHttp sampleScripts "acme" "orders" freshState
    (platformTraffic "/run/orders") ?_ ?_ _ List.prefix_rfl).1.entry
  · exact h
  · intro m hm
    rcases List.mem_cons.mp hm with rfl | hm
    · show startsWith "/run/" "/run/orders" = true
      decide
    · rw [List.eq_of_mem_replicate hm]
      trivial
  · intro m hm
    rcases List.mem_cons.mp hm with rfl | hm
    · show Task.key sampleHost (.platform (sampleRequest "/run/orders" [1]) false "t") ≠
        some "tenant:acme/orders"
      decide
    · rw [List.eq_of_mem_replicate hm]
      show "tenant:acme/orders" ∉ ([] : List String)
      simp

end Mik.Runtime
