/-
  What a request does to the circuit breaker between its admission and its end.

  `Gated key shown Ready tr` lists every way a request that goes through a circuit check can
  end, with the trace of its actions: refused by the circuit, refused by the semaphore, failing
  to load, dropped before execution (`¬ Ready`), or executed. `key` is checked, `shown` is what
  the outcome of an execution is recorded on. Both handlers have exactly these traces
  (`gated_handleModuleRequest`, `gated_executeHandlerCall`), whatever the other tasks do, since
  the answers in a trace are arbitrary.

  Everything else is read off that list: when an admitted request is settled on the key that
  was checked, and what the requests of a tenant module do to the circuit that gates it.
-/
import Mik.Runtime.RequestHandler

namespace Mik.Runtime

open Mik.Lib Mik.Lib.Prog Mik.Reliability

section

variable {Comp : Type}

abbrev HandlerEvent (Comp : Type) := Event (Action Comp) (Answer Comp)

@[simp] theorem call_bind {α : Type} (a : Action Comp) (f : Answer Comp a → Handler Comp α) :
    (call a >>= f) = .act a f := rfl

theorem exec_call {a : Action Comp} {tr : List (HandlerEvent Comp)} {r : Answer Comp a}
    (h : Exec (call a) tr r) : tr = [⟨a, r⟩] := by
  obtain ⟨r', tr', rfl, h'⟩ := exec_act_iff.mp h
  obtain ⟨rfl, rfl⟩ := exec_ret_iff.mp h'
  rfl

/-! ## Traces -/

/-- The key a `record_success` or `record_failure` is made on. -/
def Action.recordedKey : Action Comp → Option String
  | .recordSuccess key => some key
  | .recordFailure key => some key
  | _ => none

/-- The keys recorded on, in order. -/
def recordedKeys (tr : List (HandlerEvent Comp)) : List String :=
  tr.filterMap fun ev => ev.1.recordedKey

/-- `check_request` answered `Ok` on `key`. -/
def Admitted (key : String) (tr : List (HandlerEvent Comp)) : Prop :=
  ⟨.checkRequest key, .ok ()⟩ ∈ tr

/-- Exactly one outcome is recorded on `key`. -/
def SettledOnce (key : String) (tr : List (HandlerEvent Comp)) : Prop :=
  (recordedKeys tr).count key = 1

def Acquired (tr : List (HandlerEvent Comp)) : Prop :=
  ∃ semaphore, ⟨.tryAcquire semaphore, true⟩ ∈ tr

/-- A load answered `r`. -/
def LoadEvent (ev : HandlerEvent Comp) (r : Except Error Comp) : Prop :=
  (∃ name, ev = ⟨.getOrLoad name, r⟩) ∨ ∃ p, ev = ⟨.getOrLoadModulePath p, r⟩

def LoadFailed (tr : List (HandlerEvent Comp)) : Prop := ∃ ev ∈ tr, ∃ e, LoadEvent ev (.error e)

def Executed (tr : List (HandlerEvent Comp)) : Prop :=
  ∃ component req x, ⟨.execute component req, x⟩ ∈ tr

/-- The lock sections of `get_module_semaphore`. -/
inductive SemaphoreTrace (key : String) (semaphore : Nat) : List (HandlerEvent Comp) → Prop where
  | found : SemaphoreTrace key semaphore [⟨.findSemaphore key, some semaphore⟩]
  | created : SemaphoreTrace key semaphore
      [⟨.findSemaphore key, none⟩, ⟨.createSemaphore key, semaphore⟩]

/-- The record call after an execution. -/
def recordEvent (key : String) : Except Error Response → HandlerEvent Comp
  | .ok _ => ⟨.recordSuccess key, ()⟩
  | .error _ => ⟨.recordFailure key, ()⟩

/-- The start of a trace, up to the answer about the permit. -/
def admission (key : String) (sems : List (HandlerEvent Comp)) (semaphore : Nat)
    (acquired : Bool) : List (HandlerEvent Comp) :=
  ⟨.checkRequest key, .ok ()⟩ :: (sems ++ [⟨.tryAcquire semaphore, acquired⟩])

inductive Gated (key shown : String) (Ready : Prop) : List (HandlerEvent Comp) → Prop where
  | blocked (e : CircuitOpenError) : Gated key shown Ready [⟨.checkRequest key, .error e⟩]
  | overloaded {sems : List (HandlerEvent Comp)} {semaphore : Nat} :
      SemaphoreTrace key semaphore sems →
      Gated key shown Ready (admission key sems semaphore false)
  | loadFailed {sems : List (HandlerEvent Comp)} {semaphore : Nat} {load : HandlerEvent Comp}
      {e : Error} : SemaphoreTrace key semaphore sems → LoadEvent load (.error e) →
      Gated key shown Ready (admission key sems semaphore true ++
        [load, ⟨.recordFailure key, ()⟩, ⟨.release semaphore, ()⟩])
  | dropped {sems : List (HandlerEvent Comp)} {semaphore : Nat} {load : HandlerEvent Comp}
      {component : Comp} : SemaphoreTrace key semaphore sems → LoadEvent load (.ok component) →
      ¬ Ready →
      Gated key shown Ready (admission key sems semaphore true ++
        [load, ⟨.release semaphore, ()⟩])
  | executed {sems : List (HandlerEvent Comp)} {semaphore : Nat} {load : HandlerEvent Comp}
      {component : Comp} (req : Request) (x : Execution) : SemaphoreTrace key semaphore sems →
      LoadEvent load (.ok component) → Ready →
      Gated key shown Ready (admission key sems semaphore true ++
        [load, ⟨.execute component req, x⟩, recordEvent shown x.result,
          ⟨.release semaphore, ()⟩])

theorem exec_getModuleSemaphore {key : String} {tr : List (HandlerEvent Comp)} {semaphore : Nat}
    (h : Exec (getModuleSemaphore key) tr semaphore) : SemaphoreTrace key semaphore tr := by
  unfold getModuleSemaphore at h
  rw [call_bind] at h
  obtain ⟨r, tr', rfl, h'⟩ := exec_act_iff.mp h
  cases r with
  | some semaphore' =>
    obtain ⟨rfl, rfl⟩ := exec_ret_iff.mp h'
    exact .found
  | none =>
    rw [exec_call h']
    exact .created

/-- A gated path is refused at one of the two gates, or goes on with a permit. -/
theorem exec_passGate {α : Type} {key : String} {blocked : CircuitOpenError → α} {overloaded : α}
    {go : Nat → Handler Comp α} {tr : List (HandlerEvent Comp)} {out : α}
    (h : Exec (passGate key blocked overloaded go) tr out) :
    (∃ e, tr = [⟨.checkRequest key, .error e⟩] ∧ out = blocked e) ∨
      ∃ sems semaphore, SemaphoreTrace key semaphore sems ∧
        ((tr = admission key sems semaphore false ∧ out = overloaded) ∨
          ∃ rest, tr = admission key sems semaphore true ++ rest ∧
            Exec (go semaphore) rest out) := by
  unfold passGate at h
  rw [call_bind] at h
  obtain ⟨r, tr', rfl, h'⟩ := exec_act_iff.mp h
  cases r with
  | error e =>
    obtain ⟨rfl, rfl⟩ := exec_ret_iff.mp h'
    exact Or.inl ⟨e, rfl, rfl⟩
  | ok u =>
    obtain ⟨sems, tr₂, semaphore, rfl, hsem, h2⟩ := exec_bind_iff.mp h'
    refine Or.inr ⟨sems, semaphore, exec_getModuleSemaphore hsem, ?_⟩
    rw [call_bind] at h2
    obtain ⟨acquired, rest, rfl, h3⟩ := exec_act_iff.mp h2
    cases acquired with
    | false =>
      obtain ⟨rfl, rfl⟩ := exec_ret_iff.mp h3
      exact Or.inl ⟨rfl, rfl⟩
    | true => exact Or.inr ⟨rest, by simp [admission], h3⟩

/-! ## The two handlers -/

/-- The load of a module: platform names go through `get_or_load`. -/
def loadOf : ModulePath → Handler Comp (Except Error Comp)
  | .platform name => call (.getOrLoad name)
  | .tenant tenantId name => call (.getOrLoadModulePath (.tenant tenantId name))

theorem exec_loadOf {p : ModulePath} {tr : List (HandlerEvent Comp)} {r : Except Error Comp}
    (h : Exec (loadOf p) tr r) : ∃ ev, tr = [ev] ∧ LoadEvent ev r := by
  match p with
  | .platform name => exact ⟨_, exec_call h, Or.inl ⟨name, rfl⟩⟩
  | .tenant tenantId name => exact ⟨_, exec_call h, Or.inr ⟨_, rfl⟩⟩

/-- The module and handler path a `/tenant/` request is gated for, if it is gated at all. -/
def tenantGate (host : Host Comp) (path : String) : Option (ModulePath × String) :=
  match stripPrefix "/tenant/" path with
  | none => none
  | some tenantPath =>
    if host.userModulesDir.isNone then none
    else
      match parseModulePathRoute tenantPath with
      | some (.tenant tenantId name, handlerPath) => some (.tenant tenantId name, handlerPath)
      | _ => none

/-- The module and handler path a `/run/` request is gated for. -/
def platformGate (host : Host Comp) (path : String) : Option (ModulePath × String) :=
  match stripPrefix "/run/" path with
  | none => none
  | some runPath =>
    if (parseModuleRoute runPath).1 = "" ∨ host.singleComponent.isSome then none
    else some (.platform (parseModuleRoute runPath).1, (parseModuleRoute runPath).2)

/-- The resolution is the gated one of `gate`, or it is decided without any action. -/
def ResolvedBy (host : Host Comp) (gate : Option (ModulePath × String))
    (resolution : Handler Comp (ModuleResolution Comp)) : Prop :=
  match gate with
  | some (p, handlerPath) =>
    resolution = resolveKeyed host p.cacheKey p.handlerName (loadOf p) handlerPath
  | none => ∃ res, resolution = .ret res

/-- A tenant route without a gate is answered at once. -/
theorem resolveTenantModule_cases (host : Host Comp) (path : String) :
    (∃ p handlerPath, tenantGate host path = some (p, handlerPath) ∧
      resolveTenantModule host path =
        resolveKeyed host p.cacheKey p.handlerName (loadOf p) handlerPath) ∨
      (tenantGate host path = none ∧
        ∃ resp, resolveTenantModule host path = .ret (.response resp)) := by
  unfold tenantGate resolveTenantModule
  cases stripPrefix "/tenant/" path with
  | none => exact Or.inr ⟨rfl, _, rfl⟩
  | some tenantPath =>
    dsimp only
    by_cases hdir : host.userModulesDir.isNone
    · rw [if_pos hdir, if_pos hdir]
      exact Or.inr ⟨rfl, _, rfl⟩
    rw [if_neg hdir, if_neg hdir]
    match parseModulePathRoute tenantPath with
    | none => exact Or.inr ⟨rfl, _, rfl⟩
    | some (.platform name, handlerPath) => exact Or.inr ⟨rfl, _, rfl⟩
    | some (.tenant tenantId name, handlerPath) => exact Or.inl ⟨_, _, rfl, rfl⟩

theorem resolvedBy_tenantGate (host : Host Comp) (path : String) :
    ResolvedBy host (tenantGate host path) (resolveTenantModule host path) := by
  rcases resolveTenantModule_cases host path with
    ⟨p, handlerPath, hgate, hres⟩ | ⟨hgate, resp, hres⟩
  · rw [hgate]
    exact hres
  · rw [hgate]
    exact ⟨_, hres⟩

theorem resolvedBy_platformGate (host : Host Comp) (path : String) :
    ResolvedBy host (platformGate host path) (resolveModule host path) := by
  unfold platformGate resolveModule
  cases stripPrefix "/run/" path with
  | none => exact ⟨_, rfl⟩
  | some runPath =>
    dsimp only
    by_cases hempty : (parseModuleRoute runPath).1 = ""
    · rw [if_pos hempty, if_pos (Or.inl hempty)]
      exact ⟨_, rfl⟩
    rw [if_neg hempty]
    cases host.singleComponent with
    | some single =>
      rw [if_pos (Or.inr Option.isSome_some)]
      dsimp only
      split
      · exact ⟨_, rfl⟩
      · exact ⟨_, rfl⟩
    | none =>
      rw [if_neg (by simp [hempty])]
      exact rfl

/-- The request can be executed: its URI can be rewritten and its body collected. -/
def Collectable (host : Host Comp) (http : HttpLib) (req : Request) (handlerPath : String) : Prop :=
  (http.withPathAndQuery req.uri handlerPath).isSome ∧
    ∃ bytes, collectLimited host.maxBodySizeBytes req.body.failure req.body.frames = .ok bytes

theorem collectRequestBody_ok_iff {body : Incoming} {maxBody : Nat} :
    (∃ bytes, collectRequestBody body maxBody = .ok (.ok bytes)) ↔
      ∃ bytes, collectLimited maxBody body.failure body.frames = .ok bytes := by
  unfold collectRequestBody
  split
  · next bytes h => simp [h]
  · next chain h =>
    rw [h]
    split <;> simp

theorem exec_dropPermit {semaphore : Nat} {tr : List (HandlerEvent Comp)}
    (h : Exec (dropPermit (some semaphore)) tr ()) : tr = [⟨.release semaphore, ()⟩] := exec_call h

theorem exec_recordOutcome {name : String} {result : Except Error Response}
    {tr : List (HandlerEvent Comp)} (h : Exec (recordOutcome (some name) result) tr ()) :
    tr = [recordEvent name result] := by
  cases result with
  | ok resp => exact exec_call h
  | error e => exact exec_call h

/-- An unexecuted request only drops its permit; an executed one records on `name` first. -/
theorem exec_executeResolved {host : Host Comp} {http : HttpLib} {req : Request} {gzip : Bool}
    {component : Comp} {handlerPath name : String} {semaphore : Nat}
    {tr : List (HandlerEvent Comp)} {out : Except Error Response}
    (h : Exec (executeResolved host http req gzip component handlerPath (some name)
      (some semaphore)) tr out) :
    (¬ Collectable host http req handlerPath ∧ tr = [⟨.release semaphore, ()⟩]) ∨
      (Collectable host http req handlerPath ∧ ∃ req' x,
        tr = [⟨.execute component req', x⟩, recordEvent name x.result,
          ⟨.release semaphore, ()⟩]) := by
  have hdrop : ∀ {y : Except Error Response} {tr : List (HandlerEvent Comp)},
      Exec (do dropPermit (some semaphore); return y) tr out → tr = [⟨.release semaphore, ()⟩] := by
    intro y tr h
    obtain ⟨tr₁, tr₂, u, rfl, h1, h2⟩ := exec_bind_iff.mp h
    obtain ⟨rfl, -⟩ := exec_ret_iff.mp h2
    rw [exec_dropPermit h1, List.append_nil]
  have hbody : (∃ bytes, collectRequestBody req.body host.maxBodySizeBytes = .ok (.ok bytes)) ↔ _ :=
    collectRequestBody_ok_iff
  unfold executeResolved rewriteRequestPath at h
  unfold Collectable
  cases huri : http.withPathAndQuery req.uri handlerPath with
  | none =>
    rw [huri] at h
    exact Or.inl ⟨by simp, hdrop h⟩
  | some uri =>
    rw [huri] at h
    rw [← hbody]
    dsimp only at h
    cases hc : collectRequestBody req.body host.maxBodySizeBytes with
    | error e =>
      rw [hc] at h
      exact Or.inl ⟨by simp, hdrop h⟩
    | ok inner =>
      rw [hc] at h
      cases inner with
      | error resp => exact Or.inl ⟨by simp, hdrop h⟩
      | ok bytes =>
        refine Or.inr ⟨by simp, ?_⟩
        dsimp only at h
        rw [call_bind] at h
        obtain ⟨x, tr', rfl, h'⟩ := exec_act_iff.mp h
        obtain ⟨tr₁, tr₂, u, rfl, h1, h2⟩ := exec_bind_iff.mp h'
        obtain ⟨tr₃, tr₄, v, rfl, h3, h4⟩ := exec_bind_iff.mp h2
        have hend : tr₄ = [] := by
          cases hx : x.result with
          | error e =>
            rw [hx] at h4
            exact (exec_ret_iff.mp h4).1
          | ok resp =>
            rw [hx] at h4
            exact (exec_ret_iff.mp h4).1
        rw [exec_recordOutcome h1, exec_dropPermit h3, hend]
        exact ⟨_, x, rfl⟩

/-- A handler that never consults the circuit breaker. -/
def Ungated {α : Type} (p : Handler Comp α) : Prop :=
  p.Within (fun _ _ => True) (fun a => ∀ key, a ≠ .checkRequest key) fun _ => True

theorem ungated_executeResolved (host : Host Comp) (http : HttpLib) (req : Request) (gzip : Bool)
    (component : Comp) (handlerPath : String) (moduleName : Option String) (permit : Option Nat) :
    Ungated (executeResolved host http req gzip component handlerPath moduleName permit) := by
  have hdrop : ∀ (permit : Option Nat), Ungated (dropPermit permit : Handler Comp Unit) := by
    intro permit
    cases permit with
    | none => trivial
    | some semaphore => exact ⟨fun _ h => (nomatch h), fun _ _ => trivial⟩
  have hrecord : ∀ result, Ungated (recordOutcome moduleName result : Handler Comp Unit) := by
    intro result
    cases moduleName with
    | none => trivial
    | some name =>
      cases result with
      | ok resp => exact ⟨fun _ h => (nomatch h), fun _ _ => trivial⟩
      | error e => exact ⟨fun _ h => (nomatch h), fun _ _ => trivial⟩
  unfold executeResolved
  split
  · exact (hdrop permit).bind fun _ _ => trivial
  split
  · exact (hdrop permit).bind fun _ _ => trivial
  · exact (hdrop permit).bind fun _ _ => trivial
  · refine ⟨fun _ h => (nomatch h), fun x _ => ?_⟩
    refine (hrecord x.result).bind fun _ _ => (hdrop permit).bind fun _ _ => ?_
    split
    · trivial
    · trivial

/-- A resolution answers the request itself, or hands over a component and a permit. -/
theorem exec_resolveKeyed {host : Host Comp} {p : ModulePath} {handlerPath : String}
    {tr : List (HandlerEvent Comp)} {res : ModuleResolution Comp}
    (h : Exec (resolveKeyed host p.cacheKey p.handlerName (loadOf p) handlerPath) tr res) :
    (∃ resp, res = .response resp ∧ ∀ Ready, Gated p.cacheKey p.handlerName Ready tr) ∨
      ∃ sems semaphore load component, SemaphoreTrace p.cacheKey semaphore sems ∧
        LoadEvent load (.ok component) ∧
        tr = admission p.cacheKey sems semaphore true ++ [load] ∧
        res = .success component handlerPath (some p.handlerName) (some semaphore) := by
  rcases exec_passGate h with ⟨e, rfl, rfl⟩ | ⟨sems, semaphore, hsem, ⟨rfl, rfl⟩ | ⟨rest, rfl, h'⟩⟩
  · exact Or.inl ⟨_, rfl, fun _ => .blocked e⟩
  · exact Or.inl ⟨_, rfl, fun _ => .overloaded hsem⟩
  · obtain ⟨trl, tr₂, loaded, rfl, hload, h2⟩ := exec_bind_iff.mp h'
    obtain ⟨load, rfl, hev⟩ := exec_loadOf hload
    cases loaded with
    | ok component =>
      obtain ⟨rfl, rfl⟩ := exec_ret_iff.mp h2
      exact Or.inr ⟨sems, semaphore, load, component, hsem, hev, rfl, rfl⟩
    | error e =>
      obtain ⟨_, tr₃, rfl, h3⟩ := exec_act_iff.mp h2
      obtain ⟨_, tr₄, rfl, h4⟩ := exec_act_iff.mp h3
      obtain ⟨rfl, rfl⟩ := exec_ret_iff.mp h4
      exact Or.inl ⟨_, rfl, fun _ => .loadFailed hsem hev⟩

theorem gated_handleModuleRequest {host : Host Comp} {http : HttpLib} {req : Request} {gzip : Bool}
    {p : ModulePath} {handlerPath : String} {tr : List (HandlerEvent Comp)}
    {out : Except Error Response} (h : Exec (do
      match ← resolveKeyed host p.cacheKey p.handlerName (loadOf p) handlerPath with
      | .response resp => return .ok resp
      | .success component handlerPath moduleName modulePermit =>
        executeResolved host http req gzip component handlerPath moduleName modulePermit) tr out) :
    Gated p.cacheKey p.handlerName (Collectable host http req handlerPath) tr := by
  obtain ⟨tr₁, tr₂, res, rfl, h1, h2⟩ := exec_bind_iff.mp h
  rcases exec_resolveKeyed h1 with ⟨resp, rfl, hg⟩ | ⟨sems, semaphore, load, component, hsem, hev,
    rfl, rfl⟩
  · obtain ⟨rfl, -⟩ := exec_ret_iff.mp h2
    rw [List.append_nil]
    exact hg _
  · rcases exec_executeResolved h2 with ⟨hnot, rfl⟩ | ⟨hready, req', x, rfl⟩
    · rw [List.append_assoc]
      exact .dropped hsem hev hnot
    · rw [List.append_assoc]
      exact .executed req' x hsem hev hready

theorem gated_executeHandlerCall {http : HttpLib} {c : HostCall} {traceId : String}
    {tr : List (HandlerEvent Comp)} {out : Except Error HostCallResult}
    (h : Exec (executeHandlerCall http c traceId) tr out) :
    Gated c.module c.module ((handlerCallRequest http c traceId).isSome) tr := by
  rcases exec_passGate h with ⟨e, rfl, rfl⟩ | ⟨sems, semaphore, hsem, ⟨rfl, rfl⟩ | ⟨rest, rfl, h'⟩⟩
  · exact .blocked e
  · exact .overloaded hsem
  · rw [call_bind] at h'
    obtain ⟨loaded, tr₂, rfl, h2⟩ := exec_act_iff.mp h'
    have hev : LoadEvent (⟨.getOrLoad c.module, loaded⟩ : HandlerEvent Comp) loaded :=
      Or.inl ⟨_, rfl⟩
    cases loaded with
    | error e =>
      obtain ⟨_, tr₃, rfl, h3⟩ := exec_act_iff.mp h2
      obtain ⟨_, tr₄, rfl, h4⟩ := exec_act_iff.mp h3
      obtain ⟨rfl, rfl⟩ := exec_ret_iff.mp h4
      exact .loadFailed hsem hev
    | ok component =>
      dsimp only at h2
      cases hreq : handlerCallRequest http c traceId with
      | none =>
        rw [hreq] at h2
        obtain ⟨_, tr₃, rfl, h3⟩ := exec_act_iff.mp h2
        obtain ⟨rfl, rfl⟩ := exec_ret_iff.mp h3
        exact .dropped hsem hev (by simp)
      | some req =>
        rw [hreq] at h2
        dsimp only at h2
        rw [call_bind] at h2
        obtain ⟨x, tr₃, rfl, h3⟩ := exec_act_iff.mp h2
        have hrest : tr₃ = [recordEvent c.module x.result, ⟨.release semaphore, ()⟩] := by
          cases hx : x.result with
          | ok response =>
            rw [hx] at h3
            obtain ⟨_, tr₄, rfl, h4⟩ := exec_act_iff.mp h3
            obtain ⟨_, tr₅, rfl, h5⟩ := exec_act_iff.mp h4
            obtain ⟨rfl, -⟩ := exec_ret_iff.mp h5
            rfl
          | error e =>
            rw [hx] at h3
            obtain ⟨_, tr₄, rfl, h4⟩ := exec_act_iff.mp h3
            obtain ⟨_, tr₅, rfl, h5⟩ := exec_act_iff.mp h4
            obtain ⟨rfl, -⟩ := exec_ret_iff.mp h5
            rfl
        rw [hrest]
        exact .executed req x hsem hev (by simp)

/-! ## Reading a gated trace -/

theorem recordedKeys_append (tr₁ tr₂ : List (HandlerEvent Comp)) :
    recordedKeys (tr₁ ++ tr₂) = recordedKeys tr₁ ++ recordedKeys tr₂ := List.filterMap_append

@[simp] theorem recordedKeys_cons (ev : HandlerEvent Comp) (tr : List (HandlerEvent Comp)) :
    recordedKeys (ev :: tr) = ev.1.recordedKey.toList ++ recordedKeys tr := by
  unfold recordedKeys
  rw [List.filterMap_cons]
  cases ev.1.recordedKey <;> rfl

@[simp] theorem recordedKeys_nil : recordedKeys ([] : List (HandlerEvent Comp)) = [] := rfl

@[simp] theorem recordedKey_recordFailure (key : String) :
    (Action.recordFailure key : Action Comp).recordedKey = some key := rfl

@[simp] theorem recordedKey_release (semaphore : Nat) :
    (Action.release semaphore : Action Comp).recordedKey = none := rfl

@[simp] theorem recordedKey_execute (component : Comp) (req : Request) :
    (Action.execute component req).recordedKey = none := rfl

@[simp] theorem recordedKey_recordEvent (key : String) (result : Except Error Response) :
    (recordEvent key result : HandlerEvent Comp).1.recordedKey = some key := by
  cases result <;> rfl

theorem LoadEvent.recordedKey {ev : HandlerEvent Comp} {r : Except Error Comp}
    (h : LoadEvent ev r) : ev.1.recordedKey = none := by
  rcases h with ⟨name, rfl⟩ | ⟨p, rfl⟩ <;> rfl

theorem SemaphoreTrace.recordedKeys {key : String} {semaphore : Nat}
    {sems : List (HandlerEvent Comp)} (h : SemaphoreTrace key semaphore sems) :
    recordedKeys sems = [] := by
  cases h <;> rfl

theorem recordedKeys_admission {key : String} {semaphore : Nat} {sems : List (HandlerEvent Comp)}
    (h : SemaphoreTrace key semaphore sems) (acquired : Bool) :
    recordedKeys (admission key sems semaphore acquired) = [] := by
  unfold admission
  rw [recordedKeys_cons, recordedKeys_append, h.recordedKeys]
  rfl

/-- The events of an admission. -/
theorem mem_admission {key : String} {semaphore : Nat} {sems : List (HandlerEvent Comp)}
    (h : SemaphoreTrace key semaphore sems) {acquired : Bool} {ev : HandlerEvent Comp}
    (hev : ev ∈ admission key sems semaphore acquired) :
    ev = ⟨.checkRequest key, .ok ()⟩ ∨ (∃ r, ev = ⟨.findSemaphore key, r⟩) ∨
      (∃ r, ev = ⟨.createSemaphore key, r⟩) ∨ ev = ⟨.tryAcquire semaphore, acquired⟩ := by
  rcases List.mem_cons.mp hev with rfl | hev
  · exact Or.inl rfl
  rcases List.mem_append.mp hev with hev | hev
  · cases h with
    | found =>
      rw [List.mem_singleton] at hev
      exact Or.inr (Or.inl ⟨_, hev⟩)
    | created =>
      rcases List.mem_cons.mp hev with rfl | hev
      · exact Or.inr (Or.inl ⟨_, rfl⟩)
      · rw [List.mem_singleton] at hev
        exact Or.inr (Or.inr (Or.inl ⟨_, hev⟩))
  · rw [List.mem_singleton] at hev
    exact Or.inr (Or.inr (Or.inr hev))

theorem acquired_admission (key : String) (sems : List (HandlerEvent Comp)) (semaphore : Nat)
    (rest : List (HandlerEvent Comp)) : Acquired (admission key sems semaphore true ++ rest) :=
  ⟨semaphore, by simp [admission]⟩

theorem not_acquired_admission {key : String} {semaphore : Nat} {sems : List (HandlerEvent Comp)}
    (h : SemaphoreTrace key semaphore sems) :
    ¬ Acquired (admission key sems semaphore false) := by
  rintro ⟨semaphore', hev⟩
  rcases mem_admission h hev with he | ⟨r, he⟩ | ⟨r, he⟩ | he <;> cases he

/-- No event of an admission is a load. -/
theorem not_load_admission {key : String} {semaphore : Nat} {sems : List (HandlerEvent Comp)}
    (h : SemaphoreTrace key semaphore sems) {acquired : Bool} {ev : HandlerEvent Comp}
    (hev : ev ∈ admission key sems semaphore acquired) (r : Except Error Comp) :
    ¬ LoadEvent ev r := by
  rintro (⟨name, rfl⟩ | ⟨p, rfl⟩)
  · rcases mem_admission h hev with he | ⟨r, he⟩ | ⟨r, he⟩ | he <;> cases he
  · rcases mem_admission h hev with he | ⟨r, he⟩ | ⟨r, he⟩ | he <;> cases he

theorem LoadEvent.answer_eq {ev : HandlerEvent Comp} {r r' : Except Error Comp}
    (h : LoadEvent ev r) (h' : LoadEvent ev r') : r = r' := by
  rcases h with ⟨name, rfl⟩ | ⟨p, rfl⟩
  · rcases h' with ⟨name', he⟩ | ⟨p', he⟩
    · cases he
      rfl
    · cases he
  · rcases h' with ⟨name', he⟩ | ⟨p', he⟩
    · cases he
    · cases he
      rfl

theorem not_load_recordEvent (key : String) (result : Except Error Response)
    (r : Except Error Comp) : ¬ LoadEvent (recordEvent key result) r := by
  rintro (⟨name, h⟩ | ⟨p, h⟩) <;> cases result <;> cases h

/-- A trace whose load succeeded has no failed load. -/
theorem not_loadFailed {key : String} {semaphore : Nat} {sems : List (HandlerEvent Comp)}
    (h : SemaphoreTrace key semaphore sems) {load : HandlerEvent Comp} {component : Comp}
    (hload : LoadEvent load (.ok component)) {rest : List (HandlerEvent Comp)}
    (hrest : ∀ ev ∈ rest, ∀ r, ¬ LoadEvent ev r) :
    ¬ LoadFailed (admission key sems semaphore true ++ load :: rest) := by
  rintro ⟨ev, hev, e, he⟩
  rcases List.mem_append.mp hev with hev | hev
  · exact not_load_admission h hev _ he
  rcases List.mem_cons.mp hev with rfl | hev
  · exact absurd (hload.answer_eq he) (by simp)
  · exact hrest ev hev _ he

theorem Gated.settled_iff {key shown : String} {Ready : Prop} {tr : List (HandlerEvent Comp)}
    (hg : Gated key shown Ready tr) (ha : Admitted key tr) :
    SettledOnce key tr ↔ Acquired tr ∧ (LoadFailed tr ∨ (shown = key ∧ Ready)) := by
  unfold SettledOnce
  cases hg with
  | blocked e =>
    rcases List.mem_singleton.mp ha with he
    cases he
  | overloaded hsem =>
    rw [recordedKeys_admission hsem]
    have := not_acquired_admission hsem
    simp [this]
  | @loadFailed sems semaphore load e hsem hload =>
    have hacq := acquired_admission key sems semaphore
      [load, ⟨.recordFailure key, ()⟩, ⟨.release semaphore, ()⟩]
    have hfail : LoadFailed (admission key sems semaphore true ++
        [load, ⟨.recordFailure key, ()⟩, ⟨.release semaphore, ()⟩]) :=
      ⟨load, by simp, e, hload⟩
    rw [recordedKeys_append, recordedKeys_admission hsem]
    simp [hload.recordedKey, hacq, hfail]
  | @dropped sems semaphore load component hsem hload hnot =>
    have hfail : ¬ LoadFailed (admission key sems semaphore true ++
        [load, ⟨.release semaphore, ()⟩]) := by
      refine not_loadFailed hsem hload fun ev hev r hr => ?_
      rw [List.mem_singleton.mp hev] at hr
      rcases hr with ⟨name, he⟩ | ⟨p, he⟩ <;> cases he
    rw [recordedKeys_append, recordedKeys_admission hsem]
    simp [hload.recordedKey, hfail, hnot]
  | @executed sems semaphore load component req x hsem hload hready =>
    have hacq := acquired_admission key sems semaphore
      [load, ⟨.execute component req, x⟩, recordEvent shown x.result, ⟨.release semaphore, ()⟩]
    have hfail : ¬ LoadFailed (admission key sems semaphore true ++
        [load, ⟨.execute component req, x⟩, recordEvent shown x.result,
          ⟨.release semaphore, ()⟩]) := by
      refine not_loadFailed hsem hload fun ev hev r hr => ?_
      simp only [List.mem_cons, List.not_mem_nil, or_false] at hev
      rcases hev with rfl | rfl | rfl
      · rcases hr with ⟨name, he⟩ | ⟨p, he⟩ <;> cases he
      · exact not_load_recordEvent shown x.result r hr
      · rcases hr with ⟨name, he⟩ | ⟨p, he⟩ <;> cases he
    rw [recordedKeys_append, recordedKeys_admission hsem]
    simp [hload.recordedKey, hacq, hfail, hready, List.count_singleton]

/-- The circuit consulted along a gated trace is the one of `key`. -/
theorem Gated.admitted_eq {key shown key' : String} {Ready : Prop} {tr : List (HandlerEvent Comp)}
    (hg : Gated key shown Ready tr) (ha : Admitted key' tr) : key' = key := by
  have hadm : ∀ {sems : List (HandlerEvent Comp)} {semaphore : Nat} {acquired : Bool},
      SemaphoreTrace key semaphore sems →
      (⟨.checkRequest key', .ok ()⟩ : HandlerEvent Comp) ∈ admission key sems semaphore acquired →
      key' = key := by
    intro sems semaphore acquired hsem hev
    rcases mem_admission hsem hev with he | ⟨r, he⟩ | ⟨r, he⟩ | he <;> cases he
    rfl
  have hload : ∀ {load : HandlerEvent Comp} {r : Except Error Comp}, LoadEvent load r →
      (⟨.checkRequest key', .ok ()⟩ : HandlerEvent Comp) ≠ load := by
    rintro load r (⟨name, rfl⟩ | ⟨p, rfl⟩) he <;> cases he
  unfold Admitted at ha
  cases hg with
  | blocked e =>
    rcases List.mem_singleton.mp ha with he
    cases he
  | overloaded hsem => exact hadm hsem ha
  | loadFailed hsem hl =>
    rcases List.mem_append.mp ha with ha | ha
    · exact hadm hsem ha
    · simp [hload hl] at ha
  | dropped hsem hl _ =>
    rcases List.mem_append.mp ha with ha | ha
    · exact hadm hsem ha
    · simp [hload hl] at ha
  | executed req x hsem hl _ =>
    rcases List.mem_append.mp ha with ha | ha
    · exact hadm hsem ha
    · simp only [List.mem_cons, hload hl, false_or, List.not_mem_nil, or_false] at ha
      rcases ha with he | he | he
      · cases he
      · cases hx : x.result <;> rw [hx] at he <;> cases he
      · cases he

/-- The gate of a path that is not a script's. -/
def gateOf (host : Host Comp) (path : String) : Option (ModulePath × String) :=
  if startsWith "/tenant/" path then tenantGate host path else platformGate host path

theorem resolvedBy_gateOf (host : Host Comp) (path : String) :
    ResolvedBy host (gateOf host path) (resolvePath host path) := by
  unfold gateOf resolvePath
  split
  · exact resolvedBy_tenantGate host path
  · exact resolvedBy_platformGate host path

/-- A request that was admitted went through the gate of its path. -/
theorem gated_of_admitted {host : Host Comp} {http : HttpLib} {lib : ScriptLib} {req : Request}
    {gzip : Bool} {traceId key : String} {tr : List (HandlerEvent Comp)}
    {out : Except Error Response}
    (h : Exec (handleRequestInner host http lib req gzip traceId) tr out)
    (hscript : startsWith "/script/" req.uri.path = false) (ha : Admitted key tr) :
    ∃ p handlerPath, gateOf host req.uri.path = some (p, handlerPath) ∧ key = p.cacheKey ∧
      Gated p.cacheKey p.handlerName (Collectable host http req handlerPath) tr := by
  unfold handleRequestInner at h
  dsimp only at h
  split at h
  · obtain ⟨rfl, -⟩ := exec_ret_iff.mp h
    cases ha
  split at h
  · obtain ⟨rfl, -⟩ := exec_ret_iff.mp h
    cases ha
  split at h
  · rw [exec_call h] at ha
    cases List.mem_singleton.mp ha
  rw [hscript] at h
  have hres := resolvedBy_gateOf host req.uri.path
  have h : Exec (handleModuleRequest host http req gzip) tr out := h
  unfold handleModuleRequest at h
  cases hgate : gateOf host req.uri.path with
  | none =>
    rw [hgate] at hres
    obtain ⟨res, hres⟩ := hres
    rw [hres, ret_bind] at h
    exfalso
    cases res with
    | response resp =>
      obtain ⟨rfl, -⟩ := exec_ret_iff.mp h
      cases ha
    | success component handlerPath moduleName permit =>
      exact (ungated_executeResolved ..).of_exec h _ ha key rfl
  | some gate =>
    obtain ⟨p, handlerPath⟩ := gate
    rw [hgate] at hres
    have hres : _ = resolveKeyed host p.cacheKey p.handlerName (loadOf p) handlerPath := hres
    rw [hres] at h
    have hg := gated_handleModuleRequest h
    exact ⟨p, handlerPath, rfl, hg.admitted_eq ha, hg⟩

/-- An executed request was admitted, and its outcome is recorded on `shown` alone. -/
theorem Gated.executed_spec {key shown : String} {Ready : Prop} {tr : List (HandlerEvent Comp)}
    (hg : Gated key shown Ready tr) (hx : Executed tr) :
    Admitted key tr ∧ recordedKeys tr = [shown] := by
  obtain ⟨component, req, x, hmem⟩ := hx
  have hadm : ∀ {sems : List (HandlerEvent Comp)} {semaphore : Nat} {acquired : Bool},
      SemaphoreTrace key semaphore sems →
      (⟨.execute component req, x⟩ : HandlerEvent Comp) ∉
        admission key sems semaphore acquired := by
    intro sems semaphore acquired hsem hev
    rcases mem_admission hsem hev with he | ⟨r, he⟩ | ⟨r, he⟩ | he <;> cases he
  have hload : ∀ {load : HandlerEvent Comp} {r : Except Error Comp}, LoadEvent load r →
      (⟨.execute component req, x⟩ : HandlerEvent Comp) ≠ load := by
    rintro load r (⟨name, rfl⟩ | ⟨p, rfl⟩) he <;> cases he
  cases hg with
  | blocked e => cases List.mem_singleton.mp hmem
  | overloaded hsem => exact absurd hmem (hadm hsem)
  | loadFailed hsem hl => simp [hadm hsem, hload hl] at hmem
  | dropped hsem hl _ => simp [hadm hsem, hload hl] at hmem
  | executed req' x' hsem hl _ =>
    refine ⟨List.mem_append_left _ List.mem_cons_self, ?_⟩
    rw [recordedKeys_append, recordedKeys_admission hsem]
    simp [hl.recordedKey]

/-- A request that is not executed records on its own key, if at all. -/
theorem Gated.recorded_of_not_executed {key shown : String} {Ready : Prop}
    {tr : List (HandlerEvent Comp)} (hg : Gated key shown Ready tr) (hx : ¬ Executed tr)
    {k : String} (hk : k ∈ recordedKeys tr) : k = key := by
  cases hg with
  | blocked e => cases hk
  | overloaded hsem =>
    rw [recordedKeys_admission hsem] at hk
    cases hk
  | loadFailed hsem hl =>
    rw [recordedKeys_append, recordedKeys_admission hsem] at hk
    simpa [hl.recordedKey] using hk
  | dropped hsem hl _ =>
    rw [recordedKeys_append, recordedKeys_admission hsem] at hk
    simp [hl.recordedKey] at hk
  | @executed sems semaphore load component req' x' hsem hl _ =>
    exact absurd ⟨component, req', x', by simp⟩ hx

/-! ## Probes -/

theorem Gated.recordedKeys_length {key shown : String} {Ready : Prop}
    {tr : List (HandlerEvent Comp)} (hg : Gated key shown Ready tr) :
    (recordedKeys tr).length ≤ 1 := by
  cases hg with
  | blocked e => exact Nat.zero_le 1
  | overloaded hsem =>
    rw [recordedKeys_admission hsem]
    exact Nat.zero_le 1
  | loadFailed hsem hload =>
    rw [recordedKeys_append, recordedKeys_admission hsem]
    simp [hload.recordedKey]
  | dropped hsem hload _ =>
    rw [recordedKeys_append, recordedKeys_admission hsem]
    simp [hload.recordedKey]
  | executed req x hsem hload _ =>
    rw [recordedKeys_append, recordedKeys_admission hsem]
    simp [hload.recordedKey]

theorem Gated.settledOnce_iff_mem {key shown : String} {Ready : Prop}
    {tr : List (HandlerEvent Comp)} (hg : Gated key shown Ready tr) :
    SettledOnce key tr ↔ key ∈ recordedKeys tr := by
  have hlen := hg.recordedKeys_length
  unfold SettledOnce
  match recordedKeys tr, hlen with
  | [], _ => simp
  | [k], _ =>
    simp only [List.count_singleton, List.mem_singleton]
    by_cases hk : k = key
    · simp [hk]
    · simp [hk, Ne.symm hk]

/-- An admitted gated trace starts with its check and makes no other. -/
theorem Gated.check_first {key shown : String} {Ready : Prop} {tr : List (HandlerEvent Comp)}
    (hg : Gated key shown Ready tr) (ha : Admitted key tr) :
    ∃ rest, tr = ⟨.checkRequest key, .ok ()⟩ :: rest ∧ ∀ e ∈ rest, ∀ k, e.1 ≠ .checkRequest k := by
  have hsems : ∀ {sems : List (HandlerEvent Comp)} {semaphore : Nat},
      SemaphoreTrace key semaphore sems → ∀ e ∈ sems, ∀ k, e.1 ≠ .checkRequest k := by
    intro sems semaphore hsem e he k
    cases hsem <;> simp at he <;> rcases he with rfl | rfl <;> simp
  have hload : ∀ {load : HandlerEvent Comp} {r : Except Error Comp}, LoadEvent load r →
      ∀ k, load.1 ≠ .checkRequest k := by
    rintro load r (⟨name, rfl⟩ | ⟨p, rfl⟩) k <;> simp
  have hrecord : ∀ result k,
      (recordEvent shown result : HandlerEvent Comp).1 ≠ .checkRequest k := by
    intro result k
    cases result <;> simp [recordEvent]
  have hstart : ∀ {sems : List (HandlerEvent Comp)} {semaphore : Nat} {acquired : Bool}
      {rest : List (HandlerEvent Comp)}, SemaphoreTrace key semaphore sems →
      (∀ e ∈ rest, ∀ k, e.1 ≠ .checkRequest k) →
      ∃ rest',
        admission key sems semaphore acquired ++ rest = ⟨.checkRequest key, .ok ()⟩ :: rest' ∧
        ∀ e ∈ rest', ∀ k, e.1 ≠ .checkRequest k := by
    intro sems semaphore acquired rest hsem hrest
    refine ⟨(sems ++ [⟨.tryAcquire semaphore, acquired⟩]) ++ rest, rfl, fun e he k => ?_⟩
    rw [List.mem_append, List.mem_append, List.mem_singleton] at he
    rcases he with (he | rfl) | he
    · exact hsems hsem e he k
    · simp
    · exact hrest e he k
  cases hg with
  | blocked e =>
    rcases List.mem_singleton.mp ha with he
    cases he
  | overloaded hsem =>
    have h := @hstart _ _ false [] hsem (by simp)
    rwa [List.append_nil] at h
  | loadFailed hsem hl => exact hstart hsem (by simp [hload hl])
  | dropped hsem hl _ => exact hstart hsem (by simp [hload hl])
  | executed req x hsem hl _ => exact hstart hsem (by simp [hload hl, hrecord])

theorem mem_recordedKeys_iff {key : String} {tr : List (HandlerEvent Comp)} :
    key ∈ recordedKeys tr ↔ ∃ ev ∈ tr, ev.1.recordedKey = some key := List.mem_filterMap

/-- A request run alone: its trace, and the machine it leaves. -/
theorem runOn_eq_replay {α : Type} (host : Host Comp) (p : Handler Comp α) (m : Machine Comp) :
    (runOn (answerNext host) p m).2 = replay host m (traceOn (answerNext host) p m) :=
  runOn_state p m

theorem traceOn_cons {α : Type} {host : Host Comp} {p : Handler Comp α} {m : Machine Comp}
    {ev : HandlerEvent Comp} {rest : List (HandlerEvent Comp)}
    (h : traceOn (answerNext host) p m = ev :: rest) : ev.2 = (answerNext host ev.1 m).1 := by
  cases p with
  | ret x => cases h
  | act a k =>
    obtain ⟨rfl, -⟩ := List.cons.inj h
    rfl

/-- A check admitted on an open or half-open circuit makes the request the probe. -/
theorem entry_probe {host : Host Comp} {m : Machine Comp} {key : String}
    (hok : (answerNext host (.checkRequest key) m).1 = .ok ())
    (hguard : IsOpen (m.1.entry key) ∨ IsHalfOpen (m.1.entry key))
    (hev : key ∉ (m.2 0).evicted) :
    IsHalfOpen ((answerNext host (.checkRequest key) m).2.1.entry key) := by
  have hprobe := lookup_of_probe hguard hok
  exact ⟨_, (lookup_evictAll_of_notMem _ hev).trans hprobe⟩

/-- A probe that runs alone stays in flight after its answer exactly when it is not settled. -/
theorem Gated.probe_stuck_iff {α : Type} {host : Host Comp} {p : Handler Comp α}
    {m : Machine Comp} {key shown : String} {Ready : Prop}
    (hg : Gated key shown Ready (traceOn (answerNext host) p m))
    (ha : Admitted key (traceOn (answerNext host) p m))
    (hguard : IsOpen (m.1.entry key) ∨ IsHalfOpen (m.1.entry key))
    (hev : ∀ i, key ∉ (m.2 i).evicted) :
    IsHalfOpen ((runOn (answerNext host) p m).2.1.entry key) ↔
      ¬ SettledOnce key (traceOn (answerNext host) p m) := by
  obtain ⟨rest, htr, hrest⟩ := hg.check_first ha
  rw [hg.settledOnce_iff_mem, runOn_eq_replay, htr]
  have hok := (traceOn_cons htr).symm
  have hhalf := entry_probe hok hguard (hev 0)
  have hmem : key ∈ recordedKeys (⟨.checkRequest key, .ok ()⟩ :: rest : List (HandlerEvent Comp)) ↔
      ∃ ev ∈ rest, ev.1.breakerKey = some key := by
    rw [mem_recordedKeys_iff]
    constructor
    · rintro ⟨ev, hmem, hk⟩
      rcases List.mem_cons.mp hmem with rfl | hmem
      · cases hk
      · refine ⟨ev, hmem, ?_⟩
        revert hk
        cases ev.1 <;> simp [Action.recordedKey, Action.breakerKey]
    · rintro ⟨ev, hmem, hk⟩
      refine ⟨ev, List.mem_cons_of_mem _ hmem, ?_⟩
      have hno := hrest ev hmem
      revert hk hno
      cases ev.1 <;> simp [Action.recordedKey, Action.breakerKey]
  rw [hmem]
  constructor
  · intro hstuck hrec
    exact not_halfOpen_replay (fun ev he => hrest ev he key) (Or.inl hrec) hstuck
  · intro hno
    have hkeep : (replay host (answerNext host (.checkRequest key) m).2 rest).1.entry key = _ :=
      entry_replay_of_ne (fun ev he hk => hno ⟨ev, he, hk⟩) (fun i => hev (i + 1))
    rw [← hkeep] at hhalf
    exact hhalf

/-! ## Permits -/

/-- What an action leaves in the semaphore table, before housekeeping and after. -/
theorem semaphores_answer (host : Host Comp) (env : Env) (s : SharedState Comp) (a : Action Comp) :
    (answer host env a s).2.moduleSemaphores = (perform host env s a).2.moduleSemaphores := rfl

/-- The permits a request on `key` finds: a missing semaphore is created full. -/
def permitsFor (host : Host Comp) (s : SharedState Comp) (key : String) : Nat :=
  match s.moduleSemaphores.table.lookup key with
  | some a => s.moduleSemaphores.permits a
  | none => host.maxPerModuleRequests

theorem permits_getModuleSemaphore (host : Host Comp) (key : String) (m : Machine Comp) :
    (runOn (answerNext host) (getModuleSemaphore key) m).2.1.moduleSemaphores.permits
        (runOn (answerNext host) (getModuleSemaphore key) m).1 = permitsFor host m.1 key := by
  unfold getModuleSemaphore permitsFor
  rw [call_bind, runOn_act]
  have hfind : (answerNext host (.findSemaphore key) m).1 =
      m.1.moduleSemaphores.table.lookup key := rfl
  have hkeep : (answerNext host (.findSemaphore key) m).2.1.moduleSemaphores =
      m.1.moduleSemaphores := rfl
  rw [hfind]
  cases hlookup : m.1.moduleSemaphores.table.lookup key with
  | some a => exact congrArg (fun sems => sems.permits a) hkeep
  | none =>
    have hcreate : ∀ m' : Machine Comp, m'.1.moduleSemaphores = m.1.moduleSemaphores →
        (answerNext host (.createSemaphore key) m').2.1.moduleSemaphores.permits
          (answerNext host (.createSemaphore key) m').1 = host.maxPerModuleRequests := by
      intro m' hm'
      simp only [answerNext, semaphores_answer]
      simp only [answer, perform, hm', hlookup]
      exact if_pos rfl
    exact hcreate _ hkeep

theorem tryAcquire_answer (host : Host Comp) (a : Nat) (m : Machine Comp) :
    (answerNext host (.tryAcquire a) m).1 = decide (m.1.moduleSemaphores.permits a ≠ 0) := by
  simp only [answerNext, answer, perform]
  split
  · next h => simp [h]
  · next h => simp [h]

/-- A permit is had when there is one left. -/
theorem tryAcquire_iff (host : Host Comp) (key : String) (m : Machine Comp) {semaphore : Nat}
    {m' : Machine Comp} (h : runOn (answerNext host) (getModuleSemaphore key) m = (semaphore, m')) :
    (answerNext host (.tryAcquire semaphore) m').1 = true ↔ 0 < permitsFor host m.1 key := by
  have hpermits := permits_getModuleSemaphore host key m
  rw [h] at hpermits
  rw [tryAcquire_answer, decide_eq_true_iff, ← hpermits]
  exact Nat.pos_iff_ne_zero.symm

/-! ## Settled admissions -/

theorem tenantGate_isTenant {host : Host Comp} {path handlerPath : String} {p : ModulePath}
    (h : tenantGate host path = some (p, handlerPath)) : ∃ t n, p = .tenant t n := by
  unfold tenantGate at h
  split at h
  · cases h
  split at h
  · cases h
  split at h
  · cases h
    exact ⟨_, _, rfl⟩
  · cases h

theorem platformGate_eq {host : Host Comp} {path handlerPath : String} {p : ModulePath}
    (h : platformGate host path = some (p, handlerPath)) :
    ∃ runPath, stripPrefix "/run/" path = some runPath ∧
      p = .platform (parseModuleRoute runPath).1 ∧ handlerPath = (parseModuleRoute runPath).2 := by
  unfold platformGate at h
  split at h
  · cases h
  next runPath hrun =>
  split at h
  · cases h
  · cases h
    exact ⟨runPath, hrun, rfl, rfl⟩

/-- What is recorded on is what was checked exactly on the platform route. -/
theorem handlerName_eq_cacheKey_iff {host : Host Comp} {path handlerPath : String}
    {p : ModulePath} (h : gateOf host path = some (p, handlerPath)) {Ready : String → Prop} :
    (p.handlerName = p.cacheKey ∧ Ready handlerPath) ↔
      startsWith "/tenant/" path = false ∧
        ∃ runPath, stripPrefix "/run/" path = some runPath ∧
          Ready (parseModuleRoute runPath).2 := by
  unfold gateOf at h
  split at h
  · next htenant =>
    obtain ⟨t, n, rfl⟩ := tenantGate_isTenant h
    have hne := cacheKey_ne_handlerName t n
    simp [htenant, Ne.symm hne]
  · next htenant =>
    obtain ⟨runPath, hrun, rfl, rfl⟩ := platformGate_eq h
    simp [htenant, hrun, ModulePath.handlerName, ModulePath.cacheKey]

/-- Once admitted, a request is settled exactly once on the key that was checked if and only if
    it gets its permit and then fails to load, or is executed through a path that records on
    that key: a platform request whose URI can be rewritten and whose body can be collected, or
    a `host.call()` whose request can be built. A probe that is not settled is still in flight
    after it was answered. -/
theorem admitted_settled_iff (host : Host Comp) (http : HttpLib) (lib : ScriptLib) :
    (∀ (req : Request) (gzip : Bool) (traceId key : String) (tr : List (HandlerEvent Comp))
      (out : Except Error Response),
      Exec (handleRequestInner host http lib req gzip traceId) tr out →
      startsWith "/script/" req.uri.path = false → Admitted key tr →
      (SettledOnce key tr ↔ Acquired tr ∧ (LoadFailed tr ∨
        (startsWith "/tenant/" req.uri.path = false ∧
          ∃ runPath, stripPrefix "/run/" req.uri.path = some runPath ∧
            Collectable host http req (parseModuleRoute runPath).2)))) ∧
    (∀ (c : HostCall) (traceId key : String) (tr : List (HandlerEvent Comp))
      (out : Except Error HostCallResult),
      Exec (executeHandlerCall http c traceId) tr out → Admitted key tr →
      (SettledOnce key tr ↔ Acquired tr ∧ (LoadFailed tr ∨
        (handlerCallRequest http c traceId).isSome))) ∧
    (∀ (m : Machine Comp) (key : String), (∀ i, key ∉ (m.2 i).evicted) →
      (IsOpen (m.1.entry key) ∨ IsHalfOpen (m.1.entry key)) →
      (∀ (req : Request) (gzip : Bool) (traceId : String),
        startsWith "/script/" req.uri.path = false →
        Admitted key (traceOn (answerNext host)
          (handleRequestInner host http lib req gzip traceId) m) →
        (IsHalfOpen ((runOn (answerNext host)
            (handleRequestInner host http lib req gzip traceId) m).2.1.entry key) ↔
          ¬ SettledOnce key (traceOn (answerNext host)
            (handleRequestInner host http lib req gzip traceId) m))) ∧
      (∀ (c : HostCall) (traceId : String),
        Admitted key (traceOn (answerNext host) (executeHandlerCall http c traceId) m) →
        (IsHalfOpen
            ((runOn (answerNext host) (executeHandlerCall http c traceId) m).2.1.entry key) ↔
          ¬ SettledOnce key
            (traceOn (answerNext host) (executeHandlerCall http c traceId) m)))) := by
  refine ⟨?_, ?_, ?_⟩
  · intro req gzip traceId key tr out h hscript ha
    obtain ⟨p, handlerPath, hgate, rfl, hg⟩ := gated_of_admitted h hscript ha
    rw [hg.settled_iff ha,
      @handlerName_eq_cacheKey_iff _ host _ _ p hgate (Collectable host http req)]
  · intro c traceId key tr out h ha
    have hg := gated_executeHandlerCall h
    obtain rfl := hg.admitted_eq ha
    rw [hg.settled_iff ha]
    simp
  · intro m key hev hguard
    refine ⟨fun req gzip traceId hscript ha => ?_, fun c traceId ha => ?_⟩
    · obtain ⟨p, handlerPath, -, rfl, hg⟩ := gated_of_admitted (exec_traceOn _ _ _) hscript ha
      exact hg.probe_stuck_iff ha hguard hev
    · have hg := gated_executeHandlerCall
        (exec_traceOn (answerNext host) (executeHandlerCall http c traceId) m)
      obtain rfl := hg.admitted_eq ha
      exact hg.probe_stuck_iff ha hguard hev

end

/-! ## Samples -/

def sampleHttp : HttpLib where
  withPathAndQuery := fun uri path => some { uri with path := path }
  parseUri := fun s =>
    (stripPrefix "http://localhost" s).map fun path => ⟨some "http", some "localhost", path, none⟩
  parseMethod := some
  parseHeaderName := some
  headerValueOk := fun _ => true
  compress := id

def sampleScripts : ScriptLib := ⟨fun _ => .error "", fun _ _ => .finish (.ok "null")⟩

/-- A `POST` of one frame. -/
def sampleRequest (path : String) (frame : Bytes) : Request :=
  ⟨"POST", ⟨none, none, path, none⟩, [], ⟨[frame], none⟩⟩

/-- Nothing fails but the execution, and the clock stands at `now`. -/
def failingEnv (now : Nat) : Env where
  elapsedAt := now
  startedAt := now
  now := now
  io := {}
  execution := ⟨.error (.other "trap"), 1⟩
  scriptText := none
  served := .error (.other "")
  evicted := []
  evictedModules := []

/-- `failure_threshold` 1, `timeout` 10, `probe_timeout` 100. -/
def sampleBreaker : CircuitBreakerConfig := ⟨1, 10, 100, 1000, 600, by decide⟩

/-- A fresh state whose circuits open at the first failure. -/
def freshState : SharedState Bytes :=
  { sampleState with circuitBreaker := .withConfig sampleBreaker }

/-- The circuit of the platform module `orders` has been open since 0. -/
def openState : SharedState Bytes :=
  { sampleState with
    circuitBreaker := ⟨AList.singleton "orders" (.opened 0 1), sampleBreaker⟩ }

/-- The probe of `orders` at 50, with a body one byte over the limit. -/
def oversizedProbe : Handler Bytes (Except Error Response) :=
  handleRequestInner sampleHost sampleHttp sampleScripts
    (sampleRequest "/run/orders" (List.replicate 11 0)) false "t"

theorem oversizedProbe_trace :
    traceOn (answerNext sampleHost) oversizedProbe (openState, fun _ => failingEnv 50) =
      [⟨.checkRequest "orders", .ok ()⟩, ⟨.findSemaphore "orders", none⟩,
        ⟨.createSemaphore "orders", 0⟩, ⟨.tryAcquire 0, true⟩, ⟨.getOrLoad "orders", .ok [0]⟩,
        ⟨.release 0, ()⟩] := by
  rfl

/-- The probe is answered 413, nothing is recorded, and a request ten time units later is
    refused because of a probe in flight. -/
theorem oversized_probe_unsettled :
    Admitted "orders" (traceOn (answerNext sampleHost) oversizedProbe
      (openState, fun _ => failingEnv 50)) ∧
    ¬ SettledOnce "orders" (traceOn (answerNext sampleHost) oversizedProbe
      (openState, fun _ => failingEnv 50)) ∧
    ((runOn (answerNext sampleHost) oversizedProbe
      (openState, fun _ => failingEnv 50)).2.1.circuitBreaker.checkRequest "orders" 60 60).1 =
        .error ⟨"orders", 0, .probeInFlight⟩ := by
  rw [oversizedProbe_trace]
  refine ⟨List.mem_cons_self, ?_, by rfl⟩
  unfold SettledOnce
  decide

/-- The same probe with a body that fits is settled by the failure of its execution. -/
theorem admitted_settled_iff_fitting :
    SettledOnce "orders" (traceOn (answerNext sampleHost)
      (handleRequestInner sampleHost sampleHttp sampleScripts (sampleRequest "/run/orders" [1])
        false "t") (openState, fun _ => failingEnv 50)) := by
  have htrace : traceOn (answerNext sampleHost)
      (handleRequestInner sampleHost sampleHttp sampleScripts (sampleRequest "/run/orders" [1])
        false "t") (openState, fun _ => failingEnv 50) =
      [⟨.checkRequest "orders", .ok ()⟩, ⟨.findSemaphore "orders", none⟩,
        ⟨.createSemaphore "orders", 0⟩, ⟨.tryAcquire 0, true⟩, ⟨.getOrLoad "orders", .ok [0]⟩,
        ⟨.execute [0] (sampleRequest "/" [1]), (failingEnv 50).execution⟩,
        ⟨.recordFailure "orders", ()⟩, ⟨.release 0, ()⟩] := by
    rfl
  refine ((admitted_settled_iff sampleHost sampleHttp sampleScripts).1 _ _ _ "orders" _ _
    (exec_traceOn (answerNext sampleHost) _ _) (by decide) ?_).mpr ⟨?_, Or.inr ⟨by decide, ?_⟩⟩
  · rw [htrace]
    exact List.mem_cons_self
  · rw [htrace]
    exact ⟨0, by simp⟩
  · exact ⟨"orders", by decide, by decide, [1], by rfl⟩

end Mik.Runtime
