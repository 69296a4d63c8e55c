/-
  The circuit that gates a tenant module.

  `resolve_multi_module_path` consults the circuit of `cacheKey`, and `handle_request_inner`
  records the outcome of an execution on `handlerName`. For a tenant module these differ, so the
  outcomes never reach the gate: a request that was executed leaves it not open, and a gate that
  lets requests through keeps letting them through, however many executions fail.

  Requests are served one after the other here, each with its own contributions of the outside
  world; `serve` is the step and `Mik.Lib.run` the run.
-/
import Mik.Runtime.Settlement

namespace Mik.Runtime

open Mik.Lib Mik.Lib.Prog Mik.Reliability

/-- A request with what the outside world contributes while it is served. -/
structure Arrival where
  req : Request
  clientAcceptsGzip : Bool
  traceId : String
  envs : Nat → Env

section

variable {Comp : Type} (host : Host Comp) (http : HttpLib) (lib : ScriptLib)

def Arrival.handler (r : Arrival) : Handler Comp (Except Error Response) :=
  handleRequestInner host http lib r.req r.clientAcceptsGzip r.traceId

def serveTrace (s : SharedState Comp) (r : Arrival) : List (HandlerEvent Comp) :=
  traceOn (answerNext host) (r.handler host http lib) (s, r.envs)

def serve (s : SharedState Comp) (r : Arrival) : SharedState Comp :=
  (runOn (answerNext host) (r.handler host http lib) (s, r.envs)).2.1

/-- The request goes to the module `name` of the tenant `tenantId`. -/
def Arrival.ToTenant (tenantId name : String) (r : Arrival) : Prop :=
  ∃ tenantPath handlerPath, stripPrefix "/tenant/" r.req.uri.path = some tenantPath ∧
    parseModulePathRoute tenantPath = some (.tenant tenantId name, handlerPath)

variable {host http lib}

/-! ## One request to a tenant module -/

/-- The first characters of a path decide its route. -/
theorem startsWith_of_tenant {path tenantPath : String}
    (h : stripPrefix "/tenant/" path = some tenantPath) :
    startsWith "/tenant/" path = true ∧ startsWith "/script/" path = false ∧
      startsWith "/static/" path = false ∧ startsWith "/_mik/" path = false ∧
      startsWith "/openapi/" path = false := by
  unfold stripPrefix at h
  split at h
  · next hp =>
    obtain ⟨rest, hrest⟩ := List.isPrefixOf_iff_prefix.mp hp
    refine ⟨hp, ?_⟩
    unfold startsWith
    rw [← hrest]
    exact ⟨rfl, rfl, rfl, rfl⟩
  · cases h

/-- The trace of a request to a tenant module is empty or gated by its cache key. -/
theorem serveTrace_of_toTenant {s : SharedState Comp} {r : Arrival} {tenantId name : String}
    (h : r.ToTenant tenantId name) :
    serveTrace host http lib s r = [] ∨ ∃ Ready, Gated (ModulePath.cacheKey (.tenant tenantId name))
      (ModulePath.handlerName (.tenant tenantId name)) Ready (serveTrace host http lib s r) := by
  obtain ⟨tenantPath, handlerPath, hpath, hparse⟩ := h
  obtain ⟨htenant, hscript, hstatic, hmik, hopenapi⟩ := startsWith_of_tenant hpath
  have hexec := exec_traceOn (answerNext host) (r.handler host http lib) (s, r.envs)
  have hexec : Exec (r.handler host http lib) (serveTrace host http lib s r) _ := hexec
  unfold Arrival.handler handleRequestInner at hexec
  dsimp only at hexec
  split at hexec
  · exact Or.inl (exec_ret_iff.mp hexec).1
  split at hexec
  · exact Or.inl (exec_ret_iff.mp hexec).1
  rw [hscript, hstatic, hmik, hopenapi] at hexec
  have hexec : Exec (handleModuleRequest host http r.req r.clientAcceptsGzip)
    (serveTrace host http lib s r) _ := hexec
  unfold handleModuleRequest resolvePath at hexec
  rw [if_pos htenant] at hexec
  rcases resolveTenantModule_cases host r.req.uri.path with ⟨p, hp, hgate, hres⟩ | ⟨-, resp, hres⟩
  · rw [hres] at hexec
    have hgated := gated_handleModuleRequest hexec
    have hp : p = .tenant tenantId name := by
      unfold tenantGate at hgate
      rw [hpath] at hgate
      dsimp only at hgate
      split at hgate
      · cases hgate
      · rw [hparse] at hgate
        cases hgate
        rfl
    rw [hp] at hgated
    exact Or.inr ⟨_, hgated⟩
  · rw [hres, ret_bind] at hexec
    exact Or.inl (exec_ret_iff.mp hexec).1

/-- A check that is answered `Ok` leaves no open circuit. -/
theorem not_open_of_check {m : Machine Comp} {key : String}
    (hok : (answerNext host (.checkRequest key) m).1 = .ok ()) :
    ¬ IsOpen ((answerNext host (.checkRequest key) m).2.1.entry key) := by
  have hperform : ¬ IsOpen ((perform host (m.2 0) m.1 (.checkRequest key)).2.entry key) := by
    have hd := (checkRequest_ok_iff ..).mp hok
    unfold SharedState.entry
    rw [breaker_perform]
    simp only [Action.breakerCall, CircuitBreaker.exec, lookup_checkRequest]
    rcases checkDecision_apply_of_ok _ _ _ hd with ⟨he, hl⟩ | he
    · rw [he]
      rintro ⟨t, n, ho⟩
      rcases hl with hl | ⟨n', hl⟩ <;> rw [ho] at hl <;> cases hl
    · rw [he]
      rintro ⟨t, n, ho⟩
      cases ho
  rcases entry_answer host (m.2 0) m.1 (.checkRequest key) key with h | h
  · exact fun ho => hperform (h ▸ ho)
  · rintro ⟨t, n, ho⟩
    exact absurd (h.symm.trans ho) (by simp)

/-- An executed request records on the handler name alone, leaves the gate not open, and keeps a
    gate that lets every request through. -/
theorem serve_of_executed {s : SharedState Comp} {r : Arrival} {tenantId name : String}
    (h : r.ToTenant tenantId name) (hx : Executed (serveTrace host http lib s r)) :
    Admitted (ModulePath.cacheKey (.tenant tenantId name)) (serveTrace host http lib s r) ∧
      recordedKeys (serveTrace host http lib s r) =
        [ModulePath.handlerName (.tenant tenantId name)] ∧
      ¬ IsOpen ((serve host http lib s r).entry (ModulePath.cacheKey (.tenant tenantId name))) ∧
      (Lenient (s.entry (ModulePath.cacheKey (.tenant tenantId name))) →
        Lenient ((serve host http lib s r).entry
          (ModulePath.cacheKey (.tenant tenantId name)))) := by
  rcases serveTrace_of_toTenant h with hnil | ⟨Ready, hg⟩
  · rw [hnil] at hx
    obtain ⟨_, _, _, hmem⟩ := hx
    cases hmem
  obtain ⟨ha, hrec⟩ := hg.executed_spec hx
  have hnofail : ∀ ev ∈ serveTrace host http lib s r,
      ev.1 ≠ .recordFailure (ModulePath.cacheKey (.tenant tenantId name)) := by
    intro ev hev he
    have hmem : ModulePath.cacheKey (.tenant tenantId name) ∈
        recordedKeys (serveTrace host http lib s r) :=
      mem_recordedKeys_iff.mpr ⟨ev, hev, by rw [he]; rfl⟩
    rw [hrec, List.mem_singleton] at hmem
    exact cacheKey_ne_handlerName tenantId name hmem
  have hstate : (runOn (answerNext host) (r.handler host http lib) (s, r.envs)).2 =
      replay host (s, r.envs) (serveTrace host http lib s r) := runOn_eq_replay ..
  unfold serve
  rw [hstate]
  refine ⟨ha, hrec, ?_, (@entry_replay_of_not_failure _ host (s, r.envs) _ _ hnofail).2⟩
  obtain ⟨rest, htr, -⟩ := hg.check_first ha
  have hok := (traceOn_cons htr).symm
  rw [htr] at hnofail ⊢
  intro hopen
  exact not_open_of_check hok ((entry_replay_of_not_failure
    (fun ev he => hnofail ev (List.mem_cons_of_mem _ he))).1 hopen)

/-- The record of a request agrees with its check exactly when it is not executed. -/
theorem recorded_eq_admitted_iff {s : SharedState Comp} {r : Arrival} {tenantId name : String}
    (h : r.ToTenant tenantId name) :
    (∀ key, Admitted key (serveTrace host http lib s r) →
        ∀ key' ∈ recordedKeys (serveTrace host http lib s r), key' = key) ↔
      ¬ Executed (serveTrace host http lib s r) := by
  constructor
  · intro hagree hx
    obtain ⟨ha, hrec, -, -⟩ := serve_of_executed h hx
    have heq := hagree _ ha (ModulePath.handlerName (.tenant tenantId name)) (by simp [hrec])
    exact cacheKey_ne_handlerName tenantId name heq.symm
  · intro hx key ha key' hk
    rcases @serveTrace_of_toTenant _ host http lib s r _ _ h with hnil | ⟨Ready, hg⟩
    · rw [hnil] at hk
      cases hk
    · rw [hg.admitted_eq ha]
      exact hg.recorded_of_not_executed hx hk

/-! ## Runs -/

def FailedExecution (tr : List (HandlerEvent Comp)) : Prop :=
  ∃ component req e durationMs, ⟨.execute component req, ⟨.error e, durationMs⟩⟩ ∈ tr

theorem FailedExecution.executed {tr : List (HandlerEvent Comp)} (h : FailedExecution tr) :
    Executed tr := by
  obtain ⟨component, req, e, durationMs, hmem⟩ := h
  exact ⟨component, req, _, hmem⟩

variable (host http lib)

/-- Every request of the run records its outcome on the key that was checked for it. -/
def KeysAgree (s : SharedState Comp) (rs : List Arrival) : Prop :=
  Along (serve host http lib)
    (fun s r => ∀ key, Admitted key (serveTrace host http lib s r) →
      ∀ key' ∈ recordedKeys (serveTrace host http lib s r), key' = key) s rs

/-- As many failed executions in a row as the threshold leave the gate open, and the next
    request is not executed. -/
def FailuresOpen (gate : String) (s : SharedState Comp) (rs : List Arrival) : Prop :=
  ∀ pre failed post, rs = pre ++ failed ++ post →
    failed.length = s.circuitBreaker.config.failureThreshold → 1 ≤ failed.length →
    Along (serve host http lib) (fun s r => FailedExecution (serveTrace host http lib s r))
      (run (serve host http lib) s pre) failed →
    IsOpen ((run (serve host http lib) s (pre ++ failed)).entry gate) ∧
      ∀ r ∈ post.head?,
        ¬ Executed (serveTrace host http lib (run (serve host http lib) s (pre ++ failed)) r)

variable {host http lib}

/-- A gate that lets requests through survives any run of executed requests. -/
theorem lenient_run {tenantId name : String} {s : SharedState Comp} {rs : List Arrival}
    (hto : ∀ r ∈ rs, r.ToTenant tenantId name)
    (hx : Along (serve host http lib) (fun s r => Executed (serveTrace host http lib s r)) s rs)
    (hl : Lenient (s.entry (ModulePath.cacheKey (.tenant tenantId name)))) :
    Lenient ((run (serve host http lib) s rs).entry
      (ModulePath.cacheKey (.tenant tenantId name))) := by
  induction rs generalizing s with
  | nil => exact hl
  | cons r rs ih =>
    rw [run_cons]
    refine ih (fun r' hr' => hto r' (List.mem_cons_of_mem _ hr')) hx.2 ?_
    exact (serve_of_executed (hto r List.mem_cons_self) hx.1).2.2.2 hl

theorem not_open_run {tenantId name : String} {s : SharedState Comp} {rs : List Arrival}
    (hto : ∀ r ∈ rs, r.ToTenant tenantId name) (hne : rs ≠ [])
    (hx : Along (serve host http lib) (fun s r => Executed (serveTrace host http lib s r)) s rs) :
    ¬ IsOpen ((run (serve host http lib) s rs).entry
      (ModulePath.cacheKey (.tenant tenantId name))) := by
  obtain ⟨init, r, rfl⟩ := List.eq_nil_or_concat rs |>.resolve_left hne
  rw [List.concat_eq_append] at hto hx ⊢
  rw [run_snoc]
  exact (serve_of_executed (hto r (by simp)) (along_append.mp hx).2.1).2.2.1

/-- The circuit of a tenant module follows the outcomes of its requests only in runs where no
    request is executed. Any number of executed requests leaves the gate not open; and a gate
    that was closed, or had no entry, still answers `Ok` at every time. -/
theorem tenant_gate_follows_iff (host : Host Comp) (http : HttpLib) (lib : ScriptLib)
    (tenantId name : String) (s : SharedState Comp) (rs : List Arrival)
    (hto : ∀ r ∈ rs, r.ToTenant tenantId name) :
    (KeysAgree host http lib s rs ∧
        FailuresOpen host http lib (ModulePath.cacheKey (.tenant tenantId name)) s rs ↔
      Along (serve host http lib) (fun s r => ¬ Executed (serveTrace host http lib s r)) s rs) ∧
    (rs ≠ [] →
      Along (serve host http lib) (fun s r => Executed (serveTrace host http lib s r)) s rs →
      ¬ IsOpen ((run (serve host http lib) s rs).entry
        (ModulePath.cacheKey (.tenant tenantId name))) ∧
      (Lenient (s.entry (ModulePath.cacheKey (.tenant tenantId name))) →
        ∀ elapsedAt startedAt,
          ((run (serve host http lib) s rs).circuitBreaker.checkRequest
            (ModulePath.cacheKey (.tenant tenantId name)) elapsedAt startedAt).1 = .ok ())) := by
  have hagree : KeysAgree host http lib s rs ↔ _ :=
    along_congr fun _ r hr => recorded_eq_admitted_iff (hto r hr)
  refine ⟨⟨fun h => hagree.mp h.1, fun hno => ⟨hagree.mpr hno, ?_⟩⟩, ?_⟩
  · intro pre failed post hrs _ hlen hfailed
    exfalso
    cases failed with
    | nil => exact absurd hlen (by decide)
    | cons r failed =>
      rw [hrs, List.append_assoc] at hno
      exact (along_append.mp hno).2.1 hfailed.1.executed
  · intro hne hx
    refine ⟨not_open_run hto hne hx, fun hl elapsedAt startedAt => ?_⟩
    rw [checkRequest_ok_iff]
    exact congrArg Prod.snd (checkDecision_of_closed _ _ _ (lenient_run hto hx hl))

end

/-! ## Samples -/

/-- `POST /tenant/acme/orders`; its execution fails. -/
def failingArrival (now : Nat) : Arrival :=
  ⟨sampleRequest "/tenant/acme/orders" [1], false, "t", fun _ => failingEnv now⟩

theorem failingArrival_trace :
    serveTrace sampleHost sampleHttp sampleScripts freshState (failingArrival 5) =
      [⟨.checkRequest "tenant:acme/orders", .ok ()⟩, ⟨.findSemaphore "tenant:acme/orders", none⟩,
        ⟨.createSemaphore "tenant:acme/orders", 0⟩, ⟨.tryAcquire 0, true⟩,
        ⟨.getOrLoadModulePath (.tenant "acme" "orders"), .ok [0, 1]⟩,
        ⟨.execute [0, 1] (sampleRequest "/" [1]), (failingEnv 5).execution⟩,
        ⟨.recordFailure "acme/orders", ()⟩, ⟨.release 0, ()⟩] := by
  rfl

/-- With `failure_threshold` 1, a failed execution at 5 opens the circuit `acme/orders`; the
    gate `tenant:acme/orders` has no entry, and the request at 6 is executed again. -/
theorem tenant_failure_misses_gate :
    ¬ (KeysAgree sampleHost sampleHttp sampleScripts freshState [failingArrival 5] ∧
      FailuresOpen sampleHost sampleHttp sampleScripts "tenant:acme/orders" freshState
        [failingArrival 5]) ∧
    (serve sampleHost sampleHttp sampleScripts freshState (failingArrival 5)).entry
      "tenant:acme/orders" = none ∧
    (serve sampleHost sampleHttp sampleScripts freshState (failingArrival 5)).entry
      "acme/orders" = some (.opened 5 1) ∧
    Executed (serveTrace sampleHost sampleHttp sampleScripts
      (serve sampleHost sampleHttp sampleScripts freshState (failingArrival 5))
      (failingArrival 6)) := by
  refine ⟨?_, by rfl, by rfl, ?_⟩
  · rintro ⟨hagree, -⟩
    have h := hagree.1 "tenant:acme/orders"
    rw [failingArrival_trace] at h
    exact absurd (h List.mem_cons_self "acme/orders" (by decide)) (by decide)
  · have htrace : serveTrace sampleHost sampleHttp sampleScripts
        (serve sampleHost sampleHttp sampleScripts freshState (failingArrival 5))
        (failingArrival 6) =
        [⟨.checkRequest "tenant:acme/orders", .ok ()⟩,
          ⟨.findSemaphore "tenant:acme/orders", some 0⟩, ⟨.tryAcquire 0, true⟩,
          ⟨.getOrLoadModulePath (.tenant "acme" "orders"), .ok [0, 1]⟩,
          ⟨.execute [0, 1] (sampleRequest "/" [1]), (failingEnv 6).execution⟩,
          ⟨.recordFailure "acme/orders", ()⟩, ⟨.release 0, ()⟩] := by
      rfl
    rw [htrace]
    exact ⟨[0, 1], sampleRequest "/" [1], (failingEnv 6).execution, by simp⟩

theorem tenant_gate_follows_iff_failing :
    ¬ IsOpen ((run (serve sampleHost sampleHttp sampleScripts) freshState
      [failingArrival 5]).entry "tenant:acme/orders") := by
  refine ((tenant_gate_follows_iff sampleHost sampleHttp sampleScripts "acme" "orders" freshState
    [failingArrival 5] ?_).2 (by simp) ⟨?_, trivial⟩).1
  · intro r hr
    rw [List.mem_singleton.mp hr]
    exact ⟨"acme/orders", "/", by decide, by decide⟩
  · show Executed (serveTrace sampleHost sampleHttp sampleScripts freshState (failingArrival 5))
    rw [failingArrival_trace]
    exact ⟨[0, 1], sampleRequest "/" [1], (failingEnv 5).execution, by simp⟩

end Mik.Runtime
