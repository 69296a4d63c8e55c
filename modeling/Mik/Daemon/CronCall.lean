/-
  How a cron job calls its module (`src/daemon/cron/execution.rs`).

  `executeWasmModule` waits until the instance is healthy, with a longer pause after each probe that
  fails, and then sends one request over HTTP. It is a program over the actions of the client,
  which other tasks and the instance itself may answer in any way. The client is built with the
  default policy for redirects and follows up to ten of them; the requests that it makes on its own
  account in doing so belong to the one that was sent.

  `cron_call_protocol` is about every complete execution: at most one request is sent, the one that
  the schedule asks for, right after a probe that succeeded, and there are no more than five probes
  and seven and a half seconds of pauses. `cron_reaches_module` follows that request to the other
  side: the instance loads the module named in the schedule, and hands it the path of the schedule.
-/
import Mik.Daemon.Store
import Mik.Gateway.Handover

namespace Mik.Daemon.CronCall

open Mik.Lib Prog Mik.Runtime Mik.Gateway

/-! ## The client -/

/-- What is sent; `json` is the text of a body of type `application/json`. -/
structure ClientRequest where
  method : String
  url : String
  headers : List (String × String)
  json : Option String
  deriving DecidableEq, Repr

/-- The last response, after the redirects that were followed: its status, and the text of the body
    or why it did not arrive. -/
structure ClientResponse where
  status : Nat
  text : Except String String

/-- `probe` is a GET with a timeout of its own. The client follows redirects in a `probe` and a
    `send`, and what it returns is the last response. -/
inductive Action where
  | buildClient
  | probe (url : String)
  | sleep (ms : Nat)
  | send (request : ClientRequest)

abbrev Reply : Action → Type
  | .buildClient => Except String Unit
  | .probe _ => Except String Nat
  | .sleep _ => Unit
  | .send _ => Except String ClientResponse

abbrev Task (α : Type) := Prog Action Reply α

abbrev Event := Prog.Event Action Reply

/-- `char::to_uppercase`: a table that is the usual one on ASCII. -/
structure Uppercase where
  map : Char → List Char
  ascii : ∀ c : Char, c.toNat < 128 → map c = [c.toUpper]

/-- `str::to_uppercase`. -/
def Uppercase.text (upper : Uppercase) (s : String) : String :=
  String.ofList (s.toList.flatMap upper.map)

/-- `StatusCode::is_success`. -/
def isSuccess (status : Nat) : Bool := 200 ≤ status && status < 300

/-! ## Waiting for the instance -/

def healthUrl (port : Nat) (healthPath : String) : String :=
  let path := if startsWith "/" healthPath then healthPath else "/" ++ healthPath
  "http://localhost:" ++ port.repr ++ path

/-- The pause after an attempt, in milliseconds. -/
def backoffMs (attempt : Nat) : Nat := min (500 * 2 ^ (attempt - 1)) 8000

/-- What is kept of a probe that failed; nothing of one that succeeded. -/
def probeError : Except String Nat → Option String
  | .ok status => if isSuccess status then none else some ("status " ++ status.repr)
  | .error e => some e

/-- The attempts from `attempt` on, as many as are `left`. -/
def probeLoop (port : Nat) (url : String) (maxAttempts : Nat) :
    (left attempt : Nat) → (lastError : String) → Task (Except String Unit)
  | 0, _, lastError => ret (.error ("Instance not healthy on port " ++ port.repr ++ " after " ++
      maxAttempts.repr ++ " attempts: " ++ lastError))
  | left + 1, attempt, _ =>
    act (.probe url) fun reply =>
      match probeError reply with
      | none => ret (.ok ())
      | some error =>
        if attempt < maxAttempts then
          act (.sleep (backoffMs attempt)) fun _ =>
            probeLoop port url maxAttempts left (attempt + 1) error
        else probeLoop port url maxAttempts left (attempt + 1) error

def waitForHealthy (port : Nat) (healthPath : String) (maxAttempts : Nat) :
    Task (Except String Unit) :=
  probeLoop port (healthUrl port healthPath) maxAttempts maxAttempts 1 ""

/-! ## The call -/

def supportedMethods : List String := ["GET", "POST", "PUT", "DELETE", "PATCH"]

def callUrl (config : ScheduleConfig) (moduleName : String) : String :=
  "http://localhost:" ++ config.port.repr ++ "/run/" ++ moduleName ++ config.path

/-- From the check of the method on. -/
def callModule (upper : Uppercase) (config : ScheduleConfig) (moduleName : String) :
    Task (Except String Unit) :=
  let url := callUrl config moduleName
  let method := upper.text config.method
  if method ∈ supportedMethods then
    act (.send ⟨method, url, config.headers.getD [], config.body⟩) fun
      | .error _ => ret (.error ("Failed to call module at " ++ url))
      | .ok response =>
        if isSuccess response.status then ret (.ok ())
        else
          let body := response.text.toOption.getD "<no body>"
          ret (.error ("Module returned error status " ++ response.status.repr ++ ": " ++
            String.ofList (body.toList.take 200)))
  else ret (.error ("Unsupported HTTP method: " ++ method))

def executeWasmModule (upper : Uppercase) (config : ScheduleConfig) : Task (Except String Unit) :=
  match fileStem config.module with
  | none => ret (.error ("Invalid module path: " ++ config.module))
  | some moduleName =>
    act .buildClient fun
      | .error _ => ret (.error "Failed to create HTTP client")
      | .ok _ => waitForHealthy config.port config.healthPath 5 >>= fun
        | .error e => ret (.error e)
        | .ok _ => callModule upper config moduleName

/-! ## What an execution has done -/

def requestOf? : Event → Option ClientRequest
  | ⟨.send request, _⟩ => some request
  | _ => none

def probeOf? : Event → Option String
  | ⟨.probe url, _⟩ => some url
  | _ => none

def pauseOf : Event → Nat
  | ⟨.sleep ms, _⟩ => ms
  | _ => 0

/-- The requests that were sent, without those that follow redirects. -/
def calls (tr : List Event) : List ClientRequest := tr.filterMap requestOf?

def probes (tr : List Event) : List String := tr.filterMap probeOf?

/-- How long it has paused, in milliseconds. -/
def paused (tr : List Event) : Nat := tr.foldr (fun ev total => pauseOf ev + total) 0

/-- The call the schedule asks for, if it can be made. -/
def callOf (upper : Uppercase) (config : ScheduleConfig) : Option ClientRequest :=
  (fileStem config.module).bind fun moduleName =>
    if upper.text config.method ∈ supportedMethods then
      some ⟨upper.text config.method, callUrl config moduleName, config.headers.getD [],
        config.body⟩
    else none

section

variable {tr : List Event}

theorem calls_append (tr tr' : List Event) : calls (tr ++ tr') = calls tr ++ calls tr' :=
  List.filterMap_append

theorem probes_append (tr tr' : List Event) : probes (tr ++ tr') = probes tr ++ probes tr' :=
  List.filterMap_append

theorem paused_append (tr tr' : List Event) : paused (tr ++ tr') = paused tr + paused tr' := by
  induction tr with
  | nil => exact (Nat.zero_add _).symm
  | cons ev tr ih => exact (congrArg (pauseOf ev + ·) ih).trans (Nat.add_assoc ..).symm

/-- The most that the attempts from `attempt` on pause. -/
def pauseBudget (maxAttempts : Nat) : (left attempt : Nat) → Nat
  | 0, _ => 0
  | left + 1, attempt =>
    (if attempt < maxAttempts then backoffMs attempt else 0) +
      pauseBudget maxAttempts left (attempt + 1)

/-- What an execution of the wait has done. -/
structure Waited (url : String) (left budget : Nat) (tr : List Event) (r : Except String Unit) :
    Prop where
  silent : calls tr = []
  probes : (probes tr).length ≤ left
  paused : paused tr ≤ budget
  healthy : r = .ok () → ∃ before status,
    tr = before ++ [⟨.probe url, .ok status⟩] ∧ isSuccess status = true

theorem isSuccess_of_probeError {reply : Except String Nat} (h : probeError reply = none) :
    ∃ status, reply = .ok status ∧ isSuccess status = true := by
  unfold probeError at h
  split at h
  · next status =>
    split at h
    · next hsuccess => exact ⟨status, rfl, hsuccess⟩
    · nomatch h
  · nomatch h

theorem waited_probeLoop {port : Nat} {url : String} {maxAttempts left attempt : Nat}
    {lastError : String} {r : Except String Unit}
    (h : Exec (probeLoop port url maxAttempts left attempt lastError) tr r) :
    Waited url left (pauseBudget maxAttempts left attempt) tr r := by
  induction left generalizing attempt lastError tr with
  | zero =>
    obtain ⟨rfl, rfl⟩ := exec_ret_iff.mp h
    exact ⟨rfl, Nat.le_refl 0, Nat.le_refl 0, nofun⟩
  | succ left ih =>
    obtain ⟨reply, tr', rfl, hrest⟩ := exec_act_iff.mp h
    cases herror : probeError reply with
    | none =>
      simp only [herror] at hrest
      obtain ⟨rfl, rfl⟩ := exec_ret_iff.mp hrest
      obtain ⟨status, rfl, hsuccess⟩ := isSuccess_of_probeError herror
      exact ⟨rfl, Nat.succ_le_succ (Nat.zero_le left), Nat.zero_le _,
        fun _ => ⟨[], status, rfl, hsuccess⟩⟩
    | some error =>
      simp only [herror] at hrest
      unfold pauseBudget
      split at hrest
      · next hlt =>
        obtain ⟨x, tr'', rfl, hloop⟩ := exec_act_iff.mp hrest
        obtain ⟨hsilent, hprobes, hpaused, hhealthy⟩ := ih hloop
        rw [if_pos hlt]
        refine ⟨hsilent, Nat.succ_le_succ hprobes, ?_, fun hok => ?_⟩
        · show 0 + (backoffMs attempt + paused tr'') ≤ _
          omega
        · obtain ⟨before, status, rfl, hsuccess⟩ := hhealthy hok
          exact ⟨_ :: _ :: before, status, rfl, hsuccess⟩
      · next hlast =>
        obtain ⟨hsilent, hprobes, hpaused, hhealthy⟩ := ih hrest
        rw [if_neg hlast]
        refine ⟨hsilent, Nat.succ_le_succ hprobes, ?_, fun hok => ?_⟩
        · show 0 + paused tr' ≤ _
          omega
        · obtain ⟨before, status, rfl, hsuccess⟩ := hhealthy hok
          exact ⟨_ :: before, status, rfl, hsuccess⟩

/-- What an execution of the call proper has done: one request, or none if the method is not
    supported. -/
theorem exec_callModule {upper : Uppercase} {config : ScheduleConfig} {moduleName : String}
    {r : Except String Unit} (h : Exec (callModule upper config moduleName) tr r) :
    (upper.text config.method ∉ supportedMethods ∧ tr = [] ∧ r ≠ .ok ()) ∨
    (upper.text config.method ∈ supportedMethods ∧ ∃ reply : Except String ClientResponse,
      tr = [⟨.send ⟨upper.text config.method, callUrl config moduleName,
        config.headers.getD [], config.body⟩, reply⟩] ∧
      (r = .ok () ↔ ∃ response, reply = .ok response ∧ isSuccess response.status = true)) := by
  unfold callModule at h
  dsimp only at h
  split at h
  · next hmethod =>
    right
    refine ⟨hmethod, ?_⟩
    obtain ⟨reply, tr', rfl, hrest⟩ := exec_act_iff.mp h
    refine ⟨reply, ?_⟩
    cases reply with
    | error e =>
      obtain ⟨rfl, rfl⟩ := exec_ret_iff.mp hrest
      exact ⟨rfl, nofun, fun ⟨_, heq, _⟩ => nomatch heq⟩
    | ok response =>
      dsimp only at hrest
      split at hrest
      · next hsuccess =>
        obtain ⟨rfl, rfl⟩ := exec_ret_iff.mp hrest
        exact ⟨rfl, fun _ => ⟨response, rfl, hsuccess⟩, fun _ => rfl⟩
      · next hfail =>
        obtain ⟨rfl, rfl⟩ := exec_ret_iff.mp hrest
        refine ⟨rfl, nofun, fun ⟨response', heq, hsuccess⟩ => ?_⟩
        rw [← Except.ok.inj heq] at hsuccess
        exact absurd hsuccess hfail
  · next hmethod =>
    left
    obtain ⟨rfl, rfl⟩ := exec_ret_iff.mp h
    exact ⟨hmethod, rfl, nofun⟩

end

/-! ## The protocol -/

/-- What is true of an execution of a job that has come as far as `tr` and returns `r`. -/
structure Protocol (upper : Uppercase) (config : ScheduleConfig) (tr : List Event)
    (r : Except String Unit) : Prop where
  /-- At most one request is sent. -/
  once : (calls tr).length ≤ 1
  /-- It is the one the schedule asks for, and comes right after a healthy probe. -/
  guarded : ∀ request ∈ calls tr, callOf upper config = some request ∧
    ∃ before status reply, isSuccess status = true ∧
      tr = before ++ [⟨.probe (healthUrl config.port config.healthPath), .ok status⟩,
        ⟨.send request, reply⟩]
  /-- The job succeeds exactly if sending it was the last thing done and was answered so. -/
  honest : r = .ok () ↔ ∃ before request response,
    tr = before ++ [⟨.send request, .ok response⟩] ∧ isSuccess response.status = true
  probes : (probes tr).length ≤ 5
  paused : paused tr ≤ 7500

theorem Protocol.of_silent {upper : Uppercase} {config : ScheduleConfig} {tr : List Event}
    {r : Except String Unit} (hsilent : calls tr = []) (hfail : r ≠ .ok ())
    (hprobes : (CronCall.probes tr).length ≤ 5) (hpaused : CronCall.paused tr ≤ 7500) :
    Protocol upper config tr r where
  once := by
    rw [hsilent]
    exact Nat.zero_le 1
  guarded request hmem := by
    rw [hsilent] at hmem
    exact absurd hmem List.not_mem_nil
  honest := by
    refine ⟨fun hok => absurd hok hfail, fun ⟨before, request, response, htr, _⟩ => ?_⟩
    rw [htr, calls_append] at hsilent
    exact absurd (List.append_eq_nil_iff.mp hsilent).2 (List.cons_ne_nil _ _)
  probes := hprobes
  paused := hpaused

/-- After the wait the call is made, or the job has failed. -/
theorem protocol_after_wait {upper : Uppercase} {config : ScheduleConfig} {moduleName : String}
    (hstem : fileStem config.module = some moduleName) {waiting calling : List Event}
    {waited r : Except String Unit}
    (hwait : Waited (healthUrl config.port config.healthPath) 5 7500 waiting waited)
    (hcall : Exec (match waited with
      | .error e => (ret (.error e) : Task (Except String Unit))
      | .ok _ => callModule upper config moduleName) calling r) :
    Protocol upper config (⟨.buildClient, .ok ()⟩ :: (waiting ++ calling)) r := by
  have hcalls : calls (⟨.buildClient, .ok ()⟩ :: (waiting ++ calling)) = calls calling := by
    show calls (waiting ++ calling) = _
    rw [calls_append, hwait.silent, List.nil_append]
  have hprobes : CronCall.probes (⟨.buildClient, .ok ()⟩ :: (waiting ++ calling))
      = CronCall.probes waiting ++ CronCall.probes calling := probes_append waiting calling
  have hpaused : CronCall.paused (⟨.buildClient, .ok ()⟩ :: (waiting ++ calling))
      = CronCall.paused waiting + CronCall.paused calling := by
    rw [← paused_append]
    exact Nat.zero_add _
  cases waited with
  | error e =>
    obtain ⟨rfl, rfl⟩ := exec_ret_iff.mp hcall
    refine .of_silent hcalls nofun ?_ ?_
    · rw [hprobes, List.length_append]
      exact hwait.probes
    · rw [hpaused]
      exact hwait.paused
  | ok x =>
    rcases exec_callModule hcall with ⟨-, rfl, hfail⟩ | ⟨hmethod, reply, rfl, hok⟩
    · refine .of_silent hcalls hfail ?_ ?_
      · rw [hprobes, List.length_append]
        exact hwait.probes
      · rw [hpaused]
        exact hwait.paused
    · obtain ⟨before, status, rfl, hsuccess⟩ := hwait.healthy rfl
      refine ⟨?_, fun request hmem => ?_, ?_, ?_, ?_⟩
      · rw [hcalls]
        exact Nat.le_refl 1
      · rw [hcalls] at hmem
        obtain rfl := List.mem_singleton.mp hmem
        refine ⟨?_, ⟨.buildClient, .ok ()⟩ :: before, status, reply, hsuccess, ?_⟩
        · unfold callOf
          rw [hstem, Option.bind_some, if_pos hmethod]
        · rw [List.append_assoc]
          rfl
      · rw [hok]
        constructor
        · rintro ⟨response, rfl, hdone⟩
          exact ⟨_ :: (before ++ [_]), _, response, rfl, hdone⟩
        · rintro ⟨before', request, response, htr, hdone⟩
          have hlast := List.append_inj_right' (show (_ :: (before ++ [_])) ++ [_] = _ from htr) rfl
          have hsame := (List.cons.inj hlast).1
          cases hsame
          exact ⟨response, rfl, hdone⟩
      · rw [hprobes, List.length_append]
        exact hwait.probes
      · rw [hpaused]
        exact hwait.paused

/-- In every execution of a job, however the instance answers: at most one request is sent, the one
    of the schedule and only right after a successful probe; the job succeeds exactly if the last
    response to it does; and there are at most five probes and 7.5 seconds of pauses. -/
theorem cron_call_protocol {upper : Uppercase} {config : ScheduleConfig} {tr : List Event}
    {r : Except String Unit} (h : Exec (executeWasmModule upper config) tr r) :
    Protocol upper config tr r := by
  unfold executeWasmModule at h
  cases hstem : fileStem config.module with
  | none =>
    rw [hstem] at h
    obtain ⟨rfl, rfl⟩ := exec_ret_iff.mp h
    exact .of_silent rfl nofun (Nat.zero_le 5) (Nat.zero_le _)
  | some moduleName =>
    rw [hstem] at h
    obtain ⟨built, tr', rfl, hrest⟩ := exec_act_iff.mp h
    cases built with
    | error e =>
      obtain ⟨rfl, rfl⟩ := exec_ret_iff.mp hrest
      exact .of_silent rfl nofun (Nat.zero_le 5) (Nat.zero_le _)
    | ok x =>
      obtain ⟨waiting, calling, waited, rfl, hwait, hcall⟩ := exec_bind_iff.mp hrest
      have hbudget : pauseBudget 5 5 1 = 7500 := by decide
      exact protocol_after_wait hstem (hbudget ▸ waited_probeLoop hwait) hcall

/-- A table for methods in ASCII. -/
def asciiUppercase : Uppercase := ⟨fun c => [c.toUpper], fun _ _ => rfl⟩

/-- The instance is not up yet at the first probe. -/
theorem cron_call_daily :
    Protocol asciiUppercase (dailyJob "backup")
      [⟨.buildClient, .ok ()⟩, ⟨.probe "http://localhost:3000/health", .error "refused"⟩,
        ⟨.sleep 500, ()⟩, ⟨.probe "http://localhost:3000/health", .ok 200⟩,
        ⟨.send ⟨"GET", "http://localhost:3000/run/backup/", [], none⟩, .ok ⟨200, .ok ""⟩⟩]
      (.ok ()) :=
  cron_call_protocol (Exec.act (Exec.act (Exec.act (Exec.act (Exec.act (Exec.ret _))))))

/-! ## The other side -/

/-- No segment of the path is taken for a step in the tree. -/
def NoDots (path : String) : Prop := ∀ seg ∈ splitChar '/' path, seg ≠ "." ∧ seg ≠ ".."

instance instDecidableNoDots (path : String) : Decidable (NoDots path) :=
  inferInstanceAs (Decidable (∀ seg ∈ splitChar '/' path, seg ≠ "." ∧ seg ≠ ".."))

/-- The target a client puts on the wire for a URL; a plain path is left as it is. -/
structure UrlClient where
  target : String → Option String
  kept : ∀ (port : Nat) (path : String), port < 65536 → startsWith "/" path = true →
    path.toList.all plainChar = true → NoDots path →
    target ("http://localhost:" ++ port.repr ++ path) = some path

/-- What lies between a job and the handler of its module; `pathByte` are the bytes of a path. -/
structure Wire where
  client : UrlClient
  reader : TargetReader
  http : HttpLib
  pathByte : UInt8 → Bool
  laws : PathAndQueryLaws http pathByte
  pathBytes : ∀ c, pathChar c = true → ∀ b ∈ String.utf8EncodeChar c, pathByte b = true

/-- The path of the request that arrives for a URL. -/
def Wire.arrives (wire : Wire) (url : String) : Option String :=
  (wire.client.target url).bind wire.reader.read

section

variable {upper : Uppercase} {config : ScheduleConfig} {tr : List Event} {r : Except String Unit}
  {stem rest : String}

theorem within_probeLoop (P : Action → Prop) (port : Nat) {url : String} (maxAttempts : Nat)
    (hprobe : P (.probe url)) (hsleep : ∀ ms, P (.sleep ms)) (left attempt : Nat)
    (lastError : String) :
    (probeLoop port url maxAttempts left attempt lastError).Within (fun _ _ => True) P
      fun _ => True := by
  induction left generalizing attempt lastError with
  | zero => trivial
  | succ left ih =>
    refine ⟨hprobe, fun reply _ => ?_⟩
    dsimp only
    cases probeError reply with
    | none => trivial
    | some error =>
      dsimp only
      split
      · exact ⟨hsleep _, fun _ _ => ih _ _⟩
      · exact ih _ _

/-- A job sends nothing but the call its schedule asks for. -/
theorem within_executeWasmModule (upper : Uppercase) (config : ScheduleConfig) :
    (executeWasmModule upper config).Within (fun _ _ => True)
      (fun a => ∀ request, a = .send request → callOf upper config = some request)
      fun _ => True := by
  unfold executeWasmModule
  cases hstem : fileStem config.module with
  | none => trivial
  | some moduleName =>
    refine ⟨nofun, fun built _ => ?_⟩
    cases built with
    | error e => trivial
    | ok x =>
      refine (within_probeLoop _ _ _ nofun (fun _ => nofun) 5 1 "").bind fun waited _ => ?_
      cases waited with
      | error e => trivial
      | ok x =>
        dsimp only
        unfold callModule
        dsimp only
        split
        · next hmethod =>
          refine ⟨fun request heq => ?_, fun reply _ => ?_⟩
          · unfold callOf
            rw [hstem, Option.bind_some, if_pos hmethod]
            exact congrArg some (Action.send.inj heq)
          · cases reply with
            | error e => trivial
            | ok response =>
              dsimp only
              split
              · trivial
              · trivial
        · trivial

theorem callOf_of_mem_calls (h : Exec (executeWasmModule upper config) tr r)
    {request : ClientRequest} (hcall : request ∈ calls tr) :
    callOf upper config = some request := by
  obtain ⟨ev, hev, hrequest⟩ := List.mem_filterMap.mp hcall
  have hall := (within_executeWasmModule upper config).of_exec h ev hev
  unfold requestOf? at hrequest
  split at hrequest
  · exact (hall _ rfl).trans hrequest
  · nomatch hrequest

theorem Wire.takesPlain (wire : Wire) : TakesPlain wire.http :=
  takesPlain_of_laws wire.laws wire.pathBytes

end

/-- The call of a job reaches its module. Where the module's name and the path of the schedule need
    no escapes, the request that arrives at the instance is routed to the file of that name, and
    in every execution of it nothing else is loaded, and what the module is handed is the request
    with the path of the schedule. -/
theorem cron_reaches_module {Comp : Type} {host : Host Comp}
    (hmulti : host.singleComponent = none) (wire : Wire) {upper : Uppercase}
    {config : ScheduleConfig} {tr : List Event} {r : Except String Unit}
    (h : Exec (executeWasmModule upper config) tr r) {stem : String}
    (hstem : fileStem config.module = some stem) (haccepted : Accepted stem)
    (hport : config.port < 65536) (hrest : PathRest config.path)
    (hplain : (stem ++ config.path).toList.all plainChar = true)
    (hdots : NoDots ("/run/" ++ (stem ++ config.path))) {request : ClientRequest}
    (hcall : request ∈ calls tr) :
    ∃ path, wire.arrives request.url = some path ∧
      RoutedTo host path (join host.modulesDir (stem ++ ".wasm")) ∧
      ∀ lib (req : Runtime.Request) gzip traceId tr' out, req.uri.path = path →
        req.uri.scheme.isSome = req.uri.authority.isSome →
        Exec (handleRequestInner host wire.http lib req gzip traceId) tr' out →
        (∀ ev ∈ tr', ∀ p, loadedModule ev.1 = some p → p = .platform stem) ∧
        ∀ e ∈ executions tr', e.2.method = req.method ∧ e.2.headers = req.headers ∧
          e.2.uri = { req.uri with path := restPath config.path, query := none } := by
  have hurl : request.url =
      "http://localhost:" ++ config.port.repr ++ ("/run/" ++ (stem ++ config.path)) := by
    have hcallOf := callOf_of_mem_calls h hcall
    unfold callOf callUrl at hcallOf
    rw [hstem, Option.bind_some] at hcallOf
    split at hcallOf
    · rw [← Option.some.inj hcallOf]
      simp only [String.append_assoc]
    · nomatch hcallOf
  have hname : PathSegment stem := ⟨haccepted.plain.nonempty, haccepted.plain.noSlash⟩
  have hparts : stem.toList.all plainChar = true ∧ config.path.toList.all plainChar = true := by
    rw [String.toList_append, List.all_append, Bool.and_eq_true] at hplain
    exact hplain
  have hslash : startsWith "/" ("/run/" ++ (stem ++ config.path)) = true :=
    startsWith_iff.mpr ⟨"run/" ++ (stem ++ config.path), by rw [← String.append_assoc]; rfl⟩
  have hall : ("/run/" ++ (stem ++ config.path)).toList.all plainChar = true := by
    rw [String.toList_append, List.all_append, hplain]
    decide
  obtain ⟨hroutes, hserves⟩ := platform_serves hmulti wire.takesPlain hname hrest
    hparts.1 hparts.2
  refine ⟨"/run/" ++ (stem ++ config.path), ?_,
    ⟨.platform stem, hroutes, loadFile_eq_some_iff.mpr ⟨haccepted, rfl⟩⟩, hserves⟩
  have hread : ("/run/" ++ (stem ++ config.path)).toList.all pathChar = true :=
    List.all_eq_true.mpr fun c hc =>
      (Bool.and_eq_true_iff.mp (List.all_eq_true.mp hall c hc)).1
  unfold Wire.arrives
  rw [hurl, wire.client.kept _ _ hport hslash hall hdots, Option.bind_some]
  exact wire.reader.kept _ hslash hread

/-! ### A wire -/

/-- The text after the port. -/
def afterPort (url : String) : Option String :=
  (stripPrefix "http://localhost:" url).map fun rest =>
    String.ofList (rest.toList.dropWhile Char.isDigit)

theorem afterPort_eq (port : Nat) {path : String} (h : startsWith "/" path = true) :
    afterPort ("http://localhost:" ++ port.repr ++ path) = some path := by
  obtain ⟨rest, rfl⟩ := startsWith_iff.mp h
  have hdigits : ∀ c ∈ port.repr.toList, c.isDigit = true := fun c hc => isDigit_of_mem_repr hc
  unfold afterPort
  rw [String.append_assoc, stripPrefix_eq_some_iff.mpr rfl, Option.map_some, String.toList_append,
    List.dropWhile_append_of_pos hdigits, String.toList_append, toList_separator,
    List.singleton_append, List.dropWhile_cons_of_neg (by decide), ← List.singleton_append,
    ← toList_separator, ← String.toList_append, String.ofList_toList]

/-- A client that takes plain paths only. -/
def plainClient : UrlClient where
  target url := (afterPort url).bind fun path =>
    if path.toList.all plainChar = true ∧ NoDots path then some path else none
  kept port path _ hslash hplain hdots := by
    rw [afterPort_eq port hslash, Option.bind_some, if_pos ⟨hplain, hdots⟩]

def plainWire : Wire where
  client := plainClient
  reader := strictReader
  http := plainHttp
  pathByte := uriPathByte
  laws := plainHttp_laws
  pathBytes _ h := uriPathByte_of_pathChar h

/-- A daily job of the module `hello`. -/
theorem cron_reaches_hello :
    ∃ path, plainWire.arrives "http://localhost:3000/run/hello/" = some path ∧
      RoutedTo (oneModule "hello.wasm") path (join "modules" "hello.wasm") := by
  have hexec : Exec
      (executeWasmModule asciiUppercase { dailyJob "hello" with module := "modules/hello.wasm" })
      [⟨.buildClient, .ok ()⟩, ⟨.probe "http://localhost:3000/health", .ok 200⟩,
        ⟨.send ⟨"GET", "http://localhost:3000/run/hello/", [], none⟩, .ok ⟨200, .ok ""⟩⟩]
      (.ok ()) := Exec.act (Exec.act (Exec.act (Exec.ret _)))
  obtain ⟨path, harrives, hrouted, -⟩ :=
    @cron_reaches_module Nat (oneModule "hello.wasm") rfl plainWire asciiUppercase _ _ _ hexec
      "hello" (by decide) (by decide) (by decide) (Or.inr (by decide)) (by decide) (by decide) _
      List.mem_cons_self
  exact ⟨path, harrives, hrouted⟩

end Mik.Daemon.CronCall
