/-
  The bridge between a script and the host: `host.call()` over channels.

  The thread of the script (`JsThread`) and the loop of `execute_script` (`ServingLoop`) take
  turns in any order. The thread sends a message with a reply channel of its own and blocks on it;
  the loop waits for the thread to end or for a message to come, and while it serves a call the
  host answers one action of `executeHandlerCall` at a time. What QuickJS does between two calls
  is the parameter `script`, a step function on states of any type, so scripts may run for ever.

  A call goes through four phases (`Queued`, `Handling`, `Replied`, back to `Idle`), each left by a
  turn of one party only. `host_calls_served` gives what holds in every state of every run, and
  that in a fair run every call returns. A request that is dropped takes the loop with it: such
  runs are not runs of the loop to its end, and are left out.
-/
import Mathlib.Data.List.Nodup
import Mik.Lib.Fair
import Mik.Lib.Json
import Mik.Runtime.Script

namespace Mik.Runtime

open Mik.Lib Mik.Lib.Prog

/-! ## The two parties -/

/-- What the thread does next. A call is resumed with what `native_host_call` returns, or with the
    exception it throws. -/
inductive JsStep (σ : Type) where
  | compute (next : σ)
  | hostCall (module optionsJson : String) (resume : Except Unit HostCallResult → σ)
  | finish (result : Except String String)
  | crash (message : String)

/-- `HostMessage::Call`, with the number of its reply channel. -/
structure HostMessage where
  call : HostCall
  responseTx : Nat
  deriving DecidableEq, Repr

inductive JsThread (σ : Type) where
  | running (state : σ)
  /-- It waits in `resp_rx.recv()`. -/
  | blocked (responseRx : Nat) (resume : Except Unit HostCallResult → σ)
  /-- It has ended: the result of `run_js_script`, or the message of its panic. -/
  | joined (outcome : Except String (Except String String))

inductive ServingLoop (Comp : Type) where
  | select
  | handling (m : HostMessage) (p : Handler Comp (Except Error HostCallResult))
  /-- The channel is closed and the loop left; `js_handle` is awaited. -/
  | draining
  | ended (result : Except Error (String × Nat))

/-- A run of `execute_script`. What is kept of the past, from `made` on, is read by no turn but for
    `made`, which numbers the reply channels. -/
structure ScriptRun (Comp σ : Type) where
  js : JsThread σ
  hostRx : List HostMessage
  /-- What a reply channel holds. -/
  replies : Nat → List HostCallResult
  loop : ServingLoop Comp
  callCount : Nat
  lastError : Option String
  /-- How often `native_host_call` was entered. -/
  made : Nat
  sent : List HostMessage
  answers : List (HostMessage × Except Error HostCallResult)
  /-- What calls have returned, by reply channel. -/
  received : List (Nat × Except Unit HostCallResult)

/-- `serde_json`: reading the options of a call, and the text of a value. -/
structure OptionsLib where
  parse : String → Option Json
  text : Json → String

/-- The call `native_host_call` sends. -/
def hostCallOf (lib : OptionsLib) (module optionsJson : String) : HostCall :=
  let options := (lib.parse optionsJson).getD (.obj [])
  { module := module
    method := ((options.get "method").bind Json.asStr).getD "POST"
    path := ((options.get "path").bind Json.asStr).getD "/"
    headers := (((options.get "headers").map Json.fields).getD []).filterMap fun h =>
      h.2.asStr.map fun value => (h.1, value)
    body := (options.get "body").map lib.text }

/-- The response the loop sends for the result of a handler call. -/
def respond : Except Error HostCallResult → HostCallResult
  | .ok resp => resp
  | .error e => ⟨500, [], .null, some e.toString⟩

/-- What `execute_script` returns once the thread has ended. -/
def scriptResult (lastError : Option String) (callsExecuted : Nat) :
    Except String (Except String String) → Except Error (String × Nat)
  | .ok (.ok result) =>
    match lastError with
    | some err => .error (.other ("Handler error: " ++ err))
    | none => .ok (result, callsExecuted)
  | .ok (.error e) => .error (.other ("Script error: " ++ e))
  | .error e => .error (.other ("Script panicked: " ++ e))

/-- The handles on the sender that each party holds: the thread's guard drops its own when the
    script returns, `execute_script` keeps `bridge` until it returns itself. -/
def JsThread.bridges {σ : Type} : JsThread σ → Nat
  | .joined _ => 0
  | _ => 1

def ServingLoop.bridges {Comp : Type} : ServingLoop Comp → Nat
  | .ended _ => 0
  | _ => 1

def ServingLoop.handles {Comp : Type} (id : Nat) : ServingLoop Comp → Bool
  | .handling m _ => m.responseTx = id
  | _ => false

/-- Who takes a turn: the thread, a branch of the `select!`, or the handler call being served, with
    what the host answers it. -/
inductive HostTurn (Comp : Type) where
  | js
  | recv
  | serve (answer : (a : Action Comp) → Answer Comp a)
  | join
  | closed

namespace ScriptRun

variable {Comp σ : Type} (http : HttpLib) (traceId : String) (lib : OptionsLib)
  (script : σ → JsStep σ)

def start (state : σ) : ScriptRun Comp σ where
  js := .running state
  hostRx := []
  replies _ := []
  loop := .select
  callCount := 0
  lastError := none
  made := 0
  sent := []
  answers := []
  received := []

/-- Someone can still answer on the reply channel: its sender is in a message that waits or that is
    being served. -/
def senderAlive (s : ScriptRun Comp σ) (id : Nat) : Bool :=
  s.hostRx.any (·.responseTx = id) || s.loop.handles id

/-- `native_host_call` up to the wait: sending fails when the receiver is gone. -/
def nativeHostCall (s : ScriptRun Comp σ) (module optionsJson : String)
    (resume : Except Unit HostCallResult → σ) : ScriptRun Comp σ :=
  match s.loop with
  | .ended _ => { s with js := .running (resume (.error ())), made := s.made + 1 }
  | _ =>
    let m := ⟨hostCallOf lib module optionsJson, s.made⟩
    { s with
      js := .blocked s.made resume
      hostRx := s.hostRx ++ [m]
      made := s.made + 1
      sent := s.sent ++ [m] }

/-- The thread takes what its reply channel holds; without a sender left, `recv` fails. -/
def takeReply (s : ScriptRun Comp σ) (id : Nat) (resume : Except Unit HostCallResult → σ) :
    ScriptRun Comp σ :=
  match s.replies id with
  | resp :: rest =>
    { s with
      js := .running (resume (.ok resp))
      replies := fun j => if j = id then rest else s.replies j
      received := s.received ++ [(id, .ok resp)] }
  | [] =>
    if s.senderAlive id then s
    else
      { s with
        js := .running (resume (.error ()))
        received := s.received ++ [(id, .error ())] }

def advanceJs (s : ScriptRun Comp σ) : ScriptRun Comp σ :=
  match s.js with
  | .running state =>
    match script state with
    | .compute next => { s with js := .running next }
    | .hostCall module optionsJson resume => s.nativeHostCall lib module optionsJson resume
    | .finish result => { s with js := .joined (.ok result) }
    | .crash message => { s with js := .joined (.error message) }
  | .blocked id resume => s.takeReply id resume
  | .joined _ => s

/-- The branch of the `select!` for a message. -/
def recv (s : ScriptRun Comp σ) : ScriptRun Comp σ :=
  match s.loop, s.hostRx with
  | .select, m :: rest =>
    { s with
      hostRx := rest
      loop := .handling m (executeHandlerCall http m.call traceId)
      callCount := s.callCount + 1 }
  | _, _ => s

/-- The error of a handler call is kept for the end of the script. -/
def keepError (lastError : Option String) : Except Error HostCallResult → Option String
  | .ok _ => lastError
  | .error e => some e.toString

def reply (s : ScriptRun Comp σ) (m : HostMessage) (r : Except Error HostCallResult) :
    ScriptRun Comp σ :=
  { s with
    loop := .select
    lastError := keepError s.lastError r
    replies := fun j => if j = m.responseTx then s.replies j ++ [respond r] else s.replies j
    answers := s.answers ++ [(m, r)] }

/-- The handler call goes on: the host answers its next action, or it has returned. -/
def serve (s : ScriptRun Comp σ) (answer : (a : Action Comp) → Answer Comp a) :
    ScriptRun Comp σ :=
  match s.loop with
  | .handling m (.act a k) => { s with loop := .handling m (k (answer a)) }
  | .handling m (.ret r) => s.reply m r
  | _ => s

/-- The function returns, and the receiver goes with what it holds. -/
def finish (s : ScriptRun Comp σ) (outcome : Except String (Except String String)) :
    ScriptRun Comp σ :=
  { s with
    loop := .ended (scriptResult s.lastError s.callCount outcome)
    hostRx := [] }

/-- The thread has ended: the other branch of the `select!`, or the wait after the loop. -/
def join (s : ScriptRun Comp σ) : ScriptRun Comp σ :=
  match s.loop, s.js with
  | .select, .joined outcome => s.finish outcome
  | .draining, .joined outcome => s.finish outcome
  | _, _ => s

/-- `recv` gives `None` once every sender is dropped and no message is left. -/
def closed (s : ScriptRun Comp σ) : ScriptRun Comp σ :=
  match s.loop with
  | .select =>
    if s.js.bridges + s.loop.bridges = 0 ∧ s.hostRx = [] then { s with loop := .draining } else s
  | _ => s

def step (s : ScriptRun Comp σ) : HostTurn Comp → ScriptRun Comp σ
  | .js => s.advanceJs lib script
  | .recv => s.recv http traceId
  | .serve answer => s.serve answer
  | .join => s.join
  | .closed => s.closed

/-- The responses a message has got. -/
def responses (s : ScriptRun Comp σ) (m : HostMessage) : Nat := (s.answers.map Prod.fst).count m

end ScriptRun

/-! ## The phases of a call -/

section

variable {Comp σ : Type} (http : HttpLib) (traceId : String) {lib : OptionsLib}
  {script : σ → JsStep σ} {s : ScriptRun Comp σ}

/-- What is received of an answer, on the channel of its message. -/
def delivered (a : HostMessage × Except Error HostCallResult) :
    Nat × Except Unit HostCallResult := (a.1.responseTx, .ok (respond a.2))

/-- `r` is what `executeHandlerCall` returns for the call of `m`, under some answers of the host. -/
def ComputedFor (Comp : Type) (m : HostMessage) (r : Except Error HostCallResult) : Prop :=
  ∃ tr, Exec (executeHandlerCall http m.call traceId :
    Handler Comp (Except Error HostCallResult)) tr r

/-- What is on record of the calls: the messages of `pending` have no answer yet, the answers of
    `unread` are still in their reply channels. -/
structure Ledger (unread : List (HostMessage × Except Error HostCallResult))
    (pending : List HostMessage) (s : ScriptRun Comp σ) : Prop where
  fresh : s.sent.map (·.responseTx) = List.range s.made
  sent : s.sent = s.answers.map Prod.fst ++ pending
  received : s.answers.map delivered = s.received ++ unread.map delivered
  replies : ∀ id,
    s.replies id = (unread.filter fun a => a.1.responseTx = id).map fun a => respond a.2
  computed : ∀ a ∈ s.answers, ComputedFor http traceId Comp a.1 a.2

/-- The script computes, and the loop waits. -/
structure Idle (s : ScriptRun Comp σ) : Prop extends Ledger http traceId [] [] s where
  queue : s.hostRx = []
  loop : s.loop = .select
  running : ∃ state, s.js = .running state
  count : s.callCount = s.answers.length

/-- The message of a call is in the channel. -/
structure Queued (m : HostMessage) (s : ScriptRun Comp σ) : Prop
    extends Ledger http traceId [] [m] s where
  queue : s.hostRx = [m]
  loop : s.loop = .select
  blocked : ∃ resume, s.js = .blocked m.responseTx resume
  count : s.callCount = s.answers.length

/-- The loop serves it, and `p` is what is left of the handler call. -/
structure Handling (m : HostMessage) (p : Handler Comp (Except Error HostCallResult))
    (s : ScriptRun Comp σ) : Prop extends Ledger http traceId [] [m] s where
  queue : s.hostRx = []
  loop : s.loop = .handling m p
  blocked : ∃ resume, s.js = .blocked m.responseTx resume
  rest : ∀ tr r, Exec p tr r → ComputedFor http traceId Comp m r
  count : s.callCount = s.answers.length + 1

/-- The response is in the reply channel. -/
structure Replied (m : HostMessage) (r : Except Error HostCallResult) (s : ScriptRun Comp σ) : Prop
    extends Ledger http traceId [(m, r)] [] s where
  queue : s.hostRx = []
  loop : s.loop = .select
  blocked : ∃ resume, s.js = .blocked m.responseTx resume
  count : s.callCount = s.answers.length

/-- The thread has ended, which the loop has yet to see. -/
structure Finished (s : ScriptRun Comp σ) : Prop extends Ledger http traceId [] [] s where
  queue : s.hostRx = []
  loop : s.loop = .select
  joined : ∃ outcome, s.js = .joined outcome
  count : s.callCount = s.answers.length

/-- `execute_script` has returned; its result counts the calls made. -/
structure Over (s : ScriptRun Comp σ) : Prop extends Ledger http traceId [] [] s where
  queue : s.hostRx = []
  joined : ∃ outcome, s.js = .joined outcome
  ended : ∃ result, s.loop = .ended result ∧ ∀ v n, result = .ok (v, n) → n = s.made

inductive Phase (s : ScriptRun Comp σ) : Prop where
  | idle (h : Idle http traceId s)
  | queued (m : HostMessage) (h : Queued http traceId m s)
  | handling (m : HostMessage) (p : Handler Comp (Except Error HostCallResult))
      (h : Handling http traceId m p s)
  | replied (m : HostMessage) (r : Except Error HostCallResult) (h : Replied http traceId m r s)
  | finished (h : Finished http traceId s)
  | done (h : Over http traceId s)

variable {http traceId} {unread : List (HostMessage × Except Error HostCallResult)}
  {pending : List HostMessage} {m : HostMessage} {r : Except Error HostCallResult}
  {p : Handler Comp (Except Error HostCallResult)}

/-! ## What a turn does to the record -/

theorem Ledger.made_eq (h : Ledger http traceId unread pending s) : s.made = s.sent.length := by
  have hlength := congrArg List.length h.fresh
  rw [List.length_map, List.length_range] at hlength
  omega

/-- A message sent gets a number that no message before it has. -/
theorem Ledger.send (h : Ledger http traceId [] [] s) (call : HostCall)
    (resume : Except Unit HostCallResult → σ) :
    Ledger http traceId [] [⟨call, s.made⟩]
      { s with
        js := .blocked s.made resume
        hostRx := s.hostRx ++ [⟨call, s.made⟩]
        made := s.made + 1
        sent := s.sent ++ [⟨call, s.made⟩] } where
  fresh := by
    rw [List.map_append, List.range_succ, h.fresh]
    rfl
  sent := by
    rw [h.sent, List.append_nil]
  received := h.received
  replies := h.replies
  computed := h.computed

/-- A message is answered on its own channel. -/
theorem Ledger.reply (h : Ledger http traceId [] [m] s) (hr : ComputedFor http traceId Comp m r) :
    Ledger http traceId [(m, r)] [] (s.reply m r) where
  fresh := h.fresh
  sent := by
    show s.sent = (s.answers ++ [(m, r)]).map Prod.fst ++ []
    rw [List.map_append, List.append_nil, h.sent]
    rfl
  received := by
    show (s.answers ++ [(m, r)]).map delivered = s.received ++ [(m, r)].map delivered
    rw [List.map_append, h.received, List.map_nil, List.append_nil]
  replies id := by
    have hempty : ∀ id, s.replies id = [] := h.replies
    show (if id = m.responseTx then s.replies id ++ [respond r] else s.replies id) = _
    rw [hempty id, List.filter_singleton]
    by_cases hid : id = m.responseTx
    · simp [hid]
    · have hid' : m.responseTx ≠ id := fun e => hid e.symm
      simp [hid, hid']
  computed a ha := by
    rcases List.mem_append.mp ha with ha | ha
    · exact h.computed a ha
    · rw [List.mem_singleton.mp ha]
      exact hr

/-- The thread takes the response off its channel. -/
theorem Ledger.take (h : Ledger http traceId [(m, r)] [] s)
    (resume : Except Unit HostCallResult → σ) :
    Ledger http traceId [] []
      { s with
        js := .running (resume (.ok (respond r)))
        replies := fun j => if j = m.responseTx then [] else s.replies j
        received := s.received ++ [(m.responseTx, .ok (respond r))] } where
  fresh := h.fresh
  sent := h.sent
  received := by
    rw [h.received, List.map_nil, List.append_nil]
    rfl
  replies id := by
    show (if id = m.responseTx then [] else s.replies id) = []
    by_cases hid : id = m.responseTx
    · rw [if_pos hid]
    · have hid' : m.responseTx ≠ id := fun e => hid e.symm
      rw [if_neg hid, h.replies id]
      simp [hid']
  computed := h.computed

/-! ## Turns that change nothing -/

/-- `execute_script` holds a sender itself, so the loop never sees its channel closed. -/
theorem closed_eq (s : ScriptRun Comp σ) : s.closed = s := by
  unfold ScriptRun.closed
  split
  · next hloop =>
    have hheld : ¬ (s.js.bridges + s.loop.bridges = 0 ∧ s.hostRx = []) := by
      rw [hloop]
      simp [ServingLoop.bridges]
    rw [if_neg hheld]
  · rfl

theorem recv_empty (hqueue : s.hostRx = []) : s.recv http traceId = s := by
  unfold ScriptRun.recv
  rw [hqueue]
  cases s.loop <;> rfl

theorem serve_select (hloop : s.loop = .select)
    (answer : (a : Action Comp) → Answer Comp a) : s.serve answer = s := by
  unfold ScriptRun.serve
  rw [hloop]

theorem join_blocked {id : Nat} {resume : Except Unit HostCallResult → σ}
    (hjs : s.js = .blocked id resume) : s.join = s := by
  unfold ScriptRun.join
  rw [hjs]
  split <;> simp_all

/-- A thread whose channel is empty goes on waiting while someone can answer. -/
theorem advanceJs_waits {id : Nat} {resume : Except Unit HostCallResult → σ}
    (hjs : s.js = .blocked id resume) (hempty : s.replies id = [])
    (halive : s.senderAlive id = true) : s.advanceJs lib script = s := by
  simp only [ScriptRun.advanceJs, hjs, ScriptRun.takeReply, hempty, halive, if_true]

/-! ## The turns of each phase -/

/-- A message in the channel waits for the loop. -/
theorem Queued.waits (h : Queued http traceId m s) {e : HostTurn Comp} (he : e ≠ .recv) :
    s.step http traceId lib script e = s := by
  obtain ⟨resume, hjs⟩ := h.blocked
  cases e with
  | js =>
    have halive : s.senderAlive m.responseTx = true := by
      simp [ScriptRun.senderAlive, h.queue]
    exact advanceJs_waits hjs (h.replies _) halive
  | recv => exact absurd rfl he
  | serve answer => exact serve_select h.loop answer
  | join => exact join_blocked hjs
  | closed => exact closed_eq s

theorem Queued.recv (h : Queued http traceId m s) :
    Handling http traceId m (executeHandlerCall http m.call traceId)
      (s.step http traceId lib script .recv) := by
  have hrecv : s.recv http traceId =
      { s with
        hostRx := []
        loop := .handling m (executeHandlerCall http m.call traceId)
        callCount := s.callCount + 1 } := by
    simp only [ScriptRun.recv, h.loop, h.queue]
  show Handling http traceId m _ (s.recv http traceId)
  rw [hrecv]
  exact
    { fresh := h.fresh
      sent := h.sent
      received := h.received
      replies := h.replies
      computed := h.computed
      queue := rfl
      loop := rfl
      blocked := h.blocked
      rest := fun tr r hr => ⟨tr, hr⟩
      count := congrArg (· + 1) h.count }

/-- A call being served waits for the host. -/
theorem Handling.waits (h : Handling http traceId m p s) {e : HostTurn Comp}
    (he : ¬ ∃ answer, e = .serve answer) : s.step http traceId lib script e = s := by
  obtain ⟨resume, hjs⟩ := h.blocked
  cases e with
  | js =>
    have halive : s.senderAlive m.responseTx = true := by
      simp [ScriptRun.senderAlive, ServingLoop.handles, h.loop]
    exact advanceJs_waits hjs (h.replies _) halive
  | recv => exact recv_empty h.queue
  | serve answer => exact absurd ⟨answer, rfl⟩ he
  | join => exact join_blocked hjs
  | closed => exact closed_eq s

theorem Handling.act {a : Action Comp}
    {k : Answer Comp a → Handler Comp (Except Error HostCallResult)}
    (h : Handling http traceId m (.act a k) s) (answer : (a : Action Comp) → Answer Comp a) :
    Handling http traceId m (k (answer a)) (s.step http traceId lib script (.serve answer)) := by
  have hserve : s.serve answer = { s with loop := .handling m (k (answer a)) } := by
    simp only [ScriptRun.serve, h.loop]
  show Handling http traceId m _ (s.serve answer)
  rw [hserve]
  exact
    { fresh := h.fresh
      sent := h.sent
      received := h.received
      replies := h.replies
      computed := h.computed
      queue := h.queue
      loop := rfl
      blocked := h.blocked
      rest := fun tr r hr => h.rest _ r (Exec.act hr)
      count := h.count }

theorem Handling.ret (h : Handling http traceId m (.ret r) s)
    (answer : (a : Action Comp) → Answer Comp a) :
    Replied http traceId m r (s.step http traceId lib script (.serve answer)) := by
  have hserve : s.serve answer = s.reply m r := by
    simp only [ScriptRun.serve, h.loop]
  show Replied http traceId m r (s.serve answer)
  rw [hserve]
  refine
    { toLedger := h.toLedger.reply (h.rest [] r (Exec.ret r))
      queue := h.queue
      loop := rfl
      blocked := h.blocked
      count := ?_ }
  show s.callCount = (s.answers ++ [(m, r)]).length
  rw [List.length_append, h.count]
  rfl

/-- A response waits for the thread. -/
theorem Replied.waits (h : Replied http traceId m r s) {e : HostTurn Comp} (he : e ≠ .js) :
    s.step http traceId lib script e = s := by
  obtain ⟨resume, hjs⟩ := h.blocked
  cases e with
  | js => exact absurd rfl he
  | recv => exact recv_empty h.queue
  | serve answer => exact serve_select h.loop answer
  | join => exact join_blocked hjs
  | closed => exact closed_eq s

theorem Replied.js (h : Replied http traceId m r s) :
    Idle http traceId (s.step http traceId lib script .js) ∧
      (m.responseTx, .ok (respond r)) ∈ (s.step http traceId lib script .js).received := by
  obtain ⟨resume, hjs⟩ := h.blocked
  have hreply : s.replies m.responseTx = [respond r] := by
    rw [h.replies]
    simp
  have htake : s.advanceJs lib script =
      { s with
        js := .running (resume (.ok (respond r)))
        replies := fun j => if j = m.responseTx then [] else s.replies j
        received := s.received ++ [(m.responseTx, .ok (respond r))] } := by
    simp only [ScriptRun.advanceJs, hjs, ScriptRun.takeReply, hreply]
  show Idle http traceId (s.advanceJs lib script) ∧ _ ∈ (s.advanceJs lib script).received
  rw [htake]
  refine ⟨?_, List.mem_append_right _ List.mem_cons_self⟩
  exact
    { toLedger := h.toLedger.take resume
      queue := h.queue
      loop := h.loop
      running := ⟨resume (.ok (respond r)), rfl⟩
      count := h.count }

theorem scriptResult_count {lastError : Option String} {callsExecuted : Nat}
    {outcome : Except String (Except String String)} {v : String} {n : Nat}
    (h : scriptResult lastError callsExecuted outcome = .ok (v, n)) : n = callsExecuted := by
  unfold scriptResult at h
  split at h
  · cases lastError with
    | some err => cases h
    | none =>
      cases h
      rfl
  · cases h
  · cases h

/-- A script that has ended waits for the loop to see it. -/
theorem Finished.waits (h : Finished http traceId s) {e : HostTurn Comp} (he : e ≠ .join) :
    s.step http traceId lib script e = s := by
  obtain ⟨outcome, hjs⟩ := h.joined
  cases e with
  | js =>
    show s.advanceJs lib script = s
    simp only [ScriptRun.advanceJs, hjs]
  | recv => exact recv_empty h.queue
  | serve answer => exact serve_select h.loop answer
  | join => exact absurd rfl he
  | closed => exact closed_eq s

theorem Finished.join (h : Finished http traceId s) :
    Over http traceId (s.step http traceId lib script .join) := by
  obtain ⟨outcome, hjs⟩ := h.joined
  have hjoin : s.join = s.finish outcome := by
    simp only [ScriptRun.join, h.loop, hjs]
  have hmade : s.callCount = s.made := by
    rw [h.count, h.made_eq, h.sent, List.append_nil, List.length_map]
  show Over http traceId s.join
  rw [hjoin]
  exact
    { fresh := h.fresh
      sent := h.sent
      received := h.received
      replies := h.replies
      computed := h.computed
      queue := rfl
      joined := h.joined
      ended := ⟨_, rfl, fun v n hn => (scriptResult_count hn).trans hmade⟩ }

/-- A script that computes goes on, makes a call or ends; the loop has nothing to do. -/
theorem Idle.turn (h : Idle http traceId s) (e : HostTurn Comp) :
    Idle http traceId (s.step http traceId lib script e) ∨
    (∃ m, Queued http traceId m (s.step http traceId lib script e)) ∨
    Finished http traceId (s.step http traceId lib script e) := by
  obtain ⟨state, hjs⟩ := h.running
  cases e with
  | js =>
    show Idle http traceId (s.advanceJs lib script) ∨
      (∃ m, Queued http traceId m (s.advanceJs lib script)) ∨
      Finished http traceId (s.advanceJs lib script)
    cases hstep : script state with
    | compute next =>
      have hadv : s.advanceJs lib script = { s with js := .running next } := by
        simp only [ScriptRun.advanceJs, hjs, hstep]
      rw [hadv]
      exact Or.inl { h with running := ⟨next, rfl⟩ }
    | hostCall module optionsJson resume =>
      have hadv : s.advanceJs lib script =
          { s with
            js := .blocked s.made resume
            hostRx := s.hostRx ++ [⟨hostCallOf lib module optionsJson, s.made⟩]
            made := s.made + 1
            sent := s.sent ++ [⟨hostCallOf lib module optionsJson, s.made⟩] } := by
        simp only [ScriptRun.advanceJs, hjs, hstep, ScriptRun.nativeHostCall, h.loop]
      rw [hadv]
      refine Or.inr (Or.inl ⟨⟨hostCallOf lib module optionsJson, s.made⟩, ?_⟩)
      exact
        { toLedger := h.toLedger.send _ resume
          queue := by simp [h.queue]
          loop := h.loop
          blocked := ⟨resume, rfl⟩
          count := h.count }
    | finish result =>
      have hadv : s.advanceJs lib script = { s with js := .joined (.ok result) } := by
        simp only [ScriptRun.advanceJs, hjs, hstep]
      rw [hadv]
      exact Or.inr (Or.inr { h with joined := ⟨_, rfl⟩ })
    | crash message =>
      have hadv : s.advanceJs lib script = { s with js := .joined (.error message) } := by
        simp only [ScriptRun.advanceJs, hjs, hstep]
      rw [hadv]
      exact Or.inr (Or.inr { h with joined := ⟨_, rfl⟩ })
  | recv =>
    rw [show s.step http traceId lib script .recv = s from recv_empty h.queue]
    exact Or.inl h
  | serve answer =>
    rw [show s.step http traceId lib script (.serve answer) = s from serve_select h.loop answer]
    exact Or.inl h
  | join =>
    have hjoin : s.join = s := by
      simp only [ScriptRun.join, h.loop, hjs]
    rw [show s.step http traceId lib script .join = s from hjoin]
    exact Or.inl h
  | closed =>
    rw [show s.step http traceId lib script .closed = s from closed_eq s]
    exact Or.inl h

theorem Over.turn (h : Over http traceId s) (e : HostTurn Comp) :
    s.step http traceId lib script e = s := by
  obtain ⟨outcome, hjs⟩ := h.joined
  obtain ⟨result, hloop, _⟩ := h.ended
  cases e with
  | js =>
    show s.advanceJs lib script = s
    simp only [ScriptRun.advanceJs, hjs]
  | recv => exact recv_empty h.queue
  | serve answer =>
    show s.serve answer = s
    simp only [ScriptRun.serve, hloop]
  | join =>
    show s.join = s
    simp only [ScriptRun.join, hloop]
  | closed => exact closed_eq s

/-- Whoever takes a turn, the run is in one of the phases again. -/
theorem phase_step (h : Phase http traceId s) (e : HostTurn Comp) :
    Phase http traceId (s.step http traceId lib script e) := by
  cases h with
  | idle h =>
    have hturn : Idle http traceId (s.step http traceId lib script e) ∨
      (∃ m, Queued http traceId m (s.step http traceId lib script e)) ∨
      Finished http traceId (s.step http traceId lib script e) := h.turn e
    rcases hturn with h | ⟨m, h⟩ | h
    · exact .idle h
    · exact .queued m h
    · exact .finished h
  | queued m h =>
    by_cases he : e = .recv
    · rw [he]
      exact .handling m _ h.recv
    · rw [h.waits he]
      exact .queued m h
  | handling m p h =>
    by_cases he : ∃ answer, e = .serve answer
    · obtain ⟨answer, rfl⟩ := he
      cases p with
      | act a k => exact .handling m _ (h.act answer)
      | ret r => exact .replied m r (h.ret answer)
    · rw [h.waits he]
      exact .handling m p h
  | replied m r h =>
    by_cases he : e = .js
    · rw [he]
      exact .idle h.js.1
    · rw [h.waits he]
      exact .replied m r h
  | finished h =>
    by_cases he : e = .join
    · rw [he]
      exact .done h.join
    · rw [h.waits he]
      exact .finished h
  | done h =>
    rw [h.turn e]
    exact .done h

theorem phase_start (state : σ) :
    Phase http traceId (ScriptRun.start state : ScriptRun Comp σ) :=
  .idle
    { fresh := rfl
      sent := rfl
      received := rfl
      replies := fun _ => rfl
      computed := nofun
      queue := rfl
      loop := rfl
      running := ⟨state, rfl⟩
      count := rfl }

theorem phase_run (state : σ) (turns : List (HostTurn Comp)) :
    Phase http traceId
      (run (ScriptRun.step http traceId lib script) (ScriptRun.start state) turns) :=
  run_keeps (Phase http traceId) (fun _ e h => phase_step h e) (phase_start state) turns

/-! ## Fair runs -/

/-- Every party takes turns again and again. -/
structure Fair (turns : Nat → HostTurn Comp) : Prop where
  js : Often (· = .js) turns
  recv : Often (· = .recv) turns
  serve : Often (fun e => ∃ answer, e = .serve answer) turns
  join : Often (· = .join) turns

/-- The call on this reply channel has returned a response. -/
def Returned (id : Nat) (s : ScriptRun Comp σ) : Prop := ∃ resp, (id, .ok resp) ∈ s.received

variable {turns : Nat → HostTurn Comp}

theorem replied_leadsTo (hfair : Fair turns) :
    LeadsTo (ScriptRun.step http traceId lib script) s turns (Replied http traceId m r)
      (Returned m.responseTx) := by
  refine leadsTo_of_waiting hfair.js (fun _ _ ht he => ht.waits he) ?_
  rintro t e ht rfl
  exact ⟨_, ht.js.2⟩

/-- A handler call is a finite program, so it returns. -/
theorem handling_leadsTo (hfair : Fair turns) (p : Handler Comp (Except Error HostCallResult)) :
    LeadsTo (ScriptRun.step http traceId lib script) s turns (Handling http traceId m p)
      (Returned m.responseTx) := by
  induction p with
  | ret r =>
    refine LeadsTo.trans (leadsTo_of_waiting hfair.serve (fun _ _ ht he => ht.waits he) ?_)
      (replied_leadsTo (r := r) hfair)
    rintro t e ht ⟨answer, rfl⟩
    exact ht.ret answer
  | act a k ih =>
    refine LeadsTo.trans (leadsTo_of_waiting hfair.serve (fun _ _ ht he => ht.waits he) ?_)
      (LeadsTo.exists ih)
    rintro t e ht ⟨answer, rfl⟩
    exact ⟨answer a, ht.act answer⟩

theorem queued_leadsTo (hfair : Fair turns) :
    LeadsTo (ScriptRun.step http traceId lib script) s turns (Queued http traceId m)
      (Returned m.responseTx) := by
  refine LeadsTo.trans (leadsTo_of_waiting hfair.recv (fun _ _ ht he => ht.waits he) ?_)
    (handling_leadsTo hfair (executeHandlerCall http m.call traceId))
  rintro t e ht rfl
  exact ht.recv

theorem finished_leadsTo (hfair : Fair turns) :
    LeadsTo (ScriptRun.step http traceId lib script) s turns (Finished http traceId)
      (Over http traceId) := by
  refine leadsTo_of_waiting hfair.join (fun _ _ ht he => ht.waits he) ?_
  rintro t e ht rfl
  exact ht.join

/-! ## What holds in every run -/

/-- What scripts and handlers may rely on. -/
structure Served (http : HttpLib) (traceId : String) (s : ScriptRun Comp σ) : Prop where
  /-- Each call sends one message, with a reply channel of its own. -/
  ownChannel : s.sent.map (·.responseTx) = List.range s.made
  once : ∀ m ∈ s.sent, s.responses m ≤ 1
  oneInFlight : s.sent.length ≤ s.received.length + 1
  /-- What a call returns is the response computed for its own message. -/
  ownResponse : ∀ id out, (id, out) ∈ s.received → ∃ m ∈ s.sent, m.responseTx = id ∧
    ∃ r, (m, r) ∈ s.answers ∧ ComputedFor http traceId Comp m r ∧ out = .ok (respond r)
  ended : ∀ result, s.loop = .ended result →
    (∀ m ∈ s.sent, s.responses m = 1) ∧ s.received.length = s.sent.length ∧
    (∃ outcome, s.js = .joined outcome) ∧ ∀ v n, result = .ok (v, n) → n = s.made

theorem Ledger.nodup (h : Ledger http traceId unread pending s) : s.sent.Nodup := by
  have hrange : (s.sent.map (·.responseTx)).Nodup := by
    rw [h.fresh]
    exact List.nodup_range
  exact List.Nodup.of_map _ hrange

theorem Ledger.served (h : Ledger http traceId unread pending s)
    (hone : unread.length + pending.length ≤ 1)
    (hended : ∀ result, s.loop = .ended result → unread = [] ∧ pending = [] ∧
      (∃ outcome, s.js = .joined outcome) ∧ ∀ v n, result = .ok (v, n) → n = s.made) :
    Served http traceId s := by
  have hsent := congrArg List.length h.sent
  have hreceived := congrArg List.length h.received
  simp only [List.length_append, List.length_map] at hsent hreceived
  have hanswered : (s.answers.map Prod.fst).Nodup := by
    have hnodup := h.nodup
    rw [h.sent] at hnodup
    exact (List.nodup_append.mp hnodup).1
  refine ⟨h.fresh, fun m _ => List.nodup_iff_count_le_one.mp hanswered m, by omega, ?_, ?_⟩
  · intro id out hmem
    have hmem' : (id, out) ∈ s.answers.map delivered := by
      rw [h.received]
      exact List.mem_append_left _ hmem
    obtain ⟨a, ha, heq⟩ := List.mem_map.mp hmem'
    cases heq
    refine ⟨a.1, ?_, rfl, a.2, ha, h.computed a ha, rfl⟩
    rw [h.sent]
    exact List.mem_append_left _ (List.mem_map_of_mem ha)
  · intro result hloop
    obtain ⟨rfl, rfl, hjoined, hcount⟩ := hended result hloop
    rw [List.length_nil] at hsent hreceived
    refine ⟨fun m hm => ?_, by omega, hjoined, hcount⟩
    rw [h.sent, List.append_nil] at hm
    exact List.count_eq_one_of_mem hanswered hm

theorem Phase.served (h : Phase http traceId s) : Served http traceId s := by
  cases h with
  | idle h =>
    refine h.toLedger.served (Nat.zero_le 1) fun result hloop => ?_
    rw [h.loop] at hloop
    cases hloop
  | queued m h =>
    refine h.toLedger.served (Nat.le_refl 1) fun result hloop => ?_
    rw [h.loop] at hloop
    cases hloop
  | handling m p h =>
    refine h.toLedger.served (Nat.le_refl 1) fun result hloop => ?_
    rw [h.loop] at hloop
    cases hloop
  | replied m r h =>
    refine h.toLedger.served (Nat.le_refl 1) fun result hloop => ?_
    rw [h.loop] at hloop
    cases hloop
  | finished h =>
    refine h.toLedger.served (Nat.zero_le 1) fun result hloop => ?_
    rw [h.loop] at hloop
    cases hloop
  | done h =>
    refine h.toLedger.served (Nat.zero_le 1) fun result hloop => ?_
    obtain ⟨result', hloop', hcount⟩ := h.ended
    rw [hloop'] at hloop
    cases hloop
    exact ⟨rfl, rfl, h.joined, hcount⟩

/-- A call that is under way. -/
def UnderWay (http : HttpLib) (traceId : String) (id : Nat) (s : ScriptRun Comp σ) : Prop :=
  ∃ m, m.responseTx = id ∧ (Queued http traceId m s ∨
    (∃ p, Handling http traceId m p s) ∨ ∃ r, Replied http traceId m r s)

/-- What the thread does, phase by phase. -/
theorem Phase.thread (h : Phase http traceId s) :
    (∃ state, s.js = .running state) ∨
    (∃ id resume, s.js = .blocked id resume ∧ UnderWay http traceId id s) ∨
    (∃ outcome, s.js = .joined outcome) ∧ (Finished http traceId s ∨ Over http traceId s) := by
  cases h with
  | idle h => exact Or.inl h.running
  | queued m h =>
    obtain ⟨resume, hjs⟩ := h.blocked
    exact Or.inr (Or.inl ⟨_, resume, hjs, m, rfl, Or.inl h⟩)
  | handling m p h =>
    obtain ⟨resume, hjs⟩ := h.blocked
    exact Or.inr (Or.inl ⟨_, resume, hjs, m, rfl, Or.inr (Or.inl ⟨p, h⟩)⟩)
  | replied m r h =>
    obtain ⟨resume, hjs⟩ := h.blocked
    exact Or.inr (Or.inl ⟨_, resume, hjs, m, rfl, Or.inr (Or.inr ⟨r, h⟩)⟩)
  | finished h => exact Or.inr (Or.inr ⟨h.joined, Or.inl h⟩)
  | done h => exact Or.inr (Or.inr ⟨h.joined, Or.inr h⟩)

/-- A thread that waits does so for a call under way. -/
theorem Phase.underWay (h : Phase http traceId s) {id : Nat}
    {resume : Except Unit HostCallResult → σ} (hjs : s.js = .blocked id resume) :
    UnderWay http traceId id s := by
  rcases h.thread with ⟨state, hjs'⟩ | ⟨id', resume', hjs', hcall⟩ | ⟨⟨outcome, hjs'⟩, -⟩
  · cases hjs'.symm.trans hjs
  · cases hjs'.symm.trans hjs
    exact hcall
  · cases hjs'.symm.trans hjs

theorem Phase.ends (h : Phase http traceId s) {outcome : Except String (Except String String)}
    (hjs : s.js = .joined outcome) : Finished http traceId s ∨ Over http traceId s := by
  rcases h.thread with ⟨state, hjs'⟩ | ⟨id, resume, hjs', -⟩ | ⟨-, hend⟩
  · cases hjs'.symm.trans hjs
  · cases hjs'.symm.trans hjs
  · exact hend

theorem underWay_leadsTo (hfair : Fair turns) (id : Nat) :
    LeadsTo (ScriptRun.step http traceId lib script) s turns (UnderWay http traceId id)
      (Returned id) := by
  rintro n ⟨m, rfl, h | ⟨p, h⟩ | ⟨r, h⟩⟩
  · exact queued_leadsTo hfair n h
  · exact handling_leadsTo hfair p n h
  · exact replied_leadsTo hfair n h

end

/-- The protocol of `host.call()`, for every script and every order of turns. In each state of
    each run a message has at most one response, at most one call is under way, and a call has
    received what was computed for its own message; once `execute_script` has returned, every
    message has got exactly one response, the thread has ended, and a result counts the calls made.
    In a fair run every call returns, and the end of the script is seen. -/
theorem host_calls_served {Comp σ : Type} (http : HttpLib) (traceId : String) (lib : OptionsLib)
    (script : σ → JsStep σ) (state : σ) :
    (∀ turns : List (HostTurn Comp), Served http traceId
      (run (ScriptRun.step http traceId lib script) (ScriptRun.start state) turns)) ∧
    ∀ turns : Nat → HostTurn Comp, Fair turns →
      (∀ id resume, LeadsTo (ScriptRun.step http traceId lib script) (ScriptRun.start state) turns
        (fun s => s.js = .blocked id resume) (Returned id)) ∧
      LeadsTo (ScriptRun.step http traceId lib script) (ScriptRun.start state) turns
        (fun s => ∃ outcome, s.js = .joined outcome)
        (fun s => ∃ result, s.loop = .ended result) := by
  refine ⟨fun turns => (phase_run state turns).served, fun turns hfair => ?_⟩
  have hphase : ∀ n, Phase http traceId
      (trace (ScriptRun.step http traceId lib script) (ScriptRun.start state) turns n) := by
    intro n
    rw [trace_eq_run]
    exact phase_run state _
  constructor
  · intro id resume n hn
    exact underWay_leadsTo hfair id n ((hphase n).underWay hn)
  · rintro n ⟨outcome, hn⟩
    rcases (hphase n).ends hn with h | h
    · obtain ⟨l, hl, hover⟩ := finished_leadsTo hfair n h
      obtain ⟨result, hloop, _⟩ := hover.ended
      exact ⟨l, hl, result, hloop⟩
    · obtain ⟨result, hloop, _⟩ := h.ended
      exact ⟨n, Nat.le_refl n, result, hloop⟩

/-! ## A sample -/

/-- A host on which every module is busy. -/
def busyAnswer : (a : Action Unit) → Answer Unit a
  | .checkRequest _ => .ok ()
  | .recordSuccess _ => ()
  | .recordFailure _ => ()
  | .findSemaphore _ => some 0
  | .createSemaphore _ => 0
  | .tryAcquire _ => false
  | .release _ => ()
  | .getOrLoad _ => .error (.other "not loaded")
  | .getOrLoadModulePath _ => .error (.other "not loaded")
  | .execute _ _ => ⟨.error (.other "not executed"), 0⟩
  | .readScript _ => none
  | .serveOther _ => .error (.other "not served")

def roundRobin (n : Nat) : HostTurn Unit :=
  match n % 4 with
  | 0 => .js
  | 1 => .recv
  | 2 => .serve busyAnswer
  | _ => .join

theorem roundRobin_fair : Fair roundRobin where
  js := often_of_period 4 0 (by decide) fun n => by
    simp [roundRobin]
  recv := often_of_period 4 1 (by decide) fun n => by
    have hn : (n * 4 + 1) % 4 = 1 := by omega
    simp [roundRobin, hn]
  serve := often_of_period 4 2 (by decide) fun n => by
    have hn : (n * 4 + 2) % 4 = 2 := by omega
    simp [roundRobin, hn]
  join := often_of_period 4 3 (by decide) fun n => by
    have hn : (n * 4 + 3) % 4 = 3 := by omega
    simp [roundRobin, hn]

/-- It calls one module and returns null. -/
def oneCall : Nat → JsStep Nat
  | 0 => .hostCall "orders" "\x7b\x7d" fun _ => 1
  | _ => .finish (.ok "null")

/-- Taking turns one after the other, the one call returns. -/
theorem host_calls_served_one : ∃ n, 1 ≤ n ∧ Returned 0
    (trace (ScriptRun.step ⟨fun _ _ => none, fun _ => none, some, some, fun _ => true, id⟩ "t"
      ⟨fun _ => none, fun _ => "null"⟩ oneCall) (ScriptRun.start 0) roundRobin n) :=
  ((host_calls_served ⟨fun _ _ => none, fun _ => none, some, some, fun _ => true, id⟩ "t"
    ⟨fun _ => none, fun _ => "null"⟩ oneCall 0).2 roundRobin roundRobin_fair).1 0
      (fun _ => 1) 1 rfl

end Mik.Runtime
