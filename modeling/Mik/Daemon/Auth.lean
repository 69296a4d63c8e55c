/-
  The key of the daemon's HTTP interface (`api_key_auth_middleware`), and the counting of its
  requests (`metrics_middleware`, `record_http_request`).

  The middleware of the key stands before every route. A request that it refuses is answered 401 and
  reaches no handler; the paths `/health` and `/metrics` are exempt. `admitted_iff` says which
  requests get through: the first `X-API-Key` must be the bytes of the key and must be readable as
  text, so that a key with other characters admits nobody. The middleware of the metrics stands
  before that one and counts every request with the status of its answer, refused ones too, and
  `GET /metrics` shows the counts to everybody.

  What the callers without the key do is seen nowhere else (`refused_unseen`): however their
  requests are interleaved with the others and with the work in the background, whatever the
  handlers are, the state behind the middleware and the other tasks are as if these requests had
  not been made, except that the metrics have the requests that were answered 401.
-/
import Mik.Daemon.Handlers
import Mik.Lib.HeaderMap
import Mik.Lib.Rely
import Mik.Runtime.HeaderText

namespace Mik.Daemon

open Mik.Lib Mik.Runtime Prog

/-! ## The metrics of the requests -/

/-- A segment that is a UUID or a number becomes a placeholder. -/
def normalizeSegment (seg : String) : String :=
  if seg.utf8ByteSize = 36 ∧ '-' ∈ seg.toList then ":id"
  else if (parseUsize seg).isSome then ":id"
  else seg

/-- `normalize_path`. -/
def normalizePath (path : String) : String :=
  let segments := (path.toList.dropWhile (· = '/')).splitOn '/'
  "/" ++ "/".intercalate (segments.map fun seg => normalizeSegment (String.ofList seg))

/-- What the counter and the histogram of the requests are told about one of them. -/
structure RequestRecord where
  method : String
  path : String
  status : Nat
  duration : Nat
  deriving DecidableEq, Repr

section

variable {A E M S B α : Type} {R : A → Type}

/-- What a task of the HTTP service does: an action of a handler, or one on the recorder. -/
inductive HttpAction (A : Type) where
  | inner (a : A)
  | recordHttpRequest (method path : String) (status : Nat)
  | renderMetrics

/-- The metrics are those of the requests, and the others. -/
def HttpReply (R : A → Type) (M : Type) : HttpAction A → Type
  | .inner a => R a
  | .recordHttpRequest _ _ _ => Unit
  | .renderMetrics => List RequestRecord × M

/-- The state behind the middleware, and what has been recorded of the requests. -/
structure HttpState (S : Type) where
  inner : S
  requests : List RequestRecord

/-- The answer to an action. The outside world tells how long a request has taken, and `others` are
    the metrics that are not about requests. -/
def answerHttp (answer : E → (a : A) → S → R a × S) (others : S → M) (outside : E × Nat) :
    (a : HttpAction A) → HttpState S → HttpReply R M a × HttpState S
  | .inner a, s =>
    ((answer outside.1 a s.inner).1, { s with inner := (answer outside.1 a s.inner).2 })
  | .recordHttpRequest method path status, s =>
    ((), { s with
      requests := s.requests ++ [⟨method, normalizePath path, status, outside.2⟩] })
  | .renderMetrics, s => ((s.requests, others s.inner), s)

abbrev HttpTask (R : A → Type) (M α : Type) := Prog (HttpAction A) (HttpReply R M) α

/-- A handler among the tasks of the service. -/
def inHttp (M : Type) : Prog A R α → HttpTask R M α
  | ret x => ret x
  | act a k => act (.inner a) fun r => inHttp M (k r)

/-! ## The middleware -/

/-- `API_KEY`: `MIK_API_KEY`, when it is set, is Unicode and is not empty. -/
def apiKey (env : Option String) : Option String := env.filter fun k => k ≠ ""

/-- What the middleware reads of a request. The names of the headers are in lower case. -/
structure RequestHead where
  method : String
  path : String
  headers : HeaderMap Bytes

/-- The answer of a handler. None answers 401. -/
structure Answered (B : Type) where
  status : Nat
  allowed : status ≠ 401
  body : B

/-- The answer of the middleware, the metrics, or what a handler returned. -/
inductive Response (M B : Type) where
  | unauthorized (text : String)
  | metrics (requests : List RequestRecord) (others : M)
  | handled (answer : Answered B)

def Response.status : Response M B → Nat
  | .unauthorized _ => 401
  | .metrics _ _ => 200
  | .handled answer => answer.status

/-- What the router has found for a request. -/
inductive Endpoint (R : A → Type) (B : Type) where
  | metricsEndpoint
  | handler (p : Prog A R (Answered B))

def Endpoint.next (M : Type) : Endpoint R B → HttpTask R M (Response M B)
  | .metricsEndpoint => act .renderMetrics fun shown => ret (.metrics shown.1 shown.2)
  | .handler p => inHttp M p >>= fun answer => ret (.handled answer)

def Exempt (path : String) : Prop := path = "/health" ∨ path = "/metrics"

instance (path : String) : Decidable (Exempt path) := inferInstanceAs (Decidable (_ ∨ _))

def providedKey (head : RequestHead) : Option String :=
  (head.headers.lookup "x-api-key").bind headerToStr

def apiKeyAuthMiddleware (key : Option String) (head : RequestHead)
    (next : HttpTask R M (Response M B)) : HttpTask R M (Response M B) :=
  match key with
  | none => next
  | some expected =>
    if Exempt head.path then next
    else
      match providedKey head with
      | some provided =>
        if utf8 provided = utf8 expected then next else ret (.unauthorized "Invalid API key")
      | none => ret (.unauthorized "Missing X-API-Key header")

def metricsMiddleware (head : RequestHead) (next : HttpTask R M (Response M B)) :
    HttpTask R M (Response M B) :=
  next >>= fun response =>
    act (.recordHttpRequest head.method head.path response.status) fun _ => ret response

/-! ## Who gets through -/

/-- The request reaches its handler. -/
def Admitted (key : Option String) (head : RequestHead) : Prop :=
  ∀ expected ∈ key, Exempt head.path ∨ (HeaderMap.values "x-api-key" head.headers).head? =
    some (utf8 expected) ∧ Readable (utf8 expected)

instance instDecidableAdmitted (key : Option String) (head : RequestHead) :
    Decidable (Admitted key head) :=
  match key with
  | none => isTrue fun _ h => nomatch h
  | some expected =>
    decidable_of_iff (Exempt head.path ∨ _ ∧ _)
      ⟨fun h _ hk => Option.some.inj hk ▸ h, fun h => h expected rfl⟩

/-- The text of a refusal: whether there was a key that can be read. -/
def refusal (head : RequestHead) : String :=
  if (providedKey head).isSome then "Invalid API key" else "Missing X-API-Key header"

theorem readable_of_headerToStr {value : Bytes} {s : String} (h : headerToStr value = some s) :
    Readable value := by
  by_contra hnot
  rw [headerToStr_eq, if_neg hnot] at h
  cases h

theorem providedKey_iff {head : RequestHead} {key : String} :
    (∃ provided, providedKey head = some provided ∧ utf8 provided = utf8 key) ↔
      (HeaderMap.values "x-api-key" head.headers).head? = some (utf8 key) ∧
        Readable (utf8 key) := by
  unfold providedKey
  rw [HeaderMap.lookup_eq_head?]
  cases (HeaderMap.values "x-api-key" head.headers).head? with
  | none => simp
  | some value =>
    rw [Option.bind_some, Option.some.injEq]
    constructor
    · rintro ⟨provided, hread, hkey⟩
      have hvalue : value = utf8 key := (utf8_of_headerToStr hread).symm.trans hkey
      exact ⟨hvalue, hvalue ▸ readable_of_headerToStr hread⟩
    · rintro ⟨rfl, hreadable⟩
      refine ⟨_, (headerToStr_eq _).trans (if_pos hreadable), utf8_of_readable hreadable⟩

/-- The middleware lets a request through, or answers by itself. -/
theorem middleware_eq (key : Option String) (head : RequestHead)
    (next : HttpTask R M (Response M B)) :
    apiKeyAuthMiddleware key head next =
      if Admitted key head then next else ret (.unauthorized (refusal head)) := by
  cases key with
  | none => exact (if_pos fun _ h => nomatch h).symm
  | some expected =>
    have hiff : Admitted (some expected) head ↔ Exempt head.path ∨
        ∃ provided, providedKey head = some provided ∧ utf8 provided = utf8 expected := by
      rw [providedKey_iff]
      exact ⟨fun h => h expected rfl, fun h k hk => Option.some.inj hk ▸ h⟩
    show (if Exempt head.path then _ else _) = _
    by_cases hexempt : Exempt head.path
    · rw [if_pos hexempt, if_pos (hiff.mpr (Or.inl hexempt))]
    · rw [if_neg hexempt]
      unfold refusal
      cases hprovided : providedKey head with
      | none =>
        rw [if_neg]
        · rfl
        · rw [hiff, hprovided]
          rintro (h | ⟨provided, h, -⟩)
          · exact hexempt h
          · cases h
      | some provided =>
        dsimp only
        by_cases hsame : utf8 provided = utf8 expected
        · rw [if_pos hsame, if_pos (hiff.mpr (Or.inr ⟨provided, hprovided, hsame⟩))]
        · rw [if_neg hsame, if_neg]
          · rfl
          · rw [hiff, hprovided]
            rintro (h | ⟨provided', h, hsame'⟩)
            · exact hexempt h
            · cases h
              exact hsame hsame'

/-- A key that is not made of visible ASCII, blanks and tabs admits no caller; any other key
    admits those who send it. -/
theorem admitted_iff {key : String} {head : RequestHead} (h : ¬ Exempt head.path) :
    Admitted (some key) head ↔ Readable (utf8 key) ∧
      (HeaderMap.values "x-api-key" head.headers).head? = some (utf8 key) := by
  constructor
  · intro hadmitted
    exact (hadmitted key rfl).elim (fun hexempt => absurd hexempt h) And.symm
  · intro hboth k hk
    exact Or.inr (Option.some.inj hk ▸ hboth.symm)

/-! ## Requests among the work of the daemon -/

structure Request (R : A → Type) (B : Type) where
  head : RequestHead
  endpoint : Endpoint R B

def Request.program (M : Type) (key : Option String) (req : Request R B) :
    HttpTask R M (Response M B) :=
  metricsMiddleware req.head (apiKeyAuthMiddleware key req.head (req.endpoint.next M))

/-- What happens to the daemon: a request arrives, it starts some work by itself, or the task of a
    number takes its next action. -/
inductive Arrival (R : A → Type) (B E : Type) where
  | request (i : Nat) (req : Request R B)
  | background (i : Nat) (p : Prog A R Unit)
  | advance (i : Nat) (outside : E) (duration : Nat)

/-- The tasks of requests return the response. -/
def Arrival.move (M : Type) (key : Option String) :
    Arrival R B E → Pool.Move (HttpAction A) (HttpReply R M) (Option (Response M B)) (E × Nat)
  | .request i req => .spawn i (req.program M key >>= fun response => ret (some response))
  | .background i p => .spawn i (inHttp M p >>= fun _ => ret none)
  | .advance i outside duration => .advance i (outside, duration)

abbrev Service (R : A → Type) (M B S : Type) :=
  Pool (HttpAction A) (HttpReply R M) (Option (Response M B)) (HttpState S)

def arrive (answer : E → (a : A) → S → R a × S) (others : S → M) (key : Option String)
    (w : Service R M B S) (a : Arrival R B E) : Service R M B S :=
  Pool.step (answerHttp answer others) w (a.move M key)

/-- Nothing is in progress, and nothing has been recorded. -/
def Service.idle (s : S) : Service R M B S := ⟨fun _ => none, ⟨s, []⟩⟩

/-- The number that an arrival is about. -/
def Arrival.index : Arrival R B E → Nat
  | .request i _ => i
  | .background i _ => i
  | .advance i _ _ => i

/-- The arrival starts a task. -/
def Arrival.starts : Arrival R B E → Bool
  | .advance _ _ _ => false
  | _ => true

/-- A request that the middleware refuses. -/
def Arrival.refused (key : Option String) : Arrival R B E → Bool
  | .request _ req => !decide (Admitted key req.head)
  | _ => false

/-- The number was given to a request that is refused. -/
def RefusedNumber (key : Option String) (arrivals : List (Arrival R B E)) (i : Nat) : Prop :=
  ∃ a ∈ arrivals, a.refused key = true ∧ a.index = i

instance instDecidableRefusedNumber (key : Option String) (arrivals : List (Arrival R B E))
    (i : Nat) : Decidable (RefusedNumber key arrivals i) :=
  inferInstanceAs (Decidable (∃ a ∈ arrivals, _ ∧ _))

/-- The number of a request that is refused is given to nothing else. -/
def Separate (key : Option String) (arrivals : List (Arrival R B E)) : Prop :=
  ∀ a ∈ arrivals, a.starts = true → RefusedNumber key arrivals a.index → a.refused key = true

/-- The other arrivals. -/
def admittedOnly (key : Option String) (arrivals : List (Arrival R B E)) :
    List (Arrival R B E) :=
  arrivals.filter fun a => ¬ RefusedNumber key arrivals a.index

/-- The requests that were not answered 401. -/
def withoutRefusals (requests : List RequestRecord) : List RequestRecord :=
  requests.filter fun record => record.status ≠ 401

/-- The second state is the first one without the refused requests in the metrics. -/
structure SameBesidesRefusals (s s' : HttpState S) : Prop where
  inner : s'.inner = s.inner
  requests : s'.requests = withoutRefusals s.requests

/-- And so is the second answer, if it is one of `GET /metrics`. -/
def SameResponse (response response' : Response M B) : Prop :=
  match response with
  | .metrics requests others => response' = .metrics (withoutRefusals requests) others
  | response => response' = response

/-- The two tasks do the same, on states that are the same besides refusals, and come to the same
    response. -/
def SameTask (answer : E → (a : A) → S → R a × S) (others : S → M) :
    HttpTask R M (Option (Response M B)) → HttpTask R M (Option (Response M B)) → Prop :=
  Prog.Agree (answerHttp answer others) SameBesidesRefusals (Option.Rel SameResponse)

/-- What is left to do for a request that is refused. -/
def refusalTask (R : A → Type) (M B : Type) (head : RequestHead) :
    HttpTask R M (Option (Response M B)) :=
  act (.recordHttpRequest head.method head.path 401) fun _ =>
    ret (some (.unauthorized (refusal head)))

variable {answer : E → (a : A) → S → R a × S} {others : S → M} {key : Option String}
  {arrivals : List (Arrival R B E)}

theorem index_move (key : Option String) (a : Arrival R B E) : (a.move M key).index = a.index := by
  cases a <;> rfl

/-! ### What a task that is let through does -/

theorem sameResponse_status {response response' : Response M B}
    (h : SameResponse response response') : response'.status = response.status := by
  cases response with
  | unauthorized text => rw [show response' = .unauthorized text from h]
  | metrics requests shown =>
    rw [show response' = .metrics (withoutRefusals requests) shown from h]
    rfl
  | handled answered => rw [show response' = .handled answered from h]

/-- A handler does not see the metrics. -/
theorem agree_inHttp (p : Prog A R α) :
    (inHttp M p).Agree (answerHttp answer others) SameBesidesRefusals Eq (inHttp M p) := by
  induction p with
  | ret x => exact ⟨x, rfl, rfl⟩
  | act a k ih =>
    refine ⟨_, rfl, fun outside s s' hs => ?_⟩
    have hinner := hs.inner
    unfold answerHttp
    dsimp only
    rw [hinner]
    exact ⟨⟨rfl, hs.requests⟩, ih _⟩

/-- An endpoint answers the same, and not 401. -/
theorem agree_next (endpoint : Endpoint R B) :
    (endpoint.next M).Agree (answerHttp answer others) SameBesidesRefusals
      (fun response response' => SameResponse response response' ∧ response.status ≠ 401)
      (endpoint.next M) := by
  cases endpoint with
  | metricsEndpoint =>
    refine ⟨_, rfl, fun outside s s' hs => ⟨hs, ⟨_, rfl, ?_, show (200 : Nat) ≠ 401 by decide⟩⟩⟩
    show Response.metrics s'.requests (others s'.inner) =
      .metrics (withoutRefusals s.requests) (others s.inner)
    rw [hs.inner, hs.requests]
  | handler p =>
    refine (agree_inHttp p).bind fun answered answered' heq => ?_
    subst heq
    exact ⟨_, rfl, rfl, answered.allowed⟩

/-- And the request is recorded under the same labels. -/
theorem agree_program {req : Request R B} (h : Admitted key req.head) :
    SameTask answer others (req.program M key >>= fun response => ret (some response))
      (req.program M key >>= fun response => ret (some response)) := by
  unfold Request.program
  rw [middleware_eq, if_pos h]
  unfold metricsMiddleware SameTask
  rw [bind_assoc]
  refine (agree_next req.endpoint).bind fun response response' ⟨hsame, hstatus⟩ => ?_
  refine ⟨fun _ => ret (some response'), ?_, fun outside s s' hs => ⟨⟨hs.inner, ?_⟩, ?_⟩⟩
  · rw [sameResponse_status hsame]
    rfl
  · show s'.requests ++ [_] = withoutRefusals (s.requests ++ [_])
    rw [hs.requests]
    unfold withoutRefusals
    rw [List.filter_append, List.filter_singleton, decide_eq_true hstatus]
    rfl
  · exact ⟨some response', rfl, .some hsame⟩

/-! ### What a task that is refused does -/

/-- A request that is refused is recorded, and that is all. -/
theorem move_of_refused {a : Arrival R B E} (h : a.refused key = true) :
    ∃ req, a = .request a.index req ∧ a.move M key = .spawn a.index (refusalTask R M B req.head) := by
  cases a with
  | request i req =>
    have hnot : ¬ Admitted key req.head := fun hadmitted => by
      simp [Arrival.refused, hadmitted] at h
    refine ⟨req, rfl, ?_⟩
    unfold Arrival.move Request.program
    dsimp only
    rw [middleware_eq, if_neg hnot]
    rfl
  | background i p => cases h
  | advance i outside duration => cases h

/-- The metrics without the requests that were answered 401 do not show it. -/
theorem unseen_record (method path : String) :
    Pool.Unseen (answerHttp answer others) SameBesidesRefusals
      (.recordHttpRequest method path 401) := by
  intro outside s s' hs
  refine ⟨hs.inner, ?_⟩
  show s'.requests = withoutRefusals (s.requests ++ [_])
  rw [hs.requests]
  unfold withoutRefusals
  rw [List.filter_append, List.filter_singleton]
  exact (List.append_nil _).symm

theorem starts_move (h : Separate key arrivals) {a : Arrival R B E} (ha : a ∈ arrivals) :
    Pool.Starts (answerHttp answer others) SameBesidesRefusals (Option.Rel SameResponse)
      (RefusedNumber key arrivals) (a.move M key) := by
  by_cases hrefused : a.refused key = true
  · obtain ⟨req, -, hmove⟩ := move_of_refused (M := M) hrefused
    rw [hmove]
    exact ⟨fun _ => ⟨unseen_record _ _, fun _ _ => trivial⟩,
      fun hno => absurd ⟨a, ha, hrefused, rfl⟩ hno⟩
  · cases a with
    | advance i outside duration => trivial
    | background i p =>
      refine ⟨fun hnumber => absurd (h _ ha rfl hnumber) hrefused, fun _ => ?_⟩
      exact (agree_inHttp p).bind fun _ _ _ => ⟨none, rfl, .none⟩
    | request i req =>
      refine ⟨fun hnumber => absurd (h _ ha rfl hnumber) hrefused, fun _ => ?_⟩
      refine agree_program ?_
      by_contra hno
      exact hrefused (by simp [Arrival.refused, hno])

/-- The tasks under the numbers of refused requests are these requests, recorded or not. -/
def Refusals (key : Option String) (arrivals : List (Arrival R B E)) (w : Service R M B S) : Prop :=
  ∀ i p, RefusedNumber key arrivals i → w.tasks i = some p →
    ∃ req, .request i req ∈ arrivals ∧
      (p = refusalTask R M B req.head ∨ p = ret (some (.unauthorized (refusal req.head))))

theorem refusals_arrive (h : Separate key arrivals) {w : Service R M B S}
    (hw : Refusals key arrivals w) {a : Arrival R B E} (ha : a ∈ arrivals) :
    Refusals key arrivals (arrive answer others key w a) := by
  intro i p hi hp
  by_cases hindex : i = a.index
  · subst hindex
    cases hstarts : a.starts with
    | true =>
      obtain ⟨req, hreq, hmove⟩ := move_of_refused (M := M) (h a ha hstarts hi)
      unfold arrive at hp
      rw [hmove] at hp
      cases htask : w.tasks a.index with
      | none =>
        rw [Pool.step_spawn_of_none _ htask] at hp
        have heq := (if_pos rfl).symm.trans hp
        exact ⟨req, hreq ▸ ha, .inl (Option.some.inj heq).symm⟩
      | some q =>
        rw [Pool.step_spawn_of_some _ htask] at hp
        exact hw _ p hi hp
    | false =>
      cases a with
      | request i req => cases hstarts
      | background i p => cases hstarts
      | advance i outside duration =>
        change (Pool.step _ w (.advance i (outside, duration))).tasks i = some p at hp
        cases htask : w.tasks i with
        | none =>
          rw [Pool.step_advance_of_none _ htask, htask] at hp
          cases hp
        | some q =>
          obtain ⟨req, hreq, rfl | rfl⟩ := hw i q hi htask
          · rw [Pool.step_advance_act _ htask] at hp
            have heq := (if_pos rfl).symm.trans hp
            exact ⟨req, hreq, .inr (Option.some.inj heq).symm⟩
          · rw [Pool.step_advance_ret _ htask] at hp
            have heq := (if_pos rfl).symm.trans hp
            cases heq
  · have hne : i ≠ (a.move M key).index := fun heq => hindex (heq.trans (index_move key a))
    unfold arrive at hp
    rw [Pool.tasks_step_of_ne hne] at hp
    exact hw i p hi hp

/-- In every interleaving, whatever the handlers are, the state behind the middleware and the other
    tasks are as if the requests that are refused had not been made, besides the metrics, which
    have the requests that were answered 401. Those are answered by what their heads say. -/
theorem refused_unseen (answer : E → (a : A) → S → R a × S) (others : S → M)
    (env : Option String) (s : S) (arrivals : List (Arrival R B E))
    (hseparate : Separate (apiKey env) arrivals) :
    let w := run (arrive answer others (apiKey env)) (Service.idle s) arrivals
    let w' := run (arrive answer others (apiKey env)) (Service.idle s)
      (admittedOnly (apiKey env) arrivals)
    SameBesidesRefusals w.state w'.state ∧ ∀ i,
      (¬ RefusedNumber (apiKey env) arrivals i →
        Option.Rel (SameTask answer others) (w.tasks i) (w'.tasks i)) ∧
      (RefusedNumber (apiKey env) arrivals i → ∀ p, w.tasks i = some p →
        ∃ req, .request i req ∈ arrivals ∧
          (p = refusalTask R M B req.head ∨
            p = ret (some (.unauthorized (refusal req.head))))) := by
  intro w w'
  have hrun : ∀ l : List (Arrival R B E),
      run (arrive answer others (apiKey env)) (Service.idle s) l =
        run (Pool.step (answerHttp answer others)) (Service.idle s)
          (l.map (Arrival.move M (apiKey env))) :=
    fun _ => run_map (Arrival.move M (apiKey env)) _ _
  have hmoves : ∀ m ∈ arrivals.map (Arrival.move M (apiKey env)),
      Pool.Starts (answerHttp answer others) SameBesidesRefusals (Option.Rel SameResponse)
        (RefusedNumber (apiKey env) arrivals) m := by
    intro m hm
    obtain ⟨a, ha, rfl⟩ := List.mem_map.mp hm
    exact starts_move hseparate ha
  have hfilter : (admittedOnly (apiKey env) arrivals).map (Arrival.move M (apiKey env)) =
      (arrivals.map (Arrival.move M (apiKey env))).filter
        fun m => ¬ RefusedNumber (apiKey env) arrivals m.index := by
    rw [List.filter_map]
    refine congrArg _ (List.filter_congr fun a _ => ?_)
    rw [Function.comp_apply, index_move]
  have hstart : Pool.AgreeBut (answerHttp answer others) SameBesidesRefusals
      (Option.Rel SameResponse) (RefusedNumber (apiKey env) arrivals)
      (Service.idle s : Service R M B S) (Service.idle s) :=
    ⟨⟨rfl, rfl⟩, fun _ _ => .none, fun _ _ _ h => nomatch h⟩
  have hsame := Pool.run_without hstart hmoves
  rw [← hfilter, ← hrun, ← hrun] at hsame
  have hrefusals : Refusals (apiKey env) arrivals w :=
    run_invariant (fun _ _ _ h => nomatch h)
      (fun _ a hw (ha : a ∈ arrivals) => refusals_arrive hseparate hw ha)
      (along_of_mem fun _ ha _ => ha)
  exact ⟨hsame.state, fun i => ⟨hsame.tasks i, fun hi p hp => hrefusals i p hi hp⟩⟩

end

/-! ## The handlers of the daemon -/

def AppError.status : AppError → Nat
  | .notFound _ => 404
  | .badRequest _ => 400
  | .conflict _ => 409
  | .internal _ => 500
  | .serviceUnavailable _ => 503

theorem AppError.status_ne (e : AppError) : e.status ≠ 401 := by
  cases e with
  | notFound message => exact show (404 : Nat) ≠ 401 by decide
  | badRequest message => exact show (400 : Nat) ≠ 401 by decide
  | conflict message => exact show (409 : Nat) ≠ 401 by decide
  | internal message => exact show (500 : Nat) ≠ 401 by decide
  | serviceUnavailable message => exact show (503 : Nat) ≠ 401 by decide

/-- The answer of a handler that succeeds with the status `ok`. -/
def answered (ok : Nat) (hok : ok ≠ 401) : Result Unit → Answered (Result Unit)
  | .ok u => ⟨ok, hok, .ok u⟩
  | .error e => ⟨e.status, e.status_ne, .error e⟩

/-- A handler of the instances or of the jobs; it answers 201 when it has started an instance, and
    200 otherwise. -/
def Activity.endpoint (activity : Activity) : Endpoint Reply (Result Unit) :=
  .handler (activity.program >>= fun r => ret (match activity with
    | .startInstance _ => answered 201 (by decide) r
    | _ => answered 200 (by decide) r))

/-- A caller that deletes a job, with the headers it sends. -/
def deleteDaily (headers : HeaderMap Bytes) : Request Reply (Result Unit) where
  head := ⟨"DELETE", "/cron/daily", headers⟩
  endpoint := (Activity.cronDelete "daily").endpoint

/-- A caller without the key and one that has it. -/
def bothCallers : List (Arrival Reply (Result Unit) Outside) :=
  [.request 0 (deleteDaily []), .request 1 (deleteDaily [("x-api-key", utf8 "secret")]),
    .advance 0 .calm 1, .advance 1 .calm 1, .advance 1 .calm 1]

theorem separate_bothCallers : Separate (apiKey (some "secret")) bothCallers := by
  have hkey : Admitted (apiKey (some "secret"))
      (deleteDaily [("x-api-key", utf8 "secret")]).head := by
    intro expected h
    obtain rfl := Option.some.inj h
    have hchars : ∀ c ∈ "secret".toList, c.toNat < 0x80 ∧ TextByte (UInt8.ofNat c.toNat) := by
      simp [TextByte]
    exact Or.inr ⟨rfl, readable_of_headerToStr (headerToStr_utf8 hchars)⟩
  have hkeyless : ¬ Admitted (apiKey (some "secret")) (deleteDaily []).head := by
    intro h
    rcases h "secret" rfl with hexempt | ⟨hsent, -⟩
    · exact absurd hexempt (show ¬ Exempt "/cron/daily" by decide)
    · cases hsent
  have honly : ∀ a ∈ bothCallers, a.refused (apiKey (some "secret")) = true →
      a = .request 0 (deleteDaily []) := by
    intro a ha hrefused
    simp only [bothCallers, List.mem_cons, List.not_mem_nil, or_false] at ha
    rcases ha with rfl | rfl | rfl | rfl | rfl
    · rfl
    · simp [Arrival.refused, hkey] at hrefused
    · cases hrefused
    · cases hrefused
    · cases hrefused
  intro a ha hstarts hnumber
  obtain ⟨b, hb, hrefused, hindex⟩ := hnumber
  obtain rfl := honly b hb hrefused
  simp only [bothCallers, List.mem_cons, List.not_mem_nil, or_false] at ha
  rcases ha with rfl | rfl | rfl | rfl | rfl
  · exact decide_eq_true hkeyless
  · cases hindex
  · cases hstarts
  · cases hstarts
  · cases hstarts

theorem keyless_unseen :
    (run (arrive (answer fun _ => true) (fun _ => ()) (apiKey (some "secret"))) (Service.idle .empty)
        bothCallers).state.inner =
      (run (arrive (answer fun _ => true) (fun _ => ()) (apiKey (some "secret")))
        (Service.idle .empty) (admittedOnly (apiKey (some "secret")) bothCallers)).state.inner :=
  (refused_unseen (answer fun _ => true) (fun _ => ()) (some "secret") .empty bothCallers
    separate_bothCallers).1.inner.symm

end Mik.Daemon
