/-
  The key-value store over HTTP (`src/daemon/http/handlers/kv.rs`).

  The handlers put and get texts; a call of the backend takes several sections, between which other
  requests go on (`KvService`). Every request has a client that is at a stage of its call
  (`Stage`, `Staged`).

  Whatever fails and however the requests are interleaved, what is read has been put
  (`kv_answers_put`): the text that a `GET` returns and the keys of a listing are those of a `PUT`
  that has come, and the handler never finds a value that is no text.
-/
import Mik.Daemon.Handlers
import Mik.Daemon.Logs
import Mik.Kv.LostUpdate
import Mik.Kv.Ttl
import Mik.Lib.Decoding

namespace Mik.Kv

open Mik.Lib Function
open Mik.Daemon (AppError fromUtf8)

/-! ## The handlers -/

inductive KvRequest where
  | get (key : String)
  | set (key : String) (req : KvSetRequest)
  | delete (key : String)
  | list (pre : Option String)

inductive KvResponse where
  | value (key value : String)
  | ok
  | noContent
  | keys (keys : List String)
  deriving DecidableEq, Repr

/-- The call of the backend. -/
def KvRequest.call : KvRequest → Call
  | .get key => .lookup .get key
  | .set key req => kvSet key req
  | .delete key => .delete key
  | .list pre => .list pre

def keyNotFound (key : String) : AppError := .notFound ("Key '" ++ key ++ "' not found")

/-- `?` on an error of the backend. -/
def orInternal {α : Type} (r : Except String α) (k : α → Except AppError KvResponse) :
    Except AppError KvResponse :=
  match r with
  | .ok x => k x
  | .error text => .error (.internal text)

/-- `kv_get`, from the answer of the backend on. -/
def kvGet (key : String) (r : Except String (Option Bytes)) : Except AppError KvResponse :=
  orInternal r fun
    | none => .error (keyNotFound key)
    | some bytes =>
      match fromUtf8 bytes with
      | some value => .ok (.value key value)
      | none => .error (.internal "Value is not valid UTF-8")

/-- What the handler makes of the answer to its call. -/
def KvRequest.respond : KvRequest → Reply → Option (Except AppError KvResponse)
  | .get key, .value r => some (kvGet key r)
  | .set _ _, .unit r => some (orInternal r fun _ => .ok .ok)
  | .delete _, .flag r => some (orInternal r fun _ => .ok .noContent)
  | .list _, .keys r => some (orInternal r fun keys => .ok (.keys keys))
  | _, _ => none

/-! ## Requests in progress -/

/-- The requests that have come, and the system that works on the call of each. -/
structure KvService where
  requests : List KvRequest
  system : System

inductive KvEvent where
  | arrive (req : KvRequest)
  | advance (i : Nat) (env : Env)

def KvEvent.event : KvEvent → Event
  | .arrive req => .spawn req.call
  | .advance i env => .advance i env

namespace KvService

def step (kind : Kind) (s : KvService) (e : KvEvent) : KvService where
  requests :=
    match e with
    | .arrive req => s.requests ++ [req]
    | .advance _ _ => s.requests
  system := s.system.step kind e.event

/-- A store in which nothing has been put. -/
def empty : KvService := ⟨[], emptySystem⟩

/-- The service after events. -/
def after (kind : Kind) (events : List KvEvent) : KvService := run (step kind) empty events

/-- What a request has been answered. -/
def response (s : KvService) (i : Nat) : Option (Except AppError KvResponse) :=
  match s.requests[i]?, s.system.clients[i]? with
  | some req, some (.done reply) => req.respond reply
  | _, _ => none

end KvService

/-! ## Stages -/

def ttlNanos (req : KvSetRequest) : Option Nat := req.ttl.map fun secs => secs.toNat * 1000000000

/-- The stages of the call of a request. -/
inductive KvRequest.Stage : KvRequest → Client → Prop where
  | looking (key : String) : Stage (.get key) (.looking .get key)
  | dropping (key : String) : Stage (.get key) (.dropping .get key)
  | got (key : String) (r : Except String (Option Bytes)) : Stage (.get key) (.done (.value r))
  | setting (key : String) (req : KvSetRequest) :
      Stage (.set key req) (.setting key (utf8 req.value) (ttlNanos req))
  | stamped (key : String) (req : KvSetRequest) (readAt : Nat) :
      Stage (.set key req) (.stamped key (utf8 req.value) (ttlNanos req) readAt)
  | stored (key : String) (req : KvSetRequest) (r : Except String Unit) :
      Stage (.set key req) (.done (.unit r))
  | panicked (key : String) (req : KvSetRequest) : Stage (.set key req) .panicked
  | deleting (key : String) : Stage (.delete key) (.deleting key)
  | deleted (key : String) (r : Except String Bool) : Stage (.delete key) (.done (.flag r))
  | listing (pre : Option String) (scan : Nat) (keys expired : List String) :
      Stage (.list pre) (.listing pre scan keys expired)
  | cleaning (pre : Option String) (expired keys : List String) :
      Stage (.list pre) (.cleaning expired keys)
  | listed (pre : Option String) (r : Except String (List String)) :
      Stage (.list pre) (.done (.keys r))

theorem stage_start (req : KvRequest) : req.Stage (.start req.call) := by
  cases req with
  | get key => exact .looking key
  | set key req => exact .setting key req
  | delete key => exact .deleting key
  | list pre => exact .listing pre 0 [] []

section

variable {kind : Kind} {env : Env} {req : KvRequest} {client : Client} {store : Store}

theorem stage_step (h : req.Stage client) : req.Stage (client.step kind env store).1 := by
  cases h with
  | looking key =>
    unfold Client.step
    dsimp only
    split
    · exact .got key _
    · split
      · exact .got key _
      · split
        · exact .dropping key
        · exact .got key _
  | dropping key =>
    unfold Client.step
    dsimp only
    split
    · exact .got key _
    · exact .got key _
  | got key r => exact .got key r
  | setting key req => exact .stamped key req _
  | stamped key req readAt =>
    unfold Client.step
    dsimp only
    split
    · exact .panicked key req
    · split
      · exact .stored key req _
      · exact .stored key req _
  | stored key req r => exact .stored key req r
  | panicked key req => exact .panicked key req
  | deleting key =>
    unfold Client.step
    dsimp only
    split
    · exact .deleted key _
    · exact .deleted key _
  | deleted key r => exact .deleted key r
  | listing pre scan keys expired =>
    unfold Client.step
    dsimp only
    split
    · split
      · exact .listed pre _
      · exact .listing pre _ _ _
    · exact .cleaning pre _ _
  | cleaning pre expired keys =>
    unfold Client.step
    cases expired with
    | nil => exact .listed pre _
    | cons key expired =>
      dsimp only
      split
      · exact .cleaning pre _ _
      · exact .cleaning pre _ _
  | listed pre r => exact .listed pre r

theorem fromUtf8_utf8 (value : String) : fromUtf8 (utf8 value) = some value := by
  unfold fromUtf8
  rw [lossy_utf8, String.ofList_toList, if_pos rfl]

theorem getElem?_snoc {α : Type} {l : List α} {x y : α} {i : Nat} (h : (l ++ [x])[i]? = some y) :
    l[i]? = some y ∨ i = l.length ∧ y = x := by
  rcases Nat.lt_or_ge i l.length with hlt | hge
  · rw [List.getElem?_append_left hlt] at h
    exact Or.inl h
  · rw [List.getElem?_append_right hge] at h
    have hzero : i - l.length = 0 := by
      have := (List.getElem?_eq_some_iff.mp h).1
      simpa using this
    rw [hzero] at h
    exact Or.inr ⟨by omega, (Option.some.inj h).symm⟩

theorem getElem?_set_cases {α : Type} {l : List α} {x y : α} {i j : Nat}
    (h : (l.set i x)[j]? = some y) : l[j]? = some y ∨ i = j ∧ y = x := by
  rw [List.getElem?_set] at h
  split at h
  · split at h
    · exact Or.inr ⟨‹_›, (Option.some.inj h).symm⟩
    · cases h
  · exact Or.inl h

/-! ## Invariants of the service -/

namespace KvService

/-- Every request has a client that is at a stage of its call. -/
structure Staged (s : KvService) : Prop where
  length : s.requests.length = s.system.clients.length
  stage : ∀ (i : Nat) (req : KvRequest) (client : Client), s.requests[i]? = some req →
    s.system.clients[i]? = some client → req.Stage client

variable {s : KvService} {i : Nat}

theorem step_arrive (req : KvRequest) :
    s.step kind (.arrive req) = ⟨s.requests ++ [req],
      { s.system with clients := s.system.clients ++ [.start req.call] }⟩ := rfl

theorem step_advance (hclient : s.system.clients[i]? = some client) :
    s.step kind (.advance i env) = ⟨s.requests,
      { clients := s.system.clients.set i (client.step kind env s.system.store).1
        store := (client.step kind env s.system.store).2
        written := recordWrite client (client.step kind env s.system.store).1
          s.system.written }⟩ := by
  unfold step KvEvent.event System.step
  dsimp only
  rw [hclient]

theorem step_gone (hclient : s.system.clients[i]? = none) : s.step kind (.advance i env) = s := by
  unfold step KvEvent.event System.step
  dsimp only
  rw [hclient]

/-- A client has a request. -/
theorem Staged.request (h : s.Staged) (hclient : s.system.clients[i]? = some client) :
    ∃ req, s.requests[i]? = some req ∧ req.Stage client := by
  have hlt : i < s.requests.length := by
    rw [h.length]
    exact (List.getElem?_eq_some_iff.mp hclient).1
  exact ⟨_, List.getElem?_eq_getElem hlt, h.stage i _ client (List.getElem?_eq_getElem hlt) hclient⟩

theorem staged_step (h : s.Staged) (e : KvEvent) : (s.step kind e).Staged := by
  cases e with
  | arrive req =>
    rw [step_arrive]
    refine ⟨by simp [h.length], fun i req' client hreq hclient => ?_⟩
    rcases getElem?_snoc hreq with hreq | ⟨hi, rfl⟩
    · rcases getElem?_snoc hclient with hclient | ⟨hi, -⟩
      · exact h.stage i req' client hreq hclient
      · have hlt := (List.getElem?_eq_some_iff.mp hreq).1
        rw [h.length] at hlt
        omega
    · rcases getElem?_snoc hclient with hclient | ⟨-, rfl⟩
      · have hlt := (List.getElem?_eq_some_iff.mp hclient).1
        rw [← h.length] at hlt
        omega
      · exact stage_start req'
  | advance i env =>
    cases hclient : s.system.clients[i]? with
    | none =>
      rw [step_gone hclient]
      exact h
    | some client =>
      rw [step_advance hclient]
      refine ⟨by simpa using h.length, fun j req' client' hreq hclient' => ?_⟩
      rcases getElem?_set_cases hclient' with hclient' | ⟨rfl, rfl⟩
      · exact h.stage j req' client' hreq hclient'
      · exact stage_step (h.stage i req' client hreq hclient)

/-! ## What is read has been put -/

/-- A request to put the text has come. -/
def Put (s : KvService) (key value : String) : Prop :=
  ∃ (i : Nat) (req : KvSetRequest), s.requests[i]? = some (.set key req) ∧ req.value = value

theorem put_step {key value : String} (h : s.Put key value) (e : KvEvent) :
    (s.step kind e).Put key value := by
  obtain ⟨i, req, hreq, hvalue⟩ := h
  refine ⟨i, req, ?_, hvalue⟩
  cases e with
  | arrive req' =>
    exact (List.getElem?_append_left (List.getElem?_eq_some_iff.mp hreq).1).trans hreq
  | advance i env => exact hreq

/-- The entries of the map are texts that were put. -/
def Entries (s : KvService) : Prop :=
  ∀ key entry, s.system.store.data.lookup key = some entry →
    ∃ value, s.Put key value ∧ entry.value = utf8 value

/-- A key that a listing may return. -/
def Listable (s : KvService) (pre : Option String) (key : String) : Prop :=
  (∃ value, s.Put key value) ∧ ∀ p ∈ pre, startsWith p key = true

/-- What a request has read so far is true: a text that was put or the error of a transaction, or
    keys that may be listed. -/
def Truthful (s : KvService) : KvRequest → Client → Prop
  | .get key, .done (.value (.ok (some bytes))) => ∃ value, s.Put key value ∧ bytes = utf8 value
  | .get key, .done (.value (.error text)) =>
    ∃ stage, text = (readTexts key).error stage ∨ text = (deleteTexts key).error stage
  | .list pre, .listing _ _ keys _ | .list pre, .cleaning _ keys
  | .list pre, .done (.keys (.ok keys)) => ∀ key ∈ keys, s.Listable pre key
  | _, _ => True

theorem kvGet_text (key value : String) :
    kvGet key (.ok (some (utf8 value))) = .ok (.value key value) := by
  unfold kvGet orInternal
  dsimp only
  rw [fromUtf8_utf8]

/-- What is known of a service whatever has failed. -/
structure Honest (s : KvService) : Prop where
  staged : s.Staged
  entries : s.Entries
  truthful : ∀ (i : Nat) (req : KvRequest) (client : Client), s.requests[i]? = some req →
    s.system.clients[i]? = some client → s.Truthful req client

theorem truthful_start (req req' : KvRequest) : s.Truthful req' (.start req.call) := by
  cases req with
  | list pre =>
    cases req' with
    | list pre' => exact fun key hkey => nomatch hkey
    | get key => trivial
    | set key req => trivial
    | delete key => trivial
  | get key => cases req' <;> trivial
  | set key req => cases req' <;> trivial
  | delete key => cases req' <;> trivial

theorem lookup_of_erase {data : AList fun _ : String => Entry} {key key' : String} {entry : Entry}
    (h : (data.erase key').lookup key = some entry) : data.lookup key = some entry := by
  by_cases hkey : key = key'
  · subst hkey
    rw [AList.lookup_erase] at h
    cases h
  · rwa [AList.lookup_erase_ne hkey] at h

theorem listable_step {pre : Option String} {key : String} (h : s.Listable pre key) (e : KvEvent) :
    (s.step kind e).Listable pre key :=
  ⟨h.1.imp fun _ hput => put_step hput e, h.2⟩

theorem truthful_step (h : s.Truthful req client) (e : KvEvent) :
    (s.step kind e).Truthful req client := by
  unfold Truthful at h ⊢
  split at h
  · exact h.imp fun _ hput => ⟨put_step hput.1 e, hput.2⟩
  · exact h
  · exact fun key hkey => listable_step (h key hkey) e
  · exact fun key hkey => listable_step (h key hkey) e
  · exact fun key hkey => listable_step (h key hkey) e
  · trivial

theorem entries_step (h : s.Entries) (hs : s.Staged) (e : KvEvent) : (s.step kind e).Entries := by
  intro key entry hlookup
  have hkeep : (∃ value, s.Put key value ∧ entry.value = utf8 value) →
      ∃ value, (s.step kind e).Put key value ∧ entry.value = utf8 value :=
    fun hput => hput.imp fun _ hvalue => ⟨put_step hvalue.1 e, hvalue.2⟩
  cases e with
  | arrive req => exact hkeep (h key entry hlookup)
  | advance i env =>
    cases hclient : s.system.clients[i]? with
    | none =>
      rw [step_gone hclient] at hlookup
      exact hkeep (h key entry hlookup)
    | some client =>
      rw [step_advance hclient] at hlookup
      dsimp only at hlookup
      obtain ⟨req, hreq, hstage⟩ := hs.request hclient
      cases step_effect kind env client s.system.store with
      | none hdata hrecord hpending =>
        rw [hdata] at hlookup
        exact hkeep (h key entry hlookup)
      | drop key' hmem hdata hrecord hpending =>
        rw [hdata] at hlookup
        exact hkeep (h key entry (lookup_of_erase hlookup))
      | delete key' hdata hrecord hpending =>
        rw [hdata] at hlookup
        exact hkeep (h key entry (lookup_of_erase hlookup))
      | set key' value ttl readAt entry' hclient' hfails hentry hdata hrecord hpending =>
        rw [hdata] at hlookup
        by_cases hkey : key = key'
        · subst hkey
          rw [AList.lookup_insert] at hlookup
          obtain rfl := Option.some.inj hlookup
          rw [hclient'] at hstage
          cases hstage with
          | stamped key req readAt =>
            exact hkeep ⟨req.value, ⟨i, req, hreq, rfl⟩, value_newEntry hentry⟩
        · rw [AList.lookup_insert_ne hkey] at hlookup
          exact hkeep (h key entry hlookup)

/-- What one section reads is true. -/
theorem truthful_section (h : s.Entries) (hstage : req.Stage client)
    (htruthful : s.Truthful req client) :
    s.Truthful req (client.step kind env s.system.store).1 := by
  cases hstage with
  | looking key =>
    unfold Client.step
    dsimp only
    split
    · next stage _ => exact ⟨stage, Or.inl rfl⟩
    · split
      · trivial
      · next entry hlookup =>
        split
        · trivial
        · exact h key entry hlookup
  | dropping key =>
    unfold Client.step
    dsimp only
    split
    · next stage _ => exact ⟨stage, Or.inr rfl⟩
    · trivial
  | got key r => exact htruthful
  | setting key req => trivial
  | stamped key req readAt => trivial
  | stored key req r => trivial
  | panicked key req => trivial
  | deleting key => trivial
  | deleted key r => trivial
  | listing pre scan keys expired =>
    unfold Client.step
    dsimp only
    split
    · split
      · trivial
      · intro key hkey
        rcases List.mem_append.mp hkey with hkey | hkey
        · exact htruthful key hkey
        · obtain ⟨-, hpre, entry, hlookup, -⟩ := mem_scan.mp hkey
          refine ⟨(h key entry hlookup).imp fun _ hput => hput.1, fun p hp => ?_⟩
          rw [Option.mem_def.mp hp] at hpre
          exact hpre
    · exact htruthful
  | cleaning pre expired keys =>
    cases expired with
    | nil => exact htruthful
    | cons key expired =>
      unfold Client.step
      dsimp only
      split
      · exact htruthful
      · exact htruthful
  | listed pre r => exact htruthful

theorem honest_step (h : s.Honest) (e : KvEvent) : (s.step kind e).Honest where
  staged := staged_step h.staged e
  entries := entries_step h.entries h.staged e
  truthful := by
    intro i req client hreq hclient
    cases e with
    | arrive req' =>
      rcases getElem?_snoc hclient with hclient | ⟨-, heq⟩
      · rcases getElem?_snoc hreq with hreq | ⟨hi, -⟩
        · exact truthful_step (h.truthful i req client hreq hclient) _
        · have hlt := (List.getElem?_eq_some_iff.mp hclient).1
          rw [← h.staged.length] at hlt
          omega
      · rw [heq]
        exact truthful_start _ _
    | advance j env =>
      cases hj : s.system.clients[j]? with
      | none =>
        rw [step_gone hj] at hreq hclient ⊢
        exact h.truthful i req client hreq hclient
      | some client' =>
        have hreq' : s.requests[i]? = some req := by
          rw [step_advance hj] at hreq
          exact hreq
        rw [step_advance hj] at hclient
        rcases getElem?_set_cases hclient with hclient | ⟨rfl, rfl⟩
        · exact truthful_step (h.truthful i req client hreq' hclient) _
        · exact truthful_step (truthful_section h.entries (h.staged.stage j req client' hreq' hj)
            (h.truthful j req client' hreq' hj)) _

theorem honest_after (kind : Kind) (events : List KvEvent) : (after kind events).Honest := by
  have hempty : empty.Honest := by
    refine ⟨⟨rfl, fun _ _ _ h => ?_⟩, fun _ _ h => ?_, fun _ _ _ h => ?_⟩
    · cases h
    · cases h
    · cases h
  exact run_keeps Honest (fun _ e h => honest_step h e) hempty events

theorem respond_of_response {response : Except AppError KvResponse}
    (hreq : s.requests[i]? = some req) (h : s.response i = some response) :
    ∃ reply, s.system.clients[i]? = some (.done reply) ∧ req.respond reply = some response := by
  unfold KvService.response at h
  rw [hreq] at h
  split at h
  · next req' reply hreq' hclient =>
    obtain rfl := Option.some.inj hreq'
    exact ⟨reply, hclient, h⟩
  · cases h

/-- In every interleaving and whatever fails, a `GET` returns a text that was put, finds nothing, or
    returns the error of a transaction; and a listing returns keys that were put. -/
theorem kv_answers_put (kind : Kind) (events : List KvEvent) :
    (∀ i key response, (after kind events).requests[i]? = some (.get key) →
      (after kind events).response i = some response →
      (∃ value, (after kind events).Put key value ∧ response = .ok (.value key value)) ∨
        response = .error (keyNotFound key) ∨
        ∃ stage, response = .error (.internal ((readTexts key).error stage)) ∨
          response = .error (.internal ((deleteTexts key).error stage))) ∧
    ∀ i pre keys, (after kind events).requests[i]? = some (.list pre) →
      (after kind events).response i = some (.ok (.keys keys)) →
      ∀ key ∈ keys, (after kind events).Listable pre key := by
  have h := honest_after kind events
  constructor
  · intro i key response hreq hresponse
    obtain ⟨reply, hclient, hrespond⟩ := respond_of_response hreq hresponse
    have htrue := h.truthful i _ _ hreq hclient
    cases h.staged.stage i _ _ hreq hclient with
    | got key r =>
      have hkv : response = kvGet key r := (Option.some.inj hrespond).symm
      rw [hkv]
      cases r with
      | error text =>
        obtain ⟨stage, rfl | rfl⟩ := htrue
        · exact Or.inr (Or.inr ⟨stage, Or.inl rfl⟩)
        · exact Or.inr (Or.inr ⟨stage, Or.inr rfl⟩)
      | ok found =>
        cases found with
        | none => exact Or.inr (Or.inl rfl)
        | some bytes =>
          obtain ⟨value, hput, rfl⟩ := htrue
          exact Or.inl ⟨value, hput, kvGet_text key value⟩
  · intro i pre keys hreq hresponse
    obtain ⟨reply, hclient, hrespond⟩ := respond_of_response hreq hresponse
    have htrue := h.truthful i _ _ hreq hclient
    cases h.staged.stage i _ _ hreq hclient with
    | listed pre r =>
      cases r with
      | error text => cases hrespond
      | ok found =>
        cases hrespond
        exact htrue

end KvService

end

end Mik.Kv
