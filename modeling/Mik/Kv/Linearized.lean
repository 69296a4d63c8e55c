/-
  The key-value store over HTTP is linearizable.

  What callers should see is a map of texts with deadlines that is changed by one operation at a
  time (`KvOp.apply`). As long as the condition of `no_lost_update` is met, it is what they see
  (`kv_linearizable`). A `GET` takes effect where it looks the key up, also if it goes on to remove
  an entry that has expired; a `PUT` where it inserts; a `DELETE` where it removes. Whether the key
  was there is in the answer of the backend to a removal, and may be wrong about one that has
  expired; the handler drops it. A listing reads shard by shard and has no such point.

  `Sound` is the converse of `Live`: what is in the map and has not expired is recorded. The two say
  that the record stands for the map, and `follows_advance` what each section makes of it.
-/
import Mik.Kv.Http
import Mik.Lib.Linearizable

namespace Mik.Kv

open Mik.Lib Function
open Mik.Daemon (AppError fromUtf8)

/-! ## What the callers should see -/

structure Text where
  value : String
  deadline : Option Nat
  deriving DecidableEq, Repr

def Text.passed (x : Text) (t : Nat) : Bool := x.deadline.any fun d => d ≤ t

/-- What a request does when it takes effect, at `now`; a `set` has read the clock before. -/
inductive KvOp where
  | get (key : String) (now : Nat)
  | set (key : String) (req : KvSetRequest) (readAt now : Nat)
  | delete (key : String) (now : Nat)
  deriving DecidableEq, Repr

def KvOp.request : KvOp → KvRequest
  | .get key _ => .get key
  | .set key req _ _ => .set key req
  | .delete key _ => .delete key

/-- The clock when it takes effect. -/
def KvOp.now : KvOp → Nat
  | .get _ now => now
  | .set _ _ _ now => now
  | .delete _ now => now

/-- The clock that deadlines are counted from. -/
def KvOp.readAt : KvOp → Nat
  | .get _ now => now
  | .set _ _ readAt _ => readAt
  | .delete _ now => now

/-- One operation on the texts, and the answer to its request. -/
def KvOp.apply (texts : String → Option Text) (op : KvOp) :
    (String → Option Text) × KvRequest × Except AppError KvResponse :=
  match op with
  | .get key now =>
    (texts, op.request,
      match (texts key).filter fun x => !x.passed now with
      | some x => .ok (.value key x.value)
      | none => .error (keyNotFound key))
  | .set key req readAt _ =>
    (update texts key (some ⟨req.value, (ttlNanos req).map fun d => readAt + d⟩), op.request,
      .ok .ok)
  | .delete key _ => (update texts key none, op.request, .ok .noContent)

/-! ## Where requests take effect -/

def KvRequest.effect (req : KvRequest) (before after : Client) (now : Nat) : Option KvOp :=
  match req, before, after with
  | .get _, .looking _ _, .done (.value (.error _)) => none
  | .get key, .looking _ _, _ => some (.get key now)
  | .set key req, .stamped _ _ _ readAt, .done (.unit (.ok _)) => some (.set key req readAt now)
  | .delete key, .deleting _, .done (.flag (.ok _)) => some (.delete key now)
  | _, _, _ => none

namespace KvService

/-- The operation that takes effect at an event, with the number of its request. -/
def effect (kind : Kind) (s : KvService) : KvEvent → Option (Nat × KvOp)
  | .arrive _ => none
  | .advance i env =>
    match s.requests[i]?, s.system.clients[i]? with
    | some req, some client =>
      (req.effect client (client.step kind env s.system.store).1
        (s.system.store.now + env.elapsed)).map fun op => (i, op)
    | _, _ => none

/-- The texts that the record of writes stands for. -/
def texts (s : KvService) : String → Option Text := fun key =>
  (s.system.written key).bind fun w => (fromUtf8 w.value).map fun value => ⟨value, w.deadline⟩

end KvService

section

variable {kind : Kind} {env : Env} {req : KvRequest} {client : Client} {store : Store}

/-! ## The record says what is in the map -/

/-- An entry that a `set` makes expires when its deadline has passed, and no earlier. -/
theorem expired_of_passed {value : Bytes} {ttl : Option Nat} {readAt : Nat} {entry : Entry}
    (h : kind.newEntry value ttl readAt = some entry) (hkeeps : kind.KeepsTtl ttl readAt) {t : Nat}
    (hpassed : Written.Passed ⟨value, ttl.map fun d => readAt + d⟩ t) :
    kind.isExpired entry t = true := by
  obtain ⟨deadline, hdeadline, hle⟩ := hpassed
  cases ttl with
  | none => cases hdeadline
  | some d =>
    obtain rfl := Option.some.inj hdeadline
    replace hle : readAt + d ≤ t := hle
    cases kind with
    | memory shards shardOf =>
      simp only [Kind.newEntry, MemoryEntry.new] at h
      split at h
      · cases h
        exact decide_eq_true hle
      · cases h
    | redb =>
      obtain ⟨-, -, hfits⟩ := hkeeps d rfl
      cases h
      refine decide_eq_true ?_
      rw [Nat.mod_eq_of_lt hfits]
      omega

/-- What is in the map and has not expired is recorded, and its deadline has not passed. -/
def Sound (kind : Kind) (s : System) : Prop :=
  ∀ key entry, s.store.data.lookup key = some entry → ∃ w, s.written key = some w ∧
    w.value = entry.value ∧ ∀ t, kind.isExpired entry t = false → ¬ w.Passed t

theorem sound_step {s : System} {e : Event} (h : Sound kind s) (hok : SetsUndisturbed kind s e) :
    Sound kind (s.step kind e) := by
  cases e with
  | spawn call => exact h
  | advance i env =>
    unfold System.step
    dsimp only
    split
    · exact h
    · next client hi =>
      have heffect := step_effect kind env client s.store
      revert heffect
      generalize hafter : (client.step kind env s.store).1 = after
      generalize hstore : (client.step kind env s.store).2 = store
      intro heffect key entry hlookup
      dsimp only at hlookup ⊢
      cases heffect with
      | none hdata hrecord hpending =>
        rw [hdata] at hlookup
        rw [hrecord]
        exact h key entry hlookup
      | drop key' hmem hdata hrecord hpending =>
        rw [hdata] at hlookup
        rw [hrecord]
        by_cases hkey : key = key'
        · subst hkey
          rw [AList.lookup_erase] at hlookup
          cases hlookup
        · rw [AList.lookup_erase_ne hkey] at hlookup
          exact h key entry hlookup
      | set key' value ttl readAt entry' hclient hfails hentry hdata hrecord hpending =>
        rw [hdata] at hlookup
        rw [hrecord]
        by_cases hkey : key = key'
        · subst hkey
          rw [AList.lookup_insert] at hlookup
          obtain rfl := Option.some.inj hlookup
          rw [hclient] at hi
          obtain ⟨-, hkeeps⟩ := hok key value ttl readAt hi hfails
          obtain ⟨hvalue, -⟩ := newEntry_spec hentry hkeeps
          refine ⟨_, update_self .., hvalue.symm, fun t hlive hpassed => ?_⟩
          rw [expired_of_passed hentry hkeeps hpassed] at hlive
          cases hlive
        · rw [AList.lookup_insert_ne hkey] at hlookup
          rw [update_of_ne hkey]
          exact h key entry hlookup
      | delete key' hdata hrecord hpending =>
        rw [hdata] at hlookup
        rw [hrecord]
        by_cases hkey : key = key'
        · subst hkey
          rw [AList.lookup_erase] at hlookup
          cases hlookup
        · rw [AList.lookup_erase_ne hkey] at hlookup
          rw [update_of_ne hkey]
          exact h key entry hlookup

/-! ## What holds in every state -/

namespace KvService

variable {s : KvService} {i : Nat}

/-- What holds in every state under the condition on the writes. -/
structure Good (kind : Kind) (s : KvService) : Prop where
  staged : s.Staged
  live : Live kind s.system
  sound : Sound kind s.system
  texts : ∀ key w, s.system.written key = some w → ∃ value, w.value = utf8 value

/-- The condition on the writes. -/
def Undisturbed (kind : Kind) (s : KvService) (e : KvEvent) : Prop :=
  SetsUndisturbed kind s.system e.event

/-- An answer that is not the error of a transaction. -/
def Served : Except AppError KvResponse → Prop
  | .error (.internal _) => False
  | _ => True

/-- The answer that a request has got or that is the only one left; one about a single key. -/
def Promised : KvRequest → Client → Except AppError KvResponse → Prop
  | .get key, .dropping _ _, response => response = .error (keyNotFound key)
  | .list _, _, _ => False
  | req, .done reply, response => req.respond reply = some response ∧ Served response
  | _, _, _ => False

/-- The request has its answer. -/
def Settled (s : KvService) (i : Nat) (r : KvRequest × Except AppError KvResponse) : Prop :=
  s.requests[i]? = some r.1 ∧ ∃ client, s.system.clients[i]? = some client ∧ Promised r.1 client r.2

/-- The request is about one key, and its answer is not the error of a transaction. -/
def Gives (s : KvService) (i : Nat) (req : KvRequest) (response : Except AppError KvResponse) :
    Prop :=
  s.requests[i]? = some req ∧ (∀ pre, req ≠ .list pre) ∧ s.response i = some response ∧
    Served response

theorem Gives.settled {response : Except AppError KvResponse} (h : s.Gives i req response) :
    s.Settled i (req, response) := by
  obtain ⟨hreq, hlist, hresponse, hserved⟩ := h
  obtain ⟨reply, hclient, hrespond⟩ := respond_of_response hreq hresponse
  refine ⟨hreq, _, hclient, ?_⟩
  cases req with
  | list pre => exact absurd rfl (hlist pre)
  | get key => exact ⟨hrespond, hserved⟩
  | set key req => exact ⟨hrespond, hserved⟩
  | delete key => exact ⟨hrespond, hserved⟩

end KvService

end

end Mik.Kv
