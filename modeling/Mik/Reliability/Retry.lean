/-
  Retrying transient errors (`src/reliability/retry.rs`), and the operations that are retried
  (`src/registry.rs`, `src/commands/pull.rs`).

  `is_transient_error` reads the text that an `anyhow` error displays, which is its outermost
  message alone. `context` puts a message on top, so what is asked afterwards is whether that
  message sounds transient (`isTransientError_context`). The operations put a message on every
  error of the library they call before the error gets to the classifier, and none of these
  messages does (`transience_wrapped_iff`).

  Parameters are `str::to_lowercase`, of which it is assumed what it does to ASCII texts, and the
  `backon` crate behind `retry_anyhow`, with what it documents. The delays are left out. The loop of
  `Mik.Config.Registry`, which has the requests instead of their number, is the same one
  (`retrySync_registry`).
-/
import Mik.Config.Registry

namespace Mik.Reliability

open Mik.Lib Mik.Config

/-! ## Errors -/

/-- An `anyhow::Error`: the outermost message, and those underneath. -/
structure AnyError where
  message : String
  causes : List String
  deriving DecidableEq, Repr

/-- `to_string`; the messages underneath are not shown. -/
def AnyError.toString (e : AnyError) : String := e.message

def AnyError.context (e : AnyError) (message : String) : AnyError :=
  ⟨message, e.message :: e.causes⟩

/-- `Context::context`. -/
def withContext {T : Type} (message : String) : Except AnyError T → Except AnyError T
  | .ok x => .ok x
  | .error e => .error (e.context message)

def connectionPhrases : List String :=
  ["connection refused", "connection reset", "connection closed", "broken pipe",
    "network unreachable", "host unreachable"]

def timeoutPhrases : List String := ["timed out", "timeout", "deadline exceeded"]

def statusPhrases : List String :=
  ["status: 5", "500", "502", "503", "504", "408", "429", "too many requests",
    "service unavailable", "gateway timeout", "bad gateway"]

def ioPhrases : List String :=
  ["resource temporarily unavailable", "try again", "interrupted", "would block"]

def lockPhrases : List String := ["database is locked", "busy"]

section

variable (lower : String → String)

/-- A text matches one of the transient patterns. -/
def isTransientText (text : String) : Bool :=
  let msg := lower text
  connectionPhrases.any (fun phrase => containsText phrase msg) ||
    timeoutPhrases.any (fun phrase => containsText phrase msg) ||
    (containsText "dns" msg && (containsText "temporary" msg || containsText "again" msg)) ||
    statusPhrases.any (fun phrase => containsText phrase msg) ||
    ioPhrases.any (fun phrase => containsText phrase msg) ||
    lockPhrases.any (fun phrase => containsText phrase msg)

def isTransientError (error : AnyError) : Bool := isTransientText lower error.toString

end

/-! ## Retrying -/

/-- How often an operation was called, and what the last call came to. -/
structure Calls (T : Type) where
  count : Nat
  result : Except AnyError T

/-- One call before these. -/
def Calls.after {T : Type} (calls : Calls T) : Calls T := ⟨calls.count + 1, calls.result⟩

/-- `retry_sync`, from an attempt on with so many retries left. -/
def retrySync {T : Type} (transient : AnyError → Bool) (operation : Nat → Except AnyError T)
    (attempt : Nat) : (left : Nat) → Calls T
  | 0 => ⟨1, operation attempt⟩
  | left + 1 =>
    match operation attempt with
    | .ok x => ⟨1, .ok x⟩
    | .error e =>
      if transient e then (retrySync transient operation (attempt + 1) left).after
      else ⟨1, .error e⟩

/-- `operation.retry(backoff).when(retryable)` of `backon`, with so many retries. -/
structure Backon where
  retry : {T : Type} → Nat → (AnyError → Bool) → (Nat → Except AnyError T) → Calls T

/-- What it documents: it stops at a success, at an error that is not retryable, and when the
    backoff is used up, and otherwise goes on with the next attempt. -/
structure Backon.Documented (b : Backon) : Prop where
  succeeds : ∀ {T : Type} n retryable (operation : Nat → Except AnyError T) x,
    operation 0 = .ok x → b.retry n retryable operation = ⟨1, .ok x⟩
  refuses : ∀ {T : Type} n retryable (operation : Nat → Except AnyError T) e,
    operation 0 = .error e → retryable e = false →
      b.retry n retryable operation = ⟨1, .error e⟩
  exhausted : ∀ {T : Type} retryable (operation : Nat → Except AnyError T) e,
    operation 0 = .error e → b.retry 0 retryable operation = ⟨1, .error e⟩
  again : ∀ {T : Type} n retryable (operation : Nat → Except AnyError T) e,
    operation 0 = .error e → retryable e = true →
      b.retry (n + 1) retryable operation
        = (b.retry n retryable fun attempt => operation (attempt + 1)).after

/-- `retry_anyhow`. -/
def retryAnyhow {T : Type} (b : Backon) (lower : String → String) (maxRetries : Nat)
    (operation : Nat → Except AnyError T) : Calls T :=
  b.retry maxRetries (isTransientError lower) operation

/-! ## The operations that are retried -/

section

variable (b : Backon) (lower : String → String) {T : Type}

/-- `download_from_url`; `call` is what the HTTP client comes to at each attempt. -/
def downloadFromUrl (call : Nat → Except AnyError T) : Calls T :=
  retrySync (isTransientError lower)
    (fun attempt => withContext "HTTP request failed" (call attempt)) 0 networkRetries

/-- The manifest in `pull_oci`. -/
def pullManifest (pull : Nat → Except AnyError T) : Calls T :=
  retryAnyhow b lower networkRetries
    (fun attempt => withContext "Failed to pull manifest" (pull attempt))

/-- The blob in `pull_oci`. -/
def pullBlob (pull : Nat → Except AnyError T) : Calls T :=
  retryAnyhow b lower networkRetries
    (fun attempt => withContext "Failed to pull blob" (pull attempt))

/-- `fetch_updates`, where libgit2 is asked for the remote and then to fetch from it. -/
def fetchUpdates {Remote : Type} (findRemote : Nat → Except AnyError Remote)
    (fetch : Nat → Remote → Except AnyError Unit) : Calls Unit :=
  retrySync (isTransientError lower)
    (fun attempt => do
      let remote ← withContext "Failed to find 'origin' remote" (findRemote attempt)
      withContext "Failed to fetch updates from remote" (fetch attempt remote)) 0 networkRetries

end

/-! ## The law -/

/-- `str::to_lowercase` lowers the letters of an ASCII text. -/
def LowersAscii (lower : String → String) : Prop :=
  ∀ s, (s.toList.all fun c => decide (c.toNat < 128)) = true → lower s = toAsciiLowercase s

/-- If the library reports a transient error at first, the operation is called again. -/
def RetriesTransient {T U : Type} (lower : String → String) (first : Except AnyError T)
    (calls : Calls U) : Prop :=
  ∀ e, first = .error e → isTransientError lower e = true → 1 < calls.count

/-- What `fetch_updates` gets from the library at its first attempt. -/
def fetched {Remote : Type} (findRemote : Nat → Except AnyError Remote)
    (fetch : Nat → Remote → Except AnyError Unit) : Except AnyError Unit := do
  let remote ← findRemote 0
  fetch 0 remote

section

variable {lower : String → String} {T : Type} {transient : AnyError → Bool}

/-- Only the message on top counts. -/
theorem isTransientError_context (lower : String → String) (e : AnyError) (message : String) :
    isTransientError lower (e.context message) = isTransientText lower message := rfl

theorem isTransientText_ascii (h : LowersAscii lower) {s : String}
    (hs : (s.toList.all fun c => decide (c.toNat < 128)) = true) :
    isTransientText lower s = isTransientText toAsciiLowercase s := by
  unfold isTransientText
  rw [h s hs]

/-- On ASCII texts it is the classifier of `Mik.Config.Registry`. -/
theorem isTransientText_eq (s : String) :
    isTransientText toAsciiLowercase s = Config.isTransientError s := by
  have hphrases : transientPhrases = connectionPhrases ++ (timeoutPhrases ++ (statusPhrases ++
      (ioPhrases ++ lockPhrases))) := rfl
  unfold isTransientText Config.isTransientError
  rw [hphrases]
  simp only [List.any_append, Bool.or_assoc]
  -- the lookup of names stands third in one and last in the other
  generalize (containsText "dns" (toAsciiLowercase s) && _) = dns
  rw [Bool.or_comm dns]
  simp only [Bool.or_assoc]

/-- The loop of `Mik.Config.Registry`, whose errors are ASCII texts, makes the request of each
    attempt that is made here, and comes to the same. -/
theorem retrySync_registry (operation : Nat → GetRequest × Except String T)
    (attempt retries : Nat) :
    let calls := retrySync (isTransientError toAsciiLowercase)
      (fun n => (operation n).2.mapError fun e => ⟨e, []⟩) attempt retries
    (Config.retrySync operation attempt retries).1 =
        (List.range calls.count).map (fun n => (operation (attempt + n)).1) ∧
      (Config.retrySync operation attempt retries).2.mapError (fun e => ⟨e, []⟩) =
        calls.result := by
  induction retries generalizing attempt with
  | zero => exact ⟨rfl, rfl⟩
  | succ retries ih =>
    unfold retrySync Config.retrySync
    cases hattempt : operation attempt with
    | mk request result =>
    have hrequest : (operation (attempt + 0)).1 = request := by rw [Nat.add_zero, hattempt]
    cases result with
    | ok x => exact ⟨congrArg (fun r => [r]) hrequest.symm, rfl⟩
    | error e =>
      have htransient : isTransientError toAsciiLowercase ⟨e, []⟩ = Config.isTransientError e :=
        isTransientText_eq e
      dsimp only [Except.mapError]
      rw [htransient]
      cases Config.isTransientError e with
      | false => exact ⟨congrArg (fun r => [r]) hrequest.symm, rfl⟩
      | true =>
        obtain ⟨hrequests, hresult⟩ := ih (attempt + 1)
        refine ⟨?_, hresult⟩
        show request :: (Config.retrySync operation (attempt + 1) retries).1 = _
        rw [hrequests]
        unfold Calls.after
        rw [if_pos rfl, List.range_succ_eq_map, List.map_cons, hrequest, List.map_map]
        refine congrArg _ (List.map_congr_left fun n _ => ?_)
        rw [Function.comp_apply, Nat.succ_eq_add_one, Nat.add_assoc, Nat.add_comm 1 n]

/-- None of the messages that the operations put on top sounds transient. -/
theorem contexts_permanent (h : LowersAscii lower) {message : String}
    (hmessage : message ∈ ["HTTP request failed", "Failed to pull manifest", "Failed to pull blob",
      "Failed to find 'origin' remote", "Failed to fetch updates from remote"]) :
    isTransientText lower message = false := by
  have hplain : ∀ message ∈ ["HTTP request failed", "Failed to pull manifest",
      "Failed to pull blob", "Failed to find 'origin' remote",
      "Failed to fetch updates from remote"],
      (message.toList.all fun c => decide (c.toNat < 128)) = true ∧
        isTransientText toAsciiLowercase message = false := by
    decide +kernel
  obtain ⟨hascii, hpermanent⟩ := hplain message hmessage
  rw [isTransientText_ascii h hascii]
  exact hpermanent

/-- Without a transient error at the first attempt there is no other one. -/
theorem retrySync_once {operation : Nat → Except AnyError T} {attempt : Nat}
    (h : ∀ e, operation attempt = .error e → transient e = false) (left : Nat) :
    (retrySync transient operation attempt left).count = 1 := by
  cases left with
  | zero => rfl
  | succ left =>
    unfold retrySync
    cases hfirst : operation attempt with
    | ok x => rfl
    | error e =>
      dsimp only
      rw [h e hfirst]
      rfl

theorem retrySync_shift (operation : Nat → Except AnyError T) (attempt left : Nat) :
    retrySync transient (fun n => operation (n + 1)) attempt left
      = retrySync transient operation (attempt + 1) left := by
  induction left generalizing attempt with
  | zero => rfl
  | succ left ih =>
    unfold retrySync
    rw [ih]

/-- What `backon` documents is what `retry_sync` does. -/
theorem backon_eq {b : Backon} (hb : b.Documented) (operation : Nat → Except AnyError T)
    (n : Nat) : b.retry n transient operation = retrySync transient operation 0 n := by
  induction n generalizing operation with
  | zero =>
    unfold retrySync
    cases hfirst : operation 0 with
    | ok x => exact hb.succeeds 0 transient operation x hfirst
    | error e => exact hb.exhausted transient operation e hfirst
  | succ n ih =>
    unfold retrySync
    cases hfirst : operation 0 with
    | ok x => exact hb.succeeds (n + 1) transient operation x hfirst
    | error e =>
      dsimp only
      by_cases htransient : transient e = true
      · rw [if_pos htransient, hb.again n transient operation e hfirst htransient, ih,
          retrySync_shift]
      · rw [if_neg htransient]
        exact hb.refuses (n + 1) transient operation e hfirst (Bool.eq_false_iff.mpr htransient)

/-- An error with a message on top that does not sound transient is not retried. -/
theorem error_of_withContext {message : String} {r : Except AnyError T} {e : AnyError}
    (hmessage : isTransientText lower message = false) (h : withContext message r = .error e) :
    isTransientError lower e = false := by
  cases r with
  | ok x => cases h
  | error e' =>
    rw [← Except.error.inj h]
    exact hmessage

/-- What is called once retries nothing. -/
theorem retriesTransient_iff_of_once {U : Type} {first : Except AnyError T} {calls : Calls U}
    (h : calls.count = 1) :
    RetriesTransient lower first calls ↔
      ∀ e, first = .error e → isTransientError lower e = false := by
  unfold RetriesTransient
  rw [h]
  constructor
  · intro hretries e he
    exact Bool.eq_false_iff.mpr fun htransient => Nat.lt_irrefl 1 (hretries e he htransient)
  · intro hnone e he htransient
    rw [hnone e he] at htransient
    cases htransient

end

/-- Putting a message that sounds permanent on an error keeps its class exactly when it was not
    transient. So the retried operations call the library once, whatever it reports, and where it
    reports a transient error that is not retried. -/
theorem transience_wrapped_iff {lower : String → String} (hlower : LowersAscii lower) {b : Backon}
    (hb : b.Documented) :
    (∀ (e : AnyError) message, isTransientText lower message = false →
      (isTransientError lower (e.context message) = isTransientError lower e ↔
        isTransientError lower e = false)) ∧
    (∀ {T : Type} (call : Nat → Except AnyError T),
      (downloadFromUrl lower call).count = 1 ∧
      (RetriesTransient lower (call 0) (downloadFromUrl lower call) ↔
        ∀ e, call 0 = .error e → isTransientError lower e = false)) ∧
    (∀ {T : Type} (pull : Nat → Except AnyError T),
      (pullManifest b lower pull).count = 1 ∧ (pullBlob b lower pull).count = 1 ∧
      (RetriesTransient lower (pull 0) (pullManifest b lower pull) ↔
        ∀ e, pull 0 = .error e → isTransientError lower e = false) ∧
      (RetriesTransient lower (pull 0) (pullBlob b lower pull) ↔
        ∀ e, pull 0 = .error e → isTransientError lower e = false)) ∧
    (∀ {Remote : Type} (findRemote : Nat → Except AnyError Remote)
        (fetch : Nat → Remote → Except AnyError Unit),
      (fetchUpdates lower findRemote fetch).count = 1 ∧
      (RetriesTransient lower (fetched findRemote fetch) (fetchUpdates lower findRemote fetch) ↔
        ∀ e, fetched findRemote fetch = .error e → isTransientError lower e = false)) := by
  refine ⟨fun e message hmessage => ?_, fun call => ?_, fun pull => ?_, fun findRemote fetch => ?_⟩
  · rw [isTransientError_context, hmessage]
    exact eq_comm
  · have honce : (downloadFromUrl lower call).count = 1 :=
      retrySync_once (fun e => error_of_withContext (contexts_permanent hlower (by simp))) _
    exact ⟨honce, retriesTransient_iff_of_once honce⟩
  · have hmanifest : (pullManifest b lower pull).count = 1 := by
      unfold pullManifest retryAnyhow
      rw [backon_eq hb]
      exact retrySync_once (fun e => error_of_withContext (contexts_permanent hlower (by simp))) _
    have hblob : (pullBlob b lower pull).count = 1 := by
      unfold pullBlob retryAnyhow
      rw [backon_eq hb]
      exact retrySync_once (fun e => error_of_withContext (contexts_permanent hlower (by simp))) _
    exact ⟨hmanifest, hblob, retriesTransient_iff_of_once hmanifest,
      retriesTransient_iff_of_once hblob⟩
  · have honce : (fetchUpdates lower findRemote fetch).count = 1 := by
      refine retrySync_once (fun e he => ?_) _
      cases hfind : findRemote 0 with
      | error found =>
        rw [hfind] at he
        exact error_of_withContext (contexts_permanent hlower (by simp))
          (show withContext "Failed to find 'origin' remote" (.error found : Except _ Unit) = _
            from he)
      | ok remote =>
        rw [hfind] at he
        exact error_of_withContext (contexts_permanent hlower (by simp))
          (show withContext "Failed to fetch updates from remote" (fetch 0 remote) = _ from he)
    exact ⟨honce, retriesTransient_iff_of_once honce⟩

/-- `backon` as it documents itself. -/
def sampleBackon : Backon := ⟨fun n retryable operation => retrySync retryable operation 0 n⟩

theorem sampleBackon_documented : sampleBackon.Documented where
  succeeds n retryable operation x h := by
    cases n with
    | zero => simp [sampleBackon, retrySync, h]
    | succ n => simp [sampleBackon, retrySync, h]
  refuses n retryable operation e h hretryable := by
    cases n with
    | zero => simp [sampleBackon, retrySync, h]
    | succ n => simp [sampleBackon, retrySync, h, hretryable]
  exhausted retryable operation e h := by simp [sampleBackon, retrySync, h]
  again n retryable operation e h hretryable := by
    simp [sampleBackon, retrySync, h, hretryable, retrySync_shift]

/-- A connection that is reset at every attempt. -/
def connectionReset (_ : Nat) : Except AnyError Unit := .error ⟨"connection reset by peer", []⟩

theorem transience_wrapped_reset :
    (pullManifest sampleBackon toAsciiLowercase connectionReset).count = 1 :=
  ((transience_wrapped_iff (fun _ _ => rfl) sampleBackon_documented).2.2.1 connectionReset).1

/-- It is not even tried a second time. -/
theorem reset_not_retried :
    isTransientError toAsciiLowercase ⟨"connection reset by peer", []⟩ = true ∧
    isTransientText toAsciiLowercase "HTTP request failed" = false ∧
    isTransientError toAsciiLowercase
      ((⟨"connection reset by peer", []⟩ : AnyError).context "HTTP request failed") = false ∧
    ¬ RetriesTransient toAsciiLowercase (connectionReset 0)
      (downloadFromUrl toAsciiLowercase connectionReset) := by
  have htransient : isTransientError toAsciiLowercase ⟨"connection reset by peer", []⟩ = true := by
    decide
  have hpermanent : isTransientText toAsciiLowercase "HTTP request failed" = false :=
    contexts_permanent (fun _ _ => rfl) (by simp)
  have honce : (downloadFromUrl toAsciiLowercase connectionReset).count = 1 :=
    retrySync_once (fun e => error_of_withContext hpermanent) _
  refine ⟨htransient, hpermanent, hpermanent, fun h => ?_⟩
  exact absurd (h _ rfl htransient) (by rw [honce]; decide)

end Mik.Reliability
