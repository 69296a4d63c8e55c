/-
  Whole histories of `reliability::CircuitBreaker`: the state a key reads as, and what it says
  about the calls made so far.

  A key with no entry is treated by every operation as one that is Closed with no failures, so the
  state it reads as (`get_state`) follows an automaton of its own, `CircuitState.next`, which
  `getState_exec` connects to the calls. In Closed the stored count is the number of failures
  recorded since the key last started anew (`closed_counting`). In Open the stored instant is that
  of the latest failure, so that for the length of the timeout every request is refused
  (`open_refuses`).
-/
import Mathlib.Data.List.Induction
import Mik.Reliability.Inspection

namespace Mik.Reliability

open Mik.Lib

/-! ## The automaton of one key -/

/-- What an `Op` leaves of a state that is stored. -/
def Op.result : Op → CircuitState → CircuitState
  | .nop, s => s
  | .put s', _ => s'

/-- The state a call on the key takes it to. -/
def CircuitState.next (config : CircuitBreakerConfig) (s : CircuitState) : Call → CircuitState
  | .checkRequest _ elapsedAt startedAt =>
    (checkDecision config elapsedAt startedAt (some s)).1.result s
  | .recordSuccess _ => (successOp (some s)).result s
  | .recordFailure _ now => (failureOp config.failureThreshold now (some s)).result s
  | .reset _ => .closed 0
  | .evict _ => .closed 0

theorem getD_apply_some (op : Op) (s : CircuitState) :
    (op.apply (some s)).getD (.closed 0) = op.result s := by
  cases op <;> rfl

/-- A call on a key that has no entry does what it does on one that is Closed with no failures. -/
theorem failureOp_none (threshold now : Nat) :
    failureOp threshold now none = failureOp threshold now (some (.closed 0)) := by
  simp [failureOp, saturatingAdd, u32Max]

section

variable (cb : CircuitBreaker) (c : Call) {key : String}

theorem getState_exec_of_ne (h : key ≠ c.key) : (cb.exec c).getState key = cb.getState key := by
  unfold CircuitBreaker.getState
  rw [lookup_exec_of_ne cb c h]

/-- The state a key reads as moves by the automaton. -/
theorem getState_exec (h : c.key = key) :
    (cb.exec c).getState key = (cb.getState key).next cb.config c := by
  unfold CircuitBreaker.getState
  cases c with
  | checkRequest k a b =>
    obtain rfl : k = key := h
    simp only [CircuitBreaker.exec, lookup_checkRequest]
    cases cb.states.lookup k with
    | none => rfl
    | some s => exact getD_apply_some _ s
  | recordSuccess k =>
    obtain rfl : k = key := h
    simp only [CircuitBreaker.exec, lookup_recordSuccess]
    cases cb.states.lookup k with
    | none => rfl
    | some s => exact getD_apply_some _ s
  | recordFailure k t =>
    obtain rfl : k = key := h
    simp only [CircuitBreaker.exec, lookup_recordFailure]
    cases cb.states.lookup k with
    | none =>
      rw [failureOp_none]
      simp only [Option.getD_none, CircuitState.next]
      unfold failureOp
      dsimp only
      split <;> rfl
    | some s => exact getD_apply_some _ s
  | reset k =>
    obtain rfl : k = key := h
    show ((andComputeWith cb.states k resetOp).lookup k).getD (.closed 0) = .closed 0
    rw [lookup_andComputeWith]
    cases cb.states.lookup k with
    | none => rfl
    | some s => rfl
  | evict k =>
    obtain rfl : k = key := h
    show ((cb.states.erase k).lookup k).getD (.closed 0) = .closed 0
    rw [AList.lookup_erase]
    rfl

end

theorem isOpen_iff_getState (cb : CircuitBreaker) (key : String) :
    cb.isOpen key = true ↔ ∃ t n, cb.getState key = .opened t n := by
  unfold CircuitBreaker.isOpen CircuitBreaker.getState
  match cb.states.lookup key with
  | none => simp
  | some (.closed n) => simp
  | some (.opened t n) => simp
  | some (.halfOpen t) => simp

/-! ## Counting in Closed -/

/-- The call starts the count of `key` anew: a success accepted in Closed or HalfOpen, or a
    reset. -/
def CircuitBreaker.restarts (cb : CircuitBreaker) (key : String) : Call → Bool
  | .recordSuccess k => k == key && !cb.isOpen key
  | .reset k => k == key
  | _ => false

/-- The calls made after the last one that started the count of `key` anew; `recent` are those
    made before the history. -/
def sinceRestart (cb : CircuitBreaker) (key : String) (recent : List Call) :
    List Call → List Call
  | [] => recent
  | c :: calls =>
    sinceRestart (cb.exec c) key (if cb.restarts key c then [] else recent ++ [c]) calls

def Call.isFailureOn (key : String) : Call → Bool
  | .recordFailure k _ => k == key
  | _ => false

/-- The failures of `key` recorded since its count last started anew. -/
def failuresSinceRestart (cb : CircuitBreaker) (key : String) (calls : List Call) : Nat :=
  (sinceRestart cb key [] calls).countP (Call.isFailureOn key)

theorem sinceRestart_snoc (cb : CircuitBreaker) (key : String) (recent calls : List Call)
    (c : Call) :
    sinceRestart cb key recent (calls ++ [c]) =
      if (run CircuitBreaker.exec cb calls).restarts key c then []
      else sinceRestart cb key recent calls ++ [c] := by
  induction calls generalizing cb recent with
  | nil => rfl
  | cons c' calls ih => exact ih (cb.exec c') _

theorem failuresSinceRestart_snoc (cb : CircuitBreaker) (key : String) (calls : List Call)
    (c : Call) :
    failuresSinceRestart cb key (calls ++ [c]) =
      if (run CircuitBreaker.exec cb calls).restarts key c then 0
      else failuresSinceRestart cb key calls + if c.isFailureOn key then 1 else 0 := by
  unfold failuresSinceRestart
  rw [sinceRestart_snoc]
  split
  · rfl
  · rw [List.countP_append, List.countP_singleton]

/-- The invariant of Closed: the stored count is `n`, and it is below the threshold. -/
def CircuitState.Counts (threshold n : Nat) (s : CircuitState) : Prop :=
  ∀ m, s = .closed m → m = n ∧ m < max threshold 1

/-- Below the threshold the counter does not saturate. -/
theorem saturatingAdd_of_lt {threshold n : Nat} (hfits : threshold ≤ u32Max)
    (h : n < max threshold 1) : saturatingAdd n 1 = n + 1 := by
  unfold saturatingAdd
  unfold u32Max at hfits ⊢
  omega

/-- A failure recorded in Closed counts, and opens the circuit exactly when it makes the count
    reach the threshold. -/
theorem failure_in_closed (now : Nat) {threshold n : Nat} (hfits : threshold ≤ u32Max)
    (h : n < max threshold 1) :
    (failureOp threshold now (some (.closed n))).result (.closed n) =
      if n + 1 = max threshold 1 then .opened now (n + 1) else .closed (n + 1) := by
  unfold failureOp
  dsimp only
  rw [saturatingAdd_of_lt hfits h]
  by_cases hle : threshold ≤ n + 1
  · rw [if_pos hle, if_pos (by omega)]
    rfl
  · rw [if_neg hle, if_neg (by omega)]
    rfl

/-- A failure recorded outside Closed leaves the circuit Open. -/
theorem failure_outside_closed (threshold now : Nat) {s : CircuitState}
    (h : ∀ n, s ≠ .closed n) :
    ∃ n, (failureOp threshold now (some s)).result s = .opened now n := by
  match s with
  | .closed n => exact absurd rfl (h n)
  | .opened t n => exact ⟨_, rfl⟩
  | .halfOpen t => exact ⟨1, rfl⟩

/-- A check leaves a state Closed only when it was so before, with the same count. -/
theorem check_closed {config : CircuitBreakerConfig} {elapsedAt startedAt m : Nat}
    {s : CircuitState}
    (h : (checkDecision config elapsedAt startedAt (some s)).1.result s = .closed m) :
    s = .closed m := by
  match s with
  | .closed n => exact h
  | .opened t n =>
    revert h
    unfold checkDecision
    dsimp only
    split <;> simp [Op.result]
  | .halfOpen t =>
    revert h
    unfold checkDecision
    dsimp only
    split <;> simp [Op.result]

theorem success_result {s : CircuitState} :
    (successOp (some s)).result s = .closed 0 ∨
      (successOp (some s)).result s = s ∧ ∃ t n, s = .opened t n := by
  match s with
  | .closed 0 => exact Or.inl rfl
  | .closed (n + 1) => exact Or.inl rfl
  | .opened t n => exact Or.inr ⟨rfl, t, n, rfl⟩
  | .halfOpen t => exact Or.inl rfl

/-- One call keeps the invariant, for the count that the call leaves. -/
theorem counts_exec {cb : CircuitBreaker} {key : String} {n : Nat} {c : Call}
    (hev : c ≠ .evict key)
    (h : (cb.getState key).Counts cb.config.failureThreshold n) :
    ((cb.exec c).getState key).Counts cb.config.failureThreshold
      (if cb.restarts key c then 0 else n + if c.isFailureOn key then 1 else 0) := by
  have hfits := cb.config.thresholdFits
  by_cases hk : c.key = key
  · intro m hm
    rw [getState_exec cb c hk] at hm
    cases c with
    | checkRequest k a b => exact h m (check_closed hm)
    | recordSuccess k =>
      obtain rfl : k = key := hk
      rcases success_result (s := cb.getState k) with h0 | ⟨-, t, i, hopen⟩
      · -- closed by a success: it was accepted, since Open keeps its state
        have hnot : cb.isOpen k = false := by
          rw [Bool.eq_false_iff, ne_eq, isOpen_iff_getState]
          rintro ⟨t, i, hopen⟩
          rw [hopen] at h0
          cases h0
        have hm0 : CircuitState.closed 0 = .closed m := h0.symm.trans hm
        cases hm0
        simp only [CircuitBreaker.restarts, hnot, beq_self_eq_true, Bool.not_false,
          Bool.and_true, if_true, true_and]
        omega
      · have hm' : CircuitState.opened t i = .closed m := by
          rw [hopen] at hm
          exact hm
        cases hm'
    | recordFailure k t =>
      obtain rfl : k = key := hk
      by_cases hclosed : ∃ i, cb.getState k = .closed i
      · obtain ⟨i, hi⟩ := hclosed
        obtain ⟨rfl, hlt⟩ := h i hi
        have hres := failure_in_closed t hfits hlt
        rw [hi] at hm
        have hm' := hres.symm.trans hm
        split at hm'
        · cases hm'
        · cases hm'
          simp only [CircuitBreaker.restarts, Call.isFailureOn, beq_self_eq_true, if_true,
            Bool.false_eq_true, if_false, true_and]
          omega
      · obtain ⟨i, hi⟩ := failure_outside_closed cb.config.failureThreshold t
          (fun i hi => hclosed ⟨i, hi⟩)
        cases hi.symm.trans hm
    | reset k =>
      obtain rfl : k = key := hk
      have hm0 : CircuitState.closed 0 = .closed m := hm
      cases hm0
      simp only [CircuitBreaker.restarts, beq_self_eq_true, if_true, true_and]
      omega
    | evict k => exact absurd (by rw [show k = key from hk]) hev
  · rw [getState_exec_of_ne cb c (fun h' => hk h'.symm)]
    have hres : cb.restarts key c = false ∧ c.isFailureOn key = false := by
      cases c <;> simp_all [CircuitBreaker.restarts, Call.isFailureOn, Call.key]
    rw [hres.1, hres.2]
    exact h

/-- Along a history without eviction the count of a Closed key is that of its failures since it
    last started anew. -/
theorem counts_run (config : CircuitBreakerConfig) (key : String) (calls : List Call)
    (hev : Call.evict key ∉ calls) :
    ((run CircuitBreaker.exec (.withConfig config) calls).getState key).Counts
      config.failureThreshold (failuresSinceRestart (.withConfig config) key calls) := by
  induction calls using List.reverseRecOn with
  | nil =>
    intro m hm
    have hm0 : CircuitState.closed 0 = .closed m := hm
    cases hm0
    exact ⟨rfl, by omega⟩
  | append_singleton calls c ih =>
    have hc : c ≠ .evict key := by
      rintro rfl
      exact hev (by simp)
    have hcalls := ih (fun h => hev (List.mem_append_left _ h))
    have hconf : (run CircuitBreaker.exec (.withConfig config) calls).config = config :=
      run_exec_config ..
    have hstep := counts_exec hc (by rw [hconf]; exact hcalls)
    rw [run_snoc, failuresSinceRestart_snoc]
    rwa [hconf] at hstep

/-- A Closed key opens by a failure that makes its count reach the threshold, and by nothing
    else. -/
theorem opens_iff {cb : CircuitBreaker} {key : String} {n : Nat} {c : Call}
    (hclosed : cb.getState key = .closed n) (hlt : n < max cb.config.failureThreshold 1) :
    (cb.exec c).isOpen key = true ↔
      c.isFailureOn key = true ∧ n + 1 = max cb.config.failureThreshold 1 := by
  rw [isOpen_iff_getState]
  by_cases hk : c.key = key
  · rw [getState_exec cb c hk, hclosed]
    cases c with
    | checkRequest k a b => simp [CircuitState.next, checkDecision, Op.result, Call.isFailureOn]
    | recordSuccess k =>
      have h0 : (successOp (some (.closed n))).result (.closed n) = .closed 0 := by
        cases n <;> rfl
      simp [CircuitState.next, h0, Call.isFailureOn]
    | recordFailure k t =>
      obtain rfl : k = key := hk
      simp only [CircuitState.next, failure_in_closed t cb.config.thresholdFits hlt,
        Call.isFailureOn, beq_self_eq_true, true_and]
      split
      · next h => simp [h]
      · next h => simp [h]
    | reset k => simp [CircuitState.next, Call.isFailureOn]
    | evict k => simp [CircuitState.next, Call.isFailureOn]
  · rw [getState_exec_of_ne cb c (fun h' => hk h'.symm), hclosed]
    have hfail : c.isFailureOn key = false := by
      cases c <;> simp_all [Call.isFailureOn, Call.key]
    simp [hfail]

/-- Closed-state counting. After any history without evictions of the key, if it reads as Closed
    with count `n`, then `n` is the number of its failures recorded since it last started anew,
    and is below the threshold (1 when that is 0); and the next call opens it exactly when it is
    the failure on it that makes this number reach the threshold. -/
theorem closed_counting (config : CircuitBreakerConfig) (key : String) (calls : List Call)
    (hev : Call.evict key ∉ calls) (n : Nat)
    (hclosed : (run CircuitBreaker.exec (.withConfig config) calls).getState key = .closed n) :
    n = failuresSinceRestart (.withConfig config) key calls ∧
      n < max config.failureThreshold 1 ∧
      ∀ c, (run CircuitBreaker.exec (.withConfig config) (calls ++ [c])).isOpen key = true ↔
        c.isFailureOn key = true ∧
          failuresSinceRestart (.withConfig config) key (calls ++ [c]) =
            max config.failureThreshold 1 := by
  obtain ⟨hcount, hlt⟩ := counts_run config key calls hev n hclosed
  refine ⟨hcount, hlt, fun c => ?_⟩
  have hconf : (run CircuitBreaker.exec (.withConfig config) calls).config = config :=
    run_exec_config ..
  have hopens := opens_iff (c := c) hclosed (by rw [hconf]; exact hlt)
  rw [hconf] at hopens
  rw [run_snoc, hopens]
  refine and_congr_right fun hfail => ?_
  have hno : (run CircuitBreaker.exec (.withConfig config) calls).restarts key c = false := by
    cases c <;> simp_all [Call.isFailureOn, CircuitBreaker.restarts]
  rw [failuresSinceRestart_snoc, hno, hfail, ← hcount]
  rfl

/-- With a threshold of 2, a failure after a success is the first one counted. -/
theorem closed_counting_restarted :
    1 = failuresSinceRestart (.withConfig ⟨2, 10, 100, 1000, 600, by decide⟩) "db"
      [.recordFailure "db" 1, .recordSuccess "db", .recordFailure "db" 3] :=
  (closed_counting ⟨2, 10, 100, 1000, 600, by decide⟩ "db"
    [.recordFailure "db" 1, .recordSuccess "db", .recordFailure "db" 3] (by decide) 1
    (by decide)).1

/-! ## Refusing in Open -/

/-- The key is Open, and its last failure was recorded at `t` or later. -/
def OpenSince (cb : CircuitBreaker) (key : String) (t : Nat) : Prop :=
  ∃ openedAt n, cb.states.lookup key = some (.opened openedAt n) ∧ t ≤ openedAt

/-- A failure that leaves the circuit Open stores its own instant. -/
theorem failureOp_opened {threshold now openedAt n : Nat} {s : Option CircuitState}
    (h : (failureOp threshold now s).apply s = some (.opened openedAt n)) : openedAt = now := by
  revert h
  unfold failureOp
  match s with
  | none =>
    dsimp only
    split <;> simp +contextual [Op.apply, eq_comm]
  | some (.closed m) =>
    dsimp only
    split <;> simp +contextual [Op.apply, eq_comm]
  | some (.opened t m) => simp +contextual [Op.apply, eq_comm]
  | some (.halfOpen t) => simp +contextual [Op.apply, eq_comm]

theorem openSince_recordFailure {cb : CircuitBreaker} {key : String} {t : Nat}
    (h : (cb.exec (.recordFailure key t)).isOpen key = true) :
    OpenSince (cb.exec (.recordFailure key t)) key t := by
  unfold CircuitBreaker.isOpen at h
  split at h
  · next openedAt n hlook =>
    refine ⟨openedAt, n, hlook, ?_⟩
    have hrec := (lookup_recordFailure cb key t).symm.trans hlook
    exact Nat.le_of_eq (failureOp_opened hrec).symm
  · cases h

/-- In the window of the timeout, a check finds the key closed to traffic and leaves it so. -/
theorem check_of_openSince {cb : CircuitBreaker} {key : String} {t elapsedAt : Nat}
    (startedAt : Nat) (h : OpenSince cb key t)
    (hwin : t ≤ elapsedAt ∧ elapsedAt < t + cb.config.timeout) :
    ∃ n, (cb.checkRequest key elapsedAt startedAt).1 = .error ⟨key, n, .opened⟩ ∧
      OpenSince (cb.checkRequest key elapsedAt startedAt).2 key t := by
  obtain ⟨openedAt, n, hlook, hle⟩ := h
  by_cases hel : cb.config.timeout ≤ elapsedAt - openedAt
  · omega
  · refine ⟨n, ?_, openedAt, n, ?_, hle⟩
    · simp [CircuitBreaker.checkRequest, hlook, checkDecision, hel]
    · rw [lookup_checkRequest, hlook]
      simp [checkDecision, hel, Op.apply]

/-- In the window of the timeout, a call that neither resets nor evicts keeps the key Open. -/
theorem openSince_exec {cb : CircuitBreaker} {key : String} {t : Nat} {c : Call}
    (h : OpenSince cb key t) (hreset : c ≠ .reset key) (hevict : c ≠ .evict key)
    (hwin : ∀ r ∈ c.reads, t ≤ r ∧ r < t + cb.config.timeout) :
    OpenSince (cb.exec c) key t := by
  by_cases hk : key = c.key
  · cases c with
    | checkRequest k a b =>
      obtain rfl : key = k := hk
      obtain ⟨n, -, hnext⟩ := check_of_openSince b h (hwin a (by simp [Call.reads]))
      exact hnext
    | recordSuccess k =>
      obtain rfl : key = k := hk
      obtain ⟨openedAt, n, hlook, hle⟩ := h
      refine ⟨openedAt, n, ?_, hle⟩
      show (cb.recordSuccess key).states.lookup key = _
      rw [lookup_recordSuccess, hlook]
      rfl
    | recordFailure k r =>
      obtain rfl : key = k := hk
      obtain ⟨openedAt, n, hlook, -⟩ := h
      refine ⟨r, saturatingAdd n 1, ?_, (hwin r (by simp [Call.reads])).1⟩
      show (cb.recordFailure key r).states.lookup key = _
      rw [lookup_recordFailure, hlook]
      rfl
    | reset k => exact absurd (by rw [show key = k from hk]) hreset
    | evict k => exact absurd (by rw [show key = k from hk]) hevict
  · obtain ⟨openedAt, n, hlook, hle⟩ := h
    exact ⟨openedAt, n, (lookup_exec_of_ne cb c hk).trans hlook, hle⟩

theorem openSince_run {cb : CircuitBreaker} {key : String} {t : Nat} {calls : List Call}
    (h : OpenSince cb key t) (hreset : Call.reset key ∉ calls) (hevict : Call.evict key ∉ calls)
    (hwin : ∀ r ∈ calls.flatMap Call.reads, t ≤ r ∧ r < t + cb.config.timeout) :
    OpenSince (run CircuitBreaker.exec cb calls) key t := by
  induction calls generalizing cb with
  | nil => exact h
  | cons c calls ih =>
    rw [List.mem_cons, not_or] at hreset hevict
    rw [run_cons]
    apply ih
    · exact openSince_exec h (Ne.symm hreset.1) (Ne.symm hevict.1)
        (fun r hr => hwin r (by simp [hr]))
    · exact hreset.2
    · exact hevict.2
    · intro r hr
      rw [exec_config]
      exact hwin r (by rw [List.flatMap_cons]; exact List.mem_append_right _ hr)

/-- Open means closed to traffic. In any history with a clock that does not go back, from any
    stored states: when a failure recorded at `t` leaves the key Open, every `check_request` on it
    at a time before `t + timeout` is refused, whatever happens in between short of a reset or an
    eviction of the key. -/
theorem open_refuses (cb : CircuitBreaker) (pre mid : List Call) (key : String)
    (t t' startedAt : Nat)
    (hclock : ClockMonotone (pre ++ .recordFailure key t :: mid ++
      [.checkRequest key t' startedAt]))
    (hreset : Call.reset key ∉ mid) (hevict : Call.evict key ∉ mid)
    (hopen : (run CircuitBreaker.exec cb (pre ++ [.recordFailure key t])).isOpen key = true)
    (hwin : t' < t + cb.config.timeout) :
    ∃ n, ((run CircuitBreaker.exec cb (pre ++ .recordFailure key t :: mid)).checkRequest key
      t' startedAt).1 = .error ⟨key, n, .opened⟩ := by
  have hsplit : run CircuitBreaker.exec cb (pre ++ .recordFailure key t :: mid) =
      run CircuitBreaker.exec ((run CircuitBreaker.exec cb pre).exec (.recordFailure key t))
        mid := by
    rw [run_append, run_cons]
  rw [run_snoc] at hopen
  have hfirst : t ∈ (Call.recordFailure key t).reads := by simp [Call.reads]
  have hcheck : t' ∈ (Call.checkRequest key t' startedAt).reads := by simp [Call.reads]
  obtain ⟨hmid, hlast⟩ := clock_window hclock hfirst hcheck
  have hkeep := openSince_run (openSince_recordFailure hopen) hreset hevict (fun r hr => by
    have := hmid r hr
    rw [exec_config, run_exec_config]
    omega)
  rw [hsplit]
  obtain ⟨n, hn, -⟩ := check_of_openSince startedAt hkeep (by
    rw [run_exec_config, exec_config, run_exec_config]
    exact ⟨hlast, hwin⟩)
  exact ⟨n, hn⟩

/-- A late success and a second failure do not let a request through: threshold 1, timeout 10. -/
theorem open_refuses_after_success :
    ∃ n, ((run CircuitBreaker.exec (.withConfig ⟨1, 10, 100, 1000, 600, by decide⟩)
      ([] ++ .recordFailure "db" 5 :: [.recordSuccess "db", .recordFailure "db" 8])).checkRequest
        "db" 14 14).1 = .error ⟨"db", n, .opened⟩ :=
  open_refuses (.withConfig ⟨1, 10, 100, 1000, 600, by decide⟩) []
    [.recordSuccess "db", .recordFailure "db" 8] "db" 5 14 14 (by decide) (by decide) (by decide)
    (by decide) (by decide)

end Mik.Reliability
