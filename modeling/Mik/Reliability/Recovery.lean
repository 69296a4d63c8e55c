/-
  Concurrent requests through `reliability::CircuitBreaker`, and whose success closes a circuit.

  A request checks the circuit of its key, executes when it is let through, and then records how
  it went. `Traffic` is the breaker with the requests that are executing; any number of them may
  be under way, and their checks and records come in any order, with moka dropping entries between
  them. An outcome carries no link to the check that let its request through, so the model keeps
  one beside the code: `openings` counts how often the circuit of a key has gone to Open, from
  Closed or from HalfOpen, and a `Flight` notes that count at its admission. A flight was admitted
  after the circuit last opened exactly when its count is still the current one.
-/
import Mik.Reliability.Histories

namespace Mik.Reliability

open Mik.Lib

/-- A request that was let through and is executing. -/
structure Flight where
  key : String
  epoch : Nat
  deriving DecidableEq, Repr

structure Traffic where
  breaker : CircuitBreaker
  flights : Nat → Option Flight
  openings : String → Nat

def Traffic.start (config : CircuitBreakerConfig) : Traffic :=
  ⟨.withConfig config, fun _ => none, fun _ => 0⟩

inductive Act where
  | check (id : Nat) (key : String) (elapsedAt startedAt : Nat)
  | success (id : Nat)
  | failure (id : Nat) (now : Nat)
  /-- moka drops the entry, idle for too long or one too many. -/
  | evict (key : String)
  deriving DecidableEq, Repr

def CircuitState.isClosed : CircuitState → Bool
  | .closed _ => true
  | _ => false

/-- The call takes the circuit of `key` to Open. A failure recorded in Open only extends the open
    period; no request is let through between the opening and that. -/
def CircuitBreaker.opensBy (cb : CircuitBreaker) (c : Call) (key : String) : Bool :=
  !cb.isOpen key && (cb.exec c).isOpen key

/-- The breaker performs a call; the circuits that it opens are counted. -/
def Traffic.perform (w : Traffic) (c : Call) : Traffic :=
  { w with
    breaker := w.breaker.exec c
    openings := fun key => if w.breaker.opensBy c key then w.openings key + 1 else w.openings key }

def Traffic.put (w : Traffic) (id : Nat) (flight : Option Flight) : Traffic :=
  { w with flights := fun j => if j = id then flight else w.flights j }

/-- One step of one request, or an eviction. A request begins with its check, and is executing from
    then on if it was let through; it ends with the record of its outcome. -/
def Traffic.step (w : Traffic) : Act → Traffic
  | .check id key elapsedAt startedAt =>
    match w.flights id with
    | some _ => w
    | none =>
      match (w.breaker.checkRequest key elapsedAt startedAt).1 with
      | .ok () =>
        (w.perform (.checkRequest key elapsedAt startedAt)).put id
          (some ⟨key, w.openings key⟩)
      | .error _ => w.perform (.checkRequest key elapsedAt startedAt)
  | .success id =>
    match w.flights id with
    | none => w
    | some flight => (w.perform (.recordSuccess flight.key)).put id none
  | .failure id now =>
    match w.flights id with
    | none => w
    | some flight => (w.perform (.recordFailure flight.key now)).put id none
  | .evict key => w.perform (.evict key)

/-- The circuit of `key` reads as Closed. -/
def Traffic.Closed (w : Traffic) (key : String) : Prop :=
  (w.breaker.getState key).isClosed = true

/-- The request was admitted after the circuit of its key last opened. -/
def Flight.Recent (w : Traffic) (flight : Flight) : Prop :=
  flight.epoch = w.openings flight.key

/-- If the step closes a circuit, it does so by the success of a request that was admitted after
    the circuit last opened. -/
def ClosedByProbe (w : Traffic) (a : Act) : Prop :=
  ∀ key, ¬ w.Closed key → (w.step a).Closed key →
    ∃ id flight, a = .success id ∧ w.flights id = some flight ∧ flight.key = key ∧
      flight.Recent w

/-- The step is not the success, recorded while the circuit is HalfOpen, of a request that was
    admitted before the circuit last opened. -/
def NotLate (w : Traffic) (a : Act) : Prop :=
  ∀ id flight, a = .success id → w.flights id = some flight →
    (∃ t, w.breaker.getState flight.key = .halfOpen t) → flight.Recent w

/-- The step does not drop the entry of a circuit that is Open or HalfOpen. -/
def KeepsOpened (w : Traffic) (a : Act) : Prop := ∀ key, a = .evict key → w.Closed key

/-- If the step lets the first probe of an Open circuit through, no request that was admitted
    before the circuit last opened is still executing. -/
def Drained (w : Traffic) (a : Act) : Prop :=
  ∀ id key elapsedAt startedAt, a = .check id key elapsedAt startedAt →
    w.breaker.isOpen key = true →
    (w.breaker.checkRequest key elapsedAt startedAt).1 = .ok () →
    ∀ j flight, w.flights j = some flight → flight.key = key → flight.Recent w

/-! ## What closes a circuit -/

/-- Of the calls on requests' behalf, only a success closes a circuit, and only a HalfOpen one. -/
theorem closes_only_by_success {cb : CircuitBreaker} {c : Call} {key : String}
    (hc : ∀ k, c ≠ .reset k ∧ c ≠ .evict k) (h : (cb.getState key).isClosed = false)
    (h' : ((cb.exec c).getState key).isClosed = true) :
    c = .recordSuccess key ∧ ∃ t, cb.getState key = .halfOpen t := by
  by_cases hk : c.key = key
  · rw [getState_exec cb c hk] at h'
    cases c with
    | checkRequest k a b =>
      obtain ⟨m, hm⟩ : ∃ m, (cb.getState key).next cb.config (.checkRequest k a b) = .closed m := by
        unfold CircuitState.isClosed at h'
        split at h'
        · next m hm => exact ⟨m, hm⟩
        · cases h'
      rw [check_closed hm] at h
      cases h
    | recordSuccess k =>
      obtain rfl : k = key := hk
      refine ⟨rfl, ?_⟩
      match hs : cb.getState k with
      | .closed n =>
        rw [hs] at h
        cases h
      | .opened t n =>
        rw [hs] at h'
        cases h'
      | .halfOpen t => exact ⟨t, rfl⟩
    | recordFailure k t =>
      obtain ⟨i, hi⟩ := failure_outside_closed cb.config.failureThreshold t
        (s := cb.getState key) (fun i hi => by rw [hi] at h; cases h)
      have hopened : (cb.getState key).next cb.config (.recordFailure k t) = .opened t i := hi
      rw [hopened] at h'
      cases h'
    | reset k => exact absurd rfl (hc k).1
    | evict k => exact absurd rfl (hc k).2
  · rw [getState_exec_of_ne cb c (fun hk' => hk hk'.symm), h] at h'
    cases h'

/-- A success recorded in HalfOpen closes the circuit. -/
theorem success_closes {cb : CircuitBreaker} {key : String} {t : Nat}
    (h : cb.getState key = .halfOpen t) :
    ((cb.exec (.recordSuccess key)).getState key).isClosed = true := by
  have hkey : (Call.recordSuccess key).key = key := rfl
  rw [getState_exec cb _ hkey, h]
  rfl

theorem not_closed_iff {w : Traffic} {key : String} :
    ¬ w.Closed key ↔ (w.breaker.getState key).isClosed = false := by
  unfold Traffic.Closed
  rw [Bool.not_eq_true]

/-! ## The step, call by call -/

/-- What a step does: nothing, or a check that is refused, or a check that begins a flight, or a
    record that ends one, or an eviction. -/
inductive StepCase (w : Traffic) : Act → Traffic → Prop where
  | idle {a : Act} : StepCase w a w
  | refused (id : Nat) (key : String) (elapsedAt startedAt : Nat) (e : CircuitOpenError)
      (he : (w.breaker.checkRequest key elapsedAt startedAt).1 = .error e) :
      StepCase w (.check id key elapsedAt startedAt)
        (w.perform (.checkRequest key elapsedAt startedAt))
  | admitted (id : Nat) (key : String) (elapsedAt startedAt : Nat)
      (hok : (w.breaker.checkRequest key elapsedAt startedAt).1 = .ok ()) :
      StepCase w (.check id key elapsedAt startedAt)
        ((w.perform (.checkRequest key elapsedAt startedAt)).put id
          (some ⟨key, w.openings key⟩))
  | succeeded (id : Nat) (flight : Flight) (hid : w.flights id = some flight) :
      StepCase w (.success id) ((w.perform (.recordSuccess flight.key)).put id none)
  | failed (id now : Nat) (flight : Flight) (hid : w.flights id = some flight) :
      StepCase w (.failure id now) ((w.perform (.recordFailure flight.key now)).put id none)
  | dropped (key : String) : StepCase w (.evict key) (w.perform (.evict key))

theorem stepCase (w : Traffic) (a : Act) : StepCase w a (w.step a) := by
  cases a with
  | check id key elapsedAt startedAt =>
    unfold Traffic.step
    dsimp only
    split
    · exact .idle
    · split
      · next hok => exact .admitted id key elapsedAt startedAt hok
      · next e he => exact .refused id key elapsedAt startedAt e he
  | success id =>
    unfold Traffic.step
    dsimp only
    split
    · exact .idle
    · next flight hid => exact .succeeded id flight hid
  | failure id now =>
    unfold Traffic.step
    dsimp only
    split
    · exact .idle
    · next flight hid => exact .failed id now flight hid
  | evict key => exact .dropped key

/-- A step closes a circuit only by a success recorded on it in HalfOpen, or by dropping its
    entry. -/
theorem step_closes {w : Traffic} {a : Act} {key : String} (h : ¬ w.Closed key)
    (h' : (w.step a).Closed key) :
    a = .evict key ∨ ∃ id flight, a = .success id ∧ w.flights id = some flight ∧
      flight.key = key ∧ ∃ t, w.breaker.getState key = .halfOpen t := by
  have hopen := not_closed_iff.mp h
  have hcase := stepCase w a
  generalize w.step a = w' at hcase h'
  cases hcase with
  | idle => exact absurd h' h
  | refused id k a b e he =>
    obtain ⟨hc, -⟩ := closes_only_by_success (by simp) hopen h'
    cases hc
  | admitted id k a b hok =>
    obtain ⟨hc, -⟩ := closes_only_by_success (by simp) hopen h'
    cases hc
  | succeeded id flight hid =>
    obtain ⟨hc, hhalf⟩ := closes_only_by_success (by simp) hopen h'
    cases hc
    exact .inr ⟨id, flight, rfl, hid, rfl, hhalf⟩
  | failed id now flight hid =>
    obtain ⟨hc, -⟩ := closes_only_by_success (by simp) hopen h'
    cases hc
  | dropped k =>
    by_cases hk : key = k
    · exact .inl (by rw [hk])
    · have hclosed : ((w.breaker.exec (.evict k)).getState key).isClosed = true := h'
      rw [getState_exec_of_ne w.breaker (.evict k) hk, hopen] at hclosed
      cases hclosed

/-- A circuit whose entry is dropped reads as Closed. -/
theorem evict_closes (w : Traffic) (key : String) : (w.step (.evict key)).Closed key := by
  have hkey : (Call.evict key).key = key := rfl
  show ((w.breaker.exec (.evict key)).getState key).isClosed = true
  rw [getState_exec w.breaker _ hkey]
  rfl

/-- One step: a circuit is closed by none but a request admitted after it last opened, exactly when
    the step is not the late success of another one, and no eviction of a circuit that is not
    Closed. -/
theorem closedByProbe_iff (w : Traffic) (a : Act) :
    ClosedByProbe w a ↔ NotLate w a ∧ KeepsOpened w a := by
  constructor
  · intro h
    refine ⟨?_, ?_⟩
    · rintro id flight rfl hid ⟨t, ht⟩
      have hnot : ¬ w.Closed flight.key := by
        rw [not_closed_iff, ht]
        rfl
      have hstep : w.step (.success id) =
          (w.perform (.recordSuccess flight.key)).put id none := by
        simp only [Traffic.step, hid]
      obtain ⟨id', flight', ha, hid', -, hrecent⟩ := h flight.key hnot (by
        rw [hstep]
        exact success_closes ht)
      cases ha
      rw [hid] at hid'
      cases hid'
      exact hrecent
    · rintro key rfl
      by_contra hnot
      obtain ⟨id, flight, ha, -⟩ := h key hnot (evict_closes w key)
      cases ha
  · rintro ⟨hlate, hkeeps⟩ key hnot hclosed
    rcases step_closes hnot hclosed with ha | ⟨id, flight, ha, hid, hkey, hhalf⟩
    · exact absurd (hkeeps key ha) hnot
    · refine ⟨id, flight, ha, hid, hkey, hlate id flight ha hid ?_⟩
      rw [hkey]
      exact hhalf

/-! ## Draining before a probe -/

/-- While a circuit is HalfOpen, every request of its key that is executing was admitted after the
    circuit last opened. -/
def ProbesOnly (w : Traffic) : Prop :=
  ∀ key t, w.breaker.getState key = .halfOpen t →
    ∀ j flight, w.flights j = some flight → flight.key = key → flight.Recent w

/-- A call that leaves a circuit HalfOpen does not open it. -/
theorem not_opensBy_of_halfOpen {cb : CircuitBreaker} {c : Call} {key : String} {t : Nat}
    (h : (cb.exec c).getState key = .halfOpen t) : cb.opensBy c key = false := by
  have hnot : (cb.exec c).isOpen key = false := by
    rw [Bool.eq_false_iff, ne_eq, isOpen_iff_getState]
    rintro ⟨t', n, hopen⟩
    rw [h] at hopen
    cases hopen
  rw [CircuitBreaker.opensBy, hnot, Bool.and_false]

/-- A record does not begin a probe. -/
theorem halfOpen_of_record {cb : CircuitBreaker} {c : Call} {key : String} {t : Nat}
    (hc : (∃ k, c = .recordSuccess k) ∨ ∃ k now, c = .recordFailure k now)
    (h : (cb.exec c).getState key = .halfOpen t) :
    c.key ≠ key ∧ cb.getState key = .halfOpen t := by
  by_cases hk : c.key = key
  · exfalso
    rw [getState_exec cb c hk] at h
    rcases hc with ⟨k, rfl⟩ | ⟨k, now, rfl⟩
    · rcases success_result (s := cb.getState key) with hres | ⟨hres, t', n, hs⟩
      · cases hres.symm.trans h
      · cases (hres.trans hs).symm.trans h
    · match hs : cb.getState key with
      | .closed n =>
        rw [hs] at h
        revert h
        unfold CircuitState.next failureOp
        dsimp only
        split <;> simp [Op.result]
      | .opened t' n =>
        rw [hs] at h
        cases h
      | .halfOpen t' =>
        rw [hs] at h
        cases h
  · refine ⟨hk, ?_⟩
    rwa [getState_exec_of_ne cb c (fun hk' => hk hk'.symm)] at h

/-- What a check finds in a circuit that it leaves HalfOpen: a circuit that was so, or an Open one
    whose probe it lets through. -/
theorem before_halfOpen {cb : CircuitBreaker} {key k : String} {a b t : Nat}
    (h : (cb.exec (.checkRequest k a b)).getState key = .halfOpen t) :
    (∃ t', cb.getState key = .halfOpen t') ∨
      k = key ∧ cb.isOpen key = true ∧ (cb.checkRequest key a b).1 = .ok () := by
  by_cases hk : k = key
  · subst hk
    have hkey : (Call.checkRequest k a b).key = k := rfl
    rw [getState_exec cb _ hkey] at h
    match hs : cb.getState k with
    | .closed n =>
      rw [hs] at h
      cases h
    | .halfOpen t' => exact Or.inl ⟨t', rfl⟩
    | .opened openedAt n =>
      refine Or.inr ⟨rfl, (isOpen_iff_getState cb k).mpr ⟨openedAt, n, hs⟩, ?_⟩
      have hlook : cb.states.lookup k = some (.opened openedAt n) := by
        unfold CircuitBreaker.getState at hs
        cases hl : cb.states.lookup k with
        | none =>
          rw [hl] at hs
          cases hs
        | some s =>
          rw [hl] at hs
          exact congrArg some hs
      rw [checkRequest_ok_iff, hlook]
      rw [hs] at h
      revert h
      unfold CircuitState.next checkDecision
      dsimp only
      split <;> simp [Op.result]
  · rw [getState_exec_of_ne cb (.checkRequest k a b) (fun hk' => hk hk'.symm)] at h
    exact Or.inl ⟨t, h⟩

section

variable {w : Traffic} {c : Call}

/-- What was admitted after the circuit last opened still is, where the circuit is HalfOpen now. -/
theorem Flight.Recent.perform {flight : Flight} (h : flight.Recent w) {t : Nat}
    (hhalf : (w.breaker.exec c).getState flight.key = .halfOpen t) :
    flight.Recent (w.perform c) := by
  show flight.epoch = if w.breaker.opensBy c flight.key then _ else _
  rw [not_opensBy_of_halfOpen hhalf]
  exact h

/-- A call keeps the invariant if it finds the flights recent wherever it leaves a circuit
    HalfOpen. -/
theorem probesOnly_perform
    (h : ∀ key t, (w.breaker.exec c).getState key = .halfOpen t →
      ∀ j flight, w.flights j = some flight → flight.key = key → flight.Recent w) :
    ProbesOnly (w.perform c) := by
  rintro key t hhalf j flight hj rfl
  exact (h _ t hhalf j flight hj rfl).perform hhalf

theorem ProbesOnly.put (h : ProbesOnly w) (id : Nat) {new : Option Flight}
    (hnew : ∀ flight t, new = some flight → w.breaker.getState flight.key = .halfOpen t →
      flight.Recent w) : ProbesOnly (w.put id new) := by
  intro key t hhalf j flight hj hkey
  have hflight : (if j = id then new else w.flights j) = some flight := hj
  split at hflight
  · exact hnew flight t hflight (hkey ▸ hhalf)
  · exact h key t hhalf j flight hflight hkey

/-- A record ends a flight and begins no probe. -/
theorem ProbesOnly.record (h : ProbesOnly w)
    (hc : (∃ k, c = .recordSuccess k) ∨ ∃ k now, c = .recordFailure k now) (id : Nat) :
    ProbesOnly ((w.perform c).put id none) := by
  refine (probesOnly_perform fun key t hhalf => ?_).put id nofun
  exact h key t (halfOpen_of_record hc hhalf).2

/-- A check that lets the first probe through finds no request from before the opening. -/
theorem ProbesOnly.check (h : ProbesOnly w) {id : Nat} {k : String} {e s : Nat}
    (hdrained : Drained w (.check id k e s)) :
    ProbesOnly (w.perform (.checkRequest k e s)) := by
  refine probesOnly_perform fun key t hhalf j flight hj hkey => ?_
  rcases before_halfOpen hhalf with ⟨t', ht'⟩ | ⟨rfl, hopen, hok⟩
  · exact h key t' ht' j flight hj hkey
  · exact hdrained id k e s rfl hopen hok j flight hj hkey

/-- A step that lets probes through only when the earlier requests are done keeps the
    invariant. -/
theorem probesOnly_step {a : Act} (h : ProbesOnly w) (hdrained : Drained w a) :
    ProbesOnly (w.step a) := by
  have hcase := stepCase w a
  generalize w.step a = w' at hcase ⊢
  cases hcase with
  | idle => exact h
  | refused id k e s err herr => exact h.check hdrained
  | admitted id k e s hok =>
    refine (h.check hdrained).put id fun flight t hnew hhalf => ?_
    cases hnew
    exact Flight.Recent.perform (w := w) rfl hhalf
  | succeeded id flight hid => exact h.record (.inl ⟨_, rfl⟩) id
  | failed id now flight hid => exact h.record (.inr ⟨_, _, rfl⟩) id
  | dropped k =>
    refine probesOnly_perform fun key t hhalf => h key t ?_
    have hne : key ≠ k := by
      rintro rfl
      have hk : (Call.evict key).key = key := rfl
      rw [getState_exec w.breaker _ hk] at hhalf
      cases hhalf
    exact (getState_exec_of_ne w.breaker (.evict k) hne).symm.trans hhalf

end

theorem notLate_of_probesOnly {w : Traffic} (h : ProbesOnly w) (a : Act) : NotLate w a := by
  rintro id flight - hid ⟨t, ht⟩
  exact h flight.key t ht id flight hid rfl

theorem probesOnly_start (config : CircuitBreakerConfig) : ProbesOnly (.start config) := by
  intro key t ht
  cases ht

/-- In every run of concurrent requests, a circuit that was opened returns to Closed only through
    the success of a request admitted after it last opened, exactly when no request that was
    admitted before records its success while the circuit is HalfOpen, and moka drops no circuit
    that is Open or HalfOpen. So it does in every run without such evictions in which those requests
    are done by the time an Open circuit lets its probe through. -/
theorem closed_by_probe_iff (config : CircuitBreakerConfig) (acts : List Act) :
    (Along Traffic.step ClosedByProbe (.start config) acts ↔
        Along Traffic.step (fun w a => NotLate w a ∧ KeepsOpened w a) (.start config) acts) ∧
      (Along Traffic.step (fun w a => Drained w a ∧ KeepsOpened w a) (.start config) acts →
        Along Traffic.step ClosedByProbe (.start config) acts) := by
  have hiff : Along Traffic.step ClosedByProbe (.start config) acts ↔
      Along Traffic.step (fun w a => NotLate w a ∧ KeepsOpened w a) (.start config) acts :=
    along_congr fun w a _ => closedByProbe_iff w a
  refine ⟨hiff, fun h => hiff.mpr ?_⟩
  refine along_of_invariant ProbesOnly (probesOnly_start config) (fun w a hw hguard => ?_) h
  obtain ⟨hdrained, hkeeps⟩ := hguard
  exact ⟨⟨notLate_of_probesOnly hw a, hkeeps⟩, probesOnly_step hw hdrained⟩

/-- Requests 1 and 2 are let through before the circuit opens. Request 2 fails and opens it, the
    probe 3 is let through, and the late success of request 1 closes it under the probe. -/
theorem late_success_closes :
    ¬ Along Traffic.step ClosedByProbe (.start ⟨1, 10, 100, 1000, 600, by decide⟩)
      [.check 1 "db" 0 0, .check 2 "db" 1 1, .failure 2 2, .check 3 "db" 12 12, .success 1] := by
  intro h
  obtain ⟨-, -, -, -, hlast, -⟩ := h
  obtain ⟨id, flight, ha, hid, -, hrecent⟩ := hlast "db" (by
    unfold Traffic.Closed
    decide) (by
    unfold Traffic.Closed
    decide)
  cases ha
  have hflight : some (⟨"db", 0⟩ : Flight) = some flight := by
    rw [← hid]
    decide
  cases hflight
  revert hrecent
  unfold Flight.Recent
  decide

end Mik.Reliability
