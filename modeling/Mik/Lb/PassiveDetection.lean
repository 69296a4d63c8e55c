/-
  Passive failure detection: what the proxy learns from the outcomes of its forwards.

  Here `forward` calls come one after the other. Each call that selected a backend adds an
  outcome to a log the code does not have; `Automaton.over` runs the documented automaton over
  the outcomes of one backend. A breaker on which those outcomes are recorded moves as it does
  (`abs_recordSuccess`, `abs_recordFailure`). The proxy records them on a copy instead, so a shared
  breaker is Closed for ever (`closed_step`), and what it reports is the automaton's state exactly
  as long as no consulted backend has failed `failure_threshold` times in a row
  (`passive_detection_iff`).
-/
import Mathlib.Data.List.Induction
import Mathlib.Data.List.Infix
import Mik.Lb.ConnectionCap

namespace Mik.Lb

open Mik.Lib

/-! ## The automaton over a history -/

/-- How a forwarded request ended, when the breaker was asked about it, and when it would open. -/
structure Outcome where
  ok : Bool
  elapsedAt : Nat
  now : Nat
  deriving DecidableEq, Repr

def Automaton.observe (config : CircuitBreakerConfig) (a : Automaton) (o : Outcome) : Automaton :=
  if o.ok then a.success config o.elapsedAt else a.failure config o.elapsedAt o.now

/-- The documented automaton, run over the outcomes of one backend. -/
def Automaton.over (config : CircuitBreakerConfig) (outs : List Outcome) : Automaton :=
  outs.foldl (Automaton.observe config) (.closed 0)

/-! ## Consecutive failures -/

/-- The failures since the last success. -/
def streak (outs : List Outcome) : Nat := outs.foldl (fun n o => if o.ok then 0 else n + 1) 0

theorem streak_snoc (outs : List Outcome) (o : Outcome) :
    streak (outs ++ [o]) = if o.ok then 0 else streak outs + 1 := by
  unfold streak
  rw [List.foldl_append]
  rfl

theorem over_snoc (config : CircuitBreakerConfig) (outs : List Outcome) (o : Outcome) :
    Automaton.over config (outs ++ [o]) = (Automaton.over config outs).observe config o := by
  unfold Automaton.over
  rw [List.foldl_append]
  rfl

/-- Never `k` failures in a row. -/
def Calm (k : Nat) (outs : List Outcome) : Prop := ∀ pre, pre <+: outs → streak pre < k

instance (k : Nat) (outs : List Outcome) : Decidable (Calm k outs) :=
  decidable_of_iff (∀ pre ∈ outs.inits, streak pre < k) (by simp only [List.mem_inits, Calm])

theorem calm_nil {k : Nat} (hk : 0 < k) : Calm k [] := by
  intro pre hpre
  rw [List.prefix_nil.mp hpre]
  exact hk

theorem calm_snoc {k : Nat} {outs : List Outcome} {o : Outcome} :
    Calm k (outs ++ [o]) ↔ Calm k outs ∧ streak (outs ++ [o]) < k := by
  constructor
  · intro h
    exact ⟨fun pre hpre => h pre (hpre.trans (List.prefix_append outs [o])),
      h _ (List.prefix_refl _)⟩
  · rintro ⟨h, hlast⟩ pre hpre
    rcases List.prefix_concat_iff.mp hpre with rfl | hpre
    · exact hlast
    · exact h pre hpre

/-- As long as it is calm the automaton is Closed, and counts the streak. -/
theorem over_of_calm {config : CircuitBreakerConfig} {outs : List Outcome}
    (h : Calm config.failureThreshold outs) :
    Automaton.over config outs = .closed (streak outs) := by
  induction outs using List.reverseRecOn with
  | nil => rfl
  | append_singleton outs o ih =>
    obtain ⟨hcalm, hlast⟩ := calm_snoc.mp h
    rw [over_snoc, ih hcalm]
    rw [streak_snoc] at hlast ⊢
    unfold Automaton.observe
    by_cases hok : o.ok
    · rw [if_pos hok, if_pos hok]
      rfl
    · rw [if_neg hok] at hlast
      rw [if_neg hok, if_neg hok]
      exact if_neg (by omega)

/-- The failure that ends the calm opens the circuit. -/
theorem over_of_trip {config : CircuitBreakerConfig} {outs : List Outcome} {o : Outcome}
    (h : Calm config.failureThreshold outs)
    (htrip : ¬ Calm config.failureThreshold (outs ++ [o])) :
    Automaton.over config (outs ++ [o]) = .opened o.now := by
  have hpos : 0 < config.failureThreshold := Nat.lt_of_le_of_lt (Nat.zero_le _)
    (h outs (List.prefix_refl outs))
  have hlast : ¬ streak (outs ++ [o]) < config.failureThreshold :=
    fun hlt => htrip (calm_snoc.mpr ⟨h, hlt⟩)
  rw [streak_snoc] at hlast
  rw [over_snoc, over_of_calm h]
  unfold Automaton.observe
  by_cases hok : o.ok
  · rw [if_pos hok] at hlast
    exact absurd hpos hlast
  · rw [if_neg hok] at hlast ⊢
    exact if_pos (by omega)

/-! ## Sequential calls -/

inductive Call where
  | forward (elapsedAt : Nat) (outcome : Outcome)
  | healthCheck (verdicts : List Bool)
  deriving DecidableEq, Repr

/-- The proxy and the outcomes of all forwards so far, by backend. -/
structure Monitored where
  system : System
  log : List (Nat × Outcome)

def Monitored.outcomesOf (m : Monitored) (index : Nat) : List Outcome :=
  m.log.filterMap fun entry => if entry.1 = index then some entry.2 else none

def SelectResult.index : SelectResult → Option Nat
  | .selected index _ => some index
  | _ => none

/-- `forward` from its selection to its record, with nothing in between. -/
def Monitored.step (m : Monitored) : Call → Monitored
  | .forward elapsedAt outcome =>
    let i := m.system.forwards.length
    { system := run System.step m.system
        [.select elapsedAt, .start i, .finish i outcome.ok,
          .record i outcome.elapsedAt outcome.now]
      log := m.log ++ ((m.system.proxy.selectBackend elapsedAt).1.index.map
        fun index => (index, outcome)).toList }
  | .healthCheck verdicts => { m with system := m.system.step (.healthCheck verdicts) }

theorem outcomesOf_forward (m : Monitored) (t : Nat) (o : Outcome) (i : Nat) :
    (m.step (.forward t o)).outcomesOf i = m.outcomesOf i ++
      if (m.system.proxy.selectBackend t).1.index = some i then [o] else [] := by
  unfold Monitored.step Monitored.outcomesOf
  dsimp only
  rw [List.filterMap_append]
  congr 1
  cases hsel : (m.system.proxy.selectBackend t).1.index with
  | none => rfl
  | some j =>
    by_cases hj : j = i
    · simp [hj]
    · simp [hj]

theorem backends_forward (m : Monitored) (t : Nat) (o : Outcome) :
    (m.step (.forward t o)).system.proxy.backends = m.system.proxy.polled t := by
  show (System.proxy (System.step _ _)).backends = _
  simp only [backends_step]

/-! ## The shared breakers -/

/-- Every shared breaker is Closed. -/
def AllClosed (bs : List Backend) : Prop :=
  ∀ b ∈ bs, ∀ cb, b.circuitBreaker = some cb → cb.state = .closed

theorem currentState_of_closed {cb : CircuitBreaker} (h : cb.state = .closed) (t : Nat) :
    cb.currentState t = (.closed, cb) := by
  unfold CircuitBreaker.currentState
  rw [h]

/-- Asking a closed breaker changes nothing. -/
theorem isAvailable_of_closed {b : Backend}
    (h : ∀ cb, b.circuitBreaker = some cb → cb.state = .closed) (t : Nat) :
    b.isAvailable t = (b.healthy, b) := by
  unfold Backend.isAvailable
  cases hhealthy : b.healthy with
  | false => rfl
  | true =>
    cases hcb : b.circuitBreaker with
    | none => rfl
    | some cb =>
      simp only [CircuitBreaker.isAvailable, currentState_of_closed (h cb hcb) t,
        Backend.setCircuitBreaker, ← hcb]
      rfl

theorem polled_of_closed {p : Proxy} (h : AllClosed p.backends) (t : Nat) :
    p.polled t = p.backends := by
  have hmap : p.polled t = p.backends.map id := by
    apply List.map_congr_left
    intro b hb
    rw [isAvailable_of_closed (h b hb) t]
    rfl
  rw [hmap, List.map_id]

/-- The breakers of the shared list. -/
def breakers (bs : List Backend) : List (Option CircuitBreaker) := bs.map Backend.circuitBreaker

/-- No call ever touches a shared breaker. -/
theorem breakers_step {m : Monitored} (h : AllClosed m.system.proxy.backends) (c : Call) :
    breakers (m.step c).system.proxy.backends = breakers m.system.proxy.backends := by
  cases c with
  | forward t o => rw [backends_forward, polled_of_closed h t]
  | healthCheck vs =>
    exact map_applyVerdicts Backend.circuitBreaker (fun _ => rfl) (fun _ => rfl) _ vs

theorem breakers_getElem? {bs : List Backend} {i : Nat} {cb : CircuitBreaker} :
    (breakers bs)[i]? = some (some cb) ↔ ∃ b, bs[i]? = some b ∧ b.circuitBreaker = some cb := by
  unfold breakers
  rw [List.getElem?_map, Option.map_eq_some_iff]

theorem allClosed_iff {bs : List Backend} :
    AllClosed bs ↔ ∀ cb, some cb ∈ breakers bs → cb.state = .closed := by
  unfold AllClosed breakers
  simp only [List.mem_map]
  constructor
  · rintro h cb ⟨b, hb, hcb⟩
    exact h b hb cb hcb
  · intro h b hb cb hcb
    exact h cb ⟨b, hb, hcb⟩

theorem closed_step {m : Monitored} (h : AllClosed m.system.proxy.backends) (c : Call) :
    AllClosed (m.step c).system.proxy.backends := by
  rw [allClosed_iff, breakers_step h, ← allClosed_iff]
  exact h

/-! ## What is selected -/

theorem mem_of_select {rr : RoundRobin} {indices : List Nat} {i : Nat}
    (h : (rr.select indices).1 = some i) : i ∈ indices := by
  unfold RoundRobin.select at h
  split at h
  · cases h
  · exact List.mem_of_getElem? h

/-- A selected backend is one of the list, marked healthy. -/
theorem healthy_of_selected {p : Proxy} (hclosed : AllClosed p.backends) {t i : Nat}
    (h : (p.selectBackend t).1.index = some i) :
    ∃ b, p.backends[i]? = some b ∧ b.healthy = true := by
  have hmem : i ∈ p.availableIndices t := by
    unfold Proxy.selectBackend at h
    dsimp only at h
    split at h
    · cases h
    split at h
    · cases h
    split at h
    · cases h
    · next hchosen =>
      cases h
      obtain ⟨idx, hidx, hb⟩ := Option.bind_eq_some_iff.mp hchosen
      obtain ⟨b, -, heq⟩ := Option.map_eq_some_iff.mp hb
      cases heq
      exact List.mem_of_mem_filter (mem_of_select hidx)
  have havailable := (List.mem_filter.mp hmem).2
  have hlt := lt_of_mem_availableIndices hmem
  rw [List.getElem?_eq_getElem hlt, Option.map_some, Option.getD_some,
    isAvailable_of_closed (hclosed _ (List.getElem_mem hlt)) t] at havailable
  exact ⟨_, List.getElem?_eq_getElem hlt, havailable⟩

/-! ## Detection -/

/-- What passive detection promises of a call. The breaker of every backend that is asked is in
    the automaton's state. And no backend is selected while the timeout runs since a failure
    that was the `failure_threshold`-th in a row. -/
def Detects (m : Monitored) : Call → Prop
  | .forward t _ => ∀ i b cb, m.system.proxy.backends[i]? = some b → b.circuitBreaker = some cb →
      (b.healthy = true → (cb.currentState t).1 =
        ((Automaton.over cb.config (m.outcomesOf i)).tick cb.config t).kind) ∧
      ∀ pre o, pre ++ [o] <+: m.outcomesOf i →
        cb.config.failureThreshold ≤ streak (pre ++ [o]) → t < o.now + cb.config.timeout →
        (m.system.proxy.selectBackend t).1.index ≠ some i
  | .healthCheck _ => True

/-- No healthy backend with a breaker has failed `failure_threshold` times in a row. -/
def NoneTripped (m : Monitored) : Call → Prop
  | .forward _ _ => ∀ i b cb, m.system.proxy.backends[i]? = some b → b.healthy = true →
      b.circuitBreaker = some cb → Calm cb.config.failureThreshold (m.outcomesOf i)
  | .healthCheck _ => True

/-- The automaton of each backend has been calm, or it opened and nothing came after. -/
structure CalmOrOpened (m : Monitored) : Prop where
  closed : AllClosed m.system.proxy.backends
  history : ∀ i cb, (breakers m.system.proxy.backends)[i]? = some (some cb) →
    Calm cb.config.failureThreshold (m.outcomesOf i) ∨
      ∃ since, Automaton.over cb.config (m.outcomesOf i) = .opened since

theorem calmOrOpened_step {m : Monitored} (h : CalmOrOpened m) {c : Call} (hc : NoneTripped m c) :
    CalmOrOpened (m.step c) := by
  refine ⟨closed_step h.closed c, fun i cb hcb => ?_⟩
  rw [breakers_step h.closed] at hcb
  have hbefore := h.history i cb hcb
  cases c with
  | healthCheck vs => exact hbefore
  | forward t o =>
    rw [outcomesOf_forward]
    by_cases hsel : (m.system.proxy.selectBackend t).1.index = some i
    · rw [if_pos hsel]
      -- the selected backend is healthy, so the guard says it has been calm
      obtain ⟨b, hb, hhealthy⟩ := healthy_of_selected h.closed hsel
      obtain ⟨b', hb', hbreaker⟩ := breakers_getElem?.mp hcb
      rw [hb] at hb'
      cases hb'
      have hcalm := hc i b cb hb hhealthy hbreaker
      by_cases hnext : Calm cb.config.failureThreshold (m.outcomesOf i ++ [o])
      · exact Or.inl hnext
      · exact Or.inr ⟨o.now, over_of_trip hcalm hnext⟩
    · rw [if_neg hsel, List.append_nil]
      exact hbefore

theorem kind_tick_opened (config : CircuitBreakerConfig) (t since : Nat) :
    ((Automaton.opened since).tick config t).kind ≠ .closed := by
  unfold Automaton.tick
  dsimp only
  split
  · simp [Automaton.kind]
  · simp [Automaton.kind]

theorem detects_iff {m : Monitored} (h : CalmOrOpened m) (c : Call) :
    Detects m c ↔ NoneTripped m c := by
  cases c with
  | healthCheck vs => exact Iff.rfl
  | forward t o =>
    constructor
    · intro hdetects i b cb hb hhealthy hcb
      have hstate := (hdetects i b cb hb hcb).1 hhealthy
      rw [currentState_of_closed (h.closed b (List.mem_of_getElem? hb) cb hcb)] at hstate
      rcases h.history i cb (breakers_getElem?.mpr ⟨b, hb, hcb⟩) with hcalm | ⟨since, hopen⟩
      · exact hcalm
      · rw [hopen] at hstate
        exact absurd hstate.symm (kind_tick_opened _ _ _)
    · intro hcalm i b cb hb hcb
      refine ⟨fun hhealthy => ?_, fun pre o' hpre htrip _ hsel => ?_⟩
      · rw [currentState_of_closed (h.closed b (List.mem_of_getElem? hb) cb hcb),
          over_of_calm (hcalm i b cb hb hhealthy hcb)]
        rfl
      · obtain ⟨b', hb', hhealthy⟩ := healthy_of_selected h.closed hsel
        rw [hb] at hb'
        cases hb'
        have := hcalm i b cb hb hhealthy hcb _ hpre
        omega

/-- A proxy that has just been built: no outcome yet, every breaker new, and every failure
    threshold at least 1. -/
structure Monitored.Fresh (m : Monitored) : Prop where
  log : m.log = []
  breakers : ∀ b ∈ m.system.proxy.backends, ∀ cb, b.circuitBreaker = some cb →
    cb = .new cb.config ∧ 1 ≤ cb.config.failureThreshold

theorem Monitored.Fresh.calmOrOpened {m : Monitored} (h : m.Fresh) : CalmOrOpened m := by
  refine ⟨fun b hb cb hcb => ?_, fun i cb hi => ?_⟩
  · rw [(h.breakers b hb cb hcb).1]
    rfl
  · obtain ⟨b, hb, hcb⟩ := breakers_getElem?.mp hi
    have hnil : m.outcomesOf i = [] := by
      unfold Monitored.outcomesOf
      rw [h.log]
      rfl
    rw [hnil]
    exact Or.inl (calm_nil (h.breakers b (List.mem_of_getElem? hb) cb hcb).2)

/-- Passive detection over whole runs: every forward of a run finds the breakers in the states of
    the documented automaton, and avoids a backend that has just failed `failure_threshold` times
    in a row, if and only if no forward of the run finds a healthy backend with that many failures
    in a row behind it. -/
theorem passive_detection_iff (m : Monitored) (hm : m.Fresh) (calls : List Call) :
    Along Monitored.step Detects m calls ↔ Along Monitored.step NoneTripped m calls :=
  along_iff_of_invariant CalmOrOpened hm.calmOrOpened
    (fun _ _ h hc => calmOrOpened_step h hc) (fun _ c h => detects_iff h c) calls

/-- One backend whose breaker opens at the first failure, for 30 seconds. -/
def oneStrike : Monitored :=
  ⟨⟨⟨[.withCircuitBreaker "a:1" (.new 1 1 30000000000)], ⟨0, 1⟩⟩, []⟩, []⟩

/-- A forward right after the one that failed selects the backend again. -/
theorem failed_backend_selected_again :
    ¬ Along Monitored.step Detects oneStrike
      [.forward 0 ⟨false, 5, 5⟩, .forward 10 ⟨true, 11, 11⟩] := by
  rintro ⟨-, hsecond, -⟩
  have hbackend : (oneStrike.step (.forward 0 ⟨false, 5, 5⟩)).system.proxy.backends[0]? =
      some (.withCircuitBreaker "a:1" (.new 1 1 30000000000)) := rfl
  exact (hsecond 0 _ _ hbackend rfl).2 [] ⟨false, 5, 5⟩ (by decide) (by decide) (by decide) rfl

/-- The same backend with a breaker that opens at the second failure in a row. -/
def twoStrikes : Monitored :=
  ⟨⟨⟨[.withCircuitBreaker "a:1" (.new 2 1 30000000000)], ⟨0, 1⟩⟩, []⟩, []⟩

/-- A failure, a success and a failure: the forward after them still finds the automaton's state. -/
theorem passive_detection_iff_calm :
    Along Monitored.step Detects twoStrikes
      [.forward 0 ⟨false, 5, 5⟩, .forward 10 ⟨true, 11, 11⟩, .forward 20 ⟨false, 21, 21⟩,
        .healthCheck [true], .forward 30 ⟨true, 31, 31⟩] := by
  have hfresh : twoStrikes.Fresh := by
    refine ⟨rfl, fun b hb cb hcb => ?_⟩
    rw [List.mem_singleton.mp hb] at hcb
    cases hcb
    exact ⟨rfl, by decide⟩
  -- the breaker is the same before every call, so only the outcomes so far are looked at
  have hcalm : ∀ (m : Monitored) (t : Nat) (o : Outcome),
      breakers m.system.proxy.backends = [some (.new (.new 2 1 30000000000))] →
      Calm 2 (m.outcomesOf 0) → NoneTripped m (.forward t o) := by
    intro m t o hbreakers hm i b cb hb _ hcb
    have hi := breakers_getElem?.mpr ⟨b, hb, hcb⟩
    rw [hbreakers] at hi
    obtain ⟨hlt, heq⟩ := List.getElem?_eq_some_iff.mp hi
    have hzero : i = 0 := Nat.lt_one_iff.mp hlt
    subst hzero
    cases heq
    exact hm
  rw [passive_detection_iff twoStrikes hfresh]
  exact ⟨hcalm _ 0 _ rfl (by decide), hcalm _ 10 _ rfl (by decide), hcalm _ 20 _ rfl (by decide),
    trivial, hcalm _ 30 _ rfl (by decide), trivial⟩

end Mik.Lb
