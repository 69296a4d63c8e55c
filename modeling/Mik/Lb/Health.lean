/-
  The health-check loop (`src/runtime/lb/health.rs`).

  A cycle checks a snapshot of the shared list one backend after the other, marks the backends of
  the snapshot, and then marks those of the shared list the way the snapshot has come out. The
  thresholds of the configuration are compared with the counters of the snapshot, but only a log
  line depends on what comes out. So the flag of a shared backend is the result of its last check
  (`flag_eq`), whatever `forward` does meanwhile, and it is the documented automaton's as long as
  no check tries a threshold above 1 (`thresholds_honoured_iff`).

  How a check is made, and the times of it, are left out; its result is an input.
-/
import Mik.Lb.ConnectionCap
import Mik.Lib.Hysteresis

namespace Mik.Lb

open Mik.Lib

/-- The thresholds of `HealthCheckConfig`. -/
structure HealthCheckConfig where
  unhealthyThreshold : Nat
  healthyThreshold : Nat
  deriving DecidableEq, Repr

inductive HealthLog where
  | recovered (backend : String) (index : Nat)
  | markedUnhealthy (backend : String) (index failures : Nat)
  deriving DecidableEq, Repr

/-- What the loop makes of the result of one check. -/
def checkBackend (config : HealthCheckConfig) (i : Nat) (b : Backend) (isHealthy : Bool) :
    Backend × List HealthLog :=
  let wasHealthy := b.healthy
  if isHealthy then
    let b := b.markHealthy
    (b, if config.healthyThreshold ≤ b.successCount ∧ wasHealthy = false then
        [.recovered b.id i] else [])
  else
    let b := b.markUnhealthy
    (b, if config.unhealthyThreshold ≤ b.failureCount ∧ wasHealthy then
        [.markedUnhealthy b.id i b.failureCount] else [])

inductive CyclePhase where
  /-- For the next tick of the interval. -/
  | waiting
  /-- The part of the snapshot that has been checked, with the results, and the rest of it. -/
  | checking (checked : List Backend) (results : List Bool) (rest : List Backend)

/-- The loop beside the proxy whose backends it shares. -/
structure HealthLoop where
  system : System
  phase : CyclePhase
  log : List HealthLog
  /-- What the last cycle told the metrics of each backend: id, health and active requests. -/
  metrics : List (String × Bool × Nat)
  /-- The results of the cycles that have been written back; the code does not keep them. -/
  cycles : List (List Bool)

/-- A step of a `forward`, or one of the loop. -/
inductive LoopEvent where
  | proxy (e : Event)
  | tick
  | check (isHealthy : Bool)
  | writeBack
  deriving DecidableEq, Repr

namespace HealthLoop

def step (config : HealthCheckConfig) (m : HealthLoop) : LoopEvent → HealthLoop
  -- the write-back below is the only one
  | .proxy (.healthCheck _) => m
  | .proxy e => { m with system := m.system.step e }
  | .tick =>
    match m.phase with
    | .waiting => { m with phase := .checking [] [] m.system.proxy.backends }
    | .checking _ _ _ => m
  | .check isHealthy =>
    match m.phase with
    | .checking checked results (b :: rest) =>
      let out := checkBackend config checked.length b isHealthy
      { m with
        phase := .checking (checked ++ [out.1]) (results ++ [isHealthy]) rest
        log := m.log ++ out.2 }
    | _ => m
  | .writeBack =>
    match m.phase with
    | .checking checked results [] =>
      { m with
        system := m.system.step (.healthCheck (checked.map Backend.healthy))
        phase := .waiting
        metrics := checked.map fun b => (b.id, b.healthy, b.activeRequests)
        cycles := m.cycles ++ [results] }
    | _ => m

/-- The loop beside a proxy that has just been built. -/
def start (s : System) : HealthLoop := ⟨s, .waiting, [], [], []⟩

/-- The results for one backend, a cycle each. -/
def resultsOf (m : HealthLoop) (i : Nat) : List Bool := m.cycles.filterMap fun rs => rs[i]?

end HealthLoop

/-! ## The flag -/

theorem healthy_checkBackend (config : HealthCheckConfig) (i : Nat) (b : Backend) (ok : Bool) :
    (checkBackend config i b ok).1.healthy = ok := by
  unfold checkBackend
  cases ok with
  | true => rfl
  | false => rfl

theorem healthy_isAvailable (b : Backend) (t : Nat) : (b.isAvailable t).2.healthy = b.healthy := by
  obtain ⟨cb, hcb⟩ := isAvailable_snd b t
  rw [hcb]
  rfl

/-- The flags of the shared backends. -/
def flags (s : System) : List Bool := s.proxy.backends.map Backend.healthy

theorem flags_applyVerdicts (bs : List Backend) (vs : List Bool) :
    (applyVerdicts bs vs).map Backend.healthy = vs.take bs.length ++ (bs.map Backend.healthy).drop
      vs.length := by
  induction bs generalizing vs with
  | nil =>
    cases vs with
    | nil => rfl
    | cons v vs => rfl
  | cons b bs ih =>
    cases vs with
    | nil => rfl
    | cons v vs =>
      rw [applyVerdicts, List.map_cons, ih]
      cases v with
      | true => rfl
      | false => rfl

/-- No step of a `forward` changes a shared flag. -/
theorem flags_step {s : System} {e : Event} (he : ∀ vs, e ≠ .healthCheck vs) :
    flags (s.step e) = flags s := by
  unfold flags
  rw [backends_step]
  cases e with
  | select t =>
    unfold Proxy.polled
    rw [List.map_map]
    exact List.map_congr_left fun b _ => healthy_isAvailable b t
  | healthCheck vs => exact absurd rfl (he vs)
  | _ => rfl

/-- What a cycle under way has: as many backends as the shared list, and those it has checked
    marked with the results. -/
def CyclePhase.Matches (backends : Nat) : CyclePhase → Prop
  | .waiting => True
  | .checking checked results rest =>
    checked.map Backend.healthy = results ∧ checked.length + rest.length = backends

namespace HealthLoop

/-- Each cycle has had a result for every backend, and a flag is the last one for it. -/
structure Inv (backends : Nat) (m : HealthLoop) : Prop where
  phase : m.phase.Matches backends
  length : (flags m.system).length = backends
  flag_eq : ∀ i, i < backends → (flags m.system)[i]? = some (lastReading (m.resultsOf i))

/-- A step changes no flag and adds no result, unless it is a write-back. -/
theorem step_cases (config : HealthCheckConfig) (m : HealthLoop) (e : LoopEvent) :
    (flags (m.step config e).system = flags m.system ∧ (m.step config e).cycles = m.cycles ∧
        (m.phase.Matches (flags m.system).length →
          (m.step config e).phase.Matches (flags m.system).length)) ∨
      ∃ checked results, m.phase = .checking checked results [] ∧
        (m.step config e).phase = .waiting ∧
        flags (m.step config e).system =
          (applyVerdicts m.system.proxy.backends (checked.map Backend.healthy)).map
            Backend.healthy ∧
        (m.step config e).cycles = m.cycles ++ [results] := by
  cases e with
  | proxy e =>
    refine Or.inl ?_
    cases e with
    | healthCheck vs => exact ⟨rfl, rfl, id⟩
    | select t => exact ⟨flags_step (by simp), rfl, id⟩
    | start i => exact ⟨rfl, rfl, id⟩
    | finish i ok => exact ⟨rfl, rfl, id⟩
    | record i t now => exact ⟨rfl, rfl, id⟩
  | tick =>
    refine Or.inl ?_
    unfold step
    dsimp only
    split
    · exact ⟨rfl, rfl, fun _ => ⟨rfl, by simp [flags]⟩⟩
    · exact ⟨rfl, rfl, id⟩
  | check ok =>
    refine Or.inl ?_
    unfold step
    dsimp only
    split
    · next checked results b rest hphase =>
      refine ⟨rfl, rfl, fun hmatches => ?_⟩
      rw [hphase] at hmatches
      obtain ⟨hresults, hlength⟩ := hmatches
      refine ⟨?_, ?_⟩
      · rw [List.map_append, hresults, List.map_singleton, healthy_checkBackend]
      · rw [List.length_append, List.length_singleton]
        rw [List.length_cons] at hlength
        omega
    · exact ⟨rfl, rfl, id⟩
  | writeBack =>
    unfold step
    dsimp only
    split
    · next checked results hphase => exact Or.inr ⟨checked, results, hphase, rfl, rfl, rfl⟩
    · exact Or.inl ⟨rfl, rfl, id⟩

/-- A full cycle leaves its results in the flags. -/
theorem flags_writeBack {m : HealthLoop} {checked : List Backend} {results : List Bool}
    (hphase : m.phase = .checking checked results [])
    (h : m.phase.Matches (flags m.system).length) :
    (applyVerdicts m.system.proxy.backends (checked.map Backend.healthy)).map Backend.healthy =
      results ∧ results.length = (flags m.system).length := by
  rw [hphase] at h
  obtain ⟨hresults, hlength⟩ := h
  have hlen : results.length = m.system.proxy.backends.length := by
    unfold flags at hlength
    rw [List.length_map, List.length_nil] at hlength
    rw [← hresults, List.length_map]
    exact hlength
  have hflags : (m.system.proxy.backends.map Backend.healthy).length = results.length := by
    rw [List.length_map, hlen]
  refine ⟨?_, hflags.symm⟩
  rw [hresults, flags_applyVerdicts, ← hlen, List.take_length, ← hflags, List.drop_length,
    List.append_nil]

/-- A step adds at most one result for a backend. -/
theorem resultsOf_append (m : HealthLoop) (results : List Bool) (i : Nat) {m' : HealthLoop}
    (h : m'.cycles = m.cycles ++ [results]) :
    m'.resultsOf i = m.resultsOf i ++ (results[i]?).toList := by
  unfold resultsOf
  rw [h, List.filterMap_append]
  refine congrArg _ ?_
  rw [List.filterMap_cons, List.filterMap_nil]
  cases results[i]? with
  | none => rfl
  | some r => rfl

theorem resultsOf_step (config : HealthCheckConfig) (m : HealthLoop) (e : LoopEvent) (i : Nat) :
    (m.step config e).resultsOf i = m.resultsOf i ∨
      ∃ r, (m.step config e).resultsOf i = m.resultsOf i ++ [r] := by
  rcases step_cases config m e with ⟨-, hcycles, -⟩ | ⟨checked, results, -, -, -, hcycles⟩
  · unfold resultsOf
    rw [hcycles]
    exact Or.inl rfl
  · rw [resultsOf_append m results i hcycles]
    cases results[i]? with
    | none => exact Or.inl (List.append_nil _)
    | some r => exact Or.inr ⟨r, rfl⟩

theorem inv_step (config : HealthCheckConfig) {backends : Nat} {m : HealthLoop}
    (h : Inv backends m) (e : LoopEvent) : Inv backends (m.step config e) := by
  obtain ⟨hmatches, hlength, hflag⟩ := h
  rw [← hlength] at hmatches
  rcases step_cases config m e with
    ⟨hsame, hcycles, hphase⟩ | ⟨checked, results, hphase, hwaiting, hflags, hcycles⟩
  · refine ⟨?_, by rw [hsame, hlength], fun i hi => ?_⟩
    · rw [← hlength]
      exact hphase hmatches
    · unfold resultsOf
      rw [hsame, hcycles]
      exact hflag i hi
  · obtain ⟨hresults, hlen⟩ := flags_writeBack hphase hmatches
    rw [hresults] at hflags
    refine ⟨?_, by rw [hflags, hlen, hlength], fun i hi => ?_⟩
    · rw [hwaiting]
      trivial
    · have hlt : i < results.length := by omega
      rw [resultsOf_append m results i hcycles, hflags, List.getElem?_eq_getElem hlt]
      exact congrArg some (lastReading_snoc _ _).symm

theorem inv_start {s : System} (hs : ∀ b ∈ s.proxy.backends, b.healthy = true) :
    Inv s.proxy.backends.length (start s) := by
  refine ⟨trivial, List.length_map _, fun i hi => ?_⟩
  change (s.proxy.backends.map Backend.healthy)[i]? = some true
  rw [List.getElem?_map, List.getElem?_eq_getElem hi, Option.map_some]
  exact congrArg some (hs _ (List.getElem_mem hi))

/-! ## The thresholds -/

/-- The shared flag of a backend is that of the documented automaton over its results. -/
def Honours (config : HealthCheckConfig) (i : Nat) (m : HealthLoop) : Prop :=
  m.system.proxy.backends[i]?.map Backend.healthy =
    some (Switch.after config.unhealthyThreshold config.healthyThreshold (m.resultsOf i)).isOn

theorem honours_iff {config : HealthCheckConfig} {backends i : Nat} {m : HealthLoop}
    (h : Inv backends m) (hi : i < backends) :
    Honours config i m ↔
      (Switch.after config.unhealthyThreshold config.healthyThreshold (m.resultsOf i)).isOn =
        lastReading (m.resultsOf i) := by
  have hflag := h.flag_eq i hi
  unfold flags at hflag
  rw [List.getElem?_map] at hflag
  unfold Honours
  rw [hflag, Option.some.injEq]
  exact eq_comm

end HealthLoop

/-- Over any interleaving of the loop with forwards, the flag of a backend is the automaton's in
    every state exactly when its checks try out no threshold above 1: none of them fails, or one
    failure is enough, and none that passes comes after one that failed, or one pass is enough. -/
theorem thresholds_honoured_iff (config : HealthCheckConfig) (hdown : 0 < config.unhealthyThreshold)
    (hup : 0 < config.healthyThreshold) (s : System)
    (hs : ∀ b ∈ s.proxy.backends, b.healthy = true) (i : Nat) (hi : i < s.proxy.backends.length)
    (events : List LoopEvent) :
    (∀ pre, pre <+: events →
        HealthLoop.Honours config i (run (HealthLoop.step config) (.start s) pre)) ↔
      TriesOnlyOnes config.unhealthyThreshold config.healthyThreshold
        ((run (HealthLoop.step config) (.start s) events).resultsOf i) := by
  have hinv : ∀ pre, HealthLoop.Inv s.proxy.backends.length
      (run (HealthLoop.step config) (.start s) pre) :=
    run_keeps (HealthLoop.Inv s.proxy.backends.length)
      (fun m e hm => HealthLoop.inv_step config hm e) (HealthLoop.inv_start hs)
  rw [← follows_last_iff hdown hup, ← observed_throughout_iff (fun m => m.resultsOf i) rfl
    fun m e => HealthLoop.resultsOf_step config m e i]
  exact forall₂_congr fun pre _ => HealthLoop.honours_iff (hinv pre) hi

/-- Backends that are taken out at the first failure, and put back at the first pass. -/
theorem thresholds_honoured_ones :
    HealthLoop.Honours ⟨1, 1⟩ 0 (run (HealthLoop.step ⟨1, 1⟩) (.start doubleSlot)
      [.tick, .check false, .proxy (.select 0), .writeBack, .tick, .check true, .writeBack]) :=
  (thresholds_honoured_iff ⟨1, 1⟩ (by decide) (by decide) doubleSlot (by decide) 0 (by decide)
    _).mpr ⟨fun _ => rfl, fun _ => rfl⟩ _ (List.prefix_refl _)

/-- One failed check takes a healthy backend out, whatever the threshold. -/
theorem one_failure_is_enough :
    ¬ HealthLoop.Honours ⟨3, 2⟩ 0
      (run (HealthLoop.step ⟨3, 2⟩) (.start doubleSlot) [.tick, .check false, .writeBack]) := by
  unfold HealthLoop.Honours
  decide

end Mik.Lb
