/-
  The ports of the workers (`src/runtime/cluster/`, `src/commands/run.rs`).

  Five loops compute the port of a worker in `u16`, from the base port and the number of the
  worker, and none of them looks whether it fits. The programs are those of `Mik.Cluster.Workers`
  with this arithmetic made visible: a sum that does not fit ends the call in a build with
  overflow checks and wraps in one without, and `i as u16` truncates in both. What a call has
  assigned so far comes with how it ends.

  `worker_ports_iff` says exactly when a call is right: every worker whose turn comes has a port
  that fits, and where the last line of the log is reached and recorded, the sum in it fits too.
-/
import Mathlib.Data.List.Nodup
import Mik.Cluster.Workers
import Mik.Lib.Overflow

namespace Mik.Cluster

open Mik.Lib Mik.Lib.Prog

/-! ## Arithmetic on ports -/

def addPort (o : Overflow) (a b : UInt16) : Option UInt16 :=
  (o.add 16 a.toNat b.toNat).map Nat.toUInt16

def subPort (o : Overflow) (a b : UInt16) : Option UInt16 :=
  (o.sub 16 a.toNat b.toNat).map Nat.toUInt16

/-- `base_port + i as u16`. -/
def portIn (o : Overflow) (basePort : UInt16) (i : Nat) : Option UInt16 :=
  addPort o basePort i.toUInt16

/-- `base_port + 1 + i`. -/
def lbPortIn (o : Overflow) (basePort : UInt16) (i : Nat) : Option UInt16 := do
  addPort o (← addPort o basePort 1) i.toUInt16

/-- `base_port + count as u16 - 1`, for the log. -/
def lastPortIn (o : Overflow) (basePort : UInt16) (count : Nat) : Option UInt16 := do
  subPort o (← addPort o basePort count.toUInt16) 1

/-- The last port as a field of an event, computed if the event is recorded; `none` is a panic. -/
def lastPortField (o : Overflow) (recorded : Bool) (basePort : UInt16) (count : Nat) :
    Option Unit :=
  if recorded then (lastPortIn o basePort count).map fun _ => () else some ()

/-! ## The loops -/

inductive Ending (α : Type) where
  | returned (result : Except Chain α)
  /-- An operation on ports panics. -/
  | overflow
  /-- `Vec::with_capacity` does not get its memory. -/
  | noMemory

/-- How a call ends, the ports it has assigned, and how many of its workers have started. -/
structure Outcome (α : Type) where
  ports : List UInt16
  started : Nat
  ending : Ending α

def Ending.map {α β : Type} (f : α → β) : Ending α → Ending β
  | .returned result => .returned (result.map f)
  | .overflow => .overflow
  | .noMemory => .noMemory

/-- Starts the workers `i`, `i + 1`, ... one after the other. -/
def startEach {α : Type} (port : Nat → Option UInt16)
    (start : UInt16 → Nat → Spawning (Except Chain α)) : Nat → Nat → Spawning (Outcome (List α))
  | _, 0 => return ⟨[], 0, .returned (.ok [])⟩
  | i, n + 1 =>
    match port i with
    | none => return ⟨[], 0, .overflow⟩
    | some p => do
      match ← start p i with
      | .error e => return ⟨[p], 0, .returned (.error e)⟩
      | .ok x =>
        let rest ← startEach port start (i + 1) n
        return ⟨p :: rest.ports, rest.started + 1, rest.ending.map (x :: ·)⟩

/-- `Vec::with_capacity` before the loop. -/
def withCapacity {α : Type} (reserved : Bool) (p : Spawning (Outcome α)) : Spawning (Outcome α) :=
  if reserved then p else return ⟨[], 0, .noMemory⟩

/-- The last line of the log, once all workers have started. -/
def logRange {α : Type} (o : Overflow) (recorded : Bool) (basePort : UInt16) (count : Nat)
    (out : Outcome α) : Outcome α :=
  match out.ending with
  | .returned (.ok _) =>
    match lastPortField o recorded basePort count with
    | none => { out with ending := .overflow }
    | some _ => out
  | _ => out

namespace Process

def startOn (manifestPath : String) (port : UInt16) (i : Nat) :
    Spawning (Except Chain WorkerHandle) := do
  return withContext ("Failed to spawn worker " ++ i.repr ++ " on port " ++ port.toNat.repr)
    (← spawnWorker port manifestPath)

/-- `process::spawn_workers`; `recorded` says whether the log records INFO. -/
def spawnWorkersIn (o : Overflow) (recorded reserved : Bool) (count : Nat) (basePort : UInt16)
    (manifestPath : String) : Spawning (Outcome (List WorkerHandle)) :=
  withCapacity reserved do
    return logRange o recorded basePort count
      (← startEach (portIn o basePort) (startOn manifestPath) 0 count)

end Process

namespace Task

def startOn (port : UInt16) (_ : Nat) : Spawning (Except Chain WorkerHandle) := do
  match ← ask .factory with
  | .error e => return .error e
  | .ok runtime =>
    let handle ← ask (.spawnTask runtime port)
    return .ok (.task runtime (some handle) port)

/-- `task::spawn_workers`. -/
def spawnWorkersIn (o : Overflow) (recorded reserved : Bool) (count : Nat) (basePort : UInt16) :
    Spawning (Outcome (List WorkerHandle)) :=
  withCapacity reserved do
    return logRange o recorded basePort count (← startEach (portIn o basePort) startOn 0 count)

def createOn (port : UInt16) (_ : Nat) : Spawning (Except Chain WorkerHandle) := do
  match ← ask .factory with
  | .error e => return .error e
  | .ok runtime => return .ok (.task runtime none port)

/-- `task::spawn_workers_headless`. -/
def spawnWorkersHeadless (o : Overflow) (reserved : Bool) (count : Nat) (basePort : UInt16) :
    Spawning (Outcome (List WorkerHandle)) :=
  withCapacity reserved (startEach (portIn o basePort) createOn 0 count)

end Task

def startChildOn (exe : String) (componentPath : Option String) (localOnly : Bool)
    (port : UInt16) (i : Nat) : Spawning (Except Chain Child) := do
  match ← ask (.spawn (childCommand exe componentPath localOnly port i)) with
  | .error e => return .error ["Failed to spawn worker " ++ i.repr, e]
  | .ok child => return .ok child

/-- What `run_multi_worker` and `run_with_lb` do once their workers have started. -/
def Ending.goOn {α : Type} (rest : List α → Spawning (Except Chain Unit)) :
    Ending (List α) → Spawning (Ending Unit)
  | .returned (.ok children) => do return .returned (← rest children)
  | .returned (.error e) => return .returned (.error e)
  | .overflow => return .overflow
  | .noMemory => return .noMemory

def runChildrenIn (componentPath : Option String) (workers : UInt16) (localOnly : Bool)
    (port : Nat → Option UInt16) (rest : List Child → Spawning (Except Chain Unit)) :
    Spawning (Outcome Unit) := do
  match ← ask .currentExe with
  | .error e => return ⟨[], 0, .returned (.error ["Failed to get current executable", e])⟩
  | .ok exe => do
    let out ← startEach port (startChildOn exe componentPath localOnly) 0 workers.toNat
    return ⟨out.ports, out.started, ← out.ending.goOn rest⟩

/-- `run_multi_worker`. -/
def runMultiWorkerIn (o : Overflow) (componentPath : Option String) (workers : UInt16)
    (portOverride manifestPort : Option UInt16) (localOnly : Bool) : Spawning (Outcome Unit) :=
  let basePort := basePortOf portOverride manifestPort
  runChildrenIn componentPath workers localOnly (portIn o basePort) waitForCtrlC

/-- `run_with_lb`. -/
def runWithLbIn (o : Overflow) (componentPath : Option String) (workers : UInt16)
    (portOverride manifestPort : Option UInt16) (localOnly : Bool) : Spawning (Outcome Unit) :=
  let basePort := basePortOf portOverride manifestPort
  runChildrenIn componentPath workers localOnly (lbPortIn o basePort)
    (balance workers basePort localOnly)

/-! ## The arithmetic where it fits, and where it does not -/

section

variable {o : Overflow} {basePort : UInt16} {i : Nat}

theorem toNat_toUInt16 {n : Nat} (h : n < 65536) : n.toUInt16.toNat = n :=
  UInt16.toNat_ofNat_of_lt' h

theorem addPort_of_lt {a b : UInt16} (h : a.toNat + b.toNat < 65536) :
    addPort o a b = some (a.toNat + b.toNat).toUInt16 := by
  unfold addPort Overflow.add
  rw [Overflow.fit_of_lt h]
  rfl

theorem addPort_panics {a b : UInt16} (h : ¬ a.toNat + b.toNat < 65536) :
    addPort .panics a b = none := by
  unfold addPort Overflow.add
  rw [Overflow.fit_panics_eq_none_iff.mpr h]
  rfl

theorem portIn_of_lt (h : basePort.toNat + i < 65536) :
    portIn o basePort i = some (basePort.toNat + i).toUInt16 := by
  have hi : i.toUInt16.toNat = i := toNat_toUInt16 (by omega)
  unfold portIn
  rw [addPort_of_lt (by omega), hi]

theorem portIn_panics (h : ¬ basePort.toNat + i < 65536) (hi : i < 65536) :
    portIn .panics basePort i = none := by
  unfold portIn
  exact addPort_panics (by rw [toNat_toUInt16 hi]; exact h)

theorem lbPortIn_of_lt (h : basePort.toNat + 1 + i < 65536) :
    lbPortIn o basePort i = some (basePort.toNat + 1 + i).toUInt16 := by
  have hone : (1 : UInt16).toNat = 1 := rfl
  have hi : i.toUInt16.toNat = i := toNat_toUInt16 (by omega)
  have hnext : (basePort.toNat + 1).toUInt16.toNat = basePort.toNat + 1 :=
    toNat_toUInt16 (by omega)
  unfold lbPortIn
  rw [addPort_of_lt (by omega), Option.bind_eq_bind, Option.bind_some, hone,
    addPort_of_lt (by omega), hnext, hi]

theorem lbPortIn_panics (h : ¬ basePort.toNat + 1 + i < 65536) (hi : i < 65536) :
    lbPortIn .panics basePort i = none := by
  have hone : (1 : UInt16).toNat = 1 := rfl
  unfold lbPortIn
  by_cases hnext : basePort.toNat + 1 < 65536
  · have hval : (basePort.toNat + 1).toUInt16.toNat = basePort.toNat + 1 := toNat_toUInt16 hnext
    rw [addPort_of_lt (by omega), Option.bind_eq_bind, Option.bind_some, hone]
    exact addPort_panics (by rw [hval, toNat_toUInt16 hi]; exact h)
  · rw [addPort_panics (by omega)]
    rfl

/-- The sum in the log fits if the ports do and there is one more. -/
theorem lastPortIn_panics_iff {count : Nat} (h : count = 0 ∨ basePort.toNat + count ≤ 65536) :
    lastPortIn .panics basePort count ≠ none ↔
      1 ≤ basePort.toNat + count ∧ basePort.toNat + count ≤ 65535 := by
  have hone : (1 : UInt16).toNat = 1 := rfl
  have hbase := basePort.toNat_lt
  unfold lastPortIn
  by_cases hfull : count = 65536
  · -- all ports there are: the count is truncated to 0, and 1 is more than that
    subst hfull
    have hzero : basePort.toNat = 0 := by omega
    have hcount : (65536 : Nat).toUInt16.toNat = 0 := rfl
    rw [addPort_of_lt (by omega), Option.bind_eq_bind, Option.bind_some, hzero, hcount]
    exact iff_of_false (fun hno => hno rfl) (by omega)
  · have hcount : count.toUInt16.toNat = count := toNat_toUInt16 (by omega)
    by_cases hsum : basePort.toNat + count < 65536
    · have hval : (basePort.toNat + count).toUInt16.toNat = basePort.toNat + count :=
        toNat_toUInt16 hsum
      rw [addPort_of_lt (by omega), Option.bind_eq_bind, Option.bind_some, hcount]
      unfold subPort
      rw [ne_eq, Option.map_eq_none_iff, Overflow.sub_panics_eq_none_iff, hval, hone]
      omega
    · rw [addPort_panics (by omega)]
      exact iff_of_false (fun hno => hno rfl) (by omega)

end

/-! ## The loop -/

/-- The world when the turn of worker `i + k` comes, from the turn of worker `i`: the workers
    between have started, each on the port that is `first` and its number. -/
def reached {S α : Type} (answer : (a : Action) → S → Answer a × S)
    (start : UInt16 → Nat → Spawning (Except Chain α)) (first : Nat) : Nat → S → Nat → Option S
  | _, s, 0 => some s
  | i, s, k + 1 =>
    match (start (first + i).toUInt16 i).runOn answer s with
    | (.ok _, s') => reached answer start first (i + 1) s' k
    | (.error _, _) => none

section

variable {S α : Type} {answer : (a : Action) → S → Answer a × S}
  {start : UInt16 → Nat → Spawning (Except Chain α)} {first : Nat} {port : Nat → Option UInt16}

theorem reached_le {i k n : Nat} {s : S} (h : (reached answer start first i s n).isSome)
    (hle : k ≤ n) : (reached answer start first i s k).isSome := by
  induction k generalizing i s n with
  | zero => rfl
  | succ k ih =>
    obtain ⟨n, rfl⟩ := Nat.exists_eq_add_of_le' (Nat.lt_of_lt_of_le (Nat.succ_pos k) hle)
    unfold reached at h ⊢
    split at h
    · exact ih h (Nat.le_of_succ_le_succ hle)
    · nomatch h

/-- As long as the turns that come have a port that fits, they get just that port. -/
theorem startEach_fits (hport : ∀ j, first + j < 65536 → port j = some (first + j).toUInt16)
    (n i : Nat) (s : S)
    (h : ∀ k, k < n → (reached answer start first i s k).isSome → first + (i + k) < 65536) :
    (∀ k p, ((startEach port start i n).runOn answer s).1.ports[k]? = some p →
      p.toNat = first + (i + k)) ∧
    ((reached answer start first i s n).isSome →
      ∃ xs, ((startEach port start i n).runOn answer s).1.ending = .returned (.ok xs)) ∧
    ((reached answer start first i s n).isNone →
      ∃ e, ((startEach port start i n).runOn answer s).1.ending = .returned (.error e)) := by
  induction n generalizing i s with
  | zero => exact ⟨fun k p hp => by simp [startEach] at hp, fun _ => ⟨[], rfl⟩, nofun⟩
  | succ n ih =>
    have hi : first + i < 65536 := h 0 (Nat.succ_pos n) rfl
    have hval := toNat_toUInt16 hi
    unfold startEach reached
    rw [hport i hi]
    dsimp only
    rw [runOn_bind]
    rcases hrun : (start (first + i).toUInt16 i).runOn answer s with ⟨result, s'⟩
    cases result with
    | error e =>
      refine ⟨fun k p hp => ?_, nofun, fun _ => ⟨e, rfl⟩⟩
      cases k with
      | zero =>
        rw [← Option.some.inj hp]
        exact hval
      | succ k => exact absurd hp (by simp)
    | ok x =>
      have hrest : ∀ k, k < n → (reached answer start first (i + 1) s' k).isSome →
          first + (i + 1 + k) < 65536 := by
        intro k hk hreach
        have hnext := h (k + 1) (Nat.succ_lt_succ hk)
        rw [reached, hrun] at hnext
        have hlt := hnext hreach
        omega
      obtain ⟨hports, hok, herror⟩ := ih (i + 1) s' hrest
      dsimp only
      rw [runOn_bind]
      refine ⟨fun k p hp => ?_, fun hreach => ?_, fun hreach => ?_⟩
      · cases k with
        | zero =>
          rw [← Option.some.inj hp]
          exact hval
        | succ k =>
          have hk := hports k p hp
          omega
      · obtain ⟨xs, hxs⟩ := hok hreach
        exact ⟨x :: xs, congrArg (Ending.map (x :: ·)) hxs⟩
      · obtain ⟨e, he⟩ := herror hreach
        exact ⟨e, congrArg (Ending.map (x :: ·)) he⟩

/-- What comes of the first turn whose port does not fit: it is computed all the same, unless that
    panics. -/
theorem startEach_past (hport : ∀ j, first + j < 65536 → port j = some (first + j).toUInt16)
    {n k i : Nat} {s : S} (hk : k < n) (hreach : (reached answer start first i s k).isSome)
    (hbefore : ∀ j, j < k → first + (i + j) < 65536) :
    (port (i + k) = none → ((startEach port start i n).runOn answer s).1.ending = .overflow) ∧
    ∀ p, port (i + k) = some p →
      ((startEach port start i n).runOn answer s).1.ports[k]? = some p ∧
        k ≤ ((startEach port start i n).runOn answer s).1.started := by
  induction k generalizing n i s with
  | zero =>
    obtain ⟨n, rfl⟩ := Nat.exists_eq_add_of_le' hk
    unfold startEach
    refine ⟨fun hnone => ?_, fun p hp => ?_⟩
    · rw [Nat.add_zero] at hnone
      rw [hnone]
      rfl
    · rw [Nat.add_zero] at hp
      rw [hp]
      dsimp only
      rw [runOn_bind]
      rcases (start p i).runOn answer s with ⟨result, s'⟩
      cases result with
      | error e => exact ⟨rfl, Nat.zero_le _⟩
      | ok x =>
        dsimp only
        rw [runOn_bind]
        exact ⟨rfl, Nat.zero_le _⟩
  | succ k ih =>
    obtain ⟨n, rfl⟩ := Nat.exists_eq_add_of_le' (Nat.lt_of_le_of_lt (Nat.zero_le _) hk)
    have hi : first + i < 65536 := hbefore 0 (Nat.succ_pos k)
    unfold reached at hreach
    unfold startEach
    rw [hport i hi]
    dsimp only
    rw [runOn_bind]
    rcases hrun : (start (first + i).toUInt16 i).runOn answer s with ⟨result, s'⟩
    rw [hrun] at hreach
    cases result with
    | error e => nomatch hreach
    | ok x =>
      have hnext := @ih n (i + 1) s' (Nat.lt_of_succ_lt_succ hk) hreach fun j hj => by
        have hlt := hbefore (j + 1) (Nat.succ_lt_succ hj)
        omega
      rw [show i + 1 + k = i + (k + 1) by omega] at hnext
      dsimp only
      rw [runOn_bind]
      refine ⟨fun hnone => ?_, fun p hp => ?_⟩
      · exact congrArg (Ending.map (x :: ·)) (hnext.1 hnone)
      · exact ⟨(hnext.2 p hp).1, Nat.succ_le_succ (hnext.2 p hp).2⟩

end

/-! ## In a build that wraps -/

theorem addPort_wraps (a b : UInt16) : addPort .wraps a b = some (a + b) := by
  unfold addPort Overflow.add
  rw [Overflow.fit_wraps, Option.map_some, Option.some.injEq, ← UInt16.toNat_inj,
    UInt16.toNat_add]
  exact toNat_toUInt16 (Nat.mod_lt _ (by decide))

theorem portIn_wraps (basePort : UInt16) (i : Nat) :
    portIn .wraps basePort i = some (portAt basePort i) := addPort_wraps _ _

theorem lbPortIn_wraps (basePort : UInt16) (i : Nat) :
    lbPortIn .wraps basePort i = some (portAt (basePort + 1) i) := by
  unfold lbPortIn
  rw [addPort_wraps, Option.bind_eq_bind, Option.bind_some]
  exact addPort_wraps _ _

theorem lastPortIn_wraps (basePort : UInt16) (count : Nat) :
    ∃ last, lastPortIn .wraps basePort count = some last := by
  unfold lastPortIn
  rw [addPort_wraps, Option.bind_eq_bind, Option.bind_some]
  unfold subPort Overflow.sub
  split
  · exact ⟨_, rfl⟩
  · exact ⟨_, rfl⟩

theorem lastPortField_wraps (recorded : Bool) (basePort : UInt16) (count : Nat) :
    lastPortField .wraps recorded basePort count = some () := by
  obtain ⟨last, hlast⟩ := lastPortIn_wraps basePort count
  unfold lastPortField
  rw [hlast]
  cases recorded with
  | true => rfl
  | false => rfl

theorem logRange_wraps {α : Type} (recorded : Bool) (basePort : UInt16) (count : Nat)
    (out : Outcome α) : logRange .wraps recorded basePort count out = out := by
  unfold logRange
  rw [lastPortField_wraps]
  split
  · rfl
  · rfl

/-- There the loop is the one of `Mik.Cluster.Workers`. -/
theorem startEach_wraps {α : Type} (port : Nat → UInt16)
    (start : UInt16 → Nat → Spawning (Except Chain α)) (i n : Nat) :
    (startEach (fun i => some (port i)) start i n >>= fun out => ret out.ending)
      = acquireAll (fun i => start (port i) i) i n >>= fun result => ret (.returned result) := by
  induction n generalizing i with
  | zero => rfl
  | succ n ih =>
    unfold startEach acquireAll
    dsimp only
    rw [bind_assoc, bind_assoc]
    congr 1
    funext result
    cases result with
    | error e => rfl
    | ok x =>
      have hrest : (startEach (fun i => some (port i)) start (i + 1) n >>= fun out =>
          ret (out.ending.map (x :: ·)))
          = (startEach (fun i => some (port i)) start (i + 1) n >>= fun out => ret out.ending) >>=
            fun ending => ret (ending.map (x :: ·)) := by
        rw [bind_assoc]
        rfl
      dsimp only
      rw [bind_assoc, bind_assoc]
      refine hrest.trans ?_
      rw [ih, bind_assoc]
      congr 1
      funext rest
      cases rest with
      | error e => rfl
      | ok xs => rfl

theorem runChildrenIn_wraps (componentPath : Option String) (workers : UInt16) (localOnly : Bool)
    (port : Nat → UInt16) (rest : List Child → Spawning (Except Chain Unit)) :
    (runChildrenIn componentPath workers localOnly (fun i => some (port i)) rest >>= fun out =>
        ret out.ending)
      = runChildren componentPath workers localOnly port rest >>= fun result =>
        ret (.returned result) := by
  unfold runChildrenIn runChildren
  rw [bind_assoc, bind_assoc]
  congr 1
  funext exe
  cases exe with
  | error e => rfl
  | ok exe =>
    have hloop := startEach_wraps port (startChildOn exe componentPath localOnly) 0 workers.toNat
    have hstart : (fun i => startChildOn exe componentPath localOnly (port i) i)
        = startChild exe componentPath localOnly port := by
      funext i
      unfold startChildOn startChild
      congr 1
      funext answer
      cases answer with
      | error e => rfl
      | ok child => rfl
    rw [hstart] at hloop
    have hafter := congrArg (· >>= Ending.goOn rest) hloop
    simp only [bind_assoc, ret_bind] at hafter
    simp only [bind_assoc, pure_eq, ret_bind, bind_ret]
    refine hafter.trans ?_
    congr 1
    funext result
    cases result with
    | error e => rfl
    | ok children => rfl

/-- So are the functions that have it. -/
theorem callsIn_wraps (recorded : Bool) (count : Nat) (basePort : UInt16) (manifestPath : String)
    (componentPath : Option String) (workers : UInt16) (portOverride manifestPort : Option UInt16)
    (localOnly : Bool) :
    (Process.spawnWorkersIn .wraps recorded true count basePort manifestPath >>= fun out =>
        ret out.ending)
      = (Process.spawnWorkers count basePort manifestPath >>= fun result =>
          ret (.returned result)) ∧
    (Task.spawnWorkersIn .wraps recorded true count basePort >>= fun out => ret out.ending)
      = (Task.spawnWorkers count basePort >>= fun result => ret (.returned result)) ∧
    (runMultiWorkerIn .wraps componentPath workers portOverride manifestPort localOnly >>=
        fun out => ret out.ending)
      = (runMultiWorker componentPath workers portOverride manifestPort localOnly >>=
        fun result => ret (.returned result)) ∧
    (runWithLbIn .wraps componentPath workers portOverride manifestPort localOnly >>=
        fun out => ret out.ending)
      = (runWithLb componentPath workers portOverride manifestPort localOnly >>=
        fun result => ret (.returned result)) := by
  have hports (basePort : UInt16) :
      portIn .wraps basePort = fun i => some (portAt basePort i) := funext (portIn_wraps basePort)
  have hlb (basePort : UInt16) :
      lbPortIn .wraps basePort = fun i => some (portAt (basePort + 1) i) :=
    funext (lbPortIn_wraps basePort)
  refine ⟨?_, ?_, ?_, ?_⟩
  · unfold Process.spawnWorkersIn withCapacity
    rw [if_pos rfl, hports, bind_assoc]
    simp only [pure_eq, ret_bind, logRange_wraps]
    exact startEach_wraps (portAt basePort) (Process.startOn manifestPath) 0 count
  · unfold Task.spawnWorkersIn withCapacity
    rw [if_pos rfl, hports, bind_assoc]
    simp only [pure_eq, ret_bind, logRange_wraps]
    exact startEach_wraps (portAt basePort) Task.startOn 0 count
  · unfold runMultiWorkerIn
    dsimp only
    rw [hports]
    exact runChildrenIn_wraps _ _ _ _ _
  · unfold runWithLbIn
    dsimp only
    rw [hlb]
    exact runChildrenIn_wraps _ _ _ _ _

/-! ## The property -/

/-- The port of each worker is `first` and its number, as integers, and no two are the same. -/
structure RightPorts (first : Nat) (ports : List UInt16) : Prop where
  exact : ∀ i p, ports[i]? = some p → p.toNat = first + i
  distinct : ports.Nodup

def Ending.Failed {α : Type} : Ending α → Prop
  | .returned (.ok _) => False
  | .returned (.error _) => True
  | .overflow => True
  | .noMemory => True

/-- The ports that a call assigns are right, or it fails before any worker has started; and no
    operation on ports overflows: in the build that checks the call does not panic. -/
structure PortLaw {S α : Type} (answer : (a : Action) → S → Answer a × S) (s : S) (first : Nat)
    (call : Overflow → Spawning (Outcome α)) (o : Overflow) : Prop where
  ports : RightPorts first ((call o).runOn answer s).1.ports ∨
    (((call o).runOn answer s).1.ending.Failed ∧ ((call o).runOn answer s).1.started = 0)
  fits : ((call .panics).runOn answer s).1.ending ≠ .overflow

/-- Every worker whose turn comes has a port that fits. -/
def TurnsFit {S α : Type} (answer : (a : Action) → S → Answer a × S)
    (start : UInt16 → Nat → Spawning (Except Chain α)) (first : Nat) (s : S) (n : Nat) : Prop :=
  ∀ k, k < n → (reached answer start first 0 s k).isSome → first + k ≤ 65535

section

variable {S α : Type} {answer : (a : Action) → S → Answer a × S} {s : S}
  {start : UInt16 → Nat → Spawning (Except Chain α)} {first n : Nat} {port : Nat → Option UInt16}

theorem rightPorts_of_exact {ports : List UInt16}
    (h : ∀ i p, ports[i]? = some p → p.toNat = first + i) : RightPorts first ports := by
  refine ⟨h, List.nodup_iff_getElem?_ne_getElem?.mpr fun i j hij hj heq => ?_⟩
  have hj' := List.getElem?_eq_getElem hj
  have hjp := h j ports[j] hj'
  have hip := h i ports[j] (heq.trans hj')
  omega

theorem rightPorts_nil : RightPorts first [] := ⟨nofun, List.nodup_nil⟩

/-- Where every turn fits, the ports are right, nothing overflows, and the loop returns its workers
    exactly if all have started. -/
theorem loop_of_turnsFit (hport : ∀ j, first + j < 65536 → port j = some (first + j).toUInt16)
    (h : TurnsFit answer start first s n) :
    RightPorts first ((startEach port start 0 n).runOn answer s).1.ports ∧
    ((startEach port start 0 n).runOn answer s).1.ending ≠ .overflow ∧
    ((∃ xs, ((startEach port start 0 n).runOn answer s).1.ending = .returned (.ok xs)) ↔
      (reached answer start first 0 s n).isSome) := by
  obtain ⟨hports, hok, herror⟩ := startEach_fits hport n 0 s fun k hk hreach => by
    have hfit := h k hk hreach
    omega
  refine ⟨rightPorts_of_exact fun i p hp => by simpa using hports i p hp, ?_⟩
  cases hreach : reached answer start first 0 s n with
  | some s' =>
    obtain ⟨xs, hxs⟩ := hok (by rw [hreach]; rfl)
    rw [hxs]
    exact ⟨nofun, iff_of_true ⟨xs, rfl⟩ rfl⟩
  | none =>
    obtain ⟨e, he⟩ := herror (by rw [hreach]; rfl)
    rw [he]
    exact ⟨nofun, iff_of_false (fun ⟨_, hno⟩ => nomatch hno) nofun⟩

/-- Where some turn does not fit, the first such turn comes. -/
theorem exists_past (hfirst : first ≤ 65536) (h : ¬ TurnsFit answer start first s n) :
    65536 - first < n ∧ (reached answer start first 0 s (65536 - first)).isSome := by
  unfold TurnsFit at h
  push Not at h
  obtain ⟨k, hk, hreach, hpast⟩ := h
  exact ⟨by omega, reached_le hreach (by omega)⟩

theorem logRange_ports (o : Overflow) (recorded : Bool) (basePort : UInt16) (count : Nat)
    (out : Outcome α) :
    (logRange o recorded basePort count out).ports = out.ports ∧
    (logRange o recorded basePort count out).started = out.started := by
  unfold logRange
  split
  · split
    · exact ⟨rfl, rfl⟩
    · exact ⟨rfl, rfl⟩
  · exact ⟨rfl, rfl⟩

theorem logRange_ending_eq_overflow_iff (o : Overflow) (recorded : Bool) (basePort : UInt16)
    (count : Nat) (out : Outcome α) :
    (logRange o recorded basePort count out).ending = .overflow ↔
      out.ending = .overflow ∨
        (∃ x, out.ending = .returned (.ok x)) ∧
          lastPortField o recorded basePort count = none := by
  unfold logRange
  split
  · rename_i x hending
    split
    · rename_i hnone
      exact ⟨fun _ => Or.inr ⟨⟨x, hending⟩, hnone⟩, fun _ => rfl⟩
    · rename_i last hlast
      refine ⟨Or.inl, fun h => h.resolve_right fun hno => ?_⟩
      rw [hlast] at hno
      nomatch hno.2
  · rename_i hother
    exact ⟨Or.inl, fun h => h.resolve_right fun ⟨⟨x, hx⟩, _⟩ => hother x hx⟩

/-- A loop over `base_port + i` with a turn that does not fit either panics in the build that
    checks, or comes to the worker whose number is truncated to 0. -/
theorem portIn_past {basePort : UInt16}
    (h : ¬ TurnsFit answer start basePort.toNat s n) :
    ((startEach (portIn .panics basePort) start 0 n).runOn answer s).1.ending = .overflow ∨
    ∀ o, ¬ RightPorts basePort.toNat
        ((startEach (portIn o basePort) start 0 n).runOn answer s).1.ports ∧
      ((startEach (portIn o basePort) start 0 n).runOn answer s).1.started ≠ 0 := by
  have hbase := basePort.toNat_lt
  obtain ⟨hlt, hreach⟩ := exists_past (by omega) h
  have hpast (o : Overflow) := startEach_past (@portIn_of_lt o basePort) hlt hreach fun j hj => by
    omega
  by_cases hzero : basePort.toNat = 0
  · right
    intro o
    have hport : portIn o basePort (0 + (65536 - basePort.toNat)) = some 0 := by
      have hcount : (0 + (65536 - 0) : Nat).toUInt16.toNat = 0 := rfl
      rw [hzero]
      unfold portIn
      rw [addPort_of_lt (by omega), hzero, hcount]
      rfl
    obtain ⟨hp, hstarted⟩ := (hpast o).2 0 hport
    refine ⟨fun hright => ?_, by omega⟩
    have hexact := hright.exact _ _ hp
    have hnone : (0 : UInt16).toNat = 0 := rfl
    omega
  · left
    exact (hpast .panics).1 (portIn_panics (by omega) (by omega))

/-- The three loops that start with the capacity: `log` is what they do in the end. -/
theorem reserved_law_iff (basePort : UInt16) (reserved : Bool) (o : Overflow) (done : Prop)
    (log : Overflow → Outcome (List α) → Outcome (List α))
    (hports : ∀ o out, (log o out).ports = out.ports ∧ (log o out).started = out.started)
    (hending : ∀ out : Outcome (List α), (log .panics out).ending = .overflow ↔
      out.ending = .overflow ∨ (∃ x, out.ending = .returned (.ok x)) ∧ done) :
    PortLaw answer s basePort.toNat
        (fun o => withCapacity reserved do
          return log o (← startEach (portIn o basePort) start 0 n)) o ↔
      reserved = false ∨ (TurnsFit answer start basePort.toNat s n ∧
        ((reached answer start basePort.toNat 0 s n).isSome → ¬ done)) := by
  cases reserved with
  | false => exact iff_of_true ⟨Or.inl rightPorts_nil, nofun⟩ (Or.inl rfl)
  | true =>
    have hrun (o : Overflow) :
        ((withCapacity true do return log o (← startEach (portIn o basePort) start 0 n)).runOn
          answer s).1 = log o ((startEach (portIn o basePort) start 0 n).runOn answer s).1 := by
      unfold withCapacity
      rw [if_pos rfl, runOn_bind]
      rfl
    by_cases hfit : TurnsFit answer start basePort.toNat s n
    · obtain ⟨hright, -, -⟩ := loop_of_turnsFit (@portIn_of_lt o basePort) hfit
      obtain ⟨-, hnever, hok⟩ := loop_of_turnsFit (@portIn_of_lt .panics basePort) hfit
      constructor
      · intro h
        refine Or.inr ⟨hfit, fun hreach hdone => h.fits ?_⟩
        rw [hrun, hending]
        exact Or.inr ⟨hok.mpr hreach, hdone⟩
      · intro h
        refine ⟨Or.inl ?_, fun hover => ?_⟩
        · rw [hrun, (hports _ _).1]
          exact hright
        · rw [hrun, hending] at hover
          obtain ⟨hreturned, hdone⟩ := hover.resolve_left hnever
          exact (h.resolve_left Bool.true_eq_false.mp).2 (hok.mp hreturned) hdone
    · refine iff_of_false (fun h => ?_) fun h => hfit (h.resolve_left Bool.true_eq_false.mp).1
      rcases portIn_past hfit with hover | hwrong
      · refine h.fits ?_
        rw [hrun, hending]
        exact Or.inl hover
      · rcases h.ports with hright | ⟨-, hzero⟩
        · rw [hrun, (hports _ _).1] at hright
          exact (hwrong o).1 hright
        · rw [hrun, (hports _ _).2] at hzero
          exact (hwrong o).2 hzero

/-- What follows the loop of `mik run` does not overflow. -/
theorem goOn_eq_overflow_iff (rest : List Child → Spawning (Except Chain Unit))
    (ending : Ending (List Child)) (s : S) :
    ((ending.goOn rest).runOn answer s).1 = .overflow ↔ ending = .overflow := by
  cases ending with
  | returned result =>
    cases result with
    | ok children =>
      unfold Ending.goOn
      rw [runOn_bind]
      exact iff_of_false nofun nofun
    | error e => exact iff_of_false nofun nofun
  | overflow => exact iff_of_true rfl rfl
  | noMemory => exact iff_of_false nofun nofun

theorem runChildrenIn_refused {e : String} {s' : S}
    (h : (ask .currentExe).runOn answer s = (.error e, s')) (componentPath : Option String)
    (workers : UInt16) (localOnly : Bool) (rest : List Child → Spawning (Except Chain Unit)) :
    ((runChildrenIn componentPath workers localOnly port rest).runOn answer s).1
      = ⟨[], 0, .returned (.error ["Failed to get current executable", e])⟩ := by
  unfold runChildrenIn
  rw [runOn_bind, h]
  rfl

theorem runChildrenIn_run {exe : String} {s' : S}
    (h : (ask .currentExe).runOn answer s = (.ok exe, s')) (componentPath : Option String)
    (workers : UInt16) (localOnly : Bool) (rest : List Child → Spawning (Except Chain Unit)) :
    ((runChildrenIn componentPath workers localOnly port rest).runOn answer s).1.ports
      = ((startEach port (startChildOn exe componentPath localOnly) 0 workers.toNat).runOn
          answer s').1.ports ∧
    (((runChildrenIn componentPath workers localOnly port rest).runOn answer s).1.ending = .overflow
      ↔ ((startEach port (startChildOn exe componentPath localOnly) 0 workers.toNat).runOn
          answer s').1.ending = .overflow) := by
  unfold runChildrenIn
  rw [runOn_bind, h]
  dsimp only
  rw [runOn_bind, runOn_bind]
  exact ⟨rfl, goOn_eq_overflow_iff rest _ _⟩

/-- The loops of `mik run`, whose workers are numbered in `u16`. -/
theorem children_law_iff (componentPath : Option String) (workers : UInt16) (localOnly : Bool)
    (port : Overflow → Nat → Option UInt16) (rest : List Child → Spawning (Except Chain Unit))
    (o : Overflow) (hfirst : first ≤ 65536)
    (hfits : ∀ o j, first + j < 65536 → port o j = some (first + j).toUInt16)
    (hpast : ∀ j, ¬ first + j < 65536 → j < 65536 → port .panics j = none) :
    PortLaw answer s first
        (fun o => runChildrenIn componentPath workers localOnly (port o) rest) o ↔
      ∀ exe s', (ask .currentExe).runOn answer s = (.ok exe, s') →
        TurnsFit answer (startChildOn exe componentPath localOnly) first s' workers.toNat := by
  have hworkers := workers.toNat_lt
  rcases hexe : (ask .currentExe).runOn answer s with ⟨result, s'⟩
  cases result with
  | error e =>
    have hrun (o : Overflow) :=
      @runChildrenIn_refused S answer s (port o) e s' hexe componentPath workers localOnly rest
    refine iff_of_true ⟨Or.inl ?_, fun hover => ?_⟩ nofun
    · rw [hrun]
      exact rightPorts_nil
    · rw [hrun] at hover
      nomatch hover
  | ok exe =>
    have hrun (o : Overflow) :=
      @runChildrenIn_run S answer s (port o) exe s' hexe componentPath workers localOnly rest
    obtain ⟨hports, -⟩ := hrun o
    obtain ⟨-, hending⟩ := hrun .panics
    constructor
    · rintro h exe' s'' heq
      obtain ⟨hok, rfl⟩ := Prod.mk.inj heq
      obtain rfl := Except.ok.inj hok
      by_contra hfit
      obtain ⟨hlt, hreach⟩ := exists_past hfirst hfit
      have hover := (startEach_past (hfits .panics) hlt hreach fun j hj => by omega).1
        (by rw [Nat.zero_add]; exact hpast _ (by omega) (by omega))
      exact h.fits (hending.mpr hover)
    · intro h
      have hfit := h exe s' rfl
      obtain ⟨hright, -, -⟩ := loop_of_turnsFit (hfits o) hfit
      obtain ⟨-, hnever, -⟩ := loop_of_turnsFit (hfits .panics) hfit
      refine ⟨Or.inl ?_, fun hover => hnever (hending.mp hover)⟩
      rw [hports]
      exact hright

theorem lastPortField_eq_none_iff (o : Overflow) (recorded : Bool) (basePort : UInt16)
    (count : Nat) :
    lastPortField o recorded basePort count = none ↔
      recorded = true ∧ lastPortIn o basePort count = none := by
  cases recorded with
  | true => simp [lastPortField]
  | false => simp [lastPortField]

/-- The two loops that log the range of the ports in the end. -/
theorem ranged_law_iff (recorded : Bool) (basePort : UInt16) (reserved : Bool) (o : Overflow) :
    PortLaw answer s basePort.toNat
        (fun o => withCapacity reserved do
          return logRange o recorded basePort n (← startEach (portIn o basePort) start 0 n)) o ↔
      reserved = false ∨ (TurnsFit answer start basePort.toNat s n ∧
        ((reached answer start basePort.toNat 0 s n).isSome → recorded = true →
          1 ≤ basePort.toNat + n ∧ basePort.toNat + n ≤ 65535)) := by
  rw [reserved_law_iff basePort reserved o (lastPortField .panics recorded basePort n = none)
    (fun o => logRange o recorded basePort n) (fun o => logRange_ports o recorded basePort n)
    (logRange_ending_eq_overflow_iff .panics recorded basePort n)]
  refine or_congr_right (and_congr_right fun hfit => imp_congr_right fun hreach => ?_)
  rw [lastPortField_eq_none_iff, not_and]
  refine imp_congr_right fun _ => lastPortIn_panics_iff ?_
  rcases Nat.eq_zero_or_pos n with hzero | hpos
  · exact Or.inl hzero
  · -- the last of the workers has had its turn
    have hlast := hfit (n - 1) (Nat.sub_lt hpos Nat.one_pos) (reached_le hreach (Nat.sub_le n 1))
    omega

/-- The loop that logs nothing of the kind. -/
theorem headless_law_iff (basePort : UInt16) (reserved : Bool) (o : Overflow) :
    PortLaw answer s basePort.toNat
        (fun o => withCapacity reserved (startEach (portIn o basePort) start 0 n)) o ↔
      reserved = false ∨ TurnsFit answer start basePort.toNat s n := by
  have hlaw := @reserved_law_iff S α answer s start n basePort reserved o False
    (fun _ out => out) (fun _ _ => ⟨rfl, rfl⟩) (by simp)
  simp only [pure_eq, bind_ret] at hlaw
  rw [hlaw]
  simp

end

/-- When the ports of a call are right, for each of the five functions: every worker whose turn
    comes has a port that fits (`base_port + 1` and its number in `run_with_lb`), and where
    `process::spawn_workers` and `task::spawn_workers` get to their last line and the log records
    INFO, the sum of the base port and the count is neither 0 nor above 65535. Or there is no memory
    for the list. -/
theorem worker_ports_iff {S : Type} (answer : (a : Action) → S → Answer a × S) (s : S)
    (o : Overflow) (recorded reserved : Bool) (count : Nat) (basePort : UInt16)
    (manifestPath : String) (componentPath : Option String) (workers : UInt16)
    (portOverride manifestPort : Option UInt16) (localOnly : Bool) :
    (PortLaw answer s basePort.toNat
        (fun o => Process.spawnWorkersIn o recorded reserved count basePort manifestPath) o ↔
      reserved = false ∨
        TurnsFit answer (Process.startOn manifestPath) basePort.toNat s count ∧
        ((reached answer (Process.startOn manifestPath) basePort.toNat 0 s count).isSome →
          recorded = true → 1 ≤ basePort.toNat + count ∧ basePort.toNat + count ≤ 65535)) ∧
    (PortLaw answer s basePort.toNat
        (fun o => Task.spawnWorkersIn o recorded reserved count basePort) o ↔
      reserved = false ∨ TurnsFit answer Task.startOn basePort.toNat s count ∧
        ((reached answer Task.startOn basePort.toNat 0 s count).isSome →
          recorded = true → 1 ≤ basePort.toNat + count ∧ basePort.toNat + count ≤ 65535)) ∧
    (PortLaw answer s basePort.toNat
        (fun o => Task.spawnWorkersHeadless o reserved count basePort) o ↔
      reserved = false ∨ TurnsFit answer Task.createOn basePort.toNat s count) ∧
    (PortLaw answer s (basePortOf portOverride manifestPort).toNat
        (fun o => runMultiWorkerIn o componentPath workers portOverride manifestPort localOnly) o ↔
      ∀ exe s', (ask .currentExe).runOn answer s = (.ok exe, s') →
        TurnsFit answer (startChildOn exe componentPath localOnly)
          (basePortOf portOverride manifestPort).toNat s' workers.toNat) ∧
    (PortLaw answer s ((basePortOf portOverride manifestPort).toNat + 1)
        (fun o => runWithLbIn o componentPath workers portOverride manifestPort localOnly) o ↔
      ∀ exe s', (ask .currentExe).runOn answer s = (.ok exe, s') →
        TurnsFit answer (startChildOn exe componentPath localOnly)
          ((basePortOf portOverride manifestPort).toNat + 1) s' workers.toNat) := by
  have hbase := (basePortOf portOverride manifestPort).toNat_lt
  refine ⟨ranged_law_iff recorded basePort reserved o, ranged_law_iff recorded basePort reserved o,
    headless_law_iff basePort reserved o, ?_, ?_⟩
  · exact children_law_iff componentPath workers localOnly _ waitForCtrlC o (by omega)
      (fun o j => portIn_of_lt) (fun j => portIn_panics)
  · exact children_law_iff componentPath workers localOnly _ _ o (by omega)
      (fun o j => lbPortIn_of_lt) (fun j => lbPortIn_panics)

/-- Everything starts and no worker ends. -/
def allStart : Env where
  currentExe _ := .ok "mik"
  spawn i _ := .ok (100 + i)
  factory i := .ok i
  ctrlC := .ok ()
  ended _ := false

/-- One worker on the last port: its port fits, but the sum for the log, which records INFO, does
    not. Two workers: the second one gets port 0, whatever is recorded. -/
theorem ports_overflow :
    ¬ PortLaw (answer allStart) (World.start (some [])) 65535
        (fun o => Process.spawnWorkersIn o true true 1 65535 "mik.toml") .wraps ∧
    ¬ PortLaw (answer allStart) (World.start (some [])) 65535
        (fun o => Process.spawnWorkersIn o false true 2 65535 "mik.toml") .wraps ∧
    ((Process.spawnWorkersIn .wraps false true 2 65535 "mik.toml").runOn (answer allStart)
      (World.start (some []))).1.ports = [65535, 0] := by
  refine ⟨fun h => h.fits rfl, fun h => h.fits rfl, rfl⟩

end Mik.Cluster
