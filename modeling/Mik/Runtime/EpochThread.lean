/-
  The epoch thread of a `Host`, its shutdown flag, and who holds it (`runtime/host.rs`, and
  `Runtime::from_host` and the two `Drop` impls in `runtime/mod.rs`).

  `Host::new` starts a thread that advances the engine's epoch until it finds `epoch_shutdown` set.
  The flag is shared through an `Arc`; a `Host` and a `Runtime` set it when they are dropped. A
  `World` holds the values that are alive, each in a slot of its own, and the flags they share; a
  `Runtime` may be behind an `Arc` and is dropped with its last handle. `fromHost` takes the host
  by value: after its last expression the parameter goes out of scope, and with it runs its
  destructor.
-/
import Mathlib.Logic.Function.Basic
import Mik.Lib.Run

namespace Mik.Epoch

open Mik.Lib

/-- `engine` stands for `shared`, `epochShutdown` for the flag behind the `Arc`. -/
structure Host where
  engine : Nat
  epochShutdown : Nat
  deriving DecidableEq, Repr

structure Runtime where
  engine : Nat
  epochShutdown : Nat
  deriving DecidableEq, Repr

/-- A value that is alive; a runtime with the handles it has beyond the first. -/
inductive Value where
  | host (host : Host)
  | runtime (rt : Runtime) (more : Nat)
  deriving DecidableEq, Repr

/-- Where the epoch thread stands in its loop. -/
inductive Phase where
  | checking
  | sleeping
  | exited
  deriving DecidableEq, Repr

/-- `fresh` numbers the next engine and its flag; `retired` notes the flags whose runtime has been
    dropped. -/
structure World where
  values : Nat → Option Value
  flags : Nat → Bool
  threads : Nat → Phase
  epochs : Nat → Nat
  fresh : Nat
  retired : Nat → Bool

def World.empty : World :=
  ⟨fun _ => none, fun _ => false, fun _ => .exited, fun _ => 0, 0, fun _ => false⟩

def Value.flag : Value → Nat
  | .host h => h.epochShutdown
  | .runtime rt _ => rt.epochShutdown

/-! ## The code -/

/-- `epoch_shutdown.store(true)`. -/
def World.storeShutdown (w : World) (flag : Nat) : World :=
  { w with flags := Function.update w.flags flag true }

/-- `Host::start_epoch_thread`, for an engine and flag that are new. -/
def World.startEpochThread (w : World) : Nat × World :=
  (w.fresh,
    { w with
      flags := Function.update w.flags w.fresh false
      threads := Function.update w.threads w.fresh .checking
      epochs := Function.update w.epochs w.fresh 0
      fresh := w.fresh + 1 })

/-- `Host::new`. -/
def World.newHost (w : World) : Host × World :=
  let (flag, w') := w.startEpochThread
  (⟨w.fresh, flag⟩, w')

/-- `Drop for Host`. -/
def World.dropHost (w : World) (host : Host) : World := w.storeShutdown host.epochShutdown

/-- `Drop for Runtime`. -/
def World.dropRuntime (w : World) (rt : Runtime) : World :=
  let w' := w.storeShutdown rt.epochShutdown
  { w' with retired := Function.update w'.retired rt.epochShutdown true }

/-- `Runtime::from_host`: both fields are cloned, and `host` goes out of scope. -/
def World.fromHost (w : World) (host : Host) : Runtime × World :=
  let rt : Runtime := ⟨host.engine, host.epochShutdown⟩
  (rt, w.dropHost host)

/-- One turn of the epoch thread of `engine`: it reads the flag, or wakes up and advances the
    epoch. -/
def World.tick (w : World) (engine : Nat) : World :=
  match w.threads engine with
  | .checking =>
    let next := if w.flags engine then Phase.exited else .sleeping
    { w with threads := Function.update w.threads engine next }
  | .sleeping =>
    { w with
      threads := Function.update w.threads engine .checking
      epochs := Function.update w.epochs engine (w.epochs engine + 1) }
  | .exited => w

/-! ## Lifetimes -/

/-- What a program does with the value of a slot, and the turns of the epoch threads. -/
inductive Lifecycle where
  | construct (slot : Nat)
  | convert (slot : Nat)
  | clone (slot : Nat)
  | drop (slot : Nat)
  | tick (engine : Nat)
  deriving DecidableEq, Repr

def World.put (w : World) (slot : Nat) (value : Option Value) : World :=
  { w with values := Function.update w.values slot value }

def World.step (w : World) : Lifecycle → World
  | .construct slot =>
    match w.values slot with
    | none => (w.newHost.2).put slot (some (.host w.newHost.1))
    | some _ => w
  | .convert slot =>
    match w.values slot with
    | some (.host host) => ((w.fromHost host).2).put slot (some (.runtime (w.fromHost host).1 0))
    | _ => w
  | .clone slot =>
    match w.values slot with
    | some (.runtime rt more) => w.put slot (some (.runtime rt (more + 1)))
    | _ => w
  | .drop slot =>
    match w.values slot with
    | none => w
    | some (.host host) => (w.dropHost host).put slot none
    | some (.runtime rt 0) => (w.dropRuntime rt).put slot none
    | some (.runtime rt (more + 1)) => w.put slot (some (.runtime rt more))
  | .tick engine => w.tick engine

/-- The ticker of every runtime that is alive, and whose flag no dropped runtime shares, has not
    been told to stop. -/
def TickerLives (w : World) : Prop :=
  ∀ slot rt more, w.values slot = some (.runtime rt more) →
    w.retired rt.epochShutdown = false → w.flags rt.epochShutdown = false

/-- The step converts no host. -/
def NoConversion (w : World) (a : Lifecycle) : Prop :=
  ∀ slot host, a = .convert slot → w.values slot ≠ some (.host host)

/-- The values that are alive hold flags of their own, which no runtime retired, and every runtime
    among them came out of `fromHost` with its flag set. -/
structure Owned (w : World) : Prop where
  unique : ∀ i j v v', w.values i = some v → w.values j = some v' → v.flag = v'.flag → i = j
  started : ∀ i v, w.values i = some v → v.flag < w.fresh
  inUse : ∀ i v, w.values i = some v → w.retired v.flag = false
  future : ∀ f, w.fresh ≤ f → w.retired f = false
  told : ∀ i rt more, w.values i = some (.runtime rt more) → w.flags rt.epochShutdown = true

/-! ## What a step keeps -/

theorem owned_empty : Owned .empty where
  unique _ _ _ _ h := by cases h
  started _ _ h := by cases h
  inUse _ _ h := by cases h
  future _ _ := rfl
  told _ _ _ h := by cases h

section

variable {w : World} {slot : Nat}

/-- Storing to a flag keeps the invariant. -/
theorem Owned.storeShutdown (h : Owned w) (flag : Nat) : Owned (w.storeShutdown flag) where
  unique := h.unique
  started := h.started
  inUse := h.inUse
  future := h.future
  told i rt more hi := by
    show Function.update w.flags flag true rt.epochShutdown = true
    by_cases hf : rt.epochShutdown = flag
    · rw [hf, Function.update_self]
    · rw [Function.update_of_ne hf]
      exact h.told i rt more hi

/-- Emptying a slot keeps the invariant. -/
theorem Owned.clear (h : Owned w) (slot : Nat) : Owned (w.put slot none) := by
  have hold : ∀ i v, (w.put slot none).values i = some v → w.values i = some v := by
    intro i v hi
    have hi' : Function.update w.values slot none i = some v := hi
    by_cases hs : i = slot
    · rw [hs, Function.update_self] at hi'
      cases hi'
    · rwa [Function.update_of_ne hs] at hi'
  exact
    { unique := fun i j v v' hi hj => h.unique i j v v' (hold i v hi) (hold j v' hj)
      started := fun i v hi => h.started i v (hold i v hi)
      inUse := fun i v hi => h.inUse i v (hold i v hi)
      future := h.future
      told := fun i rt more hi => h.told i rt more (hold i _ hi) }

/-- Filling a slot with a value whose flag no other slot holds keeps the invariant. -/
theorem Owned.fill (h : Owned w) {v : Value}
    (hother : ∀ i v', i ≠ slot → w.values i = some v' → v'.flag ≠ v.flag)
    (hstarted : v.flag < w.fresh) (hused : w.retired v.flag = false)
    (htold : ∀ rt more, v = .runtime rt more → w.flags rt.epochShutdown = true) :
    Owned (w.put slot (some v)) := by
  have hcase : ∀ i v', (w.put slot (some v)).values i = some v' →
      (i = slot ∧ v' = v) ∨ (i ≠ slot ∧ w.values i = some v') := by
    intro i v' hi
    have hi' : Function.update w.values slot (some v) i = some v' := hi
    by_cases hs : i = slot
    · rw [hs, Function.update_self] at hi'
      exact Or.inl ⟨hs, (Option.some.inj hi').symm⟩
    · rw [Function.update_of_ne hs] at hi'
      exact Or.inr ⟨hs, hi'⟩
  refine ⟨?_, ?_, ?_, h.future, ?_⟩
  · intro i j v₁ v₂ hi hj hflag
    rcases hcase i v₁ hi with ⟨hi', rfl⟩ | ⟨hi', hold⟩
    · rcases hcase j v₂ hj with ⟨hj', rfl⟩ | ⟨hj', hold'⟩
      · exact hi'.trans hj'.symm
      · exact absurd hflag.symm (hother j v₂ hj' hold')
    · rcases hcase j v₂ hj with ⟨hj', rfl⟩ | ⟨hj', hold'⟩
      · exact absurd hflag (hother i v₁ hi' hold)
      · exact h.unique i j v₁ v₂ hold hold' hflag
  · intro i v' hi
    rcases hcase i v' hi with ⟨-, rfl⟩ | ⟨-, hold⟩
    · exact hstarted
    · exact h.started i v' hold
  · intro i v' hi
    rcases hcase i v' hi with ⟨-, rfl⟩ | ⟨-, hold⟩
    · exact hused
    · exact h.inUse i v' hold
  · intro i rt more hi
    rcases hcase i _ hi with ⟨-, hv⟩ | ⟨-, hold⟩
    · exact htold rt more hv.symm
    · exact h.told i rt more hold

/-- A new engine and its flag keep the invariant. -/
theorem Owned.newHost (h : Owned w) : Owned w.newHost.2 where
  unique := h.unique
  started i v hi := by
    have := h.started i v hi
    show v.flag < w.fresh + 1
    omega
  inUse := h.inUse
  future f hf := h.future f (by
    have : w.fresh + 1 ≤ f := hf
    omega)
  told i rt more hi := by
    have hlt : rt.epochShutdown < w.fresh := h.started i _ hi
    show Function.update w.flags w.fresh false rt.epochShutdown = true
    rw [Function.update_of_ne (by omega)]
    exact h.told i rt more hi

theorem Owned.tick (h : Owned w) (engine : Nat) : Owned (w.tick engine) := by
  unfold World.tick
  split
  · exact ⟨h.unique, h.started, h.inUse, h.future, h.told⟩
  · exact ⟨h.unique, h.started, h.inUse, h.future, h.told⟩
  · exact h

/-- Dropping the runtime of a slot retires its flag, which no other slot holds. -/
theorem Owned.dropRuntime (h : Owned w) {rt : Runtime} {more : Nat}
    (hslot : w.values slot = some (.runtime rt more)) :
    Owned ((w.dropRuntime rt).put slot none) := by
  have hbase := (h.storeShutdown rt.epochShutdown).clear slot
  have hother : ∀ i v, ((w.storeShutdown rt.epochShutdown).put slot none).values i = some v →
      v.flag ≠ rt.epochShutdown := by
    intro i v hi hflag
    have hi' : Function.update w.values slot none i = some v := hi
    by_cases hs : i = slot
    · rw [hs, Function.update_self] at hi'
      cases hi'
    · rw [Function.update_of_ne hs] at hi'
      exact hs (h.unique i slot v _ hi' hslot hflag)
  refine ⟨hbase.unique, hbase.started, ?_, ?_, hbase.told⟩
  · intro i v hi
    show Function.update w.retired rt.epochShutdown true v.flag = false
    rw [Function.update_of_ne (hother i v hi)]
    exact hbase.inUse i v hi
  · intro f hf
    have hlt : rt.epochShutdown < w.fresh := h.started slot _ hslot
    have hf' : w.fresh ≤ f := hf
    show Function.update w.retired rt.epochShutdown true f = false
    rw [Function.update_of_ne (by omega)]
    exact h.future f hf'

/-- Replacing the value of a slot by one with the same flag keeps the invariant. -/
theorem Owned.replace (h : Owned w) {v v' : Value} (hslot : w.values slot = some v)
    (hflag : v'.flag = v.flag)
    (htold : ∀ rt more, v' = .runtime rt more → w.flags rt.epochShutdown = true) :
    Owned (w.put slot (some v')) := by
  apply h.fill
  · intro i v₁ hi hv hsame
    exact hi (h.unique i slot v₁ v hv hslot (hsame.trans hflag))
  · rw [hflag]
    exact h.started slot v hslot
  · rw [hflag]
    exact h.inUse slot v hslot
  · exact htold

end

theorem owned_step (w : World) (a : Lifecycle) (h : Owned w) : Owned (w.step a) := by
  cases a with
  | construct slot =>
    unfold World.step
    dsimp only
    split
    · apply h.newHost.fill
      · intro i v hi hv
        have hlt : v.flag < w.fresh := h.started i v hv
        show v.flag ≠ w.fresh
        omega
      · exact Nat.lt_succ_self w.fresh
      · exact h.future w.fresh (Nat.le_refl _)
      · intro rt more hv
        cases hv
    · exact h
  | convert slot =>
    unfold World.step
    dsimp only
    split
    · next host hslot =>
      apply (h.storeShutdown host.epochShutdown).replace hslot
      · rfl
      · intro rt more hv
        cases hv
        exact Function.update_self host.epochShutdown true w.flags
    · exact h
  | clone slot =>
    unfold World.step
    dsimp only
    split
    · next rt more hslot =>
      apply h.replace hslot
      · rfl
      · intro rt' more' hv
        cases hv
        exact h.told slot rt more hslot
    · exact h
  | drop slot =>
    unfold World.step
    dsimp only
    split
    · exact h
    · next host hslot => exact (h.storeShutdown host.epochShutdown).clear slot
    · next rt hslot => exact h.dropRuntime hslot
    · next rt more hslot =>
      apply h.replace hslot
      · rfl
      · intro rt' more' hv
        cases hv
        exact h.told slot rt _ hslot
  | tick engine => exact h.tick engine

/-! ## No runtime has a living ticker -/

def NoRuntime (w : World) : Prop := ∀ slot rt more, w.values slot ≠ some (.runtime rt more)

/-- The ticker of a runtime is told to stop by the conversion that builds the runtime. -/
theorem tickerLives_iff {w : World} (h : Owned w) : TickerLives w ↔ NoRuntime w := by
  constructor
  · intro hlives slot rt more hslot
    have hset := h.told slot rt more hslot
    rw [hlives slot rt more hslot (h.inUse slot _ hslot)] at hset
    cases hset
  · intro hno slot rt more hslot
    exact absurd hslot (hno slot rt more)

theorem noRuntime_put {w : World} {slot : Nat} {value : Option Value} (h : NoRuntime w)
    (hv : ∀ rt more, value ≠ some (.runtime rt more)) : NoRuntime (w.put slot value) := by
  intro i rt more hi
  have hi' : Function.update w.values slot value i = some (.runtime rt more) := hi
  by_cases hs : i = slot
  · rw [hs, Function.update_self] at hi'
    exact hv rt more hi'
  · rw [Function.update_of_ne hs] at hi'
    exact h i rt more hi'

/-- The first runtime comes about by a conversion. -/
theorem noRuntime_step_iff {w : World} (a : Lifecycle) (h : NoRuntime w) :
    NoRuntime (w.step a) ↔ NoConversion w a := by
  cases a with
  | construct slot =>
    refine ⟨fun _ _ _ ha => (by cases ha), fun _ => ?_⟩
    unfold World.step
    dsimp only
    split
    · exact noRuntime_put h (fun rt more hv => by cases hv)
    · exact h
  | convert slot =>
    unfold World.step
    dsimp only
    split
    · next host hslot =>
      constructor
      · intro hno
        exact absurd (Function.update_self slot _ w.values) (hno slot _ 0)
      · intro hconv
        exact absurd hslot (hconv slot host rfl)
    · next hnot =>
      refine ⟨fun _ slot' host ha hhost => ?_, fun _ => h⟩
      cases ha
      exact hnot host hhost
  | clone slot =>
    refine ⟨fun _ _ _ ha => (by cases ha), fun _ => ?_⟩
    unfold World.step
    dsimp only
    split
    · next rt more hslot => exact absurd hslot (h slot rt more)
    · exact h
  | drop slot =>
    refine ⟨fun _ _ _ ha => (by cases ha), fun _ => ?_⟩
    unfold World.step
    dsimp only
    split
    · exact h
    · exact noRuntime_put h (fun rt more hv => by cases hv)
    · next rt hslot => exact absurd hslot (h slot rt 0)
    · next rt more hslot => exact absurd hslot (h slot rt _)
  | tick engine =>
    refine ⟨fun _ _ _ ha => (by cases ha), fun _ => ?_⟩
    show NoRuntime (w.tick engine)
    unfold World.tick
    split <;> exact h

/-- The ticker lives as long as its runtime, throughout a sequence of constructions, conversions,
    clones and drops, exactly when the sequence converts no host: the conversion itself tells the
    ticker of the runtime that it builds to stop. -/
theorem ticker_lives_iff (acts : List Lifecycle) :
    (∀ pre, pre <+: acts → TickerLives (run World.step .empty pre)) ↔
      Along World.step NoConversion .empty acts := by
  apply good_throughout_iff Owned TickerLives owned_empty
  · intro slot rt more hslot
    cases hslot
  · exact owned_step
  · intro w a h hlives
    rw [tickerLives_iff (owned_step w a h)]
    exact noRuntime_step_iff a ((tickerLives_iff h).mp hlives)

/-- The runtime of the first host is alive, and its flag is set. -/
theorem ticker_stopped_by_conversion :
    ¬ ∀ acts pre, pre <+: acts → TickerLives (run World.step .empty pre) := by
  intro h
  have hfalse := h [.construct 0, .convert 0] [.construct 0, .convert 0] (List.prefix_refl _) 0
    ⟨0, 0⟩ 0 (by decide) (by decide)
  revert hfalse
  decide

/-! ## The epoch stands still -/

/-- How far the epoch of `engine` can still get: the thread may be in the sleep that comes before
    the next increment. -/
def World.reach (w : World) (engine : Nat) : Nat :=
  w.epochs engine + if w.threads engine = .sleeping then 1 else 0

/-- Once the flag of an engine is set, no step clears it or takes its epoch further than the thread
    had already got. -/
theorem reach_step {w : World} {engine : Nat} (a : Lifecycle) (hlt : engine < w.fresh)
    (hset : w.flags engine = true) :
    engine < (w.step a).fresh ∧ (w.step a).flags engine = true ∧
      (w.step a).reach engine ≤ w.reach engine := by
  have hstore : ∀ flag, Function.update w.flags flag true engine = true := by
    intro flag
    rw [Function.update_apply]
    split
    · rfl
    · exact hset
  cases a with
  | construct slot =>
    unfold World.step
    dsimp only
    split
    · have hne : engine ≠ w.fresh := by omega
      refine ⟨Nat.lt_succ_of_lt hlt, ?_, Nat.le_of_eq ?_⟩
      · show Function.update w.flags w.fresh false engine = true
        rw [Function.update_of_ne hne, hset]
      · simp [World.reach, World.put, World.newHost, World.startEpochThread, hne]
    · exact ⟨hlt, hset, Nat.le_refl _⟩
  | convert slot =>
    unfold World.step
    dsimp only
    split
    · next host _ => exact ⟨hlt, hstore host.epochShutdown, Nat.le_refl _⟩
    · exact ⟨hlt, hset, Nat.le_refl _⟩
  | clone slot =>
    unfold World.step
    dsimp only
    split <;> exact ⟨hlt, hset, Nat.le_refl _⟩
  | drop slot =>
    unfold World.step
    dsimp only
    split
    · exact ⟨hlt, hset, Nat.le_refl _⟩
    · next host _ => exact ⟨hlt, hstore host.epochShutdown, Nat.le_refl _⟩
    · next rt _ => exact ⟨hlt, hstore rt.epochShutdown, Nat.le_refl _⟩
    · exact ⟨hlt, hset, Nat.le_refl _⟩
  | tick engine' =>
    show engine < (w.tick engine').fresh ∧ (w.tick engine').flags engine = true ∧
      (w.tick engine').reach engine ≤ w.reach engine
    by_cases he : engine = engine'
    · subst he
      unfold World.tick
      split
      · next hphase => simp [World.reach, hphase, hset, hlt]
      · next hphase => simp [World.reach, hphase, hset, hlt]
      · exact ⟨hlt, hset, Nat.le_refl _⟩
    · unfold World.tick
      split
      · simp [World.reach, he, hset, hlt]
      · simp [World.reach, he, hset, hlt]
      · exact ⟨hlt, hset, Nat.le_refl _⟩

/-- After a host's conversion the epoch of its engine, which the timeouts are measured by, advances
    at most once more, whatever happens. -/
theorem epoch_stalls {w : World} {slot : Nat} {host : Host} (h : Owned w)
    (hslot : w.values slot = some (.host host)) (acts : List Lifecycle) :
    (run World.step w (.convert slot :: acts)).epochs host.epochShutdown ≤
      w.epochs host.epochShutdown + 1 := by
  have hstep : w.step (.convert slot) =
      ((w.fromHost host).2).put slot (some (.runtime (w.fromHost host).1 0)) := by
    unfold World.step
    simp only [hslot]
  have hset : Function.update w.flags host.epochShutdown true host.epochShutdown = true :=
    Function.update_self ..
  have hkeep := run_keeps
    (fun w' : World => host.epochShutdown < w'.fresh ∧ w'.flags host.epochShutdown = true ∧
      w'.reach host.epochShutdown ≤ w.reach host.epochShutdown)
    (fun w' a hw' => by
      obtain ⟨hlt, hset', hreach⟩ := reach_step a hw'.1 hw'.2.1
      exact ⟨hlt, hset', Nat.le_trans hreach hw'.2.2⟩)
    (s := w.step (.convert slot))
    (by
      rw [hstep]
      exact ⟨h.started slot _ hslot, hset, Nat.le_refl _⟩) acts
  have hreach := hkeep.2.2
  rw [run_cons]
  unfold World.reach at hreach
  split at hreach <;> split at hreach <;> omega

end Mik.Epoch
