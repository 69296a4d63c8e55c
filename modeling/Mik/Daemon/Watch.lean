/-
  The file watcher's debouncer (`src/daemon/watch.rs`).

  `handleNotifyEvent` turns what `notify` reports into events, `DebouncedEvents` holds an event
  back until its path has been quiet for the debounce time, and `watchLoop` is the loop around
  both. Paths are keys of a `HashMap<PathBuf, _>`, so two spellings of one path are one key:
  `PathBuf` compares components. The table of pending events is an association list; its order
  stands for the unspecified order of the map, and no statement below depends on it.

  `refines_slots` is the connection to `Mik.Lib.Debounce`: each module path and the configuration
  has a slot of its own, and what a drain gives for it is what its slot gives (`debouncer_exact`).

  Times are nanoseconds of one clock, which does not go back (`Instant`); `duration_since` is zero
  for a later time.
-/
import Mathlib.Data.List.AList
import Mik.Lib.Debounce
import Mik.Lib.UnixPath

namespace Mik.Daemon

open Mik.Lib Mik.Lib.Debounce

inductive WatchEvent where
  | moduleChanged (path : String)
  | moduleRemoved (path : String)
  | configChanged
  | error (message : String)
  deriving DecidableEq, Repr

/-- `notify::EventKind`, without what says more about a kind. -/
inductive EventKind where
  | any
  | access
  | create
  | modify
  | remove
  | other
  deriving DecidableEq, Repr

structure NotifyEvent where
  kind : EventKind
  paths : List String
  deriving DecidableEq, Repr

/-- What one path of a change is told on as. -/
def pathEvent (kind : EventKind) (modulesDir configPath path : String) : Option WatchEvent :=
  if components path = components configPath ∨ fileName path = some "mik.toml" then
    some .configChanged
  else
    let isWasm := decide (extension path = some "wasm")
    let inModules := startsWithPath path modulesDir
    if isWasm && inModules then
      some (if kind = .remove then .moduleRemoved path else .moduleChanged path)
    else none

/-- What is sent for a report of the file system watcher. -/
def handleNotifyEvent (result : Except String NotifyEvent) (modulesDir configPath : String) :
    List WatchEvent :=
  match result with
  | .ok event =>
    let isChange := decide (event.kind ∈ [.create, .modify, .remove])
    if isChange = false then []
    else event.paths.filterMap (pathEvent event.kind modulesDir configPath)
  | .error message => [.error message]

abbrev Pending := AList fun _ : List Component => WatchEvent × Nat

structure DebouncedEvents where
  pending : Pending
  debounceDuration : Nat
  configPending : Option Nat

/-- Removes the paths one after the other; the events that were there, and what is left. -/
def takeAll : List (List Component) → Pending → List WatchEvent × Pending
  | [], pending => ([], pending)
  | path :: paths, pending =>
    match pending.lookup path with
    | some (event, _) =>
      let rest := takeAll paths (pending.erase path)
      (event :: rest.1, rest.2)
    | none => takeAll paths pending

namespace DebouncedEvents

/-- `DebouncedEvents::new`. -/
def new (debounceMs : UInt64) : DebouncedEvents := ⟨∅, debounceMs.toNat * 1000000, none⟩

def record (s : DebouncedEvents) (now : Nat) (event : WatchEvent) : DebouncedEvents :=
  match event with
  | .moduleChanged path => { s with pending := s.pending.insert (components path) (event, now) }
  | .moduleRemoved path => { s with pending := s.pending.insert (components path) (event, now) }
  | .configChanged => { s with configPending := some now }
  -- under the empty path
  | .error _ => { s with pending := s.pending.insert (components "") (event, now) }

/-- The paths whose event has been stable for the debounce time. -/
def expiredPaths (s : DebouncedEvents) (now : Nat) : List (List Component) :=
  (s.pending.entries.filter fun entry => s.debounceDuration ≤ now - entry.2.2).map Sigma.fst

/-- The part of `drain_ready` that checks the configuration. -/
def drainConfig (s : DebouncedEvents) (now : Nat) : List WatchEvent × Option Nat :=
  match s.configPending with
  | some time =>
    if s.debounceDuration ≤ now - time then ([.configChanged], none) else ([], some time)
  | none => ([], none)

def drainReady (s : DebouncedEvents) (now : Nat) : List WatchEvent × DebouncedEvents :=
  let config := s.drainConfig now
  let files := takeAll (s.expiredPaths now) s.pending
  (config.1 ++ files.1, { s with pending := files.2, configPending := config.2 })

/-- A call of `record` or of `drain_ready`, at the time it reads the clock. -/
def step (s : DebouncedEvents) (c : Nat × Call WatchEvent) : DebouncedEvents :=
  match c.2 with
  | .record event => s.record c.1 event
  | .drain => (s.drainReady c.1).2

/-- What the drains among the calls emit, one after the other. -/
def emitted (s : DebouncedEvents) : List (Nat × Call WatchEvent) → List WatchEvent
  | [] => []
  | c :: calls => (if c.2.isDrain then (s.drainReady c.1).1 else []) ++ (s.step c).emitted calls

end DebouncedEvents

/-- One turn of the loop: the events that were received, each with the time it is recorded at,
    and the time of the drain. -/
structure Turn where
  received : List (Nat × WatchEvent)
  drained : Nat
  deriving DecidableEq, Repr

/-- `watch_loop_with_debounce`: the events that `on_reload` is called with. -/
def watchLoop (s : DebouncedEvents) : List Turn → List WatchEvent
  | [] => []
  | turn :: turns =>
    let recorded := turn.received.foldl (fun s r => s.record r.1 r.2) s
    let drained := recorded.drainReady turn.drained
    drained.1 ++ watchLoop drained.2 turns

/-- The calls that a turn makes. -/
def Turn.calls (turn : Turn) : List (Nat × Call WatchEvent) :=
  turn.received.map (fun r => (r.1, Call.record r.2)) ++ [(turn.drained, Call.drain)]

/-! ## Slots -/

/-- What an event is kept under. -/
inductive PendingKey where
  | config
  | path (key : List Component)
  deriving DecidableEq, Repr

def WatchEvent.key : WatchEvent → PendingKey
  | .moduleChanged path => .path (components path)
  | .moduleRemoved path => .path (components path)
  | .configChanged => .config
  | .error _ => .path (components "")

/-- Each pending event is kept under its own key. -/
def Keyed (pending : Pending) : Prop :=
  ∀ path event since, pending.lookup path = some (event, since) → event.key = .path path

theorem Keyed.erase {pending : Pending} (h : Keyed pending) (path : List Component) :
    Keyed (pending.erase path) := by
  intro q event since hlook
  by_cases hq : q = path
  · rw [hq, AList.lookup_erase] at hlook
    nomatch hlook
  · rw [AList.lookup_erase_ne hq] at hlook
    exact h q event since hlook

theorem Keyed.insert {pending : Pending} (h : Keyed pending) {path : List Component}
    {event : WatchEvent} (hkey : event.key = .path path) (now : Nat) :
    Keyed (pending.insert path (event, now)) := by
  intro q event' since hlook
  by_cases hq : q = path
  · rw [hq, AList.lookup_insert] at hlook
    obtain ⟨rfl, rfl⟩ := Prod.mk.inj (Option.some.inj hlook)
    rw [hq]
    exact hkey
  · rw [AList.lookup_insert_ne hq] at hlook
    exact h q event' since hlook

theorem takeAll_of_none {path : List Component} {pending : Pending}
    (h : pending.lookup path = none) (paths : List (List Component)) :
    takeAll (path :: paths) pending = takeAll paths pending := by
  simp only [takeAll, h]

theorem takeAll_of_some {path : List Component} {pending : Pending} {entry : WatchEvent × Nat}
    (h : pending.lookup path = some entry) (paths : List (List Component)) :
    takeAll (path :: paths) pending
      = (entry.1 :: (takeAll paths (pending.erase path)).1,
          (takeAll paths (pending.erase path)).2) := by
  simp only [takeAll, h]

theorem lookup_takeAll (paths : List (List Component)) (pending : Pending) (q : List Component) :
    (takeAll paths pending).2.lookup q = if q ∈ paths then none else pending.lookup q := by
  induction paths generalizing pending with
  | nil => rfl
  | cons path paths ih =>
    cases hlook : pending.lookup path with
    | none =>
      rw [takeAll_of_none hlook, ih]
      by_cases hq : q = path
      · subst hq
        simp [hlook]
      · simp [hq]
    | some entry =>
      rw [takeAll_of_some hlook, ih]
      by_cases hq : q = path
      · subst hq
        simp
      · simp [hq, AList.lookup_erase_ne hq]

/-- What is taken for one path is what waits under it, if it is among those removed. -/
theorem filter_takeAll (paths : List (List Component)) {pending : Pending} (h : Keyed pending)
    (q : List Component) :
    (takeAll paths pending).1.filter (fun event => event.key = .path q)
      = if q ∈ paths then ((pending.lookup q).map Prod.fst).toList else [] := by
  induction paths generalizing pending with
  | nil => rfl
  | cons path paths ih =>
    cases hlook : pending.lookup path with
    | none =>
      rw [takeAll_of_none hlook, ih h]
      by_cases hq : q = path
      · subst hq
        simp [hlook]
      · simp [hq]
    | some entry =>
      rw [takeAll_of_some hlook]
      have hentry := h path entry.1 entry.2 hlook
      by_cases hq : q = path
      · subst hq
        rw [List.filter_cons_of_pos (by simpa using hentry), ih (h.erase q)]
        simp [hlook]
      · have hne : ¬ path = q := fun heq => hq heq.symm
        rw [List.filter_cons_of_neg (by simp [hentry, hne]), ih (h.erase path)]
        simp [hq, AList.lookup_erase_ne hq]

/-- Nothing that is taken is under the key of the configuration. -/
theorem filter_takeAll_config (paths : List (List Component)) {pending : Pending}
    (h : Keyed pending) :
    (takeAll paths pending).1.filter (fun event => event.key = .config) = [] := by
  induction paths generalizing pending with
  | nil => rfl
  | cons path paths ih =>
    cases hlook : pending.lookup path with
    | none =>
      rw [takeAll_of_none hlook]
      exact ih h
    | some entry =>
      have hentry := h path entry.1 entry.2 hlook
      rw [takeAll_of_some hlook, List.filter_cons_of_neg (by simp [hentry])]
      exact ih (h.erase path)

namespace DebouncedEvents

/-- What waits under a key. -/
def slot (s : DebouncedEvents) : PendingKey → Slot WatchEvent
  | .config => s.configPending.map fun time => (.configChanged, time)
  | .path q => s.pending.lookup q

theorem mem_expiredPaths {s : DebouncedEvents} {now : Nat} {q : List Component} :
    q ∈ s.expiredPaths now ↔
      ∃ entry, s.pending.lookup q = some entry ∧ s.debounceDuration ≤ now - entry.2 := by
  simp only [expiredPaths, List.mem_map, List.mem_filter, decide_eq_true_eq]
  constructor
  · rintro ⟨⟨q', entry⟩, ⟨hmem, hage⟩, rfl⟩
    exact ⟨entry, AList.mem_lookup_iff.mpr hmem, hage⟩
  · rintro ⟨entry, hlook, hage⟩
    exact ⟨⟨q, entry⟩, ⟨AList.mem_lookup_iff.mp hlook, hage⟩, rfl⟩

section

variable {s : DebouncedEvents}

theorem slot_record (s : DebouncedEvents) (now : Nat) (event : WatchEvent) (k : PendingKey) :
    (s.record now event).slot k = if event.key = k then some (event, now) else s.slot k := by
  have hinsert (path : List Component) :
      slot { s with pending := s.pending.insert path (event, now) } k
        = if PendingKey.path path = k then some (event, now) else s.slot k := by
    cases k with
    | config => rfl
    | path q =>
      by_cases hq : path = q
      · subst hq
        rw [if_pos rfl]
        exact AList.lookup_insert _
      · rw [if_neg fun heq => hq (PendingKey.path.inj heq)]
        exact AList.lookup_insert_ne (Ne.symm hq)
  cases event with
  | moduleChanged path => exact hinsert _
  | moduleRemoved path => exact hinsert _
  | error message => exact hinsert _
  | configChanged =>
    cases k with
    | config => rfl
    | path q => rfl

theorem drainConfig_eq (s : DebouncedEvents) (now : Nat) :
    (s.drainConfig now).1 = due s.debounceDuration (s.slot .config) now ∧
    ((s.drainConfig now).2.map fun time => (WatchEvent.configChanged, time))
      = held s.debounceDuration (s.slot .config) now := by
  unfold drainConfig slot due held
  cases s.configPending with
  | none => exact ⟨rfl, rfl⟩
  | some time =>
    simp only [Option.map_some]
    split
    · exact ⟨rfl, rfl⟩
    · exact ⟨rfl, rfl⟩

/-- What a drain leaves under a key. -/
theorem slot_drainReady (s : DebouncedEvents) (now : Nat) (k : PendingKey) :
    (s.drainReady now).2.slot k = held s.debounceDuration (s.slot k) now := by
  cases k with
  | config => exact (drainConfig_eq s now).2
  | path q =>
    calc (s.drainReady now).2.slot (.path q)
        = if q ∈ s.expiredPaths now then none else s.pending.lookup q := lookup_takeAll _ _ q
      _ = held s.debounceDuration (s.slot (.path q)) now := by
        simp only [mem_expiredPaths, slot, held]
        cases s.pending.lookup q with
        | none => simp
        | some entry => simp

theorem key_of_mem_drainConfig {now : Nat} {event : WatchEvent}
    (h : event ∈ (s.drainConfig now).1) : event.key = .config := by
  unfold drainConfig at h
  split at h
  · split at h
    · rw [List.mem_singleton.mp h]
      rfl
    · exact absurd h List.not_mem_nil
  · exact absurd h List.not_mem_nil

/-- What it gives for the key. -/
theorem filter_drainReady (h : Keyed s.pending) (now : Nat) (k : PendingKey) :
    (s.drainReady now).1.filter (fun event => event.key = k)
      = due s.debounceDuration (s.slot k) now := by
  unfold drainReady
  rw [List.filter_append]
  cases k with
  | config =>
    have hall : ∀ event ∈ (s.drainConfig now).1, decide (event.key = .config) = true :=
      fun event hmem => decide_eq_true (key_of_mem_drainConfig hmem)
    rw [filter_takeAll_config _ h, List.append_nil, List.filter_eq_self.mpr hall]
    exact (drainConfig_eq s now).1
  | path q =>
    have hnone : ∀ event ∈ (s.drainConfig now).1, ¬ decide (event.key = .path q) = true := by
      intro event hmem
      rw [key_of_mem_drainConfig hmem]
      exact Bool.false_ne_true
    rw [List.filter_eq_nil_iff.mpr hnone, List.nil_append, filter_takeAll _ h]
    simp only [mem_expiredPaths, slot, due]
    cases s.pending.lookup q with
    | none => simp
    | some entry => simp

theorem debounceDuration_record (s : DebouncedEvents) (now : Nat) (event : WatchEvent) :
    (s.record now event).debounceDuration = s.debounceDuration := by
  cases event with
  | moduleChanged path => rfl
  | moduleRemoved path => rfl
  | configChanged => rfl
  | error message => rfl

theorem keyed_record (h : Keyed s.pending) (now : Nat) (event : WatchEvent) :
    Keyed (s.record now event).pending := by
  cases event with
  | moduleChanged path => exact h.insert rfl now
  | moduleRemoved path => exact h.insert rfl now
  | configChanged => exact h
  | error message => exact h.insert rfl now

theorem keyed_drainReady (h : Keyed s.pending) (now : Nat) :
    Keyed (s.drainReady now).2.pending := by
  intro q event since hlook
  have htake : (takeAll (s.expiredPaths now) s.pending).2.lookup q = some (event, since) := hlook
  rw [lookup_takeAll] at htake
  split at htake
  · nomatch htake
  · exact h q event since htake

/-- A call does to each slot what it is meant to do, and to nothing else. -/
theorem refines_slots (h : Keyed s.pending) (c : Nat × Call WatchEvent) :
    Keyed (s.step c).pending ∧ (s.step c).debounceDuration = s.debounceDuration ∧
    ∀ k, (s.step c).slot k = slotStep WatchEvent.key s.debounceDuration k (s.slot k) c := by
  obtain ⟨now, call⟩ := c
  cases call with
  | record event =>
    exact ⟨keyed_record h now event, debounceDuration_record s now event,
      fun k => slot_record s now event k⟩
  | drain => exact ⟨keyed_drainReady h now, rfl, fun k => slot_drainReady s now k⟩

/-- The same over any number of calls. -/
theorem run_refines_slots (h : Keyed s.pending) (calls : List (Nat × Call WatchEvent)) :
    Keyed (run step s calls).pending ∧
    (run step s calls).debounceDuration = s.debounceDuration ∧
    ∀ k, (run step s calls).slot k
      = slotAfter WatchEvent.key s.debounceDuration k (s.slot k) calls := by
  induction calls generalizing s with
  | nil => exact ⟨h, rfl, fun _ => rfl⟩
  | cons c calls ih =>
    obtain ⟨hkeyed, hduration, hslot⟩ := refines_slots h c
    obtain ⟨hkeyed', hduration', hslot'⟩ := ih hkeyed
    refine ⟨hkeyed', hduration'.trans hduration, fun k => ?_⟩
    rw [run_cons, hslot' k, hduration, hslot k]
    rfl

theorem filter_emitted (h : Keyed s.pending) (k : PendingKey)
    (calls : List (Nat × Call WatchEvent)) :
    (s.emitted calls).filter (fun event => event.key = k)
      = dueOver WatchEvent.key s.debounceDuration k (s.slot k) calls := by
  induction calls generalizing s with
  | nil => rfl
  | cons c calls ih =>
    obtain ⟨hkeyed, hduration, hslot⟩ := refines_slots h c
    rw [emitted, List.filter_append, ih hkeyed, hduration, hslot k, dueOver]
    congr 1
    split
    · exact filter_drainReady h c.1 k
    · rfl

end

end DebouncedEvents

/-! ## What is emitted for a module or for the configuration -/

inductive Target where
  | config
  | module (path : String) (named : path ≠ "")

def Target.key : Target → PendingKey
  | .config => .config
  | .module path _ => .path (components path)

/-- The event is about the target. -/
def WatchEvent.concerns : WatchEvent → Target → Bool
  | .configChanged, .config => true
  | .moduleChanged q, .module path _ => decide (components q = components path)
  | .moduleRemoved q, .module path _ => decide (components q = components path)
  | _, _ => false

theorem concerns_eq (event : WatchEvent) (target : Target) :
    event.concerns target = decide (event.key = target.key) := by
  cases target with
  | config =>
    cases event with
    | moduleChanged q => rfl
    | moduleRemoved q => rfl
    | configChanged => rfl
    | error message => rfl
  | module path named =>
    cases event with
    | moduleChanged q => simp [WatchEvent.concerns, WatchEvent.key, Target.key]
    | moduleRemoved q => simp [WatchEvent.concerns, WatchEvent.key, Target.key]
    | configChanged => rfl
    | error message =>
      -- no module has the empty path
      have hne : components "" ≠ components path := fun heq => components_ne_nil named heq.symm
      simp [WatchEvent.concerns, WatchEvent.key, Target.key, hne]

theorem key_of_concerns {event : WatchEvent} {target : Target}
    (h : event.concerns target = true) : event.key = target.key :=
  of_decide_eq_true ((concerns_eq event target).symm.trans h)

/-- Everything that is sent is about the configuration or a module, or is an error. -/
theorem concerns_of_handleNotifyEvent {result : Except String NotifyEvent}
    {modulesDir configPath : String} {event : WatchEvent}
    (h : event ∈ handleNotifyEvent result modulesDir configPath) :
    (∃ target, event.concerns target = true) ∨ ∃ message, event = .error message := by
  cases result with
  | error message => exact Or.inr ⟨message, List.mem_singleton.mp h⟩
  | ok report =>
    left
    dsimp only [handleNotifyEvent] at h
    split at h
    · exact absurd h List.not_mem_nil
    · obtain ⟨path, -, hpath⟩ := List.mem_filterMap.mp h
      unfold pathEvent at hpath
      split at hpath
      · exact ⟨.config, by rw [← Option.some.inj hpath]; rfl⟩
      · simp only [Option.ite_none_right_eq_some, Bool.and_eq_true, decide_eq_true_eq] at hpath
        obtain ⟨⟨hwasm, -⟩, hevent⟩ := hpath
        have hnamed : path ≠ "" := by
          rintro rfl
          exact absurd hwasm (by decide)
        refine ⟨.module path hnamed, ?_⟩
        rw [← Option.some.inj hevent]
        split
        · exact decide_eq_true rfl
        · exact decide_eq_true rfl

/-- The loop emits what its calls emit. -/
theorem watchLoop_eq (s : DebouncedEvents) (turns : List Turn) :
    watchLoop s turns = s.emitted (turns.flatMap Turn.calls) := by
  have hrecords (received : List (Nat × WatchEvent)) (now : Nat)
      (rest : List (Nat × Call WatchEvent)) (s : DebouncedEvents) :
      s.emitted (received.map (fun r => (r.1, Call.record r.2)) ++ (now, Call.drain) :: rest)
        = ((received.foldl (fun s r => s.record r.1 r.2) s).drainReady now).1 ++
          ((received.foldl (fun s r => s.record r.1 r.2) s).drainReady now).2.emitted rest := by
    induction received generalizing s with
    | nil => rfl
    | cons r received ih => exact ih (s.record r.1 r.2)
  induction turns generalizing s with
  | nil => rfl
  | cons turn turns ih =>
    rw [watchLoop, ih, List.flatMap_cons, Turn.calls, List.append_assoc]
    exact (hrecords turn.received turn.drained _ s).symm

/-- The debouncer after some calls. -/
def debouncerAfter (debounceMs : UInt64) (calls : List (Nat × Call WatchEvent)) :
    DebouncedEvents := run DebouncedEvents.step (.new debounceMs) calls

/-- What a drain at the time `now` emits for the target, after some calls. -/
def emittedFor (debounceMs : UInt64) (target : Target) (calls : List (Nat × Call WatchEvent))
    (now : Nat) : List WatchEvent :=
  ((debouncerAfter debounceMs calls).drainReady now).1.filter (WatchEvent.concerns · target)

/-- The clock does not go back. -/
def ClockForward (calls : List (Nat × Call WatchEvent)) : Prop :=
  calls.Pairwise fun a b => a.1 ≤ b.1

/-- A record of an event about the target. -/
def recordsFor (target : Target) (c : Nat × Call WatchEvent) : Bool :=
  match c.2 with
  | .record event => event.concerns target
  | .drain => false

/-- `debounce_duration`, in nanoseconds. -/
def debounceNanos (debounceMs : UInt64) : Nat := debounceMs.toNat * 1000000

section

variable {ms : UInt64} {target : Target} {calls mid : List (Nat × Call WatchEvent)}

theorem recordsFor_eq (target : Target) (c : Nat × Call WatchEvent) :
    recordsFor target c = c.2.isFor WatchEvent.key target.key := by
  obtain ⟨t, call⟩ := c
  cases call with
  | record event => exact concerns_eq event target
  | drain => rfl

theorem keyed_new (ms : UInt64) : Keyed (DebouncedEvents.new ms).pending := by
  intro path event since hlook
  rw [DebouncedEvents.new, AList.lookup_empty] at hlook
  nomatch hlook

theorem slot_new (ms : UInt64) (k : PendingKey) : (DebouncedEvents.new ms).slot k = none := by
  cases k with
  | config => rfl
  | path q => exact AList.lookup_empty q

theorem quiet_of_none (h : ∀ c ∈ mid, recordsFor target c = false) :
    Debounce.Quiet WatchEvent.key target.key mid :=
  fun c hc => (recordsFor_eq target c).symm.trans (h c hc)

theorem filter_concerns (events : List WatchEvent) (target : Target) :
    events.filter (WatchEvent.concerns · target)
      = events.filter (fun event => event.key = target.key) :=
  List.filter_congr fun event _ => concerns_eq event target

theorem emittedFor_eq (ms : UInt64) (target : Target) (calls : List (Nat × Call WatchEvent))
    (now : Nat) :
    emittedFor ms target calls now
      = due (debounceNanos ms)
          (slotAfter WatchEvent.key (debounceNanos ms) target.key none calls) now := by
  obtain ⟨hkeyed, hduration, hslot⟩ := DebouncedEvents.run_refines_slots (keyed_new ms) calls
  have hnew := hslot target.key
  rw [slot_new] at hnew
  calc emittedFor ms target calls now
      = due (debouncerAfter ms calls).debounceDuration
          ((debouncerAfter ms calls).slot target.key) now :=
        (filter_concerns _ target).trans (DebouncedEvents.filter_drainReady hkeyed now target.key)
    _ = _ := congrArg₂ (due · · now) hduration hnew

/-- Being old enough and being late enough is the same, on a clock that does not go back. -/
theorem taken_iff {window t : Nat} (h : ∀ c ∈ mid, t ≤ c.1) :
    Taken window t mid ↔ ∃ c ∈ mid, c.2.isDrain = true ∧ t + window ≤ c.1 := by
  constructor
  · rintro ⟨c, hc, hdrain, hage⟩
    have hle := h c hc
    exact ⟨c, hc, hdrain, by omega⟩
  · rintro ⟨c, hc, hdrain, hlate⟩
    exact ⟨c, hc, hdrain, by omega⟩

theorem le_of_clockForward {before after : List (Nat × Call WatchEvent)}
    {c : Nat × Call WatchEvent} (h : ClockForward (before ++ c :: after)) :
    ∀ c' ∈ after, c.1 ≤ c'.1 :=
  fun _ hc => List.rel_of_pairwise_cons (List.pairwise_append.mp h).2.1 hc

end

/-- Every drain emits, for a module or for the configuration, the last event recorded for it if
    that is old enough and no drain since was late enough, and nothing otherwise. Over the calls
    up to the next event for it that is once or not at all, and what is recorded for others makes
    no difference. -/
theorem debouncer_exact (ms : UInt64) (target : Target) :
    (∀ before event t mid now,
      ClockForward (before ++ (t, .record event) :: (mid ++ [(now, .drain)])) →
      event.concerns target = true → (∀ c ∈ mid, recordsFor target c = false) →
      (t + debounceNanos ms ≤ now →
        (∀ c ∈ mid, c.2.isDrain = true → c.1 < t + debounceNanos ms) →
        emittedFor ms target (before ++ (t, .record event) :: mid) now = [event]) ∧
      (now < t + debounceNanos ms →
        emittedFor ms target (before ++ (t, .record event) :: mid) now = []) ∧
      ((∃ c ∈ mid, c.2.isDrain = true ∧ t + debounceNanos ms ≤ c.1) →
        emittedFor ms target (before ++ (t, .record event) :: mid) now = [])) ∧
    (∀ before event t mid,
      ClockForward (before ++ (t, .record event) :: mid) →
      event.concerns target = true → (∀ c ∈ mid, recordsFor target c = false) →
      ((∃ c ∈ mid, c.2.isDrain = true ∧ t + debounceNanos ms ≤ c.1) →
        ((debouncerAfter ms (before ++ [(t, .record event)])).emitted mid).filter
          (WatchEvent.concerns · target) = [event]) ∧
      ((∀ c ∈ mid, c.2.isDrain = true → c.1 < t + debounceNanos ms) →
        ((debouncerAfter ms (before ++ [(t, .record event)])).emitted mid).filter
          (WatchEvent.concerns · target) = [])) ∧
    (∀ calls now, (∀ c ∈ calls, recordsFor target c = false) →
      emittedFor ms target calls now = []) ∧
    (∀ calls now,
      emittedFor ms target (calls.filter fun c => c.2.isDrain || recordsFor target c) now
        = emittedFor ms target calls now) := by
  refine ⟨?_, ?_, ?_, ?_⟩
  · intro before event t mid now hclock hevent hnone
    have hkey := key_of_concerns hevent
    have hafter := le_of_clockForward hclock
    have hmid : ∀ c ∈ mid, t ≤ c.1 := fun c hc => hafter c (List.mem_append_left _ hc)
    have hnow : t ≤ now := hafter (now, .drain) (List.mem_append_right _ List.mem_cons_self)
    rw [emittedFor_eq, slotAfter_record hkey]
    obtain ⟨hgive, hkeep⟩ := @due_of_quiet _ _ _ WatchEvent.key (debounceNanos ms) target.key event
      t now mid (quiet_of_none hnone)
    rw [taken_iff hmid] at hgive hkeep
    refine ⟨fun hlate hfirst => hgive (by omega) ?_, fun hearly => hkeep (Or.inl (by omega)),
      fun htaken => hkeep (Or.inr htaken)⟩
    rintro ⟨c, hc, hdrain, hle⟩
    exact absurd (hfirst c hc hdrain) (by omega)
  · intro before event t mid hclock hevent hnone
    have hkey := key_of_concerns hevent
    have hmid := le_of_clockForward hclock
    obtain ⟨hkeyed, hduration, hslot⟩ :=
      DebouncedEvents.run_refines_slots (keyed_new ms) (before ++ [(t, .record event)])
    have hwaits : (debouncerAfter ms (before ++ [(t, .record event)])).slot target.key
        = some (event, t) := (hslot target.key).trans (slotAfter_record hkey _ t before [])
    have hall := DebouncedEvents.filter_emitted hkeyed target.key mid
    rw [hduration] at hall
    obtain ⟨honce, hnever⟩ :=
      (@dueOver_of_quiet _ _ _ WatchEvent.key (debounceNanos ms) target.key mid
        (quiet_of_none hnone)).2 event t
    rw [taken_iff hmid] at honce hnever
    refine ⟨fun htaken => ?_, fun hearly => ?_⟩
    · rw [filter_concerns]
      exact hall.trans (hwaits ▸ honce htaken)
    · rw [filter_concerns]
      refine hall.trans (hwaits ▸ hnever ?_)
      rintro ⟨c, hc, hdrain, hle⟩
      exact absurd (hearly c hc hdrain) (by omega)
  · intro calls now hnone
    rw [emittedFor_eq, slotAfter_none (quiet_of_none hnone)]
    rfl
  · intro calls now
    have hsame : (fun c : Nat × Call WatchEvent => c.2.isDrain || recordsFor target c)
        = fun c => c.2.matters WatchEvent.key target.key := by
      funext c
      rw [recordsFor_eq]
      rfl
    rw [emittedFor_eq, emittedFor_eq, hsame, slotAfter_filter]

/-- A removal that follows a change within the debounce time is emitted in its place. -/
theorem debouncer_exact_removal :
    emittedFor 300 (.module "a" (by decide))
      ([(0, .record (.moduleChanged "a"))] ++ (100000000, .record (.moduleRemoved "a")) ::
        [(350000000, .drain), (360000000, .record (.moduleChanged "b"))]) 400000000
      = [.moduleRemoved "a"] :=
  ((debouncer_exact 300 (.module "a" (by decide))).1 [(0, .record (.moduleChanged "a"))]
    (.moduleRemoved "a") 100000000
    [(350000000, .drain), (360000000, .record (.moduleChanged "b"))] 400000000
    (by simp [ClockForward]) (by decide) (by decide)).1 (by decide) (by decide)

end Mik.Daemon
