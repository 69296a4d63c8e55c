/-
  The accept loop of the server and its shutdown (`Server::serve` of `src/runtime/server.rs`).

  One task accepts connections and takes a permit for each before it starts a task for it; the
  flag `shutdown` is set by a signal or from elsewhere; every connection is a task that may return
  or panic at any time. A step is one atomic step of one of them. What is counted in
  `active_connections`, and what is held, is a function of the stages of the tasks (`Accounted`),
  in every interleaving. From it `connections_capped`, `drain_honest` and
  `none_after_shutdown`.

  A connection whose task panics gives back its permit and its sender, but never what it added to
  `active_connections`.
-/
import Mik.Lib.Run

namespace Mik.Server

open Mik.Lib

/-! ## The parties -/

/-- How far the task of a connection has come. Its locals are dropped in reverse order, the sender
    of `shutdown_tx` before the permit. -/
inductive Stage where
  | serving
  | returned
  | uncounted
  | unguarded
  | gone
  | panicked
  | panickedUnguarded
  | panickedGone
  deriving DecidableEq, Repr

namespace Stage

/-- What it added to `active_connections` is still there. -/
def counted : Stage → Bool
  | serving | returned | panicked | panickedUnguarded | panickedGone => true
  | _ => false

/-- It holds a sender of `shutdown_tx`. -/
def guard : Stage → Bool
  | serving | returned | uncounted | panicked => true
  | _ => false

/-- It holds a permit of `request_semaphore`. -/
def permit : Stage → Bool
  | gone | panickedGone => false
  | _ => true

end Stage

inductive Drain where
  /-- "No active connections to drain" -/
  | idle
  /-- "All connections completed gracefully" -/
  | completed
  /-- "Shutdown timeout - {} connections still active" -/
  | timedOut (remaining : Nat)
  deriving DecidableEq, Repr

/-- Where `serve` stands. -/
inductive Main where
  | selecting
  /-- A connection was accepted, and there is no permit for it yet. -/
  | acquiring
  | acquired
  /-- The connection is counted, and its task is not started yet. -/
  | counted
  /-- The loop is left, and `shutdown_tx` not yet dropped. -/
  | leaving
  | left
  | polling
  | receiving
  | ended (outcome : Drain)
  /-- `accept` has failed. -/
  | failed
  deriving DecidableEq, Repr

namespace Main

def permits : Main → Nat
  | acquired | counted => 1
  | _ => 0

def counts : Main → Nat
  | counted => 1
  | _ => 0

/-- A connection was accepted whose task is not started yet. -/
def pending : Main → Nat
  | acquiring | acquired | counted => 1
  | _ => 0

/-- It holds a sender of `shutdown_tx`. -/
def guard : Main → Bool
  | selecting | acquiring | acquired | counted | leaving => true
  | _ => false

end Main

structure State where
  /-- `shared.shutdown`. -/
  shutdown : Bool
  /-- The task that waits for the signal has finished. -/
  signalled : Bool
  /-- The free permits of `request_semaphore`. -/
  permits : Nat
  /-- `active_connections`. -/
  active : Nat
  /-- The tasks of the connections, in the order in which they were started. -/
  connections : List Stage
  main : Main

def start (maxConcurrentRequests : Nat) : State where
  shutdown := false
  signalled := false
  permits := maxConcurrentRequests
  active := 0
  connections := []
  main := .selecting

/-! ## The steps -/

inductive Event where
  /-- `Runtime::shutdown`, or the first half of the task that waits for the signal. -/
  | setShutdown
  /-- That task finishes, also when the handlers of the signals cannot be set up. -/
  | finishSignal
  | accept
  | acceptError
  /-- `select!` sees that the task has finished. -/
  | seeSignal
  /-- `serve` goes on from where it stands. -/
  | main
  | timeout
  /-- `serve_connection` returns. -/
  | finish (i : Nat)
  | panic (i : Nat)
  /-- The task goes on after it has returned, or unwinds. -/
  | unwind (i : Nat)

/-- The task of a connection changes its stage. -/
def State.move (s : State) (i : Nat) (stage : Stage) : State :=
  { s with connections := s.connections.set i stage }

def State.mainStep (s : State) : State :=
  match s.main with
  | .acquiring =>
    if s.permits = 0 then s else { s with permits := s.permits - 1, main := .acquired }
  | .acquired => { s with active := s.active + 1, main := .counted }
  | .counted => { s with connections := s.connections ++ [.serving], main := .selecting }
  | .leaving => { s with main := .left }
  | .left => { s with main := if s.active = 0 then .ended .idle else .polling }
  | .polling => { s with main := if s.active = 0 then .receiving else .polling }
  | .receiving =>
    -- `recv` gives `None` when the last sender is gone
    { s with main := if s.connections.any Stage.guard then .receiving else .ended .completed }
  | _ => s

def State.unwindStep (s : State) (i : Nat) : State :=
  match s.connections[i]? with
  | some .returned => { s.move i .uncounted with active := s.active - 1 }
  | some .uncounted => s.move i .unguarded
  | some .unguarded => { s.move i .gone with permits := s.permits + 1 }
  | some .panicked => s.move i .panickedUnguarded
  | some .panickedUnguarded => { s.move i .panickedGone with permits := s.permits + 1 }
  | _ => s

def step (s : State) : Event → State
  | .setShutdown => { s with shutdown := true }
  | .finishSignal => { s with signalled := true }
  | .accept =>
    if s.main = .selecting then
      { s with main := if s.shutdown then .leaving else .acquiring }
    else s
  | .acceptError => if s.main = .selecting then { s with main := .failed } else s
  | .seeSignal =>
    if s.main = .selecting ∧ s.signalled = true then { s with main := .leaving } else s
  | .main => s.mainStep
  | .timeout =>
    if s.main = .polling ∨ s.main = .receiving then
      { s with main := .ended (.timedOut s.active) }
    else s
  | .finish i => if s.connections[i]? = some .serving then s.move i .returned else s
  | .panic i => if s.connections[i]? = some .serving then s.move i .panicked else s
  | .unwind i => s.unwindStep i

/-! ## What is held -/

/-- The connections for which `p` holds. -/
def State.number (s : State) (p : Stage → Bool) : Nat := s.connections.countP p

/-- Every permit and everything counted is with the loop or with a connection, and what the drain
    has found is so. -/
structure Accounted (maxConcurrentRequests : Nat) (s : State) : Prop where
  permits : s.permits + s.number Stage.permit + s.main.permits = maxConcurrentRequests
  active : s.active = s.number Stage.counted + s.main.counts
  drained : s.main = .receiving ∨ s.main = .ended .idle ∨ s.main = .ended .completed → s.active = 0
  unguarded : s.main = .ended .completed → s.number Stage.guard = 0

section

variable {max : Nat} {s s' : State} {i : Nat} {old new : Stage} {p : Stage → Bool}

/-- How many there are when one connection changes its stage. -/
theorem number_move (hold : s.connections[i]? = some old) (new : Stage) (p : Stage → Bool) :
    (s.move i new).number p + (if p old then 1 else 0) =
      s.number p + (if p new then 1 else 0) := by
  obtain ⟨hi, hget⟩ := List.getElem?_eq_some_iff.mp hold
  show (s.connections.set i new).countP p + _ = s.connections.countP p + _
  rw [List.countP_set hi, hget]
  have hpos : (if p old then 1 else 0) ≤ s.connections.countP p := by
    split
    · next hp =>
      exact List.countP_pos_iff.mpr ⟨old, List.mem_of_getElem? hold, hp⟩
    · exact Nat.zero_le _
  omega

/-- A connection that gives nothing back. -/
theorem Accounted.move (h : Accounted max s) (hold : s.connections[i]? = some old)
    (hpermit : new.permit = old.permit) (hcounted : new.counted = old.counted)
    (hguard : new.guard = true → old.guard = true) : Accounted max (s.move i new) where
  permits := by
    have hnumber := number_move hold new Stage.permit
    rw [hpermit] at hnumber
    rw [Nat.add_right_cancel hnumber]
    exact h.permits
  active := by
    have hnumber := number_move hold new Stage.counted
    rw [hcounted] at hnumber
    rw [Nat.add_right_cancel hnumber]
    exact h.active
  drained := h.drained
  unguarded hmain := by
    have hnumber := number_move hold new Stage.guard
    rw [h.unguarded hmain] at hnumber
    cases hnew : new.guard with
    | false =>
      rw [hnew] at hnumber
      exact (Nat.add_eq_zero_iff.mp hnumber).1
    | true =>
      rw [hguard hnew, hnew] at hnumber
      exact Nat.add_right_cancel hnumber

/-- A connection that is no longer counted. -/
theorem Accounted.uncount (h : Accounted max s) (hold : s.connections[i]? = some .returned) :
    Accounted max { s.move i .uncounted with active := s.active - 1 } where
  permits := by
    have hnumber := number_move hold .uncounted Stage.permit
    rw [← h.permits, ← Nat.add_right_cancel hnumber]
    rfl
  active := by
    have hnumber : (s.move i .uncounted).number Stage.counted + 1 = s.number Stage.counted :=
      number_move hold _ Stage.counted
    show s.active - 1 = (s.move i .uncounted).number Stage.counted + s.main.counts
    rw [h.active]
    omega
  drained hmain := by
    show s.active - 1 = 0
    rw [h.drained hmain]
  unguarded hmain := by
    have hnumber := number_move hold .uncounted Stage.guard
    exact (Nat.add_right_cancel hnumber).trans (h.unguarded hmain)

/-- A connection that gives its permit back. -/
theorem Accounted.release (h : Accounted max s) (hold : s.connections[i]? = some old)
    (hpermit : old.permit = true) (hgone : new.permit = false)
    (hcounted : new.counted = old.counted) (hguard : new.guard = old.guard) :
    Accounted max { s.move i new with permits := s.permits + 1 } where
  permits := by
    have hnumber := number_move hold new Stage.permit
    rw [hpermit, hgone, if_pos rfl, if_neg Bool.false_ne_true] at hnumber
    have hbefore := h.permits
    show s.permits + 1 + (s.move i new).number Stage.permit + s.main.permits = max
    omega
  active := by
    have hnumber := number_move hold new Stage.counted
    rw [hcounted] at hnumber
    have hsame := Nat.add_right_cancel hnumber
    show s.active = (s.move i new).number Stage.counted + s.main.counts
    rw [hsame]
    exact h.active
  drained := h.drained
  unguarded hmain := by
    have hnumber := number_move hold new Stage.guard
    rw [hguard] at hnumber
    exact (Nat.add_right_cancel hnumber).trans (h.unguarded hmain)

/-- A step of the loop that changes only where it stands. -/
theorem Accounted.goto (h : Accounted max s) {main : Main}
    (hpermits : main.permits = s.main.permits)
    (hcounts : main.counts = s.main.counts)
    (hdrained : main = .receiving ∨ main = .ended .idle ∨ main = .ended .completed → s.active = 0)
    (hunguarded : main = .ended .completed → s.number Stage.guard = 0) :
    Accounted max { s with main } where
  permits := by
    show s.permits + s.number Stage.permit + main.permits = max
    rw [hpermits]
    exact h.permits
  active := by
    show s.active = s.number Stage.counted + main.counts
    rw [hcounts]
    exact h.active
  drained := hdrained
  unguarded := hunguarded

theorem accounted_start (max : Nat) : Accounted max (start max) where
  permits := rfl
  active := rfl
  drained h := by
    rcases h with h | h | h
    · cases h
    · cases h
    · cases h
  unguarded h := by cases h

/-- A place in which nothing has been found out yet. -/
def Main.Open (main : Main) : Prop :=
  main ≠ .receiving ∧ main ≠ .ended .idle ∧ main ≠ .ended .completed

theorem Accounted.goto_open (h : Accounted max s) {main : Main} (hopen : main.Open)
    (hpermits : main.permits = s.main.permits) (hcounts : main.counts = s.main.counts) :
    Accounted max { s with main } :=
  h.goto hpermits hcounts
    (fun hmain => (hmain.elim hopen.1 fun hmain => hmain.elim hopen.2.1 hopen.2.2).elim)
    fun hmain => (hopen.2.2 hmain).elim

/-! ## The steps keep the accounts -/

/-- The steps of the loop, one case for each place. -/
theorem accounted_mainStep (h : Accounted max s) : Accounted max s.mainStep := by
  unfold State.mainStep
  cases hmain : s.main with
  | selecting | ended _ | failed => exact h
  | acquiring =>
    dsimp only
    split
    · exact h
    · next hfree =>
      have hpermits := h.permits
      have hactive := h.active
      rw [hmain] at hpermits hactive
      refine ⟨?_, hactive, fun hend => by simp at hend, fun hend => by cases hend⟩
      show s.permits - 1 + s.number Stage.permit + 1 = max
      have hzero : s.permits + s.number Stage.permit + 0 = max := hpermits
      omega
  | acquired =>
    have hpermits := h.permits
    have hactive := h.active
    rw [hmain] at hpermits hactive
    refine ⟨hpermits, ?_, fun hend => by simp at hend, fun hend => by cases hend⟩
    show s.active + 1 = s.number Stage.counted + 1
    rw [hactive]
    rfl
  | counted =>
    have hpermits := h.permits
    have hactive := h.active
    rw [hmain] at hpermits hactive
    -- the new task takes over the permit and the count
    have hnumber : ∀ p : Stage → Bool, p .serving = true →
        (s.connections ++ [Stage.serving]).countP p = s.number p + 1 := by
      intro p hp
      rw [List.countP_append, List.countP_singleton, hp]
      rfl
    refine ⟨?_, ?_, fun hend => by simp at hend, fun hend => by cases hend⟩
    · show s.permits + (s.connections ++ [Stage.serving]).countP Stage.permit + 0 = max
      rw [hnumber _ rfl]
      exact hpermits
    · show s.active = (s.connections ++ [Stage.serving]).countP Stage.counted + 0
      rw [hnumber _ rfl]
      exact hactive
  | leaving =>
    exact h.goto_open (by simp [Main.Open]) (by rw [hmain]; rfl) (by rw [hmain]; rfl)
  | left =>
    refine h.goto ?_ ?_ (fun hend => ?_) fun hend => ?_
    · rw [hmain]
      split <;> rfl
    · rw [hmain]
      split <;> rfl
    · by_contra hactive
      rw [if_neg hactive] at hend
      simp at hend
    · split at hend <;> cases hend
  | polling =>
    refine h.goto ?_ ?_ (fun hend => ?_) fun hend => ?_
    · rw [hmain]
      split <;> rfl
    · rw [hmain]
      split <;> rfl
    · by_contra hactive
      rw [if_neg hactive] at hend
      simp at hend
    · split at hend <;> cases hend
  | receiving =>
    have hactive : s.active = 0 := h.drained (Or.inl hmain)
    refine h.goto ?_ ?_ (fun _ => hactive) fun hend => ?_
    · rw [hmain]
      split <;> rfl
    · rw [hmain]
      split <;> rfl
    · split at hend
      · cases hend
      · next hguard =>
        refine List.countP_eq_zero.mpr fun stage hstage hheld => hguard ?_
        exact List.any_eq_true.mpr ⟨stage, hstage, hheld⟩

theorem accounted_unwindStep (h : Accounted max s) (i : Nat) : Accounted max (s.unwindStep i) := by
  unfold State.unwindStep
  cases hold : s.connections[i]? with
  | none => exact h
  | some stage =>
    cases stage with
    | serving | gone | panickedGone => exact h
    | returned => exact h.uncount hold
    | uncounted => exact h.move hold rfl rfl fun _ => rfl
    | unguarded => exact h.release hold rfl rfl rfl rfl
    | panicked => exact h.move hold rfl rfl fun _ => rfl
    | panickedUnguarded => exact h.release hold rfl rfl rfl rfl

theorem accounted_step (h : Accounted max s) (e : Event) : Accounted max (step s e) := by
  have hflags : ∀ shutdown signalled, Accounted max { s with shutdown, signalled } :=
    fun _ _ => ⟨h.permits, h.active, h.drained, h.unguarded⟩
  cases e with
  | setShutdown => exact hflags _ _
  | finishSignal => exact hflags _ _
  | accept =>
    unfold step
    dsimp only
    split
    · next hmain =>
      have hnext : ∀ main : Main, main = .leaving ∨ main = .acquiring →
          Accounted max { s with main } := by
        rintro main (rfl | rfl)
        · exact h.goto_open (by simp [Main.Open]) (by rw [hmain]; rfl) (by rw [hmain]; rfl)
        · exact h.goto_open (by simp [Main.Open]) (by rw [hmain]; rfl) (by rw [hmain]; rfl)
      refine hnext _ ?_
      split
      · exact Or.inl rfl
      · exact Or.inr rfl
    · exact h
  | acceptError =>
    unfold step
    dsimp only
    split
    · next hmain =>
      exact h.goto_open (by simp [Main.Open]) (by rw [hmain]; rfl) (by rw [hmain]; rfl)
    · exact h
  | seeSignal =>
    unfold step
    dsimp only
    split
    · next hmain =>
      exact h.goto_open (by simp [Main.Open]) (by rw [hmain.1]; rfl) (by rw [hmain.1]; rfl)
    · exact h
  | main => exact accounted_mainStep h
  | timeout =>
    unfold step
    dsimp only
    split
    · next hmain =>
      have hsame : s.main.permits = 0 ∧ s.main.counts = 0 := by
        rcases hmain with hmain | hmain
        · rw [hmain]
          exact ⟨rfl, rfl⟩
        · rw [hmain]
          exact ⟨rfl, rfl⟩
      exact h.goto_open (by simp [Main.Open]) hsame.1.symm hsame.2.symm
    · exact h
  | finish i =>
    unfold step
    dsimp only
    split
    · next hold => exact h.move hold rfl rfl fun _ => rfl
    · exact h
  | panic i =>
    unfold step
    dsimp only
    split
    · next hold => exact h.move hold rfl rfl fun _ => rfl
    · exact h
  | unwind i => exact accounted_unwindStep h i

theorem accounted_run (max : Nat) (es : List Event) : Accounted max (run step (start max) es) :=
  run_keeps (Accounted max) (fun _ e h => accounted_step h e) (accounted_start max) es

/-! ## The cap -/

/-- In every interleaving no more connections are served than there are permits, and every permit
    that is not free is with the loop or with a connection that has not ended. -/
theorem connections_capped (max : Nat) (es : List Event) :
    let s := run step (start max) es
    s.number (fun stage => stage == .serving) ≤ max ∧
      s.permits + s.number Stage.permit + s.main.permits = max := by
  intro s
  have h : Accounted max s := accounted_run max es
  have hle : s.number (fun stage => stage == .serving) ≤ s.number Stage.permit := by
    refine List.countP_mono_left fun stage _ hserving => ?_
    rw [beq_iff_eq.mp hserving]
    rfl
  have hpermits := h.permits
  exact ⟨by omega, hpermits⟩

/-! ## The drain -/

/-- The connection has returned, and is no longer counted. -/
def Stage.Over (stage : Stage) : Prop := stage = .uncounted ∨ stage = .unguarded ∨ stage = .gone

theorem over_iff {stage : Stage} : stage.Over ↔ stage.counted = false := by
  cases stage <;> simp [Stage.Over, Stage.counted]

theorem number_eq_zero : s.number p = 0 ↔ ∀ stage ∈ s.connections, p stage = false := by
  unfold State.number
  simp [List.countP_eq_zero]

/-- What the server says at its end is so: a graceful end cuts no connection off, and none has
    panicked; a connection that has panicked makes every drain run into its timeout. -/
theorem drain_honest (max : Nat) (es : List Event) :
    let s := run step (start max) es
    (s.main = .ended .idle ∨ s.main = .ended .completed → ∀ stage ∈ s.connections, stage.Over) ∧
      (s.main = .ended .completed → ∀ stage ∈ s.connections,
        stage = .unguarded ∨ stage = .gone) := by
  intro s
  have h : Accounted max s := accounted_run max es
  have hover : s.main = .ended .idle ∨ s.main = .ended .completed →
      ∀ stage ∈ s.connections, stage.Over := by
    intro hmain stage hstage
    have hactive := h.active
    rw [h.drained (Or.inr hmain)] at hactive
    exact over_iff.mpr (number_eq_zero.mp (by omega) stage hstage)
  refine ⟨hover, fun hmain stage hstage => ?_⟩
  have hguard := number_eq_zero.mp (h.unguarded hmain) stage hstage
  rcases hover (Or.inr hmain) stage hstage with rfl | hrest
  · cases hguard
  · exact hrest

/-! ## No new connections -/

theorem main_mainStep_pending (s : State) :
    s.mainStep.connections.length + s.mainStep.main.pending =
      s.connections.length + s.main.pending := by
  unfold State.mainStep
  cases hmain : s.main with
  | acquiring =>
    dsimp only
    split
    · rw [hmain]
    · rfl
  | counted =>
    show (s.connections ++ [Stage.serving]).length + 0 = s.connections.length + 1
    rw [List.length_append, List.length_singleton]
  | left | polling | receiving =>
    dsimp only
    split <;> rfl
  | acquired | leaving => rfl
  | selecting | ended _ | failed =>
    show s.connections.length + s.main.pending = _
    rw [hmain]

/-- What a step after the flag is set may add. -/
theorem pending_step (h : s.shutdown = true) (e : Event) :
    (step s e).shutdown = true ∧
      (step s e).connections.length + (step s e).main.pending ≤
        s.connections.length + s.main.pending := by
  have hmove : ∀ (i : Nat) (stage : Stage),
      (s.move i stage).connections.length = s.connections.length := fun i stage => List.length_set
  cases e with
  | setShutdown => exact ⟨rfl, Nat.le_refl _⟩
  | finishSignal => exact ⟨h, Nat.le_refl _⟩
  | accept =>
    unfold step
    dsimp only
    split
    · rw [h]
      exact ⟨rfl, Nat.le_add_right _ _⟩
    · exact ⟨h, Nat.le_refl _⟩
  | acceptError | seeSignal | timeout =>
    unfold step
    dsimp only
    split
    · exact ⟨h, Nat.le_add_right _ _⟩
    · exact ⟨h, Nat.le_refl _⟩
  | main =>
    refine ⟨?_, Nat.le_of_eq (main_mainStep_pending s)⟩
    show s.mainStep.shutdown = true
    unfold State.mainStep
    cases s.main with
    | acquiring =>
      dsimp only
      split
      · exact h
      · exact h
    | _ => exact h
  | finish i | panic i =>
    unfold step
    dsimp only
    split
    · exact ⟨h, Nat.le_of_eq (congrArg (· + s.main.pending) (hmove _ _))⟩
    · exact ⟨h, Nat.le_refl _⟩
  | unwind i =>
    show (s.unwindStep i).shutdown = true ∧ _
    unfold step State.unwindStep
    dsimp only
    split
    · exact ⟨h, Nat.le_of_eq (congrArg (· + s.main.pending) (hmove _ _))⟩
    · exact ⟨h, Nat.le_of_eq (congrArg (· + s.main.pending) (hmove _ _))⟩
    · exact ⟨h, Nat.le_of_eq (congrArg (· + s.main.pending) (hmove _ _))⟩
    · exact ⟨h, Nat.le_of_eq (congrArg (· + s.main.pending) (hmove _ _))⟩
    · exact ⟨h, Nat.le_of_eq (congrArg (· + s.main.pending) (hmove _ _))⟩
    · exact ⟨h, Nat.le_refl _⟩

/-- After the flag is set, be it in the middle of a turn of the loop, no connection is served but
    those that are, and the one that the loop has accepted already. -/
theorem none_after_shutdown (max : Nat) (es later : List Event) :
    let s := run step (start max) es
    (run step (step s .setShutdown) later).connections.length ≤
      s.connections.length + s.main.pending := by
  intro s
  have hlast := run_keeps
    (fun t => t.shutdown = true ∧
      t.connections.length + t.main.pending ≤ s.connections.length + s.main.pending)
    (fun t e ht => ⟨(pending_step ht.1 e).1, Nat.le_trans (pending_step ht.1 e).2 ht.2⟩)
    (s := step s .setShutdown) ⟨rfl, Nat.le_refl _⟩ later
  exact Nat.le_trans (Nat.le_add_right _ _) hlast.2

end

end Mik.Server
