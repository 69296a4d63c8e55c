/-
  One connection to an SQL database with transactions, as SQLite documents it.

  Outside a transaction each statement commits by itself. BEGIN opens a transaction, whose changes
  only this connection sees. COMMIT makes them durable, unless a deferred constraint is violated or
  another connection is in the way: then it is refused and the transaction stays open. ROLLBACK
  undoes them, and so do some errors. Savepoints nest, and an outermost one stands for a BEGIN.

  What a statement does to the content is a parameter, and so are the errors that come from outside
  (another connection, the disk, memory), by the number of the call that meets them.
-/
import Mathlib.Data.List.Basic

namespace Mik.Lib.Sql

/-- The statements that control transactions. -/
inductive Control where
  | begin
  | commit
  | rollback
  | savepoint (name : String)
  | release (name : String)
  | rollbackTo (name : String)
  deriving DecidableEq, Repr

/-- The content that a connection sees, and whether it violates a deferred constraint. -/
structure Work (D : Type) where
  content : D
  violated : Bool

/-- What a statement comes to. One that fails may leave a part of its changes, and some errors undo
    the transaction. -/
inductive Outcome (D : Type) where
  | done (changed : Option Nat) (work : Work D)
  | failed (error : String) (work : Work D)
  | rolledBack (error : String)

/-- An error from outside. -/
inductive Mishap where
  | refused (error : String)
  | rollsBack (error : String)

structure Engine (D P : Type) where
  /-- The control statement that a text is, if it is one. -/
  control : String → Option Control
  /-- What a statement does at a call. -/
  apply : Nat → String → List P → Work D → Outcome D
  /-- What befalls a BEGIN or a COMMIT at a call. -/
  mishap : Nat → Option Mishap
  control_begin : control "BEGIN TRANSACTION" = some .begin
  control_commit : control "COMMIT" = some .commit
  control_rollback : control "ROLLBACK" = some .rollback

/-- An open transaction, with its savepoints from the last. -/
structure Tx (D : Type) where
  work : Work D
  savepoints : List (String × Work D)
  /-- It was opened by its outermost savepoint. -/
  bySavepoint : Bool

structure Connection (D : Type) where
  committed : D
  tx : Option (Tx D)
  /-- How many rows the last statement changed that changes rows. -/
  changes : Nat
  calls : Nat

/-- A statement with its parameters. -/
abbrev Stmt (P : Type) := String × List P

namespace Connection

section

variable {D P : Type}

/-- The content as the connection sees it. -/
def content (c : Connection D) : D :=
  match c.tx with
  | none => c.committed
  | some tx => tx.work.content

/-- What the connection works on: the content of the transaction, or what is committed. -/
def work (c : Connection D) : Work D :=
  match c.tx with
  | none => ⟨c.committed, false⟩
  | some tx => tx.work

/-! ## Calls -/

def begin (c : Connection D) (mishap : Option Mishap) : Except String Nat × Connection D :=
  match c.tx, mishap with
  | some _, _ => (.error "cannot start a transaction within a transaction", c)
  | none, some (.refused e) => (.error e, c)
  | none, some (.rollsBack e) => (.error e, c)
  | none, none => (.ok c.changes, { c with tx := some ⟨⟨c.committed, false⟩, [], false⟩ })

/-- The end of a transaction that is to be kept. -/
def keep (c : Connection D) (tx : Tx D) (mishap : Option Mishap) :
    Except String Nat × Connection D :=
  if tx.work.violated then (.error "FOREIGN KEY constraint failed", c)
  else
    match mishap with
    | some (.refused e) => (.error e, c)
    | some (.rollsBack e) => (.error e, { c with tx := none })
    | none => (.ok c.changes, { c with committed := tx.work.content, tx := none })

def commit (c : Connection D) (mishap : Option Mishap) : Except String Nat × Connection D :=
  match c.tx with
  | none => (.error "cannot commit - no transaction is active", c)
  | some tx => c.keep tx mishap

def rollback (c : Connection D) : Except String Nat × Connection D :=
  match c.tx with
  | none => (.error "cannot rollback - no transaction is active", c)
  | some _ => (.ok c.changes, { c with tx := none })

def savepoint (c : Connection D) (name : String) : Except String Nat × Connection D :=
  match c.tx with
  | none =>
    (.ok c.changes,
      { c with tx := some ⟨⟨c.committed, false⟩, [(name, ⟨c.committed, false⟩)], true⟩ })
  | some tx =>
    (.ok c.changes,
      { c with tx := some { tx with savepoints := (name, tx.work) :: tx.savepoints } })

/-- The savepoints from the last of that name on. -/
def Tx.from (tx : Tx D) (name : String) : List (String × Work D) :=
  tx.savepoints.dropWhile (·.1 ≠ name)

def release (c : Connection D) (name : String) (mishap : Option Mishap) :
    Except String Nat × Connection D :=
  match c.tx with
  | none => (.error ("no such savepoint: " ++ name), c)
  | some tx =>
    match Tx.from tx name with
    | [] => (.error ("no such savepoint: " ++ name), c)
    | _ :: rest =>
      if rest = [] ∧ tx.bySavepoint then c.keep tx mishap
      else (.ok c.changes, { c with tx := some { tx with savepoints := rest } })

def rollbackTo (c : Connection D) (name : String) : Except String Nat × Connection D :=
  match c.tx with
  | none => (.error ("no such savepoint: " ++ name), c)
  | some tx =>
    match Tx.from tx name with
    | [] => (.error ("no such savepoint: " ++ name), c)
    | saved :: rest =>
      (.ok c.changes,
        { c with tx := some { tx with work := saved.2, savepoints := saved :: rest } })

/-- The connection with other content. Outside a transaction it is committed, unless it violates a
    constraint. -/
def put (c : Connection D) (work : Work D) : Connection D :=
  match c.tx with
  | none => if work.violated then c else { c with committed := work.content }
  | some tx => { c with tx := some { tx with work } }

/-- A statement that does not control transactions. -/
def change (c : Connection D) : Outcome D → Except String Nat × Connection D
  | .failed e work => (.error e, c.put work)
  | .rolledBack e => (.error e, { c with tx := none })
  | .done changed work =>
    if c.tx.isNone ∧ work.violated then (.error "FOREIGN KEY constraint failed", c)
    else (.ok (changed.getD c.changes), { c.put work with changes := changed.getD c.changes })

def controlled (c : Connection D) (mishap : Option Mishap) :
    Control → Except String Nat × Connection D
  | .begin => c.begin mishap
  | .commit => c.commit mishap
  | .rollback => c.rollback
  | .savepoint name => c.savepoint name
  | .release name => c.release name mishap
  | .rollbackTo name => c.rollbackTo name

variable (e : Engine D P)

/-- One statement is executed. A control statement takes no parameters. -/
def execute (c : Connection D) (stmt : Stmt P) : Except String Nat × Connection D :=
  let next := { c with calls := c.calls + 1 }
  match e.control stmt.1 with
  | none => next.change (e.apply c.calls stmt.1 stmt.2 c.work)
  | some control =>
    if stmt.2 = [] then next.controlled (e.mishap c.calls) control
    else (.error "Wrong number of parameters passed to query", next)

/-- Statements in order, up to the first that fails. -/
def script (c : Connection D) : List (Stmt P) → Except String (List Nat) × Connection D
  | [] => (.ok [], c)
  | stmt :: rest =>
    match c.execute e stmt with
    | (.error err, c) => (.error err, c)
    | (.ok n, c) => ((c.script rest).1.map (n :: ·), (c.script rest).2)

/-- A transaction is open that a BEGIN has opened. -/
def Inside (c : Connection D) : Prop := ∃ tx, c.tx = some tx ∧ tx.bySavepoint = false

/-- The statement neither commits the transaction nor rolls it back. -/
def KeepsTx (stmt : Stmt P) : Prop :=
  e.control stmt.1 ≠ some .commit ∧ e.control stmt.1 ≠ some .rollback

/-! ## The control statements -/

/-- A COMMIT is refused, and the transaction stays open. -/
def CommitRefused (c : Connection D) : Prop :=
  ∃ tx, c.tx = some tx ∧ (tx.work.violated = true ∨ ∃ err, e.mishap c.calls = some (.refused err))

/-- A COMMIT makes the transaction durable. -/
def Commits (c : Connection D) : Prop :=
  ∃ tx, c.tx = some tx ∧ tx.work.violated = false ∧ e.mishap c.calls = none

variable {e} {c : Connection D}

theorem content_of_tx_none (h : c.tx = none) : c.content = c.committed := by
  unfold content
  rw [h]

theorem execute_control {text : String} {control : Control} (h : e.control text = some control) :
    c.execute e (text, []) =
      { c with calls := c.calls + 1 }.controlled (e.mishap c.calls) control := by
  unfold execute
  dsimp only
  rw [h]
  simp

/-- BEGIN opens a transaction on what is committed, where none is open and nothing is in the way. -/
theorem execute_begin (h : c.tx = none) (hmishap : e.mishap c.calls = none) :
    c.execute e ("BEGIN TRANSACTION", []) = (.ok c.changes,
      { c with calls := c.calls + 1, tx := some ⟨⟨c.committed, false⟩, [], false⟩ }) := by
  rw [execute_control e.control_begin, hmishap]
  simp [controlled, begin, h]

/-- Otherwise it changes nothing. -/
theorem execute_begin_error (h : c.tx ≠ none ∨ e.mishap c.calls ≠ none) :
    ∃ err, c.execute e ("BEGIN TRANSACTION", []) =
      (.error err, { c with calls := c.calls + 1 }) := by
  rw [execute_control e.control_begin]
  cases htx : c.tx with
  | some tx =>
    exact ⟨"cannot start a transaction within a transaction", by simp [controlled, begin]⟩
  | none =>
    cases hmishap : e.mishap c.calls with
    | none => exact absurd hmishap (h.resolve_left (not_not.mpr htx))
    | some mishap =>
      cases mishap with
      | refused err => exact ⟨err, by simp [controlled, begin]⟩
      | rollsBack err => exact ⟨err, by simp [controlled, begin]⟩

/-- A BEGIN that succeeds has found the connection idle, and opened a transaction on what is
    committed. -/
theorem execute_begin_ok {n : Nat} {begun : Connection D}
    (h : c.execute e ("BEGIN TRANSACTION", []) = (.ok n, begun)) :
    c.tx = none ∧ begun.committed = c.committed ∧ begun.Inside := by
  by_cases herr : c.tx ≠ none ∨ e.mishap c.calls ≠ none
  · obtain ⟨err, herr⟩ := execute_begin_error herr
    rw [herr] at h
    cases h
  · obtain ⟨hidle, hmishap⟩ := not_or.mp herr
    rw [execute_begin (not_not.mp hidle) (not_not.mp hmishap)] at h
    rw [← (Prod.mk.inj h).2]
    exact ⟨not_not.mp hidle, rfl, _, rfl, rfl⟩

/-- After a ROLLBACK no transaction is open, whether there was one or not. -/
theorem execute_rollback :
    (c.execute e ("ROLLBACK", [])).2 = { c with calls := c.calls + 1, tx := none } := by
  rw [execute_control e.control_rollback]
  cases c.tx with
  | none => simp [controlled, rollback]
  | some tx => simp [controlled, rollback]

theorem not_refused_of_commits (h : c.Commits e) : ¬ c.CommitRefused e := by
  intro ⟨tx, htx, hwhy⟩
  obtain ⟨tx', htx', hviolated, hmishap⟩ := h
  rw [htx] at htx'
  cases htx'
  rw [hviolated, hmishap] at hwhy
  simp at hwhy

theorem execute_commit (h : c.Commits e) :
    c.execute e ("COMMIT", []) = (.ok c.changes,
      { c with calls := c.calls + 1, committed := c.content, tx := none }) := by
  obtain ⟨tx, htx, hviolated, hmishap⟩ := h
  rw [execute_control e.control_commit, hmishap]
  simp [controlled, commit, keep, content, htx, hviolated]

theorem execute_commit_refused (h : c.CommitRefused e) :
    ∃ err, c.execute e ("COMMIT", []) = (.error err, { c with calls := c.calls + 1 }) := by
  obtain ⟨tx, htx, hwhy⟩ := h
  rw [execute_control e.control_commit]
  cases hviolated : tx.work.violated with
  | true =>
    exact ⟨"FOREIGN KEY constraint failed", by simp [controlled, commit, keep, htx, hviolated]⟩
  | false =>
    obtain ⟨err, hmishap⟩ := hwhy.resolve_left (by simp [hviolated])
    exact ⟨err, by simp [controlled, commit, keep, htx, hviolated, hmishap]⟩

/-- A COMMIT that neither succeeds nor is refused finds no transaction, or undoes it. -/
theorem execute_commit_lost (h : ¬ c.Commits e) (h' : ¬ c.CommitRefused e) :
    ∃ err, c.execute e ("COMMIT", []) =
      (.error err, { c with calls := c.calls + 1, tx := none }) := by
  rw [execute_control e.control_commit]
  cases htx : c.tx with
  | none => exact ⟨"cannot commit - no transaction is active", by simp [controlled, commit]⟩
  | some tx =>
    have hviolated : tx.work.violated = false := by
      simpa using fun hv => h' ⟨tx, htx, Or.inl hv⟩
    cases hmishap : e.mishap c.calls with
    | none => exact absurd ⟨tx, htx, hviolated, hmishap⟩ h
    | some mishap =>
      cases mishap with
      | refused err => exact absurd ⟨tx, htx, Or.inr ⟨err, hmishap⟩⟩ h'
      | rollsBack err => exact ⟨err, by simp [controlled, commit, keep, hviolated]⟩

/-! ## Outside a transaction -/

/-- Outside a transaction a statement opens none, and what succeeds is durable at once. -/
theorem change_idle (outcome : Outcome D) (h : c.tx = none) :
    (c.change outcome).2.tx = none ∧ ∀ n, (c.change outcome).1 = .ok n →
      ∃ changed work, outcome = .done changed work ∧
        (c.change outcome).2.committed = work.content := by
  cases outcome with
  | failed err work => cases hv : work.violated <;> exact ⟨by simp [change, put, h, hv], nofun⟩
  | rolledBack err => exact ⟨rfl, nofun⟩
  | done changed work =>
    cases hv : work.violated with
    | true => exact ⟨by simp [change, h, hv], fun n hn => by simp [change, h, hv] at hn⟩
    | false =>
      exact ⟨by simp [change, put, h, hv], fun n _ =>
        ⟨changed, work, rfl, by simp [change, put, h, hv]⟩⟩

theorem execute_idle {stmt : Stmt P} (h : c.tx = none) (hplain : e.control stmt.1 = none) :
    (c.execute e stmt).2.tx = none ∧ ∀ n, (c.execute e stmt).1 = .ok n →
      ∃ changed work, e.apply c.calls stmt.1 stmt.2 c.work = .done changed work ∧
        (c.execute e stmt).2.committed = work.content := by
  unfold execute
  dsimp only
  rw [hplain]
  exact change_idle _ h

/-! ## Inside a transaction -/

theorem controlled_inside (mishap : Option Mishap) {control : Control} (hin : c.Inside)
    (hcommit : control ≠ .commit) (hrollback : control ≠ .rollback) :
    (c.controlled mishap control).2.committed = c.committed ∧
      (c.controlled mishap control).2.Inside := by
  obtain ⟨tx, htx, hby⟩ := hin
  have hsame : c.committed = c.committed ∧ c.Inside := ⟨rfl, tx, htx, hby⟩
  cases control with
  | begin => simpa [controlled, begin, htx] using hsame
  | commit => exact absurd rfl hcommit
  | rollback => exact absurd rfl hrollback
  | savepoint name =>
    exact ⟨by simp [controlled, savepoint, htx],
      { tx with savepoints := (name, tx.work) :: tx.savepoints },
      by simp [controlled, savepoint, htx], hby⟩
  | release name =>
    cases hfrom : Tx.from tx name with
    | nil => simpa [controlled, release, htx, hfrom] using hsame
    | cons saved rest =>
      exact ⟨by simp [controlled, release, htx, hfrom, hby],
        { tx with savepoints := rest }, by simp [controlled, release, htx, hfrom, hby], hby⟩
  | rollbackTo name =>
    cases hfrom : Tx.from tx name with
    | nil => simpa [controlled, rollbackTo, htx, hfrom] using hsame
    | cons saved rest =>
      exact ⟨by simp [controlled, rollbackTo, htx, hfrom],
        { tx with work := saved.2, savepoints := saved :: rest },
        by simp [controlled, rollbackTo, htx, hfrom], hby⟩

theorem change_inside {outcome : Outcome D} (hin : c.Inside) :
    (c.change outcome).2.committed = c.committed ∧
      ((c.change outcome).2.Inside ∨ ∃ err, (c.change outcome).1 = .error err) := by
  obtain ⟨tx, htx, hby⟩ := hin
  cases outcome with
  | done changed work =>
    exact ⟨by simp [change, put, htx],
      Or.inl ⟨{ tx with work }, by simp [change, put, htx], hby⟩⟩
  | failed err work => exact ⟨by simp [change, put, htx], Or.inr ⟨err, rfl⟩⟩
  | rolledBack err => exact ⟨rfl, Or.inr ⟨err, rfl⟩⟩

/-- Inside a transaction, only its end changes what is committed; and a statement that is not its
    end leaves it open, or has failed. -/
theorem execute_inside {stmt : Stmt P} (hin : c.Inside) (hkeeps : KeepsTx e stmt) :
    (c.execute e stmt).2.committed = c.committed ∧
      ((c.execute e stmt).2.Inside ∨ ∃ err, (c.execute e stmt).1 = .error err) := by
  have hnext : { c with calls := c.calls + 1 }.Inside := hin
  unfold execute
  dsimp only
  cases hcontrol : e.control stmt.1 with
  | none => exact change_inside hnext
  | some control =>
    dsimp only
    split
    · have hopen := controlled_inside (e.mishap c.calls) hnext
        (fun h => hkeeps.1 (h ▸ hcontrol)) (fun h => hkeeps.2 (h ▸ hcontrol))
      exact ⟨hopen.1, Or.inl hopen.2⟩
    · exact ⟨rfl, Or.inr ⟨_, rfl⟩⟩

/-- So do statements in order. -/
theorem script_inside {stmts : List (Stmt P)} (hin : c.Inside)
    (hkeeps : ∀ stmt ∈ stmts, KeepsTx e stmt) :
    (c.script e stmts).2.committed = c.committed ∧
      ((c.script e stmts).2.Inside ∨ ∃ err, (c.script e stmts).1 = .error err) := by
  induction stmts generalizing c with
  | nil => exact ⟨rfl, Or.inl hin⟩
  | cons stmt rest ih =>
    have hstep := execute_inside hin (hkeeps stmt List.mem_cons_self)
    unfold script
    cases hresult : c.execute e stmt with
    | mk result next =>
    rw [hresult] at hstep
    cases result with
    | error err => exact ⟨hstep.1, Or.inr ⟨err, rfl⟩⟩
    | ok n =>
      obtain ⟨hsame, hend⟩ := ih (hstep.2.resolve_right nofun) fun stmt' hmem =>
        hkeeps stmt' (List.mem_cons_of_mem _ hmem)
      refine ⟨hsame.trans hstep.1, hend.imp_right fun ⟨err, herr⟩ => ⟨err, ?_⟩⟩
      dsimp only
      rw [herr]
      rfl

end

end Connection

end Mik.Lib.Sql
