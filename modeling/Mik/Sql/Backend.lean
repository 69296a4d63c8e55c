/-
  Atomic batches of the SQL service (`daemon/services/sql/sqlite.rs`, `memory.rs`).

  Both backends put a batch between BEGIN and COMMIT on the one connection they share, roll back
  when a statement fails, and do nothing when the COMMIT fails. `batch_atomic_iff` says when this
  makes the batch atomic: the connection must be idle, the statements must leave the transaction
  alone, and the COMMIT must not be refused, since that leaves the transaction open.
-/
import Mik.Lib.Run
import Mik.Lib.SqlConnection

namespace Mik.Sql

open Mik.Lib Mik.Lib.Sql Connection

/-- `Value`, with the bits of a floating point number. -/
inductive Value where
  | null
  | integer (i : Int64)
  | real (bits : UInt64)
  | text (s : String)
  | blob (b : List UInt8)
  deriving DecidableEq

/-- `std::sync::Mutex`. -/
structure Mutex (α : Type) where
  value : α
  poisoned : Bool

section

variable {D : Type} (e : Engine D Value)

/-- `execute_sync`. -/
def executeSync (conn : Mutex (Connection D)) (stmt : Stmt Value) :
    Except String Nat × Mutex (Connection D) :=
  if conn.poisoned then
    (.error "Failed to acquire database lock: poisoned lock: another task failed inside", conn)
  else
    match conn.value.execute e stmt with
    | (.error _, c) =>
      (.error ("Failed to execute statement: " ++ stmt.1), { conn with value := c })
    | (.ok affected, c) => (.ok affected, { conn with value := c })

/-- The rest of `execute_batch_atomic_sync` when the transaction has begun. -/
def batchInTransaction (c : Connection D) (statements : List (Stmt Value)) :
    Except String (List Nat) × Connection D :=
  match c.script e statements with
  | (.error err, c) => (.error err, (c.execute e ("ROLLBACK", [])).2)
  | (.ok results, c) =>
    match c.execute e ("COMMIT", []) with
    | (.error _, c) => (.error "Failed to commit transaction", c)
    | (.ok _, c) => (.ok results, c)

/-- `execute_batch_atomic_sync`, which the two backends have in common. -/
def executeBatchAtomicSync (conn : Mutex (Connection D)) (statements : List (Stmt Value)) :
    Except String (List Nat) × Mutex (Connection D) :=
  if conn.poisoned then
    (.error "Failed to acquire database lock: poisoned lock: another task failed inside", conn)
  else
    match conn.value.execute e ("BEGIN TRANSACTION", []) with
    | (.error _, c) => (.error "Failed to begin transaction", { conn with value := c })
    | (.ok _, c) =>
      let (result, c) := batchInTransaction e c statements
      (result, { conn with value := c })

/-- `SqliteBackend` and `MemorySqlBackend`. -/
inductive SqlBackend (D : Type) where
  | sqlite (conn : Mutex (Connection D))
  | memory (conn : Mutex (Connection D))

def SqlBackend.conn : SqlBackend D → Mutex (Connection D)
  | .sqlite conn => conn
  | .memory conn => conn

def SqlBackend.execute (stmt : Stmt Value) : SqlBackend D → Except String Nat × SqlBackend D
  | .sqlite conn =>
    let (result, conn) := executeSync e conn stmt
    (result, .sqlite conn)
  | .memory conn =>
    let (result, conn) := executeSync e conn stmt
    (result, .memory conn)

def SqlBackend.executeBatchAtomic (statements : List (Stmt Value)) :
    SqlBackend D → Except String (List Nat) × SqlBackend D
  | .sqlite conn =>
    let (result, conn) := executeBatchAtomicSync e conn statements
    (result, .sqlite conn)
  | .memory conn =>
    let (result, conn) := executeBatchAtomicSync e conn statements
    (result, .memory conn)

/-! ## What a batch is to do -/

/-- The result of a batch, from a connection to a connection: all of the statements or nothing,
    and no transaction left open. -/
structure Atomic (c : Connection D) (statements : List (Stmt Value))
    (result : Except String (List Nat)) (c' : Connection D) : Prop where
  all : ∀ rows, result = .ok rows → ∃ n begun done,
    c.execute e ("BEGIN TRANSACTION", []) = (.ok n, begun) ∧
      begun.script e statements = (.ok rows, done) ∧ c'.content = done.content
  nothing : ∀ err, result = .error err → c'.content = c.content
  closed : c'.tx = none

/-- How the statements of a batch may come out after BEGIN. When one fails, they have committed
    nothing themselves; when all succeed, the COMMIT succeeds, or it finds no transaction, or undoes
    it, and they have committed nothing themselves. -/
def ComesOutWell (begun : Connection D) : Except String (List Nat) × Connection D → Prop
  | (.error _, c) => c.committed = begun.committed
  | (.ok _, c) => c.Commits e ∨ ¬ c.CommitRefused e ∧ c.committed = begun.committed

/-- The connection is idle, and the batch does not begin or comes out well. -/
def Confined (conn : Mutex (Connection D)) (statements : List (Stmt Value)) : Prop :=
  conn.value.tx = none ∧ (conn.poisoned = true ∨
    ∀ rows begun, conn.value.execute e ("BEGIN TRANSACTION", []) = (.ok rows, begun) →
      ComesOutWell e begun (begun.script e statements))

variable {e} {c begun : Connection D} {statements : List (Stmt Value)}

/-! ## When it does -/

/-- A batch that has begun does what it is to do exactly when its statements come out well. -/
theorem atomic_inTransaction_iff {rows : Nat}
    (hbegin : c.execute e ("BEGIN TRANSACTION", []) = (.ok rows, begun)) :
    Atomic e c statements (batchInTransaction e begun statements).1
        (batchInTransaction e begun statements).2 ↔
      ComesOutWell e begun (begun.script e statements) := by
  have hbefore : begun.committed = c.content :=
    (execute_begin_ok hbegin).2.1.trans (content_of_tx_none (execute_begin_ok hbegin).1).symm
  unfold batchInTransaction ComesOutWell
  cases hscript : begun.script e statements with
  | mk result done =>
  cases result with
  | error err =>
    dsimp only
    rw [execute_rollback]
    constructor
    · exact fun h => (h.nothing err rfl).trans hbefore.symm
    · exact fun hkept => ⟨nofun, fun _ _ => hkept.trans hbefore, rfl⟩
  | ok results =>
    dsimp only
    by_cases hcommits : done.Commits e
    · rw [execute_commit hcommits]
      refine ⟨fun _ => Or.inl hcommits, fun _ => ⟨fun rows' hrows => ?_, nofun, rfl⟩⟩
      cases hrows
      exact ⟨rows, begun, done, hbegin, hscript, rfl⟩
    by_cases hrefused : done.CommitRefused e
    · obtain ⟨err, herr⟩ := execute_commit_refused hrefused
      rw [herr]
      constructor
      · intro h
        obtain ⟨tx, htx, -⟩ := hrefused
        exact absurd (htx.symm.trans h.closed) (by simp)
      · exact fun h => absurd hrefused (h.resolve_left hcommits).1
    · obtain ⟨err, herr⟩ := execute_commit_lost hcommits hrefused
      rw [herr]
      constructor
      · exact fun h => Or.inr ⟨hrefused, (h.nothing _ rfl).trans hbefore.symm⟩
      · exact fun h => ⟨nofun, fun _ _ =>
          (h.resolve_left hcommits).2.trans hbefore, rfl⟩

theorem sync_atomic_iff {conn : Mutex (Connection D)} :
    Atomic e conn.value statements (executeBatchAtomicSync e conn statements).1
        (executeBatchAtomicSync e conn statements).2.value ↔ Confined e conn statements := by
  unfold executeBatchAtomicSync Confined
  cases hpoisoned : conn.poisoned with
  | true => exact ⟨fun h => ⟨h.closed, Or.inl rfl⟩, fun h => ⟨nofun, fun _ _ => rfl, h.1⟩⟩
  | false =>
  dsimp only
  rw [if_neg Bool.false_ne_true, or_iff_right Bool.false_ne_true]
  by_cases herr : conn.value.tx ≠ none ∨ e.mishap conn.value.calls ≠ none
  · -- a transaction that was open is still open
    obtain ⟨err, herr⟩ := execute_begin_error herr
    rw [herr]
    exact ⟨fun h => ⟨h.closed, nofun⟩, fun h => ⟨nofun, fun _ _ => rfl, h.1⟩⟩
  · obtain ⟨hidle, hmishap⟩ := not_or.mp herr
    have hbegin := execute_begin (not_not.mp hidle) (not_not.mp hmishap)
    rw [hbegin]
    refine (atomic_inTransaction_iff hbegin).trans ⟨fun h => ⟨not_not.mp hidle, ?_⟩, fun h => ?_⟩
    · intro rows begun heq
      rwa [← (Prod.mk.inj heq).2]
    · exact h.2 _ _ rfl

theorem atomic_iff_confined {backend : SqlBackend D} :
    Atomic e backend.conn.value statements (backend.executeBatchAtomic e statements).1
        (backend.executeBatchAtomic e statements).2.conn.value ↔
      Confined e backend.conn statements := by
  cases backend with
  | sqlite conn => exact sync_atomic_iff
  | memory conn => exact sync_atomic_iff

/-- When all statements leave the transaction alone, only the COMMIT can spoil a batch. -/
theorem confined_iff {conn : Mutex (Connection D)} (hkeeps : ∀ stmt ∈ statements, KeepsTx e stmt) :
    Confined e conn statements ↔ conn.value.tx = none ∧ (conn.poisoned = true ∨
      ∀ n begun rows done, conn.value.execute e ("BEGIN TRANSACTION", []) = (.ok n, begun) →
        begun.script e statements = (.ok rows, done) → ¬ done.CommitRefused e) := by
  refine and_congr_right fun _ => or_congr_right ?_
  refine forall_congr' fun n => forall_congr' fun begun => ?_
  constructor
  · intro h rows done hbegin hscript hrefused
    have hout := h hbegin
    rw [hscript] at hout
    exact hout.elim (fun hcommits => not_refused_of_commits hcommits hrefused)
      fun hlost => hlost.1 hrefused
  · intro h hbegin
    have hkept := (script_inside (execute_begin_ok hbegin).2.2 hkeeps).1
    unfold ComesOutWell
    cases hscript : begun.script e statements with
    | mk result done =>
    rw [hscript] at hkept
    cases result with
    | error err => exact hkept
    | ok rows => exact Or.inr ⟨h rows done hbegin hscript, hkept⟩

/-- A batch of either backend is all or nothing and leaves no transaction open exactly when it is
    confined: when its statements leave the transaction alone, exactly when the connection is idle
    and no COMMIT is refused. -/
theorem batch_atomic_iff (e : Engine D Value) (backend : SqlBackend D)
    (statements : List (Stmt Value)) :
    (Atomic e backend.conn.value statements (backend.executeBatchAtomic e statements).1
        (backend.executeBatchAtomic e statements).2.conn.value ↔
      Confined e backend.conn statements) ∧
    ((∀ stmt ∈ statements, KeepsTx e stmt) →
      (Confined e backend.conn statements ↔
        backend.conn.value.tx = none ∧ (backend.conn.poisoned = true ∨
          ∀ n begun rows done,
            backend.conn.value.execute e ("BEGIN TRANSACTION", []) = (.ok n, begun) →
            begun.script e statements = (.ok rows, done) → ¬ done.CommitRefused e))) := by
  exact ⟨atomic_iff_confined, confined_iff⟩

/-! ## The calls that come later -/

inductive Call where
  | execute (stmt : Stmt Value)
  | batch (statements : List (Stmt Value))

variable (e) in
def SqlBackend.call (backend : SqlBackend D) : Call → SqlBackend D
  | .execute stmt => (backend.execute e stmt).2
  | .batch statements => (backend.executeBatchAtomic e statements).2

variable (e) in
/-- Batches are confined, and single statements do not control transactions. -/
def Tame (backend : SqlBackend D) : Call → Prop
  | .execute stmt => e.control stmt.1 = none
  | .batch statements => Confined e backend.conn statements

/-- No transaction is open on the connection. -/
def Idle (backend : SqlBackend D) : Prop := backend.conn.value.tx = none

theorem execute_of_idle {backend : SqlBackend D} {stmt : Stmt Value} (hidle : Idle backend)
    (hplain : e.control stmt.1 = none) :
    Idle (backend.execute e stmt).2 ∧ ∀ n, (backend.execute e stmt).1 = .ok n →
      ∃ changed work,
        e.apply backend.conn.value.calls stmt.1 stmt.2 backend.conn.value.work =
          .done changed work ∧
        (backend.execute e stmt).2.conn.value.committed = work.content := by
  have hsync : ∀ conn : Mutex (Connection D), conn.value.tx = none →
      (executeSync e conn stmt).2.value.tx = none ∧ ∀ n, (executeSync e conn stmt).1 = .ok n →
        ∃ changed work,
          e.apply conn.value.calls stmt.1 stmt.2 conn.value.work = .done changed work ∧
          (executeSync e conn stmt).2.value.committed = work.content := by
    intro conn hconn
    have hexec := execute_idle hconn hplain
    unfold executeSync
    split
    · exact ⟨hconn, nofun⟩
    · cases hresult : conn.value.execute e stmt with
      | mk result c =>
      rw [hresult] at hexec
      cases result with
      | error err => exact ⟨hexec.1, nofun⟩
      | ok n => exact hexec
  cases backend with
  | sqlite conn => exact hsync conn hidle
  | memory conn => exact hsync conn hidle

theorem idle_call {backend : SqlBackend D} {call : Call} (hidle : Idle backend)
    (htame : Tame e backend call) : Idle (backend.call e call) := by
  cases call with
  | execute stmt => exact (execute_of_idle hidle htame).1
  | batch statements => exact (atomic_iff_confined.mpr htame).closed

/-- After a run of such calls every batch can begin that meets no error from outside, and every
    statement that succeeds is durable. -/
theorem served_after_calls {backend : SqlBackend D} {calls : List Call} (hidle : Idle backend)
    (h : Along (SqlBackend.call e) (Tame e) backend calls) :
    let reached := run (SqlBackend.call e) backend calls
    (e.mishap reached.conn.value.calls = none → ∃ begun, reached.conn.value.execute e
      ("BEGIN TRANSACTION", []) = (.ok reached.conn.value.changes, begun)) ∧
    ∀ stmt n, e.control stmt.1 = none → (reached.execute e stmt).1 = .ok n →
      ∃ changed work,
        e.apply reached.conn.value.calls stmt.1 stmt.2 reached.conn.value.work =
          .done changed work ∧
        (reached.execute e stmt).2.conn.value.committed = work.content := by
  have hreached : Idle (run (SqlBackend.call e) backend calls) :=
    run_invariant hidle (fun _ _ => idle_call) h
  refine ⟨fun hmishap => ⟨_, execute_begin hreached hmishap⟩, fun stmt n hplain hok => ?_⟩
  exact (execute_of_idle hreached hplain).2 n hok

end

/-! ## Batches that are not -/

def ledgerControl (text : String) : Option Control :=
  if text = "BEGIN TRANSACTION" then some .begin
  else if text = "COMMIT" then some .commit
  else if text = "ROLLBACK" then some .rollback
  else none

/-- The content is a list of rows. INSERT adds its parameters as a row, which violates a deferred
    constraint when it is empty; any other text is no statement. -/
def ledger : Engine (List (List Value)) Value where
  control := ledgerControl
  apply _ text params work :=
    if text = "INSERT" then .done (some 1) ⟨work.content ++ [params], params.isEmpty⟩
    else .failed "syntax error" work
  mishap _ := none
  control_begin := rfl
  control_commit := rfl
  control_rollback := rfl

def emptyLedger : SqlBackend (List (List Value)) := .sqlite ⟨⟨[], none, 0, 0⟩, false⟩

/-- A row that the COMMIT does not accept. -/
def orphanBatch : List (Stmt Value) := [("INSERT", [])]

/-- An INSERT, a COMMIT of its own, and a statement that fails. -/
def endedBatch : List (Stmt Value) := [("INSERT", [.integer 1]), ("COMMIT", []), ("OOPS", [])]

/-- After a COMMIT that fails, the transaction is still open and the next batch cannot begin. A
    batch with a COMMIT of its own reports an error and keeps its row. -/
theorem batches_not_atomic :
    (∃ failed, emptyLedger.executeBatchAtomic ledger orphanBatch =
        (.error "Failed to commit transaction", failed) ∧
      ¬ Atomic ledger emptyLedger.conn.value orphanBatch (.error "Failed to commit transaction")
        failed.conn.value ∧
      (failed.executeBatchAtomic ledger []).1 = .error "Failed to begin transaction") ∧
    ∃ failed, emptyLedger.executeBatchAtomic ledger endedBatch = (.error "syntax error", failed) ∧
      failed.conn.value.committed = [[.integer 1]] ∧
      ¬ Atomic ledger emptyLedger.conn.value endedBatch (.error "syntax error")
        failed.conn.value := by
  refine ⟨⟨_, rfl, fun h => ?_, rfl⟩, _, rfl, rfl, fun h => ?_⟩
  · exact absurd (show some _ = none from h.closed) nofun
  · exact absurd (h.nothing "syntax error" rfl) (by decide)

end Mik.Sql
