import Alicerce.Adapters.StateCodecs
import Alicerce.Lib.Transaction

/-!
# The SQLite state store

The transactional SQLite implementation of the state-store port.

* `Database` are its two tables, with the statements it issues on them (`Statement`).
* `initializeRun`, `load`, `compareAndAppend` and `history` are the operations.  Every operation
  opens a connection of its own (`connect`).  The writers run between `BEGIN IMMEDIATE` and
  `COMMIT`; the readers run no transaction, so their two `SELECT`s are two separate reads.
* `validatedRun` rebuilds a run from what is stored: it decodes identity and checkpoint, replays the
  journal from the initial checkpoint (`replay`), and compares.
* `StoreEnv` is what an operation meets.

No operation issues a statement twice, so the label of a statement says which one it is.  A `SELECT`
and the fetching of its rows are one statement here: both raise `sqlite3.Error`, and nothing stands
between them.
-/

set_option autoImplicit false

namespace Alicerce

open Py Lib Program Client

/-! ## Tables -/

/-- A value of one of SQLite's five storage classes. -/
inductive SqlValue
  | null
  | integer (n : ℤ)
  /-- A number or an infinity; SQLite stores no NaN. -/
  | real (x : WithBot (WithTop ℚ))
  | text (t : Text)
  | blob (b : Bytes)
deriving DecidableEq

/-- The order of the storage classes; the two numeric ones are compared by value. -/
def SqlValue.rank : SqlValue → ℕ
  | null => 0
  | integer _ | real _ => 1
  | text _ => 2
  | blob _ => 3

/-- The order `ORDER BY` sorts by. -/
def SqlValue.le : SqlValue → SqlValue → Bool
  | integer m, integer n => m ≤ n
  | integer m, real x => WithBot.some (WithTop.some (m : ℚ)) ≤ x
  | real x, integer n => x ≤ WithBot.some (WithTop.some (n : ℚ))
  | real x, real y => x ≤ y
  | text t, text u => t.le u
  | blob a, blob b => a.data.toList.map UInt8.toNat ≤ b.data.toList.map UInt8.toNat
  | v, w => v.rank ≤ w.rank

/-- A row of `alicerce_runs`. -/
structure RunRow where
  runId : SqlValue
  identity : SqlValue
  checkpoint : SqlValue
deriving DecidableEq

/-- A row of `alicerce_transitions`. -/
structure TransitionRow where
  runId : SqlValue
  revision : SqlValue
  transition : SqlValue
deriving DecidableEq

/-- The contents of the two tables, in the order of insertion. -/
structure Database where
  runs : List RunRow
  transitions : List TransitionRow
deriving DecidableEq

namespace Database

/-- Both tables are empty. -/
def empty : Database := ⟨[], []⟩

/-! ## Statements -/

/-- The value a run's identifier is bound to. -/
def key (runId : RunId) : SqlValue := .text runId.value

/-- `SELECT 1 FROM alicerce_runs WHERE run_id = ?`, fetching one row. -/
def hasRun (runId : RunId) (db : Database) : Bool := db.runs.any fun row ↦ row.runId == key runId

/-- `SELECT identity, checkpoint FROM alicerce_runs WHERE run_id = ?`, fetching one row. -/
def selectRun (runId : RunId) (db : Database) : Option (SqlValue × SqlValue) :=
  (db.runs.find? fun row ↦ row.runId == key runId).map fun row ↦ (row.identity, row.checkpoint)

/-- `SELECT revision, transition FROM alicerce_transitions WHERE run_id = ? ORDER BY revision`. -/
def selectTransitions (runId : RunId) (db : Database) : List (SqlValue × SqlValue) :=
  ((db.transitions.filter fun row ↦ row.runId == key runId).map fun row ↦
    (row.revision, row.transition)).mergeSort fun a b ↦ a.1.le b.1

/-- `INSERT INTO alicerce_runs(run_id, identity, checkpoint) VALUES (?, ?, ?)`. -/
def insertRun (runId : RunId) (identity checkpoint : Bytes) (db : Database) :
    Except Exc (Unit × Database) :=
  if db.hasRun runId then
    .error (.sqliteError "UNIQUE constraint failed: alicerce_runs.run_id")
  else .ok ((), { db with runs := db.runs ++ [⟨key runId, .blob identity, .blob checkpoint⟩] })

/-- `INSERT INTO alicerce_transitions(run_id, revision, transition) VALUES (?, ?, ?)`. -/
def insertTransition (runId : RunId) (revision : ℤ) (transition : Bytes) (db : Database) :
    Except Exc (Unit × Database) :=
  if revision ≤ 0 then .error (.sqliteError "CHECK constraint failed: revision > 0")
  else if db.transitions.any fun row ↦
      row.runId == key runId && row.revision == .integer revision then
    .error (.sqliteError
      "UNIQUE constraint failed: alicerce_transitions.run_id, alicerce_transitions.revision")
  else if db.hasRun runId then
    .ok ((), { db with
      transitions := db.transitions ++ [⟨key runId, .integer revision, .blob transition⟩] })
  else .error (.sqliteError "FOREIGN KEY constraint failed")

/-- The rows an `UPDATE` of a checkpoint matches. -/
def matchesUpdate (runId : RunId) (expected : Bytes) (row : RunRow) : Bool :=
  row.runId == key runId && row.checkpoint == .blob expected

/-- `UPDATE alicerce_runs SET checkpoint = ? WHERE run_id = ? AND checkpoint = ?`, returning
`rowcount`. -/
def updateCheckpoint (runId : RunId) (next expected : Bytes) (db : Database) : ℕ × Database :=
  (db.runs.countP (matchesUpdate runId expected),
    { db with runs := db.runs.map fun row ↦
        if matchesUpdate runId expected row then { row with checkpoint := .blob next } else row })

end Database

/-- Binding an `int`, which must fit SQLite's `INTEGER`. -/
def bindInteger (n : ℤ) : Except Exc ℤ :=
  if -0x8000000000000000 ≤ n ∧ n ≤ 0x7fffffffffffffff then .ok n
  else .error (.overflowError "Python int too large to convert to SQLite INTEGER")

/-- The statements the store issues. -/
inductive Statement
  | connect
  | foreignKeys
  | begin
  | selectExisting
  | insertRun
  | selectRun
  | selectTransitions
  | insertTransition
  | updateRun
  | commit
  | rollback
deriving DecidableEq

/-- A program of the store. -/
abbrev Store (α : Type) : Type := Client Statement Database Exc α

/-- What an operation of the store meets: what is committed when each of its statements is issued,
and which of them fail, with the message of the `sqlite3.Error`. -/
structure StoreEnv where
  committed : Statement → Database
  fault : Statement → Option Text

/-- The environment of a client. -/
def StoreEnv.toEnv (env : StoreEnv) : Env Statement Database Exc :=
  ⟨env.committed, fun k ↦ (env.fault k).map .sqliteError⟩

/-! ## Connections -/

/-- `_storage_failure`. -/
def storageFailure (message : Text) : Exc := .stateStoreError .storageFailure message

/-- `_corrupt`.  The exception it keeps as its cause is not. -/
def corrupt (detail : Text) : Exc := .stateStoreError .corrupt detail

/-- `_connect`, and the assignment of its result. -/
def connect : Store Unit := do
  statement .connect
  statement .foreignKeys
  opened

/-- `if connection is not None: connection.rollback()`. -/
def rollbackIfConnected : Store Unit := whenConnected (rollback .rollback)

/-- The `except` clauses of an operation.  Those of the two writers first roll back. -/
def handlers {α : Type} (onFailure : Store Unit) : Exc → Store α
  | .stateStoreError cause detail => do
    onFailure
    raise (.stateStoreError cause detail)
  | .sqliteError message => do
    onFailure
    raise (storageFailure message)
  | e => raise e

/-- The `try` around each operation: connect, run the body, handle what it raises, and close the
connection whatever happens. -/
def guarded {α : Type} (onFailure : Store Unit) (body : Store α) : Store α :=
  tryFinally (tryCatch (do connect; body) (handlers onFailure)) (whenConnected close)

/-! ## Validating a stored run -/

section
variable [Interpreter]

/-- `_blob`. -/
def asBlob (value : SqlValue) (name : String) : Except Exc Bytes :=
  match value with
  | .blob b => .ok b
  | _ => .error (corrupt (text name ++ text " is not stored as bytes"))

/-- The loop of `_validated_run` over the rows of the journal: the checkpoint they lead to, and
the events they hold. -/
def replay (identity : RunIdentity) (checkpoint : RunCheckpoint) (expectedRevision : ℕ) :
    List (SqlValue × SqlValue) → Except Exc (RunCheckpoint × List LifecycleTransition)
  | [] => .ok (checkpoint, [])
  | (revision, transition) :: rows =>
    if revision ≠ .integer expectedRevision then
      .error (corrupt "transition journal has a revision gap")
    else do
      let event ← deserializeTransition (← asBlob transition "transition")
      let generated ← advanceLifecycle checkpoint.lifecycle event.toState (utc event.occurredAt)
        event.actor (finalText event.finalState)
      if generated.transition ≠ event then
        .error (corrupt "transition journal does not form one valid history")
      else do
        let checkpoint ← RunCheckpoint.new identity generated.lifecycle
        let (final, events) ← replay identity checkpoint (expectedRevision + 1) rows
        .ok (final, event :: events)

/-- The first half of `_validated_run`: identity and checkpoint of a row, compared with each other
and with the lookup key. -/
def checkRow (runId : RunId) (row : SqlValue × SqlValue) :
    Except Exc (RunIdentity × RunCheckpoint) := do
  let identity ← deserializeRunIdentity (← asBlob row.1 "identity")
  let stored ← deserializeCheckpoint (← asBlob row.2 "checkpoint")
  if identity ≠ stored.identity ∨ identity.runId ≠ runId then
    .error (corrupt "stored identity does not match checkpoint or lookup key")
  else .ok (identity, stored)

/-- The second half of `_validated_run`: the journal, replayed and compared with the stored
checkpoint. -/
def checkJournal (identity : RunIdentity) (stored : RunCheckpoint)
    (rows : List (SqlValue × SqlValue)) :
    Except Exc (RunCheckpoint × List LifecycleTransition) := do
  let (checkpoint, events) ← replay identity (createInitialCheckpoint identity) 1 rows
  if checkpoint ≠ stored then
    .error (corrupt "stored checkpoint does not match transition history")
  else .ok (checkpoint, events)

/-- The handlers of `_validated_run`. -/
def invalidRun (e : Exc) : Exc :=
  if e.isStateStoreError then e
  else if e.isTypeOrValueError then corrupt "stored run state is invalid"
  else e

/-- `_validated_run`. -/
def validatedRun (runId : RunId) :
    Store (Option (RunCheckpoint × List LifecycleTransition)) := do
  match ← read .selectRun (Database.selectRun runId) with
  | none => pure none
  | some row =>
    tryCatch (do
      let (identity, stored) ← lift (checkRow runId row)
      let rows ← read .selectTransitions (Database.selectTransitions runId)
      let run ← lift (checkJournal identity stored rows)
      pure (some run)) fun e ↦ raise (invalidRun e)

/-! ## Operations -/

/-- The operation `initialize`. -/
def initializeRun (checkpoint : RunCheckpoint) : Store Unit :=
  if checkpoint ≠ createInitialCheckpoint checkpoint.identity then
    raise (.stateStoreError .conflict "checkpoint must be the identity-derived initial state")
  else guarded rollbackIfConnected do
    begin .begin
    let runId := checkpoint.identity.runId
    if ← read .selectExisting (Database.hasRun runId) then
      raise (.stateStoreError .alreadyExists runId.value)
    else do
      let identityBytes ← lift (serializeRunIdentity checkpoint.identity)
      let checkpointBytes ← lift (serializeCheckpoint checkpoint)
      write .insertRun (Database.insertRun runId identityBytes checkpointBytes)
      commit .commit

/-- `load`. -/
def load (runId : RunId) : Store (Option RunCheckpoint) :=
  guarded (pure ()) do
    let validated ← validatedRun runId
    pure (validated.map Prod.fst)

/-- `compare_and_append`, once the stored checkpoint is found to be the expected one: the two writes
and the commit. -/
def storeUpdate (update : StateUpdate) : Store RunCheckpoint := do
  let runId := update.expected.identity.runId
  let expectedBytes ← lift (serializeCheckpoint update.expected)
  let transitionBytes ← lift (serializeTransition update.advance.transition)
  let revision ← lift (bindInteger update.advance.transition.revision)
  write .insertTransition (Database.insertTransition runId revision transitionBytes)
  let nextBytes ← lift (serializeCheckpoint update.nextCheckpoint)
  let rowcount ← write .updateRun fun db ↦
    .ok (Database.updateCheckpoint runId nextBytes expectedBytes db)
  if rowcount ≠ 1 then
    raise (.stateStoreError .conflict runId.value)
  else do
    commit .commit
    pure update.nextCheckpoint

/-- `compare_and_append`. -/
def compareAndAppend (update : StateUpdate) : Store RunCheckpoint :=
  guarded rollbackIfConnected do
    begin .begin
    let runId := update.expected.identity.runId
    match ← validatedRun runId with
    | none => raise (.stateStoreError .notFound runId.value)
    | some (current, _) =>
      if current ≠ update.expected then
        raise (.stateStoreError .conflict runId.value)
      else storeUpdate update

/-- `history`. -/
def history (runId : RunId) : Store (List LifecycleTransition) :=
  guarded (pure ()) do
    match ← validatedRun runId with
    | none => raise (.stateStoreError .notFound runId.value)
    | some (_, events) => pure events

end

end Alicerce
