import Alicerce.Adapters.SqliteStateStore

/-!
# What the operations of the store come to

The operations of the store are programs; here each is reduced to a function without effects of what
its statements see and which of them fail.

* `guarded_reader`: a reader is a read-only program between two handlers.
* `guarded_writer`: a writer is a program that commits last, between `BEGIN IMMEDIATE` and two
  handlers that roll back, so it either returns and has published its whole effect, or raises and
  has published nothing.
* `load_run`, `history_run`, `initializeRun_run` and `compareAndAppend_run` are the four equations.
  Everything that is proved about the store starts from these.
-/

set_option autoImplicit false

namespace Alicerce

open Py Lib Program Client

/-! ## Results -/

/-- What an operation returns or raises. -/
def Store.result {α : Type} (p : Store α) (env : StoreEnv) : Except Exc α :=
  (p env.toEnv .initial).1

/-- What an operation commits, if it does. -/
def Store.published {α : Type} (p : Store α) (env : StoreEnv) : Option Database :=
  (p env.toEnv .initial).2.published

/-- How a statement comes off. -/
def StoreEnv.issue (env : StoreEnv) (k : Statement) : Except Exc Unit := env.toEnv.issue k

theorem StoreEnv.issue_of_none {env : StoreEnv} {k : Statement} (h : env.fault k = none) :
    env.issue k = .ok () := by
  simp only [issue, Env.issue, toEnv, h, Option.map_none]

theorem StoreEnv.issue_of_some {env : StoreEnv} {k : Statement} {m : Text}
    (h : env.fault k = some m) : env.issue k = .error (.sqliteError m) := by
  simp only [issue, Env.issue, toEnv, h, Option.map_some]

theorem StoreEnv.issue_eq_ok_iff {env : StoreEnv} {k : Statement} :
    env.issue k = .ok () ↔ env.fault k = none := by
  cases h : env.fault k with
  | none => simp [issue_of_none h]
  | some m => simp [issue_of_some h]

theorem StoreEnv.issue_eq_error_iff {env : StoreEnv} {k : Statement} {e : Exc} :
    env.issue k = .error e ↔ ∃ m, env.fault k = some m ∧ e = .sqliteError m := by
  cases h : env.fault k with
  | none => simp [issue_of_none h]
  | some m => simp [issue_of_some h, eq_comm]

/-! ## Readers and writers -/

/-- The two statements of `_connect`. -/
def StoreEnv.connecting (env : StoreEnv) : Except Exc Unit := do
  env.issue .connect
  env.issue .foreignKeys

/-- What the handlers make of an exception. -/
def publicError : Exc → Exc
  | .sqliteError message => storageFailure message
  | e => e

/-- What the handlers of a writer make of an exception inside its transaction: they roll back first,
and what the `ROLLBACK` raises comes out instead. -/
def writerError (env : StoreEnv) (e : Exc) : Exc :=
  if e.isStateStoreError || e.isSqliteError then
    match env.issue .rollback with
    | .ok () => publicError e
    | .error e' => e'
  else e

/-- What a reader comes to. -/
def readerOutcome {α : Type} (env : StoreEnv) (x : Except Exc α) : Except Exc α :=
  match env.connecting with
  | .ok () => x.mapError publicError
  | .error e => .error (publicError e)

/-- What a writer comes to: its result, and what it publishes. -/
def writerOutcome {α : Type} (env : StoreEnv) (x : Except Exc (α × Database)) :
    Except Exc α × Option Database :=
  match (do env.connecting; env.issue .begin) with
  | .ok () =>
    match x with
    | .ok (a, db) => (.ok a, some db)
    | .error e => (.error (writerError env e), none)
  | .error e => (.error (publicError e), none)

variable {α : Type} {env : StoreEnv}

/-- A writer returns and publishes, or raises and publishes nothing. -/
theorem writerOutcome_cases (env : StoreEnv) (x : Except Exc (α × Database)) :
    (∃ a db, x = .ok (a, db) ∧ writerOutcome env x = (.ok a, some db)) ∨
      ∃ e, writerOutcome env x = (.error e, none) := by
  rw [writerOutcome.eq_def]
  cases (do env.connecting; env.issue .begin : Except Exc Unit) with
  | error e => exact .inr ⟨_, rfl⟩
  | ok u =>
    rcases x with e | ⟨a, db⟩
    · exact .inr ⟨_, rfl⟩
    · exact .inl ⟨a, db, rfl, rfl⟩

theorem connect_run_ok (h : env.connecting = .ok ()) :
    connect env.toEnv .initial = (.ok (), ⟨true, none, none⟩) := by
  obtain ⟨⟨⟩, h₁, h₂⟩ := bind_eq_ok_iff.mp h
  have hconnect : statement Statement.connect env.toEnv .initial = (.ok (), .initial) := by
    rw [statement]; exact congrArg (·, _) h₁
  have hforeign : statement Statement.foreignKeys env.toEnv .initial = (.ok (), .initial) := by
    rw [statement]; exact congrArg (·, _) h₂
  rw [connect, run_bind_ok hconnect, run_bind_ok hforeign]
  rfl

theorem connect_run_error {e : Exc} (h : env.connecting = .error e) :
    connect env.toEnv .initial = (.error e, .initial) := by
  rcases bind_eq_error_iff.mp h with h₁ | ⟨⟨⟩, h₁, h₂⟩
  · have hconnect : statement Statement.connect env.toEnv .initial = (.error e, .initial) := by
      rw [statement]; exact congrArg (·, _) h₁
    rw [connect, run_bind_error hconnect]
  · have hconnect : statement Statement.connect env.toEnv .initial = (.ok (), .initial) := by
      rw [statement]; exact congrArg (·, _) h₁
    have hforeign : statement Statement.foreignKeys env.toEnv .initial = (.error e, .initial) := by
      rw [statement]; exact congrArg (·, _) h₂
    rw [connect, run_bind_ok hconnect, run_bind_error hforeign]

/-- Connecting fails like any statement. -/
theorem exists_of_connecting_eq_error {e : Exc} (h : env.connecting = .error e) :
    ∃ m, e = .sqliteError m := by
  rcases bind_eq_error_iff.mp h with h | ⟨⟨⟩, -, h⟩
  · exact (StoreEnv.issue_eq_error_iff.mp h).imp fun _ h ↦ h.2
  · exact (StoreEnv.issue_eq_error_iff.mp h).imp fun _ h ↦ h.2

/-- **A reader**: its body is read-only, so nothing but the exceptions it raises changes. -/
theorem guarded_reader {p : Store α} {f : (Statement → Database) → Except Exc α}
    (hp : Reads env.toEnv p f) :
    guarded (pure ()) p env.toEnv .initial =
      (readerOutcome env (f env.committed), .initial) := by
  have hclose : ∀ c, whenConnected (close : Store Unit) env.toEnv ⟨c, none, none⟩ =
      (.ok (), .initial) := by
    intro c; cases c <;> rfl
  rw [guarded, readerOutcome]
  cases hc : env.connecting with
  | error e =>
    obtain ⟨m, rfl⟩ := exists_of_connecting_eq_error hc
    refine run_tryFinally ?_ (hclose false)
    rw [run_tryCatch_error (run_bind_error (connect_run_error hc))]
    rfl
  | ok u =>
    have hbody := (run_bind_ok (f := fun _ ↦ p) (connect_run_ok hc)).trans (hp _)
    rw [Env.view_of_none rfl] at hbody
    refine run_tryFinally ?_ (hclose true)
    cases hx : f env.committed with
    | ok a =>
      rw [run_tryCatch_ok (hbody.trans (by rw [← hx]; rfl))]
      rfl
    | error e =>
      rw [run_tryCatch_error (hbody.trans (by rw [← hx]; rfl))]
      cases e <;> rfl

/-- A rollback on an open connection with an open transaction. -/
theorem rollbackIfConnected_run (env : StoreEnv) (d : Database) :
    ∃ t, rollbackIfConnected env.toEnv ⟨true, some d, none⟩ =
      (env.issue .rollback, ⟨true, t, none⟩) := by
  rw [rollbackIfConnected, whenConnected, if_pos rfl]
  cases h : env.issue .rollback with
  | ok u => exact ⟨none, by simp only [rollback, show env.toEnv.issue .rollback = .ok u from h]⟩
  | error e =>
    exact ⟨some d, by simp only [rollback, show env.toEnv.issue .rollback = .error e from h]⟩

/-- The handlers of a writer, inside its transaction. -/
theorem handlers_run (env : StoreEnv) (d : Database) (e : Exc) :
    ∃ t, (handlers rollbackIfConnected e : Store α) env.toEnv ⟨true, some d, none⟩ =
      (.error (writerError env e), ⟨true, t, none⟩) := by
  obtain ⟨t, ht⟩ := rollbackIfConnected_run env d
  cases h : env.issue .rollback with
  | ok u =>
    rw [h] at ht
    cases e with
    | stateStoreError cause detail =>
      exact ⟨t, (run_bind_ok ht).trans (by simp only [run_raise, writerError, h]; rfl)⟩
    | sqliteError message =>
      exact ⟨t, (run_bind_ok ht).trans (by simp only [run_raise, writerError, h]; rfl)⟩
    | _ => exact ⟨some d, rfl⟩
  | error e' =>
    rw [h] at ht
    cases e with
    | stateStoreError cause detail =>
      exact ⟨t, (run_bind_error ht).trans (by simp only [writerError, h]; rfl)⟩
    | sqliteError message =>
      exact ⟨t, (run_bind_error ht).trans (by simp only [writerError, h]; rfl)⟩
    | _ => exact ⟨some d, rfl⟩

/-- **A writer**: it begins a transaction and its body commits last, so it publishes what its body
comes to exactly when it returns. -/
theorem guarded_writer {p : Store α} {f : Database → Except Exc (α × Database)}
    (hp : Commits env.toEnv p f) :
    guarded rollbackIfConnected (do begin .begin; p) env.toEnv .initial =
      ((writerOutcome env (f (env.committed .begin))).1,
        ⟨false, none, (writerOutcome env (f (env.committed .begin))).2⟩) := by
  have hclose : ∀ c t d, whenConnected (close : Store Unit) env.toEnv ⟨c, t, d⟩ =
      (.ok (), ⟨false, if c then none else t, d⟩) := by
    intro c t d; cases c <;> rfl
  rw [guarded, writerOutcome.eq_def]
  cases hc : env.connecting with
  | error e =>
    obtain ⟨m, rfl⟩ := exists_of_connecting_eq_error hc
    refine run_tryFinally ?_ (hclose false none none)
    rw [run_tryCatch_error (run_bind_error (connect_run_error hc))]
    rfl
  | ok u =>
    have hbody := run_bind_ok (f := fun _ ↦ (do begin .begin; p)) (connect_run_ok hc)
    cases hb : env.issue .begin with
    | error e =>
      obtain ⟨m, -, rfl⟩ := StoreEnv.issue_eq_error_iff.mp hb
      have hbegin : begin Statement.begin env.toEnv ⟨true, none, none⟩ =
          (.error (.sqliteError m), ⟨true, none, none⟩) := by
        simp only [begin, show env.toEnv.issue .begin = _ from hb]
      refine run_tryFinally ?_ (hclose true none none)
      rw [run_tryCatch_error (hbody.trans (run_bind_error hbegin))]
      rfl
    | ok u =>
      have hbegin : begin Statement.begin env.toEnv ⟨true, none, none⟩ =
          (.ok (), ⟨true, some (env.committed .begin), none⟩) := by
        simp only [begin, show env.toEnv.issue .begin = _ from hb]
        rfl
      have hbody := hbody.trans (run_bind_ok hbegin)
      cases hx : f (env.committed .begin) with
      | ok r =>
        obtain ⟨a, db⟩ := r
        refine run_tryFinally ?_ (hclose true none (some db))
        exact run_tryCatch_ok (hbody.trans (hp.ok rfl hx))
      | error e =>
        obtain ⟨d, hd⟩ := hp.error (s := ⟨true, some (env.committed .begin), none⟩) rfl hx
        obtain ⟨t, ht⟩ := handlers_run (α := α) env d e
        refine run_tryFinally ?_ (hclose true t none)
        exact (run_tryCatch_error (hbody.trans hd)).trans ht

/-! ## The four operations -/

section
variable [Interpreter]

/-- What `_validated_run` comes to. -/
def validatedOutcome (env : StoreEnv) (runId : RunId) (view : Statement → Database) :
    Except Exc (Option (RunCheckpoint × List LifecycleTransition)) := do
  let row ← (env.issue .selectRun).map fun _ ↦ (view .selectRun).selectRun runId
  match row with
  | none => .ok none
  | some row =>
    Except.mapError invalidRun do
      let (identity, stored) ← checkRow runId row
      let rows ← (env.issue .selectTransitions).map fun _ ↦
        (view .selectTransitions).selectTransitions runId
      let run ← checkJournal identity stored rows
      .ok (some run)

theorem validatedRun_reads (env : StoreEnv) (runId : RunId) :
    Reads env.toEnv (validatedRun runId) (validatedOutcome env runId) := by
  refine Reads.bind (reads_read _) fun row ↦ ?_
  cases row with
  | none => exact reads_pure none
  | some row =>
    refine Reads.tryCatch (Reads.bind (reads_lift _) ?_) invalidRun
    rintro ⟨identity, stored⟩
    exact Reads.bind (reads_read _) fun rows ↦ Reads.bind (reads_lift _) fun run ↦
      reads_pure (some run)

/-- **What `load` comes to.** -/
theorem load_run (env : StoreEnv) (runId : RunId) :
    load runId env.toEnv .initial = (readerOutcome env do
      let validated ← validatedOutcome env runId env.committed
      .ok (validated.map Prod.fst), .initial) :=
  guarded_reader (Reads.bind (validatedRun_reads env runId) fun validated ↦
    reads_pure (validated.map Prod.fst))

/-- **What `history` comes to.** -/
theorem history_run (env : StoreEnv) (runId : RunId) :
    history runId env.toEnv .initial = (readerOutcome env do
      let validated ← validatedOutcome env runId env.committed
      match validated with
      | none => .error (.stateStoreError .notFound runId.value)
      | some (_, events) => .ok events, .initial) := by
  refine guarded_reader (f := fun view ↦ do
    let validated ← validatedOutcome env runId view
    match validated with
    | none => .error (.stateStoreError .notFound runId.value)
    | some (_, events) => .ok events) (Reads.bind (validatedRun_reads env runId) ?_)
  rintro (_ | ⟨checkpoint, events⟩)
  · exact reads_raise _
  · exact reads_pure events

/-- What the transaction of `initialize` comes to. -/
def initialOutcome (env : StoreEnv) (checkpoint : RunCheckpoint) (db : Database) :
    Except Exc (Unit × Database) := do
  let runId := checkpoint.identity.runId
  env.issue .selectExisting
  if db.hasRun runId then .error (.stateStoreError .alreadyExists runId.value)
  else do
    let identityBytes ← serializeRunIdentity checkpoint.identity
    let checkpointBytes ← serializeCheckpoint checkpoint
    env.issue .insertRun
    let ((), db) ← db.insertRun runId identityBytes checkpointBytes
    env.issue .commit
    .ok ((), db)

/-- **What `initialize` comes to.** -/
theorem initializeRun_run (env : StoreEnv) {checkpoint : RunCheckpoint}
    (h : checkpoint = createInitialCheckpoint checkpoint.identity) :
    initializeRun checkpoint env.toEnv .initial =
      ((writerOutcome env (initialOutcome env checkpoint (env.committed .begin))).1,
        ⟨false, none, (writerOutcome env
          (initialOutcome env checkpoint (env.committed .begin))).2⟩) := by
  rw [initializeRun, if_neg (not_not.mpr h)]
  refine guarded_writer ((Transacts.commits (reads_read _).transacts fun existing ↦
    commits_ite (commits_raise _) (Transacts.commits (reads_lift _).transacts fun identityBytes ↦
      Transacts.commits (reads_lift _).transacts fun checkpointBytes ↦
        Transacts.commits (transacts_write _) fun _ ↦ commits_commit)).congr fun db ↦ ?_)
  simp only [map_eq_bind, bind_bind]
  rfl

/-- What the writes of `compare_and_append` come to. -/
def storeOutcome (env : StoreEnv) (update : StateUpdate) (db : Database) :
    Except Exc (RunCheckpoint × Database) := do
  let runId := update.expected.identity.runId
  let expectedBytes ← serializeCheckpoint update.expected
  let transitionBytes ← serializeTransition update.advance.transition
  let revision ← bindInteger update.advance.transition.revision
  env.issue .insertTransition
  let ((), db) ← db.insertTransition runId revision transitionBytes
  let nextBytes ← serializeCheckpoint update.nextCheckpoint
  env.issue .updateRun
  let (rowcount, db) := db.updateCheckpoint runId nextBytes expectedBytes
  if rowcount ≠ 1 then .error (.stateStoreError .conflict runId.value)
  else do
    env.issue .commit
    .ok (update.nextCheckpoint, db)

theorem storeUpdate_commits (env : StoreEnv) (update : StateUpdate) :
    Commits env.toEnv (storeUpdate update) (storeOutcome env update) := by
  refine Commits.congr (Transacts.commits (reads_lift _).transacts fun expectedBytes ↦
    Transacts.commits (reads_lift _).transacts fun transitionBytes ↦
      Transacts.commits (reads_lift _).transacts fun revision ↦
        Transacts.commits (transacts_write _) fun _ ↦
          Transacts.commits (reads_lift _).transacts fun nextBytes ↦
            Transacts.commits (transacts_write _) fun rowcount ↦
              commits_ite (commits_raise _) (commits_commit.map _)) fun db ↦ ?_
  simp only [map_eq_bind, bind_bind, ok_bind]
  rfl

/-- What the transaction of `compare_and_append` comes to. -/
def appendOutcome (env : StoreEnv) (update : StateUpdate) (db : Database) :
    Except Exc (RunCheckpoint × Database) := do
  let runId := update.expected.identity.runId
  let validated ← validatedOutcome env runId fun _ ↦ db
  match validated with
  | none => .error (.stateStoreError .notFound runId.value)
  | some (current, _) =>
    if current ≠ update.expected then .error (.stateStoreError .conflict runId.value)
    else storeOutcome env update db

/-- **What `compare_and_append` comes to.** -/
theorem compareAndAppend_run (env : StoreEnv) (update : StateUpdate) :
    compareAndAppend update env.toEnv .initial =
      ((writerOutcome env (appendOutcome env update (env.committed .begin))).1,
        ⟨false, none, (writerOutcome env
          (appendOutcome env update (env.committed .begin))).2⟩) := by
  refine guarded_writer ((Transacts.commits (validatedRun_reads env _).transacts
    (g := fun validated db ↦ match validated with
      | none => .error (.stateStoreError .notFound update.expected.identity.runId.value)
      | some (current, _) =>
        if current ≠ update.expected then
          .error (.stateStoreError .conflict update.expected.identity.runId.value)
        else storeOutcome env update db) ?_).congr fun db ↦ map_bind _ _ _)
  rintro (_ | ⟨current, events⟩)
  · exact commits_raise _
  · exact commits_ite (commits_raise _) (storeUpdate_commits env update)

end

end Alicerce
