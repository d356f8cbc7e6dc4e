import Alicerce.Adapters.StoreProgress
import Alicerce.Py.Floats

/-!
# Opening the state store

A store is opened on a database file, which it may have to give its schema first.  The file bears a
version, zero when SQLite has just made it, and the constructor looks at nothing else before it
creates the two tables or leaves the file as it is.  All of it is one transaction (`transaction`).

* `SQLiteStateStore.admitted` is all that is done about the arguments: the checks of the
  constructor, the conversion of the timeout, and what `sqlite3.connect` makes of the path.
  `admitted_eq_ok_iff` says which arguments pass.
* `SQLiteStateStore.new_exact` says when a constructor returns, and what it leaves.
* Stores are opened on one file at any time and any number of times, by processes that start, fail
  and start again while others call the stores they have.  `Uses` is one such step, and
  `uses_serialize` says that all of it comes to the calls alone, in the order of their commits: what
  was stored survives, and no call finds a table missing.
-/

set_option autoImplicit false

namespace Alicerce

open Py Lib Program Client

/-! ## Files -/

/-- `_SCHEMA_VERSION`. -/
def schemaVersion : ℤ := 1

/-- A database file: its `user_version`, and the two tables, as far as they are there. -/
@[ext]
structure StateFile where
  userVersion : ℤ
  runs : Option (List RunRow)
  transitions : Option (List TransitionRow)
deriving DecidableEq

namespace StateFile

/-- A file SQLite has just made. -/
def fresh : StateFile := ⟨0, none, none⟩

/-- A file of this version, and what its tables contain. -/
def holding (db : Database) : StateFile := ⟨schemaVersion, some db.runs, some db.transitions⟩

/-- The contents of the tables, if both are there. -/
def tables (file : StateFile) : Option Database :=
  match file.runs, file.transitions with
  | some runs, some transitions => some ⟨runs, transitions⟩
  | _, _ => none

/-- `CREATE TABLE alicerce_runs`. -/
def createRuns (file : StateFile) : Except Exc (Unit × StateFile) :=
  match file.runs with
  | none => .ok ((), { file with runs := some [] })
  | some _ => .error (.sqliteError "table alicerce_runs already exists")

/-- `CREATE TABLE alicerce_transitions`. -/
def createTransitions (file : StateFile) : Except Exc (Unit × StateFile) :=
  match file.transitions with
  | none => .ok ((), { file with transitions := some [] })
  | some _ => .error (.sqliteError "table alicerce_transitions already exists")

/-- `PRAGMA user_version = 1`. -/
def setVersion (file : StateFile) : Except Exc (Unit × StateFile) :=
  .ok ((), { file with userVersion := 1 })

@[simp] theorem tables_holding (db : Database) : (holding db).tables = some db := rfl

theorem holding_injective {db db' : Database} (h : holding db = holding db') : db = db' := by
  cases db
  cases db'
  cases h
  rfl

end StateFile

/-- `str(version)`. -/
def versionText (version : ℤ) : Text :=
  if version < 0 then .scalar '-' :: decimal version.natAbs else decimal version.natAbs

/-! ## The constructor -/

/-- The statements of `_initialize_schema`. -/
inductive SchemaStatement
  | connect
  | foreignKeys
  | begin
  | userVersion
  | createRuns
  | createTransitions
  | setVersion
  | commit
  | rollback
deriving DecidableEq

/-- A program that opens a store. -/
abbrev Opening (α : Type) : Type := Client SchemaStatement StateFile Exc α

/-- What a constructor meets: what is committed when each of its statements is issued, and which of
them fail. -/
structure OpeningEnv where
  committed : SchemaStatement → StateFile
  fault : SchemaStatement → Option Text

/-- The environment of a client. -/
def OpeningEnv.toEnv (env : OpeningEnv) : Env SchemaStatement StateFile Exc :=
  ⟨env.committed, fun k ↦ (env.fault k).map .sqliteError⟩

/-- A code point of a path the file system has bytes for: a scalar value, or one of the surrogates
`U+DC80` to `U+DCFF`, each of which stands for a byte that is not UTF-8. -/
def fsEncodable : CodePoint → Bool
  | .scalar _ => true
  | .surrogate i => 0x480 ≤ i.val && i.val < 0x500

/-- What `sqlite3.connect` makes of a path before it opens anything. -/
def encodePath (database : Text) : Except Exc Unit :=
  if !database.all fsEncodable then .error .unicodeEncodeError
  else if database.any (·.ord = 0) then .error (.valueError "embedded null byte")
  else .ok ()

/-- `_connect`. -/
def connectSchema (database : Text) : Opening Unit := do
  lift (encodePath database)
  statement .connect
  statement .foreignKeys

/-- The `except` clauses of `_initialize_schema`. -/
def schemaHandlers : Exc → Opening Unit
  | .stateStoreError cause detail => do
    whenConnected (rollback .rollback)
    raise (.stateStoreError cause detail)
  | .sqliteError message => do
    whenConnected (rollback .rollback)
    raise (storageFailure message)
  | e => raise e

/-- What is done about a version. -/
def ensureSchema (version : ℤ) : Opening Unit :=
  if version = 0 then do
    write .createRuns StateFile.createRuns
    write .createTransitions StateFile.createTransitions
    write .setVersion StateFile.setVersion
  else if version ≠ schemaVersion then
    raise (corrupt ("unsupported SQLite state schema version: " ++ versionText version))
  else pure ()

/-- `_initialize_schema`. -/
def initializeSchema (database : Text) : Opening Unit :=
  transaction (connectSchema database) .begin schemaHandlers do
    let version ← read .userVersion StateFile.userVersion
    ensureSchema version
    commit .commit

/-- Local durable state store with whole-checkpoint CAS semantics. -/
@[ext]
structure SQLiteStateStore where
  database : Text
  timeoutSeconds : PyFloat
deriving DecidableEq

namespace SQLiteStateStore

/-- The default of `timeout_seconds`. -/
def defaultTimeout : Numeric := .float (.number (5 : ℚ))

/-- What the constructor makes of its arguments. -/
def checked (database : Text) (timeoutSeconds : Numeric) : Except Exc SQLiteStateStore :=
  if database = [] then .error (.valueError "database must be non-empty")
  else if database = text ":memory:" then
    .error (.valueError "database must be a durable filesystem path")
  else if timeoutSeconds.isNegative then
    .error (.valueError "timeout_seconds must be non-negative")
  else
    match timeoutSeconds.toFloat with
    | some seconds => .ok ⟨database, seconds⟩
    | none => .error (.overflowError "int too large to convert to float")

/-- Open or initialize one schema-versioned SQLite database. -/
def new (database : Text) (timeoutSeconds : Numeric) : Opening SQLiteStateStore := do
  let store ← lift (checked database timeoutSeconds)
  initializeSchema store.database
  return store

/-- What becomes of the arguments before the first statement. -/
def admitted (database : Text) (timeoutSeconds : Numeric) : Except Exc SQLiteStateStore := do
  let store ← checked database timeoutSeconds
  encodePath store.database
  return store

end SQLiteStateStore

/-! ## What the transaction comes to -/

/-- How a statement comes off. -/
def OpeningEnv.issue (env : OpeningEnv) (k : SchemaStatement) : Except Exc Unit := env.toEnv.issue k

section Outcome

variable {env : OpeningEnv} {k : SchemaStatement} {file file' : StateFile}

theorem OpeningEnv.issue_eq_ok_iff : env.issue k = .ok () ↔ env.fault k = none := by
  cases h : env.fault k <;> simp [issue, Env.issue, toEnv, h]

theorem OpeningEnv.issue_bind_eq_ok_iff {α : Type} {f : Unit → Except Exc α} {a : α} :
    (env.issue k >>= f) = .ok a ↔ env.fault k = none ∧ f () = .ok a := by
  rw [unit_bind_eq_ok_iff, issue_eq_ok_iff]

theorem OpeningEnv.handled_issue : Raises Handled (env.issue k) := by
  intro e he
  cases h : env.fault k with
  | none => exact absurd ((OpeningEnv.issue_eq_ok_iff.mpr h).symm.trans he) (by simp)
  | some m =>
    rw [OpeningEnv.issue, Env.issue, toEnv] at he
    simp only [h, Option.map_some, Except.error.injEq] at he
    exact he ▸ .inr rfl

/-- What becomes of a file of a version. -/
def ensured (env : OpeningEnv) (version : ℤ) (file : StateFile) : Except Exc (Unit × StateFile) :=
  if version = 0 then do
    let created ← (do env.issue .createRuns; file.createRuns)
    let created ← (do env.issue .createTransitions; created.2.createTransitions)
    env.issue .setVersion
    created.2.setVersion
  else if version ≠ schemaVersion then
    .error (corrupt ("unsupported SQLite state schema version: " ++ versionText version))
  else .ok ((), file)

/-- What the body of the transaction comes to. -/
def schemaOutcome (env : OpeningEnv) (file : StateFile) : Except Exc (Unit × StateFile) := do
  env.issue .userVersion
  let ensured ← ensured env file.userVersion file
  env.issue .commit
  .ok ((), ensured.2)

/-- The whole transaction on a file, before the handlers. -/
def openingOutcome (env : OpeningEnv) (file : StateFile) : Except Exc (Unit × StateFile) := do
  env.issue .connect
  env.issue .foreignKeys
  env.issue .begin
  schemaOutcome env file

theorem ensureSchema_transacts (env : OpeningEnv) (version : ℤ) :
    Transacts env.toEnv (ensureSchema version) (ensured env version) := by
  refine transacts_ite ?_ (transacts_ite ?_ ?_)
  · exact (transacts_write _).bind fun _ ↦ (transacts_write _).bind fun _ ↦ transacts_write _
  · exact (reads_raise _).transacts
  · exact (reads_pure ()).transacts

theorem schema_commits (env : OpeningEnv) : Commits env.toEnv
    (do let version ← read .userVersion StateFile.userVersion; ensureSchema version; commit .commit)
    (schemaOutcome env) := by
  refine (((reads_read _).transacts).commits fun version ↦
    (ensureSchema_transacts env version).commits fun _ ↦ commits_commit).congr fun file ↦ ?_
  change _ = (env.toEnv.issue .userVersion >>= fun _ ↦ _)
  cases env.toEnv.issue .userVersion with
  | error e => rfl
  | ok u =>
    change (ensured env file.userVersion file >>= fun created ↦ _) = _
    refine congrArg (ensured env file.userVersion file >>= ·) (funext fun created ↦ ?_)
    change Except.map (·, created.2) (env.issue .commit) = _
    cases env.issue .commit <;> rfl

/-- The handlers raise, and what they make of an exception they handle is a `StateStoreError` unless
the `ROLLBACK` fails. -/
theorem schemaHandlers_run (env : OpeningEnv) (e : Exc) (c : Bool) (t : Option StateFile) :
    ∃ e' c' t', schemaHandlers e env.toEnv ⟨c, t, none⟩ = (.error e', ⟨c', t', none⟩) ∧
      (env.fault .rollback = none → e' = publicError e) := by
  have hrollback : ∃ x c' t',
      whenConnected (rollback .rollback : Opening Unit) env.toEnv ⟨c, t, none⟩ =
        (x, ⟨c', t', none⟩) ∧ (env.fault .rollback = none → x = .ok ()) := by
    cases c with
    | false => exact ⟨.ok (), false, t, rfl, fun _ ↦ rfl⟩
    | true =>
      cases t with
      | none => exact ⟨.ok (), true, none, rfl, fun _ ↦ rfl⟩
      | some d =>
        simp only [whenConnected, if_true, rollback]
        cases hissue : env.toEnv.issue .rollback with
        | ok u => exact ⟨.ok (), true, none, rfl, fun _ ↦ rfl⟩
        | error e =>
          refine ⟨.error e, true, some d, rfl, fun hnone ↦ ?_⟩
          exact absurd ((OpeningEnv.issue_eq_ok_iff.mpr hnone).symm.trans hissue) (by simp)
  obtain ⟨x, c', t', hrun, hx⟩ := hrollback
  have hraised : ∀ e₁ : Exc, ∃ e', (do whenConnected (rollback .rollback); raise e₁ : Opening Unit)
      env.toEnv ⟨c, t, none⟩ = (.error e', ⟨c', t', none⟩) ∧
        (env.fault .rollback = none → e' = e₁) := by
    intro e₁
    cases x with
    | ok u => exact ⟨e₁, run_bind_ok hrun, fun _ ↦ rfl⟩
    | error e₂ => exact ⟨e₂, run_bind_error hrun, fun hnone ↦ absurd (hx hnone) (by simp)⟩
  cases e with
  | stateStoreError cause detail =>
    obtain ⟨e', he', hnone⟩ := hraised (.stateStoreError cause detail)
    exact ⟨e', c', t', he', hnone⟩
  | sqliteError message =>
    obtain ⟨e', he', hnone⟩ := hraised (storageFailure message)
    exact ⟨e', c', t', he', hnone⟩
  | _ => exact ⟨_, c, t, rfl, fun _ ↦ rfl⟩

/-- **What `_initialize_schema` comes to**, on the file that is there when its transaction
begins. -/
theorem initializeSchema_run (env : OpeningEnv) {database : Text}
    (hpath : encodePath database = .ok ()) :
    (∃ file s, openingOutcome env (env.committed .begin) = .ok ((), file) ∧
      initializeSchema database env.toEnv .initial = (.ok (), s) ∧ s.published = some file) ∨
    ∃ e e' s, openingOutcome env (env.committed .begin) = .error e ∧
      initializeSchema database env.toEnv .initial = (.error e', s) ∧ s.published = none ∧
      (env.fault .rollback = none → e' = publicError e) := by
  have hconnects : Reads env.toEnv (connectSchema database) fun _ ↦
      (do env.issue .connect; env.issue .foreignKeys) := by
    rw [connectSchema, hpath]
    exact (reads_lift _).bind fun _ ↦ reads_statement.bind fun _ ↦ reads_statement
  have houtcome : outcome env.toEnv .begin (do env.issue .connect; env.issue .foreignKeys)
      (schemaOutcome env) = openingOutcome env (env.committed .begin) :=
    bind_bind _ _ _
  have hrethrows : Rethrows env.toEnv schemaHandlers := fun e c t ↦ by
    obtain ⟨e', c', t', hrun, -⟩ := schemaHandlers_run env e c t
    exact ⟨e', c', t', hrun⟩
  cases h : openingOutcome env (env.committed .begin) with
  | ok r =>
    obtain ⟨⟨⟩, file⟩ := r
    obtain ⟨s, hrun, hs⟩ := transaction_ok schemaHandlers hconnects (schema_commits env)
      (houtcome.trans h)
    exact .inl ⟨file, s, rfl, hrun, hs⟩
  | error e =>
    obtain ⟨c, t, e', s, s', hhandler, hrun, hs⟩ := transaction_error hconnects (schema_commits env)
      hrethrows (houtcome.trans h)
    obtain ⟨e'', c', t', hhandler', hpublic⟩ := schemaHandlers_run env e c t
    obtain ⟨rfl, -⟩ : e' = e'' ∧ _ := by
      simpa using Prod.mk.inj (hhandler.symm.trans hhandler')
    exact .inr ⟨e, e', s, rfl, hrun, hs, hpublic⟩

/-- A path `sqlite3.connect` refuses stops `_initialize_schema` before its first statement. -/
theorem initializeSchema_of_error (env : OpeningEnv) {database : Text} {e : Exc}
    (hpath : encodePath database = .error e) :
    initializeSchema database env.toEnv .initial = (.error e, .initial) := by
  have hconnects : connectSchema database env.toEnv .initial = (.error e, .initial) :=
    run_bind_error (by rw [run_lift, hpath])
  have hhandlers : schemaHandlers e env.toEnv .initial = (.error e, .initial) := by
    rw [encodePath] at hpath
    split_ifs at hpath
    · exact Except.error.inj hpath ▸ rfl
    · exact Except.error.inj hpath ▸ rfl
  exact run_tryFinally ((run_tryCatch_error (run_bind_error hconnects)).trans hhandlers) rfl

end Outcome

/-! ## When a store can be opened -/

/-- None of the statements fails. -/
def OpeningEnv.Spared (env : OpeningEnv) (statements : List SchemaStatement) : Prop :=
  ∀ k ∈ statements, env.fault k = none

/-- A file that has no table of the store's names yet, or has this version. -/
def StateFile.Openable (file : StateFile) : Prop :=
  file.userVersion = 0 ∧ file.runs = none ∧ file.transitions = none ∨
    file.userVersion = schemaVersion

/-- What an opening that succeeds leaves. -/
def StateFile.upgraded (file : StateFile) : StateFile :=
  if file.userVersion = 0 then holding .empty else file

@[simp] theorem StateFile.upgraded_holding (db : Database) :
    (holding db).upgraded = holding db := by
  rw [upgraded, if_neg]
  change ¬schemaVersion = 0
  decide

/-- What an opening that meets no failure raises. -/
def StateFile.refusal (file : StateFile) : Option Exc :=
  if file.userVersion = 0 then
    if file.runs.isSome then some (storageFailure "table alicerce_runs already exists")
    else if file.transitions.isSome then
      some (storageFailure "table alicerce_transitions already exists")
    else none
  else if file.userVersion ≠ schemaVersion then
    some (corrupt ("unsupported SQLite state schema version: " ++ versionText file.userVersion))
  else none

/-- An opening succeeds: its statements do, those that create the schema if there is none, and the
file is not another one's. -/
structure Opens (env : OpeningEnv) (file : StateFile) : Prop where
  spared : env.Spared [.connect, .foreignKeys, .begin, .userVersion, .commit]
  created : file.userVersion = 0 → env.Spared [.createRuns, .createTransitions, .setVersion]
  openable : file.Openable

section Opens

variable {env : OpeningEnv} {file file' : StateFile}

theorem createRuns_eq_ok_iff {r : Unit × StateFile} :
    file.createRuns = .ok r ↔ file.runs = none ∧ r = ((), { file with runs := some [] }) := by
  rw [StateFile.createRuns]
  cases file.runs <;> simp [eq_comm]

theorem createTransitions_eq_ok_iff {r : Unit × StateFile} : file.createTransitions = .ok r ↔
    file.transitions = none ∧ r = ((), { file with transitions := some [] }) := by
  rw [StateFile.createTransitions]
  cases file.transitions <;> simp [eq_comm]

theorem ensured_eq_ok_iff : ensured env file.userVersion file = .ok ((), file') ↔
    (file.userVersion = 0 → env.Spared [.createRuns, .createTransitions, .setVersion]) ∧
      file.Openable ∧ file' = file.upgraded := by
  by_cases hzero : file.userVersion = 0
  · rw [ensured, if_pos hzero, StateFile.Openable, StateFile.upgraded, if_pos hzero, bind_eq_ok_iff]
    simp only [OpeningEnv.Spared, List.forall_mem_cons, hzero]
    constructor
    · rintro ⟨r, hr, h⟩
      obtain ⟨h₁, hr⟩ := OpeningEnv.issue_bind_eq_ok_iff.mp hr
      obtain ⟨hruns, rfl⟩ := createRuns_eq_ok_iff.mp hr
      obtain ⟨r, hr, h⟩ := bind_eq_ok_iff.mp h
      obtain ⟨h₂, hr⟩ := OpeningEnv.issue_bind_eq_ok_iff.mp hr
      obtain ⟨htransitions, rfl⟩ := createTransitions_eq_ok_iff.mp hr
      obtain ⟨h₃, h⟩ := OpeningEnv.issue_bind_eq_ok_iff.mp h
      cases h
      exact ⟨fun _ ↦ ⟨h₁, h₂, h₃, by simp⟩, .inl ⟨trivial, hruns, htransitions⟩, rfl⟩
    · rintro ⟨hspared, ⟨-, hruns, htransitions⟩ | hone, rfl⟩
      · obtain ⟨h₁, h₂, h₃, -⟩ := hspared trivial
        refine ⟨_, OpeningEnv.issue_bind_eq_ok_iff.mpr ⟨h₁, createRuns_eq_ok_iff.mpr ⟨hruns, rfl⟩⟩,
          ?_⟩
        refine bind_eq_ok_iff.mpr ⟨_, OpeningEnv.issue_bind_eq_ok_iff.mpr
          ⟨h₂, createTransitions_eq_ok_iff.mpr ⟨htransitions, rfl⟩⟩, ?_⟩
        exact OpeningEnv.issue_bind_eq_ok_iff.mpr ⟨h₃, rfl⟩
      · exact absurd hone (by decide)
  · rw [ensured, if_neg hzero, StateFile.Openable, StateFile.upgraded, if_neg hzero]
    simp only [hzero, false_and, false_or, IsEmpty.forall_iff, true_and]
    by_cases hone : file.userVersion = schemaVersion
    · simp [hone, eq_comm]
    · simp [hone]

/-- **When the transaction succeeds**, and what it then leaves. -/
theorem openingOutcome_eq_ok_iff :
    openingOutcome env file = .ok ((), file') ↔ Opens env file ∧ file' = file.upgraded := by
  rw [openingOutcome, OpeningEnv.issue_bind_eq_ok_iff, OpeningEnv.issue_bind_eq_ok_iff,
    OpeningEnv.issue_bind_eq_ok_iff, schemaOutcome, OpeningEnv.issue_bind_eq_ok_iff, bind_eq_ok_iff]
  constructor
  · rintro ⟨h₁, h₂, h₃, h₄, ⟨⟨⟩, created⟩, hensured, hcommit⟩
    obtain ⟨h₅, heq⟩ := OpeningEnv.issue_bind_eq_ok_iff.mp hcommit
    obtain rfl : created = file' := congrArg Prod.snd (Except.ok.inj heq)
    obtain ⟨hspared, hopenable, rfl⟩ := ensured_eq_ok_iff.mp hensured
    exact ⟨⟨by simp [OpeningEnv.Spared, h₁, h₂, h₃, h₄, h₅], hspared, hopenable⟩, rfl⟩
  · rintro ⟨⟨hspared, hcreated, hopenable⟩, rfl⟩
    simp only [OpeningEnv.Spared, List.forall_mem_cons] at hspared
    obtain ⟨h₁, h₂, h₃, h₄, h₅, -⟩ := hspared
    exact ⟨h₁, h₂, h₃, h₄, _, ensured_eq_ok_iff.mpr ⟨hcreated, hopenable, rfl⟩,
      OpeningEnv.issue_bind_eq_ok_iff.mpr ⟨h₅, rfl⟩⟩

theorem ensured_raises (env : OpeningEnv) (version : ℤ) (file : StateFile) :
    Raises Handled (ensured env version file) := by
  have hcreateRuns : ∀ f : StateFile, Raises Handled f.createRuns := by
    intro f e he
    rw [StateFile.createRuns] at he
    split at he
    · exact absurd he (by simp)
    · exact Except.error.inj he ▸ .inr rfl
  have hcreateTransitions : ∀ f : StateFile, Raises Handled f.createTransitions := by
    intro f e he
    rw [StateFile.createTransitions] at he
    split at he
    · exact absurd he (by simp)
    · exact Except.error.inj he ▸ .inr rfl
  refine .ite (fun _ ↦ ?_) fun _ ↦ .ite (fun _ ↦ raises_error (.inl rfl)) fun _ ↦ raises_ok _
  exact (OpeningEnv.handled_issue.bind fun _ _ ↦ hcreateRuns _).bind fun _ _ ↦
    (OpeningEnv.handled_issue.bind fun _ _ ↦ hcreateTransitions _).bind fun _ _ ↦
      OpeningEnv.handled_issue.bind fun _ _ ↦ raises_ok _

theorem openingOutcome_raises (env : OpeningEnv) (file : StateFile) :
    Raises Handled (openingOutcome env file) :=
  OpeningEnv.handled_issue.bind fun _ _ ↦ OpeningEnv.handled_issue.bind fun _ _ ↦
    OpeningEnv.handled_issue.bind fun _ _ ↦ OpeningEnv.handled_issue.bind fun _ _ ↦
      (ensured_raises _ _ _).bind fun _ _ ↦ OpeningEnv.handled_issue.bind fun _ _ ↦ raises_ok _

/-- Without a failure, the transaction raises what the file is refused with. -/
theorem openingOutcome_of_refusal (hspared : ∀ k, env.fault k = none) {e : Exc}
    (h : openingOutcome env file = .error e) : file.refusal = some (publicError e) := by
  have hissue : ∀ k, env.issue k = .ok () := fun k ↦ OpeningEnv.issue_eq_ok_iff.mpr (hspared k)
  simp only [openingOutcome, schemaOutcome, hissue, ok_bind, ensured] at h
  rw [StateFile.refusal]
  by_cases hzero : file.userVersion = 0
  · rw [if_pos hzero] at h ⊢
    cases hruns : file.runs with
    | some runs =>
      rw [StateFile.createRuns, hruns] at h
      obtain rfl := Except.error.inj h
      rfl
    | none =>
      rw [StateFile.createRuns, hruns] at h
      cases htransitions : file.transitions with
      | some transitions =>
        simp only [ok_bind, StateFile.createTransitions, htransitions] at h
        obtain rfl := Except.error.inj h
        rfl
      | none =>
        simp only [ok_bind, StateFile.createTransitions, htransitions] at h
        exact absurd h (by simp [StateFile.setVersion])
  · rw [if_neg hzero] at h ⊢
    by_cases hone : file.userVersion = schemaVersion
    · rw [if_neg (not_not_intro hone)] at h
      exact absurd h (by simp)
    · rw [if_pos hone] at h ⊢
      obtain rfl := Except.error.inj h
      rfl

end Opens

/-! ## The constructor as a whole -/

/-- What an opening returns or raises. -/
def Opening.result {α : Type} (p : Opening α) (env : OpeningEnv) : Except Exc α :=
  (p env.toEnv .initial).1

/-- What an opening commits, if it does. -/
def Opening.published {α : Type} (p : Opening α) (env : OpeningEnv) : Option StateFile :=
  (p env.toEnv .initial).2.published

namespace SQLiteStateStore

variable {database : Text} {timeoutSeconds : Numeric} {store : SQLiteStateStore} {env : OpeningEnv}

/-- **Which arguments the constructor takes**, and what it makes of them. -/
theorem checked_eq_ok_iff : checked database timeoutSeconds = .ok store ↔
    (database ≠ [] ∧ database ≠ text ":memory:" ∧ timeoutSeconds.isNegative = false) ∧
      timeoutSeconds.toFloat = some store.timeoutSeconds ∧ store.database = database := by
  rw [checked]
  split_ifs with hempty hmemory hnegative
  · exact iff_of_false (by simp) fun h ↦ h.1.1 hempty
  · exact iff_of_false (by simp) fun h ↦ h.1.2.1 hmemory
  · exact iff_of_false (by simp) fun h ↦ absurd (hnegative.symm.trans h.1.2.2) (by decide)
  · rw [Bool.not_eq_true] at hnegative
    simp only [ne_eq, hempty, hmemory, hnegative, not_false_iff, and_self, true_and]
    cases htimeout : timeoutSeconds.toFloat with
    | none => simp
    | some seconds => simp [SQLiteStateStore.ext_iff, eq_comm, and_comm]

/-- **Which arguments get as far as the first statement.** -/
theorem admitted_eq_ok_iff : admitted database timeoutSeconds = .ok store ↔
    checked database timeoutSeconds = .ok store ∧ encodePath database = .ok () := by
  rw [admitted, bind_eq_ok_iff]
  constructor
  · rintro ⟨store', hchecked, h⟩
    obtain ⟨hpath, hstore⟩ := unit_bind_eq_ok_iff.mp h
    obtain rfl : store' = store := Except.ok.inj hstore
    exact ⟨hchecked, (checked_eq_ok_iff.mp hchecked).2.2 ▸ hpath⟩
  · rintro ⟨hchecked, hpath⟩
    refine ⟨store, hchecked, unit_bind_eq_ok_iff.mpr ⟨?_, rfl⟩⟩
    rw [(checked_eq_ok_iff.mp hchecked).2.2]
    exact hpath

theorem new_of_error (env : OpeningEnv) {e : Exc}
    (h : admitted database timeoutSeconds = .error e) :
    (new database timeoutSeconds).result env = .error e ∧
      (new database timeoutSeconds).published env = none := by
  have hrun : new database timeoutSeconds env.toEnv .initial = (.error e, .initial) := by
    rcases bind_eq_error_iff.mp h with hchecked | ⟨store, hchecked, h⟩
    · exact run_bind_error (by rw [run_lift, hchecked])
    · have hpath : encodePath store.database = .error e := by
        cases hpath : encodePath store.database with
        | error e' =>
          rw [hpath] at h
          exact congrArg Except.error (Except.error.inj h)
        | ok u =>
          rw [hpath] at h
          exact absurd h (by simp)
      exact (run_bind_ok (by rw [run_lift, hchecked])).trans
        (run_bind_error (initializeSchema_of_error env hpath))
  rw [Opening.result, Opening.published, hrun]
  exact ⟨rfl, rfl⟩

/-- A constructor whose arguments are fine does what `_initialize_schema` does. -/
theorem new_of_ok (env : OpeningEnv) (h : admitted database timeoutSeconds = .ok store) :
    (Opens env (env.committed .begin) ∧ (new database timeoutSeconds).result env = .ok store ∧
      (new database timeoutSeconds).published env = some (env.committed .begin).upgraded) ∨
    ∃ e e', openingOutcome env (env.committed .begin) = .error e ∧
      (new database timeoutSeconds).result env = .error e' ∧
      (new database timeoutSeconds).published env = none ∧
      (env.fault .rollback = none → e' = publicError e) := by
  obtain ⟨hchecked, hpath⟩ := admitted_eq_ok_iff.mp h
  have hstore : store.database = database := (checked_eq_ok_iff.mp hchecked).2.2
  have hrun : new database timeoutSeconds env.toEnv .initial =
      (do initializeSchema database; return store : Opening SQLiteStateStore) env.toEnv
        .initial := by
    rw [← hstore]
    exact run_bind_ok (by rw [run_lift, hstore, hchecked])
  rcases initializeSchema_run env hpath with ⟨file, s, houtcome, hinitialize, hs⟩ |
    ⟨e, e', s, houtcome, hinitialize, hs, he⟩
  · left
    obtain ⟨hopens, rfl⟩ := openingOutcome_eq_ok_iff.mp houtcome
    have hnew := hrun.trans ((run_bind_ok hinitialize).trans rfl)
    exact ⟨hopens, by rw [Opening.result, hnew]; rfl, by rw [Opening.published, hnew]; exact hs⟩
  · right
    have hnew := hrun.trans (run_bind_error hinitialize)
    exact ⟨e, e', houtcome, by rw [Opening.result, hnew], by rw [Opening.published, hnew, hs], he⟩

/-- **What a constructor does**, on the file that is committed when its transaction begins, whatever
happens before and whichever statements fail.

* Arguments that do not pass their checks are refused, and no statement is issued.
* When it opens, it returns the store, and commits the schema as a whole if there was none, and
  nothing else.
* Else it commits nothing, and raises a `StateStoreError` unless its `ROLLBACK` fails.
* When nothing fails, it is refused exactly for what the file is: another version, or a table of the
  store's without a version. -/
theorem new_exact (database : Text) (timeoutSeconds : Numeric) (env : OpeningEnv) :
    let file := env.committed .begin
    let opening := new database timeoutSeconds
    (∀ e, admitted database timeoutSeconds = .error e →
      opening.result env = .error e ∧ opening.published env = none) ∧
    ∀ store, admitted database timeoutSeconds = .ok store →
      (Opens env file →
        opening.result env = .ok store ∧ opening.published env = some file.upgraded) ∧
      (¬Opens env file → opening.published env = none ∧ ∃ e, opening.result env = .error e ∧
        (env.fault .rollback = none → e.isStateStoreError = true)) ∧
      ((∀ k, env.fault k = none) → opening.result env = match file.refusal with
        | none => .ok store
        | some e => .error e) := by
  refine ⟨fun e h ↦ new_of_error env h, fun store h ↦ ?_⟩
  rcases new_of_ok env h with ⟨hopens, hresult, hpublished⟩ |
    ⟨e, e', houtcome, hresult, hpublished, hpublic⟩
  · refine ⟨fun _ ↦ ⟨hresult, hpublished⟩, fun hnot ↦ absurd hopens hnot, fun _ ↦ ?_⟩
    have hrefusal : (env.committed .begin).refusal = none := by
      rw [StateFile.refusal]
      rcases hopens.openable with ⟨hzero, hruns, htransitions⟩ | hone
      · rw [if_pos hzero, hruns, htransitions]
        rfl
      · rw [if_neg (by rw [hone]; decide), if_neg (not_not_intro hone)]
    rw [hrefusal]
    exact hresult
  · have hnot : ¬Opens env (env.committed .begin) := fun hopens ↦
      absurd (houtcome.symm.trans (openingOutcome_eq_ok_iff.mpr ⟨hopens, rfl⟩)) (by simp)
    refine ⟨fun hopens ↦ absurd hopens hnot, fun _ ↦ ⟨hpublished, e', hresult, fun hnone ↦ ?_⟩,
      fun hspared ↦ ?_⟩
    · rw [hpublic hnone]
      exact isStateStoreError_publicError_iff.mpr (openingOutcome_raises _ _ e houtcome)
    · rw [openingOutcome_of_refusal hspared houtcome, ← hpublic (hspared .rollback)]
      exact hresult

example : admitted "state.db" (.int (10 ^ 400)) =
    .error (.overflowError "int too large to convert to float") := by decide +kernel

example : admitted (text "state" ++ [.surrogate ⟨0, by decide⟩]) defaultTimeout =
    .error .unicodeEncodeError := by decide +kernel

end SQLiteStateStore

/-! ## One file, many stores -/

section Uses

variable [Interpreter]

/-- A file, and how many stores have been opened on it. -/
@[ext]
structure OpenedFile where
  file : StateFile
  stores : ℕ

/-- What is done with a file: a store is opened on it, or one that was is called. -/
inductive Use
  | opening (database : Text) (timeoutSeconds : Numeric) (env : OpeningEnv)
  | calling (call : Call)

omit [Interpreter] in
/-- The call of a use. -/
def Use.call : Use → Option Call
  | opening _ _ _ => none
  | calling call => some call

omit [Interpreter] in
/-- The calls, in the order of their commits. -/
def callsOf (uses : List Use) : List Call := uses.filterMap Use.call

/-- One use takes its place in the order of commits.  Only a store that was opened can be called,
and a call on a file that lacks a table does nothing. -/
inductive Uses : OpenedFile → Use → OpenedFile → Prop
  | opening {s : OpenedFile} {database : Text} {timeoutSeconds : Numeric} {env : OpeningEnv}
      (h : env.committed .begin = s.file) :
      Uses s (.opening database timeoutSeconds env)
        ⟨((SQLiteStateStore.new database timeoutSeconds).published env).getD s.file,
          if ((SQLiteStateStore.new database timeoutSeconds).result env).isOk then s.stores + 1
          else s.stores⟩
  | calling {s : OpenedFile} {call : Call} {db db' : Database} (hstores : 0 < s.stores)
      (htables : s.file.tables = some db) (h : Performs db call db') :
      Uses s (.calling call)
        ⟨{ s.file with runs := some db'.runs, transitions := some db'.transitions }, s.stores⟩
  | failing {s : OpenedFile} {call : Call} (hstores : 0 < s.stores)
      (htables : s.file.tables = none) : Uses s (.calling call) s

/-- A file of this version has its tables. -/
def StateFile.Whole (file : StateFile) : Prop :=
  file.userVersion = schemaVersion → ∃ db, file = .holding db

/-- What a file has become: no store was opened on it yet and it is as it was, or it holds what the
calls have made of the tables it was opened with. -/
def Serves (file : StateFile) (uses : List Use) (s : OpenedFile) : Prop :=
  (s.stores = 0 ∧ s.file = file ∧ callsOf uses = []) ∨
    ∃ db₀ db, file.Openable ∧ file.upgraded = .holding db₀ ∧ s.file = .holding db ∧
      Steps Performs db₀ (callsOf uses) db

variable {s s' : OpenedFile} {use : Use} {uses : List Use} {file : StateFile} {db : Database}
  {database : Text} {timeoutSeconds : Numeric} {env : OpeningEnv}

omit [Interpreter] in
theorem StateFile.Openable.upgraded (h : file.Openable) (hwhole : file.Whole) :
    ∃ db, file.upgraded = .holding db := by
  rcases h with ⟨hzero, -, -⟩ | hone
  · exact ⟨.empty, if_pos hzero⟩
  · obtain ⟨db, rfl⟩ := hwhole hone
    exact ⟨db, upgraded_holding db⟩

omit [Interpreter] in
/-- An opening that returns a store was of a file that can be opened, and leaves it upgraded;
another one leaves the file as it is. -/
theorem opening_cases (database : Text) (timeoutSeconds : Numeric)
    (h : env.committed .begin = file) :
    (file.Openable ∧ ((SQLiteStateStore.new database timeoutSeconds).published env).getD file =
      file.upgraded) ∨
    (((SQLiteStateStore.new database timeoutSeconds).result env).isOk = false ∧
      ((SQLiteStateStore.new database timeoutSeconds).published env).getD file = file) := by
  subst h
  cases hadmitted : SQLiteStateStore.admitted database timeoutSeconds with
  | error e =>
    obtain ⟨hresult, hpublished⟩ := SQLiteStateStore.new_of_error env hadmitted
    exact .inr ⟨by rw [hresult]; rfl, by rw [hpublished]; rfl⟩
  | ok store =>
    rcases SQLiteStateStore.new_of_ok env hadmitted with ⟨hopens, -, hpublished⟩ |
      ⟨e, e', -, hresult, hpublished, -⟩
    · exact .inl ⟨hopens.openable, by rw [hpublished]; rfl⟩
    · exact .inr ⟨by rw [hresult]; rfl, by rw [hpublished]; rfl⟩

omit [Interpreter] in
/-- **Opening a file that has its schema leaves it as it is**, whether it succeeds or not. -/
theorem opening_holding (h : env.committed .begin = .holding db) :
    ((SQLiteStateStore.new database timeoutSeconds).published env).getD (.holding db) =
      .holding db := by
  rcases opening_cases database timeoutSeconds h with ⟨-, heq⟩ | ⟨-, heq⟩
  · exact heq.trans (StateFile.upgraded_holding db)
  · exact heq

/-- **One use**: the file keeps up with the calls. -/
theorem Serves.step (hwhole : file.Whole) (h : Serves file uses s) (hstep : Uses s use s') :
    Serves file (uses ++ [use]) s' := by
  rw [Serves, callsOf, List.filterMap_append, ← callsOf]
  cases hstep with
  | opening henv =>
    rw [show [Use.opening _ _ _].filterMap Use.call = [] from rfl, List.append_nil]
    rcases h with ⟨hnone, rfl, hcalls⟩ | ⟨db₀, db, hopenable, hupgraded, hfile, hsteps⟩
    · rcases opening_cases _ _ henv with ⟨hopenable, heq⟩ | ⟨hfailed, heq⟩
      · obtain ⟨db₀, hdb₀⟩ := hopenable.upgraded hwhole
        exact .inr ⟨db₀, db₀, hopenable, hdb₀, heq.trans hdb₀, hcalls ▸ .nil _⟩
      · exact .inl ⟨by rw [hfailed]; exact hnone, heq, hcalls⟩
    · rw [hfile] at henv
      rw [hfile, opening_holding henv]
      exact .inr ⟨db₀, db, hopenable, hupgraded, rfl, hsteps⟩
  | calling hstores htables hperforms =>
    rcases h with ⟨hnone, -⟩ | ⟨db₀, db, hopenable, hupgraded, hfile, hsteps⟩
    · exact absurd hnone hstores.ne'
    · rw [hfile, StateFile.tables_holding] at htables
      obtain rfl := Option.some.inj htables
      exact .inr ⟨db₀, _, hopenable, hupgraded, by rw [hfile]; rfl, hsteps.snoc hperforms⟩
  | failing hstores htables =>
    rcases h with ⟨hnone, -⟩ | ⟨db₀, db, -, -, hfile, -⟩
    · exact absurd hnone hstores.ne'
    · rw [hfile, StateFile.tables_holding] at htables
      exact absurd htables (by simp)

/-- **Many stores on one file come to the calls alone.**  Stores are opened on a file at any time,
by any number of processes, with any arguments and any failures, also while others are being opened,
and called once they have been opened.  As long as none has been, the file is what it was.  From
then on it has its version and its tables, which contain what the calls have made, in the order of
their commits, of what the file contained, or of empty tables when it was new: no opening loses or
changes anything, and no call finds a table missing.  A file that has another version is never
touched. -/
theorem uses_serialize (hwhole : file.Whole) (h : Steps Uses ⟨file, 0⟩ uses s) :
    Serves file uses s :=
  Steps.invariant (J := Serves file) (fun hJ hstep ↦ hJ.step hwhole hstep) h
    (.inl ⟨rfl, rfl, rfl⟩)

end Uses

/-- An opening that meets no failure, of a file nobody else writes to. -/
def OpeningEnv.quiet (file : StateFile) : OpeningEnv := ⟨fun _ ↦ file, fun _ ↦ none⟩

/-- An opening that meets no failure succeeds on a file that can be opened. -/
theorem opens_quiet {file : StateFile} (h : file.Openable) : Opens (.quiet file) file :=
  ⟨fun _ _ ↦ rfl, fun _ _ _ ↦ rfl, h⟩

/-- `SQLiteStateStore("state.db")`, when nothing fails. -/
def Use.plain (file : StateFile) : Use :=
  .opening "state.db" SQLiteStateStore.defaultTimeout (.quiet file)

/-- A new file is opened, a run is created, and the file is opened again. -/
theorem uses_serialize_created : let _ := Interpreter.plain
    ∃ s db, Steps Uses ⟨.fresh, 0⟩
        [.plain .fresh, .calling (createCall (storeIdentity qualityLoop)), .plain (.holding db)] s ∧
      s.file = .holding db ∧ s.stores = 2 ∧
      Steps Performs .empty [createCall (storeIdentity qualityLoop)] db := by
  let _ := Interpreter.plain
  obtain ⟨db, m, hcreate, -⟩ := exists_created (storeIdentity qualityLoop) ⟨by decide, by decide⟩
  have hadmitted : SQLiteStateStore.admitted "state.db" SQLiteStateStore.defaultTimeout =
      .ok ⟨"state.db", .number (5 : ℚ)⟩ :=
    SQLiteStateStore.admitted_eq_ok_iff.mpr ⟨SQLiteStateStore.checked_eq_ok_iff.mpr
      ⟨⟨by decide, by decide, by decide⟩, rfl, rfl⟩, by decide⟩
  have hopening : ∀ file : StateFile, file.Openable → ∀ n,
      Uses ⟨file, n⟩ (.plain file) ⟨file.upgraded, n + 1⟩ := by
    intro file hfile n
    obtain ⟨hresult, hpublished⟩ := ((SQLiteStateStore.new_exact "state.db"
      SQLiteStateStore.defaultTimeout (.quiet file)).2 _ hadmitted).1 (opens_quiet hfile)
    have hstep : Uses ⟨file, n⟩ (.plain file) _ := .opening rfl
    rw [hresult, hpublished] at hstep
    exact hstep
  have h : Steps Uses ⟨.fresh, 0⟩
      [.plain .fresh, .calling (createCall (storeIdentity qualityLoop)), .plain (.holding db)]
      ⟨(StateFile.holding db).upgraded, 2⟩ :=
    .cons (hopening .fresh (.inl ⟨rfl, rfl, rfl⟩) 0)
      (.cons (.calling (Nat.succ_pos 0) rfl hcreate) (.cons (hopening _ (.inr rfl) 1) (.nil _)))
  rcases uses_serialize (fun hone ↦ absurd hone (by decide)) h with ⟨hnone, -⟩ |
    ⟨db₀, db', -, hupgraded, hfile, hsteps⟩
  · exact absurd hnone (Nat.succ_ne_zero 1)
  · rw [StateFile.upgraded_holding] at h hfile
    obtain rfl := StateFile.holding_injective hfile
    obtain rfl := StateFile.holding_injective ((if_pos rfl).symm.trans hupgraded)
    exact ⟨_, db, h, rfl, rfl, hsteps⟩

end Alicerce
