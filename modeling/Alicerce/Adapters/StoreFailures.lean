import Alicerce.Adapters.StoreErrors
import Alicerce.Adapters.StoreRefinement

/-!
# How an operation of the store fails

Each of the four operations handles `StateStoreError` and `sqlite3.Error` (`Handled`); whatever else
is raised inside escapes.

* `Escapes` are the three things that can: the `StateSerializationError` of an initial checkpoint
  whose identity has no UTF-8 encoding, the `RecursionError` of a stored byte string that nests too
  deep (`ReadTooDeep`), and the `sqlite3.Error` of a `ROLLBACK` that fails inside a handler.
* `exists_initialOutcome_iff`, `exists_appendOutcome_iff` (`Appendable`): when the two transactions
  succeed.
* `validatedOutcome_raises` and `HeldRun.storeOutcome_eq`: which statement fails how.
* `typed_iff_not_escapes`: every failure is a `StateStoreError`, unless the call meets what escapes.
-/

set_option autoImplicit false

namespace Alicerce

open Py Lib Program Client

/-! ## What the handlers handle -/

/-- An exception the `except` clauses of an operation name. -/
def Handled (e : Exc) : Prop := e.isStateStoreError = true ∨ e.isSqliteError = true

theorem handled_stateStoreError (cause : StateStoreErrorCause) (detail : Text) :
    Handled (.stateStoreError cause detail) := .inl rfl

theorem handled_issue {env : StoreEnv} {k : Statement} : Raises Handled (env.issue k) := by
  intro e he
  obtain ⟨m, -, rfl⟩ := StoreEnv.issue_eq_error_iff.mp he
  exact .inr rfl

/-- An operation completes, or raises a `StateStoreError`. -/
def Typed {α : Type} (x : Except Exc α) : Prop := ∀ e, x = .error e → e.isStateStoreError = true

theorem typed_map {α β : Type} {f : α → β} {x : Except Exc α} : Typed (x.map f) ↔ Typed x := by
  cases x <;> simp [Typed, Except.map]

theorem isStateStoreError_publicError_iff {e : Exc} :
    (publicError e).isStateStoreError = true ↔ Handled e := by
  cases e <;> simp [publicError, Handled, storageFailure, Exc.isStateStoreError, Exc.isSqliteError]

theorem StoreEnv.connecting_eq_ok_iff {env : StoreEnv} :
    env.connecting = .ok () ↔ env.fault .connect = none ∧ env.fault .foreignKeys = none := by
  rw [StoreEnv.connecting, unit_bind_eq_ok_iff, StoreEnv.issue_eq_ok_iff, StoreEnv.issue_eq_ok_iff]

/-- **When a reader raises only `StateStoreError`.** -/
theorem typed_readerOutcome_iff {α : Type} {env : StoreEnv} {x : Except Exc α} :
    Typed (readerOutcome env x) ↔
      (env.fault .connect = none → env.fault .foreignKeys = none → Raises Handled x) := by
  rw [readerOutcome]
  cases hc : env.connecting with
  | ok u =>
    obtain ⟨h₁, h₂⟩ := StoreEnv.connecting_eq_ok_iff.mp hc
    refine ⟨fun h _ _ e he ↦ ?_, fun h e he ↦ ?_⟩
    · exact isStateStoreError_publicError_iff.mp (h _ (mapError_eq_error_iff.mpr ⟨e, he, rfl⟩))
    · obtain ⟨e', he', rfl⟩ := mapError_eq_error_iff.mp he
      exact isStateStoreError_publicError_iff.mpr (h h₁ h₂ e' he')
  | error e =>
    obtain ⟨m, rfl⟩ := exists_of_connecting_eq_error hc
    refine iff_of_true (fun e he ↦ Except.error.inj he ▸ rfl) fun h₁ h₂ ↦ ?_
    exact absurd (hc.symm.trans (StoreEnv.connecting_eq_ok_iff.mpr ⟨h₁, h₂⟩)) (by simp)

/-- The transaction of a writer is open. -/
def StoreEnv.Begun (env : StoreEnv) : Prop :=
  env.fault .connect = none ∧ env.fault .foreignKeys = none ∧ env.fault .begin = none

/-- What the handlers of a writer make of an exception is a `StateStoreError` when they handle it
and the `ROLLBACK` does not fail. -/
theorem isStateStoreError_writerError_iff {env : StoreEnv} {e : Exc} :
    (writerError env e).isStateStoreError = true ↔ Handled e ∧ env.fault .rollback = none := by
  rw [writerError]
  by_cases hh : Handled e
  · rw [if_pos (by rw [Bool.or_eq_true]; exact hh)]
    cases hr : env.fault .rollback with
    | none => simp [StoreEnv.issue_of_none hr, isStateStoreError_publicError_iff, hh]
    | some m => simp [StoreEnv.issue_of_some hr, Exc.isStateStoreError]
  · rw [if_neg (by rw [Bool.or_eq_true]; exact hh)]
    exact iff_of_false (fun h ↦ hh (.inl h)) fun h ↦ hh h.1

/-- **When a writer raises only `StateStoreError`**: its transaction does not begin, or it succeeds,
or it raises what the handlers handle and the `ROLLBACK` does not fail. -/
theorem typed_writerOutcome_iff {α : Type} {env : StoreEnv} {x : Except Exc (α × Database)} :
    Typed (writerOutcome env x).1 ↔
      (env.Begun → ∀ e, x = .error e → Handled e ∧ env.fault .rollback = none) := by
  have hbegun : (do env.connecting; env.issue .begin : Except Exc Unit) = .ok () ↔ env.Begun := by
    rw [unit_bind_eq_ok_iff, StoreEnv.connecting_eq_ok_iff, StoreEnv.issue_eq_ok_iff,
      StoreEnv.Begun, and_assoc]
  rw [writerOutcome.eq_def]
  cases hb : (do env.connecting; env.issue .begin : Except Exc Unit) with
  | ok u =>
    refine Iff.trans ?_ (forall_prop_of_true (hbegun.mp hb)).symm
    rcases x with e | ⟨a, db⟩
    · simp only [Typed, Except.error.injEq, forall_eq', isStateStoreError_writerError_iff]
    · simp [Typed]
  | error e =>
    refine iff_of_true ?_ fun h ↦ absurd (hb.symm.trans (hbegun.mpr h)) (by simp)
    have he : Handled e := by
      rcases bind_eq_error_iff.mp hb with h | ⟨_, -, h⟩
      · obtain ⟨m, rfl⟩ := exists_of_connecting_eq_error h
        exact .inr rfl
      · exact handled_issue e h
    simp only [Typed, Except.error.injEq, forall_eq', isStateStoreError_publicError_iff.mpr he]

/-- A transaction is handled when what it raises is, or when it succeeds. -/
theorem typed_writer_iff {α : Type} {env : StoreEnv} {x : Except Exc (α × Database)} {P : Prop}
    (hx : Raises (fun e ↦ Handled e ∨ P) x) (hP : P → ∃ e, x = .error e ∧ ¬Handled e) :
    Typed (writerOutcome env x).1 ↔
      ¬(env.Begun ∧ (P ∨ env.fault .rollback ≠ none ∧ ¬∃ r, x = .ok r)) := by
  rw [typed_writerOutcome_iff, not_and, not_or]
  refine imp_congr_right fun _ ↦ ⟨fun h ↦ ⟨fun hp ↦ ?_, fun ⟨hr, hno⟩ ↦ ?_⟩, fun ⟨hp, hr⟩ e he ↦ ?_⟩
  · obtain ⟨e, he, hnot⟩ := hP hp
    exact hnot (h e he).1
  · cases x with
    | ok r => exact hno ⟨r, rfl⟩
    | error e => exact hr (h e rfl).2
  · refine ⟨(hx e he).resolve_right hp, not_not.mp fun hne ↦ hr ⟨hne, ?_⟩⟩
    rintro ⟨r, hr⟩
    exact absurd (he.symm.trans hr) (by simp)

/-! ## The transaction of `initialize` -/

theorem revisionPrintable_of_le {n : ℕ} (h : n ≤ maxRevision + 1) : RevisionPrintable n := by
  have h : n ≤ 7 := h
  rw [RevisionPrintable]
  interval_cases n <;> decide

section
variable [Interpreter]

theorem exists_serialize_initial_iff {c : RunCheckpoint}
    (hc : c = createInitialCheckpoint c.identity) :
    (∃ b, serializeCheckpoint c = .ok b) ↔ c.identity.Encodable := by
  rw [exists_serializeCheckpoint_iff, and_iff_left]
  rw [hc]
  exact revisionPrintable_of_le (Nat.zero_le _)

/-- **When the transaction of `initialize` succeeds**: no statement fails, the run is absent, and
its identity can be encoded. -/
theorem exists_initialOutcome_iff {c : RunCheckpoint} {db : Database} (env : StoreEnv)
    (hc : c = createInitialCheckpoint c.identity) :
    (∃ r, initialOutcome env c db = .ok r) ↔ env.fault .selectExisting = none ∧
      db.runsOf c.identity.runId = [] ∧ c.identity.Encodable ∧ env.fault .insertRun = none ∧
        env.fault .commit = none := by
  constructor
  · rintro ⟨⟨⟨⟩, db'⟩, h⟩
    have hcreated := initialOutcome_eq_ok hc h
    obtain ⟨b, b', hb, -, -⟩ := hcreated.inserted
    rw [initialOutcome, unit_bind_eq_ok_iff] at h
    obtain ⟨hexisting, h⟩ := h
    split at h
    · exact absurd h (by simp)
    obtain ⟨_, -, h⟩ := bind_eq_ok_iff.mp h
    obtain ⟨_, -, h⟩ := bind_eq_ok_iff.mp h
    obtain ⟨hinsert, h⟩ := unit_bind_eq_ok_iff.mp h
    obtain ⟨_, -, h⟩ := bind_eq_ok_iff.mp h
    exact ⟨StoreEnv.issue_eq_ok_iff.mp hexisting, hcreated.absent,
      exists_serializeRunIdentity_iff.mp ⟨b, hb⟩, StoreEnv.issue_eq_ok_iff.mp hinsert,
      StoreEnv.issue_eq_ok_iff.mp (unit_bind_eq_ok_iff.mp h).1⟩
  · rintro ⟨hexisting, habsent, henc, hinsert, hcommit⟩
    obtain ⟨b, hb⟩ := exists_serializeRunIdentity_iff.mpr henc
    obtain ⟨b', hb'⟩ := (exists_serialize_initial_iff hc).mpr henc
    have hrun : db.hasRun c.identity.runId = false := Database.hasRun_eq_false_iff.mpr habsent
    simp only [initialOutcome, StoreEnv.issue_of_none hexisting, ok_bind, hrun, Bool.false_eq_true,
      if_false, hb, hb', StoreEnv.issue_of_none hinsert, Database.insertRun,
      StoreEnv.issue_of_none hcommit, Except.ok.injEq, exists_eq']

/-- What the transaction of `initialize` raises, it handles, unless the run is absent and its
identity has no UTF-8 encoding. -/
theorem initialOutcome_raises (env : StoreEnv) {c : RunCheckpoint} (db : Database)
    (hc : c = createInitialCheckpoint c.identity) : Raises (fun e ↦ Handled e ∨
      env.fault .selectExisting = none ∧ db.runsOf c.identity.runId = [] ∧ ¬c.identity.Encodable)
      (initialOutcome env c db) := by
  rw [initialOutcome]
  refine (handled_issue.mono fun _ h ↦ .inl h).bind fun _ hexisting ↦ .ite
    (fun _ ↦ raises_error (.inl (handled_stateStoreError _ _))) fun habsent ↦ ?_
  rw [Bool.not_eq_true, Database.hasRun_eq_false_iff] at habsent
  by_cases henc : c.identity.Encodable
  · obtain ⟨b, hb⟩ := exists_serializeRunIdentity_iff.mpr henc
    obtain ⟨b', hb'⟩ := (exists_serialize_initial_iff hc).mpr henc
    rw [hb, ok_bind, hb', ok_bind]
    refine (handled_issue.mono fun _ h ↦ .inl h).bind fun _ _ ↦ Raises.bind ?_ fun _ _ ↦
      (handled_issue.mono fun _ h ↦ .inl h).bind fun _ _ ↦ raises_ok _
    exact .ite (fun _ ↦ raises_error (.inl (.inr rfl))) fun _ ↦ raises_ok _
  · exact fun e _ ↦ .inr ⟨StoreEnv.issue_eq_ok_iff.mp hexisting, habsent, henc⟩

/-- An identity without a UTF-8 encoding lets the transaction of `initialize` raise what nothing
handles. -/
theorem initialOutcome_of_not_encodable {env : StoreEnv} {c : RunCheckpoint} {db : Database}
    (hexisting : env.fault .selectExisting = none) (habsent : db.runsOf c.identity.runId = [])
    (henc : ¬c.identity.Encodable) : initialOutcome env c db =
      .error (.stateSerializationError "state cannot be represented as canonical JSON") := by
  have hrun : db.hasRun c.identity.runId = false := Database.hasRun_eq_false_iff.mpr habsent
  simp only [initialOutcome, StoreEnv.issue_of_none hexisting, ok_bind, hrun, Bool.false_eq_true,
    if_false]
  cases hb : serializeRunIdentity c.identity with
  | ok b => exact absurd (exists_serializeRunIdentity_iff.mp ⟨b, hb⟩) henc
  | error e => rw [error_bind, eq_of_dumpObject_eq_error hb]

/-! ## The transaction of `compare_and_append` -/

theorem HeldRun.revision_le {runId : RunId} {row : SqlValue × SqlValue}
    {rows : List (SqlValue × SqlValue)} {c : RunCheckpoint} {events : List LifecycleTransition}
    (h : HeldRun runId row rows c events) : c.lifecycle.revision ≤ maxRevision :=
  h.history.revision_le

omit [Interpreter] in
theorem StateUpdate.revision_eq (u : StateUpdate) :
    u.event.revision = u.expected.lifecycle.revision + 1 := u.continues.revision

/-- The revision that comes next is not in the journal of a held run. -/
theorem HeldRun.not_mem_journal {runId : RunId} {row : SqlValue × SqlValue} {db : Database}
    {c : RunCheckpoint} {events : List LifecycleTransition}
    (h : HeldRun runId row (db.selectTransitions runId) c events) : (db.transitions.any fun row ↦
      row.runId == Database.key runId &&
        row.revision == .integer (c.lifecycle.revision + 1 : ℕ)) = false := by
  rw [List.any_eq_false]
  rintro r hr heq
  rw [Bool.and_eq_true, beq_iff_eq, beq_iff_eq] at heq
  have hmem : (r.revision, r.transition) ∈ db.selectTransitions runId := by
    rw [Database.selectTransitions, List.mem_mergeSort]
    exact List.mem_map_of_mem (f := fun row : TransitionRow ↦ (row.revision, row.transition))
      (List.mem_filter.mpr ⟨hr, beq_iff_eq.mpr heq.1⟩)
  have hrev : r.revision ∈ (db.selectTransitions runId).map Prod.fst :=
    List.mem_map_of_mem (f := Prod.fst) hmem
  rw [map_fst_of_held h.journal, heq.2] at hrev
  obtain ⟨event, hevent, hn⟩ := List.mem_map.mp hrev
  have hrange : event.revision ∈ events.map LifecycleTransition.revision :=
    List.mem_map_of_mem hevent
  rw [h.history.revisions, List.mem_range'_1, h.history.length_eq] at hrange
  have hn := SqlValue.integer.inj hn
  omega

/-- The database after the two writes of `compare_and_append`. -/
def Database.append (runId : RunId) (revision : ℕ) (transition next expected : Bytes)
    (db : Database) : Database :=
  ⟨(db.updateCheckpoint runId next expected).2.runs,
    db.transitions ++ [⟨key runId, .integer revision, .blob transition⟩]⟩

/-- **What the writes come to when the stored checkpoint is the expected one**: everything can be
serialized and bound and no constraint is violated, so only the statements themselves can fail. -/
theorem HeldRun.storeOutcome_eq {u : StateUpdate} {db : Database}
    {row : SqlValue × SqlValue} {events : List LifecycleTransition} (env : StoreEnv)
    (hrow : db.selectRun u.runId = some row)
    (h : HeldRun u.runId row (db.selectTransitions u.runId) u.expected events) :
    ∃ b b' bt, serializeCheckpoint u.expected = .ok b ∧ serializeCheckpoint u.nextCheckpoint =
      .ok b' ∧ serializeTransition u.event = .ok bt ∧ storeOutcome env u db = (do
        env.issue .insertTransition
        env.issue .updateRun
        if (db.updateCheckpoint u.runId b' b).1 ≠ 1 then
          .error (.stateStoreError .conflict u.runId.value)
        else do
          env.issue .commit
          .ok (u.nextCheckpoint, db.append u.runId u.event.revision bt b' b)) := by
  obtain ⟨b, -, hb⟩ := h.checkpoint
  have hle := h.revision_le
  have hnext : u.nextCheckpoint.lifecycle.revision = u.expected.lifecycle.revision + 1 := by
    change u.advance.lifecycle.revision = _
    rw [u.lifecycle_eq_snapshot]
    exact u.revision_eq
  obtain ⟨b', hb'⟩ := exists_serializeCheckpoint_iff (c := u.nextCheckpoint).mpr
    ⟨(exists_serializeCheckpoint_iff.mp ⟨b, hb⟩).1, revisionPrintable_of_le (by omega)⟩
  obtain ⟨bt, hbt⟩ := exists_serializeTransition_iff.mpr
    (revisionPrintable_of_le (show u.event.revision ≤ maxRevision + 1 by rw [u.revision_eq]; omega))
  have hbind : bindInteger u.event.revision = .ok (u.event.revision : ℤ) := by
    rw [bindInteger, if_pos]
    rw [u.revision_eq]
    have : maxRevision = 6 := rfl
    omega
  have hhas : db.hasRun u.runId = true := by
    rw [← Bool.not_eq_false, Database.hasRun_eq_false_iff]
    intro hnil
    rw [Database.selectRun_eq, hnil] at hrow
    exact absurd hrow (by simp)
  have hinsert : db.insertTransition u.runId u.event.revision bt = .ok ((), { db with transitions :=
      db.transitions ++ [⟨Database.key u.runId, .integer u.event.revision, .blob bt⟩] }) := by
    rw [Database.insertTransition, if_neg (by rw [u.revision_eq]; omega), u.revision_eq,
      h.not_mem_journal, if_neg Bool.false_ne_true, if_pos hhas]
  refine ⟨b, b', bt, hb, hb', hbt, ?_⟩
  simp only [storeOutcome, hb, ok_bind, show serializeTransition u.advance.transition = _ from hbt,
    show bindInteger u.advance.transition.revision = _ from hbind,
    show db.insertTransition u.expected.identity.runId _ bt = _ from hinsert, hb']
  rfl

/-! ## The validation -/

/-- A read gets to a byte string that nests too deep: in the row of the run, or, when identity and
checkpoint decode and belong to the run, in the journal. -/
def ReadTooDeep (env : StoreEnv) (runId : RunId) (view : Statement → Database) : Prop :=
  env.fault .selectRun = none ∧ ∃ row, (view .selectRun).selectRun runId = some row ∧
    (RowTooDeep row ∨ env.fault .selectTransitions = none ∧ ∃ c : RunCheckpoint,
      c.identity.runId = runId ∧ (∃ b, row.1 = .blob b ∧ serializeRunIdentity c.identity = .ok b) ∧
        (∃ b, row.2 = .blob b ∧ serializeCheckpoint c = .ok b) ∧
          JournalTooDeep (createInitialCheckpoint c.identity)
            ((view .selectTransitions).selectTransitions runId))

/-- What `_validated_run` can raise: `CORRUPT`, the `sqlite3.Error` of one of its two statements, or
the `RecursionError` of a byte string that nests too deep. -/
inductive ReadError (env : StoreEnv) (runId : RunId) (view : Statement → Database) : Exc → Prop
  | corrupt (detail : Text) : ReadError env runId view (corrupt detail)
  | failed (k : Statement) (m : Text) (hk : k = .selectRun ∨ k = .selectTransitions)
      (hm : env.fault k = some m) : ReadError env runId view (.sqliteError m)
  | tooDeep (h : ReadTooDeep env runId view) : ReadError env runId view .recursionError

theorem readError_issue {env : StoreEnv} {runId : RunId} {view : Statement → Database}
    {k : Statement} (hk : k = .selectRun ∨ k = .selectTransitions) :
    Raises (ReadError env runId view) (env.issue k) := by
  intro e he
  obtain ⟨m, hm, rfl⟩ := StoreEnv.issue_eq_error_iff.mp he
  exact .failed k m hk hm

/-- **What `_validated_run` raises.** -/
theorem validatedOutcome_raises (env : StoreEnv) (runId : RunId) (view : Statement → Database) :
    Raises (ReadError env runId view) (validatedOutcome env runId view) := by
  rw [validatedOutcome]
  refine (readError_issue (.inl rfl)).map.bind fun row hrow ↦ ?_
  obtain ⟨⟨⟩, hissue, rfl⟩ := map_eq_ok_iff.mp hrow
  rw [StoreEnv.issue_eq_ok_iff] at hissue
  split
  · exact raises_ok _
  rename_i row hselect
  intro e he
  obtain ⟨e', he', hinv⟩ := mapError_eq_error_iff.mp he
  subst hinv
  refine Raises.bind (p := fun e ↦ ReadError env runId view (invalidRun e)) ?_ ?_ e' he'
  · intro e he
    rcases checkRow_raises runId row e he with h | ⟨rfl, hdeep⟩
    · obtain ⟨detail, hdetail⟩ := h.invalidRun
      exact hdetail ▸ .corrupt detail
    · exact .tooDeep ⟨hissue, row, hselect, .inl hdeep⟩
  rintro ⟨identity, stored⟩ hcheck
  obtain ⟨rfl, hid, hidentity, hstored⟩ := checkRow_eq_ok_iff.mp hcheck
  refine Raises.bind ?_ fun rows hrows ↦ Raises.bind ?_ fun _ _ ↦ raises_ok _
  · refine Raises.map fun e he ↦ ?_
    obtain ⟨m, hm, rfl⟩ := StoreEnv.issue_eq_error_iff.mp he
    exact .failed .selectTransitions m (.inr rfl) hm
  · obtain ⟨⟨⟩, hissue', rfl⟩ := map_eq_ok_iff.mp hrows
    rw [StoreEnv.issue_eq_ok_iff] at hissue'
    intro e he
    rcases checkJournal_raises _ _ _ e he with h | ⟨rfl, hdeep⟩
    · obtain ⟨detail, hdetail⟩ := h.invalidRun
      exact hdetail ▸ .corrupt detail
    · exact .tooDeep ⟨hissue, row, hselect, .inr ⟨hissue', stored, hid, hidentity, hstored, hdeep⟩⟩

theorem ReadError.handled {env : StoreEnv} {runId : RunId} {view : Statement → Database} {e : Exc}
    (h : ReadError env runId view e) :
    Handled e ∨ e = .recursionError ∧ ReadTooDeep env runId view := by
  cases h with
  | corrupt detail => exact .inl (handled_stateStoreError _ _)
  | failed k m _ _ => exact .inl (.inr rfl)
  | tooDeep h => exact .inr ⟨rfl, h⟩

theorem ReadTooDeep.validatedOutcome {env : StoreEnv} {runId : RunId}
    {view : Statement → Database} (h : ReadTooDeep env runId view) :
    validatedOutcome env runId view = .error .recursionError := by
  obtain ⟨hissue, row, hrow, hdeep⟩ := h
  simp only [Alicerce.validatedOutcome, StoreEnv.issue_of_none hissue, Except.map, ok_bind, hrow]
  rcases hdeep with hdeep | ⟨hissue', c, hid, hidentity, hstored, hdeep⟩
  · rw [hdeep.checkRow runId]
    rfl
  · rw [checkRow_eq_ok_iff.mpr ⟨rfl, hid, hidentity, hstored⟩]
    simp only [ok_bind, StoreEnv.issue_of_none hissue', hdeep.checkJournal c]
    rfl

omit [Interpreter] in
theorem not_handled_recursionError : ¬Handled .recursionError := by
  rintro (h | h) <;> exact absurd h (by decide)

/-- **Byte strings that all decode, but do not hold a run together, are corrupt.** -/
theorem validatedOutcome_corrupt {runId : RunId} {view : Statement → Database}
    {identity : RunIdentity} {c : RunCheckpoint} {events : List LifecycleTransition} {b b' : Bytes}
    (env : StoreEnv) (hf : env.fault .selectRun = none) (hf' : env.fault .selectTransitions = none)
    (hrow : (view .selectRun).selectRun runId = some (.blob b, .blob b'))
    (hb : serializeRunIdentity identity = .ok b) (hb' : serializeCheckpoint c = .ok b')
    (hrows : List.Forall₂ HeldEvent ((view .selectTransitions).selectTransitions runId) events)
    (hnot : ∀ c' events', ¬HeldRun runId (.blob b, .blob b')
      ((view .selectTransitions).selectTransitions runId) c' events') :
    ∃ detail, validatedOutcome env runId view = .error (corrupt detail) := by
  cases hv : validatedOutcome env runId view with
  | ok run =>
    rcases run with _ | ⟨c', events'⟩
    · exact absurd (hrow.symm.trans (validatedOutcome_eq_none_iff.mp hv).2) (by simp)
    · obtain ⟨-, -, row, hrow', hheld⟩ := validatedOutcome_eq_some_iff.mp hv
      obtain rfl := Option.some.inj (hrow.symm.trans hrow')
      exact absurd hheld (hnot c' events')
  | error e =>
    cases validatedOutcome_raises env runId view e hv with
    | corrupt detail => exact ⟨detail, rfl⟩
    | failed k m hk hm =>
      rcases hk with rfl | rfl
      · exact absurd (hf.symm.trans hm) (by simp)
      · exact absurd (hf'.symm.trans hm) (by simp)
    | tooDeep h =>
      obtain ⟨-, row, hrow', hdeep⟩ := h
      obtain rfl := Option.some.inj (hrow.symm.trans hrow')
      exfalso
      rcases hdeep with (⟨b₁, h₁, hdeep⟩ | ⟨-, b₁, h₁, hdeep⟩) | ⟨-, _, -, -, -, hdeep⟩
      · obtain rfl := SqlValue.blob.inj h₁
        exact not_tooDeep_of_deserialize (identityCodec.exact.mpr hb) hdeep
      · obtain rfl := SqlValue.blob.inj h₁
        exact not_tooDeep_of_deserialize (checkpointCodec.exact.mpr hb') hdeep
      · obtain ⟨before, _, _, b₁, after, hsplit, -, -, hdeep⟩ := hdeep
        rw [hsplit] at hrows
        obtain ⟨event, -, b₂, hb₂, hs⟩ := exists_heldEvent hrows
          (List.mem_append_right before (List.mem_cons_self ..))
        obtain rfl := SqlValue.blob.inj hb₂
        exact not_tooDeep_of_deserialize (transitionCodec.exact.mpr hs) hdeep

/-- The transaction of `compare_and_append` succeeds: no statement fails, what is stored of the run
holds the expected checkpoint, and exactly one row bears it. -/
structure Appendable (env : StoreEnv) (u : StateUpdate) (db : Database) : Prop where
  selectRun : env.fault .selectRun = none
  selectTransitions : env.fault .selectTransitions = none
  insertTransition : env.fault .insertTransition = none
  updateRun : env.fault .updateRun = none
  commit : env.fault .commit = none
  held : ∃ row events, db.selectRun u.runId = some row ∧
    HeldRun u.runId row (db.selectTransitions u.runId) u.expected events
  single : ∃ b, serializeCheckpoint u.expected = .ok b ∧
    ((db.runsOf u.runId).countP fun row ↦ row.checkpoint == .blob b) = 1

/-- **When the transaction of `compare_and_append` succeeds.** -/
theorem exists_appendOutcome_iff {u : StateUpdate} {db : Database} (env : StoreEnv) :
    (∃ r, appendOutcome env u db = .ok r) ↔ Appendable env u db := by
  constructor
  · rintro ⟨r, h⟩
    rw [appendOutcome] at h
    obtain ⟨_ | ⟨current, events⟩, hvalid, h⟩ := bind_eq_ok_iff.mp h
    · exact absurd h (by simp)
    simp only at h
    split at h
    · exact absurd h (by simp)
    rename_i hcurrent
    rw [not_not] at hcurrent
    subst hcurrent
    obtain ⟨hf, hf', row, hrow, hheld⟩ := validatedOutcome_eq_some_iff.mp hvalid
    obtain ⟨b, b', bt, hb, -, -, hstore⟩ := hheld.storeOutcome_eq env hrow
    obtain ⟨hinsert, h⟩ := unit_bind_eq_ok_iff.mp (hstore.symm.trans h)
    obtain ⟨hupdate, h⟩ := unit_bind_eq_ok_iff.mp h
    split at h
    · exact absurd h (by simp)
    rename_i hcount
    rw [not_not, Database.rowcount_eq] at hcount
    exact ⟨hf, hf', StoreEnv.issue_eq_ok_iff.mp hinsert, StoreEnv.issue_eq_ok_iff.mp hupdate,
      StoreEnv.issue_eq_ok_iff.mp (unit_bind_eq_ok_iff.mp h).1, ⟨row, events, hrow, hheld⟩,
      b, hb, hcount⟩
  · rintro ⟨hf, hf', hinsert, hupdate, hcommit, ⟨row, events, hrow, hheld⟩, b, hb, hcount⟩
    have hvalid : validatedOutcome env u.runId (fun _ ↦ db) = .ok (some (u.expected, events)) :=
      validatedOutcome_eq_some_iff.mpr ⟨hf, hf', row, hrow, hheld⟩
    obtain ⟨b₁, b', bt, hb₁, -, -, hstore⟩ := hheld.storeOutcome_eq env hrow
    obtain rfl := Except.ok.inj (hb.symm.trans hb₁)
    refine ⟨(u.nextCheckpoint, db.append u.runId u.event.revision bt b' b), ?_⟩
    rw [appendOutcome, show validatedOutcome env u.expected.identity.runId _ = _ from hvalid]
    simp only [ok_bind, ne_eq, not_true_eq_false, if_false, hstore, StoreEnv.issue_of_none hinsert,
      StoreEnv.issue_of_none hupdate, StoreEnv.issue_of_none hcommit, Database.rowcount_eq, hcount]

/-- What the transaction of `compare_and_append` raises, it handles, unless it gets to a byte string
that nests too deep. -/
theorem appendOutcome_raises (env : StoreEnv) (u : StateUpdate) (db : Database) : Raises
    (fun e ↦ Handled e ∨ e = .recursionError ∧ ReadTooDeep env u.runId fun _ ↦ db)
    (appendOutcome env u db) := by
  rw [appendOutcome]
  refine ((validatedOutcome_raises env u.runId _).mono fun _ h ↦ h.handled).bind
    fun validated hvalid ↦ ?_
  rcases validated with _ | ⟨current, events⟩
  · exact raises_error (.inl (handled_stateStoreError _ _))
  refine .ite (fun _ ↦ raises_error (.inl (handled_stateStoreError _ _))) fun hcurrent ↦ ?_
  rw [not_not] at hcurrent
  subst hcurrent
  obtain ⟨-, -, row, hrow, hheld⟩ := validatedOutcome_eq_some_iff.mp hvalid
  obtain ⟨b, b', bt, -, -, -, hstore⟩ := hheld.storeOutcome_eq env hrow
  rw [hstore]
  refine Raises.mono ?_ fun _ h ↦ .inl h
  exact handled_issue.bind fun _ _ ↦ handled_issue.bind fun _ _ ↦
    .ite (fun _ ↦ raises_error (handled_stateStoreError _ _)) fun _ ↦
      handled_issue.bind fun _ _ ↦ raises_ok _

/-! ## What escapes -/

/-- A call meets what it does not handle.

* A reader gets to a byte string that nests too deep.
* In its transaction a writer gets to one too, or `initialize` has to store an identity that has no
  UTF-8 encoding; or the transaction does not succeed and its `ROLLBACK` fails. -/
def Escapes (env : StoreEnv) : Request → Prop
  | .create c => c = createInitialCheckpoint c.identity ∧ env.Begun ∧
      ((env.fault .selectExisting = none ∧ (env.committed .begin).runsOf c.identity.runId = [] ∧
          ¬c.identity.Encodable) ∨
        env.fault .rollback ≠ none ∧ ¬(env.fault .selectExisting = none ∧
          (env.committed .begin).runsOf c.identity.runId = [] ∧ c.identity.Encodable ∧
            env.fault .insertRun = none ∧ env.fault .commit = none))
  | .compareAndAppend u => env.Begun ∧
      (ReadTooDeep env u.runId (fun _ ↦ env.committed .begin) ∨
        env.fault .rollback ≠ none ∧ ¬Appendable env u (env.committed .begin))
  | .load runId | .history runId => env.fault .connect = none ∧ env.fault .foreignKeys = none ∧
      ReadTooDeep env runId env.committed

theorem typed_reader_iff {α : Type} {env : StoreEnv} {runId : RunId}
    {f : Option (RunCheckpoint × List LifecycleTransition) → Except Exc α}
    (hf : ∀ v, Raises Handled (f v)) :
    Typed (readerOutcome env (validatedOutcome env runId env.committed >>= f)) ↔
      ¬(env.fault .connect = none ∧ env.fault .foreignKeys = none ∧
        ReadTooDeep env runId env.committed) := by
  rw [typed_readerOutcome_iff, not_and, not_and]
  refine imp_congr_right fun _ ↦ imp_congr_right fun _ ↦ ⟨fun h hdeep ↦ ?_, fun h ↦ ?_⟩
  · refine not_handled_recursionError (h _ ?_)
    rw [hdeep.validatedOutcome, error_bind]
  · exact ((validatedOutcome_raises env runId _).mono fun e he ↦ he.handled.resolve_right
      fun h' ↦ h h'.2).bind fun v _ ↦ hf v

theorem typed_create_iff (env : StoreEnv) (c : RunCheckpoint) :
    Typed ((Request.create c).result env) ↔ ¬Escapes env (.create c) := by
  rw [Request.result, typed_map, Store.result, Escapes]
  by_cases hc : c = createInitialCheckpoint c.identity
  · rw [initializeRun_run env hc, typed_writer_iff (initialOutcome_raises env _ hc),
      exists_initialOutcome_iff env hc, and_iff_right hc]
    rintro ⟨hexisting, habsent, henc⟩
    refine ⟨_, initialOutcome_of_not_encodable hexisting habsent henc, ?_⟩
    rintro (h | h) <;> exact absurd h Bool.false_ne_true
  · refine iff_of_true (fun e he ↦ ?_) fun h ↦ hc h.1
    rw [initializeRun, if_pos hc] at he
    rw [← Except.error.inj he]
    rfl

theorem typed_compareAndAppend_iff (env : StoreEnv) (u : StateUpdate) :
    Typed ((Request.compareAndAppend u).result env) ↔ ¬Escapes env (.compareAndAppend u) := by
  rw [Request.result, typed_map, Store.result, Escapes, compareAndAppend_run,
    typed_writer_iff ((appendOutcome_raises env u _).mono fun e he ↦ he.imp_right And.right),
    exists_appendOutcome_iff env]
  intro hdeep
  refine ⟨.recursionError, ?_, not_handled_recursionError⟩
  rw [appendOutcome, show validatedOutcome env u.expected.identity.runId _ = _ from
    hdeep.validatedOutcome]
  rfl

/-- **Every failure of a store operation is a `StateStoreError`, unless the call meets what it does
not handle.** -/
theorem typed_iff_not_escapes (env : StoreEnv) (q : Request) :
    (∀ e, q.result env = .error e → e.isStateStoreError = true) ↔ ¬Escapes env q := by
  cases q with
  | create c => exact typed_create_iff env c
  | compareAndAppend u => exact typed_compareAndAppend_iff env u
  | load runId =>
    rw [← Typed, Request.result, typed_map, Store.result, load_run]
    exact typed_reader_iff fun _ ↦ raises_ok _
  | history runId =>
    rw [← Typed, Request.result, typed_map, Store.result, history_run]
    refine typed_reader_iff fun v ↦ ?_
    rcases v with _ | ⟨c, events⟩
    · exact raises_error (handled_stateStoreError _ _)
    · exact raises_ok _

end

/-- The initial checkpoint of an identity whose contract id is a lone surrogate makes `initialize`
raise something other than a `StateStoreError`, on an empty database and without any fault. -/
theorem initialize_surrogate_escapes : ¬∀ e,
    @Request.result Interpreter.plain (.snapshot .empty Faults.none)
      (.create (createInitialCheckpoint (storeIdentity surrogateContract))) = .error e →
      e.isStateStoreError = true := by
  let := Interpreter.plain
  refine fun h ↦ (typed_create_iff _ _).mp h ⟨rfl, ⟨rfl, rfl, rfl⟩, .inl ⟨rfl, rfl, fun henc ↦ ?_⟩⟩
  exact absurd henc.1 (by decide)

end Alicerce
