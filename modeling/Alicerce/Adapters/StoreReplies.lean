import Alicerce.Adapters.StoreFailures

/-!
# What a faultless call replies

On tables that represent runs, a call whose statements all come off and that nobody disturbs replies
what the runs say.

* `load_of_represents` and `history_of_represents` are the readers.
* `perform_create_of_absent`, `perform_create_of_present` and `perform_create_of_not_initial` are
  `initialize`.
* `perform_append_of_expected` and `perform_append_of_ne` are `compare_and_append`.
* `Represents.corrupt_of_not_legal`: an accepted update that is not legal leaves the run unreadable.
-/

set_option autoImplicit false

namespace Alicerce

open Py Lib Program Client

/-- Without a fault. -/
def Quiet (db : Database) : StoreEnv := .snapshot db Faults.none

theorem quiet_issue (db : Database) (k : Statement) : (Quiet db).issue k = .ok () :=
  StoreEnv.issue_of_none rfl

theorem quiet_connecting (db : Database) : (Quiet db).connecting = .ok () :=
  StoreEnv.connecting_eq_ok_iff.mpr ⟨rfl, rfl⟩

/-- A reader without a fault. -/
theorem quiet_readerOutcome {α : Type} (db : Database) (x : Except Exc α) :
    readerOutcome (Quiet db) x = x.mapError publicError := by
  rw [readerOutcome, quiet_connecting]

/-- What a transaction without a fault leaves: the reply, and the database. -/
def settled {α : Type} (db : Database) (reply : α → Reply) :
    Except Exc (α × Database) → Except Exc Reply × Database
  | .ok (a, db') => (.ok (reply a), db')
  | .error e => (.error (publicError e), db)

/-- A writer without a fault. -/
theorem quiet_writerOutcome {α : Type} (db : Database) (reply : α → Reply)
    (x : Except Exc (α × Database)) :
    ((writerOutcome (Quiet db) x).1.map reply, (writerOutcome (Quiet db) x).2.getD db) =
      settled db reply x := by
  have hbegin : (do (Quiet db).connecting; (Quiet db).issue .begin : Except Exc Unit) = .ok () := by
    rw [quiet_connecting, ok_bind, quiet_issue]
  rw [writerOutcome.eq_def, hbegin]
  rcases x with e | ⟨a, db'⟩
  · simp only [writerError, quiet_issue]
    cases e <;> rfl
  · rfl

variable [Interpreter] {db : Database} {m : Runs}

/-! ## Readers -/

/-- What a faultless validation comes to. -/
theorem validatedOutcome_of_represents (hm : Represents db m) (runId : RunId) :
    validatedOutcome (Quiet db) runId (fun _ ↦ db) =
      .ok ((m runId).map fun run ↦ (run.checkpoint, run.events)) := by
  have hstored := hm runId
  cases hrun : m runId with
  | none =>
    rw [hrun] at hstored
    exact validatedOutcome_eq_none_iff.mpr ⟨rfl, hstored.selectRun_none⟩
  | some run =>
    rw [hrun] at hstored
    obtain ⟨row, hrow, hheld⟩ := hstored.selectRun
    exact validatedOutcome_eq_some_iff.mpr ⟨rfl, rfl, row, hrow, hheld⟩

/-- **`load` returns the checkpoint of the run.** -/
theorem load_of_represents (hm : Represents db m) (runId : RunId) :
    (load runId).result (Quiet db) = .ok ((m runId).map Run.checkpoint) := by
  have hv : validatedOutcome (Quiet db) runId (Quiet db).committed = _ :=
    validatedOutcome_of_represents hm runId
  rw [Store.result, load_run, quiet_readerOutcome, hv]
  cases m runId <;> rfl

/-- **`history` returns the journal of the run**, if there is one. -/
theorem history_of_represents (hm : Represents db m) (runId : RunId) :
    (history runId).result (Quiet db) = match m runId with
      | some run => .ok run.events
      | none => .error (.stateStoreError .notFound runId.value) := by
  have hv : validatedOutcome (Quiet db) runId (Quiet db).committed = _ :=
    validatedOutcome_of_represents hm runId
  rw [Store.result, history_run, quiet_readerOutcome, hv]
  cases m runId <;> rfl

/-! ## Writers -/

theorem perform_create_quiet {c : RunCheckpoint} (hc : c = createInitialCheckpoint c.identity) :
    perform Faults.none (.create c) db =
      settled db (fun _ ↦ .created) (initialOutcome (Quiet db) c db) := by
  simp only [perform, Request.result, Request.published, Store.result, Store.published,
    initializeRun_run _ hc]
  exact quiet_writerOutcome db _ _

theorem perform_append_quiet {u : StateUpdate} :
    perform Faults.none (.compareAndAppend u) db =
      settled db .appended (appendOutcome (Quiet db) u db) := by
  simp only [perform, Request.result, Request.published, Store.result, Store.published,
    compareAndAppend_run]
  exact quiet_writerOutcome db _ _

theorem Represents.runsOf_eq_nil_iff (hm : Represents db m) {runId : RunId} :
    db.runsOf runId = [] ↔ m runId = none := by
  have hstored := hm runId
  cases hrun : m runId with
  | none =>
    rw [hrun] at hstored
    exact iff_of_true hstored.1 rfl
  | some run =>
    rw [hrun] at hstored
    obtain ⟨b, b', hrow, -, -⟩ := hstored.row
    exact iff_of_false (by rw [hrow]; simp) (by simp)

/-- **`initialize` creates an absent run**, if its identity can be encoded. -/
theorem perform_create_of_absent {c : RunCheckpoint} (hm : Represents db m)
    (hc : c = createInitialCheckpoint c.identity) (henc : c.identity.Encodable)
    (habsent : m c.identity.runId = none) :
    ∃ db', perform Faults.none (.create c) db = (.ok .created, db') ∧ Created c db db' := by
  obtain ⟨⟨⟨⟩, db'⟩, hr⟩ := (exists_initialOutcome_iff (Quiet db) hc).mpr
    ⟨rfl, hm.runsOf_eq_nil_iff.mpr habsent, henc, rfl, rfl⟩
  refine ⟨db', ?_, initialOutcome_eq_ok hc hr⟩
  rw [perform_create_quiet hc, hr]
  rfl

/-- **`initialize` refuses a run that is present.** -/
theorem perform_create_of_present {c : RunCheckpoint} {run : Run} (hm : Represents db m)
    (hc : c = createInitialCheckpoint c.identity) (hrun : m c.identity.runId = some run) :
    perform Faults.none (.create c) db =
      (.error (.stateStoreError .alreadyExists c.identity.runId.value), db) := by
  have hhas : db.hasRun c.identity.runId = true := by
    rw [← Bool.not_eq_false, Database.hasRun_eq_false_iff, hm.runsOf_eq_nil_iff, hrun]
    simp
  have hr : initialOutcome (Quiet db) c db =
      .error (.stateStoreError .alreadyExists c.identity.runId.value) := by
    rw [initialOutcome, quiet_issue, ok_bind, if_pos hhas]
  rw [perform_create_quiet hc, hr]
  rfl

/-- **`initialize` refuses any other checkpoint**, whatever the tables contain. -/
theorem perform_create_of_not_initial {c : RunCheckpoint} {fault : Faults}
    (hc : c ≠ createInitialCheckpoint c.identity) : perform fault (.create c) db =
      (.error (.stateStoreError .conflict "checkpoint must be the identity-derived initial state"),
        db) := by
  simp only [perform, Request.result, Request.published, Store.result, Store.published,
    initializeRun, if_pos hc]
  rfl

/-- **`compare_and_append` accepts an update that expects the checkpoint of the run.** -/
theorem perform_append_of_expected {u : StateUpdate} {run : Run} (hm : Represents db m)
    (hrun : m u.runId = some run) (hexpected : run.checkpoint = u.expected) :
    ∃ db', perform Faults.none (.compareAndAppend u) db = (.ok (.appended u.nextCheckpoint), db') ∧
      Appended u db db' := by
  have hstored := hm u.runId
  rw [hrun] at hstored
  obtain ⟨row, hrow, hheld⟩ := hstored.selectRun
  rw [hexpected] at hheld
  obtain ⟨b, b', hrows, -, hb'⟩ := hstored.row
  obtain ⟨⟨c, db'⟩, hr⟩ := (exists_appendOutcome_iff (Quiet db)).mpr
    ⟨rfl, rfl, rfl, rfl, rfl, ⟨row, run.events, hrow, hheld⟩, b', hexpected ▸ hb', by
      rw [hrows]; simp⟩
  obtain ⟨rfl, happended⟩ := appendOutcome_eq_ok hr
  refine ⟨db', ?_, happended⟩
  rw [perform_append_quiet, hr]
  rfl

/-- **`compare_and_append` refuses any other update.** -/
theorem perform_append_of_ne {u : StateUpdate}
    (hm : Represents db m) (hne : (m u.runId).map Run.checkpoint ≠ some u.expected) :
    perform Faults.none (.compareAndAppend u) db = (.error (.stateStoreError
      (if (m u.runId).isSome then .conflict else .notFound) u.runId.value), db) := by
  have hv : validatedOutcome (Quiet db) u.expected.identity.runId (fun _ ↦ db) = _ :=
    validatedOutcome_of_represents hm u.runId
  rw [perform_append_quiet, appendOutcome, hv]
  cases hrun : m u.runId with
  | none => rfl
  | some run =>
    rw [hrun, Option.map_some, ne_eq, Option.some_inj] at hne
    simp only [Option.map_some, ok_bind, ne_eq, hne, not_false_eq_true, if_true]
    rfl

/-! ## After an illegal update -/

/-- **An accepted update that is not legal leaves the run unreadable.**  The journal then ends with
an event that no replay generates. -/
theorem Represents.corrupt_of_not_legal {db' : Database} {u : StateUpdate} (hm : Represents db m)
    (happended : Appended u db db') (hnot : ¬u.Legal) : ∃ detail,
      validatedOutcome (Quiet db') u.runId (fun _ ↦ db') = .error (corrupt detail) := by
  obtain ⟨run, hrun, hexpected, -⟩ := hm.append happended
  have hstored := hm u.runId
  rw [hrun] at hstored
  obtain ⟨⟨b, b', hrow, hb, hb'⟩, hjournal⟩ := hstored.append hexpected happended
  have hrevisions : (run.events ++ [u.event]).map LifecycleTransition.revision =
      List.range' 1 (run.events ++ [u.event]).length := by
    rw [List.map_append, run.history.revisions, List.length_append, List.length_singleton,
      List.range'_concat, List.map_singleton, u.revision_eq, ← hexpected, run.history.length_eq,
      Nat.one_mul, Nat.add_comm 1]
  have hheld := selectTransitions_of_stored hjournal hrevisions
  refine validatedOutcome_corrupt (Quiet db') rfl rfl
    (by rw [Database.selectRun_eq, hrow]; rfl) hb hb' hheld fun c events h ↦ hnot ?_
  obtain ⟨b₁, hb₁, hc⟩ := h.checkpoint
  obtain rfl := SqlValue.blob.inj hb₁
  obtain rfl : c = u.nextCheckpoint := checkpointCodec.encode_injective hc hb'
  obtain rfl : events = run.events ++ [u.event] :=
    List.right_unique_forall₂' (R := HeldEvent) (fun _ _ _ he he' ↦ he.unique he') h.journal hheld
  obtain ⟨c, hbefore, hlast⟩ := Steps.append_iff.mp h.history
  obtain ⟨c', hstep, hend⟩ := Steps.cons_iff.mp hlast
  obtain rfl := Steps.nil_iff.mp hend
  have hrunning := run.history
  rw [hexpected] at hrunning
  obtain rfl : c = u.expected := History.unique hbefore hrunning
  exact StateUpdate.advances_iff.mp hstep

/-- What the validation raises, the readers do. -/
theorem load_of_corrupt {runId : RunId} {detail : Text}
    (h : validatedOutcome (Quiet db) runId (fun _ ↦ db) = .error (corrupt detail)) :
    (load runId).result (Quiet db) = .error (corrupt detail) := by
  rw [Store.result, load_run, quiet_readerOutcome,
    show validatedOutcome (Quiet db) runId (Quiet db).committed = _ from h]
  rfl

theorem history_of_corrupt {runId : RunId} {detail : Text}
    (h : validatedOutcome (Quiet db) runId (fun _ ↦ db) = .error (corrupt detail)) :
    (history runId).result (Quiet db) = .error (corrupt detail) := by
  rw [Store.result, history_run, quiet_readerOutcome,
    show validatedOutcome (Quiet db) runId (Quiet db).committed = _ from h]
  rfl

end Alicerce
