import Alicerce.Adapters.StoredRun
import Alicerce.Domain.Runs

/-!
# The tables represent runs

The connection between the tables of the store and the runs they stand for.

* `perform` is one call of the store as its users see it: a reply, and the database after it.
* `Created` and `Appended` are what an accepted call has checked and done, and `perform_create` and
  `perform_compareAndAppend` say that a call has done this or raises and changes nothing.
* `Represents db m`: for every run, the rows of the two tables are exactly the serializations of
  what `m` knows of it.  An accepted `initialize` starts a run (`Represents.create`), and an
  accepted *legal* update extends one (`Represents.append`).
* What is stored of a run is what a read of its rows holds (`RunStored.selectRun`,
  `RunStored.eq_of_held`).
-/

set_option autoImplicit false

namespace Alicerce

open Py Lib Program Client

/-! ## Calls -/

/-- A call of the state-store port. -/
inductive Request
  /-- The operation `initialize`. -/
  | create (checkpoint : RunCheckpoint)
  | load (runId : RunId)
  | compareAndAppend (update : StateUpdate)
  | history (runId : RunId)

/-- What a call can return. -/
inductive Reply
  | created
  | loaded (checkpoint : Option RunCheckpoint)
  | appended (checkpoint : RunCheckpoint)
  | events (events : List LifecycleTransition)
deriving DecidableEq

/-- The run a call is about. -/
def Request.runId : Request → RunId
  | create checkpoint => checkpoint.identity.runId
  | load runId => runId
  | compareAndAppend update => update.expected.identity.runId
  | history runId => runId

/-- How the statements of a call come off. -/
abbrev Faults : Type := Statement → Option Text

/-- No statement fails. -/
def Faults.none : Faults := fun _ ↦ Option.none

section
variable [Interpreter]

/-- What a call returns or raises. -/
def Request.result (env : StoreEnv) : Request → Except Exc Reply
  | create checkpoint => ((initializeRun checkpoint).result env).map fun _ ↦ .created
  | load runId => ((Alicerce.load runId).result env).map .loaded
  | compareAndAppend update => ((Alicerce.compareAndAppend update).result env).map .appended
  | history runId => ((Alicerce.history runId).result env).map .events

/-- What a call commits, if it does. -/
def Request.published (env : StoreEnv) : Request → Option Database
  | create checkpoint => (initializeRun checkpoint).published env
  | load runId => (Alicerce.load runId).published env
  | compareAndAppend update => (Alicerce.compareAndAppend update).published env
  | history runId => (Alicerce.history runId).published env

/-- One call on a database, while nobody else writes to it: the reply, and the database after it. -/
def perform (fault : Faults) (q : Request) (db : Database) : Except Exc Reply × Database :=
  (q.result (.snapshot db fault), (q.published (.snapshot db fault)).getD db)

end

/-! ## The rows of a run -/

namespace Database

/-- The row of a run in `alicerce_runs`; a well-formed table has at most one. -/
def runsOf (runId : RunId) (db : Database) : List RunRow :=
  db.runs.filter fun row ↦ row.runId == key runId

/-- The rows of a run in `alicerce_transitions`. -/
def transitionsOf (runId : RunId) (db : Database) : List TransitionRow :=
  db.transitions.filter fun row ↦ row.runId == key runId

variable {runId r : RunId} {db : Database}

theorem key_injective : Function.Injective key := fun _ _ h ↦ Checked.ext (SqlValue.text.inj h)

theorem key_beq (h : r ≠ runId) : (key runId == key r) = false :=
  beq_eq_false_iff_ne.mpr fun heq ↦ h (key_injective heq).symm

theorem selectRun_eq : db.selectRun runId =
    (db.runsOf runId).head?.map fun row ↦ (row.identity, row.checkpoint) := by
  rw [selectRun, runsOf, List.head?_filter]

theorem hasRun_eq_false_iff : db.hasRun runId = false ↔ db.runsOf runId = [] := by
  rw [hasRun, runsOf, List.filter_eq_nil_iff, List.any_eq_false]

theorem selectTransitions_eq : db.selectTransitions runId =
    ((db.transitionsOf runId).map fun row ↦ (row.revision, row.transition)).mergeSort
      fun a b ↦ a.1.le b.1 := rfl

/-! ## What the writing statements change -/

theorem runsOf_insert (identity checkpoint : SqlValue) :
    ({ db with runs := db.runs ++ [⟨key runId, identity, checkpoint⟩] } : Database).runsOf r =
      db.runsOf r ++ if r = runId then [⟨key runId, identity, checkpoint⟩] else [] := by
  rw [runsOf, runsOf, List.filter_append]
  congr 1
  split
  · rename_i h; simp [h]
  · rename_i h; simp [key_beq h]

theorem transitionsOf_insert (revision transition : SqlValue) (runs : List RunRow) :
    (⟨runs, db.transitions ++ [⟨key runId, revision, transition⟩]⟩ : Database).transitionsOf r =
      db.transitionsOf r ++ if r = runId then [⟨key runId, revision, transition⟩] else [] := by
  rw [transitionsOf, transitionsOf, List.filter_append]
  congr 1
  split
  · rename_i h; simp [h]
  · rename_i h; simp [key_beq h]

/-- What `UPDATE` makes of a row. -/
def updatedRow (runId : RunId) (next expected : Bytes) (row : RunRow) : RunRow :=
  if matchesUpdate runId expected row then { row with checkpoint := .blob next } else row

theorem updatedRow_runId (next expected : Bytes) (row : RunRow) :
    (updatedRow runId next expected row).runId = row.runId := by
  rw [updatedRow]
  split <;> rfl

theorem runsOf_update (next expected : Bytes) :
    (db.updateCheckpoint runId next expected).2.runsOf r =
      (db.runsOf r).map (updatedRow runId next expected) := by
  rw [runsOf, runsOf, updateCheckpoint, List.filter_map]
  congr 1
  refine List.filter_congr fun row _ ↦ ?_
  exact congrArg (· == key r) (updatedRow_runId next expected row)

theorem runsOf_update_of_ne (h : r ≠ runId) (next expected : Bytes) :
    (db.updateCheckpoint runId next expected).2.runsOf r = db.runsOf r := by
  rw [runsOf_update]
  refine (List.map_congr_left fun row hrow ↦ ?_).trans (List.map_id _)
  have hkey : row.runId = key r := beq_iff_eq.mp (List.mem_filter.mp hrow).2
  rw [updatedRow, matchesUpdate, hkey, if_neg]
  · rfl
  · rw [Bool.and_eq_true, not_and_or]
    exact .inl fun heq ↦ h (key_injective (beq_iff_eq.mp heq))

theorem rowcount_eq (next expected : Bytes) :
    (db.updateCheckpoint runId next expected).1 =
      (db.runsOf runId).countP fun row ↦ row.checkpoint == .blob expected := by
  rw [updateCheckpoint, runsOf, List.countP_filter]
  refine List.countP_congr fun row _ ↦ ?_
  rw [matchesUpdate, Bool.and_comm]

end Database

/-! ## What an accepted call has done -/

section
variable [Interpreter]

/-- What an accepted `initialize` has checked and done. -/
structure Created (c : RunCheckpoint) (db db' : Database) : Prop where
  initial : c = createInitialCheckpoint c.identity
  absent : db.runsOf c.identity.runId = []
  inserted : ∃ b b', serializeRunIdentity c.identity = .ok b ∧ serializeCheckpoint c = .ok b' ∧
    db' = { db with runs := db.runs ++ [⟨Database.key c.identity.runId, .blob b, .blob b'⟩] }

theorem initialOutcome_eq_ok {env : StoreEnv} {c : RunCheckpoint} {db db' : Database} {u : Unit}
    (hc : c = createInitialCheckpoint c.identity) (h : initialOutcome env c db = .ok (u, db')) :
    Created c db db' := by
  rw [initialOutcome] at h
  obtain ⟨⟨⟩, -, h⟩ := bind_eq_ok_iff.mp h
  split at h
  · exact absurd h (by simp)
  rename_i habsent
  rw [Bool.not_eq_true] at habsent
  obtain ⟨b, hb, h⟩ := bind_eq_ok_iff.mp h
  obtain ⟨b', hb', h⟩ := bind_eq_ok_iff.mp h
  obtain ⟨⟨⟩, -, h⟩ := bind_eq_ok_iff.mp h
  obtain ⟨⟨⟨⟩, db''⟩, hinsert, h⟩ := bind_eq_ok_iff.mp h
  obtain ⟨⟨⟩, -, h⟩ := bind_eq_ok_iff.mp h
  rw [Except.ok.injEq, Prod.mk.injEq] at h
  rw [Database.insertRun, habsent] at hinsert
  rw [← h.2, ← (Prod.mk.inj (Except.ok.inj hinsert)).2]
  exact ⟨hc, Database.hasRun_eq_false_iff.mp habsent, b, b', hb, hb', rfl⟩

/-- **`initialize` either raises and changes nothing, or has created the run.** -/
theorem perform_create (fault : Faults) (c : RunCheckpoint) (db : Database) :
    (∃ e, perform fault (.create c) db = (.error e, db)) ∨
      ∃ db', perform fault (.create c) db = (.ok .created, db') ∧ Created c db db' := by
  by_cases hc : c = createInitialCheckpoint c.identity
  · simp only [perform, Request.result, Request.published, Store.result, Store.published,
      initializeRun_run _ hc]
    rcases writerOutcome_cases (.snapshot db fault) (initialOutcome (.snapshot db fault) c
      ((StoreEnv.snapshot db fault).committed .begin)) with ⟨u, db', hx, hw⟩ | ⟨e, hw⟩
    · rw [hw]
      exact .inr ⟨db', rfl, initialOutcome_eq_ok hc hx⟩
    · rw [hw]
      exact .inl ⟨e, rfl⟩
  · left
    refine ⟨.stateStoreError .conflict "checkpoint must be the identity-derived initial state", ?_⟩
    simp only [perform, Request.result, Request.published, Store.result, Store.published,
      initializeRun, if_pos hc]
    rfl

/-- What an accepted `compare_and_append` has checked and done. -/
structure Appended (u : StateUpdate) (db db' : Database) : Prop where
  held : ∃ row events, db.selectRun u.runId = some row ∧
    HeldRun u.runId row (db.selectTransitions u.runId) u.expected events
  written : ∃ b b' bt, serializeCheckpoint u.expected = .ok b ∧
    serializeCheckpoint u.nextCheckpoint = .ok b' ∧ serializeTransition u.event = .ok bt ∧
    (db.updateCheckpoint u.runId b' b).1 = 1 ∧
    db' = ⟨(db.updateCheckpoint u.runId b' b).2.runs,
      db.transitions ++ [⟨Database.key u.runId, .integer u.event.revision, .blob bt⟩]⟩

theorem storeOutcome_eq_ok {env : StoreEnv} {u : StateUpdate} {db db' : Database}
    {c : RunCheckpoint} (h : storeOutcome env u db = .ok (c, db')) :
    c = u.nextCheckpoint ∧ ∃ b b' bt, serializeCheckpoint u.expected = .ok b ∧
      serializeCheckpoint u.nextCheckpoint = .ok b' ∧ serializeTransition u.event = .ok bt ∧
      (db.updateCheckpoint u.runId b' b).1 = 1 ∧
      db' = ⟨(db.updateCheckpoint u.runId b' b).2.runs,
        db.transitions ++ [⟨Database.key u.runId, .integer u.event.revision, .blob bt⟩]⟩ := by
  rw [storeOutcome] at h
  obtain ⟨b, hb, h⟩ := bind_eq_ok_iff.mp h
  obtain ⟨bt, hbt, h⟩ := bind_eq_ok_iff.mp h
  obtain ⟨n, hn, h⟩ := bind_eq_ok_iff.mp h
  obtain ⟨⟨⟩, -, h⟩ := bind_eq_ok_iff.mp h
  obtain ⟨⟨⟨⟩, db''⟩, hinsert, h⟩ := bind_eq_ok_iff.mp h
  obtain ⟨b', hb', h⟩ := bind_eq_ok_iff.mp h
  obtain ⟨⟨⟩, -, h⟩ := bind_eq_ok_iff.mp h
  simp only at h
  split at h
  · exact absurd h (by simp)
  rename_i hcount
  rw [not_not] at hcount
  obtain ⟨⟨⟩, -, h⟩ := bind_eq_ok_iff.mp h
  rw [Except.ok.injEq, Prod.mk.injEq] at h
  obtain ⟨rfl, rfl⟩ := h
  rw [bindInteger] at hn
  split at hn
  · obtain rfl := Except.ok.inj hn
    rw [Database.insertTransition] at hinsert
    split at hinsert
    · exact absurd hinsert (by simp)
    split at hinsert
    · exact absurd hinsert (by simp)
    split at hinsert
    · obtain rfl := (Prod.mk.inj (Except.ok.inj hinsert)).2
      exact ⟨rfl, b, b', bt, hb, hb', hbt, hcount, rfl⟩
    · exact absurd hinsert (by simp)
  · exact absurd hn (by simp)

theorem appendOutcome_eq_ok {env : StoreEnv} {u : StateUpdate} {db db' : Database}
    {c : RunCheckpoint} (h : appendOutcome env u db = .ok (c, db')) :
    c = u.nextCheckpoint ∧ Appended u db db' := by
  rw [appendOutcome] at h
  obtain ⟨validated, hvalid, h⟩ := bind_eq_ok_iff.mp h
  rcases validated with _ | ⟨current, events⟩
  · exact absurd h (by simp)
  simp only at h
  split at h
  · exact absurd h (by simp)
  rename_i hcurrent
  rw [not_not] at hcurrent
  subst hcurrent
  obtain ⟨-, -, row, hrow, hheld⟩ := validatedOutcome_eq_some_iff.mp hvalid
  obtain ⟨rfl, hwritten⟩ := storeOutcome_eq_ok h
  exact ⟨rfl, ⟨row, events, hrow, hheld⟩, hwritten⟩

/-- **`compare_and_append` either raises and changes nothing, or has appended the update.** -/
theorem perform_compareAndAppend (fault : Faults) (u : StateUpdate) (db : Database) :
    (∃ e, perform fault (.compareAndAppend u) db = (.error e, db)) ∨
      ∃ db', perform fault (.compareAndAppend u) db = (.ok (.appended u.nextCheckpoint), db') ∧
        Appended u db db' := by
  simp only [perform, Request.result, Request.published, Store.result, Store.published,
    compareAndAppend_run]
  rcases writerOutcome_cases (.snapshot db fault) (appendOutcome (.snapshot db fault) u
    ((StoreEnv.snapshot db fault).committed .begin)) with ⟨c, db', hx, hw⟩ | ⟨e, hw⟩
  · rw [hw]
    obtain ⟨rfl, happended⟩ := appendOutcome_eq_ok hx
    exact .inr ⟨db', rfl, happended⟩
  · rw [hw]
    exact .inl ⟨e, rfl⟩

/-- The readers change nothing. -/
theorem perform_load (fault : Faults) (runId : RunId) (db : Database) :
    perform fault (.load runId) db =
      (((load runId).result (.snapshot db fault)).map .loaded, db) := by
  simp only [perform, Request.result, Request.published, Store.published, load_run]
  rfl

theorem perform_history (fault : Faults) (runId : RunId) (db : Database) :
    perform fault (.history runId) db =
      (((history runId).result (.snapshot db fault)).map .events, db) := by
  simp only [perform, Request.result, Request.published, Store.published, history_run]
  rfl

theorem Created.other {c : RunCheckpoint} {db db' : Database} (h : Created c db db') {r : RunId}
    (hr : r ≠ c.identity.runId) :
    db'.runsOf r = db.runsOf r ∧ db'.transitionsOf r = db.transitionsOf r := by
  obtain ⟨b, b', -, -, rfl⟩ := h.inserted
  rw [Database.runsOf_insert, if_neg hr, List.append_nil]
  exact ⟨rfl, rfl⟩

theorem Appended.other {u : StateUpdate} {db db' : Database} (h : Appended u db db') {r : RunId}
    (hr : r ≠ u.runId) :
    db'.runsOf r = db.runsOf r ∧ db'.transitionsOf r = db.transitionsOf r := by
  obtain ⟨b, b', bt, -, -, -, -, rfl⟩ := h.written
  rw [Database.transitionsOf_insert, if_neg hr, List.append_nil]
  exact ⟨Database.runsOf_update_of_ne hr b' b, rfl⟩

/-! ## The runs the tables stand for -/

/-- A row of `alicerce_transitions` stores an event of a run. -/
def EventStored (runId : RunId) (row : TransitionRow) (event : LifecycleTransition) : Prop :=
  ∃ b, row = ⟨Database.key runId, .integer event.revision, .blob b⟩ ∧
    serializeTransition event = .ok b

/-- The rows of a run are the serializations of its identity, checkpoint and events. -/
structure RunStored (runId : RunId) (run : Run) (db : Database) : Prop where
  runId_eq : run.checkpoint.identity.runId = runId
  row : ∃ b b', db.runsOf runId = [⟨Database.key runId, .blob b, .blob b'⟩] ∧
    serializeRunIdentity run.checkpoint.identity = .ok b ∧
    serializeCheckpoint run.checkpoint = .ok b'
  journal : List.Forall₂ (EventStored runId) (db.transitionsOf runId) run.events

/-- The tables hold what is known of a run, and nothing else about it. -/
def Stored (runId : RunId) (db : Database) : Option Run → Prop
  | none => db.runsOf runId = [] ∧ db.transitionsOf runId = []
  | some run => RunStored runId run db

/-- **The tables represent runs.** -/
def Represents (db : Database) (m : Runs) : Prop := ∀ r, Stored r db (m r)

theorem represents_empty : Represents .empty .empty := fun _ ↦ ⟨rfl, rfl⟩

/-- What is stored of a run depends on its rows only. -/
theorem Stored.congr {runId : RunId} {db db' : Database} {run : Option Run}
    (h : Stored runId db run) (hruns : db'.runsOf runId = db.runsOf runId)
    (htransitions : db'.transitionsOf runId = db.transitionsOf runId) :
    Stored runId db' run := by
  cases run with
  | none => exact ⟨hruns.trans h.1, htransitions.trans h.2⟩
  | some run =>
    obtain ⟨hid, ⟨b, b', hrow, hb, hb'⟩, hjournal⟩ := h
    exact ⟨hid, ⟨b, b', hruns.trans hrow, hb, hb'⟩, htransitions ▸ hjournal⟩

theorem map_fst_of_held {rows : List (SqlValue × SqlValue)} {events : List LifecycleTransition}
    (h : List.Forall₂ HeldEvent rows events) :
    rows.map Prod.fst = events.map fun event ↦ .integer event.revision := by
  induction h with
  | nil => rfl
  | cons head _ ih => rw [List.map_cons, List.map_cons, ih, head.1]

/-- Events stored with the revisions from one on are read in their order. -/
theorem selectTransitions_of_stored {runId : RunId} {db : Database}
    {events : List LifecycleTransition}
    (h : List.Forall₂ (EventStored runId) (db.transitionsOf runId) events)
    (hevents : events.map LifecycleTransition.revision = List.range' 1 events.length) :
    List.Forall₂ HeldEvent (db.selectTransitions runId) events := by
  have hheld : List.Forall₂ HeldEvent
      ((db.transitionsOf runId).map fun row ↦ (row.revision, row.transition)) events := by
    rw [List.forall₂_map_left_iff]
    refine h.imp ?_
    rintro row event ⟨b, rfl, hb⟩
    exact ⟨rfl, b, rfl, hb⟩
  have hrevisions : ((db.transitionsOf runId).map fun row ↦ (row.revision, row.transition)).map
      Prod.fst = (List.range' 1 events.length).map fun n ↦ .integer (n : ℤ) := by
    rw [← hevents, map_fst_of_held hheld, List.map_map]
    rfl
  rw [Database.selectTransitions_eq, List.mergeSort_of_pairwise]
  · exact hheld
  · rw [← List.pairwise_map (f := Prod.fst) (R := fun a b ↦ SqlValue.le a b = true), hrevisions,
      List.pairwise_map]
    refine (List.pairwise_lt_range' 1).imp fun {a b} hab ↦ ?_
    simpa [SqlValue.le] using hab.le

theorem RunStored.selectTransitions {runId : RunId} {run : Run} {db : Database}
    (h : RunStored runId run db) :
    List.Forall₂ HeldEvent (db.selectTransitions runId) run.events :=
  selectTransitions_of_stored h.journal run.history.revisions

theorem RunStored.selectRun {runId : RunId} {run : Run} {db : Database}
    (h : RunStored runId run db) :
    ∃ row, db.selectRun runId = some row ∧
      HeldRun runId row (db.selectTransitions runId) run.checkpoint run.events := by
  obtain ⟨b, b', hrow, hb, hb'⟩ := h.row
  refine ⟨(.blob b, .blob b'), by rw [Database.selectRun_eq, hrow]; rfl, h.runId_eq, ⟨b, rfl, hb⟩,
    ⟨b', rfl, hb'⟩, run.history, h.selectTransitions⟩

/-- What a row and a journal hold is what is stored. -/
theorem RunStored.eq_of_held {runId : RunId} {run : Run} {db : Database}
    (h : RunStored runId run db) {row : SqlValue × SqlValue} {c : RunCheckpoint}
    {events : List LifecycleTransition} (hrow : db.selectRun runId = some row)
    (hheld : HeldRun runId row (db.selectTransitions runId) c events) :
    c = run.checkpoint ∧ events = run.events := by
  obtain ⟨row', hrow', hheld'⟩ := h.selectRun
  obtain rfl := Option.some.inj (hrow.symm.trans hrow')
  exact hheld.unique hheld'

theorem Stored.selectRun_none {runId : RunId} {db : Database} (h : Stored runId db none) :
    db.selectRun runId = none := by
  rw [Database.selectRun_eq, h.1]
  rfl

/-- **A created run is stored.** -/
theorem Represents.create {db db' : Database} {m : Runs} {c : RunCheckpoint}
    (h : Represents db m) (hcreated : Created c db db') :
    m c.identity.runId = none ∧
      Represents db' (m.set c.identity.runId (.start c.identity)) := by
  have hnone : m c.identity.runId = none := by
    cases hm : m c.identity.runId with
    | none => rfl
    | some run =>
      have hstored := h c.identity.runId
      rw [hm] at hstored
      obtain ⟨b, b', hrow, -, -⟩ := hstored.row
      exact absurd (hrow.symm.trans hcreated.absent) (by simp)
  refine ⟨hnone, fun r ↦ ?_⟩
  by_cases hr : r = c.identity.runId
  · subst hr
    rw [Runs.set_self]
    have hstored := h c.identity.runId
    rw [hnone] at hstored
    obtain ⟨b, b', hb, hb', rfl⟩ := hcreated.inserted
    refine ⟨rfl, ⟨b, b', ?_, hb, ?_⟩, ?_⟩
    · rw [Database.runsOf_insert, if_pos rfl, hcreated.absent]
      rfl
    · exact hcreated.initial ▸ hb'
    · change List.Forall₂ _ (db.transitionsOf c.identity.runId) []
      rw [hstored.2]
      exact .nil
  · rw [Runs.set_of_ne _ _ hr]
    obtain ⟨hruns, htransitions⟩ := hcreated.other hr
    exact (h r).congr hruns htransitions

/-- The rows of a run after an update that expects its checkpoint, legal or not. -/
theorem RunStored.append {db db' : Database} {run : Run} {u : StateUpdate}
    (h : RunStored u.runId run db) (hexpected : run.checkpoint = u.expected)
    (happended : Appended u db db') :
    (∃ b b', db'.runsOf u.runId = [⟨Database.key u.runId, .blob b, .blob b'⟩] ∧
      serializeRunIdentity u.expected.identity = .ok b ∧
      serializeCheckpoint u.nextCheckpoint = .ok b') ∧
    List.Forall₂ (EventStored u.runId) (db'.transitionsOf u.runId) (run.events ++ [u.event]) := by
  obtain ⟨b, b', bt, hb, hb', hbt, -, rfl⟩ := happended.written
  obtain ⟨bi, bc, hruns, hbi, hbc⟩ := h.row
  rw [hexpected] at hbi hbc
  rw [hb, Except.ok.injEq] at hbc
  subst hbc
  refine ⟨⟨bi, b', ?_, hbi, hb'⟩, ?_⟩
  · change (db.updateCheckpoint u.runId b' b).2.runsOf u.runId = _
    rw [Database.runsOf_update, hruns, List.map_singleton, Database.updatedRow,
      Database.matchesUpdate, beq_self_eq_true, beq_self_eq_true]
    rfl
  · rw [Database.transitionsOf_insert, if_pos rfl]
    exact List.rel_append h.journal (.cons ⟨bt, rfl, hbt⟩ .nil)

/-- **An appended legal update is stored**, on top of the run whose checkpoint it expects. -/
theorem Represents.append {db db' : Database} {m : Runs} {u : StateUpdate}
    (h : Represents db m) (happended : Appended u db db') :
    ∃ run, m u.runId = some run ∧ ∃ hexpected : run.checkpoint = u.expected,
      ∀ hlegal : u.Legal, Represents db' (m.set u.runId (run.append u hexpected hlegal)) := by
  obtain ⟨row, events, hrow, hheld⟩ := happended.held
  cases hm : m u.runId with
  | none =>
    have hstored := h u.runId
    rw [hm] at hstored
    exact absurd (hrow.symm.trans hstored.selectRun_none) (by simp)
  | some run =>
    have hstored := h u.runId
    rw [hm] at hstored
    obtain ⟨hexpected, rfl⟩ := hstored.eq_of_held hrow hheld
    refine ⟨run, rfl, hexpected.symm, fun hlegal r ↦ ?_⟩
    by_cases hr : r = u.runId
    · subst hr
      rw [Runs.set_self]
      obtain ⟨hrow, hjournal⟩ := hstored.append hexpected.symm happended
      exact ⟨rfl, hrow, hjournal⟩
    · rw [Runs.set_of_ne _ _ hr]
      obtain ⟨hruns, htransitions⟩ := happended.other hr
      exact (h r).congr hruns htransitions

end

end Alicerce
