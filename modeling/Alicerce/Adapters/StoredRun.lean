import Alicerce.Adapters.StoreOutcomes

/-!
# What a read accepts

`validatedRun` decodes, replays and compares; what it accepts is stated here in its own terms.

* `HeldRun`: the row and the journal are the canonical serializations of a checkpoint and of a
  history that leads to it.
* `replay_eq_ok_iff` is what the loop accepts, and `checkedRun_eq_ok_iff` what the whole of it does.
  They are equivalences, so a read accepts neither less nor more, whatever the tables contain.
* `load_eq_some_iff` and `history_eq_ok_iff` say so of the two readers.
* `load_history_legal`: a read only ever returns a legal history; no edit of the rows can make the
  store return a state that no sequence of allowed transitions reaches.
-/

set_option autoImplicit false

namespace Alicerce

open Py Lib Program Client

theorem asBlob_eq_ok_iff {v : SqlValue} {name : String} {b : Bytes} :
    asBlob v name = .ok b ↔ v = .blob b := by
  cases v <;> simp [asBlob]

section
variable [Interpreter]

/-! ## Rows that hold a run -/

/-- A row of the journal holds an event. -/
def HeldEvent (row : SqlValue × SqlValue) (event : LifecycleTransition) : Prop :=
  row.1 = .integer event.revision ∧
    ∃ b, row.2 = .blob b ∧ serializeTransition event = .ok b

/-- A row and its journal hold a checkpoint and the history that leads to it. -/
structure HeldRun (runId : RunId) (row : SqlValue × SqlValue) (rows : List (SqlValue × SqlValue))
    (c : RunCheckpoint) (events : List LifecycleTransition) : Prop where
  runId_eq : c.identity.runId = runId
  identity : ∃ b, row.1 = .blob b ∧ serializeRunIdentity c.identity = .ok b
  checkpoint : ∃ b, row.2 = .blob b ∧ serializeCheckpoint c = .ok b
  history : History c.identity events c
  journal : List.Forall₂ HeldEvent rows events

theorem HeldEvent.unique {row : SqlValue × SqlValue} {event event' : LifecycleTransition}
    (h : HeldEvent row event) (h' : HeldEvent row event') : event = event' := by
  obtain ⟨-, b, hb, hs⟩ := h
  obtain ⟨-, b', hb', hs'⟩ := h'
  obtain rfl := SqlValue.blob.inj (hb.symm.trans hb')
  exact transitionCodec.encode_injective hs hs'

theorem exists_heldEvent {rows : List (SqlValue × SqlValue)} {events : List LifecycleTransition}
    (h : List.Forall₂ HeldEvent rows events) {row : SqlValue × SqlValue} (hrow : row ∈ rows) :
    ∃ event, HeldEvent row event := by
  induction h with
  | nil => exact absurd hrow List.not_mem_nil
  | cons head _ ih =>
    rcases List.mem_cons.mp hrow with rfl | hrow
    · exact ⟨_, head⟩
    · exact ih hrow

/-- The same rows hold one run. -/
theorem HeldRun.unique {runId : RunId} {row : SqlValue × SqlValue}
    {rows : List (SqlValue × SqlValue)} {c c' : RunCheckpoint}
    {events events' : List LifecycleTransition} (h : HeldRun runId row rows c events)
    (h' : HeldRun runId row rows c' events') : c = c' ∧ events = events' := by
  obtain ⟨b, hb, hs⟩ := h.checkpoint
  obtain ⟨b', hb', hs'⟩ := h'.checkpoint
  obtain rfl := SqlValue.blob.inj (hb.symm.trans hb')
  exact ⟨checkpointCodec.encode_injective hs hs',
    List.right_unique_forall₂' (R := HeldEvent) (fun _ _ _ he he' ↦ he.unique he')
      h.journal h'.journal⟩

/-! ## The checks, as relations -/

/-- **What the loop of `_validated_run` accepts**: rows that hold events which lead on from the
checkpoint.  The induction is on the rows; the revision expected next is one more than that of the
checkpoint reached. -/
theorem replay_eq_ok_iff {identity : RunIdentity} : ∀ {rows : List (SqlValue × SqlValue)}
    {c c' : RunCheckpoint} {events : List LifecycleTransition}, c.identity = identity →
      (replay identity c (c.lifecycle.revision + 1) rows = .ok (c', events) ↔
        Steps Advances c events c' ∧ List.Forall₂ HeldEvent rows events)
  | [], c, c', events, _ => by
    rw [replay, Except.ok.injEq, Prod.mk.injEq]
    constructor
    · rintro ⟨rfl, rfl⟩
      exact ⟨.nil c, .nil⟩
    · rintro ⟨hsteps, hrows⟩
      obtain rfl := List.forall₂_nil_left_iff.mp hrows
      exact ⟨(Steps.nil_iff.mp hsteps).symm, rfl⟩
  | (revision, transition) :: rows, c, c', events, hid => by
    rw [replay]
    constructor
    · intro h
      split at h
      · exact absurd h (by simp)
      rename_i hrev
      rw [not_not] at hrev
      obtain ⟨b, hb, h⟩ := bind_eq_ok_iff.mp h
      obtain ⟨event, hevent, h⟩ := bind_eq_ok_iff.mp h
      obtain ⟨adv, hadv, h⟩ := bind_eq_ok_iff.mp h
      split at h
      · exact absurd h (by simp)
      rename_i hgen
      rw [not_not] at hgen
      obtain ⟨next, hnext, h⟩ := bind_eq_ok_iff.mp h
      obtain ⟨⟨final, rest⟩, hrest, h⟩ := bind_eq_ok_iff.mp h
      rw [Except.ok.injEq, Prod.mk.injEq] at h
      obtain ⟨rfl, rfl⟩ := h
      have hstep : Advances c event next := ⟨adv, hadv, hgen, hid ▸ hnext⟩
      rw [← hstep.revision] at hrest
      obtain ⟨hsteps, hrows⟩ := (replay_eq_ok_iff ((advances_iff.mp hstep).2.1.trans hid)).mp hrest
      refine ⟨.cons hstep hsteps, .cons ⟨?_, b, asBlob_eq_ok_iff.mp hb, ?_⟩ hrows⟩
      · rw [hrev, (advances_iff.mp hstep).1.revision]
      · exact transitionCodec.exact.mp hevent
    · rintro ⟨hsteps, hrows⟩
      obtain ⟨event, rest, ⟨hrev, b, hb, hs⟩, hrest, rfl⟩ := List.forall₂_cons_left_iff.mp hrows
      obtain ⟨next, hstep, htail⟩ := Steps.cons_iff.mp hsteps
      obtain ⟨adv, hadv, hgen, hnext⟩ := hstep
      have hstep : Advances c event next := ⟨adv, hadv, hgen, hnext⟩
      have hlegal := (advances_iff.mp hstep).1
      simp only at hrev hb
      have hn : revision = .integer ((c.lifecycle.revision + 1 : ℕ) : ℤ) := by
        rw [hrev, hlegal.revision]
      rw [if_neg (not_not.mpr hn), asBlob_eq_ok_iff.mpr hb, ok_bind,
        show deserializeTransition b = .ok event from transitionCodec.exact.mpr hs, ok_bind, hadv,
        ok_bind, if_neg (not_not.mpr hgen), ← hid, hnext, ok_bind, ← hstep.revision,
        (replay_eq_ok_iff (advances_iff.mp hstep).2.1).mpr ⟨htail, hrest⟩]
      rfl

theorem checkRow_eq_ok_iff {runId : RunId} {row : SqlValue × SqlValue} {identity : RunIdentity}
    {stored : RunCheckpoint} :
    checkRow runId row = .ok (identity, stored) ↔
      stored.identity = identity ∧ identity.runId = runId ∧
        (∃ b, row.1 = .blob b ∧ serializeRunIdentity identity = .ok b) ∧
        ∃ b, row.2 = .blob b ∧ serializeCheckpoint stored = .ok b := by
  rw [checkRow]
  constructor
  · intro h
    obtain ⟨b, hb, h⟩ := bind_eq_ok_iff.mp h
    obtain ⟨i, hi, h⟩ := bind_eq_ok_iff.mp h
    obtain ⟨b', hb', h⟩ := bind_eq_ok_iff.mp h
    obtain ⟨s, hs, h⟩ := bind_eq_ok_iff.mp h
    split at h
    · exact absurd h (by simp)
    rename_i hsame
    rw [not_or, not_not, not_not] at hsame
    rw [Except.ok.injEq, Prod.mk.injEq] at h
    obtain ⟨rfl, rfl⟩ := h
    exact ⟨hsame.1.symm, hsame.2, ⟨b, asBlob_eq_ok_iff.mp hb, identityCodec.exact.mp hi⟩,
      b', asBlob_eq_ok_iff.mp hb', checkpointCodec.exact.mp hs⟩
  · rintro ⟨hid, hrun, ⟨b, hb, hi⟩, b', hb', hs⟩
    rw [asBlob_eq_ok_iff.mpr hb, ok_bind,
      show deserializeRunIdentity b = .ok identity from identityCodec.exact.mpr hi, ok_bind,
      asBlob_eq_ok_iff.mpr hb', ok_bind,
      show deserializeCheckpoint b' = .ok stored from checkpointCodec.exact.mpr hs, ok_bind,
      if_neg (not_or.mpr ⟨not_not.mpr hid.symm, not_not.mpr hrun⟩)]

theorem checkJournal_eq_ok_iff {identity : RunIdentity} {stored c : RunCheckpoint}
    {rows : List (SqlValue × SqlValue)} {events : List LifecycleTransition} :
    checkJournal identity stored rows = .ok (c, events) ↔
      c = stored ∧ History identity events c ∧ List.Forall₂ HeldEvent rows events := by
  rw [checkJournal]
  constructor
  · intro h
    obtain ⟨⟨c', events'⟩, hreplay, h⟩ := bind_eq_ok_iff.mp h
    simp only at h
    split at h
    · exact absurd h (by simp)
    rename_i hc
    rw [not_not] at hc
    rw [Except.ok.injEq, Prod.mk.injEq] at h
    obtain ⟨rfl, rfl⟩ := h
    exact ⟨hc, (replay_eq_ok_iff (c := createInitialCheckpoint identity) rfl).mp hreplay⟩
  · rintro ⟨rfl, hheld⟩
    have hreplay : replay identity (createInitialCheckpoint identity) 1 rows = .ok (c, events) :=
      (replay_eq_ok_iff (c := createInitialCheckpoint identity) rfl).mpr hheld
    rw [hreplay, ok_bind]
    simp

/-- The two halves of `_validated_run` on a row and a journal. -/
def checkedRun (runId : RunId) (row : SqlValue × SqlValue) (rows : List (SqlValue × SqlValue)) :
    Except Exc (RunCheckpoint × List LifecycleTransition) := do
  let (identity, stored) ← checkRow runId row
  checkJournal identity stored rows

/-- **A row and a journal are accepted exactly when they hold a run.** -/
theorem checkedRun_eq_ok_iff {runId : RunId} {row : SqlValue × SqlValue}
    {rows : List (SqlValue × SqlValue)} {c : RunCheckpoint}
    {events : List LifecycleTransition} :
    checkedRun runId row rows = .ok (c, events) ↔ HeldRun runId row rows c events := by
  rw [checkedRun]
  constructor
  · intro h
    obtain ⟨⟨identity, stored⟩, hrow, h⟩ := bind_eq_ok_iff.mp h
    obtain ⟨rfl, hrun, hi, hs⟩ := checkRow_eq_ok_iff.mp hrow
    obtain ⟨rfl, hhist, hrows⟩ := checkJournal_eq_ok_iff.mp h
    exact ⟨hrun, hi, hs, hhist, hrows⟩
  · rintro ⟨hrun, hi, hs, hhist, hrows⟩
    rw [checkRow_eq_ok_iff.mpr ⟨rfl, hrun, hi, hs⟩, ok_bind]
    exact checkJournal_eq_ok_iff.mpr ⟨rfl, hhist, hrows⟩

/-! ## The validation, as a relation -/

/-- **A run is validated exactly when both reads succeed and what they see holds it.** -/
theorem validatedOutcome_eq_some_iff {env : StoreEnv} {runId : RunId}
    {view : Statement → Database} {c : RunCheckpoint} {events : List LifecycleTransition} :
    validatedOutcome env runId view = .ok (some (c, events)) ↔
      env.fault .selectRun = none ∧ env.fault .selectTransitions = none ∧
        ∃ row, (view .selectRun).selectRun runId = some row ∧
          HeldRun runId row ((view .selectTransitions).selectTransitions runId) c events := by
  rw [validatedOutcome]
  constructor
  · intro h
    obtain ⟨row, hrow, h⟩ := bind_eq_ok_iff.mp h
    obtain ⟨⟨⟩, hissue, rfl⟩ := map_eq_ok_iff.mp hrow
    split at h
    · exact absurd h (by simp)
    rename_i row hselect
    rw [mapError_eq_ok_iff] at h
    obtain ⟨⟨identity, stored⟩, hcheck, h⟩ := bind_eq_ok_iff.mp h
    obtain ⟨rows, hrows, h⟩ := bind_eq_ok_iff.mp h
    obtain ⟨⟨⟩, hissue', rfl⟩ := map_eq_ok_iff.mp hrows
    obtain ⟨run, hrun, h⟩ := bind_eq_ok_iff.mp h
    obtain rfl := Option.some.inj (Except.ok.inj h)
    refine ⟨StoreEnv.issue_eq_ok_iff.mp hissue, StoreEnv.issue_eq_ok_iff.mp hissue', row, hselect,
      checkedRun_eq_ok_iff.mp ?_⟩
    rw [checkedRun, hcheck]
    exact hrun
  · rintro ⟨hf, hf', row, hrow, hheld⟩
    obtain ⟨⟨identity, stored⟩, hcheck, hrun⟩ :=
      bind_eq_ok_iff.mp (checkedRun_eq_ok_iff.mpr hheld)
    simp only [StoreEnv.issue_of_none hf, StoreEnv.issue_of_none hf', Except.map, ok_bind, hrow,
      hcheck, hrun]
    rfl

theorem validatedOutcome_eq_none_iff {env : StoreEnv} {runId : RunId}
    {view : Statement → Database} :
    validatedOutcome env runId view = .ok none ↔
      env.fault .selectRun = none ∧ (view .selectRun).selectRun runId = none := by
  rw [validatedOutcome]
  constructor
  · intro h
    obtain ⟨row, hrow, h⟩ := bind_eq_ok_iff.mp h
    obtain ⟨⟨⟩, hissue, rfl⟩ := map_eq_ok_iff.mp hrow
    split at h
    · rename_i hselect
      exact ⟨StoreEnv.issue_eq_ok_iff.mp hissue, hselect⟩
    · rw [mapError_eq_ok_iff] at h
      obtain ⟨_, -, h⟩ := bind_eq_ok_iff.mp h
      obtain ⟨_, -, h⟩ := bind_eq_ok_iff.mp h
      obtain ⟨_, -, h⟩ := bind_eq_ok_iff.mp h
      exact absurd h (by simp)
  · rintro ⟨hf, hselect⟩
    simp only [StoreEnv.issue_of_none hf, Except.map, ok_bind, hselect]

/-! ## What the readers return -/

omit [Interpreter] in
theorem readerOutcome_eq_ok_iff {α : Type} {env : StoreEnv} {x : Except Exc α} {a : α} :
    readerOutcome env x = .ok a ↔ env.connecting = .ok () ∧ x = .ok a := by
  rw [readerOutcome]
  cases h : env.connecting with
  | ok u => simp [mapError_eq_ok_iff]
  | error e => simp

/-- **When `load` returns a checkpoint.** -/
theorem load_eq_some_iff {env : StoreEnv} {runId : RunId} {c : RunCheckpoint} :
    (load runId).result env = .ok (some c) ↔ env.connecting = .ok () ∧
      ∃ events, validatedOutcome env runId env.committed = .ok (some (c, events)) := by
  rw [Store.result, load_run, readerOutcome_eq_ok_iff, bind_eq_ok_iff]
  refine and_congr_right fun _ ↦ ⟨?_, fun ⟨events, h⟩ ↦ ⟨_, h, rfl⟩⟩
  rintro ⟨validated, h, hc⟩
  obtain ⟨⟨c', events⟩, rfl, rfl⟩ := Option.map_eq_some_iff.mp (Except.ok.inj hc)
  exact ⟨events, h⟩

/-- **When `history` returns a journal.** -/
theorem history_eq_ok_iff {env : StoreEnv} {runId : RunId} {events : List LifecycleTransition} :
    (history runId).result env = .ok events ↔ env.connecting = .ok () ∧
      ∃ c, validatedOutcome env runId env.committed = .ok (some (c, events)) := by
  rw [Store.result, history_run, readerOutcome_eq_ok_iff, bind_eq_ok_iff]
  refine and_congr_right fun _ ↦ ⟨?_, fun ⟨c, h⟩ ↦ ⟨_, h, rfl⟩⟩
  rintro ⟨_ | ⟨c, events'⟩, h, hc⟩
  · exact absurd hc (by simp)
  · exact ⟨c, Except.ok.inj hc ▸ h⟩

/-- Everything both readers see is one database. -/
def StoreEnv.snapshot (db : Database) (fault : Statement → Option Text) : StoreEnv :=
  ⟨fun _ ↦ db, fault⟩

/-- **A read only ever returns a legal history, whatever the database contains.**  What `load` and
`history` return from one database is about the run looked up, has one event for each revision, and
is what `advance_lifecycle` makes of it, event by event, from the initial checkpoint of its
identity; and the rows of the run are the serializations of just that. -/
theorem load_history_legal {db : Database} {fault fault' : Statement → Option Text} {runId : RunId}
    {c : RunCheckpoint} {events : List LifecycleTransition}
    (hload : (load runId).result (.snapshot db fault) = .ok (some c))
    (hhistory : (history runId).result (.snapshot db fault') = .ok events) :
    c.identity.runId = runId ∧ events.length = c.lifecycle.revision ∧
      (∀ i (hi : i < events.length), events[i].revision = i + 1) ∧
      Steps Advances (createInitialCheckpoint c.identity) events c ∧
      (∃ b b', db.selectRun runId = some (.blob b, .blob b') ∧
        serializeRunIdentity c.identity = .ok b ∧ serializeCheckpoint c = .ok b') ∧
      List.Forall₂ (fun row event ↦ row.1 = .integer event.revision ∧
        ∃ b, row.2 = .blob b ∧ serializeTransition event = .ok b)
        (db.selectTransitions runId) events := by
  obtain ⟨-, events', hload⟩ := load_eq_some_iff.mp hload
  obtain ⟨-, c', hhistory⟩ := history_eq_ok_iff.mp hhistory
  obtain ⟨-, -, row, hrow, hheld⟩ := validatedOutcome_eq_some_iff.mp hload
  obtain ⟨-, -, row', hrow', hheld'⟩ := validatedOutcome_eq_some_iff.mp hhistory
  obtain rfl := Option.some.inj (hrow.symm.trans hrow')
  obtain ⟨rfl, rfl⟩ := hheld.unique hheld'
  obtain ⟨b, hb, hi⟩ := hheld.identity
  obtain ⟨b', hb', hs⟩ := hheld.checkpoint
  have hrow : db.selectRun runId = some (.blob b, .blob b') := by
    rw [← hb, ← hb']
    exact hrow
  refine ⟨hheld.runId_eq, hheld.history.length_eq, fun i hi ↦ ?_, hheld.history,
    ⟨b, b', hrow, hi, hs⟩, hheld.journal⟩
  have hrev := congrArg (·[i]?) hheld.history.revisions
  simp only [List.getElem?_map, List.getElem?_eq_getElem hi, Option.map_some,
    List.getElem?_range' hi, Nat.one_mul, Option.some_inj] at hrev
  rw [hrev, Nat.add_comm]

end

/-- A run of one event, read from its rows. -/
theorem load_history_legal_fromStart : let _ := Interpreter.plain
    ∃ db c events, (load (storeIdentity qualityLoop).runId).result
        (.snapshot db fun _ ↦ none) = .ok (some c) ∧
      (history (storeIdentity qualityLoop).runId).result (.snapshot db fun _ ↦ none) = .ok events ∧
      events.length = 1 ∧ events.length = c.lifecycle.revision := by
  let _ := Interpreter.plain
  let u :=
    StateUpdate.fromStart (storeIdentity qualityLoop) storeActor .workspacePrepared (by decide)
  have henc : (storeIdentity qualityLoop).Encodable := ⟨by decide, by decide⟩
  have hrevision : RevisionPrintable 1 := by rw [RevisionPrintable]; decide
  obtain ⟨b, hb⟩ := exists_serializeRunIdentity_iff.mpr henc
  obtain ⟨b', hb'⟩ := (exists_serializeCheckpoint_iff (c := u.nextCheckpoint)).mpr ⟨henc, hrevision⟩
  obtain ⟨bt, hbt⟩ := (exists_serializeTransition_iff (t := u.event)).mpr hrevision
  let db : Database := ⟨[⟨Database.key u.runId, .blob b, .blob b'⟩],
    [⟨Database.key u.runId, .integer 1, .blob bt⟩]⟩
  have hrow : db.selectRun u.runId = some (.blob b, .blob b') := by
    simp [db, Database.selectRun]
  have hrows : db.selectTransitions u.runId = [(.integer 1, .blob bt)] := by
    simp [db, Database.selectTransitions]
  have hheld : HeldRun u.runId (.blob b, .blob b') (db.selectTransitions u.runId) u.nextCheckpoint
      [u.event] :=
    ⟨rfl, ⟨b, rfl, hb⟩, ⟨b', rfl, hb'⟩,
      .cons (StateUpdate.advances_iff.mpr (StateUpdate.legal_fromStart _ _)) (.nil _),
      hrows ▸ .cons ⟨rfl, bt, rfl, hbt⟩ .nil⟩
  have hvalid : validatedOutcome (.snapshot db fun _ ↦ none) u.runId (fun _ ↦ db) =
      .ok (some (u.nextCheckpoint, [u.event])) :=
    validatedOutcome_eq_some_iff.mpr ⟨rfl, rfl, _, hrow, hheld⟩
  have hload := load_eq_some_iff.mpr
    ⟨show (StoreEnv.snapshot db fun _ ↦ none).connecting = _ from rfl, [u.event], hvalid⟩
  have hhistory := history_eq_ok_iff.mpr
    ⟨show (StoreEnv.snapshot db fun _ ↦ none).connecting = _ from rfl, u.nextCheckpoint, hvalid⟩
  exact ⟨db, _, _, hload, hhistory, rfl, (load_history_legal hload hhistory).2.1⟩

end Alicerce
