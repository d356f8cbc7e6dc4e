import Alicerce.Domain.Lifecycle
import Alicerce.Lib.Steps

/-!
# Checkpoints and state updates

A checkpoint pairs the identity of a run with its lifecycle snapshot, and a state update pairs the
checkpoint it expects with the advance to append.  Both carry what their constructors check.

* `RunCheckpoint` is a checkpoint, and `createInitialCheckpoint` the one a run starts from.
* `StateUpdate` is an update, and `StateUpdate.nextCheckpoint` what it leads to.
* A `StateUpdate` can be built by hand as well as by `prepareStateUpdate`, and the two are not the
  same: the constructor `StateUpdate.new` checks that the event *continues* the expected snapshot,
  while `prepareStateUpdate` also takes its event from `advanceLifecycle`, which only makes *legal*
  ones (`prepareStateUpdate_eq_ok_iff`).
* `Advances` and `History` are what events lead to, one and several.
-/

set_option autoImplicit false

namespace Alicerce

open Py

/-! ## Checkpoints -/

/-- Immutable identity and current lifecycle snapshot for one run. -/
@[ext]
structure RunCheckpoint where
  identity : RunIdentity
  lifecycle : RunLifecycle
  /-- Both are about one run. -/
  runId_eq : identity.runId = lifecycle.runId
  /-- Lifecycle time does not precede identity creation. -/
  createdAt_le : identity.createdAt ≤ lifecycle.updatedAt
deriving DecidableEq

/-- The constructor. -/
def RunCheckpoint.new (identity : RunIdentity) (lifecycle : RunLifecycle) :
    Except Exc RunCheckpoint :=
  if hrun : identity.runId ≠ lifecycle.runId then
    .error (.stateInvariantError .runMismatch "identity and lifecycle must reference the same run")
  else if htime : lifecycle.updatedAt < identity.createdAt then
    .error (.stateInvariantError .timeRegression "lifecycle time cannot precede identity creation")
  else .ok ⟨identity, lifecycle, not_not.mp hrun, not_lt.mp htime⟩

theorem RunCheckpoint.new_eq_ok_iff {identity : RunIdentity} {lifecycle : RunLifecycle}
    {c : RunCheckpoint} :
    RunCheckpoint.new identity lifecycle = .ok c ↔
      c.identity = identity ∧ c.lifecycle = lifecycle := by
  rw [RunCheckpoint.new]
  constructor
  · intro h
    split at h
    · exact absurd h (by simp)
    split at h
    · exact absurd h (by simp)
    · rw [← Except.ok.inj h]
      exact ⟨rfl, rfl⟩
  · rintro ⟨rfl, rfl⟩
    rw [dif_neg (not_not.mpr c.runId_eq), dif_neg (not_lt.mpr c.createdAt_le)]

/-- `create_initial_checkpoint`. -/
def createInitialCheckpoint (identity : RunIdentity) : RunCheckpoint where
  identity := identity
  lifecycle := startLifecycle identity
  runId_eq := rfl
  createdAt_le := le_rfl

/-! ## Updates -/

/-- One CAS precondition and the lifecycle advance to append. -/
@[ext]
structure StateUpdate where
  expected : RunCheckpoint
  advance : LifecycleAdvance
  /-- The event continues the expected snapshot. -/
  continues : advance.transition.Continues expected.lifecycle
  /-- The result is the snapshot the event leads to. -/
  result : advance.lifecycle = advance.transition.snapshot
deriving DecidableEq

/-- What the constructor of `StateUpdate` checks, in its order. -/
def StateUpdate.check (expected : RunCheckpoint) (advance : LifecycleAdvance) : Except Exc Unit :=
  let current := expected.lifecycle
  let updated := advance.lifecycle
  let event := advance.transition
  if current.runId ≠ updated.runId ∨ current.runId ≠ event.runId then
    .error (.stateInvariantError .runMismatch
      "expected snapshot, event, and result must reference the same run")
  else if updated.revision ≠ current.revision + 1 ∨ event.revision ≠ updated.revision then
    .error (.stateInvariantError .revisionMismatch
      "state update must advance exactly one revision")
  else if event.fromState ≠ current.state ∨ event.toState ≠ updated.state then
    .error (.stateInvariantError .stateMismatch
      "event states must connect the expected and resulting snapshots")
  else if event.occurredAt < current.updatedAt then
    .error (.stateInvariantError .timeRegression
      "event time cannot precede the expected snapshot time")
  else if event.occurredAt ≠ updated.updatedAt ∨ event.finalState ≠ updated.finalState then
    .error (.stateInvariantError .eventMismatch
      "event time and final state must match the resulting snapshot")
  else .ok ()

/-- The checks say that the event continues the expected snapshot and leads to the result. -/
theorem StateUpdate.check_eq_ok_iff {expected : RunCheckpoint} {advance : LifecycleAdvance} :
    StateUpdate.check expected advance = .ok () ↔
      advance.transition.Continues expected.lifecycle ∧
        advance.lifecycle = advance.transition.snapshot := by
  rw [StateUpdate.check]
  constructor
  · intro h
    split at h
    · exact absurd h (by simp)
    split at h
    · exact absurd h (by simp)
    split at h
    · exact absurd h (by simp)
    split at h
    · exact absurd h (by simp)
    split at h
    · exact absurd h (by simp)
    rename_i hrun hrev hstate htime hevent
    simp only [not_or, not_not] at hrun hrev hstate hevent
    exact ⟨⟨hrun.2.symm, hrev.2.trans hrev.1, hstate.1, not_lt.mp htime⟩,
      RunLifecycle.ext (hrun.1.symm.trans hrun.2) hstate.2.symm hrev.2.symm hevent.1.symm
        hevent.2.symm⟩
  · rintro ⟨⟨hrun, hrev, hfrom, htime⟩, hresult⟩
    have hrun' : advance.lifecycle.runId = advance.transition.runId := by rw [hresult]; rfl
    have hrev' : advance.lifecycle.revision = advance.transition.revision := by rw [hresult]; rfl
    have hto : advance.lifecycle.state = advance.transition.toState := by rw [hresult]; rfl
    have hat : advance.lifecycle.updatedAt = advance.transition.occurredAt := by rw [hresult]; rfl
    have hfin : advance.lifecycle.finalState = advance.transition.finalState := by
      rw [hresult]; rfl
    simp only [hrun', hrev', hto, hat, hfin, hrun, hrev, hfrom, not_lt.mpr htime, ne_eq,
      not_true_eq_false, or_self, if_false]

/-- The constructor. -/
def StateUpdate.new (expected : RunCheckpoint) (advance : LifecycleAdvance) :
    Except Exc StateUpdate :=
  match h : StateUpdate.check expected advance with
  | .ok () => .ok ⟨expected, advance, (StateUpdate.check_eq_ok_iff.mp h).1,
      (StateUpdate.check_eq_ok_iff.mp h).2⟩
  | .error e => .error e

theorem StateUpdate.new_eq_ok_iff {expected : RunCheckpoint} {advance : LifecycleAdvance}
    {u : StateUpdate} :
    StateUpdate.new expected advance = .ok u ↔ u.expected = expected ∧ u.advance = advance := by
  rw [StateUpdate.new]
  constructor
  · intro h
    split at h
    · rw [← Except.ok.inj h]
      exact ⟨rfl, rfl⟩
    · exact absurd h (by simp)
  · rintro ⟨rfl, rfl⟩
    split
    · rfl
    · rename_i e he
      rw [StateUpdate.check_eq_ok_iff.mpr ⟨u.continues, u.result⟩] at he
      exact absurd he (by simp)

namespace StateUpdate

variable (u : StateUpdate)

/-- The run an update is about. -/
def runId : RunId := u.expected.identity.runId

/-- The event an update appends. -/
def event : LifecycleTransition := u.advance.transition

theorem lifecycle_eq_snapshot : u.advance.lifecycle = u.event.snapshot := u.result

/-- `next_checkpoint`.  What the constructor of the checkpoint checks follows from what the
constructor of the update has checked. -/
def nextCheckpoint : RunCheckpoint where
  identity := u.expected.identity
  lifecycle := u.advance.lifecycle
  runId_eq := by
    rw [u.result, u.expected.runId_eq]
    exact u.continues.runId.symm
  createdAt_le := by
    rw [u.result]
    exact u.expected.createdAt_le.trans u.continues.time

theorem new_nextCheckpoint :
    RunCheckpoint.new u.expected.identity u.advance.lifecycle = .ok u.nextCheckpoint :=
  RunCheckpoint.new_eq_ok_iff.mpr ⟨rfl, rfl⟩

/-- The update appends a legal event: one that `advanceLifecycle` could have made. -/
def Legal : Prop := u.event.Legal u.expected.lifecycle

theorem legal_iff : u.Legal ↔ u.event.toState ∈ allowedNext u.expected.lifecycle.state :=
  ⟨fun h ↦ h.allowed, fun h ↦ ⟨u.continues, h⟩⟩

instance : Decidable u.Legal := decidable_of_iff _ u.legal_iff.symm

end StateUpdate

/-- The update that takes a new run to a working state at once, built by hand. -/
def StateUpdate.fromStart (identity : RunIdentity) (actor : LifecycleActor)
    (toState : LifecycleState) (h : toState ≠ .completed) : StateUpdate where
  expected := createInitialCheckpoint identity
  advance := {
    lifecycle := ⟨identity.runId, toState, 1, identity.createdAt, none, by simp [Terminal, h]⟩
    transition := ⟨identity.runId, 1, .contractBound, toState, identity.createdAt, actor, none,
      by simp [Terminal, h]⟩ }
  continues := ⟨rfl, rfl, rfl, le_refl _⟩
  result := rfl

/-- The actor of an update. -/
def storeActor : LifecycleActor := ⟨"test.store", by decide⟩

/-- The constructor of an update accepts a skip, which no transition table allows. -/
theorem StateUpdate.not_legal_fromStart (identity : RunIdentity) (actor : LifecycleActor) :
    ¬(StateUpdate.fromStart identity actor .verifying (by decide)).Legal := by
  rw [StateUpdate.legal_iff]
  change LifecycleState.verifying ∉ allowedNext .contractBound
  decide

theorem StateUpdate.legal_fromStart (identity : RunIdentity) (actor : LifecycleActor) :
    (StateUpdate.fromStart identity actor .workspacePrepared (by decide)).Legal := by
  rw [StateUpdate.legal_iff]
  change LifecycleState.workspacePrepared ∈ allowedNext .contractBound
  decide

/-- `prepare_state_update`. -/
def prepareStateUpdate (checkpoint : RunCheckpoint) (toState : LifecycleState)
    (occurredAt : DateTime) (actor : LifecycleActor) (finalState : Option Text) :
    Except Exc StateUpdate := do
  let advance ← advanceLifecycle checkpoint.lifecycle toState occurredAt actor finalState
  StateUpdate.new checkpoint advance

/-- **What `prepareStateUpdate` returns**: a legal update that expects the given checkpoint. -/
theorem prepareStateUpdate_eq_ok_iff {checkpoint : RunCheckpoint} {toState : LifecycleState}
    {occurredAt : DateTime} {actor : LifecycleActor} {finalState : Option Text}
    {u : StateUpdate} :
    prepareStateUpdate checkpoint toState occurredAt actor finalState = .ok u ↔
      u.Legal ∧ u.expected = checkpoint ∧ u.event.toState = toState ∧
        utc u.event.occurredAt = occurredAt ∧ u.event.actor = actor ∧
        finalText u.event.finalState = finalState := by
  rw [prepareStateUpdate, bind_eq_ok_iff]
  constructor
  · rintro ⟨adv, hadv, hu⟩
    obtain ⟨rfl, rfl⟩ := StateUpdate.new_eq_ok_iff.mp hu
    obtain ⟨hlegal, -, hrest⟩ := advanceLifecycle_eq_ok_iff.mp hadv
    exact ⟨hlegal, rfl, hrest⟩
  · rintro ⟨hlegal, rfl, hrest⟩
    exact ⟨u.advance, advanceLifecycle_eq_ok_iff.mpr ⟨hlegal, u.result, hrest⟩,
      StateUpdate.new_eq_ok_iff.mpr ⟨rfl, rfl⟩⟩

/-- An update is one that `prepareStateUpdate` can return. -/
def StateUpdate.Prepared (u : StateUpdate) : Prop :=
  ∃ checkpoint toState occurredAt actor finalState,
    prepareStateUpdate checkpoint toState occurredAt actor finalState = .ok u

/-- The prepared updates are the legal ones. -/
theorem StateUpdate.prepared_iff {u : StateUpdate} : u.Prepared ↔ u.Legal :=
  ⟨fun ⟨_, _, _, _, _, h⟩ ↦ (prepareStateUpdate_eq_ok_iff.mp h).1,
    fun h ↦ ⟨_, _, _, _, _, prepareStateUpdate_eq_ok_iff.mpr ⟨h, rfl, rfl, rfl, rfl, rfl⟩⟩⟩

/-! ## Histories -/

/-- An event leads from one checkpoint of a run to another: `advance_lifecycle`, asked for a
transition with the attributes of the event, generates the event itself, and the checkpoint built
from its snapshot is the second one. -/
def Advances (c : RunCheckpoint) (event : LifecycleTransition) (c' : RunCheckpoint) : Prop :=
  ∃ adv, advanceLifecycle c.lifecycle event.toState (utc event.occurredAt) event.actor
      (finalText event.finalState) = .ok adv ∧
    adv.transition = event ∧ RunCheckpoint.new c.identity adv.lifecycle = .ok c'

/-- An event leads on exactly when it is legal, and then to its snapshot. -/
theorem advances_iff {c c' : RunCheckpoint} {event : LifecycleTransition} :
    Advances c event c' ↔ event.Legal c.lifecycle ∧ c'.identity = c.identity ∧
      c'.lifecycle = event.snapshot := by
  simp only [Advances, advanceLifecycle_eq_ok_iff, RunCheckpoint.new_eq_ok_iff]
  constructor
  · rintro ⟨adv, ⟨hlegal, hsnap, -⟩, rfl, hid, hl⟩
    exact ⟨hlegal, hid, hl.trans hsnap⟩
  · rintro ⟨hlegal, hid, hl⟩
    exact ⟨⟨event.snapshot, event⟩, ⟨hlegal, rfl, rfl, rfl, rfl, rfl⟩, rfl, hid, hl⟩

theorem Advances.unique {c c' c'' : RunCheckpoint} {event : LifecycleTransition}
    (h : Advances c event c') (h' : Advances c event c'') : c' = c'' := by
  obtain ⟨-, hid, hl⟩ := advances_iff.mp h
  obtain ⟨-, hid', hl'⟩ := advances_iff.mp h'
  exact RunCheckpoint.ext (hid.trans hid'.symm) (hl.trans hl'.symm)

theorem Advances.revision {c c' : RunCheckpoint} {event : LifecycleTransition}
    (h : Advances c event c') : c'.lifecycle.revision = c.lifecycle.revision + 1 := by
  obtain ⟨hlegal, -, hl⟩ := advances_iff.mp h
  rw [hl]
  exact hlegal.revision

/-- Applying a legal update is advancing. -/
theorem StateUpdate.advances_iff {u : StateUpdate} :
    Advances u.expected u.event u.nextCheckpoint ↔ u.Legal :=
  Alicerce.advances_iff.trans ⟨fun h ↦ h.1, fun h ↦ ⟨h, rfl, u.result⟩⟩

/-- The events lead from the initial checkpoint of an identity to a checkpoint. -/
def History (identity : RunIdentity) (events : List LifecycleTransition) (c : RunCheckpoint) :
    Prop :=
  Lib.Steps Advances (createInitialCheckpoint identity) events c

namespace History

variable {identity : RunIdentity} {events : List LifecycleTransition} {c : RunCheckpoint}

theorem identity_eq (h : History identity events c) : c.identity = identity :=
  Lib.Steps.preserves (P := fun c ↦ c.identity = identity)
    (fun hs hstep ↦ (Alicerce.advances_iff.mp hstep).2.1.trans hs) h rfl

/-- A history is as long as the revision it reaches. -/
theorem length_eq (h : History identity events c) : events.length = c.lifecycle.revision := by
  have hm := Lib.Steps.measure_eq (m := fun c : RunCheckpoint ↦ c.lifecycle.revision)
    (fun hstep ↦ hstep.revision) h
  exact ((Nat.zero_add _).symm.trans hm.symm)

/-- A history leads to one checkpoint. -/
theorem unique {c' : RunCheckpoint} (h : History identity events c)
    (h' : History identity events c') : c = c' :=
  Lib.Steps.unique (fun hstep hstep' ↦ hstep.unique hstep') h h'

/-- Every transition moves the run at least one state along, so a revision never exceeds the
rank of the state. -/
theorem revision_le_rank (h : History identity events c) :
    c.lifecycle.revision ≤ c.lifecycle.state.rank :=
  Lib.Steps.preserves (P := fun c ↦ c.lifecycle.revision ≤ c.lifecycle.state.rank)
    (fun {s t e} hs hstep ↦ by
      obtain ⟨hlegal, -, hl⟩ := Alicerce.advances_iff.mp hstep
      have hrank := LifecycleState.rank_lt_of_allowed hlegal.allowed
      have hrev := hlegal.revision
      rw [hl]
      change e.revision ≤ e.toState.rank
      omega) h (Nat.zero_le _)

theorem revision_le (h : History identity events c) : c.lifecycle.revision ≤ maxRevision :=
  h.revision_le_rank.trans c.lifecycle.state.rank_le

/-- The events bear the revisions from one on. -/
theorem revisions (h : History identity events c) :
    events.map LifecycleTransition.revision = List.range' 1 events.length := by
  refine Lib.Steps.map_eq_range' (m := fun c : RunCheckpoint ↦ c.lifecycle.revision + 1)
    (fun {s t e} hstep ↦ ?_) h
  have hstep : Advances s e t := hstep
  exact ⟨(advances_iff.mp hstep).1.revision, congrArg (· + 1) hstep.revision⟩

end History

end Alicerce
