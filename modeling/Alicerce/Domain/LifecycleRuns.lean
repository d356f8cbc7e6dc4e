import Alicerce.Domain.State

/-!
# Runs of the lifecycle

A run starts from the initial checkpoint of an identity and goes on by prepared updates, each from
the checkpoint that `next_checkpoint` made of the one before.

* `Prepares` is one step.  `prepares_iff` says what it is: the three validators, of the snapshot, of
  the event and of the update, leave nothing for a step to fail on but what `advanceLifecycle`
  refuses itself (`accepted_of_advanceLifecycle`).
* `LifecycleRun` is a run, and `checkpoints` are those it passes through.
* `Connects` is what an event is to the two checkpoints it stands between, and `Precedes` what a
  checkpoint is to a later one.
* `lifecycle_run` puts together what holds along every run.
* `completion_prepared`: a run can be completed from every other state.
-/

set_option autoImplicit false

namespace Alicerce

open Py Lib

/-! ## Steps -/

/-- One step of a run: some update is prepared at the checkpoint reached, and `next_checkpoint`
constructs the checkpoint the run goes on from. -/
structure Prepares (c : RunCheckpoint) (u : StateUpdate) (c' : RunCheckpoint) : Prop where
  prepared : ∃ toState occurredAt actor finalState,
    prepareStateUpdate c toState occurredAt actor finalState = .ok u
  next : RunCheckpoint.new u.expected.identity u.advance.lifecycle = .ok c'

theorem prepares_iff {c c' : RunCheckpoint} {u : StateUpdate} :
    Prepares c u c' ↔ u.Legal ∧ u.expected = c ∧ c' = u.nextCheckpoint := by
  constructor
  · rintro ⟨⟨toState, occurredAt, actor, finalState, hprepared⟩, hnext⟩
    obtain ⟨hlegal, hexpected, -⟩ := prepareStateUpdate_eq_ok_iff.mp hprepared
    obtain ⟨hid, hl⟩ := RunCheckpoint.new_eq_ok_iff.mp hnext
    exact ⟨hlegal, hexpected, RunCheckpoint.ext hid hl⟩
  · rintro ⟨hlegal, rfl, rfl⟩
    exact ⟨⟨_, _, _, _, prepareStateUpdate_eq_ok_iff.mpr ⟨hlegal, rfl, rfl, rfl, rfl, rfl⟩⟩,
      u.new_nextCheckpoint⟩

/-- A step is an advance by its event. -/
theorem Prepares.advances {c c' : RunCheckpoint} {u : StateUpdate} (h : Prepares c u c') :
    Advances c u.event c' := by
  obtain ⟨hlegal, rfl, rfl⟩ := prepares_iff.mp h
  exact StateUpdate.advances_iff.mpr hlegal

/-- **What `advanceLifecycle` produces no later validator rejects.** -/
theorem accepted_of_advanceLifecycle {c : RunCheckpoint} {toState : LifecycleState}
    {occurredAt : DateTime} {actor : LifecycleActor} {finalState : Option Text}
    {adv : LifecycleAdvance}
    (h : advanceLifecycle c.lifecycle toState occurredAt actor finalState = .ok adv) :
    ∃ u c', StateUpdate.new c adv = .ok u ∧
      prepareStateUpdate c toState occurredAt actor finalState = .ok u ∧
      RunCheckpoint.new u.expected.identity u.advance.lifecycle = .ok c' := by
  obtain ⟨hlegal, hsnap, -⟩ := advanceLifecycle_eq_ok_iff.mp h
  let u : StateUpdate := ⟨c, adv, hlegal.toContinues, hsnap⟩
  have hnew : StateUpdate.new c adv = .ok u := StateUpdate.new_eq_ok_iff.mpr ⟨rfl, rfl⟩
  refine ⟨u, u.nextCheckpoint, hnew, ?_, u.new_nextCheckpoint⟩
  rw [prepareStateUpdate, h, ok_bind, hnew]

/-! ## What stands between two neighbours -/

/-- The states as the documentation orders them: each is followed by the next, or by completion. -/
def Follows (s s' : LifecycleState) : Prop :=
  s ≠ .completed ∧ (s'.rank = s.rank + 1 ∨ s' = .completed)

theorem follows_of_allowed {s s' : LifecycleState} (h : s' ∈ allowedNext s) : Follows s s' := by
  cases s <;> simp only [allowedNext, List.mem_cons, List.not_mem_nil, or_false] at h
  case reviewPending => exact h ▸ ⟨by decide, .inl rfl⟩
  all_goals
    rcases h with rfl | rfl
    · exact ⟨by decide, .inl rfl⟩
    · exact ⟨by decide, .inr rfl⟩

/-- An event connects two checkpoints: it is about their run, it bears the revision of the second,
which is one more than that of the first, it leads from the state of the first to that of the
second, and it happened when the second was updated and with the final state of the second. -/
structure Connects (c : RunCheckpoint) (event : LifecycleTransition) (c' : RunCheckpoint) :
    Prop where
  runId : event.runId = c.lifecycle.runId ∧ event.runId = c'.lifecycle.runId
  revision : event.revision = c.lifecycle.revision + 1 ∧ event.revision = c'.lifecycle.revision
  fromState : event.fromState = c.lifecycle.state
  toState : event.toState = c'.lifecycle.state
  time : c.lifecycle.updatedAt ≤ event.occurredAt ∧ event.occurredAt = c'.lifecycle.updatedAt
  finalState : event.finalState = c'.lifecycle.finalState
  follows : Follows c.lifecycle.state c'.lifecycle.state

theorem Advances.connects {c c' : RunCheckpoint} {event : LifecycleTransition}
    (h : Advances c event c') : Connects c event c' := by
  obtain ⟨hlegal, -, hl⟩ := advances_iff.mp h
  constructor
  · exact ⟨hlegal.runId, hl ▸ rfl⟩
  · exact ⟨hlegal.revision, hl ▸ rfl⟩
  · exact hlegal.fromState
  · exact hl ▸ rfl
  · exact ⟨hlegal.time, hl ▸ rfl⟩
  · exact hl ▸ rfl
  · rw [hl]
    exact follows_of_allowed hlegal.allowed

/-- One checkpoint of a run comes before another: it is not updated later, and its state is an
earlier one. -/
def Precedes (c c' : RunCheckpoint) : Prop :=
  c.lifecycle.updatedAt ≤ c'.lifecycle.updatedAt ∧
    c.lifecycle.state.rank < c'.lifecycle.state.rank

theorem Precedes.trans {a b c : RunCheckpoint} (h : Precedes a b) (h' : Precedes b c) :
    Precedes a c :=
  ⟨h.1.trans h'.1, h.2.trans h'.2⟩

theorem Advances.precedes {c c' : RunCheckpoint} {event : LifecycleTransition}
    (h : Advances c event c') : Precedes c c' := by
  obtain ⟨hlegal, -, hl⟩ := advances_iff.mp h
  rw [Precedes, hl]
  exact ⟨hlegal.time, LifecycleState.rank_lt_of_allowed hlegal.allowed⟩

/-! ## The last step -/

/-- Nothing is prepared once a run is completed. -/
theorem prepareStateUpdate_of_completed {c : RunCheckpoint} (h : c.lifecycle.state = .completed)
    (toState : LifecycleState) (occurredAt : DateTime) (actor : LifecycleActor)
    (finalState : Option Text) (u : StateUpdate) :
    prepareStateUpdate c toState occurredAt actor finalState ≠ .ok u := by
  intro hu
  obtain ⟨hlegal, rfl, -⟩ := prepareStateUpdate_eq_ok_iff.mp hu
  have hallowed := hlegal.allowed
  rw [h] at hallowed
  exact absurd hallowed (List.not_mem_nil)

theorem completed_mem_allowedNext {s : LifecycleState} (h : s ≠ .completed) :
    .completed ∈ allowedNext s := by
  cases s <;> first | exact absurd rfl h | simp [allowedNext]

/-- **A run can be completed from every other state**, with any final state at any time that is no
regression. -/
theorem completion_prepared {c : RunCheckpoint} (h : c.lifecycle.state ≠ .completed)
    (f : FinalState) (actor : LifecycleActor) {instant : CivilTime}
    (htime : c.lifecycle.updatedAt ≤ instant) :
    ∃ u, prepareStateUpdate c .completed (utc instant) actor (some f.value) = .ok u ∧
      u.nextCheckpoint.lifecycle.state = .completed ∧
      u.nextCheckpoint.lifecycle.updatedAt = instant ∧
      u.nextCheckpoint.lifecycle.finalState = some f := by
  let event : LifecycleTransition :=
    ⟨c.lifecycle.runId, c.lifecycle.revision + 1, c.lifecycle.state, .completed, instant, actor,
      some f, iff_of_true rfl rfl⟩
  have hcontinues : event.Continues c.lifecycle := ⟨rfl, rfl, rfl, htime⟩
  refine ⟨⟨c, ⟨event.snapshot, event⟩, hcontinues, rfl⟩, ?_, rfl, rfl, rfl⟩
  exact prepareStateUpdate_eq_ok_iff.mpr
    ⟨⟨hcontinues, completed_mem_allowedNext h⟩, rfl, rfl, rfl, rfl, rfl⟩

/-! ## Whole runs -/

/-- The updates, in order, take the run of an identity to a checkpoint. -/
def LifecycleRun (identity : RunIdentity) (us : List StateUpdate) (c : RunCheckpoint) : Prop :=
  Steps Prepares (createInitialCheckpoint identity) us c

/-- The checkpoints a run passes through, in order. -/
def checkpoints (identity : RunIdentity) (us : List StateUpdate) : List RunCheckpoint :=
  createInitialCheckpoint identity :: us.map StateUpdate.nextCheckpoint

namespace LifecycleRun

variable {identity : RunIdentity} {us : List StateUpdate} {c : RunCheckpoint}

/-- The events of a run are a history. -/
theorem history (h : LifecycleRun identity us c) : History identity (us.map StateUpdate.event) c :=
  Steps.map (fun hstep ↦ hstep.advances) h

theorem revision_eq (h : LifecycleRun identity us c) : c.lifecycle.revision = us.length := by
  rw [← h.history.length_eq, List.length_map]

/-- **Of any two checkpoints of a run, the one reached first precedes the other.** -/
theorem pairwise_precedes (h : LifecycleRun identity us c) :
    (checkpoints identity us).Pairwise Precedes :=
  Steps.pairwise Precedes.trans
    (fun hstep ↦ ⟨(prepares_iff.mp hstep).2.2.symm, hstep.advances.precedes⟩) h

theorem getLast_checkpoints (h : LifecycleRun identity us c) :
    (checkpoints identity us).getLast? = some c := by
  cases us using List.reverseRecOn with
  | nil => rw [Steps.nil_iff.mp h]; rfl
  | append_singleton us u =>
    obtain ⟨c₁, -, hlast⟩ := Steps.append_iff.mp h
    obtain ⟨c₂, hstep, hc⟩ := Steps.cons_iff.mp hlast
    rw [Steps.nil_iff.mp hc, (prepares_iff.mp hstep).2.2, checkpoints, List.map_append,
      List.map_singleton, ← List.cons_append, List.getLast?_concat]

theorem identity_of_mem (h : LifecycleRun identity us c) {c' : RunCheckpoint}
    (hc' : c' ∈ checkpoints identity us) : c'.identity = identity := by
  rcases List.mem_cons.mp hc' with rfl | hc'
  · rfl
  · obtain ⟨u, hu, rfl⟩ := List.mem_map.mp hc'
    obtain ⟨before, after, rfl⟩ := List.append_of_mem hu
    obtain ⟨c₁, c₂, hbefore, hstep, -⟩ := Steps.exists_step h
    obtain ⟨-, hexpected, -⟩ := prepares_iff.mp hstep
    change u.expected.identity = identity
    rw [hexpected]
    exact History.identity_eq (history hbefore)

/-- **An event of a run connects its neighbours.** -/
theorem connects {before after : List StateUpdate} {u : StateUpdate}
    (h : LifecycleRun identity (before ++ u :: after) c) :
    ∃ c₁ c₂, LifecycleRun identity before c₁ ∧ LifecycleRun identity (before ++ [u]) c₂ ∧
      Connects c₁ u.event c₂ := by
  obtain ⟨c₁, c₂, hbefore, hstep, -⟩ := Steps.exists_step h
  exact ⟨c₁, c₂, hbefore, Steps.snoc hbefore hstep, hstep.advances.connects⟩

end LifecycleRun

/-- **Every run of the lifecycle is a monotone, bounded chain.** -/
theorem lifecycle_run {identity : RunIdentity} {us : List StateUpdate} {c : RunCheckpoint}
    (h : LifecycleRun identity us c) :
    (∀ toState occurredAt actor finalState adv,
        advanceLifecycle c.lifecycle toState occurredAt actor finalState = .ok adv →
          ∃ u c', StateUpdate.new c adv = .ok u ∧
            prepareStateUpdate c toState occurredAt actor finalState = .ok u ∧
            RunCheckpoint.new u.expected.identity u.advance.lifecycle = .ok c') ∧
      c.lifecycle.revision = us.length ∧ c.identity = identity ∧
      (∀ before u after, us = before ++ u :: after →
        ∃ c₁ c₂, LifecycleRun identity before c₁ ∧ LifecycleRun identity (before ++ [u]) c₂ ∧
          Connects c₁ u.event c₂) ∧
      (checkpoints identity us).getLast? = some c ∧
      (checkpoints identity us).Pairwise Precedes ∧
      (∀ c ∈ checkpoints identity us, identity.createdAt ≤ c.lifecycle.updatedAt ∧
        c.identity = identity ∧
        (c.lifecycle.finalState.isSome = true ↔ c.lifecycle.state = .completed)) ∧
      (∀ u ∈ us, u.event.finalState.isSome = true ↔ u.event.toState = .completed) ∧
      (c.lifecycle.state = .completed → ∀ toState occurredAt actor finalState u,
        prepareStateUpdate c toState occurredAt actor finalState ≠ .ok u) ∧
      us.length ≤ 6 ∧
      (c.lifecycle.state ≠ .completed → ∀ f actor instant, c.lifecycle.updatedAt ≤ instant →
        ∃ u, prepareStateUpdate c .completed (utc instant) actor (some f.value) = .ok u ∧
          u.nextCheckpoint.lifecycle.state = .completed ∧
          u.nextCheckpoint.lifecycle.updatedAt = instant ∧
          u.nextCheckpoint.lifecycle.finalState = some f) := by
  refine ⟨fun _ _ _ _ _ hadv ↦ accepted_of_advanceLifecycle hadv, h.revision_eq,
    h.history.identity_eq, fun before u after hus ↦ (hus ▸ h).connects, h.getLast_checkpoints,
    h.pairwise_precedes, fun c' hc' ↦ ?_, fun u _ ↦ u.event.terminal,
    prepareStateUpdate_of_completed, ?_, fun hopen f actor _ ↦ completion_prepared hopen f actor⟩
  · have hid : c'.identity = identity := h.identity_of_mem hc'
    exact ⟨hid ▸ c'.createdAt_le, hid, c'.lifecycle.terminal⟩
  · rw [← h.revision_eq]
    exact h.history.revision_le

/-- A run with one step. -/
theorem lifecycle_run_prepared :
    let identity := storeIdentity qualityLoop
    let u := StateUpdate.fromStart identity storeActor .workspacePrepared (by decide)
    u.nextCheckpoint.lifecycle.revision = 1 ∧
      (checkpoints identity [u]).Pairwise Precedes := by
  intro identity u
  have h : LifecycleRun identity [u] u.nextCheckpoint :=
    .cons (prepares_iff.mpr ⟨StateUpdate.legal_fromStart identity storeActor, rfl, rfl⟩) (.nil _)
  have hrun := lifecycle_run h
  exact ⟨hrun.2.1, hrun.2.2.2.2.2.1⟩

end Alicerce
