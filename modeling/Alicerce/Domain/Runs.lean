import Alicerce.Domain.State
import Mathlib.Logic.Function.Basic

/-!
# What a state store is for

The state of a store as its clients should see it: for each run, nothing, or a checkpoint together
with the legal history that leads to it.  A run is created by its identity and then only grows, by
updates that expect exactly the checkpoint it has reached.

* `Run` is a run, with its history as a field, and `Runs` are those of a store.
* `Run.append` is a run after a legal update that expects its checkpoint.
* `Chain` is the discipline this imposes on the updates of one run: each expects what the one before
  it led to (`Links`).
* `Chain.nodup`: revisions count the links, so no checkpoint is expected twice.
-/

set_option autoImplicit false

namespace Alicerce

open Lib

/-- A run: its current checkpoint, and the history that leads to it. -/
@[ext]
structure Run where
  checkpoint : RunCheckpoint
  events : List LifecycleTransition
  /-- The events lead from the initial checkpoint to the current one. -/
  history : History checkpoint.identity events checkpoint

namespace Run

/-- A run that has just been created. -/
def start (identity : RunIdentity) : Run where
  checkpoint := createInitialCheckpoint identity
  events := []
  history := .nil _

/-- A run after a legal update that expects its checkpoint. -/
def append (run : Run) (u : StateUpdate) (hexpected : run.checkpoint = u.expected)
    (hlegal : u.Legal) : Run where
  checkpoint := u.nextCheckpoint
  events := run.events ++ [u.event]
  history := by
    have hrun := run.history
    rw [hexpected] at hrun
    exact hrun.snoc (StateUpdate.advances_iff.mpr hlegal)

end Run

/-- The runs of a store. -/
abbrev Runs : Type := RunId → Option Run

namespace Runs

/-- No run at all. -/
def empty : Runs := fun _ ↦ none

/-- The runs with one of them replaced. -/
def set (m : Runs) (runId : RunId) (run : Run) : Runs := Function.update m runId (some run)

@[simp] theorem set_self (m : Runs) (runId : RunId) (run : Run) :
    m.set runId run runId = some run := Function.update_self ..

theorem set_of_ne (m : Runs) {runId r : RunId} (run : Run) (h : r ≠ runId) :
    m.set runId run r = m r := Function.update_of_ne h ..

end Runs

/-! ## Chains of updates -/

/-- One update takes a run from the checkpoint it expects to its next checkpoint. -/
def Links (c : RunCheckpoint) (u : StateUpdate) (c' : RunCheckpoint) : Prop :=
  u.expected = c ∧ u.nextCheckpoint = c'

/-- The updates, in order, take a run from one checkpoint to another: the first expects the one,
each later update expects what the previous one led to, and the last leads to the other. -/
def Chain : RunCheckpoint → List StateUpdate → RunCheckpoint → Prop := Steps Links

namespace Chain

variable {c c' : RunCheckpoint} {us : List StateUpdate}

theorem revisions (h : Chain c us c') :
    us.map (fun u ↦ u.expected.lifecycle.revision) =
      List.range' c.lifecycle.revision us.length := by
  refine Steps.map_eq_range' (m := fun c ↦ c.lifecycle.revision) (fun {s t u} hlink ↦ ?_) h
  obtain ⟨rfl, rfl⟩ := hlink
  refine ⟨rfl, ?_⟩
  change u.advance.lifecycle.revision = _
  rw [u.lifecycle_eq_snapshot]
  exact u.continues.revision

theorem identity_eq (h : Chain c us c') : c'.identity = c.identity :=
  Steps.preserves (P := fun c' ↦ c'.identity = c.identity)
    (fun hs hlink ↦ by obtain ⟨rfl, rfl⟩ := hlink; exact hs) h rfl

/-- **No two updates of a chain expect the same checkpoint.** -/
theorem nodup (h : Chain c us c') : (us.map StateUpdate.expected).Nodup := by
  have hmap : (us.map StateUpdate.expected).map (fun c ↦ c.lifecycle.revision) =
      List.range' c.lifecycle.revision us.length := by
    rw [List.map_map]
    exact h.revisions
  exact List.Nodup.of_map _ (hmap ▸ List.nodup_range')

end Chain

end Alicerce
