import Alicerce.Domain.RunIdentity

/-!
# Workspace identities

The capability handle of a candidate workspace, and what it is bound to.

* `WorkspaceId` and `CandidateSha` are texts that pass a pattern.  The wrappers of this package
  check nothing else (`requireFormat`), so a text that `requirePattern` would refuse for its
  whitespace is refused here for its shape.
* `WorkspaceIdentity` binds a handle to the baseline of a run, and `CandidateIdentity` a snapshot to
  the workspace it was taken of (`bindCandidate`).
-/

set_option autoImplicit false

namespace Alicerce

open Py

/-- `_require_pattern` of the modules on workspaces and commands. -/
def requireFormat (name : String) (pattern : Text → Bool) (value : Text) : Except Exc Text :=
  if pattern value then .ok value else .error (.valueError (text name ++ " has an invalid format"))

theorem pattern_of_requireFormat {name : String} {pattern : Text → Bool} {value : Text}
    (h : (requireFormat name pattern value).isOk = true) : pattern value = true := by
  rw [requireFormat] at h
  split at h
  · assumption
  · exact absurd h (by simp [Except.isOk, Except.toBool])

/-- `[A-Za-z0-9][A-Za-z0-9._-]{0,127}\Z`, the shape of a workspace id, which is that of a run id. -/
def workspaceIdPattern : Text → Bool := runIdPattern

/-- `(?:[0-9a-f]{40}|[0-9a-f]{64})\Z`, the shape of a candidate, which is that of a baseline. -/
def candidateShaPattern : Text → Bool := baselineShaPattern

/-- Opaque path-safe capability handle for one local workspace. -/
abbrev WorkspaceId := Checked (requireFormat "workspace_id" workspaceIdPattern)

/-- Complete immutable object identity for one candidate snapshot. -/
abbrev CandidateSha := Checked (requireFormat "candidate_sha" candidateShaPattern)

/-- Immutable binding from a capability handle to one run baseline. -/
@[ext]
structure WorkspaceIdentity where
  workspaceId : WorkspaceId
  runId : RunId
  baselineSha : BaselineSha
deriving DecidableEq

/-- Immutable candidate snapshot bound to its originating workspace. -/
@[ext]
structure CandidateIdentity where
  workspace : WorkspaceIdentity
  candidateSha : CandidateSha
deriving DecidableEq

/-- Bind a trusted snapshot identity without filesystem or Git behavior. -/
def bindCandidate (workspace : WorkspaceIdentity) (candidateSha : CandidateSha) :
    CandidateIdentity := ⟨workspace, candidateSha⟩

end Alicerce
