import Alicerce.Domain.Workspace
import Alicerce.Py.DateTime

/-!
# Commands

The immutable values of controlled command execution: what is requested, and what came of it.

* `ExecutableId`, `CommandAction`, `WorkingDirectory`, `EnvironmentVariable` and `CommandLimits` are
  the parts of a request, and `CommandRequest` is one.  Each structure carries what its constructor
  checks as a field, so that a request whose arguments contain a NUL, or a limit that is not
  positive, cannot be built.
* `ExecutionResult` is different: it is built from what a sandbox reports, which nothing vouches
  for, so its constructor is here with its checks in their order and their errors
  (`ExecutionResult.new`).
* `ExecutionResult.new_eq_ok_iff`: a result holds what it was built from.
-/

set_option autoImplicit false

namespace Alicerce

open Py

/-! ## The parts of a request -/

/-- `[a-z][a-z0-9._-]{0,63}\Z`. -/
def executableIdPattern : Text → Bool :=
  matchesHeadTail (range 'a' 'z') (((range 'a' 'z').or (range '0' '9')).or (oneOf "._-")) 63

/-- `[A-Za-z0-9][A-Za-z0-9._:-]{0,127}\Z`. -/
def actionPattern : Text → Bool := matchesHeadTail alphanumeric (alphanumeric.or (oneOf "._:-")) 127

/-- `[A-Za-z_]`. -/
def nameStart : CharClass := ((range 'A' 'Z').or (range 'a' 'z')).or (oneOf "_")

/-- `[A-Za-z_][A-Za-z0-9_]*\Z`. -/
def environmentNamePattern : Text → Bool
  | [] => false
  | c :: t => nameStart c && t.all (nameStart.or (range '0' '9'))

/-- Logical identifier mapped to a trusted executable by an adapter. -/
abbrev ExecutableId := Checked (requireFormat "executable_id" executableIdPattern)

/-- Semantic action name checked against trusted run policy before spawn. -/
abbrev CommandAction := Checked (requireFormat "command_action" actionPattern)

/-- The character that separates the parts of a path. -/
def slash : CodePoint := .scalar '/'

/-- `PurePosixPath(value).parts` of a relative path: empty parts and dots are dropped. -/
def posixParts (value : Text) : List Text :=
  (value.splitOn slash).filter fun part ↦ part ≠ [] ∧ part ≠ "."

/-- `PurePosixPath(value).as_posix()` of a relative path. -/
def asPosix (value : Text) : Text :=
  if posixParts value = [] then "." else [slash].intercalate (posixParts value)

/-- The check of `WorkingDirectory`. -/
def requireWorkingDirectory (value : Text) : Except Exc Text :=
  if value = "." then .ok value
  else if value = [] ∨ .scalar (Char.ofNat 0) ∈ value ∨ .scalar '\\' ∈ value ∨
      value.head? = some slash ∨ asPosix value ≠ value ∨
      (posixParts value).any (fun part ↦ part = "." ∨ part = "..") then
    .error (.valueError "working_directory must be a normalized relative POSIX path")
  else .ok value

/-- Normalized POSIX-relative directory inside an opaque workspace. -/
abbrev WorkingDirectory := Checked requireWorkingDirectory

/-- A text without a NUL, which is what an argument vector can hold. -/
def WithoutNul (t : Text) : Prop := .scalar (Char.ofNat 0) ∉ t

instance (t : Text) : Decidable (WithoutNul t) := inferInstanceAs (Decidable (_ ∉ t))

/-- The texts are in strictly ascending order: `unique and sorted`. -/
def StrictlySorted (names : List Text) : Prop :=
  names.Pairwise fun a b ↦ a.map CodePoint.ord < b.map CodePoint.ord

instance (names : List Text) : Decidable (StrictlySorted names) :=
  inferInstanceAs (Decidable (names.Pairwise _))

/-- One explicitly permitted environment entry. -/
@[ext]
structure EnvironmentVariable where
  name : Text
  value : Text
  name_valid : environmentNamePattern name = true
  value_valid : WithoutNul value
deriving DecidableEq

/-- Network authority requested for one execution. -/
inductive NetworkPolicy
  | denyAll
deriving DecidableEq

/-- `.value`. -/
def NetworkPolicy.value : NetworkPolicy → Text
  | denyAll => "deny_all"

/-- Hard execution and captured-output ceilings. -/
@[ext]
structure CommandLimits where
  timeoutMs : ℕ
  terminationGraceMs : ℕ
  stdoutMaxBytes : ℕ
  stderrMaxBytes : ℕ
  timeoutMs_pos : 0 < timeoutMs
  terminationGraceMs_pos : 0 < terminationGraceMs
  stdoutMaxBytes_pos : 0 < stdoutMaxBytes
  stderrMaxBytes_pos : 0 < stderrMaxBytes
deriving DecidableEq

/-- Trusted execution request addressed through a workspace capability. -/
@[ext]
structure CommandRequest where
  runIdentity : RunIdentity
  workspace : WorkspaceIdentity
  action : CommandAction
  executable : ExecutableId
  arguments : List Text
  workingDirectory : WorkingDirectory
  environment : List EnvironmentVariable
  networkPolicy : NetworkPolicy
  limits : CommandLimits
  /-- The workspace matches the complete run identity. -/
  bound : workspace.runId = runIdentity.runId ∧ workspace.baselineSha = runIdentity.baselineSha
  arguments_valid : ∀ argument ∈ arguments, WithoutNul argument
  environment_sorted : StrictlySorted (environment.map (·.name))
deriving DecidableEq

/-! ## Results -/

/-- Stable reason that command execution stopped. -/
inductive ExecutionTermination
  | exited
  | timedOut
  | cancelled
  | outputLimit
deriving DecidableEq

/-- Bounded operational result that is never authoritative evidence itself. -/
@[ext]
structure ExecutionResult where
  request : CommandRequest
  termination : ExecutionTermination
  exitCode : Option ℤ
  stdout : Bytes
  stderr : Bytes
  /-- In UTC. -/
  startedAt : CivilTime
  /-- In UTC. -/
  finishedAt : CivilTime
  exitCode_iff : exitCode.isSome = true ↔ termination = .exited
  stdout_le : stdout.size ≤ request.limits.stdoutMaxBytes
  stderr_le : stderr.size ≤ request.limits.stderrMaxBytes
  ordered : startedAt ≤ finishedAt
deriving DecidableEq

/-- The check of the exit code. -/
def requireExitCode (termination : ExecutionTermination) (exitCode : Option ℤ) : Except Exc Unit :=
  match termination, exitCode with
  | .exited, none => .error (.typeError "exit_code must be an integer for an exited command")
  | .exited, some _ => .ok ()
  | _, some _ => .error (.valueError
      "exit_code must be None when a command did not exit normally")
  | _, none => .ok ()

theorem requireExitCode_eq_ok_iff {termination : ExecutionTermination} {exitCode : Option ℤ} :
    requireExitCode termination exitCode = .ok () ↔
      (exitCode.isSome = true ↔ termination = .exited) := by
  cases termination <;> cases exitCode <;> simp [requireExitCode]

/-- The constructor. -/
def ExecutionResult.new (request : CommandRequest) (termination : ExecutionTermination)
    (exitCode : Option ℤ) (stdout stderr : Bytes) (startedAt finishedAt : DateTime) :
    Except Exc ExecutionResult :=
  match h : requireExitCode termination exitCode with
  | .error e => .error e
  | .ok () =>
    if hout : request.limits.stdoutMaxBytes < stdout.size then
      .error (.valueError "stdout exceeds its configured ceiling")
    else if herr : request.limits.stderrMaxBytes < stderr.size then
      .error (.valueError "stderr exceeds its configured ceiling")
    else if startedAt.tzinfo ≠ .utc ∨ finishedAt.tzinfo ≠ .utc then
      .error (.valueError "execution timestamps must use UTC timezone")
    else if htime : finishedAt.civil < startedAt.civil then
      .error (.valueError "finished_at cannot precede started_at")
    else .ok ⟨request, termination, exitCode, stdout, stderr, startedAt.civil, finishedAt.civil,
      requireExitCode_eq_ok_iff.mp h, Nat.not_lt.mp hout, Nat.not_lt.mp herr, le_of_not_gt htime⟩

/-- **What a result holds is what it was built from**, and it can be built when the checks pass. -/
theorem ExecutionResult.new_eq_ok_iff {request : CommandRequest}
    {termination : ExecutionTermination}
    {exitCode : Option ℤ} {stdout stderr : Bytes} {startedAt finishedAt : DateTime}
    {r : ExecutionResult} :
    new request termination exitCode stdout stderr startedAt finishedAt = .ok r ↔
      r.request = request ∧ r.termination = termination ∧ r.exitCode = exitCode ∧
        r.stdout = stdout ∧ r.stderr = stderr ∧ utc r.startedAt = startedAt ∧
          utc r.finishedAt = finishedAt := by
  constructor
  · intro h
    rw [new] at h
    split at h
    · exact absurd h (by simp)
    iterate 4 (split at h; · exact absurd h (by simp))
    rename_i hutc _
    rw [not_or, not_not, not_not] at hutc
    obtain rfl := Except.ok.inj h
    obtain ⟨_, tz⟩ := startedAt
    obtain ⟨_, tz'⟩ := finishedAt
    obtain ⟨rfl, rfl⟩ : tz = .utc ∧ tz' = .utc := hutc
    exact ⟨rfl, rfl, rfl, rfl, rfl, rfl, rfl⟩
  · rintro ⟨rfl, rfl, rfl, rfl, rfl, rfl, rfl⟩
    rw [new]
    split
    · rename_i e he
      exact absurd (he.symm.trans (requireExitCode_eq_ok_iff.mpr r.exitCode_iff)) (by simp)
    · rw [dif_neg (Nat.not_lt.mpr r.stdout_le), dif_neg (Nat.not_lt.mpr r.stderr_le),
        if_neg (by simp [utc]),
        dif_neg (show ¬(utc r.finishedAt).civil < (utc r.startedAt).civil from
          not_lt_of_ge r.ordered)]
      rfl

/-! ## A request -/

/-- The limits of a minute, with five seconds of grace and a page of output. -/
def minuteLimits : CommandLimits :=
  ⟨60000, 5000, 4096, 4096, by decide, by decide, by decide, by decide⟩

/-- A request to run the tests of a run's workspace. -/
def testRequest (identity : RunIdentity) : CommandRequest where
  runIdentity := identity
  workspace := ⟨⟨"workspace-1", by decide⟩, identity.runId, identity.baselineSha⟩
  action := ⟨"tests", by decide⟩
  executable := ⟨"uv", by decide⟩
  arguments := ["run", "pytest"]
  workingDirectory := ⟨".", by decide⟩
  environment := []
  networkPolicy := .denyAll
  limits := minuteLimits
  bound := ⟨rfl, rfl⟩
  arguments_valid := by decide
  environment_sorted := by decide

end Alicerce
