import Alicerce.Adapters.GitWorkspace
import Alicerce.Adapters.LinuxProcessSandbox
import Alicerce.Domain.CommandPolicy

/-!
# The local command executor

The coordination of an authorized command: it authorizes the request again, resolves the executable,
asks the sandbox, leases the workspace, and between these steps checks that what was pinned is still
what is there.

* `TrustedExecutable` is a pinned executable, and `TrustedExecutable.verify` looks at it again.
* `ProcessSandboxBackend` is the backend, a parameter: this package's own
  (`LinuxProcessSandboxBackend.seam`), or one of which nothing is known but its answers
  (`foreignBackend`).
* `LocalCommandExecutor` is the executor, and `LocalCommandExecutor.execute` what it does with a
  command; `runLeased` is the part of it inside the lease.
* `resolveWorkingDirectory` finds the directory of a command, with the loop `descend`.
* `localExecutor` and `testCommand` are an executor and a command for examples.
-/

set_option autoImplicit false

namespace Alicerce

open Py Lib

/-- `CommandExecutionError`. -/
def commandExecutionError (cause : CommandExecutionErrorCause) (detail : Text) : Exc :=
  .commandExecutionError cause detail

/-! ## What an executor is made of -/

/-- Pinned logical executable mapped to one exact local file. -/
structure TrustedExecutable where
  executableId : ExecutableId
  path : Path
  sha256 : Bytes
deriving DecidableEq

/-- `TrustedExecutable.verify`. -/
def TrustedExecutable.verify (executable : TrustedExecutable) : Os Unit :=
  Os.translate Exc.isOsError
    (fun _ ↦ commandExecutionError .executableUnavailable "trusted executable is unavailable") do
    if ← pinChanged executable.path executable.sha256 then
      .raise (commandExecutionError .isolationFailure "trusted executable changed")

/-- Execute only invocations prepared by the local coordinator. -/
structure ProcessSandboxBackend where
  supports : NetworkPolicy → Os Bool
  execute : SandboxInvocation → Os SandboxResult

/-- A backend of which nothing is known but its answers. -/
def foreignBackend : ProcessSandboxBackend where
  supports networkPolicy := .ask (.backendSupports networkPolicy) id
  execute invocation := .ask (.backendExecute invocation) id

/-- This package's backend. -/
def LinuxProcessSandboxBackend.seam (backend : LinuxProcessSandboxBackend) (fuel : ℕ) :
    ProcessSandboxBackend where
  supports := backend.supports
  execute := backend.execute fuel

/-- Coordinate trusted local execution without implementing a process backend. -/
structure LocalCommandExecutor where
  workspace : LocalGitWorkspace
  executables : List TrustedExecutable
  sandbox : ProcessSandboxBackend
  /-- `executables must be unique and sorted by identifier`. -/
  sorted : StrictlySorted (executables.map (·.executableId.value))

/-! ## Steps -/

/-- `_translate_sandbox_error`. -/
def translateSandboxError : Exc → Exc
  | .sandboxError cause _ =>
    commandExecutionError
      (match cause with
        | .spawnFailed => .spawnFailed
        | .cleanupFailed => .cleanupFailed
        | .isolationFailure => .isolationFailure)
      "process sandbox failed"
  | e => e

/-- What a failed lease is reported as. -/
def translateLeaseError : Exc → Exc
  | .workspaceError cause _ =>
    commandExecutionError
      (if cause = .notFound then .workspaceNotFound else .isolationFailure)
      "workspace execution lease failed"
  | e => e

/-- The loop of `_resolve_working_directory`: the path, no part of which is a link. -/
def descend : Path → List Text → Os Path
  | candidate, [] => pure candidate
  | candidate, part :: parts => do
    let candidate := candidate.join part
    if ← Os.isSymlink candidate then
      .raise (commandExecutionError .isolationFailure "working directory traverses a symlink")
    else descend candidate parts

/-- `_resolve_working_directory`. -/
def resolveWorkingDirectory (root : Path) (relative : WorkingDirectory) : Os Path := do
  let parts := if relative.value = text "." then [] else posixParts relative.value
  let candidate ← descend root parts
  let resolved ← Os.translate Exc.isOsError
    (fun _ ↦ commandExecutionError .isolationFailure "working directory is unavailable")
    (Os.resolve candidate)
  if ← Os.or (do return !(← Os.isDir resolved)) (pure (decide ¬resolved.IsRelativeTo root)) then
    .raise (commandExecutionError .isolationFailure "working directory escapes its workspace")
  else return resolved

/-- The invocation of a command. -/
def invocationOf (executable : TrustedExecutable) (request : CommandRequest)
    (root workingDirectory : Path) : SandboxInvocation where
  executable := executable.path
  arguments := request.arguments
  workspaceRoot := root
  workingDirectory := workingDirectory
  environment := request.environment
  networkPolicy := request.networkPolicy
  limits := request.limits

/-- The result of a command, of what the sandbox says. -/
def resultOf (request : CommandRequest) (result : SandboxResult) : Except Exc ExecutionResult :=
  Py.translate Exc.isTypeOrValueError
    (fun _ ↦ commandExecutionError .isolationFailure "sandbox returned an invalid result")
    (ExecutionResult.new request result.termination result.exitCode result.stdout result.stderr
      result.startedAt result.finishedAt)

namespace LocalCommandExecutor

variable (executor : LocalCommandExecutor)

/-- `_executables.get`. -/
def lookup (executableId : ExecutableId) : Option TrustedExecutable :=
  executor.executables.find? fun executable ↦ executable.executableId = executableId

/-- The first check of `execute`. -/
def reauthorize (command : AuthorizedCommand) : Except Exc Unit := do
  let reauthorized ← Py.translate Exc.isCommandAuthorizationError
    (fun _ ↦ commandExecutionError .policyDenied "command authorization failed")
    (authorizeCommand command.request command.policy)
  if reauthorized ≠ command then
    .error (commandExecutionError .policyDenied "command authorization changed")
  else .ok ()

/-- The executable of a command. -/
def requireExecutable (command : AuthorizedCommand) : Except Exc TrustedExecutable :=
  match executor.lookup command.request.executable with
  | some executable => .ok executable
  | none => .error (commandExecutionError .executableUnavailable command.request.executable.value)

/-- What `execute` does with the leased workspace. -/
def runLeased (request : CommandRequest) (executable : TrustedExecutable) (root : Path) :
    Os ExecutionResult := do
  let workingDirectory ← resolveWorkingDirectory root request.workingDirectory
  executable.verify
  let result ← Os.translate Exc.isSandboxError translateSandboxError
    (executor.sandbox.execute (invocationOf executable request root workingDirectory))
  executable.verify
  .lift (resultOf request result)

/-- `execute`. -/
def execute (fuel : ℕ) (registry : Registry) (command : AuthorizedCommand) :
    Os ExecutionResult := do
  .lift (reauthorize command)
  let executable ← .lift (executor.requireExecutable command)
  if !(← executor.sandbox.supports command.request.networkPolicy) then
    .raise (commandExecutionError .policyDenied "sandbox cannot enforce requested network policy")
  else do
    executable.verify
    Os.translate Exc.isWorkspaceError translateLeaseError
      (executor.workspace.executionLease fuel registry command.request.workspace fun root ↦
        executor.runLeased command.request executable root)

end LocalCommandExecutor

/-! ## A command and its executor -/

/-- The rule that permits exactly the tests of a run. -/
def testRule (identity : RunIdentity) : CommandRule where
  action := (testRequest identity).action
  executable := (testRequest identity).executable
  arguments := (testRequest identity).arguments
  workingDirectory := (testRequest identity).workingDirectory
  environmentNames := []
  networkPolicy := .denyAll
  maxLimits := minuteLimits
  arguments_valid := (testRequest identity).arguments_valid
  environmentNames_valid := by simp
  environmentNames_sorted := .nil

/-- A policy of that rule. -/
def testPolicy (identity : RunIdentity) : CommandPolicy where
  policyHash := identity.policyHash
  actions := ⟨["tests"], []⟩
  rules := [testRule identity]
  rules_sorted := List.pairwise_singleton ..
  rules_permitted := by
    intro rule hrule
    obtain rfl := List.mem_singleton.mp hrule
    exact ⟨List.mem_singleton_self _, List.not_mem_nil⟩

/-- The tests of the run, authorized. -/
def testCommand : AuthorizedCommand :=
  ⟨testRequest localRun, testPolicy localRun, testRule localRun, by decide +kernel⟩

/-- The executable of the tests. -/
def testExecutable : TrustedExecutable :=
  ⟨(testRequest localRun).executable, ⟨["usr", "bin", "uv"]⟩, sha256 ⟨#[]⟩⟩

/-- An executor that knows that executable. -/
def localExecutor (sandbox : ProcessSandboxBackend) : LocalCommandExecutor :=
  ⟨localWorkspace, [testExecutable], sandbox, List.pairwise_singleton ..⟩

end Alicerce
