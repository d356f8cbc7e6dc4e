import Alicerce.Adapters.Candidates
import Alicerce.Adapters.PinnedStarts
import Alicerce.Application.CommandExecution

/-!
# What a result stands for

The other half of where exceptions come from: what it takes for the use case to return a result.

* `Executed`: the sandbox has executed the command in the leased workspace, between looks at an
  executable that was each time what it was pinned as, and the workspace was found valid before and
  after.
* `executeAuthorizedCommand_returns`: whenever a result is returned, the policy permits the request,
  the command was executed, and the result holds what the sandbox reported.
-/

set_option autoImplicit false

namespace Alicerce

open Py Lib

section

variable {executor : LocalCommandExecutor} {backend : LinuxProcessSandboxBackend}
  {executable : TrustedExecutable} {record : WorkspaceRecord} {request : CommandRequest}
  {policy : CommandPolicy} {fuel fuel' : ℕ} {registry : Registry} {log : OsLog} {root : Path}
  {result : ExecutionResult}

/-- The command was executed in its leased workspace, and the executable was looked at before and
after; the result is what the sandbox has reported, and the output in it is what the command has
written, up to the limits. -/
structure Executed (backend : LinuxProcessSandboxBackend) (fuel : ℕ) (request : CommandRequest)
    (executable : TrustedExecutable) (root : Path) (log : OsLog) (result : ExecutionResult)
    (workingDirectory : Path) (answer : SandboxResult) : Prop where
  reported : resultOf request answer = .ok result
  parts : ∃ resolved run before after,
    log = resolved ++ (pinLog executable.path before ++ (run ++ pinLog executable.path after)) ∧
    (sha256 before = executable.sha256 ∧ sha256 after = executable.sha256) ∧
    (resolveWorkingDirectory root request.workingDirectory).Returns resolved
      (.ok workingDirectory) ∧
    (backend.execute fuel (invocationOf executable request root workingDirectory)).Returns run
      (.ok answer) ∧
    ∀ written spurious pipes, Steps Pipes.Step ⟨written, spurious⟩ run pipes →
      Exact request.limits written answer

theorem executed_of_runLeased (hsandbox : executor.sandbox = backend.seam fuel')
    (h : (executor.runLeased request executable root).Returns log (.ok result)) :
    ∃ workingDirectory answer,
      Executed backend fuel' request executable root log result workingDirectory answer := by
  rw [LocalCommandExecutor.runLeased, hsandbox] at h
  obtain ⟨resolved, _, workingDirectory, rfl, hresolved, h₁⟩ := Action.returns_bind_ok.mp h
  obtain ⟨_, _, ⟨⟩, rfl, hverified, h₂⟩ := Action.returns_bind_ok.mp h₁
  obtain ⟨run, _, answer, rfl, hrun, h₃⟩ := Action.returns_bind_ok.mp h₂
  obtain ⟨_, _, ⟨⟩, rfl, hverifiedAgain, h₄⟩ := Action.returns_bind_ok.mp h₃
  obtain ⟨rfl, hresult⟩ := Action.returns_lift.mp h₄
  obtain ⟨before, rfl, hbefore⟩ := TrustedExecutable.verify_returns_iff.mp hverified
  obtain ⟨after, rfl, hafter⟩ := TrustedExecutable.verify_returns_iff.mp hverifiedAgain
  have hexecuted : (backend.execute fuel' (invocationOf executable request root
      workingDirectory)).Returns run (.ok answer) := returns_translate_ok.mp hrun
  refine ⟨workingDirectory, answer, hresult.symm, resolved, run, before, after, by simp,
    ⟨hbefore, hafter⟩, hresolved, hexecuted, fun written spurious pipes hpipes ↦ ?_⟩
  exact ((execute_ensures spurious).of_returns hexecuted hpipes).exact

/-- **What a result stands for.** -/
theorem executeAuthorizedCommand_returns (hsandbox : executor.sandbox = backend.seam fuel')
    (h : (executeAuthorizedCommand request policy (executor.execute fuel registry)).Returns log
      (.ok result)) :
    ∃ command executable record supported pinned entered leased left,
      (authorizeCommand request policy = .ok command ∧
        executor.lookup request.executable = some executable ∧
        registry.records request.workspace.workspaceId = some record ∧
        record.identity = request.workspace) ∧
      log = supported ++ (pinLog executable.path pinned ++ (entered ++ (leased ++ left))) ∧
      (backend.supports request.networkPolicy).Returns supported (.ok true) ∧
      sha256 pinned = executable.sha256 ∧
      executor.workspace.Passed fuel record entered ∧
      (∃ workingDirectory answer, Executed backend fuel' request executable record.path leased
        result workingDirectory answer) ∧
      executor.workspace.Passed fuel record left := by
  rw [executeAuthorizedCommand] at h
  cases hauth : authorizeCommand request policy with
  | error e =>
    rw [hauth, Action.lift_error_bind] at h
    exact absurd (Action.returns_raise.mp h).2 (by simp)
  | ok command =>
    obtain ⟨rfl, -⟩ := authorizeCommand_eq_ok_iff.mp hauth
    rw [hauth, Action.lift_ok_bind, LocalCommandExecutor.execute, reauthorize_eq,
      Action.lift_ok_bind, hsandbox] at h
    obtain ⟨_, _, executable, rfl, hfound, hasks⟩ := Action.returns_bind_ok.mp h
    obtain ⟨rfl, hlookup⟩ := Action.returns_lift.mp hfound
    obtain ⟨supported, _, supports, rfl, hsupported, hverifies⟩ := Action.returns_bind_ok.mp hasks
    cases supports with
    | false => exact absurd (Action.returns_raise.mp hverifies).2 (by simp)
    | true =>
      obtain ⟨_, _, ⟨⟩, rfl, hverified, hleases⟩ := Action.returns_bind_ok.mp hverifies
      obtain ⟨pinned, rfl, hpinned⟩ := TrustedExecutable.verify_returns_iff.mp hverified
      obtain ⟨entered, _, record, rfl, hentered, hruns⟩ :=
        Action.returns_bind_ok.mp (returns_translate_ok.mp hleases)
      obtain ⟨hknown, hvalid⟩ := enterLease_returns hentered
      obtain ⟨leased, left, _, rfl, hleased, ⟨hleft, rfl⟩ | ⟨_, -, he⟩⟩ :=
        Action.returns_tryFinally.mp hruns
      swap
      · exact absurd he (by simp)
      exact ⟨command, executable, record, supported, pinned, entered, leased, left,
        ⟨rfl, lookup_of_requireExecutable hlookup.symm, hknown⟩, rfl, hsupported, hpinned,
        LocalGitWorkspace.passed_of_validateRecord hvalid, executed_of_runLeased hsandbox hleased,
        LocalGitWorkspace.passed_of_validateRecord hleft⟩

end

/-- A run whose tests are executed as they are requested. -/
theorem executeAuthorizedCommand_returns_tests : ∃ log result,
    (executeAuthorizedCommand (testRequest localRun) (testPolicy localRun)
      ((localExecutor (testBackend.seam 9)).execute 9
        (Registry.empty.publish localRecord))).Returns log (.ok result) ∧
    ∃ record before after, before <:+: log ∧ after <:+ log ∧
      localWorkspace.Passed 9 record before ∧ localWorkspace.Passed 9 record after := by
  have hplay : (Interaction.play (obligingHost headOutput)
      (executeAuthorizedCommand (testRequest localRun) (testPolicy localRun)
        ((localExecutor (testBackend.seam 9)).execute 9 (Registry.empty.publish localRecord)))
      []).2.map Except.isOk = some true := by
    decide +kernel
  obtain ⟨x, hx, hok⟩ := Option.map_eq_some_iff.mp hplay
  cases x with
  | error e => exact absurd hok (by simp [Except.isOk, Except.toBool])
  | ok result =>
    have hreturns := Interaction.returns_play hx
    obtain ⟨command, executable, record, supported, pinned, entered, leased, left, -, hlog, -, -,
      hentered, -, hleft⟩ := executeAuthorizedCommand_returns rfl hreturns
    refine ⟨_, result, hreturns, record, entered, left, ?_, ?_, hentered, hleft⟩
    · exact ⟨supported ++ pinLog executable.path pinned, leased ++ left, by rw [hlog]; simp⟩
    · exact ⟨supported ++
        (pinLog executable.path pinned ++ (entered ++ leased)), by rw [hlog]; simp⟩

end Alicerce
