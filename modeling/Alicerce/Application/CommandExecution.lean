import Alicerce.Adapters.CommandFailures
import Alicerce.Adapters.ProcessExits

/-!
# Authorized command execution

The use case that authorizes a request before any executor sees it, and what comes of it when it
fails.

* `executeAuthorizedCommand` is the use case.
* `Explains` says by the cause of a `CommandExecutionError` what has happened: which looks found
  what, which call failed.
* `supports_returns` and `supports_raises` are about the first check of the pinned sandbox, which
  stands outside of every handler.
* `executeAuthorizedCommand_raises` says of every exception that leaves the use case where it comes
  from: the policy, what the executor reports by its cause, the first check of the sandbox, or one
  of the exceptions that no handler expects.
-/

set_option autoImplicit false

namespace Alicerce

open Py Lib

/-- `execute_authorized_command`, by what the executor does with a command. -/
def executeAuthorizedCommand (request : CommandRequest) (policy : CommandPolicy)
    (execute : AuthorizedCommand → Os ExecutionResult) : Os ExecutionResult := do
  let authorized ← .lift (authorizeCommand request policy)
  execute authorized

/-! ## What a cause says -/

/-- What has happened when a command is reported to have failed of a cause. -/
inductive Explains (executor : LocalCommandExecutor) (registry : Registry)
    (request : CommandRequest) (log : OsLog) : CommandExecutionErrorCause → Prop
  /-- The sandbox was probed, without success, and nothing else was run. -/
  | denied {argv : List Text} {answer : Except ProbeError ℤ} :
      (∀ event ∈ log, OsCall.Looks event.1) → ⟨.runProbe argv, answer⟩ ∈ log → answer ≠ .ok 0 →
      Explains executor registry request log .policyDenied
  | unknown : log = [] → executor.lookup request.executable = none →
    Explains executor registry request log .executableUnavailable
  | unreadable {executable : TrustedExecutable} :
      executor.lookup request.executable = some executable →
    Happened (Refuses executable.path) log →
      Explains executor registry request log .executableUnavailable
  | absent : (∀ event ∈ log, OsCall.Looks event.1) →
    registry.records request.workspace.workspaceId = none →
      Explains executor registry request log .workspaceNotFound
  | spawn {argv : List Text} {error : OsError} :
    ⟨.popen argv rootDirectory [], .error (.os error)⟩ ∈ log →
      Explains executor registry request log .spawnFailed
  | cleanup {argv : List Text} {process : Process} :
    ⟨.popen argv rootDirectory [], .ok process⟩ ∈ log →
      Explains executor registry request log .cleanupFailed
  | isolation : Explains executor registry request log .isolationFailure

section

variable {executor : LocalCommandExecutor} {backend : LinuxProcessSandboxBackend}
  {networkPolicy : NetworkPolicy} {executable : TrustedExecutable} {request : CommandRequest}
  {policy : CommandPolicy} {command : AuthorizedCommand} {git : ControlledGitCli}
  {limits : CommandLimits} {fuel fuel' : ℕ} {registry : Registry} {log : OsLog} {e : Exc}

theorem explains_of_commandFailure (hlookup : executor.lookup request.executable = some executable)
    (h : CommandFailure executable log e) :
    ∃ cause detail, e = commandExecutionError cause detail ∧
      Explains executor registry request log cause := by
  cases h with
  | unreadable hrefused => exact ⟨_, _, rfl, .unreadable hlookup hrefused⟩
  | isolation => exact ⟨_, _, rfl, .isolation⟩
  | spawn hmem => exact ⟨_, _, rfl, .spawn hmem⟩
  | cleanup hmem => exact ⟨_, _, rfl, .cleanup hmem⟩

/-! ## The probe -/

/-- How an answer of the probe is taken. -/
def Probes (answer : Except ProbeError ℤ) (x : Except Exc Bool) : Prop :=
  (∃ status, answer = .ok status ∧ x = .ok (decide (status = 0))) ∨
    (∃ error, answer = .error error ∧ x = .ok false) ∨
      answer = .error .encode ∧ x = .error .unicodeEncodeError

/-- **The sandbox is asked** for its isolation: the binary is not as it was pinned, or it is
probed. -/
theorem supports_returns {x : Except Exc Bool}
    (h : (backend.supports networkPolicy).Returns log x) :
    (∃ e, backend.bubblewrap.verify.Returns log (.error e) ∧ x = .error e) ∨
      ∃ l argv answer, log = l ++ [⟨.runProbe argv, answer⟩] ∧ Probes answer x := by
  rw [LinuxProcessSandboxBackend.supports, if_neg (by cases networkPolicy; simp)] at h
  rcases Action.returns_bind.mp h with ⟨l, l', ⟨⟩, rfl, -, hprobe⟩ | ⟨e, hverify, rfl⟩
  swap
  · exact .inl ⟨e, hverify, rfl⟩
  refine .inr ⟨l, backend.baseCommand ++ LinuxProcessSandboxBackend.probeArguments, ?_⟩
  rcases Action.returns_tryCatch.mp hprobe with ⟨a, hrun, rfl⟩ | ⟨l₁, l₂, e, rfl, hrun, hhandler⟩
  · obtain ⟨l₁, l₂, status, rfl, hask, hpure⟩ := Action.returns_bind_ok.mp hrun
    obtain ⟨answer, rfl, hanswer⟩ := Action.returns_ask.mp hask
    obtain rfl := mapError_eq_ok_iff.mp hanswer.symm
    obtain ⟨rfl, ha⟩ := Action.returns_pure.mp hpure
    exact ⟨.ok status, by rw [List.append_nil], .inl ⟨status, rfl, ha⟩⟩
  · rcases Action.returns_bind.mp hrun with ⟨_, _, _, -, -, hpure⟩ | ⟨e', hask, heq⟩
    · exact absurd (Action.returns_pure.mp hpure).2 (by simp)
    obtain rfl := Except.error.inj heq
    obtain ⟨answer, rfl, hanswer⟩ := Action.returns_ask.mp hask
    obtain ⟨error, rfl, rfl⟩ := mapError_eq_error_iff.mp hanswer.symm
    split at hhandler
    · obtain ⟨rfl, rfl⟩ := Action.returns_pure.mp hhandler
      exact ⟨.error error, by rw [List.append_nil], .inr (.inl ⟨error, rfl, rfl⟩)⟩
    · rename_i hnot
      obtain ⟨rfl, rfl⟩ := Action.returns_raise.mp hhandler
      cases error with
      | encode => exact ⟨.error .encode, by rw [List.append_nil], .inr (.inr ⟨rfl, rfl⟩)⟩
      | os error => exact absurd rfl hnot
      | timeoutExpired => exact absurd rfl hnot

/-- **The first check of the sandbox** finds that the binary is not as it was pinned, and nothing
was run; or it raises what nothing handles. -/
theorem supports_raises (h : (backend.supports networkPolicy).Returns log (.error e)) :
    (IsIsolationFailure e ∧ Happened (Unpins backend.bubblewrap) log ∧
        ∀ event ∈ log, OsCall.Pins event.1) ∨ Unhandled git limits log e := by
  rcases supports_returns h with ⟨e', hverify, heq⟩ | ⟨l, argv, answer, rfl, hprobes⟩
  · obtain rfl := Except.error.inj heq
    refine (PinnedBubblewrap.accounts_verify log e hverify).imp_left fun hisolation ↦
      ⟨hisolation, ?_, backend.bubblewrap.pins_verify.leads hverify⟩
    exact not_not.mp fun hpinned ↦ absurd ((returns_verify hverify).1.mpr hpinned) (by simp)
  · rcases hprobes with ⟨_, -, heq⟩ | ⟨_, -, heq⟩ | ⟨rfl, heq⟩
    · exact absurd heq (by simp)
    · exact absurd heq (by simp)
    · obtain rfl := Except.error.inj heq
      exact .inr (.probe List.mem_concat_self)

/-- A sandbox that cannot isolate was probed without success. -/
theorem supports_refuses (h : (backend.supports networkPolicy).Returns log (.ok false)) :
    ∃ argv answer, ⟨.runProbe argv, answer⟩ ∈ log ∧ answer ≠ .ok 0 := by
  rcases supports_returns h with ⟨_, -, heq⟩ | ⟨l, argv, answer, rfl, hprobes⟩
  · exact absurd heq (by simp)
  · refine ⟨argv, answer, List.mem_concat_self, ?_⟩
    rintro rfl
    rcases hprobes with ⟨status, hstatus, heq⟩ | ⟨_, hfail, -⟩ | ⟨hfail, -⟩
    · obtain rfl := Except.ok.inj hstatus
      exact absurd heq (by simp)
    · exact absurd hfail (by simp)
    · exact absurd hfail (by simp)

/-! ## The command -/

theorem reauthorize_eq : LocalCommandExecutor.reauthorize command = .ok () := by
  rw [LocalCommandExecutor.reauthorize, authorizeCommand_eq_ok_iff.mpr ⟨rfl, rfl⟩]
  exact if_neg (not_not.mpr rfl)

/-- A request is denied with an error of the policy. -/
theorem isCommandAuthorizationError_of_authorizeCommand
    (h : authorizeCommand request policy = .error e) : e.isCommandAuthorizationError = true := by
  have hdeny := matchingRule_eq_error_iff.mp (authorizeCommand_eq_error_iff.mp h)
  split at hdeny
  · obtain ⟨before, p, after, hsplit, -, -⟩ := hdeny
    have hmem : (e, p) ∈ dimensions request := by rw [hsplit]; simp
    simp only [dimensions, exactDimensions, List.cons_append, List.nil_append, List.mem_cons,
      Prod.mk.injEq, List.not_mem_nil, or_false] at hmem
    rcases hmem with ⟨rfl, -⟩ | ⟨rfl, -⟩ | ⟨rfl, -⟩ | ⟨rfl, -⟩ | ⟨rfl, -⟩ | ⟨rfl, -⟩ <;> rfl
  · obtain rfl := hdeny
    rfl

theorem requireRecord_eq_error {workspace : WorkspaceIdentity}
    (h : registry.requireRecord workspace = .error e) :
    (∃ detail, e = workspaceError .notFound detail ∧ registry.records workspace.workspaceId =
      none) ∨ ∃ detail, e = workspaceError .conflict detail := by
  rw [Registry.requireRecord] at h
  split at h
  · rename_i habsent
    exact .inl ⟨_, (Except.error.inj h).symm, habsent⟩
  · split at h
    · exact .inr ⟨_, (Except.error.inj h).symm⟩
    · exact absurd h (by simp)

/-- Without a record the lease is not entered. -/
theorem executionLease_of_requireRecord_error {α : Type} {adapter : LocalGitWorkspace}
    {workspace : WorkspaceIdentity} {body : Path → Os α} {failure : Exc}
    (hrecord : registry.requireRecord workspace = .error failure)
    (h : (adapter.executionLease fuel registry workspace body).Returns log (.error e)) :
    log = [] ∧ e = failure := by
  rw [LocalGitWorkspace.executionLease, LocalGitWorkspace.enterLease, hrecord,
    Action.lift_error_bind] at h
  rcases Action.returns_bind.mp h with ⟨_, _, _, -, hraise, -⟩ | ⟨e', hraise, heq⟩
  · exact absurd (Action.returns_raise.mp hraise).2 (by simp)
  · obtain ⟨rfl, he⟩ := Action.returns_raise.mp hraise
    exact ⟨rfl, (Except.error.inj heq).trans (Except.error.inj he)⟩

/-- What leaves the lease of a command. -/
theorem lease_raises (hbackend : executor.sandbox = backend.seam fuel')
    (hlookup : executor.lookup request.executable = some executable) {before : OsLog}
    (hbefore : ∀ event ∈ before, OsCall.Looks event.1)
    (h : (Os.translate Exc.isWorkspaceError translateLeaseError
      (executor.workspace.executionLease fuel registry request.workspace fun root ↦
        executor.runLeased request executable root)).Returns log (.error e)) :
    (∃ cause detail, e = commandExecutionError cause detail ∧
        Explains executor registry request (before ++ log) cause) ∨
      Unhandled executor.workspace.git request.limits log e := by
  obtain ⟨x, hlease, hx⟩ := Os.returns_translate.mp h
  cases x with
  | ok result => exact absurd hx (by simp [Py.translate])
  | error failure =>
    obtain rfl := Except.error.inj hx
    cases hrecord : registry.requireRecord request.workspace with
    | error e =>
      obtain ⟨rfl, rfl⟩ := executionLease_of_requireRecord_error hrecord hlease
      rw [List.append_nil]
      rcases requireRecord_eq_error hrecord with ⟨detail, rfl, habsent⟩ | ⟨detail, rfl⟩
      · exact .inl ⟨_, _, rfl, .absent hbefore habsent⟩
      · exact .inl ⟨_, _, rfl, .isolation⟩
    | ok record =>
      rcases LocalCommandExecutor.accounts_executionLease hbackend ⟨record, hrecord⟩ log failure
        hlease with (hfailure | ⟨cause, detail, rfl, hcause⟩) | hunhandled
      · have hkept : failure.isWorkspaceError = false := by cases hfailure <;> rfl
        rw [hkept]
        exact .inl (explains_of_commandFailure hlookup
          (hfailure.mono (List.subset_append_right ..)))
      · refine .inl ⟨_, _, rfl, ?_⟩
        rw [if_neg hcause]
        exact .isolation
      · rw [if_neg (by cases hunhandled <;> simp [OsError.toExc, Exc.isWorkspaceError])]
        exact .inr hunhandled

/-- **Where the exceptions of a command come from.**  A request that is not authorized reaches no
executor. What the executor reports says by its cause what has happened.  What it does not report is
that the pinned sandbox was not as it was pinned when it was first asked, before anything was run,
or an exception that no handler expects, which comes from an answer in the log or from a limit that
is too large. -/
theorem executeAuthorizedCommand_raises (hbackend : executor.sandbox = backend.seam fuel')
    (h : (executeAuthorizedCommand request policy (executor.execute fuel registry)).Returns log
      (.error e)) :
    (authorizeCommand request policy = .error e ∧ e.isCommandAuthorizationError = true ∧ log = []) ∨
      (∃ cause detail, e = commandExecutionError cause detail ∧
        Explains executor registry request log cause) ∨
      (IsIsolationFailure e ∧ Happened (Unpins backend.bubblewrap) log ∧
        ∀ event ∈ log, OsCall.Pins event.1) ∨
      Unhandled executor.workspace.git request.limits log e := by
  rw [executeAuthorizedCommand] at h
  cases hauth : authorizeCommand request policy with
  | error e' =>
    rw [hauth, Action.lift_error_bind] at h
    obtain ⟨rfl, heq⟩ := Action.returns_raise.mp h
    obtain rfl := Except.error.inj heq
    exact .inl ⟨rfl, isCommandAuthorizationError_of_authorizeCommand hauth, rfl⟩
  | ok command =>
    obtain ⟨rfl, -⟩ := authorizeCommand_eq_ok_iff.mp hauth
    rw [hauth, Action.lift_ok_bind, LocalCommandExecutor.execute, reauthorize_eq,
      Action.lift_ok_bind] at h
    refine .inr ?_
    cases hlookup : executor.lookup command.request.executable with
    | none =>
      rw [LocalCommandExecutor.requireExecutable, hlookup, Action.lift_error_bind] at h
      obtain ⟨rfl, heq⟩ := Action.returns_raise.mp h
      exact .inl ⟨_, _, Except.error.inj heq, .unknown rfl hlookup⟩
    | some executable =>
      rw [LocalCommandExecutor.requireExecutable, hlookup, Action.lift_ok_bind, hbackend] at h
      change (backend.supports command.request.networkPolicy >>= _).Returns log _ at h
      rcases Action.returns_bind.mp h with ⟨asked, l, supported, rfl, hsupports, hrest⟩ |
        ⟨e', hsupports, heq⟩
      swap
      · obtain rfl := Except.error.inj heq
        exact .inr (supports_raises hsupports)
      have hasked := (backend.looks_supports _).leads hsupports
      cases supported with
      | false =>
        obtain ⟨rfl, heq⟩ := Action.returns_raise.mp hrest
        obtain ⟨argv, answer, hmem, hne⟩ := supports_refuses hsupports
        rw [List.append_nil]
        exact .inl ⟨_, _, Except.error.inj heq, .denied hasked hmem hne⟩
      | true =>
        rcases Action.returns_bind.mp hrest with ⟨verified, leased, ⟨⟩, rfl, hverify, hlease⟩ |
          ⟨e', hverify, heq⟩
        · have hbefore : ∀ event ∈ asked ++ verified, OsCall.Looks event.1 := by
            intro event hmem
            rcases List.mem_append.mp hmem with hmem | hmem
            · exact hasked event hmem
            · exact executable.looks_verify.leads hverify event hmem
          rw [← List.append_assoc]
          exact (lease_raises hbackend hlookup hbefore hlease).imp_right fun hunhandled ↦
            .inr (hunhandled.mono (List.subset_append_right ..))
        · obtain rfl := Except.error.inj heq
          rcases TrustedExecutable.accounts_verify l e hverify with hfailure | hunhandled
          · exact .inl (explains_of_commandFailure hlookup
              (hfailure.mono (List.subset_append_right ..)))
          · exact .inr (.inr (hunhandled.mono (List.subset_append_right ..)))

end

/-- A host on which every path is a link. -/
def linkedHost : (call : OsCall) → call.Answer
  | .isSymlink _ => .ok true
  | call => (obligingHost headOutput [] call).1

/-- The sandbox was replaced by a link: what is raised is no error of the executor. -/
theorem executeAuthorizedCommand_raises_linked : ∃ log e,
    (executeAuthorizedCommand (testRequest localRun) (testPolicy localRun)
      ((localExecutor (testBackend.seam 9)).execute 9 .empty)).Returns log (.error e) ∧
    IsIsolationFailure e ∧ Happened (Unpins testBackend.bubblewrap) log ∧
    ∀ event ∈ log, OsCall.Pins event.1 := by
  have hsettle : (executeAuthorizedCommand (testRequest localRun) (testPolicy localRun)
      ((localExecutor (testBackend.seam 9)).execute 9 .empty)).settle linkedHost =
        some (.error (sandboxError .isolationFailure "bubblewrap executable changed")) := rfl
  obtain ⟨log, hret, -⟩ := Interaction.returns_of_settle hsettle
  refine ⟨log, _, hret, ?_⟩
  rcases executeAuthorizedCommand_raises rfl hret with ⟨-, hkind, -⟩ | ⟨_, _, heq, -⟩ | hlinked |
    hunhandled
  · exact absurd hkind (by simp [sandboxError, Exc.isCommandAuthorizationError])
  · exact absurd heq (by simp [sandboxError, commandExecutionError])
  · exact hlinked
  · generalize heq : sandboxError .isolationFailure (text "bubblewrap executable changed") = e
      at hunhandled
    cases hunhandled <;> exact absurd heq (by simp [sandboxError, OsError.toExc])

end Alicerce
