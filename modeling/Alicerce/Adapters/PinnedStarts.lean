import Alicerce.Adapters.CommandExecution
import Alicerce.Adapters.Construction
import Alicerce.Adapters.GitSessions
import Alicerce.Adapters.ProcessCleanup
import Alicerce.Adapters.SandboxResults

/-!
# What is started

The executor with this package's own sandbox: which processes it starts, and what it has looked at
just before.  A process is one of Git's commands, or it is the sandbox binary, which is told to run
nothing but `/usr/bin/true`, or the executable of the command in its workspace.  Between two calls,
others may do to the files what they like.

* `OsCall.Starts`: a call that starts a process, either of the two kinds of it.
* `MayStart` is the rule: which process may be started after what.  Behind the probe it asks for
  looks at the sandbox binary, and behind `Startable` for those at the executable and, twice, at the
  sandbox binary, with the digests they were pinned with.
* `starts_execute`: every call of `execute` keeps the rule, at every point of it.
* `Concluded`, `concluded_of_returns`: what the log of a call that returns a result ends in.
* `starts_pinned` puts it together with the constructors: the looks that pinned the executables and
  the sandbox binary had the same result, up to a collision of digests.
-/

set_option autoImplicit false

namespace Alicerce

open Py Lib

/-! ## What may be started -/

/-- What precedes the start of a command: the looks at its executable and at the sandbox binary, the
probe, the looks at the sandbox binary again, and the time. -/
def startLog (executable : TrustedExecutable) (backend : LinuxProcessSandboxBackend)
    (content first second : Bytes) (time : CivilTime) : OsLog :=
  pinLog executable.path content ++ (pinLog backend.bubblewrap.path first ++
    ⟨.runProbe (backend.baseCommand ++ LinuxProcessSandboxBackend.probeArguments), .ok 0⟩ ::
      (pinLog backend.bubblewrap.path second ++ [⟨.utcNow, time⟩]))

/-- A command is started with nothing but its executable, in its workspace, by the sandbox binary,
and each of the two has just been found to be what it was pinned as. -/
structure Startable (executor : LocalCommandExecutor) (backend : LinuxProcessSandboxBackend)
    (registry : Registry) (command : AuthorizedCommand) (before : OsLog) (argv : List Text)
    (executable : TrustedExecutable) (record : WorkspaceRecord) (workingDirectory : Path)
    (content first second : Bytes) : Prop where
  found : executor.lookup command.request.executable = some executable
  recorded : registry.records command.request.workspace.workspaceId = some record
  identical : record.identity = command.request.workspace
  built : backend.buildCommand
    (invocationOf executable command.request record.path workingDirectory) = .ok argv
  looked : ∃ time, startLog executable backend content first second time <:+ before
  content_eq : sha256 content = executable.sha256
  first_eq : sha256 first = backend.bubblewrap.sha256
  second_eq : sha256 second = backend.bubblewrap.sha256

/-- A call that starts a process: one that is looked after, or the probe, which is waited for. -/
def OsCall.Starts : OsCall → Prop
  | .popen _ _ _ | .runProbe _ => True
  | _ => False

/-- What may be called after what, as far as starting processes is concerned. -/
inductive MayStart (executor : LocalCommandExecutor) (backend : LinuxProcessSandboxBackend)
    (registry : Registry) (command : AuthorizedCommand) (before : OsLog) :
      Event OsCall.Answer → Prop
  | other {event : Event OsCall.Answer} (h : ¬event.1.Starts) :
      MayStart executor backend registry command before event
  /-- The probe runs the sandbox binary, in the directory of the executor itself. -/
  | probe {content : Bytes} (hlooked : pinLog backend.bubblewrap.path content <:+ before)
      (hcontent : sha256 content = backend.bubblewrap.sha256) (answer : Except ProbeError ℤ) :
      MayStart executor backend registry command before
        ⟨.runProbe (backend.baseCommand ++ LinuxProcessSandboxBackend.probeArguments), answer⟩
  | git {control cwd : Path} {arguments : List Text} {environment : List (Text × Text)}
      (hcommand : GitCommand control arguments environment) (answer : Except SpawnError Process) :
      MayStart executor backend registry command before
        ⟨.popen (executor.workspace.git.executable.str :: arguments) cwd environment, answer⟩
  | sandboxed {argv : List Text} {executable : TrustedExecutable} {record : WorkspaceRecord}
      {workingDirectory : Path} {content first second : Bytes}
      (h : Startable executor backend registry command before argv executable record
        workingDirectory content first second) (answer : Except SpawnError Process) :
      MayStart executor backend registry command before ⟨.popen argv rootDirectory [], answer⟩

section Starts

variable {executor : LocalCommandExecutor} {backend : LinuxProcessSandboxBackend}
  {registry : Registry}
  {command : AuthorizedCommand} {fuel fuel' : ℕ} {log before : OsLog} {α : Type} {p : Os α}
  {invocation : SandboxInvocation} {executable : TrustedExecutable} {record : WorkspaceRecord}

theorem OsCall.Views.not_starts {c : OsCall} (h : c.Views) : ¬c.Starts := by
  cases c <;> first | exact h.elim | exact id

theorem OsCall.Tends.not_starts {c : OsCall} (h : c.Tends) : ¬c.Starts := by
  cases c <;> first | exact h.elim | exact id

theorem OsCall.Pins.views {c : OsCall} (h : c.Pins) : c.Views := by
  cases c <;> first | exact h.elim | trivial

theorem mayStart_of_controlStep {w w' : ControlSession} {event : Event OsCall.Answer}
    (h : ControlStep executor.workspace.git w event w') :
    MayStart executor backend registry command before event := by
  cases h with
  | runs hcommand answer => exact .git hcommand answer
  | opens | opensNot | furnishes | closes => exact .other id
  | looks hviews => exact .other hviews.not_starts
  | tends htends => exact .other htends.not_starts
  | disposes hdisposes =>
    refine .other fun hstarts ↦ ?_
    obtain ⟨call, answer⟩ := event
    cases call <;> first | exact hdisposes | exact hstarts

/-- A program starts what may be started, behind a log. -/
abbrev StartsBehind (executor : LocalCommandExecutor) (backend : LinuxProcessSandboxBackend)
    (registry : Registry) (command : AuthorizedCommand) (log : OsLog) (p : Os α) : Prop :=
  p.Obeys (Rule.behind (MayStart executor backend registry command) log)

theorem starts_of_watches (h : Watches p) : StartsBehind executor backend registry command log p :=
  Action.Calls.obeys h fun _ _ hviews ↦ .other hviews.not_starts

theorem starts_validateRecord (record : WorkspaceRecord) :
    StartsBehind executor backend registry command log
      (executor.workspace.validateRecord fuel record) :=
  (stays_validateRecord record).obeys fun _ ↦ mayStart_of_controlStep

/-! ### The stages of a start -/

theorem returns_supports (h : (backend.supports invocation.networkPolicy).Returns log (.ok true)) :
    ∃ first, sha256 first = backend.bubblewrap.sha256 ∧
      log = pinLog backend.bubblewrap.path first ++
        [⟨.runProbe (backend.baseCommand ++ LinuxProcessSandboxBackend.probeArguments),
          .ok 0⟩] := by
  rw [LinuxProcessSandboxBackend.supports] at h
  split at h
  · exact absurd (Action.returns_pure.mp h).2 (by simp)
  obtain ⟨_, l, ⟨⟩, rfl, hverify, hprobe⟩ := Action.returns_bind_ok.mp h
  obtain ⟨first, rfl, hfirst⟩ := PinnedBubblewrap.verify_returns_iff.mp hverify
  refine ⟨first, hfirst, ?_⟩
  rcases Action.returns_tryCatch.mp hprobe with ⟨supported, hrun, hsupported⟩ |
    ⟨_, _, e, rfl, -, hhandle⟩
  · obtain rfl := Except.ok.inj hsupported
    obtain ⟨returncode, hzero, hask⟩ := returns_bind_pure_iff.mp hrun
    obtain ⟨answer, rfl, hanswer⟩ := Action.returns_ask.mp hask
    rw [mapError_eq_ok_iff.mp hanswer.symm, of_decide_eq_true hzero]
  · split at hhandle
    · exact absurd (Action.returns_pure.mp hhandle).2 (by simp)
    · exact absurd (Action.returns_raise.mp hhandle).2 (by simp)

theorem returns_isIsolated (h : (backend.isIsolated invocation).Returns log (.ok true)) :
    (backend.supports invocation.networkPolicy).Returns log (.ok true) := by
  rw [LinuxProcessSandboxBackend.isIsolated] at h
  split at h
  · exact absurd (Action.returns_pure.mp h).2 (by simp)
  · exact h

/-- A process is about to be spawned. -/
theorem returns_prepareSpawn {argv : List Text} {time : CivilTime}
    (h : (backend.prepareSpawn invocation).Returns log (.ok (argv, time))) :
    backend.buildCommand invocation = .ok argv ∧
      ∃ first second, sha256 first = backend.bubblewrap.sha256 ∧
        sha256 second = backend.bubblewrap.sha256 ∧
        log = pinLog backend.bubblewrap.path first ++
          ⟨.runProbe (backend.baseCommand ++ LinuxProcessSandboxBackend.probeArguments), .ok 0⟩ ::
            (pinLog backend.bubblewrap.path second ++ [⟨.utcNow, time⟩]) := by
  rw [LinuxProcessSandboxBackend.prepareSpawn] at h
  obtain ⟨_, l, isolated, rfl, hisolated, hrest⟩ := Action.returns_bind_ok.mp h
  cases isolated with
  | false => exact absurd (Action.returns_raise.mp hrest).2 (by simp)
  | true =>
  obtain ⟨first, hfirst, rfl⟩ := returns_supports (returns_isIsolated hisolated)
  obtain ⟨_, l', ⟨⟩, rfl, hverify, hbuild⟩ := Action.returns_bind_ok.mp hrest
  obtain ⟨second, rfl, hsecond⟩ := PinnedBubblewrap.verify_returns_iff.mp hverify
  obtain ⟨_, l'', built, rfl, hlift, htime⟩ := Action.returns_bind_ok.mp hbuild
  obtain ⟨rfl, hbuilt⟩ := Action.returns_lift.mp hlift
  obtain ⟨now, hpair, hnow⟩ := returns_bind_pure_iff.mp htime
  obtain ⟨rfl, rfl⟩ := Prod.mk.inj hpair
  obtain ⟨answer, rfl, hanswer⟩ := Action.returns_ask.mp hnow
  obtain rfl := Except.ok.inj hanswer
  exact ⟨hbuilt.symm, first, second, hfirst, hsecond, by simp⟩

/-! ### The rule is kept -/

theorem watches_verify (executable : TrustedExecutable) : Watches executable.verify :=
  Os.calls_translate (((pins_pinChanged _ _).mono fun _ ↦ OsCall.Pins.views).bind fun _ ↦
    .ite trivial trivial)

theorem PinnedBubblewrap.watches_verify (bubblewrap : PinnedBubblewrap) :
    Watches bubblewrap.verify :=
  bubblewrap.pins_verify.mono fun _ ↦ OsCall.Pins.views

theorem watches_resolveWorkingDirectory (root : Path) (relative : WorkingDirectory) :
    Watches (resolveWorkingDirectory root relative) := by
  have hdescend : ∀ (candidate : Path) (parts : List Text), Watches (descend candidate parts) := by
    intro candidate parts
    induction parts generalizing candidate with
    | nil => trivial
    | cons part parts ih => exact (watches_ask (by trivial)).bind fun _ ↦ .ite trivial (ih _)
  refine (hdescend _ _).bind fun _ ↦ (Os.calls_translate (watches_ask (by trivial))).bind fun _ ↦
    .bind ?_ fun _ ↦ .ite trivial trivial
  exact Os.calls_or (Os.calls_not (watches_ask (by trivial))) trivial

/-- The sandbox binary is looked at before it is probed. -/
theorem starts_supports (networkPolicy : NetworkPolicy) :
    StartsBehind executor backend registry command log (backend.supports networkPolicy) := by
  rw [LinuxProcessSandboxBackend.supports]
  refine .ite (fun _ ↦ Action.obeys_pure _) fun _ ↦ ?_
  refine (starts_of_watches backend.bubblewrap.watches_verify).bind fun l _ hverify ↦ ?_
  obtain ⟨content, rfl, hcontent⟩ := PinnedBubblewrap.verify_returns_iff.mp hverify
  refine Action.Obeys.tryCatch (Action.Obeys.bind ?_ fun _ _ _ ↦ Action.obeys_pure _) fun _ _ _ ↦
    .ite (fun _ ↦ Action.obeys_pure _) fun _ ↦ Action.obeys_raise _
  exact Action.obeys_ask fun answer ↦ .probe ⟨log, by simp⟩ hcontent answer

theorem starts_prepareSpawn :
    StartsBehind executor backend registry command log (backend.prepareSpawn invocation) := by
  have hisolated : StartsBehind executor backend registry command log
      (backend.isIsolated invocation) :=
    .ite (fun _ ↦ Action.obeys_pure _) fun _ ↦ starts_supports _
  refine hisolated.bind fun l isolated _ ↦ .ite (fun _ ↦ Action.obeys_raise _) fun _ ↦ ?_
  rw [← Rule.behind_append]
  refine starts_of_watches (backend.bubblewrap.watches_verify.bind fun _ ↦
    Action.calls_lift.bind fun _ ↦ (watches_ask (by trivial)).bind fun _ ↦ trivial)

/-- A process that is there is looked after without another. -/
theorem starts_supervise {limits : CommandLimits} {startedAt : CivilTime} {process : Process} :
    StartsBehind executor backend registry command log
      (backend.supervise fuel limits startedAt process) := by
  have hcalls : (backend.supervise fuel limits startedAt process).Calls fun c ↦ ¬c.Starts := by
    refine (Action.calls_ask.mpr id).bind fun _ ↦ Action.calls_lift.bind fun _ ↦
      .bind (.tryFinally (tends_captureAndReap.mono fun _ ↦ OsCall.Tends.not_starts) ?_) fun _ ↦
        (Action.calls_ask.mpr id).bind fun _ ↦ trivial
    exact backend.bubblewrap.watches_verify.mono fun _ ↦ OsCall.Views.not_starts
  exact hcalls.obeys fun _ _ ↦ .other

/-- What is done in a lease. -/
theorem starts_runLeased (hsandbox : executor.sandbox = backend.seam fuel')
    (hfound : executor.lookup command.request.executable = some executable)
    (hrecorded : registry.records command.request.workspace.workspaceId = some record)
    (hidentical : record.identity = command.request.workspace) :
    StartsBehind executor backend registry command log
      (executor.runLeased command.request executable record.path) := by
  rw [LocalCommandExecutor.runLeased, hsandbox]
  refine (starts_of_watches (watches_resolveWorkingDirectory _ _)).bind
    fun l workingDirectory _ ↦ ?_
  rw [← Rule.behind_append]
  refine (starts_of_watches (watches_verify _)).bind fun verified _ hverified ↦ ?_
  obtain ⟨content, rfl, hcontent⟩ := TrustedExecutable.verify_returns_iff.mp hverified
  refine Action.Obeys.bind (Action.Obeys.tryCatch ?_ fun _ _ _ ↦ Action.obeys_raise _)
    fun _ _ _ ↦ ?_
  · refine Action.Obeys.bind ?_ fun prepared started hprepared ↦ ?_
    · rw [← Rule.behind_append]
      exact starts_prepareSpawn
    obtain ⟨hbuilt, first, second, hfirst, hsecond, rfl⟩ := returns_prepareSpawn hprepared
    refine Action.Obeys.bind (Action.Obeys.tryCatch (Action.obeys_ask fun answer ↦ ?_)
      fun _ _ _ ↦ Action.obeys_raise _) fun _ _ _ ↦ ?_
    · refine .sandboxed ⟨hfound, hrecorded, hidentical, hbuilt, ⟨started.2, ?_⟩, hcontent, hfirst,
        hsecond⟩ _
      exact ⟨log ++ l, by simp [startLog]⟩
    · rw [← Rule.behind_append, ← Rule.behind_append, ← Rule.behind_append]
      exact starts_supervise
  · rw [← Rule.behind_append, ← Rule.behind_append]
    refine (starts_of_watches (watches_verify _)).bind fun _ _ _ ↦ Action.obeys_lift _

/-- **Only what may be started is started.** -/
theorem starts_execute (hsandbox : executor.sandbox = backend.seam fuel') :
    (executor.execute fuel registry command).Obeys
      (MayStart executor backend registry command) := by
  rw [← Rule.behind_nil (MayStart _ _ _ _)]
  rw [LocalCommandExecutor.execute, hsandbox]
  refine (Action.obeys_lift _).bind fun _ _ _ ↦
    (Action.obeys_lift _).bind fun _ executable hrequire ↦ ?_
  have hfound := lookup_of_requireExecutable (Action.returns_lift.mp hrequire).2.symm
  rw [← Rule.behind_append, ← Rule.behind_append]
  refine Action.Obeys.bind (starts_supports command.request.networkPolicy)
    fun _ _ _ ↦ .ite (fun _ ↦ Action.obeys_raise _) fun _ ↦ ?_
  rw [← Rule.behind_append]
  refine (starts_of_watches (watches_verify _)).bind fun _ _ _ ↦
    .tryCatch ?_ fun _ _ _ ↦ Action.obeys_raise _
  rw [← Rule.behind_append]
  refine Action.Obeys.bind ((Action.obeys_lift _).bind fun _ record _ ↦ ?_) fun _ record hlease ↦ ?_
  · rw [← Rule.behind_append]
    exact (starts_validateRecord record).bind fun _ _ _ ↦ Action.obeys_pure _
  · rw [← Rule.behind_append]
    obtain ⟨⟨hrecorded, hidentical⟩, -⟩ := enterLease_returns hlease
    refine (starts_runLeased hsandbox hfound hrecorded hidentical).tryFinally fun _ _ _ ↦ ?_
    rw [← Rule.behind_append]
    exact starts_validateRecord record

/-! ### What a result rests on -/

/-- The end of the log of a call that returns a result: the last looks at the sandbox binary and at
the executable, and the last validation of the workspace. -/
structure Concluded (executor : LocalCommandExecutor) (backend : LinuxProcessSandboxBackend)
    (fuel : ℕ) (registry : Registry) (command : AuthorizedCommand) (log : OsLog)
    (executable : TrustedExecutable) (content third : Bytes) : Prop where
  found : executor.lookup command.request.executable = some executable
  content_eq : sha256 content = executable.sha256
  third_eq : sha256 third = backend.bubblewrap.sha256
  looked : ∃ record time validated,
    registry.records command.request.workspace.workspaceId = some record ∧
      (executor.workspace.validateRecord fuel record).Returns validated (.ok ()) ∧
      pinLog backend.bubblewrap.path third ++
        ⟨.utcNow, time⟩ :: (pinLog executable.path content ++ validated) <:+ log

/-- The sandbox returns a result when its binary is still what it was. -/
theorem returns_sandbox {result : SandboxResult}
    (h : (backend.execute fuel' invocation).Returns log (.ok result)) :
    ∃ third time, sha256 third = backend.bubblewrap.sha256 ∧
      pinLog backend.bubblewrap.path third ++ [⟨.utcNow, time⟩] <:+ log := by
  rcases returns_execute h with ⟨e, -, he⟩ |
    ⟨_, _, _, -, ⟨_, _, -, he⟩ | ⟨_, rest, rfl, hsupervise⟩⟩
  · exact absurd he (by simp)
  · exact absurd he (by simp)
  obtain ⟨started, rest, rfl, ⟨_, -, -, he⟩ |
    ⟨_, _, captured, verified, after, -, rfl, -, -, ⟨_, -, -, he⟩ | ⟨hverify, ⟨_, -, -, he⟩ |
      ⟨_, _, _, finishedAt, -, rfl, -⟩⟩⟩⟩ := returns_supervise hsupervise
  · exact absurd he (by simp)
  · exact absurd he (by simp)
  · exact absurd he (by simp)
  obtain ⟨third, rfl, hthird⟩ := PinnedBubblewrap.verify_returns_iff.mp hverify
  refine ⟨third, finishedAt, hthird, ?_⟩
  exact (List.suffix_append _ _).trans ((List.suffix_cons _ _).trans
    ((List.suffix_cons _ _).trans (List.suffix_append _ _)))

theorem returns_runLeased {root : Path} {result : ExecutionResult}
    (hsandbox : executor.sandbox = backend.seam fuel')
    (h : (executor.runLeased command.request executable root).Returns log (.ok result)) :
    ∃ content third time, sha256 content = executable.sha256 ∧
      sha256 third = backend.bubblewrap.sha256 ∧
      pinLog backend.bubblewrap.path third ++
        ⟨.utcNow, time⟩ :: pinLog executable.path content <:+ log := by
  rw [LocalCommandExecutor.runLeased, hsandbox] at h
  obtain ⟨resolved, _, workingDirectory, rfl, -, h⟩ := Action.returns_bind_ok.mp h
  obtain ⟨verifiedBefore, _, ⟨⟩, rfl, -, h⟩ := Action.returns_bind_ok.mp h
  obtain ⟨executed, _, answer, rfl, hexecuted, h⟩ := Action.returns_bind_ok.mp h
  obtain ⟨verified, _, ⟨⟩, rfl, hverified, h⟩ := Action.returns_bind_ok.mp h
  obtain ⟨rfl, -⟩ := Action.returns_lift.mp h
  obtain ⟨third, time, hthird, front, rfl⟩ := returns_sandbox (returns_translate_ok.mp hexecuted)
  obtain ⟨content, rfl, hcontent⟩ := TrustedExecutable.verify_returns_iff.mp hverified
  exact ⟨content, third, time, hcontent, hthird, resolved ++ (verifiedBefore ++ front), by simp⟩

theorem concluded_of_returns {result : ExecutionResult}
    (hsandbox : executor.sandbox = backend.seam fuel')
    (h : (executor.execute fuel registry command).Returns log (.ok result)) :
    ∃ executable content third,
      Concluded executor backend fuel registry command log executable content third := by
  rw [LocalCommandExecutor.execute] at h
  obtain ⟨m, _, ⟨⟩, rfl, -, h⟩ := Action.returns_bind_ok.mp h
  obtain ⟨n, _, executable, rfl, hfound, h⟩ := Action.returns_bind_ok.mp h
  obtain ⟨supported, _, supports, rfl, -, h⟩ := Action.returns_bind_ok.mp h
  cases supports with
  | false => exact absurd (Action.returns_raise.mp h).2 (by simp)
  | true =>
  obtain ⟨verified, _, ⟨⟩, rfl, -, h⟩ := Action.returns_bind_ok.mp h
  obtain ⟨entered, _, record, rfl, hentered, h⟩ :=
    Action.returns_bind_ok.mp (returns_translate_ok.mp h)
  obtain ⟨leased, validated, _, rfl, hleased, ⟨hvalidated, rfl⟩ | ⟨_, -, he⟩⟩ :=
    Action.returns_tryFinally.mp h
  · obtain ⟨content, third, time, hcontent, hthird, front, rfl⟩ :=
      returns_runLeased hsandbox hleased
    refine ⟨executable, content, third,
      lookup_of_requireExecutable (Action.returns_lift.mp hfound).2.symm, hcontent, hthird,
      record, time, validated, (enterLease_returns hentered).1.1, hvalidated, ?_⟩
    exact ⟨m ++ (n ++ (supported ++ (verified ++ (entered ++ front)))), by simp⟩
  · exact absurd he (by simp)

end Starts

/-! ## From construction to execution -/

/-- What was read is, up to a collision of digests, what was read when the path was pinned. -/
def AsPinned (pinned : OsLog) (path : Path) (content : Bytes) : Prop :=
  ∃ held, pinned = pinLog path held ∧ sha256 content = sha256 held

section

variable {workspace : LocalGitWorkspace} {executables : List TrustedExecutable}
  {backend : LinuxProcessSandboxBackend} {executor : LocalCommandExecutor} {fuel fuel' : ℕ}
  {registry : Registry} {command : AuthorizedCommand} {pinned log : OsLog} {platform : Text}
  {path : Path} {u : Os ExecutionResult}

theorem LocalCommandExecutor.new_eq_ok {sandbox : ProcessSandboxBackend}
    (h : LocalCommandExecutor.new workspace executables sandbox = .ok executor) :
    executor.workspace = workspace ∧ executor.executables = executables ∧
      executor.sandbox = sandbox := by
  rw [LocalCommandExecutor.new] at h
  split at h
  · obtain rfl := Except.ok.inj h
    exact ⟨rfl, rfl, rfl⟩
  · exact absurd h (by simp)

theorem LocalCommandExecutor.mem_of_lookup {executableId : ExecutableId}
    {executable : TrustedExecutable} (h : executor.lookup executableId = some executable) :
    executable ∈ executor.executables ∧ executable.executableId = executableId := by
  rw [LocalCommandExecutor.lookup] at h
  exact ⟨List.mem_of_find?_eq_some h, by simpa using List.find?_some h⟩

theorem asPinned_of_new {executable : TrustedExecutable} {content : Bytes}
    (hnew : (TrustedExecutable.new executable.executableId executable.path).Returns pinned
      (.ok executable)) (h : sha256 content = executable.sha256) :
    AsPinned pinned executable.path content := by
  obtain ⟨held, rfl, hheld⟩ := TrustedExecutable.new_returns_iff.mp hnew
  exact ⟨held, rfl, h.trans (congrArg TrustedExecutable.sha256 hheld)⟩

theorem asPinned_of_backend {content : Bytes}
    (hnew : (LinuxProcessSandboxBackend.new platform path).Returns pinned (.ok backend))
    (h : sha256 content = backend.bubblewrap.sha256) :
    AsPinned pinned backend.bubblewrap.path content := by
  obtain ⟨-, held, rfl, rfl⟩ := LinuxProcessSandboxBackend.new_returns_iff.mp hnew
  exact ⟨held, rfl, h⟩

/-- **What is started is what was pinned**: of an executor, its executables and its sandbox that
have been constructed, at every point of a call, a process that was started is one of Git's
commands, or the sandbox binary with the command line of the requested executable, and what was read
of both just before is what was read when they were constructed.  The probe is the sandbox binary
too, and what was read of it just before is what was read when it was constructed.  When the call
returns a result, that is what was read of both again behind the execution. -/
theorem starts_pinned (pins : TrustedExecutable → OsLog)
    (hexecutables : ∀ executable ∈ executables, (TrustedExecutable.new executable.executableId
      executable.path).Returns (pins executable) (.ok executable))
    (hbackend : (LinuxProcessSandboxBackend.new platform path).Returns pinned (.ok backend))
    (hexecutor : LocalCommandExecutor.new workspace executables (backend.seam fuel') = .ok executor)
    (h : (executor.execute fuel registry command).Leads log u) :
    (∀ before argv cwd environment answer after,
      log = before ++ ⟨.popen argv cwd environment, answer⟩ :: after →
        (∃ control arguments, argv = workspace.git.executable.str :: arguments ∧
          GitCommand control arguments environment) ∨
        cwd = rootDirectory ∧ environment = [] ∧
          ∃ executable ∈ executables, ∃ record workingDirectory content first second,
            executable.executableId = command.request.executable ∧
            Startable executor backend registry command before argv executable record
              workingDirectory content first second ∧
            AsPinned (pins executable) executable.path content ∧
            AsPinned pinned backend.bubblewrap.path first ∧
            AsPinned pinned backend.bubblewrap.path second) ∧
      (∀ before argv answer after, log = before ++ ⟨.runProbe argv, answer⟩ :: after →
        argv = backend.baseCommand ++ LinuxProcessSandboxBackend.probeArguments ∧
          ∃ content, pinLog backend.bubblewrap.path content <:+ before ∧
            AsPinned pinned backend.bubblewrap.path content) ∧
      ∀ result, u = .lift (.ok result) → ∃ executable ∈ executables, ∃ content third,
        executable.executableId = command.request.executable ∧
        Concluded executor backend fuel registry command log executable content third ∧
        AsPinned (pins executable) executable.path content ∧
        AsPinned pinned backend.bubblewrap.path third := by
  obtain ⟨rfl, rfl, hsandbox⟩ := LocalCommandExecutor.new_eq_ok hexecutor
  refine ⟨?_, ?_, ?_⟩
  · rintro before argv cwd environment answer after rfl
    cases starts_execute hsandbox before _ after u h with
    | other hother => exact absurd trivial hother
    | git hcommand => exact .inl ⟨_, _, rfl, hcommand⟩
    | sandboxed hstartable =>
      obtain ⟨hmem, hid⟩ := LocalCommandExecutor.mem_of_lookup hstartable.found
      exact .inr ⟨rfl, rfl, _, hmem, _, _, _, _, _, hid, hstartable,
        asPinned_of_new (hexecutables _ hmem) hstartable.content_eq,
        asPinned_of_backend hbackend hstartable.first_eq,
        asPinned_of_backend hbackend hstartable.second_eq⟩
  · rintro before argv answer after rfl
    cases starts_execute hsandbox before _ after u h with
    | other hother => exact absurd trivial hother
    | probe hlooked hcontent => exact ⟨rfl, _, hlooked, asPinned_of_backend hbackend hcontent⟩
  · rintro result rfl
    obtain ⟨executable, content, third, hconcluded⟩ := concluded_of_returns hsandbox h
    obtain ⟨hmem, hid⟩ := LocalCommandExecutor.mem_of_lookup hconcluded.found
    exact ⟨executable, hmem, content, third, hid, hconcluded,
      asPinned_of_new (hexecutables _ hmem) hconcluded.content_eq,
      asPinned_of_backend hbackend hconcluded.third_eq⟩

/-- A run whose tests are executed. -/
theorem starts_pinned_tests : ∃ log result executor,
    LocalCommandExecutor.new localWorkspace [testExecutable] (testBackend.seam 9) = .ok executor ∧
    (executor.execute 9 (Registry.empty.publish localRecord) testCommand).Returns log (.ok result) ∧
    ∃ content third, Concluded executor testBackend 9 (Registry.empty.publish localRecord)
      testCommand
      log testExecutable content third := by
  have hplay : (Interaction.play (obligingHost headOutput)
      ((localExecutor (testBackend.seam 9)).execute 9 (Registry.empty.publish localRecord)
        testCommand)
      []).2.map Except.isOk = some true := by
    decide +kernel
  obtain ⟨x, hx, hok⟩ := Option.map_eq_some_iff.mp hplay
  cases x with
  | error e => exact absurd hok (by simp [Except.isOk, Except.toBool])
  | ok result =>
    have hreturns := Interaction.returns_play hx
    have hnew : LocalCommandExecutor.new localWorkspace [testExecutable] (testBackend.seam 9) =
        .ok (localExecutor (testBackend.seam 9)) :=
      dif_pos (List.pairwise_singleton ..)
    have hexecutables : ∀ executable ∈ [testExecutable],
        (TrustedExecutable.new executable.executableId executable.path).Returns
          (pinLog testExecutable.path ⟨#[]⟩) (.ok executable) := by
      intro executable hmem
      obtain rfl := List.mem_singleton.mp hmem
      exact TrustedExecutable.new_returns_iff.mpr ⟨_, rfl, rfl⟩
    have hbackend : (LinuxProcessSandboxBackend.new "linux" ⟨["usr", "bin", "bwrap"]⟩).Returns
        (pinLog ⟨["usr", "bin", "bwrap"]⟩ ⟨#[]⟩) (.ok testBackend) :=
      LinuxProcessSandboxBackend.new_returns_iff.mpr ⟨rfl, _, rfl, rfl⟩
    obtain ⟨executable, hmem, content, third, -, hconcluded, -⟩ :=
      (starts_pinned (fun _ ↦ _) hexecutables hbackend hnew hreturns).2.2 result rfl
    obtain rfl := List.mem_singleton.mp hmem
    exact ⟨_, result, _, hnew, hreturns, content, third, hconcluded⟩

end

end Alicerce
