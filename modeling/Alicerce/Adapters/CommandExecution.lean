import Alicerce.Adapters.CommandExecutor

/-!
# What precedes and follows an execution

The executor asks its backend to execute a command only when every check has passed, and returns a
result only when the checks behind the execution have passed as well.

* The backend is any (`foreignBackend`), and so is what happens to the workspace and to the
  executable between two calls, so the statement is about logs: wherever the execution stands in the
  log of a call, what stands before it is, piece by piece, the logs of the checks.
* `Spares`: a program never asks the backend to execute a command.  No check does, which lets the
  log be cut at the execution.
* `Cleared` is what the checks of a command have found by the end of a log.
* `execute_guarded`: no execution bypasses a check.
-/

set_option autoImplicit false

namespace Alicerce

open Py Lib

/-! ## Programs that execute nothing -/

/-- A call that is not the execution of a command by the backend. -/
def NotExecute : OsCall → Prop
  | .backendExecute _ => False
  | _ => True

/-- A program never asks the backend to execute a command. -/
abbrev Spares {α : Type} (p : Os α) : Prop := p.Calls NotExecute

section Spares

variable {α : Type} {p : Os α} {fuel : ℕ} {git : ControlledGitCli}

theorem spares_ask {c : OsCall} {r : c.Answer → Except Exc α} (h : NotExecute c) :
    Spares (.ask c r) := Action.calls_ask.mpr h

theorem notExecute_of_looks : ∀ c, OsCall.Looks c → NotExecute c := by
  intro c h
  cases c <;> trivial

theorem spares_verify (executable : TrustedExecutable) : Spares executable.verify :=
  Os.calls_translate (((looks_pinChanged _ _).mono notExecute_of_looks).bind fun _ ↦
    .ite trivial trivial)

/-! ### Git -/

theorem spares_run (arguments : List Text) (cwd : Path) (environment : List (Text × Text)) :
    Spares (git.run fuel arguments cwd environment) := by
  refine ControlledGitCli.calls_run (fun _ _ _ ↦ trivial) fun c hc ↦ ?_
  cases c <;> first | exact hc.elim | trivial

theorem spares_withControl {stem : Text} {dir : Path} {body : Path → List (Text × Text) → Os α}
    (hbody : ∀ control environment, Spares (body control environment)) :
    Spares (ControlledGitCli.withControl stem dir body) := by
  refine (spares_ask (by trivial)).bind fun control ↦ .tryFinally (.bind ?_ (hbody control))
    (spares_ask (by trivial))
  exact (spares_ask (by trivial)).bind fun _ ↦ (spares_ask (by trivial)).bind fun _ ↦
    (spares_ask (by trivial)).bind fun _ ↦ trivial

theorem spares_verifyBaseline (repository : Path) (baselineSha : BaselineSha) :
    Spares (git.verifyBaseline fuel repository baselineSha) := by
  refine .bind ((Os.calls_translate (spares_ask (by trivial))).bind fun _ ↦ .bind ?_ fun _ ↦
    .ite trivial trivial) fun trusted ↦ .bind (Os.calls_translate (spares_withControl fun _ _ ↦ ?_))
      fun _ ↦ .ite trivial (.ite trivial trivial)
  · exact Os.calls_or (Os.calls_not (spares_ask (by trivial))) <|
      Os.calls_or (Os.calls_not (spares_ask (by trivial))) (spares_ask (by trivial))
  · exact (spares_run _ _ _).bind fun _ ↦ (spares_run _ _ _).bind fun _ ↦ trivial

/-! ### The workspace -/

theorem spares_checkLinks (workspace current : Path) (names directories : List Text) :
    Spares (checkLinks workspace current names directories) := by
  induction names generalizing directories with
  | nil => trivial
  | cons name names ih =>
    refine (spares_ask (by trivial)).bind fun _ ↦ .ite ?_ (ih _)
    exact (Os.calls_translate (spares_ask (by trivial))).bind fun _ ↦ .ite (ih _) trivial

theorem spares_pushDirectories (current : Path) (names : List Text) (stack : List Path) :
    Spares (pushDirectories current names stack) := by
  induction names generalizing stack with
  | nil => trivial
  | cons name names ih => exact (spares_ask (by trivial)).bind fun _ ↦ .ite (ih _) (ih _)

theorem spares_walkSymlinks (workspace : Path) (stack : List Path) :
    Spares (walkSymlinks workspace fuel stack) := by
  induction fuel generalizing stack with
  | zero => trivial
  | succ fuel ih =>
    cases stack with
    | nil => trivial
    | cons current stack =>
      exact (Os.calls_translate (spares_ask (by trivial))).bind fun _ ↦
        (spares_checkLinks _ _ _ _).bind fun _ ↦ (spares_pushDirectories _ _ _).bind fun _ ↦ ih _

theorem spares_configDigest (workspace : Path) : Spares (configDigest workspace) := by
  refine .bind (Os.calls_or (spares_ask (by trivial)) (Os.calls_not (spares_ask (by trivial))))
    fun _ ↦ .ite trivial (Os.calls_translate ((spares_ask (by trivial)).bind fun _ ↦ trivial))

theorem spares_validateRecord (adapter : LocalGitWorkspace) (record : WorkspaceRecord) :
    Spares (adapter.validateRecord fuel record) := by
  refine .bind ((Os.calls_translate (spares_ask (by trivial))).bind fun _ ↦ .bind ?_ fun _ ↦
    .ite trivial trivial) fun _ ↦ .bind trivial fun _ ↦
    .ite trivial (.bind ?_ fun _ ↦ .ite trivial ?_)
  · exact Os.calls_or (spares_ask (by trivial))
      (Os.calls_or (Os.calls_not (spares_ask (by trivial))) trivial)
  · exact Os.calls_or (spares_ask (by trivial))
      (Os.calls_or (Os.calls_not (spares_ask (by trivial))) trivial)
  · exact (spares_walkSymlinks _ _).bind fun _ ↦ (spares_configDigest _).bind fun _ ↦
      .ite trivial (Os.calls_translate (Os.calls_discard (spares_verifyBaseline _ _)))

theorem spares_enterLease (adapter : LocalGitWorkspace) (registry : Registry)
    (workspace : WorkspaceIdentity) : Spares (adapter.enterLease fuel registry workspace) :=
  Action.calls_lift.bind fun _ ↦ (spares_validateRecord _ _).bind fun _ ↦ trivial

/-! ### The working directory -/

theorem spares_descend (candidate : Path) (parts : List Text) :
    Spares (descend candidate parts) := by
  induction parts generalizing candidate with
  | nil => trivial
  | cons part parts ih => exact (spares_ask (by trivial)).bind fun _ ↦ .ite trivial (ih _)

theorem spares_resolveWorkingDirectory (root : Path) (relative : WorkingDirectory) :
    Spares (resolveWorkingDirectory root relative) := by
  refine (spares_descend _ _).bind fun _ ↦ (Os.calls_translate (spares_ask (by trivial))).bind
    fun _ ↦ .bind ?_ fun _ ↦ .ite trivial trivial
  exact Os.calls_or (Os.calls_not (spares_ask (by trivial))) trivial

end Spares

/-! ## The checks -/

/-- What the checks of a command have found by the end of a log, each by its own part of the log:
the backend supports the policy, the executable verifies, the record is the one of the requested
workspace and validates, the working directory resolves, and the executable verifies again. -/
structure Cleared (executor : LocalCommandExecutor) (fuel : ℕ) (registry : Registry)
    (command : AuthorizedCommand) (executable : TrustedExecutable) (record : WorkspaceRecord)
    (workingDirectory : Path) (log : OsLog) : Prop where
  reauthorized : authorizeCommand command.request command.policy = .ok command
  found : executor.lookup command.request.executable = some executable
  recorded : registry.records command.request.workspace.workspaceId = some record
  identical : record.identity = command.request.workspace
  checked : ∃ verified validated resolved verifiedAgain,
    log = ⟨.backendSupports command.request.networkPolicy, .ok true⟩ ::
        (verified ++ (validated ++ (resolved ++ verifiedAgain))) ∧
      executable.verify.Returns verified (.ok ()) ∧
      (executor.workspace.validateRecord fuel record).Returns validated (.ok ()) ∧
      (resolveWorkingDirectory record.path command.request.workingDirectory).Returns resolved
        (.ok workingDirectory) ∧
      executable.verify.Returns verifiedAgain (.ok ())

section

variable {executor : LocalCommandExecutor} {fuel : ℕ} {registry : Registry}
  {command : AuthorizedCommand} {executable : TrustedExecutable} {record : WorkspaceRecord}
  {workingDirectory root : Path} {log before after : OsLog}

theorem returns_notExecute {α : Type} {p : Os α} {x : Except Exc α} (hp : Spares p)
    (h : p.Returns log x) : ∀ e ∈ log, NotExecute e.1 := hp.leads h

/-- No check executes anything. -/
theorem Cleared.notExecute (h : Cleared executor fuel registry command executable record
    workingDirectory log) : ∀ e ∈ log, NotExecute e.1 := by
  obtain ⟨verified, validated, resolved, verifiedAgain, rfl, h₁, h₂, h₃, h₄⟩ := h.checked
  intro e he
  simp only [List.mem_cons, List.mem_append] at he
  rcases he with rfl | he | he | he | he
  · trivial
  · exact returns_notExecute (spares_verify executable) h₁ e he
  · exact returns_notExecute (spares_validateRecord _ _) h₂ e he
  · exact returns_notExecute (spares_resolveWorkingDirectory _ _) h₃ e he
  · exact returns_notExecute (spares_verify executable) h₄ e he

theorem requireRecord_eq_ok_iff {workspace : WorkspaceIdentity} :
    registry.requireRecord workspace = .ok record ↔
      registry.records workspace.workspaceId = some record ∧ record.identity = workspace := by
  rw [Registry.requireRecord]
  split
  · rename_i hnone
    rw [hnone]
    simp
  · rename_i other hsome
    rw [hsome, ite_error_eq_ok_iff, not_not, Option.some.injEq, eq_comm (a := record)]
    constructor
    · rintro ⟨hother, rfl⟩
      exact ⟨rfl, hother⟩
    · rintro ⟨rfl, hother⟩
      exact ⟨hother, rfl⟩

/-- An execution with a foreign backend is one call. -/
theorem returns_translate_execute {invocation : SandboxInvocation} {x : Except Exc SandboxResult} :
    (Os.translate Exc.isSandboxError translateSandboxError
        (foreignBackend.execute invocation)).Returns log x ↔
      ∃ answer, log = [⟨.backendExecute invocation, answer⟩] ∧
        x = Py.translate Exc.isSandboxError translateSandboxError answer := by
  rw [Os.returns_translate]
  constructor
  · rintro ⟨y, h, rfl⟩
    obtain ⟨_, rfl, rfl⟩ := Action.returns_ask.mp h
    exact ⟨_, rfl, rfl⟩
  · rintro ⟨answer, rfl, rfl⟩
    exact ⟨answer, Action.returns_ask.mpr ⟨answer, rfl, rfl⟩, rfl⟩

theorem leads_translate_execute {invocation : SandboxInvocation} {event : Event OsCall.Answer}
    {u : Os SandboxResult} (hevent : ¬NotExecute event.1)
    (h : (Os.translate Exc.isSandboxError translateSandboxError
        (foreignBackend.execute invocation)).Leads (before ++ event :: after) u) :
    before = [] ∧ event.1 = .backendExecute invocation ∧ ∀ e ∈ after, NotExecute e.1 := by
  obtain ⟨l, l', p, rfl, hp, hl'⟩ := Action.leads_andThen_of_calls_right (fun x ↦ by
    cases x <;> trivial) hevent h
  rcases Action.leads_ask.mp hp with ⟨hlog, -⟩ | ⟨answer, hlog, -⟩
  · exact absurd hlog (by simp)
  · obtain ⟨rfl, hcons⟩ | ⟨m, rfl, hm⟩ := List.append_eq_cons_iff.mp hlog
    · obtain ⟨rfl, rfl⟩ := List.cons.inj hcons
      exact ⟨rfl, rfl, hl'⟩
    · exact absurd hm (by simp)

/-! ## Around the execution -/

/-- A log through an execution, cut at it: what precedes it in a lease. -/
theorem runLeased_leads (hforeign : executor.sandbox = foreignBackend)
    {event : Event OsCall.Answer} (hevent : ¬NotExecute event.1) {u : Os ExecutionResult}
    (h : (executor.runLeased command.request executable root).Leads
      (before ++ event :: after) u) :
    ∃ workingDirectory resolved verifiedAgain, before = resolved ++ verifiedAgain ∧
      (resolveWorkingDirectory root command.request.workingDirectory).Returns resolved
        (.ok workingDirectory) ∧
      executable.verify.Returns verifiedAgain (.ok ()) ∧
      event.1 = .backendExecute (invocationOf executable command.request root workingDirectory) ∧
      ∀ e ∈ after, NotExecute e.1 := by
  rw [LocalCommandExecutor.runLeased, hforeign] at h
  obtain ⟨resolved, before, workingDirectory, rfl, hres, h⟩ :=
    Action.leads_bind_of_calls (spares_resolveWorkingDirectory _ _) hevent h
  obtain ⟨verifiedAgain, before, ⟨⟩, rfl, hver, h⟩ :=
    Action.leads_bind_of_calls (spares_verify executable) hevent h
  obtain ⟨l, l', p, rfl, hp, hl'⟩ := Action.leads_andThen_of_calls_right (fun x ↦ by
    cases x with
    | ok answer => exact (spares_verify executable).bind fun _ ↦ trivial
    | error e => trivial) hevent h
  obtain ⟨rfl, hcall, hl⟩ := leads_translate_execute hevent hp
  refine ⟨workingDirectory, resolved, verifiedAgain, by rw [List.append_nil], hres, hver, hcall, ?_⟩
  intro e he
  exact (List.mem_append.mp he).elim (hl e) (hl' e)

/-- A lease that returns a result has executed, and verified the executable behind it. -/
theorem runLeased_returns (hforeign : executor.sandbox = foreignBackend) {result : ExecutionResult}
    (h : (executor.runLeased command.request executable root).Returns log (.ok result)) :
    ∃ workingDirectory answer before after,
      log = before ++ ⟨.backendExecute
        (invocationOf executable command.request root workingDirectory), .ok answer⟩ :: after ∧
      executable.verify.Returns after (.ok ()) ∧
      resultOf command.request answer = .ok result := by
  rw [LocalCommandExecutor.runLeased, hforeign] at h
  obtain ⟨resolved, l, workingDirectory, rfl, -, h⟩ := Action.returns_bind_ok.mp h
  obtain ⟨verifiedAgain, l, ⟨⟩, rfl, -, h⟩ := Action.returns_bind_ok.mp h
  obtain ⟨executed, l, answer, rfl, hexec, h⟩ := Action.returns_bind_ok.mp h
  obtain ⟨verified, l, ⟨⟩, rfl, hver, h⟩ := Action.returns_bind_ok.mp h
  obtain ⟨rfl, hresult⟩ := Action.returns_lift.mp h
  obtain ⟨answer', rfl, hanswer⟩ := returns_translate_execute.mp hexec
  obtain rfl := translate_eq_ok_iff.mp hanswer.symm
  exact ⟨workingDirectory, answer, resolved ++ verifiedAgain, verified, by simp, hver, hresult.symm⟩

/-! ## The whole call -/

theorem authorize_of_reauthorize (h : LocalCommandExecutor.reauthorize command = .ok ()) :
    authorizeCommand command.request command.policy = .ok command := by
  obtain ⟨reauthorized, hauth, hsame⟩ := bind_eq_ok_iff.mp h
  rw [ite_error_eq_ok_iff, not_not] at hsame
  obtain ⟨rfl, -⟩ := hsame
  exact translate_eq_ok_iff.mp hauth

theorem lookup_of_requireExecutable (h : executor.requireExecutable command = .ok executable) :
    executor.lookup command.request.executable = some executable := by
  rw [LocalCommandExecutor.requireExecutable] at h
  split at h
  · rename_i other hother
    rw [hother, Except.ok.inj h]
  · exact absurd h (by simp)

/-- A lease is entered with the record of the workspace, which validates. -/
theorem enterLease_returns {adapter : LocalGitWorkspace} {workspace : WorkspaceIdentity}
    (h : (adapter.enterLease fuel registry workspace).Returns log (.ok record)) :
    (registry.records workspace.workspaceId = some record ∧ record.identity = workspace) ∧
      (adapter.validateRecord fuel record).Returns log (.ok ()) := by
  rw [LocalGitWorkspace.enterLease] at h
  cases hfound : registry.requireRecord workspace with
  | error e =>
    rw [hfound, Action.lift_error_bind] at h
    exact absurd (Action.returns_raise.mp h).2 (by simp)
  | ok found =>
    rw [hfound, Action.lift_ok_bind] at h
    obtain ⟨validated, l, ⟨⟩, rfl, hvalid, hpure⟩ := Action.returns_bind_ok.mp h
    obtain ⟨rfl, heq⟩ := Action.returns_pure.mp hpure
    obtain rfl := Except.ok.inj heq
    rw [List.append_nil]
    exact ⟨requireRecord_eq_ok_iff.mp hfound, hvalid⟩

/-- The checks before the lease have been passed by any log that goes on with it. -/
theorem Cleared.of_lease {supported verified validated resolved verifiedAgain : OsLog}
    (hauth : LocalCommandExecutor.reauthorize command = .ok ())
    (hfound : executor.requireExecutable command = .ok executable)
    (hsupp : supported = [⟨.backendSupports command.request.networkPolicy, .ok true⟩])
    (hver : executable.verify.Returns verified (.ok ()))
    (hlease : (executor.workspace.enterLease fuel registry command.request.workspace).Returns
      validated (.ok record))
    (hres : (resolveWorkingDirectory record.path command.request.workingDirectory).Returns resolved
      (.ok workingDirectory))
    (hagain : executable.verify.Returns verifiedAgain (.ok ())) :
    Cleared executor fuel registry command executable record workingDirectory
      (supported ++ (verified ++ (validated ++ (resolved ++ verifiedAgain)))) where
  reauthorized := authorize_of_reauthorize hauth
  found := lookup_of_requireExecutable hfound
  recorded := (enterLease_returns hlease).1.1
  identical := (enterLease_returns hlease).1.2
  checked := ⟨verified, validated, resolved, verifiedAgain, by rw [hsupp]; rfl, hver,
    (enterLease_returns hlease).2, hres, hagain⟩

/-- A log through an execution, cut at it: what precedes it, and that it is the only one. -/
theorem execute_leads (hforeign : executor.sandbox = foreignBackend)
    {event : Event OsCall.Answer} (hevent : ¬NotExecute event.1) {u : Os ExecutionResult}
    (h : (executor.execute fuel registry command).Leads (before ++ event :: after) u) :
    ∃ executable record workingDirectory,
      Cleared executor fuel registry command executable record workingDirectory before ∧
        event.1 = .backendExecute
          (invocationOf executable command.request record.path workingDirectory) ∧
        ∀ e ∈ after, NotExecute e.1 := by
  rw [LocalCommandExecutor.execute] at h
  cases hauth : LocalCommandExecutor.reauthorize command with
  | error e =>
    rw [hauth, Action.lift_error_bind] at h
    exact absurd (Action.leads_lift.mp h).1 (by simp)
  | ok authorized =>
  rw [hauth, Action.lift_ok_bind] at h
  cases hfound : executor.requireExecutable command with
  | error e =>
    rw [hfound, Action.lift_error_bind] at h
    exact absurd (Action.leads_lift.mp h).1 (by simp)
  | ok executable =>
  rw [hfound, Action.lift_ok_bind, hforeign] at h
  obtain ⟨supported, l₁, answer, rfl, hsupp, h₁⟩ :=
    Action.leads_bind_of_calls (spares_ask (by trivial)) hevent h
  obtain ⟨supports, hlog, hanswer⟩ := Action.returns_ask.mp hsupp
  obtain rfl : supports = .ok answer := hanswer.symm
  cases answer with
  | false => exact absurd (Action.leads_lift.mp h₁).1 (by simp)
  | true =>
  obtain ⟨verified, l₂, ⟨⟩, rfl, hver, h₂⟩ :=
    Action.leads_bind_of_calls (spares_verify executable) hevent h₁
  obtain ⟨m, m', lease, rfl, hlease, hm'⟩ := Action.leads_andThen_of_calls_right (fun x ↦ by
    cases x <;> trivial) hevent h₂
  obtain ⟨validated, l₃, record, rfl, hvalid, hentered⟩ :=
    Action.leads_bind_of_calls (spares_enterLease _ _ _) hevent hlease
  obtain ⟨n, n', body, rfl, hbody, hn'⟩ := Action.leads_andThen_of_calls_right (fun x ↦
    (spares_validateRecord _ record).andThen fun y ↦ by cases y <;> trivial) hevent hentered
  obtain ⟨workingDirectory, resolved, verifiedAgain, rfl, hres, hagain, hcall, hn⟩ :=
    runLeased_leads hforeign hevent hbody
  refine ⟨executable, record, workingDirectory, ?_, hcall, ?_⟩
  · exact .of_lease hauth hfound hlog hver hvalid hres hagain
  · intro e he
    simp only [List.mem_append] at he
    exact he.elim (Or.rec (hn e) (hn' e)) (hm' e)

/-- A call that returns a result: the last part of its log. -/
theorem execute_returns (hforeign : executor.sandbox = foreignBackend) {result : ExecutionResult}
    (h : (executor.execute fuel registry command).Returns log (.ok result)) :
    ∃ executable record workingDirectory answer before verified validated,
      log = before ++ ⟨.backendExecute
        (invocationOf executable command.request record.path workingDirectory), .ok answer⟩ ::
          (verified ++ validated) ∧
      executor.lookup command.request.executable = some executable ∧
      registry.records command.request.workspace.workspaceId = some record ∧
      executable.verify.Returns verified (.ok ()) ∧
      (executor.workspace.validateRecord fuel record).Returns validated (.ok ()) ∧
      resultOf command.request answer = .ok result := by
  rw [LocalCommandExecutor.execute] at h
  obtain ⟨m, l₁, ⟨⟩, rfl, -, h₁⟩ := Action.returns_bind_ok.mp h
  obtain ⟨n, l₂, executable, rfl, hfound, h₂⟩ := Action.returns_bind_ok.mp h₁
  obtain ⟨supported, l₃, answer, rfl, -, h₃⟩ := Action.returns_bind_ok.mp h₂
  cases answer with
  | false => exact absurd (Action.returns_raise.mp h₃).2 (by simp)
  | true =>
  obtain ⟨verified, l₄, ⟨⟩, rfl, -, h₄⟩ := Action.returns_bind_ok.mp h₃
  obtain ⟨x, hlease, hx⟩ := Os.returns_translate.mp h₄
  obtain rfl := translate_eq_ok_iff.mp hx.symm
  obtain ⟨validated, l₅, record, rfl, hvalid, hbody⟩ := Action.returns_bind_ok.mp hlease
  obtain ⟨l₆, validatedAgain, y, rfl, hrun, ⟨hagain, rfl⟩ | ⟨e, -, he⟩⟩ :=
    Action.returns_tryFinally.mp hbody
  swap; · exact absurd he (by simp)
  obtain ⟨workingDirectory, answer, before, after, rfl, hver, hresult⟩ :=
    runLeased_returns hforeign hrun
  refine ⟨executable, record, workingDirectory, answer,
    m ++ (n ++ (supported ++ (verified ++ (validated ++ before)))), after, validatedAgain, by simp,
    lookup_of_requireExecutable (Action.returns_lift.mp hfound).2.symm,
    (enterLease_returns hvalid).1.1, hver, hagain, hresult⟩

/-- **No execution bypasses a check.** -/
theorem execute_guarded (hforeign : executor.sandbox = foreignBackend) {u : Os ExecutionResult}
    (h : (executor.execute fuel registry command).Leads log u) :
    (∀ before invocation answer after,
      log = before ++ ⟨.backendExecute invocation, answer⟩ :: after →
        (∃ executable record workingDirectory,
          Cleared executor fuel registry command executable record workingDirectory before ∧
            invocation = invocationOf executable command.request record.path workingDirectory) ∧
          ∀ e ∈ before ++ after, NotExecute e.1) ∧
      ∀ result, u = .lift (.ok result) →
        ∃ executable record workingDirectory answer before verified validated,
          log = before ++ ⟨.backendExecute
            (invocationOf executable command.request record.path workingDirectory), .ok answer⟩ ::
              (verified ++ validated) ∧
          Cleared executor fuel registry command executable record workingDirectory before ∧
          executable.verify.Returns verified (.ok ()) ∧
          (executor.workspace.validateRecord fuel record).Returns validated (.ok ()) ∧
          result.request = command.request ∧ result.termination = answer.termination ∧
          result.exitCode = answer.exitCode ∧ result.stdout = answer.stdout ∧
          result.stderr = answer.stderr ∧ utc result.startedAt = answer.startedAt ∧
          utc result.finishedAt = answer.finishedAt := by
  have hcut : ∀ {before after : OsLog} {event : Event OsCall.Answer}, ¬NotExecute event.1 →
      log = before ++ event :: after → ∃ executable record workingDirectory,
        Cleared executor fuel registry command executable record workingDirectory before ∧
          event.1 = .backendExecute
            (invocationOf executable command.request record.path workingDirectory) ∧
          ∀ e ∈ after, NotExecute e.1 :=
    fun hevent hlog ↦ execute_leads hforeign hevent (hlog ▸ h)
  refine ⟨fun before invocation answer after hlog ↦ ?_, ?_⟩
  · obtain ⟨executable, record, workingDirectory, hcleared, hcall, hafter⟩ := hcut id hlog
    refine ⟨⟨executable, record, workingDirectory, hcleared, OsCall.backendExecute.inj hcall⟩, ?_⟩
    intro e he
    exact (List.mem_append.mp he).elim (hcleared.notExecute e) (hafter e)
  · rintro result rfl
    obtain ⟨executable, record, workingDirectory, answer, before, verified, validated, hlog, hfound,
      hrec, hver, hvalid, hresult⟩ := execute_returns hforeign h
    obtain ⟨executable', record', workingDirectory', hcleared, hcall, -⟩ := hcut id hlog
    obtain rfl := Option.some.inj (hfound.symm.trans hcleared.found)
    obtain rfl := Option.some.inj (hrec.symm.trans hcleared.recorded)
    have hsame := OsCall.backendExecute.inj hcall
    obtain rfl : workingDirectory = workingDirectory' :=
      congrArg SandboxInvocation.workingDirectory hsame
    obtain ⟨hrequest, htermination, hexit, hout, herr, hstart, hfinish⟩ :=
      ExecutionResult.new_eq_ok_iff.mp (translate_eq_ok_iff.mp hresult)
    exact ⟨executable, record, workingDirectory, answer, before, verified, validated, hlog,
      hcleared, hver, hvalid, hrequest, htermination, hexit, hout, herr, hstart, hfinish⟩

/-- The record of the run's workspace. -/
def localRecord : WorkspaceRecord :=
  ⟨testCommand.request.workspace, ⟨["work", "workspace-1"]⟩, sha256 ⟨#[]⟩⟩

theorem execute_guarded_tests : ∃ log result,
    ((localExecutor foreignBackend).execute 9 (Registry.empty.publish localRecord)
      testCommand).Returns log (.ok result) ∧
    ∃ executable record workingDirectory before,
      Cleared (localExecutor foreignBackend) 9 (Registry.empty.publish localRecord) testCommand
        executable record workingDirectory before ∧ before <+: log := by
  have hplay : (Interaction.play (obligingHost headOutput)
      ((localExecutor foreignBackend).execute 9 (Registry.empty.publish localRecord) testCommand)
      []).2.map Except.isOk = some true := by
    decide +kernel
  obtain ⟨x, hx, hok⟩ := Option.map_eq_some_iff.mp hplay
  cases x with
  | error e => exact absurd hok (by simp [Except.isOk, Except.toBool])
  | ok result =>
    have hreturns := Interaction.returns_play hx
    obtain ⟨executable, record, workingDirectory, _, before, _, _, hlog, hcleared, -⟩ :=
      (execute_guarded rfl hreturns).2 result rfl
    exact ⟨_, result, hreturns, executable, record, workingDirectory, before, hcleared,
      hlog ▸ List.prefix_append _ _⟩

end

end Alicerce
