import Alicerce.Adapters.CommandExecution
import Alicerce.Adapters.GitCapture
import Alicerce.Adapters.ProcessCleanup

/-!
# How a command fails

Where the exceptions come from that the steps of a command raise.  Every step has handlers of its
own, and what they let through is of two kinds: the errors of the layer the step is part of, and
what no handler expects.

* `Unhandled` are the latter, each with the answer it comes from.
* `PinError`, `SandboxFailure`, `LeaseFailure` and `CommandFailure` are the former, each with what
  it says of the log.
* The order is that of the layers, and each has a theorem that says what it accounts for: a pinned
  executable (`TrustedExecutable.accounts_verify`), the capture (`accounts_captureAndReap`) and the
  sandbox (`accounts_execute`), the checks of a workspace (`accounts_validateRecord`), what is done
  in it (`accounts_runLeased`), and the lease of it (`accounts_executionLease`).
-/

set_option autoImplicit false

namespace Alicerce

open Py Lib

/-! ## What nothing handles -/

/-- The exceptions that no handler around a command expects, by what they come from. -/
inductive Unhandled (git : ControlledGitCli) (limits : CommandLimits) (log : OsLog) : Exc → Prop
  | isSymlink {path : Path} {error : OsError} :
    ⟨.isSymlink path, .error error⟩ ∈ log → Unhandled git limits log error.toExc
  | isDir {path : Path} {error : OsError} :
    ⟨.isDir path, .error error⟩ ∈ log → Unhandled git limits log error.toExc
  | isFile {path : Path} {error : OsError} :
    ⟨.isFile path, .error error⟩ ∈ log → Unhandled git limits log error.toExc
  | loop {path : Path} {message : Text} :
    ⟨.resolve path, .error (.loop message)⟩ ∈ log → Unhandled git limits log (.runtimeError message)
  | path {path : Path} :
    ⟨.resolve path, .error .encode⟩ ∈ log → Unhandled git limits log .unicodeEncodeError
  | probe {argv : List Text} :
    ⟨.runProbe argv, .error .encode⟩ ∈ log → Unhandled git limits log .unicodeEncodeError
  | argument {argv : List Text} {cwd : Path} {environment : List (Text × Text)} :
    ⟨.popen argv cwd environment, .error .encode⟩ ∈ log →
    Unhandled git limits log .unicodeEncodeError
  /-- The selector is asked to wait for too long, by the time that has passed. -/
  | wait {timeout start now : ℚ} {message : Text} :
    timeout = git.timeoutSeconds ∨ timeout = limits.timeoutMs / 1000 → ⟨.monotonic, start⟩ ∈ log →
      ⟨.monotonic, now⟩ ∈ log → Os.selectLimit < start + timeout - now →
        Unhandled git limits log (.overflowError message)
  /-- A limit is too large for a float. -/
  | limit {message : Text} : Os.floatLimit ≤ (limits.timeoutMs : ℚ) / 1000 ∨
      Os.floatLimit ≤ (limits.terminationGraceMs : ℚ) / 1000 →
        Unhandled git limits log (.overflowError message)

section

variable {α : Type} {git : ControlledGitCli} {limits : CommandLimits} {known : OsLog → Exc → Prop}
  {log log' : OsLog} {e : Exc}

theorem Unhandled.mono (hsub : log ⊆ log') (h : Unhandled git limits log e) :
    Unhandled git limits log' e := by
  cases h with
  | isSymlink hmem => exact .isSymlink (hsub hmem)
  | isDir hmem => exact .isDir (hsub hmem)
  | isFile hmem => exact .isFile (hsub hmem)
  | loop hmem => exact .loop (hsub hmem)
  | path hmem => exact .path (hsub hmem)
  | probe hmem => exact .probe (hsub hmem)
  | argument hmem => exact .argument (hsub hmem)
  | wait htimeout hstart hnow hfar => exact .wait htimeout (hsub hstart) (hsub hnow) hfar
  | limit hlimit => exact .limit hlimit

instance : Lasting (Unhandled git limits) := ⟨Unhandled.mono⟩

/-- An exception is known of, or it is one that nothing handles. -/
def Excused (git : ControlledGitCli) (limits : CommandLimits) (known : OsLog → Exc → Prop)
    (log : OsLog) (e : Exc) : Prop := known log e ∨ Unhandled git limits log e

instance [Lasting known] : Lasting (Excused git limits known) :=
  ⟨fun hsub ↦ Or.imp (Lasting.mono hsub) (Unhandled.mono hsub)⟩

namespace Os

variable {R R' : OsLog → Exc → Prop} {path : Path}

theorem accounts_or [Lasting R] {p q : Os Bool} (hp : p.Accounts R) (hq : q.Accounts R) :
    (Os.or p q).Accounts R :=
  hp.bind fun _ ↦ .ite (fun _ ↦ Action.accounts_pure _) fun _ ↦ hq

theorem accounts_not [Lasting R] {p : Os Bool} (hp : p.Accounts R) :
    (do return !(← p) : Os Bool).Accounts R := hp.bind fun _ ↦ Action.accounts_pure _

theorem accounts_discard [Lasting R] {p : Os α} (hp : p.Accounts R) :
    (discard p : Os PUnit).Accounts R := hp.bind fun _ ↦ Action.accounts_pure _

/-- A handler changes the exceptions it catches, and no other one. -/
theorem accounts_translate {caught : Exc → Bool} {f : Exc → Exc} {p : Os α} (hp : p.Accounts R)
    (hR : ∀ log e, R log e → R' log (if caught e then f e else e)) :
    (Os.translate caught f p).Accounts R' :=
  hp.tryCatch fun l e he ↦ Action.accounts_raise (by simpa using hR l e he)

/-- A handler that makes a known exception of all it catches. -/
theorem accounts_translate_excused (known : OsLog → Exc → Prop) {known' : OsLog → Exc → Prop}
    {caught : Exc → Bool} {f : Exc → Exc} {p : Os α} (hp : p.Accounts (Excused git limits known))
    (hcaught : ∀ log e, caught e = true → known' log (f e))
    (hkept : ∀ log e, known log e → caught e = false → known' log e) :
    (Os.translate caught f p).Accounts (Excused git limits known') := by
  refine accounts_translate hp fun log e he ↦ ?_
  by_cases hc : caught e = true
  · rw [if_pos hc]
    exact .inl (hcaught log e hc)
  · rw [if_neg hc]
    exact he.imp_left fun hknown ↦ hkept log e hknown (Bool.eq_false_iff.mpr hc)

theorem accounts_isSymlink : (Os.isSymlink path).Accounts (Excused git limits known) :=
  Action.accounts_ask fun answer e he ↦ by
    obtain ⟨error, rfl, rfl⟩ := mapError_eq_error_iff.mp he
    exact .inr (.isSymlink (List.mem_singleton_self _))

theorem accounts_isDir : (Os.isDir path).Accounts (Excused git limits known) :=
  Action.accounts_ask fun answer e he ↦ by
    obtain ⟨error, rfl, rfl⟩ := mapError_eq_error_iff.mp he
    exact .inr (.isDir (List.mem_singleton_self _))

theorem accounts_isFile : (Os.isFile path).Accounts (Excused git limits known) :=
  Action.accounts_ask fun answer e he ↦ by
    obtain ⟨error, rfl, rfl⟩ := mapError_eq_error_iff.mp he
    exact .inr (.isFile (List.mem_singleton_self _))

/-- Of a path only its `OSError`s are expected. -/
theorem accounts_resolve (hos : ∀ log e, IsOsError e → known log e) :
    (Os.resolve path).Accounts (Excused git limits known) :=
  Action.accounts_ask fun answer e he ↦ by
    obtain ⟨error, rfl, rfl⟩ := mapError_eq_error_iff.mp he
    cases error with
    | os error => exact .inl (hos _ _ rfl)
    | loop message => exact .inr (.loop (List.mem_singleton_self _))
    | encode => exact .inr (.path (List.mem_singleton_self _))

/-- A call that raises nothing but `OSError`s, where these are expected. -/
theorem accounts_ask {c : OsCall} {β : Type} {answer : c.Answer → Except Exc β}
    (hr : ∀ a e, answer a = .error e → IsOsError e) (hos : ∀ log e, IsOsError e → known log e) :
    (Action.ask c answer).Accounts (Excused git limits known) :=
  Action.accounts_ask fun a e he ↦ .inl (hos _ _ (hr a e he))

end Os

end

/-! ## A pinned executable -/

/-- A path that cannot be looked at. -/
def Refuses (path : Path) : Event OsCall.Answer → Prop
  | ⟨.isSymlink p, .error _⟩ | ⟨.resolve p, .error (.os _)⟩ | ⟨.isFile p, .error _⟩
  | ⟨.accessExecutable p, .error _⟩ | ⟨.readFile p, .error _⟩ => p = path
  | _ => False

/-- What checking a pin raises: an `OSError` about the path, or what nothing handles. -/
def PinError (git : ControlledGitCli) (limits : CommandLimits) (path : Path) (log : OsLog)
    (e : Exc) : Prop :=
  IsOsError e ∧ Happened (Refuses path) log ∨ ¬IsOsError e ∧ Unhandled git limits log e

/-- What is reported of a command, with what has happened when it is. -/
inductive CommandFailure (executable : TrustedExecutable) (log : OsLog) : Exc → Prop
  | unreadable {detail : Text} : Happened (Refuses executable.path) log →
    CommandFailure executable log (commandExecutionError .executableUnavailable detail)
  | isolation {detail : Text} :
    CommandFailure executable log (commandExecutionError .isolationFailure detail)
  | spawn {argv : List Text} {error : OsError} {detail : Text} :
    ⟨.popen argv rootDirectory [], .error (.os error)⟩ ∈ log →
      CommandFailure executable log (commandExecutionError .spawnFailed detail)
  | cleanup {argv : List Text} {process : Process} {detail : Text} :
    ⟨.popen argv rootDirectory [], .ok process⟩ ∈ log →
      CommandFailure executable log (commandExecutionError .cleanupFailed detail)

/-- The sandbox says that it has not been isolated. -/
def IsIsolationFailure (e : Exc) : Prop := ∃ detail, e = sandboxError .isolationFailure detail

section

variable {git : ControlledGitCli} {limits : CommandLimits} {path : Path} {log log' : OsLog}
  {e : Exc} {executable : TrustedExecutable}

instance : Lasting (PinError git limits path) where
  mono hsub := .imp (.imp_right (·.of_subset hsub)) (.imp_right (Unhandled.mono hsub))

theorem CommandFailure.mono (hsub : log ⊆ log') (h : CommandFailure executable log e) :
    CommandFailure executable log' e := by
  cases h with
  | unreadable hrefused => exact .unreadable (hrefused.of_subset hsub)
  | isolation => exact .isolation
  | spawn hmem => exact .spawn (hsub hmem)
  | cleanup hmem => exact .cleanup (hsub hmem)

instance : Lasting (CommandFailure executable) := ⟨CommandFailure.mono⟩

theorem accounts_pinChanged {hash : Bytes} :
    (pinChanged path hash).Accounts (PinError git limits path) := by
  have hos : ∀ {β : Type} {c : OsCall} {r : c.Answer → Except Exc β},
      (∀ answer e, r answer = .error e → IsOsError e ∧ Refuses path ⟨c, answer⟩) →
        (Action.ask c r).Accounts (PinError git limits path) := fun hr ↦
    Action.accounts_ask fun answer e he ↦
      .inl ⟨(hr answer e he).1, _, List.mem_singleton_self _, (hr answer e he).2⟩
  have hresolve : (Os.resolve path).Accounts (PinError git limits path) := by
    refine Action.accounts_ask fun answer e he ↦ ?_
    obtain ⟨error, rfl, rfl⟩ := mapError_eq_error_iff.mp he
    cases error with
    | os error => exact .inl ⟨rfl, _, List.mem_singleton_self _, rfl⟩
    | loop message =>
      exact .inr ⟨by simp [ResolveError.toExc, Exc.isOsError], .loop (List.mem_singleton_self _)⟩
    | encode =>
      exact .inr ⟨by simp [ResolveError.toExc, Exc.isOsError], .path (List.mem_singleton_self _)⟩
  refine Os.accounts_or (hos ?_) (Os.accounts_or (hresolve.bind fun _ ↦ Action.accounts_pure _)
    (Os.accounts_or (Os.accounts_not (hos ?_)) (Os.accounts_or (Os.accounts_not (hos ?_))
      ((hos ?_).bind fun _ ↦ Action.accounts_pure _))))
  all_goals
    rintro answer e he
    obtain ⟨error, rfl, rfl⟩ := mapError_eq_error_iff.mp he
    exact ⟨rfl, rfl⟩

theorem TrustedExecutable.looks_verify (executable : TrustedExecutable) :
    executable.verify.Calls OsCall.Looks :=
  Os.calls_translate ((looks_pinChanged _ _).bind fun _ ↦ .ite trivial trivial)

/-- **The check of an executable** reports an `OSError` about its path as its being unavailable. -/
theorem TrustedExecutable.accounts_verify :
    executable.verify.Accounts (Excused git limits (CommandFailure executable)) := by
  refine Os.accounts_translate (R := fun log e ↦ PinError git limits executable.path log e ∨
    ∃ detail, e = commandExecutionError .isolationFailure detail) ?_ fun log e he ↦ ?_
  · exact .bind_of_returns (accounts_pinChanged.mono fun _ _ ↦ .inl) fun _ _ _ ↦
      .ite (fun _ ↦ Action.accounts_raise (.inr ⟨_, rfl⟩)) fun _ ↦ Action.accounts_pure _
  · rcases he with (⟨hos, hrefused⟩ | ⟨hos, hunhandled⟩) | ⟨detail, rfl⟩
    · rw [if_pos hos]
      exact .inl (.unreadable hrefused)
    · rw [if_neg hos]
      exact .inr hunhandled
    · exact .inl .isolation

theorem PinnedBubblewrap.accounts_verify {bubblewrap : PinnedBubblewrap} :
    bubblewrap.verify.Accounts (Excused git limits fun _ ↦ IsIsolationFailure) := by
  refine Os.accounts_translate (R := fun log e ↦ PinError git limits bubblewrap.path log e ∨
    IsIsolationFailure e) ?_ fun log e he ↦ ?_
  · exact .bind_of_returns (accounts_pinChanged.mono fun _ _ ↦ .inl) fun _ _ _ ↦
      .ite (fun _ ↦ Action.accounts_raise (.inr ⟨_, rfl⟩)) fun _ ↦ Action.accounts_pure _
  · rcases he with (⟨hos, -⟩ | ⟨hos, hunhandled⟩) | ⟨detail, rfl⟩
    · rw [if_pos hos]
      exact .inl ⟨_, rfl⟩
    · rw [if_neg hos]
      exact .inr hunhandled
    · exact .inl ⟨detail, rfl⟩

end

/-! ## The sandbox -/

/-- What the sandbox reports, with what has happened when it does. -/
inductive SandboxFailure (log : OsLog) : Exc → Prop
  | isolation {detail : Text} : SandboxFailure log (sandboxError .isolationFailure detail)
  | spawn {argv : List Text} {error : OsError} {detail : Text} :
    ⟨.popen argv rootDirectory [], .error (.os error)⟩ ∈ log →
      SandboxFailure log (sandboxError .spawnFailed detail)
  | cleanup {argv : List Text} {process : Process} {detail : Text} :
    ⟨.popen argv rootDirectory [], .ok process⟩ ∈ log →
      SandboxFailure log (sandboxError .cleanupFailed detail)

/-- The sandbox says that its cleanup has failed. -/
def IsCleanupFailure (e : Exc) : Prop := ∃ detail, e = sandboxError .cleanupFailed detail

/-- A number was too large. -/
def IsOverflow (e : Exc) : Prop := ∃ message, e = .overflowError message

/-- What a capture raises that has to end by a deadline. -/
def CaptureError (deadline : ℚ) (log : OsLog) (e : Exc) : Prop :=
  IsOsError e ∨ IsOverflow e ∧ FarOff deadline log

/-- What ending a process raises. -/
def TerminationError (graceMs : ℕ) (e : Exc) : Prop :=
  IsCleanupFailure e ∨ IsOverflow e ∧ Os.floatLimit ≤ (graceMs : ℚ) / 1000

instance {deadline : ℚ} : Lasting (CaptureError deadline) :=
  ⟨fun hsub ↦ .imp_right (.imp_right (·.of_subset hsub))⟩

theorem Os.seconds_eq_error {milliseconds : ℕ} {e : Exc} (h : Os.seconds milliseconds = .error e) :
    IsOverflow e ∧ Os.floatLimit ≤ (milliseconds : ℚ) / 1000 := by
  rw [Os.seconds] at h
  split at h
  · rename_i hlimit
    exact ⟨⟨_, (Except.error.inj h).symm⟩, hlimit⟩
  · exact absurd h (by simp)

theorem Os.eq_of_seconds {milliseconds : ℕ} {timeout : ℚ}
    (h : Os.seconds milliseconds = .ok timeout) : timeout = (milliseconds : ℚ) / 1000 := by
  rw [Os.seconds] at h
  split at h
  · exact absurd h (by simp)
  · exact (Except.ok.inj h).symm

section

variable {α : Type} {git : ControlledGitCli} {limits : CommandLimits} {process : Process}
  {deadline : ℚ} {fuel graceMs : ℕ} {log log' : OsLog} {e : Exc}

theorem SandboxFailure.mono (hsub : log ⊆ log') (h : SandboxFailure log e) :
    SandboxFailure log' e := by
  cases h with
  | isolation => exact .isolation
  | spawn hmem => exact .spawn (hsub hmem)
  | cleanup hmem => exact .cleanup (hsub hmem)

instance : Lasting SandboxFailure := ⟨SandboxFailure.mono⟩

theorem accounts_captureLoop (streams : Streams) :
    (captureLoop limits process deadline fuel streams).Accounts (CaptureError deadline) := by
  induction fuel generalizing streams with
  | zero => exact Action.accounts_running
  | succ fuel ih =>
    refine .ite (fun _ ↦ Action.accounts_pure _) fun _ ↦
      Action.accounts_ask_bind (fun _ _ he ↦ absurd he (by simp)) fun now _ hnow ↦ ?_
    obtain rfl := Except.ok.inj hnow
    refine .ite (fun _ ↦ Action.accounts_pure _) fun _ ↦ .bind (.ite (fun hfar ↦ ?_) fun _ ↦ ?_)
      fun events ↦ .bind (raises_isIdle.accounts fun _ _ ↦ .inl) fun _ ↦
        .ite (fun _ ↦ (ih _).mono fun _ _ ↦ Lasting.mono (List.subset_cons_self ..)) fun _ ↦
          .bind ((raises_readEvents _ _).accounts fun _ _ ↦ .inl) fun _ ↦
            .ite (fun _ ↦ Action.accounts_pure _) fun _ ↦
              (ih _).mono fun _ _ ↦ Lasting.mono (List.subset_cons_self ..)
    · exact Action.accounts_raise (.inr ⟨⟨_, rfl⟩, _, List.mem_singleton_self _, hfar⟩)
    · refine Action.accounts_ask fun answer e he ↦ .inl ?_
      cases answer with
      | ok ready => exact absurd he (by simp [Except.mapError, Except.map])
      | error error =>
        obtain rfl := Except.error.inj he
        rfl

theorem accounts_withCapture {body : Os α} (hbody : body.Accounts (CaptureError deadline)) :
    (withCapture process body).Accounts (CaptureError deadline) := by
  have hos : ∀ {c : OsCall} {r : c.Answer → Except Exc Unit},
      (∀ answer e, r answer = .error e → IsOsError e) →
        (Action.ask c r).Accounts (CaptureError deadline) :=
    fun hr ↦ Action.accounts_ask fun answer e he ↦ .inl (hr answer e he)
  refine (hos fun _ _ ↦ isOsError_of_mapError).bind fun _ ↦
    (hos fun _ _ ↦ isOsError_of_mapError).bind fun _ ↦
      (hos fun _ _ ↦ isOsError_of_mapError).bind fun _ ↦
        (hos fun _ _ ↦ isOsError_of_mapError).bind fun _ ↦
          (hos fun _ _ ↦ isOsError_of_mapError).bind fun _ ↦ .tryFinally hbody ?_
  exact (hos fun _ _ ↦ isOsError_of_mapError).bind fun _ ↦
    (hos fun _ _ ↦ isOsError_of_mapError).bind fun _ ↦ hos fun _ _ ↦ isOsError_of_mapError

theorem accounts_signalTree : (signalTree process graceMs).Accounts fun _ e ↦
    (e.isOsError || e.isSubprocessError) = true ∨
      IsOverflow e ∧ Os.floatLimit ≤ (graceMs : ℚ) / 1000 := by
  have hkill : ∀ {signal : Signal}, (Os.killpg process signal).Accounts fun _ e ↦
      (e.isOsError || e.isSubprocessError) = true ∨
        IsOverflow e ∧ Os.floatLimit ≤ (graceMs : ℚ) / 1000 := fun {_} ↦
    Action.accounts_ask fun answer e he ↦ .inl (by rw [isOsError_of_mapError he, Bool.true_or])
  have hwait : ∀ {timeout : ℚ}, (discard (Os.waitFor process timeout) : Os PUnit).Accounts fun _ e ↦
      (e.isOsError || e.isSubprocessError) = true ∨
        IsOverflow e ∧ Os.floatLimit ≤ (graceMs : ℚ) / 1000 := by
    refine Os.accounts_discard (Action.accounts_ask fun answer e he ↦ .inl ?_)
    cases answer with
    | none =>
      obtain rfl := Except.error.inj he
      rfl
    | some status => exact absurd he (by simp)
  refine hkill.bind fun _ ↦ .tryCatch (.bind (Action.accounts_lift fun e he ↦
    .inr (Os.seconds_eq_error he)) fun _ ↦ hwait) fun l e he ↦ .ite (fun _ ↦ ?_) fun _ ↦
      Action.accounts_raise he
  exact hkill.bind fun _ ↦ .bind (Action.accounts_lift fun e he ↦ .inr (Os.seconds_eq_error he))
    fun _ ↦ hwait

theorem accounts_terminateTree :
    (terminateTree process graceMs).Accounts fun _ ↦ TerminationError graceMs := by
  refine .bind (Action.accounts_ask fun _ _ he ↦ absurd he (by simp)) fun _ ↦
    .ite (fun _ ↦ Action.accounts_pure _) fun _ ↦
      Os.accounts_translate accounts_signalTree fun log e he ↦ ?_
  rcases he with hcaught | ⟨hover, hlimit⟩
  · rw [if_pos hcaught]
    exact .inl ⟨_, rfl⟩
  · obtain ⟨message, rfl⟩ := hover
    exact .inr ⟨⟨message, rfl⟩, hlimit⟩

/-- **A capture that is broken off** is reported as a failed cleanup, unless a number was too
large. -/
theorem accounts_captureAndReap :
    (captureAndReap fuel limits process deadline).Accounts fun log e ↦
      TerminationError limits.terminationGraceMs e ∨ IsOverflow e ∧ FarOff deadline log := by
  have hend : ∀ {R : OsLog → Exc → Prop},
      (∀ log e, TerminationError limits.terminationGraceMs e → R log e) →
        (terminateTree process limits.terminationGraceMs).Accounts R :=
    fun hR ↦ accounts_terminateTree.mono hR
  refine .tryCatch (R := fun log e ↦ CaptureError deadline log e ∨
      TerminationError limits.terminationGraceMs e) ?_ fun l e he ↦ .ite (fun _ ↦ ?_) fun hnot ↦ ?_
  · refine .bind_of_returns ((accounts_withCapture (accounts_captureLoop _)).mono fun _ _ ↦ .inl)
      fun _ _ _ ↦ .ite (fun _ ↦ ?_) fun _ ↦ ?_
    · exact .bind_of_returns (hend fun _ _ ↦ .inr) fun _ _ _ ↦ Action.accounts_pure _
    · exact .bind_of_returns (Action.accounts_ask fun _ _ he ↦ absurd he (by simp)) fun _ _ _ ↦
        Action.accounts_pure _
  · exact .bind_of_returns (hend fun _ _ ↦ .inl) fun _ _ _ ↦
      Action.accounts_raise (.inl (.inl ⟨_, rfl⟩))
  · refine Action.accounts_raise ?_
    rw [List.append_nil]
    exact he.symm.imp_right fun h ↦ h.resolve_left hnot

namespace LinuxProcessSandboxBackend

variable {backend : LinuxProcessSandboxBackend} {networkPolicy : NetworkPolicy}
  {invocation : SandboxInvocation}

theorem accounts_supports :
    (backend.supports networkPolicy).Accounts (Excused git limits fun _ ↦ IsIsolationFailure) := by
  refine .ite (fun _ ↦ Action.accounts_pure _) fun _ ↦
    backend.bubblewrap.accounts_verify.bind fun _ ↦ .tryCatch
      (R := fun log e ↦ (e.isOsError || e.isSubprocessError) = true ∨ Unhandled git limits log e)
      (.bind_of_returns (Action.accounts_ask fun answer e he ↦ ?_) fun _ _ _ ↦
        Action.accounts_pure _)
      fun l e he ↦ .ite (fun _ ↦ Action.accounts_pure _) fun hnot ↦ Action.accounts_raise ?_
  · obtain ⟨error, rfl, rfl⟩ := mapError_eq_error_iff.mp he
    cases error with
    | os error => exact .inl rfl
    | timeoutExpired => exact .inl rfl
    | encode => exact .inr (.probe (List.mem_singleton_self _))
  · rw [List.append_nil]
    exact .inr (he.resolve_left hnot)

theorem accounts_prepareSpawn :
    (backend.prepareSpawn invocation).Accounts (Excused git limits fun _ ↦ IsIsolationFailure) := by
  refine .bind (.ite (fun _ ↦ Action.accounts_pure _) fun _ ↦ accounts_supports) fun _ ↦
    .ite (fun _ ↦ Action.accounts_raise (.inl ⟨_, rfl⟩)) fun _ ↦
      backend.bubblewrap.accounts_verify.bind fun _ ↦ .bind (Action.accounts_lift fun e he ↦ ?_)
        fun _ ↦ .bind (Action.accounts_ask fun _ _ he ↦ absurd he (by simp)) fun _ ↦
          Action.accounts_pure _
  rw [buildCommand] at he
  split at he
  · exact absurd he (by simp)
  · exact .inl ⟨_, (Except.error.inj he).symm⟩

theorem accounts_spawn {command : List Text} :
    (spawn command).Accounts (Excused git limits SandboxFailure) := by
  refine Os.accounts_translate (R := fun log e ↦ SandboxFailure log (sandboxError .spawnFailed
      "bubblewrap spawn failed") ∧ IsOsError e ∨ ¬IsOsError e ∧ Unhandled git limits log e)
    (Action.accounts_ask fun answer e he ↦ ?_) fun log e he ↦ ?_
  · obtain ⟨error, rfl, rfl⟩ := mapError_eq_error_iff.mp he
    cases error with
    | os error => exact .inl ⟨.spawn (List.mem_singleton_self _), rfl⟩
    | encode =>
      exact .inr ⟨by simp [SpawnError.toExc, Exc.isOsError], .argument (List.mem_singleton_self _)⟩
  · rcases he with ⟨hfailure, hos⟩ | ⟨hos, hunhandled⟩
    · rw [if_pos hos]
      exact .inl hfailure
    · rw [if_neg hos]
      exact .inr hunhandled

/-- What a process is supervised for: no exception of it is one of spawning. -/
theorem accounts_supervise {startedAt : CivilTime} :
    (backend.supervise fuel limits startedAt process).Accounts
      (Excused git limits fun _ e ↦ IsIsolationFailure e ∨ IsCleanupFailure e) := by
  refine Action.accounts_ask_bind (fun _ _ he ↦ absurd he (by simp)) fun start _ hstart ↦ ?_
  obtain rfl := Except.ok.inj hstart
  refine Action.accounts_lift_bind (fun e he ↦ ?_) fun timeout hseconds ↦ ?_
  · obtain ⟨⟨message, rfl⟩, hlimit⟩ := Os.seconds_eq_error he
    exact .inr (.limit (.inl hlimit))
  obtain rfl := Os.eq_of_seconds hseconds
  refine .bind_of_returns (.tryFinally (accounts_captureAndReap.mono fun log e he ↦ ?_)
    (backend.bubblewrap.accounts_verify.mono (R := Excused git limits _) fun log e he ↦ ?_))
      fun _ _ _ ↦
      .bind_of_returns (Action.accounts_ask fun _ _ he ↦ absurd he (by simp)) fun _ _ _ ↦
        Action.accounts_pure _
  · rcases he with (hcleanup | ⟨⟨message, rfl⟩, hlimit⟩) |
      ⟨⟨message, rfl⟩, ⟨⟨call, now⟩, hmem, hfar⟩⟩
    · exact .inl (.inr hcleanup)
    · exact .inr (.limit (.inr hlimit))
    · cases call with
      | monotonic =>
        exact .inr (.wait (.inr rfl) (List.mem_cons_self ..) (List.mem_cons_of_mem _ hmem) hfar)
      | _ => exact hfar.elim
  · exact he.imp .inl (Unhandled.mono (List.subset_cons_self ..))

/-- **The sandbox** reports that a process could not be spawned when it could not, and that a
cleanup has failed when there was a process. -/
theorem accounts_execute :
    (backend.execute fuel invocation).Accounts (Excused git invocation.limits SandboxFailure) := by
  refine .bind (accounts_prepareSpawn.mono fun _ _ ↦ .imp_left ?_) fun ⟨command, startedAt⟩ ↦
    accounts_spawn.bind_of_returns fun l process hspawn ↦ ?_
  · rintro ⟨detail, rfl⟩
    exact .isolation
  obtain ⟨answer, rfl, hanswer⟩ := returns_spawn.mp hspawn
  obtain rfl := mapError_eq_ok_iff.mp (translate_eq_ok_iff.mp hanswer.symm)
  refine accounts_supervise.mono (R := Excused git invocation.limits _) fun log e he ↦ ?_
  rcases he with (⟨detail, rfl⟩ | ⟨detail, rfl⟩) | hunhandled
  · exact .inl .isolation
  · exact .inl (.cleanup (List.mem_cons_self ..))
  · exact .inr (hunhandled.mono (List.subset_cons_self ..))

end LinuxProcessSandboxBackend

end

/-! ## Git -/

/-- What Git reports. -/
abbrev IsGitCliError (e : Exc) : Prop := e.isGitCliError = true

section

variable {α : Type} {git : ControlledGitCli} {limits : CommandLimits} {process : Process}
  {deadline : ℚ} {fuel : ℕ} {path : Path}

namespace ControlledGitCli

/-- What a capture of Git's outputs raises. -/
def CaptureError (deadline : ℚ) (log : OsLog) (e : Exc) : Prop :=
  IsGitCliError e ∨ Alicerce.CaptureError deadline log e

instance : Lasting (CaptureError deadline) := ⟨fun hsub ↦ .imp_right (Lasting.mono hsub)⟩

theorem accounts_os {p : Os α} (hp : p.Raises IsOsError) : p.Accounts (CaptureError deadline) :=
  hp.accounts fun _ _ he ↦ .inr (.inl he)

/-- A capture is broken off with an error of Git. -/
theorem accounts_breakOff {cause : GitCliErrorCause} {detail : Text} :
    (terminate process >>= fun _ ↦ .raise (gitCliError cause detail) : Os α).Accounts
      (CaptureError deadline) :=
  (accounts_os raises_terminate).bind fun _ ↦ Action.accounts_raise (.inl rfl)

theorem accounts_readEvents (events : List Stream) (streams : Streams) :
    (git.readEvents process events streams).Accounts (CaptureError deadline) := by
  induction events generalizing streams with
  | nil => exact Action.accounts_pure _
  | cons stream events ih =>
    exact .bind (accounts_os (Action.raises_ask fun _ _ ↦ isOsError_of_mapError)) fun chunk ↦
      .ite (fun _ ↦ ih _) fun _ ↦ .ite (fun _ ↦ accounts_breakOff) fun _ ↦ ih _

theorem accounts_captureLoop (streams : Streams) :
    (git.captureLoop process deadline fuel streams).Accounts (CaptureError deadline) := by
  induction fuel generalizing streams with
  | zero => exact Action.accounts_running
  | succ fuel ih =>
    refine .ite (fun _ ↦ Action.accounts_pure _) fun _ ↦
      Action.accounts_ask_bind (fun _ _ he ↦ absurd he (by simp)) fun now _ hnow ↦ ?_
    obtain rfl := Except.ok.inj hnow
    have hlater : ∀ {p : Os Streams}, p.Accounts (CaptureError deadline) →
        p.Accounts fun log e ↦ CaptureError deadline (⟨.monotonic, now⟩ :: log) e :=
      fun hp ↦ hp.mono fun _ _ ↦ Lasting.mono (List.subset_cons_self ..)
    refine .ite (fun _ ↦ hlater accounts_breakOff) fun _ ↦ .bind (.ite (fun hfar ↦ ?_) fun _ ↦ ?_)
      fun events ↦ .ite (fun _ ↦ hlater accounts_breakOff) fun _ ↦
        hlater ((accounts_readEvents _ _).bind fun _ ↦ ih _)
    · exact Action.accounts_raise (.inr (.inr ⟨⟨_, rfl⟩, _, List.mem_singleton_self _, hfar⟩))
    · refine Action.accounts_ask fun answer e he ↦ .inr (.inl ?_)
      cases answer with
      | ok ready => exact absurd he (by simp [Except.mapError, Except.map])
      | error error =>
        obtain rfl := Except.error.inj he
        rfl

/-- What a Git command captures is captured in time, or is said not to have been, unless the
deadline is further off than a selector can wait. -/
theorem accounts_captureBounded : (git.captureBounded fuel process).Accounts
    (Excused git limits fun _ e ↦ IsGitCliError e ∨ IsOsError e) := by
  refine Action.accounts_ask_bind (fun _ _ he ↦ absurd he (by simp)) fun start _ hstart ↦ ?_
  obtain rfl := Except.ok.inj hstart
  have hos : ∀ {c : OsCall} {r : c.Answer → Except Exc Unit},
      (∀ answer e, r answer = .error e → IsOsError e) →
        (Action.ask c r).Accounts (CaptureError (start + git.timeoutSeconds)) :=
    fun hr ↦ accounts_os (Action.raises_ask hr)
  have hnone : (Os.wait process).Accounts (CaptureError (start + git.timeoutSeconds)) :=
    Action.accounts_ask fun _ _ he ↦ absurd he (by simp)
  refine Action.Accounts.mono (R := CaptureError (start + git.timeoutSeconds))
    ((hos fun _ _ ↦ isOsError_of_mapError).bind fun _ ↦ .bind (.tryFinally
      ((hos fun _ _ ↦ isOsError_of_mapError).bind fun _ ↦
        (hos fun _ _ ↦ isOsError_of_mapError).bind fun _ ↦ accounts_captureLoop _)
      (hos fun _ _ ↦ isOsError_of_mapError)) fun _ ↦ hnone.bind fun _ ↦ Action.accounts_pure _)
    fun log e he ↦ ?_
  rcases he with hgit | hos | ⟨⟨message, rfl⟩, ⟨⟨call, now⟩, hmem, hfar⟩⟩
  · exact .inl (.inl hgit)
  · exact .inl (.inr hos)
  · cases call with
    | monotonic =>
      exact .inr (.wait (.inl rfl) (List.mem_cons_self ..) (List.mem_cons_of_mem _ hmem) hfar)
    | _ => exact hfar.elim

theorem accounts_run {arguments : List Text} {cwd : Path} {environment : List (Text × Text)} :
    (git.run fuel arguments cwd environment).Accounts
      (Excused git limits fun _ ↦ IsGitCliError) := by
  refine .bind (Os.accounts_translate_excused (fun _ e ↦ IsGitCliError e ∨ IsOsError e)
    (.bind (Action.accounts_ask fun answer e he ↦ ?_) fun _ ↦ accounts_captureBounded)
    (fun _ _ _ ↦ rfl) fun _ e he hnot ↦ ?_) fun _ ↦
      .ite (fun _ ↦ Action.accounts_raise (.inl rfl)) fun _ ↦ ?_
  · obtain ⟨error, rfl, rfl⟩ := mapError_eq_error_iff.mp he
    cases error with
    | os error => exact .inl (.inr rfl)
    | encode => exact .inr (.argument (List.mem_singleton_self _))
  · exact he.resolve_right fun hos ↦ absurd (hos.symm.trans hnot) (by simp)
  · split
    · exact Action.accounts_pure _
    · exact Action.accounts_raise (.inl rfl)

/-- What is done in a control directory may also fail with the directory. -/
theorem accounts_withControl {known : OsLog → Exc → Prop} [Lasting known] {stem : Text} {dir : Path}
    {body : Path → List (Text × Text) → Os α} (hos : ∀ log e, IsOsError e → known log e)
    (hbody : ∀ control environment, (body control environment).Accounts
      (Excused git limits known)) :
    (withControl stem dir body).Accounts (Excused git limits known) := by
  have hask : ∀ {c : OsCall} {β : Type} {r : c.Answer → Except Exc β},
      (∀ answer e, r answer = .error e → IsOsError e) →
        (Action.ask c r).Accounts (Excused git limits known) := fun hr ↦ Os.accounts_ask hr hos
  refine (hask fun _ _ ↦ isOsError_of_mapError).bind fun control ↦ .tryFinally
    (.bind ?_ fun _ ↦ hbody _ _) (hask fun _ _ ↦ isOsError_of_mapError)
  exact (hask fun _ _ ↦ isOsError_of_mapError).bind fun _ ↦
    (hask fun _ _ ↦ isOsError_of_mapError).bind fun _ ↦
      (hask fun _ _ ↦ isOsError_of_mapError).bind fun _ ↦ Action.accounts_pure _

theorem accounts_validateRepository :
    (validateRepository path).Accounts (Excused git limits fun _ ↦ IsGitCliError) := by
  refine .bind (Os.accounts_translate_excused (fun _ ↦ IsOsError)
    (Os.accounts_resolve fun _ _ ↦ id) (fun _ _ _ ↦ rfl) fun _ e he hnot ↦ ?_) fun _ ↦
      .bind (Os.accounts_or (Os.accounts_not Os.accounts_isDir)
        (Os.accounts_or (Os.accounts_not Os.accounts_isDir) Os.accounts_isSymlink)) fun _ ↦
          .ite (fun _ ↦ Action.accounts_raise (.inl rfl)) fun _ ↦ Action.accounts_pure _
  exact absurd (he.symm.trans hnot) (by simp)

theorem accounts_verifyBaseline {baselineSha : BaselineSha} :
    (git.verifyBaseline fuel path baselineSha).Accounts
      (Excused git limits fun _ ↦ IsGitCliError) := by
  have hrun : ∀ {arguments : List Text} {cwd : Path} {environment : List (Text × Text)},
      (git.run fuel arguments cwd environment).Accounts
        (Excused git limits fun _ e ↦ IsGitCliError e ∨ IsOsError e) :=
    accounts_run.mono fun _ _ ↦ .imp_left .inl
  refine .bind accounts_validateRepository fun trusted ↦ .bind (Os.accounts_translate_excused
    (fun _ e ↦ IsGitCliError e ∨ IsOsError e)
    (accounts_withControl (fun _ _ ↦ .inr) fun _ _ ↦ hrun.bind fun _ ↦ hrun.bind fun _ ↦
      Action.accounts_pure _) (fun _ _ _ ↦ rfl) fun _ e he hnot ↦ ?_) fun _ ↦
        .ite (fun _ ↦ Action.accounts_raise (.inl rfl)) fun _ ↦
          .ite (fun _ ↦ Action.accounts_raise (.inl rfl)) fun _ ↦ Action.accounts_pure _
  exact he.resolve_right fun hos ↦ absurd (hos.symm.trans hnot) (by simp)

end ControlledGitCli

end

/-! ## The lease of a workspace -/

/-- What the checks of a workspace report. -/
def LeaseFailure (e : Exc) : Prop := ∃ cause detail, e = workspaceError cause detail ∧
    cause ≠ .notFound

/-- A command says that its isolation has failed. -/
def IsBroken (e : Exc) : Prop := ∃ detail, e = commandExecutionError .isolationFailure detail

section

variable {git : ControlledGitCli} {limits : CommandLimits} {fuel : ℕ} {workspace path : Path}

theorem leaseFailure_translateGitError {e : Exc} (he : IsGitCliError e) :
    LeaseFailure (translateGitError e) := by
  cases e with
  | gitCliError cause detail =>
    refine ⟨_, _, rfl, ?_⟩
    split
    · simp
    · simp
  | _ => exact absurd he (by simp [Exc.isGitCliError])

theorem accounts_checkLinks {current : Path} (names directories : List Text) :
    (checkLinks workspace current names directories).Accounts
      (Excused git limits fun _ ↦ LeaseFailure) := by
  induction names generalizing directories with
  | nil => exact Action.accounts_pure _
  | cons name names ih =>
    refine .bind Os.accounts_isSymlink fun _ ↦ .ite (fun _ ↦ .bind (Os.accounts_translate_excused
      (fun _ ↦ IsOsError) (Os.accounts_resolve fun _ _ ↦ id) (fun _ _ _ ↦ ⟨_, _, rfl, by simp⟩)
      fun _ e he hnot ↦ ?_) fun _ ↦ .ite (fun _ ↦ ih _) fun _ ↦
        Action.accounts_raise (.inl ⟨_, _, rfl, by simp⟩)) fun _ ↦ ih _
    exact absurd hnot (by rw [he, Bool.true_or]; simp)

theorem accounts_pushDirectories {current : Path} (names : List Text) (stack : List Path) :
    (pushDirectories current names stack).Accounts (Excused git limits fun _ ↦ LeaseFailure) := by
  induction names generalizing stack with
  | nil => exact Action.accounts_pure _
  | cons name names ih =>
    exact .bind (Action.accounts_ask fun _ _ he ↦ absurd he (by simp)) fun _ ↦
      .ite (fun _ ↦ ih _) fun _ ↦ ih _

theorem accounts_walkSymlinks (stack : List Path) :
    (walkSymlinks workspace fuel stack).Accounts (Excused git limits fun _ ↦ LeaseFailure) := by
  induction fuel generalizing stack with
  | zero => exact Action.accounts_running
  | succ fuel ih =>
    cases stack with
    | nil => exact Action.accounts_pure _
    | cons current stack =>
      refine .bind (Os.accounts_translate_excused (fun _ ↦ IsOsError)
        (Os.accounts_ask (fun _ _ ↦ isOsError_of_mapError) fun _ _ ↦ id)
        (fun _ _ _ ↦ ⟨_, _, rfl, by simp⟩) fun _ e he hnot ↦ ?_) fun _ ↦
          .bind (accounts_checkLinks _ _) fun _ ↦ .bind (accounts_pushDirectories _ _) fun _ ↦ ih _
      exact absurd (he.symm.trans hnot) (by simp)

theorem accounts_configDigest :
    (configDigest workspace).Accounts (Excused git limits fun _ ↦ LeaseFailure) := by
  refine .bind (Os.accounts_or Os.accounts_isSymlink (Os.accounts_not Os.accounts_isFile)) fun _ ↦
    .ite (fun _ ↦ Action.accounts_raise (.inl ⟨_, _, rfl, by simp⟩)) fun _ ↦
      Os.accounts_translate_excused (fun _ ↦ IsOsError)
        (.bind (Os.accounts_ask (fun _ _ ↦ isOsError_of_mapError) fun _ _ ↦ id) fun _ ↦
          Action.accounts_pure _) (fun _ _ _ ↦ ⟨_, _, rfl, by simp⟩) fun _ e he hnot ↦ ?_
  exact absurd (he.symm.trans hnot) (by simp)

namespace LocalGitWorkspace

variable {adapter : LocalGitWorkspace} {record : WorkspaceRecord}

theorem accounts_assertRootIntegrity :
    adapter.assertRootIntegrity.Accounts (Excused git limits fun _ ↦ LeaseFailure) := by
  refine .bind (Os.accounts_translate_excused (fun _ ↦ IsOsError) (Os.accounts_resolve fun _ _ ↦ id)
    (fun _ _ _ ↦ ⟨_, _, rfl, by simp⟩) fun _ e he hnot ↦ ?_) fun _ ↦
      .bind (Os.accounts_or Os.accounts_isSymlink
        (Os.accounts_or (Os.accounts_not Os.accounts_isDir) (Action.accounts_pure _))) fun _ ↦
          .ite (fun _ ↦ Action.accounts_raise (.inl ⟨_, _, rfl, by simp⟩)) fun _ ↦
            Action.accounts_pure _
  exact absurd (he.symm.trans hnot) (by simp)

/-- **The checks of a workspace** report what they find as an error of the workspace. -/
theorem accounts_validateRecord : (adapter.validateRecord fuel record).Accounts
    (Excused adapter.git limits fun _ ↦ LeaseFailure) := by
  refine accounts_assertRootIntegrity.bind fun _ ↦
    .bind (Action.accounts_lift fun e he ↦ ?_) fun _ ↦
    .ite (fun _ ↦ Action.accounts_raise (.inl ⟨_, _, rfl, by simp⟩)) fun _ ↦
      .bind (Os.accounts_or Os.accounts_isSymlink
        (Os.accounts_or (Os.accounts_not Os.accounts_isDir) (Action.accounts_pure _))) fun _ ↦
          .ite (fun _ ↦ Action.accounts_raise (.inl ⟨_, _, rfl, by simp⟩)) fun _ ↦
            .bind (accounts_walkSymlinks _) fun _ ↦ .bind accounts_configDigest fun _ ↦
              .ite (fun _ ↦ Action.accounts_raise (.inl ⟨_, _, rfl, by simp⟩)) fun _ ↦
                Os.accounts_translate_excused (fun _ ↦ IsGitCliError)
                  (Os.accounts_discard ControlledGitCli.accounts_verifyBaseline)
                  (fun _ _ ↦ leaseFailure_translateGitError) fun _ e he hnot ↦ ?_
  · rw [pathFor] at he
    split at he
    · exact .inl ⟨_, _, (Except.error.inj he).symm, by simp⟩
    · exact absurd he (by simp)
  · exact absurd (he.symm.trans hnot) (by simp)

end LocalGitWorkspace

/-! ## The working directory -/

theorem accounts_descend (candidate : Path) (parts : List Text) :
    (descend candidate parts).Accounts (Excused git limits fun _ ↦ IsBroken) := by
  induction parts generalizing candidate with
  | nil => exact Action.accounts_pure _
  | cons part parts ih =>
    exact .bind Os.accounts_isSymlink fun _ ↦
      .ite (fun _ ↦ Action.accounts_raise (.inl ⟨_, rfl⟩)) fun _ ↦ ih _

theorem accounts_resolveWorkingDirectory {relative : WorkingDirectory} :
    (resolveWorkingDirectory path relative).Accounts (Excused git limits fun _ ↦ IsBroken) := by
  refine .bind (accounts_descend _ _) fun _ ↦ .bind
    (Os.accounts_translate_excused (fun _ ↦ IsOsError)
    (Os.accounts_resolve fun _ _ ↦ id) (fun _ _ _ ↦ ⟨_, rfl⟩) fun _ e he hnot ↦ ?_) fun _ ↦
      .bind (Os.accounts_or (Os.accounts_not Os.accounts_isDir) (Action.accounts_pure _)) fun _ ↦
        .ite (fun _ ↦ Action.accounts_raise (.inl ⟨_, rfl⟩)) fun _ ↦ Action.accounts_pure _
  exact absurd (he.symm.trans hnot) (by simp)

end

/-! ## The command -/

theorem requireExitCode_raises {termination : ExecutionTermination} {exitCode : Option ℤ} :
    Py.Raises (fun e ↦ e.isTypeOrValueError = true) (requireExitCode termination exitCode) := by
  cases termination <;> cases exitCode <;> first | exact raises_ok _ | exact raises_error rfl

/-- The checks of a result are those of a value: what they raise is caught where it is built. -/
theorem ExecutionResult.new_raises {request : CommandRequest} {termination : ExecutionTermination}
    {exitCode : Option ℤ} {stdout stderr : Bytes} {startedAt finishedAt : DateTime} :
    Py.Raises (fun e ↦ e.isTypeOrValueError = true)
      (new request termination exitCode stdout stderr startedAt finishedAt) := by
  intro e he
  rw [new] at he
  split at he
  · rename_i e' hcode
    obtain rfl := Except.error.inj he
    exact requireExitCode_raises e' hcode
  · iterate 4 (split at he; · exact Except.error.inj he ▸ rfl)
    exact absurd he (by simp)

theorem resultOf_eq_error {request : CommandRequest} {result : SandboxResult} {e : Exc}
    (h : resultOf request result = .error e) : IsBroken e := by
  rw [resultOf] at h
  cases hnew : ExecutionResult.new request result.termination result.exitCode result.stdout
      result.stderr result.startedAt result.finishedAt with
  | ok r => exact absurd (hnew ▸ h) (by simp [Py.translate])
  | error e' =>
    rw [hnew, Py.translate, if_pos (ExecutionResult.new_raises e' hnew)] at h
    exact ⟨_, (Except.error.inj h).symm⟩

namespace LocalCommandExecutor

section

variable {executor : LocalCommandExecutor} {backend : LinuxProcessSandboxBackend}
  {executable : TrustedExecutable} {request : CommandRequest} {git : ControlledGitCli}
  {fuel fuel' : ℕ} {registry : Registry} {workspace : WorkspaceIdentity} {root : Path} {log : OsLog}
  {e : Exc}

theorem commandFailure_of_isBroken (he : IsBroken e) : CommandFailure executable log e := by
  obtain ⟨detail, rfl⟩ := he
  exact .isolation

theorem commandFailure_of_sandboxFailure (he : SandboxFailure log e) :
    CommandFailure executable log (translateSandboxError e) := by
  cases he with
  | isolation => exact .isolation
  | spawn hmem => exact .spawn hmem
  | cleanup hmem => exact .cleanup hmem

/-- **What is done in a leased workspace** reports by its cause what has happened. -/
theorem accounts_runLeased (hbackend : executor.sandbox = backend.seam fuel') :
    (executor.runLeased request executable root).Accounts
      (Excused git request.limits (CommandFailure executable)) := by
  refine .bind (accounts_resolveWorkingDirectory.mono fun _ _ ↦
    .imp_left commandFailure_of_isBroken)
    fun workingDirectory ↦ .bind TrustedExecutable.accounts_verify fun _ ↦ .bind ?_ fun _ ↦
      .bind TrustedExecutable.accounts_verify fun _ ↦ Action.accounts_lift fun e he ↦
        .inl (commandFailure_of_isBroken (resultOf_eq_error he))
  rw [hbackend]
  refine Os.accounts_translate (R := Excused git request.limits SandboxFailure)
    LinuxProcessSandboxBackend.accounts_execute fun log e he ↦ ?_
  rcases he with hfailure | hunhandled
  · have hcaught : e.isSandboxError = true := by cases hfailure <;> rfl
    rw [if_pos hcaught]
    exact .inl (commandFailure_of_sandboxFailure hfailure)
  · rw [if_neg (by cases hunhandled <;> simp [OsError.toExc, Exc.isSandboxError])]
    exact .inr hunhandled

/-- **A lease** fails as what is done in it, or as its checks do before and after. -/
theorem accounts_executionLease (hbackend : executor.sandbox = backend.seam fuel')
    (hrecord : ∃ record, registry.requireRecord workspace = .ok record) :
    (executor.workspace.executionLease fuel registry workspace fun root ↦
      executor.runLeased request executable root).Accounts
        (Excused executor.workspace.git request.limits fun log e ↦
          CommandFailure executable log e ∨ LeaseFailure e) := by
  obtain ⟨record, hrecord⟩ := hrecord
  have hcheck : ∀ {record : WorkspaceRecord},
      (executor.workspace.validateRecord fuel record).Accounts
        (Excused executor.workspace.git request.limits fun log e ↦
          CommandFailure executable log e ∨ LeaseFailure e) :=
    LocalGitWorkspace.accounts_validateRecord.mono fun _ _ ↦ .imp_left .inr
  refine .bind (Action.accounts_lift_bind (fun e he ↦ absurd (hrecord.symm.trans he) (by simp))
    fun _ _ ↦ hcheck.bind fun _ ↦ Action.accounts_pure _) fun _ ↦ .tryFinally ?_ hcheck
  exact (accounts_runLeased hbackend).mono fun _ _ ↦ .imp_left .inl

end

end LocalCommandExecutor

end Alicerce
