import Alicerce.Adapters.Host
import Alicerce.Py.Sha256

/-!
# The Linux process sandbox

The backend that runs one command inside a bubblewrap sandbox: it verifies the pinned binary, probes
whether the kernel grants the isolation, spawns the process, captures both of its outputs up to
their ceilings until a deadline, and terminates the process group of a command that did not exit.

* `PinnedBubblewrap` is the binary, with its digest, and `pinChanged` the looks at it.
* `LinuxProcessSandboxBackend.buildCommand` writes the command line, on `baseCommand`.
* `LinuxProcessSandboxBackend.supports` is the probe, `prepareSpawn` what precedes the process, and
  `supervise` what is done with it.
* `captureLoop` is the loop of the capture, with a measure of fuel for the batches of events it may
  go through; the events of one batch are `readEvents`.  Both say why the capture ended, which is
  `EXITED` while it has not.
* `terminateTree` ends a process with its group.
* `LinuxProcessSandboxBackend.execute` is all of it.
-/

set_option autoImplicit false

namespace Alicerce

open Py Lib

/-- `_READ_CHUNK_BYTES`. -/
def readChunkBytes : ℕ := 64 * 1024

/-- `_SANDBOX_EXECUTABLE`. -/
def sandboxExecutable : Path := ⟨["alicerce", "executable"]⟩

/-- `_SANDBOX_WORKSPACE`. -/
def sandboxWorkspace : Path := ⟨["workspace"]⟩

/-- The root directory. -/
def rootDirectory : Path := ⟨[]⟩

/-- `SandboxError`. -/
def sandboxError (cause : SandboxErrorCause) (detail : Text) : Exc := .sandboxError cause detail

/-- The path is no longer the executable regular file with that hash it was pinned as. -/
def pinChanged (path : Path) (sha256 : Bytes) : Os Bool :=
  Os.or (Os.isSymlink path) <|
  Os.or (do return decide ((← Os.resolve path) ≠ path)) <|
  Os.or (do return !(← Os.isFile path)) <|
  Os.or (do return !(← Os.accessExecutable path)) <|
  (do return decide (Py.sha256 (← Os.readFile path) ≠ sha256))

/-- A call that checks a pin. -/
def OsCall.Pins : OsCall → Prop
  | .isSymlink _ | .resolve _ | .isFile _ | .accessExecutable _ | .readFile _ => True
  | _ => False

theorem OsCall.looks_of_pins : ∀ c, OsCall.Pins c → OsCall.Looks c := by
  intro c hc
  cases c <;> first | exact hc.elim | trivial

theorem pins_pinChanged (path : Path) (sha256 : Bytes) :
    (pinChanged path sha256).Calls OsCall.Pins :=
  Os.calls_or (Action.calls_ask.mpr (by trivial)) <|
    Os.calls_or ((Action.calls_ask.mpr (by trivial)).bind fun _ ↦ trivial) <|
    Os.calls_or (Os.calls_not (Action.calls_ask.mpr (by trivial))) <|
    Os.calls_or (Os.calls_not (Action.calls_ask.mpr (by trivial))) <|
    (Action.calls_ask.mpr (by trivial)).bind fun _ ↦ trivial

theorem looks_pinChanged (path : Path) (sha256 : Bytes) :
    (pinChanged path sha256).Calls OsCall.Looks := (pins_pinChanged _ _).mono OsCall.looks_of_pins

/-! ## The pinned binary -/

/-- `_PinnedBubblewrap`. -/
structure PinnedBubblewrap where
  path : Path
  sha256 : Bytes

/-- `_PinnedBubblewrap.verify`. -/
def PinnedBubblewrap.verify (bubblewrap : PinnedBubblewrap) : Os Unit :=
  Os.translate Exc.isOsError
    (fun _ ↦ sandboxError .isolationFailure "bubblewrap executable is unavailable") do
    if ← pinChanged bubblewrap.path bubblewrap.sha256 then
      .raise (sandboxError .isolationFailure "bubblewrap executable changed")

theorem PinnedBubblewrap.pins_verify (bubblewrap : PinnedBubblewrap) :
    bubblewrap.verify.Calls OsCall.Pins :=
  Os.calls_translate ((pins_pinChanged _ _).bind fun _ ↦ .ite trivial trivial)

theorem PinnedBubblewrap.looks_verify (bubblewrap : PinnedBubblewrap) :
    bubblewrap.verify.Calls OsCall.Looks := bubblewrap.pins_verify.mono OsCall.looks_of_pins

/-- `LinuxProcessSandboxBackend`. -/
structure LinuxProcessSandboxBackend where
  bubblewrap : PinnedBubblewrap

namespace LinuxProcessSandboxBackend

variable (backend : LinuxProcessSandboxBackend)

/-! ## The command line -/

/-- `_base_command`. -/
def baseCommand : List Text :=
  [backend.bubblewrap.path.str, "--unshare-net", "--unshare-pid", "--unshare-ipc", "--unshare-uts",
    "--die-with-parent", "--new-session", "--clearenv", "--proc", "/proc", "--dev", "/dev",
    "--ro-bind", "/usr", "/usr", "--symlink", "usr/bin", "/bin", "--symlink", "usr/lib", "/lib",
    "--symlink", "usr/lib64", "/lib64"]

/-- `_build_command`. -/
def buildCommand (invocation : SandboxInvocation) : Except Exc (List Text) :=
  if invocation.workingDirectory.IsRelativeTo invocation.workspaceRoot then
    let relative := invocation.workingDirectory.parts.drop invocation.workspaceRoot.parts.length
    .ok <| backend.baseCommand ++ ([
      ["--dir", "/alicerce"],
      ["--ro-bind", invocation.executable.str, sandboxExecutable.str],
      ["--chmod", "0555", "/alicerce"],
      ["--dir", sandboxWorkspace.str],
      ["--bind", invocation.workspaceRoot.str, sandboxWorkspace.str],
      ["--chdir", Path.str ⟨sandboxWorkspace.parts ++ relative⟩],
      invocation.environment.flatMap fun entry ↦ ["--setenv", entry.name, entry.value],
      ["--", sandboxExecutable.str],
      invocation.arguments] : List (List Text)).flatten
  else .error (sandboxError .isolationFailure "working directory is outside the workspace")

/-! ## The probe -/

/-- What the probe runs. -/
def probeArguments : List Text := ["--", "/usr/bin/true"]

/-- `supports`. -/
def supports (networkPolicy : NetworkPolicy) : Os Bool :=
  if networkPolicy ≠ .denyAll then pure false
  else do
    backend.bubblewrap.verify
    .tryCatch
      (do
        let returncode ← Os.runProbe (backend.baseCommand ++ probeArguments)
        return decide (returncode = 0))
      fun e ↦ if e.isOsError || e.isSubprocessError then pure false else .raise e

theorem looks_supports (networkPolicy : NetworkPolicy) :
    (backend.supports networkPolicy).Calls OsCall.Looks := by
  refine .ite trivial (backend.bubblewrap.looks_verify.bind fun _ ↦ .tryCatch ?_ fun _ ↦ ?_)
  · exact (Action.calls_ask.mpr (by trivial)).bind fun _ ↦ trivial
  · exact .ite trivial trivial

end LinuxProcessSandboxBackend

/-! ## Capture -/

/-- The ceiling of a stream. -/
def ceiling (limits : CommandLimits) : Stream → ℕ
  | .stdout => limits.stdoutMaxBytes
  | .stderr => limits.stderrMaxBytes

/-- Read from a stream that is ready; `none` when it turns out not to be. -/
def readReady (process : Process) (stream : Stream) : Os (Option (List UInt8)) :=
  .tryCatch (do return some (← Os.read process stream readChunkBytes)) fun e ↦
    if e.isBlockingError then pure none else .raise e

/-- The events of one batch, and why they end the capture unless they do not. -/
def readEvents (limits : CommandLimits) (process : Process) :
    List Stream → Streams → Os (Streams × ExecutionTermination)
  | [], streams => pure (streams, .exited)
  | stream :: events, streams => do
    match ← readReady process stream with
    | none => readEvents limits process events streams
    | some [] => readEvents limits process events (streams.unregister stream)
    | some chunk =>
      -- `max(0, …)` is the subtraction of natural numbers
      let available := ceiling limits stream - (streams.target stream).length
      let streams := streams.extend stream (chunk.take available)
      if available < chunk.length then pure (streams, .outputLimit)
      else readEvents limits process events streams

/-- `not events and process.poll() is None`. -/
def isIdle (process : Process) (events : List Stream) : Os Bool :=
  if events = [] then (do return (← Os.poll process).isNone) else pure false

/-- Read until both streams have ended, a ceiling is passed or the deadline is. -/
def captureLoop (limits : CommandLimits) (process : Process) (deadline : ℚ) :
    ℕ → Streams → Os (Streams × ExecutionTermination)
  | 0, _ => .running
  | fuel + 1, streams =>
    if streams.registered = [] then pure (streams, .exited)
    else do
      let remaining := deadline - (← Os.monotonic)
      if remaining ≤ 0 then pure (streams, .timedOut)
      else do
        let events ← Os.select streams.registered remaining
        if ← isIdle process events then captureLoop limits process deadline fuel streams
        else do
          let (streams, termination) ← readEvents limits process events streams
          if termination ≠ .exited then pure (streams, termination)
          else captureLoop limits process deadline fuel streams

/-- `with _Capture(process) as capture`. -/
def withCapture {α : Type} (process : Process) (body : Os α) : Os α := do
  Os.openSelector
  Os.setBlocking process .stdout
  Os.register process .stdout
  Os.setBlocking process .stderr
  Os.register process .stderr
  .tryFinally body do
    Os.closeSelector
    Os.closeStream process .stdout
    Os.closeStream process .stderr

/-! ## Cleanup -/

/-- The body of `_terminate_tree` once the process is known to run. -/
def signalTree (process : Process) (graceMs : ℕ) : Os Unit := do
  Os.killpg process .sigterm
  .tryCatch
    (do
      let grace ← .lift (Os.seconds graceMs)
      discard (Os.waitFor process grace))
    fun e ↦
      if e.isSubprocessError then do
        Os.killpg process .sigkill
        let grace ← .lift (Os.seconds graceMs)
        discard (Os.waitFor process (max grace (1 / 10)))
      else .raise e

/-- `_terminate_tree`. -/
def terminateTree (process : Process) (graceMs : ℕ) : Os Unit := do
  if (← Os.poll process).isSome then pure ()
  else
    Os.translate (fun e ↦ e.isOsError || e.isSubprocessError)
      (fun _ ↦ sandboxError .cleanupFailed "process tree cleanup failed")
      (signalTree process graceMs)

/-! ## Execution -/

/-- Capture the outputs, and end the process. -/
def captureAndReap (fuel : ℕ) (limits : CommandLimits) (process : Process) (deadline : ℚ) :
    Os (Streams × ExecutionTermination × Option ℤ) :=
  .tryCatch
    (do
      let (streams, termination) ←
        withCapture process (captureLoop limits process deadline fuel .initial)
      if termination ≠ .exited then do
        terminateTree process limits.terminationGraceMs
        return (streams, termination, none)
      else
        return (streams, termination, some (← Os.wait process)))
    fun e ↦
      if e.isOsError then do
        terminateTree process limits.terminationGraceMs
        .raise (sandboxError .cleanupFailed "capture failed")
      else .raise e

namespace LinuxProcessSandboxBackend

variable (backend : LinuxProcessSandboxBackend)

/-- What `execute` does with the process it has spawned. -/
def supervise (fuel : ℕ) (limits : CommandLimits) (startedAt : CivilTime) (process : Process) :
    Os SandboxResult := do
  let started ← Os.monotonic
  let timeout ← .lift (Os.seconds limits.timeoutMs)
  let (streams, termination, exitCode) ←
    .tryFinally (captureAndReap fuel limits process (started + timeout)) backend.bubblewrap.verify
  return {
    termination := termination
    exitCode := exitCode
    stdout := ⟨streams.stdout.toArray⟩
    stderr := ⟨streams.stderr.toArray⟩
    startedAt := utc startedAt
    finishedAt := utc (← Os.utcNow) }

/-- The isolation an invocation requires is there. -/
def isIsolated (invocation : SandboxInvocation) : Os Bool :=
  if invocation.networkPolicy ≠ .denyAll then pure false
  else backend.supports invocation.networkPolicy

/-- What `execute` does before it spawns a process: the command line, and the time. -/
def prepareSpawn (invocation : SandboxInvocation) : Os (List Text × CivilTime) := do
  if !(← backend.isIsolated invocation) then
    .raise (sandboxError .isolationFailure "required Linux isolation is unavailable")
  else do
    backend.bubblewrap.verify
    let command ← .lift (backend.buildCommand invocation)
    return (command, ← Os.utcNow)

theorem looks_prepareSpawn (invocation : SandboxInvocation) :
    (backend.prepareSpawn invocation).Calls OsCall.Looks := by
  refine .bind (.ite trivial (backend.looks_supports _)) fun _ ↦ .ite trivial ?_
  exact backend.bubblewrap.looks_verify.bind fun _ ↦ Action.calls_lift.bind fun _ ↦
    (Action.calls_ask.mpr (by trivial)).bind fun _ ↦ trivial

/-- `subprocess.Popen`, in a clean environment. -/
def spawn (command : List Text) : Os Process :=
  Os.translate Exc.isOsError (fun _ ↦ sandboxError .spawnFailed "bubblewrap spawn failed")
    (Os.popen command rootDirectory [])

/-- `execute`. -/
def execute (fuel : ℕ) (invocation : SandboxInvocation) : Os SandboxResult := do
  let (command, startedAt) ← backend.prepareSpawn invocation
  let process ← spawn command
  backend.supervise fuel invocation.limits startedAt process

end LinuxProcessSandboxBackend

end Alicerce
