import Alicerce.Adapters.Host

/-!
# The controlled Git command line

Git as a child process with a fixed environment, a deadline and a bound on its output, and the three
operations that are made of it.

* `ControlledGitCli` is the executable with its fixed limits, and `ControlledGitCli.run` one Git
  command: `captureBounded` is the capture of its output, and `terminate` ends it.
* `ControlledGitCli.withControl` makes a control directory for an operation to work in, which is
  removed again however the operation ends; `environment` names it to Git.
* `clone`, `checkout`, `revParse`, `removeRemote`, `listRemotes`, `readTree`, `addAll` and
  `writeTree` are the commands.
* `materializeBaseline`, `verifyBaseline` and `snapshotCandidate` are the operations: cloning a
  baseline, verifying one, and taking the identity of a candidate through a temporary index.
-/

set_option autoImplicit false

namespace Alicerce

open Py Lib

/-- `GitCliError`. -/
def gitCliError (cause : GitCliErrorCause) (detail : Text) : Exc := .gitCliError cause detail

/-- `str(error)` of an `OSError`. -/
def osErrorText : Exc → Text
  | .osError _ message => message
  | _ => []

/-- Verified result of one independent detached baseline checkout. -/
structure MaterializedBaseline where
  repository : Path
  baselineSha : BaselineSha
deriving DecidableEq

/-- The Git executable and its fixed resource limits. -/
structure ControlledGitCli where
  executable : Path
  timeoutSeconds : ℚ
  maxOutputBytes : ℕ
  timeoutSeconds_pos : 0 < timeoutSeconds
  maxOutputBytes_pos : 0 < maxOutputBytes

/-! ## One command -/

/-- `with suppress(…): os.killpg(…)` and `with suppress(…): process.kill()`. -/
def killAll (process : Process) : Os Unit := do
  Os.suppress (fun e ↦ e matches .osError .processLookup _ | .osError .permission _)
    (Os.killpg process .sigkill)
  Os.suppress (fun e ↦ e matches .osError .processLookup _) (Os.kill process)

/-- `_terminate`. -/
def terminate (process : Process) : Os Unit := do
  let status ← Os.poll process
  Os.when status.isNone (killAll process)
  discard (Os.wait process)

namespace ControlledGitCli

variable (git : ControlledGitCli)

/-- The events of one batch. -/
def readEvents (process : Process) : List Stream → Streams → Os Streams
  | [], streams => pure streams
  | stream :: events, streams => do
    let chunk ← Os.read process stream (min 65536 (git.maxOutputBytes + 1))
    if chunk = [] then readEvents process events (streams.unregister stream)
    else
      let streams := streams.extend stream chunk
      if git.maxOutputBytes < streams.stdout.length + streams.stderr.length then do
        terminate process
        .raise (gitCliError .outputLimit "Git output exceeded the configured capture limit")
      else readEvents process events streams

/-- End a command that is late. -/
def exceed {α : Type} (process : Process) : Os α := do
  terminate process
  .raise (gitCliError .timeout "Git operation exceeded its fixed deadline")

/-- Read until both streams have ended. -/
def captureLoop (process : Process) (deadline : ℚ) : ℕ → Streams → Os Streams
  | 0, _ => .running
  | fuel + 1, streams =>
    if streams.registered = [] then pure streams
    else do
      let remaining := deadline - (← Os.monotonic)
      if remaining ≤ 0 then exceed process
      else do
        let events ← Os.select streams.registered remaining
        if events = [] then exceed process
        else do
          let streams ← git.readEvents process events streams
          captureLoop process deadline fuel streams

/-- `_capture_bounded`, with the status `process.wait()` leaves in `process.returncode`. -/
def captureBounded (fuel : ℕ) (process : Process) : Os (List UInt8 × List UInt8 × ℤ) := do
  let deadline := (← Os.monotonic) + git.timeoutSeconds
  Os.openSelector
  let streams ← .tryFinally
    (do
      Os.register process .stdout
      Os.register process .stderr
      git.captureLoop process deadline fuel .initial)
    Os.closeSelector
  let returncode ← Os.wait process
  return (streams.stdout, streams.stderr, returncode)

/-- `str(status)`. -/
def statusText (status : ℤ) : Text :=
  (if status < 0 then text "-" else []) ++ decimal status.natAbs

/-- `_run`. -/
def run (fuel : ℕ) (arguments : List Text) (cwd : Path) (environment : List (Text × Text)) :
    Os Text := do
  let (stdout, _, returncode) ←
    Os.translate Exc.isOsError
      (fun _ ↦ gitCliError .commandFailed "Git process could not be started") do
      let process ← Os.popen (git.executable.str :: arguments) cwd environment
      git.captureBounded fuel process
  if returncode ≠ 0 then
    .raise (gitCliError .commandFailed
      ("Git operation exited with status " ++ statusText returncode))
  else
    match decodeUtf8 ⟨stdout.toArray⟩ with
    | some decoded => pure decoded
    | none => .raise (gitCliError .commandFailed "Git stdout is not valid UTF-8")

/-! ### What a command calls -/

section Calls

variable {git : ControlledGitCli} {fuel : ℕ} {process : Process}

theorem reaps_terminate : (terminate process).Calls OsCall.Reaps := by
  refine (Action.calls_ask.mpr trivial).bind fun _ ↦ .bind (.ite ?_ trivial) fun _ ↦
    Os.calls_discard (Action.calls_ask.mpr trivial)
  exact (Os.calls_suppress (Action.calls_ask.mpr trivial)).bind fun _ ↦
    Os.calls_suppress (Action.calls_ask.mpr trivial)

theorem pumps_terminate : (terminate process).Calls OsCall.Pumps :=
  reaps_terminate.mono fun c hc ↦ by cases c <;> first | exact hc.elim | trivial

theorem pumps_exceed {α : Type} : (exceed process : Os α).Calls OsCall.Pumps :=
  pumps_terminate.bind fun _ ↦ trivial

theorem pumps_readEvents (events : List Stream) (streams : Streams) :
    (git.readEvents process events streams).Calls OsCall.Pumps := by
  induction events generalizing streams with
  | nil => trivial
  | cons stream events ih =>
    refine (Action.calls_ask.mpr trivial).bind fun chunk ↦ .ite (ih _) (.ite ?_ (ih _))
    exact pumps_terminate.bind fun _ ↦ trivial

theorem pumps_captureLoop (deadline : ℚ) (streams : Streams) :
    (git.captureLoop process deadline fuel streams).Calls OsCall.Pumps := by
  induction fuel generalizing streams with
  | zero => trivial
  | succ fuel ih =>
    refine .ite trivial ((Action.calls_ask.mpr trivial).bind fun _ ↦ .ite pumps_exceed ?_)
    refine .bind (.ite trivial (Action.calls_ask.mpr trivial)) fun _ ↦ .ite pumps_exceed ?_
    exact (pumps_readEvents _ _).bind fun _ ↦ ih _

theorem tends_captureBounded : (git.captureBounded fuel process).Calls OsCall.Tends := by
  refine (Action.calls_ask.mpr trivial).bind fun _ ↦ (Action.calls_ask.mpr trivial).bind fun _ ↦
    .bind (.tryFinally ?_ (Action.calls_ask.mpr trivial)) fun _ ↦
      (Action.calls_ask.mpr trivial).bind fun _ ↦ trivial
  refine (Action.calls_ask.mpr trivial).bind fun _ ↦ (Action.calls_ask.mpr trivial).bind fun _ ↦ ?_
  exact (pumps_captureLoop _ _).mono fun c hc ↦ by cases c <;> first | exact hc.elim | trivial

/-- A command spawns a process, and is then about that process. -/
theorem calls_run {S : OsCall → Prop} {arguments : List Text} {cwd : Path}
    {environment : List (Text × Text)}
    (hpopen : ∀ argv cwd environment, S (.popen argv cwd environment))
    (htends : ∀ c, OsCall.Tends c → S c) : (git.run fuel arguments cwd environment).Calls S := by
  refine (Os.calls_translate ((Action.calls_ask.mpr (hpopen _ _ _)).bind fun process ↦
    tends_captureBounded.mono htends)).bind fun _ ↦ .ite trivial ?_
  split
  · trivial
  · trivial

end Calls

/-! ## The control directory -/

/-- `_environment`. -/
def environment (home config hooks : Path) : List (Text × Text) :=
  [("GIT_ALLOW_PROTOCOL", "file"), ("GIT_ASKPASS", ""), ("GIT_CONFIG_COUNT", "1"),
    ("GIT_CONFIG_KEY_0", "core.hooksPath"), ("GIT_CONFIG_NOSYSTEM", "1"),
    ("GIT_CONFIG_VALUE_0", hooks.str), ("GIT_TERMINAL_PROMPT", "0"), ("HOME", home.str),
    ("LANG", "C.UTF-8"), ("LC_ALL", "C.UTF-8"), ("XDG_CONFIG_HOME", config.str)]

/-- The directories of a control directory, and the environment that names them. -/
def makeControl (control : Path) : Os (List (Text × Text)) := do
  Os.mkdir (control.join "hooks")
  Os.mkdir (control.join "home")
  Os.mkdir (control.join "config")
  return environment (control.join "home") (control.join "config") (control.join "hooks")

/-- `with tempfile.TemporaryDirectory(prefix=stem, dir=dir) as control`, and the environment made
from it. -/
def withControl {α : Type} (stem : Text) (dir : Path)
    (body : Path → List (Text × Text) → Os α) : Os α := do
  let control ← Os.mkdtemp stem dir
  .tryFinally (do body control (← makeControl control)) (Os.rmtree control)

/-! ## Paths -/

/-- `_validate_paths`. -/
def validatePaths (source destination : Path) : Os (Path × Path) := do
  let (trustedSource, trustedParent) ←
    Os.translate Exc.isOsError (fun e ↦ gitCliError .invalidPath (osErrorText e)) do
      let trustedSource ← Os.resolve source
      let trustedParent ← Os.resolve destination.parent
      return (trustedSource, trustedParent)
  let trustedDestination := trustedParent.join destination.name
  if !(← Os.isDir trustedSource) then
    .raise (gitCliError .invalidPath "source must be a directory")
  else if destination.name = [] ∨ destination.name = text "." ∨ destination.name = text ".." then
    .raise (gitCliError .invalidPath "destination name is invalid")
  else do
    if ← Os.or (Os.pathExists trustedDestination) (Os.isSymlink trustedDestination) then
      .raise (gitCliError .destinationExists "destination must not exist")
    else if trustedDestination.IsRelativeTo trustedSource then
      .raise (gitCliError .invalidPath "destination must not be inside the source repository")
    else return (trustedSource, trustedDestination)

/-- `_validate_repository`. -/
def validateRepository (repository : Path) : Os Path := do
  let trusted ← Os.translate Exc.isOsError
    (fun e ↦ gitCliError .invalidPath (osErrorText e)) (Os.resolve repository)
  let metadata := trusted.join ".git"
  if ← Os.or (do return !(← Os.isDir trusted))
      (Os.or (do return !(← Os.isDir metadata)) (Os.isSymlink metadata)) then
    .raise (gitCliError .invalidPath "repository must contain local Git metadata")
  else return trusted

/-- `_discard_partial`. -/
def discardPartial (destination : Path) : Os Unit := do
  if ← Os.pathExists destination then
    if ← Os.isDir destination then
      if !(← Os.isSymlink destination) then
        Os.rmtree destination

/-! ## Operations -/

/-- `rev-parse --verify HEAD^{commit}` in a repository. -/
def revParse (repository : Path) : List Text :=
  ["-C", repository.str, "rev-parse", "--verify", "HEAD^\x7bcommit\x7d"]

/-- `checkout --detach --force` of a baseline. -/
def checkout (repository : Path) (baselineSha : BaselineSha) : List Text :=
  ["-C", repository.str, "checkout", "--detach", "--force", baselineSha.value, "--"]

/-- `clone` without a checkout. -/
def clone (source destination : Path) : List Text :=
  ["clone", "--no-local", "--no-hardlinks", "--no-checkout", "--no-tags", source.str,
    destination.str]

/-- `remote remove origin`. -/
def removeRemote (repository : Path) : List Text :=
  ["-C", repository.str, "remote", "remove", "origin"]

/-- `remote`. -/
def listRemotes (repository : Path) : List Text := ["-C", repository.str, "remote"]

/-- `read-tree HEAD`. -/
def readTree (repository : Path) : List Text := ["-C", repository.str, "read-tree", "HEAD"]

/-- `add -A -- .`. -/
def addAll (repository : Path) : List Text := ["-C", repository.str, "add", "-A", "--", "."]

/-- `write-tree`. -/
def writeTree (repository : Path) : List Text := ["-C", repository.str, "write-tree"]

/-- What `materialize_baseline` does in its control directory. -/
def cloneBaseline (fuel : ℕ) (source destination : Path) (baselineSha : BaselineSha)
    (environment : List (Text × Text)) : Os Unit := do
  let parent := destination.parent
  discard (git.run fuel (clone source destination) parent environment)
  discard (git.run fuel (checkout destination baselineSha) parent environment)
  let resolvedHead := strip (← git.run fuel (revParse destination) parent environment)
  if resolvedHead ≠ baselineSha.value then
    .raise (gitCliError .baselineMismatch
      "materialized HEAD does not match the requested baseline")
  else discard (git.run fuel (removeRemote destination) parent environment)

/-- `materialize_baseline`. -/
def materializeBaseline (fuel : ℕ) (source destination : Path) (baselineSha : BaselineSha) :
    Os MaterializedBaseline := do
  let (trustedSource, trustedDestination) ← validatePaths source destination
  .tryCatch
    (withControl ".alicerce-git-control-" trustedDestination.parent fun _ environment ↦
      git.cloneBaseline fuel trustedSource trustedDestination baselineSha environment)
    fun e ↦
      if e.isGitCliError then do
        discardPartial trustedDestination
        .raise e
      else if e.isOsError then do
        discardPartial trustedDestination
        .raise (gitCliError .commandFailed (osErrorText e))
      else .raise e
  return ⟨trustedDestination, baselineSha⟩

/-- `verify_baseline`. -/
def verifyBaseline (fuel : ℕ) (repository : Path) (baselineSha : BaselineSha) :
    Os MaterializedBaseline := do
  let trusted ← validateRepository repository
  let (resolvedHead, remotes) ←
    Os.translate Exc.isOsError
      (fun _ ↦ gitCliError .commandFailed "Git verification control directory failed")
      (withControl ".alicerce-git-control-" trusted.parent fun _ environment ↦ do
        let resolvedHead := strip (← git.run fuel (revParse trusted) trusted.parent environment)
        let remotes := strip (← git.run fuel (listRemotes trusted) trusted.parent environment)
        return (resolvedHead, remotes))
  if resolvedHead ≠ baselineSha.value then
    .raise (gitCliError .baselineMismatch
      "repository HEAD does not match the requested baseline")
  else if remotes ≠ [] then
    .raise (gitCliError .baselineMismatch
      "materialized repository must not retain remotes")
  else return ⟨trusted, baselineSha⟩

/-- `snapshot_candidate`. -/
def snapshotCandidate (fuel : ℕ) (repository : Path) : Os CandidateSha := do
  let trusted ← validateRepository repository
  let translated : Exc → Exc := fun e ↦
    if e.isOsError then gitCliError .commandFailed "Git snapshot control directory failed"
    else gitCliError .commandFailed "Git returned an invalid candidate tree identity"
  Os.translate (fun e ↦ e.isOsError || e.isTypeOrValueError) translated do
    let treeSha ← withControl ".alicerce-git-snapshot-" trusted.parent
      fun control environment ↦ do
        let environment :=
          environment ++ [(text "GIT_INDEX_FILE", (control.join "candidate.index").str)]
        let parent := trusted.parent
        discard (git.run fuel (readTree trusted) parent environment)
        discard (git.run fuel (addAll trusted) parent environment)
        return strip (← git.run fuel (writeTree trusted) parent environment)
    .lift (Checked.new _ treeSha)

end ControlledGitCli

end Alicerce
