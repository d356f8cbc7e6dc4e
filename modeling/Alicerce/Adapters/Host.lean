import Alicerce.Domain.Command
import Alicerce.Lib.Interaction
import Mathlib.Data.Rat.Init
import Mathlib.Algebra.Order.Field.Rat
import Mathlib.Tactic.NormNum
import Mathlib.Tactic.Linarith

/-!
# The host of the local adapters

The local adapters are programs that call the operating system, and everything they learn about the
world is in the answers.

* `Path` is an absolute path, by its parts.
* `OsCall` lists the calls, one constructor each with what it is given, and `OsCall.Answer` is for
  each the type of its answers, which says how it can fail: the predicates of `pathlib` raise an
  `OSError` or nothing, `Path.resolve` may also meet a loop of links or a path that has no bytes,
  and a clock does not fail at all.
* `Os α` is a program over these calls that returns an `α` or raises; `Os.isSymlink`, `Os.popen` and
  the others are the calls as such programs.
* `OsCall.Looks`, `OsCall.Tends` and the predicates beside them are kinds of calls.
* `SandboxInvocation`, `SandboxResult`, `Process`, `Stream` and `Streams` are what the calls and the
  programs over them are about.
* `obligingHost` is a host on which everything goes well, for examples.

Two parties of the package that the adapters call and that are not theirs are listed with the calls:
the sandbox backend a command executor is given, and the generator of workspace ids.

Python's own arithmetic is on this side of the boundary: a division whose quotient is no float
(`Os.seconds`), and a timeout the selector cannot express (`Os.select`), raise `OverflowError` here,
without a call.
-/

set_option autoImplicit false

namespace Alicerce

open Py Lib

/-! ## Paths -/

/-- An absolute path, by its parts.  Names in it are those of a directory, or `..`. -/
@[ext]
structure Path where
  parts : List Text
deriving DecidableEq

namespace Path

/-- `path / name`.  The name may itself be a path, and then an absolute one replaces `path`. -/
def join (path : Path) (name : Text) : Path :=
  if name.head? = some slash then ⟨posixParts name⟩ else ⟨path.parts ++ posixParts name⟩

/-- `path.parent`. -/
def parent (path : Path) : Path := ⟨path.parts.dropLast⟩

/-- `path.name`. -/
def name (path : Path) : Text := path.parts.getLast?.getD []

/-- `path.is_relative_to(root)`. -/
def IsRelativeTo (path root : Path) : Prop := root.parts <+: path.parts

instance (path root : Path) : Decidable (path.IsRelativeTo root) :=
  inferInstanceAs (Decidable (_ <+: _))

/-- `str(path)`. -/
def str (path : Path) : Text := slash :: [slash].intercalate path.parts

end Path

/-- A name a directory can hold. -/
def IsName (name : Text) : Prop := slash ∉ name ∧ name ≠ [] ∧ name ≠ "."

instance (name : Text) : Decidable (IsName name) := inferInstanceAs (Decidable (_ ∧ _))

theorem posixParts_of_isName {name : Text} (h : IsName name) : posixParts name = [name] := by
  rw [posixParts, List.splitOn_eq_singleton h.1]
  exact List.filter_cons_of_pos (decide_eq_true h.2)

theorem Path.join_of_isName {path : Path} {name : Text} (h : IsName name) :
    path.join name = ⟨path.parts ++ [name]⟩ := by
  rw [join, if_neg, posixParts_of_isName h]
  intro hhead
  exact h.1 (List.mem_of_mem_head? (Option.mem_def.mpr hhead))

/-! ## The seam of the sandbox -/

/-- Trusted host-level invocation prepared by the local coordinator. -/
@[ext]
structure SandboxInvocation where
  executable : Path
  arguments : List Text
  workspaceRoot : Path
  workingDirectory : Path
  environment : List EnvironmentVariable
  networkPolicy : NetworkPolicy
  limits : CommandLimits

/-- Raw bounded result returned by a trusted sandbox backend. -/
@[ext]
structure SandboxResult where
  termination : ExecutionTermination
  exitCode : Option ℤ
  stdout : Bytes
  stderr : Bytes
  startedAt : DateTime
  finishedAt : DateTime
deriving DecidableEq

/-! ## How calls fail -/

/-- An `OSError`. -/
structure OsError where
  kind : OsErrorKind
  message : Text
deriving DecidableEq

/-- The exception it is. -/
def OsError.toExc (e : OsError) : Exc := .osError e.kind e.message

@[simp] theorem OsError.isOsError_toExc (e : OsError) : e.toExc.isOsError = true := rfl

theorem OsError.isBlockingError_toExc {e : OsError} :
    e.toExc.isBlockingError = true ↔ e.kind = .blocking := by
  obtain ⟨kind, message⟩ := e
  cases kind <;> simp [toExc, Exc.isBlockingError]

/-- How `Path.resolve` fails. -/
inductive ResolveError
  | os (e : OsError)
  /-- `RuntimeError`, for a loop of links. -/
  | loop (message : Text)
  /-- `UnicodeEncodeError`, for a path that is not the decoding of any bytes. -/
  | encode
deriving DecidableEq

/-- The exception it is. -/
def ResolveError.toExc : ResolveError → Exc
  | os e => e.toExc
  | loop message => .runtimeError message
  | encode => .unicodeEncodeError

/-- How `subprocess.Popen` fails. -/
inductive SpawnError
  | os (e : OsError)
  /-- `UnicodeEncodeError`, for an argument that is not the decoding of any bytes. -/
  | encode
deriving DecidableEq

/-- The exception it is. -/
def SpawnError.toExc : SpawnError → Exc
  | os e => e.toExc
  | encode => .unicodeEncodeError

/-- How a probing `subprocess.run` fails. -/
inductive ProbeError
  | os (e : OsError)
  | timeoutExpired
  | encode
deriving DecidableEq

/-- The exception it is. -/
def ProbeError.toExc : ProbeError → Exc
  | os e => e.toExc
  | timeoutExpired => .timeoutExpired
  | encode => .unicodeEncodeError

/-! ## Streams -/

/-- The two pipes of a process. -/
inductive Stream
  | stdout
  | stderr
deriving DecidableEq

/-- The streams that are still open, and what has been captured of each. -/
structure Streams where
  /-- `selector.get_map()`. -/
  registered : List Stream
  stdout : List UInt8
  stderr : List UInt8
deriving DecidableEq

namespace Streams

/-- Before the first event. -/
def initial : Streams := ⟨[.stdout, .stderr], [], []⟩

/-- `selector.unregister(stream)`. -/
def unregister (streams : Streams) (stream : Stream) : Streams :=
  { streams with registered := streams.registered.erase stream }

/-- The bytes captured of a stream. -/
def target (streams : Streams) : Stream → List UInt8
  | .stdout => streams.stdout
  | .stderr => streams.stderr

/-- `target.extend(bytes)`. -/
def extend (streams : Streams) (stream : Stream) (bytes : List UInt8) : Streams :=
  match stream with
  | .stdout => { streams with stdout := streams.stdout ++ bytes }
  | .stderr => { streams with stderr := streams.stderr ++ bytes }

end Streams

/-! ## Calls and answers -/

/-- The signals that are sent. -/
inductive Signal
  | sigterm
  | sigkill
deriving DecidableEq

/-- A process, by its identifier, which is that of its group. -/
structure Process where
  pid : ℕ
deriving DecidableEq

/-- What a selector reports: streams that are registered, each at most once. -/
abbrev Ready (registered : List Stream) :=
  { streams : List Stream // streams.Nodup ∧ streams ⊆ registered }

/-- All that is registered is ready. -/
def Ready.all (registered : List Stream) : Ready registered :=
  ⟨registered.dedup, registered.nodup_dedup, List.dedup_subset registered⟩

/-- An entry of a directory, with what `entry.is_dir()` says of it (`False` when it raises). -/
structure DirEntry where
  name : Text
  isDir : Bool
deriving DecidableEq

/-- What is asked of the host. -/
inductive OsCall
  | isSymlink (path : Path)
  | isDir (path : Path)
  | isFile (path : Path)
  | pathExists (path : Path)
  | resolve (path : Path)
  | accessExecutable (path : Path)
  | readFile (path : Path)
  | scandir (path : Path)
  /-- `os.path.islink`, which does not raise. -/
  | islink (path : Path)
  | mkdtemp (stem : Text) (dir : Path)
  | mkdir (path : Path)
  | rmtree (path : Path)
  | unlink (path : Path)
  | rename (path target : Path)
  | monotonic
  | utcNow
  | runProbe (argv : List Text)
  | popen (argv : List Text) (cwd : Path) (environment : List (Text × Text))
  | openSelector
  | setBlocking (process : Process) (stream : Stream)
  | register (process : Process) (stream : Stream)
  | select (registered : List Stream) (timeout : ℚ)
  | read (process : Process) (stream : Stream) (count : ℕ)
  | closeSelector
  | closeStream (process : Process) (stream : Stream)
  | poll (process : Process)
  | wait (process : Process)
  | waitFor (process : Process) (timeout : ℚ)
  | killpg (process : Process) (signal : Signal)
  | kill (process : Process)
  /-- `supports` of a backend that is not this package's. -/
  | backendSupports (networkPolicy : NetworkPolicy)
  /-- `execute` of a backend that is not this package's. -/
  | backendExecute (invocation : SandboxInvocation)
  | newWorkspaceId

/-- What a call can be answered. -/
abbrev OsCall.Answer : OsCall → Type
  | .isSymlink _ | .isDir _ | .isFile _ | .pathExists _ | .accessExecutable _ => Except OsError Bool
  | .resolve _ => Except ResolveError Path
  | .readFile _ => Except OsError Bytes
  | .scandir _ => Except OsError (List DirEntry)
  | .islink _ => Bool
  | .mkdtemp _ _ => Except OsError Path
  | .mkdir _ | .rmtree _ | .unlink _ | .rename _ _ => Except OsError Unit
  | .monotonic => ℚ
  | .utcNow => CivilTime
  | .runProbe _ => Except ProbeError ℤ
  | .popen _ _ _ => Except SpawnError Process
  | .openSelector | .setBlocking _ _ | .register _ _ => Except OsError Unit
  | .select registered _ => Except OsError (Ready registered)
  | .read _ _ _ => Except OsError (List UInt8)
  | .closeSelector | .closeStream _ _ => Except OsError Unit
  -- the status, once the process has ended
  | .poll _ => Option ℤ
  | .wait _ => ℤ
  -- `none` is `subprocess.TimeoutExpired`
  | .waitFor _ _ => Option ℤ
  | .killpg _ _ | .kill _ => Except OsError Unit
  | .backendSupports _ => Except Exc Bool
  | .backendExecute _ => Except Exc SandboxResult
  | .newWorkspaceId => Except Exc WorkspaceId

/-- A program that calls the host. -/
abbrev Os := Action OsCall OsCall.Answer Exc

/-- What happened between a program and the host. -/
abbrev OsLog := List (Event OsCall.Answer)

namespace Os

variable {α : Type}

/-! ## The calls as programs -/

/-- Whether a path is a link. -/
def isSymlink (path : Path) : Os Bool := .ask (.isSymlink path) (.mapError OsError.toExc)

/-- Whether a path leads to a directory. -/
def isDir (path : Path) : Os Bool := .ask (.isDir path) (.mapError OsError.toExc)

/-- Whether a path leads to a regular file. -/
def isFile (path : Path) : Os Bool := .ask (.isFile path) (.mapError OsError.toExc)

/-- Whether a path leads anywhere. -/
def pathExists (path : Path) : Os Bool := .ask (.pathExists path) (.mapError OsError.toExc)

/-- `path.resolve(strict=True)`. -/
def resolve (path : Path) : Os Path := .ask (.resolve path) (.mapError ResolveError.toExc)

/-- `os.access(path, os.X_OK)`. -/
def accessExecutable (path : Path) : Os Bool :=
  .ask (.accessExecutable path) (.mapError OsError.toExc)

/-- The bytes of a file. -/
def readFile (path : Path) : Os Bytes := .ask (.readFile path) (.mapError OsError.toExc)

/-- The entries of a directory. -/
def scandir (path : Path) : Os (List DirEntry) := .ask (.scandir path) (.mapError OsError.toExc)

/-- `os.path.islink`. -/
def islink (path : Path) : Os Bool := .ask (.islink path) .ok

/-- Make a directory under a fresh name. -/
def mkdtemp (stem : Text) (dir : Path) : Os Path :=
  .ask (.mkdtemp stem dir) (.mapError OsError.toExc)

/-- `path.mkdir()`. -/
def mkdir (path : Path) : Os Unit := .ask (.mkdir path) (.mapError OsError.toExc)

/-- `shutil.rmtree(path)`. -/
def rmtree (path : Path) : Os Unit := .ask (.rmtree path) (.mapError OsError.toExc)

/-- `path.unlink()`. -/
def unlink (path : Path) : Os Unit := .ask (.unlink path) (.mapError OsError.toExc)

/-- `path.rename(target)`. -/
def rename (path target : Path) : Os Unit := .ask (.rename path target) (.mapError OsError.toExc)

/-- `time.monotonic()`, in seconds. -/
def monotonic : Os ℚ := .ask .monotonic .ok

/-- `datetime.now(UTC)`. -/
def utcNow : Os CivilTime := .ask .utcNow .ok

/-- `subprocess.run` of a command in an empty environment and the current directory, whose output is
discarded, and its status. -/
def runProbe (argv : List Text) : Os ℤ := .ask (.runProbe argv) (.mapError ProbeError.toExc)

/-- `subprocess.Popen`, in a session of its own, with both outputs piped. -/
def popen (argv : List Text) (cwd : Path) (environment : List (Text × Text)) : Os Process :=
  .ask (.popen argv cwd environment) (.mapError SpawnError.toExc)

/-- `selectors.DefaultSelector()`. -/
def openSelector : Os Unit := .ask .openSelector (.mapError OsError.toExc)

/-- `os.set_blocking(stream.fileno(), False)`. -/
def setBlocking (process : Process) (stream : Stream) : Os Unit :=
  .ask (.setBlocking process stream) (.mapError OsError.toExc)

/-- `selector.register(stream, selectors.EVENT_READ)`. -/
def register (process : Process) (stream : Stream) : Os Unit :=
  .ask (.register process stream) (.mapError OsError.toExc)

/-- The longest timeout of a selector: `2 ** 31 - 1` milliseconds. -/
def selectLimit : ℚ := 2147483647 / 1000

/-- `selector.select(timeout)`, of the streams that are registered. -/
def select (registered : List Stream) (timeout : ℚ) : Os (List Stream) :=
  if selectLimit < timeout then .raise (.overflowError "timeout is too large")
  else .ask (.select registered timeout) fun answer ↦
    (answer.mapError OsError.toExc).map Subtype.val

/-- `os.read(stream.fileno(), count)`. -/
def read (process : Process) (stream : Stream) (count : ℕ) : Os (List UInt8) :=
  .ask (.read process stream count) (.mapError OsError.toExc)

/-- `selector.close()`. -/
def closeSelector : Os Unit := .ask .closeSelector (.mapError OsError.toExc)

/-- `stream.close()`. -/
def closeStream (process : Process) (stream : Stream) : Os Unit :=
  .ask (.closeStream process stream) (.mapError OsError.toExc)

/-- `process.poll()`. -/
def poll (process : Process) : Os (Option ℤ) := .ask (.poll process) .ok

/-- `process.wait()`. -/
def wait (process : Process) : Os ℤ := .ask (.wait process) .ok

/-- `process.wait(timeout=timeout)`. -/
def waitFor (process : Process) (timeout : ℚ) : Os ℤ :=
  .ask (.waitFor process timeout) fun status ↦ status.elim (.error .timeoutExpired) .ok

/-- `os.killpg(process.pid, signal)`. -/
def killpg (process : Process) (signal : Signal) : Os Unit :=
  .ask (.killpg process signal) (.mapError OsError.toExc)

/-- `process.kill()`. -/
def kill (process : Process) : Os Unit := .ask (.kill process) (.mapError OsError.toExc)

/-! ## Python's own part -/

/-- The least number that is too large for a float. -/
def floatLimit : ℚ := 2 ^ 1024 - 2 ^ 970

/-- `milliseconds / 1000`. -/
def seconds (milliseconds : ℕ) : Except Exc ℚ :=
  if floatLimit ≤ milliseconds / 1000 then
    .error (.overflowError "integer division result too large for a float")
  else .ok (milliseconds / 1000)

/-- What the selector can express is a float. -/
theorem selectLimit_lt_floatLimit : selectLimit < floatLimit := by
  have hsplit : (2 : ℚ) ^ 1024 = 2 ^ 54 * 2 ^ 970 := by rw [← pow_add]
  have hone : (1 : ℚ) ≤ 2 ^ 970 := one_le_pow₀ (by norm_num)
  rw [selectLimit, floatLimit, hsplit]
  generalize (2 : ℚ) ^ 970 = unit at hone
  linarith

theorem seconds_of_le_selectLimit {milliseconds : ℕ} (h : (milliseconds : ℚ) / 1000 ≤ selectLimit) :
    seconds milliseconds = .ok ((milliseconds : ℚ) / 1000) :=
  if_neg (h.trans_lt selectLimit_lt_floatLimit).not_ge

/-- `if condition: p`. -/
def when (condition : Bool) (p : Os Unit) : Os Unit := if condition then p else pure ()

/-- `or`: the second part is asked only when the first one is `False`. -/
def or (p q : Os Bool) : Os Bool := do
  if ← p then pure true else q

/-- `try: p` / `except caught as error: raise f(error) from error`. -/
def translate (caught : Exc → Bool) (f : Exc → Exc) (p : Os α) : Os α :=
  .tryCatch p fun e ↦ .raise (if caught e then f e else e)

/-- `with suppress(caught): p`. -/
def suppress (caught : Exc → Bool) (p : Os Unit) : Os Unit :=
  .tryCatch p fun e ↦ if caught e then pure () else .raise e

theorem returns_translate {caught : Exc → Bool} {f : Exc → Exc} {p : Os α} {log : OsLog}
    {x : Except Exc α} : (translate caught f p).Returns log x ↔
      ∃ y, p.Returns log y ∧ x = Py.translate caught f y := by
  rw [translate, Action.returns_tryCatch]
  constructor
  · rintro (⟨a, hp, rfl⟩ | ⟨l, l', e, rfl, hp, hh⟩)
    · exact ⟨.ok a, hp, rfl⟩
    · obtain ⟨rfl, rfl⟩ := Action.returns_raise.mp hh
      exact ⟨.error e, (List.append_nil l).symm ▸ hp, rfl⟩
  · rintro ⟨y, hp, rfl⟩
    cases y with
    | ok a => exact .inl ⟨a, hp, rfl⟩
    | error e =>
      exact .inr ⟨log, [], e, (List.append_nil log).symm, hp, Action.returns_raise.mpr ⟨rfl, rfl⟩⟩

@[simp] theorem ensures_translate {W : Type} {Env : W → Event OsCall.Answer → W → Prop} {w : W}
    {caught : Exc → Bool} {f : Exc → Exc} {p : Os α} {Q : Except Exc α → W → Prop} :
    (translate caught f p).Ensures Env w Q ↔
      p.Ensures Env w fun x w' ↦ Q (Py.translate caught f x) w' := by
  rw [translate, Action.ensures_tryCatch]
  constructor
  · exact fun h ↦ h.mono fun x w' hx ↦ by cases x <;> exact hx
  · exact fun h ↦ h.mono fun x w' hx ↦ by cases x <;> exact hx

theorem settle_translate {answers : (call : OsCall) → call.Answer} {caught : Exc → Bool}
    {f : Exc → Exc} {p : Os α} {x : Except Exc α} (hp : p.settle answers = some x) :
    (translate caught f p).settle answers = some (Py.translate caught f x) := by
  cases x with
  | ok a => exact Action.settle_tryCatch_ok hp
  | error e => exact Action.settle_tryCatch_error hp

/-! ## Which calls are made -/

section Calls

variable {S : OsCall → Prop} {p : Os α}

theorem calls_or {p q : Os Bool} (hp : p.Calls S) (hq : q.Calls S) : (Os.or p q).Calls S :=
  hp.bind fun _ ↦ .ite trivial hq

theorem calls_not {p : Os Bool} (hp : p.Calls S) : (do return !(← p) : Os Bool).Calls S :=
  hp.bind fun _ ↦ trivial

theorem calls_translate {caught : Exc → Bool} {f : Exc → Exc} (hp : p.Calls S) :
    (translate caught f p).Calls S := hp.tryCatch fun _ ↦ trivial

theorem calls_suppress {caught : Exc → Bool} {p : Os Unit} (hp : p.Calls S) :
    (suppress caught p).Calls S := hp.tryCatch fun _ ↦ .ite trivial trivial

theorem calls_discard (hp : p.Calls S) : (discard p : Os PUnit).Calls S := hp.bind fun _ ↦ trivial

end Calls

end Os

/-- A call that only looks. -/
def OsCall.Looks : OsCall → Prop
  | .isSymlink _ | .isDir _ | .isFile _ | .pathExists _ | .resolve _ | .accessExecutable _
  | .readFile _ | .scandir _ | .islink _ | .monotonic | .utcNow | .runProbe _ => True
  | _ => False

/-- A call that only looks, and starts no process to do so. -/
def OsCall.Views : OsCall → Prop
  | .runProbe _ => False
  | call => call.Looks

theorem OsCall.Views.looks {c : OsCall} (h : c.Views) : c.Looks := by
  cases c <;> first | exact h.elim | trivial

/-- A call about a process that is there. -/
def OsCall.Tends : OsCall → Prop
  | .monotonic | .openSelector | .setBlocking _ _ | .register _ _ | .select _ _ | .read _ _ _
  | .closeSelector | .closeStream _ _ | .poll _ | .wait _ | .waitFor _ _ | .killpg _ _ | .kill _ =>
    True
  | _ => False

/-- A call that reads from a process, or ends it. -/
def OsCall.Pumps : OsCall → Prop
  | .monotonic | .select _ _ | .read _ _ _ | .poll _ | .wait _ | .waitFor _ _ | .killpg _ _
  | .kill _ => True
  | _ => False

/-- A call that ends a process, or asks whether it has ended. -/
def OsCall.Reaps : OsCall → Prop
  | .poll _ | .wait _ | .waitFor _ _ | .killpg _ _ | .kill _ => True
  | _ => False

/-! ## A host -/

/-- The time it is there. -/
def epoch : CivilTime := ⟨1970, 1, 1, 0, 0, 0, 0, by decide⟩

/-- A host on which everything goes well, and a command leaves behind what `output` says on its
standard output.  Its state is what is left to be read there. -/
def obligingHost (output : List Text → List UInt8) :
    List UInt8 → (call : OsCall) → call.Answer × List UInt8
  | left, .isSymlink _ | left, .pathExists _ => (.ok false, left)
  | left, .isDir _ | left, .isFile _ | left, .accessExecutable _ => (.ok true, left)
  | left, .resolve path => (.ok path, left)
  | left, .readFile _ => (.ok ⟨#[]⟩, left)
  | left, .scandir _ => (.ok [], left)
  | left, .islink _ => (false, left)
  | left, .mkdtemp stem dir => (.ok (dir.join stem), left)
  | left, .mkdir _ | left, .rmtree _ | left, .unlink _ | left, .rename _ _ => (.ok (), left)
  | left, .monotonic => (0, left)
  | left, .utcNow => (epoch, left)
  | left, .runProbe _ => (.ok 0, left)
  | _, .popen argv _ _ => (.ok ⟨1⟩, output argv)
  | left, .openSelector | left, .setBlocking _ _ | left, .register _ _ => (.ok (), left)
  | left, .select registered _ => (.ok (.all registered), left)
  | left, .read _ .stdout count => (.ok (left.take count), left.drop count)
  | left, .read _ .stderr _ => (.ok [], left)
  | left, .closeSelector | left, .closeStream _ _ => (.ok (), left)
  | left, .poll _ => (none, left)
  | left, .wait _ => (0, left)
  | left, .waitFor _ _ => (some 0, left)
  | left, .killpg _ _ | left, .kill _ => (.ok (), left)
  | left, .backendSupports _ => (.ok true, left)
  | left, .backendExecute _ => (.ok ⟨.exited, some 0, ⟨#[]⟩, ⟨#[]⟩, utc epoch, utc epoch⟩, left)
  | left, .newWorkspaceId =>
    (.ok (testRequest (storeIdentity qualityLoop)).workspace.workspaceId, left)

end Alicerce
