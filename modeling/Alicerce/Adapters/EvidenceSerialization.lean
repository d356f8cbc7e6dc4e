import Alicerce.Adapters.StateSerialization
import Alicerce.Domain.Command
import Alicerce.Py.Sha256
import Mathlib.Data.Rat.Defs
import Mathlib.Algebra.Order.Field.Rat

/-!
# Serialization of canonical evidence

The adapter that turns a canonical evidence value into deterministic bytes, and the hashes of those
bytes.

* `Environment`, `CommandResult`, `Usage` and `Evidence` are the values of the schemas package.
* `environmentPayload`, `commandPayload`, `usagePayload` and `evidencePayload` check the fields they
  print, in the order the source lists them, and print them as they are.
* `serializeEnvironment`, `serializeCommandResult` and `serializeEvidence` write the payloads out,
  and `hashEnvironment`, `hashCommandResult` and `hashEvidence` are the digests of that.
* `buildCommandResult` makes a canonical result of an execution.
* The arithmetic of floats and the reader of ISO 8601 belong to the interpreter (`StandardLibrary`).
-/

set_option autoImplicit false

namespace Alicerce

open Py

/-! ## What the serializer uses of the standard library -/

/-- The arithmetic of floats, and `datetime.fromisoformat`. -/
class StandardLibrary [Interpreter] where
  /-- The number a finite float is; `none` on an infinity or a NaN. -/
  value : Interpreter.Float → Option ℚ
  /-- `m / n` on integers. -/
  divide : ℤ → ℤ → Interpreter.Float
  /-- `n + x` on an integer and a float. -/
  add : ℤ → Interpreter.Float → Interpreter.Float
  /-- `datetime.fromisoformat`; `none` is `ValueError`. -/
  fromisoformat : Text → Option DateTime

/-- The first integers that no longer convert to a float, which is an `OverflowError`: from half a
unit in the last place above the largest float on, rounding would leave the range. -/
def floatOverflow : ℕ := 2 ^ 1024 - 2 ^ 970

/-- An `int` or a `float`. -/
inductive Number [Interpreter]
  | int (n : ℤ)
  | float (x : Interpreter.Float)

/-! ## The canonical models -/

section
variable [Interpreter]

/-- The JSON value of a number. -/
def Number.json : Number → Json
  | .int n => .int n
  | .float x => .float x

/-- The number itself. -/
def Number.value [StandardLibrary] : Number → Option ℚ
  | .int n => some n
  | .float x => StandardLibrary.value x

/-- `canonical.Environment`. -/
structure Environment where
  python : Text
  uvLockSha256 : Text
  toolVersions : List (Text × Text)
  /-- A dictionary has one value for each key. -/
  toolVersions_nodup : (toolVersions.map Prod.fst).Nodup

/-- `environment.tool_versions.get(name)`. -/
def Environment.toolVersion (e : Environment) (name : Text) : Option Text :=
  e.toolVersions.lookup name

/-- `canonical.CommandResult`. -/
structure CommandResult where
  command : Text
  termination : Text
  exitCode : Option ℤ
  stdoutSha256 : Text
  stderrSha256 : Text
  specificationSha256 : Text
  durationS : Number

/-- `canonical.TokenUsage`. -/
structure TokenUsage where
  input : ℤ
  output : ℤ

/-- `canonical.Usage`. -/
structure Usage where
  provider : Text
  model : Text
  tokens : TokenUsage
  estimatedCostUsd : Option Number

/-- `canonical.Evidence`. -/
structure Evidence where
  version : Text
  runId : Text
  contractId : Text
  baselineSha : Text
  candidateSha : Text
  environment : Environment
  commands : List CommandResult
  changedFiles : List Text
  usage : Usage
  startedAt : Text
  finishedAt : Text

end

/-! ## Patterns -/

/-- `_OBJECT_ID_PATTERN`, `[0-9a-f]{7,40}\Z`. -/
def objectIdPattern (t : Text) : Bool := 7 ≤ t.length && t.length ≤ 40 && t.all lowerHex

/-- `_VERSION_PATTERN`, `\d+\.\d+\.\d+\Z`. -/
def versionPattern [Interpreter] (t : Text) : Bool :=
  match t.splitOn (.scalar '.') with
  | [a, b, c] => [a, b, c].all fun part ↦ part ≠ [] && part.all anyDigit
  | _ => false

/-! ## Checks -/

/-- What the checks raise. -/
def evidenceError (message : Text) : Exc := .evidenceSerializationError message

/-- `_text`, with `nonempty=True`. -/
def nonemptyText (value name : Text) : Except Exc Text :=
  if value = [] then .error (evidenceError (name ++ " must be non-empty")) else .ok value

/-- `_matching_text`. -/
def matchingText (value name : Text) (pattern : Text → Bool) : Except Exc Text :=
  if pattern value then .ok value else .error (evidenceError (name ++ " has an invalid format"))

/-- `_integer`, with `minimum=0`. -/
def naturalInteger (value : ℤ) (name : Text) : Except Exc ℤ :=
  if value < 0 then .error (evidenceError (name ++ " must be at least 0")) else .ok value

section
variable [Interpreter] [StandardLibrary]

/-- `math.isfinite`, which converts an integer to a float, and the number. -/
def isfinite : Number → Except Exc (Option ℚ)
  | .int n =>
    if n.natAbs < floatOverflow then .ok (some n)
    else .error (.overflowError "int too large to convert to float")
  | .float x => .ok (StandardLibrary.value x)

/-- `_number`. -/
def number (value : Number) (name : Text) : Except Exc Number := do
  match ← isfinite value with
  | none => .error (evidenceError (name ++ " must be finite and non-negative"))
  | some q =>
    if q < 0 then .error (evidenceError (name ++ " must be finite and non-negative"))
    else .ok value

/-- `text.replace("Z", "+00:00")`. -/
def replaceZ (t : Text) : Text :=
  t.flatMap fun c ↦ if c = .scalar 'Z' then "+00:00" else [c]

/-- `_timestamp`. -/
def evidenceTimestamp (value name : Text) : Except Exc Text := do
  let t ← nonemptyText value name
  match StandardLibrary.fromisoformat (replaceZ t) with
  | none => .error (evidenceError (name ++ " must be an ISO 8601 timestamp"))
  | some parsed =>
    if parsed.tzinfo = .none then .error (evidenceError (name ++ " must include a timezone"))
    else .ok t

/-- `_dump`. -/
def dumpEvidence (value : List (Text × Json)) : Except Exc Bytes :=
  translate Exc.isTypeOrValueError
    (fun _ ↦ evidenceError "evidence cannot be represented as deterministic JSON") do
      encodeText (← jsonDumps (.obj value))

/-! ## Payloads -/

/-- The loop over the tool versions. -/
def toolVersionsPayload : List (Text × Text) → Except Exc (List (Text × Json))
  | [] => .ok []
  | (key, value) :: versions => do
    let name ← nonemptyText key "tool version name"
    let version ← nonemptyText value (text "tool version " ++ name)
    .ok ((name, .str version) :: (← toolVersionsPayload versions))

/-- `_environment_payload`. -/
def environmentPayload (environment : Environment) : Except Exc (List (Text × Json)) := do
  let versions ← toolVersionsPayload environment.toolVersions
  let python ← nonemptyText environment.python "environment.python"
  let uvLock ← matchingText environment.uvLockSha256 "environment.uv_lock_sha256" sha256Pattern
  .ok [("python", .str python), ("tool_versions", .obj versions), ("uv_lock_sha256", .str uvLock)]

/-- `_TERMINATIONS`. -/
def terminations : List Text := ["EXITED", "TIMED_OUT", "CANCELLED", "OUTPUT_LIMIT"].map text

/-- The check of `exit_code`. -/
def exitCodePayload (termination : Text) (exitCode : Option ℤ) : Except Exc Json :=
  if termination = "EXITED" then
    match exitCode with
    | none => .error (evidenceError "command_result.exit_code must be an integer")
    | some n => .ok (.int n)
  else
    match exitCode with
    | none => .ok .null
    | some _ => .error (evidenceError
        "command_result.exit_code must be null for forced termination")

/-- `_command_payload`. -/
def commandPayload (result : CommandResult) : Except Exc (List (Text × Json)) := do
  if result.termination ∉ terminations then
    .error (evidenceError "command_result.termination is unknown")
  else do
    let exitCode ← exitCodePayload result.termination result.exitCode
    let command ← nonemptyText result.command "command_result.command"
    let duration ← number result.durationS "command_result.duration_s"
    let specification ← matchingText result.specificationSha256
      "command_result.specification_sha256" sha256Pattern
    let stderr ← matchingText result.stderrSha256 "command_result.stderr_sha256" sha256Pattern
    let stdout ← matchingText result.stdoutSha256 "command_result.stdout_sha256" sha256Pattern
    .ok [("command", .str command), ("duration_s", duration.json), ("exit_code", exitCode),
      ("specification_sha256", .str specification), ("stderr_sha256", .str stderr),
      ("stdout_sha256", .str stdout), ("termination", .str result.termination)]

/-- `_usage_payload`. -/
def usagePayload (usage : Usage) : Except Exc (List (Text × Json)) := do
  let model ← nonemptyText usage.model "usage.model"
  let provider ← nonemptyText usage.provider "usage.provider"
  let input ← naturalInteger usage.tokens.input "usage.tokens.input"
  let output ← naturalInteger usage.tokens.output "usage.tokens.output"
  let payload : List (Text × Json) := [("model", .str model), ("provider", .str provider),
    ("tokens", .obj [("input", .int input), ("output", .int output)])]
  match usage.estimatedCostUsd with
  | none => .ok payload
  | some cost => do
    let cost ← number cost "usage.estimated_cost_usd"
    .ok (payload ++ [(text "estimated_cost_usd", cost.json)])

/-- The list of command payloads. -/
def commandPayloads : List CommandResult → Except Exc (List Json)
  | [] => .ok []
  | result :: results => do
    let payload ← commandPayload result
    .ok (.obj payload :: (← commandPayloads results))

/-- `_evidence_payload`. -/
def evidencePayload (evidence : Evidence) : Except Exc (List (Text × Json)) := do
  if evidence.commands = [] then .error (evidenceError "evidence.commands must not be empty")
  else do
    let baselineSha ← matchingText evidence.baselineSha "evidence.baseline_sha" objectIdPattern
    let candidateSha ← matchingText evidence.candidateSha "evidence.candidate_sha" objectIdPattern
    let commands ← commandPayloads evidence.commands
    let contractId ← nonemptyText evidence.contractId "evidence.contract_id"
    let environment ← environmentPayload evidence.environment
    let finishedAt ← evidenceTimestamp evidence.finishedAt "evidence.finished_at"
    let runId ← nonemptyText evidence.runId "evidence.run_id"
    let startedAt ← evidenceTimestamp evidence.startedAt "evidence.started_at"
    let usage ← usagePayload evidence.usage
    let version ← matchingText evidence.version "evidence.version" versionPattern
    .ok [("baseline_sha", .str baselineSha), ("candidate_sha", .str candidateSha),
      ("changed_files", .arr (evidence.changedFiles.map .str)), ("commands", .arr commands),
      ("contract_id", .str contractId), ("environment", .obj environment),
      ("finished_at", .str finishedAt), ("run_id", .str runId), ("started_at", .str startedAt),
      ("usage", .obj usage), ("version", .str version)]

/-! ## The duration of an execution -/

/-- `date.toordinal`. -/
def toordinal (t : CivilTime) : ℕ :=
  let year := t.year - 1
  365 * year + year / 4 - year / 100 + year / 400 +
    ((List.range (t.month - 1)).map fun month ↦ daysInMonth t.year (month + 1)).sum + t.day

/-- The microseconds since the beginning of the calendar. -/
def microseconds (t : CivilTime) : ℕ :=
  ((toordinal t * 24 + t.hour) * 60 + t.minute) * 60000000 + t.second * 1000000 + t.microsecond

/-- `duration.days * 86_400 + duration.seconds + duration.microseconds / 1_000_000` of the
difference of two times: a `timedelta` has a whole number of days and less than a day besides. -/
def durationSeconds (startedAt finishedAt : CivilTime) : Number :=
  let duration : ℤ := microseconds finishedAt - microseconds startedAt
  let days := duration / 86400000000
  let seconds := duration % 86400000000 / 1000000
  let micros := duration % 1000000
  .float (StandardLibrary.add (days * 86400 + seconds) (StandardLibrary.divide micros 1000000))

/-! ## The adapter -/

/-- `serialize_environment`. -/
def serializeEnvironment (environment : Environment) : Except Exc Bytes := do
  dumpEvidence (← environmentPayload environment)

/-- `serialize_command_result`. -/
def serializeCommandResult (result : CommandResult) : Except Exc Bytes := do
  dumpEvidence (← commandPayload result)

/-- `serialize_evidence`. -/
def serializeEvidence (evidence : Evidence) : Except Exc Bytes := do
  dumpEvidence (← evidencePayload evidence)

/-- `hash_environment`. -/
def hashEnvironment (environment : Environment) : Except Exc Text :=
  (serializeEnvironment environment).map hexdigest

/-- `hash_command_result`. -/
def hashCommandResult (result : CommandResult) : Except Exc Text :=
  (serializeCommandResult result).map hexdigest

/-- `hash_evidence`. -/
def hashEvidence (evidence : Evidence) : Except Exc Text :=
  (serializeEvidence evidence).map hexdigest

/-- `_CANONICAL_TERMINATION`. -/
def canonicalTermination : ExecutionTermination → Text
  | .exited => "EXITED"
  | .timedOut => "TIMED_OUT"
  | .cancelled => "CANCELLED"
  | .outputLimit => "OUTPUT_LIMIT"

/-- `_command_identity`.  An array of strings has no keys to sort and can always be printed. -/
def commandIdentity (request : CommandRequest) : Text :=
  (dumps (.arr ((request.executable.value :: request.arguments).map .str))).getD []

/-- The canonical result of an execution. -/
def canonicalResult (execution : ExecutionResult) (specificationBytes : Bytes) : CommandResult where
  command := commandIdentity execution.request
  termination := canonicalTermination execution.termination
  exitCode := execution.exitCode
  stdoutSha256 := hexdigest execution.stdout
  stderrSha256 := hexdigest execution.stderr
  specificationSha256 := hexdigest specificationBytes
  durationS := durationSeconds execution.startedAt execution.finishedAt

/-- `build_command_result`. -/
def buildCommandResult (execution : ExecutionResult) (specificationBytes : Bytes) :
    Except Exc CommandResult := do
  if specificationBytes.size = 0 then
    .error (evidenceError "specification_bytes must be non-empty")
  else do
    let result := canonicalResult execution specificationBytes
    let _ ← serializeCommandResult result
    .ok result

end

end Alicerce
