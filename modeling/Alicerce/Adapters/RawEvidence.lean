import Alicerce.Adapters.CommandEvidence

/-!
# The evidence serializers on arbitrary values

A dataclass checks nothing when it is built, so the fields of a canonical model may hold any value
at all, and the serializers check the type of each before they look at it.

* `Value` is a value of any type, and the functions here are the serializers over these.  Over
  the values of the typed model they are the functions of `EvidenceSerialization`
  (`Raw.serializers_of_typed`).
* `Raw.Controlled`: a value is returned, or the error of the serializer is raised.
* `Raw.EvidenceInRange`, `Raw.CommandInRange` and `Raw.UsageInRange`: the integers the checks come
  to are not too large for a float, on which `math.isfinite` raises `OverflowError`.
* `Raw.serializers_controlled_iff`: where such an integer is looked at, the error escapes, and
  nothing else does.
-/

set_option autoImplicit false

namespace Alicerce

open Py

/-! ## Values -/

/-- The canonical models. -/
inductive Model
  | environment
  | commandResult
  | tokenUsage
  | usage
  | evidence
deriving DecidableEq

/-- `__name__`. -/
def Model.name : Model → Text
  | .environment => "Environment"
  | .commandResult => "CommandResult"
  | .tokenUsage => "TokenUsage"
  | .usage => "Usage"
  | .evidence => "Evidence"

/-- A value of any type; an instance of a model is what its attributes are. -/
inductive Value [Interpreter]
  | none
  | bool (b : Bool)
  | int (n : ℤ)
  | float (x : Interpreter.Float)
  | str (t : Text)
  | tuple (items : List Value)
  | list (items : List Value)
  | dict (entries : List (Value × Value))
  | record (model : Model) (fields : String → Value)
  | other

namespace Raw

/-! ## Checks -/

section
variable [Interpreter]

/-- `_require_instance`. -/
def requireInstance (value : Value) (name : Text) (expected : Model) :
    Except Exc (String → Value) :=
  match value with
  | .record model fields =>
    if model = expected then .ok fields
    else .error (evidenceError (name ++ " must be " ++ expected.name))
  | _ => .error (evidenceError (name ++ " must be " ++ expected.name))

/-- `_require_argument`. -/
def requireArgument (value : Value) (name : Text) (expected : Model) :
    Except Exc (String → Value) :=
  match value with
  | .record model fields =>
    if model = expected then .ok fields
    else .error (.typeError (name ++ " must be " ++ expected.name))
  | _ => .error (.typeError (name ++ " must be " ++ expected.name))

/-- `_text`. -/
def plainText (value : Value) (name : Text) : Except Exc Text :=
  match value with
  | .str t => .ok t
  | _ => .error (evidenceError (name ++ " must be a string"))

/-- `_text`, with `nonempty=True`. -/
def nonemptyText (value : Value) (name : Text) : Except Exc Text := do
  Alicerce.nonemptyText (← plainText value name) name

/-- `_matching_text`. -/
def matchingText (value : Value) (name : Text) (pattern : Text → Bool) : Except Exc Text := do
  Alicerce.matchingText (← plainText value name) name pattern

/-- `_signed_integer`. -/
def signedInteger (value : Value) (name : Text) : Except Exc ℤ :=
  match value with
  | .int n => .ok n
  | _ => .error (evidenceError (name ++ " must be an integer"))

/-- `_integer`, with `minimum=0`. -/
def naturalInteger (value : Value) (name : Text) : Except Exc ℤ := do
  Alicerce.naturalInteger (← signedInteger value name) name

/-- `_sequence`. -/
def sequence (value : Value) (name : Text) : Except Exc (List Value) :=
  match value with
  | .tuple items => .ok items
  | _ => .error (evidenceError (name ++ " must be a tuple"))

variable [StandardLibrary]

/-- `_number`. -/
def number (value : Value) (name : Text) : Except Exc Number :=
  match value with
  | .int n => Alicerce.number (.int n) name
  | .float x => Alicerce.number (.float x) name
  | _ => .error (evidenceError (name ++ " must be a number"))

/-- `_timestamp`. -/
def evidenceTimestamp (value : Value) (name : Text) : Except Exc Text := do
  Alicerce.evidenceTimestamp (← plainText value name) name

/-! ## Payloads -/

/-- The loop over the tool versions. -/
def toolVersionsPayload : List (Value × Value) → Except Exc (List (Text × Json))
  | [] => .ok []
  | (key, value) :: versions => do
    let name ← nonemptyText key "tool version name"
    let version ← nonemptyText value (text "tool version " ++ name)
    .ok ((name, .str version) :: (← toolVersionsPayload versions))

/-- The check that the tool versions are a dictionary. -/
def requireDict (value : Value) : Except Exc (List (Value × Value)) :=
  match value with
  | .dict entries => .ok entries
  | _ => .error (evidenceError "environment.tool_versions must be a dictionary")

/-- `_environment_payload`. -/
def environmentPayload (environment : Value) : Except Exc (List (Text × Json)) := do
  let trusted ← requireInstance environment "environment" .environment
  let rawVersions ← requireDict (trusted "tool_versions")
  let versions ← toolVersionsPayload rawVersions
  let python ← nonemptyText (trusted "python") "environment.python"
  let uvLock ← matchingText (trusted "uv_lock_sha256") "environment.uv_lock_sha256" sha256Pattern
  .ok [("python", .str python), ("tool_versions", .obj versions), ("uv_lock_sha256", .str uvLock)]

/-- The check of `exit_code`. -/
def exitCodePayload (termination : Text) (exitCode : Value) : Except Exc Json :=
  if termination = "EXITED" then do
    .ok (.int (← signedInteger exitCode "command_result.exit_code"))
  else
    match exitCode with
    | .none => .ok .null
    | _ => .error (evidenceError
        "command_result.exit_code must be null for forced termination")

/-- `_command_payload`. -/
def commandPayload (result : Value) : Except Exc (List (Text × Json)) := do
  let trusted ← requireInstance result "command_result" .commandResult
  let termination ← plainText (trusted "termination") "command_result.termination"
  if termination ∉ terminations then
    .error (evidenceError "command_result.termination is unknown")
  else do
    let exitCode ← exitCodePayload termination (trusted "exit_code")
    let command ← nonemptyText (trusted "command") "command_result.command"
    let duration ← number (trusted "duration_s") "command_result.duration_s"
    let specification ← matchingText (trusted "specification_sha256")
      "command_result.specification_sha256" sha256Pattern
    let stderr ← matchingText (trusted "stderr_sha256") "command_result.stderr_sha256"
      sha256Pattern
    let stdout ← matchingText (trusted "stdout_sha256") "command_result.stdout_sha256"
      sha256Pattern
    .ok [("command", .str command), ("duration_s", duration.json), ("exit_code", exitCode),
      ("specification_sha256", .str specification), ("stderr_sha256", .str stderr),
      ("stdout_sha256", .str stdout), ("termination", .str termination)]

/-- `_usage_payload`. -/
def usagePayload (usage : Value) : Except Exc (List (Text × Json)) := do
  let trusted ← requireInstance usage "usage" .usage
  let tokens ← requireInstance (trusted "tokens") "usage.tokens" .tokenUsage
  let model ← nonemptyText (trusted "model") "usage.model"
  let provider ← nonemptyText (trusted "provider") "usage.provider"
  let input ← naturalInteger (tokens "input") "usage.tokens.input"
  let output ← naturalInteger (tokens "output") "usage.tokens.output"
  let payload : List (Text × Json) := [("model", .str model), ("provider", .str provider),
    ("tokens", .obj [("input", .int input), ("output", .int output)])]
  match trusted "estimated_cost_usd" with
  | .none => .ok payload
  | cost => do
    let cost ← number cost "usage.estimated_cost_usd"
    .ok (payload ++ [(text "estimated_cost_usd", cost.json)])

/-- The list of changed files. -/
def changedFilesPayload : List Value → Except Exc (List Json)
  | [] => .ok []
  | value :: values => do
    let file ← plainText value "evidence.changed_file"
    .ok (.str file :: (← changedFilesPayload values))

/-- The list of command payloads. -/
def commandPayloads : List Value → Except Exc (List Json)
  | [] => .ok []
  | value :: values => do
    let _ ← requireInstance value "evidence command" .commandResult
    let payload ← commandPayload value
    .ok (.obj payload :: (← commandPayloads values))

/-- `_evidence_payload`. -/
def evidencePayload (evidence : Value) : Except Exc (List (Text × Json)) := do
  let trusted ← requireInstance evidence "evidence" .evidence
  let commands ← sequence (trusted "commands") "evidence.commands"
  if commands.isEmpty then .error (evidenceError "evidence.commands must not be empty")
  else do
    let changedFiles ← sequence (trusted "changed_files") "evidence.changed_files"
    let baselineSha ← matchingText (trusted "baseline_sha") "evidence.baseline_sha"
      objectIdPattern
    let candidateSha ← matchingText (trusted "candidate_sha") "evidence.candidate_sha"
      objectIdPattern
    let changedFiles ← changedFilesPayload changedFiles
    let commands ← commandPayloads commands
    let contractId ← nonemptyText (trusted "contract_id") "evidence.contract_id"
    let environment ← environmentPayload (trusted "environment")
    let finishedAt ← evidenceTimestamp (trusted "finished_at") "evidence.finished_at"
    let runId ← nonemptyText (trusted "run_id") "evidence.run_id"
    let startedAt ← evidenceTimestamp (trusted "started_at") "evidence.started_at"
    let usage ← usagePayload (trusted "usage")
    let version ← matchingText (trusted "version") "evidence.version" versionPattern
    .ok [("baseline_sha", .str baselineSha), ("candidate_sha", .str candidateSha),
      ("changed_files", .arr changedFiles), ("commands", .arr commands),
      ("contract_id", .str contractId), ("environment", .obj environment),
      ("finished_at", .str finishedAt), ("run_id", .str runId), ("started_at", .str startedAt),
      ("usage", .obj usage), ("version", .str version)]

/-! ## The adapter -/

/-- `serialize_environment`. -/
def serializeEnvironment (environment : Value) : Except Exc Bytes := do
  let _ ← requireArgument environment "environment" .environment
  dumpEvidence (← environmentPayload environment)

/-- `serialize_command_result`. -/
def serializeCommandResult (result : Value) : Except Exc Bytes := do
  let _ ← requireArgument result "command_result" .commandResult
  dumpEvidence (← commandPayload result)

/-- `serialize_evidence`. -/
def serializeEvidence (evidence : Value) : Except Exc Bytes := do
  let _ ← requireArgument evidence "evidence" .evidence
  dumpEvidence (← evidencePayload evidence)

end

/-! ## What escapes -/

/-- A value is returned, or the error of the serializer is raised. -/
def Controlled {α : Type} (x : Except Exc α) : Prop :=
  (∃ a, x = .ok a) ∨ ∃ message, x = .error (evidenceError message)

theorem controlled_ok {α : Type} (a : α) : Controlled (.ok a : Except Exc α) := .inl ⟨a, rfl⟩

theorem controlled_error {α : Type} (message : Text) :
    Controlled (.error (evidenceError message) : Except Exc α) := .inr ⟨message, rfl⟩

/-- A sequence is controlled as far as it gets. -/
theorem controlled_bind_iff {α β : Type} {x : Except Exc α} {f : α → Except Exc β} :
    Controlled (x >>= f) ↔ Controlled x ∧ ∀ a, x = .ok a → Controlled (f a) := by
  cases x with
  | ok a =>
    rw [ok_bind]
    constructor
    · rintro h
      refine ⟨controlled_ok a, fun b hb ↦ ?_⟩
      rwa [← Except.ok.inj hb]
    · exact fun h ↦ h.2 a rfl
  | error e =>
    rw [error_bind]
    constructor
    · rintro (⟨b, hb⟩ | ⟨message, hm⟩)
      · exact absurd hb (by simp)
      · refine ⟨.inr ⟨message, ?_⟩, fun a ha ↦ absurd ha (by simp)⟩
        rw [Except.error.inj hm]
    · rintro ⟨⟨a, ha⟩ | ⟨message, hm⟩, -⟩
      · exact absurd ha (by simp)
      · refine .inr ⟨message, ?_⟩
        rw [Except.error.inj hm]

/-- What is controlled as it is need not be looked at further. -/
theorem controlled_bind_of {α β : Type} {x : Except Exc α} {f : α → Except Exc β}
    (hx : Controlled x) :
    Controlled (x >>= f) ↔ ∀ a, x = .ok a → Controlled (f a) := by
  rw [controlled_bind_iff, and_iff_right hx]

/-- A sequence returns when its parts do. -/
theorem exists_bind_eq_ok_iff {α β : Type} {x : Except Exc α} {f : α → Except Exc β} :
    (∃ b, (x >>= f) = .ok b) ↔ ∃ a, x = .ok a ∧ ∃ b, f a = .ok b := by
  cases x with
  | ok a => simp
  | error e => simp

/-! ## What the checks accept -/

section
variable [Interpreter]

/-- A value is a text that is not empty. -/
def IsNonempty (value : Value) : Prop := ∃ t, value = .str t ∧ t ≠ []

/-- A value is a text that matches a pattern. -/
def IsMatching (pattern : Text → Bool) (value : Value) : Prop :=
  ∃ t, value = .str t ∧ pattern t = true

/-- A value is a natural number. -/
def IsNatural (value : Value) : Prop := ∃ n, value = .int n ∧ 0 ≤ n

theorem plainText_eq_ok_iff {value : Value} {name t : Text} :
    plainText value name = .ok t ↔ value = .str t := by
  cases value <;> simp [plainText]

theorem controlled_plainText {value : Value} {name : Text} : Controlled (plainText value name) := by
  cases value with
  | str t => exact controlled_ok t
  | _ => exact controlled_error _

theorem nonemptyText_isOk_iff {value : Value} {name : Text} :
    (∃ t, nonemptyText value name = .ok t) ↔ IsNonempty value := by
  simp only [nonemptyText, bind_eq_ok_iff, plainText_eq_ok_iff, nonemptyText_eq_ok_iff, IsNonempty]
  constructor
  · rintro ⟨_, t, rfl, hne, rfl⟩
    exact ⟨_, rfl, hne⟩
  · rintro ⟨t, rfl, hne⟩
    exact ⟨t, t, rfl, hne, rfl⟩

theorem controlled_nonemptyText {value : Value} {name : Text} :
    Controlled (nonemptyText value name) := by
  refine (controlled_bind_of controlled_plainText).mpr fun t _ ↦ ?_
  rw [Alicerce.nonemptyText]
  split
  · exact controlled_error _
  · exact controlled_ok t

theorem matchingText_isOk_iff {value : Value} {name : Text} {pattern : Text → Bool} :
    (∃ t, matchingText value name pattern = .ok t) ↔ IsMatching pattern value := by
  simp only [matchingText, bind_eq_ok_iff, plainText_eq_ok_iff, matchingText_eq_ok_iff, IsMatching]
  constructor
  · rintro ⟨_, t, rfl, hmatch, rfl⟩
    exact ⟨_, rfl, hmatch⟩
  · rintro ⟨t, rfl, hmatch⟩
    exact ⟨t, t, rfl, hmatch, rfl⟩

theorem controlled_matchingText {value : Value} {name : Text} {pattern : Text → Bool} :
    Controlled (matchingText value name pattern) := by
  refine (controlled_bind_of controlled_plainText).mpr fun t _ ↦ ?_
  rw [Alicerce.matchingText]
  split
  · exact controlled_ok t
  · exact controlled_error _

theorem signedInteger_eq_ok_iff {value : Value} {name : Text} {n : ℤ} :
    signedInteger value name = .ok n ↔ value = .int n := by
  cases value <;> simp [signedInteger]

theorem controlled_signedInteger {value : Value} {name : Text} :
    Controlled (signedInteger value name) := by
  cases value with
  | int n => exact controlled_ok n
  | _ => exact controlled_error _

theorem naturalInteger_isOk_iff {value : Value} {name : Text} :
    (∃ n, naturalInteger value name = .ok n) ↔ IsNatural value := by
  simp only [naturalInteger, bind_eq_ok_iff, signedInteger_eq_ok_iff, naturalInteger_eq_ok_iff,
    IsNatural]
  constructor
  · rintro ⟨_, n, rfl, hpos, rfl⟩
    exact ⟨_, rfl, hpos⟩
  · rintro ⟨n, rfl, hpos⟩
    exact ⟨n, n, rfl, hpos, rfl⟩

theorem controlled_naturalInteger {value : Value} {name : Text} :
    Controlled (naturalInteger value name) := by
  refine (controlled_bind_of controlled_signedInteger).mpr fun n _ ↦ ?_
  rw [Alicerce.naturalInteger]
  split
  · exact controlled_error _
  · exact controlled_ok n

theorem requireInstance_eq_ok_iff {value : Value} {name : Text} {expected : Model}
    {fields : String → Value} :
    requireInstance value name expected = .ok fields ↔ value = .record expected fields := by
  cases value with
  | record model fields' =>
    rw [requireInstance]
    split
    · rename_i h
      subst h
      simp
    · rename_i h
      simp [h]
  | _ => simp [requireInstance]

theorem controlled_requireInstance {value : Value} {name : Text} {expected : Model} :
    Controlled (requireInstance value name expected) := by
  cases value with
  | record model fields =>
    rw [requireInstance]
    split
    · exact controlled_ok fields
    · exact controlled_error _
  | _ => exact controlled_error _

theorem sequence_eq_ok_iff {value : Value} {name : Text} {items : List Value} :
    sequence value name = .ok items ↔ value = .tuple items := by
  cases value <;> simp [sequence]

theorem controlled_sequence {value : Value} {name : Text} : Controlled (sequence value name) := by
  cases value with
  | tuple items => exact controlled_ok items
  | _ => exact controlled_error _

theorem requireDict_eq_ok_iff {value : Value} {entries : List (Value × Value)} :
    requireDict value = .ok entries ↔ value = .dict entries := by
  cases value <;> simp [requireDict]

theorem controlled_requireDict {value : Value} : Controlled (requireDict value) := by
  cases value with
  | dict entries => exact controlled_ok entries
  | _ => exact controlled_error _

/-! ## Environments -/

theorem toolVersionsPayload_isOk_iff : ∀ {versions : List (Value × Value)},
    (∃ payload, toolVersionsPayload versions = .ok payload) ↔
      ∀ p ∈ versions, IsNonempty p.1 ∧ IsNonempty p.2
  | [] => by simp [toolVersionsPayload]
  | (key, value) :: versions => by
    rw [List.forall_mem_cons, ← toolVersionsPayload_isOk_iff]
    simp only [toolVersionsPayload, bind_eq_ok_iff, Except.ok.injEq]
    constructor
    · rintro ⟨_, name, hname, version, hversion, rest, hrest, -⟩
      exact ⟨⟨nonemptyText_isOk_iff.mp ⟨name, hname⟩, nonemptyText_isOk_iff.mp ⟨version, hversion⟩⟩,
        rest, hrest⟩
    · rintro ⟨⟨hkey, hvalue⟩, rest, hrest⟩
      obtain ⟨name, hname⟩ := nonemptyText_isOk_iff.mpr hkey
      obtain ⟨version, hversion⟩ := nonemptyText_isOk_iff.mpr hvalue
      exact ⟨_, name, hname, version, hversion, rest, hrest, rfl⟩

theorem controlled_toolVersionsPayload : ∀ versions : List (Value × Value),
    Controlled (toolVersionsPayload versions)
  | [] => controlled_ok []
  | (key, value) :: versions => by
    refine (controlled_bind_of controlled_nonemptyText).mpr fun name _ ↦ ?_
    refine (controlled_bind_of controlled_nonemptyText).mpr fun version _ ↦ ?_
    exact (controlled_bind_of (controlled_toolVersionsPayload versions)).mpr
      fun rest _ ↦ controlled_ok _

/-- The checks of an environment pass. -/
def EnvironmentPasses (value : Value) : Prop :=
  ∃ fields entries, value = .record .environment fields ∧
    fields "tool_versions" = .dict entries ∧ (∀ p ∈ entries, IsNonempty p.1 ∧ IsNonempty p.2) ∧
    IsNonempty (fields "python") ∧ IsMatching sha256Pattern (fields "uv_lock_sha256")

theorem environmentPayload_isOk_iff {value : Value} :
    (∃ payload, environmentPayload value = .ok payload) ↔ EnvironmentPasses value := by
  simp only [environmentPayload, bind_eq_ok_iff, requireInstance_eq_ok_iff, requireDict_eq_ok_iff,
    Except.ok.injEq]
  constructor
  · rintro ⟨_, fields, rfl, entries, hentries, versions, hversions, python, hpython, uv, huv, -⟩
    exact ⟨fields, entries, rfl, hentries, toolVersionsPayload_isOk_iff.mp ⟨versions, hversions⟩,
      nonemptyText_isOk_iff.mp ⟨python, hpython⟩, matchingText_isOk_iff.mp ⟨uv, huv⟩⟩
  · rintro ⟨fields, entries, rfl, hentries, hversions, hpython, huv⟩
    obtain ⟨versions, hversions⟩ := toolVersionsPayload_isOk_iff.mpr hversions
    obtain ⟨python, hpython⟩ := nonemptyText_isOk_iff.mpr hpython
    obtain ⟨uv, huv⟩ := matchingText_isOk_iff.mpr huv
    exact ⟨_, fields, rfl, entries, hentries, versions, hversions, python, hpython, uv, huv, rfl⟩

/-- **An environment is serialized, or refused with the error of the serializer.** -/
theorem controlled_environmentPayload (value : Value) : Controlled (environmentPayload value) := by
  refine (controlled_bind_of controlled_requireInstance).mpr fun fields _ ↦ ?_
  refine (controlled_bind_of controlled_requireDict).mpr fun entries _ ↦ ?_
  refine (controlled_bind_of (controlled_toolVersionsPayload entries)).mpr fun versions _ ↦ ?_
  refine (controlled_bind_of controlled_nonemptyText).mpr fun python _ ↦ ?_
  exact (controlled_bind_of controlled_matchingText).mpr fun uv _ ↦ controlled_ok _

/-! ## Exit codes -/

/-- The exit code is an integer, or absent, as the termination has it. -/
def IsExitCode (termination : Text) (value : Value) : Prop :=
  if termination = "EXITED" then ∃ n, value = .int n else value = .none

theorem exitCodePayload_isOk_iff {termination : Text} {value : Value} :
    (∃ payload, exitCodePayload termination value =
      .ok payload) ↔ IsExitCode termination value := by
  rw [exitCodePayload.eq_def, IsExitCode]
  split
  · simp only [bind_eq_ok_iff, signedInteger_eq_ok_iff, Except.ok.injEq]
    constructor
    · rintro ⟨_, n, rfl, -⟩
      exact ⟨n, rfl⟩
    · rintro ⟨n, rfl⟩
      exact ⟨_, n, rfl, rfl⟩
  · cases value <;> simp

theorem controlled_exitCodePayload {termination : Text} {value : Value} :
    Controlled (exitCodePayload termination value) := by
  rw [exitCodePayload.eq_def]
  split
  · exact (controlled_bind_of controlled_signedInteger).mpr fun n _ ↦ controlled_ok _
  · cases value with
    | none => exact controlled_ok _
    | _ => exact controlled_error _

variable [StandardLibrary]

/-! ## Numbers and times -/

/-- An integer converts to a float. -/
def NumberInRange (value : Value) : Prop := ∀ n, value = .int n → n.natAbs < floatOverflow

/-- A value is a number that is finite and not negative. -/
def NumberPasses (value : Value) : Prop :=
  (∃ n, value = .int n ∧ (Number.int n).Accepted) ∨
    ∃ x, value = .float x ∧ (Number.float x).Accepted

theorem number_isOk_iff {value : Value} {name : Text} :
    (∃ n, number value name = .ok n) ↔ NumberPasses value := by
  cases value <;> simp [number, NumberPasses, number_eq_ok_iff]

/-- **What escapes from the check of a number is the overflow of an integer.** -/
theorem controlled_number_iff {value : Value} {name : Text} :
    Controlled (number value name) ↔ NumberInRange value := by
  cases value with
  | int n =>
    simp only [number, NumberInRange, Value.int.injEq, forall_eq']
    rw [Alicerce.number, isfinite]
    split
    · rename_i h
      rw [ok_bind]
      refine iff_of_true ?_ h
      split
      · exact controlled_error _
      · split
        · exact controlled_error _
        · exact controlled_ok _
    · rename_i h
      refine iff_of_false ?_ h
      rintro (⟨a, ha⟩ | ⟨message, hm⟩)
      · exact absurd ha (by simp)
      · rw [error_bind, Except.error.injEq] at hm
        exact absurd hm (by simp [evidenceError])
  | float x =>
    refine iff_of_true ?_ fun n h ↦ by cases h
    rw [number, Alicerce.number, isfinite, ok_bind]
    split
    · exact controlled_error _
    · split
      · exact controlled_error _
      · exact controlled_ok _
  | _ => exact iff_of_true (controlled_error _) fun n h ↦ by cases h

/-- A value is a timestamp with a timezone. -/
def IsTimestamp (value : Value) : Prop := ∃ t, value = .str t ∧ TimestampAccepted t

theorem evidenceTimestamp_isOk_iff {value : Value} {name : Text} :
    (∃ t, evidenceTimestamp value name = .ok t) ↔ IsTimestamp value := by
  simp only [evidenceTimestamp, bind_eq_ok_iff, plainText_eq_ok_iff, evidenceTimestamp_eq_ok_iff,
    IsTimestamp]
  constructor
  · rintro ⟨_, t, rfl, htime, rfl⟩
    exact ⟨_, rfl, htime⟩
  · rintro ⟨t, rfl, htime⟩
    exact ⟨t, t, rfl, htime, rfl⟩

theorem controlled_evidenceTimestamp {value : Value} {name : Text} :
    Controlled (evidenceTimestamp value name) := by
  refine (controlled_bind_of controlled_plainText).mpr fun t _ ↦ ?_
  have hnonempty : Controlled (Alicerce.nonemptyText t name) := by
    rw [Alicerce.nonemptyText]
    split
    · exact controlled_error _
    · exact controlled_ok t
  refine (controlled_bind_of hnonempty).mpr fun t _ ↦ ?_
  split
  · exact controlled_error _
  · split
    · exact controlled_error _
    · exact controlled_ok t

/-! ## Command results -/

/-- The checks of a command result get as far as its duration. -/
def CommandReached (fields : String → Value) : Prop :=
  ∃ termination ∈ terminations, fields "termination" = .str termination ∧
    IsExitCode termination (fields "exit_code") ∧ IsNonempty (fields "command")

/-- The checks of a command result pass. -/
def CommandPasses (value : Value) : Prop :=
  ∃ fields, value = .record .commandResult fields ∧ CommandReached fields ∧
    NumberPasses (fields "duration_s") ∧
    IsMatching sha256Pattern (fields "specification_sha256") ∧
    IsMatching sha256Pattern (fields "stderr_sha256") ∧
    IsMatching sha256Pattern (fields "stdout_sha256")

/-- The duration of a command result is in range, if it is looked at. -/
def CommandInRange (value : Value) : Prop :=
  ∀ fields, value = .record .commandResult fields → CommandReached fields →
    NumberInRange (fields "duration_s")

theorem commandPayload_isOk_iff {value : Value} :
    (∃ payload, commandPayload value = .ok payload) ↔ CommandPasses value := by
  simp only [commandPayload, exists_bind_eq_ok_iff, requireInstance_eq_ok_iff, plainText_eq_ok_iff]
  constructor
  · rintro ⟨fields, rfl, termination, htermination, h⟩
    split at h
    · exact absurd h (by simp)
    · rename_i hmem
      rw [not_not] at hmem
      simp only [exists_bind_eq_ok_iff] at h
      obtain ⟨exitCode, hexit, command, hcommand, duration, hduration, specification, hspec,
        stderr, herr, stdout, hout, -⟩ := h
      exact ⟨fields, rfl, ⟨termination, hmem, htermination,
        exitCodePayload_isOk_iff.mp ⟨exitCode, hexit⟩, nonemptyText_isOk_iff.mp
          ⟨command, hcommand⟩⟩,
        number_isOk_iff.mp ⟨duration, hduration⟩, matchingText_isOk_iff.mp ⟨specification, hspec⟩,
        matchingText_isOk_iff.mp ⟨stderr, herr⟩, matchingText_isOk_iff.mp ⟨stdout, hout⟩⟩
  · rintro ⟨fields, rfl, ⟨termination, hmem, htermination, hexit, hcommand⟩, hduration, hspec, herr,
      hout⟩
    obtain ⟨exitCode, hexit⟩ := exitCodePayload_isOk_iff.mpr hexit
    obtain ⟨command, hcommand⟩ := nonemptyText_isOk_iff.mpr hcommand
    obtain ⟨duration, hduration⟩ := number_isOk_iff.mpr hduration
    obtain ⟨specification, hspec⟩ := matchingText_isOk_iff.mpr hspec
    obtain ⟨stderr, herr⟩ := matchingText_isOk_iff.mpr herr
    obtain ⟨stdout, hout⟩ := matchingText_isOk_iff.mpr hout
    refine ⟨fields, rfl, termination, htermination, ?_⟩
    rw [if_neg (not_not.mpr hmem)]
    simp only [exists_bind_eq_ok_iff]
    exact ⟨exitCode, hexit, command, hcommand, duration, hduration, specification, hspec, stderr,
      herr, stdout, hout, _, rfl⟩

/-- **A command result is refused with another error exactly when its duration is looked at and out
of range.** -/
theorem controlled_commandPayload_iff {value : Value} :
    Controlled (commandPayload value) ↔ CommandInRange value := by
  rw [commandPayload, controlled_bind_of controlled_requireInstance]
  simp only [requireInstance_eq_ok_iff]
  refine forall_congr' fun fields ↦ forall_congr' fun _ ↦ ?_
  rw [controlled_bind_of controlled_plainText]
  simp only [plainText_eq_ok_iff]
  have hrest : ∀ termination ∈ terminations, ∀ exitCode command : _,
      Controlled (do
        let duration ← number (fields "duration_s") "command_result.duration_s"
        let specification ← matchingText (fields "specification_sha256")
          "command_result.specification_sha256" sha256Pattern
        let stderr ← matchingText (fields "stderr_sha256") "command_result.stderr_sha256"
          sha256Pattern
        let stdout ← matchingText (fields "stdout_sha256") "command_result.stdout_sha256"
          sha256Pattern
        (.ok [("command", .str command), ("duration_s", duration.json), ("exit_code", exitCode),
          ("specification_sha256", .str specification), ("stderr_sha256", .str stderr),
          ("stdout_sha256", .str stdout), ("termination", .str termination)] :
          Except Exc (List (Text × Json)))) ↔ NumberInRange (fields "duration_s") := by
    intro termination _ exitCode command
    rw [controlled_bind_iff, controlled_number_iff, and_iff_left_iff_imp]
    intro _ duration _
    refine (controlled_bind_of controlled_matchingText).mpr fun _ _ ↦ ?_
    refine (controlled_bind_of controlled_matchingText).mpr fun _ _ ↦ ?_
    exact (controlled_bind_of controlled_matchingText).mpr fun _ _ ↦ controlled_ok _
  constructor
  · rintro h ⟨termination, hmem, htermination, hexit, hcommand⟩
    have h := h termination htermination
    obtain ⟨exitCode, hexit⟩ := exitCodePayload_isOk_iff.mpr hexit
    obtain ⟨command, hcommand⟩ := nonemptyText_isOk_iff.mpr hcommand
    rw [if_neg (not_not.mpr hmem), controlled_bind_of controlled_exitCodePayload] at h
    have h := (controlled_bind_of controlled_nonemptyText).mp (h exitCode hexit) command hcommand
    exact (hrest termination hmem exitCode command).mp h
  · intro h termination htermination
    split
    · exact controlled_error _
    · rename_i hmem
      rw [not_not] at hmem
      refine (controlled_bind_of controlled_exitCodePayload).mpr fun exitCode hexit ↦ ?_
      refine (controlled_bind_of controlled_nonemptyText).mpr fun command hcommand ↦ ?_
      exact (hrest termination hmem exitCode command).mpr (h ⟨termination, hmem, htermination,
        exitCodePayload_isOk_iff.mp ⟨exitCode, hexit⟩, nonemptyText_isOk_iff.mp
          ⟨command, hcommand⟩⟩)

/-- The commands are looked at one after the other, up to the first that does not pass. -/
def CommandsInRange (commands : List Value) : Prop :=
  ∀ before command after, commands = before ++ command :: after →
    (∀ c ∈ before, CommandPasses c) → CommandInRange command

theorem commandsInRange_cons {command : Value} {commands : List Value} :
    CommandsInRange (command :: commands) ↔
      CommandInRange command ∧ (CommandPasses command → CommandsInRange commands) := by
  constructor
  · intro h
    refine ⟨h [] command commands rfl (by simp), fun hpass before c after heq hbefore ↦ ?_⟩
    exact h (command :: before) c after (by rw [heq, List.cons_append])
      (List.forall_mem_cons.mpr ⟨hpass, hbefore⟩)
  · rintro ⟨hcommand, hrest⟩ before c after heq hbefore
    cases before with
    | nil =>
      rw [List.nil_append, List.cons.injEq] at heq
      exact heq.1 ▸ hcommand
    | cons b before =>
      rw [List.cons_append, List.cons.injEq] at heq
      obtain ⟨rfl, rfl⟩ := heq
      rw [List.forall_mem_cons] at hbefore
      exact hrest hbefore.1 before c after rfl hbefore.2

theorem commandPayloads_isOk_iff : ∀ {commands : List Value},
    (∃ payloads, commandPayloads commands = .ok payloads) ↔ ∀ c ∈ commands, CommandPasses c
  | [] => by simp [commandPayloads]
  | command :: commands => by
    rw [List.forall_mem_cons, ← commandPayloads_isOk_iff, ← commandPayload_isOk_iff]
    simp only [commandPayloads, bind_eq_ok_iff, requireInstance_eq_ok_iff, Except.ok.injEq]
    constructor
    · rintro ⟨_, fields, -, payload, hpayload, rest, hrest, -⟩
      exact ⟨⟨payload, hpayload⟩, rest, hrest⟩
    · rintro ⟨⟨payload, hpayload⟩, rest, hrest⟩
      obtain ⟨fields, rfl, -⟩ := commandPayload_isOk_iff.mp ⟨payload, hpayload⟩
      exact ⟨_, fields, rfl, payload, hpayload, rest, hrest, rfl⟩

theorem controlled_commandPayloads_iff : ∀ {commands : List Value},
    Controlled (commandPayloads commands) ↔ CommandsInRange commands
  | [] => iff_of_true (controlled_ok []) fun before c after heq _ ↦ absurd heq (by simp)
  | command :: commands => by
    rw [commandsInRange_cons, ← controlled_commandPayloads_iff, commandPayloads,
      controlled_bind_of controlled_requireInstance]
    simp only [requireInstance_eq_ok_iff, controlled_bind_iff, controlled_commandPayload_iff]
    constructor
    · intro h
      refine ⟨fun fields hfields ↦ (h fields hfields).1 fields hfields, fun hpass ↦ ?_⟩
      obtain ⟨payload, hpayload⟩ := commandPayload_isOk_iff.mpr hpass
      obtain ⟨fields, hfields, -⟩ := hpass
      exact ((h fields hfields).2 payload hpayload).1
    · rintro ⟨hrange, hrest⟩ fields _
      refine ⟨hrange, fun payload hpayload ↦ ⟨hrest ?_, fun _ _ ↦ controlled_ok _⟩⟩
      exact commandPayload_isOk_iff.mp ⟨payload, hpayload⟩

/-! ## Usage -/

/-- The cost of a usage is in range, if it is looked at. -/
def UsageInRange (value : Value) : Prop :=
  ∀ fields tokens, value = .record .usage fields → fields "tokens" = .record .tokenUsage tokens →
    IsNonempty (fields "model") → IsNonempty (fields "provider") → IsNatural (tokens "input") →
    IsNatural (tokens "output") → NumberInRange (fields "estimated_cost_usd")

/-- **A usage is refused with another error exactly when its cost is looked at and out of
range.** -/
theorem controlled_usagePayload_iff {value : Value} :
    Controlled (usagePayload value) ↔ UsageInRange value := by
  rw [usagePayload, controlled_bind_of controlled_requireInstance]
  simp only [requireInstance_eq_ok_iff]
  constructor
  · intro h fields tokens hfields htokens hmodel hprovider hinput houtput
    obtain ⟨model, hmodel⟩ := nonemptyText_isOk_iff.mpr hmodel
    obtain ⟨provider, hprovider⟩ := nonemptyText_isOk_iff.mpr hprovider
    obtain ⟨input, hinput⟩ := naturalInteger_isOk_iff.mpr hinput
    obtain ⟨output, houtput⟩ := naturalInteger_isOk_iff.mpr houtput
    have h := (controlled_bind_of controlled_requireInstance).mp (h fields hfields) tokens
      (requireInstance_eq_ok_iff.mpr htokens)
    have h := (controlled_bind_of controlled_nonemptyText).mp h model hmodel
    have h := (controlled_bind_of controlled_nonemptyText).mp h provider hprovider
    have h := (controlled_bind_of controlled_naturalInteger).mp h input hinput
    have h := (controlled_bind_of controlled_naturalInteger).mp h output houtput
    cases hcost : fields "estimated_cost_usd" with
    | none => exact fun n hn ↦ by cases hn
    | _ =>
      rw [hcost] at h
      exact controlled_number_iff.mp (controlled_bind_iff.mp h).1
  · intro h fields hfields
    refine (controlled_bind_of controlled_requireInstance).mpr fun tokens htokens ↦ ?_
    refine (controlled_bind_of controlled_nonemptyText).mpr fun model hmodel ↦ ?_
    refine (controlled_bind_of controlled_nonemptyText).mpr fun provider hprovider ↦ ?_
    refine (controlled_bind_of controlled_naturalInteger).mpr fun input hinput ↦ ?_
    refine (controlled_bind_of controlled_naturalInteger).mpr fun output houtput ↦ ?_
    have hrange := h fields tokens hfields (requireInstance_eq_ok_iff.mp htokens)
      (nonemptyText_isOk_iff.mp ⟨model, hmodel⟩) (nonemptyText_isOk_iff.mp ⟨provider, hprovider⟩)
      (naturalInteger_isOk_iff.mp ⟨input, hinput⟩) (naturalInteger_isOk_iff.mp ⟨output, houtput⟩)
    cases hcost : fields "estimated_cost_usd" with
    | none => exact controlled_ok _
    | _ =>
      rw [hcost] at hrange
      exact controlled_bind_iff.mpr
        ⟨controlled_number_iff.mpr hrange, fun _ _ ↦ controlled_ok _⟩

/-! ## Evidence -/

omit [StandardLibrary] in
theorem changedFilesPayload_isOk_iff : ∀ {files : List Value},
    (∃ payload, changedFilesPayload files = .ok payload) ↔ ∀ f ∈ files, ∃ t, f = .str t
  | [] => by simp [changedFilesPayload]
  | file :: files => by
    rw [List.forall_mem_cons, ← changedFilesPayload_isOk_iff]
    simp only [changedFilesPayload, bind_eq_ok_iff, plainText_eq_ok_iff, Except.ok.injEq]
    constructor
    · rintro ⟨_, t, rfl, rest, hrest, -⟩
      exact ⟨⟨t, rfl⟩, rest, hrest⟩
    · rintro ⟨⟨t, rfl⟩, rest, hrest⟩
      exact ⟨_, t, rfl, rest, hrest, rfl⟩

omit [StandardLibrary] in
theorem controlled_changedFilesPayload : ∀ files : List Value,
    Controlled (changedFilesPayload files)
  | [] => controlled_ok []
  | file :: files => by
    refine (controlled_bind_of controlled_plainText).mpr fun t _ ↦ ?_
    exact (controlled_bind_of (controlled_changedFilesPayload files)).mpr
      fun rest _ ↦ controlled_ok _

/-- The numbers of an evidence that are looked at are in range: those of its commands once the
containers and the object ids have passed, that of its usage once the commands and the fields up to
`started_at` have. -/
def EvidenceInRange (fields : String → Value) : Prop :=
  ∀ commands files, fields "commands" = .tuple commands → commands ≠ [] →
    fields "changed_files" = .tuple files → IsMatching objectIdPattern (fields "baseline_sha") →
    IsMatching objectIdPattern (fields "candidate_sha") → (∀ f ∈ files, ∃ t, f = .str t) →
    CommandsInRange commands ∧
    ((∀ c ∈ commands, CommandPasses c) → IsNonempty (fields "contract_id") →
      EnvironmentPasses (fields "environment") → IsTimestamp (fields "finished_at") →
      IsNonempty (fields "run_id") → IsTimestamp (fields "started_at") →
      UsageInRange (fields "usage"))

theorem controlled_evidencePayload_iff {fields : String → Value} :
    Controlled (evidencePayload (.record .evidence fields)) ↔ EvidenceInRange fields := by
  rw [evidencePayload, requireInstance, if_pos rfl, ok_bind, controlled_bind_of controlled_sequence]
  simp only [sequence_eq_ok_iff]
  constructor
  · intro h commands files hcommands hne hfiles hbase hcand htexts
    have h := h commands hcommands
    rw [if_neg (by simpa using hne)] at h
    obtain ⟨baseline, hbase⟩ := matchingText_isOk_iff.mpr hbase
    obtain ⟨candidate, hcand⟩ := matchingText_isOk_iff.mpr hcand
    obtain ⟨texts, htexts⟩ := changedFilesPayload_isOk_iff.mpr htexts
    have h := (controlled_bind_of controlled_sequence).mp h files (sequence_eq_ok_iff.mpr hfiles)
    have h := (controlled_bind_of controlled_matchingText).mp h baseline hbase
    have h := (controlled_bind_of controlled_matchingText).mp h candidate hcand
    have h := (controlled_bind_of (controlled_changedFilesPayload files)).mp h texts htexts
    obtain ⟨hrange, h⟩ := controlled_bind_iff.mp h
    refine ⟨controlled_commandPayloads_iff.mp hrange, ?_⟩
    intro hpass hcontract henv hfin hrun hstart
    obtain ⟨payloads, hpayloads⟩ := commandPayloads_isOk_iff.mpr hpass
    obtain ⟨contract, hcontract⟩ := nonemptyText_isOk_iff.mpr hcontract
    obtain ⟨environment, henv⟩ := environmentPayload_isOk_iff.mpr henv
    obtain ⟨finished, hfin⟩ := evidenceTimestamp_isOk_iff.mpr hfin
    obtain ⟨run, hrun⟩ := nonemptyText_isOk_iff.mpr hrun
    obtain ⟨started, hstart⟩ := evidenceTimestamp_isOk_iff.mpr hstart
    have h := h payloads hpayloads
    have h := (controlled_bind_of controlled_nonemptyText).mp h contract hcontract
    have h := (controlled_bind_of (controlled_environmentPayload _)).mp h environment henv
    have h := (controlled_bind_of controlled_evidenceTimestamp).mp h finished hfin
    have h := (controlled_bind_of controlled_nonemptyText).mp h run hrun
    have h := (controlled_bind_of controlled_evidenceTimestamp).mp h started hstart
    exact controlled_usagePayload_iff.mp (controlled_bind_iff.mp h).1
  · intro h commands hcommands
    split
    · exact controlled_error _
    · rename_i hne
      refine (controlled_bind_of controlled_sequence).mpr fun files hfiles ↦ ?_
      refine (controlled_bind_of controlled_matchingText).mpr fun baseline hbase ↦ ?_
      refine (controlled_bind_of controlled_matchingText).mpr fun candidate hcand ↦ ?_
      refine (controlled_bind_of (controlled_changedFilesPayload files)).mpr fun texts htexts ↦ ?_
      obtain ⟨hrange, husage⟩ := h commands files hcommands (by simpa using hne)
        (sequence_eq_ok_iff.mp hfiles) (matchingText_isOk_iff.mp ⟨baseline, hbase⟩)
        (matchingText_isOk_iff.mp ⟨candidate, hcand⟩)
        (changedFilesPayload_isOk_iff.mp ⟨texts, htexts⟩)
      refine controlled_bind_iff.mpr
        ⟨controlled_commandPayloads_iff.mpr hrange, fun payloads hpayloads ↦ ?_⟩
      refine (controlled_bind_of controlled_nonemptyText).mpr fun contract hcontract ↦ ?_
      refine (controlled_bind_of (controlled_environmentPayload _)).mpr fun environment henv ↦ ?_
      refine (controlled_bind_of controlled_evidenceTimestamp).mpr fun finished hfin ↦ ?_
      refine (controlled_bind_of controlled_nonemptyText).mpr fun run hrun ↦ ?_
      refine (controlled_bind_of controlled_evidenceTimestamp).mpr fun started hstart ↦ ?_
      have husage := husage (commandPayloads_isOk_iff.mp ⟨payloads, hpayloads⟩)
        (nonemptyText_isOk_iff.mp ⟨contract, hcontract⟩)
        (environmentPayload_isOk_iff.mp ⟨environment, henv⟩)
        (evidenceTimestamp_isOk_iff.mp ⟨finished, hfin⟩)
        (nonemptyText_isOk_iff.mp ⟨run, hrun⟩) (evidenceTimestamp_isOk_iff.mp ⟨started, hstart⟩)
      refine controlled_bind_iff.mpr
        ⟨controlled_usagePayload_iff.mpr husage, fun usage _ ↦ ?_⟩
      exact (controlled_bind_of controlled_matchingText).mpr fun _ _ ↦ controlled_ok _

/-! ## The serializers -/

omit [StandardLibrary] in
theorem controlled_dumpEvidence (value : List (Text × Json)) : Controlled (dumpEvidence value) := by
  cases h : dumpEvidence value with
  | ok b => exact controlled_ok b
  | error e =>
    obtain ⟨message, rfl⟩ := dumpEvidence_raises value e h
    exact controlled_error message

omit [StandardLibrary] in
theorem controlled_dump_iff {payload : Except Exc (List (Text × Json))} :
    Controlled (payload >>= dumpEvidence) ↔ Controlled payload := by
  rw [controlled_bind_iff, and_iff_left_iff_imp]
  exact fun _ value _ ↦ controlled_dumpEvidence value

/-- **Malformed evidence fails with the typed error exactly when no integer the checks come to look
at is too large for a float**; a malformed environment always does. -/
theorem serializers_controlled_iff (fields : String → Value) :
    (Controlled (serializeEvidence (.record .evidence fields)) ↔ EvidenceInRange fields) ∧
    (Controlled (serializeCommandResult (.record .commandResult fields)) ↔
      CommandInRange (.record .commandResult fields)) ∧
    Controlled (serializeEnvironment (.record .environment fields)) := by
  refine ⟨?_, ?_, ?_⟩
  · rw [serializeEvidence, requireArgument, if_pos rfl, ok_bind, controlled_dump_iff]
    exact controlled_evidencePayload_iff
  · rw [serializeCommandResult, requireArgument, if_pos rfl, ok_bind, controlled_dump_iff]
    exact controlled_commandPayload_iff
  · rw [serializeEnvironment, requireArgument, if_pos rfl, ok_bind, controlled_dump_iff]
    exact controlled_environmentPayload _

/-- What escapes when a duration is not in range. -/
theorem serializeCommandResult_overflow {fields : String → Value} (hreached : CommandReached fields)
    {n : ℤ} (hn : fields "duration_s" = .int n) (hlarge : ¬n.natAbs < floatOverflow) :
    serializeCommandResult (.record .commandResult fields) =
      .error (.overflowError "int too large to convert to float") := by
  obtain ⟨termination, hmem, htermination, hexit, hcommand⟩ := hreached
  obtain ⟨exitCode, hexit⟩ := exitCodePayload_isOk_iff.mpr hexit
  obtain ⟨command, hcommand⟩ := nonemptyText_isOk_iff.mpr hcommand
  have hnumber : number (fields "duration_s") "command_result.duration_s" =
      .error (.overflowError "int too large to convert to float") := by
    rw [hn, number, Alicerce.number, isfinite, if_neg hlarge]
    rfl
  rw [serializeCommandResult, requireArgument, if_pos rfl, ok_bind, commandPayload,
    requireInstance, if_pos rfl, ok_bind, plainText_eq_ok_iff.mpr htermination,
    ok_bind, if_neg (not_not.mpr hmem), hexit, ok_bind, hcommand, ok_bind, hnumber, error_bind,
    error_bind]

/-! ## The values of the typed model -/

omit [StandardLibrary] in
@[simp] theorem plainText_str (t name : Text) : plainText (.str t) name = .ok t := rfl

omit [StandardLibrary] in
@[simp] theorem nonemptyText_str (t name : Text) :
    nonemptyText (.str t) name = Alicerce.nonemptyText t name := rfl

omit [StandardLibrary] in
@[simp] theorem matchingText_str (t name : Text) (pattern : Text → Bool) :
    matchingText (.str t) name pattern = Alicerce.matchingText t name pattern := rfl

omit [StandardLibrary] in
@[simp] theorem naturalInteger_int (n : ℤ) (name : Text) :
    naturalInteger (.int n) name = Alicerce.naturalInteger n name := rfl

@[simp] theorem evidenceTimestamp_str (t name : Text) :
    evidenceTimestamp (.str t) name = Alicerce.evidenceTimestamp t name := rfl

omit [StandardLibrary] in
/-- A number. -/
def ofNumber : Number → Value
  | .int n => .int n
  | .float x => .float x

@[simp] theorem number_ofNumber (n : Number) (name : Text) :
    number (ofNumber n) name = Alicerce.number n name := by
  cases n <;> rfl

omit [StandardLibrary] in
/-- An environment. -/
def ofEnvironment (e : Environment) : Value :=
  .record .environment fun
    | "python" => .str e.python
    | "tool_versions" => .dict (e.toolVersions.map fun p ↦ (.str p.1, .str p.2))
    | "uv_lock_sha256" => .str e.uvLockSha256
    | _ => .none

omit [StandardLibrary] in
/-- An exit code. -/
def ofExitCode : Option ℤ → Value
  | none => .none
  | some n => .int n

omit [StandardLibrary] in
/-- A command result. -/
def ofCommandResult (r : CommandResult) : Value :=
  .record .commandResult fun
    | "command" => .str r.command
    | "termination" => .str r.termination
    | "exit_code" => ofExitCode r.exitCode
    | "stdout_sha256" => .str r.stdoutSha256
    | "stderr_sha256" => .str r.stderrSha256
    | "specification_sha256" => .str r.specificationSha256
    | "duration_s" => ofNumber r.durationS
    | _ => .none

omit [StandardLibrary] in
/-- A usage. -/
def ofUsage (u : Usage) : Value :=
  .record .usage fun
    | "provider" => .str u.provider
    | "model" => .str u.model
    | "tokens" => .record .tokenUsage fun
      | "input" => .int u.tokens.input
      | "output" => .int u.tokens.output
      | _ => .none
    | "estimated_cost_usd" => (u.estimatedCostUsd.map ofNumber).getD .none
    | _ => .none

omit [StandardLibrary] in
/-- An evidence. -/
def ofEvidence (e : Evidence) : Value :=
  .record .evidence fun
    | "version" => .str e.version
    | "run_id" => .str e.runId
    | "contract_id" => .str e.contractId
    | "baseline_sha" => .str e.baselineSha
    | "candidate_sha" => .str e.candidateSha
    | "environment" => ofEnvironment e.environment
    | "commands" => .tuple (e.commands.map ofCommandResult)
    | "changed_files" => .tuple (e.changedFiles.map .str)
    | "usage" => ofUsage e.usage
    | "started_at" => .str e.startedAt
    | "finished_at" => .str e.finishedAt
    | _ => .none

omit [StandardLibrary] in
theorem toolVersionsPayload_map : ∀ versions : List (Text × Text),
    toolVersionsPayload (versions.map fun p ↦ (.str p.1, .str p.2)) =
      Alicerce.toolVersionsPayload versions
  | [] => rfl
  | (key, value) :: versions => by
    rw [List.map_cons, toolVersionsPayload, Alicerce.toolVersionsPayload,
      toolVersionsPayload_map versions]
    rfl

omit [StandardLibrary] in
theorem environmentPayload_ofEnvironment (e : Environment) :
    environmentPayload (ofEnvironment e) = Alicerce.environmentPayload e := by
  rw [Alicerce.environmentPayload, ← toolVersionsPayload_map]
  rfl

omit [StandardLibrary] in
theorem exitCodePayload_ofExitCode (termination : Text) (exitCode : Option ℤ) :
    exitCodePayload termination (ofExitCode exitCode) =
      Alicerce.exitCodePayload termination exitCode := by
  rw [exitCodePayload.eq_def, Alicerce.exitCodePayload.eq_def]
  cases exitCode <;> rfl

theorem commandPayload_ofCommandResult (r : CommandResult) :
    commandPayload (ofCommandResult r) = Alicerce.commandPayload r := by
  rw [Alicerce.commandPayload, ← exitCodePayload_ofExitCode]
  simp only [← number_ofNumber]
  rfl

theorem commandPayloads_map : ∀ results : List CommandResult,
    commandPayloads (results.map ofCommandResult) = Alicerce.commandPayloads results
  | [] => rfl
  | r :: results => by
    rw [List.map_cons, commandPayloads, Alicerce.commandPayloads, commandPayload_ofCommandResult,
      commandPayloads_map results]
    rfl

theorem usagePayload_ofUsage (u : Usage) :
    usagePayload (ofUsage u) = Alicerce.usagePayload u := by
  obtain ⟨provider, model, tokens, cost⟩ := u
  cases cost with
  | none => rfl
  | some cost => cases cost <;> rfl

omit [StandardLibrary] in
theorem changedFilesPayload_map : ∀ files : List Text,
    changedFilesPayload (files.map .str) = .ok (files.map .str)
  | [] => rfl
  | file :: files => by
    rw [List.map_cons, changedFilesPayload, changedFilesPayload_map files]
    rfl

theorem evidencePayload_ofEvidence (e : Evidence) :
    evidencePayload (ofEvidence e) = Alicerce.evidencePayload e := by
  have hcommands : (e.commands.map ofCommandResult).isEmpty = true ↔ e.commands = [] := by simp
  have hraw : evidencePayload (ofEvidence e) =
      (if (e.commands.map ofCommandResult).isEmpty then
        .error (evidenceError "evidence.commands must not be empty")
      else do
        let baselineSha ← Alicerce.matchingText e.baselineSha "evidence.baseline_sha"
          objectIdPattern
        let candidateSha ← Alicerce.matchingText e.candidateSha "evidence.candidate_sha"
          objectIdPattern
        let changedFiles ← changedFilesPayload (e.changedFiles.map .str)
        let commands ← commandPayloads (e.commands.map ofCommandResult)
        let contractId ← Alicerce.nonemptyText e.contractId "evidence.contract_id"
        let environment ← environmentPayload (ofEnvironment e.environment)
        let finishedAt ← Alicerce.evidenceTimestamp e.finishedAt "evidence.finished_at"
        let runId ← Alicerce.nonemptyText e.runId "evidence.run_id"
        let startedAt ← Alicerce.evidenceTimestamp e.startedAt "evidence.started_at"
        let usage ← usagePayload (ofUsage e.usage)
        let version ← Alicerce.matchingText e.version "evidence.version" versionPattern
        .ok [("baseline_sha", .str baselineSha), ("candidate_sha", .str candidateSha),
          ("changed_files", .arr changedFiles), ("commands", .arr commands),
          ("contract_id", .str contractId), ("environment", .obj environment),
          ("finished_at", .str finishedAt), ("run_id", .str runId), ("started_at", .str startedAt),
          ("usage", .obj usage), ("version", .str version)]) := rfl
  rw [hraw, Alicerce.evidencePayload, changedFilesPayload_map, commandPayloads_map,
    environmentPayload_ofEnvironment, usagePayload_ofUsage]
  simp only [hcommands, ok_bind]

/-- **On the values of the typed model the serializers are those of the typed model.** -/
theorem serializers_of_typed (e : Evidence) (r : CommandResult) (environment : Environment) :
    serializeEvidence (ofEvidence e) = Alicerce.serializeEvidence e ∧
    serializeCommandResult (ofCommandResult r) = Alicerce.serializeCommandResult r ∧
    serializeEnvironment (ofEnvironment environment) =
      Alicerce.serializeEnvironment environment := by
  refine ⟨?_, ?_, ?_⟩
  · rw [Alicerce.serializeEvidence, ← evidencePayload_ofEvidence]
    rfl
  · rw [Alicerce.serializeCommandResult, ← commandPayload_ofCommandResult]
    rfl
  · rw [Alicerce.serializeEnvironment, ← environmentPayload_ofEnvironment]
    rfl

end

/-- The fields of a command whose duration is the first integer that is no float. -/
def endlessFields : let _ := oneFloat; String → Value :=
  let _ := oneFloat
  fun
    | "command" => .str "uv run pytest"
    | "termination" => .str "EXITED"
    | "exit_code" => .int 0
    | "duration_s" => .int floatOverflow
    | _ => .none

/-- The error of the conversion escapes. -/
theorem endlessCommand_escapes : let _ := oneFloat; let _ := oneFloatLibrary
    serializeCommandResult (.record .commandResult endlessFields) =
      .error (.overflowError "int too large to convert to float") := by
  let _ := oneFloat
  let _ := oneFloatLibrary
  have hreached : CommandReached endlessFields :=
    ⟨text "EXITED", by decide, rfl, ⟨0, rfl⟩, _, rfl, by decide⟩
  have hlarge : ¬(floatOverflow : ℤ).natAbs < floatOverflow := by
    rw [Int.natAbs_natCast]
    exact lt_irrefl _
  exact serializeCommandResult_overflow hreached rfl hlarge

end Raw

end Alicerce
