import Alicerce.Adapters.EvidenceSerialization
import Alicerce.Py.JsonInjective

/-!
# What the evidence serializers accept

Every payload function checks its fields and prints them as they are, so what it returns is known in
advance and only whether it returns is a question.

* `Environment.payload`, `CommandResult.payload`, `Usage.payload` and `Evidence.payload` are the
  payloads.
* `Environment.Accepted`, `CommandResult.Accepted`, `Usage.Accepted` and `Evidence.Accepted` are the
  conditions the fields have to meet; those of a number are `Number.Accepted`.
* `environmentPayload_eq_ok_iff`, `commandPayload_eq_ok_iff`, `usagePayload_eq_ok_iff` and
  `evidencePayload_eq_ok_iff`: the payload function returns the one exactly under the other.
* `serializeEnvironment_eq_ok_iff`, `serializeCommandResult_eq_ok_iff` and
  `serializeEvidence_eq_ok_iff` say the same of the serializers, which have left to write the
  payload out.
* `PrintsNumbers` is what is relied on of `json.dumps` about floats.
-/

set_option autoImplicit false

namespace Alicerce

open Py

/-! ## What the checks accept -/

theorem nonemptyText_eq_ok_iff {value name t : Text} :
    nonemptyText value name = .ok t ↔ value ≠ [] ∧ t = value := ite_error_eq_ok_iff

theorem matchingText_eq_ok_iff {value name t : Text} {pattern : Text → Bool} :
    matchingText value name pattern = .ok t ↔ pattern value = true ∧ t = value := ite_ok_eq_ok_iff

theorem naturalInteger_eq_ok_iff {value n : ℤ} {name : Text} :
    naturalInteger value name = .ok n ↔ 0 ≤ value ∧ n = value := by
  rw [naturalInteger, ite_error_eq_ok_iff, not_lt]

/-! ## Numbers that can be printed -/

theorem digits_of_lt_floatOverflow {n : ℕ} (h : n < floatOverflow) :
    (decimal n).length ≤ maxStrDigits := by
  have hpow : ∀ {k m : ℕ}, k ≤ m → 2 ^ k ≤ 10 ^ m := fun {k m} hkm ↦
    (Nat.pow_le_pow_left (by decide) k).trans (Nat.pow_le_pow_right (by decide) hkm)
  rw [decimal]
  split
  · decide
  · rw [floatOverflow] at h
    rw [List.length_reverse, List.length_map, Nat.digits_length_le_iff (by decide)]
    exact lt_of_lt_of_le h ((Nat.sub_le _ _).trans (hpow (by decide)))

theorem encodable_of_isNumeral {d : Text} (h : IsNumeral d) : Encodable d :=
  encodable_of_all ((range_ascii (by decide)).or (oneOf_ascii (by decide)))
    (List.all_eq_true.mpr h.2)

/-- No point is printed in an integer. -/
theorem point_not_mem_intRepr {n : ℤ} {d : Text} (hd : intRepr n = some d) : .scalar '.' ∉ d := by
  have hdec : .scalar '.' ∉ decimal n.natAbs := fun h ↦
    absurd (List.all_eq_true.mp (decimal_all_digit _) _ h) (by decide)
  rw [intRepr] at hd
  split at hd
  · obtain rfl := Option.some.inj hd
    split
    · rw [List.mem_cons, not_or]
      exact ⟨by decide, hdec⟩
    · exact hdec
  · exact absurd hd (by simp)

section
variable [Interpreter]

theorem dumpEvidence_eq_ok_iff {value : List (Text × Json)} {b : Bytes} :
    dumpEvidence value = .ok b ↔ ∃ t, dumps (.obj value) = some t ∧ encodeUtf8 t = some b := by
  rw [dumpEvidence, translate_eq_ok_iff, bind_eq_ok_iff]
  refine exists_congr fun t ↦ and_congr ?_ ?_
  · rw [jsonDumps]; cases dumps (.obj value) <;> simp
  · rw [encodeText]; cases encodeUtf8 t <;> simp

theorem dumpEvidence_isOk_iff {value : List (Text × Json)} :
    (∃ b, dumpEvidence value = .ok b) ↔ (Json.obj value).Written := by
  simp only [dumpEvidence_eq_ok_iff, Json.Written, ← encodeUtf8_isSome_iff,
    Option.isSome_iff_exists]
  constructor
  · rintro ⟨b, t, ht, hb⟩
    exact ⟨t, ht, b, hb⟩
  · rintro ⟨t, ht, b, hb⟩
    exact ⟨b, t, ht, hb⟩

/-! ## Environments -/

/-- The payload of an environment. -/
def Environment.payload (e : Environment) : List (Text × Json) :=
  [("python", .str e.python),
    ("tool_versions", .obj (e.toolVersions.map fun p ↦ (p.1, .str p.2))),
    ("uv_lock_sha256", .str e.uvLockSha256)]

/-- An environment passes the checks. -/
structure Environment.Accepted (e : Environment) : Prop where
  toolVersions : ∀ p ∈ e.toolVersions, p.1 ≠ [] ∧ p.2 ≠ []
  python : e.python ≠ []
  uvLockSha256 : sha256Pattern e.uvLockSha256 = true

theorem toolVersionsPayload_eq_ok_iff : ∀ {versions : List (Text × Text)}
    {payload : List (Text × Json)}, toolVersionsPayload versions = .ok payload ↔
      (∀ p ∈ versions, p.1 ≠ [] ∧ p.2 ≠ []) ∧ payload = versions.map fun p ↦ (p.1, .str p.2)
  | [], payload => by
    rw [toolVersionsPayload, Except.ok.injEq, eq_comm]
    simp
  | (key, value) :: versions, payload => by
    simp only [toolVersionsPayload, bind_eq_ok_iff, nonemptyText_eq_ok_iff,
      toolVersionsPayload_eq_ok_iff, Except.ok.injEq, List.forall_mem_cons, List.map_cons]
    constructor
    · rintro ⟨_, ⟨hkey, rfl⟩, _, ⟨hvalue, rfl⟩, _, ⟨hall, rfl⟩, rfl⟩
      exact ⟨⟨⟨hkey, hvalue⟩, hall⟩, rfl⟩
    · rintro ⟨⟨⟨hkey, hvalue⟩, hall⟩, rfl⟩
      exact ⟨_, ⟨hkey, rfl⟩, _, ⟨hvalue, rfl⟩, _, ⟨hall, rfl⟩, rfl⟩

theorem environmentPayload_eq_ok_iff {e : Environment} {payload : List (Text × Json)} :
    environmentPayload e = .ok payload ↔ e.Accepted ∧ payload = e.payload := by
  simp only [environmentPayload, bind_eq_ok_iff, toolVersionsPayload_eq_ok_iff,
    nonemptyText_eq_ok_iff, matchingText_eq_ok_iff, Except.ok.injEq]
  constructor
  · rintro ⟨_, ⟨hversions, rfl⟩, _, ⟨hpython, rfl⟩, _, ⟨huv, rfl⟩, rfl⟩
    exact ⟨⟨hversions, hpython, huv⟩, rfl⟩
  · rintro ⟨⟨hversions, hpython, huv⟩, rfl⟩
    exact ⟨_, ⟨hversions, rfl⟩, _, ⟨hpython, rfl⟩, _, ⟨huv, rfl⟩, rfl⟩

/-- **What `serialize_environment` accepts**, and what it returns. -/
theorem serializeEnvironment_eq_ok_iff {e : Environment} {b : Bytes} :
    serializeEnvironment e = .ok b ↔ e.Accepted ∧ dumpEvidence e.payload = .ok b := by
  simp only [serializeEnvironment, bind_eq_ok_iff, environmentPayload_eq_ok_iff, and_assoc,
    exists_and_left, exists_eq_left]

/-! ## Exit codes and numbers -/

/-- What is printed for an exit code. -/
def exitCodeJson : Option ℤ → Json
  | none => .null
  | some n => .int n

theorem exitCodePayload_eq_ok_iff {termination : Text} {exitCode : Option ℤ} {payload : Json} :
    exitCodePayload termination exitCode = .ok payload ↔
      (exitCode.isSome = true ↔ termination = "EXITED") ∧ payload = exitCodeJson exitCode := by
  unfold exitCodePayload
  split <;> cases exitCode <;> simp_all [exitCodeJson, eq_comm]

variable [StandardLibrary]

/-- A number is finite and not negative, and converts to a float if it is an integer. -/
def Number.Accepted : Number → Prop
  | .int n => n.natAbs < floatOverflow ∧ 0 ≤ n
  | .float x => ∃ q, StandardLibrary.value x = some q ∧ 0 ≤ q

theorem number_eq_ok_iff {value n : Number} {name : Text} :
    number value name = .ok n ↔ value.Accepted ∧ n = value := by
  cases value with
  | int m =>
    rw [number, isfinite, Number.Accepted, bind_eq_ok_iff]
    simp only [ite_ok_eq_ok_iff, and_assoc, exists_and_left, exists_eq_left, ite_error_eq_ok_iff,
      Int.cast_lt_zero, not_lt]
  | float x =>
    rw [number, isfinite, Number.Accepted, ok_bind]
    cases StandardLibrary.value x with
    | none => simp
    | some q =>
      simp only [Option.some.injEq, exists_eq_left']
      rw [ite_error_eq_ok_iff, not_lt]

/-- `json.dumps` prints the finite floats, as numerals, and numerically different finite numbers
have different texts. -/
structure PrintsNumbers : Prop where
  finite_iff : ∀ x : Interpreter.Float,
    (Interpreter.floatRepr x).isSome = true ↔ (StandardLibrary.value x).isSome = true
  numeral : FloatsPrintNumerals
  float_ne_float : ∀ (x y : Interpreter.Float) (d : Text), Interpreter.floatRepr x = some d →
    Interpreter.floatRepr y = some d → StandardLibrary.value x = StandardLibrary.value y
  int_ne_float : ∀ (n : ℤ) (x : Interpreter.Float) (d : Text), intRepr n = some d →
    Interpreter.floatRepr x = some d → StandardLibrary.value x = some (n : ℚ)

/-- **An accepted number can be written out.** -/
theorem Number.Accepted.written (hp : PrintsNumbers) {n : Number} (h : n.Accepted) :
    n.json.Written := by
  cases n with
  | int n => exact written_int_iff.mpr (digits_of_lt_floatOverflow h.1)
  | float x =>
    obtain ⟨q, hq, -⟩ := h
    obtain ⟨d, hd⟩ := Option.isSome_iff_exists.mp ((hp.finite_iff x).mpr (by rw [hq]; rfl))
    exact written_float_iff.mpr ⟨d, hd, encodable_of_isNumeral (hp.numeral x d hd)⟩

/-- A text is an ISO 8601 timestamp with a timezone. -/
def TimestampAccepted (t : Text) : Prop :=
  t ≠ [] ∧ ∃ parsed, StandardLibrary.fromisoformat (replaceZ t) = some parsed ∧
    parsed.tzinfo ≠ .none

theorem evidenceTimestamp_eq_ok_iff {value name t : Text} :
    evidenceTimestamp value name = .ok t ↔ TimestampAccepted value ∧ t = value := by
  rw [evidenceTimestamp, TimestampAccepted, bind_eq_ok_iff]
  simp only [nonemptyText_eq_ok_iff, and_assoc, exists_and_left, exists_eq_left]
  refine and_congr_right fun _ ↦ ?_
  cases StandardLibrary.fromisoformat (replaceZ value) with
  | none => simp
  | some parsed =>
    simp only [Option.some.injEq, exists_eq_left']
    exact ite_error_eq_ok_iff

/-! ## Command results -/

/-- The payload of a command result. -/
def CommandResult.payload (r : CommandResult) : List (Text × Json) :=
  [("command", .str r.command), ("duration_s", r.durationS.json),
    ("exit_code", exitCodeJson r.exitCode),
    ("specification_sha256", .str r.specificationSha256),
    ("stderr_sha256", .str r.stderrSha256), ("stdout_sha256", .str r.stdoutSha256),
    ("termination", .str r.termination)]

/-- A command result passes the checks. -/
structure CommandResult.Accepted (r : CommandResult) : Prop where
  termination : r.termination ∈ terminations
  exitCode : r.exitCode.isSome = true ↔ r.termination = "EXITED"
  command : r.command ≠ []
  durationS : r.durationS.Accepted
  specificationSha256 : sha256Pattern r.specificationSha256 = true
  stderrSha256 : sha256Pattern r.stderrSha256 = true
  stdoutSha256 : sha256Pattern r.stdoutSha256 = true

theorem commandPayload_eq_ok_iff {r : CommandResult} {payload : List (Text × Json)} :
    commandPayload r = .ok payload ↔ r.Accepted ∧ payload = r.payload := by
  rw [commandPayload]
  split
  · rename_i h
    exact iff_of_false (by simp) fun h' ↦ h h'.1.termination
  · rename_i h
    rw [not_not] at h
    simp only [bind_eq_ok_iff, exitCodePayload_eq_ok_iff, nonemptyText_eq_ok_iff,
      number_eq_ok_iff, matchingText_eq_ok_iff, Except.ok.injEq]
    constructor
    · rintro ⟨_, ⟨hexit, rfl⟩, _, ⟨hcommand, rfl⟩, _, ⟨hduration, rfl⟩, _, ⟨hspec, rfl⟩, _,
        ⟨herr, rfl⟩, _, ⟨hout, rfl⟩, rfl⟩
      exact ⟨⟨h, hexit, hcommand, hduration, hspec, herr, hout⟩, rfl⟩
    · rintro ⟨⟨-, hexit, hcommand, hduration, hspec, herr, hout⟩, rfl⟩
      exact ⟨_, ⟨hexit, rfl⟩, _, ⟨hcommand, rfl⟩, _, ⟨hduration, rfl⟩, _, ⟨hspec, rfl⟩, _,
        ⟨herr, rfl⟩, _, ⟨hout, rfl⟩, rfl⟩

/-! ## Usage -/

/-- The member of the payload that stands for the cost, if there is one. -/
def costMember (cost : Option Number) : List (Text × Json) :=
  (cost.map fun cost ↦ (text "estimated_cost_usd", cost.json)).toList

/-- The payload of a usage. -/
def Usage.payload (u : Usage) : List (Text × Json) :=
  (text "model", .str u.model) :: (text "provider", .str u.provider) ::
    (text "tokens", .obj [("input", .int u.tokens.input), ("output", .int u.tokens.output)]) ::
      costMember u.estimatedCostUsd

/-- A usage passes the checks. -/
structure Usage.Accepted (u : Usage) : Prop where
  model : u.model ≠ []
  provider : u.provider ≠ []
  input : 0 ≤ u.tokens.input
  output : 0 ≤ u.tokens.output
  estimatedCostUsd : ∀ cost, u.estimatedCostUsd = some cost → cost.Accepted

theorem usagePayload_eq_ok_iff {u : Usage} {payload : List (Text × Json)} :
    usagePayload u = .ok payload ↔ u.Accepted ∧ payload = u.payload := by
  obtain ⟨provider, model, tokens, cost⟩ := u
  simp only [usagePayload, bind_eq_ok_iff, nonemptyText_eq_ok_iff, naturalInteger_eq_ok_iff]
  constructor
  · rintro ⟨_, ⟨hmodel, rfl⟩, _, ⟨hprovider, rfl⟩, _, ⟨hinput, rfl⟩, _, ⟨houtput, rfl⟩, h⟩
    cases cost with
    | none =>
      rw [Except.ok.injEq] at h
      exact ⟨⟨hmodel, hprovider, hinput, houtput, by simp⟩, h.symm⟩
    | some cost =>
      simp only [bind_eq_ok_iff, number_eq_ok_iff, Except.ok.injEq] at h
      obtain ⟨_, ⟨hcost, rfl⟩, rfl⟩ := h
      exact ⟨⟨hmodel, hprovider, hinput, houtput, by simpa using hcost⟩, rfl⟩
  · rintro ⟨⟨hmodel, hprovider, hinput, houtput, hcost⟩, rfl⟩
    refine ⟨_, ⟨hmodel, rfl⟩, _, ⟨hprovider, rfl⟩, _, ⟨hinput, rfl⟩, _, ⟨houtput, rfl⟩, ?_⟩
    cases cost with
    | none => rfl
    | some cost =>
      simp only [bind_eq_ok_iff, number_eq_ok_iff]
      exact ⟨_, ⟨hcost cost rfl, rfl⟩, rfl⟩

/-! ## Evidence -/

/-- The payload of an evidence. -/
def Evidence.payload (e : Evidence) : List (Text × Json) :=
  [("baseline_sha", .str e.baselineSha), ("candidate_sha", .str e.candidateSha),
    ("changed_files", .arr (e.changedFiles.map .str)),
    ("commands", .arr (e.commands.map fun r ↦ .obj r.payload)),
    ("contract_id", .str e.contractId), ("environment", .obj e.environment.payload),
    ("finished_at", .str e.finishedAt), ("run_id", .str e.runId),
    ("started_at", .str e.startedAt), ("usage", .obj e.usage.payload),
    ("version", .str e.version)]

/-- An evidence passes the checks. -/
structure Evidence.Accepted (e : Evidence) : Prop where
  commands_ne_nil : e.commands ≠ []
  baselineSha : objectIdPattern e.baselineSha = true
  candidateSha : objectIdPattern e.candidateSha = true
  commands : ∀ r ∈ e.commands, r.Accepted
  contractId : e.contractId ≠ []
  environment : e.environment.Accepted
  finishedAt : TimestampAccepted e.finishedAt
  runId : e.runId ≠ []
  startedAt : TimestampAccepted e.startedAt
  usage : e.usage.Accepted
  version : versionPattern e.version = true

theorem commandPayloads_eq_ok_iff : ∀ {results : List CommandResult} {payloads : List Json},
    commandPayloads results = .ok payloads ↔
      (∀ r ∈ results, r.Accepted) ∧ payloads = results.map fun r ↦ .obj r.payload
  | [], payloads => by
    rw [commandPayloads, Except.ok.injEq, eq_comm]
    simp
  | r :: results, payloads => by
    simp only [commandPayloads, bind_eq_ok_iff, commandPayload_eq_ok_iff,
      commandPayloads_eq_ok_iff, Except.ok.injEq, List.forall_mem_cons, List.map_cons]
    constructor
    · rintro ⟨_, ⟨hr, rfl⟩, _, ⟨hall, rfl⟩, rfl⟩
      exact ⟨⟨hr, hall⟩, rfl⟩
    · rintro ⟨⟨hr, hall⟩, rfl⟩
      exact ⟨_, ⟨hr, rfl⟩, _, ⟨hall, rfl⟩, rfl⟩

theorem evidencePayload_eq_ok_iff {e : Evidence} {payload : List (Text × Json)} :
    evidencePayload e = .ok payload ↔ e.Accepted ∧ payload = e.payload := by
  rw [evidencePayload]
  split
  · rename_i h
    exact iff_of_false (by simp) fun h' ↦ h'.1.commands_ne_nil h
  · rename_i hne
    simp only [bind_eq_ok_iff, matchingText_eq_ok_iff, commandPayloads_eq_ok_iff,
      nonemptyText_eq_ok_iff, environmentPayload_eq_ok_iff, evidenceTimestamp_eq_ok_iff,
      usagePayload_eq_ok_iff, Except.ok.injEq]
    constructor
    · rintro ⟨_, ⟨hbase, rfl⟩, _, ⟨hcand, rfl⟩, _, ⟨hcommands, rfl⟩, _, ⟨hcontract, rfl⟩, _,
        ⟨henv, rfl⟩, _, ⟨hfin, rfl⟩, _, ⟨hrun, rfl⟩, _, ⟨hstart, rfl⟩, _, ⟨husage, rfl⟩, _,
        ⟨hversion, rfl⟩, rfl⟩
      exact ⟨⟨hne, hbase, hcand, hcommands, hcontract, henv, hfin, hrun, hstart, husage,
        hversion⟩, rfl⟩
    · rintro ⟨⟨-, hbase, hcand, hcommands, hcontract, henv, hfin, hrun, hstart, husage,
        hversion⟩, rfl⟩
      exact ⟨_, ⟨hbase, rfl⟩, _, ⟨hcand, rfl⟩, _, ⟨hcommands, rfl⟩, _, ⟨hcontract, rfl⟩, _,
        ⟨henv, rfl⟩, _, ⟨hfin, rfl⟩, _, ⟨hrun, rfl⟩, _, ⟨hstart, rfl⟩, _, ⟨husage, rfl⟩, _,
        ⟨hversion, rfl⟩, rfl⟩

/-! ## The serializers -/

/-- **What `serialize_command_result` accepts**, and what it returns. -/
theorem serializeCommandResult_eq_ok_iff {r : CommandResult} {b : Bytes} :
    serializeCommandResult r = .ok b ↔ r.Accepted ∧ dumpEvidence r.payload = .ok b := by
  simp only [serializeCommandResult, bind_eq_ok_iff, commandPayload_eq_ok_iff, and_assoc,
    exists_and_left, exists_eq_left]

/-- **What `serialize_evidence` accepts**, and what it returns. -/
theorem serializeEvidence_eq_ok_iff {e : Evidence} {b : Bytes} :
    serializeEvidence e = .ok b ↔ e.Accepted ∧ dumpEvidence e.payload = .ok b := by
  simp only [serializeEvidence, bind_eq_ok_iff, evidencePayload_eq_ok_iff, and_assoc,
    exists_and_left, exists_eq_left]

end

/-! ## An interpreter with one float

The arithmetic of `1.25`, the only float it knows, and the timestamps of one minute. -/

/-- An interpreter whose only float is `1.25`. -/
@[reducible] def oneFloat : Interpreter :=
  { Interpreter.plain with Float := Unit, floatOf := fun _ ↦ (), floatRepr := fun _ ↦ some "1.25" }

/-- Noon of a day. -/
def noon : CivilTime := ⟨2026, 7, 21, 12, 0, 0, 0, by decide⟩

/-- Two seconds past that noon. -/
def pastNoon : CivilTime := ⟨2026, 7, 21, 12, 0, 2, 0, by decide⟩

/-- The standard library of that interpreter. -/
@[reducible] def oneFloatLibrary : @StandardLibrary oneFloat :=
  let _ := oneFloat
  { value := fun _ ↦ some (5 / 4)
    divide := fun _ _ ↦ ()
    add := fun _ _ ↦ ()
    fromisoformat := fun t ↦
      if t = "2026-07-21T12:00:00+00:00" then some (utc noon)
      else if t = "2026-07-21T12:00:02+00:00" then some (utc pastNoon)
      else none }

theorem oneFloat_printsNumbers : @PrintsNumbers oneFloat oneFloatLibrary := by
  let _ := oneFloat
  let _ := oneFloatLibrary
  refine ⟨fun _ ↦ Iff.rfl, fun x d hd ↦ ?_, fun _ _ _ _ _ ↦ rfl, fun n x d hn hd ↦ ?_⟩
  · obtain rfl := Option.some.inj hd
    exact ⟨by decide, by decide⟩
  · obtain rfl := Option.some.inj hd
    exact absurd (show CodePoint.scalar '.' ∈ text "1.25" by decide) (point_not_mem_intRepr hn)

end Alicerce
