import Alicerce.Adapters.EvidenceAccepted

/-!
# The evidence of a run

What becomes of the values of the domain when they are put into an evidence.

* `Assembly` is everything the assembly of an evidence starts from, with what each part has passed
  already: the identity of the run and a candidate of one of its workspaces, results that
  `build_command_result` has returned, and an environment, a usage, a version, changed files and
  timestamps that pass the serializer's own checks.
* `buildCommandResult_isOk_iff` says which results are there.
* `serializes_assembly_iff`: the serializer does not accept every assembly.  The object ids of the
  domain have forty characters or sixty-four, and the pattern of the serializer stops at forty; a
  token count may have more digits than the interpreter converts (`CountPrintable`).  Nothing else
  can go wrong.
-/

set_option autoImplicit false

namespace Alicerce

open Py

/-- The serializer's object ids, among the domain's: the short ones. -/
theorem objectIdPattern_iff {t : Text} (h : baselineShaPattern t = true) :
    objectIdPattern t = true ↔ t.length = 40 := by
  rw [baselineShaPattern, Bool.or_eq_true, matchesExactly, matchesExactly, Bool.and_eq_true,
    Bool.and_eq_true, beq_iff_eq, beq_iff_eq] at h
  have hall : t.all lowerHex = true := h.elim And.right And.right
  have hlength : t.length = 40 ∨ t.length = 64 := h.imp And.left And.left
  simp only [objectIdPattern, hall, Bool.and_true, Bool.and_eq_true, decide_eq_true_eq]
  omega

/-- A text of hexadecimal digits can be written out. -/
theorem encodable_of_objectId {t : Text} (h : baselineShaPattern t = true) : Encodable t := by
  rw [baselineShaPattern, Bool.or_eq_true] at h
  exact h.elim (encodable_of_matchesExactly lowerHex_ascii)
    (encodable_of_matchesExactly lowerHex_ascii)

theorem canonicalTermination_eq_exited_iff (t : ExecutionTermination) :
    canonicalTermination t = "EXITED" ↔ t = .exited := by
  cases t <;> decide

section
variable [Interpreter]

/-! ## What can be written out -/

theorem Environment.written_iff {e : Environment} : (Json.obj e.payload).Written ↔
    Encodable e.python ∧ Encodable e.uvLockSha256 ∧
      ∀ p ∈ e.toolVersions, Encodable p.1 ∧ Encodable p.2 := by
  simp only [Environment.payload, written_obj_iff, List.forall_mem_cons, written_str_iff,
    encodable_text, true_and, List.forall_mem_map, List.not_mem_nil, false_imp_iff, implies_true,
    and_true]
  exact and_congr_right fun _ ↦ and_comm

/-- A count has no more digits than an `int` may have to be converted to a `str`. -/
def CountPrintable (n : ℤ) : Prop := (decimal n.natAbs).length ≤ maxStrDigits

theorem Usage.written_iff {u : Usage} : (Json.obj u.payload).Written ↔
    Encodable u.model ∧ Encodable u.provider ∧
      (CountPrintable u.tokens.input ∧ CountPrintable u.tokens.output) ∧
      ∀ cost, u.estimatedCostUsd = some cost → cost.json.Written := by
  simp only [Usage.payload, costMember, written_obj_iff, List.forall_mem_cons, written_str_iff,
    written_int_iff, encodable_text, true_and, List.not_mem_nil, false_imp_iff, implies_true,
    and_true, CountPrintable, Option.mem_toList, Option.map_eq_some_iff,
    forall_exists_index, and_imp]
  refine and_congr_right fun _ ↦ and_congr_right fun _ ↦ and_congr_right fun _ ↦ ?_
  constructor
  · exact fun h cost hcost ↦ (h _ cost hcost rfl).2
  · rintro h _ cost hcost rfl
    exact ⟨encodable_text _, h cost hcost⟩

theorem Evidence.written_iff {e : Evidence} : (Json.obj e.payload).Written ↔
    Encodable e.baselineSha ∧ Encodable e.candidateSha ∧ (∀ t ∈ e.changedFiles, Encodable t) ∧
      (∀ r ∈ e.commands, (Json.obj r.payload).Written) ∧ Encodable e.contractId ∧
      (Json.obj e.environment.payload).Written ∧ Encodable e.finishedAt ∧ Encodable e.runId ∧
      Encodable e.startedAt ∧ (Json.obj e.usage.payload).Written ∧ Encodable e.version := by
  rw [Evidence.payload, written_obj_iff]
  simp only [List.forall_mem_cons, written_str_iff, written_arr_iff, encodable_text, true_and,
    List.forall_mem_map, List.not_mem_nil, false_imp_iff, implies_true, and_true]

/-! ## The results of executions -/

theorem dumpsItems_str : ∀ l : List Text, dumpsItems (l.map Json.str) = some (l.map quote)
  | [] => by rw [List.map_nil, dumpsItems, List.map_nil]
  | s :: l => by
    rw [List.map_cons, dumpsItems, dumps, Option.bind_some, dumpsItems_str l, Option.map_some,
      List.map_cons]

/-- The canonical command is the array of its argument vector. -/
theorem commandIdentity_eq (request : CommandRequest) : some (commandIdentity request) =
    dumps (.arr ((request.executable.value :: request.arguments).map .str)) := by
  rw [commandIdentity, dumps, dumpsItems_str]
  rfl

theorem commandIdentity_ne_nil (request : CommandRequest) : commandIdentity request ≠ [] := by
  have h := commandIdentity_eq request
  rw [dumps, dumpsItems_str, Option.map_some, Option.some_inj] at h
  rw [h]
  exact List.cons_ne_nil _ _

theorem encodable_commandIdentity_iff (request : CommandRequest) :
    Encodable (commandIdentity request) ↔ ∀ t ∈ request.arguments, Encodable t := by
  have h := commandIdentity_eq request
  have hexe : Encodable request.executable.value :=
    encodable_of_matchesHeadTail (range_ascii (by decide))
      (((range_ascii (by decide)).or (range_ascii (by decide))).or (oneOf_ascii (by decide)))
      (pattern_of_requireFormat request.executable.valid)
  have hwritten : (Json.arr ((request.executable.value :: request.arguments).map .str)).Written ↔
      _ := written_arr_iff
  simp only [List.forall_mem_map, written_str_iff, List.forall_mem_cons, hexe, true_and]
    at hwritten
  rw [← hwritten, Json.Written, ← h]
  simp

variable [StandardLibrary]

theorem buildCommandResult_eq_ok_iff {execution : ExecutionResult} {specificationBytes : Bytes}
    {r : CommandResult} : buildCommandResult execution specificationBytes = .ok r ↔
      specificationBytes.size ≠ 0 ∧ r = canonicalResult execution specificationBytes ∧
        r.Accepted ∧ (Json.obj r.payload).Written := by
  rw [buildCommandResult]
  split
  · rename_i h
    exact iff_of_false (by simp) fun h' ↦ h'.1 h
  · rename_i h
    simp only [bind_eq_ok_iff, serializeCommandResult_eq_ok_iff, Except.ok.injEq,
      ← dumpEvidence_isOk_iff]
    constructor
    · rintro ⟨b, ⟨hr, hb⟩, rfl⟩
      exact ⟨h, rfl, hr, b, hb⟩
    · rintro ⟨-, rfl, hr, b, hb⟩
      exact ⟨b, ⟨hr, hb⟩, rfl⟩

/-- A result whose duration is a number passes the checks. -/
theorem canonicalResult_accepted {execution : ExecutionResult} {specificationBytes : Bytes}
    (hduration : (durationSeconds execution.startedAt execution.finishedAt).Accepted) :
    (canonicalResult execution specificationBytes).Accepted where
  termination := show canonicalTermination execution.termination ∈ terminations by
    cases execution.termination <;> decide
  exitCode := execution.exitCode_iff.trans (canonicalTermination_eq_exited_iff _).symm
  command := commandIdentity_ne_nil _
  durationS := hduration
  specificationSha256 := matchesExactly_hexdigest _
  stderrSha256 := matchesExactly_hexdigest _
  stdoutSha256 := matchesExactly_hexdigest _

/-- **What `build_command_result` accepts**: whatever ran, its result is canonical as soon as its
duration is a number and its argument vector and its exit code can be written out. -/
theorem buildCommandResult_isOk_iff (hp : PrintsNumbers) {execution : ExecutionResult}
    {specificationBytes : Bytes} :
    (∃ r, buildCommandResult execution specificationBytes = .ok r) ↔
      specificationBytes.size ≠ 0 ∧
      (durationSeconds execution.startedAt execution.finishedAt).Accepted ∧
      (∀ t ∈ execution.request.arguments, Encodable t) ∧
      ∀ n, execution.exitCode = some n → CountPrintable n := by
  simp only [buildCommandResult_eq_ok_iff, exists_and_left, exists_eq_left]
  refine and_congr_right fun _ ↦ ?_
  have hshaEnc : ∀ data, Encodable (hexdigest data) := fun data ↦
    encodable_of_matchesExactly lowerHex_ascii (matchesExactly_hexdigest data)
  have hterm : Encodable (canonicalTermination execution.termination) := by
    cases execution.termination <;> exact encodable_text _
  constructor
  · rintro ⟨haccepted, hwritten⟩
    rw [CommandResult.payload, written_obj_iff] at hwritten
    simp only [List.forall_mem_cons, written_str_iff] at hwritten
    refine ⟨haccepted.durationS, (encodable_commandIdentity_iff _).mp hwritten.1.2, ?_⟩
    intro n hn
    have hexit := hwritten.2.2.1.2
    simp only [canonicalResult, hn, exitCodeJson, written_int_iff] at hexit
    exact hexit
  · rintro ⟨hduration, hargs, hexit⟩
    refine ⟨canonicalResult_accepted hduration, ?_⟩
    rw [CommandResult.payload, written_obj_iff]
    simp only [List.forall_mem_cons, written_str_iff, encodable_text, true_and,
      List.not_mem_nil, false_imp_iff, implies_true, and_true]
    refine ⟨(encodable_commandIdentity_iff _).mpr hargs, hduration.written hp, ?_, hshaEnc _,
      hshaEnc _, hshaEnc _, hterm⟩
    cases hcode : execution.exitCode with
    | none => simp [canonicalResult, hcode, exitCodeJson]
    | some n =>
      simp only [canonicalResult, hcode, exitCodeJson, written_int_iff]
      exact hexit n hcode

/-! ## Assemblies -/

/-- What an evidence is assembled from. -/
structure Assembly where
  identity : RunIdentity
  candidate : CandidateIdentity
  version : Text
  environment : Environment
  commands : List CommandResult
  changedFiles : List Text
  usage : Usage
  startedAt : Text
  finishedAt : Text
  /-- The candidate is one of a workspace of the run. -/
  candidate_bound : candidate.workspace.runId = identity.runId ∧
    candidate.workspace.baselineSha = identity.baselineSha
  commands_ne_nil : commands ≠ []
  /-- `build_command_result` has returned every result. -/
  commands_built : ∀ r ∈ commands, ∃ execution specificationBytes,
    buildCommandResult execution specificationBytes = .ok r
  version_accepted : versionPattern version = true
  environment_accepted : ∃ payload, environmentPayload environment = .ok payload
  usage_accepted : ∃ payload, usagePayload usage = .ok payload
  startedAt_accepted : ∃ t, evidenceTimestamp startedAt "evidence.started_at" = .ok t
  finishedAt_accepted : ∃ t, evidenceTimestamp finishedAt "evidence.finished_at" = .ok t
  /-- Every text has a UTF-8 encoding. -/
  texts_encodable : ∀ t ∈ [version, identity.contractId.value, environment.python,
    environment.uvLockSha256, usage.provider, usage.model, startedAt, finishedAt] ++
      environment.toolVersions.map Prod.fst ++ environment.toolVersions.map Prod.snd ++
      changedFiles, Encodable t

/-- The evidence: its ids and object ids are the texts of the values of the domain. -/
def Assembly.evidence (a : Assembly) : Evidence where
  version := a.version
  runId := a.identity.runId.value
  contractId := a.identity.contractId.value
  baselineSha := a.identity.baselineSha.value
  candidateSha := a.candidate.candidateSha.value
  environment := a.environment
  commands := a.commands
  changedFiles := a.changedFiles
  usage := a.usage
  startedAt := a.startedAt
  finishedAt := a.finishedAt

/-- The checks of the serializer on an assembly come down to the length of the object ids. -/
theorem Assembly.accepted_iff (a : Assembly) : a.evidence.Accepted ↔
    a.identity.baselineSha.value.length = 40 ∧ a.candidate.candidateSha.value.length = 40 := by
  have hbase := pattern_of_requirePattern a.identity.baselineSha.valid
  have hcand := pattern_of_requireFormat a.candidate.candidateSha.valid
  rw [← objectIdPattern_iff hbase, ← objectIdPattern_iff hcand]
  constructor
  · exact fun h ↦ ⟨h.baselineSha, h.candidateSha⟩
  · rintro ⟨hb, hc⟩
    obtain ⟨_, henv⟩ := a.environment_accepted
    obtain ⟨_, husage⟩ := a.usage_accepted
    obtain ⟨_, hstart⟩ := a.startedAt_accepted
    obtain ⟨_, hfin⟩ := a.finishedAt_accepted
    have hcontract := (requireText_isOk_iff.mp a.identity.contractId.valid).1
    have hrun : a.identity.runId.value ≠ [] := by
      intro h
      have hpattern := pattern_of_requirePattern a.identity.runId.valid
      rw [h] at hpattern
      exact absurd hpattern (by decide)
    refine ⟨a.commands_ne_nil, hb, hc, fun r hr ↦ ?_, hcontract,
      (environmentPayload_eq_ok_iff.mp henv).1, (evidenceTimestamp_eq_ok_iff.mp hfin).1, hrun,
      (evidenceTimestamp_eq_ok_iff.mp hstart).1, (usagePayload_eq_ok_iff.mp husage).1,
      a.version_accepted⟩
    obtain ⟨_, _, hbuilt⟩ := a.commands_built r hr
    exact (buildCommandResult_eq_ok_iff.mp hbuilt).2.2.1

/-- What an assembly holds can be written out, short of too large a token count. -/
theorem Assembly.written_iff (hp : PrintsNumbers) (a : Assembly) :
    (Json.obj a.evidence.payload).Written ↔
      CountPrintable a.usage.tokens.input ∧ CountPrintable a.usage.tokens.output := by
  have htexts := a.texts_encodable
  simp only [List.forall_mem_append, List.forall_mem_cons, List.forall_mem_map,
    List.not_mem_nil, false_imp_iff, implies_true, and_true] at htexts
  obtain ⟨⟨⟨⟨hversion, hcontract, hpython, huv, hprovider, hmodel, hstart, hfin⟩, hnames⟩,
    hversions⟩, hfiles⟩ := htexts
  have hcommands : ∀ r ∈ a.commands, (Json.obj r.payload).Written := fun r hr ↦ by
    obtain ⟨_, _, hbuilt⟩ := a.commands_built r hr
    exact (buildCommandResult_eq_ok_iff.mp hbuilt).2.2.2
  have henv : (Json.obj a.environment.payload).Written :=
    Environment.written_iff.mpr ⟨hpython, huv, fun p hp ↦ ⟨hnames p hp, hversions p hp⟩⟩
  have husage : (Json.obj a.usage.payload).Written ↔
      CountPrintable a.usage.tokens.input ∧ CountPrintable a.usage.tokens.output := by
    obtain ⟨_, haccepted⟩ := a.usage_accepted
    have hcost := (usagePayload_eq_ok_iff.mp haccepted).1.estimatedCostUsd
    rw [Usage.written_iff]
    exact ⟨fun h ↦ h.2.2.1,
      fun h ↦ ⟨hmodel, hprovider, h, fun cost hc ↦ (hcost cost hc).written hp⟩⟩
  rw [Evidence.written_iff, ← husage]
  constructor
  · exact fun h ↦ h.2.2.2.2.2.2.2.2.2.1
  · intro h
    exact ⟨encodable_of_objectId (pattern_of_requirePattern a.identity.baselineSha.valid),
      encodable_of_objectId (pattern_of_requireFormat a.candidate.candidateSha.valid), hfiles,
      hcommands, hcontract, henv, hfin, a.identity.runId.encodable, hstart, h, hversion⟩

/-- **The serializer accepts an assembly** exactly when both object ids have forty characters and
the token counts can be printed. -/
theorem serializes_assembly_iff (hp : PrintsNumbers) (a : Assembly) :
    (∃ b, serializeEvidence a.evidence = .ok b) ↔
      (a.identity.baselineSha.value.length = 40 ∧
        a.candidate.candidateSha.value.length = 40) ∧
      CountPrintable a.usage.tokens.input ∧ CountPrintable a.usage.tokens.output := by
  rw [← a.accepted_iff, ← a.written_iff hp, ← dumpEvidence_isOk_iff]
  simp only [serializeEvidence_eq_ok_iff, exists_and_left]

end

/-! ## Two assemblies -/

/-- The tests, run in a second and a quarter. -/
def testExecution (identity : RunIdentity) : ExecutionResult where
  request := testRequest identity
  termination := .exited
  exitCode := some 0
  stdout := ByteArray.empty
  stderr := ByteArray.empty
  startedAt := noon
  finishedAt := ⟨2026, 7, 21, 12, 0, 1, 250000, by decide⟩
  exitCode_iff := by decide
  stdout_le := (show ByteArray.empty.size ≤ 4096 by decide)
  stderr_le := (show ByteArray.empty.size ≤ 4096 by decide)
  ordered := by decide

theorem testExecution_built (identity : RunIdentity) : let _ := oneFloat; let _ := oneFloatLibrary
    ∃ r, buildCommandResult (testExecution identity) ⟨#[1]⟩ = .ok r := by
  let _ := oneFloat
  let _ := oneFloatLibrary
  refine (buildCommandResult_isOk_iff oneFloat_printsNumbers).mpr
    ⟨by decide, ⟨5 / 4, rfl, by norm_num⟩, ?_, fun n hn ↦ ?_⟩
  · exact (show ∀ t ∈ (["run", "pytest"] : List Text), Encodable t by decide)
  · rw [← Option.some.inj hn]
    exact (show (decimal 0).length ≤ maxStrDigits by decide)

/-- The evidence of a run of the tests, for a given baseline and candidate. -/
def testAssembly (baselineSha : BaselineSha) (candidateSha : CandidateSha) :
    let _ := oneFloat; let _ := oneFloatLibrary; Assembly :=
  let _ := oneFloat
  let _ := oneFloatLibrary
  let identity : RunIdentity := { storeIdentity qualityLoop with baselineSha := baselineSha }
  { identity := identity
    candidate := ⟨(testRequest identity).workspace, candidateSha⟩
    version := "1.0.0"
    environment := ⟨"3.12.13", List.replicate 64 (.scalar 'a'), [("pytest", "9.1.1")], by decide⟩
    commands := [canonicalResult (testExecution identity) ⟨#[1]⟩]
    changedFiles := ["src/example.py"]
    usage := ⟨"local", "deterministic", ⟨0, 0⟩, none⟩
    startedAt := "2026-07-21T12:00:00Z"
    finishedAt := "2026-07-21T12:00:02Z"
    candidate_bound := ⟨rfl, rfl⟩
    commands_ne_nil := List.cons_ne_nil _ _
    commands_built := by
      intro r hr
      obtain ⟨r', hr'⟩ := testExecution_built identity
      have heq := (buildCommandResult_eq_ok_iff.mp hr').2.1
      exact ⟨_, _, (List.mem_singleton.mp hr).trans heq.symm ▸ hr'⟩
    version_accepted := by decide
    environment_accepted :=
      ⟨_, environmentPayload_eq_ok_iff.mpr ⟨⟨by decide, by decide, by decide⟩, rfl⟩⟩
    usage_accepted := ⟨_, usagePayload_eq_ok_iff.mpr
      ⟨⟨by decide, by decide, by decide, by decide, fun _ h ↦ by cases h⟩, rfl⟩⟩
    startedAt_accepted := ⟨_, evidenceTimestamp_eq_ok_iff.mpr
      ⟨⟨by decide, utc noon, by decide, by decide⟩, rfl⟩⟩
    finishedAt_accepted := ⟨_, evidenceTimestamp_eq_ok_iff.mpr
      ⟨⟨by decide, utc pastNoon, by decide, by decide⟩, rfl⟩⟩
    texts_encodable := List.forall_mem_cons.mpr ⟨encodable_text _, List.forall_mem_cons.mpr
      ⟨show Encodable qualityLoop.value by decide, by decide⟩⟩ }

/-- A baseline of sixty-four characters, as the object format of SHA-256 has them. -/
def longBaseline : BaselineSha := ⟨List.replicate 64 (.scalar 'b'), by decide⟩

/-- An assembly whose object ids have forty characters is accepted. -/
theorem serializes_short_assembly : let _ := oneFloat; let _ := oneFloatLibrary
    ∃ b, serializeEvidence (testAssembly (storeIdentity qualityLoop).baselineSha
      ⟨List.replicate 40 (.scalar 'f'), by decide⟩).evidence = .ok b := by
  let _ := oneFloat
  let _ := oneFloatLibrary
  exact (serializes_assembly_iff oneFloat_printsNumbers _).mpr
    ⟨⟨rfl, rfl⟩, show (decimal 0).length ≤ maxStrDigits by decide,
      show (decimal 0).length ≤ maxStrDigits by decide⟩

/-- An assembly whose baseline has sixty-four is refused for the format of the baseline. -/
theorem refuses_long_assembly : let _ := oneFloat; let _ := oneFloatLibrary
    serializeEvidence (testAssembly longBaseline
      ⟨List.replicate 64 (.scalar 'f'), by decide⟩).evidence =
        .error (evidenceError "evidence.baseline_sha has an invalid format") := by
  let _ := oneFloat
  let _ := oneFloatLibrary
  rfl

end Alicerce
