import Alicerce.Adapters.EvidenceBinding

/-!
# Equal evidence and its bytes

Python compares evidence field by field: mappings whatever the order of their keys, numbers as
numbers.

* `Environment.Agrees.dumps_eq`: the serializer sorts the keys, so the order of a mapping leaves no
  trace in the bytes.
* `Evidence.numbers` are the numbers of an evidence.  A number is printed as it is given: `1` and
  `1.0` are equal and printed differently, and so are the two zeros.
* `Evidence.Agrees.dumps_eq` and `Evidence.numbers_eq_of_sameText`: equal evidence has one text
  when, and only when, its numbers are the same as objects.
* `equal_evidence_bytes` says so of the bytes and of the digests; `DistinctReprs` is what is relied
  on of the texts of numbers.
-/

set_option autoImplicit false

namespace Alicerce

open Py

section
variable [Interpreter]

/-- The texts of numbers tell an integer from a float, and a float from every other: `repr` of a
float has a point or an exponent, and reads back as the float. -/
structure DistinctReprs : Prop where
  float_injective : ∀ (x y : Interpreter.Float) (d : Text), Interpreter.floatRepr x = some d →
    Interpreter.floatRepr y = some d → x = y
  int_ne_float : ∀ (n : ℤ) (x : Interpreter.Float) (d : Text), intRepr n = some d →
    Interpreter.floatRepr x ≠ some d

/-- Numbers with one text are one number, of one type. -/
theorem Number.eq_of_sameText (hd : DistinctReprs) {a b : Number} (h : SameText a.json b.json) :
    a = b := by
  obtain ⟨d, ha, hb⟩ := h
  cases a with
  | int n =>
    rw [dumps_int] at ha
    cases b with
    | int m =>
      rw [dumps_int] at hb
      rw [intRepr_injective ha hb]
    | float y =>
      rw [dumps_float] at hb
      exact absurd hb (hd.int_ne_float n y d ha)
  | float x =>
    rw [dumps_float] at ha
    cases b with
    | int m =>
      rw [dumps_int] at hb
      exact absurd ha (hd.int_ne_float m x d hb)
    | float y =>
      rw [dumps_float] at hb
      rw [hd.float_injective x y d ha hb]

theorem CommandResult.durationS_eq_of_sameText (hf : FloatsPrintNumerals) (hd : DistinctReprs)
    {r r' : CommandResult} (h : SameText (.obj r.payload) (.obj r'.payload)) :
    r.durationS = r'.durationS := by
  have hmembers := h.obj hf rfl
    (show (["command", "duration_s", "exit_code", "specification_sha256", "stderr_sha256",
      "stdout_sha256", "termination"].map text).Nodup by decide)
  simp only [CommandResult.payload, List.forall₂_cons, true_and] at hmembers
  exact Number.eq_of_sameText hd hmembers.2.1

theorem durations_eq_of_sameText (hf : FloatsPrintNumerals) (hd : DistinctReprs) :
    ∀ {l l' : List CommandResult}, List.Forall₂ SameText (l.map fun r ↦ .obj r.payload)
      (l'.map fun r ↦ .obj r.payload) → l.map (·.durationS) = l'.map (·.durationS)
  | [], [], _ => rfl
  | [], _ :: _, h => by cases h
  | _ :: _, [], h => by cases h
  | r :: l, r' :: l', h => by
    rw [List.map_cons, List.map_cons, List.forall₂_cons] at h
    rw [List.map_cons, List.map_cons, CommandResult.durationS_eq_of_sameText hf hd h.1,
      durations_eq_of_sameText hf hd h.2]

/-! ## Equal environments -/

/-- **Equal environments are printed alike**, whatever the order of their tools. -/
theorem Environment.Agrees.dumps_eq {e e' : Environment} (h : e.Agrees e') :
    dumps (.obj e.payload) = dumps (.obj e'.payload) := by
  have hperm := perm_of_lookup_eq e.toolVersions_nodup e'.toolVersions_nodup h.toolVersion
  have hkeys : ((e.toolVersions.map fun p ↦ (p.1, Json.str p.2)).map Prod.fst).Nodup := by
    rw [List.map_map]
    exact e.toolVersions_nodup
  have hversions := dumps_obj_perm (hperm.map fun p ↦ (p.1, Json.str p.2)) hkeys
  have hmembers : e.payload.map (fun m ↦ (m.1, dumps m.2)) =
      e'.payload.map fun m ↦ (m.1, dumps m.2) := by
    simp only [Environment.payload, List.map_cons, List.map_nil, hversions, h.python,
      h.uvLockSha256]
  rw [dumps, dumps, dumpsMembers_congr hmembers]

theorem bytes_eq_of_dumps_eq {members members' : List (Text × Json)} {b b' : Bytes}
    (h : dumpEvidence members = .ok b) (h' : dumpEvidence members' = .ok b')
    (heq : dumps (.obj members) = dumps (.obj members')) : b = b' := by
  rw [dumpEvidence_eq_ok_iff, heq] at h
  rw [dumpEvidence_eq_ok_iff] at h'
  obtain ⟨t, ht, hb⟩ := h
  obtain ⟨t', ht', hb'⟩ := h'
  obtain rfl := Option.some.inj (ht.symm.trans ht')
  exact Option.some.inj (hb.symm.trans hb')

variable [StandardLibrary]

/-! ## Equal values, up to their numbers -/

/-- The numbers of an evidence: how long each command took, and what was paid. -/
def Evidence.numbers (e : Evidence) : List Number × Option Number :=
  (e.commands.map (·.durationS), e.usage.estimatedCostUsd)

theorem CommandResult.Agrees.eq {r r' : CommandResult} (h : r.Agrees r')
    (hduration : r.durationS = r'.durationS) : r = r' := by
  obtain ⟨hcommand, htermination, hexit, hout, herr, hspec, -⟩ := h
  cases r
  cases r'
  simp_all

theorem Usage.Agrees.eq {u u' : Usage} (h : u.Agrees u')
    (hcost : u.estimatedCostUsd = u'.estimatedCostUsd) : u = u' := by
  obtain ⟨hprovider, hmodel, hinput, houtput, -⟩ := h
  obtain ⟨provider, model, ⟨input, output⟩, cost⟩ := u
  obtain ⟨provider', model', ⟨input', output'⟩, cost'⟩ := u'
  simp_all

theorem commands_eq_of_agrees {l l' : List CommandResult}
    (h : List.Forall₂ CommandResult.Agrees l l')
    (hdurations : l.map (·.durationS) = l'.map (·.durationS)) : l = l' := by
  induction h with
  | nil => rfl
  | cons hr _ ih =>
    rw [List.map_cons, List.map_cons, List.cons.injEq] at hdurations
    rw [hr.eq hdurations.1, ih hdurations.2]

/-- **Equal evidence with the same numbers is printed alike.** -/
theorem Evidence.Agrees.dumps_eq {e e' : Evidence} (h : e.Agrees e')
    (hnumbers : e.numbers = e'.numbers) : dumps (.obj e.payload) = dumps (.obj e'.payload) := by
  rw [Evidence.numbers, Evidence.numbers, Prod.mk.injEq] at hnumbers
  have hcommands := commands_eq_of_agrees h.commands hnumbers.1
  have husage := h.usage.eq hnumbers.2
  have hmembers : e.payload.map (fun m ↦ (m.1, dumps m.2)) =
      e'.payload.map fun m ↦ (m.1, dumps m.2) := by
    simp only [Evidence.payload, List.map_cons, List.map_nil, h.environment.dumps_eq, hcommands,
      husage, h.version, h.runId, h.contractId, h.baselineSha, h.candidateSha, h.changedFiles,
      h.startedAt, h.finishedAt]
  rw [dumps, dumps, dumpsMembers_congr hmembers]

theorem Usage.cost_eq_of_sameText (hf : FloatsPrintNumerals) (hd : DistinctReprs) {u u' : Usage}
    (hrel : Option.Rel Number.Agrees u.estimatedCostUsd u'.estimatedCostUsd)
    (h : SameText (.obj u.payload) (.obj u'.payload)) :
    u.estimatedCostUsd = u'.estimatedCostUsd := by
  cases hc : u.estimatedCostUsd with
  | none =>
    rw [hc] at hrel
    cases hc' : u'.estimatedCostUsd with
    | none => rfl
    | some cost' => rw [hc'] at hrel; cases hrel
  | some cost =>
    rw [hc] at hrel
    cases hc' : u'.estimatedCostUsd with
    | none => rw [hc'] at hrel; cases hrel
    | some cost' =>
      have hkeys : u.payload.map Prod.fst = u'.payload.map Prod.fst := by
        rw [u.payload_keys, u'.payload_keys, hc, hc']
        rfl
      have hmembers := h.obj hf hkeys u.payload_keys_nodup
      simp only [Usage.payload, hc, hc', costMember, Option.map_some, Option.toList_some,
        List.forall₂_cons, true_and] at hmembers
      rw [Number.eq_of_sameText hd hmembers.2.2.2.1]

/-- **Equal evidence with one text has the same numbers.** -/
theorem Evidence.numbers_eq_of_sameText (hf : FloatsPrintNumerals) (hd : DistinctReprs)
    {e e' : Evidence} (hagrees : e.Agrees e') (h : SameText (.obj e.payload) (.obj e'.payload)) :
    e.numbers = e'.numbers := by
  have hmembers := h.obj hf rfl
    (show (["baseline_sha", "candidate_sha", "changed_files", "commands", "contract_id",
      "environment", "finished_at", "run_id", "started_at", "usage", "version"].map text).Nodup
      by decide)
  simp only [Evidence.payload, List.forall₂_cons, true_and] at hmembers
  obtain ⟨-, -, -, hcommands, -, -, -, -, -, husage, -⟩ := hmembers
  exact Prod.ext (durations_eq_of_sameText hf hd (hcommands.arr hf))
    (Usage.cost_eq_of_sameText hf hd hagrees.usage.estimatedCostUsd husage)

/-! ## The bytes of equal evidence -/

/-- **Equal evidence has equal bytes, and therefore equal hashes, when its numbers are the same**,
and for evidence and command results only then; equal environments always have. -/
theorem equal_evidence_bytes :
    (∀ e e' b b', serializeEvidence e = .ok b → serializeEvidence e' = .ok b' → e.Agrees e' →
      (e.numbers = e'.numbers → b = b' ∧ hashEvidence e = hashEvidence e') ∧
      (FloatsPrintNumerals → DistinctReprs → b = b' → e.numbers = e'.numbers)) ∧
    (∀ r r' b b', serializeCommandResult r = .ok b → serializeCommandResult r' = .ok b' →
      r.Agrees r' →
      (r.durationS = r'.durationS → b = b' ∧ hashCommandResult r = hashCommandResult r') ∧
      (FloatsPrintNumerals → DistinctReprs → b = b' → r.durationS = r'.durationS)) ∧
    ∀ e e' b b', serializeEnvironment e = .ok b → serializeEnvironment e' = .ok b' →
      e.Agrees e' → b = b' ∧ hashEnvironment e = hashEnvironment e' := by
  refine ⟨fun e e' b b' h h' hagrees ↦ ⟨fun hnumbers ↦ ?_, fun hf hd heq ↦ ?_⟩,
    fun r r' b b' h h' hagrees ↦ ⟨fun hduration ↦ ?_, fun hf hd heq ↦ ?_⟩,
    fun e e' b b' h h' hagrees ↦ ?_⟩
  · obtain rfl := bytes_eq_of_dumps_eq (serializeEvidence_eq_ok_iff.mp h).2
      (serializeEvidence_eq_ok_iff.mp h').2 (hagrees.dumps_eq hnumbers)
    exact ⟨rfl, by rw [hashEvidence, hashEvidence, h, h']⟩
  · subst heq
    exact Evidence.numbers_eq_of_sameText hf hd hagrees (sameText_of_dumpEvidence
      (serializeEvidence_eq_ok_iff.mp h).2 (serializeEvidence_eq_ok_iff.mp h').2)
  · obtain rfl := hagrees.eq hduration
    exact ⟨Except.ok.inj (h.symm.trans h'), rfl⟩
  · subst heq
    exact CommandResult.durationS_eq_of_sameText hf hd (sameText_of_dumpEvidence
      (serializeCommandResult_eq_ok_iff.mp h).2 (serializeCommandResult_eq_ok_iff.mp h').2)
  · obtain rfl := bytes_eq_of_dumps_eq (serializeEnvironment_eq_ok_iff.mp h).2
      (serializeEnvironment_eq_ok_iff.mp h').2 hagrees.dumps_eq
    exact ⟨rfl, by rw [hashEnvironment, hashEnvironment, h, h']⟩

end

/-! ## Two zeros -/

/-- An interpreter whose floats are the two zeros; `true` is the negative one. -/
@[reducible] def zeros : Interpreter :=
  { Interpreter.plain with
    Float := Bool
    floatOf := fun _ ↦ false
    floatRepr := fun negative ↦ some (if negative then "-0.0" else "0.0") }

/-- The standard library of that interpreter. -/
@[reducible] def zerosLibrary : @StandardLibrary zeros :=
  let _ := zeros
  { value := fun _ ↦ some 0
    divide := fun _ _ ↦ false
    add := fun _ _ ↦ false
    fromisoformat := fun _ ↦ some (utc noon) }

theorem zeros_floatsPrintNumerals : @FloatsPrintNumerals zeros := by
  let _ := zeros
  intro x d hd
  obtain rfl := Option.some.inj hd
  cases x <;> exact ⟨by decide, by decide⟩

theorem zeros_distinctReprs : @DistinctReprs zeros := by
  let _ := zeros
  refine ⟨fun x y d hx hy ↦ ?_, fun n x d hn hx ↦ ?_⟩
  · have hxy := hx.trans hy.symm
    cases x <;> cases y <;> first | rfl | exact absurd hxy (by decide)
  · obtain rfl := Option.some.inj hx
    exact absurd (show CodePoint.scalar '.' ∈ _ by cases x <;> decide) (point_not_mem_intRepr hn)

/-- An evidence that costs nothing, in one of the two zeros. -/
def freeEvidence (negative : Bool) : let _ := zeros; Evidence :=
  let _ := zeros
  { version := "1.0.0"
    runId := "run-1"
    contractId := "quality"
    baselineSha := List.replicate 40 (.scalar 'e')
    candidateSha := List.replicate 40 (.scalar 'f')
    environment := ⟨"3.12.13", List.replicate 64 (.scalar 'a'), [("pytest", "9.1.1")],
      List.nodup_singleton _⟩
    commands := [⟨"uv run pytest", "EXITED", some 0, List.replicate 64 (.scalar 'b'),
      List.replicate 64 (.scalar 'c'), List.replicate 64 (.scalar 'd'), .int 0⟩]
    changedFiles := []
    usage := ⟨"local", "deterministic", ⟨0, 0⟩, some (.float negative)⟩
    startedAt := "2026-07-21T12:00:00Z"
    finishedAt := "2026-07-21T12:00:02Z" }

theorem freeEvidence_serialized (negative : Bool) : let _ := zeros; let _ := zerosLibrary
    ∃ b, serializeEvidence (freeEvidence negative) = .ok b := by
  let _ := zeros
  let _ := zerosLibrary
  have hdigits : (decimal 0).length ≤ maxStrDigits := by decide
  have hint : (Number.int 0).Accepted := ⟨show 0 < floatOverflow by decide +kernel, le_rfl⟩
  have htime : ∀ t : Text, t ≠ [] → TimestampAccepted t := fun t ht ↦
    ⟨ht, utc noon, rfl, by decide⟩
  have haccepted : (freeEvidence negative).Accepted := by
    constructor <;> simp only [freeEvidence]
    case commands_ne_nil => exact List.cons_ne_nil _ _
    case commands =>
      exact List.forall_mem_singleton.mpr
        ⟨by decide, by decide, by decide, hint, by decide, by decide, by decide⟩
    case environment => exact ⟨by decide, by decide, by decide⟩
    case finishedAt | startedAt => exact htime _ (by decide)
    case usage =>
      exact ⟨List.cons_ne_nil _ _, List.cons_ne_nil _ _, le_rfl, le_rfl, fun cost hcost ↦
        Option.some.inj hcost ▸ ⟨0, rfl, le_rfl⟩⟩
    all_goals decide
  have hcost : (Number.float negative).json.Written :=
    written_float_iff.mpr ⟨_, rfl, by cases negative <;> decide⟩
  have hwritten : (Json.obj (freeEvidence negative).payload).Written := by
    rw [Evidence.written_iff]
    simp only [freeEvidence]
    refine ⟨by decide, by decide, by decide, ?_, by decide, ?_, by decide, by decide, by decide,
      ?_, by decide⟩
    · refine List.forall_mem_singleton.mpr ?_
      rw [CommandResult.payload, written_obj_iff]
      simp only [List.forall_mem_cons, written_str_iff, exitCodeJson, Number.json, written_int_iff]
      exact ⟨by decide, by decide, by decide, by decide, by decide, by decide, by decide, by simp⟩
    · exact Environment.written_iff.mpr ⟨by decide, by decide, by decide⟩
    · exact Usage.written_iff.mpr ⟨encodable_text _, encodable_text _, ⟨hdigits, hdigits⟩,
        fun cost hc ↦ Option.some.inj hc ▸ hcost⟩
  obtain ⟨b, hb⟩ := dumpEvidence_isOk_iff.mpr hwritten
  exact ⟨b, serializeEvidence_eq_ok_iff.mpr ⟨haccepted, hb⟩⟩

/-- Two zeros are equal, and two evidences that differ in them have different bytes. -/
theorem zero_costs_differ : let _ := zeros; let _ := zerosLibrary
    ∃ b b', serializeEvidence (freeEvidence false) = .ok b ∧
      serializeEvidence (freeEvidence true) = .ok b' ∧
      (freeEvidence false).Agrees (freeEvidence true) ∧ b ≠ b' := by
  let _ := zeros
  let _ := zerosLibrary
  obtain ⟨b, hb⟩ := freeEvidence_serialized false
  obtain ⟨b', hb'⟩ := freeEvidence_serialized true
  have hagrees : (freeEvidence false).Agrees (freeEvidence true) :=
    ⟨rfl, rfl, rfl, rfl, rfl, ⟨rfl, rfl, fun _ ↦ rfl⟩,
      .cons ⟨rfl, rfl, rfl, rfl, rfl, rfl, 0, rfl, rfl⟩ .nil, rfl,
      ⟨rfl, rfl, rfl, rfl, .some ⟨0, rfl, rfl⟩⟩, rfl, rfl⟩
  refine ⟨b, b', hb, hb', hagrees, ?_⟩
  rintro rfl
  have hnumbers := Evidence.numbers_eq_of_sameText zeros_floatsPrintNumerals zeros_distinctReprs
    hagrees (sameText_of_dumpEvidence (serializeEvidence_eq_ok_iff.mp hb).2
      (serializeEvidence_eq_ok_iff.mp hb').2)
  have hcost := congrArg Prod.snd hnumbers
  simp only [Evidence.numbers, freeEvidence, Option.some.injEq, Number.float.injEq] at hcost
  exact Bool.false_ne_true hcost

end Alicerce
