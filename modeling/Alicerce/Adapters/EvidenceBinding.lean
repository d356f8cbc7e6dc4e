import Alicerce.Adapters.EvidenceAssembly

/-!
# Equal bytes mean equal evidence

What the bytes of an evidence determine.  Two values with one serialization are printed as one text,
and a text is taken apart by the rules of `Py.SameText`.

* `Environment.Agrees`, `CommandResult.Agrees`, `Usage.Agrees` and `Evidence.Agrees`: two values
  agree in every field, the tool versions as a mapping, and numbers as numbers (`Number.Agrees`).
* `Environment.agrees_of_sameText` and its three siblings: the payload lists the same keys whatever
  the value, so its members agree one by one, down to the commands; only the optional cost changes
  the keys, and is told from its absence by them.
* `serialization_binding`: equal bytes mean equal evidence, and so do equal digests, unless there is
  a collision of two byte strings that are named.

That the printer of floats keeps different numbers apart is not this package's doing, and is the one
assumption (`PrintsNumbers`).
-/

set_option autoImplicit false

namespace Alicerce

open Py

/-- Permuting a dictionary does not change what its keys are mapped to. -/
theorem lookup_eq_of_perm {l l' : List (Text × Text)} (hp : l.Perm l')
    (hnd : (l.map Prod.fst).Nodup) (k : Text) : l.lookup k = l'.lookup k := by
  induction hp with
  | nil => rfl
  | cons p _ ih =>
    rw [List.map_cons, List.nodup_cons] at hnd
    rw [List.lookup_cons, List.lookup_cons, ih hnd.2]
  | swap p q l =>
    rw [List.map_cons, List.map_cons, List.nodup_cons, List.mem_cons, not_or] at hnd
    rw [List.lookup_cons, List.lookup_cons, List.lookup_cons, List.lookup_cons]
    by_cases hp : k = p.1
    · have hq : k ≠ q.1 := fun hq ↦ hnd.1.1 (hq.symm.trans hp)
      rw [beq_false_of_ne hq, hp, beq_self_eq_true]
    · rw [beq_false_of_ne hp]
  | trans h₁ _ ih₁ ih₂ =>
    rw [ih₁ hnd, ih₂ ((h₁.map Prod.fst).nodup_iff.mp hnd)]

/-- Equal digests of two serializations: the serializations are equal, or they collide. -/
theorem agrees_or_collision {α : Type} {serialize : α → Except Exc Bytes} {agrees : α → α → Prop}
    (hser : ∀ a a' b, serialize a = .ok b → serialize a' = .ok b → agrees a a') {a a' : α}
    {digest : Text} (h : (serialize a).map hexdigest = .ok digest)
    (h' : (serialize a').map hexdigest = .ok digest) :
    agrees a a' ∨ ∃ b b', serialize a = .ok b ∧ serialize a' = .ok b' ∧ Collision b b' := by
  obtain ⟨b, hb, hd⟩ := map_eq_ok_iff.mp h
  obtain ⟨b', hb', hd'⟩ := map_eq_ok_iff.mp h'
  by_cases heq : b = b'
  · exact .inl (hser a a' b hb (heq ▸ hb'))
  · exact .inr ⟨b, b', hb, hb', heq, sha256_eq_of_hexdigest (hd.trans hd'.symm)⟩

section
variable [Interpreter]

/-! ## Parts of a payload with one text -/

theorem sameText_of_dumpEvidence {members members' : List (Text × Json)} {b : Bytes}
    (h : dumpEvidence members = .ok b) (h' : dumpEvidence members' = .ok b) :
    SameText (.obj members) (.obj members') := by
  obtain ⟨t, ht, hb⟩ := dumpEvidence_eq_ok_iff.mp h
  obtain ⟨t', ht', hb'⟩ := dumpEvidence_eq_ok_iff.mp h'
  exact ⟨t, ht, encodeUtf8_injective hb hb' ▸ ht'⟩

theorem eq_of_forall₂_sameText_str : ∀ {l l' : List Text},
    List.Forall₂ SameText (l.map Json.str) (l'.map Json.str) → l = l'
  | [], [], _ => rfl
  | [], _ :: _, h => by cases h
  | _ :: _, [], h => by cases h
  | s :: l, s' :: l', h => by
    rw [List.map_cons, List.map_cons, List.forall₂_cons] at h
    rw [h.1.str, eq_of_forall₂_sameText_str h.2]

/-- The pairs of a dictionary of texts with its values printed. -/
theorem dumpsMembers_str : ∀ versions : List (Text × Text),
    dumpsMembers (versions.map fun p ↦ (p.1, Json.str p.2)) =
      some (versions.map fun p ↦ (p.1, quote p.2))
  | [] => by rw [List.map_nil, dumpsMembers, List.map_nil]
  | p :: versions => by
    rw [List.map_cons, dumpsMembers, dumps, Option.bind_some, dumpsMembers_str versions,
      Option.map_some, List.map_cons]

theorem exitCode_eq_of_sameText {c c' : Option ℤ}
    (h : SameText (exitCodeJson c) (exitCodeJson c')) : c = c' := by
  cases c <;> cases c'
  · rfl
  · exact absurd h SameText.not_null_int
  · exact absurd h.symm SameText.not_null_int
  · rw [h.int]

theorem dumps_int (n : ℤ) : dumps (Number.int n).json = intRepr n := by
  rw [Number.json.eq_def, dumps]

theorem dumps_float (x : Interpreter.Float) :
    dumps (Number.float x).json = Interpreter.floatRepr x := by
  rw [Number.json.eq_def, dumps]

theorem Usage.payload_keys (u : Usage) : u.payload.map Prod.fst =
    ["model", "provider", "tokens"].map text ++
      (costMember u.estimatedCostUsd).map Prod.fst := rfl

theorem Usage.payload_keys_nodup (u : Usage) : (u.payload.map Prod.fst).Nodup := by
  rw [u.payload_keys]
  cases u.estimatedCostUsd with
  | none =>
    exact (show (["model", "provider", "tokens"].map text).Nodup by decide)
  | some cost =>
    exact (show (["model", "provider", "tokens", "estimated_cost_usd"].map text).Nodup by decide)

/-- The keys of a usage tell whether a cost is given. -/
theorem Usage.payload_keys_eq {u u' : Usage}
    (h : (u.payload.map Prod.fst).Perm (u'.payload.map Prod.fst)) :
    u.payload.map Prod.fst = u'.payload.map Prod.fst := by
  have hlength := h.length_eq
  rw [u.payload_keys, u'.payload_keys] at hlength ⊢
  cases hc : u.estimatedCostUsd <;> cases hc' : u'.estimatedCostUsd <;>
    simp_all [costMember]

variable [StandardLibrary]

/-! ## Numbers -/

/-- Two numbers are the same finite number. -/
def Number.Agrees (a b : Number) : Prop := ∃ q, a.value = some q ∧ b.value = some q

theorem Number.Accepted.exists_value {n : Number} (h : n.Accepted) : ∃ q, n.value = some q := by
  cases n with
  | int n => exact ⟨n, rfl⟩
  | float x => exact h.imp fun _ hq ↦ hq.1

/-- **Accepted numbers with one text are numerically equal.** -/
theorem Number.agrees_of_sameText (hp : PrintsNumbers) {a b : Number} (ha : a.Accepted)
    (h : SameText a.json b.json) : a.Agrees b := by
  obtain ⟨q, hq⟩ := ha.exists_value
  refine ⟨q, hq, ?_⟩
  rw [← hq]
  obtain ⟨d, hd, hd'⟩ := h
  cases a with
  | int n =>
    rw [dumps_int] at hd
    cases b with
    | int m => rw [intRepr_injective hd (dumps_int m ▸ hd')]
    | float y => exact hp.int_ne_float n y d hd (dumps_float y ▸ hd')
  | float x =>
    rw [dumps_float] at hd
    cases b with
    | int m => exact (hp.int_ne_float m x d (dumps_int m ▸ hd') hd).symm
    | float y => exact (hp.float_ne_float x y d hd (dumps_float y ▸ hd')).symm

/-! ## Agreement -/

/-- Two environments agree in every field, the tool versions as a mapping. -/
structure Environment.Agrees (e e' : Environment) : Prop where
  python : e.python = e'.python
  uvLockSha256 : e.uvLockSha256 = e'.uvLockSha256
  toolVersion : ∀ name, e.toolVersion name = e'.toolVersion name

/-- Two command results agree in every field. -/
structure CommandResult.Agrees (r r' : CommandResult) : Prop where
  command : r.command = r'.command
  termination : r.termination = r'.termination
  exitCode : r.exitCode = r'.exitCode
  stdoutSha256 : r.stdoutSha256 = r'.stdoutSha256
  stderrSha256 : r.stderrSha256 = r'.stderrSha256
  specificationSha256 : r.specificationSha256 = r'.specificationSha256
  durationS : r.durationS.Agrees r'.durationS

/-- Two usages agree in every field, a cost being absent from both or from neither. -/
structure Usage.Agrees (u u' : Usage) : Prop where
  provider : u.provider = u'.provider
  model : u.model = u'.model
  input : u.tokens.input = u'.tokens.input
  output : u.tokens.output = u'.tokens.output
  estimatedCostUsd : Option.Rel Number.Agrees u.estimatedCostUsd u'.estimatedCostUsd

/-- Two evidences agree in every field. -/
structure Evidence.Agrees (e e' : Evidence) : Prop where
  version : e.version = e'.version
  runId : e.runId = e'.runId
  contractId : e.contractId = e'.contractId
  baselineSha : e.baselineSha = e'.baselineSha
  candidateSha : e.candidateSha = e'.candidateSha
  environment : e.environment.Agrees e'.environment
  commands : List.Forall₂ CommandResult.Agrees e.commands e'.commands
  changedFiles : e.changedFiles = e'.changedFiles
  usage : e.usage.Agrees e'.usage
  startedAt : e.startedAt = e'.startedAt
  finishedAt : e.finishedAt = e'.finishedAt

/-! ## Payloads with one text -/

/-- **The text of an environment determines every field.** -/
theorem Environment.agrees_of_sameText (hp : PrintsNumbers) {e e' : Environment}
    (h : SameText (.obj e.payload) (.obj e'.payload)) : e.Agrees e' := by
  have hmembers := h.obj hp.numeral rfl
    (show (["python", "tool_versions", "uv_lock_sha256"].map text).Nodup by decide)
  simp only [Environment.payload, List.forall₂_cons, true_and] at hmembers
  obtain ⟨hpython, hversions, huv, -⟩ := hmembers
  obtain ⟨parts, parts', hparts, hparts', hperm⟩ := hversions.obj_perm hp.numeral
  rw [dumpsMembers_str, Option.some_inj] at hparts hparts'
  rw [← hparts, ← hparts'] at hperm
  have hinj : Function.Injective fun p : Text × Text ↦ (p.1, quote p.2) := fun p q hpq ↦ by
    rw [Prod.mk.injEq] at hpq
    exact Prod.ext hpq.1 (quote_injective hpq.2)
  exact ⟨hpython.str, huv.str,
    lookup_eq_of_perm ((List.map_perm_map_iff hinj).mp hperm) e.toolVersions_nodup⟩

/-- **The text of a command result determines every field.** -/
theorem CommandResult.agrees_of_sameText (hp : PrintsNumbers) {r r' : CommandResult}
    (hr : r.Accepted) (h : SameText (.obj r.payload) (.obj r'.payload)) : r.Agrees r' := by
  have hmembers := h.obj hp.numeral rfl
    (show (["command", "duration_s", "exit_code", "specification_sha256", "stderr_sha256",
      "stdout_sha256", "termination"].map text).Nodup by decide)
  simp only [CommandResult.payload, List.forall₂_cons, true_and] at hmembers
  obtain ⟨hcommand, hduration, hexit, hspec, herr, hout, hterm, -⟩ := hmembers
  exact ⟨hcommand.str, hterm.str, exitCode_eq_of_sameText hexit, hout.str, herr.str, hspec.str,
    Number.agrees_of_sameText hp hr.durationS hduration⟩

/-- **The text of a usage determines every field.** -/
theorem Usage.agrees_of_sameText (hp : PrintsNumbers) {u u' : Usage} (hu : u.Accepted)
    (h : SameText (.obj u.payload) (.obj u'.payload)) : u.Agrees u' := by
  have hkeys : (u.payload.map Prod.fst).Perm (u'.payload.map Prod.fst) := by
    obtain ⟨parts, parts', hparts, hparts', hperm⟩ := h.obj_perm hp.numeral
    rw [← dumpsMembers_keys hparts, ← dumpsMembers_keys hparts']
    exact hperm.map _
  have hmembers := h.obj hp.numeral (Usage.payload_keys_eq hkeys) u.payload_keys_nodup
  simp only [Usage.payload, List.forall₂_cons, true_and] at hmembers
  obtain ⟨hmodel, hprovider, htokens, hcost⟩ := hmembers
  have hpair := htokens.obj hp.numeral rfl (show (["input", "output"].map text).Nodup by decide)
  simp only [List.forall₂_cons, true_and] at hpair
  refine ⟨hprovider.str, hmodel.str, hpair.1.int, hpair.2.1.int, ?_⟩
  cases hc : u.estimatedCostUsd with
  | none =>
    cases hc' : u'.estimatedCostUsd with
    | none => exact .none
    | some cost' => rw [hc, hc'] at hcost; cases hcost
  | some cost =>
    cases hc' : u'.estimatedCostUsd with
    | none => rw [hc, hc'] at hcost; cases hcost
    | some cost' =>
      rw [hc, hc'] at hcost
      simp only [costMember, Option.map_some, Option.toList_some, List.forall₂_cons] at hcost
      exact .some (Number.agrees_of_sameText hp (hu.estimatedCostUsd cost hc) hcost.1.2)

/-- The commands of two evidences agree one by one. -/
theorem commands_agree_of_sameText (hp : PrintsNumbers) : ∀ {l l' : List CommandResult},
    (∀ r ∈ l, r.Accepted) → List.Forall₂ SameText (l.map fun r ↦ .obj r.payload)
      (l'.map fun r ↦ .obj r.payload) → List.Forall₂ CommandResult.Agrees l l'
  | [], [], _, _ => .nil
  | [], _ :: _, _, h => by cases h
  | _ :: _, [], _, h => by cases h
  | r :: l, r' :: l', hl, h => by
    rw [List.map_cons, List.map_cons, List.forall₂_cons] at h
    rw [List.forall_mem_cons] at hl
    exact .cons (CommandResult.agrees_of_sameText hp hl.1 h.1)
      (commands_agree_of_sameText hp hl.2 h.2)

/-- **The text of an evidence determines every field.** -/
theorem Evidence.agrees_of_sameText (hp : PrintsNumbers) {e e' : Evidence} (he : e.Accepted)
    (h : SameText (.obj e.payload) (.obj e'.payload)) : e.Agrees e' := by
  have hmembers := h.obj hp.numeral rfl
    (show (["baseline_sha", "candidate_sha", "changed_files", "commands", "contract_id",
      "environment", "finished_at", "run_id", "started_at", "usage", "version"].map text).Nodup
      by decide)
  simp only [Evidence.payload, List.forall₂_cons, true_and] at hmembers
  obtain ⟨hbase, hcand, hfiles, hcommands, hcontract, henv, hfin, hrun, hstart, husage, hversion,
    -⟩ := hmembers
  exact ⟨hversion.str, hrun.str, hcontract.str, hbase.str, hcand.str,
    Environment.agrees_of_sameText hp henv,
    commands_agree_of_sameText hp he.commands (hcommands.arr hp.numeral),
    eq_of_forall₂_sameText_str (hfiles.arr hp.numeral),
    Usage.agrees_of_sameText hp he.usage husage, hstart.str, hfin.str⟩

/-! ## Equal bytes, equal digests -/

/-- **Equal bytes mean equal evidence**, environments and command results, and so do equal digests
unless the bytes collide. -/
theorem serialization_binding (hp : PrintsNumbers) :
    (∀ e e' b, serializeEvidence e = .ok b → serializeEvidence e' = .ok b → e.Agrees e') ∧
    (∀ e e' b, serializeEnvironment e = .ok b → serializeEnvironment e' = .ok b → e.Agrees e') ∧
    (∀ r r' b, serializeCommandResult r = .ok b → serializeCommandResult r' = .ok b →
      r.Agrees r') ∧
    (∀ e e' digest, hashEvidence e = .ok digest → hashEvidence e' = .ok digest → e.Agrees e' ∨
      ∃ b b', serializeEvidence e = .ok b ∧ serializeEvidence e' = .ok b' ∧ Collision b b') ∧
    (∀ e e' digest, hashEnvironment e = .ok digest → hashEnvironment e' = .ok digest →
      e.Agrees e' ∨ ∃ b b', serializeEnvironment e = .ok b ∧ serializeEnvironment e' = .ok b' ∧
        Collision b b') ∧
    ∀ r r' digest, hashCommandResult r = .ok digest → hashCommandResult r' = .ok digest →
      r.Agrees r' ∨ ∃ b b', serializeCommandResult r = .ok b ∧ serializeCommandResult r' = .ok b' ∧
        Collision b b' := by
  have hevidence : ∀ e e' b, serializeEvidence e = .ok b → serializeEvidence e' = .ok b →
      e.Agrees e' := by
    intro e e' b h h'
    obtain ⟨he, hb⟩ := serializeEvidence_eq_ok_iff.mp h
    exact Evidence.agrees_of_sameText hp he
      (sameText_of_dumpEvidence hb (serializeEvidence_eq_ok_iff.mp h').2)
  have henvironment : ∀ e e' b, serializeEnvironment e = .ok b → serializeEnvironment e' = .ok b →
      e.Agrees e' := by
    intro e e' b h h'
    exact Environment.agrees_of_sameText hp (sameText_of_dumpEvidence
      (serializeEnvironment_eq_ok_iff.mp h).2 (serializeEnvironment_eq_ok_iff.mp h').2)
  have hcommand : ∀ r r' b, serializeCommandResult r = .ok b → serializeCommandResult r' = .ok b →
      r.Agrees r' := by
    intro r r' b h h'
    obtain ⟨hr, hb⟩ := serializeCommandResult_eq_ok_iff.mp h
    exact CommandResult.agrees_of_sameText hp hr
      (sameText_of_dumpEvidence hb (serializeCommandResult_eq_ok_iff.mp h').2)
  exact ⟨hevidence, henvironment, hcommand, fun _ _ _ ↦ agrees_or_collision hevidence,
    fun _ _ _ ↦ agrees_or_collision henvironment, fun _ _ _ ↦ agrees_or_collision hcommand⟩

end

/-- An environment with two tools. -/
def twoTools : Environment :=
  ⟨"3.12.13", List.replicate 64 (.scalar 'a'), [("pytest", "9.1.1"), ("ruff", "0.15.21")],
    by decide⟩

/-- The same environment, with its tools in the other order. -/
def twoToolsSwapped : Environment :=
  ⟨"3.12.13", List.replicate 64 (.scalar 'a'), [("ruff", "0.15.21"), ("pytest", "9.1.1")],
    by decide⟩

/-- Two orders of the tools have one serialization, which binds what they are mapped to. -/
theorem serialization_binding_tools : let _ := oneFloat; let _ := oneFloatLibrary
    ∃ b, serializeEnvironment twoTools = .ok b ∧ serializeEnvironment twoToolsSwapped = .ok b ∧
      twoTools.Agrees twoToolsSwapped := by
  let _ := oneFloat
  let _ := oneFloatLibrary
  have hversions : dumps (.obj (twoTools.toolVersions.map fun p ↦ (p.1, Json.str p.2))) =
      dumps (.obj (twoToolsSwapped.toolVersions.map fun p ↦ (p.1, Json.str p.2))) :=
    dumps_obj_perm (.swap _ _ []) (by decide)
  have hsame : dumps (.obj twoTools.payload) = dumps (.obj twoToolsSwapped.payload) := by
    have hmembers : twoTools.payload.map (fun m ↦ (m.1, dumps m.2)) =
        twoToolsSwapped.payload.map fun m ↦ (m.1, dumps m.2) := by
      simp only [Environment.payload, List.map_cons, List.map_nil, hversions]
      rfl
    rw [dumps, dumps, dumpsMembers_congr hmembers]
  have haccepted : twoTools.Accepted ∧ twoToolsSwapped.Accepted :=
    ⟨⟨by decide, by decide, by decide⟩, ⟨by decide, by decide, by decide⟩⟩
  have hwritten : (Json.obj twoTools.payload).Written :=
    Environment.written_iff.mpr ⟨by decide, by decide, by decide⟩
  obtain ⟨b, hb⟩ := dumpEvidence_isOk_iff.mpr hwritten
  have h : serializeEnvironment twoTools = .ok b :=
    serializeEnvironment_eq_ok_iff.mpr ⟨haccepted.1, hb⟩
  have h' : serializeEnvironment twoToolsSwapped = .ok b := by
    rw [serializeEnvironment_eq_ok_iff, dumpEvidence_eq_ok_iff, ← hsame, ← dumpEvidence_eq_ok_iff]
    exact ⟨haccepted.2, hb⟩
  exact ⟨b, h, h', (serialization_binding oneFloat_printsNumbers).2.1 _ _ b h h'⟩

end Alicerce
