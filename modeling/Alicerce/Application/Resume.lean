import Alicerce.Adapters.StoreRuns
import Alicerce.Domain.ContractBinding

/-!
# Resuming a run

A run is bound to its contract, its baseline and its policy when its identity is created, and it
continues only while all three are what they were.

* `createRunIdentity` creates an identity, and `BoundTo` says of one what it was created for.
* `contractMatches` compares an identity with a contract; it does so by the bytes, or there is a
  collision (`contractMatches_iff`).
* `loadRunForResume` loads a run and makes its checks (`checkResume`), in their order.
* `resume_exact` puts the two together, with the store and any history of the run between them: a
  run resumes when, and only when, nothing it was bound to has changed, and the error names the
  first binding that has.
-/

set_option autoImplicit false

namespace Alicerce

open Py Lib Program Client

section
variable [Interpreter] [LoopSchemas]

/-! ## Binding a run -/

/-- `create_run_identity`, with what the clock and the id generator return. -/
def createRunIdentity (bound : BoundContract) (baselineSha : BaselineSha) (policyHash : PolicyHash)
    (nowUtc : DateTime) (newRunId : RunId) : Except Exc RunIdentity := do
  let contractId ← Checked.new (requireText "contract_id") (LoopSchemas.id bound.contract)
  let contractVersion ←
    Checked.new (requireText "contract_version") (LoopSchemas.version bound.contract)
  RunIdentity.new newRunId contractId contractVersion bound.contractHash baselineSha policyHash
    nowUtc

/-- An identity was created for a run under a contract, a baseline and a policy. -/
def BoundTo (identity : RunIdentity) (bound : BoundContract) (baselineSha : BaselineSha)
    (policyHash : PolicyHash) : Prop :=
  ∃ nowUtc newRunId, createRunIdentity bound baselineSha policyHash nowUtc newRunId = .ok identity

/-- The fields of an identity are the bindings it was created with. -/
theorem boundTo_iff {identity : RunIdentity} {bound : BoundContract} {baselineSha : BaselineSha}
    {policyHash : PolicyHash} : BoundTo identity bound baselineSha policyHash ↔
      identity.contractId.value = LoopSchemas.id bound.contract ∧
        identity.contractVersion.value = LoopSchemas.version bound.contract ∧
        identity.contractHash = bound.contractHash ∧ identity.baselineSha = baselineSha ∧
          identity.policyHash = policyHash := by
  simp only [BoundTo, createRunIdentity, RunIdentity.new, bind_eq_ok_iff, Checked.new_eq_ok_iff,
    requireUtc_eq_ok_iff, Except.ok.injEq]
  constructor
  · rintro ⟨_, _, contractId, hid, contractVersion, hversion, _, -, rfl⟩
    exact ⟨hid, hversion, rfl, rfl, rfl⟩
  · rintro ⟨hid, hversion, hhash, hbaseline, hpolicy⟩
    refine ⟨utc identity.createdAt, identity.runId, identity.contractId, hid,
      identity.contractVersion, hversion, identity.createdAt, rfl, ?_⟩
    rw [← hhash, ← hbaseline, ← hpolicy]

/-! ## Resuming it -/

/-- Whether an identity is the one of a contract. -/
def contractMatches (identity : RunIdentity) (bound : BoundContract) : Except Exc Bool := do
  let contractId ← Checked.new (requireText "contract_id") (LoopSchemas.id bound.contract)
  if identity.contractId ≠ contractId then .ok false
  else do
    let contractVersion ←
      Checked.new (requireText "contract_version") (LoopSchemas.version bound.contract)
    .ok (identity.contractVersion = contractVersion ∧ identity.contractHash = bound.contractHash)

/-- The checks of `load_run_for_resume` on what was loaded. -/
def checkResume (runId : RunId) (bound : BoundContract) (baselineSha : BaselineSha)
    (policyHash : PolicyHash) : Option RunCheckpoint → Except Exc RunCheckpoint
  | none => .error (.resumeError .notFound runId.value)
  | some checkpoint => do
    let identity := checkpoint.identity
    if identity.runId ≠ runId then
      .error (.resumeError .runMismatch "persisted checkpoint does not match the requested run")
    else do
      let same ← contractMatches identity bound
      if !same then
        .error (.resumeError .contractMismatch "persisted contract binding has changed")
      else if identity.baselineSha ≠ baselineSha then
        .error (.resumeError .baselineMismatch "persisted baseline binding has changed")
      else if identity.policyHash ≠ policyHash then
        .error (.resumeError .policyMismatch "persisted policy binding has changed")
      else if checkpoint.lifecycle.state = .completed then
        .error (.resumeError .terminalRun
          "completed run cannot resume working-state execution")
      else .ok checkpoint

/-- `load_run_for_resume`. -/
def loadRunForResume (runId : RunId) (bound : BoundContract) (baselineSha : BaselineSha)
    (policyHash : PolicyHash) : Store RunCheckpoint := do
  let loaded ← load runId
  lift (checkResume runId bound baselineSha policyHash loaded)

/-- The validator of the schemas package admits only ids and versions that the identity of a run can
hold. -/
def AdmitsIds : Prop :=
  ∀ members contract, LoopSchemas.validate members = .ok [] →
    LoopSchemas.fromDict members = .ok contract →
      (requireText "contract_id" (LoopSchemas.id contract)).isOk = true ∧
        (requireText "contract_version" (LoopSchemas.version contract)).isOk = true

/-- Under such a validator the id and the version of a bound contract are valid. -/
theorem AdmitsIds.bound (h : AdmitsIds) (b : BoundContract) :
    (requireText "contract_id" (LoopSchemas.id b.contract)).isOk = true ∧
      (requireText "contract_version" (LoopSchemas.version b.contract)).isOk = true := by
  have hparsed := b.parsed
  rw [parseContract] at hparsed
  obtain ⟨t, -, hparsed⟩ := bind_eq_ok_iff.mp hparsed
  obtain ⟨decoded, -, hparsed⟩ := bind_eq_ok_iff.mp hparsed
  cases decoded with
  | obj document =>
    obtain ⟨errors, herrors, hparsed⟩ := bind_eq_ok_iff.mp hparsed
    split at hparsed
    · exact absurd hparsed (by simp)
    · rename_i hnil
      rw [translate_eq_ok_iff] at herrors hparsed
      exact h document b.contract (not_not.mp hnil ▸ herrors) hparsed
  | _ => exact absurd hparsed (by simp)

/-- **An identity matches a contract when it was bound to the same bytes**, or there is a
collision. -/
theorem contractMatches_iff (hids : AdmitsIds) {identity : RunIdentity}
    {bound bound' : BoundContract} {baselineSha : BaselineSha} {policyHash : PolicyHash}
    (hbound : BoundTo identity bound baselineSha policyHash)
    (hcollision : ¬Collision bound'.sourceBytes bound.sourceBytes) :
    contractMatches identity bound' = .ok (decide (bound'.sourceBytes = bound.sourceBytes)) := by
  obtain ⟨hid, hversion, hhash, -, -⟩ := boundTo_iff.mp hbound
  obtain ⟨hid', hversion'⟩ := hids.bound bound'
  have hnewId : Checked.new (requireText "contract_id") (LoopSchemas.id bound'.contract) =
      .ok ⟨_, hid'⟩ := Checked.new_eq_ok_iff.mpr rfl
  have hnewVersion : Checked.new (requireText "contract_version")
      (LoopSchemas.version bound'.contract) = .ok ⟨_, hversion'⟩ := Checked.new_eq_ok_iff.mpr rfl
  rw [contractMatches, hnewId, ok_bind]
  by_cases hsource : bound'.sourceBytes = bound.sourceBytes
  · obtain rfl := BoundContract.eq_of_sourceBytes hsource
    rw [if_neg (not_not.mpr (Checked.ext hid)), hnewVersion, ok_bind, hhash]
    simp [Checked.ext_iff, hversion]
  · have hne : identity.contractHash ≠ bound'.contractHash := by
      rw [hhash]
      exact fun heq ↦ hsource (sourceBytes_eq_of_hash heq.symm hcollision)
    rw [hnewVersion, ok_bind, decide_eq_false hsource]
    split
    · rfl
    · simp [hne]

/-- What resuming comes to, when the run is there. -/
theorem checkResume_eq (hids : AdmitsIds) {checkpoint : RunCheckpoint}
    {bound bound' : BoundContract}
    {baselineSha baselineSha' : BaselineSha} {policyHash policyHash' : PolicyHash}
    (hbound : BoundTo checkpoint.identity bound baselineSha policyHash)
    (hcollision : ¬Collision bound'.sourceBytes bound.sourceBytes) :
    checkResume checkpoint.identity.runId bound' baselineSha' policyHash' (some checkpoint) =
      if bound'.sourceBytes ≠ bound.sourceBytes then
        .error (.resumeError .contractMismatch "persisted contract binding has changed")
      else if baselineSha ≠ baselineSha' then
        .error (.resumeError .baselineMismatch "persisted baseline binding has changed")
      else if policyHash ≠ policyHash' then
        .error (.resumeError .policyMismatch "persisted policy binding has changed")
      else if checkpoint.lifecycle.state = .completed then
        .error (.resumeError .terminalRun "completed run cannot resume working-state execution")
      else .ok checkpoint := by
  obtain ⟨-, -, -, hbaseline, hpolicy⟩ := boundTo_iff.mp hbound
  rw [checkResume, if_neg (not_not.mpr rfl), contractMatches_iff hids hbound hcollision, ok_bind,
    hbaseline, hpolicy]
  simp only [Bool.not_eq_true', decide_eq_false_iff_not, ne_eq]

/-! ## Resuming from a store -/

/-- Resuming reads, and nothing else. -/
theorem loadRunForResume_run (env : StoreEnv) (runId : RunId) (bound : BoundContract)
    (baselineSha : BaselineSha) (policyHash : PolicyHash) :
    loadRunForResume runId bound baselineSha policyHash env.toEnv .initial =
      ((load runId).result env >>= checkResume runId bound baselineSha policyHash, .initial) := by
  have hrun : load runId env.toEnv .initial = ((load runId).result env, .initial) := by
    rw [Store.result, load_run]
  cases hload : (load runId).result env with
  | ok loaded => exact run_bind_ok (hrun.trans (by rw [hload]))
  | error e => exact run_bind_error (hrun.trans (by rw [hload]))

/-- **A run resumes exactly when nothing it was bound to has changed.**  After any calls whose
updates are prepared, a run that was created with the identity made for a contract, a baseline and a
policy resumes under `bound'`, `baselineSha'` and `policyHash'` when these are the same, and it is
not completed; what is returned is its current checkpoint, with that identity.  Otherwise the error
names the first binding that has changed.  A run that was never created is not found.  Nothing is
ever written. -/
theorem resume_exact (hids : AdmitsIds) {calls : List Call} {db : Database}
    (hprepared : ∀ call ∈ calls, ∀ u, call.request = .compareAndAppend u → u.Prepared)
    (h : Steps Performs .empty calls db) (r : RunId) (bound' : BoundContract)
    (baselineSha' : BaselineSha) (policyHash' : PolicyHash) :
    (creations r calls = [] →
      (loadRunForResume r bound' baselineSha' policyHash').result (Quiet db) =
        .error (.resumeError .notFound r.value)) ∧
    (∀ identity bound baselineSha policyHash, BoundTo identity bound baselineSha policyHash →
      creations r calls = [identity] → ¬Collision bound'.sourceBytes bound.sourceBytes →
      ∃ checkpoint, checkpoint.identity = identity ∧
        Chain (createInitialCheckpoint identity) (acceptedUpdates r calls) checkpoint ∧
        (loadRunForResume r bound' baselineSha' policyHash').result (Quiet db) =
          if bound'.sourceBytes ≠ bound.sourceBytes then
            .error (.resumeError .contractMismatch "persisted contract binding has changed")
          else if baselineSha ≠ baselineSha' then
            .error (.resumeError .baselineMismatch "persisted baseline binding has changed")
          else if policyHash ≠ policyHash' then
            .error (.resumeError .policyMismatch "persisted policy binding has changed")
          else if checkpoint.lifecycle.state = .completed then
            .error (.resumeError .terminalRun
              "completed run cannot resume working-state execution")
          else .ok checkpoint) ∧
    (loadRunForResume r bound' baselineSha' policyHash').published (Quiet db) = none := by
  obtain ⟨m, hm, hsteps⟩ := performs_simulates h represents_empty fun call hcall ↦
    Call.legal_of_prepared (hprepared call hcall)
  have hrec := recorded_of_steps hsteps r
  have hload := load_of_represents hm r
  have hresult : ∀ b s p, (loadRunForResume r b s p).result (Quiet db) =
      ((load r).result (Quiet db) >>= checkResume r b s p) := fun b s p ↦
    congrArg Prod.fst (loadRunForResume_run (Quiet db) r b s p)
  refine ⟨fun hnone ↦ ?_, fun identity bound baselineSha policyHash hbound hcreated hcollision ↦ ?_,
    ?_⟩
  · cases hrun : m r with
    | none => rw [hresult, hload, hrun]; rfl
    | some run =>
      rw [hrun] at hrec
      obtain ⟨identity, hcreated, -⟩ := hrec
      exact absurd (hnone.symm.trans hcreated) (by simp)
  · cases hrun : m r with
    | none =>
      rw [hrun] at hrec
      exact absurd (hrec.1.symm.trans hcreated) (by simp)
    | some run =>
      rw [hrun] at hrec hload
      obtain ⟨identity', hcreated', hchain, -⟩ := hrec
      obtain rfl := List.singleton_inj.mp (hcreated'.symm.trans hcreated)
      have hid : run.checkpoint.identity = identity' := hchain.identity_eq
      have hr : run.checkpoint.identity.runId = r := by
        rw [hid]
        exact runId_of_mem_creations (hcreated ▸ List.mem_singleton_self _)
      refine ⟨run.checkpoint, hid, hchain, ?_⟩
      rw [hresult, hload, Option.map_some, ok_bind]
      rw [← hid] at hbound
      rw [← hr]
      exact checkResume_eq hids hbound hcollision
  · rw [Store.published, loadRunForResume_run]
    rfl

end

/-- A run that has been created and updated resumes under the contract it was created for, from what
it was updated to; with another baseline it does not. -/
theorem resume_exact_updated : let _ := Interpreter.plain; let _ := LoopSchemas.plain
    ∃ (bound : BoundContract) (identity : RunIdentity) (db₁ db₂ : Database),
      Steps Performs .empty [createCall identity, appendCall
        (.fromStart identity storeActor .workspacePrepared (by decide)) db₁] db₂ ∧
      (loadRunForResume identity.runId bound identity.baselineSha identity.policyHash).result
        (Quiet db₂) = .ok (StateUpdate.fromStart identity storeActor .workspacePrepared
          (by decide)).nextCheckpoint ∧
      ∀ baselineSha, identity.baselineSha ≠ baselineSha →
        (loadRunForResume identity.runId bound baselineSha identity.policyHash).result
          (Quiet db₂) = .error (.resumeError .baselineMismatch
            "persisted baseline binding has changed") := by
  let _ := Interpreter.plain
  let _ := LoopSchemas.plain
  obtain ⟨bound, hcontract⟩ := exists_boundContract
  let identity : RunIdentity :=
    { storeIdentity qualityLoop with contractHash := bound.contractHash }
  have hbound : BoundTo identity bound identity.baselineSha identity.policyHash :=
    boundTo_iff.mpr ⟨congrArg Prod.fst hcontract.symm, congrArg Prod.snd hcontract.symm, rfl, rfl,
      rfl⟩
  have henc : (storeIdentity qualityLoop).Encodable := ⟨by decide, by decide⟩
  obtain ⟨db₁, db₂, h₁, h₂⟩ := exists_run_fromStart identity ⟨henc.1, henc.2⟩ storeActor
    .workspacePrepared (by decide)
  have hsteps : Steps Performs .empty [createCall identity, appendCall
      (.fromStart identity storeActor .workspacePrepared (by decide)) db₁] db₂ :=
    .cons h₁ (.cons h₂ (.nil db₂))
  have hids : AdmitsIds := by
    intro members contract hvalid hread
    obtain rfl := Except.ok.inj hread
    by_contra hnot
    rw [← Bool.and_eq_true] at hnot
    exact absurd (hvalid.symm.trans (if_neg hnot)) (by simp)
  have hprepared : ∀ call ∈ [createCall identity, appendCall
      (.fromStart identity storeActor .workspacePrepared (by decide)) db₁],
      ∀ u, call.request = .compareAndAppend u → u.Prepared := fun call hcall u hu ↦ by
    rw [eq_of_mem_calls hcall hu, StateUpdate.prepared_iff]
    exact StateUpdate.legal_fromStart _ _
  have h := fun baselineSha ↦ resume_exact hids hprepared hsteps identity.runId bound baselineSha
    identity.policyHash
  have hresumes : ∀ baselineSha,
      (loadRunForResume identity.runId bound baselineSha identity.policyHash).result (Quiet db₂) =
        if identity.baselineSha ≠ baselineSha then
          .error (.resumeError .baselineMismatch "persisted baseline binding has changed")
        else .ok (StateUpdate.fromStart identity storeActor .workspacePrepared
          (by decide)).nextCheckpoint := by
    intro baselineSha
    obtain ⟨checkpoint, -, hchain, hresult⟩ := (h baselineSha).2.1 identity bound
      identity.baselineSha identity.policyHash hbound rfl fun hcollision ↦ hcollision.1 rfl
    obtain ⟨c, ⟨-, rfl⟩, hnil⟩ := Steps.cons_iff.mp hchain
    obtain rfl := Steps.nil_iff.mp hnil
    rw [hresult, if_neg (not_not.mpr rfl), if_neg (not_not.mpr rfl)]
    exact if_congr Iff.rfl rfl
      (if_neg (show LifecycleState.workspacePrepared ≠ .completed by decide))
  exact ⟨bound, identity, db₁, db₂, hsteps, (hresumes _).trans (if_neg (not_not.mpr rfl)),
    fun baselineSha hne ↦ (hresumes baselineSha).trans (if_pos hne)⟩

end Alicerce
