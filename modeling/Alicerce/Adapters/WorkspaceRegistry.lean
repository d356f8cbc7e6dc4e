import Alicerce.Adapters.GitWorkspace

/-!
# The registry of workspaces

The adapter keeps two maps, of the records by workspace and of the workspaces by run, and writes
them one after the other.

* `Registry.Agrees`: the two maps agree.
* `prepare_returns` and `release_returns`: what an operation that writes can leave the registry as.
  `Registry.Agrees.publish` and `Registry.Agrees.forget` are what agreement needs of such a change.
* `WorkspaceStep` is one call, with any answers of the host, and `WorkspaceStep.cases_on_registry`
  says what it can do to the registry.
* `registry_agrees`: the maps agree whenever no call is under way, over every sequence of calls.
-/

set_option autoImplicit false

namespace Alicerce

open Py Lib

/-! ## Ids as names -/

/-- A workspace id is the name of a directory. -/
theorem WorkspaceId.isName (id : WorkspaceId) : IsName id.value := by
  have hpattern : workspaceIdPattern id.value = true := pattern_of_requireFormat id.valid
  cases hvalue : id.value with
  | nil =>
    rw [hvalue] at hpattern
    exact absurd hpattern (by decide)
  | cons c tail =>
    rw [hvalue, workspaceIdPattern, runIdPattern, matchesHeadTail, Bool.and_eq_true,
      Bool.and_eq_true, List.all_eq_true] at hpattern
    obtain ⟨⟨hhead, -⟩, htail⟩ := hpattern
    refine ⟨fun hslash ↦ ?_, by simp, fun hdot ↦ ?_⟩
    · rcases List.mem_cons.mp hslash with rfl | hmem
      · exact absurd hhead (by decide)
      · exact absurd (htail slash hmem) (by decide)
    · obtain ⟨rfl, -⟩ := List.cons.inj (hdot : c :: tail = [.scalar '.'])
      exact absurd hhead (by decide)

/-- The directory of a workspace. -/
def LocalGitWorkspace.placeOf (adapter : LocalGitWorkspace) (id : WorkspaceId) : Path :=
  adapter.root.join id.value

variable {adapter : LocalGitWorkspace}

namespace LocalGitWorkspace

theorem placeOf_parts (id : WorkspaceId) :
    (adapter.placeOf id).parts = adapter.root.parts ++ [id.value] := by
  rw [placeOf, Path.join_of_isName id.isName]

theorem placeOf_injective : Function.Injective adapter.placeOf := by
  intro id id' h
  have hparts := congrArg Path.parts h
  rw [placeOf_parts, placeOf_parts, List.append_cancel_left_eq, List.cons.injEq] at hparts
  exact Checked.ext hparts.1

@[simp] theorem pathFor_eq (id : WorkspaceId) : adapter.pathFor id = .ok (adapter.placeOf id) := by
  have hparent : (adapter.placeOf id).parent = adapter.root := by
    rw [Path.parent, placeOf_parts, List.dropLast_concat]
  exact if_neg (not_not.mpr hparent)

end LocalGitWorkspace

/-! ## What an operation leaves the registry as -/

variable {fuel : ℕ} {r r' : Registry} {log : OsLog}

/-- What `or` answers with a first part that is known. -/
theorem returns_or_pure {b : Bool} {q : Os Bool} {x : Except Exc Bool} :
    (Os.or (pure b) q).Returns log x ↔
      if b then log = [] ∧ x = .ok true else q.Returns log x := by
  cases b with
  | true => exact Action.returns_pure
  | false => exact Iff.rfl

/-- **What `prepare` can do**: enter a new record under a free workspace and a free run and return
its identity, or raise and leave the registry as it is. -/
theorem prepare_returns {identity : RunIdentity} {x : Except Exc WorkspaceIdentity}
    (h : (adapter.prepare fuel identity).Returns r log x r') :
    (∃ id digest, x = .ok ⟨id, identity.runId, identity.baselineSha⟩ ∧ r.records id = none ∧
        r.runIndex identity.runId = none ∧ r' = r.publish
          ⟨⟨id, identity.runId, identity.baselineSha⟩, adapter.placeOf id, digest⟩) ∨
      (∃ e, x = .error e) ∧ r' = r := by
  rw [LocalGitWorkspace.prepare] at h
  rcases Method.returns_perform_bind.mp h with ⟨-, log, -, rfl, -, h⟩ | ⟨e, -, rfl, rfl⟩
  swap; · exact .inr ⟨⟨e, rfl⟩, rfl⟩
  rw [Method.returns_get_bind] at h
  split at h
  · obtain ⟨-, rfl, rfl⟩ := Method.returns_raise.mp h
    exact .inr ⟨⟨_, rfl⟩, rfl⟩
  rename_i hrun
  rcases Method.returns_perform_bind.mp h with ⟨-, log, id, rfl, -, h⟩ | ⟨e, -, rfl, rfl⟩
  swap; · exact .inr ⟨⟨e, rfl⟩, rfl⟩
  rcases Method.returns_perform_bind.mp h with ⟨l, log, place, rfl, hplace, h⟩ | ⟨e, -, rfl, rfl⟩
  swap; · exact .inr ⟨⟨e, rfl⟩, rfl⟩
  obtain rfl := Except.ok.inj
    ((Action.returns_lift.mp hplace).2.trans (LocalGitWorkspace.pathFor_eq id))
  rcases Method.returns_perform_bind.mp h with ⟨l, log, occupied, rfl, hocc, h⟩ | ⟨e, -, rfl, rfl⟩
  swap; · exact .inr ⟨⟨e, rfl⟩, rfl⟩
  split at h
  · obtain ⟨-, rfl, rfl⟩ := Method.returns_raise.mp h
    exact .inr ⟨⟨_, rfl⟩, rfl⟩
  rename_i hfree
  rcases Method.returns_perform_bind.mp h with ⟨-, log, digest, rfl, -, h⟩ | ⟨e, -, rfl, rfl⟩
  swap; · exact .inr ⟨⟨e, rfl⟩, rfl⟩
  rw [Method.returns_modify_bind] at h
  obtain ⟨-, rfl, rfl⟩ := Method.returns_pure.mp h
  refine .inl ⟨id, digest, rfl, ?_, Option.not_isSome_iff_eq_none.mp hrun, rfl⟩
  -- a workspace that is already recorded counts as occupied
  cases hrec : r.records id with
  | none => rfl
  | some record =>
    rw [hrec, returns_or_pure] at hocc
    exact absurd (Except.ok.inj hocc.2) hfree

/-- Whatever detaching a workspace does, it forgets its record or nothing. -/
theorem preserves_detach {record : WorkspaceRecord} {quarantine : Path} {P : Registry → Prop}
    (hforget : ∀ r, P r → P (r.forget record)) :
      Method.Preserves P (LocalGitWorkspace.detach record quarantine) := by
  refine (Method.preserves_perform _).bind fun _ ↦ (Method.preserves_perform _).bind fun _ ↦
    .ite ?_ ((Method.preserves_perform _).bind fun _ ↦ .ite ?_ (Method.preserves_perform _))
  all_goals exact (Method.preserves_perform _).bind fun _ ↦
    (Method.preserves_modify hforget).bind fun _ ↦ Method.preserves_raise _

theorem preserves_releaseRecord {record : WorkspaceRecord} {workspace : WorkspaceIdentity}
    {P : Registry → Prop} (hforget : ∀ r, P r → P (r.forget record)) :
    Method.Preserves P (adapter.releaseRecord record workspace) := by
  refine (Method.preserves_perform _).bind fun _ ↦ (Method.preserves_perform _).bind fun _ ↦
    .ite (Method.preserves_raise _) ((Method.preserves_perform _).bind fun _ ↦ .ite ?_ ?_)
  · exact (Method.preserves_perform _).bind fun _ ↦ Method.preserves_modify hforget
  · refine (Method.preserves_perform _).bind fun _ ↦ .ite (Method.preserves_raise _)
      (Method.Preserves.bind ?_ fun _ ↦ Method.preserves_modify hforget)
    refine (preserves_detach hforget).tryCatch fun e ↦ .ite ?_ (Method.preserves_raise _)
    exact (Method.preserves_perform _).bind fun _ ↦ Method.preserves_raise _

/-- **What `release` can do**: forget the record of exactly this workspace, or leave the registry as
it is. -/
theorem release_returns {workspace : WorkspaceIdentity} {x : Except Exc Unit}
    (h : (adapter.release workspace).Returns r log x r') :
    r' = r ∨ ∃ record, r.records workspace.workspaceId = some record ∧ record.identity = workspace ∧
      r' = r.forget record := by
  rw [LocalGitWorkspace.release, Method.returns_get_bind] at h
  cases hrec : r.records workspace.workspaceId with
  | none =>
    rw [hrec] at h
    exact .inl (Method.returns_pure.mp h).2.2
  | some record =>
    rw [hrec] at h
    dsimp only at h
    split at h
    · exact .inl (Method.returns_raise.mp h).2.2
    · rename_i hsame
      have hend := preserves_releaseRecord (P := fun t ↦ t = r ∨ t = r.forget record) ?_
        _ _ _ _ (.inl rfl) h
      · exact hend.imp id fun h' ↦ ⟨record, rfl, not_not.mp hsame, h'⟩
      · rintro t (rfl | rfl)
        · exact .inr rfl
        · exact .inr (by simp [Registry.forget])

theorem load_returns {id : WorkspaceId} {x : Except Exc (Option WorkspaceIdentity)}
    (h : (adapter.load fuel id).Returns r log x r') : r' = r := by
  rw [LocalGitWorkspace.load, Method.returns_get_bind] at h
  split at h
  · exact (Method.returns_pure.mp h).2.2
  · rcases Method.returns_perform_bind.mp h with ⟨l, log, u, rfl, -, h⟩ | ⟨e, -, -, rfl⟩
    · exact (Method.returns_pure.mp h).2.2
    · rfl

theorem snapshot_returns {workspace : WorkspaceIdentity} {x : Except Exc CandidateIdentity}
    (h : (adapter.snapshot fuel workspace).Returns r log x r') : r' = r :=
  (Method.returns_perform.mp (show (Method.perform _).Returns r log x r' from h)).2

/-! ## Calls -/

/-- A call of the adapter that has ended.  A lease is two calls, as its body runs in between. -/
inductive WorkspaceCall
  | prepare (identity : RunIdentity) (result : Except Exc WorkspaceIdentity)
  | load (workspaceId : WorkspaceId) (result : Except Exc (Option WorkspaceIdentity))
  | snapshot (workspace : WorkspaceIdentity) (result : Except Exc CandidateIdentity)
  | release (workspace : WorkspaceIdentity) (result : Except Exc Unit)
  | enterLease (workspace : WorkspaceIdentity) (result : Except Exc WorkspaceRecord)
  | leaveLease (record : WorkspaceRecord) (result : Except Exc Unit)

/-- One call, with some answers of the host. -/
inductive WorkspaceStep (adapter : LocalGitWorkspace) : Registry → WorkspaceCall → Registry → Prop
  | prepare {fuel : ℕ} {r r' : Registry} {log : OsLog} {identity : RunIdentity}
      {result : Except Exc WorkspaceIdentity}
      (h : (adapter.prepare fuel identity).Returns r log result r') :
      WorkspaceStep adapter r (.prepare identity result) r'
  | load {fuel : ℕ} {r r' : Registry} {log : OsLog} {workspaceId : WorkspaceId}
      {result : Except Exc (Option WorkspaceIdentity)}
      (h : (adapter.load fuel workspaceId).Returns r log result r') :
      WorkspaceStep adapter r (.load workspaceId result) r'
  | snapshot {fuel : ℕ} {r r' : Registry} {log : OsLog} {workspace : WorkspaceIdentity}
      {result : Except Exc CandidateIdentity}
      (h : (adapter.snapshot fuel workspace).Returns r log result r') :
      WorkspaceStep adapter r (.snapshot workspace result) r'
  | release {r r' : Registry} {log : OsLog} {workspace : WorkspaceIdentity}
      {result : Except Exc Unit} (h : (adapter.release workspace).Returns r log result r') :
      WorkspaceStep adapter r (.release workspace result) r'
  | enterLease {fuel : ℕ} {r : Registry} {log : OsLog} {workspace : WorkspaceIdentity}
      {result : Except Exc WorkspaceRecord}
      (h : (adapter.enterLease fuel r workspace).Returns log result) :
      WorkspaceStep adapter r (.enterLease workspace result) r
  | leaveLease {fuel : ℕ} {r : Registry} {log : OsLog} {record : WorkspaceRecord}
      {result : Except Exc Unit} (h : (adapter.validateRecord fuel record).Returns log result) :
      WorkspaceStep adapter r (.leaveLease record result) r

/-- **What a call can do to the registry**: a `prepare` that returns publishes, a `release` may
forget, and anything else leaves it as it is. -/
theorem WorkspaceStep.cases_on_registry {call : WorkspaceCall}
    (h : WorkspaceStep adapter r call r') : (∃ identity id digest,
        call = .prepare identity (.ok ⟨id, identity.runId, identity.baselineSha⟩) ∧
          r.records id = none ∧ r.runIndex identity.runId = none ∧ r' = r.publish
            ⟨⟨id, identity.runId, identity.baselineSha⟩, adapter.placeOf id, digest⟩) ∨
      (∃ record result, call = .release record.identity result ∧
        r.records record.identity.workspaceId = some record ∧ r' = r.forget record) ∨
      (r' = r ∧ ∀ identity workspace, call ≠ .prepare identity (.ok workspace)) := by
  cases h with
  | prepare h =>
    rcases prepare_returns h with ⟨id, digest, rfl, hrec, hrun, rfl⟩ | ⟨⟨e, rfl⟩, rfl⟩
    · exact .inl ⟨_, id, digest, rfl, hrec, hrun, rfl⟩
    · exact .inr (.inr ⟨rfl, by simp⟩)
  | load h => exact .inr (.inr ⟨load_returns h, by simp⟩)
  | snapshot h => exact .inr (.inr ⟨snapshot_returns h, by simp⟩)
  | release h =>
    rcases release_returns h with rfl | ⟨record, hrec, rfl, rfl⟩
    · exact .inr (.inr ⟨rfl, by simp⟩)
    · exact .inr (.inl ⟨record, _, rfl, hrec, rfl⟩)
  | enterLease _ => exact .inr (.inr ⟨rfl, by simp⟩)
  | leaveLease _ => exact .inr (.inr ⟨rfl, by simp⟩)

/-! ## Agreement -/

/-- The two maps agree: a record is kept under its own workspace, in the workspace's directory, and
the run it belongs to leads to it; and a run leads to a record of its own. -/
structure Registry.Agrees (adapter : LocalGitWorkspace) (r : Registry) : Prop where
  keyed : ∀ {id record}, r.records id = some record → record.identity.workspaceId = id
  placed : ∀ {id record}, r.records id = some record → record.path = adapter.placeOf id
  indexed : ∀ {id record}, r.records id = some record →
    r.runIndex record.identity.runId = some id
  pointed : ∀ {run id}, r.runIndex run = some id →
    ∃ record, r.records id = some record ∧ record.identity.runId = run

namespace Registry

section

variable {record other : WorkspaceRecord} {id : WorkspaceId} {run : RunId}

theorem records_publish_eq_some_iff : (r.publish record).records id = some other ↔
    id = record.identity.workspaceId ∧ other = record ∨
      id ≠ record.identity.workspaceId ∧ r.records id = some other := by
  change Function.update r.records record.identity.workspaceId (some record) id = some other ↔ _
  rcases eq_or_ne id record.identity.workspaceId with rfl | hne
  · rw [Function.update_self, Option.some.injEq, eq_comm]
    simp
  · rw [Function.update_of_ne hne]
    simp [hne]

theorem runIndex_publish_eq_some_iff : (r.publish record).runIndex run = some id ↔
    run = record.identity.runId ∧ id = record.identity.workspaceId ∨
      run ≠ record.identity.runId ∧ r.runIndex run = some id := by
  change Function.update r.runIndex record.identity.runId (some record.identity.workspaceId) run =
    some id ↔ _
  rcases eq_or_ne run record.identity.runId with rfl | hne
  · rw [Function.update_self, Option.some.injEq, eq_comm]
    simp
  · rw [Function.update_of_ne hne]
    simp [hne]

theorem records_forget_eq_some_iff : (r.forget record).records id = some other ↔
    id ≠ record.identity.workspaceId ∧ r.records id = some other := by
  change Function.update r.records record.identity.workspaceId none id = some other ↔ _
  rcases eq_or_ne id record.identity.workspaceId with rfl | hne
  · rw [Function.update_self]
    simp
  · rw [Function.update_of_ne hne]
    simp [hne]

theorem runIndex_forget_eq_some_iff : (r.forget record).runIndex run = some id ↔
    run ≠ record.identity.runId ∧ r.runIndex run = some id := by
  change Function.update r.runIndex record.identity.runId none run = some id ↔ _
  rcases eq_or_ne run record.identity.runId with rfl | hne
  · rw [Function.update_self]
    simp
  · rw [Function.update_of_ne hne]
    simp [hne]

theorem agrees_empty : empty.Agrees adapter where
  keyed h := absurd h (by simp [empty])
  placed h := absurd h (by simp [empty])
  indexed h := absurd h (by simp [empty])
  pointed h := absurd h (by simp [empty])

/-- A new record can be entered when both its workspace and its run are free. -/
theorem Agrees.publish (h : r.Agrees adapter) (hrec : r.records record.identity.workspaceId = none)
    (hrun : r.runIndex record.identity.runId = none)
    (hplace : record.path = adapter.placeOf record.identity.workspaceId) :
    (r.publish record).Agrees adapter where
  keyed hother := by
    rcases records_publish_eq_some_iff.mp hother with ⟨rfl, rfl⟩ | ⟨-, hother⟩
    · rfl
    · exact h.keyed hother
  placed hother := by
    rcases records_publish_eq_some_iff.mp hother with ⟨rfl, rfl⟩ | ⟨-, hother⟩
    · exact hplace
    · exact h.placed hother
  indexed hother := by
    rw [runIndex_publish_eq_some_iff]
    rcases records_publish_eq_some_iff.mp hother with ⟨rfl, rfl⟩ | ⟨-, hother⟩
    · exact .inl ⟨rfl, rfl⟩
    · refine .inr ⟨fun heq ↦ ?_, h.indexed hother⟩
      -- the run of another record leads to that record, and that of the new one led nowhere
      have hindexed := h.indexed hother
      rw [heq, hrun] at hindexed
      exact absurd hindexed (by simp)
  pointed hid := by
    rcases runIndex_publish_eq_some_iff.mp hid with ⟨rfl, rfl⟩ | ⟨-, hid⟩
    · exact ⟨_, records_publish_eq_some_iff.mpr (.inl ⟨rfl, rfl⟩), rfl⟩
    · obtain ⟨other, hother, rfl⟩ := h.pointed hid
      refine ⟨other, records_publish_eq_some_iff.mpr (.inr ⟨?_, hother⟩), rfl⟩
      rintro rfl
      rw [hrec] at hother
      exact absurd hother (by simp)

/-- A record can be forgotten under both of its keys. -/
theorem Agrees.forget (h : r.Agrees adapter)
    (hrec : r.records record.identity.workspaceId = some record) :
    (r.forget record).Agrees adapter where
  keyed hother := h.keyed (records_forget_eq_some_iff.mp hother).2
  placed hother := h.placed (records_forget_eq_some_iff.mp hother).2
  indexed hother := by
    obtain ⟨hne, hother⟩ := records_forget_eq_some_iff.mp hother
    refine runIndex_forget_eq_some_iff.mpr ⟨fun heq ↦ ?_, h.indexed hother⟩
    -- two records of one run would be one
    have hindexed := h.indexed hother
    rw [heq, h.indexed hrec, Option.some.injEq] at hindexed
    exact hne hindexed.symm
  pointed hid := by
    obtain ⟨hne, hid⟩ := runIndex_forget_eq_some_iff.mp hid
    obtain ⟨other, hother, rfl⟩ := h.pointed hid
    refine ⟨other, records_forget_eq_some_iff.mpr ⟨?_, hother⟩, rfl⟩
    rintro rfl
    rw [hrec, Option.some.injEq] at hother
    exact hne (hother ▸ rfl)

/-- A run owns at most one workspace. -/
theorem Agrees.eq_of_runId {id' : WorkspaceId} (h : r.Agrees adapter)
    (hrec : r.records id = some record) (hrec' : r.records id' = some other)
    (hrun : record.identity.runId = other.identity.runId) : id = id' := by
  have hindexed := h.indexed hrec
  rw [hrun, h.indexed hrec', Option.some.injEq] at hindexed
  exact hindexed.symm

/-- No two records share a path. -/
theorem Agrees.eq_of_path {id' : WorkspaceId} (h : r.Agrees adapter)
    (hrec : r.records id = some record) (hrec' : r.records id' = some other)
    (hpath : record.path = other.path) : id = id' :=
  LocalGitWorkspace.placeOf_injective ((h.placed hrec).symm.trans (hpath.trans (h.placed hrec')))

end

end Registry

/-- Every call keeps the maps in agreement. -/
theorem WorkspaceStep.agrees {call : WorkspaceCall} (hr : r.Agrees adapter)
    (h : WorkspaceStep adapter r call r') : r'.Agrees adapter := by
  rcases h.cases_on_registry with ⟨identity, id, digest, rfl, hrec, hrun, rfl⟩ |
    ⟨record, result, rfl, hrec, rfl⟩ | ⟨rfl, -⟩
  · exact hr.publish hrec hrun rfl
  · exact hr.forget hrec
  · exact hr

/-- What is added to a registry, and by which call. -/
theorem WorkspaceStep.added {call : WorkspaceCall} (h : WorkspaceStep adapter r call r')
    {id : WorkspaceId} {record : WorkspaceRecord} (hrec : r'.records id = some record) :
    r.records id = some record ∨
      ∃ identity, call = .prepare identity (.ok record.identity) ∧ r.records id = none := by
  rcases h.cases_on_registry with ⟨identity, id', digest, rfl, hfree, -, rfl⟩ |
    ⟨old, result, rfl, -, rfl⟩ | ⟨rfl, -⟩
  · rcases Registry.records_publish_eq_some_iff.mp hrec with ⟨rfl, rfl⟩ | ⟨-, hold⟩
    · exact .inr ⟨identity, rfl, hfree⟩
    · exact .inl hold
  · exact .inl (Registry.records_forget_eq_some_iff.mp hrec).2
  · exact .inl hrec

/-- What is removed from a registry, and by which call. -/
theorem WorkspaceStep.removed {call : WorkspaceCall} (hr : r.Agrees adapter)
    (h : WorkspaceStep adapter r call r') {id : WorkspaceId} {record : WorkspaceRecord}
    (hrec : r.records id = some record) :
    r'.records id = some record ∨ ∃ result, call = .release record.identity result := by
  rcases h.cases_on_registry with ⟨identity, id', digest, rfl, hfree, -, rfl⟩ |
    ⟨old, result, rfl, hold, rfl⟩ | ⟨rfl, -⟩
  · refine .inl (Registry.records_publish_eq_some_iff.mpr (.inr ⟨?_, hrec⟩))
    rintro rfl
    exact absurd (hfree.symm.trans hrec) (by simp)
  · rcases eq_or_ne id old.identity.workspaceId with rfl | hne
    · rw [hold, Option.some.injEq] at hrec
      exact .inr ⟨result, hrec ▸ rfl⟩
    · exact .inl (Registry.records_forget_eq_some_iff.mpr ⟨hne, hrec⟩)
  · exact .inl hrec

/-- **The registry is a bijection between runs and workspaces, over every run of the adapter**: the
two maps agree, a run owns at most one workspace and no two workspaces share a directory, and of all
calls only a `prepare` that returns adds a record, the one it returns, and only a `release` of
exactly the recorded identity removes one. -/
theorem registry_agrees {calls : List WorkspaceCall} {registry : Registry}
    (hrun : Steps (WorkspaceStep adapter) .empty calls registry) :
    registry.Agrees adapter ∧
      (∀ {id id' record record'}, registry.records id = some record →
        registry.records id' = some record' → record.identity.runId = record'.identity.runId →
          id = id') ∧
      (∀ {id id' record record'}, registry.records id = some record →
        registry.records id' = some record' → record.path = record'.path → id = id') ∧
      ∀ {call registry'}, WorkspaceStep adapter registry call registry' →
        (∀ {identity workspace}, call = .prepare identity (.ok workspace) →
          workspace.runId = identity.runId ∧ workspace.baselineSha = identity.baselineSha ∧
            registry.records workspace.workspaceId = none ∧
              registry.runIndex workspace.runId = none ∧
                ∃ record, registry'.records workspace.workspaceId = some record ∧
                  record.identity = workspace) ∧
        (∀ {id record}, registry'.records id = some record → registry.records id = some record ∨
          ∃ identity, call = .prepare identity (.ok record.identity)) ∧
        (∀ {id record}, registry.records id = some record → registry'.records id = some record ∨
          ∃ result, call = .release record.identity result) := by
  have hagrees : registry.Agrees adapter :=
    hrun.preserves (fun hr h ↦ h.agrees hr) Registry.agrees_empty
  refine ⟨hagrees, hagrees.eq_of_runId, hagrees.eq_of_path,
    fun h ↦ ⟨?_, fun hrec ↦ ?_, h.removed hagrees⟩⟩
  · rintro identity workspace rfl
    rcases h.cases_on_registry with ⟨_, id, digest, heq, hfree, hrun, rfl⟩ |
      ⟨_, _, heq, -⟩ | ⟨-, hne⟩
    · obtain ⟨rfl, heq⟩ := WorkspaceCall.prepare.inj heq
      obtain rfl := Except.ok.inj heq
      exact ⟨rfl, rfl, hfree, hrun, _,
        Registry.records_publish_eq_some_iff.mpr (.inl ⟨rfl, rfl⟩), rfl⟩
    · exact absurd heq (by simp)
    · exact absurd rfl (hne identity workspace)
  · exact (h.added hrec).imp id fun ⟨identity, heq, _⟩ ↦ ⟨identity, heq⟩

/-- The workspace the run is given. -/
def localIdentity : WorkspaceIdentity := (testRequest localRun).workspace

theorem registry_agrees_prepared : ∃ registry,
    Steps (WorkspaceStep localWorkspace) .empty [.prepare localRun (.ok localIdentity)] registry ∧
      registry.Agrees localWorkspace := by
  have hplay : ((localWorkspace.prepare 9 localRun .empty).play
      (obligingHost headOutput) []).2.map Prod.fst = some (.ok localIdentity) := by
    decide +kernel
  obtain ⟨registry, h⟩ := Method.returns_play hplay
  have hrun : Steps (WorkspaceStep localWorkspace) .empty
      [.prepare localRun (.ok localIdentity)] registry := .cons (.prepare h) (.nil registry)
  exact ⟨registry, hrun, (registry_agrees hrun).1⟩

end Alicerce
