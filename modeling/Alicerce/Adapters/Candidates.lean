import Alicerce.Adapters.CommandExecution
import Alicerce.Adapters.RecordValidation

/-!
# What a candidate stands for

A candidate is taken by Git, over an index that is seeded from the head of the workspace in a
control directory of its own, between two validations of the record.

* `Writes`: Git reads the head into an index of its own, adds what is in the repository, and writes
  a tree.
* `returns_snapshotCandidate`: the tree that is returned was written so, and its name has the shape
  of one.
* `LocalGitWorkspace.Passed`: a record was found valid, by looks and by Git.
* `returns_snapshot` and `snapshot_stands`: a candidate stands for the tree Git has written of the
  workspace it is asked of, between two times at which the record passed.
-/

set_option autoImplicit false

namespace Alicerce

open Py Lib

namespace ControlledGitCli

variable {git : ControlledGitCli} {fuel : ℕ} {repository : Path} {log : OsLog} {sha : CandidateSha}

/-- The environment of a snapshot: its index is in the control directory. -/
def indexEnvironment (control : Path) : List (Text × Text) :=
  controlEnvironment control ++ [(text "GIT_INDEX_FILE", (control.join "candidate.index").str)]

/-- Git reads the head into an index of its own, adds what is in the repository, and writes a tree,
all without a failure; the name of the tree is what the last of the three has written. -/
def Writes (git : ControlledGitCli) (fuel : ℕ) (repository : Path) (log : OsLog) (sha : Text) :
    Prop :=
  ∃ trusted looked control seeded added written seedOutput addOutput output,
    log = looked ++ controlLog ".alicerce-git-snapshot-" trusted.parent control
      (seeded ++ (added ++ written)) ∧
    (validateRepository repository).Returns looked (.ok trusted) ∧
    (git.run fuel (readTree trusted) trusted.parent (indexEnvironment control)).Returns seeded
      (.ok seedOutput) ∧
    (git.run fuel (addAll trusted) trusted.parent (indexEnvironment control)).Returns added
      (.ok addOutput) ∧
    (git.run fuel (writeTree trusted) trusted.parent (indexEnvironment control)).Returns written
      (.ok output) ∧
    sha = strip output

/-- **A tree is written**, and its name has the shape of one. -/
theorem returns_snapshotCandidate :
    (git.snapshotCandidate fuel repository).Returns log (.ok sha) ↔
      git.Writes fuel repository log sha.value := by
  rw [snapshotCandidate, Action.returns_bind_ok]
  constructor
  · rintro ⟨looked, l, trusted, rfl, hlooked, hrest⟩
    obtain ⟨l₁, l₂, treeSha, rfl, hcontrol, hname⟩ :=
      Action.returns_bind_ok.mp (returns_translate_ok.mp hrest)
    obtain ⟨control, body, rfl, hbody⟩ := returns_withControl.mp hcontrol
    obtain ⟨seeded, l₃, u, rfl, hseeded, hbody⟩ := Action.returns_bind_ok.mp hbody
    obtain ⟨added, l₄, v, rfl, hadded, hbody⟩ := Action.returns_bind_ok.mp hbody
    obtain ⟨written, l₅, output, rfl, hwritten, hbody⟩ := Action.returns_bind_ok.mp hbody
    obtain ⟨rfl, heq⟩ := Action.returns_pure.mp hbody
    obtain rfl := Except.ok.inj heq
    obtain ⟨rfl, hsha⟩ := Action.returns_lift.mp hname
    obtain ⟨seedOutput, hseeded⟩ := returns_discard.mp hseeded
    obtain ⟨addOutput, hadded⟩ := returns_discard.mp hadded
    exact ⟨trusted, looked, control, seeded, added, written, seedOutput, addOutput, output,
      by simp, hlooked, hseeded, hadded, hwritten, Checked.new_eq_ok_iff.mp hsha.symm⟩
  · rintro ⟨trusted, looked, control, seeded, added, written, seedOutput, addOutput, output, rfl,
      hlooked, hseeded, hadded, hwritten, hsha⟩
    refine ⟨looked, _, trusted, rfl, hlooked, returns_translate_ok.mpr ?_⟩
    refine Action.returns_bind_ok.mpr ⟨_, [], sha.value, (List.append_nil _).symm,
      returns_withControl.mpr ⟨control, _, rfl, ?_⟩, Action.returns_lift.mpr ⟨rfl, ?_⟩⟩
    · refine Action.returns_bind_ok.mpr ⟨seeded, _, ⟨⟩, rfl, returns_discard.mpr ⟨_, hseeded⟩, ?_⟩
      refine Action.returns_bind_ok.mpr ⟨added, _, ⟨⟩, rfl, returns_discard.mpr ⟨_, hadded⟩, ?_⟩
      exact Action.returns_bind_ok.mpr ⟨written, [], output, (List.append_nil _).symm, hwritten,
        Action.returns_pure.mpr ⟨rfl, congrArg Except.ok hsha⟩⟩
    · exact (Checked.new_value sha).symm

end ControlledGitCli

namespace LocalGitWorkspace

variable {adapter : LocalGitWorkspace} {fuel : ℕ} {record : WorkspaceRecord}
  {workspace : WorkspaceIdentity} {candidate : CandidateIdentity} {r r' : Registry} {log : OsLog}

/-- A record was found valid: Git has verified its baseline, and any files that the looks before
were true of, by a host that failed at none, are those of a sealed workspace. -/
def Passed (adapter : LocalGitWorkspace) (fuel : ℕ) (record : WorkspaceRecord) (log : OsLog) :
    Prop :=
  ∃ looked asked b, log = looked ++ asked ∧ (∀ event ∈ looked, OsCall.Looks event.1) ∧
    (adapter.git.verifyBaseline fuel record.path record.identity.baselineSha).Returns asked
      (.ok b) ∧
    ∀ tree : HostTree, tree.Proper → tree.node adapter.root.parts = some .dir →
      (∀ event ∈ looked, tree.Opens () event ()) → adapter.Sealed tree record

theorem passed_of_validateRecord (h : (adapter.validateRecord fuel record).Returns log (.ok ())) :
    adapter.Passed fuel record log := by
  rw [validateRecord_eq] at h
  obtain ⟨looked, asked, ⟨⟩, rfl, hlooked, hask⟩ := Action.returns_bind_ok.mp h
  obtain ⟨b, hverify⟩ := returns_discard.mp (returns_translate_ok.mp hask)
  refine ⟨looked, asked, b, rfl, watches_inspectRecord.looks.leads hlooked, hverify,
    fun tree hproper hroot hopens ↦ ?_⟩
  rcases Action.ensures_iff.mp (inspectRecord_opens hproper hroot) _ _ () hlooked
    (.of_forall hopens) with ⟨-, hsealed⟩ | ⟨e, heq, -⟩
  · exact hsealed
  · exact absurd heq (by simp)

/-- **When a candidate is returned.** -/
theorem returns_snapshot : (adapter.snapshot fuel workspace).Returns r log (.ok candidate) r' ↔
    r' = r ∧ candidate.workspace = workspace ∧ ∃ record before middle after,
      log = before ++ (middle ++ after) ∧
      (r.records workspace.workspaceId = some record ∧ record.identity = workspace) ∧
      (adapter.validateRecord fuel record).Returns before (.ok ()) ∧
      adapter.git.Writes fuel record.path middle candidate.candidateSha.value ∧
      (adapter.validateRecord fuel record).Returns after (.ok ()) := by
  rw [snapshot, Method.returns_get_bind, Method.returns_perform, and_comm]
  refine and_congr_right fun _ ↦ ?_
  rw [Action.returns_bind_ok]
  constructor
  · rintro ⟨l, l₁, record, rfl, hrecord, hrest⟩
    obtain ⟨rfl, hfound⟩ := Action.returns_lift.mp hrecord
    obtain ⟨before, l₂, ⟨⟩, rfl, hbefore, hrest⟩ := Action.returns_bind_ok.mp hrest
    obtain ⟨l₃, l₄, sha, rfl, htaken, hrest⟩ := Action.returns_bind_ok.mp hrest
    obtain ⟨rfl, heq⟩ := Action.returns_pure.mp hrest
    obtain rfl := Except.ok.inj heq
    obtain ⟨middle, l₅, sha', rfl, hwrites, htaken⟩ :=
      Action.returns_bind_ok.mp (returns_translate_ok.mp htaken)
    obtain ⟨after, l₆, ⟨⟩, rfl, hafter, htaken⟩ := Action.returns_bind_ok.mp htaken
    obtain ⟨rfl, heq⟩ := Action.returns_pure.mp htaken
    obtain rfl := Except.ok.inj heq
    have hknown := requireRecord_eq_ok_iff.mp hfound.symm
    exact ⟨hknown.2, record, before, middle, after, by simp, hknown, hbefore,
      ControlledGitCli.returns_snapshotCandidate.mp hwrites, hafter⟩
  · rintro ⟨rfl, record, before, middle, after, rfl, hknown, hbefore, hwrites, hafter⟩
    refine ⟨[], _, record, rfl,
      Action.returns_lift.mpr ⟨rfl, (requireRecord_eq_ok_iff.mpr hknown).symm⟩, ?_⟩
    refine Action.returns_bind_ok.mpr ⟨before, _, ⟨⟩, rfl, hbefore, ?_⟩
    refine Action.returns_bind_ok.mpr ⟨middle ++ after, [], candidate.candidateSha,
      (List.append_nil _).symm, returns_translate_ok.mpr ?_, Action.returns_pure.mpr ⟨rfl, ?_⟩⟩
    · refine Action.returns_bind_ok.mpr ⟨middle, after, _, rfl,
        ControlledGitCli.returns_snapshotCandidate.mpr hwrites, ?_⟩
      exact Action.returns_bind_ok.mpr ⟨after, [], ⟨⟩, (List.append_nil _).symm, hafter,
        Action.returns_pure.mpr ⟨rfl, rfl⟩⟩
    · rw [bindCandidate, hknown.2]

/-- **What a candidate stands for**: the tree Git has written of the workspace it is asked of, over
an index of its own, while the record of the workspace was found valid before and after. -/
theorem snapshot_stands (h : (adapter.snapshot fuel workspace).Returns r log (.ok candidate) r') :
    r' = r ∧ candidate.workspace = workspace ∧ ∃ record before middle after,
      log = before ++ (middle ++ after) ∧
      (r.records workspace.workspaceId = some record ∧ record.identity = workspace) ∧
      adapter.Passed fuel record before ∧
      adapter.git.Writes fuel record.path middle candidate.candidateSha.value ∧
      adapter.Passed fuel record after := by
  obtain ⟨hregistry, hworkspace, record, before, middle, after, hlog, hknown, hbefore, hwrites,
    hafter⟩ := returns_snapshot.mp h
  exact ⟨hregistry, hworkspace, record, before, middle, after, hlog, hknown,
    passed_of_validateRecord hbefore, hwrites, passed_of_validateRecord hafter⟩

end LocalGitWorkspace

/-- A Git that writes a tree, too. -/
def candidateOutput (argv : List Text) : List UInt8 :=
  if text "write-tree" ∈ argv then headOutput ["rev-parse"] else headOutput argv

theorem LocalGitWorkspace.snapshot_stands_local : ∃ log candidate,
    (localWorkspace.snapshot 9 localIdentity).Returns localRegistry log
      (.ok candidate) localRegistry ∧ ∃ record before after, before <+: log ∧ after <:+ log ∧
        localWorkspace.Passed 9 record before ∧ localWorkspace.Passed 9 record after := by
  have hplay : (Interaction.play (obligingHost candidateOutput)
      (localWorkspace.snapshot 9 localIdentity localRegistry) []).2.map (Except.isOk ∘ Prod.fst) =
        some true := by
    decide +kernel
  obtain ⟨⟨x, r'⟩, hx, hok⟩ := Option.map_eq_some_iff.mp hplay
  cases x with
  | error e => exact absurd hok (by simp [Except.isOk, Except.toBool])
  | ok candidate =>
    have hreturns := Interaction.returns_play hx
    obtain ⟨rfl, -, record, before, middle, after, hlog, -, hbefore, -, hafter⟩ :=
      LocalGitWorkspace.snapshot_stands hreturns
    exact ⟨_, candidate, hreturns, record, before, after, hlog ▸ List.prefix_append _ _,
      hlog ▸ (List.suffix_append _ _).trans (List.suffix_append _ _), hbefore, hafter⟩

end Alicerce
