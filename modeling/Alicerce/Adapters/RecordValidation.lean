import Alicerce.Adapters.LinkWalks
import Alicerce.Adapters.Preparation

/-!
# What the validation of a record decides

A record is validated when a workspace is loaded, when a candidate is taken of it, and at both ends
of a lease.  Where the host lets itself be looked at, everything but the question of the baseline is
told by the files.

* `LocalGitWorkspace.inspectRecord` is that part of the validation (`validateRecord_eq`).
* `LocalGitWorkspace.Sealed`: a workspace stands at its place, its links lead to somewhere inside,
  and its configuration is what it was.
* `inspectRecord_opens`: the looks find that it is sealed, or refuse it.
* `LocalGitWorkspace.Verdict` is how a record is found by looks and Git together, and
  `validateRecord_verdict` says that it is.
* `load_decides`: what a workspace loads as.
-/

set_option autoImplicit false

namespace Alicerce

open Py Lib

/-! ## Questions -/

/-- A question is answered, with the truth. -/
def HostTree.Answers (tree : HostTree) (p : Os Bool) (P : Prop) : Prop :=
  p.Ensures tree.Opens () (Action.Returned fun answer _ ↦ answer = true ↔ P)

namespace HostTree

variable {tree : HostTree} {path : Path} {p q : Os Bool} {P Q : Prop}

theorem answers_isSymlink : tree.Answers (Os.isSymlink path) (tree.EndsInLink path) := by
  rintro answer ⟨⟩ ⟨⟨hshows, -⟩, hcandid⟩
  obtain ⟨linked, rfl, hlinked⟩ := hcandid
  exact ⟨hshows.1, hlinked⟩

theorem answers_isDir : tree.Answers (Os.isDir path) (tree.LeadsToDir path) := by
  rintro answer ⟨⟩ ⟨⟨hshows, -⟩, hcandid⟩
  obtain ⟨found, rfl, hfound⟩ := hcandid
  exact ⟨hshows.1, hfound⟩

theorem answers_isFile : tree.Answers (Os.isFile path) (tree.LeadsToFile path) := by
  rintro answer ⟨⟩ ⟨⟨hshows, -⟩, hcandid⟩
  obtain ⟨found, rfl, hfound⟩ := hcandid
  exact ⟨hshows.1, hfound⟩

theorem answers_decide [Decidable P] : tree.Answers (pure (decide P)) P := decide_eq_true_iff

theorem Answers.congr (hp : tree.Answers p P) (hPQ : P ↔ Q) : tree.Answers p Q :=
  hp.mono_returned fun _ _ hanswer ↦ hanswer.trans hPQ

theorem Answers.not (hp : tree.Answers p P) : tree.Answers (do return !(← p)) (¬P) := by
  refine hp.bind_returned fun answer _ hanswer ↦ ?_
  show (!answer) = true ↔ ¬P
  rw [Bool.not_eq_true', ← Bool.not_eq_true, hanswer]

theorem Answers.or (hp : tree.Answers p P) (hq : tree.Answers q Q) :
    tree.Answers (Os.or p q) (P ∨ Q) := by
  refine hp.bind_returned fun answer _ hanswer ↦ ?_
  cases answer with
  | true => exact ⟨fun _ ↦ .inl (hanswer.mp rfl), fun _ ↦ rfl⟩
  | false =>
    have hno : ¬P := fun hP ↦ absurd (hanswer.mpr hP) (by simp)
    refine hq.mono_returned fun answer' _ hanswer' ↦ ?_
    rw [hanswer', or_iff_right hno]

/-! ## What the files tell -/

/-- The Git configuration of a workspace is a file of that digest, and no link. -/
def ConfiguredAs (tree : HostTree) (workspace : Path) (digest : Bytes) : Prop :=
  ¬tree.EndsInLink ((workspace.join ".git").join "config") ∧
    ∃ place content, tree.Leads ((workspace.join ".git").join "config") place ∧
      tree.node place = some (.file content) ∧ Py.sha256 content = digest

variable {workspace : Path} {digest digest' : Bytes} {place : List Text} {name : Text}

theorem ConfiguredAs.unique (h : tree.ConfiguredAs workspace digest)
    (h' : tree.ConfiguredAs workspace digest') : digest = digest' := by
  obtain ⟨-, place, content, hleads, hfile, rfl⟩ := h
  obtain ⟨-, place', content', hleads', hfile', rfl⟩ := h'
  obtain rfl := FileTree.Walks.unique hleads hleads'
  rw [hfile, Option.some.injEq, Node.file.injEq] at hfile'
  rw [hfile']

/-- Where there is a directory or a file, there is no link, and the path leads to it. -/
theorem Proper.leads_of_settled (hproper : tree.Proper) (hsettled : tree.Settled path.parts) :
    ¬tree.EndsInLink path ∧ ∀ place, tree.Leads path place ↔ place = path.parts := by
  obtain ⟨n, hn, hno⟩ := id hsettled
  refine ⟨?_, fun place ↦ HostTree.leads_of_settled hsettled (hproper.named hn)⟩
  rintro ⟨above, name, place, hparts, hleads, n', hn', hlink⟩
  rw [hparts] at hn
  have habove := tree.parent hn
  obtain rfl := (HostTree.leads_of_settled (FileTree.settled_of_dir habove)
    (hproper.named habove)).mp hleads
  obtain rfl := Option.some.inj (hn.symm.trans hn')
  exact hno hlink

/-- An entry of a directory is a directory when it ends in no link, and leads to one. -/
theorem Proper.dir_iff (hproper : tree.Proper) (hdir : tree.node place = some .dir)
    (hname : name ≠ text "..") : tree.node (place ++ [name]) = some .dir ↔
      ¬tree.EndsInLink ⟨place ++ [name]⟩ ∧ tree.LeadsToDir ⟨place ++ [name]⟩ := by
  constructor
  · intro hentry
    obtain ⟨hno, hleads⟩ : ¬tree.EndsInLink ⟨place ++ [name]⟩ ∧ _ :=
      hproper.leads_of_settled (FileTree.settled_of_dir hentry)
    exact ⟨hno, _, (hleads _).mpr rfl, hentry⟩
  · rintro ⟨hno, target, hleads, htarget⟩
    have hsettled := FileTree.settled_of_dir hdir
    have hplace : tree.Leads ⟨place⟩ place :=
      (HostTree.leads_of_settled hsettled (hproper.named hdir)).mpr rfl
    have hwalk := (hproper.leads_entry hdir hname).mp hleads
    rcases FileTree.walks_name hsettled hwalk with ⟨-, rfl⟩ | ⟨hlinked, -⟩
    · exact htarget
    · exact absurd ⟨place, name, place, rfl, hplace, linkAt_iff.mpr hlinked⟩ hno

/-- **The digest of the configuration** is told, or refused. -/
theorem configDigest_opens : (configDigest workspace).Ensures tree.Opens () fun x _ ↦
    (∃ digest, x = .ok digest ∧ tree.ConfiguredAs workspace digest) ∨
    (∃ e, x = .error e ∧ IsolationFailure e ∧ ∀ digest, ¬tree.ConfiguredAs workspace digest) := by
  rw [configDigest, Action.ensures_bind]
  refine (answers_isSymlink.or answers_isFile.not).mono fun x _ hx ↦ ?_
  rcases x with _ | refused
  · exact hx.elim
  rw [Action.after_ok]
  cases refused with
  | true =>
    refine .inr ⟨_, rfl, ⟨_, rfl⟩, ?_⟩
    rintro digest ⟨hno, place, content, hleads, hfile, -⟩
    exact (hx.mp rfl).elim hno fun hnot ↦ hnot ⟨place, content, hleads, hfile⟩
  | false =>
    obtain ⟨hno, hyes⟩ := not_or.mp fun hrefused ↦ absurd (hx.mpr hrefused) (by simp)
    rw [if_neg (by simp), Os.ensures_translate, Action.ensures_bind, Os.readFile,
      Action.ensures_ask]
    rintro (e | content) ⟨⟩ ⟨⟨hshows, -⟩, hcandid⟩
    · exact absurd (not_not.mp hyes) hcandid
    · obtain ⟨place, hleads, hfile⟩ := hshows
      exact .inl ⟨_, rfl, hno, place, content, hleads, hfile, rfl⟩

end HostTree

namespace LocalGitWorkspace

variable {adapter : LocalGitWorkspace} {tree : HostTree} {record : WorkspaceRecord} {fuel : ℕ}
  {log : OsLog} {id : WorkspaceId} {r r' : Registry}

/-- The workspace of a record is as it was left: it stands at its place, its links lead to somewhere
inside, and its Git configuration is the one that was recorded. -/
structure Sealed (adapter : LocalGitWorkspace) (tree : HostTree) (record : WorkspaceRecord) :
    Prop where
  place : record.path = adapter.placeOf record.identity.workspaceId
  dir : tree.node record.path.parts = some .dir
  accepted : tree.Accepted record.path
  configured : tree.ConfiguredAs record.path record.configDigest

/-- A root that is a directory is found intact. -/
theorem assertRootIntegrity_opens (hproper : tree.Proper)
    (hroot : tree.node adapter.root.parts = some .dir) :
    adapter.assertRootIntegrity.Ensures tree.Opens () (Action.Returned fun _ _ ↦ True) := by
  obtain ⟨hno, hleads⟩ := hproper.leads_of_settled (FileTree.settled_of_dir hroot)
  rw [assertRootIntegrity]
  refine Action.Ensures.bind_returned (P := fun resolved _ ↦ resolved = adapter.root) ?_ ?_
  · rw [Os.ensures_translate, Os.resolve, Action.ensures_ask]
    rintro (e | resolved) ⟨⟩ ⟨⟨hshows, -⟩, hcandid⟩
    · exact absurd ((hleads _).mpr rfl) (hcandid.2 _)
    · exact congrArg Path.mk ((hleads _).mp hshows)
  · rintro _ ⟨⟩ rfl
    refine (HostTree.answers_isSymlink.or (HostTree.answers_isDir.not.or
      HostTree.answers_decide)).bind_returned fun refused _ hrefused ↦ ?_
    cases refused with
    | false => trivial
    | true =>
      rcases hrefused.mp rfl with hlink | hnot | hne
      · exact absurd hlink hno
      · exact absurd ⟨_, (hleads _).mpr rfl, hroot⟩ hnot
      · exact absurd rfl hne

/-- Whether the place of a workspace is something other than a directory. -/
theorem answers_directory (hproper : tree.Proper) (hroot : tree.node adapter.root.parts = some .dir)
    (id : WorkspaceId) : tree.Answers (Os.or (Os.isSymlink (adapter.placeOf id))
      (Os.or (do return !(← Os.isDir (adapter.placeOf id)))
        (pure (decide (adapter.IsProtected (adapter.placeOf id))))))
      (tree.node (adapter.placeOf id).parts ≠ some .dir) := by
  refine (HostTree.answers_isSymlink.or (HostTree.answers_isDir.not.or
    HostTree.answers_decide)).congr ?_
  have hname : id.value ≠ text ".." := WorkspaceId.head_ne_dot id [.scalar '.']
  have hdir : tree.node (adapter.placeOf id).parts = some .dir ↔
      ¬tree.EndsInLink (adapter.placeOf id) ∧ tree.LeadsToDir (adapter.placeOf id) := by
    have hpath : adapter.placeOf id = ⟨adapter.root.parts ++ [id.value]⟩ :=
      congrArg Path.mk (placeOf_parts id)
    rw [hpath]
    exact hproper.dir_iff hroot hname
  rw [Ne, hdir, or_iff_left (not_isProtected_placeOf adapter id), not_and_or, not_not]

/-- What `_validate_record` looks at before it asks Git. -/
def inspectRecord (adapter : LocalGitWorkspace) (fuel : ℕ) (record : WorkspaceRecord) :
    Os Unit := do
  adapter.assertRootIntegrity
  let expected ← .lift (adapter.pathFor record.identity.workspaceId)
  if record.path ≠ expected then
    .raise (workspaceError .isolationFailure "workspace mapping integrity check failed")
  else if ← Os.or (Os.isSymlink record.path) (Os.or (do return !(← Os.isDir record.path))
      (pure (decide (adapter.IsProtected record.path)))) then
    .raise (workspaceError .isolationFailure "workspace directory integrity check failed")
  else do
    validateSymlinks fuel record.path
    let digest ← configDigest record.path
    if digest ≠ record.configDigest then
      .raise (workspaceError .isolationFailure "workspace Git configuration changed")
    else pure ()

theorem validateRecord_eq : adapter.validateRecord fuel record = (do
    adapter.inspectRecord fuel record
    Os.translate Exc.isGitCliError translateGitError
      (discard (adapter.git.verifyBaseline fuel record.path record.identity.baselineSha))) := by
  simp only [validateRecord, inspectRecord, Action.bind_assoc, Action.ite_bind]
  rfl

theorem watches_inspectRecord : Watches (adapter.inspectRecord fuel record) := by
  refine .bind (watches_assertRootIntegrity adapter) fun _ ↦ .bind trivial fun _ ↦ .ite trivial ?_
  refine .bind (Os.calls_or (watches_ask trivial) (Os.calls_or
    (.bind (watches_ask trivial) fun _ ↦ trivial) trivial)) fun _ ↦ .ite trivial ?_
  exact .bind (watches_validateSymlinks _) fun _ ↦ .bind (watches_configDigest _) fun _ ↦
    .ite trivial trivial

/-- **What the looks come to**: the workspace is sealed, or refused. -/
theorem inspectRecord_opens (hproper : tree.Proper)
    (hroot : tree.node adapter.root.parts = some .dir) :
    (adapter.inspectRecord fuel record).Ensures tree.Opens () fun x _ ↦
      (x = .ok () ∧ adapter.Sealed tree record) ∨
        ∃ e, x = .error e ∧ IsolationFailure e ∧ ¬adapter.Sealed tree record := by
  obtain ⟨identity, path, recorded⟩ := record
  rw [inspectRecord, Action.ensures_bind]
  refine (assertRootIntegrity_opens hproper hroot).mono fun x _ hx ↦ ?_
  rcases x with _ | _
  · exact hx.elim
  rw [Action.after_ok, pathFor_eq, Action.lift_ok_bind]
  by_cases hplace : path = adapter.placeOf identity.workspaceId
  swap
  · rw [if_pos hplace]
    exact .inr ⟨_, rfl, ⟨_, rfl⟩, fun hsealed ↦ hplace hsealed.place⟩
  subst hplace
  rw [if_neg (not_not.mpr rfl), Action.ensures_bind]
  refine (answers_directory hproper hroot _).mono fun x _ hx ↦ ?_
  rcases x with _ | refused
  · exact hx.elim
  rw [Action.after_ok]
  cases refused with
  | true =>
    rw [if_pos rfl]
    exact .inr ⟨_, rfl, ⟨_, rfl⟩, fun hsealed ↦ hx.mp rfl hsealed.dir⟩
  | false =>
    have hdir : tree.node (adapter.placeOf identity.workspaceId).parts = some .dir := by
      by_contra hno
      exact absurd (hx.mpr hno) (by simp)
    rw [if_neg (by simp), Action.ensures_bind]
    refine (HostTree.validateSymlinks_opens hproper hdir).mono ?_
    rintro _ ⟨⟩ (⟨rfl, haccepted⟩ | ⟨e, rfl, hfailure, hno⟩)
    swap
    · exact .inr ⟨e, rfl, hfailure, fun hsealed ↦ hno hsealed.accepted⟩
    rw [Action.after_ok, Action.ensures_bind]
    refine HostTree.configDigest_opens.mono ?_
    rintro _ ⟨⟩ (⟨digest, rfl, hconfigured⟩ | ⟨e, rfl, hfailure, hno⟩)
    swap
    · exact .inr ⟨e, rfl, hfailure, fun hsealed ↦ hno _ hsealed.configured⟩
    rw [Action.after_ok]
    by_cases hdigest : digest = recorded
    · subst hdigest
      rw [if_neg (not_not.mpr rfl)]
      exact .inl ⟨rfl, rfl, hdir, haccepted, hconfigured⟩
    · rw [if_pos hdigest]
      exact .inr ⟨_, rfl, ⟨_, rfl⟩, fun hsealed ↦ hdigest (hconfigured.unique hsealed.configured)⟩

/-- How a record is found: refused by the looks alone, or, when its workspace is sealed, as Git
reports its baseline. -/
inductive Verdict (adapter : LocalGitWorkspace) (fuel : ℕ) (tree : HostTree)
    (record : WorkspaceRecord) : OsLog → Except Exc Unit → Prop
  | refused {log : OsLog} {e : Exc} (hbroken : ¬adapter.Sealed tree record)
    (hlooks : ∀ event ∈ log, OsCall.Looks event.1) (hfailure : IsolationFailure e) :
      Verdict adapter fuel tree record log (.error e)
  | verified {looked asked : OsLog} {b : MaterializedBaseline}
      (hsealed : adapter.Sealed tree record) (hlooks : ∀ event ∈ looked, OsCall.Looks event.1)
    (hverify : (adapter.git.verifyBaseline fuel record.path record.identity.baselineSha).Returns
      asked (.ok b)) : Verdict adapter fuel tree record (looked ++ asked) (.ok ())
  | unverified {looked asked : OsLog} {e : Exc} (hsealed : adapter.Sealed tree record)
    (hlooks : ∀ event ∈ looked, OsCall.Looks event.1)
    (hverify : (adapter.git.verifyBaseline fuel record.path record.identity.baselineSha).Returns
      asked (.error e)) :
      Verdict adapter fuel tree record (looked ++ asked)
        (.error (if e.isGitCliError then translateGitError e else e))

/-- Git is asked about a sealed workspace only. -/
theorem Verdict.sealed_of_works {x : Except Exc Unit} {event : Event OsCall.Answer}
    (h : adapter.Verdict fuel tree record log x) (hmem : event ∈ log) (hworks : ¬event.1.Looks) :
    adapter.Sealed tree record := by
  cases h with
  | refused hbroken hlooks hfailure => exact absurd (hlooks event hmem) hworks
  | verified hsealed => exact hsealed
  | unverified hsealed => exact hsealed

/-- **The validation of a record decides** whether its workspace is sealed, and then asks Git. -/
theorem validateRecord_verdict (hproper : tree.Proper)
    (hroot : tree.node adapter.root.parts = some .dir) {x : Except Exc Unit}
    (h : (adapter.validateRecord fuel record).Returns log x)
    (hopens : ∀ e ∈ log, tree.Opens () e ()) : adapter.Verdict fuel tree record log x := by
  rw [validateRecord_eq] at h
  rcases Action.returns_bind.mp h with ⟨looked, asked, ⟨⟩, rfl, hlooked, h⟩ | ⟨e, hlooked, rfl⟩
  · obtain ⟨hopens, -⟩ := List.forall_mem_append.mp hopens
    have hlooks := watches_inspectRecord.looks.leads hlooked
    rcases Action.ensures_iff.mp (inspectRecord_opens hproper hroot) _ _ () hlooked
      (.of_forall hopens) with ⟨-, hsealed⟩ | ⟨e, heq, -⟩
    swap
    · exact absurd heq (by simp)
    obtain ⟨y, hverify, rfl⟩ := Os.returns_translate.mp h
    rcases Action.returns_bind.mp hverify with ⟨l, l', b, rfl, hask, hpure⟩ | ⟨e, hask, rfl⟩
    · obtain ⟨rfl, rfl⟩ := Action.returns_pure.mp hpure
      rw [List.append_nil]
      exact .verified hsealed hlooks hask
    · exact .unverified hsealed hlooks hask
  · rcases Action.ensures_iff.mp (inspectRecord_opens hproper hroot) _ _ () hlooked
      (.of_forall hopens) with ⟨heq, -⟩ | ⟨e, heq, hfailure, hbroken⟩
    · exact absurd heq (by simp)
    obtain rfl := Except.error.inj heq
    exact .refused hbroken (watches_inspectRecord.looks.leads hlooked) hfailure

/-- **What a workspace loads as**: nothing, when nobody has prepared it; else its identity, when the
files are as they were left, and Git reports the baseline. -/
theorem load_decides (hproper : tree.Proper) (hroot : tree.node adapter.root.parts = some .dir)
    {x : Except Exc (Option WorkspaceIdentity)} (h : (adapter.load fuel id).Returns r log x r')
    (hopens : ∀ e ∈ log, tree.Opens () e ()) :
    r' = r ∧
    ((r.records id = none ∧ log = [] ∧ x = .ok none) ∨
      ∃ record y, r.records id = some record ∧ adapter.Verdict fuel tree record log y ∧
        x = y.map fun _ ↦ some record.identity) := by
  rw [load, Method.returns_get_bind] at h
  split at h
  · rename_i hnone
    obtain ⟨rfl, rfl, rfl⟩ := Method.returns_pure.mp h
    exact ⟨rfl, .inl ⟨hnone, rfl, rfl⟩⟩
  · rename_i record hrecord
    rcases Method.returns_perform_bind.mp h with ⟨l, l', ⟨⟩, rfl, hvalid, h⟩ | ⟨e, hvalid, rfl, rfl⟩
    · obtain ⟨rfl, rfl, rfl⟩ := Method.returns_pure.mp h
      rw [List.append_nil] at hopens ⊢
      exact ⟨rfl, .inr ⟨record, _, hrecord, validateRecord_verdict hproper hroot hvalid hopens,
        rfl⟩⟩
    · exact ⟨rfl, .inr ⟨record, _, hrecord, validateRecord_verdict hproper hroot hvalid hopens,
        rfl⟩⟩

end LocalGitWorkspace

/-! ## A sealed workspace -/

namespace HostTree

variable {tree : HostTree} {path : Path}

/-- What a candid host says of a directory, or of a file. -/
theorem Proper.opens_isSymlink (hproper : tree.Proper) (hsettled : tree.Settled path.parts) :
    tree.Opens () ⟨.isSymlink path, .ok false⟩ () := by
  have hno := (hproper.leads_of_settled hsettled).1
  refine ⟨⟨⟨fun h ↦ absurd h (by simp), fun ⟨n, hn, hlink⟩ ↦ ?_⟩, trivial⟩, false, rfl,
    fun hlink ↦ absurd hlink hno⟩
  obtain ⟨n', hn', hsettled⟩ := hsettled
  obtain rfl := Option.some.inj (hn.symm.trans hn')
  exact absurd hlink hsettled

theorem Proper.opens_isDir (hproper : tree.Proper) (hdir : tree.node path.parts = some .dir) :
    tree.Opens () ⟨.isDir path, .ok true⟩ () := by
  have hleads := (hproper.leads_of_settled (FileTree.settled_of_dir hdir)).2
  exact ⟨⟨⟨fun _ ↦ ⟨_, (hleads _).mpr rfl, hdir⟩, fun _ ↦ rfl⟩, trivial⟩, true, rfl, fun _ ↦ rfl⟩

theorem Proper.opens_resolve (hproper : tree.Proper) (hdir : tree.node path.parts = some .dir) :
    tree.Opens () ⟨.resolve path, .ok path⟩ () :=
  ⟨⟨((hproper.leads_of_settled (FileTree.settled_of_dir hdir)).2 _).mpr rfl, trivial⟩, trivial⟩

end HostTree

/-- A workspace with nothing but its Git configuration. -/
def sealedEntries : List (List Text × Node Text Bytes) :=
  [(["work"], .dir), (["work", "workspace-1"], .dir), (["work", "workspace-1", ".git"], .dir),
    (["work", "workspace-1", ".git", "config"], .file ⟨#[]⟩)]

def sealedTree : HostTree := FileTree.ofList sealedEntries (by decide)

/-- What is seen of it, until no control directory can be made. -/
def sealedLog : OsLog :=
  [⟨.resolve ⟨["work"]⟩, .ok ⟨["work"]⟩⟩, ⟨.isSymlink ⟨["work"]⟩, .ok false⟩,
    ⟨.isDir ⟨["work"]⟩, .ok true⟩, ⟨.isSymlink ⟨["work", "workspace-1"]⟩, .ok false⟩,
    ⟨.isDir ⟨["work", "workspace-1"]⟩, .ok true⟩,
    ⟨.scandir ⟨["work", "workspace-1"]⟩, .ok [⟨".git", true⟩]⟩,
    ⟨.isSymlink ⟨["work", "workspace-1", ".git", "config"]⟩, .ok false⟩,
    ⟨.isFile ⟨["work", "workspace-1", ".git", "config"]⟩, .ok true⟩,
    ⟨.readFile ⟨["work", "workspace-1", ".git", "config"]⟩, .ok ⟨#[]⟩⟩,
    ⟨.resolve ⟨["work", "workspace-1"]⟩, .ok ⟨["work", "workspace-1"]⟩⟩,
    ⟨.isDir ⟨["work", "workspace-1"]⟩, .ok true⟩,
    ⟨.isDir ⟨["work", "workspace-1", ".git"]⟩, .ok true⟩,
    ⟨.isSymlink ⟨["work", "workspace-1", ".git"]⟩, .ok false⟩,
    ⟨.mkdtemp ".alicerce-git-control-" ⟨["work"]⟩, .error ⟨.other, "No space left on device"⟩⟩]

theorem sealedTree_proper : sealedTree.Proper := HostTree.proper_ofList (by decide)

theorem sealedLog_opens : ∀ e ∈ sealedLog, sealedTree.Opens () e () := by
  have hproper := sealedTree_proper
  have hsettled : ∀ {path : Path}, sealedTree.node path.parts = some .dir →
      sealedTree.Settled path.parts := FileTree.settled_of_dir
  have hconfig : sealedTree.node ["work", "workspace-1", ".git", "config"] =
      some (.file ⟨#[]⟩) := rfl
  have hfile : sealedTree.Settled (Path.mk ["work", "workspace-1", ".git", "config"]).parts :=
    ⟨_, hconfig, id⟩
  have hleads := ((hproper.leads_of_settled hfile).2 _).mpr rfl
  have hworkspace : sealedTree.Leads ⟨["work", "workspace-1"]⟩ ["work", "workspace-1"] :=
    ((hproper.leads_of_settled (hsettled rfl)).2 _).mpr rfl
  rw [sealedLog]
  simp only [List.forall_mem_cons, List.not_mem_nil, false_implies, implies_true, and_true]
  refine ⟨hproper.opens_resolve rfl, hproper.opens_isSymlink (hsettled rfl),
    hproper.opens_isDir rfl, hproper.opens_isSymlink (hsettled rfl), hproper.opens_isDir rfl,
    ⟨⟨⟨_, hworkspace, rfl, ?_, ?_⟩, ?_⟩, ?_⟩,
    hproper.opens_isSymlink hfile,
    ⟨⟨⟨fun _ ↦ ⟨_, _, hleads, hconfig⟩, fun _ ↦ rfl⟩, trivial⟩, true, rfl, fun _ ↦ rfl⟩,
    ⟨⟨⟨_, hleads, hconfig⟩, trivial⟩, trivial⟩, hproper.opens_resolve rfl, hproper.opens_isDir rfl,
    hproper.opens_isDir rfl, hproper.opens_isSymlink (hsettled rfl), ⟨⟨trivial, trivial⟩, trivial⟩⟩
  · intro name
    constructor
    · intro hsome
      obtain ⟨n, hn⟩ := Option.isSome_iff_exists.mp hsome
      have hmem : ([text "work", text "workspace-1", name], n) ∈ sealedEntries :=
        FileTree.mem_of_lookup hn (by simp)
      have hcases : name = text ".git" ∧ n = .dir := by simpa [sealedEntries] using hmem
      exact hcases.1 ▸ List.mem_cons_self
    · intro hname
      obtain rfl : name = text ".git" := by simpa using hname
      rfl
  · intro entry hentry
    obtain rfl : entry = ⟨".git", true⟩ := by simpa using hentry
    exact ⟨fun _ ↦ rfl, fun _ ↦ ⟨_, .into ⟨.dir, rfl, id⟩ (.done _), rfl⟩⟩
  · exact List.nodup_singleton (text ".git")
  · refine ⟨_, rfl, fun entry hentry _ ↦ ?_⟩
    obtain rfl : entry = ⟨".git", true⟩ := by simpa using hentry
    rfl

set_option maxRecDepth 8000 in
theorem sealedLog_returns : (localWorkspace.load 2 localIdentity.workspaceId).Returns localRegistry
    sealedLog (.error (workspaceError .storageFailure "controlled Git workspace operation failed"))
    localRegistry :=
  .cons (.cons (.cons (.cons (.cons (.cons (.cons (.cons (.cons (.cons (.cons (.cons (.cons (.cons
    (.nil _))))))))))))))

/-- The workspace is sealed, or Git would not have been asked. -/
theorem LocalGitWorkspace.load_decides_sealed : ∃ record,
    localRegistry.records localIdentity.workspaceId = some record ∧
      localWorkspace.Sealed sealedTree record := by
  obtain ⟨-, ⟨-, hlog, -⟩ | ⟨record, y, hrecord, hverdict, -⟩⟩ :=
    LocalGitWorkspace.load_decides sealedTree_proper rfl sealedLog_returns sealedLog_opens
  · exact absurd hlog (by simp [sealedLog])
  · have hmem : ⟨.mkdtemp ".alicerce-git-control-" ⟨["work"]⟩,
        .error ⟨.other, "No space left on device"⟩⟩ ∈ sealedLog := by simp [sealedLog]
    exact ⟨record, hrecord, hverdict.sealed_of_works hmem id⟩

end Alicerce
