import Alicerce.Adapters.GitCli
import Alicerce.Py.Sha256

/-!
# The local Git workspace

The adapter that hands out workspaces: it clones a baseline into a directory of its own under the
workspace root, records what it handed out, and looks at the directory again, at every use, as
something the candidate may have changed in the meantime.

* `Registry` are the two maps of the adapter, and `RegistryMethod` is a program over them.
  `LocalGitWorkspace` is the rest of the adapter, whose roots are apart by a field.
* `LocalGitWorkspace.prepare`, `load`, `snapshot`, `release` and `executionLease` are the
  operations.
* `validateSymlinks` walks through a workspace as `os.walk` does (`walkSymlinks`) and looks at its
  links (`checkLinks`), `configDigest` reads its configuration, and `validateRecord` is all that is
  checked at every use.
* `materialize` clones or leaves nothing behind (`discardUnpublished`); `detach`, `restore` and
  `recoverQuarantine` are the parts of a release.
* `localWorkspace` and `localRun` are an adapter and a run for examples.
-/

set_option autoImplicit false

namespace Alicerce

open Py Lib

/-- `WorkspaceError`. -/
def workspaceError (cause : WorkspaceErrorCause) (detail : Text) : Exc :=
  .workspaceError cause detail

/-- `_WorkspaceRecord`. -/
@[ext]
structure WorkspaceRecord where
  identity : WorkspaceIdentity
  path : Path
  configDigest : Bytes
deriving DecidableEq

/-! ## The registry -/

/-- `_records` and `_run_index`. -/
@[ext]
structure Registry where
  records : WorkspaceId → Option WorkspaceRecord
  runIndex : RunId → Option WorkspaceId

namespace Registry

/-- Before the first workspace. -/
def empty : Registry := ⟨fun _ ↦ none, fun _ ↦ none⟩

/-- Enter a record under its workspace and its run. -/
def publish (record : WorkspaceRecord) (registry : Registry) : Registry where
  records := Function.update registry.records record.identity.workspaceId (some record)
  runIndex := Function.update registry.runIndex record.identity.runId
    (some record.identity.workspaceId)

/-- `_forget`. -/
def forget (record : WorkspaceRecord) (registry : Registry) : Registry where
  records := Function.update registry.records record.identity.workspaceId none
  runIndex := Function.update registry.runIndex record.identity.runId none

/-- `_require_record`. -/
def requireRecord (registry : Registry) (workspace : WorkspaceIdentity) :
    Except Exc WorkspaceRecord :=
  match registry.records workspace.workspaceId with
  | none => .error (workspaceError .notFound workspace.workspaceId.value)
  | some record =>
    if record.identity ≠ workspace then
      .error (workspaceError .conflict workspace.workspaceId.value)
    else .ok record

end Registry

/-- A program over the registry. -/
abbrev RegistryMethod := Method OsCall OsCall.Answer Exc Registry

/-! ## Links -/

/-- `_raise_walk_error`. -/
def walkError : Exc := workspaceError .storageFailure "workspace content cannot be inspected"

/-- The links among the names of a directory, which lead to somewhere inside; what is returned are
the directories left to walk. -/
def checkLinks (workspace current : Path) : List Text → List Text → Os (List Text)
  | [], directories => pure directories
  | name :: names, directories => do
    let path := current.join name
    if ← Os.isSymlink path then do
      let target ← Os.translate (fun e ↦ e.isOsError || e.isRuntimeError)
        (fun _ ↦ workspaceError .isolationFailure "workspace contains an invalid symlink")
        (Os.resolve path)
      if target.IsRelativeTo workspace then
        checkLinks workspace current names (directories.erase name)
      else .raise (workspaceError .isolationFailure "workspace symlink escapes its root")
    else checkLinks workspace current names directories

/-- `stack.append`, in `os.walk`, of the directories that are no links. -/
def pushDirectories (current : Path) : List Text → List Path → Os (List Path)
  | [], stack => pure stack
  | name :: names, stack => do
    if ← Os.islink (current.join name) then pushDirectories current names stack
    else pushDirectories current names (current.join name :: stack)

/-- The loop of `_validate_symlinks`, by the stack of `os.walk`, with its top in front. -/
def walkSymlinks (workspace : Path) : ℕ → List Path → Os Unit
  | 0, _ => .running
  | _ + 1, [] => pure ()
  | fuel + 1, current :: stack => do
    let entries ← Os.translate Exc.isOsError (fun _ ↦ walkError) (Os.scandir current)
    let directories := (entries.filter (·.isDir)).map (·.name)
    let filenames := (entries.filter (!·.isDir)).map (·.name)
    let directories :=
      if current = workspace then directories.filter fun name ↦ name ≠ text ".git"
      else directories
    let directories ← checkLinks workspace current (directories ++ filenames) directories
    let stack ← pushDirectories current directories.reverse stack
    walkSymlinks workspace fuel stack

/-- `_validate_symlinks`. -/
def validateSymlinks (fuel : ℕ) (workspace : Path) : Os Unit :=
  walkSymlinks workspace fuel [workspace]

/-- `_config_digest`. -/
def configDigest (workspace : Path) : Os Bytes := do
  let config := (workspace.join ".git").join "config"
  if ← Os.or (Os.isSymlink config) (do return !(← Os.isFile config)) then
    .raise (workspaceError .isolationFailure "workspace Git configuration is unavailable")
  else
    Os.translate Exc.isOsError
      (fun _ ↦ workspaceError .storageFailure "workspace Git configuration cannot be read")
      (do return sha256 (← Os.readFile config))

/-- `_translate_git_error`. -/
def translateGitError : Exc → Exc
  | .gitCliError cause _ =>
    workspaceError
      (if cause = .invalidConfiguration ∨ cause = .invalidPath ∨ cause = .destinationExists ∨
          cause = .baselineMismatch then .isolationFailure else .storageFailure)
      "controlled Git workspace operation failed"
  | e => e

/-! ## The adapter -/

/-- `_overlaps`. -/
def Overlaps (left right : Path) : Prop :=
  left = right ∨ left.IsRelativeTo right ∨ right.IsRelativeTo left

instance (left right : Path) : Decidable (Overlaps left right) :=
  inferInstanceAs (Decidable (_ ∨ _))

/-- `LocalGitWorkspace`, less its registry. -/
structure LocalGitWorkspace where
  source : Path
  root : Path
  protectedRoots : List Path
  git : ControlledGitCli
  /-- `workspace_root must be disjoint from protected roots`. -/
  disjoint : ∀ protectedRoot ∈ source :: protectedRoots, ¬Overlaps root protectedRoot

namespace LocalGitWorkspace

variable (adapter : LocalGitWorkspace)

/-- `_is_protected`. -/
def IsProtected (path : Path) : Prop :=
  ∃ protectedRoot ∈ adapter.source :: adapter.protectedRoots, Overlaps path protectedRoot

instance (path : Path) : Decidable (adapter.IsProtected path) :=
  inferInstanceAs (Decidable (∃ _ ∈ _, _))

/-- `_path_for`. -/
def pathFor (workspaceId : WorkspaceId) : Except Exc Path :=
  let path := adapter.root.join workspaceId.value
  if path.parent ≠ adapter.root then
    .error (workspaceError .isolationFailure "workspace capability escaped its root")
  else .ok path

/-- `_assert_root_integrity`. -/
def assertRootIntegrity : Os Unit := do
  let resolved ← Os.translate Exc.isOsError
    (fun _ ↦ workspaceError .storageFailure "workspace root is unavailable")
    (Os.resolve adapter.root)
  if ← Os.or (Os.isSymlink adapter.root) (Os.or (do return !(← Os.isDir adapter.root))
      (pure (decide (resolved ≠ adapter.root)))) then
    .raise (workspaceError .isolationFailure "workspace root integrity check failed")

/-- `_validate_record`. -/
def validateRecord (fuel : ℕ) (record : WorkspaceRecord) : Os Unit := do
  adapter.assertRootIntegrity
  let expected ← .lift (adapter.pathFor record.identity.workspaceId)
  if record.path ≠ expected then
    .raise (workspaceError .isolationFailure "workspace mapping integrity check failed")
  else if ← Os.or (Os.isSymlink record.path) (Os.or (do return !(← Os.isDir record.path))
      (pure (decide (adapter.IsProtected record.path)))) then
    .raise (workspaceError .isolationFailure "workspace directory integrity check failed")
  else do
    validateSymlinks fuel record.path
    let digest ← configDigest record.path
    if digest ≠ record.configDigest then
      .raise (workspaceError .isolationFailure "workspace Git configuration changed")
    else
      Os.translate Exc.isGitCliError translateGitError
        (discard (adapter.git.verifyBaseline fuel record.path record.identity.baselineSha))

/-- `_discard_unpublished`. -/
def discardUnpublished (path : Path) : Os Unit :=
  if path.parent ≠ adapter.root ∨ adapter.IsProtected path then pure ()
  else
    Os.suppress Exc.isOsError do
      if ← Os.or (Os.isSymlink path)
          (do if ← Os.pathExists path then return !(← Os.isDir path) else return false) then
        Os.unlink path
      else if ← Os.isDir path then
        Os.rmtree path

/-- Clone the baseline of a run and look at the clone, or leave nothing behind. -/
def materialize (fuel : ℕ) (identity : RunIdentity) (destination : Path) : Os Bytes :=
  .tryCatch
    (do
      discard (adapter.git.materializeBaseline fuel adapter.source destination
        identity.baselineSha)
      validateSymlinks fuel destination
      let digest ← configDigest destination
      discard (adapter.git.verifyBaseline fuel destination identity.baselineSha)
      return digest)
    fun e ↦
      if e.isGitCliError then do
        adapter.discardUnpublished destination
        .raise (translateGitError e)
      else if e.isWorkspaceError then do
        adapter.discardUnpublished destination
        .raise e
      else if e.isOsError then do
        adapter.discardUnpublished destination
        .raise (workspaceError .storageFailure "workspace preparation failed")
      else .raise e

/-- `new_workspace_id`. -/
def newWorkspaceId : Os WorkspaceId := .ask .newWorkspaceId id

/-- `prepare`. -/
def prepare (fuel : ℕ) (identity : RunIdentity) : RegistryMethod WorkspaceIdentity := do
  .perform adapter.assertRootIntegrity
  let registry ← .get
  if (registry.runIndex identity.runId).isSome then
    .raise (workspaceError .alreadyExists identity.runId.value)
  else do
    let workspaceId ← .perform newWorkspaceId
    let destination ← .perform (.lift (adapter.pathFor workspaceId))
    let occupied ← .perform (Os.or (pure (registry.records workspaceId).isSome)
      (Os.or (Os.pathExists destination) (Os.isSymlink destination)))
    if occupied then
      .raise (workspaceError .alreadyExists workspaceId.value)
    else do
      let workspace : WorkspaceIdentity := ⟨workspaceId, identity.runId, identity.baselineSha⟩
      let digest ← .perform (adapter.materialize fuel identity destination)
      .modify (Registry.publish ⟨workspace, destination, digest⟩)
      return workspace

/-- `load`. -/
def load (fuel : ℕ) (workspaceId : WorkspaceId) : RegistryMethod (Option WorkspaceIdentity) := do
  match (← .get).records workspaceId with
  | none => return none
  | some record => do
    .perform (adapter.validateRecord fuel record)
    return some record.identity

/-- `snapshot`. -/
def snapshot (fuel : ℕ) (workspace : WorkspaceIdentity) : RegistryMethod CandidateIdentity := do
  let registry ← .get
  .perform do
    let record ← .lift (registry.requireRecord workspace)
    adapter.validateRecord fuel record
    let candidateSha ← Os.translate Exc.isGitCliError translateGitError do
      let candidateSha ← adapter.git.snapshotCandidate fuel record.path
      adapter.validateRecord fuel record
      return candidateSha
    return bindCandidate record.identity candidateSha

/-- The directory a workspace is moved to before it is removed. -/
def quarantineOf (workspaceId : WorkspaceId) : Path :=
  adapter.root.join (".release-" ++ workspaceId.value)

/-- Remove what an earlier release has left behind. -/
def recoverQuarantine (quarantine : Path) : Os Unit := do
  if ← Os.or (Os.pathExists quarantine) (Os.isSymlink quarantine) then
    Os.translate Exc.isOsError
      (fun _ ↦ workspaceError .storageFailure "workspace quarantine recovery failed") do
      if ← Os.or (Os.isSymlink quarantine) (do return !(← Os.isDir quarantine)) then
        Os.unlink quarantine
      else Os.rmtree quarantine

/-- Move a workspace out of its place and remove it; what is found in place of a directory is
removed too, and reported. -/
def detach (record : WorkspaceRecord) (quarantine : Path) : RegistryMethod Unit := do
  .perform (Os.rename record.path quarantine)
  if ← .perform (Os.isSymlink quarantine) then do
    .perform (Os.unlink quarantine)
    .modify (Registry.forget record)
    .raise (workspaceError .isolationFailure "workspace path was replaced by a symlink")
  else if !(← .perform (Os.isDir quarantine)) then do
    .perform (Os.unlink quarantine)
    .modify (Registry.forget record)
    .raise (workspaceError .isolationFailure "workspace path was replaced by a non-directory")
  else .perform (Os.rmtree quarantine)

/-- Move a workspace back, if it is away. -/
def restore (record : WorkspaceRecord) (quarantine : Path) : Os Unit := do
  if ← Os.pathExists quarantine then
    if !(← Os.pathExists record.path) then
      Os.suppress Exc.isOsError (Os.rename quarantine record.path)

/-- `release`, of a record that is there. -/
def releaseRecord (record : WorkspaceRecord) (workspace : WorkspaceIdentity) :
    RegistryMethod Unit := do
  .perform adapter.assertRootIntegrity
  let expected ← .perform (.lift (adapter.pathFor workspace.workspaceId))
  if record.path ≠ expected ∨ adapter.IsProtected record.path then
    .raise (workspaceError .isolationFailure
      "recorded workspace path is outside its capability root")
  else do
    let quarantine := adapter.quarantineOf workspace.workspaceId
    if !(← .perform (Os.or (Os.pathExists record.path) (Os.isSymlink record.path))) then do
      .perform (recoverQuarantine quarantine)
      .modify (Registry.forget record)
    else if ← .perform (Os.or (Os.pathExists quarantine) (Os.isSymlink quarantine)) then
      .raise (workspaceError .storageFailure "release quarantine is occupied")
    else do
      .tryCatch (detach record quarantine) fun e ↦
        if e.isOsError then do
          .perform (restore record quarantine)
          .raise (workspaceError .storageFailure "workspace release failed")
        else .raise e
      .modify (Registry.forget record)

/-- `release`. -/
def release (workspace : WorkspaceIdentity) : RegistryMethod Unit := do
  match (← .get).records workspace.workspaceId with
  | none => return ()
  | some record =>
    if record.identity ≠ workspace then
      .raise (workspaceError .conflict workspace.workspaceId.value)
    else adapter.releaseRecord record workspace

/-- The entry of `execution_lease`. -/
def enterLease (fuel : ℕ) (registry : Registry) (workspace : WorkspaceIdentity) :
    Os WorkspaceRecord := do
  let record ← .lift (registry.requireRecord workspace)
  adapter.validateRecord fuel record
  return record

/-- `with execution_lease(workspace) as root: body(root)`. -/
def executionLease {α : Type} (fuel : ℕ) (registry : Registry) (workspace : WorkspaceIdentity)
    (body : Path → Os α) : Os α := do
  let record ← adapter.enterLease fuel registry workspace
  .tryFinally (body record.path) (adapter.validateRecord fuel record)

end LocalGitWorkspace

/-! ## An adapter -/

/-- Git, with its default limits. -/
def localGit : ControlledGitCli := ⟨⟨["usr", "bin", "git"]⟩, 30, 1048576, by decide, by decide⟩

/-- An adapter over a repository, with its workspaces elsewhere. -/
def localWorkspace : LocalGitWorkspace := ⟨⟨["repo"]⟩, ⟨["work"]⟩, [], localGit, by decide⟩

/-- The run it is asked for. -/
def localRun : RunIdentity := storeIdentity qualityLoop

/-- A Git that reports the baseline of the run as its head, and no remotes. -/
def headOutput (argv : List Text) : List UInt8 :=
  if text "rev-parse" ∈ argv then
    ((encodeUtf8 localRun.baselineSha.value).getD ⟨#[]⟩).data.toList
  else []

end Alicerce
