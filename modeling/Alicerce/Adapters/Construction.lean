import Alicerce.Adapters.CommandExecutor
import Alicerce.Adapters.GitConduct

/-!
# Constructing the adapters

The constructors of the local adapters, and what their checks are worth later on.

* `pin` makes a `TrustedExecutable` or a `PinnedBubblewrap` by five looks at its path (`pinLog`),
  the last of which reads its content.  `pin_returns_iff`: the pin is made by these looks, with the
  digest of what was read.
* `pinChanged_returns_iff`: it holds later just when the same five looks find an executable file
  with that digest.  What was constructed and what is verified is then told from the log alone.
* `LinuxProcessSandboxBackend.new`, `LocalCommandExecutor.new`, `ControlledGitCli.new` and
  `LocalGitWorkspace.new` are the other constructors.
* `LocalGitWorkspace.new_returns`: a workspace adapter is constructed with what its paths resolved
  to, which were found to be directories (`directoryLog`).
-/

set_option autoImplicit false

namespace Alicerce

open Py Lib

/-! ## Pins -/

/-- The `__post_init__` of `TrustedExecutable` and of `_PinnedBubblewrap`, which differ in what
their errors call the path: the path itself, and its digest. -/
def pin (what : Text) (path : Path) : Os (Path × Bytes) := do
  if ← Os.isSymlink path then
    .raise (.valueError (what ++ " path must be absolute and not a symlink"))
  else
    Os.translate Exc.isOsError (fun _ ↦ .valueError (what ++ " path is unavailable")) do
      let resolved ← Os.resolve path
      if ← Os.or (pure (decide (resolved ≠ path))) (Os.or (do return !(← Os.isFile resolved))
          (do return !(← Os.accessExecutable resolved))) then
        .raise (.valueError (what ++ " path must identify an executable regular file"))
      else return (resolved, sha256 (← Os.readFile resolved))

/-- Pin an executable under an identifier. -/
def TrustedExecutable.new (executableId : ExecutableId) (path : Path) : Os TrustedExecutable := do
  let (path, digest) ← pin "executable" path
  return ⟨executableId, path, digest⟩

/-- Pin the sandbox binary. -/
def PinnedBubblewrap.new (path : Path) : Os PinnedBubblewrap := do
  let (path, digest) ← pin "bubblewrap" path
  return ⟨path, digest⟩

/-- Pin the explicitly configured bubblewrap executable. -/
def LinuxProcessSandboxBackend.new (platform : Text) (bubblewrapPath : Path) :
    Os LinuxProcessSandboxBackend :=
  if platform ≠ "linux" then
    .raise (.osError .other "LinuxProcessSandboxBackend requires Linux")
  else do
    let bubblewrap ← PinnedBubblewrap.new bubblewrapPath
    return ⟨bubblewrap⟩

/-- Bind workspace capabilities, executable registry, and trusted sandbox. -/
def LocalCommandExecutor.new (workspace : LocalGitWorkspace) (executables : List TrustedExecutable)
    (sandbox : ProcessSandboxBackend) : Except Exc LocalCommandExecutor :=
  if hsorted : StrictlySorted (executables.map (·.executableId.value)) then
    .ok ⟨workspace, executables, sandbox, hsorted⟩
  else .error (.valueError "executables must be unique and sorted by identifier")

/-- `_resolve_directory`. -/
def resolveDirectory (what : Text) (path : Path) : Os Path := do
  if ← Os.isSymlink path then
    .raise (.valueError (what ++ " must be an absolute non-symlink directory"))
  else
    let resolved ← Os.translate Exc.isOsError (fun _ ↦ .valueError (what ++ " must exist"))
      (Os.resolve path)
    if !(← Os.isDir resolved) then .raise (.valueError (what ++ " must be a directory"))
    else return resolved

/-- `_resolve_directory`, of every protected root. -/
def resolveDirectories (what : Text) : List Path → Os (List Path)
  | [] => pure []
  | path :: paths => do
    let resolved ← resolveDirectory what path
    return resolved :: (← resolveDirectories what paths)

/-- Bind an absolute executable and fixed resource limits. -/
def ControlledGitCli.new (executable : Path) (timeoutSeconds : ℚ) (maxOutputBytes : ℤ) :
    Os ControlledGitCli := do
  let resolved ← Os.translate Exc.isOsError
    (fun e ↦ gitCliError .invalidConfiguration (osErrorText e)) (Os.resolve executable)
  if ← Os.or (do return !(← Os.isFile resolved)) (do return !(← Os.accessExecutable resolved)) then
    .raise (gitCliError .invalidConfiguration "Git executable must be an executable file")
  else if htimeout : 0 < timeoutSeconds then
    if houtput : 0 < maxOutputBytes then
      return ⟨resolved, timeoutSeconds, maxOutputBytes.toNat, htimeout, Int.lt_toNat.mpr houtput⟩
    else .raise (.valueError "max_output_bytes must be positive")
  else .raise (.valueError "timeout_seconds must be positive")

/-- Bind trusted roots and Git mechanics. -/
def LocalGitWorkspace.new (sourceRepository workspaceRoot : Path) (protectedRoots : List Path)
    (git : ControlledGitCli) : Os LocalGitWorkspace := do
  let source ← resolveDirectory "source_repository" sourceRepository
  let root ← resolveDirectory "workspace_root" workspaceRoot
  let protectedRoots ← resolveDirectories "protected_root" protectedRoots
  if hdisjoint : ∀ protectedRoot ∈ source :: protectedRoots, ¬Overlaps root protectedRoot then
    return ⟨source, root, protectedRoots, git, hdisjoint⟩
  else .raise (.valueError "workspace_root must be disjoint from protected roots")

/-! ## The looks of a pin -/

/-- The looks at an executable regular file of that content, which no link leads to. -/
def pinLog (path : Path) (content : Bytes) : OsLog :=
  [⟨.isSymlink path, .ok false⟩, ⟨.resolve path, .ok path⟩, ⟨.isFile path, .ok true⟩,
    ⟨.accessExecutable path, .ok true⟩, ⟨.readFile path, .ok content⟩]

section Pins

variable {what : Text} {path : Path} {digest : Bytes} {log : OsLog}

/-! ### Looks -/

theorem isSymlink_returns_iff {answer : Bool} : (Os.isSymlink path).Returns log (.ok answer) ↔
    log = [⟨.isSymlink path, .ok answer⟩] := by
  simp [Os.isSymlink, Action.returns_ask, eq_comm (a := Except.ok answer), mapError_eq_ok_iff]

theorem resolve_returns_iff {resolved : Path} : (Os.resolve path).Returns log (.ok resolved) ↔
    log = [⟨.resolve path, .ok resolved⟩] := by
  simp [Os.resolve, Action.returns_ask, eq_comm (a := Except.ok resolved), mapError_eq_ok_iff]

theorem isFile_returns_iff {answer : Bool} : (Os.isFile path).Returns log (.ok answer) ↔
    log = [⟨.isFile path, .ok answer⟩] := by
  simp [Os.isFile, Action.returns_ask, eq_comm (a := Except.ok answer), mapError_eq_ok_iff]

theorem accessExecutable_returns_iff {answer : Bool} :
    (Os.accessExecutable path).Returns log (.ok answer) ↔
      log = [⟨.accessExecutable path, .ok answer⟩] := by
  simp [Os.accessExecutable, Action.returns_ask, eq_comm (a := Except.ok answer),
    mapError_eq_ok_iff]

theorem readFile_returns_iff {content : Bytes} : (Os.readFile path).Returns log (.ok content) ↔
    log = [⟨.readFile path, .ok content⟩] := by
  simp [Os.readFile, Action.returns_ask, eq_comm (a := Except.ok content), mapError_eq_ok_iff]

/-! ### Checks that are passed -/

theorem returns_or_false_iff {p q : Os Bool} : (Os.or p q).Returns log (.ok false) ↔
    ∃ l l', log = l ++ l' ∧ p.Returns l (.ok false) ∧ q.Returns l' (.ok false) := by
  constructor
  · exact returns_or_false
  · rintro ⟨l, l', rfl, hp, hq⟩
    exact Action.returns_bind_ok.mpr ⟨l, l', false, rfl, hp, hq⟩

theorem returns_bind_pure_iff {α β : Type} {p : Os α} {g : α → β} {b : β} :
    (do return g (← p) : Os β).Returns log (.ok b) ↔ ∃ a, g a = b ∧ p.Returns log (.ok a) := by
  rw [Action.returns_bind_ok]
  constructor
  · rintro ⟨l, l', a, rfl, hp, hpure⟩
    obtain ⟨rfl, hb⟩ := Action.returns_pure.mp hpure
    exact ⟨a, (Except.ok.inj hb).symm, (List.append_nil l).symm ▸ hp⟩
  · rintro ⟨a, rfl, hp⟩
    exact ⟨log, [], a, (List.append_nil log).symm, hp, Action.returns_pure.mpr ⟨rfl, rfl⟩⟩

/-- A check that refuses has not been passed where something is returned. -/
theorem returns_unless_iff {α : Type} {p : Os Bool} {e : Exc} {q : Os α} {a : α} :
    (do if ← p then .raise e else q : Os α).Returns log (.ok a) ↔
      ∃ l l', log = l ++ l' ∧ p.Returns l (.ok false) ∧ q.Returns l' (.ok a) := by
  rw [Action.returns_bind_ok]
  constructor
  · rintro ⟨l, l', refused, rfl, hp, hq⟩
    cases refused with
    | true => exact absurd (Action.returns_raise.mp hq).2 (by simp)
    | false => exact ⟨l, l', rfl, hp, hq⟩
  · rintro ⟨l, l', rfl, hp, hq⟩
    exact ⟨l, l', false, rfl, hp, hq⟩

/-! ### What a pin has looked at -/

/-- **A pin holds** just when the five looks find an executable regular file with its digest. -/
theorem pinChanged_returns_iff : (pinChanged path digest).Returns log (.ok false) ↔
    ∃ content, log = pinLog path content ∧ sha256 content = digest := by
  simp [pinChanged, returns_or_false_iff, returns_bind_pure_iff, isSymlink_returns_iff,
    resolve_returns_iff, isFile_returns_iff, accessExecutable_returns_iff, readFile_returns_iff,
    pinLog]

theorem identifies_iff {resolved : Path} :
    (Os.or (pure (decide (resolved ≠ path))) (Os.or (do return !(← Os.isFile resolved))
      (do return !(← Os.accessExecutable resolved)))).Returns log (.ok false) ↔
      log = [⟨.isFile resolved, .ok true⟩, ⟨.accessExecutable resolved, .ok true⟩] ∧
        resolved = path := by
  simp [returns_or_false_iff, returns_bind_pure_iff, Action.returns_pure, isFile_returns_iff,
    accessExecutable_returns_iff]

/-- **A pin is made** by the same five looks, with the digest of what was read. -/
theorem pin_returns_iff {found : Path × Bytes} : (pin what path).Returns log (.ok found) ↔
    ∃ content, log = pinLog path content ∧ found = (path, sha256 content) := by
  rw [pin, returns_unless_iff]
  constructor
  · rintro ⟨_, _, rfl, hlink, hbody⟩
    obtain ⟨_, _, resolved, rfl, hresolve, hrest⟩ :=
      Action.returns_bind_ok.mp (returns_translate_ok.mp hbody)
    obtain ⟨_, _, rfl, hfile, hpin⟩ := returns_unless_iff.mp hrest
    obtain ⟨content, rfl, hread⟩ := returns_bind_pure_iff.mp hpin
    obtain ⟨rfl, rfl⟩ := identifies_iff.mp hfile
    rw [isSymlink_returns_iff.mp hlink, resolve_returns_iff.mp hresolve,
      readFile_returns_iff.mp hread]
    exact ⟨content, rfl, rfl⟩
  · rintro ⟨content, rfl, rfl⟩
    refine ⟨_, _, rfl, isSymlink_returns_iff.mpr rfl, returns_translate_ok.mpr ?_⟩
    refine Action.returns_bind_ok.mpr ⟨_, _, path, rfl, resolve_returns_iff.mpr rfl, ?_⟩
    refine returns_unless_iff.mpr ⟨_, _, rfl, identifies_iff.mpr ⟨rfl, rfl⟩, ?_⟩
    exact returns_bind_pure_iff.mpr ⟨content, rfl, readFile_returns_iff.mpr rfl⟩

theorem pin_bind_returns_iff {α : Type} {g : Path × Bytes → α} {a : α} :
    (do return g (← pin what path) : Os α).Returns log (.ok a) ↔
      ∃ content, log = pinLog path content ∧ a = g (path, sha256 content) := by
  rw [returns_bind_pure_iff]
  simp only [pin_returns_iff]
  constructor
  · rintro ⟨found, rfl, content, rfl, rfl⟩
    exact ⟨content, rfl, rfl⟩
  · rintro ⟨content, rfl, rfl⟩
    exact ⟨_, rfl, content, rfl, rfl⟩

theorem pinned_returns_iff {caught : Exc → Bool} {f : Exc → Exc} {e : Exc} :
    (Os.translate caught f do if ← pinChanged path digest then .raise e).Returns log (.ok ()) ↔
      ∃ content, log = pinLog path content ∧ sha256 content = digest := by
  rw [returns_translate_ok, returns_unless_iff, ← pinChanged_returns_iff]
  constructor
  · rintro ⟨l, l', rfl, hpin, hpure⟩
    obtain ⟨rfl, -⟩ := Action.returns_pure.mp hpure
    rwa [List.append_nil]
  · exact fun h ↦ ⟨log, [], (List.append_nil log).symm, h, Action.returns_pure.mpr ⟨rfl, rfl⟩⟩

namespace TrustedExecutable

theorem new_returns_iff {executableId : ExecutableId} {executable : TrustedExecutable} :
    (new executableId path).Returns log (.ok executable) ↔
      ∃ content, log = pinLog path content ∧ executable = ⟨executableId, path, Py.sha256 content⟩ :=
  pin_bind_returns_iff

theorem verify_returns_iff {executable : TrustedExecutable} :
    executable.verify.Returns log (.ok ()) ↔
      ∃ content, log = pinLog executable.path content ∧ Py.sha256 content = executable.sha256 :=
  pinned_returns_iff

end TrustedExecutable

namespace PinnedBubblewrap

theorem new_returns_iff {bubblewrap : PinnedBubblewrap} :
    (new path).Returns log (.ok bubblewrap) ↔
      ∃ content, log = pinLog path content ∧ bubblewrap = ⟨path, Py.sha256 content⟩ :=
  pin_bind_returns_iff

theorem verify_returns_iff {bubblewrap : PinnedBubblewrap} :
    bubblewrap.verify.Returns log (.ok ()) ↔
      ∃ content, log = pinLog bubblewrap.path content ∧ Py.sha256 content = bubblewrap.sha256 :=
  pinned_returns_iff

end PinnedBubblewrap

theorem LinuxProcessSandboxBackend.new_returns_iff {platform : Text}
    {backend : LinuxProcessSandboxBackend} :
    (LinuxProcessSandboxBackend.new platform path).Returns log (.ok backend) ↔
      platform = text "linux" ∧
        ∃ content, log = pinLog path content ∧ backend = ⟨⟨path, sha256 content⟩⟩ := by
  rw [LinuxProcessSandboxBackend.new]
  by_cases hplatform : platform = text "linux"
  · rw [if_neg (not_not.mpr hplatform), and_iff_right hplatform, returns_bind_pure_iff]
    simp only [PinnedBubblewrap.new_returns_iff]
    constructor
    · rintro ⟨bubblewrap, rfl, content, rfl, rfl⟩
      exact ⟨content, rfl, rfl⟩
    · rintro ⟨content, rfl, rfl⟩
      exact ⟨_, rfl, content, rfl, rfl⟩
  · rw [if_pos hplatform]
    exact iff_of_false (fun h ↦ absurd (Action.returns_raise.mp h).2 (by simp)) fun h ↦
      hplatform h.1

end Pins

/-! ## Directories -/

section Directories

variable {what : Text} {path resolved : Path} {log : OsLog}

/-- The looks at a directory that a path which is no link resolves to. -/
def directoryLog (path resolved : Path) : OsLog :=
  [⟨.isSymlink path, .ok false⟩, ⟨.resolve path, .ok resolved⟩, ⟨.isDir resolved, .ok true⟩]

theorem returns_resolveDirectory (h : (resolveDirectory what path).Returns log (.ok resolved)) :
    log = directoryLog path resolved := by
  obtain ⟨_, _, rfl, hlink, hrest⟩ := returns_unless_iff.mp h
  obtain ⟨_, _, found, rfl, hresolve, hrest⟩ := Action.returns_bind_ok.mp hrest
  obtain ⟨_, _, isDir, rfl, hdir, hrest⟩ := Action.returns_bind_ok.mp hrest
  split at hrest
  · exact absurd (Action.returns_raise.mp hrest).2 (by simp)
  rename_i hisDir
  obtain ⟨rfl, heq⟩ := Action.returns_pure.mp hrest
  obtain rfl := Except.ok.inj heq
  obtain rfl : isDir = true := by simpa using hisDir
  rw [isSymlink_returns_iff.mp hlink, resolve_returns_iff.mp (returns_translate_ok.mp hresolve),
    returns_isDir hdir]
  rfl

theorem returns_resolveDirectories {paths found : List Path}
    (h : (resolveDirectories what paths).Returns log (.ok found)) :
    ∀ resolved ∈ found, ∃ path ∈ paths, directoryLog path resolved ⊆ log := by
  induction paths generalizing log found with
  | nil =>
    obtain rfl := Except.ok.inj (Action.returns_pure.mp h).2
    simp
  | cons path paths ih =>
    obtain ⟨l, l', first, rfl, hfirst, hrest⟩ := Action.returns_bind_ok.mp h
    obtain ⟨l₁, l₂, others, rfl, hothers, hpure⟩ := Action.returns_bind_ok.mp hrest
    obtain ⟨rfl, heq⟩ := Action.returns_pure.mp hpure
    obtain rfl := Except.ok.inj heq
    obtain rfl := returns_resolveDirectory hfirst
    refine List.forall_mem_cons.mpr ⟨⟨path, List.mem_cons_self, List.subset_append_left _ _⟩,
      fun resolved hmem ↦ ?_⟩
    obtain ⟨path', hpath', hlog⟩ := ih hothers resolved hmem
    rw [List.append_nil]
    exact ⟨path', List.mem_cons_of_mem _ hpath', List.subset_append_of_subset_right _ hlog⟩

theorem watches_resolveDirectory : Watches (resolveDirectory what path) := by
  refine (watches_ask (by trivial)).bind fun _ ↦ .ite trivial ?_
  refine (Os.calls_translate (watches_ask (by trivial))).bind fun _ ↦ ?_
  exact (watches_ask (by trivial)).bind fun _ ↦ .ite trivial trivial

theorem watches_resolveDirectories (paths : List Path) :
    Watches (resolveDirectories what paths) := by
  induction paths with
  | nil => trivial
  | cons path paths ih => exact watches_resolveDirectory.bind fun _ ↦ ih.bind fun _ ↦ trivial

namespace LocalGitWorkspace

variable {sourceRepository workspaceRoot : Path} {protectedRoots : List Path}
  {git : ControlledGitCli} {adapter : LocalGitWorkspace}

/-- An adapter is constructed by looking. -/
theorem watches_new : Watches (new sourceRepository workspaceRoot protectedRoots git) := by
  refine watches_resolveDirectory.bind fun source ↦ watches_resolveDirectory.bind fun root ↦
    (watches_resolveDirectories _).bind fun protectedRoots ↦ ?_
  split
  · trivial
  · trivial

/-- **What an adapter is constructed with** has resolved to directories. -/
theorem new_returns
    (h : (new sourceRepository workspaceRoot protectedRoots git).Returns log (.ok adapter)) :
    adapter.git = git ∧ ∀ resolved ∈ adapter.root :: adapter.source :: adapter.protectedRoots,
      ∃ path ∈ workspaceRoot :: sourceRepository :: protectedRoots,
        directoryLog path resolved ⊆ log := by
  obtain ⟨_, l, source, rfl, hsource, h⟩ := Action.returns_bind_ok.mp h
  obtain ⟨_, l₁, root, rfl, hroot, h⟩ := Action.returns_bind_ok.mp h
  obtain ⟨l₂, l₃, found, rfl, hfound, h⟩ := Action.returns_bind_ok.mp h
  split at h
  swap
  · exact absurd (Action.returns_raise.mp h).2 (by simp)
  obtain ⟨rfl, heq⟩ := Action.returns_pure.mp h
  obtain rfl := Except.ok.inj heq
  obtain rfl := returns_resolveDirectory hsource
  obtain rfl := returns_resolveDirectory hroot
  rw [List.append_nil]
  have hbehind : ∀ {path resolved : Path}, directoryLog path resolved ⊆ l₂ →
      directoryLog path resolved ⊆
        directoryLog sourceRepository source ++ (directoryLog workspaceRoot root ++ l₂) := fun h ↦
    List.subset_append_of_subset_right _ (List.subset_append_of_subset_right _ h)
  refine ⟨rfl, List.forall_mem_cons.mpr ⟨⟨workspaceRoot, List.mem_cons_self, ?_⟩,
    List.forall_mem_cons.mpr ⟨⟨sourceRepository, by simp, List.subset_append_left _ _⟩, ?_⟩⟩⟩
  · exact List.subset_append_of_subset_right _ (List.subset_append_left _ _)
  · intro resolved hmem
    obtain ⟨path, hpath, hlog⟩ := returns_resolveDirectories hfound resolved hmem
    exact ⟨path, by simp [hpath], hbehind hlog⟩

end LocalGitWorkspace

end Directories

end Alicerce
