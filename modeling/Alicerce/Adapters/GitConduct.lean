import Alicerce.Adapters.GitWorkspace
import Alicerce.Adapters.HostChanges
import Alicerce.Lib.Conduct

/-!
# What the workspace operations touch

Which calls the operations of a workspace make, and on what.

* `Watches`: a program only looks.  The checks around Git do (`watches_validateSymlinks`,
  `watches_configDigest`, `watches_assertRootIntegrity`).
* `Drives`: a program does nothing but run child processes, as one Git command does (`drives_run`).
* `Scope` says, by what has happened so far, where control directories may be made, which entries
  may be removed, and whether Git may run; `Scope.Allows` is the rule this makes.
* `Scope.Keeps` and `Scope.KeepsIn` say that a program stays in a scope.  What Git does with a
  control directory of its own does (`keeps_withControl`), and so do the operations made of it.
-/

set_option autoImplicit false

namespace Alicerce

open Py Lib

/-! ## Answers that were given -/

section Answers

variable {log : OsLog} {path resolved : Path} {answer : Bool}

theorem returns_or_false {p q : Os Bool} (h : (Os.or p q).Returns log (.ok false)) :
    ∃ l l', log = l ++ l' ∧ p.Returns l (.ok false) ∧ q.Returns l' (.ok false) := by
  obtain ⟨l, l', b, rfl, hp, hq⟩ := Action.returns_bind_ok.mp h
  cases b with
  | true => exact absurd (Action.returns_pure.mp hq).2 (by simp)
  | false => exact ⟨l, l', rfl, hp, hq⟩

theorem returns_not_false {p : Os Bool}
    (h : (do return !(← p) : Os Bool).Returns log (.ok false)) : p.Returns log (.ok true) := by
  obtain ⟨l, l', b, rfl, hp, hret⟩ := Action.returns_bind_ok.mp h
  obtain ⟨rfl, hb⟩ := Action.returns_pure.mp hret
  cases b with
  | true => rwa [List.append_nil]
  | false => exact absurd hb (by simp)

theorem returns_isSymlink (h : (Os.isSymlink path).Returns log (.ok answer)) :
    log = [⟨.isSymlink path, .ok answer⟩] := by
  obtain ⟨given, rfl, hgiven⟩ := Action.returns_ask.mp h
  rw [mapError_eq_ok_iff.mp hgiven.symm]

theorem returns_pathExists (h : (Os.pathExists path).Returns log (.ok answer)) :
    log = [⟨.pathExists path, .ok answer⟩] := by
  obtain ⟨given, rfl, hgiven⟩ := Action.returns_ask.mp h
  rw [mapError_eq_ok_iff.mp hgiven.symm]

theorem returns_isDir (h : (Os.isDir path).Returns log (.ok answer)) :
    log = [⟨.isDir path, .ok answer⟩] := by
  obtain ⟨given, rfl, hgiven⟩ := Action.returns_ask.mp h
  rw [mapError_eq_ok_iff.mp hgiven.symm]

theorem returns_resolve (h : (Os.resolve path).Returns log (.ok resolved)) :
    log = [⟨.resolve path, .ok resolved⟩] := by
  obtain ⟨given, rfl, hgiven⟩ := Action.returns_ask.mp h
  rw [mapError_eq_ok_iff.mp hgiven.symm]

/-- What is returned behind a handler was returned by the program itself. -/
theorem returns_translate_ok {α : Type} {p : Os α} {caught : Exc → Bool} {f : Exc → Exc} {a : α} :
    (Os.translate caught f p).Returns log (.ok a) ↔ p.Returns log (.ok a) := by
  rw [Os.returns_translate]
  constructor
  · rintro ⟨y, hp, hy⟩
    cases y with
    | ok b => rwa [Except.ok.inj hy]
    | error e => exact absurd hy (by rw [Py.translate]; split <;> simp)
  · exact fun hp ↦ ⟨.ok a, hp, rfl⟩

end Answers

/-! ## Programs that only look -/

section Looks

variable {fuel : ℕ}

/-- A program only looks, and starts no process. -/
abbrev Watches {α : Type} (p : Os α) : Prop := p.Calls OsCall.Views

theorem watches_ask {α : Type} {c : OsCall} {r : c.Answer → Except Exc α} (h : c.Views) :
    Watches (.ask c r) := Action.calls_ask.mpr h

theorem Watches.looks {α : Type} {p : Os α} (h : Watches p) : p.Calls OsCall.Looks :=
  h.mono fun _ ↦ OsCall.Views.looks

theorem watches_checkLinks (workspace current : Path) (names directories : List Text) :
    Watches (checkLinks workspace current names directories) := by
  induction names generalizing directories with
  | nil => trivial
  | cons name names ih =>
    refine (watches_ask (by trivial)).bind fun _ ↦ .ite ?_ (ih _)
    exact (Os.calls_translate (watches_ask (by trivial))).bind fun _ ↦ .ite (ih _) trivial

theorem watches_pushDirectories (current : Path) (names : List Text) (stack : List Path) :
    Watches (pushDirectories current names stack) := by
  induction names generalizing stack with
  | nil => trivial
  | cons name names ih => exact (watches_ask (by trivial)).bind fun _ ↦ .ite (ih _) (ih _)

theorem watches_walkSymlinks (workspace : Path) (stack : List Path) :
    Watches (walkSymlinks workspace fuel stack) := by
  induction fuel generalizing stack with
  | zero => trivial
  | succ fuel ih =>
    cases stack with
    | nil => trivial
    | cons current stack =>
      exact (Os.calls_translate (watches_ask (by trivial))).bind fun _ ↦
        (watches_checkLinks _ _ _ _).bind fun _ ↦ (watches_pushDirectories _ _ _).bind fun _ ↦ ih _

theorem watches_validateSymlinks (workspace : Path) : Watches (validateSymlinks fuel workspace) :=
  watches_walkSymlinks _ _

theorem watches_configDigest (workspace : Path) : Watches (configDigest workspace) := by
  refine .bind (Os.calls_or (watches_ask (by trivial)) (Os.calls_not (watches_ask (by trivial))))
    fun _ ↦ .ite trivial (Os.calls_translate ((watches_ask (by trivial)).bind fun _ ↦ trivial))

theorem watches_assertRootIntegrity (adapter : LocalGitWorkspace) :
    Watches adapter.assertRootIntegrity := by
  refine (Os.calls_translate (watches_ask (by trivial))).bind fun _ ↦ .bind ?_ fun _ ↦
    .ite trivial trivial
  exact Os.calls_or (watches_ask (by trivial))
    (Os.calls_or (Os.calls_not (watches_ask (by trivial))) trivial)

theorem watches_validatePaths (source destination : Path) :
    Watches (ControlledGitCli.validatePaths source destination) := by
  refine .bind (Os.calls_translate ((watches_ask (by trivial)).bind fun _ ↦
    (watches_ask (by trivial)).bind fun _ ↦ trivial)) fun _ ↦ ?_
  refine (watches_ask (by trivial)).bind fun _ ↦ .ite trivial (.ite trivial ?_)
  exact (Os.calls_or (watches_ask (by trivial)) (watches_ask (by trivial))).bind fun _ ↦
    .ite trivial (.ite trivial trivial)

theorem watches_validateRepository (repository : Path) :
    Watches (ControlledGitCli.validateRepository repository) := by
  refine (Os.calls_translate (watches_ask (by trivial))).bind fun _ ↦ .bind ?_ fun _ ↦
    .ite trivial trivial
  exact Os.calls_or (Os.calls_not (watches_ask (by trivial)))
    (Os.calls_or (Os.calls_not (watches_ask (by trivial))) (watches_ask (by trivial)))

end Looks

/-! ## One Git command -/

section Run

variable {α : Type} {fuel : ℕ} {git : ControlledGitCli}

/-- A call of a program that does nothing but run a child process. -/
def OsCall.Drives : OsCall → Prop
  | .mkdtemp _ _ | .mkdir _ | .rmtree _ | .unlink _ | .rename _ _ | .backendSupports _
  | .backendExecute _ | .newWorkspaceId => False
  | _ => True

theorem OsCall.Drives.works_or_looks {c : OsCall} (h : c.Drives) : c.Works ∨ c.Looks := by
  cases c <;> first | exact .inl trivial | exact .inr trivial | exact h.elim

/-- A program does nothing but run child processes. -/
abbrev Drives (p : Os α) : Prop := p.Calls OsCall.Drives

theorem drives_run (arguments : List Text) (cwd : Path) (environment : List (Text × Text)) :
    Drives (git.run fuel arguments cwd environment) := by
  refine ControlledGitCli.calls_run (fun _ _ _ ↦ trivial) fun c hc ↦ ?_
  cases c <;> first | exact hc.elim | trivial

end Run

/-! ## Scopes -/

/-- What the operations of a workspace may touch, by what has happened so far. -/
structure Scope where
  /-- A control directory may be made in a directory. -/
  home : OsLog → Path → Prop
  /-- An entry may be removed. -/
  owned : OsLog → Path → Prop
  /-- Git may run. -/
  runs : OsLog → Prop
  home_append : ∀ {log : OsLog} {dir : Path} (log' : OsLog), home log dir → home (log ++ log') dir
  owned_append : ∀ {log : OsLog} {path : Path} (log' : OsLog), owned log path →
    owned (log ++ log') path
  runs_append : ∀ {log : OsLog} (log' : OsLog), runs log → runs (log ++ log')

namespace Scope

/-- The names of control directories begin with this. -/
def controlStem : Text := ".alicerce-git-"

/-- What a scope allows after what has happened. -/
inductive Allows (scope : Scope) (before : OsLog) : Event OsCall.Answer → Prop
  | looks {event : Event OsCall.Answer} (h : event.1.Looks) : Allows scope before event
  /-- An id is asked for once, after nothing but looks. -/
  | handed (hfirst : ∀ e ∈ before, e.1.Looks) (answer : Except Exc WorkspaceId) :
      Allows scope before ⟨.newWorkspaceId, answer⟩
  | works {event : Event OsCall.Answer} (h : event.1.Works) (hruns : scope.runs before) :
      Allows scope before event
  | mkdtemp {stem : Text} {dir : Path} (hstem : controlStem <+: stem) (hdir : scope.home before dir)
      (answer : Except OsError Path) : Allows scope before ⟨.mkdtemp stem dir, answer⟩
  | mkdir {stem name : Text} {dir control : Path} (hname : IsName name)
      (hcontrol : ⟨.mkdtemp stem dir, .ok control⟩ ∈ before) (answer : Except OsError Unit) :
      Allows scope before ⟨.mkdir (control.join name), answer⟩
  /-- A control directory is removed. -/
  | sweep {stem : Text} {dir control : Path} (hcontrol : ⟨.mkdtemp stem dir, .ok control⟩ ∈ before)
      (answer : Except OsError Unit) : Allows scope before ⟨.rmtree control, answer⟩
  | unlink {path : Path} (hpath : scope.owned before path) (answer : Except OsError Unit) :
      Allows scope before ⟨.unlink path, answer⟩
  | rmtree {path : Path} (hpath : scope.owned before path) (answer : Except OsError Unit) :
      Allows scope before ⟨.rmtree path, answer⟩

variable {α : Type} {scope : Scope} {log : OsLog} {fuel : ℕ} {git : ControlledGitCli} {p : Os α}

/-- A program stays in the scope, after what has happened. -/
abbrev Keeps (scope : Scope) (log : OsLog) (p : Os α) : Prop :=
  p.Obeys (Rule.behind scope.Allows log)

theorem keeps_of_watches (h : Watches p) : scope.Keeps log p :=
  Action.Calls.obeys h fun _ _ hviews ↦ .looks hviews.looks

theorem keeps_of_drives (h : Drives p) (hruns : scope.runs log) : scope.Keeps log p :=
  Action.Calls.obeys h fun _ _ hdrives ↦
    hdrives.works_or_looks.elim (fun hworks ↦ .works hworks (scope.runs_append _ hruns)) .looks

theorem Keeps.bind {β : Type} {f : α → Os β} (hp : scope.Keeps log p)
    (hf : ∀ l a, p.Returns l (.ok a) → scope.Keeps (log ++ l) (f a)) : scope.Keeps log (p >>= f) :=
  Action.Obeys.bind hp fun l a hret ↦ by
    rw [← Rule.behind_append]
    exact hf l a hret

theorem Keeps.tryCatch {h : Exc → Os α} (hp : scope.Keeps log p)
    (hh : ∀ l e, p.Returns l (.error e) → scope.Keeps (log ++ l) (h e)) :
    scope.Keeps log (.tryCatch p h) :=
  Action.Obeys.tryCatch hp fun l e hret ↦ by
    rw [← Rule.behind_append]
    exact hh l e hret

theorem Keeps.tryFinally {q : Os Unit} (hp : scope.Keeps log p)
    (hq : ∀ l, scope.Keeps (log ++ l) q) : scope.Keeps log (.tryFinally p q) :=
  Action.Obeys.tryFinally hp fun l _ _ ↦ by
    rw [← Rule.behind_append]
    exact hq l

theorem Keeps.translate {caught : Exc → Bool} {f : Exc → Exc} (hp : scope.Keeps log p) :
    scope.Keeps log (Os.translate caught f p) := hp.tryCatch fun _ _ _ ↦ Action.obeys_raise _

theorem Keeps.discard (hp : scope.Keeps log p) : scope.Keeps log (discard p : Os PUnit) :=
  hp.bind fun _ _ _ ↦ Action.obeys_pure _

theorem keeps_pure (a : α) : scope.Keeps log (pure a : Os α) := Action.obeys_pure a

theorem keeps_raise (e : Exc) : scope.Keeps log (.raise e : Os α) := Action.obeys_raise e

theorem keeps_run (hruns : scope.runs log) (arguments : List Text) (cwd : Path)
    (environment : List (Text × Text)) :
    scope.Keeps log (git.run fuel arguments cwd environment) :=
  keeps_of_drives (drives_run _ _ _) hruns

/-- A program over the registry stays in the scope, after what has happened. -/
abbrev KeepsIn (scope : Scope) (log : OsLog) (r : Registry) (m : RegistryMethod α) : Prop :=
  m.Obeys (Rule.behind scope.Allows log) r

theorem keepsIn_perform_bind {β : Type} {r : Registry} {f : α → RegistryMethod β}
    (hp : scope.Keeps log p)
    (hf : ∀ l a, p.Returns l (.ok a) → scope.KeepsIn (log ++ l) r (f a)) :
    scope.KeepsIn log r (.perform p >>= f) :=
  Method.obeys_perform_bind hp fun l a hret ↦ by
    rw [← Rule.behind_append]
    exact hf l a hret

/-! ### Control directories -/

theorem keeps_mkdir {stem name : Text} {dir control : Path} (hname : IsName name)
    (hcontrol : ⟨.mkdtemp stem dir, .ok control⟩ ∈ log) :
    scope.Keeps log (Os.mkdir (control.join name)) :=
  Action.obeys_ask fun _ ↦ .mkdir hname (List.mem_append_left _ hcontrol) _

theorem keeps_makeControl {stem : Text} {dir control : Path}
    (hcontrol : ⟨.mkdtemp stem dir, .ok control⟩ ∈ log) :
    scope.Keeps log (ControlledGitCli.makeControl control) :=
  (keeps_mkdir (by decide) hcontrol).bind fun _ _ _ ↦
    (keeps_mkdir (by decide) (List.mem_append_left _ hcontrol)).bind fun _ _ _ ↦
      (keeps_mkdir (by decide) (List.mem_append_left _ (List.mem_append_left _ hcontrol))).bind
        fun _ _ _ ↦ keeps_pure _

/-- What is done in a control directory is done in the scope when its body stays in it. -/
theorem keeps_withControl {stem : Text} {dir : Path} {body : Path → List (Text × Text) → Os α}
    (hstem : controlStem <+: stem) (hdir : scope.home log dir)
    (hbody : ∀ l control environment, scope.Keeps (log ++ l) (body control environment)) :
    scope.Keeps log (ControlledGitCli.withControl stem dir body) := by
  have hmake : scope.Keeps log (Os.mkdtemp stem dir) :=
    Action.obeys_ask fun answer ↦ .mkdtemp hstem (scope.home_append _ hdir) _
  refine hmake.bind fun l control hret ↦ ?_
  have hcontrol : (⟨.mkdtemp stem dir, .ok control⟩ : Event OsCall.Answer) ∈ log ++ l := by
    obtain ⟨answer, rfl, hanswer⟩ := Action.returns_ask.mp hret
    cases answer with
    | ok made =>
      obtain rfl := Except.ok.inj hanswer
      simp
    | error e => exact absurd hanswer (by simp [Except.mapError])
  refine Keeps.tryFinally ((keeps_makeControl hcontrol).bind fun l' environment _ ↦ ?_) fun l' ↦ ?_
  · rw [List.append_assoc]
    exact hbody _ _ _
  · exact Action.obeys_ask fun _ ↦ .sweep
      (List.mem_append_left _ (List.mem_append_left _ hcontrol)) _

/-! ### Git's operations -/

/-- A repository is looked at where it resolves to. -/
theorem returns_validateRepository {repository trusted : Path}
    (h : (ControlledGitCli.validateRepository repository).Returns log (.ok trusted)) :
    ⟨.resolve repository, .ok trusted⟩ ∈ log := by
  obtain ⟨l, l', resolved, rfl, hresolve, hrest⟩ := Action.returns_bind_ok.mp h
  obtain ⟨l₁, l₂, refused, rfl, -, hrest⟩ := Action.returns_bind_ok.mp hrest
  obtain rfl := returns_resolve (returns_translate_ok.mp hresolve)
  split at hrest
  · exact absurd (Action.returns_raise.mp hrest).2 (by simp)
  · rw [Except.ok.inj (Action.returns_pure.mp hrest).2]
    exact List.mem_append_left _ (List.mem_singleton_self _)

theorem keeps_verifyBaseline {repository : Path} {baselineSha : BaselineSha}
    (hruns : scope.runs log)
    (hhome : ∀ l trusted, ⟨.resolve repository, .ok trusted⟩ ∈ l →
      scope.home (log ++ l) trusted.parent) :
    scope.Keeps log (git.verifyBaseline fuel repository baselineSha) := by
  refine (keeps_of_watches (watches_validateRepository _)).bind fun l trusted hret ↦ ?_
  refine Keeps.bind (Keeps.translate (keeps_withControl (by decide)
    (hhome l trusted (returns_validateRepository hret)) fun l' _ _ ↦ ?_)) fun _ _ _ ↦
      .ite (fun _ ↦ keeps_raise _) fun _ ↦ .ite (fun _ ↦ keeps_raise _) fun _ ↦ keeps_pure _
  have hruns' := scope.runs_append l' (scope.runs_append l hruns)
  exact (keeps_run hruns' _ _ _).bind fun l₁ _ _ ↦
    (keeps_run (scope.runs_append l₁ hruns') _ _ _).bind fun _ _ _ ↦ keeps_pure _

theorem keeps_snapshotCandidate {repository : Path} (hruns : scope.runs log)
    (hhome : ∀ l trusted, ⟨.resolve repository, .ok trusted⟩ ∈ l →
      scope.home (log ++ l) trusted.parent) :
    scope.Keeps log (git.snapshotCandidate fuel repository) := by
  refine (keeps_of_watches (watches_validateRepository _)).bind fun l trusted hret ↦ ?_
  refine Keeps.translate (Keeps.bind (keeps_withControl (by decide)
    (hhome l trusted (returns_validateRepository hret)) fun l' _ _ ↦ ?_) fun _ _ _ ↦
      Action.obeys_lift _)
  have hruns' := scope.runs_append l' (scope.runs_append l hruns)
  refine (keeps_run hruns' _ _ _).discard.bind fun l₁ _ _ ↦ ?_
  have hruns₁ := scope.runs_append l₁ hruns'
  refine (keeps_run hruns₁ _ _ _).discard.bind fun l₂ _ _ ↦ ?_
  exact (keeps_run (scope.runs_append l₂ hruns₁) _ _ _).bind fun _ _ _ ↦ keeps_pure _

/-- The destination of a clone is beside its siblings in the resolved directory. -/
theorem returns_validatePaths {source destination : Path} {found : Path × Path}
    (h : (ControlledGitCli.validatePaths source destination).Returns log (.ok found)) :
    ∃ parent, ⟨.resolve destination.parent, .ok parent⟩ ∈ log ∧
      found.2 = parent.join destination.name := by
  obtain ⟨l, l', resolved, rfl, hresolve, hrest⟩ := Action.returns_bind_ok.mp h
  have hfound : found.2 = resolved.2.join destination.name := by
    obtain ⟨l₁, l₂, isDir, rfl, -, hrest⟩ := Action.returns_bind_ok.mp hrest
    split at hrest
    · exact absurd (Action.returns_raise.mp hrest).2 (by simp)
    split at hrest
    · exact absurd (Action.returns_raise.mp hrest).2 (by simp)
    obtain ⟨l₃, l₄, occupied, rfl, -, hrest⟩ := Action.returns_bind_ok.mp hrest
    split at hrest
    · exact absurd (Action.returns_raise.mp hrest).2 (by simp)
    split at hrest
    · exact absurd (Action.returns_raise.mp hrest).2 (by simp)
    rw [Except.ok.inj (Action.returns_pure.mp hrest).2]
  refine ⟨resolved.2, List.mem_append_left _ ?_, hfound⟩
  obtain ⟨l₁, l₂, trustedSource, rfl, -, hparent⟩ :=
    Action.returns_bind_ok.mp (returns_translate_ok.mp hresolve)
  obtain ⟨l₃, l₄, trustedParent, rfl, hask, hret⟩ := Action.returns_bind_ok.mp hparent
  obtain rfl := returns_resolve hask
  rw [Except.ok.inj (Action.returns_pure.mp hret).2]
  simp

theorem keeps_discardPartial {destination : Path} (hpath : scope.owned log destination) :
    scope.Keeps log (ControlledGitCli.discardPartial destination) := by
  refine (keeps_of_watches (watches_ask (by trivial))).bind fun l₁ _ _ ↦ .ite (fun _ ↦ ?_)
    fun _ ↦ keeps_pure _
  refine (keeps_of_watches (watches_ask (by trivial))).bind fun l₂ _ _ ↦ .ite (fun _ ↦ ?_)
    fun _ ↦ keeps_pure _
  refine (keeps_of_watches (watches_ask (by trivial))).bind fun l₃ _ _ ↦ .ite (fun _ ↦ ?_)
    fun _ ↦ keeps_pure _
  exact Action.obeys_ask fun _ ↦ .rmtree
    (scope.owned_append _
      (scope.owned_append _ (scope.owned_append _ (scope.owned_append _ hpath)))) _

theorem keeps_cloneBaseline {source destination : Path} {baselineSha : BaselineSha}
    {environment : List (Text × Text)} (hruns : scope.runs log) :
    scope.Keeps log (git.cloneBaseline fuel source destination baselineSha environment) := by
  refine (keeps_run hruns _ _ _).discard.bind fun l₁ _ _ ↦ ?_
  have hruns₁ := scope.runs_append l₁ hruns
  refine (keeps_run hruns₁ _ _ _).discard.bind fun l₂ _ _ ↦ ?_
  have hruns₂ := scope.runs_append l₂ hruns₁
  refine (keeps_run hruns₂ _ _ _).bind fun l₃ _ _ ↦ .ite (fun _ ↦ keeps_raise _) fun _ ↦ ?_
  exact (keeps_run (scope.runs_append l₃ hruns₂) _ _ _).discard

theorem keeps_materializeBaseline {source destination : Path} {baselineSha : BaselineSha}
    (hruns : scope.runs log)
    (hhome : ∀ l parent, ⟨.resolve destination.parent, .ok parent⟩ ∈ l →
      scope.home (log ++ l) (parent.join destination.name).parent)
    (howned : ∀ l parent, ⟨.resolve destination.parent, .ok parent⟩ ∈ l →
      scope.owned (log ++ l) (parent.join destination.name)) :
    scope.Keeps log (git.materializeBaseline fuel source destination baselineSha) := by
  refine (keeps_of_watches (watches_validatePaths _ _)).bind fun l found hret ↦ ?_
  obtain ⟨trustedSource, trustedDestination⟩ := found
  obtain ⟨parent, hparent, rfl⟩ := returns_validatePaths hret
  have hbody : ∀ l' (control : Path) environment, scope.Keeps ((log ++ l) ++ l')
      (git.cloneBaseline fuel trustedSource (parent.join destination.name) baselineSha
        environment) := fun l' _ _ ↦
    keeps_cloneBaseline (scope.runs_append l' (scope.runs_append l hruns))
  refine Keeps.bind (Keeps.tryCatch (keeps_withControl (by decide) (hhome l parent hparent) hbody)
    fun l' e _ ↦ ?_) fun _ _ _ ↦ keeps_pure _
  have hdiscard : scope.Keeps ((log ++ l) ++ l')
      (ControlledGitCli.discardPartial (parent.join destination.name)) :=
    keeps_discardPartial (scope.owned_append _ (howned l parent hparent))
  exact .ite (fun _ ↦ hdiscard.bind fun _ _ _ ↦ keeps_raise _) fun _ ↦
    .ite (fun _ ↦ hdiscard.bind fun _ _ _ ↦ keeps_raise _) fun _ ↦ keeps_raise _

end Scope

end Alicerce
