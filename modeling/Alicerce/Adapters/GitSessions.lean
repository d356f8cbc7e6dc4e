import Alicerce.Adapters.GitConduct
import Alicerce.Adapters.WorkspaceRegistry
import Alicerce.Lib.Sessions

/-!
# How the adapter runs Git

The adapter runs Git inside control directories.  A session with the host is closed, or one control
directory is open: it was made in the directory Git will run in, Git runs with the environment that
names its hooks, home and configuration, and it is removed again.

* `GitCommand` are the commands, with the environment each is run in.
* `ControlStep` is the protocol.  No Git process runs outside a control directory, and none with
  another environment or executable, or with arguments that are not those of one of the eight
  commands.
* The three commands of a snapshot work on an index inside the control directory, and the others are
  not told of one: the checkout of a `prepare` writes the index of its clone.
* No two control directories are open at a time, and whatever happens, the one that is open is
  removed before an operation ends, and before anything else is made, moved or removed.
* `control_sessions`: every operation follows the protocol, and leaves it closed.
-/

set_option autoImplicit false

namespace Alicerce

open Py Lib

/-! ## The protocol -/

/-- A session with the host. -/
inductive ControlSession
  | closed
  /-- A control directory is there, in the directory it was made in. -/
  | opened (dir control : Path)

/-- The environment that a control directory makes. -/
def controlEnvironment (control : Path) : List (Text × Text) :=
  ControlledGitCli.environment (control.join "home") (control.join "config") (control.join "hooks")

/-- The commands, with the environment each is run in. -/
inductive GitCommand (control : Path) : List Text → List (Text × Text) → Prop
  | clone (source destination : Path) :
      GitCommand control (ControlledGitCli.clone source destination) (controlEnvironment control)
  | checkout (repository : Path) (baselineSha : BaselineSha) :
      GitCommand control (ControlledGitCli.checkout repository baselineSha)
        (controlEnvironment control)
  | revParse (repository : Path) :
      GitCommand control (ControlledGitCli.revParse repository) (controlEnvironment control)
  | removeRemote (repository : Path) :
      GitCommand control (ControlledGitCli.removeRemote repository) (controlEnvironment control)
  | listRemotes (repository : Path) :
      GitCommand control (ControlledGitCli.listRemotes repository) (controlEnvironment control)
  | onIndex {arguments : List Text} (repository : Path)
      (h : arguments ∈ [ControlledGitCli.readTree repository, ControlledGitCli.addAll repository,
        ControlledGitCli.writeTree repository]) :
      GitCommand control arguments
        (controlEnvironment control ++
          [(text "GIT_INDEX_FILE", (control.join "candidate.index").str)])

/-- A call that is made outside control directories only. -/
def OsCall.Disposes : OsCall → Prop
  | .rmtree _ | .unlink _ | .rename _ _ | .newWorkspaceId => True
  | _ => False

/-- What is in order, and where it leads. -/
inductive ControlStep (git : ControlledGitCli) :
    ControlSession → Event OsCall.Answer → ControlSession → Prop
  | opens {stem : Text} {dir control : Path} (hstem : Scope.controlStem <+: stem) :
      ControlStep git .closed ⟨.mkdtemp stem dir, .ok control⟩ (.opened dir control)
  | opensNot {stem : Text} {dir : Path} {e : OsError} :
      ControlStep git .closed ⟨.mkdtemp stem dir, .error e⟩ .closed
  | furnishes {dir control : Path} {name : Text}
      (hname : name ∈ [text "hooks", text "home", text "config"]) (answer : Except OsError Unit) :
      ControlStep git (.opened dir control) ⟨.mkdir (control.join name), answer⟩
        (.opened dir control)
  | runs {dir control : Path} {arguments : List Text} {environment : List (Text × Text)}
      (hcommand : GitCommand control arguments environment) (answer : Except SpawnError Process) :
      ControlStep git (.opened dir control)
        ⟨.popen (git.executable.str :: arguments) dir environment, answer⟩ (.opened dir control)
  /-- A process is looked after while the control directory is there. -/
  | tends {dir control : Path} {event : Event OsCall.Answer} (htends : event.1.Tends) :
      ControlStep git (.opened dir control) event (.opened dir control)
  | closes {dir control : Path} (answer : Except OsError Unit) :
      ControlStep git (.opened dir control) ⟨.rmtree control, answer⟩ .closed
  | looks {event : Event OsCall.Answer} (hlooks : event.1.Views) :
      ControlStep git .closed event .closed
  | disposes {event : Event OsCall.Answer} (hdisposes : event.1.Disposes) :
      ControlStep git .closed event .closed

/-! ## Programs -/

section

variable {git : ControlledGitCli} {α : Type} {p q : Os α} {w : ControlSession} {fuel : ℕ}
  {dir control : Path}

theorem stays_translate {caught : Exc → Bool} {f : Exc → Exc} (hp : p.Stays (ControlStep git) w) :
    (Os.translate caught f p).Stays (ControlStep git) w := hp.tryCatch fun _ ↦ Action.stays_raise _

theorem stays_discard (hp : p.Stays (ControlStep git) w) :
    (discard p : Os PUnit).Stays (ControlStep git) w := hp.bind fun _ ↦ Action.stays_pure _

theorem stays_watches (hp : Watches p) : p.Stays (ControlStep git) .closed :=
  Action.Calls.stays hp fun _ hlooks _ ↦ .looks hlooks

/-- A command in its control directory. -/
theorem stays_run {arguments : List Text} {environment : List (Text × Text)}
    (hcommand : GitCommand control arguments environment) :
    (git.run fuel arguments dir environment).Stays (ControlStep git) (.opened dir control) := by
  refine Action.Stays.bind ?_ fun captured ↦ ?_
  · refine stays_translate (Action.Stays.bind (Action.stays_ask fun answer ↦ .runs hcommand answer)
      fun process ↦ ?_)
    exact Action.Calls.stays ControlledGitCli.tends_captureBounded fun _ htends _ ↦ .tends htends
  · refine .ite (Action.stays_raise _) ?_
    split
    · exact Action.stays_pure _
    · exact Action.stays_raise _

theorem stays_makeControl :
    (ControlledGitCli.makeControl control).Stays (ControlStep git) (.opened dir control) := by
  refine Action.Stays.bind (Action.stays_ask (.furnishes (by simp))) fun _ ↦
    Action.Stays.bind (Action.stays_ask (.furnishes (by simp))) fun _ ↦
      Action.Stays.bind (Action.stays_ask (.furnishes (by simp))) fun _ ↦ Action.stays_pure _

theorem returns_makeControl {log : OsLog} {environment : List (Text × Text)}
    (h : (ControlledGitCli.makeControl control).Returns log (.ok environment)) :
    environment = controlEnvironment control := by
  obtain ⟨_, _, _, _, _, hhome⟩ := Action.returns_bind_ok.mp h
  obtain ⟨_, _, _, _, _, hconfig⟩ := Action.returns_bind_ok.mp hhome
  obtain ⟨_, _, _, _, _, hlast⟩ := Action.returns_bind_ok.mp hconfig
  exact Except.ok.inj (Action.returns_pure.mp hlast).2

/-- A control directory is a bracket. -/
theorem stays_withControl {stem : Text} {body : Path → List (Text × Text) → Os α}
    (hstem : Scope.controlStem <+: stem)
    (hbody : ∀ control, (body control (controlEnvironment control)).Stays (ControlStep git)
      (.opened dir control)) :
    (ControlledGitCli.withControl stem dir body).Stays (ControlStep git) .closed := by
  have hopens : (Os.mkdtemp stem dir).Opens (ControlStep git) (fun control ↦ .opened dir control)
      .closed := by
    refine Action.opens_ask ?_ ?_
    · rintro (e | control) e' he
      · exact .opensNot
      · exact absurd he (by simp [Except.mapError])
    · rintro (e | control) a ha
      · exact absurd ha (by simp [Except.mapError])
      · obtain rfl : control = a := Except.ok.inj ha
        exact .opens hstem
  refine hopens.bracket (fun control ↦ ?_) fun control answer ↦ ⟨.closed, .closes answer, rfl⟩
  refine stays_makeControl.bind_of_returns fun log environment hret ↦ ?_
  rw [returns_makeControl hret]
  exact hbody control

/-! ## Operations of Git -/

theorem stays_cloneBaseline {source destination : Path} {baselineSha : BaselineSha} :
    (git.cloneBaseline fuel source destination baselineSha (controlEnvironment control)).Stays
      (ControlStep git) (.opened destination.parent control) := by
  refine (stays_discard (stays_run (.clone _ _))).bind fun _ ↦
    (stays_discard (stays_run (.checkout _ _))).bind fun _ ↦
      (stays_run (.revParse _)).bind fun _ ↦ .ite (Action.stays_raise _) ?_
  exact stays_discard (stays_run (.removeRemote _))

theorem calls_discardPartial {destination : Path} :
    (ControlledGitCli.discardPartial destination).Calls fun c ↦ c.Views ∨ c.Disposes := by
  refine (Action.calls_ask.mpr (.inl trivial)).bind fun _ ↦ .ite ?_ trivial
  refine (Action.calls_ask.mpr (.inl trivial)).bind fun _ ↦ .ite ?_ trivial
  exact (Action.calls_ask.mpr (.inl trivial)).bind fun _ ↦
    .ite (Action.calls_ask.mpr (.inr trivial)) trivial

/-- Looking and disposing of entries is in order outside control directories. -/
theorem stays_of_calls (hp : p.Calls fun c ↦ c.Views ∨ c.Disposes) :
    p.Stays (ControlStep git) .closed :=
  Action.Calls.stays hp fun _ h _ ↦ h.elim (fun hlooks ↦ .looks hlooks) fun hdisposes ↦
    .disposes hdisposes

theorem stays_materializeBaseline {source destination : Path} {baselineSha : BaselineSha} :
    (git.materializeBaseline fuel source destination baselineSha).Stays
      (ControlStep git) .closed := by
  refine (stays_watches (watches_validatePaths _ _)).bind fun paths ↦ ?_
  refine Action.Stays.bind (Action.Stays.tryCatch ?_ fun e ↦ ?_) fun _ ↦ Action.stays_pure _
  · exact stays_withControl (by decide) fun control ↦ stays_cloneBaseline
  · refine .ite ?_ (.ite ?_ (Action.stays_raise _))
    · exact (stays_of_calls calls_discardPartial).bind fun _ ↦ Action.stays_raise _
    · exact (stays_of_calls calls_discardPartial).bind fun _ ↦ Action.stays_raise _

theorem stays_verifyBaseline {repository : Path} {baselineSha : BaselineSha} :
    (git.verifyBaseline fuel repository baselineSha).Stays (ControlStep git) .closed := by
  refine (stays_watches (watches_validateRepository _)).bind fun trusted ↦ ?_
  refine Action.Stays.bind (stays_translate (stays_withControl (by decide) fun control ↦ ?_))
    fun _ ↦ .ite (Action.stays_raise _) (.ite (Action.stays_raise _) (Action.stays_pure _))
  exact (stays_run (.revParse _)).bind fun _ ↦ (stays_run (.listRemotes _)).bind fun _ ↦
    Action.stays_pure _

/-- The index of a snapshot is in its control directory. -/
theorem stays_snapshotCandidate {repository : Path} :
    (git.snapshotCandidate fuel repository).Stays (ControlStep git) .closed := by
  refine (stays_watches (watches_validateRepository _)).bind fun trusted ↦ ?_
  refine stays_translate (Action.Stays.bind (stays_withControl (by decide) fun control ↦ ?_)
    fun _ ↦ Action.stays_lift _)
  refine (stays_discard (stays_run (.onIndex trusted (by simp)))).bind fun _ ↦
    (stays_discard (stays_run (.onIndex trusted (by simp)))).bind fun _ ↦
      (stays_run (.onIndex trusted (by simp))).bind fun _ ↦ Action.stays_pure _

end

/-! ## Operations of a workspace -/

section

variable {adapter : LocalGitWorkspace} {fuel : ℕ}

theorem stays_validateRecord (record : WorkspaceRecord) :
    (adapter.validateRecord fuel record).Stays (ControlStep adapter.git) .closed := by
  refine (stays_watches (watches_assertRootIntegrity adapter)).bind fun _ ↦
    (Action.stays_lift _).bind fun expected ↦ .ite (Action.stays_raise _) ?_
  have hlooks : Watches (Os.or (Os.isSymlink record.path)
      (Os.or (do return !(← Os.isDir record.path))
        (pure (decide (adapter.IsProtected record.path))))) :=
    Os.calls_or (watches_ask trivial) (Os.calls_or (Os.calls_not (watches_ask trivial)) trivial)
  refine (stays_watches hlooks).bind fun _ ↦ .ite (Action.stays_raise _) ?_
  refine (stays_watches (watches_validateSymlinks _)).bind fun _ ↦
    (stays_watches (watches_configDigest _)).bind fun digest ↦ .ite (Action.stays_raise _) ?_
  exact stays_translate (stays_discard stays_verifyBaseline)

theorem calls_discardUnpublished (path : Path) :
    (adapter.discardUnpublished path).Calls fun c ↦ c.Views ∨ c.Disposes := by
  refine .ite trivial (Os.calls_suppress
    (.bind (Os.calls_or (Action.calls_ask.mpr (.inl trivial)) ?_)
    fun _ ↦ .ite (Action.calls_ask.mpr (.inr trivial)) ?_))
  · exact (Action.calls_ask.mpr (.inl trivial)).bind fun _ ↦
      .ite (Os.calls_not (Action.calls_ask.mpr (.inl trivial))) trivial
  · exact (Action.calls_ask.mpr (.inl trivial)).bind fun _ ↦
      .ite (Action.calls_ask.mpr (.inr trivial)) trivial

theorem stays_materialize (identity : RunIdentity) (destination : Path) :
    (adapter.materialize fuel identity destination).Stays (ControlStep adapter.git) .closed := by
  have hdiscard :
      (adapter.discardUnpublished destination).Stays (ControlStep adapter.git) .closed :=
    stays_of_calls (calls_discardUnpublished destination)
  refine Action.Stays.tryCatch ?_ fun e ↦ ?_
  · exact (stays_discard stays_materializeBaseline).bind fun _ ↦
      (stays_watches (watches_validateSymlinks _)).bind fun _ ↦
        (stays_watches (watches_configDigest _)).bind fun _ ↦
          (stays_discard stays_verifyBaseline).bind fun _ ↦ Action.stays_pure _
  · refine .ite ?_ (.ite ?_ (.ite ?_ (Action.stays_raise _)))
    all_goals exact hdiscard.bind fun _ ↦ Action.stays_raise _

theorem stays_prepare (identity : RunIdentity) :
    (adapter.prepare fuel identity).Stays (ControlStep adapter.git) .closed := by
  refine (Method.stays_perform (stays_watches (watches_assertRootIntegrity adapter))).bind fun _ ↦
    Method.stays_get.bind fun registry ↦ .ite (Method.stays_raise _) ?_
  refine (Method.stays_perform (Action.stays_ask fun _ ↦ .disposes trivial)).bind fun id ↦
    (Method.stays_perform (Action.stays_lift _)).bind fun destination ↦ ?_
  have hlooks : Watches (Os.or (pure (registry.records id).isSome)
      (Os.or (Os.pathExists destination) (Os.isSymlink destination))) :=
    Os.calls_or trivial (Os.calls_or (watches_ask trivial) (watches_ask trivial))
  refine (Method.stays_perform (stays_watches hlooks)).bind fun _ ↦ .ite (Method.stays_raise _) ?_
  exact (Method.stays_perform (stays_materialize identity destination)).bind fun digest ↦
    (Method.stays_modify _).bind fun _ ↦ Method.stays_pure _

theorem stays_load (id : WorkspaceId) :
    (adapter.load fuel id).Stays (ControlStep adapter.git) .closed := by
  refine Method.stays_get.bind fun registry ↦ ?_
  split
  · exact Method.stays_pure _
  · exact (Method.stays_perform (stays_validateRecord _)).bind fun _ ↦ Method.stays_pure _

theorem stays_snapshot (workspace : WorkspaceIdentity) :
    (adapter.snapshot fuel workspace).Stays (ControlStep adapter.git) .closed := by
  refine Method.stays_get.bind fun registry ↦ Method.stays_perform ?_
  refine (Action.stays_lift _).bind fun record ↦ (stays_validateRecord record).bind fun _ ↦
    (stays_translate ?_).bind fun _ ↦ Action.stays_pure _
  exact stays_snapshotCandidate.bind fun _ ↦ (stays_validateRecord record).bind fun _ ↦
    Action.stays_pure _

/-- A part of a release, which looks and disposes of entries. -/
theorem stays_disposes {α : Type} {p : Os α} (hp : p.Calls fun c ↦ c.Views ∨ c.Disposes) :
    (Method.perform p : RegistryMethod α).Stays (ControlStep adapter.git) .closed :=
  Method.stays_perform (stays_of_calls hp)

theorem calls_present (path : Path) :
    (Os.or (Os.pathExists path) (Os.isSymlink path)).Calls fun c ↦ c.Views ∨ c.Disposes :=
  Os.calls_or (Action.calls_ask.mpr (.inl trivial)) (Action.calls_ask.mpr (.inl trivial))

theorem calls_recoverQuarantine (quarantine : Path) :
    (LocalGitWorkspace.recoverQuarantine quarantine).Calls fun c ↦ c.Views ∨ c.Disposes := by
  refine (calls_present quarantine).bind fun _ ↦ .ite (Os.calls_translate ?_) trivial
  refine .bind (Os.calls_or (Action.calls_ask.mpr (.inl trivial))
    (Os.calls_not (Action.calls_ask.mpr (.inl trivial)))) fun _ ↦ ?_
  exact .ite (Action.calls_ask.mpr (.inr trivial)) (Action.calls_ask.mpr (.inr trivial))

theorem calls_restore (record : WorkspaceRecord) (quarantine : Path) :
    (LocalGitWorkspace.restore record quarantine).Calls fun c ↦ c.Views ∨ c.Disposes := by
  refine (Action.calls_ask.mpr (.inl trivial)).bind fun _ ↦ .ite ?_ trivial
  refine (Action.calls_ask.mpr (.inl trivial)).bind fun _ ↦ .ite ?_ trivial
  exact Os.calls_suppress (Action.calls_ask.mpr (.inr trivial))

theorem stays_detach (record : WorkspaceRecord) (quarantine : Path) :
    (LocalGitWorkspace.detach record quarantine).Stays (ControlStep adapter.git) .closed := by
  have hfail : ∀ e : Exc, (Method.perform (Os.unlink quarantine) >>= fun _ ↦
      Method.modify (Registry.forget record) >>= fun _ ↦ Method.raise e :
        RegistryMethod Unit).Stays (ControlStep adapter.git) .closed := fun e ↦
    (stays_disposes (Action.calls_ask.mpr (.inr (by trivial)))).bind fun _ ↦
      (Method.stays_modify _).bind fun _ ↦ Method.stays_raise e
  refine (stays_disposes (Action.calls_ask.mpr (.inr (by trivial)))).bind fun _ ↦
    (stays_disposes (Action.calls_ask.mpr (.inl (by trivial)))).bind fun _ ↦ .ite (hfail _) ?_
  exact (stays_disposes (Action.calls_ask.mpr (.inl (by trivial)))).bind fun _ ↦
    .ite (hfail _) (stays_disposes (Action.calls_ask.mpr (.inr (by trivial))))

theorem stays_release (workspace : WorkspaceIdentity) :
    (adapter.release workspace).Stays (ControlStep adapter.git) .closed := by
  refine Method.stays_get.bind fun registry ↦ ?_
  split
  · exact Method.stays_pure _
  refine .ite (Method.stays_raise _) ?_
  refine (Method.stays_perform (stays_watches (watches_assertRootIntegrity adapter))).bind fun _ ↦
    (Method.stays_perform (Action.stays_lift _)).bind fun _ ↦ .ite (Method.stays_raise _) ?_
  refine (stays_disposes (calls_present _)).bind fun _ ↦ .ite ?_ ?_
  · exact (stays_disposes (calls_recoverQuarantine _)).bind fun _ ↦ Method.stays_modify _
  refine (stays_disposes (calls_present _)).bind fun _ ↦ .ite (Method.stays_raise _) ?_
  refine ((stays_detach _ _).tryCatch fun e ↦ .ite ?_ (Method.stays_raise _)).bind fun _ ↦
    Method.stays_modify _
  exact (stays_disposes (calls_restore _ _)).bind fun _ ↦ Method.stays_raise _

/-! ## Whole runs -/

/-- The operations of the adapter.  A lease is two of them, as its body runs in between. -/
inductive Operation (adapter : LocalGitWorkspace) : (α : Type) → RegistryMethod α → Prop
  | prepare (fuel : ℕ) (identity : RunIdentity) :
      Operation adapter _ (adapter.prepare fuel identity)
  | load (fuel : ℕ) (id : WorkspaceId) : Operation adapter _ (adapter.load fuel id)
  | snapshot (fuel : ℕ) (workspace : WorkspaceIdentity) :
      Operation adapter _ (adapter.snapshot fuel workspace)
  | release (workspace : WorkspaceIdentity) : Operation adapter _ (adapter.release workspace)
  | enterLease (fuel : ℕ) (workspace : WorkspaceIdentity) : Operation adapter _ do
      let registry ← .get
      .perform (adapter.enterLease fuel registry workspace)
  | leaveLease (fuel : ℕ) (record : WorkspaceRecord) :
      Operation adapter _ (.perform (adapter.validateRecord fuel record))

theorem Operation.stays {α : Type} {m : RegistryMethod α} (h : Operation adapter α m) :
    m.Stays (ControlStep adapter.git) .closed := by
  cases h with
  | prepare fuel identity => exact stays_prepare identity
  | load fuel id => exact stays_load id
  | snapshot fuel workspace => exact stays_snapshot workspace
  | release workspace => exact stays_release workspace
  | enterLease fuel workspace =>
    refine Method.stays_get.bind fun registry ↦ Method.stays_perform ?_
    exact (Action.stays_lift _).bind fun record ↦ (stays_validateRecord record).bind fun _ ↦
      Action.stays_pure _
  | leaveLease fuel record => exact Method.stays_perform (stays_validateRecord record)

/-- An operation that has ended, with what it asked of the host. -/
def Exchanges (adapter : LocalGitWorkspace) (r : Registry) (log : OsLog) (r' : Registry) : Prop :=
  ∃ (α : Type) (m : RegistryMethod α) (x : Except Exc α), Operation adapter α m ∧
    m.Returns r log x r'

/-- The control directory was made in a directory, and has not been removed. -/
def IsThere (log : OsLog) (dir control : Path) : Prop :=
  ∃ stem before after, log = before ++ ⟨.mkdtemp stem dir, .ok control⟩ :: after ∧
    ∀ answer, ⟨.rmtree control, answer⟩ ∉ after

theorem IsThere.concat {log : OsLog} {dir control : Path} {event : Event OsCall.Answer}
    (h : IsThere log dir control) (hevent : ∀ answer, event ≠ ⟨.rmtree control, answer⟩) :
    IsThere (log ++ [event]) dir control := by
  obtain ⟨stem, before, after, rfl, hafter⟩ := h
  refine ⟨stem, before, after ++ [event], by simp, fun answer hmem ↦ ?_⟩
  rcases List.mem_append.mp hmem with hmem | hmem
  · exact hafter answer hmem
  · exact hevent answer (List.mem_singleton.mp hmem).symm

/-- The control directory of an open session is there. -/
def ThereIfOpen (log : OsLog) : ControlSession → Prop
  | .closed => True
  | .opened dir control => IsThere log dir control

theorem ThereIfOpen.step {git : ControlledGitCli} {log : OsLog} {event : Event OsCall.Answer}
    {session session' : ControlSession} (h : ThereIfOpen log session)
    (hstep : ControlStep git session event session') : ThereIfOpen (log ++ [event]) session' := by
  cases hstep with
  | @opens stem => exact ⟨stem, log, [], rfl, fun _ ↦ List.not_mem_nil⟩
  | furnishes | runs => exact h.concat fun _ ↦ by simp
  | tends htends =>
    refine h.concat ?_
    rintro answer rfl
    exact htends
  | opensNot | closes | looks | disposes => trivial

/-- **Git runs under control**: in every run of operations, and at every point of one that has not
ended, what was asked of the host follows the protocol; no control directory is left open by an
operation that has ended; and whenever a process is started, it is one of the commands of Git, in
the directory and with the environment of a control directory that is there. -/
theorem control_sessions {logs : List OsLog} {r r' : Registry} {α : Type} {m : RegistryMethod α}
    {last : OsLog} {u : Interaction OsCall OsCall.Answer (Except Exc α × Registry)}
    (hrun : Steps (Exchanges adapter) r logs r') (hm : Operation adapter α m)
    (hlast : (m r').Leads last u) :
    Steps (ControlStep adapter.git) .closed logs.flatten .closed ∧
      (∃ session, Steps (ControlStep adapter.git) .closed (logs.flatten ++ last) session) ∧
      ∀ before argv cwd environment answer after,
        logs.flatten ++ last = before ++ ⟨.popen argv cwd environment, answer⟩ :: after →
        ∃ control arguments, argv = adapter.git.executable.str :: arguments ∧
          GitCommand control arguments environment ∧ IsThere before cwd control := by
  have hended : Steps (ControlStep adapter.git) .closed logs.flatten .closed := by
    clear hlast
    induction hrun with
    | nil => exact .nil _
    | cons head tail ih =>
      obtain ⟨_, m', x, hm', hret⟩ := head
      exact Steps.append_iff.mpr ⟨_, hm'.stays.returns hret, ih⟩
  obtain ⟨session, hunderway, -⟩ := (hm.stays r').leads hlast
  have hall := Steps.append_iff.mpr ⟨_, hended, hunderway⟩
  refine ⟨hended, ⟨session, hall⟩, ?_⟩
  intro before argv cwd environment answer after hlog
  rw [hlog] at hall
  obtain ⟨middle, hbefore, hafter⟩ := Steps.append_iff.mp hall
  obtain ⟨_, hstep, -⟩ := Steps.cons_iff.mp hafter
  have hthere : ThereIfOpen before middle := hbefore.invariant ThereIfOpen.step trivial
  cases hstep with
  | runs hcommand => exact ⟨_, _, rfl, hcommand, hthere⟩
  | tends htends => exact htends.elim
  | looks hlooks => exact hlooks.elim
  | disposes hdisposes => exact hdisposes.elim

end

/-- A run that is given a workspace. -/
theorem control_sessions_prepared : ∃ log registry,
    (localWorkspace.prepare 9 localRun).Returns .empty log (.ok localIdentity) registry ∧
      Steps (ControlStep localGit) .closed [log].flatten .closed := by
  have hplay : ((localWorkspace.prepare 9 localRun .empty).play
      (obligingHost headOutput) []).2.map Prod.fst = some (.ok localIdentity) := by
    decide +kernel
  obtain ⟨registry, h⟩ := Method.returns_play hplay
  have hrun : Steps (Exchanges localWorkspace) .empty [_] registry :=
    .cons ⟨_, _, _, .prepare 9 localRun, h⟩ (.nil registry)
  exact ⟨_, registry, h, (control_sessions hrun (.release localIdentity) (.nil _)).1⟩

end Alicerce
