import Alicerce.Adapters.PrepareRace
import Alicerce.Adapters.ReleaseRollback

/-!
# Preparation is all or nothing

A `prepare` that raises leaves the registry as it was, and under the name of the new workspace what
was there before; one that returns has seen the baseline twice, and no remote, and can be loaded.

* `stages_prepare`: a run of `prepare` only looks until it has reserved an id.
* `Held`: what it then does in the root leaves the root a directory, and makes no link of the entry
  it has reserved, so that the last cleanup acts on that entry and no other.
* `sameAt_of_prepare_raises` is the first half of the result, unless a call of the cleanup fails
  (`CleanupFails`).
* `Inspection` is what a `prepare` that returns has seen (`inspection_of_prepare`), and enough to
  load the workspace (`Inspection.returns_load`).
* `prepare_all_or_nothing` is both halves.
* `preparation` is a run of it, on a host on which `git clone` clones.
-/

set_option autoImplicit false

namespace Alicerce

open Py Lib

/-! ## Calls that leave the files alone -/

/-- A call that leaves the files alone: a look, or the question for an id. -/
def OsCall.Quiet : OsCall → Prop
  | .newWorkspaceId => True
  | call => call.Looks

section

variable {work : HostTree → HostTree → Prop} {tree tree' : HostTree} {log : OsLog} {path : Path}

/-- What returns without its result. -/
theorem returns_discard {α : Type} {p : Os α} {u : PUnit} :
    (discard p : Os PUnit).Returns log (.ok u) ↔ ∃ a, p.Returns log (.ok a) := by
  constructor
  · intro h
    obtain ⟨l, l', a, rfl, hp, hret⟩ := Action.returns_bind_ok.mp h
    obtain ⟨rfl, -⟩ := Action.returns_pure.mp hret
    rw [List.append_nil]
    exact ⟨a, hp⟩
  · rintro ⟨a, hp⟩
    exact Action.returns_bind_ok.mpr ⟨log, [], a, (List.append_nil _).symm, hp,
      Action.returns_pure.mpr ⟨rfl, rfl⟩⟩

theorem OsCall.Looks.quiet {call : OsCall} (h : call.Looks) : call.Quiet := by
  cases call <;> first | exact h | exact h.elim

/-- A run of such calls shows the files as they stay. -/
theorem tree_eq_of_quiet (hsteps : Steps (Acts work) tree log tree')
    (h : ∀ e ∈ log, e.1.Quiet) : tree' = tree ∧ ∀ e ∈ log, Shows tree e := by
  induction hsteps with
  | nil => exact ⟨rfl, by simp⟩
  | @cons t m t' event log head _ ih =>
    obtain ⟨hquiet, hlog⟩ := List.forall_mem_cons.mp h
    have hhead : m = t ∧ Shows t event := by
      obtain ⟨call, answer⟩ := event
      cases call <;> first | exact head | exact hquiet.elim
    obtain ⟨rfl, hshows⟩ := hhead
    exact ⟨(ih hlog).1, List.forall_mem_cons.mpr ⟨hshows, (ih hlog).2⟩⟩

/-! ## Programs that fail at a path -/

/-- A look at a path, or a removal of what is there, that fails. -/
def FailsAt (path : Path) : Event OsCall.Answer → Prop
  | ⟨.isSymlink p, .error _⟩ | ⟨.isDir p, .error _⟩ | ⟨.pathExists p, .error _⟩
  | ⟨.unlink p, .error _⟩ | ⟨.rmtree p, .error _⟩ => p = path
  | _ => False

/-- A program raises only when its last call has failed at a path. -/
def Blames {α : Type} (path : Path) (p : Os α) : Prop :=
  ∀ log e, p.Returns log (.error e) → IsOsError e ∧ ∃ front event, log = front ++ [event] ∧
    FailsAt path event

theorem blames_pure {α : Type} (a : α) : Blames path (pure a : Os α) :=
  fun _ _ h ↦ absurd (Action.returns_pure.mp h).2 (by simp)

theorem blames_ask {α : Type} {c : OsCall} {f : c.Answer → Except Exc α}
    (h : ∀ answer e, f answer = .error e →
      ∃ error : OsError, e = error.toExc ∧ FailsAt path ⟨c, answer⟩) :
        Blames path (.ask c f : Os α) := by
  intro log e hret
  obtain ⟨answer, rfl, hanswer⟩ := Action.returns_ask.mp hret
  obtain ⟨error, rfl, hfails⟩ := h answer e hanswer.symm
  exact ⟨rfl, [], _, rfl, hfails⟩

theorem Blames.bind {α β : Type} {p : Os α} {f : α → Os β} (hp : Blames path p)
    (hf : ∀ a, Blames path (f a)) : Blames path (p >>= f) := by
  intro log e hret
  rcases Action.returns_bind.mp hret with ⟨l, l', a, rfl, -, hrest⟩ | ⟨e', hfail, heq⟩
  · obtain ⟨hkind, front, event, rfl, hfails⟩ := hf a l' e hrest
    exact ⟨hkind, l ++ front, event, (List.append_assoc ..).symm, hfails⟩
  · rw [Except.error.inj heq]
    exact hp log e' hfail

theorem Blames.ite {α : Type} {P : Prop} [Decidable P] {p q : Os α} (hp : Blames path p)
    (hq : Blames path q) : Blames path (if P then p else q) := by
  split
  · exact hp
  · exact hq

theorem blames_isSymlink : Blames path (Os.isSymlink path) := by
  refine blames_ask fun answer e h ↦ ?_
  obtain ⟨error, rfl, rfl⟩ := mapError_eq_error_iff.mp h
  exact ⟨error, rfl, rfl⟩

theorem blames_isDir : Blames path (Os.isDir path) := by
  refine blames_ask fun answer e h ↦ ?_
  obtain ⟨error, rfl, rfl⟩ := mapError_eq_error_iff.mp h
  exact ⟨error, rfl, rfl⟩

theorem blames_pathExists : Blames path (Os.pathExists path) := by
  refine blames_ask fun answer e h ↦ ?_
  obtain ⟨error, rfl, rfl⟩ := mapError_eq_error_iff.mp h
  exact ⟨error, rfl, rfl⟩

theorem blames_unlink : Blames path (Os.unlink path) := by
  refine blames_ask fun answer e h ↦ ?_
  obtain ⟨error, rfl, rfl⟩ := mapError_eq_error_iff.mp h
  exact ⟨error, rfl, rfl⟩

theorem blames_rmtree : Blames path (Os.rmtree path) := by
  refine blames_ask fun answer e h ↦ ?_
  obtain ⟨error, rfl, rfl⟩ := mapError_eq_error_iff.mp h
  exact ⟨error, rfl, rfl⟩

end

/-! ## What Git's operations have seen when they return -/

namespace ControlledGitCli

variable {α : Type} {git : ControlledGitCli} {fuel : ℕ} {log : OsLog} {stem : Text}
  {dir control place destination source : Path} {baselineSha : BaselineSha}

theorem returns_mkdir {u : Unit} :
    (Os.mkdir place).Returns log (.ok u) ↔ log = [⟨.mkdir place, .ok ()⟩] := by
  constructor
  · intro h
    obtain ⟨answer, rfl, hanswer⟩ := Action.returns_ask.mp h
    rw [mapError_eq_ok_iff.mp hanswer.symm]
  · rintro rfl
    exact Action.returns_ask.mpr ⟨.ok (), rfl, rfl⟩

theorem returns_mkdtemp :
    (Os.mkdtemp stem dir).Returns log (.ok control) ↔ log = [⟨.mkdtemp stem dir, .ok control⟩] := by
  constructor
  · intro h
    obtain ⟨answer, rfl, hanswer⟩ := Action.returns_ask.mp h
    rw [mapError_eq_ok_iff.mp hanswer.symm]
  · rintro rfl
    exact Action.returns_ask.mpr ⟨.ok control, rfl, rfl⟩

theorem returns_rmtree {u : Unit} :
    (Os.rmtree place).Returns log (.ok u) ↔ log = [⟨.rmtree place, .ok ()⟩] := by
  constructor
  · intro h
    obtain ⟨answer, rfl, hanswer⟩ := Action.returns_ask.mp h
    rw [mapError_eq_ok_iff.mp hanswer.symm]
  · rintro rfl
    exact Action.returns_ask.mpr ⟨.ok (), rfl, rfl⟩

/-- The environment a control directory gives to Git. -/
def controlEnvironment (control : Path) : List (Text × Text) :=
  environment (control.join "home") (control.join "config") (control.join "hooks")

/-- A control directory is made, used and removed. -/
def controlLog (stem : Text) (dir control : Path) (body : OsLog) : OsLog :=
  [⟨.mkdtemp stem dir, .ok control⟩] ++ ([⟨.mkdir (control.join "hooks"), .ok ()⟩] ++
    ([⟨.mkdir (control.join "home"), .ok ()⟩] ++ [⟨.mkdir (control.join "config"), .ok ()⟩]) ++
      body ++ [⟨.rmtree control, .ok ()⟩])

theorem exists_eq_controlLog (front middle back : OsLog) : ∃ before after,
    controlLog stem dir control (front ++ middle ++ back) = before ++ middle ++ after := by
  refine ⟨[⟨.mkdtemp stem dir, .ok control⟩] ++ ([⟨.mkdir (control.join "hooks"), .ok ()⟩] ++
    ([⟨.mkdir (control.join "home"), .ok ()⟩] ++ [⟨.mkdir (control.join "config"), .ok ()⟩]) ++
      front), back ++ [⟨.rmtree control, .ok ()⟩], ?_⟩
  simp only [controlLog, List.append_assoc]

theorem returns_makeControl {environment : List (Text × Text)} :
    (makeControl control).Returns log (.ok environment) ↔
      log = [⟨.mkdir (control.join "hooks"), .ok ()⟩] ++
        ([⟨.mkdir (control.join "home"), .ok ()⟩] ++ [⟨.mkdir (control.join "config"), .ok ()⟩]) ∧
      environment = controlEnvironment control := by
  simp only [makeControl, Action.returns_bind_ok, returns_mkdir, Action.returns_pure,
    Except.ok.injEq, controlEnvironment]
  constructor
  · rintro ⟨l, l', u, rfl, rfl, l₁, l₂, v, rfl, rfl, l₃, l₄, w, rfl, rfl, rfl, rfl⟩
    exact ⟨by simp, rfl⟩
  · rintro ⟨rfl, rfl⟩
    exact ⟨_, _, (), rfl, rfl, _, _, (), rfl, rfl, _, [], (), by simp, rfl, rfl, rfl⟩

/-- What returns from a control directory. -/
theorem returns_withControl {body : Path → List (Text × Text) → Os α} {a : α} :
    (withControl stem dir body).Returns log (.ok a) ↔ ∃ control l, log =
      controlLog stem dir control l ∧
      (body control (controlEnvironment control)).Returns l (.ok a) := by
  rw [withControl, Action.returns_bind_ok]
  constructor
  · rintro ⟨l, l', control, rfl, hmake, hrest⟩
    obtain rfl := returns_mkdtemp.mp hmake
    obtain ⟨l₁, l₂, x, rfl, hbody, ⟨hsweep, rfl⟩ | ⟨e, -, heq⟩⟩ :=
      Action.returns_tryFinally.mp hrest
    · obtain rfl := returns_rmtree.mp hsweep
      obtain ⟨l₃, l₄, environment, rfl, hmade, hbody⟩ := Action.returns_bind_ok.mp hbody
      obtain ⟨rfl, rfl⟩ := returns_makeControl.mp hmade
      exact ⟨control, l₄, rfl, hbody⟩
    · exact absurd heq (by simp)
  · rintro ⟨control, l, rfl, hbody⟩
    refine ⟨_, _, control, rfl, returns_mkdtemp.mpr rfl, Action.returns_tryFinally.mpr ?_⟩
    exact ⟨_, _, .ok a, rfl, Action.returns_bind_ok.mpr ⟨_, _, _, rfl,
      returns_makeControl.mpr ⟨rfl, rfl⟩, hbody⟩, .inl ⟨returns_rmtree.mpr rfl, rfl⟩⟩

/-- **A baseline is verified** when Git reports it as the head, and no remotes. -/
theorem returns_verifyBaseline {b : MaterializedBaseline} :
    (git.verifyBaseline fuel place baselineSha).Returns log (.ok b) ↔
      ∃ trusted looked control head output remotes listed,
        log = looked ++ controlLog ".alicerce-git-control-" trusted.parent control
          (head ++ remotes) ∧
        (validateRepository place).Returns looked (.ok trusted) ∧
        (git.run fuel (revParse trusted) trusted.parent (controlEnvironment control)).Returns head
          (.ok output) ∧
        (git.run fuel (listRemotes trusted) trusted.parent (controlEnvironment control)).Returns
          remotes (.ok listed) ∧
        strip output = baselineSha.value ∧ strip listed = [] ∧ b = ⟨trusted, baselineSha⟩ := by
  rw [verifyBaseline, Action.returns_bind_ok]
  constructor
  · rintro ⟨looked, l, trusted, rfl, hlooked, hrest⟩
    obtain ⟨l₁, l₂, ⟨reportedHead, reportedRemotes⟩, rfl, hreports, hrest⟩ :=
      Action.returns_bind_ok.mp hrest
    obtain ⟨control, body, rfl, hbody⟩ := returns_withControl.mp (returns_translate_ok.mp hreports)
    obtain ⟨head, l₃, output, rfl, hhead, hbody⟩ := Action.returns_bind_ok.mp hbody
    obtain ⟨remotes, l₄, listed, rfl, hremotes, hbody⟩ := Action.returns_bind_ok.mp hbody
    obtain ⟨rfl, heq⟩ := Action.returns_pure.mp hbody
    obtain ⟨rfl, rfl⟩ := Prod.mk.inj (Except.ok.inj heq)
    dsimp only at hrest
    split at hrest
    · exact absurd (Action.returns_raise.mp hrest).2 (by simp)
    rename_i hhead_eq
    split at hrest
    · exact absurd (Action.returns_raise.mp hrest).2 (by simp)
    rename_i hremotes_eq
    obtain ⟨rfl, heq⟩ := Action.returns_pure.mp hrest
    obtain rfl := Except.ok.inj heq
    exact ⟨trusted, looked, control, head, output, remotes,
      listed, by simp, hlooked, hhead, hremotes,
      not_not.mp hhead_eq, not_not.mp hremotes_eq, rfl⟩
  · rintro ⟨trusted, looked, control, head, output, remotes, listed, rfl, hlooked, hhead, hremotes,
      hhead_eq, hremotes_eq, rfl⟩
    refine ⟨looked, _, trusted, rfl, hlooked, Action.returns_bind_ok.mpr
      ⟨_, [], (strip output, strip listed),
      (List.append_nil _).symm, returns_translate_ok.mpr (returns_withControl.mpr
        ⟨control, head ++ remotes, rfl, ?_⟩), ?_⟩⟩
    · exact Action.returns_bind_ok.mpr
        ⟨head, remotes, output, rfl, hhead, Action.returns_bind_ok.mpr
        ⟨remotes, [], listed, (List.append_nil _).symm, hremotes,
          Action.returns_pure.mpr ⟨rfl, rfl⟩⟩⟩
    · dsimp only
      rw [if_neg (not_not.mpr hhead_eq), if_neg (not_not.mpr hremotes_eq)]
      exact Action.returns_pure.mpr ⟨rfl, rfl⟩

/-- A baseline is materialized beside its siblings when Git reports it as the head. -/
theorem returns_materializeBaseline {b : MaterializedBaseline}
    (h : (git.materializeBaseline fuel source destination baselineSha).Returns log (.ok b)) :
    ∃ parent environment before head output after, log = before ++ head ++ after ∧
      ⟨.resolve destination.parent, .ok parent⟩ ∈ before ∧
      (git.run fuel (revParse (parent.join destination.name)) (parent.join destination.name).parent
        environment).Returns head (.ok output) ∧ strip output = baselineSha.value := by
  obtain ⟨looked, l, ⟨trustedSource, trustedDestination⟩, rfl, hlooked, hrest⟩ :=
    Action.returns_bind_ok.mp h
  obtain ⟨parent, hparent, rfl⟩ := Scope.returns_validatePaths hlooked
  obtain ⟨l₁, l₂, u, rfl, hclone, -⟩ := Action.returns_bind_ok.mp hrest
  rcases Action.returns_tryCatch.mp hclone with ⟨v, hclone, -⟩ | ⟨l₃, l₄, e, rfl, -, hhandler⟩
  swap
  · -- the handler raises
    have hraises : ∀ {p : Os Unit} {e' : Exc}, ¬(do p; .raise e' : Os Unit).Returns l₄ (.ok u) :=
      fun hret ↦ by
        obtain ⟨m, m', v, -, -, hraise⟩ := Action.returns_bind_ok.mp hret
        exact absurd (Action.returns_raise.mp hraise).2 (by simp)
    split at hhandler
    · exact absurd hhandler hraises
    split at hhandler
    · exact absurd hhandler hraises
    · exact absurd (Action.returns_raise.mp hhandler).2 (by simp)
  obtain ⟨control, body, rfl, hbody⟩ := returns_withControl.mp hclone
  obtain ⟨m₁, m₂, -, rfl, -, hbody⟩ := Action.returns_bind_ok.mp hbody
  obtain ⟨m₃, m₄, -, rfl, -, hbody⟩ := Action.returns_bind_ok.mp hbody
  obtain ⟨head, m₅, output, rfl, hhead, hbody⟩ := Action.returns_bind_ok.mp hbody
  dsimp only at hbody
  split at hbody
  · exact absurd (Action.returns_raise.mp hbody).2 (by simp)
  rename_i hhead_eq
  have hsplit : ∃ before after,
      controlLog ".alicerce-git-control-" (parent.join destination.name).parent control
        (m₁ ++ (m₃ ++ (head ++ m₅))) = before ++ head ++ after := by
    rw [← List.append_assoc, ← List.append_assoc (m₁ ++ m₃)]
    exact exists_eq_controlLog _ _ _
  obtain ⟨before, after, hsplit⟩ := hsplit
  refine ⟨parent, _, looked ++ before, head, output, after ++ l₂, ?_,
    List.mem_append_left _ hparent, hhead, not_not.mp hhead_eq⟩
  rw [hsplit]
  simp only [List.append_assoc]

end ControlledGitCli

namespace LocalGitWorkspace

variable {adapter : LocalGitWorkspace} {fuel : ℕ} {id : WorkspaceId} {log front back : OsLog}
  {work : HostTree → HostTree → Prop} {tree tree' : HostTree} {event : Event OsCall.Answer}
  {identity : RunIdentity} {r r' : Registry}

/-! ## The cleanup -/

/-- What `_discard_unpublished` does to an entry of the root. -/
def removeEntry (path : Path) : Os Unit := do
  if ← Os.or (Os.isSymlink path)
      (do if ← Os.pathExists path then return !(← Os.isDir path) else return false) then
    Os.unlink path
  else if ← Os.isDir path then
    Os.rmtree path

theorem not_isProtected_placeOf (adapter : LocalGitWorkspace) (id : WorkspaceId) :
    ¬adapter.IsProtected (adapter.placeOf id) := by
  rintro ⟨protectedRoot, hprotected, hoverlaps⟩
  have hapart := apart_protected hprotected id.value
  rw [← placeOf_parts] at hapart
  rcases hoverlaps with heq | hbelow | habove
  · exact hapart.1 (heq ▸ List.prefix_refl _)
  · exact hapart.1 hbelow
  · exact hapart.2 habove

/-- The place of a workspace is an entry of the root, and not protected. -/
theorem discardUnpublished_placeOf (adapter : LocalGitWorkspace) (id : WorkspaceId) :
    adapter.discardUnpublished (adapter.placeOf id) =
      Os.suppress Exc.isOsError (removeEntry (adapter.placeOf id)) := by
  refine if_neg ?_
  rintro (hparent | hprotected)
  · exact hparent (placeOf_parent id)
  · exact not_isProtected_placeOf adapter id hprotected

theorem blames_removeEntry (path : Path) : Blames path (removeEntry path) := by
  refine Blames.bind (Blames.bind blames_isSymlink fun _ ↦ .ite (blames_pure _) ?_) fun _ ↦
    .ite blames_unlink (blames_isDir.bind fun _ ↦ .ite blames_rmtree (blames_pure _))
  exact blames_pathExists.bind fun _ ↦ .ite (blames_isDir.bind fun _ ↦ blames_pure _)
    (blames_pure _)

/-- The cleanup raises nothing. -/
theorem discardUnpublished_returns {x : Except Exc Unit}
    (h : (adapter.discardUnpublished (adapter.placeOf id)).Returns log x) :
    x = .ok () ∧ ((removeEntry (adapter.placeOf id)).Returns log (.ok ()) ∨
      ∃ front event, log = front ++ [event] ∧ FailsAt (adapter.placeOf id) event) := by
  rw [discardUnpublished_placeOf] at h
  rcases Action.returns_tryCatch.mp h with ⟨u, hbody, rfl⟩ | ⟨l, l', e, rfl, hfail, hhandler⟩
  · exact ⟨rfl, .inl hbody⟩
  · obtain ⟨hkind, hlast⟩ := blames_removeEntry _ _ _ hfail
    rw [if_pos hkind] at hhandler
    obtain ⟨rfl, rfl⟩ := Action.returns_pure.mp hhandler
    rw [List.append_nil]
    exact ⟨rfl, .inr hlast⟩

/-- Nothing is left of an entry that was removed. -/
theorem node_of_removeEntry (hroot : tree.node adapter.root.parts = some .dir)
    (hnamed : adapter.root.Named)
    (h : (removeEntry (adapter.placeOf id)).Returns log (.ok ()))
    (hsteps : Steps (Acts work) tree log tree') : tree'.node (adapter.placeOf id).parts = none := by
  have hentry : ∀ {place}, tree.EntryAt (adapter.placeOf id) place →
      place = (adapter.placeOf id).parts := entryAt_placeOf hroot hnamed
  obtain ⟨l, l', other, rfl, hother, hrest⟩ := Action.returns_bind_ok.mp h
  have hlooks : Watches (Os.or (Os.isSymlink (adapter.placeOf id)) (do
      if ← Os.pathExists (adapter.placeOf id) then return !(← Os.isDir (adapter.placeOf id))
      else return false)) :=
    Os.calls_or (watches_ask (by trivial)) ((watches_ask (by trivial)).bind fun _ ↦
      .ite (Os.calls_not (watches_ask (by trivial))) trivial)
  obtain ⟨m, hfirst, hlast⟩ := Steps.append_iff.mp hsteps
  obtain ⟨rfl, hshows⟩ := tree_eq_of_quiet hfirst fun e he ↦ (hlooks.looks.leads hother e he).quiet
  split at hrest
  · obtain ⟨answer, rfl, hanswer⟩ := Action.returns_ask.mp hrest
    rw [mapError_eq_ok_iff.mp hanswer.symm] at hlast
    obtain ⟨t, ⟨place, n, hplace, -, -, hloses⟩, hnil⟩ := Steps.cons_iff.mp hlast
    obtain rfl := Steps.nil_iff.mp hnil
    exact hentry hplace ▸ hloses.node_eq_none
  rename_i hfalse
  obtain rfl : other = false := by simpa using hfalse
  obtain ⟨l₁, l₂, rfl, hlink, hthere⟩ := returns_or_false hother
  obtain rfl := returns_isSymlink hlink
  have hunlinked : ¬m.LinkAt (adapter.placeOf id).parts :=
    Shows.not_link (hshows ⟨.isSymlink (adapter.placeOf id), .ok false⟩ (by simp))
  obtain ⟨l₃, l₄, isDir, rfl, hdir, hremove⟩ := Action.returns_bind_ok.mp hrest
  obtain rfl := returns_isDir hdir
  obtain ⟨t, hacts, hrun⟩ := Steps.cons_iff.mp hlast
  obtain ⟨heq, hisDir⟩ : t = m ∧ Shows m ⟨.isDir (adapter.placeOf id), .ok isDir⟩ := hacts
  rw [heq] at hrun
  cases isDir with
  | true =>
    obtain ⟨answer, rfl, hanswer⟩ := Action.returns_ask.mp hremove
    rw [mapError_eq_ok_iff.mp hanswer.symm] at hrun
    obtain ⟨t', ⟨place, hplace, -, hloses⟩, hnil⟩ := Steps.cons_iff.mp hrun
    obtain rfl := Steps.nil_iff.mp hnil
    exact hentry hplace ▸ hloses.node_eq_none
  | false =>
    obtain ⟨rfl, -⟩ := Action.returns_pure.mp hremove
    obtain rfl := Steps.nil_iff.mp hrun
    obtain ⟨l₅, l₆, there, rfl, hexists, hkind⟩ := Action.returns_bind_ok.mp hthere
    obtain rfl := returns_pathExists hexists
    cases there with
    | false => exact node_of_looksFree ⟨by simp, by simp⟩ hshows
    | true =>
      -- it was a directory before it was none
      obtain rfl := returns_isDir (returns_not_false hkind)
      obtain ⟨place, hleads, hnode⟩ :=
        (hshows ⟨.isDir (adapter.placeOf id), .ok true⟩ (by simp)).1 rfl
      rw [placeOf_eq] at hleads hunlinked hisDir
      obtain rfl := leads_entry hroot hnamed (WorkspaceId.head_ne_dot id _) hunlinked hleads
      exact absurd (hisDir.2 hnode) (by simp)

/-! ## The stages of a preparation -/

/-- An exception of one of the kinds that `prepare` expects. -/
def Foreseen (e : Exc) : Prop :=
  e.isGitCliError = true ∨ e.isWorkspaceError = true ∨ IsOsError e

/-- What is raised once a place is reserved, is raised behind the cleanup of the place. -/
theorem materialize_raises {e : Exc}
    (h : (adapter.materialize fuel identity (adapter.placeOf id)).Returns log (.error e)) :
    (∃ body cleanup, log = body ++ cleanup ∧
      (adapter.discardUnpublished (adapter.placeOf id)).Returns cleanup (.ok ())) ∨
      ¬Foreseen e := by
  have hcleanup : ∀ {l' : OsLog} {e' : Exc}, (do
      adapter.discardUnpublished (adapter.placeOf id)
      .raise e' : Os Bytes).Returns l' (.error e) →
        (adapter.discardUnpublished (adapter.placeOf id)).Returns l' (.ok ()) := by
    intro l' e' hret
    rcases Action.returns_bind.mp hret with ⟨l₁, l₂, u, rfl, hdiscard, hraise⟩ | ⟨e'', hfail, -⟩
    · obtain ⟨rfl, -⟩ := Action.returns_raise.mp hraise
      rw [List.append_nil]
      exact hdiscard
    · exact absurd (discardUnpublished_returns hfail).1 (by simp)
  rcases Action.returns_tryCatch.mp h with ⟨a, -, heq⟩ | ⟨l, l', e', rfl, -, hhandler⟩
  · exact absurd heq (by simp)
  split at hhandler
  · exact .inl ⟨l, l', rfl, hcleanup hhandler⟩
  rename_i hgit
  split at hhandler
  · exact .inl ⟨l, l', rfl, hcleanup hhandler⟩
  rename_i hworkspace
  split at hhandler
  · exact .inl ⟨l, l', rfl, hcleanup hhandler⟩
  rename_i hos
  obtain rfl := Except.error.inj (Action.returns_raise.mp hhandler).2
  exact .inr fun hkind ↦ hkind.elim hgit fun hkind ↦ hkind.elim hworkspace hos

/-- **The stages of a preparation**: it looks, and raises; or it looks, has then reserved an id, and
materializes the baseline there. -/
theorem stages_prepare {x : Except Exc WorkspaceIdentity}
    (h : (adapter.prepare fuel identity).Returns r log x r') :
    ((∃ e, x = .error e) ∧ r' = r ∧ ∀ e ∈ log, e.1.Quiet) ∨
    ∃ id roots asked back y, log = roots ++ asked ++ back ∧
      adapter.assertRootIntegrity.Returns roots (.ok ()) ∧
      (∀ e ∈ roots ++ asked, e.1.Quiet) ∧ adapter.Reserved id (roots ++ asked) ∧
      (adapter.materialize fuel identity (adapter.placeOf id)).Returns back y ∧
      ((∃ digest, y = .ok digest ∧ x = .ok ⟨id, identity.runId, identity.baselineSha⟩ ∧
          r' = r.publish ⟨⟨id, identity.runId, identity.baselineSha⟩, adapter.placeOf id, digest⟩) ∨
        ∃ e, y = .error e ∧ x = .error e ∧ r' = r) := by
  have hquiet : ∀ {α : Type} {p : Os α} {l : OsLog} {y : Except Exc α}, Watches p →
      p.Returns l y → ∀ e ∈ l, e.1.Quiet := fun hp hret e he ↦ (hp.looks.leads hret e he).quiet
  have happend : ∀ {l l' : OsLog}, (∀ e ∈ l, e.1.Quiet) → (∀ e ∈ l', e.1.Quiet) →
      ∀ e ∈ l ++ l', e.1.Quiet := fun hl hl' e he ↦ (List.mem_append.mp he).elim (hl e) (hl' e)
  rcases Method.returns_perform_bind.mp h with ⟨roots, l, u, rfl, hroot, hrest⟩ |
    ⟨e, hfail, rfl, rfl⟩
  swap
  · exact .inl ⟨⟨e, rfl⟩, rfl, hquiet (watches_assertRootIntegrity adapter) hfail⟩
  have hroots := hquiet (watches_assertRootIntegrity adapter) hroot
  rw [Method.returns_get_bind] at hrest
  split at hrest
  · obtain ⟨rfl, rfl, rfl⟩ := Method.returns_raise.mp hrest
    exact .inl ⟨⟨_, rfl⟩, rfl, by rwa [List.append_nil]⟩
  rcases Method.returns_perform_bind.mp hrest with ⟨l₁, l₂, id, rfl, hnew, hrest⟩ |
    ⟨e, hfail, rfl, rfl⟩
  swap
  · obtain ⟨answer, rfl, -⟩ := Action.returns_ask.mp hfail
    exact .inl ⟨⟨e, rfl⟩, rfl, happend hroots (by simp [OsCall.Quiet])⟩
  have hasked : ∀ e ∈ l₁, e.1.Quiet := by
    obtain ⟨answer, rfl, -⟩ := Action.returns_ask.mp hnew
    simp [OsCall.Quiet]
  rcases Method.returns_perform_bind.mp hrest with ⟨l₃, l₄, path, rfl, hplace, hrest⟩ |
    ⟨e, hfail, -, -⟩
  swap
  · rw [pathFor_eq] at hfail
    exact absurd (Action.returns_lift.mp hfail).2 (by simp)
  obtain ⟨rfl, heq⟩ := Action.returns_lift.mp hplace
  obtain rfl := Except.ok.inj (heq.trans (pathFor_eq _))
  have hwatches : Watches (Os.or (pure (r.records id).isSome)
      (Os.or (Os.pathExists (adapter.placeOf id)) (Os.isSymlink (adapter.placeOf id)))) :=
    Os.calls_or trivial (Os.calls_or (watches_ask (by trivial)) (watches_ask (by trivial)))
  rcases Method.returns_perform_bind.mp hrest with ⟨l₅, l₆, occupied, rfl, hcheck, hrest⟩ |
    ⟨e, hfail, rfl, rfl⟩
  swap
  · exact .inl ⟨⟨e, rfl⟩, rfl, happend hroots (happend hasked (hquiet hwatches hfail))⟩
  have hchecked := happend hroots (happend hasked (hquiet hwatches hcheck))
  split at hrest
  · obtain ⟨rfl, rfl, rfl⟩ := Method.returns_raise.mp hrest
    exact .inl ⟨⟨_, rfl⟩, rfl, by simpa using hchecked⟩
  rename_i hfree
  obtain rfl : occupied = false := by simpa using hfree
  have hreserved := reserved_of_returns (intact_of_returns hroot) hnew hcheck
  rw [List.append_assoc] at hreserved
  refine .inr ⟨id, roots, l₁ ++ l₅, l₆, ?_⟩
  rcases Method.returns_perform_bind.mp hrest with ⟨l₇, l₈, digest, rfl, hmade, hrest⟩ |
    ⟨e, hfail, rfl, rfl⟩
  · rw [Method.returns_modify_bind] at hrest
    obtain ⟨rfl, rfl, rfl⟩ := Method.returns_pure.mp hrest
    rw [List.append_nil]
    exact ⟨.ok digest, by simp, hroot, hchecked, hreserved, hmade, .inl ⟨digest, rfl, rfl, rfl⟩⟩
  · exact ⟨.error e, by simp, hroot, hchecked, hreserved, hfail, .inr ⟨e, rfl, rfl, rfl⟩⟩

/-! ## What holds of the files behind a reservation -/

/-- What happens to the files leaves the root a directory, and makes no link of the entry of a
workspace. -/
structure Undisturbed (adapter : LocalGitWorkspace) (tree tree' : HostTree) : Prop where
  root : tree.node adapter.root.parts = some .dir → tree'.node adapter.root.parts = some .dir
  noLink : ∀ id, tree'.LinkAt (entryOf adapter.root id) → tree.LinkAt (entryOf adapter.root id)

theorem undisturbed_refl (tree : HostTree) : adapter.Undisturbed tree tree := ⟨id, fun _ ↦ id⟩

theorem undisturbed_of_gains {made : List Text} (h : tree.Gains made tree') :
    adapter.Undisturbed tree tree' := ⟨h.node_eq_of_some, fun _ ↦ linkAt_of_gains h⟩

theorem undisturbed_of_removal {name : Text}
    (h : tree' = tree ∨ tree.Shrinks (adapter.root.parts ++ [name]) tree') :
    adapter.Undisturbed tree tree' := by
  rcases h with rfl | hshrinks
  · exact undisturbed_refl _
  refine ⟨fun hroot ↦ ?_, fun _ ↦ linkAt_of_shrinks hshrinks⟩
  rw [hshrinks.same.node_eq fun p hp hbefore ↦ ?_, hroot]
  rw [Set.mem_singleton_iff.mp hp] at hbefore
  have hlength := hbefore.length_le
  simp at hlength

/-- A step within what `prepare` may touch disturbs neither root nor entries, when Git does not. -/
theorem undisturbed_of_allows (hnamed : adapter.root.Named)
    (hwork : ∀ t t', work t t' → adapter.Undisturbed t t')
    (hroot : tree.node adapter.root.parts = some .dir) (hclear : adapter.Clear log)
    (h : adapter.prepareScope.Allows log event) (hacts : Acts work tree event tree') :
    adapter.Undisturbed tree tree' := by
  cases h with
  | looks hlooks =>
    obtain ⟨rfl, -⟩ := hacts.of_looks hlooks
    exact undisturbed_refl _
  | handed =>
    obtain ⟨rfl, -⟩ := hacts
    exact undisturbed_refl _
  | works hworks => exact hwork _ _ ((acts_works hworks).mp hacts)
  | mkdtemp hstem hdir answer =>
    cases answer with
    | error e => exact hacts.1 ▸ undisturbed_refl _
    | ok path =>
      obtain ⟨-, place, -, -, -, hgains⟩ := hacts
      exact undisturbed_of_gains hgains
  | mkdir hname hcontrol answer =>
    cases answer with
    | error e => exact hacts.1 ▸ undisturbed_refl _
    | ok u =>
      obtain ⟨place, -, hgains⟩ := hacts
      exact undisturbed_of_gains hgains
  | sweep hcontrol answer =>
    obtain ⟨name, -, rfl⟩ := hclear.controls _ _ _ hcontrol
    exact undisturbed_of_removal (shrinks_of_removes hroot hnamed hacts)
  | unlink hpath answer =>
    obtain ⟨id, -, rfl⟩ := owned_entry hclear hpath
    exact undisturbed_of_removal (shrinks_of_unlink hroot hnamed hacts)
  | rmtree hpath answer =>
    obtain ⟨id, -, rfl⟩ := owned_entry hclear hpath
    exact undisturbed_of_removal (shrinks_of_removes hroot hnamed hacts)

/-- What holds of the files while a reserved place is worked on. -/
structure Held (adapter : LocalGitWorkspace) (id : WorkspaceId) (log : OsLog) (tree : HostTree) :
    Prop where
  reserved : adapter.Reserved id log
  root : tree.node adapter.root.parts = some .dir
  unlinked : ¬tree.LinkAt (entryOf adapter.root id)
  clear : adapter.Clear log

theorem held_of_reserved
    {u : Interaction OsCall OsCall.Answer (Except Exc WorkspaceIdentity × Registry)}
    (hnamed : adapter.root.Named) (hlead : (adapter.prepare fuel identity r).Leads log u)
    (hquiet : ∀ e ∈ log, e.1.Quiet) (hreserved : adapter.Reserved id log)
    (hshows : ∀ e ∈ log, Shows tree e) : adapter.Held id log tree := by
  have hroot := root_of_intact hreserved.intact hshows
  have hunlinked : ∀ {id' : WorkspaceId}, adapter.Reserved id' log →
      ¬tree.LinkAt (entryOf adapter.root id') := fun h ↦ by
    rw [entryOf, ← placeOf_parts]
    exact Shows.not_link (hshows _ h.unlinked)
  refine ⟨hreserved, hroot, hunlinked hreserved,
    ⟨fun parent hmem ↦ ?_, fun stem dir control hmem ↦ ?_,
    fun id' trusted htrusted ↦ ?_, fun id₁ id₂ h₁ h₂ ↦ handed_once hlead h₁ h₂, fun id' hmem ↦ ?_⟩⟩
  · have hleads : tree.Leads adapter.root parent.parts := hshows _ hmem
    exact Path.ext ((HostTree.leads_of_settled (FileTree.settled_of_dir hroot) hnamed).mp hleads)
  · exact (hquiet _ hmem).elim
  · obtain ⟨front, back, rfl, hbefore⟩ := htrusted
    have hleads : tree.Leads (adapter.placeOf id') trusted.parts :=
      hshows ⟨.resolve (adapter.placeOf id'), .ok trusted⟩ (by simp)
    rw [placeOf_eq] at hleads ⊢
    exact Path.ext (leads_entry hroot hnamed (WorkspaceId.head_ne_dot id' _)
      (hunlinked (hbefore.append _)) hleads)
  · obtain rfl := handed_once hlead hmem hreserved.handed
    exact ⟨hreserved.intact, fun _ ↦ hreserved.found⟩

theorem Held.step (hnamed : adapter.root.Named)
    (hwork : ∀ t t', work t t' → adapter.Undisturbed t t') (h : adapter.Held id log tree)
    (hallows : adapter.prepareScope.Allows log event) (hordered : adapter.Ordered log event)
    (hacts : Acts work tree event tree') : adapter.Held id (log ++ [event]) tree' := by
  have hkept := undisturbed_of_allows hnamed hwork h.root h.clear hallows hacts
  refine ⟨h.reserved.append _, hkept.root h.root, fun hlink ↦ h.unlinked (hkept.noLink id hlink),
    h.clear.step hnamed h.root (fun id' hreserved ↦ ?_) hallows hordered hacts⟩
  obtain rfl := h.clear.once id id' h.reserved.handed hreserved.handed
  exact h.unlinked

/-- What holds behind a reservation holds to the end. -/
theorem Held.steps {u : Interaction OsCall OsCall.Answer (Except Exc WorkspaceIdentity × Registry)}
    (hnamed : adapter.root.Named) (hwork : ∀ t t', work t t' → adapter.Undisturbed t t')
    (hlead : (adapter.prepare fuel identity r).Leads (front ++ back) u)
    (h : adapter.Held id front tree) (hsteps : Steps (Acts work) tree back tree') :
    adapter.Held id (front ++ back) tree' := by
  obtain ⟨t, hfront, hback⟩ := Interaction.leads_append.mp hlead
  have hrule : (adapter.prepare fuel identity r).Obeys fun before event ↦
      adapter.prepareScope.Allows before event ∧ adapter.Ordered before event :=
    fun before event after v hv ↦ ⟨obeys_prepare identity r before event after v hv,
      obeys_ordered identity r before event after v hv⟩
  refine Interaction.Obeys.steps (hrule.of_leads hfront) hback hsteps
    (J := fun l t' ↦ adapter.Held id (front ++ l) t') ?_ fun hheld hevent hacts ↦ ?_
  · rwa [List.append_nil]
  · rw [← List.append_assoc]
    exact hheld.step hnamed hwork hevent.1 hevent.2 hacts

/-! ## A preparation that raises -/

/-- The cleanup of a reserved place is cut short: the last call there is, one at the place,
fails. -/
def CleanupFails (adapter : LocalGitWorkspace) (id : WorkspaceId) (log : OsLog) : Prop :=
  ∃ front event, log = front ++ [event] ∧ adapter.Reserved id front ∧
    FailsAt (adapter.placeOf id) event

theorem sameAt_of_none {place : List Text} (h : tree.node place = none)
    (h' : tree'.node place = none) : tree.SameAt place tree' := fun rest ↦ by
  rw [FileTree.node_append_eq_none h, FileTree.node_append_eq_none h']

/-- **A preparation that raises leaves nothing behind**: what stands under the name of the new
workspace is what stood there before. -/
theorem sameAt_of_prepare_raises {e : Exc} (hnamed : adapter.root.Named)
    (hwork : ∀ t t', work t t' → adapter.Undisturbed t t')
    (h : (adapter.prepare fuel identity).Returns r log (.error e) r')
    (hsteps : Steps (Acts work) tree log tree') (hid : ⟨.newWorkspaceId, .ok id⟩ ∈ log)
    (hforeseen : adapter.Reserved id log → Foreseen e) (hcleanup : ¬adapter.CleanupFails id log) :
    tree.SameAt (adapter.placeOf id).parts tree' := by
  rcases stages_prepare h with ⟨-, -, hquiet⟩ |
    ⟨id', roots, asked, back, y, rfl, -, hquiet, hreserved, hmade, hend⟩
  · rw [(tree_eq_of_quiet hsteps hquiet).1]
    exact FileTree.sameAt_refl _ _
  obtain ⟨digest, -, heq, -⟩ | ⟨e', rfl, heq, -⟩ := hend
  · exact absurd heq (by simp)
  obtain rfl := Except.error.inj heq
  obtain rfl := handed_once h hid (List.mem_append_left _ hreserved.handed)
  obtain ⟨m, hfront, hback⟩ := Steps.append_iff.mp hsteps
  obtain ⟨rfl, hshows⟩ := tree_eq_of_quiet hfront hquiet
  have hlead := (Interaction.leads_append.mp h).choose_spec.1
  have hheld := held_of_reserved hnamed hlead hquiet hreserved hshows
  rcases materialize_raises hmade with ⟨body, cleanup, rfl, hdiscard⟩ | hkind
  swap
  · exact absurd (hforeseen (hreserved.append _)) hkind
  obtain ⟨m', hbody, hremove⟩ := Steps.append_iff.mp hback
  refine sameAt_of_none (node_of_looksFree ⟨hreserved.absent, hreserved.unlinked⟩ hshows) ?_
  rcases (discardUnpublished_returns hdiscard).2 with hremoved | ⟨front, event, rfl, hfails⟩
  · rw [← List.append_assoc] at h
    have hbefore := (Interaction.leads_append.mp h).choose_spec.1
    exact node_of_removeEntry (hheld.steps hnamed hwork hbefore hbody).root hnamed hremoved hremove
  · refine absurd ⟨_, event, by simp only [← List.append_assoc]; rfl, ?_, hfails⟩ hcleanup
    exact (hreserved.append body).append front

/-! ## A preparation that returns -/

/-- What a preparation has seen of the workspace it returns: the root; the baseline as the head of
the clone; its links and its configuration; and once more its head, and no remotes. -/
structure Inspection (adapter : LocalGitWorkspace) (fuel : ℕ) (workspace : WorkspaceIdentity)
    (log : OsLog) where
  roots : OsLog
  before : OsLog
  head : OsLog
  between : OsLog
  links : OsLog
  config : OsLog
  looked : OsLog
  headAgain : OsLog
  remotes : OsLog
  environment : List (Text × Text)
  control : Path
  output : Text
  outputAgain : Text
  listed : Text
  digest : Bytes
  log_eq : log = roots ++ before ++ head ++ between ++ links ++ config ++
    (looked ++ ControlledGitCli.controlLog ".alicerce-git-control-" adapter.root control
      (headAgain ++ remotes))
  intact : adapter.assertRootIntegrity.Returns roots (.ok ())
  reported : (adapter.git.run fuel
    (ControlledGitCli.revParse (adapter.placeOf workspace.workspaceId))
    adapter.root environment).Returns head (.ok output)
  output_eq : strip output = workspace.baselineSha.value
  confined : (validateSymlinks fuel (adapter.placeOf workspace.workspaceId)).Returns links (.ok ())
  configured : (configDigest (adapter.placeOf workspace.workspaceId)).Returns config (.ok digest)
  repository : (ControlledGitCli.validateRepository (adapter.placeOf workspace.workspaceId)).Returns
    looked (.ok (adapter.placeOf workspace.workspaceId))
  reportedAgain : (adapter.git.run fuel
    (ControlledGitCli.revParse (adapter.placeOf workspace.workspaceId)) adapter.root
      (ControlledGitCli.controlEnvironment control)).Returns headAgain (.ok outputAgain)
  outputAgain_eq : strip outputAgain = workspace.baselineSha.value
  remotesListed : (adapter.git.run fuel
    (ControlledGitCli.listRemotes (adapter.placeOf workspace.workspaceId)) adapter.root
      (ControlledGitCli.controlEnvironment control)).Returns remotes (.ok listed)
  listed_eq : strip listed = []

theorem materialize_returns {destination : Path} {digest : Bytes}
    (h : (adapter.materialize fuel identity destination).Returns log (.ok digest)) :
    ∃ cloned links config verified b b', log = cloned ++ (links ++ (config ++ verified)) ∧
      (adapter.git.materializeBaseline fuel adapter.source destination identity.baselineSha).Returns
        cloned (.ok b) ∧
      (validateSymlinks fuel destination).Returns links (.ok ()) ∧
      (configDigest destination).Returns config (.ok digest) ∧
      (adapter.git.verifyBaseline fuel destination identity.baselineSha).Returns verified
        (.ok b') := by
  have hraises : ∀ {p : Os Unit} {e : Exc} {l : OsLog},
      ¬(do p; .raise e : Os Bytes).Returns l (.ok digest) :=
    fun hret ↦ by
      obtain ⟨m, m', v, -, -, hraise⟩ := Action.returns_bind_ok.mp hret
      exact absurd (Action.returns_raise.mp hraise).2 (by simp)
  rcases Action.returns_tryCatch.mp h with ⟨a, hbody, heq⟩ | ⟨l, l', e, rfl, -, hhandler⟩
  swap
  · split at hhandler
    · exact absurd hhandler hraises
    split at hhandler
    · exact absurd hhandler hraises
    split at hhandler
    · exact absurd hhandler hraises
    · exact absurd (Action.returns_raise.mp hhandler).2 (by simp)
  obtain rfl := Except.ok.inj heq
  obtain ⟨cloned, l₁, ⟨⟩, rfl, hcloned, hrest⟩ := Action.returns_bind_ok.mp hbody
  obtain ⟨links, l₂, ⟨⟩, rfl, hlinks, hrest⟩ := Action.returns_bind_ok.mp hrest
  obtain ⟨config, l₃, digest', rfl, hconfig, hrest⟩ := Action.returns_bind_ok.mp hrest
  obtain ⟨verified, l₄, ⟨⟩, rfl, hverified, hret⟩ := Action.returns_bind_ok.mp hrest
  obtain ⟨rfl, heq⟩ := Action.returns_pure.mp hret
  obtain rfl := Except.ok.inj heq
  obtain ⟨b, hcloned⟩ := returns_discard.mp hcloned
  obtain ⟨b', hverified⟩ := returns_discard.mp hverified
  exact ⟨cloned, links, config, verified, b, b', by simp, hcloned, hlinks, hconfig, hverified⟩

/-- **What a preparation that returns has seen.** -/
theorem inspection_of_prepare {workspace : WorkspaceIdentity} (hnamed : adapter.root.Named)
    (hwork : ∀ t t', work t t' → adapter.Undisturbed t t')
    (h : (adapter.prepare fuel identity).Returns r log (.ok workspace) r')
    (hsteps : Steps (Acts work) tree log tree') :
    workspace.runId = identity.runId ∧ workspace.baselineSha = identity.baselineSha ∧
    adapter.Held workspace.workspaceId log tree' ∧ ∃ seen : adapter.Inspection fuel workspace log,
      r' = r.publish ⟨workspace, adapter.placeOf workspace.workspaceId, seen.digest⟩ := by
  rcases stages_prepare h with ⟨⟨e, heq⟩, -, -⟩ |
    ⟨id, roots, asked, back, y, rfl, hroot, hquiet, hreserved, hmade, hend⟩
  · exact absurd heq (by simp)
  obtain ⟨digest, rfl, heq, rfl⟩ | ⟨e, -, heq, -⟩ := hend
  swap
  · exact absurd heq (by simp)
  obtain rfl := Except.ok.inj heq
  obtain ⟨m, hfront, hback⟩ := Steps.append_iff.mp hsteps
  obtain ⟨rfl, hshows⟩ := tree_eq_of_quiet hfront hquiet
  have hlead := (Interaction.leads_append.mp h).choose_spec.1
  have hheld := (held_of_reserved hnamed hlead hquiet hreserved hshows).steps hnamed hwork h hback
  refine ⟨rfl, rfl, hheld, ?_⟩
  obtain ⟨cloned, links, config, verified, b, b', rfl, hcloned, hlinks, hconfig, hverified⟩ :=
    materialize_returns hmade
  obtain ⟨parent, environment, l₁, head, output, l₂, rfl, hparent, hhead, hhead_eq⟩ :=
    ControlledGitCli.returns_materializeBaseline hcloned
  obtain ⟨trusted, looked, control, headAgain, outputAgain, remotes, listed, rfl, hlooked, hagain,
    hremotes, hagain_eq, hlisted_eq, -⟩ := ControlledGitCli.returns_verifyBaseline.mp hverified
  -- the paths resolve to themselves
  rw [placeOf_parent] at hparent
  obtain rfl := hheld.clear.resolved parent (by simp [hparent])
  rw [placeOf_name] at hhead
  have htrusted : trusted = adapter.placeOf id := by
    obtain ⟨l₃, l₄, hsplit⟩ := List.append_of_mem (Scope.returns_validateRepository hlooked)
    refine hheld.clear.trusted id trusted
      ⟨roots ++ asked ++ (l₁ ++ head ++ l₂) ++ links ++ config ++ l₃, l₄ ++
        ControlledGitCli.controlLog ".alicerce-git-control-" trusted.parent control
          (headAgain ++ remotes),
        ?_, hreserved.append _ |>.append _ |>.append _ |>.append _⟩
    rw [hsplit]
    simp only [List.append_assoc, List.cons_append]
  subst htrusted
  have hplace : (adapter.root.join id.value) = adapter.placeOf id := rfl
  rw [hplace, placeOf_parent] at hhead
  rw [placeOf_parent] at hagain hremotes
  refine ⟨{
    roots, before := asked ++ l₁, head, between := l₂, links, config, looked, headAgain, remotes,
    environment, control, output, outputAgain, listed, digest, log_eq := ?_, intact := hroot,
    reported := hhead, output_eq := hhead_eq, confined := hlinks, configured := hconfig,
    repository := hlooked, reportedAgain := hagain, outputAgain_eq := hagain_eq,
    remotesListed := hremotes, listed_eq := hlisted_eq }, rfl⟩
  simp only [placeOf_parent, List.append_assoc]

/-- What a load asks and is told when nothing has changed and Git answers as before; only its
control directory may be another one. -/
def Inspection.loadLog {workspace : WorkspaceIdentity}
    (seen : adapter.Inspection fuel workspace log)
    (control : Path) (head remotes : OsLog) : OsLog :=
  seen.roots ++ [⟨.isSymlink (adapter.placeOf workspace.workspaceId), .ok false⟩] ++
    [⟨.isDir (adapter.placeOf workspace.workspaceId), .ok true⟩] ++ seen.links ++ seen.config ++
      (seen.looked ++ ControlledGitCli.controlLog ".alicerce-git-control-" adapter.root control
        (head ++ remotes))

/-- **What was seen of a workspace is enough to load it.** -/
theorem Inspection.returns_load {workspace : WorkspaceIdentity}
    (seen : adapter.Inspection fuel workspace log)
    (hrecord : r.records workspace.workspaceId =
      some ⟨workspace, adapter.placeOf workspace.workspaceId, seen.digest⟩)
    {control : Path} {head remotes : OsLog}
    (hhead : (adapter.git.run fuel
      (ControlledGitCli.revParse (adapter.placeOf workspace.workspaceId))
      adapter.root (ControlledGitCli.controlEnvironment control)).Returns head
        (.ok seen.outputAgain))
    (hremotes : (adapter.git.run fuel
      (ControlledGitCli.listRemotes (adapter.placeOf workspace.workspaceId)) adapter.root
        (ControlledGitCli.controlEnvironment control)).Returns remotes (.ok seen.listed)) :
    (adapter.load fuel workspace.workspaceId).Returns r (seen.loadLog control head remotes)
      (.ok (some workspace)) r := by
  have hor : ∀ {p q : Os Bool} {l l' : OsLog} {b : Bool}, p.Returns l (.ok false) →
      q.Returns l' (.ok b) → (Os.or p q).Returns (l ++ l') (.ok b) := fun hp hq ↦
    Action.returns_bind_ok.mpr ⟨_, _, false, rfl, hp, hq⟩
  have hlooks : (Os.or (Os.isSymlink (adapter.placeOf workspace.workspaceId)) (Os.or
      (do return !(← Os.isDir (adapter.placeOf workspace.workspaceId)))
      (pure (decide (adapter.IsProtected (adapter.placeOf workspace.workspaceId)))))).Returns
        ([⟨.isSymlink (adapter.placeOf workspace.workspaceId), .ok false⟩] ++
          [⟨.isDir (adapter.placeOf workspace.workspaceId), .ok true⟩]) (.ok false) := by
    have hdir : (do return !(← Os.isDir (adapter.placeOf workspace.workspaceId)) : Os Bool).Returns
        [⟨.isDir (adapter.placeOf workspace.workspaceId), .ok true⟩] (.ok false) :=
      Action.returns_bind_ok.mpr ⟨_, [], true, rfl, Action.returns_ask.mpr ⟨.ok true, rfl, rfl⟩,
        Action.returns_pure.mpr ⟨rfl, rfl⟩⟩
    refine hor (Action.returns_ask.mpr ⟨.ok false, rfl, rfl⟩) ?_
    rw [decide_eq_false (not_isProtected_placeOf adapter _)]
    exact hor hdir (Action.returns_pure.mpr ⟨rfl, rfl⟩)
  have hverified : (adapter.git.verifyBaseline fuel (adapter.placeOf workspace.workspaceId)
      workspace.baselineSha).Returns (seen.looked ++ ControlledGitCli.controlLog
        ".alicerce-git-control-" adapter.root control (head ++ remotes))
          (.ok ⟨adapter.placeOf workspace.workspaceId, workspace.baselineSha⟩) := by
    refine ControlledGitCli.returns_verifyBaseline.mpr
      ⟨_, seen.looked, control, head, _, remotes, _, ?_,
      seen.repository, ?_, ?_, seen.outputAgain_eq, seen.listed_eq, rfl⟩
    · rw [placeOf_parent]
    · rwa [placeOf_parent]
    · rwa [placeOf_parent]
  have hvalid : (adapter.validateRecord fuel
      ⟨workspace, adapter.placeOf workspace.workspaceId, seen.digest⟩).Returns
        (seen.loadLog control head remotes) (.ok ()) := by
    simp only [loadLog, List.append_assoc]
    refine Action.returns_bind_ok.mpr ⟨_, _, (), rfl, seen.intact, ?_⟩
    rw [pathFor_eq, Action.lift_ok_bind, if_neg (not_not.mpr rfl), ← List.append_assoc]
    refine Action.returns_bind_ok.mpr ⟨_, _, false, rfl, hlooks, ?_⟩
    refine Action.returns_bind_ok.mpr ⟨_, _, (), rfl, seen.confined, ?_⟩
    refine Action.returns_bind_ok.mpr ⟨_, _, seen.digest, rfl, seen.configured, ?_⟩
    rw [if_neg (not_not.mpr rfl)]
    exact returns_translate_ok.mpr (returns_discard.mpr ⟨_, hverified⟩)
  rw [load]
  refine Method.returns_get_bind.mpr ?_
  rw [hrecord]
  exact Method.returns_perform_bind.mpr (.inl ⟨_, [], (), (List.append_nil _).symm, hvalid,
    Method.returns_pure.mpr ⟨rfl, rfl, rfl⟩⟩)

theorem Held.not_endsInLink (hnamed : adapter.root.Named) (h : adapter.Held id log tree) :
    ¬tree.EndsInLink (adapter.placeOf id) := by
  intro hends
  rw [placeOf_eq] at hends
  exact h.unlinked (HostTree.linkAt_of_endsInLink (FileTree.settled_of_dir h.root) hnamed hends)

/-! ## All or nothing -/

/-- **Preparation is all or nothing.**  With Git the only one at work in the root, which leaves the
root a directory and makes no link in place of the workspace: a `prepare` either returns, has then
seen the baseline twice as the head of the clone, no remote, and no link that leads out, has
published exactly what it returns, and can be loaded wherever the looks at the workspace and Git's
two reports are what they were; or it raises, and then the registry is as it was, and what stands
under the name of the new workspace is what stood there before. -/
theorem prepare_all_or_nothing (adapter : LocalGitWorkspace) (work : HostTree → HostTree → Prop)
    (hnamed : adapter.root.Named) (hwork : ∀ t t', work t t' → adapter.Undisturbed t t')
    {fuel : ℕ} {identity : RunIdentity} {r r' : Registry} {log : OsLog}
    {x : Except Exc WorkspaceIdentity}
    {tree tree' : HostTree} (hprepare : (adapter.prepare fuel identity).Returns r log x r')
    (hsteps : Steps (Acts work) tree log tree')
    (hforeseen : ∀ id e, adapter.Reserved id log → x = .error e → Foreseen e)
    (hcleanup : ∀ id, ¬adapter.CleanupFails id log) :
    (∃ workspace, x = .ok workspace ∧ workspace.runId = identity.runId ∧
      workspace.baselineSha = identity.baselineSha ∧ ∃ seen : adapter.Inspection fuel workspace log,
        r' = r.publish ⟨workspace, adapter.placeOf workspace.workspaceId, seen.digest⟩ ∧
        ¬tree'.EndsInLink (adapter.placeOf workspace.workspaceId) ∧
        ∀ control head remotes,
          (adapter.git.run fuel (ControlledGitCli.revParse (adapter.placeOf workspace.workspaceId))
            adapter.root (ControlledGitCli.controlEnvironment control)).Returns head
              (.ok seen.outputAgain) →
          (adapter.git.run fuel
            (ControlledGitCli.listRemotes (adapter.placeOf workspace.workspaceId))
            adapter.root (ControlledGitCli.controlEnvironment control)).Returns remotes
              (.ok seen.listed) →
          (adapter.load fuel workspace.workspaceId).Returns r' (seen.loadLog control head remotes)
            (.ok (some workspace)) r') ∨
    (∃ e, x = .error e) ∧ r' = r ∧ ∀ id, ⟨.newWorkspaceId, .ok id⟩ ∈ log →
      tree.SameAt (adapter.placeOf id).parts tree' := by
  cases x with
  | ok workspace =>
    obtain ⟨hrun, hbaseline, hheld, seen, rfl⟩ := inspection_of_prepare hnamed hwork hprepare hsteps
    refine .inl ⟨workspace, rfl, hrun, hbaseline, seen, rfl, hheld.not_endsInLink hnamed,
      fun control head remotes hhead hremotes ↦ seen.returns_load ?_ hhead hremotes⟩
    exact Function.update_self ..
  | error e =>
    have hsame : r' = r := by
      rcases prepare_returns hprepare with ⟨id, digest, heq, -⟩ | ⟨-, hsame⟩
      · exact absurd heq (by simp)
      · exact hsame
    exact .inr ⟨⟨e, rfl⟩, hsame, fun id hid ↦ sameAt_of_prepare_raises hnamed hwork hprepare
      hsteps hid (fun hreserved ↦ hforeseen id e hreserved rfl) (hcleanup id)⟩

end LocalGitWorkspace

/-! ## One that returns, and one that raises -/

/-- Whether a call fails that is a look or a removal. -/
def failing : Event OsCall.Answer → Bool
  | ⟨.isSymlink _, .error _⟩ | ⟨.isDir _, .error _⟩ | ⟨.pathExists _, .error _⟩
  | ⟨.unlink _, .error _⟩ | ⟨.rmtree _, .error _⟩ => true
  | _ => false

theorem failing_of_failsAt {path : Path} {event : Event OsCall.Answer} (h : FailsAt path event) :
    failing event = true := by
  rw [FailsAt.eq_def] at h
  split at h <;> first | rfl | exact h.elim

theorem not_cleanupFails {adapter : LocalGitWorkspace} {log : OsLog} (id : WorkspaceId)
    (h : log.getLast?.any failing = false) : ¬adapter.CleanupFails id log := by
  rintro ⟨front, event, rfl, -, hfails⟩
  rw [List.getLast?_concat, Option.any_some, failing_of_failsAt hfails] at h
  exact absurd h (by simp)

theorem undisturbed_put {disk : Disk localNames} {rest : List Text} {n : Node Text Bytes}
    (hn : ¬n.IsLink) : localWorkspace.Undisturbed disk.tree
      (disk.put ⟨entryOf localWorkspace.root localIdentity.workspaceId ++ rest⟩ n).tree := by
  refine ⟨fun hroot ↦ ?_, fun id hlink ↦ ?_⟩
  · rcases disk.node_put ⟨entryOf localWorkspace.root localIdentity.workspaceId ++ rest⟩ n
      localWorkspace.root.parts with hsame | ⟨heq, -⟩
    · rw [hsame, hroot]
    · have hlength := congrArg List.length heq
      simp [entryOf] at hlength
  · obtain ⟨m, hm, hislink⟩ := hlink
    rcases disk.node_put ⟨entryOf localWorkspace.root localIdentity.workspaceId ++ rest⟩ n
      (entryOf localWorkspace.root id) with hsame | ⟨-, hnew⟩
    · exact ⟨m, hsame ▸ hm, hislink⟩
    · rw [hnew] at hm
      exact absurd (Option.some.inj hm ▸ hislink) hn

/-- A clone disturbs neither the root nor the entries of others. -/
theorem undisturbed_cloned (disk : Disk localNames) : localWorkspace.Undisturbed disk.tree
    (cloned (entryOf localWorkspace.root localIdentity.workspaceId) disk).tree := by
  have htrans : ∀ {t t' t'' : HostTree}, localWorkspace.Undisturbed t t' →
      localWorkspace.Undisturbed t' t'' → localWorkspace.Undisturbed t t'' := fun h h' ↦
    ⟨fun hroot ↦ h'.root (h.root hroot), fun id hlink ↦ h.noLink id (h'.noLink id hlink)⟩
  have hdir : localWorkspace.Undisturbed disk.tree
      (disk.put ⟨entryOf localWorkspace.root localIdentity.workspaceId⟩ .dir).tree := by
    have hput : localWorkspace.Undisturbed disk.tree
        (disk.put ⟨entryOf localWorkspace.root localIdentity.workspaceId ++ []⟩ .dir).tree :=
      undisturbed_put fun h ↦ h
    rwa [List.append_nil] at hput
  exact htrans (htrans hdir (undisturbed_put (n := .dir) fun h ↦ h))
    (undisturbed_put (n := .file ⟨#[]⟩) fun h ↦ h)

/-- A host on which `git clone` clones, and Git then reports what `output` says. -/
def reportingHost (output : List Text → List UInt8) : FileHost localNames :=
  { cloningHost true with output }

/-- A preparation on that host. -/
def preparation (output : List Text → List UInt8) :
    OsLog × Option (Except Exc WorkspaceIdentity × Registry) :=
  (localWorkspace.prepare 100 localRun .empty).play (reportingHost output).answer (arenaDisk, [])

/-- The files after it. -/
def preparedTree (output : List Text → List UInt8) : HostTree :=
  ((localWorkspace.prepare 100 localRun .empty).playEnd (reportingHost output).answer
    (arenaDisk, [])).1.tree

theorem steps_preparation (output : List Text → List UInt8) :
    Steps (Acts localWorkspace.Undisturbed)
    arenaDisk.tree (preparation output).1 (preparedTree output) := by
  refine FileHost.steps_play _ (by decide) (fun disk ↦ LocalGitWorkspace.undisturbed_refl _)
    (fun argv disk ↦ ?_) _ (arenaDisk, [])
  change localWorkspace.Undisturbed disk.tree (if _ then _ else _ : Disk localNames).tree
  split
  · exact undisturbed_cloned disk
  · exact LocalGitWorkspace.undisturbed_refl _

/-- Where Git reports the baseline, the workspace is prepared, and loaded; where it reports nothing,
the clone is gone again. -/
theorem prepare_all_or_nothing_local :
    (∃ log r, (localWorkspace.prepare 100 localRun).Returns .empty log (.ok localIdentity) r ∧
      ∃ log', (localWorkspace.load 100 localIdentity.workspaceId).Returns r log'
        (.ok (some localIdentity)) r) ∧
    ∃ log e, (localWorkspace.prepare 100 localRun).Returns .empty log (.error e) .empty ∧
      arenaDisk.tree.SameAt (localWorkspace.placeOf localIdentity.workspaceId).parts
        (preparedTree fun _ ↦ []) := by
  have hprepared : (preparation headOutput).2.map Prod.fst = some (.ok localIdentity) ∧
      (preparation headOutput).1.getLast?.any failing = false := by decide +kernel
  have hfailed : (preparation fun _ ↦ []).2.map Prod.fst =
        some (.error (workspaceError .isolationFailure
          "controlled Git workspace operation failed")) ∧
      (preparation fun _ ↦ []).1.getLast?.any failing = false ∧
      handedIn localIdentity.workspaceId (preparation fun _ ↦ []).1 = true := by decide +kernel
  obtain ⟨r, hreturns⟩ := Method.returns_play (m := localWorkspace.prepare 100 localRun) hprepared.1
  obtain ⟨s, hraises⟩ := Method.returns_play (m := localWorkspace.prepare 100 localRun) hfailed.1
  refine ⟨⟨_, r, hreturns, ?_⟩, (preparation fun _ ↦ []).1,
    workspaceError .isolationFailure "controlled Git workspace operation failed", ?_⟩
  · rcases LocalGitWorkspace.prepare_all_or_nothing localWorkspace localWorkspace.Undisturbed
      (by decide)
      (fun _ _ h ↦ h) hreturns (steps_preparation headOutput) (fun _ _ _ heq ↦ absurd heq (by simp))
      (fun id ↦ not_cleanupFails id hprepared.2) with
      ⟨workspace, heq, -, -, seen, -, -, hload⟩ | ⟨⟨e, heq⟩, -⟩
    · obtain rfl := Except.ok.inj heq
      exact ⟨_, hload _ _ _ seen.reportedAgain seen.remotesListed⟩
    · exact absurd heq (by simp)
  · rcases LocalGitWorkspace.prepare_all_or_nothing localWorkspace localWorkspace.Undisturbed
      (by decide) (fun _ _ h ↦ h) hraises (steps_preparation fun _ ↦ [])
      (fun _ _ _ heq ↦ .inr (.inl (Except.error.inj heq ▸ rfl)))
      (fun id ↦ not_cleanupFails id hfailed.2.1) with ⟨workspace, heq, -⟩ | ⟨-, rfl, hsame⟩
    · exact absurd heq (by simp)
    · exact ⟨hraises, hsame _ (mem_of_handedIn hfailed.2.2)⟩

end Alicerce
