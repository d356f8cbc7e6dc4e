import Alicerce.Adapters.HostErrors
import Alicerce.Adapters.WorkspaceRemoval

/-!
# A release that fails

When the removal of a workspace fails, the release moves what is left of it back to its place and
reports a storage failure, and the workspace can be used again.

* `Attempt` is the log of such a release: nothing but failures, or a move, what failed behind it,
  and the move back (`attempt_of_release`).
* `SameContent`: the working tree at a place is the same, Git's own directory apart.
* `Used`: a capability is used with success.
* `rollback_exact`: the content is then what it was before, exactly when the removal had not removed
  anything from the working tree before it failed.  The checks of a later use look at Git's own
  files and at links, not at the content.
-/

set_option autoImplicit false

namespace Alicerce

open Py Lib

/-! ## Working trees -/

/-- The working tree at a place is the same: all that is there but Git's own directory. -/
def SameContent (tree : HostTree) (place : List Text) (tree' : HostTree) (place' : List Text) :
    Prop :=
  ∀ rest, ¬[text ".git"] <+: rest → tree'.node (place' ++ rest) = tree.node (place ++ rest)

/-- A call as it is, and if it is a recursive removal that fails, one that has removed nothing of
the working tree there. -/
def SparingActs (work : HostTree → HostTree → Prop) (place : List Text) (tree : HostTree)
    (event : Event OsCall.Answer) (tree' : HostTree) : Prop :=
  Acts work tree event tree' ∧
    ∀ path error, event = ⟨.rmtree path, .error error⟩ → SameContent tree place tree' place

section

variable {work work' : HostTree → HostTree → Prop} {tree tree' tree'' : HostTree}
  {event : Event OsCall.Answer} {place place' place'' : List Text} {path quarantine : Path}
  {log log' : OsLog}

theorem SameContent.trans (h : SameContent tree place tree' place')
    (h' : SameContent tree' place' tree'' place'') : SameContent tree place tree'' place'' :=
  fun rest hrest ↦ (h' rest hrest).trans (h rest hrest)

theorem SameContent.symm (h : SameContent tree place tree' place') :
    SameContent tree' place' tree place := fun rest hrest ↦ (h rest hrest).symm

theorem sameContent_refl (tree : HostTree) (place : List Text) :
    SameContent tree place tree place := fun _ _ ↦ rfl

theorem sameContent_of_moves {target : List Text} (h : tree.Moves place target tree') :
    SameContent tree place tree' target := fun rest _ ↦ h.moved rest

/-! ## Events that leave the files alone -/

/-- An event that leaves the files alone: a look, or a failure to remove or to move one entry. -/
inductive Still : Event OsCall.Answer → Prop
  | looks {event : Event OsCall.Answer} (h : event.1.Looks) : Still event
  | unlink (path : Path) (error : OsError) : Still ⟨.unlink path, .error error⟩
  | rename (path target : Path) (error : OsError) : Still ⟨.rename path target, .error error⟩

theorem Still.tree_eq (h : Still event) (hacts : Acts work tree event tree') :
    tree' = tree ∧ Shows tree event := by
  cases h with
  | looks hlooks => exact hacts.of_looks hlooks
  | unlink | rename => exact hacts

/-- A run of such events, in which calls act as they do, shows the files as they stay. -/
theorem tree_eq_of_still {Env : HostTree → Event OsCall.Answer → HostTree → Prop}
    (henv : ∀ {t e t'}, Env t e t' → Acts work t e t') (hsteps : Steps Env tree log tree')
    (h : ∀ e ∈ log, Still e) : tree' = tree ∧ ∀ e ∈ log, Shows tree e := by
  induction hsteps with
  | nil => exact ⟨rfl, by simp⟩
  | cons head _ ih =>
    obtain ⟨he, hlog⟩ := List.forall_mem_cons.mp h
    obtain ⟨rfl, hshows⟩ := he.tree_eq (henv head)
    exact ⟨(ih hlog).1, List.forall_mem_cons.mpr ⟨hshows, (ih hlog).2⟩⟩

theorem Still.not_rmtree (h : Still event) (path : Path) (error : OsError) :
    event ≠ ⟨.rmtree path, .error error⟩ := by
  rintro rfl
  cases h with
  | looks hlooks => exact hlooks

theorem SparingActs.of_still (h : Still event) (hacts : Acts work tree event tree') :
    SparingActs work place tree event tree' :=
  ⟨hacts, fun path error heq ↦ absurd heq (h.not_rmtree path error)⟩

theorem sparing_of_still (h : ∀ e ∈ log, Still e) (hsteps : Steps (Acts work) tree log tree') :
    Steps (SparingActs work place) tree log tree' := by
  induction hsteps with
  | nil => exact .nil _
  | cons head _ ih =>
    obtain ⟨he, hlog⟩ := List.forall_mem_cons.mp h
    exact .cons (.of_still he head) (ih hlog)

/-! ## What a failed release did -/

/-- Nothing was found at a path. -/
def LooksFree (path : Path) (log : OsLog) : Prop :=
  ⟨.pathExists path, .ok false⟩ ∈ log ∧ ⟨.isSymlink path, .ok false⟩ ∈ log

theorem LooksFree.append (h : LooksFree path log) (log' : OsLog) : LooksFree path (log ++ log') :=
  ⟨List.mem_append_left _ h.1, List.mem_append_left _ h.2⟩

theorem looksFree_of_returns
    (h : (Os.or (Os.pathExists path) (Os.isSymlink path)).Returns log (.ok false)) :
    LooksFree path log := by
  obtain ⟨l, l', rfl, habsent, hunlinked⟩ := returns_or_false h
  obtain rfl := returns_pathExists habsent
  obtain rfl := returns_isSymlink hunlinked
  exact ⟨by simp, by simp⟩

/-- The log of a release that failed: it moved nothing; or what was in its place was already gone,
and only the quarantine was touched; or it moved the workspace, failed behind that, and may have
moved it back.  A quarantine that was found free may also seem to be moved back, of which no host is
capable. -/
inductive Attempt (path quarantine : Path) : OsLog → Prop
  | still {log : OsLog} (h : ∀ e ∈ log, Still e) : Attempt path quarantine log
  | recovered {front : OsLog} {error : OsError} (hfront : ∀ e ∈ front, Still e)
      (hfree : LooksFree path front) :
      Attempt path quarantine (front ++ [⟨.rmtree quarantine, .error error⟩])
  | phantom {front : OsLog} (hfront : ∀ e ∈ front, Still e) (hfree : LooksFree quarantine front) :
      Attempt path quarantine (front ++ [⟨.rename quarantine path, .ok ()⟩])
  | moved {front middle stuck back : OsLog} (hfront : ∀ e ∈ front, Still e)
      (hmiddle : ∀ e ∈ middle, Still e)
      (hstuck : stuck = [] ∨ ∃ error, stuck = [⟨.rmtree quarantine, .error error⟩])
      (hback : (∀ e ∈ back, Still e) ∨ ∃ rest, (∀ e ∈ rest, Still e) ∧
        back = rest ++ [⟨.rename quarantine path, .ok ()⟩]) :
      Attempt path quarantine
        (front ++ ⟨.rename path quarantine, .ok ()⟩ :: (middle ++ (stuck ++ back)))

theorem still_of_watches {α : Type} {p : Os α} {x : Except Exc α} (hp : Watches p)
    (h : p.Returns log x) : ∀ e ∈ log, Still e := fun e he ↦ .looks (hp.looks.leads h e he)

theorem unlink_error {e : Exc} (h : (Os.unlink path).Returns log (.error e)) :
    ∀ e ∈ log, Still e := by
  obtain ⟨answer, rfl, hanswer⟩ := Action.returns_ask.mp h
  obtain ⟨error, rfl, -⟩ := mapError_eq_error_iff.mp hanswer.symm
  intro e he
  rw [List.mem_singleton.mp he]
  exact .unlink path error

theorem rename_error {target : Path} {e : Exc}
    (h : (Os.rename path target).Returns log (.error e)) : ∀ e ∈ log, Still e := by
  obtain ⟨answer, rfl, hanswer⟩ := Action.returns_ask.mp h
  obtain ⟨error, rfl, -⟩ := mapError_eq_error_iff.mp hanswer.symm
  intro e he
  rw [List.mem_singleton.mp he]
  exact .rename path target error

theorem rename_ok {target : Path} {u : Unit} (h : (Os.rename path target).Returns log (.ok u)) :
    log = [⟨.rename path target, .ok ()⟩] := by
  obtain ⟨answer, rfl, hanswer⟩ := Action.returns_ask.mp h
  rw [mapError_eq_ok_iff.mp hanswer.symm]

theorem rmtree_error {e : Exc} (h : (Os.rmtree path).Returns log (.error e)) :
    ∃ error, log = [⟨.rmtree path, .error error⟩] := by
  obtain ⟨answer, rfl, hanswer⟩ := Action.returns_ask.mp h
  obtain ⟨error, rfl, -⟩ := mapError_eq_error_iff.mp hanswer.symm
  exact ⟨error, rfl⟩

theorem still_append (h : ∀ e ∈ log, Still e) (h' : ∀ e ∈ log', Still e) :
    ∀ e ∈ log ++ log', Still e := fun e he ↦ (List.mem_append.mp he).elim (h e) (h' e)

section Detach

variable {record : WorkspaceRecord} {s s' : Registry} {e : Exc}

/-- Removing what is no directory either fails, or ends in a report that is no `OSError`. -/
theorem replaced_raises {cause : WorkspaceErrorCause} {detail : Text}
    (h : (do
      .perform (Os.unlink quarantine)
      .modify (Registry.forget record)
      .raise (workspaceError cause detail) : RegistryMethod Unit).Returns s log (.error e) s')
    (he : IsOsError e) : s' = s ∧ ∀ e ∈ log, Still e := by
  rcases Method.returns_perform_bind.mp h with ⟨l, l', -, rfl, -, hrest⟩ | ⟨e', hfail, -, hs⟩
  · obtain ⟨-, heq, -⟩ := Method.returns_raise.mp
      (show (Method.raise _ : RegistryMethod Unit).Returns _ _ _ _ from hrest)
    rw [Except.error.inj heq] at he
    exact absurd he (by simp [workspaceError, Exc.isOsError])
  · exact ⟨hs, unlink_error hfail⟩

/-- How detaching a workspace can meet an `OSError`. -/
theorem detach_raises
    (h : (LocalGitWorkspace.detach record quarantine).Returns s log (.error e) s')
    (he : IsOsError e) :
    s' = s ∧ ((∀ e ∈ log, Still e) ∨ ∃ middle stuck, (∀ e ∈ middle, Still e) ∧
      (stuck = [] ∨ ∃ error, stuck = [⟨.rmtree quarantine, .error error⟩]) ∧
      log = ⟨.rename record.path quarantine, .ok ()⟩ :: (middle ++ stuck)) := by
  rcases Method.returns_perform_bind.mp h with ⟨l, l', u, rfl, hmove, hrest⟩ | ⟨e', hfail, -, hs⟩
  swap
  · exact ⟨hs, .inl (rename_error hfail)⟩
  obtain rfl := rename_ok hmove
  suffices hmoved : s' = s ∧ ∃ middle stuck, (∀ e ∈ middle, Still e) ∧
      (stuck = [] ∨ ∃ error, stuck = [⟨.rmtree quarantine, .error error⟩]) ∧ l' = middle ++ stuck by
    obtain ⟨hs, middle, stuck, hmiddle, hstuck, rfl⟩ := hmoved
    exact ⟨hs, .inr ⟨middle, stuck, hmiddle, hstuck, rfl⟩⟩
  rcases Method.returns_perform_bind.mp hrest with ⟨l₁, l₂, isLink, rfl, hlink, hrest⟩ |
    ⟨e', hfail, -, hs⟩
  swap
  · exact ⟨hs, l', [], still_of_watches (watches_ask (by trivial)) hfail, .inl rfl, by simp⟩
  have hlink := still_of_watches (watches_ask (by trivial)) hlink
  split at hrest
  · obtain ⟨hs, hremoved⟩ := replaced_raises hrest he
    exact ⟨hs, l₁ ++ l₂, [], still_append hlink hremoved, .inl rfl, by simp⟩
  rcases Method.returns_perform_bind.mp hrest with ⟨l₃, l₄, isDir, rfl, hdir, hrest⟩ |
    ⟨e', hfail, -, hs⟩
  swap
  · exact ⟨hs, l₁ ++ l₂, [],
      still_append hlink (still_of_watches (watches_ask (by trivial)) hfail), .inl rfl, by simp⟩
  have hdir := still_append hlink (still_of_watches (watches_ask (by trivial)) hdir)
  split at hrest
  · obtain ⟨hs, hremoved⟩ := replaced_raises hrest he
    refine ⟨hs, l₁ ++ (l₃ ++ l₄), [], ?_, .inl rfl, by simp⟩
    rw [← List.append_assoc]
    exact still_append hdir hremoved
  · obtain ⟨hremoval, hs⟩ := Method.returns_perform.mp hrest
    obtain ⟨error, rfl⟩ := rmtree_error hremoval
    exact ⟨hs, l₁ ++ l₃, [⟨.rmtree quarantine, .error error⟩], hdir, .inr ⟨error, rfl⟩, by simp⟩

/-- How the recovery of a quarantine can fail. -/
theorem recover_raises
    (h : (LocalGitWorkspace.recoverQuarantine quarantine).Returns log (.error e)) :
    (∀ e ∈ log, Still e) ∨ ∃ middle error, (∀ e ∈ middle, Still e) ∧
      log = middle ++ [⟨.rmtree quarantine, .error error⟩] := by
  rcases Action.returns_bind.mp h with ⟨l, l', there, rfl, hthere, hrest⟩ | ⟨e', hfail, -⟩
  swap
  · exact .inl (still_of_watches (Os.calls_or (watches_ask (by trivial)) (watches_ask (by trivial)))
      hfail)
  have hthere := still_of_watches
    (Os.calls_or (watches_ask (by trivial)) (watches_ask (by trivial))) hthere
  split at hrest
  swap
  · exact absurd (Action.returns_pure.mp hrest).2 (by simp)
  obtain ⟨y, hbody, hy⟩ := Os.returns_translate.mp hrest
  obtain ⟨e', rfl, -⟩ := translate_eq_error_iff.mp hy.symm
  have hwatches : Watches (Os.or (Os.isSymlink quarantine) (do return !(← Os.isDir quarantine))) :=
    Os.calls_or (watches_ask (by trivial)) (Os.calls_not (watches_ask (by trivial)))
  rcases Action.returns_bind.mp hbody with ⟨l₁, l₂, other, rfl, hother, hrest⟩ | ⟨e'', hfail, -⟩
  swap
  · exact .inl (still_append hthere (still_of_watches hwatches hfail))
  have hother := still_append hthere (still_of_watches hwatches hother)
  rw [← List.append_assoc]
  split at hrest
  · exact .inl (still_append hother (unlink_error hrest))
  · obtain ⟨error, rfl⟩ := rmtree_error hrest
    exact .inr ⟨l ++ l₁, error, hother, rfl⟩

/-- How moving a workspace back ends when it does not raise. -/
theorem restore_returns {u : Unit}
    (h : (LocalGitWorkspace.restore record quarantine).Returns log (.ok u)) :
    (∀ e ∈ log, Still e) ∨ ∃ rest, (∀ e ∈ rest, Still e) ∧
      log = rest ++ [⟨.rename quarantine record.path, .ok ()⟩] := by
  obtain ⟨l, l', there, rfl, hexists, h⟩ := Action.returns_bind_ok.mp h
  have hexists := still_of_watches (watches_ask (by trivial)) hexists
  split at h
  swap
  · obtain ⟨rfl, -⟩ := Action.returns_pure.mp h
    exact .inl (by rwa [List.append_nil])
  obtain ⟨l₁, l₂, gone, rfl, hgone, h⟩ := Action.returns_bind_ok.mp h
  have hgone := still_append hexists (still_of_watches (watches_ask (by trivial)) hgone)
  split at h
  swap
  · obtain ⟨rfl, -⟩ := Action.returns_pure.mp h
    exact .inl (by rwa [List.append_nil])
  rcases Action.returns_tryCatch.mp h with ⟨v, hmove, -⟩ | ⟨l₃, l₄, e, rfl, hfail, hhandler⟩
  · obtain rfl := rename_ok hmove
    exact .inr ⟨l ++ l₁, hgone, by simp⟩
  · have hfail := rename_error hfail
    split at hhandler
    · obtain ⟨rfl, -⟩ := Action.returns_pure.mp hhandler
      rw [List.append_nil, ← List.append_assoc]
      exact .inl (still_append hgone hfail)
    · exact absurd (Action.returns_raise.mp hhandler).2 (by simp)

/-- A move back that raises has moved nothing. -/
theorem restore_raises (h : (LocalGitWorkspace.restore record quarantine).Returns log (.error e)) :
    ∀ e ∈ log, Still e := by
  rcases Action.returns_bind.mp h with ⟨l, l', there, rfl, hexists, hrest⟩ | ⟨e', hfail, -⟩
  swap
  · exact still_of_watches (watches_ask (by trivial)) hfail
  have hexists := still_of_watches (watches_ask (by trivial)) hexists
  split at hrest
  swap
  · exact absurd (Action.returns_pure.mp hrest).2 (by simp)
  rcases Action.returns_bind.mp hrest with ⟨l₁, l₂, gone, rfl, hgone, hrest⟩ | ⟨e', hfail, -⟩
  swap
  · exact still_append hexists (still_of_watches (watches_ask (by trivial)) hfail)
  have hgone := still_of_watches (watches_ask (by trivial)) hgone
  split at hrest
  swap
  · exact absurd (Action.returns_pure.mp hrest).2 (by simp)
  rcases Action.returns_tryCatch.mp hrest with ⟨v, -, heq⟩ | ⟨l₃, l₄, e', rfl, hfail, hhandler⟩
  · exact absurd heq (by simp)
  · split at hhandler
    · exact absurd (Action.returns_pure.mp hhandler).2 (by simp)
    · obtain ⟨rfl, -⟩ := Action.returns_raise.mp hhandler
      rw [List.append_nil]
      exact still_append hexists (still_append hgone (rename_error hfail))

/-- What detaching a workspace raises, besides an `OSError`. -/
theorem raises_detach : (LocalGitWorkspace.detach record quarantine).Raises fun e ↦
    IsOsError e ∨ ∃ detail, e = workspaceError .isolationFailure detail := by
  have hperform : ∀ {α : Type} {p : Os α}, p.Raises IsOsError → (.perform p :
      RegistryMethod α).Raises fun e ↦ IsOsError e ∨
      ∃ detail, e = workspaceError .isolationFailure detail :=
    fun h ↦ Method.raises_perform (h.mono fun _ ↦ .inl)
  have hreplaced : ∀ detail, (do
      .perform (Os.unlink quarantine)
      .modify (Registry.forget record)
      .raise (workspaceError .isolationFailure detail) : RegistryMethod Unit).Raises fun e ↦
        IsOsError e ∨ ∃ detail, e = workspaceError .isolationFailure detail := fun detail ↦
    (hperform Os.raises_unlink).bind fun _ ↦ (Method.raises_modify _).bind fun _ ↦
      Method.raises_raise (.inr ⟨detail, rfl⟩)
  refine (hperform Os.raises_rename).bind fun _ ↦ (hperform Os.raises_isSymlink).bind fun _ ↦
    .ite (fun _ ↦ hreplaced _) fun _ ↦ (hperform Os.raises_isDir).bind fun _ ↦
      .ite (fun _ ↦ hreplaced _) fun _ ↦ hperform Os.raises_rmtree

end Detach

end

namespace LocalGitWorkspace

variable {adapter : LocalGitWorkspace} {log : OsLog}

/-- A release that reports a storage failure behind the move of the workspace. -/
theorem attempt_of_detach {record : WorkspaceRecord} {quarantine : Path} {r r' : Registry}
    {front : OsLog} {detail : Text} (hfront : ∀ e ∈ front, Still e)
    (hfree : LooksFree quarantine front)
    (h : (.tryCatch (detach record quarantine) fun e ↦
        if e.isOsError then do
          .perform (restore record quarantine)
          .raise (workspaceError .storageFailure "workspace release failed")
        else .raise e : RegistryMethod Unit).Returns r log
      (.error (workspaceError .storageFailure detail)) r') :
    r' = r ∧ Attempt record.path quarantine (front ++ log) := by
  rcases Method.returns_tryCatch.mp h with ⟨a, -, heq⟩ | ⟨l, l', e, s, rfl, hdetach, hhandler⟩
  · exact absurd heq (by simp)
  split at hhandler
  swap
  · -- what is no `OSError` is the report of something found in place of a directory
    rename_i hkind
    obtain ⟨-, heq, -⟩ := Method.returns_raise.mp hhandler
    obtain rfl := Except.error.inj heq
    rcases raises_detach _ _ _ _ hdetach with hos | ⟨detail', heq⟩
    · exact absurd hos hkind
    · exact absurd heq (by simp [workspaceError])
  rename_i hkind
  obtain ⟨rfl, hlog⟩ := detach_raises hdetach hkind
  obtain ⟨back, hback, hattempt⟩ : ∃ back, (r' = s ∧ l' = back) ∧
      ((∀ e ∈ back, Still e) ∨ ∃ rest, (∀ e ∈ rest, Still e) ∧
        back = rest ++ [⟨.rename quarantine record.path, .ok ()⟩]) := by
    rcases Method.returns_perform_bind.mp hhandler with ⟨l₁, l₂, u, rfl, hrestore, hrest⟩ |
      ⟨e', hfail, -, hs⟩
    · obtain ⟨rfl, -, hs⟩ := Method.returns_raise.mp hrest
      exact ⟨l₁, ⟨hs, List.append_nil _⟩, restore_returns hrestore⟩
    · exact ⟨l', ⟨hs, rfl⟩, .inl (restore_raises hfail)⟩
  obtain ⟨rfl, rfl⟩ := hback
  refine ⟨rfl, ?_⟩
  rcases hlog with hstill | ⟨middle, stuck, hmiddle, hstuck, rfl⟩
  · have hall := still_append hfront hstill
    rw [← List.append_assoc]
    rcases hattempt with hback | ⟨rest, hrest, rfl⟩
    · exact .still (still_append hall hback)
    · rw [← List.append_assoc]
      exact .phantom (still_append hall hrest) ((hfree.append _).append _)
  · rw [List.cons_append, List.append_assoc]
    exact .moved hfront hmiddle hstuck hattempt

/-- **How a release can report a storage failure.** -/
theorem attempt_of_release {workspace : WorkspaceIdentity} {r r' : Registry} {detail : Text}
    (h : (adapter.release workspace).Returns r log
      (.error (workspaceError .storageFailure detail)) r') :
    (∃ record, r.records workspace.workspaceId = some record ∧ record.identity = workspace) ∧
      r' = r ∧ Attempt (adapter.placeOf workspace.workspaceId)
        (adapter.quarantineOf workspace.workspaceId) log := by
  have hcause : ∀ {cause detail'}, cause ≠ WorkspaceErrorCause.storageFailure →
      (Except.error (workspaceError .storageFailure detail) : Except Exc Unit) ≠
        .error (workspaceError cause detail') := fun hne heq ↦ by
    simp only [workspaceError, Except.error.injEq, Exc.workspaceError.injEq] at heq
    exact hne heq.1.symm
  rw [release, Method.returns_get_bind] at h
  split at h
  · exact absurd (Method.returns_pure.mp h).2.1 (by simp)
  rename_i record hrecord
  split at h
  · exact absurd (Method.returns_raise.mp h).2.1 (hcause (by decide))
  rename_i hidentity
  refine ⟨⟨record, hrecord, not_not.mp hidentity⟩, ?_⟩
  rcases Method.returns_perform_bind.mp h with ⟨l, l', u, rfl, hroot, hrest⟩ | ⟨e, hfail, -, hs⟩
  swap
  · exact ⟨hs, .still (still_of_watches (watches_assertRootIntegrity adapter) hfail)⟩
  have hroot := still_of_watches (watches_assertRootIntegrity adapter) hroot
  rcases Method.returns_perform_bind.mp hrest with ⟨l₁, l₂, path, rfl, hplace, hrest⟩ |
    ⟨e, hfail, -, -⟩
  swap
  · rw [pathFor_eq] at hfail
    exact absurd (Action.returns_lift.mp hfail).2 (by simp)
  obtain ⟨rfl, heq⟩ := Action.returns_lift.mp hplace
  obtain rfl := Except.ok.inj (heq.trans (pathFor_eq _))
  rw [List.nil_append]
  split at hrest
  · exact absurd (Method.returns_raise.mp hrest).2.1 (hcause (by decide))
  rename_i hchecked
  have hpath : record.path = adapter.placeOf workspace.workspaceId :=
    not_not.mp (not_or.mp hchecked).1
  have hwatches : ∀ path', Watches (Os.or (Os.pathExists path') (Os.isSymlink path')) := fun _ ↦
    Os.calls_or (watches_ask (by trivial)) (watches_ask (by trivial))
  rcases Method.returns_perform_bind.mp hrest with ⟨l₃, l₄, there, rfl, hthere, hrest⟩ |
    ⟨e, hfail, -, hs⟩
  swap
  · exact ⟨hs, .still (still_append hroot (still_of_watches (hwatches _) hfail))⟩
  have hlooked := still_append hroot (still_of_watches (hwatches _) hthere)
  rw [← List.append_assoc, ← hpath]
  split at hrest
  · rename_i hgone
    obtain rfl : there = false := by simpa using hgone
    rcases Method.returns_perform_bind.mp hrest with ⟨l₅, l₆, v, rfl, -, hrest⟩ |
      ⟨e, hfail, -, hs⟩
    · exact absurd (Method.returns_modify.mp hrest).2.1 (by simp)
    obtain ⟨habsent, hunlinked⟩ := looksFree_of_returns hthere
    have hfree : LooksFree record.path (l ++ l₃) :=
      ⟨List.mem_append_right _ habsent, List.mem_append_right _ hunlinked⟩
    refine ⟨hs, ?_⟩
    rcases recover_raises hfail with hstill | ⟨middle, error, hmiddle, rfl⟩
    · exact .still (still_append hlooked hstill)
    · rw [← List.append_assoc]
      exact .recovered (still_append hlooked hmiddle) (hfree.append _)
  rcases Method.returns_perform_bind.mp hrest with ⟨l₅, l₆, occupied, rfl, hocc, hrest⟩ |
    ⟨e, hfail, -, hs⟩
  swap
  · exact ⟨hs, .still (still_append hlooked (still_of_watches (hwatches _) hfail))⟩
  have hlooked := still_append hlooked (still_of_watches (hwatches _) hocc)
  rw [← List.append_assoc]
  split at hrest
  · obtain ⟨rfl, -, hs⟩ := Method.returns_raise.mp hrest
    rw [List.append_nil]
    exact ⟨hs, .still hlooked⟩
  rename_i hoccupied
  obtain rfl : occupied = false := by simpa using hoccupied
  obtain ⟨habsent, hunlinked⟩ := looksFree_of_returns hocc
  rcases Method.returns_bind.mp hrest with ⟨l₇, l₈, v, s, rfl, -, hrest⟩ | ⟨e, hdetach, heq⟩
  · exact absurd (Method.returns_modify.mp hrest).2.1 (by simp)
  obtain rfl := Except.error.inj heq
  exact attempt_of_detach hlooked
    ⟨List.mem_append_right _ habsent, List.mem_append_right _ hunlinked⟩ hdetach

/-! ## What a later use has seen -/

/-- A capability is used with success: it is loaded, or its candidate is taken. -/
inductive Used (adapter : LocalGitWorkspace) (fuel : ℕ) (workspace : WorkspaceIdentity)
    (r : Registry) (log : OsLog) : Prop
  | loaded {identity : WorkspaceIdentity} {r' : Registry}
      (h : (adapter.load fuel workspace.workspaceId).Returns r log (.ok (some identity)) r')
  | taken {candidate : CandidateIdentity} {r' : Registry}
      (h : (adapter.snapshot fuel workspace).Returns r log (.ok candidate) r')

section Use

variable {fuel : ℕ} {record : WorkspaceRecord} {workspace : WorkspaceIdentity} {r : Registry}
  {work : HostTree → HostTree → Prop} {tree tree' : HostTree}

/-- What a record that is found valid has shown first: the root is intact, and its own place a
directory and no link. -/
theorem seen_of_validateRecord {u : Unit}
    (h : (adapter.validateRecord fuel record).Returns log (.ok u)) :
    ∃ seen rest, log = seen ++ rest ∧ adapter.Intact seen ∧ (∀ e ∈ seen, Still e) ∧
      ⟨.isSymlink (adapter.placeOf record.identity.workspaceId), .ok false⟩ ∈ seen ∧
      ⟨.isDir (adapter.placeOf record.identity.workspaceId), .ok true⟩ ∈ seen := by
  obtain ⟨l, l', v, rfl, hroot, h⟩ := Action.returns_bind_ok.mp h
  obtain ⟨l₁, l₂, path, rfl, hplace, h⟩ := Action.returns_bind_ok.mp h
  obtain ⟨rfl, heq⟩ := Action.returns_lift.mp hplace
  obtain rfl := Except.ok.inj (heq.trans (pathFor_eq _))
  split at h
  · exact absurd (Action.returns_raise.mp h).2 (by simp)
  rename_i hpath
  obtain ⟨l₃, l₄, refused, rfl, hor, h⟩ := Action.returns_bind_ok.mp h
  split at h
  · exact absurd (Action.returns_raise.mp h).2 (by simp)
  rename_i hrefused
  obtain rfl : refused = false := by simpa using hrefused
  have hchecks : Watches (Os.or (Os.isSymlink record.path)
      (Os.or (do return !(← Os.isDir record.path))
        (pure (decide (adapter.IsProtected record.path))))) :=
    Os.calls_or (watches_ask (by trivial))
      (Os.calls_or (Os.calls_not (watches_ask (by trivial))) trivial)
  refine ⟨l ++ l₃, l₄, by simp, (intact_of_returns hroot).append _,
    still_append (still_of_watches (watches_assertRootIntegrity adapter) hroot)
      (still_of_watches hchecks hor), ?_⟩
  rw [not_not.mp hpath] at hor
  obtain ⟨m₁, m₂, rfl, hlink, hor⟩ := returns_or_false hor
  obtain ⟨m₃, m₄, rfl, hdir, -⟩ := returns_or_false hor
  obtain rfl := returns_isSymlink hlink
  obtain rfl := returns_isDir (returns_not_false hdir)
  exact ⟨by simp, by simp⟩

/-- A record that is found valid is that of a real directory. -/
theorem dir_of_validateRecord {u : Unit} (hnamed : adapter.root.Named)
    (h : (adapter.validateRecord fuel record).Returns log (.ok u))
    (hsteps : Steps (Acts work) tree log tree') :
    tree.node (adapter.placeOf record.identity.workspaceId).parts = some .dir := by
  obtain ⟨seen, rest, rfl, hintact, hstill, hlink, hdir⟩ := seen_of_validateRecord h
  obtain ⟨m, hsteps, -⟩ := Steps.append_iff.mp hsteps
  have hshows := (tree_eq_of_still (fun h ↦ h) hsteps hstill).2
  have hroot := root_of_intact hintact hshows
  have hlink : ¬tree.LinkAt (adapter.placeOf record.identity.workspaceId).parts :=
    Shows.not_link (hshows _ hlink)
  obtain ⟨place, hleads, hnode⟩ := (hshows _ hdir).1 rfl
  have hplace : adapter.placeOf record.identity.workspaceId =
      ⟨adapter.root.parts ++ [record.identity.workspaceId.value]⟩ := Path.ext (placeOf_parts _)
  rw [hplace] at hlink hleads ⊢
  obtain ⟨rfl, -⟩ := HostTree.eq_of_leads (FileTree.settled_of_dir hroot) hnamed
    (fun part hpart ↦ by
      rw [List.mem_singleton.mp hpart]
      exact WorkspaceId.head_ne_dot _ _)
    (fun front hne hbefore ↦ by
      rcases List.prefix_concat_iff.mp (show front <+: [] ++ [_] from hbefore) with rfl | hnil
      · exact hlink
      · exact absurd (List.prefix_nil.mp hnil) hne) hleads
  exact hnode

/-- A capability that is used with success is that of a real directory. -/
theorem Used.dir (h : adapter.Used fuel workspace r log) (hnamed : adapter.root.Named)
    (hrecord : r.records workspace.workspaceId = some record)
    (hidentity : record.identity = workspace) (hsteps : Steps (Acts work) tree log tree') :
    tree.node (adapter.placeOf workspace.workspaceId).parts = some .dir := by
  rw [← hidentity]
  cases h with
  | loaded h =>
    rw [load, Method.returns_get_bind, hrecord] at h
    rcases Method.returns_perform_bind.mp h with ⟨l, l', v, rfl, hvalid, -⟩ | ⟨e, -, heq, -⟩
    · obtain ⟨m, hsteps, -⟩ := Steps.append_iff.mp hsteps
      exact dir_of_validateRecord hnamed hvalid hsteps
    · exact absurd heq (by simp)
  | taken h =>
    rw [snapshot, Method.returns_get_bind] at h
    obtain ⟨hperform, -⟩ := Method.returns_perform.mp h
    obtain ⟨l, l', found, rfl, hfound, hrest⟩ := Action.returns_bind_ok.mp hperform
    obtain ⟨rfl, heq⟩ := Action.returns_lift.mp hfound
    obtain ⟨l₁, l₂, v, rfl, hvalid, -⟩ := Action.returns_bind_ok.mp hrest
    simp only [Registry.requireRecord, hrecord, hidentity, ne_eq, not_true_eq_false, if_false,
      Except.ok.injEq] at heq
    subst heq
    rw [List.nil_append] at hsteps
    obtain ⟨m, hsteps, -⟩ := Steps.append_iff.mp hsteps
    exact dir_of_validateRecord hnamed hvalid hsteps

end Use

/-! ## What becomes of the files -/

section Files

variable {work : HostTree → HostTree → Prop} {tree tree' later : HostTree}
  {workspace : WorkspaceIdentity} {r : Registry} {path : Path}
  {u : Interaction OsCall OsCall.Answer (Except Exc Unit × Registry)}

/-- Where nothing was found, nothing is. -/
theorem node_of_looksFree (h : LooksFree path log) (hshows : ∀ e ∈ log, Shows tree e) :
    tree.node path.parts = none := by
  have habsent := (hshows _ h.1 : Shows tree ⟨.pathExists path, .ok false⟩).2
  have hunlinked := Shows.not_link (hshows _ h.2)
  rcases hnode : tree.node path.parts with _ | n
  · rfl
  · by_cases hlink : n.IsLink
    · exact absurd ⟨n, hnode, hlink⟩ hunlinked
    · exact absurd (habsent ⟨n, hnode, hlink⟩) (by simp)

/-- Before a release does anything, the root is a directory. -/
theorem root_of_release {front back : OsLog} {event : Event OsCall.Answer}
    (h : (adapter.release workspace r).Leads (front ++ event :: back) u) (hevent : ¬event.1.Looks)
    (hshows : ∀ e ∈ front, Shows tree e) : tree.node adapter.root.parts = some .dir := by
  cases obeys_release workspace r front event back u h with
  | looks hlooks => exact absurd hlooks hevent
  | detaches hintact => exact root_of_intact hintact hshows

/-- A move between the two entries of a workspace. -/
theorem moves_of_rename {source target : Path} {id : WorkspaceId} (hnamed : adapter.root.Named)
    (hroot : tree.node adapter.root.parts = some .dir)
    (hsource : source = adapter.placeOf id ∧
        target = adapter.quarantineOf id ∨
      source = adapter.quarantineOf id ∧
        target = adapter.placeOf id)
    (hacts : Acts work tree ⟨.rename source target, .ok ()⟩ tree') :
    (tree.node source.parts).isSome = true ∧ tree.Moves source.parts target.parts tree' := by
  obtain ⟨departed, arrived, hfrom, hto, hthere, hmoves⟩ := hacts
  rcases hsource with ⟨rfl, rfl⟩ | ⟨rfl, rfl⟩
  · obtain rfl := entryAt_placeOf hroot hnamed hfrom
    obtain rfl := entryAt_quarantineOf hroot hnamed hto
    exact ⟨hthere, hmoves⟩
  · obtain rfl := entryAt_quarantineOf hroot hnamed hfrom
    obtain rfl := entryAt_placeOf hroot hnamed hto
    exact ⟨hthere, hmoves⟩

theorem not_quarantine_before_place (id : WorkspaceId) :
    ¬(adapter.quarantineOf id).parts <+: (adapter.placeOf id).parts := by
  rw [quarantineOf_parts, placeOf_parts]
  exact (FileTree.apart_of_ne (WorkspaceId.head_ne_dot id _).symm).1

/-- What happens in the quarantine does not change what is in the place of the workspace. -/
theorem node_of_sameOutside_quarantine {id : WorkspaceId}
    (h : tree.SameOutside {(adapter.quarantineOf id).parts} tree') :
    tree'.node (adapter.placeOf id).parts = tree.node (adapter.placeOf id).parts :=
  h.node_eq fun _ hp ↦ (Set.mem_singleton_iff.mp hp) ▸ not_quarantine_before_place id

/-- What is left of a removal in the quarantine changes nothing elsewhere. -/
theorem sameOutside_of_stuck {stuck : OsLog} (hnamed : adapter.root.Named)
    (hroot : tree.node adapter.root.parts = some .dir) {id : WorkspaceId}
    (hstuck : stuck = [] ∨ ∃ error, stuck = [⟨.rmtree (adapter.quarantineOf id), .error error⟩])
    (hsteps : Steps (Acts work) tree stuck tree') :
    tree.SameOutside {(adapter.quarantineOf id).parts} tree' := by
  rcases hstuck with rfl | ⟨error, rfl⟩
  · obtain rfl := Steps.nil_iff.mp hsteps
    exact FileTree.sameOutside_refl _ _
  · obtain ⟨m, hremoves, hnil⟩ := Steps.cons_iff.mp hsteps
    obtain rfl := Steps.nil_iff.mp hnil
    exact Removes.sameOutside (show Removes tree _ _ (.error error) from hremoves)
      fun _ ↦ entryAt_quarantineOf hroot hnamed

end Files

/-! ## What is left after a failure -/

section Exact

variable {work work' : HostTree → HostTree → Prop} {tree tree' later later' : HostTree}
  {workspace : WorkspaceIdentity} {r r' s : Registry} {id : WorkspaceId} {fuel : ℕ}
  {front middle stuck rest log' : OsLog} {move back : Event OsCall.Answer} {detail : Text}

/-- The stages of a release that moved a workspace away and back. -/
theorem steps_moved {Env : HostTree → Event OsCall.Answer → HostTree → Prop}
    (henv : ∀ {t e t'}, Env t e t' → Acts work t e t') (hfront : ∀ e ∈ front, Still e)
    (hmiddle : ∀ e ∈ middle, Still e) (hrest : ∀ e ∈ rest, Still e)
    (h : Steps Env tree (front ++ move :: (middle ++ (stuck ++ (rest ++ [back])))) tree') :
    ∃ away left, Steps Env tree front tree ∧ Env tree move away ∧ Steps Env away middle away ∧
      Steps Env away stuck left ∧ Steps Env left rest left ∧ Env left back tree' := by
  obtain ⟨t, hfirst, h⟩ := Steps.append_iff.mp h
  obtain ⟨away, hmove, h⟩ := Steps.cons_iff.mp h
  obtain ⟨t', hsecond, h⟩ := Steps.append_iff.mp h
  obtain ⟨left, hthird, h⟩ := Steps.append_iff.mp h
  obtain ⟨t'', hfourth, h⟩ := Steps.append_iff.mp h
  obtain ⟨t₃, hback, hnil⟩ := Steps.cons_iff.mp h
  obtain rfl := Steps.nil_iff.mp hnil
  obtain rfl := (tree_eq_of_still henv hfirst hfront).1
  obtain rfl := (tree_eq_of_still henv hsecond hmiddle).1
  obtain rfl := (tree_eq_of_still henv hfourth hrest).1
  exact ⟨_, _, hfirst, hmove, hsecond, hthird, hfourth, hback⟩

/-- What a workspace that was moved away and back contains. -/
theorem sameContent_of_stages {away left : HostTree} (hnamed : adapter.root.Named)
    (hroot : tree.node adapter.root.parts = some .dir)
    (hstuck : stuck = [] ∨ ∃ error, stuck = [⟨.rmtree (adapter.quarantineOf id), .error error⟩])
    (hmove : Acts work tree ⟨.rename (adapter.placeOf id) (adapter.quarantineOf id), .ok ()⟩ away)
    (hthird : Steps (Acts work) away stuck left)
    (hback : Acts work left ⟨.rename (adapter.quarantineOf id) (adapter.placeOf id), .ok ()⟩
      tree') :
    SameContent tree (adapter.placeOf id).parts away (adapter.quarantineOf id).parts ∧
      SameContent left (adapter.quarantineOf id).parts tree' (adapter.placeOf id).parts := by
  have hmoves := (moves_of_rename hnamed hroot (.inl ⟨rfl, rfl⟩) hmove).2
  have haway := root_of_sameOutside hroot hmoves.same
  have hleft := root_of_sameOutside haway
    ((sameOutside_of_stuck hnamed haway hstuck hthird).mono (Set.subset_insert _ _))
  exact ⟨sameContent_of_moves hmoves,
    sameContent_of_moves (moves_of_rename hnamed hleft (.inr ⟨rfl, rfl⟩) hback).2⟩

/-- A workspace that was moved away and back has its content exactly when a removal that failed in
between had removed none of it. -/
theorem moved_exact (hnamed : adapter.root.Named)
    (hroot : tree.node adapter.root.parts = some .dir) (hfront : ∀ e ∈ front, Still e)
    (hmiddle : ∀ e ∈ middle, Still e) (hrest : ∀ e ∈ rest, Still e)
    (hstuck : stuck = [] ∨ ∃ error, stuck = [⟨.rmtree (adapter.quarantineOf id), .error error⟩])
    (hmove : move = ⟨.rename (adapter.placeOf id) (adapter.quarantineOf id), .ok ()⟩)
    (hback : back = ⟨.rename (adapter.quarantineOf id) (adapter.placeOf id), .ok ()⟩)
    (hsteps : Steps (Acts work) tree
      (front ++ move :: (middle ++ (stuck ++ (rest ++ [back])))) tree') :
    SameContent tree (adapter.placeOf id).parts tree' (adapter.placeOf id).parts ↔
      Steps (SparingActs work (adapter.quarantineOf id).parts) tree
        (front ++ move :: (middle ++ (stuck ++ (rest ++ [back])))) tree' := by
  subst hmove hback
  have hsparing : ∀ {t t' source target},
      Acts work t ⟨.rename source target, .ok ()⟩ t' →
        SparingActs work (adapter.quarantineOf id).parts t ⟨.rename source target, .ok ()⟩ t' :=
    fun h ↦ ⟨h, fun _ _ heq ↦ absurd heq (by simp)⟩
  constructor
  · intro hsame
    obtain ⟨away, left, hfirst, hmove, hsecond, hthird, hfourth, hback⟩ :=
      steps_moved (fun h ↦ h) hfront hmiddle hrest hsteps
    obtain ⟨hto, hfrom⟩ := sameContent_of_stages hnamed hroot hstuck hmove hthird hback
    have hkept : SameContent away (adapter.quarantineOf id).parts left
        (adapter.quarantineOf id).parts := (hto.symm.trans hsame).trans hfrom.symm
    have hthird : Steps (SparingActs work (adapter.quarantineOf id).parts) away stuck left := by
      rcases hstuck with rfl | ⟨error, rfl⟩
      · obtain rfl := Steps.nil_iff.mp hthird
        exact .nil _
      · obtain ⟨m, hremoves, hnil⟩ := Steps.cons_iff.mp hthird
        obtain rfl := Steps.nil_iff.mp hnil
        exact .cons ⟨hremoves, fun _ _ _ ↦ hkept⟩ (.nil _)
    refine Steps.append_iff.mpr ⟨_, sparing_of_still hfront hfirst, .cons (hsparing hmove) ?_⟩
    refine Steps.append_iff.mpr ⟨_, sparing_of_still hmiddle hsecond, ?_⟩
    refine Steps.append_iff.mpr ⟨_, hthird, ?_⟩
    exact Steps.append_iff.mpr ⟨_, sparing_of_still hrest hfourth, .cons (hsparing hback) (.nil _)⟩
  · intro hsteps
    obtain ⟨away, left, -, hmove, -, hthird, -, hback⟩ :=
      steps_moved (fun h ↦ h.1) hfront hmiddle hrest hsteps
    have hkept : SameContent away (adapter.quarantineOf id).parts left
        (adapter.quarantineOf id).parts := by
      rcases hstuck with rfl | ⟨error, rfl⟩
      · obtain rfl := Steps.nil_iff.mp hthird
        exact sameContent_refl _ _
      · obtain ⟨m, hremoves, hnil⟩ := Steps.cons_iff.mp hthird
        obtain rfl := Steps.nil_iff.mp hnil
        exact hremoves.2 _ _ rfl
    have hthird : Steps (Acts work) away stuck left := hthird.mono fun h ↦ h.1
    obtain ⟨hto, hfrom⟩ := sameContent_of_stages hnamed hroot hstuck hmove.1 hthird hback.1
    exact (hto.trans hkept).trans hfrom

/-- A failed release of which the workspace is in its place afterwards: its content is what it was
exactly when a removal that failed had removed none of it. -/
theorem attempt_exact {log : OsLog}
    {u : Interaction OsCall OsCall.Answer (Except Exc Unit × Registry)}
    (hnamed : adapter.root.Named) (hrelease : (adapter.release workspace r).Leads log u)
    (hattempt : Attempt (adapter.placeOf workspace.workspaceId)
      (adapter.quarantineOf workspace.workspaceId) log)
    (hsteps : Steps (Acts work) tree log tree')
    (hdir : tree'.node (adapter.placeOf workspace.workspaceId).parts = some .dir) :
    SameContent tree (adapter.placeOf workspace.workspaceId).parts tree'
        (adapter.placeOf workspace.workspaceId).parts ↔
      Steps (SparingActs work (adapter.quarantineOf workspace.workspaceId).parts) tree log
        tree' := by
  cases hattempt with
  | still hstill =>
    obtain rfl := (tree_eq_of_still (fun h ↦ h) hsteps hstill).1
    exact iff_of_true (sameContent_refl _ _) (sparing_of_still hstill hsteps)
  | @recovered front error hfront hfree =>
    -- nothing was in its place, and nothing has come there
    obtain ⟨t, hfirst, hlast⟩ := Steps.append_iff.mp hsteps
    obtain ⟨rfl, hshows⟩ := tree_eq_of_still (fun h ↦ h) hfirst hfront
    have hroot := root_of_release hrelease (fun h ↦ h) hshows
    have hsame := sameOutside_of_stuck hnamed hroot (.inr ⟨error, rfl⟩) hlast
    have hnode := node_of_sameOutside_quarantine hsame
    rw [hdir, node_of_looksFree hfree hshows] at hnode
    exact absurd hnode (by simp)
  | phantom hfront hfree =>
    obtain ⟨t, hfirst, hlast⟩ := Steps.append_iff.mp hsteps
    obtain ⟨rfl, hshows⟩ := tree_eq_of_still (fun h ↦ h) hfirst hfront
    have hroot := root_of_release hrelease (fun h ↦ h) hshows
    obtain ⟨m, hrename, -⟩ := Steps.cons_iff.mp hlast
    have hthere := (moves_of_rename hnamed hroot (.inr ⟨rfl, rfl⟩) hrename).1
    rw [node_of_looksFree hfree hshows] at hthere
    exact absurd hthere (by simp)
  | @moved front middle stuck back hfront hmiddle hstuck hback =>
    obtain ⟨t, hfirst, hlast⟩ := Steps.append_iff.mp hsteps
    obtain ⟨rfl, hshows⟩ := tree_eq_of_still (fun h ↦ h) hfirst hfront
    have hroot := root_of_release hrelease (fun h ↦ h) hshows
    rcases hback with hstill | ⟨rest, hrest, rfl⟩
    · -- what was not moved back is not in its place
      obtain ⟨away, hmove, hlast⟩ := Steps.cons_iff.mp hlast
      obtain ⟨m, hsecond, hlast⟩ := Steps.append_iff.mp hlast
      obtain ⟨left, hthird, hfourth⟩ := Steps.append_iff.mp hlast
      obtain rfl := (tree_eq_of_still (fun h ↦ h) hsecond hmiddle).1
      obtain rfl := (tree_eq_of_still (fun h ↦ h) hfourth hstill).1
      have hmoves := (moves_of_rename hnamed hroot (.inl ⟨rfl, rfl⟩) hmove).2
      have hgone := hmoves.gone [] (by
        rw [List.append_nil]
        exact not_quarantine_before_place _)
      have hsame := sameOutside_of_stuck hnamed (root_of_sameOutside hroot hmoves.same) hstuck
        hthird
      have hnode := node_of_sameOutside_quarantine hsame
      rw [List.append_nil] at hgone
      rw [hdir, hgone] at hnode
      exact absurd hnode (by simp)
    · exact moved_exact hnamed hroot hfront hmiddle hrest hstuck rfl rfl hsteps

end Exact

/-- **What a failed release leaves of a workspace that can be used.**  Where a release reports a
storage failure and the capability is used with success later, with nothing done to the workspace in
between, its working tree is what it was before the release exactly when the recursive removal of
the quarantine, if it failed, had not removed anything of it. -/
theorem rollback_exact (adapter : LocalGitWorkspace) (work work' : HostTree → HostTree → Prop)
    (hnamed : adapter.root.Named) {workspace : WorkspaceIdentity} {r r' s : Registry} {fuel : ℕ}
    {log log' : OsLog} {detail : Text} {tree tree' later later' : HostTree}
    (hrelease : (adapter.release workspace).Returns r log
      (.error (workspaceError .storageFailure detail)) r')
    (hsteps : Steps (Acts work) tree log tree')
    (hkept : tree'.SameAt (adapter.placeOf workspace.workspaceId).parts later)
    (hregistered : s.records workspace.workspaceId = r'.records workspace.workspaceId)
    (hused : adapter.Used fuel workspace s log') (hlater : Steps (Acts work') later log' later') :
    SameContent tree (adapter.placeOf workspace.workspaceId).parts later
        (adapter.placeOf workspace.workspaceId).parts ↔
      Steps (SparingActs work (adapter.quarantineOf workspace.workspaceId).parts) tree log
        tree' := by
  obtain ⟨⟨record, hrecord, hidentity⟩, rfl, hattempt⟩ := attempt_of_release hrelease
  have hdir := hused.dir hnamed (hregistered.trans hrecord) hidentity hlater
  rw [hkept.node_eq] at hdir
  rw [← attempt_exact hnamed hrelease hattempt hsteps hdir]
  have hsame : SameContent tree' (adapter.placeOf workspace.workspaceId).parts later
      (adapter.placeOf workspace.workspaceId).parts := fun rest _ ↦ hkept rest
  exact ⟨fun h ↦ h.trans hsame.symm, fun h ↦ h.trans hsame⟩

end LocalGitWorkspace

/-! ## A removal that fails halfway -/

/-- A host on which the removal of the quarantine fails once a file of the candidate is gone. -/
def jammedHost : FileHost localNames where
  jams path :=
    if path = localWorkspace.quarantineOf localIdentity.workspaceId then
      some (text "notes") else none
  effect _ disk := disk
  output := headOutput

/-- The disk after a release on that host. -/
def jammedDisk : Disk localNames :=
  ((localWorkspace.release localIdentity localRegistry).playEnd jammedHost.answer (localDisk, [])).1

/-- The release reports a storage failure, and the capability can be loaded again. -/
theorem jammed_run : ∃ log r log' r' tree', (localWorkspace.release localIdentity).Returns
      localRegistry log (.error (workspaceError .storageFailure "workspace release failed")) r ∧
    Steps (Acts Eq) localDisk.tree log jammedDisk.tree ∧
    (localWorkspace.load 100 localIdentity.workspaceId).Returns r log'
      (.ok (some localIdentity)) r' ∧
    Steps (Acts Eq) jammedDisk.tree log' tree' := by
  let released := localWorkspace.release localIdentity localRegistry
  let loaded := localWorkspace.load 100 localIdentity.workspaceId localRegistry
  have hup : text ".." ∉ localNames := by decide
  have hreleased : (released.play jammedHost.answer (localDisk, [])).2.map Prod.fst =
      some (.error (workspaceError .storageFailure "workspace release failed")) := by decide +kernel
  have hloaded : (loaded.play jammedHost.answer (jammedDisk, [])).2.map Prod.fst =
      some (.ok (some localIdentity)) := by decide +kernel
  obtain ⟨r, hrelease⟩ := Method.returns_play (m := localWorkspace.release localIdentity)
    (s := localRegistry) hreleased
  obtain ⟨r', hload⟩ := Method.returns_play
    (m := localWorkspace.load 100 localIdentity.workspaceId) (s := localRegistry) hloaded
  obtain ⟨-, rfl, -⟩ := LocalGitWorkspace.attempt_of_release hrelease
  exact ⟨_, _, _, r', _, hrelease,
    jammedHost.steps_play hup (fun _ ↦ rfl) (fun _ _ ↦ rfl) released (localDisk, []), hload,
    jammedHost.steps_play hup (fun _ ↦ rfl) (fun _ _ ↦ rfl) loaded (jammedDisk, [])⟩

/-- The file is gone. -/
theorem jammed_changed : ¬SameContent localDisk.tree
    (localWorkspace.placeOf localIdentity.workspaceId).parts jammedDisk.tree
    (localWorkspace.placeOf localIdentity.workspaceId).parts := by
  intro hsame
  have hnotes := hsame [text "notes"] (by decide)
  exact absurd hnotes (by decide +kernel)

/-- A capability is loaded whose working tree a failed release has altered. -/
theorem jammed_release_alters : ∃ log r log' identity r' tree',
    (localWorkspace.release localIdentity).Returns localRegistry log
      (.error (workspaceError .storageFailure "workspace release failed")) r ∧
    Steps (Acts Eq) localDisk.tree log jammedDisk.tree ∧
    (localWorkspace.load 100 localIdentity.workspaceId).Returns r log' (.ok (some identity)) r' ∧
    Steps (Acts Eq) jammedDisk.tree log' tree' ∧
    ¬SameContent localDisk.tree (localWorkspace.placeOf localIdentity.workspaceId).parts
      jammedDisk.tree (localWorkspace.placeOf localIdentity.workspaceId).parts := by
  obtain ⟨log, r, log', r', tree', hrelease, hsteps, hload, hlater⟩ := jammed_run
  exact ⟨log, r, log', localIdentity, r', tree', hrelease, hsteps, hload, hlater, jammed_changed⟩

/-- So the removal had come to the working tree. -/
theorem rollback_exact_jammed : ∃ log r, (localWorkspace.release localIdentity).Returns
      localRegistry log (.error (workspaceError .storageFailure "workspace release failed")) r ∧
    ¬Steps (SparingActs Eq (localWorkspace.quarantineOf localIdentity.workspaceId).parts)
      localDisk.tree log jammedDisk.tree := by
  obtain ⟨log, r, log', r', tree', hrelease, hsteps, hload, hlater⟩ := jammed_run
  refine ⟨log, r, hrelease, fun hsparing ↦ jammed_changed ?_⟩
  exact (LocalGitWorkspace.rollback_exact localWorkspace Eq Eq (by decide) hrelease hsteps
    (FileTree.sameAt_refl _ _) rfl (.loaded hload) hlater).mpr hsparing

end Alicerce
