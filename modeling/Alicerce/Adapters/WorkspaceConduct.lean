import Alicerce.Adapters.GitConduct
import Alicerce.Adapters.WorkspaceRegistry

/-!
# What preparing and releasing a workspace touch

What preparing and releasing a workspace touch.

* `Reserved`: the root has been looked at, the id was handed out, and nothing was found under its
  name.
* `prepareScope` is the scope of a `prepare`, and `obeys_prepare` says that it stays in there.
  Everything it does but looking, it does behind a reservation: it runs Git, makes control
  directories, and removes what is under the reserved name.
* What `release` does but looking is about two paths, the place of the workspace and the one it is
  moved to.
-/

set_option autoImplicit false

namespace Alicerce

open Py Lib

namespace LocalGitWorkspace

variable {adapter : LocalGitWorkspace} {fuel : ℕ} {log log' : OsLog} {id : WorkspaceId}

/-! ## Reservations -/

/-- The root was found to be what it should be. -/
structure Intact (adapter : LocalGitWorkspace) (log : OsLog) : Prop where
  resolved : ⟨.resolve adapter.root, .ok adapter.root⟩ ∈ log
  isDir : ⟨.isDir adapter.root, .ok true⟩ ∈ log

theorem Intact.append (h : adapter.Intact log) (log' : OsLog) : adapter.Intact (log ++ log') :=
  ⟨List.mem_append_left _ h.resolved, List.mem_append_left _ h.isDir⟩

theorem intact_of_returns (h : adapter.assertRootIntegrity.Returns log (.ok ())) :
    adapter.Intact log := by
  obtain ⟨l, l', resolved, rfl, hresolve, hrest⟩ := Action.returns_bind_ok.mp h
  obtain ⟨l₁, l₂, refused, rfl, hor, hrest⟩ := Action.returns_bind_ok.mp hrest
  split at hrest
  · exact absurd (Action.returns_raise.mp hrest).2 (by simp)
  rename_i hrefused
  obtain rfl : refused = false := by simpa using hrefused
  obtain ⟨m₁, m₂, rfl, -, hor⟩ := returns_or_false hor
  obtain ⟨m₃, m₄, rfl, hdir, hsame⟩ := returns_or_false hor
  obtain rfl := returns_isDir (returns_not_false hdir)
  obtain rfl := returns_resolve (returns_translate_ok.mp hresolve)
  have hroot : resolved = adapter.root := by
    have heq := Except.ok.inj (Action.returns_pure.mp hsame).2
    exact not_not.mp (of_decide_eq_false heq.symm)
  exact ⟨by simp [hroot], by simp⟩

/-- The id was handed out, and nothing was found under its name. -/
structure Reserved (adapter : LocalGitWorkspace) (id : WorkspaceId) (log : OsLog) : Prop where
  intact : adapter.Intact log
  handed : ⟨.newWorkspaceId, .ok id⟩ ∈ log
  absent : ⟨.pathExists (adapter.placeOf id), .ok false⟩ ∈ log
  unlinked : ⟨.isSymlink (adapter.placeOf id), .ok false⟩ ∈ log

theorem Reserved.append (h : adapter.Reserved id log) (log' : OsLog) :
    adapter.Reserved id (log ++ log') :=
  ⟨h.intact.append log', List.mem_append_left _ h.handed, List.mem_append_left _ h.absent,
    List.mem_append_left _ h.unlinked⟩

/-- Where the place of a workspace resolved to, once it was reserved. -/
def ResolvedTo (adapter : LocalGitWorkspace) (id : WorkspaceId) (log : OsLog) (trusted : Path) :
    Prop :=
  ∃ front back, log = front ++ ⟨.resolve (adapter.placeOf id), .ok trusted⟩ :: back ∧
    adapter.Reserved id front

theorem ResolvedTo.append {trusted : Path} (h : adapter.ResolvedTo id log trusted) (log' : OsLog) :
    adapter.ResolvedTo id (log ++ log') trusted := by
  obtain ⟨front, back, rfl, hreserved⟩ := h
  exact ⟨front, back ++ log', by rw [List.append_assoc, List.cons_append], hreserved⟩

/-- What `prepare` may touch. -/
def prepareScope (adapter : LocalGitWorkspace) : Scope where
  home log dir := ∃ id, adapter.Reserved id log ∧
    ((∃ parent, ⟨.resolve adapter.root, .ok parent⟩ ∈ log ∧ dir = (parent.join id.value).parent) ∨
      ∃ trusted, adapter.ResolvedTo id log trusted ∧ dir = trusted.parent)
  owned log path := ∃ id, adapter.Reserved id log ∧
    (path = adapter.placeOf id ∨
      ∃ parent, ⟨.resolve adapter.root, .ok parent⟩ ∈ log ∧ path = parent.join id.value)
  runs log := ∃ id, adapter.Reserved id log
  home_append log' := by
    rintro ⟨id, hreserved, ⟨parent, hparent, rfl⟩ | ⟨trusted, htrusted, rfl⟩⟩
    · exact ⟨id, hreserved.append log', .inl ⟨parent, List.mem_append_left _ hparent, rfl⟩⟩
    · exact ⟨id, hreserved.append log', .inr ⟨trusted, htrusted.append log', rfl⟩⟩
  owned_append log' := by
    rintro ⟨id, hreserved, rfl | ⟨parent, hparent, rfl⟩⟩
    · exact ⟨id, hreserved.append log', .inl rfl⟩
    · exact ⟨id, hreserved.append log', .inr ⟨parent, List.mem_append_left _ hparent, rfl⟩⟩
  runs_append log' := fun ⟨id, hreserved⟩ ↦ ⟨id, hreserved.append log'⟩

theorem placeOf_parent (id : WorkspaceId) : (adapter.placeOf id).parent = adapter.root := by
  rw [Path.parent, placeOf_parts, List.dropLast_concat]

theorem placeOf_name (id : WorkspaceId) : (adapter.placeOf id).name = id.value := by
  rw [Path.name, placeOf_parts, List.getLast?_concat]
  rfl

theorem keeps_discardUnpublished {path : Path} {scope : Scope} (hpath : scope.owned log path) :
    scope.Keeps log (adapter.discardUnpublished path) := by
  refine .ite (fun _ ↦ Scope.keeps_pure _) fun _ ↦ Scope.Keeps.tryCatch ?_ fun _ _ _ ↦
    .ite (fun _ ↦ Scope.keeps_pure _) fun _ ↦ Scope.keeps_raise _
  refine Scope.Keeps.bind (Scope.keeps_of_watches (Os.calls_or (watches_ask (by trivial))
    ((watches_ask (by trivial)).bind fun _ ↦ .ite (Os.calls_not (watches_ask (by trivial)))
      trivial))) fun l _ _ ↦ .ite (fun _ ↦ ?_) fun _ ↦ ?_
  · exact Action.obeys_ask fun _ ↦
      .unlink (scope.owned_append _ (scope.owned_append _ hpath)) _
  · refine (Scope.keeps_of_watches (watches_ask (by trivial))).bind fun l' _ _ ↦
      .ite (fun _ ↦ ?_) fun _ ↦ Scope.keeps_pure _
    exact Action.obeys_ask fun _ ↦ .rmtree (scope.owned_append _ (scope.owned_append _
      (scope.owned_append _ hpath))) _

/-- Once its place is reserved, a workspace is materialized within what `prepare` may touch. -/
theorem keeps_materialize {identity : RunIdentity} (hreserved : adapter.Reserved id log) :
    adapter.prepareScope.Keeps log (adapter.materialize fuel identity (adapter.placeOf id)) := by
  have howned (l : OsLog) : adapter.prepareScope.owned (log ++ l) (adapter.placeOf id) :=
    ⟨id, hreserved.append l, .inl rfl⟩
  have hclone : adapter.prepareScope.Keeps log (adapter.git.materializeBaseline fuel
      adapter.source (adapter.placeOf id) identity.baselineSha) := by
    refine Scope.keeps_materializeBaseline ⟨id, hreserved⟩ (fun l parent hparent ↦ ?_)
      fun l parent hparent ↦ ?_
    · rw [placeOf_parent] at hparent
      rw [placeOf_name]
      exact ⟨id, hreserved.append l, .inl ⟨parent, List.mem_append_right _ hparent, rfl⟩⟩
    · rw [placeOf_parent] at hparent
      rw [placeOf_name]
      exact ⟨id, hreserved.append l, .inr ⟨parent, List.mem_append_right _ hparent, rfl⟩⟩
  refine Scope.Keeps.tryCatch ?_ fun l e _ ↦ ?_
  · refine hclone.discard.bind fun l₁ _ _ ↦ ?_
    refine (Scope.keeps_of_watches (watches_validateSymlinks _)).bind fun l₂ _ _ ↦ ?_
    refine (Scope.keeps_of_watches (watches_configDigest _)).bind fun l₃ _ _ ↦ ?_
    have hreserved' := ((hreserved.append l₁).append l₂).append l₃
    have hverify : adapter.prepareScope.Keeps (log ++ l₁ ++ l₂ ++ l₃)
        (adapter.git.verifyBaseline fuel (adapter.placeOf id) identity.baselineSha) := by
      refine Scope.keeps_verifyBaseline ⟨id, hreserved'⟩ fun l trusted htrusted ↦ ?_
      obtain ⟨front, back, rfl⟩ := List.append_of_mem htrusted
      exact ⟨id, hreserved'.append _, .inr ⟨trusted, ⟨_, back, (List.append_assoc ..).symm,
        hreserved'.append front⟩, rfl⟩⟩
    exact hverify.discard.bind fun _ _ _ ↦ Scope.keeps_pure _
  · have hdiscard : adapter.prepareScope.Keeps (log ++ l)
        (adapter.discardUnpublished (adapter.placeOf id)) := keeps_discardUnpublished (howned l)
    exact .ite (fun _ ↦ hdiscard.bind fun _ _ _ ↦ Scope.keeps_raise _) fun _ ↦
      .ite (fun _ ↦ hdiscard.bind fun _ _ _ ↦ Scope.keeps_raise _) fun _ ↦
        .ite (fun _ ↦ hdiscard.bind fun _ _ _ ↦ Scope.keeps_raise _) fun _ ↦ Scope.keeps_raise _

/-- What is found free and was handed out is reserved. -/
theorem reserved_of_returns {l l' l'' : OsLog} {b : Bool} (hintact : adapter.Intact l)
    (hid : newWorkspaceId.Returns l' (.ok id))
    (hfree : (Os.or (pure b) (Os.or (Os.pathExists (adapter.placeOf id))
      (Os.isSymlink (adapter.placeOf id)))).Returns l'' (.ok false)) :
    adapter.Reserved id (l ++ l' ++ l'') := by
  obtain ⟨answer, rfl, hanswer⟩ := Action.returns_ask.mp hid
  obtain rfl : answer = .ok id := hanswer.symm
  obtain ⟨l₁, l₂, rfl, -, hor⟩ := returns_or_false hfree
  obtain ⟨l₃, l₄, rfl, hexists, hlink⟩ := returns_or_false hor
  obtain rfl := returns_pathExists hexists
  obtain rfl := returns_isSymlink hlink
  exact ⟨(hintact.append _).append _, by simp, by simp, by simp⟩

/-- **What `prepare` does**, it does within its scope. -/
theorem obeys_prepare (identity : RunIdentity) (r : Registry) :
    (adapter.prepare fuel identity).Obeys adapter.prepareScope.Allows r := by
  have hroot : adapter.prepareScope.Keeps [] adapter.assertRootIntegrity :=
    Scope.keeps_of_watches (watches_assertRootIntegrity adapter)
  refine Scope.keepsIn_perform_bind hroot fun l _ hreturns ↦ ?_
  have hintact : adapter.Intact l := intact_of_returns hreturns
  -- reading the registry is no event
  change adapter.prepareScope.KeepsIn l r _
  refine Method.Obeys.ite (fun _ ↦ Method.obeys_raise _) fun _ ↦ ?_
  have hnew : adapter.prepareScope.Keeps l newWorkspaceId := Action.obeys_ask fun _ ↦ .handed
    (by
      rw [List.append_nil]
      exact (watches_assertRootIntegrity adapter).looks.leads hreturns) _
  refine Scope.keepsIn_perform_bind hnew fun l₁ id hid ↦ ?_
  refine Scope.keepsIn_perform_bind (Action.obeys_lift _) fun l₂ destination hplace ↦ ?_
  obtain ⟨rfl, heq⟩ := Action.returns_lift.mp hplace
  obtain rfl := Except.ok.inj (heq.trans (pathFor_eq id))
  rw [List.append_nil]
  refine Scope.keepsIn_perform_bind (Scope.keeps_of_watches (Os.calls_or trivial
    (Os.calls_or (watches_ask (by trivial)) (watches_ask (by trivial))))) fun l₃ occupied hocc ↦ ?_
  refine Method.Obeys.ite (fun _ ↦ Method.obeys_raise _) fun hfree ↦ ?_
  obtain rfl : occupied = false := by simpa using hfree
  exact Scope.keepsIn_perform_bind (keeps_materialize (reserved_of_returns hintact hid hocc))
    fun _ _ _ ↦ Method.Obeys.bind (Method.obeys_modify _) fun _ _ _ _ ↦ Method.obeys_pure _

end LocalGitWorkspace

end Alicerce
