import Alicerce.Adapters.Preparation
import Alicerce.Lib.Histories

/-!
# Releasing again

A release that fails can be tried again, and again.  Between two attempts, and while others release
and prepare workspaces of their own, nothing is done to the two entries of the workspace.

* `Pending`: the root is a directory, and at most one of the two entries is taken, so that no
  attempt is kept from its work by what an earlier one has left.
* `Outcome` is how an attempt ends: it fails where a call of it does, or nothing is left of the
  workspace (`Gone`) and it is forgotten.
* `release_step`: every attempt ends in one of the two ways, and leaves the workspace `Pending` in
  the first.
* `Story` is what any number of attempts come to, and `release_converges` says that the first
  attempt that meets no failing call is the last.
-/

set_option autoImplicit false

namespace Alicerce

open Py Lib

/-! ## Calls that fail -/

/-- A call of a release that fails. -/
def Fails : Event OsCall.Answer → Prop
  | ⟨.isSymlink _, .error _⟩ | ⟨.isDir _, .error _⟩ | ⟨.pathExists _, .error _⟩
  | ⟨.resolve _, .error _⟩ | ⟨.unlink _, .error _⟩ | ⟨.rename _ _, .error _⟩
  | ⟨.rmtree _, .error _⟩ => True
  | _ => False

section Owes

variable {path target : Path} {α : Type} {p q : Os Bool}

theorem owes_isSymlink : (Os.isSymlink path).Owes Fails := by
  refine Action.owes_ask fun answer e h ↦ ?_
  obtain ⟨error, rfl, -⟩ := mapError_eq_error_iff.mp h
  trivial

theorem owes_isDir : (Os.isDir path).Owes Fails := by
  refine Action.owes_ask fun answer e h ↦ ?_
  obtain ⟨error, rfl, -⟩ := mapError_eq_error_iff.mp h
  trivial

theorem owes_pathExists : (Os.pathExists path).Owes Fails := by
  refine Action.owes_ask fun answer e h ↦ ?_
  obtain ⟨error, rfl, -⟩ := mapError_eq_error_iff.mp h
  trivial

theorem owes_unlink : (Os.unlink path).Owes Fails := by
  refine Action.owes_ask fun answer e h ↦ ?_
  obtain ⟨error, rfl, -⟩ := mapError_eq_error_iff.mp h
  trivial

theorem owes_rename : (Os.rename path target).Owes Fails := by
  refine Action.owes_ask fun answer e h ↦ ?_
  obtain ⟨error, rfl, -⟩ := mapError_eq_error_iff.mp h
  trivial

theorem owes_rmtree : (Os.rmtree path).Owes Fails := by
  refine Action.owes_ask fun answer e h ↦ ?_
  obtain ⟨error, rfl, -⟩ := mapError_eq_error_iff.mp h
  trivial

theorem owes_or (hp : p.Owes Fails) (hq : q.Owes Fails) : (Os.or p q).Owes Fails :=
  hp.bind fun _ ↦ .ite (fun _ ↦ Action.owes_pure _) fun _ ↦ hq

theorem owes_translate {p : Os α} {caught : Exc → Bool} {f : Exc → Exc} (hp : p.Owes Fails) :
    (Os.translate caught f p).Owes Fails := by
  intro log e h
  obtain ⟨y, hbody, hy⟩ := Os.returns_translate.mp h
  obtain ⟨e', rfl, -⟩ := translate_eq_error_iff.mp hy.symm
  exact hp log e' hbody

theorem owes_recoverQuarantine : (LocalGitWorkspace.recoverQuarantine path).Owes Fails := by
  refine (owes_or owes_pathExists owes_isSymlink).bind fun _ ↦
    .ite (fun _ ↦ owes_translate ?_) fun _ ↦ Action.owes_pure _
  refine (owes_or owes_isSymlink (owes_isDir.bind fun _ ↦ Action.owes_pure _)).bind fun _ ↦
    .ite (fun _ ↦ owes_unlink) fun _ ↦ owes_rmtree

/-- Detaching a workspace meets an `OSError` only where a call fails. -/
theorem owes_detach (record : WorkspaceRecord) (quarantine : Path) :
    (LocalGitWorkspace.detach record quarantine).Owes Fails IsOsError := by
  have hreplaced : ∀ detail, (do
      .perform (Os.unlink quarantine)
      .modify (Registry.forget record)
      .raise (workspaceError .isolationFailure detail) : RegistryMethod Unit).Owes Fails
        IsOsError :=
    fun detail ↦ (Method.owes_perform owes_unlink).bind fun _ ↦ (Method.owes_modify _).bind fun _ ↦
      Method.owes_raise (by simp [workspaceError, Exc.isOsError])
  exact (Method.owes_perform owes_rename).bind fun _ ↦
    (Method.owes_perform owes_isSymlink).bind fun _ ↦
    .ite (hreplaced _) ((Method.owes_perform owes_isDir).bind fun _ ↦ .ite (hreplaced _)
      (Method.owes_perform owes_rmtree))

end Owes

namespace LocalGitWorkspace

variable {adapter : LocalGitWorkspace} {id : WorkspaceId} {work : HostTree → HostTree → Prop}
  {tree tree' : HostTree} {log : OsLog} {r r' s : Registry} {workspace : WorkspaceIdentity}
  {record : WorkspaceRecord}

/-! ## The two entries -/

/-- A workspace is to be released: the root is a directory, and one of the two entries is free. -/
structure Pending (adapter : LocalGitWorkspace) (id : WorkspaceId) (tree : HostTree) : Prop where
  root : tree.node adapter.root.parts = some .dir
  free : tree.node (adapter.placeOf id).parts = none ∨
    tree.node (adapter.quarantineOf id).parts = none

/-- Nothing is left of a workspace. -/
structure Gone (adapter : LocalGitWorkspace) (id : WorkspaceId) (tree : HostTree) : Prop where
  root : tree.node adapter.root.parts = some .dir
  place : tree.node (adapter.placeOf id).parts = none
  quarantine : tree.node (adapter.quarantineOf id).parts = none

section Files

variable {path : Path} {name : Text} {b : Bool}

/-- An entry of a real directory is found just when it is there. -/
theorem found_iff (hroot : tree.node adapter.root.parts = some .dir) (hnamed : adapter.root.Named)
    (hpath : path.parts = adapter.root.parts ++ [name]) (hname : name ≠ text "..")
    (h : (Os.or (Os.pathExists path) (Os.isSymlink path)).Returns log (.ok b))
    (hshows : ∀ e ∈ log, Shows tree e) : b = true ↔ tree.node path.parts ≠ none := by
  obtain rfl : path = ⟨adapter.root.parts ++ [name]⟩ := Path.ext hpath
  have hlinked : tree.LinkAt (adapter.root.parts ++ [name]) →
      tree.node (adapter.root.parts ++ [name]) ≠ none := by
    rintro ⟨n, hn, -⟩
    simp [hn]
  cases b with
  | false =>
    have hnode := node_of_looksFree (looksFree_of_returns h) hshows
    exact iff_of_false (by simp) fun hne ↦ hne hnode
  | true =>
    refine iff_of_true rfl ?_
    obtain ⟨l, l', exists_, rfl, hexists, hlink⟩ := Action.returns_bind_ok.mp h
    obtain rfl := returns_pathExists hexists
    cases exists_ with
    | true =>
      obtain ⟨rfl, -⟩ := Action.returns_pure.mp hlink
      obtain ⟨place, hleads⟩ := (hshows _ (List.mem_cons_self ..)).1 rfl
      by_cases hunlinked : tree.LinkAt (adapter.root.parts ++ [name])
      · exact hlinked hunlinked
      · obtain rfl := leads_entry hroot hnamed hname hunlinked hleads
        obtain ⟨n, hn, -⟩ := FileTree.Walks.settled hleads FileTree.Settled.root
        simp [hn]
    | false =>
      obtain rfl := returns_isSymlink hlink
      have hends := (hshows ⟨.isSymlink ⟨adapter.root.parts ++ [name]⟩, .ok true⟩ (by simp)).1 rfl
      exact hlinked (HostTree.linkAt_of_endsInLink (FileTree.settled_of_dir hroot) hnamed hends)

/-- What is no link does not end in one. -/
theorem not_endsInLink (hsettled : tree.Settled path.parts) (hnamed : path.Named) :
    ¬tree.EndsInLink path := by
  rintro ⟨above, name, place, hparts, hleads, hlink⟩
  have habove : tree.Settled above := by
    have hfront := hsettled.dropLast
    rwa [hparts, List.dropLast_concat] at hfront
  have hfront : Path.Named ⟨above⟩ := fun part hpart ↦
    hnamed part (hparts ▸ List.mem_append_left _ hpart)
  have hsettled' : tree.Settled (Path.mk above).parts := habove
  obtain rfl := (HostTree.leads_of_settled hsettled' hfront).mp hleads
  obtain ⟨n, hn, hnolink⟩ := hsettled
  rw [hparts] at hn
  exact HostTree.not_linkAt_of_node hn hnolink hlink

/-- The root is found intact, unless a look at it fails. -/
theorem assertRootIntegrity_raises {e : Exc} (hroot : tree.node adapter.root.parts = some .dir)
    (hnamed : adapter.root.Named) (h : adapter.assertRootIntegrity.Returns log (.error e))
    (hshows : ∀ e ∈ log, Shows tree e) : Happened Fails log := by
  have hsettled := FileTree.settled_of_dir hroot
  rcases Action.returns_bind.mp h with ⟨l, l', resolved, rfl, hresolve, hrest⟩ | ⟨e', hfail, -⟩
  swap
  · refine owes_translate (Action.owes_ask fun answer e h ↦ ?_) log e' hfail
    obtain ⟨error, rfl, -⟩ := mapError_eq_error_iff.mp h
    trivial
  obtain rfl := returns_resolve (returns_translate_ok.mp hresolve)
  obtain rfl := Path.ext ((HostTree.leads_of_settled hsettled hnamed).mp
    (hshows ⟨.resolve adapter.root, .ok resolved⟩ (by simp)))
  rcases Action.returns_bind.mp hrest with ⟨l₁, l₂, refused, rfl, hor, hrest⟩ | ⟨e', hfail, -⟩
  swap
  · exact happened_append.mpr (.inr (owes_or owes_isSymlink (owes_or (owes_isDir.bind fun _ ↦
      Action.owes_pure _) (Action.owes_pure _)) _ _ hfail))
  cases refused with
  | false => exact absurd (Action.returns_pure.mp hrest).2 (by simp)
  | true =>
  -- truthful answers do not refuse a real directory
  exfalso
  obtain ⟨m, m', linked, rfl, hlink, hunlinked⟩ := Action.returns_bind_ok.mp hor
  obtain rfl := returns_isSymlink hlink
  cases linked with
  | true =>
    exact not_endsInLink hsettled hnamed
      ((hshows ⟨.isSymlink adapter.root, .ok true⟩ (by simp)).1 rfl)
  | false =>
  obtain ⟨m₁, m₂, notDir, rfl, hnegated, hsame⟩ := Action.returns_bind_ok.mp hunlinked
  obtain ⟨m₃, m₄, isDir, rfl, hdir, hnot⟩ := Action.returns_bind_ok.mp hnegated
  obtain rfl := returns_isDir hdir
  obtain rfl := (hshows ⟨.isDir adapter.root, .ok isDir⟩ (by simp)).2 hroot
  obtain ⟨rfl, heq⟩ := Action.returns_pure.mp hnot
  obtain rfl := Except.ok.inj heq
  exact absurd (Action.returns_pure.mp hsame).2 (by simp)

/-! ## What the parts of a release do -/

/-- What happens in the quarantine leaves the root and the place as they are. -/
theorem frame_of_quarantine (hroot : tree.node adapter.root.parts = some .dir)
    (h : tree.SameOutside {(adapter.quarantineOf id).parts} tree') :
    tree'.node adapter.root.parts = some .dir ∧
      tree'.node (adapter.placeOf id).parts = tree.node (adapter.placeOf id).parts :=
  ⟨root_of_sameOutside hroot (h.mono (Set.subset_insert _ _)), node_of_sameOutside_quarantine h⟩

theorem quarantineOf_eq (adapter : LocalGitWorkspace) (id : WorkspaceId) : adapter.quarantineOf id =
    ⟨adapter.root.parts ++ [text ".release-" ++ id.value]⟩ := Path.ext (quarantineOf_parts id)

theorem quarantine_ne_up (id : WorkspaceId) : text ".release-" ++ id.value ≠ text ".." := by
  intro h
  have hlength := congrArg List.length h
  simp [text] at hlength

/-- A quarantine that was recovered is free, and nothing has come of the place. -/
theorem recoverQuarantine_returns (hroot : tree.node adapter.root.parts = some .dir)
    (hnamed : adapter.root.Named)
    (h : (recoverQuarantine (adapter.quarantineOf id)).Returns log (.ok ()))
    (hsteps : Steps (Acts work) tree log tree') :
    tree.SameOutside {(adapter.quarantineOf id).parts} tree' ∧
      tree'.node (adapter.quarantineOf id).parts = none := by
  have hentry : ∀ {place}, tree.EntryAt (adapter.quarantineOf id) place →
      place = (adapter.quarantineOf id).parts := entryAt_quarantineOf hroot hnamed
  have hlooks : Watches (Os.or (Os.pathExists (adapter.quarantineOf id))
      (Os.isSymlink (adapter.quarantineOf id))) :=
    Os.calls_or (watches_ask (by trivial)) (watches_ask (by trivial))
  have hkind : Watches (Os.or (Os.isSymlink (adapter.quarantineOf id))
      (do return !(← Os.isDir (adapter.quarantineOf id)))) :=
    Os.calls_or (watches_ask (by trivial)) (Os.calls_not (watches_ask (by trivial)))
  obtain ⟨l, l', there, rfl, hthere, hrest⟩ := Action.returns_bind_ok.mp h
  obtain ⟨m, hfirst, hlast⟩ := Steps.append_iff.mp hsteps
  obtain ⟨rfl, hshows⟩ := tree_eq_of_still (fun h ↦ h) hfirst (still_of_watches hlooks hthere)
  split at hrest
  swap
  · rename_i hgone
    obtain rfl : there = false := by simpa using hgone
    obtain ⟨rfl, -⟩ := Action.returns_pure.mp hrest
    obtain rfl := Steps.nil_iff.mp hlast
    exact ⟨FileTree.sameOutside_refl _ _, node_of_looksFree (looksFree_of_returns hthere) hshows⟩
  obtain ⟨l₁, l₂, other, rfl, hother, hremove⟩ :=
    Action.returns_bind_ok.mp (returns_translate_ok.mp hrest)
  obtain ⟨m', hsecond, hremoval⟩ := Steps.append_iff.mp hlast
  obtain ⟨rfl, -⟩ := tree_eq_of_still (fun h ↦ h) hsecond (still_of_watches hkind hother)
  split at hremove
  · obtain ⟨answer, rfl, hanswer⟩ := Action.returns_ask.mp hremove
    rw [mapError_eq_ok_iff.mp hanswer.symm] at hremoval
    obtain ⟨t, ⟨place, n, hplace, -, -, hloses⟩, hnil⟩ := Steps.cons_iff.mp hremoval
    obtain rfl := Steps.nil_iff.mp hnil
    obtain rfl := hentry hplace
    exact ⟨hloses.same, hloses.node_eq_none⟩
  · obtain ⟨answer, rfl, hanswer⟩ := Action.returns_ask.mp hremove
    rw [mapError_eq_ok_iff.mp hanswer.symm] at hremoval
    obtain ⟨t, ⟨place, hplace, -, hloses⟩, hnil⟩ := Steps.cons_iff.mp hremoval
    obtain rfl := Steps.nil_iff.mp hnil
    obtain rfl := hentry hplace
    exact ⟨hloses.same, hloses.node_eq_none⟩

/-- A quarantine whose recovery failed has kept the place as it was. -/
theorem recoverQuarantine_raises {e : Exc} (hroot : tree.node adapter.root.parts = some .dir)
    (hnamed : adapter.root.Named)
    (h : (recoverQuarantine (adapter.quarantineOf id)).Returns log (.error e))
    (hsteps : Steps (Acts work) tree log tree') :
    tree.SameOutside {(adapter.quarantineOf id).parts} tree' := by
  rcases recover_raises h with hstill | ⟨middle, error, hmiddle, rfl⟩
  · obtain ⟨rfl, -⟩ := tree_eq_of_still (fun h ↦ h) hsteps hstill
    exact FileTree.sameOutside_refl _ _
  · obtain ⟨m, hfirst, hlast⟩ := Steps.append_iff.mp hsteps
    obtain ⟨rfl, -⟩ := tree_eq_of_still (fun h ↦ h) hfirst hmiddle
    exact sameOutside_of_stuck hnamed hroot (.inr ⟨error, rfl⟩) hlast

/-- Behind the move, the quarantine holds what was in the place. -/
theorem moved_of_rename (hroot : tree.node adapter.root.parts = some .dir)
    (hnamed : adapter.root.Named)
    (h : Acts work tree ⟨.rename (adapter.placeOf id) (adapter.quarantineOf id), .ok ()⟩ tree') :
    tree'.node adapter.root.parts = some .dir ∧ tree'.node (adapter.placeOf id).parts = none ∧
      tree'.node (adapter.quarantineOf id).parts = tree.node (adapter.placeOf id).parts ∧
      tree.node (adapter.placeOf id).parts ≠ none := by
  obtain ⟨hthere, hmoves⟩ := moves_of_rename hnamed hroot (.inl ⟨rfl, rfl⟩) h
  have hgone := hmoves.gone [] (by
    rw [List.append_nil]
    exact not_quarantine_before_place id)
  have hmoved := hmoves.moved []
  rw [List.append_nil] at hgone
  rw [List.append_nil, List.append_nil] at hmoved
  exact ⟨root_of_sameOutside hroot hmoves.same, hgone, hmoved, Option.isSome_iff_ne_none.mp hthere⟩

/-- A removal in the quarantine leaves nothing of a workspace that has been moved there. -/
theorem gone_of_removal (hroot : tree.node adapter.root.parts = some .dir)
    (hnamed : adapter.root.Named) (hplace : tree.node (adapter.placeOf id).parts = none)
    {c : OsCall} {answer : c.Answer}
    (hevent : (⟨c, answer⟩ : Event OsCall.Answer) = ⟨.unlink (adapter.quarantineOf id), .ok ()⟩ ∨
      (⟨c, answer⟩ : Event OsCall.Answer) = ⟨.rmtree (adapter.quarantineOf id), .ok ()⟩)
    (h : Acts work tree ⟨c, answer⟩ tree') : adapter.Gone id tree' := by
  have hentry : ∀ {place}, tree.EntryAt (adapter.quarantineOf id) place →
      place = (adapter.quarantineOf id).parts := entryAt_quarantineOf hroot hnamed
  obtain ⟨hsame, hnone⟩ : tree.SameOutside {(adapter.quarantineOf id).parts} tree' ∧
      tree'.node (adapter.quarantineOf id).parts = none := by
    rcases hevent with heq | heq
    · rw [heq] at h
      obtain ⟨removed, n, hremoved, -, -, hloses⟩ := h
      obtain rfl := hentry hremoved
      exact ⟨hloses.same, hloses.node_eq_none⟩
    · rw [heq] at h
      obtain ⟨removed, hremoved, -, hloses⟩ := h
      obtain rfl := hentry hremoved
      exact ⟨hloses.same, hloses.node_eq_none⟩
  obtain ⟨hroot', hplace'⟩ := frame_of_quarantine hroot hsame
  exact ⟨hroot', hplace'.trans hplace, hnone⟩

/-- What was in the place of a workspace is gone, and the record of it is forgotten. -/
theorem replaced_gone {cause : WorkspaceErrorCause} {detail : Text} {x : Except Exc Unit}
    (hroot : tree.node adapter.root.parts = some .dir) (hnamed : adapter.root.Named)
    (hplace : tree.node (adapter.placeOf id).parts = none)
    (h : (do
      .perform (Os.unlink (adapter.quarantineOf id))
      .modify (Registry.forget record)
      .raise (workspaceError cause detail) : RegistryMethod Unit).Returns r log x r')
    (hx : ∀ e, x = .error e → ¬IsOsError e) (hsteps : Steps (Acts work) tree log tree') :
    r' = r.forget record ∧ x = .error (workspaceError cause detail) ∧ adapter.Gone id tree' := by
  rcases Method.returns_perform_bind.mp h with ⟨l, l', u, rfl, hunlink, hrest⟩ | ⟨e, hfail, rfl, -⟩
  · obtain ⟨answer, rfl, hanswer⟩ := Action.returns_ask.mp hunlink
    rw [mapError_eq_ok_iff.mp hanswer.symm] at hsteps
    obtain ⟨rfl, rfl, rfl⟩ := Method.returns_raise.mp
      (show (Method.raise _ : RegistryMethod Unit).Returns _ _ _ _ from hrest)
    obtain ⟨t, hacts, hnil⟩ := Steps.cons_iff.mp hsteps
    obtain rfl := Steps.nil_iff.mp hnil
    exact ⟨rfl, rfl, gone_of_removal hroot hnamed hplace (.inl rfl) hacts⟩
  · exact absurd (Os.raises_unlink _ _ hfail) (hx e rfl)

/-- **A workspace that is detached** without an `OSError` is gone; a directory is no other kind of
entry. -/
theorem detach_gone {x : Except Exc Unit} (hpath : record.path = adapter.placeOf id)
    (hroot : tree.node adapter.root.parts = some .dir) (hnamed : adapter.root.Named)
    (h : (detach record (adapter.quarantineOf id)).Returns r log x r')
    (hx : ∀ e, x = .error e → ¬IsOsError e) (hsteps : Steps (Acts work) tree log tree') :
    adapter.Gone id tree' ∧ ((r' = r ∧ x = .ok ()) ∨ (r' = r.forget record ∧
      (∃ detail, x = .error (workspaceError .isolationFailure detail)) ∧
      tree.node (adapter.placeOf id).parts ≠ some .dir)) := by
  rw [detach, hpath] at h
  rcases Method.returns_perform_bind.mp h with ⟨l, l', u, rfl, hmove, hbehind⟩ | ⟨e, hfail, rfl, -⟩
  swap
  · exact absurd (Os.raises_rename _ _ hfail) (hx e rfl)
  obtain rfl := rename_ok hmove
  obtain ⟨away, hacts, haway⟩ := Steps.cons_iff.mp hsteps
  obtain ⟨hroot, hplace, hmoved, -⟩ := moved_of_rename hroot hnamed hacts
  rcases Method.returns_perform_bind.mp hbehind with ⟨l₁, l₂, isLink, rfl, hlink, hkind⟩ |
    ⟨e, hfail, rfl, -⟩
  swap
  · exact absurd (Os.raises_isSymlink _ _ hfail) (hx e rfl)
  obtain rfl := returns_isSymlink hlink
  obtain ⟨m, hlooked, hsteps⟩ := Steps.cons_iff.mp haway
  obtain ⟨rfl, hshows⟩ : m = away ∧ Shows away ⟨.isSymlink (adapter.quarantineOf id), .ok isLink⟩ :=
    hlooked
  split at hkind
  · rename_i hlinked
    obtain ⟨hr, rfl, hgone⟩ := replaced_gone hroot hnamed hplace hkind hx hsteps
    refine ⟨hgone, .inr ⟨hr, ⟨_, rfl⟩, ?_⟩⟩
    have hends := hshows.1 hlinked
    rw [quarantineOf_eq] at hends
    obtain ⟨n, hn, hislink⟩ :=
      HostTree.linkAt_of_endsInLink (FileTree.settled_of_dir hroot) hnamed hends
    rw [← quarantineOf_parts, hmoved] at hn
    rintro hdir
    obtain rfl := Option.some.inj (hn.symm.trans hdir)
    exact hislink
  rcases Method.returns_perform_bind.mp hkind with ⟨l₃, l₄, isDir, rfl, hdir, hlast⟩ |
    ⟨e, hfail, rfl, -⟩
  swap
  · exact absurd (Os.raises_isDir _ _ hfail) (hx e rfl)
  obtain rfl := returns_isDir hdir
  obtain ⟨m', hlooked, hremoves⟩ := Steps.cons_iff.mp hsteps
  obtain ⟨rfl, hshows⟩ : m' = m ∧ Shows m ⟨.isDir (adapter.quarantineOf id), .ok isDir⟩ := hlooked
  split at hlast
  · rename_i hfalse
    obtain rfl : isDir = false := by simpa using hfalse
    obtain ⟨hr, rfl, hgone⟩ := replaced_gone hroot hnamed hplace hlast hx hremoves
    refine ⟨hgone, .inr ⟨hr, ⟨_, rfl⟩, fun hdir ↦ ?_⟩⟩
    exact absurd (hshows.2 (hmoved.trans hdir)) (by simp)
  · obtain ⟨hremoval, rfl⟩ := Method.returns_perform.mp hlast
    obtain ⟨answer, rfl, rfl⟩ := Action.returns_ask.mp hremoval
    obtain ⟨t, hacts, hnil⟩ := Steps.cons_iff.mp hremoves
    obtain rfl := Steps.nil_iff.mp hnil
    cases answer with
    | ok u => exact ⟨gone_of_removal hroot hnamed hplace (.inr rfl) hacts, .inl ⟨rfl, rfl⟩⟩
    | error error => exact absurd (Os.raises_rmtree _ _ hremoval) (hx _ rfl)

/-- What is left of a removal that failed is what was there, or nothing. -/
theorem kept_of_stuck {stuck : OsLog}
    (hstuck : stuck = [] ∨ ∃ error, stuck = [⟨.rmtree (adapter.quarantineOf id), .error error⟩])
    (hsteps : Steps (Acts work) tree stuck tree') (place : List Text) :
    tree'.node place = none ∨ tree'.node place = tree.node place := by
  rcases hstuck with rfl | ⟨error, rfl⟩
  · obtain rfl := Steps.nil_iff.mp hsteps
    exact .inr rfl
  · obtain ⟨t, hremoves, hnil⟩ := Steps.cons_iff.mp hsteps
    obtain rfl := Steps.nil_iff.mp hnil
    rcases (hremoves : Removes tree _ _ (.error error)) with rfl | ⟨removed, -, -, hshrinks⟩
    · exact .inr rfl
    · exact hshrinks.kept place

theorem not_place_before_quarantine (id : WorkspaceId) :
    ¬(adapter.placeOf id).parts <+: (adapter.quarantineOf id).parts := by
  rw [quarantineOf_parts, placeOf_parts]
  exact (FileTree.apart_of_ne (WorkspaceId.head_ne_dot id _)).1

/-- An entry is free, and the other one is what it was or free as well. -/
structure Kept (adapter : LocalGitWorkspace) (id : WorkspaceId) (tree tree' : HostTree) : Prop where
  pending : adapter.Pending id tree'
  place : tree'.node (adapter.placeOf id).parts = none ∨
    tree'.node (adapter.placeOf id).parts = tree.node (adapter.placeOf id).parts

/-- A workspace that an `OSError` kept from being detached: what was moved away has been moved back,
or is left in the quarantine. -/
theorem restore_kept {e : Exc} {front back : OsLog} (hpath : record.path = adapter.placeOf id)
    (hnamed : adapter.root.Named) (hroot : tree.node adapter.root.parts = some .dir)
    (hfree : tree.node (adapter.quarantineOf id).parts = none)
    (h : (detach record (adapter.quarantineOf id)).Returns r front (.error e) s) (he : IsOsError e)
    (hback : (∀ e ∈ back, Still e) ∨ ∃ rest, (∀ e ∈ rest, Still e) ∧
      back = rest ++ [⟨.rename (adapter.quarantineOf id) record.path, .ok ()⟩])
    (hsteps : Steps (Acts work) tree (front ++ back) tree') : adapter.Kept id tree tree' := by
  rw [hpath] at hback
  obtain ⟨m, hfirst, hlast⟩ := Steps.append_iff.mp hsteps
  rcases (detach_raises h he).2 with hstill | ⟨middle, stuck, hmiddle, hstuck, rfl⟩
  · -- nothing was moved away, so that there is nothing to move back
    obtain ⟨rfl, -⟩ := tree_eq_of_still (fun h ↦ h) hfirst hstill
    rcases hback with hback | ⟨rest, hrest, rfl⟩
    · obtain ⟨rfl, -⟩ := tree_eq_of_still (fun h ↦ h) hlast hback
      exact ⟨⟨hroot, .inr hfree⟩, .inr rfl⟩
    · obtain ⟨m', hrest', hrename⟩ := Steps.append_iff.mp hlast
      obtain ⟨rfl, -⟩ := tree_eq_of_still (fun h ↦ h) hrest' hrest
      obtain ⟨t, hacts, -⟩ := Steps.cons_iff.mp hrename
      have hthere := (moves_of_rename hnamed hroot (.inr ⟨rfl, rfl⟩) hacts).1
      rw [hfree] at hthere
      exact absurd hthere (by simp)
  · rw [hpath] at hfirst
    obtain ⟨away, hacts, hbehind⟩ := Steps.cons_iff.mp hfirst
    obtain ⟨hroot', hplace, hmoved, -⟩ := moved_of_rename hroot hnamed hacts
    obtain ⟨m', hlooked, hremoval⟩ := Steps.append_iff.mp hbehind
    obtain ⟨rfl, -⟩ := tree_eq_of_still (fun h ↦ h) hlooked hmiddle
    obtain ⟨hroot'', hplace'⟩ :=
      frame_of_quarantine hroot' (sameOutside_of_stuck hnamed hroot' hstuck hremoval)
    rcases hback with hback | ⟨rest, hrest, rfl⟩
    · obtain ⟨rfl, -⟩ := tree_eq_of_still (fun h ↦ h) hlast hback
      exact ⟨⟨hroot'', .inl (hplace'.trans hplace)⟩, .inl (hplace'.trans hplace)⟩
    · obtain ⟨t, hrest', hrename⟩ := Steps.append_iff.mp hlast
      obtain ⟨rfl, -⟩ := tree_eq_of_still (fun h ↦ h) hrest' hrest
      obtain ⟨t', hreturns, hnil⟩ := Steps.cons_iff.mp hrename
      obtain rfl := Steps.nil_iff.mp hnil
      have hmoves := (moves_of_rename hnamed hroot'' (.inr ⟨rfl, rfl⟩) hreturns).2
      have hgone := hmoves.gone [] (by
        rw [List.append_nil]
        exact not_place_before_quarantine id)
      have hreturned := hmoves.moved []
      rw [List.append_nil] at hgone
      rw [List.append_nil, List.append_nil] at hreturned
      have hsame := hmoves.same
      rw [Set.pair_comm] at hsame
      have hroot₃ := root_of_sameOutside hroot'' hsame
      refine ⟨⟨hroot₃, .inr hgone⟩, ?_⟩
      rw [hreturned, ← hmoved]
      exact kept_of_stuck hstuck hremoval _

end Files

/-! ## One attempt -/

/-- How an attempt to release a workspace ends: it fails where a call of it does, and leaves the
workspace to be released; or it forgets the workspace, of which nothing is left, and has reported
what was found in place of a directory, if it was. -/
inductive Outcome (adapter : LocalGitWorkspace) (record : WorkspaceRecord) (tree : HostTree)
    (r : Registry) (log : OsLog) (x : Except Exc Unit) (r' : Registry) (tree' : HostTree) : Prop
  | failed (hr : r' = r) (hx : ∃ e, x = .error e) (hfails : Happened Fails log)
      (hkept : adapter.Kept record.identity.workspaceId tree tree')
  | done (hr : r' = r.forget record) (hgone : adapter.Gone record.identity.workspaceId tree')
      (hx : x = .ok () ∨ (∃ detail, x = .error (workspaceError .isolationFailure detail)) ∧
        tree.node (adapter.placeOf record.identity.workspaceId).parts ≠ none ∧
        tree.node (adapter.placeOf record.identity.workspaceId).parts ≠ some .dir)

theorem Outcome.append_left {x : Except Exc Unit} (front : OsLog)
    (h : adapter.Outcome record tree r log x r' tree') :
    adapter.Outcome record tree r (front ++ log) x r' tree' := by
  cases h with
  | failed hr hx hfails hkept => exact .failed hr hx (happened_append.mpr (.inr hfails)) hkept
  | done hr hgone hx => exact .done hr hgone hx

section Step

variable {x : Except Exc Unit} (hnamed : adapter.root.Named)
  (hroot : tree.node adapter.root.parts = some .dir) (hid : record.identity.workspaceId = id)

include hnamed hroot hid

/-- An attempt that finds nothing in the place of the workspace. -/
theorem outcome_of_recovery (hplace : tree.node (adapter.placeOf id).parts = none)
    (h : (do
      .perform (recoverQuarantine (adapter.quarantineOf id))
      .modify (Registry.forget record) : RegistryMethod Unit).Returns r log x r')
    (hsteps : Steps (Acts work) tree log tree') : adapter.Outcome record tree r log x r' tree' := by
  subst hid
  rcases Method.returns_perform_bind.mp h with ⟨l, l', u, rfl, hrecover, hforget⟩ |
    ⟨e, hfail, rfl, rfl⟩
  · obtain ⟨rfl, rfl, rfl⟩ := Method.returns_modify.mp hforget
    rw [List.append_nil] at hsteps
    obtain ⟨hsame, hquarantine⟩ := recoverQuarantine_returns hroot hnamed hrecover hsteps
    obtain ⟨hroot', hplace'⟩ := frame_of_quarantine hroot hsame
    exact .done rfl ⟨hroot', hplace'.trans hplace, hquarantine⟩ (.inl rfl)
  · obtain ⟨hroot', hplace'⟩ :=
      frame_of_quarantine hroot (recoverQuarantine_raises hroot hnamed hfail hsteps)
    exact .failed rfl ⟨e, rfl⟩ (owes_recoverQuarantine log e hfail)
      ⟨⟨hroot', .inl (hplace'.trans hplace)⟩, .inr hplace'⟩

/-- An attempt that finds the workspace in its place. -/
theorem outcome_of_detach (hpath : record.path = adapter.placeOf id)
    (hplace : tree.node (adapter.placeOf id).parts ≠ none)
    (hfree : tree.node (adapter.quarantineOf id).parts = none)
    (h : (do
      .tryCatch (detach record (adapter.quarantineOf id)) fun e ↦
        if e.isOsError then do
          .perform (restore record (adapter.quarantineOf id))
          .raise (workspaceError .storageFailure "workspace release failed")
        else .raise e
      .modify (Registry.forget record) : RegistryMethod Unit).Returns r log x r')
    (hsteps : Steps (Acts work) tree log tree') : adapter.Outcome record tree r log x r' tree' := by
  subst hid
  rcases Method.returns_bind.mp h with ⟨l, l', u, t, rfl, hdetach, hforget⟩ | ⟨e, hfail, rfl⟩
  · obtain ⟨rfl, rfl, rfl⟩ := Method.returns_modify.mp hforget
    rw [List.append_nil] at hsteps
    rcases Method.returns_tryCatch.mp hdetach with ⟨a, hdone, -⟩ | ⟨_, _, e, _, -, -, hhandler⟩
    · obtain ⟨hgone, ⟨rfl, -⟩ | ⟨-, ⟨_, heq⟩, -⟩⟩ :=
        detach_gone hpath hroot hnamed hdone (fun _ heq ↦ absurd heq (by simp)) hsteps
      · exact .done rfl hgone (.inl rfl)
      · exact absurd heq (by simp)
    · split at hhandler
      · rcases Method.returns_perform_bind.mp hhandler with ⟨_, _, _, -, -, hraise⟩ | ⟨_, -, heq, -⟩
        · exact absurd (Method.returns_raise.mp hraise).2.1 (by simp)
        · exact absurd heq (by simp)
      · exact absurd (Method.returns_raise.mp hhandler).2.1 (by simp)
  · rcases Method.returns_tryCatch.mp hfail with ⟨_, -, heq⟩ |
      ⟨l, l', e', s, rfl, hraised, hhandler⟩
    · exact absurd heq (by simp)
    split at hhandler
    · rename_i hos
      have hkept : ∀ {back}, ((∀ e ∈ back, Still e) ∨ ∃ rest, (∀ e ∈ rest, Still e) ∧
          back = rest ++ [⟨.rename (adapter.quarantineOf record.identity.workspaceId) record.path,
            .ok ()⟩]) →
          Steps (Acts work) tree (l ++ back) tree' →
            adapter.Kept record.identity.workspaceId tree tree' := fun hback hsteps ↦
        restore_kept hpath hnamed hroot hfree hraised hos hback hsteps
      have hfails := owes_detach record _ r l e' s hraised hos
      obtain ⟨rfl, -⟩ := detach_raises hraised hos
      refine .failed ?_ ⟨e, rfl⟩ (happened_append.mpr (.inl hfails)) ?_
      · rcases Method.returns_perform_bind.mp hhandler with ⟨_, _, _, -, -, hraise⟩ | ⟨_, -, -, hr⟩
        · exact (Method.returns_raise.mp hraise).2.2
        · exact hr
      · rcases Method.returns_perform_bind.mp hhandler with ⟨l₁, l₂, _, rfl, hrestore, hraise⟩ |
          ⟨_, hrestore, -, -⟩
        · obtain ⟨rfl, -⟩ := Method.returns_raise.mp hraise
          rw [List.append_nil] at hsteps
          exact hkept (restore_returns hrestore) hsteps
        · exact hkept (.inl (restore_raises hrestore)) hsteps
    · rename_i hos
      obtain ⟨rfl, heq, rfl⟩ := Method.returns_raise.mp hhandler
      obtain rfl := Except.error.inj heq
      rw [List.append_nil] at hsteps
      obtain ⟨hgone, ⟨-, heq⟩ | ⟨rfl, hreport, hnode⟩⟩ := detach_gone hpath hroot hnamed hraised
        (fun _ heq ↦ Except.error.inj heq ▸ hos) hsteps
      · exact absurd heq (by simp)
      · exact .done rfl hgone (.inr ⟨hreport, hplace, hnode⟩)

/-- **An attempt** ends in one of the two ways. -/
theorem release_step (hrecord : r.records id = some record)
    (hpath : record.path = adapter.placeOf id)
    (hfree : tree.node (adapter.placeOf id).parts = none ∨
      tree.node (adapter.quarantineOf id).parts = none)
    (h : (adapter.release record.identity).Returns r log x r')
    (hsteps : Steps (Acts work) tree log tree') : adapter.Outcome record tree r log x r' tree' := by
  subst hid
  have hwatches : ∀ path', Watches (Os.or (Os.pathExists path') (Os.isSymlink path')) := fun _ ↦
    Os.calls_or (watches_ask (by trivial)) (watches_ask (by trivial))
  have howes : ∀ path', (Os.or (Os.pathExists path') (Os.isSymlink path')).Owes Fails := fun _ ↦
    owes_or owes_pathExists owes_isSymlink
  have hstill : ∀ {l e}, Happened Fails l → adapter.Outcome record tree r l (.error e) r tree :=
    fun hfails ↦ .failed rfl ⟨_, rfl⟩ hfails ⟨⟨hroot, hfree⟩, .inr rfl⟩
  rw [release, Method.returns_get_bind, hrecord] at h
  simp only [ne_eq, not_true_eq_false, if_false] at h
  -- the root is intact
  rcases Method.returns_perform_bind.mp h with ⟨l, l', u, rfl, hintact, hchecked⟩ |
    ⟨e, hfail, rfl, rfl⟩
  swap
  · obtain ⟨rfl, hshows⟩ := tree_eq_of_still (fun h ↦ h) hsteps
      (still_of_watches (watches_assertRootIntegrity adapter) hfail)
    exact hstill (assertRootIntegrity_raises hroot hnamed hfail hshows)
  obtain ⟨m, hfirst, hbehind⟩ := Steps.append_iff.mp hsteps
  obtain ⟨rfl, -⟩ := tree_eq_of_still (fun h ↦ h) hfirst
    (still_of_watches (watches_assertRootIntegrity adapter) hintact)
  refine Outcome.append_left l ?_
  -- the place is that of the workspace, and it is not protected
  have hallowed : ¬(record.path ≠ adapter.placeOf record.identity.workspaceId ∨
      adapter.IsProtected record.path) := by
    rw [hpath]
    exact not_or.mpr ⟨not_not.mpr rfl, not_isProtected_placeOf adapter _⟩
  rw [pathFor_eq] at hchecked
  rcases Method.returns_perform_bind.mp hchecked with ⟨l₁, l₂, path, rfl, hlift, hlooked⟩ |
    ⟨e, hlift, -, -⟩
  swap
  · exact absurd (Action.returns_lift.mp hlift).2 (by simp)
  obtain ⟨rfl, heq⟩ := Action.returns_lift.mp hlift
  obtain rfl := Except.ok.inj heq
  rw [if_neg hallowed] at hlooked
  rw [List.nil_append] at hbehind ⊢
  -- is it there?
  rcases Method.returns_perform_bind.mp hlooked with ⟨l₃, l₄, there, rfl, hthere, hkind⟩ |
    ⟨e, hfail, rfl, rfl⟩
  swap
  · obtain ⟨rfl, -⟩ := tree_eq_of_still (fun h ↦ h) hbehind (still_of_watches (hwatches _) hfail)
    exact hstill (howes _ _ _ hfail)
  obtain ⟨m', hsecond, hrest⟩ := Steps.append_iff.mp hbehind
  obtain ⟨rfl, hshows⟩ :=
    tree_eq_of_still (fun h ↦ h) hsecond (still_of_watches (hwatches _) hthere)
  refine Outcome.append_left l₃ ?_
  have hfound := found_iff hroot hnamed (hpath ▸ placeOf_parts _) (WorkspaceId.head_ne_dot _ _)
    hthere hshows
  rw [hpath] at hfound
  cases there with
  | false => exact outcome_of_recovery hnamed hroot rfl (by simpa using hfound) hkind hrest
  | true =>
  have hplace := hfound.mp rfl
  have hfree' := hfree.resolve_left hplace
  -- is the quarantine free?
  rcases Method.returns_perform_bind.mp hkind with ⟨l₅, l₆, occupied, rfl, hocc, hdetach⟩ |
    ⟨e, hfail, rfl, rfl⟩
  swap
  · obtain ⟨rfl, -⟩ := tree_eq_of_still (fun h ↦ h) hrest (still_of_watches (hwatches _) hfail)
    exact hstill (howes _ _ _ hfail)
  obtain ⟨m'', hthird, hlast⟩ := Steps.append_iff.mp hrest
  obtain ⟨rfl, hshows'⟩ := tree_eq_of_still (fun h ↦ h) hthird (still_of_watches (hwatches _) hocc)
  refine Outcome.append_left l₅ ?_
  have hunoccupied := found_iff hroot hnamed (quarantineOf_parts _) (quarantine_ne_up _) hocc
    hshows'
  cases occupied with
  | true => exact absurd hfree' (hunoccupied.mp rfl)
  | false => exact outcome_of_detach hnamed hroot rfl hpath hplace hfree' hdetach hlast

end Step

/-! ## Any number of attempts -/

/-- Others have not come near a workspace: the root is still a directory, and the same stands at the
two entries. -/
structure Untouched (adapter : LocalGitWorkspace) (id : WorkspaceId) (tree tree' : HostTree) :
    Prop where
  root : tree.node adapter.root.parts = some .dir → tree'.node adapter.root.parts = some .dir
  place : tree'.node (adapter.placeOf id).parts = tree.node (adapter.placeOf id).parts
  quarantine : tree'.node (adapter.quarantineOf id).parts =
    tree.node (adapter.quarantineOf id).parts

/-- An attempt: what it asked of the host, and how it ended. -/
abbrev ReleaseAttempt := OsLog × Except Exc Unit

/-- A release is tried, after others may have been at work elsewhere. -/
def Tries (adapter : LocalGitWorkspace) (work : HostTree → HostTree → Prop)
    (workspace : WorkspaceIdentity) (s : Registry × HostTree) (attempt : ReleaseAttempt)
    (s' : Registry × HostTree) : Prop :=
  ∃ registry tree, registry.records workspace.workspaceId = s.1.records workspace.workspaceId ∧
    adapter.Untouched workspace.workspaceId s.2 tree ∧
    (adapter.release workspace).Returns registry attempt.1 attempt.2 s'.1 ∧
    Steps (Acts work) tree attempt.1 s'.2

/-- An attempt failed where a call of it did. -/
def FailedAttempt (attempt : ReleaseAttempt) : Prop :=
  (∃ e, attempt.2 = .error e) ∧ Happened Fails attempt.1

/-- An attempt removed a workspace, in place of which that was found. -/
def FinalAttempt (found : Option (Node Text Bytes)) (attempt : ReleaseAttempt) : Prop :=
  attempt.2 = .ok () ∨ (∃ detail, attempt.2 = .error (workspaceError .isolationFailure detail)) ∧
    found ≠ none ∧ found ≠ some .dir

section Runs

variable {tree₀ : HostTree} {attempts : List ReleaseAttempt} {s s' : Registry × HostTree}

theorem Pending.of_untouched (h : adapter.Pending id tree) (h' : adapter.Untouched id tree tree') :
    adapter.Pending id tree' :=
  ⟨h'.root h.root, h.free.imp (h'.place.trans ·) (h'.quarantine.trans ·)⟩

theorem Gone.of_untouched (h : adapter.Gone id tree) (h' : adapter.Untouched id tree tree') :
    adapter.Gone id tree' :=
  ⟨h'.root h.root, h'.place.trans h.place, h'.quarantine.trans h.quarantine⟩

/-- What was in the place of a workspace stays there, or the place is free. -/
theorem Kept.trans (h : adapter.Kept id tree₀ tree)
    (hplace : tree'.node (adapter.placeOf id).parts =
    tree.node (adapter.placeOf id).parts) {tree'' : HostTree} (h' : adapter.Kept id tree' tree'') :
    adapter.Kept id tree₀ tree'' := by
  refine ⟨h'.pending, h'.place.elim .inl fun heq ↦ ?_⟩
  rw [heq, hplace]
  exact h.place

/-- A workspace that has been released is released again without a call. -/
theorem tries_released (hrun : Steps (adapter.Tries work workspace) s attempts s')
    (hrecord : s.1.records workspace.workspaceId = none)
    (hgone : adapter.Gone workspace.workspaceId s.2) :
    s'.1.records workspace.workspaceId = none ∧ adapter.Gone workspace.workspaceId s'.2 ∧
      ∀ attempt ∈ attempts, attempt = ([], .ok ()) := by
  induction hrun with
  | nil => exact ⟨hrecord, hgone, by simp⟩
  | cons head _ ih =>
    obtain ⟨registry, tree, hsame, huntouched, hreturns, hsteps⟩ := head
    rw [release, Method.returns_get_bind, hsame, hrecord] at hreturns
    obtain ⟨hlog, hx, hregistry⟩ := Method.returns_pure.mp hreturns
    rw [hlog] at hsteps
    rw [← Steps.nil_iff.mp hsteps] at huntouched
    obtain ⟨hrecord', hgone', hall⟩ := ih (hregistry ▸ hsame.trans hrecord)
      (hgone.of_untouched huntouched)
    exact ⟨hrecord', hgone', List.forall_mem_cons.mpr ⟨Prod.ext hlog hx, hall⟩⟩

/-- What any number of attempts have come to. -/
inductive Story (adapter : LocalGitWorkspace) (record : WorkspaceRecord) (tree₀ : HostTree)
    (attempts : List ReleaseAttempt) (s' : Registry × HostTree) : Prop
  | going (hrecord : s'.1.records record.identity.workspaceId = some record)
      (hkept : adapter.Kept record.identity.workspaceId tree₀ s'.2)
      (hfailed : ∀ attempt ∈ attempts, FailedAttempt attempt)
  | ended {front back : List ReleaseAttempt} {final : ReleaseAttempt}
      (hattempts : attempts = front ++ final :: back)
      (hrecord : s'.1.records record.identity.workspaceId = none)
      (hgone : adapter.Gone record.identity.workspaceId s'.2)
      (hfailed : ∀ attempt ∈ front, FailedAttempt attempt)
      (hfinal : FinalAttempt (tree₀.node (adapter.placeOf record.identity.workspaceId).parts) final)
      (hback : ∀ attempt ∈ back, attempt = ([], .ok ()))

theorem story_of_kept (hnamed : adapter.root.Named)
    (hpath : record.path = adapter.placeOf record.identity.workspaceId)
    (hrecord : s.1.records record.identity.workspaceId = some record)
    (hkept : adapter.Kept record.identity.workspaceId tree₀ s.2)
    (hrun : Steps (adapter.Tries work record.identity) s attempts s') :
    adapter.Story record tree₀ attempts s' := by
  induction hrun with
  | nil => exact .going hrecord hkept (by simp)
  | @cons s m _ attempt _ head tail ih =>
    obtain ⟨registry, tree, hsame, huntouched, hreturns, hsteps⟩ := head
    have hpending := hkept.pending.of_untouched huntouched
    cases release_step hnamed hpending.root rfl (hsame.trans hrecord) hpath hpending.free hreturns
      hsteps with
    | failed hr hx hfails hkept' =>
      cases ih (hr ▸ hsame.trans hrecord) (hkept.trans huntouched.place hkept') with
      | going hrecord' hkept'' hfailed =>
        exact .going hrecord' hkept'' (List.forall_mem_cons.mpr ⟨⟨hx, hfails⟩, hfailed⟩)
      | ended hattempts hrecord' hgone hfailed hfinal hback =>
        exact .ended (hattempts ▸ (List.cons_append ..).symm) hrecord' hgone
          (List.forall_mem_cons.mpr ⟨⟨hx, hfails⟩, hfailed⟩) hfinal hback
    | done hr hgone hx =>
      have hforgotten : m.1.records record.identity.workspaceId = none := by
        rw [hr]
        exact Function.update_self ..
      obtain ⟨hrecord', hgone', hback⟩ := tries_released tail hforgotten hgone
      refine .ended (List.nil_append _).symm hrecord' hgone' (by simp) (hx.imp_right ?_) hback
      rintro ⟨hreport, hthere, hnodir⟩
      rw [huntouched.place] at hthere hnodir
      have hsince := hkept.place.resolve_left hthere
      exact ⟨hreport, hsince ▸ hthere, hsince ▸ hnodir⟩

/-- **A workspace is released by the first attempt that meets no failing call.**  In any run of
attempts, with others at work elsewhere between them: as long as every attempt has met a call that
fails, the workspace is still registered, and to be released; the first one that has not returns, or
reports what is no directory and stood in its place from the start; and from then on the workspace
is forgotten, nothing is left of it, and further attempts return without a call. -/
theorem release_converges (hnamed : adapter.root.Named)
    (hpath : record.path = adapter.placeOf record.identity.workspaceId)
    (hrecord : r.records record.identity.workspaceId = some record)
    (hpending : adapter.Pending record.identity.workspaceId tree)
    (hrun : Steps (adapter.Tries work record.identity) (r, tree) attempts s') :
    adapter.Story record tree attempts s' :=
  story_of_kept hnamed hpath hrecord ⟨hpending, .inr rfl⟩ hrun

end Runs

end LocalGitWorkspace

/-- A release that fails halfway is completed by the next one. -/
theorem release_converges_jammed : ∃ attempts r tree,
    Steps (localWorkspace.Tries Eq localIdentity) (localRegistry, localDisk.tree) attempts
      (r, tree) ∧ attempts.map Prod.snd =
        [.error (workspaceError .storageFailure "workspace release failed"), .ok ()] ∧
      r.records localIdentity.workspaceId = none ∧
      localWorkspace.Gone localIdentity.workspaceId tree := by
  obtain ⟨log, r, _, _, _, hrelease, hsteps, -⟩ := jammed_run
  obtain ⟨-, rfl, -⟩ := LocalGitWorkspace.attempt_of_release hrelease
  let again := localWorkspace.release localIdentity localRegistry
  have hplay : (again.play localHost.answer (jammedDisk, [])).2.map Prod.fst = some (.ok ()) := by
    decide +kernel
  obtain ⟨r', hagain⟩ := Method.returns_play (m := localWorkspace.release localIdentity)
    (s := localRegistry) hplay
  have hup : text ".." ∉ localNames := by decide
  have hrest : Steps (Acts Eq) jammedDisk.tree (again.play localHost.answer (jammedDisk, [])).1
      (again.playEnd localHost.answer (jammedDisk, [])).1.tree :=
    localHost.steps_play hup (fun _ ↦ rfl) (fun _ _ ↦ rfl) again (jammedDisk, [])
  have hstays : ∀ tree, localWorkspace.Untouched localIdentity.workspaceId tree tree :=
    fun _ ↦ ⟨id, rfl, rfl⟩
  have hsecond : localWorkspace.Tries Eq localIdentity (localRegistry, jammedDisk.tree)
      ((again.play localHost.answer (jammedDisk, [])).1, .ok ())
      (r', (again.playEnd localHost.answer (jammedDisk, [])).1.tree) :=
    ⟨localRegistry, _, rfl, hstays _, hagain, hrest⟩
  have hfirst : localWorkspace.Tries Eq localIdentity (localRegistry, localDisk.tree)
      (log, .error (workspaceError .storageFailure "workspace release failed"))
      (localRegistry, jammedDisk.tree) :=
    ⟨localRegistry, _, rfl, hstays _, hrelease, hsteps⟩
  have hrun := Steps.cons hfirst (.cons hsecond (.nil _))
  have hpending : localWorkspace.Pending localIdentity.workspaceId localDisk.tree :=
    ⟨by decide +kernel, .inr (by decide +kernel)⟩
  have hnamed : localWorkspace.root.Named := by decide
  let record : WorkspaceRecord :=
    ⟨localIdentity, localWorkspace.placeOf localIdentity.workspaceId, sha256 ⟨#[]⟩⟩
  have hstory : localWorkspace.Story record localDisk.tree _ _ :=
    LocalGitWorkspace.release_converges hnamed rfl rfl hpending hrun
  cases hstory with
  | going _ _ hfailed =>
    obtain ⟨⟨e, he⟩, -⟩ := hfailed _ (List.mem_cons_of_mem _ (List.mem_singleton_self _))
    exact absurd he (by simp)
  | ended _ hrecord hgone => exact ⟨_, _, _, hrun, rfl, hrecord, hgone⟩

end Alicerce
