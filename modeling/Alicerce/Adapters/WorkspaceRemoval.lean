import Alicerce.Adapters.FileHost
import Alicerce.Adapters.WorkspaceConduct

/-!
# What the removal of a workspace leaves alone

Releasing a workspace, and discarding what a failed `prepare` has left of one, change nothing but
the entry of the workspace in the root and the entry it is moved to.  Whatever stands at these
entries is acted on itself: a link there is removed or moved, not followed.

* `Detaches` and `Releases` are the calls of a release, and `Progress` says how far one has come;
  `Discards` are those of a discarding.
* `apart_ownEntries`: the two names differ from those of every other workspace, and the root from
  every protected root, so all of these keep what they have (`sameAt_of_ownEntries`).
* `removal_confined` is the result, at every point of either operation.
-/

set_option autoImplicit false

namespace Alicerce

open Py Lib

namespace LocalGitWorkspace

variable {adapter : LocalGitWorkspace} {id other : WorkspaceId} {log before after : OsLog}
  {work : HostTree → HostTree → Prop} {tree tree' : HostTree} {event : Event OsCall.Answer}

/-! ## The two entries -/

theorem isName_quarantine (id : WorkspaceId) : IsName (text ".release-" ++ id.value) := by
  refine ⟨?_, by simp [text], ?_⟩
  · rw [List.mem_append, not_or]
    exact ⟨by decide, id.isName.1⟩
  · intro h
    have hlength := congrArg List.length h
    simp [text] at hlength

theorem quarantineOf_parts (id : WorkspaceId) :
    (adapter.quarantineOf id).parts = adapter.root.parts ++ [text ".release-" ++ id.value] := by
  rw [quarantineOf, Path.join_of_isName (isName_quarantine id)]

/-- An id does not begin with a dot. -/
theorem WorkspaceId.head_ne_dot (id : WorkspaceId) (rest : Text) :
    id.value ≠ .scalar '.' :: rest := by
  intro h
  have hpattern : workspaceIdPattern id.value = true := pattern_of_requireFormat id.valid
  rw [h, workspaceIdPattern, runIdPattern, matchesHeadTail, Bool.and_eq_true, Bool.and_eq_true]
    at hpattern
  exact absurd hpattern.1.1 (by decide)

/-- The entry of a workspace, and the one it is moved to. -/
def ownEntries (adapter : LocalGitWorkspace) (id : WorkspaceId) : Set (List Text) :=
  {(adapter.placeOf id).parts, (adapter.quarantineOf id).parts}

theorem mem_ownEntries {place : List Text} : place ∈ adapter.ownEntries id ↔
    ∃ name, (name = id.value ∨ name = text ".release-" ++ id.value) ∧
      place = adapter.root.parts ++ [name] := by
  rw [ownEntries, placeOf_parts, quarantineOf_parts, Set.mem_insert_iff, Set.mem_singleton_iff]
  constructor
  · rintro (rfl | rfl)
    · exact ⟨_, .inl rfl, rfl⟩
    · exact ⟨_, .inr rfl, rfl⟩
  · rintro ⟨name, rfl | rfl, rfl⟩
    · exact .inl rfl
    · exact .inr rfl

/-- The entries of different workspaces are apart. -/
theorem apart_ownEntries (hne : id ≠ other) {place place' : List Text}
    (h : place ∈ adapter.ownEntries id) (h' : place' ∈ adapter.ownEntries other) :
    FileTree.Apart place place' := by
  obtain ⟨name, hname, rfl⟩ := mem_ownEntries.mp h
  obtain ⟨name', hname', rfl⟩ := mem_ownEntries.mp h'
  refine FileTree.apart_of_ne ?_
  have hvalue : id.value ≠ other.value := fun heq ↦ hne (Checked.ext heq)
  rcases hname with rfl | rfl <;> rcases hname' with rfl | rfl
  · exact hvalue
  · exact WorkspaceId.head_ne_dot id _
  · exact (WorkspaceId.head_ne_dot other _).symm
  · exact fun heq ↦ hvalue (List.append_cancel_left heq)

/-- A protected root is apart from every entry of the workspace root. -/
theorem apart_protected {protectedRoot : Path}
    (h : protectedRoot ∈ adapter.source :: adapter.protectedRoots) (name : Text) :
    FileTree.Apart protectedRoot.parts (adapter.root.parts ++ [name]) := by
  have hdisjoint := adapter.disjoint protectedRoot h
  simp only [Overlaps, Path.IsRelativeTo, not_or] at hdisjoint
  refine ⟨fun hbefore ↦ ?_, fun hbefore ↦ hdisjoint.2.2 ((List.prefix_append _ _).trans hbefore)⟩
  rcases List.prefix_or_prefix_of_prefix hbefore (List.prefix_append adapter.root.parts [name]) with
    hle | hle
  · exact hdisjoint.2.1 hle
  · exact hdisjoint.2.2 hle

/-- **What keeps its content** when only the two entries of a workspace change. -/
theorem sameAt_of_ownEntries (h : tree.SameOutside (adapter.ownEntries id) tree') :
    (∀ protectedRoot ∈ adapter.source :: adapter.protectedRoots,
      tree.SameAt protectedRoot.parts tree') ∧
    ∀ other, other ≠ id → ∀ place ∈ adapter.ownEntries other, tree.SameAt place tree' := by
  refine ⟨fun protectedRoot hprotected ↦ h.sameAt fun p hp ↦ ?_, fun other hne place hplace ↦
    h.sameAt fun p hp ↦ apart_ownEntries hne hplace hp⟩
  obtain ⟨name, -, rfl⟩ := mem_ownEntries.mp hp
  exact apart_protected hprotected name

/-- An entry of the root is not above the root. -/
theorem not_ownEntry_before_root {place : List Text} (h : place ∈ adapter.ownEntries id) :
    ¬place <+: adapter.root.parts := by
  obtain ⟨name, -, rfl⟩ := mem_ownEntries.mp h
  intro hbefore
  have hlength := hbefore.length_le
  simp at hlength

theorem entryAt_placeOf {place : List Text} (hroot : tree.node adapter.root.parts = some .dir)
    (hnamed : adapter.root.Named) (h : tree.EntryAt (adapter.placeOf id) place) :
    place = (adapter.placeOf id).parts := by
  rw [placeOf_parts]
  refine HostTree.entryAt_of_dir hroot hnamed ?_
  rw [← placeOf_parts]
  exact h

theorem entryAt_quarantineOf {place : List Text}
    (hroot : tree.node adapter.root.parts = some .dir) (hnamed : adapter.root.Named)
    (h : tree.EntryAt (adapter.quarantineOf id) place) :
      place = (adapter.quarantineOf id).parts := by
  rw [quarantineOf_parts]
  refine HostTree.entryAt_of_dir hroot hnamed ?_
  rw [← quarantineOf_parts]
  exact h

/-! ## Release -/

/-- A call of a release that only looks, or is about the two entries of its workspace. -/
def Detaches (path quarantine : Path) : OsCall → Prop
  | .unlink removed | .rmtree removed => removed = quarantine
  | .rename source target =>
    source = path ∧ target = quarantine ∨ source = quarantine ∧ target = path
  | call => call.Looks

/-- What `release` does: it looks, and once the root is found intact it acts on the two entries. -/
inductive Releases (adapter : LocalGitWorkspace) (id : WorkspaceId) (before : OsLog) :
    Event OsCall.Answer → Prop
  | looks {event : Event OsCall.Answer} (h : event.1.Looks) : Releases adapter id before event
  | detaches {event : Event OsCall.Answer} (hintact : adapter.Intact before)
      (h : Detaches (adapter.placeOf id) (adapter.quarantineOf id) event.1) :
      Releases adapter id before event

section Detach

variable {path quarantine : Path} {α : Type} {r : Registry}

/-- A program is about two entries only. -/
abbrev Confined (path quarantine : Path) (r : Registry) (m : RegistryMethod α) : Prop :=
  m.Obeys (fun _ event ↦ Detaches path quarantine event.1) r

theorem confined_bind {p : Os α} {β : Type} {f : α → RegistryMethod β}
    (hp : p.Calls (Detaches path quarantine)) (hf : ∀ a, Confined path quarantine r (f a)) :
    Confined path quarantine r (.perform p >>= f) :=
  Method.obeys_perform_bind (Action.Calls.obeys hp fun _ _ h ↦ h) fun _ a _ ↦ hf a

theorem confined_perform {p : Os α} (hp : p.Calls (Detaches path quarantine)) :
    Confined path quarantine r (.perform p) :=
  Method.obeys_perform (Action.Calls.obeys hp fun _ _ h ↦ h)

theorem calls_or_isSymlink (path' : Path) : (Os.or (Os.pathExists path')
    (Os.isSymlink path')).Calls (Detaches path quarantine) :=
  Os.calls_or (Action.calls_ask.mpr trivial) (Action.calls_ask.mpr trivial)

theorem confined_detach {record : WorkspaceRecord} (quarantine : Path) (r : Registry) :
    Confined record.path quarantine r (detach record quarantine) := by
  refine confined_bind (Action.calls_ask.mpr (.inl ⟨rfl, rfl⟩)) fun _ ↦ ?_
  refine confined_bind (Action.calls_ask.mpr trivial) fun _ ↦ .ite (fun _ ↦ ?_) fun _ ↦ ?_
  · exact confined_bind (Action.calls_ask.mpr rfl) fun _ ↦
      Method.Obeys.bind (Method.obeys_modify _) fun _ _ _ _ ↦ Method.obeys_raise _
  refine confined_bind (Action.calls_ask.mpr trivial) fun _ ↦ .ite (fun _ ↦ ?_) fun _ ↦ ?_
  · exact confined_bind (Action.calls_ask.mpr rfl) fun _ ↦
      Method.Obeys.bind (Method.obeys_modify _) fun _ _ _ _ ↦ Method.obeys_raise _
  · exact confined_perform (Action.calls_ask.mpr rfl)

theorem calls_restore {record : WorkspaceRecord} :
    (restore record quarantine).Calls (Detaches record.path quarantine) := by
  refine Action.Calls.bind (Action.calls_ask.mpr trivial) fun _ ↦ .ite ?_ trivial
  refine Action.Calls.bind (Action.calls_ask.mpr trivial) fun _ ↦ .ite ?_ trivial
  exact Os.calls_suppress (Action.calls_ask.mpr (.inr ⟨rfl, rfl⟩))

theorem calls_recoverQuarantine :
    (recoverQuarantine quarantine).Calls (Detaches path quarantine) := by
  refine Action.Calls.bind (calls_or_isSymlink _) fun _ ↦ .ite (Os.calls_translate ?_) trivial
  refine Action.Calls.bind (Os.calls_or (Action.calls_ask.mpr trivial)
    (Os.calls_not (Action.calls_ask.mpr trivial))) fun _ ↦ .ite ?_ ?_
  · exact Action.calls_ask.mpr rfl
  · exact Action.calls_ask.mpr rfl

end Detach

theorem obeys_releaseRecord {record : WorkspaceRecord} {workspace : WorkspaceIdentity}
    (r : Registry) : (adapter.releaseRecord record workspace).Obeys
      (adapter.Releases workspace.workspaceId) r := by
  have hlooks : adapter.assertRootIntegrity.Obeys (adapter.Releases workspace.workspaceId) :=
    Action.Calls.obeys (watches_assertRootIntegrity adapter) fun _ _ h ↦ .looks h.looks
  refine Method.obeys_perform_bind hlooks fun l _ hreturns ↦ ?_
  have hintact : adapter.Intact l := intact_of_returns hreturns
  refine Method.obeys_perform_bind (Action.obeys_lift _) fun l₁ expected hplace ↦ ?_
  obtain ⟨rfl, heq⟩ := Action.returns_lift.mp hplace
  obtain rfl := Except.ok.inj (heq.trans (pathFor_eq _))
  refine Method.Obeys.ite (fun _ ↦ Method.obeys_raise _) fun hchecked ↦ ?_
  have hpath : record.path = adapter.placeOf workspace.workspaceId :=
    not_not.mp (not_or.mp hchecked).1
  -- behind the checks everything is about the two entries
  suffices hconfined : Confined record.path (adapter.quarantineOf workspace.workspaceId) r _ from
    Interaction.Obeys.mono hconfined fun front event h ↦
      .detaches (hintact.append _) (hpath ▸ h)
  have hforget : Confined record.path (adapter.quarantineOf workspace.workspaceId) r
      (.modify (Registry.forget record)) := Method.obeys_modify _
  refine confined_bind (calls_or_isSymlink _) fun _ ↦ .ite (fun _ ↦ ?_) fun _ ↦ ?_
  · exact confined_bind calls_recoverQuarantine fun _ ↦ hforget
  · refine confined_bind (calls_or_isSymlink _) fun _ ↦
      .ite (fun _ ↦ Method.obeys_raise _) fun _ ↦ ?_
    refine Method.Obeys.bind ((confined_detach _ r).tryCatch fun _ e s _ ↦
      .ite (fun _ ↦ ?_) fun _ ↦ Method.obeys_raise e) fun _ _ s _ ↦ Method.obeys_modify _
    exact confined_bind calls_restore fun _ ↦ Method.obeys_raise _

/-- A root that was found intact is a directory. -/
theorem root_of_intact (h : adapter.Intact log) (hshows : ∀ e ∈ log, Shows tree e) :
    tree.node adapter.root.parts = some .dir := by
  have hresolved : tree.Leads adapter.root adapter.root.parts := hshows _ h.resolved
  obtain ⟨place, hleads, hnode⟩ := (hshows _ h.isDir).1 rfl
  rwa [hleads.unique hresolved] at hnode

theorem Detaches.sameOutside (hroot : tree.node adapter.root.parts = some .dir)
    (hnamed : adapter.root.Named)
    (h : Detaches (adapter.placeOf id) (adapter.quarantineOf id) event.1)
    (hacts : Acts work tree event tree') : tree.SameOutside (adapter.ownEntries id) tree' := by
  have hplace : ∀ place, tree.EntryAt (adapter.placeOf id) place →
      place = (adapter.placeOf id).parts := fun _ ↦ entryAt_placeOf hroot hnamed
  have hquarantine : ∀ place, tree.EntryAt (adapter.quarantineOf id) place →
      place = (adapter.quarantineOf id).parts := fun _ ↦ entryAt_quarantineOf hroot hnamed
  obtain ⟨call, answer⟩ := event
  cases call with
  | unlink removed =>
    obtain rfl : removed = _ := h
    exact (hacts.unlink_sameOutside hquarantine).mono (Set.subset_insert _ _)
  | rmtree removed =>
    obtain rfl : removed = _ := h
    exact (Removes.sameOutside hacts hquarantine).mono (Set.subset_insert _ _)
  | rename source target =>
    rcases h with ⟨rfl, rfl⟩ | ⟨rfl, rfl⟩
    · exact hacts.rename_sameOutside hplace hquarantine
    · rw [ownEntries, Set.pair_comm]
      exact hacts.rename_sameOutside hquarantine hplace
  | _ =>
    obtain ⟨rfl, -⟩ := hacts.of_looks h
    exact FileTree.sameOutside_refl _ _

/-- The root stays a directory when only entries of it change. -/
theorem root_of_sameOutside (hroot : tree.node adapter.root.parts = some .dir)
    (h : tree.SameOutside (adapter.ownEntries id) tree') :
    tree'.node adapter.root.parts = some .dir := by
  rw [h.node_eq fun _ hp ↦ not_ownEntry_before_root hp, hroot]

/-- How far a release has come: it has only looked, or it acts below a real root. -/
def Progress (adapter : LocalGitWorkspace) (id : WorkspaceId) (tree : HostTree) (before : OsLog)
    (current : HostTree) : Prop :=
  (current = tree ∧ ∀ e ∈ before, Shows tree e) ∨
    (current.node adapter.root.parts = some .dir ∧
      tree.SameOutside (adapter.ownEntries id) current)

theorem Progress.step {current next : HostTree} (hnamed : adapter.root.Named)
    (h : adapter.Progress id tree before current) (hevent : adapter.Releases id before event)
    (hacts : Acts work current event next) : adapter.Progress id tree (before ++ [event]) next := by
  cases hevent with
  | looks hlooks =>
    obtain ⟨rfl, hshows⟩ := hacts.of_looks hlooks
    refine h.imp (fun ⟨heq, hbefore⟩ ↦ ⟨heq, fun e he ↦ ?_⟩) fun hcurrent ↦ hcurrent
    rcases List.mem_append.mp he with he | he
    · exact hbefore e he
    · rw [List.mem_singleton.mp he, ← heq]
      exact hshows
  | detaches hintact hdetaches =>
    have hcurrent : current.node adapter.root.parts = some .dir ∧
        tree.SameOutside (adapter.ownEntries id) current := by
      rcases h with ⟨rfl, hshows⟩ | hcurrent
      · exact ⟨root_of_intact hintact hshows, FileTree.sameOutside_refl _ _⟩
      · exact hcurrent
    have hsame := hdetaches.sameOutside hcurrent.1 hnamed hacts
    exact .inr ⟨root_of_sameOutside hcurrent.1 hsame, hcurrent.2.trans hsame⟩

theorem obeys_release (workspace : WorkspaceIdentity) (r : Registry) :
    (adapter.release workspace).Obeys (adapter.Releases workspace.workspaceId) r := by
  refine Method.Obeys.bind Method.obeys_get fun l registry s hget ↦ ?_
  obtain ⟨rfl, hregistry, rfl⟩ := Method.returns_get.mp hget
  obtain rfl := Except.ok.inj hregistry
  split
  · exact Method.obeys_pure _
  · exact .ite (fun _ ↦ Method.obeys_raise _) fun _ ↦ obeys_releaseRecord _

/-- However far a release has come, nothing but the two entries of its workspace has changed. -/
theorem release_sameOutside {workspace : WorkspaceIdentity} {r : Registry}
    {u : Interaction OsCall OsCall.Answer (Except Exc Unit × Registry)}
    (hnamed : adapter.root.Named) (h : (adapter.release workspace r).Leads log u)
    (hsteps : Steps (Acts work) tree log tree') :
    tree.SameOutside (adapter.ownEntries workspace.workspaceId) tree' := by
  have hprogress : adapter.Progress workspace.workspaceId tree log tree' :=
    Interaction.Obeys.steps (obeys_release workspace r) h hsteps (.inl ⟨rfl, by simp⟩)
      fun hJ hrule hacts ↦ hJ.step hnamed hrule hacts
  rcases hprogress with ⟨rfl, -⟩ | ⟨-, hsame⟩
  · exact FileTree.sameOutside_refl _ _
  · exact hsame

/-! ## Discarding -/

/-- A call by which `prepare` discards something: any removal but that of a control directory. -/
def Discards (before : OsLog) : OsCall → Prop
  | .unlink _ | .rename _ _ => True
  | .rmtree path => ∀ stem dir, ⟨.mkdtemp stem dir, .ok path⟩ ∉ before
  | _ => False

/-- The files of a host on which nobody takes the root of the workspaces away. -/
def Rooted (adapter : LocalGitWorkspace) (work : HostTree → HostTree → Prop) (tree : HostTree)
    (event : Event OsCall.Answer) (tree' : HostTree) : Prop :=
  tree.node adapter.root.parts = some .dir ∧ Acts work tree event tree'

theorem Rooted.resolved (hnamed : adapter.root.Named)
    (h : Steps (adapter.Rooted work) tree before tree') {parent : Path}
    (hparent : ⟨.resolve adapter.root, .ok parent⟩ ∈ before) : parent = adapter.root := by
  obtain ⟨m, m', hroot, hacts⟩ := h.exists_of_mem hparent
  have hleads : m.Leads adapter.root parent.parts := (hacts.of_looks trivial).2
  exact Path.ext
    ((HostTree.leads_of_settled (FileTree.settled_of_dir hroot) hnamed).mp hleads)

/-- What `prepare` discards is what stands under the name it has reserved. -/
theorem discard_sameOutside {fuel : ℕ} {identity : RunIdentity} {r : Registry}
    {u : Interaction OsCall OsCall.Answer (Except Exc WorkspaceIdentity × Registry)}
    {current next : HostTree} (hnamed : adapter.root.Named)
    (h : (adapter.prepare fuel identity r).Leads (before ++ event :: after) u)
    (hsteps : Steps (adapter.Rooted work) tree before current)
    (hevent : adapter.Rooted work current event next) (hdiscards : Discards before event.1) :
    ∃ id, adapter.Reserved id before ∧
      current.SameOutside {(adapter.placeOf id).parts} next := by
  have howned : ∀ {path}, adapter.prepareScope.owned before path →
      ∃ id, adapter.Reserved id before ∧ path = adapter.placeOf id := by
    rintro path ⟨id, hreserved, rfl | ⟨parent, hparent, rfl⟩⟩
    · exact ⟨id, hreserved, rfl⟩
    · rw [Rooted.resolved hnamed hsteps hparent]
      exact ⟨id, hreserved, rfl⟩
  obtain ⟨hroot, hacts⟩ := hevent
  cases obeys_prepare identity r before event after u h with
  | looks hlooks =>
    obtain ⟨call, answer⟩ := event
    cases call <;> first | exact hdiscards.elim | exact hlooks.elim
  | handed | mkdtemp | mkdir => exact hdiscards.elim
  | works hworks =>
    obtain ⟨call, answer⟩ := event
    cases call <;> first | exact hdiscards.elim | exact hworks.elim
  | sweep hcontrol => exact absurd hcontrol (hdiscards _ _)
  | unlink hpath =>
    obtain ⟨id, hreserved, rfl⟩ := howned hpath
    exact ⟨id, hreserved, hacts.unlink_sameOutside fun _ ↦ entryAt_placeOf hroot hnamed⟩
  | rmtree hpath =>
    obtain ⟨id, hreserved, rfl⟩ := howned hpath
    exact ⟨id, hreserved, Removes.sameOutside hacts fun _ ↦ entryAt_placeOf hroot hnamed⟩

/-- **A removal touches the two entries of its own workspace, and nothing else.**  At every point of
a release, whatever stands at the entries or anywhere else, nothing is different outside them;
whatever a failing `prepare` discards, it discards under the name it has reserved; and so the
source, every protected root, and the entries of every other workspace keep all they have. -/
theorem removal_confined (adapter : LocalGitWorkspace) (work : HostTree → HostTree → Prop)
    (hnamed : adapter.root.Named) :
    (∀ workspace r log u tree tree', (adapter.release workspace r).Leads log u →
      Steps (Acts work) tree log tree' →
        tree.SameOutside (adapter.ownEntries workspace.workspaceId) tree') ∧
    (∀ fuel identity r before event after u tree current next,
      (adapter.prepare fuel identity r).Leads (before ++ event :: after) u →
        Steps (adapter.Rooted work) tree before current → adapter.Rooted work current event next →
          Discards before event.1 → ∃ id, ⟨.newWorkspaceId, .ok id⟩ ∈ before ∧
            current.SameOutside {(adapter.placeOf id).parts} next) ∧
    ∀ id (tree tree' : HostTree), tree.SameOutside (adapter.ownEntries id) tree' →
      (∀ protectedRoot ∈ adapter.source :: adapter.protectedRoots,
        tree.SameAt protectedRoot.parts tree') ∧
      ∀ other, other ≠ id → ∀ place ∈ adapter.ownEntries other, tree.SameAt place tree' := by
  refine ⟨fun workspace r log u tree tree' ↦ release_sameOutside hnamed, ?_,
    fun id tree tree' ↦ sameAt_of_ownEntries⟩
  intro fuel identity r before event after u tree current next h hsteps hevent hdiscards
  obtain ⟨id, hreserved, hsame⟩ := discard_sameOutside hnamed h hsteps hevent hdiscards
  exact ⟨id, hreserved.handed, hsame⟩

end LocalGitWorkspace

/-- The registry with the workspace of the disk. -/
def localRegistry : Registry :=
  Registry.empty.publish
    ⟨localIdentity, localWorkspace.placeOf localIdentity.workspaceId, sha256 ⟨#[]⟩⟩

/-- A host on which children do nothing and write what Git would. -/
def localHost : FileHost localNames := ⟨fun _ ↦ none, fun _ disk ↦ disk, headOutput⟩

/-- A released workspace is gone, and the repository is untouched. -/
theorem removal_confined_released : ∃ log tree registry,
    (localWorkspace.release localIdentity).Returns localRegistry log (.ok ()) registry ∧
      localDisk.tree.node ["work", "workspace-1", "notes"] ≠ none ∧
      tree.node ["work", "workspace-1", "notes"] = none ∧
      localDisk.tree.SameAt ["repo"] tree := by
  let t := localWorkspace.release localIdentity localRegistry
  have hplay : (t.play localHost.answer (localDisk, [])).2.map Prod.fst = some (.ok ()) := by
    decide +kernel
  obtain ⟨registry, hreturns⟩ :=
    Method.returns_play (m := localWorkspace.release localIdentity) (s := localRegistry) hplay
  have hup : text ".." ∉ localNames := by decide
  have hsteps : Steps (Acts Eq) localDisk.tree (t.play localHost.answer (localDisk, [])).1
      (t.playEnd localHost.answer (localDisk, [])).1.tree :=
    localHost.steps_play hup (fun _ ↦ rfl) (fun _ _ ↦ rfl) t (localDisk, [])
  obtain ⟨hrelease, -, hkept⟩ := LocalGitWorkspace.removal_confined localWorkspace Eq (by decide)
  have hsame := hrelease _ _ _ _ _ _ hreturns hsteps
  exact ⟨_, _, registry, hreturns, by decide +kernel, by decide +kernel,
    (hkept _ _ _ hsame).1 ⟨["repo"]⟩ (by decide)⟩

end Alicerce
