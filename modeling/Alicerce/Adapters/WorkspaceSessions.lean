import Alicerce.Adapters.Construction
import Alicerce.Adapters.GitSessions
import Alicerce.Adapters.LinkValidation
import Alicerce.Adapters.Preparation

/-!
# What an adapter ever changes

An adapter is asked for one operation after another, while others may be at work between them.

* `Request` is what it is asked for, and `Request.Owns` are the entries of the root that may change:
  those of its own workspace, and control directories.
* `workspaceScope` is the one scope every operation keeps within (`Request.keeps`).
* `Tame`: what Git does while it runs is a parameter, of which is asked that the root stays a
  directory and that no entry of it is made a link.
* `Surveyed` is what is known of the files during a request, and `Surveyed.step` that it stays
  known.
* `sessions_confined`: the root is a directory in every state of a session, from the construction of
  the adapter on, and what nobody else changes keeps all it has: the source, every protected root,
  and the workspaces that no operation was about.
-/

set_option autoImplicit false

namespace Alicerce

open Py Lib

/-- A wider scope allows more. -/
theorem Scope.Allows.mono {scope scope' : Scope} {before : OsLog} {event : Event OsCall.Answer}
    (hhome : ∀ dir, scope.home before dir → scope'.home before dir)
    (howned : ∀ path, scope.owned before path → scope'.owned before path)
    (hruns : scope.runs before → scope'.runs before) (h : scope.Allows before event) :
    scope'.Allows before event := by
  cases h with
  | looks hlooks => exact .looks hlooks
  | handed hfirst answer => exact .handed hfirst answer
  | works hworks hruns' => exact .works hworks (hruns hruns')
  | mkdtemp hstem hdir answer => exact .mkdtemp hstem (hhome _ hdir) answer
  | mkdir hname hcontrol answer => exact .mkdir hname hcontrol answer
  | sweep hcontrol answer => exact .sweep hcontrol answer
  | unlink hpath answer => exact .unlink (howned _ hpath) answer
  | rmtree hpath answer => exact .rmtree (howned _ hpath) answer

namespace LocalGitWorkspace

variable {adapter : LocalGitWorkspace} {fuel : ℕ} {log before : OsLog} {id : WorkspaceId}
  {r : Registry} {record : WorkspaceRecord} {workspace : WorkspaceIdentity}

/-! ## One scope for all operations -/

/-- Where the place of a workspace resolved to, once it was seen to be no link. -/
def Visited (adapter : LocalGitWorkspace) (id : WorkspaceId) (log : OsLog) (trusted : Path) :
    Prop :=
  ∃ front back, log = front ++ ⟨.resolve (adapter.placeOf id), .ok trusted⟩ :: back ∧
    ⟨.isSymlink (adapter.placeOf id), .ok false⟩ ∈ front

theorem Visited.append {trusted : Path} (h : adapter.Visited id log trusted) (log' : OsLog) :
    adapter.Visited id (log ++ log') trusted := by
  obtain ⟨front, back, rfl, hunlinked⟩ := h
  exact ⟨front, back ++ log', by rw [List.append_assoc, List.cons_append], hunlinked⟩

/-- What the operations may touch. -/
def workspaceScope (adapter : LocalGitWorkspace) : Scope where
  home log dir := ∃ id, (∃ parent, ⟨.resolve adapter.root, .ok parent⟩ ∈ log ∧
      dir = (parent.join id.value).parent) ∨
    ∃ trusted, adapter.Visited id log trusted ∧ dir = trusted.parent
  owned log path := ∃ id, ⟨.newWorkspaceId, .ok id⟩ ∈ log ∧ (path = adapter.placeOf id ∨
    ∃ parent, ⟨.resolve adapter.root, .ok parent⟩ ∈ log ∧ path = parent.join id.value)
  runs _ := True
  home_append log' := by
    rintro ⟨id, ⟨parent, hparent, rfl⟩ | ⟨trusted, htrusted, rfl⟩⟩
    · exact ⟨id, .inl ⟨parent, List.mem_append_left _ hparent, rfl⟩⟩
    · exact ⟨id, .inr ⟨trusted, htrusted.append log', rfl⟩⟩
  owned_append log' := by
    rintro ⟨id, hhanded, rfl | ⟨parent, hparent, rfl⟩⟩
    · exact ⟨id, List.mem_append_left _ hhanded, .inl rfl⟩
    · exact ⟨id, List.mem_append_left _ hhanded, .inr ⟨parent, List.mem_append_left _ hparent, rfl⟩⟩
  runs_append _ h := h

/-- What `prepare` may touch is within. -/
theorem allows_of_prepareScope {event : Event OsCall.Answer}
    (h : adapter.prepareScope.Allows before event) :
      adapter.workspaceScope.Allows before event := by
  refine h.mono ?_ ?_ fun _ ↦ trivial
  · rintro dir ⟨id, -, ⟨parent, hparent, rfl⟩ | ⟨trusted, ⟨front, back, rfl, hreserved⟩, rfl⟩⟩
    · exact ⟨id, .inl ⟨parent, hparent, rfl⟩⟩
    · exact ⟨id, .inr ⟨trusted, ⟨front, back, rfl, hreserved.unlinked⟩, rfl⟩⟩
  · rintro path ⟨id, hreserved, hpath⟩
    exact ⟨id, hreserved.handed, hpath⟩

/-- Where a workspace is that was seen to be no link, control directories may be made beside it. -/
theorem home_of_unlinked (hunlinked : ⟨.isSymlink (adapter.placeOf id), .ok false⟩ ∈ before)
    {l : OsLog} {trusted : Path} (h : ⟨.resolve (adapter.placeOf id), .ok trusted⟩ ∈ l) :
    adapter.workspaceScope.home (before ++ l) trusted.parent := by
  obtain ⟨front, back, rfl⟩ := List.append_of_mem h
  exact ⟨id, .inr ⟨trusted, ⟨before ++ front, back, (List.append_assoc ..).symm,
    List.mem_append_left _ hunlinked⟩, rfl⟩⟩

/-- What passes its validation is in its place, and was seen to be no link. -/
theorem place_of_validateRecord {u : Unit}
    (h : (adapter.validateRecord fuel record).Returns log (.ok u)) :
    record.path = adapter.placeOf record.identity.workspaceId ∧
      ⟨.isSymlink (adapter.placeOf record.identity.workspaceId), .ok false⟩ ∈ log := by
  obtain ⟨seen, rest, rfl, -, -, hlink, -⟩ := seen_of_validateRecord h
  refine ⟨?_, List.mem_append_left _ hlink⟩
  obtain ⟨_, _, _, -, -, h⟩ := Action.returns_bind_ok.mp h
  obtain ⟨_, _, _, -, hplace, h⟩ := Action.returns_bind_ok.mp h
  obtain ⟨rfl, heq⟩ := Action.returns_lift.mp hplace
  obtain rfl := Except.ok.inj (heq.trans (pathFor_eq _))
  split at h
  · exact absurd (Action.returns_raise.mp h).2 (by simp)
  · rename_i hpath
    exact not_not.mp hpath

/-- A workspace is validated in the scope. -/
theorem keeps_validateRecord :
    adapter.workspaceScope.Keeps before (adapter.validateRecord fuel record) := by
  refine (Scope.keeps_of_watches (watches_assertRootIntegrity adapter)).bind fun l _ _ ↦ ?_
  refine Scope.Keeps.bind (Action.obeys_lift _) fun l₁ path hplace ↦ ?_
  obtain ⟨rfl, heq⟩ := Action.returns_lift.mp hplace
  obtain rfl := Except.ok.inj (heq.trans (pathFor_eq _))
  refine .ite (fun _ ↦ Scope.keeps_raise _) fun hpath ↦ ?_
  have hpath := not_not.mp hpath
  have hchecks : Watches (Os.or (Os.isSymlink record.path) (Os.or
      (do return !(← Os.isDir record.path)) (pure (decide (adapter.IsProtected record.path))))) :=
    Os.calls_or (watches_ask (by trivial))
      (Os.calls_or (Os.calls_not (watches_ask (by trivial))) trivial)
  refine (Scope.keeps_of_watches hchecks).bind fun l₂ refused hor ↦
    .ite (fun _ ↦ Scope.keeps_raise _) fun hrefused ↦ ?_
  obtain rfl : refused = false := by simpa using hrefused
  obtain ⟨m₁, m₂, rfl, hlink, -⟩ := returns_or_false hor
  obtain rfl := returns_isSymlink hlink
  refine (Scope.keeps_of_watches (watches_validateSymlinks _)).bind fun l₃ _ _ ↦
    (Scope.keeps_of_watches (watches_configDigest _)).bind fun l₄ digest _ ↦
      .ite (fun _ ↦ Scope.keeps_raise _) fun _ ↦ ?_
  refine Scope.Keeps.translate (Scope.Keeps.discard
    (Scope.keeps_verifyBaseline trivial fun l trusted htrusted ↦ ?_))
  rw [hpath] at htrusted
  exact home_of_unlinked (by simp [hpath]) htrusted

theorem keeps_snapshot (workspace : WorkspaceIdentity) (r : Registry) :
    (adapter.snapshot fuel workspace).Obeys adapter.workspaceScope.Allows r := by
  refine Method.Obeys.bind Method.obeys_get fun l registry s hget ↦ ?_
  obtain ⟨rfl, -, rfl⟩ := Method.returns_get.mp hget
  refine Method.obeys_perform ?_
  change adapter.workspaceScope.Keeps [] _
  refine Scope.Keeps.bind (Action.obeys_lift _) fun l record _ ↦
    keeps_validateRecord.bind fun l₁ u hvalid ↦ ?_
  obtain ⟨hpath, hunlinked⟩ := place_of_validateRecord hvalid
  refine Scope.Keeps.bind (Scope.Keeps.translate ?_) fun _ _ _ ↦ Scope.keeps_pure _
  refine Scope.Keeps.bind (Scope.keeps_snapshotCandidate trivial fun l₂ trusted htrusted ↦ ?_)
    fun l₂ _ _ ↦ keeps_validateRecord.bind fun _ _ _ ↦ Scope.keeps_pure _
  rw [hpath] at htrusted
  exact home_of_unlinked (List.mem_append_right _ hunlinked) htrusted

theorem keeps_load (id : WorkspaceId) (r : Registry) :
    (adapter.load fuel id).Obeys adapter.workspaceScope.Allows r := by
  refine Method.Obeys.bind Method.obeys_get fun l registry s hget ↦ ?_
  obtain ⟨rfl, -, rfl⟩ := Method.returns_get.mp hget
  split
  · exact Method.obeys_pure _
  · exact Scope.keepsIn_perform_bind keeps_validateRecord fun _ _ _ ↦ Method.obeys_pure _

theorem keeps_enterLease (workspace : WorkspaceIdentity) (r : Registry) :
    adapter.workspaceScope.Keeps [] (adapter.enterLease fuel r workspace) :=
  Scope.Keeps.bind (Action.obeys_lift _) fun _ _ _ ↦
    keeps_validateRecord.bind fun _ _ _ ↦ Scope.keeps_pure _

/-! ## Requests -/

/-- What an adapter is asked for.  A lease is asked for twice, as its body runs in between. -/
inductive Request
  | prepare (identity : RunIdentity)
  | load (id : WorkspaceId)
  | snapshot (workspace : WorkspaceIdentity)
  | release (workspace : WorkspaceIdentity)
  | enterLease (workspace : WorkspaceIdentity)
  | leaveLease (record : WorkspaceRecord)

/-- What it then does, less what it returns. -/
def Request.method (adapter : LocalGitWorkspace) (fuel : ℕ) : Request → RegistryMethod Unit
  | .prepare identity => do discard (adapter.prepare fuel identity)
  | .load id => do discard (adapter.load fuel id)
  | .snapshot workspace => do discard (adapter.snapshot fuel workspace)
  | .release workspace => adapter.release workspace
  | .enterLease workspace => do
    let registry ← .get
    .perform (discard (adapter.enterLease fuel registry workspace))
  | .leaveLease record => .perform (adapter.validateRecord fuel record)

/-- A request is about a workspace: its id was handed out, or it is to be released. -/
def Request.IsAbout (request : Request) (log : OsLog) (id : WorkspaceId) : Prop :=
  ⟨.newWorkspaceId, .ok id⟩ ∈ log ∨
    ∃ workspace, request = .release workspace ∧ workspace.workspaceId = id

/-- The names of the entries that may change: control directories, and those of the own
workspace. -/
def Request.Owns (request : Request) (log : OsLog) (name : Text) : Prop :=
  Scope.controlStem <+: name ∨
    ∃ id, request.IsAbout log id ∧ (name = id.value ∨ name = text ".release-" ++ id.value)

/-- **Every request is met within the scope**, but a release, which runs no Git. -/
theorem Request.keeps {request : Request} (h : ∀ workspace, request ≠ .release workspace) :
    (request.method adapter fuel).Obeys adapter.workspaceScope.Allows r := by
  cases request with
  | prepare identity =>
    refine Method.Obeys.bind ?_ fun _ _ _ _ ↦ Method.obeys_pure _
    exact Interaction.Obeys.mono (obeys_prepare identity r) fun _ _ ↦ allows_of_prepareScope
  | load id => exact (keeps_load id r).bind fun _ _ _ _ ↦ Method.obeys_pure _
  | snapshot workspace => exact (keeps_snapshot workspace r).bind fun _ _ _ _ ↦ Method.obeys_pure _
  | release workspace => exact absurd rfl (h workspace)
  | enterLease workspace =>
    refine Method.Obeys.bind Method.obeys_get fun l registry s hget ↦ ?_
    obtain ⟨rfl, -, rfl⟩ := Method.returns_get.mp hget
    have henter : adapter.workspaceScope.Keeps [] (adapter.enterLease fuel registry workspace) :=
      keeps_enterLease workspace registry
    exact Method.obeys_perform henter.discard
  | leaveLease record =>
    have hvalidate : adapter.workspaceScope.Keeps [] (adapter.validateRecord fuel record) :=
      keeps_validateRecord
    exact Method.obeys_perform hvalidate

/-! ## One call -/

/-- While a child runs, the root stays a directory, and no entry of it is made a link. -/
structure Tame (adapter : LocalGitWorkspace) (tree tree' : HostTree) : Prop where
  root : tree.node adapter.root.parts = some .dir → tree'.node adapter.root.parts = some .dir
  noLink : ∀ name, tree'.LinkAt (adapter.root.parts ++ [name]) →
    tree.LinkAt (adapter.root.parts ++ [name])

/-- What is known of the files during a request. -/
structure Surveyed (adapter : LocalGitWorkspace) (log : OsLog) (tree : HostTree) : Prop where
  root : tree.node adapter.root.parts = some .dir
  resolved : ∀ parent, ⟨.resolve adapter.root, .ok parent⟩ ∈ log → parent = adapter.root
  controls : ∀ stem dir control, ⟨.mkdtemp stem dir, .ok control⟩ ∈ log →
    ∃ name, Scope.controlStem <+: name ∧ control = ⟨adapter.root.parts ++ [name]⟩ ∧
      ¬tree.LinkAt (adapter.root.parts ++ [name])
  unlinked : ∀ id, ⟨.isSymlink (adapter.placeOf id), .ok false⟩ ∈ log →
    ¬tree.LinkAt (entryOf adapter.root id)
  visited : ∀ id trusted, adapter.Visited id log trusted → trusted = adapter.placeOf id

/-- The entries of the root that have certain names. -/
def entries (adapter : LocalGitWorkspace) (names : Text → Prop) : Set (List Text) :=
  {place | ∃ name, names name ∧ place = adapter.root.parts ++ [name]}

section Call

variable {work : HostTree → HostTree → Prop} {tree tree' : HostTree} {event : Event OsCall.Answer}

/-- The names of the entries a call may change. -/
def Names (log : OsLog) (name : Text) : Prop :=
  Scope.controlStem <+: name ∨ ∃ id, ⟨.newWorkspaceId, .ok id⟩ ∈ log ∧ name = id.value

theorem surveyed_nil (h : tree.node adapter.root.parts = some .dir) : adapter.Surveyed [] tree where
  root := h
  resolved _ h := absurd h (by simp)
  controls _ _ _ h := absurd h (by simp)
  unlinked _ h := absurd h (by simp)
  visited _ _ h := by
    obtain ⟨front, back, hnil, -⟩ := h
    exact absurd hnil (by simp)

/-- A control directory is made in the root. -/
theorem Surveyed.home (h : adapter.Surveyed log tree) {dir : Path}
    (hdir : adapter.workspaceScope.home log dir) : dir = adapter.root := by
  obtain ⟨id, ⟨parent, hparent, rfl⟩ | ⟨trusted, htrusted, rfl⟩⟩ := hdir
  · rw [h.resolved parent hparent]
    exact placeOf_parent id
  · rw [h.visited id trusted htrusted]
    exact placeOf_parent id

/-- What is removed is the entry of an id that was handed out. -/
theorem Surveyed.owned (h : adapter.Surveyed log tree) {path : Path}
    (hpath : adapter.workspaceScope.owned log path) :
    ∃ id, ⟨.newWorkspaceId, .ok id⟩ ∈ log ∧ path = ⟨adapter.root.parts ++ [id.value]⟩ := by
  obtain ⟨id, hhanded, rfl | ⟨parent, hparent, rfl⟩⟩ := hpath
  · exact ⟨id, hhanded, placeOf_eq adapter id⟩
  · rw [h.resolved parent hparent]
    exact ⟨id, hhanded, placeOf_eq adapter id⟩

/-- An entry of the root is not above it. -/
theorem not_entry_before_root {names : Text → Prop} {place : List Text}
    (h : place ∈ adapter.entries names) : ¬place <+: adapter.root.parts := by
  obtain ⟨name, -, rfl⟩ := h
  intro hbefore
  have hlength := hbefore.length_le
  simp at hlength

/-- The root stays where only entries of it change. -/
theorem root_of_entries {names : Text → Prop} (hroot : tree.node adapter.root.parts = some .dir)
    (h : tree.SameOutside (adapter.entries names) tree') :
    tree'.node adapter.root.parts = some .dir := by
  rw [h.node_eq fun _ hp ↦ not_entry_before_root hp, hroot]

/-- A change at or below one entry. -/
theorem sameOutside_entry {names : Text → Prop} {name : Text} {rest : List Text}
    (hname : names name) (h : tree.SameOutside {adapter.root.parts ++ name :: rest} tree') :
    tree.SameOutside (adapter.entries names) tree' := by
  intro q hq
  refine h q fun p hp hbefore ↦ hq _ ⟨name, hname, rfl⟩ ?_
  rw [Set.mem_singleton_iff.mp hp, List.append_cons] at hbefore
  exact (List.prefix_append _ _).trans hbefore

/-- **A call in the scope** that is the adapter's own changes entries of the root that are named by
what has happened, and makes none a link. -/
theorem changes_of_allows (hnamed : adapter.root.Named) (h : adapter.Surveyed log tree)
    (hallows : adapter.workspaceScope.Allows log event) (hown : ¬event.1.Works)
    (hacts : Acts work tree event tree') : tree.SameOutside (adapter.entries (Names log)) tree' ∧
      ∀ name, tree'.LinkAt (adapter.root.parts ++ [name]) →
        tree.LinkAt (adapter.root.parts ++ [name]) := by
  have hsame : tree.SameOutside (adapter.entries (Names log)) tree ∧
      ∀ name, tree.LinkAt (adapter.root.parts ++ [name]) →
      tree.LinkAt (adapter.root.parts ++ [name]) :=
    ⟨FileTree.sameOutside_refl _ _, fun _ hlink ↦ hlink⟩
  have hremoval : ∀ name, Names log name →
      (tree' = tree ∨ tree.Shrinks (adapter.root.parts ++ [name]) tree') →
        tree.SameOutside (adapter.entries (Names log)) tree' ∧
          ∀ name, tree'.LinkAt (adapter.root.parts ++ [name]) →
            tree.LinkAt (adapter.root.parts ++ [name]) := by
    rintro name hname (rfl | hshrinks)
    · exact hsame
    · exact ⟨sameOutside_entry hname hshrinks.same, fun _ ↦ linkAt_of_shrinks hshrinks⟩
  cases hallows with
  | looks hlooks =>
    obtain ⟨rfl, -⟩ := hacts.of_looks hlooks
    exact hsame
  | handed =>
    obtain ⟨rfl, -⟩ := hacts
    exact hsame
  | works hworks => exact absurd hworks hown
  | mkdtemp hstem hdir answer =>
    cases answer with
    | error e =>
      obtain ⟨rfl, -⟩ := hacts
      exact hsame
    | ok path =>
      obtain ⟨suffix, place, -, rfl, hentry, hgains⟩ := hacts
      obtain rfl := h.home hdir
      obtain rfl := HostTree.entryAt_of_dir h.root hnamed hentry
      exact ⟨sameOutside_entry (.inl (hstem.trans (List.prefix_append _ suffix)))
        hgains.sameOutside, fun _ ↦ linkAt_of_gains hgains⟩
  | @mkdir stem name dir control hname hcontrol answer =>
    cases answer with
    | error e =>
      obtain ⟨rfl, -⟩ := hacts
      exact hsame
    | ok u =>
      obtain ⟨place, hentry, hgains⟩ := hacts
      obtain ⟨last, hlast, rfl, hnolink⟩ := h.controls stem dir control hcontrol
      rw [Path.join_of_isName hname] at hentry
      obtain ⟨above, end_, front, hparts, hleads, rfl⟩ := hentry
      obtain ⟨rfl, hend⟩ := List.append_inj' hparts rfl
      -- the control directory is no link, so that it is where its name says
      obtain rfl := leads_entry h.root hnamed (ne_dotdot_of_control hlast) hnolink hleads
      have hmade := hgains.sameOutside
      rw [List.append_assoc, List.singleton_append] at hmade
      exact ⟨sameOutside_entry (.inl hlast) hmade, fun _ ↦ linkAt_of_gains hgains⟩
  | @sweep stem dir control hcontrol answer =>
    obtain ⟨last, hlast, rfl, -⟩ := h.controls stem dir control hcontrol
    exact hremoval last (.inl hlast) (shrinks_of_removes h.root hnamed hacts)
  | unlink hpath answer =>
    obtain ⟨id, hhanded, rfl⟩ := h.owned hpath
    exact hremoval _ (.inr ⟨id, hhanded, rfl⟩) (shrinks_of_unlink h.root hnamed hacts)
  | rmtree hpath answer =>
    obtain ⟨id, hhanded, rfl⟩ := h.owned hpath
    exact hremoval _ (.inr ⟨id, hhanded, rfl⟩) (shrinks_of_removes h.root hnamed hacts)

/-- A call in the scope, or what Git does during one, makes no entry of the root a link. -/
theorem tame_of_allows (hnamed : adapter.root.Named) (h : adapter.Surveyed log tree)
    (hwork : ∀ t t', work t t' → adapter.Tame t t')
    (hallows : adapter.workspaceScope.Allows log event) (hacts : Acts work tree event tree') :
    adapter.Tame tree tree' := by
  by_cases hworks : event.1.Works
  · exact hwork _ _ ((acts_works hworks).mp hacts)
  · obtain ⟨hchanges, hnoLink⟩ := changes_of_allows hnamed h hallows hworks hacts
    exact ⟨fun hroot ↦ root_of_entries hroot hchanges, hnoLink⟩

/-- **What is known of the files stays known**, and is known of each event in turn. -/
theorem Surveyed.step (h : adapter.Surveyed log tree) (hnamed : adapter.root.Named)
    (hwork : ∀ t t', work t t' → adapter.Tame t t')
    (hallows : adapter.workspaceScope.Allows log event) (hacts : Acts work tree event tree') :
    adapter.Surveyed (log ++ [event]) tree' := by
  have htame := tame_of_allows hnamed h hwork hallows hacts
  refine ⟨htame.root h.root, fun parent hmem ↦ ?_, fun stem dir control hmem ↦ ?_, fun id hmem ↦ ?_,
    fun id trusted hvisited ↦ ?_⟩
  · rcases mem_concat.mp hmem with hmem | rfl
    · exact h.resolved parent hmem
    · have hleads : tree.Leads adapter.root parent.parts := hacts.2
      exact Path.ext ((HostTree.leads_of_settled (FileTree.settled_of_dir h.root) hnamed).mp hleads)
  · rcases mem_concat.mp hmem with hmem | rfl
    · obtain ⟨name, hname, rfl, hnolink⟩ := h.controls stem dir control hmem
      exact ⟨name, hname, rfl, mt (htame.noLink name) hnolink⟩
    · obtain ⟨suffix, place, -, rfl, hentry, hgains⟩ := hacts
      cases hallows with
      | looks hlooks => exact hlooks.elim
      | works hworks => exact hworks.elim
      | mkdtemp hstem hdir =>
        obtain rfl := h.home hdir
        obtain rfl := HostTree.entryAt_of_dir h.root hnamed hentry
        exact ⟨_, hstem.trans (List.prefix_append _ _), rfl,
          HostTree.not_linkAt_of_node hgains.made fun h ↦ h⟩
  · rcases mem_concat.mp hmem with hmem | rfl
    · exact mt (htame.noLink id.value) (h.unlinked id hmem)
    · obtain ⟨rfl, hshows⟩ := hacts
      have hnot := Shows.not_link hshows
      rwa [placeOf_eq] at hnot
  · obtain ⟨front, back, hlog, hunlinked⟩ := hvisited
    rcases List.eq_nil_or_concat back with rfl | ⟨init, last, rfl⟩
    · obtain ⟨rfl, hevent⟩ := List.append_inj' hlog rfl
      obtain rfl := (List.cons.inj hevent).1
      have hleads : tree.Leads (adapter.placeOf id) trusted.parts := hacts.2
      rw [placeOf_eq] at hleads ⊢
      exact Path.ext (leads_entry h.root hnamed (WorkspaceId.head_ne_dot id _)
        (h.unlinked id hunlinked) hleads)
    · refine h.visited id trusted ⟨front, init, ?_, hunlinked⟩
      rw [List.concat_eq_append, ← List.cons_append, ← List.append_assoc] at hlog
      exact (List.append_inj' hlog rfl).1

end Call

/-! ## One request -/

section Request

variable {work : HostTree → HostTree → Prop} {tree tree' current next : HostTree}
  {event : Event OsCall.Answer} {after : OsLog} {request : Request}
  {u : Interaction OsCall OsCall.Answer (Except Exc Unit × Registry)}

/-- The names a request owns are those its calls are about. -/
theorem Request.owns_of_names {name : Text} (h : Names before name) (log : OsLog) :
    request.Owns (before ++ log) name :=
  h.imp_right fun ⟨id, hhanded, hname⟩ ↦ ⟨id, .inl (List.mem_append_left _ hhanded), .inl hname⟩

theorem ownEntries_subset (workspace : WorkspaceIdentity) (log : OsLog) :
    adapter.ownEntries workspace.workspaceId ⊆
      adapter.entries ((Request.release workspace).Owns log) := by
  intro place hplace
  obtain ⟨name, hname, rfl⟩ := mem_ownEntries.mp hplace
  exact ⟨name, .inr ⟨workspace.workspaceId, .inr ⟨workspace, rfl, rfl⟩, hname⟩, rfl⟩

/-- How far a request has come that is met in the scope. -/
theorem surveyed_of_leads (hnamed : adapter.root.Named)
    (hwork : ∀ t t', work t t' → adapter.Tame t t')
    (hrelease : ∀ workspace, request ≠ .release workspace)
    (hlead : (request.method adapter fuel r).Leads (before ++ after) u)
    (hroot : tree.node adapter.root.parts = some .dir)
    (hsteps : Steps (Acts work) tree before tree') : adapter.Surveyed before tree' := by
  obtain ⟨v, hfront, -⟩ := Interaction.leads_append.mp hlead
  exact Interaction.Obeys.steps (Request.keeps hrelease) hfront hsteps (surveyed_nil hroot)
    fun hsurveyed hallows hacts ↦ hsurveyed.step hnamed hwork hallows hacts

/-- **A call of the adapter itself changes what its request owns, and nothing else.** -/
theorem Request.changes (hnamed : adapter.root.Named)
    (hwork : ∀ t t', work t t' → adapter.Tame t t')
    (hlead : (request.method adapter fuel r).Leads (before ++ event :: after) u)
    (hroot : tree.node adapter.root.parts = some .dir)
    (hsteps : Steps (Acts work) tree before current) (hacts : Acts work current event next)
    (hown : ¬event.1.Works) :
    current.SameOutside (adapter.entries (request.Owns (before ++ event :: after))) next := by
  by_cases hrelease : ∀ workspace, request ≠ .release workspace
  · have hsurveyed := surveyed_of_leads hnamed hwork hrelease hlead hroot hsteps
    have hallows := Request.keeps hrelease before event after u hlead
    refine (changes_of_allows hnamed hsurveyed hallows hown hacts).1.mono ?_
    rintro place ⟨name, hname, rfl⟩
    exact ⟨name, Request.owns_of_names hname _, rfl⟩
  · obtain ⟨workspace, hrequest⟩ := not_forall.mp hrelease
    obtain rfl := not_not.mp hrequest
    refine FileTree.SameOutside.mono ?_ (ownEntries_subset workspace _)
    have hreleases := obeys_release workspace r before event after u hlead
    have hprogress : adapter.Progress workspace.workspaceId tree before current := by
      obtain ⟨v, hfront, -⟩ := Interaction.leads_append.mp hlead
      exact Interaction.Obeys.steps (obeys_release workspace r) hfront hsteps (.inl ⟨rfl, by simp⟩)
        fun hJ hrule hacts ↦ hJ.step hnamed hrule hacts
    cases hreleases with
    | looks hlooks =>
      obtain ⟨rfl, -⟩ := hacts.of_looks hlooks
      exact FileTree.sameOutside_refl _ _
    | detaches hintact hdetaches =>
      refine hdetaches.sameOutside ?_ hnamed hacts
      rcases hprogress with ⟨rfl, -⟩ | ⟨hcurrent, -⟩
      · exact hroot
      · exact hcurrent

/-- While a request is met, the root stays a directory. -/
theorem Request.root (hnamed : adapter.root.Named) (hwork : ∀ t t', work t t' → adapter.Tame t t')
    (hlead : (request.method adapter fuel r).Leads log u)
    (hroot : tree.node adapter.root.parts = some .dir) (hsteps : Steps (Acts work) tree log tree') :
    tree'.node adapter.root.parts = some .dir := by
  by_cases hrelease : ∀ workspace, request ≠ .release workspace
  · rw [← List.append_nil log] at hlead
    exact (surveyed_of_leads hnamed hwork hrelease hlead hroot hsteps).root
  · obtain ⟨workspace, hrequest⟩ := not_forall.mp hrelease
    obtain rfl := not_not.mp hrequest
    exact root_of_sameOutside hroot (release_sameOutside hnamed hlead hsteps)

/-- What a request does not own, and Git leaves alone, keeps its content. -/
theorem Request.sameAt {place : List Text} (hnamed : adapter.root.Named)
    (hwork : ∀ t t', work t t' → adapter.Tame t t' ∧ t.SameAt place t')
    (hlead : (request.method adapter fuel r).Leads log u)
    (hroot : tree.node adapter.root.parts = some .dir) (hsteps : Steps (Acts work) tree log tree')
    (hplace : ∀ p ∈ adapter.entries (request.Owns log), FileTree.Apart place p) :
    tree.SameAt place tree' := by
  have htame : ∀ t t', work t t' → adapter.Tame t t' := fun t t' h ↦ (hwork t t' h).1
  -- the induction is on the calls that were made
  suffices hall : ∀ before after, log = before ++ after → ∀ m, Steps (Acts work) tree before m →
      tree.SameAt place m from hall log [] (List.append_nil log).symm tree' hsteps
  intro before
  induction before using List.reverseRecOn with
  | nil => exact fun _ _ m hm ↦ Steps.nil_iff.mp hm ▸ FileTree.sameAt_refl _ _
  | append_singleton before event ih =>
    intro after hlog m hm
    obtain ⟨current, hbefore, hlast⟩ := Steps.append_iff.mp hm
    obtain ⟨next, hacts, hnil⟩ := Steps.cons_iff.mp hlast
    obtain rfl := Steps.nil_iff.mp hnil
    rw [List.append_assoc] at hlog
    refine (ih _ hlog current hbefore).trans ?_
    by_cases hworks : event.1.Works
    · exact (hwork _ _ ((acts_works hworks).mp hacts)).2
    · subst hlog
      exact (Request.changes hnamed htame hlead hroot hbefore hacts hworks).sameAt hplace

end Request

/-! ## Sessions -/

section Sessions

variable {work others : HostTree → HostTree → Prop} {tree tree₀ tree₁ tree₂ tree' : HostTree}
  {requests : List (Request × OsLog)} {s s' : Registry × HostTree} {place : List Text}

/-- A request is met, after others have been at work. -/
def Meets (adapter : LocalGitWorkspace) (work others : HostTree → HostTree → Prop)
    (s : Registry × HostTree) (request : Request × OsLog) (s' : Registry × HostTree) : Prop :=
  ∃ fuel x tree, others s.2 tree ∧ (request.1.method adapter fuel).Returns s.1 request.2 x s'.1 ∧
    Steps (Acts work) tree request.2 s'.2

/-- The root is a directory in every state of a session. -/
theorem session_root (hnamed : adapter.root.Named) (hwork : ∀ t t', work t t' → adapter.Tame t t')
    (hothers : ∀ t t', others t t' → t.node adapter.root.parts = some .dir →
      t'.node adapter.root.parts = some .dir)
    (hrun : Steps (adapter.Meets work others) s requests s')
    (hroot : s.2.node adapter.root.parts = some .dir) : s'.2.node adapter.root.parts = some .dir :=
  hrun.preserves (P := fun s ↦ s.2.node adapter.root.parts = some .dir)
    (fun hroot ⟨_, _, _, hbefore, hreturns, hsteps⟩ ↦
      Request.root hnamed hwork hreturns (hothers _ _ hbefore hroot) hsteps) hroot

/-- What nobody else changes, and no request owns, keeps its content in a session. -/
theorem session_sameAt (hnamed : adapter.root.Named)
    (hwork : ∀ t t', work t t' → adapter.Tame t t' ∧ t.SameAt place t')
    (hothers : ∀ t t', others t t' → (t.node adapter.root.parts = some .dir →
      t'.node adapter.root.parts = some .dir) ∧ t.SameAt place t')
    (hrun : Steps (adapter.Meets work others) s requests s')
    (hroot : s.2.node adapter.root.parts = some .dir)
    (hplace : ∀ request ∈ requests, ∀ p ∈ adapter.entries (request.1.Owns request.2),
      FileTree.Apart place p) : s.2.SameAt place s'.2 := by
  induction hrun with
  | nil => exact FileTree.sameAt_refl _ _
  | cons head tail ih =>
    obtain ⟨fuel, x, tree, hbefore, hreturns, hsteps⟩ := head
    obtain ⟨hfirst, hrest⟩ := List.forall_mem_cons.mp hplace
    obtain ⟨hkept, hsame⟩ := hothers _ _ hbefore
    have hmet := Request.sameAt hnamed hwork hreturns (hkept hroot) hsteps hfirst
    have hroot' := Request.root hnamed (fun t t' h ↦ (hwork t t' h).1) hreturns (hkept hroot) hsteps
    exact (hsame.trans hmet).trans (ih hroot' hrest)

/-! ### What is apart from what requests own -/

/-- The names of control directories are none of a workspace's own. -/
theorem ne_own_of_control {name : Text} (h : Scope.controlStem <+: name) (id : WorkspaceId) :
    name ≠ id.value ∧ name ≠ text ".release-" ++ id.value := by
  refine ⟨ne_value_of_control h id, ?_⟩
  rintro rfl
  obtain ⟨rest, hrest⟩ := h
  exact absurd hrest (by simp [Scope.controlStem, text])

/-- The entries of a workspace are apart from what is owned by requests that are not about it. -/
theorem apart_of_not_isAbout {request : Request} {id : WorkspaceId} (h : ¬request.IsAbout log id)
    (hown : place ∈ adapter.ownEntries id) :
    ∀ p ∈ adapter.entries (request.Owns log), FileTree.Apart place p := by
  rintro p ⟨name, hname | ⟨other, habout, hname⟩, rfl⟩
  · obtain ⟨own, hname', rfl⟩ := mem_ownEntries.mp hown
    obtain ⟨hne, hne'⟩ := ne_own_of_control hname id
    refine FileTree.apart_of_ne ?_
    rcases hname' with rfl | rfl
    · exact hne.symm
    · exact hne'.symm
  · have hne : id ≠ other := fun heq ↦ h (heq ▸ habout)
    exact apart_ownEntries hne hown (mem_ownEntries.mpr ⟨name, hname, rfl⟩)

/-! ### From the construction on -/

/-- What was seen to be a directory, where a path leads, is one. -/
theorem dir_of_directoryLog {path resolved : Path} (hproper : tree.Proper)
    (hshows : ∀ e ∈ directoryLog path resolved, Shows tree e) :
    resolved.Named ∧ tree.node resolved.parts = some .dir := by
  have hleads : tree.Leads path resolved.parts :=
    hshows ⟨.resolve path, .ok resolved⟩ (by simp [directoryLog])
  have hdir := (hshows ⟨.isDir resolved, .ok true⟩ (by simp [directoryLog])).1 rfl
  have hsettled : tree.Settled resolved.parts := FileTree.Walks.settled hleads .root
  obtain ⟨n, hn, -⟩ := id hsettled
  have hnamed : resolved.Named := hproper.named hn
  obtain ⟨place, hplace, hnode⟩ := hdir
  obtain rfl := (HostTree.leads_of_settled hsettled hnamed).mp hplace
  exact ⟨hnamed, hnode⟩

/-- An adapter is constructed with real directories. -/
theorem dir_of_new {sourceRepository workspaceRoot : Path} {protectedRoots : List Path}
    {git : ControlledGitCli} (hproper : tree.Proper)
    (h : (new sourceRepository workspaceRoot protectedRoots git).Returns log (.ok adapter))
    (hsteps : Steps (Acts work) tree log tree') : tree' = tree ∧
      ∀ path ∈ adapter.root :: adapter.source :: adapter.protectedRoots,
        path.Named ∧ tree.node path.parts = some .dir := by
  obtain ⟨rfl, hshows⟩ := tree_eq_of_still (fun h ↦ h) hsteps (still_of_watches watches_new h)
  refine ⟨rfl, fun resolved hmem ↦ ?_⟩
  obtain ⟨path, -, hlog⟩ := (new_returns h).2 resolved hmem
  exact dir_of_directoryLog hproper fun e he ↦ hshows e (hlog he)

/-- **What an adapter changes, from its construction on.**  The root is a directory in every state
of every session.  A call of the adapter itself changes entries of the root only: control
directories, and those of the workspace its request is about.  So the source and every protected
root keep all they have, if only Git and others leave them alone, and so does every workspace that
no request was about. -/
theorem sessions_confined {sourceRepository workspaceRoot : Path} {protectedRoots : List Path}
    {git : ControlledGitCli} {log last : OsLog} {request : Request} {r : Registry}
    {u : Interaction OsCall OsCall.Answer (Except Exc Unit × Registry)} (hproper : tree.Proper)
    (hnew : (new sourceRepository workspaceRoot protectedRoots git).Returns log (.ok adapter))
    (hbuilt : Steps (Acts work) tree log tree₀) (hwork : ∀ t t', work t t' → adapter.Tame t t')
    (hothers : ∀ t t', others t t' → t.node adapter.root.parts = some .dir →
      t'.node adapter.root.parts = some .dir)
    (hrun : Steps (adapter.Meets work others) (.empty, tree₀) requests (r, tree₁))
    (hbefore : others tree₁ tree₂) (hlead : (request.method adapter fuel r).Leads last u)
    (hsteps : Steps (Acts work) tree₂ last tree') :
    tree'.node adapter.root.parts = some .dir ∧
    (∀ before event after current next, last = before ++ event :: after →
      Steps (Acts work) tree₂ before current → Acts work current event next → ¬event.1.Works →
        current.SameOutside (adapter.entries (request.Owns last)) next) ∧
    ∀ place, (∀ t t', work t t' ∨ others t t' → t.SameAt place t') →
      ((∃ protectedRoot ∈ adapter.source :: adapter.protectedRoots, place = protectedRoot.parts) ∨
        ∃ id, place ∈ adapter.ownEntries id ∧
          ∀ met ∈ requests ++ [(request, last)], ¬met.1.IsAbout met.2 id) →
      tree.SameAt place tree' := by
  obtain ⟨rfl, hdirs⟩ := dir_of_new hproper hnew hbuilt
  obtain ⟨hnamed, hroot⟩ := hdirs adapter.root List.mem_cons_self
  have hroot₁ : tree₁.node adapter.root.parts = some .dir :=
    session_root hnamed hwork hothers hrun hroot
  have hroot₂ := hothers _ _ hbefore hroot₁
  refine ⟨Request.root hnamed hwork hlead hroot₂ hsteps, ?_, fun place hleft hplace ↦ ?_⟩
  · rintro before event after current next rfl hfront hacts hown
    exact Request.changes hnamed hwork hlead hroot₂ hfront hacts hown
  have hapart : ∀ met ∈ requests ++ [(request, last)],
      ∀ p ∈ adapter.entries (met.1.Owns met.2), FileTree.Apart place p := by
    intro met hmet
    rcases hplace with ⟨protectedRoot, hprotected, rfl⟩ | ⟨id, hown, hnone⟩
    · rintro p ⟨name, -, rfl⟩
      exact apart_protected hprotected name
    · exact apart_of_not_isAbout (hnone met hmet) hown
  obtain ⟨hfront, hlast⟩ := List.forall_mem_append.mp hapart
  have hsession : tree₀.SameAt place tree₁ := session_sameAt hnamed
    (fun t t' h ↦ ⟨hwork t t' h, hleft t t' (.inl h)⟩)
    (fun t t' h ↦ ⟨hothers t t' h, hleft t t' (.inr h)⟩) hrun hroot hfront
  have hrequest : tree₂.SameAt place tree' := Request.sameAt hnamed
    (fun t t' h ↦ ⟨hwork t t' h, hleft t t' (.inl h)⟩) hlead hroot₂ hsteps
    (hlast _ (List.mem_singleton_self _))
  exact (hsession.trans (hleft _ _ (.inr hbefore))).trans hrequest

end Sessions

end LocalGitWorkspace

/-! ## A session -/

/-- What Git does that leaves the repository alone. -/
def SparesRepository (tree tree' : HostTree) : Prop :=
  localWorkspace.Tame tree tree' ∧ tree.SameAt localWorkspace.source.parts tree'

theorem sparesRepository_refl (tree : HostTree) : SparesRepository tree tree :=
  ⟨⟨id, fun _ ↦ id⟩, FileTree.sameAt_refl _ _⟩

theorem SparesRepository.trans {tree tree' tree'' : HostTree} (h : SparesRepository tree tree')
    (h' : SparesRepository tree' tree'') : SparesRepository tree tree'' :=
  ⟨⟨fun hroot ↦ h'.1.root (h.1.root hroot), fun name hlink ↦
    h.1.noLink name (h'.1.noLink name hlink)⟩, h.2.trans h'.2⟩

theorem sparesRepository_put {disk : Disk localNames} {place : List Text} {n : Node Text Bytes}
    (hplace : localWorkspace.root.parts <+: place) (hne : place ≠ localWorkspace.root.parts)
    (hn : ¬n.IsLink) : SparesRepository disk.tree (disk.put ⟨place⟩ n).tree := by
  have hnode := disk.node_put ⟨place⟩ n
  refine ⟨⟨fun hroot ↦ ?_, fun name hlink ↦ ?_⟩, fun rest ↦ ?_⟩
  · rcases hnode localWorkspace.root.parts with hsame | ⟨heq, -⟩
    · rw [hsame, hroot]
    · exact absurd heq.symm hne
  · obtain ⟨m, hm, hislink⟩ := hlink
    rcases hnode (localWorkspace.root.parts ++ [name]) with hsame | ⟨-, hnew⟩
    · exact ⟨m, hsame ▸ hm, hislink⟩
    · rw [hnew] at hm
      exact absurd (Option.some.inj hm ▸ hislink) hn
  · rcases hnode (localWorkspace.source.parts ++ rest) with hsame | ⟨heq, -⟩
    · exact hsame
    · obtain ⟨below, rfl⟩ := hplace
      exact absurd (List.cons.inj heq).1 (by decide)

theorem sparesRepository_cloned (disk : Disk localNames) : SparesRepository disk.tree
    (cloned (entryOf localWorkspace.root localIdentity.workspaceId) disk).tree :=
  ((sparesRepository_put (n := .dir) (by decide) (by decide) fun h ↦ h).trans
    (sparesRepository_put (n := .dir) (by decide) (by decide) fun h ↦ h)).trans
      (sparesRepository_put (n := .file ⟨#[]⟩) (by decide) (by decide) fun h ↦ h)

/-- An adapter is constructed, and asked for a workspace; the repository stays as it was. -/
theorem sessions_confined_prepared : ∃ log last r tree',
    (LocalGitWorkspace.new localWorkspace.source localWorkspace.root [] localGit).Returns log
      (.ok localWorkspace) ∧
    ((LocalGitWorkspace.Request.prepare localRun).method localWorkspace 100).Returns .empty last
      (.ok ()) r ∧
    Steps (Acts SparesRepository) arenaDisk.tree (log ++ last) tree' ∧
    tree'.node (localWorkspace.placeOf localIdentity.workspaceId).parts = some .dir ∧
    arenaDisk.tree.SameAt localWorkspace.source.parts tree' := by
  let host := reportingHost headOutput
  let build : Os LocalGitWorkspace :=
    LocalGitWorkspace.new localWorkspace.source localWorkspace.root [] localGit
  let prepared := (LocalGitWorkspace.Request.prepare localRun).method localWorkspace 100
  have hup : text ".." ∉ localNames := by decide
  have heffect : ∀ argv (disk : Disk localNames),
      SparesRepository disk.tree (host.effect argv disk).tree := by
    intro argv disk
    change SparesRepository disk.tree (if _ then _ else _ : Disk localNames).tree
    split
    · exact sparesRepository_cloned disk
    · exact sparesRepository_refl _
  have hsteps : ∀ {α : Type} (t : Interaction OsCall OsCall.Answer α) state,
      Steps (Acts SparesRepository) state.1.tree (t.play host.answer state).1
        (t.playEnd host.answer state).1.tree :=
    host.steps_play hup (fun _ ↦ sparesRepository_refl _) heffect
  have hnew : build.Returns (Interaction.play host.answer build (arenaDisk, [])).1
      (.ok localWorkspace) := Interaction.returns_play rfl
  have hbuilt := hsteps build (arenaDisk, [])
  have hkept : (Interaction.playEnd host.answer build (arenaDisk, [])).1 = arenaDisk := rfl
  have hplay : ((prepared .empty).play host.answer (arenaDisk, [])).2.map Prod.fst =
      some (.ok ()) := by
    decide +kernel
  obtain ⟨r, hreturns⟩ := Method.returns_play (m := prepared) hplay
  have hnames : ∀ name ∈ localNames, IsName name ∧ name ≠ text ".." := by decide
  have hproper : arenaDisk.tree.Proper := fun _ name _ h ↦ hnames name (arenaDisk.known h)
  have hlast := hsteps (prepared .empty) (arenaDisk, [])
  rw [hkept] at hbuilt
  have hrun : Steps (localWorkspace.Meets SparesRepository Eq) (.empty, arenaDisk.tree) []
      (.empty, arenaDisk.tree) := .nil _
  have hothers : ∀ t t' : HostTree, t = t' → t.node localWorkspace.root.parts = some .dir →
      t'.node localWorkspace.root.parts = some .dir := fun _ _ heq hroot ↦ heq ▸ hroot
  obtain ⟨-, -, hsame⟩ := LocalGitWorkspace.sessions_confined hproper hnew hbuilt (fun _ _ h ↦ h.1)
    hothers hrun rfl hreturns hlast
  refine ⟨_, _, r, _, hnew, hreturns, Steps.append_iff.mpr ⟨_, hbuilt, hlast⟩, by decide +kernel,
    hsame _ (fun t t' h ↦ ?_) (.inl ⟨_, List.mem_cons_self, rfl⟩)⟩
  rcases h with h | rfl
  · exact h.2
  · exact FileTree.sameAt_refl _ _

end Alicerce
