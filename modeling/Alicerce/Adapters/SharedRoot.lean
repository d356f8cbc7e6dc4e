import Alicerce.Adapters.WorkspaceRemoval
import Alicerce.Lib.Interleaving

/-!
# Instances that share a root

Several instances of the adapter over one workspace root, each with its own registry and at most one
`prepare` under way; their calls meet on one file tree, in any order.

* `Site` is the tree, with a note of who made each workspace directory that is there.
* `GitWorks`: Git works where it is told to, at the entry of the id that was handed out, and inside
  control directories.
* `Found`: a call *finds* its id when it was handed out and its place was seen not to exist.
  `obeys_ordered` says that `prepare` reserves an id in order.
* `Race` is the group of instances, `OrderlyStep` a step after which no two have found the same id,
  and `Inv` what holds in every state then (`inv_of_steps`).  There is a lemma for each kind of
  move: a call of an instance (`Inv.act`), and a start or an end of one.
* `prepares_exclusive`: no instance touches a directory another one has made, and the one that comes
  too late says so.
-/

set_option autoImplicit false

namespace Alicerce

open Py Lib

namespace LocalGitWorkspace

variable {adapter : LocalGitWorkspace} {fuel : ℕ} {log before after : OsLog} {id : WorkspaceId}

/-! ## The order of a reservation -/

/-- The id was handed out, and nothing was found at its place. -/
structure Found (adapter : LocalGitWorkspace) (id : WorkspaceId) (log : OsLog) : Prop where
  handed : ⟨.newWorkspaceId, .ok id⟩ ∈ log
  absent : ⟨.pathExists (adapter.placeOf id), .ok false⟩ ∈ log

theorem Found.append (h : adapter.Found id log) (log' : OsLog) : adapter.Found id (log ++ log') :=
  ⟨List.mem_append_left _ h.handed, List.mem_append_left _ h.absent⟩

theorem Reserved.found (h : adapter.Reserved id log) : adapter.Found id log := ⟨h.handed, h.absent⟩

/-- A call that neither asks for an id nor looks at the place of one. -/
def Preliminary (adapter : LocalGitWorkspace) (c : OsCall) : Prop :=
  c ≠ .newWorkspaceId ∧
    ∀ id, c ≠ .pathExists (adapter.placeOf id) ∧ c ≠ .isSymlink (adapter.placeOf id)

/-- An id is asked for once, when the root was found intact and no place was looked at; and whether
its place is a link is asked when it was found not to exist. -/
structure Ordered (adapter : LocalGitWorkspace) (before : OsLog) (event : Event OsCall.Answer) :
    Prop where
  first : event.1 = .newWorkspaceId →
    adapter.Intact before ∧ ∀ e ∈ before, adapter.Preliminary e.1
  second : ∀ id, event.1 = .isSymlink (adapter.placeOf id) → ⟨.newWorkspaceId, .ok id⟩ ∈ before →
    ⟨.pathExists (adapter.placeOf id), .ok false⟩ ∈ before

theorem placeOf_ne_root (id : WorkspaceId) : adapter.root ≠ adapter.placeOf id := by
  intro h
  have hlength := congrArg (fun path ↦ path.parts.length) h
  simp [placeOf_parts] at hlength

theorem preliminary_assertRootIntegrity (adapter : LocalGitWorkspace) :
    adapter.assertRootIntegrity.Calls adapter.Preliminary := by
  have hask : ∀ {α : Type} {c : OsCall} {r : c.Answer → Except Exc α}, adapter.Preliminary c →
      (.ask c r : Os α).Calls adapter.Preliminary := fun h ↦ Action.calls_ask.mpr h
  have hlink : adapter.Preliminary (.isSymlink adapter.root) :=
    ⟨by simp, fun id ↦ ⟨by simp, by simpa using placeOf_ne_root id⟩⟩
  refine (Os.calls_translate (hask (by simp [Preliminary]))).bind fun _ ↦ .bind ?_ fun _ ↦
    .ite trivial trivial
  exact Os.calls_or (hask hlink) (Os.calls_or (Os.calls_not (hask (by simp [Preliminary]))) trivial)

/-- What is done once an id was found is in order. -/
theorem ordered_of_allows (hfound : adapter.Found id log)
    (honly : ∀ id', ⟨.newWorkspaceId, .ok id'⟩ ∈ log → id' = id) {α : Type} {p : Os α}
    (hp : adapter.prepareScope.Keeps log p) : p.Obeys (Rule.behind adapter.Ordered log) := by
  -- no id is asked for again
  have hnone : ∀ before event after u, p.Leads (before ++ event :: after) u →
      event.1 ≠ .newWorkspaceId := by
    intro before event after u h hevent
    have hlooks : ∀ e ∈ log ++ before, e.1.Looks := by
      obtain ⟨call, answer⟩ := event
      cases hevent
      cases hp before _ after u h with
      | looks hlooks => exact hlooks.elim
      | handed hfirst => exact hfirst
      | works hworks => exact hworks.elim
    exact hlooks _ (List.mem_append_left _ hfound.handed)
  intro before event after u h
  refine ⟨fun hevent ↦ absurd hevent (hnone before event after u h), fun id' hevent hhanded ↦ ?_⟩
  rcases List.mem_append.mp hhanded with hhanded | hhanded
  · obtain rfl := honly id' hhanded
    exact List.mem_append_left _ hfound.absent
  · obtain ⟨front, back, rfl⟩ := List.append_of_mem hhanded
    refine absurd rfl (hnone front ⟨.newWorkspaceId, .ok id'⟩ (back ++ event :: after) u ?_)
    rwa [List.append_assoc] at h

/-- **`prepare` reserves an id in order.** -/
theorem obeys_ordered (identity : RunIdentity) (r : Registry) :
    (adapter.prepare fuel identity).Obeys adapter.Ordered r := by
  have hroot : adapter.assertRootIntegrity.Obeys adapter.Ordered :=
    Action.Calls.obeys_all (preliminary_assertRootIntegrity adapter)
      fun before event hbefore hevent ↦
      ⟨fun h ↦ absurd h hevent.1, fun id' _ hhanded ↦ absurd rfl (hbefore _ hhanded).1⟩
  refine Method.obeys_perform_bind hroot fun l _ hreturns ↦ ?_
  have hintact : adapter.Intact l := intact_of_returns hreturns
  have hroots : ∀ e ∈ l, adapter.Preliminary e.1 :=
    (preliminary_assertRootIntegrity adapter).leads hreturns
  -- reading the registry is no event
  change Method.Obeys (Rule.behind adapter.Ordered l) _ r
  refine Method.Obeys.ite (fun _ ↦ Method.obeys_raise _) fun _ ↦ ?_
  have hnew : newWorkspaceId.Obeys (Rule.behind adapter.Ordered l) :=
    Action.obeys_ask fun answer ↦ by
    rw [Rule.behind, List.append_nil]
    exact ⟨fun _ ↦ ⟨hintact, hroots⟩, fun _ h ↦ absurd h (by simp)⟩
  refine Method.obeys_perform_bind hnew fun l₁ id hid ↦ ?_
  refine Method.obeys_perform_bind (Action.obeys_lift _) fun l₂ destination hplace ↦ ?_
  obtain ⟨rfl, heq⟩ := Action.returns_lift.mp hplace
  obtain rfl := Except.ok.inj (heq.trans (pathFor_eq id))
  obtain ⟨answer, rfl, hanswer⟩ := Action.returns_ask.mp hid
  obtain rfl : answer = .ok id := hanswer.symm
  have honly : ∀ id', (⟨.newWorkspaceId, .ok id'⟩ : Event OsCall.Answer) ∈
      l ++ [⟨.newWorkspaceId, .ok id⟩] → id' = id := by
    intro id' hhanded
    rcases List.mem_append.mp hhanded with hhanded | hhanded
    · exact absurd rfl (hroots _ hhanded).1
    · simpa using hhanded
  rw [← Rule.behind_append, ← Rule.behind_append, List.append_nil]
  have hlook : (Os.or (pure (r.records id).isSome) (Os.or (Os.pathExists (adapter.placeOf id))
      (Os.isSymlink (adapter.placeOf id)))).Obeys
        (Rule.behind adapter.Ordered (l ++ [⟨.newWorkspaceId, .ok id⟩])) := by
    refine Action.Obeys.bind (Action.obeys_pure _) fun l₃ b hb ↦ .ite (fun _ ↦ Action.obeys_pure _)
      fun _ ↦ ?_
    obtain ⟨rfl, -⟩ := Action.returns_pure.mp hb
    refine Action.Obeys.bind (Action.obeys_ask fun answer ↦ ⟨fun h ↦ absurd h (by simp),
      fun _ h ↦ absurd h (by simp)⟩) fun l₄ b' hexists ↦ .ite (fun _ ↦ Action.obeys_pure _)
        fun hb' ↦ Action.obeys_ask fun answer ↦ ⟨fun h ↦ absurd h (by simp), fun id' h hhanded ↦ ?_⟩
    obtain rfl : b' = false := by simpa using hb'
    obtain rfl := returns_pathExists hexists
    have hid' : id' = id := by
      refine honly id' ?_
      simpa using hhanded
    subst hid'
    simp
  refine Method.obeys_perform_bind hlook fun l₃ occupied hocc ↦ ?_
  refine Method.Obeys.ite (fun _ ↦ Method.obeys_raise _) fun hfree ↦ ?_
  obtain rfl : occupied = false := by simpa using hfree
  have hreserved : adapter.Reserved id (l ++ [⟨.newWorkspaceId, .ok id⟩] ++ l₃) :=
    reserved_of_returns hintact hid hocc
  have honly' : ∀ id', (⟨.newWorkspaceId, .ok id'⟩ : Event OsCall.Answer) ∈
      l ++ [⟨.newWorkspaceId, .ok id⟩] ++ l₃ → id' = id := by
    intro id' hhanded
    rcases List.mem_append.mp hhanded with hhanded | hhanded
    · exact honly id' hhanded
    · have hwatches : Watches (Os.or (pure (r.records id).isSome)
          (Os.or (Os.pathExists (adapter.placeOf id)) (Os.isSymlink (adapter.placeOf id)))) :=
        Os.calls_or trivial (Os.calls_or (watches_ask (by trivial)) (watches_ask (by trivial)))
      exact (hwatches.leads hocc _ hhanded).elim
  rw [← Rule.behind_append]
  exact Method.obeys_perform_bind
    (ordered_of_allows hreserved.found honly' (keeps_materialize hreserved)) fun _ _ _ ↦
      Method.Obeys.bind (Method.obeys_modify _) fun _ _ _ _ ↦ Method.obeys_pure _

end LocalGitWorkspace

/-! ## Files that are shared -/

/-- The entry of a workspace id in a root. -/
def entryOf (root : Path) (id : WorkspaceId) : List Text := root.parts ++ [id.value]

/-- The files below a shared root, and whose directory is at the entry of an id. -/
structure Site (ι : Type) where
  tree : HostTree
  maker : WorkspaceId → Option ι

/-- The note of makers once an instance has changed the files: what it has brought about at the
entry of an id is its own, and of what is gone there is no maker. -/
def Site.note {ι : Type} (root : Path) (i : ι) (site : Site ι) (tree : HostTree)
    (id : WorkspaceId) :
    Option ι :=
  if (tree.node (entryOf root id)).isNone then none
  else if (site.tree.node (entryOf root id)).isNone then some i
  else site.maker id

/-- Where Git works for a call: at the entry of the id that was handed out, and inside the control
directories that were made. -/
def gitPlaces (root : Path) (log : OsLog) : Set (List Text) :=
  {place | (∃ id, ⟨.newWorkspaceId, .ok id⟩ ∈ log ∧ place = entryOf root id) ∨
    ∃ stem dir control name, ⟨.mkdtemp stem dir, .ok control⟩ ∈ log ∧
      place = control.parts ++ [name]}

/-- What Git does to the files: it works in its places, and does not put a link where the workspace
is to be. -/
structure GitWorks (root : Path) (log : OsLog) (tree tree' : HostTree) : Prop where
  same : tree.SameOutside (gitPlaces root log) tree'
  noLink : ∀ id, ⟨.newWorkspaceId, .ok id⟩ ∈ log → tree'.LinkAt (entryOf root id) →
    tree.LinkAt (entryOf root id)

/-- What a call of an instance does to a shared root. -/
def Shares {ι : Type} (root : Path) (i : ι) (log : OsLog) (site : Site ι)
    (event : Event OsCall.Answer) (site' : Site ι) : Prop :=
  Acts (GitWorks root log) site.tree event site'.tree ∧
    site'.maker = site.note root i site'.tree

/-! ## What a step of one instance touches -/

namespace LocalGitWorkspace

section Footprint

variable {adapter : LocalGitWorkspace} {log : OsLog} {tree tree' : HostTree}
  {event : Event OsCall.Answer} {name : Text} {place : List Text}

theorem placeOf_eq (adapter : LocalGitWorkspace) (id : WorkspaceId) :
    adapter.placeOf id = ⟨entryOf adapter.root id⟩ := Path.ext (placeOf_parts id)

/-- A path to an entry of a real directory that is no link leads there. -/
theorem leads_entry {root : Path} (hroot : tree.node root.parts = some .dir) (hnamed : root.Named)
    (hname : name ≠ text "..") (hlink : ¬tree.LinkAt (root.parts ++ [name]))
    (h : tree.Leads ⟨root.parts ++ [name]⟩ place) : place = root.parts ++ [name] := by
  refine (HostTree.eq_of_leads (FileTree.settled_of_dir hroot) hnamed (fun part hpart ↦ ?_)
    (fun front hne hbefore ↦ ?_) h).1
  · rwa [List.mem_singleton.mp hpart]
  · rcases List.prefix_concat_iff.mp (show front <+: [] ++ [name] from hbefore) with rfl | hnil
    · exact hlink
    · exact absurd (List.prefix_nil.mp hnil) hne

theorem ne_dotdot_of_control (h : Scope.controlStem <+: name) : name ≠ text ".." := by
  rintro rfl
  exact absurd h (by decide)

theorem ne_value_of_control (h : Scope.controlStem <+: name) (id : WorkspaceId) :
    name ≠ id.value := by
  obtain ⟨rest, rfl⟩ := h
  exact (WorkspaceId.head_ne_dot id _).symm

/-- What the log of a call says of the files, once and for all. -/
structure Clear (adapter : LocalGitWorkspace) (log : OsLog) : Prop where
  resolved : ∀ parent, ⟨.resolve adapter.root, .ok parent⟩ ∈ log → parent = adapter.root
  controls : ∀ stem dir control, ⟨.mkdtemp stem dir, .ok control⟩ ∈ log →
    ∃ name, Scope.controlStem <+: name ∧ control = ⟨adapter.root.parts ++ [name]⟩
  trusted : ∀ id trusted, adapter.ResolvedTo id log trusted → trusted = adapter.placeOf id
  once : ∀ id id', ⟨.newWorkspaceId, .ok id⟩ ∈ log → ⟨.newWorkspaceId, .ok id'⟩ ∈ log → id = id'
  ordered : ∀ id, ⟨.newWorkspaceId, .ok id⟩ ∈ log → adapter.Intact log ∧
    (⟨.isSymlink (adapter.placeOf id), .ok false⟩ ∈ log → adapter.Found id log)

/-- A control directory is made in the root. -/
theorem home_eq_root {dir : Path} (h : adapter.Clear log)
    (hdir : adapter.prepareScope.home log dir) : dir = adapter.root := by
  obtain ⟨id, -, ⟨parent, hparent, rfl⟩ | ⟨trusted, htrusted, rfl⟩⟩ := hdir
  · rw [h.resolved parent hparent]
    exact placeOf_parent id
  · rw [h.trusted id trusted htrusted]
    exact placeOf_parent id

/-- What a step of a call leaves alone: all but the entry it has reserved and its control
directories; and no entry of the root becomes a link. -/
structure Footprint (adapter : LocalGitWorkspace) (log : OsLog) (tree tree' : HostTree) : Prop where
  same : ∃ places, tree.SameOutside places tree' ∧ ∀ p ∈ places,
    (∃ id, adapter.Reserved id log ∧ p = entryOf adapter.root id) ∨
      ∃ name rest, Scope.controlStem <+: name ∧ p = adapter.root.parts ++ name :: rest
  noLink : ∀ name, tree'.LinkAt (adapter.root.parts ++ [name]) →
    tree.LinkAt (adapter.root.parts ++ [name])

theorem footprint_refl (tree : HostTree) : adapter.Footprint log tree tree :=
  ⟨⟨∅, FileTree.sameOutside_refl _ _, by simp⟩, fun _ h ↦ h⟩

/-- Nothing of a removal becomes a link. -/
theorem linkAt_of_shrinks {removed : List Text} (h : tree.Shrinks removed tree')
    (hlink : tree'.LinkAt place) : tree.LinkAt place := by
  obtain ⟨n, hn, hislink⟩ := hlink
  rcases h.kept place with hnone | hsame
  · rw [hnone] at hn
    exact absurd hn (by simp)
  · exact ⟨n, hsame ▸ hn, hislink⟩

theorem linkAt_of_gains {made : List Text} (h : tree.Gains made tree')
    (hlink : tree'.LinkAt place) : tree.LinkAt place := by
  obtain ⟨n, hn, hislink⟩ := hlink
  by_cases hplace : place = made
  · rw [hplace, h.made] at hn
    exact absurd hislink (by rw [← Option.some.inj hn]; exact id)
  · exact ⟨n, h.same place hplace ▸ hn, hislink⟩

/-- The step removes at one entry. -/
theorem footprint_of_removal {removed : List Text}
    (hremoved : (∃ id, adapter.Reserved id log ∧ removed = entryOf adapter.root id) ∨
      ∃ name, Scope.controlStem <+: name ∧ removed = adapter.root.parts ++ [name])
    (h : tree' = tree ∨ tree.Shrinks removed tree') : adapter.Footprint log tree tree' := by
  rcases h with rfl | hshrinks
  · exact footprint_refl _
  refine ⟨⟨{removed}, hshrinks.same, fun p hp ↦ ?_⟩, fun _ ↦ linkAt_of_shrinks hshrinks⟩
  rw [Set.mem_singleton_iff.mp hp]
  exact hremoved.imp_right fun ⟨name, hname, heq⟩ ↦ ⟨name, [], hname, heq⟩

/-- What a call owns is the entry it has reserved. -/
theorem owned_entry (hclear : adapter.Clear log) {path : Path}
    (h : adapter.prepareScope.owned log path) :
    ∃ id, adapter.Reserved id log ∧ path = ⟨entryOf adapter.root id⟩ := by
  obtain ⟨id, hreserved, rfl | ⟨parent, hparent, rfl⟩⟩ := h
  · exact ⟨id, hreserved, placeOf_eq adapter id⟩
  · rw [hclear.resolved parent hparent]
    exact ⟨id, hreserved, placeOf_eq adapter id⟩

/-- A recursive removal of an entry of a real directory. -/
theorem shrinks_of_removes {root : Path} {answer : Except OsError Unit}
    (hroot : tree.node root.parts = some .dir) (hnamed : root.Named)
    (h : Removes tree ⟨root.parts ++ [name]⟩ tree' answer) :
    tree' = tree ∨ tree.Shrinks (root.parts ++ [name]) tree' := by
  cases answer with
  | ok u =>
    obtain ⟨place, hentry, -, hloses⟩ := h
    exact .inr (HostTree.entryAt_of_dir hroot hnamed hentry ▸ hloses.shrinks)
  | error e =>
    refine h.imp_right ?_
    rintro ⟨place, hentry, -, hshrinks⟩
    exact HostTree.entryAt_of_dir hroot hnamed hentry ▸ hshrinks

/-- A removal of an entry of a real directory that is no directory itself. -/
theorem shrinks_of_unlink {work : HostTree → HostTree → Prop} {root : Path}
    {answer : Except OsError Unit} (hroot : tree.node root.parts = some .dir) (hnamed : root.Named)
    (h : Acts work tree ⟨.unlink ⟨root.parts ++ [name]⟩, answer⟩ tree') :
    tree' = tree ∨ tree.Shrinks (root.parts ++ [name]) tree' := by
  cases answer with
  | ok u =>
    obtain ⟨place, n, hentry, -, -, hloses⟩ := h
    exact .inr (HostTree.entryAt_of_dir hroot hnamed hentry ▸ hloses.shrinks)
  | error e => exact .inl h.1

/-- A step within what `prepare` may touch leaves the rest alone. -/
theorem footprint_of_allows (hnamed : adapter.root.Named)
    (hroot : tree.node adapter.root.parts = some .dir) (hclear : adapter.Clear log)
    (hcontrols : ∀ stem dir control, ⟨.mkdtemp stem dir, .ok control⟩ ∈ log →
      ¬tree.LinkAt control.parts)
    (h : adapter.prepareScope.Allows log event)
    (hacts : Acts (GitWorks adapter.root log) tree event tree') :
    adapter.Footprint log tree tree' := by
  have hplace : ∀ {name : Text} {place}, tree.EntryAt ⟨adapter.root.parts ++ [name]⟩ place →
      place = adapter.root.parts ++ [name] := HostTree.entryAt_of_dir hroot hnamed
  cases h with
  | looks hlooks =>
    obtain ⟨rfl, -⟩ := hacts.of_looks hlooks
    exact footprint_refl _
  | handed =>
    obtain ⟨rfl, -⟩ := hacts
    exact footprint_refl _
  | works hworks hruns =>
    obtain ⟨id, hreserved⟩ := hruns
    have hgit := (acts_works hworks).mp hacts
    refine ⟨⟨_, hgit.same, ?_⟩, fun name hlink ↦ ?_⟩
    · rintro p (⟨id', hhanded, rfl⟩ | ⟨stem, dir, control, name, hcontrol, rfl⟩)
      · obtain rfl := hclear.once id id' hreserved.handed hhanded
        exact .inl ⟨id, hreserved, rfl⟩
      · obtain ⟨last, hlast, rfl⟩ := hclear.controls stem dir control hcontrol
        exact .inr ⟨last, [name], hlast, by simp⟩
    · by_cases hname : name = id.value
      · subst hname
        exact hgit.noLink id hreserved.handed hlink
      · have hsame : tree'.node (adapter.root.parts ++ [name]) =
            tree.node (adapter.root.parts ++ [name]) := by
          refine hgit.same.node_eq ?_
          rintro p (⟨id', hhanded, rfl⟩ | ⟨stem, dir, control, last, hcontrol, rfl⟩) hbefore
          · obtain rfl := hclear.once id id' hreserved.handed hhanded
            exact (FileTree.apart_of_ne (Ne.symm hname)).1 hbefore
          · obtain ⟨first, -, rfl⟩ := hclear.controls stem dir control hcontrol
            have hlength := hbefore.length_le
            simp at hlength
        obtain ⟨n, hn, hislink⟩ := hlink
        exact ⟨n, hsame ▸ hn, hislink⟩
  | mkdtemp hstem hdir answer =>
    cases answer with
    | error e =>
      obtain ⟨rfl, -⟩ := hacts
      exact footprint_refl _
    | ok path =>
      obtain ⟨suffix, place, -, rfl, hentry, hgains⟩ := hacts
      obtain rfl := home_eq_root hclear hdir
      obtain rfl := hplace hentry
      refine ⟨⟨_, hgains.sameOutside, fun p hp ↦
        .inr ⟨_, [], hstem.trans (List.prefix_append _ suffix),
        Set.mem_singleton_iff.mp hp⟩⟩, fun _ ↦ linkAt_of_gains hgains⟩
  | @mkdir stem name dir control hname hcontrol answer =>
    cases answer with
    | error e =>
      obtain ⟨rfl, -⟩ := hacts
      exact footprint_refl _
    | ok u =>
      obtain ⟨place, hentry, hgains⟩ := hacts
      obtain ⟨last, hlast, rfl⟩ := hclear.controls stem dir control hcontrol
      rw [Path.join_of_isName hname] at hentry
      obtain ⟨above, end_, front, hparts, hleads, rfl⟩ := hentry
      obtain ⟨rfl, hend⟩ := List.append_inj' hparts rfl
      obtain rfl := leads_entry hroot hnamed (ne_dotdot_of_control hlast)
        (hcontrols stem dir _ hcontrol) hleads
      refine ⟨⟨_, hgains.sameOutside, fun p hp ↦ .inr ⟨last, [end_], hlast, ?_⟩⟩, fun _ ↦
        linkAt_of_gains hgains⟩
      rw [Set.mem_singleton_iff.mp hp, List.append_assoc, List.singleton_append]
  | @sweep stem dir control hcontrol answer =>
    obtain ⟨last, hlast, rfl⟩ := hclear.controls stem dir control hcontrol
    exact footprint_of_removal (.inr ⟨last, hlast, rfl⟩) (shrinks_of_removes hroot hnamed hacts)
  | unlink hpath answer =>
    obtain ⟨id, hreserved, rfl⟩ := owned_entry hclear hpath
    exact footprint_of_removal (.inl ⟨id, hreserved, rfl⟩) (shrinks_of_unlink hroot hnamed hacts)
  | rmtree hpath answer =>
    obtain ⟨id, hreserved, rfl⟩ := owned_entry hclear hpath
    exact footprint_of_removal (.inl ⟨id, hreserved, rfl⟩) (shrinks_of_removes hroot hnamed hacts)

end Footprint

/-! ## What a log says of the files -/

section Clear

variable {adapter : LocalGitWorkspace} {log : OsLog} {tree tree' : HostTree}
  {event : Event OsCall.Answer} {id : WorkspaceId}

theorem clear_nil (adapter : LocalGitWorkspace) : adapter.Clear [] where
  resolved _ h := absurd h (by simp)
  controls _ _ _ h := absurd h (by simp)
  trusted _ _ h := by
    obtain ⟨front, back, hnil, -⟩ := h
    exact absurd hnil (by simp)
  once _ _ h := absurd h (by simp)
  ordered _ h := absurd h (by simp)

theorem resolvedTo_concat {trusted : Path} (h : adapter.ResolvedTo id (log ++ [event]) trusted) :
    adapter.ResolvedTo id log trusted ∨
      event = ⟨.resolve (adapter.placeOf id), .ok trusted⟩ ∧ adapter.Reserved id log := by
  obtain ⟨front, back, hlog, hreserved⟩ := h
  rcases List.eq_nil_or_concat back with rfl | ⟨init, last, rfl⟩
  · obtain ⟨rfl, hevent⟩ := List.append_inj' hlog rfl
    exact .inr ⟨(List.cons.inj hevent).1, hreserved⟩
  · refine .inl ⟨front, init, ?_, hreserved⟩
    rw [List.concat_eq_append, ← List.cons_append, ← List.append_assoc] at hlog
    exact (List.append_inj' hlog rfl).1

theorem mem_concat {e : Event OsCall.Answer} : e ∈ log ++ [event] ↔ e ∈ log ∨ e = event := by
  rw [List.mem_append, List.mem_singleton]

/-- What a log says of the files stays said, and is said of each event in turn. -/
theorem Clear.step {work : HostTree → HostTree → Prop} (hclear : adapter.Clear log)
    (hnamed : adapter.root.Named) (hroot : tree.node adapter.root.parts = some .dir)
    (hlinks : ∀ id, adapter.Reserved id log → ¬tree.LinkAt (entryOf adapter.root id))
    (hallows : adapter.prepareScope.Allows log event) (hordered : adapter.Ordered log event)
    (hacts : Acts work tree event tree') : adapter.Clear (log ++ [event]) where
  resolved parent h := by
    rcases mem_concat.mp h with h | rfl
    · exact hclear.resolved parent h
    · have hleads : tree.Leads adapter.root parent.parts := hacts.2
      exact Path.ext ((HostTree.leads_of_settled (FileTree.settled_of_dir hroot) hnamed).mp hleads)
  controls stem dir control h := by
    rcases mem_concat.mp h with h | rfl
    · exact hclear.controls stem dir control h
    · obtain ⟨suffix, place, -, rfl, -, -⟩ := hacts
      cases hallows with
      | looks hlooks => exact hlooks.elim
      | works hworks => exact hworks.elim
      | mkdtemp hstem hdir =>
        exact ⟨_, hstem.trans (List.prefix_append _ _), by rw [home_eq_root hclear hdir]⟩
  trusted id trusted h := by
    rcases resolvedTo_concat h with h | ⟨rfl, hreserved⟩
    · exact hclear.trusted id trusted h
    · have hleads : tree.Leads (adapter.placeOf id) trusted.parts := hacts.2
      rw [placeOf_eq] at hleads ⊢
      exact Path.ext (leads_entry hroot hnamed (WorkspaceId.head_ne_dot id _) (hlinks id hreserved)
        hleads)
  once id id' h h' := by
    rcases mem_concat.mp h with h | rfl <;> rcases mem_concat.mp h' with h' | heq
    · exact hclear.once id id' h h'
    · exact absurd rfl ((hordered.first (by rw [← heq])).2 _ h).1
    · exact absurd rfl ((hordered.first rfl).2 _ h').1
    · simpa using heq.symm
  ordered id h := by
    rcases mem_concat.mp h with hhanded | rfl
    · obtain ⟨hintact, hfound⟩ := hclear.ordered id hhanded
      refine ⟨hintact.append _, fun hlink ↦ ?_⟩
      rcases mem_concat.mp hlink with hlink | rfl
      · exact (hfound hlink).append _
      · exact Found.append ⟨hhanded, hordered.second id rfl hhanded⟩ _
    · refine ⟨(hordered.first rfl).1.append _, fun hlink ↦ ?_⟩
      rcases mem_concat.mp hlink with hlink | heq
      · exact absurd rfl (((hordered.first rfl).2 _ hlink).2 id).2
      · exact absurd heq (by simp)

/-- An id becomes found when its place is seen not to exist. -/
theorem found_concat (hordered : adapter.Ordered log event)
    (h : adapter.Found id (log ++ [event])) :
    adapter.Found id log ∨ event = ⟨.pathExists (adapter.placeOf id), .ok false⟩ := by
  rcases mem_concat.mp h.absent with habsent | heq
  · rcases mem_concat.mp h.handed with hhanded | rfl
    · exact .inl ⟨hhanded, habsent⟩
    · exact absurd rfl (((hordered.first rfl).2 _ habsent).2 id).1
  · exact .inr heq.symm

/-- An id becomes reserved when its place, found not to exist, is seen to be no link. -/
theorem reserved_concat (hclear : adapter.Clear log) (hordered : adapter.Ordered log event)
    (h : adapter.Reserved id (log ++ [event])) : adapter.Reserved id log ∨
      adapter.Found id log ∧ event = ⟨.isSymlink (adapter.placeOf id), .ok false⟩ := by
  rcases mem_concat.mp h.handed with hhanded | rfl
  · rcases mem_concat.mp h.unlinked with hunlinked | heq
    · obtain ⟨hintact, hfound⟩ := hclear.ordered id hhanded
      exact .inl ⟨hintact, hhanded, (hfound hunlinked).absent, hunlinked⟩
    · refine .inr ⟨⟨hhanded, ?_⟩, heq.symm⟩
      exact hordered.second id (by rw [← heq]) hhanded
  · rcases mem_concat.mp h.absent with habsent | heq
    · exact absurd rfl (((hordered.first rfl).2 _ habsent).2 id).1
    · exact absurd heq (by simp)

end Clear

end LocalGitWorkspace

/-! ## Races -/

/-- Instances over one root: their registries, the calls under way, and the files. -/
abbrev Race (ι : Type) := Group ι OsCall.Answer Exc Registry WorkspaceIdentity (Site ι)

/-- What an instance does next. -/
abbrev RaceMove (ι : Type) := Move ι OsCall.Answer Exc Registry WorkspaceIdentity

namespace Race

variable {ι : Type} [DecidableEq ι] {adapter : ι → LocalGitWorkspace} {root : Path}
  {s s' : Race ι} {move : RaceMove ι}

/-- An instance may start a `prepare`. -/
def Startable (adapter : ι → LocalGitWorkspace) (i : ι) (m : RegistryMethod WorkspaceIdentity) :
    Prop :=
  ∃ fuel identity, m = (adapter i).prepare fuel identity

/-- One instance takes one step. -/
def Step (adapter : ι → LocalGitWorkspace) (root : Path) : Race ι → RaceMove ι → Race ι → Prop :=
  Group.Step (Shares root) (Startable adapter)

/-- No two instances have found the same id. -/
def Exclusive (adapter : ι → LocalGitWorkspace) (s : Race ι) : Prop :=
  ∀ i j id, i ≠ j → (adapter i).Found id (s.party i).log → ¬(adapter j).Found id (s.party j).log

/-- The check whether a place is free does not fail. -/
def Answered (adapter : ι → LocalGitWorkspace) (s : Race ι) (move : RaceMove ι) : Prop :=
  ∀ i id error, move = .act i ⟨.pathExists ((adapter i).placeOf id), .error error⟩ ∨
    move = .act i ⟨.isSymlink ((adapter i).placeOf id), .error error⟩ →
      (adapter i).Reserved id (s.party i).log

/-- A step after which no two instances have found the same id, and in which no check whether a
place is free fails. -/
def OrderlyStep (adapter : ι → LocalGitWorkspace) (root : Path) (s : Race ι) (move : RaceMove ι)
    (s' : Race ι) : Prop :=
  Step adapter root s move s' ∧ Exclusive adapter s' ∧ Answered adapter s move

/-- Before any call: a root that is a directory, in which no instance has made anything. -/
structure Fresh (root : Path) (s : Race ι) : Prop where
  idle : ∀ i, s.party i = ⟨(s.party i).own, [], none⟩
  root : s.world.tree.node root.parts = some .dir
  unmade : ∀ id, s.world.maker id = none

/-- What holds in every state of an orderly race. -/
structure Inv (adapter : ι → LocalGitWorkspace) (root : Path) (s : Race ι) : Prop where
  working : s.Working (Startable adapter)
  exclusive : Exclusive adapter s
  rootDir : s.world.tree.node root.parts = some .dir
  clear : ∀ i, (adapter i).Clear (s.party i).log
  controls : ∀ i stem dir control, ⟨.mkdtemp stem dir, .ok control⟩ ∈ (s.party i).log →
    ¬s.world.tree.LinkAt control.parts
  found : ∀ i id, (adapter i).Found id (s.party i).log → ¬(adapter i).Reserved id (s.party i).log →
    ¬s.world.tree.Settled (entryOf root id)
  reserved : ∀ i id, (adapter i).Reserved id (s.party i).log →
    ¬s.world.tree.LinkAt (entryOf root id) ∧ ∀ j, s.world.maker id = some j → j = i
  unmade : ∀ id, s.world.tree.node (entryOf root id) = none → s.world.maker id = none
  answered : ∀ i id error, ⟨.pathExists ((adapter i).placeOf id), .error error⟩ ∈ (s.party i).log ∨
    ⟨.isSymlink ((adapter i).placeOf id), .error error⟩ ∈ (s.party i).log →
      (adapter i).Reserved id (s.party i).log

theorem not_found_nil (adapter : LocalGitWorkspace) (id : WorkspaceId) : ¬adapter.Found id [] :=
  fun h ↦ absurd h.handed (by simp)

omit [DecidableEq ι] in
theorem Fresh.inv (h : Fresh root s) : Inv adapter root s := by
  have hlog : ∀ i, (s.party i).log = [] := fun i ↦ by rw [h.idle i]
  refine ⟨fun i u hu ↦ ?_, fun i j id _ hfound ↦ ?_, h.root, fun i ↦ ?_,
    fun i stem dir control hmem ↦ ?_,
    fun i id hfound ↦ ?_, fun i id hreserved ↦ ?_, fun id _ ↦ h.unmade id, fun i id error hmem ↦ ?_⟩
  · rw [h.idle i] at hu
    exact absurd hu (by simp)
  · rw [hlog] at hfound
    exact absurd hfound (not_found_nil _ _)
  · rw [hlog]
    exact LocalGitWorkspace.clear_nil _
  · rw [hlog] at hmem
    exact absurd hmem (by simp)
  · rw [hlog] at hfound
    exact absurd hfound (not_found_nil _ _)
  · rw [hlog] at hreserved
    exact absurd hreserved.found (not_found_nil _ _)
  · rw [hlog] at hmem
    exact absurd hmem (by simp)

/-- Nothing is lost of what holds when an instance forgets its log. -/
theorem Inv.forget {i : ι} {own : Registry}
    {rest : Option (Interaction OsCall OsCall.Answer (Except Exc WorkspaceIdentity × Registry))}
    (h : Inv adapter root s) (hworking : (s.set i ⟨own, [], rest⟩).Working (Startable adapter)) :
    Inv adapter root (s.set i ⟨own, [], rest⟩) := by
  have hparty : ∀ j, ((s.set i ⟨own, [], rest⟩).party j).log = [] ∨
      ((s.set i ⟨own, [], rest⟩).party j).log = (s.party j).log := by
    intro j
    by_cases hj : j = i
    · subst hj
      exact .inl (by rw [Group.set_party])
    · exact .inr (by rw [Group.set_party_of_ne hj])
  have hfound : ∀ {j id}, (adapter j).Found id ((s.set i ⟨own, [], rest⟩).party j).log →
      ((s.set i ⟨own, [], rest⟩).party j).log = (s.party j).log := by
    intro j id hfound
    rcases hparty j with hnil | hsame
    · rw [hnil] at hfound
      exact absurd hfound (not_found_nil _ _)
    · exact hsame
  refine ⟨hworking, fun j k id hne hj hk ↦ ?_, h.rootDir, fun j ↦ ?_,
    fun j stem dir control hmem ↦ ?_,
    fun j id hj hreserved ↦ ?_, fun j id hreserved ↦ ?_, h.unmade, fun j id error hmem ↦ ?_⟩
  · exact h.exclusive j k id hne (hfound hj ▸ hj) (hfound hk ▸ hk)
  · rcases hparty j with hnil | hsame
    · rw [hnil]
      exact LocalGitWorkspace.clear_nil _
    · rw [hsame]
      exact h.clear j
  · rcases hparty j with hnil | hsame
    · rw [hnil] at hmem
      exact absurd hmem (by simp)
    · rw [hsame] at hmem
      exact h.controls j stem dir control hmem
  · have hsame := hfound hj
    rw [hsame] at hj hreserved
    exact h.found j id hj hreserved
  · have hsame := hfound hreserved.found
    rw [hsame] at hreserved
    exact h.reserved j id hreserved
  · rcases hparty j with hnil | hsame
    · rw [hnil] at hmem
      exact absurd hmem (by simp)
    · rw [hsame] at hmem ⊢
      exact h.answered j id error hmem

/-! ### One call of one instance

What it keeps of the invariant, field by field: for the instance that makes it (`Inv.found_act` and
the like), and for the others (`Inv.found_others`). -/

section Act

variable {i j : ι} {event : Event OsCall.Answer} {site : Site ι} {id : WorkspaceId}
  {rest : Option (Interaction OsCall OsCall.Answer (Except Exc WorkspaceIdentity × Registry))}

/-- The race once an instance has made a call. -/
def acted (s : Race ι) (i : ι) (event : Event OsCall.Answer) (site : Site ι)
    (rest : Option (Interaction OsCall OsCall.Answer (Except Exc WorkspaceIdentity × Registry))) :
    Race ι := (s.within site).set i ⟨(s.party i).own, (s.party i).log ++ [event], rest⟩

theorem acted_log : ((acted s i event site rest).party i).log = (s.party i).log ++ [event] := by
  rw [acted, Group.set_party]

theorem acted_log_of_ne (h : j ≠ i) :
    ((acted s i event site rest).party j).log = (s.party j).log := by
  rw [acted, Group.set_party_of_ne h]
  rfl

section

omit [DecidableEq ι]

/-- What a call leaves of the files. -/
theorem footprint_act (hroots : ∀ i, (adapter i).root = root) (hnamed : root.Named)
    (h : Inv adapter root s) (hallows : (adapter i).prepareScope.Allows (s.party i).log event)
    (hshares : Shares root i (s.party i).log s.world event site) :
    (adapter i).Footprint (s.party i).log s.world.tree site.tree := by
  obtain rfl := hroots i
  exact LocalGitWorkspace.footprint_of_allows hnamed h.rootDir (h.clear i) (h.controls i) hallows
    hshares.1

/-- An entry an instance has not reserved is not touched by it. -/
theorem sameAt_of_footprint (hroots : ∀ i, (adapter i).root = root)
    {tree tree' : HostTree} {log : OsLog} (h : (adapter i).Footprint log tree tree')
    (hreserved : ¬(adapter i).Reserved id log) : tree.SameAt (entryOf root id) tree' := by
  obtain rfl := hroots i
  obtain ⟨places, hsame, hplaces⟩ := h.same
  refine hsame.sameAt fun p hp ↦ ?_
  rcases hplaces p hp with ⟨id', hreserved', rfl⟩ | ⟨name, more, hname, rfl⟩
  · refine FileTree.apart_of_ne fun heq ↦ hreserved ?_
    rwa [Checked.ext heq]
  · have hne := LocalGitWorkspace.ne_value_of_control hname id
    constructor
    · intro hbefore
      rw [entryOf, List.prefix_append_right_inj, List.cons_prefix_cons] at hbefore
      exact hne hbefore.1.symm
    · intro hbefore
      rw [entryOf, List.prefix_append_right_inj, List.cons_prefix_cons] at hbefore
      exact hne hbefore.1

/-- The root stays a directory. -/
theorem root_of_footprint (hroots : ∀ i, (adapter i).root = root) {tree tree' : HostTree}
    {log : OsLog} (h : (adapter i).Footprint log tree tree')
    (hroot : tree.node root.parts = some .dir) : tree'.node root.parts = some .dir := by
  obtain rfl := hroots i
  obtain ⟨places, hsame, hplaces⟩ := h.same
  rw [hsame.node_eq fun p hp hbefore ↦ ?_, hroot]
  have hlength := hbefore.length_le
  rcases hplaces p hp with ⟨id', -, rfl⟩ | ⟨name, more, -, rfl⟩
  · simp [entryOf] at hlength
  · simp at hlength

/-- Who is noted as the maker of what was there is who was noted before. -/
theorem note_of_same {tree : HostTree} (hsame : s.world.tree.SameAt (entryOf root id) tree)
    (hunmade : s.world.tree.node (entryOf root id) = none → s.world.maker id = none) :
    s.world.note root i tree id = s.world.maker id := by
  rw [Site.note, hsame.node_eq]
  by_cases hnone : s.world.tree.node (entryOf root id) = none
  · rw [hnone, hunmade hnone]
    rfl
  · rw [if_neg (by simpa using hnone), if_neg (by simpa using hnone)]

/-- No entry of the root becomes a link. -/
theorem not_linkAt_act (hroots : ∀ i, (adapter i).root = root)
    (hfoot : (adapter i).Footprint (s.party i).log s.world.tree site.tree) {name : Text}
    (h : ¬s.world.tree.LinkAt (root.parts ++ [name])) :
    ¬site.tree.LinkAt (root.parts ++ [name]) := by
  rw [← hroots i] at h ⊢
  exact fun hlink ↦ h (hfoot.noLink name hlink)

/-- An id another instance has found is not reserved by this one, and so not touched by it. -/
theorem Inv.sameAt_of_found (h : Inv adapter root s) (hroots : ∀ i, (adapter i).root = root)
    (hfoot : (adapter i).Footprint (s.party i).log s.world.tree site.tree) (hne : j ≠ i)
    (hfound : (adapter j).Found id (s.party j).log) :
    s.world.tree.SameAt (entryOf root id) site.tree :=
  sameAt_of_footprint hroots hfoot fun hreserved ↦ h.exclusive j i id hne hfound hreserved.found

theorem Inv.clear_act (h : Inv adapter root s) (hroots : ∀ i, (adapter i).root = root)
    (hnamed : root.Named) (hallows : (adapter i).prepareScope.Allows (s.party i).log event)
    (hordered : (adapter i).Ordered (s.party i).log event)
    (hshares : Shares root i (s.party i).log s.world event site) :
    (adapter i).Clear ((s.party i).log ++ [event]) := by
  obtain rfl := hroots i
  exact (h.clear i).step hnamed h.rootDir (fun id hreserved ↦ (h.reserved i id hreserved).1) hallows
    hordered hshares.1

/-- The control directories of an instance are no links, nor is one that it has just made. -/
theorem Inv.controls_act (h : Inv adapter root s) (hroots : ∀ i, (adapter i).root = root)
    (hnamed : root.Named)
    (hfoot : (adapter i).Footprint (s.party i).log s.world.tree site.tree)
    (hclear : (adapter i).Clear ((s.party i).log ++ [event]))
    (hshares : Shares root i (s.party i).log s.world event site) {stem : Text} {dir control : Path}
    (hmem : ⟨.mkdtemp stem dir, .ok control⟩ ∈ (s.party i).log ++ [event]) :
    ¬site.tree.LinkAt control.parts := by
  obtain ⟨name, -, rfl⟩ := hclear.controls stem dir control hmem
  rcases LocalGitWorkspace.mem_concat.mp hmem with hmem | rfl
  · have hnot := h.controls i stem dir _ hmem
    rw [hroots i] at hnot ⊢
    exact not_linkAt_act hroots hfoot hnot
  · obtain ⟨suffix, place, -, -, hentry, hgains⟩ := hshares.1
    rw [hroots i] at hentry ⊢
    obtain rfl := HostTree.entryAt_of_dir h.rootDir hnamed hentry
    exact HostTree.not_linkAt_of_node hgains.made (fun h ↦ h)

theorem Inv.controls_others (h : Inv adapter root s) (hroots : ∀ i, (adapter i).root = root)
    (hfoot : (adapter i).Footprint (s.party i).log s.world.tree site.tree) {stem : Text}
    {dir control : Path} (hmem : ⟨.mkdtemp stem dir, .ok control⟩ ∈ (s.party j).log) :
    ¬site.tree.LinkAt control.parts := by
  obtain ⟨name, -, rfl⟩ := (h.clear j).controls stem dir control hmem
  have hnot := h.controls j stem dir _ hmem
  rw [hroots j] at hnot ⊢
  exact not_linkAt_act hroots hfoot hnot

/-- Nothing but a link is at a place that an instance has found and not reserved, nor at one that it
has just found. -/
theorem Inv.found_act (h : Inv adapter root s) (hroots : ∀ i, (adapter i).root = root)
    (hfoot : (adapter i).Footprint (s.party i).log s.world.tree site.tree)
    (hordered : (adapter i).Ordered (s.party i).log event)
    (hshares : Shares root i (s.party i).log s.world event site)
    (hfound : (adapter i).Found id ((s.party i).log ++ [event]))
    (hreserved : ¬(adapter i).Reserved id ((s.party i).log ++ [event])) :
    ¬site.tree.Settled (entryOf root id) := by
  rcases LocalGitWorkspace.found_concat hordered hfound with hfound | rfl
  · have hbefore : ¬(adapter i).Reserved id (s.party i).log := fun h ↦ hreserved (h.append _)
    exact (sameAt_of_footprint hroots hfoot hbefore).settled_iff.not.mpr
      (h.found i id hfound hbefore)
  · obtain ⟨heq, hshows⟩ := hshares.1
    intro hsettled
    rw [LocalGitWorkspace.placeOf_eq, hroots i] at hshows
    exact absurd (hshows.2 (heq ▸ hsettled)) (by simp)

theorem Inv.found_others (h : Inv adapter root s) (hroots : ∀ i, (adapter i).root = root)
    (hfoot : (adapter i).Footprint (s.party i).log s.world.tree site.tree) (hne : j ≠ i)
    (hfound : (adapter j).Found id (s.party j).log)
    (hreserved : ¬(adapter j).Reserved id (s.party j).log) :
    ¬site.tree.Settled (entryOf root id) :=
  (h.sameAt_of_found hroots hfoot hne hfound).settled_iff.not.mpr (h.found j id hfound hreserved)

/-- Whoever makes something of an id that an instance has reserved is that instance. -/
theorem Inv.reserved_kept (h : Inv adapter root s) (hroots : ∀ i, (adapter i).root = root)
    (hfoot : (adapter i).Footprint (s.party i).log s.world.tree site.tree)
    (hshares : Shares root i (s.party i).log s.world event site)
    (hreserved : (adapter i).Reserved id (s.party i).log) :
    ¬site.tree.LinkAt (entryOf root id) ∧ ∀ j, site.maker id = some j → j = i := by
  obtain ⟨hnot, hmaker⟩ := h.reserved i id hreserved
  refine ⟨not_linkAt_act hroots hfoot hnot, fun j hj ↦ ?_⟩
  rw [congrFun hshares.2 id, Site.note] at hj
  split at hj
  · exact absurd hj (by simp)
  split at hj
  · exact (Option.some.inj hj).symm
  · exact hmaker j hj

/-- An id becomes reserved when nothing is at its place, so that nobody is noted there. -/
theorem Inv.reserved_first (h : Inv adapter root s) (hroots : ∀ i, (adapter i).root = root)
    (hshares : Shares root i (s.party i).log s.world
      ⟨.isSymlink ((adapter i).placeOf id), .ok false⟩ site)
    (hfound : (adapter i).Found id (s.party i).log)
    (hbefore : ¬(adapter i).Reserved id (s.party i).log) :
    ¬site.tree.LinkAt (entryOf root id) ∧ ∀ j, site.maker id = some j → j = i := by
  obtain ⟨heq, hshows⟩ := hshares.1
  have hlink := Shows.not_link hshows
  rw [LocalGitWorkspace.placeOf_eq, hroots i] at hlink
  have hnone : s.world.tree.node (entryOf root id) = none := by
    rcases hnode : s.world.tree.node (entryOf root id) with _ | n
    · rfl
    · have hsettled := h.found i id hfound hbefore
      by_cases hislink : n.IsLink
      · exact absurd ⟨n, hnode, hislink⟩ hlink
      · exact absurd ⟨n, hnode, hislink⟩ hsettled
  refine ⟨heq ▸ hlink, fun j hj ↦ ?_⟩
  rw [congrFun hshares.2 id, note_of_same (heq ▸ FileTree.sameAt_refl _ _) (h.unmade id),
    h.unmade id hnone] at hj
  exact absurd hj (by simp)

theorem Inv.reserved_act (h : Inv adapter root s) (hroots : ∀ i, (adapter i).root = root)
    (hfoot : (adapter i).Footprint (s.party i).log s.world.tree site.tree)
    (hordered : (adapter i).Ordered (s.party i).log event)
    (hshares : Shares root i (s.party i).log s.world event site)
    (hreserved : (adapter i).Reserved id ((s.party i).log ++ [event])) :
    ¬site.tree.LinkAt (entryOf root id) ∧ ∀ j, site.maker id = some j → j = i := by
  by_cases hbefore : (adapter i).Reserved id (s.party i).log
  · exact h.reserved_kept hroots hfoot hshares hbefore
  rcases LocalGitWorkspace.reserved_concat (h.clear i) hordered hreserved with hbefore' |
    ⟨hfound, rfl⟩
  · exact absurd hbefore' hbefore
  · exact h.reserved_first hroots hshares hfound hbefore

theorem Inv.reserved_others (h : Inv adapter root s) (hroots : ∀ i, (adapter i).root = root)
    (hfoot : (adapter i).Footprint (s.party i).log s.world.tree site.tree)
    (hshares : Shares root i (s.party i).log s.world event site) (hne : j ≠ i)
    (hreserved : (adapter j).Reserved id (s.party j).log) :
    ¬site.tree.LinkAt (entryOf root id) ∧ ∀ k, site.maker id = some k → k = j := by
  obtain ⟨hnot, hmaker⟩ := h.reserved j id hreserved
  refine ⟨not_linkAt_act hroots hfoot hnot, fun k hk ↦ hmaker k ?_⟩
  rwa [congrFun hshares.2 id, note_of_same
    (h.sameAt_of_found hroots hfoot hne hreserved.found) (h.unmade id)] at hk

theorem Inv.answered_act (h : Inv adapter root s) (hanswered : Answered adapter s (.act i event))
    {error : OsError}
    (hmem : ⟨.pathExists ((adapter i).placeOf id), .error error⟩ ∈ (s.party i).log ++ [event] ∨
      ⟨.isSymlink ((adapter i).placeOf id), .error error⟩ ∈ (s.party i).log ++ [event]) :
    (adapter i).Reserved id ((s.party i).log ++ [event]) := by
  rw [LocalGitWorkspace.mem_concat, LocalGitWorkspace.mem_concat] at hmem
  refine LocalGitWorkspace.Reserved.append ?_ _
  rcases hmem with (hmem | rfl) | (hmem | rfl)
  · exact h.answered i id error (.inl hmem)
  · exact hanswered i id error (.inl rfl)
  · exact h.answered i id error (.inr hmem)
  · exact hanswered i id error (.inr rfl)

end

/-- **What holds in an orderly race still holds after a call.** -/
theorem Inv.act (hroots : ∀ i, (adapter i).root = root) (hnamed : root.Named)
    (h : Inv adapter root s) (hallows : (adapter i).prepareScope.Allows (s.party i).log event)
    (hordered : (adapter i).Ordered (s.party i).log event)
    (hshares : Shares root i (s.party i).log s.world event site)
    (hworking : (acted s i event site rest).Working (Startable adapter))
    (hexclusive : Exclusive adapter (acted s i event site rest))
    (hanswered : Answered adapter s (.act i event)) :
    Inv adapter root (acted s i event site rest) := by
  have hfoot := footprint_act hroots hnamed h hallows hshares
  have hclear := h.clear_act hroots hnamed hallows hordered hshares
  refine ⟨hworking, hexclusive, root_of_footprint hroots hfoot h.rootDir, fun j ↦ ?_,
    fun j stem dir control hmem ↦ ?_, fun j id hfound hreserved ↦ ?_, fun j id hreserved ↦ ?_,
    fun id hnone ↦ ?_, fun j id error hmem ↦ ?_⟩
  · rcases eq_or_ne j i with rfl | hj
    · rwa [acted_log]
    · rw [acted_log_of_ne hj]
      exact h.clear j
  · rcases eq_or_ne j i with rfl | hj
    · rw [acted_log] at hmem
      exact h.controls_act hroots hnamed hfoot hclear hshares hmem
    · rw [acted_log_of_ne hj] at hmem
      exact h.controls_others hroots hfoot hmem
  · rcases eq_or_ne j i with rfl | hj
    · rw [acted_log] at hfound hreserved
      exact h.found_act hroots hfoot hordered hshares hfound hreserved
    · rw [acted_log_of_ne hj] at hfound hreserved
      exact h.found_others hroots hfoot hj hfound hreserved
  · rcases eq_or_ne j i with rfl | hj
    · rw [acted_log] at hreserved
      exact h.reserved_act hroots hfoot hordered hshares hreserved
    · rw [acted_log_of_ne hj] at hreserved
      exact h.reserved_others hroots hfoot hshares hj hreserved
  · change site.maker id = none
    change site.tree.node _ = none at hnone
    rw [congrFun hshares.2 id, Site.note, hnone]
    rfl
  · rcases eq_or_ne j i with rfl | hj
    · rw [acted_log] at hmem ⊢
      exact h.answered_act hanswered hmem
    · rw [acted_log_of_ne hj] at hmem ⊢
      exact h.answered j id error hmem

end Act

/-! ### Runs -/

/-- What an instance does is within what `prepare` may touch. -/
theorem allows_of_step {i : ι} {event : Event OsCall.Answer} (h : s.Working (Startable adapter))
    (hstep : Step adapter root s (.act i event) s') :
    (adapter i).prepareScope.Allows (s.party i).log event := by
  let rule : ι → Rule OsCall.Answer := fun i ↦ (adapter i).prepareScope.Allows
  have hrule : ∀ i m r, Startable adapter i m → m.Obeys (rule i) r :=
    fun i m r ⟨fuel, identity, hm⟩ ↦ hm ▸ LocalGitWorkspace.obeys_prepare identity r
  exact Group.Step.obeys hrule h hstep

/-- What an instance does is in the order of `prepare`. -/
theorem ordered_of_step {i : ι} {event : Event OsCall.Answer} (h : s.Working (Startable adapter))
    (hstep : Step adapter root s (.act i event) s') :
    (adapter i).Ordered (s.party i).log event := by
  let rule : ι → Rule OsCall.Answer := fun i ↦ (adapter i).Ordered
  have hrule : ∀ i m r, Startable adapter i m → m.Obeys (rule i) r :=
    fun i m r ⟨fuel, identity, hm⟩ ↦ hm ▸ LocalGitWorkspace.obeys_ordered identity r
  exact Group.Step.obeys hrule h hstep

theorem Inv.step (hroots : ∀ i, (adapter i).root = root) (hnamed : root.Named)
    (h : Inv adapter root s) (hstep : OrderlyStep adapter root s move s') :
      Inv adapter root s' := by
  obtain ⟨hstep, hexclusive, hanswered⟩ := hstep
  have hworking := Group.Step.working hstep h.working
  cases move with
  | start i m =>
    cases hstep
    exact h.forget hworking
  | finish i x =>
    cases hstep
    exact h.forget hworking
  | act i event =>
    have hallows := allows_of_step h.working hstep
    have hordered := ordered_of_step h.working hstep
    cases hstep with
    | act hrest hworld =>
      exact h.act hroots hnamed hallows hordered hworld hworking hexclusive hanswered

/-- **What holds in every state of an orderly race.** -/
theorem inv_of_steps (hroots : ∀ i, (adapter i).root = root) (hnamed : root.Named) {s₀ : Race ι}
    {moves : List (RaceMove ι)} (hfresh : Fresh root s₀)
    (hsteps : Steps (OrderlyStep adapter root) s₀ moves s) : Inv adapter root s :=
  hsteps.preserves (fun h hstep ↦ h.step hroots hnamed hstep) hfresh.inv

end Race

namespace LocalGitWorkspace

variable {adapter : LocalGitWorkspace} {fuel : ℕ} {log : OsLog} {id : WorkspaceId}

/-- An id is handed out once. -/
theorem handed_once {identity : RunIdentity} {r : Registry} {id' : WorkspaceId}
    {u : Interaction OsCall OsCall.Answer (Except Exc WorkspaceIdentity × Registry)}
    (h : (adapter.prepare fuel identity r).Leads log u) (hid : ⟨.newWorkspaceId, .ok id⟩ ∈ log)
    (hid' : ⟨.newWorkspaceId, .ok id'⟩ ∈ log) : id = id' := by
  have hfirst : ∀ before answer after, log = before ++ ⟨.newWorkspaceId, answer⟩ :: after →
      ∀ e ∈ before, e.1 ≠ .newWorkspaceId := fun before answer after hlog e he ↦
    (((obeys_ordered identity r before _ after u (hlog ▸ h)).first rfl).2 e he).1
  obtain ⟨before, after, rfl⟩ := List.append_of_mem hid
  rcases List.mem_append.mp hid' with hbefore | hafter
  · exact absurd rfl (hfirst before _ after rfl _ hbefore)
  rcases List.mem_cons.mp hafter with heq | hafter
  · simpa using heq.symm
  · obtain ⟨middle, last, rfl⟩ := List.append_of_mem hafter
    refine absurd rfl (hfirst (before ++ ⟨.newWorkspaceId, .ok id⟩ :: middle) (.ok id') last
      (by simp) ⟨.newWorkspaceId, .ok id⟩ (by simp))

/-- A check whether a place is free that fails. -/
theorem check_raises {path : Path} {b : Bool} {e : Exc}
    (h : (Os.or (pure b) (Os.or (Os.pathExists path) (Os.isSymlink path))).Returns log (.error e)) :
    ∃ error, ⟨.pathExists path, .error error⟩ ∈ log ∨ ⟨.isSymlink path, .error error⟩ ∈ log := by
  rcases Action.returns_bind.mp h with ⟨l, l', b', rfl, -, hrest⟩ | ⟨e', hfail, -⟩
  swap
  · exact absurd (Action.returns_pure.mp hfail).2 (by simp)
  split at hrest
  · exact absurd (Action.returns_pure.mp hrest).2 (by simp)
  rcases Action.returns_bind.mp hrest with ⟨l₁, l₂, there, rfl, -, hrest⟩ | ⟨e', hfail, -⟩
  · split at hrest
    · exact absurd (Action.returns_pure.mp hrest).2 (by simp)
    · obtain ⟨answer, rfl, hanswer⟩ := Action.returns_ask.mp hrest
      obtain ⟨error, rfl, -⟩ := mapError_eq_error_iff.mp hanswer.symm
      exact ⟨error, .inr (by simp)⟩
  · obtain ⟨answer, rfl, hanswer⟩ := Action.returns_ask.mp hfail
    obtain ⟨error, rfl, -⟩ := mapError_eq_error_iff.mp hanswer.symm
    exact ⟨error, .inl (by simp)⟩

/-- How a `prepare` ends that was handed an id: it has reserved it, it reports that it exists, or it
could not find out. -/
theorem ends_prepare {identity : RunIdentity} {r r' : Registry} {x : Except Exc WorkspaceIdentity}
    (h : (adapter.prepare fuel identity).Returns r log x r')
    (hhanded : ⟨.newWorkspaceId, .ok id⟩ ∈ log) :
    adapter.Reserved id log ∨ (∃ detail, x = .error (workspaceError .alreadyExists detail)) ∨
      ∃ error, ⟨.pathExists (adapter.placeOf id), .error error⟩ ∈ log ∨
        ⟨.isSymlink (adapter.placeOf id), .error error⟩ ∈ log := by
  have honce : ∀ id', ⟨.newWorkspaceId, .ok id'⟩ ∈ log → id = id' := fun id' ↦
    handed_once h hhanded
  have hroots : ∀ {l : OsLog} {y}, adapter.assertRootIntegrity.Returns l y →
      ⟨.newWorkspaceId, .ok id⟩ ∉ l := fun hret hmem ↦
    ((preliminary_assertRootIntegrity adapter).leads hret _ hmem).1 rfl
  rcases Method.returns_perform_bind.mp h with ⟨l, l', u, rfl, hroot, hrest⟩ | ⟨e, hfail, -, -⟩
  swap
  · exact absurd hhanded (hroots hfail)
  have hintact := intact_of_returns hroot
  have hhanded' := (List.mem_append.mp hhanded).resolve_left (hroots hroot)
  rw [Method.returns_get_bind] at hrest
  split at hrest
  · obtain ⟨rfl, -, -⟩ := Method.returns_raise.mp hrest
    exact absurd hhanded' (by simp)
  rcases Method.returns_perform_bind.mp hrest with ⟨l₁, l₂, id₀, rfl, hnew, hrest⟩ |
    ⟨e, hfail, -, -⟩
  swap
  · obtain ⟨answer, rfl, hanswer⟩ := Action.returns_ask.mp hfail
    obtain rfl : answer = .error e := hanswer.symm
    exact absurd hhanded' (by simp)
  obtain rfl : id = id₀ := by
    refine honce id₀ ?_
    obtain ⟨answer, rfl, hanswer⟩ := Action.returns_ask.mp hnew
    obtain rfl : answer = .ok id₀ := hanswer.symm
    simp
  rcases Method.returns_perform_bind.mp hrest with ⟨l₃, l₄, path, rfl, hplace, hrest⟩ |
    ⟨e, hfail, -, -⟩
  swap
  · rw [pathFor_eq] at hfail
    exact absurd (Action.returns_lift.mp hfail).2 (by simp)
  obtain ⟨rfl, heq⟩ := Action.returns_lift.mp hplace
  obtain rfl := Except.ok.inj (heq.trans (pathFor_eq _))
  rcases Method.returns_perform_bind.mp hrest with ⟨l₅, l₆, occupied, rfl, hcheck, hrest⟩ |
    ⟨e, hfail, -, -⟩
  · split at hrest
    · exact .inr (.inl ⟨_, (Method.returns_raise.mp hrest).2.1⟩)
    · rename_i hfree
      obtain rfl : occupied = false := by simpa using hfree
      have hreserved := (reserved_of_returns hintact hnew hcheck).append l₆
      refine .inl ?_
      simpa using hreserved
  · obtain ⟨error, hmem⟩ := check_raises hfail
    exact .inr (.inr ⟨error, hmem.imp (fun hmem ↦ by simp [hmem]) fun hmem ↦ by simp [hmem]⟩)

end LocalGitWorkspace

namespace Race

/-- **In an orderly race no instance touches what another one has made.**  As long as no two
instances have found the same id at the same time, no step of an instance changes anything at or
below a workspace directory another instance has made; and a `prepare` that is handed the id of such
a directory reports that it exists. -/
theorem prepares_exclusive {ι : Type} [DecidableEq ι] (adapter : ι → LocalGitWorkspace)
    {root : Path} (hroots : ∀ i, (adapter i).root = root) (hnamed : root.Named) {s₀ s s' : Race ι}
    {moves : List (RaceMove ι)} {move : RaceMove ι} (hfresh : Fresh root s₀)
    (hsteps : Steps (OrderlyStep adapter root) s₀ moves s)
    (hstep : OrderlyStep adapter root s move s') :
    (∀ i event, move = .act i event → ∀ id j, j ≠ i → s.world.maker id = some j →
      s.world.tree.SameAt (entryOf root id) s'.world.tree) ∧
    ∀ i x, move = .finish i x → ∀ id j, j ≠ i → s.world.maker id = some j →
      ⟨.newWorkspaceId, .ok id⟩ ∈ (s.party i).log →
        ∃ detail, x = .error (workspaceError .alreadyExists detail) := by
  have hinv := inv_of_steps hroots hnamed hfresh hsteps
  have hreserved : ∀ {i id j}, j ≠ i → s.world.maker id = some j →
      ¬(adapter i).Reserved id (s.party i).log := fun hne hmaker hreserved ↦
    hne ((hinv.reserved _ _ hreserved).2 _ hmaker)
  refine ⟨?_, ?_⟩
  · rintro i event rfl id j hne hmaker
    have hallows := allows_of_step hinv.working hstep.1
    cases hstep.1 with
    | act hrest hworld =>
      exact sameAt_of_footprint hroots (footprint_act hroots hnamed hinv hallows hworld)
        (hreserved hne hmaker)
  · rintro i x rfl id j hne hmaker hhanded
    obtain ⟨m, own, ⟨fuel, identity, rfl⟩, hreturns⟩ := Group.Step.returns hinv.working hstep.1
    rcases LocalGitWorkspace.ends_prepare hreturns hhanded with hdone | hexists | ⟨error, hfailed⟩
    · exact absurd hdone (hreserved hne hmaker)
    · exact hexists
    · exact absurd (hinv.answered i id error hfailed) (hreserved hne hmaker)

end Race

end Alicerce
