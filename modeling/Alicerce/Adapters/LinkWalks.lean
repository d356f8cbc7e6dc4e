import Alicerce.Adapters.LinkValidation
import Alicerce.Adapters.SandboxResults
import Alicerce.Lib.Raising
import Mathlib.Data.Set.Card
import Mathlib.Order.CompletePartialOrder

/-!
# The validation of links decides

The walk through the directories of a workspace comes to an end in every finite tree, and what it
ends in is told by the links alone.

* `HostTree.Walkable`: the directories on the stack are real ones, no two of which stand one below
  the other; so every directory below them is walked once (`HostTree.Walkable.below_push`).
* `walkSymlinks_ends`: the walk ends, whatever the host fails at, when it lists what is there once
  (`HostTree.Lists`).
* `HostTree.Inspected` are the links that the validation looks at, and `HostTree.Accepted` says that
  all of these lead to somewhere inside.
* `walkSymlinks_refuses`, `HostTree.accepted_of_returns`: what is raised is a refusal of such a
  link, and what returns has accepted all of them, where the host lets itself be looked at
  (`HostTree.Opens`).
* `validateSymlinks_decides` puts it together.
-/

set_option autoImplicit false

namespace Alicerce

open Py Lib

/-! ## Hosts -/

/-- No name comes twice in the listing of a directory. -/
def ListsOnce : Event OsCall.Answer → Prop
  | ⟨.scandir _, .ok entries⟩ => (entries.map (·.name)).Nodup
  | _ => True

/-- A host that tells the truth about files that stay as they are, and lists each of them once. -/
def HostTree.Lists (tree : HostTree) (_ : Unit) (event : Event OsCall.Answer) (_ : Unit) : Prop :=
  Shows tree event ∧ ListsOnce event

/-! ## Entries -/

theorem Path.Named.concat {path : Path} {name : Text} (h : path.Named) (hname : name ≠ text "..") :
    (Path.mk (path.parts ++ [name])).Named := by
  intro part hpart
  rcases List.mem_append.mp hpart with hpart | hpart
  · exact h part hpart
  · rw [List.mem_singleton.mp hpart]
    exact hname

/-- A path to an entry leads from its directory, by its name. -/
theorem HostTree.Proper.leads_entry {tree : HostTree} {place target : List Text} {name : Text}
    (hproper : tree.Proper) (hdir : tree.node place = some .dir) (hname : name ≠ text "..") :
    tree.Leads ⟨place ++ [name]⟩ target ↔ tree.Walks place (FileTree.down [name]) target :=
  (HostTree.leads_iff_leading ((hproper.named hdir).concat hname)).trans
    (FileTree.leading_append (FileTree.settled_of_dir hdir))

/-! ## What is left to walk -/

/-- The directories at, and below, the places on a stack. -/
def HostTree.Below (tree : HostTree) (stack : List Path) : Set (List Text) :=
  {place | tree.node place = some .dir ∧ ∃ path ∈ stack, path.parts <+: place}

/-- A stack of real directories, none of which stands below another. -/
structure HostTree.Walkable (tree : HostTree) (stack : List Path) : Prop where
  dir : ∀ path ∈ stack, tree.node path.parts = some .dir
  apart : stack.Pairwise fun p q ↦ ¬p.parts <+: q.parts ∧ ¬q.parts <+: p.parts

/-- The entries of a directory. -/
def children (current : Path) (names : List Text) : List Path :=
  names.map fun name ↦ ⟨current.parts ++ [name]⟩

section

variable {tree : HostTree} {workspace current : Path} {names pushed directories : List Text}
  {stack stack' : List Path} {fuel : ℕ} {log : OsLog}

theorem mem_children {path : Path} :
    path ∈ children current names ↔ ∃ name ∈ names, path = ⟨current.parts ++ [name]⟩ := by
  simp [children, eq_comm]

theorem HostTree.Walkable.push (h : tree.Walkable (current :: stack)) (hnodup : pushed.Nodup)
    (hdirs : ∀ name ∈ pushed, tree.node (current.parts ++ [name]) = some .dir) :
    tree.Walkable (children current pushed ++ stack) := by
  obtain ⟨hapart, hstack⟩ := List.pairwise_cons.mp h.apart
  refine ⟨fun path hpath ↦ ?_, List.pairwise_append.mpr
    ⟨?_, hstack, fun path hpath other hother ↦ ?_⟩⟩
  · rcases List.mem_append.mp hpath with hpath | hpath
    · obtain ⟨name, hname, rfl⟩ := mem_children.mp hpath
      exact hdirs name hname
    · exact h.dir path (List.mem_cons_of_mem _ hpath)
  · -- two entries of one directory are as long as each other
    refine List.pairwise_map.mpr (hnodup.imp fun {a b} hne ↦ ?_)
    have hsame : ∀ {a b : Text}, current.parts ++ [a] <+: current.parts ++ [b] → a = b := by
      intro a b hbefore
      have heq := hbefore.eq_of_length (by simp)
      simpa using heq
    exact ⟨fun hbefore ↦ hne (hsame hbefore), fun hbefore ↦ hne (hsame hbefore).symm⟩
  · obtain ⟨name, -, rfl⟩ := mem_children.mp hpath
    obtain ⟨hdown, hup⟩ := hapart other hother
    refine ⟨fun hbefore ↦ hdown ((List.prefix_append _ _).trans hbefore), fun hbefore ↦ ?_⟩
    rcases List.prefix_concat_iff.mp hbefore with heq | hbefore
    · exact hdown (heq ▸ List.prefix_append _ _)
    · exact hup hbefore

/-- **A directory that was walked** is left to be walked no more. -/
theorem HostTree.Walkable.below_push (h : tree.Walkable (current :: stack)) :
    tree.Below (children current pushed ++ stack) ⊂ tree.Below (current :: stack) := by
  obtain ⟨hapart, -⟩ := List.pairwise_cons.mp h.apart
  refine ⟨?_, fun hsub ↦ ?_⟩
  · rintro place ⟨hdir, path, hpath, hbefore⟩
    rcases List.mem_append.mp hpath with hpath | hpath
    · obtain ⟨name, -, rfl⟩ := mem_children.mp hpath
      exact ⟨hdir, current, List.mem_cons_self, (List.prefix_append _ _).trans hbefore⟩
    · exact ⟨hdir, path, List.mem_cons_of_mem _ hpath, hbefore⟩
  · obtain ⟨-, path, hpath, hbefore⟩ := hsub (a := current.parts)
      ⟨h.dir current List.mem_cons_self, current, List.mem_cons_self, List.prefix_refl _⟩
    rcases List.mem_append.mp hpath with hpath | hpath
    · obtain ⟨name, -, rfl⟩ := mem_children.mp hpath
      have hlength := hbefore.length_le
      rw [List.length_append, List.length_singleton] at hlength
      omega
    · exact (hapart path hpath).2 hbefore

/-! ## The walk ends -/

theorem checkLinks_ends {W : Type} {Env : W → Event OsCall.Answer → W → Prop} {w : W} :
    (checkLinks workspace current names directories).Ends Env w := by
  induction names generalizing directories w with
  | nil => trivial
  | cons name names ih =>
    exact Action.ends_ask.bind fun _ _ ↦ .ite ((ends_translate Action.ends_ask).bind fun _ _ ↦
      .ite ih trivial) ih

theorem pushDirectories_ends {W : Type} {Env : W → Event OsCall.Answer → W → Prop} {w : W} :
    (pushDirectories current names stack).Ends Env w := by
  induction names generalizing stack w with
  | nil => trivial
  | cons name names ih => exact Action.ends_ask.bind fun _ _ ↦ .ite ih ih

/-- The directories that are kept are some of those there were. -/
theorem checkLinks_sublist {W : Type} {Env : W → Event OsCall.Answer → W → Prop} {w : W} :
    (checkLinks workspace current names directories).Ensures Env w
      (Action.OnReturn fun kept _ ↦ kept.Sublist directories) := by
  induction names generalizing directories w with
  | nil => exact List.Sublist.refl _
  | cons name names ih =>
    rw [checkLinks, Action.ensures_bind_onReturn]
    refine Action.ensures_onReturn_of_forall fun linked w ↦ ?_
    cases linked with
    | true =>
      rw [if_pos rfl, Action.ensures_bind_onReturn]
      refine Action.ensures_onReturn_of_forall fun target w ↦ ?_
      by_cases hinside : target.IsRelativeTo workspace
      · rw [if_pos hinside]
        exact ih.mono fun x _ hx ↦ hx.mono fun _ hkept ↦ hkept.trans List.erase_sublist
      · rw [if_neg hinside]
        trivial
    | false => exact ih

/-- **What is pushed** are entries that are no links, each once. -/
theorem pushDirectories_returns (hnames : ∀ name ∈ names, IsName name) (hnodup : names.Nodup) :
    (pushDirectories current names stack).Ensures tree.Tells () (Action.OnReturn fun stack' _ ↦
      ∃ pushed, pushed.Nodup ∧
        (∀ name ∈ pushed, name ∈ names ∧ ¬tree.Linked (current.parts ++ [name])) ∧
        stack' = children current pushed ++ stack) := by
  induction names generalizing stack with
  | nil => exact ⟨[], List.nodup_nil, by simp, rfl⟩
  | cons name names ih =>
    obtain ⟨hname, hrest⟩ := List.forall_mem_cons.mp hnames
    obtain ⟨hnew, hnodup⟩ := List.nodup_cons.mp hnodup
    rw [pushDirectories, Path.join_of_isName hname, Action.ensures_bind_onReturn, Os.islink,
      Action.ensures_ask]
    rintro answer ⟨⟩ htells
    rw [Action.onReturn_ok]
    cases answer with
    | true =>
      refine (ih hrest hnodup).mono ?_
      rintro (_ | stack') ⟨⟩ hstack
      · trivial
      obtain ⟨pushed, hpushed, hmem, rfl⟩ := hstack
      exact ⟨pushed, hpushed, fun other hother ↦ ⟨List.mem_cons_of_mem _ (hmem other hother).1,
        (hmem other hother).2⟩, rfl⟩
    | false =>
      refine (ih hrest hnodup).mono ?_
      rintro (_ | stack') ⟨⟩ hstack
      · trivial
      obtain ⟨pushed, hpushed, hmem, rfl⟩ := hstack
      refine ⟨pushed ++ [name], ?_, fun other hother ↦ ?_, by simp [children]⟩
      · exact List.nodup_append.mpr
          ⟨hpushed, List.nodup_singleton _, fun other hother last hlast ↦ by
          rintro rfl
          exact hnew (List.mem_singleton.mp hlast ▸ (hmem other hother).1)⟩
      · rcases List.mem_append.mp hother with hother | hother
        · exact ⟨List.mem_cons_of_mem _ (hmem other hother).1, (hmem other hother).2⟩
        · obtain rfl := List.mem_singleton.mp hother
          exact ⟨List.mem_cons_self, fun hlink ↦
            absurd (htells.2 (HostTree.linkAt_iff.mpr hlink)) (by simp)⟩

theorem HostTree.Lists.tells {v v' : Unit} {event : Event OsCall.Answer}
    (h : tree.Lists v event v') : tree.Tells v event v' := h.1

/-- What is pushed of a directory, which the host has listed, and the walk has checked. -/
theorem HostTree.Walkable.step (h : tree.Walkable (current :: stack)) (hproper : tree.Proper)
    {entries : List DirEntry} {kept : List Text}
    (hshows : Shows tree ⟨.scandir current, .ok entries⟩) (honce : (entries.map (·.name)).Nodup)
    (hkept : kept.Sublist ((entries.filter (·.isDir)).map (·.name))) :
    (pushDirectories current kept.reverse stack).Ensures tree.Lists ()
      (Action.OnReturn fun stack' _ ↦
      tree.Walkable stack' ∧ ∃ pushed, (∀ name ∈ pushed, name ∈ kept) ∧
        stack' = children current pushed ++ stack) := by
  have hdir := h.dir current List.mem_cons_self
  obtain ⟨place, hleads, -, hall, hkinds⟩ := hshows
  have hsettled := FileTree.settled_of_dir hdir
  obtain rfl := (HostTree.leads_of_settled hsettled (hproper.named hdir)).mp hleads
  have hentry : ∀ name ∈ kept, ∃ entry ∈ entries, entry.isDir = true ∧ entry.name = name := by
    intro name hname
    obtain ⟨entry, hentry, rfl⟩ := List.mem_map.mp (hkept.subset hname)
    obtain ⟨hentry, hkind⟩ := List.mem_filter.mp hentry
    exact ⟨entry, hentry, hkind, rfl⟩
  have hnames : ∀ name ∈ kept.reverse, IsName name := by
    intro name hname
    obtain ⟨entry, hentry, -, rfl⟩ := hentry name (List.mem_reverse.mp hname)
    obtain ⟨n, hn⟩ := Option.isSome_iff_exists.mp
      ((hall entry.name).mpr (List.mem_map_of_mem hentry))
    exact (hproper _ _ n hn).1
  have hnodup : kept.reverse.Nodup :=
    List.nodup_reverse.mpr (hkept.nodup (honce.sublist (List.filter_sublist.map _)))
  refine ((pushDirectories_returns hnames hnodup).of_env HostTree.Lists.tells).mono
    fun x _ hx ↦ hx.mono ?_
  rintro _ ⟨pushed, hpushed, hmem, rfl⟩
  refine ⟨h.push hpushed fun name hname ↦ ?_, pushed, fun name hname ↦
    List.mem_reverse.mp (hmem name hname).1, rfl⟩
  -- what is said to be a directory, and is no link, is one
  obtain ⟨hname, hno⟩ := hmem name hname
  obtain ⟨entry, hentry, hkind, rfl⟩ := hentry name (List.mem_reverse.mp hname)
  obtain ⟨target, hwalks, htarget⟩ := (hkinds entry hentry).2 hkind
  cases hwalks with
  | into head tail =>
    cases tail
    exact htarget
  | follow head tail => exact absurd ⟨_, _, head⟩ hno

/-- What is pruned is some of what was listed. -/
theorem pruned_sublist : (if current = workspace then
    directories.filter fun name ↦ name ≠ text ".git" else directories).Sublist directories := by
  by_cases hcurrent : current = workspace
  · rw [if_pos hcurrent]
    exact List.filter_sublist
  · rw [if_neg hcurrent]

theorem scandir_lists : (Os.translate Exc.isOsError (fun _ ↦ walkError)
    (Os.scandir current)).Ensures tree.Lists () (Action.OnReturn fun entries _ ↦
      Shows tree ⟨.scandir current, .ok entries⟩ ∧ (entries.map (·.name)).Nodup) := by
  rw [Os.ensures_translate, Os.scandir, Action.ensures_ask]
  rintro (_ | entries) ⟨⟩ hlists
  · trivial
  · exact hlists

/-- **The walk ends**, in a tree whose directories on the stack, and below, are fewer than its
rounds. -/
theorem walkSymlinks_ends (hproper : tree.Proper) (hstack : tree.Walkable stack)
    (hfinite : (tree.Below stack).Finite) (hfuel : (tree.Below stack).ncard < fuel) :
    (walkSymlinks workspace fuel stack).Ends tree.Lists () := by
  induction fuel generalizing stack with
  | zero => omega
  | succ fuel ih =>
    cases stack with
    | nil => trivial
    | cons current stack =>
      rw [walkSymlinks]
      refine Action.Ends.bind_of_onReturn (ends_translate Action.ends_ask) scandir_lists ?_
      rintro entries ⟨⟩ ⟨hshows, honce⟩
      refine Action.Ends.bind_of_onReturn checkLinks_ends checkLinks_sublist fun kept _ hkept ↦ ?_
      refine Action.Ends.bind_of_onReturn pushDirectories_ends
        (hstack.step hproper hshows honce (hkept.trans pruned_sublist)) ?_
      rintro _ ⟨⟩ ⟨hwalkable, pushed, -, rfl⟩
      have hbelow : tree.Below (children current pushed ++ stack) ⊂ tree.Below (current :: stack) :=
        hstack.below_push
      have hless := Set.ncard_lt_ncard hbelow hfinite
      exact ih hwalkable (hfinite.subset hbelow.subset) (by omega)

/-! ## What the walk refuses -/

/-- A host that lets itself be looked at: it says of everything there is what it is, and fails at
the resolution, and the reading, of what leads nowhere only. -/
def Candid (tree : HostTree) : Event OsCall.Answer → Prop
  | ⟨.isSymlink path, answer⟩ =>
    ∃ linked, answer = .ok linked ∧ (tree.EndsInLink path → linked = true)
  | ⟨.isDir path, answer⟩ => ∃ found, answer = .ok found ∧ (tree.LeadsToDir path → found = true)
  | ⟨.isFile path, answer⟩ => ∃ found, answer = .ok found ∧ (tree.LeadsToFile path → found = true)
  | ⟨.resolve path, .error e⟩ => e ≠ .encode ∧ ∀ place, ¬tree.Leads path place
  | ⟨.readFile path, .error _⟩ => ¬tree.LeadsToFile path
  | ⟨.scandir path, answer⟩ => ∃ entries, answer = .ok entries ∧
      ∀ entry ∈ entries, tree.LeadsToDir ⟨path.parts ++ [entry.name]⟩ → entry.isDir = true
  | _ => True

/-- A host that tells the truth about files that stay as they are, and fails at no look at them. -/
def HostTree.Opens (tree : HostTree) (w : Unit) (event : Event OsCall.Answer) (w' : Unit) : Prop :=
  tree.Lists w event w' ∧ Candid tree event

/-- A link that the validation looks at: all there are, but for those in `.git`, and a `.git` of the
workspace that leads to a directory. -/
def HostTree.Inspected (tree : HostTree) (workspace : Path) (names : List Text) : Prop :=
  names ≠ [] ∧ tree.Linked (workspace.parts ++ names) ∧
    (names.head? = some (text ".git") → ¬tree.LeadsToDir ⟨workspace.parts ++ [text ".git"]⟩)

/-- The entry at a place leads to somewhere inside the workspace. -/
def HostTree.Inside (tree : HostTree) (workspace : Path) (place : List Text) : Prop :=
  ∃ target, tree.Leading place target ∧ workspace.parts <+: target

/-- Every link that the validation looks at leads to somewhere inside the workspace. -/
def HostTree.Accepted (tree : HostTree) (workspace : Path) : Prop :=
  ∀ names, tree.Inspected workspace names → tree.Inside workspace (workspace.parts ++ names)

/-- What is raised where a link does not lead to somewhere inside. -/
def IsolationFailure (e : Exc) : Prop := ∃ detail, e = workspaceError .isolationFailure detail

theorem HostTree.Opens.lists {v v' : Unit} {event : Event OsCall.Answer}
    (h : tree.Opens v event v') : tree.Lists v event v' := h.1

/-- Where a path ends in a link, or is said not to. -/
theorem isSymlink_opens {name : Text} (hdir : tree.node current.parts = some .dir)
    (hnamed : current.Named) :
    (Os.isSymlink ⟨current.parts ++ [name]⟩).Ensures tree.Opens () (Action.Returned fun linked _ ↦
      linked = true → tree.Linked (current.parts ++ [name])) := by
  rw [Os.isSymlink, Action.ensures_ask]
  rintro answer ⟨⟩ hopens
  obtain ⟨linked, rfl, -⟩ := hopens.2
  intro htrue
  exact HostTree.linkAt_iff.mp (HostTree.linkAt_of_endsInLink (FileTree.settled_of_dir hdir) hnamed
    (hopens.1.1.1 htrue))

/-- A link is resolved, when it leads somewhere, and is invalid when it does not. -/
theorem resolve_opens {place : List Text} (hnamed : (Path.mk place).Named) :
    (Os.translate (fun e ↦ e.isOsError || e.isRuntimeError)
      (fun _ ↦ workspaceError .isolationFailure "workspace contains an invalid symlink")
      (Os.resolve ⟨place⟩)).Ensures tree.Opens () fun x _ ↦
        (∃ target, x = .ok target ∧ tree.Leading place target.parts) ∨
        (∃ e, x = .error e ∧ IsolationFailure e ∧ ∀ target, ¬tree.Leading place target) := by
  rw [Os.ensures_translate, Os.resolve, Action.ensures_ask]
  rintro (e | target) ⟨⟩ hopens
  · obtain ⟨hencode, hnowhere⟩ := hopens.2
    refine .inr ⟨workspaceError .isolationFailure "workspace contains an invalid symlink", ?_,
      ⟨_, rfl⟩,
      fun target hleads ↦ hnowhere target ((HostTree.leads_iff_leading hnamed).mpr hleads)⟩
    cases e with
    | os => rfl
    | loop => rfl
    | encode => exact absurd rfl hencode
  · exact .inl ⟨target, rfl, (HostTree.leads_iff_leading hnamed).mp hopens.1.1⟩

/-- **What is refused** is a link among the names that does not lead to somewhere inside. -/
theorem checkLinks_refuses (hproper : tree.Proper) (hdir : tree.node current.parts = some .dir)
    (hnames : ∀ name ∈ names, IsName name ∧ name ≠ text "..") :
    (checkLinks workspace current names directories).Ensures tree.Opens () (Action.OnRaise fun e ↦
      IsolationFailure e ∧ ∃ name ∈ names, tree.Linked (current.parts ++ [name]) ∧
        ¬tree.Inside workspace (current.parts ++ [name])) := by
  have hnamed := hproper.named hdir
  induction names generalizing directories with
  | nil => trivial
  | cons name names ih =>
    obtain ⟨⟨hname, hup⟩, hrest⟩ := List.forall_mem_cons.mp hnames
    have hlater : ∀ directories,
        (checkLinks workspace current names directories).Ensures tree.Opens ()
          (Action.OnRaise fun e ↦ IsolationFailure e ∧ ∃ name' ∈ name :: names,
            tree.Linked (current.parts ++ [name']) ∧
            ¬tree.Inside workspace (current.parts ++ [name'])) := by
      intro directories
      refine (ih hrest).mono fun x _ hx ↦ hx.mono ?_
      rintro e ⟨hfailure, name', hname', hbad⟩
      exact ⟨hfailure, name', List.mem_cons_of_mem _ hname', hbad⟩
    have hlast : (Path.mk (current.parts ++ [name])).Named := hnamed.concat hup
    rw [checkLinks, Path.join_of_isName hname, Action.ensures_bind]
    refine (isSymlink_opens hdir hnamed).mono fun x _ hx ↦ ?_
    rcases x with _ | linked
    · exact hx.elim
    rw [Action.after_ok]
    cases linked with
    | false => exact hlater directories
    | true =>
      have hlink := hx rfl
      rw [if_pos rfl, Action.ensures_bind]
      refine (resolve_opens hlast).mono ?_
      rintro _ ⟨⟩ (⟨target, rfl, hleads⟩ | ⟨e, rfl, hfailure, hnowhere⟩)
      · rw [Action.after_ok]
        by_cases hinside : target.IsRelativeTo workspace
        · rw [if_pos hinside]
          exact hlater _
        · rw [if_neg hinside]
          refine ⟨⟨_, rfl⟩, name, List.mem_cons_self, hlink, ?_⟩
          rintro ⟨place, hplace, hbelow⟩
          rw [FileTree.Walks.unique hplace hleads] at hbelow
          exact hinside hbelow
      · refine ⟨hfailure, name, List.mem_cons_self, hlink, ?_⟩
        rintro ⟨target, htarget, -⟩
        exact hnowhere target htarget

theorem pushDirectories_raises {W : Type} {Env : W → Event OsCall.Answer → W → Prop} {w : W}
    {P : Exc → Prop} :
    (pushDirectories current names stack).Ensures Env w (Action.OnRaise P) := by
  induction names generalizing stack w with
  | nil => trivial
  | cons name names ih =>
    rw [pushDirectories, Action.ensures_bind, Os.islink, Action.ensures_ask]
    rintro answer w' -
    rw [Action.after_ok]
    cases answer with
    | true => exact ih
    | false => exact ih

theorem scandir_opens : (Os.translate Exc.isOsError (fun _ ↦ walkError)
    (Os.scandir current)).Ensures tree.Opens () (Action.Returned fun entries _ ↦
      Shows tree ⟨.scandir current, .ok entries⟩ ∧ (entries.map (·.name)).Nodup ∧
      ∀ entry ∈ entries, tree.LeadsToDir ⟨current.parts ++ [entry.name]⟩ → entry.isDir = true) := by
  rw [Os.ensures_translate, Os.scandir, Action.ensures_ask]
  rintro answer ⟨⟩ hopens
  obtain ⟨entries, rfl, hkinds⟩ := hopens.2
  exact ⟨hopens.1.1, hopens.1.2, hkinds⟩

/-- A place in the workspace that is not in `.git`. -/
def Path.Outside (path workspace : Path) : Prop :=
  ∃ names, path.parts = workspace.parts ++ names ∧ names.head? ≠ some (text ".git")

/-- The links of a directory that the walk comes to are inspected, but for a `.git` of the workspace
that is struck off. -/
theorem HostTree.inspected_of_linked {name : Text} (hcurrent : current.Outside workspace)
    (hlink : tree.Linked (current.parts ++ [name]))
    (hgit : current = workspace → name = text ".git" → ¬tree.LeadsToDir ⟨current.parts ++ [name]⟩) :
    ∃ names, current.parts ++ [name] = workspace.parts ++ names ∧
    tree.Inspected workspace names := by
  obtain ⟨names, hparts, hhead⟩ := hcurrent
  refine ⟨names ++ [name], by rw [hparts, List.append_assoc], by simp, ?_, fun hagain ↦ ?_⟩
  · rwa [← List.append_assoc, ← hparts]
  · cases names with
    | cons => exact absurd hagain hhead
    | nil =>
      rw [List.append_nil] at hparts
      obtain rfl : current = workspace := congrArg Path.mk hparts
      obtain rfl : name = text ".git" := Option.some.inj hagain
      exact hgit rfl rfl

/-- **Whatever is raised** is a refusal of a link that the validation looks at. -/
theorem walkSymlinks_refuses (hproper : tree.Proper) (hstack : tree.Walkable stack)
    (houtside : ∀ path ∈ stack, path.Outside workspace) :
    (walkSymlinks workspace fuel stack).Ensures tree.Opens () (Action.OnRaise fun e ↦
      IsolationFailure e ∧ ¬tree.Accepted workspace) := by
  induction fuel generalizing stack with
  | zero => trivial
  | succ fuel ih =>
    cases stack with
    | nil => trivial
    | cons current stack =>
      have hdir := hstack.dir current List.mem_cons_self
      have hcurrent := houtside current List.mem_cons_self
      rw [walkSymlinks, Action.ensures_bind]
      refine scandir_opens.mono fun x _ hx ↦ ?_
      rcases x with _ | entries
      · exact hx.elim
      obtain ⟨hshows, honce, hkinds⟩ := hx
      rw [Action.after_ok]
      have hlisted : tree.Listed workspace current _ _ :=
        HostTree.listed_of_scandir hproper hdir hshows
      refine Action.Ensures.bind_onRaise ?_ checkLinks_sublist fun kept _ hkept ↦ ?_
      · refine (checkLinks_refuses hproper hdir hlisted.isName).mono fun x _ hx ↦ hx.mono ?_
        rintro e ⟨hfailure, name, hname, hlink, hout⟩
        have hgit : current = workspace → name = text ".git" →
            ¬tree.LeadsToDir ⟨current.parts ++ [name]⟩ := by
          -- a `.git` that is not struck off is among the files
          rintro hworkspace rfl hleads
          rcases List.mem_append.mp hname with hname | hname
          · exact (mem_pruned.mp hname).2 hworkspace rfl
          · obtain ⟨entry, hentry, hgit⟩ := List.mem_map.mp hname
            obtain ⟨hentry, hkind⟩ := List.mem_filter.mp hentry
            rw [hkinds entry hentry (hgit ▸ hleads)] at hkind
            exact absurd hkind (by simp)
        obtain ⟨names, hnames, hinspected⟩ := HostTree.inspected_of_linked hcurrent hlink hgit
        exact ⟨hfailure, fun haccepted ↦ hout (hnames ▸ haccepted names hinspected)⟩
      · have hpruned := hkept.trans pruned_sublist
        refine Action.Ensures.bind_onRaise pushDirectories_raises
          ((hstack.step hproper hshows honce hpruned).of_env HostTree.Opens.lists) ?_
        rintro _ ⟨⟩ ⟨hwalkable, pushed, hpushed, rfl⟩
        refine ih hwalkable fun path hpath ↦ ?_
        rcases List.mem_append.mp hpath with hpath | hpath
        · obtain ⟨name, hname, rfl⟩ := mem_children.mp hpath
          obtain ⟨names, hparts, hhead⟩ := hcurrent
          refine ⟨names ++ [name], by rw [hparts, List.append_assoc], ?_⟩
          cases names with
          | cons => exact hhead
          | nil =>
            rw [List.append_nil] at hparts
            have hgit := (mem_pruned.mp (hkept.subset (hpushed name hname))).2
              (congrArg Path.mk hparts)
            exact fun hagain ↦ hgit (Option.some.inj hagain)
        · exact houtside path (List.mem_cons_of_mem _ hpath)

/-! ## What the walk accepts -/

/-- A `.git` that is a link, and leads to no directory, is a link among the files of the
workspace. -/
theorem walkSymlinks_git (hproper : tree.Proper) (hdir : tree.node workspace.parts = some .dir)
    (hlink : tree.Linked (workspace.parts ++ [text ".git"]))
    (hno : ¬tree.LeadsToDir ⟨workspace.parts ++ [text ".git"]⟩) :
    (walkSymlinks workspace fuel (workspace :: stack)).Ensures tree.Tells ()
      (Action.OnReturn fun _ _ ↦ tree.Inside workspace (workspace.parts ++ [text ".git"])) := by
  have hsettled := FileTree.settled_of_dir hdir
  have hnamed := hproper.named hdir
  cases fuel with
  | zero => trivial
  | succ fuel =>
    rw [walkSymlinks, Action.ensures_bind_onReturn, Os.ensures_translate, Os.scandir,
      Action.ensures_ask]
    rintro (_ | entries) ⟨⟩ hshows
    · trivial
    have hlisted : tree.Listed workspace workspace _ _ :=
      HostTree.listed_of_scandir hproper hdir hshows
    obtain ⟨place, hleads, -, hall, hkinds⟩ := hshows
    obtain rfl := (HostTree.leads_of_settled hsettled hnamed).mp hleads
    obtain ⟨absolute, target, hnode⟩ := id hlink
    obtain ⟨entry, hentry, hgit⟩ := List.mem_map.mp ((hall (text ".git")).mp (by rw [hnode]; rfl))
    have hkind : entry.isDir = false := by
      by_contra hkind
      obtain ⟨target, hwalks, htarget⟩ := (hkinds entry hentry).2 (Bool.not_eq_false _ ▸ hkind)
      rw [hgit] at hwalks
      exact hno ⟨target, (hproper.leads_entry hdir (by decide)).mpr hwalks, htarget⟩
    have hmem : text ".git" ∈ (entries.filter (!·.isDir)).map (·.name) :=
      hgit ▸ List.mem_map_of_mem (List.mem_filter.mpr ⟨hentry, by simp [hkind]⟩)
    show (checkLinks _ _ _ _ >>= _).Ensures _ _ _
    rw [Action.ensures_bind_onReturn]
    refine (checkLinks_links hproper hdir hlisted.isName).mono fun x _ hx ↦ hx.mono ?_
    rintro kept ⟨hlinks, -⟩
    exact Action.ensures_onReturn_of_forall fun _ _ ↦
      hlinks (text ".git") (List.mem_append_right _ hmem) hlink

/-- **What is accepted**: every link that the validation looks at leads to somewhere inside. -/
theorem HostTree.accepted_of_returns (hproper : tree.Proper)
    (hdir : tree.node workspace.parts = some .dir)
    (hvalidate : (validateSymlinks fuel workspace).Returns log (.ok ()))
    (hshows : ∀ e ∈ log, Shows tree e) : tree.Accepted workspace := by
  rintro names ⟨hne, hlink, hgit⟩
  by_cases hhead : names.head? = some (text ".git")
  swap
  · exact HostTree.validated_of_returns hproper hdir hvalidate hshows names hne hhead hlink
  have hno := hgit hhead
  obtain ⟨rest, rfl⟩ : ∃ rest, names = text ".git" :: rest := by
    cases names with
    | nil => exact absurd rfl hne
    | cons name rest => exact ⟨rest, by rw [Option.some.inj hhead]⟩
  cases rest with
  | nil => exact (walkSymlinks_git hproper hdir hlink hno).of_returns hvalidate (.of_forall hshows)
  | cons name rest =>
    -- what a link stands below is a directory, and no link
    obtain ⟨absolute, target, hnode⟩ := hlink
    have hsplit : workspace.parts ++ text ".git" :: name :: rest =
        workspace.parts ++ [text ".git"] ++ name :: rest := by simp
    rw [hsplit] at hnode
    have hentry := tree.dir_of_below hnode (List.prefix_append _ _) (by simp)
    exact absurd ⟨_, (HostTree.leads_of_settled (FileTree.settled_of_dir hentry)
      (hproper.named hentry)).mpr rfl, hentry⟩ hno

theorem HostTree.walkable_root (hdir : tree.node workspace.parts = some .dir) :
    tree.Walkable [workspace] :=
  ⟨fun _ hpath ↦ List.mem_singleton.mp hpath ▸ hdir, List.pairwise_singleton _ _⟩

/-- What the validation comes to, where the host fails at no look. -/
theorem HostTree.validateSymlinks_opens (hproper : tree.Proper)
    (hdir : tree.node workspace.parts = some .dir) :
    (validateSymlinks fuel workspace).Ensures tree.Opens () fun x _ ↦
      (x = .ok () ∧ tree.Accepted workspace) ∨
        ∃ e, x = .error e ∧ IsolationFailure e ∧ ¬tree.Accepted workspace := by
  have houtside : ∀ path ∈ [workspace], path.Outside workspace := fun path hpath ↦
    ⟨[], by rw [List.mem_singleton.mp hpath, List.append_nil], by simp⟩
  refine Action.ensures_iff.mpr fun log x _ hret hsteps ↦ ?_
  cases x with
  | ok _ =>
    refine .inl ⟨rfl, HostTree.accepted_of_returns hproper hdir hret fun e he ↦ ?_⟩
    obtain ⟨_, _, hopens⟩ := hsteps.exists_of_mem he
    exact hopens.1.1
  | error e =>
    exact .inr ⟨e, rfl, Action.ensures_iff.mp
      (walkSymlinks_refuses hproper (walkable_root hdir) houtside) log _ _ hret hsteps⟩

/-- **The validation of links decides** whether every link that it looks at leads to somewhere
inside the workspace: given more rounds than there are directories in the workspace it comes to an
end, whatever the host fails at, and where the host fails at no look, it returns when they all do,
and otherwise refuses. -/
theorem HostTree.validateSymlinks_decides (hproper : tree.Proper)
    (hdir : tree.node workspace.parts = some .dir) (hfinite : (tree.Below [workspace]).Finite)
    (hfuel : (tree.Below [workspace]).ncard < fuel) :
    (validateSymlinks fuel workspace).Ends tree.Lists () ∧
    ∀ log x, (validateSymlinks fuel workspace).Returns log x → (∀ e ∈ log, tree.Opens () e ()) →
      (x = .ok () ∧ tree.Accepted workspace) ∨
      (∃ e, x = .error e ∧ IsolationFailure e ∧ ¬tree.Accepted workspace) :=
  ⟨walkSymlinks_ends hproper (walkable_root hdir) hfinite hfuel, fun log x hret hopens ↦
    Action.ensures_iff.mp (validateSymlinks_opens hproper hdir) log x () hret (.of_forall hopens)⟩

end

/-- A tree of a list has no more directories than the list has entries, and the root. -/
theorem HostTree.below_ofList {entries : List (List Text × Node Text Bytes)}
    {hlist : ∀ entry ∈ entries, FileTree.lookup entries entry.1.dropLast = some .dir}
    {stack : List Path} : (HostTree.Below (FileTree.ofList entries hlist) stack).Finite ∧
      (HostTree.Below (FileTree.ofList entries hlist) stack).ncard ≤ entries.length + 1 := by
  let places : Finset (List Text) := ([] :: entries.map Prod.fst).toFinset
  have hsub : HostTree.Below (FileTree.ofList entries hlist) stack ⊆ places := by
    rintro place ⟨hdir, -⟩
    rw [Finset.mem_coe, List.mem_toFinset, List.mem_cons]
    by_cases hplace : place = []
    · exact .inl hplace
    · exact .inr (List.mem_map.mpr ⟨_, FileTree.mem_of_lookup hdir hplace, rfl⟩)
  refine ⟨places.finite_toSet.subset hsub, ?_⟩
  calc (HostTree.Below (FileTree.ofList entries hlist) stack).ncard
      ≤ (places : Set (List Text)).ncard := Set.ncard_le_ncard hsub places.finite_toSet
    _ = places.card := Set.ncard_coe_finset places
    _ ≤ ([] :: entries.map Prod.fst).length := List.toFinset_card_le _
    _ = entries.length + 1 := by simp

theorem hiddenLinkLog_opens : ∀ e ∈ hiddenLinkLog, hiddenLinkTree.Opens () e () := by
  intro e he
  refine ⟨⟨hiddenLinkLog_shows e he, ?_⟩, ?_⟩
  all_goals
    rw [hiddenLinkLog] at he
    simp only [List.mem_cons, List.not_mem_nil, or_false] at he
    rcases he with rfl | rfl | rfl
  · show [text ".git", text "a"].Nodup
    decide
  · trivial
  · trivial
  · refine ⟨_, rfl, fun entry hentry _ ↦ ?_⟩
    have hcases : entry = ⟨".git", true⟩ ∨ entry = ⟨"a", true⟩ := by simpa using hentry
    rcases hcases with rfl | rfl <;> rfl
  · exact ⟨_, rfl, fun _ ↦ rfl⟩
  · trivial

/-- The workspace with a link into `.git` is accepted. -/
theorem HostTree.validateSymlinks_decides_hidden :
    (validateSymlinks 7 ⟨["work"]⟩).Ends hiddenLinkTree.Lists () ∧
      hiddenLinkTree.Accepted ⟨["work"]⟩ := by
  have hbelow : (hiddenLinkTree.Below [⟨["work"]⟩]).Finite ∧
      (hiddenLinkTree.Below [⟨["work"]⟩]).ncard ≤ hiddenLinkEntries.length + 1 :=
        HostTree.below_ofList
  have hfuel : (hiddenLinkTree.Below [⟨["work"]⟩]).ncard < 7 := Nat.lt_succ_of_le hbelow.2
  have hdecides := HostTree.validateSymlinks_decides hiddenLinkTree_proper rfl hbelow.1 hfuel
  refine ⟨hdecides.1, ?_⟩
  have hret : (validateSymlinks 7 ⟨["work"]⟩).Returns hiddenLinkLog (.ok ()) :=
    Interaction.Leads.cons
      (Interaction.Leads.cons (Interaction.Leads.cons (Interaction.Leads.nil _)))
  rcases hdecides.2 hiddenLinkLog (.ok ()) hret hiddenLinkLog_opens with ⟨-, haccepted⟩ | ⟨e, he, -⟩
  · exact haccepted
  · exact absurd he (by simp)

end Alicerce
