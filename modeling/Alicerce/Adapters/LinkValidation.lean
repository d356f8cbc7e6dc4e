import Alicerce.Adapters.GitConduct
import Alicerce.Lib.Confinement

/-!
# What the validation of links is worth

The links of a workspace are validated by a walk through its directories, which leaves out `.git`,
and does not go through links.

* `HostTree.Tells`: the host tells the truth about files that stay as they are.
* `HostTree.validated_of_returns`: when the walk returns, every link outside `.git` leads to
  somewhere inside the workspace.  `HostTree.Sound` is the invariant, of a directory and of what is
  below it.
* `HostTree.Confined`: every path that does not begin with `.git` leads to somewhere inside.
* `HostTree.confined_exact` is the exact condition for that: a path may still leave the workspace,
  by a link that leads into `.git`, and one that stands there.
* `hidden_link_escapes`: a workspace that was validated, and does not meet it.
-/

set_option autoImplicit false

namespace Alicerce

open Py Lib

/-! ## Trees of a host -/

/-- Entries have the names a directory can hold. -/
def HostTree.Proper (tree : HostTree) : Prop :=
  ∀ place name n, tree.node (place ++ [name]) = some n → IsName name ∧ name ≠ text ".."

/-- Every path into a workspace that does not begin with `.git`, and goes down by the names of
entries, leads to somewhere inside the workspace when it leads anywhere. -/
def HostTree.Confined (tree : HostTree) (workspace : Path) : Prop :=
  ∀ names place, names.head? ≠ some (text ".git") → (∀ name ∈ names, name ≠ text "..") →
    tree.Leads ⟨workspace.parts ++ names⟩ place → workspace.parts <+: place

section

variable {tree : HostTree} {workspace current : Path} {place : List Text} {name : Text}
  {names directories : List Text} {stack stack' : List Path} {log : OsLog} {fuel : ℕ}

theorem HostTree.linkAt_iff : tree.LinkAt place ↔ tree.Linked place := by
  constructor
  · rintro ⟨n, hn, hlink⟩
    cases n with
    | link absolute target => exact ⟨absolute, target, hn⟩
    | dir | file => exact hlink.elim
  · rintro ⟨absolute, target, hn⟩
    exact ⟨_, hn, trivial⟩

/-- What stands somewhere is named by the entries that lead to it. -/
theorem HostTree.Proper.named (h : tree.Proper) {n : Node Text Bytes}
    (hn : tree.node place = some n) : (Path.mk place).Named := by
  induction place using List.reverseRecOn generalizing n with
  | nil => exact fun part hpart ↦ absurd hpart (by simp)
  | append_singleton place name ih =>
    intro part hpart
    rcases List.mem_append.mp hpart with hpart | hpart
    · exact ih (tree.parent hn) part hpart
    · rw [List.mem_singleton.mp hpart]
      exact (h place name n hn).2

theorem HostTree.leads_iff_leading (hnamed : (Path.mk place).Named) {target : List Text} :
    tree.Leads ⟨place⟩ target ↔ tree.Leading place target := by
  rw [HostTree.Leads, FileTree.Leading, Path.steps_of_named hnamed]

/-- A path that only goes down goes by the names of entries. -/
theorem HostTree.Proper.names_of_walks (h : tree.Proper) {target : List Text}
    (hwalks : tree.Walks place (FileTree.down names) target) :
      ∀ name ∈ names, name ≠ text ".." := by
  induction names generalizing place with
  | nil => simp
  | cons name names ih =>
    rw [List.forall_mem_cons]
    have hsplit : FileTree.down (name :: names) = FileTree.down [name] ++ FileTree.down names := rfl
    rw [hsplit, FileTree.walks_append] at hwalks
    obtain ⟨middle, hfirst, hrest⟩ := hwalks
    refine ⟨?_, ih hrest⟩
    cases hfirst with
    | into head tail =>
      obtain ⟨n, hn, -⟩ := head
      exact (h _ _ _ hn).2
    | follow head tail => exact (h _ _ _ head).2

/-- The paths into a workspace are those that go down from it. -/
theorem HostTree.confined_iff (h : tree.Proper) (hdir : tree.node workspace.parts = some .dir) :
    tree.Confined workspace ↔ tree.Confines workspace.parts (text ".git") := by
  have hnamed := h.named hdir
  have hleads : ∀ {names target}, (∀ name ∈ names, name ≠ text "..") →
      (tree.Leads ⟨workspace.parts ++ names⟩ target ↔
        tree.Walks workspace.parts (FileTree.down names) target) := by
    intro names target hnames
    rw [HostTree.leads_iff_leading, FileTree.leading_append (FileTree.settled_of_dir hdir)]
    exact fun part hpart ↦ (List.mem_append.mp hpart).elim (hnamed part) (hnames part)
  constructor
  · intro hconfined names target hhead hwalks
    have hnames := h.names_of_walks hwalks
    exact hconfined names target hhead hnames ((hleads hnames).mpr hwalks)
  · exact fun hconfines names target hhead hnames hlead ↦
      hconfines names target hhead ((hleads hnames).mp hlead)

/-! ## The walk -/

/-- A host that tells the truth about files that stay as they are. -/
abbrev HostTree.Tells (tree : HostTree) (_ : Unit) (event : Event OsCall.Answer) (_ : Unit) :
    Prop :=
  Shows tree event

/-- Every link below a directory leads to somewhere inside the workspace, but for what `.git` hides
in the workspace itself. -/
def HostTree.Sound (tree : HostTree) (workspace current : Path) : Prop :=
  ∀ names, names ≠ [] → (current = workspace → names.head? ≠ some (text ".git")) →
    tree.Linked (current.parts ++ names) →
    ∃ target, tree.Leading (current.parts ++ names) target ∧ workspace.parts <+: target

/-- The links among the names that are checked lead to somewhere inside the workspace, and no
directory is struck off that is not a link. -/
theorem checkLinks_links (h : tree.Proper) (hdir : tree.node current.parts = some .dir)
    (hnames : ∀ name ∈ names, IsName name ∧ name ≠ text "..") :
    (checkLinks workspace current names directories).Ensures tree.Tells ()
      (Action.OnReturn fun kept _ ↦ (∀ name ∈ names, tree.Linked (current.parts ++ [name]) →
        ∃ target, tree.Leading (current.parts ++ [name]) target ∧ workspace.parts <+: target) ∧
      (∀ name ∈ directories, ¬tree.Linked (current.parts ++ [name]) → name ∈ kept) ∧
      ∀ name ∈ kept, name ∈ directories) := by
  have hnamed := h.named hdir
  induction names generalizing directories with
  | nil => exact ⟨by simp, fun _ hname _ ↦ hname, fun _ hname ↦ hname⟩
  | cons name names ih =>
    obtain ⟨hname, hrest⟩ := List.forall_mem_cons.mp hnames
    rw [checkLinks, Path.join_of_isName hname.1, Action.ensures_bind_onReturn, Os.isSymlink,
      Action.ensures_ask]
    rintro (_ | answer) ⟨⟩ htells
    · trivial
    cases answer with
    | true =>
      -- the resolution of a link is that of the path to it
      have hends := HostTree.linkAt_of_endsInLink (FileTree.settled_of_dir hdir) hnamed
        (htells.1 rfl)
      have hlast : (Path.mk (current.parts ++ [name])).Named := by
        intro part hpart
        rcases List.mem_append.mp hpart with hpart | hpart
        · exact hnamed part hpart
        · rw [List.mem_singleton.mp hpart]
          exact hname.2
      simp only [Except.mapError, Action.onReturn_ok, if_true]
      rw [Action.ensures_bind_onReturn]
      refine Action.Ensures.tryCatch_onReturn ?_ fun _ _ ↦ trivial
      rw [Os.resolve, Action.ensures_ask]
      rintro (_ | target) ⟨⟩ hresolve
      · trivial
      rw [Except.mapError, Action.onReturn_ok]
      by_cases hinside : target.IsRelativeTo workspace
      swap
      · rw [if_neg hinside]
        trivial
      rw [if_pos hinside]
      refine (ih hrest).mono ?_
      rintro (_ | kept) ⟨⟩ hkept
      · trivial
      obtain ⟨hlinks, hkeeps, hsub⟩ := hkept
      refine ⟨List.forall_mem_cons.mpr ⟨fun _ ↦ ⟨target.parts,
        (HostTree.leads_iff_leading hlast).mp hresolve, hinside⟩, hlinks⟩, ?_,
        fun other hother ↦ List.mem_of_mem_erase (hsub other hother)⟩
      intro other hother hno
      refine hkeeps other ?_ hno
      have hne : other ≠ name := by
        rintro rfl
        exact hno (HostTree.linkAt_iff.mp hends)
      exact (List.mem_erase_of_ne hne).mpr hother
    | false =>
      have hno : ¬tree.Linked (current.parts ++ [name]) := fun hlink ↦
        Shows.not_link htells (HostTree.linkAt_iff.mpr hlink)
      refine (ih hrest).mono ?_
      rintro (_ | kept) ⟨⟩ hkept
      · trivial
      exact ⟨List.forall_mem_cons.mpr ⟨fun hlink ↦ absurd hlink hno, hkept.1⟩, hkept.2⟩

theorem pushDirectories_keeps : (pushDirectories current names stack).Ensures tree.Tells ()
    (Action.OnReturn fun stack' _ ↦ ∀ path ∈ stack, path ∈ stack') := by
  induction names generalizing stack with
  | nil => exact fun _ hpath ↦ hpath
  | cons name names ih =>
    rw [pushDirectories, Action.ensures_bind_onReturn, Os.islink, Action.ensures_ask]
    rintro answer ⟨⟩ -
    rw [Action.onReturn_ok]
    cases answer with
    | true => exact ih
    | false =>
      refine ih.mono ?_
      rintro (_ | stack') ⟨⟩ hstack
      · trivial
      exact fun path hpath ↦ hstack path (List.mem_cons_of_mem _ hpath)

/-- The directories that are no links are pushed. -/
theorem pushDirectories_pushes (hdir : tree.node current.parts = some .dir)
    (hnamed : current.Named) (hnames : ∀ name ∈ names, IsName name) :
    (pushDirectories current names stack).Ensures tree.Tells () (Action.OnReturn fun stack' _ ↦
      ∀ name ∈ names, ¬tree.Linked (current.parts ++ [name]) →
        Path.mk (current.parts ++ [name]) ∈ stack') := by
  induction names generalizing stack with
  | nil =>
    intro name hname
    cases hname
  | cons name names ih =>
    obtain ⟨hname, hrest⟩ := List.forall_mem_cons.mp hnames
    rw [pushDirectories, Path.join_of_isName hname, Action.ensures_bind_onReturn, Os.islink,
      Action.ensures_ask]
    rintro answer ⟨⟩ htells
    rw [Action.onReturn_ok]
    cases answer with
    | true =>
      have hlink : tree.Linked (current.parts ++ [name]) := HostTree.linkAt_iff.mp
        (HostTree.linkAt_of_endsInLink (FileTree.settled_of_dir hdir) hnamed (htells.1 rfl))
      refine (ih hrest).mono ?_
      rintro (_ | stack') ⟨⟩ hstack
      · trivial
      exact List.forall_mem_cons.mpr ⟨fun hno ↦ absurd hlink hno, hstack⟩
    | false =>
      refine ((ih hrest).and pushDirectories_keeps).mono ?_
      rintro (_ | stack') ⟨⟩ hstack
      · trivial
      exact List.forall_mem_cons.mpr ⟨fun _ ↦ hstack.2 _ List.mem_cons_self, hstack.1⟩

/-- What the walk of a directory makes sure of: its own links, and that what is not a link is
walked. -/
theorem HostTree.sound_of_entries
    (hlinks : ∀ name, (current = workspace → name ≠ text ".git") →
      tree.Linked (current.parts ++ [name]) →
      ∃ target, tree.Leading (current.parts ++ [name]) target ∧ workspace.parts <+: target)
    (hwalked : ∀ name, (current = workspace → name ≠ text ".git") →
      tree.node (current.parts ++ [name]) = some .dir →
      tree.Sound workspace ⟨current.parts ++ [name]⟩)
    (hbelow : workspace.parts <+: current.parts) : tree.Sound workspace current := by
  intro names hne hhead hlink
  cases names with
  | nil => exact absurd rfl hne
  | cons name rest =>
    have hname : current = workspace → name ≠ text ".git" := by
      rintro hcurrent rfl
      exact hhead hcurrent rfl
    cases rest with
    | nil => exact hlinks name hname hlink
    | cons other rest =>
      have hsplit : current.parts ++ name :: other :: rest =
          current.parts ++ [name] ++ other :: rest := by simp
      rw [hsplit] at hlink ⊢
      obtain ⟨absolute, target, hnode⟩ := hlink
      have hentry := tree.dir_of_below hnode (List.prefix_append _ _) (by simp)
      refine hwalked name hname hentry _ (by simp) ?_ ⟨absolute, target, hnode⟩
      -- an entry of a directory inside the workspace is not the workspace
      intro hagain
      have hlength := hbelow.length_le
      rw [← congrArg Path.parts hagain, List.length_append, List.length_singleton] at hlength
      omega

theorem mem_pruned {name : Text} : name ∈ (if current = workspace then
    directories.filter fun name ↦ name ≠ text ".git" else directories) ↔
      name ∈ directories ∧ (current = workspace → name ≠ text ".git") := by
  by_cases hcurrent : current = workspace
  · simp [hcurrent]
  · simp [hcurrent]

/-- The names of a directory, as the walk sorts them: without `.git` in the workspace itself. -/
structure HostTree.Listed (tree : HostTree) (workspace current : Path)
    (directories filenames : List Text) : Prop where
  isName : ∀ name ∈ directories ++ filenames, IsName name ∧ name ≠ text ".."
  mem : ∀ name, (current = workspace → name ≠ text ".git") →
    (tree.node (current.parts ++ [name])).isSome = true → name ∈ directories ++ filenames
  mem_directories : ∀ name, (current = workspace → name ≠ text ".git") →
    tree.node (current.parts ++ [name]) = some .dir → name ∈ directories

theorem HostTree.listed_of_scandir (h : tree.Proper) (hdir : tree.node current.parts = some .dir)
    {entries : List DirEntry} (hshows : Shows tree ⟨.scandir current, .ok entries⟩) :
    tree.Listed workspace current
      (if current = workspace then
          ((entries.filter (·.isDir)).map (·.name)).filter fun name ↦ name ≠ text ".git"
        else (entries.filter (·.isDir)).map (·.name))
      ((entries.filter (!·.isDir)).map (·.name)) := by
  obtain ⟨place, hleads, -, hall, hkinds⟩ := hshows
  obtain rfl := (HostTree.leads_of_settled (FileTree.settled_of_dir hdir) (h.named hdir)).mp hleads
  have hproper : ∀ entry ∈ entries, IsName entry.name ∧ entry.name ≠ text ".." := by
    intro entry hentry
    obtain ⟨n, hn⟩ := Option.isSome_iff_exists.mp
      ((hall entry.name).mpr (List.mem_map_of_mem hentry))
    exact h _ _ n hn
  refine ⟨?_, ?_, ?_⟩
  · intro name hname
    rcases List.mem_append.mp hname with hname | hname
    · obtain ⟨entry, hentry, rfl⟩ := List.mem_map.mp (mem_pruned.mp hname).1
      exact hproper entry (List.mem_of_mem_filter hentry)
    · obtain ⟨entry, hentry, rfl⟩ := List.mem_map.mp hname
      exact hproper entry (List.mem_of_mem_filter hentry)
  · intro name hgit hsome
    obtain ⟨entry, hentry, rfl⟩ := List.mem_map.mp ((hall name).mp hsome)
    rw [List.mem_append]
    cases hkind : entry.isDir with
    | true =>
      have hmem : entry ∈ entries.filter (·.isDir) := List.mem_filter.mpr ⟨hentry, hkind⟩
      exact .inl (mem_pruned.mpr ⟨List.mem_map_of_mem hmem, hgit⟩)
    | false =>
      have hmem : entry ∈ entries.filter (!·.isDir) := List.mem_filter.mpr ⟨hentry, by simp [hkind]⟩
      exact .inr (List.mem_map_of_mem hmem)
  · intro name hgit hnode
    obtain ⟨entry, hentry, rfl⟩ := List.mem_map.mp ((hall name).mp (by rw [hnode]; rfl))
    have hmem : entry ∈ entries.filter (·.isDir) :=
      List.mem_filter.mpr ⟨hentry, (hkinds entry hentry).1 hnode⟩
    exact mem_pruned.mpr ⟨List.mem_map_of_mem hmem, hgit⟩

/-- Every directory that is walked is sound. -/
theorem walkSymlinks_sound (h : tree.Proper) :
    (walkSymlinks workspace fuel stack).Ensures tree.Tells () (Action.OnReturn fun _ _ ↦
      ∀ path ∈ stack, workspace.parts <+: path.parts → tree.node path.parts = some .dir →
        tree.Sound workspace path) := by
  induction fuel generalizing stack with
  | zero => trivial
  | succ fuel ih =>
    cases stack with
    | nil =>
      intro path hpath
      cases hpath
    | cons current stack =>
      rw [walkSymlinks, Action.ensures_bind_onReturn]
      refine Action.Ensures.tryCatch_onReturn ?_ fun _ _ ↦ trivial
      rw [Os.scandir, Action.ensures_ask]
      rintro (_ | entries) ⟨⟩ hshows
      · trivial
      simp only [Except.mapError, Action.onReturn_ok]
      rw [Action.ensures_bind_onReturn]
      by_cases hdir : tree.node current.parts = some .dir
      swap
      · refine (Action.ensures_onReturn_of_forall fun kept _ ↦ ?_ :
          (checkLinks workspace current _ _).Ensures tree.Tells () _)
        rw [Action.ensures_bind_onReturn]
        refine pushDirectories_keeps.mono ?_
        rintro (_ | stack') ⟨⟩ hkeeps
        · trivial
        refine ih.mono ?_
        rintro (_ | _) ⟨⟩ hsound
        · trivial
        intro path hpath hbelow hpathDir
        rcases List.mem_cons.mp hpath with rfl | hpath
        · exact absurd hpathDir hdir
        · exact hsound path (hkeeps path hpath) hbelow hpathDir
      have hlisted : tree.Listed workspace current _ _ := HostTree.listed_of_scandir h hdir hshows
      generalize (if current = workspace then _ else _) = directories at hlisted ⊢
      refine (checkLinks_links h hdir hlisted.isName).mono ?_
      rintro (_ | kept) ⟨⟩ hkept
      · trivial
      obtain ⟨hlinks, hkeeps, hsub⟩ := hkept
      have hnames : ∀ name ∈ kept.reverse, IsName name := fun name hname ↦
        (hlisted.isName name (List.mem_append_left _ (hsub name (List.mem_reverse.mp hname)))).1
      rw [Action.onReturn_ok, Action.ensures_bind_onReturn]
      refine ((pushDirectories_pushes hdir (h.named hdir) hnames).and pushDirectories_keeps).mono ?_
      rintro (_ | stack') ⟨⟩ hpushed
      · trivial
      obtain ⟨hpushes, hstack⟩ := hpushed
      refine ih.mono ?_
      rintro (_ | _) ⟨⟩ hsound
      · trivial
      intro path hpath hbelow hpathDir
      rcases List.mem_cons.mp hpath with rfl | hpath
      · refine HostTree.sound_of_entries ?_ ?_ hbelow
        · intro name hgit hlink
          obtain ⟨absolute, target, hnode⟩ := hlink
          exact hlinks name (hlisted.mem name hgit (by rw [hnode]; rfl)) ⟨absolute, target, hnode⟩
        · intro name hgit hnode
          have hno : ¬tree.Linked (path.parts ++ [name]) := by
            rintro ⟨absolute, target, hlink⟩
            exact absurd (hnode.symm.trans hlink) (by simp)
          have hmem := hkeeps name (hlisted.mem_directories name hgit hnode) hno
          exact hsound _ (hpushes name (List.mem_reverse.mpr hmem) hno)
            (hbelow.trans (List.prefix_append _ _)) hnode
      · exact hsound path (hstack path hpath) hbelow hpathDir

/-- **What the validation is worth**: every link outside `.git` leads to somewhere inside the
workspace. -/
theorem HostTree.validated_of_returns (h : tree.Proper)
    (hdir : tree.node workspace.parts = some .dir)
    (hvalidate : (validateSymlinks fuel workspace).Returns log (.ok ()))
    (hshows : ∀ e ∈ log, Shows tree e) : tree.Validated workspace.parts (text ".git") := by
  have hsound := (walkSymlinks_sound h).of_returns hvalidate (.of_forall hshows) workspace
    List.mem_cons_self (List.prefix_refl _) hdir
  exact fun names hne hhead hlink ↦ hsound names hne (fun _ ↦ hhead) hlink

/-! ## What it is not worth -/

/-- **A workspace whose links were validated confines its paths** exactly when the links in `.git`
lead to somewhere inside the workspace, too, as far as a path can come upon them: those that stand
below what a link leads to that was allowed, or that is such a link itself. -/
theorem HostTree.confined_exact (h : tree.Proper) (hdir : tree.node workspace.parts = some .dir)
    (hvalidate : (validateSymlinks fuel workspace).Returns log (.ok ()))
    (hshows : ∀ e ∈ log, Shows tree e) :
    tree.Confined workspace ↔ ∀ link target, tree.Exposed workspace.parts (text ".git") link →
      workspace.parts ++ [text ".git"] <+: link → tree.Leading link target →
      workspace.parts <+: target := by
  rw [HostTree.confined_iff h hdir]
  exact FileTree.confines_iff (FileTree.settled_of_dir hdir)
    (HostTree.validated_of_returns h hdir hvalidate hshows)

end

/-- In a tree of a list, entries have the names of the list. -/
theorem HostTree.proper_ofList {entries : List (List Text × Node Text Bytes)}
    {hlist : ∀ entry ∈ entries, FileTree.lookup entries entry.1.dropLast = some .dir}
    (hnames : ∀ entry ∈ entries, ∀ name ∈ entry.1, IsName name ∧ name ≠ text "..") :
    HostTree.Proper (FileTree.ofList entries hlist) := by
  intro place name n hn
  exact hnames _ (FileTree.mem_of_lookup hn (by simp)) name (by simp)

/-- A workspace with a link into `.git`, and one in there that leads out. -/
def hiddenLinkEntries : List (List Text × Node Text Bytes) :=
  [(["work"], .dir), (["outside"], .dir), (["work", "a"], .link false [.into ".git"]),
    (["work", ".git"], .dir), (["work", ".git", "x"], .link true [.into "outside"])]

def hiddenLinkTree : HostTree := FileTree.ofList hiddenLinkEntries (by decide)

/-- What its validation sees. -/
def hiddenLinkLog : OsLog :=
  [⟨.scandir ⟨["work"]⟩, .ok [⟨".git", true⟩, ⟨"a", true⟩]⟩, ⟨.isSymlink ⟨["work", "a"]⟩, .ok true⟩,
    ⟨.resolve ⟨["work", "a"]⟩, .ok ⟨["work", ".git"]⟩⟩]

/-- A path through the link goes on in `.git`. -/
theorem hiddenLinkTree_walks {rest : List (PathStep Text)} {target : List Text}
    (h : hiddenLinkTree.Walks ["work", ".git"] rest target) :
    hiddenLinkTree.Walks ["work"] (.into (text "a") :: rest) target := by
  have hlink : hiddenLinkTree.node ([text "work"] ++ [text "a"]) =
      some (.link false [.into (text ".git")]) := rfl
  exact .follow hlink (.into ⟨.dir, rfl, id⟩ h)

theorem hiddenLinkTree_proper : hiddenLinkTree.Proper := HostTree.proper_ofList (by decide)

theorem hiddenLinkLog_returns :
    (validateSymlinks 2 ⟨["work"]⟩).Returns hiddenLinkLog (.ok ()) :=
  Interaction.Leads.cons (Interaction.Leads.cons (Interaction.Leads.cons (Interaction.Leads.nil _)))

theorem hiddenLinkLog_shows : ∀ e ∈ hiddenLinkLog, Shows hiddenLinkTree e := by
  have hwork : hiddenLinkTree.Leads ⟨["work"]⟩ ["work"] := .into ⟨.dir, rfl, id⟩ (.done _)
  rw [hiddenLinkLog]
  simp only [List.forall_mem_cons, List.not_mem_nil, false_implies, implies_true, and_true]
  refine ⟨⟨["work"], hwork, rfl, ?_, ?_⟩, ⟨?_, fun _ ↦ rfl⟩, ?_⟩
  · intro name
    constructor
    · intro hsome
      obtain ⟨n, hn⟩ := Option.isSome_iff_exists.mp hsome
      have hmem : ([text "work", name], n) ∈ hiddenLinkEntries :=
        FileTree.mem_of_lookup hn (by simp)
      have hcases : name = text ".git" ∧ n = .dir ∨
          name = text "a" ∧ n = .link false [.into (text ".git")] := by
        simpa [hiddenLinkEntries, or_comm] using hmem
      rcases hcases with ⟨rfl, -⟩ | ⟨rfl, -⟩
      · exact List.mem_cons_self
      · exact List.mem_cons_of_mem _ List.mem_cons_self
    · intro hname
      have hcases : name = text ".git" ∨ name = text "a" := by simpa using hname
      rcases hcases with rfl | rfl <;> rfl
  · intro entry hentry
    have hcases : entry = ⟨".git", true⟩ ∨ entry = ⟨"a", true⟩ := by simpa using hentry
    rcases hcases with rfl | rfl
    · exact ⟨fun _ ↦ rfl, fun _ ↦ ⟨_, .into ⟨.dir, rfl, id⟩ (.done _), rfl⟩⟩
    · refine ⟨fun _ ↦ rfl, fun _ ↦ ⟨["work", ".git"], ?_, rfl⟩⟩
      exact hiddenLinkTree_walks (.done _)
  · exact fun _ ↦ ⟨["work"], "a", ["work"], rfl, hwork, _, rfl, trivial⟩
  · exact .into ⟨.dir, rfl, id⟩ (hiddenLinkTree_walks (.done _))

theorem hiddenLinkTree_not_confined : ¬hiddenLinkTree.Confined ⟨["work"]⟩ := by
  intro hconfined
  have hout : hiddenLinkTree.Leads ⟨["work", "a", "x"]⟩ ["outside"] := by
    have hlink : hiddenLinkTree.node ([text "work", text ".git"] ++ [text "x"]) =
        some (.link true [.into (text "outside")]) := rfl
    have hlast : hiddenLinkTree.Walks [] [.into (text "outside")] ["outside"] :=
      .into ⟨.dir, rfl, id⟩ (.done _)
    exact .into ⟨.dir, rfl, id⟩ (hiddenLinkTree_walks (.follow hlink hlast))
  have hinside := hconfined ["a", "x"] ["outside"] (by decide) (by decide) hout
  revert hinside
  decide

/-- **The validation lets a path out**: the link into `.git` is inside the workspace, and nobody
looks at those that stand in there. -/
theorem hidden_link_escapes : ∃ (tree : HostTree) (workspace : Path) (fuel : ℕ) (log : OsLog),
    tree.Proper ∧ tree.node workspace.parts = some .dir ∧
      (validateSymlinks fuel workspace).Returns log (.ok ()) ∧ (∀ e ∈ log, Shows tree e) ∧
      ¬tree.Confined workspace :=
  ⟨hiddenLinkTree, ⟨["work"]⟩, 2, hiddenLinkLog, hiddenLinkTree_proper, rfl, hiddenLinkLog_returns,
    hiddenLinkLog_shows, hiddenLinkTree_not_confined⟩

/-- The link that lets it out there is one in `.git`. -/
theorem hidden_link_exposed : ∃ link target, hiddenLinkTree.Exposed ["work"] ".git" link ∧
    [text "work", text ".git"] <+: link ∧ hiddenLinkTree.Leading link target ∧
    ¬[text "work"] <+: target := by
  by_contra hnone
  have hsealed : ∀ link target, hiddenLinkTree.Exposed ["work"] ".git" link →
      [text "work", text ".git"] <+: link → hiddenLinkTree.Leading link target →
      [text "work"] <+: target := by
    intro link target hexposed hhidden hleads
    by_contra hout
    exact hnone ⟨link, target, hexposed, hhidden, hleads, hout⟩
  have hexact := HostTree.confined_exact hiddenLinkTree_proper rfl hiddenLinkLog_returns
    hiddenLinkLog_shows
  exact hiddenLinkTree_not_confined (hexact.mpr hsealed)

end Alicerce
