import Alicerce.Adapters.HostChanges

/-!
# A host with files

A host that can be run and keeps files, for adapters to be run on.

* `Disk` is a file tree whose names are among some that are known.  Its operations answer and change
  it where a path is one of real directories, and fail elsewhere.
* `FileHost` is the host: it may be made to fail in a removal, after part of it (`FileHost.jams`),
  and what a child process does to the files is `FileHost.effect`.
* `FileHost.acts`: all of this is as real hosts do it.
* `localDisk` is a workspace with a file of its own, beside the repository.
-/

set_option autoImplicit false

namespace Alicerce

open Py Lib

/-- Files whose names are known. -/
structure Disk (names : List Text) where
  tree : HostTree
  known : ∀ {place name n}, tree.node (place ++ [name]) = some n → name ∈ names

namespace Disk

variable {names : List Text} (disk : Disk names)

/-- Whether a real directory stands there. -/
def holds (place : List Text) : Bool :=
  match disk.tree.node place with
  | some .dir => true
  | _ => false

theorem holds_iff {place : List Text} :
    disk.holds place = true ↔ disk.tree.node place = some .dir := by
  rw [holds]
  split
  · rename_i h
    exact iff_of_true rfl h
  · rename_i h
    exact iff_of_false (by simp) h

/-- The directory and the name of a path whose directory is real. -/
def entryAndName (path : Path) : Option (List Text × Text) :=
  match path.parts.getLast? with
  | some name =>
    if path.Named ∧ disk.holds path.parts.dropLast = true then some (path.parts.dropLast, name)
    else none
  | none => none

theorem entryAndName_eq_some {path : Path} {above : List Text} {name : Text}
    (h : disk.entryAndName path = some (above, name)) :
    path = ⟨above ++ [name]⟩ ∧ path.Named ∧ disk.tree.node above = some .dir := by
  rw [entryAndName] at h
  split at h
  · rename_i last hlast
    split at h
    · rename_i hreal
      obtain ⟨rfl, rfl⟩ := Prod.mk.inj (Option.some.inj h)
      refine ⟨Path.ext ?_, hreal.1, disk.holds_iff.mp hreal.2⟩
      exact (List.dropLast_append_getLast? _ hlast).symm
    · exact absurd h (by simp)
  · exact absurd h (by simp)

/-- A path to an entry of a real directory leads to its place. -/
theorem entryAt_of_entryAndName {path : Path} {above : List Text} {name : Text}
    (h : disk.entryAndName path = some (above, name)) :
    disk.tree.EntryAt path (above ++ [name]) := by
  obtain ⟨rfl, hnamed, hdir⟩ := disk.entryAndName_eq_some h
  exact ⟨above, name, above, rfl, (HostTree.leads_of_settled (FileTree.settled_of_dir hdir)
    fun part hpart ↦ hnamed part (List.mem_append_left _ hpart)).mpr rfl, rfl⟩

/-- The disk with something new on it. -/
def insert (above : List Text) (name : Text) (n : Node Text Bytes)
    (hdir : disk.tree.node above = some .dir) (hfree : disk.tree.node (above ++ [name]) = none)
    (hname : name ∈ names) : Disk names where
  tree := disk.tree.insert above name n hdir hfree
  known := by
    intro place name' m hm
    change (if place ++ [name'] = above ++ [name] then some n else _) = some m at hm
    split at hm
    · rename_i heq
      obtain ⟨-, heq⟩ := List.append_inj' heq rfl
      rwa [(List.cons.inj heq).1]
    · exact disk.known hm

/-- The disk with something new where a path leads, if nothing is there. -/
def put (path : Path) (n : Node Text Bytes) : Disk names :=
  match disk.entryAndName path with
  | some (above, name) =>
    if h : disk.tree.node above = some .dir ∧ disk.tree.node (above ++ [name]) = none ∧
        name ∈ names then
      disk.insert above name n h.1 h.2.1 h.2.2
    else disk
  | none => disk

/-- Only the new entry is different. -/
theorem node_put (path : Path) (n : Node Text Bytes) (place : List Text) :
    (disk.put path n).tree.node place = disk.tree.node place ∨
      place = path.parts ∧ (disk.put path n).tree.node place = some n := by
  rw [put]
  split
  · rename_i above name hentry
    obtain ⟨rfl, -, -⟩ := disk.entryAndName_eq_some hentry
    split
    · by_cases hplace : place = above ++ [name]
      · exact .inr ⟨hplace, if_pos hplace⟩
      · exact .inl (if_neg hplace)
    · exact .inl rfl
  · exact .inl rfl

/-- The disk with an entry removed. -/
def remove (place : List Text) (hne : place ≠ []) : Disk names where
  tree := disk.tree.remove place hne
  known := by
    intro q name n hn
    change (if place <+: q ++ [name] then none else _) = some n at hn
    split at hn
    · exact absurd hn (by simp)
    · exact disk.known hn

/-- The disk with an entry moved. -/
def move (source above : List Text) (name : Text) (hne : source ≠ [])
    (hdir : disk.tree.node above = some .dir) (hapart : ¬source <+: above ++ [name])
    (hname : name ∈ names) : Disk names where
  tree := disk.tree.move source above name hne hdir hapart
  known := by
    intro q last n hn
    change (if above ++ [name] <+: q ++ [last] then
      disk.tree.node (source ++ (q ++ [last]).drop (above.length + 1)) else
        if source <+: q ++ [last] then none else disk.tree.node (q ++ [last])) = some n at hn
    split at hn
    · rename_i hbefore
      rcases List.prefix_concat_iff.mp hbefore with heq | hbefore
      · obtain ⟨-, heq⟩ := List.append_inj' heq rfl
        rwa [← (List.cons.inj heq).1]
      · obtain ⟨rest, rfl⟩ := hbefore
        rw [List.append_assoc, List.drop_left' (by simp), ← List.append_assoc] at hn
        exact disk.known hn
    · split at hn
      · exact absurd hn (by simp)
      · exact disk.known hn

/-! ## Answers -/

/-- An error of a call that is not answered. -/
def refused : OsError := ⟨.other, "refused"⟩

/-- Answer a question about what stands at a path. -/
def ask (f : Option (Node Text Bytes) → Option Bool) (path : Path) : Except OsError Bool :=
  if path.Named then
    match f (disk.tree.node path.parts) with
    | some answer => .ok answer
    | none => .error refused
  else .error refused

/-- Whether it is a link. -/
def linkThere : Option (Node Text Bytes) → Option Bool
  | some (.link _ _) => some true
  | _ => some false

/-- Whether it is a directory; where a link leads is not looked up. -/
def dirThere : Option (Node Text Bytes) → Option Bool
  | some .dir => some true
  | some (.link _ _) => none
  | _ => some false

/-- Whether it is a file. -/
def fileThere : Option (Node Text Bytes) → Option Bool
  | some (.file _) => some true
  | some (.link _ _) => none
  | _ => some false

/-- Whether it is anything. -/
def anythingThere : Option (Node Text Bytes) → Option Bool
  | some (.link _ _) => none
  | some _ => some true
  | none => some false

/-- Where a path leads, when it is no link. -/
def resolve (path : Path) : Except ResolveError Path :=
  match disk.ask anythingThere path with
  | .ok true => .ok path
  | _ => .error (.os refused)

/-- The content of a file. -/
def readFile (path : Path) : Except OsError Bytes :=
  if path.Named then
    match disk.tree.node path.parts with
    | some (.file content) => .ok content
    | _ => .error refused
  else .error refused

/-- The entries of a directory without links. -/
def scandir (path : Path) : Except OsError (List DirEntry) :=
  if path.Named ∧ disk.holds path.parts = true ∧
      ∀ name ∈ names, disk.ask linkThere ⟨path.parts ++ [name]⟩ ≠ .ok true then
    .ok ((names.filter fun name ↦ (disk.tree.node (path.parts ++ [name])).isSome).map
      fun name ↦ ⟨name, disk.holds (path.parts ++ [name])⟩)
  else .error refused

/-- Make a directory. -/
def mkdir (path : Path) : Except OsError Unit × Disk names :=
  match disk.entryAndName path with
  | some (above, name) =>
    if h : disk.tree.node above = some .dir ∧ disk.tree.node (above ++ [name]) = none ∧
        name ∈ names then
      (.ok (), disk.insert above name .dir h.1 h.2.1 h.2.2)
    else (.error refused, disk)
  | none => (.error refused, disk)

/-- Remove an entry that is no directory. -/
def unlink (path : Path) : Except OsError Unit × Disk names :=
  match disk.entryAndName path with
  | some (above, name) =>
    match disk.tree.node (above ++ [name]) with
    | some .dir | none => (.error refused, disk)
    | some _ => (.ok (), disk.remove (above ++ [name]) (by simp))
  | none => (.error refused, disk)

/-- Remove a directory; when it is jammed, only one entry of it. -/
def rmtree (jammed : Option Text) (path : Path) : Except OsError Unit × Disk names :=
  match disk.entryAndName path with
  | some (above, name) =>
    if disk.holds (above ++ [name]) then
      match jammed with
      | some inner => (.error refused, disk.remove (above ++ [name] ++ [inner]) (by simp))
      | none => (.ok (), disk.remove (above ++ [name]) (by simp))
    else (.error refused, disk)
  | none => (.error refused, disk)

/-- Move an entry to where nothing is. -/
def rename (path target : Path) : Except OsError Unit × Disk names :=
  match disk.entryAndName path, disk.entryAndName target with
  | some (above, name), some (above', name') =>
    if h : disk.tree.node above' = some .dir ∧ ¬above ++ [name] <+: above' ++ [name'] ∧
        name' ∈ names ∧ (disk.tree.node (above ++ [name])).isSome = true ∧
          disk.tree.node (above' ++ [name']) = none then
      (.ok (), disk.move (above ++ [name]) above' name' (by simp) h.1 h.2.1 h.2.2.1)
    else (.error refused, disk)
  | _, _ => (.error refused, disk)

end Disk

/-! ## The answers are true -/

namespace Disk

variable {names : List Text} {disk : Disk names} {path target : Path} {place : List Text}

/-- What is known of the files has known names. -/
theorem named_of_node (hup : text ".." ∉ names) {n : Node Text Bytes}
    (h : disk.tree.node place = some n) : ∀ part ∈ place, part ≠ text ".." := by
  induction place using List.reverseRecOn generalizing n with
  | nil => simp
  | append_singleton place name ih =>
    intro part hpart
    rcases List.mem_append.mp hpart with hpart | hpart
    · exact ih (disk.tree.parent h) part hpart
    · rw [List.mem_singleton.mp hpart]
      rintro rfl
      exact hup (disk.known h)

theorem ask_eq_ok {f : Option (Node Text Bytes) → Option Bool} {answer : Bool}
    (h : disk.ask f path = .ok answer) :
    path.Named ∧ f (disk.tree.node path.parts) = some answer := by
  rw [ask] at h
  split at h
  · rename_i hnamed
    split at h
    · rename_i given hgiven
      exact ⟨hnamed, by rw [hgiven, Except.ok.inj h]⟩
    · exact absurd h (by simp)
  · exact absurd h (by simp)

theorem ask_linkThere (hnamed : path.Named) :
    disk.ask linkThere path = .ok true ↔ disk.tree.LinkAt path.parts := by
  rw [ask, if_pos hnamed]
  rcases hnode : disk.tree.node path.parts with _ | n
  · exact iff_of_false (by simp [linkThere]) fun ⟨n, hn, _⟩ ↦ by rw [hnode] at hn; cases hn
  · cases n with
    | link absolute steps => exact iff_of_true rfl ⟨_, hnode, trivial⟩
    | dir => exact iff_of_false (by simp [linkThere]) (HostTree.not_linkAt_of_node hnode id)
    | file content =>
      exact iff_of_false (by simp [linkThere]) (HostTree.not_linkAt_of_node hnode id)

/-- A path to a link ends in it. -/
theorem endsInLink (hnamed : path.Named) (h : disk.tree.LinkAt path.parts) :
    disk.tree.EndsInLink path := by
  obtain ⟨n, hn, hlink⟩ := id h
  rcases List.eq_nil_or_concat path.parts with hnil | ⟨above, name, hparts⟩
  · rw [hnil, disk.tree.root] at hn
    exact absurd hlink (by rw [← Option.some.inj hn]; exact id)
  · rw [List.concat_eq_append] at hparts
    rw [hparts] at h hn
    refine ⟨above, name, above, hparts, ?_, h⟩
    exact (HostTree.leads_of_settled (FileTree.settled_of_dir (disk.tree.parent hn))
      fun part hpart ↦ hnamed part (hparts ▸ List.mem_append_left _ hpart)).mpr rfl

theorem leads_self (hnamed : path.Named) (h : disk.tree.Settled path.parts) :
    disk.tree.Leads path path.parts := (HostTree.leads_of_settled h hnamed).mpr rfl

theorem shows_isSymlink : Shows disk.tree ⟨.isSymlink path, disk.ask linkThere path⟩ := by
  cases hask : disk.ask linkThere path with
  | error e => trivial
  | ok answer =>
    obtain ⟨hnamed, -⟩ := ask_eq_ok hask
    have hiff : disk.ask linkThere path = .ok true ↔ disk.tree.LinkAt path.parts :=
      ask_linkThere hnamed
    rw [hask, Except.ok.injEq] at hiff
    exact ⟨fun h ↦ endsInLink hnamed (hiff.mp h), hiff.mpr⟩

theorem shows_islink (hup : text ".." ∉ names) :
    Shows disk.tree ⟨.islink path, disk.ask linkThere path matches .ok true⟩ := by
  constructor
  · intro h
    split at h
    · rename_i hask
      have hnamed := (ask_eq_ok hask).1
      exact endsInLink hnamed ((ask_linkThere hnamed).mp hask)
    · exact absurd h (by simp)
  · intro hlink
    obtain ⟨n, hn, -⟩ := id hlink
    rw [(ask_linkThere (named_of_node hup hn)).mpr hlink]

theorem shows_isDir : Shows disk.tree ⟨.isDir path, disk.ask dirThere path⟩ := by
  cases hask : disk.ask dirThere path with
  | error e => trivial
  | ok answer =>
    obtain ⟨hnamed, hanswer⟩ := ask_eq_ok hask
    constructor
    · rintro rfl
      have hdir : disk.tree.node path.parts = some .dir := by
        rw [dirThere.eq_def] at hanswer
        split at hanswer <;> first | assumption | exact absurd hanswer (by simp)
      exact ⟨_, leads_self hnamed (FileTree.settled_of_dir hdir), hdir⟩
    · intro hdir
      rw [hdir] at hanswer
      exact (Option.some.inj hanswer).symm

theorem shows_isFile : Shows disk.tree ⟨.isFile path, disk.ask fileThere path⟩ := by
  cases hask : disk.ask fileThere path with
  | error e => trivial
  | ok answer =>
    obtain ⟨hnamed, hanswer⟩ := ask_eq_ok hask
    constructor
    · rintro rfl
      rcases hnode : disk.tree.node path.parts with _ | n
      · rw [hnode] at hanswer
        exact absurd hanswer (by simp [fileThere])
      · rw [hnode] at hanswer
        cases n with
        | file content => exact ⟨_, content, leads_self hnamed ⟨_, hnode, id⟩, hnode⟩
        | dir | link => exact absurd hanswer (by simp [fileThere])
    · rintro ⟨content, hfile⟩
      rw [hfile] at hanswer
      exact (Option.some.inj hanswer).symm

theorem anythingThere_eq_true {n : Option (Node Text Bytes)} (h : anythingThere n = some true) :
    ∃ m, n = some m ∧ ¬m.IsLink := by
  rcases n with _ | n
  · exact absurd h (by simp [anythingThere])
  · cases n with
    | link => exact absurd h (by simp [anythingThere])
    | dir | file => exact ⟨_, rfl, id⟩

theorem shows_pathExists : Shows disk.tree ⟨.pathExists path, disk.ask anythingThere path⟩ := by
  cases hask : disk.ask anythingThere path with
  | error e => trivial
  | ok answer =>
    obtain ⟨hnamed, hanswer⟩ := ask_eq_ok hask
    constructor
    · rintro rfl
      exact ⟨_, leads_self hnamed (anythingThere_eq_true hanswer)⟩
    · rintro ⟨n, hn, hlink⟩
      rw [hn] at hanswer
      cases n with
      | link => exact absurd trivial hlink
      | dir | file => exact (Option.some.inj hanswer).symm

theorem shows_resolve : Shows disk.tree ⟨.resolve path, disk.resolve path⟩ := by
  cases hask : disk.resolve path with
  | error e => trivial
  | ok resolved =>
    rw [resolve] at hask
    split at hask
    · rename_i htrue
      obtain ⟨hnamed, hanswer⟩ := ask_eq_ok htrue
      rw [← Except.ok.inj hask]
      exact leads_self hnamed (anythingThere_eq_true hanswer)
    · exact absurd hask (by simp)

theorem shows_readFile : Shows disk.tree ⟨.readFile path, disk.readFile path⟩ := by
  cases hask : disk.readFile path with
  | error e => trivial
  | ok content =>
    rw [readFile] at hask
    split at hask
    · rename_i hnamed
      split at hask
      · rename_i found hnode
        rw [← Except.ok.inj hask]
        exact ⟨_, leads_self hnamed ⟨_, hnode, id⟩, hnode⟩
      · exact absurd hask (by simp)
    · exact absurd hask (by simp)

theorem shows_scandir : Shows disk.tree ⟨.scandir path, disk.scandir path⟩ := by
  cases hask : disk.scandir path with
  | error e => trivial
  | ok entries =>
    rw [scandir] at hask
    split at hask
    · rename_i hscan
      have hdir := disk.holds_iff.mp hscan.2.1
      obtain rfl := Except.ok.inj hask
      refine ⟨_, leads_self hscan.1 (FileTree.settled_of_dir hdir), hdir, fun name ↦ ?_,
        fun entry hentry ↦ ?_⟩
      · rw [List.map_map, List.mem_map]
        constructor
        · intro h
          obtain ⟨n, hn⟩ := Option.isSome_iff_exists.mp h
          exact ⟨name, List.mem_filter.mpr ⟨disk.known hn, h⟩, rfl⟩
        · rintro ⟨name', hname, rfl⟩
          exact (List.mem_filter.mp hname).2
      · obtain ⟨name, -, rfl⟩ := List.mem_map.mp hentry
        refine ⟨fun h ↦ disk.holds_iff.mpr h, fun h ↦ ?_⟩
        have hinner := disk.holds_iff.mp h
        exact ⟨_, .into (FileTree.settled_of_dir hinner) (.done _), hinner⟩
    · exact absurd hask (by simp)

end Disk

/-- How a host with files behaves where its files do not say it. -/
structure FileHost (names : List Text) where
  /-- The entry of a directory after whose removal the removal of the directory fails. -/
  jams : Path → Option Text
  /-- What a child process does. -/
  effect : List Text → Disk names → Disk names
  /-- What a child process writes. -/
  output : List Text → List UInt8

namespace FileHost

variable {names : List Text} (host : FileHost names)

/-- Answer a call, from the files and from what is left of the output of a child process. -/
def answer : Disk names × List UInt8 → (call : OsCall) → call.Answer × Disk names × List UInt8
  | (disk, left), .isSymlink path => (disk.ask Disk.linkThere path, disk, left)
  | (disk, left), .islink path => (disk.ask Disk.linkThere path matches .ok true, disk, left)
  | (disk, left), .isDir path => (disk.ask Disk.dirThere path, disk, left)
  | (disk, left), .isFile path => (disk.ask Disk.fileThere path, disk, left)
  | (disk, left), .pathExists path => (disk.ask Disk.anythingThere path, disk, left)
  | (disk, left), .resolve path => (disk.resolve path, disk, left)
  | (disk, left), .readFile path => (disk.readFile path, disk, left)
  | (disk, left), .scandir path => (disk.scandir path, disk, left)
  | (disk, left), .mkdtemp stem dir =>
    let path : Path := ⟨dir.parts ++ [stem ++ "0"]⟩
    if IsName (stem ++ "0") then ((disk.mkdir path).1.map fun _ ↦ path, (disk.mkdir path).2, left)
    else (.error Disk.refused, disk, left)
  | (disk, left), .mkdir path => ((disk.mkdir path).1, (disk.mkdir path).2, left)
  | (disk, left), .rmtree path =>
    ((disk.rmtree (host.jams path) path).1, (disk.rmtree (host.jams path) path).2, left)
  | (disk, left), .unlink path => ((disk.unlink path).1, (disk.unlink path).2, left)
  | (disk, left), .rename path target =>
    ((disk.rename path target).1, (disk.rename path target).2, left)
  | (disk, left), .popen argv cwd environment =>
    ((obligingHost host.output left (.popen argv cwd environment)).1, host.effect argv disk,
      (obligingHost host.output left (.popen argv cwd environment)).2)
  | (disk, left), call =>
    ((obligingHost host.output left call).1, disk, (obligingHost host.output left call).2)

section

variable {work : HostTree → HostTree → Prop} {disk : Disk names} {path target : Path}

theorem acts_mkdir :
    Acts work disk.tree ⟨.mkdir path, (disk.mkdir path).1⟩ (disk.mkdir path).2.tree := by
  rw [Disk.mkdir]
  split
  · rename_i above name hentry
    split
    · rename_i h
      exact ⟨_, disk.entryAt_of_entryAndName hentry, FileTree.gains_insert h.1 h.2.1⟩
    · exact ⟨rfl, trivial⟩
  · exact ⟨rfl, trivial⟩

theorem acts_unlink :
    Acts work disk.tree ⟨.unlink path, (disk.unlink path).1⟩ (disk.unlink path).2.tree := by
  rw [Disk.unlink]
  split
  · rename_i above name hentry
    split
    · exact ⟨rfl, trivial⟩
    · exact ⟨rfl, trivial⟩
    · rename_i n hdir hnode
      exact ⟨_, n, disk.entryAt_of_entryAndName hentry, hnode, hdir,
        FileTree.loses_remove (by simp)⟩
  · exact ⟨rfl, trivial⟩

theorem acts_rmtree (jammed : Option Text) : Acts work disk.tree
    ⟨.rmtree path, (disk.rmtree jammed path).1⟩ (disk.rmtree jammed path).2.tree := by
  rw [Disk.rmtree]
  split
  · rename_i above name hentry
    split
    · rename_i hholds
      have hdir := disk.holds_iff.mp hholds
      cases jammed with
      | some inner =>
        refine .inr ⟨_, disk.entryAt_of_entryAndName hentry, hdir, ?_⟩
        have hne : above ++ [name] ++ [inner] ≠ [] := by simp
        have hloses : disk.tree.Loses _ (disk.tree.remove _ hne) := FileTree.loses_remove hne
        refine ⟨hloses.shrinks.kept, fun q hq ↦ hloses.same q fun p hp hbefore ↦ hq _ rfl ?_⟩
        rw [Set.mem_singleton_iff.mp hp] at hbefore
        exact (List.prefix_append _ _).trans hbefore
      | none => exact ⟨_, disk.entryAt_of_entryAndName hentry, hdir,
          FileTree.loses_remove (by simp)⟩
    · exact .inl rfl
  · exact .inl rfl

theorem acts_rename : Acts work disk.tree
    ⟨.rename path target, (disk.rename path target).1⟩ (disk.rename path target).2.tree := by
  rw [Disk.rename]
  split
  · rename_i above name above' name' hentry hentry'
    split
    · rename_i h
      exact ⟨_, _, disk.entryAt_of_entryAndName hentry, disk.entryAt_of_entryAndName hentry',
        h.2.2.2.1, FileTree.moves_move (by simp) h.1 h.2.1⟩
    · exact ⟨rfl, trivial⟩
  · exact ⟨rfl, trivial⟩

theorem acts_mkdtemp {stem : Text} {dir : Path} (hname : IsName (stem ++ text "0")) :
    Acts work disk.tree ⟨.mkdtemp stem dir,
      (disk.mkdir ⟨dir.parts ++ [stem ++ text "0"]⟩).1.map
        fun _ ↦ (⟨dir.parts ++ [stem ++ text "0"]⟩ : Path)⟩
      (disk.mkdir ⟨dir.parts ++ [stem ++ text "0"]⟩).2.tree := by
  rw [Disk.mkdir]
  split
  · rename_i above name hentry
    split
    · rename_i h
      exact ⟨text "0", _, hname, rfl, disk.entryAt_of_entryAndName hentry,
        FileTree.gains_insert h.1 h.2.1⟩
    · exact ⟨rfl, trivial⟩
  · exact ⟨rfl, trivial⟩

/-- **A host with files behaves as real hosts do.** -/
theorem acts (hup : text ".." ∉ names) (hwork : ∀ disk : Disk names, work disk.tree disk.tree)
    (heffect : ∀ argv (disk : Disk names), work disk.tree (host.effect argv disk).tree)
    (state : Disk names × List UInt8) (call : OsCall) :
    Acts work state.1.tree ⟨call, (host.answer state call).1⟩
      (host.answer state call).2.1.tree := by
  obtain ⟨disk, left⟩ := state
  cases call with
  | isSymlink path => exact ⟨rfl, Disk.shows_isSymlink⟩
  | islink path => exact ⟨rfl, Disk.shows_islink hup⟩
  | isDir path => exact ⟨rfl, Disk.shows_isDir⟩
  | isFile path => exact ⟨rfl, Disk.shows_isFile⟩
  | pathExists path => exact ⟨rfl, Disk.shows_pathExists⟩
  | resolve path => exact ⟨rfl, Disk.shows_resolve⟩
  | readFile path => exact ⟨rfl, Disk.shows_readFile⟩
  | scandir path => exact ⟨rfl, Disk.shows_scandir⟩
  | mkdtemp stem dir =>
    rw [answer]
    dsimp only
    split
    · rename_i hname
      exact acts_mkdtemp hname
    · exact ⟨rfl, trivial⟩
  | mkdir path => exact acts_mkdir
  | rmtree path => exact acts_rmtree _
  | unlink path => exact acts_unlink
  | rename path target => exact acts_rename
  | popen argv cwd environment => exact heffect argv disk
  | accessExecutable | monotonic | utcNow | runProbe | newWorkspaceId => exact ⟨rfl, trivial⟩
  | _ => exact hwork disk

end

/-! ## Running a program on the host -/

/-- What the host makes of a program is a run in which calls do to the files what they do. -/
theorem steps_play {work : HostTree → HostTree → Prop} {α : Type} (hup : text ".." ∉ names)
    (hwork : ∀ disk : Disk names, work disk.tree disk.tree)
    (heffect : ∀ argv (disk : Disk names), work disk.tree (host.effect argv disk).tree)
    (t : Interaction OsCall OsCall.Answer α) (state : Disk names × List UInt8) :
    Steps (Acts work) state.1.tree (t.play host.answer state).1
      (t.playEnd host.answer state).1.tree :=
  Interaction.steps_playEnd (S := fun _ ↦ True) (fun state ↦ state.1.tree)
    (fun state call _ ↦ host.acts hup hwork heffect state call) fun _ _ ↦ trivial

end FileHost

/-! ## Files from a list -/

/-- The disk with what a list says. -/
def Disk.ofList {names : List Text} (entries : List (List Text × Node Text Bytes))
    (h : ∀ entry ∈ entries, FileTree.lookup entries entry.1.dropLast = some .dir)
    (hnames : ∀ entry ∈ entries, ∀ name ∈ entry.1.getLast?, name ∈ names) : Disk names where
  tree := FileTree.ofList entries h
  known := by
    intro place name n hn
    change FileTree.lookup entries (place ++ [name]) = some n at hn
    rw [FileTree.lookup, if_neg (by simp)] at hn
    obtain ⟨entry, hentry, -⟩ := Option.map_eq_some_iff.mp hn
    refine hnames entry (List.mem_of_find?_eq_some hentry) name ?_
    have hplace : entry.1 = place ++ [name] := by simpa using List.find?_some hentry
    rw [hplace, List.getLast?_concat]
    exact Option.mem_some_self name

/-- The names on the disk of the local adapter. -/
def localNames : List Text :=
  ["repo", "work", "workspace-1", ".release-workspace-1", ".alicerce-git-control-0", "hooks",
    "home", "config", ".git", "notes"]

/-- A workspace with a file of its own, beside the repository. -/
def localDisk : Disk localNames :=
  .ofList [(["repo"], .dir), (["work"], .dir), (["work", "workspace-1"], .dir),
    (["work", "workspace-1", ".git"], .dir),
    (["work", "workspace-1", ".git", "config"], .file ⟨#[]⟩),
    (["work", "workspace-1", "notes"], .file ⟨#[]⟩)] (by decide) (by decide)

end Alicerce
