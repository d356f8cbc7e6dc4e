import Alicerce.Adapters.Host
import Alicerce.Lib.FileTree

/-!
# The files of the host

What the host says about its files, told from a file tree of names.

* `HostTree` is the tree.  A path is walked from the root (`HostTree.Leads`); a predicate of
  `pathlib` follows links except where it asks for one (`HostTree.EndsInLink`).
* `Shows`: an answer is true of the files.  A call may fail at any time, of which nothing follows.
* `Path.Named`: every name of a path is that of an entry.  On such a path through real directories
  the answers speak of the place the path names (`Shows.not_link`).
-/

set_option autoImplicit false

namespace Alicerce

open Py Lib

/-- The files of a host, with their contents. -/
abbrev HostTree := FileTree Text Bytes

/-- The steps of a path. -/
def Path.steps (path : Path) : List (PathStep Text) :=
  path.parts.map fun part ↦ if part = text ".." then .up else .into part

/-- A path leads to a place. -/
def HostTree.Leads (tree : HostTree) (path : Path) (place : List Text) : Prop :=
  tree.Walks [] path.steps place

/-- A path leads to a directory. -/
def HostTree.LeadsToDir (tree : HostTree) (path : Path) : Prop :=
  ∃ place, tree.Leads path place ∧ tree.node place = some .dir

/-- A path leads to a file. -/
def HostTree.LeadsToFile (tree : HostTree) (path : Path) : Prop :=
  ∃ place content, tree.Leads path place ∧ tree.node place = some (.file content)

/-- There is a link at a place. -/
def HostTree.LinkAt (tree : HostTree) (place : List Text) : Prop :=
  ∃ n, tree.node place = some n ∧ n.IsLink

/-- There is a link where a path ends, when the last name of it is not followed. -/
def HostTree.EndsInLink (tree : HostTree) (path : Path) : Prop :=
  ∃ above name place, path.parts = above ++ [name] ∧ tree.Leads ⟨above⟩ place ∧
    tree.LinkAt (place ++ [name])

/-- An answer is true of the files. -/
def Shows (tree : HostTree) : Event OsCall.Answer → Prop
  | ⟨.isSymlink path, .ok answer⟩ | ⟨.islink path, answer⟩ =>
    (answer = true → tree.EndsInLink path) ∧ (tree.LinkAt path.parts → answer = true)
  | ⟨.isDir path, .ok answer⟩ =>
    (answer = true → tree.LeadsToDir path) ∧ (tree.node path.parts = some .dir → answer = true)
  | ⟨.isFile path, .ok answer⟩ =>
    (answer = true → tree.LeadsToFile path) ∧
      ((∃ content, tree.node path.parts = some (.file content)) → answer = true)
  | ⟨.pathExists path, .ok answer⟩ =>
    (answer = true → ∃ place, tree.Leads path place) ∧ (tree.Settled path.parts → answer = true)
  | ⟨.resolve path, .ok resolved⟩ => tree.Leads path resolved.parts
  | ⟨.readFile path, .ok content⟩ =>
    ∃ place, tree.Leads path place ∧ tree.node place = some (.file content)
  | ⟨.scandir path, .ok entries⟩ =>
    ∃ place, tree.Leads path place ∧ tree.node place = some .dir ∧
      (∀ name, (tree.node (place ++ [name])).isSome = true ↔ name ∈ entries.map (·.name)) ∧
      ∀ entry ∈ entries, (tree.node (place ++ [entry.name]) = some .dir → entry.isDir = true) ∧
        (entry.isDir = true → ∃ target, tree.Walks place [.into entry.name] target ∧
          tree.node target = some .dir)
  | _ => True

/-! ## Paths through real directories -/

/-- Every name of a path is that of an entry. -/
def Path.Named (path : Path) : Prop := ∀ part ∈ path.parts, part ≠ text ".."

instance (path : Path) : Decidable path.Named := inferInstanceAs (Decidable (∀ _ ∈ _, _))

theorem Path.steps_of_named {path : Path} (h : path.Named) :
    path.steps = FileTree.down path.parts := by
  refine List.map_congr_left fun part hpart ↦ ?_
  exact if_neg (h part hpart)

section

variable {tree : HostTree} {path resolved : Path} {place : List Text}

/-- What is no link is found where its names say, and only there. -/
theorem HostTree.leads_of_settled (h : tree.Settled path.parts) (hnamed : path.Named) :
    tree.Leads path place ↔ place = path.parts := by
  have hwalk : tree.Walks [] path.steps path.parts := by
    rw [Path.steps_of_named hnamed]
    exact h.walks
  constructor
  · exact fun hplace ↦ hplace.unique hwalk
  · rintro rfl
    exact hwalk

/-- A path that is found not to be a link has no link at its place. -/
theorem Shows.not_link (h : Shows tree ⟨.isSymlink path, .ok false⟩) : ¬tree.LinkAt path.parts :=
  fun hlink ↦ absurd (h.2 hlink) (by simp)

/-- Below a real directory, a path ends in a link where there is one. -/
theorem HostTree.linkAt_of_endsInLink {above : Path} {name : Text}
    (habove : tree.Settled above.parts) (hnamed : above.Named)
    (h : tree.EndsInLink ⟨above.parts ++ [name]⟩) : tree.LinkAt (above.parts ++ [name]) := by
  obtain ⟨front, last, place, hparts, hleads, hlink⟩ := h
  obtain ⟨rfl, hlast⟩ := List.append_inj' hparts rfl
  obtain rfl := (List.cons.inj hlast).1
  rwa [(HostTree.leads_of_settled habove hnamed).mp hleads] at hlink

/-- Where nothing on the way is a link, a path leads where it says. -/
theorem HostTree.eq_of_leads {root names : List Text} (hroot : tree.Settled root)
    (hroot_named : ∀ part ∈ root, part ≠ text "..") (hnames : ∀ part ∈ names, part ≠ text "..")
    (hlinks : ∀ front, front ≠ [] → front <+: names → ¬tree.LinkAt (root ++ front))
    (h : tree.Leads ⟨root ++ names⟩ place) : place = root ++ names ∧
    tree.Settled (root ++ names) := by
  induction names using List.reverseRecOn generalizing place with
  | nil =>
    rw [List.append_nil] at h ⊢
    exact ⟨(HostTree.leads_of_settled hroot hroot_named).mp h, hroot⟩
  | append_singleton names name ih =>
    have hsteps : (Path.mk (root ++ (names ++ [name]))).steps =
        (Path.mk (root ++ names)).steps ++ [.into name] := by
      rw [Path.steps, ← List.append_assoc, List.map_append, ← Path.steps, List.map_singleton,
        if_neg (hnames name (by simp))]
    rw [HostTree.Leads, hsteps, FileTree.walks_append] at h
    obtain ⟨middle, hfront, hlast⟩ := h
    obtain ⟨rfl, hmiddle⟩ := ih (fun part hpart ↦ hnames part (List.mem_append_left _ hpart))
      (fun front hne hbefore ↦ hlinks front hne (hbefore.trans (List.prefix_append _ _))) hfront
    rw [← List.append_assoc]
    cases hlast with
    | into head tail =>
      cases tail
      exact ⟨rfl, head⟩
    | follow head tail =>
      have hlink : tree.LinkAt (root ++ (names ++ [name])) := by
        rw [← List.append_assoc]
        exact ⟨_, head, trivial⟩
      exact absurd hlink (hlinks _ (by simp) (List.prefix_refl _))

end

end Alicerce
