import Alicerce.Adapters.HostFiles
import Alicerce.Lib.FileChanges

/-!
# What calls do to the files of the host

What calls do to the files of the host.

* `HostTree.EntryAt`: a call that makes, removes or moves an entry acts on the place its path names,
  with the last name not followed.
* `Acts` says what a call that was answered has done to the files.  When it has failed, it has done
  nothing, except that a recursive removal may have come part of the way (`Removes`); every other
  call of the adapter itself only looks.
* `OsCall.Works`: while a child process runs it may work on the files too, and what it does there is
  the parameter `work` of `Acts`.
* `Acts.of_looks` and its siblings say what becomes of the files under a call of one kind.
-/

set_option autoImplicit false

namespace Alicerce

open Py Lib

/-- Where the entry of a path is, the last name of it not followed. -/
def HostTree.EntryAt (tree : HostTree) (path : Path) (place : List Text) : Prop :=
  ∃ above name front, path.parts = above ++ [name] ∧ tree.Leads ⟨above⟩ front ∧
    place = front ++ [name]

/-- A recursive removal, which fails or not. -/
def Removes (tree : HostTree) (path : Path) (tree' : HostTree) : Except OsError Unit → Prop
  | .ok () => ∃ place, tree.EntryAt path place ∧ tree.node place = some .dir ∧
      tree.Loses place tree'
  | .error _ => tree' = tree ∨ ∃ place, tree.EntryAt path place ∧ tree.node place = some .dir ∧
      tree.Shrinks place tree'

/-- What a call that was answered has done to the files. -/
def Acts (work : HostTree → HostTree → Prop) (tree : HostTree) :
    Event OsCall.Answer → HostTree → Prop
  | ⟨.mkdtemp stem dir, .ok path⟩, tree' => ∃ suffix place, IsName (stem ++ suffix) ∧
      path = ⟨dir.parts ++ [stem ++ suffix]⟩ ∧ tree.EntryAt path place ∧ tree.Gains place tree'
  | ⟨.mkdir path, .ok _⟩, tree' => ∃ place, tree.EntryAt path place ∧ tree.Gains place tree'
  | ⟨.unlink path, .ok _⟩, tree' => ∃ place n, tree.EntryAt path place ∧
      tree.node place = some n ∧ n ≠ .dir ∧ tree.Loses place tree'
  | ⟨.rename path target, .ok _⟩, tree' => ∃ source place, tree.EntryAt path source ∧
      tree.EntryAt target place ∧ (tree.node source).isSome = true ∧ tree.Moves source place tree'
  | ⟨.rmtree path, answer⟩, tree' => Removes tree path tree' answer
  | ⟨.popen _ _ _, _⟩, tree' | ⟨.openSelector, _⟩, tree' | ⟨.setBlocking _ _, _⟩, tree'
  | ⟨.register _ _, _⟩, tree' | ⟨.select _ _, _⟩, tree' | ⟨.read _ _ _, _⟩, tree'
  | ⟨.closeSelector, _⟩, tree' | ⟨.closeStream _ _, _⟩, tree' | ⟨.poll _, _⟩, tree'
  | ⟨.wait _, _⟩, tree' | ⟨.waitFor _ _, _⟩, tree' | ⟨.killpg _ _, _⟩, tree'
  | ⟨.kill _, _⟩, tree' | ⟨.backendSupports _, _⟩, tree' | ⟨.backendExecute _, _⟩, tree' =>
    work tree tree'
  | event, tree' => tree' = tree ∧ Shows tree event

/-- A call about a child process, during which it may run. -/
def OsCall.Works : OsCall → Prop
  | .popen _ _ _ | .openSelector | .setBlocking _ _ | .register _ _ | .select _ _ | .read _ _ _
  | .closeSelector | .closeStream _ _ | .poll _ | .wait _ | .waitFor _ _ | .killpg _ _ | .kill _ =>
    True
  | _ => False

section

variable {work : HostTree → HostTree → Prop} {tree tree' : HostTree} {event : Event OsCall.Answer}
  {path : Path} {place place' : List Text}

theorem Acts.of_looks (h : Acts work tree event tree') (hlooks : event.1.Looks) :
    tree' = tree ∧ Shows tree event := by
  obtain ⟨call, answer⟩ := event
  cases call <;> first | exact h | exact hlooks.elim

theorem acts_works (hworks : event.1.Works) : Acts work tree event tree' ↔ work tree tree' := by
  obtain ⟨call, answer⟩ := event
  cases call <;> first | exact Iff.rfl | exact hworks.elim

/-! ## Entries of a real directory -/

/-- A link is not the end of a path to a directory. -/
theorem HostTree.not_linkAt_of_node {n : Node Text Bytes} (h : tree.node place = some n)
    (hlink : ¬n.IsLink) : ¬tree.LinkAt place := by
  rintro ⟨m, hm, hmlink⟩
  obtain rfl := Option.some.inj (hm.symm.trans h)
  exact hlink hmlink

/-- An entry of a real directory is where its name says. -/
theorem HostTree.entryAt_of_dir {root : Path} {name : Text}
    (hroot : tree.node root.parts = some .dir) (hnamed : root.Named)
    (h : tree.EntryAt ⟨root.parts ++ [name]⟩ place) : place = root.parts ++ [name] := by
  obtain ⟨above, last, front, hparts, hleads, rfl⟩ := h
  obtain ⟨rfl, hlast⟩ := List.append_inj' hparts rfl
  obtain rfl := (List.cons.inj hlast).1
  rw [(HostTree.leads_of_settled (FileTree.settled_of_dir hroot) hnamed).mp hleads]

/-! ## What a removal leaves alone -/

theorem Removes.sameOutside {answer : Except OsError Unit} {removed : List Text}
    (h : Removes tree path tree' answer)
    (hplace : ∀ place, tree.EntryAt path place → place = removed) :
    tree.SameOutside {removed} tree' := by
  cases answer with
  | ok u =>
    obtain ⟨place, hentry, -, hloses⟩ := h
    exact hplace place hentry ▸ hloses.same
  | error e =>
    rcases h with rfl | ⟨place, hentry, -, hshrinks⟩
    · exact FileTree.sameOutside_refl _ _
    · exact hplace place hentry ▸ hshrinks.same

theorem Acts.unlink_sameOutside {answer : Except OsError Unit} {removed : List Text}
    (h : Acts work tree ⟨.unlink path, answer⟩ tree')
    (hplace : ∀ place, tree.EntryAt path place → place = removed) :
    tree.SameOutside {removed} tree' := by
  cases answer with
  | ok u =>
    obtain ⟨place, n, hentry, -, -, hloses⟩ := h
    exact hplace place hentry ▸ hloses.same
  | error e =>
    obtain ⟨rfl, -⟩ := h
    exact FileTree.sameOutside_refl _ _

theorem Acts.rename_sameOutside {answer : Except OsError Unit} {target : Path}
    {source destination : List Text} (h : Acts work tree ⟨.rename path target, answer⟩ tree')
    (hsource : ∀ place, tree.EntryAt path place → place = source)
    (hdestination : ∀ place, tree.EntryAt target place → place = destination) :
    tree.SameOutside {source, destination} tree' := by
  cases answer with
  | ok u =>
    obtain ⟨source', destination', hentry, hentry', -, hmoves⟩ := h
    obtain rfl := hsource source' hentry
    obtain rfl := hdestination destination' hentry'
    exact hmoves.same
  | error e =>
    obtain ⟨rfl, -⟩ := h
    exact FileTree.sameOutside_refl _ _

end

end Alicerce
