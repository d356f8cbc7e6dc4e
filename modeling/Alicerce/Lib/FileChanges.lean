import Alicerce.Lib.FileTree
import Mathlib.Data.Set.Insert

/-!
# Changes of a file tree

What becomes of a file tree when an entry of it is made, removed or moved, in full or in part,
stated as a relation between the tree before and the tree after.

* `Gains`, `Loses`, `Shrinks` and `Moves` are the changes: a directory is made, an entry is removed
  with all that is below it, some of that is, an entry is moved.
* `SameOutside places`: nothing is different but at and below some places.  Every change is that for
  the places it is about, and so are several changes one after another (`SameOutside.trans`).
* `SameAt place`: nothing is different at and below a place.  A place `Apart` from those a change is
  about keeps all that stands there (`SameOutside.sameAt`).
* `FileTree.insert`, `FileTree.remove` and `FileTree.move` make the changes, for hosts that run.
-/

set_option autoImplicit false

namespace Lib

namespace FileTree

variable {N F : Type} {tree tree' tree'' : FileTree N F} {places places' : Set (List N)}
  {place source target other : List N} {name : N}

/-- Nothing is different but at and below some places. -/
def SameOutside (tree : FileTree N F) (places : Set (List N)) (tree' : FileTree N F) : Prop :=
  ∀ q, (∀ p ∈ places, ¬p <+: q) → tree'.node q = tree.node q

/-- Nothing is different at and below a place. -/
def SameAt (tree : FileTree N F) (place : List N) (tree' : FileTree N F) : Prop :=
  ∀ rest, tree'.node (place ++ rest) = tree.node (place ++ rest)

/-- Neither place is at or below the other. -/
def Apart (place other : List N) : Prop := ¬place <+: other ∧ ¬other <+: place

theorem Apart.symm (h : Apart place other) : Apart other place := ⟨h.2, h.1⟩

/-- Two entries of one directory are apart. -/
theorem apart_of_ne {a b : N} (h : a ≠ b) : Apart (place ++ [a]) (place ++ [b]) := by
  constructor
  · intro hbefore
    rw [List.prefix_append_right_inj, List.cons_prefix_cons] at hbefore
    exact h hbefore.1
  · intro hbefore
    rw [List.prefix_append_right_inj, List.cons_prefix_cons] at hbefore
    exact h hbefore.1.symm

/-- What is below an entry that is apart from a place is apart from it, too. -/
theorem Apart.below (h : Apart place other) (rest : List N) : ¬other <+: place ++ rest := by
  intro hbefore
  rcases List.prefix_or_prefix_of_prefix hbefore (List.prefix_append place rest) with hle | hle
  · exact h.2 hle
  · exact h.1 hle

theorem sameOutside_refl (tree : FileTree N F) (places : Set (List N)) :
    tree.SameOutside places tree := fun _ _ ↦ rfl

theorem SameOutside.trans (h : tree.SameOutside places tree')
    (h' : tree'.SameOutside places tree'') : tree.SameOutside places tree'' :=
  fun q hq ↦ (h' q hq).trans (h q hq)

theorem SameOutside.mono (h : tree.SameOutside places tree') (hle : places ⊆ places') :
    tree.SameOutside places' tree' := fun q hq ↦ h q fun p hp ↦ hq p (hle hp)

/-- A place apart from what changes keeps all that is at or below it. -/
theorem SameOutside.sameAt (h : tree.SameOutside places tree')
    (hapart : ∀ p ∈ places, Apart place p) : tree.SameAt place tree' :=
  fun rest ↦ h _ fun p hp ↦ (hapart p hp).below rest

/-- What is above everything that changes stays. -/
theorem SameOutside.node_eq (h : tree.SameOutside places tree')
    (habove : ∀ p ∈ places, ¬p <+: place) : tree'.node place = tree.node place := h place habove

theorem sameAt_refl (tree : FileTree N F) (place : List N) : tree.SameAt place tree := fun _ ↦ rfl

theorem SameAt.trans (h : tree.SameAt place tree') (h' : tree'.SameAt place tree'') :
    tree.SameAt place tree'' := fun rest ↦ (h' rest).trans (h rest)

theorem SameAt.node_eq (h : tree.SameAt place tree') : tree'.node place = tree.node place := by
  have hrest := h []
  rwa [List.append_nil] at hrest

theorem SameAt.settled_iff (h : tree.SameAt place tree') :
    tree'.Settled place ↔ tree.Settled place := by
  rw [Settled, Settled, h.node_eq]

/-! ## The changes -/

/-- A directory is made where nothing was. -/
structure Gains (tree : FileTree N F) (place : List N) (tree' : FileTree N F) : Prop where
  free : tree.node place = none
  made : tree'.node place = some .dir
  same : ∀ q, q ≠ place → tree'.node q = tree.node q

/-- An entry is removed with all that is below it. -/
structure Loses (tree : FileTree N F) (place : List N) (tree' : FileTree N F) : Prop where
  gone : ∀ rest, tree'.node (place ++ rest) = none
  same : tree.SameOutside {place} tree'

/-- Some of what is at or below an entry is removed. -/
structure Shrinks (tree : FileTree N F) (place : List N) (tree' : FileTree N F) : Prop where
  kept : ∀ q, tree'.node q = none ∨ tree'.node q = tree.node q
  same : tree.SameOutside {place} tree'

/-- An entry is moved with all that is below it. -/
structure Moves (tree : FileTree N F) (source target : List N) (tree' : FileTree N F) : Prop where
  moved : ∀ rest, tree'.node (target ++ rest) = tree.node (source ++ rest)
  gone : ∀ rest, ¬target <+: source ++ rest → tree'.node (source ++ rest) = none
  same : tree.SameOutside {source, target} tree'

/-- Where nothing is, nothing is below. -/
theorem node_append_eq_none (h : tree.node place = none) (rest : List N) :
    tree.node (place ++ rest) = none := by
  induction rest using List.reverseRecOn with
  | nil => rwa [List.append_nil]
  | append_singleton rest name ih =>
    rw [← List.append_assoc]
    rcases hnode : tree.node (place ++ rest ++ [name]) with _ | n
    · rfl
    · exact absurd (tree.parent hnode) (by rw [ih]; exact Option.some_ne_none _ ∘ Eq.symm)

theorem Gains.sameOutside (h : tree.Gains place tree') : tree.SameOutside {place} tree' := by
  intro q hq
  refine h.same q ?_
  rintro rfl
  exact hq q rfl (List.prefix_refl q)

/-- What was there is still there when something is made. -/
theorem Gains.node_eq_of_some (h : tree.Gains place tree') {n : Node N F}
    (hn : tree.node other = some n) : tree'.node other = some n := by
  rw [h.same other, hn]
  rintro rfl
  rw [h.free] at hn
  exact absurd hn (by simp)

theorem Loses.shrinks (h : tree.Loses place tree') : tree.Shrinks place tree' where
  kept q := by
    by_cases hq : place <+: q
    · obtain ⟨rest, rfl⟩ := hq
      exact .inl (h.gone rest)
    · refine .inr (h.same q fun p hp ↦ ?_)
      rwa [Set.mem_singleton_iff.mp hp]
  same := h.same

theorem Loses.node_eq_none (h : tree.Loses place tree') : tree'.node place = none := by
  have hgone := h.gone []
  rwa [List.append_nil] at hgone

/-! ## Making the changes -/

section Make

variable (tree)

/-- The tree with something new in a directory. -/
def insert [DecidableEq N] (above : List N) (name : N) (n : Node N F)
    (hdir : tree.node above = some .dir) (hfree : tree.node (above ++ [name]) = none) :
    FileTree N F where
  node q := if q = above ++ [name] then some n else tree.node q
  root := by rw [if_neg (by simp), tree.root]
  parent := by
    intro p name' m hm
    by_cases hp : p = above ++ [name]
    · rw [if_neg (by rw [hp]; simp), hp, node_append_eq_none hfree] at hm
      exact absurd hm (by simp)
    · rw [if_neg hp]
      by_cases hq : p ++ [name'] = above ++ [name]
      · rw [(List.append_inj' hq rfl).1, hdir]
      · rw [if_neg hq] at hm
        exact tree.parent hm

/-- The tree without what is at or below a place. -/
def remove [DecidableEq N] (place : List N) (hne : place ≠ []) : FileTree N F where
  node q := if place <+: q then none else tree.node q
  root := by rw [if_neg (fun h ↦ hne (List.prefix_nil.mp h)), tree.root]
  parent := by
    intro p name n hn
    split at hn
    · exact absurd hn (by simp)
    · rename_i hq
      rw [if_neg fun h ↦ hq (h.trans (List.prefix_append _ _))]
      exact tree.parent hn

/-- The tree with an entry moved, over whatever was there. -/
def move [DecidableEq N] (source above : List N) (name : N) (hne : source ≠ [])
    (hdir : tree.node above = some .dir) (hapart : ¬source <+: above ++ [name]) :
    FileTree N F where
  node q := if above ++ [name] <+: q then tree.node (source ++ q.drop (above.length + 1))
    else if source <+: q then none else tree.node q
  root := by
    rw [if_neg (fun h ↦ by simpa using List.prefix_nil.mp h),
      if_neg (fun h ↦ hne (List.prefix_nil.mp h)), tree.root]
  parent := by
    intro p name' n hn
    by_cases hp : above ++ [name] <+: p
    · obtain ⟨rest, rfl⟩ := hp
      rw [if_pos ((List.prefix_append _ _).trans (List.prefix_append _ _))] at hn
      rw [if_pos (List.prefix_append _ _)]
      have hdrop : ∀ more : List N, (above ++ [name] ++ more).drop (above.length + 1) = more :=
        fun more ↦ List.drop_left' (by simp)
      rw [List.append_assoc, hdrop, ← List.append_assoc] at hn
      rw [hdrop]
      exact tree.parent hn
    · rw [if_neg hp]
      by_cases hq : above ++ [name] <+: p ++ [name']
      · rcases List.prefix_concat_iff.mp hq with heq | hbefore
        · obtain ⟨rfl, -⟩ := List.append_inj' heq rfl
          rw [if_neg fun h ↦ hapart (h.trans (List.prefix_append _ _)), hdir]
        · exact absurd hbefore hp
      · rw [if_neg hq] at hn
        split at hn
        · exact absurd hn (by simp)
        · rename_i hsource
          rw [if_neg fun h ↦ hsource (h.trans (List.prefix_append _ _))]
          exact tree.parent hn

variable {tree}

theorem gains_insert [DecidableEq N] {above : List N} (hdir : tree.node above = some .dir)
    (hfree : tree.node (above ++ [name]) = none) :
    tree.Gains (above ++ [name]) (tree.insert above name .dir hdir hfree) where
  free := hfree
  made := if_pos rfl
  same _ hq := if_neg hq

theorem loses_remove [DecidableEq N] (hne : place ≠ []) :
    tree.Loses place (tree.remove place hne) where
  gone _ := if_pos (List.prefix_append _ _)
  same _ hq := if_neg (hq place rfl)

theorem moves_move [DecidableEq N] {above : List N} (hne : source ≠ [])
    (hdir : tree.node above = some .dir) (hapart : ¬source <+: above ++ [name]) :
    tree.Moves source (above ++ [name]) (tree.move source above name hne hdir hapart) where
  moved rest := by
    refine (if_pos (List.prefix_append _ _)).trans ?_
    rw [List.drop_left' (by simp)]
  gone rest h := (if_neg h).trans (if_pos (List.prefix_append _ _))
  same q hq := (if_neg (hq _ (Set.mem_insert_of_mem _ rfl))).trans
    (if_neg (hq _ (Set.mem_insert _ _)))

end Make

end FileTree

end Lib
