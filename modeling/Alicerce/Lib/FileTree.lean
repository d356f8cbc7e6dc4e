import Mathlib.Data.List.Induction
import Mathlib.Logic.Function.Basic

/-!
# File trees and the resolution of paths

A file tree says what stands at each place, a place being the names that lead to it from the root
through directories: another directory, a file, or a symbolic link.

* `FileTree` is the tree, `Node` what stands at a place, and `PathStep` a step of a path.
* `Walks`: walked from a place, the steps of a path end in another.  Wherever a path comes upon a
  link, the steps of the link's target come first.
* `Walks.unique`: a path ends in one place only, and `Walks.settled`: what it ends in is no link.
* `walks_down`, `Settled.walks`: a place with no link on the way to it is found where its names say.
* `FileTree.ofList` is the tree of a list, for hosts that run.
-/

set_option autoImplicit false

namespace Lib

/-- A step of a path. -/
inductive PathStep (N : Type)
  | up
  | into (name : N)
deriving DecidableEq

/-- What stands at a place. -/
inductive Node (N F : Type)
  | dir
  | file (content : F)
  | link (absolute : Bool) (target : List (PathStep N))
deriving DecidableEq

/-- It is a link. -/
def Node.IsLink {N F : Type} : Node N F → Prop
  | .link _ _ => True
  | _ => False

/-- Where the names of a place lead. -/
structure FileTree (N F : Type) where
  node : List N → Option (Node N F)
  root : node [] = some .dir
  /-- Only a directory has something below it. -/
  parent : ∀ {place : List N} {name : N} {n : Node N F},
    node (place ++ [name]) = some n → node place = some .dir

namespace FileTree

variable {N F : Type} (tree : FileTree N F)

/-- Something other than a link stands there. -/
def Settled (place : List N) : Prop := ∃ n, tree.node place = some n ∧ ¬n.IsLink

/-- Walked from a place, the steps of a path end in another. -/
inductive Walks : List N → List (PathStep N) → List N → Prop
  | done (place : List N) : Walks place [] place
  | up {place : List N} {steps : List (PathStep N)} {result : List N}
      (tail : Walks place.dropLast steps result) : Walks place (.up :: steps) result
  | into {place : List N} {name : N} {steps : List (PathStep N)} {result : List N}
      (head : tree.Settled (place ++ [name])) (tail : Walks (place ++ [name]) steps result) :
      Walks place (.into name :: steps) result
  /-- The target of a link comes before what is left of the path. -/
  | follow {place : List N} {name : N} {steps : List (PathStep N)} {result : List N}
      {absolute : Bool} {target : List (PathStep N)}
      (head : tree.node (place ++ [name]) = some (.link absolute target))
      (tail : Walks (if absolute then [] else place) (target ++ steps) result) :
      Walks place (.into name :: steps) result

variable {tree} {place result : List N} {steps steps' : List (PathStep N)} {name : N}

theorem Settled.root : tree.Settled [] := ⟨.dir, tree.root, id⟩

theorem settled_of_dir (h : tree.node place = some .dir) : tree.Settled place := ⟨.dir, h, id⟩

theorem not_settled_of_link {absolute : Bool} {target : List (PathStep N)}
    (h : tree.node place = some (.link absolute target)) : ¬tree.Settled place := by
  rintro ⟨n, hn, hlink⟩
  obtain rfl := Option.some.inj (hn.symm.trans h)
  exact hlink trivial

/-- Something stands above what stands somewhere, and it is a directory. -/
theorem dir_of_below {above : List N} {n : Node N F} (h : tree.node place = some n)
    (hbefore : above <+: place) (hne : above ≠ place) : tree.node above = some .dir := by
  induction place using List.reverseRecOn generalizing n with
  | nil => exact absurd (List.prefix_nil.mp hbefore) hne
  | append_singleton place name ih =>
    have hplace := tree.parent h
    rcases eq_or_ne above place with rfl | hne'
    · exact hplace
    · refine ih hplace ?_ hne'
      rcases List.prefix_concat_iff.mp hbefore with heq | hbefore
      · exact absurd heq hne
      · exact hbefore

theorem Settled.dropLast (h : tree.Settled place) : tree.Settled place.dropLast := by
  obtain ⟨n, hn, -⟩ := id h
  rcases eq_or_ne place.dropLast place with heq | hne
  · rwa [heq]
  · exact settled_of_dir (dir_of_below hn (List.dropLast_prefix place) hne)

theorem walks_up_iff : tree.Walks place (.up :: steps) result ↔
    tree.Walks place.dropLast steps result :=
  ⟨fun h ↦ by cases h; assumption, .up⟩

theorem walks_into_iff (h : tree.Settled (place ++ [name])) :
    tree.Walks place (.into name :: steps) result ↔ tree.Walks (place ++ [name]) steps result := by
  refine ⟨fun hwalk ↦ ?_, .into h⟩
  cases hwalk with
  | into head tail => exact tail
  | follow head tail => exact absurd h (not_settled_of_link head)

theorem walks_follow_iff {absolute : Bool} {target : List (PathStep N)}
    (h : tree.node (place ++ [name]) = some (.link absolute target)) :
    tree.Walks place (.into name :: steps) result ↔
      tree.Walks (if absolute then [] else place) (target ++ steps) result := by
  refine ⟨fun hwalk ↦ ?_, .follow h⟩
  cases hwalk with
  | into head tail => exact absurd head (not_settled_of_link h)
  | follow head tail =>
    obtain ⟨rfl, rfl⟩ := Node.link.inj (Option.some.inj (h.symm.trans head))
    exact tail

/-- A walk does not end in a link. -/
theorem Walks.settled (h : tree.Walks place steps result) (hplace : tree.Settled place) :
    tree.Settled result := by
  induction h with
  | done => exact hplace
  | up tail ih => exact ih hplace.dropLast
  | into head tail ih => exact ih head
  | follow head tail ih =>
    refine ih ?_
    split
    · exact .root
    · exact settled_of_dir (tree.parent head)

/-- A walk ends in one place. -/
theorem Walks.unique {result' : List N} (h : tree.Walks place steps result)
    (h' : tree.Walks place steps result') : result = result' := by
  induction h with
  | done => cases h'; rfl
  | up tail ih => exact ih (walks_up_iff.mp h')
  | into head tail ih => exact ih ((walks_into_iff head).mp h')
  | follow head tail ih => exact ih ((walks_follow_iff head).mp h')

/-- A path is walked part by part. -/
theorem walks_append : tree.Walks place (steps ++ steps') result ↔
    ∃ middle, tree.Walks place steps middle ∧ tree.Walks middle steps' result := by
  constructor
  · intro h
    generalize hall : steps ++ steps' = all at h
    induction h generalizing steps with
    | done place =>
      obtain ⟨rfl, rfl⟩ := List.append_eq_nil_iff.mp hall
      exact ⟨place, .done place, .done place⟩
    | @up place rest result tail ih =>
      rcases List.append_eq_cons_iff.mp hall with ⟨rfl, rfl⟩ | ⟨front, rfl, rfl⟩
      · exact ⟨place, .done place, .up tail⟩
      · obtain ⟨middle, hfront, hback⟩ := ih rfl
        exact ⟨middle, .up hfront, hback⟩
    | @into place name rest result head tail ih =>
      rcases List.append_eq_cons_iff.mp hall with ⟨rfl, rfl⟩ | ⟨front, rfl, rfl⟩
      · exact ⟨place, .done place, .into head tail⟩
      · obtain ⟨middle, hfront, hback⟩ := ih rfl
        exact ⟨middle, .into head hfront, hback⟩
    | @follow place name rest result absolute target head tail ih =>
      rcases List.append_eq_cons_iff.mp hall with ⟨rfl, rfl⟩ | ⟨front, rfl, rfl⟩
      · exact ⟨place, .done place, .follow head tail⟩
      · obtain ⟨middle, hfront, hback⟩ := ih (List.append_assoc target front steps')
        exact ⟨middle, .follow head hfront, hback⟩
  · rintro ⟨middle, hfront, hback⟩
    induction hfront with
    | done => exact hback
    | up tail ih => exact .up (ih hback)
    | into head tail ih => exact .into head (ih hback)
    | follow head tail ih => exact .follow head (List.append_assoc .. ▸ ih hback)

/-! ### Names without links -/

/-- The steps of a path that only goes down. -/
def down (names : List N) : List (PathStep N) := names.map .into

/-- Names that lead through no link lead where they say. -/
theorem walks_down {names : List N}
    (h : ∀ front, front ≠ [] → front <+: names → tree.Settled (place ++ front)) :
    tree.Walks place (down names) (place ++ names) := by
  induction names generalizing place with
  | nil =>
    rw [List.append_nil]
    exact .done place
  | cons name names ih =>
    refine .into (h [name] (List.cons_ne_nil _ _) ⟨names, rfl⟩) ?_
    have hrest : tree.Walks (place ++ [name]) (down names) (place ++ [name] ++ names) :=
      ih fun front hne hbefore ↦ by
        rw [List.append_assoc]
        exact h (name :: front) (List.cons_ne_nil _ _) (List.cons_prefix_cons.mpr ⟨rfl, hbefore⟩)
    rwa [List.append_assoc] at hrest

/-- What stands somewhere and is no link is found there. -/
theorem Settled.walks (h : tree.Settled place) : tree.Walks [] (down place) place := by
  have hdown : tree.Walks [] (down place) ([] ++ place) := walks_down fun front _ hbefore ↦ by
    obtain ⟨n, hn, -⟩ := id h
    rcases eq_or_ne front place with rfl | hne
    · exact h
    · exact settled_of_dir (dir_of_below hn hbefore hne)
  exact hdown

/-! ### Trees from lists -/

/-- What a list says of a place. -/
def lookup [DecidableEq N] (entries : List (List N × Node N F)) (place : List N) :
    Option (Node N F) :=
  if place = [] then some .dir else (entries.find? fun entry ↦ entry.1 = place).map Prod.snd

theorem mem_of_lookup [DecidableEq N] {entries : List (List N × Node N F)} {place : List N}
    {n : Node N F} (h : lookup entries place = some n) (hne : place ≠ []) :
      (place, n) ∈ entries := by
  rw [lookup, if_neg hne] at h
  obtain ⟨entry, hentry, rfl⟩ := Option.map_eq_some_iff.mp h
  have hplace : entry.1 = place := by simpa using List.find?_some hentry
  rw [← hplace]
  exact List.mem_of_find?_eq_some hentry

/-- The tree of a list in which everything stands in a directory. -/
def ofList [DecidableEq N] (entries : List (List N × Node N F))
    (h : ∀ entry ∈ entries, lookup entries entry.1.dropLast = some .dir) : FileTree N F where
  node := lookup entries
  root := if_pos rfl
  parent := by
    intro place name n hn
    have hdir := h _ (mem_of_lookup hn (by simp))
    rwa [List.dropLast_concat] at hdir

end FileTree

end Lib
