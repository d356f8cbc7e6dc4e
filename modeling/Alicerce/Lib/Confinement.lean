import Alicerce.Lib.FileTree

/-!
# Paths that stay below a place

A directory of a file tree, and one entry of it that is hidden.  Suppose that every link outside the
hidden entry leads to somewhere below the directory.  Does then every path that does not begin with
the hidden entry?  Not yet: a link may lead into the hidden entry, and the path go on there, through
links nobody has looked at.

* `Validated`: every link outside the hidden entry leads to somewhere below the directory.
* `Confines`: so does every path that does not begin with the hidden entry.
* `Exposed`: a path can come upon the link, because it is outside the hidden entry, or stands below
  what an exposed link leads to.
* `Arrived` is the invariant of a walk: where a path has come that stays below the directory.
* `confines_iff`: the paths stay below a validated directory exactly when the exposed links that are
  hidden lead to somewhere below it.
-/

set_option autoImplicit false

namespace Lib

namespace FileTree

variable {N F : Type} (tree : FileTree N F) (root : List N) (hidden : N)

/-- There is a link at a place. -/
def Linked (place : List N) : Prop :=
  ∃ absolute target, tree.node place = some (.link absolute target)

/-- The entry at a place leads to another place. -/
def Leading (place target : List N) : Prop := tree.Walks [] (down place) target

/-- Every path that does not begin with the hidden entry stays below the directory. -/
def Confines : Prop := ∀ names target, names.head? ≠ some hidden →
  tree.Walks root (down names) target → root <+: target

/-- Every link outside the hidden entry leads to somewhere below the directory. -/
def Validated : Prop := ∀ names, names ≠ [] → names.head? ≠ some hidden →
    tree.Linked (root ++ names) → ∃ target, tree.Leading (root ++ names) target ∧ root <+: target

/-- The links that a path can come upon which does not begin with the hidden entry. -/
inductive Exposed : List N → Prop
  | outside {names : List N} (hne : names ≠ []) (hhead : names.head? ≠ some hidden)
      (hlink : tree.Linked (root ++ names)) : Exposed (root ++ names)
  | behind {link target rest : List N} (h : Exposed link) (hleads : tree.Leading link target)
      (hne : rest ≠ []) (hlink : tree.Linked (target ++ rest)) : Exposed (target ++ rest)

variable {tree root hidden} {place target link names rest : List N} {name : N}

theorem down_append (names rest : List N) : down (names ++ rest) = down names ++ down rest :=
  List.map_append

/-- Below what stands somewhere, a path may start there. -/
theorem leading_append (h : tree.Settled place) :
    tree.Leading (place ++ rest) target ↔ tree.Walks place (down rest) target := by
  rw [Leading, down_append, walks_append]
  constructor
  · rintro ⟨middle, hplace, hrest⟩
    rwa [hplace.unique h.walks] at hrest
  · exact fun hrest ↦ ⟨place, h.walks, hrest⟩

theorem Leading.settled (h : tree.Leading place target) : tree.Settled target :=
  Walks.settled h .root

/-- One name further, a path is at an entry or where a link leads. -/
theorem walks_name (hplace : tree.Settled place) (h : tree.Walks place (down [name]) target) :
    (tree.Settled (place ++ [name]) ∧ target = place ++ [name]) ∨
      (tree.Linked (place ++ [name]) ∧ tree.Leading (place ++ [name]) target) := by
  have hleading := (leading_append hplace).mpr h
  cases h with
  | into head tail =>
    cases tail
    exact .inl ⟨head, rfl⟩
  | follow head tail => exact .inr ⟨⟨_, _, head⟩, hleading⟩

/-- A link is exposed at the end of a path that leads where it leads. -/
theorem Exposed.exists_names (hroot : tree.Settled root) (h : tree.Exposed root hidden link) :
    ∃ names, names ≠ [] ∧ names.head? ≠ some hidden ∧ ∀ target, tree.Leading link target →
      tree.Walks root (down names) target := by
  induction h with
  | outside hne hhead hlink =>
    exact ⟨_, hne, hhead, fun target hleads ↦ (leading_append hroot).mp hleads⟩
  | @behind link place rest h hleads hne hlink ih =>
    obtain ⟨names, hnames, hhead, hwalks⟩ := ih
    refine ⟨names ++ rest, List.append_ne_nil_of_left_ne_nil hnames _, ?_, fun target htarget ↦ ?_⟩
    · cases names with
      | nil => exact absurd rfl hnames
      | cons => exact hhead
    · rw [down_append, walks_append]
      exact ⟨place, hwalks place hleads, (leading_append hleads.settled).mp htarget⟩

/-- Where a path has come that stays below the directory: it has met no link, or it is below what an
exposed link leads to. -/
inductive Arrived (tree : FileTree N F) (root : List N) (hidden : N) (names : List N) :
    List N → Prop
  | straight : Arrived tree root hidden names (root ++ names)
  | through {link target rest : List N} (h : tree.Exposed root hidden link)
      (hleads : tree.Leading link target) : Arrived tree root hidden names (target ++ rest)

/-- A path meets exposed links only. -/
theorem arrived (hroot : tree.Settled root) (hhead : names.head? ≠ some hidden)
    (hvalid : tree.Validated root hidden)
    (hsealed : ∀ link target, tree.Exposed root hidden link → root ++ [hidden] <+: link →
      tree.Leading link target → root <+: target)
    (h : tree.Walks root (down names) target) :
    root <+: target ∧ tree.Arrived root hidden names target := by
  induction names using List.reverseRecOn generalizing target with
  | nil =>
    cases h
    refine ⟨List.prefix_refl _, ?_⟩
    have hstraight : tree.Arrived root hidden [] (root ++ []) := .straight
    rwa [List.append_nil] at hstraight
  | append_singleton names name ih =>
    have hfront : names.head? ≠ some hidden := by
      cases names with
      | nil => simp
      | cons => exact hhead
    rw [down_append, walks_append] at h
    obtain ⟨place, hplace, hlast⟩ := h
    obtain ⟨hbelow, harrived⟩ := ih hfront hplace
    -- a link that is met is exposed, and leads to somewhere below the directory
    have hexposed : tree.Linked (place ++ [name]) → tree.Exposed root hidden (place ++ [name]) := by
      intro hlink
      cases harrived with
      | straight =>
        rw [List.append_assoc] at hlink ⊢
        exact .outside (by simp) hhead hlink
      | through hbehind hleads =>
        rw [List.append_assoc] at hlink ⊢
        exact .behind hbehind hleads (by simp) hlink
    have hsafe : tree.Linked (place ++ [name]) → tree.Leading (place ++ [name]) target →
        root <+: target := by
      intro hlink hleads
      have hexp := hexposed hlink
      obtain ⟨more, rfl⟩ := hbelow
      by_cases hhidden : root ++ [hidden] <+: root ++ more ++ [name]
      · exact hsealed _ _ hexp hhidden hleads
      · rw [List.append_assoc] at hlink hleads hhidden
        rw [List.prefix_append_right_inj] at hhidden
        have hfirst : (more ++ [name]).head? ≠ some hidden := by
          intro hfirst
          obtain ⟨back, heq⟩ := List.head?_eq_some_iff.mp hfirst
          exact hhidden ⟨back, heq.symm⟩
        obtain ⟨target', hleads', hbelow'⟩ := hvalid (more ++ [name]) (by simp) hfirst hlink
        rwa [hleads.unique hleads']
    rcases walks_name (hplace.settled hroot) hlast with ⟨-, rfl⟩ | ⟨hlink, hleads⟩
    · refine ⟨hbelow.trans (List.prefix_append _ _), ?_⟩
      cases harrived with
      | straight =>
        rw [List.append_assoc]
        exact .straight
      | through hbehind hleads =>
        rw [List.append_assoc]
        exact .through hbehind hleads
    · refine ⟨hsafe hlink hleads, ?_⟩
      have hthrough : tree.Arrived root hidden (names ++ [name]) (target ++ []) :=
        .through (hexposed hlink) hleads
      rwa [List.append_nil] at hthrough

/-- **A validated directory confines its paths** exactly when the exposed links that are hidden lead
to somewhere below it, too. -/
theorem confines_iff (hroot : tree.Settled root) (hvalid : tree.Validated root hidden) :
    tree.Confines root hidden ↔ ∀ link target, tree.Exposed root hidden link →
      root ++ [hidden] <+: link → tree.Leading link target → root <+: target := by
  constructor
  · intro hconfines link target hexposed _ hleads
    obtain ⟨names, -, hhead, hwalks⟩ := hexposed.exists_names hroot
    exact hconfines names target hhead (hwalks target hleads)
  · exact fun hsealed names target hhead hwalks ↦ (arrived hroot hhead hvalid hsealed hwalks).1

end FileTree

end Lib
