import Mathlib.Data.List.Dedup
import Mathlib.Data.List.Sort

/-!
# Lists in the order of a key

A list that is to stand for a set can be given one spelling, by a key whose order it has to follow.

* `UniqueAndSorted` is the check programs make of the keys, that sorting changes nothing and that a
  set of them has as many; it says that the keys ascend (`uniqueAndSorted_iff`).
* `Ascending key l`: the keys of a list ascend.  Its members determine such a list
  (`Ascending.eq_of_mem_iff`), and when no two things have one key every finite set has one
  (`existsUnique_ascending`).
* `Ascending.find?_le`: what is found first in such a list has the least key of all that could be.
-/

set_option autoImplicit false

namespace Lib

variable {α κ : Type} [LinearOrder κ]

/-- The keys, sorted. -/
def sortedKeys (keys : List κ) : List κ := keys.mergeSort fun a b ↦ decide (a ≤ b)

/-- The keys are as sorting leaves them, and there are as many as there are different ones. -/
def UniqueAndSorted (keys : List κ) : Prop :=
  keys = sortedKeys keys ∧ keys.length = keys.dedup.length

instance (keys : List κ) : Decidable (UniqueAndSorted keys) := inferInstanceAs (Decidable (_ ∧ _))

theorem sortedKeys_eq_self_iff {keys : List κ} :
    keys = sortedKeys keys ↔ keys.Pairwise (· ≤ ·) := by
  constructor
  · intro h
    have hsorted : (sortedKeys keys).Pairwise (· ≤ ·) := List.pairwise_mergeSort' (· ≤ ·) keys
    rwa [← h] at hsorted
  · exact fun h ↦ (List.mergeSort_eq_self (· ≤ ·) h).symm

theorem length_eq_dedup_iff {keys : List κ} : keys.length = keys.dedup.length ↔ keys.Nodup := by
  constructor
  · intro h
    exact List.dedup_eq_self.mp ((List.dedup_sublist keys).eq_of_length h.symm)
  · intro h
    rw [h.dedup]

/-- **Keys that are unique and sorted ascend.** -/
theorem uniqueAndSorted_iff {keys : List κ} : UniqueAndSorted keys ↔ keys.Pairwise (· < ·) := by
  rw [UniqueAndSorted, sortedKeys_eq_self_iff, length_eq_dedup_iff]
  constructor
  · rintro ⟨hle, hne⟩
    exact (hle.and hne).imp fun h ↦ lt_of_le_of_ne h.1 h.2
  · exact fun h ↦ ⟨h.imp le_of_lt, h.imp ne_of_lt⟩

/-- The keys of a list ascend. -/
def Ascending (key : α → κ) (l : List α) : Prop := l.Pairwise fun a b ↦ key a < key b

theorem uniqueAndSorted_map_iff {key : α → κ} {l : List α} :
    UniqueAndSorted (l.map key) ↔ Ascending key l :=
  uniqueAndSorted_iff.trans List.pairwise_map

section

variable {key : α → κ} {l l' : List α}

theorem Ascending.nodup (h : Ascending key l) : l.Nodup :=
  h.imp fun hlt heq ↦ hlt.ne (congrArg key heq)

/-- **An ascending list is determined by its members.** -/
theorem Ascending.eq_of_mem_iff (h : Ascending key l) (h' : Ascending key l')
    (hmem : ∀ a, a ∈ l ↔ a ∈ l') : l = l' :=
  ((List.perm_ext_iff_of_nodup h.nodup h'.nodup).mpr hmem).eq_of_pairwise
    (fun _ _ _ _ hab hba ↦ absurd hba hab.asymm) h h'

/-- When no two things have one key, whatever is listed without repetition can be put in order. -/
theorem exists_ascending (hkey : Function.Injective key) (hl : l.Nodup) :
    ∃ l', l'.Perm l ∧ Ascending key l' := by
  let r : α → α → Prop := fun a b ↦ key a ≤ key b
  have htotal : Std.Total r := ⟨fun a b ↦ le_total (key a) (key b)⟩
  have htrans : IsTrans α r := ⟨fun _ _ _ hab hbc ↦ le_trans hab hbc⟩
  have hperm : (l.mergeSort fun a b ↦ decide (r a b)).Perm l := List.mergeSort_perm l _
  refine ⟨_, hperm, ?_⟩
  have hsorted := List.pairwise_mergeSort' r l
  exact (hsorted.and (hperm.nodup_iff.mpr hl)).imp fun h ↦ lt_of_le_of_ne h.1 fun heq ↦
    h.2 (hkey heq)

/-- **One order of a list without repetition is ascending**, when no two things have one key. -/
theorem existsUnique_ascending (hkey : Function.Injective key) (hl : l.Nodup) :
    ∃! l', l'.Perm l ∧ Ascending key l' := by
  obtain ⟨l', hperm, hasc⟩ := exists_ascending hkey hl
  refine ⟨l', ⟨hperm, hasc⟩, fun l'' h ↦ ?_⟩
  exact h.2.eq_of_mem_iff hasc fun a ↦ (h.1.trans hperm.symm).mem_iff

/-- **What is found first has the least key** of all that pass. -/
theorem Ascending.find?_le (h : Ascending key l) {p : α → Bool} {a b : α}
    (hfind : l.find? p = some a) (hb : b ∈ l) (hp : p b = true) : key a ≤ key b := by
  obtain ⟨-, before, after, rfl, hbefore⟩ := List.find?_eq_some_iff_append.mp hfind
  rcases List.mem_append.mp hb with hb | hb
  · exact absurd hp (by simpa using hbefore b hb)
  · rcases List.mem_cons.mp hb with rfl | hb
    · exact le_rfl
    · exact ((List.pairwise_cons.mp (List.pairwise_append.mp h).2.1).1 b hb).le

end

end Lib
