import Alicerce.Py.Except

/-!
# Narrowing a list of candidates

A chain of stages, each of which keeps the candidates that pass one test and raises its own error
when none is left.  Nothing in such a chain mentions the conjunction of the tests, but that is what
it computes.

* `keep` is one stage, and `narrow` the chain.
* `PassesAll`: a candidate passes every stage.  `narrow_eq_ok_iff`: the chain returns the candidates
  that do, when there is one.
* `narrow_eq_error_iff`: else it raises the error of the first stage at which no candidate has
  passed all the tests so far.
* `firstOf` takes the first candidate left, or raises.
-/

set_option autoImplicit false

namespace Lib

open Py

variable {ε α : Type}

/-- Keep the candidates that pass a test; raise `e` when none does. -/
def keep (e : ε) (p : α → Bool) (candidates : List α) : Except ε (List α) :=
  if (candidates.filter p).isEmpty then .error e else .ok (candidates.filter p)

/-- One stage after the other. -/
def narrow : List (ε × (α → Bool)) → List α → Except ε (List α)
  | [], candidates => .ok candidates
  | (e, p) :: stages, candidates => keep e p candidates >>= narrow stages

/-- A candidate passes every one of the stages. -/
def PassesAll (stages : List (ε × (α → Bool))) (x : α) : Prop := ∀ s ∈ stages, s.2 x = true

variable {e : ε} {p : α → Bool} {stages before after : List (ε × (α → Bool))}
  {candidates kept : List α} {x : α}

instance : Decidable (PassesAll stages x) := inferInstanceAs (Decidable (∀ s ∈ stages, _))

@[simp] theorem passesAll_nil : PassesAll ([] : List (ε × (α → Bool))) x :=
  fun _ h ↦ absurd h List.not_mem_nil

@[simp] theorem passesAll_cons :
    PassesAll ((e, p) :: stages) x ↔ p x = true ∧ PassesAll stages x := by
  rw [PassesAll, List.forall_mem_cons, PassesAll]

@[simp] theorem passesAll_append :
    PassesAll (before ++ after) x ↔ PassesAll before x ∧ PassesAll after x :=
  List.forall_mem_append

theorem narrow_append : narrow (before ++ after) candidates =
    narrow before candidates >>= narrow after := by
  induction before generalizing candidates with
  | nil => rfl
  | cons s before ih =>
    rw [List.cons_append, narrow, narrow, bind_bind]
    exact congrArg _ (funext fun _ ↦ ih)

theorem keep_eq_ok_iff :
    keep e p candidates = .ok kept ↔ kept = candidates.filter p ∧ kept ≠ [] := by
  rw [keep]
  split
  · rename_i h
    rw [List.isEmpty_iff] at h
    exact iff_of_false (by simp) fun ⟨hk, hne⟩ ↦ hne (hk.trans h)
  · rename_i h
    rw [List.isEmpty_iff] at h
    rw [Except.ok.injEq]
    exact ⟨fun hk ↦ ⟨hk.symm, hk ▸ h⟩, fun hk ↦ hk.1.symm⟩

theorem keep_eq_error_iff {e' : ε} :
    keep e p candidates = .error e' ↔ e' = e ∧ ∀ x ∈ candidates, p x = false := by
  rw [keep]
  split
  · rename_i h
    rw [List.isEmpty_iff, List.filter_eq_nil_iff] at h
    rw [Except.error.injEq]
    exact ⟨fun he ↦ ⟨he.symm, fun x hx ↦ Bool.not_eq_true _ ▸ h x hx⟩, fun he ↦ he.1.symm⟩
  · rename_i h
    rw [List.isEmpty_iff, List.filter_eq_nil_iff] at h
    exact iff_of_false (by simp) fun he ↦ h fun x hx ↦ by rw [he.2 x hx]; exact Bool.false_ne_true

/-- The first candidate that passes the test of a stage, or the error of the stage. -/
def firstOf (e : ε) (p : α → Bool) (candidates : List α) : Except ε α :=
  match candidates.find? p with
  | some x => .ok x
  | none => .error e

theorem firstOf_eq_ok_iff : firstOf e p candidates = .ok x ↔ candidates.find? p = some x := by
  rw [firstOf]
  split
  · rename_i y hy
    rw [Except.ok.injEq, hy, Option.some_inj]
  · rename_i h
    simp [h]

/-- A search fails as the narrowing by its test does. -/
theorem firstOf_eq_error_iff {e' : ε} :
    firstOf e p candidates = .error e' ↔ keep e p candidates = .error e' := by
  rw [firstOf, keep_eq_error_iff]
  split
  · rename_i x hx
    refine iff_of_false (by simp) fun h ↦ ?_
    have hnot := h.2 x (List.mem_of_find?_eq_some hx)
    rw [List.find?_some hx] at hnot
    exact absurd hnot (by simp)
  · rename_i hx
    rw [Except.error.injEq]
    refine ⟨fun h ↦ ⟨h.symm, fun x hmem ↦ ?_⟩, fun h ↦ h.1.symm⟩
    exact Bool.not_eq_true _ ▸ List.find?_eq_none.mp hx x hmem

/-- What is left after all stages are the candidates that pass all of them, and there are some. -/
theorem narrow_eq_ok_iff : narrow stages candidates = .ok kept ↔
    kept = candidates.filter (fun x ↦ PassesAll stages x) ∧ (stages ≠ [] → kept ≠ []) := by
  induction stages generalizing candidates with
  | nil =>
    rw [narrow, Except.ok.injEq, List.filter_eq_self.mpr fun _ _ ↦ decide_eq_true passesAll_nil]
    exact ⟨fun h ↦ ⟨h.symm, fun hne ↦ absurd rfl hne⟩, fun h ↦ h.1.symm⟩
  | cons s stages ih =>
    obtain ⟨e, p⟩ := s
    have hfilter : (candidates.filter p).filter (fun x ↦ PassesAll stages x) =
        candidates.filter fun x ↦ PassesAll ((e, p) :: stages) x := by
      rw [List.filter_filter]
      exact List.filter_congr fun x _ ↦ by simp [Bool.and_comm]
    rw [narrow, bind_eq_ok_iff]
    constructor
    · rintro ⟨l, hl, h⟩
      obtain ⟨rfl, hne⟩ := keep_eq_ok_iff.mp hl
      obtain ⟨rfl, hne'⟩ := ih.mp h
      refine ⟨hfilter, fun _ ↦ ?_⟩
      by_cases hs : stages = []
      · subst hs
        simpa using hne
      · exact hne' hs
    · rintro ⟨rfl, hne⟩
      have hne := hne (List.cons_ne_nil _ _)
      refine ⟨_, keep_eq_ok_iff.mpr ⟨rfl, fun hnil ↦ hne ?_⟩, ih.mpr ⟨hfilter.symm, fun _ ↦ hne⟩⟩
      rw [← hfilter, hnil, List.filter_nil]

/-- **The error is the one of the first stage at which no candidate has passed all the tests so
far.** -/
theorem narrow_eq_error_iff {e : ε} : narrow stages candidates = .error e ↔
    ∃ before p after, stages = before ++ (e, p) :: after ∧
      (before ≠ [] → ∃ x ∈ candidates, PassesAll before x) ∧
      ∀ x ∈ candidates, PassesAll before x → p x = false := by
  induction stages generalizing candidates with
  | nil => simp [narrow]
  | cons s stages ih =>
    obtain ⟨e₀, p₀⟩ := s
    rw [narrow, bind_eq_error_iff]
    constructor
    · rintro (h | ⟨l, hl, h⟩)
      · obtain ⟨rfl, hnone⟩ := keep_eq_error_iff.mp h
        exact ⟨[], p₀, stages, rfl, fun hne ↦ absurd rfl hne, fun x hx _ ↦ hnone x hx⟩
      · obtain ⟨rfl, hne⟩ := keep_eq_ok_iff.mp hl
        obtain ⟨before, p, after, rfl, hsome, hnone⟩ := ih.mp h
        refine ⟨(e₀, p₀) :: before, p, after, rfl, fun _ ↦ ?_, fun x hx hpass ↦ ?_⟩
        · by_cases hb : before = []
          · subst hb
            obtain ⟨x, hx⟩ := List.exists_mem_of_ne_nil _ hne
            rw [List.mem_filter] at hx
            exact ⟨x, hx.1, passesAll_cons.mpr ⟨hx.2, passesAll_nil⟩⟩
          · obtain ⟨x, hx, hpass⟩ := hsome hb
            rw [List.mem_filter] at hx
            exact ⟨x, hx.1, passesAll_cons.mpr ⟨hx.2, hpass⟩⟩
        · rw [passesAll_cons] at hpass
          exact hnone x (List.mem_filter.mpr ⟨hx, hpass.1⟩) hpass.2
    · rintro ⟨before, p, after, hsplit, hsome, hnone⟩
      rcases before with _ | ⟨s, before⟩
      · rw [List.nil_append, List.cons.injEq, Prod.mk.injEq] at hsplit
        obtain ⟨⟨rfl, rfl⟩, rfl⟩ := hsplit
        exact .inl (keep_eq_error_iff.mpr ⟨rfl, fun x hx ↦ hnone x hx passesAll_nil⟩)
      · rw [List.cons_append, List.cons.injEq] at hsplit
        obtain ⟨rfl, rfl⟩ := hsplit
        obtain ⟨x, hx, hpass⟩ := hsome (by simp)
        rw [passesAll_cons] at hpass
        have hmem : x ∈ candidates.filter p₀ := List.mem_filter.mpr ⟨hx, hpass.1⟩
        refine .inr ⟨_, keep_eq_ok_iff.mpr ⟨rfl, List.ne_nil_of_mem hmem⟩,
          ih.mpr ⟨before, p, after, rfl, fun _ ↦ ⟨x, hmem, hpass.2⟩, fun y hy hpass' ↦ ?_⟩⟩
        rw [List.mem_filter] at hy
        exact hnone y hy.1 (passesAll_cons.mpr ⟨hy.2, hpass'⟩)

end Lib
