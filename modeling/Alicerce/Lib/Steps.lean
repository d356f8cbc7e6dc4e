import Mathlib.Data.List.Induction

/-!
# Runs of a labelled step relation

`Steps Step s es t`: the labels `es`, performed one after another, lead from `s` to `t`.

* The labels of a run are its log.  `Steps.append_iff` and `Steps.cons_iff` take a run apart, and
  `Steps.snoc` adds a step to it.
* `Steps.invariant` is the induction: what holds at first and is preserved by every step holds at
  the end, the log included.
* When a step is determined by its label, the log determines where it leads; conversely, a quantity
  that every step raises by one counts the log.
-/

set_option autoImplicit false

namespace Lib

variable {σ ε : Type}

/-- Finite runs, with their labels in order. -/
inductive Steps (Step : σ → ε → σ → Prop) : σ → List ε → σ → Prop
  | nil (s : σ) : Steps Step s [] s
  | cons {s t u : σ} {e : ε} {es : List ε} (head : Step s e t) (tail : Steps Step t es u) :
      Steps Step s (e :: es) u

namespace Steps

variable {Step : σ → ε → σ → Prop} {s t u : σ} {e : ε} {es fs : List ε}

@[simp] theorem nil_iff : Steps Step s [] t ↔ t = s :=
  ⟨fun h ↦ by cases h; rfl, fun h ↦ h ▸ .nil t⟩

@[simp] theorem cons_iff : Steps Step s (e :: es) u ↔ ∃ t, Step s e t ∧ Steps Step t es u :=
  ⟨fun h ↦ by cases h with | cons head tail => exact ⟨_, head, tail⟩,
    fun ⟨_, head, tail⟩ ↦ .cons head tail⟩

/-- A run of a concatenation passes through a state in between. -/
theorem append_iff :
    Steps Step s (es ++ fs) u ↔ ∃ t, Steps Step s es t ∧ Steps Step t fs u := by
  induction es generalizing s with
  | nil => simp
  | cons e es ih =>
    simp only [List.cons_append, cons_iff, ih]
    exact ⟨fun ⟨m, hm, t, hes, hfs⟩ ↦ ⟨t, ⟨m, hm, hes⟩, hfs⟩,
      fun ⟨t, ⟨m, hm, hes⟩, hfs⟩ ↦ ⟨m, hm, t, hes, hfs⟩⟩

/-- A run can be extended at its end. -/
theorem snoc (h : Steps Step s es t) (hstep : Step t e u) : Steps Step s (es ++ [e]) u :=
  append_iff.mpr ⟨t, h, .cons hstep (.nil u)⟩

/-- When a label determines its step, a log determines where it leads. -/
theorem unique (hdet : ∀ {s t t' : σ} {e : ε}, Step s e t → Step s e t' → t = t')
    (h : Steps Step s es t) (h' : Steps Step s es u) : t = u := by
  induction h with
  | nil s => exact (nil_iff.mp h').symm
  | cons head _ ih =>
    obtain ⟨m, hm, htail⟩ := cons_iff.mp h'
    exact ih (hdet head hm ▸ htail)

/-- Every label of a run is that of one of its steps. -/
theorem exists_of_mem (h : Steps Step s es t) (he : e ∈ es) : ∃ m m', Step m e m' := by
  induction h with
  | nil => exact absurd he (by simp)
  | cons head _ ih =>
    rcases List.mem_cons.mp he with rfl | he
    · exact ⟨_, _, head⟩
    · exact ih he

/-- Steps that lead nowhere. -/
theorem of_forall (h : ∀ e ∈ es, Step s e s) : Steps Step s es s := by
  induction es with
  | nil => exact .nil s
  | cons e es ih =>
    obtain ⟨hhead, htail⟩ := List.forall_mem_cons.mp h
    exact .cons hhead (ih htail)

/-- A run of steps is one of steps of any wider kind. -/
theorem mono {Step' : σ → ε → σ → Prop} (h : Steps Step s es t)
    (hstep : ∀ {s t : σ} {e : ε}, Step s e t → Step' s e t) : Steps Step' s es t := by
  induction h with
  | nil => exact .nil _
  | cons head _ ih => exact .cons (hstep head) ih

/-- What every step preserves, every run does. -/
theorem preserves {P : σ → Prop} (hstep : ∀ {s t : σ} {e : ε}, P s → Step s e t → P t)
    (h : Steps Step s es t) (hs : P s) : P t := by
  induction h with
  | nil => exact hs
  | cons head _ ih => exact ih (hstep hs head)

/-- What every step raises by one counts the labels. -/
theorem measure_eq {m : σ → ℕ} (hstep : ∀ {s t : σ} {e : ε}, Step s e t → m t = m s + 1)
    (h : Steps Step s es t) : m t = m s + es.length := by
  induction h with
  | nil => rfl
  | cons head _ ih => rw [ih, hstep head, List.length_cons, Nat.add_assoc, Nat.add_comm 1]

/-- When every step raises `m` by one and its label says, as `f`, where `m` stood, the labels are
numbered consecutively. -/
theorem map_eq_range' {m : σ → ℕ} {f : ε → ℕ}
    (hstep : ∀ {s t : σ} {e : ε}, Step s e t → f e = m s ∧ m t = m s + 1)
    (h : Steps Step s es t) : es.map f = List.range' (m s) es.length := by
  induction h with
  | nil => rfl
  | cons head _ ih =>
    rw [List.map_cons, List.length_cons, List.range'_succ, ih, (hstep head).1, (hstep head).2]

/-- A run is one of steps with other labels, when each step is. -/
theorem map {ε' : Type} {Step' : σ → ε' → σ → Prop} {f : ε → ε'}
    (hstep : ∀ {s t : σ} {e : ε}, Step s e t → Step' s (f e) t) (h : Steps Step s es t) :
    Steps Step' s (es.map f) t := by
  induction h with
  | nil => exact .nil _
  | cons head _ ih => exact .cons (hstep head) ih

/-- A label in a run is that of a step that the labels before it lead to. -/
theorem exists_step (h : Steps Step s (es ++ e :: fs) u) :
    ∃ m m', Steps Step s es m ∧ Step m e m' ∧ Steps Step m' fs u := by
  obtain ⟨m, hbefore, hrest⟩ := append_iff.mp h
  obtain ⟨m', hstep, hafter⟩ := cons_iff.mp hrest
  exact ⟨m, m', hbefore, hstep, hafter⟩

/-- When a label says, as `f`, where its step leads, a transitive relation that every step keeps
holds between any two states of a run, in order. -/
theorem pairwise {R : σ → σ → Prop} {f : ε → σ} (htrans : ∀ {a b c : σ}, R a b → R b c → R a c)
    (hstep : ∀ {s t : σ} {e : ε}, Step s e t → f e = t ∧ R s t) (h : Steps Step s es t) :
    (s :: es.map f).Pairwise R := by
  induction h with
  | nil => exact List.pairwise_singleton ..
  | cons head _ ih =>
    obtain ⟨hf, hhead⟩ := hstep head
    rw [List.map_cons, hf]
    refine List.pairwise_cons.mpr ⟨fun b hb ↦ ?_, ih⟩
    rcases List.mem_cons.mp hb with rfl | hb
    · exact hhead
    · exact htrans hhead ((List.pairwise_cons.mp ih).1 b hb)

/-- The rule for what holds of a state together with the log that led to it. -/
theorem invariant {J : List ε → σ → Prop}
    (hstep : ∀ {es : List ε} {t u : σ} {e : ε}, J es t → Step t e u → J (es ++ [e]) u)
    (h : Steps Step s es t) (hs : J [] s) : J es t := by
  induction es using List.reverseRecOn generalizing t with
  | nil => exact nil_iff.mp h ▸ hs
  | append_singleton es e ih =>
    obtain ⟨m, hm, htail⟩ := append_iff.mp h
    obtain ⟨u, hlast, hu⟩ := cons_iff.mp htail
    exact nil_iff.mp hu ▸ hstep (ih hm) hlast

/-- Forward simulation: when every step with a label in `P` is matched under `R`, so is every run of
such labels. -/
theorem simulates {τ : Type} {Step' : τ → ε → τ → Prop} {R : σ → τ → Prop} {P : ε → Prop}
    (hstep : ∀ {s t : σ} {e : ε} {a : τ}, R s a → P e → Step s e t → ∃ b, R t b ∧ Step' a e b)
    (h : Steps Step s es t) {a : τ} (ha : R s a) (hP : ∀ e ∈ es, P e) :
    ∃ b, R t b ∧ Steps Step' a es b := by
  induction h generalizing a with
  | nil s => exact ⟨a, ha, .nil a⟩
  | cons head _ ih =>
    obtain ⟨m, hm, hhead⟩ := hstep ha (hP _ (List.mem_cons_self ..)) head
    obtain ⟨b, hb, htail⟩ := ih hm fun e he ↦ hP e (List.mem_cons_of_mem _ he)
    exact ⟨b, hb, .cons hhead htail⟩

end Steps

end Lib
