import Mathlib.Tactic.Basic

/-!
# Raising and translating exceptions

A Python function without effects is a function into `Except`: `return` is `ok` and `raise` is
`error`.  What a caller does with it is then sequencing.

* `bind_eq_ok_iff` and `bind_eq_error_iff` say when a sequence returns and what it raises, and there
  are such rules for checks, for mappings and for loops over a list.
* `Py.translate` is `try … except … as error: raise …`.
* `Py.Raises p x`: whatever `x` raises satisfies `p`.  Sequences and handlers keep that.
-/

set_option autoImplicit false

namespace Py

variable {ε α β : Type}

/-! ## Sequencing -/

@[simp] theorem ok_bind (a : α) (f : α → Except ε β) : (Except.ok a >>= f) = f a := rfl

@[simp] theorem error_bind (e : ε) (f : α → Except ε β) :
    (Except.error e >>= f) = (.error e : Except ε β) := rfl

@[simp] theorem pure_eq_ok (a : α) : (pure a : Except ε α) = .ok a := rfl

@[simp] theorem throw_eq_error (e : ε) : (throw e : Except ε α) = .error e := rfl

theorem map_bind {γ : Type} (x : Except ε α) (f : α → β) (g : β → Except ε γ) :
    (x.map f >>= g) = x >>= fun a ↦ g (f a) := by
  cases x <;> rfl

theorem map_eq_bind (x : Except ε α) (f : α → β) : x.map f = x >>= fun a ↦ .ok (f a) := by
  cases x <;> rfl

theorem bind_bind {γ : Type} (x : Except ε α) (f : α → Except ε β) (g : β → Except ε γ) :
    (x >>= f >>= g) = x >>= fun a ↦ f a >>= g := by
  cases x <;> rfl

/-- A sequence returns when both of its parts do. -/
theorem bind_eq_ok_iff {x : Except ε α} {f : α → Except ε β} {b : β} :
    (x >>= f) = .ok b ↔ ∃ a, x = .ok a ∧ f a = .ok b := by
  cases x with
  | ok a => simp
  | error e => simp

theorem unit_bind_eq_ok_iff {x : Except ε Unit} {f : Unit → Except ε β} {b : β} :
    (x >>= f) = .ok b ↔ x = .ok () ∧ f () = .ok b := by
  cases x with
  | ok a => simp
  | error e => simp

/-- A sequence raises what its first part raises, or else what its second part does. -/
theorem bind_eq_error_iff {x : Except ε α} {f : α → Except ε β} {e : ε} :
    (x >>= f) = .error e ↔ x = .error e ∨ ∃ a, x = .ok a ∧ f a = .error e := by
  cases x with
  | ok a => simp
  | error e => simp

theorem map_eq_ok_iff {f : α → β} {x : Except ε α} {b : β} :
    x.map f = .ok b ↔ ∃ a, x = .ok a ∧ f a = b := by
  cases x <;> simp [Except.map]

/-- A check that raises under a condition and returns what it was given otherwise. -/
theorem ite_error_eq_ok_iff {c : Prop} [Decidable c] {e : ε} {a b : α} :
    (if c then .error e else .ok a : Except ε α) = .ok b ↔ ¬c ∧ b = a := by
  split
  · rename_i h
    exact iff_of_false (by simp) fun h' ↦ h'.1 h
  · rename_i h
    rw [Except.ok.injEq]
    exact ⟨fun heq ↦ ⟨h, heq.symm⟩, fun h' ↦ h'.2.symm⟩

theorem ite_ok_eq_ok_iff {c : Prop} [Decidable c] {e : ε} {a b : α} :
    (if c then .ok a else .error e : Except ε α) = .ok b ↔ c ∧ b = a := by
  rw [← ite_not, ite_error_eq_ok_iff, Decidable.not_not]

theorem mapError_ok {ε' : Type} (f : ε → ε') (a : α) :
    (Except.ok a : Except ε α).mapError f = .ok a := rfl

theorem mapError_error {ε' : Type} (f : ε → ε') (e : ε) :
    (Except.error e : Except ε α).mapError f = .error (f e) := rfl

theorem mapError_eq_ok_iff {ε' : Type} {f : ε → ε'} {x : Except ε α} {a : α} :
    x.mapError f = .ok a ↔ x = .ok a := by
  cases x with
  | ok b => rw [mapError_ok, Except.ok.injEq, Except.ok.injEq]
  | error e => rw [mapError_error]; simp

theorem mapError_eq_error_iff {ε' : Type} {f : ε → ε'} {x : Except ε α} {e : ε'} :
    x.mapError f = .error e ↔ ∃ e', x = .error e' ∧ f e' = e := by
  cases x with
  | ok b => rw [mapError_ok]; simp
  | error e' => rw [mapError_error]; simp

/-! ## Translating -/

/-- `try: x` / `except caught as error: raise f error`. -/
def translate (caught : ε → Bool) (f : ε → ε) : Except ε α → Except ε α
  | .ok a => .ok a
  | .error e => .error (if caught e then f e else e)

variable {caught : ε → Bool} {f : ε → ε} {x : Except ε α}

@[simp] theorem translate_eq_ok_iff {a : α} : translate caught f x = .ok a ↔ x = .ok a := by
  cases x <;> simp [translate]

/-- What comes out of the handler was caught and replaced, or was not caught. -/
theorem translate_eq_error_iff {e : ε} : translate caught f x = .error e ↔
    ∃ e', x = .error e' ∧ (if caught e' then f e' else e') = e := by
  cases x <;> simp [translate]

/-! ## What can be raised -/

/-- Whatever is raised satisfies `p`. -/
def Raises (p : ε → Prop) (x : Except ε α) : Prop := ∀ e, x = .error e → p e

variable {p q : ε → Prop}

theorem raises_ok (a : α) : Raises p (.ok a : Except ε α) := fun _ h ↦ absurd h (by simp)

theorem raises_error {e : ε} (h : p e) : Raises p (.error e : Except ε α) :=
  fun _ heq ↦ Except.error.inj heq ▸ h

theorem Raises.mono (h : Raises p x) (hpq : ∀ e, p e → q e) : Raises q x :=
  fun e he ↦ hpq e (h e he)

theorem Raises.bind {f : α → Except ε β} (hx : Raises p x)
    (hf : ∀ a, x = .ok a → Raises p (f a)) : Raises p (x >>= f) := by
  intro e he
  rcases bind_eq_error_iff.mp he with h | ⟨a, ha, h⟩
  · exact hx e h
  · exact hf a ha e h

theorem Raises.ite {c : Prop} [Decidable c] {y : Except ε α} (hx : c → Raises p x)
    (hy : ¬c → Raises p y) : Raises p (if c then x else y) := by
  by_cases h : c
  · rw [if_pos h]; exact hx h
  · rw [if_neg h]; exact hy h

/-- A handler that replaces what it catches by what satisfies `p`. -/
theorem Raises.translate (hx : Raises p x) (hf : ∀ e, caught e = true → p (f e)) :
    Raises p (translate caught f x) := by
  intro e he
  obtain ⟨e', he', rfl⟩ := translate_eq_error_iff.mp he
  split
  · exact hf e' ‹_›
  · exact hx e' he'

theorem Raises.map {f : α → β} (hx : Raises p x) : Raises p (x.map f) := by
  rw [map_eq_bind]
  exact hx.bind fun a _ ↦ raises_ok (f a)

end Py
