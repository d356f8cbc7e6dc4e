import Mathlib.Tactic.Basic

/-!
# Programs with state and exceptions

`Program ρ σ ε α` is an imperative program: it runs in a surrounding `ρ` that it cannot change, from
a state `σ`, and either returns an `α` or raises an `ε`, with a final state in both cases: raising
does not undo what was done.

* `Program.lift` and `Program.raise` embed what has no effects.
* `Program.tryCatch` and `Program.tryFinally` are `try … except` and `try … finally`.
* For each construct there are two rules, one for a first part that returns and one for a first part
  that raises (`run_bind_ok`, `run_bind_error`, and so on).
-/

set_option autoImplicit false

namespace Lib

/-- An imperative program that returns an `α` or raises an `ε`. -/
def Program (ρ σ ε α : Type) : Type := ρ → σ → Except ε α × σ

namespace Program

variable {ρ σ ε α β : Type}

/-- Return a value. -/
def ret (a : α) : Program ρ σ ε α := fun _ s ↦ (.ok a, s)

/-- Run one program, then another on what it returned. -/
def seq (p : Program ρ σ ε α) (f : α → Program ρ σ ε β) : Program ρ σ ε β := fun r s ↦
  match p r s with
  | (.ok a, s') => f a r s'
  | (.error e, s') => (.error e, s')

instance : Monad (Program ρ σ ε) where
  pure := ret
  bind := seq

/-- Return or raise what a function without effects does. -/
def lift (x : Except ε α) : Program ρ σ ε α := fun _ s ↦ (x, s)

/-- `raise`. -/
def raise (e : ε) : Program ρ σ ε α := lift (.error e)

/-- `try: p` / `except …: h`. -/
def tryCatch (p : Program ρ σ ε α) (h : ε → Program ρ σ ε α) : Program ρ σ ε α := fun r s ↦
  match p r s with
  | (.ok a, s') => (.ok a, s')
  | (.error e, s') => h e r s'

/-- `try: p` / `finally: q`.  What `q` raises replaces what `p` returned or raised. -/
def tryFinally (p : Program ρ σ ε α) (q : Program ρ σ ε Unit) : Program ρ σ ε α := fun r s ↦
  match p r s with
  | (x, s') =>
    match q r s' with
    | (.ok (), s'') => (x, s'')
    | (.error e, s'') => (.error e, s'')

variable {p : Program ρ σ ε α} {r : ρ} {s s' s'' : σ} {a : α} {e : ε}

@[simp] theorem run_pure : (pure a : Program ρ σ ε α) r s = (.ok a, s) := rfl

@[simp] theorem run_lift {x : Except ε α} : (lift x : Program ρ σ ε α) r s = (x, s) := rfl

@[simp] theorem run_raise : (raise e : Program ρ σ ε α) r s = (.error e, s) := rfl

theorem run_bind_ok {f : α → Program ρ σ ε β} (h : p r s = (.ok a, s')) :
    (p >>= f) r s = f a r s' := by
  change seq p f r s = _
  rw [seq, h]

theorem run_bind_error {f : α → Program ρ σ ε β} (h : p r s = (.error e, s')) :
    (p >>= f) r s = (.error e, s') := by
  change seq p f r s = _
  rw [seq, h]

theorem run_tryCatch_ok {h : ε → Program ρ σ ε α} (hp : p r s = (.ok a, s')) :
    tryCatch p h r s = (.ok a, s') := by
  rw [tryCatch, hp]

theorem run_tryCatch_error {h : ε → Program ρ σ ε α} (hp : p r s = (.error e, s')) :
    tryCatch p h r s = h e r s' := by
  rw [tryCatch, hp]

/-- A clause behind `finally` that does not raise only changes the state. -/
theorem run_tryFinally {q : Program ρ σ ε Unit} {x : Except ε α} (hp : p r s = (x, s'))
    (hq : q r s' = (.ok (), s'')) : tryFinally p q r s = (x, s'') := by
  rw [tryFinally, hp]
  simp only [hq]

end Program

end Lib
