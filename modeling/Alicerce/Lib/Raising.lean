import Alicerce.Lib.Interaction

/-!
# What a program raises

What a program raises, whatever the answers are.

* `p.Raises P`: every exception of `p` satisfies `P`.  A handler is then only asked for what the
  body before it can raise.
* `p.Accounts R` says it with the log at hand: `R` relates what was raised to what had happened by
  then.
* `Lasting R`: what a log accounts for, a longer one does.  The rules for `Accounts` ask for it.
* Where a part of the log comes before the program, as with what a call was answered, it is carried
  along (`accounts_ask_bind`).
-/

set_option autoImplicit false

namespace Lib

variable {Call : Type} {Answer : Call → Type} {ε α β σ : Type} {P Q : ε → Prop}

namespace Action

variable {p : Action Call Answer ε α} {f : α → Action Call Answer ε β}
  {h : ε → Action Call Answer ε α} {q : Action Call Answer ε Unit}

/-- Every exception satisfies `P`. -/
def Raises (P : ε → Prop) (p : Action Call Answer ε α) : Prop :=
  ∀ log e, p.Returns log (.error e) → P e

/-- What is raised is raised in every environment. -/
theorem Raises.ensures {W : Type} {Env : W → Event Answer → W → Prop} {w : W} (hp : p.Raises P) :
    p.Ensures Env w fun x _ ↦ ∀ e, x = .error e → P e :=
  ensures_iff.mpr fun log _ _ hret _ e he ↦ hp log e (he ▸ hret)

theorem raises_lift {x : Except ε α} (hx : ∀ e, x = .error e → P e) :
    (lift x : Action Call Answer ε α).Raises P :=
  fun _ e hret ↦ hx e (returns_lift.mp hret).2.symm

theorem raises_pure (a : α) : (pure a : Action Call Answer ε α).Raises P :=
  raises_lift fun _ he ↦ absurd he (by simp)

theorem raises_raise {e : ε} (he : P e) : (raise e : Action Call Answer ε α).Raises P :=
  raises_lift fun _ heq ↦ Except.error.inj heq ▸ he

theorem raises_ask {c : Call} {r : Answer c → Except ε α}
    (hr : ∀ answer e, r answer = .error e → P e) : (ask c r).Raises P := by
  intro log e hret
  obtain ⟨answer, -, hanswer⟩ := returns_ask.mp hret
  exact hr answer e hanswer.symm

theorem Raises.mono (hp : p.Raises P) (hPQ : ∀ e, P e → Q e) : p.Raises Q :=
  fun log e hret ↦ hPQ e (hp log e hret)

theorem Raises.bind (hp : p.Raises P) (hf : ∀ a, (f a).Raises P) : (p >>= f).Raises P := by
  intro log e hret
  rcases returns_bind.mp hret with ⟨l, l', a, -, -, hnext⟩ | ⟨e', hfail, heq⟩
  · exact hf a l' e hnext
  · rw [Except.error.inj heq]
    exact hp log e' hfail

/-- What leaves a handler was raised in it. -/
theorem Raises.tryCatch (hp : p.Raises P) (hh : ∀ e, P e → (h e).Raises Q) :
    (tryCatch p h).Raises Q := by
  intro log e hret
  rcases returns_tryCatch.mp hret with ⟨a, -, heq⟩ | ⟨l, l', e', -, hfail, hhandler⟩
  · exact absurd heq (by simp)
  · exact hh e' (hp l e' hfail) l' e hhandler

theorem Raises.tryFinally (hp : p.Raises P) (hq : q.Raises P) : (tryFinally p q).Raises P := by
  intro log e hret
  obtain ⟨l, l', y, -, hbody, ⟨-, rfl⟩ | ⟨e', hfinal, heq⟩⟩ := returns_tryFinally.mp hret
  · exact hp l e hbody
  · exact Except.error.inj heq ▸ hq l' e' hfinal

theorem Raises.ite {c : Prop} [Decidable c] {p' : Action Call Answer ε α} (hp : c → p.Raises P)
    (hp' : ¬c → p'.Raises P) : (if c then p else p').Raises P := by
  by_cases hc : c
  · rw [if_pos hc]
    exact hp hc
  · rw [if_neg hc]
    exact hp' hc

/-! ### What a program raises in an environment -/

section OnRaise

variable {W : Type} {Env Env' : W → Event Answer → W → Prop} {w : W} {R : α → W → Prop}

/-- What was raised satisfies `P`; nothing is said of what was returned. -/
def OnRaise (P : ε → Prop) : Except ε α → W → Prop
  | .ok _, _ => True
  | .error e, _ => P e

theorem OnRaise.mono {x : Except ε α} (hx : OnRaise P x w) (hP : ∀ e, P e → Q e) :
    OnRaise Q x w := by
  cases x with
  | ok a => trivial
  | error e => exact hP e hx

/-- What is raised by a sequence is raised by its first part, or by the second one behind what the
first one returns. -/
theorem Ensures.bind_onRaise (hP : p.Ensures Env w (OnRaise P)) (hR : p.Ensures Env w (OnReturn R))
    (hf : ∀ a w', R a w' → (f a).Ensures Env w' (OnRaise P)) :
      (p >>= f).Ensures Env w (OnRaise P) := by
  rw [ensures_bind]
  refine (hP.and hR).mono fun x w' hx ↦ ?_
  cases x with
  | ok a => exact hf a w' hx.2
  | error e => exact hx.1

/-- What is ensured of every environment that keeps to a law is ensured of one that keeps to
more. -/
theorem Ensures.of_env {Q : Except ε α → W → Prop} (hp : p.Ensures Env w Q)
    (hEnv : ∀ {v e v'}, Env' v e v' → Env v e v') : p.Ensures Env' w Q :=
  ensures_iff.mpr fun log x w' hret hsteps ↦ ensures_iff.mp hp log x w' hret (hsteps.mono hEnv)

end OnRaise

end Action

namespace Method

variable {m : Method Call Answer ε σ α} {f : α → Method Call Answer ε σ β}

/-- Every exception satisfies `P`, whatever the state. -/
def Raises (P : ε → Prop) (m : Method Call Answer ε σ α) : Prop :=
  ∀ s log e s', m.Returns s log (.error e) s' → P e

theorem raises_perform {p : Action Call Answer ε α} (hp : p.Raises P) :
    (perform p : Method Call Answer ε σ α).Raises P :=
  fun _ log e _ hret ↦ hp log e (returns_perform.mp hret).1

theorem raises_modify (g : σ → σ) : (modify g : Method Call Answer ε σ Unit).Raises P :=
  fun _ _ _ _ hret ↦ absurd (returns_modify.mp hret).2.1 (by simp)

theorem raises_raise {e : ε} (he : P e) : (raise e : Method Call Answer ε σ α).Raises P :=
  fun _ _ _ _ hret ↦ Except.error.inj (returns_raise.mp hret).2.1 ▸ he

theorem Raises.bind (hm : m.Raises P) (hf : ∀ a, (f a).Raises P) : (m >>= f).Raises P := by
  intro s log e s' hret
  rcases returns_bind.mp hret with ⟨l, l', a, t, -, -, hnext⟩ | ⟨e', hfail, heq⟩
  · exact hf a t l' e s' hnext
  · rw [Except.error.inj heq]
    exact hm s log e' s' hfail

theorem Raises.ite {c : Prop} [Decidable c] {m' : Method Call Answer ε σ α} (hm : c → m.Raises P)
    (hm' : ¬c → m'.Raises P) : (if c then m else m').Raises P := by
  by_cases hc : c
  · rw [if_pos hc]
    exact hm hc
  · rw [if_neg hc]
    exact hm' hc

end Method

/-! ## What a log accounts for -/

/-- What a log accounts for, a longer one does. -/
class Lasting (R : List (Event Answer) → ε → Prop) : Prop where
  mono : ∀ {log log' e}, log ⊆ log' → R log e → R log' e

/-- What lasts, lasts when something has happened before. -/
instance {R : List (Event Answer) → ε → Prop} [Lasting R] {event : Event Answer} :
    Lasting fun log e ↦ R (event :: log) e :=
  ⟨fun hsub ↦ Lasting.mono (List.cons_subset_cons _ hsub)⟩

instance {R R' : List (Event Answer) → ε → Prop} [Lasting R] [Lasting R'] :
    Lasting fun log e ↦ R log e ∨ R' log e :=
  ⟨fun hsub ↦ .imp (Lasting.mono hsub) (Lasting.mono hsub)⟩

/-- What is said of an exception alone lasts. -/
instance : Lasting fun (_ : List (Event Answer)) e ↦ P e := ⟨fun _ ↦ id⟩

namespace Action

variable {p : Action Call Answer ε α} {f : α → Action Call Answer ε β}
  {h : ε → Action Call Answer ε α} {q : Action Call Answer ε Unit}
  {R R' : List (Event Answer) → ε → Prop}

/-- Every exception is accounted for by what has happened. -/
def Accounts (R : List (Event Answer) → ε → Prop) (p : Action Call Answer ε α) : Prop :=
  ∀ log e, p.Returns log (.error e) → R log e

theorem Raises.accounts (hp : p.Raises P) (hR : ∀ log e, P e → R log e) : p.Accounts R :=
  fun log e hret ↦ hR log e (hp log e hret)

theorem accounts_lift {x : Except ε α} (hx : ∀ e, x = .error e → R [] e) :
    (lift x : Action Call Answer ε α).Accounts R := by
  intro log e hret
  obtain ⟨rfl, heq⟩ := returns_lift.mp hret
  exact hx e heq.symm

theorem accounts_pure (a : α) : (pure a : Action Call Answer ε α).Accounts R :=
  accounts_lift fun _ he ↦ absurd he (by simp)

theorem accounts_raise {e : ε} (he : R [] e) : (raise e : Action Call Answer ε α).Accounts R :=
  accounts_lift fun _ heq ↦ Except.error.inj heq ▸ he

theorem accounts_running : (running : Action Call Answer ε α).Accounts R :=
  fun _ _ hret ↦ absurd hret not_returns_running

theorem accounts_ask {c : Call} {r : Answer c → Except ε α}
    (hr : ∀ answer e, r answer = .error e → R [⟨c, answer⟩] e) : (ask c r).Accounts R := by
  intro log e hret
  obtain ⟨answer, rfl, hanswer⟩ := returns_ask.mp hret
  exact hr answer e hanswer.symm

theorem Accounts.mono (hp : p.Accounts R) (hR : ∀ log e, R log e → R' log e) : p.Accounts R' :=
  fun log e hret ↦ hR log e (hp log e hret)

/-- What follows may count on how the first part came to return. -/
theorem Accounts.bind_of_returns (hp : p.Accounts R)
    (hf : ∀ l a, p.Returns l (.ok a) → (f a).Accounts fun l' e ↦ R (l ++ l') e) :
    (p >>= f).Accounts R := by
  intro log e hret
  rcases returns_bind.mp hret with ⟨l, l', a, rfl, hfirst, hnext⟩ | ⟨e', hfail, heq⟩
  · exact hf l a hfirst l' e hnext
  · rw [Except.error.inj heq]
    exact hp log e' hfail

theorem Accounts.bind [Lasting R] (hp : p.Accounts R) (hf : ∀ a, (f a).Accounts R) :
    (p >>= f).Accounts R :=
  hp.bind_of_returns fun _ a _ ↦ (hf a).mono fun _ _ ↦ Lasting.mono (List.subset_append_right ..)

/-- A call, and what follows its answer. -/
theorem accounts_ask_bind {c : Call} {r : Answer c → Except ε α}
    (hr : ∀ answer e, r answer = .error e → R [⟨c, answer⟩] e)
    (hf : ∀ answer a, r answer = .ok a → (f a).Accounts fun log e ↦ R (⟨c, answer⟩ :: log) e) :
    (ask c r >>= f).Accounts R := by
  refine (accounts_ask hr).bind_of_returns fun l a hask ↦ ?_
  obtain ⟨answer, rfl, hanswer⟩ := returns_ask.mp hask
  exact hf answer a hanswer.symm

theorem accounts_lift_bind {x : Except ε α} (hx : ∀ e, x = .error e → R [] e)
    (hf : ∀ a, x = .ok a → (f a).Accounts R) : (lift x >>= f).Accounts R := by
  refine (accounts_lift hx).bind_of_returns fun l a hlift ↦ ?_
  obtain ⟨rfl, ha⟩ := returns_lift.mp hlift
  exact hf a ha.symm

/-- A handler is asked for what the body before it accounts for. -/
theorem Accounts.tryCatch (hp : p.Accounts R)
    (hh : ∀ l e, R l e → (h e).Accounts fun l' e' ↦ R' (l ++ l') e') :
      (tryCatch p h).Accounts R' := by
  intro log e hret
  rcases returns_tryCatch.mp hret with ⟨a, -, heq⟩ | ⟨l, l', e', rfl, hfail, hhandler⟩
  · exact absurd heq (by simp)
  · exact hh l e' (hp l e' hfail) l' e hhandler

theorem Accounts.tryFinally [Lasting R] (hp : p.Accounts R) (hq : q.Accounts R) :
    (tryFinally p q).Accounts R := by
  intro log e hret
  obtain ⟨l, l', y, rfl, hbody, ⟨-, rfl⟩ | ⟨e', hfinal, heq⟩⟩ := returns_tryFinally.mp hret
  · exact Lasting.mono (List.subset_append_left ..) (hp l e hbody)
  · rw [Except.error.inj heq]
    exact Lasting.mono (List.subset_append_right ..) (hq l' e' hfinal)

theorem Accounts.ite {c : Prop} [Decidable c] {p' : Action Call Answer ε α} (hp : c → p.Accounts R)
    (hp' : ¬c → p'.Accounts R) : (if c then p else p').Accounts R := by
  by_cases hc : c
  · rw [if_pos hc]
    exact hp hc
  · rw [if_neg hc]
    exact hp' hc

end Action

end Lib
