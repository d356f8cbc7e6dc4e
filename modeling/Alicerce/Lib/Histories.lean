import Alicerce.Lib.Interaction

/-!
# What a program ensures of its log

An environment whose state is the log so far keeps to a law of its own, and every run of a program
is a run there.  What is ensured there is what holds of every log with what it ends in, and the
rules for `Ensures` are rules about logs.

* `Appends` is the law, and `Action.ensures_appends` what it comes to.
* `Happened P log`: something that is a `P` has happened, which no later event undoes.
* `Owes`: when there is an exception, or one of a kind, something has happened.
* `RaisesOn`: there is an exception just when something has happened, with the rules for what makes
  calls, for sequences and for what depends on a condition.
-/

set_option autoImplicit false

namespace Lib

variable {Call : Type} {Answer : Call → Type} {ε α : Type}

/-- The log grows by what happens. -/
def Appends (log : List (Event Answer)) (event : Event Answer) (log' : List (Event Answer)) :
    Prop :=
  log' = log ++ [event]

theorem steps_appends {log events log' : List (Event Answer)} :
    Steps Appends log events log' ↔ log' = log ++ events := by
  induction events generalizing log with
  | nil => simp
  | cons event events ih =>
    rw [Steps.cons_iff]
    constructor
    · rintro ⟨_, rfl, htail⟩
      rw [ih.mp htail, List.append_assoc, List.singleton_append]
    · rintro rfl
      exact ⟨_, rfl, ih.mpr (by simp)⟩

/-- Something has happened. -/
def Happened (B : Event Answer → Prop) (log : List (Event Answer)) : Prop := ∃ event ∈ log, B event

section

variable {B B' : Event Answer → Prop} {log l : List (Event Answer)} {event : Event Answer}

theorem happened_append : Happened B (log ++ l) ↔ Happened B log ∨ Happened B l := by
  simp only [Happened, List.mem_append, or_and_right, exists_or]

@[simp] theorem happened_cons : Happened B (event :: l) ↔ B event ∨ Happened B l := by
  simp only [Happened, List.mem_cons, or_and_right, exists_or, exists_eq_left]

@[simp] theorem not_happened_nil : ¬Happened B ([] : List (Event Answer)) := by
  simp [Happened]

theorem Happened.concat (h : B event) : Happened B (log ++ [event]) := ⟨event, by simp, h⟩

theorem Happened.of_subset (h : Happened B log) (hsub : log ⊆ l) : Happened B l :=
  h.imp fun _ ↦ And.imp_left (hsub ·)

theorem Happened.mono (h : Happened B log) (hB : ∀ e, B e → B' e) : Happened B' log :=
  h.imp fun e ↦ And.imp_right (hB e)

/-- What no call has to do with has not happened. -/
theorem not_happened_of_calls {S : Call → Prop} (hl : ∀ e ∈ l, S e.1)
    (hS : ∀ c, S c → ∀ answer, ¬B ⟨c, answer⟩) : ¬Happened B l :=
  fun ⟨e, hmem, he⟩ ↦ hS e.1 (hl e hmem) e.2 he

end

namespace Action

variable {p : Action Call Answer ε α} {before : List (Event Answer)}
  {Q : Except ε α → List (Event Answer) → Prop} {S : Call → Prop} {P : ε → Prop}

/-- **What is ensured of logs** is what holds of every log with what it ends in. -/
theorem ensures_appends : p.Ensures Appends before Q ↔
    ∀ log x, p.Returns log x → Q x (before ++ log) := by
  rw [ensures_iff]
  constructor
  · exact fun h log x hret ↦ h log x _ hret (steps_appends.mpr rfl)
  · rintro h log x log' hret hsteps
    obtain rfl := steps_appends.mp hsteps
    exact h log x hret

/-- A program adds its own calls. -/
theorem Calls.appends (hp : p.Calls S) :
    p.Ensures Appends before fun _ log ↦ ∃ l, log = before ++ l ∧ ∀ e ∈ l, S e.1 :=
  ensures_appends.mpr fun log _ hret ↦ ⟨log, rfl, hp.leads hret⟩

/-- What has happened has happened. -/
theorem Happened.ensures {B : Event Answer → Prop} (h : Happened B before) :
    p.Ensures Appends before fun _ log ↦ Happened B log :=
  ensures_appends.mpr fun _ _ _ ↦ happened_append.mpr (.inl h)

/-! ## What an exception is owed to -/

/-- Whenever there is an exception, something has happened. -/
def Owes (B : Event Answer → Prop) (p : Action Call Answer ε α) : Prop :=
  ∀ log e, p.Returns log (.error e) → Happened B log

variable {β : Type} {B : Event Answer → Prop} {f : α → Action Call Answer ε β}
  {q : Action Call Answer ε Unit}

theorem owes_pure (a : α) : (pure a : Action Call Answer ε α).Owes B :=
  fun _ _ hret ↦ absurd (returns_pure.mp hret).2 (by simp)

theorem owes_running : (running : Action Call Answer ε α).Owes B :=
  fun _ _ hret ↦ absurd hret not_returns_running

theorem owes_ask {c : Call} {r : Answer c → Except ε α}
    (hr : ∀ answer e, r answer = .error e → B ⟨c, answer⟩) : (ask c r).Owes B := by
  intro log e hret
  obtain ⟨answer, rfl, hanswer⟩ := returns_ask.mp hret
  exact ⟨_, List.mem_singleton_self _, hr answer e hanswer.symm⟩

theorem Owes.bind (hp : p.Owes B) (hf : ∀ a, (f a).Owes B) : (p >>= f).Owes B := by
  intro log e hret
  rcases returns_bind.mp hret with ⟨l, l', a, rfl, -, hnext⟩ | ⟨e', hfail, -⟩
  · exact happened_append.mpr (.inr (hf a l' e hnext))
  · exact hp log e' hfail

/-- After a part that does not return without its having happened, nothing else counts. -/
theorem Owes.bind_of_ok (hp : p.Owes B) (hok : ∀ log a, p.Returns log (.ok a) → Happened B log) :
    (p >>= f).Owes B := by
  intro log e hret
  rcases returns_bind.mp hret with ⟨l, l', a, rfl, hfirst, -⟩ | ⟨e', hfail, -⟩
  · exact happened_append.mpr (.inl (hok l a hfirst))
  · exact hp log e' hfail

theorem Owes.tryFinally (hp : p.Owes B) (hq : q.Owes B) : (tryFinally p q).Owes B := by
  intro log e hret
  obtain ⟨l, l', y, rfl, hbody, ⟨-, rfl⟩ | ⟨e', hfinal, -⟩⟩ := returns_tryFinally.mp hret
  · exact happened_append.mpr (.inl (hp l e hbody))
  · exact happened_append.mpr (.inr (hq l' e' hfinal))

theorem Owes.ite {c : Prop} [Decidable c] {p' : Action Call Answer ε α} (hp : c → p.Owes B)
    (hp' : ¬c → p'.Owes B) : (if c then p else p').Owes B := by
  by_cases hc : c
  · rw [if_pos hc]
    exact hp hc
  · rw [if_neg hc]
    exact hp' hc

/-! ## What an exception tells -/

/-- There is an exception just when something has happened. -/
def RaisesOn (B : Event Answer → Prop) (p : Action Call Answer ε α) : Prop :=
  ∀ log x, p.Returns log x → ((∃ e, x = .error e) ↔ Happened B log)

theorem RaisesOn.bind (hp : p.RaisesOn B) (hf : ∀ a, (f a).RaisesOn B) : (p >>= f).RaisesOn B := by
  intro log x hret
  rcases returns_bind.mp hret with ⟨l, l', a, rfl, hfirst, hnext⟩ | ⟨e, hfail, rfl⟩
  · rw [hf a l' x hnext, happened_append, or_iff_right]
    exact fun h ↦ absurd ((hp l _ hfirst).mpr h) (by simp)
  · exact iff_of_true ⟨e, rfl⟩ ((hp log _ hfail).mp ⟨e, rfl⟩)

theorem RaisesOn.ite {c : Prop} [Decidable c] {p' : Action Call Answer ε α} (hp : p.RaisesOn B)
    (hp' : p'.RaisesOn B) : (if c then p else p').RaisesOn B := by
  by_cases hc : c
  · rwa [if_pos hc]
  · rwa [if_neg hc]

/-- Where nothing has happened yet, there is an exception just when something has in the end. -/
theorem RaisesOn.ensures (hp : p.RaisesOn B) (hbefore : ¬Happened B before) :
    p.Ensures Appends before fun x log ↦ (∃ e, x = .error e) ↔ Happened B log :=
  ensures_appends.mpr fun log x hret ↦ by
    rw [happened_append, or_iff_right hbefore]
    exact hp log x hret

end Action

namespace Method

variable {σ β : Type} {B : Event Answer → Prop} {P : ε → Prop} {m : Method Call Answer ε σ α}
  {f : α → Method Call Answer ε σ β}

/-- Whenever there is an exception of a kind, something has happened. -/
def Owes (B : Event Answer → Prop) (P : ε → Prop) (m : Method Call Answer ε σ α) : Prop :=
  ∀ s log e s', m.Returns s log (.error e) s' → P e → Happened B log

theorem owes_perform {p : Action Call Answer ε α} (hp : p.Owes B) :
    (perform p : Method Call Answer ε σ α).Owes B P :=
  fun _ log e _ hret _ ↦ hp log e (returns_perform.mp hret).1

theorem owes_modify (g : σ → σ) : (modify g : Method Call Answer ε σ Unit).Owes B P :=
  fun _ _ _ _ hret ↦ absurd (returns_modify.mp hret).2.1 (by simp)

theorem owes_raise {e : ε} (he : ¬P e) : (raise e : Method Call Answer ε σ α).Owes B P := by
  intro s log e' s' hret hP
  obtain rfl := Except.error.inj (returns_raise.mp hret).2.1
  exact absurd hP he

theorem Owes.bind (hm : m.Owes B P) (hf : ∀ a, (f a).Owes B P) : (m >>= f).Owes B P := by
  intro s log e s' hret hP
  rcases returns_bind.mp hret with ⟨l, l', a, t, rfl, -, hnext⟩ | ⟨e', hfail, heq⟩
  · exact happened_append.mpr (.inr (hf a t l' e s' hnext hP))
  · exact hm s log e' s' hfail (Except.error.inj heq ▸ hP)

theorem Owes.ite {c : Prop} [Decidable c] {m' : Method Call Answer ε σ α} (hm : m.Owes B P)
    (hm' : m'.Owes B P) : (if c then m else m').Owes B P := by
  by_cases hc : c
  · rwa [if_pos hc]
  · rwa [if_neg hc]

end Method

end Lib
