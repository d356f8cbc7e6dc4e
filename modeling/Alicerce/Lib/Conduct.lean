import Alicerce.Lib.Interaction

/-!
# What a program does after what

A rule says of an event, given the events before it, whether it is in order: a call may be made only
after certain answers.

* `Rule` is the type of these, and `Rule.behind log` what is left of a rule once a log has happened.
* `Interaction.Obeys`, `Action.Obeys` and `Method.Obeys` say that every event of a program is in
  order, in every behaviour of it, whether it ends or not.
* Each construct has a rule (`Obeys.bind`, `Obeys.tryCatch`, `Obeys.tryFinally`, `Obeys.ite`): a
  program obeys when its parts do, each behind whatever the parts before it have left in the log.
* `Calls.obeys` and `Calls.obeys_all` are for programs all of whose calls are of one kind, and
  `Obeys.steps` takes an invariant from step to step along a run that obeys.
-/

set_option autoImplicit false

namespace Lib

variable {Call : Type} {Answer : Call → Type} {α β : Type}

/-- What is in order, given what happened before. -/
abbrev Rule {Call : Type} (Answer : Call → Type) := List (Event Answer) → Event Answer → Prop

/-- The rule for what follows a log. -/
def Rule.behind (rule : Rule Answer) (log : List (Event Answer)) : Rule Answer :=
  fun before event ↦ rule (log ++ before) event

@[simp] theorem Rule.behind_nil (rule : Rule Answer) : rule.behind [] = rule := rfl

theorem Rule.behind_append (rule : Rule Answer) (log log' : List (Event Answer)) :
    rule.behind (log ++ log') = (rule.behind log).behind log' := by
  funext before event
  rw [behind, behind, behind, List.append_assoc]

namespace Interaction

variable {t u : Interaction Call Answer α} {f : α → Interaction Call Answer β} {rule : Rule Answer}
  {log before after : List (Event Answer)} {event : Event Answer}

/-- Every event is in order. -/
def Obeys (rule : Rule Answer) (t : Interaction Call Answer α) : Prop :=
  ∀ before event after u, t.Leads (before ++ event :: after) u → rule before event

theorem obeys_ret (a : α) : (ret a : Interaction Call Answer α).Obeys rule :=
  fun _ _ _ _ h ↦ absurd (leads_ret.mp h).1 (by simp)

theorem obeys_call {c : Call} {k : Answer c → Interaction Call Answer α}
    (hc : ∀ answer, rule [] ⟨c, answer⟩)
    (hk : ∀ answer, (k answer).Obeys (rule.behind [⟨c, answer⟩])) : (call c k).Obeys rule := by
  intro before event after u h
  rcases leads_call.mp h with ⟨hnil, -⟩ | ⟨answer, log, hlog, htail⟩
  · exact absurd hnil (by simp)
  · cases before with
    | nil =>
      obtain ⟨rfl, rfl⟩ := List.cons.inj hlog
      exact hc answer
    | cons e before =>
      obtain ⟨rfl, rfl⟩ := List.cons.inj hlog
      exact hk answer before event after u htail

/-- The second part of a sequence obeys what is left of the rule behind the first one. -/
theorem Obeys.andThen (ht : t.Obeys rule)
    (hf : ∀ log a, t.Returns log a → (f a).Obeys (rule.behind log)) : (t.andThen f).Obeys rule := by
  intro before event after u h
  rcases leads_andThen.mp h with ⟨t', ht', -⟩ | ⟨l, l', a, hlog, hret, hnext⟩
  · exact ht before event after t' ht'
  rcases List.append_eq_append_iff.mp hlog with ⟨m, rfl, hm⟩ | ⟨m, rfl, rfl⟩
  · cases m with
    | nil =>
      rw [List.append_nil] at hret
      have hfirst := hf _ a hret [] event after u (hm ▸ hnext)
      rwa [Rule.behind, List.append_nil] at hfirst
    | cons e m =>
      obtain ⟨rfl, rfl⟩ := List.cons.inj hm
      exact ht before event m _ hret
  · exact hf l a hret m event after u hnext

theorem Obeys.mono {rule' : Rule Answer} (ht : t.Obeys rule)
    (hrule : ∀ before event, rule before event → rule' before event) : t.Obeys rule' :=
  fun before event after u h ↦ hrule _ _ (ht before event after u h)

/-- What is left of a program obeys the rule behind what it has done. -/
theorem Obeys.of_leads (ht : t.Obeys rule) (h : t.Leads log u) : u.Obeys (rule.behind log) := by
  intro before event after v hv
  refine ht (log ++ before) event after v ?_
  rw [List.append_assoc]
  exact leads_append.mpr ⟨u, h, hv⟩

/-- What is in order whenever it happens. -/
theorem Calls.obeys {S : Call → Prop} (ht : t.Calls S)
    (hrule : ∀ before event, S event.1 → rule before event) : t.Obeys rule :=
  fun before event _ _ h ↦ hrule before event (ht.leads h event (by simp))

/-- What is in order after others of its kind. -/
theorem Calls.obeys_all {S : Call → Prop} (ht : t.Calls S)
    (hrule : ∀ before event, (∀ e ∈ before, S e.1) → S event.1 → rule before event) :
    t.Obeys rule := by
  intro before event after u h
  have hall := ht.leads h
  exact hrule before event (fun e he ↦ hall e (List.mem_append_left _ he)) (hall event (by simp))

/-- A run is made of steps that are in order. -/
theorem Obeys.steps {W : Type} {Env : W → Event Answer → W → Prop} {w w' : W} (ht : t.Obeys rule)
    (h : t.Leads log u) (hsteps : Steps Env w log w') {J : List (Event Answer) → W → Prop}
    (hw : J [] w) (hstep : ∀ {before event m m'}, J before m → rule before event →
      Env m event m' → J (before ++ [event]) m') : J log w' := by
  suffices hall : ∀ before after, log = before ++ after → ∀ m, Steps Env w before m →
    J before m from hall log [] (List.append_nil log).symm w' hsteps
  intro before
  induction before using List.reverseRecOn with
  | nil => exact fun _ _ m hm ↦ Steps.nil_iff.mp hm ▸ hw
  | append_singleton before event ih =>
    intro after hlog m hm
    obtain ⟨m', hbefore, hlast⟩ := Steps.append_iff.mp hm
    obtain ⟨m'', hevent, hm''⟩ := Steps.cons_iff.mp hlast
    obtain rfl := Steps.nil_iff.mp hm''
    rw [List.append_assoc] at hlog
    exact hstep (ih _ hlog m' hbefore) (ht before event after u (hlog ▸ h)) hevent

end Interaction

namespace Action

variable {ε : Type} {p : Action Call Answer ε α} {f : α → Action Call Answer ε β}
  {g : Except ε α → Action Call Answer ε β} {h : ε → Action Call Answer ε α}
  {q : Action Call Answer ε Unit} {rule : Rule Answer}

/-- Every event is in order. -/
def Obeys (rule : Rule Answer) (p : Action Call Answer ε α) : Prop := Interaction.Obeys rule p

theorem obeys_lift (x : Except ε α) : (lift x : Action Call Answer ε α).Obeys rule :=
  Interaction.obeys_ret x

theorem obeys_pure (a : α) : (pure a : Action Call Answer ε α).Obeys rule := obeys_lift _

theorem obeys_raise (e : ε) : (raise e : Action Call Answer ε α).Obeys rule := obeys_lift _

theorem obeys_ask {c : Call} {r : Answer c → Except ε α} (hc : ∀ answer, rule [] ⟨c, answer⟩) :
    (ask c r).Obeys rule :=
  Interaction.obeys_call hc fun _ ↦ Interaction.obeys_ret _

theorem Obeys.andThen (hp : p.Obeys rule)
    (hg : ∀ log x, p.Returns log x → (g x).Obeys (rule.behind log)) : (p.andThen g).Obeys rule :=
  Interaction.Obeys.andThen hp hg

theorem Obeys.bind (hp : p.Obeys rule)
    (hf : ∀ log a, p.Returns log (.ok a) → (f a).Obeys (rule.behind log)) : (p >>= f).Obeys rule :=
  hp.andThen fun log x hret ↦ by
    cases x with
    | ok a => exact hf log a hret
    | error e => exact obeys_raise e

theorem Obeys.tryCatch (hp : p.Obeys rule)
    (hh : ∀ log e, p.Returns log (.error e) → (h e).Obeys (rule.behind log)) :
    (tryCatch p h).Obeys rule :=
  hp.andThen fun log x hret ↦ by
    cases x with
    | ok a => exact obeys_lift _
    | error e => exact hh log e hret

theorem Obeys.tryFinally (hp : p.Obeys rule)
    (hq : ∀ log x, p.Returns log x → q.Obeys (rule.behind log)) : (tryFinally p q).Obeys rule :=
  hp.andThen fun log x hret ↦ (hq log x hret).andThen fun _ y _ ↦ by
    cases y with
    | ok u => exact obeys_lift _
    | error e => exact obeys_raise e

theorem Obeys.ite {P : Prop} [Decidable P] {p' : Action Call Answer ε α}
    (hp : P → p.Obeys rule) (hp' : ¬P → p'.Obeys rule) : (if P then p else p').Obeys rule := by
  split
  · rename_i hP
    exact hp hP
  · rename_i hP
    exact hp' hP

theorem Obeys.mono {rule' : Rule Answer} (hp : p.Obeys rule)
    (hrule : ∀ before event, rule before event → rule' before event) : p.Obeys rule' :=
  Interaction.Obeys.mono hp hrule

/-- What is in order whenever it happens. -/
theorem Calls.obeys {S : Call → Prop} (hp : p.Calls S)
    (hrule : ∀ before event, S event.1 → rule before event) : p.Obeys rule :=
  Interaction.Calls.obeys hp hrule

/-- What is in order after others of its kind. -/
theorem Calls.obeys_all {S : Call → Prop} (hp : p.Calls S)
    (hrule : ∀ before event, (∀ e ∈ before, S e.1) → S event.1 → rule before event) :
    p.Obeys rule := Interaction.Calls.obeys_all hp hrule

end Action

namespace Method

variable {ε σ : Type} {m : Method Call Answer ε σ α} {f : α → Method Call Answer ε σ β} {s : σ}
  {rule : Rule Answer}

/-- Started in `s`, a program does everything in order. -/
def Obeys (rule : Rule Answer) (m : Method Call Answer ε σ α) (s : σ) : Prop :=
  Interaction.Obeys rule (m s)

theorem obeys_pure (a : α) : (pure a : Method Call Answer ε σ α).Obeys rule s :=
  Interaction.obeys_ret _

theorem obeys_raise (e : ε) : (raise e : Method Call Answer ε σ α).Obeys rule s :=
  Interaction.obeys_ret _

theorem obeys_get : (get : Method Call Answer ε σ σ).Obeys rule s := Interaction.obeys_ret _

theorem obeys_modify (g : σ → σ) : (modify g : Method Call Answer ε σ Unit).Obeys rule s :=
  Interaction.obeys_ret _

theorem obeys_perform {p : Action Call Answer ε α} (hp : p.Obeys rule) :
    (perform p : Method Call Answer ε σ α).Obeys rule s :=
  Interaction.Obeys.andThen hp fun _ _ _ ↦ Interaction.obeys_ret _

theorem Obeys.bind (hm : m.Obeys rule s)
    (hf : ∀ log a s', m.Returns s log (.ok a) s' → (f a).Obeys (rule.behind log) s') :
    (m >>= f).Obeys rule s :=
  Interaction.Obeys.andThen hm fun log x hret ↦ by
    obtain ⟨x, s'⟩ := x
    cases x with
    | ok a => exact hf log a s' hret
    | error e => exact Interaction.obeys_ret _

/-- A program that keeps the state alone, and then another one. -/
theorem obeys_perform_bind {p : Action Call Answer ε α} (hp : p.Obeys rule)
    (hf : ∀ log a, p.Returns log (.ok a) → (f a).Obeys (rule.behind log) s) :
    (perform p >>= f).Obeys rule s :=
  (obeys_perform hp).bind fun log a s' hret ↦ by
    obtain ⟨hp', rfl⟩ := returns_perform.mp hret
    exact hf log a hp'

theorem Obeys.ite {P : Prop} [Decidable P] {m' : Method Call Answer ε σ α}
    (hm : P → m.Obeys rule s) (hm' : ¬P → m'.Obeys rule s) :
    (if P then m else m').Obeys rule s := by
  split
  · rename_i hP
    exact hm hP
  · rename_i hP
    exact hm' hP

theorem Obeys.tryCatch {h : ε → Method Call Answer ε σ α} (hm : m.Obeys rule s)
    (hh : ∀ log e s', m.Returns s log (.error e) s' → (h e).Obeys (rule.behind log) s') :
    (tryCatch m h).Obeys rule s :=
  Interaction.Obeys.andThen hm fun log x hret ↦ by
    obtain ⟨x, s'⟩ := x
    cases x with
    | ok a => exact Interaction.obeys_ret _
    | error e => exact hh log e s' hret

end Method

end Lib
