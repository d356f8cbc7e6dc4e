import Alicerce.Lib.Conduct

/-!
# Sessions

A protocol says which events are in order in each state of a session, and what state they lead to.

* `Protocol` is the type of these.
* `t.Follows protocol Q w`: the events of a program are in order from `w` on, whatever is answered,
  and `Q` holds of what it ends in and the state the session is in then.  `Ensures` takes the law of
  an environment for granted; here it is the program that is held to one, so that the state of the
  session exists (`Follows.leads`).
* `Stays`: the program leaves the session as it finds it, as most do; every construct keeps that.
* `Opens`, `Opens.bracket`: a program opens another session, and a bracket closes it in the end,
  whatever happens in between.
-/

set_option autoImplicit false

namespace Lib

variable {Call : Type} {Answer : Call → Type} {W α β : Type}

/-- The events that are in order in each state of a session, and where they lead. -/
abbrev Protocol {Call : Type} (Answer : Call → Type) (W : Type) := W → Event Answer → W → Prop

namespace Interaction

/-- Every event is in order, and the session is in a state that fits what the program ends in. -/
def Follows (protocol : Protocol Answer W) (Q : α → W → Prop) : Interaction Call Answer α → W → Prop
  | ret a, w => Q a w
  | call c k, w => ∀ answer, ∃ w', protocol w ⟨c, answer⟩ w' ∧ (k answer).Follows protocol Q w'
  | running, _ => True

variable {protocol : Protocol Answer W} {Q Q' : α → W → Prop} {t u : Interaction Call Answer α}
  {f : α → Interaction Call Answer β} {w : W} {log : List (Event Answer)} {a : α}

/-- **What has happened is in order**, and what is left of the program follows from where it
leads. -/
theorem Follows.leads (ht : t.Follows protocol Q w) (h : t.Leads log u) :
    ∃ w', Steps protocol w log w' ∧ u.Follows protocol Q w' := by
  induction h generalizing w with
  | nil t => exact ⟨w, .nil w, ht⟩
  | cons tail ih =>
    obtain ⟨w', hstep, hnext⟩ := ht _
    obtain ⟨w'', hsteps, hu⟩ := ih hnext
    exact ⟨w'', .cons hstep hsteps, hu⟩

theorem Follows.returns (ht : t.Follows protocol Q w) (h : t.Returns log a) :
    ∃ w', Steps protocol w log w' ∧ Q a w' := ht.leads h

theorem follows_andThen {Q : β → W → Prop} : (t.andThen f).Follows protocol Q w ↔
    t.Follows protocol (fun a w' ↦ (f a).Follows protocol Q w') w := by
  induction t generalizing w with
  | ret a => exact Iff.rfl
  | call c k ih =>
    exact forall_congr' fun answer ↦ exists_congr fun w' ↦ and_congr_right' (ih answer)
  | running => exact Iff.rfl

theorem Follows.mono (ht : t.Follows protocol Q w) (hQ : ∀ a w', Q a w' → Q' a w') :
    t.Follows protocol Q' w := by
  induction t generalizing w with
  | ret a => exact hQ a w ht
  | call c k ih =>
    intro answer
    obtain ⟨w', hstep, hnext⟩ := ht answer
    exact ⟨w', hstep, ih answer hnext⟩
  | running => trivial

/-- What a program ends in, it ends in after some log. -/
theorem Follows.and_returns (ht : t.Follows protocol Q w) :
    t.Follows protocol (fun a w' ↦ Q a w' ∧ ∃ log, t.Returns log a) w := by
  induction t generalizing w with
  | ret a => exact ⟨ht, [], returns_ret.mpr ⟨rfl, rfl⟩⟩
  | call c k ih =>
    intro answer
    obtain ⟨w', hstep, hnext⟩ := ht answer
    refine ⟨w', hstep, (ih answer hnext).mono ?_⟩
    rintro a w'' ⟨hQ, log, hlog⟩
    exact ⟨hQ, _, returns_call.mpr ⟨answer, log, rfl, hlog⟩⟩
  | running => trivial

/-- Calls that do nothing to a session leave it as it is. -/
theorem Calls.follows {S : Call → Prop} (ht : t.Calls S)
    (hS : ∀ c, S c → ∀ answer, protocol w ⟨c, answer⟩ w) :
    t.Follows protocol (fun _ w' ↦ w' = w) w := by
  induction t with
  | ret a => rfl
  | call c k ih => exact fun answer ↦ ⟨w, hS c ht.1 answer, ih answer (ht.2 answer)⟩
  | running => trivial

end Interaction

/-! ## Programs that leave a session as they find it -/

namespace Action

variable {ε : Type} {protocol : Protocol Answer W} {p : Action Call Answer ε α}
  {f : α → Action Call Answer ε β} {h : ε → Action Call Answer ε α} {q : Action Call Answer ε Unit}
  {w : W}

/-- A program follows a protocol and leaves the session as it found it. -/
def Stays (protocol : Protocol Answer W) (p : Action Call Answer ε α) (w : W) : Prop :=
  Interaction.Follows protocol (fun _ w' ↦ w' = w) p w

theorem stays_lift (x : Except ε α) : (lift x : Action Call Answer ε α).Stays protocol w := rfl

theorem stays_pure (a : α) : (pure a : Action Call Answer ε α).Stays protocol w := rfl

theorem stays_raise (e : ε) : (raise e : Action Call Answer ε α).Stays protocol w := rfl

theorem stays_ask {c : Call} {r : Answer c → Except ε α} (h : ∀ answer, protocol w ⟨c, answer⟩ w) :
    (ask c r).Stays protocol w := fun answer ↦ ⟨w, h answer, rfl⟩

theorem Calls.stays {S : Call → Prop} (hp : p.Calls S)
    (hS : ∀ c, S c → ∀ answer, protocol w ⟨c, answer⟩ w) : p.Stays protocol w :=
  Interaction.Calls.follows hp hS

theorem Stays.andThen {g : Except ε α → Action Call Answer ε β} (hp : p.Stays protocol w)
    (hg : ∀ x, (g x).Stays protocol w) : (p.andThen g).Stays protocol w := by
  refine Interaction.follows_andThen.mpr (Interaction.Follows.mono hp ?_)
  rintro x w' rfl
  exact hg x

theorem Stays.bind (hp : p.Stays protocol w) (hf : ∀ a, (f a).Stays protocol w) :
    (p >>= f).Stays protocol w := by
  refine hp.andThen fun x ↦ ?_
  cases x with
  | ok a => exact hf a
  | error e => exact stays_raise e

/-- The second part of a sequence only has to do with what the first part can return. -/
theorem Stays.bind_of_returns (hp : p.Stays protocol w)
    (hf : ∀ log a, p.Returns log (.ok a) → (f a).Stays protocol w) :
      (p >>= f).Stays protocol w := by
  refine Interaction.follows_andThen.mpr
    (Interaction.Follows.mono (Interaction.Follows.and_returns hp) ?_)
  rintro (e | a) w' ⟨rfl, log, hlog⟩
  · exact stays_raise e
  · exact hf log a hlog

theorem Stays.tryCatch (hp : p.Stays protocol w) (hh : ∀ e, (h e).Stays protocol w) :
    (tryCatch p h).Stays protocol w := by
  refine hp.andThen fun x ↦ ?_
  cases x with
  | ok a => exact stays_lift _
  | error e => exact hh e

theorem Stays.tryFinally (hp : p.Stays protocol w) (hq : q.Stays protocol w) :
    (tryFinally p q).Stays protocol w := by
  refine hp.andThen fun x ↦ hq.andThen fun y ↦ ?_
  cases y with
  | ok u => exact stays_lift x
  | error e => exact stays_raise e

theorem Stays.ite {P : Prop} [Decidable P] {p' : Action Call Answer ε α} (hp : p.Stays protocol w)
    (hp' : p'.Stays protocol w) : (if P then p else p').Stays protocol w := by
  by_cases hP : P
  · rwa [if_pos hP]
  · rwa [if_neg hP]

/-- What is in order in a session is in order by any rule that allows it. -/
theorem Stays.obeys {rule : Rule Answer} (hp : p.Stays protocol w)
    (hrule : ∀ {w w' : W} {event : Event Answer} (before : List (Event Answer)),
      protocol w event w' →
      rule before event) : p.Obeys rule := by
  intro before event after u h
  obtain ⟨w', hsteps, -⟩ := Interaction.Follows.leads hp h
  obtain ⟨_, _, hstep⟩ := hsteps.exists_of_mem (e := event) (by simp)
  exact hrule before hstep

/-- A program opens another session when it returns, and leaves the session as it is when it
raises. -/
def Opens (protocol : Protocol Answer W) (inner : α → W) (p : Action Call Answer ε α) (w : W) :
    Prop :=
  Interaction.Follows protocol (fun x w' ↦ match x with
    | .ok a => w' = inner a
    | .error _ => w' = w) p w

theorem opens_ask {c : Call} {r : Answer c → Except ε α} {inner : α → W}
    (hfail : ∀ answer e, r answer = .error e → protocol w ⟨c, answer⟩ w)
    (hopen : ∀ answer a, r answer = .ok a → protocol w ⟨c, answer⟩ (inner a)) :
    (ask c r).Opens protocol inner w := by
  intro answer
  change ∃ w', _ ∧ Interaction.Follows _ _ (lift (r answer)) w'
  cases hr : r answer with
  | error e => exact ⟨w, hfail answer e hr, rfl⟩
  | ok a => exact ⟨inner a, hopen answer a hr, rfl⟩

/-- **A bracket** opens another session, does something in it, and closes it. -/
theorem Opens.bracket {inner : α → W} {close : α → Action Call Answer ε Unit}
    (hp : p.Opens protocol inner w) (hbody : ∀ a, (f a).Stays protocol (inner a))
    (hclose : ∀ a, Interaction.Follows protocol (fun _ w' ↦ w' = w) (close a) (inner a)) :
    (p >>= fun a ↦ Action.tryFinally (f a) (close a)).Stays protocol w := by
  refine Interaction.follows_andThen.mpr (Interaction.Follows.mono hp ?_)
  rintro (e | a) w' rfl
  · exact stays_raise e
  refine Interaction.follows_andThen.mpr (Interaction.Follows.mono (hbody a) ?_)
  rintro x w' rfl
  refine Interaction.follows_andThen.mpr (Interaction.Follows.mono (hclose a) ?_)
  rintro (e | u) w' rfl
  · exact stays_raise e
  · exact stays_lift x

end Action

namespace Method

variable {ε σ : Type} {protocol : Protocol Answer W} {m : Method Call Answer ε σ α}
  {f : α → Method Call Answer ε σ β} {h : ε → Method Call Answer ε σ α} {w : W} {s s' : σ}
  {log : List (Event Answer)} {x : Except ε α}

/-- Whatever its own state, a program follows a protocol and leaves the session as it found it. -/
def Stays (protocol : Protocol Answer W) (m : Method Call Answer ε σ α) (w : W) : Prop :=
  ∀ s, (m s).Follows protocol (fun _ w' ↦ w' = w) w

theorem Stays.returns (hm : m.Stays protocol w) (h : m.Returns s log x s') :
    Steps protocol w log w := by
  obtain ⟨w', hsteps, rfl⟩ := (hm s).returns h
  exact hsteps

theorem stays_pure (a : α) : (pure a : Method Call Answer ε σ α).Stays protocol w := fun _ ↦ rfl

theorem stays_raise (e : ε) : (raise e : Method Call Answer ε σ α).Stays protocol w := fun _ ↦ rfl

theorem stays_get : (get : Method Call Answer ε σ σ).Stays protocol w := fun _ ↦ rfl

theorem stays_modify (g : σ → σ) : (modify g : Method Call Answer ε σ Unit).Stays protocol w :=
  fun _ ↦ rfl

theorem stays_perform {p : Action Call Answer ε α} (hp : p.Stays protocol w) :
    (perform p : Method Call Answer ε σ α).Stays protocol w := by
  intro s
  refine Interaction.follows_andThen.mpr (Interaction.Follows.mono hp ?_)
  rintro x w' rfl
  rfl

theorem Stays.bind (hm : m.Stays protocol w) (hf : ∀ a, (f a).Stays protocol w) :
    (m >>= f).Stays protocol w := by
  intro s
  refine Interaction.follows_andThen.mpr ((hm s).mono ?_)
  rintro ⟨e | a, s'⟩ w' rfl
  · rfl
  · exact hf a s'

theorem Stays.tryCatch (hm : m.Stays protocol w) (hh : ∀ e, (h e).Stays protocol w) :
    (tryCatch m h).Stays protocol w := by
  intro s
  refine Interaction.follows_andThen.mpr ((hm s).mono ?_)
  rintro ⟨e | a, s'⟩ w' rfl
  · exact hh e s'
  · rfl

theorem Stays.ite {P : Prop} [Decidable P] {m' : Method Call Answer ε σ α} (hm : m.Stays protocol w)
    (hm' : m'.Stays protocol w) : (if P then m else m').Stays protocol w := by
  by_cases hP : P
  · rwa [if_pos hP]
  · rwa [if_neg hP]

end Method

end Lib
