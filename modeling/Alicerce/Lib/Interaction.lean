import Alicerce.Lib.Steps

/-!
# Programs that call their environment

An `Interaction` is a program seen from outside: it ends with a value, or it makes a call and goes
on with the answer, whatever the answer may be, or it is still running when its fuel is spent, which
is how a loop without a bound is written down.

* `t.Leads log u`: after the calls and answers of `log`, the program `t` has become `u`.  The log is
  all there is to a behaviour of the environment, so that a statement about every log is a statement
  about every environment.  `t.Returns log a` is the case of a program that has ended.
* `t.Calls S`: every call the program may ever make satisfies `S`.
* An environment that keeps to a law is a step relation over its own states, labelled by calls and
  answers.  `t.Ensures Env w Q` says that `t`, started in the state `w` of such an environment, ends
  in a value and a state that satisfy `Q`, if it ends (`ensures_iff`), and `t.Ends Env w` that it
  does not run out of fuel.
* `play` runs a program on a host that computes its answers, for examples.

Programs that raise are interactions that end in an `Except` (`Action`), with `tryCatch` and
`tryFinally`, and those that also keep a state of their own are a `Method`.  Every construct has a
rule for each of the readings, and each is an equivalence.
-/

set_option autoImplicit false

namespace Lib

/-- A program that makes calls and ends in an `α`. -/
inductive Interaction (Call : Type) (Answer : Call → Type) (α : Type)
  | ret (a : α)
  | call (c : Call) (k : Answer c → Interaction Call Answer α)
  /-- The fuel is spent. -/
  | running

/-- A call and its answer. -/
abbrev Event {Call : Type} (Answer : Call → Type) := Sigma Answer

namespace Interaction

variable {Call : Type} {Answer : Call → Type} {α β : Type}

/-- Run one program, then another on its value. -/
def andThen (t : Interaction Call Answer α) (f : α → Interaction Call Answer β) :
    Interaction Call Answer β :=
  match t with
  | .ret a => f a
  | .call c k => .call c fun answer ↦ (k answer).andThen f
  | .running => .running

theorem andThen_assoc {γ : Type} {t : Interaction Call Answer α} {f : α → Interaction Call Answer β}
    {g : β → Interaction Call Answer γ} :
    (t.andThen f).andThen g = t.andThen fun a ↦ (f a).andThen g := by
  induction t with
  | ret a => rfl
  | call c k ih => exact congrArg (call c) (funext ih)
  | running => rfl

/-- Change the value a program ends in. -/
def map (g : α → β) (t : Interaction Call Answer α) : Interaction Call Answer β :=
  t.andThen fun a ↦ .ret (g a)

/-! ## Behaviours -/

/-- The program a program has become after a log. -/
inductive Leads : Interaction Call Answer α → List (Event Answer) → Interaction Call Answer α → Prop
  | nil (t : Interaction Call Answer α) : Leads t [] t
  | cons {c : Call} {k : Answer c → Interaction Call Answer α} {answer : Answer c}
      {log : List (Event Answer)} {u : Interaction Call Answer α} (tail : Leads (k answer) log u) :
      Leads (.call c k) (⟨c, answer⟩ :: log) u

/-- A program ends in a value after a log. -/
def Returns (t : Interaction Call Answer α) (log : List (Event Answer)) (a : α) : Prop :=
  t.Leads log (.ret a)

variable {t u v : Interaction Call Answer α} {f : α → Interaction Call Answer β}
  {log log' : List (Event Answer)} {a : α} {b : β} {c : Call}
  {k : Answer c → Interaction Call Answer α}

@[simp] theorem leads_nil : t.Leads [] u ↔ u = t :=
  ⟨fun h ↦ by cases h; rfl, fun h ↦ h ▸ .nil t⟩

theorem leads_ret : (ret a : Interaction Call Answer α).Leads log u ↔ log = [] ∧ u = .ret a := by
  constructor
  · intro h
    cases h
    exact ⟨rfl, rfl⟩
  · rintro ⟨rfl, rfl⟩
    exact .nil _

theorem leads_running :
    (running : Interaction Call Answer α).Leads log u ↔ log = [] ∧ u = .running := by
  constructor
  · intro h
    cases h
    exact ⟨rfl, rfl⟩
  · rintro ⟨rfl, rfl⟩
    exact .nil _

theorem leads_call : (call c k).Leads log u ↔
    (log = [] ∧ u = .call c k) ∨
      ∃ answer log', log = ⟨c, answer⟩ :: log' ∧ (k answer).Leads log' u := by
  constructor
  · intro h
    cases h with
    | nil => exact .inl ⟨rfl, rfl⟩
    | cons tail => exact .inr ⟨_, _, rfl, tail⟩
  · rintro (⟨rfl, rfl⟩ | ⟨answer, log', rfl, h⟩)
    · exact .nil _
    · exact .cons h

/-- A sequence is still in its first part, or the first part has ended. -/
theorem leads_andThen {u : Interaction Call Answer β} : (t.andThen f).Leads log u ↔
    (∃ t', t.Leads log t' ∧ u = t'.andThen f) ∨
      ∃ l l' a, log = l ++ l' ∧ t.Returns l a ∧ (f a).Leads l' u := by
  induction t generalizing log with
  | ret a =>
    simp only [andThen, Returns, leads_ret]
    constructor
    · exact fun h ↦ .inr ⟨[], log, a, rfl, ⟨rfl, rfl⟩, h⟩
    · rintro (⟨t', ⟨rfl, rfl⟩, rfl⟩ | ⟨l, l', a', rfl, ⟨rfl, ha⟩, h⟩)
      · exact .nil _
      · rw [ret.injEq] at ha
        exact ha ▸ h
  | call c k ih =>
    simp only [andThen, Returns, leads_call]
    constructor
    · rintro (⟨rfl, rfl⟩ | ⟨answer, log', rfl, h⟩)
      · exact .inl ⟨_, .inl ⟨rfl, rfl⟩, rfl⟩
      · rcases (ih answer).mp h with ⟨t', ht', rfl⟩ | ⟨l, l', a, rfl, ha, h⟩
        · exact .inl ⟨t', .inr ⟨answer, log', rfl, ht'⟩, rfl⟩
        · exact .inr ⟨_, l', a, (List.cons_append ..).symm, .inr ⟨answer, l, rfl, ha⟩, h⟩
    · rintro (⟨t', ⟨rfl, rfl⟩ | ⟨answer, log', rfl, h⟩, rfl⟩ |
        ⟨l, l', a, rfl, ⟨-, h⟩ | ⟨answer, m, rfl, ha⟩, h'⟩)
      · exact .inl ⟨rfl, rfl⟩
      · exact .inr ⟨answer, log', rfl, (ih answer).mpr (.inl ⟨t', h, rfl⟩)⟩
      · exact absurd h (by simp)
      · exact .inr ⟨answer, m ++ l', List.cons_append ..,
          (ih answer).mpr (.inr ⟨m, l', a, rfl, ha, h'⟩)⟩
  | running =>
    simp only [andThen, Returns, leads_running]
    constructor
    · rintro ⟨rfl, rfl⟩
      exact .inl ⟨_, ⟨rfl, rfl⟩, rfl⟩
    · rintro (⟨t', ⟨rfl, rfl⟩, rfl⟩ | ⟨l, l', a, rfl, ⟨-, h⟩, -⟩)
      · exact ⟨rfl, rfl⟩
      · exact absurd h (by simp)

theorem returns_ret {a' : α} :
    (ret a : Interaction Call Answer α).Returns log a' ↔ log = [] ∧ a' = a := by
  rw [Returns, leads_ret, ret.injEq]

theorem returns_call : (call c k).Returns log a ↔
    ∃ answer log', log = ⟨c, answer⟩ :: log' ∧ (k answer).Returns log' a := by
  rw [Returns, leads_call]
  exact or_iff_right fun h ↦ absurd h.2 (by simp)

@[simp] theorem not_returns_running : ¬(running : Interaction Call Answer α).Returns log a := by
  rw [Returns, leads_running]
  exact fun h ↦ absurd h.2 (by simp)

/-- A sequence ends when both of its parts have ended, one after the other. -/
theorem returns_andThen : (t.andThen f).Returns log b ↔
    ∃ l l' a, log = l ++ l' ∧ t.Returns l a ∧ (f a).Returns l' b := by
  rw [Returns, leads_andThen]
  constructor
  · rintro (⟨t', ht', heq⟩ | h)
    · cases t' with
      | ret a => exact ⟨log, [], a, (List.append_nil log).symm, ht', leads_nil.mpr heq⟩
      | call c k => exact absurd heq (by simp [andThen])
      | running => exact absurd heq (by simp [andThen])
    · exact h
  · exact .inr

/-- Two behaviours of one program, one after the other. -/
theorem leads_append : t.Leads (log ++ log') v ↔ ∃ u, t.Leads log u ∧ u.Leads log' v := by
  constructor
  · induction log generalizing t with
    | nil => exact fun h ↦ ⟨t, .nil t, h⟩
    | cons e log ih =>
      intro h
      cases h with
      | cons tail =>
        obtain ⟨u, hu, hv⟩ := ih tail
        exact ⟨u, .cons hu, hv⟩
  · rintro ⟨u, hu, hv⟩
    induction hu with
    | nil => exact hv
    | cons _ ih => exact .cons (ih hv)

/-! ## Which calls are made -/

/-- Every call the program may ever make satisfies `S`. -/
def Calls (S : Call → Prop) : Interaction Call Answer α → Prop
  | .ret _ => True
  | .call c k => S c ∧ ∀ answer, (k answer).Calls S
  | .running => True

variable {S : Call → Prop}

theorem Calls.andThen (ht : t.Calls S) (hf : ∀ a, (f a).Calls S) : (t.andThen f).Calls S := by
  induction t with
  | ret a => exact hf a
  | call c k ih => exact ⟨ht.1, fun answer ↦ ih answer (ht.2 answer)⟩
  | running => trivial

theorem Calls.mono {S' : Call → Prop} (ht : t.Calls S) (hS : ∀ c, S c → S' c) : t.Calls S' := by
  induction t with
  | ret a => trivial
  | call c k ih => exact ⟨hS c ht.1, fun answer ↦ ih answer (ht.2 answer)⟩
  | running => trivial

theorem Calls.leads (ht : t.Calls S) (h : t.Leads log u) : ∀ e ∈ log, S e.1 := by
  induction h with
  | nil => exact fun e he ↦ absurd he (by simp)
  | cons _ ih =>
    intro e he
    rcases List.mem_cons.mp he with rfl | he
    · exact ht.1
    · exact ih (ht.2 _) e he

/-! ## Hosts that can be run -/

/-- Run a program on a host, which answers by its state: the log, and the value unless the program
is still running. -/
def play {W : Type} (host : W → (c : Call) → Answer c × W) :
    Interaction Call Answer α → W → List (Event Answer) × Option α
  | .ret a, _ => ([], some a)
  | .call c k, w =>
    let (log, value) := (k (host w c).1).play host (host w c).2
    (⟨c, (host w c).1⟩ :: log, value)
  | .running, _ => ([], none)

/-- What a host makes of a program is a behaviour of it. -/
theorem returns_play {W : Type} {host : W → (c : Call) → Answer c × W} {w : W}
    (h : (t.play host w).2 = some a) : t.Returns (t.play host w).1 a := by
  induction t generalizing w with
  | ret b => exact returns_ret.mpr ⟨rfl, (Option.some.inj h).symm⟩
  | call c k ih => exact returns_call.mpr ⟨_, _, rfl, ih _ h⟩
  | running => exact absurd h (by simp [play])

/-! ## Environments with a law -/

variable {W : Type} {Env : W → Event Answer → W → Prop} {w w' : W} {Q Q' : α → W → Prop}

/-- In an environment that keeps to `Env`, from its state `w`, a program that ends does so in a
value and a state that satisfy `Q`. -/
def Ensures (Env : W → Event Answer → W → Prop) :
    Interaction Call Answer α → W → (α → W → Prop) → Prop
  | .ret a, w, Q => Q a w
  | .call c k, w, Q => ∀ answer w', Env w ⟨c, answer⟩ w' → (k answer).Ensures Env w' Q
  | .running, _, _ => True

@[simp] theorem ensures_ret : (ret a : Interaction Call Answer α).Ensures Env w Q ↔ Q a w := Iff.rfl

@[simp] theorem ensures_call : (call c k).Ensures Env w Q ↔
    ∀ answer w', Env w ⟨c, answer⟩ w' → (k answer).Ensures Env w' Q := Iff.rfl

@[simp] theorem ensures_running : (running : Interaction Call Answer α).Ensures Env w Q := trivial

/-- **What a program ensures** is what holds at the end of each of its behaviours. -/
theorem ensures_iff : t.Ensures Env w Q ↔
    ∀ log a w', t.Returns log a → Steps Env w log w' → Q a w' := by
  induction t generalizing w with
  | ret a =>
    rw [ensures_ret]
    constructor
    · intro h log a' w' hret hsteps
      obtain ⟨rfl, rfl⟩ := returns_ret.mp hret
      exact Steps.nil_iff.mp hsteps ▸ h
    · exact fun h ↦ h [] a w (returns_ret.mpr ⟨rfl, rfl⟩) (.nil w)
  | call c k ih =>
    rw [ensures_call]
    constructor
    · intro h log a w' hret hsteps
      obtain ⟨answer, log', rfl, htail⟩ := returns_call.mp hret
      obtain ⟨m, hm, hsteps⟩ := Steps.cons_iff.mp hsteps
      exact (ih answer).mp (h answer m hm) log' a w' htail hsteps
    · intro h answer m hm
      exact (ih answer).mpr fun log a w' hret hsteps ↦
        h _ a w' (returns_call.mpr ⟨answer, log, rfl, hret⟩) (.cons hm hsteps)
  | running => exact iff_of_true trivial fun _ _ _ h ↦ absurd h not_returns_running

theorem Ensures.mono (h : t.Ensures Env w Q) (hQ : ∀ a w', Q a w' → Q' a w') :
    t.Ensures Env w Q' :=
  ensures_iff.mpr fun log a w' hret hsteps ↦ hQ a w' (ensures_iff.mp h log a w' hret hsteps)

theorem Ensures.and (h : t.Ensures Env w Q) (h' : t.Ensures Env w Q') :
    t.Ensures Env w fun a w' ↦ Q a w' ∧ Q' a w' :=
  ensures_iff.mpr fun log a w' hret hsteps ↦
    ⟨ensures_iff.mp h log a w' hret hsteps, ensures_iff.mp h' log a w' hret hsteps⟩

/-- What every step of the environment preserves holds at the end. -/
theorem ensures_of_preserved {P : W → Prop} (hstep : ∀ {w e w'}, P w → Env w e w' → P w')
    (hw : P w) : t.Ensures Env w fun _ w' ↦ P w' :=
  ensures_iff.mpr fun _ _ _ _ hsteps ↦ hsteps.preserves hstep hw

/-- What is preserved by every step with a call the program makes holds at the end. -/
theorem Calls.ensures {P : W → Prop} (ht : t.Calls S)
    (hstep : ∀ {w e w'}, S e.1 → P w → Env w e w' → P w') (hw : P w) :
    t.Ensures Env w fun _ w' ↦ P w' := by
  induction t generalizing w with
  | ret a => exact hw
  | call c k ih => exact fun answer w' h ↦ ih answer (ht.2 answer) (hstep ht.1 hw h)
  | running => trivial

@[simp] theorem ensures_andThen {Q : β → W → Prop} : (t.andThen f).Ensures Env w Q ↔
    t.Ensures Env w fun a w' ↦ (f a).Ensures Env w' Q := by
  induction t generalizing w with
  | ret a => exact Iff.rfl
  | call c k ih =>
    exact forall_congr' fun answer ↦ forall_congr' fun w' ↦ imp_congr_right fun _ ↦ ih _
  | running => exact Iff.rfl

@[simp] theorem ensures_map {g : α → β} {Q : β → W → Prop} :
    (t.map g).Ensures Env w Q ↔ t.Ensures Env w fun a w' ↦ Q (g a) w' := by
  rw [map, ensures_andThen]
  exact Iff.rfl

/-- In an environment that keeps to `Env`, from its state `w`, the program does not run out of
fuel. -/
def Ends (Env : W → Event Answer → W → Prop) : Interaction Call Answer α → W → Prop
  | .ret _, _ => True
  | .call c k, w => ∀ answer w', Env w ⟨c, answer⟩ w' → (k answer).Ends Env w'
  | .running, _ => False

theorem ends_andThen : (t.andThen f).Ends Env w ↔
    t.Ends Env w ∧ t.Ensures Env w fun a w' ↦ (f a).Ends Env w' := by
  induction t generalizing w with
  | ret a => exact ⟨fun h ↦ ⟨trivial, h⟩, fun h ↦ h.2⟩
  | call c k ih =>
    simp only [andThen, Ends, Ensures, ih]
    exact ⟨fun h ↦ ⟨fun answer w' hw ↦ (h answer w' hw).1, fun answer w' hw ↦ (h answer w' hw).2⟩,
      fun h answer w' hw ↦ ⟨h.1 answer w' hw, h.2 answer w' hw⟩⟩
  | running => exact ⟨False.elim, fun h ↦ h.1⟩

/-- A program that ends is not found out of fuel. -/
theorem Ends.leads (ht : t.Ends Env w) (h : t.Leads log u) (hsteps : Steps Env w log w') :
    u.Ends Env w' := by
  induction h generalizing w with
  | nil => exact Steps.nil_iff.mp hsteps ▸ ht
  | cons _ ih =>
    obtain ⟨m, hm, hsteps⟩ := Steps.cons_iff.mp hsteps
    exact ih (ht _ m hm) hsteps

/-- The state a host is left in. -/
def playEnd {W : Type} (host : W → (c : Call) → Answer c × W) : Interaction Call Answer α → W → W
  | .ret _, w => w
  | .call c k, w => (k (host w c).1).playEnd host (host w c).2
  | .running, w => w

/-- A host that keeps to a law in the calls of a run keeps to it throughout the run. -/
theorem steps_playEnd {V : Type} {Law : V → Event Answer → V → Prop}
    {host : W → (c : Call) → Answer c × W} (φ : W → V)
    (hlaw : ∀ w c, S c → Law (φ w) ⟨c, (host w c).1⟩ (φ (host w c).2))
    (hS : ∀ e ∈ (t.play host w).1, S e.1) :
    Steps Law (φ w) (t.play host w).1 (φ (t.playEnd host w)) := by
  induction t generalizing w with
  | ret a => exact .nil _
  | call c k ih =>
    obtain ⟨hc, htail⟩ := List.forall_mem_cons.mp hS
    exact .cons (hlaw w c hc) (ih (host w c).1 htail)
  | running => exact .nil _

theorem steps_play {V : Type} {Law : V → Event Answer → V → Prop}
    {host : W → (c : Call) → Answer c × W}
    (φ : W → V) (hlaw : ∀ w c, S c → Law (φ w) ⟨c, (host w c).1⟩ (φ (host w c).2))
    (hS : ∀ e ∈ (t.play host w).1, S e.1) :
    ∃ w', Steps Law (φ w) (t.play host w).1 (φ w') := ⟨_, steps_playEnd φ hlaw hS⟩

/-! ## Environments that do not change -/

/-- What a program ends in, if it ends, when a call is answered the same whenever it is made. -/
def settle (answers : (c : Call) → Answer c) : Interaction Call Answer α → Option α
  | .ret a => some a
  | .call c k => (k (answers c)).settle answers
  | .running => none

theorem settle_andThen {answers : (c : Call) → Answer c} :
    (t.andThen f).settle answers = (t.settle answers).bind fun a ↦ (f a).settle answers := by
  induction t with
  | ret a => rfl
  | call c k ih => exact ih (answers c)
  | running => rfl

/-- What a program ends in there, it ends in after a log of those answers. -/
theorem returns_of_settle {answers : (c : Call) → Answer c} (h : t.settle answers = some a) :
    ∃ log, t.Returns log a ∧ ∀ e ∈ log, e.2 = answers e.1 := by
  induction t with
  | ret b => exact ⟨[], returns_ret.mpr ⟨rfl, (Option.some.inj h).symm⟩, by simp⟩
  | call c k ih =>
    obtain ⟨log, hret, hlog⟩ := ih (answers c) h
    exact ⟨_, returns_call.mpr ⟨_, log, rfl, hret⟩, List.forall_mem_cons.mpr ⟨rfl, hlog⟩⟩
  | running => exact absurd h (by simp [settle])

end Interaction

/-! ## Programs that raise -/

/-- A program that makes calls and returns an `α` or raises an `ε`. -/
def Action (Call : Type) (Answer : Call → Type) (ε α : Type) : Type :=
  Interaction Call Answer (Except ε α)

namespace Action

variable {Call : Type} {Answer : Call → Type} {ε α β : Type}

/-- Return or raise what a function without effects does. -/
def lift (x : Except ε α) : Action Call Answer ε α := Interaction.ret x

/-- `raise`. -/
def raise (e : ε) : Action Call Answer ε α := lift (.error e)

/-- Make a call, and go on with its answer. -/
def call (c : Call) (k : Answer c → Action Call Answer ε α) : Action Call Answer ε α :=
  Interaction.call c k

/-- Make a call, and return or raise what its answer says. -/
def ask (c : Call) (f : Answer c → Except ε α) : Action Call Answer ε α :=
  call c fun answer ↦ lift (f answer)

/-- The fuel of a loop is spent. -/
def running : Action Call Answer ε α := Interaction.running

/-- Go on with whatever a program returns or raises. -/
def andThen (p : Action Call Answer ε α) (f : Except ε α → Action Call Answer ε β) :
    Action Call Answer ε β := Interaction.andThen p f

/-- Go on with what was returned, or raise what was raised. -/
def proceed (f : α → Action Call Answer ε β) : Except ε α → Action Call Answer ε β
  | .ok a => f a
  | .error e => raise e

instance : Monad (Action Call Answer ε) where
  pure a := lift (.ok a)
  bind p f := p.andThen (proceed f)

/-- Hand what was raised to a handler. -/
def handle (h : ε → Action Call Answer ε α) : Except ε α → Action Call Answer ε α
  | .ok a => lift (.ok a)
  | .error e => h e

/-- `try: p` / `except …: h`. -/
def tryCatch (p : Action Call Answer ε α) (h : ε → Action Call Answer ε α) :
    Action Call Answer ε α := p.andThen (handle h)

/-- Take up what was returned or raised before a clause that did not raise. -/
def resume (x : Except ε α) : Except ε Unit → Action Call Answer ε α
  | .ok () => lift x
  | .error e => raise e

/-- `try: p` / `finally: q`.  What `q` raises replaces what `p` returned or raised. -/
def tryFinally (p : Action Call Answer ε α) (q : Action Call Answer ε Unit) :
    Action Call Answer ε α :=
  p.andThen fun x ↦ q.andThen (resume x)

/-! ### Behaviours of programs that raise -/

/-- The program a program has become after a log. -/
def Leads (p : Action Call Answer ε α) (log : List (Event Answer)) (u : Action Call Answer ε α) :
    Prop := Interaction.Leads p log u

/-- A program returns or raises after a log. -/
def Returns (p : Action Call Answer ε α) (log : List (Event Answer)) (x : Except ε α) : Prop :=
  Interaction.Returns p log x

variable {p : Action Call Answer ε α} {f : α → Action Call Answer ε β}
  {g : Except ε α → Action Call Answer ε β}
  {h : ε → Action Call Answer ε α} {q : Action Call Answer ε Unit} {log log' : List (Event Answer)}
  {x : Except ε α} {a : α} {e : ε} {c : Call} {k : Answer c → Action Call Answer ε α}

theorem leads_lift {u : Action Call Answer ε α} :
    (lift x : Action Call Answer ε α).Leads log u ↔ log = [] ∧ u = lift x :=
  Interaction.leads_ret

theorem leads_call {u : Action Call Answer ε α} : (call c k).Leads log u ↔
    (log = [] ∧ u = call c k) ∨
      ∃ answer log', log = ⟨c, answer⟩ :: log' ∧ (k answer).Leads log' u :=
  Interaction.leads_call

theorem leads_running {u : Action Call Answer ε α} :
    (running : Action Call Answer ε α).Leads log u ↔ log = [] ∧ u = running :=
  Interaction.leads_running

theorem leads_andThen {u : Action Call Answer ε β} : (p.andThen g).Leads log u ↔
    (∃ p', p.Leads log p' ∧ u = p'.andThen g) ∨
      ∃ l l' x, log = l ++ l' ∧ p.Returns l x ∧ (g x).Leads l' u :=
  Interaction.leads_andThen

theorem returns_lift {y : Except ε α} :
    (lift x : Action Call Answer ε α).Returns log y ↔ log = [] ∧ y = x :=
  Interaction.returns_ret

theorem returns_pure :
    (pure a : Action Call Answer ε α).Returns log x ↔ log = [] ∧ x = .ok a :=
  returns_lift

theorem returns_raise :
    (raise e : Action Call Answer ε α).Returns log x ↔ log = [] ∧ x = .error e :=
  returns_lift

theorem returns_call : (call c k).Returns log x ↔
    ∃ answer log', log = ⟨c, answer⟩ :: log' ∧ (k answer).Returns log' x :=
  Interaction.returns_call

theorem returns_ask {r : Answer c → Except ε α} : (ask c r).Returns log x ↔
    ∃ answer, log = [⟨c, answer⟩] ∧ x = r answer := by
  rw [ask, returns_call]
  refine exists_congr fun answer ↦ ⟨?_, ?_⟩
  · rintro ⟨log', rfl, h⟩
    obtain ⟨rfl, rfl⟩ := returns_lift.mp h
    exact ⟨rfl, rfl⟩
  · rintro ⟨rfl, rfl⟩
    exact ⟨[], rfl, returns_lift.mpr ⟨rfl, rfl⟩⟩

theorem leads_ask {r : Answer c → Except ε α} {u : Action Call Answer ε α} :
    (ask c r).Leads log u ↔
      (log = [] ∧ u = ask c r) ∨ ∃ answer, log = [⟨c, answer⟩] ∧ u = lift (r answer) := by
  refine leads_call.trans (or_congr_right (exists_congr fun answer ↦ ⟨?_, ?_⟩))
  · rintro ⟨log', rfl, h⟩
    obtain ⟨rfl, rfl⟩ := leads_lift.mp h
    exact ⟨rfl, rfl⟩
  · rintro ⟨rfl, rfl⟩
    exact ⟨[], rfl, leads_lift.mpr ⟨rfl, rfl⟩⟩

@[simp] theorem not_returns_running : ¬(running : Action Call Answer ε α).Returns log x :=
  Interaction.not_returns_running

theorem returns_andThen {y : Except ε β} : (p.andThen g).Returns log y ↔
    ∃ l l' x, log = l ++ l' ∧ p.Returns l x ∧ (g x).Returns l' y :=
  Interaction.returns_andThen

theorem lift_ok_bind : ((lift (.ok a) : Action Call Answer ε α) >>= f) = f a := rfl

theorem lift_error_bind : ((lift (.error e) : Action Call Answer ε α) >>= f) = raise e := rfl

theorem bind_assoc {γ : Type} {f' : β → Action Call Answer ε γ} :
    p >>= f >>= f' = p >>= fun a ↦ f a >>= f' := by
  refine Interaction.andThen_assoc.trans (congrArg (Interaction.andThen p) (funext fun x ↦ ?_))
  cases x <;> rfl

theorem ite_bind {P : Prop} [Decidable P] {p' : Action Call Answer ε α} :
    (if P then p else p') >>= f = if P then p >>= f else p' >>= f := by
  split <;> rfl

/-- A sequence ends in what its second part ends in, or raises what its first part raises. -/
theorem returns_bind {y : Except ε β} : (p >>= f).Returns log y ↔
    (∃ l l' a, log = l ++ l' ∧ p.Returns l (.ok a) ∧ (f a).Returns l' y) ∨
      ∃ e, p.Returns log (.error e) ∧ y = .error e := by
  refine returns_andThen.trans ⟨?_, ?_⟩
  · rintro ⟨l, l', x, rfl, hp, hf⟩
    cases x with
    | ok a => exact .inl ⟨l, l', a, rfl, hp, hf⟩
    | error e =>
      obtain ⟨rfl, rfl⟩ := returns_raise.mp hf
      exact .inr ⟨e, (List.append_nil l).symm ▸ hp, rfl⟩
  · rintro (⟨l, l', a, rfl, hp, hf⟩ | ⟨e, hp, rfl⟩)
    · exact ⟨l, l', .ok a, rfl, hp, hf⟩
    · exact ⟨log, [], .error e, (List.append_nil log).symm, hp, returns_raise.mpr ⟨rfl, rfl⟩⟩

theorem returns_bind_ok {b : β} : (p >>= f).Returns log (.ok b) ↔
    ∃ l l' a, log = l ++ l' ∧ p.Returns l (.ok a) ∧ (f a).Returns l' (.ok b) := by
  rw [returns_bind]
  exact or_iff_left fun ⟨_, _, h⟩ ↦ absurd h (by simp)

/-- What a handler lets through was returned, or comes from the handler. -/
theorem returns_tryCatch : (tryCatch p h).Returns log x ↔
    (∃ a, p.Returns log (.ok a) ∧ x = .ok a) ∨
      ∃ l l' e, log = l ++ l' ∧ p.Returns l (.error e) ∧ (h e).Returns l' x := by
  refine returns_andThen.trans ⟨?_, ?_⟩
  · rintro ⟨l, l', y, rfl, hp, hh⟩
    cases y with
    | ok a =>
      obtain ⟨rfl, rfl⟩ := returns_lift.mp hh
      exact .inl ⟨a, (List.append_nil l).symm ▸ hp, rfl⟩
    | error e => exact .inr ⟨l, l', e, rfl, hp, hh⟩
  · rintro (⟨a, hp, rfl⟩ | ⟨l, l', e, rfl, hp, hh⟩)
    · exact ⟨log, [], .ok a, (List.append_nil log).symm, hp, returns_lift.mpr ⟨rfl, rfl⟩⟩
    · exact ⟨l, l', .error e, rfl, hp, hh⟩

/-- A clause behind `finally` runs in any case, and raises what it raises. -/
theorem returns_tryFinally : (tryFinally p q).Returns log x ↔
    ∃ l l' y, log = l ++ l' ∧ p.Returns l y ∧
      ((q.Returns l' (.ok ()) ∧ x = y) ∨ ∃ e, q.Returns l' (.error e) ∧ x = .error e) := by
  refine returns_andThen.trans (exists_congr fun l ↦ exists_congr fun l' ↦ exists_congr fun y ↦
    and_congr_right fun _ ↦ and_congr_right fun _ ↦ returns_andThen.trans ⟨?_, ?_⟩)
  · rintro ⟨m, m', z, rfl, hq, hz⟩
    cases z with
    | ok u =>
      obtain ⟨rfl, rfl⟩ := returns_lift.mp hz
      exact .inl ⟨(List.append_nil m).symm ▸ hq, rfl⟩
    | error e =>
      obtain ⟨rfl, rfl⟩ := returns_raise.mp hz
      exact .inr ⟨e, (List.append_nil m).symm ▸ hq, rfl⟩
  · rintro (⟨hq, rfl⟩ | ⟨e, hq, rfl⟩)
    · exact ⟨l', [], .ok (), (List.append_nil l').symm, hq, returns_lift.mpr ⟨rfl, rfl⟩⟩
    · exact ⟨l', [], .error e, (List.append_nil l').symm, hq, returns_raise.mpr ⟨rfl, rfl⟩⟩

/-! ### Which calls a program that raises makes -/

/-- Every call the program may ever make satisfies `S`. -/
def Calls (S : Call → Prop) (p : Action Call Answer ε α) : Prop := Interaction.Calls S p

section Calls

variable {S : Call → Prop} {before after : List (Event Answer)} {event : Event Answer}

theorem Calls.mono {S' : Call → Prop} (hp : p.Calls S) (hS : ∀ c, S c → S' c) : p.Calls S' :=
  Interaction.Calls.mono hp hS

theorem Calls.leads {u : Action Call Answer ε α} (hp : p.Calls S) (h : p.Leads log u) :
    ∀ e ∈ log, S e.1 :=
  Interaction.Calls.leads hp h

@[simp] theorem calls_lift : (lift x : Action Call Answer ε α).Calls S := trivial

@[simp] theorem calls_pure : (pure a : Action Call Answer ε α).Calls S := trivial

@[simp] theorem calls_raise : (raise e : Action Call Answer ε α).Calls S := trivial

@[simp] theorem calls_running : (running : Action Call Answer ε α).Calls S := trivial

@[simp] theorem calls_ask {r : Answer c → Except ε α} : (ask c r).Calls S ↔ S c :=
  and_iff_left fun _ ↦ trivial

theorem Calls.andThen (hp : p.Calls S) (hg : ∀ x, (g x).Calls S) :
    (p.andThen g).Calls S :=
  Interaction.Calls.andThen hp hg

theorem Calls.bind (hp : p.Calls S) (hf : ∀ a, (f a).Calls S) : (p >>= f).Calls S :=
  hp.andThen fun x ↦ by
    cases x with
    | ok a => exact hf a
    | error e => trivial

theorem Calls.tryCatch (hp : p.Calls S) (hh : ∀ e, (h e).Calls S) :
    (tryCatch p h).Calls S :=
  hp.andThen fun x ↦ by
    cases x with
    | ok a => trivial
    | error e => exact hh e

theorem Calls.tryFinally (hp : p.Calls S) (hq : q.Calls S) : (tryFinally p q).Calls S :=
  hp.andThen fun x ↦ hq.andThen fun y ↦ by
    cases y with
    | ok u => trivial
    | error e => trivial

theorem Calls.ite {P : Prop} [Decidable P] {p' : Action Call Answer ε α}
    (hp : p.Calls S) (hp' : p'.Calls S) : (if P then p else p').Calls S := by
  split
  · exact hp
  · exact hp'

/-- A log that goes through a call the first part does not make goes through the end of the first
part. -/
theorem leads_andThen_of_calls {u : Action Call Answer ε β} (hp : p.Calls S) (hevent : ¬S event.1)
    (h : (p.andThen g).Leads (before ++ event :: after) u) :
    ∃ l l' x, before = l ++ l' ∧ p.Returns l x ∧ (g x).Leads (l' ++ event :: after) u := by
  rcases leads_andThen.mp h with ⟨p', hp', -⟩ | ⟨l, l', x, hlog, hret, hnext⟩
  · exact absurd (hp.leads hp' event (by simp)) hevent
  · rcases List.append_eq_append_iff.mp hlog with ⟨m, rfl, hm⟩ | ⟨m, rfl, rfl⟩
    · cases m with
      | nil => exact ⟨before, [], x, (List.append_nil _).symm, List.append_nil before ▸ hret,
          hm ▸ hnext⟩
      | cons e m =>
        obtain ⟨rfl, -⟩ := List.cons.inj hm
        exact absurd (hp.leads hret _ (by simp)) hevent
    · exact ⟨l, m, x, rfl, hret, hnext⟩

theorem leads_bind_of_calls {u : Action Call Answer ε β} (hp : p.Calls S) (hevent : ¬S event.1)
    (h : (p >>= f).Leads (before ++ event :: after) u) :
    ∃ l l' a, before = l ++ l' ∧ p.Returns l (.ok a) ∧ (f a).Leads (l' ++ event :: after) u := by
  obtain ⟨l, l', x, rfl, hret, hnext⟩ := leads_andThen_of_calls hp hevent h
  cases x with
  | ok a => exact ⟨l, l', a, rfl, hret, hnext⟩
  | error e => exact absurd (leads_lift.mp hnext).1 (by simp)

/-- A call the second part does not make is made by the first part. -/
theorem leads_andThen_of_calls_right {u : Action Call Answer ε β} (hg : ∀ x, (g x).Calls S)
    (hevent : ¬S event.1) (h : (p.andThen g).Leads (before ++ event :: after) u) :
    ∃ l l' p', after = l ++ l' ∧ p.Leads (before ++ event :: l) p' ∧ ∀ e ∈ l', S e.1 := by
  rcases leads_andThen.mp h with ⟨p', hp', -⟩ | ⟨l, l', x, hlog, hret, hnext⟩
  · exact ⟨after, [], p', (List.append_nil _).symm, hp', by simp⟩
  · have hl' := (hg x).leads hnext
    rcases List.append_eq_append_iff.mp hlog with ⟨m, rfl, hm⟩ | ⟨m, rfl, rfl⟩
    · cases m with
      | nil =>
        have hmem : event ∈ l' := by
          rw [← List.nil_append l', ← hm]
          exact List.mem_cons_self
        exact absurd (hl' event hmem) hevent
      | cons e m =>
        obtain ⟨rfl, rfl⟩ := List.cons.inj hm
        exact ⟨m, l', _, rfl, hret, hl'⟩
    · exact absurd (hl' event (by simp)) hevent

end Calls

/-! ### What a program that raises ensures -/

variable {W : Type} {Env : W → Event Answer → W → Prop} {w w' : W} {Q Q' : Except ε α → W → Prop}

/-- In an environment that keeps to `Env`, from its state `w`, a program that returns or raises does
so in a state that, with what it returns or raises, satisfies `Q`. -/
def Ensures (Env : W → Event Answer → W → Prop) (p : Action Call Answer ε α) (w : W)
    (Q : Except ε α → W → Prop) : Prop := Interaction.Ensures Env p w Q

/-- **What a program ensures** is what holds at the end of each of its behaviours. -/
theorem ensures_iff : p.Ensures Env w Q ↔
    ∀ log x w', p.Returns log x → Steps Env w log w' → Q x w' :=
  Interaction.ensures_iff

theorem Ensures.mono (hp : p.Ensures Env w Q) (hQ : ∀ x w', Q x w' → Q' x w') :
    p.Ensures Env w Q' := Interaction.Ensures.mono hp hQ

theorem Ensures.and (hp : p.Ensures Env w Q) (hp' : p.Ensures Env w Q') :
    p.Ensures Env w fun x w' ↦ Q x w' ∧ Q' x w' := Interaction.Ensures.and hp hp'

/-- What every step of the environment preserves holds at the end. -/
theorem ensures_of_preserved {P : W → Prop} (hstep : ∀ {w e w'}, P w → Env w e w' → P w')
    (hw : P w) : p.Ensures Env w fun _ w' ↦ P w' :=
  Interaction.ensures_of_preserved hstep hw

/-- What is preserved by every step with a call the program makes holds at the end. -/
theorem Calls.ensures {S : Call → Prop} {P : W → Prop} (hp : p.Calls S)
    (hstep : ∀ {w e w'}, S e.1 → P w → Env w e w' → P w') (hw : P w) :
    p.Ensures Env w fun _ w' ↦ P w' :=
  Interaction.Calls.ensures hp hstep hw

@[simp] theorem ensures_lift :
    (lift x : Action Call Answer ε α).Ensures Env w Q ↔ Q x w := Iff.rfl

@[simp] theorem ensures_pure :
    (pure a : Action Call Answer ε α).Ensures Env w Q ↔ Q (.ok a) w := Iff.rfl

@[simp] theorem ensures_raise :
    (raise e : Action Call Answer ε α).Ensures Env w Q ↔ Q (.error e) w := Iff.rfl

@[simp] theorem ensures_call : (call c k).Ensures Env w Q ↔
    ∀ answer w', Env w ⟨c, answer⟩ w' → (k answer).Ensures Env w' Q := Iff.rfl

@[simp] theorem ensures_ask {r : Answer c → Except ε α} : (ask c r).Ensures Env w Q ↔
    ∀ answer w', Env w ⟨c, answer⟩ w' → Q (r answer) w' := Iff.rfl

@[simp] theorem ensures_running : (running : Action Call Answer ε α).Ensures Env w Q := trivial

@[simp] theorem ensures_andThen {Q : Except ε β → W → Prop} : (p.andThen g).Ensures Env w Q ↔
    p.Ensures Env w fun x w' ↦ (g x).Ensures Env w' Q := Interaction.ensures_andThen

/-- What is left to ensure of the second part of a sequence. -/
def After (Env : W → Event Answer → W → Prop) (f : α → Action Call Answer ε β)
    (Q : Except ε β → W → Prop) : Except ε α → W → Prop
  | .ok a, w => (f a).Ensures Env w Q
  | .error e, w => Q (.error e) w

@[simp] theorem after_ok {Q : Except ε β → W → Prop} :
    After Env f Q (.ok a) w ↔ (f a).Ensures Env w Q := Iff.rfl

@[simp] theorem after_error {Q : Except ε β → W → Prop} :
    After Env f Q (.error e) w ↔ Q (.error e) w := Iff.rfl

/-- What is left to ensure of a handler. -/
def Handled (Env : W → Event Answer → W → Prop) (h : ε → Action Call Answer ε α)
    (Q : Except ε α → W → Prop) : Except ε α → W → Prop
  | .ok a, w => Q (.ok a) w
  | .error e, w => (h e).Ensures Env w Q

@[simp] theorem handled_ok : Handled Env h Q (.ok a) w ↔ Q (.ok a) w := Iff.rfl

@[simp] theorem handled_error : Handled Env h Q (.error e) w ↔ (h e).Ensures Env w Q := Iff.rfl

/-- What is left to ensure of the clause behind `finally`, with a result pending. -/
def Pending (x : Except ε α) (Q : Except ε α → W → Prop) : Except ε Unit → W → Prop
  | .ok (), w => Q x w
  | .error e, w => Q (.error e) w

@[simp] theorem pending_ok : Pending x Q (.ok ()) w ↔ Q x w := Iff.rfl

@[simp] theorem pending_error : Pending x Q (.error e) w ↔ Q (.error e) w := Iff.rfl

@[simp] theorem ensures_bind {Q : Except ε β → W → Prop} :
    (p >>= f).Ensures Env w Q ↔ p.Ensures Env w (After Env f Q) :=
  ensures_andThen.trans ⟨fun hp ↦ hp.mono fun x w' hx ↦ by cases x <;> exact hx,
    fun hp ↦ hp.mono fun x w' hx ↦ by cases x <;> exact hx⟩

@[simp] theorem ensures_tryCatch :
    (tryCatch p h).Ensures Env w Q ↔ p.Ensures Env w (Handled Env h Q) :=
  ensures_andThen.trans ⟨fun hp ↦ hp.mono fun x w' hx ↦ by cases x <;> exact hx,
    fun hp ↦ hp.mono fun x w' hx ↦ by cases x <;> exact hx⟩

@[simp] theorem ensures_tryFinally : (tryFinally p q).Ensures Env w Q ↔
    p.Ensures Env w fun x w' ↦ q.Ensures Env w' (Pending x Q) := by
  refine ensures_andThen.trans ⟨fun hp ↦ hp.mono fun x w' hx ↦ ?_,
    fun hp ↦ hp.mono fun x w' hx ↦ ensures_andThen.mpr ?_⟩
  · exact (ensures_andThen.mp hx).mono fun y w'' hy ↦ by cases y <;> exact hy
  · exact hx.mono fun y w'' hy ↦ by cases y <;> exact hy

@[simp] theorem ensures_ite {P : Prop} [Decidable P] {p' : Action Call Answer ε α} :
    (if P then p else p').Ensures Env w Q ↔
      if P then p.Ensures Env w Q else p'.Ensures Env w Q := by
  split <;> rfl

/-! ### What a program ensures when it returns -/

/-- What was returned satisfies `P`; nothing is said of what was raised. -/
def OnReturn (P : α → W → Prop) : Except ε α → W → Prop
  | .ok a, w => P a w
  | .error _, _ => True

variable {P : α → W → Prop}

@[simp] theorem onReturn_ok : OnReturn (ε := ε) P (.ok a) w ↔ P a w := Iff.rfl

@[simp] theorem onReturn_error : OnReturn P (.error e : Except ε α) w := trivial

theorem OnReturn.mono {P' : α → W → Prop} {x : Except ε α} (hx : OnReturn P x w)
    (hP : ∀ a, P a w → P' a w) : OnReturn P' x w := by
  cases x with
  | ok a => exact hP a hx
  | error e => trivial

/-- What a sequence returns, its second part returns behind its first part. -/
theorem ensures_bind_onReturn {P : β → W → Prop} : (p >>= f).Ensures Env w (OnReturn P) ↔
    p.Ensures Env w (OnReturn fun a w' ↦ (f a).Ensures Env w' (OnReturn P)) := by
  rw [ensures_bind]
  constructor
  · exact fun hp ↦ hp.mono fun x w' hx ↦ by cases x <;> exact hx
  · exact fun hp ↦ hp.mono fun x w' hx ↦ by cases x <;> exact hx

/-- What holds of everything that could be returned. -/
theorem ensures_onReturn_of_forall (hP : ∀ a w', P a w') : p.Ensures Env w (OnReturn P) :=
  ensures_iff.mpr fun _ x w' _ _ ↦ by
    cases x with
    | ok a => exact hP a w'
    | error e => trivial

theorem Ensures.tryCatch_onReturn (hp : p.Ensures Env w (OnReturn P))
    (hh : ∀ e w', (h e).Ensures Env w' (OnReturn P)) :
    (tryCatch p h).Ensures Env w (OnReturn P) :=
  ensures_tryCatch.mpr (hp.mono fun x w' hx ↦ by
    cases x with
    | ok a => exact hx
    | error e => exact hh e w')

theorem Ensures.tryFinally_onReturn
    (hp : p.Ensures Env w (OnReturn fun a w' ↦ q.Ensures Env w' (OnReturn fun _ w'' ↦ P a w''))) :
    (tryFinally p q).Ensures Env w (OnReturn P) :=
  ensures_tryFinally.mpr (hp.mono fun x w' hx ↦ by
    cases x with
    | ok a => exact (onReturn_ok.mp hx).mono fun y w'' hy ↦ by cases y <;> exact hy
    | error e => exact ensures_iff.mpr fun _ y w'' _ _ ↦ by cases y <;> trivial)

/-- What is ensured of returns, at the end of a behaviour. -/
theorem Ensures.of_returns (hp : p.Ensures Env w (OnReturn P)) (hret : p.Returns log (.ok a))
    (hsteps : Steps Env w log w') : P a w' :=
  ensures_iff.mp hp log (.ok a) w' hret hsteps

/-! ### Programs that do not raise -/

/-- A value was returned, and satisfies `P`. -/
def Returned (P : α → W → Prop) : Except ε α → W → Prop
  | .ok a, w => P a w
  | .error _, _ => False

@[simp] theorem returned_ok : Returned (ε := ε) P (.ok a) w ↔ P a w := Iff.rfl

@[simp] theorem returned_error : ¬Returned P (.error e : Except ε α) w := id

/-- A sequence returns when both of its parts do, one after the other. -/
theorem ensures_bind_returned {P : β → W → Prop} : (p >>= f).Ensures Env w (Returned P) ↔
    p.Ensures Env w (Returned fun a w' ↦ (f a).Ensures Env w' (Returned P)) := by
  rw [ensures_bind]
  constructor
  · exact fun hp ↦ hp.mono fun x w' hx ↦ by cases x <;> exact hx
  · exact fun hp ↦ hp.mono fun x w' hx ↦ by cases x <;> exact hx

theorem Ensures.mono_returned {P' : α → W → Prop} (hp : p.Ensures Env w (Returned P))
    (hP : ∀ a w', P a w' → P' a w') : p.Ensures Env w (Returned P') :=
  hp.mono fun x w' hx ↦ by
    cases x with
    | ok a => exact hP a w' hx
    | error e => exact hx

theorem Ensures.bind_returned {P' : β → W → Prop} (hp : p.Ensures Env w (Returned P))
    (hf : ∀ a w', P a w' → (f a).Ensures Env w' (Returned P')) :
    (p >>= f).Ensures Env w (Returned P') :=
  ensures_bind_returned.mpr (hp.mono_returned hf)

theorem Ensures.tryCatch_returned (hp : p.Ensures Env w (Returned P)) :
    (tryCatch p h).Ensures Env w (Returned P) :=
  ensures_tryCatch.mpr (hp.mono fun x w' hx ↦ by
    cases x with
    | ok a => exact hx
    | error e => exact hx.elim)

theorem Ensures.tryFinally_returned (hp : p.Ensures Env w (Returned fun a w' ↦
      q.Ensures Env w' (Returned fun _ w'' ↦ P a w''))) :
    (tryFinally p q).Ensures Env w (Returned P) :=
  ensures_tryFinally.mpr (hp.mono fun x w' hx ↦ by
    cases x with
    | ok a => exact (returned_ok.mp hx).mono fun y w'' hy ↦ by cases y <;> exact hy
    | error e => exact hx.elim)

/-! ### Programs in an environment that does not change -/

/-- What a program ends in, if it ends, when a call is answered the same whenever it is made. -/
def settle (answers : (c : Call) → Answer c) (p : Action Call Answer ε α) : Option (Except ε α) :=
  Interaction.settle answers p

section Settle

variable {answers : (c : Call) → Answer c}

@[simp] theorem settle_lift : (lift x : Action Call Answer ε α).settle answers = some x := rfl

@[simp] theorem settle_pure : (pure a : Action Call Answer ε α).settle answers = some (.ok a) := rfl

@[simp] theorem settle_raise : (raise e : Action Call Answer ε α).settle answers =
    some (.error e) :=
  rfl

@[simp] theorem settle_ask {r : Answer c → Except ε α} :
    (ask c r).settle answers = some (r (answers c)) := rfl

theorem settle_andThen : (p.andThen g).settle answers =
    (p.settle answers).bind fun x ↦ (g x).settle answers := Interaction.settle_andThen

/-- A sequence goes on when its first part returns. -/
theorem settle_bind_ok (hp : p.settle answers = some (.ok a)) :
    (p >>= f).settle answers = (f a).settle answers := by
  refine settle_andThen.trans ?_
  rw [hp]
  rfl

theorem settle_bind_error (hp : p.settle answers = some (.error e)) :
    (p >>= f).settle answers = some (.error e) := by
  refine settle_andThen.trans ?_
  rw [hp]
  rfl

theorem settle_tryCatch_ok (hp : p.settle answers = some (.ok a)) :
    (tryCatch p h).settle answers = some (.ok a) := by
  refine settle_andThen.trans ?_
  rw [hp]
  rfl

theorem settle_tryCatch_error (hp : p.settle answers = some (.error e)) :
    (tryCatch p h).settle answers = (h e).settle answers := by
  refine settle_andThen.trans ?_
  rw [hp]
  rfl

end Settle

/-! ### Programs that do not run out of fuel -/

/-- In an environment that keeps to `Env`, from its state `w`, the program does not run out of
fuel. -/
def Ends (Env : W → Event Answer → W → Prop) (p : Action Call Answer ε α) (w : W) : Prop :=
  Interaction.Ends Env p w

@[simp] theorem ends_lift : (lift x : Action Call Answer ε α).Ends Env w := trivial

@[simp] theorem ends_pure : (pure a : Action Call Answer ε α).Ends Env w := trivial

@[simp] theorem ends_raise : (raise e : Action Call Answer ε α).Ends Env w := trivial

@[simp] theorem ends_ask {r : Answer c → Except ε α} : (ask c r).Ends Env w := fun _ _ _ ↦ trivial

theorem ends_andThen : (p.andThen g).Ends Env w ↔
    p.Ends Env w ∧ p.Ensures Env w fun x w' ↦ (g x).Ends Env w' := Interaction.ends_andThen

theorem Ends.andThen (hp : p.Ends Env w) (hg : ∀ x w', (g x).Ends Env w') :
    (p.andThen g).Ends Env w :=
  ends_andThen.mpr ⟨hp, ensures_iff.mpr fun _ x w' _ _ ↦ hg x w'⟩

theorem Ends.bind (hp : p.Ends Env w) (hf : ∀ a w', (f a).Ends Env w') : (p >>= f).Ends Env w :=
  hp.andThen fun x w' ↦ by
    cases x with
    | ok a => exact hf a w'
    | error e => trivial

/-- The second part of a sequence may count on what the first one ensures. -/
theorem Ends.bind_of_ensures (hp : p.Ends Env w) (hQ : p.Ensures Env w Q)
    (hf : ∀ a w', Q (.ok a) w' → (f a).Ends Env w') : (p >>= f).Ends Env w :=
  ends_andThen.mpr ⟨hp, hQ.mono fun x w' hx ↦ by
    cases x with
    | ok a => exact hf a w' hx
    | error e => trivial⟩

theorem Ends.bind_of_onReturn (hp : p.Ends Env w) (hP : p.Ensures Env w (OnReturn P))
    (hf : ∀ a w', P a w' → (f a).Ends Env w') : (p >>= f).Ends Env w :=
  hp.bind_of_ensures hP hf

theorem Ends.tryCatch (hp : p.Ends Env w) (hh : ∀ e w', (h e).Ends Env w') :
    (tryCatch p h).Ends Env w :=
  hp.andThen fun x w' ↦ by
    cases x with
    | ok a => trivial
    | error e => exact hh e w'

theorem Ends.tryFinally (hp : p.Ends Env w) (hq : ∀ w', q.Ends Env w') :
    (tryFinally p q).Ends Env w :=
  hp.andThen fun x w' ↦ (hq w').andThen fun y w'' ↦ by
    cases y with
    | ok u => trivial
    | error e => trivial

theorem Ends.ite {P : Prop} [Decidable P] {p' : Action Call Answer ε α} (hp : p.Ends Env w)
    (hp' : p'.Ends Env w) : (if P then p else p').Ends Env w := by
  split
  · exact hp
  · exact hp'

end Action

/-! ## Programs that keep a state of their own -/

/-- A program that makes calls, reads and writes a `σ`, and returns an `α` or raises an `ε`.  What
was written before a raise stays written. -/
def Method (Call : Type) (Answer : Call → Type) (ε σ α : Type) : Type :=
  σ → Interaction Call Answer (Except ε α × σ)

namespace Method

variable {Call : Type} {Answer : Call → Type} {ε σ α β : Type}

/-- A program that keeps its state alone. -/
def perform (p : Action Call Answer ε α) : Method Call Answer ε σ α :=
  fun s ↦ Interaction.map (fun x ↦ (x, s)) p

/-- `raise`. -/
def raise (e : ε) : Method Call Answer ε σ α := fun s ↦ .ret (.error e, s)

/-- Read the state. -/
def get : Method Call Answer ε σ σ := fun s ↦ .ret (.ok s, s)

/-- Write the state. -/
def modify (g : σ → σ) : Method Call Answer ε σ Unit := fun s ↦ .ret (.ok (), g s)

/-- Go on with what was returned, or raise what was raised. -/
def proceed (f : α → Method Call Answer ε σ β) :
    Except ε α × σ → Interaction Call Answer (Except ε β × σ)
  | (.ok a, s) => f a s
  | (.error e, s) => .ret (.error e, s)

instance : Monad (Method Call Answer ε σ) where
  pure a := fun s ↦ .ret (.ok a, s)
  bind m f := fun s ↦ (m s).andThen (proceed f)

/-- Hand what was raised to a handler. -/
def handle (h : ε → Method Call Answer ε σ α) :
    Except ε α × σ → Interaction Call Answer (Except ε α × σ)
  | (.ok a, s) => .ret (.ok a, s)
  | (.error e, s) => h e s

/-- `try: m` / `except …: h`. -/
def tryCatch (m : Method Call Answer ε σ α) (h : ε → Method Call Answer ε σ α) :
    Method Call Answer ε σ α := fun s ↦ (m s).andThen (handle h)

/-- Started in `s`, a program returns or raises after a log, and leaves `s'`. -/
def Returns (m : Method Call Answer ε σ α) (s : σ) (log : List (Event Answer)) (x : Except ε α)
    (s' : σ) : Prop := (m s).Returns log (x, s')

/-- What a host makes of a program is a behaviour of it. -/
theorem returns_play {W : Type} {host : W → (c : Call) → Answer c × W} {w : W}
    {m : Method Call Answer ε σ α} {s : σ} {x : Except ε α}
    (h : ((m s).play host w).2.map Prod.fst = some x) :
    ∃ s', m.Returns s ((m s).play host w).1 x s' := by
  obtain ⟨⟨y, s'⟩, hplay, rfl⟩ := Option.map_eq_some_iff.mp h
  exact ⟨s', Interaction.returns_play hplay⟩

variable {m : Method Call Answer ε σ α} {f : α → Method Call Answer ε σ β}
  {h : ε → Method Call Answer ε σ α} {s s' : σ} {log : List (Event Answer)} {x : Except ε α}

theorem returns_perform {p : Action Call Answer ε α} :
    (perform p).Returns s log x s' ↔ p.Returns log x ∧ s' = s := by
  refine Interaction.returns_andThen.trans ⟨?_, ?_⟩
  · rintro ⟨l, l', y, rfl, hp, hret⟩
    obtain ⟨rfl, heq⟩ := Interaction.returns_ret.mp hret
    obtain ⟨rfl, rfl⟩ := Prod.mk.inj heq
    exact ⟨(List.append_nil l).symm ▸ hp, rfl⟩
  · rintro ⟨hp, rfl⟩
    exact ⟨log, [], x, (List.append_nil log).symm, hp, Interaction.returns_ret.mpr ⟨rfl, rfl⟩⟩

theorem returns_pure {a : α} :
    (pure a : Method Call Answer ε σ α).Returns s log x s' ↔ log = [] ∧ x = .ok a ∧ s' = s := by
  refine Interaction.returns_ret.trans (and_congr_right fun _ ↦ ?_)
  rw [Prod.mk.injEq]

theorem returns_raise {e : ε} : (raise e : Method Call Answer ε σ α).Returns s log x s' ↔
    log = [] ∧ x = .error e ∧ s' = s := by
  refine Interaction.returns_ret.trans (and_congr_right fun _ ↦ ?_)
  rw [Prod.mk.injEq]

theorem returns_get {x : Except ε σ} :
    (get : Method Call Answer ε σ σ).Returns s log x s' ↔ log = [] ∧ x = .ok s ∧ s' = s := by
  refine Interaction.returns_ret.trans (and_congr_right fun _ ↦ ?_)
  rw [Prod.mk.injEq]

theorem returns_modify {g : σ → σ} {x : Except ε Unit} :
    (modify g : Method Call Answer ε σ Unit).Returns s log x s' ↔
      log = [] ∧ x = .ok () ∧ s' = g s := by
  refine Interaction.returns_ret.trans (and_congr_right fun _ ↦ ?_)
  rw [Prod.mk.injEq]

/-- A sequence ends as its second part does, or raises what its first part raises. -/
theorem returns_bind {y : Except ε β} : (m >>= f).Returns s log y s' ↔
    (∃ l l' a t, log = l ++ l' ∧ m.Returns s l (.ok a) t ∧ (f a).Returns t l' y s') ∨
      ∃ e, m.Returns s log (.error e) s' ∧ y = .error e := by
  refine Interaction.returns_andThen.trans ⟨?_, ?_⟩
  · rintro ⟨l, l', ⟨x, t⟩, rfl, hm, hf⟩
    cases x with
    | ok a => exact .inl ⟨l, l', a, t, rfl, hm, hf⟩
    | error e =>
      obtain ⟨rfl, heq⟩ := Interaction.returns_ret.mp hf
      obtain ⟨rfl, rfl⟩ := Prod.mk.inj heq
      exact .inr ⟨e, (List.append_nil l).symm ▸ hm, rfl⟩
  · rintro (⟨l, l', a, t, rfl, hm, hf⟩ | ⟨e, hm, rfl⟩)
    · exact ⟨l, l', (.ok a, t), rfl, hm, hf⟩
    · exact ⟨log, [], (.error e, s'), (List.append_nil log).symm, hm,
        Interaction.returns_ret.mpr ⟨rfl, rfl⟩⟩

/-- A program that keeps the state alone, and then another one. -/
theorem returns_perform_bind {p : Action Call Answer ε α} {y : Except ε β} :
    (perform p >>= f).Returns s log y s' ↔
      (∃ l l' a, log = l ++ l' ∧ p.Returns l (.ok a) ∧ (f a).Returns s l' y s') ∨
        ∃ e, p.Returns log (.error e) ∧ y = .error e ∧ s' = s := by
  rw [returns_bind]
  constructor
  · rintro (⟨l, l', a, t, rfl, hm, hf⟩ | ⟨e, hm, rfl⟩)
    · obtain ⟨hp, rfl⟩ := returns_perform.mp hm
      exact .inl ⟨l, l', a, rfl, hp, hf⟩
    · obtain ⟨hp, rfl⟩ := returns_perform.mp hm
      exact .inr ⟨e, hp, rfl, rfl⟩
  · rintro (⟨l, l', a, rfl, hp, hf⟩ | ⟨e, hp, rfl, rfl⟩)
    · exact .inl ⟨l, l', a, s, rfl, returns_perform.mpr ⟨hp, rfl⟩, hf⟩
    · exact .inr ⟨e, returns_perform.mpr ⟨hp, rfl⟩, rfl⟩

/-- What follows a read goes on with the state. -/
theorem returns_get_bind {f : σ → Method Call Answer ε σ β} {y : Except ε β} :
    (get >>= f).Returns s log y s' ↔ (f s).Returns s log y s' := Iff.rfl

/-- What follows a write goes on with what was written. -/
theorem returns_modify_bind {g : σ → σ} {f : Unit → Method Call Answer ε σ β} {y : Except ε β} :
    (modify g >>= f).Returns s log y s' ↔ (f ()).Returns (g s) log y s' := Iff.rfl

/-- What a handler lets through was returned, or comes from the handler. -/
theorem returns_tryCatch : (tryCatch m h).Returns s log x s' ↔
    (∃ a, m.Returns s log (.ok a) s' ∧ x = .ok a) ∨
      ∃ l l' e t, log = l ++ l' ∧ m.Returns s l (.error e) t ∧ (h e).Returns t l' x s' := by
  refine Interaction.returns_andThen.trans ⟨?_, ?_⟩
  · rintro ⟨l, l', ⟨y, t⟩, rfl, hm, hh⟩
    cases y with
    | ok a =>
      obtain ⟨rfl, heq⟩ := Interaction.returns_ret.mp hh
      obtain ⟨rfl, rfl⟩ := Prod.mk.inj heq
      exact .inl ⟨a, (List.append_nil l).symm ▸ hm, rfl⟩
    | error e => exact .inr ⟨l, l', e, t, rfl, hm, hh⟩
  · rintro (⟨a, hm, rfl⟩ | ⟨l, l', e, t, rfl, hm, hh⟩)
    · exact ⟨log, [], (.ok a, s'), (List.append_nil log).symm, hm,
        Interaction.returns_ret.mpr ⟨rfl, rfl⟩⟩
    · exact ⟨l, l', (.error e, t), rfl, hm, hh⟩

/-! ### What a program leaves its state as -/

/-- Started in a state that satisfies `P`, a program ends in one. -/
def Preserves (P : σ → Prop) (m : Method Call Answer ε σ α) : Prop :=
  ∀ s log x s', P s → m.Returns s log x s' → P s'

variable {P : σ → Prop}

theorem preserves_perform (p : Action Call Answer ε α) :
    Preserves P (perform p : Method Call Answer ε σ α) :=
  fun _ _ _ _ hs h ↦ (returns_perform.mp h).2 ▸ hs

theorem preserves_raise (e : ε) : Preserves P (raise e : Method Call Answer ε σ α) :=
  fun _ _ _ _ hs h ↦ (returns_raise.mp h).2.2 ▸ hs

theorem preserves_modify {g : σ → σ} (hg : ∀ s, P s → P (g s)) :
    Preserves P (modify g : Method Call Answer ε σ Unit) :=
  fun _ _ _ _ hs h ↦ (returns_modify.mp h).2.2 ▸ hg _ hs

theorem Preserves.bind (hm : Preserves P m) (hf : ∀ a, Preserves P (f a)) :
    Preserves P (m >>= f) := by
  intro s log y s' hs hret
  rcases returns_bind.mp hret with ⟨l, l', a, t, rfl, hbody, hnext⟩ | ⟨e, hbody, rfl⟩
  · exact hf a _ _ _ _ (hm _ _ _ _ hs hbody) hnext
  · exact hm _ _ _ _ hs hbody

theorem Preserves.tryCatch (hm : Preserves P m) (hh : ∀ e, Preserves P (h e)) :
    Preserves P (tryCatch m h) := by
  intro s log x s' hs hret
  rcases returns_tryCatch.mp hret with ⟨a, hbody, rfl⟩ | ⟨l, l', e, t, rfl, hbody, hnext⟩
  · exact hm _ _ _ _ hs hbody
  · exact hh e _ _ _ _ (hm _ _ _ _ hs hbody) hnext

theorem Preserves.ite {c : Prop} [Decidable c] {m' : Method Call Answer ε σ α}
    (hm : Preserves P m) (hm' : Preserves P m') : Preserves P (if c then m else m') := by
  split
  · exact hm
  · exact hm'

end Method

end Lib
