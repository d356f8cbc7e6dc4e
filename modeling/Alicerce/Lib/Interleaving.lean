import Alicerce.Lib.Conduct
import Mathlib.Logic.Function.Basic

/-!
# Parties that share a world

Several parties, each with a state of its own, run programs one after another, and their calls meet
in one world, in any order.  What a call does to the world may depend on who makes it and on what it
has done in its program so far.

* `Party` is a party with the program it is at, and `Group` the parties with the world they share.
* `Group.Step`: one party takes one step, which is a `Move`: it starts a program, makes a call of
  it, or is done with it.
* `Group.Working`: every party that is at a program is somewhere in it.  It is kept by every step,
  so when every program a party may start obeys a rule, every event of the party does
  (`Group.Step.obeys`).
* `Group.view` and `Group.within` see the same run in another world.
* `Group.turn` and `Group.turns` compute a run by a schedule, for examples.
-/

set_option autoImplicit false

namespace Lib

variable {ι Call : Type} {Answer : Call → Type} {ε σ α W : Type}

/-- A party: its state and, while it is at a program, the events so far and what is left of it. -/
structure Party {Call : Type} (Answer : Call → Type) (ε σ α : Type) where
  own : σ
  log : List (Event Answer)
  rest : Option (Interaction Call Answer (Except ε α × σ))

/-- Parties and the world they share. -/
structure Group (ι : Type) {Call : Type} (Answer : Call → Type) (ε σ α W : Type) where
  world : W
  party : ι → Party Answer ε σ α

/-- What a party does next. -/
inductive Move (ι : Type) {Call : Type} (Answer : Call → Type) (ε σ α : Type)
  | start (i : ι) (m : Method Call Answer ε σ α)
  | act (i : ι) (event : Event Answer)
  | finish (i : ι) (x : Except ε α)

namespace Group

variable {s s' : Group ι Answer ε σ α W} {move : Move ι Answer ε σ α}
  {moves : List (Move ι Answer ε σ α)}
  {Env : ι → List (Event Answer) → W → Event Answer → W → Prop}
  {Startable : ι → Method Call Answer ε σ α → Prop} {i j : ι}

/-- The group in another world. -/
def within (s : Group ι Answer ε σ α W) (w : W) : Group ι Answer ε σ α W := { s with world := w }

@[simp] theorem within_world (w : W) : (s.within w).world = w := rfl

@[simp] theorem within_party (w : W) : (s.within w).party = s.party := rfl

/-- The group with its world seen in another way. -/
def view {V : Type} (f : V → W) (s : Group ι Answer ε σ α V) : Group ι Answer ε σ α W :=
  ⟨f s.world, s.party⟩

@[simp] theorem view_world {V : Type} (f : V → W) (s : Group ι Answer ε σ α V) :
    (s.view f).world = f s.world := rfl

@[simp] theorem view_party {V : Type} (f : V → W) (s : Group ι Answer ε σ α V) :
    (s.view f).party = s.party := rfl

variable [DecidableEq ι]

/-- The group with another party in the place of one. -/
def set (s : Group ι Answer ε σ α W) (i : ι) (p : Party Answer ε σ α) : Group ι Answer ε σ α W :=
  { s with party := Function.update s.party i p }

@[simp] theorem set_world (p : Party Answer ε σ α) : (s.set i p).world = s.world := rfl

@[simp] theorem set_party (p : Party Answer ε σ α) : (s.set i p).party i = p :=
  Function.update_self ..

theorem set_party_of_ne (h : j ≠ i) (p : Party Answer ε σ α) : (s.set i p).party j = s.party j :=
  Function.update_of_ne h ..

/-- One party takes one step. -/
inductive Step (Env : ι → List (Event Answer) → W → Event Answer → W → Prop)
    (Startable : ι → Method Call Answer ε σ α → Prop) :
    Group ι Answer ε σ α W → Move ι Answer ε σ α → Group ι Answer ε σ α W → Prop
  | start {s : Group ι Answer ε σ α W} {i : ι} {m : Method Call Answer ε σ α}
      (hidle : (s.party i).rest = none) (hm : Startable i m) :
      Step Env Startable s (.start i m)
        (s.set i ⟨(s.party i).own, [], some (m (s.party i).own)⟩)
  | act {s : Group ι Answer ε σ α W} {i : ι} {c : Call} {answer : Answer c} {w : W}
      {k : Answer c → Interaction Call Answer (Except ε α × σ)}
      (hrest : (s.party i).rest = some (.call c k))
      (hworld : Env i (s.party i).log s.world ⟨c, answer⟩ w) :
      Step Env Startable s (.act i ⟨c, answer⟩) ((s.within w).set i
        ⟨(s.party i).own, (s.party i).log ++ [⟨c, answer⟩], some (k answer)⟩)
  | finish {s : Group ι Answer ε σ α W} {i : ι} {x : Except ε α} {own : σ}
      (hrest : (s.party i).rest = some (.ret (x, own))) :
      Step Env Startable s (.finish i x) (s.set i ⟨own, [], none⟩)

/-- Every party that is at a program is somewhere in it. -/
def Working (Startable : ι → Method Call Answer ε σ α → Prop) (s : Group ι Answer ε σ α W) : Prop :=
  ∀ i u, (s.party i).rest = some u →
    ∃ m, Startable i m ∧ (m (s.party i).own).Leads (s.party i).log u

theorem Step.working (h : Step Env Startable s move s') (hs : s.Working Startable) :
    s'.Working Startable := by
  intro j u hj
  cases h with
  | @start i m hidle hm =>
    by_cases hij : j = i
    · subst hij
      rw [set_party] at hj ⊢
      exact ⟨m, hm, Option.some.inj hj ▸ .nil _⟩
    · rw [set_party_of_ne hij] at hj ⊢
      exact hs j u hj
  | @act i c answer w k hrest hworld =>
    by_cases hij : j = i
    · subst hij
      rw [set_party] at hj ⊢
      obtain ⟨m, hm, hleads⟩ := hs j _ hrest
      refine ⟨m, hm, Interaction.leads_append.mpr ⟨_, hleads, ?_⟩⟩
      obtain rfl := Option.some.inj hj
      exact Interaction.leads_call.mpr (.inr ⟨answer, [], rfl, .nil _⟩)
    · rw [set_party_of_ne hij] at hj ⊢
      exact hs j u hj
  | @finish i x own hrest =>
    by_cases hij : j = i
    · subst hij
      rw [set_party] at hj
      exact absurd hj (by simp)
    · rw [set_party_of_ne hij] at hj ⊢
      exact hs j u hj

/-- What a party does is in order when all that it may start is. -/
theorem Step.obeys {rule : ι → Rule Answer} {event : Event Answer}
    (hrule : ∀ i m r, Startable i m → m.Obeys (rule i) r) (hs : s.Working Startable)
    (h : Step Env Startable s (.act i event) s') : rule i (s.party i).log event := by
  cases h with
  | @act _ c answer w k hrest hworld =>
    obtain ⟨m, hm, hleads⟩ := hs i _ hrest
    refine hrule i m (s.party i).own hm (s.party i).log ⟨c, answer⟩ [] (k answer) ?_
    exact Interaction.leads_append.mpr
      ⟨_, hleads, Interaction.leads_call.mpr (.inr ⟨answer, [], rfl, .nil _⟩)⟩

/-- What a party ends with is what its program returns. -/
theorem Step.returns {x : Except ε α} (hs : s.Working Startable)
    (h : Step Env Startable s (.finish i x) s') :
    ∃ m own, Startable i m ∧ m.Returns (s.party i).own (s.party i).log x own := by
  cases h with
  | @finish _ _ own hrest =>
    obtain ⟨m, hm, hleads⟩ := hs i _ hrest
    exact ⟨m, own, hm, hleads⟩

/-! ## Taking turns -/

section Turns

variable {V : Type}

/-- A party takes its next step, with what a host makes of its call. -/
def turn (host : ι → List (Event Answer) → V → (c : Call) → Answer c × V) (i : ι)
    (s : Group ι Answer ε σ α V) : Group ι Answer ε σ α V × List (Move ι Answer ε σ α) :=
  match (s.party i).rest with
  | some (.call c k) =>
    let reply := host i (s.party i).log s.world c
    ((s.within reply.2).set i
      ⟨(s.party i).own, (s.party i).log ++ [⟨c, reply.1⟩], some (k reply.1)⟩, [.act i ⟨c, reply.1⟩])
  | some (.ret (x, own)) => (s.set i ⟨own, [], none⟩, [.finish i x])
  | _ => (s, [])

/-- The parties take turns as a schedule says. -/
def turns (host : ι → List (Event Answer) → V → (c : Call) → Answer c × V) :
    List ι → Group ι Answer ε σ α V → Group ι Answer ε σ α V × List (Move ι Answer ε σ α)
  | [], s => (s, [])
  | i :: schedule, s =>
    ((turns host schedule (turn host i s).1).1,
      (turn host i s).2 ++ (turns host schedule (turn host i s).1).2)

variable {host : ι → List (Event Answer) → V → (c : Call) → Answer c × V} {f : V → W}
  {s : Group ι Answer ε σ α V}
  {Env : ι → List (Event Answer) → W → Event Answer → W → Prop}
  {Startable : ι → Method Call Answer ε σ α → Prop}

/-- A turn at a call is that call. -/
theorem step_turn_call
    (hhost : ∀ i log v c, Env i log (f v) ⟨c, (host i log v c).1⟩ (f (host i log v c).2))
    {i : ι} {c : Call} {k : Answer c → Interaction Call Answer (Except ε α × σ)}
    (hrest : (s.party i).rest = some (.call c k)) :
    Step Env Startable (s.view f) (.act i ⟨c, (host i (s.party i).log s.world c).1⟩)
      ((turn host i s).1.view f) := by
  rw [turn, hrest]
  exact .act (s := s.view f) hrest (hhost i _ s.world c)

/-- A turn at the end of a program ends it. -/
theorem step_turn_ret {i : ι} {x : Except ε α} {own : σ}
    (hrest : (s.party i).rest = some (.ret (x, own))) :
    Step Env Startable (s.view f) (.finish i x) ((turn host i s).1.view f) := by
  rw [turn, hrest]
  exact .finish (s := s.view f) hrest

/-- A turn is a step, when the host keeps the law. -/
theorem steps_turn (hhost :
    ∀ i log v c, Env i log (f v) ⟨c, (host i log v c).1⟩ (f (host i log v c).2))
    (i : ι) : Steps (Step Env Startable) (s.view f) (turn host i s).2
      ((turn host i s).1.view f) := by
  rw [turn]
  split
  · rename_i c k hrest
    exact .cons (.act (s := s.view f) hrest (hhost i _ s.world c)) (.nil _)
  · rename_i x own hrest
    exact .cons (.finish (s := s.view f) hrest) (.nil _)
  · exact .nil _

/-- The other parties wait. -/
theorem turn_party_of_ne {i j : ι} (h : j ≠ i) : (turn host i s).1.party j = s.party j := by
  rw [turn]
  split
  · exact set_party_of_ne h _
  · exact set_party_of_ne h _
  · rfl

theorem turns_party_of_not_mem {j : ι} {schedule : List ι} (h : j ∉ schedule) :
    (turns host schedule s).1.party j = s.party j := by
  induction schedule generalizing s with
  | nil => rfl
  | cons i schedule ih =>
    rw [List.mem_cons, not_or] at h
    exact (ih h.2).trans (turn_party_of_ne h.1)

/-- Turns are a run, when the host keeps the law. -/
theorem steps_turns (hhost :
    ∀ i log v c, Env i log (f v) ⟨c, (host i log v c).1⟩ (f (host i log v c).2))
    (schedule : List ι) :
    Steps (Step Env Startable) (s.view f) (turns host schedule s).2
      ((turns host schedule s).1.view f) := by
  induction schedule generalizing s with
  | nil => exact .nil _
  | cons i schedule ih => exact Steps.append_iff.mpr ⟨_, steps_turn hhost i, ih⟩

end Turns

end Group

end Lib
