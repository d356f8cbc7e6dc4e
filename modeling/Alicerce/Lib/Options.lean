import Mathlib.Data.List.Basic

/-!
# Command lines of options and operands

A command line is read from the left: a word in the position of an option is an option, and takes as
many of the words behind it as its arity says, whatever they look like; the word that ends the
options ends them only in the position of an option.  What follows is the command.

* `OptionGrammar` is what a reader knows, `OptionGrammar.parse` how it reads, and `print` the line
  of some options and a command.
* `WellFormed`: each option has as many operands as it takes.
* `parse_print`: a line that was printed from such options is read back as these options, and the
  command behind them is not looked at.
* `operandsOf` collects the operands an option is given, each time it is.
-/

set_option autoImplicit false

namespace Lib

/-- How a command line is read. -/
structure OptionGrammar (T : Type) where
  /-- How many operands an option takes. -/
  arity : T → Option ℕ
  /-- What ends the options. -/
  stop : T
  /-- Whether a word that is no option is refused, and does not start the command. -/
  refused : T → Bool

namespace OptionGrammar

variable {T : Type} [DecidableEq T] (g : OptionGrammar T)

/-- The options with their operands, and the command. -/
def parse : List T → Option (List (T × List T) × List T)
  | [] => some ([], [])
  | word :: words =>
    if word = g.stop then some ([], words)
    else
      match g.arity word with
      | none => if g.refused word then none else some ([], word :: words)
      | some n =>
        if words.length < n then none
        else (parse (words.drop n)).map fun r ↦ ((word, words.take n) :: r.1, r.2)
termination_by words => words.length
decreasing_by
  rw [List.length_drop, List.length_cons]
  omega

/-- The command line of some options and a command. -/
def print (options : List (T × List T)) (command : List T) : List T :=
  (options.flatMap fun option ↦ option.1 :: option.2) ++ g.stop :: command

/-- Each option has as many operands as it takes. -/
def WellFormed (options : List (T × List T)) : Prop :=
  ∀ option ∈ options, option.1 ≠ g.stop ∧ g.arity option.1 = some option.2.length

variable {g} {options options' : List (T × List T)} {command : List T}

omit [DecidableEq T] in
theorem WellFormed.append (h : g.WellFormed options) (h' : g.WellFormed options') :
    g.WellFormed (options ++ options') := fun option hoption ↦
  (List.mem_append.mp hoption).elim (h option) (h' option)

/-- **What was printed is read back**, whatever the operands and the command look like. -/
theorem parse_print (h : g.WellFormed options) :
    g.parse (g.print options command) = some (options, command) := by
  induction options with
  | nil => rw [print, List.flatMap_nil, List.nil_append, parse, if_pos rfl]
  | cons option options ih =>
    obtain ⟨name, operands⟩ := option
    obtain ⟨hstop, harity⟩ := h (name, operands) List.mem_cons_self
    have hrest := ih fun option hoption ↦ h option (List.mem_cons_of_mem _ hoption)
    have hline : g.print ((name, operands) :: options) command =
        name :: (operands ++ g.print options command) := by
      rw [print, print, List.flatMap_cons, List.cons_append, List.cons_append, List.append_assoc]
    have hlength : ¬(operands ++ g.print options command).length < operands.length := by
      rw [List.length_append]
      omega
    rw [hline, parse, if_neg hstop, harity]
    dsimp only
    rw [if_neg hlength, List.drop_left, List.take_left, hrest]
    rfl

/-! ### Options by their name -/

/-- The operands an option is given, each time it is. -/
def operandsOf (name : T) (options : List (T × List T)) : List (List T) :=
  (options.filter fun option ↦ option.1 = name).map Prod.snd

theorem operandsOf_append (name : T) (options options' : List (T × List T)) :
    operandsOf name (options ++ options') = operandsOf name options ++
      operandsOf name options' := by
  rw [operandsOf, List.filter_append, List.map_append, ← operandsOf, ← operandsOf]

theorem operandsOf_eq_nil {name : T} (h : ∀ option ∈ options, option.1 ≠ name) :
    operandsOf name options = [] := by
  rw [operandsOf, List.map_eq_nil_iff, List.filter_eq_nil_iff]
  intro option hoption
  rw [decide_eq_true_iff]
  exact h option hoption

theorem operandsOf_of_forall {name : T} (h : ∀ option ∈ options, option.1 = name) :
    operandsOf name options = options.map Prod.snd := by
  rw [operandsOf, List.filter_eq_self.mpr]
  intro option hoption
  exact decide_eq_true (h option hoption)

end OptionGrammar

end Lib
