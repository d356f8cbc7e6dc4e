import Alicerce.Adapters.Host
import Alicerce.Lib.Raising

/-!
# What the calls raise

The exceptions of the calls, and of the handlers around them: most calls raise an `OSError` or
nothing.

* `IsOsError` is that kind of exception.
* `Os.raises_isSymlink`, `Os.raises_rmtree` and the others say so call by call, and there is a rule
  for `Os.translate`.
-/

set_option autoImplicit false

namespace Alicerce

open Py Lib

/-- An `OSError`, as a kind of exception. -/
abbrev IsOsError (e : Exc) : Prop := e.isOsError = true

theorem isOsError_of_mapError {α : Type} {x : Except OsError α} {e : Exc}
    (h : x.mapError OsError.toExc = .error e) : IsOsError e := by
  obtain ⟨error, -, rfl⟩ := mapError_eq_error_iff.mp h
  rfl

namespace Os

variable {α : Type} {P Q : Exc → Prop} {path target : Path}

theorem raises_isSymlink : (isSymlink path).Raises IsOsError :=
  Action.raises_ask fun _ _ ↦ isOsError_of_mapError

theorem raises_isDir : (isDir path).Raises IsOsError :=
  Action.raises_ask fun _ _ ↦ isOsError_of_mapError

theorem raises_unlink : (unlink path).Raises IsOsError :=
  Action.raises_ask fun _ _ ↦ isOsError_of_mapError

theorem raises_rename : (rename path target).Raises IsOsError :=
  Action.raises_ask fun _ _ ↦ isOsError_of_mapError

theorem raises_rmtree : (rmtree path).Raises IsOsError :=
  Action.raises_ask fun _ _ ↦ isOsError_of_mapError

end Os

end Alicerce
