import Alicerce.Py.Text

/-!
# The exceptions of the package

One type for every exception class that can travel through the modelled code, with what it carries:
the typed cause of the package's own errors, and the message otherwise.

* `StateStoreErrorCause`, `WorkspaceErrorCause`, `CommandExecutionErrorCause` and the others are the
  typed causes, one enumeration of the source each.
* `Exc` is an exception.  Of `OSError` it keeps which of the classes it is that some `except` clause
  names (`OsErrorKind`).
* `except` clauses name classes, and a class catches its subclasses: `Exc.isValueError`,
  `Exc.isRuntimeError`, `Exc.isOsError` and the predicates beside them are the clauses of the
  source.
-/

set_option autoImplicit false

namespace Alicerce

open Py

/-! ## Typed causes -/

/-- Typed causes for rejected lifecycle operations. -/
inductive LifecycleErrorCause
  | invalidTransition
  | terminalState
  | timeRegression
  | finalStateRequired
  | finalStateForbidden
deriving DecidableEq

/-- Typed causes for rejected checkpoints and state updates. -/
inductive StateInvariantCause
  | runMismatch
  | timeRegression
  | revisionMismatch
  | stateMismatch
  | eventMismatch
deriving DecidableEq

/-- Stable operational causes exposed by state-store implementations. -/
inductive StateStoreErrorCause
  | alreadyExists
  | notFound
  | conflict
  | corrupt
  | storageFailure
deriving DecidableEq

/-- Stable reasons that trusted policy denies a command, in the order they are checked. -/
inductive CommandAuthorizationErrorCause
  | policyHashMismatch
  | actionDenied
  | executableDenied
  | argumentsDenied
  | workingDirectoryDenied
  | environmentDenied
  | limitExceeded
deriving DecidableEq

/-- Stable failures reported by an adapter-private sandbox backend. -/
inductive SandboxErrorCause
  | spawnFailed
  | cleanupFailed
  | isolationFailure
deriving DecidableEq

/-- Stable operational causes exposed by workspace implementations. -/
inductive WorkspaceErrorCause
  | alreadyExists
  | notFound
  | conflict
  | isolationFailure
  | storageFailure
deriving DecidableEq

/-- Stable operational failures exposed by command executors. -/
inductive CommandExecutionErrorCause
  | policyDenied
  | workspaceNotFound
  | executableUnavailable
  | spawnFailed
  | cleanupFailed
  | isolationFailure
deriving DecidableEq

/-- Stable failure causes exposed by the controlled Git primitive. -/
inductive GitCliErrorCause
  | invalidConfiguration
  | invalidPath
  | destinationExists
  | timeout
  | outputLimit
  | commandFailed
  | baselineMismatch
deriving DecidableEq

/-- Internal fail-closed causes for contract binding. -/
inductive ContractBindingCause
  | invalidUtf8
  | invalidJson
  | invalidDocument
  | invalidContract
  | bindingMismatch
deriving DecidableEq

/-- Stable causes that prevent trusted continuation of a persisted run. -/
inductive ResumeErrorCause
  | notFound
  | runMismatch
  | contractMismatch
  | baselineMismatch
  | policyMismatch
  | terminalRun
deriving DecidableEq

/-! ## Exceptions -/

/-- The subclasses of `OSError` some `except` clause names. -/
inductive OsErrorKind
  | blocking
  | processLookup
  | permission
  | other
deriving DecidableEq

/-- An exception. -/
inductive Exc
  | typeError (message : Text)
  | valueError (message : Text)
  | keyError (key : Text)
  | overflowError (message : Text)
  | recursionError
  | unicodeEncodeError
  | unicodeDecodeError
  | jsonDecodeError
  | stateSerializationError (message : Text)
  | lifecycleError (cause : LifecycleErrorCause) (detail : Text)
  | stateInvariantError (cause : StateInvariantCause) (detail : Text)
  | stateStoreError (cause : StateStoreErrorCause) (detail : Text)
  /-- `sqlite3.Error` and its subclasses. -/
  | sqliteError (message : Text)
  | osError (kind : OsErrorKind) (message : Text)
  | runtimeError (message : Text)
  /-- `subprocess.TimeoutExpired`, the `SubprocessError` that is not an `OSError`. -/
  | timeoutExpired
  | evidenceSerializationError (message : Text)
  | commandAuthorizationError (cause : CommandAuthorizationErrorCause) (detail : Text)
  | sandboxError (cause : SandboxErrorCause) (detail : Text)
  | workspaceError (cause : WorkspaceErrorCause) (detail : Text)
  | commandExecutionError (cause : CommandExecutionErrorCause) (detail : Text)
  | gitCliError (cause : GitCliErrorCause) (detail : Text)
  | contractBindingError (cause : ContractBindingCause) (detail : Text)
  | resumeError (cause : ResumeErrorCause) (detail : Text)
deriving DecidableEq

namespace Exc

/-- `except ValueError`.  The errors of Unicode and of JSON are `ValueError`s, and so are the
package's own `StateSerializationError`, `LifecycleError` and `StateInvariantError`, and
`EvidenceSerializationError` and `ContractBindingError`. -/
def isValueError : Exc → Bool
  | valueError _ | unicodeEncodeError | unicodeDecodeError | jsonDecodeError
  | stateSerializationError _ | lifecycleError _ _ | stateInvariantError _ _
  | evidenceSerializationError _ | contractBindingError _ _ => true
  | _ => false

/-- `except (TypeError, ValueError)`. -/
def isTypeOrValueError : Exc → Bool
  | typeError _ => true
  | e => e.isValueError

/-- `except (UnicodeDecodeError, json.JSONDecodeError)`. -/
def isDecodeError : Exc → Bool
  | unicodeDecodeError | jsonDecodeError => true
  | _ => false

/-- `except StateStoreError`. -/
def isStateStoreError : Exc → Bool
  | stateStoreError _ _ => true
  | _ => false

/-- `except sqlite3.Error`. -/
def isSqliteError : Exc → Bool
  | sqliteError _ => true
  | _ => false

/-- `except OSError`. -/
def isOsError : Exc → Bool
  | osError _ _ => true
  | _ => false

/-- `except BlockingIOError`. -/
def isBlockingError : Exc → Bool
  | osError .blocking _ => true
  | _ => false

/-- `except SubprocessError`. -/
def isSubprocessError : Exc → Bool
  | timeoutExpired => true
  | _ => false

/-- `except RuntimeError`.  The package's own errors of the adapters are `RuntimeError`s, and so is
`RecursionError`. -/
def isRuntimeError : Exc → Bool
  | runtimeError _ | recursionError | stateStoreError _ _ | commandAuthorizationError _ _
  | sandboxError _ _ | workspaceError _ _ | commandExecutionError _ _ | gitCliError _ _
  | resumeError _ _ => true
  | _ => false

/-- `except CommandAuthorizationError`. -/
def isCommandAuthorizationError : Exc → Bool
  | commandAuthorizationError _ _ => true
  | _ => false

/-- `except SandboxError`. -/
def isSandboxError : Exc → Bool
  | sandboxError _ _ => true
  | _ => false

/-- `except WorkspaceError`. -/
def isWorkspaceError : Exc → Bool
  | workspaceError _ _ => true
  | _ => false

/-- `except CommandExecutionError`. -/
def isCommandExecutionError : Exc → Bool
  | commandExecutionError _ _ => true
  | _ => false

/-- `except GitCliError`. -/
def isGitCliError : Exc → Bool
  | gitCliError _ _ => true
  | _ => false

end Exc

end Alicerce
