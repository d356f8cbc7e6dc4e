import Alicerce.Domain.State
import Alicerce.Py.JsonCanonical
import Alicerce.Py.JsonUtf8

/-!
# Canonical JSON serialization of run state

The three codecs of the trusted local run state: identities, checkpoints and transitions, each as
one JSON object with a format name and a version.

* `identityPayload`, `checkpointPayload` and `transitionPayload` are the objects, and `dumpObject`
  writes one.
* `identityFromPayload`, `checkpointFromPayload` and `transitionFromPayload` read an object by key,
  and do not look at how it was spelled.
* `loadObject` reads the bytes; that only the canonical spelling is accepted is due to it, since it
  prints what it has read and compares.
* `serializeRunIdentity`, `deserializeRunIdentity` and so on are the codecs.
-/

set_option autoImplicit false

namespace Alicerce

open Py

variable [Interpreter]

/-! ## Printing and reading objects -/

/-- `STATE_FORMAT_VERSION`. -/
def stateFormatVersion : ℤ := 1

/-- `_IDENTITY_FORMAT`. -/
def identityFormat : Text := "alicerce.run_identity"

/-- `_CHECKPOINT_FORMAT`. -/
def checkpointFormat : Text := "alicerce.run_checkpoint"

/-- `_TRANSITION_FORMAT`. -/
def transitionFormat : Text := "alicerce.lifecycle_transition"

/-- `_duplicate_rejecting_object`, with the `dict` built so far.  What the hooks raise is a
`StateSerializationError`, here its message. -/
def duplicateRejectingObject (result : List (Text × Json)) :
    List (Text × Json) → Except Text (List (Text × Json))
  | [] => .ok result
  | (key, value) :: pairs =>
    if key ∈ result.map Prod.fst then .error (text "duplicate JSON key: " ++ key)
    else duplicateRejectingObject (result ++ [(key, value)]) pairs

/-- `_reject_json_constant`. -/
def rejectJsonConstant (value : Text) : Except Text Json :=
  .error (text "nonstandard JSON constant: " ++ value)

/-- The hooks `_load` decodes with. -/
def stateHooks : Hooks Text where
  objectPairs pairs := (duplicateRejectingObject [] pairs).map .obj
  parseConstant := rejectJsonConstant

/-- What `json.loads` raises, as an exception. -/
def loadsException : LoadsError Text → Exc
  | .jsonDecodeError => .jsonDecodeError
  | .valueError => .valueError "Exceeds the limit (4300 digits) for integer string conversion"
  | .recursionError => .recursionError
  | .hook message => .stateSerializationError message

/-- `json.loads` with the hooks of `_load`. -/
def jsonLoads (t : Text) : Except Exc Json :=
  match loads stateHooks t with
  | .ok v => .ok v
  | .error e => .error (loadsException e)

/-- `json.dumps`.  The message of its `ValueError` is lost in the handler below. -/
def jsonDumps (v : Json) : Except Exc Text :=
  match dumps v with
  | some t => .ok t
  | none => .error (.valueError [])

/-- `str.encode("utf-8")`. -/
def encodeText (t : Text) : Except Exc Bytes :=
  match encodeUtf8 t with
  | some b => .ok b
  | none => .error .unicodeEncodeError

/-- `bytes.decode("utf-8")`. -/
def decodeBytes (b : Bytes) : Except Exc Text :=
  match decodeUtf8 b with
  | some t => .ok t
  | none => .error .unicodeDecodeError

/-- `_dump`. -/
def dumpObject (value : List (Text × Json)) : Except Exc Bytes :=
  translate Exc.isTypeOrValueError
    (fun _ ↦ .stateSerializationError "state cannot be represented as canonical JSON") do
      encodeText (← jsonDumps (.obj value))

/-- `_load`. -/
def loadObject (data : Bytes) : Except Exc (List (Text × Json)) := do
  let value ← translate Exc.isDecodeError
    (fun _ ↦ .stateSerializationError "serialized state must be valid UTF-8 JSON") do
      jsonLoads (← decodeBytes data)
  match value with
  | .obj typed => do
    if (← dumpObject typed) = data then .ok typed
    else .error (.stateSerializationError "serialized state must use canonical JSON encoding")
  | _ => .error (.stateSerializationError "serialized state root must be an object")

/-! ## Reading one field -/

/-- `_object`: the members of an object that has exactly the expected keys. -/
def objectFields (value : Json) (name : String) (keys : List String) :
    Except Exc (List (Text × Json)) :=
  match value with
  | .obj typed =>
    if (∀ k ∈ typed.map Prod.fst, k ∈ keys.map text) ∧
        (∀ k ∈ keys.map text, k ∈ typed.map Prod.fst) then .ok typed
    else .error (.stateSerializationError (text name ++ text " has invalid fields"))
  | _ => .error (.stateSerializationError (text name ++ text " must be an object"))

/-- `payload[key]`. -/
def item (payload : List (Text × Json)) (key : String) : Except Exc Json :=
  match payload.lookup (text key) with
  | some v => .ok v
  | none => .error (.keyError key)

/-- `_text`. -/
def asText (value : Json) (name : String) : Except Exc Text :=
  match value with
  | .str s => .ok s
  | _ => .error (.stateSerializationError (text name ++ text " must be a string"))

/-- `_optional_text`. -/
def asOptionalText (value : Json) (name : String) : Except Exc (Option Text) :=
  match value with
  | .null => .ok none
  | v => (asText v name).map some

/-- `_integer`.  A `bool` is not an `int` here. -/
def asInteger (value : Json) (name : String) : Except Exc ℤ :=
  match value with
  | .int n => .ok n
  | _ => .error (.stateSerializationError (text name ++ text " must be an integer"))

/-- `value == text` for the value of a field. -/
def isText (value : Json) (t : Text) : Bool :=
  match value with
  | .str s => s == t
  | _ => false

/-- `_header`. -/
def header (payload : List (Text × Json)) (expectedFormat : Text) : Except Exc Unit := do
  if isText (← item payload "format") expectedFormat then
    if (← asInteger (← item payload "version") "version") = stateFormatVersion then .ok ()
    else .error (.stateSerializationError "serialized state has an unsupported version")
  else .error (.stateSerializationError "serialized state has an unexpected format")

/-- `_timestamp`.  The times of the domain are in UTC, so its own check cannot fail. -/
def timestamp (value : CivilTime) : Text := strftime value

/-- `_parse_timestamp`. -/
def parseTimestamp (value : Json) (name : String) : Except Exc CivilTime := do
  let t ← asText value name
  match strptime t with
  | none => .error (.stateSerializationError
      (text name ++ text " must be a canonical UTC timestamp"))
  | some parsed =>
    if timestamp parsed = t then .ok parsed
    else .error (.stateSerializationError
      (text name ++ text " must be a canonical UTC timestamp"))

/-! ## Identities -/

/-- `_identity_payload`. -/
def identityPayload (identity : RunIdentity) : List (Text × Json) :=
  [("baseline_sha", .str identity.baselineSha.value),
    ("contract_hash", .str identity.contractHash.value),
    ("contract_id", .str identity.contractId.value),
    ("contract_version", .str identity.contractVersion.value),
    ("created_at", .str (timestamp identity.createdAt)),
    ("format", .str identityFormat),
    ("policy_hash", .str identity.policyHash.value),
    ("run_id", .str identity.runId.value),
    ("version", .int stateFormatVersion)]

/-- The keys of an identity. -/
def identityKeys : List String :=
  ["baseline_sha", "contract_hash", "contract_id", "contract_version", "created_at", "format",
    "policy_hash", "run_id", "version"]

/-- `_identity_from_payload`. -/
def identityFromPayload (value : Json) : Except Exc RunIdentity := do
  let payload ← objectFields value "identity" identityKeys
  header payload identityFormat
  translate Exc.isTypeOrValueError
    (fun _ ↦ .stateSerializationError "identity contains invalid domain values") do
      let runId ← Checked.new _ (← asText (← item payload "run_id") "run_id")
      let contractId ← Checked.new _ (← asText (← item payload "contract_id") "contract_id")
      let contractVersion ←
        Checked.new _ (← asText (← item payload "contract_version") "contract_version")
      let contractHash ← Checked.new _ (← asText (← item payload "contract_hash") "contract_hash")
      let baselineSha ← Checked.new _ (← asText (← item payload "baseline_sha") "baseline_sha")
      let policyHash ← Checked.new _ (← asText (← item payload "policy_hash") "policy_hash")
      let createdAt ← parseTimestamp (← item payload "created_at") "created_at"
      RunIdentity.new runId contractId contractVersion contractHash baselineSha policyHash
        (utc createdAt)

/-- `serialize_run_identity`. -/
def serializeRunIdentity (identity : RunIdentity) : Except Exc Bytes :=
  dumpObject (identityPayload identity)

/-- `deserialize_run_identity`. -/
def deserializeRunIdentity (data : Bytes) : Except Exc RunIdentity := do
  identityFromPayload (.obj (← loadObject data))

/-! ## Checkpoints -/

/-- The payload of an optional final state. -/
def finalStateJson : Option FinalState → Json
  | none => .null
  | some f => .str f.value

/-- The payload of a checkpoint, around that of its identity. -/
def checkpointPayload (identity : Json) (lifecycle : RunLifecycle) : List (Text × Json) :=
  [("final_state", finalStateJson lifecycle.finalState),
    ("format", .str checkpointFormat),
    ("identity", identity),
    ("revision", .int lifecycle.revision),
    ("state", .str lifecycle.state.value),
    ("updated_at", .str (timestamp lifecycle.updatedAt)),
    ("version", .int stateFormatVersion)]

/-- The keys of a checkpoint. -/
def checkpointKeys : List String :=
  ["final_state", "format", "identity", "revision", "state", "updated_at", "version"]

/-- `serialize_checkpoint`. -/
def serializeCheckpoint (checkpoint : RunCheckpoint) : Except Exc Bytes :=
  dumpObject (checkpointPayload (.obj (identityPayload checkpoint.identity)) checkpoint.lifecycle)

/-- The body of `deserialize_checkpoint`, from the loaded object on. -/
def checkpointFromPayload (value : Json) : Except Exc RunCheckpoint := do
  let payload ← objectFields value "checkpoint" checkpointKeys
  header payload checkpointFormat
  translate Exc.isTypeOrValueError
    (fun _ ↦ .stateSerializationError "checkpoint contains invalid domain values") do
      let identity ← identityFromPayload (← item payload "identity")
      let state ← LifecycleState.new (← asText (← item payload "state") "state")
      let revision ← asInteger (← item payload "revision") "revision"
      let updatedAt ← parseTimestamp (← item payload "updated_at") "updated_at"
      let finalState ← asOptionalText (← item payload "final_state") "final_state"
      let lifecycle ← RunLifecycle.new identity.runId state revision (utc updatedAt) finalState
      RunCheckpoint.new identity lifecycle

/-- `deserialize_checkpoint`. -/
def deserializeCheckpoint (data : Bytes) : Except Exc RunCheckpoint := do
  checkpointFromPayload (.obj (← loadObject data))

/-! ## Transitions -/

/-- The payload of a transition. -/
def transitionPayload (transition : LifecycleTransition) : List (Text × Json) :=
  [("actor", .str transition.actor.value),
    ("final_state", finalStateJson transition.finalState),
    ("format", .str transitionFormat),
    ("from_state", .str transition.fromState.value),
    ("occurred_at", .str (timestamp transition.occurredAt)),
    ("revision", .int transition.revision),
    ("run_id", .str transition.runId.value),
    ("to_state", .str transition.toState.value),
    ("version", .int stateFormatVersion)]

/-- The keys of a transition. -/
def transitionKeys : List String :=
  ["actor", "final_state", "format", "from_state", "occurred_at", "revision", "run_id", "to_state",
    "version"]

/-- `serialize_transition`. -/
def serializeTransition (transition : LifecycleTransition) : Except Exc Bytes :=
  dumpObject (transitionPayload transition)

/-- The body of `deserialize_transition`, from the loaded object on. -/
def transitionFromPayload (value : Json) : Except Exc LifecycleTransition := do
  let payload ← objectFields value "transition" transitionKeys
  header payload transitionFormat
  translate Exc.isTypeOrValueError
    (fun _ ↦ .stateSerializationError "transition contains invalid domain values") do
      let runId ← Checked.new _ (← asText (← item payload "run_id") "run_id")
      let revision ← asInteger (← item payload "revision") "revision"
      let fromState ← LifecycleState.new (← asText (← item payload "from_state") "from_state")
      let toState ← LifecycleState.new (← asText (← item payload "to_state") "to_state")
      let occurredAt ← parseTimestamp (← item payload "occurred_at") "occurred_at"
      let actor ← Checked.new _ (← asText (← item payload "actor") "actor")
      let finalState ← asOptionalText (← item payload "final_state") "final_state"
      LifecycleTransition.new runId revision fromState toState (utc occurredAt) actor finalState

/-- `deserialize_transition`. -/
def deserializeTransition (data : Bytes) : Except Exc LifecycleTransition := do
  transitionFromPayload (.obj (← loadObject data))

end Alicerce
