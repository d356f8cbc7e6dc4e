import Alicerce.Errors
import Alicerce.Py.DateTime
import Alicerce.Py.Except

/-!
# The identity of a run

The immutable values that bind one run to its trusted inputs.

* `requireText` and `requirePattern` are the two checks of a text: it is non-empty and has no
  surrounding whitespace, and for all but the contract's id and version it also has the shape of a
  pattern.
* `Checked check` is the type of the texts that pass a check; its values cannot be built otherwise.
* `RunId`, `ContractId`, `ContractVersion`, `ContractHash`, `BaselineSha` and `PolicyHash` are the
  six texts.
* `RunIdentity` is the identity of a run, with a time whose zone is UTC (`requireUtc`).

What a type annotation promises and `isinstance` re-checks is promised by the types here, so the
`TypeError`s of `_require_instance` have no counterpart.
-/

set_option autoImplicit false

namespace Alicerce

open Py

/-! ## Checked texts -/

/-- `_require_text`. -/
def requireText (name : String) (value : Text) : Except Exc Text :=
  if value = [] ∨ value ≠ strip value then
    .error (.valueError (text name ++ " must be non-empty and have no surrounding whitespace"))
  else .ok value

/-- `_require_pattern`. -/
def requirePattern (name : String) (pattern : Text → Bool) (value : Text) : Except Exc Text := do
  let t ← requireText name value
  if pattern t then .ok t else .error (.valueError (text name ++ " has an invalid format"))

/-- A frozen wrapper around a text whose constructor runs a check. -/
@[ext]
structure Checked (check : Text → Except Exc Text) where
  value : Text
  /-- The check passed. -/
  valid : (check value).isOk = true
deriving DecidableEq

namespace Checked

variable {check : Text → Except Exc Text}

/-- The constructor. -/
def new (check : Text → Except Exc Text) (value : Text) : Except Exc (Checked check) :=
  match h : check value with
  | .ok _ => .ok ⟨value, by rw [h]; rfl⟩
  | .error e => .error e

/-- What is accepted is wrapped as it is. -/
theorem new_eq_ok_iff {value : Text} {x : Checked check} :
    new check value = .ok x ↔ x.value = value := by
  constructor
  · intro h
    rw [new] at h
    split at h
    · rw [← Except.ok.inj h]
    · exact absurd h (by simp)
  · rintro rfl
    rw [new]
    split
    · rfl
    · rename_i e he
      have hvalid := x.valid
      rw [he] at hvalid
      exact absurd hvalid (by simp [Except.isOk, Except.toBool])

@[simp] theorem new_value (x : Checked check) : new check x.value = .ok x :=
  new_eq_ok_iff.mpr rfl

theorem new_eq_error_iff {value : Text} {e : Exc} :
    new check value = .error e ↔ check value = .error e := by
  rw [new]
  split
  · rename_i he; simp [he]
  · rename_i he; simp [he]

end Checked

theorem requireText_isOk_iff {name : String} {value : Text} :
    (requireText name value).isOk = true ↔ value ≠ [] ∧ value = strip value := by
  rw [requireText]
  split
  · rename_i h
    exact ⟨fun h' ↦ absurd h' (by simp [Except.isOk, Except.toBool]),
      fun h' ↦ absurd h (by rw [not_or]; exact ⟨h'.1, fun hne ↦ hne h'.2⟩)⟩
  · rename_i h
    rw [not_or, not_not] at h
    exact ⟨fun _ ↦ h, fun _ ↦ rfl⟩

theorem pattern_of_requirePattern {name : String} {pattern : Text → Bool} {value : Text}
    (h : (requirePattern name pattern value).isOk = true) : pattern value = true := by
  rw [requirePattern, requireText] at h
  split at h
  · exact absurd h (by simp [Except.isOk, Except.toBool])
  · rw [ok_bind] at h
    split at h
    · assumption
    · exact absurd h (by simp [Except.isOk, Except.toBool])

/-! ## Patterns -/

/-- `[A-Za-z0-9]`. -/
def alphanumeric : CharClass := ((range 'A' 'Z').or (range 'a' 'z')).or (range '0' '9')

/-- `[A-Za-z0-9][A-Za-z0-9._-]{0,127}\Z`. -/
def runIdPattern : Text → Bool := matchesHeadTail alphanumeric (alphanumeric.or (oneOf "._-")) 127

/-- `[0-9a-f]`. -/
def lowerHex : CharClass := (range '0' '9').or (range 'a' 'f')

/-- `[0-9a-f]{64}\Z`. -/
def sha256Pattern : Text → Bool := matchesExactly lowerHex 64

/-- `(?:[0-9a-f]{40}|[0-9a-f]{64})\Z`. -/
def baselineShaPattern (t : Text) : Bool :=
  matchesExactly lowerHex 40 t || matchesExactly lowerHex 64 t

theorem alphanumeric_ascii : alphanumeric.Ascii :=
  ((range_ascii (by decide)).or (range_ascii (by decide))).or (range_ascii (by decide))

theorem lowerHex_ascii : lowerHex.Ascii := (range_ascii (by decide)).or (range_ascii (by decide))

/-! ## The wrappers -/

/-- Opaque, path-safe identifier for one run. -/
abbrev RunId := Checked (requirePattern "run_id" runIdPattern)

/-- Semantic wrapper for a canonical contract identifier. -/
abbrev ContractId := Checked (requireText "contract_id")

/-- Semantic wrapper for a canonical contract version. -/
abbrev ContractVersion := Checked (requireText "contract_version")

/-- Lowercase SHA-256 digest of canonical contract bytes. -/
abbrev ContractHash := Checked (requirePattern "contract_hash" sha256Pattern)

/-- Complete 40- or 64-character baseline object identifier. -/
abbrev BaselineSha := Checked (requirePattern "baseline_sha" baselineShaPattern)

/-- Lowercase SHA-256 digest of the trusted policy bundle. -/
abbrev PolicyHash := Checked (requirePattern "policy_hash" sha256Pattern)

theorem RunId.encodable (x : RunId) : Encodable x.value :=
  encodable_of_matchesHeadTail alphanumeric_ascii
    (alphanumeric_ascii.or (oneOf_ascii (by decide))) (pattern_of_requirePattern x.valid)

theorem encodable_of_sha256 {name : String} (x : Checked (requirePattern name sha256Pattern)) :
    Encodable x.value :=
  encodable_of_matchesExactly lowerHex_ascii (pattern_of_requirePattern x.valid)

theorem BaselineSha.encodable (x : BaselineSha) : Encodable x.value := by
  have h := pattern_of_requirePattern x.valid
  rw [baselineShaPattern, Bool.or_eq_true] at h
  exact h.elim (encodable_of_matchesExactly lowerHex_ascii)
    (encodable_of_matchesExactly lowerHex_ascii)

/-! ## The identity -/

/-- `_require_utc`: the civil time of a `datetime` whose zone is `UTC` itself. -/
def requireUtc (name : String) (value : DateTime) : Except Exc CivilTime :=
  if value.tzinfo = .utc then .ok value.civil
  else .error (.valueError (text name ++ " must use UTC timezone"))

/-- The `datetime` in UTC of a civil time. -/
def utc (t : CivilTime) : DateTime := ⟨t, .utc⟩

@[simp] theorem requireUtc_utc (name : String) (t : CivilTime) :
    requireUtc name (utc t) = .ok t := rfl

theorem requireUtc_eq_ok_iff {name : String} {value : DateTime} {t : CivilTime} :
    requireUtc name value = .ok t ↔ value = utc t := by
  obtain ⟨civil, tzinfo⟩ := value
  rw [requireUtc, utc, DateTime.mk.injEq]
  split
  · rename_i h; simp [show tzinfo = .utc from h]
  · rename_i h; simp [show tzinfo ≠ .utc from h]

/-- Immutable binding between a run and its trusted inputs. -/
@[ext]
structure RunIdentity where
  runId : RunId
  contractId : ContractId
  contractVersion : ContractVersion
  contractHash : ContractHash
  baselineSha : BaselineSha
  policyHash : PolicyHash
  /-- In UTC. -/
  createdAt : CivilTime
deriving DecidableEq

/-- The constructor. -/
def RunIdentity.new (runId : RunId) (contractId : ContractId) (contractVersion : ContractVersion)
    (contractHash : ContractHash) (baselineSha : BaselineSha) (policyHash : PolicyHash)
    (createdAt : DateTime) : Except Exc RunIdentity := do
  let createdAt ← requireUtc "created_at" createdAt
  .ok ⟨runId, contractId, contractVersion, contractHash, baselineSha, policyHash, createdAt⟩

/-- The identity of a run under a given contract. -/
def storeIdentity (contractId : ContractId) : RunIdentity where
  runId := ⟨"run-store", by decide⟩
  contractId := contractId
  contractVersion := ⟨"0.1.2", by decide⟩
  contractHash := ⟨List.replicate 64 (.scalar 'a'), by decide⟩
  baselineSha := ⟨List.replicate 40 (.scalar 'b'), by decide⟩
  policyHash := ⟨List.replicate 64 (.scalar 'c'), by decide⟩
  createdAt := ⟨2026, 7, 19, 21, 0, 0, 0, by decide⟩

/-- The id of a contract. -/
def qualityLoop : ContractId := ⟨"quality-loop", by decide⟩

/-- A lone surrogate passes the check of a contract's id. -/
def surrogateContract : ContractId := ⟨[.surrogate 0], by decide⟩

end Alicerce
