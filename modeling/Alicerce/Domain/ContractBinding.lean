import Alicerce.Domain.RunIdentity
import Alicerce.Py.JsonUtf8
import Alicerce.Py.Sha256

/-!
# Contract bindings

The binding between the exact bytes of a contract and the canonical model read from them.

* `LoopSchemas` is what the pinned schemas package contributes: the canonical type of contracts, its
  validator and its reader.
* `parseContract` decodes and validates the bytes, with the hooks `contractHooks`, and
  `hashContract` is their digest.
* `BoundContract` cannot be built unless its three parts correspond.  So its bytes determine the
  other two (`BoundContract.eq_of_sourceBytes`), and, short of a collision, its hash determines its
  bytes (`sourceBytes_eq_of_hash`).
* `BoundContract.fromJsonBytes` is how one is made, and `BoundContract.fromJsonBytes_eq_ok_iff` says
  that all of them are made that way.
-/

set_option autoImplicit false

namespace Alicerce

open Py

/-- The schemas package, and the texts of exceptions that are not the package's own. -/
class LoopSchemas [Interpreter] where
  /-- `Contract`. -/
  Contract : Type
  decEq : DecidableEq Contract
  id : Contract → Text
  version : Contract → Text
  /-- `validate`: the errors of a document. -/
  validate : List (Text × Json) → Except Exc (List Text)
  /-- `Contract.from_dict`. -/
  fromDict : List (Text × Json) → Except Exc Contract
  /-- `str(error)`. -/
  errorText : Exc → Text

theorem isSpace_of_lowerHex {c : CodePoint} (h : lowerHex c = true) : c.isSpace = false := by
  rw [lowerHex, CharClass.or, Bool.or_eq_true] at h
  rcases h with h | h
  · exact isSpace_of_isDigit h
  · simp only [range, Bool.and_eq_true, decide_eq_true_eq] at h
    have hlow : 'a'.toNat = 97 := rfl
    have hhigh : 'f'.toNat = 102 := rfl
    simp [CodePoint.isSpace]
    omega

/-- The text of a digest passes the check of a contract's hash. -/
theorem requirePattern_hexdigest (source : Bytes) :
    (requirePattern "contract_hash" sha256Pattern (hexdigest source)).isOk = true := by
  have hmatch : sha256Pattern (hexdigest source) = true := matchesExactly_hexdigest source
  have hspace : ∀ c ∈ hexdigest source, c.isSpace = false := by
    rw [sha256Pattern, matchesExactly, Bool.and_eq_true, List.all_eq_true] at hmatch
    exact fun c hc ↦ isSpace_of_lowerHex (hmatch.2 c hc)
  have hne : hexdigest source ≠ [] := List.ne_nil_of_length_pos (by
    rw [length_hexdigest]
    decide)
  rw [requirePattern, requireText, if_neg (by
    rw [strip_eq_self hspace, not_or]
    exact ⟨hne, not_not.mpr rfl⟩), ok_bind, if_pos hmatch]
  rfl

section
variable [Interpreter]

/-- `_object_without_duplicates`, with the `dict` built so far. -/
def objectWithoutDuplicates (result : List (Text × Json)) :
    List (Text × Json) → Except Text (List (Text × Json))
  | [] => .ok result
  | (key, value) :: pairs =>
    if key ∈ result.map Prod.fst then .error (text "duplicate object key: " ++ key)
    else objectWithoutDuplicates (result ++ [(key, value)]) pairs

/-- `_reject_nonfinite_number`. -/
def rejectNonfiniteNumber (value : Text) : Except Text Json :=
  .error (text "non-finite JSON number: " ++ value)

/-- The hooks a contract is decoded with.  What they raise is a `ValueError`, here its message. -/
def contractHooks : Hooks Text where
  objectPairs pairs := (objectWithoutDuplicates [] pairs).map .obj
  parseConstant := rejectNonfiniteNumber

/-- Without a repeated key the hook builds the plain `dict`. -/
theorem objectWithoutDuplicates_of_nodup {pairs : List (Text × Json)} :
    ∀ {result : List (Text × Json)}, ((result ++ pairs).map Prod.fst).Nodup →
      objectWithoutDuplicates result pairs = .ok (result ++ pairs) := by
  induction pairs with
  | nil => intro result _; rw [objectWithoutDuplicates, List.append_nil]
  | cons p pairs ih =>
    intro result h
    have hkey : p.1 ∉ result.map Prod.fst := by
      rw [List.map_append, List.nodup_append] at h
      exact fun hmem ↦ h.2.2 _ hmem _ (List.mem_map_of_mem (List.mem_cons_self ..)) rfl
    rw [List.append_cons] at h ⊢
    rw [objectWithoutDuplicates, if_neg hkey]
    exact ih h

theorem contractHooks_plain : contractHooks.Plain := by
  intro members hnd
  change (objectWithoutDuplicates [] members).map Json.obj = _
  rw [objectWithoutDuplicates_of_nodup (by rwa [List.nil_append]), List.nil_append]
  rfl

variable [LoopSchemas]

instance : DecidableEq LoopSchemas.Contract := LoopSchemas.decEq

/-- What the handler around `json.loads` makes of its errors. -/
def invalidJson : LoadsError Text → Exc
  | .jsonDecodeError => .contractBindingError .invalidJson (LoopSchemas.errorText .jsonDecodeError)
  | .valueError => .contractBindingError .invalidJson (LoopSchemas.errorText
      (.valueError "Exceeds the limit (4300 digits) for integer string conversion"))
  | .recursionError => .recursionError
  | .hook message => .contractBindingError .invalidJson message

/-- `except (KeyError, TypeError, ValueError)`. -/
def isDocumentError : Exc → Bool
  | .keyError _ => true
  | e => e.isTypeOrValueError

/-- The handler around the validator and around the reader. -/
def invalidContract (e : Exc) : Exc :=
  .contractBindingError .invalidContract (LoopSchemas.errorText e)

/-- `source_bytes.decode("utf-8")`, with its handler. -/
def decodeSource (source : Bytes) : Except Exc Text :=
  match decodeUtf8 source with
  | some t => .ok t
  | none => .error (.contractBindingError .invalidUtf8 "contract source must be valid UTF-8")

/-- `json.loads`, with its handler. -/
def loadsContract (t : Text) : Except Exc Json :=
  match loads contractHooks t with
  | .ok v => .ok v
  | .error e => .error (invalidJson e)

/-- `_parse_contract`. -/
def parseContract (source : Bytes) : Except Exc LoopSchemas.Contract := do
  let text ← decodeSource source
  match ← loadsContract text with
  | .obj document => do
    let errors ← translate isDocumentError invalidContract (LoopSchemas.validate document)
    if errors ≠ [] then
      .error (.contractBindingError .invalidContract ((Py.text "; ").intercalate errors))
    else translate isDocumentError invalidContract (LoopSchemas.fromDict document)
  | _ => .error (.contractBindingError .invalidDocument "top-level JSON value must be an object")

/-- `_hash_contract`. -/
def hashContract (source : Bytes) : ContractHash :=
  ⟨hexdigest source, requirePattern_hexdigest source⟩

/-- Canonical contract proven to correspond to exact source bytes. -/
structure BoundContract where
  contract : LoopSchemas.Contract
  contractHash : ContractHash
  sourceBytes : Bytes
  parsed : parseContract sourceBytes = .ok contract
  hashed : hashContract sourceBytes = contractHash

/-- The constructor. -/
def BoundContract.new (contract : LoopSchemas.Contract) (contractHash : ContractHash)
    (sourceBytes : Bytes) : Except Exc BoundContract :=
  match h : parseContract sourceBytes with
  | .error e => .error e
  | .ok parsed =>
    if hne : parsed ≠ contract ∨ hashContract sourceBytes ≠ contractHash then
      .error (.contractBindingError .bindingMismatch
        "contract, hash, and source bytes do not correspond")
    else
      have heq := not_or.mp hne
      .ok ⟨contract, contractHash, sourceBytes, not_not.mp heq.1 ▸ h, not_not.mp heq.2⟩

/-- `from_json_bytes`, and `bind_contract`. -/
def BoundContract.fromJsonBytes (sourceBytes : Bytes) : Except Exc BoundContract := do
  let contract ← parseContract sourceBytes
  BoundContract.new contract (hashContract sourceBytes) sourceBytes

/-- **The bytes of a contract determine its binding.** -/
theorem BoundContract.eq_of_sourceBytes {b b' : BoundContract}
    (h : b.sourceBytes = b'.sourceBytes) : b = b' := by
  obtain ⟨contract, _, source, hp, rfl⟩ := b
  obtain ⟨contract', _, _, hp', rfl⟩ := b'
  obtain rfl : source = _ := h
  obtain rfl := Except.ok.inj (hp.symm.trans hp')
  rfl

/-- What is bound from bytes is a binding of these bytes, and every binding is made that way. -/
theorem BoundContract.fromJsonBytes_eq_ok_iff {source : Bytes} {b : BoundContract} :
    BoundContract.fromJsonBytes source = .ok b ↔ b.sourceBytes = source := by
  rw [fromJsonBytes, bind_eq_ok_iff]
  constructor
  · rintro ⟨contract, -, hnew⟩
    rw [new] at hnew
    split at hnew
    · exact absurd hnew (by simp)
    · split at hnew
      · exact absurd hnew (by simp)
      · rw [← Except.ok.inj hnew]
  · rintro rfl
    refine ⟨b.contract, b.parsed, ?_⟩
    rw [new]
    split
    · rename_i e he
      exact absurd (he.symm.trans b.parsed) (by simp)
    · rename_i parsed hparsed
      have heq := Except.ok.inj (hparsed.symm.trans b.parsed)
      rw [dif_neg (not_or.mpr ⟨not_not.mpr heq, not_not.mpr rfl⟩)]
      exact congrArg _ (BoundContract.eq_of_sourceBytes rfl)

/-- A document the schemas package accepts is bound from its text. -/
theorem BoundContract.exists_of_document {document : List (Text × Json)}
    {contract : LoopSchemas.Contract} (hc : (Json.obj document).Canonical)
    (hp : (Json.obj document).Printable) (he : (Json.obj document).Encodable)
    (hdepth : (Json.obj document).depth ≤ Interpreter.recursionLimit)
    (hvalid : LoopSchemas.validate document = .ok [])
    (hread : LoopSchemas.fromDict document = .ok contract) :
    ∃ source b, BoundContract.fromJsonBytes source = .ok b ∧ b.contract = contract := by
  obtain ⟨t, ht⟩ := Option.isSome_iff_exists.mp ((dumps_isSome_iff _).mpr hp)
  obtain ⟨source, hsource⟩ := Option.isSome_iff_exists.mp
    (encodeUtf8_isSome_iff.mpr ((encodable_dumps_iff _ ht hc).mpr he))
  have hparsed : parseContract source = .ok contract := by
    rw [parseContract, decodeSource, decodeUtf8_encodeUtf8 hsource, ok_bind, loadsContract,
      loads_dumps contractHooks_plain ht hc hdepth, ok_bind]
    simp only [hvalid, hread, Py.translate, ok_bind, ne_eq, not_true_eq_false, if_false]
  exact ⟨source, ⟨contract, hashContract source, source, hparsed, rfl⟩,
    BoundContract.fromJsonBytes_eq_ok_iff.mpr rfl, rfl⟩

/-- **Equal hashes mean equal bytes, or a collision.** -/
theorem sourceBytes_eq_of_hash {b b' : BoundContract} (h : b.contractHash = b'.contractHash)
    (hcollision : ¬Collision b.sourceBytes b'.sourceBytes) : b.sourceBytes = b'.sourceBytes := by
  by_contra hne
  rw [← b.hashed, ← b'.hashed] at h
  exact hcollision ⟨hne, sha256_eq_of_hexdigest (congrArg Checked.value h)⟩

end

/-! ## A contract -/

section
variable [Interpreter]

/-- The text under a key. -/
def textItem (document : List (Text × Json)) (key : String) : Text :=
  match document.lookup (text key) with
  | some (.str t) => t
  | _ => []

/-- A schemas package that looks at nothing but the id and the version of a contract. -/
@[reducible] def LoopSchemas.plain : LoopSchemas where
  Contract := Text × Text
  decEq := inferInstance
  id := Prod.fst
  version := Prod.snd
  validate document :=
    if (requireText "contract_id" (textItem document "id")).isOk &&
        (requireText "contract_version" (textItem document "version")).isOk then
      .ok []
    else .ok ["invalid id or version"]
  fromDict document := .ok (textItem document "id", textItem document "version")
  errorText _ := []

/-- The document of a contract. -/
def contractDocument : List (Text × Json) :=
  [("acceptance", .obj [("hard_gates", .arr [.str "tests"])]),
    ("actions", .obj [("allowed", .arr [.str "edit"]), ("denied", .arr [])]),
    ("baseline", .obj [("commands", .arr [.str "quality"])]),
    ("budgets", .obj [("max_tokens", .int 1)]),
    ("human_review", .obj [("required", .bool true)]),
    ("id", .str "quality-loop"),
    ("objective", .str "Improve repository quality."),
    ("scope", .obj [("allowlist", .arr [.str "src/**"]), ("denylist", .arr [])]),
    ("selection", .obj [("strategy", .str "single-item")]),
    ("trigger", .obj [("type", .str "manual")]),
    ("version", .str "0.1.2")]

end

/-- The document has a binding. -/
theorem exists_boundContract : let _ := Interpreter.plain; let _ := LoopSchemas.plain
    ∃ b : BoundContract, b.contract = (text "quality-loop", text "0.1.2") := by
  let _ := Interpreter.plain
  let _ := LoopSchemas.plain
  suffices h : ∃ source b, BoundContract.fromJsonBytes source = .ok b ∧
      b.contract = (text "quality-loop", text "0.1.2") by
    obtain ⟨-, b, -, hcontract⟩ := h
    exact ⟨b, hcontract⟩
  refine BoundContract.exists_of_document (show (Json.obj contractDocument).Canonical from ?_)
    ?_ ?_ ?_ ?_ rfl
  · simp only [contractDocument, Json.Canonical, CanonicalMembers, CanonicalItems, and_true]
    decide
  · simp only [contractDocument, Json.Printable, PrintableMembers, PrintableItems, and_true]
    decide
  · simp only [contractDocument, Json.Encodable, EncodableMembers, EncodableItems, encodable_text,
      and_true]
  · decide
  · rfl

end Alicerce
