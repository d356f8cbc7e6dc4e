import Alicerce.Domain.ContractBinding
import Alicerce.Py.JsonCanonical
import Alicerce.Py.JsonNumerals

/-!
# The documents that reach contract validation

What is known of a document when `_parse_contract` hands it to the validator.

* `Handed`: the document is decoded from a source, and is what the validator is called with.
* `Unambiguous`: the source spells the document, every pair of every object included, and no object
  of it has a key twice.  Every object of the source has been through the hook for pairs.
* `NumeralsFit`: every numeral of the source, outside its strings, fits into a float.
* `handed_exact`: a document that is handed to the validator is unambiguous, and finite exactly when
  the numerals of its source fit.  The constants are refused by their hook, but a numeral goes
  through neither hook, and one too large for a double is an infinity.
-/

set_option autoImplicit false

namespace Alicerce

open Py

section
variable [Interpreter]

/-- No key is repeated among the members of an object. -/
def WithoutDuplicates (members : List (Text × Json)) : Prop := (members.map Prod.fst).Nodup

theorem withoutDuplicates_nil : WithoutDuplicates ([] : List (Text × Json)) := List.nodup_nil

/-- The hook for pairs keeps the pairs it accepts, and accepts no duplicates. -/
theorem objectWithoutDuplicates_eq_ok {pairs : List (Text × Json)} :
    ∀ {result members : List (Text × Json)}, WithoutDuplicates result →
      objectWithoutDuplicates result pairs = .ok members →
        members = result ++ pairs ∧ WithoutDuplicates members := by
  induction pairs with
  | nil =>
    intro result members hresult h
    rw [objectWithoutDuplicates, Except.ok.injEq] at h
    rw [List.append_nil, ← h]
    exact ⟨rfl, hresult⟩
  | cons p pairs ih =>
    intro result members hresult h
    obtain ⟨key, value⟩ := p
    rw [objectWithoutDuplicates] at h
    split at h
    · exact absurd h (by simp)
    · rename_i hkey
      have hnext : WithoutDuplicates (result ++ [(key, value)]) := by
        rw [WithoutDuplicates, List.map_append, List.nodup_append]
        refine ⟨hresult, List.nodup_singleton _, fun a ha b hb ↦ ?_⟩
        rintro rfl
        obtain rfl : a = key := List.mem_singleton.mp hb
        exact hkey ha
      obtain ⟨heq, hnodup⟩ := ih hnext h
      exact ⟨by rw [heq, List.append_assoc, List.singleton_append], hnodup⟩

theorem contractHooks_objectPairs {pairs : List (Text × Json)} {v : Json}
    (h : contractHooks.objectPairs pairs = .ok v) : v = .obj pairs ∧ WithoutDuplicates pairs := by
  obtain ⟨members, hmembers, rfl⟩ := map_eq_ok_iff.mp h
  obtain ⟨rfl, hnodup⟩ := objectWithoutDuplicates_eq_ok withoutDuplicates_nil hmembers
  exact ⟨rfl, hnodup⟩

theorem contractHooks_strict : contractHooks.Strict where
  objectPairs h := (contractHooks_objectPairs h).1
  parseConstant h := absurd h (by simp [contractHooks, rejectNonfiniteNumber])

theorem contractHooks_ensures : contractHooks.Ensures WithoutDuplicates where
  objectPairs hall h := by
    obtain ⟨rfl, hnodup⟩ := contractHooks_objectPairs h
    rw [Json.Everywhere]
    exact ⟨hnodup, hall⟩
  parseConstant h := absurd h contractHooks_strict.parseConstant

/-- Hooks that keep what the source says: every pair of an object in its order, and a constant as
the float it names. -/
def keepingHooks : Hooks Text where
  objectPairs pairs := .ok (.obj pairs)
  parseConstant t := .ok (.float (Interpreter.floatOf t))

theorem contractHooks_refines : contractHooks.Refines keepingHooks where
  objectPairs h := by rw [(contractHooks_objectPairs h).1]; rfl
  parseConstant h := absurd h contractHooks_strict.parseConstant

/-- A document is decoded from a source, and is what the validator is called with. -/
def Handed (source : Bytes) (document : List (Text × Json)) : Prop :=
  ∃ t, decodeUtf8 source = some t ∧ loads contractHooks t = .ok (.obj document)

/-- The source spells the document, every pair of every object included, and no object of it has a
key twice. -/
def Unambiguous (source : Bytes) (document : List (Text × Json)) : Prop :=
  ∃ t, decodeUtf8 source = some t ∧ loads keepingHooks t = .ok (.obj document) ∧
    (Json.obj document).Everywhere WithoutDuplicates

/-- Every numeral of the source, outside its strings, fits into a float. -/
def NumeralsFit (source : Bytes) : Prop := ∀ t, decodeUtf8 source = some t → FiniteNumerals t

/-- **What reaches the validator is unambiguous, and finite exactly when every numeral of the source
fits into a float.** -/
theorem handed_exact {source : Bytes} {document : List (Text × Json)}
    (h : Handed source document) :
    Unambiguous source document ∧ ((Json.obj document).Finite ↔ NumeralsFit source) := by
  obtain ⟨t, ht, hloads⟩ := h
  refine ⟨⟨t, ht, loads_mono contractHooks_refines hloads,
    loads_everywhere contractHooks_ensures hloads⟩, ?_⟩
  rw [loads_finite_iff contractHooks_strict hloads]
  constructor
  · intro hfinite u hu
    rwa [← Option.some.inj (ht.symm.trans hu)]
  · exact fun hfit ↦ hfit t ht

end

/-- A document that sets a limit no float can hold. -/
def unlimitedText : Text := text "\x7b\x22max_cost\x22:1e999\x7d"

/-- Its bytes. -/
def unlimitedSource : Bytes := "\x7b\x22max_cost\x22:1e999\x7d".toByteArray

/-- The limit is read as a float, and through neither hook. -/
theorem loads_unlimitedText : let _ := Interpreter.plain
    loads contractHooks unlimitedText = .ok (.obj [(text "max_cost", .float ())]) := by
  let _ := Interpreter.plain
  have hvalue (fuel depth : ℕ) : scanValue contractHooks (fuel + 1) depth (text "1e999\x7d") =
      .ok (.float (), text "\x7d") :=
    scanValue_other _ _ _ (by decide)
  have hmembers (fuel depth : ℕ) : scanMembers contractHooks (fuel + 2) depth
      (member (text "max_cost", text "1e999") ++ text "\x7d") =
        .ok ([(text "max_cost", .float ())], []) :=
    scanMembers_last rfl (hvalue fuel depth)
  have hobject : scanValue contractHooks (2 * unlimitedText.length + 2) 1000 unlimitedText =
      .ok (.obj [(text "max_cost", .float ())], []) :=
    scanValue_obj rfl (by decide) (hmembers _ _)
  have hmark : ¬unlimitedText.head? = some (.scalar (Char.ofNat 0xFEFF)) := by decide
  change loads contractHooks unlimitedText = _
  rw [loads, if_neg hmark]
  change (scanValue contractHooks (2 * unlimitedText.length + 2) 1000 unlimitedText >>= _) = _
  rw [hobject]
  rfl

/-- The document is handed to the validator. -/
theorem handed_unlimitedSource : let _ := Interpreter.plain
    Handed unlimitedSource [(text "max_cost", .float ())] :=
  ⟨_, decodeUtf8_encodeUtf8 (encodeUtf8_text _), loads_unlimitedText⟩

/-- Its only numeral does not fit into a float. -/
theorem handed_exact_unlimited : let _ := Interpreter.plain
    Unambiguous unlimitedSource [(text "max_cost", .float ())] ∧ ¬NumeralsFit unlimitedSource := by
  let _ := Interpreter.plain
  obtain ⟨hunambiguous, hiff⟩ := handed_exact handed_unlimitedSource
  exact ⟨hunambiguous, fun hfit ↦ Bool.false_ne_true (hiff.mpr hfit).1⟩

/-- An infinity reaches the validator. -/
theorem unlimitedSource_handed : let _ := Interpreter.plain
    ∃ document, Handed unlimitedSource document ∧ ¬(Json.obj document).Finite :=
  ⟨_, handed_unlimitedSource, fun hfinite ↦ Bool.false_ne_true hfinite.1⟩

end Alicerce
