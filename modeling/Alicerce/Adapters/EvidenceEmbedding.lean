import Alicerce.Adapters.EvidenceAssembly
import Alicerce.Py.JsonBytes

/-!
# What the bytes of an evidence are made of

The keys of a payload are listed in the order they are sorted in, so an evidence is printed member
by member as it stands, and what is printed for its environment and for its commands is what their
own serializers return.

* `serializeEvidence_embeds`: a digest of either can be taken from the document without a second
  representation.
* `shortAssembly` is an assembly whose evidence is serialized.
-/

set_option autoImplicit false

namespace Alicerce

open Py

section
variable [Interpreter]

theorem dumpEvidence_eq_ok_iff_encoded {members : List (Text × Json)} {b : Bytes} :
    dumpEvidence members = .ok b ↔ encoded (.obj members) = some b := by
  rw [dumpEvidence_eq_ok_iff, encoded_eq_some_iff]

/-- The keys of an evidence are listed in order. -/
theorem Evidence.payload_sorted (e : Evidence) :
    (e.payload.map Prod.fst).Pairwise fun a b ↦ a.le b = true ∧ a ≠ b :=
  show (["baseline_sha", "candidate_sha", "changed_files", "commands", "contract_id",
    "environment", "finished_at", "run_id", "started_at", "usage", "version"].map text).Pairwise
      fun a b ↦ a.le b = true ∧ a ≠ b by decide

variable [StandardLibrary]

/-- What is printed for the commands of an evidence. -/
theorem serializeCommandResult_of_encoded {results : List CommandResult}
    (hresults : ∀ r ∈ results, r.Accepted) {pieces : List Bytes}
    (h : List.Forall₂ (fun v b ↦ encoded v = some b) (results.map fun r ↦ .obj r.payload) pieces) :
    List.Forall₂ (fun r b ↦ serializeCommandResult r = .ok b) results pieces := by
  rw [List.forall₂_map_left_iff] at h
  induction h with
  | nil => exact .nil
  | cons hb _ ih =>
    rw [List.forall_mem_cons] at hresults
    exact .cons (serializeCommandResult_eq_ok_iff.mpr
      ⟨hresults.1, dumpEvidence_eq_ok_iff_encoded.mpr hb⟩) (ih hresults.2)

/-- **An evidence embeds its sub-documents byte for byte.** -/
theorem serializeEvidence_embeds {e : Evidence} {b : Bytes} (h : serializeEvidence e = .ok b) :
    ∃ environment commands pieces,
      serializeEnvironment e.environment = .ok environment ∧
      List.Forall₂ (fun r bytes ↦ serializeCommandResult r = .ok bytes) e.commands commands ∧
      List.Forall₂ IsPiece e.payload pieces ∧ b = objectBytes pieces ∧
      pieces.lookup "\x22environment\x22".toByteArray = some environment ∧
      pieces.lookup "\x22commands\x22".toByteArray = some (arrayBytes commands) ∧
      hashEnvironment e.environment = .ok (hexdigest environment) ∧
      List.Forall₂ (fun r bytes ↦ hashCommandResult r = .ok (hexdigest bytes)) e.commands
        commands := by
  obtain ⟨haccepted, hdump⟩ := serializeEvidence_eq_ok_iff.mp h
  obtain ⟨pieces, hpieces, rfl⟩ :=
    (encoded_obj e.payload_sorted).mp (dumpEvidence_eq_ok_iff_encoded.mp hdump)
  have hnodup : (e.payload.map Prod.fst).Nodup := nodup_of_strictly_sorted e.payload_sorted
  obtain ⟨environment, henvironment, hencoded⟩ := lookup_isPiece hpieces hnodup
    (show (text "environment", .obj e.environment.payload) ∈ e.payload by simp [Evidence.payload])
    (encodeUtf8_text "\x22environment\x22")
  obtain ⟨_, hcommands, harray⟩ := lookup_isPiece hpieces hnodup
    (show (text "commands", .arr (e.commands.map fun r ↦ .obj r.payload)) ∈ e.payload by
      simp [Evidence.payload])
    (encodeUtf8_text "\x22commands\x22")
  obtain ⟨commands, hitems, rfl⟩ := encoded_arr.mp harray
  have hserialized : serializeEnvironment e.environment = .ok environment :=
    serializeEnvironment_eq_ok_iff.mpr
      ⟨haccepted.environment, dumpEvidence_eq_ok_iff_encoded.mpr hencoded⟩
  have hresults := serializeCommandResult_of_encoded haccepted.commands hitems
  refine ⟨environment, commands, pieces, hserialized, hresults, hpieces, rfl, henvironment,
    hcommands, ?_, hresults.imp fun r bytes hr ↦ ?_⟩
  · rw [hashEnvironment, hserialized]
    rfl
  · rw [hashCommandResult, hr]
    rfl

end

/-- An assembly whose object ids have forty characters. -/
def shortAssembly : let _ := oneFloat; let _ := oneFloatLibrary; Assembly :=
  testAssembly (storeIdentity qualityLoop).baselineSha
    ⟨List.replicate 40 (.scalar 'f'), by decide⟩

theorem shortAssembly_serialized : let _ := oneFloat; let _ := oneFloatLibrary
    ∃ b, serializeEvidence shortAssembly.evidence = .ok b := by
  let _ := oneFloat
  let _ := oneFloatLibrary
  have hdigits : CountPrintable 0 := show (decimal 0).length ≤ maxStrDigits by decide
  obtain ⟨b, hb⟩ := dumpEvidence_isOk_iff.mpr
    ((Assembly.written_iff oneFloat_printsNumbers shortAssembly).mpr ⟨hdigits, hdigits⟩)
  exact ⟨b, serializeEvidence_eq_ok_iff.mpr
    ⟨(Assembly.accepted_iff shortAssembly).mpr ⟨rfl, rfl⟩, hb⟩⟩

/-- The environment of that evidence, found in its bytes. -/
theorem serializeEvidence_embeds_short : let _ := oneFloat; let _ := oneFloatLibrary
    ∃ b environment pieces, serializeEvidence shortAssembly.evidence = .ok b ∧
      b = objectBytes pieces ∧
        pieces.lookup "\x22environment\x22".toByteArray = some environment := by
  let _ := oneFloat
  let _ := oneFloatLibrary
  obtain ⟨b, hb⟩ := shortAssembly_serialized
  obtain ⟨environment, _, pieces, _, _, _, hpieces, henvironment, _⟩ := serializeEvidence_embeds hb
  exact ⟨b, environment, pieces, hb, hpieces, henvironment⟩

end Alicerce
