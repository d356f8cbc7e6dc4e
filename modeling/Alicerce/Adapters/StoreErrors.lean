import Alicerce.Adapters.StoredRun

/-!
# What the validation of a run can raise

The decoders and the replay raise what `_validated_run` catches, with one exception.

* `Corrupting` is what becomes `CORRUPT`.
* `TooDeep`: the containers of a byte string nest deeper than the interpreter recurses, which makes
  `json.loads` raise `RecursionError`, and nothing catches that.
* `deserialize_raises` is the fact for one byte string; `RowTooDeep` and `JournalTooDeep` say where
  a read gets to such a one in a row and in its journal.
* So a run whose stored values all decode is either accepted or reported as corrupt.
-/

set_option autoImplicit false

namespace Alicerce

open Py Lib Program Client

/-! ## The domain -/

/-- `except (TypeError, ValueError)` catches it. -/
abbrev Caught (e : Exc) : Prop := e.isTypeOrValueError = true

theorem requireUtc_raises (name : String) (t : DateTime) : Raises Caught (requireUtc name t) := by
  rw [requireUtc]
  exact .ite (fun _ ↦ raises_ok _) fun _ ↦ raises_error rfl

theorem requireRevision_raises (n : ℤ) : Raises Caught (requireRevision n) := by
  rw [requireRevision]
  exact .ite (fun _ ↦ raises_error rfl) fun _ ↦ raises_ok _

theorem requireFinalState_raises (t : Text) : Raises Caught (requireFinalState t) := by
  rw [requireFinalState]
  split
  · exact raises_ok _
  · exact raises_error rfl

theorem requireTerminal_raises (required forbidden : Text) (s : LifecycleState)
    (f : Option Text) : Raises Caught (requireTerminal required forbidden s f) := by
  rw [requireTerminal.eq_def]
  refine .ite (fun _ ↦ ?_) fun _ ↦ .ite (fun _ ↦ raises_error rfl) fun _ ↦ raises_ok _
  split
  · exact raises_error rfl
  · exact (requireFinalState_raises _).map

theorem RunLifecycle.new_raises (runId : RunId) (state : LifecycleState) (revision : ℤ)
    (updatedAt : DateTime) (finalState : Option Text) :
    Raises Caught (RunLifecycle.new runId state revision updatedAt finalState) := by
  refine (requireRevision_raises _).bind fun n _ ↦ (requireUtc_raises _ _).bind fun t _ ↦ ?_
  split
  · exact raises_ok _
  · rename_i e he
    exact raises_error (requireTerminal_raises _ _ _ _ e he)

theorem LifecycleTransition.new_raises (runId : RunId) (revision : ℤ)
    (fromState toState : LifecycleState) (occurredAt : DateTime) (actor : LifecycleActor)
    (finalState : Option Text) : Raises Caught
      (LifecycleTransition.new runId revision fromState toState occurredAt actor finalState) := by
  refine (requireRevision_raises _).bind fun n _ ↦ (requireUtc_raises _ _).bind fun t _ ↦ ?_
  split
  · exact raises_ok _
  · rename_i e he
    exact raises_error (requireTerminal_raises _ _ _ _ e he)

theorem advanceLifecycle_raises (current : RunLifecycle) (toState : LifecycleState)
    (occurredAt : DateTime) (actor : LifecycleActor) (finalState : Option Text) :
    Raises Caught (advanceLifecycle current toState occurredAt actor finalState) := by
  refine (requireUtc_raises _ _).bind fun instant _ ↦ .ite (fun _ ↦ raises_error rfl) fun _ ↦
    .ite (fun _ ↦ raises_error rfl) fun _ ↦ .ite (fun _ ↦ raises_error rfl) fun _ ↦
    .ite (fun _ ↦ raises_error rfl) fun _ ↦ .ite (fun _ ↦ raises_error rfl) fun _ ↦ ?_
  refine Raises.bind ?_ fun _ _ ↦ (LifecycleTransition.new_raises _ _ _ _ _ _ _).bind fun t _ ↦
    (RunLifecycle.new_raises _ _ _ _ _).bind fun l _ ↦ raises_ok _
  cases finalState with
  | none => exact raises_ok _
  | some f => exact (requireFinalState_raises f).bind fun f _ ↦ raises_ok _

theorem RunCheckpoint.new_raises (identity : RunIdentity) (lifecycle : RunLifecycle) :
    Raises Caught (RunCheckpoint.new identity lifecycle) := by
  rw [RunCheckpoint.new]
  split
  · exact raises_error rfl
  split
  · exact raises_error rfl
  · exact raises_ok _

theorem requireText_raises (name : String) (t : Text) : Raises Caught (requireText name t) := by
  rw [requireText]
  exact .ite (fun _ ↦ raises_error rfl) fun _ ↦ raises_ok _

theorem requirePattern_raises (name : String) (pattern : Text → Bool) (t : Text) :
    Raises Caught (requirePattern name pattern t) :=
  (requireText_raises name t).bind fun _ _ ↦ .ite (fun _ ↦ raises_ok _) fun _ ↦ raises_error rfl

theorem requireActor_raises (t : Text) : Raises Caught (requireActor t) := by
  rw [requireActor]
  exact .ite (fun _ ↦ raises_ok _) fun _ ↦ raises_error rfl

theorem Checked.new_raises {check : Text → Except Exc Text} {t : Text}
    (h : Raises Caught (check t)) : Raises Caught (Checked.new check t) :=
  fun e he ↦ h e (Checked.new_eq_error_iff.mp he)

/-- What becomes `CORRUPT`. -/
def Corrupting (e : Exc) : Prop := Caught e ∨ ∃ detail, e = corrupt detail

theorem Corrupting.invalidRun {e : Exc} (h : Corrupting e) :
    ∃ detail, invalidRun e = corrupt detail := by
  rcases h with h | ⟨detail, rfl⟩
  · cases e with
    | stateStoreError cause detail => exact absurd h Bool.false_ne_true
    | _ => exact ⟨_, (if_neg Bool.false_ne_true).trans (if_pos h)⟩
  · exact ⟨detail, rfl⟩

/-! ## The decoders -/

section
variable [Interpreter]

theorem LifecycleState.new_raises (t : Text) : Raises Caught (LifecycleState.new t) := by
  rw [LifecycleState.new]
  split
  · exact raises_ok _
  · exact raises_error rfl

theorem asText_raises (v : Json) (name : String) : Raises Caught (asText v name) := by
  rw [asText.eq_def]
  split
  · exact raises_ok _
  · exact raises_error rfl

theorem asInteger_raises (v : Json) (name : String) : Raises Caught (asInteger v name) := by
  rw [asInteger.eq_def]
  split
  · exact raises_ok _
  · exact raises_error rfl

theorem asOptionalText_raises (v : Json) (name : String) :
    Raises Caught (asOptionalText v name) := by
  rw [asOptionalText.eq_def]
  split
  · exact raises_ok _
  · exact (asText_raises _ _).map

theorem parseTimestamp_raises (v : Json) (name : String) :
    Raises Caught (parseTimestamp v name) := by
  refine (asText_raises _ _).bind fun t _ ↦ ?_
  split
  · exact raises_error rfl
  · exact .ite (fun _ ↦ raises_ok _) fun _ ↦ raises_error rfl

theorem objectFields_raises (v : Json) (name : String) (keys : List String) :
    Raises Caught (objectFields v name keys) := by
  rw [objectFields.eq_def]
  split
  · exact .ite (fun _ ↦ raises_ok _) fun _ ↦ raises_error rfl
  · exact raises_error rfl

/-- A key that is there can be looked up. -/
theorem item_raises {payload : List (Text × Json)} {key : String}
    (h : text key ∈ payload.map Prod.fst) : Raises Caught (item payload key) := by
  obtain ⟨p, hp, hkey⟩ := List.mem_map.mp h
  intro e he
  rw [item] at he
  split at he
  · exact absurd he (by simp)
  · rename_i hnone
    rw [List.lookup_eq_none_iff] at hnone
    exact absurd (hnone p hp) (by simp [hkey])

theorem header_raises {payload : List (Text × Json)} (format : Text)
    (hf : text "format" ∈ payload.map Prod.fst) (hv : text "version" ∈ payload.map Prod.fst) :
    Raises Caught (header payload format) :=
  (item_raises hf).bind fun _ _ ↦ .ite (fun _ ↦ (item_raises hv).bind fun _ _ ↦
    (asInteger_raises _ _).bind fun _ _ ↦ .ite (fun _ ↦ raises_ok _) fun _ ↦ raises_error rfl)
    fun _ ↦ raises_error rfl

/-- Reading a field as a text. -/
theorem textField_raises {payload : List (Text × Json)} {key : String}
    (h : text key ∈ payload.map Prod.fst) {β : Type} {f : Text → Except Exc β}
    (hf : ∀ t, Raises Caught (f t)) :
    Raises Caught (item payload key >>= fun v ↦ asText v key >>= f) :=
  (item_raises h).bind fun _ _ ↦ (asText_raises _ _).bind fun t _ ↦ hf t

/-- Reading a field as a checked text. -/
theorem checkedField_raises {payload : List (Text × Json)} {key : String}
    {check : Text → Except Exc Text} (h : text key ∈ payload.map Prod.fst)
    (hcheck : ∀ t, Raises Caught (check t)) {β : Type} {f : Checked check → Except Exc β}
    (hf : ∀ c, Raises Caught (f c)) : Raises Caught
      (item payload key >>= fun v ↦ asText v key >>= fun t ↦ Checked.new check t >>= f) :=
  textField_raises h fun t ↦ (Checked.new_raises (hcheck t)).bind fun c _ ↦ hf c

theorem identityFromPayload_raises (v : Json) : Raises Caught (identityFromPayload v) := by
  refine (objectFields_raises _ _ _).bind fun payload hpayload ↦ ?_
  have hkey : ∀ key ∈ identityKeys, text key ∈ payload.map Prod.fst :=
    fun _ hk ↦ ((objectFields_eq_ok_iff.mp hpayload).2 _).mpr (List.mem_map_of_mem hk)
  refine (header_raises _ (hkey "format" (by decide)) (hkey "version" (by decide))).bind
    fun _ _ ↦ Raises.translate ?_ fun _ _ ↦ rfl
  refine checkedField_raises (hkey "run_id" (by decide)) (requirePattern_raises _ _) fun _ ↦ ?_
  refine checkedField_raises (hkey "contract_id" (by decide)) (requireText_raises _) fun _ ↦ ?_
  refine checkedField_raises (hkey "contract_version" (by decide)) (requireText_raises _)
    fun _ ↦ ?_
  refine checkedField_raises (hkey "contract_hash" (by decide)) (requirePattern_raises _ _)
    fun _ ↦ ?_
  refine checkedField_raises (hkey "baseline_sha" (by decide)) (requirePattern_raises _ _)
    fun _ ↦ ?_
  refine checkedField_raises (hkey "policy_hash" (by decide)) (requirePattern_raises _ _)
    fun _ ↦ ?_
  exact (item_raises (hkey "created_at" (by decide))).bind fun _ _ ↦
    (parseTimestamp_raises _ _).bind fun _ _ ↦ (requireUtc_raises _ _).bind fun _ _ ↦ raises_ok _

theorem checkpointFromPayload_raises (v : Json) : Raises Caught (checkpointFromPayload v) := by
  refine (objectFields_raises _ _ _).bind fun payload hpayload ↦ ?_
  have hkey : ∀ key ∈ checkpointKeys, text key ∈ payload.map Prod.fst :=
    fun _ hk ↦ ((objectFields_eq_ok_iff.mp hpayload).2 _).mpr (List.mem_map_of_mem hk)
  refine (header_raises _ (hkey "format" (by decide)) (hkey "version" (by decide))).bind
    fun _ _ ↦ Raises.translate ?_ fun _ _ ↦ rfl
  refine (item_raises (hkey "identity" (by decide))).bind fun _ _ ↦
    (identityFromPayload_raises _).bind fun identity _ ↦ ?_
  refine textField_raises (hkey "state" (by decide)) fun _ ↦
    (LifecycleState.new_raises _).bind fun state _ ↦ ?_
  exact (item_raises (hkey "revision" (by decide))).bind fun _ _ ↦
    (asInteger_raises _ _).bind fun _ _ ↦
    (item_raises (hkey "updated_at" (by decide))).bind fun _ _ ↦
    (parseTimestamp_raises _ _).bind fun _ _ ↦
    (item_raises (hkey "final_state" (by decide))).bind fun _ _ ↦
    (asOptionalText_raises _ _).bind fun _ _ ↦
    (RunLifecycle.new_raises _ _ _ _ _).bind fun _ _ ↦ RunCheckpoint.new_raises _ _

theorem transitionFromPayload_raises (v : Json) : Raises Caught (transitionFromPayload v) := by
  refine (objectFields_raises _ _ _).bind fun payload hpayload ↦ ?_
  have hkey : ∀ key ∈ transitionKeys, text key ∈ payload.map Prod.fst :=
    fun _ hk ↦ ((objectFields_eq_ok_iff.mp hpayload).2 _).mpr (List.mem_map_of_mem hk)
  refine (header_raises _ (hkey "format" (by decide)) (hkey "version" (by decide))).bind
    fun _ _ ↦ Raises.translate ?_ fun _ _ ↦ rfl
  refine checkedField_raises (hkey "run_id" (by decide)) (requirePattern_raises _ _) fun _ ↦ ?_
  refine (item_raises (hkey "revision" (by decide))).bind fun _ _ ↦
    (asInteger_raises _ _).bind fun _ _ ↦ ?_
  refine textField_raises (hkey "from_state" (by decide)) fun _ ↦
    (LifecycleState.new_raises _).bind fun _ _ ↦ ?_
  refine textField_raises (hkey "to_state" (by decide)) fun _ ↦
    (LifecycleState.new_raises _).bind fun _ _ ↦ ?_
  refine (item_raises (hkey "occurred_at" (by decide))).bind fun _ _ ↦
    (parseTimestamp_raises _ _).bind fun _ _ ↦ ?_
  refine checkedField_raises (hkey "actor" (by decide)) requireActor_raises fun _ ↦ ?_
  exact (item_raises (hkey "final_state" (by decide))).bind fun _ _ ↦
    (asOptionalText_raises _ _).bind fun _ _ ↦ LifecycleTransition.new_raises _ _ _ _ _ _ _

/-! ## Byte strings that nest too deep -/

/-- `json.loads` gives up on a byte string for the depth of its containers.  The encoder, which
recurses through the same containers, does not for a value that has been read. -/
def TooDeep (b : Bytes) : Prop :=
  ∃ t, decodeUtf8 b = some t ∧ loads stateHooks t = .error .recursionError

/-- What loading and decoding a byte string can raise. -/
def DecodeError (b : Bytes) (e : Exc) : Prop := Caught e ∨ e = .recursionError ∧ TooDeep b

theorem jsonLoads_raises (t : Text) : Raises
    (fun e ↦ Caught e ∨ e = .recursionError ∧ loads stateHooks t = .error .recursionError)
    (jsonLoads t) := by
  rw [jsonLoads]
  split
  · exact raises_ok _
  · rename_i e he
    cases e with
    | jsonDecodeError => exact raises_error (.inl rfl)
    | valueError => exact raises_error (.inl rfl)
    | recursionError => exact raises_error (.inr ⟨rfl, he⟩)
    | hook m => exact raises_error (.inl rfl)

theorem dumpObject_raises (value : List (Text × Json)) : Raises Caught (dumpObject value) :=
  fun _ he ↦ by rw [eq_of_dumpObject_eq_error he]; rfl

theorem loadObject_raises (b : Bytes) : Raises (DecodeError b) (loadObject b) := by
  refine Raises.bind (Raises.translate (Raises.bind ?_ fun t ht ↦ ?_) fun _ _ ↦ .inl rfl)
    fun v _ ↦ ?_
  · rw [decodeBytes]
    split
    · exact raises_ok _
    · exact raises_error (.inl rfl)
  · rw [decodeBytes] at ht
    split at ht
    · rename_i t' ht'
      obtain rfl := Except.ok.inj ht
      exact (jsonLoads_raises t').mono fun e he ↦ he.imp_right (And.imp_right fun h ↦ ⟨t', ht', h⟩)
    · exact absurd ht (by simp)
  · split
    · exact ((dumpObject_raises _).mono fun _ h ↦ .inl h).bind fun d _ ↦
        .ite (fun _ ↦ raises_ok _) fun _ ↦ raises_error (.inl rfl)
    · exact raises_error (.inl rfl)

theorem TooDeep.loadObject {b : Bytes} (h : TooDeep b) : loadObject b = .error .recursionError := by
  obtain ⟨t, ht, hloads⟩ := h
  simp only [Alicerce.loadObject, decodeBytes, ht, ok_bind, jsonLoads, hloads, loadsException,
    Py.translate]
  rfl

/-- **What a decoder can raise**: a byte string that nests too deep makes it raise `RecursionError`,
and everything else is what `_validated_run` catches. -/
theorem deserialize_raises {α : Type} {f : Json → Except Exc α} (hf : ∀ v, Raises Caught (f v))
    (b : Bytes) : Raises (DecodeError b) (loadObject b >>= fun members ↦ f (.obj members)) :=
  (loadObject_raises b).bind fun _ _ ↦ (hf _).mono fun _ h ↦ .inl h

theorem TooDeep.deserialize {α : Type} {f : Json → Except Exc α} {b : Bytes} (h : TooDeep b) :
    (Alicerce.loadObject b >>= fun members ↦ f (.obj members)) = .error .recursionError := by
  rw [h.loadObject, error_bind]

/-- What decodes does not nest too deep. -/
theorem not_tooDeep_of_deserialize {α : Type} {f : Json → Except Exc α} {b : Bytes} {x : α}
    (h : (loadObject b >>= fun members ↦ f (.obj members)) = .ok x) : ¬TooDeep b :=
  fun hdeep ↦ absurd (hdeep.deserialize.symm.trans h) (by simp)

/-! ## The validation of a run -/

/-- What reading a stored value can raise. -/
def StoredError (v : SqlValue) (e : Exc) : Prop :=
  Corrupting e ∨ e = .recursionError ∧ ∃ b, v = .blob b ∧ TooDeep b

theorem deserialize_asBlob_raises {α : Type} {f : Json → Except Exc α}
    (hf : ∀ v, Raises Caught (f v)) (v : SqlValue) (name : String) : Raises (StoredError v)
      (asBlob v name >>= fun b ↦ loadObject b >>= fun members ↦ f (.obj members)) := by
  refine Raises.bind ?_ fun b hb ↦ (deserialize_raises hf b).mono fun e he ↦ ?_
  · rw [asBlob.eq_def]
    split
    · exact raises_ok _
    · exact raises_error (.inl (.inr ⟨_, rfl⟩))
  · exact he.imp .inl (And.imp_right fun hdeep ↦ ⟨b, asBlob_eq_ok_iff.mp hb, hdeep⟩)

/-- A row has a byte string that nests too deep where a read gets to it: in its identity, or in its
checkpoint when the identity decodes. -/
def RowTooDeep (row : SqlValue × SqlValue) : Prop :=
  (∃ b, row.1 = .blob b ∧ TooDeep b) ∨
    (∃ identity b, row.1 = .blob b ∧ serializeRunIdentity identity = .ok b) ∧
      ∃ b, row.2 = .blob b ∧ TooDeep b

/-- A journal has a byte string that nests too deep where a replay gets to it: behind rows that lead
on from the checkpoint, in a row that bears the next revision. -/
def JournalTooDeep (c : RunCheckpoint) (rows : List (SqlValue × SqlValue)) : Prop :=
  ∃ before events c' b after,
    rows = before ++ (.integer (c'.lifecycle.revision + 1 : ℕ), .blob b) :: after ∧
      Steps Advances c events c' ∧ List.Forall₂ HeldEvent before events ∧ TooDeep b

theorem checkRow_raises (runId : RunId) (row : SqlValue × SqlValue) : Raises
    (fun e ↦ Corrupting e ∨ e = .recursionError ∧ RowTooDeep row) (checkRow runId row) := by
  rw [checkRow, ← bind_bind]
  refine ((deserialize_asBlob_raises identityFromPayload_raises _ _).mono
    fun e he ↦ he.imp_right (And.imp_right .inl)).bind fun identity hidentity ↦ ?_
  obtain ⟨b, hb, hidentity⟩ := bind_eq_ok_iff.mp hidentity
  rw [← bind_bind]
  refine ((deserialize_asBlob_raises checkpointFromPayload_raises _ _).mono
    fun e he ↦ he.imp_right (And.imp_right fun h ↦ .inr ⟨⟨identity, b, asBlob_eq_ok_iff.mp hb,
      identityCodec.exact.mp hidentity⟩, h⟩)).bind fun stored _ ↦ ?_
  exact .ite (fun _ ↦ raises_error (.inl (.inr ⟨_, rfl⟩))) fun _ ↦ raises_ok _

theorem RowTooDeep.checkRow {row : SqlValue × SqlValue} (h : RowTooDeep row) (runId : RunId) :
    checkRow runId row = .error .recursionError := by
  rw [Alicerce.checkRow]
  rcases h with ⟨b, hb, hdeep⟩ | ⟨⟨identity, b, hb, hidentity⟩, b', hb', hdeep⟩
  · rw [asBlob_eq_ok_iff.mpr hb, ok_bind, deserializeRunIdentity, hdeep.deserialize, error_bind]
  · rw [asBlob_eq_ok_iff.mpr hb, ok_bind,
      show deserializeRunIdentity b = .ok identity from identityCodec.exact.mpr hidentity, ok_bind,
      asBlob_eq_ok_iff.mpr hb', ok_bind, deserializeCheckpoint, hdeep.deserialize, error_bind]

/-- The induction is on the rows, as in `replay_eq_ok_iff`. -/
theorem replay_raises {identity : RunIdentity} : ∀ (rows : List (SqlValue × SqlValue))
    {c : RunCheckpoint}, c.identity = identity → Raises
      (fun e ↦ Corrupting e ∨ e = .recursionError ∧ JournalTooDeep c rows)
      (replay identity c (c.lifecycle.revision + 1) rows)
  | [], c, _ => by
    rw [replay]
    exact raises_ok _
  | (revision, transition) :: rows, c, hid => by
    rw [replay]
    refine .ite (fun _ ↦ raises_error (.inl (.inr ⟨_, rfl⟩))) fun hrev ↦ ?_
    rw [not_not] at hrev
    subst hrev
    rw [← bind_bind]
    refine Raises.bind (fun e he ↦ ?_) fun event hevent ↦ ?_
    · rcases deserialize_asBlob_raises transitionFromPayload_raises _ _ e he with
        h | ⟨he, b, hb, hdeep⟩
      · exact .inl h
      · exact .inr ⟨he, [], [], c, b, rows, by rw [hb]; rfl, .nil c, .nil, hdeep⟩
    obtain ⟨b, hb, hevent⟩ := bind_eq_ok_iff.mp hevent
    refine ((advanceLifecycle_raises _ _ _ _ _).mono fun _ h ↦ .inl (.inl h)).bind
      fun adv hadv ↦ .ite (fun _ ↦ raises_error (.inl (.inr ⟨_, rfl⟩))) fun hgen ↦ ?_
    rw [not_not] at hgen
    refine ((RunCheckpoint.new_raises _ _).mono fun _ h ↦ .inl (.inl h)).bind fun next hnext ↦ ?_
    have hstep : Advances c event next := ⟨adv, hadv, hgen, hid ▸ hnext⟩
    rw [← hstep.revision]
    refine ((replay_raises rows ((advances_iff.mp hstep).2.1.trans hid)).mono
      fun e he ↦ he.imp_right (And.imp_right fun hdeep ↦ ?_)).bind fun _ _ ↦ raises_ok _
    obtain ⟨before, events, c', b', after, rfl, hsteps, hheld, hdeep⟩ := hdeep
    refine ⟨_ :: before, event :: events, c', b', after, rfl, .cons hstep hsteps,
      .cons ⟨?_, b, asBlob_eq_ok_iff.mp hb, transitionCodec.exact.mp hevent⟩ hheld, hdeep⟩
    rw [hstep.revision, (advances_iff.mp hstep).1.revision]

/-- Behind rows that lead on, the replay continues. -/
theorem replay_append {identity : RunIdentity} {rows : List (SqlValue × SqlValue)} :
    ∀ {before : List (SqlValue × SqlValue)} {n : ℕ} {c c' : RunCheckpoint}
      {events : List LifecycleTransition}, replay identity c n before = .ok (c', events) →
      replay identity c n (before ++ rows) =
        (replay identity c' (n + before.length) rows).map fun r ↦ (r.1, events ++ r.2)
  | [], n, c, c', events, h => by
    rw [replay, Except.ok.injEq, Prod.mk.injEq] at h
    obtain ⟨rfl, rfl⟩ := h
    cases h : replay identity c n rows <;> simp [h, Except.map]
  | (revision, transition) :: before, n, c, c', events, h => by
    rw [replay] at h
    split at h
    · exact absurd h (by simp)
    rename_i hrev
    obtain ⟨b, hb, h⟩ := bind_eq_ok_iff.mp h
    obtain ⟨event, hevent, h⟩ := bind_eq_ok_iff.mp h
    obtain ⟨adv, hadv, h⟩ := bind_eq_ok_iff.mp h
    split at h
    · exact absurd h (by simp)
    rename_i hgen
    obtain ⟨next, hnext, h⟩ := bind_eq_ok_iff.mp h
    obtain ⟨⟨final, rest⟩, hrest, h⟩ := bind_eq_ok_iff.mp h
    rw [Except.ok.injEq, Prod.mk.injEq] at h
    obtain ⟨rfl, rfl⟩ := h
    rw [List.cons_append, replay, if_neg hrev, hb, ok_bind, hevent, ok_bind, hadv, ok_bind,
      if_neg hgen, hnext, ok_bind, replay_append hrest, List.length_cons,
      Nat.add_right_comm n]
    cases replay identity final (n + before.length + 1) rows <;> rfl

theorem JournalTooDeep.replay {c : RunCheckpoint} {rows : List (SqlValue × SqlValue)}
    (h : JournalTooDeep c rows) :
    replay c.identity c (c.lifecycle.revision + 1) rows = .error .recursionError := by
  obtain ⟨before, events, c', b, after, rfl, hsteps, hheld, hdeep⟩ := h
  have hlen : c'.lifecycle.revision = c.lifecycle.revision + before.length := by
    rw [Steps.measure_eq (m := fun c : RunCheckpoint ↦ c.lifecycle.revision)
      (fun hstep ↦ hstep.revision) hsteps, hheld.length_eq]
  rw [replay_append ((replay_eq_ok_iff rfl).mpr ⟨hsteps, hheld⟩), Alicerce.replay, if_neg]
  · rw [asBlob_eq_ok_iff.mpr rfl, ok_bind, deserializeTransition, hdeep.deserialize]
    rfl
  · rw [not_not, hlen, Nat.add_right_comm]

theorem checkJournal_raises (identity : RunIdentity) (stored : RunCheckpoint)
    (rows : List (SqlValue × SqlValue)) : Raises (fun e ↦ Corrupting e ∨
      e = .recursionError ∧ JournalTooDeep (createInitialCheckpoint identity) rows)
      (checkJournal identity stored rows) :=
  (replay_raises rows (c := createInitialCheckpoint identity) rfl).bind fun _ _ ↦
    .ite (fun _ ↦ raises_error (.inl (.inr ⟨_, rfl⟩))) fun _ ↦ raises_ok _

theorem JournalTooDeep.checkJournal {identity : RunIdentity} {rows : List (SqlValue × SqlValue)}
    (h : JournalTooDeep (createInitialCheckpoint identity) rows) (stored : RunCheckpoint) :
    checkJournal identity stored rows = .error .recursionError := by
  have hreplay : Alicerce.replay identity (createInitialCheckpoint identity) 1 rows =
      .error .recursionError := h.replay
  rw [Alicerce.checkJournal, hreplay, error_bind]

end

end Alicerce
