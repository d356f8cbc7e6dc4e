import Alicerce.Adapters.StateSerialization
import Alicerce.Lib.Codec

/-!
# The state codecs are exact

Each of the three pairs of a serializer and a deserializer is an exact codec: a byte string is
accepted as a value exactly when it is what the value is serialized to.

* Reading: a decoder accepts an object when it `Agrees` with the payload of the result, key by key
  (`identityFromPayload_eq_ok_iff` and its two siblings).  An object that agrees with a payload is a
  permutation of it (`Agrees.perm`), and the order of the members is not printed.
* Writing: a payload is canonical and two containers deep at most, so `loadObject` gives it back
  (`loadObject_dumpObject`).
* `deserializeRunIdentity_eq_ok_iff`, `deserializeCheckpoint_eq_ok_iff` and
  `deserializeTransition_eq_ok_iff` are the two together, and make a `Codec` each.
* `stateCodecs_exact` adds that the `format` member tells the three languages apart.
-/

set_option autoImplicit false

namespace Alicerce

open Py

theorem printable_version : (decimal stateFormatVersion.natAbs).length ≤ maxStrDigits := by
  decide

/-- The two texts of an identity that no pattern confines have a UTF-8 encoding. -/
def RunIdentity.Encodable (x : RunIdentity) : Prop :=
  Py.Encodable x.contractId.value ∧ Py.Encodable x.contractVersion.value

instance (x : RunIdentity) : Decidable x.Encodable := inferInstanceAs (Decidable (_ ∧ _))

/-- A revision has no more digits than an `int` may have to be converted to a `str`. -/
def RevisionPrintable (n : ℕ) : Prop := (decimal n).length ≤ maxStrDigits

theorem encodable_timestamp (t : CivilTime) : Encodable (timestamp t) := by
  simp only [timestamp, strftime, encodable_append_iff, encodable_fixed, encodable_text, and_self]

variable [Interpreter]

/-! ## Loading and dumping objects -/

theorem duplicateRejectingObject_eq_ok_iff : ∀ {pairs result members : List (Text × Json)},
    duplicateRejectingObject result pairs = .ok members ↔
      members = result ++ pairs ∧ (pairs.map Prod.fst).Nodup ∧
        ∀ k ∈ pairs.map Prod.fst, k ∉ result.map Prod.fst
  | [], result, members => by simp [duplicateRejectingObject, eq_comm]
  | (key, value) :: pairs, result, members => by
    rw [duplicateRejectingObject]
    split
    · rename_i h
      refine iff_of_false (by simp) fun h' ↦ h'.2.2 key (by simp) h
    · rename_i h
      rw [duplicateRejectingObject_eq_ok_iff, List.append_assoc, List.singleton_append,
        List.map_append, List.map_cons, List.map_nil, List.map_cons, List.nodup_cons,
        List.forall_mem_cons]
      simp only [List.mem_append, List.mem_singleton, not_or]
      refine and_congr_right fun _ ↦ ⟨fun ⟨hnd, hall⟩ ↦ ?_, fun ⟨⟨hkey, hnd⟩, _, hall⟩ ↦ ?_⟩
      · exact ⟨⟨fun hmem ↦ (hall key hmem).2 rfl, hnd⟩, h, fun k hk ↦ (hall k hk).1⟩
      · exact ⟨hnd, fun k hk ↦ ⟨hall k hk, fun heq ↦ hkey (heq ▸ hk)⟩⟩

/-- No key of an object is repeated. -/
def NodupKeys (members : List (Text × Json)) : Prop := (members.map Prod.fst).Nodup

theorem stateHooks_objectPairs (members : List (Text × Json)) :
    stateHooks.objectPairs members = (duplicateRejectingObject [] members).map .obj := rfl

theorem stateHooks_plain : stateHooks.Plain := by
  intro members hnd
  rw [stateHooks_objectPairs, duplicateRejectingObject_eq_ok_iff.mpr ⟨rfl, hnd, by simp⟩]
  rfl

theorem stateHooks_ensures : stateHooks.Ensures NodupKeys where
  objectPairs := by
    intro members v hall hv
    rw [stateHooks_objectPairs] at hv
    cases h : duplicateRejectingObject [] members with
    | error e => rw [h] at hv; exact absurd hv (by simp [Except.map])
    | ok m =>
      rw [h] at hv
      obtain ⟨rfl, hnd, -⟩ := duplicateRejectingObject_eq_ok_iff.mp h
      rw [← Except.ok.inj hv, Json.Everywhere]
      exact ⟨hnd, hall⟩
  parseConstant := by
    intro t v hv
    exact absurd hv (by simp [stateHooks, rejectJsonConstant])

theorem dumpObject_eq_ok_iff {value : List (Text × Json)} {b : Bytes} :
    dumpObject value = .ok b ↔ ∃ t, dumps (.obj value) = some t ∧ encodeUtf8 t = some b := by
  rw [dumpObject, translate_eq_ok_iff, bind_eq_ok_iff]
  refine exists_congr fun t ↦ and_congr ?_ ?_
  · rw [jsonDumps]; cases dumps (.obj value) <;> simp
  · rw [encodeText]; cases encodeUtf8 t <;> simp

theorem loadObject_eq_ok_iff {b : Bytes} {members : List (Text × Json)} :
    loadObject b = .ok members ↔
      ∃ t, decodeUtf8 b = some t ∧ loads stateHooks t = .ok (.obj members) ∧
        dumpObject members = .ok b := by
  rw [loadObject, bind_eq_ok_iff]
  constructor
  · rintro ⟨v, hv, h⟩
    rw [translate_eq_ok_iff, bind_eq_ok_iff] at hv
    obtain ⟨t, ht, hv⟩ := hv
    have ht' : decodeUtf8 b = some t := by
      rw [decodeBytes] at ht
      cases hd : decodeUtf8 b with
      | none => rw [hd] at ht; exact absurd ht (by simp)
      | some u => rw [hd] at ht; rw [Except.ok.inj ht]
    have hv' : loads stateHooks t = .ok v := by
      rw [jsonLoads] at hv
      cases hl : loads stateHooks t with
      | error e => rw [hl] at hv; exact absurd hv (by simp)
      | ok w => rw [hl] at hv; rw [Except.ok.inj hv]
    cases v with
    | obj typed =>
      obtain ⟨b', hb', h⟩ := bind_eq_ok_iff.mp h
      split at h
      · rename_i heq
        obtain rfl := Except.ok.inj h
        exact ⟨t, ht', hv', heq ▸ hb'⟩
      · exact absurd h (by simp)
    | _ => exact absurd h (by simp)
  · rintro ⟨t, ht, hv, hb⟩
    refine ⟨.obj members, translate_eq_ok_iff.mpr (bind_eq_ok_iff.mpr ⟨t, ?_, ?_⟩), ?_⟩
    · rw [decodeBytes, ht]
    · rw [jsonLoads, hv]
    · simp only [hb, ok_bind, if_true]

/-- Whatever is loaded was in the canonical spelling, and repeats no key at any depth. -/
theorem dumpObject_loadObject {b : Bytes} {members : List (Text × Json)}
    (h : loadObject b = .ok members) :
    dumpObject members = .ok b ∧ (Json.obj members).Everywhere NodupKeys := by
  obtain ⟨t, -, hl, hd⟩ := loadObject_eq_ok_iff.mp h
  exact ⟨hd, loads_everywhere stateHooks_ensures hl⟩

/-- A canonical object that is not too deep is loaded as it was dumped. -/
theorem loadObject_dumpObject {b : Bytes} {members : List (Text × Json)}
    (hc : (Json.obj members).Canonical)
    (hdepth : (Json.obj members).depth ≤ 2) (h : dumpObject members = .ok b) :
    loadObject b = .ok members := by
  obtain ⟨t, ht, hb⟩ := dumpObject_eq_ok_iff.mp h
  exact loadObject_eq_ok_iff.mpr ⟨t, decodeUtf8_encodeUtf8 hb,
    loads_dumps stateHooks_plain ht hc (hdepth.trans Interpreter.two_le_recursionLimit), h⟩

/-! ## Agreement with a payload -/

/-- An object agrees with a payload: it has the same keys, and the same value under each. -/
structure Agrees (members payload : List (Text × Json)) : Prop where
  keys : ∀ k, k ∈ members.map Prod.fst ↔ k ∈ payload.map Prod.fst
  values : ∀ p ∈ payload, members.lookup p.1 = some p.2

theorem Agrees.refl {payload : List (Text × Json)} (hnd : NodupKeys payload) :
    Agrees payload payload :=
  ⟨fun _ ↦ Iff.rfl, fun _ hp ↦ (lookup_eq_some_iff hnd).mpr hp⟩

/-- An object that agrees with a payload has the same members, in some order. -/
theorem Agrees.perm {members payload : List (Text × Json)} (h : Agrees members payload)
    (hm : NodupKeys members) (hp : NodupKeys payload) : members.Perm payload := by
  refine (List.perm_ext_iff_of_nodup hm.of_map hp.of_map).mpr fun ⟨k, v⟩ ↦ ?_
  constructor
  · intro hmem
    obtain ⟨⟨k', v'⟩, hmem', rfl⟩ := List.mem_map.mp
      ((h.keys k).mp (List.mem_map_of_mem (f := Prod.fst) hmem))
    have hv := (lookup_eq_some_iff hm).mpr hmem
    rw [h.values _ hmem', Option.some_inj] at hv
    exact hv ▸ hmem'
  · exact fun hmem ↦ (lookup_eq_some_iff hm).mp (h.values _ hmem)

/-- An object that agrees with a payload is dumped like it. -/
theorem Agrees.dumps_eq {members payload : List (Text × Json)} (h : Agrees members payload)
    (hm : NodupKeys members) (hp : NodupKeys payload) :
    dumps (.obj members) = dumps (.obj payload) := dumps_obj_perm (h.perm hm hp) hm

/-! ## Reading fields -/

theorem item_eq_ok_iff {payload : List (Text × Json)} {key : String} {v : Json} :
    item payload key = .ok v ↔ payload.lookup (text key) = some v := by
  rw [item]
  cases payload.lookup (text key) <;> simp

theorem asText_eq_ok_iff {v : Json} {name : String} {t : Text} :
    asText v name = .ok t ↔ v = .str t := by
  cases v <;> simp [asText]

theorem asInteger_eq_ok_iff {v : Json} {name : String} {n : ℤ} :
    asInteger v name = .ok n ↔ v = .int n := by
  cases v <;> simp [asInteger]

theorem asOptionalText_eq_ok_iff {v : Json} {name : String} {f : Option FinalState} :
    asOptionalText v name = .ok (finalText f) ↔ v = finalStateJson f := by
  cases f <;> cases v <;>
    simp [asOptionalText, asText, finalText, finalStateJson, Except.map]

theorem parseTimestamp_eq_ok_iff {v : Json} {name : String} {t : CivilTime} :
    parseTimestamp v name = .ok t ↔ v = .str (timestamp t) := by
  rw [parseTimestamp, bind_eq_ok_iff]
  constructor
  · rintro ⟨s, hs, h⟩
    split at h
    · exact absurd h (by simp)
    split at h
    · rename_i heq
      rw [asText_eq_ok_iff.mp hs, ← heq, Except.ok.inj h]
    · exact absurd h (by simp)
  · rintro rfl
    refine ⟨timestamp t, rfl, ?_⟩
    simp only [timestamp, strptime_strftime, if_true]

theorem isText_iff {v : Json} {t : Text} : isText v t = true ↔ v = .str t := by
  cases v <;> simp [isText]

theorem header_eq_ok_iff {payload : List (Text × Json)} {format : Text} :
    header payload format = .ok () ↔ payload.lookup (text "format") = some (.str format) ∧
      payload.lookup (text "version") = some (.int stateFormatVersion) := by
  rw [header, bind_eq_ok_iff]
  constructor
  · rintro ⟨v, hv, h⟩
    split at h
    · rename_i hf
      obtain ⟨w, hw, h⟩ := bind_eq_ok_iff.mp h
      obtain ⟨n, hn, h⟩ := bind_eq_ok_iff.mp h
      split at h
      · rename_i heq
        rw [item_eq_ok_iff] at hv hw
        rw [hv, hw, isText_iff.mp hf, asInteger_eq_ok_iff.mp hn, heq]
        exact ⟨rfl, rfl⟩
      · exact absurd h (by simp)
    · exact absurd h (by simp)
  · rintro ⟨hf, hv⟩
    refine ⟨_, item_eq_ok_iff.mpr hf, ?_⟩
    rw [if_pos (isText_iff.mpr rfl), item_eq_ok_iff.mpr hv]
    rfl

theorem objectFields_eq_ok_iff {v : Json} {name : String} {keys : List String}
    {payload : List (Text × Json)} :
    objectFields v name keys = .ok payload ↔
      v = .obj payload ∧ ∀ k, k ∈ payload.map Prod.fst ↔ k ∈ keys.map text := by
  cases v with
  | obj typed =>
    rw [objectFields]
    split
    · rename_i h
      rw [Except.ok.injEq, Json.obj.injEq]
      exact ⟨fun heq ↦ ⟨heq, heq ▸ fun k ↦ ⟨h.1 k, h.2 k⟩⟩, fun h ↦ h.1⟩
    · rename_i h
      refine iff_of_false (by simp) fun ⟨heq, hkeys⟩ ↦ h ?_
      rw [Json.obj.inj heq]
      exact ⟨fun k ↦ (hkeys k).mp, fun k ↦ (hkeys k).mpr⟩
  | _ => simp [objectFields]

/-! ## Identities -/

/-- **An object is read as an identity exactly when it agrees with its payload.** -/
theorem identityFromPayload_eq_ok_iff {v : Json} {x : RunIdentity} :
    identityFromPayload v = .ok x ↔
      ∃ members, v = .obj members ∧ Agrees members (identityPayload x) := by
  constructor
  · intro h
    simp only [identityFromPayload, bind_eq_ok_iff, objectFields_eq_ok_iff, translate_eq_ok_iff,
      item_eq_ok_iff, asText_eq_ok_iff, Checked.new_eq_ok_iff, parseTimestamp_eq_ok_iff] at h
    obtain ⟨members, ⟨rfl, hkeys⟩, ⟨⟨⟩, hheader, h⟩⟩ := h
    obtain ⟨hformat, hversion⟩ := header_eq_ok_iff.mp hheader
    obtain ⟨_, hrun, _, rfl, r, rfl, _, hid, _, rfl, i, rfl, _, hver, _, rfl, w, rfl,
      _, hhash, _, rfl, ch, rfl, _, hbase, _, rfl, bs, rfl, _, hpol, _, rfl, ph, rfl,
      _, hat, at', rfl, h⟩ := h
    rw [RunIdentity.new, requireUtc_utc, ok_bind, Except.ok.injEq] at h
    subst h
    refine ⟨members, rfl, hkeys, ?_⟩
    simp only [identityPayload, List.forall_mem_cons, List.not_mem_nil, false_imp_iff,
      implies_true, and_true]
    exact ⟨hbase, hhash, hid, hver, hat, hformat, hpol, hrun, hversion⟩
  · rintro ⟨members, rfl, hkeys, hvalues⟩
    simp only [identityPayload, List.forall_mem_cons, List.not_mem_nil, false_imp_iff,
      implies_true, and_true] at hvalues
    obtain ⟨hbase, hhash, hid, hver, hat, hformat, hpol, hrun, hversion⟩ := hvalues
    rw [identityFromPayload, objectFields_eq_ok_iff.mpr ⟨rfl, hkeys⟩, ok_bind,
      header_eq_ok_iff.mpr ⟨hformat, hversion⟩, ok_bind, translate_eq_ok_iff]
    simp only [item_eq_ok_iff.mpr hrun, item_eq_ok_iff.mpr hid, item_eq_ok_iff.mpr hver,
      item_eq_ok_iff.mpr hhash, item_eq_ok_iff.mpr hbase, item_eq_ok_iff.mpr hpol,
      item_eq_ok_iff.mpr hat, asText_eq_ok_iff.mpr rfl, Checked.new_value, ok_bind,
      parseTimestamp_eq_ok_iff.mpr rfl]
    rfl

/-- Keys in strictly increasing order. -/
def SortedKeys (keys : List String) : Prop :=
  (keys.map text).Pairwise fun a b ↦ a.le b = true ∧ a ≠ b

instance (keys : List String) : Decidable (SortedKeys keys) :=
  inferInstanceAs (Decidable (List.Pairwise _ _))

theorem nodupKeys_of_sortedKeys {members : List (Text × Json)} (keys : List String)
    (hs : SortedKeys keys) (hm : members.map Prod.fst = keys.map text) : NodupKeys members := by
  rw [NodupKeys, hm]
  exact nodup_of_strictly_sorted hs

theorem identityPayload_nodup (x : RunIdentity) : NodupKeys (identityPayload x) :=
  nodupKeys_of_sortedKeys identityKeys (by decide) rfl

theorem identityPayload_canonical (x : RunIdentity) : (Json.obj (identityPayload x)).Canonical := by
  rw [Json.Canonical]
  refine ⟨(by decide : SortedKeys identityKeys), ?_⟩
  simp only [identityPayload, CanonicalMembers, Json.Canonical, and_self]

theorem identityPayload_depth (x : RunIdentity) : (Json.obj (identityPayload x)).depth = 1 := by
  simp only [Json.depth, identityPayload, depthMembers, Nat.max_self, Nat.zero_add]

/-- What is read as an identity, no key being repeated, is printed like its payload. -/
theorem dumps_identityPayload {v : Json} {x : RunIdentity} (h : identityFromPayload v = .ok x)
    (hnd : v.Everywhere NodupKeys) : dumps v = dumps (.obj (identityPayload x)) := by
  obtain ⟨members, rfl, hagrees⟩ := identityFromPayload_eq_ok_iff.mp h
  rw [Json.Everywhere] at hnd
  exact hagrees.dumps_eq hnd.1 (identityPayload_nodup x)

/-- **`deserialize_run_identity` and `serialize_run_identity` are one relation.** -/
theorem deserializeRunIdentity_eq_ok_iff {b : Bytes} {x : RunIdentity} :
    deserializeRunIdentity b = .ok x ↔ serializeRunIdentity x = .ok b := by
  rw [deserializeRunIdentity, serializeRunIdentity, bind_eq_ok_iff]
  constructor
  · rintro ⟨members, hload, h⟩
    obtain ⟨hdump, hnd⟩ := dumpObject_loadObject hload
    rw [dumpObject_eq_ok_iff] at hdump ⊢
    rwa [dumps_identityPayload h hnd] at hdump
  · intro h
    refine ⟨identityPayload x, loadObject_dumpObject (identityPayload_canonical x) ?_ h,
      identityFromPayload_eq_ok_iff.mpr ⟨_, rfl, .refl (identityPayload_nodup x)⟩⟩
    rw [identityPayload_depth]
    decide

/-! ## Checkpoints -/

/-- **An object is read as a checkpoint exactly when it agrees with its payload**, whichever way
its identity is spelled. -/
theorem checkpointFromPayload_eq_ok_iff {v : Json} {c : RunCheckpoint} :
    checkpointFromPayload v = .ok c ↔
      ∃ members identity, v = .obj members ∧ identityFromPayload identity = .ok c.identity ∧
        Agrees members (checkpointPayload identity c.lifecycle) := by
  constructor
  · intro h
    simp only [checkpointFromPayload, bind_eq_ok_iff, objectFields_eq_ok_iff, translate_eq_ok_iff,
      item_eq_ok_iff, asText_eq_ok_iff, asInteger_eq_ok_iff, LifecycleState.new_eq_ok_iff,
      parseTimestamp_eq_ok_iff, RunLifecycle.new_eq_ok_iff, RunCheckpoint.new_eq_ok_iff] at h
    obtain ⟨members, ⟨rfl, hkeys⟩, ⟨⟨⟩, hheader, h⟩⟩ := h
    obtain ⟨hformat, hversion⟩ := header_eq_ok_iff.mp hheader
    obtain ⟨idJson, hidentity, i, hi, _, hstate, _, rfl, s, rfl, _, hrevision, n, rfl, _, hat, t,
      rfl, fj, hfinal, f, hf, l, ⟨-, rfl, rfl, hl, rfl⟩, rfl, rfl⟩ := h
    refine ⟨members, idJson, rfl, hi, hkeys, ?_⟩
    obtain rfl := congrArg DateTime.civil hl
    rw [asOptionalText_eq_ok_iff] at hf
    subst hf
    simp only [checkpointPayload, List.forall_mem_cons, List.not_mem_nil, false_imp_iff,
      implies_true, and_true]
    exact ⟨hfinal, hformat, hidentity, hrevision, hstate, hat, hversion⟩
  · rintro ⟨members, idJson, rfl, hi, hkeys, hvalues⟩
    simp only [checkpointPayload, List.forall_mem_cons, List.not_mem_nil, false_imp_iff,
      implies_true, and_true] at hvalues
    obtain ⟨hfinal, hformat, hidentity, hrevision, hstate, hat, hversion⟩ := hvalues
    rw [checkpointFromPayload, objectFields_eq_ok_iff.mpr ⟨rfl, hkeys⟩, ok_bind,
      header_eq_ok_iff.mpr ⟨hformat, hversion⟩, ok_bind, translate_eq_ok_iff]
    have hl : RunLifecycle.new c.identity.runId c.lifecycle.state c.lifecycle.revision
        (utc c.lifecycle.updatedAt) (finalText c.lifecycle.finalState) = .ok c.lifecycle :=
      RunLifecycle.new_eq_ok_iff.mpr ⟨c.runId_eq.symm, rfl, rfl, rfl, rfl⟩
    simp only [item_eq_ok_iff.mpr hidentity, hi, item_eq_ok_iff.mpr hstate,
      item_eq_ok_iff.mpr hrevision, item_eq_ok_iff.mpr hat, item_eq_ok_iff.mpr hfinal,
      asText_eq_ok_iff.mpr rfl, asInteger_eq_ok_iff.mpr rfl, LifecycleState.new_eq_ok_iff.mpr rfl,
      parseTimestamp_eq_ok_iff.mpr rfl, asOptionalText_eq_ok_iff.mpr rfl, ok_bind, hl]
    exact RunCheckpoint.new_eq_ok_iff.mpr ⟨rfl, rfl⟩

theorem checkpointPayload_nodup (identity : Json) (l : RunLifecycle) :
    NodupKeys (checkpointPayload identity l) :=
  nodupKeys_of_sortedKeys checkpointKeys (by decide) rfl

theorem finalStateJson_canonical (f : Option FinalState) : (finalStateJson f).Canonical := by
  cases f <;> simp only [finalStateJson, Json.Canonical]

theorem finalStateJson_depth (f : Option FinalState) : (finalStateJson f).depth = 0 := by
  cases f <;> simp only [finalStateJson, Json.depth]

theorem checkpointPayload_canonical (c : RunCheckpoint) :
    (Json.obj (checkpointPayload (.obj (identityPayload c.identity)) c.lifecycle)).Canonical := by
  rw [Json.Canonical]
  refine ⟨(by decide : SortedKeys checkpointKeys), ?_⟩
  have hidentity := identityPayload_canonical c.identity
  simp only [checkpointPayload, CanonicalMembers, finalStateJson_canonical, hidentity,
    Json.Canonical.eq_def (.str _), Json.Canonical.eq_def (.int _), and_self]

theorem checkpointPayload_depth (c : RunCheckpoint) :
    (Json.obj (checkpointPayload (.obj (identityPayload c.identity)) c.lifecycle)).depth = 2 := by
  rw [Json.depth, checkpointPayload]
  simp only [depthMembers, identityPayload_depth, finalStateJson_depth, Json.depth.eq_def (.str _),
    Json.depth.eq_def (.int _), Nat.max_zero, Nat.zero_max]

/-- Payloads that print their identities alike are printed alike. -/
theorem dumps_checkpointPayload {v w : Json} (h : dumps v = dumps w) (l : RunLifecycle) :
    dumps (.obj (checkpointPayload v l)) = dumps (.obj (checkpointPayload w l)) := by
  rw [dumps, dumps, dumpsMembers_congr]
  simp only [checkpointPayload, List.map_cons, h]

/-- **`deserialize_checkpoint` and `serialize_checkpoint` are one relation.** -/
theorem deserializeCheckpoint_eq_ok_iff {b : Bytes} {c : RunCheckpoint} :
    deserializeCheckpoint b = .ok c ↔ serializeCheckpoint c = .ok b := by
  rw [deserializeCheckpoint, serializeCheckpoint, bind_eq_ok_iff]
  constructor
  · rintro ⟨members, hload, h⟩
    obtain ⟨hdump, hnd⟩ := dumpObject_loadObject hload
    obtain ⟨members, identity, heq, hi, hagrees⟩ := checkpointFromPayload_eq_ok_iff.mp h
    obtain rfl := Json.obj.inj heq
    rw [Json.Everywhere] at hnd
    have hidentity : identity.Everywhere NodupKeys := by
      have hmem : (text "identity", identity) ∈ members :=
        (lookup_eq_some_iff hnd.1).mp
          (hagrees.values (text "identity", identity) (by simp [checkpointPayload]))
      exact hnd.2.of_mem hmem
    rw [dumpObject_eq_ok_iff] at hdump ⊢
    rwa [hagrees.dumps_eq hnd.1 (checkpointPayload_nodup _ _),
      dumps_checkpointPayload (dumps_identityPayload hi hidentity)] at hdump
  · intro h
    refine ⟨_, loadObject_dumpObject (checkpointPayload_canonical c) ?_ h,
      checkpointFromPayload_eq_ok_iff.mpr ⟨_, _, rfl, ?_, .refl (checkpointPayload_nodup _ _)⟩⟩
    · rw [checkpointPayload_depth]
    · exact identityFromPayload_eq_ok_iff.mpr ⟨_, rfl, .refl (identityPayload_nodup _)⟩

/-! ## Transitions -/

/-- **An object is read as a transition exactly when it agrees with its payload.** -/
theorem transitionFromPayload_eq_ok_iff {v : Json} {t : LifecycleTransition} :
    transitionFromPayload v = .ok t ↔
      ∃ members, v = .obj members ∧ Agrees members (transitionPayload t) := by
  constructor
  · intro h
    simp only [transitionFromPayload, bind_eq_ok_iff, objectFields_eq_ok_iff, translate_eq_ok_iff,
      item_eq_ok_iff, asText_eq_ok_iff, asInteger_eq_ok_iff, LifecycleState.new_eq_ok_iff,
      Checked.new_eq_ok_iff, parseTimestamp_eq_ok_iff, LifecycleTransition.new_eq_ok_iff] at h
    obtain ⟨members, ⟨rfl, hkeys⟩, ⟨⟨⟩, hheader, h⟩⟩ := h
    obtain ⟨hformat, hversion⟩ := header_eq_ok_iff.mp hheader
    obtain ⟨_, hrun, _, rfl, r, rfl, _, hrevision, n, rfl, _, hfrom, _, rfl, s, rfl, _, hto, _, rfl,
      s', rfl, _, hat, u, rfl, _, hactor, _, rfl, a, rfl, fj, hfinal, f, hf, rfl, rfl, rfl, rfl,
      hu, rfl, rfl⟩ := h
    refine ⟨members, rfl, hkeys, ?_⟩
    obtain rfl := congrArg DateTime.civil hu
    rw [asOptionalText_eq_ok_iff] at hf
    subst hf
    simp only [transitionPayload, List.forall_mem_cons, List.not_mem_nil, false_imp_iff,
      implies_true, and_true]
    exact ⟨hactor, hfinal, hformat, hfrom, hat, hrevision, hrun, hto, hversion⟩
  · rintro ⟨members, rfl, hkeys, hvalues⟩
    simp only [transitionPayload, List.forall_mem_cons, List.not_mem_nil, false_imp_iff,
      implies_true, and_true] at hvalues
    obtain ⟨hactor, hfinal, hformat, hfrom, hat, hrevision, hrun, hto, hversion⟩ := hvalues
    rw [transitionFromPayload, objectFields_eq_ok_iff.mpr ⟨rfl, hkeys⟩, ok_bind,
      header_eq_ok_iff.mpr ⟨hformat, hversion⟩, ok_bind, translate_eq_ok_iff]
    simp only [item_eq_ok_iff.mpr hrun, item_eq_ok_iff.mpr hrevision, item_eq_ok_iff.mpr hfrom,
      item_eq_ok_iff.mpr hto, item_eq_ok_iff.mpr hat, item_eq_ok_iff.mpr hactor,
      item_eq_ok_iff.mpr hfinal, asText_eq_ok_iff.mpr rfl, asInteger_eq_ok_iff.mpr rfl,
      LifecycleState.new_eq_ok_iff.mpr rfl, Checked.new_value, parseTimestamp_eq_ok_iff.mpr rfl,
      asOptionalText_eq_ok_iff.mpr rfl, ok_bind]
    exact LifecycleTransition.new_eq_ok_iff.mpr ⟨rfl, rfl, rfl, rfl, rfl, rfl, rfl⟩

theorem transitionPayload_nodup (t : LifecycleTransition) : NodupKeys (transitionPayload t) :=
  nodupKeys_of_sortedKeys transitionKeys (by decide) rfl

theorem transitionPayload_canonical (t : LifecycleTransition) :
    (Json.obj (transitionPayload t)).Canonical := by
  rw [Json.Canonical]
  refine ⟨(by decide : SortedKeys transitionKeys), ?_⟩
  simp only [transitionPayload, CanonicalMembers, finalStateJson_canonical,
    Json.Canonical.eq_def (.str _), Json.Canonical.eq_def (.int _), and_self]

theorem transitionPayload_depth (t : LifecycleTransition) :
    (Json.obj (transitionPayload t)).depth = 1 := by
  rw [Json.depth, transitionPayload]
  simp only [depthMembers, finalStateJson_depth, Json.depth.eq_def (.str _),
    Json.depth.eq_def (.int _), Nat.max_self]

/-- **`deserialize_transition` and `serialize_transition` are one relation.** -/
theorem deserializeTransition_eq_ok_iff {b : Bytes} {t : LifecycleTransition} :
    deserializeTransition b = .ok t ↔ serializeTransition t = .ok b := by
  rw [deserializeTransition, serializeTransition, bind_eq_ok_iff]
  constructor
  · rintro ⟨members, hload, h⟩
    obtain ⟨hdump, hnd⟩ := dumpObject_loadObject hload
    obtain ⟨members, heq, hagrees⟩ := transitionFromPayload_eq_ok_iff.mp h
    obtain rfl := Json.obj.inj heq
    rw [Json.Everywhere] at hnd
    rw [dumpObject_eq_ok_iff] at hdump ⊢
    rwa [hagrees.dumps_eq hnd.1 (transitionPayload_nodup t)] at hdump
  · intro h
    refine ⟨_, loadObject_dumpObject (transitionPayload_canonical t) ?_ h,
      transitionFromPayload_eq_ok_iff.mpr ⟨_, rfl, .refl (transitionPayload_nodup t)⟩⟩
    rw [transitionPayload_depth]
    decide

/-! ## The codecs -/

/-- Identities as bytes. -/
def identityCodec : Lib.Codec Exc RunIdentity Bytes :=
  ⟨serializeRunIdentity, deserializeRunIdentity, deserializeRunIdentity_eq_ok_iff⟩

/-- Checkpoints as bytes. -/
def checkpointCodec : Lib.Codec Exc RunCheckpoint Bytes :=
  ⟨serializeCheckpoint, deserializeCheckpoint, deserializeCheckpoint_eq_ok_iff⟩

/-- Transitions as bytes. -/
def transitionCodec : Lib.Codec Exc LifecycleTransition Bytes :=
  ⟨serializeTransition, deserializeTransition, deserializeTransition_eq_ok_iff⟩

/-! ## What can be serialized -/

/-- Dumping fails in one way only. -/
theorem eq_of_dumpObject_eq_error {value : List (Text × Json)} {e : Exc}
    (h : dumpObject value = .error e) :
    e = .stateSerializationError "state cannot be represented as canonical JSON" := by
  obtain ⟨e', he', rfl⟩ := translate_eq_error_iff.mp h
  rw [if_pos]
  rcases bind_eq_error_iff.mp he' with h | ⟨t, -, h⟩
  · rw [jsonDumps] at h
    split at h
    · exact absurd h (by simp)
    · rw [← Except.error.inj h]; rfl
  · rw [encodeText] at h
    split at h
    · exact absurd h (by simp)
    · rw [← Except.error.inj h]; rfl

theorem exists_dumpObject_iff {value : List (Text × Json)} (hc : (Json.obj value).Canonical) :
    (∃ b, dumpObject value = .ok b) ↔
      (Json.obj value).Printable ∧ (Json.obj value).Encodable := by
  simp only [dumpObject_eq_ok_iff]
  constructor
  · rintro ⟨b, t, ht, hb⟩
    exact ⟨(dumps_isSome_iff _).mp (by rw [ht]; rfl),
      (encodable_dumps_iff _ ht hc).mp (encodeUtf8_isSome_iff.mp (by rw [hb]; rfl))⟩
  · rintro ⟨hprint, henc⟩
    obtain ⟨t, ht⟩ := Option.isSome_iff_exists.mp ((dumps_isSome_iff _).mpr hprint)
    obtain ⟨b, hb⟩ := Option.isSome_iff_exists.mp
      (encodeUtf8_isSome_iff.mpr ((encodable_dumps_iff _ ht hc).mpr henc))
    exact ⟨b, t, ht, hb⟩

theorem encodable_finalStateJson (f : Option FinalState) : (finalStateJson f).Encodable := by
  cases f with
  | none => rw [finalStateJson, Json.Encodable]; trivial
  | some f => rw [finalStateJson, Json.Encodable]; exact f.encodable_value

theorem printable_finalStateJson (f : Option FinalState) : (finalStateJson f).Printable := by
  cases f <;> simp only [finalStateJson, Json.Printable]

theorem encodable_identityPayload_iff (x : RunIdentity) :
    (Json.obj (identityPayload x)).Encodable ↔ x.Encodable := by
  simp only [identityPayload, Json.Encodable, EncodableMembers, encodable_text, true_and, and_true,
    x.baselineSha.encodable, encodable_of_sha256 x.contractHash, encodable_timestamp,
    encodable_of_sha256 x.policyHash, x.runId.encodable, RunIdentity.Encodable, identityFormat]

theorem printable_identityPayload (x : RunIdentity) : (Json.obj (identityPayload x)).Printable := by
  simp only [identityPayload, Json.Printable, PrintableMembers, printable_version, and_self]

/-- An identity can be serialized exactly when its texts can be encoded. -/
theorem exists_serializeRunIdentity_iff {x : RunIdentity} :
    (∃ b, serializeRunIdentity x = .ok b) ↔ x.Encodable := by
  simp only [serializeRunIdentity, exists_dumpObject_iff (identityPayload_canonical x),
    printable_identityPayload, encodable_identityPayload_iff, true_and]

/-- A checkpoint can be serialized exactly when its identity can and its revision is short
enough. -/
theorem exists_serializeCheckpoint_iff {c : RunCheckpoint} :
    (∃ b, serializeCheckpoint c = .ok b) ↔
      c.identity.Encodable ∧ RevisionPrintable c.lifecycle.revision := by
  have hid := encodable_identityPayload_iff c.identity
  have hprint := printable_identityPayload c.identity
  rw [serializeCheckpoint, exists_dumpObject_iff (checkpointPayload_canonical c), and_comm]
  refine and_congr ?_ ?_
  · rw [Json.Encodable]
    simp only [checkpointPayload, EncodableMembers, hid, encodable_text, true_and, and_true,
      encodable_finalStateJson, Json.Encodable.eq_def (.str _), Json.Encodable.eq_def (.int _),
      c.lifecycle.state.encodable_value, encodable_timestamp, checkpointFormat]
  · rw [Json.Printable]
    simp only [checkpointPayload, PrintableMembers, hprint, true_and, and_true,
      printable_finalStateJson, Json.Printable.eq_def (.str _), Json.Printable.eq_def (.int _),
      printable_version, RevisionPrintable, Int.natAbs_natCast]

/-- A transition can be serialized exactly when its revision is short enough. -/
theorem exists_serializeTransition_iff {t : LifecycleTransition} :
    (∃ b, serializeTransition t = .ok b) ↔ RevisionPrintable t.revision := by
  rw [serializeTransition, exists_dumpObject_iff (transitionPayload_canonical t), and_iff_left]
  · rw [Json.Printable]
    simp only [transitionPayload, PrintableMembers, true_and, and_true,
      printable_finalStateJson, Json.Printable.eq_def (.str _), Json.Printable.eq_def (.int _),
      printable_version, RevisionPrintable, Int.natAbs_natCast]
  · rw [Json.Encodable]
    simp only [transitionPayload, EncodableMembers, encodable_text, and_self,
      encodable_finalStateJson, Json.Encodable.eq_def (.str _), Json.Encodable.eq_def (.int _),
      t.actor.encodable, t.fromState.encodable_value, t.toState.encodable_value,
      encodable_timestamp, t.runId.encodable, transitionFormat]

/-! ## Three languages -/

/-- The format a byte string declares. -/
def declaredFormat (b : Bytes) : Option Text :=
  match loadObject b with
  | .ok members =>
    match members.lookup (text "format") with
    | some (.str f) => some f
    | _ => none
  | .error _ => none

theorem declaredFormat_identity {b : Bytes} {x : RunIdentity}
    (h : deserializeRunIdentity b = .ok x) : declaredFormat b = some identityFormat := by
  obtain ⟨members, hload, h⟩ := bind_eq_ok_iff.mp h
  obtain ⟨_, heq, hagrees⟩ := identityFromPayload_eq_ok_iff.mp h
  obtain rfl := Json.obj.inj heq
  have hformat := hagrees.values (text "format", .str identityFormat) (by simp [identityPayload])
  simp only [declaredFormat, hload, hformat]

theorem declaredFormat_checkpoint {b : Bytes} {c : RunCheckpoint}
    (h : deserializeCheckpoint b = .ok c) : declaredFormat b = some checkpointFormat := by
  obtain ⟨members, hload, h⟩ := bind_eq_ok_iff.mp h
  obtain ⟨_, _, heq, _, hagrees⟩ := checkpointFromPayload_eq_ok_iff.mp h
  obtain rfl := Json.obj.inj heq
  have hformat := hagrees.values (text "format", .str checkpointFormat)
    (by simp [checkpointPayload])
  simp only [declaredFormat, hload, hformat]

theorem declaredFormat_transition {b : Bytes} {t : LifecycleTransition}
    (h : deserializeTransition b = .ok t) : declaredFormat b = some transitionFormat := by
  obtain ⟨members, hload, h⟩ := bind_eq_ok_iff.mp h
  obtain ⟨_, heq, hagrees⟩ := transitionFromPayload_eq_ok_iff.mp h
  obtain rfl := Json.obj.inj heq
  have hformat := hagrees.values (text "format", .str transitionFormat)
    (by simp [transitionPayload])
  simp only [declaredFormat, hload, hformat]

/-- **The three state codecs are exact bijections onto disjoint languages.**  A byte string is
accepted exactly when it is the one canonical serialization of the value it is accepted as; no byte
string is accepted by two of the decoders; and serialization fails only for want of a UTF-8 encoding
or because a revision has too many digits. -/
theorem stateCodecs_exact :
    ((∀ (x : RunIdentity) (b : Bytes), serializeRunIdentity x = .ok b →
        deserializeRunIdentity b = .ok x) ∧
      (∀ (c : RunCheckpoint) (b : Bytes), serializeCheckpoint c = .ok b →
        deserializeCheckpoint b = .ok c) ∧
      ∀ (t : LifecycleTransition) (b : Bytes), serializeTransition t = .ok b →
        deserializeTransition b = .ok t) ∧
    ((∀ (b : Bytes) (x : RunIdentity), deserializeRunIdentity b = .ok x →
        serializeRunIdentity x = .ok b) ∧
      (∀ (b : Bytes) (c : RunCheckpoint), deserializeCheckpoint b = .ok c →
        serializeCheckpoint c = .ok b) ∧
      ∀ (b : Bytes) (t : LifecycleTransition), deserializeTransition b = .ok t →
        serializeTransition t = .ok b) ∧
    (∀ (b : Bytes) (x : RunIdentity) (c : RunCheckpoint) (t : LifecycleTransition),
      ¬(deserializeRunIdentity b = .ok x ∧ deserializeCheckpoint b = .ok c) ∧
        ¬(deserializeRunIdentity b = .ok x ∧ deserializeTransition b = .ok t) ∧
        ¬(deserializeCheckpoint b = .ok c ∧ deserializeTransition b = .ok t)) ∧
    ((∀ x : RunIdentity, x.Encodable → ∃ b, serializeRunIdentity x = .ok b) ∧
      (∀ c : RunCheckpoint, c.identity.Encodable → RevisionPrintable c.lifecycle.revision →
        ∃ b, serializeCheckpoint c = .ok b) ∧
      ∀ t : LifecycleTransition, RevisionPrintable t.revision →
        ∃ b, serializeTransition t = .ok b) := by
  refine ⟨⟨fun _ _ ↦ identityCodec.exact.mpr, fun _ _ ↦ checkpointCodec.exact.mpr,
      fun _ _ ↦ transitionCodec.exact.mpr⟩,
    ⟨fun _ _ ↦ identityCodec.exact.mp, fun _ _ ↦ checkpointCodec.exact.mp,
      fun _ _ ↦ transitionCodec.exact.mp⟩, ?_, ?_⟩
  · intro b x c t
    refine ⟨fun ⟨h, h'⟩ ↦ ?_, fun ⟨h, h'⟩ ↦ ?_, fun ⟨h, h'⟩ ↦ ?_⟩
    · exact absurd ((declaredFormat_identity h).symm.trans (declaredFormat_checkpoint h'))
        (by decide)
    · exact absurd ((declaredFormat_identity h).symm.trans (declaredFormat_transition h'))
        (by decide)
    · exact absurd ((declaredFormat_checkpoint h).symm.trans (declaredFormat_transition h'))
        (by decide)
  · exact ⟨fun _ ↦ exists_serializeRunIdentity_iff.mpr,
      fun _ hid hrev ↦ exists_serializeCheckpoint_iff.mpr ⟨hid, hrev⟩,
      fun _ ↦ exists_serializeTransition_iff.mpr⟩

end Alicerce
