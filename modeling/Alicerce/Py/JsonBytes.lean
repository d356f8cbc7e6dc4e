import Alicerce.Py.JsonInjective

/-!
# The bytes of a printed value

A printed value is put together from the printed values inside it, and UTF-8 encodes one character
after the other, so the bytes of a container are put together from the bytes of what it contains.

* `encoded` is the UTF-8 encoding of a printed value.
* `arrayBytes`, `memberBytes` and `objectBytes` put the bytes of parts together.
* `encoded_arr`: the bytes of an array are those of its items.
* `encoded_obj`: the bytes of an object are those of its keys and its values, when its members stand
  in the order of their keys.
* `IsPiece` is what these parts are.
-/

set_option autoImplicit false

namespace Py

instance : LawfulBEq Bytes where
  eq_of_beq {b c} h := by
    have hdata : (b.data == c.data) = true := h
    exact ByteArray.ext (eq_of_beq hdata)
  rfl {b} := show (b.data == b.data) = true from beq_self_eq_true _

/-! ## Encoding a text piece by piece -/

theorem encodeUtf8_append {t u : Text} {b c : Bytes} (ht : encodeUtf8 t = some b)
    (hu : encodeUtf8 u = some c) : encodeUtf8 (t ++ u) = some (b ++ c) := by
  obtain ⟨s, rfl, rfl⟩ := encodeUtf8_eq_some_iff.mp ht
  obtain ⟨s', rfl, rfl⟩ := encodeUtf8_eq_some_iff.mp hu
  refine encodeUtf8_eq_some_iff.mpr ⟨s ++ s', ?_, String.toByteArray_append.symm⟩
  rw [text, text, text, String.toList_append, List.map_append]

/-- A text has an encoding exactly when its two parts have one. -/
theorem encodeUtf8_append_eq_some_iff {t u : Text} {d : Bytes} : encodeUtf8 (t ++ u) = some d ↔
    ∃ b c, encodeUtf8 t = some b ∧ encodeUtf8 u = some c ∧ d = b ++ c := by
  constructor
  · intro h
    have henc : Encodable (t ++ u) := encodeUtf8_isSome_iff.mp (by rw [h]; rfl)
    rw [encodable_append_iff, ← encodeUtf8_isSome_iff, ← encodeUtf8_isSome_iff,
      Option.isSome_iff_exists, Option.isSome_iff_exists] at henc
    obtain ⟨⟨b, hb⟩, c, hc⟩ := henc
    exact ⟨b, c, hb, hc, Option.some.inj (h.symm.trans (encodeUtf8_append hb hc))⟩
  · rintro ⟨b, c, hb, hc, rfl⟩
    exact encodeUtf8_append hb hc

/-- Byte strings, one after the other, with a separator between them. -/
def joinBytes (separator : Bytes) : List Bytes → Bytes
  | [] => ByteArray.empty
  | [b] => b
  | b :: c :: rest => b ++ separator ++ joinBytes separator (c :: rest)

theorem encodeUtf8_intercalate {sep : Text} {separator : Bytes}
    (hsep : encodeUtf8 sep = some separator) : ∀ {parts : List Text} {d : Bytes},
    encodeUtf8 (sep.intercalate parts) = some d ↔
      ∃ pieces, List.Forall₂ (fun t b ↦ encodeUtf8 t = some b) parts pieces ∧
        d = joinBytes separator pieces
  | [], d => by
    have hnil : encodeUtf8 (sep.intercalate []) = some ByteArray.empty := encodeUtf8_text ""
    rw [hnil, Option.some_inj]
    constructor
    · rintro rfl
      exact ⟨[], .nil, rfl⟩
    · rintro ⟨_, hnone, rfl⟩
      cases hnone
      rfl
  | [t], d => by
    rw [List.intercalate_singleton]
    constructor
    · intro h
      exact ⟨[d], .cons h .nil, rfl⟩
    · rintro ⟨_, hone, rfl⟩
      cases hone with
      | cons ht htail => cases htail; exact ht
  | t :: u :: parts, d => by
    rw [List.intercalate_cons_of_ne_nil (List.cons_ne_nil u parts),
      encodeUtf8_append_eq_some_iff]
    constructor
    · rintro ⟨b, c, hb, hc, rfl⟩
      obtain ⟨b', s, hb', hs, rfl⟩ := encodeUtf8_append_eq_some_iff.mp hb
      obtain rfl := Option.some.inj (hs.symm.trans hsep)
      obtain ⟨pieces, hpieces, rfl⟩ := (encodeUtf8_intercalate hsep).mp hc
      cases hpieces with
      | cons hu hrest => exact ⟨_, .cons hb' (.cons hu hrest), rfl⟩
    · rintro ⟨_, hpieces, rfl⟩
      cases hpieces with
      | cons hb hrest =>
        cases hrest with
        | cons hu hrest =>
          exact ⟨_, _, encodeUtf8_append hb hsep,
            (encodeUtf8_intercalate hsep).mpr ⟨_, .cons hu hrest, rfl⟩, rfl⟩

/-! ## Values -/

/-- An array between its brackets. -/
def arrayBytes (items : List Bytes) : Bytes :=
  "[".toByteArray ++ (joinBytes ",".toByteArray items ++ "]".toByteArray)

/-- A key and its value. -/
def memberBytes (piece : Bytes × Bytes) : Bytes := piece.1 ++ (":".toByteArray ++ piece.2)

/-- An object between its braces. -/
def objectBytes (pieces : List (Bytes × Bytes)) : Bytes :=
  "\x7b".toByteArray ++ (joinBytes ",".toByteArray (pieces.map memberBytes) ++ "\x7d".toByteArray)

/-- What stands between two delimiters. -/
theorem encodeUtf8_delimited {opening closing : Char} {t : Text} {b : Bytes} :
    encodeUtf8 (.scalar opening :: (t ++ [.scalar closing])) = some b ↔
      ∃ c, encodeUtf8 t = some c ∧
        b = (String.singleton opening).toByteArray ++
          (c ++ (String.singleton closing).toByteArray) := by
  have hone (x : Char) : encodeUtf8 [.scalar x] = some (String.singleton x).toByteArray := by
    have hx := encodeUtf8_text (String.singleton x)
    rwa [text, String.toList_singleton] at hx
  rw [← List.singleton_append, encodeUtf8_append_eq_some_iff]
  constructor
  · rintro ⟨o, r, ho, hr, rfl⟩
    obtain ⟨c, e, hc, he, rfl⟩ := encodeUtf8_append_eq_some_iff.mp hr
    rw [hone, Option.some_inj] at ho he
    exact ⟨c, hc, by rw [ho, he]⟩
  · rintro ⟨c, hc, rfl⟩
    exact ⟨_, _, hone opening, encodeUtf8_append hc (hone closing), rfl⟩

theorem encodeUtf8_member_iff {p : Text × Text} {b : Bytes} : encodeUtf8 (member p) = some b ↔
    ∃ piece : Bytes × Bytes, encodeUtf8 (quote p.1) = some piece.1 ∧
      encodeUtf8 p.2 = some piece.2 ∧ b = memberBytes piece := by
  have hcolon : encodeUtf8 [.scalar ':'] = some ":".toByteArray := encodeUtf8_text ":"
  rw [member, encodeUtf8_append_eq_some_iff]
  constructor
  · rintro ⟨k, r, hk, hr, rfl⟩
    rw [← List.singleton_append] at hr
    obtain ⟨c, v, hc, hv, rfl⟩ := encodeUtf8_append_eq_some_iff.mp hr
    obtain rfl := Option.some.inj (hc.symm.trans hcolon)
    exact ⟨(k, v), hk, hv, rfl⟩
  · rintro ⟨⟨k, v⟩, hk, hv, rfl⟩
    exact ⟨k, _, hk, encodeUtf8_append hcolon hv, rfl⟩

variable [Interpreter]

/-- The UTF-8 encoding of a printed value. -/
def encoded (v : Json) : Option Bytes := (dumps v).bind encodeUtf8

theorem encoded_eq_some_iff {v : Json} {b : Bytes} :
    encoded v = some b ↔ ∃ t, dumps v = some t ∧ encodeUtf8 t = some b := by
  rw [encoded, Option.bind_eq_some_iff]

theorem forall₂_encoded_iff : ∀ {items : List Json} {pieces : List Bytes},
    List.Forall₂ (fun v b ↦ encoded v = some b) items pieces ↔
      ∃ parts, dumpsItems items = some parts ∧
        List.Forall₂ (fun t b ↦ encodeUtf8 t = some b) parts pieces
  | [], pieces => by
    rw [dumpsItems]
    simp
  | v :: items, pieces => by
    rw [dumpsItems]
    constructor
    · intro h
      cases h with
      | cons hv hitems =>
        obtain ⟨t, ht, hb⟩ := encoded_eq_some_iff.mp hv
        obtain ⟨parts, hparts, hpieces⟩ := forall₂_encoded_iff.mp hitems
        exact ⟨t :: parts, by rw [ht, hparts]; rfl, .cons hb hpieces⟩
    · rintro ⟨parts, hparts, hpieces⟩
      rw [Option.bind_eq_some_iff] at hparts
      obtain ⟨t, ht, hparts⟩ := hparts
      obtain ⟨rest, hrest, rfl⟩ := Option.map_eq_some_iff.mp hparts
      cases hpieces with
      | cons hb hpieces =>
        exact .cons (encoded_eq_some_iff.mpr ⟨t, ht, hb⟩)
          (forall₂_encoded_iff.mpr ⟨rest, hrest, hpieces⟩)

/-- **The bytes of an array are the bytes of its items**, between brackets. -/
theorem encoded_arr {items : List Json} {b : Bytes} : encoded (.arr items) = some b ↔
    ∃ pieces, List.Forall₂ (fun v b ↦ encoded v = some b) items pieces ∧
      b = arrayBytes pieces := by
  rw [encoded_eq_some_iff]
  simp only [dumps, Option.map_eq_some_iff]
  constructor
  · rintro ⟨_, ⟨parts, hparts, rfl⟩, hb⟩
    obtain ⟨c, hc, rfl⟩ := encodeUtf8_delimited.mp hb
    obtain ⟨pieces, hpieces, rfl⟩ := (encodeUtf8_intercalate (encodeUtf8_text ",")).mp hc
    exact ⟨pieces, forall₂_encoded_iff.mpr ⟨parts, hparts, hpieces⟩, rfl⟩
  · rintro ⟨pieces, hpieces, rfl⟩
    obtain ⟨parts, hparts, hpieces⟩ := forall₂_encoded_iff.mp hpieces
    exact ⟨_, ⟨parts, hparts, rfl⟩, encodeUtf8_delimited.mpr
      ⟨_, (encodeUtf8_intercalate (encodeUtf8_text ",")).mpr ⟨pieces, hpieces, rfl⟩, rfl⟩⟩

/-- A piece is the key of a member and its value, each encoded. -/
def IsPiece (m : Text × Json) (piece : Bytes × Bytes) : Prop :=
  encodeUtf8 (quote m.1) = some piece.1 ∧ encoded m.2 = some piece.2

theorem forall₂_isPiece_iff : ∀ {members : List (Text × Json)} {bs : List Bytes},
    (∃ pieces, List.Forall₂ IsPiece members pieces ∧ bs = pieces.map memberBytes) ↔
      ∃ parts, dumpsMembers members = some parts ∧
        List.Forall₂ (fun t b ↦ encodeUtf8 t = some b) (parts.map member) bs
  | [], bs => by
    rw [dumpsMembers]
    simp
  | (k, v) :: members, bs => by
    rw [dumpsMembers]
    constructor
    · rintro ⟨_, hpieces, rfl⟩
      cases hpieces with
      | cons hpiece hrest =>
        obtain ⟨t, ht, hb⟩ := encoded_eq_some_iff.mp hpiece.2
        obtain ⟨parts, hparts, hbs⟩ := forall₂_isPiece_iff.mp ⟨_, hrest, rfl⟩
        exact ⟨(k, t) :: parts, by rw [ht, hparts]; rfl,
          .cons (encodeUtf8_member_iff.mpr ⟨_, hpiece.1, hb, rfl⟩) hbs⟩
    · rintro ⟨parts, hparts, hbs⟩
      rw [Option.bind_eq_some_iff] at hparts
      obtain ⟨t, ht, hparts⟩ := hparts
      obtain ⟨rest, hrest, rfl⟩ := Option.map_eq_some_iff.mp hparts
      cases hbs with
      | cons hmember hbs =>
        obtain ⟨piece, hkey, hvalue, rfl⟩ := encodeUtf8_member_iff.mp hmember
        obtain ⟨pieces, hpieces, rfl⟩ := forall₂_isPiece_iff.mpr ⟨rest, hrest, hbs⟩
        exact ⟨piece :: pieces,
          .cons ⟨hkey, encoded_eq_some_iff.mpr ⟨t, ht, hvalue⟩⟩ hpieces, rfl⟩

/-- The piece of a member is found under its key. -/
theorem lookup_isPiece {members : List (Text × Json)} {pieces : List (Bytes × Bytes)} {k : Text}
    {v : Json} {quoted : Bytes} (hpieces : List.Forall₂ IsPiece members pieces)
    (hnd : (members.map Prod.fst).Nodup) (hmem : (k, v) ∈ members)
    (hquoted : encodeUtf8 (quote k) = some quoted) :
    ∃ value, pieces.lookup quoted = some value ∧ encoded v = some value := by
  induction hpieces with
  | nil => exact absurd hmem (List.not_mem_nil)
  | @cons m piece members pieces hpiece _ ih =>
    rw [List.map_cons, List.nodup_cons] at hnd
    rw [List.lookup_cons]
    rcases List.mem_cons.mp hmem with rfl | hmem
    · have hkey : quoted = piece.1 := Option.some.inj (hquoted.symm.trans hpiece.1)
      rw [hkey, beq_self_eq_true]
      exact ⟨piece.2, rfl, hpiece.2⟩
    · have hne : quoted ≠ piece.1 := by
        rintro rfl
        have hk : k = m.1 := quote_injective (encodeUtf8_injective hquoted hpiece.1)
        exact hnd.1 (hk ▸ List.mem_map_of_mem hmem)
      rw [beq_false_of_ne hne]
      exact ih hnd.2 hmem

/-- **The bytes of an object are the bytes of its members**, between braces, when they stand in the
order of their keys. -/
theorem encoded_obj {members : List (Text × Json)} {b : Bytes}
    (hsort : (members.map Prod.fst).Pairwise fun a b ↦ a.le b = true ∧ a ≠ b) :
    encoded (.obj members) = some b ↔
      ∃ pieces, List.Forall₂ IsPiece members pieces ∧ b = objectBytes pieces := by
  rw [encoded_eq_some_iff]
  simp only [dumps, Option.map_eq_some_iff]
  constructor
  · rintro ⟨_, ⟨parts, hparts, rfl⟩, hb⟩
    rw [mergeSort_keyLe_eq hsort hparts, braces] at hb
    obtain ⟨c, hc, rfl⟩ := encodeUtf8_delimited.mp hb
    obtain ⟨bs, hbs, rfl⟩ := (encodeUtf8_intercalate (encodeUtf8_text ",")).mp hc
    obtain ⟨pieces, hpieces, rfl⟩ := forall₂_isPiece_iff.mpr ⟨parts, hparts, hbs⟩
    exact ⟨pieces, hpieces, rfl⟩
  · rintro ⟨pieces, hpieces, rfl⟩
    obtain ⟨parts, hparts, hbs⟩ := forall₂_isPiece_iff.mp ⟨pieces, hpieces, rfl⟩
    refine ⟨_, ⟨parts, hparts, rfl⟩, ?_⟩
    rw [mergeSort_keyLe_eq hsort hparts, braces]
    exact encodeUtf8_delimited.mpr
      ⟨_, (encodeUtf8_intercalate (encodeUtf8_text ",")).mpr ⟨_, hbs, rfl⟩, rfl⟩

end Py
