import Alicerce.Py.JsonRoundTrip

/-!
# When a printed value can be written out

With `ensure_ascii=False` every character of a string is printed as itself or as an ASCII escape.

* `Json.Encodable`: every string of a value has a UTF-8 encoding.  A printed value has one exactly
  when that is so (`encodable_dumps_iff`).
* `Json.Printable`: every integer of a value is short enough to be converted.  Whether a value can
  be printed at all depends on its numbers (`dumps_isSome_iff`).
* `Json.Written`: `json.dumps(value, …).encode("utf-8")` succeeds.  An array or an object can be
  written out when what it contains can (`written_arr_iff`, `written_obj_iff`).
-/

set_option autoImplicit false

namespace Py

/-! ## Texts -/

theorem encodable_escape_iff (c : CodePoint) : Encodable (escape c) ↔ c.scalar?.isSome := by
  have hscalar : ∀ n, c.ord = n → n < 0x80 → c.scalar?.isSome = true := fun n hn hlt ↦
    isSome_scalar?_of_ord_lt (by omega)
  have hhex : ∀ n, (hexChar n).scalar?.isSome = true := fun n ↦ rfl
  rw [escape]
  split
  · rename_i h; rw [h]; exact iff_of_true (by decide) rfl
  split
  · rename_i h; rw [h]; exact iff_of_true (by decide) rfl
  split
  · rename_i h; exact iff_of_true (by decide) (hscalar _ h (by decide))
  split
  · rename_i h; exact iff_of_true (by decide) (hscalar _ h (by decide))
  split
  · rename_i h; exact iff_of_true (by decide) (hscalar _ h (by decide))
  split
  · rename_i h; exact iff_of_true (by decide) (hscalar _ h (by decide))
  split
  · rename_i h; exact iff_of_true (by decide) (hscalar _ h (by decide))
  split
  · rename_i h
    refine iff_of_true ?_ (isSome_scalar?_of_ord_lt (by omega))
    rw [encodable_append_iff]
    exact ⟨encodable_text _, by simp [hhex]⟩
  · simp

theorem encodable_flatMap_iff {f : CodePoint → Text}
    (hf : ∀ c, Encodable (f c) ↔ c.scalar?.isSome) (s : Text) :
    Encodable (s.flatMap f) ↔ Encodable s := by
  induction s with
  | nil => exact Iff.rfl
  | cons c s ih => rw [List.flatMap_cons, encodable_append_iff, encodable_cons, ih, hf]

theorem encodable_quote_iff (s : Text) : Encodable (quote s) ↔ Encodable s := by
  rw [quote, encodable_cons, encodable_append_iff, encodable_flatMap_iff encodable_escape_iff]
  simp [CodePoint.scalar?]

theorem encodable_intercalate_iff {sep : Text} (hsep : Encodable sep) (parts : List Text) :
    Encodable (sep.intercalate parts) ↔ ∀ p ∈ parts, Encodable p := by
  induction parts with
  | nil => simp
  | cons p parts ih =>
    cases parts with
    | nil => simp
    | cons q parts =>
      rw [List.intercalate_cons_of_ne_nil (List.cons_ne_nil q parts), encodable_append_iff,
        encodable_append_iff, ih, List.forall_mem_cons (l := q :: parts)]
      exact ⟨fun h ↦ ⟨h.1.1, h.2⟩, fun h ↦ ⟨⟨h.1, hsep⟩, h.2⟩⟩

theorem encodable_member_iff (p : Text × Text) :
    Encodable (member p) ↔ Encodable p.1 ∧ Encodable p.2 := by
  rw [member, encodable_append_iff, encodable_quote_iff, encodable_cons]
  simp [CodePoint.scalar?]

theorem encodable_braces_iff (parts : List (Text × Text)) :
    Encodable (braces parts) ↔ ∀ p ∈ parts, Encodable p.1 ∧ Encodable p.2 := by
  rw [braces, encodable_cons, encodable_append_iff,
    encodable_intercalate_iff (encodable_text ","), List.forall_mem_map]
  simp [CodePoint.scalar?, encodable_member_iff]

theorem encodable_decimal (n : ℕ) : Encodable (decimal n) :=
  encodable_of_all (range_ascii (by decide)) (decimal_all_digit n)

theorem encodable_intRepr {n : ℤ} {d : Text} (hd : intRepr n = some d) : Encodable d := by
  rw [intRepr] at hd
  split at hd
  · rw [Option.some_inj] at hd
    subst hd
    split
    · exact encodable_cons.mpr ⟨rfl, encodable_decimal _⟩
    · exact encodable_decimal _
  · exact absurd hd (by simp)

/-! ## Values -/

variable [Interpreter]

mutual

/-- Every string of a value, keys included, has a UTF-8 encoding. -/
def Json.Encodable : Json → Prop
  | .null | .bool _ | .int _ | .float _ => True
  | .str s => Py.Encodable s
  | .arr items => EncodableItems items
  | .obj members => EncodableMembers members

/-- Every string of every item has a UTF-8 encoding. -/
def EncodableItems : List Json → Prop
  | [] => True
  | v :: items => v.Encodable ∧ EncodableItems items

/-- Every string of every member has a UTF-8 encoding. -/
def EncodableMembers : List (Text × Json) → Prop
  | [] => True
  | (k, v) :: members => Py.Encodable k ∧ v.Encodable ∧ EncodableMembers members

end

mutual

/-- Every integer of a value is short enough to be converted. -/
def Json.Printable : Json → Prop
  | .null | .bool _ | .str _ => True
  | .int n => (decimal n.natAbs).length ≤ maxStrDigits
  | .float x => (Interpreter.floatRepr x).isSome = true
  | .arr items => PrintableItems items
  | .obj members => PrintableMembers members

/-- Every integer of every item is short enough. -/
def PrintableItems : List Json → Prop
  | [] => True
  | v :: items => v.Printable ∧ PrintableItems items

/-- Every integer of every member is short enough. -/
def PrintableMembers : List (Text × Json) → Prop
  | [] => True
  | (_, v) :: members => v.Printable ∧ PrintableMembers members

end

mutual

/-- **What is printed can be encoded exactly when every string in it can.** -/
theorem encodable_dumps_iff : ∀ (v : Json) {d : Text}, dumps v = some d → v.Canonical →
    (Encodable d ↔ v.Encodable)
  | .null, d, hd, _ => by
    rw [dumps, Option.some_inj] at hd
    rw [← hd, Json.Encodable]
    exact iff_true_intro (encodable_text _)
  | .bool true, d, hd, _ => by
    rw [dumps, Option.some_inj] at hd
    rw [← hd, Json.Encodable]
    exact iff_true_intro (encodable_text _)
  | .bool false, d, hd, _ => by
    rw [dumps, Option.some_inj] at hd
    rw [← hd, Json.Encodable]
    exact iff_true_intro (encodable_text _)
  | .int n, d, hd, _ => by
    rw [dumps] at hd
    rw [Json.Encodable]
    exact iff_true_intro (encodable_intRepr hd)
  | .float x, d, hd, hc => absurd hc (by rw [Json.Canonical]; exact not_false)
  | .str s, d, hd, _ => by
    rw [dumps, Option.some_inj] at hd
    rw [← hd, encodable_quote_iff, Json.Encodable]
  | .arr items, d, hd, hc => by
    rw [dumps, Option.map_eq_some_iff] at hd
    obtain ⟨parts, hparts, rfl⟩ := hd
    rw [Json.Canonical] at hc
    rw [encodable_cons, encodable_append_iff, encodable_intercalate_iff (encodable_text ","),
      encodable_dumpsItems_iff items hparts hc, Json.Encodable]
    simp [CodePoint.scalar?]
  | .obj members, d, hd, hc => by
    rw [dumps, Option.map_eq_some_iff] at hd
    obtain ⟨parts, hparts, rfl⟩ := hd
    rw [Json.Canonical] at hc
    rw [mergeSort_keyLe_eq hc.1 hparts, encodable_braces_iff,
      encodable_dumpsMembers_iff members hparts hc.2, Json.Encodable]

theorem encodable_dumpsItems_iff : ∀ (items : List Json) {parts : List Text},
    dumpsItems items = some parts → CanonicalItems items →
      ((∀ p ∈ parts, Encodable p) ↔ EncodableItems items)
  | [], parts, hparts, _ => by
    rw [dumpsItems, Option.some_inj] at hparts
    rw [← hparts, EncodableItems]
    simp
  | v :: items, parts, hparts, hc => by
    rw [dumpsItems, Option.bind_eq_some_iff] at hparts
    obtain ⟨part, hpart, hparts⟩ := hparts
    rw [Option.map_eq_some_iff] at hparts
    obtain ⟨rest, hrest, rfl⟩ := hparts
    rw [CanonicalItems] at hc
    rw [List.forall_mem_cons, encodable_dumps_iff v hpart hc.1,
      encodable_dumpsItems_iff items hrest hc.2, EncodableItems]

theorem encodable_dumpsMembers_iff : ∀ (members : List (Text × Json))
    {parts : List (Text × Text)}, dumpsMembers members = some parts → CanonicalMembers members →
      ((∀ p ∈ parts, Encodable p.1 ∧ Encodable p.2) ↔ EncodableMembers members)
  | [], parts, hparts, _ => by
    rw [dumpsMembers, Option.some_inj] at hparts
    rw [← hparts, EncodableMembers]
    simp
  | (k, v) :: members, parts, hparts, hc => by
    rw [dumpsMembers, Option.bind_eq_some_iff] at hparts
    obtain ⟨part, hpart, hparts⟩ := hparts
    rw [Option.map_eq_some_iff] at hparts
    obtain ⟨rest, hrest, rfl⟩ := hparts
    rw [CanonicalMembers] at hc
    rw [List.forall_mem_cons, encodable_dumps_iff v hpart hc.1,
      encodable_dumpsMembers_iff members hrest hc.2, EncodableMembers, and_assoc]

end

mutual

/-- **Printing succeeds exactly when every number in the value has a text.** -/
theorem dumps_isSome_iff : ∀ v : Json, (dumps v).isSome = true ↔ v.Printable
  | .null => by rw [dumps, Json.Printable]; simp
  | .bool true => by rw [dumps, Json.Printable]; simp
  | .bool false => by rw [dumps, Json.Printable]; simp
  | .int n => by rw [dumps, Json.Printable, intRepr]; split <;> simp_all
  | .float x => by rw [dumps, Json.Printable]
  | .str s => by rw [dumps, Json.Printable]; simp
  | .arr items => by rw [dumps, Json.Printable, Option.isSome_map, dumpsItems_isSome_iff items]
  | .obj members => by
    rw [dumps, Json.Printable, Option.isSome_map, dumpsMembers_isSome_iff members]

theorem dumpsItems_isSome_iff : ∀ items : List Json,
    (dumpsItems items).isSome = true ↔ PrintableItems items
  | [] => by rw [dumpsItems, PrintableItems]; simp
  | v :: items => by
    rw [dumpsItems, PrintableItems, ← dumps_isSome_iff v, ← dumpsItems_isSome_iff items]
    cases dumps v <;> simp

theorem dumpsMembers_isSome_iff : ∀ members : List (Text × Json),
    (dumpsMembers members).isSome = true ↔ PrintableMembers members
  | [] => by rw [dumpsMembers, PrintableMembers]; simp
  | (k, v) :: members => by
    rw [dumpsMembers, PrintableMembers, ← dumps_isSome_iff v, ← dumpsMembers_isSome_iff members]
    cases dumps v <;> simp

end

/-! ## Both at once

Whether a value can be printed and the text encoded is decided part by part, floats and the order
of keys notwithstanding. -/

/-- `json.dumps(value, …).encode("utf-8")` succeeds. -/
def Json.Written (v : Json) : Prop := ∃ d, dumps v = some d ∧ Py.Encodable d

@[simp] theorem written_null : Json.null.Written :=
  ⟨_, by rw [dumps], encodable_text _⟩

@[simp] theorem written_str_iff {s : Text} : (Json.str s).Written ↔ Encodable s := by
  rw [Json.Written, dumps]
  simp [encodable_quote_iff]

@[simp] theorem written_int_iff {n : ℤ} :
    (Json.int n).Written ↔ (decimal n.natAbs).length ≤ maxStrDigits := by
  constructor
  · rintro ⟨d, hd, -⟩
    rw [dumps, intRepr] at hd
    split at hd
    · assumption
    · exact absurd hd (by simp)
  · intro h
    have hd : (intRepr n).isSome = true := by rw [intRepr, if_pos h]; rfl
    obtain ⟨d, hd⟩ := Option.isSome_iff_exists.mp hd
    exact ⟨d, by rw [dumps, hd], encodable_intRepr hd⟩

theorem written_float_iff {x : Interpreter.Float} :
    (Json.float x).Written ↔ ∃ d, Interpreter.floatRepr x = some d ∧ Encodable d := by
  rw [Json.Written, dumps]

theorem dumpsItems_written_iff {items : List Json} :
    (∃ parts, dumpsItems items = some parts ∧ ∀ p ∈ parts, Encodable p) ↔
      ∀ v ∈ items, v.Written := by
  induction items with
  | nil => simp [dumpsItems]
  | cons v items ih =>
    rw [List.forall_mem_cons, ← ih]
    simp only [dumpsItems, Option.bind_eq_some_iff, Option.map_eq_some_iff]
    constructor
    · rintro ⟨_, ⟨part, hpart, rest, hrest, rfl⟩, h⟩
      rw [List.forall_mem_cons] at h
      exact ⟨⟨part, hpart, h.1⟩, rest, hrest, h.2⟩
    · rintro ⟨⟨part, hpart, h⟩, rest, hrest, h'⟩
      exact ⟨_, ⟨part, hpart, rest, hrest, rfl⟩, List.forall_mem_cons.mpr ⟨h, h'⟩⟩

theorem dumpsMembers_written_iff {members : List (Text × Json)} :
    (∃ parts, dumpsMembers members = some parts ∧ ∀ p ∈ parts, Encodable p.1 ∧ Encodable p.2) ↔
      ∀ m ∈ members, Encodable m.1 ∧ m.2.Written := by
  induction members with
  | nil => simp [dumpsMembers]
  | cons m members ih =>
    obtain ⟨k, v⟩ := m
    rw [List.forall_mem_cons, ← ih]
    simp only [dumpsMembers, Option.bind_eq_some_iff, Option.map_eq_some_iff]
    constructor
    · rintro ⟨_, ⟨part, hpart, rest, hrest, rfl⟩, h⟩
      rw [List.forall_mem_cons] at h
      exact ⟨⟨h.1.1, part, hpart, h.1.2⟩, rest, hrest, h.2⟩
    · rintro ⟨⟨hk, part, hpart, h⟩, rest, hrest, h'⟩
      exact ⟨_, ⟨part, hpart, rest, hrest, rfl⟩, List.forall_mem_cons.mpr ⟨⟨hk, h⟩, h'⟩⟩

/-- **An array can be written out when its items can.** -/
@[simp] theorem written_arr_iff {items : List Json} :
    (Json.arr items).Written ↔ ∀ v ∈ items, v.Written := by
  rw [← dumpsItems_written_iff, Json.Written]
  simp only [dumps, Option.map_eq_some_iff]
  have hclose : ∀ parts : List Text,
      Encodable (.scalar '[' :: ((text ",").intercalate parts ++ [.scalar ']'])) ↔
        ∀ p ∈ parts, Encodable p := by
    intro parts
    rw [encodable_cons, encodable_append_iff, encodable_intercalate_iff (encodable_text ",")]
    simp [CodePoint.scalar?]
  constructor
  · rintro ⟨_, ⟨parts, hparts, rfl⟩, h⟩
    exact ⟨parts, hparts, (hclose parts).mp h⟩
  · rintro ⟨parts, hparts, h⟩
    exact ⟨_, ⟨parts, hparts, rfl⟩, (hclose parts).mpr h⟩

/-- **An object can be written out when its keys and its values can.** -/
@[simp] theorem written_obj_iff {members : List (Text × Json)} :
    (Json.obj members).Written ↔ ∀ m ∈ members, Encodable m.1 ∧ m.2.Written := by
  rw [← dumpsMembers_written_iff, Json.Written]
  simp only [dumps, Option.map_eq_some_iff]
  constructor
  · rintro ⟨_, ⟨parts, hparts, rfl⟩, h⟩
    exact ⟨parts, hparts, fun p hp ↦
      (encodable_braces_iff _).mp h p (List.mem_mergeSort.mpr hp)⟩
  · rintro ⟨parts, hparts, h⟩
    exact ⟨_, ⟨parts, hparts, rfl⟩, (encodable_braces_iff _).mpr fun p hp ↦
      h p (List.mem_mergeSort.mp hp)⟩

end Py
