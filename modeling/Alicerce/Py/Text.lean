import Mathlib.Data.List.DropRight
import Mathlib.Data.List.Lex
import Mathlib.Data.Nat.Digits.Lemmas

/-!
# Python texts

A Python `str` is a sequence of *code points*, and unlike a Lean `String` it may contain lone
surrogates: `"\ud800"` is a perfectly good value of type `str` that merely has no UTF-8 encoding.
Programs that validate texts and then write them to disk live with that gap, so it is kept here:
a `Py.Text` is a list of `Py.CodePoint`s, and a code point is either a Unicode scalar value or a
surrogate.

* `Py.encodeUtf8` is `str.encode("utf-8")` and fails exactly on the texts that are not
  `Py.Encodable`; `Py.decodeUtf8` is `bytes.decode("utf-8")`.  Both go through Lean's `String`,
  which is by definition a byte array that is valid UTF-8, so that the two are inverse to each
  other (`decodeUtf8_encodeUtf8`, `encodeUtf8_decodeUtf8`) needs no argument about encodings.
* `Py.strip`, and the shapes of regular expression that validators use: a class repeated a fixed
  number of times, and a head class followed by a bounded tail.
* `Py.decimal`, the text of a natural number, and `Py.ofDecimal` reading one back.

`Py.Interpreter` collects what is left open about the interpreter the texts live in.
-/

set_option autoImplicit false

namespace Py

/-! ## Code points and texts -/

/-- An element of a `str`. -/
inductive CodePoint
  /-- A Unicode scalar value. -/
  | scalar (c : Char)
  /-- A surrogate, `U+D800` to `U+DFFF`, by its distance from `U+D800`. -/
  | surrogate (i : Fin 0x800)
deriving DecidableEq

/-- `ord`. -/
def CodePoint.ord : CodePoint → ℕ
  | .scalar c => c.toNat
  | .surrogate i => 0xD800 + i

/-- The scalar value a code point is, if it is one. -/
def CodePoint.scalar? : CodePoint → Option Char
  | .scalar c => some c
  | .surrogate _ => none

theorem CodePoint.ord_injective : Function.Injective CodePoint.ord := by
  have hne : ∀ (c : Char) (i : Fin 0x800), c.toNat ≠ 0xD800 + i := by
    intro c i h
    have hi := i.isLt
    have hc : c.toNat < 0xD800 ∨ 0xDFFF < c.toNat ∧ c.toNat < 0x110000 := c.valid
    omega
  intro x y h
  match x, y with
  | .scalar c, .scalar d => rw [Char.toNat_inj.mp h]
  | .scalar c, .surrogate i => exact absurd h (hne c i)
  | .surrogate i, .scalar c => exact absurd h.symm (hne c i)
  | .surrogate i, .surrogate j =>
    simp only [CodePoint.ord, Nat.add_left_cancel_iff] at h
    rw [Fin.ext h]

/-- A Python `str`. -/
abbrev Text := List CodePoint

instance : LawfulBEq Text := inferInstance

/-- A Python `bytes`. -/
abbrev Bytes := ByteArray

instance : DecidableEq Bytes := fun a b ↦ decidable_of_iff (a.data = b.data) ByteArray.ext_iff.symm

/-- The `str` written by a literal. -/
def text (s : String) : Text := s.toList.map .scalar

instance : Coe String Text := ⟨text⟩

/-! ## UTF-8 -/

/-- No lone surrogate: the text has a UTF-8 encoding. -/
def Encodable (t : Text) : Prop := ∀ c ∈ t, c.scalar?.isSome

instance (t : Text) : Decidable (Encodable t) := inferInstanceAs (Decidable (∀ c ∈ t, _))

/-- `str.encode("utf-8")`; `none` is `UnicodeEncodeError`. -/
def encodeUtf8 (t : Text) : Option Bytes :=
  (t.mapM CodePoint.scalar?).map fun cs ↦ (String.ofList cs).toByteArray

/-- `bytes.decode("utf-8")`; `none` is `UnicodeDecodeError`. -/
def decodeUtf8 (b : Bytes) : Option Text :=
  if h : b.IsValidUTF8 then some (text (String.ofByteArray b h)) else none

theorem mapM_scalar?_map (cs : List Char) :
    (cs.map CodePoint.scalar).mapM CodePoint.scalar? = some cs := by
  induction cs with
  | nil => rfl
  | cons c cs ih => simp [List.mapM_cons, CodePoint.scalar?, ih]

theorem eq_map_of_mapM_scalar? {t : Text} {cs : List Char}
    (h : t.mapM CodePoint.scalar? = some cs) : t = cs.map .scalar := by
  induction t generalizing cs with
  | nil => simp_all
  | cons c t ih =>
    match c with
    | .scalar c =>
      simp only [List.mapM_cons, CodePoint.scalar?, Option.pure_def, Option.bind_eq_bind,
        Option.bind_some, Option.bind_eq_some_iff, Option.some.injEq] at h
      obtain ⟨ds, hds, rfl⟩ := h
      simp [ih hds]
    | .surrogate i => simp [List.mapM_cons, CodePoint.scalar?] at h

theorem encodeUtf8_text (s : String) : encodeUtf8 (text s) = some s.toByteArray := by
  rw [encodeUtf8, text, mapM_scalar?_map, Option.map_some, String.ofList_toList]

theorem encodeUtf8_eq_some_iff {t : Text} {b : Bytes} :
    encodeUtf8 t = some b ↔ ∃ s : String, t = text s ∧ b = s.toByteArray := by
  constructor
  · intro h
    rw [encodeUtf8, Option.map_eq_some_iff] at h
    obtain ⟨cs, hcs, rfl⟩ := h
    exact ⟨String.ofList cs, by rw [text, String.toList_ofList, eq_map_of_mapM_scalar? hcs], rfl⟩
  · rintro ⟨s, rfl, rfl⟩
    exact encodeUtf8_text s

/-- **Decoding undoes encoding.** -/
theorem decodeUtf8_encodeUtf8 {t : Text} {b : Bytes} (h : encodeUtf8 t = some b) :
    decodeUtf8 b = some t := by
  obtain ⟨s, rfl, rfl⟩ := encodeUtf8_eq_some_iff.mp h
  rw [decodeUtf8, dif_pos s.isValidUTF8]

/-- **Encoding undoes decoding**: UTF-8 has one spelling for each text. -/
theorem encodeUtf8_decodeUtf8 {t : Text} {b : Bytes} (h : decodeUtf8 b = some t) :
    encodeUtf8 t = some b := by
  rw [decodeUtf8] at h
  split at h
  · rw [← Option.some.inj h, encodeUtf8_text]
  · exact absurd h (by simp)

theorem encodeUtf8_injective {t u : Text} {b : Bytes} (ht : encodeUtf8 t = some b)
    (hu : encodeUtf8 u = some b) : t = u :=
  Option.some.inj ((decodeUtf8_encodeUtf8 ht).symm.trans (decodeUtf8_encodeUtf8 hu))

theorem encodeUtf8_isSome_iff {t : Text} : (encodeUtf8 t).isSome ↔ Encodable t := by
  rw [encodeUtf8, Option.isSome_map]
  induction t with
  | nil => simp [Encodable]
  | cons c t ih =>
    simp only [Encodable] at ih ⊢
    rw [List.forall_mem_cons, ← ih]
    match c with
    | .scalar c =>
      cases h : List.mapM CodePoint.scalar? t <;>
        simp [List.mapM_cons, CodePoint.scalar?, h]
    | .surrogate i => simp [List.mapM_cons, CodePoint.scalar?]

theorem encodable_text (s : String) : Encodable (text s) :=
  encodeUtf8_isSome_iff.mp (by rw [encodeUtf8_text]; rfl)

theorem Encodable.append {t u : Text} (ht : Encodable t) (hu : Encodable u) :
    Encodable (t ++ u) := fun c hc ↦ (List.mem_append.mp hc).elim (ht c) (hu c)

theorem encodable_append_iff {t u : Text} : Encodable (t ++ u) ↔ Encodable t ∧ Encodable u :=
  ⟨fun h ↦ ⟨fun c hc ↦ h c (List.mem_append_left _ hc),
    fun c hc ↦ h c (List.mem_append_right _ hc)⟩, fun h ↦ h.1.append h.2⟩

@[simp] theorem encodable_nil : Encodable [] := fun _ h ↦ by simp at h

@[simp] theorem encodable_cons {c : CodePoint} {t : Text} :
    Encodable (c :: t) ↔ c.scalar?.isSome ∧ Encodable t := by
  simp [Encodable]

/-! ## Order

`sorted` on texts, and hence `sort_keys=True`, compares code point by code point. -/

/-- `a <= b` on `str`. -/
def Text.le (a b : Text) : Bool := decide (a.map CodePoint.ord ≤ b.map CodePoint.ord)

theorem Text.le_trans (a b c : Text) (hab : a.le b = true) (hbc : b.le c = true) :
    a.le c = true := by
  simp only [Text.le, decide_eq_true_eq] at *
  exact hab.trans hbc

theorem Text.le_total (a b : Text) : (a.le b || b.le a) = true := by
  simp only [Text.le, Bool.or_eq_true, decide_eq_true_eq]
  exact LinearOrder.le_total _ _

theorem Text.le_antisymm {a b : Text} (hab : a.le b = true) (hba : b.le a = true) : a = b := by
  simp only [Text.le, decide_eq_true_eq] at *
  exact List.map_injective_iff.mpr CodePoint.ord_injective (hab.antisymm hba)

/-! ## Whitespace and character classes -/

/-- `str.isspace` on one code point. -/
def CodePoint.isSpace (c : CodePoint) : Bool :=
  let n := c.ord
  (0x9 ≤ n && n ≤ 0xD) || (0x1C ≤ n && n ≤ 0x20) || n == 0x85 || n == 0xA0 || n == 0x1680 ||
    (0x2000 ≤ n && n ≤ 0x200A) || n == 0x2028 || n == 0x2029 || n == 0x202F || n == 0x205F ||
    n == 0x3000

/-- `str.strip()`. -/
def strip (t : Text) : Text := (t.dropWhile CodePoint.isSpace).rdropWhile CodePoint.isSpace

/-- Nothing is stripped from a text without whitespace. -/
theorem strip_eq_self {t : Text} (h : ∀ c ∈ t, c.isSpace = false) : strip t = t := by
  have hdrop : t.dropWhile CodePoint.isSpace = t := by
    rw [List.dropWhile_eq_self_iff]
    intro hlen
    rw [h _ (List.getElem_mem hlen)]
    exact Bool.false_ne_true
  rw [strip, hdrop, List.rdropWhile_eq_self_iff]
  intro hne
  rw [h _ (List.getLast_mem hne)]
  exact Bool.false_ne_true

/-- A class of characters in a regular expression. -/
abbrev CharClass := CodePoint → Bool

/-- `[lo-hi]`. -/
def range (lo hi : Char) : CharClass := fun c ↦ lo.toNat ≤ c.ord && c.ord ≤ hi.toNat

/-- `[abc…]`, the class of the characters of a literal. -/
def oneOf (s : String) : CharClass := fun c ↦ (text s).contains c

/-- `[…]` of two classes side by side. -/
def CharClass.or (p q : CharClass) : CharClass := fun c ↦ p c || q c

/-- `re.fullmatch("p{n}")`. -/
def matchesExactly (p : CharClass) (n : ℕ) (t : Text) : Bool := t.length == n && t.all p

/-- `re.fullmatch("pq{0,n}")`. -/
def matchesHeadTail (p q : CharClass) (n : ℕ) : Text → Bool
  | [] => false
  | c :: t => p c && t.length ≤ n && t.all q

/-- A class of ASCII characters: nothing in it needs more than one byte. -/
def CharClass.Ascii (p : CharClass) : Prop := ∀ c, p c = true → c.ord < 0x80

theorem isSome_scalar?_of_ord_lt {c : CodePoint} (h : c.ord < 0x80) : c.scalar?.isSome := by
  match c with
  | .scalar c => rfl
  | .surrogate i => simp only [CodePoint.ord] at h; omega

theorem range_ascii {lo hi : Char} (h : hi.toNat < 0x80) : (range lo hi).Ascii := by
  intro c hc
  simp only [range, Bool.and_eq_true, decide_eq_true_eq] at hc
  omega

theorem oneOf_ascii {s : String} (h : ∀ c ∈ text s, c.ord < 0x80) : (oneOf s).Ascii :=
  fun c hc ↦ h c (List.contains_iff_mem.mp hc)

theorem CharClass.Ascii.or {p q : CharClass} (hp : p.Ascii) (hq : q.Ascii) : (p.or q).Ascii := by
  intro c hc
  rw [CharClass.or, Bool.or_eq_true] at hc
  exact hc.elim (hp c) (hq c)

/-- A text of ASCII characters can always be written out. -/
theorem encodable_of_all {p : CharClass} (hp : p.Ascii) {t : Text} (h : t.all p = true) :
    Encodable t := fun c hc ↦ isSome_scalar?_of_ord_lt (hp c (List.all_eq_true.mp h c hc))

theorem encodable_of_matchesExactly {p : CharClass} (hp : p.Ascii) {n : ℕ} {t : Text}
    (h : matchesExactly p n t = true) : Encodable t := by
  rw [matchesExactly, Bool.and_eq_true] at h
  exact encodable_of_all hp h.2

theorem encodable_of_matchesHeadTail {p q : CharClass} (hp : p.Ascii) (hq : q.Ascii) {n : ℕ}
    {t : Text} (h : matchesHeadTail p q n t = true) : Encodable t := by
  cases t with
  | nil => exact encodable_nil
  | cons c t =>
    rw [matchesHeadTail, Bool.and_eq_true, Bool.and_eq_true] at h
    exact encodable_cons.mpr ⟨isSome_scalar?_of_ord_lt (hp c h.1.1), encodable_of_all hq h.2⟩

/-! ## Decimal numerals -/

/-- The character of a decimal digit. -/
def digitChar (d : ℕ) : CodePoint := .scalar (Char.ofNat (48 + d % 10))

/-- `[0-9]`. -/
def isDigit : CharClass := range '0' '9'

/-- The value of an ASCII digit. -/
def digitVal (c : CodePoint) : ℕ := c.ord - 48

theorem digitChar_spec (d : ℕ) :
    isDigit (digitChar d) = true ∧ digitVal (digitChar d) = d % 10 := by
  have h : ∀ e < 10, isDigit (.scalar (Char.ofNat (48 + e))) = true ∧
      digitVal (.scalar (Char.ofNat (48 + e))) = e := by decide
  exact h (d % 10) (Nat.mod_lt d (by decide))

/-- The decimal text of a natural number. -/
def decimal (n : ℕ) : Text :=
  if n = 0 then [digitChar 0] else ((Nat.digits 10 n).map digitChar).reverse

/-- The number a text of digits denotes. -/
def ofDecimal (t : Text) : ℕ := Nat.ofDigits 10 (t.reverse.map digitVal)

theorem decimal_ne_nil (n : ℕ) : decimal n ≠ [] := by
  rw [decimal]
  split
  · simp
  · rename_i h
    simpa [Nat.digits_eq_nil_iff_eq_zero] using h

theorem decimal_all_digit (n : ℕ) : (decimal n).all isDigit = true := by
  rw [List.all_eq_true, decimal]
  split
  · simp [(digitChar_spec 0).1]
  · simp [List.mem_map, (digitChar_spec _).1]

/-- **A numeral denotes the number it was printed from.** -/
theorem ofDecimal_decimal (n : ℕ) : ofDecimal (decimal n) = n := by
  rw [ofDecimal, decimal]
  split
  · rename_i h
    subst h
    simp [(digitChar_spec 0).2]
  · rw [List.reverse_reverse, List.map_map]
    have hid : (Nat.digits 10 n).map (digitVal ∘ digitChar) = Nat.digits 10 n := by
      refine (List.map_congr_left fun d hd ↦ ?_).trans (List.map_id _)
      rw [Function.comp_apply, (digitChar_spec d).2, id, Nat.mod_eq_of_lt]
      exact Nat.digits_lt_base (by decide) hd
    rw [hid, Nat.ofDigits_digits]

/-- Only zero is printed with a leading zero. -/
theorem head_decimal {n : ℕ} (h : n ≠ 0) {c : CodePoint} (hc : (decimal n).head? = some c) :
    digitVal c ≠ 0 := by
  rw [decimal, if_neg h, List.head?_reverse, List.getLast?_map, Option.map_eq_some_iff] at hc
  obtain ⟨d, hd, rfl⟩ := hc
  have hne : Nat.digits 10 n ≠ [] := Nat.digits_ne_nil_iff_ne_zero.mpr h
  rw [List.getLast?_eq_getLast_of_ne_nil hne, Option.some_inj] at hd
  rw [(digitChar_spec d).2, Nat.mod_eq_of_lt]
  · rw [← hd]
    exact Nat.getLast_digit_ne_zero 10 h
  · exact Nat.digits_lt_base (by decide) (hd ▸ List.getLast_mem hne)

/-! ## What is left open about the interpreter -/

/-- The parts of a Python interpreter that no text of the language fixes: its double-precision
arithmetic, its Unicode tables beyond ASCII, and how deep its recursion may go. -/
class Interpreter where
  /-- The type `float`. -/
  Float : Type
  /-- `float(s)` on a numeral of the JSON grammar. -/
  floatOf : Text → Float
  /-- `float.__repr__`; `none` on an infinity or a NaN, which JSON cannot spell. -/
  floatRepr : Float → Option Text
  /-- `str.__repr__`, which depends on what the Unicode tables call printable. -/
  textRepr : Text → Text
  /-- The value of a decimal digit outside ASCII. -/
  otherDigit : CodePoint → Option (Fin 10)
  /-- How many containers, one inside the other, the `json` module enters before it raises
  `RecursionError`. -/
  recursionLimit : ℕ
  /-- The limit leaves room for two containers; the smallest one an interpreter can be set to is
  larger. -/
  two_le_recursionLimit : 2 ≤ recursionLimit

/-- An interpreter for programs that only meet ASCII and integers, with the usual recursion
limit. -/
@[reducible] def Interpreter.plain : Interpreter where
  Float := Unit
  floatOf _ := ()
  floatRepr _ := none
  textRepr t := text "'" ++ t ++ text "'"
  otherDigit _ := none
  recursionLimit := 1000
  two_le_recursionLimit := by decide

/-- The most decimal digits `int` and `str` convert between,
`sys.int_info.default_max_str_digits`. -/
def maxStrDigits : ℕ := 4300

end Py
