import Alicerce.Py.Text

/-!
# `datetime`, to the microsecond

A `datetime`, to the microsecond, and the format `%Y-%m-%dT%H:%M:%S.%fZ`.

* `Py.CivilTime` is a date and a time of day that exist; its order is that of `datetime`s with one
  time zone, the lexicographic order of the fields.
* `Py.DateTime` adds what stands in `tzinfo`.  The attribute `fold` is left out: it takes no part in
  `==`, `<` or `strftime`.
* `Py.strftime` prints, padding every field to its width, and `Py.strptime` reads.
* `strptime_strftime`: what was printed is read back.

Reading is more lenient than printing: `_strptime` turns the format into a regular expression in
which months, days, hours, minutes and seconds may drop a leading zero, a day may be padded with a
blank, a fraction may have fewer than six digits, `\d` stands for the decimal digits of every
script, and letters match in either case.  No field can contain the separator behind it, so the
regular expression matches in at most one way, and the text is simply cut at its separators
(`cutField`).
-/

set_option autoImplicit false

namespace Py

/-! ## Civil time -/

/-- The Gregorian leap years. -/
def isLeap (year : ℕ) : Bool := year % 4 == 0 && (year % 100 != 0 || year % 400 == 0)

/-- `calendar.monthrange`. -/
def daysInMonth (year month : ℕ) : ℕ :=
  if month = 2 then (if isLeap year then 29 else 28)
  else if month = 4 ∨ month = 6 ∨ month = 9 ∨ month = 11 then 30
  else 31

/-- What the constructor of `datetime` checks of its fields. -/
structure CivilTime.Valid (year month day hour minute second microsecond : ℕ) : Prop where
  year_bounds : 1 ≤ year ∧ year ≤ 9999
  month_bounds : 1 ≤ month ∧ month ≤ 12
  day_bounds : 1 ≤ day ∧ day ≤ daysInMonth year month
  hour_lt : hour < 24
  minute_lt : minute < 60
  second_lt : second < 60
  microsecond_lt : microsecond < 1000000

/-- A date and a time of day. -/
@[ext]
structure CivilTime where
  year : ℕ
  month : ℕ
  day : ℕ
  hour : ℕ
  minute : ℕ
  second : ℕ
  microsecond : ℕ
  /-- They exist. -/
  valid : CivilTime.Valid year month day hour minute second microsecond
deriving DecidableEq

namespace CivilTime

variable {a b c t : CivilTime}

/-- The fields in the order they are compared in. -/
def fields (t : CivilTime) : List ℕ :=
  [t.year, t.month, t.day, t.hour, t.minute, t.second, t.microsecond]

theorem fields_injective : Function.Injective fields := by
  intro a b h
  simp only [fields, List.cons.injEq] at h
  obtain ⟨h₁, h₂, h₃, h₄, h₅, h₆, h₇, -⟩ := h
  exact CivilTime.ext h₁ h₂ h₃ h₄ h₅ h₆ h₇

instance : LinearOrder CivilTime := LinearOrder.lift' fields fields_injective

end CivilTime

instance (year month day hour minute second microsecond : ℕ) :
    Decidable (CivilTime.Valid year month day hour minute second microsecond) :=
  decidable_of_iff
    ((1 ≤ year ∧ year ≤ 9999) ∧ (1 ≤ month ∧ month ≤ 12) ∧
      (1 ≤ day ∧ day ≤ daysInMonth year month) ∧ hour < 24 ∧ minute < 60 ∧ second < 60 ∧
      microsecond < 1000000)
    ⟨fun ⟨h₁, h₂, h₃, h₄, h₅, h₆, h₇⟩ ↦ ⟨h₁, h₂, h₃, h₄, h₅, h₆, h₇⟩,
      fun ⟨h₁, h₂, h₃, h₄, h₅, h₆, h₇⟩ ↦ ⟨h₁, h₂, h₃, h₄, h₅, h₆, h₇⟩⟩

/-- What can stand in `tzinfo`. -/
inductive TzInfo
  /-- The time is naive. -/
  | none
  /-- The singleton `datetime.UTC`. -/
  | utc
  /-- Any other object, a zone of offset zero included. -/
  | other
deriving DecidableEq

/-- A Python `datetime`. -/
structure DateTime where
  civil : CivilTime
  tzinfo : TzInfo
deriving DecidableEq

/-! ## Printing -/

/-- A number in as many digits as a field is wide. -/
def fixed : ℕ → ℕ → Text
  | 0, _ => []
  | width + 1, n => fixed width (n / 10) ++ [digitChar n]

/-- `t.strftime("%Y-%m-%dT%H:%M:%S.%fZ")`. -/
def strftime (t : CivilTime) : Text :=
  fixed 4 t.year ++ text "-" ++ fixed 2 t.month ++ text "-" ++ fixed 2 t.day ++ text "T" ++
    fixed 2 t.hour ++ text ":" ++ fixed 2 t.minute ++ text ":" ++ fixed 2 t.second ++ text "." ++
    fixed 6 t.microsecond ++ text "Z"

theorem length_fixed (width n : ℕ) : (fixed width n).length = width := by
  induction width generalizing n with
  | zero => rfl
  | succ width ih => rw [fixed, List.length_append, ih]; rfl

theorem fixed_all_digit (width n : ℕ) : (fixed width n).all isDigit = true := by
  induction width generalizing n with
  | zero => rfl
  | succ width ih =>
    rw [fixed, List.all_append, ih, List.all_cons, (digitChar_spec n).1]
    rfl

theorem isSpace_of_isDigit {c : CodePoint} (h : isDigit c = true) : c.isSpace = false := by
  simp only [isDigit, range, Bool.and_eq_true, decide_eq_true_eq] at h
  have h₀ : '0'.toNat = 48 := rfl
  have h₉ : '9'.toNat = 57 := rfl
  simp [CodePoint.isSpace]
  omega

theorem encodable_fixed (width n : ℕ) : Encodable (fixed width n) :=
  encodable_of_all (range_ascii (by decide)) (fixed_all_digit width n)

/-! ## Reading -/

/-- A field of a format: the alternatives of its regular expression, each a sequence of classes. -/
abbrev FieldFormat := List (List CharClass)

/-- One of the alternatives matches all of a text. -/
def FieldFormat.matches (f : FieldFormat) (t : Text) : Bool :=
  f.any fun cs ↦ cs.length == t.length && (cs.zip t).all fun p ↦ p.1 p.2

/-- The field in front of a separator, and what follows the separator. -/
def cutField (f : FieldFormat) (sep : CharClass) (t : Text) : Option (Text × Text) :=
  let field := t.takeWhile fun c ↦ !sep c
  match t.dropWhile fun c ↦ !sep c with
  | [] => none
  | _ :: rest => if f.matches field then some (field, rest) else none

/-- The separator behind a printed field is where the text is cut. -/
theorem cutField_fixed (sep : CharClass) (s : CodePoint) {f : FieldFormat} {width n : ℕ}
    (hf : f.matches (fixed width n) = true) (hs : sep s = true)
    (hsep : ∀ c, isDigit c = true → sep c = false) (t : Text) :
    cutField f sep (fixed width n ++ s :: t) = some (fixed width n, t) := by
  have hall : ∀ c ∈ fixed width n, (!sep c) = true := by
    intro c hc
    rw [hsep c (List.all_eq_true.mp (fixed_all_digit width n) c hc)]
    rfl
  have htake : (fixed width n ++ s :: t).takeWhile (fun c ↦ !sep c) = fixed width n := by
    rw [List.takeWhile_append_of_pos hall, List.takeWhile_cons_of_neg (by simp [hs]),
      List.append_nil]
  have hdrop : (fixed width n ++ s :: t).dropWhile (fun c ↦ !sep c) = s :: t := by
    rw [List.dropWhile_append_of_pos hall, List.dropWhile_cons_of_neg (by simp [hs])]
  simp only [cutField, htake, hdrop, hf, if_true]

theorem matches_replicate {p : CharClass} {width : ℕ} {t : Text}
    (hall : t.all p = true) : ((List.replicate width p).zip t).all (fun q ↦ q.1 q.2) = true := by
  rw [List.all_eq_true] at hall ⊢
  intro q hq
  rw [List.eq_of_mem_replicate (List.of_mem_zip hq).1]
  exact hall _ (List.of_mem_zip hq).2

theorem matches_fixed_of_mem {f : FieldFormat} {p : CharClass} {width : ℕ}
    (hf : List.replicate width p ∈ f) (hp : ∀ c, isDigit c = true → p c = true) (n : ℕ) :
    f.matches (fixed width n) = true := by
  refine List.any_eq_true.mpr ⟨_, hf, ?_⟩
  rw [matches_replicate (List.all_eq_true.mpr fun c hc ↦
      hp c (List.all_eq_true.mp (fixed_all_digit width n) c hc)), List.length_replicate,
    length_fixed, beq_self_eq_true, Bool.true_and]

theorem daysInMonth_le (year month : ℕ) : daysInMonth year month ≤ 31 := by
  rw [daysInMonth]
  split
  · split <;> omega
  · split <;> omega

/-- A separator is no digit. -/
theorem not_digit_of_oneOf {s : String} (hs : ∀ c ∈ text s, isDigit c = false) (c : CodePoint)
    (hc : isDigit c = true) : oneOf s c = false := by
  by_contra h
  rw [Bool.not_eq_false, oneOf, List.contains_iff_mem] at h
  rw [hs c h] at hc
  exact absurd hc (by simp)

section
variable [Interpreter]

/-- `\d`: a decimal digit of any script. -/
def anyDigit : CharClass := fun c ↦
  isDigit c || (0x80 ≤ c.ord && (Interpreter.otherDigit c).isSome)

/-- What `int` takes a digit for. -/
def anyDigitVal (c : CodePoint) : ℕ :=
  if isDigit c then digitVal c else (Interpreter.otherDigit c).elim 0 Fin.val

/-- `int` on the text of a field; the blank that may pad a day is dropped. -/
def fieldValue (t : Text) : ℕ :=
  Nat.ofDigits 10 (((t.dropWhile CodePoint.isSpace).map anyDigitVal).reverse)

/-- `%Y`: `\d\d\d\d`. -/
def yearFormat : FieldFormat := [[anyDigit, anyDigit, anyDigit, anyDigit]]

/-- `%m`: `1[0-2]|0[1-9]|[1-9]`. -/
def monthFormat : FieldFormat :=
  [[oneOf "1", range '0' '2'], [oneOf "0", range '1' '9'], [range '1' '9']]

/-- `%d`: `3[0-1]|[1-2]\d|0[1-9]|[1-9]| [1-9]`. -/
def dayFormat : FieldFormat :=
  [[oneOf "3", range '0' '1'], [range '1' '2', anyDigit], [oneOf "0", range '1' '9'],
    [range '1' '9'], [oneOf " ", range '1' '9']]

/-- `%H`: `2[0-3]|[0-1]\d|\d`. -/
def hourFormat : FieldFormat :=
  [[oneOf "2", range '0' '3'], [range '0' '1', anyDigit], [anyDigit]]

/-- `%M`: `[0-5]\d|\d`. -/
def minuteFormat : FieldFormat := [[range '0' '5', anyDigit], [anyDigit]]

/-- `%S`: `6[0-1]|[0-5]\d|\d`. -/
def secondFormat : FieldFormat :=
  [[oneOf "6", range '0' '1'], [range '0' '5', anyDigit], [anyDigit]]

/-- `%f`: `[0-9]{1,6}`. -/
def microsecondFormat : FieldFormat := (List.range 6).map fun n ↦ List.replicate (n + 1) isDigit

/-- `datetime.strptime(text, "%Y-%m-%dT%H:%M:%S.%fZ")`; `none` is `ValueError`. -/
def strptime (t : Text) : Option CivilTime := do
  let (year, t) ← cutField yearFormat (oneOf "-") t
  let (month, t) ← cutField monthFormat (oneOf "-") t
  let (day, t) ← cutField dayFormat (oneOf "Tt") t
  let (hour, t) ← cutField hourFormat (oneOf ":") t
  let (minute, t) ← cutField minuteFormat (oneOf ":") t
  let (second, t) ← cutField secondFormat (oneOf ".") t
  let (fraction, t) ← cutField microsecondFormat (oneOf "Zz") t
  if t = [] then
    let microsecond := fieldValue (fraction ++ List.replicate (6 - fraction.length) (digitChar 0))
    if h : CivilTime.Valid (fieldValue year) (fieldValue month) (fieldValue day)
        (fieldValue hour) (fieldValue minute) (fieldValue second) microsecond then
      some ⟨_, _, _, _, _, _, _, h⟩
    else none
  else none

/-! ## Reading back what was printed -/

theorem fieldValue_fixed (width n : ℕ) : fieldValue (fixed width n) = n % 10 ^ width := by
  have hdrop : (fixed width n).dropWhile CodePoint.isSpace = fixed width n := by
    cases h : fixed width n with
    | nil => rfl
    | cons c t =>
      have hc : isDigit c = true := by
        have hall := fixed_all_digit width n
        rw [h, List.all_cons, Bool.and_eq_true] at hall
        exact hall.1
      rw [List.dropWhile_cons_of_neg (by simp [isSpace_of_isDigit hc])]
  rw [fieldValue, hdrop]
  clear hdrop
  induction width generalizing n with
  | zero => simp [fixed, Nat.mod_one]
  | succ width ih =>
    have hlast : anyDigitVal (digitChar n) = n % 10 := by
      rw [anyDigitVal, if_pos (digitChar_spec n).1, (digitChar_spec n).2]
    rw [fixed, List.map_append, List.reverse_append, List.map_singleton, List.reverse_singleton,
      List.singleton_append, Nat.ofDigits_cons, ih, hlast, pow_succ, Nat.mul_comm (10 ^ width) 10,
      Nat.mod_mul]

/-- Two digits of a number in range are one of the alternatives of its field. -/
theorem matches_sixtieths : (List.range 60).all (fun n ↦
    (n == 0 || 12 < n || monthFormat.matches (fixed 2 n)) &&
    (n == 0 || 31 < n || dayFormat.matches (fixed 2 n)) &&
    (23 < n || hourFormat.matches (fixed 2 n)) &&
    minuteFormat.matches (fixed 2 n) && secondFormat.matches (fixed 2 n)) = true := rfl

theorem matches_of_lt_sixty {n : ℕ} (hn : n < 60) :
    (1 ≤ n → n ≤ 12 → monthFormat.matches (fixed 2 n) = true) ∧
    (1 ≤ n → n ≤ 31 → dayFormat.matches (fixed 2 n) = true) ∧
    (n < 24 → hourFormat.matches (fixed 2 n) = true) ∧
    minuteFormat.matches (fixed 2 n) = true ∧ secondFormat.matches (fixed 2 n) = true := by
  have h := List.all_eq_true.mp matches_sixtieths n (List.mem_range.mpr hn)
  simp only [Bool.and_eq_true, Bool.or_eq_true, beq_iff_eq, decide_eq_true_eq] at h
  obtain ⟨⟨⟨⟨hmonth, hday⟩, hhour⟩, hminute⟩, hsecond⟩ := h
  exact ⟨fun _ _ ↦ hmonth.resolve_left (by omega), fun _ _ ↦ hday.resolve_left (by omega),
    fun _ ↦ hhour.resolve_left (by omega), hminute, hsecond⟩

/-- **`strptime` undoes `strftime`.** -/
theorem strptime_strftime (t : CivilTime) : strptime (strftime t) = some t := by
  obtain ⟨⟨-, hyear⟩, hmonth, ⟨hday, hdays⟩, hhour, hminute, hsecond, hmicro⟩ := t.valid
  have hday' := hdays.trans (daysInMonth_le _ _)
  have hyearF : yearFormat.matches (fixed 4 t.year) = true :=
    matches_fixed_of_mem (p := anyDigit) (by simp [yearFormat, List.replicate])
      (fun c hc ↦ by rw [anyDigit, hc, Bool.true_or]) _
  have hmonthF := (matches_of_lt_sixty (by omega)).1 hmonth.1 hmonth.2
  have hdayF := (matches_of_lt_sixty (by omega)).2.1 hday hday'
  have hhourF := (matches_of_lt_sixty (by omega)).2.2.1 hhour
  have hminuteF := (matches_of_lt_sixty hminute).2.2.2.1
  have hsecondF := (matches_of_lt_sixty hsecond).2.2.2.2
  have hmicroF : microsecondFormat.matches (fixed 6 t.microsecond) = true :=
    matches_fixed_of_mem (p := isDigit) (List.mem_map.mpr ⟨5, by decide, rfl⟩) (fun _ h ↦ h) _
  have hshape : strftime t = fixed 4 t.year ++ .scalar '-' :: (fixed 2 t.month ++ .scalar '-' ::
      (fixed 2 t.day ++ .scalar 'T' :: (fixed 2 t.hour ++ .scalar ':' :: (fixed 2 t.minute ++
        .scalar ':' :: (fixed 2 t.second ++ .scalar '.' :: (fixed 6 t.microsecond ++
          [.scalar 'Z'])))))) := by
    simp [strftime, text]
  have hsep : ∀ {s : String}, (∀ c ∈ text s, isDigit c = false) →
      ∀ c, isDigit c = true → oneOf s c = false := not_digit_of_oneOf
  have hvalue : ∀ {width n : ℕ}, n < 10 ^ width → fieldValue (fixed width n) = n := by
    intro width n hn
    rw [fieldValue_fixed, Nat.mod_eq_of_lt hn]
  rw [hshape, strptime]
  simp only [Option.bind_eq_bind, Option.bind_some,
    cutField_fixed (oneOf "-") (.scalar '-') hyearF (by decide) (hsep (by decide)),
    cutField_fixed (oneOf "-") (.scalar '-') hmonthF (by decide) (hsep (by decide)),
    cutField_fixed (oneOf "Tt") (.scalar 'T') hdayF (by decide) (hsep (by decide)),
    cutField_fixed (oneOf ":") (.scalar ':') hhourF (by decide) (hsep (by decide)),
    cutField_fixed (oneOf ":") (.scalar ':') hminuteF (by decide) (hsep (by decide)),
    cutField_fixed (oneOf ".") (.scalar '.') hsecondF (by decide) (hsep (by decide)),
    cutField_fixed (oneOf "Zz") (.scalar 'Z') hmicroF (by decide) (hsep (by decide)),
    if_true, length_fixed, Nat.sub_self, List.replicate_zero, List.append_nil,
    hvalue (show t.year < 10 ^ 4 by omega), hvalue (show t.month < 10 ^ 2 by omega),
    hvalue (show t.day < 10 ^ 2 by omega), hvalue (show t.hour < 10 ^ 2 by omega),
    hvalue (show t.minute < 10 ^ 2 by omega), hvalue (show t.second < 10 ^ 2 by omega),
    hvalue (show t.microsecond < 10 ^ 6 by omega)]
  rw [dif_pos t.valid]

end

end Py
