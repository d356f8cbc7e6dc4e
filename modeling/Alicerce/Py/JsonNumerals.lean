import Alicerce.Py.JsonGrammar

/-!
# The numerals of a JSON text

The scanner hands the tokens `NaN` and `Infinity` to a hook, but a numeral it converts itself, and
one that is too large for a float becomes an infinity.  So whether everything in a document is
finite is a question about the numerals of its text.

* `numerals` cuts the numerals out of a text, skipping the strings.
* `Numeral.Finite` and `FiniteNumerals` say of a numeral, and of all in a text, that the number
  denoted is finite; `Json.Finite` says so of every number of a value.
* `loads_finite_iff`: a document whose constants are refused is finite exactly when each of its
  numerals is.
-/

set_option autoImplicit false

namespace Py

/-! ## What the scanners consume -/

theorem length_of_scanString_map {t t' s rest : Text} {x : CodePoint} (hle : t.length < t'.length)
    (ih : ∀ {s rest : Text}, scanString t = some (s, rest) → rest.length < t.length)
    (h : (scanString t).map (fun r ↦ (x :: r.1, r.2)) = some (s, rest)) :
    rest.length < t'.length := by
  obtain ⟨r, hr, heq⟩ := Option.map_eq_some_iff.mp h
  have hlt := ih (show scanString t = some (r.1, r.2) from hr)
  obtain rfl : r.2 = rest := congrArg Prod.snd heq
  omega

/-- A string ends before the text does. -/
theorem scanString_length {t s rest : Text} (h : scanString t = some (s, rest)) :
    rest.length < t.length := by
  induction hn : t.length using Nat.strong_induction_on generalizing t s rest with
  | _ n ih =>
    subst hn
    have hmap : ∀ {u : Text} {x : CodePoint}, u.length < t.length →
        (scanString u).map (fun r ↦ (x :: r.1, r.2)) = some (s, rest) →
          rest.length < t.length := fun hlt hu ↦
      length_of_scanString_map hlt (fun hs ↦ ih _ hlt hs rfl) hu
    rw [scanString.eq_def] at h
    split at h
    · exact absurd h (by simp)
    split at h
    · rw [Option.some_inj, Prod.mk.injEq] at h
      obtain ⟨-, rfl⟩ := h
      simp
    split at h
    · split at h
      · exact absurd h (by simp)
      split at h
      · split at h
        · obtain ⟨u, -, h⟩ := Option.bind_eq_some_iff.mp h
          split at h
          · split at h
            · exact hmap (by simp; omega) h
            · split at h
              · exact hmap (by simp only [List.length_cons]; omega) h
              · exact absurd h (by simp)
          · exact hmap (by simp; omega) h
        · exact absurd h (by simp)
      · obtain ⟨x, -, h⟩ := Option.bind_eq_some_iff.mp h
        exact hmap (by simp) h
    split at h
    · exact absurd h (by simp)
    · exact hmap (by simp) h

theorem scanFraction_length (t : Text) : (scanFraction t).2.length ≤ t.length := by
  rw [scanFraction.eq_def]
  split
  · split
    · exact (List.length_dropWhile_le _ _).trans (by simp)
    · exact le_rfl
  · exact le_rfl

theorem scanExponent_length (t : Text) : (scanExponent t).2.length ≤ t.length := by
  rw [scanExponent.eq_def]
  split
  · rename_i c t'
    generalize t'.take (if t'.head?.any (oneOf "+-") then 1 else 0) = sign
    simp only
    split
    · refine (List.length_dropWhile_le _ _).trans ?_
      rw [List.length_drop, List.length_cons]
      omega
    · exact le_rfl
  · exact le_rfl

/-- A numeral has at least one digit. -/
theorem scanNumber_length {negative : Bool} {t rest : Text} {n : Numeral}
    (h : scanNumber negative t = some (n, rest)) : rest.length < t.length := by
  rw [scanNumber.eq_def] at h
  split at h
  · exact absurd h (by simp)
  · rename_i c t
    split at h
    · rename_i hc
      simp only [Option.some.injEq, Prod.mk.injEq] at h
      rw [← h.2]
      refine (scanExponent_length _).trans_lt ((scanFraction_length _).trans_lt ?_)
      split
      · simp
      · rw [List.dropWhile_cons_of_pos hc]
        exact (List.length_dropWhile_le _ _).trans_lt (by simp)
    · exact absurd h (by simp)

/-! ## The numerals -/

/-- The numerals of a text, outside its strings; the fuel is the length of the text. -/
def numeralsFrom : ℕ → Text → List Numeral
  | 0, _ => []
  | _ + 1, [] => []
  | fuel + 1, c :: t =>
    if c = .scalar '"' then
      match scanString t with
      | some (_, rest) => numeralsFrom fuel rest
      | none => []
    else
      match (if c = .scalar '-' then scanNumber true t else scanNumber false (c :: t)) with
      | some (n, rest) => n :: numeralsFrom fuel rest
      | none => numeralsFrom fuel t

/-- The numerals of a text. -/
def numerals (t : Text) : List Numeral := numeralsFrom t.length t

/-- More fuel than there is text makes no difference. -/
theorem numeralsFrom_eq {fuel fuel' : ℕ} {t : Text} (h : t.length ≤ fuel) (h' : t.length ≤ fuel') :
    numeralsFrom fuel t = numeralsFrom fuel' t := by
  induction fuel generalizing fuel' t with
  | zero =>
    rw [Nat.le_zero, List.length_eq_zero_iff] at h
    subst h
    cases fuel' <;> rfl
  | succ fuel ih =>
    cases t with
    | nil => cases fuel' <;> rfl
    | cons c t =>
      rw [List.length_cons] at h h'
      obtain ⟨fuel', rfl⟩ : ∃ k, fuel' = k + 1 := ⟨fuel' - 1, by omega⟩
      rw [numeralsFrom, numeralsFrom]
      split
      · split
        · rename_i hs
          have hlt := scanString_length hs
          exact ih (by omega) (by omega)
        · rfl
      · split
        · rename_i n rest hn
          have hlt : rest.length < t.length + 1 := by
            split at hn
            · exact (scanNumber_length hn).trans (Nat.lt_succ_self _)
            · exact scanNumber_length hn
          exact congrArg _ (ih (Nat.lt_succ_iff.mp (hlt.trans_le h)) (by omega))
        · exact ih (by omega) (by omega)

/-- A string holds no numerals. -/
theorem numerals_quote {t s rest : Text} (h : scanString t = some (s, rest)) :
    numerals (.scalar '"' :: t) = numerals rest := by
  have hlt := scanString_length h
  rw [numerals, List.length_cons, numeralsFrom, if_pos rfl, h]
  exact numeralsFrom_eq hlt.le le_rfl

/-- A numeral is cut out where it starts. -/
theorem numerals_numeral {c : CodePoint} {t rest : Text} {n : Numeral} (hc : c ≠ .scalar '"')
    (h : (if c = .scalar '-' then scanNumber true t else scanNumber false (c :: t)) =
      some (n, rest)) : numerals (c :: t) = n :: numerals rest := by
  have hlt : rest.length < t.length + 1 := by
    split at h
    · exact (scanNumber_length h).trans (Nat.lt_succ_self _)
    · exact scanNumber_length h
  rw [numerals, List.length_cons, numeralsFrom, if_neg hc, h]
  exact congrArg _ (numeralsFrom_eq (by omega) le_rfl)

/-- Every other character is passed over. -/
theorem numerals_cons {c : CodePoint} {t : Text} (hquote : c ≠ .scalar '"')
    (hminus : c ≠ .scalar '-') (hdigit : isDigit c = false) : numerals (c :: t) = numerals t := by
  have hnone : scanNumber false (c :: t) = none := by
    rw [scanNumber, if_neg (by rw [hdigit]; exact Bool.false_ne_true)]
  rw [numerals, List.length_cons, numeralsFrom, if_neg hquote, if_neg hminus, hnone]
  rfl

theorem numerals_skipWs (t : Text) : numerals (skipWs t) = numerals t := by
  induction t with
  | nil => rfl
  | cons c t ih =>
    rw [skipWs, List.dropWhile_cons]
    split
    · rename_i hc
      have hne : ∀ d : CodePoint, isWs d = false → c ≠ d := by
        rintro d hd rfl
        rw [hd] at hc
        exact Bool.false_ne_true hc
      have hdigit : isDigit c = false := by
        rw [isWs, oneOf, List.contains_iff_mem] at hc
        have hall : ∀ d ∈ text " \t\n\r", isDigit d = false := by decide
        exact hall c hc
      rw [numerals_cons (hne _ (by decide)) (hne _ (by decide)) hdigit]
      exact ih
    · rfl

/-- A punctuation mark behind whitespace is passed over. -/
theorem numerals_of_skipWs {c : CodePoint} {t rest : Text} (h : skipWs t = c :: rest)
    (hquote : c ≠ .scalar '"') (hminus : c ≠ .scalar '-') (hdigit : isDigit c = false) :
    numerals t = numerals rest := by
  rw [← numerals_skipWs, h, numerals_cons hquote hminus hdigit]

/-- The letters of a constant are passed over. -/
theorem numerals_append {letters t : Text}
    (h : ∀ c ∈ letters, c ≠ .scalar '"' ∧ c ≠ .scalar '-' ∧ isDigit c = false) :
    numerals (letters ++ t) = numerals t := by
  induction letters with
  | nil => rfl
  | cons c u ih =>
    rw [List.forall_mem_cons] at h
    rw [List.cons_append, numerals_cons h.1.1 h.1.2.1 h.1.2.2]
    exact ih h.2

/-! ## Finite documents -/

variable [Interpreter] {ε : Type}

/-- The text of a numeral. -/
def Numeral.spelling (n : Numeral) : Text :=
  (if n.negative then text "-" else []) ++ n.digits ++ n.tail

/-- A numeral denotes a finite number: it is an integer, or a float that can be printed. -/
def Numeral.Finite (n : Numeral) : Prop :=
  n.tail ≠ [] → (Interpreter.floatRepr (Interpreter.floatOf n.spelling)).isSome = true

mutual

/-- Every number of a value is finite. -/
def Json.Finite : Json → Prop
  | .null | .bool _ | .int _ | .str _ => True
  | .float x => (Interpreter.floatRepr x).isSome = true
  | .arr items => FiniteItems items
  | .obj members => FiniteMembers members

/-- Every number of every item is finite. -/
def FiniteItems : List Json → Prop
  | [] => True
  | v :: items => v.Finite ∧ FiniteItems items

/-- Every number of every member is finite. -/
def FiniteMembers : List (Text × Json) → Prop
  | [] => True
  | (_, v) :: members => v.Finite ∧ FiniteMembers members

end

/-- Every number in what was read is finite. -/
def Form.Finite : Form → Prop
  | .value v => v.Finite
  | .members pairs => FiniteMembers pairs
  | .items vs => FiniteItems vs

/-- Every numeral of a text is finite. -/
def FiniteNumerals (t : Text) : Prop := ∀ n ∈ numerals t, n.Finite

/-- Hooks that refuse the constants and keep the members of an object. -/
structure Hooks.Strict (h : Hooks ε) : Prop where
  objectPairs : ∀ {pairs : List (Text × Json)} {v : Json}, h.objectPairs pairs = .ok v →
    v = .obj pairs
  parseConstant : ∀ {t : Text} {v : Json}, h.parseConstant t ≠ .ok v

variable {h : Hooks ε}

theorem Numeral.finite_value {n : Numeral} {v : Json} (hv : n.value = some v) :
    v.Finite ↔ n.Finite := by
  rw [Numeral.value] at hv
  split at hv
  · rename_i htail
    split at hv
    · rw [← Option.some.inj hv]
      exact iff_of_true trivial fun hne ↦ absurd htail hne
    · exact absurd hv (by simp)
  · rename_i htail
    rw [← Option.some.inj hv, Json.Finite, Numeral.Finite, Numeral.spelling]
    exact ⟨fun hfinite _ ↦ hfinite, fun hfinite ↦ hfinite htail⟩

theorem finite_of_scanNumeral {c : CodePoint} {t rest : Text} {v : Json} (hc : c ≠ .scalar '"')
    (hv : scanNumeral (c :: t) = (.ok (v, rest) : Except (LoadsError ε) (Json × Text))) :
    FiniteNumerals (c :: t) ↔ v.Finite ∧ FiniteNumerals rest := by
  rw [scanNumeral] at hv
  split at hv
  · exact absurd hv (by simp)
  · rename_i n u hn
    split at hv
    · rename_i w hw
      rw [Except.ok.injEq, Prod.mk.injEq] at hv
      obtain ⟨rfl, rfl⟩ := hv
      simp only [List.head?_cons, Option.some_inj, List.tail_cons] at hn
      rw [FiniteNumerals, numerals_numeral hc hn, List.forall_mem_cons, Numeral.finite_value hw]
      rfl
    · exact absurd hv (by simp)

theorem finite_of_scanConstant (hh : h.Strict) {c : CodePoint} {t rest : Text} {v : Json}
    (hc : c ≠ .scalar '"')
    (hv : (scanConstant h (c :: t)).getD (scanNumeral (c :: t)) = .ok (v, rest)) :
    FiniteNumerals (c :: t) ↔ v.Finite ∧ FiniteNumerals rest := by
  have hlit : ∀ (s : String) (w : Json),
      (∀ c ∈ text s, c ≠ .scalar '"' ∧ c ≠ .scalar '-' ∧ isDigit c = false) →
      text s <+: c :: t → w.Finite →
      (.ok (w, (c :: t).drop (text s).length) : Except (LoadsError ε) (Json × Text)) =
        .ok (v, rest) → (FiniteNumerals (c :: t) ↔ v.Finite ∧ FiniteNumerals rest) := by
    rintro s w hall ⟨u, hu⟩ hw heq
    rw [Except.ok.injEq, Prod.mk.injEq, ← hu, List.drop_left] at heq
    obtain ⟨rfl, rfl⟩ := heq
    rw [← hu, FiniteNumerals, numerals_append hall, and_iff_right hw]
    rfl
  rw [scanConstant] at hv
  split at hv
  · exact hlit "null" _ (by decide) ‹_› (by rw [Json.Finite]; trivial) hv
  split at hv
  · exact hlit "true" _ (by decide) ‹_› (by rw [Json.Finite]; trivial) hv
  split at hv
  · exact hlit "false" _ (by decide) ‹_› (by rw [Json.Finite]; trivial) hv
  split at hv
  · exact absurd (callHook_eq_ok_iff.mp hv).1 hh.parseConstant
  split at hv
  · exact absurd (callHook_eq_ok_iff.mp hv).1 hh.parseConstant
  split at hv
  · exact absurd (callHook_eq_ok_iff.mp hv).1 hh.parseConstant
  · exact finite_of_scanNumeral hc hv

/-- What is read is finite as far as the numerals in front of what follows are.  The induction is
on what was read; a value, a key and a mark each account for the stretch of text they take. -/
theorem Scanned.finite_iff (hh : h.Strict) {form : Form} {t rest : Text}
    (hs : Scanned h form t rest) : FiniteNumerals t ↔ form.Finite ∧ FiniteNumerals rest := by
  have hmarks : ∀ c ∈ text "\x7b\x7d[],:", c ≠ .scalar '"' ∧ c ≠ .scalar '-' ∧
      isDigit c = false := by decide
  have hmark : ∀ {c : CodePoint} {t u : Text}, skipWs t = c :: u →
      c ∈ text "\x7b\x7d[],:" → (FiniteNumerals t ↔ FiniteNumerals u) := by
    intro c t u ht hc
    obtain ⟨hquote, hminus, hdigit⟩ := hmarks c hc
    rw [FiniteNumerals, numerals_of_skipWs ht hquote hminus hdigit]
    rfl
  have hskip : ∀ {t : Text}, FiniteNumerals (skipWs t) ↔ FiniteNumerals t := by
    intro t
    rw [FiniteNumerals, numerals_skipWs]
    rfl
  have hopen : ∀ {c : CodePoint} {t : Text}, c ∈ text "\x7b\x7d[],:" →
      (FiniteNumerals (c :: t) ↔ FiniteNumerals t) := by
    intro c t hc
    obtain ⟨hquote, hminus, hdigit⟩ := hmarks c hc
    rw [FiniteNumerals, numerals_cons hquote hminus hdigit]
    rfl
  have hkey : ∀ {k t u u' : Text}, scanString t = some (k, u) → skipWs u = .scalar ':' :: u' →
      (FiniteNumerals (.scalar '"' :: t) ↔ FiniteNumerals (skipWs u')) := by
    intro k t u u' hk hu
    rw [FiniteNumerals, numerals_quote hk]
    exact (hmark hu (by decide)).trans hskip.symm
  have hclose : ∀ {c : CodePoint} {t : Text}, (skipWs t).head? = some c →
      c ∈ text "\x7b\x7d[],:" → (FiniteNumerals t ↔ FiniteNumerals (skipWs t).tail) := by
    intro c t ht hc
    obtain ⟨u, hu⟩ := List.head?_eq_some_iff.mp ht
    rw [hu, List.tail_cons]
    exact hmark hu hc
  induction hs with
  | str hs =>
    rw [FiniteNumerals, numerals_quote hs]
    exact (and_iff_right (by rw [Form.Finite, Json.Finite]; trivial)).symm
  | objNil ht hv =>
    refine ((hopen (by decide)).trans (hclose ht (by decide))).trans (and_iff_right ?_).symm
    rw [hh.objectPairs hv, Form.Finite, Json.Finite, FiniteMembers]
    trivial
  | obj _ hv ih =>
    rw [hh.objectPairs hv, Form.Finite, Json.Finite]
    exact (hopen (by decide)).trans (hskip.symm.trans ih)
  | arrNil ht =>
    refine ((hopen (by decide)).trans (hclose ht (by decide))).trans (and_iff_right ?_).symm
    rw [Form.Finite, Json.Finite, FiniteItems]
    trivial
  | arr _ ih =>
    rw [Form.Finite, Json.Finite]
    exact (hopen (by decide)).trans (hskip.symm.trans ih)
  | other hc hv => exact finite_of_scanConstant hh hc.1 hv
  | lastMember hk hu _ hw ih =>
    rw [Form.Finite, FiniteMembers, FiniteMembers, and_true]
    exact (hkey hk hu).trans (ih.trans (and_congr_right fun _ ↦ hmark hw (by decide)))
  | member hk hu _ hw _ ihv ihm =>
    rw [Form.Finite, FiniteMembers, and_assoc]
    refine (hkey hk hu).trans (ihv.trans (and_congr_right fun _ ↦ ?_))
    exact (hmark hw (by decide)).trans (hskip.symm.trans ihm)
  | lastItem _ hw ih =>
    rw [Form.Finite, FiniteItems, FiniteItems, and_true]
    exact ih.trans (and_congr_right fun _ ↦ hmark hw (by decide))
  | item _ hw _ ihv ihi =>
    rw [Form.Finite, FiniteItems, and_assoc]
    refine ihv.trans (and_congr_right fun _ ↦ ?_)
    exact (hmark hw (by decide)).trans (hskip.symm.trans ihi)

/-- **A document whose constants are refused is finite exactly when every numeral of its text
is.** -/
theorem loads_finite_iff (hh : h.Strict) {t : Text} {v : Json} (hv : loads h t = .ok v) :
    v.Finite ↔ FiniteNumerals t := by
  obtain ⟨rest, hs, hrest⟩ := loads_scanned hv
  have hfinite := hs.finite_iff hh
  have hnone : FiniteNumerals rest := by
    rw [FiniteNumerals, ← numerals_skipWs, hrest]
    exact fun n hn ↦ absurd hn List.not_mem_nil
  rw [FiniteNumerals, numerals_skipWs, and_iff_left hnone] at hfinite
  exact hfinite.symm

end Py
