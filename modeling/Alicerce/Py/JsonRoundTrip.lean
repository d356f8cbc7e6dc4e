import Alicerce.Py.Json

/-!
# Reading back what was printed

The scanner inverts the printer on every value without floats whose objects have their keys in
order.

* `Json.Canonical` is what such values are, and `Json.depth` how many containers one nests.
* `Hooks.Plain`: `object_pairs_hook` builds the plain `dict` whenever no key is repeated.
* `scanString_flatMap_escape` and `scanNumeral_intRepr` are the parts of it about strings and about
  integers.
* `scanValue_dumps` is the mutual recursion over the value, in which the scanner is always run on a
  printed value *followed by something*, since that is how it meets the parts of a container.  All
  that is asked of what follows is that it cannot extend a numeral (`NumberEnd`).
* `loads_dumps` is what this comes to for a whole text, when the value nests no deeper than the
  interpreter can recurse.
-/

set_option autoImplicit false

namespace Py

/-! ## Strings -/

theorem scanString_quote (t : Text) : scanString (.scalar '"' :: t) = some ([], t) := by
  simp [scanString.eq_def]

/-- A code point that stands for itself. -/
theorem scanString_plain {c : CodePoint} (hquote : c ≠ .scalar '"') (hback : c ≠ .scalar '\\')
    (hctl : ¬c.ord < 0x20) (t : Text) :
    scanString (c :: t) = (scanString t).map fun r ↦ (c :: r.1, r.2) := by
  rw [scanString.eq_def]
  simp only [if_neg hquote, if_neg hback, if_neg hctl]

/-- An escape of one letter. -/
theorem scanString_simple {e x : CodePoint} (he : e ≠ .scalar 'u') (hx : simpleEscape e = some x)
    (t : Text) :
    scanString (.scalar '\\' :: e :: t) = (scanString t).map fun r ↦ (x :: r.1, r.2) := by
  rw [scanString.eq_def]
  simp [he, hx]

/-- An escape of four hexadecimal digits that is not a high surrogate. -/
theorem scanString_unicode {a b c d : CodePoint} {u : ℕ} (hu : hex4 a b c d = some u)
    (hlow : u < 0xD800) (t : Text) :
    scanString (.scalar '\\' :: .scalar 'u' :: a :: b :: c :: d :: t) =
      (scanString t).map fun r ↦ (ofUnit u :: r.1, r.2) := by
  rw [scanString.eq_def]
  have h : ¬(0xD800 ≤ u ∧ u < 0xDC00) := by omega
  simp [hu, h]

/-- Below the space, the two hexadecimal digits of an escape give the code point back. -/
private theorem control_escape : ∀ n < 0x20,
    hex4 (.scalar '0') (.scalar '0') (hexChar (n / 16)) (hexChar n) = some n ∧
      (CodePoint.scalar (Char.ofNat n)).ord = n := by decide

private theorem eq_scalar_of_ord_lt {c : CodePoint} (h : c.ord < 0x20) :
    CodePoint.scalar (Char.ofNat c.ord) = c :=
  CodePoint.ord_injective (control_escape _ h).2

/-- A control character that has no letter of its own. -/
private theorem scanString_control {c : CodePoint} (h : c.ord < 0x20) (t : Text) :
    scanString (text "\\u00" ++ [hexChar (c.ord / 16), hexChar c.ord] ++ t) =
      (scanString t).map fun r ↦ (c :: r.1, r.2) := by
  have hu : ofUnit c.ord = c := by
    rw [ofUnit, dif_neg (by omega), eq_scalar_of_ord_lt h]
  refine (scanString_unicode (control_escape _ h).1 (by omega) t).trans ?_
  rw [hu]

/-- The scanner undoes one escape. -/
theorem scanString_escape (c : CodePoint) (t : Text) :
    scanString (escape c ++ t) = (scanString t).map fun r ↦ (c :: r.1, r.2) := by
  have hord : ∀ n < 0x20, c.ord = n → CodePoint.scalar (Char.ofNat n) = c := fun n hn hc ↦ by
    rw [← hc, eq_scalar_of_ord_lt (hc ▸ hn)]
  rw [escape]
  split
  · rename_i h; rw [h]; exact scanString_simple (by decide) (by decide) t
  split
  · rename_i h; rw [h]; exact scanString_simple (by decide) (by decide) t
  split
  · rename_i h; rw [← hord 8 (by decide) h]; exact scanString_simple (by decide) (by decide) t
  split
  · rename_i h; rw [← hord 12 (by decide) h]; exact scanString_simple (by decide) (by decide) t
  split
  · rename_i h; rw [← hord 10 (by decide) h]; exact scanString_simple (by decide) (by decide) t
  split
  · rename_i h; rw [← hord 13 (by decide) h]; exact scanString_simple (by decide) (by decide) t
  split
  · rename_i h; rw [← hord 9 (by decide) h]; exact scanString_simple (by decide) (by decide) t
  split
  · rename_i h; exact scanString_control h t
  · rename_i hquote hback _ _ _ _ _ hctl; exact scanString_plain hquote hback hctl t

theorem scanString_flatMap_escape (s rest : Text) :
    scanString (s.flatMap escape ++ .scalar '"' :: rest) = some (s, rest) := by
  induction s with
  | nil => exact scanString_quote rest
  | cons c s ih =>
    rw [List.flatMap_cons, List.append_assoc, scanString_escape, ih, Option.map_some]

theorem quote_append (s rest : Text) :
    quote s ++ rest = .scalar '"' :: (s.flatMap escape ++ .scalar '"' :: rest) := by
  simp [quote]

/-! ## Numbers -/

/-- What follows cannot extend a numeral. -/
def NumberEnd (t : Text) : Prop :=
  ∀ c, t.head? = some c → isDigit c = false ∧ c ≠ .scalar '.' ∧ oneOf "eE" c = false

theorem numberEnd_nil : NumberEnd [] := fun _ h ↦ by simp at h

theorem numberEnd_cons {c : Char} (h : c ∈ [',', '}', ']']) (t : Text) :
    NumberEnd (.scalar c :: t) := by
  have hall : isDigit (.scalar c) = false ∧ CodePoint.scalar c ≠ .scalar '.' ∧
      oneOf "eE" (.scalar c) = false := by
    simp only [List.mem_cons, List.not_mem_nil, or_false] at h
    rcases h with rfl | rfl | rfl <;> decide
  intro d hd
  rw [List.head?_cons, Option.some_inj] at hd
  exact hd ▸ hall

theorem scanFraction_numberEnd {t : Text} (h : NumberEnd t) : scanFraction t = ([], t) := by
  cases t with
  | nil => rfl
  | cons c t =>
    rw [scanFraction, if_neg]
    exact fun hc ↦ (h c rfl).2.1 hc.1

theorem scanExponent_numberEnd {t : Text} (h : NumberEnd t) : scanExponent t = ([], t) := by
  cases t with
  | nil => rfl
  | cons c t =>
    rw [scanExponent]
    exact if_neg fun hc ↦ by simp [(h c rfl).2.2] at hc

theorem takeWhile_digits {ds t : Text} (hd : ds.all isDigit = true) (ht : NumberEnd t) :
    (ds ++ t).takeWhile isDigit = ds ∧ (ds ++ t).dropWhile isDigit = t := by
  have hd' : ∀ c ∈ ds, isDigit c = true := List.all_eq_true.mp hd
  rw [List.takeWhile_append_of_pos hd', List.dropWhile_append_of_pos hd']
  cases t with
  | nil => simp
  | cons c t => simp [(ht c rfl).1]

/-- The digits of a natural number are cut out whole. -/
theorem scanNumber_decimal (negative : Bool) (n : ℕ) {t : Text} (ht : NumberEnd t) :
    scanNumber negative (decimal n ++ t) = some (⟨negative, decimal n, []⟩, t) := by
  obtain ⟨c, ds, hcds⟩ := List.exists_cons_of_ne_nil (decimal_ne_nil n)
  have hall := decimal_all_digit n
  have hspan := takeWhile_digits hall ht
  rw [hcds, List.cons_append] at hspan
  have hc : isDigit c = true := by
    rw [hcds, List.all_cons, Bool.and_eq_true] at hall
    exact hall.1
  have hcut : (if c = .scalar '0' then [c] else (c :: (ds ++ t)).takeWhile isDigit) = c :: ds ∧
      (if c = .scalar '0' then ds ++ t else (c :: (ds ++ t)).dropWhile isDigit) = t := by
    split
    · rename_i hzero
      have hn : n = 0 := by
        by_contra hne
        exact head_decimal hne (by rw [hcds]; rfl) (by rw [hzero]; decide)
      have hds : ds = [] := by
        rw [hn, decimal, if_pos rfl] at hcds
        exact (List.cons.inj hcds).2.symm
      simp [hds]
    · exact hspan
  rw [hcds, List.cons_append, scanNumber, if_pos hc]
  simp only [hcut.1, hcut.2, scanFraction_numberEnd ht, scanExponent_numberEnd ht, List.append_nil]

theorem skipWs_cons {c : CodePoint} (hc : isWs c = false) (t : Text) :
    skipWs (c :: t) = c :: t := by
  simp [skipWs, hc]

theorem nodup_of_strictly_sorted {l : List Text}
    (h : l.Pairwise fun a b ↦ a.le b = true ∧ a ≠ b) : l.Nodup := h.imp fun h ↦ h.2

/-- The characters a value can open with. -/
def startsValue : CharClass := (oneOf "\x22\x7b[-ntf").or isDigit

theorem ne_of_startsValue {c d : CodePoint} (hc : startsValue c = true)
    (hd : startsValue d = false) : c ≠ d := by
  rintro rfl
  rw [hd] at hc
  exact absurd hc (by decide)

theorem isWs_of_startsValue {c : CodePoint} (hc : startsValue c = true) : isWs c = false := by
  rw [Bool.eq_false_iff]
  intro hws
  have hall : ∀ d ∈ text " \t\n\r", startsValue d = false := by decide
  exact ne_of_startsValue hc (hall c (List.contains_iff_mem.mp hws)) rfl

theorem decimal_head (n : ℕ) : ∃ c t, decimal n = c :: t ∧ isDigit c = true := by
  obtain ⟨c, t, hct⟩ := List.exists_cons_of_ne_nil (decimal_ne_nil n)
  exact ⟨c, t, hct,
    List.all_eq_true.mp (decimal_all_digit n) c (by rw [hct]; exact List.mem_cons_self ..)⟩

theorem length_comma : (text ",").length = 1 := rfl

theorem comma_append (t : Text) : text "," ++ t = .scalar ',' :: t := rfl

theorem length_member (k d : Text) : d.length ≤ (member (k, d)).length := by
  simp only [member, List.length_append, List.length_cons]
  omega

theorem member_append (k d t : Text) :
    member (k, d) ++ t = .scalar '"' ::
      (k.flatMap escape ++ .scalar '"' :: .scalar ':' :: (d ++ t)) := by
  rw [member, List.append_assoc, quote_append, List.cons_append]

variable [Interpreter] {ε : Type}

/-- **An integer is read back.** -/
theorem scanNumeral_intRepr {n : ℤ} {d t : Text} (hd : intRepr n = some d) (ht : NumberEnd t) :
    scanNumeral (d ++ t) = (.ok (.int n, t) : Except (LoadsError ε) (Json × Text)) := by
  rw [intRepr] at hd
  split at hd
  · rename_i hlen
    obtain rfl := Option.some.inj hd
    by_cases hn : n < 0
    · rw [if_pos hn, List.cons_append, scanNumeral, List.head?_cons, if_pos rfl, List.tail_cons,
        scanNumber_decimal true _ ht]
      simp only [Numeral.value, if_pos hlen, if_true, ofDecimal_decimal]
      rw [show -(n.natAbs : ℤ) = n by omega]
    · have hhead : (decimal n.natAbs ++ t).head? ≠ some (.scalar '-') := by
        rw [List.head?_append_of_ne_nil _ (decimal_ne_nil _)]
        intro hm
        exact absurd (List.all_eq_true.mp (decimal_all_digit _) _ (List.mem_of_head? hm))
          (by decide)
      rw [if_neg hn, scanNumeral, if_neg hhead, scanNumber_decimal false _ ht]
      simp only [Numeral.value, if_pos hlen, if_true, Bool.false_eq_true, if_false,
        ofDecimal_decimal]
      rw [show (n.natAbs : ℤ) = n by omega]
  · exact absurd hd (by simp)

/-! ## Canonical values -/

mutual

/-- No float, and the keys of every object strictly increasing. -/
def Json.Canonical : Json → Prop
  | .null | .bool _ | .int _ | .str _ => True
  | .float _ => False
  | .arr items => CanonicalItems items
  | .obj members =>
    (members.map Prod.fst).Pairwise (fun a b ↦ a.le b = true ∧ a ≠ b) ∧ CanonicalMembers members

/-- Every item is canonical. -/
def CanonicalItems : List Json → Prop
  | [] => True
  | v :: items => v.Canonical ∧ CanonicalItems items

/-- Every member is canonical. -/
def CanonicalMembers : List (Text × Json) → Prop
  | [] => True
  | (_, v) :: members => v.Canonical ∧ CanonicalMembers members

end

mutual

/-- How many containers a value nests. -/
def Json.depth : Json → ℕ
  | .arr items => depthItems items + 1
  | .obj members => depthMembers members + 1
  | _ => 0

/-- The deepest item. -/
def depthItems : List Json → ℕ
  | [] => 0
  | v :: items => max v.depth (depthItems items)

/-- The deepest member. -/
def depthMembers : List (Text × Json) → ℕ
  | [] => 0
  | (_, v) :: members => max v.depth (depthMembers members)

end

/-- `object_pairs_hook` builds the plain `dict` whenever no key is repeated. -/
def Hooks.Plain (h : Hooks ε) : Prop :=
  ∀ members : List (Text × Json), (members.map Prod.fst).Nodup →
    h.objectPairs members = .ok (.obj members)

/-! ## Printing, piece by piece -/

theorem dumpsMembers_keys : ∀ {members : List (Text × Json)} {parts : List (Text × Text)},
    dumpsMembers members = some parts → parts.map Prod.fst = members.map Prod.fst
  | [], parts, h => by rw [dumpsMembers, Option.some_inj] at h; rw [← h]; rfl
  | (k, v) :: members, parts, h => by
    rw [dumpsMembers, Option.bind_eq_some_iff] at h
    obtain ⟨part, -, h⟩ := h
    rw [Option.map_eq_some_iff] at h
    obtain ⟨rest, hrest, rfl⟩ := h
    rw [List.map_cons, List.map_cons, dumpsMembers_keys hrest]

/-- The printed members of a canonical object are already in order. -/
theorem mergeSort_keyLe_eq {members : List (Text × Json)} {parts : List (Text × Text)}
    (hsort : (members.map Prod.fst).Pairwise fun a b ↦ a.le b = true ∧ a ≠ b)
    (hparts : dumpsMembers members = some parts) : parts.mergeSort keyLe = parts := by
  refine List.mergeSort_of_pairwise ?_
  rw [← dumpsMembers_keys hparts, List.pairwise_map] at hsort
  exact hsort.imp fun h ↦ h.1

/-- A printed value starts like a value. -/
theorem dumps_head {v : Json} {d : Text} (hd : dumps v = some d) (hv : v.Canonical) :
    ∃ c t, d = c :: t ∧ startsValue c = true := by
  match v with
  | .null | .bool true | .bool false | .str s =>
    rw [dumps, Option.some_inj] at hd
    subst hd
    exact ⟨_, _, rfl, by decide⟩
  | .int n =>
    obtain ⟨c, t, hct, hc⟩ := decimal_head n.natAbs
    rw [dumps, intRepr] at hd
    split at hd
    · obtain rfl := Option.some.inj hd
      split
      · exact ⟨_, _, rfl, by decide⟩
      · exact ⟨c, t, hct, by rw [startsValue, CharClass.or, hc, Bool.or_true]⟩
    · exact absurd hd (by simp)
  | .float x => exact hv.elim
  | .arr items =>
    rw [dumps, Option.map_eq_some_iff] at hd
    obtain ⟨parts, -, rfl⟩ := hd
    exact ⟨_, _, rfl, by decide⟩
  | .obj members =>
    rw [dumps, Option.map_eq_some_iff] at hd
    obtain ⟨parts, -, rfl⟩ := hd
    exact ⟨_, _, rfl, by decide⟩

theorem skipWs_dumps {v : Json} {d : Text} (hd : dumps v = some d) (hv : v.Canonical) (t : Text) :
    skipWs (d ++ t) = d ++ t := by
  obtain ⟨c, u, rfl, hc⟩ := dumps_head hd hv
  exact skipWs_cons (isWs_of_startsValue hc) _

/-- The printed items of an array start like its first item. -/
theorem items_head {v : Json} {items : List Json} {parts : List Text}
    (hd : dumpsItems (v :: items) = some parts) (hc : CanonicalItems (v :: items)) {t : Text} :
    ∃ c u, (text ",").intercalate parts ++ t = c :: u ∧ startsValue c = true := by
  rw [dumpsItems, Option.bind_eq_some_iff] at hd
  obtain ⟨part, hpart, hd⟩ := hd
  rw [Option.map_eq_some_iff] at hd
  obtain ⟨parts, -, rfl⟩ := hd
  obtain ⟨c, u, rfl, hstart⟩ := dumps_head hpart hc.1
  cases parts with
  | nil => exact ⟨c, u ++ t, by simp, hstart⟩
  | cons q parts => exact ⟨c, _, by rw [List.intercalate_cons_cons]; rfl, hstart⟩

/-- The printed members of an object start with a quote. -/
theorem members_head {p : Text × Json} {members : List (Text × Json)}
    {parts : List (Text × Text)} (hd : dumpsMembers (p :: members) = some parts) {t : Text} :
    ∃ u, (text ",").intercalate (parts.map member) ++ t = .scalar '"' :: u := by
  have hkeys := dumpsMembers_keys hd
  match parts, hkeys with
  | [q], _ => exact ⟨_, by rw [List.map_singleton, List.intercalate_singleton]; rfl⟩
  | q :: r :: parts, _ =>
    exact ⟨_, by rw [List.map_cons, List.map_cons, List.intercalate_cons_cons]; rfl⟩

theorem scanValue_str (h : Hooks ε) (fuel depth : ℕ) (s t : Text) :
    scanValue h (fuel + 1) depth (quote s ++ t) = .ok (.str s, t) := by
  rw [quote_append, scanValue.eq_def]
  simp only [if_true, scanString_flatMap_escape]

/-- A value that opens with neither a quote nor a bracket is a constant or a numeral. -/
theorem scanValue_other (h : Hooks ε) (fuel depth : ℕ) {c : CodePoint} {t : Text}
    (hc : c ≠ .scalar '"' ∧ c ≠ .scalar '{' ∧ c ≠ .scalar '[') :
    scanValue h (fuel + 1) depth (c :: t) =
      (scanConstant h (c :: t)).getD (scanNumeral (c :: t)) := by
  rw [scanValue.eq_def]
  simp only [if_neg hc.1, if_neg hc.2.1, if_neg hc.2.2]

theorem scanValue_obj_nil (h : Hooks ε) (fuel depth : ℕ) (t : Text) :
    scanValue h (fuel + 1) (depth + 1) (.scalar '{' :: .scalar '}' :: t) =
      callHook (h.objectPairs []) t := by
  rw [scanValue.eq_def]
  simp [skipWs_cons (show isWs (.scalar '}') = false by decide)]

/-- An object, from its members. -/
theorem scanValue_obj {h : Hooks ε} {fuel depth : ℕ} {t rest : Text}
    {members : List (Text × Json)} (hskip : skipWs t = t) (hhead : t.head? ≠ some (.scalar '}'))
    (ht : scanMembers h fuel depth t = .ok (members, rest)) :
    scanValue h (fuel + 1) (depth + 1) (.scalar '{' :: t) =
      callHook (h.objectPairs members) rest := by
  rw [scanValue.eq_def]
  simp [hskip, hhead, ht]

theorem scanValue_arr_nil (h : Hooks ε) (fuel depth : ℕ) (t : Text) :
    scanValue h (fuel + 1) (depth + 1) (.scalar '[' :: .scalar ']' :: t) = .ok (.arr [], t) := by
  rw [scanValue.eq_def]
  simp [skipWs_cons (show isWs (.scalar ']') = false by decide)]

/-- An array, from its items. -/
theorem scanValue_arr {h : Hooks ε} {fuel depth : ℕ} {t rest : Text} {items : List Json}
    (hskip : skipWs t = t) (hhead : t.head? ≠ some (.scalar ']'))
    (ht : scanItems h fuel depth t = .ok (items, rest)) :
    scanValue h (fuel + 1) (depth + 1) (.scalar '[' :: t) = .ok (.arr items, rest) := by
  rw [scanValue.eq_def]
  simp [hskip, hhead, ht]

/-- The last item of an array. -/
theorem scanItems_last {h : Hooks ε} {fuel depth : ℕ} {t rest : Text} {v : Json}
    (hv : scanValue h fuel depth t = .ok (v, .scalar ']' :: rest)) :
    scanItems h (fuel + 1) depth t = .ok ([v], rest) := by
  rw [scanItems, hv]
  simp [skipWs_cons (show isWs (.scalar ']') = false by decide)]

/-- An item of an array with more behind it. -/
theorem scanItems_cons {h : Hooks ε} {fuel depth : ℕ} {t rest rest' : Text} {v : Json}
    {items : List Json} (hv : scanValue h fuel depth t = .ok (v, .scalar ',' :: rest))
    (hskip : skipWs rest = rest) (hitems : scanItems h fuel depth rest = .ok (items, rest')) :
    scanItems h (fuel + 1) depth t = .ok (v :: items, rest') := by
  rw [scanItems, hv]
  simp [skipWs_cons (show isWs (.scalar ',') = false by decide), hskip, hitems]

/-- The last member of an object. -/
theorem scanMembers_last {h : Hooks ε} {fuel depth : ℕ} {k d t rest : Text} {v : Json}
    (hskip : skipWs (d ++ t) = d ++ t)
    (hv : scanValue h fuel depth (d ++ t) = .ok (v, .scalar '}' :: rest)) :
    scanMembers h (fuel + 1) depth (member (k, d) ++ t) = .ok ([(k, v)], rest) := by
  rw [member_append, scanMembers.eq_def]
  simp [scanString_flatMap_escape, skipWs_cons (show isWs (.scalar ':') = false by decide), hskip,
    hv, skipWs_cons (show isWs (.scalar '}') = false by decide)]

/-- A member of an object with more behind it. -/
theorem scanMembers_cons {h : Hooks ε} {fuel depth : ℕ} {k d t rest rest' : Text} {v : Json}
    {members : List (Text × Json)} (hskip : skipWs (d ++ t) = d ++ t)
    (hv : scanValue h fuel depth (d ++ t) = .ok (v, .scalar ',' :: rest))
    (hskip' : skipWs rest = rest) (hm : scanMembers h fuel depth rest = .ok (members, rest')) :
    scanMembers h (fuel + 1) depth (member (k, d) ++ t) = .ok ((k, v) :: members, rest') := by
  rw [member_append, scanMembers.eq_def]
  simp [scanString_flatMap_escape, skipWs_cons (show isWs (.scalar ':') = false by decide), hskip,
    hv, skipWs_cons (show isWs (.scalar ',') = false by decide), hskip', hm]

/-! ## Values -/

/-- A text that opens with a digit, or with a minus sign and a digit, is no constant. -/
theorem scanConstant_digit (h : Hooks ε) {c : CodePoint} (hc : isDigit c = true) (t : Text) :
    scanConstant h (c :: t) = none ∧ scanConstant h (.scalar '-' :: c :: t) = none := by
  have hne : ∀ d ∈ text "ntfNI-", d ≠ c := by
    rintro d hd rfl
    have hall : ∀ d ∈ text "ntfNI-", isDigit d = false := by decide
    rw [hall d hd] at hc
    exact absurd hc (by decide)
  have hopen : ∀ {s : String} {d e : CodePoint} {v : Text}, (text s).head? = some d → d ≠ e →
      ¬text s <+: e :: v := by
    intro s d e v hs hne hp
    obtain ⟨u, hu⟩ := List.head?_eq_some_iff.mp hs
    rw [hu] at hp
    exact hne (List.cons_prefix_cons.mp hp).1
  have hminus : ¬text "-Infinity" <+: .scalar '-' :: c :: t := fun hp ↦
    hne (.scalar 'I') (by decide)
      (List.cons_prefix_cons.mp (List.cons_prefix_cons.mp hp).2).1
  constructor
  · rw [scanConstant, if_neg (hopen rfl (hne _ (by decide))),
      if_neg (hopen rfl (hne _ (by decide))), if_neg (hopen rfl (hne _ (by decide))),
      if_neg (hopen rfl (hne _ (by decide))), if_neg (hopen rfl (hne _ (by decide))),
      if_neg (hopen rfl (hne _ (by decide)))]
  · rw [scanConstant, if_neg (hopen rfl (by decide)), if_neg (hopen rfl (by decide)),
      if_neg (hopen rfl (by decide)), if_neg (hopen rfl (by decide)),
      if_neg (hopen rfl (by decide)), if_neg hminus]

/-- An integer is scanned as a value. -/
theorem scanValue_int {h : Hooks ε} {n : ℤ} {d : Text} (hd : intRepr n = some d) (fuel depth : ℕ)
    {t : Text} (ht : NumberEnd t) : scanValue h (fuel + 1) depth (d ++ t) = .ok (.int n, t) := by
  have hscan := scanNumeral_intRepr (ε := ε) hd ht
  obtain ⟨c, u, hcu, hc⟩ := decimal_head n.natAbs
  have hne : ∀ e : CodePoint, isDigit e = false → c ≠ e := by
    rintro e he rfl
    rw [he] at hc
    exact absurd hc (by decide)
  rw [intRepr] at hd
  split at hd
  · obtain rfl := Option.some.inj hd
    rw [hcu] at hscan ⊢
    split at hscan
    · rename_i hneg
      rw [if_pos hneg, List.cons_append, List.cons_append,
        scanValue_other h fuel depth ⟨by decide, by decide, by decide⟩,
        (scanConstant_digit h hc _).2, Option.getD_none]
      exact hscan
    · rename_i hneg
      rw [if_neg hneg, List.cons_append,
        scanValue_other h fuel depth ⟨hne _ (by decide), hne _ (by decide), hne _ (by decide)⟩,
        (scanConstant_digit h hc _).1, Option.getD_none]
      exact hscan
  · exact absurd hd (by simp)

mutual

/-- **The scanner undoes the printer**, whatever follows the value. -/
theorem scanValue_dumps {h : Hooks ε} (hh : h.Plain) : ∀ (v : Json) {d : Text},
    dumps v = some d → v.Canonical → ∀ {fuel depth : ℕ}, 2 * d.length ≤ fuel → v.depth ≤ depth →
      ∀ {t : Text}, NumberEnd t → scanValue h fuel depth (d ++ t) = .ok (v, t)
  | v, d, hd, hc, 0, depth, hfuel, _, t, _ => by
    obtain ⟨c, u, rfl, -⟩ := dumps_head hd hc
    simp at hfuel
  | .null, d, hd, _, fuel + 1, depth, _, _, t, _ => by
    rw [dumps, Option.some_inj] at hd
    subst hd
    rfl
  | .bool true, d, hd, _, fuel + 1, depth, _, _, t, _ => by
    rw [dumps, Option.some_inj] at hd
    subst hd
    rfl
  | .bool false, d, hd, _, fuel + 1, depth, _, _, t, _ => by
    rw [dumps, Option.some_inj] at hd
    subst hd
    rfl
  | .int n, d, hd, _, fuel + 1, depth, _, _, t, ht => scanValue_int (by rwa [dumps] at hd) _ _ ht
  | .float x, _, _, hc, _ + 1, _, _, _, _, _ => hc.elim
  | .str s, d, hd, _, fuel + 1, depth, _, _, t, _ => by
    rw [dumps, Option.some_inj] at hd
    subst hd
    exact scanValue_str h fuel depth s t
  | .arr items, d, hd, hc, fuel + 1, depth, hfuel, hdepth, t, _ => by
    rw [dumps, Option.map_eq_some_iff] at hd
    obtain ⟨parts, hparts, rfl⟩ := hd
    obtain ⟨depth, rfl⟩ : ∃ e, depth = e + 1 := ⟨depth - 1, by rw [Json.depth] at hdepth; omega⟩
    rw [Json.depth] at hdepth
    rw [Json.Canonical] at hc
    rw [List.cons_append, List.append_assoc, List.singleton_append]
    cases items with
    | nil =>
      rw [dumpsItems, Option.some_inj] at hparts
      subst hparts
      exact scanValue_arr_nil h fuel depth t
    | cons v items =>
      obtain ⟨c, u, hcu, hstart⟩ := items_head hparts hc
      refine scanValue_arr ?_ ?_ (scanItems_dumps hh _ hparts (by simp) hc ?_ (by omega))
      · rw [hcu]; exact skipWs_cons (isWs_of_startsValue hstart) _
      · rw [hcu]; simpa using ne_of_startsValue hstart (by decide)
      · simp only [List.length_cons, List.length_append, List.length_nil] at hfuel
        omega
  | .obj members, d, hd, hc, fuel + 1, depth, hfuel, hdepth, t, _ => by
    rw [dumps, Option.map_eq_some_iff] at hd
    obtain ⟨parts, hparts, rfl⟩ := hd
    obtain ⟨depth, rfl⟩ : ∃ e, depth = e + 1 := ⟨depth - 1, by rw [Json.depth] at hdepth; omega⟩
    rw [Json.depth] at hdepth
    rw [Json.Canonical] at hc
    rw [mergeSort_keyLe_eq hc.1 hparts, braces] at hfuel ⊢
    rw [List.cons_append, List.append_assoc, List.singleton_append]
    have hhook := hh members (nodup_of_strictly_sorted hc.1)
    cases members with
    | nil =>
      rw [dumpsMembers, Option.some_inj] at hparts
      subst hparts
      refine (scanValue_obj_nil h fuel depth t).trans ?_
      rw [hhook, callHook]
    | cons p members =>
      obtain ⟨u, hu⟩ := members_head hparts
      refine (scanValue_obj ?_ ?_
        (scanMembers_dumps hh _ hparts (by simp) hc.2 ?_ (by omega))).trans ?_
      · rw [hu]; exact skipWs_cons (by decide) _
      · rw [hu]; simp
      · simp only [List.length_cons, List.length_append, List.length_nil] at hfuel
        omega
      · rw [hhook, callHook]

theorem scanItems_dumps {h : Hooks ε} (hh : h.Plain) : ∀ (items : List Json) {parts : List Text},
    dumpsItems items = some parts → items ≠ [] → CanonicalItems items → ∀ {fuel depth : ℕ},
      2 * ((text ",").intercalate parts).length + 1 ≤ fuel → depthItems items ≤ depth →
        ∀ {t : Text}, scanItems h fuel depth
          ((text ",").intercalate parts ++ .scalar ']' :: t) = .ok (items, t)
  | [], _, _, hne, _, _, _, _, _, _ => absurd rfl hne
  | v :: items, parts, hd, _, hc, 0, depth, hfuel, hdepth, t => by omega
  | v :: items, parts, hd, _, hc, fuel + 1, depth, hfuel, hdepth, t => by
    rw [dumpsItems, Option.bind_eq_some_iff] at hd
    obtain ⟨part, hpart, hd⟩ := hd
    rw [Option.map_eq_some_iff] at hd
    obtain ⟨parts, hparts, rfl⟩ := hd
    rw [CanonicalItems] at hc
    rw [depthItems] at hdepth
    cases items with
    | nil =>
      rw [dumpsItems, Option.some_inj] at hparts
      subst hparts
      rw [List.intercalate_singleton] at hfuel ⊢
      exact scanItems_last (scanValue_dumps hh v hpart hc.1 (by omega) (by omega)
        (numberEnd_cons (by decide) t))
    | cons w items =>
      have hne : parts ≠ [] := by
        rintro rfl
        simp [dumpsItems, Option.bind_eq_some_iff] at hparts
      rw [List.intercalate_cons_of_ne_nil hne] at hfuel ⊢
      simp only [List.length_append, length_comma] at hfuel
      rw [List.append_assoc, List.append_assoc, comma_append]
      obtain ⟨c, u, hcu, hstart⟩ := items_head hparts hc.2
      refine scanItems_cons (scanValue_dumps hh v hpart hc.1 (by omega) (by omega)
        (numberEnd_cons (by decide) _)) ?_
        (scanItems_dumps hh (w :: items) hparts (by simp) hc.2 (by omega) (by omega))
      rw [hcu]
      exact skipWs_cons (isWs_of_startsValue hstart) _

theorem scanMembers_dumps {h : Hooks ε} (hh : h.Plain) :
    ∀ (members : List (Text × Json)) {parts : List (Text × Text)},
      dumpsMembers members = some parts → members ≠ [] → CanonicalMembers members →
        ∀ {fuel depth : ℕ}, 2 * ((text ",").intercalate (parts.map member)).length + 1 ≤ fuel →
          depthMembers members ≤ depth → ∀ {t : Text}, scanMembers h fuel depth
            ((text ",").intercalate (parts.map member) ++ .scalar '}' :: t) = .ok (members, t)
  | [], _, _, hne, _, _, _, _, _, _ => absurd rfl hne
  | (k, v) :: members, parts, hd, _, hc, 0, depth, hfuel, hdepth, t => by omega
  | (k, v) :: members, parts, hd, _, hc, fuel + 1, depth, hfuel, hdepth, t => by
    rw [dumpsMembers, Option.bind_eq_some_iff] at hd
    obtain ⟨part, hpart, hd⟩ := hd
    rw [Option.map_eq_some_iff] at hd
    obtain ⟨parts, hparts, rfl⟩ := hd
    rw [CanonicalMembers] at hc
    rw [depthMembers] at hdepth
    rw [List.map_cons] at hfuel ⊢
    have hlen := length_member k part
    have hskip : ∀ t, skipWs (part ++ t) = part ++ t := skipWs_dumps hpart hc.1
    cases members with
    | nil =>
      rw [dumpsMembers, Option.some_inj] at hparts
      subst hparts
      rw [List.map_nil, List.intercalate_singleton] at hfuel ⊢
      exact scanMembers_last (hskip _) (scanValue_dumps hh v hpart hc.1 (by omega) (by omega)
        (numberEnd_cons (by decide) t))
    | cons p members =>
      have hne : parts.map member ≠ [] := by
        intro h
        have hkeys := dumpsMembers_keys hparts
        rw [List.map_eq_nil_iff.mp h] at hkeys
        simp at hkeys
      rw [List.intercalate_cons_of_ne_nil hne] at hfuel ⊢
      simp only [List.length_append, length_comma] at hfuel
      rw [List.append_assoc, List.append_assoc, comma_append]
      obtain ⟨u, hu⟩ := members_head hparts
      refine scanMembers_cons (hskip _) (scanValue_dumps hh v hpart hc.1 (by omega) (by omega)
        (numberEnd_cons (by decide) _)) ?_
        (scanMembers_dumps hh (p :: members) hparts (by simp) hc.2 (by omega) (by omega))
      rw [hu]
      exact skipWs_cons (by decide) _

end

/-- **`json.loads` undoes `json.dumps`** on canonical values no deeper than the interpreter can
recurse. -/
theorem loads_dumps {h : Hooks ε} (hh : h.Plain) {v : Json} {d : Text} (hd : dumps v = some d)
    (hc : v.Canonical) (hdepth : v.depth ≤ Interpreter.recursionLimit) : loads h d = .ok v := by
  have hfuel : 2 * d.length ≤ 2 * d.length + 2 := by omega
  have hscan := scanValue_dumps hh v hd hc hfuel hdepth numberEnd_nil
  have hskip := skipWs_dumps hd hc []
  rw [List.append_nil] at hscan hskip
  obtain ⟨c, u, hcu, hstart⟩ := dumps_head hd hc
  have hbom : d.head? ≠ some (.scalar (Char.ofNat 0xFEFF)) := by
    rw [hcu, List.head?_cons, Ne, Option.some_inj]
    exact ne_of_startsValue hstart (by decide)
  rw [loads, if_neg hbom, hskip, hscan, ok_bind]
  rfl

end Py
