import Alicerce.Py.JsonCanonical
import Alicerce.Py.JsonUtf8

/-!
# What a printed value determines

The text `json.dumps` prints has no redundancy to spare, and still no two different values share
one: strings are delimited by quotes their escapes cannot contain, the items of a container by
commas no item can end with, and a sorted object determines the mapping it was sorted from.

* `Printed` lists the shapes of a printed value, one for each syntactic category.
* `Printed.append_cancel`: a printed value can be cut off the front of a longer text in one way
  only.  It is proved by induction, with one lemma for each category (`intRepr_injective`,
  `intercalate_append_cancel`, `braces_append_cancel`), and is about texts: which value is printed
  by a text is asked afterwards.
* `SameText`, two values with one text, is then taken apart constructor by constructor: strings and
  integers are equal (`SameText.str`, `SameText.int`), arrays agree item by item (`SameText.arr`),
  and objects up to the order of their members (`SameText.obj_perm`), hence member by member when
  they list the same keys in the same order (`SameText.obj`).

Floats are printed by the interpreter.  All that is asked of it here is that a printed float is made
of the characters of a number (`FloatsPrintNumerals`).
-/

set_option autoImplicit false

namespace Py

/-! ## Where a value ends -/

/-- The characters of a number. -/
def numberChar : CharClass := isDigit.or (oneOf "-+.eE")

/-- What follows cannot extend a number. -/
def ValueEnd (t : Text) : Prop := ∀ c, t.head? = some c → numberChar c = false

theorem valueEnd_cons {c : CodePoint} (hc : numberChar c = false) (t : Text) :
    ValueEnd (c :: t) := by
  intro d hd
  rw [List.head?_cons, Option.some_inj] at hd
  exact hd ▸ hc

/-- The text of a number. -/
def IsNumeral (d : Text) : Prop := d ≠ [] ∧ ∀ c ∈ d, numberChar c = true

theorem takeWhile_numeral {d t : Text} (hd : IsNumeral d) (ht : ValueEnd t) :
    (d ++ t).takeWhile numberChar = d := by
  rw [List.takeWhile_append_of_pos hd.2]
  cases t with
  | nil => simp
  | cons c t => rw [List.takeWhile_cons_of_neg (by simp [ht c rfl]), List.append_nil]

/-- A number is cut off the front of a text in one way only. -/
theorem numeral_append_cancel {d d' t t' : Text} (hd : IsNumeral d) (hd' : IsNumeral d')
    (ht : ValueEnd t) (ht' : ValueEnd t') (h : d ++ t = d' ++ t') : d = d' ∧ t = t' := by
  have hdd : d = d' := by rw [← takeWhile_numeral hd ht, h, takeWhile_numeral hd' ht']
  subst hdd
  exact ⟨rfl, List.append_cancel_left h⟩

theorem numberChar_of_isDigit {c : CodePoint} (h : isDigit c = true) : numberChar c = true := by
  rw [numberChar, CharClass.or, h, Bool.true_or]

theorem isNumeral_decimal (n : ℕ) : IsNumeral (decimal n) :=
  ⟨decimal_ne_nil n, fun c hc ↦
    numberChar_of_isDigit (List.all_eq_true.mp (decimal_all_digit n) c hc)⟩

theorem isNumeral_intRepr {n : ℤ} {d : Text} (hd : intRepr n = some d) : IsNumeral d := by
  rw [intRepr] at hd
  split at hd
  · obtain rfl := Option.some.inj hd
    split
    · refine ⟨List.cons_ne_nil _ _, fun c hc ↦ ?_⟩
      rcases List.mem_cons.mp hc with rfl | hc
      · decide
      · exact (isNumeral_decimal _).2 c hc
    · exact isNumeral_decimal _
  · exact absurd hd (by simp)

/-- **A printed integer determines the integer.** -/
theorem intRepr_injective {n m : ℤ} {d : Text} (hn : intRepr n = some d) (hm : intRepr m = some d) :
    n = m := by
  have hminus : ∀ k l : ℕ, CodePoint.scalar '-' :: decimal k ≠ decimal l := by
    intro k l h
    have hmem : CodePoint.scalar '-' ∈ decimal l := h ▸ List.mem_cons_self ..
    exact absurd (List.all_eq_true.mp (decimal_all_digit l) _ hmem) (by decide)
  have hdec : ∀ {k l : ℕ}, decimal k = decimal l → k = l := fun {k l} h ↦ by
    rw [← ofDecimal_decimal k, h, ofDecimal_decimal]
  rw [intRepr] at hn hm
  split at hn <;> split at hm
  · rw [Option.some_inj] at hn hm
    rw [← hm] at hn
    split at hn <;> split at hn
    · have := hdec (List.cons.inj hn).2
      omega
    · exact absurd hn (hminus _ _)
    · exact absurd hn.symm (hminus _ _)
    · have := hdec hn
      omega
  all_goals simp at hn hm

/-! ## Strings -/

/-- A string is cut off the front of a text in one way only. -/
theorem quote_append_cancel {s s' t t' : Text} (h : quote s ++ t = quote s' ++ t') :
    s = s' ∧ t = t' := by
  rw [quote_append, quote_append, List.cons.injEq] at h
  have hscan := congrArg scanString h.2
  rw [scanString_flatMap_escape, scanString_flatMap_escape, Option.some_inj, Prod.mk.injEq] at hscan
  exact hscan

theorem quote_injective : Function.Injective quote := fun s s' h ↦
  (quote_append_cancel (show quote s ++ [] = quote s' ++ [] by rw [h])).1

theorem member_append_cancel {p p' : Text × Text} {t t' : Text}
    (h : member p ++ t = member p' ++ t') : p.1 = p'.1 ∧ p.2 ++ t = p'.2 ++ t' := by
  rw [member, member, List.append_assoc, List.append_assoc] at h
  obtain ⟨hkey, hrest⟩ := quote_append_cancel h
  exact ⟨hkey, (List.cons.inj hrest).2⟩

theorem member_injective : Function.Injective member := fun p p' h ↦ by
  obtain ⟨hkey, hval⟩ := member_append_cancel
    (show member p ++ [] = member p' ++ [] by rw [h])
  rw [List.append_nil, List.append_nil] at hval
  exact Prod.ext hkey hval

/-! ## Containers -/

/-- What stands behind the first part of a container. -/
def behind (close : CodePoint) (parts : List Text) (t : Text) : Text :=
  if parts = [] then close :: t else .scalar ',' :: ((text ",").intercalate parts ++ close :: t)

theorem intercalate_cons_append (close : CodePoint) (p : Text) (parts : List Text) (t : Text) :
    (text ",").intercalate (p :: parts) ++ close :: t = p ++ behind close parts t := by
  cases parts with
  | nil => rw [List.intercalate_singleton, behind, if_pos rfl]
  | cons q parts =>
    rw [List.intercalate_cons_of_ne_nil (List.cons_ne_nil q parts), behind,
      if_neg (List.cons_ne_nil q parts), List.append_assoc, List.append_assoc, comma_append]

/-- **The parts of a container can be told from each other and from what follows them**, if each of
them can be told from what follows it and none starts like the end of the container. -/
theorem intercalate_append_cancel {close : CodePoint} (hclose : numberChar close = false)
    (hcomma : close ≠ .scalar ',') {parts parts' : List Text}
    (hcancel : ∀ p ∈ parts, ∀ p' ∈ parts', ∀ t t', ValueEnd t → ValueEnd t' →
      p ++ t = p' ++ t' → p = p' ∧ t = t')
    (hopen : ∀ p ∈ parts, ∃ c u, p = c :: u ∧ c ≠ close)
    (hopen' : ∀ p ∈ parts', ∃ c u, p = c :: u ∧ c ≠ close) {t t' : Text}
    (h : (text ",").intercalate parts ++ close :: t =
      (text ",").intercalate parts' ++ close :: t') : parts = parts' ∧ t = t' := by
  have hend : ∀ parts u, ValueEnd (behind close parts u) := by
    intro parts u
    rw [behind]
    split
    · exact valueEnd_cons hclose u
    · exact valueEnd_cons (by decide) _
  induction parts generalizing parts' with
  | nil =>
    cases parts' with
    | nil => exact ⟨rfl, (List.cons.inj h).2⟩
    | cons p' parts' =>
      obtain ⟨c, u, rfl, hc⟩ := hopen' p' (List.mem_cons_self ..)
      rw [intercalate_cons_append] at h
      exact absurd (List.cons.inj h).1.symm hc
  | cons p parts ih =>
    cases parts' with
    | nil =>
      obtain ⟨c, u, rfl, hc⟩ := hopen p (List.mem_cons_self ..)
      rw [intercalate_cons_append] at h
      exact absurd (List.cons.inj h).1 hc
    | cons p' parts' =>
      rw [intercalate_cons_append, intercalate_cons_append] at h
      obtain ⟨rfl, hrest⟩ := hcancel p (List.mem_cons_self ..) p' (List.mem_cons_self ..) _ _
        (hend _ _) (hend _ _) h
      have ih' := @ih parts'
        (fun q hq q' hq' ↦ hcancel q (List.mem_cons_of_mem _ hq) q' (List.mem_cons_of_mem _ hq'))
        (fun q hq ↦ hopen q (List.mem_cons_of_mem _ hq))
        (fun q hq ↦ hopen' q (List.mem_cons_of_mem _ hq))
      rw [behind, behind] at hrest
      split at hrest <;> split at hrest
      · rename_i hnil hnil'
        rw [hnil, hnil']
        exact ⟨rfl, (List.cons.inj hrest).2⟩
      · exact absurd (List.cons.inj hrest).1 hcomma
      · exact absurd (List.cons.inj hrest).1.symm hcomma
      · obtain ⟨rfl, ht⟩ := ih' (List.cons.inj hrest).2
        exact ⟨rfl, ht⟩

theorem member_head (parts : List (Text × Text)) : ∀ p ∈ parts.map member,
    ∃ c u, p = c :: u ∧ c ≠ .scalar '}' := by
  intro p hp
  obtain ⟨q, -, rfl⟩ := List.mem_map.mp hp
  exact ⟨_, _, rfl, by decide⟩

/-- **The members of a printed object can be told apart**, if their values can be told from what
follows them. -/
theorem braces_append_cancel {parts parts' : List (Text × Text)}
    (hcancel : ∀ p ∈ parts, ∀ p' ∈ parts', ∀ t t', ValueEnd t → ValueEnd t' →
      p.2 ++ t = p'.2 ++ t' → p.2 = p'.2 ∧ t = t') {t t' : Text}
    (h : braces parts ++ t = braces parts' ++ t') : parts = parts' ∧ t = t' := by
  rw [braces, braces, List.cons_append, List.cons_append, List.cons.injEq, List.append_assoc,
    List.append_assoc] at h
  have hmember : ∀ p ∈ parts.map member, ∀ p' ∈ parts'.map member, ∀ t t', ValueEnd t →
      ValueEnd t' → p ++ t = p' ++ t' → p = p' ∧ t = t' := by
    intro p hp p' hp' t t' ht ht' heq
    obtain ⟨q, hq, rfl⟩ := List.mem_map.mp hp
    obtain ⟨q', hq', rfl⟩ := List.mem_map.mp hp'
    obtain ⟨hkey, hval⟩ := member_append_cancel heq
    obtain ⟨hval, ht⟩ := hcancel q hq q' hq' t t' ht ht' hval
    exact ⟨congrArg member (Prod.ext hkey hval), ht⟩
  obtain ⟨heq, ht⟩ := intercalate_append_cancel (by decide) (by decide) hmember
    (member_head parts) (member_head parts') h.2
  exact ⟨List.map_injective_iff.mpr member_injective heq, ht⟩

/-! ## Shapes -/

/-- The shapes of a printed value. -/
inductive Printed : Text → Prop
  | literal {s : String} (hs : s ∈ ["null", "true", "false"]) : Printed (text s)
  | number {d : Text} (hd : IsNumeral d) : Printed d
  | str (s : Text) : Printed (quote s)
  | arr {parts : List Text} (hparts : ∀ p ∈ parts, Printed p) :
    Printed (.scalar '[' :: ((text ",").intercalate parts ++ [.scalar ']']))
  | obj {parts : List (Text × Text)} (hparts : ∀ p ∈ parts, Printed p.2) : Printed (braces parts)

/-- The characters of `null`, `true` and `false` in front. -/
theorem literal_head {s : String} (hs : s ∈ ["null", "true", "false"]) :
    ∃ c u, text s = c :: u ∧ oneOf "ntf" c = true := by
  simp only [List.mem_cons, List.not_mem_nil, or_false] at hs
  rcases hs with rfl | rfl | rfl <;> exact ⟨_, _, rfl, by decide⟩

theorem literal_append_cancel {s s' : String} (hs : s ∈ ["null", "true", "false"])
    (hs' : s' ∈ ["null", "true", "false"]) {t t' : Text} (h : text s ++ t = text s' ++ t') :
    text s = text s' ∧ t = t' := by
  simp only [List.mem_cons, List.not_mem_nil, or_false] at hs hs'
  rcases hs with rfl | rfl | rfl <;> rcases hs' with rfl | rfl | rfl
  all_goals first
    | exact absurd (List.cons.inj h).1 (by decide)
    | exact ⟨rfl, List.append_cancel_left h⟩

theorem numeral_head {d : Text} (hd : IsNumeral d) {c : CodePoint} {t u : Text}
    (h : c :: u = d ++ t) : numberChar c = true := by
  obtain ⟨c', d', hcd⟩ := List.exists_cons_of_ne_nil hd.1
  rw [hcd, List.cons_append, List.cons.injEq] at h
  exact hd.2 c (by rw [hcd, h.1]; exact List.mem_cons_self ..)

/-- The characters a printed value can start with. -/
theorem Printed.head {d : Text} (hd : Printed d) :
    ∃ c u, d = c :: u ∧ (numberChar.or (oneOf "ntf\x22[\x7b")) c = true := by
  cases hd with
  | literal hs =>
    obtain ⟨c, u, hcu, hc⟩ := literal_head hs
    refine ⟨c, u, hcu, ?_⟩
    have hall : ∀ c ∈ text "ntf", (numberChar.or (oneOf "ntf\x22[\x7b")) c = true := by decide
    exact hall c (List.contains_iff_mem.mp hc)
  | number hd =>
    obtain ⟨c, u, rfl⟩ := List.exists_cons_of_ne_nil hd.1
    exact ⟨c, u, rfl, by rw [CharClass.or, hd.2 c (List.mem_cons_self ..), Bool.true_or]⟩
  | str s => exact ⟨_, _, rfl, by decide⟩
  | arr _ => exact ⟨_, _, rfl, by decide⟩
  | obj _ => exact ⟨_, _, rfl, by decide⟩

theorem Printed.head_ne {d : Text} (hd : Printed d) {close : CodePoint}
    (hclose : (numberChar.or (oneOf "ntf\x22[\x7b")) close = false) :
    ∃ c u, d = c :: u ∧ c ≠ close := by
  obtain ⟨c, u, hcu, hc⟩ := hd.head
  refine ⟨c, u, hcu, ?_⟩
  rintro rfl
  rw [hclose] at hc
  exact absurd hc (by decide)

theorem literal_ne {s : String} (hs : s ∈ ["null", "true", "false"]) {c : CodePoint} {t u : Text}
    (hc : oneOf "ntf" c = false) : text s ++ t ≠ c :: u := by
  obtain ⟨c', v, hcv, hc'⟩ := literal_head hs
  rw [hcv, List.cons_append]
  intro h
  rw [(List.cons.inj h).1, hc] at hc'
  exact absurd hc' (by decide)

theorem literal_ne_numeral {s : String} (hs : s ∈ ["null", "true", "false"]) {d t u : Text}
    (hd : IsNumeral d) : text s ++ t ≠ d ++ u := by
  obtain ⟨c, v, hcv, hc⟩ := literal_head hs
  rw [hcv, List.cons_append]
  intro h
  have hall : ∀ c ∈ text "ntf", numberChar c = false := by decide
  have hnumber := hall c (List.contains_iff_mem.mp hc)
  rw [numeral_head hd h] at hnumber
  exact absurd hnumber (by decide)

/-- **A printed value is cut off the front of a text in one way only.** -/
theorem Printed.append_cancel {d : Text} (hd : Printed d) : ∀ {d' t t' : Text}, Printed d' →
    ValueEnd t → ValueEnd t' → d ++ t = d' ++ t' → d = d' ∧ t = t' := by
  induction hd with
  | literal hs =>
    intro d' t t' hd' _ _ h
    cases hd' with
    | literal hs' => exact literal_append_cancel hs hs' h
    | number hd' => exact absurd h (literal_ne_numeral hs hd')
    | str _ | arr _ | obj _ => exact absurd h (literal_ne hs (by decide))
  | number hd =>
    intro d' t t' hd' ht ht' h
    cases hd' with
    | literal hs' => exact absurd h.symm (literal_ne_numeral hs' hd)
    | number hd' => exact numeral_append_cancel hd hd' ht ht' h
    | str _ | arr _ | obj _ => exact absurd (numeral_head hd h.symm) (by decide)
  | str s =>
    intro d' t t' hd' _ _ h
    cases hd' with
    | literal hs' => exact absurd h.symm (literal_ne hs' (by decide))
    | number hd' => exact absurd (numeral_head hd' h) (by decide)
    | str s' =>
      obtain ⟨rfl, ht⟩ := quote_append_cancel h
      exact ⟨rfl, ht⟩
    | arr _ | obj _ => exact absurd (List.cons.inj h).1 (by decide)
  | arr hparts ih =>
    intro d' t t' hd' _ _ h
    cases hd' with
    | literal hs' => exact absurd h.symm (literal_ne hs' (by decide))
    | number hd' => exact absurd (numeral_head hd' h) (by decide)
    | arr hparts' =>
      rw [List.cons_append, List.cons_append, List.cons.injEq, List.append_assoc,
        List.append_assoc] at h
      obtain ⟨rfl, ht⟩ := intercalate_append_cancel (by decide) (by decide)
        (fun p hp p' hp' t t' ht ht' heq ↦ ih p hp (hparts' p' hp') ht ht' heq)
        (fun p hp ↦ (hparts p hp).head_ne (by decide))
        (fun p hp ↦ (hparts' p hp).head_ne (by decide)) h.2
      exact ⟨rfl, ht⟩
    | str _ | obj _ => exact absurd (List.cons.inj h).1 (by decide)
  | obj hparts ih =>
    intro d' t t' hd' _ _ h
    cases hd' with
    | literal hs' => exact absurd h.symm (literal_ne hs' (by decide))
    | number hd' => exact absurd (numeral_head hd' h) (by decide)
    | obj hparts' =>
      obtain ⟨rfl, ht⟩ := braces_append_cancel
        (fun p hp p' hp' t t' ht ht' heq ↦ ih p hp (hparts' p' hp') ht ht' heq) h
      exact ⟨rfl, ht⟩
    | str _ | arr _ => exact absurd (List.cons.inj h).1 (by decide)

/-- Two lists of pairs with the same first components, none repeated, are permutations of each
other only when they are equal. -/
theorem eq_of_perm_of_keys {α β : Type} {l l' : List (α × β)} (hp : l.Perm l')
    (hkeys : l.map Prod.fst = l'.map Prod.fst) (hnd : (l.map Prod.fst).Nodup) : l = l' := by
  induction l generalizing l' with
  | nil => exact (List.nil_perm.mp hp).symm
  | cons p l ih =>
    cases l' with
    | nil => exact absurd hkeys (by simp)
    | cons p' l' =>
      rw [List.map_cons, List.map_cons, List.cons.injEq] at hkeys
      have hmem : p ∈ p' :: l' := hp.subset (List.mem_cons_self ..)
      have heq : p = p' := by
        refine (List.mem_cons.mp hmem).resolve_right fun hin ↦ ?_
        rw [List.map_cons, List.nodup_cons, hkeys.2] at hnd
        exact hnd.1 (List.mem_map_of_mem hin)
      subst heq
      rw [ih (List.Perm.cons_inv hp) hkeys.2 (List.nodup_cons.mp hnd).2]

/-! ## Values -/

variable [Interpreter]

/-- A printed float is a number. -/
def FloatsPrintNumerals : Prop :=
  ∀ (x : Interpreter.Float) (d : Text), Interpreter.floatRepr x = some d → IsNumeral d

mutual

theorem printed_dumps (hf : FloatsPrintNumerals) : ∀ (v : Json) {d : Text}, dumps v = some d →
    Printed d
  | .null, d, hd => by
    rw [dumps, Option.some_inj] at hd
    exact hd ▸ .literal (by decide)
  | .bool true, d, hd => by
    rw [dumps, Option.some_inj] at hd
    exact hd ▸ .literal (by decide)
  | .bool false, d, hd => by
    rw [dumps, Option.some_inj] at hd
    exact hd ▸ .literal (by decide)
  | .int n, d, hd => by
    rw [dumps] at hd
    exact .number (isNumeral_intRepr hd)
  | .float x, d, hd => by
    rw [dumps] at hd
    exact .number (hf x d hd)
  | .str s, d, hd => by
    rw [dumps, Option.some_inj] at hd
    exact hd ▸ .str s
  | .arr items, d, hd => by
    rw [dumps, Option.map_eq_some_iff] at hd
    obtain ⟨parts, hparts, rfl⟩ := hd
    exact .arr (printed_dumpsItems hf items hparts)
  | .obj members, d, hd => by
    rw [dumps, Option.map_eq_some_iff] at hd
    obtain ⟨parts, hparts, rfl⟩ := hd
    exact .obj fun p hp ↦
      printed_dumpsMembers hf members hparts p (List.mem_mergeSort.mp hp)

theorem printed_dumpsItems (hf : FloatsPrintNumerals) : ∀ (items : List Json) {parts : List Text},
    dumpsItems items = some parts → ∀ p ∈ parts, Printed p
  | [], parts, hparts => by
    rw [dumpsItems, Option.some_inj] at hparts
    simp [← hparts]
  | v :: items, parts, hparts => by
    rw [dumpsItems, Option.bind_eq_some_iff] at hparts
    obtain ⟨part, hpart, hparts⟩ := hparts
    rw [Option.map_eq_some_iff] at hparts
    obtain ⟨rest, hrest, rfl⟩ := hparts
    exact List.forall_mem_cons.mpr ⟨printed_dumps hf v hpart, printed_dumpsItems hf items hrest⟩

theorem printed_dumpsMembers (hf : FloatsPrintNumerals) : ∀ (members : List (Text × Json))
    {parts : List (Text × Text)}, dumpsMembers members = some parts → ∀ p ∈ parts, Printed p.2
  | [], parts, hparts => by
    rw [dumpsMembers, Option.some_inj] at hparts
    simp [← hparts]
  | (k, v) :: members, parts, hparts => by
    rw [dumpsMembers, Option.bind_eq_some_iff] at hparts
    obtain ⟨part, hpart, hparts⟩ := hparts
    rw [Option.map_eq_some_iff] at hparts
    obtain ⟨rest, hrest, rfl⟩ := hparts
    exact List.forall_mem_cons.mpr
      ⟨printed_dumps hf v hpart, printed_dumpsMembers hf members hrest⟩

end

/-- Two values with one text. -/
def SameText (v v' : Json) : Prop := ∃ d, dumps v = some d ∧ dumps v' = some d

theorem SameText.symm {v v' : Json} (h : SameText v v') : SameText v' v :=
  h.imp fun _ hd ↦ ⟨hd.2, hd.1⟩

theorem SameText.str {s s' : Text} (h : SameText (.str s) (.str s')) : s = s' := by
  obtain ⟨d, hd, hd'⟩ := h
  rw [dumps, Option.some_inj] at hd hd'
  exact quote_injective (hd.trans hd'.symm)

theorem SameText.int {n n' : ℤ} (h : SameText (.int n) (.int n')) : n = n' := by
  obtain ⟨d, hd, hd'⟩ := h
  rw [dumps] at hd hd'
  exact intRepr_injective hd hd'

theorem SameText.not_null_int {n : ℤ} : ¬SameText .null (.int n) := by
  rintro ⟨d, hd, hd'⟩
  rw [dumps, Option.some_inj] at hd
  rw [dumps] at hd'
  have hne := literal_ne_numeral (s := "null") (by decide) (isNumeral_intRepr hd') (t := [])
    (u := [])
  exact hne (by rw [List.append_nil, List.append_nil]; exact hd)

theorem forall₂_of_dumpsItems : ∀ {items items' : List Json} {parts : List Text},
    dumpsItems items = some parts → dumpsItems items' = some parts →
      List.Forall₂ SameText items items'
  | [], items', parts, h, h' => by
    rw [dumpsItems, Option.some_inj] at h
    subst h
    cases items' with
    | nil => exact .nil
    | cons v items' => simp [dumpsItems, Option.bind_eq_some_iff] at h'
  | v :: items, items', parts, h, h' => by
    simp only [dumpsItems, Option.bind_eq_some_iff, Option.map_eq_some_iff] at h
    obtain ⟨part, hpart, rest, hrest, rfl⟩ := h
    cases items' with
    | nil => simp [dumpsItems] at h'
    | cons v' items' =>
      simp only [dumpsItems, Option.bind_eq_some_iff, Option.map_eq_some_iff, List.cons.injEq] at h'
      obtain ⟨part', hpart', rest', hrest', rfl, rfl⟩ := h'
      exact .cons ⟨part', hpart, hpart'⟩ (forall₂_of_dumpsItems hrest hrest')

/-- **Arrays with one text agree item by item.** -/
theorem SameText.arr (hf : FloatsPrintNumerals) {items items' : List Json}
    (h : SameText (.arr items) (.arr items')) : List.Forall₂ SameText items items' := by
  obtain ⟨d, hd, hd'⟩ := h
  rw [dumps, Option.map_eq_some_iff] at hd hd'
  obtain ⟨parts, hparts, rfl⟩ := hd
  obtain ⟨parts', hparts', heq⟩ := hd'
  have hp := printed_dumpsItems hf items hparts
  have hp' := printed_dumpsItems hf items' hparts'
  have hsame : parts' = parts := (intercalate_append_cancel (by decide) (by decide)
    (fun p hp₁ p' hp₂ _ _ ht ht' ↦ (hp' p hp₁).append_cancel (hp p' hp₂) ht ht')
    (fun p hp₁ ↦ (hp' p hp₁).head_ne (by decide)) (fun p hp₁ ↦ (hp p hp₁).head_ne (by decide))
    (List.cons.inj heq).2).1
  exact forall₂_of_dumpsItems hparts (hsame ▸ hparts')

/-- **Objects with one text have the same printed members**, in whatever order. -/
theorem SameText.obj_perm (hf : FloatsPrintNumerals) {members members' : List (Text × Json)}
    (h : SameText (.obj members) (.obj members')) : ∃ parts parts',
      dumpsMembers members = some parts ∧ dumpsMembers members' = some parts' ∧
        parts.Perm parts' := by
  obtain ⟨d, hd, hd'⟩ := h
  rw [dumps, Option.map_eq_some_iff] at hd hd'
  obtain ⟨parts, hparts, rfl⟩ := hd
  obtain ⟨parts', hparts', heq⟩ := hd'
  have hp := printed_dumpsMembers hf members hparts
  have hp' := printed_dumpsMembers hf members' hparts'
  have hsort : parts'.mergeSort keyLe = parts.mergeSort keyLe := (braces_append_cancel
    (fun p hp₁ p' hp₂ _ _ ht ht' ↦ (hp' p (List.mem_mergeSort.mp hp₁)).append_cancel
      (hp p' (List.mem_mergeSort.mp hp₂)) ht ht')
    (show braces (parts'.mergeSort keyLe) ++ [] = braces (parts.mergeSort keyLe) ++ [] by
      rw [heq])).1
  refine ⟨parts, parts', hparts, hparts', ?_⟩
  exact (List.mergeSort_perm parts keyLe).symm.trans
    (hsort ▸ List.mergeSort_perm parts' keyLe)

theorem forall₂_of_dumpsMembers : ∀ {members members' : List (Text × Json)}
    {parts : List (Text × Text)}, dumpsMembers members = some parts →
      dumpsMembers members' = some parts →
        List.Forall₂ (fun m m' ↦ m.1 = m'.1 ∧ SameText m.2 m'.2) members members'
  | [], members', parts, h, h' => by
    rw [dumpsMembers, Option.some_inj] at h
    subst h
    cases members' with
    | nil => exact .nil
    | cons m members' => simp [dumpsMembers, Option.bind_eq_some_iff] at h'
  | (k, v) :: members, members', parts, h, h' => by
    simp only [dumpsMembers, Option.bind_eq_some_iff, Option.map_eq_some_iff] at h
    obtain ⟨part, hpart, rest, hrest, rfl⟩ := h
    cases members' with
    | nil => simp [dumpsMembers] at h'
    | cons m' members' =>
      simp only [dumpsMembers, Option.bind_eq_some_iff, Option.map_eq_some_iff, List.cons.injEq,
        Prod.mk.injEq] at h'
      obtain ⟨part', hpart', rest', hrest', ⟨hkey, rfl⟩, rfl⟩ := h'
      exact .cons ⟨hkey.symm, part', hpart, hpart'⟩ (forall₂_of_dumpsMembers hrest hrest')

/-- **Objects with one text that list the same keys agree member by member.** -/
theorem SameText.obj (hf : FloatsPrintNumerals) {members members' : List (Text × Json)}
    (h : SameText (.obj members) (.obj members'))
    (hkeys : members.map Prod.fst = members'.map Prod.fst) (hnd : (members.map Prod.fst).Nodup) :
    List.Forall₂ (fun m m' ↦ m.1 = m'.1 ∧ SameText m.2 m'.2) members members' := by
  obtain ⟨parts, parts', hparts, hparts', hperm⟩ := h.obj_perm hf
  have heq : parts = parts' := eq_of_perm_of_keys hperm
    (by rw [dumpsMembers_keys hparts, dumpsMembers_keys hparts', hkeys])
    (by rwa [dumpsMembers_keys hparts])
  exact forall₂_of_dumpsMembers hparts (heq ▸ hparts')

end Py
