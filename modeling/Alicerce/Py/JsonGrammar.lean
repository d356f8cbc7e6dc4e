import Alicerce.Py.Json

/-!
# What the scanner has read

The scanner of `Py.loads` is three functions on a fuel, full of branches that raise.  When it
returns, none of that matters any more.

* `Scanned` says what the scanner has read, one rule for each way there is to read a value, the
  members of an object or the items of an array; which of these it is, is a `Form`.
* `loads_scanned`: what `json.loads` returns is what the text spells.  This is the only place that
  looks into the three functions for it; what is to be shown of everything `json.loads` returns is
  shown by induction on `Scanned`.
* `loads_mono`: the hooks only see what the scanner has cut out, so hooks that return the same where
  the others do (`Hooks.Refines`) make no difference to a text that was read.
-/

set_option autoImplicit false

namespace Py

variable [Interpreter] {ε ε' : Type}

/-- What a stretch of text stands for: a value, the members of an object, or the items of an
array. -/
inductive Form [Interpreter]
  | value (v : Json)
  | members (pairs : List (Text × Json))
  | items (vs : List Json)

/-- `Scanned h form t rest`: the text `t` starts with a spelling of the form, and `rest` is what
follows it. -/
inductive Scanned (h : Hooks ε) : Form → Text → Text → Prop
  | str {s t rest : Text} (hs : scanString t = some (s, rest)) :
    Scanned h (.value (.str s)) (.scalar '"' :: t) rest
  | objNil {t : Text} {v : Json} (ht : (skipWs t).head? = some (.scalar '}'))
    (hv : h.objectPairs [] = .ok v) : Scanned h (.value v) (.scalar '{' :: t) (skipWs t).tail
  | obj {t rest : Text} {v : Json} {pairs : List (Text × Json)}
    (hm : Scanned h (.members pairs) (skipWs t) rest) (hv : h.objectPairs pairs = .ok v) :
    Scanned h (.value v) (.scalar '{' :: t) rest
  | arrNil {t : Text} (ht : (skipWs t).head? = some (.scalar ']')) :
    Scanned h (.value (.arr [])) (.scalar '[' :: t) (skipWs t).tail
  | arr {t rest : Text} {vs : List Json} (hi : Scanned h (.items vs) (skipWs t) rest) :
    Scanned h (.value (.arr vs)) (.scalar '[' :: t) rest
  | other {c : CodePoint} {t rest : Text} {v : Json}
    (hc : c ≠ .scalar '"' ∧ c ≠ .scalar '{' ∧ c ≠ .scalar '[')
    (hv : (scanConstant h (c :: t)).getD (scanNumeral (c :: t)) = .ok (v, rest)) :
    Scanned h (.value v) (c :: t) rest
  | lastMember {k t u u' w rest : Text} {v : Json} (hk : scanString t = some (k, u))
    (hu : skipWs u = .scalar ':' :: u') (hv : Scanned h (.value v) (skipWs u') w)
    (hw : skipWs w = .scalar '}' :: rest) : Scanned h (.members [(k, v)]) (.scalar '"' :: t) rest
  | member {k t u u' w w' rest : Text} {v : Json} {pairs : List (Text × Json)}
    (hk : scanString t = some (k, u)) (hu : skipWs u = .scalar ':' :: u')
    (hv : Scanned h (.value v) (skipWs u') w) (hw : skipWs w = .scalar ',' :: w')
    (hm : Scanned h (.members pairs) (skipWs w') rest) :
    Scanned h (.members ((k, v) :: pairs)) (.scalar '"' :: t) rest
  | lastItem {t w rest : Text} {v : Json} (hv : Scanned h (.value v) t w)
    (hw : skipWs w = .scalar ']' :: rest) : Scanned h (.items [v]) t rest
  | item {t w w' rest : Text} {v : Json} {vs : List Json} (hv : Scanned h (.value v) t w)
    (hw : skipWs w = .scalar ',' :: w') (hi : Scanned h (.items vs) (skipWs w') rest) :
    Scanned h (.items (v :: vs)) t rest

variable {h : Hooks ε}

theorem callHook_eq_ok_iff {r : Except ε Json} {t rest : Text} {v : Json} :
    callHook r t = .ok (v, rest) ↔ r = .ok v ∧ t = rest := by
  cases r <;> simp [callHook]

/-! ## From the functions to the rules -/

theorem scanned_of_scanValue {fuel : ℕ}
    (ihm : ∀ {depth : ℕ} {t rest : Text} {pairs : List (Text × Json)},
      scanMembers h fuel depth t = .ok (pairs, rest) → Scanned h (.members pairs) t rest)
    (ihi : ∀ {depth : ℕ} {t rest : Text} {vs : List Json},
      scanItems h fuel depth t = .ok (vs, rest) → Scanned h (.items vs) t rest)
    {depth : ℕ} {t rest : Text} {v : Json}
    (hv : scanValue h (fuel + 1) depth t = .ok (v, rest)) : Scanned h (.value v) t rest := by
  cases t with
  | nil => rw [scanValue.eq_def] at hv; exact absurd hv (by simp)
  | cons c t =>
    rw [scanValue.eq_def] at hv
    simp only at hv
    by_cases hquote : c = .scalar '"'
    · rw [if_pos hquote] at hv
      split at hv
      · rename_i hs
        rw [Except.ok.injEq, Prod.mk.injEq] at hv
        obtain ⟨rfl, rfl⟩ := hv
        exact hquote ▸ .str hs
      · exact absurd hv (by simp)
    rw [if_neg hquote] at hv
    by_cases hbrace : c = .scalar '{'
    · rw [if_pos hbrace] at hv
      split at hv
      · exact absurd hv (by simp)
      split at hv
      · rename_i hhead
        rw [ok_bind, callHook_eq_ok_iff] at hv
        obtain ⟨hobject, rfl⟩ := hv
        exact hbrace ▸ .objNil hhead hobject
      · obtain ⟨⟨pairs, u⟩, hpairs, hv⟩ := bind_eq_ok_iff.mp hv
        obtain ⟨hobject, rfl⟩ := callHook_eq_ok_iff.mp hv
        exact hbrace ▸ .obj (ihm hpairs) hobject
    rw [if_neg hbrace] at hv
    by_cases hbracket : c = .scalar '['
    · rw [if_pos hbracket] at hv
      split at hv
      · exact absurd hv (by simp)
      split at hv
      · rename_i hhead
        rw [ok_bind, Except.ok.injEq, Prod.mk.injEq] at hv
        obtain ⟨rfl, rfl⟩ := hv
        exact hbracket ▸ .arrNil hhead
      · obtain ⟨⟨vs, u⟩, hvs, hv⟩ := bind_eq_ok_iff.mp hv
        rw [Except.ok.injEq, Prod.mk.injEq] at hv
        obtain ⟨rfl, rfl⟩ := hv
        exact hbracket ▸ .arr (ihi hvs)
    rw [if_neg hbracket] at hv
    exact .other ⟨hquote, hbrace, hbracket⟩ hv

theorem scanned_of_scanMembers {fuel : ℕ}
    (ihv : ∀ {depth : ℕ} {t rest : Text} {v : Json},
      scanValue h fuel depth t = .ok (v, rest) → Scanned h (.value v) t rest)
    (ihm : ∀ {depth : ℕ} {t rest : Text} {pairs : List (Text × Json)},
      scanMembers h fuel depth t = .ok (pairs, rest) → Scanned h (.members pairs) t rest)
    {depth : ℕ} {t rest : Text} {pairs : List (Text × Json)}
    (hm : scanMembers h (fuel + 1) depth t = .ok (pairs, rest)) :
    Scanned h (.members pairs) t rest := by
  cases t with
  | nil => rw [scanMembers.eq_def] at hm; exact absurd hm (by simp)
  | cons c t =>
    rw [scanMembers.eq_def] at hm
    simp only at hm
    split at hm
    · rename_i hquote
      subst hquote
      split at hm
      · exact absurd hm (by simp)
      · rename_i hk
        split at hm
        · exact absurd hm (by simp)
        · rename_i hu
          split at hm
          · rename_i hcolon
            subst hcolon
            obtain ⟨⟨v, w⟩, hv, hm⟩ := bind_eq_ok_iff.mp hm
            simp only at hm
            split at hm
            · exact absurd hm (by simp)
            · rename_i hw
              split at hm
              · rename_i hclose
                subst hclose
                rw [Except.ok.injEq, Prod.mk.injEq] at hm
                obtain ⟨rfl, rfl⟩ := hm
                exact .lastMember hk hu (ihv hv) hw
              · split at hm
                · rename_i hcomma
                  subst hcomma
                  obtain ⟨⟨more, w'⟩, hmore, hm⟩ := bind_eq_ok_iff.mp hm
                  rw [Except.ok.injEq, Prod.mk.injEq] at hm
                  obtain ⟨rfl, rfl⟩ := hm
                  exact .member hk hu (ihv hv) hw (ihm hmore)
                · exact absurd hm (by simp)
          · exact absurd hm (by simp)
    · exact absurd hm (by simp)

theorem scanned_of_scanItems {fuel : ℕ}
    (ihv : ∀ {depth : ℕ} {t rest : Text} {v : Json},
      scanValue h fuel depth t = .ok (v, rest) → Scanned h (.value v) t rest)
    (ihi : ∀ {depth : ℕ} {t rest : Text} {vs : List Json},
      scanItems h fuel depth t = .ok (vs, rest) → Scanned h (.items vs) t rest)
    {depth : ℕ} {t rest : Text} {vs : List Json}
    (hi : scanItems h (fuel + 1) depth t = .ok (vs, rest)) : Scanned h (.items vs) t rest := by
  rw [scanItems] at hi
  obtain ⟨⟨v, w⟩, hv, hi⟩ := bind_eq_ok_iff.mp hi
  simp only at hi
  split at hi
  · exact absurd hi (by simp)
  · rename_i hw
    split at hi
    · rename_i hclose
      subst hclose
      rw [Except.ok.injEq, Prod.mk.injEq] at hi
      obtain ⟨rfl, rfl⟩ := hi
      exact .lastItem (ihv hv) hw
    · split at hi
      · rename_i hcomma
        subst hcomma
        obtain ⟨⟨more, w'⟩, hmore, hi⟩ := bind_eq_ok_iff.mp hi
        rw [Except.ok.injEq, Prod.mk.injEq] at hi
        obtain ⟨rfl, rfl⟩ := hi
        exact .item (ihv hv) hw (ihi hmore)
      · exact absurd hi (by simp)

/-- What the scanner returns it has read.  The induction is on the fuel: each of the three scanners
calls the others with one less. -/
theorem scan_scanned : ∀ fuel : ℕ,
    (∀ {depth : ℕ} {t rest : Text} {v : Json},
      scanValue h fuel depth t = .ok (v, rest) → Scanned h (.value v) t rest) ∧
    (∀ {depth : ℕ} {t rest : Text} {pairs : List (Text × Json)},
      scanMembers h fuel depth t = .ok (pairs, rest) → Scanned h (.members pairs) t rest) ∧
    (∀ {depth : ℕ} {t rest : Text} {vs : List Json},
      scanItems h fuel depth t = .ok (vs, rest) → Scanned h (.items vs) t rest) := by
  intro fuel
  induction fuel with
  | zero =>
    refine ⟨fun hv ↦ ?_, fun hm ↦ ?_, fun hi ↦ ?_⟩
    · rw [scanValue.eq_def] at hv; exact absurd hv (by simp)
    · rw [scanMembers.eq_def] at hm; exact absurd hm (by simp)
    · rw [scanItems] at hi; exact absurd hi (by simp)
  | succ fuel ih =>
    obtain ⟨ihv, ihm, ihi⟩ := ih
    exact ⟨scanned_of_scanValue ihm ihi, scanned_of_scanMembers ihv ihm,
      scanned_of_scanItems ihv ihi⟩

/-- **What `json.loads` returns is what the text spells**, with nothing but whitespace around it. -/
theorem loads_scanned {t : Text} {v : Json} (hv : loads h t = .ok v) :
    ∃ rest, Scanned h (.value v) (skipWs t) rest ∧ skipWs rest = [] := by
  rw [loads] at hv
  split at hv
  · exact absurd hv (by simp)
  · obtain ⟨⟨w, rest⟩, hw, hv⟩ := bind_eq_ok_iff.mp hv
    simp only at hv
    split at hv
    · rename_i hrest
      rw [Except.ok.injEq] at hv
      exact hv ▸ ⟨rest, (scan_scanned _).1 hw, hrest⟩
    · exact absurd hv (by simp)

/-! ## Other hooks -/

/-- Hooks that return what other hooks return, where these do. -/
structure Hooks.Refines (h : Hooks ε) (h' : Hooks ε') : Prop where
  objectPairs : ∀ {pairs : List (Text × Json)} {v : Json}, h.objectPairs pairs = .ok v →
    h'.objectPairs pairs = .ok v
  parseConstant : ∀ {t : Text} {v : Json}, h.parseConstant t = .ok v → h'.parseConstant t = .ok v

variable {h' : Hooks ε'}

omit [Interpreter] in
theorem ok_mono {α : Type} {a b : α} (hab : (.ok a : Except ε α) = .ok b) :
    (.ok a : Except ε' α) = .ok b := by
  rw [Except.ok.inj hab]

theorem callHook_mono {r : Except ε Json} {r' : Except ε' Json} {t rest : Text} {v : Json}
    (hr : ∀ {w : Json}, r = .ok w → r' = .ok w) (hv : callHook r t = .ok (v, rest)) :
    callHook r' t = .ok (v, rest) := by
  rw [callHook_eq_ok_iff] at hv ⊢
  exact ⟨hr hv.1, hv.2⟩

theorem scanNumeral_mono {t rest : Text} {v : Json}
    (hv : scanNumeral t = (.ok (v, rest) : Except (LoadsError ε) (Json × Text))) :
    scanNumeral t = (.ok (v, rest) : Except (LoadsError ε') (Json × Text)) := by
  rw [scanNumeral] at hv ⊢
  split at hv
  · exact absurd hv (by simp)
  · split at hv
    · exact ok_mono hv
    · exact absurd hv (by simp)

theorem scanConstant_mono (hh : h.Refines h') {t rest : Text} {v : Json}
    (hv : (scanConstant h t).getD (scanNumeral t) = .ok (v, rest)) :
    (scanConstant h' t).getD (scanNumeral t) = .ok (v, rest) := by
  rw [scanConstant] at hv ⊢
  split at hv
  · rw [if_pos ‹_›]; exact ok_mono hv
  rw [if_neg ‹_›]
  split at hv
  · rw [if_pos ‹_›]; exact ok_mono hv
  rw [if_neg ‹_›]
  split at hv
  · rw [if_pos ‹_›]; exact ok_mono hv
  rw [if_neg ‹_›]
  split at hv
  · rw [if_pos ‹_›]; exact callHook_mono hh.parseConstant hv
  rw [if_neg ‹_›]
  split at hv
  · rw [if_pos ‹_›]; exact callHook_mono hh.parseConstant hv
  rw [if_neg ‹_›]
  split at hv
  · rw [if_pos ‹_›]; exact callHook_mono hh.parseConstant hv
  rw [if_neg ‹_›]
  exact scanNumeral_mono hv

theorem scanValue_mono {fuel : ℕ} (hh : h.Refines h')
    (ihm : ∀ {depth : ℕ} {t rest : Text} {pairs : List (Text × Json)},
      scanMembers h fuel depth t = .ok (pairs, rest) →
        scanMembers h' fuel depth t = .ok (pairs, rest))
    (ihi : ∀ {depth : ℕ} {t rest : Text} {vs : List Json},
      scanItems h fuel depth t = .ok (vs, rest) → scanItems h' fuel depth t = .ok (vs, rest))
    {depth : ℕ} {t rest : Text} {v : Json}
    (hv : scanValue h (fuel + 1) depth t = .ok (v, rest)) :
    scanValue h' (fuel + 1) depth t = .ok (v, rest) := by
  cases t with
  | nil => rw [scanValue.eq_def] at hv; exact absurd hv (by simp)
  | cons c t =>
    rw [scanValue.eq_def] at hv ⊢
    simp only at hv ⊢
    by_cases hquote : c = .scalar '"'
    · rw [if_pos hquote] at hv ⊢
      split at hv
      · exact ok_mono hv
      · exact absurd hv (by simp)
    rw [if_neg hquote] at hv ⊢
    by_cases hbrace : c = .scalar '{'
    · rw [if_pos hbrace] at hv ⊢
      split at hv
      · exact absurd hv (by simp)
      split at hv
      · rw [if_pos ‹_›]
        exact callHook_mono hh.objectPairs hv
      · obtain ⟨⟨pairs, u⟩, hpairs, hv⟩ := bind_eq_ok_iff.mp hv
        rw [if_neg ‹_›, ihm hpairs]
        exact callHook_mono hh.objectPairs hv
    rw [if_neg hbrace] at hv ⊢
    by_cases hbracket : c = .scalar '['
    · rw [if_pos hbracket] at hv ⊢
      split at hv
      · exact absurd hv (by simp)
      split at hv
      · rw [if_pos ‹_›]
        exact ok_mono hv
      · obtain ⟨⟨vs, u⟩, hvs, hv⟩ := bind_eq_ok_iff.mp hv
        rw [if_neg ‹_›, ihi hvs]
        exact ok_mono hv
    rw [if_neg hbracket] at hv ⊢
    exact scanConstant_mono hh hv

theorem scanMembers_mono {fuel : ℕ}
    (ihv : ∀ {depth : ℕ} {t rest : Text} {v : Json},
      scanValue h fuel depth t = .ok (v, rest) → scanValue h' fuel depth t = .ok (v, rest))
    (ihm : ∀ {depth : ℕ} {t rest : Text} {pairs : List (Text × Json)},
      scanMembers h fuel depth t = .ok (pairs, rest) →
        scanMembers h' fuel depth t = .ok (pairs, rest))
    {depth : ℕ} {t rest : Text} {pairs : List (Text × Json)}
    (hm : scanMembers h (fuel + 1) depth t = .ok (pairs, rest)) :
    scanMembers h' (fuel + 1) depth t = .ok (pairs, rest) := by
  cases t with
  | nil => rw [scanMembers.eq_def] at hm; exact absurd hm (by simp)
  | cons c t =>
    rw [scanMembers.eq_def] at hm ⊢
    simp only at hm ⊢
    split at hm
    · rw [if_pos ‹_›]
      split at hm
      · exact absurd hm (by simp)
      · split at hm
        · exact absurd hm (by simp)
        · split at hm
          · rw [if_pos ‹_›]
            obtain ⟨⟨v, w⟩, hv, hm⟩ := bind_eq_ok_iff.mp hm
            rw [ihv hv, ok_bind]
            simp only at hm ⊢
            split at hm
            · exact absurd hm (by simp)
            · split at hm
              · rw [if_pos ‹_›]
                exact ok_mono hm
              · rw [if_neg ‹_›]
                split at hm
                · rw [if_pos ‹_›]
                  obtain ⟨⟨more, w'⟩, hmore, hm⟩ := bind_eq_ok_iff.mp hm
                  rw [ihm hmore]
                  exact ok_mono hm
                · exact absurd hm (by simp)
          · exact absurd hm (by simp)
    · exact absurd hm (by simp)

theorem scanItems_mono {fuel : ℕ}
    (ihv : ∀ {depth : ℕ} {t rest : Text} {v : Json},
      scanValue h fuel depth t = .ok (v, rest) → scanValue h' fuel depth t = .ok (v, rest))
    (ihi : ∀ {depth : ℕ} {t rest : Text} {vs : List Json},
      scanItems h fuel depth t = .ok (vs, rest) → scanItems h' fuel depth t = .ok (vs, rest))
    {depth : ℕ} {t rest : Text} {vs : List Json}
    (hi : scanItems h (fuel + 1) depth t = .ok (vs, rest)) :
    scanItems h' (fuel + 1) depth t = .ok (vs, rest) := by
  rw [scanItems] at hi ⊢
  obtain ⟨⟨v, w⟩, hv, hi⟩ := bind_eq_ok_iff.mp hi
  rw [ihv hv, ok_bind]
  simp only at hi ⊢
  split at hi
  · exact absurd hi (by simp)
  · split at hi
    · rw [if_pos ‹_›]
      exact ok_mono hi
    · rw [if_neg ‹_›]
      split at hi
      · rw [if_pos ‹_›]
        obtain ⟨⟨more, w'⟩, hmore, hi⟩ := bind_eq_ok_iff.mp hi
        rw [ihi hmore]
        exact ok_mono hi
      · exact absurd hi (by simp)

/-- The scanner returns the same with the other hooks. -/
theorem scan_mono (hh : h.Refines h') : ∀ fuel : ℕ,
    (∀ {depth : ℕ} {t rest : Text} {v : Json},
      scanValue h fuel depth t = .ok (v, rest) → scanValue h' fuel depth t = .ok (v, rest)) ∧
    (∀ {depth : ℕ} {t rest : Text} {pairs : List (Text × Json)},
      scanMembers h fuel depth t = .ok (pairs, rest) →
        scanMembers h' fuel depth t = .ok (pairs, rest)) ∧
    (∀ {depth : ℕ} {t rest : Text} {vs : List Json},
      scanItems h fuel depth t = .ok (vs, rest) → scanItems h' fuel depth t = .ok (vs, rest)) := by
  intro fuel
  induction fuel with
  | zero =>
    refine ⟨fun hv ↦ ?_, fun hm ↦ ?_, fun hi ↦ ?_⟩
    · rw [scanValue.eq_def] at hv; exact absurd hv (by simp)
    · rw [scanMembers.eq_def] at hm; exact absurd hm (by simp)
    · rw [scanItems] at hi; exact absurd hi (by simp)
  | succ fuel ih =>
    obtain ⟨ihv, ihm, ihi⟩ := ih
    exact ⟨scanValue_mono hh ihm ihi, scanMembers_mono ihv ihm, scanItems_mono ihv ihi⟩

/-- **Hooks that return what others do make no difference to a text these have read.** -/
theorem loads_mono (hh : h.Refines h') {t : Text} {v : Json} (hv : loads h t = .ok v) :
    loads h' t = .ok v := by
  rw [loads] at hv ⊢
  split at hv
  · exact absurd hv (by simp)
  · rw [if_neg ‹_›]
    obtain ⟨⟨w, rest⟩, hw, hv⟩ := bind_eq_ok_iff.mp hv
    rw [(scan_mono hh _).1 hw, ok_bind]
    simp only at hv ⊢
    split at hv
    · rw [if_pos ‹_›]
      exact ok_mono hv
    · exact absurd hv (by simp)

end Py
