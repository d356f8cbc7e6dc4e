import Alicerce.Py.JsonGrammar
import Alicerce.Py.JsonRoundTrip
import Mathlib.Data.List.Perm.Basic

/-!
# Objects, whatever the order of their keys

A decoder that accepts a text only when printing the value gives the text back reads the members of
an object by key, and rebuilds the object in an order of its own.  Two facts make the two spellings
the same text.

* `loads_everywhere`: what `object_pairs_hook` guarantees of the objects it builds (`Hooks.Ensures`)
  holds of every object in the result, at every depth (`Json.Everywhere`); with the usual hook, that
  no key is repeated.
* `dumps_obj_perm`: since keys are sorted when an object is printed, the order of its members does
  not matter as long as no key is repeated.
-/

set_option autoImplicit false

namespace Py

/-- Sorting forgets the order the parts came in, since no two of them share a key. -/
theorem mergeSort_keyLe_perm {parts parts' : List (Text × Text)} (hp : parts.Perm parts')
    (hnd : (parts.map Prod.fst).Nodup) : parts.mergeSort keyLe = parts'.mergeSort keyLe := by
  have htrans : ∀ a b c : Text × Text, keyLe a b = true → keyLe b c = true → keyLe a c = true :=
    fun a b c ↦ Text.le_trans a.1 b.1 c.1
  have htotal : ∀ a b : Text × Text, (keyLe a b || keyLe b a) = true :=
    fun a b ↦ Text.le_total a.1 b.1
  refine List.Perm.eq_of_pairwise ?_ (List.pairwise_mergeSort htrans htotal parts)
    (List.pairwise_mergeSort htrans htotal parts')
    ((List.mergeSort_perm _ _).trans (hp.trans (List.mergeSort_perm _ _).symm))
  intro a b ha hb hab hba
  have ha' : a ∈ parts := List.mem_mergeSort.mp ha
  have hb' : b ∈ parts := hp.mem_iff.mpr (List.mem_mergeSort.mp hb)
  exact List.inj_on_of_nodup_map hnd ha' hb' (Text.le_antisymm hab hba)

/-! ## Dictionaries -/

/-- Without a repeated key, what is found under a key is what is listed with it. -/
theorem lookup_eq_some_iff {β : Type} : ∀ {entries : List (Text × β)},
    (entries.map Prod.fst).Nodup → ∀ {k : Text} {v : β},
      entries.lookup k = some v ↔ (k, v) ∈ entries
  | [], _, k, v => by simp
  | (k', v') :: entries, hnd, k, v => by
    rw [List.map_cons, List.nodup_cons] at hnd
    rw [List.lookup_cons, List.mem_cons, Prod.mk.injEq]
    by_cases hk : k = k'
    · subst hk
      simp only [beq_self_eq_true, true_and, Option.some_inj]
      refine ⟨fun h ↦ .inl h.symm, fun h ↦ h.elim Eq.symm fun h ↦ ?_⟩
      exact absurd (List.mem_map_of_mem (f := Prod.fst) h) hnd.1
    · simp only [beq_false_of_ne hk, lookup_eq_some_iff hnd.2, hk, false_and, false_or]

/-- Two dictionaries in which the same is found are the same up to the order of their entries. -/
theorem perm_of_lookup_eq {β : Type} {entries entries' : List (Text × β)}
    (hnd : (entries.map Prod.fst).Nodup) (hnd' : (entries'.map Prod.fst).Nodup)
    (h : ∀ k, entries.lookup k = entries'.lookup k) : entries.Perm entries' := by
  refine (List.perm_ext_iff_of_nodup hnd.of_map hnd'.of_map).mpr ?_
  rintro ⟨k, v⟩
  rw [← lookup_eq_some_iff hnd, ← lookup_eq_some_iff hnd', h]

variable [Interpreter] {ε : Type}

/-! ## What holds of every object -/

mutual

/-- `p` holds of the members of every object in a value. -/
def Json.Everywhere (p : List (Text × Json) → Prop) : Json → Prop
  | .null | .bool _ | .int _ | .float _ | .str _ => True
  | .arr items => EverywhereItems p items
  | .obj members => p members ∧ EverywhereMembers p members

/-- `p` holds of the members of every object in every item. -/
def EverywhereItems (p : List (Text × Json) → Prop) : List Json → Prop
  | [] => True
  | v :: items => v.Everywhere p ∧ EverywhereItems p items

/-- `p` holds of the members of every object in every member. -/
def EverywhereMembers (p : List (Text × Json) → Prop) : List (Text × Json) → Prop
  | [] => True
  | (_, v) :: members => v.Everywhere p ∧ EverywhereMembers p members

end

theorem EverywhereMembers.of_mem {p : List (Text × Json) → Prop} :
    ∀ {members : List (Text × Json)}, EverywhereMembers p members →
      ∀ {m : Text × Json}, m ∈ members → m.2.Everywhere p
  | (_, _) :: _, h, m, hm => by
    rcases List.mem_cons.mp hm with rfl | hm
    · exact h.1
    · exact h.2.of_mem hm

/-- The hooks only build values in which `p` holds of every object. -/
structure Hooks.Ensures (h : Hooks ε) (p : List (Text × Json) → Prop) : Prop where
  /-- An object built from members that satisfy `p` throughout. -/
  objectPairs : ∀ {members : List (Text × Json)} {v : Json}, EverywhereMembers p members →
    h.objectPairs members = .ok v → v.Everywhere p
  /-- What stands for a constant. -/
  parseConstant : ∀ {t : Text} {v : Json}, h.parseConstant t = .ok v → v.Everywhere p

variable {h : Hooks ε} {p : List (Text × Json) → Prop}

theorem everywhere_of_numeral {n : Numeral} {v : Json} (hv : n.value = some v) :
    v.Everywhere p := by
  rw [Numeral.value] at hv
  split at hv
  · split at hv
    · rw [← Option.some.inj hv]; trivial
    · exact absurd hv (by simp)
  · rw [← Option.some.inj hv]; trivial

theorem everywhere_of_scanNumeral {t rest : Text} {v : Json}
    (hv : scanNumeral t = (.ok (v, rest) : Except (LoadsError ε) (Json × Text))) :
    v.Everywhere p := by
  rw [scanNumeral] at hv
  split at hv
  · exact absurd hv (by simp)
  · split at hv
    · rename_i hn
      rw [Except.ok.injEq, Prod.mk.injEq] at hv
      exact hv.1 ▸ everywhere_of_numeral hn
    · exact absurd hv (by simp)

theorem everywhere_of_scanConstant (hh : h.Ensures p) {t rest : Text} {v : Json}
    (hv : (scanConstant h t).getD (scanNumeral t) = .ok (v, rest)) : v.Everywhere p := by
  have hlit : ∀ {w : Json} {u : Text}, w.Everywhere p →
      (.ok (w, u) : Except (LoadsError ε) (Json × Text)) = .ok (v, rest) → v.Everywhere p := by
    intro w u hw heq
    rw [Except.ok.injEq, Prod.mk.injEq] at heq
    exact heq.1 ▸ hw
  rw [scanConstant] at hv
  split at hv
  · exact hlit (by rw [Json.Everywhere]; trivial) hv
  split at hv
  · exact hlit (by rw [Json.Everywhere]; trivial) hv
  split at hv
  · exact hlit (by rw [Json.Everywhere]; trivial) hv
  split at hv
  · exact hh.parseConstant (callHook_eq_ok_iff.mp hv).1
  split at hv
  · exact hh.parseConstant (callHook_eq_ok_iff.mp hv).1
  split at hv
  · exact hh.parseConstant (callHook_eq_ok_iff.mp hv).1
  · exact everywhere_of_scanNumeral hv

/-- `p` holds of the members of every object in what was read. -/
def Form.Everywhere (p : List (Text × Json) → Prop) : Form → Prop
  | .value v => v.Everywhere p
  | .members pairs => EverywhereMembers p pairs
  | .items vs => EverywhereItems p vs

/-- What the scanner reads inherits what the hooks ensure. -/
theorem Scanned.everywhere (hh : h.Ensures p) {form : Form} {t rest : Text}
    (hs : Scanned h form t rest) : form.Everywhere p := by
  induction hs with
  | str => rw [Form.Everywhere, Json.Everywhere]; trivial
  | objNil _ hv => exact hh.objectPairs (by rw [EverywhereMembers]; trivial) hv
  | obj _ hv ih => exact hh.objectPairs ih hv
  | arrNil => rw [Form.Everywhere, Json.Everywhere, EverywhereItems]; trivial
  | arr _ ih =>
    rw [Form.Everywhere, Json.Everywhere]
    exact ih
  | other _ hv => exact everywhere_of_scanConstant hh hv
  | lastMember _ _ _ _ ih => exact ⟨ih, trivial⟩
  | member _ _ _ _ _ ihv ihm => exact ⟨ihv, ihm⟩
  | lastItem _ _ ih => exact ⟨ih, trivial⟩
  | item _ _ _ ihv ihi => exact ⟨ihv, ihi⟩

/-- **What the hooks ensure of an object holds of every object `json.loads` returns**, at every
depth. -/
theorem loads_everywhere (hh : h.Ensures p) {t : Text} {v : Json} (hv : loads h t = .ok v) :
    v.Everywhere p := by
  obtain ⟨_, hs, -⟩ := loads_scanned hv
  exact hs.everywhere hh

/-! ## The order of the members -/

theorem dumpsMembers_perm {members members' : List (Text × Json)} (hp : members.Perm members') :
    ∀ {parts : List (Text × Text)}, dumpsMembers members = some parts →
      ∃ parts', dumpsMembers members' = some parts' ∧ parts.Perm parts' := by
  induction hp with
  | nil => exact fun {parts} h ↦ ⟨parts, h, .refl _⟩
  | cons m _ ih =>
    intro parts h
    obtain ⟨k, v⟩ := m
    simp only [dumpsMembers, Option.bind_eq_some_iff, Option.map_eq_some_iff] at h
    obtain ⟨part, hpart, rest, hrest, rfl⟩ := h
    obtain ⟨rest', hrest', hperm⟩ := ih hrest
    exact ⟨(k, part) :: rest', by simp [dumpsMembers, hpart, hrest'], hperm.cons _⟩
  | swap m n l =>
    intro parts h
    obtain ⟨k, v⟩ := m
    obtain ⟨k', v'⟩ := n
    simp only [dumpsMembers, Option.bind_eq_some_iff, Option.map_eq_some_iff] at h
    obtain ⟨part, hpart, _, ⟨part', hpart', rest, hrest, rfl⟩, rfl⟩ := h
    exact ⟨(k, part') :: (k', part) :: rest, by simp [dumpsMembers, hpart, hpart', hrest],
      .swap _ _ _⟩
  | trans _ _ ih ih' =>
    intro parts h
    obtain ⟨parts', h', hp'⟩ := ih h
    obtain ⟨parts'', h'', hp''⟩ := ih' h'
    exact ⟨parts'', h'', hp'.trans hp''⟩

/-- **An object is printed the same whatever the order of its members.** -/
theorem dumps_obj_perm {members members' : List (Text × Json)} (hp : members.Perm members')
    (hnd : (members.map Prod.fst).Nodup) : dumps (.obj members) = dumps (.obj members') := by
  rw [dumps, dumps]
  cases hparts : dumpsMembers members with
  | none =>
    cases hparts' : dumpsMembers members' with
    | none => rfl
    | some parts' =>
      obtain ⟨parts, h, -⟩ := dumpsMembers_perm hp.symm hparts'
      exact absurd (h.symm.trans hparts) (by simp)
  | some parts =>
    obtain ⟨parts', hparts', hperm⟩ := dumpsMembers_perm hp hparts
    rw [hparts', Option.map_some, Option.map_some, mergeSort_keyLe_perm hperm]
    rwa [dumpsMembers_keys hparts]

/-- An object is printed the same whatever stands for its values, as long as they are. -/
theorem dumpsMembers_congr : ∀ {members members' : List (Text × Json)},
    members.map (fun m ↦ (m.1, dumps m.2)) = members'.map (fun m ↦ (m.1, dumps m.2)) →
      dumpsMembers members = dumpsMembers members'
  | [], [], _ => rfl
  | [], _ :: _, h => absurd h (by simp)
  | _ :: _, [], h => absurd h (by simp)
  | (k, v) :: members, (k', v') :: members', h => by
    simp only [List.map_cons, List.cons.injEq, Prod.mk.injEq] at h
    rw [dumpsMembers, dumpsMembers, h.1.1, h.1.2, dumpsMembers_congr h.2]

end Py
