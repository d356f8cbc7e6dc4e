import Alicerce.Domain.CommandPolicy

/-!
# Sets of rules

A policy lists its rules, but what it means is the set of them.

* `ruleKey_injective`: the key of a rule has every field of it, so the order of the keys leaves one
  way to list a set (`CommandPolicy.existsUnique_order`).
* `AuthorizedCommand.rule_least`: the rule that authorizes a command is the one with the least key
  of all that admit it, however they are listed.
* `rule_set_spelling` puts it together: a set of rules has one accepted spelling, and authorization
  depends on the set alone.
-/

set_option autoImplicit false

namespace Alicerce

open Py Lib

/-! ## The key of a rule -/

theorem textKey_injective : Function.Injective textKey := fun _ _ h ↦
  CodePoint.ord_injective.list_map (List.singleton_injective h)

theorem textsKey_injective :
    Function.Injective fun texts : List Text ↦ texts.map (·.map CodePoint.ord) :=
  CodePoint.ord_injective.list_map.list_map

/-- **No two rules have one key**: the key leaves no field of a rule out. -/
theorem ruleKey_injective : Function.Injective ruleKey := by
  intro a b h
  rw [ruleKey, ruleKey] at h
  obtain ⟨haction, h⟩ := List.cons.inj h
  obtain ⟨hexecutable, h⟩ := List.cons.inj h
  obtain ⟨harguments, h⟩ := List.cons.inj h
  obtain ⟨hdirectory, h⟩ := List.cons.inj h
  obtain ⟨hnames, h⟩ := List.cons.inj h
  obtain ⟨-, hlimits⟩ := List.cons.inj h
  apply CommandRule.ext
  · exact Checked.ext (textKey_injective haction)
  · exact Checked.ext (textKey_injective hexecutable)
  · exact textsKey_injective harguments
  · exact Checked.ext (textKey_injective hdirectory)
  · exact textsKey_injective hnames
  · rfl
  · simp only [List.cons.injEq, and_true] at hlimits
    exact CommandLimits.ext hlimits.1 hlimits.2.1 hlimits.2.2.1 hlimits.2.2.2

/-- Of two different rules one has the smaller key. -/
theorem ruleKey_lt_or_lt {a b : CommandRule} (h : a ≠ b) :
    ruleKey a < ruleKey b ∨ ruleKey b < ruleKey a :=
  lt_or_gt_of_ne fun hkey ↦ h (ruleKey_injective hkey)

/-! ## Accepted lists -/

namespace CommandPolicy

variable {policyHash : PolicyHash} {actions : Actions} {rules : List CommandRule}

/-- What the constructor accepts is what the policy holds. -/
theorem new_eq_ok_iff {policy : CommandPolicy} :
    CommandPolicy.new policyHash actions rules = .ok policy ↔
      policy.policyHash = policyHash ∧ policy.actions = actions ∧ policy.rules = rules := by
  rw [CommandPolicy.new]
  constructor
  · intro h
    split at h
    · split at h
      · rw [← Except.ok.inj h]
        exact ⟨rfl, rfl, rfl⟩
      · exact absurd h (by simp)
    · exact absurd h (by simp)
  · rintro ⟨rfl, rfl, rfl⟩
    rw [dif_pos (uniqueAndSorted_map_iff.mpr policy.rules_sorted), dif_pos policy.rules_permitted]

/-- A list is accepted when its keys ascend and its actions are permitted. -/
theorem accepted_iff : (∃ policy, CommandPolicy.new policyHash actions rules = .ok policy) ↔
    Ascending ruleKey rules ∧ ∀ rule ∈ rules,
      rule.action.value ∈ actions.allowed ∧ rule.action.value ∉ actions.denied := by
  constructor
  · rintro ⟨policy, h⟩
    obtain ⟨rfl, rfl, rfl⟩ := new_eq_ok_iff.mp h
    exact ⟨policy.rules_sorted, policy.rules_permitted⟩
  · rintro ⟨hsorted, hpermitted⟩
    exact ⟨⟨policyHash, actions, rules, hsorted, hpermitted⟩, new_eq_ok_iff.mpr ⟨rfl, rfl, rfl⟩⟩

/-- **One order of a set of rules is accepted.** -/
theorem existsUnique_order (hrules : rules.Nodup) (hpermitted : ∀ rule ∈ rules,
      rule.action.value ∈ actions.allowed ∧ rule.action.value ∉ actions.denied) :
    ∃! order, order.Perm rules ∧
      ∃ policy, CommandPolicy.new policyHash actions order = .ok policy := by
  obtain ⟨order, ⟨hperm, hasc⟩, hunique⟩ := existsUnique_ascending ruleKey_injective hrules
  refine ⟨order, ⟨hperm, accepted_iff.mpr ⟨hasc, fun rule hrule ↦ ?_⟩⟩, fun order' h ↦ ?_⟩
  · exact hpermitted rule (hperm.mem_iff.mp hrule)
  · exact hunique order' ⟨h.1, (accepted_iff.mp h.2).1⟩

/-- No list with a repetition is accepted. -/
theorem new_of_not_nodup (hrules : ¬rules.Nodup) :
    CommandPolicy.new policyHash actions rules =
      .error (.valueError "rules must be unique and sorted") := by
  rw [CommandPolicy.new, dif_neg]
  exact fun h ↦ hrules (uniqueAndSorted_map_iff.mp h).nodup

/-- **A policy is determined by the set of its rules.** -/
theorem eq_of_same_rules {policy policy' : CommandPolicy}
    (hhash : policy.policyHash = policy'.policyHash) (hactions : policy.actions = policy'.actions)
    (hrules : ∀ rule, rule ∈ policy.rules ↔ rule ∈ policy'.rules) : policy = policy' :=
  CommandPolicy.ext hhash hactions
    (Ascending.eq_of_mem_iff policy.rules_sorted policy'.rules_sorted hrules)

end CommandPolicy

/-! ## Authorization -/

/-- **The matching rule has the least key of all that admit the request.** -/
theorem AuthorizedCommand.rule_least (a : AuthorizedCommand) :
    a.rule ∈ a.policy.rules ∧ Admits a.request a.rule ∧
      ∀ rule ∈ a.policy.rules, Admits a.request rule → ruleKey a.rule ≤ ruleKey rule := by
  obtain ⟨-, hfind⟩ := matchingRule_eq_ok_iff.mp a.authorized
  have hadmits := List.find?_some hfind
  refine ⟨List.mem_of_find?_eq_some hfind, of_decide_eq_true hadmits, ?_⟩
  intro rule hrule hrule'
  exact Ascending.find?_le a.policy.rules_sorted hfind hrule (decide_eq_true hrule')

/-- **A rule set has exactly one accepted spelling**, and authorization depends on the set alone. -/
theorem rule_set_spelling :
    (∀ policyHash actions (rules : List CommandRule), rules.Nodup →
        (∀ rule ∈ rules,
          rule.action.value ∈ actions.allowed ∧ rule.action.value ∉ actions.denied) →
        ∃! order, order.Perm rules ∧
          ∃ policy, CommandPolicy.new policyHash actions order = .ok policy) ∧
      (∀ policyHash actions (rules : List CommandRule), ¬rules.Nodup →
        CommandPolicy.new policyHash actions rules =
          .error (.valueError "rules must be unique and sorted")) ∧
      Function.Injective ruleKey ∧
      (∀ a b : CommandRule, a ≠ b → ruleKey a < ruleKey b ∨ ruleKey b < ruleKey a) ∧
      (∀ (request : CommandRequest) (policy policy' : CommandPolicy),
        policy.policyHash = policy'.policyHash → policy.actions = policy'.actions →
        (∀ rule, rule ∈ policy.rules ↔ rule ∈ policy'.rules) →
        authorizeCommand request policy = authorizeCommand request policy') ∧
      ∀ request policy a, authorizeCommand request policy = .ok a →
        a.rule ∈ policy.rules ∧ Admits request a.rule ∧
          ∀ rule ∈ policy.rules, Admits request rule → ruleKey a.rule ≤ ruleKey rule := by
  refine ⟨fun _ _ _ hrules hpermitted ↦ CommandPolicy.existsUnique_order hrules hpermitted,
    fun _ _ _ hrules ↦ CommandPolicy.new_of_not_nodup hrules, ruleKey_injective,
    fun _ _ h ↦ ruleKey_lt_or_lt h, fun request policy policy' hhash hactions hrules ↦ ?_,
    fun request policy a h ↦ ?_⟩
  · rw [CommandPolicy.eq_of_same_rules hhash hactions hrules]
  · obtain ⟨rfl, rfl⟩ := authorizeCommand_eq_ok_iff.mp h
    exact a.rule_least

end Alicerce
