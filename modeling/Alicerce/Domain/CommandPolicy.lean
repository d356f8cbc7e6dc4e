import Alicerce.Domain.Command
import Alicerce.Lib.Narrowing
import Alicerce.Lib.SortedKeys

/-!
# Authorizing commands

The trusted pure policy that decides whether a command may run.

* `CommandRule` and `CommandPolicy` are the rules, and `AuthorizedCommand` is a command that was
  found to match one.
* `matchingRule` narrows the rules of the policy dimension by dimension, as the source does;
  `dimensions` lists the tests with their errors, in their order.
* `Admits`: a rule admits a request in every dimension.  `matchingRule_eq_ok_iff` and
  `matchingRule_eq_error_iff` say which rule is found, and at which dimension none is left.
* `authorizeCommand_exact`: a command is authorized when the policy is the run's (`Permits`) and one
  single rule admits it in every dimension, by the first such rule; otherwise the error names the
  first dimension at which no rule is left.
-/

set_option autoImplicit false

namespace Alicerce

open Py Lib

/-! ## Policies -/

/-- The canonical actions of a contract. -/
structure Actions where
  allowed : List Text
  denied : List Text
deriving DecidableEq

/-- One exact trusted action, executable, argv, and capability rule. -/
@[ext]
structure CommandRule where
  action : CommandAction
  executable : ExecutableId
  arguments : List Text
  workingDirectory : WorkingDirectory
  environmentNames : List Text
  networkPolicy : NetworkPolicy
  maxLimits : CommandLimits
  arguments_valid : ∀ argument ∈ arguments, WithoutNul argument
  environmentNames_valid : ∀ name ∈ environmentNames, environmentNamePattern name = true
  environmentNames_sorted : StrictlySorted environmentNames

instance : DecidableEq CommandRule := fun _ _ ↦ decidable_of_iff _ CommandRule.ext_iff.symm

/-- A text as a component of a key. -/
def textKey (t : Text) : List (List ℕ) := [t.map CodePoint.ord]

/-- `_rule_key`.  A component that is a tuple of texts is the list of its texts, a text is such a
tuple of one, and a number is one of one code: within one position all components are of one kind,
and comparing them as lists is comparing them. -/
def ruleKey (rule : CommandRule) : List (List (List ℕ)) :=
  [textKey rule.action.value, textKey rule.executable.value,
    rule.arguments.map (·.map CodePoint.ord), textKey rule.workingDirectory.value,
    rule.environmentNames.map (·.map CodePoint.ord), textKey rule.networkPolicy.value,
    [[rule.maxLimits.timeoutMs]], [[rule.maxLimits.terminationGraceMs]],
    [[rule.maxLimits.stdoutMaxBytes]], [[rule.maxLimits.stderrMaxBytes]]]

/-- Run-pinned canonical actions plus exact trusted execution rules. -/
@[ext]
structure CommandPolicy where
  policyHash : PolicyHash
  actions : Actions
  rules : List CommandRule
  /-- The rules are unique and sorted. -/
  rules_sorted : rules.Pairwise fun a b ↦ ruleKey a < ruleKey b
  /-- The action of a rule is canonically allowed and not denied. -/
  rules_permitted : ∀ rule ∈ rules,
    rule.action.value ∈ actions.allowed ∧ rule.action.value ∉ actions.denied
deriving DecidableEq

/-- The constructor. -/
def CommandPolicy.new (policyHash : PolicyHash) (actions : Actions) (rules : List CommandRule) :
    Except Exc CommandPolicy :=
  if hsorted : UniqueAndSorted (rules.map ruleKey) then
    if hpermitted : ∀ rule ∈ rules,
        rule.action.value ∈ actions.allowed ∧ rule.action.value ∉ actions.denied then
      .ok ⟨policyHash, actions, rules, uniqueAndSorted_map_iff.mp hsorted, hpermitted⟩
    else .error (.valueError "rule action must be canonically allowed and not denied")
  else .error (.valueError "rules must be unique and sorted")

/-! ## Matching -/

/-- `_deny`. -/
def deny (cause : CommandAuthorizationErrorCause) (detail : Text) : Exc :=
  .commandAuthorizationError cause detail

/-- The names of a request's environment are among a rule's, under the same network policy. -/
def environmentPermitted (request : CommandRequest) (rule : CommandRule) : Bool :=
  (request.environment.map (·.name)).all (rule.environmentNames.contains ·) &&
    rule.networkPolicy == request.networkPolicy

/-- The limits a rule sets dominate those of a request. -/
def limitsPermitted (request : CommandRequest) (rule : CommandRule) : Bool :=
  let maximum := rule.maxLimits
  let requested := request.limits
  requested.timeoutMs ≤ maximum.timeoutMs &&
    requested.terminationGraceMs ≤ maximum.terminationGraceMs &&
    requested.stdoutMaxBytes ≤ maximum.stdoutMaxBytes &&
    requested.stderrMaxBytes ≤ maximum.stderrMaxBytes

/-- `_matching_rule`. -/
def matchingRule (request : CommandRequest) (policy : CommandPolicy) : Except Exc CommandRule := do
  if request.runIdentity.policyHash ≠ policy.policyHash then
    .error (deny .policyHashMismatch "run policy identity changed")
  else
    let action := request.action.value
    if action ∉ policy.actions.allowed ∨ action ∈ policy.actions.denied then
      .error (deny .actionDenied action)
    else
      let candidates ← keep (deny .actionDenied action)
        (fun rule ↦ rule.action == request.action) policy.rules
      let candidates ← keep (deny .executableDenied request.executable.value)
        (fun rule ↦ rule.executable == request.executable) candidates
      let candidates ← keep (deny .argumentsDenied "argv does not match trusted rule")
        (fun rule ↦ rule.arguments == request.arguments) candidates
      let candidates ← keep (deny .workingDirectoryDenied request.workingDirectory.value)
        (fun rule ↦ rule.workingDirectory == request.workingDirectory) candidates
      let candidates ← keep
        (deny .environmentDenied "environment or network authority exceeds trusted rule")
        (environmentPermitted request) candidates
      firstOf (deny .limitExceeded "requested ceiling exceeds policy") (limitsPermitted request)
        candidates

/-- Command proven to match one run-pinned trusted rule. -/
@[ext]
structure AuthorizedCommand where
  request : CommandRequest
  policy : CommandPolicy
  rule : CommandRule
  authorized : matchingRule request policy = .ok rule
deriving DecidableEq

/-- The constructor. -/
def AuthorizedCommand.new (request : CommandRequest) (policy : CommandPolicy) (rule : CommandRule) :
    Except Exc AuthorizedCommand :=
  match h : matchingRule request policy with
  | .error e => .error e
  | .ok matching =>
    if hne : matching ≠ rule then
      .error (.valueError "rule does not authorize the command request")
    else .ok ⟨request, policy, rule, (not_not.mp hne) ▸ h⟩

/-- Authorize a request completely before any executor can observe it. -/
def authorizeCommand (request : CommandRequest) (policy : CommandPolicy) :
    Except Exc AuthorizedCommand :=
  matchingRule request policy >>= AuthorizedCommand.new request policy

/-! ## What a match is -/

/-- The dimensions a rule fixes exactly, each with the error it is denied with. -/
def exactDimensions (request : CommandRequest) : List (Exc × (CommandRule → Bool)) :=
  [(deny .actionDenied request.action.value, fun rule ↦ rule.action == request.action),
    (deny .executableDenied request.executable.value,
      fun rule ↦ rule.executable == request.executable),
    (deny .argumentsDenied "argv does not match trusted rule",
      fun rule ↦ rule.arguments == request.arguments),
    (deny .workingDirectoryDenied request.workingDirectory.value,
      fun rule ↦ rule.workingDirectory == request.workingDirectory),
    (deny .environmentDenied "environment or network authority exceeds trusted rule",
      environmentPermitted request)]

/-- All dimensions in which a rule has to admit a request, in the order they are checked. -/
def dimensions (request : CommandRequest) : List (Exc × (CommandRule → Bool)) :=
  exactDimensions request ++
    [(deny .limitExceeded "requested ceiling exceeds policy", limitsPermitted request)]

/-- A rule admits a request: the same action, executable, arguments and working directory, every
requested name of the environment, the same network policy, and limits that dominate all four. -/
structure Admits (request : CommandRequest) (rule : CommandRule) : Prop where
  action : rule.action = request.action
  executable : rule.executable = request.executable
  arguments : rule.arguments = request.arguments
  workingDirectory : rule.workingDirectory = request.workingDirectory
  environment : ∀ entry ∈ request.environment, entry.name ∈ rule.environmentNames
  networkPolicy : rule.networkPolicy = request.networkPolicy
  timeoutMs : request.limits.timeoutMs ≤ rule.maxLimits.timeoutMs
  terminationGraceMs : request.limits.terminationGraceMs ≤ rule.maxLimits.terminationGraceMs
  stdoutMaxBytes : request.limits.stdoutMaxBytes ≤ rule.maxLimits.stdoutMaxBytes
  stderrMaxBytes : request.limits.stderrMaxBytes ≤ rule.maxLimits.stderrMaxBytes

/-- To admit a request is to pass every dimension. -/
theorem passesAll_dimensions_iff {request : CommandRequest} {rule : CommandRule} :
    PassesAll (dimensions request) rule ↔ Admits request rule := by
  simp only [dimensions, exactDimensions, passesAll_append, passesAll_cons, passesAll_nil,
    beq_iff_eq,
    environmentPermitted, limitsPermitted, Bool.and_eq_true, List.all_eq_true, List.mem_map,
    List.contains_iff_mem, decide_eq_true_eq, forall_exists_index, and_imp,
    forall_apply_eq_imp_iff₂, and_true]
  constructor
  -- there is only one network policy, so that its equality is no condition
  · rintro ⟨⟨h₁, h₂, h₃, h₄, h₅⟩, ⟨⟨h₆, h₇⟩, h₈⟩, h₉⟩
    exact ⟨h₁, h₂, h₃, h₄, h₅, rfl, h₆, h₇, h₈, h₉⟩
  · rintro ⟨h₁, h₂, h₃, h₄, h₅, -, h₆, h₇, h₈, h₉⟩
    exact ⟨⟨h₁, h₂, h₃, h₄, h₅⟩, ⟨⟨h₆, h₇⟩, h₈⟩, h₉⟩

instance (request : CommandRequest) (rule : CommandRule) : Decidable (Admits request rule) :=
  decidable_of_iff _ passesAll_dimensions_iff

/-- The policy is the run's, and it lets the action be taken at all. -/
structure Permits (policy : CommandPolicy) (request : CommandRequest) : Prop where
  policyHash : request.runIdentity.policyHash = policy.policyHash
  allowed : request.action.value ∈ policy.actions.allowed
  not_denied : request.action.value ∉ policy.actions.denied

section

variable {request : CommandRequest} {policy : CommandPolicy} {rule : CommandRule} {e : Exc}

theorem matchingRule_of_permits (h : Permits policy request) :
    matchingRule request policy = narrow (exactDimensions request) policy.rules >>=
      firstOf (deny .limitExceeded "requested ceiling exceeds policy")
        (limitsPermitted request) := by
  rw [matchingRule, if_neg (not_not.mpr h.policyHash),
    if_neg (not_or.mpr ⟨not_not.mpr h.allowed, h.not_denied⟩)]
  simp only [exactDimensions, narrow, bind_bind, ok_bind]

/-- **The matching rule is the first one that admits the request.** -/
theorem matchingRule_eq_ok_iff : matchingRule request policy = .ok rule ↔
    Permits policy request ∧ policy.rules.find? (fun rule ↦ Admits request rule) = some rule := by
  by_cases h : Permits policy request
  · rw [matchingRule_of_permits h, bind_eq_ok_iff, and_iff_right h]
    have hfind : (policy.rules.filter fun x ↦ PassesAll (exactDimensions request) x).find?
        (limitsPermitted request) = policy.rules.find? fun rule ↦ Admits request rule := by
      rw [List.find?_filter]
      refine congrFun (congrArg _ (funext fun x ↦ ?_)) _
      have hx : PassesAll (dimensions request) x ↔
          PassesAll (exactDimensions request) x ∧ limitsPermitted request x = true := by
        rw [dimensions, passesAll_append, passesAll_cons, and_iff_left passesAll_nil]
      rw [Bool.eq_iff_iff]
      simp only [decide_eq_true_iff, ← hx, passesAll_dimensions_iff]
    constructor
    · rintro ⟨candidates, hc, hfirst⟩
      obtain ⟨rfl, -⟩ := narrow_eq_ok_iff.mp hc
      exact hfind ▸ firstOf_eq_ok_iff.mp hfirst
    · intro hrule
      rw [← hfind] at hrule
      exact ⟨_, narrow_eq_ok_iff.mpr ⟨rfl, fun _ ↦
        List.ne_nil_of_mem (List.mem_of_find?_eq_some hrule)⟩, firstOf_eq_ok_iff.mpr hrule⟩
  · refine iff_of_false (fun hrule ↦ h ?_) fun h' ↦ h h'.1
    rw [matchingRule] at hrule
    split at hrule
    · exact absurd hrule (by simp)
    rename_i hhash
    by_cases haction : request.action.value ∉ policy.actions.allowed ∨
        request.action.value ∈ policy.actions.denied
    · rw [if_pos haction] at hrule
      exact absurd hrule (by simp)
    · rw [not_or, not_not] at haction
      exact ⟨not_not.mp hhash, haction.1, haction.2⟩

/-- A rule for the action of a request permits the action. -/
theorem CommandPolicy.permits_of_mem (hhash : request.runIdentity.policyHash = policy.policyHash)
    (hmem : rule ∈ policy.rules) (haction : rule.action = request.action) :
    Permits policy request :=
  have h := policy.rules_permitted rule hmem
  ⟨hhash, haction ▸ h.1, haction ▸ h.2⟩

/-- **The error of a denial names the first dimension at which no rule is left.** -/
theorem matchingRule_eq_error_iff : matchingRule request policy = .error e ↔
    if request.runIdentity.policyHash = policy.policyHash then
      ∃ before p after, dimensions request = before ++ (e, p) :: after ∧
        (before ≠ [] → ∃ rule ∈ policy.rules, PassesAll before rule) ∧
        ∀ rule ∈ policy.rules, PassesAll before rule → p rule = false
    else e = deny .policyHashMismatch "run policy identity changed" := by
  by_cases hhash : request.runIdentity.policyHash = policy.policyHash
  · rw [if_pos hhash, ← narrow_eq_error_iff]
    by_cases h : Permits policy request
    · rw [matchingRule_of_permits h, dimensions, narrow_append, bind_eq_error_iff,
        bind_eq_error_iff]
      refine or_congr_right (exists_congr fun candidates ↦ and_congr_right fun _ ↦ ?_)
      rw [firstOf_eq_error_iff, narrow, bind_eq_error_iff]
      simp [narrow]
    · -- the gate denies the action, and no rule is for it
      have hnone : ∀ rule ∈ policy.rules, (rule.action == request.action) = false := by
        intro rule hmem
        rw [beq_eq_false_iff_ne]
        exact fun haction ↦ h (policy.permits_of_mem hhash hmem haction)
      have hgate : request.action.value ∉ policy.actions.allowed ∨
          request.action.value ∈ policy.actions.denied := by
        by_contra hnot
        rw [not_or, not_not] at hnot
        exact h ⟨hhash, hnot.1, hnot.2⟩
      rw [matchingRule, if_neg (not_not.mpr hhash), if_pos hgate, dimensions, exactDimensions,
        List.cons_append, narrow, keep_eq_error_iff.mpr ⟨rfl, hnone⟩, error_bind,
        Except.error.injEq, Except.error.injEq]
  · rw [if_neg hhash, matchingRule, if_pos hhash, Except.error.injEq, eq_comm]

theorem AuthorizedCommand.new_eq_ok_iff {a : AuthorizedCommand} :
    new request policy rule = .ok a ↔
      a.request = request ∧ a.policy = policy ∧ a.rule = rule := by
  constructor
  · intro h
    rw [new] at h
    split at h
    · exact absurd h (by simp)
    · split at h
      · exact absurd h (by simp)
      · obtain rfl := Except.ok.inj h
        exact ⟨rfl, rfl, rfl⟩
  · rintro ⟨rfl, rfl, rfl⟩
    rw [new]
    split
    · rename_i e he
      exact absurd (he.symm.trans a.authorized) (by simp)
    · rename_i matching hm
      rw [dif_neg (not_not.mpr (Except.ok.inj (hm.symm.trans a.authorized)))]

theorem authorizeCommand_eq_ok_iff {a : AuthorizedCommand} :
    authorizeCommand request policy = .ok a ↔ a.request = request ∧ a.policy = policy := by
  rw [authorizeCommand, bind_eq_ok_iff]
  constructor
  · rintro ⟨rule, -, hnew⟩
    obtain ⟨hr, hp, -⟩ := AuthorizedCommand.new_eq_ok_iff.mp hnew
    exact ⟨hr, hp⟩
  · rintro ⟨rfl, rfl⟩
    exact ⟨a.rule, a.authorized, AuthorizedCommand.new_eq_ok_iff.mpr ⟨rfl, rfl, rfl⟩⟩

theorem authorizeCommand_eq_error_iff :
    authorizeCommand request policy = .error e ↔ matchingRule request policy = .error e := by
  rw [authorizeCommand, bind_eq_error_iff, or_iff_left]
  rintro ⟨rule, hm, hnew⟩
  have h := AuthorizedCommand.new_eq_ok_iff.mpr
    (⟨rfl, rfl, rfl⟩ : (AuthorizedCommand.mk request policy rule hm).request = _ ∧ _ ∧ _)
  exact absurd (hnew.symm.trans h) (by simp)

/-- **Authorization is the conjunction of all dimensions of the policy under one rule.** -/
theorem authorizeCommand_exact (request : CommandRequest) (policy : CommandPolicy) :
    ((∃ a, authorizeCommand request policy = .ok a) ↔
        Permits policy request ∧ ∃ rule ∈ policy.rules, Admits request rule) ∧
      (∀ a, authorizeCommand request policy = .ok a → a.request = request ∧ a.policy = policy ∧
        policy.rules.find? (fun rule ↦ Admits request rule) = some a.rule) ∧
      (∀ rule, (∃ a, AuthorizedCommand.new request policy rule = .ok a) ↔
        ∃ a, authorizeCommand request policy = .ok a ∧ a.rule = rule) ∧
      (∀ a : AuthorizedCommand, authorizeCommand a.request a.policy = .ok a) ∧
      ∀ e, authorizeCommand request policy = .error e ↔
        if request.runIdentity.policyHash = policy.policyHash then
          ∃ before p after, dimensions request = before ++ (e, p) :: after ∧
            (before ≠ [] → ∃ rule ∈ policy.rules, PassesAll before rule) ∧
            ∀ rule ∈ policy.rules, PassesAll before rule → p rule = false
        else e = deny .policyHashMismatch "run policy identity changed" := by
  have hok : ∀ a, authorizeCommand request policy = .ok a → Permits policy request ∧
      policy.rules.find? (fun rule ↦ Admits request rule) = some a.rule := by
    intro a h
    obtain ⟨rfl, rfl⟩ := authorizeCommand_eq_ok_iff.mp h
    exact matchingRule_eq_ok_iff.mp a.authorized
  refine ⟨⟨?_, ?_⟩, fun a h ↦ ?_, fun rule ↦ ⟨?_, ?_⟩, fun a ↦ ?_, fun e ↦ ?_⟩
  · rintro ⟨a, h⟩
    obtain ⟨hpermits, hfind⟩ := hok a h
    have hadmits := List.find?_some hfind
    exact ⟨hpermits, a.rule, List.mem_of_find?_eq_some hfind, of_decide_eq_true hadmits⟩
  · rintro ⟨hpermits, rule, hmem, hadmits⟩
    have hsome : (policy.rules.find? fun rule ↦ Admits request rule).isSome :=
      List.find?_isSome.mpr ⟨rule, hmem, decide_eq_true hadmits⟩
    obtain ⟨first, hfirst⟩ := Option.isSome_iff_exists.mp hsome
    exact ⟨⟨request, policy, first, matchingRule_eq_ok_iff.mpr ⟨hpermits, hfirst⟩⟩,
      authorizeCommand_eq_ok_iff.mpr ⟨rfl, rfl⟩⟩
  · obtain ⟨hr, hp⟩ := authorizeCommand_eq_ok_iff.mp h
    exact ⟨hr, hp, (hok a h).2⟩
  · rintro ⟨a, h⟩
    obtain ⟨hr, hp, hrule⟩ := AuthorizedCommand.new_eq_ok_iff.mp h
    exact ⟨a, authorizeCommand_eq_ok_iff.mpr ⟨hr, hp⟩, hrule⟩
  · rintro ⟨a, h, hrule⟩
    obtain ⟨hr, hp⟩ := authorizeCommand_eq_ok_iff.mp h
    exact ⟨a, AuthorizedCommand.new_eq_ok_iff.mpr ⟨hr, hp, hrule⟩⟩
  · exact authorizeCommand_eq_ok_iff.mpr ⟨rfl, rfl⟩
  · rw [authorizeCommand_eq_error_iff, matchingRule_eq_error_iff]

end

end Alicerce
