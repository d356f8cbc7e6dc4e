import Alicerce.Domain.RunIdentity

/-!
# The lifecycle of a run

The monotonic lifecycle policy: the snapshot of a run, the event that records one change of it, and
what computes both.

* `LifecycleState`, `FinalState` and `LifecycleActor` are the values of it.
* `RunLifecycle` and `LifecycleTransition` carry the terminal rule as a field, *a final state is
  there exactly when the run is completed*, so nothing below can build one without it.
* `advanceLifecycle` checks a change against `allowedNext`, and computes the event and the new
  snapshot.  `advanceLifecycle_eq_ok_iff` says once what an advance is; every later argument about
  advances starts from it.
* `LifecycleTransition.Continues` and `LifecycleTransition.Legal` are what an event is to the
  snapshot it starts from, without and with the policy.
* `LifecycleState.rank` grows with every allowed transition, which is why no history is longer than
  `maxRevision`.
-/

set_option autoImplicit false

namespace Alicerce

open Py

/-! ## States, final states and actors -/

/-- Internal working states that are never canonical final states. -/
inductive LifecycleState
  | contractBound
  | workspacePrepared
  | building
  | verifying
  | deciding
  | reviewPending
  | completed
deriving DecidableEq

namespace LifecycleState

/-- The members, in the order of their definition. -/
def members : List LifecycleState :=
  [contractBound, workspacePrepared, building, verifying, deciding, reviewPending, completed]

/-- `.value`. -/
def value : LifecycleState → Text
  | contractBound => "contract_bound"
  | workspacePrepared => "workspace_prepared"
  | building => "building"
  | verifying => "verifying"
  | deciding => "deciding"
  | reviewPending => "review_pending"
  | completed => "completed"

/-- `LifecycleState(value)`. -/
def new [Interpreter] (t : Text) : Except Exc LifecycleState :=
  match members.find? (fun s ↦ s.value == t) with
  | some s => .ok s
  | none => .error (.valueError
      (Interpreter.textRepr t ++ text " is not a valid LifecycleState"))

theorem find?_value (s : LifecycleState) :
    (members.find? fun s' ↦ s'.value == s.value) = some s := by
  cases s <;> decide

theorem new_eq_ok_iff [Interpreter] {t : Text} {s : LifecycleState} :
    new t = .ok s ↔ s.value = t := by
  rw [new]
  constructor
  · intro h
    split at h
    · rename_i hs
      rw [← Except.ok.inj h]
      exact beq_iff_eq.mp (List.find?_some (p := fun s : LifecycleState ↦ s.value == t) hs)
    · exact absurd h (by simp)
  · rintro rfl
    rw [find?_value]

theorem encodable_value (s : LifecycleState) : Encodable s.value := by
  cases s <;> exact encodable_text _

/-- How far along a state is. -/
def rank : LifecycleState → ℕ
  | contractBound => 0
  | workspacePrepared => 1
  | building => 2
  | verifying => 3
  | deciding => 4
  | reviewPending => 5
  | completed => 6

end LifecycleState

/-- The canonical final states, `FINAL_STATES`. -/
inductive FinalState
  | succeeded
  | noOp
  | noProgress
  | verifyFailed
  | policyBlocked
  | budgetExceeded
  | escalated
  | infraFailed
deriving DecidableEq

namespace FinalState

/-- `FINAL_STATES`. -/
def members : List FinalState :=
  [succeeded, noOp, noProgress, verifyFailed, policyBlocked, budgetExceeded, escalated, infraFailed]

/-- The text a final state is. -/
def value : FinalState → Text
  | succeeded => "SUCCEEDED"
  | noOp => "NO_OP"
  | noProgress => "NO_PROGRESS"
  | verifyFailed => "VERIFY_FAILED"
  | policyBlocked => "POLICY_BLOCKED"
  | budgetExceeded => "BUDGET_EXCEEDED"
  | escalated => "ESCALATED"
  | infraFailed => "INFRA_FAILED"

theorem find?_value (f : FinalState) : (members.find? fun f' ↦ f'.value == f.value) = some f := by
  cases f <;> decide

theorem encodable_value (f : FinalState) : Encodable f.value := by
  cases f <;> exact encodable_text _

end FinalState

/-- `_require_final_state`. -/
def requireFinalState (value : Text) : Except Exc FinalState :=
  match FinalState.members.find? (fun f ↦ f.value == value) with
  | some f => .ok f
  | none => .error (.typeError "final_state must be a canonical FinalState")

theorem requireFinalState_eq_ok_iff {t : Text} {f : FinalState} :
    requireFinalState t = .ok f ↔ f.value = t := by
  rw [requireFinalState]
  constructor
  · intro h
    split at h
    · rename_i hf
      rw [← Except.ok.inj h]
      exact beq_iff_eq.mp (List.find?_some (p := fun f : FinalState ↦ f.value == t) hf)
    · exact absurd h (by simp)
  · rintro rfl
    rw [FinalState.find?_value]

/-- `[a-z][a-z0-9._-]{0,63}\Z`. -/
def actorPattern : Text → Bool :=
  matchesHeadTail (range 'a' 'z') (((range 'a' 'z').or (range '0' '9')).or (oneOf "._-")) 63

/-- What the constructor of `LifecycleActor` checks. -/
def requireActor (value : Text) : Except Exc Text :=
  if actorPattern value then .ok value else .error (.valueError "actor has an invalid format")

/-- Trusted component identity attributed to a transition. -/
abbrev LifecycleActor := Checked requireActor

theorem LifecycleActor.encodable (x : LifecycleActor) : Encodable x.value := by
  have hvalid := x.valid
  rw [requireActor] at hvalid
  split at hvalid
  · rename_i h
    exact encodable_of_matchesHeadTail (range_ascii (by decide))
      (((range_ascii (by decide)).or (range_ascii (by decide))).or (oneOf_ascii (by decide))) h
  · exact absurd hvalid (by simp [Except.isOk, Except.toBool])

/-! ## The terminal rule -/

/-- A final state stands beside a state exactly when the state is the completed one. -/
def Terminal (state : LifecycleState) (finalState : Option FinalState) : Prop :=
  finalState.isSome = true ↔ state = .completed

instance (state : LifecycleState) (finalState : Option FinalState) :
    Decidable (Terminal state finalState) :=
  inferInstanceAs (Decidable (_ ↔ _))

/-- The terminal rule as the two constructors enforce it, which differ in the word they use for
the thing the rule is about. -/
def requireTerminal (required forbidden : Text) (state : LifecycleState)
    (finalState : Option Text) : Except Exc (Option FinalState) :=
  if state = .completed then
    match finalState with
    | none => .error (.lifecycleError .finalStateRequired required)
    | some f => (requireFinalState f).map some
  else if finalState.isSome then .error (.lifecycleError .finalStateForbidden forbidden)
  else .ok none

/-- The text of an optional final state. -/
def finalText (f : Option FinalState) : Option Text := f.map FinalState.value

theorem finalText_injective : Function.Injective finalText := by
  refine Option.map_injective fun f g h ↦ ?_
  have hf := FinalState.find?_value f
  rw [h, FinalState.find?_value g] at hf
  exact (Option.some.inj hf).symm

theorem requireTerminal_eq_ok_iff {required forbidden : Text} {state : LifecycleState}
    {raw : Option Text} {f : Option FinalState} :
    requireTerminal required forbidden state raw = .ok f ↔ Terminal state f ∧
    finalText f = raw := by
  rw [requireTerminal.eq_def, Terminal]
  split
  · rename_i hs
    cases raw with
    | none => cases f <;> simp [finalText, hs]
    | some t =>
      simp only [hs]
      cases f with
      | none => cases requireFinalState t <;> simp [Except.map, finalText]
      | some f =>
        rw [finalText, Option.map_some, Option.some_inj, ← requireFinalState_eq_ok_iff]
        cases requireFinalState t <;> simp [Except.map]
  · rename_i hs
    cases raw <;> cases f <;> simp [finalText, hs]

theorem mapM_requireFinalState (f : Option FinalState) :
    (finalText f).mapM requireFinalState = .ok f := by
  cases f with
  | none => rfl
  | some f =>
    rw [finalText, Option.map_some, Option.mapM_some, requireFinalState_eq_ok_iff.mpr rfl]
    rfl

/-! ## Snapshots and events -/

/-- `_require_revision`. -/
def requireRevision (value : ℤ) : Except Exc ℕ :=
  if value < 0 then .error (.valueError "revision must be non-negative") else .ok value.toNat

theorem requireRevision_eq_ok_iff {value : ℤ} {n : ℕ} :
    requireRevision value = .ok n ↔ value = n := by
  rw [requireRevision]
  split
  · simp; omega
  · rw [Except.ok.injEq]; omega

@[simp] theorem requireRevision_natCast (n : ℕ) : requireRevision n = .ok n :=
  requireRevision_eq_ok_iff.mpr rfl

/-- Immutable current lifecycle snapshot for one run. -/
@[ext]
structure RunLifecycle where
  runId : RunId
  state : LifecycleState
  revision : ℕ
  /-- In UTC. -/
  updatedAt : CivilTime
  finalState : Option FinalState
  /-- A final state is there exactly when the run is completed. -/
  terminal : Terminal state finalState
deriving DecidableEq

/-- The constructor. -/
def RunLifecycle.new (runId : RunId) (state : LifecycleState) (revision : ℤ)
    (updatedAt : DateTime) (finalState : Option Text) : Except Exc RunLifecycle := do
  let revision ← requireRevision revision
  let updatedAt ← requireUtc "updated_at" updatedAt
  match h : requireTerminal "completed lifecycle requires a canonical final state"
    "non-terminal lifecycle cannot carry a final state" state finalState with
  | .ok f => .ok ⟨runId, state, revision, updatedAt, f, (requireTerminal_eq_ok_iff.mp h).1⟩
  | .error e => .error e

/-- What the constructor accepts is what the snapshot holds. -/
theorem RunLifecycle.new_eq_ok_iff {runId : RunId} {state : LifecycleState} {revision : ℤ}
    {updatedAt : DateTime} {finalState : Option Text} {l : RunLifecycle} :
    RunLifecycle.new runId state revision updatedAt finalState = .ok l ↔
      l.runId = runId ∧ l.state = state ∧ (l.revision : ℤ) = revision ∧
        utc l.updatedAt = updatedAt ∧ finalText l.finalState = finalState := by
  rw [RunLifecycle.new]
  constructor
  · intro h
    obtain ⟨n, hn, h⟩ := bind_eq_ok_iff.mp h
    obtain ⟨t, ht, h⟩ := bind_eq_ok_iff.mp h
    split at h
    · rename_i hf
      rw [← Except.ok.inj h]
      exact ⟨rfl, rfl, (requireRevision_eq_ok_iff.mp hn).symm, (requireUtc_eq_ok_iff.mp ht).symm,
        (requireTerminal_eq_ok_iff.mp hf).2⟩
    · exact absurd h (by simp)
  · rintro ⟨rfl, rfl, rfl, rfl, rfl⟩
    rw [requireRevision_natCast, ok_bind, requireUtc_utc, ok_bind]
    split
    · rename_i f hf
      have hfin := finalText_injective (requireTerminal_eq_ok_iff.mp hf).2
      rw [Except.ok.injEq]
      exact RunLifecycle.ext rfl rfl rfl rfl hfin
    · rename_i e he
      rw [requireTerminal_eq_ok_iff.mpr ⟨l.terminal, rfl⟩] at he
      exact absurd he (by simp)

/-- Immutable attributed event for one accepted state change. -/
@[ext]
structure LifecycleTransition where
  runId : RunId
  revision : ℕ
  fromState : LifecycleState
  toState : LifecycleState
  /-- In UTC. -/
  occurredAt : CivilTime
  actor : LifecycleActor
  finalState : Option FinalState
  /-- A final state is there exactly when the event completes the run. -/
  terminal : Terminal toState finalState
deriving DecidableEq

/-- The constructor. -/
def LifecycleTransition.new (runId : RunId) (revision : ℤ) (fromState toState : LifecycleState)
    (occurredAt : DateTime) (actor : LifecycleActor) (finalState : Option Text) :
    Except Exc LifecycleTransition := do
  let revision ← requireRevision revision
  let occurredAt ← requireUtc "occurred_at" occurredAt
  match h : requireTerminal "completion event requires a canonical final state"
    "non-terminal event cannot carry a final state" toState finalState with
  | .ok f =>
    .ok ⟨runId, revision, fromState, toState, occurredAt, actor, f,
      (requireTerminal_eq_ok_iff.mp h).1⟩
  | .error e => .error e

/-- What the constructor accepts is what the event holds. -/
theorem LifecycleTransition.new_eq_ok_iff {runId : RunId} {revision : ℤ}
    {fromState toState : LifecycleState} {occurredAt : DateTime} {actor : LifecycleActor}
    {finalState : Option Text} {t : LifecycleTransition} :
    LifecycleTransition.new runId revision fromState toState occurredAt actor finalState = .ok t ↔
      t.runId = runId ∧ (t.revision : ℤ) = revision ∧ t.fromState = fromState ∧
        t.toState = toState ∧ utc t.occurredAt = occurredAt ∧ t.actor = actor ∧
        finalText t.finalState = finalState := by
  rw [LifecycleTransition.new]
  constructor
  · intro h
    obtain ⟨n, hn, h⟩ := bind_eq_ok_iff.mp h
    obtain ⟨u, hu, h⟩ := bind_eq_ok_iff.mp h
    split at h
    · rename_i hf
      rw [← Except.ok.inj h]
      exact ⟨rfl, (requireRevision_eq_ok_iff.mp hn).symm, rfl, rfl,
        (requireUtc_eq_ok_iff.mp hu).symm, rfl, (requireTerminal_eq_ok_iff.mp hf).2⟩
    · exact absurd h (by simp)
  · rintro ⟨rfl, rfl, rfl, rfl, rfl, rfl, rfl⟩
    rw [requireRevision_natCast, ok_bind, requireUtc_utc, ok_bind]
    split
    · rename_i f hf
      have hfin := finalText_injective (requireTerminal_eq_ok_iff.mp hf).2
      rw [Except.ok.injEq]
      exact LifecycleTransition.ext rfl rfl rfl rfl rfl rfl hfin
    · rename_i e he
      rw [requireTerminal_eq_ok_iff.mpr ⟨t.terminal, rfl⟩] at he
      exact absurd he (by simp)

/-- New snapshot and the event that produced it. -/
@[ext]
structure LifecycleAdvance where
  lifecycle : RunLifecycle
  transition : LifecycleTransition
deriving DecidableEq

/-! ## Starting and advancing -/

/-- `start_lifecycle`. -/
def startLifecycle (identity : RunIdentity) : RunLifecycle where
  runId := identity.runId
  state := .contractBound
  revision := 0
  updatedAt := identity.createdAt
  finalState := none
  terminal := by decide

/-- `_ALLOWED_NEXT`. -/
def allowedNext : LifecycleState → List LifecycleState
  | .contractBound => [.workspacePrepared, .completed]
  | .workspacePrepared => [.building, .completed]
  | .building => [.verifying, .completed]
  | .verifying => [.deciding, .completed]
  | .deciding => [.reviewPending, .completed]
  | .reviewPending => [.completed]
  | .completed => []

/-- `advance_lifecycle`. -/
def advanceLifecycle (current : RunLifecycle) (toState : LifecycleState) (occurredAt : DateTime)
    (actor : LifecycleActor) (finalState : Option Text) : Except Exc LifecycleAdvance := do
  let instant ← requireUtc "occurred_at" occurredAt
  if current.state = .completed then
    .error (.lifecycleError .terminalState "completed lifecycle cannot transition")
  else if toState ∉ allowedNext current.state then
    .error (.lifecycleError .invalidTransition
      (current.state.value ++ text " cannot transition to " ++ toState.value))
  else if instant < current.updatedAt then
    .error (.lifecycleError .timeRegression
      "transition time cannot precede current snapshot time")
  else if toState = .completed ∧ finalState = none then
    .error (.lifecycleError .finalStateRequired "completion requires a canonical final state")
  else if toState ≠ .completed ∧ finalState ≠ none then
    .error (.lifecycleError .finalStateForbidden
      "only completion may carry a canonical final state")
  else do
    let _ ← finalState.mapM requireFinalState
    let revision := current.revision + 1
    let transition ← LifecycleTransition.new current.runId revision current.state toState
      occurredAt actor finalState
    let updated ← RunLifecycle.new current.runId toState revision occurredAt finalState
    .ok ⟨updated, transition⟩

/-! ## What an advance is -/

/-- The snapshot an event leads to. -/
def LifecycleTransition.snapshot (t : LifecycleTransition) : RunLifecycle :=
  ⟨t.runId, t.toState, t.revision, t.occurredAt, t.finalState, t.terminal⟩

/-- An event continues a snapshot: it is about the same run, it bears the next revision, it starts
from the state reached, and it is not earlier. -/
structure LifecycleTransition.Continues (t : LifecycleTransition) (current : RunLifecycle) :
    Prop where
  runId : t.runId = current.runId
  revision : t.revision = current.revision + 1
  fromState : t.fromState = current.state
  time : current.updatedAt ≤ t.occurredAt

/-- An event is legal after a snapshot when it continues it along an allowed transition. -/
structure LifecycleTransition.Legal (t : LifecycleTransition) (current : RunLifecycle) :
    Prop extends t.Continues current where
  allowed : t.toState ∈ allowedNext current.state

/-- **What `advanceLifecycle` returns**: a legal event with the attributes asked for, and the
snapshot it leads to. -/
theorem advanceLifecycle_eq_ok_iff {current : RunLifecycle} {toState : LifecycleState}
    {occurredAt : DateTime} {actor : LifecycleActor} {finalState : Option Text}
    {adv : LifecycleAdvance} :
    advanceLifecycle current toState occurredAt actor finalState = .ok adv ↔
      adv.transition.Legal current ∧ adv.lifecycle = adv.transition.snapshot ∧
        adv.transition.toState = toState ∧ utc adv.transition.occurredAt = occurredAt ∧
        adv.transition.actor = actor ∧ finalText adv.transition.finalState = finalState := by
  constructor
  · intro h
    obtain ⟨instant, hinstant, h⟩ := bind_eq_ok_iff.mp h
    obtain rfl := requireUtc_eq_ok_iff.mp hinstant
    split at h
    · exact absurd h (by simp)
    split at h
    · exact absurd h (by simp)
    split at h
    · exact absurd h (by simp)
    split at h
    · exact absurd h (by simp)
    split at h
    · exact absurd h (by simp)
    rename_i hallowed htime _ _
    obtain ⟨_, -, h⟩ := bind_eq_ok_iff.mp h
    obtain ⟨t, ht, h⟩ := bind_eq_ok_iff.mp h
    obtain ⟨l, hl, h⟩ := bind_eq_ok_iff.mp h
    rw [← Except.ok.inj h]
    obtain ⟨hrun, hrev, hfrom, hto, hat, hactor, hfin⟩ := LifecycleTransition.new_eq_ok_iff.mp ht
    obtain ⟨hrun', hstate, hrev', hat', hfin'⟩ := RunLifecycle.new_eq_ok_iff.mp hl
    have hinst : t.occurredAt = instant := congrArg DateTime.civil hat
    refine ⟨⟨⟨hrun, by exact_mod_cast hrev, hfrom, ?_⟩, ?_⟩, ?_, hto, hat, hactor, hfin⟩
    · exact hinst ▸ not_lt.mp htime
    · rw [hto]
      exact not_not.mp hallowed
    · refine RunLifecycle.ext (hrun'.trans hrun.symm) (hstate.trans hto.symm) ?_ ?_ ?_
      · exact_mod_cast hrev'.trans hrev.symm
      · exact congrArg DateTime.civil (hat'.trans hat.symm)
      · exact finalText_injective (hfin'.trans hfin.symm)
  · rintro ⟨⟨⟨hrun, hrev, hfrom, htime⟩, hallowed⟩, hsnap, rfl, rfl, rfl, rfl⟩
    have hopen : current.state ≠ .completed := by
      intro h
      rw [h] at hallowed
      exact absurd hallowed (by simp [allowedNext])
    have hterm := adv.transition.terminal
    rw [Terminal] at hterm
    have ht : LifecycleTransition.new current.runId ((current.revision + 1 : ℕ) : ℤ)
        current.state adv.transition.toState (utc adv.transition.occurredAt)
        adv.transition.actor (finalText adv.transition.finalState) = .ok adv.transition :=
      LifecycleTransition.new_eq_ok_iff.mpr
        ⟨hrun, by rw [hrev], hfrom, rfl, rfl, rfl, rfl⟩
    have hl : RunLifecycle.new current.runId adv.transition.toState
        ((current.revision + 1 : ℕ) : ℤ) (utc adv.transition.occurredAt)
        (finalText adv.transition.finalState) = .ok adv.lifecycle := by
      rw [RunLifecycle.new_eq_ok_iff, hsnap]
      exact ⟨hrun, rfl, by rw [← hrev]; rfl, rfl, rfl⟩
    have hnone : finalText adv.transition.finalState = none ↔
        adv.transition.toState ≠ .completed := by
      rw [finalText, Option.map_eq_none_iff, Ne, ← hterm]
      cases adv.transition.finalState <;> simp
    rw [advanceLifecycle, requireUtc_utc, ok_bind, if_neg hopen, if_neg (not_not.mpr hallowed),
      if_neg (not_lt.mpr htime), if_neg (fun h ↦ hnone.mp h.2 h.1),
      if_neg (fun h ↦ h.2 (hnone.mpr h.1)), mapM_requireFinalState, ok_bind]
    simp only [ht, hl, ok_bind]

/-! ## How long a history can get -/

theorem LifecycleState.rank_lt_of_allowed {s s' : LifecycleState} (h : s' ∈ allowedNext s) :
    s.rank < s'.rank := by
  cases s <;> simp only [allowedNext, List.mem_cons, List.not_mem_nil, or_false] at h
  case reviewPending => subst h; decide
  all_goals rcases h with rfl | rfl <;> decide

/-- The largest revision a history of allowed transitions can reach. -/
def maxRevision : ℕ := 6

theorem LifecycleState.rank_le (s : LifecycleState) : s.rank ≤ maxRevision := by
  cases s <;> decide

end Alicerce
