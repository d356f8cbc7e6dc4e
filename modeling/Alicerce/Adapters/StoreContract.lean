import Alicerce.Adapters.StoreReplies

/-!
# The store against the reference of its port

The contract of the state-store port comes with an executable reference: two dictionaries.

* `MemoryStateStore` is the reference, and `Runs.memory` the one that knows the same runs as the
  tables of the store.
* `SameOutcome`: two calls return the same, or raise `StateStoreError`s with the same cause.
* `perform_agrees`: call by call both stores answer alike, but for one, `initialize` of a checkpoint
  that is not initial, for a run that is present (`Request.StartsLate`).  The reference looks for
  the run first, the SQLite store at the checkpoint.
* `agrees_iff` is the comparison over whole sequences of calls.
-/

set_option autoImplicit false

namespace Alicerce

open Py Lib Program Client

/-! ## The reference -/

/-- `MemoryStateStore`. -/
structure MemoryStateStore where
  /-- `_current`. -/
  current : RunId → Option RunCheckpoint
  /-- `_history`. -/
  history : RunId → Option (List LifecycleTransition)

namespace MemoryStateStore

/-- A new store. -/
def empty : MemoryStateStore := ⟨fun _ ↦ none, fun _ ↦ none⟩

/-- The operation `initialize`. -/
def create (checkpoint : RunCheckpoint) (s : MemoryStateStore) :
    Except Exc Unit × MemoryStateStore :=
  let runId := checkpoint.identity.runId
  if (s.current runId).isSome then (.error (.stateStoreError .alreadyExists runId.value), s)
  else if checkpoint ≠ createInitialCheckpoint checkpoint.identity then
    (.error (.stateStoreError .conflict "checkpoint must be the identity-derived initial state"), s)
  else (.ok (), ⟨Function.update s.current runId (some checkpoint),
    Function.update s.history runId (some [])⟩)

/-- `load`. -/
def load (runId : RunId) (s : MemoryStateStore) : Option RunCheckpoint := s.current runId

/-- `compare_and_append`.  The two dictionaries have the same keys, so the list appended to is
there. -/
def compareAndAppend (update : StateUpdate) (s : MemoryStateStore) :
    Except Exc RunCheckpoint × MemoryStateStore :=
  let runId := update.expected.identity.runId
  match s.current runId with
  | none => (.error (.stateStoreError .notFound runId.value), s)
  | some current =>
    if current ≠ update.expected then (.error (.stateStoreError .conflict runId.value), s)
    else
      match s.history runId with
      | none => (.error (.keyError "_history"), s)
      | some events => (.ok update.nextCheckpoint,
        ⟨Function.update s.current runId (some update.nextCheckpoint),
          Function.update s.history runId (some (events ++ [update.advance.transition]))⟩)

/-- The journal of a run. -/
def events (runId : RunId) (s : MemoryStateStore) : Except Exc (List LifecycleTransition) :=
  match s.history runId with
  | none => .error (.stateStoreError .notFound runId.value)
  | some events => .ok events

/-- One call. -/
def perform : Request → MemoryStateStore → Except Exc Reply × MemoryStateStore
  | .create checkpoint, s => ((s.create checkpoint).1.map fun _ ↦ .created, (s.create checkpoint).2)
  | .load runId, s => (.ok (.loaded (s.load runId)), s)
  | .compareAndAppend update, s =>
    ((s.compareAndAppend update).1.map .appended, (s.compareAndAppend update).2)
  | .history runId, s => ((s.events runId).map .events, s)

end MemoryStateStore

/-- The reference that knows the same runs. -/
def Runs.memory (m : Runs) : MemoryStateStore where
  current runId := (m runId).map Run.checkpoint
  history runId := (m runId).map Run.events

theorem Runs.memory_empty : Runs.empty.memory = MemoryStateStore.empty := rfl

theorem Runs.memory_set (m : Runs) (runId : RunId) (run : Run) : (m.set runId run).memory =
    ⟨Function.update m.memory.current runId (some run.checkpoint),
      Function.update m.memory.history runId (some run.events)⟩ := by
  rw [Runs.memory, MemoryStateStore.mk.injEq]
  constructor <;> funext r <;> by_cases hr : r = runId
  · subst hr; simp
  · simp [Runs.set_of_ne _ _ hr, Function.update_of_ne hr, Runs.memory]
  · subst hr; simp
  · simp [Runs.set_of_ne _ _ hr, Function.update_of_ne hr, Runs.memory]

/-! ## One call -/

/-- Two calls return the same, or raise `StateStoreError`s with the same cause. -/
inductive SameOutcome : Except Exc Reply → Except Exc Reply → Prop
  | returned (reply : Reply) : SameOutcome (.ok reply) (.ok reply)
  | raised (cause : StateStoreErrorCause) (detail detail' : Text) :
      SameOutcome (.error (.stateStoreError cause detail)) (.error (.stateStoreError cause detail'))

theorem SameOutcome.refl {x : Except Exc Reply} (h : Typed x) : SameOutcome x x := by
  cases x with
  | ok reply => exact .returned reply
  | error e =>
    cases e with
    | stateStoreError cause detail => exact .raised cause detail detail
    | _ => exact absurd (h _ rfl) (by simp [Exc.isStateStoreError])

/-- A request for what no run starts with. -/
def Request.StartsLate : Request → Prop
  | .create c => c ≠ createInitialCheckpoint c.identity
  | _ => False

/-- A request for a run to start with what it is due to start with. -/
def Request.Starts (r : RunId) : Request → Prop
  | .create c => c = createInitialCheckpoint c.identity ∧ c.identity.runId = r
  | _ => False

/-- What the requests may hold: identities to be stored can be encoded, and updates are prepared. -/
def Request.Admissible : Request → Prop
  | .create c => c.identity.Encodable
  | .compareAndAppend u => u.Prepared
  | _ => True

/-- The replies to a sequence of calls, one after another. -/
def serve {σ : Type} (step : Request → σ → Except Exc Reply × σ) :
    List Request → σ → List (Except Exc Reply)
  | [], _ => []
  | q :: qs, s => (step q s).1 :: serve step qs (step q s).2

/-- Some request starts the run. -/
def Started (r : RunId) (qs : List Request) : Prop := ∃ q ∈ qs, q.Starts r

theorem started_cons {r : RunId} {q : Request} {qs : List Request} :
    Started r (q :: qs) ↔ q.Starts r ∨ Started r qs := by
  simp only [Started, List.mem_cons, exists_eq_or_imp]

section
variable [Interpreter] {db : Database} {m : Runs}

/-- What a faultless call leaves of both stores. -/
structure StepsTogether (q : Request) (db : Database) (m m' : Runs) : Prop where
  represents : Represents (perform Faults.none q db).2 m'
  memory : (m.memory.perform q).2 = m'.memory
  absent : ∀ r, m' r = none ↔ m r = none ∧ ¬q.Starts r
  agree : SameOutcome (perform Faults.none q db).1 (m.memory.perform q).1 ↔
    ¬(q.StartsLate ∧ m q.runId ≠ none)

variable {c : RunCheckpoint} {u : StateUpdate} {run : Run}

/-- Nothing has changed in either store. -/
theorem StepsTogether.unchanged {q : Request} {reply : Except Exc Reply}
    (hm : Represents db m) (hq : ∀ r, m r = none → ¬q.Starts r)
    (hperform : perform Faults.none q db = (reply, db))
    (hmemory : (m.memory.perform q).2 = m.memory)
    (hagree : SameOutcome reply (m.memory.perform q).1 ↔ ¬(q.StartsLate ∧ m q.runId ≠ none)) :
    StepsTogether q db m m where
  represents := by rw [hperform]; exact hm
  memory := hmemory
  absent := fun r ↦ ⟨fun h ↦ ⟨h, hq r h⟩, fun h ↦ h.1⟩
  agree := by rw [hperform]; exact hagree

/-! ### `initialize` -/

theorem create_agrees_of_absent (hm : Represents db m) (henc : c.identity.Encodable)
    (hc : c = createInitialCheckpoint c.identity) (hrun : m c.identity.runId = none) :
    StepsTogether (.create c) db m (m.set c.identity.runId (.start c.identity)) := by
  obtain ⟨db', hperform, hcreated⟩ := perform_create_of_absent hm hc henc hrun
  have hmemory : m.memory.perform (.create c) =
      (.ok .created, (m.set c.identity.runId (.start c.identity)).memory) := by
    have hstart : (Run.start c.identity).checkpoint = c := hc.symm
    rw [MemoryStateStore.perform, MemoryStateStore.create, Runs.memory_set, hstart]
    simp only [Runs.memory, hrun, Option.map_none, Option.isSome_none, Bool.false_eq_true,
      if_false, if_neg (not_not.mpr hc)]
    rfl
  refine ⟨by rw [hperform]; exact (hm.create hcreated).2, by rw [hmemory], fun r ↦ ?_, ?_⟩
  · by_cases hr : r = c.identity.runId
    · subst hr
      rw [Runs.set_self]
      exact iff_of_false (by simp) fun h ↦ h.2 ⟨hc, rfl⟩
    · rw [Runs.set_of_ne _ _ hr]
      exact ⟨fun h ↦ ⟨h, fun h' ↦ hr h'.2.symm⟩, fun h ↦ h.1⟩
  · rw [hperform, hmemory]
    exact iff_of_true (.returned _) fun h ↦ h.1 hc

theorem create_agrees_of_present (hm : Represents db m)
    (hc : c = createInitialCheckpoint c.identity) (hrun : m c.identity.runId = some run) :
    StepsTogether (.create c) db m m := by
  have hmemory : m.memory.perform (.create c) =
      (.error (.stateStoreError .alreadyExists c.identity.runId.value), m.memory) := by
    rw [MemoryStateStore.perform, MemoryStateStore.create]
    simp only [Runs.memory, hrun, Option.map_some, Option.isSome_some, if_true]
    rfl
  refine .unchanged hm ?_ (perform_create_of_present hm hc hrun) (by rw [hmemory]) ?_
  · rintro r h ⟨-, rfl⟩
    exact absurd (hrun.symm.trans h) (by simp)
  · rw [hmemory]
    exact iff_of_true (.raised _ _ _) fun h ↦ h.1 hc

/-- Here the stores look in different orders: the reference first for the run, the SQLite store
first at the checkpoint. -/
theorem create_agrees_of_not_initial (hm : Represents db m)
    (hc : c ≠ createInitialCheckpoint c.identity) : StepsTogether (.create c) db m m := by
  have hmemory : m.memory.perform (.create c) =
      (.error (if (m c.identity.runId).isSome then
        .stateStoreError .alreadyExists c.identity.runId.value
      else .stateStoreError .conflict "checkpoint must be the identity-derived initial state"),
        m.memory) := by
    rw [MemoryStateStore.perform, MemoryStateStore.create]
    simp only [Runs.memory, Option.isSome_map, if_pos hc]
    split <;> rfl
  refine .unchanged hm (fun r _ h ↦ hc h.1) (perform_create_of_not_initial hc) (by rw [hmemory]) ?_
  rw [hmemory]
  cases hrun : m c.identity.runId with
  | none => exact iff_of_true (.raised _ _ _) fun h ↦ h.2 hrun
  | some run =>
    refine iff_of_false (fun h ↦ ?_) fun h ↦ h ⟨hc, by simp [Request.runId, hrun]⟩
    cases h

/-! ### `compare_and_append` -/

theorem append_agrees_of_expected (hm : Represents db m) (hlegal : u.Legal)
    (hrun : m u.runId = some run) (hexpected : run.checkpoint = u.expected) :
    StepsTogether (.compareAndAppend u) db m (m.set u.runId (run.append u hexpected hlegal)) := by
  obtain ⟨db', hperform, happended⟩ := perform_append_of_expected hm hrun hexpected
  obtain ⟨run', hrun', hexpected', hm'⟩ := hm.append happended
  obtain rfl := Option.some.inj (hrun.symm.trans hrun')
  have hmemory : m.memory.perform (.compareAndAppend u) = (.ok (.appended u.nextCheckpoint),
      (m.set u.runId (run.append u hexpected hlegal)).memory) := by
    have hcurrent : m.memory.current u.expected.identity.runId = some u.expected := by
      change (m u.runId).map _ = _
      rw [hrun, Option.map_some, hexpected]
    have hhistory : m.memory.history u.expected.identity.runId = some run.events := by
      change (m u.runId).map _ = _
      rw [hrun, Option.map_some]
    rw [MemoryStateStore.perform, MemoryStateStore.compareAndAppend, Runs.memory_set]
    simp only [hcurrent, hhistory, ne_eq, not_true_eq_false, if_false]
    rfl
  refine ⟨by rw [hperform]; exact hm' hlegal, by rw [hmemory], fun r ↦ ?_, ?_⟩
  · by_cases hr : r = u.runId
    · subst hr
      rw [Runs.set_self, hrun]
      exact iff_of_false (by simp) fun h ↦ absurd h.1 (by simp)
    · rw [Runs.set_of_ne _ _ hr]
      exact ⟨fun h ↦ ⟨h, id⟩, fun h ↦ h.1⟩
  · rw [hperform, hmemory]
    exact iff_of_true (.returned _) fun h ↦ h.1

theorem append_agrees_of_ne (hm : Represents db m)
    (hne : (m u.runId).map Run.checkpoint ≠ some u.expected) :
    StepsTogether (.compareAndAppend u) db m m := by
  have hmemory : m.memory.perform (.compareAndAppend u) = (.error (.stateStoreError
      (if (m u.runId).isSome then .conflict else .notFound) u.runId.value), m.memory) := by
    have hcurrent : m.memory.current u.expected.identity.runId = (m u.runId).map Run.checkpoint :=
      rfl
    rw [MemoryStateStore.perform, MemoryStateStore.compareAndAppend]
    cases hrun : m u.runId with
    | none =>
      rw [hrun, Option.map_none] at hcurrent
      simp only [hcurrent]
      rfl
    | some run =>
      rw [hrun, Option.map_some] at hcurrent
      rw [hrun, Option.map_some, Option.some_inj.ne] at hne
      simp only [hcurrent, if_pos hne]
      rfl
  refine .unchanged hm (fun _ _ h ↦ h) (perform_append_of_ne hm hne) (by rw [hmemory]) ?_
  rw [hmemory]
  exact iff_of_true (.raised _ _ _) fun h ↦ h.1

/-! ### The readers -/

theorem load_agrees (hm : Represents db m) (runId : RunId) :
    StepsTogether (.load runId) db m m := by
  refine .unchanged hm (fun _ _ h ↦ h) (perform_load Faults.none runId db) rfl ?_
  rw [show StoreEnv.snapshot db Faults.none = Quiet db from rfl, load_of_represents hm]
  exact iff_of_true (.returned _) fun h ↦ h.1

theorem history_agrees (hm : Represents db m) (runId : RunId) :
    StepsTogether (.history runId) db m m := by
  refine .unchanged hm (fun _ _ h ↦ h) (perform_history Faults.none runId db) rfl ?_
  rw [show StoreEnv.snapshot db Faults.none = Quiet db from rfl, history_of_represents hm,
    MemoryStateStore.perform, MemoryStateStore.events]
  refine iff_of_true ?_ fun h ↦ h.1
  simp only [Runs.memory]
  cases m runId with
  | none => exact .raised _ _ _
  | some run => exact .returned _

/-- **One call, on both stores.**  They go on to know the same runs, and they answer alike, unless
the call is one to start a run that is present with something else. -/
theorem perform_agrees (hm : Represents db m) (q : Request) (hq : q.Admissible) :
    ∃ m', StepsTogether q db m m' := by
  cases q with
  | create c =>
    by_cases hc : c = createInitialCheckpoint c.identity
    · cases hrun : m c.identity.runId with
      | none => exact ⟨_, create_agrees_of_absent hm hq hc hrun⟩
      | some run => exact ⟨m, create_agrees_of_present hm hc hrun⟩
    · exact ⟨m, create_agrees_of_not_initial hm hc⟩
  | load runId => exact ⟨m, load_agrees hm runId⟩
  | compareAndAppend u =>
    by_cases hexpected : (m u.runId).map Run.checkpoint = some u.expected
    · obtain ⟨run, hrun, hexpected⟩ := Option.map_eq_some_iff.mp hexpected
      exact ⟨_, append_agrees_of_expected hm (StateUpdate.prepared_iff.mp hq) hrun hexpected⟩
    · exact ⟨m, append_agrees_of_ne hm hexpected⟩
  | history runId => exact ⟨m, history_agrees hm runId⟩

/-! ## Sequences of calls -/

/-- The induction is on the requests; what is present is what was present before or has been
started. -/
theorem serve_agrees_iff : ∀ {qs : List Request} {db : Database} {m : Runs}, Represents db m →
    (∀ q ∈ qs, q.Admissible) →
    (List.Forall₂ SameOutcome (serve (perform Faults.none) qs db)
        (serve MemoryStateStore.perform qs m.memory) ↔
      ∀ before q after, qs = before ++ q :: after → q.StartsLate →
        m q.runId = none ∧ ¬Started q.runId before)
  | [], _, _, _, _ => by
    refine iff_of_true .nil fun before q after h ↦ ?_
    exact absurd h.symm (List.append_ne_nil_of_right_ne_nil _ (List.cons_ne_nil _ _))
  | q :: qs, db, m, hm, hqs => by
    obtain ⟨m', hstep⟩ := perform_agrees hm q (hqs q (List.mem_cons_self ..))
    rw [serve, serve, List.forall₂_cons, hstep.agree, hstep.memory,
      serve_agrees_iff hstep.represents fun q' hq' ↦ hqs q' (List.mem_cons_of_mem _ hq')]
    constructor
    · rintro ⟨hhead, htail⟩ before q' after hsplit hlate
      rcases List.cons_eq_append_iff.mp hsplit with ⟨rfl, heq⟩ | ⟨rest, rfl, rfl⟩
      · obtain ⟨rfl, rfl⟩ := List.cons.inj heq
        refine ⟨not_not.mp fun hne ↦ hhead ⟨hlate, hne⟩, ?_⟩
        rintro ⟨_, hmem, -⟩
        exact absurd hmem List.not_mem_nil
      · obtain ⟨habsent, hnot⟩ := htail rest q' after rfl hlate
        rw [hstep.absent] at habsent
        exact ⟨habsent.1, fun h ↦ (started_cons.mp h).elim habsent.2 hnot⟩
    · intro h
      refine ⟨fun ⟨hlate, hne⟩ ↦ hne (h [] q qs rfl hlate).1, fun before q' after hsplit hlate ↦ ?_⟩
      obtain ⟨habsent, hnot⟩ := h (q :: before) q' after (by rw [hsplit]; rfl) hlate
      rw [started_cons, not_or] at hnot
      exact ⟨(hstep.absent _).mpr ⟨habsent, hnot.1⟩, hnot.2⟩

/-- **When the store refines the reference of its port**: over a sequence of calls whose updates are
prepared and whose new identities can be encoded, every call returns the same value or fails with
the same cause in both stores, exactly when no call asks to start a run with something else than its
initial checkpoint after the run has been started. -/
theorem agrees_iff {qs : List Request} (hqs : ∀ q ∈ qs, q.Admissible) :
    List.Forall₂ SameOutcome (serve (perform Faults.none) qs .empty)
        (serve MemoryStateStore.perform qs .empty) ↔
      ∀ before q after, qs = before ++ q :: after → q.StartsLate → ¬Started q.runId before := by
  rw [← Runs.memory_empty, serve_agrees_iff represents_empty hqs]
  simp only [Runs.empty, true_and]

end

/-- The initial checkpoint, asked for twice, and an update. -/
def storeRequests (identity : RunIdentity) : List Request :=
  [.create (createInitialCheckpoint identity), .create (createInitialCheckpoint identity),
    .load identity.runId,
    .compareAndAppend (.fromStart identity storeActor .workspacePrepared (by decide)),
    .history identity.runId]

theorem agrees_iff_storeRequests : let _ := Interpreter.plain
    List.Forall₂ SameOutcome
      (serve (perform Faults.none) (storeRequests (storeIdentity qualityLoop)) .empty)
      (serve MemoryStateStore.perform (storeRequests (storeIdentity qualityLoop)) .empty) := by
  let _ := Interpreter.plain
  refine (agrees_iff ?_).mpr fun before q after hsplit hlate ↦ ?_
  · simp only [storeRequests, List.forall_mem_cons, Request.Admissible, List.not_mem_nil,
      false_imp_iff, implies_true, and_true, true_and]
    exact ⟨⟨by decide, by decide⟩, ⟨by decide, by decide⟩,
      StateUpdate.prepared_iff.mpr (StateUpdate.legal_fromStart _ _)⟩
  · have hq : q ∈ storeRequests (storeIdentity qualityLoop) := by
      rw [hsplit]
      exact List.mem_append_right _ (List.mem_cons_self ..)
    simp only [storeRequests, List.mem_cons, List.not_mem_nil, or_false] at hq
    rcases hq with rfl | rfl | rfl | rfl | rfl <;> exact absurd hlate (by simp [Request.StartsLate,
      createInitialCheckpoint])

/-- Two calls that the stores answer differently: a run is created, and then asked to be created in
a later state.  The reference reports that it exists already, the SQLite store a conflict. -/
theorem conflict_for_present_run : let _ := Interpreter.plain
    ¬List.Forall₂ SameOutcome
      (serve (perform Faults.none) [.create (createInitialCheckpoint (storeIdentity qualityLoop)),
        .create (StateUpdate.fromStart (storeIdentity qualityLoop) storeActor .workspacePrepared
          (by decide)).nextCheckpoint] .empty)
      (serve MemoryStateStore.perform
        [.create (createInitialCheckpoint (storeIdentity qualityLoop)),
        .create (StateUpdate.fromStart (storeIdentity qualityLoop) storeActor .workspacePrepared
          (by decide)).nextCheckpoint] .empty) := by
  intro _ hagree
  refine ((serve_agrees_iff represents_empty ?_).mp hagree [_] _ [] rfl ?_).2
    ⟨_, List.mem_singleton_self _, rfl, rfl⟩
  · simp only [List.forall_mem_cons, Request.Admissible, List.not_mem_nil, false_imp_iff,
      implies_true, and_true]
    exact ⟨⟨by decide, by decide⟩, ⟨by decide, by decide⟩⟩
  · exact fun heq ↦ absurd (congrArg (fun c ↦ c.lifecycle.revision) heq) (by decide)

end Alicerce
