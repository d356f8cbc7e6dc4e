import Alicerce.Adapters.StoreRuns

/-!
# A reader beside the writers

`load` and `history` run no transaction: their two `SELECT`s are two reads, and others may commit in
between.

* `Between` is a reader whose two `SELECT`s see two databases.
* `Between.corrupt`: when the run is there at the first `SELECT` and an update of it is committed
  before the second, the reader holds an old checkpoint against a longer journal and reports a
  healthy run as corrupt.
* `ConsistentRead`: a read does not report corruption, and its result was current at some moment of
  it.
* `torn_read_iff`: that is so exactly when the run was absent at the first `SELECT`, or no update of
  it was committed in between.
-/

set_option autoImplicit false

namespace Alicerce

open Py Lib Program Client

/-- A reader without faults whose two `SELECT`s see two databases. -/
structure Between (env : StoreEnv) (db₁ db₂ : Database) : Prop where
  fault : env.fault = Faults.none
  selectRun : env.committed .selectRun = db₁
  selectTransitions : env.committed .selectTransitions = db₂

theorem Between.connecting {env : StoreEnv} {db₁ db₂ : Database} (h : Between env db₁ db₂) :
    env.connecting = .ok () :=
  StoreEnv.connecting_eq_ok_iff.mpr ⟨congrFun h.fault _, congrFun h.fault _⟩

theorem Between.readerOutcome {α : Type} {env : StoreEnv} {db₁ db₂ : Database}
    (h : Between env db₁ db₂) (x : Except Exc α) :
    readerOutcome env x = x.mapError publicError := by
  rw [Alicerce.readerOutcome, h.connecting]

theorem between_quiet (db : Database) : Between (Quiet db) db db := ⟨rfl, rfl, rfl⟩

section
variable [Interpreter]

/-- A moment in a run of calls, at which a result was the one of a reader on its own. -/
def AtSomeMoment {α : Type} (read : Store α) (env : StoreEnv) (db₁ : Database) (during : List Call)
    (db₂ : Database) : Prop :=
  ∃ d₁ d₂ db, during = d₁ ++ d₂ ∧ Steps Performs db₁ d₁ db ∧ Steps Performs db d₂ db₂ ∧
    read.result env = read.result (Quiet db)

/-- A read is consistent: it does not report corruption, and its result was current at some moment
between its first and its last step. -/
def ConsistentRead {α : Type} (read : Store α) (env : StoreEnv) (db₁ : Database)
    (during : List Call) (db₂ : Database) : Prop :=
  (∀ detail, read.result env ≠ .error (corrupt detail)) ∧ AtSomeMoment read env db₁ during db₂

variable {env : StoreEnv} {db₁ db₂ : Database} {r : RunId} {before during : List Call}

/-! ## What the reader sees -/

/-- The readers return what the validation comes to. -/
theorem Between.load_eq (h : Between env db₁ db₂) :
    (load r).result env = (validatedOutcome env r env.committed >>=
      fun validated ↦ .ok (validated.map Prod.fst)).mapError publicError := by
  rw [Store.result, load_run]
  exact h.readerOutcome _

theorem Between.history_eq (h : Between env db₁ db₂) :
    (history r).result env = (validatedOutcome env r env.committed >>=
      fun validated ↦ match validated with
        | none => .error (.stateStoreError .notFound r.value)
        | some (_, events) => .ok events).mapError publicError := by
  rw [Store.result, history_run]
  exact h.readerOutcome _

/-- When the validation comes to what it comes to at the first `SELECT`, so do the readers. -/
theorem Between.atSomeMoment (h : Between env db₁ db₂) (hduring : Steps Performs db₁ during db₂)
    (heq : validatedOutcome env r env.committed =
      validatedOutcome (Quiet db₁) r (Quiet db₁).committed) :
    AtSomeMoment (load r) env db₁ during db₂ ∧ AtSomeMoment (history r) env db₁ during db₂ := by
  refine ⟨⟨[], during, db₁, rfl, .nil _, hduring, ?_⟩, ⟨[], during, db₁, rfl, .nil _, hduring, ?_⟩⟩
  · rw [h.load_eq, (between_quiet db₁).load_eq, heq]
  · rw [h.history_eq, (between_quiet db₁).history_eq, heq]

/-- A moment at which the tables represent runs shows no corruption. -/
theorem Represents.not_corrupt {db : Database} {m : Runs} (hm : Represents db m) (detail : Text) :
    (load r).result (Quiet db) ≠ .error (corrupt detail) ∧
      (history r).result (Quiet db) ≠ .error (corrupt detail) := by
  rw [load_of_represents hm, history_of_represents hm]
  cases m r <;> simp [corrupt]

/-! ## Two reads of one run -/

/-- **The validation of a run between whose two reads updates were committed.**  With none of them
it comes to what is current; with at least one, the old checkpoint does not fit the journal. -/
theorem Between.validatedOutcome {m₁ m₂ : Runs} {run₁ run₂ : Run} {us : List StateUpdate}
    (h : Between env db₁ db₂) (hm₁ : Represents db₁ m₁) (hm₂ : Represents db₂ m₂)
    (hrun₁ : m₁ r = some run₁) (hrun₂ : m₂ r = some run₂)
    (hevents : run₂.events = run₁.events ++ us.map StateUpdate.event) :
    if us = [] then
      validatedOutcome env r env.committed = .ok (some (run₁.checkpoint, run₁.events))
    else ∃ detail, validatedOutcome env r env.committed = .error (corrupt detail) := by
  have hstored₁ := hm₁ r
  have hstored₂ := hm₂ r
  rw [hrun₁] at hstored₁
  rw [hrun₂] at hstored₂
  obtain ⟨b, b', hrow, hb, hb'⟩ := hstored₁.row
  have hselect : (env.committed .selectRun).selectRun r = some (.blob b, .blob b') := by
    rw [h.selectRun, Database.selectRun_eq, hrow]
    rfl
  have hjournal : List.Forall₂ HeldEvent
      ((env.committed .selectTransitions).selectTransitions r) run₂.events := by
    rw [h.selectTransitions]
    exact hstored₂.selectTransitions
  have hf : ∀ k, env.fault k = none := congrFun h.fault
  split
  · rename_i hnil
    rw [hnil, List.map_nil, List.append_nil] at hevents
    exact validatedOutcome_eq_some_iff.mpr ⟨hf _, hf _, _, hselect, hstored₁.runId_eq, ⟨b, rfl, hb⟩,
      ⟨b', rfl, hb'⟩, run₁.history, hevents ▸ hjournal⟩
  · rename_i hne
    refine validatedOutcome_corrupt env (hf _) (hf _) hselect hb hb' hjournal
      fun c events hheld ↦ ?_
    -- the checkpoint is the old one, the events are the new ones: their numbers differ
    obtain ⟨b₁, hb₁, hc⟩ := hheld.checkpoint
    obtain rfl := SqlValue.blob.inj hb₁
    obtain rfl : c = run₁.checkpoint := checkpointCodec.encode_injective hc hb'
    obtain rfl : events = run₂.events :=
      List.right_unique_forall₂' (R := HeldEvent) (fun _ _ _ he he' ↦ he.unique he') hheld.journal
        hjournal
    have hlen := hheld.history.length_eq
    rw [← run₁.history.length_eq, hevents, List.length_append, List.length_map,
      Nat.add_eq_left, List.length_eq_zero_iff] at hlen
    exact hne hlen

/-- A reader of a run that was absent, or of which nothing was committed meanwhile, sees what was
current when it looked first. -/
theorem Between.validatedOutcome_eq {m₁ m₂ : Runs} (h : Between env db₁ db₂)
    (hm₁ : Represents db₁ m₁) (hm₂ : Represents db₂ m₂) (h₁ : Steps Evolves .empty before m₁)
    (h₂ : Steps Evolves m₁ during m₂)
    (hquiet : db₁.selectRun r = none ∨ acceptedUpdates r during = []) :
    Alicerce.validatedOutcome env r env.committed =
      Alicerce.validatedOutcome (Quiet db₁) r (Quiet db₁).committed := by
  have hv : Alicerce.validatedOutcome (Quiet db₁) r (Quiet db₁).committed = _ :=
    validatedOutcome_of_represents hm₁ r
  rw [hv]
  cases hrun₁ : m₁ r with
  | none =>
    have hstored := hm₁ r
    rw [hrun₁] at hstored
    refine validatedOutcome_eq_none_iff.mpr ⟨congrFun h.fault _, ?_⟩
    rw [h.selectRun]
    exact hstored.selectRun_none
  | some run₁ =>
    obtain ⟨run₂, hrun₂, hevents⟩ := events_of_steps h₁ h₂ hrun₁
    have hvalid := h.validatedOutcome hm₁ hm₂ hrun₁ hrun₂ hevents
    rcases hquiet with hnone | hnil
    · have hstored := hm₁ r
      rw [hrun₁] at hstored
      obtain ⟨row, hrow, -⟩ := hstored.selectRun
      exact absurd (hnone.symm.trans hrow) (by simp)
    · rw [if_pos hnil] at hvalid
      exact hvalid

/-- **A reader of a run of which an update was committed meanwhile reports it as corrupt.** -/
theorem Between.corrupt {m₁ m₂ : Runs} (h : Between env db₁ db₂) (hm₁ : Represents db₁ m₁)
    (hm₂ : Represents db₂ m₂) (h₁ : Steps Evolves .empty before m₁)
    (h₂ : Steps Evolves m₁ during m₂) (hpresent : db₁.selectRun r ≠ none)
    (hne : acceptedUpdates r during ≠ []) : ∃ detail,
      (load r).result env = .error (corrupt detail) ∧
        (history r).result env = .error (corrupt detail) := by
  cases hrun₁ : m₁ r with
  | none =>
    have hstored := hm₁ r
    rw [hrun₁] at hstored
    exact absurd hstored.selectRun_none hpresent
  | some run₁ =>
    obtain ⟨run₂, hrun₂, hevents⟩ := events_of_steps h₁ h₂ hrun₁
    have hvalid := h.validatedOutcome hm₁ hm₂ hrun₁ hrun₂ hevents
    rw [if_neg hne] at hvalid
    obtain ⟨detail, hcorrupt⟩ := hvalid
    refine ⟨detail, ?_, ?_⟩
    · rw [h.load_eq, hcorrupt]
      rfl
    · rw [h.history_eq, hcorrupt]
      rfl

/-- **When a read beside writers is consistent**: exactly when the run was absent at the first
`SELECT`, or no update of it was committed between the two.  `before` is what has led to the state
of the first `SELECT`, `during` what others commit between the two. -/
theorem torn_read_iff
    (hprepared : ∀ call ∈ before ++ during, ∀ u, call.request = .compareAndAppend u → u.Prepared)
    (hbefore : Steps Performs .empty before db₁) (hduring : Steps Performs db₁ during db₂)
    (h : Between env db₁ db₂) :
    (ConsistentRead (load r) env db₁ during db₂ ↔
      db₁.selectRun r = none ∨ acceptedUpdates r during = []) ∧
    (ConsistentRead (history r) env db₁ during db₂ ↔
      db₁.selectRun r = none ∨ acceptedUpdates r during = []) := by
  obtain ⟨m₁, m₂, hm₁, hm₂, hsteps₁, hsteps₂⟩ := exists_runs_of_prepared hprepared hbefore hduring
  by_cases hquiet : db₁.selectRun r = none ∨ acceptedUpdates r during = []
  · have heq := h.validatedOutcome_eq hm₁ hm₂ hsteps₁ hsteps₂ hquiet
    obtain ⟨hload, hhistory⟩ := h.atSomeMoment hduring heq
    refine ⟨iff_of_true ⟨fun detail ↦ ?_, hload⟩ hquiet,
      iff_of_true ⟨fun detail ↦ ?_, hhistory⟩ hquiet⟩
    · rw [h.load_eq, heq, ← (between_quiet db₁).load_eq]
      exact (hm₁.not_corrupt detail).1
    · rw [h.history_eq, heq, ← (between_quiet db₁).history_eq]
      exact (hm₁.not_corrupt detail).2
  · obtain ⟨hpresent, hne⟩ := not_or.mp hquiet
    obtain ⟨detail, hload, hhistory⟩ := h.corrupt hm₁ hm₂ hsteps₁ hsteps₂ hpresent hne
    exact ⟨iff_of_false (fun hc ↦ hc.1 detail hload) hquiet,
      iff_of_false (fun hc ↦ hc.1 detail hhistory) hquiet⟩

end

/-- Another run than the one that is read. -/
def otherIdentity : RunIdentity :=
  { storeIdentity qualityLoop with runId := ⟨"run-other", by decide⟩ }

theorem workspacePrepared_ne_completed : LifecycleState.workspacePrepared ≠ .completed := by decide

/-- The update of it. -/
def otherUpdate : StateUpdate :=
  .fromStart otherIdentity storeActor .workspacePrepared workspacePrepared_ne_completed

/-- The reader of a run is not disturbed by an update of another one. -/
theorem torn_read_iff_other : let _ := Interpreter.plain
    ∃ db₁ db₂ db₃ env, Steps Performs .empty [createCall (storeIdentity qualityLoop),
        ⟨.create (createInitialCheckpoint otherIdentity), Quiet db₁, .ok .created⟩] db₂ ∧
      Steps Performs db₂ [appendCall otherUpdate db₂] db₃ ∧ Between env db₂ db₃ ∧
      db₂.selectRun (storeIdentity qualityLoop).runId ≠ none ∧
      ConsistentRead (load (storeIdentity qualityLoop).runId) env db₂ [appendCall otherUpdate db₂]
        db₃ := by
  let _ := Interpreter.plain
  obtain ⟨db₁, h₁, hcreated⟩ := perform_create_of_absent
    (c := createInitialCheckpoint (storeIdentity qualityLoop)) represents_empty rfl
    ⟨by decide, by decide⟩ rfl
  obtain ⟨-, hm₁⟩ := represents_empty.create hcreated
  obtain ⟨db₂, db₃, h₂, hm₂, h₃⟩ := exists_create_append hm₁ otherIdentity ⟨by decide, by decide⟩
    (Runs.set_of_ne _ _ (by decide)) storeActor .workspacePrepared (by decide)
  have hbefore : Steps Performs .empty [createCall (storeIdentity qualityLoop),
      ⟨.create (createInitialCheckpoint otherIdentity), Quiet db₁, .ok .created⟩] db₂ :=
    .cons (performs_quiet h₁) (.cons h₂ (.nil db₂))
  have hduring : Steps Performs db₂ [appendCall otherUpdate db₂] db₃ := .cons h₃ (.nil db₃)
  have hbetween : Between ⟨fun k ↦ if k = .selectTransitions then db₃ else db₂, Faults.none⟩
      db₂ db₃ := ⟨rfl, rfl, rfl⟩
  have hpresent : db₂.selectRun (storeIdentity qualityLoop).runId ≠ none := by
    have hstored := hm₂ (storeIdentity qualityLoop).runId
    rw [Runs.set_of_ne _ _ (by decide), createInitialCheckpoint, Runs.set_self] at hstored
    obtain ⟨row, hrow, -⟩ := hstored.selectRun
    exact fun hnone ↦ absurd (hnone.symm.trans hrow) (by simp)
  refine ⟨db₁, db₂, db₃, _, hbefore, hduring, hbetween, hpresent,
    (torn_read_iff (fun call hcall u hu ↦ ?_) hbefore hduring hbetween).1.mpr (.inr rfl)⟩
  have hlast : call = appendCall otherUpdate db₂ := by
    simp only [List.cons_append, List.nil_append, List.mem_cons, List.not_mem_nil,
      or_false] at hcall
    rcases hcall with rfl | rfl | rfl
    · exact absurd hu (by simp [createCall])
    · exact absurd hu (by simp)
    · rfl
  obtain rfl : otherUpdate = u := by
    rw [hlast] at hu
    exact Request.compareAndAppend.inj hu
  exact StateUpdate.prepared_iff.mpr (StateUpdate.legal_fromStart _ _)

/-- A legal update committed between the two `SELECT`s lets `load` report a healthy run as
corrupt. -/
theorem load_torn : let _ := Interpreter.plain
    ∃ db₁ db₂ env detail, Steps Performs .empty [createCall (storeIdentity qualityLoop)] db₁ ∧
      Steps Performs db₁ [appendCall
        (.fromStart (storeIdentity qualityLoop) storeActor .workspacePrepared (by decide)) db₁]
          db₂ ∧
      Between env db₁ db₂ ∧
      (load (storeIdentity qualityLoop).runId).result env = .error (corrupt detail) := by
  let _ := Interpreter.plain
  obtain ⟨db₁, db₂, h₁, h₂⟩ := exists_run_fromStart (storeIdentity qualityLoop)
    ⟨by decide, by decide⟩ storeActor .workspacePrepared (by decide)
  have hbetween : Between ⟨fun k ↦ if k = .selectTransitions then db₂ else db₁, Faults.none⟩
      db₁ db₂ := ⟨rfl, rfl, rfl⟩
  have hbefore := Steps.cons h₁ (.nil db₁)
  have hduring := Steps.cons h₂ (.nil db₂)
  obtain ⟨m₁, m₂, hm₁, hm₂, hsteps₁, hsteps₂⟩ := exists_runs_of_prepared (fun call hcall u hu ↦ by
    rw [eq_of_mem_calls hcall hu, StateUpdate.prepared_iff]
    exact StateUpdate.legal_fromStart _ _) hbefore hduring
  have hpresent : db₁.selectRun (storeIdentity qualityLoop).runId ≠ none := by
    obtain ⟨row, _, hrow, -⟩ := (h₂.appended rfl rfl).held
    exact fun hnone ↦ absurd (hnone.symm.trans hrow) (by simp)
  obtain ⟨detail, hload, -⟩ := hbetween.corrupt hm₁ hm₂ hsteps₁ hsteps₂ hpresent
    (List.cons_ne_nil _ _)
  exact ⟨db₁, db₂, _, detail, hbefore, hduring, hbetween, hload⟩

end Alicerce
