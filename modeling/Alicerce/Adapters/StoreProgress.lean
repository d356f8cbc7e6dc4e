import Alicerce.Adapters.StoreReads
import Alicerce.Domain.LifecycleRuns

/-!
# Optimistic clients

A client reads a run, prepares an update of what it has read, and asks for it to be appended, while
others do the same.

* `checkpoint_eq_iff`: a checkpoint never comes back, because revisions only grow, so that comparing
  checkpoints is as good as locking the run.
* `append_after_read`: what a client asks for is accepted exactly when nothing of the run was
  accepted since it has read it.
* `runs_finish`: a call is only refused because another one was faster, and at most `maxRevision`
  can be, so the clients of a run cannot keep each other from finishing it.  A run that is not
  completed can be, from the checkpoint that is stored, and a completed one stays as it is.
-/

set_option autoImplicit false

namespace Alicerce

open Py Lib Program Client

section
variable [Interpreter] {db db₀ db₁ db₂ db₃ : Database} {m m₁ m₂ : Runs} {r : RunId}
  {c : RunCheckpoint} {u : StateUpdate} {call : Call} {before reading meanwhile : List Call}

/-! ## What is current -/

/-- What is stored as the checkpoint of a run is what `load` returns when nobody disturbs it. -/
def Stores (db : Database) (r : RunId) (c : RunCheckpoint) : Prop :=
  (load r).result (Quiet db) = .ok (some c)

theorem Represents.stores_iff (hm : Represents db m) :
    Stores db r c ↔ ∃ run, m r = some run ∧ run.checkpoint = c := by
  rw [Stores, load_of_represents hm, Except.ok.injEq, Option.map_eq_some_iff]

omit [Interpreter] in
/-- **A run is at the checkpoint it was at** exactly when nothing was accepted for it since. -/
theorem checkpoint_eq_iff {run₁ run₂ : Run} (h₁ : Steps Evolves .empty before m₁)
    (h₂ : Steps Evolves m₁ meanwhile m₂) (hrun₁ : m₁ r = some run₁) (hrun₂ : m₂ r = some run₂) :
    run₂.checkpoint = run₁.checkpoint ↔ acceptedUpdates r meanwhile = [] := by
  obtain ⟨run, hrun, hevents⟩ := events_of_steps h₁ h₂ hrun₁
  obtain rfl := Option.some.inj (hrun.symm.trans hrun₂)
  constructor
  · intro heq
    have hlength := run.history.length_eq
    rw [heq, ← run₁.history.length_eq, hevents, List.length_append, List.length_map] at hlength
    exact List.length_eq_zero_iff.mp (by omega)
  · intro hnil
    rw [hnil, List.map_nil, List.append_nil] at hevents
    obtain ⟨run', hrun', hidentity⟩ := keeps_identity h₂ hrun₁
    obtain rfl := Option.some.inj (hrun'.symm.trans hrun)
    have hhistory := run'.history
    rw [hevents, hidentity] at hhistory
    exact hhistory.unique run₁.history

/-- A call without a fault, in its place in the order of commits. -/
theorem Performs.faultless (h : Performs db call db₁) (hq : call.request.Writes)
    (hfault : call.env.fault = Faults.none) :
    Alicerce.perform Faults.none call.request db = (call.reply, db₁) := hfault ▸ h.perform hq

/-- What an accepted update leaves is what it led to. -/
theorem Represents.stores_next (hm : Represents db m) (hlegal : u.Legal)
    (happended : Appended u db db₁) : Stores db₁ u.runId u.nextCheckpoint := by
  obtain ⟨run, -, hexpected, hrepr⟩ := hm.append happended
  exact (hrepr hlegal).stores_iff.mpr ⟨_, Runs.set_self _ _ _, rfl⟩

/-- **A call without a fault, on tables that represent runs**: an update is accepted if it expects
what is stored, and stored then, and else refused. -/
theorem Performs.append_cases (hm : Represents db m) (h : Performs db call db₁)
    (hq : call.request = .compareAndAppend u) (hlegal : u.Legal)
    (hfault : call.env.fault = Faults.none) :
    (Stores db u.runId u.expected ∧ call.reply = .ok (.appended u.nextCheckpoint) ∧
      Stores db₁ u.runId u.nextCheckpoint) ∨
    (¬Stores db u.runId u.expected ∧ db₁ = db ∧ call.reply = .error (.stateStoreError
      (if (m u.runId).isSome then .conflict else .notFound) u.runId.value)) := by
  have hwrites : call.request.Writes := by rw [hq]; trivial
  have hperform := h.faultless hwrites hfault
  rw [hq] at hperform
  by_cases hstores : Stores db u.runId u.expected
  · left
    obtain ⟨run, hrun, hexpected⟩ := hm.stores_iff.mp hstores
    obtain ⟨db', haccepted, happended⟩ := perform_append_of_expected hm hrun hexpected
    obtain ⟨hreply, rfl⟩ := Prod.mk.inj (hperform.symm.trans haccepted)
    exact ⟨hstores, hreply, hm.stores_next hlegal happended⟩
  · right
    have hne : (m u.runId).map Run.checkpoint ≠ some u.expected := fun heq ↦
      hstores (hm.stores_iff.mpr (Option.map_eq_some_iff.mp heq))
    obtain ⟨hreply, rfl⟩ := Prod.mk.inj (hperform.symm.trans (perform_append_of_ne hm hne))
    exact ⟨hstores, rfl, hreply⟩

/-- A run that has just been created is at its start. -/
theorem exists_created (identity : RunIdentity) (henc : identity.Encodable) :
    ∃ db m, Performs .empty (createCall identity) db ∧ Represents db m ∧
      m identity.runId = some (.start identity) := by
  obtain ⟨db, h, hcreated⟩ := perform_create_of_absent (c := createInitialCheckpoint identity)
    represents_empty rfl henc rfl
  exact ⟨db, _, performs_quiet h, (represents_empty.create hcreated).2, Runs.set_self _ _ _⟩

/-! ## Read, prepare, append -/

/-- A `load` that returns a checkpoint was not overtaken between its two reads, and returns what was
current at both. -/
theorem Between.checkpoint_read {env : StoreEnv} (h : Between env db₁ db₂) (hm₁ : Represents db₁ m₁)
    (hm₂ : Represents db₂ m₂) (h₁ : Steps Evolves .empty before m₁)
    (h₂ : Steps Evolves m₁ reading m₂) (hread : (load r).result env = .ok (some c)) :
    acceptedUpdates r reading = [] ∧ Stores db₂ r c := by
  cases hrun₁ : m₁ r with
  | none =>
    have hstored := hm₁ r
    rw [hrun₁] at hstored
    have heq := h.validatedOutcome_eq hm₁ hm₂ h₁ h₂ (.inl hstored.selectRun_none)
    rw [h.load_eq, heq, ← (between_quiet db₁).load_eq, load_of_represents hm₁, hrun₁] at hread
    exact absurd hread (by simp)
  | some run₁ =>
    have hpresent : db₁.selectRun r ≠ none := by
      have hstored := hm₁ r
      rw [hrun₁] at hstored
      obtain ⟨row, hrow, -⟩ := hstored.selectRun
      rw [hrow]
      simp
    have hnil : acceptedUpdates r reading = [] := by
      by_contra hne
      obtain ⟨detail, hcorrupt, -⟩ := h.corrupt hm₁ hm₂ h₁ h₂ hpresent hne
      exact absurd (hcorrupt.symm.trans hread) (by simp)
    have heq := h.validatedOutcome_eq hm₁ hm₂ h₁ h₂ (.inr hnil)
    rw [h.load_eq, heq, ← (between_quiet db₁).load_eq] at hread
    obtain ⟨run, hrun, hc⟩ := hm₁.stores_iff.mp hread
    obtain ⟨run₂, hrun₂, -⟩ := keeps_identity h₂ hrun
    exact ⟨hnil, hm₂.stores_iff.mpr
      ⟨run₂, hrun₂, ((checkpoint_eq_iff h₁ h₂ hrun hrun₂).mpr hnil).trans hc⟩⟩

/-- **An update is accepted exactly when nobody was faster.**  The updates that clients ask for are
prepared from any checkpoints, and their calls commit in any order, with any failures.  A `load`,
between whose two reads others commit `reading`, returns a checkpoint; others commit `meanwhile`;
then an update that expects the checkpoint is asked for.

* Nothing was accepted for the run in `reading`.
* If the call succeeds, nothing was accepted for the run in `meanwhile` either.
* If none of its statements fails, it succeeds in that case, and its next checkpoint is stored; in
  the other it raises `CONFLICT`, and the tables stay as they are. -/
theorem append_after_read {env : StoreEnv}
    (hprepared : ∀ other ∈ before ++ reading ++ meanwhile, ∀ u,
      other.request = .compareAndAppend u → u.Prepared)
    (hbefore : Steps Performs .empty before db₀) (hreading : Steps Performs db₀ reading db₁)
    (hmeanwhile : Steps Performs db₁ meanwhile db₂) (hbetween : Between env db₀ db₁)
    (hread : (load r).result env = .ok (some c)) (hu : u.Prepared) (hexpected : u.expected = c)
    (hrun : u.runId = r) (hcall : Performs db₂ call db₃)
    (hrequest : call.request = .compareAndAppend u) :
    acceptedUpdates r reading = [] ∧
    (∀ reply, call.reply = .ok reply → acceptedUpdates r meanwhile = []) ∧
    (call.env.fault = Faults.none →
      if acceptedUpdates r meanwhile = [] then
        call.reply = .ok (.appended u.nextCheckpoint) ∧ Stores db₃ r u.nextCheckpoint
      else call.reply = .error (.stateStoreError .conflict r.value) ∧ db₃ = db₂) := by
  subst hexpected hrun
  have hlegal : u.Legal := StateUpdate.prepared_iff.mp hu
  obtain ⟨m₁, m₂, hm₁, hm₂, h₁, h₂⟩ := exists_runs_of_prepared hprepared
    (Steps.append_iff.mpr ⟨db₀, hbefore, hreading⟩) hmeanwhile
  obtain ⟨m₀, m₁', hm₀, hm₁', h₀, h₀₁⟩ := exists_runs_of_prepared
    (fun other hother ↦ hprepared other (List.mem_append_left _ hother)) hbefore hreading
  obtain ⟨hnil, hstores⟩ := hbetween.checkpoint_read hm₀ hm₁' h₀ h₀₁ hread
  obtain ⟨run₁, hrun₁, hc₁⟩ := hm₁.stores_iff.mp hstores
  obtain ⟨run₂, hrun₂, -⟩ := keeps_identity h₂ hrun₁
  have hcurrent : Stores db₂ u.runId u.expected ↔ acceptedUpdates u.runId meanwhile = [] := by
    rw [← checkpoint_eq_iff h₁ h₂ hrun₁ hrun₂, hm₂.stores_iff, hc₁]
    constructor
    · rintro ⟨run, hrun, hc⟩
      rwa [← Option.some.inj (hrun₂.symm.trans hrun)] at hc
    · exact fun hc ↦ ⟨run₂, hrun₂, hc⟩
  refine ⟨hnil, fun reply hreply ↦ ?_, fun hfault ↦ ?_⟩
  · obtain ⟨run, hrun, hc, -⟩ := hm₂.append (hcall.appended hrequest hreply)
    exact hcurrent.mp (hm₂.stores_iff.mpr ⟨run, hrun, hc⟩)
  · rcases hcall.append_cases hm₂ hrequest hlegal hfault with ⟨h, hreply, hnext⟩ | ⟨h, rfl, hreply⟩
    · rw [if_pos (hcurrent.mp h)]
      exact ⟨hreply, hnext⟩
    · rw [if_neg (mt hcurrent.mpr h)]
      rw [hrun₂, Option.isSome_some, if_pos rfl] at hreply
      exact ⟨hreply, rfl⟩

end

/-- The first update of the run. -/
def firstUpdate : StateUpdate :=
  .fromStart (storeIdentity qualityLoop) storeActor .workspacePrepared
    workspacePrepared_ne_completed

theorem firstUpdate_prepared : firstUpdate.Prepared :=
  StateUpdate.prepared_iff.mpr (StateUpdate.legal_fromStart _ _)

/-- Of two clients that have read the same checkpoint, the second is refused. -/
theorem append_after_read_twice : let _ := Interpreter.plain
    ∃ db₁ db₂, Steps Performs .empty
        [createCall (storeIdentity qualityLoop), appendCall firstUpdate db₁] db₂ ∧
      perform Faults.none (.compareAndAppend firstUpdate) db₂ =
        (.error (.stateStoreError .conflict (storeIdentity qualityLoop).runId.value), db₂) := by
  let _ := Interpreter.plain
  obtain ⟨db₁, m, h₁, hm, hrun⟩ := exists_created (storeIdentity qualityLoop) ⟨by decide, by decide⟩
  obtain ⟨db₂, h₂, -⟩ := perform_append_of_expected (u := firstUpdate) hm hrun rfl
  have hperform : perform Faults.none (.compareAndAppend firstUpdate) db₂ = (_, _) :=
    Prod.mk.eta.symm
  have hprepared : ∀ other ∈ [createCall (storeIdentity qualityLoop)] ++ [] ++
      [appendCall firstUpdate db₁], ∀ u, other.request = .compareAndAppend u → u.Prepared := by
    intro other hother u hu
    rw [eq_of_mem_calls hother hu]
    exact firstUpdate_prepared
  obtain ⟨-, -, hexact⟩ := append_after_read hprepared (.cons h₁ (.nil _)) (.nil _)
    (.cons (performs_quiet h₂) (.nil _)) (between_quiet db₁) (hm.stores_iff.mpr ⟨_, hrun, rfl⟩)
    firstUpdate_prepared rfl rfl (performs_quiet hperform) rfl
  have haccepted : acceptedUpdates (storeIdentity qualityLoop).runId [appendCall firstUpdate db₁] =
      [firstUpdate] := rfl
  have hrefused := hexact rfl
  rw [haccepted, if_neg (by simp)] at hrefused
  exact ⟨db₁, db₂, .cons h₁ (.cons (performs_quiet h₂) (.nil _)), Prod.ext hrefused.1 hrefused.2⟩

/-! ## Finishing a run -/

section
variable [Interpreter] {db : Database} {m : Runs} {r : RunId} {c : RunCheckpoint}

omit [Interpreter] in
/-- Nothing happens to a completed run. -/
theorem eq_nil_of_completed {run₁ run₂ : Run} {us : List StateUpdate}
    (hcompleted : run₁.checkpoint.lifecycle.state = .completed)
    (hidentity : run₂.checkpoint.identity = run₁.checkpoint.identity)
    (hevents : run₂.events = run₁.events ++ us.map StateUpdate.event) : us = [] := by
  have hhistory := run₂.history
  rw [hevents, hidentity] at hhistory
  obtain ⟨c, hbefore, hafter⟩ := Steps.append_iff.mp hhistory
  obtain rfl := run₁.history.unique hbefore
  cases us with
  | nil => rfl
  | cons u us =>
    obtain ⟨c', hstep, -⟩ := Steps.cons_iff.mp hafter
    have hallowed := (advances_iff.mp hstep).1.allowed
    rw [hcompleted] at hallowed
    exact absurd hallowed List.not_mem_nil

/-- What is stored for a run is what the log says of it. -/
theorem Represents.recorded_of_stores {calls : List Call} (hm : Represents db m)
    (h : Steps Evolves .empty calls m) (hstores : Stores db r c) :
    c.identity.runId = r ∧ (acceptedUpdates r calls).length = c.lifecycle.revision := by
  obtain ⟨run, hrun, rfl⟩ := hm.stores_iff.mp hstores
  have hrecorded := recorded_of_steps h r
  rw [hrun] at hrecorded
  obtain ⟨identity, hcreated, hchain, hevents⟩ := hrecorded
  have hmem : identity ∈ creations r calls := by
    rw [hcreated]
    exact List.mem_singleton_self _
  refine ⟨(congrArg RunIdentity.runId hchain.identity_eq).trans (runId_of_mem_creations hmem), ?_⟩
  rw [← run.history.length_eq, hevents, List.length_map]

/-- **The clients of a run cannot keep each other from finishing it.**  Whatever they ask for with
prepared updates, and in whatever order their calls commit, fail or are refused: as many updates of
a run are accepted as its revision says, and that is never more than `maxRevision`.  Once the
checkpoint that is stored is a completed one, nothing more is accepted and it remains stored.  Until
then the run can be completed from it, with any final state, at any time that is no regression, by
one call that meets no failure. -/
theorem runs_finish {calls : List Call}
    (hprepared : ∀ other ∈ calls, ∀ u, other.request = .compareAndAppend u → u.Prepared)
    (h : Steps Performs .empty calls db) (hstores : Stores db r c) :
    (acceptedUpdates r calls).length = c.lifecycle.revision ∧ c.lifecycle.revision ≤ maxRevision ∧
    (c.lifecycle.state = .completed → ∀ more db',
      (∀ other ∈ more, ∀ u, other.request = .compareAndAppend u → u.Prepared) →
      Steps Performs db more db' → acceptedUpdates r more = [] ∧ Stores db' r c) ∧
    (c.lifecycle.state ≠ .completed → ∀ f actor instant, c.lifecycle.updatedAt ≤ instant → ∃ u,
      prepareStateUpdate c .completed (utc instant) actor (some f.value) = .ok u ∧
      u.nextCheckpoint.lifecycle.state = .completed ∧
      u.nextCheckpoint.lifecycle.finalState = some f ∧
      ∀ call db', Performs db call db' → call.request = .compareAndAppend u →
        call.env.fault = Faults.none →
        call.reply = .ok (.appended u.nextCheckpoint) ∧ Stores db' r u.nextCheckpoint) := by
  have hall : ∀ other ∈ calls ++ [], ∀ u, other.request = .compareAndAppend u → u.Prepared := by
    rwa [List.append_nil]
  obtain ⟨m, m', hm, -, hsteps, -⟩ := exists_runs_of_prepared hall h (.nil _)
  obtain ⟨hrun, hlength⟩ := hm.recorded_of_stores hsteps hstores
  obtain ⟨run, hheld, rfl⟩ := hm.stores_iff.mp hstores
  refine ⟨hlength, run.history.revision_le, fun hcompleted more db' hmore hduring ↦ ?_,
    fun hopen f actor instant htime ↦ ?_⟩
  · obtain ⟨m₁, m₂, hm₁, hm₂, h₁, h₂⟩ := exists_runs_of_prepared
      (fun other hother ↦ (List.mem_append.mp hother).elim (hprepared other)
        (hmore other)) h hduring
    obtain ⟨run₁, hrun₁, hc⟩ := hm₁.stores_iff.mp hstores
    obtain ⟨run₂, hrun₂, hidentity⟩ := keeps_identity h₂ hrun₁
    obtain ⟨run', hrun', hevents⟩ := events_of_steps h₁ h₂ hrun₁
    obtain rfl := Option.some.inj (hrun'.symm.trans hrun₂)
    have hnil := eq_nil_of_completed (hc ▸ hcompleted) hidentity hevents
    exact ⟨hnil, hm₂.stores_iff.mpr
      ⟨run', hrun₂, ((checkpoint_eq_iff h₁ h₂ hrun₁ hrun₂).mpr hnil).trans hc⟩⟩
  · obtain ⟨u, hu, hstate, -, hfinal⟩ := completion_prepared hopen f actor htime
    obtain ⟨hlegal, hexpected, -⟩ := prepareStateUpdate_eq_ok_iff.mp hu
    have hrunId : u.runId = r := (congrArg (·.identity.runId) hexpected).trans hrun
    refine ⟨u, hu, hstate, hfinal, fun call db' hcall hrequest hfault ↦ ?_⟩
    rcases hcall.append_cases hm hrequest hlegal hfault with ⟨-, hreply, hnext⟩ | ⟨hnot, -⟩
    · exact ⟨hreply, hrunId ▸ hnext⟩
    · rw [hrunId, hexpected] at hnot
      exact absurd hstores hnot

end

/-- A run that has just been created can be finished at once. -/
theorem runs_finish_created : let _ := Interpreter.plain
    ∃ db u, Steps Performs .empty [createCall (storeIdentity qualityLoop)] db ∧
      u.nextCheckpoint.lifecycle.state = .completed ∧
      Stores (perform Faults.none (.compareAndAppend u) db).2 (storeIdentity qualityLoop).runId
        u.nextCheckpoint := by
  let _ := Interpreter.plain
  obtain ⟨db, m, h, hm, hrun⟩ := exists_created (storeIdentity qualityLoop) ⟨by decide, by decide⟩
  have hstart : Steps Performs .empty [createCall (storeIdentity qualityLoop)] db :=
    .cons h (.nil _)
  have hprepared : ∀ other ∈ [createCall (storeIdentity qualityLoop)], ∀ u,
      other.request = .compareAndAppend u → u.Prepared := by
    intro other hother u hu
    rw [List.mem_singleton.mp hother] at hu
    exact absurd hu (by simp [createCall])
  obtain ⟨-, -, -, hopen⟩ := runs_finish hprepared hstart (hm.stores_iff.mpr ⟨_, hrun, rfl⟩)
  obtain ⟨u, -, hstate, -, hcall⟩ := hopen (by decide) .succeeded storeActor _ (le_refl _)
  exact ⟨db, u, hstart, hstate, (hcall _ _ (performs_quiet (Prod.mk.eta).symm) rfl rfl).2⟩

end Alicerce
