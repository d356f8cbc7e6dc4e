import Alicerce.Adapters.StoreReplies

/-!
# Whole runs of the store

Any number of clients call one store.  The calls that write are transactions, and what one comes to
depends on the others only through what is committed when it begins (`Request.result_eq`,
`Request.published_eq`), so an interleaving of calls is a sequence of them.

* `Call` is a call with what it meets, and `Performs` says what one does to the tables:
  `Performs.eq_of_error`, when it raises, and `Performs.other`, to other runs.
* `performs_simulates`: while every accepted update is legal, the tables represent runs, and what
  they represent evolves as the log of calls says (`Evolves`).
* `Recorded` reads the log of one run: it was created once, the accepted updates form a chain from
  its initial checkpoint, and their events are its history.
* `compareAndAppend_serializes`: no update is lost, duplicated or reordered.
* `readable_while_sound`: as long as no illegal event is appended (`Sound`), every run stays
  readable.
-/

set_option autoImplicit false

namespace Alicerce

open Py Lib Program Client

section
variable [Interpreter]

/-! ## Calls in the order of their commits -/

/-- A call, with what it meets and what comes of it. -/
structure Call where
  request : Request
  env : StoreEnv
  reply : Except Exc Reply

/-- A call takes its place in the order of commits: on `db`, which is what is committed when its
transaction begins, it comes to its reply and leaves `db'`. -/
def Performs (db : Database) (call : Call) (db' : Database) : Prop :=
  call.env.committed .begin = db ∧ call.request.result call.env = call.reply ∧
    (call.request.published call.env).getD db = db'

/-- A call that runs a transaction. -/
def Request.Writes : Request → Prop
  | create _ | compareAndAppend _ => True
  | load _ | history _ => False

/-- **What a writing call returns** depends only on what is committed when its transaction
begins. -/
theorem Request.result_eq {q : Request} (hq : q.Writes) (env : StoreEnv) :
    q.result env = q.result (.snapshot (env.committed .begin) env.fault) := by
  cases q with
  | create c =>
    by_cases hc : c = createInitialCheckpoint c.identity
    · simp only [Request.result, Store.result, initializeRun_run _ hc]
      rfl
    · simp only [Request.result, Store.result, initializeRun, if_pos hc]
      rfl
  | compareAndAppend u =>
    simp only [Request.result, Store.result, compareAndAppend_run]
    rfl
  | load runId => exact hq.elim
  | history runId => exact hq.elim

/-- **What a writing call commits** depends only on what is committed when its transaction
begins. -/
theorem Request.published_eq {q : Request} (hq : q.Writes) (env : StoreEnv) :
    q.published env = q.published (.snapshot (env.committed .begin) env.fault) := by
  cases q with
  | create c =>
    by_cases hc : c = createInitialCheckpoint c.identity
    · simp only [Request.published, Store.published, initializeRun_run _ hc]
      rfl
    · simp only [Request.published, Store.published, initializeRun, if_pos hc]
      rfl
  | compareAndAppend u =>
    simp only [Request.published, Store.published, compareAndAppend_run]
    rfl
  | load runId => exact hq.elim
  | history runId => exact hq.elim

/-- A writing call comes to what it comes to when it is alone. -/
theorem Performs.perform {db db' : Database} {call : Call} (h : Performs db call db')
    (hq : call.request.Writes) :
    perform call.env.fault call.request db = (call.reply, db') := by
  obtain ⟨rfl, hreply, rfl⟩ := h
  rw [Alicerce.perform, ← Request.result_eq hq, ← Request.published_eq hq, hreply]

/-- The readers commit nothing. -/
theorem Request.published_of_not_writes {q : Request} (hq : ¬q.Writes) (env : StoreEnv) :
    q.published env = none := by
  cases q with
  | create c => exact absurd trivial hq
  | compareAndAppend u => exact absurd trivial hq
  | load runId => simp only [Request.published, Store.published, load_run]; rfl
  | history runId => simp only [Request.published, Store.published, history_run]; rfl

/-- **What a call has done**: nothing, when it reads or raises; else it has created a run or
appended an update. -/
theorem Performs.cases {db db' : Database} {call : Call} (h : Performs db call db') :
    (¬call.request.Writes ∧ db' = db) ∨ (∃ e, call.reply = .error e ∧ db' = db) ∨
      (∃ c, call.request = .create c ∧ call.reply = .ok .created ∧ Created c db db') ∨
      ∃ u, call.request = .compareAndAppend u ∧ call.reply = .ok (.appended u.nextCheckpoint) ∧
        Appended u db db' := by
  by_cases hq : call.request.Writes
  · right
    have hperform := h.perform hq
    cases hrequest : call.request with
    | create c =>
      rw [hrequest] at hperform
      rcases perform_create call.env.fault c db with ⟨e, he⟩ | ⟨db'', he, hcreated⟩
      · obtain ⟨hreply, rfl⟩ := Prod.mk.inj (hperform.symm.trans he)
        exact .inl ⟨e, hreply, rfl⟩
      · obtain ⟨hreply, rfl⟩ := Prod.mk.inj (hperform.symm.trans he)
        exact .inr (.inl ⟨c, rfl, hreply, hcreated⟩)
    | compareAndAppend u =>
      rw [hrequest] at hperform
      rcases perform_compareAndAppend call.env.fault u db with ⟨e, he⟩ | ⟨db'', he, happended⟩
      · obtain ⟨hreply, rfl⟩ := Prod.mk.inj (hperform.symm.trans he)
        exact .inl ⟨e, hreply, rfl⟩
      · obtain ⟨hreply, rfl⟩ := Prod.mk.inj (hperform.symm.trans he)
        exact .inr (.inr ⟨u, rfl, hreply, happended⟩)
    | load runId => rw [hrequest] at hq; exact hq.elim
    | history runId => rw [hrequest] at hq; exact hq.elim
  · left
    obtain ⟨-, -, rfl⟩ := h
    rw [Request.published_of_not_writes hq]
    exact ⟨hq, rfl⟩

/-- An accepted update has been appended. -/
theorem Performs.appended {db db' : Database} {call : Call} {u : StateUpdate} {reply : Reply}
    (h : Performs db call db') (hq : call.request = .compareAndAppend u)
    (hreply : call.reply = .ok reply) : Appended u db db' := by
  rcases h.cases with ⟨hw, -⟩ | ⟨e, he, -⟩ | ⟨c, hq', -, -⟩ | ⟨u', hq', -, happended⟩
  · rw [hq] at hw
    exact absurd trivial hw
  · exact absurd (he.symm.trans hreply) (by simp)
  · exact absurd (hq.symm.trans hq') (by simp)
  · obtain rfl := Request.compareAndAppend.inj (hq.symm.trans hq')
    exact happended

/-- **A call that raises leaves both tables exactly as it found them**, whatever they contain and
wherever it fails. -/
theorem Performs.eq_of_error {db db' : Database} {call : Call} {e : Exc}
    (h : Performs db call db') (he : call.reply = .error e) : db' = db := by
  rcases h.cases with ⟨-, rfl⟩ | ⟨_, -, rfl⟩ | ⟨c, -, hreply, -⟩ | ⟨u, -, hreply, -⟩
  · rfl
  · rfl
  · exact absurd (he.symm.trans hreply) (by simp)
  · exact absurd (he.symm.trans hreply) (by simp)

/-- **No call touches the rows of another run.** -/
theorem Performs.other {db db' : Database} {call : Call} (h : Performs db call db') {r : RunId}
    (hr : r ≠ call.request.runId) :
    db'.runsOf r = db.runsOf r ∧ db'.transitionsOf r = db.transitionsOf r := by
  rcases h.cases with ⟨-, rfl⟩ | ⟨_, -, rfl⟩ | ⟨c, hc, -, hcreated⟩ | ⟨u, hu, -, happended⟩
  · exact ⟨rfl, rfl⟩
  · exact ⟨rfl, rfl⟩
  · rw [hc] at hr
    exact hcreated.other hr
  · rw [hu] at hr
    exact happended.other hr

/-! ## The log -/

section
omit [Interpreter]

/-- The identity a call has created a run of `r` with. -/
def Call.creation (r : RunId) (call : Call) : Option RunIdentity :=
  match call.request, call.reply with
  | .create c, .ok _ => if c.identity.runId = r then some c.identity else none
  | _, _ => none

/-- The update a call has appended to `r`. -/
def Call.appended (r : RunId) (call : Call) : Option StateUpdate :=
  match call.request, call.reply with
  | .compareAndAppend u, .ok _ => if u.runId = r then some u else none
  | _, _ => none

/-- The identities `r` was created with, in the order of the commits. -/
def creations (r : RunId) (calls : List Call) : List RunIdentity :=
  calls.filterMap (Call.creation r)

/-- The updates of `r` that were accepted, in the order of the commits. -/
def acceptedUpdates (r : RunId) (calls : List Call) : List StateUpdate :=
  calls.filterMap (Call.appended r)

variable {r : RunId} {call : Call} {calls : List Call} {m m' : Runs}

theorem creations_snoc : creations r (calls ++ [call]) =
    creations r calls ++ (call.creation r).toList := by
  rw [creations, List.filterMap_append]
  cases h : call.creation r <;> simp [h, creations]

theorem acceptedUpdates_snoc : acceptedUpdates r (calls ++ [call]) =
    acceptedUpdates r calls ++ (call.appended r).toList := by
  rw [acceptedUpdates, List.filterMap_append]
  cases h : call.appended r <;> simp [h, acceptedUpdates]

theorem acceptedUpdates_append {before : List Call} : acceptedUpdates r (before ++ calls) =
    acceptedUpdates r before ++ acceptedUpdates r calls := List.filterMap_append

/-- What a run of `r` was created with is an identity of `r`. -/
theorem runId_of_mem_creations {identity : RunIdentity} (h : identity ∈ creations r calls) :
    identity.runId = r := by
  obtain ⟨call, -, hcall⟩ := List.mem_filterMap.mp h
  rw [Call.creation] at hcall
  split at hcall
  · split at hcall
    · rename_i hr
      rwa [← Option.some.inj hcall]
    · exact absurd hcall (by simp)
  · exact absurd hcall (by simp)

theorem Call.creation_of_error {e : Exc} (h : call.reply = .error e) : call.creation r = none := by
  rw [Call.creation, h]
  split
  · rename_i heq; exact absurd heq (by simp)
  · rfl

theorem Call.appended_of_error {e : Exc} (h : call.reply = .error e) : call.appended r = none := by
  rw [Call.appended, h]
  split
  · rename_i heq; exact absurd heq (by simp)
  · rfl

theorem Call.creation_of_not_writes (h : ¬call.request.Writes) : call.creation r = none := by
  rw [Call.creation]
  split
  · rename_i heq _; rw [heq] at h; exact absurd trivial h
  · rfl

theorem Call.appended_of_not_writes (h : ¬call.request.Writes) : call.appended r = none := by
  rw [Call.appended]
  split
  · rename_i heq _; rw [heq] at h; exact absurd trivial h
  · rfl

theorem Call.creation_of_create {c : RunCheckpoint} {reply : Reply}
    (hq : call.request = .create c) (hr : call.reply = .ok reply) :
    call.creation r = if c.identity.runId = r then some c.identity else none := by
  rw [Call.creation, hq, hr]

theorem Call.appended_of_create {c : RunCheckpoint} (hq : call.request = .create c) :
    call.appended r = none := by
  rw [Call.appended, hq]

theorem Call.creation_of_append {u : StateUpdate} (hq : call.request = .compareAndAppend u) :
    call.creation r = none := by
  rw [Call.creation, hq]

theorem Call.appended_of_append {u : StateUpdate} {reply : Reply}
    (hq : call.request = .compareAndAppend u) (hr : call.reply = .ok reply) :
    call.appended r = if u.runId = r then some u else none := by
  rw [Call.appended, hq, hr]

/-! ## The runs behind the tables -/

/-- What a call does to the runs the tables represent: nothing, or it starts a run that is not
there, or it extends one whose checkpoint its legal update expects. -/
inductive Evolves (m : Runs) (call : Call) : Runs → Prop
  | unchanged (hcreation : ∀ r, call.creation r = none) (happended : ∀ r, call.appended r = none) :
      Evolves m call m
  | started (c : RunCheckpoint) (hcreation : ∀ r, call.creation r =
        if c.identity.runId = r then some c.identity else none)
      (happended : ∀ r, call.appended r = none) (habsent : m c.identity.runId = none) :
      Evolves m call (m.set c.identity.runId (.start c.identity))
  | extended (u : StateUpdate) (run : Run) (hcreation : ∀ r, call.creation r = none)
      (happended : ∀ r, call.appended r = if u.runId = r then some u else none)
      (hrun : m u.runId = some run) (hexpected : run.checkpoint = u.expected) (hlegal : u.Legal) :
      Evolves m call (m.set u.runId (run.append u hexpected hlegal))

/-- A run keeps its identity. -/
theorem Evolves.keeps_identity (h : Evolves m call m') {run : Run} (hrun : m r = some run) :
    ∃ run', m' r = some run' ∧ run'.checkpoint.identity = run.checkpoint.identity := by
  cases h with
  | unchanged => exact ⟨run, hrun, rfl⟩
  | started c _ _ habsent =>
    refine ⟨run, ?_, rfl⟩
    rwa [Runs.set_of_ne]
    rintro rfl
    exact absurd (habsent.symm.trans hrun) (by simp)
  | extended u run₁ _ _ hrun₁ hexpected hlegal =>
    by_cases hr : r = u.runId
    · subst hr
      obtain rfl := Option.some.inj (hrun₁.symm.trans hrun)
      refine ⟨_, Runs.set_self _ _ _, ?_⟩
      change u.expected.identity = _
      rw [hexpected]
    · exact ⟨run, (Runs.set_of_ne _ _ hr).trans hrun, rfl⟩

theorem keeps_identity (h : Steps Evolves m calls m') {run : Run} (hrun : m r = some run) :
    ∃ run', m' r = some run' ∧ run'.checkpoint.identity = run.checkpoint.identity :=
  Steps.preserves (P := fun m ↦
      ∃ run', m r = some run' ∧ run'.checkpoint.identity = run.checkpoint.identity)
    (fun ⟨_, hrun', hid⟩ hstep ↦ (hstep.keeps_identity hrun').imp fun _ h ↦ ⟨h.1, h.2.trans hid⟩)
    h ⟨run, hrun, rfl⟩

/-- What the log says of one run. -/
def Recorded (r : RunId) (calls : List Call) : Option Run → Prop
  | none => creations r calls = [] ∧ acceptedUpdates r calls = []
  | some run => ∃ identity, creations r calls = [identity] ∧
      Chain (createInitialCheckpoint identity) (acceptedUpdates r calls) run.checkpoint ∧
        run.events = (acceptedUpdates r calls).map StateUpdate.event

/-- What a call does not concern it does not change in the log. -/
theorem Recorded.snoc_of_none {run : Option Run} (h : Recorded r calls run)
    (hc : call.creation r = none) (ha : call.appended r = none) :
    Recorded r (calls ++ [call]) run := by
  cases run <;> simpa only [Recorded, creations_snoc, acceptedUpdates_snoc, hc, ha, Option.toList,
    List.append_nil] using h

/-- **One step**: the log keeps up with the runs. -/
theorem Evolves.recorded (h : ∀ r, Recorded r calls (m r)) (hstep : Evolves m call m') (r : RunId) :
    Recorded r (calls ++ [call]) (m' r) := by
  cases hstep with
  | unchanged hcreation happended => exact (h r).snoc_of_none (hcreation r) (happended r)
  | started c hcreation happended habsent =>
    by_cases hr : r = c.identity.runId
    · subst hr
      have hrec := h c.identity.runId
      rw [habsent] at hrec
      rw [Runs.set_self, Recorded, creations_snoc, acceptedUpdates_snoc, hcreation, if_pos rfl,
        happended, hrec.1, hrec.2]
      exact ⟨c.identity, rfl, .nil _, rfl⟩
    · rw [Runs.set_of_ne _ _ hr]
      exact (h r).snoc_of_none ((hcreation r).trans (if_neg (Ne.symm hr))) (happended r)
  | extended u run hcreation happended hrun hexpected hlegal =>
    by_cases hr : r = u.runId
    · subst hr
      have hrec := h u.runId
      rw [hrun] at hrec
      obtain ⟨identity, hcreated, hchain, hevents⟩ := hrec
      rw [Runs.set_self, Recorded, creations_snoc, acceptedUpdates_snoc, hcreation, happended,
        if_pos rfl, Option.toList_none, List.append_nil, Option.toList_some]
      refine ⟨identity, hcreated, hchain.snoc ⟨hexpected.symm, rfl⟩, ?_⟩
      rw [List.map_append, ← hevents]
      rfl
    · rw [Runs.set_of_ne _ _ hr]
      exact (h r).snoc_of_none (hcreation r) ((happended r).trans (if_neg (Ne.symm hr)))

/-- **Every run**: the log says what has become of it. -/
theorem recorded_of_steps (h : Steps Evolves .empty calls m) (r : RunId) :
    Recorded r calls (m r) := by
  have hstart : ∀ r, Recorded r [] (Runs.empty r) := fun _ ↦ ⟨rfl, rfl⟩
  exact Steps.invariant (J := fun calls m ↦ ∀ r, Recorded r calls (m r))
    (fun hJ hstep ↦ hstep.recorded hJ) h hstart r

/-- The journal of a run grows by the events of the updates accepted meanwhile. -/
theorem events_of_steps {before during : List Call} {m₁ m₂ : Runs} {run₁ : Run}
    (h₁ : Steps Evolves .empty before m₁) (h₂ : Steps Evolves m₁ during m₂)
    (hrun₁ : m₁ r = some run₁) : ∃ run₂, m₂ r = some run₂ ∧
      run₂.events = run₁.events ++ (acceptedUpdates r during).map StateUpdate.event := by
  obtain ⟨run₂, hrun₂, -⟩ := keeps_identity h₂ hrun₁
  have hrec₁ := recorded_of_steps h₁ r
  have hrec₂ := recorded_of_steps (Steps.append_iff.mpr ⟨m₁, h₁, h₂⟩) r
  rw [hrun₁] at hrec₁
  rw [hrun₂] at hrec₂
  obtain ⟨-, -, -, hevents₁⟩ := hrec₁
  obtain ⟨-, -, -, hevents₂⟩ := hrec₂
  refine ⟨run₂, hrun₂, ?_⟩
  rw [hevents₂, hevents₁, acceptedUpdates_append, List.map_append]

end

/-! ## Simulation -/

/-- The update of a call is legal, if it is accepted. -/
def Call.Legal (call : Call) : Prop := ∀ r u, call.appended r = some u → u.Legal

omit [Interpreter] in
theorem Call.legal_of_prepared {call : Call}
    (h : ∀ u, call.request = .compareAndAppend u → u.Prepared) : call.Legal := by
  intro r u hu
  rw [Call.appended] at hu
  split at hu
  · rename_i u' _ hq _
    split at hu
    · obtain rfl := Option.some.inj hu
      exact StateUpdate.prepared_iff.mp (h _ hq)
    · exact absurd hu (by simp)
  · exact absurd hu (by simp)

/-- **One call**: tables that represent runs represent what has become of them. -/
theorem Performs.simulates {db db' : Database} {call : Call} {m : Runs} (hm : Represents db m)
    (h : Performs db call db') (hlegal : call.Legal) :
    ∃ m', Represents db' m' ∧ Evolves m call m' := by
  rcases h.cases with ⟨hq, rfl⟩ | ⟨e, he, rfl⟩ | ⟨c, hq, hreply, hcreated⟩ |
    ⟨u, hq, hreply, happended⟩
  · exact ⟨m, hm, .unchanged (fun _ ↦ Call.creation_of_not_writes hq)
      fun _ ↦ Call.appended_of_not_writes hq⟩
  · exact ⟨m, hm, .unchanged (fun _ ↦ Call.creation_of_error he)
      fun _ ↦ Call.appended_of_error he⟩
  · obtain ⟨habsent, hrepr⟩ := hm.create hcreated
    exact ⟨_, hrepr, .started c (fun _ ↦ Call.creation_of_create hq hreply)
      (fun _ ↦ Call.appended_of_create hq) habsent⟩
  · obtain ⟨run, hrun, hexpected, hrepr⟩ := hm.append happended
    have hu : u.Legal := hlegal u.runId u (by rw [Call.appended_of_append hq hreply, if_pos rfl])
    exact ⟨_, hrepr hu, .extended u run (fun _ ↦ Call.creation_of_append hq)
      (fun _ ↦ Call.appended_of_append hq hreply) hrun hexpected hu⟩

/-- **A run of calls**: the tables represent what has become of the runs. -/
theorem performs_simulates {db db' : Database} {calls : List Call} {m : Runs}
    (h : Steps Performs db calls db') (hm : Represents db m) (hlegal : ∀ call ∈ calls, call.Legal) :
    ∃ m', Represents db' m' ∧ Steps Evolves m calls m' :=
  h.simulates (fun hm hlegal hstep ↦ hstep.simulates hm hlegal) hm hlegal

/-- As long as the updates are prepared, the tables represent runs at any two moments. -/
theorem exists_runs_of_prepared {before during : List Call} {db₁ db₂ : Database}
    (hprepared : ∀ call ∈ before ++ during, ∀ u, call.request = .compareAndAppend u → u.Prepared)
    (hbefore : Steps Performs .empty before db₁) (hduring : Steps Performs db₁ during db₂) :
    ∃ m₁ m₂, Represents db₁ m₁ ∧ Represents db₂ m₂ ∧ Steps Evolves .empty before m₁ ∧
      Steps Evolves m₁ during m₂ := by
  have hlegal : ∀ call ∈ before ++ during, call.Legal := fun call hcall ↦
    Call.legal_of_prepared (hprepared call hcall)
  obtain ⟨m₁, hm₁, h₁⟩ := performs_simulates hbefore represents_empty
    fun call hcall ↦ hlegal call (List.mem_append_left _ hcall)
  obtain ⟨m₂, hm₂, h₂⟩ := performs_simulates hduring hm₁
    fun call hcall ↦ hlegal call (List.mem_append_right _ hcall)
  exact ⟨m₁, m₂, hm₁, hm₂, h₁, h₂⟩

/-! ## A run of two calls -/

theorem performs_quiet {db db' : Database} {q : Request} {reply : Except Exc Reply}
    (h : perform Faults.none q db = (reply, db')) : Performs db ⟨q, Quiet db, reply⟩ db' := by
  obtain ⟨hreply, hdb⟩ := Prod.mk.inj h
  exact ⟨rfl, hreply, hdb⟩

/-- The first of two calls creates a run. -/
def createCall (identity : RunIdentity) : Call :=
  ⟨.create (createInitialCheckpoint identity), Quiet .empty, .ok .created⟩

/-- The second call appends an update to it. -/
def appendCall (u : StateUpdate) (db : Database) : Call :=
  ⟨.compareAndAppend u, Quiet db, .ok (.appended u.nextCheckpoint)⟩

/-- An update built by hand is accepted by the run it starts from, whether it is legal or not. -/
theorem exists_create_append {db : Database} {m : Runs} (hm : Represents db m)
    (identity : RunIdentity) (henc : identity.Encodable) (habsent : m identity.runId = none)
    (actor : LifecycleActor) (toState : LifecycleState) (h : toState ≠ .completed) :
    ∃ db₁ db₂, Performs db ⟨.create (createInitialCheckpoint identity), Quiet db, .ok .created⟩
      db₁ ∧ Represents db₁ (m.set identity.runId (.start identity)) ∧
      Performs db₁ (appendCall (.fromStart identity actor toState h) db₁) db₂ := by
  obtain ⟨db₁, h₁, hcreated⟩ := perform_create_of_absent (c := createInitialCheckpoint identity)
    hm rfl henc habsent
  obtain ⟨-, hm₁⟩ := hm.create hcreated
  obtain ⟨db₂, h₂, -⟩ := perform_append_of_expected
    (u := .fromStart identity actor toState h) hm₁ (Runs.set_self _ _ _) rfl
  exact ⟨db₁, db₂, performs_quiet h₁, hm₁, performs_quiet h₂⟩

theorem exists_run_fromStart (identity : RunIdentity) (henc : identity.Encodable)
    (actor : LifecycleActor) (toState : LifecycleState) (h : toState ≠ .completed) :
    ∃ db₁ db₂, Performs .empty (createCall identity) db₁ ∧
      Performs db₁ (appendCall (.fromStart identity actor toState h) db₁) db₂ := by
  obtain ⟨db₁, db₂, h₁, -, h₂⟩ := exists_create_append represents_empty identity henc rfl actor
    toState h
  exact ⟨db₁, db₂, h₁, h₂⟩

omit [Interpreter] in
/-- What is asked for in the two calls. -/
theorem eq_of_mem_calls {identity : RunIdentity} {u v : StateUpdate} {db : Database} {call : Call}
    (h : call ∈ [createCall identity, appendCall u db]) (hv : call.request = .compareAndAppend v) :
    v = u := by
  simp only [List.mem_cons, List.not_mem_nil, or_false] at h
  rcases h with rfl | rfl
  · exact absurd hv (by simp [createCall])
  · exact (Request.compareAndAppend.inj hv).symm

/-! ## No update is lost, duplicated or reordered -/

/-- **The store serializes its updates.**  Whatever the clients ask for, with updates prepared from
any checkpoint, fresh or stale, and in whatever order their transactions commit, for each run:

* either it was never created, nothing was accepted for it, and the tables hold nothing of it;
* or it was created once, with an identity that its row keeps from then on, and the updates accepted
  for it, in the order of their commits, form a chain: the first expects the initial checkpoint of
  that identity, each later one expects the next checkpoint of the one before, and no two expect the
  same.  The stored checkpoint is the last one, and the journal is their events, with the revisions
  from one on.

And whatever the tables contain, a call that raises leaves them exactly as they were, and no call
touches the rows of another run. -/
theorem compareAndAppend_serializes {calls more : List Call} {db db' : Database}
    (hprepared : ∀ call ∈ calls ++ more, ∀ u, call.request = .compareAndAppend u → u.Prepared)
    (h : Steps Performs .empty calls db) (hmore : Steps Performs db more db') :
    (∀ r,
      (creations r calls = [] ∧ acceptedUpdates r calls = [] ∧
        db.runsOf r = [] ∧ db.transitionsOf r = []) ∨
      ∃ identity c b b', creations r calls = [identity] ∧
        Chain (createInitialCheckpoint identity) (acceptedUpdates r calls) c ∧
        ((acceptedUpdates r calls).map StateUpdate.expected).Nodup ∧
        db.runsOf r = [⟨Database.key r, .blob b, .blob b'⟩] ∧
        serializeRunIdentity identity = .ok b ∧ serializeCheckpoint c = .ok b' ∧
        List.Forall₂ (EventStored r) (db.transitionsOf r)
          ((acceptedUpdates r calls).map StateUpdate.event) ∧
        (acceptedUpdates r calls).map (fun u ↦ u.event.revision) =
          List.range' 1 (acceptedUpdates r calls).length ∧
        ∃ b'', db'.runsOf r = [⟨Database.key r, .blob b, .blob b''⟩]) ∧
    ∀ (call : Call) (db₁ db₂ : Database), Performs db₁ call db₂ →
      (∀ e, call.reply = .error e → db₂ = db₁) ∧
        ∀ r, r ≠ call.request.runId →
          db₂.runsOf r = db₁.runsOf r ∧ db₂.transitionsOf r = db₁.transitionsOf r := by
  refine ⟨fun r ↦ ?_, fun call db₁ db₂ hstep ↦ ⟨fun e he ↦ hstep.eq_of_error he,
    fun r hr ↦ hstep.other hr⟩⟩
  obtain ⟨m, m', hm, hm', hsteps, hsteps'⟩ := exists_runs_of_prepared hprepared h hmore
  have hrec := recorded_of_steps hsteps r
  have hstored := hm r
  cases hrun : m r with
  | none =>
    rw [hrun] at hrec hstored
    exact .inl ⟨hrec.1, hrec.2, hstored.1, hstored.2⟩
  | some run =>
    rw [hrun] at hrec hstored
    obtain ⟨identity, hcreated, hchain, hevents⟩ := hrec
    obtain ⟨b, b', hrow, hb, hb'⟩ := hstored.row
    have hidentity : run.checkpoint.identity = identity := hchain.identity_eq
    obtain ⟨run', hrun', hkeeps⟩ := keeps_identity hsteps' hrun
    have hstored' := hm' r
    rw [hrun'] at hstored'
    obtain ⟨b₁, b₁', hrow', hb₁, -⟩ := hstored'.row
    rw [hkeeps, hb, Except.ok.injEq] at hb₁
    refine .inr ⟨identity, run.checkpoint, b, b', hcreated, hchain, hchain.nodup, hrow,
      hidentity ▸ hb, hb', hevents ▸ hstored.journal, ?_, b₁', hb₁ ▸ hrow'⟩
    have hrevisions := run.history.revisions
    rwa [hevents, List.map_map, List.length_map] at hrevisions

end

theorem compareAndAppend_serializes_fromStart : let _ := Interpreter.plain
    ∃ db₁ db₂ b b' bt,
      Steps Performs .empty [createCall (storeIdentity qualityLoop), appendCall
        (.fromStart (storeIdentity qualityLoop) storeActor .workspacePrepared (by decide)) db₁]
          db₂ ∧
      db₂.runsOf (storeIdentity qualityLoop).runId =
        [⟨Database.key (storeIdentity qualityLoop).runId, .blob b, .blob b'⟩] ∧
      db₂.transitionsOf (storeIdentity qualityLoop).runId =
        [⟨Database.key (storeIdentity qualityLoop).runId, .integer 1, .blob bt⟩] := by
  let _ := Interpreter.plain
  obtain ⟨db₁, db₂, h₁, h₂⟩ := exists_run_fromStart (storeIdentity qualityLoop)
    ⟨by decide, by decide⟩ storeActor .workspacePrepared (by decide)
  have h := Steps.cons h₁ (.cons h₂ (.nil db₂))
  have hprepared : ∀ call ∈ [createCall (storeIdentity qualityLoop), appendCall
      (.fromStart (storeIdentity qualityLoop) storeActor .workspacePrepared (by decide)) db₁] ++ [],
      ∀ u, call.request = .compareAndAppend u → u.Prepared := fun call hcall u hu ↦ by
    rw [List.append_nil] at hcall
    rw [eq_of_mem_calls hcall hu, StateUpdate.prepared_iff]
    exact StateUpdate.legal_fromStart _ _
  obtain ⟨hruns, -⟩ := compareAndAppend_serializes hprepared h (.nil db₂)
  have haccepted : acceptedUpdates (storeIdentity qualityLoop).runId
      [createCall (storeIdentity qualityLoop), appendCall (.fromStart (storeIdentity qualityLoop)
        storeActor .workspacePrepared (by decide)) db₁] =
      [.fromStart (storeIdentity qualityLoop) storeActor .workspacePrepared (by decide)] := rfl
  rcases hruns (storeIdentity qualityLoop).runId with ⟨-, hnil, -⟩ |
    ⟨_, _, b, b', -, -, -, hrow, -, -, hjournal, -⟩
  · exact absurd (haccepted.symm.trans hnil) (by simp)
  · rw [haccepted] at hjournal
    obtain ⟨row, rows, ⟨bt, rfl, -⟩, hrows, hsplit⟩ := List.forall₂_cons_right_iff.mp hjournal
    rw [List.forall₂_nil_right_iff.mp hrows] at hsplit
    exact ⟨db₁, db₂, b, b', bt, h, hrow, hsplit⟩

section
variable [Interpreter]

/-! ## What keeps every run readable -/

/-- What is stored as the checkpoint of a run. -/
def Current (db : Database) (c : RunCheckpoint) : Prop :=
  ∃ v b, db.selectRun c.identity.runId = some (v, .blob b) ∧ serializeCheckpoint c = .ok b

/-- A call does not ask to append an illegal event to the stored checkpoint. -/
def Sound (db : Database) (call : Call) : Prop :=
  ∀ u, call.request = .compareAndAppend u → Current db u.expected → u.Legal

/-- What is accepted expects the stored checkpoint. -/
theorem Appended.current {u : StateUpdate} {db db' : Database} (h : Appended u db db') :
    Current db u.expected := by
  obtain ⟨⟨v, w⟩, events, hrow, hheld⟩ := h.held
  obtain ⟨b, hb, hs⟩ := hheld.checkpoint
  obtain rfl : w = .blob b := hb
  exact ⟨v, b, hrow, hs⟩

theorem Performs.legal {db db' : Database} {call : Call} (h : Performs db call db')
    (hsound : Sound db call) : call.Legal := by
  intro r u hu
  rcases h.cases with ⟨hq, -⟩ | ⟨e, he, -⟩ | ⟨c, hq, -, -⟩ | ⟨u', hq, hreply, happended⟩
  · exact absurd ((Call.appended_of_not_writes hq).symm.trans hu) (by simp)
  · exact absurd ((Call.appended_of_error he).symm.trans hu) (by simp)
  · exact absurd ((Call.appended_of_create hq).symm.trans hu) (by simp)
  · rw [Call.appended_of_append hq hreply] at hu
    split at hu
    · obtain rfl := Option.some.inj hu
      exact hsound _ hq happended.current
    · exact absurd hu (by simp)

/-- **Every run of sound calls** keeps the tables such that they represent runs. -/
theorem represents_of_sound {calls : List Call} {db : Database}
    (h : Steps (fun db call db' ↦ Performs db call db' ∧ Sound db call) .empty calls db) :
    ∃ m, Represents db m :=
  Steps.preserves (P := fun db ↦ ∃ m, Represents db m)
    (fun ⟨_, hm⟩ hstep ↦ (hstep.1.simulates hm (hstep.1.legal hstep.2)).imp fun _ h ↦ h.1)
    h ⟨_, represents_empty⟩

/-- On a database nobody writes to, `load` and `history` of a run succeed: they agree that it is
absent, or return its checkpoint and the history that leads to it. -/
def Readable (db : Database) (r : RunId) : Prop :=
  ((load r).result (Quiet db) = .ok none ∧
    (history r).result (Quiet db) = .error (.stateStoreError .notFound r.value)) ∨
  ∃ c events, (load r).result (Quiet db) = .ok (some c) ∧
    (history r).result (Quiet db) = .ok events ∧ History c.identity events c

theorem Represents.readable {db : Database} {m : Runs} (hm : Represents db m) (r : RunId) :
    Readable db r := by
  rw [Readable, load_of_represents hm, history_of_represents hm]
  cases hrun : m r with
  | none => exact .inl ⟨rfl, rfl⟩
  | some run => exact .inr ⟨run.checkpoint, run.events, rfl, rfl, run.history⟩

/-- **The store stays readable as long as no illegal event is appended.**  After any run of calls,
successful or rejected, in which no update that expects the stored checkpoint carries an event the
lifecycle does not allow, every run is readable.  The next illegal event to be appended leaves its
run corrupt. -/
theorem readable_while_sound {calls : List Call} {db : Database}
    (h : Steps (fun db call db' ↦ Performs db call db' ∧ Sound db call) .empty calls db) :
    (∀ r, Readable db r) ∧ ∀ u call db', call.request = .compareAndAppend u → Performs db call db' →
      call.reply = .ok (.appended u.nextCheckpoint) → ¬u.Legal → ∃ detail,
        (load u.runId).result (Quiet db') = .error (corrupt detail) ∧
        (history u.runId).result (Quiet db') = .error (corrupt detail) := by
  obtain ⟨m, hm⟩ := represents_of_sound h
  refine ⟨hm.readable, fun u call db' hq hstep hreply hnot ↦ ?_⟩
  obtain ⟨detail, hcorrupt⟩ := hm.corrupt_of_not_legal (hstep.appended hq hreply) hnot
  exact ⟨detail, load_of_corrupt hcorrupt, history_of_corrupt hcorrupt⟩

end

theorem readable_while_sound_fromStart : let _ := Interpreter.plain
    ∃ db₁ db₂, Steps Performs .empty [createCall (storeIdentity qualityLoop), appendCall
        (.fromStart (storeIdentity qualityLoop) storeActor .workspacePrepared (by decide)) db₁]
          db₂ ∧
      ∀ r, Readable db₂ r := by
  let _ := Interpreter.plain
  obtain ⟨db₁, db₂, h₁, h₂⟩ := exists_run_fromStart (storeIdentity qualityLoop)
    ⟨by decide, by decide⟩ storeActor .workspacePrepared (by decide)
  refine ⟨db₁, db₂, .cons h₁ (.cons h₂ (.nil db₂)), (readable_while_sound
    (.cons ⟨h₁, fun u hu ↦ ?_⟩ (.cons ⟨h₂, fun u hu _ ↦ ?_⟩ (.nil db₂)))).1⟩
  · exact absurd hu (by simp [createCall])
  · rw [← Request.compareAndAppend.inj hu]
    exact StateUpdate.legal_fromStart _ _

/-- A skip that `StateUpdate` accepts leaves its run corrupt. -/
theorem readable_fails_after_skip : let _ := Interpreter.plain
    ∃ db₁ db₂ detail, Steps Performs .empty [createCall (storeIdentity qualityLoop), appendCall
        (.fromStart (storeIdentity qualityLoop) storeActor .verifying (by decide)) db₁] db₂ ∧
      (load (storeIdentity qualityLoop).runId).result (Quiet db₂) = .error (corrupt detail) := by
  let _ := Interpreter.plain
  obtain ⟨db₁, db₂, h₁, h₂⟩ := exists_run_fromStart (storeIdentity qualityLoop)
    ⟨by decide, by decide⟩ storeActor .verifying (by decide)
  obtain ⟨m, hm⟩ := represents_of_sound
    (.cons ⟨h₁, fun u hu ↦ absurd hu (by simp [createCall])⟩ (.nil db₁))
  obtain ⟨detail, hcorrupt⟩ := hm.corrupt_of_not_legal (h₂.appended rfl rfl)
    (StateUpdate.not_legal_fromStart _ _)
  exact ⟨db₁, db₂, detail, .cons h₁ (.cons h₂ (.nil db₂)), load_of_corrupt hcorrupt⟩

end Alicerce
