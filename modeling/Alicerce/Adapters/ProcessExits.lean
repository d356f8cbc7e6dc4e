import Alicerce.Adapters.GitWorkspace
import Alicerce.Adapters.ProcessCleanup

/-!
# Exits with a running process

A runner that has spawned a process may end, as far as its log tells, while the process runs
(`Leaks`).

* `leaks_iff`: that is so unless an answer told that the process exited.
* `execute_leaves`: the sandbox does so without saying that its cleanup failed when a number was too
  large (`Overflows`), or when the pinned binary was found to be another one (`PinHolds`), so that
  this is what is raised.
* `run_leaves`: a Git command does so when a call failed that no handler ends the process for, or
  its timeout is too long for the selector (`Troubles`).
* `spawned_process_exits`: there are no other such exits, of either runner.
* `overflow_leaks`: a timeout that is too long for the selector does leave a process running.
-/

set_option autoImplicit false

namespace Alicerce

open Py Lib

/-! ## A process that may be left -/

/-- A process was spawned. -/
def Spawns : Event OsCall.Answer → Prop
  | ⟨.popen _ _ _, .ok _⟩ => True
  | _ => False

/-- What happened since a process was spawned. -/
def sinceSpawn : OsLog → OsLog
  | [] => []
  | ⟨.popen _ _ _, .ok _⟩ :: log => log
  | _ :: log => sinceSpawn log

/-- As far as a log tells, the process it spawns may run at its end. -/
def Leaks {ι : Type} (leader : ι) (log : OsLog) : Prop :=
  ∃ group group', leader ∉ group.alive ∧ Steps (ProcessGroup.Step leader) group log group' ∧
    leader ∈ group'.alive

section

variable {ι : Type} {leader : ι} {group group' : ProcessGroup ι} {log before rest : OsLog}
  {event : Event OsCall.Answer} {argv : List Text} {cwd : Path} {environment : List (Text × Text)}
  {process : Process}

theorem sinceSpawn_of_not_spawns (h : ¬Happened Spawns log) : sinceSpawn log = [] := by
  induction log with
  | nil => rfl
  | cons event log ih =>
    rw [happened_cons, not_or] at h
    rw [sinceSpawn]
    · exact ih h.2
    · rintro argv cwd environment process rfl
      exact h.1 trivial

theorem sinceSpawn_append (h : ¬Happened Spawns before) :
    sinceSpawn (before ++ ⟨.popen argv cwd environment, .ok process⟩ :: rest) = rest := by
  induction before with
  | nil => rfl
  | cons event before ih =>
    rw [happened_cons, not_or] at h
    rw [List.cons_append, sinceSpawn]
    · exact ih h.2
    · rintro argv cwd environment process rfl
      exact h.1 trivial

theorem not_spawns_of_looks (h : ∀ e ∈ log, OsCall.Looks e.1) : ¬Happened Spawns log :=
  not_happened_of_calls h fun c hc answer ↦ by
    cases c <;> first | exact hc.elim | exact id

theorem not_spawns_of_tends (h : ∀ e ∈ log, OsCall.Tends e.1) : ¬Happened Spawns log :=
  not_happened_of_calls h fun c hc answer ↦ by
    cases c <;> first | exact hc.elim | exact id

/-- Nobody comes to life without being spawned. -/
theorem ProcessGroup.step_alive (hevent : ¬Spawns event) (h : Step leader group event group') :
    group'.alive ⊆ group.alive := by
  cases h with
  | poll hages _ | wait hages _ | waitFor hages _ | other hages _ => exact hages.alive
  | killpg halive _ | kill halive _ => exact halive
  | spawned => exact absurd trivial hevent

theorem ProcessGroup.steps_alive (hlog : ¬Happened Spawns log)
    (h : Steps (Step leader) group log group') : group'.alive ⊆ group.alive := by
  induction h with
  | nil => exact subset_rfl
  | cons hstep _ ih =>
    rw [happened_cons, not_or] at hlog
    exact (ih hlog.2).trans (step_alive hlog.1 hstep)

/-- Who was seen to have exited has. -/
theorem ProcessGroup.step_of_seesExit (hsees : SeesExit event)
    (h : Step leader group event group') : leader ∉ group'.alive := by
  cases h with
  | @poll _ process status hages hstatus =>
    cases status with
    | none => exact hsees.elim
    | some status => exact hstatus.mp rfl
  | wait _ hended => exact hended
  | @waitFor _ process timeout status hages hstatus =>
    cases status with
    | none => exact hsees.elim
    | some status => exact hstatus.mp rfl
  | spawned | killpg | kill => exact hsees.elim
  | other _ hother =>
    obtain ⟨call, answer⟩ := event
    cases call with
    | poll | wait | waitFor => exact hother.elim
    | _ => exact hsees.elim

/-- Whom an event does not show to have exited it may leave alive. -/
theorem ProcessGroup.exists_step_alive (hsees : ¬SeesExit event) (hspawns : ¬Spawns event)
    (halive : leader ∈ group.alive) :
    ∃ group', Step leader group event group' ∧ leader ∈ group'.alive := by
  obtain ⟨call, answer⟩ := event
  cases call with
  | popen =>
    cases answer with
    | ok => exact absurd trivial hspawns
    | error e => exact ⟨group, .other ⟨subset_rfl, rfl⟩ trivial, halive⟩
  | wait => exact absurd trivial hsees
  | poll =>
    cases answer with
    | some status => exact absurd trivial hsees
    | none => exact ⟨group, .poll ⟨subset_rfl, rfl⟩ (by simp [halive]), halive⟩
  | waitFor =>
    cases answer with
    | some status => exact absurd trivial hsees
    | none => exact ⟨group, .waitFor ⟨subset_rfl, rfl⟩ (by simp [halive]), halive⟩
  | killpg process signal =>
    cases signal with
    | sigterm => exact ⟨group, .other ⟨subset_rfl, rfl⟩ trivial, halive⟩
    | sigkill =>
      cases answer with
      | ok => exact ⟨⟨group.alive, group.killed ∪ group.alive⟩, .killpg subset_rfl rfl, halive⟩
      | error e => exact ⟨group, .other ⟨subset_rfl, rfl⟩ trivial, halive⟩
  | kill process =>
    cases answer with
    | ok => exact ⟨⟨group.alive, insert leader group.killed⟩, .kill subset_rfl rfl, halive⟩
    | error e => exact ⟨group, .other ⟨subset_rfl, rfl⟩ trivial, halive⟩
  | _ => exact ⟨group, .other ⟨subset_rfl, rfl⟩ trivial, halive⟩

theorem ProcessGroup.exists_steps_alive (hseen : ¬ExitSeen log) (hlog : ¬Happened Spawns log)
    (halive : leader ∈ group.alive) :
    ∃ group', Steps (Step leader) group log group' ∧ leader ∈ group'.alive := by
  induction log generalizing group with
  | nil => exact ⟨group, .nil _, halive⟩
  | cons event log ih =>
    rw [ExitSeen, happened_cons, not_or] at hseen
    rw [happened_cons, not_or] at hlog
    obtain ⟨group₁, hstep, halive₁⟩ := exists_step_alive hseen.1 hlog.1 halive
    obtain ⟨group', hsteps, halive'⟩ := ih hseen.2 hlog.2 halive₁
    exact ⟨group', .cons hstep hsteps, halive'⟩

theorem not_leaks (hlog : ¬Happened Spawns log) : ¬Leaks leader log :=
  fun ⟨_, _, hdead, hsteps, halive⟩ ↦ hdead (ProcessGroup.steps_alive hlog hsteps halive)

/-- **A process that was spawned is left** unless it was seen to exit. -/
theorem leaks_iff (hbefore : ∀ e ∈ before, OsCall.Looks e.1) (hrest : ¬Happened Spawns rest) :
    Leaks leader (before ++ ⟨.popen argv cwd environment, .ok process⟩ :: rest) ↔
      ¬ExitSeen (before ++ ⟨.popen argv cwd environment, .ok process⟩ :: rest) := by
  have hlooks : ¬Happened SeesExit before := not_happened_of_calls hbefore fun c hc answer ↦ by
    cases c <;> first | exact hc.elim | exact id
  rw [ExitSeen, happened_append, or_iff_right hlooks, happened_cons, or_iff_right (by exact id)]
  constructor
  · rintro ⟨group, group', -, hsteps, halive⟩ ⟨event, hmem, hsees⟩
    obtain ⟨l, l', rfl⟩ := List.append_of_mem hmem
    obtain ⟨g₁, -, hsteps⟩ := Steps.append_iff.mp hsteps
    obtain ⟨g₂, -, hsteps⟩ := Steps.cons_iff.mp hsteps
    obtain ⟨g₃, -, hsteps⟩ := Steps.append_iff.mp hsteps
    obtain ⟨g₄, hstep, hsteps⟩ := Steps.cons_iff.mp hsteps
    rw [happened_append, happened_cons, not_or, not_or] at hrest
    exact ProcessGroup.step_of_seesExit hsees hstep
      (ProcessGroup.steps_alive hrest.2.2 hsteps halive)
  · intro hseen
    -- nobody is there before the process is, and then it is
    have hfirst : ∀ l : OsLog, (∀ e ∈ l, OsCall.Looks e.1) →
        Steps (ProcessGroup.Step leader) ⟨∅, ∅⟩ l ⟨∅, ∅⟩ := by
      intro l hl
      induction l with
      | nil => exact .nil _
      | cons event l ih =>
        refine .cons (.other ⟨subset_rfl, rfl⟩ ?_) (ih fun e he ↦ hl e (.tail _ he))
        have hevent := hl _ (.head _)
        obtain ⟨call, answer⟩ := event
        cases call <;> first | exact hevent.elim | trivial
    have hspawned : leader ∈ (⟨{leader}, ∅⟩ : ProcessGroup ι).alive := rfl
    obtain ⟨group', hsteps, halive⟩ := ProcessGroup.exists_steps_alive hseen hrest hspawned
    exact ⟨⟨∅, ∅⟩, group', Set.notMem_empty leader,
      Steps.append_iff.mpr ⟨_, hfirst before hbefore, .cons (.spawned rfl) hsteps⟩, halive⟩

end

/-! ## The pinned binary -/

/-- An answer by which the pinned binary is not as it was pinned. -/
def Unpins (bubblewrap : PinnedBubblewrap) : Event OsCall.Answer → Prop
  | ⟨.isSymlink _, answer⟩ => answer ≠ .ok false
  | ⟨.resolve path, answer⟩ => answer ≠ .ok path
  | ⟨.isFile _, answer⟩ | ⟨.accessExecutable _, answer⟩ => answer ≠ .ok true
  | ⟨.readFile _, answer⟩ => ∀ bytes, answer = .ok bytes → Py.sha256 bytes ≠ bubblewrap.sha256
  | _ => False

section

variable {bubblewrap : PinnedBubblewrap} {log : OsLog}

/-- A check finds nothing changed just when every answer is as it was. -/
def Detects (bubblewrap : PinnedBubblewrap) (p : Os Bool) : Prop :=
  ∀ log x, p.Returns log x → (x = .ok false ↔ ¬Happened (Unpins bubblewrap) log)

theorem detects_ask {c : OsCall} {r : c.Answer → Except Exc Bool}
    (hr : ∀ answer, r answer = .ok false ↔ ¬Unpins bubblewrap ⟨c, answer⟩) :
    Detects bubblewrap (.ask c r) := by
  intro log x hret
  obtain ⟨answer, rfl, rfl⟩ := Action.returns_ask.mp hret
  rw [hr]
  simp

/-- What is asked of an answer. -/
theorem detects_ask_bind {β : Type} {c : OsCall} {r : c.Answer → Except Exc β} {g : β → Bool}
    (hr : ∀ answer, (r answer).map g = .ok false ↔ ¬Unpins bubblewrap ⟨c, answer⟩) :
    Detects bubblewrap (do return g (← .ask c r)) := by
  intro log x hret
  rcases Action.returns_bind.mp hret with ⟨l, l', b, rfl, hask, hpure⟩ | ⟨e, hask, rfl⟩
  · obtain ⟨answer, rfl, hanswer⟩ := Action.returns_ask.mp hask
    obtain ⟨rfl, rfl⟩ := Action.returns_pure.mp hpure
    have hiff := hr answer
    rw [← hanswer] at hiff
    simpa [Except.map] using hiff
  · obtain ⟨answer, rfl, hanswer⟩ := Action.returns_ask.mp hask
    have hiff := hr answer
    rw [← hanswer] at hiff
    simpa [Except.map] using hiff

theorem Detects.or {p q : Os Bool} (hp : Detects bubblewrap p) (hq : Detects bubblewrap q) :
    Detects bubblewrap (Os.or p q) := by
  intro log x hret
  rcases Action.returns_bind.mp hret with ⟨l, l', found, rfl, hfirst, hrest⟩ | ⟨e, hfail, rfl⟩
  · have hiff := hp l _ hfirst
    rw [happened_append, not_or]
    cases found with
    | true =>
      obtain ⟨rfl, rfl⟩ := Action.returns_pure.mp hrest
      exact iff_of_false (by simp) fun h ↦ absurd (hiff.mpr h.1) (by simp)
    | false =>
      rw [and_iff_right (hiff.mp rfl)]
      exact hq l' x hrest
  · exact iff_of_false (by simp) fun h ↦ absurd ((hp log _ hfail).mpr h) (by simp)

theorem detects_pinChanged : Detects bubblewrap (pinChanged bubblewrap.path bubblewrap.sha256) := by
  refine .or (detects_ask fun answer ↦ ?_) (.or (detects_ask_bind fun answer ↦ ?_) (.or
    (detects_ask_bind fun answer ↦ ?_) (.or (detects_ask_bind fun answer ↦ ?_)
      (detects_ask_bind fun answer ↦ ?_))))
  all_goals
    rcases answer with e | answer <;> simp [Unpins, Except.map, Except.mapError]

/-- What is not said of a cleanup that failed. -/
def IsOther (e : Exc) : Prop := ∀ detail, e ≠ sandboxError .cleanupFailed detail

theorem isOther_of_isOsError {e : Exc} (h : IsOsError e) : IsOther e := by
  rintro detail rfl
  exact absurd h (by simp [sandboxError, Exc.isOsError])

theorem raises_pinChanged : (pinChanged bubblewrap.path bubblewrap.sha256).Raises IsOther := by
  have hos : ∀ {α : Type} {c : OsCall} {r : c.Answer → Except Exc α},
      (∀ answer e, r answer = .error e → IsOsError e) → (Action.ask c r).Raises IsOther :=
    fun hr ↦ (Action.raises_ask hr).mono fun _ ↦ isOther_of_isOsError
  have hor : ∀ {p q : Os Bool}, p.Raises IsOther → q.Raises IsOther → (Os.or p q).Raises IsOther :=
    fun hp hq ↦ hp.bind fun _ ↦ .ite (fun _ ↦ Action.raises_pure _) fun _ ↦ hq
  have hresolve : (Os.resolve bubblewrap.path).Raises IsOther := by
    refine Action.raises_ask fun answer e he ↦ ?_
    obtain ⟨error, -, rfl⟩ := mapError_eq_error_iff.mp he
    cases error <;> exact fun _ heq ↦ Exc.noConfusion heq
  refine hor (hos fun _ _ ↦ isOsError_of_mapError) (hor (hresolve.bind fun _ ↦ Action.raises_pure _)
    (hor ?_ (hor ?_ ?_)))
  all_goals
    exact (hos fun _ _ ↦ isOsError_of_mapError).bind fun _ ↦ Action.raises_pure _

/-- **The binary is verified** just when every answer is as it was. -/
theorem returns_verify {x : Except Exc Unit} (h : bubblewrap.verify.Returns log x) :
    (x = .ok () ↔ ¬Happened (Unpins bubblewrap) log) ∧ ∀ e, x = .error e → IsOther e := by
  obtain ⟨y, hbody, rfl⟩ := Os.returns_translate.mp h
  rw [translate_eq_ok_iff]
  rcases Action.returns_bind.mp hbody with ⟨l, l', changed, rfl, hcheck, hrest⟩ | ⟨e, hcheck, rfl⟩
  · have hiff := detects_pinChanged l _ hcheck
    cases changed with
    | false =>
      obtain ⟨rfl, rfl⟩ := Action.returns_pure.mp hrest
      exact ⟨by simpa using hiff, fun e he ↦ absurd he (by simp [Py.translate])⟩
    | true =>
      obtain ⟨rfl, rfl⟩ := Action.returns_raise.mp hrest
      refine ⟨by simpa using hiff, fun e he ↦ ?_⟩
      obtain rfl := Except.error.inj he
      exact fun _ heq ↦ absurd heq (by simp [sandboxError, Exc.isOsError])
  · have hiff := detects_pinChanged log _ hcheck
    refine ⟨by simpa using hiff, fun e' he ↦ ?_⟩
    obtain rfl := Except.error.inj he
    split
    · exact fun _ heq ↦ absurd heq (by simp [sandboxError])
    · exact raises_pinChanged log e hcheck

end

/-! ## The sandbox -/

/-- A number was too large for a run of the sandbox: the timeout for a float or the selector, or the
grace for a float. -/
def Overflows (limits : CommandLimits) (log : OsLog) : Prop :=
  ∃ started rest, sinceSpawn log = ⟨.monotonic, started⟩ :: rest ∧
    (Os.floatLimit ≤ (limits.timeoutMs : ℚ) / 1000 ∨
      Exceeds limits (started + (limits.timeoutMs : ℚ) / 1000) rest)

/-- The pinned binary was found as it was, for as long as there was a process. -/
def PinHolds (bubblewrap : PinnedBubblewrap) (log : OsLog) : Prop :=
  ¬Happened (Unpins bubblewrap) (sinceSpawn log)

section

variable {backend : LinuxProcessSandboxBackend} {fuel : ℕ} {invocation : SandboxInvocation}
  {limits : CommandLimits} {process : Process} {deadline : ℚ} {log l : OsLog}

/-- What checks a pin exceeds nothing. -/
theorem exceeds_append (hl : ∀ e ∈ l, e.1 ≠ .monotonic ∧ ¬e.1.Tends) :
    Exceeds limits deadline (log ++ l) ↔ Exceeds limits deadline log := by
  have hfar : ¬FarOff deadline l := not_farOff fun e he ↦ (hl e he).1
  have hclose : ¬CloseFails l := by
    rintro ⟨⟨call, answer⟩, hmem, hbad⟩
    have hcall := (hl _ hmem).2
    cases call <;> first | exact hcall trivial | exact hbad
  have hsignal : ¬SignalSent l := fun ⟨process, hmem⟩ ↦ (hl _ hmem).2 trivial
  rw [Exceeds, Exceeds, Overshoots, Overshoots, GraceOverflows, GraceOverflows, farOff_append,
    closeFails_append, signalSent_append, or_iff_left hfar, or_iff_left hclose, or_iff_left hsignal]

theorem not_spawns_supervise {startedAt : CivilTime} {x : Except Exc SandboxResult}
    (h : (backend.supervise fuel limits startedAt process).Returns log x) :
      ¬Happened Spawns log := by
  have hcalls : (backend.supervise fuel limits startedAt process).Calls
      fun c ↦ c.Tends ∨ c.Looks := by
    refine (Action.calls_ask.mpr (.inl trivial)).bind fun _ ↦ Action.calls_lift.bind fun _ ↦
      Action.Calls.bind (.tryFinally ?_ ?_) fun _ ↦
      (Action.calls_ask.mpr (.inr trivial)).bind fun _ ↦
        trivial
    · exact tends_captureAndReap.mono fun _ ↦ .inl
    · exact backend.bubblewrap.looks_verify.mono fun _ ↦ .inr
  refine not_happened_of_calls (S := fun c ↦ c.Tends ∨ c.Looks) (hcalls.leads h)
    fun c hc answer ↦ ?_
  cases c <;> first | exact id | exact hc.elim False.elim False.elim

/-- **How a process is left** that was not seen to exit. -/
theorem supervise_leaves {startedAt : CivilTime} {x : Except Exc SandboxResult}
    (h : (backend.supervise fuel limits startedAt process).Returns log x) (hseen : ¬ExitSeen log) :
    ∃ started rest, log = ⟨.monotonic, started⟩ :: rest ∧
      ((∃ detail, x = .error (sandboxError .cleanupFailed detail)) ↔
        ¬(Os.floatLimit ≤ (limits.timeoutMs : ℚ) / 1000 ∨
          Exceeds limits (started + (limits.timeoutMs : ℚ) / 1000) rest) ∧
        ¬Happened (Unpins backend.bubblewrap) log) := by
  obtain ⟨started, rest, rfl, hrest⟩ := returns_supervise h
  refine ⟨started, rest, rfl, ?_⟩
  rcases hrest with ⟨e, hseconds, rfl, rfl⟩ | ⟨timeout, y, captured, verified, after, hseconds, rfl,
    hlater, hcapture, hend⟩
  · rw [Os.seconds] at hseconds
    split at hseconds
    · rename_i hover
      obtain rfl := Except.error.inj hseconds
      exact iff_of_false (by simp [sandboxError]) fun hfits ↦ hfits.1 (.inl hover)
    · exact absurd hseconds (by simp)
  rw [Os.seconds] at hseconds
  split at hseconds
  · exact absurd hseconds (by simp)
  rename_i hfits
  obtain rfl := Except.ok.inj hseconds
  rw [ExitSeen, happened_cons, happened_append, not_or, not_or] at hseen
  have hsettles : Settles (Exceeds limits (started + (limits.timeoutMs : ℚ) / 1000)) y captured :=
    Action.ensures_appends.mp captureAndReap_settles captured y hcapture
  -- what follows the capture exceeds nothing, and only the check of the pin says anything about it
  have hl : ∀ e ∈ verified ++ after, e.1 ≠ .monotonic ∧ ¬e.1.Tends := by
    intro e he
    have hconcludes := hlater e he
    obtain ⟨call, answer⟩ := e
    cases call <;> first | exact hconcludes.elim | exact ⟨by simp, id⟩
  have hpin : Happened (Unpins backend.bubblewrap)
      (⟨.monotonic, started⟩ :: (captured ++ (verified ++ after))) ↔
        Happened (Unpins backend.bubblewrap) verified := by
    have hcaptured : ¬Happened (Unpins backend.bubblewrap) captured :=
      not_happened_of_calls (tends_captureAndReap.leads hcapture) fun c hc answer ↦ by
        cases c <;> first | exact hc.elim | exact id
    have hlast : ¬Happened (Unpins backend.bubblewrap) after := by
      rcases hend with ⟨e, -, rfl, -⟩ | ⟨-, ⟨e, -, rfl, -⟩ | ⟨_, _, _, now, -, rfl, -⟩⟩
      · exact not_happened_nil
      · exact not_happened_nil
      · simp [Unpins]
    rw [happened_cons, or_iff_right (by exact id), happened_append, or_iff_right hcaptured,
      happened_append, or_iff_left hlast]
  rw [exceeds_append hl, or_iff_right hfits, hpin]
  have hleft := hsettles.resolve_left hseen.2.1
  rcases hend with ⟨e, hverify, -, rfl⟩ | ⟨hverify, hend⟩
  · -- the check of the pin takes over whatever the capture raised
    obtain ⟨hiff, hother⟩ := returns_verify hverify
    refine iff_of_false ?_ fun h ↦ absurd (hiff.mpr h.2) (by simp)
    rintro ⟨detail, heq⟩
    exact hother e rfl detail (Except.error.inj heq)
  · rw [and_iff_left ((returns_verify hverify).1.mp rfl)]
    rcases hleft with ⟨hover, detail, rfl⟩ | ⟨hover, message, rfl⟩
    · rcases hend with ⟨e, heq, -, rfl⟩ | ⟨_, _, _, _, heq, -⟩
      · exact iff_of_true ⟨detail, by rw [Except.error.inj heq]⟩ hover
      · exact absurd heq (by simp)
    · rcases hend with ⟨e, heq, -, rfl⟩ | ⟨_, _, _, _, heq, -⟩
      · rw [← Except.error.inj heq]
        exact iff_of_false (by simp [sandboxError]) (not_not.mpr hover)
      · exact absurd heq (by simp)

/-- **The exits of the sandbox with a running process**, that do not say that the cleanup failed. -/
theorem execute_leaves {ι : Type} {leader : ι} {x : Except Exc SandboxResult}
    (h : (backend.execute fuel invocation).Returns log x) :
    (Leaks leader log → ∃ detail, x = .error (sandboxError .cleanupFailed detail)) ↔
      ExitSeen log ∨ ¬Overflows invocation.limits log ∧ PinHolds backend.bubblewrap log := by
  have hnone : ¬Happened Spawns log →
      ((Leaks leader log → ∃ detail, x = .error (sandboxError .cleanupFailed detail)) ↔
        ExitSeen log ∨ ¬Overflows invocation.limits log ∧ PinHolds backend.bubblewrap log) := by
    intro hlog
    refine iff_of_true (fun hleaks ↦ absurd hleaks (not_leaks hlog)) (.inr ⟨?_, ?_⟩)
    · rintro ⟨started, rest, heq, -⟩
      rw [sinceSpawn_of_not_spawns hlog] at heq
      exact absurd heq (by simp)
    · rw [PinHolds, sinceSpawn_of_not_spawns hlog]
      exact not_happened_nil
  rcases returns_execute h with ⟨e, hprepare, -⟩ | ⟨before, command, startedAt, hprepare,
    ⟨failure, e, rfl, -⟩ | ⟨process, rest, rfl, hsupervise⟩⟩
  · exact hnone (not_spawns_of_looks ((backend.looks_prepareSpawn _).leads hprepare))
  · have hbefore := (backend.looks_prepareSpawn _).leads hprepare
    refine hnone ?_
    rw [happened_append, or_iff_right (not_spawns_of_looks hbefore), happened_cons]
    exact not_or.mpr ⟨id, not_happened_nil⟩
  · have hbefore := (backend.looks_prepareSpawn _).leads hprepare
    rw [leaks_iff hbefore (not_spawns_supervise hsupervise)]
    by_cases hseen : ExitSeen (before ++ ⟨.popen command rootDirectory [], .ok process⟩ :: rest)
    · exact iff_of_true (fun h ↦ absurd hseen h) (.inl hseen)
    · have hrest : ¬ExitSeen rest := fun h ↦ hseen (happened_append.mpr (.inr (happened_cons.mpr
        (.inr h))))
      obtain ⟨started, rest, rfl, hiff⟩ := supervise_leaves hsupervise hrest
      have hsince : sinceSpawn (before ++ ⟨.popen command rootDirectory [], .ok process⟩ ::
          ⟨.monotonic, started⟩ :: rest) = ⟨.monotonic, started⟩ :: rest :=
        sinceSpawn_append (not_spawns_of_looks hbefore)
      have hover : Overflows invocation.limits (before ++ ⟨.popen command rootDirectory [],
          .ok process⟩ :: ⟨.monotonic, started⟩ :: rest) ↔
          (Os.floatLimit ≤ (invocation.limits.timeoutMs : ℚ) / 1000 ∨
            Exceeds invocation.limits (started + (invocation.limits.timeoutMs : ℚ) / 1000)
              rest) := by
        rw [Overflows, hsince]
        constructor
        · rintro ⟨started', rest', heq, h⟩
          obtain ⟨hevent, rfl⟩ := List.cons.inj heq
          obtain rfl : started = started' := by simpa using hevent
          exact h
        · exact fun h ↦ ⟨started, rest, rfl, h⟩
      rw [or_iff_right hseen, hover, PinHolds, hsince, ← hiff]
      exact ⟨fun h ↦ h hseen, fun h _ ↦ h⟩

end

/-! ## Git -/

/-- A failure after which no handler ends the process. -/
def BreaksOff : Event OsCall.Answer → Prop
  | ⟨.openSelector, .error _⟩ | ⟨.register _ _, .error _⟩ | ⟨.select _ _, .error _⟩
  | ⟨.read _ _ _, .error _⟩ | ⟨.closeSelector, .error _⟩ => True
  | ⟨.killpg _ _, .error e⟩ => e.kind ≠ .processLookup ∧ e.kind ≠ .permission
  | ⟨.kill _, .error e⟩ => e.kind ≠ .processLookup
  | _ => False

/-- A call of a Git command fails so, or the deadline is too far off for the selector. -/
def Troubles (git : ControlledGitCli) (log : OsLog) : Prop :=
  ∃ started rest, sinceSpawn log = ⟨.monotonic, started⟩ :: rest ∧
    (Happened BreaksOff rest ∨ FarOff (started + git.timeoutSeconds) rest)

/-- What can be said of a command that raises. -/
def Excuses (deadline : ℚ) (event : Event OsCall.Answer) : Prop :=
  SeesExit event ∨ BreaksOff event ∨ TellsFar deadline event

namespace ControlledGitCli

section

variable {α : Type} {git : ControlledGitCli} {fuel : ℕ} {process : Process} {deadline : ℚ}
  {log : OsLog}

theorem owes_suppress {caught : Exc → Bool} {c : OsCall} {r : c.Answer → Except Exc Unit}
    {B : Event OsCall.Answer → Prop}
    (h : ∀ answer e, r answer = .error e → caught e = false → B ⟨c, answer⟩) :
    (Os.suppress caught (.ask c r)).Owes B := by
  intro log e hret
  rcases Action.returns_tryCatch.mp hret with ⟨a, -, heq⟩ | ⟨l, l', e', rfl, hask, hhandler⟩
  · exact absurd heq (by simp)
  · obtain ⟨answer, rfl, hanswer⟩ := Action.returns_ask.mp hask
    split at hhandler
    · exact absurd (Action.returns_pure.mp hhandler).2 (by simp)
    · rename_i hcaught
      exact happened_append.mpr (.inl (happened_cons.mpr (.inl
        (h answer e' hanswer.symm (by simpa using hcaught)))))

theorem owes_killAll : (killAll process).Owes (Excuses deadline) := by
  refine .bind (owes_suppress fun answer e he hcaught ↦ ?_) fun _ ↦
    owes_suppress fun answer e he hcaught ↦ ?_
  all_goals
    obtain ⟨error, rfl, rfl⟩ := mapError_eq_error_iff.mp he
    refine .inr (.inl ?_)
    obtain ⟨kind, message⟩ := error
    cases kind <;> simp_all [OsError.toExc, BreaksOff]

theorem seesExit_of_returns_wait {status : ℤ} {B : Event OsCall.Answer → Prop}
    (hB : ∀ e, SeesExit e → B e) (h : (Os.wait process).Returns log (.ok status)) :
      Happened B log := by
  rw [returns_wait h]
  exact happened_cons.mpr (.inl (hB _ trivial))

theorem owes_wait {B : Event OsCall.Answer → Prop} : (Os.wait process).Owes B :=
  Action.owes_ask fun _ _ h ↦ absurd h (by simp)

theorem excuses_of_seesExit (e : Event OsCall.Answer) (h : SeesExit e) : Excuses deadline e :=
  .inl h

theorem owes_terminate : (terminate process).Owes (Excuses deadline) :=
  .bind (Action.owes_ask fun _ _ h ↦ absurd h (by simp)) fun _ ↦
    .bind (.ite (fun _ ↦ owes_killAll) fun _ ↦ Action.owes_pure _) fun _ ↦
      owes_wait.bind fun _ ↦ Action.owes_pure _

/-- A process that was ended has exited. -/
theorem returns_terminate {B : Event OsCall.Answer → Prop} (hB : ∀ e, SeesExit e → B e)
    (h : (terminate process).Returns log (.ok ())) : Happened B log := by
  obtain ⟨l, l', status, rfl, -, hrest⟩ := Action.returns_bind_ok.mp h
  obtain ⟨l₁, l₂, ⟨⟩, rfl, -, hwait⟩ := Action.returns_bind_ok.mp hrest
  obtain ⟨l₃, l₄, status, rfl, hwait, -⟩ := Action.returns_bind_ok.mp hwait
  exact happened_append.mpr (.inr (happened_append.mpr (.inr (happened_append.mpr
    (.inl (seesExit_of_returns_wait hB hwait))))))

theorem owes_after_terminate {f : Unit → Os α} :
    (terminate process >>= f).Owes (Excuses deadline) :=
  owes_terminate.bind_of_ok fun _ _ ↦ returns_terminate excuses_of_seesExit

theorem owes_call {c : OsCall} {β : Type} {r : c.Answer → Except Exc β}
    (h : ∀ answer e, r answer = .error e → BreaksOff ⟨c, answer⟩) :
    (Action.ask c r).Owes (Excuses deadline) :=
  Action.owes_ask fun answer e he ↦ .inr (.inl (h answer e he))

theorem owes_readEvents (events : List Stream) (streams : Streams) :
    (git.readEvents process events streams).Owes (Excuses deadline) := by
  induction events generalizing streams with
  | nil => exact Action.owes_pure _
  | cons stream events ih =>
    refine .bind (owes_call fun answer e he ↦ ?_) fun chunk ↦
      .ite (fun _ ↦ ih _) fun _ ↦ .ite (fun _ ↦ owes_after_terminate) fun _ ↦ ih _
    obtain ⟨error, rfl, -⟩ := mapError_eq_error_iff.mp he
    trivial

theorem owes_captureLoop (streams : Streams) :
    (git.captureLoop process deadline fuel streams).Owes (Excuses deadline) := by
  induction fuel generalizing streams with
  | zero => exact Action.owes_running
  | succ fuel ih =>
    refine .ite (fun _ ↦ Action.owes_pure _) fun _ log e hret ↦ ?_
    rcases Action.returns_bind.mp hret with ⟨l, l', now, rfl, hclock, hrest⟩ | ⟨e', hclock, -⟩
    · obtain rfl := returns_monotonic hclock
      by_cases hfar : Os.selectLimit < deadline - now
      · exact happened_append.mpr (.inl (happened_cons.mpr (.inl (.inr (.inr hfar)))))
      refine happened_append.mpr (.inr ?_)
      have howes : ∀ {p : Os Streams}, p.Owes (Excuses deadline) → p.Returns l' (.error e) →
          Happened (Excuses deadline) l' := fun hp ↦ hp l' e
      refine howes (.ite (fun _ ↦ owes_after_terminate) fun _ ↦ .bind ?_ fun events ↦
        .ite (fun _ ↦ owes_after_terminate) fun _ ↦ (owes_readEvents _ _).bind fun _ ↦ ih _) hrest
      rw [Os.select, if_neg hfar]
      refine owes_call fun answer e he ↦ ?_
      cases answer with
      | ok ready => exact absurd he (by simp [Except.mapError, Except.map])
      | error error => trivial
    · obtain ⟨answer, -, hanswer⟩ := Action.returns_ask.mp hclock
      exact absurd hanswer (by simp)

/-- **However a capture ends**, the exit of the process was seen, or there was trouble. -/
theorem returns_captureBounded {x : Except Exc (List UInt8 × List UInt8 × ℤ)}
    (h : (git.captureBounded fuel process).Returns log x) :
    ∃ started rest, log = ⟨.monotonic, started⟩ :: rest ∧
      (ExitSeen rest ∨ (∃ e, x = .error e) ∧
        (Happened BreaksOff rest ∨ FarOff (started + git.timeoutSeconds) rest)) := by
  rw [captureBounded] at h
  rcases Action.returns_bind.mp h with ⟨l, rest, started, rfl, hclock, hbody⟩ | ⟨e, hclock, -⟩
  swap
  · obtain ⟨answer, -, hanswer⟩ := Action.returns_ask.mp hclock
    exact absurd hanswer (by simp)
  obtain rfl := returns_monotonic hclock
  refine ⟨started, rest, rfl, ?_⟩
  have hopen : Os.openSelector.Owes (Excuses (started + git.timeoutSeconds)) :=
    owes_call fun answer e he ↦ by
      obtain ⟨error, rfl, -⟩ := mapError_eq_error_iff.mp he
      trivial
  have hclose : Os.closeSelector.Owes (Excuses (started + git.timeoutSeconds)) :=
    owes_call fun answer e he ↦ by
      obtain ⟨error, rfl, -⟩ := mapError_eq_error_iff.mp he
      trivial
  have hregister : ∀ stream, (Os.register process stream).Owes
      (Excuses (started + git.timeoutSeconds)) := fun stream ↦ owes_call fun answer e he ↦ by
    obtain ⟨error, rfl, -⟩ := mapError_eq_error_iff.mp he
    trivial
  cases x with
  | error e =>
    have howes : Happened (Excuses (started + git.timeoutSeconds)) rest := by
      refine Action.Owes.bind hopen (fun _ ↦ .bind (.tryFinally (.bind (hregister _) fun _ ↦
        .bind (hregister _) fun _ ↦ owes_captureLoop _) hclose) fun _ ↦
          owes_wait.bind fun _ ↦ Action.owes_pure _) rest e hbody
    obtain ⟨event, hmem, hsees | hbreaks | hfar⟩ := howes
    · exact .inl ⟨event, hmem, hsees⟩
    · exact .inr ⟨⟨e, rfl⟩, .inl ⟨event, hmem, hbreaks⟩⟩
    · exact .inr ⟨⟨e, rfl⟩, .inr ⟨event, hmem, hfar⟩⟩
  | ok captured =>
    obtain ⟨l₁, l₂, ⟨⟩, rfl, -, hcapture⟩ := Action.returns_bind_ok.mp hbody
    obtain ⟨l₃, l₄, streams, rfl, -, hend⟩ := Action.returns_bind_ok.mp hcapture
    obtain ⟨l₅, l₆, status, rfl, hwait, -⟩ := Action.returns_bind_ok.mp hend
    exact .inl (happened_append.mpr (.inr (happened_append.mpr (.inr (happened_append.mpr
      (.inl (seesExit_of_returns_wait (fun _ ↦ id) hwait)))))))

/-- A command spawns no process, or captures its output, and then nothing is called any more. -/
theorem returns_run {arguments : List Text} {cwd : Path} {environment : List (Text × Text)}
    {x : Except Exc Text} (h : (git.run fuel arguments cwd environment).Returns log x) :
    (∃ argv failure, log = [⟨.popen argv cwd environment, .error failure⟩]) ∨
      ∃ argv process rest y, log = ⟨.popen argv cwd environment, .ok process⟩ :: rest ∧
        (git.captureBounded fuel process).Returns rest y ∧
        (∀ e, y = .error e → ∃ e', x = .error e') := by
  have hcapture : ∀ {l : OsLog} {y : Except Exc (List UInt8 × List UInt8 × ℤ)},
      (Os.translate Exc.isOsError
        (fun _ ↦ gitCliError .commandFailed "Git process could not be started")
        (Os.popen (git.executable.str :: arguments) cwd environment >>= git.captureBounded
          fuel)).Returns l y →
      (∃ argv failure, l = [⟨.popen argv cwd environment, .error failure⟩]) ∨
        ∃ argv process rest z, l = ⟨.popen argv cwd environment, .ok process⟩ :: rest ∧
          (git.captureBounded fuel process).Returns rest z ∧
          (∀ e, z = .error e → ∃ e', y = .error e') := by
    intro l y hl
    obtain ⟨z, hbody, rfl⟩ := Os.returns_translate.mp hl
    rcases Action.returns_bind.mp hbody with ⟨l₁, rest, process, rfl, hpopen, hcapture⟩ |
      ⟨e, hpopen, rfl⟩
    · obtain ⟨answer, rfl, hanswer⟩ := Action.returns_ask.mp hpopen
      rw [mapError_eq_ok_iff.mp hanswer.symm]
      exact .inr ⟨_, process, rest, z, rfl, hcapture, fun e he ↦ ⟨_, by rw [he]; rfl⟩⟩
    · obtain ⟨answer, rfl, hanswer⟩ := Action.returns_ask.mp hpopen
      obtain ⟨failure, rfl, -⟩ := mapError_eq_error_iff.mp hanswer.symm
      exact .inl ⟨_, failure, rfl⟩
  rcases Action.returns_bind.mp h with ⟨l, l', ⟨stdout, stderr, returncode⟩, rfl, hfirst, hrest⟩ |
    ⟨e, hfirst, rfl⟩
  · obtain rfl : l' = [] := by
      dsimp only at hrest
      split at hrest
      · exact (Action.returns_raise.mp hrest).1
      · split at hrest
        · exact (Action.returns_pure.mp hrest).1
        · exact (Action.returns_raise.mp hrest).1
    rw [List.append_nil]
    rcases hcapture hfirst with ⟨argv, failure, rfl⟩ | ⟨argv, process, rest, z, rfl, hz, herror⟩
    · exact .inl ⟨argv, failure, rfl⟩
    · exact .inr ⟨argv, process, rest, z, rfl, hz, fun e he ↦ absurd (herror e he).choose_spec
        (by simp)⟩
  · rcases hcapture hfirst with ⟨argv, failure, rfl⟩ | ⟨argv, process, rest, z, rfl, hz, -⟩
    · exact .inl ⟨argv, failure, rfl⟩
    · exact .inr ⟨argv, process, rest, z, rfl, hz, fun _ _ ↦ ⟨e, rfl⟩⟩

/-- **The exits of a Git command with a running process.** -/
theorem run_leaves {ι : Type} {leader : ι} {arguments : List Text} {cwd : Path}
    {environment : List (Text × Text)} {x : Except Exc Text}
    (h : (git.run fuel arguments cwd environment).Returns log x) :
    ((∃ e, x = .error e) → ¬Leaks leader log) ↔ ExitSeen log ∨ ¬Troubles git log := by
  rcases returns_run h with ⟨argv, failure, rfl⟩ | ⟨argv, process, rest, y, rfl, hcapture, herror⟩
  · have hlog : ¬Happened Spawns [(⟨.popen argv cwd environment, .error failure⟩ :
        Event OsCall.Answer)] := by
      rw [happened_cons]
      exact not_or.mpr ⟨id, not_happened_nil⟩
    refine iff_of_true (fun _ ↦ not_leaks hlog) (.inr ?_)
    rintro ⟨started, rest, heq, -⟩
    exact absurd heq (by simp [sinceSpawn])
  · have hspawns := not_spawns_of_tends (tends_captureBounded.leads hcapture)
    have hleaks : Leaks leader ([] ++ ⟨.popen argv cwd environment, .ok process⟩ :: rest) ↔
        ¬ExitSeen ([] ++ ⟨.popen argv cwd environment, .ok process⟩ :: rest) :=
      leaks_iff (by simp) hspawns
    rw [List.nil_append] at hleaks
    rw [hleaks, not_not]
    obtain ⟨started, rest, rfl, hseen | ⟨⟨e, rfl⟩, htrouble⟩⟩ := returns_captureBounded hcapture
    · have hlog : ExitSeen
          (⟨.popen argv cwd environment, .ok process⟩ :: ⟨.monotonic, started⟩ :: rest) :=
        happened_cons.mpr (.inr (happened_cons.mpr (.inr hseen)))
      exact iff_of_true (fun _ ↦ hlog) (.inl hlog)
    · have htroubles : Troubles git
          (⟨.popen argv cwd environment, .ok process⟩ :: ⟨.monotonic, started⟩ :: rest) :=
        ⟨started, rest, rfl, htrouble⟩
      rw [or_iff_left (not_not.mpr htroubles)]
      exact ⟨fun h ↦ h (herror e rfl), fun h _ ↦ h⟩

end

end ControlledGitCli

/-! ## Both runners -/

/-- **No process is left running**, just when an answer told that it exited, or else no number was
too large and the pinned binary held; of a Git command, just when an answer told so, or else there
was no trouble. -/
theorem spawned_process_exits {ι : Type} (leader : ι) :
    (∀ (backend : LinuxProcessSandboxBackend) (fuel : ℕ) (invocation : SandboxInvocation)
        (log : OsLog) (x : Except Exc SandboxResult),
      (backend.execute fuel invocation).Returns log x →
      ((Leaks leader log → ∃ detail, x = .error (sandboxError .cleanupFailed detail)) ↔
        ExitSeen log ∨ ¬Overflows invocation.limits log ∧ PinHolds backend.bubblewrap log)) ∧
    ∀ (git : ControlledGitCli) (fuel : ℕ) (arguments : List Text) (cwd : Path)
        (environment : List (Text × Text)) (log : OsLog) (x : Except Exc Text),
      (git.run fuel arguments cwd environment).Returns log x →
        (((∃ e, x = .error e) → ¬Leaks leader log) ↔ ExitSeen log ∨ ¬Troubles git log) :=
  ⟨fun _ _ _ _ _ h ↦ execute_leaves h, fun _ _ _ _ _ _ _ h ↦ ControlledGitCli.run_leaves h⟩

/-- A host on which every process fails. -/
def failingHost : Unit → (call : OsCall) → call.Answer × Unit
  | _, .wait _ => (1, ())
  | _, call => ((obligingHost (fun _ ↦ []) [] call).1, ())

/-- Somebody waited for a process. -/
def waited (log : OsLog) : Bool := log.any fun event ↦ event.1 matches .wait _

theorem exitSeen_of_waited {log : OsLog} (h : waited log = true) : ExitSeen log := by
  obtain ⟨⟨call, answer⟩, hmem, hcall⟩ := List.any_eq_true.mp h
  refine ⟨⟨call, answer⟩, hmem, ?_⟩
  cases call with
  | wait => trivial
  | _ => exact absurd hcall (by simp)

/-- A process that fails is not left, neither when the sandbox returns its result nor when Git's
command raises. -/
theorem spawned_process_exits_failing :
    (∃ log result, (testBackend.execute 9 testInvocation).Returns log (.ok result) ∧
      ¬Leaks () log) ∧
    ∃ log e, (localGit.run 9 ["version"] ⟨["work"]⟩ []).Returns log (.error e) ∧
      ¬Leaks () log := by
  have hsandbox : (Interaction.play failingHost (testBackend.execute 9 testInvocation) ()).2.map
        Except.isOk = some true ∧
      waited (Interaction.play failingHost (testBackend.execute 9 testInvocation) ()).1 = true := by
    decide +kernel
  have hgit : (Interaction.play failingHost
        (localGit.run 9 ["version"] ⟨["work"]⟩ []) ()).2.map Except.isOk = some false ∧
      waited (Interaction.play failingHost
        (localGit.run 9 ["version"] ⟨["work"]⟩ []) ()).1 = true := by
    decide +kernel
  constructor
  · obtain ⟨x, hx, hok⟩ := Option.map_eq_some_iff.mp hsandbox.1
    have hreturns := Interaction.returns_play hx
    cases x with
    | error e => exact absurd hok (by simp [Except.isOk, Except.toBool])
    | ok result =>
      refine ⟨_, result, hreturns, fun hleaks ↦ ?_⟩
      obtain ⟨detail, heq⟩ := ((spawned_process_exits ()).1 _ _ _ _ _ hreturns).mpr
        (.inl (exitSeen_of_waited hsandbox.2)) hleaks
      exact absurd heq (by simp)
  · obtain ⟨x, hx, hok⟩ := Option.map_eq_some_iff.mp hgit.1
    have hreturns := Interaction.returns_play hx
    cases x with
    | ok output => exact absurd hok (by simp [Except.isOk, Except.toBool])
    | error e =>
      exact ⟨_, e, hreturns, ((spawned_process_exits ()).2 _ _ _ _ _ _ _ hreturns).mpr
        (.inl (exitSeen_of_waited hgit.2)) ⟨e, rfl⟩⟩

/-- A host on which no process exits.  Its state is whether there is one. -/
def idleHost : Bool → (call : OsCall) → call.Answer × Bool
  | _, .popen _ _ _ => (.ok ⟨1⟩, true)
  | spawned, call => ((obligingHost (fun _ ↦ []) [] call).1, spawned)

/-- A call that neither ends a process nor asks whether it has ended. -/
def isPatient : OsCall → Bool
  | .poll _ | .wait _ | .waitFor _ _ | .killpg _ _ | .kill _ => false
  | _ => true

/-- An `OverflowError`. -/
def isOverflow {α : Type} : Except Exc α → Bool
  | .error (.overflowError _) => true
  | _ => false

theorem exists_of_isOverflow {α : Type} {x : Except Exc α} (h : isOverflow x = true) :
    ∃ message, x = .error (.overflowError message) := by
  rw [isOverflow.eq_def] at h
  split at h
  · exact ⟨_, rfl⟩
  · exact absurd h (by simp)

/-- An invocation whose timeout is a millisecond more than a selector can wait. -/
def patientInvocation : SandboxInvocation :=
  { testInvocation with limits := { testInvocation.limits with
      timeoutMs := 2147483648
      timeoutMs_pos := by decide } }

theorem idleHost_step (spawned : Bool) (call : OsCall) (h : isPatient call = true) :
    ProcessGroup.Step () ⟨{_member | spawned = true}, ∅⟩ ⟨call, (idleHost spawned call).1⟩
      ⟨{_member | (idleHost spawned call).2 = true}, ∅⟩ := by
  cases call with
  | popen argv cwd environment => exact .spawned rfl
  | poll | wait | waitFor | killpg | kill => exact absurd h (by simp [isPatient])
  | _ => exact .other ⟨subset_rfl, rfl⟩ trivial

/-- **A timeout that is too long for the selector leaves the process running.** -/
theorem overflow_leaks : ∃ log message,
    (testBackend.execute 9 patientInvocation).Returns log (.error (.overflowError message)) ∧
      Leaks () log := by
  have hplay : (Interaction.play idleHost (testBackend.execute 9 patientInvocation) false).2.map
        isOverflow = some true ∧
      (∀ event ∈ (Interaction.play idleHost (testBackend.execute 9 patientInvocation) false).1,
        isPatient event.1 = true) ∧
      (Interaction.playEnd idleHost (testBackend.execute 9 patientInvocation) false) = true := by
    decide +kernel
  obtain ⟨hresult, hpatient, hspawned⟩ := hplay
  have hsteps := Interaction.steps_playEnd (S := fun c ↦ isPatient c = true)
    (fun spawned ↦ (⟨{_member | spawned = true}, ∅⟩ : ProcessGroup Unit)) idleHost_step hpatient
  obtain ⟨x, hx, hover⟩ := Option.map_eq_some_iff.mp hresult
  obtain ⟨message, rfl⟩ := exists_of_isOverflow hover
  refine ⟨_, message, Interaction.returns_play hx, _, _, ?_, hsteps, hspawned⟩
  simp

end Alicerce
