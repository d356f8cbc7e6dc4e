import Alicerce.Adapters.SandboxResults
import Alicerce.Adapters.SandboxStages
import Mathlib.Data.Set.Basic

/-!
# The process group of a run

A spawned process leads a group of its own, whose members exit when they like: on a signal, or by
themselves, or never.  What the runner learns of it is about the leader alone, from `poll` and
`wait`; what it does to it is to send signals to all members.

* `ProcessGroup` is a group, and `ProcessGroup.Step` the law of it.
* `ProcessGroup.Reached`: a member has exited, or was sent `SIGKILL`.
* `returns_terminateTree` lists the runs of `terminateTree` that do not raise, with their logs.
* `LinuxProcessSandboxBackend.terminates_group` says when such a run has reached every member: when
  the leader outlived its grace, so that all were killed, or when nobody outlived the leader.
* `descendant_survives`: a descendant that ignores the signal its leader obeys.
-/

set_option autoImplicit false

namespace Alicerce

open Py Lib

/-! ## Groups -/

/-- A process group: which members are alive, and which were sent `SIGKILL` while they were. -/
structure ProcessGroup (ι : Type) where
  alive : Set ι
  killed : Set ι

/-- A call that neither spawns nor signals. -/
def OsCall.Spares : OsCall → Prop
  | .popen _ _ _ | .killpg _ _ | .kill _ => False
  | _ => True

theorem OsCall.spares_of_captures : ∀ c, OsCall.Captures c → OsCall.Spares c := by
  intro c hc
  cases c <;> trivial

namespace ProcessGroup

variable {ι : Type}

/-- Some members exit. -/
structure Ages (group group' : ProcessGroup ι) : Prop where
  alive : group'.alive ⊆ group.alive
  killed : group'.killed = group.killed

/-- A member was reached: it has exited, or it was sent `SIGKILL`. -/
def Reached (group : ProcessGroup ι) (member : ι) : Prop :=
  member ∉ group.alive ∨ member ∈ group.killed

/-- An event that neither says anything of the leader nor does anything to the group. -/
def Elsewhere : Event OsCall.Answer → Prop
  | ⟨.popen _ _ _, .ok _⟩ | ⟨.poll _, _⟩ | ⟨.wait _, _⟩ | ⟨.waitFor _ _, _⟩
  | ⟨.killpg _ .sigkill, .ok _⟩ | ⟨.kill _, .ok _⟩ => False
  | _ => True

/-- The law of the group a leader leads. -/
inductive Step (leader : ι) : ProcessGroup ι → Event OsCall.Answer → ProcessGroup ι → Prop
  | spawned {group group' : ProcessGroup ι} {argv : List Text} {cwd : Path}
      {environment : List (Text × Text)} {process : Process} (hkilled : group'.killed = ∅) :
      Step leader group ⟨.popen argv cwd environment, .ok process⟩ group'
  /-- There is a status once the leader has exited. -/
  | poll {group group' : ProcessGroup ι} {process : Process} {status : Option ℤ}
      (hages : group.Ages group') (hstatus : status.isSome = true ↔ leader ∉ group'.alive) :
      Step leader group ⟨.poll process, status⟩ group'
  | wait {group group' : ProcessGroup ι} {process : Process} {status : ℤ}
      (hages : group.Ages group') (hended : leader ∉ group'.alive) :
      Step leader group ⟨.wait process, status⟩ group'
  | waitFor {group group' : ProcessGroup ι} {process : Process} {timeout : ℚ} {status : Option ℤ}
      (hages : group.Ages group') (hstatus : status.isSome = true ↔ leader ∉ group'.alive) :
      Step leader group ⟨.waitFor process timeout, status⟩ group'
  /-- `SIGKILL` is sent to every member that is alive. -/
  | killpg {group group' : ProcessGroup ι} {process : Process}
      (halive : group'.alive ⊆ group.alive) (hkilled : group'.killed = group.killed ∪ group.alive) :
      Step leader group ⟨.killpg process .sigkill, .ok ()⟩ group'
  | kill {group group' : ProcessGroup ι} {process : Process}
      (halive : group'.alive ⊆ group.alive) (hkilled : group'.killed = insert leader group.killed) :
      Step leader group ⟨.kill process, .ok ()⟩ group'
  | other {group group' : ProcessGroup ι} {event : Event OsCall.Answer}
      (hages : group.Ages group') (hother : Elsewhere event) : Step leader group event group'

variable {leader : ι} {group group' : ProcessGroup ι} {process : Process} {timeout : ℚ}
  {event : Event OsCall.Answer}

theorem step_popen {argv : List Text} {cwd : Path} {environment : List (Text × Text)}
    (h : Step leader group ⟨.popen argv cwd environment, .ok process⟩ group') :
    group'.killed = ∅ := by
  cases h with
  | spawned hkilled => exact hkilled
  | other _ hother => exact hother.elim

theorem step_poll {status : Option ℤ} (h : Step leader group ⟨.poll process, status⟩ group') :
    group.Ages group' ∧ (status.isSome = true ↔ leader ∉ group'.alive) := by
  cases h with
  | poll hages hstatus => exact ⟨hages, hstatus⟩
  | other _ hother => exact hother.elim

theorem step_waitFor {status : Option ℤ}
    (h : Step leader group ⟨.waitFor process timeout, status⟩ group') :
    group.Ages group' ∧ (status.isSome = true ↔ leader ∉ group'.alive) := by
  cases h with
  | waitFor hages hstatus => exact ⟨hages, hstatus⟩
  | other _ hother => exact hother.elim

theorem step_sigterm {answer : Except OsError Unit}
    (h : Step leader group ⟨.killpg process .sigterm, answer⟩ group') : group.Ages group' := by
  cases h with
  | other hages _ => exact hages

theorem step_sigkill (h : Step leader group ⟨.killpg process .sigkill, .ok ()⟩ group') :
    group'.alive ⊆ group.alive ∧ group'.killed = group.killed ∪ group.alive := by
  cases h with
  | killpg halive hkilled => exact ⟨halive, hkilled⟩
  | other _ hother => exact hother.elim

/-- A call that spares the group leaves it as it is, but for the members that exit meanwhile. -/
theorem step_of_spares (hspares : event.1.Spares) (h : Step leader group event group') :
    group.Ages group' := by
  cases h with
  | poll hages _ | wait hages _ | waitFor hages _ | other hages _ => exact hages
  | spawned | killpg | kill => exact hspares.elim

theorem ages_of_spares {α : Type} {p : Os α} {log : OsLog} {x : Except Exc α}
    (hp : p.Calls OsCall.Spares) (hret : p.Returns log x)
    (hsteps : Steps (Step leader) group log group') : group.Ages group' := by
  refine Action.ensures_iff.mp (hp.ensures (P := group.Ages) (fun hspares hw hstep ↦ ?_)
    ⟨subset_rfl, rfl⟩) log x group' hret hsteps
  have hages := step_of_spares hspares hstep
  exact ⟨hages.alive.trans hw.alive, hages.killed.trans hw.killed⟩

end ProcessGroup

/-! ## What is sent -/

section

variable {process : Process} {graceMs : ℕ} {log : OsLog}

/-- The log of a termination at whose start the leader had exited. -/
def goneLog (process : Process) (status : ℤ) : OsLog := [⟨.poll process, some status⟩]

/-- The log of a termination the leader left in its grace. -/
def gracefulLog (process : Process) (grace : ℚ) (status : ℤ) : OsLog :=
  [⟨.poll process, none⟩, ⟨.killpg process .sigterm, .ok ()⟩, ⟨.waitFor process grace, some status⟩]

/-- The log of a termination that was forced. -/
def forcedLog (process : Process) (grace : ℚ) (status : ℤ) : OsLog :=
  [⟨.poll process, none⟩, ⟨.killpg process .sigterm, .ok ()⟩, ⟨.waitFor process grace, none⟩,
    ⟨.killpg process .sigkill, .ok ()⟩, ⟨.waitFor process (max grace (1 / 10)), some status⟩]

theorem returns_killpg {signal : Signal} {x : Except Exc Unit} :
    (Os.killpg process signal).Returns log x ↔
      ∃ answer, log = [⟨.killpg process signal, answer⟩] ∧ x = answer.mapError OsError.toExc :=
  Action.returns_ask

theorem returns_killpg_ok {signal : Signal} (h : (Os.killpg process signal).Returns log (.ok ())) :
    log = [⟨.killpg process signal, .ok ()⟩] := by
  obtain ⟨answer, rfl, hanswer⟩ := returns_killpg.mp h
  rw [mapError_eq_ok_iff.mp hanswer.symm]

theorem returns_waitFor_ok {timeout : ℚ} {status : ℤ}
    (h : (Os.waitFor process timeout).Returns log (.ok status)) :
    log = [⟨.waitFor process timeout, some status⟩] := by
  obtain ⟨answer, rfl, hanswer⟩ := Action.returns_ask.mp h
  cases answer with
  | none => exact absurd hanswer (by simp)
  | some status' => rw [Except.ok.inj hanswer]

theorem returns_waitFor_error {timeout : ℚ} {e : Exc}
    (h : (Os.waitFor process timeout).Returns log (.error e)) :
    log = [⟨.waitFor process timeout, none⟩] ∧ e = .timeoutExpired := by
  obtain ⟨answer, rfl, hanswer⟩ := Action.returns_ask.mp h
  cases answer with
  | none => exact ⟨rfl, Except.error.inj hanswer⟩
  | some status' => exact absurd hanswer (by simp)

/-- The error a handler of `signalTree` takes up is that of the first wait. -/
theorem returns_graceful_error {e : Exc} (he : e.isSubprocessError = true)
    (h : (do
      let grace ← .lift (Os.seconds graceMs)
      discard (Os.waitFor process grace) : Os PUnit).Returns log (.error e)) :
    ∃ grace, Os.seconds graceMs = .ok grace ∧ log = [⟨.waitFor process grace, none⟩] := by
  rcases Action.returns_bind.mp h with ⟨l, l', grace, rfl, hgrace, hwait⟩ | ⟨e', hgrace, heq⟩
  · obtain ⟨rfl, hseconds⟩ := Action.returns_lift.mp hgrace
    refine ⟨grace, hseconds.symm, ?_⟩
    rcases Action.returns_bind.mp hwait with ⟨l₁, l₂, status, -, -, hpure⟩ | ⟨e', hfail, -⟩
    · exact absurd (Action.returns_pure.mp hpure).2 (by simp)
    · exact (returns_waitFor_error hfail).1
  · -- a division that overflows is no error of the wait
    obtain rfl := Except.error.inj heq
    have hoverflow := (Action.returns_lift.mp hgrace).2.symm
    rw [Os.seconds] at hoverflow
    split at hoverflow
    · rw [← Except.error.inj hoverflow] at he
      exact absurd he (by decide)
    · exact absurd hoverflow (by simp)

/-- **The terminations that do not raise.** -/
theorem returns_terminateTree (h : (terminateTree process graceMs).Returns log (.ok ())) :
    (∃ status, log = goneLog process status) ∨
      ∃ grace status, log = gracefulLog process grace status ∨
      log = forcedLog process grace status := by
  rw [terminateTree] at h
  obtain ⟨l, l', status, rfl, hpoll, hrest⟩ := Action.returns_bind_ok.mp h
  obtain ⟨answer, rfl, hanswer⟩ := Action.returns_ask.mp hpoll
  obtain rfl : status = answer := Except.ok.inj hanswer
  cases status with
  | some status =>
    obtain ⟨rfl, -⟩ := Action.returns_pure.mp hrest
    exact .inl ⟨status, rfl⟩
  | none =>
    obtain ⟨y, hsignal, hy⟩ := Os.returns_translate.mp hrest
    obtain rfl := translate_eq_ok_iff.mp hy.symm
    rw [signalTree] at hsignal
    obtain ⟨l₁, l₂, ⟨⟩, rfl, hterm, htry⟩ := Action.returns_bind_ok.mp hsignal
    obtain rfl := returns_killpg_ok hterm
    rcases Action.returns_tryCatch.mp htry with ⟨⟨⟩, htry, -⟩ | ⟨l₃, l₄, e, rfl, hfail, hhandler⟩
    · -- the leader exits in its grace
      obtain ⟨l₃, l₄, grace, rfl, hgrace, hbody⟩ := Action.returns_bind_ok.mp htry
      obtain ⟨rfl, -⟩ := Action.returns_lift.mp hgrace
      obtain ⟨l₅, l₆, status, rfl, hwait, hpure⟩ := Action.returns_bind_ok.mp hbody
      obtain ⟨rfl, -⟩ := Action.returns_pure.mp hpure
      obtain rfl := returns_waitFor_ok hwait
      exact .inr ⟨grace, status, .inl rfl⟩
    · -- the wait has raised, and the second signal is sent
      split at hhandler
      · rename_i he
        obtain ⟨grace, hgrace, rfl⟩ := returns_graceful_error he hfail
        obtain ⟨l₅, l₆, ⟨⟩, rfl, hkill, hrestart⟩ := Action.returns_bind_ok.mp hhandler
        obtain rfl := returns_killpg_ok hkill
        obtain ⟨l₇, l₈, grace', rfl, hlift, hbody⟩ := Action.returns_bind_ok.mp hrestart
        obtain ⟨rfl, hseconds⟩ := Action.returns_lift.mp hlift
        obtain rfl : grace' = grace := Except.ok.inj (hseconds.trans hgrace)
        obtain ⟨l₉, l₁₀, status, rfl, hwait, hpure⟩ := Action.returns_bind_ok.mp hbody
        obtain ⟨rfl, -⟩ := Action.returns_pure.mp hpure
        obtain rfl := returns_waitFor_ok hwait
        exact .inr ⟨grace', status, .inr rfl⟩
      · exact absurd (Action.returns_raise.mp hhandler).2 (by simp)

end

/-! ## Who is reached -/

section

variable {ι : Type} {leader : ι} {group group' : ProcessGroup ι} {process : Process} {graceMs : ℕ}
  {log : OsLog}

/-- **A termination that does not raise reaches every member** when the leader outlives its grace,
and otherwise when no member outlives the leader. -/
theorem terminateTree_reaches (hret : (terminateTree process graceMs).Returns log (.ok ()))
    (hsteps : Steps (ProcessGroup.Step leader) group log group') (hkilled : group.killed = ∅) :
    (∀ member, group'.Reached member) ↔
      (∃ grace, ⟨.waitFor process grace, none⟩ ∈ log) ∨
        ∀ member, member ≠ leader → member ∉ group'.alive := by
  -- nobody was killed on the way, and the leader is gone
  have hspared : group'.killed = ∅ → leader ∉ group'.alive → (∀ event ∈ log, ∀ grace,
      event ≠ ⟨.waitFor process grace, none⟩) → ((∀ member, group'.Reached member) ↔
        (∃ grace, ⟨.waitFor process grace, none⟩ ∈ log) ∨
          ∀ member, member ≠ leader → member ∉ group'.alive) := by
    intro hnone hleader hlog
    rw [or_iff_right fun ⟨grace, hmem⟩ ↦ hlog _ hmem grace rfl]
    constructor
    · intro hreached member _
      exact (hreached member).resolve_right (by simp [hnone])
    · intro hexited member
      by_cases hmember : member = leader
      · exact .inl (hmember ▸ hleader)
      · exact .inl (hexited member hmember)
  rcases returns_terminateTree hret with ⟨status, rfl⟩ | ⟨grace, status, rfl | rfl⟩
  · obtain ⟨g₁, hpoll, hnil⟩ := Steps.cons_iff.mp hsteps
    obtain rfl := Steps.nil_iff.mp hnil
    obtain ⟨hages, hstatus⟩ := ProcessGroup.step_poll hpoll
    exact hspared (hages.killed.trans hkilled) (hstatus.mp rfl) (by simp [goneLog])
  · obtain ⟨g₁, hpoll, hrest⟩ := Steps.cons_iff.mp hsteps
    obtain ⟨g₂, hterm, hrest⟩ := Steps.cons_iff.mp hrest
    obtain ⟨g₃, hwait, hnil⟩ := Steps.cons_iff.mp hrest
    obtain rfl := Steps.nil_iff.mp hnil
    obtain ⟨hages, hstatus⟩ := ProcessGroup.step_waitFor hwait
    have hnone : g₁.killed = ∅ := (ProcessGroup.step_poll hpoll).1.killed.trans hkilled
    have hnone₂ : g₂.killed = ∅ := (ProcessGroup.step_sigterm hterm).killed.trans hnone
    exact hspared (hages.killed.trans hnone₂) (hstatus.mp rfl) (by simp [gracefulLog])
  · -- whoever was alive when `SIGKILL` was sent was sent it
    obtain ⟨g₁, hpoll, hrest⟩ := Steps.cons_iff.mp hsteps
    obtain ⟨g₂, hterm, hrest⟩ := Steps.cons_iff.mp hrest
    obtain ⟨g₃, hwait, hrest⟩ := Steps.cons_iff.mp hrest
    obtain ⟨g₄, hkill, hrest⟩ := Steps.cons_iff.mp hrest
    obtain ⟨g₅, hend, hnil⟩ := Steps.cons_iff.mp hrest
    obtain rfl := Steps.nil_iff.mp hnil
    obtain ⟨halive, hsent⟩ := ProcessGroup.step_sigkill hkill
    obtain ⟨hages, -⟩ := ProcessGroup.step_waitFor hend
    refine iff_of_true (fun member ↦ ?_) (.inl ⟨grace, by simp [forcedLog]⟩)
    by_cases hmember : member ∈ g₃.alive
    · exact .inr (hages.killed ▸ hsent ▸ .inr hmember)
    · exact .inl fun h ↦ hmember (halive (hages.alive h))

/-- **A run that is cut short reaches every member of its group** when the leader outlives its
grace, and otherwise when no member outlives the leader. -/
theorem LinuxProcessSandboxBackend.terminates_group {backend : LinuxProcessSandboxBackend}
    {fuel : ℕ} {invocation : SandboxInvocation} {result : SandboxResult}
    (hret : (backend.execute fuel invocation).Returns log (.ok result))
    (hcut : result.termination = .timedOut ∨ result.termination = .outputLimit)
    (hsteps : Steps (ProcessGroup.Step leader) group log group') :
    ∃ process before ended after terminated, log = before ++ (ended ++ after) ∧
      (∃ command, ⟨.popen command rootDirectory [], .ok process⟩ ∈ before) ∧
      (terminateTree process invocation.limits.terminationGraceMs).Returns ended (.ok ()) ∧
      Steps (ProcessGroup.Step leader) group (before ++ ended) terminated ∧
      Steps (ProcessGroup.Step leader) terminated after group' ∧
      ((∀ member, terminated.Reached member) ↔
        (∃ grace, ⟨.waitFor process grace, none⟩ ∈ ended) ∨
          ∀ member, member ≠ leader → member ∉ terminated.alive) := by
  rcases returns_execute hret with ⟨e, -, heq⟩ | ⟨before, command, startedAt, hprepare,
    ⟨failure, e, -, heq⟩ | ⟨process, rest, rfl, hsupervise⟩⟩
  · exact absurd heq (by simp)
  · exact absurd heq (by simp)
  obtain ⟨started, rest, rfl, ⟨e, -, -, heq⟩ |
    ⟨timeout, y, captured, verified, after, hseconds, rfl, -,
    hcapture, hend⟩⟩ := returns_supervise hsupervise
  · exact absurd heq (by simp)
  rcases hend with ⟨e, -, -, heq⟩ |
    ⟨-, ⟨e, -, -, heq⟩ | ⟨streams, termination, exitCode, finishedAt, rfl, rfl, hresult⟩⟩
  · exact absurd heq (by simp)
  · exact absurd heq (by simp)
  obtain rfl := Except.ok.inj hresult
  obtain ⟨read, ended, rfl, hread, ⟨-, -, hterminate⟩ | ⟨hexited, -⟩⟩ :=
    returns_captureAndReap hcapture
  · refine ⟨process, before ++ ⟨.popen command rootDirectory [], .ok process⟩ ::
      ⟨.monotonic, started⟩ :: read, ended, verified ++ [⟨.utcNow, finishedAt⟩], ?_⟩
    obtain ⟨g₁, hbefore, hrest⟩ := Steps.append_iff.mp hsteps
    obtain ⟨g₂, hspawn, hrest⟩ := Steps.cons_iff.mp hrest
    obtain ⟨g₃, hclock, hrest⟩ := Steps.cons_iff.mp hrest
    obtain ⟨terminated, hcaptured, hafter⟩ := Steps.append_iff.mp hrest
    obtain ⟨g₄, hreading, hending⟩ := Steps.append_iff.mp hcaptured
    have hkilled : g₄.killed = ∅ := by
      have hspared := ProcessGroup.ages_of_spares
        ((calls_withCapture ((calls_captureLoop _).mono OsCall.captures_of_loops)).mono
          OsCall.spares_of_captures) hread hreading
      rw [hspared.killed, (ProcessGroup.step_of_spares (by trivial) hclock).killed]
      exact ProcessGroup.step_popen hspawn
    refine ⟨terminated, by simp, ⟨command, by simp⟩, hterminate, ?_, hafter,
      terminateTree_reaches hterminate hending hkilled⟩
    exact Steps.append_iff.mpr ⟨g₄, Steps.append_iff.mpr ⟨g₁, hbefore,
      .cons hspawn (.cons hclock hreading)⟩, hending⟩
  · -- the run was not cut short
    rcases hcut with hcut | hcut <;> exact absurd (hcut.symm.trans hexited) (by simp)

end

/-! ## A descendant that ignores the signal -/

/-- A host on which the deadline passes at once, and the leader exits on `SIGTERM`.  Its state is
how often the time was asked, and whether the leader has exited. -/
def lateHost : ℕ × Bool → (call : OsCall) → call.Answer × (ℕ × Bool)
  | (asked, exited), .monotonic => (1000000 * asked, (asked + 1, exited))
  | (asked, exited), .poll _ => (if exited then some (-15) else none, (asked, exited))
  | (asked, _), .waitFor _ _ => (some (-15), (asked, true))
  | state, call => ((obligingHost (fun _ ↦ []) [] call).1, state)

/-- A leader, and a descendant that ignores the signal. -/
def stubbornGroup (exited : Bool) : ProcessGroup Bool :=
  ⟨{member | member = true → exited = false}, ∅⟩

/-- What the run asks of the host. -/
def isOrderly : OsCall → Bool
  | .wait _ | .kill _ | .killpg _ .sigkill => false
  | _ => true

theorem lateHost_step (state : ℕ × Bool) (call : OsCall) (h : isOrderly call = true) :
    ProcessGroup.Step true (stubbornGroup state.2) ⟨call, (lateHost state call).1⟩
      (stubbornGroup (lateHost state call).2.2) := by
  obtain ⟨asked, exited⟩ := state
  cases call with
  | popen argv cwd environment => exact .spawned rfl
  | poll process =>
    refine .poll ⟨subset_rfl, rfl⟩ ?_
    cases exited <;> simp [lateHost, stubbornGroup]
  | waitFor process timeout =>
    refine .waitFor ⟨fun member hmember htrue ↦ ?_, rfl⟩ ?_
    · exact absurd (hmember htrue) (by simp [lateHost])
    · simp [lateHost, stubbornGroup]
  | killpg process signal =>
    cases signal with
    | sigterm => exact .other ⟨subset_rfl, rfl⟩ trivial
    | sigkill => exact absurd h (by simp [isOrderly])
  | wait | kill => exact absurd h (by simp [isOrderly])
  | _ => exact .other ⟨subset_rfl, rfl⟩ trivial

/-- The run on that host. -/
def lateRun : OsLog × Option (Except Exc SandboxResult) :=
  Interaction.play lateHost (testBackend.execute 9 testInvocation) (0, false)

theorem lateRun_returns : ∃ result, (testBackend.execute 9 testInvocation).Returns lateRun.1
    (.ok result) ∧ result.termination = .timedOut ∧
      Steps (ProcessGroup.Step true) (stubbornGroup false) lateRun.1 (stubbornGroup true) := by
  have hrun : lateRun.2.map (Except.map SandboxResult.termination) = some (.ok .timedOut) ∧
      (∀ event ∈ lateRun.1, isOrderly event.1 = true) ∧
      (Interaction.playEnd lateHost (testBackend.execute 9 testInvocation) (0, false)).2 =
        true := by
    decide +kernel
  obtain ⟨hresult, horderly, hexited⟩ := hrun
  obtain ⟨x, hx, hok⟩ := Option.map_eq_some_iff.mp hresult
  have hsteps := Interaction.steps_playEnd (S := fun c ↦ isOrderly c = true)
    (fun state : ℕ × Bool ↦ stubbornGroup state.2) lateHost_step horderly
  rw [hexited] at hsteps
  cases x with
  | ok result => exact ⟨result, Interaction.returns_play hx, Except.ok.inj hok, hsteps⟩
  | error e => exact absurd hok (by simp [Except.map])

/-- **A descendant survives a run that is cut short**, when it ignores the signal that its leader
obeys. -/
theorem descendant_survives : ∃ log result group',
    (testBackend.execute 9 testInvocation).Returns log (.ok result) ∧
      result.termination = .timedOut ∧
      Steps (ProcessGroup.Step true) ⟨Set.univ, ∅⟩ log group' ∧ ¬group'.Reached false := by
  obtain ⟨result, hret, hlate, hsteps⟩ := lateRun_returns
  have hall : stubbornGroup false = ⟨Set.univ, ∅⟩ := by simp [stubbornGroup]
  refine ⟨_, result, _, hret, hlate, hall ▸ hsteps, ?_⟩
  simp [ProcessGroup.Reached, stubbornGroup]

/-- There, all is up to the descendant. -/
theorem terminates_group_late : ∃ process ended, ∃ terminated : ProcessGroup Bool,
    (terminateTree process testInvocation.limits.terminationGraceMs).Returns ended (.ok ()) ∧
      ((∀ member, terminated.Reached member) ↔
        (∃ grace, ⟨.waitFor process grace, none⟩ ∈ ended) ∨ false ∉ terminated.alive) := by
  obtain ⟨result, hret, hlate, hsteps⟩ := lateRun_returns
  obtain ⟨process, before, ended, after, terminated, -, -, hterminate, -, -, hreached⟩ :=
    LinuxProcessSandboxBackend.terminates_group hret (.inl hlate) hsteps
  exact ⟨process, ended, terminated, hterminate, by simpa using hreached⟩

end Alicerce
