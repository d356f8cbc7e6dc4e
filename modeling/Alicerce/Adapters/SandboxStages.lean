import Alicerce.Adapters.LinuxProcessSandbox

/-!
# The stages of a sandboxed run

A run of the sandbox, cut where the process is spawned, where it is timed, and where its capture
ends.

* `returns_execute`: what is raised before there is a process is raised without one, and whatever
  happens once there is one happens in `supervise`.
* `returns_supervise`, `returns_captureAndReap` and their siblings cut what happens there.
* `OsCall.Captures`, `OsCall.Loops`, `OsCall.Reads`, `OsCall.Polls` and `OsCall.Concludes` are the
  calls that each stage may make.
-/

set_option autoImplicit false

namespace Alicerce

open Py Lib

section

variable {backend : LinuxProcessSandboxBackend} {fuel : ℕ} {invocation : SandboxInvocation}
  {limits : CommandLimits} {process : Process} {deadline : ℚ} {log : OsLog}

theorem returns_monotonic {now : ℚ} (h : Os.monotonic.Returns log (.ok now)) :
    log = [⟨.monotonic, now⟩] := by
  obtain ⟨answer, rfl, hanswer⟩ := Action.returns_ask.mp h
  rw [Except.ok.inj hanswer]

theorem returns_wait {status : ℤ} (h : (Os.wait process).Returns log (.ok status)) :
    log = [⟨.wait process, status⟩] := by
  obtain ⟨answer, rfl, hanswer⟩ := Action.returns_ask.mp h
  rw [Except.ok.inj hanswer]

theorem returns_spawn {command : List Text} {x : Except Exc Process} :
    (LinuxProcessSandboxBackend.spawn command).Returns log x ↔
      ∃ answer, log = [⟨.popen command rootDirectory [], answer⟩] ∧
        x = Py.translate Exc.isOsError (fun _ ↦ sandboxError .spawnFailed "bubblewrap spawn failed")
          (answer.mapError SpawnError.toExc) := by
  rw [LinuxProcessSandboxBackend.spawn, Os.returns_translate]
  constructor
  · rintro ⟨y, h, rfl⟩
    obtain ⟨answer, rfl, rfl⟩ := Action.returns_ask.mp h
    exact ⟨answer, rfl, rfl⟩
  · rintro ⟨answer, rfl, rfl⟩
    exact ⟨_, Action.returns_ask.mpr ⟨answer, rfl, rfl⟩, rfl⟩

/-- **A run of the sandbox**: it fails before the process, or while it is spawned, or there is a
process and the rest is what is done with it. -/
theorem returns_execute {x : Except Exc SandboxResult}
    (h : (backend.execute fuel invocation).Returns log x) :
    (∃ e, (backend.prepareSpawn invocation).Returns log (.error e) ∧ x = .error e) ∨
      ∃ before command startedAt, (backend.prepareSpawn invocation).Returns before
          (.ok (command, startedAt)) ∧
        ((∃ failure e, log = before ++ [⟨.popen command rootDirectory [], .error failure⟩] ∧
            x = .error e) ∨
          ∃ process rest, log = before ++ ⟨.popen command rootDirectory [], .ok process⟩ :: rest ∧
            (backend.supervise fuel invocation.limits startedAt process).Returns rest x) := by
  rw [LinuxProcessSandboxBackend.execute] at h
  rcases Action.returns_bind.mp h with ⟨before, l, ⟨command, startedAt⟩, rfl, hprepare, hspawn⟩ |
    ⟨e, hfail, rfl⟩
  · refine .inr ⟨before, command, startedAt, hprepare, ?_⟩
    rcases Action.returns_bind.mp hspawn with ⟨l₁, rest, process, rfl, hpopen, hsupervise⟩ |
      ⟨e, hfail, rfl⟩
    · obtain ⟨answer, rfl, hanswer⟩ := returns_spawn.mp hpopen
      rw [mapError_eq_ok_iff.mp (translate_eq_ok_iff.mp hanswer.symm)]
      exact .inr ⟨process, rest, rfl, hsupervise⟩
    · obtain ⟨answer, rfl, hanswer⟩ := returns_spawn.mp hfail
      cases answer with
      | ok process =>
        have hok : Except.error e = Except.ok process := hanswer
        exact absurd hok (by simp)
      | error failure => exact .inl ⟨failure, e, rfl, rfl⟩
  · exact .inl ⟨e, hfail, rfl⟩

/-- A call that concludes a run. -/
def OsCall.Concludes : OsCall → Prop
  | .isSymlink _ | .resolve _ | .isFile _ | .accessExecutable _ | .readFile _ | .utcNow => True
  | _ => False

theorem concludes_verify {bubblewrap : PinnedBubblewrap} {verified after : OsLog}
    {x : Except Exc Unit}
    (h : bubblewrap.verify.Returns verified x) (hafter : ∀ e ∈ after, e.1 = .utcNow) :
    ∀ e ∈ verified ++ after, OsCall.Concludes e.1 := by
  intro e he
  rcases List.mem_append.mp he with he | he
  · have hpins := bubblewrap.pins_verify.leads h e he
    obtain ⟨call, answer⟩ := e
    cases call <;> first | exact hpins.elim | trivial
  · rw [hafter e he]
    trivial

/-- What is done with a process: it is timed, unless the timeout is no float, and captured. -/
theorem returns_supervise {startedAt : CivilTime} {x : Except Exc SandboxResult}
    (h : (backend.supervise fuel limits startedAt process).Returns log x) :
    ∃ started rest, log = ⟨.monotonic, started⟩ :: rest ∧
      ((∃ e, Os.seconds limits.timeoutMs = .error e ∧ rest = [] ∧ x = .error e) ∨
        ∃ timeout y captured verified after, Os.seconds limits.timeoutMs = .ok timeout ∧
          rest = captured ++ (verified ++ after) ∧ (∀ e ∈ verified ++ after, OsCall.Concludes e.1) ∧
          (captureAndReap fuel limits process (started + timeout)).Returns captured y ∧
          ((∃ e, backend.bubblewrap.verify.Returns verified (.error e) ∧ after = [] ∧
            x = .error e) ∨ backend.bubblewrap.verify.Returns verified (.ok ()) ∧
              ((∃ e, y = .error e ∧ after = [] ∧ x = .error e) ∨
                ∃ streams termination exitCode finishedAt, y =
                  .ok (streams, termination, exitCode) ∧ after = [⟨.utcNow, finishedAt⟩] ∧
                  x = .ok ⟨termination, exitCode, ⟨streams.stdout.toArray⟩,
                    ⟨streams.stderr.toArray⟩, utc startedAt, utc finishedAt⟩))) := by
  rw [LinuxProcessSandboxBackend.supervise] at h
  rcases Action.returns_bind.mp h with ⟨l, rest, started, rfl, hclock, hrest⟩ | ⟨e, hfail, -⟩
  · obtain rfl := returns_monotonic hclock
    refine ⟨started, rest, rfl, ?_⟩
    rcases Action.returns_bind.mp hrest with ⟨l, l', timeout, rfl, hlift, hbody⟩ | ⟨e, hlift, rfl⟩
    · obtain ⟨rfl, hseconds⟩ := Action.returns_lift.mp hlift
      refine .inr ?_
      rcases Action.returns_bind.mp hbody with ⟨l₁, after, captured, rfl, htry, hresult⟩ |
        ⟨e, htry, rfl⟩
      · obtain ⟨captured', verified, y, rfl, hcapture, ⟨hverify, hy⟩ | ⟨e, -, hy⟩⟩ :=
          Action.returns_tryFinally.mp htry
        · obtain ⟨l₂, l₃, finishedAt, rfl, hnow, hpure⟩ | ⟨e, hnow, -⟩ :=
            Action.returns_bind.mp hresult
          · obtain ⟨answer, rfl, hanswer⟩ := Action.returns_ask.mp hnow
            obtain rfl := Except.ok.inj hanswer
            obtain ⟨rfl, rfl⟩ := Action.returns_pure.mp hpure
            exact ⟨timeout, y, captured', verified, _, hseconds.symm, List.append_assoc ..,
              concludes_verify hverify (by simp), hcapture,
              .inr ⟨hverify, .inr ⟨_, _, _, finishedAt, hy.symm, rfl, rfl⟩⟩⟩
          · obtain ⟨answer, -, hanswer⟩ := Action.returns_ask.mp hnow
            exact absurd hanswer (by simp)
        · exact absurd hy (by simp)
      · obtain ⟨captured, verified, y, rfl, hcapture, ⟨hverify, hy⟩ | ⟨e', hverify, hy⟩⟩ :=
          Action.returns_tryFinally.mp htry
        · exact ⟨timeout, y, captured, verified, [], hseconds.symm, by simp,
            concludes_verify hverify (by simp), hcapture,
            .inr ⟨hverify, .inl ⟨e, hy.symm, rfl, rfl⟩⟩⟩
        · obtain rfl := Except.error.inj hy
          exact ⟨timeout, y, captured, verified, [], hseconds.symm, by simp,
            concludes_verify hverify (by simp), hcapture,
            .inl ⟨e, hverify, rfl, rfl⟩⟩
    · obtain ⟨rfl, hseconds⟩ := Action.returns_lift.mp hlift
      exact .inl ⟨e, hseconds.symm, rfl, rfl⟩
  · obtain ⟨answer, -, hanswer⟩ := Action.returns_ask.mp hfail
    exact absurd hanswer (by simp)

/-- A capture that returns: the process was terminated, or it was waited for. -/
theorem returns_captureAndReap {streams : Streams} {termination : ExecutionTermination}
    {exitCode : Option ℤ} (h : (captureAndReap fuel limits process deadline).Returns log
      (.ok (streams, termination, exitCode))) :
    ∃ captured ended, log = captured ++ ended ∧
      (withCapture process (captureLoop limits process deadline fuel .initial)).Returns captured
        (.ok (streams, termination)) ∧
      ((termination ≠ .exited ∧ exitCode = none ∧
          (terminateTree process limits.terminationGraceMs).Returns ended (.ok ())) ∨
        termination = .exited ∧ ∃ status, exitCode = some status ∧
          ended = [⟨.wait process, status⟩]) := by
  rw [captureAndReap] at h
  rcases Action.returns_tryCatch.mp h with ⟨a, hbody, ha⟩ | ⟨l, l', e, rfl, -, hhandler⟩
  · obtain rfl := Except.ok.inj ha
    obtain ⟨captured, ended, ⟨streams', termination'⟩, rfl, hcapture, hrest⟩ :=
      Action.returns_bind_ok.mp hbody
    refine ⟨captured, ended, rfl, ?_⟩
    dsimp only at hrest
    split at hrest
    · rename_i hstopped
      obtain ⟨l, l', ⟨⟩, rfl, hterminate, hpure⟩ := Action.returns_bind_ok.mp hrest
      obtain ⟨rfl, hresult⟩ := Action.returns_pure.mp hpure
      obtain ⟨rfl, hpair⟩ := Prod.mk.inj (Except.ok.inj hresult)
      obtain ⟨rfl, rfl⟩ := Prod.mk.inj hpair
      exact ⟨hcapture, .inl ⟨hstopped, rfl, (List.append_nil l).symm ▸ hterminate⟩⟩
    · rename_i hexited
      obtain ⟨l, l', status, rfl, hwait, hpure⟩ := Action.returns_bind_ok.mp hrest
      obtain ⟨rfl, hresult⟩ := Action.returns_pure.mp hpure
      obtain ⟨rfl, hpair⟩ := Prod.mk.inj (Except.ok.inj hresult)
      obtain ⟨rfl, rfl⟩ := Prod.mk.inj hpair
      obtain rfl := returns_wait hwait
      exact ⟨hcapture, .inr ⟨not_not.mp hexited, status, rfl, rfl⟩⟩
  · split at hhandler
    · obtain ⟨l₁, l₂, ⟨⟩, -, -, hraise⟩ := Action.returns_bind_ok.mp hhandler
      exact absurd (Action.returns_raise.mp hraise).2 (by simp)
    · exact absurd (Action.returns_raise.mp hhandler).2 (by simp)

end

/-! ## What a capture calls -/

/-- A call that a batch of events may make. -/
def OsCall.Reads : OsCall → Prop
  | .read _ _ _ => True
  | _ => False

/-- A call that a wait without events may make. -/
def OsCall.Polls : OsCall → Prop
  | .poll _ => True
  | _ => False

/-- A call that the loop of a capture may make. -/
def OsCall.Loops : OsCall → Prop
  | .monotonic | .select _ _ | .poll _ | .read _ _ _ => True
  | _ => False

/-- A call a capture may make. -/
def OsCall.Captures : OsCall → Prop
  | .openSelector | .setBlocking _ _ | .register _ _ | .monotonic | .select _ _ | .poll _
  | .read _ _ _ | .closeSelector | .closeStream _ _ => True
  | _ => False

theorem OsCall.loops_of_reads : ∀ c, OsCall.Reads c → OsCall.Loops c := by
  intro c hc
  cases c <;> trivial

theorem OsCall.loops_of_polls : ∀ c, OsCall.Polls c → OsCall.Loops c := by
  intro c hc
  cases c <;> trivial

theorem OsCall.captures_of_loops : ∀ c, OsCall.Loops c → OsCall.Captures c := by
  intro c hc
  cases c <;> trivial

section

variable {fuel : ℕ} {limits : CommandLimits} {process : Process} {deadline : ℚ}

theorem calls_isIdle (events : List Stream) : (isIdle process events).Calls OsCall.Polls :=
  .ite ((Action.calls_ask.mpr trivial).bind fun _ ↦ trivial) trivial

theorem calls_readEvents (events : List Stream) (streams : Streams) :
    (readEvents limits process events streams).Calls OsCall.Reads := by
  induction events generalizing streams with
  | nil => trivial
  | cons stream events ih =>
    refine Action.Calls.bind (.tryCatch ((Action.calls_ask.mpr trivial).bind fun _ ↦ trivial)
      fun _ ↦ .ite trivial trivial) fun chunk ↦ ?_
    obtain _ | _ | ⟨_, _⟩ := chunk
    · exact ih streams
    · exact ih _
    · exact .ite trivial (ih _)

theorem calls_captureLoop (streams : Streams) :
    (captureLoop limits process deadline fuel streams).Calls OsCall.Loops := by
  induction fuel generalizing streams with
  | zero => trivial
  | succ fuel ih =>
    refine .ite trivial (Action.Calls.bind (Action.calls_ask.mpr trivial) fun now ↦ .ite trivial ?_)
    refine Action.Calls.bind (.ite trivial (Action.calls_ask.mpr trivial)) fun events ↦ ?_
    refine ((calls_isIdle events).mono OsCall.loops_of_polls).bind fun idle ↦ .ite (ih _) ?_
    exact ((calls_readEvents _ _).mono OsCall.loops_of_reads).bind fun _ ↦ .ite trivial (ih _)

/-- A capture captures, and nothing else. -/
theorem calls_withCapture {α : Type} {body : Os α} (h : body.Calls OsCall.Captures) :
    (withCapture process body).Calls OsCall.Captures := by
  rw [withCapture]
  iterate 5 refine (Action.calls_ask.mpr trivial).bind fun _ ↦ ?_
  exact h.tryFinally ((Action.calls_ask.mpr trivial).bind fun _ ↦
    (Action.calls_ask.mpr trivial).bind fun _ ↦ Action.calls_ask.mpr trivial)

end

end Alicerce
