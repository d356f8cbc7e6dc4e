import Alicerce.Adapters.OutputCapture

/-!
# Results of the sandbox

That the capture comes to an end, that nothing but a failure of the host ends it with an exception,
and that what it returns is what the executor accepts.

* `Pipes.left` is what a batch of events uses up: bytes, wakeups for nothing, and streams that are
  still open.
* `captureLoop_ends`, `execute_ends`: the capture, and the run, come to an end.
* `Calm` is what a host on which nothing fails has come to, and `execute_calm` says that a run there
  returns a result.
* `Exact` is what is exact about a result, whatever came in which chunk.
* `capture_exact` puts it together.
-/

set_option autoImplicit false

namespace Alicerce

open Py Lib

section

variable {limits : CommandLimits} {written : Stream → List UInt8} {streams : Streams}
  {pipes : Pipes}
  {stream : Stream} {chunk tail : List UInt8} {process : Process} {fuel : ℕ} {deadline : ℚ}
  {backend : LinuxProcessSandboxBackend} {invocation : SandboxInvocation}

/-! ## The clock -/

/-- A clock that does not step backwards, by the latest time it has told. -/
inductive Clock.Step : CivilTime → Event OsCall.Answer → CivilTime → Prop
  | now {latest time : CivilTime} (h : latest ≤ time) : Step latest ⟨.utcNow, time⟩ time
  | other {latest : CivilTime} {event : Event OsCall.Answer} (h : event.1 ≠ .utcNow) :
      Step latest event latest

theorem Clock.step_utcNow {latest time latest' : CivilTime}
    (h : Clock.Step latest ⟨.utcNow, time⟩ latest') : latest ≤ time ∧ latest' = time := by
  cases h with
  | now h => exact ⟨h, rfl⟩
  | other h => exact absurd rfl h

/-- Whatever happens, the clock goes on. -/
theorem Clock.ensures_le {α : Type} {p : Os α} {earlier latest : CivilTime} (h : earlier ≤ latest) :
    p.Ensures Clock.Step latest fun _ later ↦ earlier ≤ later := by
  refine Action.ensures_of_preserved (fun hle hstep ↦ ?_) h
  cases hstep with
  | now h => exact hle.trans h
  | other _ => exact hle

theorem Clock.bind {α β : Type} {p : Os α} {f : α → Os β} {P : β → CivilTime → Prop}
    {earlier latest : CivilTime} (hle : earlier ≤ latest)
    (hf : ∀ a later, earlier ≤ later → (f a).Ensures Clock.Step later (Action.OnReturn P)) :
    (p >>= f).Ensures Clock.Step latest (Action.OnReturn P) := by
  rw [Action.ensures_bind_onReturn]
  refine (Clock.ensures_le hle).mono fun x later hlater ↦ ?_
  cases x with
  | ok a => exact hf a later hlater
  | error e => trivial

theorem prepareSpawn_clock {latest : CivilTime} :
    (backend.prepareSpawn invocation).Ensures Clock.Step latest
      (Action.OnReturn fun r later ↦ r.2 = later) := by
  rw [LinuxProcessSandboxBackend.prepareSpawn, Action.ensures_bind_onReturn]
  refine Action.ensures_onReturn_of_forall fun supported _ ↦ ?_
  rw [Action.ensures_ite]
  split
  · trivial
  · rw [Action.ensures_bind_onReturn]
    refine Action.ensures_onReturn_of_forall fun _ _ ↦ ?_
    rw [Action.ensures_bind_onReturn]
    refine Action.ensures_onReturn_of_forall fun command _ ↦ ?_
    rw [Action.ensures_bind_onReturn]
    exact fun time later hstep ↦ (Clock.step_utcNow hstep).2.symm

/-- On a clock that does not step backwards, a run does not finish before it has started. -/
theorem execute_clock {latest : CivilTime} :
    (backend.execute fuel invocation).Ensures Clock.Step latest (Action.OnReturn fun result _ ↦
      ∃ started finished, result.startedAt = utc started ∧ result.finishedAt = utc finished ∧
        started ≤ finished) := by
  rw [LinuxProcessSandboxBackend.execute, Action.ensures_bind_onReturn]
  refine prepareSpawn_clock.mono fun x latest hx ↦ hx.mono ?_
  rintro ⟨command, startedAt⟩ hstarted
  obtain rfl : startedAt = latest := hstarted
  refine Clock.bind le_rfl fun process latest hle ↦ ?_
  rw [LinuxProcessSandboxBackend.supervise]
  refine Clock.bind hle fun started latest hle ↦ Clock.bind hle fun timeout latest hle ↦
    Clock.bind hle fun captured latest hle ↦ ?_
  rw [Action.ensures_bind_onReturn]
  intro finishedAt later hstep
  exact ⟨startedAt, finishedAt, rfl, rfl, hle.trans (Clock.step_utcNow hstep).1⟩

/-! ## The capture ends -/

/-- What the capture has still to use up: bytes, wakeups for nothing, and streams to be closed. -/
def Pipes.left (pipes : Pipes) (streams : Streams) : ℕ :=
  (pipes.rest .stdout).length + (pipes.rest .stderr).length + pipes.spurious +
    streams.registered.length

theorem left_leave_lt (hne : chunk ≠ []) (hrest : pipes.rest stream = chunk ++ tail)
    (streams : Streams) : (pipes.leave stream tail).left streams < pipes.left streams := by
  have hpos := List.length_pos_iff.mpr hne
  have hlength : (pipes.rest stream).length = chunk.length + tail.length := by
    rw [hrest, List.length_append]
  cases stream with
  | stdout =>
    simp only [Pipes.left, Pipes.rest_leave_self, Pipes.spurious_leave,
      pipes.rest_leave_of_ne tail (show Stream.stderr ≠ .stdout by decide)]
    omega
  | stderr =>
    simp only [Pipes.left, Pipes.rest_leave_self, Pipes.spurious_leave,
      pipes.rest_leave_of_ne tail (show Stream.stdout ≠ .stderr by decide)]
    omega

theorem left_unregister_lt (hopen : stream ∈ streams.registered) :
    pipes.left (streams.unregister stream) < pipes.left streams := by
  have hpos := List.length_pos_of_mem hopen
  have herase : (streams.unregister stream).registered.length = streams.registered.length - 1 :=
    List.length_erase_of_mem hopen
  rw [Pipes.left, Pipes.left, herase]
  omega

/-- A batch uses up something for each of its events, unless a limit is passed. -/
theorem readEvents_left (events : List Stream) (hnodup : events.Nodup)
    (hopen : events ⊆ streams.registered) :
    (readEvents limits process events streams).Ensures Pipes.Step pipes
      (Action.OnReturn fun r pipes' ↦ r.2 = .exited →
        pipes'.left r.1 + events.length ≤ pipes.left streams) := by
  induction events generalizing streams pipes with
  | nil => exact fun _ ↦ le_rfl
  | cons stream events ih =>
    obtain ⟨hnew, hnodup⟩ := List.nodup_cons.mp hnodup
    obtain ⟨hmem, hopen⟩ := List.cons_subset.mp hopen
    rw [readEvents, Action.ensures_bind_onReturn, List.length_cons]
    refine readReady_ensures ?_ ?_ ?_ fun _ _ ↦ trivial
    · intro chunk tail hne hrest
      have hlt := left_leave_lt hne hrest streams
      obtain ⟨byte, bytes, rfl⟩ := List.exists_cons_of_ne_nil hne
      rw [Action.onReturn_ok]
      dsimp only
      rw [Action.ensures_ite]
      split
      · exact fun h ↦ absurd h (by simp)
      · refine (ih hnodup (by rwa [registered_extend])).mono fun x pipes' hx ↦ hx.mono
          fun r hr hexited ↦ ?_
        have hle := hr hexited
        rw [Pipes.left, Pipes.left, registered_extend, ← Pipes.left, ← Pipes.left] at hle
        omega
    · intro hrest
      have hlt : pipes.left (streams.unregister stream) < pipes.left streams :=
        left_unregister_lt hmem
      have hopen' : events ⊆ (streams.unregister stream).registered := by
        intro other hother
        have hne : other ≠ stream := fun heq ↦ hnew (heq ▸ hother)
        exact (List.mem_erase_of_ne hne).mpr (hopen hother)
      refine (ih hnodup hopen').mono fun x pipes' hx ↦ hx.mono fun r hr hexited ↦ ?_
      have hle := hr hexited
      omega
    · intro pipes' hrest hspurious
      refine (ih hnodup hopen).mono fun x pipes'' hx ↦ hx.mono fun r hr hexited ↦ ?_
      have hle := hr hexited
      rw [Pipes.left, Pipes.left, hrest] at hle
      rw [Pipes.left]
      rw [Pipes.left]
      omega

theorem readReady_ends {W : Type} {Env : W → Event OsCall.Answer → W → Prop} {w : W} :
    (readReady process stream).Ends Env w :=
  .tryCatch (Action.ends_ask.bind fun _ _ ↦ trivial) fun _ _ ↦ .ite trivial trivial

theorem readEvents_ends {W : Type} {Env : W → Event OsCall.Answer → W → Prop} {w : W}
    (events : List Stream) : (readEvents limits process events streams).Ends Env w := by
  induction events generalizing streams w with
  | nil => trivial
  | cons stream events ih =>
    refine readReady_ends.bind fun r w' ↦ ?_
    obtain _ | _ | ⟨_, _⟩ := r
    · exact ih
    · exact ih
    · exact .ite trivial ih

/-- **The capture ends**: each batch uses something up. -/
theorem captureLoop_ends (h : pipes.left streams < fuel) :
    (captureLoop limits process deadline fuel streams).Ends Pipes.Step pipes := by
  induction fuel generalizing streams pipes with
  | zero => exact absurd h (Nat.not_lt_zero _)
  | succ fuel ih =>
    rw [captureLoop]
    refine .ite trivial (Action.Ends.bind_of_ensures Action.ends_ask
      (Pipes.ensures_elsewhere (Action.calls_ask.mpr (by trivial))) ?_)
    rintro now pipes' rfl
    refine .ite trivial ?_
    rw [Os.select]
    split
    · trivial
    intro answer pipes₁ hstep
    obtain e | ready := answer
    · trivial
    obtain ⟨hrest, ⟨ready, hready, hempty, hspurious⟩ | ⟨rfl, hnonempty⟩⟩ :=
      Pipes.step_select hstep
    · -- a wait for nothing: the loop goes on with one less to come
      obtain rfl := Except.ok.inj hready
      have hleft : pipes₁.left streams < fuel := by
        rw [Pipes.left] at h ⊢
        rw [hrest]
        omega
      have hidle : (isIdle process ready.1).Ends Pipes.Step pipes₁ :=
        .ite (Action.ends_ask.bind fun _ _ ↦ trivial) trivial
      refine hidle.bind_of_ensures (Pipes.ensures_elsewhere (isIdle_elsewhere process ready.1)) ?_
      rintro idle pipes₂ rfl
      refine .ite (ih hleft) ?_
      rw [hempty]
      exact ih hleft
    · have hpos : 0 < ready.1.length := List.length_pos_iff.mpr (hnonempty ready rfl)
      change (isIdle process ready.1 >>= _ : Os (Streams × ExecutionTermination)).Ends _ _
      rw [isIdle, if_neg (hnonempty ready rfl)]
      refine (readEvents_ends ready.1).bind_of_onReturn
        (readEvents_left ready.1 ready.2.1 ready.2.2) ?_
      rintro ⟨streams', termination⟩ pipes₂ hleft
      dsimp only
      split
      · trivial
      · rename_i hexited
        have hle : pipes₂.left streams' + ready.1.length ≤ pipes₁.left streams :=
          hleft (not_not.mp hexited)
        exact ih (by omega)

/-! ### Nothing else loops -/

section

variable {W : Type} {Env : W → Event OsCall.Answer → W → Prop} {w : W}

theorem ends_translate {α : Type} {caught : Exc → Bool} {f : Exc → Exc} {p : Os α}
    (hp : p.Ends Env w) : (Os.translate caught f p).Ends Env w := hp.tryCatch fun _ _ ↦ trivial

theorem ends_or {p q : Os Bool} (hp : p.Ends Env w) (hq : ∀ w', q.Ends Env w') :
    (Os.or p q).Ends Env w := hp.bind fun _ w' ↦ .ite trivial (hq w')

theorem pinChanged_ends (path : Path) (sha256 : Bytes) : (pinChanged path sha256).Ends Env w :=
  ends_or Action.ends_ask fun _ ↦ ends_or (Action.ends_ask.bind fun _ _ ↦ trivial) fun _ ↦
    ends_or (Action.ends_ask.bind fun _ _ ↦ trivial) fun _ ↦
      ends_or (Action.ends_ask.bind fun _ _ ↦ trivial) fun _ ↦
        Action.ends_ask.bind fun _ _ ↦ trivial

theorem verify_ends (bubblewrap : PinnedBubblewrap) : bubblewrap.verify.Ends Env w :=
  ends_translate ((pinChanged_ends _ _).bind fun _ _ ↦ .ite trivial trivial)

theorem prepareSpawn_ends : (backend.prepareSpawn invocation).Ends Env w := by
  have hsupports : ∀ w, (backend.supports invocation.networkPolicy).Ends Env w := fun w ↦
    .ite trivial ((verify_ends _).bind fun _ _ ↦
      .tryCatch (Action.ends_ask.bind fun _ _ ↦ trivial) fun _ _ ↦ .ite trivial trivial)
  refine Action.Ends.bind (.ite trivial (hsupports _)) fun _ _ ↦ .ite trivial ?_
  exact (verify_ends _).bind fun _ _ ↦ Action.ends_lift.bind fun _ _ ↦
    Action.ends_ask.bind fun _ _ ↦ trivial

theorem terminateTree_ends (graceMs : ℕ) : (terminateTree process graceMs).Ends Env w := by
  refine Action.ends_ask.bind fun _ _ ↦ .ite trivial (ends_translate ?_)
  refine Action.ends_ask.bind fun _ _ ↦ .tryCatch ?_ fun _ _ ↦ .ite ?_ trivial
  · exact Action.ends_lift.bind fun _ _ ↦ Action.ends_ask.bind fun _ _ ↦ trivial
  · exact Action.ends_ask.bind fun _ _ ↦ Action.ends_lift.bind fun _ _ ↦
      Action.ends_ask.bind fun _ _ ↦ trivial

theorem captureAndReap_ends
    (h : (withCapture process (captureLoop limits process deadline fuel .initial)).Ends Env w) :
    (captureAndReap fuel limits process deadline).Ends Env w := by
  refine .tryCatch (h.bind fun r w' ↦ .ite ?_ ?_) fun _ _ ↦ .ite ?_ trivial
  · exact (terminateTree_ends _).bind fun _ _ ↦ trivial
  · exact Action.ends_ask.bind fun _ _ ↦ trivial
  · exact (terminateTree_ends _).bind fun _ _ ↦ trivial

end

/-- **A run of the sandbox comes to an end.** -/
theorem execute_ends {spurious : ℕ} (h : Pipes.left ⟨written, spurious⟩ .initial < fuel) :
    (backend.execute fuel invocation).Ends Pipes.Step ⟨written, spurious⟩ := by
  rw [LinuxProcessSandboxBackend.execute]
  refine prepareSpawn_ends.bind_of_ensures
    (Pipes.ensures_elsewhere ((backend.looks_prepareSpawn _).mono elsewhere_of_looks)) ?_
  rintro ⟨command, startedAt⟩ pipes rfl
  refine (ends_translate Action.ends_ask).bind_of_ensures
    (Pipes.ensures_elsewhere (Os.calls_translate (Action.calls_ask.mpr (by trivial)))) ?_
  rintro process pipes rfl
  refine Action.ends_ask.bind_of_ensures
    (Pipes.ensures_elsewhere (Action.calls_ask.mpr (by trivial))) ?_
  rintro started pipes rfl
  refine Action.ends_lift.bind_of_ensures (Pipes.ensures_elsewhere Action.calls_lift) ?_
  rintro timeout pipes rfl
  refine Action.Ends.bind (.tryFinally (captureAndReap_ends ?_) fun _ ↦ verify_ends _) fun _ _ ↦
    Action.ends_ask.bind fun _ _ ↦ trivial
  rw [withCapture]
  iterate 5
    refine Action.ends_ask.bind_of_ensures
      (Pipes.ensures_elsewhere (Action.calls_ask.mpr (by trivial))) ?_
    rintro _ pipes rfl
  exact (captureLoop_ends h).tryFinally fun _ ↦ Action.ends_ask.bind fun _ _ ↦
    Action.ends_ask.bind fun _ _ ↦ Action.ends_ask

/-! ## Nothing fails -/

/-- What a host on which nothing fails has come to: the latest time it has told, and whether the
process has been killed. -/
structure Calm where
  now : ℚ
  killed : Bool

namespace Calm

/-- An answer that is no failure: the binary is what it was pinned as, the isolation is granted,
calls succeed, the clock does not step backwards, and a process that was killed ends. -/
def Succeeds (bubblewrap : PinnedBubblewrap) (calm : Calm) : Event OsCall.Answer → Prop
  | ⟨.isSymlink _, answer⟩ => answer = .ok false
  | ⟨.resolve path, answer⟩ => answer = .ok path
  | ⟨.isFile _, answer⟩ | ⟨.accessExecutable _, answer⟩ => answer = .ok true
  | ⟨.readFile _, answer⟩ => ∃ bytes, answer = .ok bytes ∧ Py.sha256 bytes = bubblewrap.sha256
  | ⟨.runProbe _, answer⟩ => answer = .ok 0
  | ⟨.popen _ _ _, answer⟩ => ∃ process, answer = .ok process
  | ⟨.openSelector, answer⟩ | ⟨.setBlocking _ _, answer⟩ | ⟨.register _ _, answer⟩
  | ⟨.closeSelector, answer⟩ | ⟨.closeStream _ _, answer⟩ | ⟨.killpg _ _, answer⟩ => answer = .ok ()
  | ⟨.select _ _, answer⟩ => ∃ ready, answer = .ok ready
  | ⟨.read _ _ _, answer⟩ => ∀ e, answer = .error e → e.kind = .blocking
  | ⟨.monotonic, time⟩ => calm.now ≤ time
  | ⟨.waitFor _ _, status⟩ => calm.killed = true → status.isSome = true
  | _ => True

/-- What it has come to after an answer. -/
def after (calm : Calm) : Event OsCall.Answer → Calm
  | ⟨.monotonic, time⟩ => { calm with now := time }
  | ⟨.killpg _ .sigkill, _⟩ => { calm with killed := true }
  | _ => calm

/-- The law of a host on which nothing fails. -/
def Step (bubblewrap : PinnedBubblewrap) (calm : Calm) (event : Event OsCall.Answer)
    (calm' : Calm) :
    Prop := Succeeds bubblewrap calm event ∧ calm' = calm.after event

end Calm

section

variable {bubblewrap : PinnedBubblewrap} {calm : Calm}

/-- The pin is found as it was. -/
theorem pinChanged_calm :
    (pinChanged bubblewrap.path bubblewrap.sha256).Ensures (Calm.Step bubblewrap) calm
      (Action.Returned fun changed calm' ↦ changed = false ∧ calm' = calm) := by
  have hor : ∀ {p q : Os Bool} {calm : Calm},
      p.Ensures (Calm.Step bubblewrap) calm
        (Action.Returned fun changed calm' ↦ changed = false ∧ calm' = calm) →
      q.Ensures (Calm.Step bubblewrap) calm
        (Action.Returned fun changed calm' ↦ changed = false ∧ calm' = calm) →
      (Os.or p q).Ensures (Calm.Step bubblewrap) calm
        (Action.Returned fun changed calm' ↦ changed = false ∧ calm' = calm) := by
    intro p q calm hp hq
    rw [Os.or, Action.ensures_bind_returned]
    refine hp.mono_returned ?_
    rintro changed calm' ⟨rfl, rfl⟩
    exact hq
  refine hor ?_ (hor ?_ (hor ?_ (hor ?_ ?_)))
  · rintro answer calm' ⟨rfl, rfl⟩
    exact ⟨rfl, rfl⟩
  · rintro answer calm' ⟨rfl, rfl⟩
    exact ⟨by simp, rfl⟩
  · rintro answer calm' ⟨rfl, rfl⟩
    exact ⟨rfl, rfl⟩
  · rintro answer calm' ⟨rfl, rfl⟩
    exact ⟨rfl, rfl⟩
  · rintro answer calm' ⟨⟨bytes, rfl, hbytes⟩, rfl⟩
    exact ⟨by simp [hbytes], rfl⟩

theorem verify_calm : bubblewrap.verify.Ensures (Calm.Step bubblewrap) calm
    (Action.Returned fun _ calm' ↦ calm' = calm) := by
  rw [PinnedBubblewrap.verify, Os.translate]
  refine .tryCatch_returned (Action.ensures_bind_returned.mpr (pinChanged_calm.mono_returned ?_))
  rintro changed calm' ⟨rfl, rfl⟩
  rfl

theorem prepareSpawn_calm (hpolicy : invocation.networkPolicy = .denyAll)
    (hroot : invocation.workingDirectory.IsRelativeTo invocation.workspaceRoot) :
    (backend.prepareSpawn invocation).Ensures (Calm.Step backend.bubblewrap) calm
      (Action.Returned fun _ calm' ↦ calm' = calm) := by
  have hsupports : (backend.supports .denyAll).Ensures (Calm.Step backend.bubblewrap) calm
      (Action.Returned fun supported calm' ↦ supported = true ∧ calm' = calm) := by
    rw [LinuxProcessSandboxBackend.supports, if_neg (by simp), Action.ensures_bind_returned]
    refine verify_calm.mono_returned ?_
    rintro ⟨⟩ calm' rfl
    refine .tryCatch_returned (Action.ensures_bind_returned.mpr ?_)
    rintro answer calm' ⟨rfl, rfl⟩
    exact ⟨rfl, rfl⟩
  have hcommand : ∃ command, backend.buildCommand invocation = .ok command :=
    ⟨_, if_pos hroot⟩
  obtain ⟨command, hcommand⟩ := hcommand
  rw [LinuxProcessSandboxBackend.prepareSpawn, LinuxProcessSandboxBackend.isIsolated,
    if_neg (by simp [hpolicy]), hpolicy, Action.ensures_bind_returned]
  refine hsupports.mono_returned ?_
  rintro supported calm' ⟨rfl, rfl⟩
  rw [if_neg (by simp), Action.ensures_bind_returned]
  refine verify_calm.mono_returned ?_
  rintro ⟨⟩ calm' rfl
  rw [hcommand]
  rintro time calm' ⟨-, rfl⟩
  rfl

theorem readReady_calm : (readReady process stream).Ensures (Calm.Step bubblewrap) calm
    (Action.Returned fun _ calm' ↦ calm' = calm) := by
  rw [readReady, Action.ensures_tryCatch, Action.ensures_bind, Os.read, Action.ensures_ask]
  rintro answer calm' ⟨hanswer, rfl⟩
  cases answer with
  | ok chunk => exact rfl
  | error e =>
    change (if e.toExc.isBlockingError then _ else _ : Os (Option (List UInt8))).Ensures _ _ _
    rw [if_pos (OsError.isBlockingError_toExc.mpr (hanswer e rfl))]
    exact rfl

theorem readEvents_calm (events : List Stream) :
    (readEvents limits process events streams).Ensures (Calm.Step bubblewrap) calm
      (Action.Returned fun _ calm' ↦ calm' = calm) := by
  induction events generalizing streams with
  | nil => exact rfl
  | cons stream events ih =>
    rw [readEvents, Action.ensures_bind_returned]
    refine readReady_calm.mono_returned ?_
    rintro (_ | _ | ⟨_, _⟩) calm' rfl
    · exact ih
    · exact ih
    · dsimp only
      rw [Action.ensures_ite]
      split
      · exact rfl
      · exact ih

/-- A capture does not raise, on a clock that does not step backwards and within the range of the
selector. -/
theorem captureLoop_calm (h : deadline - calm.now ≤ Os.selectLimit) :
    (captureLoop limits process deadline fuel streams).Ensures (Calm.Step bubblewrap) calm
      (Action.Returned fun _ _ ↦ True) := by
  induction fuel generalizing streams calm with
  | zero => trivial
  | succ fuel ih =>
    rw [captureLoop, Action.ensures_ite]
    split
    · trivial
    rw [Action.ensures_bind_returned, Os.monotonic, Action.ensures_ask]
    rintro now calm₁ ⟨hnow, rfl⟩
    replace h : deadline - now ≤ Os.selectLimit := (sub_le_sub_left hnow deadline).trans h
    rw [Action.returned_ok, Action.ensures_ite]
    split
    · trivial
    rw [Action.ensures_bind_returned, Os.select, if_neg h.not_gt, Action.ensures_ask]
    rintro answer calm₂ ⟨⟨ready, rfl⟩, rfl⟩
    change (isIdle process ready.1 >>= _ : Os (Streams × ExecutionTermination)).Ensures _ _ _
    have hidle : (isIdle process ready.1).Ensures (Calm.Step bubblewrap) ⟨now, calm.killed⟩
        (Action.Returned fun _ calm' ↦ calm' = ⟨now, calm.killed⟩) := by
      rw [isIdle, Action.ensures_ite]
      split
      · rintro answer calm' ⟨-, rfl⟩
        exact rfl
      · exact rfl
    rw [Action.ensures_bind_returned]
    refine hidle.mono_returned ?_
    rintro idle calm' rfl
    rw [Action.ensures_ite]
    split
    · exact ih h
    rw [Action.ensures_bind_returned]
    refine (readEvents_calm ready.1).mono_returned ?_
    rintro ⟨streams', termination⟩ calm' rfl
    dsimp only
    rw [Action.ensures_ite]
    split
    · trivial
    · exact ih h

theorem withCapture_calm {α : Type} {body : Os α}
    (h : body.Ensures (Calm.Step bubblewrap) calm (Action.Returned fun _ _ ↦ True)) :
    (withCapture process body).Ensures (Calm.Step bubblewrap) calm
      (Action.Returned fun _ _ ↦ True) := by
  rw [withCapture]
  iterate 5
    refine Action.Ensures.bind_returned (P := fun _ calm' ↦ calm' = calm) ?_ ?_
    · rintro answer calm' ⟨rfl, rfl⟩
      exact rfl
    rintro ⟨⟩ calm rfl
  refine .tryFinally_returned (h.mono_returned fun _ calm' _ ↦ ?_)
  iterate 2
    refine Action.Ensures.bind_returned (P := fun _ _ ↦ True) ?_ fun ⟨⟩ _ _ ↦ ?_
    · rintro answer calm' ⟨rfl, rfl⟩
      trivial
  rintro answer calm' ⟨rfl, rfl⟩
  trivial

/-- The process is terminated, on the second signal at the latest. -/
theorem terminateTree_calm {graceMs : ℕ} {grace : ℚ} (h : Os.seconds graceMs = .ok grace) :
    (terminateTree process graceMs).Ensures (Calm.Step bubblewrap) calm
      (Action.Returned fun _ _ ↦ True) := by
  rw [terminateTree]
  refine Action.Ensures.bind_returned (P := fun _ _ ↦ True) (fun _ _ _ ↦ trivial)
    fun status _ _ ↦ ?_
  rw [Action.ensures_ite]
  split
  · trivial
  rw [Os.translate]
  refine .tryCatch_returned ?_
  rw [signalTree]
  refine Action.Ensures.bind_returned (P := fun _ _ ↦ True) ?_ fun ⟨⟩ calm₁ _ ↦ ?_
  · rintro answer calm' ⟨rfl, rfl⟩
    trivial
  rw [h, Action.ensures_tryCatch, Action.lift_ok_bind]
  rintro (_ | status) calm₃ ⟨-, rfl⟩
  · -- the grace has passed, and the second signal kills
    refine Action.Ensures.bind_returned (P := fun _ calm' ↦ calm'.killed = true) ?_ ?_
    · rintro answer calm' ⟨rfl, rfl⟩
      exact rfl
    rintro ⟨⟩ calm' hkilled
    rintro (_ | status) calm₅ ⟨hstatus, rfl⟩
    · exact absurd (hstatus hkilled) (by simp)
    · trivial
  · trivial

theorem captureAndReap_calm (h : deadline - calm.now ≤ Os.selectLimit) {grace : ℚ}
    (hgrace : Os.seconds limits.terminationGraceMs = .ok grace) :
    (captureAndReap fuel limits process deadline).Ensures (Calm.Step bubblewrap) calm
      (Action.Returned fun _ _ ↦ True) := by
  refine .tryCatch_returned ((withCapture_calm (captureLoop_calm h)).bind_returned ?_)
  rintro ⟨streams, termination⟩ calm' -
  dsimp only
  rw [Action.ensures_ite]
  split
  · exact (terminateTree_calm hgrace).bind_returned fun _ _ _ ↦ trivial
  · exact Action.Ensures.bind_returned (P := fun _ _ ↦ True) (fun _ _ _ ↦ trivial)
      fun _ _ _ ↦ trivial

/-- **When nothing fails, a run of the sandbox returns a result.** -/
theorem execute_calm (hpolicy : invocation.networkPolicy = .denyAll)
    (hroot : invocation.workingDirectory.IsRelativeTo invocation.workspaceRoot)
    (htimeout : (invocation.limits.timeoutMs : ℚ) / 1000 ≤ Os.selectLimit) {grace : ℚ}
    (hgrace : Os.seconds invocation.limits.terminationGraceMs = .ok grace) :
    (backend.execute fuel invocation).Ensures (Calm.Step backend.bubblewrap) calm
      (Action.Returned fun _ _ ↦ True) := by
  rw [LinuxProcessSandboxBackend.execute]
  refine (prepareSpawn_calm hpolicy hroot).bind_returned ?_
  rintro ⟨command, startedAt⟩ _ -
  refine Action.Ensures.bind_returned (P := fun _ _ ↦ True) (.tryCatch_returned ?_)
    fun process _ _ ↦ ?_
  · rintro answer calm' ⟨⟨process, rfl⟩, rfl⟩
    trivial
  rw [LinuxProcessSandboxBackend.supervise, Os.seconds_of_le_selectLimit htimeout]
  refine Action.Ensures.bind_returned (P := fun started calm' ↦ calm'.now = started) ?_ ?_
  · rintro started calm' ⟨-, rfl⟩
    exact rfl
  rintro started calm' rfl
  have hcapture : (captureAndReap fuel invocation.limits process
      (calm'.now + (invocation.limits.timeoutMs : ℚ) / 1000)).Ensures
        (Calm.Step backend.bubblewrap) calm' (Action.Returned fun _ _ ↦ True) :=
    captureAndReap_calm (by rwa [add_sub_cancel_left]) hgrace
  rw [Action.lift_ok_bind]
  refine Action.Ensures.bind_returned (P := fun _ _ ↦ True) (.tryFinally_returned
    (hcapture.mono_returned fun _ _ _ ↦ verify_calm.mono_returned fun _ _ _ ↦ trivial)) ?_
  rintro ⟨streams, termination, exitCode⟩ _ -
  exact Action.Ensures.bind_returned (P := fun _ _ ↦ True) (fun _ _ _ ↦ trivial) fun _ _ _ ↦ trivial

end

/-! ## The result -/

/-- The bytes a result has of a stream. -/
def SandboxResult.output (result : SandboxResult) : Stream → List UInt8
  | .stdout => result.stdout.data.toList
  | .stderr => result.stderr.data.toList

/-- What is exact about a result, whatever came in which chunk. -/
structure Exact (limits : CommandLimits) (written : Stream → List UInt8) (result : SandboxResult) :
    Prop where
  isPrefix : ∀ stream, result.output stream <+: written stream
  within : ∀ stream, (result.output stream).length ≤ ceiling limits stream
  complete : result.termination = .exited → ∀ stream, result.output stream = written stream
  limited : result.termination = .outputLimit → ∃ stream,
    ceiling limits stream < (written stream).length ∧
      result.output stream = (written stream).take (ceiling limits stream)
  exited_iff : result.termination ≠ .timedOut →
    (result.termination = .exited ↔ ∀ stream, (written stream).length ≤ ceiling limits stream)

theorem Reported.exact {result : SandboxResult} (h : Reported limits written result) :
    Exact limits written result := by
  obtain ⟨⟨streams, hcaptured, hout, herr⟩, -⟩ := h
  have houtput : result.output = streams.target := by
    funext stream
    cases stream with
    | stdout => rw [SandboxResult.output, hout]; rfl
    | stderr => rw [SandboxResult.output, herr]; rfl
  refine ⟨fun stream ↦ ?_, fun stream ↦ ?_, fun hexited stream ↦ ?_, fun hlimit ↦ ?_, fun hnot ↦ ?_⟩
  · rw [houtput]
    exact hcaptured.isPrefix stream
  · rw [houtput]
    exact hcaptured.within stream
  · rw [houtput]
    exact hcaptured.exited hexited stream
  · rw [houtput]
    exact hcaptured.limited hlimit
  · constructor
    · intro hexited stream
      rw [← hcaptured.exited hexited stream]
      exact hcaptured.within stream
    · intro hfits
      cases htermination : result.termination with
      | exited => rfl
      | timedOut => exact absurd htermination hnot
      | cancelled => exact absurd htermination hcaptured.reached
      | outputLimit =>
        obtain ⟨stream, hlong, -⟩ := hcaptured.limited htermination
        exact absurd (hfits stream) (Nat.not_le.mpr hlong)

/-- What the sandbox reports passes the checks of a result. -/
theorem Reported.resultOf {result : SandboxResult} {request : CommandRequest}
    (h : Reported request.limits written result) {started finished : CivilTime}
    (hstarted : result.startedAt = utc started) (hfinished : result.finishedAt = utc finished)
    (hle : started ≤ finished) : ∃ r, resultOf request result = .ok r := by
  have hout : result.stdout.size ≤ request.limits.stdoutMaxBytes := h.exact.within .stdout
  have herr : result.stderr.size ≤ request.limits.stderrMaxBytes := h.exact.within .stderr
  refine ⟨⟨request, result.termination, result.exitCode, result.stdout, result.stderr, started,
    finished, h.exitCode_iff, hout, herr, hle⟩, translate_eq_ok_iff.mpr ?_⟩
  exact ExecutionResult.new_eq_ok_iff.mpr
    ⟨rfl, rfl, rfl, rfl, rfl, hstarted.symm, hfinished.symm⟩

/-- **Capture is exact, whatever the chunks**: a run comes to an end, returns a result when nothing
fails, and every result it returns is exact and accepted. -/
theorem capture_exact (backend : LinuxProcessSandboxBackend) (fuel : ℕ)
    (invocation : SandboxInvocation) (written : Stream → List UInt8) (spurious : ℕ) :
    ((written .stdout).length + (written .stderr).length + spurious + 2 < fuel →
      (backend.execute fuel invocation).Ends Pipes.Step ⟨written, spurious⟩) ∧
    ∀ log x pipes, (backend.execute fuel invocation).Returns log x →
      Steps Pipes.Step ⟨written, spurious⟩ log pipes →
      (invocation.networkPolicy = .denyAll →
        invocation.workingDirectory.IsRelativeTo invocation.workspaceRoot →
        (invocation.limits.timeoutMs : ℚ) / 1000 ≤ Os.selectLimit →
        (invocation.limits.terminationGraceMs : ℚ) / 1000 < Os.floatLimit →
        ∀ calm calm', Steps (Calm.Step backend.bubblewrap) calm log calm' →
          ∃ result, x = .ok result) ∧
      ∀ result, x = .ok result → Exact invocation.limits written result ∧
        ∀ time time' request, Steps Clock.Step time log time' →
          request.limits = invocation.limits → ∃ r, resultOf request result = .ok r := by
  refine ⟨execute_ends, fun log x pipes hret hpipes ↦ ⟨?_, ?_⟩⟩
  · intro hpolicy hroot htimeout hgrace calm calm' hcalm
    have hreturned := Action.ensures_iff.mp
      (execute_calm hpolicy hroot htimeout (if_neg hgrace.not_ge)) log x calm' hret hcalm
    cases x with
    | ok result => exact ⟨result, rfl⟩
    | error e => exact hreturned.elim
  · rintro result rfl
    have hreported := (execute_ensures spurious).of_returns hret hpipes
    refine ⟨hreported.exact, fun time time' request hclock hlimits ↦ ?_⟩
    obtain ⟨started, finished, hstarted, hfinished, hle⟩ := execute_clock.of_returns hret hclock
    rw [← hlimits] at hreported
    exact hreported.resultOf hstarted hfinished hle

/-- A host that delivers what is left in the pipes, and on which everything goes well. -/
def pipeHost (pipes : Pipes) : (call : OsCall) → call.Answer × Pipes
  | .read _ stream count =>
    (.ok ((pipes.rest stream).take count), pipes.leave stream ((pipes.rest stream).drop count))
  | .select registered _ =>
    (.ok (.all registered), pipes)
  | call => ((obligingHost (fun _ ↦ []) [] call).1, pipes)

/-- A read of something, or a wait for something. -/
def isWorthwhile : OsCall → Bool
  | .read _ _ count => decide (count ≠ 0)
  | .select registered _ => decide (registered ≠ [])
  | _ => true

theorem pipeHost_pipes (pipes : Pipes) (call : OsCall) (h : isWorthwhile call = true) :
    Pipes.Step pipes ⟨call, (pipeHost pipes call).1⟩ (pipeHost pipes call).2 := by
  cases call with
  | read process stream count =>
    rw [pipeHost]
    cases hrest : pipes.rest stream with
    | nil =>
      have hsame : pipes.leave stream [] = pipes := by
        rw [Pipes.leave, ← hrest, Function.update_eq_self]
      rw [List.take_nil, List.drop_nil, hsame]
      exact .eof hrest
    | cons byte bytes =>
      refine .data (hrest.trans (List.take_append_drop count _).symm) ?_ (List.length_take_le _ _)
      rw [ne_eq, List.take_eq_nil_iff, not_or]
      exact ⟨of_decide_eq_true h, List.cons_ne_nil _ _⟩
  | select registered timeout =>
    exact .ready fun hempty ↦ of_decide_eq_true h ((List.dedup_eq_nil registered).mp hempty)
  | _ => exact .other trivial

theorem pipeHost_clock (pipes : Pipes) (call : OsCall) :
    Clock.Step epoch ⟨call, (pipeHost pipes call).1⟩ epoch := by
  cases call with
  | utcNow => exact .now le_rfl
  | _ => exact .other (by simp)

/-- A run of the tests in the sandbox. -/
def testInvocation : SandboxInvocation :=
  invocationOf testExecutable testCommand.request ⟨["work", "workspace-1"]⟩
    ⟨["work", "workspace-1"]⟩

/-- What the tests write. -/
def testOutput : Stream → List UInt8
  | .stdout => [111, 107]
  | .stderr => []

/-- The backend over an empty binary. -/
def testBackend : LinuxProcessSandboxBackend := ⟨⟨⟨["usr", "bin", "bwrap"]⟩, sha256 ⟨#[]⟩⟩⟩

theorem pipeHost_calm (pipes : Pipes) (call : OsCall) :
    Calm.Step testBackend.bubblewrap ⟨0, true⟩ ⟨call, (pipeHost pipes call).1⟩ ⟨0, true⟩ := by
  cases call with
  | read process stream count => exact ⟨fun e he ↦ absurd he (by simp [pipeHost]), rfl⟩
  | select registered timeout => exact ⟨⟨_, rfl⟩, rfl⟩
  | readFile path => exact ⟨⟨_, rfl, rfl⟩, rfl⟩
  | popen argv cwd environment => exact ⟨⟨_, rfl⟩, rfl⟩
  | monotonic => exact ⟨le_rfl, rfl⟩
  | waitFor process timeout => exact ⟨fun _ ↦ rfl, rfl⟩
  | killpg process signal => cases signal <;> exact ⟨rfl, rfl⟩
  | isSymlink | resolve | isFile | accessExecutable | runProbe | openSelector | setBlocking
  | register | closeSelector | closeStream => exact ⟨rfl, rfl⟩
  | _ => exact ⟨trivial, rfl⟩

theorem capture_exact_tests : ∃ log result r,
    (testBackend.execute 9 testInvocation).Returns log (.ok result) ∧
      result.termination = .exited ∧ result.output .stdout = [111, 107] ∧
        resultOf testCommand.request result = .ok r := by
  have hplay : (Interaction.play pipeHost (testBackend.execute 9 testInvocation)
      ⟨testOutput, 0⟩).2.map (Except.map SandboxResult.termination) = some (.ok .exited) := by
    decide +kernel
  have hworth : ∀ e ∈ (Interaction.play pipeHost (testBackend.execute 9 testInvocation)
      ⟨testOutput, 0⟩).1, isWorthwhile e.1 = true := by
    decide +kernel
  obtain ⟨x, hx, hok⟩ := Option.map_eq_some_iff.mp hplay
  have hreturns := Interaction.returns_play hx
  obtain ⟨pipes, hpipes⟩ := Interaction.steps_play id pipeHost_pipes hworth
  obtain ⟨-, hclock⟩ := Interaction.steps_play (S := fun c ↦ isWorthwhile c = true)
    (fun _ ↦ epoch) (fun w c _ ↦ pipeHost_clock w c) hworth
  obtain ⟨-, hcalm⟩ := Interaction.steps_play (S := fun c ↦ isWorthwhile c = true)
    (fun _ ↦ (⟨0, true⟩ : Calm)) (fun w c _ ↦ pipeHost_calm w c) hworth
  obtain ⟨hreturned, hexact⟩ :=
    (capture_exact testBackend 9 testInvocation testOutput 0).2 _ x pipes hreturns hpipes
  obtain ⟨result, rfl⟩ := hreturned rfl (by decide) (by decide +kernel) (by decide +kernel)
    _ _ hcalm
  obtain ⟨hcapture, haccepted⟩ := hexact result rfl
  obtain ⟨r, hr⟩ := haccepted _ _ testCommand.request hclock rfl
  have hexited : result.termination = .exited := Except.ok.inj hok
  exact ⟨_, result, r, hreturns, hexited, hcapture.complete hexited .stdout, hr⟩

end

end Alicerce
