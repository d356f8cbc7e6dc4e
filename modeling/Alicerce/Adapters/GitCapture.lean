import Alicerce.Adapters.HostErrors
import Alicerce.Adapters.SandboxResults

/-!
# What Git is found to have said

Like the sandbox, the Git runner reads two pipes in chunks of any size and in any order, but within
one ceiling for both, and without keeping anything of what is longer.  What a command is found to
have said is therefore all it has written, or nothing.

* The pipes are those of `OutputCapture`.  With ceilings that have room for everything (`roomy`),
  what a capture of the sandbox keeps is also what this one does.
* `gitCaptureLoop_ends`: the loop ends, since each batch uses something up, and a wait for nothing
  ends it.
* `captureBounded_ensures`: a capture that returns has both streams whole
  (`ControlledGitCli.Captured`), and one that says that the limit was passed is right
  (`ControlledGitCli.Honest`).
* `run_exact`: so is a whole command, whose text is what it has written.
-/

set_option autoImplicit false

namespace Alicerce

open Py Lib

/-- Limits with room for all that is written. -/
def roomy (written : Stream → List UInt8) : CommandLimits where
  timeoutMs := 1
  terminationGraceMs := 1
  stdoutMaxBytes := (written .stdout).length + 1
  stderrMaxBytes := (written .stderr).length + 1
  timeoutMs_pos := by decide
  terminationGraceMs_pos := by decide
  stdoutMaxBytes_pos := Nat.succ_pos _
  stderrMaxBytes_pos := Nat.succ_pos _

theorem length_le_ceiling_roomy (written : Stream → List UInt8) (stream : Stream) :
    (written stream).length ≤ ceiling (roomy written) stream := by
  cases stream <;> exact Nat.le_succ _

section

variable {git : ControlledGitCli} {written : Stream → List UInt8} {streams : Streams}
  {pipes : Pipes} {process : Process} {fuel : ℕ} {deadline : ℚ}

/-- More was written than may be captured. -/
def ControlledGitCli.Overflows (git : ControlledGitCli) (written : Stream → List UInt8) : Prop :=
  git.maxOutputBytes < (written .stdout).length + (written .stderr).length

/-- An exception that says that the limit was passed is right. -/
def ControlledGitCli.Honest (git : ControlledGitCli) (written : Stream → List UInt8) (e : Exc) :
    Prop :=
  ∀ detail, e = .gitCliError .outputLimit detail → git.Overflows written

/-- What a part of a capture comes to. -/
def ControlledGitCli.Reading (git : ControlledGitCli) (written : Stream → List UInt8) :
    Except Exc Streams → Pipes → Prop
  | .ok streams, pipes => Captures (roomy written) written streams pipes ∧
      streams.stdout.length + streams.stderr.length ≤ git.maxOutputBytes
  | .error e, _ => git.Honest written e

theorem honest_of_isOsError {e : Exc} (h : IsOsError e) : git.Honest written e := by
  rintro detail rfl
  cases h

theorem raises_terminate : (terminate process).Raises IsOsError := by
  have hkillpg : (Os.killpg process .sigkill).Raises IsOsError :=
    Action.raises_ask fun _ _ ↦ isOsError_of_mapError
  have hkill : (Os.kill process).Raises IsOsError :=
    Action.raises_ask fun _ _ ↦ isOsError_of_mapError
  have hsuppress : ∀ {caught : Exc → Bool} {p : Os Unit}, p.Raises IsOsError →
      (Os.suppress caught p).Raises IsOsError := fun hp ↦ hp.tryCatch fun e he ↦
    .ite (fun _ ↦ Action.raises_pure _) fun _ ↦ Action.raises_raise he
  have hnone : ∀ {c : OsCall} {β : Type} {g : c.Answer → β},
      (Action.ask c fun answer ↦ Except.ok (g answer) : Os β).Raises IsOsError :=
    fun {_ _ _} ↦ Action.raises_ask fun _ _ he ↦ absurd he (by simp)
  refine Action.Raises.bind hnone fun status ↦ .bind ?_ fun _ ↦ .bind hnone fun _ ↦
    Action.raises_pure _
  exact .ite (fun _ ↦ (hsuppress hkillpg).bind fun _ ↦ hsuppress hkill) fun _ ↦ Action.raises_pure _

/-- A capture that is broken off. -/
theorem terminate_ensures {α : Type} {e : Exc} {P : Except Exc α → Pipes → Prop}
    (hP : ∀ e, git.Honest written e → ∀ pipes, P (.error e) pipes) (he : git.Honest written e) :
    (terminate process >>= fun _ ↦ .raise e : Os α).Ensures Pipes.Step pipes P := by
  have hraises : (terminate process >>= fun _ ↦ .raise e : Os α).Raises fun e' ↦
      git.Honest written e' :=
    (raises_terminate.mono fun _ ↦ honest_of_isOsError).bind fun _ ↦ Action.raises_raise he
  refine Action.ensures_iff.mpr fun log x pipes' hret _ ↦ ?_
  cases x with
  | ok a =>
    obtain ⟨_, _, _, _, _, hlast⟩ := Action.returns_bind_ok.mp hret
    exact absurd (Action.returns_raise.mp hlast).2 (by simp)
  | error e' => exact hP e' (hraises log e' hret) pipes'

theorem readEvents_reading (events : List Stream) (hnodup : events.Nodup)
    (hopen : events ⊆ streams.registered) (h : git.Reading written (.ok streams) pipes) :
    (git.readEvents process events streams).Ensures Pipes.Step pipes (git.Reading written) := by
  induction events generalizing streams pipes with
  | nil => exact h
  | cons stream events ih =>
    obtain ⟨hnew, hnodup⟩ := List.nodup_cons.mp hnodup
    obtain ⟨hmem, hopen⟩ := List.cons_subset.mp hopen
    obtain ⟨hcaptures, htotal⟩ := h
    rw [ControlledGitCli.readEvents, Action.ensures_bind, Os.read, Action.ensures_ask]
    intro answer pipes' hstep
    rcases Pipes.step_read hstep with ⟨chunk, tail, rfl, hne, hrest, rfl⟩ | ⟨rfl, hrest, rfl⟩ |
      ⟨e, rfl, -, -⟩
    · -- all that was read is kept, and it is part of what was written
      have hwritten := hcaptures.split stream
      have hroom := length_le_ceiling_roomy written stream
      rw [hrest, ← List.append_assoc] at hwritten
      have hfits : (streams.target stream).length + chunk.length ≤
          ceiling (roomy written) stream := by
        rw [hwritten, List.length_append, List.length_append] at hroom
        omega
      have hnext := hcaptures.extend hrest hfits hmem
      simp only [Except.mapError, Action.after_ok]
      rw [if_neg hne]
      by_cases hover : git.maxOutputBytes <
          (streams.extend stream chunk).stdout.length + (streams.extend stream chunk).stderr.length
      · rw [if_pos hover]
        refine terminate_ensures (fun _ he _ ↦ he) fun _ _ ↦ ?_
        have hstdout := (hnext.isPrefix .stdout).length_le
        have hstderr := (hnext.isPrefix .stderr).length_le
        exact lt_of_lt_of_le hover (Nat.add_le_add hstdout hstderr)
      · rw [if_neg hover]
        exact ih hnodup (by rwa [registered_extend]) ⟨hnext, Nat.not_lt.mp hover⟩
    · simp only [Except.mapError, Action.after_ok, if_true]
      refine ih hnodup (fun other hother ↦ ?_) ⟨hcaptures.unregister hrest, htotal⟩
      have hne : other ≠ stream := fun heq ↦ hnew (heq ▸ hother)
      exact (hcaptures.nodup.mem_erase_iff).mpr ⟨hne, hopen hother⟩
    · exact honest_of_isOsError rfl

/-- What the whole capture comes to: both streams to their ends. -/
def ControlledGitCli.ReadWhole (git : ControlledGitCli) (written : Stream → List UInt8) :
    Except Exc Streams → Pipes → Prop
  | .ok streams, _ => (∀ stream, streams.target stream = written stream) ∧ ¬git.Overflows written
  | .error e, _ => git.Honest written e

theorem captureLoop_reading (h : git.Reading written (.ok streams) pipes) :
    (git.captureLoop process deadline fuel streams).Ensures Pipes.Step pipes
      (git.ReadWhole written) := by
  have hlate : ∀ {pipes}, (ControlledGitCli.exceed process : Os Streams).Ensures Pipes.Step pipes
      (git.ReadWhole written) :=
    terminate_ensures (fun _ he _ ↦ he) fun _ he ↦ absurd he (by simp [gitCliError])
  induction fuel generalizing streams pipes with
  | zero => trivial
  | succ fuel ih =>
    obtain ⟨hcaptures, htotal⟩ := h
    rw [ControlledGitCli.captureLoop]
    by_cases hclosed : streams.registered = []
    · rw [if_pos hclosed]
      have hwhole : ∀ stream, streams.target stream = written stream := by
        intro stream
        have hrest := hcaptures.closed stream (by rw [hclosed]; exact List.not_mem_nil)
        rw [hcaptures.split stream, hrest, List.append_nil]
      refine ⟨hwhole, Nat.not_lt.mpr ?_⟩
      rw [← hwhole .stdout, ← hwhole .stderr]
      exact htotal
    rw [if_neg hclosed, Action.ensures_bind, Os.monotonic, Action.ensures_ask]
    intro now pipes' hstep
    obtain rfl := Pipes.step_other (by trivial) hstep
    rw [Action.after_ok]
    by_cases hover : deadline - now ≤ 0
    · rw [if_pos hover]
      exact hlate
    rw [if_neg hover, Action.ensures_bind, Os.select]
    split
    · exact fun detail he ↦ absurd he (by simp)
    rw [Action.ensures_ask]
    intro answer pipes' hstep
    obtain ⟨hrest, -⟩ := Pipes.step_select hstep
    obtain e | ready := answer
    · exact honest_of_isOsError rfl
    change (if ready.1 = [] then _ else _ : Os Streams).Ensures _ _ _
    by_cases hidle : ready.1 = []
    · rw [if_pos hidle]
      exact hlate
    rw [if_neg hidle, Action.ensures_bind]
    refine (readEvents_reading ready.1 ready.2.1 ready.2.2 ⟨hcaptures.congr hrest, htotal⟩).mono ?_
    rintro (e | streams') pipes'' hreading
    · exact hreading
    · exact ih hreading

/-! ## The capture ends -/

/-- A batch uses up something for each of its events. -/
theorem gitReadEvents_left (events : List Stream) (hnodup : events.Nodup)
    (hopen : events ⊆ streams.registered) :
    (git.readEvents process events streams).Ensures Pipes.Step pipes
      (Action.OnReturn fun streams' pipes' ↦
        pipes'.left streams' + events.length ≤ pipes.left streams) := by
  induction events generalizing streams pipes with
  | nil => exact le_rfl
  | cons stream events ih =>
    obtain ⟨hnew, hnodup⟩ := List.nodup_cons.mp hnodup
    obtain ⟨hmem, hopen⟩ := List.cons_subset.mp hopen
    rw [ControlledGitCli.readEvents, Action.ensures_bind_onReturn, Os.read, Action.ensures_ask,
      List.length_cons]
    intro answer pipes' hstep
    rcases Pipes.step_read hstep with ⟨chunk, tail, rfl, hne, hrest, rfl⟩ | ⟨rfl, hrest, rfl⟩ |
      ⟨e, rfl, -, -⟩
    · have hlt := left_leave_lt hne hrest streams
      simp only [Except.mapError, Action.onReturn_ok]
      rw [if_neg hne]
      split
      · rw [Action.ensures_bind_onReturn]
        exact Action.ensures_onReturn_of_forall fun _ _ ↦ trivial
      · refine (ih hnodup (by rwa [registered_extend])).mono fun x pipes'' hx ↦ hx.mono
          fun streams' hle ↦ ?_
        rw [Pipes.left, Pipes.left, registered_extend, ← Pipes.left, ← Pipes.left] at hle
        omega
    · have hlt : pipes'.left (streams.unregister stream) < pipes'.left streams :=
        left_unregister_lt hmem
      simp only [Except.mapError, Action.onReturn_ok, if_true]
      have hopen' : events ⊆ (streams.unregister stream).registered := by
        intro other hother
        have hne : other ≠ stream := fun heq ↦ hnew (heq ▸ hother)
        exact (List.mem_erase_of_ne hne).mpr (hopen hother)
      refine (ih hnodup hopen').mono fun x pipes'' hx ↦ hx.mono fun streams' hle ↦ ?_
      omega
    · trivial

theorem terminate_ends {W : Type} {Env : W → Event OsCall.Answer → W → Prop} {w : W} {α : Type}
    {e : Exc} : (terminate process >>= fun _ ↦ .raise e : Os α).Ends Env w := by
  refine Action.Ends.bind (Action.ends_ask.bind fun _ _ ↦ ?_) fun _ _ ↦ trivial
  refine Action.Ends.bind (.ite ?_ trivial) fun _ _ ↦ Action.ends_ask.bind fun _ _ ↦ trivial
  exact (Action.ends_ask.tryCatch fun _ _ ↦ .ite Action.ends_pure Action.ends_raise).bind fun _ _ ↦
    Action.ends_ask.tryCatch fun _ _ ↦ .ite Action.ends_pure Action.ends_raise

theorem gitReadEvents_ends {W : Type} {Env : W → Event OsCall.Answer → W → Prop} {w : W}
    (events : List Stream) : (git.readEvents process events streams).Ends Env w := by
  induction events generalizing streams w with
  | nil => trivial
  | cons stream events ih =>
    exact Action.ends_ask.bind fun _ _ ↦ .ite ih (.ite terminate_ends ih)

/-- **The capture ends**: each batch uses something up, and a wait for nothing ends it. -/
theorem gitCaptureLoop_ends (h : pipes.left streams < fuel) :
    (git.captureLoop process deadline fuel streams).Ends Pipes.Step pipes := by
  induction fuel generalizing streams pipes with
  | zero => exact absurd h (Nat.not_lt_zero _)
  | succ fuel ih =>
    rw [ControlledGitCli.captureLoop]
    refine .ite trivial (Action.Ends.bind_of_ensures Action.ends_ask
      (Pipes.ensures_elsewhere (Action.calls_ask.mpr (by trivial))) ?_)
    rintro now pipes' rfl
    refine .ite terminate_ends ?_
    rw [Os.select]
    split
    · trivial
    intro answer pipes₁ hstep
    obtain e | ready := answer
    · trivial
    change (if ready.1 = [] then _ else _ : Os Streams).Ends _ _
    by_cases hidle : ready.1 = []
    · rw [if_pos hidle]
      exact terminate_ends
    rw [if_neg hidle]
    obtain ⟨-, ⟨ready', hready, hempty, -⟩ | ⟨rfl, -⟩⟩ := Pipes.step_select hstep
    · exact absurd (Except.ok.inj hready ▸ hempty) hidle
    have hpos : 0 < ready.1.length := List.length_pos_iff.mpr hidle
    refine (gitReadEvents_ends ready.1).bind_of_onReturn
      (gitReadEvents_left ready.1 ready.2.1 ready.2.2) fun streams' pipes₂ hleft ↦ ih ?_
    have hle : pipes₂.left streams' + ready.1.length ≤ pipes₁.left streams := hleft
    omega

/-! ## A command -/

/-- Something on the way that has nothing to do with the pipes. -/
theorem bind_quiet {α β : Type} {p : Os α} {f : α → Os β} {P : Except Exc β → Pipes → Prop}
    (hp : p.Calls Pipes.Elsewhere) (hraises : p.Raises IsOsError)
    (hP : ∀ e, IsOsError e → ∀ pipes, P (.error e) pipes)
    (hf : ∀ a, (f a).Ensures Pipes.Step pipes P) : (p >>= f).Ensures Pipes.Step pipes P := by
  rw [Action.ensures_bind]
  refine ((Pipes.ensures_elsewhere hp).and hraises.ensures).mono ?_
  rintro (e | a) pipes' ⟨rfl, he⟩
  · exact hP e (he e rfl) _
  · exact hf a

/-- What was captured of a command is all it has written, and a status. -/
def ControlledGitCli.Captured (git : ControlledGitCli) (written : Stream → List UInt8) :
    Except Exc (List UInt8 × List UInt8 × ℤ) → Prop
  | .ok (stdout, stderr, _) => stdout = written .stdout ∧ stderr = written .stderr ∧
      ¬git.Overflows written
  | .error e => git.Honest written e

theorem captureBounded_ensures (spurious : ℕ) :
    (git.captureBounded fuel process).Ensures Pipes.Step ⟨written, spurious⟩
      fun x _ ↦ git.Captured written x := by
  have hask : ∀ {c : OsCall} {α : Type} {g : c.Answer → α},
      (Action.ask c fun answer ↦ Except.ok (g answer) : Os α).Raises IsOsError :=
    fun {_ _ _} ↦ Action.raises_ask fun _ _ he ↦ absurd he (by simp)
  have hinitial : git.Reading written (.ok .initial) ⟨written, spurious⟩ :=
    ⟨captures_initial (roomy written) written spurious, Nat.zero_le _⟩
  rw [ControlledGitCli.captureBounded]
  refine bind_quiet (Action.calls_ask.mpr (by trivial)) hask (fun _ he _ ↦ honest_of_isOsError he)
    fun started ↦ bind_quiet (Action.calls_ask.mpr (by trivial))
      (Action.raises_ask fun _ _ ↦ isOsError_of_mapError) (fun _ he _ ↦ honest_of_isOsError he)
      fun _ ↦ ?_
  rw [Action.ensures_bind, Action.ensures_tryFinally]
  have hloop : (do
      Os.register process .stdout
      Os.register process .stderr
      git.captureLoop process (started + git.timeoutSeconds) fuel .initial).Ensures Pipes.Step
        ⟨written, spurious⟩ (git.ReadWhole written) := by
    refine bind_quiet (Action.calls_ask.mpr (by trivial))
      (Action.raises_ask fun _ _ ↦ isOsError_of_mapError) (fun _ he _ ↦ honest_of_isOsError he)
      fun _ ↦ bind_quiet (Action.calls_ask.mpr (by trivial))
        (Action.raises_ask fun _ _ ↦ isOsError_of_mapError) (fun _ he _ ↦ honest_of_isOsError he)
        fun _ ↦ captureLoop_reading hinitial
  refine hloop.mono ?_
  intro x pipes hx
  rw [Os.closeSelector, Action.ensures_ask]
  rintro (e | _) pipes' -
  · exact honest_of_isOsError rfl
  · cases x with
    | error e => exact hx
    | ok streams =>
      refine bind_quiet (Action.calls_ask.mpr (by trivial)) hask
        (fun _ he _ ↦ honest_of_isOsError he) fun status ↦ ?_
      exact ⟨hx.1 .stdout, hx.1 .stderr, hx.2⟩

/-- What a command is found to have said, in UTF-8. -/
def ControlledGitCli.Told (git : ControlledGitCli) (written : Stream → List UInt8) :
    Except Exc Text → Prop
  | .ok t => decodeUtf8 ⟨(written .stdout).toArray⟩ = some t ∧ ¬git.Overflows written
  | .error e => git.Honest written e

theorem run_ensures {arguments : List Text} {cwd : Path} {environment : List (Text × Text)}
    (spurious : ℕ) : (git.run fuel arguments cwd environment).Ensures Pipes.Step ⟨written, spurious⟩
      fun x _ ↦ git.Told written x := by
  have hother : ∀ detail, git.Honest written (gitCliError .commandFailed detail) :=
    fun detail _ he ↦ absurd he (by simp [gitCliError])
  have hcaptured : (Os.popen (git.executable.str :: arguments) cwd environment >>= fun process ↦
      git.captureBounded fuel process).Ensures Pipes.Step ⟨written, spurious⟩
        fun x _ ↦ git.Captured written x := by
    rw [Action.ensures_bind, Os.popen, Action.ensures_ask]
    intro answer pipes hstep
    obtain rfl := Pipes.step_other (by trivial) hstep
    rcases answer with e | process
    · rintro detail he
      cases e <;> exact absurd he (by simp [SpawnError.toExc, OsError.toExc])
    · exact captureBounded_ensures spurious
  rw [ControlledGitCli.run, Action.ensures_bind, Os.translate, Action.ensures_tryCatch]
  refine hcaptured.mono ?_
  rintro (e | ⟨stdout, stderr, status⟩) pipes hx
  · rw [Action.handled_error]
    by_cases hos : e.isOsError = true
    · rw [if_pos hos]
      exact hother _
    · rw [if_neg hos]
      exact hx
  · obtain ⟨rfl, -, hfits⟩ := hx
    rw [Action.handled_ok, Action.after_ok]
    dsimp only
    by_cases hstatus : status ≠ 0
    · rw [if_pos hstatus]
      exact hother _
    rw [if_neg hstatus]
    cases hdecoded : decodeUtf8 ⟨(written .stdout).toArray⟩ with
    | none => exact hother _
    | some decoded => exact ⟨hdecoded, hfits⟩

theorem run_ends {arguments : List Text} {cwd : Path} {environment : List (Text × Text)}
    {spurious : ℕ} (h : Pipes.left ⟨written, spurious⟩ .initial < fuel) :
    (git.run fuel arguments cwd environment).Ends Pipes.Step ⟨written, spurious⟩ := by
  have helsewhere : ∀ {c : OsCall} {α β : Type} {r : c.Answer → Except Exc α} {f : α → Os β},
      Pipes.Elsewhere c → (∀ a, (f a).Ends Pipes.Step ⟨written, spurious⟩) →
      (Action.ask c r >>= f).Ends Pipes.Step ⟨written, spurious⟩ := by
    intro c α β r f hc hf
    refine Action.ends_ask.bind_of_ensures (Pipes.ensures_elsewhere (Action.calls_ask.mpr hc)) ?_
    rintro a pipes rfl
    exact hf a
  have hcapture : ∀ process,
      (git.captureBounded fuel process).Ends Pipes.Step ⟨written, spurious⟩ := by
    intro process
    refine helsewhere trivial fun started ↦ helsewhere trivial fun _ ↦ ?_
    refine Action.Ends.bind (Action.Ends.tryFinally ?_ fun _ ↦ Action.ends_ask) fun _ _ ↦
      Action.ends_ask.bind fun _ _ ↦ trivial
    exact helsewhere trivial fun _ ↦ helsewhere trivial fun _ ↦ gitCaptureLoop_ends h
  refine Action.Ends.bind (ends_translate (helsewhere trivial hcapture)) fun captured _ ↦
    .ite trivial ?_
  split
  · trivial
  · trivial

/-- **A command of Git is found to have said what it has written**, however its output comes: the
run ends, a text that is returned is all the command has written to its standard output, and the two
outputs are within the limit together; and when the limit is said to be passed, it is. -/
theorem run_exact (git : ControlledGitCli) (fuel : ℕ) (arguments : List Text) (cwd : Path)
    (environment : List (Text × Text)) (written : Stream → List UInt8) (spurious : ℕ) :
    ((written .stdout).length + (written .stderr).length + spurious + 2 < fuel →
      (git.run fuel arguments cwd environment).Ends Pipes.Step ⟨written, spurious⟩) ∧
    ∀ log x pipes, (git.run fuel arguments cwd environment).Returns log x →
      Steps Pipes.Step ⟨written, spurious⟩ log pipes →
      (∀ t, x = .ok t → decodeUtf8 ⟨(written .stdout).toArray⟩ = some t ∧
        (written .stdout).length + (written .stderr).length ≤ git.maxOutputBytes) ∧
      ∀ detail, x = .error (.gitCliError .outputLimit detail) →
        git.maxOutputBytes < (written .stdout).length + (written .stderr).length := by
  refine ⟨run_ends, fun log x pipes hret hsteps ↦ ?_⟩
  have htold := Action.ensures_iff.mp (run_ensures spurious) log x pipes hret hsteps
  cases x with
  | ok t =>
    refine ⟨fun t' ht ↦ ?_, fun detail he ↦ absurd he (by simp)⟩
    rw [← Except.ok.inj ht]
    exact ⟨htold.1, Nat.not_lt.mp htold.2⟩
  | error e => exact ⟨fun t ht ↦ absurd ht (by simp), fun detail he ↦
      htold detail (Except.error.inj he)⟩

end

/-- A command that says something. -/
theorem run_exact_tests : ∃ log t, (localGit.run 9 ["version"] ⟨["work"]⟩ []).Returns log (.ok t) ∧
    decodeUtf8 ⟨(testOutput .stdout).toArray⟩ = some t := by
  have hplay : (Interaction.play pipeHost (localGit.run 9 ["version"] ⟨["work"]⟩ [])
      ⟨testOutput, 0⟩).2 = some (.ok (text "ok")) := by
    decide +kernel
  have hworth : ∀ e ∈ (Interaction.play pipeHost (localGit.run 9 ["version"] ⟨["work"]⟩ [])
      ⟨testOutput, 0⟩).1, isWorthwhile e.1 = true := by
    decide +kernel
  obtain ⟨pipes, hpipes⟩ := Interaction.steps_play id pipeHost_pipes hworth
  have hreturns := Interaction.returns_play hplay
  have hexact := (run_exact localGit 9 ["version"] ⟨["work"]⟩ [] testOutput 0).2 _ _ pipes hreturns
    hpipes
  exact ⟨_, _, hreturns, (hexact.1 _ rfl).1⟩

end Alicerce
