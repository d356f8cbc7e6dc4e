import Alicerce.Adapters.CommandExecutor

/-!
# What the sandbox captures

Two pipes deliver what the child writes in chunks of any size and in any order, and the capture
reads them in batches that may turn out to be empty.  None of it shows in the result.

* `Pipes` is an environment of the program, with the law `Pipes.Step`: a read of a stream takes some
  bytes off what is left of it, an empty read says that nothing is left, and a read may fail.
* `Captures` is what a batch of events preserves: what was captured and what is left make up what
  was written.
* `captureLoop_ensures`: what is captured of a stream is a prefix of it within its ceiling, all of
  it when the command exited, and exactly the ceiling of some stream that is longer when the output
  limit stopped it (`Captured`).
* `execute_ensures` says so of what `execute` returns.
-/

set_option autoImplicit false

namespace Alicerce

open Py Lib

/-! ## The pipes -/

/-- What is left in the pipes, and how many times more a wait or a read will come back with
nothing. -/
structure Pipes where
  rest : Stream → List UInt8
  spurious : ℕ

namespace Pipes

/-- Leave something else of a stream. -/
def leave (pipes : Pipes) (stream : Stream) (tail : List UInt8) : Pipes :=
  { pipes with rest := Function.update pipes.rest stream tail }

@[simp] theorem rest_leave_self (pipes : Pipes) (stream : Stream) (tail : List UInt8) :
    (pipes.leave stream tail).rest stream = tail := Function.update_self ..

theorem rest_leave_of_ne (pipes : Pipes) {stream other : Stream} (tail : List UInt8)
    (h : other ≠ stream) : (pipes.leave stream tail).rest other = pipes.rest other :=
  Function.update_of_ne h ..

@[simp] theorem spurious_leave (pipes : Pipes) (stream : Stream) (tail : List UInt8) :
    (pipes.leave stream tail).spurious = pipes.spurious := rfl

/-- A call that is not about the pipes. -/
def Elsewhere : OsCall → Prop
  | .read _ _ _ | .select _ _ => False
  | _ => True

/-- The law of the pipes. -/
inductive Step : Pipes → Event OsCall.Answer → Pipes → Prop
  /-- A read takes at most what was asked for. -/
  | data {pipes : Pipes} {process : Process} {stream : Stream} {count : ℕ} {chunk tail : List UInt8}
      (hrest : pipes.rest stream = chunk ++ tail) (hne : chunk ≠ []) (hle : chunk.length ≤ count) :
      Step pipes ⟨.read process stream count, .ok chunk⟩ (pipes.leave stream tail)
  /-- An empty read is the end of the stream. -/
  | eof {pipes : Pipes} {process : Process} {stream : Stream} {count : ℕ}
      (hrest : pipes.rest stream = []) :
      Step pipes ⟨.read process stream count, .ok []⟩ pipes
  /-- A stream that was reported need not be ready. -/
  | notReady {pipes : Pipes} {process : Process} {stream : Stream} {count spurious : ℕ}
      {e : OsError} (hkind : e.kind = .blocking) (hspurious : pipes.spurious = spurious + 1) :
      Step pipes ⟨.read process stream count, .error e⟩ { pipes with spurious := spurious }
  | readError {pipes : Pipes} {process : Process} {stream : Stream} {count : ℕ} {e : OsError}
      (hkind : e.kind ≠ .blocking) : Step pipes ⟨.read process stream count, .error e⟩ pipes
  /-- A wait may come back with nothing. -/
  | idle {pipes : Pipes} {registered : List Stream} {timeout : ℚ} {spurious : ℕ}
      {ready : Ready registered} (hready : ready.1 = [])
      (hspurious : pipes.spurious = spurious + 1) :
      Step pipes ⟨.select registered timeout, .ok ready⟩ { pipes with spurious := spurious }
  | ready {pipes : Pipes} {registered : List Stream} {timeout : ℚ} {ready : Ready registered}
      (hready : ready.1 ≠ []) : Step pipes ⟨.select registered timeout, .ok ready⟩ pipes
  | selectError {pipes : Pipes} {registered : List Stream} {timeout : ℚ} {e : OsError} :
      Step pipes ⟨.select registered timeout, .error e⟩ pipes
  /-- No other call touches the pipes. -/
  | other {pipes : Pipes} {event : Event OsCall.Answer} (hother : Elsewhere event.1) :
      Step pipes event pipes

variable {pipes pipes' : Pipes} {process : Process} {stream : Stream} {count : ℕ}

/-- **What a read does to the pipes.** -/
theorem step_read {answer : Except OsError (List UInt8)}
    (h : Step pipes ⟨.read process stream count, answer⟩ pipes') :
    (∃ chunk tail, answer = .ok chunk ∧ chunk ≠ [] ∧ pipes.rest stream = chunk ++ tail ∧
        pipes' = pipes.leave stream tail) ∨
      (answer = .ok [] ∧ pipes.rest stream = [] ∧ pipes' = pipes) ∨
      ∃ e, answer = .error e ∧ pipes'.rest = pipes.rest ∧
        (e.kind = .blocking → pipes.spurious = pipes'.spurious + 1) := by
  cases h with
  | data hrest hne hle => exact .inl ⟨_, _, rfl, hne, hrest, rfl⟩
  | eof hrest => exact .inr (.inl ⟨rfl, hrest, rfl⟩)
  | notReady hkind hspurious => exact .inr (.inr ⟨_, rfl, rfl, fun _ ↦ hspurious⟩)
  | readError hkind => exact .inr (.inr ⟨_, rfl, rfl, fun h ↦ absurd h hkind⟩)
  | other hother => exact hother.elim

/-- What a wait does to them. -/
theorem step_select {registered : List Stream} {timeout : ℚ}
    {answer : Except OsError (Ready registered)}
    (h : Step pipes ⟨.select registered timeout, answer⟩ pipes') :
    pipes'.rest = pipes.rest ∧ ((∃ ready, answer = .ok ready ∧ ready.1 = [] ∧
      pipes.spurious = pipes'.spurious + 1) ∨ pipes' = pipes ∧
        ∀ ready, answer = .ok ready → ready.1 ≠ []) := by
  cases h with
  | idle hready hspurious => exact ⟨rfl, .inl ⟨_, rfl, hready, hspurious⟩⟩
  | ready hready => exact ⟨rfl, .inr ⟨rfl, fun ready h ↦ Except.ok.inj h ▸ hready⟩⟩
  | selectError => exact ⟨rfl, .inr ⟨rfl, fun ready h ↦ absurd h (by simp)⟩⟩
  | other hother => exact hother.elim

/-- What any other call does to them: nothing. -/
theorem step_other {event : Event OsCall.Answer} (hother : Elsewhere event.1)
    (h : Step pipes event pipes') : pipes' = pipes := by
  cases h with
  | data | eof | notReady | readError | idle | ready | selectError => exact hother.elim
  | other => rfl

/-- A program that does nothing with the pipes leaves them as they are. -/
theorem ensures_elsewhere {α : Type} {p : Os α} (hp : p.Calls Elsewhere) :
    p.Ensures Step pipes fun _ pipes' ↦ pipes' = pipes :=
  hp.ensures (fun hother heq h ↦ (step_other hother h).trans heq) rfl

/-- What follows a program that does nothing with the pipes finds them as they were. -/
theorem bind_elsewhere {α β : Type} {p : Os α} {f : α → Os β} {P : β → Pipes → Prop}
    (hp : p.Calls Elsewhere) (hf : ∀ a, (f a).Ensures Step pipes (Action.OnReturn P)) :
    (p >>= f).Ensures Step pipes (Action.OnReturn P) := by
  rw [Action.ensures_bind_onReturn]
  refine (ensures_elsewhere hp).mono ?_
  rintro (e | a) pipes' rfl
  · trivial
  · exact hf a

end Pipes

/-! ## What a capture keeps -/

/-- While a capture goes on: what was captured and what is left make up what was written, nothing is
over its ceiling, and of a stream that was closed nothing is left. -/
structure Captures (limits : CommandLimits) (written : Stream → List UInt8) (streams : Streams)
    (pipes : Pipes) : Prop where
  split : ∀ stream, written stream = streams.target stream ++ pipes.rest stream
  within : ∀ stream, (streams.target stream).length ≤ ceiling limits stream
  closed : ∀ stream, stream ∉ streams.registered → pipes.rest stream = []
  nodup : streams.registered.Nodup

/-- What a capture has come to: prefixes within the ceilings; all of it when the command exited, and
exactly the ceiling of a longer stream when the limit was passed. -/
structure Captured (limits : CommandLimits) (written : Stream → List UInt8) (streams : Streams)
    (termination : ExecutionTermination) : Prop where
  isPrefix : ∀ stream, streams.target stream <+: written stream
  within : ∀ stream, (streams.target stream).length ≤ ceiling limits stream
  exited : termination = .exited → ∀ stream, streams.target stream = written stream
  limited : termination = .outputLimit → ∃ stream, ceiling limits stream < (written stream).length ∧
    streams.target stream = (written stream).take (ceiling limits stream)
  reached : termination ≠ .cancelled

@[simp] theorem target_extend_self (streams : Streams) (stream : Stream) (bytes : List UInt8) :
    (streams.extend stream bytes).target stream = streams.target stream ++ bytes := by
  cases stream <;> rfl

theorem target_extend_of_ne (streams : Streams) {stream other : Stream} (bytes : List UInt8)
    (h : other ≠ stream) : (streams.extend stream bytes).target other = streams.target other := by
  cases stream <;> cases other <;> first | rfl | exact absurd rfl h

@[simp] theorem registered_extend (streams : Streams) (stream : Stream) (bytes : List UInt8) :
    (streams.extend stream bytes).registered = streams.registered := by
  cases stream <;> rfl

@[simp] theorem target_unregister (streams : Streams) (stream other : Stream) :
    (streams.unregister stream).target other = streams.target other := by
  cases other <;> rfl

section

variable {limits : CommandLimits} {written : Stream → List UInt8} {streams : Streams}
  {pipes : Pipes} {stream : Stream} {chunk tail : List UInt8}

theorem captures_initial (limits : CommandLimits) (written : Stream → List UInt8) (spurious : ℕ) :
    Captures limits written .initial ⟨written, spurious⟩ where
  split stream := by cases stream <;> rfl
  within stream := by cases stream <;> exact Nat.zero_le _
  closed stream h := by cases stream <;> exact absurd (by decide) h
  nodup := by decide

namespace Captures

/-- Only what is left in the pipes counts. -/
theorem congr {pipes' : Pipes} (h : Captures limits written streams pipes)
    (hrest : pipes'.rest = pipes.rest) : Captures limits written streams pipes' :=
  ⟨fun stream ↦ hrest ▸ h.split stream, h.within, fun stream hs ↦ hrest ▸ h.closed stream hs,
    h.nodup⟩

/-- The end of a stream has been read. -/
theorem unregister (h : Captures limits written streams pipes) (hrest : pipes.rest stream = []) :
    Captures limits written (streams.unregister stream) pipes where
  split other := by rw [target_unregister]; exact h.split other
  within other := by rw [target_unregister]; exact h.within other
  closed other hother := by
    rcases eq_or_ne other stream with rfl | hne
    · exact hrest
    · exact h.closed other fun hmem ↦ hother ((h.nodup.mem_erase_iff).mpr ⟨hne, hmem⟩)
  nodup := h.nodup.erase stream

/-- A chunk has been read that fits. -/
theorem extend (h : Captures limits written streams pipes)
    (hrest : pipes.rest stream = chunk ++ tail)
    (hfits : (streams.target stream).length + chunk.length ≤ ceiling limits stream)
    (hopen : stream ∈ streams.registered) :
    Captures limits written (streams.extend stream chunk) (pipes.leave stream tail) where
  split other := by
    rcases eq_or_ne other stream with rfl | hne
    · rw [target_extend_self, Pipes.rest_leave_self, List.append_assoc, ← hrest, h.split]
    · rw [target_extend_of_ne _ _ hne, Pipes.rest_leave_of_ne _ _ hne, h.split]
  within other := by
    rcases eq_or_ne other stream with rfl | hne
    · rw [target_extend_self, List.length_append]
      exact hfits
    · rw [target_extend_of_ne _ _ hne]
      exact h.within other
  closed other hother := by
    rw [registered_extend] at hother
    have hne : other ≠ stream := fun heq ↦ hother (heq ▸ hopen)
    rw [Pipes.rest_leave_of_ne _ _ hne]
    exact h.closed other hother
  nodup := by rw [registered_extend]; exact h.nodup

theorem isPrefix (h : Captures limits written streams pipes) (stream : Stream) :
    streams.target stream <+: written stream := ⟨_, (h.split stream).symm⟩

/-- A chunk has been read that does not fit: what fits of it is kept. -/
theorem limited (h : Captures limits written streams pipes)
    (hrest : pipes.rest stream = chunk ++ tail)
    (hover : ceiling limits stream - (streams.target stream).length < chunk.length) :
    Captured limits written
      (streams.extend stream (chunk.take (ceiling limits stream - (streams.target stream).length)))
      .outputLimit := by
  have hwithin := h.within stream
  have hsplit : written stream = streams.target stream ++ chunk ++ tail := by
    rw [List.append_assoc, ← hrest, h.split]
  have hceiling : (streams.target stream ++
      chunk.take (ceiling limits stream - (streams.target stream).length)) =
        (written stream).take (ceiling limits stream) := by
    rw [hsplit, List.append_assoc, List.take_append, List.take_of_length_le hwithin,
      List.take_append_of_le_length hover.le]
  refine ⟨fun other ↦ ?_, fun other ↦ ?_, fun h ↦ absurd h (by decide), fun _ ↦ ⟨stream, ?_, ?_⟩,
    by decide⟩
  · rcases eq_or_ne other stream with rfl | hne
    · rw [target_extend_self, hceiling]
      exact List.take_prefix _ _
    · rw [target_extend_of_ne _ _ hne]
      exact h.isPrefix other
  · rcases eq_or_ne other stream with rfl | hne
    · rw [target_extend_self, hceiling]
      exact List.length_take_le _ _
    · rw [target_extend_of_ne _ _ hne]
      exact h.within other
  · rw [hsplit, List.length_append, List.length_append]
    omega
  · rw [target_extend_self, hceiling]

/-- A capture that ends before any limit, for a reason that is not a limit. -/
theorem captured (h : Captures limits written streams pipes) {termination : ExecutionTermination}
    (hexited : termination = .exited → streams.registered = [])
    (hlimit : termination ≠ .outputLimit) (hcancelled : termination ≠ .cancelled) :
    Captured limits written streams termination where
  isPrefix := h.isPrefix
  within := h.within
  exited hex stream := by
    have hrest := h.closed stream (by rw [hexited hex]; exact List.not_mem_nil)
    rw [h.split stream, hrest, List.append_nil]
  limited hlim := absurd hlim hlimit
  reached := hcancelled

end Captures

/-! ## The capture -/

variable {process : Process} {fuel : ℕ} {deadline : ℚ}

/-- **What a read of a ready stream comes to.** -/
theorem readReady_ensures {Q : Except Exc (Option (List UInt8)) → Pipes → Prop}
    (hdata : ∀ chunk tail, chunk ≠ [] → pipes.rest stream = chunk ++ tail →
      Q (.ok (some chunk)) (pipes.leave stream tail))
    (heof : pipes.rest stream = [] → Q (.ok (some [])) pipes)
    (hnot : ∀ pipes', pipes'.rest = pipes.rest → pipes.spurious = pipes'.spurious + 1 →
      Q (.ok none) pipes')
    (hraise : ∀ e pipes', Q (.error e) pipes') :
    (readReady process stream).Ensures Pipes.Step pipes Q := by
  rw [readReady, Action.ensures_tryCatch, Action.ensures_bind, Os.read, Action.ensures_ask]
  intro answer pipes' hstep
  rcases Pipes.step_read hstep with ⟨chunk, tail, rfl, hne, hrest, rfl⟩ | ⟨rfl, hrest, rfl⟩ |
    ⟨e, rfl, hrest, hspurious⟩
  · exact hdata chunk tail hne hrest
  · exact heof hrest
  · change (if e.toExc.isBlockingError then _ else _ : Os (Option (List UInt8))).Ensures _ _ _
    rw [Action.ensures_ite]
    split
    · rename_i hblocking
      exact hnot pipes' hrest (hspurious (OsError.isBlockingError_toExc.mp hblocking))
    · exact hraise _ _

/-- What a batch of events comes to: the capture goes on, or a limit has been passed. -/
def Batch (limits : CommandLimits) (written : Stream → List UInt8) :
    Streams × ExecutionTermination → Pipes → Prop
  | (streams, .exited), pipes => Captures limits written streams pipes
  | (streams, termination), _ => termination = .outputLimit ∧
      Captured limits written streams termination

theorem readEvents_ensures (events : List Stream) (hnodup : events.Nodup)
    (hopen : events ⊆ streams.registered) (h : Captures limits written streams pipes) :
    (readEvents limits process events streams).Ensures Pipes.Step pipes
      (Action.OnReturn (Batch limits written)) := by
  induction events generalizing streams pipes with
  | nil => exact h
  | cons stream events ih =>
    obtain ⟨hnew, hnodup⟩ := List.nodup_cons.mp hnodup
    obtain ⟨hmem, hopen⟩ := List.cons_subset.mp hopen
    rw [readEvents, Action.ensures_bind_onReturn]
    refine readReady_ensures ?_ ?_ ?_ fun _ _ ↦ trivial
    · intro chunk tail hne hrest
      obtain ⟨byte, bytes, rfl⟩ := List.exists_cons_of_ne_nil hne
      rw [Action.onReturn_ok]
      dsimp only
      rw [Action.ensures_ite]
      split
      · rename_i hover
        exact ⟨rfl, h.limited hrest hover⟩
      · rename_i hfits
        have hwithin := h.within stream
        have hlength := Nat.not_lt.mp hfits
        rw [List.take_of_length_le hlength]
        exact ih hnodup (by rwa [registered_extend]) (h.extend hrest (by omega) hmem)
    · intro hrest
      refine ih hnodup (fun other hother ↦ ?_) (h.unregister hrest)
      have hne : other ≠ stream := fun heq ↦ hnew (heq ▸ hother)
      exact (h.nodup.mem_erase_iff).mpr ⟨hne, hopen hother⟩
    · exact fun pipes' hrest _ ↦ ih hnodup hopen (h.congr hrest)

theorem isIdle_elsewhere (process : Process) (events : List Stream) :
    (isIdle process events).Calls Pipes.Elsewhere :=
  .ite ((Action.calls_ask.mpr (by trivial)).bind fun _ ↦ trivial) trivial

/-- **What the whole capture comes to.** -/
theorem captureLoop_ensures (h : Captures limits written streams pipes) :
    (captureLoop limits process deadline fuel streams).Ensures Pipes.Step pipes
      (Action.OnReturn fun r _ ↦ Captured limits written r.1 r.2) := by
  induction fuel generalizing streams pipes with
  | zero => trivial
  | succ fuel ih =>
    rw [captureLoop, Action.ensures_ite]
    split
    · rename_i hclosed
      exact h.captured (fun _ ↦ hclosed) (by simp) (by simp)
    refine Pipes.bind_elsewhere (Action.calls_ask.mpr (by trivial)) fun now ↦ ?_
    rw [Action.ensures_ite]
    split
    · exact h.captured (fun hex ↦ absurd hex (by simp)) (by simp) (by simp)
    rw [Action.ensures_bind_onReturn, Os.select]
    split
    · trivial
    rw [Action.ensures_ask]
    intro answer pipes' hstep
    obtain ⟨hrest, -⟩ := Pipes.step_select hstep
    obtain e | ready := answer
    · trivial
    replace h := h.congr hrest
    change (isIdle process ready.1 >>= _ : Os (Streams × ExecutionTermination)).Ensures _ _ _
    refine Pipes.bind_elsewhere (isIdle_elsewhere process ready.1) fun idle ↦ ?_
    rw [Action.ensures_ite]
    split
    · exact ih h
    rw [Action.ensures_bind_onReturn]
    refine (readEvents_ensures ready.1 ready.2.1 ready.2.2 h).mono fun x pipes' hx ↦
      hx.mono fun ⟨streams', termination⟩ hbatch ↦ ?_
    dsimp only
    rw [Action.ensures_ite]
    split
    · rename_i hstopped
      cases termination with
      | exited => exact absurd rfl hstopped
      | timedOut | cancelled | outputLimit => exact hbatch.2
    · rename_i hexited
      obtain rfl := not_not.mp hexited
      exact ih hbatch

/-! ## The result -/

/-- What `execute` returns is what the capture has come to, with a status exactly when the command
exited, and times in UTC. -/
structure Reported (limits : CommandLimits) (written : Stream → List UInt8)
    (result : SandboxResult) : Prop where
  captured : ∃ streams, Captured limits written streams result.termination ∧
    result.stdout = ⟨streams.stdout.toArray⟩ ∧ result.stderr = ⟨streams.stderr.toArray⟩
  exitCode_iff : result.exitCode.isSome = true ↔ result.termination = .exited

theorem withCapture_ensures {α : Type} {body : Os α} {P : α → Prop}
    (h : body.Ensures Pipes.Step pipes (Action.OnReturn fun a _ ↦ P a)) :
    (withCapture process body).Ensures Pipes.Step pipes (Action.OnReturn fun a _ ↦ P a) := by
  rw [withCapture]
  iterate 5 refine Pipes.bind_elsewhere (Action.calls_ask.mpr (by trivial)) fun _ ↦ ?_
  exact Action.Ensures.tryFinally_onReturn (h.mono fun x w' hx ↦ hx.mono fun a ha ↦
    Action.ensures_onReturn_of_forall fun _ _ ↦ ha)

theorem captureAndReap_ensures (h : Captures limits written .initial pipes) :
    (captureAndReap fuel limits process deadline).Ensures Pipes.Step pipes
      (Action.OnReturn fun r _ ↦ Captured limits written r.1 r.2.1 ∧
        (r.2.2.isSome = true ↔ r.2.1 = .exited)) := by
  refine Action.Ensures.tryCatch_onReturn ?_ fun e w' ↦ ?_
  · rw [Action.ensures_bind_onReturn]
    refine (withCapture_ensures (captureLoop_ensures h)).mono fun x w' hx ↦
      hx.mono fun ⟨streams, termination⟩ hcaptured ↦ ?_
    dsimp only
    rw [Action.ensures_ite]
    split
    · rename_i hstopped
      rw [Action.ensures_bind_onReturn]
      exact Action.ensures_onReturn_of_forall fun _ _ ↦
        ⟨hcaptured, iff_of_false (by simp) hstopped⟩
    · rename_i hexited
      rw [Action.ensures_bind_onReturn]
      exact Action.ensures_onReturn_of_forall fun _ _ ↦
        ⟨hcaptured, iff_of_true rfl (not_not.mp hexited)⟩
  · rw [Action.ensures_ite]
    split
    · rw [Action.ensures_bind_onReturn]
      exact Action.ensures_onReturn_of_forall fun _ _ ↦ trivial
    · trivial

variable {backend : LinuxProcessSandboxBackend} {invocation : SandboxInvocation}

theorem elsewhere_of_looks : ∀ c, OsCall.Looks c → Pipes.Elsewhere c := by
  intro c h
  cases c <;> trivial

/-- **What `execute` returns.** -/
theorem execute_ensures (spurious : ℕ) :
    (backend.execute fuel invocation).Ensures Pipes.Step ⟨written, spurious⟩
      (Action.OnReturn fun result _ ↦ Reported invocation.limits written result) := by
  rw [LinuxProcessSandboxBackend.execute]
  refine Pipes.bind_elsewhere ((backend.looks_prepareSpawn _).mono elsewhere_of_looks)
    fun ⟨command, startedAt⟩ ↦ ?_
  refine Pipes.bind_elsewhere (Os.calls_translate (Action.calls_ask.mpr (by trivial)))
    fun process ↦ ?_
  rw [LinuxProcessSandboxBackend.supervise]
  refine Pipes.bind_elsewhere (Action.calls_ask.mpr (by trivial)) fun started ↦
    Pipes.bind_elsewhere Action.calls_lift fun timeout ↦ ?_
  rw [Action.ensures_bind_onReturn]
  refine Action.Ensures.tryFinally_onReturn ((captureAndReap_ensures (captures_initial _ _ _)).mono
    fun x w' hx ↦ hx.mono fun ⟨streams, termination, exitCode⟩ hcaptured ↦
      Action.ensures_onReturn_of_forall fun _ _ ↦ ?_)
  dsimp only
  rw [Action.ensures_bind_onReturn]
  exact Action.ensures_onReturn_of_forall fun finishedAt _ ↦
    ⟨⟨streams, hcaptured.1, rfl, rfl⟩, hcaptured.2⟩

end

end Alicerce
