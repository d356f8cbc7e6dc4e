import Alicerce.Adapters.HostErrors
import Alicerce.Adapters.ProcessGroup
import Alicerce.Lib.Histories

/-!
# Processes that are left behind

When a runner gives up, has the process it spawned exited?

* `ExitSeen`: the exit of the process was seen, by an answer that tells it (`SeesExit`).
* `Settles`: of the capture of an output and of the termination that follows it, the exit was seen,
  or the runner says that its cleanup failed, or a number was too large, and no handler expects
  that.
* `FarOff`: a selector is asked to wait for too long, which raises; `captureLoop_endsFor` says that
  the loop ends for that and for nothing else but an `OSError`.
* `Overshoots`: what raises in a capture is taken over by what raises when the capture is closed
  (`withCapture_endsFor`).
* `terminateTree_settles`: a termination settles the process, unless the grace is no float
  (`GraceOverflows`).
-/

set_option autoImplicit false

namespace Alicerce

open Py Lib

/-! ## What the log tells -/

/-- An answer that tells that the process has exited. -/
def SeesExit : Event OsCall.Answer → Prop
  | ⟨.poll _, some _⟩ | ⟨.wait _, _⟩ | ⟨.waitFor _ _, some _⟩ => True
  | _ => False

/-- The exit of the process was seen. -/
def ExitSeen (log : OsLog) : Prop := Happened SeesExit log

/-- The first signal was sent. -/
def SignalSent (log : OsLog) : Prop := ∃ process, ⟨.killpg process .sigterm, .ok ()⟩ ∈ log

/-- A selector or a stream that cannot be closed. -/
def ClosesBadly : Event OsCall.Answer → Prop
  | ⟨.closeSelector, .error _⟩ | ⟨.closeStream _ _, .error _⟩ => True
  | _ => False

/-- Something could not be closed. -/
def CloseFails (log : OsLog) : Prop := Happened ClosesBadly log

/-- A time from which the deadline is further off than a selector can wait. -/
def TellsFar (deadline : ℚ) : Event OsCall.Answer → Prop
  | ⟨.monotonic, now⟩ => Os.selectLimit < deadline - now
  | _ => False

/-- Such a time was told. -/
def FarOff (deadline : ℚ) (log : OsLog) : Prop := Happened (TellsFar deadline) log

section

variable {deadline : ℚ} {log l : OsLog} {event : Event OsCall.Answer}

theorem signalSent_append : SignalSent (log ++ l) ↔ SignalSent log ∨ SignalSent l := by
  simp only [SignalSent, List.mem_append, exists_or]

theorem closeFails_append : CloseFails (log ++ l) ↔ CloseFails log ∨ CloseFails l := happened_append

theorem farOff_append : FarOff deadline (log ++ l) ↔ FarOff deadline log ∨ FarOff deadline l :=
  happened_append

theorem not_farOff (h : ∀ e ∈ l, e.1 ≠ .monotonic) : ¬FarOff deadline l := by
  rintro ⟨⟨call, answer⟩, hmem, hfar⟩
  cases call with
  | monotonic => exact h _ hmem rfl
  | _ => exact hfar

end

/-! ## The capture -/

section

variable {α : Type} {limits : CommandLimits} {process : Process} {deadline : ℚ} {fuel : ℕ}
  {log : OsLog}

/-- A program ends without having asked too much of the selector, but maybe for an `OSError`; or it
ends for having done so. -/
def EndsFor (far : Prop) (x : Except Exc α) : Prop :=
  (¬far ∧ ∀ e, x = .error e → IsOsError e) ∨ far ∧ ∃ message, x = .error (.overflowError message)

theorem endsFor_ok {far : Prop} {a : α} (h : ¬far) : EndsFor far (.ok a : Except Exc α) :=
  .inl ⟨h, fun _ he ↦ absurd he (by simp)⟩

theorem endsFor_osError {far : Prop} {e : OsError} (h : ¬far) :
    EndsFor far (.error e.toExc : Except Exc α) :=
  .inl ⟨h, fun _ he ↦ Except.error.inj he ▸ rfl⟩

/-- A part that leaves `good` as it is, and what follows it. -/
theorem bind_endsFor {β : Type} {S : OsCall → Prop} {good far : OsLog → Prop} {p : Os α}
    {f : α → Os β} (hkeeps : ∀ log l, good log → (∀ e ∈ l, S e.1) → good (log ++ l))
    (hfar : ∀ log, good log → ¬far log) (hcalls : p.Calls S) (hraises : p.Raises IsOsError)
    (hlog : good log)
    (hf : ∀ a log', good log' → (f a).Ensures Appends log' fun x log'' ↦ EndsFor (far log'') x) :
    (p >>= f).Ensures Appends log fun x log' ↦ EndsFor (far log') x := by
  rw [Action.ensures_bind]
  refine (hcalls.appends.and hraises.ensures).mono ?_
  rintro x _ ⟨⟨l, rfl, hl⟩, hx⟩
  have hgood := hkeeps log l hlog hl
  cases x with
  | ok a => exact hf a _ hgood
  | error e => exact .inl ⟨hfar _ hgood, fun e' he ↦ hx e' (by rw [Except.error.inj he])⟩

/-- What does not ask for the time leaves the deadline as near as it was. -/
theorem keeps_near {S : OsCall → Prop} (hS : ¬S .monotonic) (log l : OsLog)
    (hlog : ¬FarOff deadline log) (hl : ∀ e ∈ l, S e.1) : ¬FarOff deadline (log ++ l) := by
  rw [farOff_append, or_iff_right hlog]
  exact not_farOff fun e he heq ↦ hS (heq ▸ hl e he)

theorem raises_readEvents (events : List Stream) (streams : Streams) :
    (readEvents limits process events streams).Raises IsOsError := by
  induction events generalizing streams with
  | nil => exact Action.raises_pure _
  | cons stream events ih =>
    refine Action.Raises.bind (P := IsOsError) ?_ fun chunk ↦ ?_
    · refine Action.Raises.tryCatch (P := IsOsError) (.bind
        (Action.raises_ask fun _ _ ↦ isOsError_of_mapError) fun _ ↦ Action.raises_pure _)
        fun e he ↦ ?_
      exact .ite (fun _ ↦ Action.raises_pure _) fun _ ↦ Action.raises_raise he
    · obtain _ | _ | ⟨_, _⟩ := chunk
      · exact ih _
      · exact ih _
      · exact .ite (fun _ ↦ Action.raises_pure _) fun _ ↦ ih _

theorem raises_isIdle {events : List Stream} : (isIdle process events).Raises IsOsError :=
  .ite (fun _ ↦ .bind (Action.raises_ask fun _ _ h ↦ absurd h (by simp)) fun _ ↦
    Action.raises_pure _) fun _ ↦ Action.raises_pure _

/-- **What the selector cannot express ends the loop**, and nothing else but an `OSError` does. -/
theorem captureLoop_endsFor (streams : Streams) (hlog : ¬FarOff deadline log) :
    (captureLoop limits process deadline fuel streams).Ensures Appends log
      fun x log' ↦ EndsFor (FarOff deadline log') x := by
  induction fuel generalizing streams log with
  | zero => trivial
  | succ fuel ih =>
    rw [captureLoop, Action.ensures_ite]
    split
    · exact endsFor_ok hlog
    rw [Action.ensures_bind, Os.monotonic, Action.ensures_ask]
    rintro now _ rfl
    have hfar : FarOff deadline (log ++ [⟨.monotonic, now⟩]) ↔ Os.selectLimit < deadline - now := by
      rw [farOff_append, or_iff_right hlog]
      simp [FarOff, TellsFar]
    rw [Action.after_ok, Action.ensures_ite]
    split
    · rename_i hlate
      have hlimit : (0 : ℚ) ≤ Os.selectLimit := by rw [Os.selectLimit]; norm_num
      exact endsFor_ok fun h ↦ absurd (hfar.mp h) (hlate.trans hlimit).not_gt
    rw [Action.ensures_bind, Os.select]
    split
    · rename_i hover
      exact .inr ⟨hfar.mpr hover, _, rfl⟩
    rename_i hfits
    rw [Action.ensures_ask]
    rintro answer _ rfl
    have hnear : ¬FarOff deadline
        (log ++ [⟨.monotonic, now⟩] ++
          [⟨.select streams.registered (deadline - now), answer⟩]) := by
      rw [farOff_append, or_iff_left (not_farOff (by simp)), hfar]
      exact hfits
    cases answer with
    | error e => exact endsFor_osError hnear
    | ok ready =>
      -- neither an idle wakeup nor a batch of events asks for the time
      refine bind_endsFor (keeps_near id) (fun _ ↦ id) (calls_isIdle ready.1) raises_isIdle hnear
        fun idle log' hnear ↦ ?_
      rw [Action.ensures_ite]
      split
      · exact ih streams hnear
      refine bind_endsFor (keeps_near id) (fun _ ↦ id) (calls_readEvents ready.1 streams)
        (raises_readEvents _ _) hnear fun r log' hnear ↦ ?_
      dsimp only
      rw [Action.ensures_ite]
      split
      · exact endsFor_ok hnear
      · exact ih _ hnear

/-- A call that prepares a capture. -/
def PreparesCapture : OsCall → Prop
  | .openSelector | .setBlocking _ _ | .register _ _ => True
  | _ => False

theorem not_closesBadly_of_prepares (c : OsCall) (hc : PreparesCapture c) (answer : c.Answer) :
    ¬ClosesBadly ⟨c, answer⟩ := by
  cases c <;> first | exact hc.elim | exact id

theorem not_closesBadly_of_loops (c : OsCall) (hc : c.Loops) (answer : c.Answer) :
    ¬ClosesBadly ⟨c, answer⟩ := by
  cases c <;> first | exact hc.elim | exact id

/-- Nothing was asked too much of the selector, and nothing could not be closed. -/
def Fine (deadline : ℚ) (log : OsLog) : Prop := ¬FarOff deadline log ∧ ¬CloseFails log

/-- A selector that was asked too much, and was closed. -/
def Overshoots (deadline : ℚ) (log : OsLog) : Prop := FarOff deadline log ∧ ¬CloseFails log

theorem keeps_fine (log l : OsLog) (hlog : Fine deadline log) (hl : ∀ e ∈ l, PreparesCapture e.1) :
    Fine deadline (log ++ l) := by
  refine ⟨?_, ?_⟩
  · rw [farOff_append, or_iff_right hlog.1]
    refine not_farOff fun e he heq ↦ ?_
    have hcall := hl e he
    rw [heq] at hcall
    exact hcall
  · rw [closeFails_append, or_iff_right hlog.2]
    exact not_happened_of_calls hl not_closesBadly_of_prepares

/-- A call that closes. -/
def OsCall.Closes : OsCall → Prop
  | .closeSelector | .closeStream _ _ => True
  | _ => False

/-- Some things were closed, or one of them was not. -/
def ClosedBy (log : OsLog) (x : Except Exc Unit) (log' : OsLog) : Prop :=
  ∃ l, log' = log ++ l ∧ (∀ e ∈ l, OsCall.Closes e.1) ∧
    (x = .ok () ∧ ¬CloseFails l ∨ (∃ e : OsError, x = .error e.toExc) ∧ CloseFails l)

theorem closeSelector_closedBy : Os.closeSelector.Ensures Appends log (ClosedBy log) := by
  rintro answer _ rfl
  refine ⟨_, rfl, by simp [OsCall.Closes], ?_⟩
  cases answer with
  | ok => exact .inl ⟨rfl, by simp [CloseFails, ClosesBadly]⟩
  | error e => exact .inr ⟨⟨e, rfl⟩, by simp [CloseFails, ClosesBadly]⟩

theorem closeStream_closedBy {stream : Stream} :
    (Os.closeStream process stream).Ensures Appends log (ClosedBy log) := by
  rintro answer _ rfl
  refine ⟨_, rfl, by simp [OsCall.Closes], ?_⟩
  cases answer with
  | ok => exact .inl ⟨rfl, by simp [CloseFails, ClosesBadly]⟩
  | error e => exact .inr ⟨⟨e, rfl⟩, by simp [CloseFails, ClosesBadly]⟩

theorem bind_closedBy {p q : Os Unit} (hp : p.Ensures Appends log (ClosedBy log))
    (hq : ∀ log', q.Ensures Appends log' (ClosedBy log')) :
    (p >>= fun _ ↦ q).Ensures Appends log (ClosedBy log) := by
  rw [Action.ensures_bind]
  refine hp.mono ?_
  rintro x _ ⟨l, rfl, hl, ⟨rfl, hfine⟩ | ⟨⟨e, rfl⟩, hfails⟩⟩
  · refine (hq _).mono ?_
    rintro y _ ⟨l', rfl, hl', hy⟩
    refine ⟨l ++ l', List.append_assoc .., fun e he ↦ ?_, ?_⟩
    · exact (List.mem_append.mp he).elim (hl e) (hl' e)
    · rwa [closeFails_append, or_iff_right hfine]
  · exact ⟨l, rfl, hl, .inr ⟨⟨e, rfl⟩, hfails⟩⟩

/-- What is done when a capture is over. -/
theorem close_closedBy : (do
    Os.closeSelector
    Os.closeStream process .stdout
    Os.closeStream process .stderr : Os Unit).Ensures Appends log (ClosedBy log) :=
  bind_closedBy closeSelector_closedBy fun _ ↦ bind_closedBy closeStream_closedBy fun _ ↦
    closeStream_closedBy

/-- The clause that closes everything, with a result pending. -/
theorem close_endsFor {x : Except Exc α} (hlog : ¬CloseFails log)
    (hx : EndsFor (FarOff deadline log) x) :
    (do
      Os.closeSelector
      Os.closeStream process .stdout
      Os.closeStream process .stderr : Os Unit).Ensures Appends log
        (Action.Pending x fun y log' ↦ EndsFor (Overshoots deadline log') y) := by
  refine close_closedBy.mono ?_
  rintro y _ ⟨l, rfl, hl, ⟨rfl, hfine⟩ | ⟨⟨e, rfl⟩, hfails⟩⟩
  · have hnear : ¬FarOff deadline l := not_farOff fun e he heq ↦ by
      have hcall := hl e he
      rw [heq] at hcall
      exact hcall
    have hiff : Overshoots deadline (log ++ l) ↔ FarOff deadline log := by
      rw [Overshoots, farOff_append, closeFails_append, or_iff_left hnear, or_iff_left hfine,
        and_iff_left hlog]
    rw [Action.pending_ok, EndsFor, hiff]
    exact hx
  · exact endsFor_osError fun h ↦ h.2 (closeFails_append.mpr (.inr hfails))

/-- **A capture that asked too much of the selector raises**, unless what it has open cannot be
closed. -/
theorem withCapture_endsFor {body : Os α} (hlog : Fine deadline log)
    (hbody : ∀ log, Fine deadline log → body.Ensures Appends log fun x log' ↦
      EndsFor (FarOff deadline log') x ∧ ¬CloseFails log') :
    (withCapture process body).Ensures Appends log fun x log' ↦
      EndsFor (Overshoots deadline log') x := by
  have hfar : ∀ log, Fine deadline log → ¬Overshoots deadline log := fun _ h h' ↦ h.1 h'.1
  have hask : ∀ {c : OsCall} {r : c.Answer → Except Exc Unit} {log : OsLog} {f : Unit → Os α},
      PreparesCapture c → (∀ answer e, r answer = .error e → IsOsError e) → Fine deadline log →
      (∀ log', Fine deadline log' → (f ()).Ensures Appends log' fun x log'' ↦
        EndsFor (Overshoots deadline log'') x) →
      (Action.ask c r >>= f).Ensures Appends log fun x log' ↦
      EndsFor (Overshoots deadline log') x :=
    fun hc hr hlog hf ↦ bind_endsFor keeps_fine hfar (Action.calls_ask.mpr hc)
      (Action.raises_ask hr) hlog fun _ ↦ hf
  rw [withCapture]
  refine hask trivial (fun _ _ ↦ isOsError_of_mapError) hlog fun log hlog ↦ ?_
  iterate 4 refine hask trivial (fun _ _ ↦ isOsError_of_mapError) hlog fun log hlog ↦ ?_
  rw [Action.ensures_tryFinally]
  exact (hbody log hlog).mono fun x log' hx ↦ close_endsFor hx.2 hx.1

/-! ## The cleanup -/

/-- The group is signalled, and the grace it is given is no float. -/
def GraceOverflows (graceMs : ℕ) (log : OsLog) : Prop :=
  Os.floatLimit ≤ (graceMs : ℚ) / 1000 ∧ SignalSent log

/-- How a runner is left: the exit of the process was seen, or it says that the cleanup failed, or a
number was too large. -/
def Settles (excess : OsLog → Prop) (x : Except Exc α) (log : OsLog) : Prop :=
  ExitSeen log ∨
    ¬excess log ∧ (∃ detail, x = .error (sandboxError .cleanupFailed detail)) ∨
      excess log ∧ ∃ message, x = .error (.overflowError message)

/-- **A termination settles the process.** -/
theorem terminateTree_settles {graceMs : ℕ} (hlog : ¬SignalSent log) :
    (terminateTree process graceMs).Ensures Appends log (Settles (GraceOverflows graceMs)) := by
  rw [terminateTree, Action.ensures_bind, Os.poll, Action.ensures_ask]
  rintro (_ | status) _ rfl
  swap
  · exact .inl (Happened.concat trivial)
  have hunsent : ¬SignalSent (log ++ [⟨.poll process, none⟩]) := by
    rw [signalSent_append, or_iff_right hlog]
    simp [SignalSent]
  rw [Action.after_ok, if_neg (by simp), Os.ensures_translate, signalTree, Action.ensures_bind,
    Os.killpg, Action.ensures_ask]
  rintro (e | _) _ rfl
  · refine .inr (.inl ⟨fun h ↦ ?_, _, rfl⟩)
    rw [GraceOverflows, signalSent_append, or_iff_right hunsent] at h
    exact absurd h.2 (by simp [SignalSent])
  rw [mapError_ok, Action.after_ok, Action.ensures_tryCatch, Os.seconds]
  by_cases hgrace : Os.floatLimit ≤ (graceMs : ℚ) / 1000
  · rw [if_pos hgrace]
    exact .inr (.inr ⟨⟨hgrace, process, by simp⟩, _, rfl⟩)
  have hfits : ∀ log, ¬GraceOverflows graceMs log := fun _ h ↦ hgrace h.1
  rw [if_neg hgrace, Action.lift_ok_bind, Os.waitFor]
  rintro (_ | status) _ rfl
  swap
  · exact .inl (Happened.concat trivial)
  -- the leader has outlived its grace
  refine Action.ensures_bind.mpr ?_
  rintro (e | _) _ rfl
  · exact .inr (.inl ⟨hfits _, _, rfl⟩)
  change (do
    let grace ← .lift (.ok ((graceMs : ℚ) / 1000))
    discard (Os.waitFor process (max grace (1 / 10))) : Os PUnit).Ensures _ _ _
  rw [Action.lift_ok_bind]
  rintro (_ | status) _ rfl
  · exact .inr (.inl ⟨hfits _, _, rfl⟩)
  · exact .inl (Happened.concat trivial)

/-- A call of a termination. -/
def OsCall.Terminates : OsCall → Prop
  | .poll _ | .killpg _ _ | .waitFor _ _ => True
  | _ => False

theorem not_closesBadly_of_terminates (c : OsCall) (hc : c.Terminates) (answer : c.Answer) :
    ¬ClosesBadly ⟨c, answer⟩ := by
  cases c <;> first | exact hc.elim | exact id

theorem calls_terminateTree {graceMs : ℕ} :
    (terminateTree process graceMs).Calls OsCall.Terminates := by
  refine .bind (Action.calls_ask.mpr trivial) fun status ↦ .ite trivial (Os.calls_translate ?_)
  refine (Action.calls_ask.mpr trivial).bind fun _ ↦ .tryCatch ?_ fun e ↦ .ite ?_ trivial
  · exact Action.calls_lift.bind fun _ ↦ Os.calls_discard (Action.calls_ask.mpr trivial)
  · exact (Action.calls_ask.mpr trivial).bind fun _ ↦ Action.calls_lift.bind fun _ ↦
      Os.calls_discard (Action.calls_ask.mpr trivial)

theorem tends_captureAndReap :
    (captureAndReap fuel limits process deadline).Calls OsCall.Tends := by
  have hcaptures : ∀ c, OsCall.Captures c → OsCall.Tends c := by
    intro c hc
    cases c <;> first | exact hc.elim | trivial
  have hterminates : ∀ c, OsCall.Terminates c → OsCall.Tends c := by
    intro c hc
    cases c <;> first | exact hc.elim | trivial
  have hterminate : (terminateTree process limits.terminationGraceMs).Calls OsCall.Tends :=
    calls_terminateTree.mono hterminates
  refine .tryCatch (.bind ?_ fun _ ↦ .ite (hterminate.bind fun _ ↦ trivial) ?_) fun _ ↦
    .ite (hterminate.bind fun _ ↦ trivial) trivial
  · exact (calls_withCapture ((calls_captureLoop _).mono OsCall.captures_of_loops)).mono hcaptures
  · exact (Action.calls_ask.mpr trivial).bind fun _ ↦ trivial

/-- A number was too large: a timeout for the selector, or the grace for a float. -/
def Exceeds (limits : CommandLimits) (deadline : ℚ) (log : OsLog) : Prop :=
  Overshoots deadline log ∨ GraceOverflows limits.terminationGraceMs log

theorem terminateTree_exceeds (hfits : ¬Overshoots deadline log) (hlog : ¬SignalSent log) :
    (terminateTree process limits.terminationGraceMs).Ensures Appends log
      (Settles (Exceeds limits deadline)) := by
  refine ((terminateTree_settles hlog).and calls_terminateTree.appends).mono ?_
  rintro x _ ⟨hx, l, rfl, hl⟩
  -- a termination neither asks for the time nor closes anything
  have hfar : ¬FarOff deadline l := not_farOff fun e he heq ↦ by
    have hcall := hl e he
    rw [heq] at hcall
    exact hcall
  have hclose : ¬CloseFails l := not_happened_of_calls hl not_closesBadly_of_terminates
  have hiff : Exceeds limits deadline (log ++ l) ↔
      GraceOverflows limits.terminationGraceMs (log ++ l) := by
    refine or_iff_right fun hover ↦ hfits ?_
    rw [Overshoots, farOff_append, closeFails_append, or_iff_left hfar, or_iff_left hclose] at hover
    exact hover
  rw [Settles, hiff]
  exact hx

theorem settles_error {β : Type} {excess : OsLog → Prop} {e : Exc} :
    Settles excess (.error e : Except Exc α) log ↔
    Settles excess (.error e : Except Exc β) log := by
  simp only [Settles, Except.error.injEq]

/-- A termination, and what is done once the process has exited. -/
theorem terminate_settles {f : Unit → Os α} (hfits : ¬Overshoots deadline log)
    (hlog : ¬SignalSent log) :
    (terminateTree process limits.terminationGraceMs >>= f).Ensures Appends log
      (Settles (Exceeds limits deadline)) := by
  rw [Action.ensures_bind]
  refine (terminateTree_exceeds hfits hlog).mono ?_
  rintro (e | ⟨⟩) log' hx
  · exact settles_error.mp hx
  · have hseen : ExitSeen log' := hx.resolve_right (by simp)
    exact (Action.Happened.ensures hseen).mono fun _ _ ↦ .inl

/-- What a handler of `OSError`s makes of a run that is settled. -/
theorem handled_settles {excess : OsLog → Prop} {x : Except Exc α} {h : Os α}
    (hx : Settles excess x log) :
    Action.Handled Appends
      (fun e ↦ if e.isOsError then h else .raise e) (Settles excess) x log := by
  cases x with
  | ok a => exact hx
  | error e =>
    rw [Action.handled_error, Action.ensures_ite]
    split
    · rename_i he
      rcases hx with hseen | ⟨-, detail, heq⟩ | ⟨-, message, heq⟩
      · exact (Action.Happened.ensures hseen).mono fun _ _ ↦ .inl
      · rw [Except.error.inj heq] at he
        exact absurd he (by simp [sandboxError, Exc.isOsError])
      · rw [Except.error.inj heq] at he
        exact absurd he (by simp [Exc.isOsError])
    · exact hx

theorem captureAndReap_settles :
    (captureAndReap fuel limits process deadline).Ensures Appends []
      (Settles (Exceeds limits deadline)) := by
  have hcalls : (captureLoop limits process deadline fuel .initial).Calls OsCall.Loops :=
    calls_captureLoop _
  have hbody : ∀ log, Fine deadline log →
      (captureLoop limits process deadline fuel .initial).Ensures Appends log fun x log' ↦
        EndsFor (FarOff deadline log') x ∧ ¬CloseFails log' := by
    intro log hlog
    refine ((captureLoop_endsFor _ hlog.1).and hcalls.appends).mono ?_
    rintro x _ ⟨hx, l, rfl, hl⟩
    refine ⟨hx, ?_⟩
    rw [closeFails_append, or_iff_right hlog.2]
    exact not_happened_of_calls hl not_closesBadly_of_loops
  have hfine : Fine deadline [] := ⟨by simp [FarOff], by simp [CloseFails]⟩
  rw [captureAndReap, Action.ensures_tryCatch, Action.ensures_bind]
  refine ((withCapture_endsFor hfine hbody).and
    (calls_withCapture (hcalls.mono OsCall.captures_of_loops)).appends).mono ?_
  rintro x log ⟨hx, l, hlog, hl⟩
  obtain rfl : log = l := hlog
  have hunsent : ¬SignalSent log := by
    rintro ⟨process, hmem⟩
    exact hl _ hmem
  cases x with
  | ok r =>
    have hfits : ¬Overshoots deadline log := by
      rcases hx with ⟨hfits, -⟩ | ⟨-, message, heq⟩
      · exact hfits
      · exact absurd heq (by simp)
    rw [Action.after_ok, Action.ensures_ite]
    split
    · exact (terminate_settles hfits hunsent).mono fun _ _ ↦ handled_settles
    · rw [Action.ensures_bind, Os.wait, Action.ensures_ask]
      rintro status _ rfl
      exact .inl (Happened.concat trivial)
  | error e =>
    rw [Action.after_error, Action.handled_error, Action.ensures_ite]
    rcases hx with ⟨hfits, hos⟩ | ⟨hover, message, heq⟩
    · rw [if_pos (hos e rfl)]
      exact terminate_settles hfits hunsent
    · obtain rfl := Except.error.inj heq
      rw [if_neg (by simp [Exc.isOsError])]
      exact .inr (.inr ⟨.inl hover, message, rfl⟩)

end

end Alicerce
