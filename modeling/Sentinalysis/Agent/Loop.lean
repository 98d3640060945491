/-
# Sentinalysis.Agent.Loop — the agent's main loop.

The loop waits for the cancel token, two timers and the channel of Docker lines, in no fixed order.
It answers one of them at a time: while a call to the hub is under way, or while a branch waits for
something else, the others wait too.  The outcome of a call is the environment's, and so is the
moment at which the senders of the channel go away.

What became of the lines is recorded as the hub answers: the lines pushed into the buffer, the
requests it answered `Ok` to, and those that failed or ran into the deadline of the last flush.
-/
import Mathlib.Algebra.Group.Nat.Defs
import Sentinalysis.Agent.Batcher
import Sentinalysis.Lib.Transition

namespace Sentinalysis.Agent

open Lib

/-- `DockerLogLine`. -/
structure DockerLogLine where
  timestampMs : ℤ
  container : String
  stream : String
  message : String
  deriving DecidableEq, Repr

/-- The line as it is buffered. -/
def DockerLogLine.toPending (line : DockerLogLine) : PendingLine where
  timestampMs := line.timestampMs
  container := line.container
  stream := line.stream
  message := line.message

/-- `usize::MAX`. -/
def usizeMax : ℕ := 2 ^ 64 - 1

/-- The request that carries drained lines. -/
def dockerRequest (lines : List PendingLine) : Hub.LogsRequest where
  lines := lines.map PendingLine.toLogLine
  parsedLines := []

namespace Loop

/-- Where `run` is: in `select!`, in a call to the hub, in the last flush, waiting for nothing, or
done. -/
inductive Phase
  | selecting
  | sendingMetrics
  | sendingLogs (lines : List PendingLine)
  | stopping (lines : List PendingLine)
  | pending
  | returned
  deriving DecidableEq, Repr

/-- The loop, its channel and its token, and what the outside has seen. -/
structure State where
  channel : List DockerLogLine := []
  closed : Bool := false
  cancelled : Bool := false
  batcher : BoundedBatcher
  phase : Phase := .selecting
  pushed : List PendingLine := []
  acknowledged : List Hub.LogsRequest := []
  failed : List Hub.LogsRequest := []
  deriving DecidableEq, Repr

/-- What can happen: a line arrives, the senders go away, the token fires, `select!` takes a branch,
the hub answers, or the deadline of the last flush passes. -/
inductive Label
  | arrive (line : DockerLogLine)
  | close
  | cancel
  | cancelled
  | metricsTick
  | flushTick
  | recv
  | metricsSent (ok : Bool)
  | logsSent (ok : Bool)
  | deadline
  deriving DecidableEq, Repr

/-- `flush` up to its call, in the loop or in `shutdown`: an empty buffer is not flushed. -/
def flush (s : State) (n : ℕ) (final : Bool) : State :=
  if s.batcher.isEmpty then
    if final then { s with batcher := s.batcher.takeDropped.2, phase := .returned } else s
  else
    { s with
      batcher := (s.batcher.drain n).2
      phase :=
        if final then .stopping (s.batcher.drain n).1 else .sendingLogs (s.batcher.drain n).1 }

/-- What follows the answer to a request, or the deadline: the drop counter is reset, and the
request is done with. -/
def finish (s : State) (lines : List PendingLine) (ok : Bool) (phase : Phase) : State :=
  { s with
    batcher := s.batcher.takeDropped.2
    phase := phase
    acknowledged := if ok then s.acknowledged ++ [dockerRequest lines] else s.acknowledged
    failed := if ok then s.failed else s.failed ++ [dockerRequest lines] }

/-- A line goes from the channel to the buffer. -/
def enqueue (s : State) (line : DockerLogLine) (channel : List DockerLogLine) : State :=
  { s with
    channel := channel
    batcher := s.batcher.push line.toPending
    pushed := s.pushed ++ [line.toPending] }

/-- The channel branch, with a line: a buffer that has reached the batch size is flushed. -/
def receive (logBatchSize : ℕ) (s : State) (line : DockerLogLine) (channel : List DockerLogLine) :
    State :=
  if logBatchSize ≤ (enqueue s line channel).batcher.len then
    flush (enqueue s line channel) logBatchSize false
  else enqueue s line channel

/-- `agent::run` from the first turn of its loop. -/
def run (logBatchSize : ℕ) : Machine State Label where
  step s
    | .arrive line => if s.closed then none else some { s with channel := s.channel ++ [line] }
    | .close => some { s with closed := true }
    | .cancel => some { s with cancelled := true }
    | .cancelled =>
      if s.phase = .selecting ∧ s.cancelled = true then some (flush s usizeMax true) else none
    | .metricsTick =>
      if s.phase = .selecting then some { s with phase := .sendingMetrics } else none
    | .flushTick => if s.phase = .selecting then some (flush s logBatchSize false) else none
    | .recv =>
      if s.phase = .selecting then
        match s.channel with
        | line :: channel => some (receive logBatchSize s line channel)
        -- no more senders: the branch itself waits, for something that never comes
        | [] => if s.closed then some { s with phase := .pending } else none
      else none
    | .metricsSent _ =>
      if s.phase = .sendingMetrics then some { s with phase := .selecting } else none
    | .logsSent ok => match s.phase with
      | .sendingLogs lines => some (finish s lines ok .selecting)
      | .stopping lines => some (finish s lines ok .returned)
      | _ => none
    | .deadline => match s.phase with
      | .stopping lines => some (finish s lines false .returned)
      | _ => none

/-- Where the loop starts. -/
def start (logBufferMax : ℕ) : State where
  batcher := BoundedBatcher.new logBufferMax

/-- The lines in the call under way. -/
def Phase.inFlight : Phase → List PendingLine
  | .sendingLogs lines => lines
  | .stopping lines => lines
  | _ => []

/-! ## What one step does -/

section Steps

variable {logBatchSize : ℕ} {s t : State}

/-- A flush ends at once or makes a request of the oldest lines. -/
theorem flush_cases (s : State) (n : ℕ) (final : Bool) :
    (s.batcher.buf = [] ∧ flush s n final
      = if final then { s with batcher := s.batcher.takeDropped.2, phase := .returned } else s) ∨
    (s.batcher.buf ≠ [] ∧ flush s n final
      = { s with
          batcher := (s.batcher.drain n).2
          phase := if final then .stopping (s.batcher.drain n).1
            else .sendingLogs (s.batcher.drain n).1 }) := by
  by_cases h : s.batcher.buf = []
  · exact Or.inl ⟨h, by simp [flush, BoundedBatcher.isEmpty, h]⟩
  · exact Or.inr ⟨h, by simp [flush, BoundedBatcher.isEmpty, h]⟩

/-- A failure, or the deadline, ends the request under way. -/
theorem finish_of_failure {a : Label} (ha : a = .logsSent false ∨ a = .deadline)
    (h : (run logBatchSize).step s a = some t) :
    ∃ phase, (phase = .selecting ∨ phase = .returned) ∧ t = finish s s.phase.inFlight false phase := by
  rcases ha with rfl | rfl
  · simp only [run] at h
    split at h
    · rename_i lines hphase
      exact ⟨.selecting, Or.inl rfl, by rw [hphase]; exact (Option.some.inj h).symm⟩
    · rename_i lines hphase
      exact ⟨.returned, Or.inr rfl, by rw [hphase]; exact (Option.some.inj h).symm⟩
    · exact absurd h (by simp)
  · simp only [run] at h
    split at h
    · rename_i lines hphase
      exact ⟨.returned, Or.inr rfl, by rw [hphase]; exact (Option.some.inj h).symm⟩
    · exact absurd h (by simp)

/-- What a step can do to the lines: nothing, push one, drain some for a request, or learn what
became of a request. -/
inductive Effect (logBatchSize : ℕ) (s : State) : Label → State → Prop
  | quiet {a : Label} (channel closed cancelled) (phase : Phase)
      (hbefore : s.phase.inFlight = phase.inFlight) :
      Effect logBatchSize s a
        { s with channel := channel, closed := closed, cancelled := cancelled, phase := phase }
  | receive (line : DockerLogLine) (channel : List DockerLogLine) (hphase : s.phase = .selecting)
      (hchannel : s.channel = line :: channel) :
      Effect logBatchSize s .recv (receive logBatchSize s line channel)
  | flush {a : Label} (n : ℕ) (final : Bool) (hphase : s.phase = .selecting) :
      Effect logBatchSize s a (flush s n final)
  | finish {a : Label} (lines : List PendingLine) (ok : Bool) (phase : Phase)
      (hlines : s.phase.inFlight = lines) (hafter : phase = .selecting ∨ phase = .returned)
      (hlabel : a = .logsSent ok ∨ (ok = false ∧ a = .deadline)) :
      Effect logBatchSize s a (finish s lines ok phase)

/-- Every step is one of these. -/
theorem effect_of_step {a : Label} (h : (run logBatchSize).step s a = some t) :
    Effect logBatchSize s a t := by
  cases a with
  | arrive line =>
    simp only [run, Option.ite_none_left_eq_some] at h
    exact Option.some.inj h.2 ▸ Effect.quiet _ s.closed s.cancelled s.phase rfl
  | close => exact Option.some.inj h ▸ Effect.quiet s.channel true s.cancelled s.phase rfl
  | cancel => exact Option.some.inj h ▸ Effect.quiet s.channel s.closed true s.phase rfl
  | cancelled =>
    simp only [run, Option.ite_none_right_eq_some] at h
    exact Option.some.inj h.2 ▸ Effect.flush usizeMax true h.1.1
  | metricsTick =>
    simp only [run, Option.ite_none_right_eq_some] at h
    exact Option.some.inj h.2 ▸
      Effect.quiet s.channel s.closed s.cancelled .sendingMetrics (by rw [h.1]; rfl)
  | flushTick =>
    simp only [run, Option.ite_none_right_eq_some] at h
    exact Option.some.inj h.2 ▸ Effect.flush logBatchSize false h.1
  | recv =>
    simp only [run, Option.ite_none_right_eq_some] at h
    obtain ⟨hphase, h⟩ := h
    split at h
    · rename_i line channel hchannel
      exact Option.some.inj h ▸ Effect.receive line channel hphase hchannel
    · simp only [Option.ite_none_right_eq_some] at h
      exact Option.some.inj h.2 ▸
        Effect.quiet s.channel s.closed s.cancelled .pending (by rw [hphase]; rfl)
  | metricsSent ok =>
    simp only [run, Option.ite_none_right_eq_some] at h
    exact Option.some.inj h.2 ▸
      Effect.quiet s.channel s.closed s.cancelled .selecting (by rw [h.1]; rfl)
  | logsSent ok =>
    simp only [run] at h
    split at h
    · rename_i lines hphase
      exact Option.some.inj h ▸ Effect.finish lines ok .selecting (by rw [hphase]; rfl)
        (Or.inl rfl) (Or.inl rfl)
    · rename_i lines hphase
      exact Option.some.inj h ▸ Effect.finish lines ok .returned (by rw [hphase]; rfl)
        (Or.inr rfl) (Or.inl rfl)
    · exact absurd h (by simp)
  | deadline =>
    simp only [run] at h
    split at h
    · rename_i lines hphase
      exact Option.some.inj h ▸ Effect.finish lines false .returned (by rw [hphase]; rfl)
        (Or.inr rfl) (Or.inr ⟨rfl, rfl⟩)
    · exact absurd h (by simp)

end Steps

end Loop

end Sentinalysis.Agent
