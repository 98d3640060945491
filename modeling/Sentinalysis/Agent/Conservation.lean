/-
# Sentinalysis.Agent.Conservation — what becomes of the Docker lines.

A line pushed into the buffer waits there until it is driven out or drained into a request, and the
request is acknowledged or fails.  Seen as a queue with fates (`Lib.Fifo`), the loop only ever
pushes one line or settles the oldest (`Tracks`).  Whether the lines are all accounted for is then a
matter of counting: those of failed requests are in none of the loop's own books.
-/
import Sentinalysis.Agent.Loop
import Sentinalysis.Lib.Fifo

namespace Sentinalysis.Agent

open Lib

namespace Loop

/-- What becomes of a line that is not waiting any more. -/
inductive Fate
  | acknowledged
  | dropped
  | failed
  deriving DecidableEq, Repr

instance : Fintype Fate where
  elems := {.acknowledged, .dropped, .failed}
  complete := by
    intro fate
    cases fate <;> decide

/-- The lines of the requests that were answered `Ok`, in order. -/
def State.acknowledgedLines (s : State) : List Hub.LogLine := s.acknowledged.flatMap (·.lines)

/-- The lines of the requests that failed or were cut off. -/
def State.failedLines (s : State) : List Hub.LogLine := s.failed.flatMap (·.lines)

/-- No flush is under way. -/
def State.Resting (s : State) : Prop :=
  (∀ lines, s.phase ≠ .sendingLogs lines) ∧ ∀ lines, s.phase ≠ .stopping lines

/-- Between two branches, and after the last, nothing is under way. -/
theorem State.resting_of_phase {s : State} (h : s.phase = .selecting ∨ s.phase = .returned) :
    s.Resting := by
  constructor
  · intro lines hphase
    rw [hphase] at h
    simp at h
  · intro lines hphase
    rw [hphase] at h
    simp at h

/-- Every line pushed is in one of three places: in a request that was answered `Ok`, in the buffer,
or counted as dropped; and what was acknowledged keeps the push order. -/
structure Accounted (s : State) : Prop where
  count : s.pushed.length
    = s.acknowledgedLines.length + s.batcher.len + s.batcher.totalDropped
  places : ∃ dropped : List PendingLine, dropped.length = s.batcher.totalDropped ∧
    (s.acknowledgedLines ++ (dropped ++ s.batcher.buf).map PendingLine.toLogLine).Perm
      (s.pushed.map PendingLine.toLogLine)
  order : s.acknowledgedLines.Sublist (s.pushed.map PendingLine.toLogLine)

/-! ## The loop as a queue -/

/-- The queue that a state of the loop stands for. -/
structure Tracks (s : State) (q : Fifo PendingLine Fate) : Prop where
  history : q.history = s.pushed
  waiting : q.waiting = s.phase.inFlight ++ s.batcher.buf
  acknowledged : (q.withFate .acknowledged).map PendingLine.toLogLine = s.acknowledgedLines
  failed : (q.withFate .failed).map PendingLine.toLogLine = s.failedLines
  dropped : (q.withFate .dropped).length = s.batcher.totalDropped

section Steps

variable {logBatchSize : ℕ} {s t : State} {q : Fifo PendingLine Fate}

/-- A flush moves waiting lines into a request; they are still waiting. -/
theorem Tracks.flush (h : Tracks s q) (hphase : s.phase = .selecting) (n : ℕ) (final : Bool) :
    Tracks (flush s n final) q := by
  have hwaiting := h.waiting
  rw [hphase] at hwaiting
  rcases flush_cases s n final with ⟨hempty, heq⟩ | ⟨-, heq⟩
  · rw [heq]
    cases final with
    | false => exact h
    | true => exact ⟨h.history, hwaiting, h.acknowledged, h.failed, h.dropped⟩
  · rw [heq]
    refine ⟨h.history, ?_, h.acknowledged, h.failed, h.dropped⟩
    rw [hwaiting, ← s.batcher.drain_append n]
    cases final <;> rfl

/-- A line is pushed after the oldest have made room for it. -/
theorem Tracks.receive (h : Tracks s q) (hphase : s.phase = .selecting) (line : DockerLogLine)
    (channel : List DockerLogLine) :
    ∃ q', Tracks (receive logBatchSize s line channel) q' := by
  have hwaiting : q.waiting = s.batcher.buf := by
    rw [h.waiting, hphase]
    rfl
  let evicted := (BoundedBatcher.makeRoom s.batcher.max s.batcher.buf).2
  let q' := (q.settle evicted .dropped).push line.toPending
  have hpushed : Tracks (enqueue s line channel) q' := by
    refine ⟨?_, ?_, ?_, ?_, ?_⟩
    · rw [Fifo.history_push, Fifo.history_settle, h.history]
      rfl
    · show q.waiting.drop evicted ++ [line.toPending] = s.phase.inFlight ++ _
      rw [hwaiting, hphase, ← BoundedBatcher.makeRoom_fst]
      rfl
    · rw [Fifo.withFate_push, Fifo.withFate_settle_of_ne _ _ (by decide), h.acknowledged]
      rfl
    · rw [Fifo.withFate_push, Fifo.withFate_settle_of_ne _ _ (by decide), h.failed]
      rfl
    · have hle := BoundedBatcher.makeRoom_snd_le s.batcher.max s.batcher.buf
      rw [Fifo.withFate_push, Fifo.withFate_settle_self, List.length_append, List.length_take,
        hwaiting, Nat.min_eq_left hle, h.dropped]
      rfl
  refine ⟨q', ?_⟩
  unfold Loop.receive
  split
  · exact hpushed.flush hphase logBatchSize false
  · exact hpushed

/-- The lines of a request are settled by its answer. -/
theorem Tracks.finish (h : Tracks s q) {lines : List PendingLine}
    (hlines : s.phase.inFlight = lines) (ok : Bool) {phase : Phase}
    (hafter : phase = .selecting ∨ phase = .returned) :
    ∃ q', Tracks (finish s lines ok phase) q' := by
  have hwaiting : q.waiting = lines ++ s.batcher.buf := by rw [h.waiting, hlines]
  have hidle : phase.inFlight = [] := by rcases hafter with rfl | rfl <;> rfl
  have htake : q.waiting.take lines.length = lines := by rw [hwaiting, List.take_left]
  have hdrop : q.waiting.drop lines.length = phase.inFlight ++ s.batcher.buf := by
    rw [hwaiting, List.drop_left, hidle, List.nil_append]
  cases ok with
  | true =>
    refine ⟨q.settle lines.length .acknowledged, ?_, hdrop, ?_, ?_, ?_⟩
    · rw [Fifo.history_settle, h.history]
      rfl
    · rw [Fifo.withFate_settle_self, htake, List.map_append, h.acknowledged]
      simp [State.acknowledgedLines, Loop.finish, dockerRequest]
    · rw [Fifo.withFate_settle_of_ne _ _ (by decide), h.failed]
      rfl
    · rw [Fifo.withFate_settle_of_ne _ _ (by decide), h.dropped]
      rfl
  | false =>
    refine ⟨q.settle lines.length .failed, ?_, hdrop, ?_, ?_, ?_⟩
    · rw [Fifo.history_settle, h.history]
      rfl
    · rw [Fifo.withFate_settle_of_ne _ _ (by decide), h.acknowledged]
      rfl
    · rw [Fifo.withFate_settle_self, htake, List.map_append, h.failed]
      simp [State.failedLines, Loop.finish, dockerRequest]
    · rw [Fifo.withFate_settle_of_ne _ _ (by decide), h.dropped]
      rfl

/-- **The loop refines the queue**: after every step there is a queue that the state stands for. -/
theorem Tracks.step {a : Label} (h : Tracks s q) (hstep : (run logBatchSize).step s a = some t) :
    ∃ q', Tracks t q' := by
  cases effect_of_step hstep with
  | quiet channel closed cancelled phase hbefore =>
    exact ⟨q, h.history, hbefore ▸ h.waiting, h.acknowledged, h.failed, h.dropped⟩
  | receive line channel hphase hchannel => exact h.receive hphase line channel
  | flush n final hphase => exact ⟨q, h.flush hphase n final⟩
  | finish lines ok phase hlines hafter hlabel => exact h.finish hlines ok hafter

/-- Every state of a run stands for some queue. -/
theorem exists_tracks {logBufferMax : ℕ} {labels : List Label}
    (hrun : (run logBatchSize).Run (start logBufferMax) labels t) : ∃ q, Tracks t q := by
  have hstart : Tracks (start logBufferMax) {} := ⟨rfl, rfl, rfl, rfl, rfl⟩
  exact hrun.invariant (I := fun t => ∃ q, Tracks t q) ⟨_, hstart⟩
    fun _ _ _ ⟨_, h⟩ hstep => h.step hstep

/-- When all is at rest, the lines are accounted for exactly when none was in a failed request. -/
theorem Tracks.resting_accounted_iff (h : Tracks s q) (hrest : s.Resting) :
    Accounted s ↔ s.failedLines = [] := by
  have hidle : s.phase.inFlight = [] := by
    cases hphase : s.phase with
    | sendingLogs lines => exact absurd hphase (hrest.1 lines)
    | stopping lines => exact absurd hphase (hrest.2 lines)
    | _ => rfl
  have hwaiting : q.waiting = s.batcher.buf := by rw [h.waiting, hidle, List.nil_append]
  have hack : s.acknowledgedLines.length = (q.withFate .acknowledged).length := by
    rw [← h.acknowledged, List.length_map]
  have hfailed : s.failedLines.length = (q.withFate .failed).length := by
    rw [← h.failed, List.length_map]
  have htotal : s.pushed.length = s.acknowledgedLines.length + s.batcher.totalDropped
      + s.failedLines.length + s.batcher.len := by
    have hsum := q.length_history
    have hfates : (∑ fate, (q.withFate fate).length) = (q.withFate .acknowledged).length
        + ((q.withFate .dropped).length + (q.withFate .failed).length) := rfl
    rw [h.history, hfates, hwaiting, h.dropped] at hsum
    rw [hsum, hack, hfailed, BoundedBatcher.len]
    omega
  constructor
  · intro haccounted
    have hcount := haccounted.count
    exact List.length_eq_zero_iff.mp (by omega)
  · intro hnone
    have hcount : s.failedLines.length = 0 := by rw [hnone]; rfl
    have hmet : ∀ entry ∈ q.settled, entry.2 = .acknowledged ∨ entry.2 = .dropped := by
      have hfailed : q.withFate .failed = [] := List.map_eq_nil_iff.mp (h.failed.trans hnone)
      intro entry hentry
      have hne := q.withFate_eq_nil_iff.mp hfailed entry hentry
      cases hfate : entry.2 with
      | acknowledged => exact Or.inl rfl
      | dropped => exact Or.inr rfl
      | failed => exact absurd hfate hne
    have hperm := (q.perm_history (by decide) hmet).map PendingLine.toLogLine
    rw [h.history, hwaiting, List.append_assoc, List.map_append, h.acknowledged] at hperm
    refine ⟨by omega, ⟨q.withFate .dropped, h.dropped, hperm⟩, ?_⟩
    rw [← h.acknowledged, ← h.history]
    exact (q.withFate_sublist_history .acknowledged).map _

/-- A request that fails, or is cut off by the deadline, carries no line. -/
def FailsEmpty (s : State) (a : Label) : Prop :=
  a = .logsSent false ∨ a = .deadline → s.phase.inFlight = []

instance (s : State) (a : Label) : Decidable (FailsEmpty s a) :=
  inferInstanceAs (Decidable (_ → _))

/-- Such a step leaves the lines of failed requests as they were. -/
theorem failedLines_of_step {a : Label} (hempty : FailsEmpty s a)
    (hstep : (run logBatchSize).step s a = some t) : t.failedLines = s.failedLines := by
  have hflush : ∀ (s : State) (n : ℕ) (final : Bool),
      (Loop.flush s n final).failedLines = s.failedLines := by
    intro s n final
    rcases flush_cases s n final with ⟨-, heq⟩ | ⟨-, heq⟩
    · rw [heq]
      cases final <;> rfl
    · rw [heq]
      rfl
  cases effect_of_step hstep with
  | quiet channel closed cancelled phase hbefore => rfl
  | receive line channel hphase hchannel =>
    unfold Loop.receive
    split
    · rw [hflush]
      rfl
    · rfl
  | flush n final hphase => exact hflush s n final
  | finish lines ok phase hlines hafter hlabel =>
    cases ok with
    | true => rfl
    | false =>
      have hlines : lines = [] := by
        rw [← hlines]
        rcases hlabel with rfl | ⟨-, rfl⟩
        · exact hempty (Or.inl rfl)
        · exact hempty (Or.inr rfl)
      rw [hlines]
      simp [State.failedLines, Loop.finish, dockerRequest]

/-- A step that ends a request without success ends in rest, and its lines join the failed ones. -/
theorem failedLines_of_failure {a : Label} (ha : a = .logsSent false ∨ a = .deadline)
    (hstep : (run logBatchSize).step s a = some t) :
    t.Resting ∧ t.failedLines = s.failedLines ++ s.phase.inFlight.map PendingLine.toLogLine := by
  obtain ⟨phase, hafter, rfl⟩ := finish_of_failure ha hstep
  refine ⟨State.resting_of_phase hafter, ?_⟩
  simp [State.failedLines, Loop.finish, dockerRequest]

/-- **Conservation.**  In a run, the lines are accounted for in every state at rest exactly when no
request that fails, or is cut off by the deadline, carries a line. -/
theorem accounted_iff (logBatchSize logBufferMax : ℕ) {labels : List Label} {t : State}
    (hrun : (run logBatchSize).Run (start logBufferMax) labels t) :
    (run logBatchSize).Always (fun s => s.Resting → Accounted s) (start logBufferMax) labels ↔
      (run logBatchSize).Along FailsEmpty (start logBufferMax) labels := by
  apply hrun.always_iff_along
  · intro labels s hreached halong hrest
    have hnone : s.failedLines = [] :=
      hreached.invariant_along (I := fun _ t => t.failedLines = []) halong rfl
        fun _ _ _ _ h hempty hstep => (failedLines_of_step hempty hstep).trans h
    obtain ⟨q, hq⟩ := exists_tracks hreached
    exact (hq.resting_accounted_iff hrest).mpr hnone
  · intro labels s a t hbefore hstep haccounted ha
    obtain ⟨hrest, hfailed⟩ := failedLines_of_failure ha hstep
    obtain ⟨q, hq⟩ := exists_tracks (hbefore.snoc hstep)
    have hnone := (hq.resting_accounted_iff hrest).mp (haccounted hrest)
    rw [hfailed] at hnone
    exact List.map_eq_nil_iff.mp (List.append_eq_nil_iff.mp hnone).2

end Steps

/-! ## One line -/

def dockerLine : DockerLogLine where
  timestampMs := 0
  container := "app"
  stream := "stdout"
  message := "ready"

/-- The line is acknowledged before the loop stops. -/
def deliveredThenStop : List Label :=
  [.arrive dockerLine, .recv, .flushTick, .logsSent true, .cancel, .cancelled]

theorem accounted_deliveredThenStop : ∃ t, (run 100).Run (start 10000) deliveredThenStop t ∧
    t.phase = .returned ∧ Accounted t := by
  have hexec : ((run 100).exec (start 10000) deliveredThenStop).any (·.phase = .returned)
      = true := by
    decide
  obtain ⟨t, hrun, hphase⟩ := Machine.exists_run_any hexec
  have hphase := of_decide_eq_true hphase
  refine ⟨t, hrun, hphase, ?_⟩
  exact ((accounted_iff 100 10000 hrun).mpr (by decide)).last hrun
    (State.resting_of_phase (Or.inr hphase))

/-- The hub does not take the line: it was pushed, and is in none of the three places. -/
theorem line_not_accounted : ∃ t, (run 100).Run (start 10000)
      [.arrive dockerLine, .recv, .flushTick, .logsSent false] t ∧
    t.Resting ∧ t.pushed.length = 1 ∧ t.acknowledged = [] ∧ t.batcher.len = 0 ∧
    t.batcher.totalDropped = 0 ∧ ¬ Accounted t := by
  have hexec : ((run 100).exec (start 10000)
      [.arrive dockerLine, .recv, .flushTick, .logsSent false]).any (fun t =>
        t.phase = .selecting ∧ t.pushed.length = 1 ∧ t.acknowledged = [] ∧ t.batcher.len = 0 ∧
          t.batcher.totalDropped = 0) = true := by
    decide
  obtain ⟨t, hrun, hfacts⟩ := Machine.exists_run_any hexec
  obtain ⟨hphase, hpushed, hack, hlen, hdropped⟩ := of_decide_eq_true hfacts
  refine ⟨t, hrun, State.resting_of_phase (Or.inl hphase), hpushed, hack, hlen,
    hdropped, ?_⟩
  intro haccounted
  have hcount := haccounted.count
  rw [hpushed, State.acknowledgedLines, hack, hlen, hdropped] at hcount
  exact absurd hcount (by decide)

end Loop

end Sentinalysis.Agent
