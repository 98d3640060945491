/-
# Sentinalysis.Agent.BoundedQueue — the buffer of the agent is a bounded queue.

A line that was pushed is drained, dropped or still waiting.  The queue drops its oldest line when
another one finds it full, and never anything else.  The buffer does the same, and its counters
count what the queue drops.
-/
import Mathlib.Algebra.GroupWithZero.Nat
import Mathlib.Data.List.Infix
import Sentinalysis.Agent.Batcher
import Sentinalysis.Lib.Fifo
import Sentinalysis.Lib.Transition

namespace Sentinalysis.Agent.BoundedQueue

open Lib

/-- What becomes of a line that is not waiting any more. -/
inductive Fate
  | drained
  | dropped
  deriving DecidableEq, Repr

inductive Op
  | push (line : PendingLine)
  | drain (n : ℕ)
  | takeDropped
  deriving DecidableEq, Repr

/-- The lines that are pushed, in order. -/
def pushed (ops : List Op) : List PendingLine :=
  ops.filterMap fun
    | .push line => some line
    | _ => none

/-- A queue that holds no more than `cap` lines. -/
def queue (cap : ℕ) : Machine (Fifo PendingLine Fate) Op where
  step q
    | .push line =>
      let room := if q.waiting.length < cap then q else q.settle 1 .dropped
      some (room.push line)
    | .drain n => some (q.settle n .drained)
    | .takeDropped => some q

/-- The buffer, with the lines that `drain` returned so far and the counts that `take_dropped`
did. -/
structure State where
  batcher : BoundedBatcher
  drained : List PendingLine := []
  reported : List ℕ := []
  deriving DecidableEq, Repr

def start (max : ℕ) : State := { batcher := .new max }

def buffer : Machine State Op where
  step s
    | .push line => some { s with batcher := s.batcher.push line }
    | .drain n =>
      let (lines, batcher) := s.batcher.drain n
      some { s with batcher := batcher, drained := s.drained ++ lines }
    | .takeDropped =>
      let (count, batcher) := s.batcher.takeDropped
      some { s with batcher := batcher, reported := s.reported ++ [count] }

/-! ## The queue -/

/-- The queue remembers what was pushed. -/
theorem history_of_run {cap : ℕ} {ops : List Op} {q : Fifo PendingLine Fate}
    (hrun : (queue cap).Run {} ops q) : q.history = pushed ops := by
  refine hrun.invariant_history (I := fun ops q => q.history = pushed ops) rfl ?_
  intro ops q op q' h hstep
  have hpushed : pushed (ops ++ [op]) = pushed ops ++ pushed [op] := List.filterMap_append
  rw [hpushed, ← h]
  cases op with
  | push line =>
    obtain rfl := Option.some.inj hstep
    rw [Fifo.history_push]
    split
    · rfl
    · -- the line that makes room is settled, and stays in the history
      rw [Fifo.history_settle]
      rfl
  | drain n =>
    obtain rfl := Option.some.inj hstep
    rw [Fifo.history_settle]
    exact (List.append_nil _).symm
  | takeDropped =>
    obtain rfl := Option.some.inj hstep
    exact (List.append_nil _).symm

/-! ## The buffer refines it -/

/-- The queue that a buffer stands for. -/
structure Stands (cap : ℕ) (s : State) (q : Fifo PendingLine Fate) : Prop where
  max : s.batcher.max = cap
  waiting : q.waiting = s.batcher.buf
  drained : q.withFate .drained = s.drained
  dropped : (q.withFate .dropped).length = s.batcher.totalDropped
  reported : s.reported.sum + s.batcher.droppedSinceReport = s.batcher.totalDropped

variable {cap : ℕ} {s t : State} {q : Fifo PendingLine Fate}

theorem Stands.push (h : Stands cap s q) (line : PendingLine) : ∃ q',
    (queue cap).step q (.push line) = some q' ∧
      Stands cap { s with batcher := s.batcher.push line } q' := by
  refine ⟨_, rfl, ?_⟩
  have hcap := h.max
  by_cases hroom : s.batcher.buf.length < cap
  · obtain ⟨hbuf, hsince, htotal⟩ := BoundedBatcher.push_of_lt (hcap ▸ hroom) line
    rw [if_pos (h.waiting ▸ hroom)]
    refine ⟨hcap, ?_, h.drained, ?_, ?_⟩
    · rw [Fifo.push, hbuf, h.waiting]
    · rw [Fifo.withFate_push, htotal, h.dropped]
    · rw [hsince, htotal, h.reported]
  · -- the queue is full, and its oldest line makes room
    obtain ⟨oldest, rest, hold, hbuf, hsince, htotal⟩ :=
      BoundedBatcher.push_of_full (hcap ▸ hroom) line
    rw [if_neg (h.waiting ▸ hroom)]
    refine ⟨hcap, ?_, ?_, ?_, ?_⟩
    · rw [Fifo.push, Fifo.settle, hbuf, h.waiting, hold, List.drop_one, List.tail_cons]
    · rw [Fifo.withFate_push, Fifo.withFate_settle_of_ne _ _ (by decide), h.drained]
    · rw [Fifo.withFate_push, Fifo.withFate_settle_self, List.length_append, h.dropped, h.waiting,
        hold, htotal]
      rfl
    · rw [hsince, htotal, ← h.reported, Nat.add_assoc]

theorem Stands.drain (h : Stands cap s q) (n : ℕ) : ∃ q',
    (queue cap).step q (.drain n) = some q' ∧
      Stands cap
        { s with
          batcher := (s.batcher.drain n).2
          drained := s.drained ++ (s.batcher.drain n).1 } q' := by
  refine ⟨_, rfl, h.max, ?_, ?_, ?_, h.reported⟩
  · rw [Fifo.settle, h.waiting, BoundedBatcher.buf_drain]
  · rw [Fifo.withFate_settle_self, h.drained, h.waiting, BoundedBatcher.drain_fst]
  · rw [Fifo.withFate_settle_of_ne _ _ (by decide), h.dropped, BoundedBatcher.totalDropped_drain]

theorem Stands.takeDropped (h : Stands cap s q) : ∃ q',
    (queue cap).step q .takeDropped = some q' ∧
      Stands cap
        { s with
          batcher := s.batcher.takeDropped.2
          reported := s.reported ++ [s.batcher.takeDropped.1] } q' := by
  refine ⟨q, rfl, h.max, h.waiting, h.drained, h.dropped, ?_⟩
  rw [List.sum_append, List.sum_singleton]
  exact h.reported

/-- **The buffer refines the queue.** -/
theorem stands_of_run {max : ℕ} {ops : List Op} (hrun : buffer.Run (start max) ops s) :
    ∃ q, (queue (Nat.max max 1)).Run {} ops q ∧ Stands (Nat.max max 1) s q := by
  refine hrun.simulation ⟨rfl, rfl, rfl, rfl, rfl⟩ fun s op t q h hstep => ?_
  cases op with
  | push line =>
    obtain rfl := Option.some.inj hstep
    exact h.push line
  | drain n =>
    obtain rfl := Option.some.inj hstep
    exact h.drain n
  | takeDropped =>
    obtain rfl := Option.some.inj hstep
    exact h.takeDropped

/-! ## What becomes of a line -/

/-- The buffer gives up a line only in a `push` that finds it full or to `drain`, and then its
oldest ones. -/
structure KeepsTheRest (batcher : BoundedBatcher) : Prop where
  push_of_lt : batcher.buf.length < batcher.max → ∀ line,
    (batcher.push line).buf = batcher.buf ++ [line] ∧
      (batcher.push line).totalDropped = batcher.totalDropped
  push_of_full : batcher.buf.length = batcher.max → ∀ line, ∃ oldest rest,
    batcher.buf = oldest :: rest ∧ (batcher.push line).buf = rest ++ [line] ∧
      (batcher.push line).totalDropped = batcher.totalDropped + 1
  drain : ∀ n, (batcher.drain n).1 = batcher.buf.take n ∧
    (batcher.drain n).2.buf = batcher.buf.drop n ∧
      (batcher.drain n).2.totalDropped = batcher.totalDropped
  takeDropped : batcher.takeDropped.2.buf = batcher.buf ∧
    batcher.takeDropped.2.totalDropped = batcher.totalDropped

theorem keepsTheRest (batcher : BoundedBatcher) : KeepsTheRest batcher where
  push_of_lt h line := by
    obtain ⟨hbuf, -, htotal⟩ := BoundedBatcher.push_of_lt h line
    exact ⟨hbuf, htotal⟩
  push_of_full h line := by
    obtain ⟨oldest, rest, hold, hbuf, -, htotal⟩ :=
      BoundedBatcher.push_of_full h.not_lt line
    exact ⟨oldest, rest, hold, hbuf, htotal⟩
  drain n := ⟨batcher.drain_fst n, batcher.buf_drain n, batcher.totalDropped_drain n⟩
  takeDropped := ⟨batcher.buf_takeDropped, batcher.totalDropped_takeDropped⟩

/-- What a buffer of capacity `cap` has made of the lines that were pushed: `settled` are those that
left it, each with its fate. -/
structure Accounts (cap : ℕ) (lines : List PendingLine) (settled : List (PendingLine × Fate))
    (s : State) : Prop where
  every : lines = settled.map Prod.fst ++ s.batcher.buf
  length_le : s.batcher.buf.length ≤ cap
  drained : s.drained = (settled.filter fun entry => entry.2 = .drained).map Prod.fst
  dropped : s.batcher.totalDropped = (settled.filter fun entry => entry.2 = .dropped).length

theorem Accounts.suffix {lines : List PendingLine} {settled : List (PendingLine × Fate)}
    (h : Accounts cap lines settled s) : s.batcher.buf <:+ lines := by
  rw [h.every]
  exact List.suffix_append _ _

theorem Accounts.sublist {lines : List PendingLine} {settled : List (PendingLine × Fate)}
    (h : Accounts cap lines settled s) : s.drained.Sublist lines := by
  rw [h.every, h.drained]
  exact (List.filter_sublist.map Prod.fst).trans (List.sublist_append_left _ _)

theorem accounts_of_stands {ops : List Op} (hrun : (queue cap).Run {} ops q) (h : Stands cap s q) :
    Accounts cap (pushed ops) q.settled s where
  every := by rw [← history_of_run hrun, ← h.waiting]; rfl
  length_le := h.max ▸ s.batcher.bounded
  drained := h.drained.symm
  dropped := by rw [← h.dropped, Fifo.withFate, List.length_map]

/-- **The buffer of the agent is a bounded queue.**  Whatever is pushed, drained and reported in
whatever order, every line pushed is drained, dropped or still buffered, and only once; the buffer
is what was pushed last, and what is drained keeps its order.  The total is what was reported and
what the next report will add. -/
theorem boundedBatcher_accounts {max : ℕ} {ops : List Op}
    (hrun : buffer.Run (start max) ops s) :
    (∃ settled, Accounts (Nat.max max 1) (pushed ops) settled s) ∧
      s.batcher.buf <:+ pushed ops ∧
      s.batcher.buf.length ≤ Nat.max max 1 ∧
      s.drained.Sublist (pushed ops) ∧
      KeepsTheRest s.batcher ∧
      s.batcher.totalDropped = s.reported.sum + s.batcher.takeDropped.1 := by
  obtain ⟨q, hqueue, hstands⟩ := stands_of_run hrun
  have haccounts := accounts_of_stands hqueue hstands
  exact ⟨⟨q.settled, haccounts⟩, haccounts.suffix, haccounts.length_le, haccounts.sublist,
    keepsTheRest s.batcher, hstands.reported.symm⟩

private def sample (timestampMs : ℤ) : PendingLine :=
  { timestampMs, container := "app", stream := "stdout", message := "" }

/-- Three lines in a buffer of two: the first is dropped, the second drained, the third waits. -/
theorem boundedBatcher_accounts_overflow :
    ∃ s, buffer.Run (start 2)
        [.push (sample 1), .push (sample 2), .push (sample 3), .drain 1, .takeDropped] s ∧
      (∃ settled, Accounts 2 [sample 1, sample 2, sample 3] settled s) ∧
      s.batcher.buf = [sample 3] ∧ s.drained = [sample 2] ∧ s.reported = [1] := by
  have hexec : (buffer.exec (start 2)
      [.push (sample 1), .push (sample 2), .push (sample 3), .drain 1, .takeDropped]).any
        (fun s => s.batcher.buf = [sample 3] ∧ s.drained = [sample 2] ∧ s.reported = [1]) = true := by
    decide
  obtain ⟨s, hrun, hend⟩ := Machine.exists_run_any hexec
  exact ⟨s, hrun, (boundedBatcher_accounts hrun).1, of_decide_eq_true hend⟩

end Sentinalysis.Agent.BoundedQueue
