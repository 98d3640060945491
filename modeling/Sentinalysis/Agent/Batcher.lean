/-
# Sentinalysis.Agent.Batcher — the bounded buffer of Docker lines in the agent.

While the hub is unreachable lines pile up.  A line that finds the buffer full drives out the
oldest, and the buffer counts what it drops.
-/
import Sentinalysis.Hub.Proto
import Mathlib.Data.List.Basic

namespace Sentinalysis.Agent

/-- `PendingLine`: a log line awaiting forwarding. -/
structure PendingLine where
  timestampMs : ℤ
  container : String
  stream : String
  message : String
  deriving DecidableEq, Repr

/-- The line as it goes to the hub. -/
def PendingLine.toLogLine (line : PendingLine) : Hub.LogLine where
  timestampMs := line.timestampMs
  container := line.container
  stream := line.stream
  message := line.message

/-- `BoundedBatcher`: a queue that never holds more than `max` lines. -/
structure BoundedBatcher where
  buf : List PendingLine
  max : ℕ
  droppedSinceReport : ℕ
  totalDropped : ℕ
  max_pos : 1 ≤ max
  bounded : buf.length ≤ max
  deriving DecidableEq, Repr

namespace BoundedBatcher

def new (max : ℕ) : BoundedBatcher where
  buf := []
  max := Nat.max max 1
  droppedSinceReport := 0
  totalDropped := 0
  max_pos := Nat.le_max_right max 1
  bounded := Nat.zero_le _

/-- The loop at the start of `push`: what is left of the queue, and how many lines it dropped. -/
def makeRoom (max : ℕ) : List PendingLine → List PendingLine × ℕ
  | [] => ([], 0)
  | line :: buf =>
    if max ≤ (line :: buf).length then
      let (kept, dropped) := makeRoom max buf
      (kept, dropped + 1)
    else (line :: buf, 0)

/-- The lines dropped are the oldest. -/
theorem makeRoom_fst (max : ℕ) (buf : List PendingLine) :
    (makeRoom max buf).1 = buf.drop (makeRoom max buf).2 := by
  fun_induction makeRoom max buf with
  | case1 => rfl
  | case2 line buf _ kept dropped heq ih => simpa [heq] using ih
  | case3 line buf _ => rfl

theorem makeRoom_snd_le (max : ℕ) (buf : List PendingLine) :
    (makeRoom max buf).2 ≤ buf.length := by
  fun_induction makeRoom max buf with
  | case1 => exact Nat.le_refl 0
  | case2 line buf _ kept dropped heq ih => simpa [heq] using ih
  | case3 line buf _ => exact Nat.zero_le _

/-- A queue with room is left alone. -/
theorem makeRoom_of_lt {max : ℕ} {buf : List PendingLine} (h : buf.length < max) :
    makeRoom max buf = (buf, 0) := by
  cases buf with
  | nil => rfl
  | cons line buf => rw [makeRoom, if_neg (Nat.not_le.mpr h)]

/-- A full one loses its oldest line. -/
theorem makeRoom_of_full {max : ℕ} {line : PendingLine} {buf : List PendingLine}
    (h : (line :: buf).length = max) : makeRoom max (line :: buf) = (buf, 1) := by
  have hroom : buf.length < max := h ▸ Nat.lt_succ_self _
  rw [makeRoom, if_pos (Nat.le_of_eq h.symm), makeRoom_of_lt hroom]

/-- There is room for one more. -/
theorem makeRoom_length {max : ℕ} (hmax : 1 ≤ max) (buf : List PendingLine) :
    (makeRoom max buf).1.length + 1 ≤ max := by
  fun_induction makeRoom max buf with
  | case1 => simpa using hmax
  | case2 line buf _ kept dropped heq ih => simpa [heq] using ih
  | case3 line buf hlt => exact Nat.not_le.mp hlt

/-- `push`: drops the oldest when at capacity. -/
def push (batcher : BoundedBatcher) (line : PendingLine) : BoundedBatcher :=
  { batcher with
    buf := (makeRoom batcher.max batcher.buf).1 ++ [line]
    droppedSinceReport := batcher.droppedSinceReport + (makeRoom batcher.max batcher.buf).2
    totalDropped := batcher.totalDropped + (makeRoom batcher.max batcher.buf).2
    bounded := by
      rw [List.length_append]
      exact makeRoom_length batcher.max_pos batcher.buf }

/-- With room for it, the line waits behind the others. -/
theorem push_of_lt {batcher : BoundedBatcher} (h : batcher.buf.length < batcher.max)
    (line : PendingLine) :
    (batcher.push line).buf = batcher.buf ++ [line] ∧
      (batcher.push line).droppedSinceReport = batcher.droppedSinceReport ∧
      (batcher.push line).totalDropped = batcher.totalDropped := by
  simp [push, makeRoom_of_lt h]

/-- A full queue drops its oldest line, and counts it. -/
theorem push_of_full {batcher : BoundedBatcher} (h : ¬ batcher.buf.length < batcher.max)
    (line : PendingLine) : ∃ oldest rest,
    batcher.buf = oldest :: rest ∧
      (batcher.push line).buf = rest ++ [line] ∧
      (batcher.push line).droppedSinceReport = batcher.droppedSinceReport + 1 ∧
      (batcher.push line).totalDropped = batcher.totalDropped + 1 := by
  have hmax := batcher.max_pos
  have hfull : batcher.buf.length = batcher.max := Nat.le_antisymm batcher.bounded (Nat.not_lt.mp h)
  obtain ⟨oldest, rest, hbuf⟩ := List.exists_cons_of_length_pos (by omega : 0 < batcher.buf.length)
  have hmake : makeRoom batcher.max batcher.buf = (rest, 1) := by
    rw [hbuf] at hfull ⊢
    exact makeRoom_of_full hfull
  refine ⟨oldest, rest, hbuf, ?_⟩
  simp only [push, hmake, and_self]

/-- `drain`: up to `n` lines for a flush, and what is left. -/
def drain (batcher : BoundedBatcher) (n : ℕ) : List PendingLine × BoundedBatcher :=
  let n := Nat.min n batcher.buf.length
  (batcher.buf.take n,
    { batcher with
      buf := batcher.buf.drop n
      bounded := by
        rw [List.length_drop]
        exact Nat.le_trans (Nat.sub_le _ _) batcher.bounded })

def len (batcher : BoundedBatcher) : ℕ := batcher.buf.length

def isEmpty (batcher : BoundedBatcher) : Bool := batcher.buf.isEmpty

/-- `take_dropped`: the count of lines dropped since the last report. -/
def takeDropped (batcher : BoundedBatcher) : ℕ × BoundedBatcher :=
  (batcher.droppedSinceReport, { batcher with droppedSinceReport := 0 })

/-- Draining takes the oldest lines and loses none. -/
theorem drain_append (batcher : BoundedBatcher) (n : ℕ) :
    (batcher.drain n).1 ++ (batcher.drain n).2.buf = batcher.buf := List.take_append_drop _ _

theorem drain_fst (batcher : BoundedBatcher) (n : ℕ) :
    (batcher.drain n).1 = batcher.buf.take n := List.take_eq_take_min.symm

theorem buf_drain (batcher : BoundedBatcher) (n : ℕ) :
    (batcher.drain n).2.buf = batcher.buf.drop n := by
  have h := drain_append batcher n
  rw [drain_fst] at h
  exact List.append_cancel_left (h.trans (List.take_append_drop n batcher.buf).symm)

@[simp] theorem totalDropped_drain (batcher : BoundedBatcher) (n : ℕ) :
    (batcher.drain n).2.totalDropped = batcher.totalDropped := rfl

@[simp] theorem buf_takeDropped (batcher : BoundedBatcher) :
    batcher.takeDropped.2.buf = batcher.buf := rfl

@[simp] theorem totalDropped_takeDropped (batcher : BoundedBatcher) :
    batcher.takeDropped.2.totalDropped = batcher.totalDropped := rfl

end BoundedBatcher

end Sentinalysis.Agent
