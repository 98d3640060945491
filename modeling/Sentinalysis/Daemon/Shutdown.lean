/-
# Sentinalysis.Daemon.Shutdown — the end of the daemon.

`run_daemon` spawns the daemon's loop as a task and then waits for a signal or for the task.  When
the task comes to its end, so does `run_daemon`.  On a signal the token is cancelled, the PID file
is removed, and `run_daemon` returns; the task is told to stop, and nobody waits for it.  What has
not finished when `run_daemon` returns is dropped with the runtime.
-/
import Sentinalysis.LogScanner.Scanner

namespace Sentinalysis.Daemon

open Lib Db LogScanner

namespace Shutdown

variable {η ρ : Type}

/-- Where `run_daemon` is: in `select!`, past one of its branches, or done. -/
inductive Main
  | selecting
  | signalled
  | joined
  | returned (signalled : Bool)
  deriving DecidableEq, Repr

/-- The task: before its scanner runs, with its scanner, or ended without one. -/
inductive Task
  | starting
  | scanning
  | failed
  deriving DecidableEq, Repr

/-- `run_daemon` and its task. -/
structure State (η ρ : Type) where
  main : Main := .selecting
  task : Task := .starting
  scanner : Scanner.State η ρ

/-- What can happen: a branch of `select!`, what follows it, the start of the task, or a step of its
scanner. The scanner starts with the lines that the tailer has sent by then. -/
inductive Label (η : Type)
  | signal
  | join
  | cleanUp
  | scan (queue : List TailEvent)
  | fail
  | scanner (a : Scanner.Label η)

/-- The task has come to its end: it could not be started, or `Scanner::run` has returned. -/
def State.Done (s : State η ρ) : Prop := s.task = .failed ∨ s.scanner.phase = .returned

instance (s : State η ρ) : Decidable s.Done := inferInstanceAs (Decidable (_ ∨ _))

/-- The runtime lives until `run_daemon` returns. -/
def State.Alive (s : State η ρ) : Prop := ∀ signalled, s.main ≠ .returned signalled

instance (s : State η ρ) : Decidable s.Alive :=
  match h : s.main with
  | .returned signalled => .isFalse fun halive => halive signalled h
  | .selecting | .signalled | .joined => .isTrue fun signalled heq => by rw [h] at heq; cases heq

variable (crates : Externals) (p : Pipeline η ρ)

/-- The scanner of the daemon. -/
def scanner : Machine (Scanner.State η ρ) (Scanner.Label η) :=
  Scanner.run crates p ⟨batchSizeDefault, true⟩

/-- `run_daemon`, from the spawn of its task on. -/
def runDaemon : Machine (State η ρ) (Label η) where
  step s
    | .signal =>
      if s.main = .selecting then
        some { s with main := .signalled, scanner := { s.scanner with cancelled := true } }
      else none
    | .join => if s.main = .selecting ∧ s.Done then some { s with main := .joined } else none
    | .cleanUp => match s.main with
      | .signalled => some { s with main := .returned true }
      | .joined => some { s with main := .returned false }
      | _ => none
    | .scan queue =>
      if s.Alive ∧ s.task = .starting then
        some { s with task := .scanning, scanner := { s.scanner with queue := queue } }
      else none
    | .fail => if s.Alive ∧ s.task = .starting then some { s with task := .failed } else none
    -- the token is `run_daemon`'s own
    | .scanner .cancel => none
    | .scanner a =>
      if s.Alive ∧ s.task = .scanning then
        ((scanner crates p).step s.scanner a).map fun scanner => { s with scanner := scanner }
      else none

/-- After a signal, `run_daemon` has returned only if the task has. -/
def AwaitsFlush (s : State η ρ) : Prop := s.main = .returned true → s.Done

instance (s : State η ρ) : Decidable (AwaitsFlush s) := inferInstanceAs (Decidable (_ → _))

/-- `run_daemon` goes on from the signal when the task has come to its end. -/
def TaskEndsFirst (s : State η ρ) : Label η → Prop
  | .cleanUp => s.main = .signalled → s.Done
  | _ => True

instance decidableTaskEndsFirst (s : State η ρ) : ∀ a, Decidable (TaskEndsFirst s a)
  | .cleanUp => inferInstanceAs (Decidable (_ → _))
  | .signal | .join | .scan _ | .fail | .scanner _ => .isTrue trivial

section Steps

variable {crates p} {s t : State η ρ}

/-- Only the last step of `run_daemon` makes it return. -/
theorem main_of_step {a : Label η} (h : (runDaemon crates p).step s a = some t) :
    (s.Alive ∧ ∀ signalled, t.main ≠ .returned signalled) ∨
    (a = .cleanUp ∧ s.main = .signalled ∧ t = { s with main := .returned true }) ∨
    (a = .cleanUp ∧ s.main = .joined ∧ t = { s with main := .returned false }) := by
  have hselecting : s.main = .selecting → s.Alive := fun hmain signalled hreturned => by
    rw [hmain] at hreturned
    cases hreturned
  cases a with
  | signal =>
    simp only [runDaemon, Option.ite_none_right_eq_some] at h
    obtain ⟨hmain, h⟩ := h
    obtain rfl := Option.some.inj h
    exact Or.inl ⟨hselecting hmain, fun _ heq => by cases heq⟩
  | join =>
    simp only [runDaemon, Option.ite_none_right_eq_some] at h
    obtain ⟨⟨hmain, -⟩, h⟩ := h
    obtain rfl := Option.some.inj h
    exact Or.inl ⟨hselecting hmain, fun _ heq => by cases heq⟩
  | cleanUp =>
    simp only [runDaemon] at h
    split at h
    · next hmain => exact Or.inr (Or.inl ⟨rfl, hmain, (Option.some.inj h).symm⟩)
    · next hmain => exact Or.inr (Or.inr ⟨rfl, hmain, (Option.some.inj h).symm⟩)
    · cases h
  | scan queue =>
    simp only [runDaemon, Option.ite_none_right_eq_some] at h
    obtain ⟨⟨halive, -⟩, h⟩ := h
    obtain rfl := Option.some.inj h
    exact Or.inl ⟨halive, halive⟩
  | fail =>
    simp only [runDaemon, Option.ite_none_right_eq_some] at h
    obtain ⟨⟨halive, -⟩, h⟩ := h
    obtain rfl := Option.some.inj h
    exact Or.inl ⟨halive, halive⟩
  | scanner a =>
    cases a with
    | cancel => cases h
    | _ =>
      simp only [runDaemon, Option.ite_none_right_eq_some, Option.map_eq_some_iff] at h
      obtain ⟨⟨halive, -⟩, scanner, -, rfl⟩ := h
      exact Or.inl ⟨halive, halive⟩

/-- Once `run_daemon` has returned, nothing happens any more. -/
theorem step_of_returned {signalled : Bool} (hmain : s.main = .returned signalled) (a : Label η) :
    (runDaemon crates p).step s a = none := by
  cases hstep : (runDaemon crates p).step s a with
  | none => rfl
  | some t =>
    rcases main_of_step hstep with ⟨halive, -⟩ | ⟨-, hsignalled, -⟩ | ⟨-, hjoined, -⟩
    · exact absurd hmain (halive signalled)
    · rw [hmain] at hsignalled
      cases hsignalled
    · rw [hmain] at hjoined
      cases hjoined

end Steps

section Awaits

variable {crates p} {s t : State η ρ}

/-- A signal, and `run_daemon` returns at once. -/
theorem exists_return_at_once (hmain : s.main = .selecting) (hdone : ¬ s.Done) :
    ∃ u, (runDaemon crates p).Run s [.signal, .cleanUp] u ∧ ¬ AwaitsFlush u := by
  let u : State η ρ :=
    { s with main := .returned true, scanner := { s.scanner with cancelled := true } }
  refine ⟨u, ?_, fun hawaits => hdone (hawaits rfl)⟩
  apply Machine.run_of_exec
  simp only [Machine.exec_cons, Machine.exec_nil, runDaemon, hmain, if_true, Option.bind_some]
  rfl

/-- **The final flush is awaited** exactly when the task has come to its end by the time
`run_daemon` goes on from the signal.  Nothing sees to it: wherever a signal may come before the
task has ended, `run_daemon` may return at once. -/
theorem awaitsFlush_iff (crates : Externals) (p : Pipeline η ρ) (st : ρ)
    {labels : List (Label η)} {t : State η ρ}
    (hrun : (runDaemon crates p).Run { scanner := { resolver := st } } labels t) :
    ((runDaemon crates p).Always AwaitsFlush { scanner := { resolver := st } } labels ↔
      (runDaemon crates p).Along TaskEndsFirst { scanner := { resolver := st } } labels) ∧
    (t.main = .selecting → ¬ t.Done →
      ∃ u, (runDaemon crates p).Run t [.signal, .cleanUp] u ∧ ¬ AwaitsFlush u) := by
  refine ⟨hrun.always_iff_along_of_keep (J := AwaitsFlush) nofun ?_ (fun _ => id) ?_,
    exists_return_at_once⟩
  · intro _ s a t _ _ hends hstep hreturned
    rcases main_of_step hstep with ⟨-, hnot⟩ | ⟨rfl, hmain, rfl⟩ | ⟨rfl, hmain, rfl⟩
    · exact absurd hreturned (hnot true)
    · exact hends hmain
    · cases hreturned
  · intro labels s a t _ hstep hawaits
    cases a with
    | cleanUp =>
      intro hmain
      rcases main_of_step hstep with ⟨halive, hnot⟩ | ⟨-, -, rfl⟩ | ⟨-, hjoined, -⟩
      · simp only [runDaemon, hmain] at hstep
        exact absurd (congrArg State.main (Option.some.inj hstep)).symm (hnot true)
      · exact hawaits rfl
      · rw [hmain] at hjoined
        cases hjoined
    | _ => exact trivial

end Awaits

/-! ## A signal while an entry waits -/

/-- A line is read and becomes an entry of the batch. -/
def oneEntry : List (Label (Option Uuid)) :=
  [.scan [.ok shopLine], .scanner (.recv newYear (some 7))]

/-- The task is run to its end before `run_daemon` goes on. -/
def flushedInTime : List (Label (Option Uuid)) :=
  oneEntry ++ [.signal, .scanner .cancelled, .scanner .inserted, .cleanUp]

theorem awaitsFlush_flushedInTime : (runDaemon newYearCrates
    (Pipeline.build newYearCrates .default givenIds)).Always AwaitsFlush
      { scanner := { resolver := () } } flushedInTime := by
  obtain ⟨t, hrun⟩ := Machine.exists_run (show ((runDaemon newYearCrates
    (Pipeline.build newYearCrates .default givenIds)).exec { scanner := { resolver := () } }
    flushedInTime).isSome = true by decide +kernel)
  exact (awaitsFlush_iff newYearCrates _ () hrun).1.mpr (by decide +kernel)

/-- `run_daemon` returns at once: the entry is dropped with the task, whatever happens next. -/
theorem entry_lost : ∃ t, (runDaemon newYearCrates
      (Pipeline.build newYearCrates .default givenIds)).Run { scanner := { resolver := () } }
      (oneEntry ++ [.signal, .cleanUp]) t ∧ ¬ AwaitsFlush t ∧
    t.scanner.pending ≠ [] ∧ t.scanner.stored = [] ∧
    ∀ a, (runDaemon newYearCrates (Pipeline.build newYearCrates .default givenIds)).step t a
      = none := by
  have hexec : ((runDaemon newYearCrates (Pipeline.build newYearCrates .default givenIds)).exec
      { scanner := { resolver := () } } (oneEntry ++ [.signal, .cleanUp])).any (fun t =>
        t.main = .returned true ∧ ¬ t.Done ∧ t.scanner.pending ≠ [] ∧ t.scanner.stored = []) =
      true := by
    decide +kernel
  obtain ⟨t, hrun, h⟩ := Machine.exists_run_any hexec
  obtain ⟨hmain, hdone, hpending, hstored⟩ := of_decide_eq_true h
  exact ⟨t, hrun, fun hawaits => hdone (hawaits hmain), hpending, hstored,
    step_of_returned hmain⟩

end Shutdown

end Sentinalysis.Daemon
