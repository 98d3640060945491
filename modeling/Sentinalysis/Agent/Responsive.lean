/-
# Sentinalysis.Agent.Responsive — whether the agent's loop can go deaf.

A loop that selects over several events owes each of them an answer, now or after the call it is in.
One branch breaks this: when the Docker lines come to an end it waits for ever instead of leaving
the other branches to go on, and from then on neither timers nor cancellation are seen.
-/
import Sentinalysis.Agent.Loop

namespace Sentinalysis.Agent

open Lib

namespace Loop

/-- The outcomes of the call under way. -/
def Phase.outcomes : Phase → List Label
  | .sendingMetrics => [.metricsSent true, .metricsSent false]
  | .sendingLogs _ => [.logsSent true, .logsSent false]
  | .stopping _ => [.logsSent true, .logsSent false, .deadline]
  | _ => []

/-- In its last flush, whose every outcome ends the loop, or done. -/
def Stops (logBatchSize : ℕ) (s : State) : Prop :=
  s.phase = .returned ∨ s.phase.outcomes ≠ [] ∧
    ∀ a ∈ s.phase.outcomes, ∃ t, (run logBatchSize).step s a = some t ∧ t.phase = .returned

/-- Handles a metrics tick, a flush tick and a cancellation at once. -/
structure Attentive (logBatchSize : ℕ) (s : State) : Prop where
  metrics : ∃ t, (run logBatchSize).step s .metricsTick = some t
  flush : ∃ t, (run logBatchSize).step s .flushTick = some t
  cancel : ∃ t, (run logBatchSize).Run s [.cancel, .cancelled] t ∧ Stops logBatchSize t

/-- Attentive now or after the call under way, whatever its outcome, unless the loop stops. -/
def Responsive (logBatchSize : ℕ) (s : State) : Prop :=
  Stops logBatchSize s ∨ Attentive logBatchSize s ∨ s.phase.outcomes ≠ [] ∧
    ∀ a ∈ s.phase.outcomes, ∃ t, (run logBatchSize).step s a = some t ∧ Attentive logBatchSize t

section Steps

variable {logBatchSize : ℕ} {s t : State}

/-- The last flush stops the loop. -/
theorem stops_flush (s : State) : Stops logBatchSize (flush s usizeMax true) := by
  rcases flush_cases s usizeMax true with ⟨-, heq⟩ | ⟨-, heq⟩
  · exact Or.inl (by rw [heq]; rfl)
  · refine Or.inr ?_
    rw [heq]
    refine ⟨by simp [Phase.outcomes], ?_⟩
    intro a ha
    simp only [Phase.outcomes, if_true, List.mem_cons, List.not_mem_nil, or_false] at ha
    rcases ha with rfl | rfl | rfl
    · exact ⟨_, rfl, rfl⟩
    · exact ⟨_, rfl, rfl⟩
    · exact ⟨_, rfl, rfl⟩

/-- In `select!` every branch is open. -/
theorem attentive_of_selecting (hphase : s.phase = .selecting) : Attentive logBatchSize s := by
  refine ⟨⟨_, if_pos hphase⟩, ⟨_, if_pos hphase⟩, ?_⟩
  refine ⟨flush { s with cancelled := true } usizeMax true, ?_, stops_flush _⟩
  have hcancelled : (run logBatchSize).step { s with cancelled := true } .cancelled
      = some (flush { s with cancelled := true } usizeMax true) := if_pos ⟨hphase, rfl⟩
  exact Machine.Run.cons rfl (Machine.Run.cons hcancelled Machine.Run.nil)

/-- Only the branch that waits for ever leaves the loop deaf. -/
theorem responsive_iff : Responsive logBatchSize s ↔ s.phase ≠ .pending := by
  constructor
  · intro h hpending
    have hnone : s.phase.outcomes = [] := by rw [hpending]; rfl
    rcases h with (hreturned | hstops) | hattentive | hcall
    · rw [hpending] at hreturned
      cases hreturned
    · exact hstops.1 hnone
    · obtain ⟨t, ht⟩ := hattentive.metrics
      simp [run, hpending] at ht
    · exact hcall.1 hnone
  · intro hne
    cases hphase : s.phase with
    | selecting => exact Or.inr (Or.inl (attentive_of_selecting hphase))
    | sendingMetrics =>
      refine Or.inr (Or.inr ?_)
      rw [hphase]
      refine ⟨by simp [Phase.outcomes], ?_⟩
      intro a ha
      simp only [Phase.outcomes, List.mem_cons, List.not_mem_nil, or_false] at ha
      rcases ha with rfl | rfl
      · exact ⟨_, if_pos hphase, attentive_of_selecting rfl⟩
      · exact ⟨_, if_pos hphase, attentive_of_selecting rfl⟩
    | sendingLogs lines =>
      refine Or.inr (Or.inr ?_)
      rw [hphase]
      refine ⟨by simp [Phase.outcomes], ?_⟩
      intro a ha
      simp only [Phase.outcomes, List.mem_cons, List.not_mem_nil, or_false] at ha
      rcases ha with rfl | rfl
      · exact ⟨finish s lines true .selecting, by simp [run, hphase], attentive_of_selecting rfl⟩
      · exact ⟨finish s lines false .selecting, by simp [run, hphase], attentive_of_selecting rfl⟩
    | stopping lines =>
      refine Or.inl (Or.inr ?_)
      rw [hphase]
      refine ⟨by simp [Phase.outcomes], ?_⟩
      intro a ha
      simp only [Phase.outcomes, List.mem_cons, List.not_mem_nil, or_false] at ha
      rcases ha with rfl | rfl | rfl
      · exact ⟨finish s lines true .returned, by simp [run, hphase], rfl⟩
      · exact ⟨finish s lines false .returned, by simp [run, hphase], rfl⟩
      · exact ⟨finish s lines false .returned, by simp [run, hphase], rfl⟩
    | pending => exact absurd hphase hne
    | returned => exact Or.inl (Or.inl hphase)

/-- The channel branch is taken only with a line. -/
def FindsLine (s : State) (a : Label) : Prop := a = .recv → s.channel ≠ []

instance (s : State) (a : Label) : Decidable (FindsLine s a) := inferInstanceAs (Decidable (_ → _))

theorem flush_phase_ne_pending (h : s.phase ≠ .pending) (n : ℕ) (final : Bool) :
    (flush s n final).phase ≠ .pending := by
  rcases flush_cases s n final with ⟨-, heq⟩ | ⟨-, heq⟩
  · rw [heq]
    cases final with
    | false => exact h
    | true => simp
  · rw [heq]
    cases final <;> simp

/-- With a line in the channel, no branch waits for ever. -/
theorem phase_ne_pending_of_step {a : Label} (h : s.phase ≠ .pending) (hline : FindsLine s a)
    (hstep : (run logBatchSize).step s a = some t) : t.phase ≠ .pending := by
  cases a with
  | arrive line =>
    simp only [run, Option.ite_none_left_eq_some] at hstep
    rw [← Option.some.inj hstep.2]
    exact h
  | close => exact Option.some.inj hstep ▸ h
  | cancel => exact Option.some.inj hstep ▸ h
  | cancelled =>
    simp only [run, Option.ite_none_right_eq_some] at hstep
    exact Option.some.inj hstep.2 ▸ flush_phase_ne_pending h usizeMax true
  | metricsTick =>
    simp only [run, Option.ite_none_right_eq_some] at hstep
    rw [← Option.some.inj hstep.2]
    simp
  | flushTick =>
    simp only [run, Option.ite_none_right_eq_some] at hstep
    exact Option.some.inj hstep.2 ▸ flush_phase_ne_pending h logBatchSize false
  | recv =>
    simp only [run, Option.ite_none_right_eq_some] at hstep
    obtain ⟨-, hstep⟩ := hstep
    split at hstep
    · rename_i line channel _
      rw [← Option.some.inj hstep]
      unfold receive
      split
      · exact flush_phase_ne_pending (s := enqueue s line channel) h logBatchSize false
      · exact h
    · rename_i hchannel
      exact absurd hchannel (hline rfl)
  | metricsSent ok =>
    simp only [run, Option.ite_none_right_eq_some] at hstep
    rw [← Option.some.inj hstep.2]
    simp
  | logsSent ok =>
    simp only [run] at hstep
    split at hstep
    · rw [← Option.some.inj hstep]
      simp [finish]
    · rw [← Option.some.inj hstep]
      simp [finish]
    · exact absurd hstep (by simp)
  | deadline =>
    simp only [run] at hstep
    split at hstep
    · rw [← Option.some.inj hstep]
      simp [finish]
    · exact absurd hstep (by simp)

/-- Without a line, the channel branch waits for ever. -/
theorem pending_of_recv (hchannel : s.channel = [])
    (hstep : (run logBatchSize).step s .recv = some t) : t.phase = .pending := by
  simp only [run, hchannel, Option.ite_none_right_eq_some] at hstep
  rw [← Option.some.inj hstep.2.2]

/-- **Responsiveness.**  In a run, every state is responsive exactly when the channel branch never
finds that the senders are gone. -/
theorem always_responsive_iff (logBatchSize logBufferMax : ℕ) {labels : List Label} {t : State}
    (hrun : (run logBatchSize).Run (start logBufferMax) labels t) :
    (run logBatchSize).Always (Responsive logBatchSize) (start logBufferMax) labels ↔
      (run logBatchSize).Along FindsLine (start logBufferMax) labels := by
  refine hrun.always_iff_along_of_keep (J := fun s => s.phase ≠ .pending) (by simp [start]) ?_
    (fun _ => responsive_iff.mpr) ?_
  · intro labels s a t _ hphase hline hstep
    exact phase_ne_pending_of_step hphase hline hstep
  · intro labels s a t _ hstep hresponsive ha hchannel
    subst ha
    exact responsive_iff.mp hresponsive (pending_of_recv hchannel hstep)

end Steps

/-- A line, an unreachable hub, and a stop. -/
def failThenStop : List Label :=
  [.arrive ⟨0, "app", "stdout", "ready"⟩, .recv, .metricsTick, .metricsSent false, .flushTick,
    .logsSent false, .cancel, .cancelled]

theorem always_responsive_failThenStop : ∃ t, (run 100).Run (start 10000) failThenStop t ∧
    (run 100).Always (Responsive 100) (start 10000) failThenStop := by
  obtain ⟨t, hrun⟩ := Machine.exists_run
    (show ((run 100).exec (start 10000) failThenStop).isSome = true by decide)
  exact ⟨t, hrun, (always_responsive_iff 100 10000 hrun).mpr (by decide)⟩

/-- When the Docker lines come to an end the loop is deaf, though it has not returned. -/
theorem deaf_after_close : ∃ t, (run 100).Run (start 10000) [.close, .recv] t ∧
    t.phase ≠ .returned ∧ ¬ Responsive 100 t := by
  have hexec : ((run 100).exec (start 10000) [.close, .recv]).any (·.phase = .pending) = true := by
    decide
  obtain ⟨t, hrun, hphase⟩ := Machine.exists_run_any hexec
  have hphase := of_decide_eq_true hphase
  refine ⟨t, hrun, by rw [hphase]; decide, ?_⟩
  rw [responsive_iff]
  exact fun hne => hne hphase

end Loop

end Sentinalysis.Agent
