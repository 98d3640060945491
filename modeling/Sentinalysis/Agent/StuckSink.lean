/-
# Sentinalysis.Agent.StuckSink — a batch past a limit of its sink, and all that comes after it.

Some refusals do not pass: the database takes no statement with more values than the protocol counts
and no U+0000 in a text, and the hub takes no request with too many lines.  The scanner puts a
refused batch back as a whole and adds to it, so that each later slice begins with the refused one.
Nothing is stored any more, whatever happens, and all that is read is kept
(`nothing_stored_after_limit`).

These are the limits that the sinks' own code and the columns show.  There are others, which are not
modelled here: the size in bytes of a request, and the range of a timestamp.
-/
import Sentinalysis.Agent.GrpcSink
import Sentinalysis.Agent.Sinks
import Sentinalysis.Db.Constraints
import Sentinalysis.LogScanner.ScanEnd

namespace Sentinalysis.Agent

open Lib Db LogScanner Scanner

/-! ## The sinks -/

/-- The sinks of the two scanners: that of the daemon, and that of the agent. -/
inductive Sink
  | repository
  | grpc
  deriving DecidableEq, Repr

namespace Sink

/-- The code of the sink returns that the slice is stored for some answers of what is behind it: the
database, or the call, the hub and its database.  They need not be answers that it would give. -/
def MayTake : Sink → List InsertLogEntry → Prop
  | .repository, slice =>
    ∃ failure refusal n, LogEntryRepository.insertBatch failure refusal slice = .ok n
  | .grpc, slice => ∃ display failure env insertBatch authorized services resolver n,
    (forwardBatch display failure env insertBatch authorized services slice resolver).1 = .ok n

/-- The slice has too many values for a statement, or one that its column has no place for; or it
has too many lines for a request. -/
def OverLimit : Sink → List InsertLogEntry → Prop
  | .repository, slice =>
    maxBinds < 14 * slice.length ∨ ∃ entry ∈ slice, ¬ EntryStorable entry
  | .grpc, slice => Hub.Validate.maxLinesPerRequest < slice.length

instance : ∀ (sink : Sink) (slice : List InsertLogEntry), Decidable (sink.OverLimit slice)
  | .repository, _ => inferInstanceAs (Decidable (_ ∨ _))
  | .grpc, _ => inferInstanceAs (Decidable (_ < _))

variable {sink : Sink} {slice : List InsertLogEntry}

/-- What is over a limit is not taken, whatever is behind the sink. -/
theorem not_mayTake_of_overLimit (h : sink.OverLimit slice) : ¬ sink.MayTake slice := by
  cases sink with
  | repository =>
    intro htake
    obtain ⟨hfew, hstorable⟩ := LogEntryRepository.insertBatch_isOk_iff.mp htake
    rcases h with hmany | ⟨entry, hentry, hnot⟩
    · omega
    · exact hnot (hstorable entry hentry)
  | grpc =>
    rintro ⟨display, failure, env, insertBatch, authorized, services, resolver, n, hok⟩
    have hoversized : (logsRequest slice resolver).oversized = true := by
      rw [Hub.LogsRequest.oversized, decide_eq_true_iff]
      simpa [logsRequest] using (show Hub.Validate.maxLinesPerRequest < slice.length from h)
    have hnot : ¬ Hub.Taken env insertBatch authorized (logsRequest slice resolver) := by
      intro htaken
      cases hoversized.symm.trans htaken.size
    obtain ⟨e, herror⟩ := forwardBatch_of_not_taken (Or.inr hnot)
    cases herror.symm.trans hok

/-- More entries do not bring a slice below a limit. -/
theorem OverLimit.append (h : sink.OverLimit slice) (more : List InsertLogEntry) :
    sink.OverLimit (slice ++ more) := by
  have hlength : slice.length ≤ (slice ++ more).length := (List.prefix_append _ _).length_le
  cases sink with
  | repository =>
    refine h.imp (fun hmany => by omega) ?_
    rintro ⟨entry, hentry, hnot⟩
    exact ⟨entry, List.mem_append_left _ hentry, hnot⟩
  | grpc => exact Nat.lt_of_lt_of_le h hlength

end Sink

section Stuck

variable {η ρ : Type} {crates : Externals} {p : Pipeline η ρ} {policy : Batching}
  {s s₀ t : State η ρ} {sink : Sink} {st : ρ}

/-- The sink says that a slice is stored only if its code can. -/
def Honest (sink : Sink) (s : State η ρ) : Label η → Prop
  | .inserted => sink.MayTake s.phase.inFlight
  | _ => True

theorem conserved_of_run {labels : List (Label η)}
    (h : (run crates p policy).Run { resolver := st } labels s) : Conserved crates p st s := by
  have hstart : Conserved crates p st ({ resolver := st } : State η ρ) :=
    ⟨rfl, rfl, by intro entries final h; cases h⟩
  exact h.invariant hstart fun _ _ _ h hstep => h.step hstep

/-- Only an answer of the sink stores, and what was consumed stays so. -/
theorem frame_of_step {a : Label η} (h : (run crates p policy).step s a = some t) :
    (a = .inserted ∨ t.stored = s.stored) ∧ s.consumed <+: t.consumed := by
  have hflush : ∀ (s : State η ρ) final, (flushBatch s final).stored = s.stored := by
    intro s final
    rcases flushBatch_cases s final with ⟨-, heq⟩ | ⟨-, heq⟩ <;> rw [heq]
  cases move_of_step h with
  | send event _ | hangUp | cancel => exact ⟨Or.inr rfl, List.prefix_rfl⟩
  | cancelled _ _ _ | tick _ _ _ _ =>
    obtain ⟨-, -, -, hconsumed, -⟩ := flushBatch_frame s _
    exact ⟨Or.inr (hflush s _), hconsumed ▸ List.prefix_rfl⟩
  | recv now env event queue _ _ =>
    unfold Scanner.consume
    dsimp only
    split
    · obtain ⟨-, -, -, hconsumed, -⟩ :=
        flushBatch_frame (Scanner.join crates p s now env event queue) false
      refine ⟨Or.inr (hflush _ _), ?_⟩
      rw [hconsumed]
      exact List.prefix_append _ _
    · exact ⟨Or.inr rfl, List.prefix_append _ _⟩
  | inserted entries final _ => exact ⟨Or.inl rfl, List.prefix_rfl⟩
  | insertFailed entries final _ => exact ⟨Or.inr rfl, List.prefix_rfl⟩

/-- Since a moment nothing was stored. -/
structure Stuck (crates : Externals) (p : Pipeline η ρ) (st : ρ) (s₀ s : State η ρ) : Prop where
  conserved : Conserved crates p st s
  stored : s.stored = s₀.stored
  consumed : s₀.consumed <+: s.consumed

/-- What was pending then is pending, and so are the entries of all that was consumed since. -/
theorem Stuck.pending (hstart : Conserved crates p st s₀) (h : Stuck crates p st s₀ s) :
    ∃ later, s.consumed = s₀.consumed ++ later ∧
      s.pending = s₀.pending ++ (p.processEvents crates s₀.resolver later).1 := by
  obtain ⟨later, hlater⟩ := h.consumed
  refine ⟨later, hlater.symm, ?_⟩
  have hall := h.conserved.entries
  rw [← hlater, Pipeline.processEvents_append, ← hstart.entries, ← hstart.resolver, h.stored,
    List.append_assoc] at hall
  exact List.append_cancel_left hall

/-- A slice that is passed to the sink begins with what was over the limit. -/
theorem Stuck.step {a : Label η} (hstart : Conserved crates p st s₀)
    (hlimit : sink.OverLimit s₀.pending) (h : Stuck crates p st s₀ s) (hhonest : Honest sink s a)
    (hstep : (run crates p policy).step s a = some t) : Stuck crates p st s₀ t := by
  obtain ⟨hstored, hconsumed⟩ := frame_of_step hstep
  refine ⟨h.conserved.step hstep, ?_, h.consumed.trans hconsumed⟩
  rcases hstored with rfl | hsame
  · cases move_of_step hstep with
    | inserted entries final hphase =>
      -- what is in flight is then all that is pending, and it begins with the slice that is refused
      obtain ⟨later, -, hpending⟩ := h.pending hstart
      have hbatch := (h.conserved.exclusive entries final hphase).1
      rw [State.pending, hbatch, List.append_nil] at hpending
      have hover : sink.OverLimit s.phase.inFlight := hpending ▸ Sink.OverLimit.append hlimit _
      exact absurd hhonest (Sink.not_mayTake_of_overLimit hover)
  · exact hsame.trans h.stored

/-- **A batch past a limit is the end of storing.**  Once what is pending is over a limit of the
sink, the scanner never stores anything again, whatever comes next and whatever the sink answers:
what was pending stays pending, and the entries of all that is read from then on come after it. -/
theorem nothing_stored_after_limit (sink : Sink) {before after : List (Label η)}
    (hbefore : (run crates p policy).Run { resolver := st } before s)
    (hlimit : sink.OverLimit s.pending) (hafter : (run crates p policy).Run s after t)
    (hhonest : (run crates p policy).Along (Honest sink) s after) :
    t.stored = s.stored ∧ ∃ later, t.consumed = s.consumed ++ later ∧
      t.pending = s.pending ++ (p.processEvents crates s.resolver later).1 := by
  have hstart := conserved_of_run hbefore
  have hstuck : Stuck crates p st s t := hafter.invariant_along
    (I := fun _ t => Stuck crates p st s t) hhonest ⟨hstart, rfl, List.prefix_rfl⟩
    fun _ _ _ _ h hhonest hstep => h.step hstart hlimit hhonest hstep
  exact ⟨hstuck.stored, hstuck.pending hstart⟩

end Stuck

/-- A request whose user agent is U+0000. -/
def zeroLine : TailLine :=
  { shopLine with
    line := "192.0.2.7 - - [01/Jan/2025:00:00:00 +0000] \"GET / HTTP/1.1\" 200 12 \"-\" \"\x00\"" }

/-- After it the daemon stores nothing: an ordinary line comes, the timer flushes, the database
refuses, and both lines are still there. -/
theorem nothing_stored_after_limit_zeroLine : ∃ s t,
    (run newYearCrates (Pipeline.build newYearCrates .default givenIds) ⟨100, true⟩).Run
      { resolver := () } [.send (.ok zeroLine), .recv newYear (some 7)] s ∧
    (run newYearCrates (Pipeline.build newYearCrates .default givenIds) ⟨100, true⟩).Run s
      [.send (.ok shopLine), .recv newYear (some 7), .tick, .insertFailed] t ∧
    (t.stored = s.stored ∧ ∃ later, t.consumed = s.consumed ++ later ∧
      t.pending = s.pending ++ ((Pipeline.build newYearCrates .default givenIds).processEvents
        newYearCrates s.resolver later).1) ∧ t.pending.length = 2 := by
  have hexec : ((run newYearCrates (Pipeline.build newYearCrates .default givenIds)
      ⟨100, true⟩).exec { resolver := () } [.send (.ok zeroLine), .recv newYear (some 7)]).any
        (fun s => decide (Sink.repository.OverLimit s.pending) &&
          ((run newYearCrates (Pipeline.build newYearCrates .default givenIds) ⟨100, true⟩).exec s
            [.send (.ok shopLine), .recv newYear (some 7), .tick, .insertFailed]).any
              (fun t => t.pending.length = 2)) = true := by
    decide +kernel
  obtain ⟨s, hbefore, hs⟩ := Machine.exists_run_any hexec
  obtain ⟨hlimit, hs⟩ := Bool.and_eq_true_iff.mp hs
  obtain ⟨t, hafter, hlength⟩ := Machine.exists_run_any hs
  have hhonest : (run newYearCrates (Pipeline.build newYearCrates .default givenIds)
      ⟨100, true⟩).Along (Honest .repository) s
        [.send (.ok shopLine), .recv newYear (some 7), .tick, .insertFailed] := by
    simp [Machine.along_cons, Machine.along_nil, Honest]
  exact ⟨s, t, hbefore, hafter, nothing_stored_after_limit .repository hbefore
    (of_decide_eq_true hlimit) hafter hhonest, of_decide_eq_true hlength⟩

end Sentinalysis.Agent
