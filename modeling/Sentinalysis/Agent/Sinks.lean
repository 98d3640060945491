/-
# Sentinalysis.Agent.Sinks — whether a flush fits the sink it goes to.

The hub refuses a request with too many lines, and the database a statement with too many bound
values.  Both batch sizes in use are far within these limits.  A slice is within its batch size as
long as no entry joins a batch that is already full; after a failed flush one can.
-/
import Sentinalysis.Agent.Logs
import Sentinalysis.Db.LogEntryRepo
import Sentinalysis.Hub.Grpc
import Sentinalysis.LogScanner.Scanner

namespace Sentinalysis.Agent

open Lib Db LogScanner

/-- A slice is within the batch size, and the request or the statement made of it is accepted. -/
structure Fits (policy : Scanner.Batching) (slice : List InsertLogEntry) : Prop where
  size : slice.length ≤ policy.batchSize
  request : ∀ logBatchSize, policy.batchSize = forwardBatchSize logBatchSize →
    ∀ resolver, (logsRequest slice resolver).oversized = false
  insert : policy.batchSize = batchSizeDefault →
    (buildInsertQuery slice).args.length ≤ maxBinds

/-- The clamped batch size is within the hub's limit. -/
theorem forwardBatchSize_le (logBatchSize : ℕ) :
    forwardBatchSize logBatchSize ≤ Hub.Validate.maxLinesPerRequest := by
  have hmax : 1 ≤ Hub.Validate.maxLinesPerRequest := by decide
  unfold forwardBatchSize
  omega

/-- Both limits follow from the batch size. -/
theorem fits_iff {policy : Scanner.Batching} {slice : List InsertLogEntry} :
    Fits policy slice ↔ slice.length ≤ policy.batchSize := by
  constructor
  · exact Fits.size
  · intro hsize
    refine ⟨hsize, ?_, ?_⟩
    · intro logBatchSize hpolicy resolver
      have hlines : (logsRequest slice resolver).parsedLines.length = slice.length :=
        List.length_map _
      have hmax := forwardBatchSize_le logBatchSize
      simp only [Hub.LogsRequest.oversized, decide_eq_false_iff_not, not_lt, hlines]
      show 0 + slice.length ≤ _
      omega
    · intro hpolicy
      have hbinds : 14 * batchSizeDefault ≤ maxBinds := by decide
      rw [length_buildInsertQuery]
      omega

/-- **Every flush fits its sink** exactly when every line that yields an entry is consumed while
the pending batch has room for it. -/
theorem flushes_fit_iff {η ρ : Type} (crates : Externals) (p : Pipeline η ρ)
    (policy : Scanner.Batching) (st : ρ) {labels : List (Scanner.Label η)} {t : Scanner.State η ρ}
    (hrun : (Scanner.run crates p policy).Run { resolver := st } labels t) :
    (∀ slice ∈ t.passed, Fits policy slice) ↔
      (Scanner.run crates p policy).Along (Scanner.RoomForEntry crates p policy)
        { resolver := st } labels := by
  simp only [fits_iff]
  exact Scanner.passed_length_le_iff st hrun

/-- A single failure leaves room in a batch of a hundred. -/
theorem flushes_fit_failThenStop : ∃ t, (Scanner.run newYearCrates
      (Pipeline.build newYearCrates .default givenIds) ⟨100, true⟩).Run { resolver := () }
      Scanner.failThenStop t ∧ t.passed.length = 2 ∧ ∀ slice ∈ t.passed, Fits ⟨100, true⟩ slice := by
  have hexec : ((Scanner.run newYearCrates (Pipeline.build newYearCrates .default givenIds)
      ⟨100, true⟩).exec { resolver := () } Scanner.failThenStop).any (·.passed.length = 2)
      = true := by
    decide +kernel
  obtain ⟨t, hrun, hlength⟩ := Machine.exists_run_any hexec
  refine ⟨t, hrun, of_decide_eq_true hlength, ?_⟩
  exact (flushes_fit_iff newYearCrates _ ⟨100, true⟩ () hrun).mpr (by decide +kernel)

/-- The sink is down when the first line is flushed, and another line follows. -/
def downForOneLine : List (Scanner.Label (Option Uuid)) :=
  [.send (.ok shopLine), .recv newYear (some 7), .insertFailed, .send (.ok shopLine),
    .recv newYear (some 7)]

/-- With a batch size of one, the second line is passed together with the first. -/
theorem flush_does_not_fit : ∃ t, (Scanner.run newYearCrates
      (Pipeline.build newYearCrates .default givenIds) ⟨1, true⟩).Run { resolver := () }
      downForOneLine t ∧ ∃ slice ∈ t.passed, 1 < slice.length := by
  have hexec : ((Scanner.run newYearCrates (Pipeline.build newYearCrates .default givenIds)
      ⟨1, true⟩).exec { resolver := () } downForOneLine).any
        (·.passed.any fun slice => 1 < slice.length) = true := by
    decide +kernel
  obtain ⟨t, hrun, hany⟩ := Machine.exists_run_any hexec
  obtain ⟨slice, hslice, hlong⟩ := List.any_eq_true.mp hany
  exact ⟨t, hrun, slice, hslice, of_decide_eq_true hlong⟩

end Sentinalysis.Agent
