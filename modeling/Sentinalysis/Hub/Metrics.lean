/-
# Sentinalysis.Hub.Metrics — `send_metrics`: from a request to the rows of an agent and its point.

The agent and its host come from the key.  The row of the agent is written first; a point that
cannot be stored leaves it refreshed.
-/
import Sentinalysis.Db.AgentRepo
import Sentinalysis.Db.SystemMetricRepo
import Sentinalysis.Hub.Ingest

namespace Sentinalysis.Hub

open Lib Db

/-! ## The point -/

/-- `value.min(i64::MAX as u64) as i64`. -/
def saturateI64 (n : ℕ) : ℤ := min n (2 ^ 63 - 1)

/-- The check of a measurement. -/
def finite (value : Float64) (name : String) : Except String Float64 :=
  if value.isFinite ∧ value.nonneg then .ok value
  else .error (name ++ " must be a finite non-negative number")

/-- `validate_point`. -/
def validatePoint (clock : Clock) (point : MetricPoint) (hostname : String) :
    Except String InsertSystemMetric := do
  let timestamp := tsFromMs clock.fallback point.timestampMs
  Validate.timestamp timestamp clock.now
  let cpuUsagePercent ← finite point.cpuPercent "cpu_percent"
  let loadAvg1m ← finite point.load1m "load_1m"
  let loadAvg5m ← finite point.load5m "load_5m"
  return {
    host := some hostname
    timestamp := timestamp
    cpuUsagePercent := cpuUsagePercent
    memoryUsedBytes := saturateI64 point.memUsedBytes
    memoryTotalBytes := saturateI64 point.memTotalBytes
    diskUsedBytes := saturateI64 point.diskUsedBytes
    diskTotalBytes := saturateI64 point.diskTotalBytes
    loadAvg1m := loadAvg1m
    loadAvg5m := loadAvg5m
    networkRxBytes := saturateI64 point.netRxBytesTotal
    networkTxBytes := saturateI64 point.netTxBytesTotal }

/-- A measurement that is finite and not below zero. -/
def IsAmount (value : Float64) : Prop :=
  value.isFinite = true ∧ (value.sign = false ∨ value.isZero = true)

theorem finite_eq_ok {value result : Float64} {name : String} :
    finite value name = .ok result ↔ IsAmount value ∧ value = result := by
  have hiff : (value.isFinite = true ∧ value.nonneg = true) ↔ IsAmount value :=
    and_congr_right fun hfinite => Float64.nonneg_iff_of_isFinite hfinite
  unfold finite
  split
  · next h => simp [hiff.mp h]
  · next h =>
    rw [hiff] at h
    simp [h]

/-- What `validate_point` asks of a point. -/
structure PointWellFormed (clock : Clock) (point : MetricPoint) : Prop where
  timestamp : Validate.InWindow (tsFromMs clock.fallback point.timestampMs) clock.now
  cpuPercent : IsAmount point.cpuPercent
  load1m : IsAmount point.load1m
  load5m : IsAmount point.load5m

/-- The record a point that passes becomes. -/
def pointRecord (clock : Clock) (point : MetricPoint) (hostname : String) :
    InsertSystemMetric where
  host := some hostname
  timestamp := tsFromMs clock.fallback point.timestampMs
  cpuUsagePercent := point.cpuPercent
  memoryUsedBytes := saturateI64 point.memUsedBytes
  memoryTotalBytes := saturateI64 point.memTotalBytes
  diskUsedBytes := saturateI64 point.diskUsedBytes
  diskTotalBytes := saturateI64 point.diskTotalBytes
  loadAvg1m := point.load1m
  loadAvg5m := point.load5m
  networkRxBytes := saturateI64 point.netRxBytesTotal
  networkTxBytes := saturateI64 point.netTxBytesTotal

/-- **A point passes exactly when it is well formed**, and then becomes its record. -/
theorem validatePoint_eq_ok {clock : Clock} {point : MetricPoint} {hostname : String}
    {metric : InsertSystemMetric} :
    validatePoint clock point hostname = .ok metric ↔
      PointWellFormed clock point ∧ pointRecord clock point hostname = metric := by
  rw [validatePoint, bind_eq_ok, Validate.timestamp_eq_ok]
  simp only [bind_eq_ok_iff, finite_eq_ok]
  constructor
  · rintro ⟨htimestamp, cpu, ⟨hcpu, rfl⟩, load1, ⟨hload1, rfl⟩, load5, ⟨hload5, rfl⟩, hrecord⟩
    exact ⟨⟨htimestamp, hcpu, hload1, hload5⟩, Except.ok.inj hrecord⟩
  · rintro ⟨⟨htimestamp, hcpu, hload1, hload5⟩, rfl⟩
    exact ⟨htimestamp, _, ⟨hcpu, rfl⟩, _, ⟨hload1, rfl⟩, _, ⟨hload5, rfl⟩, rfl⟩

/-! ## A request -/

/-- What the handling of a point meets: the clock, `NOW()`, and the failures of the two statements,
if they fail. -/
structure MetricsEnv where
  clock : Clock
  now : DateTime
  upsert : Option SentinelError
  insert : Option SentinelError

/-- `send_metrics`, with the caller that `authorize` found: the answer, the table of agents and the
points that were stored. -/
def sendMetrics (env : MetricsEnv) (authorized : Except Status Principal) (agents : Agents)
    (req : MetricsRequest) : Except Status Ack × Agents × List InsertSystemMetric :=
  match authorized with
  | .error status => (.error status, agents, [])
  | .ok principal =>
    if .IngestMetrics ∉ principal.permissions then
      (.error ⟨.permissionDenied, "key lacks ingest:metrics"⟩, agents, [])
    else match principal.agentId, principal.hostname with
    | some agentId, some hostname =>
      match req.point with
      | none => (.error ⟨.invalidArgument, "missing metric point"⟩, agents, [])
      | some point => match validatePoint env.clock point hostname with
        | .error reason => (.error ⟨.invalidArgument, reason⟩, agents, [])
        | .ok metric =>
          match AgentRepository.upsertSeen env.upsert agents env.now agentId hostname with
          | (.error e, agents) => (.error ⟨.internal, e.display⟩, agents, [])
          | (.ok (), agents) => match SystemMetricRepository.insert env.insert metric with
            | (.error e, stored) => (.error ⟨.internal, e.display⟩, agents, stored)
            | (.ok (), stored) => (.ok ⟨true, 1⟩, agents, stored)
    | _, _ =>
      (.error ⟨.permissionDenied,
        "this key is not bound to an agent; agent keys are required for ingestion"⟩, agents, [])

end Sentinalysis.Hub
