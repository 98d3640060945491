/-
# Sentinalysis.Hub.Charts — `GET /api/v1/metrics`: the points of a chart.

The answer has one point for each bucket of time in which a point was reported, the oldest first,
and no more than 2000 of them; were there more, the newest would be missing.  There never are: a
report may be ahead of the clock of the hub by five minutes only, and each range has its width of
buckets.
-/
import Sentinalysis.Hub.ReadEvents
import Sentinalysis.Hub.Tables

namespace Sentinalysis.Hub

open Lib Db

/-! ## The handler -/

/-- `MetricRange::bucket_seconds`. -/
def MetricRange.bucketSeconds : MetricRange → BucketSeconds
  | .H1 | .H6 => ⟨60, by decide, by decide⟩
  | .H24 => ⟨300, by decide, by decide⟩
  | .D7 => ⟨1800, by decide, by decide⟩
  | .D30 => ⟨7200, by decide, by decide⟩

/-- `MetricRange::max_rows`. -/
def MetricRange.maxRows (_range : MetricRange) : ℕ := 2000

/-- `MetricsQuery`. -/
structure MetricsQuery where
  range : Option String
  host : Option String

/-- `MetricPointDto`: the time is written to the second, the bytes are whole. -/
structure MetricPointDto where
  timestamp : String
  cpuPercent : Float64
  memUsedBytes : ℤ
  memTotalBytes : ℤ
  load1m : Float64
  load5m : Float64
  diskUsedBytes : ℤ
  diskTotalBytes : ℤ
  deriving DecidableEq

/-- The record of a bucket; `toRfc3339` is the date library's text of an instant, to the second. -/
def metricPointDto (toRfc3339 : DateTime → String) (b : BucketedMetric) : MetricPointDto where
  timestamp := toRfc3339 b.bucket
  cpuPercent := b.cpuUsagePercent
  memUsedBytes := b.memoryUsedBytes.toI64
  memTotalBytes := b.memoryTotalBytes.toI64
  load1m := b.loadAvg1m
  load5m := b.loadAvg5m
  diskUsedBytes := b.diskUsedBytes.toI64
  diskTotalBytes := b.diskTotalBytes.toI64

/-- `MetricRange::parse` of the parameter, which is a day when it is absent. -/
def parseRange (range : Option String) : Except HttpResponse MetricRange :=
  match MetricRange.parse (range.getD "24h") with
  | some range => .ok range
  | none => .error (.error .BadRequest "range must be one of 1h, 6h, 24h, 7d, 30d")

/-- `get_metrics`: the points of a response with status 200. -/
def getMetrics (toRfc3339 : DateTime → String) (avg : Averages) (store : MetricStore)
    (principal : Principal) (failure : Option SentinelError) (query : MetricsQuery) :
    Except HttpResponse (List MetricPointDto) := do
  requireDashboard principal
  let range ← parseRange query.range
  match SystemMetricRepository.bucketedSeries failure avg store range.interval range.bucketSeconds
      range.maxRows query.host with
  | .ok series => return series.map (metricPointDto toRfc3339)
  | .error _ => .error internalError

/-! ## What a chart shows -/

/-- A chart shows rows: each point is of one bucket of time and is made from all the rows of that
time, and each row is in one point. -/
structure Shows (avg : Averages) (width : BucketSeconds) (rows : List StoredMetric)
    (points : List BucketedMetric) : Prop where
  increasing : points.Pairwise fun a b => a.bucket < b.bucket
  aligned : ∀ point ∈ points, bucketOf width point.bucket = point.bucket
  made : ∀ point ∈ points, ∃ members : List StoredMetric, members ≠ [] ∧
    members.Perm (rows.filter (bucketOf width ·.timestamp = point.bucket)) ∧
    point = bucketedMetric avg (point.bucket, members)
  shown : ∀ row ∈ rows, ∃ point ∈ points, point.bucket = bucketOf width row.timestamp

/-- How long a range is, in seconds. -/
def MetricRange.span : MetricRange → ℤ
  | .H1 => 3600
  | .H6 => 6 * 3600
  | .H24 => 24 * 3600
  | .D7 => 7 * 24 * 3600
  | .D30 => 30 * 24 * 3600

section Buckets

variable {avg : Averages} {width : BucketSeconds} {store : MetricStore} {interval : String}
  {host : Option String}

theorem bucketOf_bucketOf (width : BucketSeconds) (timestamp : DateTime) :
    bucketOf width (bucketOf width timestamp) = bucketOf width timestamp := by
  refine DateTime.nanos_injective ?_
  rw [nanos_bucketOf, bucketNumber_bucketOf, nanos_bucketOf]

/-- All the buckets of a selection show it. -/
theorem shows_buckets (avg : Averages) (width : BucketSeconds) (store : MetricStore)
    (interval : String) (host : Option String) {rows : List StoredMetric}
    (hrows : (store.selected interval host).Perm rows) :
    Shows avg width rows ((store.buckets interval width host).map (bucketedMetric avg)) where
  increasing := List.pairwise_map.mpr pairwise_buckets
  aligned := by
    intro point hpoint
    obtain ⟨group, hgroup, rfl⟩ := List.mem_map.mp hpoint
    obtain ⟨row, -, hbucket⟩ := exists_of_mem_buckets hgroup
    show bucketOf width group.1 = group.1
    rw [← hbucket, bucketOf_bucketOf]
  made := by
    intro point hpoint
    obtain ⟨⟨bucket, members⟩, hgroup, rfl⟩ := List.mem_map.mp hpoint
    obtain ⟨hmembers, hne⟩ := mem_buckets_iff.mp hgroup
    exact ⟨members, hne, hmembers ▸ hrows.filter _, rfl⟩
  shown := by
    intro row hrow
    obtain ⟨members, hgroup, -⟩ := exists_mem_buckets width (hrows.mem_iff.mpr hrow)
    exact ⟨_, List.mem_map_of_mem hgroup, rfl⟩

/-- A width of buckets that is enough for the range: between a time that the range begins after and
a day ahead of the clock there are no more buckets than points. -/
theorem length_buckets_le_maxRows {range : MetricRange} (now : ℤ)
    (hfirst : ∀ row ∈ store.selected interval host,
      now - (range.span + 3600) * 1000000000 ≤ row.timestamp.nanos)
    (hlast : ∀ row ∈ store.selected interval host,
      row.timestamp.nanos ≤ now + (86400 + 301) * 1000000000) :
    (store.buckets interval range.bucketSeconds host).length ≤ range.maxRows := by
  refine (length_buckets_le fun row hrow => ⟨hfirst row hrow, hlast row hrow⟩).trans ?_
  cases range <;> simp only [MetricRange.bucketSeconds, MetricRange.span, MetricRange.maxRows] <;>
    omega

end Buckets

/-! ## The run -/

/-- The rows of the hosts that are asked for, newer than a time. -/
def inRange (since : DateTime) (host : Option String) (rows : List StoredMetric) :
    List StoredMetric :=
  rows.filter fun row => decide (since < row.timestamp) && host.all (row.host == some ·)

theorem inRange_eq (since : DateTime) (host : Option String) (rows : List StoredMetric) :
    inRange since host rows
      = (rows.filter (since < ·.timestamp)).filter fun row => host.all (row.host == some ·) := by
  rw [List.filter_filter, inRange]
  exact List.filter_congr fun row _ => Bool.and_comm _ _

/-- **A chart shows every point that was ever stored in its range.** -/
theorem getMetrics_shows (toRfc3339 : DateTime → String) (avg : Averages) {l : List Statement}
    {s : Tables} (hrun : tables.Run {} l s) (store : MetricStore)
    (hstore : store.metrics = s.metrics) (principal : Principal) (query : MetricsQuery)
    (range : MetricRange) (now : DateTime)
    (hpermission : .ReadDashboard ∈ principal.permissions)
    (hrange : MetricRange.parse (query.range.getD "24h") = some range)
    (hsince : now.nanos - (range.span + 3600) * 1000000000 ≤ (store.since range.interval).nanos)
    (hspares : ∀ statement ∈ l, statement.Spares (store.since range.interval))
    (hclock : ∀ statement ∈ l, statement.NoLaterThan (now.nanos + 86400 * 1000000000)) :
    ∃ points,
      getMetrics toRfc3339 avg store principal none query
        = .ok (points.map (metricPointDto toRfc3339)) ∧
      Shows avg range.bucketSeconds
        (inRange (store.since range.interval) query.host s.allMetrics) points := by
  have hkept := Tables.kept_of_run hrun hspares hclock
  have hrows : (store.selected range.interval query.host).Perm
      (inRange (store.since range.interval) query.host s.allMetrics) := by
    rw [inRange_eq, ← hkept.metrics, ← inRange_eq, ← hstore]
    exact store.scan.perm _
  -- what is selected is neither too old nor too new
  have hfew : (store.buckets range.interval range.bucketSeconds query.host).length
      ≤ range.maxRows := by
    refine length_buckets_le_maxRows now.nanos (fun row hrow => ?_) fun row hrow => ?_
    · have hnewer := List.mem_filter.mp (hrows.mem_iff.mp hrow)
      rw [Bool.and_eq_true, decide_eq_true_iff, DateTime.lt_iff] at hnewer
      omega
    · have hlt := hkept.timely row (List.mem_filter.mp (hrows.mem_iff.mp hrow)).1
      omega
  refine ⟨_, ?_, shows_buckets avg range.bucketSeconds store range.interval query.host hrows⟩
  unfold getMetrics requireDashboard parseRange
  rw [if_pos hpermission, hrange]
  dsimp only [bind, Except.bind]
  rw [SystemMetricRepository.bucketedSeries, List.take_of_length_le hfew]
  rfl

/-- An idle host reports, when the clocks of all three agree. -/
def reports (now : DateTime) (agentId hostname : String) : Statement :=
  .seen ⟨⟨now, now⟩, now, none, none⟩
    (.ok ⟨"00112233", [.IngestMetrics], some agentId, some hostname, none⟩)
    ⟨some ⟨now.timestampMillis, .zero, 0, 0, 0, 0, .zero, .zero, 0, 0⟩⟩

def fortyDaysBefore : DateTime := ⟨-3456000000000000, by decide, by decide⟩

/-- A host has reported long ago; now two hosts report at once, and a month is kept. -/
def twoHosts : List Statement :=
  [reports fortyDaysBefore "agent-1" "web", .point 0 (some 7),
    reports .epoch "agent-1" "web", reports .epoch "agent-2" "db", .point 1 (some 8),
    .point 0 (some 9), .pruneMetrics (.sequential _) .epoch 30]

/-- The chart of the hour shows both, and the table has forgotten the old report. -/
theorem getMetrics_shows_twoHosts : ∃ s points, tables.Run {} twoHosts s ∧
    (s.metrics.rows.length = 2 ∧ s.allMetrics.length = 3) ∧
    getMetrics (fun _ => "1970-01-01T00:00:00Z") ⟨(·.headD .zero), fun _ => .zero⟩
        ⟨s.metrics, .sequential _, fun _ => ⟨-3600000000000, by decide, by decide⟩⟩
        dashboard none ⟨some "1h", none⟩
      = .ok (points.map (metricPointDto fun _ => "1970-01-01T00:00:00Z")) ∧
    Shows ⟨(·.headD .zero), fun _ => .zero⟩ MetricRange.H1.bucketSeconds
      (inRange ⟨-3600000000000, by decide, by decide⟩ none s.allMetrics) points := by
  have hexec : (tables.exec {} twoHosts).any (fun s => decide (s.metrics.rows.length = 2 ∧
      s.allMetrics.length = 3)) = true := by
    decide +kernel
  obtain ⟨s, hrun, hlengths⟩ := Machine.exists_run_any hexec
  obtain ⟨points, hpoints, hshows⟩ := getMetrics_shows (fun _ => "1970-01-01T00:00:00Z")
    ⟨(·.headD .zero), fun _ => .zero⟩ hrun
    ⟨s.metrics, .sequential _, fun _ => ⟨-3600000000000, by decide, by decide⟩⟩ rfl dashboard
    ⟨some "1h", none⟩ .H1 .epoch (by decide) (by decide)
    (show 0 - (3600 + 3600) * 1000000000 ≤ (-3600000000000 : ℤ) by decide)
    (show ∀ statement ∈ twoHosts, statement.Spares ⟨-3600000000000, by decide, by decide⟩ by
      decide +kernel)
    (by decide +kernel)
  exact ⟨s, points, hrun, of_decide_eq_true hlengths, hpoints, hshows⟩

end Sentinalysis.Hub
