/-
# Sentinalysis.Db.SystemMetricRepo — the metrics that agents report.
-/
import Mathlib.Data.Int.Interval
import Sentinalysis.Db.Prune
import Sentinalysis.Error
import Sentinalysis.Lib.Float64
import Sentinalysis.Lib.GroupBy

namespace Sentinalysis.Db

open Lib

/-- A row of `system_metrics`, without its measurements. -/
structure SystemMetricRow where
  id : Uuid
  timestamp : DateTime

/-- The `system_metrics` table. -/
abbrev SystemMetrics := Keyed SystemMetricRow.id

/-- `SystemMetricRepository::prune`. -/
def SystemMetricRepository.prune (metrics : SystemMetrics) (scan : Scan SystemMetricRow)
    (now : DateTime) (keepDays : UInt32) : ℕ × SystemMetrics :=
  Db.prune (·.timestamp) metrics scan now keepDays

/-- `InsertSystemMetric`: a validated point, and the host that reported it. -/
structure InsertSystemMetric where
  host : Option String
  timestamp : DateTime
  cpuUsagePercent : Float64
  memoryUsedBytes : ℤ
  memoryTotalBytes : ℤ
  diskUsedBytes : ℤ
  diskTotalBytes : ℤ
  loadAvg1m : Float64
  loadAvg5m : Float64
  networkRxBytes : ℤ
  networkTxBytes : ℤ
  deriving DecidableEq, Repr

/-- `SystemMetricRepository::insert`, and what was stored. -/
def SystemMetricRepository.insert (failure : Option SentinelError) (metric : InsertSystemMetric) :
    Except SentinelError Unit × List InsertSystemMetric :=
  match failure with
  | some e => (.error e, [])
  | none => (.ok (), [metric])

/-! ## Reading them back -/

/-- A row of `system_metrics` with its measurements. -/
structure StoredMetric extends InsertSystemMetric where
  id : Uuid
  deriving DecidableEq, Repr

/-- The table, the order in which the database finds its rows, and what it takes
`NOW() - $2::interval` for while its clock is fixed. -/
structure MetricStore where
  metrics : Keyed StoredMetric.id
  scan : Scan StoredMetric
  since : String → DateTime

/-- `AVG(…)::float8` over the two types of columns that have measurements. -/
structure Averages where
  float8 : List Float64 → Float64
  bigint : List ℤ → Float64

/-- A width of buckets, in seconds. -/
structure BucketSeconds where
  val : ℕ
  pos : 0 < val
  dvd : val ∣ 86400

/-- `to_timestamp(FLOOR(EXTRACT(EPOCH FROM timestamp) / $1) * $1)`. -/
def bucketOf (width : BucketSeconds) (timestamp : DateTime) : DateTime :=
  timestamp.floorTo width.val width.pos width.dvd

/-- `BucketedMetric`. -/
structure BucketedMetric where
  bucket : DateTime
  cpuUsagePercent : Float64
  memoryUsedBytes : Float64
  memoryTotalBytes : Float64
  loadAvg1m : Float64
  loadAvg5m : Float64
  diskUsedBytes : Float64
  diskTotalBytes : Float64
  deriving DecidableEq

/-- One row of the answer: the averages of a bucket. -/
def bucketedMetric (avg : Averages) (group : DateTime × List StoredMetric) : BucketedMetric where
  bucket := group.1
  cpuUsagePercent := avg.float8 (group.2.map (·.cpuUsagePercent))
  memoryUsedBytes := avg.bigint (group.2.map (·.memoryUsedBytes))
  memoryTotalBytes := avg.bigint (group.2.map (·.memoryTotalBytes))
  loadAvg1m := avg.float8 (group.2.map (·.loadAvg1m))
  loadAvg5m := avg.float8 (group.2.map (·.loadAvg5m))
  diskUsedBytes := avg.bigint (group.2.map (·.diskUsedBytes))
  diskTotalBytes := avg.bigint (group.2.map (·.diskTotalBytes))

namespace MetricStore

variable (store : MetricStore) (interval : String) (width : BucketSeconds) (host : Option String)

/-- The `WHERE` clause. -/
def selects (row : StoredMetric) : Bool :=
  decide (store.since interval < row.timestamp) && host.all (row.host == some ·)

/-- The rows that match, as they are found. -/
def selected : List StoredMetric :=
  store.scan.order (store.metrics.rows.filter (store.selects interval host))

/-- `GROUP BY bucket ORDER BY bucket`. -/
def buckets : List (DateTime × List StoredMetric) :=
  GroupBy.sorted (bucketOf width ·.timestamp) (store.selected interval host)

end MetricStore

/-- `SystemMetricRepository::bucketed_series`. -/
def SystemMetricRepository.bucketedSeries (failure : Option SentinelError) (avg : Averages)
    (store : MetricStore) (interval : String) (width : BucketSeconds) (maxRows : ℕ)
    (host : Option String) : Except SentinelError (List BucketedMetric) :=
  match failure with
  | some e => .error e
  | none => .ok (((store.buckets interval width host).take maxRows).map (bucketedMetric avg))

/-- `SystemMetricRepository::latest`: one of the newest rows, if there are any. -/
def SystemMetricRepository.latest (failure : Option SentinelError) (store : MetricStore) :
    Except SentinelError (Option StoredMetric) :=
  match failure with
  | some e => .error e
  | none => .ok ((store.scan.order store.metrics.rows).insertionSort
      fun a b => b.timestamp ≤ a.timestamp).head?

/-! ### The buckets -/

section Buckets

variable {store : MetricStore} {interval : String} {width : BucketSeconds} {host : Option String}

/-- The members of a bucket are the selected rows of its time. -/
theorem mem_buckets_iff {bucket : DateTime} {members : List StoredMetric} :
    (bucket, members) ∈ store.buckets interval width host ↔
      members = (store.selected interval host).filter (bucketOf width ·.timestamp = bucket) ∧
        members ≠ [] := by
  rw [MetricStore.buckets, (GroupBy.perm_sorted _ _).mem_iff, GroupBy.mem_groups_iff]

/-- Later buckets are behind earlier ones, and none comes twice. -/
theorem pairwise_buckets :
    (store.buckets interval width host).Pairwise fun a b => a.1 < b.1 :=
  GroupBy.pairwise_sorted _ _

/-- Every selected row is in the bucket of its time. -/
theorem exists_mem_buckets (width : BucketSeconds) {row : StoredMetric}
    (h : row ∈ store.selected interval host) :
    ∃ members, (bucketOf width row.timestamp, members) ∈ store.buckets interval width host ∧
      row ∈ members := by
  obtain ⟨members, hmembers, hrow⟩ := GroupBy.mem_group_of_mem (bucketOf width ·.timestamp) h
  exact ⟨members, (GroupBy.perm_sorted _ _).mem_iff.mpr hmembers, hrow⟩

/-- The number of a bucket among all that there are. -/
def bucketNumber (width : BucketSeconds) (bucket : DateTime) : ℤ :=
  bucket.nanos / (width.val * 1000000000)

theorem nanos_bucketOf (width : BucketSeconds) (timestamp : DateTime) :
    (bucketOf width timestamp).nanos = bucketNumber width timestamp * (width.val * 1000000000) :=
  rfl

theorem bucketNumber_bucketOf (width : BucketSeconds) (timestamp : DateTime) :
    bucketNumber width (bucketOf width timestamp) = bucketNumber width timestamp := by
  have hpos := width.pos
  rw [bucketNumber, nanos_bucketOf, Int.mul_ediv_cancel _ (by omega)]

theorem exists_of_mem_buckets {group : DateTime × List StoredMetric}
    (h : group ∈ store.buckets interval width host) :
    ∃ row ∈ store.selected interval host, bucketOf width row.timestamp = group.1 := by
  obtain ⟨hmembers, hne⟩ := mem_buckets_iff.mp h
  obtain ⟨row, hrow⟩ := List.exists_mem_of_ne_nil _ hne
  rw [hmembers, List.mem_filter, decide_eq_true_iff] at hrow
  exact ⟨row, hrow⟩

/-- **Rows of a stretch of time have few buckets.** -/
theorem length_buckets_le {first last : ℤ} (hspan : ∀ row ∈ store.selected interval host,
      first ≤ row.timestamp.nanos ∧ row.timestamp.nanos ≤ last) :
    (store.buckets interval width host).length
      ≤ (last / (width.val * 1000000000) + 1 - first / (width.val * 1000000000)).toNat := by
  have hpos : (0 : ℤ) < width.val * 1000000000 := by
    have := width.pos
    omega
  -- two buckets do not have one number
  have hnodup : ((store.buckets interval width host).map (bucketNumber width ·.1)).Nodup := by
    refine List.pairwise_map.mpr (pairwise_buckets.imp_of_mem fun {a b} ha hb hlt heq => ?_)
    obtain ⟨row, -, ha⟩ := exists_of_mem_buckets ha
    obtain ⟨row', -, hb⟩ := exists_of_mem_buckets hb
    rw [← ha, ← hb, bucketNumber_bucketOf, bucketNumber_bucketOf] at heq
    rw [← ha, ← hb, DateTime.lt_iff, nanos_bucketOf, nanos_bucketOf, heq] at hlt
    exact lt_irrefl _ hlt
  have hsub : ((store.buckets interval width host).map (bucketNumber width ·.1)).toFinset ⊆
      Finset.Icc (first / (width.val * 1000000000)) (last / (width.val * 1000000000)) := by
    intro number hnumber
    obtain ⟨group, hgroup, rfl⟩ := List.mem_map.mp (List.mem_toFinset.mp hnumber)
    obtain ⟨row, hrow, hbucket⟩ := exists_of_mem_buckets hgroup
    obtain ⟨hfirst, hlast⟩ := hspan row hrow
    rw [← hbucket, bucketNumber_bucketOf, Finset.mem_Icc]
    exact ⟨Int.ediv_le_ediv hpos hfirst, Int.ediv_le_ediv hpos hlast⟩
  have hcard := Finset.card_le_card hsub
  rwa [List.toFinset_card_of_nodup hnodup, List.length_map, Int.card_Icc] at hcard

end Buckets

end Sentinalysis.Db
