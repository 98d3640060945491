/-
# Sentinalysis.Hub.Retention — one pass over the tables whose rows are kept for some days only.

Whether a pass deletes only what it may, and all that it must, are two questions.  The first depends
on the window, which is unsigned in the configuration and signed in the statement; the second on the
number of rows past the window, since one statement deletes ten thousand at most.
-/
import Sentinalysis.Db.AppEventRepo
import Sentinalysis.Db.LogEntryRepo
import Sentinalysis.Db.SystemMetricRepo
import Sentinalysis.Error

namespace Sentinalysis.Hub

open Lib Db

/-- The part of `HubConfig` that says how many days rows are kept; zero keeps them for ever. -/
structure HubConfig where
  retentionDays : UInt32 := 90
  metricsRetentionDays : UInt32 := 30

namespace Retention

/-- The tables a pass goes over. -/
structure Tables where
  events : AppEvents := {}
  logs : LogEntries := {}
  metrics : SystemMetrics := {}

/-- What a statement meets: the clock of the database, the order in which it finds the rows, and
its failure, if it fails. -/
structure Statement (α : Type) where
  now : DateTime
  scan : Scan α
  failure : Option SentinelError

/-- The statements of a pass. -/
structure Pass where
  events : Statement AppEventRow
  logs : Statement LogEntry
  metrics : Statement SystemMetricRow

/-- The events, then the log entries; a failure leaves what was done. -/
def pruneRetained (pass : Pass) (hub : HubConfig) (tables : Tables) :
    Except SentinelError Unit × Tables :=
  if 0 < hub.retentionDays then
    match pass.events.failure with
    | some e => (.error e, tables)
    | none =>
      let events :=
        AppEventRepository.prune tables.events pass.events.scan pass.events.now hub.retentionDays
      match pass.logs.failure with
      | some e => (.error e, { tables with events := events.2 })
      | none =>
        let logs := pruneLogEntries tables.logs pass.logs.scan pass.logs.now hub.retentionDays
        (.ok (), { tables with events := events.2, logs := logs.2 })
  else (.ok (), tables)

/-- The metrics, with their own window. -/
def pruneMetrics (pass : Pass) (hub : HubConfig) (tables : Tables) :
    Except SentinelError Unit × Tables :=
  if 0 < hub.metricsRetentionDays then
    match pass.metrics.failure with
    | some e => (.error e, tables)
    | none =>
      let metrics := SystemMetricRepository.prune tables.metrics pass.metrics.scan pass.metrics.now
        hub.metricsRetentionDays
      (.ok (), { tables with metrics := metrics.2 })
  else (.ok (), tables)

/-- `prune_all`. -/
def pruneAll (pass : Pass) (hub : HubConfig) (tables : Tables) :
    Except SentinelError Unit × Tables :=
  match pruneRetained pass hub tables with
  | (.error e, tables) => (.error e, tables)
  | (.ok (), tables) => pruneMetrics pass hub tables

/-! ## A pass that succeeds -/

/-- With both windows set, a pass that succeeds has run its three statements. -/
theorem pruneAll_of_ok {pass : Pass} {hub : HubConfig} {tables : Tables}
    (hdays : 0 < hub.retentionDays) (hmetrics : 0 < hub.metricsRetentionDays)
    (hok : (pruneAll pass hub tables).1 = .ok ()) : (pruneAll pass hub tables).2 =
      { events := (AppEventRepository.prune tables.events pass.events.scan pass.events.now
          hub.retentionDays).2
        logs := (pruneLogEntries tables.logs pass.logs.scan pass.logs.now hub.retentionDays).2
        metrics := (SystemMetricRepository.prune tables.metrics pass.metrics.scan pass.metrics.now
          hub.metricsRetentionDays).2 } := by
  unfold pruneAll pruneRetained pruneMetrics at *
  simp only [hdays, hmetrics, if_true] at *
  cases hevents : pass.events.failure with
  | some e => simp only [hevents] at hok; cases hok
  | none =>
    cases hlogs : pass.logs.failure with
    | some e => simp only [hevents, hlogs] at hok; cases hok
    | none =>
      cases hfailure : pass.metrics.failure with
      | some e => simp only [hevents, hlogs, hfailure] at hok; cases hok
      | none => rfl

/-! ## Only what is past the window -/

section

variable {α : Type} {id : α → Uuid}

/-- A way of pruning deletes only rows that are more than some days old. -/
def DeletesOnlyOld (timestamp : α → DateTime)
    (prune : Keyed id → Scan α → DateTime → ℕ × Keyed id) (days : ℕ) : Prop :=
  ∀ table scan now, ∀ row ∈ table.rows, row ∉ (prune table scan now).2.rows →
    OlderThan (timestamp row) now days

/-- The statement deletes only old rows exactly when the window fits in a signed number.  A window
that does not fit ends in the future: a row of this very moment is deleted. -/
theorem prune_deletesOnlyOld_iff (timestamp : α → DateTime) (row : α) (keepDays : UInt32) :
    DeletesOnlyOld timestamp
        (fun (table : Keyed id) scan now => prune timestamp table scan now keepDays)
      keepDays.toNat ↔ keepDays.toNat < 2147483648 := by
  constructor
  · intro h
    by_contra hlarge
    have hexpired := expired_of_not_fits (not_lt.mp hlarge) (timestamp row)
    let table : Keyed id := { rows := [row], ids := List.nodup_singleton _ }
    have hold := h table (Scan.sequential α) (timestamp row) row (List.mem_singleton.mpr rfl) ?_
    · simp only [OlderThan, makeInterval] at hold
      omega
    · -- The row is the whole batch.
      intro hleft
      obtain ⟨-, hkept⟩ := (Keyed.mem_deleteBatch table _ _ _).mp hleft
      apply hkept
      have hfound : table.rows.filter
          (fun other => expired (timestamp other) (timestamp row) (castSigned keepDays)) = [row] :=
        List.filter_cons_of_pos hexpired
      simp only [Keyed.batch, Scan.sequential, hfound]
      exact List.mem_singleton.mpr rfl
  · intro hfits table scan now row hrow hdeleted
    have hexpired := Keyed.of_not_mem_deleteBatch table scan _ pruneLimit hrow hdeleted
    rw [expired_eq_olderThan hfits, decide_eq_true_iff] at hexpired
    exact hexpired

end

/-- Some event, some entry and some metric of an instant. -/
def eventAt (now : DateTime) : AppEventRow where
  id := 1
  appName := "globalware"
  eventType := "cart_add"
  userId := none
  payload := .object []
  timestamp := now

def entryAt (now : DateTime) : LogEntry where
  id := 1
  serviceId := none
  timestamp := now
  level := "info"
  message := "ready"
  rawLine := none
  clientIp := none
  requestPath := none
  statusCode := none
  responseTimeMs := none
  isNoise := false
  noiseReason := none
  threatLevel := "none"
  threatCategories := []
  sourceHost := none

def metricAt (now : DateTime) : SystemMetricRow where
  id := 1
  timestamp := now

open DateTime (epoch)

/-- **Retention deletes only what is past the window** exactly when the window fits in a signed
number of days, in each of the three tables. -/
theorem retention_deletesOnlyOld_iff (keepDays : UInt32) :
    (DeletesOnlyOld (·.timestamp)
        (fun events scan now => AppEventRepository.prune events scan now keepDays) keepDays.toNat ↔
      keepDays.toNat < 2147483648) ∧
    (DeletesOnlyOld (·.timestamp)
        (fun logs scan now => pruneLogEntries logs scan now keepDays) keepDays.toNat ↔
      keepDays.toNat < 2147483648) ∧
    (DeletesOnlyOld (·.timestamp)
        (fun metrics scan now => SystemMetricRepository.prune metrics scan now keepDays)
        keepDays.toNat ↔
      keepDays.toNat < 2147483648) :=
  ⟨prune_deletesOnlyOld_iff _ (eventAt epoch) keepDays,
    prune_deletesOnlyOld_iff _ (entryAt epoch) keepDays,
    prune_deletesOnlyOld_iff _ (metricAt epoch) keepDays⟩

/-- The largest window is one day in the future: what is stored right now is deleted. -/
theorem presentRow_deleted : (0 : UInt32) < 4294967295 ∧
    ¬ DeletesOnlyOld (·.timestamp)
      (fun logs scan now => pruneLogEntries logs scan now 4294967295)
      (4294967295 : UInt32).toNat := by
  refine ⟨by decide, fun h => ?_⟩
  let logs : LogEntries := { rows := [entryAt epoch], ids := List.nodup_singleton _ }
  have hold := h logs (Scan.sequential LogEntry) epoch (entryAt epoch)
    (List.mem_singleton.mpr rfl) (by decide +kernel)
  revert hold
  decide +kernel

/-! ## All that is past the window -/

section

variable {α : Type} {id : α → Uuid}

/-- No row of a table is more than some days old. -/
def NoneOlder (timestamp : α → DateTime) (table : Keyed id) (now : DateTime) (days : ℕ) : Prop :=
  ∀ row ∈ table.rows, ¬ OlderThan (timestamp row) now days

/-- The statement leaves no old row exactly when there are no more of them than it can delete. -/
theorem prune_noneOlder_iff (timestamp : α → DateTime) (table : Keyed id) (scan : Scan α)
    (now : DateTime) {keepDays : UInt32} (hfits : keepDays.toNat < 2147483648) :
    NoneOlder timestamp (prune timestamp table scan now keepDays).2 now keepDays.toNat ↔
      countOlder timestamp table now keepDays.toNat ≤ pruneLimit := by
  have hcount : countOlder timestamp table now keepDays.toNat = table.rows.countP
      fun row => expired (timestamp row) now (castSigned keepDays) := by
    unfold countOlder
    congr 1
    funext row
    rw [expired_eq_olderThan hfits]
  rw [hcount, ← Keyed.deleteBatch_complete_iff]
  unfold NoneOlder
  refine forall₂_congr fun row _ => ?_
  rw [expired_eq_olderThan hfits, decide_eq_false_iff_not]

end

/-- **A pass that succeeds is complete** exactly when no table has more rows past its window than
one statement deletes. -/
theorem pruneAll_complete_iff {pass : Pass} {hub : HubConfig} {tables : Tables}
    (hdays : 1 ≤ hub.retentionDays.toNat ∧ hub.retentionDays.toNat ≤ 36500)
    (hmetrics : 1 ≤ hub.metricsRetentionDays.toNat ∧ hub.metricsRetentionDays.toNat ≤ 36500)
    (hok : (pruneAll pass hub tables).1 = .ok ()) :
    (NoneOlder (·.timestamp) (pruneAll pass hub tables).2.events pass.events.now
        hub.retentionDays.toNat ∧
      NoneOlder (·.timestamp) (pruneAll pass hub tables).2.logs pass.logs.now
        hub.retentionDays.toNat ∧
      NoneOlder (·.timestamp) (pruneAll pass hub tables).2.metrics pass.metrics.now
        hub.metricsRetentionDays.toNat) ↔
    countOlder (·.timestamp) tables.events pass.events.now hub.retentionDays.toNat ≤ pruneLimit ∧
      countOlder (·.timestamp) tables.logs pass.logs.now hub.retentionDays.toNat ≤ pruneLimit ∧
      countOlder (·.timestamp) tables.metrics pass.metrics.now hub.metricsRetentionDays.toNat
        ≤ pruneLimit := by
  have hset : 0 < hub.retentionDays := UInt32.lt_iff_toNat_lt.mpr (by show 0 < _; omega)
  have hset' : 0 < hub.metricsRetentionDays := UInt32.lt_iff_toNat_lt.mpr (by show 0 < _; omega)
  rw [pruneAll_of_ok hset hset' hok]
  have hfits : hub.retentionDays.toNat < 2147483648 := by omega
  have hfits' : hub.metricsRetentionDays.toNat < 2147483648 := by omega
  refine and_congr ?_ (and_congr ?_ ?_)
  · exact prune_noneOlder_iff _ tables.events pass.events.scan pass.events.now hfits
  · exact prune_noneOlder_iff _ tables.logs pass.logs.scan pass.logs.now hfits
  · exact prune_noneOlder_iff _ tables.metrics pass.metrics.scan pass.metrics.now hfits'

/-- A hundred days after the epoch. -/
def later : DateTime := ⟨100 * (24 * 3600 * 1000000000), by decide, by decide⟩

/-- A pass at that time in which nothing fails. -/
def quietPass : Pass where
  events := ⟨later, Scan.sequential AppEventRow, none⟩
  logs := ⟨later, Scan.sequential LogEntry, none⟩
  metrics := ⟨later, Scan.sequential SystemMetricRow, none⟩

/-- One old row in each table. -/
def fewRows : Tables where
  events := { rows := [eventAt epoch], ids := List.nodup_singleton _ }
  logs := { rows := [entryAt epoch], ids := List.nodup_singleton _ }
  metrics := { rows := [metricAt epoch], ids := List.nodup_singleton _ }

/-- With the default windows, the three rows go. -/
theorem pruneAll_complete_fewRows :
    NoneOlder (·.timestamp) (pruneAll quietPass {} fewRows).2.events later 90 ∧
      NoneOlder (·.timestamp) (pruneAll quietPass {} fewRows).2.logs later 90 ∧
      NoneOlder (·.timestamp) (pruneAll quietPass {} fewRows).2.metrics later 30 :=
  (pruneAll_complete_iff (by decide) (by decide) rfl).mpr (by decide +kernel)

/-- `n` entries of the epoch. -/
def manyRows (n : ℕ) : Tables where
  logs :=
    { rows := (List.range n).map fun i => { entryAt epoch with id := i }
      ids := by
        rw [List.map_map]
        exact (List.map_id (List.range n)).symm ▸ List.nodup_range }

theorem countOlder_manyRows (n : ℕ) :
    countOlder (·.timestamp) (manyRows n).logs later 90 = n := by
  have hold : ∀ row ∈ (manyRows n).logs.rows,
      decide (OlderThan row.timestamp later 90) = true := by
    intro row hrow
    obtain ⟨i, -, rfl⟩ := List.mem_map.mp hrow
    show decide (OlderThan epoch later 90) = true
    decide
  calc countOlder (·.timestamp) (manyRows n).logs later 90
      = (manyRows n).logs.rows.length := List.countP_eq_length.mpr hold
    _ = (List.range n).length := List.length_map _
    _ = n := List.length_range

theorem countOlder_le_of_quietPass {tables : Tables}
    (hok : (pruneAll quietPass {} tables).1 = .ok ())
    (hnone : NoneOlder (·.timestamp) (pruneAll quietPass {} tables).2.logs later 90) :
    countOlder (·.timestamp) tables.logs later 90 ≤ pruneLimit := by
  have hfits : (90 : UInt32).toNat < 2147483648 := by decide
  rw [pruneAll_of_ok (by decide) (by decide) hok] at hnone
  exact (prune_noneOlder_iff _ tables.logs (Scan.sequential LogEntry) later hfits).mp hnone

/-- The pass succeeds, and an entry that is a hundred days old is still there. -/
theorem expiredRow_left : (pruneAll quietPass {} (manyRows 10001)).1 = .ok () ∧
    ¬ NoneOlder (·.timestamp) (pruneAll quietPass {} (manyRows 10001)).2.logs later 90 := by
  have hok : (pruneAll quietPass {} (manyRows 10001)).1 = .ok () := rfl
  refine ⟨hok, fun hnone => ?_⟩
  have hcount := countOlder_le_of_quietPass hok hnone
  rw [countOlder_manyRows] at hcount
  unfold pruneLimit at hcount
  omega

end Retention

end Sentinalysis.Hub
